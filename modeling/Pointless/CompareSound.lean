import Pointless.Sound

/-!
# Comparing the values of a sound file

A comparison of reachable values stops with a message or returns, with one
exception: when it meets a bitvector of the heap on its left and an inline
bitvector on its right, it follows the null buffer of the second.
-/

namespace Pointless

open ByteMemory ExceptRules

/-- The encodings of bitvectors that have no buffer. -/
def isInlineBitvector (t : ValueType) : Bool := isBitvectorType t && t ≠ .bitvector

/-- A nonempty bitvector of the heap of one file next to a nonempty inline bitvector of
another. -/
def BitvectorClashAcross (pA pB : OpenFile) (a b : Value) : Prop :=
  a.type = .bitvector ∧ isInlineBitvector b.type = true ∧
    ∃ nA nB, readerBitvectorNBits pA a = .ok nA ∧ readerBitvectorNBits pB b = .ok nB ∧
      0 < nA.toNat ∧ 0 < nB.toNat

/-- A nonempty bitvector of the heap next to a nonempty inline bitvector. -/
def BitvectorClash (p : OpenFile) (a b : Value) : Prop :=
  a.type = .bitvector ∧ isInlineBitvector b.type = true ∧
    ∃ nA nB, readerBitvectorNBits p a = .ok nA ∧ readerBitvectorNBits p b = .ok nB ∧
      0 < nA.toNat ∧ 0 < nB.toNat

/-- Two vectors whose items `compare` as equal up to a position at which the items
meet. -/
def ItemsMeet (p : OpenFile) (compare : CompleteValue → CompleteValue → Res Int)
    (meets : CompleteValue → CompleteValue → Prop) (a b : Value) : Prop :=
  ∃ nA nB i cA cB, readerVectorNItems p a = .ok nA ∧ readerVectorNItems p b = .ok nB ∧
    i < min nA.toNat nB.toNat ∧
    (∀ j < i, ∃ cA cB, readerVectorValueCase p a j = .ok cA ∧
      readerVectorValueCase p b j = .ok cB ∧ compare cA cB = .ok 0) ∧
    readerVectorValueCase p a i = .ok cA ∧ readerVectorValueCase p b i = .ok cB ∧ meets cA cB

/-- The comparison of `a` with `b` at some depth gets to a pair of clashing
bitvectors: the two values are one, or at the first position where their items do
not compare equal the comparison of the items gets to one. -/
def MeetsClash (p : OpenFile) : Nat → CompleteValue → CompleteValue → Nat → Prop
  | 0, _, _, _ => False
  | fuel + 1, a, b, depth =>
      depth < maxDepth ∧
      (BitvectorClash p a.toValue b.toValue ∨
        isVectorType a.type = true ∧ isVectorType b.type = true ∧
          ItemsMeet p (fun cA cB => cmpReaderRec true p p fuel cA cB (depth + 2))
            (fun cA cB => MeetsClash p fuel cA cB (depth + 2)) a.toValue b.toValue)

/-! ## Sequences -/

theorem cmpSeq_range'_error {compare : Nat → Res Int} {last : Int} {stop : Stop} (n s : Nat) :
    cmpSeq compare last (List.range' s n) = .error stop ↔
      ∃ i, s ≤ i ∧ i < s + n ∧ (∀ j, s ≤ j → j < i → compare j = .ok 0) ∧
        compare i = .error stop := by
  induction n generalizing s with
  | zero =>
      constructor
      · intro failed
        cases failed
      · rintro ⟨i, low, high, -⟩
        omega
  | succ n ih =>
      rw [List.range'_succ, cmpSeq]
      cases first : compare s with
      | error e =>
          rw [error_bind]
          constructor
          · intro failed
            exact ⟨s, Nat.le_refl s, by omega, fun j low high => by omega, by rw [first, failed]⟩
          · rintro ⟨i, low, high, before, failed⟩
            rcases Nat.lt_or_eq_of_le low with later | rfl
            · have equal := before s (Nat.le_refl s) later
              rw [first] at equal
              cases equal
            · rw [← failed, first]
      | ok c =>
          rw [ok_bind]
          by_cases zero : c = 0
          · rw [if_neg (not_not.mpr zero), ih]
            constructor
            · rintro ⟨i, low, high, before, failed⟩
              refine ⟨i, by omega, by omega, fun j jLow jHigh => ?_, failed⟩
              rcases Nat.lt_or_eq_of_le jLow with later | rfl
              · exact before j later jHigh
              · rw [first, zero]
            · rintro ⟨i, low, high, before, failed⟩
              rcases Nat.lt_or_eq_of_le low with later | rfl
              · exact ⟨i, later, by omega, fun j jLow => before j (by omega), failed⟩
              · rw [first] at failed
                cases failed
          · rw [if_pos zero]
            constructor
            · intro failed
              cases failed
            · rintro ⟨i, low, high, before, failed⟩
              rcases Nat.lt_or_eq_of_le low with later | rfl
              · have equal := before s (Nat.le_refl s) later
                rw [first] at equal
                cases equal
                exact absurd rfl zero
              · rw [first] at failed
                cases failed

/-- A comparison position by position stops where the first position that does not
compare equal stops. -/
theorem cmpSeq_error {compare : Nat → Res Int} {last : Int} {stop : Stop} {n : Nat} :
    cmpSeq compare last (List.range n) = .error stop ↔
      ∃ i < n, (∀ j < i, compare j = .ok 0) ∧ compare i = .error stop := by
  rw [List.range_eq_range', cmpSeq_range'_error]
  constructor
  · rintro ⟨i, -, high, before, failed⟩
    exact ⟨i, by omega, fun j less => before j (Nat.zero_le j) less, failed⟩
  · rintro ⟨i, less, before, failed⟩
    exact ⟨i, Nat.zero_le i, by omega, fun j _ => before j, failed⟩

/-! ## Bitvectors -/

section Bitvectors

variable {p : OpenFile} {a b : Value}

theorem readerBitvectorNBits_eq {v : Value} {buffer : Ptr} {n : UInt32}
    (read : readerBitvectorPtr p v = .ok buffer) (bits : BitsInside v.type v.data buffer n) :
    readerBitvectorNBits p v = .ok n := by
  rw [readerBitvectorNBits, read, ok_bind, bits.nBits]

/-- The bits of `b` can be read under the type of `a`, unless only `a` has a buffer. -/
theorem isSet_under_type (aType : isBitvectorType a.type = true)
    (packed : a.type = .bitvectorPacked → packedNBits a.data ≤ 27)
    {bufferA bufferB : Ptr} {nA nB : UInt32} (aBits : BitsInside a.type a.data bufferA nA)
    (bBits : BitsInside b.type b.data bufferB nB)
    (noClash : a.type = .bitvector → b.type = .bitvector) {i : Nat}
    (less : i < min nA.toNat nB.toNat) : ∃ bit, bitvectorIsSet a.type b.data bufferB i = .ok bit := by
  by_cases heap : a.type = .bitvector
  · have bHeap := noClash heap
    obtain ⟨bit, read⟩ := bBits.isSet i (by omega)
    rw [bHeap] at read
    rw [heap]
    exact ⟨bit, read⟩
  · unfold isBitvectorType at aType
    split at aType
    case h_1 type => exact absurd type heap
    case h_6 type =>
      have few := packed type
      have count := aBits.nBits
      rw [type] at count
      cases count
      rw [UInt32.toNat_ofNat', Nat.mod_eq_of_lt (by omega)] at less
      have size : (i + 5) / 8 < (bytesU32 b.data).length := by
        rw [bytesU32, length_encode]
        omega
      rw [type]
      exact bmIsSet_inside size
    case h_7 => cases aType
    all_goals
      rename_i type
      rw [type]
      exact ⟨_, rfl⟩

/-- Comparing two reachable bitvectors returns, unless they clash. -/
theorem cmpBitvectors_across {pA pB : OpenFile} (soundA : pA.Sound) (soundB : pB.Sound)
    (aReach : Reachable pA a) (bReach : Reachable pB b)
    (aType : isBitvectorType a.type = true) (bType : isBitvectorType b.type = true) :
    ∃ bufferA bufferB, readerBitvectorPtr pA a = .ok bufferA ∧
      readerBitvectorPtr pB b = .ok bufferB ∧
      ((BitvectorClashAcross pA pB a b ∧
          bitvectorCmpBufferBuffer a.type a.data bufferA b.type b.data bufferB =
            fault .nullPointer) ∨
        (¬BitvectorClashAcross pA pB a b ∧ ∃ c,
          bitvectorCmpBufferBuffer a.type a.data bufferA b.type b.data bufferB = .ok c)) := by
  obtain ⟨bufferA, nA, aRead, aBits, -⟩ := soundA.bits aReach aType
  obtain ⟨bufferB, nB, bRead, bBits, bNull⟩ := soundB.bits bReach bType
  refine ⟨bufferA, bufferB, aRead, bRead, ?_⟩
  have aCount := readerBitvectorNBits_eq aRead aBits
  have bCount := readerBitvectorNBits_eq bRead bBits
  rw [bitvectorCmpBufferBuffer, aBits.nBits, ok_bind, bBits.nBits, ok_bind]
  by_cases clash : BitvectorClashAcross pA pB a b
  · refine Or.inl ⟨clash, ?_⟩
    obtain ⟨heap, inline, mA, mB, aCount', bCount', aPositive, bPositive⟩ := clash
    rw [aCount] at aCount'
    rw [bCount] at bCount'
    cases aCount'
    cases bCount'
    refine cmpSeq_error.mpr ⟨0, by omega, fun j less => by omega, ?_⟩
    obtain ⟨bit, read⟩ := aBits.isSet 0 aPositive
    have notHeap : b.type ≠ .bitvector := by
      unfold isInlineBitvector at inline
      exact of_decide_eq_true (Bool.and_eq_true _ _ ▸ inline).2
    rw [read, ok_bind, heap, bNull notHeap]
    rfl
  · refine Or.inr ⟨clash, ?_⟩
    have positions : ∀ i < min nA.toNat nB.toNat, ∃ c : Int, (do
        let ba ← bitvectorIsSet a.type a.data bufferA i
        let bb ← bitvectorIsSet a.type b.data bufferB i
        pure (simpleCmp ba.toNat bb.toNat)) = (.ok c : Res Int) := by
      intro i less
      have noClash : a.type = .bitvector → b.type = .bitvector := by
        intro heap
        by_contra notHeap
        refine clash ⟨heap, ?_, nA, nB, aCount, bCount, by omega, by omega⟩
        unfold isInlineBitvector
        simp [bType, notHeap]
      obtain ⟨ba, aBit⟩ := aBits.isSet i (by omega)
      obtain ⟨bb, bBit⟩ := isSet_under_type aType
        (fun type => (soundA.checked a aReach).packed type) aBits bBits noClash less
      exact ⟨_, by rw [aBit, ok_bind, bBit]; rfl⟩
    cases compared : cmpSeq (fun i => do
        let ba ← bitvectorIsSet a.type a.data bufferA i
        let bb ← bitvectorIsSet a.type b.data bufferB i
        pure (simpleCmp ba.toNat bb.toNat))
      (simpleCmp nA nB) (List.range (min nA.toNat nB.toNat)) with
    | ok c => exact ⟨c, rfl⟩
    | error stop =>
        obtain ⟨i, less, -, failed⟩ := cmpSeq_error.mp compared
        obtain ⟨c, returned⟩ := positions i less
        rw [returned] at failed
        cases failed

theorem cmpBitvectors (sound : p.Sound) (aReach : Reachable p a) (bReach : Reachable p b)
    (aType : isBitvectorType a.type = true) (bType : isBitvectorType b.type = true) :
    ∃ bufferA bufferB, readerBitvectorPtr p a = .ok bufferA ∧
      readerBitvectorPtr p b = .ok bufferB ∧
      ((BitvectorClash p a b ∧ bitvectorCmpBufferBuffer a.type a.data bufferA b.type b.data bufferB
          = fault .nullPointer) ∨
        (¬BitvectorClash p a b ∧ ∃ c,
          bitvectorCmpBufferBuffer a.type a.data bufferA b.type b.data bufferB = .ok c)) :=
  cmpBitvectors_across sound sound aReach bReach aType bType

end Bitvectors

/-! ## Readable values -/

/-- What a comparison gets to: a reachable value, or a number out of a vector. -/
inductive Readable (p : OpenFile) : CompleteValue → Prop where
  | value {v : Value} : Reachable p v → Readable p v.toComplete
  | number {c : CompleteValue} : cmpReaderFunc c.type = some .intFloat → Readable p c

section Readables

variable {p : OpenFile}

theorem Readable.reachable {c : CompleteValue} (readable : Readable p c)
    (func : cmpReaderFunc c.type ≠ some .intFloat) : Reachable p c.toValue := by
  cases readable with
  | value reach => rwa [Value.toValue_toComplete]
  | number bad => exact absurd bad func

/-- A readable value has a comparison callback. -/
theorem Readable.func (sound : p.Sound) {c : CompleteValue} (readable : Readable p c) :
    ∃ func, cmpReaderFunc c.type = some func := by
  cases readable with
  | number func => exact ⟨_, func⟩
  | @value v reach =>
      obtain ⟨-, -, known⟩ := (sound.checked v reach).type_ne
      rw [Value.toComplete_type]
      cases type : v.type
      case unknown code => exact absurd type (known code)
      all_goals exact ⟨_, rfl⟩

/-- The items of a reachable vector are readable. -/
theorem OpenFile.Sound.itemCase (sound : p.Sound) {v : Value} (reach : Reachable p v)
    (type : isVectorType v.type = true) {n : UInt32} (count : readerVectorNItems p v = .ok n)
    {i : Nat} (less : i < n.toNat) :
    ∃ c, readerVectorValueCase p v i = .ok c ∧ Readable p c := by
  have number : ∀ {w : Nat} (f : Nat → CompleteValue), vectorItemLen v.type = some w →
      v.type ≠ .vectorEmpty → (∀ word, cmpReaderFunc (f word).type = some .intFloat) →
      ∃ c, f <$> readerVectorWord p v w i = .ok c ∧ Readable p c := by
    intro w f item nonempty isNumber
    obtain ⟨word, read⟩ := sound.word reach item nonempty count less
    exact ⟨f word, by rw [read]; rfl, .number (isNumber word)⟩
  have items : (v.type = .vectorValue ∨ v.type = .vectorValueHashable) →
      ∃ c, Value.toComplete <$> readerVectorValue p v i = .ok c ∧ Readable p c := by
    intro either
    obtain ⟨m, count', all⟩ := sound.items reach either
    rw [count] at count'
    cases count'
    obtain ⟨item, read, itemReach⟩ := all i less
    exact ⟨item.toComplete, by rw [read]; rfl, .value itemReach⟩
  unfold readerVectorValueCase
  cases tag : v.type
  case vectorValue => exact items (Or.inl tag)
  case vectorValueHashable => exact items (Or.inr tag)
  case vectorEmpty =>
    rw [readerVectorNItems, if_pos tag] at count
    cases count
    exact absurd less (Nat.not_lt_zero i)
  case vectorI8 | vectorU8 | vectorI16 | vectorU16 | vectorI32 | vectorU32 | vectorI64 |
      vectorU64 | vectorFloat =>
    simp only [readerVectorI8, readerVectorU8, readerVectorI16, readerVectorU16, readerVectorI32,
      readerVectorU32, readerVectorI64, readerVectorU64, readerVectorFloat, Functor.map_map]
    exact number _ (by rw [tag]; rfl) (by simp [tag]) (fun _ => rfl)
  all_goals
    rw [tag] at type
    cases type

end Readables

/-! ## The recursion -/

section Recursion

variable {p : OpenFile}

theorem cmpStringUnicode_across {pA pB : OpenFile} (soundA : pA.Sound) (soundB : pB.Sound)
    {a b : Value} (aReach : Reachable pA a) (bReach : Reachable pB b)
    (aType : a.type = .unicode ∨ a.type = .string) (bType : b.type = .unicode ∨ b.type = .string) :
    ∃ c, cmpStringUnicode a.type b.type (readerStringUnicodeValue pA a)
      (readerStringUnicodeValue pB b) = .ok c := by
  obtain ⟨mA, nA, aRead, aTerminated⟩ := soundA.stringChars aReach aType
  obtain ⟨mB, nB, bRead, bTerminated⟩ := soundB.stringChars bReach bType
  obtain ⟨c, compared⟩ := cmpString_terminated aTerminated bTerminated
  exact ⟨c, by rw [cmpStringUnicode, if_pos ⟨aType, bType⟩, aRead, ok_bind, bRead, ok_bind,
    compared]⟩

theorem cmpStringUnicode_readable (sound : p.Sound) {a b : Value} (aReach : Reachable p a)
    (bReach : Reachable p b) (aType : a.type = .unicode ∨ a.type = .string)
    (bType : b.type = .unicode ∨ b.type = .string) :
    ∃ c, cmpStringUnicode a.type b.type (readerStringUnicodeValue p a)
      (readerStringUnicodeValue p b) = .ok c :=
  cmpStringUnicode_across sound sound aReach bReach aType bType

theorem cmpReaderFunc_string {t : ValueType} (func : cmpReaderFunc t = some .stringUnicode) :
    t = .unicode ∨ t = .string := by
  unfold cmpReaderFunc at func
  split at func <;> first | exact Or.inl rfl | exact Or.inr rfl | cases func

theorem cmpReaderFunc_bitvector {t : ValueType} :
    cmpReaderFunc t = some .bitvector ↔ isBitvectorType t = true := by
  cases t <;> simp [cmpReaderFunc, isBitvectorType]

theorem cmpReaderFunc_vector {t : ValueType} :
    cmpReaderFunc t = some .vector ↔ isVectorType t = true := by
  cases t <;> simp [cmpReaderFunc, isVectorType]

/-- The outcomes of a comparison: it ends outside exactly when it meets a clash, and
otherwise it returns or stops with a message. -/
def CompareOutcome (clash : Prop) (outcome : Res Int) : Prop :=
  (clash ∧ outcome = fault .nullPointer) ∨
    (¬clash ∧ ((∃ c, outcome = .ok c) ∨ ∃ message, outcome = fail message))

theorem CompareOutcome.of_ok {clash : Prop} {c : Int} (noClash : ¬clash) :
    CompareOutcome clash (.ok c) := Or.inr ⟨noClash, Or.inl ⟨c, rfl⟩⟩

theorem CompareOutcome.of_fail {clash : Prop} {message : String} (noClash : ¬clash) :
    CompareOutcome clash (fail message) := Or.inr ⟨noClash, Or.inr ⟨message, rfl⟩⟩

/-- Values whose callbacks differ, or are not those of bitvectors or vectors, do not
clash. -/
theorem not_meetsClash {fuel depth : Nat} {a b : CompleteValue}
    (notBitvectors : ¬(cmpReaderFunc a.type = some .bitvector ∧
      cmpReaderFunc b.type = some .bitvector))
    (notVectors : ¬(cmpReaderFunc a.type = some .vector ∧ cmpReaderFunc b.type = some .vector)) :
    ¬MeetsClash p (fuel + 1) a b depth := by
  rintro ⟨-, ⟨heap, inline, -⟩ | ⟨aType, bType, -⟩⟩
  · refine notBitvectors ⟨?_, ?_⟩
    · change a.type = .bitvector at heap
      rw [heap]
      rfl
    · rw [cmpReaderFunc_bitvector]
      exact (Bool.and_eq_true _ _ ▸ inline).1
  · exact notVectors ⟨cmpReaderFunc_vector.mpr aType, cmpReaderFunc_vector.mpr bType⟩

/-- One level of a comparison of vectors, given how their items compare. -/
theorem cmpVectors_outcome (sound : p.Sound) {compare : CompleteValue → CompleteValue → Res Int}
    {meets : CompleteValue → CompleteValue → Prop} {a b : Value} (aReach : Reachable p a)
    (bReach : Reachable p b) (aType : isVectorType a.type = true)
    (bType : isVectorType b.type = true)
    (items : ∀ cA cB, Readable p cA → Readable p cB →
      CompareOutcome (meets cA cB) (compare cA cB)) :
    CompareOutcome (ItemsMeet p compare meets a b)
      (do
        let nItemsA ← readerVectorNItems p a
        let nItemsB ← readerVectorNItems p b
        cmpSeq (fun i => do
            let cA ← readerVectorValueCase p a i
            let cB ← readerVectorValueCase p b i
            compare cA cB)
          (simpleCmp nItemsA nItemsB) (List.range (min nItemsA.toNat nItemsB.toNat))) := by
  obtain ⟨nA, aCount⟩ := sound.nItems aReach aType
  obtain ⟨nB, bCount⟩ := sound.nItems bReach bType
  have position : ∀ i < min nA.toNat nB.toNat, ∃ cA cB, readerVectorValueCase p a i = .ok cA ∧
      readerVectorValueCase p b i = .ok cB ∧ Readable p cA ∧ Readable p cB := by
    intro i less
    obtain ⟨cA, aRead, aReadable⟩ := sound.itemCase aReach aType aCount (i := i) (by omega)
    obtain ⟨cB, bRead, bReadable⟩ := sound.itemCase bReach bType bCount (i := i) (by omega)
    exact ⟨cA, cB, aRead, bRead, aReadable, bReadable⟩
  rw [aCount, bCount, ok_bind, ok_bind]
  by_cases clash : ItemsMeet p compare meets a b
  · refine Or.inl ⟨clash, ?_⟩
    obtain ⟨mA, mB, i, cA, cB, aCount', bCount', less, before, aRead, bRead, meet⟩ := clash
    rw [aCount] at aCount'
    rw [bCount] at bCount'
    cases aCount'
    cases bCount'
    refine cmpSeq_error.mpr ⟨i, less, fun j jLess => ?_, ?_⟩
    · obtain ⟨cA, cB, aRead, bRead, equal⟩ := before j jLess
      rw [aRead, ok_bind, bRead, ok_bind, equal]
    · obtain ⟨cA', cB', aRead', bRead', aReadable, bReadable⟩ := position i less
      rw [aRead] at aRead'
      rw [bRead] at bRead'
      cases aRead'
      cases bRead'
      rw [aRead, ok_bind, bRead, ok_bind]
      rcases items cA cB aReadable bReadable with ⟨-, stopped⟩ | ⟨avoids, -⟩
      · exact stopped
      · exact absurd meet avoids
  · refine Or.inr ⟨clash, ?_⟩
    cases compared : cmpSeq (fun i => do
        let cA ← readerVectorValueCase p a i
        let cB ← readerVectorValueCase p b i
        compare cA cB)
      (simpleCmp nA nB) (List.range (min nA.toNat nB.toNat)) with
    | ok c => exact Or.inl ⟨c, rfl⟩
    | error stop =>
        obtain ⟨i, less, before, failed⟩ := cmpSeq_error.mp compared
        obtain ⟨cA, cB, aRead, bRead, aReadable, bReadable⟩ := position i less
        rw [aRead, ok_bind, bRead, ok_bind] at failed
        rcases items cA cB aReadable bReadable with ⟨meet, -⟩ | ⟨-, ⟨c, returned⟩ | ⟨message, stopped⟩⟩
        · refine absurd ⟨nA, nB, i, cA, cB, aCount, bCount, less, fun j jLess => ?_, aRead, bRead,
            meet⟩ clash
          obtain ⟨dA, dB, aRead, bRead, -⟩ := position j (by omega)
          have equal := before j jLess
          rw [aRead, ok_bind, bRead, ok_bind] at equal
          exact ⟨dA, dB, aRead, bRead, equal⟩
        · rw [returned] at failed
          cases failed
        · rw [stopped] at failed
          cases failed
          exact Or.inr ⟨message, rfl⟩

/-- How the comparison of two readable values ends. -/
theorem cmpReaderRec_outcome (sound : p.Sound) {fuel depth : Nat} {a b : CompleteValue}
    (aReadable : Readable p a) (bReadable : Readable p b)
    (enough : maxDepth + 1 < 2 * fuel + depth) (bound : depth ≤ maxDepth + 1) :
    CompareOutcome (MeetsClash p fuel a b depth) (cmpReaderRec true p p fuel a b depth) := by
  induction fuel generalizing a b depth with
  | zero => omega
  | succ fuel ih =>
      rw [cmpReaderRec]
      by_cases deep : maxDepth ≤ depth
      · rw [if_pos ⟨rfl, deep⟩]
        exact .of_fail fun meets => absurd meets.1 (Nat.not_lt.mpr deep)
      · rw [if_neg fun both => deep both.2]
        by_cases sameFunc : cmpReaderFunc a.type = cmpReaderFunc b.type
        · rw [if_neg (not_not.mpr sameFunc)]
          obtain ⟨func, aFunc⟩ := aReadable.func sound
          have bFunc := sameFunc ▸ aFunc
          rw [aFunc]
          have reaches : func ≠ .intFloat → Reachable p a.toValue ∧ Reachable p b.toValue := by
            intro notNumber
            have other : some func ≠ some CmpFunc.intFloat := fun same =>
              notNumber (Option.some_inj.mp same)
            exact ⟨aReadable.reachable (aFunc ▸ other), bReadable.reachable (bFunc ▸ other)⟩
          have noClash : func ≠ .bitvector → func ≠ .vector →
              ¬MeetsClash p (fuel + 1) a b depth := by
            intro notBitvector notVector
            refine not_meetsClash ?_ ?_ <;> rw [aFunc, Option.some_inj]
            · exact fun both => notBitvector both.1
            · exact fun both => notVector both.1
          cases func
          case stringUnicode =>
            obtain ⟨aReach, bReach⟩ := reaches (by decide)
            obtain ⟨c, compared⟩ := cmpStringUnicode_readable sound aReach bReach
              (cmpReaderFunc_string aFunc) (cmpReaderFunc_string bFunc)
            simp only
            rw [show a.type = a.toValue.type from rfl, show b.type = b.toValue.type from rfl,
              compared]
            exact .of_ok (noClash (by decide) (by decide))
          case bitvector =>
            obtain ⟨aReach, bReach⟩ := reaches (by decide)
            have aType := cmpReaderFunc_bitvector.mp aFunc
            have bType := cmpReaderFunc_bitvector.mp bFunc
            obtain ⟨bufferA, bufferB, aRead, bRead, outcome⟩ :=
              cmpBitvectors sound aReach bReach aType bType
            have clash : MeetsClash p (fuel + 1) a b depth ↔
                BitvectorClash p a.toValue b.toValue := by
              rw [MeetsClash]
              refine ⟨?_, fun clash => ⟨Nat.not_le.mp deep, Or.inl clash⟩⟩
              rintro ⟨-, clash | ⟨vector, -⟩⟩
              · exact clash
              · rw [← cmpReaderFunc_vector, aFunc] at vector
                cases vector
            simp only [aRead, bRead, ok_bind]
            rw [CompareOutcome, clash]
            rcases outcome with ⟨meets, stopped⟩ | ⟨avoids, c, returned⟩
            · exact Or.inl ⟨meets, stopped⟩
            · exact Or.inr ⟨avoids, Or.inl ⟨c, returned⟩⟩
          case vector =>
            obtain ⟨aReach, bReach⟩ := reaches (by decide)
            have aType := cmpReaderFunc_vector.mp aFunc
            have bType := cmpReaderFunc_vector.mp bFunc
            have items : ∀ cA cB, Readable p cA → Readable p cB →
                CompareOutcome (MeetsClash p fuel cA cB (depth + 2))
                  (cmpReaderRec true p p fuel cA cB (depth + 2)) :=
              fun cA cB aReadable bReadable => ih aReadable bReadable (by omega) (by omega)
            have outcome := cmpVectors_outcome sound aReach bReach aType bType items
            have notBitvector : ¬BitvectorClash p a.toValue b.toValue := by
              intro clash
              have type : a.type = .bitvector := clash.1
              rw [type] at aType
              cases aType
            have clash : MeetsClash p (fuel + 1) a b depth ↔
                ItemsMeet p (fun cA cB => cmpReaderRec true p p fuel cA cB (depth + 2))
                  (fun cA cB => MeetsClash p fuel cA cB (depth + 2)) a.toValue b.toValue := by
              rw [MeetsClash]
              exact ⟨fun meets => (meets.2.resolve_left notBitvector).2.2,
                fun below => ⟨Nat.not_le.mp deep, Or.inr ⟨aType, bType, below⟩⟩⟩
            rw [clash]
            simp only [not_true_eq_false, and_false, if_false, bind_pure]
            exact outcome
          case set => exact .of_fail (noClash (by decide) (by decide))
          case map => exact .of_fail (noClash (by decide) (by decide))
          all_goals exact .of_ok (noClash (by decide) (by decide))
        · rw [if_pos sameFunc]
          refine .of_ok (not_meetsClash ?_ ?_) <;>
            exact fun both => sameFunc (both.1.trans both.2.symm)

end Recursion

end Pointless
