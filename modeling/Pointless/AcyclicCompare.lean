import Pointless.NativeLookup

/-!
# The comparison without an error pointer

`pointless_cmp_reader_acyclic` reads its null `error` pointer after a pair of items that
compare equal, and so gets no further than the first items of two vectors. What it returns
is decided at the end of the chain of first items, and there the comparison with an `error`
pointer is decided as well.
-/

namespace Pointless

open Deciding ExceptRules

/-! ## Values and where the first items lead -/

/-- Neither a set nor a map, and the items of a vector are as `item` says. -/
def AcyclicOver (p : OpenFile) (item : CompleteValue → Prop) (c : CompleteValue) : Prop :=
  c.type ≠ .setValue ∧ c.type ≠ .mapValueValue ∧
    (isVectorType c.type = true → ∀ n i x, readerVectorNItems p c.toValue = .ok n → i < n.toNat →
      readerVectorValueCase p c.toValue i = .ok x → item x)

/-- There is no set or map in the value, and its items are nested to `levels` levels at
most. -/
def AcyclicWithin (p : OpenFile) : Nat → CompleteValue → Prop
  | 0 => AcyclicOver p fun _ => False
  | levels + 1 => AcyclicOver p (AcyclicWithin p levels)

theorem AcyclicWithin.toOver {p : OpenFile} {levels : Nat} {c : CompleteValue}
    (acyclic : AcyclicWithin p levels c) : ∃ item, AcyclicOver p item c := by
  cases levels with
  | zero => exact ⟨_, acyclic⟩
  | succ levels => exact ⟨_, acyclic⟩

section Pairs

variable (pA pB : OpenFile)

/-- Two vectors with items, of which the first are `cA` and `cB`. -/
structure FirstItems (a b cA cB : CompleteValue) : Prop where
  vectorA : isVectorType a.type = true
  vectorB : isVectorType b.type = true
  countA : ∃ n, readerVectorNItems pA a.toValue = .ok n ∧ 0 < n.toNat
  countB : ∃ n, readerVectorNItems pB b.toValue = .ok n ∧ 0 < n.toNat
  itemA : readerVectorValueCase pA a.toValue 0 = .ok cA
  itemB : readerVectorValueCase pB b.toValue 0 = .ok cB

/-- The first items of `a` and `b`, their first items and so on lead after `n` steps to `x`
and `y`, which are not two vectors with items. -/
inductive FirstPair : CompleteValue → CompleteValue → Nat → CompleteValue → CompleteValue → Prop
  | here {a b} (ends : ∀ cA cB, ¬FirstItems pA pB a b cA cB) : FirstPair a b 0 a b
  | items {a b cA cB n x y} (first : FirstItems pA pB a b cA cB) (rest : FirstPair cA cB n x y) :
      FirstPair a b (n + 1) x y

/-- Two values that are not two vectors with items are equal: they have the same text, number
or bits, or both are null, empty slots or empty vectors. -/
def LeafEqual (a b : CompleteValue) : Prop :=
  cmpReaderFunc a.type = cmpReaderFunc b.type ∧
    match cmpReaderFunc a.type with
    | some .stringUnicode =>
        ∃ chars, readText pA a.toValue = .ok chars ∧ readText pB b.toValue = .ok chars
    | some .intFloat => cmpIntFloat a.type a.data b.type b.data = 0
    | some .bitvector =>
        ∃ bufferA bufferB, readerBitvectorPtr pA a.toValue = .ok bufferA ∧
          readerBitvectorPtr pB b.toValue = .ok bufferB ∧
          bitvectorCmpBufferBuffer a.type a.toValue.data bufferA b.type b.toValue.data bufferB =
            .ok 0
    | some .vector =>
        readerVectorNItems pA a.toValue = .ok 0 ∧ readerVectorNItems pB b.toValue = .ok 0
    | some .null | some .emptySlot => True
    | _ => False

/-- The first items of two values lead to a pair whose bits can be read, and which is not
equal unless it is the two values themselves. -/
def FirstDiffer (a b : CompleteValue) : Prop :=
  ∃ n x y, FirstPair pA pB a b n x y ∧ ¬BitvectorClashAcross pA pB x.toValue y.toValue ∧
    (n = 0 ∨ ¬LeafEqual pA pB x y)

end Pairs

/-! ## The end of the chain -/

theorem known_of_cmpReaderFunc {t : ValueType} {func : CmpFunc}
    (isFunc : cmpReaderFunc t = some func) : t.Known := by
  cases t
  case unknown => cases isFunc
  all_goals trivial

section Leaf

variable {pA pB : OpenFile} (soundA : pA.Sound) (soundB : pB.Sound) {a b : CompleteValue}
  (aReadable : Readable pA a) (bReadable : Readable pB b)
include soundA soundB aReadable bReadable

/-- Two values of different kinds differ by their type codes. -/
theorem codes_differ (apart : cmpReaderFunc a.type ≠ cmpReaderFunc b.type) :
    simpleCmp a.type.code b.type.code ≠ 0 := by
  obtain ⟨funcA, aFunc⟩ := aReadable.func soundA
  obtain ⟨funcB, bFunc⟩ := bReadable.func soundB
  intro equal
  apply apart
  have same := congrArg ValueType.ofCode (simpleCmp_eq_zero.mp equal)
  rw [ValueType.ofCode_code (known_of_cmpReaderFunc aFunc),
    ValueType.ofCode_code (known_of_cmpReaderFunc bFunc)] at same
  rw [same]

/-- With or without an `error` pointer, the comparison of the two values comes to `r`. -/
def Compares (pA pB : OpenFile) (a b : CompleteValue) (r : Res Int) : Prop :=
  ∀ hasError fuel depth, (hasError = true → depth < maxDepth) →
    cmpReaderRec hasError pA pB (fuel + 1) a b depth = r

omit soundA soundB aReadable bReadable in
theorem Compares.of_func {func : CmpFunc} (aFunc : cmpReaderFunc a.type = some func)
    (bFunc : cmpReaderFunc b.type = some func) {r : Res Int}
    (runs : ∀ hasError fuel depth, (match func with
      | .stringUnicode =>
          cmpStringUnicode a.type b.type (readerStringUnicodeValue pA a.toValue)
            (readerStringUnicodeValue pB b.toValue)
      | .intFloat => .ok (cmpIntFloat a.type a.data b.type b.data)
      | .bitvector => do
          let bufferA ← readerBitvectorPtr pA a.toValue
          let bufferB ← readerBitvectorPtr pB b.toValue
          bitvectorCmpBufferBuffer a.type a.toValue.data bufferA b.type b.toValue.data bufferB
      | .vector => do
          let nItemsA ← readerVectorNItems pA a.toValue
          let nItemsB ← readerVectorNItems pB b.toValue
          cmpSeq (fun i => do
              let cA ← readerVectorValueCase pA a.toValue i
              let cB ← readerVectorValueCase pB b.toValue i
              let cc ← cmpReaderRec hasError pA pB fuel cA cB (depth + 2)
              if cc = 0 ∧ ¬hasError = true then fault .nullPointer else pure cc)
            (simpleCmp nItemsA nItemsB) (List.range (min nItemsA.toNat nItemsB.toNat))
      | .set => cmpFail hasError "set comparison not implemented yet"
      | .map => cmpFail hasError "map comparison not implemented yet"
      | .null | .emptySlot => .ok 0) = r) : Compares pA pB a b r := by
  intro hasError fuel depth bound
  have shallow : ¬(hasError = true ∧ maxDepth ≤ depth) := by
    intro both
    have := bound both.1
    omega
  rw [cmpReaderRec, if_neg shallow, if_neg (not_not.mpr (aFunc.trans bFunc.symm)), aFunc,
    ← runs hasError fuel depth]
  cases func <;> rfl

/-- How the comparison of two values that are not two vectors with items ends, with or without
an `error` pointer. -/
def LeafOutcome (pA pB : OpenFile) (a b : CompleteValue) : Prop :=
  (BitvectorClashAcross pA pB a.toValue b.toValue ∧ Compares pA pB a b (fault .nullPointer)) ∨
    (¬BitvectorClashAcross pA pB a.toValue b.toValue ∧
      ∃ c, (c = 0 ↔ LeafEqual pA pB a b) ∧ Compares pA pB a b (.ok c))

omit soundA soundB aReadable bReadable in
theorem not_clash_of_func {func : CmpFunc} (aFunc : cmpReaderFunc a.type = some func)
    (other : func ≠ .bitvector) : ¬BitvectorClashAcross pA pB a.toValue b.toValue := by
  intro clash
  have heap : a.type = .bitvector := clash.1
  rw [heap] at aFunc
  exact other (Option.some_inj.mp aFunc).symm

theorem text_outcome (aFunc : cmpReaderFunc a.type = some .stringUnicode)
    (bFunc : cmpReaderFunc b.type = some .stringUnicode) : LeafOutcome pA pB a b := by
  apply Or.inr
  refine ⟨not_clash_of_func aFunc (by decide), ?_⟩
  have aReach := aReadable.reachable (by rw [aFunc]; simp)
  have bReach := bReadable.reachable (by rw [bFunc]; simp)
  have aType := cmpReaderFunc_string aFunc
  have bType := cmpReaderFunc_string bFunc
  obtain ⟨as, aRead⟩ := soundA.readText aReach aType
  obtain ⟨bs, bRead⟩ := soundB.readText bReach bType
  obtain ⟨m, aValue, aBefore⟩ := readText_ok aRead
  obtain ⟨n, bValue, bBefore⟩ := readText_ok bRead
  refine ⟨Lexicographic.lex simpleCmp as bs, ?_, Compares.of_func aFunc bFunc fun _ _ _ => ?_⟩
  · rw [lex_simpleCmp_eq_zero, LeafEqual, aFunc, bFunc]
    constructor
    · intro same
      exact ⟨rfl, as, aRead, same ▸ bRead⟩
    · intro equal
      obtain ⟨-, chars, aRead', bRead'⟩ := equal
      obtain rfl := Except.ok.inj (aRead.symm.trans aRead')
      exact Except.ok.inj (bRead'.symm.trans bRead)
  · simp only [cmpStringUnicode, if_pos (And.intro aType bType), aValue, bValue, ok_bind]
    exact cmpString_eq aBefore bBefore

omit soundA soundB aReadable bReadable in
theorem number_outcome (aFunc : cmpReaderFunc a.type = some .intFloat)
    (bFunc : cmpReaderFunc b.type = some .intFloat) : LeafOutcome pA pB a b := by
  apply Or.inr
  refine ⟨not_clash_of_func aFunc (by decide), _, ?_, Compares.of_func aFunc bFunc fun _ _ _ => rfl⟩
  rw [LeafEqual, aFunc, bFunc]
  exact (and_iff_right rfl).symm

theorem bits_outcome (aFunc : cmpReaderFunc a.type = some .bitvector)
    (bFunc : cmpReaderFunc b.type = some .bitvector) : LeafOutcome pA pB a b := by
  have aReach := aReadable.reachable (by rw [aFunc]; simp)
  have bReach := bReadable.reachable (by rw [bFunc]; simp)
  obtain ⟨bufferA, bufferB, aRead, bRead, outcome⟩ := cmpBitvectors_across soundA soundB aReach
    bReach (cmpReaderFunc_bitvector.mp aFunc) (cmpReaderFunc_bitvector.mp bFunc)
  have runs : ∀ r, bitvectorCmpBufferBuffer a.type a.toValue.data bufferA b.type b.toValue.data
      bufferB = r → Compares pA pB a b r := by
    intro r result
    refine Compares.of_func aFunc bFunc fun _ _ _ => ?_
    simp only [aRead, bRead, ok_bind]
    exact result
  rcases outcome with ⟨clash, stopped⟩ | ⟨noClash, c, returned⟩
  · exact Or.inl ⟨clash, runs _ stopped⟩
  · refine Or.inr ⟨noClash, c, ?_, runs _ returned⟩
    rw [LeafEqual, aFunc, bFunc]
    constructor
    · intro zero
      exact ⟨rfl, bufferA, bufferB, aRead, bRead, by rw [← zero]; exact returned⟩
    · intro equal
      obtain ⟨-, bufferA', bufferB', aRead', bRead', same⟩ := equal
      obtain rfl := Except.ok.inj (aRead.symm.trans aRead')
      obtain rfl := Except.ok.inj (bRead.symm.trans bRead')
      exact Except.ok.inj (returned.symm.trans same)

/-- Two vectors of which one is empty. -/
theorem emptyVector_outcome (aFunc : cmpReaderFunc a.type = some .vector)
    (bFunc : cmpReaderFunc b.type = some .vector)
    (ends : ∀ cA cB, ¬FirstItems pA pB a b cA cB) : LeafOutcome pA pB a b := by
  apply Or.inr
  refine ⟨not_clash_of_func aFunc (by decide), ?_⟩
  have aReach := aReadable.reachable (by rw [aFunc]; simp)
  have bReach := bReadable.reachable (by rw [bFunc]; simp)
  have aType := cmpReaderFunc_vector.mp aFunc
  have bType := cmpReaderFunc_vector.mp bFunc
  obtain ⟨nA, aCount⟩ := soundA.nItems aReach aType
  obtain ⟨nB, bCount⟩ := soundB.nItems bReach bType
  have oneEmpty : min nA.toNat nB.toNat = 0 := by
    by_contra both
    obtain ⟨cA, itemA, -⟩ := soundA.itemCase aReach aType aCount (i := 0) (by omega)
    obtain ⟨cB, itemB, -⟩ := soundB.itemCase bReach bType bCount (i := 0) (by omega)
    exact ends cA cB ⟨aType, bType, ⟨nA, aCount, by omega⟩, ⟨nB, bCount, by omega⟩, itemA, itemB⟩
  refine ⟨simpleCmp nA nB, ?_, Compares.of_func aFunc bFunc fun _ _ _ => ?_⟩
  · rw [simpleCmp_eq_zero, LeafEqual, aFunc, bFunc]
    simp only [aCount, bCount, Except.ok.injEq, true_and]
    rw [← UInt32.toNat_inj, ← UInt32.toNat_inj, ← UInt32.toNat_inj]
    change nA.toNat = nB.toNat ↔ nA.toNat = 0 ∧ nB.toNat = 0
    omega
  · simp only [aCount, bCount, ok_bind, oneEmpty]
    rfl

theorem leaf_outcome (acyclic : ∃ item, AcyclicOver pB item b)
    (ends : ∀ cA cB, ¬FirstItems pA pB a b cA cB) : LeafOutcome pA pB a b := by
  obtain ⟨item, notSet, notMap, -⟩ := acyclic
  by_cases same : cmpReaderFunc a.type = cmpReaderFunc b.type
  · obtain ⟨func, aFunc⟩ := aReadable.func soundA
    have bFunc := same ▸ aFunc
    have single : ∀ {r}, LeafEqual pA pB a b → func ≠ .bitvector → r = .ok 0 →
        Compares pA pB a b r → LeafOutcome pA pB a b := by
      intro r equal other zero runs
      exact Or.inr ⟨not_clash_of_func aFunc other, 0, iff_of_true rfl equal, zero ▸ runs⟩
    cases func with
    | stringUnicode => exact text_outcome soundA soundB aReadable bReadable aFunc bFunc
    | intFloat => exact number_outcome aFunc bFunc
    | bitvector => exact bits_outcome soundA soundB aReadable bReadable aFunc bFunc
    | vector => exact emptyVector_outcome soundA soundB aReadable bReadable aFunc bFunc ends
    | null =>
        exact single ⟨same, by rw [aFunc]; trivial⟩ (by decide) rfl
          (Compares.of_func aFunc bFunc fun _ _ _ => rfl)
    | emptySlot =>
        exact single ⟨same, by rw [aFunc]; trivial⟩ (by decide) rfl
          (Compares.of_func aFunc bFunc fun _ _ _ => rfl)
    | set =>
        exfalso
        apply notSet
        cases type : b.type <;> rw [type] at bFunc <;> first | rfl | cases bFunc
    | map =>
        exfalso
        apply notMap
        cases type : b.type <;> rw [type] at bFunc <;> first | rfl | cases bFunc
  · apply Or.inr
    refine ⟨fun clash => ?_, simpleCmp a.type.code b.type.code, ?_,
      fun hasError fuel depth bound => ?_⟩
    · have heap : a.type = .bitvector := clash.1
      have inline : isBitvectorType b.type = true := (Bool.and_eq_true _ _ ▸ clash.2.1).1
      apply same
      rw [heap, cmpReaderFunc_bitvector.mpr inline]
      rfl
    · constructor
      · intro zero
        exact absurd zero (codes_differ soundA soundB aReadable bReadable same)
      · intro equal
        exact absurd equal.1 same
    · have shallow : ¬(hasError = true ∧ maxDepth ≤ depth) := by
        intro both
        have := bound both.1
        omega
      rw [cmpReaderRec, if_neg shallow, if_pos same]

end Leaf

/-! ## Down the chain -/

section Chain

variable {pA pB : OpenFile} {a b cA cB x y : CompleteValue} {hasError : Bool}
  {fuel depth n : Nat}

/-- The comparison of two vectors with items starts with their first items. -/
theorem FirstItems.cmpReaderRec_eq (first : FirstItems pA pB a b cA cB)
    (bound : hasError = true → depth < maxDepth) :
    ∃ rest : Res Int, cmpReaderRec hasError pA pB (fuel + 1) a b depth =
      (cmpReaderRec hasError pA pB fuel cA cB (depth + 2) >>= fun cc =>
        (if cc = 0 ∧ ¬hasError = true then fault .nullPointer else pure cc) >>= fun cc =>
          if cc ≠ 0 then pure cc else rest) := by
  obtain ⟨nA, aCount, aPositive⟩ := first.countA
  obtain ⟨nB, bCount, bPositive⟩ := first.countB
  have aFunc := cmpReaderFunc_vector.mpr first.vectorA
  have bFunc := cmpReaderFunc_vector.mpr first.vectorB
  have shallow : ¬(hasError = true ∧ maxDepth ≤ depth) := by
    intro both
    have := bound both.1
    omega
  obtain ⟨m, count⟩ : ∃ m, min nA.toNat nB.toNat = m + 1 :=
    ⟨min nA.toNat nB.toNat - 1, by omega⟩
  rw [cmpReaderRec, if_neg shallow, if_neg (not_not.mpr (aFunc.trans bFunc.symm)), aFunc]
  simp only [aCount, bCount, ok_bind, count]
  rw [List.range_succ_eq_map, cmpSeq]
  simp only [first.itemA, first.itemB, ok_bind, bind_assoc]
  exact ⟨_, rfl⟩

/-- First items that differ decide. -/
theorem FirstItems.returns (first : FirstItems pA pB a b cA cB)
    (bound : hasError = true → depth < maxDepth) {c : Int}
    (below : cmpReaderRec hasError pA pB fuel cA cB (depth + 2) = .ok c) (differ : c ≠ 0) :
    cmpReaderRec hasError pA pB (fuel + 1) a b depth = .ok c := by
  obtain ⟨rest, step⟩ := @FirstItems.cmpReaderRec_eq _ _ _ _ _ _ hasError fuel depth first bound
  rw [step, below, ok_bind, if_neg fun both => differ both.1, pure_eq_ok, ok_bind, if_pos differ]
  rfl

/-- First items whose comparison stops stop the comparison. -/
theorem FirstItems.stops (first : FirstItems pA pB a b cA cB)
    (bound : hasError = true → depth < maxDepth) {stop : Stop}
    (below : cmpReaderRec hasError pA pB fuel cA cB (depth + 2) = .error stop) :
    cmpReaderRec hasError pA pB (fuel + 1) a b depth = .error stop := by
  obtain ⟨rest, step⟩ := @FirstItems.cmpReaderRec_eq _ _ _ _ _ _ hasError fuel depth first bound
  rw [step, below]
  rfl

/-- Without an `error` pointer, first items that are equal lead to the null pointer. -/
theorem FirstItems.faults (first : FirstItems pA pB a b cA cB)
    (below : cmpReaderRec false pA pB fuel cA cB (depth + 2) = .ok 0) :
    cmpReaderRec false pA pB (fuel + 1) a b depth = fault .nullPointer := by
  obtain ⟨rest, step⟩ := @FirstItems.cmpReaderRec_eq _ _ _ _ _ _ false fuel depth first
    fun no => Bool.noConfusion no
  rw [step, below]
  rfl

theorem FirstItems.unique {cA' cB' : CompleteValue} (first : FirstItems pA pB a b cA cB)
    (second : FirstItems pA pB a b cA' cB') : cA = cA' ∧ cB = cB' :=
  ⟨Except.ok.inj (first.itemA.symm.trans second.itemA),
    Except.ok.inj (first.itemB.symm.trans second.itemB)⟩

/-- The chain has one end. -/
theorem FirstPair.unique {n' : Nat} {x' y' : CompleteValue} (pair : FirstPair pA pB a b n x y)
    (other : FirstPair pA pB a b n' x' y') : n = n' ∧ x = x' ∧ y = y' := by
  induction pair generalizing n' with
  | here ends =>
      cases other with
      | here => exact ⟨rfl, rfl, rfl⟩
      | items first => exact absurd first (ends _ _)
  | items first rest ih =>
      cases other with
      | here ends => exact absurd first (ends _ _)
      | items first' rest' =>
          obtain ⟨rfl, rfl⟩ := first.unique first'
          obtain ⟨rfl, rfl, rfl⟩ := ih rest'
          exact ⟨rfl, rfl, rfl⟩

/-- What differs at the end of the chain is the result, with or without an `error` pointer. -/
theorem FirstPair.returns (pair : FirstPair pA pB a b n x y) {c : Int}
    (leaf : Compares pA pB x y (.ok c)) (differ : n = 0 ∨ c ≠ 0)
    (shallow : hasError = true → depth + 2 * n < maxDepth) (enough : n < fuel) :
    cmpReaderRec hasError pA pB fuel a b depth = .ok c := by
  induction pair generalizing fuel depth with
  | here =>
      obtain ⟨fuel, rfl⟩ : ∃ more, fuel = more + 1 := ⟨fuel - 1, by omega⟩
      exact leaf hasError fuel depth shallow
  | @items a b cA cB n x y first rest ih =>
      obtain ⟨fuel, rfl⟩ : ∃ more, fuel = more + 1 := ⟨fuel - 1, by omega⟩
      have nonzero : c ≠ 0 := by
        rcases differ with no | nonzero
        · cases no
        · exact nonzero
      have deep : hasError = true → depth + 2 + 2 * n < maxDepth := by
        intro isError
        have := shallow isError
        omega
      have below := @ih fuel (depth + 2) leaf (Or.inr nonzero) deep (by omega)
      apply first.returns _ below nonzero
      intro isError
      have := shallow isError
      omega

/-- What is equal at the end of the chain, or has no buffer there, is a null pointer without
an `error` pointer. -/
theorem FirstPair.faults (pair : FirstPair pA pB a b n x y)
    (leaf : Compares pA pB x y (fault .nullPointer) ∨ 0 < n ∧ Compares pA pB x y (.ok 0))
    (enough : n < fuel) : cmpReaderRec false pA pB fuel a b depth = fault .nullPointer := by
  induction pair generalizing fuel depth with
  | here =>
      obtain ⟨fuel, rfl⟩ : ∃ more, fuel = more + 1 := ⟨fuel - 1, by omega⟩
      rcases leaf with stops | ⟨no, -⟩
      · exact stops false fuel depth fun no => Bool.noConfusion no
      · omega
  | @items a b cA cB n x y first rest ih =>
      obtain ⟨fuel, rfl⟩ : ∃ more, fuel = more + 1 := ⟨fuel - 1, by omega⟩
      have noError : false = true → depth < maxDepth := fun no => Bool.noConfusion no
      rcases leaf with stops | ⟨-, equal⟩
      · exact first.stops noError (ih (Or.inl stops) (by omega))
      · cases n with
        | zero =>
            cases rest with
            | here ends =>
                apply first.faults
                exact (FirstPair.here ends).returns equal (Or.inl rfl)
                  (fun no => Bool.noConfusion no) (by omega)
        | succ n => exact first.stops noError (ih (Or.inr ⟨by omega, equal⟩) (by omega))

/-- The first items of acyclic values lead to an end. -/
theorem exists_firstPair (soundA : pA.Sound) (soundB : pB.Sound) {levels : Nat}
    (acyclic : AcyclicWithin pB levels b) (aReadable : Readable pA a) (bReadable : Readable pB b) :
    ∃ n x y, n ≤ levels ∧ FirstPair pA pB a b n x y ∧ LeafOutcome pA pB x y := by
  induction levels generalizing a b with
  | zero =>
      have ends : ∀ cA cB, ¬FirstItems pA pB a b cA cB := by
        intro cA cB first
        obtain ⟨n, count, positive⟩ := first.countB
        exact acyclic.2.2 first.vectorB n 0 cB count positive first.itemB
      exact ⟨0, a, b, Nat.le_refl 0, .here ends,
        leaf_outcome soundA soundB aReadable bReadable acyclic.toOver ends⟩
  | succ levels ih =>
      by_cases nested : ∃ cA cB, FirstItems pA pB a b cA cB
      · obtain ⟨cA, cB, first⟩ := nested
        obtain ⟨nA, aCount, aPositive⟩ := first.countA
        obtain ⟨nB, bCount, bPositive⟩ := first.countB
        have aReach := aReadable.reachable (by rw [cmpReaderFunc_vector.mpr first.vectorA]; simp)
        have bReach := bReadable.reachable (by rw [cmpReaderFunc_vector.mpr first.vectorB]; simp)
        obtain ⟨cA', itemA, cAReadable⟩ := soundA.itemCase aReach first.vectorA aCount aPositive
        obtain ⟨cB', itemB, cBReadable⟩ := soundB.itemCase bReach first.vectorB bCount bPositive
        obtain rfl := Except.ok.inj (first.itemA.symm.trans itemA)
        obtain rfl := Except.ok.inj (first.itemB.symm.trans itemB)
        obtain ⟨n, x, y, less, pair, outcome⟩ :=
          ih (acyclic.2.2 first.vectorB nB 0 cB bCount bPositive itemB) cAReadable cBReadable
        exact ⟨n + 1, x, y, by omega, .items first pair, outcome⟩
      · have ends : ∀ cA cB, ¬FirstItems pA pB a b cA cB :=
          fun cA cB first => nested ⟨cA, cB, first⟩
        exact ⟨0, a, b, by omega, .here ends,
          leaf_outcome soundA soundB aReadable bReadable acyclic.toOver ends⟩

end Chain

/-! ## The two comparisons -/

/-- The comparison without an `error` pointer returns, with the sign of the one with a fresh
error. -/
def AcyclicAgrees (pA pB : OpenFile) (a b : CompleteValue) : Prop :=
  ∃ c d, EventuallyReturns (fun fuel => cmpReaderAcyclic fuel pA a pB b) c ∧
    cmpReader pA a pB b = .ok d ∧ c.sign = d.sign

/-- The two comparisons of values that are nested below the depth limit agree where the chain
of first items ends at a difference, and elsewhere the one without an `error` pointer follows
a null pointer. -/
theorem cmpReaderAcyclic_outcome {pA pB : OpenFile} {a b : CompleteValue} (soundA : pA.Sound)
    (soundB : pB.Sound) (aReadable : Readable pA a) (bReadable : Readable pB b)
    (acyclic : AcyclicWithin pB ((maxDepth - 1) / 2) b) :
    (FirstDiffer pA pB a b ∧ ∃ c,
        EventuallyReturns (fun fuel => cmpReaderAcyclic fuel pA a pB b) c ∧
        cmpReader pA a pB b = .ok c) ∨
      (¬FirstDiffer pA pB a b ∧
        ∃ enough, ∀ fuel ≥ enough, cmpReaderAcyclic fuel pA a pB b = fault .nullPointer) := by
  have levels : (maxDepth - 1) / 2 = 255 := rfl
  have limit : maxDepth = 512 := rfl
  obtain ⟨n, x, y, less, pair, outcome⟩ :=
    exists_firstPair soundA soundB acyclic aReadable bReadable
  rcases outcome with ⟨clash, stops⟩ | ⟨noClash, c, zero, compares⟩
  · apply Or.inr
    constructor
    · intro differ
      obtain ⟨n', x', y', pair', noClash, -⟩ := differ
      obtain ⟨rfl, rfl, rfl⟩ := pair.unique pair'
      exact noClash clash
    · exact ⟨n + 1, fun fuel enough => pair.faults (Or.inl stops) enough⟩
  · by_cases decided : n = 0 ∨ c ≠ 0
    · apply Or.inl
      constructor
      · refine ⟨n, x, y, pair, noClash, ?_⟩
        rcases decided with none | nonzero
        · exact Or.inl none
        · exact Or.inr (mt zero.mpr nonzero)
      · refine ⟨c, ⟨n + 1, fun fuel enough => ?_⟩, ?_⟩
        · exact pair.returns compares decided (fun no => Bool.noConfusion no) enough
        · exact pair.returns compares decided (fun _ => by omega) (by omega)
    · apply Or.inr
      obtain ⟨nested, same⟩ := not_or.mp decided
      have same := not_not.mp same
      constructor
      · intro differ
        obtain ⟨n', x', y', pair', -, decided⟩ := differ
        obtain ⟨rfl, rfl, rfl⟩ := pair.unique pair'
        rcases decided with none | apart
        · exact nested none
        · exact apart (zero.mp same)
      · refine ⟨n + 1, fun fuel enough => pair.faults (Or.inr ⟨by omega, ?_⟩) enough⟩
        rw [← same]
        exact compares

end Pointless
