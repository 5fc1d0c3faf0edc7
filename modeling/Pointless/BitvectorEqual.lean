import Pointless.CreateBits
import Pointless.TreeRead

/-!
# Bitvectors as strings of bits

What `pointless_bitvector.c` makes of a bitvector depends on the bits it stands for
alone, whichever of the six encodings they are kept in, or as raw bits: its hashes, and
its order. The exception is `pointless_bitvector_cmp_buffer_buffer`, which decodes its
second operand under the type of the first.
-/

namespace Pointless

open ByteMemory ExceptRules Lexicographic

/-! ## The rest of `pointless_bitvector.c` -/

/-- `pointless_bitvector_hash_64_priv`. -/
def bitvectorHash64Priv (t : ValueType) (data : UInt32) (nBits : Nat) (bits : Ptr) :
    Res UInt64 :=
  (List.range (iceil nBits 8)).foldlM (fun h k => do
    let b ← bitvectorHashByte t data nBits bits k
    pure (h * hashBitvectorSeed.toUInt64 + b.toUInt64)) 1

/-- `pointless_bitvector_hash_64`. -/
def bitvectorHash64 (t : ValueType) (data : UInt32) (buffer : Ptr) : Res UInt64 := do
  let nBits ← bitvectorNBits t data buffer
  bitvectorHash64Priv t data nBits.toNat (if t = .bitvector then bitvectorBits buffer else none)

/-- `pointless_bitvector_hash_buffer_32`. -/
def bitvectorHashBuffer32 (buffer : Ptr) : Res UInt32 := do
  let nBits ← bitvectorNBits .bitvector 0 buffer
  bitvectorHash32Priv .bitvector 0 nBits.toNat (bitvectorBits buffer)

/-- `pointless_bitvector_hash_buffer_64`. -/
def bitvectorHashBuffer64 (buffer : Ptr) : Res UInt64 := do
  let nBits ← bitvectorNBits .bitvector 0 buffer
  bitvectorHash64Priv .bitvector 0 nBits.toNat (bitvectorBits buffer)

/-- `pointless_bitvector_hash_n_bits_bits_32`. -/
def bitvectorHashNBitsBits32 (nBits : UInt32) (bits : Ptr) : Res UInt32 :=
  bitvectorHash32Priv .bitvector 0 nBits.toNat bits

/-- `pointless_bitvector_hash_n_bits_bits_64`. -/
def bitvectorHashNBitsBits64 (nBits : UInt32) (bits : Ptr) : Res UInt64 :=
  bitvectorHash64Priv .bitvector 0 nBits.toNat bits

/-- The loop of the comparisons, which stops at the first bits that differ. -/
def cmpBits (bitA bitB : Nat → Res Bool) (last : Int) (n : Nat) : Res Int :=
  cmpSeq (fun i => do
      let ba ← bitA i
      let bb ← bitB i
      pure (simpleCmp ba.toNat bb.toNat))
    last (List.range n)

/-- `pointless_bitvector_cmp_bits_buffer`. -/
def bitvectorCmpBitsBuffer (nBitsA : UInt32) (bitsA : Ptr) (vB : Value) (bufferB : Ptr) :
    Res Int := do
  let nBitsB ← bitvectorNBits vB.type vB.data bufferB
  cmpBits (bmIsSet bitsA) (bitvectorIsSet vB.type vB.data bufferB) (simpleCmp nBitsA nBitsB)
    (min nBitsA.toNat nBitsB.toNat)

/-- `pointless_bitvector_cmp_buffer_bits`. -/
def bitvectorCmpBufferBits (vA : Value) (bufferA : Ptr) (nBitsB : UInt32) (bitsB : Ptr) :
    Res Int := do
  let nBitsA ← bitvectorNBits vA.type vA.data bufferA
  cmpBits (bitvectorIsSet vA.type vA.data bufferA) (bmIsSet bitsB) (simpleCmp nBitsA nBitsB)
    (min nBitsA.toNat nBitsB.toNat)

/-! ## Strings of bits -/

/-- A bitvector in one of the six encodings, and the bits that it stands for. The buffer is
null for the encodings that are kept inline, as the callers have it. -/
structure EncodedBits where
  type : ValueType
  data : UInt32
  buffer : Ptr
  bits : List Bool
  isBits : isBitvectorType type = true
  short : bits.length < 2 ^ 32
  inline : type ≠ .bitvector → buffer = none
  shows : ShowsBits type data buffer bits

/-- Raw bits; what stands behind them in the memory is arbitrary. -/
structure RawBits where
  nBits : UInt32
  memory : List UInt8
  room : iceil nBits.toNat 8 ≤ memory.length

def RawBits.bits (a : RawBits) : List Bool := bitsOf a.memory a.nBits.toNat

@[simp] theorem RawBits.length_bits (a : RawBits) : a.bits.length = a.nBits.toNat :=
  length_bitsOf _ _

theorem RawBits.isSet (a : RawBits) {i : Nat} (less : i < a.bits.length) :
    bmIsSet (some a.memory) i = .ok a.bits[i] := by
  have below : i < a.nBits.toNat := by simpa using less
  rw [bmIsSet_eq (inside_of_iceil a.room below)]
  simp only [RawBits.bits, getElem_bitsOf]

theorem EncodedBits.toNat_nBits (a : EncodedBits) :
    (UInt32.ofNat a.bits.length).toNat = a.bits.length := Nat.mod_eq_of_lt a.short

/-! ## The order -/

/-- The order of strings of bits: a proper prefix comes first. -/
def lexBits : List Bool → List Bool → Int := lex fun a b => simpleCmp a.toNat b.toNat

theorem cmpBits_lex {bitA bitB : Nat → Res Bool} {as bs : List Bool}
    (readA : ∀ i (less : i < as.length), bitA i = .ok as[i])
    (readB : ∀ i (less : i < bs.length), bitB i = .ok bs[i]) :
    cmpBits bitA bitB ((as.length : Int) - bs.length).sign (min as.length bs.length) =
      .ok (lexBits as bs) := by
  have loop : Post (· = lexBits as bs) (fun _ : Stop => False)
      (cmpBits bitA bitB ((as.length : Int) - bs.length).sign (min as.length bs.length)) := by
    rw [cmpBits, List.range_eq_range']
    refine cmpSeq_lex fun k lessA lessB => ?_
    rw [Nat.zero_add, readA k lessA, readB k lessB]
    exact rfl
  cases compared : cmpBits bitA bitB ((as.length : Int) - bs.length).sign
      (min as.length bs.length) with
  | error stop => exact (loop.of_error compared).elim
  | ok c => rw [loop.of_ok compared]

theorem bitvectorCmpBitsBuffer_lex (r : RawBits) (b : EncodedBits) :
    bitvectorCmpBitsBuffer r.nBits (some r.memory) ⟨b.type, b.data⟩ b.buffer =
      .ok (lexBits r.bits b.bits) := by
  have loop := cmpBits_lex (fun i less => r.isSet less) b.shows.isSet
  rw [r.length_bits] at loop
  rw [bitvectorCmpBitsBuffer, b.shows.nBits, ok_bind, simpleCmp_u32, b.toNat_nBits]
  exact loop

theorem bitvectorCmpBufferBits_lex (a : EncodedBits) (r : RawBits) :
    bitvectorCmpBufferBits ⟨a.type, a.data⟩ a.buffer r.nBits (some r.memory) =
      .ok (lexBits a.bits r.bits) := by
  have loop := cmpBits_lex a.shows.isSet (fun i less => r.isSet less)
  rw [r.length_bits] at loop
  rw [bitvectorCmpBufferBits, a.shows.nBits, ok_bind, simpleCmp_u32, a.toNat_nBits]
  exact loop

/-! ## The second operand under the type of the first -/

/-- Bit `i` of a bitvector as it is decoded under the type `t`. -/
def EncodedBits.under (b : EncodedBits) (t : ValueType) (i : Nat) : Bool :=
  match bitvectorIsSet t b.data b.buffer i with
  | .ok isSet => isSet
  | .error _ => false

/-- The bit of the first operand at the first of `n` positions where the two differ. -/
def decidingBit (as bs : Nat → Bool) (n : Nat) : Option Bool :=
  ((List.range n).find? fun i => as i != bs i).map as

/-- Bit `i`; clear behind the last. -/
def EncodedBits.bit (a : EncodedBits) (i : Nat) : Bool := a.bits.getD i false

/-- To read `b` under the type of `a` makes no difference: there is nothing to compare, or
the reads stay inside and what they find is decided as the bits of `b` are, or as the
lengths are. -/
def MisreadHarmless (a b : EncodedBits) : Prop :=
  min a.bits.length b.bits.length = 0 ∨
    (a.type = .bitvector → b.type = .bitvector) ∧
      match decidingBit a.bit b.bit (min a.bits.length b.bits.length),
        decidingBit a.bit (b.under a.type) (min a.bits.length b.bits.length) with
      | some x, some y => x = y
      | some true, none | none, some true => b.bits.length < a.bits.length
      | some false, none | none, some false => a.bits.length < b.bits.length
      | none, none => True

/-- What a deciding bit of the first operand comes to. -/
def bitVerdict (last : Int) : Option Bool → Int
  | some true => 1
  | some false => -1
  | none => last

theorem simpleCmp_bits {a b : Bool} (differ : a ≠ b) :
    simpleCmp a.toNat b.toNat = bitVerdict 0 (some a) := by
  cases a
  · cases b
    · exact absurd rfl differ
    · rfl
  · cases b
    · rfl
    · exact absurd rfl differ

/-- A comparison bit by bit goes by the first two that differ. -/
theorem cmpSeq_deciding {compare : Nat → Res Int} {as bs : Nat → Bool} {last : Int}
    {indices : List Nat}
    (items : ∀ i ∈ indices, compare i = .ok (simpleCmp (as i).toNat (bs i).toNat)) :
    cmpSeq compare last indices =
      .ok (bitVerdict last ((indices.find? fun i => as i != bs i).map as)) := by
  induction indices with
  | nil => rfl
  | cons i rest ih =>
      have later := ih fun j mem => items j (List.mem_cons_of_mem i mem)
      rw [cmpSeq, items i List.mem_cons_self, ok_bind]
      by_cases same : as i = bs i
      · rw [if_neg (by simp [same]), later, List.find?_cons_of_neg]
        simp [same]
      · rw [simpleCmp_bits same, if_pos (by cases as i <;> decide),
          List.find?_cons_of_pos (by simp [same])]
        cases head : as i <;> simp [head, bitVerdict]

/-- The loop over bits that are all read. -/
theorem cmpBits_deciding {bitA bitB : Nat → Res Bool} {as bs : Nat → Bool} {last : Int} {n : Nat}
    (readA : ∀ i < n, bitA i = .ok (as i)) (readB : ∀ i < n, bitB i = .ok (bs i)) :
    cmpBits bitA bitB last n = .ok (bitVerdict last (decidingBit as bs n)) := by
  refine cmpSeq_deciding fun i mem => ?_
  have less := List.mem_range.mp mem
  rw [readA i less, readB i less]
  rfl

theorem EncodedBits.isSet_bit (a : EncodedBits) {i : Nat} (less : i < a.bits.length) :
    bitvectorIsSet a.type a.data a.buffer i = .ok (a.bit i) := by
  rw [a.shows.isSet i less, EncodedBits.bit, List.getD_eq_getElem _ _ less]

theorem lexBits_deciding (a b : EncodedBits) :
    lexBits a.bits b.bits =
      bitVerdict ((a.bits.length : Int) - b.bits.length).sign
        (decidingBit a.bit b.bit (min a.bits.length b.bits.length)) := by
  have byItems := cmpBits_lex a.shows.isSet b.shows.isSet
  have byBits := @cmpBits_deciding _ _ a.bit b.bit
    ((a.bits.length : Int) - b.bits.length).sign (min a.bits.length b.bits.length)
    (fun i less => a.isSet_bit (by omega)) (fun i less => b.isSet_bit (by omega))
  exact Except.ok.inj (byItems.symm.trans byBits)

/-- Under an inline type the reads stay inside as far as `a` has bits. -/
theorem EncodedBits.isSet_under (a b : EncodedBits)
    (heap : a.type = .bitvector → b.type = .bitvector) {i : Nat}
    (less : i < min a.bits.length b.bits.length) :
    bitvectorIsSet a.type b.data b.buffer i = .ok (b.under a.type i) := by
  have read : ∃ isSet, bitvectorIsSet a.type b.data b.buffer i = .ok isSet := by
    have own := a.shows.isSet i (by omega)
    have isBits := a.isBits
    generalize a.type = t at own isBits heap
    unfold isBitvectorType at isBits
    split at isBits
    case h_1 =>
      rw [← heap rfl]
      exact ⟨_, b.shows.isSet i (by omega)⟩
    case h_6 =>
      -- the word of the other operand is as long
      have inside : (i + 5) / 8 < 4 := by
        by_contra outside
        have length : (bytesU32 a.data).length = 4 := length_encode 4 _
        change bmIsSet (some (bytesU32 a.data)) (i + 5) = _ at own
        rw [bmIsSet, loadU8, loadWord, load_one, List.getElem?_eq_none (by omega)] at own
        cases own
      have length : (bytesU32 b.data).length = 4 := length_encode 4 _
      exact ⟨_, bmIsSet_eq (v := bytesU32 b.data) (by omega)⟩
    case h_7 => cases isBits
    all_goals exact ⟨_, rfl⟩
  obtain ⟨isSet, read⟩ := read
  rw [read, EncodedBits.under, read]

/-- With nothing to compare the lengths decide. -/
theorem lexBits_none {a b : EncodedBits} (none : min a.bits.length b.bits.length = 0) :
    lexBits a.bits b.bits = ((a.bits.length : Int) - b.bits.length).sign := by
  rw [lexBits_deciding, none]
  rfl

theorem bitvectorCmpBufferBuffer_cmpBits (a b : EncodedBits) :
    bitvectorCmpBufferBuffer a.type a.data a.buffer b.type b.data b.buffer =
      cmpBits (bitvectorIsSet a.type a.data a.buffer) (bitvectorIsSet a.type b.data b.buffer)
        ((a.bits.length : Int) - b.bits.length).sign (min a.bits.length b.bits.length) := by
  rw [bitvectorCmpBufferBuffer, a.shows.nBits, ok_bind, b.shows.nBits, ok_bind, simpleCmp_u32,
    a.toNat_nBits, b.toNat_nBits]
  rfl

theorem sign_lengths (m n : Nat) :
    ((m : Int) - n).sign = 1 ∧ n < m ∨ ((m : Int) - n).sign = 0 ∧ m = n ∨
      ((m : Int) - n).sign = -1 ∧ m < n := by
  rcases Nat.lt_trichotomy m n with less | same | more
  · exact Or.inr (Or.inr ⟨Int.sign_eq_neg_one_of_neg (by omega), less⟩)
  · exact Or.inr (Or.inl ⟨by rw [same, Int.sub_self]; rfl, same⟩)
  · exact Or.inl ⟨Int.sign_eq_one_of_pos (by omega), more⟩

/-- When two deciding bits come to the same. -/
theorem bitVerdict_eq_iff (m n : Nat) (truly misread : Option Bool) :
    bitVerdict ((m : Int) - n).sign misread = bitVerdict ((m : Int) - n).sign truly ↔
      match truly, misread with
      | some x, some y => x = y
      | some true, none | none, some true => n < m
      | some false, none | none, some false => m < n
      | none, none => True := by
  rcases sign_lengths m n with ⟨sign, order⟩ | ⟨sign, order⟩ | ⟨sign, order⟩
  all_goals
    rw [sign]
    rcases truly with _ | _ | _ <;> rcases misread with _ | _ | _ <;>
      simp [bitVerdict] <;> omega

/-- The comparison of two encoded bitvectors is that of their bits exactly where the misread
second operand does no harm. -/
theorem bitvectorCmpBufferBuffer_lex_iff (a b : EncodedBits) :
    bitvectorCmpBufferBuffer a.type a.data a.buffer b.type b.data b.buffer =
        .ok (lexBits a.bits b.bits) ↔ MisreadHarmless a b := by
  rw [bitvectorCmpBufferBuffer_cmpBits, MisreadHarmless]
  by_cases none : min a.bits.length b.bits.length = 0
  · rw [lexBits_none none, none]
    exact ⟨fun _ => Or.inl rfl, fun _ => rfl⟩
  by_cases heap : a.type = .bitvector → b.type = .bitvector
  · rw [cmpBits_deciding (fun i less => a.isSet_bit (by omega))
      (fun i less => a.isSet_under b heap less), lexBits_deciding, Except.ok.injEq]
    rw [or_iff_right none, and_iff_right heap]
    exact bitVerdict_eq_iff _ _ _ _
  · -- the bits of an inline bitvector are looked for behind a null pointer
    push Not at heap
    have null : b.buffer = .none := b.inline heap.2
    constructor
    · intro compared
      obtain ⟨n, count⟩ := Nat.exists_eq_succ_of_ne_zero none
      rw [cmpBits, count, List.range_succ_eq_map, cmpSeq, a.isSet_bit (by omega), heap.1, null]
        at compared
      cases compared
    · rintro (zero | ⟨both, -⟩)
      · exact absurd zero none
      · exact absurd (both heap.1) heap.2

theorem misreadHarmless_of_type {a b : EncodedBits} (same : a.type = b.type) :
    MisreadHarmless a b := by
  rw [← bitvectorCmpBufferBuffer_lex_iff, bitvectorCmpBufferBuffer_cmpBits, same, ← same]
  refine cmpBits_lex a.shows.isSet ?_
  rw [same]
  exact b.shows.isSet

/-- The three comparisons return the order of the strings of bits. -/
structure CmpReturnsLex (a b : EncodedBits) (r : RawBits) : Prop where
  bufferBuffer : bitvectorCmpBufferBuffer a.type a.data a.buffer b.type b.data b.buffer =
    .ok (lexBits a.bits b.bits)
  bitsBuffer : bitvectorCmpBitsBuffer r.nBits (some r.memory) ⟨b.type, b.data⟩ b.buffer =
    .ok (lexBits r.bits b.bits)
  bufferBits : bitvectorCmpBufferBits ⟨a.type, a.data⟩ a.buffer r.nBits (some r.memory) =
    .ok (lexBits a.bits r.bits)

/-- Raw bits are always compared as they should be. -/
theorem cmpReturnsLex_iff (a b : EncodedBits) (r : RawBits) :
    CmpReturnsLex a b r ↔ MisreadHarmless a b := by
  rw [← bitvectorCmpBufferBuffer_lex_iff]
  constructor
  · exact CmpReturnsLex.bufferBuffer
  · intro bufferBuffer
    exact ⟨bufferBuffer, bitvectorCmpBitsBuffer_lex r b, bitvectorCmpBufferBits_lex a r⟩

/-- A single clear bit. -/
def oneClear : EncodedBits where
  type := .bitvector0
  data := 1
  buffer := none
  bits := [false]
  isBits := rfl
  short := by decide
  inline := fun _ => rfl
  shows := ⟨rfl, fun i less => by
    rw [List.length_singleton, Nat.lt_one_iff] at less
    subst less
    rfl⟩

/-- A single set bit. -/
def oneSet : EncodedBits where
  type := .bitvector1
  data := 1
  buffer := none
  bits := [true]
  isBits := rfl
  short := by decide
  inline := fun _ => rfl
  shows := ⟨rfl, fun i less => by
    rw [List.length_singleton, Nat.lt_one_iff] at less
    subst less
    rfl⟩

/-- A clear and a set bit compare as equal, in either order. -/
theorem oneClear_oneSet :
    bitvectorCmpBufferBuffer oneClear.type oneClear.data oneClear.buffer oneSet.type oneSet.data
        oneSet.buffer = .ok 0 ∧
      lexBits oneClear.bits oneSet.bits = -1 ∧
      ¬∀ (a b : EncodedBits) (r : RawBits), CmpReturnsLex a b r := by
  refine ⟨by decide, by decide, fun all => ?_⟩
  have compared := (all oneClear oneSet ⟨0, [], by decide⟩).bufferBuffer
  have differ : bitvectorCmpBufferBuffer oneClear.type oneClear.data oneClear.buffer oneSet.type
      oneSet.data oneSet.buffer ≠ .ok (lexBits oneClear.bits oneSet.bits) := by decide
  exact differ compared

/-! ## The hashes -/

/-- Bits `8 * k` to `8 * k + 7` of a string, as far as it goes, as a byte. -/
def byteOfBits (bits : List Bool) (k : Nat) : UInt32 :=
  (List.range (min 8 (bits.length - 8 * k))).foldl (fun b j =>
    if bits.getD (8 * k + j) false then b ||| (1 <<< UInt32.ofNat j) else b) 0

/-- The 32-bit hash of a string of bits. -/
def hashBits32 (bits : List Bool) : UInt32 :=
  (List.range (iceil bits.length 8)).foldl (fun h k => h * hashBitvectorSeed + byteOfBits bits k) 1

/-- The 64-bit hash of a string of bits. -/
def hashBits64 (bits : List Bool) : UInt64 :=
  (List.range (iceil bits.length 8)).foldl (fun h k =>
    h * hashBitvectorSeed.toUInt64 + (byteOfBits bits k).toUInt64) 1

/-- A loop whose rounds all go through. -/
theorem foldlM_eq_foldl {σ α : Type} {body : σ → α → Res σ} {step : σ → α → σ} {items : List α}
    (goes : ∀ s, ∀ a ∈ items, body s a = .ok (step s a)) (s : σ) :
    items.foldlM body s = .ok (items.foldl step s) := by
  induction items generalizing s with
  | nil => rfl
  | cons a rest ih =>
      rw [List.foldlM_cons, goes s a List.mem_cons_self, ok_bind,
        ih (fun s b mem => goes s b (List.mem_cons_of_mem a mem))]
      rfl

section Hashes

variable {t : ValueType} {data : UInt32} {ptr : Ptr} {bits : List Bool}
  (read : ∀ i (less : i < bits.length), bitvectorIsSetBits t data ptr i = .ok bits[i])
include read

theorem bitvectorHashByte_eq (k : Nat) :
    bitvectorHashByte t data bits.length ptr k = .ok (byteOfBits bits k) := by
  refine foldlM_eq_foldl (fun b j mem => ?_) 0
  have less : 8 * k + j < bits.length := by
    have := List.mem_range.mp mem
    omega
  rw [read _ less, ok_bind, List.getD_eq_getElem _ _ less]
  rfl

theorem bitvectorHash32Priv_eq :
    bitvectorHash32Priv t data bits.length ptr = .ok (hashBits32 bits) := by
  refine foldlM_eq_foldl (fun h k _ => ?_) 1
  rw [bitvectorHashByte_eq read k]
  rfl

theorem bitvectorHash64Priv_eq :
    bitvectorHash64Priv t data bits.length ptr = .ok (hashBits64 bits) := by
  refine foldlM_eq_foldl (fun h k _ => ?_) 1
  rw [bitvectorHashByte_eq read k]
  rfl

end Hashes

/-- Where a bitvector to be hashed may be held. -/
inductive BitSource where
  | file (a : EncodedBits)
  | heap (a : EncodedBits) (isHeap : a.type = .bitvector)
  | primitive (a : RawBits)

def BitSource.bits : BitSource → List Bool
  | file a | heap a _ => a.bits
  | primitive a => a.bits

/-- The 32-bit hash function for the source. -/
def BitSource.hash32 : BitSource → Res UInt32
  | file a => bitvectorHash32 a.type a.data a.buffer
  | heap a _ => bitvectorHashBuffer32 a.buffer
  | primitive a => bitvectorHashNBitsBits32 a.nBits (some a.memory)

/-- The 64-bit hash function for the source. -/
def BitSource.hash64 : BitSource → Res UInt64
  | file a => bitvectorHash64 a.type a.data a.buffer
  | heap a _ => bitvectorHashBuffer64 a.buffer
  | primitive a => bitvectorHashNBitsBits64 a.nBits (some a.memory)

theorem ShowsBits.hash32 {t : ValueType} {data : UInt32} {buffer : Ptr} {bits : List Bool}
    (shows : ShowsBits t data buffer bits) (short : bits.length < 2 ^ 32) :
    bitvectorHash32 t data buffer = .ok (hashBits32 bits) := by
  rw [bitvectorHash32, shows.nBits, ok_bind, UInt32.toNat_ofNat', Nat.mod_eq_of_lt short]
  exact bitvectorHash32Priv_eq shows.isSet

theorem ShowsBits.hash64 {t : ValueType} {data : UInt32} {buffer : Ptr} {bits : List Bool}
    (shows : ShowsBits t data buffer bits) (short : bits.length < 2 ^ 32) :
    bitvectorHash64 t data buffer = .ok (hashBits64 bits) := by
  rw [bitvectorHash64, shows.nBits, ok_bind, UInt32.toNat_ofNat', Nat.mod_eq_of_lt short]
  exact bitvectorHash64Priv_eq shows.isSet

/-- The data word of a bitvector on the heap is not looked at. -/
theorem EncodedBits.shows_heap {a : EncodedBits} (isHeap : a.type = .bitvector) (data : UInt32) :
    ShowsBits .bitvector data a.buffer a.bits := by
  have shows := a.shows
  rw [isHeap] at shows
  exact ⟨shows.nBits, shows.isSet⟩

theorem BitSource.hash32_eq (a : BitSource) : a.hash32 = .ok (hashBits32 a.bits) := by
  cases a with
  | file a => exact a.shows.hash32 a.short
  | heap a isHeap => exact (a.shows_heap isHeap 0).hash32 a.short
  | primitive a =>
      have hashed := @bitvectorHash32Priv_eq .bitvector 0 (some a.memory) a.bits
        fun i less => a.isSet less
      rw [a.length_bits] at hashed
      exact hashed

theorem BitSource.hash64_eq (a : BitSource) : a.hash64 = .ok (hashBits64 a.bits) := by
  cases a with
  | file a => exact a.shows.hash64 a.short
  | heap a isHeap => exact (a.shows_heap isHeap 0).hash64 a.short
  | primitive a =>
      have hashed := @bitvectorHash64Priv_eq .bitvector 0 (some a.memory) a.bits
        fun i less => a.isSet less
      rw [a.length_bits] at hashed
      exact hashed

end Pointless
