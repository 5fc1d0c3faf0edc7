import Pointless.ValidateSound

/-!
# The assertions of the accessors

The accessors of `pointless_reader.c` in a build without `-DNDEBUG`, where each
`assert` is a check that aborts. The buffer lies at the address `base`, and a
pointer into the heap is kept as the heap position it stands for.
-/

namespace Pointless

open ByteMemory ExceptRules DepthFirst

/-- How a function of such a build stops: at an assertion that fails, or as it stops
without assertions. -/
inductive Abort where
  | assertion
  | stop (why : Stop)
  deriving DecidableEq, Repr

/-- The outcome of a function of such a build. -/
abbrev Asserted := Except Abort

/-- `assert(condition)`. -/
def assert (condition : Prop) [Decidable condition] : Asserted Unit :=
  if condition then .ok () else .error .assertion

/-- A step in which nothing is asserted. -/
def step {α : Type} : Res α → Asserted α
  | .ok a => .ok a
  | .error why => .error (.stop why)

namespace Asserted

section Accessors

variable (base : Nat) (p : OpenFile) (v : Value)

/-- The address that a pointer into the heap, or a null pointer, stands for. -/
def address : Option Nat → Nat
  | none => 0
  | some off => base + p.header.mandatorySize + off

/-! ## Strings and unicodes -/

/-- `pointless_reader_unicode_len`, and `pointless_reader_string_len`. -/
def readerStringUnicodeLen : Asserted UInt32 := do
  assert (v.data < p.header.nStringUnicode)
  step (Pointless.readerStringUnicodeLen p v)

/-- `pointless_reader_unicode_value`, and `pointless_reader_string_value_ascii`. -/
def readerStringUnicodeValue : Asserted Nat := do
  assert (v.data < p.header.nStringUnicode)
  let off ← step (pcOffset p.stringUnicodeOffsets v.data)
  pure (off + 4)

/-- `pointless_reader_unicode_value_ucs4`. -/
def readerUnicodeValueUcs4 : Asserted Nat := do
  let chars ← readerStringUnicodeValue p v
  assert (address base p (some chars) % 4 = 0)
  readerStringUnicodeValue p v

/-! ## Vectors -/

/-- `pointless_reader_vector_n_items`. -/
def readerVectorNItems : Asserted UInt32 :=
  if v.type = .vectorEmpty then pure 0
  else do
    assert (v.data < p.header.nVector)
    step (Pointless.readerVectorNItems p v)

/-- `pointless_reader_vector_base_ptr`, which is null for an empty vector. -/
def readerVectorBasePtr : Asserted (Option Nat) :=
  if v.type = .vectorEmpty then pure none
  else do
    assert (v.data < p.header.nVector)
    let off ← step (pcOffset p.vectorOffsets v.data)
    pure (some (off + 4))

/-- An accessor for the items of the vectors whose type is one of `types`. -/
def readerVectorOf (types : List ValueType) : Asserted (Option Nat) := do
  assert (v.type ∈ types)
  let items ← readerVectorBasePtr p v
  assert (address base p items % 4 = 0)
  readerVectorBasePtr p v

/-- `pointless_reader_vector_value`. -/
def readerVectorValue : Asserted (Option Nat) :=
  readerVectorOf base p v [.vectorValue, .vectorValueHashable, .vectorEmpty]

/-- `pointless_reader_vector_i8`; the accessors below are its siblings. -/
def readerVectorI8 : Asserted (Option Nat) := readerVectorOf base p v [.vectorI8]
def readerVectorU8 : Asserted (Option Nat) := readerVectorOf base p v [.vectorU8]
def readerVectorI16 : Asserted (Option Nat) := readerVectorOf base p v [.vectorI16]
def readerVectorU16 : Asserted (Option Nat) := readerVectorOf base p v [.vectorU16]
def readerVectorI32 : Asserted (Option Nat) := readerVectorOf base p v [.vectorI32]
def readerVectorU32 : Asserted (Option Nat) := readerVectorOf base p v [.vectorU32]
def readerVectorI64 : Asserted (Option Nat) := readerVectorOf base p v [.vectorI64]
def readerVectorU64 : Asserted (Option Nat) := readerVectorOf base p v [.vectorU64]
def readerVectorFloat : Asserted (Option Nat) := readerVectorOf base p v [.vectorFloat]

/-- The accessor for the items of `v`, by the switch of
`pointless_reader_vector_value_case`, which asserts that there is one. -/
def readerVectorItems : Asserted (Option Nat) :=
  match v.type with
  | .vectorValue | .vectorValueHashable => readerVectorValue base p v
  | .vectorI8 => readerVectorI8 base p v
  | .vectorU8 => readerVectorU8 base p v
  | .vectorI16 => readerVectorI16 base p v
  | .vectorU16 => readerVectorU16 base p v
  | .vectorI32 => readerVectorI32 base p v
  | .vectorU32 => readerVectorU32 base p v
  | .vectorI64 => readerVectorI64 base p v
  | .vectorU64 => readerVectorU64 base p v
  | .vectorFloat => readerVectorFloat base p v
  | _ => do
      assert False
      pure none

/-- `pointless_reader_vector_value_case`. -/
def readerVectorValueCase (i : Nat) : Asserted CompleteValue := do
  assert (isVectorType v.type = true)
  let _ ← readerVectorItems base p v
  step (Pointless.readerVectorValueCase p v i)

/-! ## Bitvectors -/

/-- The buffer as the accessors below set it: null unless the bits are on the heap. -/
def readerBitvectorPtr : Asserted (Option Nat) :=
  if v.type = .bitvector then do
    assert (v.data < p.header.nBitvector)
    let off ← step (pcOffset p.bitvectorOffsets v.data)
    pure (some off)
  else pure none

/-- `pointless_reader_bitvector_n_bits`. `pointless_bitvector_n_bits` ends in
`assert(0)` for a value of another type. -/
def readerBitvectorNBits : Asserted UInt32 := do
  let buffer ← readerBitvectorPtr p v
  assert (address base p buffer % 4 = 0)
  assert (isBitvectorType v.type = true)
  step (Pointless.readerBitvectorNBits p v)

/-- `pointless_reader_bitvector_is_set`. -/
def readerBitvectorIsSet (bit : Nat) : Asserted Bool := do
  let nBits ← readerBitvectorNBits base p v
  assert (bit < nBits.toNat)
  let buffer ← readerBitvectorPtr p v
  assert (address base p buffer % 4 = 0)
  assert (isBitvectorType v.type = true)
  step (Pointless.readerBitvectorIsSet p v bit)

/-! ## Sets and maps -/

/-- `assert((size_t)header % 4 == 0)`. -/
def alignedHeader (offsets : List UInt64) : Asserted Unit := do
  let off ← step (pcOffset offsets v.data)
  assert (address base p (some off) % 4 = 0)

/-- The assertions that most accessors of sets begin with. -/
def setHeader : Asserted Unit := do
  assert (v.type = .setValue)
  alignedHeader base p v p.setOffsets

/-- `pointless_reader_set_n_items`. -/
def readerSetNItems : Asserted UInt32 := do
  setHeader base p v
  step (Pointless.readerSetNItems p v)

/-- `pointless_reader_set_n_buckets`. -/
def readerSetNBuckets : Asserted UInt32 := do
  assert (v.type = .setValue)
  let keys ← step (Pointless.setKeyVector p v)
  let nKeys ← readerVectorNItems p keys
  let hashes ← step (Pointless.setHashVector p v)
  let nHashes ← readerVectorNItems p hashes
  assert (nKeys = nHashes)
  alignedHeader base p v p.setOffsets
  readerVectorNItems p keys

/-- `pointless_reader_set_iter`. Every round of its loop asserts the same. -/
def readerSetIter (iterState : UInt32) : Asserted (Option (Value × UInt32)) := do
  setHeader base p v
  let keys ← step (Pointless.setKeyVector p v)
  assert (keys.type = .vectorValueHashable)
  let _ ← readerVectorNItems p keys
  let _ ← readerVectorValue base p keys
  step (Pointless.readerSetIter p v iterState)

/-- `pointless_set_hash_vector`. -/
def setHashVector : Asserted Value := do
  setHeader base p v
  step (Pointless.setHashVector p v)

/-- `pointless_set_key_vector`. -/
def setKeyVector : Asserted Value := do
  setHeader base p v
  step (Pointless.setKeyVector p v)

/-- `pointless_reader_set_iter_hash_init`. -/
def readerSetIterHashInit (hash : UInt32) : Asserted HashIterState := do
  assert (v.type = .setValue)
  let hashes ← step (Pointless.setHashVector p v)
  assert (hashes.type = .vectorU32)
  let _ ← readerVectorNItems p hashes
  alignedHeader base p v p.setOffsets
  step (Pointless.readerSetIterHashInit p v hash)

/-- The vector pointers that a probe of a set takes. -/
def setVectors : Asserted Unit := do
  let hashes ← step (Pointless.setHashVector p v)
  let keys ← step (Pointless.setKeyVector p v)
  let _ ← readerVectorU32 base p hashes
  let _ ← readerVectorValue base p keys

/-- `pointless_reader_set_iter_hash`. -/
def readerSetIterHash (fuel : Nat) (hash : UInt32) (iterState : HashIterState) :
    Asserted (Option (UInt32 × Value × HashIterState)) := do
  assert (v.type = .setValue)
  let hashes ← step (Pointless.setHashVector p v)
  assert (hashes.type = .vectorU32)
  let keys ← step (Pointless.setKeyVector p v)
  assert (keys.type = .vectorValueHashable)
  alignedHeader base p v p.setOffsets
  setVectors base p v
  step (Pointless.readerSetIterHash p fuel v hash iterState)

/-- What a lookup in a set asserts of the set before it probes. -/
def setLookup : Asserted Unit := do
  setHeader base p v
  setVectors base p v
  let keys ← step (Pointless.setKeyVector p v)
  let _ ← readerVectorNItems p keys

/-- `pointless_reader_set_lookup`. The hash and the probe go through accessors of
the keys. -/
def readerSetLookup (fuel : Nat) (k : Value) : Asserted (Option UInt32) :=
  if ¬isHashable k.type then step (Pointless.readerSetLookup p fuel v k)
  else do
    setLookup base p v
    step (Pointless.readerSetLookup p fuel v k)

/-- `pointless_reader_set_lookup_ext`. -/
def readerSetLookupExt (fuel : Nat) (hash : UInt32) (cb : CompleteValue → Res UInt32) :
    Asserted (Option UInt32) := do
  setLookup base p v
  step (Pointless.readerSetLookupExt p fuel v hash cb)

/-- The assertions that most accessors of maps begin with. -/
def mapHeader : Asserted Unit := do
  assert (v.type = .mapValueValue)
  alignedHeader base p v p.mapOffsets

/-- `pointless_reader_map_n_items`. -/
def readerMapNItems : Asserted UInt32 := do
  mapHeader base p v
  step (Pointless.readerMapNItems p v)

/-- `pointless_reader_map_n_buckets`. -/
def readerMapNBuckets : Asserted UInt32 := do
  assert (v.type = .mapValueValue)
  let hashes ← step (Pointless.mapHashVector p v)
  let nHashes ← readerVectorNItems p hashes
  let keys ← step (Pointless.mapKeyVector p v)
  let nKeys ← readerVectorNItems p keys
  assert (nHashes = nKeys)
  let values ← step (Pointless.mapValueVector p v)
  let nValues ← readerVectorNItems p values
  assert (nKeys = nValues)
  alignedHeader base p v p.mapOffsets
  readerVectorNItems p keys

/-- `assert` that a value vector holds values. -/
def assertValues (values : Value) : Asserted Unit :=
  assert (values.type = .vectorValue ∨ values.type = .vectorValueHashable)

/-- `pointless_reader_map_iter`. -/
def readerMapIter (iterState : UInt32) : Asserted (Option (Value × Value × UInt32)) := do
  assert (v.type = .mapValueValue)
  let keys ← step (Pointless.mapKeyVector p v)
  assert (keys.type = .vectorValueHashable)
  let values ← step (Pointless.mapValueVector p v)
  assertValues values
  let _ ← readerVectorNItems p keys
  alignedHeader base p v p.mapOffsets
  let _ ← readerVectorValue base p keys
  let _ ← readerVectorValue base p values
  step (Pointless.readerMapIter p v iterState)

/-- `pointless_map_hash_vector`. -/
def mapHashVector : Asserted Value := do
  mapHeader base p v
  step (Pointless.mapHashVector p v)

/-- `pointless_map_key_vector`. -/
def mapKeyVector : Asserted Value := do
  mapHeader base p v
  step (Pointless.mapKeyVector p v)

/-- `pointless_map_value_vector`. -/
def mapValueVector : Asserted Value := do
  mapHeader base p v
  step (Pointless.mapValueVector p v)

/-- `pointless_reader_map_iter_hash_init`. -/
def readerMapIterHashInit (hash : UInt32) : Asserted HashIterState := do
  assert (v.type = .mapValueValue)
  let hashes ← step (Pointless.mapHashVector p v)
  assert (hashes.type = .vectorU32)
  let _ ← readerVectorNItems p hashes
  alignedHeader base p v p.mapOffsets
  step (Pointless.readerMapIterHashInit p v hash)

/-- The vector pointers that a probe of a map takes. -/
def mapVectors : Asserted Unit := do
  let hashes ← step (Pointless.mapHashVector p v)
  let keys ← step (Pointless.mapKeyVector p v)
  let values ← step (Pointless.mapValueVector p v)
  let _ ← readerVectorU32 base p hashes
  let _ ← readerVectorValue base p keys
  let _ ← readerVectorValue base p values

/-- `pointless_reader_map_iter_hash`. -/
def readerMapIterHash (fuel : Nat) (hash : UInt32) (iterState : HashIterState) :
    Asserted (Option (UInt32 × Value × Value × HashIterState)) := do
  assert (v.type = .mapValueValue)
  let hashes ← step (Pointless.mapHashVector p v)
  assert (hashes.type = .vectorU32)
  let keys ← step (Pointless.mapKeyVector p v)
  assert (keys.type = .vectorValueHashable)
  let values ← step (Pointless.mapValueVector p v)
  assertValues values
  alignedHeader base p v p.mapOffsets
  mapVectors base p v
  step (Pointless.readerMapIterHash p fuel v hash iterState)

/-- What a lookup in a map asserts of the map before it probes. -/
def mapLookup : Asserted Unit := do
  mapHeader base p v
  mapVectors base p v
  let keys ← step (Pointless.mapKeyVector p v)
  let _ ← readerVectorNItems p keys

/-- `pointless_reader_map_lookup`. -/
def readerMapLookup (fuel : Nat) (k : Value) : Asserted (Option UInt32) :=
  if ¬isHashable k.type then step (Pointless.readerMapLookup p fuel v k)
  else do
    mapLookup base p v
    step (Pointless.readerMapLookup p fuel v k)

/-- `pointless_reader_map_lookup_ext`. -/
def readerMapLookupExt (fuel : Nat) (hash : UInt32) (cb : CompleteValue → Res UInt32) :
    Asserted (Option UInt32) := do
  mapLookup base p v
  step (Pointless.readerMapLookupExt p fuel v hash cb)

end Accessors

/-! ## What holds at every accessor -/

/-- No assertion fails. -/
def Holds {α : Type} (action : Asserted α) : Prop :=
  Post (fun _ => True) (fun abort => abort ≠ .assertion) action

/-- No accessor of a set aborts. -/
structure SetHolds (base : Nat) (p : OpenFile) (v : Value) : Prop where
  nItems : Holds (readerSetNItems base p v)
  nBuckets : Holds (readerSetNBuckets base p v)
  iter : ∀ iterState, Holds (readerSetIter base p v iterState)
  hashVector : Holds (setHashVector base p v)
  keyVector : Holds (setKeyVector base p v)
  iterHashInit : ∀ hash, Holds (readerSetIterHashInit base p v hash)
  iterHash : ∀ fuel hash iterState, Holds (readerSetIterHash base p v fuel hash iterState)
  lookup : ∀ fuel k, Holds (readerSetLookup base p v fuel k)
  lookupExt : ∀ fuel hash cb, Holds (readerSetLookupExt base p v fuel hash cb)

/-- No accessor of a map aborts. -/
structure MapHolds (base : Nat) (p : OpenFile) (v : Value) : Prop where
  nItems : Holds (readerMapNItems base p v)
  nBuckets : Holds (readerMapNBuckets base p v)
  iter : ∀ iterState, Holds (readerMapIter base p v iterState)
  hashVector : Holds (mapHashVector base p v)
  keyVector : Holds (mapKeyVector base p v)
  valueVector : Holds (mapValueVector base p v)
  iterHashInit : ∀ hash, Holds (readerMapIterHashInit base p v hash)
  iterHash : ∀ fuel hash iterState, Holds (readerMapIterHash base p v fuel hash iterState)
  lookup : ∀ fuel k, Holds (readerMapLookup base p v fuel k)
  lookupExt : ∀ fuel hash cb, Holds (readerMapLookupExt base p v fuel hash cb)

/-- No accessor that the type of `v` has aborts. The items are those below the
length of the vector, and the bits those below the length of the bitvector. -/
structure AccessorsHold (base : Nat) (p : OpenFile) (v : Value) : Prop where
  unicode : v.type = .unicode →
    Holds (readerStringUnicodeLen p v) ∧ Holds (readerUnicodeValueUcs4 base p v)
  string : v.type = .string →
    Holds (readerStringUnicodeLen p v) ∧ Holds (readerStringUnicodeValue p v)
  vector : isVectorType v.type = true → Holds (readerVectorNItems p v) ∧
    ∀ n, Pointless.readerVectorNItems p v = .ok n → ∀ i < n.toNat,
      Holds (readerVectorValueCase base p v i)
  vectorItems : isVectorType v.type = true → v.type ≠ .vectorEmpty →
    Holds (readerVectorItems base p v)
  vectorEmpty : v.type = .vectorEmpty → Holds (readerVectorValue base p v)
  bitvector : isBitvectorType v.type = true → Holds (readerBitvectorNBits base p v) ∧
    ∀ n, Pointless.readerBitvectorNBits p v = .ok n → ∀ i < n.toNat,
      Holds (readerBitvectorIsSet base p v i)
  set : v.type = .setValue → SetHolds base p v
  map : v.type = .mapValueValue → MapHolds base p v

/-! ## Evaluation -/

section Evaluation

variable {α : Type}

@[simp] theorem assert_of {condition : Prop} [Decidable condition] (holds : condition) :
    assert condition = .ok () := if_pos holds

@[simp] theorem step_ok (a : α) : step (.ok a : Res α) = .ok a := rfl

@[simp] theorem holds_ok (a : α) : Holds (.ok a : Asserted α) := trivial

@[simp] theorem holds_step (action : Res α) : Holds (step action) := by
  cases action with
  | error why => exact Abort.noConfusion
  | ok a => exact trivial

end Evaluation

end Asserted

/-! ## Offsets -/

/-- The offset table that a type refers to. -/
def OpenFile.offsets (p : OpenFile) : ValueType → Option (List UInt64)
  | .unicode | .string => some p.stringUnicodeOffsets
  | .vectorValue | .vectorValueHashable | .vectorI8 | .vectorU8 | .vectorI16 | .vectorU16
  | .vectorI32 | .vectorU32 | .vectorI64 | .vectorU64 | .vectorFloat => some p.vectorOffsets
  | .bitvector => some p.bitvectorOffsets
  | .setValue => some p.setOffsets
  | .mapValueValue => some p.mapOffsets
  | _ => none

/-- `off` is the offset of the heap object of `v`. -/
def HasOffset (p : OpenFile) (v : Value) (off : Nat) : Prop :=
  ∃ offsets ∈ p.offsets v.type, pcOffset offsets v.data = .ok off

/-- In a file accepted from a buffer at a 4-aligned address, no assertion of an
accessor fails at a reachable value, and its offset leads to a 4-aligned address. -/
def AssertionsHold (buf : List UInt8) : Prop :=
  ∀ base, base % 4 = 0 → ∀ fuel p error, openB fuel buf = .ok (p, error) →
    ∀ v, Reachable p v → Asserted.AccessorsHold base p v ∧
      ∀ off, HasOffset p v off → Asserted.address base p (some off) % 4 = 0

/-- In an accepted file every reachable value has an offset that is a multiple of 4. -/
def OffsetsAligned (buf : List UInt8) : Prop :=
  ∀ fuel p error, openB fuel buf = .ok (p, error) →
    ∀ v, Reachable p v → ∀ off, HasOffset p v off → off % 4 = 0

theorem mandatorySize_aligned (h : Header) : h.mandatorySize % 4 = 0 := by
  unfold Header.mandatorySize
  omega

theorem address_aligned {base : Nat} (aligned : base % 4 = 0) {p : OpenFile} {off : Nat} :
    Asserted.address base p (some off) % 4 = 0 ↔ off % 4 = 0 := by
  have header := mandatorySize_aligned p.header
  change (base + p.header.mandatorySize + off) % 4 = 0 ↔ off % 4 = 0
  omega

namespace Asserted

section Accessors

variable {base : Nat} {p : OpenFile} {v : Value}

/-! ## The accessors of aligned objects -/

theorem readerStringUnicodeValue_eq {w off : Nat} {n : UInt32} (string : StringInside p v w off n)
    (ref : v.data < p.header.nStringUnicode) :
    readerStringUnicodeValue p v = .ok (off + 4) := by
  simp [readerStringUnicodeValue, ref, string.offset]

theorem readerStringUnicodeLen_holds (ref : v.data < p.header.nStringUnicode) :
    Holds (readerStringUnicodeLen p v) := by
  simp [readerStringUnicodeLen, ref]

/-- A vector whose offset, if it has one, is a multiple of 4. -/
structure VectorAligned (base : Nat) (p : OpenFile) (v : Value) : Prop where
  nItems : ∀ n, Pointless.readerVectorNItems p v = .ok n → readerVectorNItems p v = .ok n
  basePtr : ∃ items, readerVectorBasePtr p v = .ok items ∧ address base p items % 4 = 0

theorem VectorAligned.items (vector : VectorAligned base p v) {types : List ValueType}
    (mem : v.type ∈ types) : ∃ items, readerVectorOf base p v types = .ok items := by
  obtain ⟨items, read, aligned⟩ := vector.basePtr
  exact ⟨items, by simp [readerVectorOf, mem, read, aligned]⟩

variable (sound : p.Sound) (reach : Reachable p v) (place : base % 4 = 0)
  (aligned : ∀ off, HasOffset p v off → off % 4 = 0)
include sound reach place aligned

theorem vectorAligned (type : isVectorType v.type = true) : VectorAligned base p v := by
  by_cases empty : v.type = .vectorEmpty
  · refine ⟨fun n count => ?_, none, by rw [readerVectorBasePtr, if_pos empty]; rfl, rfl⟩
    rw [Pointless.readerVectorNItems, if_pos empty] at count
    rw [readerVectorNItems, if_pos empty]
    cases count
    rfl
  · have checked := sound.checked v reach
    obtain ⟨w, item⟩ := vectorItemLen_of_type type empty
    obtain ⟨off, n, vector⟩ := checked.vector sound.sized item
    have ref : v.data < p.header.nVector := UInt32.not_le.mp (checked.vectorRef item)
    have table : p.offsets v.type = some p.vectorOffsets := by
      unfold vectorItemLen at item
      unfold OpenFile.offsets
      cases kind : v.type <;> simp only [kind] at item <;> first | rfl | cases item
    have multiple := aligned off ⟨_, table, vector.offset⟩
    refine ⟨fun m count => ?_, some (off + 4), ?_, ?_⟩
    · simp [readerVectorNItems, empty, ref, count]
    · simp [readerVectorBasePtr, empty, ref, vector.offset]
    · rw [address_aligned place]
      omega

/-- The accessor that the switch on the type chooses asserts the type it is for. -/
theorem readerVectorItems_holds (type : isVectorType v.type = true) (nonempty : v.type ≠ .vectorEmpty) :
    ∃ items, readerVectorItems base p v = .ok items := by
  have vector := vectorAligned sound reach place aligned type
  have chosen : ∀ types, v.type ∈ types → ∃ items, readerVectorOf base p v types = .ok items :=
    fun types mem => vector.items mem
  unfold readerVectorItems
  unfold isVectorType at type
  cases kind : v.type <;> simp only [kind] at type nonempty chosen ⊢ <;>
    first
    | exact chosen _ (by simp)
    | exact absurd rfl nonempty
    | cases type

theorem bitvectorPtr_eq :
    ∃ buffer, readerBitvectorPtr p v = .ok buffer ∧ address base p buffer % 4 = 0 := by
  by_cases heap : v.type = .bitvector
  · have checked := sound.checked v reach
    obtain ⟨off, n, bitvector⟩ := checked.bitvector sound.sized heap
    have ref : v.data < p.header.nBitvector := checked.offset _ (by rw [heap]; rfl)
    have multiple := aligned off ⟨_, by rw [heap]; rfl, bitvector.offset⟩
    refine ⟨some off, ?_, (address_aligned place).mpr multiple⟩
    simp [readerBitvectorPtr, heap, ref, bitvector.offset]
  · exact ⟨none, by rw [readerBitvectorPtr, if_neg heap]; rfl, rfl⟩

theorem vectorValueCase_holds (type : isVectorType v.type = true) {n : UInt32}
    (count : Pointless.readerVectorNItems p v = .ok n) {i : Nat} (less : i < n.toNat) :
    Holds (readerVectorValueCase base p v i) := by
  have nonempty : v.type ≠ .vectorEmpty := by
    intro empty
    rw [Pointless.readerVectorNItems, if_pos empty] at count
    cases count
    cases less
  obtain ⟨items, chosen⟩ := readerVectorItems_holds sound reach place aligned type nonempty
  simp [readerVectorValueCase, type, chosen]

theorem bitvector_holds (type : isBitvectorType v.type = true) :
    Holds (readerBitvectorNBits base p v) ∧
      ∀ n, Pointless.readerBitvectorNBits p v = .ok n → ∀ i < n.toNat,
        Holds (readerBitvectorIsSet base p v i) := by
  obtain ⟨buffer, read, multiple⟩ := bitvectorPtr_eq sound reach place aligned
  refine ⟨by simp [readerBitvectorNBits, read, multiple, type], fun n count i less => ?_⟩
  simp [readerBitvectorIsSet, readerBitvectorNBits, read, multiple, type, count, less]

theorem unicode_holds (type : v.type = .unicode) :
    Holds (readerStringUnicodeLen p v) ∧ Holds (readerUnicodeValueUcs4 base p v) := by
  have checked := sound.checked v reach
  have ref : v.data < p.header.nStringUnicode := checked.offset _ (by rw [type]; rfl)
  obtain ⟨off, n, string⟩ := checked.unicode sound.sized type
  have multiple := aligned off ⟨_, by rw [type]; rfl, string.offset⟩
  have chars : address base p (some (off + 4)) % 4 = 0 := by
    rw [address_aligned place]
    omega
  refine ⟨readerStringUnicodeLen_holds ref, ?_⟩
  simp [readerUnicodeValueUcs4, readerStringUnicodeValue_eq string ref, chars]

omit place aligned in
theorem string_holds (type : v.type = .string) :
    Holds (readerStringUnicodeLen p v) ∧ Holds (readerStringUnicodeValue p v) := by
  have checked := sound.checked v reach
  have ref : v.data < p.header.nStringUnicode := checked.offset _ (by rw [type]; rfl)
  obtain ⟨off, n, string⟩ := checked.string sound.sized type
  refine ⟨readerStringUnicodeLen_holds ref, ?_⟩
  simp [readerStringUnicodeValue_eq string ref]

end Accessors

/-! ## The accessors of aligned sets and maps -/

/-- The vectors of a table of `n` buckets pass the assertions that its accessors make
of them. -/
structure TableAligned (base : Nat) (p : OpenFile) (table : Table) (n : UInt32) : Prop where
  hashType : table.hashes.type = .vectorU32
  keyType : table.keys.type = .vectorValueHashable
  valueType : ∀ values ∈ table.values,
    values.type = .vectorValue ∨ values.type = .vectorValueHashable
  nHashes : readerVectorNItems p table.hashes = .ok n
  nKeys : readerVectorNItems p table.keys = .ok n
  nValues : ∀ values ∈ table.values, readerVectorNItems p values = .ok n
  hashItems : ∃ items, readerVectorU32 base p table.hashes = .ok items
  keyItems : ∃ items, readerVectorValue base p table.keys = .ok items
  valueItems : ∀ values ∈ table.values, ∃ items, readerVectorValue base p values = .ok items

section Tables

variable {base : Nat} {p : OpenFile} {v : Value}

theorem tableAligned (sound : p.Sound) (place : base % 4 = 0)
    (aligned : ∀ w, Reachable p w → ∀ off, HasOffset p w off → off % 4 = 0) {table : Table}
    (known : TableAt.Known p table) {n : UInt32} (even : table.Even p n) :
    TableAligned base p table n := by
  obtain ⟨nHashes, nKeys, nValues⟩ := even
  have vector : ∀ {w}, Reachable p w → isVectorType w.type = true → VectorAligned base p w :=
    fun reach type => vectorAligned sound reach place (aligned _ reach) type
  have hashes := vector known.hashReach (by rw [known.hashType]; rfl)
  have keys := vector known.keyReach (by rw [known.keyType]; rfl)
  have values : ∀ values ∈ table.values, VectorAligned base p values := by
    intro values mem
    refine vector (known.valueReach values mem) ?_
    rcases known.valueType values mem with type | type <;> rw [type] <;> rfl
  exact
    { hashType := known.hashType
      keyType := known.keyType
      valueType := known.valueType
      nHashes := hashes.nItems n nHashes
      nKeys := keys.nItems n nKeys
      nValues := fun w mem => (values w mem).nItems n (nValues w mem)
      hashItems := hashes.items (by simp [known.hashType])
      keyItems := keys.items (by simp [known.keyType])
      valueItems := fun w mem => (values w mem).items (by
        rcases known.valueType w mem with type | type <;> simp [type]) }

theorem alignedHeader_eq {offsets : List UInt64} {off : Nat}
    (read : pcOffset offsets v.data = .ok off)
    (multiple : address base p (some off) % 4 = 0) :
    alignedHeader base p v offsets = .ok () := by
  simp [alignedHeader, read, multiple]

theorem setHolds {hashes keys : Value} {nItems n : UInt32} (type : v.type = .setValue)
    (hashRead : Pointless.setHashVector p v = .ok hashes)
    (keyRead : Pointless.setKeyVector p v = .ok keys)
    (header : alignedHeader base p v p.setOffsets = .ok ())
    (table : TableAligned base p ⟨hashes, keys, none, nItems⟩ n) : SetHolds base p v := by
  have hashType : hashes.type = .vectorU32 := table.hashType
  have keyType : keys.type = .vectorValueHashable := table.keyType
  obtain ⟨hashPtr, hashItems⟩ := table.hashItems
  obtain ⟨keyPtr, keyItems⟩ := table.keyItems
  have vectors : setVectors base p v = .ok () := by
    simp [setVectors, hashRead, keyRead, hashItems, keyItems]
  have looks : setLookup base p v = .ok () := by
    simp [setLookup, setHeader, type, header, vectors, keyRead, table.nKeys]
  constructor
  case nItems => simp [readerSetNItems, setHeader, type, header]
  case nBuckets =>
    simp [readerSetNBuckets, type, keyRead, hashRead, table.nKeys, table.nHashes, header]
  case iter =>
    intro iterState
    simp [readerSetIter, setHeader, type, header, keyRead, keyType, table.nKeys, keyItems]
  case hashVector => simp [setHashVector, setHeader, type, header]
  case keyVector => simp [setKeyVector, setHeader, type, header]
  case iterHashInit =>
    intro hash
    simp [readerSetIterHashInit, type, hashRead, hashType, table.nHashes, header]
  case iterHash =>
    intro fuel hash iterState
    simp [readerSetIterHash, type, hashRead, hashType, keyRead, keyType, header,
      vectors]
  case lookup =>
    intro fuel k
    unfold readerSetLookup
    split
    case isTrue => exact holds_step _
    case isFalse => simp [looks]
  case lookupExt =>
    intro fuel hash cb
    simp [readerSetLookupExt, looks]

theorem mapHolds {hashes keys values : Value} {nItems n : UInt32} (type : v.type = .mapValueValue)
    (hashRead : Pointless.mapHashVector p v = .ok hashes)
    (keyRead : Pointless.mapKeyVector p v = .ok keys)
    (valueRead : Pointless.mapValueVector p v = .ok values)
    (header : alignedHeader base p v p.mapOffsets = .ok ())
    (table : TableAligned base p ⟨hashes, keys, some values, nItems⟩ n) : MapHolds base p v := by
  have hashType : hashes.type = .vectorU32 := table.hashType
  have keyType : keys.type = .vectorValueHashable := table.keyType
  obtain ⟨hashPtr, hashItems⟩ := table.hashItems
  obtain ⟨keyPtr, keyItems⟩ := table.keyItems
  obtain ⟨valuePtr, valueItems⟩ := table.valueItems values rfl
  have nValues := table.nValues values rfl
  have valueType : assertValues values = .ok () := assert_of (table.valueType values rfl)
  have vectors : mapVectors base p v = .ok () := by
    simp [mapVectors, hashRead, keyRead, valueRead, hashItems, keyItems, valueItems]
  have looks : mapLookup base p v = .ok () := by
    simp [mapLookup, mapHeader, type, header, vectors, keyRead, table.nKeys]
  constructor
  case nItems => simp [readerMapNItems, mapHeader, type, header]
  case nBuckets =>
    simp [readerMapNBuckets, type, hashRead, keyRead, valueRead, table.nHashes, table.nKeys, nValues,
      header]
  case iter =>
    intro iterState
    simp [readerMapIter, type, keyRead, keyType, valueRead, valueType, table.nKeys, header,
      keyItems, valueItems]
  case hashVector => simp [mapHashVector, mapHeader, type, header]
  case keyVector => simp [mapKeyVector, mapHeader, type, header]
  case valueVector => simp [mapValueVector, mapHeader, type, header]
  case iterHashInit =>
    intro hash
    simp [readerMapIterHashInit, type, hashRead, hashType, table.nHashes, header]
  case iterHash =>
    intro fuel hash iterState
    simp [readerMapIterHash, type, hashRead, hashType, keyRead, keyType, valueRead,
      valueType, header, vectors]
  case lookup =>
    intro fuel k
    unfold readerMapLookup
    split
    case isTrue => exact holds_step _
    case isFalse => simp [looks]
  case lookupExt =>
    intro fuel hash cb
    simp [readerMapLookupExt, looks]

/-- In a file that has passed the validator, aligned offsets are enough for the
assertions: the types and the bounds that they ask for have been checked. -/
theorem accessorsHold (sound : p.Sound) {fuel : Nat}
    (passed : validatePass p (.hashTables fuel) = .ok ()) (place : base % 4 = 0)
    (aligned : ∀ w, Reachable p w → ∀ off, HasOffset p w off → off % 4 = 0)
    (reach : Reachable p v) : AccessorsHold base p v := by
  have here := aligned v reach
  have header : ∀ {offsets : List UInt64} {off : Nat}, p.offsets v.type = some offsets →
      pcOffset offsets v.data = .ok off → alignedHeader base p v offsets = .ok () :=
    fun table read => alignedHeader_eq read
      ((address_aligned place).mpr (here _ ⟨_, table, read⟩))
  have table : ∀ tbl, TableAt p v tbl → ∃ n, TableAligned base p tbl n := by
    intro tbl at_v
    obtain ⟨tbl', at_v', known⟩ := sound.table reach at_v.isTable
    obtain ⟨tbl'', n, -, -, at_v'', even, -⟩ := sound.tableInside reach at_v.isTable
      (table_passed passed reach at_v.isTable)
    rw [at_v'.unique at_v] at known
    rw [at_v''.unique at_v] at even
    exact ⟨n, tableAligned sound place aligned known even⟩
  constructor
  case unicode => exact unicode_holds sound reach place here
  case string => exact string_holds sound reach
  case vector =>
    intro type
    obtain ⟨n, count⟩ := sound.nItems reach type
    have vector := vectorAligned sound reach place here type
    refine ⟨by simp [vector.nItems n count], fun n count i less => ?_⟩
    exact vectorValueCase_holds sound reach place here type count less
  case vectorItems =>
    intro type nonempty
    obtain ⟨items, chosen⟩ := readerVectorItems_holds sound reach place here type nonempty
    simp [chosen]
  case vectorEmpty =>
    intro type
    have vector := vectorAligned sound reach place here (by rw [type]; rfl)
    have mem : v.type ∈ [.vectorValue, .vectorValueHashable, .vectorEmpty] := by simp [type]
    obtain ⟨items, read⟩ := vector.items mem
    simp [readerVectorValue, read]
  case bitvector => exact bitvector_holds sound reach place here
  case set =>
    intro type
    obtain ⟨off, -, -, inside, -⟩ := (sound.checked v reach).set sound.sized type
    obtain ⟨hashes, keys, nItems, hashRead, keyRead, count, -⟩ := sound.setVectors reach type
    obtain ⟨n, ready⟩ := table _ (.set type hashRead keyRead count)
    exact setHolds type hashRead keyRead (header (by rw [type]; rfl) inside.offset) ready
  case map =>
    intro type
    obtain ⟨off, -, -, -, inside, -⟩ := (sound.checked v reach).map sound.sized type
    obtain ⟨hashes, keys, values, nItems, hashRead, keyRead, valueRead, count, -⟩ :=
      sound.mapVectors reach type
    obtain ⟨n, ready⟩ := table _ (.map type hashRead keyRead valueRead count)
    exact mapHolds type hashRead keyRead valueRead (header (by rw [type]; rfl) inside.offset) ready

end Tables

end Asserted

/-- The assertions hold in every file that is accepted from a buffer, and its offsets
lead to aligned addresses, exactly when these offsets are multiples of 4: opening
checks all the rest, and nothing of that. -/
theorem assertionsHold_iff (buf : List UInt8) : AssertionsHold buf ↔ OffsetsAligned buf := by
  constructor
  · intro holds fuel p error opened v reach off has
    have multiple := (holds 0 rfl fuel p error opened v reach).2 off has
    exact (address_aligned rfl).mp multiple
  · intro aligned base place fuel p error opened v reach
    have all := aligned fuel p error opened
    obtain ⟨-, -, hashTables⟩ := openB_eq_ok.mp opened
    refine ⟨?_, fun off has => (address_aligned place).mpr (all v reach off has)⟩
    exact Asserted.accessorsHold (openB_sound opened) hashTables place all reach

/-- A vector of no bytes, which starts at the heap position 1. -/
def oddFile : List UInt8 :=
  bytesValue ⟨.vectorU8, 0⟩ ++ bytesU32 0 ++ bytesU32 1 ++ bytesU32 0 ++ bytesU32 0 ++ bytesU32 0 ++
    bytesU32 2 ++ bytesU64 1 ++ [0] ++ bytesU32 0

/-- The assertion of the accessor of bytes fails at the root of the file. -/
theorem oddFile_aborts : ¬AssertionsHold oddFile := by
  intro holds
  have opened : openB 0 oddFile = .ok ({
      header := ⟨⟨.vectorU8, 0⟩, 0, 1, 0, 0, 0, 2⟩
      stringUnicodeOffsets := []
      vectorOffsets := [1]
      bitvectorOffsets := []
      setOffsets := []
      mapOffsets := []
      heap := [0, 0, 0, 0, 0] }, none) := by
    decide +kernel
  have root := (holds 0 rfl 0 _ _ opened _ (Reachable.root _)).1
  have items := root.vectorItems rfl nofun
  exact items rfl

end Pointless
