import Pointless.TablePass

/-!
# Memory safety of the validator

What a file that has been opened gives the accessors, and when opening a buffer
stays inside it. The one way out for a buffer whose containers can be counted is a
comparison of the third pass that meets a clash of bitvectors.
-/

namespace Pointless

open ByteMemory ExceptRules DepthFirst

/-! ## The accessors -/

/-- The offset table that a type refers to, by its header count. -/
def offsetCount (h : Header) : ValueType → Option UInt32
  | .unicode | .string => some h.nStringUnicode
  | .vectorValue | .vectorValueHashable | .vectorI8 | .vectorU8 | .vectorI16 | .vectorU16
  | .vectorI32 | .vectorU32 | .vectorI64 | .vectorU64 | .vectorFloat => some h.nVector
  | .bitvector => some h.nBitvector
  | .setValue => some h.nSet
  | .mapValueValue => some h.nMap
  | _ => none

/-- What the accessors read of a value lies inside the heap. -/
structure AccessorsInside (p : OpenFile) (v : Value) : Prop where
  offset : ∀ count ∈ offsetCount p.header v.type, v.data < count
  string : v.type = .unicode ∨ v.type = .string →
    ∃ len chars, readerStringUnicodeLen p v = .ok len ∧ readerStringUnicodeValue p v = .ok chars ∧
      (∀ i < len.toNat, ∃ c, loadWord (charLen v.type) chars (charLen v.type * i) = .ok c) ∧
      loadWord (charLen v.type) chars (charLen v.type * len.toNat) = .ok 0
  vector : isVectorType v.type = true →
    ∃ nItems, readerVectorNItems p v = .ok nItems ∧
      ∀ i < nItems.toNat, ∃ c, readerVectorValueCase p v i = .ok c
  bitvector : isBitvectorType v.type = true →
    ∃ nBits, readerBitvectorNBits p v = .ok nBits ∧
      ∀ i < nBits.toNat, ∃ bit, readerBitvectorIsSet p v i = .ok bit
  table : isTableType v.type →
    ∃ table nBuckets, TableAt p v table ∧ readerVectorNItems p table.keys = .ok nBuckets ∧
      ∀ i < nBuckets.toNat, (∃ hash, hashVectorAt p table.hashes i = .ok hash) ∧
        (∃ key, readerVectorValue p table.keys i = .ok key) ∧
        ∀ values ∈ table.values, ∃ value, readerVectorValue p values i = .ok value

section Accessors

variable {p : OpenFile} {v : Value}

theorem Checked.offset (checked : Checked p v) :
    ∀ count ∈ offsetCount p.header v.type, v.data < count := by
  have ref := checked.ref
  have less : ∀ {count message}, checkRef v count message = .ok () → v.data < count := by
    intro count message ok
    have inside := checkRef_ok ok
    rw [UInt32.le_iff_toNat_le] at inside
    rw [UInt32.lt_iff_toNat_lt]
    omega
  intro count mem
  unfold validateHeapRef at ref
  unfold offsetCount at mem
  cases type : v.type <;> simp only [type] at ref mem <;> cases mem <;> exact less ref

theorem StringInside.chars {w off : Nat} {n : UInt32} (string : StringInside p v w off n) :
    ∃ len chars, readerStringUnicodeLen p v = .ok len ∧ readerStringUnicodeValue p v = .ok chars ∧
      (∀ i < len.toNat, ∃ c, loadWord w chars (w * i) = .ok c) ∧
      loadWord w chars (w * len.toNat) = .ok 0 := by
  have inside := string.inside
  have within : off + 4 ≤ p.heap.length := by omega
  refine ⟨n, p.heap.drop (off + 4), ?_, ?_, fun i less => ?_,
    loadWord_drop within string.terminator⟩
  · rw [readerStringUnicodeLen, string.offset, ok_bind, string.count]
  · rw [readerStringUnicodeValue, string.offset]
    rfl
  · have charInside : off + 4 + w * i + w ≤ p.heap.length := by
      have grows : w * (i + 1) ≤ w * (n.toNat + 1) := Nat.mul_le_mul_left w (by omega)
      rw [Nat.mul_succ] at grows
      omega
    obtain ⟨c, loaded, -⟩ := loadWord_inside charInside
    exact ⟨c, loadWord_drop within loaded⟩

/-- A table that has passed the third pass can be read at every bucket. -/
theorem OpenFile.Sound.tableInside (sound : p.Sound) (reach : Reachable p v)
    (type : isTableType v.type) {fuel : Nat} (passed : passCheck p (.hashTables fuel) v = .ok ()) :
    ∃ table nBuckets hash key, TableAt p v table ∧ table.Even p nBuckets ∧
      TableRead p table nBuckets hash key ∧ table.validate fuel p nBuckets = .ok () := by
  obtain ⟨table, at_v, known⟩ := sound.table reach type
  rcases sound.tablePass at_v known with ⟨-, message, pass⟩ | ⟨nBuckets, even, pass⟩
  · rw [pass fuel] at passed
    cases passed
  · obtain ⟨hash, key, read⟩ := sound.tableRead known even
    rw [pass fuel] at passed
    exact ⟨table, nBuckets, hash, key, at_v, even, read, passed⟩

/-- Every reachable set and map has been checked by the third pass. -/
theorem table_passed {fuel : Nat} (passed : validatePass p (.hashTables fuel) = .ok ())
    (reach : Reachable p v) (type : isTableType v.type) :
    passCheck p (.hashTables fuel) v = .ok () := by
  obtain ⟨-, w, check, rfl | ⟨key, wKey, vKey⟩⟩ := pass_reaches passed reach
  · exact check
  · obtain ⟨sameData, sameType⟩ := containerKey_cases wKey vKey
    have same : w = v := by
      rcases sameType with sameType | ⟨-, vType⟩
      · cases w
        cases v
        simp only at sameData sameType
        rw [sameData, sameType]
      · exfalso
        rcases type with type | type <;> rw [type] at vType <;> rcases vType with bad | bad <;>
          cases bad
    rw [← same]
    exact check

theorem OpenFile.Sound.accessors (sound : p.Sound) {fuel : Nat}
    (passed : validatePass p (.hashTables fuel) = .ok ()) (reach : Reachable p v) :
    AccessorsInside p v := by
  have checked := sound.checked v reach
  refine ⟨checked.offset, ?_, ?_, ?_, ?_⟩
  · rintro (type | type)
    · obtain ⟨off, n, string⟩ := checked.unicode sound.sized type
      rw [charLen, if_pos type]
      exact string.chars
    · obtain ⟨off, n, string⟩ := checked.string sound.sized type
      rw [charLen, if_neg (by rw [type]; exact ValueType.noConfusion)]
      exact string.chars
  · intro type
    obtain ⟨n, count⟩ := sound.nItems reach type
    refine ⟨n, count, fun i less => ?_⟩
    obtain ⟨c, read, -⟩ := sound.itemCase reach type count less
    exact ⟨c, read⟩
  · intro type
    obtain ⟨buffer, n, read, bits, -⟩ := sound.bits reach type
    refine ⟨n, readerBitvectorNBits_eq read bits, fun i less => ?_⟩
    obtain ⟨bit, isSet⟩ := bits.isSet i less
    exact ⟨bit, by rw [readerBitvectorIsSet, read, ok_bind, isSet]⟩
  · intro type
    obtain ⟨table, nBuckets, hash, key, at_v, even, read, -⟩ :=
      sound.tableInside reach type (table_passed passed reach type)
    refine ⟨table, nBuckets, at_v, even.2.1, fun i less => ⟨?_, ?_, fun values mem => ?_⟩⟩
    · exact ⟨_, read.buckets.hashAt i less⟩
    · exact ⟨_, read.buckets.keyAt i less⟩
    · exact read.valueAt values mem i less

end Accessors

/-! ## Opening a buffer -/

/-- The first pass accepts the file. -/
def PassesSanity (p : OpenFile) : Prop := validatePass p .sanity = .ok ()

/-- The first two passes accept the file. -/
def PassesCycles (p : OpenFile) : Prop :=
  PassesSanity p ∧ ∃ cycleMarker, cycleMarkerRead p = .ok cycleMarker ∧
    validatePass p (.cycles cycleMarker) = .ok ()

/-- The validator leaves no memory it was given: the accessors of an accepted file
stay in the heap, and opening stays in the buffer. -/
def ValidatorSound (buf : List UInt8) : Prop :=
  (∀ fuel p error, openB fuel buf = .ok (p, error) → ∀ v, Reachable p v → AccessorsInside p v) ∧
    ∀ fuel, StaysInside (openB fuel buf)

/-- The cycle marker has a bit for every container. -/
def MarkerFits (buf : List UInt8) : Prop :=
  ∀ p error, init buf = .ok (p, error) → PassesSanity p → ContainersFit p

/-- The third pass compares no bitvector of the heap with a bitvector that has no
buffer. -/
def NoClash (buf : List UInt8) : Prop :=
  ∀ p error, init buf = .ok (p, error) → PassesCycles p → ∀ fuel, ¬FileClash fuel p

section Opening

variable {fuel : Nat} {buf : List UInt8} {p : OpenFile} {error : Option String}

theorem openB_eq_ok : openB fuel buf = .ok (p, error) ↔ init buf = .ok (p, error) ∧
    PassesCycles p ∧ validatePass p (.hashTables fuel) = .ok () := by
  unfold openB validate
  constructor
  · intro opened
    obtain ⟨⟨p', error'⟩, laid, opened⟩ := bind_eq_ok.mp opened
    obtain ⟨⟨⟩, validated, returned⟩ := bind_eq_ok.mp opened
    cases returned
    obtain ⟨⟨⟩, sanity, validated⟩ := bind_eq_ok.mp validated
    obtain ⟨cycleMarker, marked, validated⟩ := bind_eq_ok.mp validated
    obtain ⟨⟨⟩, cycles, hashTables⟩ := bind_eq_ok.mp validated
    exact ⟨laid, ⟨sanity, cycleMarker, marked, cycles⟩, hashTables⟩
  · rintro ⟨laid, ⟨sanity, cycleMarker, marked, cycles⟩, hashTables⟩
    unfold PassesSanity at sanity
    simp only [laid, sanity, marked, cycles, hashTables, ok_bind, pure_eq_ok]

/-- The files that the validator makes sure of. -/
theorem PassesSanity.sound (passed : PassesSanity p) (laid : init buf = .ok (p, error)) : p.Sound :=
  sound_of_sanity (init_sized laid) passed

/-- An accepted file is sound. -/
theorem openB_sound (opened : openB fuel buf = .ok (p, error)) : p.Sound := by
  obtain ⟨laid, cycles, -⟩ := openB_eq_ok.mp opened
  exact cycles.1.sound laid

/-- When opening a buffer leaves it. -/
theorem escapes_openB (fits : MarkerFits buf) : Escapes (openB fuel buf) ↔
    ∃ p error, init buf = .ok (p, error) ∧ PassesCycles p ∧ FileClash fuel p := by
  have marker : ∀ {p error}, init buf = .ok (p, error) → PassesSanity p →
      Post (fun mask => mask.nBytes = iceil (nContainers p).toNat 8) Stop.Inside
        (cycleMarkerRead p) :=
    fun laid sanity => cycleMarkerRead_inside (sanity.sound laid) (fits _ _ laid sanity)
  have markerInside : ∀ {p error}, init buf = .ok (p, error) → PassesSanity p →
      StaysInside (cycleMarkerRead p) :=
    fun laid sanity => (marker laid sanity).mono (fun _ _ => trivial) fun _ inside => inside
  have cyclesInside : ∀ {p error cycleMarker}, init buf = .ok (p, error) → PassesSanity p →
      cycleMarkerRead p = .ok cycleMarker → StaysInside (validatePass p (.cycles cycleMarker)) :=
    fun laid sanity marked => cycles_inside (sanity.sound laid) (fits _ _ laid sanity)
      ((marker laid sanity).of_ok marked)
  unfold openB validate
  rw [escapes_bind_of_inside (init_inside buf)]
  constructor
  · rintro ⟨⟨p, error⟩, laid, escapes⟩
    rcases escapes_bind.mp escapes with escapes | ⟨⟨⟩, -, escapes⟩
    · obtain ⟨⟨⟩, sanity, escapes⟩ :=
        (escapes_bind_of_inside (sanity_inside (init_sized laid))).mp escapes
      obtain ⟨cycleMarker, marked, escapes⟩ :=
        (escapes_bind_of_inside (markerInside laid sanity)).mp escapes
      obtain ⟨⟨⟩, cycles, escapes⟩ :=
        (escapes_bind_of_inside (cyclesInside laid sanity marked)).mp escapes
      have sound := PassesSanity.sound sanity laid
      exact ⟨p, error, laid, ⟨sanity, cycleMarker, marked, cycles⟩,
        (escapes_hashTables sound cycles fuel).mp escapes⟩
    · exact absurd escapes (not_escapes_ok _)
  · rintro ⟨p, error, laid, ⟨sanity, cycleMarker, marked, cycles⟩, clash⟩
    have escapes := (escapes_hashTables (sanity.sound laid) cycles fuel).mpr clash
    unfold PassesSanity at sanity
    refine ⟨(p, error), laid, escapes_bind.mpr (Or.inl ?_)⟩
    simpa only [sanity, marked, cycles, ok_bind] using escapes

end Opening

/-- An opened buffer gives accessors that stay in the heap, and opening stays in the
buffer, unless the third pass compares clashing bitvectors. -/
theorem validator_sound (buf : List UInt8) :
    (MarkerFits buf ∧ NoClash buf → ValidatorSound buf) ∧
      (MarkerFits buf → ValidatorSound buf → NoClash buf) := by
  constructor
  · rintro ⟨fits, noClash⟩
    refine ⟨fun fuel p error opened v reach => ?_, fun fuel => ?_⟩
    · obtain ⟨laid, cycles, hashTables⟩ := openB_eq_ok.mp opened
      exact (cycles.1.sound laid).accessors hashTables reach
    · rw [staysInside_iff, escapes_openB fits]
      rintro ⟨p, error, laid, cycles, clash⟩
      exact noClash p error laid cycles fuel clash
  · intro fits sound p error laid cycles fuel clash
    have inside := staysInside_iff.mp (sound.2 fuel)
    exact inside ((escapes_openB fits).mpr ⟨p, error, laid, cycles, clash⟩)

/-! ## A file with clashing bitvectors -/

/-- A set of two bitvectors of one zero bit: the key in bucket 1 has no buffer, and
the probe for the key in bucket 3, which lies on the heap, comes to it first. -/
def clashFile : List UInt8 :=
  bytesValue ⟨.setValue, 0⟩ ++ bytesU32 0 ++ bytesU32 2 ++ bytesU32 1 ++ bytesU32 1 ++ bytesU32 0 ++
    bytesU32 2 ++
    bytesU64 0 ++ bytesU64 20 ++ bytesU64 56 ++ bytesU64 64 ++
    bytesU32 4 ++ bytesU32 0 ++ bytesU32 1000000001 ++ bytesU32 0 ++ bytesU32 1000000001 ++
    bytesU32 4 ++ bytesValue ⟨.emptySlot, 0⟩ ++ bytesValue ⟨.bitvector0, 1⟩ ++
    bytesValue ⟨.emptySlot, 0⟩ ++ bytesValue ⟨.bitvector, 0⟩ ++
    bytesU32 1 ++ bytesU32 0 ++
    bytesU32 2 ++ bytesU32 0 ++ bytesValue ⟨.vectorU32, 0⟩ ++ bytesValue ⟨.vectorValueHashable, 1⟩

set_option maxRecDepth 4000 in
/-- Opening the file with the clash follows a null buffer. -/
theorem clashFile_not_sound : ¬ValidatorSound clashFile := by
  rintro ⟨-, inside⟩
  have escaped : openB 20 clashFile = fault .nullPointer := by decide +kernel
  have here := inside 20
  rw [escaped] at here
  exact here

end Pointless
