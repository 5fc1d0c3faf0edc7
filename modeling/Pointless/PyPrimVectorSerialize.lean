import Pointless.PyPrimVectorGrowth

/-!
# Serialized PrimVectors

`serialize` writes the type, the number of items and the items; the constructor takes
such a buffer back. It looks at the low byte of the type word only, and the number of
items is written in 32 bits: `bufferMeets_iff` says which buffers this makes a difference
for.
-/

namespace Pointless

open ByteMemory ExceptRules

/-! ## Buffers -/

/-- The first word of a buffer. -/
def typeWord (b : List UInt8) : Nat := decode (b.take 4)

/-- The second word of a buffer. -/
def countWord (b : List UInt8) : Nat := decode ((b.drop 4).take 4)

/-- The arguments of `PrimVector(buffer=b)`. -/
def bufferArgs (b : List UInt8) : InitArgs := ⟨none, some b, false, none⟩

/-- `PrimVector(buffer=b)` gives the vector. -/
def Builds (alloc : Allocator) (b : List UInt8) (v : PrimVectorObject) : Prop :=
  primInit alloc primNew (.ok (bufferArgs b)) = .ok (.returns (.ok .none), v)

/-- `v.serialize()` gives the bytes. -/
def Serializes (malloc : Nat → Bool) (v : PrimVectorObject) (b : List UInt8) : Prop :=
  primSerialize v malloc = .ok (.ok (.bytes b))

/-- What building from a buffer is to do: it succeeds exactly on the serializations of
vectors, and the result is serialized to the same bytes. -/
structure BufferMeets (alloc : Allocator) (malloc : Nat → Bool) (b : List UInt8) : Prop where
  accepts : (∃ v, Builds alloc b v) ↔ ∃ v t zs, v.Shows t zs ∧ Serializes malloc v b
  again : ∀ v, Builds alloc b v → Serializes malloc v b

/-- The type word is none, but its low byte is the type of a buffer of this length. -/
def Misread (b : List UInt8) : Prop :=
  ∃ t : NumberType, 256 ≤ typeWord b ∧ typeWord b % 256 = t.primType.toNat ∧
    b.length = 8 + t.size * countWord b

/-- The buffer holds 2^32 items or more, of which the header has the number modulo 2^32. -/
def Overlong (b : List UInt8) : Prop :=
  ∃ (t : NumberType) (m : Nat), typeWord b = t.primType.toNat ∧ 2 ^ 32 ≤ m ∧
    countWord b = m % 2 ^ 32 ∧ b.length = 8 + t.size * m

section Words

variable {b : List UInt8} {w m : Nat}

theorem typeWord_lt (b : List UInt8) : typeWord b < 2 ^ 32 := by
  have less := decode_lt (b.take 4)
  have short : (256 : Nat) ^ (b.take 4).length ≤ 256 ^ 4 :=
    Nat.pow_le_pow_right (by decide) (List.length_take_le 4 b)
  unfold typeWord
  omega

theorem countWord_lt (b : List UInt8) : countWord b < 2 ^ 32 := by
  have less := decode_lt ((b.drop 4).take 4)
  have short : (256 : Nat) ^ ((b.drop 4).take 4).length ≤ 256 ^ 4 :=
    Nat.pow_le_pow_right (by decide) (List.length_take_le 4 _)
  unfold countWord
  omega

/-- The loop of the constructor reads the words of the buffer. -/
theorem readsWords_wordsAt (inside : 8 + w * m ≤ b.length) :
    ReadsWords (fun i _ => loadWord w b (8 + w * i)) 0 (wordsAt w 8 m b) := by
  intro k less a
  rw [length_wordsAt] at less
  have item : w * k + w ≤ w * m := by
    rw [← Nat.mul_succ]
    exact Nat.mul_le_mul_left w less
  simp only [Nat.zero_add, loadWord, load, slice_eq_some (show 8 + w * k + w ≤ b.length by omega),
    Option.map_some, wordsAt, List.getElem_map, List.getElem_range]

/-- A buffer is its header and the rest. -/
theorem header_append (long : 8 ≤ b.length) :
    encode 4 (typeWord b) ++ encode 4 (countWord b) ++ b.drop 8 = b := by
  have first : encode 4 (typeWord b) = b.take 4 := by
    have whole := encode_decode (b.take 4)
    rwa [List.length_take, Nat.min_eq_left (by omega)] at whole
  have second : encode 4 (countWord b) = (b.drop 4).take 4 := by
    have whole := encode_decode ((b.drop 4).take 4)
    rwa [List.length_take, List.length_drop, Nat.min_eq_left (by omega)] at whole
  rw [first, second, List.append_assoc, show b.drop 8 = (b.drop 4).drop 4 by rw [List.drop_drop],
    List.take_append_drop, List.take_append_drop]

theorem typeWord_append (n k : Nat) (rest : List UInt8) (small : n < 2 ^ 32) :
    typeWord (encode 4 n ++ encode 4 k ++ rest) = n := by
  have four : (encode 4 n ++ encode 4 k ++ rest).take 4 = encode 4 n := by
    rw [List.append_assoc]
    exact List.take_left' (length_encode 4 n)
  rw [typeWord, four, decode_encode_of_lt small]

theorem countWord_append (n k : Nat) (rest : List UInt8) (small : k < 2 ^ 32) :
    countWord (encode 4 n ++ encode 4 k ++ rest) = k := by
  have four : ((encode 4 n ++ encode 4 k ++ rest).drop 4).take 4 = encode 4 k := by
    rw [List.append_assoc, List.drop_left' (length_encode 4 n)]
    exact List.take_left' (length_encode 4 k)
  rw [countWord, four, decode_encode_of_lt small]

end Words

/-! ## Building -/

theorem NumberType.size_le (t : NumberType) : 1 ≤ t.size ∧ t.size ≤ 8 := by
  cases t <;> decide

theorem NumberType.primType_inj {t t' : NumberType} (same : t.primType.toNat = t'.primType.toNat) :
    t = t' := by
  cases t <;> cases t' <;> first | rfl | cases same

/-- Only the nine types have a field that is found. -/
theorem NumberType.ofPrimType_some {type : UInt8} {t : NumberType}
    (found : NumberType.ofPrimType type = some t) : type = t.primType := by
  have is := List.find?_some found
  exact (of_decide_eq_true is).symm

section Build

variable {alloc : Allocator} {b : List UInt8}

/-- What the constructor does with a buffer, up to the loop that pushes its items. -/
theorem primInitBuffer_eq (v : PrimVectorObject) (long : 8 ≤ b.length) :
    primInitBuffer alloc v b =
      match NumberType.ofPrimType (UInt8.ofNat (typeWord b)) with
      | none =>
          .ok (.error "illegal buffer vector type", { v with type := UInt8.ofNat (typeWord b) })
      | some t =>
          let fresh : PrimVectorObject :=
            ⟨v.allowPrint, v.obExports, v.array.init t.size, UInt8.ofNat (typeWord b)⟩
          if b.length ≠ t.size * countWord b + 8 then .ok (.error "illegal buffer length", fresh)
          else do
            let (added, _, array) ← primPushLoop alloc
              (fun i _ => loadWord t.size b (8 + t.size * i)) (countWord b) 0 fresh.array
            return (if added then .ok false else .error "", fresh.withArray array) := by
  have first : loadU32 b 0 = .ok (UInt32.ofNat (typeWord b)) := by
    rw [loadU32, loadWord, load, slice_eq_some (by omega)]
    rfl
  have second : loadU32 b 4 = .ok (UInt32.ofNat (countWord b)) := by
    rw [loadU32, loadWord, load, slice_eq_some (by omega)]
    rfl
  unfold primInitBuffer
  rw [if_neg (by omega), first, ok_bind, second, ok_bind]
  simp only [UInt32.toNat_ofNat_of_lt' (typeWord_lt b), UInt32.toNat_ofNat_of_lt' (countWord_lt b)]
  rfl

/-- The object that the constructor fills, with the fields that it sets first. -/
def primBlank : PrimVectorObject := { primNew with allowPrint := 1 }

theorem builds_iff {v : PrimVectorObject} :
    Builds alloc b v ↔ primInitBuffer alloc primBlank b = .ok (.ok false, v) := by
  have parsed : primInitArgs alloc primBlank (bufferArgs b) = primInitBuffer alloc primBlank b :=
    rfl
  have started : primInitStart primNew = .ok (.calls .parseArgs, primBlank) := rfl
  unfold Builds primInit
  rw [started, ok_bind]
  dsimp only
  rw [primInitParsed, parsed]
  constructor
  · intro builds
    obtain ⟨⟨outcome, w⟩, read, rest⟩ := bind_eq_ok.mp builds
    rw [read]
    rcases outcome with message | sequence
    · cases rest
    · cases sequence <;> cases rest
      rfl
  · intro read
    rw [read]
    rfl

/-- A buffer that the constructor takes has the length that its header says. -/
theorem Builds.length {v : PrimVectorObject} (builds : Builds alloc b v) :
    ∃ t : NumberType, typeWord b % 256 = t.primType.toNat ∧
      b.length = 8 + t.size * countWord b := by
  rw [builds_iff] at builds
  by_cases long : 8 ≤ b.length
  · rw [primInitBuffer_eq _ long] at builds
    cases found : NumberType.ofPrimType (UInt8.ofNat (typeWord b)) with
    | none =>
        rw [found] at builds
        cases builds
    | some t =>
        rw [found] at builds
        have type := congrArg UInt8.toNat (NumberType.ofPrimType_some found)
        rw [UInt8.toNat_ofNat'] at type
        refine ⟨t, type, ?_⟩
        by_contra other
        dsimp only at builds
        rw [if_pos (by omega)] at builds
        cases builds
  · unfold primInitBuffer at builds
    rw [if_pos (by omega)] at builds
    cases builds

/-- A buffer of the length that its header says is taken, where every request is served. -/
theorem exists_builds (served : ∀ requests nBytes, alloc requests nBytes = true) {t : NumberType}
    (type : typeWord b % 256 = t.primType.toNat) (length : b.length = 8 + t.size * countWord b) :
    ∃ v, Builds alloc b v ∧ v.type = t.primType ∧ v.array.itemSize = t.size ∧
      v.array.items = wordsAt t.size 8 (countWord b) b := by
  have field : UInt8.ofNat (typeWord b) = t.primType := by
    apply UInt8.toNat_inj.mp
    rw [UInt8.toNat_ofNat']
    exact type
  have few := countWord_lt b
  obtain ⟨a, pushed, size, items, -⟩ := primPushLoop_served served
    (a := primBlank.array.init t.size) 
    (readsWords_wordsAt (b := b) (w := t.size) (m := countWord b) (by omega))
    (Nat.le_refl _) t.size_le.2 (by rw [length_wordsAt]; change 0 + _ ≤ _; omega)
  rw [length_wordsAt] at pushed
  refine ⟨⟨1, 0, a, t.primType⟩, ?_, rfl, size, items⟩
  rw [builds_iff, primInitBuffer_eq _ (by omega), field, NumberType.ofPrimType_primType]
  dsimp only
  rw [if_neg (by omega), pushed]
  rfl

end Build

/-! ## Serializing -/

section Serialize

variable {malloc : Nat → Bool} {b : List UInt8} {v : PrimVectorObject} {t : NumberType}

theorem NumberType.primType_lt (t : NumberType) : t.primType.toNat < 256 := t.primType.toNat_lt

/-- The bytes of the items. -/
theorem PrimVectorObject.Shows.length_data {zs : List Int} (shows : v.Shows t zs) :
    v.array.data.length = t.size * v.array.items.length := by
  rw [Dynarray.length_data, shows.itemSize]

/-- What `serialize` gives, where memory is served. -/
theorem serializes_iff (granted : ∀ nBytes, malloc nBytes = true) {zs : List Int}
    (shows : v.Shows t zs) :
    Serializes malloc v b ↔
      8 + v.array.items.length * t.size % 2 ^ 64 < 2 ^ 63 ∧
        b = encode 4 t.primType.toNat ++ encode 4 (v.array.items.length % 2 ^ 32) ++
          v.array.data.take (v.array.items.length * t.size % 2 ^ 64) := by
  have size : primTypeSize v = t.size := by
    rw [primTypeSize, shows.type, NumberType.ofPrimType_primType]
    rfl
  have nBytes : primNBytes v = v.array.items.length * t.size % 2 ^ 64 := by
    rw [primNBytes, size]
    rfl
  have most : v.array.items.length * t.size % 2 ^ 64 ≤ v.array.data.length := by
    rw [shows.length_data, Nat.mul_comm]
    exact Nat.mod_le _ _
  unfold Serializes primSerialize
  simp only [nBytes, granted]
  have wraps : v.array.items.length * t.size % 2 ^ 64 < 2 ^ 64 := Nat.mod_lt _ (by decide)
  generalize v.array.items.length * t.size % 2 ^ 64 = k at most wraps ⊢
  by_cases fits : 8 + k < 2 ^ 63
  · have count : (UInt32.ofNat v.array.nItems).toNat = v.array.items.length % 2 ^ 32 :=
      UInt32.toNat_ofNat'
    have type : v.type.toUInt32.toNat = t.primType.toNat := by
      rw [UInt8.toNat_toUInt32, shows.type]
    rw [Nat.mod_eq_of_lt (by omega), if_neg (by omega), if_neg (by decide), if_neg (by omega),
      slice_eq_some (by omega), List.drop_zero, bytesU32, bytesU32, count, type]
    simp only [Except.ok.injEq, PrimResult.bytes.injEq]
    exact ⟨fun same => ⟨fits, same.symm⟩, fun both => both.2.symm⟩
  · constructor
    · intro serialized
      by_cases large : 2 ^ 63 - 1 < (8 + k) % 2 ^ 64
      · rw [if_pos large] at serialized
        cases serialized
      · rw [if_neg large, if_neg (by decide), if_pos (by omega)] at serialized
        cases serialized
    · exact fun both => absurd both.1 fits

/-- The items of a vector, taken modulo what a `size_t` holds of their bytes. -/
theorem NumberType.bytes_mod (t : NumberType) (n : Nat) :
    ∃ m, n * t.size % 2 ^ 64 = t.size * m ∧ m % 2 ^ 32 = n % 2 ^ 32 ∧ (n < 2 ^ 32 → m = n) := by
  obtain ⟨k, whole, words⟩ : ∃ k, 2 ^ 64 = t.size * (2 ^ 32 * k) ∧ 0 < k := by
    cases t
    case i8 | u8 => exact ⟨2 ^ 32, rfl, by decide⟩
    case i16 | u16 => exact ⟨2 ^ 31, rfl, by decide⟩
    case i32 | u32 | float => exact ⟨2 ^ 30, rfl, by decide⟩
    case i64 | u64 => exact ⟨2 ^ 29, rfl, by decide⟩
  refine ⟨n % (2 ^ 32 * k), ?_, Nat.mod_mod_of_dvd n (Nat.dvd_mul_right _ _), ?_⟩
  · rw [whole, Nat.mul_comm n, Nat.mul_mod_mul_left]
  · intro few
    exact Nat.mod_eq_of_lt (Nat.lt_of_lt_of_le few (Nat.le_mul_of_pos_right _ words))

/-- The header of a serialized vector, and its length. -/
theorem Serializes.header (granted : ∀ nBytes, malloc nBytes = true) {zs : List Int}
    (shows : v.Shows t zs) (serialized : Serializes malloc v b) :
    ∃ m, typeWord b = t.primType.toNat ∧ countWord b = m % 2 ^ 32 ∧
      b.length = 8 + t.size * m ∧
      (zs.length < 2 ^ 32 → m = zs.length ∧ b.drop 8 = v.array.data) := by
  obtain ⟨-, rfl⟩ := (serializes_iff granted shows).mp serialized
  obtain ⟨m, bytes, count, few⟩ := t.bytes_mod v.array.items.length
  have type := t.primType_lt
  have data := shows.length_data
  have within : t.size * m ≤ t.size * v.array.items.length := by
    rw [← bytes, Nat.mul_comm t.size]
    exact Nat.mod_le _ _
  refine ⟨m, typeWord_append _ _ _ (by omega), ?_, ?_, ?_⟩
  · rw [countWord_append _ _ _ (Nat.mod_lt _ (by decide)), count]
  · simp only [List.length_append, length_encode, List.length_take, bytes, data]
    omega
  · intro less
    rw [← shows.length] at less ⊢
    have same := few less
    refine ⟨same, ?_⟩
    rw [List.drop_left' (by simp only [List.length_append, length_encode]), bytes, same, ← data,
      List.take_length]

/-- A vector of the words of a buffer is serialized to the buffer. -/
theorem serializes_words (granted : ∀ nBytes, malloc nBytes = true) {m : Nat}
    (type : v.type = t.primType) (itemSize : v.array.itemSize = t.size)
    (items : v.array.items = wordsAt t.size 8 m b) (header : typeWord b = t.primType.toNat)
    (count : countWord b = m % 2 ^ 32) (length : b.length = 8 + t.size * m)
    (fits : b.length < 2 ^ 63) :
    v.Shows t (v.array.items.map t.toInt) ∧ Serializes malloc v b := by
  have shows : v.Shows t (v.array.items.map t.toInt) := by
    refine ⟨type, itemSize, ?_, rfl⟩
    rw [items]
    exact wordsAt_narrow _ _ _ _
  refine ⟨shows, (serializes_iff granted shows).mpr ?_⟩
  have bytes : v.array.items.length * t.size % 2 ^ 64 = t.size * m := by
    rw [items, length_wordsAt, Nat.mul_comm, Nat.mod_eq_of_lt (by omega)]
  have data : v.array.data = b.drop 8 := by
    rw [Dynarray.data, items, itemSize, flatten_wordsAt (by omega), List.take_of_length_le]
    rw [List.length_drop]
    omega
  rw [bytes, data, items, length_wordsAt, ← header, ← count,
    List.take_of_length_le (by rw [List.length_drop]; omega), header_append (by omega)]
  exact ⟨by omega, rfl⟩

end Serialize

/-! ## Both ways -/

section RoundTrip

variable {alloc : Allocator} {malloc : Nat → Bool}

/-- A vector of fewer than 2^32 items is built again from its serialization. -/
theorem exists_builds_serialized (served : ∀ requests nBytes, alloc requests nBytes = true)
    (granted : ∀ nBytes, malloc nBytes = true) {v : PrimVectorObject} {t : NumberType}
    {zs : List Int} (shows : v.Shows t zs) (few : zs.length < 2 ^ 32) :
    ∃ b v', Serializes malloc v b ∧ Builds alloc b v' ∧ v'.Shows t zs := by
  have small : v.array.items.length * t.size < 2 ^ 35 := by
    rw [shows.length]
    have narrow := Nat.mul_le_mul_left zs.length t.size_le.2
    omega
  have serialized := (serializes_iff (b := _) granted shows).mpr
    ⟨by rw [Nat.mod_eq_of_lt (by omega)]; omega, rfl⟩
  generalize encode 4 t.primType.toNat ++ _ ++ _ = b at serialized
  obtain ⟨m, header, count, length, data⟩ := serialized.header granted shows
  obtain ⟨same, data⟩ := data few
  have whole : countWord b = zs.length := by
    rw [count, same, Nat.mod_eq_of_lt few]
  have type := t.primType_lt
  obtain ⟨v', builds, type', size', items'⟩ := exists_builds (t := t) (b := b) served (by omega)
    (by rw [whole, length, same])
  refine ⟨b, v', serialized, builds, type', size', ?_, ?_⟩
  · rw [items']
    exact wordsAt_narrow _ _ _ _
  · have equal : v'.array.items = v.array.items := by
      apply flatten_encode_inj t.size_le.1 (by rw [items']; exact wordsAt_narrow _ _ _ _) shows.narrow
      rw [items', flatten_wordsAt (by rw [whole, length, same]), List.take_of_length_le, data,
        Dynarray.data, shows.itemSize]
      rw [List.length_drop, whole, length, same]
      omega
    rw [equal, shows.items]

/-- A buffer whose type word is in range and that the constructor takes is the serialization
of what it gives. -/
theorem Builds.serializes (served : ∀ requests nBytes, alloc requests nBytes = true)
    (granted : ∀ nBytes, malloc nBytes = true) {b : List UInt8} {v : PrimVectorObject}
    (builds : Builds alloc b v) (fits : b.length < 2 ^ 63) (inRange : ¬Misread b) :
    ∃ t zs, v.Shows t zs ∧ Serializes malloc v b := by
  obtain ⟨t, type, length⟩ := builds.length
  obtain ⟨v', builds', type', size', items'⟩ := exists_builds served type length
  unfold Builds at builds builds'
  rw [builds'] at builds
  cases builds
  have whole : typeWord b < 256 := by
    by_contra large
    exact inRange ⟨t, by omega, type, length⟩
  obtain ⟨shows, serialized⟩ := serializes_words (t := t) (m := countWord b) granted type' size'
    items' (by omega) (Nat.mod_eq_of_lt (countWord_lt b)).symm length fits
  exact ⟨t, _, shows, serialized⟩

/-- Building from a buffer does what it is to do except where the type word is read as that
of another type, or the items are more than the header can say. -/
theorem bufferMeets_iff (served : ∀ requests nBytes, alloc requests nBytes = true)
    (granted : ∀ nBytes, malloc nBytes = true) {b : List UInt8} (fits : b.length < 2 ^ 63) :
    BufferMeets alloc malloc b ↔ ¬Misread b ∧ ¬Overlong b := by
  constructor
  · intro meets
    constructor
    · rintro ⟨t, large, type, length⟩
      obtain ⟨v, builds, -⟩ := exists_builds served type length
      obtain ⟨v', t', zs, shows, serialized⟩ := meets.accepts.mp ⟨v, builds⟩
      obtain ⟨m, header, -⟩ := serialized.header granted shows
      have small := t'.primType_lt
      omega
    · rintro ⟨t, m, header, large, count, length⟩
      let v : PrimVectorObject := ⟨0, 0, ⟨⟨t.size, wordsAt t.size 8 m b⟩, m, none, 0⟩, t.primType⟩
      obtain ⟨shows, serialized⟩ := serializes_words (v := v) (t := t) (m := m) (b := b) granted rfl
        rfl rfl header count length fits
      obtain ⟨w, builds⟩ := meets.accepts.mpr ⟨v, t, _, shows, serialized⟩
      obtain ⟨t', type, length'⟩ := builds.length
      have small := t.primType_lt
      have word : t'.primType.toNat = t.primType.toNat := by omega
      cases NumberType.primType_inj word
      have equal : t.size * m = t.size * countWord b := by omega
      have counted := Nat.eq_of_mul_eq_mul_left t.size_le.1 equal
      have less := countWord_lt b
      omega
  · intro ⟨inRange, short⟩
    refine ⟨⟨?_, ?_⟩, ?_⟩
    · intro ⟨v, builds⟩
      obtain ⟨t, zs, both⟩ := builds.serializes served granted fits inRange
      exact ⟨v, t, zs, both⟩
    · intro ⟨v, t, zs, shows, serialized⟩
      obtain ⟨m, header, count, length, -⟩ := serialized.header granted shows
      have small := t.primType_lt
      have few : m < 2 ^ 32 := by
        by_contra large
        exact short ⟨t, m, header, by omega, count, length⟩
      rw [Nat.mod_eq_of_lt few] at count
      obtain ⟨w, builds, -⟩ := exists_builds (t := t) (b := b) served (by omega)
        (by rw [length, count])
      exact ⟨w, builds⟩
    · intro v builds
      obtain ⟨t, zs, -, serialized⟩ := builds.serializes served granted fits inRange
      exact serialized

/-- A vector of fewer than 2^32 items is built again from its serialization, and a buffer is
taken exactly where it is a serialization, unless the type word or the number of items is
more than the code reads and writes. -/
theorem primVector_serialization (alloc : Allocator) (malloc : Nat → Bool)
    (served : ∀ requests nBytes, alloc requests nBytes = true)
    (granted : ∀ nBytes, malloc nBytes = true) :
    (∀ (v : PrimVectorObject) (t : NumberType) (zs : List Int), v.Shows t zs →
        zs.length < 2 ^ 32 →
        ∃ b v', Serializes malloc v b ∧ Builds alloc b v' ∧ v'.Shows t zs) ∧
      ∀ b : List UInt8, b.length < 2 ^ 63 →
        (BufferMeets alloc malloc b ↔ ¬Misread b ∧ ¬Overlong b) :=
  ⟨fun _ _ _ shows few => exists_builds_serialized served granted shows few,
    fun _ fits => bufferMeets_iff served granted fits⟩

/-- A vector of two items, and the bytes of an `i8` vector of 1 and -2. -/
theorem primVector_serialization_oneTwo :
    (∃ b v', Serializes (fun _ => true) oneTwo b ∧ Builds (fun _ _ => true) b v' ∧
      v'.Shows .i8 [1, 2]) ∧
    (BufferMeets (fun _ _ => true) (fun _ => true) [0, 0, 0, 0, 2, 0, 0, 0, 1, 254] ↔
      ¬Misread [0, 0, 0, 0, 2, 0, 0, 0, 1, 254] ∧
        ¬Overlong [0, 0, 0, 0, 2, 0, 0, 0, 1, 254]) := by
  obtain ⟨goesRound, buffers⟩ :=
    primVector_serialization (fun _ _ => true) (fun _ => true) (fun _ _ => rfl) fun _ => rfl
  exact ⟨goesRound oneTwo .i8 [1, 2] oneTwo_shows (by decide), buffers _ (by decide)⟩

/-- The type word 256 is taken for an `i8` vector, of which it is no serialization. -/
theorem bufferMeets_wide_type :
    ¬BufferMeets (fun _ _ => true) (fun _ => true) [0, 1, 0, 0, 0, 0, 0, 0] := by
  intro meets
  have builds : Builds (fun _ _ => true) [0, 1, 0, 0, 0, 0, 0, 0]
      ⟨1, 0, ⟨⟨1, []⟩, 0, none, 0⟩, 0⟩ := rfl
  have serialized := meets.again _ builds
  have bytes : primSerialize ⟨1, 0, ⟨⟨1, []⟩, 0, none, 0⟩, 0⟩ (fun _ => true) =
      .ok (.ok (.bytes [0, 0, 0, 0, 0, 0, 0, 0])) := rfl
  unfold Serializes at serialized
  rw [bytes] at serialized
  cases serialized

end RoundTrip

end Pointless
