import Mathlib.Algebra.Module.Submodule.Lattice
import Pointless.PyObject
import Pointless.Validate
import Mathlib.Data.List.Forall2

/-!
# The hash of a vector of integers

The integers `zs` may stand in a vector of a file, of any width or of values, as a
slice of a longer one, in a `PrimVector`, and in a Python tuple. All hash each item
to 32 bits and combine the hashes in the same way. The items are reduced to their
low 32 bits everywhere but in a 64-bit `PrimVector`, where `pointless_hash_i64_32`
takes the remainder by `2 ^ 32 - 1`.
-/

namespace Pointless

open ExceptRules ByteMemory

/-! ## Holders -/

/-- Something that can hold integers and has a hash. -/
inductive IntHolder where
  | reader (p : OpenFile) (v : Value) (i n : UInt32)
  | primVector (v : PyPointlessPrimVector)
  | tuple (items : List PyObject)

/-- The hash by `pointless_hash_reader_vector_32` or by `pyobject_hash_32`. -/
def IntHolder.hash (fuel : Nat) (version : UInt32) : IntHolder → Res PyHash
  | reader p v i n => (fun hash => (hash, none)) <$> hashReaderVector32 fuel p v i n
  | primVector v => pyHash32 fuel (.primVector v) version
  | tuple items => pyHash32 fuel (.tuple items) version

/-- A value of a file that stands for the integer `z`. -/
def Value.IsInt (v : Value) (z : Int) : Prop :=
  v.type = .i32 ∧ dataI32 v.data = z ∨ v.type = .u32 ∧ (v.data.toNat : Int) = z

/-- The holder holds the integers `zs`: a slice of a vector of an accepted file, a
`PrimVector` whose type has room for them, or a tuple that is not too long. -/
inductive IntHolder.Holds : IntHolder → List Int → Prop
  | typed {buf fuel p error v nItems i n zs} {t : NumberType}
      (opened : openB fuel buf = .ok (p, error)) (reach : Reachable p v)
      (whole : t ≠ .float) (type : v.type = t.vectorType)
      (total : readerVectorNItems p v = .ok nItems)
      (inside : i.toNat + n.toNat ≤ nItems.toNat) (length : zs.length = n.toNat)
      (items : ∀ k (less : k < zs.length),
        t.toInt <$> readerVectorWord p v t.size (i.toNat + k) = .ok zs[k]) :
      (reader p v i n).Holds zs
  | values {buf fuel p error v nItems i n zs}
      (opened : openB fuel buf = .ok (p, error)) (reach : Reachable p v)
      (type : v.type = .vectorValueHashable)
      (total : readerVectorNItems p v = .ok nItems)
      (inside : i.toNat + n.toNat ≤ nItems.toNat) (length : zs.length = n.toNat)
      (items : ∀ k (less : k < zs.length), ∃ item,
        readerVectorValue p v (i.toNat + k) = .ok item ∧ item.IsInt zs[k]) :
      (reader p v i n).Holds zs
  | empty {buf fuel p error v}
      (opened : openB fuel buf = .ok (p, error)) (reach : Reachable p v)
      (type : v.type = .vectorEmpty) : (reader p v 0 0).Holds []
  | primVector {zs} {t : NumberType} (whole : t ≠ .float)
      (fits : ∀ z ∈ zs, t.toInt (t.toWord z) = z) :
      (primVector ⟨⟨t.size, zs.map t.toWord⟩, t⟩).Holds zs
  | tuple {zs} (size : zs.length < 2 ^ 32)
      (fits : ∀ z ∈ zs, -2 ^ 31 ≤ z ∧ z < 2 ^ 32) :
      (tuple (zs.map .int)).Holds zs

/-- All that hold `zs` have the same hash. -/
def HashIndependent (zs : List Int) : Prop :=
  ∃ hash, ∀ fuel version holder, IntHolder.Holds holder zs →
    holder.hash (fuel + 1) version = .ok (hash, none)

/-- An integer of 64 bits whose remainder by `2 ^ 32 - 1` is its low half, or one that
has no 64-bit representation. -/
def HalfIsRemainder (z : Int) : Prop :=
  0 ≤ z ∧ z ≤ 2 ^ 32 - 2 ∨ -2 ^ 32 ≤ z ∧ z ≤ -2 ∨ 2 ^ 64 - 2 ^ 32 ≤ z ∧ z ≤ 2 ^ 64 - 2 ∨
    z < -2 ^ 63 ∨ 2 ^ 64 ≤ z

/-! ## Combining the item hashes -/

/-- The hash of a vector with the item hashes `hashes`. -/
def combineHashes (hashes : List UInt32) : UInt32 :=
  vectorHashEnd32 (hashes.foldl vectorHashNext32 (vectorHashInit32 (UInt32.ofNat hashes.length)))

theorem vectorHash32_eq {indices : List Nat} {item : Nat → Res UInt32} {hashes : List UInt32}
    (items : List.Forall₂ (fun i h => item i = .ok h) indices hashes) :
    vectorHash32 (UInt32.ofNat hashes.length) indices item = .ok (combineHashes hashes) := by
  have loop : ∀ s, indices.foldlM (fun s i => vectorHashNext32 s <$> item i) s =
      .ok (hashes.foldl vectorHashNext32 s) := by
    induction items with
    | nil => exact fun s => rfl
    | cons here _ ih =>
        intro s
        rw [List.foldlM_cons, here, map_ok, ok_bind, List.foldl_cons]
        exact ih _
  rw [vectorHash32, loop, ok_bind]
  rfl

theorem forall₂_range' {item : Nat → Res UInt32} {hashes : List UInt32} {start : Nat}
    (items : ∀ k (less : k < hashes.length), item (start + k) = .ok hashes[k]) :
    List.Forall₂ (fun i h => item i = .ok h) (List.range' start hashes.length) hashes := by
  rw [List.forall₂_iff_get]
  refine ⟨List.length_range', fun k less less' => ?_⟩
  rw [List.get_eq_getElem, List.get_eq_getElem, List.getElem_range', Nat.one_mul]
  exact items k less'

/-! ## Items -/

theorem toNat_hashInt32 (z : Int) : (hashInt32 z).toNat = (z % 2 ^ 32).toNat := by
  rw [hashInt32, UInt32.ofInt, UInt32.toNat_ofNat', Nat.mod_eq_of_lt (by omega)]

theorem dataI32_eq (data : UInt32) :
    dataI32 data = if data.toNat < 2 ^ 31 then (data.toNat : Int) else data.toNat - 2 ^ 32 := by
  have cond := BitVec.toInt_eq_toNat_cond data.toBitVec
  change data.toBitVec.toInt = _
  rw [cond]
  change (if 2 * data.toNat < 2 ^ 32 then (data.toNat : Int) else data.toNat - (2 ^ 32 : Nat)) = _
  split
  · rw [if_pos (by omega)]
  · rw [if_neg (by omega)]
    rfl

@[simp] theorem hashInt32_dataI32 (data : UInt32) : hashInt32 (dataI32 data) = data := by
  have bound := data.toNat_lt
  rw [← UInt32.toNat_inj, toNat_hashInt32, dataI32_eq]
  split <;> omega

@[simp] theorem hashInt32_toNat (data : UInt32) : hashInt32 data.toNat = data := by
  have bound := data.toNat_lt
  rw [← UInt32.toNat_inj, toNat_hashInt32]
  omega

/-- The hash of an integer is that of its low half. -/
theorem hashInt32_congr {w z : Int} (same : w % 2 ^ 64 = z % 2 ^ 64) :
    hashInt32 w = hashInt32 z := by
  rw [← UInt32.toNat_inj, toNat_hashInt32, toNat_hashInt32]
  omega

theorem toNat_u64_ofInt (z : Int) : ((UInt64.ofInt z).toNat : Int) = z % 2 ^ 64 := by
  rw [UInt64.ofInt, UInt64.toNat_ofNat', Nat.mod_eq_of_lt (by omega)]
  omega

/-! An integer that is stored in a complete value keeps its hash. -/

theorem hashInt32_completeI32 (z : Int) :
    hashInt32 (dataI32 (completeI32 z).data.toUInt32) = hashInt32 z := by
  change hashInt32 (dataI32 (UInt32.ofInt z).toUInt64.toUInt32) = _
  rw [hashInt32_dataI32, UInt32.toUInt32_toUInt64]
  rfl

theorem hashInt32_completeU32 (z : Int) :
    hashInt32 (completeU32 z).data.toUInt32.toNat = hashInt32 z := by
  change hashInt32 (UInt32.ofInt z).toUInt64.toUInt32.toNat = _
  rw [hashInt32_toNat, UInt32.toUInt32_toUInt64]
  rfl

theorem hashInt32_completeI64 (z : Int) :
    hashInt32 (completeI64 z).data.toInt64.toInt = hashInt32 z := by
  have word := toNat_u64_ofInt z
  apply hashInt32_congr
  change (UInt64.ofInt z).toBitVec.toInt % _ = _
  rw [BitVec.toInt_eq_toNat_cond]
  change (if 2 * (UInt64.ofInt z).toNat < 2 ^ 64 then ((UInt64.ofInt z).toNat : Int)
    else (UInt64.ofInt z).toNat - (2 ^ 64 : Nat)) % _ = _
  split <;> omega

theorem hashInt32_completeU64 (z : Int) :
    hashInt32 (completeU64 z).data.toNat = hashInt32 z := by
  have word := toNat_u64_ofInt z
  apply hashInt32_congr
  change ((UInt64.ofInt z).toNat : Int) % _ = _
  omega

theorem hashI6432_eq_iff {z : Int} (low : -2 ^ 63 ≤ z) (high : z < 2 ^ 64) :
    hashI6432 z = hashInt32 z ↔ HalfIsRemainder z := by
  have word : (UInt64.ofInt z).toNat = (z % 2 ^ 64).toNat := by
    rw [UInt64.ofInt, UInt64.toNat_ofNat', Nat.mod_eq_of_lt (by omega)]
  have top : uint32Max.toNat = 4294967295 := rfl
  rw [hashI6432, ← UInt32.toNat_inj, UInt32.toNat_ofNat', word, toNat_hashInt32, top,
    HalfIsRemainder]
  omega

theorem toSigned_cases (w n : Nat) : n < 2 ^ (8 * w - 1) ∧ toSigned w n = n ∨
    2 ^ (8 * w - 1) ≤ n ∧ toSigned w n = n - 2 ^ (8 * w) := by
  unfold toSigned
  split
  case isTrue low => exact Or.inl ⟨low, rfl⟩
  case isFalse high => exact Or.inr ⟨Nat.le_of_not_lt high, rfl⟩

theorem toInt_toWord_bounds {t : NumberType} (whole : t ≠ .float) {z : Int}
    (fits : t.toInt (t.toWord z) = z) : -2 ^ 63 ≤ z ∧ z < 2 ^ 64 := by
  cases t with
  | float => exact absurd rfl whole
  | i8 | i16 | i32 | i64 =>
      simp only [NumberType.toInt] at fits
      rcases toSigned_cases _ (NumberType.toWord _ z) with ⟨low, value⟩ | ⟨high, value⟩
      · rw [value] at fits
        simp only [NumberType.toWord, NumberType.size] at fits low
        omega
      · rw [value] at fits
        simp only [NumberType.toWord, NumberType.size] at fits high
        omega
  | u8 | u16 | u32 | u64 =>
      simp only [NumberType.toInt, NumberType.toWord, NumberType.size] at fits
      omega

/-- What an item of a `PrimVector` hashes to. -/
theorem pyHashPrimItem_eq {t : NumberType} (whole : t ≠ .float) {z : Int}
    (fits : t.toInt (t.toWord z) = z) (half : HalfIsRemainder z) :
    pyHashPrimItem t z = hashInt32 z := by
  obtain ⟨low, high⟩ := toInt_toWord_bounds whole fits
  have same := (hashI6432_eq_iff low high).mpr half
  cases t with
  | float => exact absurd rfl whole
  | i64 => exact same
  | u64 => exact same
  | _ => rfl

theorem hashReaderVectorItem_typed {t : NumberType} (whole : t ≠ .float) {v : Value}
    (type : v.type = t.vectorType) (rec : Value → Res UInt32) (p : OpenFile) (i : Nat) :
    hashReaderVectorItem rec p v i = hashInt32 <$> t.toInt <$> readerVectorWord p v t.size i := by
  rw [hashReaderVectorItem, type]
  cases t with
  | float => exact absurd rfl whole
  | _ => rfl

theorem Value.IsInt.hash {item : Value} {z : Int} (isInt : item.IsInt z) (p : OpenFile)
    (fuel : Nat) : hashReader32 p (fuel + 1) item = .ok (hashInt32 z) := by
  obtain ⟨type, data⟩ := item
  rcases isInt with ⟨rfl, value⟩ | ⟨rfl, value⟩
  · rw [← value, hashInt32_dataI32]
    rfl
  · rw [← value, hashInt32_toNat]
    rfl

/-! ## Holders agree -/

theorem hashReaderVector32_eq {fuel : Nat} {p : OpenFile} {v : Value} {i n : UInt32}
    {hashes : List UInt32} {total : UInt32} (inside : i.toNat + n.toNat ≤ total.toNat)
    (length : hashes.length = n.toNat)
    (items : ∀ k (less : k < hashes.length),
      hashReaderVectorItem (hashReader32 p fuel) p v (i.toNat + k) = .ok hashes[k]) :
    hashReaderVector32 fuel p v i n = .ok (combineHashes hashes) := by
  have bound := total.toNat_lt
  have count : (n + i).toNat - i.toNat = hashes.length := by
    rw [UInt32.toNat_add, Nat.mod_eq_of_lt (by omega), length]
    omega
  have size : n = UInt32.ofNat hashes.length := by
    rw [length, UInt32.ofNat_toNat]
  rw [hashReaderVector32, hashReaderVector32Priv, count]
  conv_lhs => rw [size]
  exact vectorHash32_eq (forall₂_range' items)

theorem pyHash32_primVector {t : NumberType} {zs : List Int}
    (fits : ∀ z ∈ zs, t.toInt (t.toWord z) = z) (fuel : Nat) (version : UInt32) :
    pyHash32 fuel (.primVector ⟨⟨t.size, zs.map t.toWord⟩, t⟩) version =
      .ok (combineHashes (zs.map (pyHashPrimItem t)), none) := by
  have narrow : ∀ n ∈ zs.map t.toWord, n < 256 ^ t.size := by
    intro n mem
    obtain ⟨z, -, rfl⟩ := List.mem_map.mp mem
    exact t.toWord_lt z
  have items : List.Forall₂ (fun i h => (pyHashPrimItem t <$>
      primVectorItem ⟨⟨t.size, zs.map t.toWord⟩, t⟩ i) = .ok h)
      (List.range zs.length) (zs.map (pyHashPrimItem t)) := by
    have counted := @forall₂_range' (fun i => pyHashPrimItem t <$>
      primVectorItem ⟨⟨t.size, zs.map t.toWord⟩, t⟩ i) (zs.map (pyHashPrimItem t)) 0 fun k less => by
        rw [List.length_map] at less
        have loaded := Dynarray.loadWord_data narrow (show k < (zs.map t.toWord).length by
          rw [List.length_map]; exact less)
        rw [primVectorItem, Nat.zero_add, loaded, map_ok, map_ok, List.getElem_map,
          List.getElem_map, fits _ (List.getElem_mem less)]
    rwa [List.length_map, ← List.range_eq_range'] at counted
  have hash := vectorHash32_eq items
  rw [List.length_map] at hash
  have count : (Dynarray.nItems ⟨t.size, zs.map t.toWord⟩) = zs.length := List.length_map _
  change pyHashPrimvector32 _ none = _
  rw [pyHashPrimvector32, count, hash]
  rfl

theorem pyHashLong32_eq {z : Int} (low : -2 ^ 31 ≤ z) (high : z < 2 ^ 32)
    (error : Option String) : pyHashLong32 z error = (hashInt32 z, error) := by
  have top : uint32Max.toNat = 4294967295 := rfl
  rw [pyHashLong32, if_neg (by omega)]
  by_cases negative : z < 0
  · rw [if_pos negative, if_neg (by omega)]
  · rw [if_neg negative, if_neg (by omega)]

theorem pyHash32_tuple {zs : List Int} (size : zs.length < 2 ^ 32)
    (fits : ∀ z ∈ zs, -2 ^ 31 ≤ z ∧ z < 2 ^ 32) (fuel : Nat) (version : UInt32) :
    pyHash32 fuel (.tuple (zs.map .int)) version =
      .ok (combineHashes (zs.map hashInt32), none) := by
  have top : uint32Max.toNat = 4294967295 := rfl
  have loop : ∀ (state : VectorHashState32) (rec : PyObject → Option String → Res PyHash),
      (∀ z ∈ zs, rec (.int z) none = .ok (hashInt32 z, none)) →
      (zs.map PyObject.int).foldlM (fun (s : VectorHashState32 × Option String) o =>
          rec o s.2 >>= fun hash => pure (vectorHashNext32 s.1 hash.1, hash.2)) (state, none) =
        .ok ((zs.map hashInt32).foldl vectorHashNext32 state, none) := by
    intro state rec items
    clear size fits
    induction zs generalizing state with
    | nil => rfl
    | cons z rest ih =>
        rw [List.map_cons, List.foldlM_cons, items z List.mem_cons_self, List.map_cons,
          List.foldl_cons]
        exact ih _ fun y mem => items y (List.mem_cons_of_mem z mem)
  change pyHashTuple32 (pyHashRec32 fuel version 511) (zs.map .int) none = _
  have hashed := loop (vectorHashInit32 (UInt32.ofNat zs.length)) (pyHashRec32 fuel version 511)
    fun z mem => by
      obtain ⟨low, high⟩ := fits z mem
      change Except.ok (pyHashLong32 z none) = _
      rw [pyHashLong32_eq low high]
  rw [pyHashTuple32, List.length_map, if_neg (by omega)]
  refine (congrArg (· >>= _) hashed).trans ?_
  rw [ok_bind, combineHashes, List.length_map]
  rfl

/-- A vector of a file reduces its items to their low halves, whatever their width. -/
theorem IntHolder.Holds.reader_hash {p : OpenFile} {v : Value} {i n : UInt32} {zs : List Int}
    (holds : (IntHolder.reader p v i n).Holds zs) (fuel : Nat) (version : UInt32) :
    (IntHolder.reader p v i n).hash (fuel + 1) version =
      .ok (combineHashes (zs.map hashInt32), none) := by
  cases holds with
  | typed opened reach whole type total inside length items =>
      have hash := @hashReaderVector32_eq (fuel + 1) p v i n (zs.map hashInt32) _ inside
        (by rw [List.length_map, length]) fun k less => by
          rw [List.length_map] at less
          rw [hashReaderVectorItem_typed whole type, items k less, map_ok, List.getElem_map]
      rw [IntHolder.hash, hash]
      rfl
  | values opened reach type total inside length items =>
      have hash := @hashReaderVector32_eq (fuel + 1) p v i n (zs.map hashInt32) _ inside
        (by rw [List.length_map, length]) fun k less => by
          rw [List.length_map] at less
          obtain ⟨item, read, isInt⟩ := items k less
          rw [hashReaderVectorItem, type]
          simp only [read, ok_bind, isInt.hash, List.getElem_map]
      rw [IntHolder.hash, hash]
      rfl
  | empty => rfl

/-- All that hold integers that are reduced alike hash to the same. -/
theorem IntHolder.Holds.hash_eq {holder : IntHolder} {zs : List Int} (holds : holder.Holds zs)
    (half : ∀ z ∈ zs, HalfIsRemainder z) (fuel : Nat) (version : UInt32) :
    holder.hash (fuel + 1) version = .ok (combineHashes (zs.map hashInt32), none) := by
  cases holder with
  | reader p v i n => exact holds.reader_hash fuel version
  | primVector v =>
      cases holds with
      | @primVector _ t whole fits =>
          have items : zs.map (pyHashPrimItem t) = zs.map hashInt32 :=
            List.map_congr_left fun z mem => pyHashPrimItem_eq whole (fits z mem) (half z mem)
          rw [← items]
          exact pyHash32_primVector fits (fuel + 1) version
  | tuple items =>
      cases holds with
      | tuple size fits => exact pyHash32_tuple size fits (fuel + 1) version

/-! ## Files of one integer -/

/-- A file whose root is a vector of type `t` with the one item of the bytes `item`. -/
def oneItemFile (t : ValueType) (item : List UInt8) : List UInt8 :=
  bytesValue ⟨t, 0⟩ ++ bytesU32 0 ++ bytesU32 1 ++ bytesU32 0 ++ bytesU32 0 ++ bytesU32 0 ++
    bytesU32 2 ++ bytesU64 0 ++ (bytesU32 1 ++ item)

/-- The file opened. -/
def oneItemOpened (t : ValueType) (item : List UInt8) : OpenFile where
  header := ⟨⟨t, 0⟩, 0, 1, 0, 0, 0, 2⟩
  stringUnicodeOffsets := []
  vectorOffsets := [0]
  bitvectorOffsets := []
  setOffsets := []
  mapOffsets := []
  heap := bytesU32 1 ++ item

set_option maxRecDepth 4000 in
/-- The checks do not look at the bytes of an item. -/
theorem openB_oneItemFile {t : NumberType} (wide : t = .i64 ∨ t = .u64)
    (b0 b1 b2 b3 b4 b5 b6 b7 : UInt8) :
    openB 0 (oneItemFile t.vectorType [b0, b1, b2, b3, b4, b5, b6, b7]) =
      .ok (oneItemOpened t.vectorType [b0, b1, b2, b3, b4, b5, b6, b7], none) := by
  rcases wide with rfl | rfl
  · cbv
  · cbv

/-- A 64-bit integer stands in a file as a vector of itself. -/
theorem oneItem_holds {t : NumberType} (wide : t = .i64 ∨ t = .u64) {z : Int}
    (fits : t.toInt (t.toWord z) = z) :
    (IntHolder.reader (oneItemOpened t.vectorType (encode 8 (t.toWord z)))
      ⟨t.vectorType, 0⟩ 0 1).Holds [z] := by
  have size : t.size = 8 := by rcases wide with rfl | rfl <;> rfl
  have whole : t ≠ .float := by rcases wide with rfl | rfl <;> exact NumberType.noConfusion
  have nonempty : t.vectorType ≠ .vectorEmpty := by
    rcases wide with rfl | rfl <;> exact ValueType.noConfusion
  have narrow : t.toWord z < 256 ^ 8 := by
    rw [NumberType.toWord, size]
    omega
  have total : readerVectorNItems (oneItemOpened t.vectorType (encode 8 (t.toWord z)))
      ⟨t.vectorType, 0⟩ = .ok 1 := by
    rw [readerVectorNItems, if_neg nonempty]
    rfl
  refine .typed (openB_oneItemFile wide _ _ _ _ _ _ _ _) .refl whole rfl
    total (by decide) rfl fun k less => ?_
  · obtain rfl : k = 0 := by simpa using less
    have stored := holds_append (bytesU32 1) (encode 8 (t.toWord z)) []
    rw [List.append_nil] at stored
    have loaded := stored.load_encode
    rw [Nat.mod_eq_of_lt narrow, show (bytesU32 1).length = 4 from rfl] at loaded
    have word : readerVectorWord (oneItemOpened t.vectorType (encode 8 (t.toWord z)))
        ⟨t.vectorType, 0⟩ t.size 0 = .ok (t.toWord z) := by
      rw [readerVectorWord, readerVectorBasePtr, if_neg nonempty, size]
      change loadWord 8 (bytesU32 1 ++ encode 8 (t.toWord z)) 4 = _
      rw [loadWord, loaded]
    rw [show (0 : UInt32).toNat + 0 = 0 from rfl, word, map_ok, fits]
    rfl

/-! ## The theorem -/

/-- The vector hash keeps the hashes of single items apart, as its multiplier is odd. -/
theorem combineHashes_singleton {a b : UInt32} (same : combineHashes [a] = combineHashes [b]) :
    a = b := by
  have inverse : (1000003 : UInt32) * 2021759595 = 1 := by decide
  have sums : (0x345678 ^^^ a) * 1000003 + 97531 = (0x345678 ^^^ b) * (1000003 : UInt32) + 97531 :=
    same
  have products := (UInt32.add_left_inj _).mp sums
  have factors : (0x345678 ^^^ a : UInt32) = 0x345678 ^^^ b := by
    rw [← UInt32.mul_one (0x345678 ^^^ a), ← inverse, ← UInt32.mul_assoc, products,
      UInt32.mul_assoc, inverse, UInt32.mul_one]
  have undone := congrArg (fun x => 0x345678 ^^^ x) factors
  simpa only [← UInt32.xor_assoc, UInt32.xor_self, UInt32.zero_xor] using undone

/-- A 64-bit integer fits one of the two widest types. -/
theorem exists_wide {z : Int} (low : -2 ^ 63 ≤ z) (high : z < 2 ^ 64) :
    ∃ t : NumberType, (t = .i64 ∨ t = .u64) ∧ t.toInt (t.toWord z) = z := by
  by_cases signed : z < 2 ^ 63
  · refine ⟨.i64, Or.inl rfl, ?_⟩
    rw [NumberType.toInt, NumberType.toWord, NumberType.size]
    rcases toSigned_cases 8 (z % 2 ^ (8 * 8)).toNat with ⟨small, value⟩ | ⟨large, value⟩
    · rw [value]
      omega
    · rw [value]
      omega
  · refine ⟨.u64, Or.inr rfl, ?_⟩
    rw [NumberType.toInt, NumberType.toWord, NumberType.size]
    omega

/-- Over a set of integers the hashes of all lists are independent of what holds the
list exactly when none of the integers has a remainder other than its low half. -/
theorem vectorHash_independent (Z : Set Int) :
    (∀ zs : List Int, (∀ z ∈ zs, z ∈ Z) → HashIndependent zs) ↔ ∀ z ∈ Z, HalfIsRemainder z := by
  constructor
  · intro independent z mem
    by_cases low : z < -2 ^ 63
    · exact Or.inr (Or.inr (Or.inr (Or.inl low)))
    by_cases high : 2 ^ 64 ≤ z
    · exact Or.inr (Or.inr (Or.inr (Or.inr high)))
    obtain ⟨t, wide, fits⟩ := exists_wide (Int.not_lt.mp low) (Int.not_le.mp high)
    have whole : t ≠ .float := by rcases wide with rfl | rfl <;> exact NumberType.noConfusion
    obtain ⟨hash, same⟩ := independent [z] fun y only => by rwa [List.mem_singleton.mp only]
    have fits' : ∀ y ∈ [z], t.toInt (t.toWord y) = y := by
      intro y only
      rwa [List.mem_singleton.mp only]
    have inFile := oneItem_holds wide fits
    have read := inFile.reader_hash 0 2
    rw [same 0 2 _ inFile] at read
    have held := pyHash32_primVector fits' 1 2
    have given := same 0 2 _ (.primVector whole fits')
    rw [IntHolder.hash, held] at given
    have remainder : pyHashPrimItem t z = hashI6432 z := by rcases wide with rfl | rfl <;> rfl
    refine (hashI6432_eq_iff (Int.not_lt.mp low) (Int.not_le.mp high)).mp ?_
    rw [← remainder]
    apply combineHashes_singleton
    rw [← given, List.map_singleton, List.map_singleton] at read
    exact (Prod.mk.inj (Except.ok.inj read)).1
  · intro half zs inside
    exact ⟨_, fun fuel version holder holds =>
      holds.hash_eq (fun z mem => half z (inside z mem)) fuel version⟩

/-- The list `[-1]` hashes differently as a signed 64-bit `PrimVector` and as a tuple. -/
theorem minusOne_not_independent : ¬∀ zs : List Int, HashIndependent zs := by
  intro independent
  obtain ⟨hash, same⟩ := independent [-1]
  have held := same 0 2 _ (@IntHolder.Holds.primVector [-1] .i64 NumberType.noConfusion (by decide))
  have tuple := same 0 2 _ (@IntHolder.Holds.tuple [-1] (by decide) (by decide))
  have apart : IntHolder.hash 1 2 (.primVector
        ⟨⟨NumberType.i64.size, [(-1 : Int)].map NumberType.i64.toWord⟩, .i64⟩) ≠
      IntHolder.hash 1 2 (.tuple ([(-1 : Int)].map .int)) := by decide
  exact apart (held.trans tuple.symm)

end Pointless
