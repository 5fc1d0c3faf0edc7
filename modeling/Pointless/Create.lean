import Mathlib.Data.UInt
import Pointless.Bitvector

/-!
# Creating values

`pointless_create.c` and `pointless_create_cache.c`: the state a file is built up
in, and the functions that add to it.

A value is named by its handle, its index in `values`. What does not fit into the
value itself is kept in one of six pools, and the value holds the index there.
Memory allocation is taken to succeed. A handle is 32 bits wide, so that a state
has handles left for as long as the next one is not `POINTLESS_CREATE_VALUE_FAIL`.
-/

namespace Pointless

open ByteMemory

/-! ## State -/

/-- `pointless_create_value_t`. -/
structure CreateValue where
  type : ValueType
  isCompressedVector : Bool
  isSetMapVector : Bool
  isOutsideVector : Bool
  data : UInt32
  deriving DecidableEq, Repr

/-- A value with none of the three flags. -/
def CreateValue.plain (type : ValueType) (data : UInt32) : CreateValue :=
  ⟨type, false, false, false, data⟩

/-- `pointless_create_vector_outside_t`: the caller's items are `items`. -/
structure VectorOutside where
  items : List UInt8
  nItems : UInt32
  deriving DecidableEq, Repr

/-- `pointless_create_set_t`. -/
structure CreateSet where
  keys : List UInt32
  serializeHash : UInt32
  serializeKeys : UInt32
  deriving DecidableEq, Repr

/-- `pointless_create_map_t`. -/
structure CreateMap where
  keys : List UInt32
  values : List UInt32
  serializeHash : UInt32
  serializeKeys : UInt32
  serializeValues : UInt32
  deriving DecidableEq, Repr

/-- `pointless_create_cache_t`. -/
structure CreateCache where
  init : UInt32
  u32Cache : Nat → UInt32
  i32Cache : Nat → UInt32
  nullHandle : UInt32
  emptySlotHandle : UInt32
  trueHandle : UInt32
  falseHandle : UInt32

/-- `pointless_create_t`. The two Judy maps are association lists from the bytes of
a buffer to a handle. -/
structure Create where
  root : UInt32
  cache : CreateCache
  values : List CreateValue
  privVectorValues : List Dynarray
  outsideVectorValues : List VectorOutside
  setValues : List CreateSet
  mapValues : List CreateMap
  stringUnicodeValues : List (List UInt8)
  bitvectorValues : List (List UInt8)
  stringUnicodeMapJudy : List (List UInt8 × UInt32)
  stringUnicodeMapJudyCount : UInt32
  bitvectorMapJudy : List (List UInt8 × UInt32)
  bitvectorMapJudyCount : UInt32
  version : UInt32

/-! ## Access -/

/-- `pointless_dynarray_ITEM_AT` on one of the arrays of the state. -/
def itemAt {α : Type} (a : List α) (i : UInt32) : Res α :=
  match a[i.toNat]? with
  | some x => .ok x
  | none => fault .outOfBounds

section Access

variable (c : Create)

/-- `cv_value_at`. -/
def cvValueAt (handle : UInt32) : Res CreateValue := itemAt c.values handle

/-- `cv_get_priv_vector`; the accessors below are its siblings. -/
def cvGetPrivVector (cv : CreateValue) : Res Dynarray := itemAt c.privVectorValues cv.data
def cvGetOutsideVector (cv : CreateValue) : Res VectorOutside :=
  itemAt c.outsideVectorValues cv.data
def cvGetSet (cv : CreateValue) : Res CreateSet := itemAt c.setValues cv.data
def cvGetMap (cv : CreateValue) : Res CreateMap := itemAt c.mapValues cv.data
def cvGetBitvector (cv : CreateValue) : Res (List UInt8) := itemAt c.bitvectorValues cv.data

/-- `cv_get_unicode` and `cv_get_string`. -/
def cvGetStringUnicode (cv : CreateValue) : Res (List UInt8) :=
  itemAt c.stringUnicodeValues cv.data

end Access

/-- Change an item of one of the arrays of the state in place. -/
def modifyAt {α : Type} (a : List α) (i : UInt32) (f : α → α) : Res (List α) :=
  if i.toNat < a.length then .ok (a.modify i.toNat f) else fault .outOfBounds

section Items

variable {α : Type} {a : List α} {i : UInt32} {x : α} {f : α → α}

theorem itemAt_eq_ok : itemAt a i = .ok x ↔ a[i.toNat]? = some x := by
  rw [itemAt]
  cases a[i.toNat]? with
  | none => exact ⟨nofun, nofun⟩
  | some y => rw [Except.ok.injEq, Option.some.injEq]

theorem modifyAt_of_item (found : a[i.toNat]? = some x) :
    modifyAt a i f = .ok (a.modify i.toNat f) :=
  if_pos (List.getElem?_eq_some_iff.mp found).1

theorem itemAt_outside (outside : a[i.toNat]? = none) : itemAt a i = fault .outOfBounds := by
  rw [itemAt, outside]

theorem modifyAt_outside (outside : a[i.toNat]? = none) : modifyAt a i f = fault .outOfBounds :=
  if_neg (Nat.not_lt.mpr (List.getElem?_eq_none_iff.mp outside))

end Items

/-! ## Cache -/

/-- `POINTLESS_CREATE_CACHE_N_U32`. -/
def createCacheNU32 : Nat := 10000

/-- `POINTLESS_CREATE_CACHE_MIN_I32`. -/
def createCacheMinI32 : Int := -10000

/-- `POINTLESS_CREATE_CACHE_MAX_I32`. -/
def createCacheMaxI32 : Int := 10000

/-- `pointless_create_cache_init`. -/
def createCacheInit (initValue : UInt32) : CreateCache :=
  ⟨initValue, fun _ => initValue, fun _ => initValue, initValue, initValue, initValue, initValue⟩

/-- `pointless_create_cache_get_u32`. -/
def createCacheGetU32 (cache : CreateCache) (u32 : UInt32) : UInt32 :=
  if u32.toNat < createCacheNU32 then cache.u32Cache u32.toNat else cache.init

/-- `pointless_create_cache_set_u32`. -/
def createCacheSetU32 (cache : CreateCache) (u32 handle : UInt32) : CreateCache :=
  if u32.toNat < createCacheNU32 then
    { cache with u32Cache := fun i => if i = u32.toNat then handle else cache.u32Cache i }
  else cache

/-- `pointless_create_cache_get_i32`. -/
def createCacheGetI32 (cache : CreateCache) (i32 : Int32) : UInt32 :=
  if createCacheMinI32 ≤ i32.toInt ∧ i32.toInt ≤ createCacheMaxI32 then
    cache.i32Cache (i32.toInt - createCacheMinI32).toNat
  else cache.init

/-- `pointless_create_cache_set_i32`. -/
def createCacheSetI32 (cache : CreateCache) (i32 : Int32) (handle : UInt32) : CreateCache :=
  if createCacheMinI32 ≤ i32.toInt ∧ i32.toInt ≤ createCacheMaxI32 then
    { cache with i32Cache := fun i =>
        if i = (i32.toInt - createCacheMinI32).toNat then handle else cache.i32Cache i }
  else cache

/-! ## Beginning, and the root -/

/-- `pointless_create_begin_`. -/
def createBegin (version : UInt32) : Create where
  root := uint32Max
  cache := createCacheInit createValueFail
  values := []
  privVectorValues := []
  outsideVectorValues := []
  setValues := []
  mapValues := []
  stringUnicodeValues := []
  bitvectorValues := []
  stringUnicodeMapJudy := []
  stringUnicodeMapJudyCount := 0
  bitvectorMapJudy := []
  bitvectorMapJudyCount := 0
  version := version

/-- `pointless_create_begin_32`. -/
def createBegin32 : Create := createBegin 1

/-- `pointless_create_begin_64`. -/
def createBegin64 : Create := createBegin 2

/-- `pointless_create_set_root`. -/
def createSetRoot (c : Create) (root : UInt32) : Create := { c with root }

/-! ## Inline values -/

/-- Push a value onto `values`. The answer is `pointless_dynarray_n_items - 1`, the
handle of the value. -/
def pushValue (c : Create) (v : CreateValue) : UInt32 × Create :=
  (UInt32.ofNat c.values.length, { c with values := c.values ++ [v] })

/-- `handle`, if it is one; otherwise push `v` and note its handle in the cache. -/
def pushCached (c : Create) (handle : UInt32) (v : CreateValue)
    (set : CreateCache → UInt32 → CreateCache) : UInt32 × Create :=
  if handle ≠ createValueFail then (handle, c)
  else
    let (handle, c) := pushValue c v
    (handle, { c with cache := set c.cache handle })

section Inline

variable (c : Create)

/-- `pointless_create_i32`. -/
def createI32 (v : Int32) : UInt32 × Create :=
  pushCached c (createCacheGetI32 c.cache v) (.plain .i32 v.toUInt32)
    fun cache => createCacheSetI32 cache v

/-- `pointless_create_u32`. -/
def createU32 (v : UInt32) : UInt32 × Create :=
  pushCached c (createCacheGetU32 c.cache v) (.plain .u32 v)
    fun cache => createCacheSetU32 cache v

/-- `pointless_create_float`, from the bits of the float. -/
def createFloat (bits : UInt32) : UInt32 × Create := pushValue c (.plain .float bits)

/-- `pointless_create_boolean_false`. -/
def createBooleanFalse : UInt32 × Create :=
  pushCached c c.cache.falseHandle (.plain .boolean 0)
    fun cache handle => { cache with falseHandle := handle }

/-- `pointless_create_boolean_true`. -/
def createBooleanTrue : UInt32 × Create :=
  pushCached c c.cache.trueHandle (.plain .boolean 1)
    fun cache handle => { cache with trueHandle := handle }

/-- `pointless_create_boolean`. -/
def createBoolean (v : Int32) : UInt32 × Create :=
  if v ≠ 0 then createBooleanTrue c else createBooleanFalse c

/-- `pointless_create_empty_slot`. -/
def createEmptySlot : UInt32 × Create :=
  pushCached c c.cache.emptySlotHandle (.plain .emptySlot 0)
    fun cache handle => { cache with emptySlotHandle := handle }

/-- `pointless_create_null`. -/
def createNull : UInt32 × Create :=
  pushCached c c.cache.nullHandle (.plain .null 0)
    fun cache handle => { cache with nullHandle := handle }

end Inline

/-! ## Strings and unicodes -/

/-- The characters before the terminator, which is where the loops of
`pointless_unicode_utils.c` over a string stop. -/
def charsBeforeZero {α : Type} [DecidableEq α] [Zero α] : List α → Res (List α)
  | [] => fault .outOfBounds
  | x :: rest => if x = 0 then .ok [] else (x :: ·) <$> charsBeforeZero rest

/-- The buffer for a string: its length, and its characters of `w` bytes with the
terminator after them. -/
def stringUnicodeBuffer (w : Nat) (chars : List Nat) : List UInt8 :=
  bytesU32 (UInt32.ofNat chars.length) ++ ((chars ++ [0]).map (encode w)).flatten

/-- What `pointless_create_unicode_ucs4` and `pointless_create_string_ascii` do once
they have their buffer. -/
def createStringUnicode (c : Create) (type : ValueType) (buffer : List UInt8) :
    UInt32 × Create :=
  match c.stringUnicodeMapJudy.lookup buffer with
  | some handle => (handle, c)
  | none =>
      let (handle, c) := pushValue c (.plain type c.stringUnicodeMapJudyCount)
      (handle,
        { c with
          stringUnicodeValues := c.stringUnicodeValues ++ [buffer]
          stringUnicodeMapJudy := (buffer, handle) :: c.stringUnicodeMapJudy
          stringUnicodeMapJudyCount := c.stringUnicodeMapJudyCount + 1 })

/-- `pointless_create_unicode_ucs4`. -/
def createUnicodeUcs4 (c : Create) (v : List UInt32) : Res (UInt32 × Create) := do
  let chars ← charsBeforeZero v
  pure (createStringUnicode c .unicode (stringUnicodeBuffer 4 (chars.map UInt32.toNat)))

/-- `pointless_create_string_ascii`. -/
def createStringAscii (c : Create) (v : List UInt8) : Res (UInt32 × Create) := do
  let chars ← charsBeforeZero v
  pure (createStringUnicode c .string (stringUnicodeBuffer 1 (chars.map UInt8.toNat)))

/-- `pointless_ucs2_to_ascii`; the three conversions below are its siblings. -/
def ucs2ToAscii (v : List UInt16) : Res (List UInt8) := do
  let chars ← charsBeforeZero v
  pure (chars.map UInt16.toUInt8 ++ [0])

def ucs4ToAscii (v : List UInt32) : Res (List UInt8) := do
  let chars ← charsBeforeZero v
  pure (chars.map UInt32.toUInt8 ++ [0])

def ucs2ToUcs4 (v : List UInt16) : Res (List UInt32) := do
  let chars ← charsBeforeZero v
  pure (chars.map UInt16.toUInt32 ++ [0])

def asciiToUcs4 (v : List UInt8) : Res (List UInt32) := do
  let chars ← charsBeforeZero v
  pure (chars.map UInt8.toUInt32 ++ [0])

/-- `pointless_create_string_ucs2`. -/
def createStringUcs2 (c : Create) (v : List UInt16) : Res (UInt32 × Create) := do
  let ascii ← ucs2ToAscii v
  createStringAscii c ascii

/-- `pointless_create_string_ucs4`. -/
def createStringUcs4 (c : Create) (v : List UInt32) : Res (UInt32 × Create) := do
  let ascii ← ucs4ToAscii v
  createStringAscii c ascii

/-- `pointless_create_unicode_ucs2`. -/
def createUnicodeUcs2 (c : Create) (v : List UInt16) : Res (UInt32 × Create) := do
  let ucs4 ← ucs2ToUcs4 v
  createUnicodeUcs4 c ucs4

/-- `pointless_create_unicode_ascii`. -/
def createUnicodeAscii (c : Create) (v : List UInt8) : Res (UInt32 × Create) := do
  let ucs4 ← asciiToUcs4 v
  createUnicodeUcs4 c ucs4

/-! ## Bitvectors -/

/-- `pointless_bitvector_is_all_0` and `pointless_bitvector_is_all_1`: every bit
is `b`. -/
def bitvectorIsAll (b : Bool) (v : List UInt8) (nBits : Nat) : Res Bool :=
  (List.range nBits).foldlM (fun all i =>
    if all then (fun isSet => isSet == b) <$> bmIsSet (some v) i else pure false) true

/-- `pointless_bitvector_is_01` for `last = true` and `pointless_bitvector_is_10`
for `last = false`: bits that are not `last` and then bits that are, with the two
counts. -/
def bitvectorIsStep (last : Bool) (v : List UInt8) (nBits : Nat) : Res (Option (Nat × Nat)) :=
  (List.range nBits).foldlM (fun counts i =>
    match counts with
    | none => pure none
    | some (nFirst, nLast) => do
        let isSet ← bmIsSet (some v) i
        if isSet = last then pure (some (nFirst, nLast + 1))
        else if 0 < nLast then pure none
        else pure (some (nFirst + 1, nLast))) (some (0, 0))

/-- The packed data word of `nBits` bits. -/
def packBits (v : List UInt8) (nBits : Nat) : Res UInt32 :=
  (List.range nBits).foldlM (fun data i => do
    let isSet ← bmIsSet (some v) i
    pure (if isSet then data ||| (1 <<< UInt32.ofNat (i + 5)) else data)) (UInt32.ofNat nBits)

/-- The data word of two counts, if both of them fit. -/
def packCounts : Option (Nat × Nat) → Option UInt32
  | some (nBitsA, nBitsB) =>
      if nBitsA ≤ 65535 ∧ nBitsB ≤ 65535 then some (UInt32.ofNat (nBitsA + 65536 * nBitsB))
      else none
  | none => none

/-- The compression options of `pointless_create_bitvector_`. -/
def compressBitvector (v : List UInt8) (nBits : UInt32) : Res (Option (ValueType × UInt32)) := do
  let allZero ← bitvectorIsAll false v nBits.toNat
  if allZero then pure (some (.bitvector0, nBits))
  else
    let allOne ← bitvectorIsAll true v nBits.toNat
    if allOne then pure (some (.bitvector1, nBits))
    else if nBits.toNat ≤ 27 then
      let data ← packBits v nBits.toNat
      pure (some (.bitvectorPacked, data))
    else
      let is01 ← bitvectorIsStep true v nBits.toNat
      if is01.isSome then pure ((packCounts is01).map fun data => (.bitvector01, data))
      else
        let is10 ← bitvectorIsStep false v nBits.toNat
        pure ((packCounts is10).map fun data => (.bitvector10, data))

/-- The part of `pointless_create_bitvector_` that keeps the bits on the heap. -/
def createBitvectorHeap (c : Create) (buffer : List UInt8) (normalize : Bool) :
    UInt32 × Create :=
  match if normalize then c.bitvectorMapJudy.lookup buffer else none with
  | some handle => (handle, c)
  | none =>
      let (handle, c) := pushValue c (.plain .bitvector c.bitvectorMapJudyCount)
      (handle,
        { c with
          bitvectorValues := c.bitvectorValues ++ [buffer]
          bitvectorMapJudy :=
            if normalize then (buffer, handle) :: c.bitvectorMapJudy else c.bitvectorMapJudy
          bitvectorMapJudyCount := c.bitvectorMapJudyCount + 1 })

/-- `pointless_create_bitvector_`. -/
def createBitvector_ (c : Create) (v : List UInt8) (nBits : UInt32) (normalize : Bool) :
    Res (UInt32 × Create) := do
  let compressed ← compressBitvector v nBits
  match compressed with
  | some (type, data) => pure (pushValue c (.plain type data))
  | none =>
      match slice v 0 (iceil nBits.toNat 8) with
      | none => fault .outOfBounds
      | some bits => pure (createBitvectorHeap c (bytesU32 nBits ++ bits) normalize)

/-- `pointless_create_bitvector`. -/
def createBitvector (c : Create) (v : List UInt8) (nBits : UInt32) : Res (UInt32 × Create) :=
  createBitvector_ c v nBits true

/-- `pointless_create_bitvector_no_normalize`. -/
def createBitvectorNoNormalize (c : Create) (v : List UInt8) (nBits : UInt32) :
    Res (UInt32 × Create) :=
  createBitvector_ c v nBits false

/-- `pointless_create_bitvector_compressed`. -/
def createBitvectorCompressed (c : Create) (v : Value) : UInt32 × Create :=
  pushValue c (.plain v.type v.data)

/-! ## Vectors, buffer owned by library -/

/-- `pointless_create_vector_priv`. -/
def createVectorPriv (c : Create) (vectorType : ValueType) (itemSize : Nat) : UInt32 × Create :=
  let (handle, c) := pushValue c (.plain vectorType (UInt32.ofNat c.privVectorValues.length))
  (handle, { c with privVectorValues := c.privVectorValues ++ [.init itemSize] })

/-- `pointless_create_vector_value`; the functions below are its siblings. -/
def createVectorValue (c : Create) : UInt32 × Create := createVectorPriv c .vectorValue 4
def createVectorI8 (c : Create) : UInt32 × Create := createVectorPriv c .vectorI8 1
def createVectorU8 (c : Create) : UInt32 × Create := createVectorPriv c .vectorU8 1
def createVectorI16 (c : Create) : UInt32 × Create := createVectorPriv c .vectorI16 2
def createVectorU16 (c : Create) : UInt32 × Create := createVectorPriv c .vectorU16 2
def createVectorI32 (c : Create) : UInt32 × Create := createVectorPriv c .vectorI32 4
def createVectorU32 (c : Create) : UInt32 × Create := createVectorPriv c .vectorU32 4
def createVectorI64 (c : Create) : UInt32 × Create := createVectorPriv c .vectorI64 8
def createVectorU64 (c : Create) : UInt32 × Create := createVectorPriv c .vectorU64 8
def createVectorFloat (c : Create) : UInt32 × Create := createVectorPriv c .vectorFloat 4

/-- Change the private vector of a handle in place. -/
def modifyPrivVector (c : Create) (vector : UInt32) (f : Dynarray → Dynarray) : Res Create := do
  let cv ← cvValueAt c vector
  let privVectorValues ← modifyAt c.privVectorValues cv.data f
  pure { c with privVectorValues }

/-- `pointless_create_vector_append_priv`. The type of the vector is only asserted. -/
def createVectorAppendPriv (c : Create) (vector : UInt32) (v : Nat) : Res (UInt32 × Create) := do
  let c ← modifyPrivVector c vector fun a => a.push v
  pure (vector, c)

/-- `pointless_create_vector_value_append`. -/
def createVectorValueAppend (c : Create) (vector v : UInt32) : Res (UInt32 × Create) :=
  if c.values.length ≤ v.toNat then .ok (createValueFail, c)
  else createVectorAppendPriv c vector v.toNat

/-- `pointless_create_vector_i8_append`; the functions below are its siblings. -/
def createVectorI8Append (c : Create) (vector : UInt32) (v : UInt8) : Res (UInt32 × Create) :=
  createVectorAppendPriv c vector v.toNat
def createVectorU8Append (c : Create) (vector : UInt32) (v : UInt8) : Res (UInt32 × Create) :=
  createVectorAppendPriv c vector v.toNat
def createVectorI16Append (c : Create) (vector : UInt32) (v : UInt16) : Res (UInt32 × Create) :=
  createVectorAppendPriv c vector v.toNat
def createVectorU16Append (c : Create) (vector : UInt32) (v : UInt16) : Res (UInt32 × Create) :=
  createVectorAppendPriv c vector v.toNat
def createVectorI32Append (c : Create) (vector : UInt32) (v : UInt32) : Res (UInt32 × Create) :=
  createVectorAppendPriv c vector v.toNat
def createVectorU32Append (c : Create) (vector : UInt32) (v : UInt32) : Res (UInt32 × Create) :=
  createVectorAppendPriv c vector v.toNat
def createVectorI64Append (c : Create) (vector : UInt32) (v : UInt64) : Res (UInt32 × Create) :=
  createVectorAppendPriv c vector v.toNat
def createVectorU64Append (c : Create) (vector : UInt32) (v : UInt64) : Res (UInt32 × Create) :=
  createVectorAppendPriv c vector v.toNat
def createVectorFloatAppend (c : Create) (vector : UInt32) (v : UInt32) : Res (UInt32 × Create) :=
  createVectorAppendPriv c vector v.toNat

/-- `pointless_create_vector_value_set`. -/
def createVectorValueSet (c : Create) (vector i v : UInt32) : Res Create := do
  let cv ← cvValueAt c vector
  let a ← cvGetPrivVector c cv
  if i.toNat < a.nItems then
    modifyPrivVector c vector fun a => { a with items := a.items.set i.toNat v.toNat }
  else fault .outOfBounds

/-- `pointless_create_vector_transfer_priv`. -/
def createVectorTransferPriv (c : Create) (vector : UInt32) (items : List UInt32) :
    Res (UInt32 × Create) := do
  let cv ← cvValueAt c vector
  let a ← cvGetPrivVector c cv
  if a.nItems ≠ 0 then pure (createValueFail, c)
  else
    let c ← modifyPrivVector c vector fun a => { a with items := items.map UInt32.toNat }
    pure (vector, c)

/-- `pointless_create_vector_u32_transfer`. -/
def createVectorU32Transfer (c : Create) (vector : UInt32) (v : List UInt32) :
    Res (UInt32 × Create) :=
  createVectorTransferPriv c vector v

/-- `pointless_create_vector_value_transfer`. -/
def createVectorValueTransfer (c : Create) (vector : UInt32) (v : List UInt32) :
    Res (UInt32 × Create) :=
  if v.any fun handle => c.values.length ≤ handle.toNat then .ok (createValueFail, c)
  else createVectorTransferPriv c vector v

/-! ## Vectors, buffer owned by caller -/

/-- `pointless_create_vector_owner_priv`. -/
def createVectorOwnerPriv (c : Create) (vectorType : ValueType) (items : List UInt8)
    (nItems : UInt32) : UInt32 × Create :=
  if nItems = 0 then pushValue c (.plain .vectorEmpty 0)
  else
    let (handle, c) := pushValue c
      { type := vectorType, isCompressedVector := false, isSetMapVector := false,
        isOutsideVector := true, data := UInt32.ofNat c.outsideVectorValues.length }
    (handle, { c with outsideVectorValues := c.outsideVectorValues ++ [⟨items, nItems⟩] })

section Owner

variable (c : Create) (items : List UInt8) (nItems : UInt32)

/-- `pointless_create_vector_i8_owner`; the functions below are its siblings. -/
def createVectorI8Owner : UInt32 × Create := createVectorOwnerPriv c .vectorI8 items nItems
def createVectorU8Owner : UInt32 × Create := createVectorOwnerPriv c .vectorU8 items nItems
def createVectorI16Owner : UInt32 × Create := createVectorOwnerPriv c .vectorI16 items nItems
def createVectorU16Owner : UInt32 × Create := createVectorOwnerPriv c .vectorU16 items nItems
def createVectorI32Owner : UInt32 × Create := createVectorOwnerPriv c .vectorI32 items nItems
def createVectorU32Owner : UInt32 × Create := createVectorOwnerPriv c .vectorU32 items nItems
def createVectorI64Owner : UInt32 × Create := createVectorOwnerPriv c .vectorI64 items nItems
def createVectorU64Owner : UInt32 × Create := createVectorOwnerPriv c .vectorU64 items nItems
def createVectorFloatOwner : UInt32 × Create := createVectorOwnerPriv c .vectorFloat items nItems

end Owner

/-! ## Sets and maps -/

/-- `cv_value_at(handle)->header.is_set_map_vector = 1`. -/
def markSetMapVector (c : Create) (handle : UInt32) : Res Create := do
  let values ← modifyAt c.values handle fun v => { v with isSetMapVector := true }
  pure { c with values }

/-- `pointless_create_set`. -/
def createSet (c : Create) : Res (UInt32 × Create) := do
  let data := UInt32.ofNat c.setValues.length
  let (serializeHash, c) := createVectorU32 c
  let (serializeKeys, c) := createVectorValue c
  if serializeHash = createValueFail ∨ serializeKeys = createValueFail then
    pure (createValueFail, c)
  else
    let c ← markSetMapVector c serializeHash
    let c ← markSetMapVector c serializeKeys
    let (handle, c) := pushValue c (.plain .setValue data)
    pure (handle, { c with setValues := c.setValues ++ [⟨[], serializeHash, serializeKeys⟩] })

/-- `pointless_create_set_add`. -/
def createSetAdd (c : Create) (s k : UInt32) : Res (UInt32 × Create) := do
  let cv ← cvValueAt c s
  let setValues ← modifyAt c.setValues cv.data fun set => { set with keys := set.keys ++ [k] }
  pure (s, { c with setValues })

/-- `pointless_create_map`. -/
def createMap (c : Create) : Res (UInt32 × Create) := do
  let data := UInt32.ofNat c.mapValues.length
  let (serializeHash, c) := createVectorU32 c
  let (serializeKeys, c) := createVectorValue c
  let (serializeValues, c) := createVectorValue c
  if serializeHash = createValueFail ∨ serializeKeys = createValueFail ∨
      serializeValues = createValueFail then
    pure (createValueFail, c)
  else
    let c ← markSetMapVector c serializeHash
    let c ← markSetMapVector c serializeKeys
    let c ← markSetMapVector c serializeValues
    let (handle, c) := pushValue c (.plain .mapValueValue data)
    pure (handle,
      { c with
        mapValues := c.mapValues ++ [⟨[], [], serializeHash, serializeKeys, serializeValues⟩] })

/-- `pointless_create_map_add`. -/
def createMapAdd (c : Create) (m k v : UInt32) : Res (UInt32 × Create) := do
  let cv ← cvValueAt c m
  let mapValues ← modifyAt c.mapValues cv.data fun map =>
    { map with keys := map.keys ++ [k], values := map.values ++ [v] }
  pure (m, { c with mapValues })

end Pointless
