import Mathlib.Logic.Function.Basic
import Pointless.CreateCalls
import Pointless.Lib.Attempts
import Pointless.ReaderTables

/-!
# Re-creating values

`pointless_recreate.c`: a value of a file, with everything below it, is created again in a
create-time state. A value on the heap is created once, and its handle is found in a mapping
from then on.

A function that sets `*error` and answers `POINTLESS_CREATE_VALUE_FAIL` gives up with the
error. The depth that `pointless_recreate_convert_rec` passes on is never looked at.
-/

namespace Pointless

open Attempts ByteMemory

/-! ## The state -/

/-- The arrays of `pointless_recreate_state_t` from read handles to create handles. -/
inductive RecreateMapping where
  | stringUnicode
  | vector
  | bitvector
  | set
  | map
  deriving DecidableEq, Repr

/-- `pointless_recreate_state_t`. -/
structure RecreateState where
  c : Create
  mapping : RecreateMapping → List UInt32
  normalizeBitvector : Bool

/-- A function over the state. -/
abbrev Recreate (α : Type) := Attempt Stop String RecreateState α

/-- The array for the values of a type. -/
def recreateMapping : ValueType → Option RecreateMapping
  | .vectorValue | .vectorValueHashable | .vectorI8 | .vectorU8 | .vectorI16 | .vectorU16
  | .vectorI32 | .vectorU32 | .vectorI64 | .vectorU64 | .vectorFloat => some .vector
  | .unicode | .string => some .stringUnicode
  | .bitvector => some .bitvector
  | .setValue => some .set
  | .mapValueValue => some .map
  | _ => none

/-- How many read handles an array is for. -/
def recreateCount (p : OpenFile) : RecreateMapping → UInt32
  | .stringUnicode => p.header.nStringUnicode
  | .vector => p.header.nVector
  | .bitvector => p.header.nBitvector
  | .set => p.header.nSet
  | .map => p.header.nMap

/-- The state that `pointless_recreate_value` begins with. -/
def recreateBegin (p : OpenFile) (c : Create) : RecreateState where
  c := c
  mapping := fun m => List.replicate (recreateCount p m).toNat uint32Max
  normalizeBitvector := true

/-- The first switch of `pointless_recreate_convert_rec`. -/
def recreateMapped (v : Value) : Recreate UInt32 :=
  match recreateMapping v.type with
  | some m => looking fun s => itemAt (s.mapping m) v.data
  | none => pure uint32Max

/-- `state->…_r_c_mapping[v->data.data_u32] = handle`. -/
def recreateSetMapped (v : Value) (handle : UInt32) : Recreate Unit :=
  match recreateMapping v.type with
  | some m => changing fun s => do
      let handles ← modifyAt (s.mapping m) v.data fun _ => handle
      pure ((), { s with mapping := Function.update s.mapping m handles })
  | none => pure ()

/-! ## Calls -/

/-- A call of the create API, with the error for `POINTLESS_CREATE_VALUE_FAIL`. -/
def recreateCall (error : String) (call : Create → Res (UInt32 × Create)) : Recreate UInt32 := do
  let handle ← changing fun s =>
    (fun result => (result.1, { s with c := result.2 })) <$> call s.c
  if handle = createValueFail then giveUp error else pure handle

/-- A call whose handle is not needed any more. -/
def recreateAdd (error : String) (call : Create → Res (UInt32 × Create)) : Recreate Unit := do
  let _ ← recreateCall error call
  pure ()

/-- `POINTLESS_RECREATE_FUNC_1`, `POINTLESS_RECREATE_FUNC_2` and
`POINTLESS_RECREATE_FUNC_3`. -/
def recreateFunc (func : String) (call : Create → Res (UInt32 × Create)) : Recreate UInt32 :=
  recreateCall (func ++ " failure") call

/-! ## Vectors -/

/-- The create function of a caller's vector, by its name. -/
def NumberType.ownerName : NumberType → String
  | i8 => "pointless_create_vector_i8_owner"
  | u8 => "pointless_create_vector_u8_owner"
  | i16 => "pointless_create_vector_i16_owner"
  | u16 => "pointless_create_vector_u16_owner"
  | i32 => "pointless_create_vector_i32_owner"
  | u32 => "pointless_create_vector_u32_owner"
  | i64 => "pointless_create_vector_i64_owner"
  | u64 => "pointless_create_vector_u64_owner"
  | float => "pointless_create_vector_float_owner"

/-- The `n` items of a vector from `pointless_reader_vector_…(p, v) + first` on, which are
handed over as they lie in the file. -/
def ownerItems (p : OpenFile) (v : Value) (t : NumberType) (first n : UInt32) :
    Res (List UInt8) := do
  let base ← readerVectorBasePtr p v
  match slice p.heap (base + t.size * first.toNat) (t.size * n.toNat) with
  | some items => pure items
  | none => fault .outOfBounds

/-- The cases of the vectors of numbers. -/
def recreateVectorOwner (p : OpenFile) (t : NumberType) (v : Value) (nItems : UInt32) :
    Recreate UInt32 := do
  let items ← reading (ownerItems p v t 0 nItems)
  let handle ← recreateFunc t.ownerName fun c => .ok (t.owner c items nItems)
  recreateSetMapped v handle
  pure handle

/-- A round of the loop over the items of a value vector. -/
def recreateItem (rec : Value → Recreate UInt32) (handle : UInt32) (child : Value) :
    Recreate Unit := do
  let childHandle ← rec child
  recreateAdd "pointless_create_vector_value_append() failure" fun c =>
    createVectorValueAppend c handle childHandle

/-- The case of the value vectors. -/
def recreateVectorValue (p : OpenFile) (rec : Value → Recreate UInt32) (v : Value)
    (nItems : UInt32) : Recreate UInt32 := do
  let handle ← recreateCall "pointless_create_vector_value() failure" fun c =>
    .ok (createVectorValue c)
  recreateSetMapped v handle
  (List.range nItems.toNat).forM fun i =>
    reading (readerVectorValue p v i) >>= recreateItem rec handle
  pure handle

/-! ## Strings and bitvectors -/

/-- The cases of the unicodes and strings. -/
def recreateStringUnicode (p : OpenFile) (v : Value) : Recreate UInt32 := do
  let m ← reading (readerStringUnicodeValue p v)
  let handle ←
    match v.type with
    | .unicode => recreateFunc "pointless_create_unicode_ucs4" fun c =>
        createUnicodeUcs4 c (chars32 m)
    | _ => recreateFunc "pointless_create_string_ascii" fun c => createStringAscii c m
  recreateSetMapped v handle
  pure handle

/-- The copy of the bits of a bitvector on the heap. -/
def bitvectorCopy (p : OpenFile) (v : Value) (nBits : UInt32) : Res (List UInt8) := do
  let buffer ← readerBitvectorBuffer p v
  match buffer.bind fun m => slice m 4 (iceil nBits.toNat 8) with
  | some bits => pure bits
  | none => fault .outOfBounds

/-- `pointless_create_bitvector` or its sibling, by `normalize_bitvector`. -/
def recreateBitvectorCall (bits : List UInt8) (nBits : UInt32) : Recreate UInt32 := do
  let normalize ← looking fun s => .ok s.normalizeBitvector
  recreateCall "pointless_create_bitvector() failure" fun c =>
    if normalize then createBitvector c bits nBits else createBitvectorNoNormalize c bits nBits

/-- The case of the bitvectors on the heap. -/
def recreateBitvector (p : OpenFile) (v : Value) : Recreate UInt32 := do
  let nBits ← reading (readerBitvectorNBits p v)
  let bits ← reading (bitvectorCopy p v nBits)
  let handle ← recreateBitvectorCall bits nBits
  recreateSetMapped v handle
  pure handle

/-! ## Sets and maps -/

/-- A round of the loop over the keys of a set. -/
def recreateKey (rec : Value → Recreate UInt32) (handle : UInt32) (key : Value) :
    Recreate Unit := do
  let keyHandle ← rec key
  recreateAdd "pointless_create_set_add() failure" fun c => createSetAdd c handle keyHandle

/-- The case of the sets. The state of the iteration has 32 bits. -/
def recreateSet (p : OpenFile) (rec : Value → Recreate UInt32) (v : Value) : Recreate UInt32 := do
  let handle ← recreateFunc "pointless_create_set" createSet
  recreateSetMapped v handle
  whileSome (.fault .diverges) (readerSetIter p v) (recreateKey rec handle) (2 ^ 32) 0
  pure handle

/-- A round of the loop over the entries of a map. -/
def recreateEntry (rec : Value → Recreate UInt32) (handle : UInt32) (entry : Value × Value) :
    Recreate Unit := do
  let keyHandle ← rec entry.1
  let valueHandle ← rec entry.2
  recreateAdd "pointless_create_map_add() failure" fun c =>
    createMapAdd c handle keyHandle valueHandle

/-- A call of `pointless_reader_map_iter`: the entry, and the state after it. -/
def mapEntryNext (p : OpenFile) (m : Value) (state : UInt32) :
    Res (Option ((Value × Value) × UInt32)) :=
  (·.map fun (key, value, state) => ((key, value), state)) <$> readerMapIter p m state

/-- The case of the maps. -/
def recreateMap (p : OpenFile) (rec : Value → Recreate UInt32) (v : Value) : Recreate UInt32 := do
  let handle ← recreateFunc "pointless_create_map" createMap
  recreateSetMapped v handle
  whileSome (.fault .diverges) (mapEntryNext p v) (recreateEntry rec handle) (2 ^ 32) 0
  pure handle

/-! ## Values -/

/-- The second switch of `pointless_recreate_convert_rec`, over its calls of itself. -/
def recreateNew (p : OpenFile) (rec : Value → Recreate UInt32) (v : Value) (nItems : UInt32) :
    Recreate UInt32 :=
  match v.type with
  | .vectorValue | .vectorValueHashable => recreateVectorValue p rec v nItems
  | .vectorI8 => recreateVectorOwner p .i8 v nItems
  | .vectorU8 => recreateVectorOwner p .u8 v nItems
  | .vectorI16 => recreateVectorOwner p .i16 v nItems
  | .vectorU16 => recreateVectorOwner p .u16 v nItems
  | .vectorI32 => recreateVectorOwner p .i32 v nItems
  | .vectorU32 => recreateVectorOwner p .u32 v nItems
  | .vectorI64 => recreateVectorOwner p .i64 v nItems
  | .vectorU64 => recreateVectorOwner p .u64 v nItems
  | .vectorFloat => recreateVectorOwner p .float v nItems
  | .vectorEmpty => recreateFunc "pointless_create_vector_value" fun c => .ok (createVectorValue c)
  | .unicode | .string => recreateStringUnicode p v
  | .bitvector0 | .bitvector1 | .bitvector01 | .bitvector10 | .bitvectorPacked =>
      recreateCall "out of memory" fun c => .ok (createBitvectorCompressed c v)
  | .bitvector => recreateBitvector p v
  | .setValue => recreateSet p rec v
  | .mapValueValue => recreateMap p rec v
  | .emptySlot => recreateFunc "pointless_create_empty_slot" fun c => .ok (createEmptySlot c)
  | .i32 => recreateFunc "pointless_create_i32" fun c => .ok (createI32 c v.data.toInt32)
  | .u32 => recreateFunc "pointless_create_u32" fun c => .ok (createU32 c v.data)
  | .float => recreateFunc "pointless_create_float" fun c => .ok (createFloat c v.data)
  | .boolean =>
      if v.data ≠ 0 then
        recreateFunc "pointless_create_boolean_true" fun c => .ok (createBooleanTrue c)
      else recreateFunc "pointless_create_boolean_false" fun c => .ok (createBooleanFalse c)
  | .null => recreateFunc "pointless_create_null" fun c => .ok (createNull c)
  | _ => giveUp "unknown type"

/-- `pointless_recreate_convert_rec`, over its calls of itself. -/
def recreateConvertOver (p : OpenFile) (rec : Value → Recreate UInt32) (v : Value) :
    Recreate UInt32 := do
  let handle ← recreateMapped v
  if handle ≠ uint32Max then pure handle
  else do
    let nItems ← reading (if isVectorType v.type then readerVectorNItems p v else pure 0)
    recreateNew p rec v nItems

/-- `pointless_recreate_convert_rec`. -/
def recreateConvertRec (p : OpenFile) : Nat → Value → Recreate UInt32
  | 0 => fun _ => reading (fault .diverges)
  | fuel + 1 => recreateConvertOver p (recreateConvertRec p fuel)

/-- `pointless_recreate_value`: the handle or the error, and the create-time state. -/
def recreateValue (fuel : Nat) (p : OpenFile) (v : Value) (c : Create) :
    Res (Except String UInt32 × Create) := do
  let (result, s) ← run (recreateConvertRec p fuel v) (recreateBegin p c)
  pure (result, s.c)

end Pointless
