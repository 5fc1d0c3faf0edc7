import Pointless.Hash

/-!
# Python objects and their hashes

`pointless_pyobject_hash.c`: the hash of a Python object, which is to agree with the
hash the object has in a file.

Of the Python classes the model has `None`, `bool`, `int`, `str`, `tuple`, `list`,
`PrimVector` and the vector of an opened file. Errors do not stop the code: they
are left in `*state->error` while the hash goes on, so that the error is a part of
each result.
-/

namespace Pointless

/-! ## Objects -/

/-- `PyPointlessPrimVector`. -/
structure PyPointlessPrimVector where
  array : Dynarray
  type : NumberType
  deriving DecidableEq, Repr

/-- A Python object; a string is the list of its code points. -/
inductive PyObject where
  | none
  | bool (b : Bool)
  | int (v : Int)
  | str (chars : List UInt32)
  | tuple (items : List PyObject)
  | list (items : List PyObject)
  | primVector (v : PyPointlessPrimVector)
  | vector (p : OpenFile) (v : Value) (sliceI sliceN : UInt32)

/-- A hash, and what is in `*state->error` after it. -/
abbrev PyHash := UInt32 × Option String

/-! ## Scalars -/

/-- The message of `pyobject_hash_long_32`. -/
def pyHashLongMessage : String := "hashing of integers exceeding 32-bits not supported"

/-- `pyobject_hash_long_32`. -/
def pyHashLong32 (i : Int) (error : Option String) : PyHash :=
  if i < -2 ^ 63 ∨ 2 ^ 63 ≤ i then (0, some pyHashLongMessage)
  else if i < 0 then
    if ¬(-2 ^ 31 ≤ i) then (0, some pyHashLongMessage) else (hashInt32 i, error)
  else if ¬(i ≤ uint32Max.toNat) then (0, some pyHashLongMessage)
  else (hashInt32 i, error)

/-- `pyobject_hash_unicode_32`. The characters of a `str` are followed by a
terminator, and the loop is the same for the three widths they may have. -/
def pyHashUnicode32 (version : UInt32) (chars : List UInt32) (error : Option String) :
    Res PyHash :=
  if version = 1 ∨ version = 2 then (fun hash => (hash, error)) <$> stringHash32 (chars ++ [0])
  else .ok (0, error)

/-! ## Vectors -/

/-- `pointless_dynarray_item_at`, read with the width of the vector's type. -/
def primVectorItem (v : PyPointlessPrimVector) (i : Nat) : Res Int :=
  v.type.toInt <$> loadWord v.type.size v.array.data (v.array.itemSize * i)

/-- The item switch of `pyobject_hash_primvector_32`. -/
def pyHashPrimItem (t : NumberType) (item : Int) : UInt32 :=
  match t with
  | .i8 | .u8 | .i16 | .u16 | .i32 | .u32 => hashInt32 item
  | .i64 => hashI6432 item
  | .u64 => hashU6432 item
  | .float => hashFloat32 (UInt32.ofInt item)

/-- `pyobject_hash_primvector_32`. -/
def pyHashPrimvector32 (v : PyPointlessPrimVector) (error : Option String) : Res PyHash :=
  (fun hash => (hash, error)) <$>
    vectorHash32 (UInt32.ofNat v.array.nItems) (List.range v.array.nItems)
      (fun i => pyHashPrimItem v.type <$> primVectorItem v i)

/-- A `PyPointlessVector`: a slice of a vector of a file. -/
def pyHashVector32 (fuel : Nat) (p : OpenFile) (v : Value) (sliceI sliceN : UInt32)
    (error : Option String) : Res PyHash :=
  if isHashable v.type then
    (fun hash => (hash, error)) <$> hashReaderVector32 fuel p v sliceI sliceN
  else .ok (0, some "pointless type is not hashable")

/-- `pyobject_hash_tuple_32`, over the hash of an item. -/
def pyHashTuple32 (rec : PyObject → Option String → Res PyHash) (items : List PyObject)
    (error : Option String) : Res PyHash :=
  if uint32Max.toNat < items.length then .ok (0, some "tuple length is too large")
  else do
    let (state, error) ← items.foldlM (fun (s : VectorHashState32 × Option String) o => do
        let (h, error) ← rec o s.2
        pure (vectorHashNext32 s.1 h, error))
      (vectorHashInit32 (UInt32.ofNat items.length), error)
    pure (vectorHashEnd32 state, error)

/-! ## Objects of any class -/

/-- `pyobject_hash_rec_32`, with the levels that are left before `POINTLESS_MAX_DEPTH`;
a file's own values are read with `fuel`. -/
def pyHashRec32 (fuel : Nat) (version : UInt32) :
    Nat → PyObject → Option String → Res PyHash
  | 0, _, _ => .ok (0, some "maximum depth reached")
  | left + 1, o, error =>
      match o with
      -- a bool passes PyLong_Check
      | .bool b => .ok (pyHashLong32 (if b then 1 else 0) error)
      | .int i => .ok (pyHashLong32 i error)
      | .str chars => pyHashUnicode32 version chars error
      | .tuple items => pyHashTuple32 (pyHashRec32 fuel version left) items error
      | .vector p v sliceI sliceN => pyHashVector32 fuel p v sliceI sliceN error
      | .primVector v => pyHashPrimvector32 v error
      | .none => .ok (0, error)
      | .list _ => .ok (0, some "object is not hashable")

/-- `pyobject_hash_32`. -/
def pyHash32 (fuel : Nat) (o : PyObject) (version : UInt32) : Res PyHash :=
  pyHashRec32 fuel version maxDepth o none

end Pointless
