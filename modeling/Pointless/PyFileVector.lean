import Pointless.Hash
import Pointless.Lib.PyList
import Pointless.TreeRead

/-!
# The vectors of a file in Python

`pointless_vector.c` of the Python extension: a `PyPointlessVector` is a slice of a
vector of a file, and `pointless_instance_dispatch.c`: the Python objects that the
values of a file become.

A Python exception is its message. The allocation of an object is taken to succeed.
-/

namespace Pointless

open PyList

/-! ## Objects -/

/-- `PyPointlessVector`. -/
structure PyPointlessVector where
  pp : OpenFile
  v : Value
  sliceI : UInt32
  sliceN : UInt32
  deriving DecidableEq, Repr

/-- The Python objects that values become; a string is the list of its code points. -/
inductive PyFileObject where
  | none
  | bool (b : Bool)
  | int (v : Int)
  | float (bits : UInt32)
  | str (chars : List UInt32)
  | vector (vector : PyPointlessVector)
  | bitvector (pp : OpenFile) (v : Value)
  | set (pp : OpenFile) (v : Value)
  | map (pp : OpenFile) (v : Value)
  deriving DecidableEq, Repr

/-- `PyPointlessVector_New`. -/
def pyVectorNew (pp : OpenFile) (v : Value) (sliceI sliceN : UInt32) : Res PyPointlessVector := do
  let nItems ← readerVectorNItems pp v
  if ¬(sliceI + sliceN ≤ nItems) then fail "slice invariant error when creating PyPointlessVector"
  else pure ⟨pp, v, sliceI, sliceN⟩

/-- `pypointless_value_unicode`. -/
def pypointlessValueUnicode (p : OpenFile) (v : Value) : Res PyFileObject := do
  let unicodeLen ← readerStringUnicodeLen p v
  let unicodeUcs4 ← readerStringUnicodeValue p v
  let chars ← (List.range unicodeLen.toNat).mapM fun i => loadU32 unicodeUcs4 (4 * i)
  pure (.str chars)

/-- `pypointless_value_string`, up to the first zero byte. -/
def pypointlessValueString (p : OpenFile) (v : Value) : Res PyFileObject := do
  let stringAscii ← readerStringUnicodeValue p v
  match beforeTerminator (chars8 stringAscii) with
  | some chars => pure (.str chars)
  | none => fault .outOfBounds

/-- `pypointless_value`. -/
def pypointlessValue (p : OpenFile) (v : Value) : Res PyFileObject :=
  match v.type with
  | .vectorValue | .vectorValueHashable | .vectorI8 | .vectorU8 | .vectorI16 | .vectorU16
  | .vectorI32 | .vectorU32 | .vectorI64 | .vectorU64 | .vectorFloat | .vectorEmpty => do
      let nItems ← readerVectorNItems p v
      .vector <$> pyVectorNew p v 0 nItems
  | .string => pypointlessValueString p v
  | .unicode => pypointlessValueUnicode p v
  | .bitvector | .bitvector0 | .bitvector1 | .bitvector10 | .bitvector01 | .bitvectorPacked =>
      .ok (.bitvector p v)
  | .i32 => .ok (.int (dataI32 v.data))
  | .u32 => .ok (.int v.data.toNat)
  | .float => .ok (.float v.data)
  | .boolean => .ok (.bool (v.data ≠ 0))
  | .null => .ok .none
  | .setValue => .ok (.set p v)
  | .mapValueValue => .ok (.map p v)
  | t => fail
      s!"internal error, got strange type ID {t.code}, this file should not have passed validation"

/-! ## Items -/

/-- `PyPointlessVector_length`. -/
def pyVectorLength (self : PyPointlessVector) : Nat := self.sliceN.toNat

/-- The type switch of `PyPointlessVector_subscript_priv`, at position `i` of the whole
vector. -/
def pyVectorItemAt (pp : OpenFile) (v : Value) (i : UInt32) : Res PyFileObject :=
  match v.type with
  | .vectorValue | .vectorValueHashable => readerVectorValue pp v i.toNat >>= pypointlessValue pp
  | .vectorI8 => .int <$> readerVectorI8 pp v i.toNat
  | .vectorU8 => .int <$> readerVectorU8 pp v i.toNat
  | .vectorI16 => .int <$> readerVectorI16 pp v i.toNat
  | .vectorU16 => .int <$> readerVectorU16 pp v i.toNat
  | .vectorI32 => .int <$> readerVectorI32 pp v i.toNat
  | .vectorU32 => .int <$> readerVectorU32 pp v i.toNat
  | .vectorI64 => .int <$> readerVectorI64 pp v i.toNat
  | .vectorU64 => .int <$> readerVectorU64 pp v i.toNat
  | .vectorFloat => .float <$> readerVectorFloat pp v i.toNat
  | _ => fail "strange array type"

/-- `PyPointlessVector_subscript_priv`. -/
def pyVectorSubscriptPriv (self : PyPointlessVector) (i : UInt32) : Res PyFileObject :=
  pyVectorItemAt self.pp self.v (i + self.sliceI)

/-- The check of an index that a Python integer gives, for a sequence of `length` items:
`PyPointlessVector_check_index` and its siblings. `PyNumber_AsSsize_t` refuses what does
not fit `Py_ssize_t`. -/
def pyCheckIndex (length : Nat) (item : Int) : Res Nat :=
  if item < -2 ^ 63 ∨ 2 ^ 63 ≤ item then fail "cannot fit 'int' into an index-sized integer"
  else
    let i := if item < 0 then item + length else item
    if 0 ≤ i ∧ i < length then .ok i.toNat else fail "index is out of bounds"

/-- `PyPointlessVector_subscript` with an integer. -/
def pyVectorSubscript (self : PyPointlessVector) (item : Int) : Res PyFileObject := do
  let i ← pyCheckIndex (pyVectorLength self) item
  pyVectorSubscriptPriv self (UInt32.ofNat i)

/-- `PyPointlessVector_item`. -/
def pyVectorItem (self : PyPointlessVector) (i : Int) : Res PyFileObject :=
  if ¬(0 ≤ i ∧ i < self.sliceN.toNat) then fail "vector index out of range"
  else pyVectorSubscriptPriv self (UInt32.ofInt i)

/-! ## Slices -/

/-- A Python `slice` of integers, with `none` for a bound that is not given. -/
structure PySlice where
  start : Option Int
  stop : Option Int
  step : Option Int
  deriving DecidableEq, Repr

/-- A step of 1, given or not. -/
def PySlice.UnitStep (s : PySlice) : Prop := s.step = none ∨ s.step = some 1

/-- `_PyEval_SliceIndex`: a bound that does not fit `Py_ssize_t` becomes its limit. -/
def evalSliceIndex (v : Int) : Int := max (-2 ^ 63) (min v (2 ^ 63 - 1))

/-- One bound in `PySlice_AdjustIndices`. -/
def adjustIndex (length step b : Int) : Int :=
  if b < 0 then
    if b + length < 0 then (if step < 0 then -1 else 0) else b + length
  else if length ≤ b then (if step < 0 then length - 1 else length)
  else b

/-- `PySlice_GetIndicesEx`: start, stop and step. -/
def getIndicesEx (s : PySlice) (length : Int) : Res (Int × Int × Int) :=
  let step := (s.step.map evalSliceIndex).getD 1
  if step = 0 then fail "slice step cannot be zero"
  else
    let start := (s.start.map evalSliceIndex).getD (if step < 0 then 2 ^ 63 - 1 else 0)
    let stop := (s.stop.map evalSliceIndex).getD (if step < 0 then -2 ^ 63 else 2 ^ 63 - 1)
    .ok (adjustIndex length step start, adjustIndex length step stop, step)

/-- `PyPointlessVector_slice`. -/
def pyVectorSlice (self : PyPointlessVector) (ilow ihigh : Int) : Res PyPointlessVector :=
  let nItems : Int := self.sliceN.toNat
  let ilow := if ilow < 0 then 0 else if nItems < ilow then nItems else ilow
  let ihigh := if ihigh < ilow then ilow else if nItems < ihigh then nItems else ihigh
  pyVectorNew self.pp self.v (self.sliceI + UInt32.ofInt ilow) (UInt32.ofInt (ihigh - ilow))

/-- `PyPointlessVector_subscript` with a slice. -/
def pyVectorSubscriptSlice (self : PyPointlessVector) (s : PySlice) : Res PyPointlessVector := do
  let (start, stop, step) ← getIndicesEx s self.sliceN.toNat
  if step ≠ 1 then fail "only slice-steps of 1 supported"
  else pyVectorSlice self start stop

/-- A chain of slices, one taken of the other. -/
def pyVectorSlices (self : PyPointlessVector) (slices : List PySlice) : Res PyPointlessVector :=
  slices.foldlM pyVectorSubscriptSlice self

/-! ## Iterators -/

/-- `PyPointlessVectorIter` and `PyPointlessVectorRevIter`. -/
structure PyVectorIter where
  vector : Option PyPointlessVector
  iterState : UInt32
  deriving DecidableEq, Repr

/-- `PyPointlessVector_iter` and `PyPointlessVector_rev_iter`. -/
def pyVectorIter (vector : PyPointlessVector) : PyVectorIter := ⟨some vector, 0⟩

/-- `PyPointlessVectorIter_iternext`, with the place in a vector of so many items that it
reads in a state. -/
def pyVectorIternext (place : UInt32 → UInt32 → UInt32) (iter : PyVectorIter) :
    Res (Option PyFileObject × PyVectorIter) :=
  match iter.vector with
  | none => .ok (none, iter)
  | some vector => do
      let nItems := UInt32.ofNat (pyVectorLength vector)
      if iter.iterState < nItems then
        let item ← pyVectorSubscriptPriv vector (place nItems iter.iterState)
        pure (some item, { iter with iterState := iter.iterState + 1 })
      else pure (none, { iter with vector := none })

/-- `PyPointlessVectorIter_iternext`. -/
def pyVectorIterIternext : PyVectorIter → Res (Option PyFileObject × PyVectorIter) :=
  pyVectorIternext fun _ iterState => iterState

/-- `PyPointlessVectorRevIter_iternext`. -/
def pyVectorRevIterIternext : PyVectorIter → Res (Option PyFileObject × PyVectorIter) :=
  pyVectorIternext fun nItems iterState => nItems - iterState - 1

end Pointless
