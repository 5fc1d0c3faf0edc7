import Pointless.Cmp
import Pointless.PyObject

/-!
# Comparing Python objects with values of files

`pointless_pyobject_cmp.c`: the comparison of two operands of which each is a Python
object or a value of an opened file.

As in the hash, an error does not stop the code. It is left in `state->error` while
the comparison goes on, so that the error is a part of each result.
-/

namespace Pointless

/-! ## Operands -/

/-- `pypointless_cmp_value_t`. -/
inductive PyCmpValue where
  | pointless (p : OpenFile) (v : CompleteValue) (vectorSliceI vectorSliceN : UInt32)
  | python (pyObject : PyObject)

/-- A comparison, and what is in `state->error` after it. -/
abbrev PyCmp := Int × Option String

/-- `pypointless_cmp_value_init_pointless`: a vector is taken whole. -/
def pyCmpValueInitPointless (p : OpenFile) (v : CompleteValue) : Res PyCmpValue :=
  if isVectorType v.type then do
    let nItems ← readerVectorNItems p v.toValue
    pure (.pointless p v 0 nItems)
  else pure (.pointless p v 0 0)

/-- `pypointless_cmp_value_init_python`: a vector of a file is its slice. -/
def pyCmpValueInitPython : PyObject → PyCmpValue
  | .vector p v sliceI sliceN => .pointless p v.toComplete sliceI sliceN
  | o => .python o

/-! ## Dispatch -/

/-- The callbacks of `pypointless_cmp_func`. -/
inductive PyCmpFunc where
  | stringUnicode
  | intFloatBool
  | none
  | vector
  | bitvector
  deriving DecidableEq, Repr

/-- The callback for a value of a file, or the message that there is none. The null
callback of sets, maps and empty slots has no message. -/
def pyCmpFuncPointless (t : ValueType) : Except (Option String) PyCmpFunc :=
  match t with
  | .i32 | .u32 | .float | .boolean => .ok .intFloatBool
  | .null => .ok .none
  | .string | .unicode => .ok .stringUnicode
  | .setValue | .mapValueValue | .emptySlot => .error none
  | t =>
      if isVectorType t then .ok .vector
      else if isBitvectorType t then .ok .bitvector
      else .error (some "comparison not supported for pointless type")

/-- The callback for a Python object. A vector of a file is known as such only where it
is an operand itself, not inside of a list. -/
def pyCmpFuncPython : PyObject → Except (Option String) PyCmpFunc
  -- a bool passes PyLong_Check
  | .bool _ | .int _ => .ok .intFloatBool
  | .none => .ok .none
  | .str _ => .ok .stringUnicode
  | .list _ | .tuple _ => .ok .vector
  | .primVector _ | .vector .. => .error (some "comparison not supported for Python type")

/-- `pypointless_cmp_func`. -/
def pyCmpFunc : PyCmpValue → Except (Option String) PyCmpFunc
  | .pointless _ v _ _ => pyCmpFuncPointless v.type
  | .python o => pyCmpFuncPython o

/-! ## Strings -/

/-- `pypointless_cmp_extract_string`: the characters to the end of their memory. -/
def pyCmpExtractString : PyCmpValue → Res (List UInt32)
  | .pointless p v _ _ => stringChars v.type <$> readerStringUnicodeValue p v.toValue
  | .python (.str chars) => .ok (chars ++ [0])
  | .python _ => fault .outOfBounds

/-- `pypointless_cmp_string_unicode`. -/
def pyCmpStringUnicode (a b : PyCmpValue) (error : Option String) : Res PyCmp := do
  let sA ← pyCmpExtractString a
  if error.isSome then pure (0, error)
  else
    let sB ← pyCmpExtractString b
    let c ← cmpString sA sB
    pure (c, error)

/-! ## Numbers -/

/-- `pypointless_cmp_int_float_bool_t`. -/
inductive PyCmpNumber where
  | signed (ii : Int)
  | unsigned (uu : Nat)
  | float (ff : UInt32)
  deriving DecidableEq, Repr

/-- `pypointless_cmp_int_float_bool_from_value`, or the message it leaves. -/
def pyCmpNumberFromValue : PyCmpValue → Except String PyCmpNumber
  | .pointless _ v _ _ =>
      match v.type with
      | .i32 | .i64 => .ok (.signed (intValueSigned v.type v.data))
      | .u32 | .u64 | .boolean => .ok (.unsigned (intValueUnsigned v.type v.data).toNat)
      | .float => .ok (.float v.data.toUInt32)
      | _ => .error "int/float/bool comparison internal error"
  | .python (.bool b) => .ok (.signed (if b then 1 else 0))
  | .python (.int v) =>
      if -2 ^ 63 ≤ v ∧ v < 2 ^ 63 then .ok (.signed v)
      else if 0 ≤ v ∧ v < 2 ^ 64 then .ok (.unsigned v.toNat)
      else .error "python long too big for comparison"
  | .python _ => .error "int/float/bool comparison internal error"

/-- The value that `pypointless_cmp_int_float_bool_priv` makes of a number. -/
def PyCmpNumber.complete : PyCmpNumber → CompleteValue
  | signed ii => completeI64 ii
  | unsigned uu => completeU64 uu
  | float ff => completeFloat ff

/-- `pypointless_cmp_int_float_bool_priv`; on numbers `pointless_cmp_reader_acyclic`
comes to `pointless_cmp_int_float`. -/
def pyCmpNumberPriv (a b : PyCmpNumber) : Int :=
  cmpIntFloat a.complete.type a.complete.data b.complete.type b.complete.data

/-- `pypointless_cmp_int_float_bool`. -/
def pyCmpIntFloatBool (a b : PyCmpValue) (error : Option String) : PyCmp :=
  match pyCmpNumberFromValue a with
  | .error message => (0, some message)
  | .ok nA =>
      if error.isSome then (0, error)
      else
        match pyCmpNumberFromValue b with
        | .error message => (0, some message)
        | .ok nB => (pyCmpNumberPriv nA nB, error)

/-! ## Vectors -/

/-- `pypointless_cmp_vector_n_items`. -/
def pyCmpVectorNItems : PyCmpValue → UInt32
  | .pointless _ _ _ sliceN => sliceN
  | .python (.list items) | .python (.tuple items) => UInt32.ofNat items.length
  | .python _ => 0

/-- `pypointless_cmp_vector_item_at`. -/
def pyCmpVectorItemAt (v : PyCmpValue) (i : UInt32) : Res PyCmpValue :=
  match v with
  | .pointless p v sliceI _ => do
      let item ← readerVectorValueCase p v.toValue (i + sliceI).toNat
      pyCmpValueInitPointless p item
  | .python (.list items) | .python (.tuple items) =>
      match items[i.toNat]? with
      | some item => .ok (.python item)
      | none => fault .outOfBounds
  | .python _ => fault .outOfBounds

/-- The loop of `pypointless_cmp_vector` over the positions that are left. -/
def pyCmpItems (rec : PyCmpValue → PyCmpValue → Option String → Res PyCmp) (a b : PyCmpValue) :
    List Nat → Option String → Res PyCmp
  | [], error => .ok (simpleCmp (pyCmpVectorNItems a) (pyCmpVectorNItems b), error)
  | i :: rest, error => do
      let vA ← pyCmpVectorItemAt a (UInt32.ofNat i)
      let vB ← pyCmpVectorItemAt b (UInt32.ofNat i)
      let (c, error) ← rec vA vB error
      if c ≠ 0 then pure (c, error) else pyCmpItems rec a b rest error

/-- `pypointless_cmp_vector`, over the comparison of items. -/
def pyCmpVector (rec : PyCmpValue → PyCmpValue → Option String → Res PyCmp) (a b : PyCmpValue)
    (error : Option String) : Res PyCmp :=
  pyCmpItems rec a b
    (List.range (min (pyCmpVectorNItems a).toNat (pyCmpVectorNItems b).toNat)) error

/-! ## Bitvectors -/

/-- `pypointless_cmp_bitvector_n_items`. -/
def pyCmpBitvectorNItems : PyCmpValue → Res UInt32
  | .pointless p v _ _ => readerBitvectorNBits p v.toValue
  | .python _ => fault .outOfBounds

/-- `pypointless_cmp_bitvector_item_at`. -/
def pyCmpBitvectorItemAt (v : PyCmpValue) (i : Nat) : Res Bool :=
  match v with
  | .pointless p v _ _ => readerBitvectorIsSet p v.toValue i
  | .python _ => fault .outOfBounds

/-- `pypointless_cmp_bitvector`. -/
def pyCmpBitvector (a b : PyCmpValue) (error : Option String) : Res PyCmp := do
  let nItemsA ← pyCmpBitvectorNItems a
  let nItemsB ← pyCmpBitvectorNItems b
  let c ← cmpSeq (fun i => do
      let vA ← pyCmpBitvectorItemAt a i
      let vB ← pyCmpBitvectorItemAt b i
      pure (simpleCmp vA.toNat vB.toNat))
    (simpleCmp nItemsA nItemsB) (List.range (min nItemsA.toNat nItemsB.toNat))
  pure (c, error)

/-! ## Operands of any kind -/

/-- The message of `pypointless_cmp_rec`. -/
def pyCmpTypesMessage : String := "comparison not supported between these types"

/-- The call of a callback, over the comparison of items. -/
def pyCmpCall (rec : PyCmpValue → PyCmpValue → Option String → Res PyCmp) (f : PyCmpFunc)
    (a b : PyCmpValue) (error : Option String) : Res PyCmp :=
  match f with
  | .stringUnicode => pyCmpStringUnicode a b error
  | .intFloatBool => .ok (pyCmpIntFloatBool a b error)
  | .none => .ok (0, error)
  | .vector => pyCmpVector rec a b error
  | .bitvector => pyCmpBitvector a b error

/-- `pypointless_cmp_rec`, with the levels that are left before `POINTLESS_MAX_DEPTH`. -/
def pyCmpRec : Nat → PyCmpValue → PyCmpValue → Option String → Res PyCmp
  | 0, _, _, _ => .ok (0, some "maximum recursion depth reached during comparison")
  | left + 1, a, b, error =>
      match pyCmpFunc a, pyCmpFunc b with
      | .ok cmpA, .ok cmpB =>
          if cmpA ≠ cmpB then .ok (0, some pyCmpTypesMessage)
          else pyCmpCall (pyCmpRec left) cmpA a b error
      -- the message of a missing callback is overwritten
      | _, _ => .ok (0, some pyCmpTypesMessage)

/-- `pypointless_cmp_eq`. -/
def pyCmpEq (p : OpenFile) (v : CompleteValue) (o : PyObject) : Res UInt32 := do
  let vA ← pyCmpValueInitPointless p v
  let (c, error) ← pyCmpRec maxDepth vA (pyCmpValueInitPython o) none
  match error with
  | some message => fail message
  | none => pure (if c = 0 then 1 else 0)

end Pointless
