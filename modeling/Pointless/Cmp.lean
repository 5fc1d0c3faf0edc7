import Pointless.Hash

/-!
# Comparison

`pointless_cmp.c`: the comparison of two values of opened files.
-/

namespace Pointless

/-! ## Strings -/

/-- `POINTLESS_CMP_STRING`, on the characters from the two pointers on. -/
def cmpString : List UInt32 → List UInt32 → Res Int
  | a :: as, b :: bs =>
      if a = b then
        if a = 0 then .ok 0 else cmpString as bs
      else .ok (simpleCmp a b)
  | _, _ => fault .outOfBounds

/-- The characters a string or unicode pointer leads to. -/
def stringChars (t : ValueType) (m : List UInt8) : List UInt32 :=
  if t = .unicode then chars32 m else chars8 m

/-- The four cases of `pointless_cmp_reader_string_unicode` and of
`pointless_cmp_create_string_unicode`; any other pair of types falls through an
`assert(0)` to `return 0`. -/
def cmpStringUnicode (tA tB : ValueType) (a b : Res (List UInt8)) : Res Int :=
  if (tA = .unicode ∨ tA = .string) ∧ (tB = .unicode ∨ tB = .string) then do
    let a ← a
    let b ← b
    cmpString (stringChars tA a) (stringChars tB b)
  else .ok 0

/-! ## Integers and floats -/

/-- `pointless_is_signed`. -/
def isSigned : ValueType → Bool
  | .i32 | .i64 | .boolean => true
  | _ => false

/-- `pointless_int_value_signed`, through `pointless_complete_value_get_as_i64`. -/
def intValueSigned (t : ValueType) (data : UInt64) : Int :=
  match t with
  | .i32 => dataI32 data.toUInt32
  | .boolean => data.toUInt32.toNat
  | .i64 => data.toInt64.toInt
  | _ => 0

/-- `pointless_int_value_unsigned`, through `pointless_complete_value_get_as_u64`. -/
def intValueUnsigned (t : ValueType) (data : UInt64) : Int :=
  match t with
  | .u32 | .boolean => data.toUInt32.toNat
  | .u64 => data.toNat
  | _ => 0

/-- The operand a value is read as next to a float. -/
def floatSide (t : ValueType) (data : UInt64) : FloatOperand :=
  if t = .float then floatOperand data.toUInt32
  else if isSigned t then intOperand (intValueSigned t data)
  else intOperand (intValueUnsigned t data)

/-- `pointless_cmp_int_float`. -/
def cmpIntFloat (tA : ValueType) (a : UInt64) (tB : ValueType) (b : UInt64) : Int :=
  if tA = .float ∨ tB = .float then cmpFloat (floatSide tA a) (floatSide tB b)
  else
    match isSigned tA, isSigned tB with
    | true, true => simpleCmp (intValueSigned tA a) (intValueSigned tB b)
    | false, false => simpleCmp (intValueUnsigned tA a) (intValueUnsigned tB b)
    | true, false =>
        if intValueSigned tA a < 0 then -1
        else simpleCmp (intValueSigned tA a) (intValueUnsigned tB b)
    | false, true =>
        if intValueSigned tB b < 0 then -1
        else simpleCmp (intValueUnsigned tA a) (intValueSigned tB b)

/-! ## Dispatch on the type -/

/-- The callbacks of `pointless_cmp_reader_func` and `pointless_cmp_create_func`. -/
inductive CmpFunc where
  | stringUnicode
  | intFloat
  | bitvector
  | null
  | vector
  | set
  | map
  | emptySlot
  deriving DecidableEq, Repr

/-- `pointless_cmp_reader_func`; `none` is the null callback. -/
def cmpReaderFunc : ValueType → Option CmpFunc
  | .unicode | .string => some .stringUnicode
  | .i32 | .u32 | .i64 | .u64 | .boolean | .float => some .intFloat
  | .bitvector | .bitvector0 | .bitvector1 | .bitvector01 | .bitvector10 | .bitvectorPacked =>
      some .bitvector
  | .null => some .null
  | .vectorValue | .vectorValueHashable | .vectorI8 | .vectorU8 | .vectorI16 | .vectorU16
  | .vectorI32 | .vectorU32 | .vectorI64 | .vectorU64 | .vectorFloat | .vectorEmpty =>
      some .vector
  | .setValue => some .set
  | .mapValueValue => some .map
  | .emptySlot => some .emptySlot
  | .unknown _ => none

/-- `*error = message`, which dereferences the null pointer of the acyclic
comparison. -/
def cmpFail {α : Type} (hasError : Bool) (message : String) : Res α :=
  if hasError then fail message else fault .nullPointer

/-- `pointless_cmp_reader_rec`. Without an `error` pointer there is no depth
check, and the test `*error != 0` after an equal pair of items reads the null
pointer. -/
def cmpReaderRec (hasError : Bool) (pA pB : OpenFile) :
    Nat → CompleteValue → CompleteValue → Nat → Res Int
  | 0, _, _, _ => fault .diverges
  | fuel + 1, a, b, depth =>
      if hasError ∧ maxDepth ≤ depth then
        fail "maximum recursion depth reached during comparison"
      else if cmpReaderFunc a.type ≠ cmpReaderFunc b.type then
        .ok (simpleCmp a.type.code b.type.code)
      else
        match cmpReaderFunc a.type with
        | some .stringUnicode =>
            cmpStringUnicode a.type b.type (readerStringUnicodeValue pA a.toValue)
              (readerStringUnicodeValue pB b.toValue)
        | some .intFloat => .ok (cmpIntFloat a.type a.data b.type b.data)
        | some .bitvector => do
            let bufferA ← readerBitvectorPtr pA a.toValue
            let bufferB ← readerBitvectorPtr pB b.toValue
            bitvectorCmpBufferBuffer a.type a.toValue.data bufferA b.type b.toValue.data bufferB
        | some .null => .ok 0
        | some .vector => do
            let nItemsA ← readerVectorNItems pA a.toValue
            let nItemsB ← readerVectorNItems pB b.toValue
            cmpSeq (fun i => do
                let cA ← readerVectorValueCase pA a.toValue i
                let cB ← readerVectorValueCase pB b.toValue i
                let cc ← cmpReaderRec hasError pA pB fuel cA cB (depth + 2)
                if cc = 0 ∧ ¬hasError then fault .nullPointer else pure cc)
              (simpleCmp nItemsA nItemsB) (List.range (min nItemsA.toNat nItemsB.toNat))
        | some .set => cmpFail hasError "set comparison not implemented yet"
        | some .map => cmpFail hasError "map comparison not implemented yet"
        | some .emptySlot => .ok 0
        | none => fault .nullCallback

/-- `pointless_cmp_reader`. The depth check bounds the recursion, so that the
fuel here is never used up. -/
def cmpReader (pA : OpenFile) (a : CompleteValue) (pB : OpenFile) (b : CompleteValue) : Res Int :=
  cmpReaderRec true pA pB (maxDepth + 1) a b 0

end Pointless
