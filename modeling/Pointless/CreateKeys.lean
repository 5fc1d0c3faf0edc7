import Pointless.Create
import Pointless.HashTable

/-!
# Hashes and comparison at create time

The create-time halves of `pointless_hash.c` and `pointless_cmp.c`, which work on
the values of a `Create`.
-/

namespace Pointless

open ByteMemory

/-! ## Accessors of `pointless_value.c` -/

/-- `pointless_get_int_as_int64` and `pointless_create_get_int_as_int64`: whatever
is not an `I32` is read as a `U32`. -/
def createGetIntAsInt64 (v : CreateValue) : Int :=
  if v.type = .i32 then dataI32 v.data else v.data.toNat

/-- `pointless_complete_create_value_t`. -/
structure CompleteCreateValue where
  type : ValueType
  isCompressedVector : Bool
  isSetMapVector : Bool
  isOutsideVector : Bool
  data : UInt64
  deriving DecidableEq, Repr

/-- `pointless_create_value_to_complete`. -/
def CreateValue.toComplete (v : CreateValue) : CompleteCreateValue :=
  ⟨v.type, v.isCompressedVector, v.isSetMapVector, v.isOutsideVector, v.data.toUInt64⟩

/-- `pointless_create_value_from_complete`. -/
def CompleteCreateValue.toCreateValue (v : CompleteCreateValue) : CreateValue :=
  ⟨v.type, v.isCompressedVector, v.isSetMapVector, v.isOutsideVector, v.data.toUInt32⟩

@[simp] theorem CreateValue.toCreateValue_toComplete (v : CreateValue) :
    v.toComplete.toCreateValue = v := by
  cases v
  simp [CreateValue.toComplete, CompleteCreateValue.toCreateValue]

@[simp] theorem CreateValue.toComplete_type (v : CreateValue) : v.toComplete.type = v.type := rfl

/-- The `pointless_complete_value_create_*` functions. -/
def completeCreate (v : CompleteValue) : CompleteCreateValue := ⟨v.type, false, false, false, v.data⟩

section Create

variable (c : Create)

/-- The `items` and `n_items` of a vector. -/
def createVectorItems (v : CreateValue) : Res (List UInt8 × UInt32) :=
  if v.isOutsideVector then do
    let vector ← cvGetOutsideVector c v
    pure (vector.items, vector.nItems)
  else do
    let vector ← cvGetPrivVector c v
    pure (vector.data, UInt32.ofNat vector.nItems)

/-! ## Hashes -/

/-- The item switch of `pointless_hash_create_vector_32` for a vector of handles
that has been compressed. -/
def hashCreateCompressedItem (v : CreateValue) (items : List UInt8) (i : Nat) : Res UInt32 := do
  let handle ← loadU32 items (4 * i)
  let vv ← cvValueAt c handle
  match v.type with
  | .vectorI8 | .vectorI16 | .vectorI32 | .vectorU8 | .vectorU16 | .vectorU32 =>
      pure (hashInt32 (createGetIntAsInt64 vv))
  | .vectorFloat => pure (hashFloat32 vv.data)
  | _ => pure 0

/-- The item switch of `pointless_hash_create_vector_32` for every other vector. -/
def hashCreateNativeItem (rec : CreateValue → Res UInt32) (v : CreateValue) (items : List UInt8)
    (i : Nat) : Res UInt32 :=
  match v.type with
  | .vectorValueHashable => do
      let handle ← loadU32 items (4 * i)
      let vv ← cvValueAt c handle
      rec vv
  | .vectorI8 => (fun n => hashInt32 (toSigned 1 n)) <$> loadWord 1 items (1 * i)
  | .vectorU8 => (fun n => hashInt32 (Int.ofNat n)) <$> loadWord 1 items (1 * i)
  | .vectorI16 => (fun n => hashInt32 (toSigned 2 n)) <$> loadWord 2 items (2 * i)
  | .vectorU16 => (fun n => hashInt32 (Int.ofNat n)) <$> loadWord 2 items (2 * i)
  | .vectorI32 => (fun n => hashInt32 (toSigned 4 n)) <$> loadWord 4 items (4 * i)
  | .vectorU32 => (fun n => hashInt32 (Int.ofNat n)) <$> loadWord 4 items (4 * i)
  | .vectorI64 => (fun n => hashInt32 (toSigned 8 n)) <$> loadWord 8 items (8 * i)
  | .vectorU64 => (fun n => hashInt32 (Int.ofNat n)) <$> loadWord 8 items (8 * i)
  | .vectorFloat => (fun n => hashFloat32 (UInt32.ofNat n)) <$> loadWord 4 items (4 * i)
  | _ => .ok 0

/-- `pointless_hash_create_vector_32`. -/
def hashCreateVector32 (rec : CreateValue → Res UInt32) (v : CreateValue) : Res UInt32 := do
  let (items, nItems) ← createVectorItems c v
  vectorHash32 nItems (List.range nItems.toNat) fun i =>
    if v.isCompressedVector then hashCreateCompressedItem c v items i
    else hashCreateNativeItem c rec v items i

/-- The buffer of a bitvector, which is null unless its bits are on the heap. -/
def createBitvectorPtr (v : CreateValue) : Res Ptr :=
  if v.type = .bitvector then some <$> cvGetBitvector c v else .ok none

/-- `pointless_hash_create_32`. Its switch `pointless_hash_create_func_32` has the
cases of `pointless_hash_reader_func_32`. -/
def hashCreate32 : Nat → CreateValue → Res UInt32
  | 0, _ => fault .diverges
  | fuel + 1, v =>
      match hashFunc32 v.type with
      | some .unicode => do
          let buffer ← cvGetStringUnicode c v
          hashUnicodeUcs4V132 (buffer.drop 4)
      | some .string => do
          let buffer ← cvGetStringUnicode c v
          hashStringV132 (buffer.drop 4)
      | some .int => .ok v.data
      | some .float => .ok (hashFloat32 v.data)
      | some .bitvector => do
          let buffer ← createBitvectorPtr c v
          bitvectorHash32 v.type v.data buffer
      | some .null => .ok 0
      | some .vector => hashCreateVector32 c (hashCreate32 fuel) v
      | some .emptySlot => .ok 0
      | none => fault .nullCallback

/-! ## Comparison -/

/-- `pointless_cmp_create_func`; `none` is the null callback. Unlike
`pointless_cmp_reader_func` it has no case for 64-bit integers. -/
def cmpCreateFunc : ValueType → Option CmpFunc
  | .unicode | .string => some .stringUnicode
  | .i32 | .u32 | .boolean | .float => some .intFloat
  | .bitvector | .bitvector0 | .bitvector1 | .bitvector01 | .bitvector10 | .bitvectorPacked =>
      some .bitvector
  | .null => some .null
  | .vectorValue | .vectorValueHashable | .vectorI8 | .vectorU8 | .vectorI16 | .vectorU16
  | .vectorI32 | .vectorU32 | .vectorI64 | .vectorU64 | .vectorFloat | .vectorEmpty =>
      some .vector
  | .setValue => some .set
  | .mapValueValue => some .map
  | .emptySlot => some .emptySlot
  | _ => none

/-- The switch of `pointless_cmp_vector_value_create` for a caller's vector with the
memory `items`. -/
def cmpVectorValueOutside (v : CompleteCreateValue) (items : List UInt8) (i : Nat) :
    Res CompleteCreateValue :=
  match v.type with
  | .vectorI8 => (fun n => completeCreate (completeI32 (toSigned 1 n))) <$> loadWord 1 items (1 * i)
  | .vectorU8 => (fun n => completeCreate (completeU32 (Int.ofNat n))) <$> loadWord 1 items (1 * i)
  | .vectorI16 => (fun n => completeCreate (completeI32 (toSigned 2 n))) <$> loadWord 2 items (2 * i)
  | .vectorU16 => (fun n => completeCreate (completeU32 (Int.ofNat n))) <$> loadWord 2 items (2 * i)
  | .vectorI32 => (fun n => completeCreate (completeI32 (toSigned 4 n))) <$> loadWord 4 items (4 * i)
  | .vectorU32 => (fun n => completeCreate (completeU32 (Int.ofNat n))) <$> loadWord 4 items (4 * i)
  | .vectorI64 => (fun n => completeCreate (completeI64 (toSigned 8 n))) <$> loadWord 8 items (8 * i)
  | .vectorU64 => (fun n => completeCreate (completeU64 (Int.ofNat n))) <$> loadWord 8 items (8 * i)
  | .vectorFloat =>
      (fun n => completeCreate (completeFloat (UInt32.ofNat n))) <$> loadWord 4 items (4 * i)
  | _ => .ok { v with type := .null, data := 0 }

/-- `pointless_cmp_vector_value_create`. Every vector that is not the caller's is
read as one of handles. -/
def cmpVectorValueCreate (v : CompleteCreateValue) (i : Nat) : Res CompleteCreateValue :=
  if v.isOutsideVector then do
    let vector ← cvGetOutsideVector c v.toCreateValue
    cmpVectorValueOutside v vector.items i
  else do
    let vector ← cvGetPrivVector c v.toCreateValue
    let j ← vector.itemAtU32 i
    CreateValue.toComplete <$> cvValueAt c j

/-- `pointless_cmp_create_rec_priv`. Both callbacks are looked up under the type of
the first operand, so that they never differ. -/
def cmpCreateRecPriv : Nat → CompleteCreateValue → CompleteCreateValue → Nat → Res Int
  | 0, _, _, _ => fault .diverges
  | fuel + 1, a, b, depth =>
      if maxDepth ≤ depth then fail "maximum recursion depth reached during comparison"
      else if cmpCreateFunc a.type ≠ cmpCreateFunc a.type then
        .ok (simpleCmp a.type.code b.type.code)
      else
        match cmpCreateFunc a.type with
        | some .stringUnicode =>
            cmpStringUnicode a.type b.type
              (List.drop 4 <$> cvGetStringUnicode c a.toCreateValue)
              (List.drop 4 <$> cvGetStringUnicode c b.toCreateValue)
        | some .intFloat => .ok (cmpIntFloat a.type a.data b.type b.data)
        | some .bitvector => do
            let bufferA ← createBitvectorPtr c a.toCreateValue
            let bufferB ← createBitvectorPtr c b.toCreateValue
            bitvectorCmpBufferBuffer a.type a.toCreateValue.data bufferA
              b.type b.toCreateValue.data bufferB
        | some .null => .ok 0
        | some .vector => do
            let (_, nItemsA) ← createVectorItems c a.toCreateValue
            let (_, nItemsB) ← createVectorItems c b.toCreateValue
            cmpSeq (fun i => do
                let cA ← cmpVectorValueCreate c a i
                let cB ← cmpVectorValueCreate c b i
                cmpCreateRecPriv fuel cA cB (depth + 2))
              (simpleCmp nItemsA nItemsB) (List.range (min nItemsA.toNat nItemsB.toNat))
        | some .set => fail "set comparison not implemented yet"
        | some .map => fail "map comparison not implemented yet"
        | some .emptySlot => .ok 0
        | none => fault .nullCallback

/-- `pointless_cmp_create`. The depth check bounds the recursion, so that the fuel
here is never used up. -/
def cmpCreate (a b : UInt32) : Res Int := do
  let vA ← cvValueAt c a
  let vB ← cvValueAt c b
  cmpCreateRecPriv c (maxDepth + 1) vA.toComplete vB.toComplete 0

end Create

end Pointless
