import Pointless.Create

/-!
# Sequences of calls

The create API as a state machine: its calls, what a caller has to keep to, and the
states that sequences of calls lead to.
-/

namespace Pointless

/-! ## Calls -/

namespace NumberType

/-- The create function of a private vector. -/
def create : NumberType → Create → UInt32 × Create
  | i8 => createVectorI8
  | u8 => createVectorU8
  | i16 => createVectorI16
  | u16 => createVectorU16
  | i32 => createVectorI32
  | u32 => createVectorU32
  | i64 => createVectorI64
  | u64 => createVectorU64
  | float => createVectorFloat

/-- The append function, on the low bits of `v`. -/
def append (t : NumberType) (c : Create) (vector : UInt32) (v : UInt64) : Res (UInt32 × Create) :=
  match t with
  | i8 => createVectorI8Append c vector v.toUInt8
  | u8 => createVectorU8Append c vector v.toUInt8
  | i16 => createVectorI16Append c vector v.toUInt16
  | u16 => createVectorU16Append c vector v.toUInt16
  | i32 => createVectorI32Append c vector v.toUInt32
  | u32 => createVectorU32Append c vector v.toUInt32
  | i64 => createVectorI64Append c vector v
  | u64 => createVectorU64Append c vector v
  | float => createVectorFloatAppend c vector v.toUInt32

/-- The create function of a caller's vector. -/
def owner : NumberType → Create → List UInt8 → UInt32 → UInt32 × Create
  | i8 => createVectorI8Owner
  | u8 => createVectorU8Owner
  | i16 => createVectorI16Owner
  | u16 => createVectorU16Owner
  | i32 => createVectorI32Owner
  | u32 => createVectorU32Owner
  | i64 => createVectorI64Owner
  | u64 => createVectorU64Owner
  | float => createVectorFloatOwner

theorem create_eq (t : NumberType) (c : Create) :
    t.create c = createVectorPriv c t.vectorType t.size := by
  cases t <;> rfl

theorem owner_eq (t : NumberType) (c : Create) (items : List UInt8) (nItems : UInt32) :
    t.owner c items nItems = createVectorOwnerPriv c t.vectorType items nItems := by
  cases t <;> rfl

theorem vectorItemLen_vectorType (t : NumberType) : vectorItemLen t.vectorType = some t.size := by
  cases t <;> rfl

end NumberType

/-- The calls of the create API between `pointless_create_begin_*` and
`pointless_create_output_and_end_*`. -/
inductive Call where
  | setRoot (root : UInt32)
  | i32 (v : Int32)
  | u32 (v : UInt32)
  | float (bits : UInt32)
  | null
  | booleanTrue
  | booleanFalse
  | boolean (v : Int32)
  | emptySlot
  | unicodeUcs4 (v : List UInt32)
  | unicodeUcs2 (v : List UInt16)
  | unicodeAscii (v : List UInt8)
  | stringUcs4 (v : List UInt32)
  | stringUcs2 (v : List UInt16)
  | stringAscii (v : List UInt8)
  | bitvector (v : List UInt8) (nBits : UInt32)
  | bitvectorNoNormalize (v : List UInt8) (nBits : UInt32)
  | bitvectorCompressed (v : Value)
  | vectorValue
  | vectorNumber (t : NumberType)
  | vectorValueAppend (vector v : UInt32)
  | vectorNumberAppend (t : NumberType) (vector : UInt32) (v : UInt64)
  | vectorValueSet (vector i v : UInt32)
  | vectorU32Transfer (vector : UInt32) (v : List UInt32)
  | vectorValueTransfer (vector : UInt32) (v : List UInt32)
  | vectorOwner (t : NumberType) (items : List UInt8) (nItems : UInt32)
  | set
  | setAdd (s k : UInt32)
  | map
  | mapAdd (m k v : UInt32)
  deriving DecidableEq, Repr

/-- What a call answers, and the state after it. The two calls that return nothing
answer the handle they were given. -/
def Call.run (c : Create) : Call → Res (UInt32 × Create)
  | .setRoot root => .ok (root, createSetRoot c root)
  | .i32 v => .ok (createI32 c v)
  | .u32 v => .ok (createU32 c v)
  | .float bits => .ok (createFloat c bits)
  | .null => .ok (createNull c)
  | .booleanTrue => .ok (createBooleanTrue c)
  | .booleanFalse => .ok (createBooleanFalse c)
  | .boolean v => .ok (createBoolean c v)
  | .emptySlot => .ok (createEmptySlot c)
  | .unicodeUcs4 v => createUnicodeUcs4 c v
  | .unicodeUcs2 v => createUnicodeUcs2 c v
  | .unicodeAscii v => createUnicodeAscii c v
  | .stringUcs4 v => createStringUcs4 c v
  | .stringUcs2 v => createStringUcs2 c v
  | .stringAscii v => createStringAscii c v
  | .bitvector v nBits => createBitvector c v nBits
  | .bitvectorNoNormalize v nBits => createBitvectorNoNormalize c v nBits
  | .bitvectorCompressed v => .ok (createBitvectorCompressed c v)
  | .vectorValue => .ok (createVectorValue c)
  | .vectorNumber t => .ok (t.create c)
  | .vectorValueAppend vector v => createVectorValueAppend c vector v
  | .vectorNumberAppend t vector v => t.append c vector v
  | .vectorValueSet vector i v => do
      let c ← createVectorValueSet c vector i v
      pure (vector, c)
  | .vectorU32Transfer vector v => createVectorU32Transfer c vector v
  | .vectorValueTransfer vector v => createVectorValueTransfer c vector v
  | .vectorOwner t items nItems => .ok (t.owner c items nItems)
  | .set => createSet c
  | .setAdd s k => createSetAdd c s k
  | .map => createMap c
  | .mapAdd m k v => createMapAdd c m k v

/-! ## Valid calls -/

/-- A handle that a caller can have been given: it names a value, and not one of the
vectors that sets and maps keep to themselves. -/
def IsHandle (c : Create) (handle : UInt32) : Prop :=
  ∃ v, c.values[handle.toNat]? = some v ∧ v.isSetMapVector = false

/-- A handle of a value of the given type. -/
def IsHandleOf (c : Create) (type : ValueType) (handle : UInt32) : Prop :=
  ∃ v, c.values[handle.toNat]? = some v ∧ v.isSetMapVector = false ∧ v.type = type

/-- A handle of a private vector of the given type. -/
def IsVectorHandle (c : Create) (type : ValueType) (handle : UInt32) : Prop :=
  ∃ v, c.values[handle.toNat]? = some v ∧ v.isSetMapVector = false ∧ v.type = type ∧
    v.isOutsideVector = false

/-- The values that `pointless_create_bitvector_compressed` is for. -/
def IsInlineBitvector (v : Value) : Prop :=
  match v.type with
  | .bitvector0 | .bitvector1 | .bitvector01 | .bitvector10 => True
  | .bitvectorPacked => packedNBits v.data ≤ 27
  | _ => False

/-- What a caller has to keep to: handles are ones the API has returned, of the types
that the functions assert, strings are terminated, and buffers are as long as the
caller says. -/
def Call.Valid (c : Create) : Call → Prop
  | .setRoot root => IsHandle c root
  | .unicodeUcs4 v | .stringUcs4 v => 0 ∈ v
  | .unicodeUcs2 v | .stringUcs2 v => 0 ∈ v
  | .unicodeAscii v | .stringAscii v => 0 ∈ v
  | .bitvector v nBits | .bitvectorNoNormalize v nBits => iceil nBits.toNat 8 ≤ v.length
  | .bitvectorCompressed v => IsInlineBitvector v
  | .vectorValueAppend vector v => IsVectorHandle c .vectorValue vector ∧ IsHandle c v
  | .vectorNumberAppend t vector _ => IsVectorHandle c t.vectorType vector
  | .vectorValueSet vector i v =>
      IsVectorHandle c .vectorValue vector ∧ IsHandle c v ∧
        ∀ cv a, cvValueAt c vector = .ok cv → cvGetPrivVector c cv = .ok a → i.toNat < a.nItems
  | .vectorU32Transfer vector _ => IsVectorHandle c .vectorU32 vector
  | .vectorValueTransfer vector v =>
      IsVectorHandle c .vectorValue vector ∧ ∀ handle ∈ v, IsHandle c handle
  | .vectorOwner t items nItems => items.length = t.size * nItems.toNat
  | .setAdd s k => IsHandleOf c .setValue s ∧ IsHandle c k
  | .mapAdd m k v => IsHandleOf c .mapValueValue m ∧ IsHandle c k ∧ IsHandle c v
  | _ => True

/-- The states that sequences of valid calls lead to, each of which succeeded. -/
inductive CreateReachable : Create → Prop where
  | begin32 : CreateReachable createBegin32
  | begin64 : CreateReachable createBegin64
  | call {c c' : Create} {call : Call} {handle : UInt32} (before : CreateReachable c)
      (valid : call.Valid c) (run : call.run c = .ok (handle, c'))
      (succeeded : handle ≠ createValueFail) : CreateReachable c'

end Pointless
