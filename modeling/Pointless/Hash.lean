import Pointless.Float
import Pointless.Reader

/-!
# Hashes

`pointless_hash.c`: the 32-bit hashes of strings, numbers and vectors, and the
recursive hash of a value in an opened file.
-/

namespace Pointless

/-! ## Zero-terminated strings -/

/-- The characters of an ASCII string, to the end of the memory it lies in. -/
def chars8 (m : List UInt8) : List UInt32 := m.map UInt8.toUInt32

/-- The characters of a UCS4 string, to the end of the memory it lies in. -/
def chars32 : List UInt8 → List UInt32
  | b0 :: b1 :: b2 :: b3 :: rest =>
      UInt32.ofNat (ByteMemory.decode [b0, b1, b2, b3]) :: chars32 rest
  | _ => []

/-- The loop of `PYTHON_STRING_HASH_32`, which runs to the terminator. -/
def stringHashLoop (x : UInt32) (len : Nat) : List UInt32 → Res UInt32
  | [] => fault .outOfBounds
  | c :: rest =>
      if c = 0 then .ok (x ^^^ UInt32.ofNat len)
      else stringHashLoop ((1000003 * x) ^^^ c) (len + 1) rest

/-- `PYTHON_STRING_HASH_32`. -/
def stringHash32 (s : List UInt32) : Res UInt32 :=
  match s with
  | [] => fault .outOfBounds
  | c :: _ => stringHashLoop (c <<< 7) 0 s

/-- `pointless_hash_string_v1_32`. -/
def hashStringV132 (s : List UInt8) : Res UInt32 := stringHash32 (chars8 s)

/-- `pointless_hash_unicode_ucs4_v1_32`. -/
def hashUnicodeUcs4V132 (s : List UInt8) : Res UInt32 := stringHash32 (chars32 s)

/-! ## Integers -/

/-- `pointless_hash_i32_32` and `pointless_hash_u32_32`, with the cast to 32 bits
that every caller applies. -/
def hashInt32 (v : Int) : UInt32 := UInt32.ofInt v

/-- `pointless_hash_i64_32`: the remainder by `UINT32_MAX`, not the low half. -/
def hashI6432 (v : Int) : UInt32 := UInt32.ofNat ((UInt64.ofInt v).toNat % uint32Max.toNat)

/-- `pointless_hash_u64_32`. -/
def hashU6432 (v : Int) : UInt32 := UInt32.ofNat ((UInt64.ofInt v).toNat % uint32Max.toNat)

/-! ## Vectors -/

/-- `pointless_vector_hash_state_32_t`. -/
structure VectorHashState32 where
  mult : UInt32
  x : UInt32
  len : UInt32
  deriving DecidableEq, Repr

/-- `pointless_vector_hash_init_32`. -/
def vectorHashInit32 (len : UInt32) : VectorHashState32 := ⟨1000003, 0x345678, len⟩

/-- `pointless_vector_hash_next_32`. -/
def vectorHashNext32 (s : VectorHashState32) (hash : UInt32) : VectorHashState32 :=
  { s with x := (s.x ^^^ hash) * s.mult, mult := s.mult + (82520 + s.len + s.len) }

/-- `pointless_vector_hash_end_32`. -/
def vectorHashEnd32 (s : VectorHashState32) : UInt32 := s.x + 97531

/-- The loop of the two vector hashes over the item hashes `item i`. -/
def vectorHash32 (len : UInt32) (indices : List Nat) (item : Nat → Res UInt32) : Res UInt32 := do
  let s ← indices.foldlM (fun s i => vectorHashNext32 s <$> item i) (vectorHashInit32 len)
  pure (vectorHashEnd32 s)

/-! ## Dispatch on the type -/

/-- The callbacks of `pointless_hash_reader_func_32`, which the create-time
`pointless_hash_create_func_32` mirrors case by case. -/
inductive HashFunc where
  | unicode
  | string
  | int
  | float
  | bitvector
  | null
  | vector
  | emptySlot
  deriving DecidableEq, Repr

/-- `pointless_hash_reader_func_32`; `none` is the null callback. -/
def hashFunc32 : ValueType → Option HashFunc
  | .unicode => some .unicode
  | .string => some .string
  | .i32 | .u32 | .boolean => some .int
  | .float => some .float
  | .bitvector | .bitvector0 | .bitvector1 | .bitvector01 | .bitvector10 | .bitvectorPacked =>
      some .bitvector
  | .null => some .null
  | .vectorValue => none
  | .vectorValueHashable | .vectorI8 | .vectorU8 | .vectorI16 | .vectorU16 | .vectorI32
  | .vectorU32 | .vectorI64 | .vectorU64 | .vectorFloat | .vectorEmpty => some .vector
  | .setValue | .mapValueValue => none
  | .emptySlot => some .emptySlot
  | _ => none

/-- `pointless_is_hashable`. -/
def isHashable (t : ValueType) : Bool := (hashFunc32 t).isSome

/-- The item switch of `pointless_hash_reader_vector_32_priv`. -/
def hashReaderVectorItem (rec : Value → Res UInt32) (p : OpenFile) (v : Value) (i : Nat) :
    Res UInt32 :=
  match v.type with
  | .vectorValueHashable => do
      let item ← readerVectorValue p v i
      rec item
  | .vectorI8 => hashInt32 <$> readerVectorI8 p v i
  | .vectorU8 => hashInt32 <$> readerVectorU8 p v i
  | .vectorI16 => hashInt32 <$> readerVectorI16 p v i
  | .vectorU16 => hashInt32 <$> readerVectorU16 p v i
  | .vectorI32 => hashInt32 <$> readerVectorI32 p v i
  | .vectorU32 => hashInt32 <$> readerVectorU32 p v i
  | .vectorI64 => hashInt32 <$> readerVectorI64 p v i
  | .vectorU64 => hashInt32 <$> readerVectorU64 p v i
  | .vectorFloat => hashFloat32 <$> readerVectorFloat p v i
  | _ => .ok 0

/-- `pointless_hash_reader_vector_32_priv`: `nItems` items from `offset` on. -/
def hashReaderVector32Priv (rec : Value → Res UInt32) (p : OpenFile) (v : Value)
    (offset nItems : UInt32) : Res UInt32 :=
  vectorHash32 nItems (List.range' offset.toNat ((nItems + offset).toNat - offset.toNat))
    (hashReaderVectorItem rec p v)

/-- `pointless_hash_reader_32`. -/
def hashReader32 (p : OpenFile) : Nat → Value → Res UInt32
  | 0, _ => fault .diverges
  | fuel + 1, v =>
      match hashFunc32 v.type with
      | some .unicode => do
          let s ← readerStringUnicodeValue p v
          hashUnicodeUcs4V132 s
      | some .string => do
          let s ← readerStringUnicodeValue p v
          hashStringV132 s
      | some .int => .ok v.data
      | some .float => .ok (hashFloat32 v.data)
      | some .bitvector => do
          let buffer ← readerBitvectorPtr p v
          bitvectorHash32 v.type v.data buffer
      | some .null => .ok 0
      | some .vector => do
          let nItems ← readerVectorNItems p v
          hashReaderVector32Priv (hashReader32 p fuel) p v 0 nItems
      | some .emptySlot => .ok 0
      | none => fault .nullCallback

/-- `pointless_hash_reader_vector_32`: the hash of `n` items from `i` on. -/
def hashReaderVector32 (fuel : Nat) (p : OpenFile) (v : Value) (i n : UInt32) : Res UInt32 :=
  hashReaderVector32Priv (hashReader32 p fuel) p v i n

end Pointless
