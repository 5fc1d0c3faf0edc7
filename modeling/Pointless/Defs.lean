import Pointless.Lib.ByteMemory
import Pointless.Lib.ExceptRules

/-!
# Values, outcomes and memory reads

The value records of `pointless_defs.h` and the outcomes of the library's
functions.

A C function that may set `*error` is a function into `Res`: it returns, it
stops with the message it stored in `*error`, or it stops with a `Fault`. A
fault is what the C code has no defined behaviour for (a read outside the memory
it was given, a call through a null callback) and non-termination. Loops and
recursions that the code does not bound take a `fuel` argument and fault with
`diverges` when it runs out.

The extension is built with `-DNDEBUG`, so an `assert` is not a check: where one
fails, execution goes on with the statement that follows it.
-/

namespace Pointless

open ByteMemory

/-! ## Outcomes -/

/-- Behaviour the C code does not define, divergence, and a number of items that is taken
below zero. -/
inductive Fault where
  | outOfBounds
  | nullPointer
  | nullCallback
  | underflow
  | diverges
  deriving DecidableEq, Repr

/-- Why a function did not return: a fault, or the message left in `*error`. -/
inductive Stop where
  | fault (kind : Fault)
  | error (message : String)
  deriving DecidableEq, Repr

/-- The outcome of a function that may fail. -/
abbrev Res := Except Stop

/-- Stop with a fault. -/
def fault {α : Type} (kind : Fault) : Res α := .error (.fault kind)

/-- `*error = message; return 0`. -/
def fail {α : Type} (message : String) : Res α := .error (.error message)

/-! ## Limits -/

/-- `POINTLESS_MAX_DEPTH`. -/
def maxDepth : Nat := 512

/-- `UINT32_MAX`, which is also `POINTLESS_CREATE_VALUE_FAIL`. -/
def uint32Max : UInt32 := 0xffffffff

/-- `POINTLESS_CREATE_VALUE_FAIL`. -/
def createValueFail : UInt32 := uint32Max

/-! ## Value types -/

/-- The value types; `unknown` stands for a type field that holds none of the
codes of `pointless_defs.h`. -/
inductive ValueType where
  | vectorValue
  | vectorValueHashable
  | vectorI8
  | vectorU8
  | vectorI16
  | vectorU16
  | vectorI32
  | vectorU32
  | vectorFloat
  | vectorEmpty
  | unicode
  | bitvector
  | bitvector0
  | bitvector1
  | bitvector01
  | bitvector10
  | bitvectorPacked
  | setValue
  | mapValueValue
  | emptySlot
  | i32
  | u32
  | float
  | boolean
  | null
  | vectorI64
  | vectorU64
  | i64
  | u64
  | string
  | unknown (code : UInt32)
  deriving DecidableEq, Repr

/-- The `POINTLESS_*` code of a type. -/
def ValueType.code : ValueType → UInt32
  | vectorValue => 0
  | vectorValueHashable => 1
  | vectorI8 => 2
  | vectorU8 => 3
  | vectorI16 => 4
  | vectorU16 => 5
  | vectorI32 => 6
  | vectorU32 => 7
  | vectorFloat => 8
  | vectorEmpty => 9
  | unicode => 10
  | bitvector => 11
  | bitvector0 => 12
  | bitvector1 => 13
  | bitvector01 => 14
  | bitvector10 => 15
  | bitvectorPacked => 16
  | setValue => 17
  | mapValueValue => 18
  | emptySlot => 19
  | i32 => 20
  | u32 => 21
  | float => 22
  | boolean => 23
  | null => 24
  | vectorI64 => 25
  | vectorU64 => 26
  | i64 => 27
  | u64 => 28
  | string => 29
  | unknown code => code

/-- The type that a type field of a file stands for. -/
def ValueType.ofCode (code : UInt32) : ValueType :=
  match code.toNat with
  | 0 => vectorValue
  | 1 => vectorValueHashable
  | 2 => vectorI8
  | 3 => vectorU8
  | 4 => vectorI16
  | 5 => vectorU16
  | 6 => vectorI32
  | 7 => vectorU32
  | 8 => vectorFloat
  | 9 => vectorEmpty
  | 10 => unicode
  | 11 => bitvector
  | 12 => bitvector0
  | 13 => bitvector1
  | 14 => bitvector01
  | 15 => bitvector10
  | 16 => bitvectorPacked
  | 17 => setValue
  | 18 => mapValueValue
  | 19 => emptySlot
  | 20 => i32
  | 21 => u32
  | 22 => float
  | 23 => boolean
  | 24 => null
  | 25 => vectorI64
  | 26 => vectorU64
  | 27 => i64
  | 28 => u64
  | 29 => string
  | _ => unknown code

/-- A type that `pointless_defs.h` defines. -/
def ValueType.Known : ValueType → Prop
  | unknown _ => False
  | _ => True

theorem ValueType.ofCode_code {t : ValueType} (known : t.Known) : ofCode t.code = t := by
  cases t with
  | unknown code => exact known.elim
  | _ => rfl

/-- `pointless_is_vector_type`. -/
def isVectorType : ValueType → Bool
  | .vectorValue | .vectorValueHashable | .vectorI8 | .vectorU8 | .vectorI16 | .vectorU16
  | .vectorI32 | .vectorU32 | .vectorI64 | .vectorU64 | .vectorFloat | .vectorEmpty => true
  | _ => false

/-- `pointless_is_bitvector_type`. -/
def isBitvectorType : ValueType → Bool
  | .bitvector | .bitvector0 | .bitvector1 | .bitvector01 | .bitvector10
  | .bitvectorPacked => true
  | _ => false

/-- The bytes one item takes in a vector of this type, as the `sizeof`
switches over vector types have them; `none` where the switch asserts. -/
def vectorItemLen : ValueType → Option Nat
  | .vectorValue | .vectorValueHashable => some 8
  | .vectorI8 | .vectorU8 => some 1
  | .vectorI16 | .vectorU16 => some 2
  | .vectorI32 | .vectorU32 | .vectorFloat => some 4
  | .vectorI64 | .vectorU64 => some 8
  | _ => none

/-- The bytes of a character. -/
def charLen (t : ValueType) : Nat := if t = .unicode then 4 else 1

/-! ## Item types -/

/-- The item types of the typed vectors. -/
inductive NumberType where
  | i8
  | u8
  | i16
  | u16
  | i32
  | u32
  | i64
  | u64
  | float
  deriving DecidableEq, Repr

namespace NumberType

/-- The type of a vector of such items. -/
def vectorType : NumberType → ValueType
  | i8 => .vectorI8
  | u8 => .vectorU8
  | i16 => .vectorI16
  | u16 => .vectorU16
  | i32 => .vectorI32
  | u32 => .vectorU32
  | i64 => .vectorI64
  | u64 => .vectorU64
  | float => .vectorFloat

/-- The bytes of an item. -/
def size : NumberType → Nat
  | i8 | u8 => 1
  | i16 | u16 => 2
  | i32 | u32 | float => 4
  | i64 | u64 => 8

end NumberType

/-! ## Values -/

/-- `pointless_value_t`; `data` is the 32-bit union `pointless_value_data_t`. -/
structure Value where
  type : ValueType
  data : UInt32
  deriving DecidableEq, Repr

/-- `pointless_complete_value_t`; `data` is the 64-bit union. -/
structure CompleteValue where
  type : ValueType
  data : UInt64
  deriving DecidableEq, Repr

/-- `pointless_value_to_complete`. -/
def Value.toComplete (v : Value) : CompleteValue := ⟨v.type, v.data.toUInt64⟩

/-- `pointless_value_from_complete`. -/
def CompleteValue.toValue (v : CompleteValue) : Value := ⟨v.type, v.data.toUInt32⟩

@[simp] theorem Value.toValue_toComplete (v : Value) : v.toComplete.toValue = v := by
  cases v
  simp [Value.toComplete, CompleteValue.toValue]

@[simp] theorem Value.toComplete_type (v : Value) : v.toComplete.type = v.type := rfl

/-- `pointless_complete_value_create_as_read_i32`. -/
def completeI32 (v : Int) : CompleteValue := ⟨.i32, (UInt32.ofInt v).toUInt64⟩

/-- `pointless_complete_value_create_as_read_u32`. -/
def completeU32 (v : Int) : CompleteValue := ⟨.u32, (UInt32.ofInt v).toUInt64⟩

/-- `pointless_complete_value_create_as_read_i64`. -/
def completeI64 (v : Int) : CompleteValue := ⟨.i64, UInt64.ofInt v⟩

/-- `pointless_complete_value_create_as_read_u64`. -/
def completeU64 (v : Int) : CompleteValue := ⟨.u64, UInt64.ofInt v⟩

/-- `pointless_complete_value_create_as_read_float`. -/
def completeFloat (bits : UInt32) : CompleteValue := ⟨.float, bits.toUInt64⟩

/-- `pointless_complete_value_create_as_read_null`. -/
def completeNull : CompleteValue := ⟨.null, 0⟩

/-- `data_i32`. -/
def dataI32 (data : UInt32) : Int := data.toInt32.toInt

/-- `bitvector_packed.n_bits`, the low five bits. -/
def packedNBits (data : UInt32) : Nat := data.toNat % 32

/-- `bitvector_01_or_10.n_bits_a`, the low half. -/
def nBitsA (data : UInt32) : Nat := data.toNat % 65536

/-- `bitvector_01_or_10.n_bits_b`, the high half. -/
def nBitsB (data : UInt32) : Nat := data.toNat / 65536

/-- The C macro `SIMPLE_CMP`. -/
def simpleCmp {α : Type} [DecidableEq α] [LT α] [DecidableLT α] (a b : α) : Int :=
  if a = b then 0 else if a < b then -1 else 1

theorem simpleCmp_eq_zero {α : Type} [DecidableEq α] [LT α] [DecidableLT α] {a b : α} :
    simpleCmp a b = 0 ↔ a = b := by
  unfold simpleCmp
  split
  · simp [*]
  · split <;> simp [*]

@[simp] theorem simpleCmp_self {α : Type} [DecidableEq α] [LT α] [DecidableLT α] (a : α) :
    simpleCmp a a = 0 := simpleCmp_eq_zero.mpr rfl

theorem simpleCmp_int (a b : Int) : simpleCmp a b = (a - b).sign := by
  unfold simpleCmp
  split
  case isTrue same => rw [same, Int.sub_self, Int.sign_zero]
  case isFalse differ =>
    split
    case isTrue less => rw [Int.sign_eq_neg_one_of_neg (by omega)]
    case isFalse notLess => rw [Int.sign_eq_one_of_pos (by omega)]

theorem simpleCmp_u32 (a b : UInt32) : simpleCmp a b = ((a.toNat : Int) - b.toNat).sign := by
  rw [← simpleCmp_int]
  unfold simpleCmp
  simp only [← UInt32.toNat_inj, UInt32.lt_iff_toNat_lt, Nat.cast_inj, Nat.cast_lt]

/-- The macro `ICEIL`. -/
def iceil (a div : Nat) : Nat := if a % div ≠ 0 then a / div + 1 else a / div

/-! ## Memory reads -/

/-- Read a `w`-byte little-endian word. -/
def loadWord (w : Nat) (m : List UInt8) (off : Nat) : Res Nat :=
  match load w m off with
  | some n => .ok n
  | none => fault .outOfBounds

def loadU8 (m : List UInt8) (off : Nat) : Res UInt8 := UInt8.ofNat <$> loadWord 1 m off

def loadU32 (m : List UInt8) (off : Nat) : Res UInt32 := UInt32.ofNat <$> loadWord 4 m off

def loadU64 (m : List UInt8) (off : Nat) : Res UInt64 := UInt64.ofNat <$> loadWord 8 m off

/-- Read a `pointless_value_t`. -/
def loadValue (m : List UInt8) (off : Nat) : Res Value := do
  let type ← loadU32 m off
  let data ← loadU32 m (off + 4)
  pure ⟨ValueType.ofCode type, data⟩

/-- The two's complement reading of a `w`-byte word. -/
def toSigned (w n : Nat) : Int := if n < 2 ^ (8 * w - 1) then n else n - 2 ^ (8 * w)

namespace NumberType

/-- The number that the word of an item stands for; the bits of a float. -/
def toInt : NumberType → Nat → Int
  | i8, n => toSigned 1 n
  | i16, n => toSigned 2 n
  | i32, n => toSigned 4 n
  | i64, n => toSigned 8 n
  | u8, n | u16, n | u32, n | u64, n | float, n => n

/-- The word that `v` is stored in. -/
def toWord (t : NumberType) (v : Int) : Nat := (v % 2 ^ (8 * t.size)).toNat

end NumberType

theorem NumberType.toWord_lt (t : NumberType) (v : Int) : t.toWord v < 256 ^ t.size := by
  have power : (256 : Nat) ^ t.size = 2 ^ (8 * t.size) := by
    rw [Nat.pow_mul]
  have positive : (0 : Int) < 2 ^ (8 * t.size) := Int.pow_pos (by decide)
  have less := Int.emod_lt_of_pos v positive
  have least := Int.emod_nonneg v (ne_of_gt positive)
  rw [power, NumberType.toWord, Int.toNat_lt least]
  exact_mod_cast less

/-- The bytes of a `uint32_t`. -/
def bytesU32 (v : UInt32) : List UInt8 := encode 4 v.toNat

/-- The bytes of a `uint64_t`. -/
def bytesU64 (v : UInt64) : List UInt8 := encode 8 v.toNat

/-- The bytes of a `pointless_value_t`. -/
def bytesValue (v : Value) : List UInt8 := bytesU32 v.type.code ++ bytesU32 v.data

/-- A pointer into memory: `none` is the null pointer, `some m` points at the
first byte of `m` and reaches no further than `m` does. -/
abbrev Ptr := Option (List UInt8)

/-! ## Dynamic arrays -/

/-- `pointless_dynarray_t`: the bytes that one item takes, and the items as words. -/
structure Dynarray where
  itemSize : Nat
  items : List Nat
  deriving DecidableEq, Repr

/-- `pointless_dynarray_init`. -/
def Dynarray.init (itemSize : Nat) : Dynarray := ⟨itemSize, []⟩

/-- `pointless_dynarray_n_items`. -/
def Dynarray.nItems (a : Dynarray) : Nat := a.items.length

/-- `pointless_dynarray_push`. -/
def Dynarray.push (a : Dynarray) (item : Nat) : Dynarray := { a with items := a.items ++ [item] }

/-- `_data`, as far as there are items. -/
def Dynarray.data (a : Dynarray) : List UInt8 := (a.items.map (encode a.itemSize)).flatten

/-- `pointless_dynarray_ITEM_AT(uint32_t, a, i)`, whatever the items of `a` are. -/
def Dynarray.itemAtU32 (a : Dynarray) (i : Nat) : Res UInt32 := loadU32 a.data (4 * i)

/-- The items of an array are read back from its bytes. -/
theorem Dynarray.loadWord_data {w : Nat} {items : List Nat} (narrow : ∀ n ∈ items, n < 256 ^ w)
    {k : Nat} (less : k < items.length) :
    loadWord w (Dynarray.data ⟨w, items⟩) (w * k) = .ok items[k] := by
  have whole : Holds (Dynarray.data ⟨w, items⟩) 0 (items.map (encode w)).flatten :=
    ⟨Nat.zero_le _, List.prefix_refl _⟩
  have wide : ∀ item ∈ items.map (encode w), item.length = w := by
    intro item mem
    obtain ⟨n, -, rfl⟩ := List.mem_map.mp mem
    exact length_encode w n
  have here : (items.map (encode w))[k]? = some (encode w items[k]) := by
    rw [List.getElem?_map, List.getElem?_eq_getElem less, Option.map_some]
  have loaded := (whole.item wide here).load_encode
  rw [Nat.zero_add, Nat.mod_eq_of_lt (narrow _ (List.getElem_mem less))] at loaded
  rw [loadWord, loaded]

/-! ## Bitmasks -/

/-- A bitmask from `pointless_calloc(ICEIL(n, 8), 1)`: its size, and which of its
bits have been set. -/
structure Bitmask where
  nBytes : Nat
  bits : List Nat
  deriving DecidableEq, Repr

/-- A zeroed bitmask for `n` bits. -/
def Bitmask.calloc (n : Nat) : Bitmask := ⟨iceil n 8, []⟩

/-- `bm_is_set_` on an allocated bitmask. -/
def Bitmask.isSet (m : Bitmask) (i : Nat) : Res Bool :=
  if i / 8 < m.nBytes then .ok (m.bits.contains i) else fault .outOfBounds

/-- `bm_set_` on an allocated bitmask. -/
def Bitmask.set (m : Bitmask) (i : Nat) : Res Bitmask :=
  if i / 8 < m.nBytes then .ok { m with bits := i :: m.bits } else fault .outOfBounds

end Pointless
