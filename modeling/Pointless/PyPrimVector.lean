import Pointless.IntOps
import Pointless.PyFileVector
import Pointless.PySortProj
import Pointless.VectorCompression

/-!
# The PrimVector object

`pointless_prim_vector.c` of the Python extension, with the dynamic array of
`pointless_dynarray.c` on the heap: an array of numbers of one type that grows, and
whose memory may be exported as a buffer.

A method returns what Python sees, a result or the message of an exception, together
with the object's new state. Which requests of memory are served is up to `alloc`, which
is asked with the number of earlier requests of the array and the bytes that are wanted.
A block of memory goes by the number of the request that it came from. Whether growing
leaves the bytes where they are is of account to one loop only, which is told.
-/

namespace Pointless

open PyList

/-! ## The array on the heap -/

/-- `pointless_dynarray_t` with its allocation: `_data` is null or points to a block. -/
structure HeapArray extends Dynarray where
  nAlloc : Nat
  block : Option Nat
  requests : Nat
  deriving DecidableEq, Repr

/-- Whether a request of so many bytes is served, after so many earlier ones. -/
abbrev Allocator := Nat → Nat → Bool

namespace HeapArray

/-- `pointless_dynarray_init`. -/
def init (a : HeapArray) (itemSize : Nat) : HeapArray :=
  { a with itemSize := itemSize, items := [], nAlloc := 0, block := none }

/-- `pointless_dynarray_clear`, and `pointless_dynarray_destroy`, which differ in nothing
but that the first sets the item size again. -/
def clear (a : HeapArray) : HeapArray := a.init a.itemSize

/-- `next_size`. -/
def nextSize (nAlloc : Nat) : IntopU64 :=
  let smallAdd := [1, 1, 2, 2, 4, 4, 4, 8, 8, 10, 11, 12, 13, 14, 15, 16]
  let a := nAlloc / 16
  let b := nAlloc
  let c := if nAlloc < 16 then smallAdd.getD nAlloc 0 else 0
  intopU64Add (intopU64Add (intopU64Init (UInt64.ofNat a)) (intopU64Init (UInt64.ofNat b)))
    (intopU64Init (UInt64.ofNat c))

/-- The bytes that growing asks for; `none` where their number overflows. -/
def nextBytes (a : HeapArray) : Option Nat :=
  let nextNBytes := intopU64Mult (nextSize a.nAlloc) (intopU64Init (UInt64.ofNat a.itemSize))
  if nextNBytes.isOverflow then none else some nextNBytes.value.toNat

/-- `pointless_dynarray_grow`. -/
def grow (alloc : Allocator) (a : HeapArray) : Bool × HeapArray :=
  match a.nextBytes with
  | none => (false, a)
  | some nBytes =>
      if alloc a.requests nBytes then
        (true, { a with
          nAlloc := (nextSize a.nAlloc).value.toNat
          block := some a.requests
          requests := a.requests + 1 })
      else (false, { a with requests := a.requests + 1 })

/-- The loop of `pointless_dynarray_push_bulk` for one item: each round gains room for an
item at least, so that one round is enough. -/
def reserve (alloc : Allocator) (a : HeapArray) : Bool × HeapArray :=
  if a.nAlloc < a.items.length + 1 then a.grow alloc else (true, a)

/-- `pointless_dynarray_push`, where the item is copied once there is room for it: whether
it was pushed. -/
def push (alloc : Allocator) (a : HeapArray) (item : HeapArray → Res Nat) :
    Res (Bool × HeapArray) :=
  match a.reserve alloc with
  | (false, a) => .ok (false, a)
  | (true, a) => do
      let word ← item a
      pure (true, { a with items := a.items ++ [word] })

/-- `pointless_dynarray_pop`. -/
def pop (a : HeapArray) : HeapArray := { a with items := a.items.dropLast }

/-- `pop` done so many times. -/
def popN (a : HeapArray) (n : Nat) : HeapArray := n.repeat pop a

/-- The loop that pops what was appended. It does not look whether there is an item left, and
`n_items` is a `size_t`. -/
def popMany (a : HeapArray) (n : Nat) : Res HeapArray :=
  if n ≤ a.items.length then .ok (a.popN n) else fault .underflow

/-- `pointless_dynarray_item_at`, dereferenced for `w` bytes. -/
def itemAt (a : HeapArray) (w i : Nat) : Res Nat := loadWord w a.data (a.itemSize * i)

/-- `pointless_dynarray_swap`. -/
def swap (a : HeapArray) (i j : Nat) : Res HeapArray :=
  if i < a.items.length ∧ j < a.items.length then
    .ok { a with items := InPlace.exchange i j a.items }
  else fault .outOfBounds

end HeapArray

/-! ## Types and numbers -/

/-- A Python number; a float is the bits of the C float that it is converted to. -/
inductive PyNumber where
  | int (v : Int)
  | float (bits : UInt32)
  deriving DecidableEq, Repr

/-- An object given to a method: a number (`True` and `False` are integers), or any other. -/
abbrev PyOperand := Option PyNumber

/-- A result, or the message of the exception that was raised. -/
abbrev Raises (α : Type) := Except String α

/-- An exception is a part of the outcome; a fault is not. -/
def attempt {α : Type} : Res α → Res (Raises α)
  | .ok a => .ok (.ok a)
  | .error (.error message) => .ok (.error message)
  | .error (.fault kind) => fault kind

namespace NumberType

/-- `POINTLESS_PRIM_VECTOR_TYPE_*`. -/
def primType : NumberType → UInt8
  | i8 => 0
  | u8 => 1
  | i16 => 2
  | u16 => 3
  | i32 => 4
  | u32 => 5
  | float => 6
  | i64 => 7
  | u64 => 8

/-- The type that a `type` field stands for, where it is one of the nine. -/
def ofPrimType (type : UInt8) : Option NumberType :=
  [i8, u8, i16, u16, i32, u32, i64, u64, float].find? fun t => t.primType = type

/-- The name in `pointless_prim_vector_type_map`. -/
def name : NumberType → String
  | i8 => "i8"
  | u8 => "u8"
  | i16 => "i16"
  | u16 => "u16"
  | i32 => "i32"
  | u32 => "u32"
  | i64 => "i64"
  | u64 => "u64"
  | float => "f"

/-- The type of a name. -/
def ofName (name : String) : Option NumberType :=
  [i8, u8, i16, u16, i32, u32, i64, u64, float].find? fun t => t.name = name

end NumberType

/-- `parse_pyobject_number`: the integer, which is signed where it is negative. -/
def parsePyobjectNumber : PyOperand → Raises Int
  | some (.int v) => if v < -2 ^ 63 ∨ 2 ^ 64 ≤ v then .error "integer too big" else .ok v
  | _ => .error "expected an integer"

/-- `pypointless_parse_number`: the word of the number. A negative one is below the limit
of every unsigned type. -/
def pypointlessParseNumber (n : PyOperand) (type : UInt8) : Raises Nat :=
  match NumberType.ofPrimType type with
  | some .float =>
      match n with
      | some (.float bits) => .ok bits.toNat
      | _ => .error "expected a number"
  | t => do
      let v ← parsePyobjectNumber n
      match t with
      | none => .error "internal error A"
      | some t =>
          let inRange := if 0 ≤ v then v ≤ t.greatest else t.isSigned ∧ t.least ≤ v
          if inRange then .ok (t.toWord v)
          else .error "given value is smaller/greater than the allowed values"

/-! ## The object -/

/-- `PyPointlessPrimVector` with all its fields. -/
structure PrimVectorObject where
  allowPrint : Int32
  obExports : Int32
  array : HeapArray
  type : UInt8
  deriving DecidableEq, Repr

/-- What a method hands back to Python. -/
inductive PrimResult where
  | none
  | bool (b : Bool)
  | number (n : PyNumber)
  | pair (lower upper : PyNumber)
  | bytes (buffer : List UInt8)
  deriving DecidableEq, Repr

/-- The outcome of a method, and the object after it. -/
abbrev PrimOutcome := Res (Raises PrimResult × PrimVectorObject)

section Methods

variable (alloc : Allocator) (self : PrimVectorObject)

/-- The object with other items. -/
def PrimVectorObject.withArray (array : HeapArray) : PrimVectorObject :=
  { self with array := array }

/-- `PyPointlessPrimVector_can_resize`. -/
def primCanResize : Raises Unit :=
  if 0 < self.obExports then .error "existing exports of data: object cannot be re-sized"
  else .ok ()

/-- `PyPointlessPrimVector_length`. -/
def primLength : Nat := self.array.nItems

/-- `PyPointlessPrimVector_subscript_priv`. -/
def primSubscriptPriv (i : UInt32) : Res PyNumber :=
  match NumberType.ofPrimType self.type with
  | none => fail "illegal value type"
  | some .float => (fun word => .float (UInt32.ofNat word)) <$> self.array.itemAt 4 i.toNat
  | some t => (fun word => .int (t.toInt word)) <$> self.array.itemAt t.size i.toNat

/-- `PyPointlessPrimVector_subscript` with an integer. -/
def primSubscript (item : Int) : Res PyNumber := do
  let i ← pyCheckIndex (primLength self) item
  primSubscriptPriv self (UInt32.ofNat i)

/-- `PyPointlessPrimVector_ass_item`. -/
def primAssItem (i : Int) (v : PyOperand) : Raises PrimVectorObject :=
  if ¬(0 ≤ i ∧ i < primLength self) then .error "vector index out of range"
  else do
    let word ← pypointlessParseNumber v self.type
    pure (self.withArray { self.array with items := self.array.items.set i.toNat word })

/-- `PyList_GET_SIZE` of the object: the field `ob_size` of a list lies where
`allow_print` and `ob_exports` are. -/
def primObSize : Int := self.allowPrint.toUInt32.toNat + 2 ^ 32 * self.obExports.toInt

/-- `PyPointlessPrimVector_ass_subscript`. -/
def primAssSubscript (item : Int) (value : PyOperand) : PrimOutcome :=
  if item < -2 ^ 63 ∨ 2 ^ 63 ≤ item then
    .ok (.error "cannot fit 'int' into an index-sized integer", self)
  else
    match primAssItem self (if item < 0 then item + primObSize self else item) value with
    | .error message => .ok (.error message, self)
    | .ok self => .ok (.ok .none, self)

/-! ## Appending -/

/-- `PyPointlessPrimVector_append_item`. -/
def primAppendItem (item : PyOperand) : PrimOutcome :=
  match primCanResize self with
  | .error message => .ok (.error message, self)
  | .ok () =>
      match pypointlessParseNumber item self.type with
      | .error message => .ok (.error message, self)
      | .ok number => do
          let (pushed, array) ← self.array.push alloc fun _ => .ok number
          pure (if pushed then .ok .none else .error "", self.withArray array)

/-- `PyPointlessPrimVector_append`. -/
def primAppend (obj : PyOperand) : PrimOutcome :=
  match primCanResize self with
  | .error message => .ok (.error message, self)
  | .ok () => primAppendItem alloc self obj

/-! ## Taking items away -/

/-- `PyPointlessPrimVector_pop`. -/
def primPop : PrimOutcome := do
  let nItems := self.array.nItems
  if nItems = 0 then return (.error "pop from empty vector", self)
  match primCanResize self with
  | .error message => return (.error message, self)
  | .ok () =>
      match ← attempt (primSubscriptPriv self (UInt32.ofNat (nItems - 1))) with
      | .error message => return (.error message, self)
      | .ok v => return (.ok (.number v), self.withArray self.array.pop)

/-- `PyPointlessPrimVector_pop_bulk`. -/
def primPopBulk (n : Int) : PrimOutcome :=
  if n < -2 ^ 63 ∨ 2 ^ 63 ≤ n then .ok (.error "int too big to convert", self)
  else if 0 < n ∧ self.array.nItems < n then .ok (.error "vector is not big enough", self)
  else .ok (.ok .none, self.withArray (self.array.popN n.toNat))

/-- `PyPointlessPrimVector_clear`. -/
def primClear : PrimOutcome :=
  match primCanResize self with
  | .error message => .ok (.error message, self)
  | .ok () => .ok (.ok .none, self.withArray self.array.clear)

/-! ## Searching -/

/-- The loops that look for an item, at item `i` with so many left; `item` reads one. -/
def primSearchLoop {α : Type} (item : Nat → Res α) (found : α → Bool) : Nat → Nat → Res (Option Nat)
  | 0, _ => .ok none
  | left + 1, i => do
      let a ← item i
      if found a then pure (some i) else primSearchLoop item found left (i + 1)

/-- `((T*)_data)[i]`. -/
def primElement (t : NumberType) (i : Nat) : Res Int :=
  t.toInt <$> loadWord t.size self.array.data (t.size * i)

/-- The `n` of the searches, an `uint32_t`. -/
def primSearchLength : Nat := self.array.nItems % 2 ^ 32

/-- `PyPointlessPrimVector_index_f`; `==` is false for a NaN. -/
def primIndexF (v : FloatOperand) : Res (Option Nat) :=
  primSearchLoop (primElement self .float)
    (fun item => cmpFloat (floatOperand (UInt32.ofInt item)) v = 0) (primSearchLength self) 0

/-- `PyPointlessPrimVector_index_i_i`, which looks at no item of an unsigned type. -/
def primIndexII (v : Int) : Res (Option Nat) :=
  match NumberType.ofPrimType self.type with
  | some t =>
      if t.isSigned then
        primSearchLoop (primElement self t) (fun item => item = v) (primSearchLength self) 0
      else .ok none
  | none => .ok none

/-- `PyPointlessPrimVector_index_i_u`. -/
def primIndexIU (v : Int) : Res (Option Nat) :=
  match NumberType.ofPrimType self.type with
  | some .float => .ok none
  | some t =>
      primSearchLoop (primElement self t)
        (fun item => if t.isSigned then 0 ≤ item ∧ item = v else item = v)
        (primSearchLength self) 0
  | none => .ok none

/-- The search for an integer that was parsed. -/
def primIndexI (v : Int) : Res (Option Nat) :=
  if v < 0 then primIndexII self v else primIndexIU self v

/-- `(double)v` of an integer: 53 significant bits, ties to even. -/
def intToDouble (z : Int) : Int :=
  let n := z.natAbs
  if n < 2 ^ 53 then z
  else
    let unit := 2 ^ (n.log2 - 52)
    let q := n / unit
    let r := n % unit
    let q := if 2 * r < unit then q else if unit < 2 * r then q + 1 else q + q % 2
    if z < 0 then -((q * unit : Nat) : Int) else (q * unit : Nat)

/-- The format `f` of `PyArg_ParseTuple`: a number goes by way of a `double`, and what is
too large for a `float` becomes an infinity. -/
def parseTupleFloat : PyOperand → Raises FloatOperand
  | some (.float bits) => .ok (floatOperand bits)
  | some (.int v) =>
      if 2 ^ 1024 ≤ (intToDouble v).natAbs then .error "int too large to convert to float"
      else
        let f := intToFloat (intToDouble v)
        .ok (some (max (-2 ^ 128) (min f (2 ^ 128)) * 2 ^ 149))
  | none => .error "must be real number"

/-- The end of `PyPointlessPrimVector_index_`, with the name of the method in its message. -/
def primFound (func : String) (i : Option Nat) : Raises Nat :=
  (i.map Except.ok).getD (.error s!"vector.{func}(x): x not in vector")

/-- `PyPointlessPrimVector_index_` of a vector of floats, once its argument is parsed. -/
def primIndexParsed (func : String) : Raises FloatOperand → Res (Raises Nat)
  | .error message => .ok (.error message)
  | .ok ff => primFound func <$> primIndexF self ff

/-- `PyPointlessPrimVector_index_` of a vector of integers. -/
def primIndexInteger (arg : PyOperand) (func : String) : Res (Raises Nat) :=
  match parsePyobjectNumber arg with
  | .error _ => .ok (primFound func none)
  | .ok v => primFound func <$> primIndexI self v

/-- `PyPointlessPrimVector_index_`. -/
def primIndex_ (arg : PyOperand) (func : String) : Res (Raises Nat) :=
  if NumberType.ofPrimType self.type = some .float then
    primIndexParsed self func (parseTupleFloat arg)
  else primIndexInteger self arg func

/-- `PyPointlessPrimVector_contains`. -/
def primContains (b : PyOperand) : Res Bool :=
  if NumberType.ofPrimType self.type = some .float then
    match b with
    | some (.float bits) => Option.isSome <$> primIndexF self (floatOperand bits)
    | _ =>
        match parsePyobjectNumber b with
        | .error _ => .ok false
        | .ok v => Option.isSome <$> primIndexF self (intOperand v)
  else
    match parsePyobjectNumber b with
    | .error _ => .ok false
    | .ok v => Option.isSome <$> primIndexI self v

/-- `PyPointlessPrimVector_index`. -/
def primIndex (arg : PyOperand) : Res (Raises PrimResult) :=
  (fun out => (fun i : Nat => PrimResult.number (.int i)) <$> out) <$> primIndex_ self arg "index"

/-- The end of `PyPointlessPrimVector_remove`: the item is swapped to the end, where it is
popped. -/
def primRemoveFound : Raises Nat → PrimOutcome
  | .error message => .ok (.error message, self)
  | .ok i => do
      let rounds := self.array.nItems - 1 - i
      let array ← (List.range' i rounds).foldlM (fun a k => a.swap k (k + 1)) self.array
      return (.ok .none, self.withArray array.pop)

/-- `PyPointlessPrimVector_remove`. -/
def primRemove (arg : PyOperand) : PrimOutcome :=
  match primCanResize self with
  | .error message => .ok (.error message, self)
  | .ok () => do primRemoveFound self (← primIndex_ self arg "remove")

end Methods

end Pointless
