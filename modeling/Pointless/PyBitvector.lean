import Pointless.Defs

/-!
# The Python bitvector

`pointless_bitvector.c` of the Python extension: a bitvector that lives in memory
of its own and grows (`is_pointless = 0`).

A method returns the object's new state together with what Python sees: a value,
or an exception. `realloc` may refuse; each operation is told whether it does.
The null `primitive_bits` of an object without memory is the empty memory here,
as neither has a bit that may be touched.
-/

namespace Pointless

/-! ## The object -/

/-- The fields of `PyPointlessBitvector` that hold the bits. -/
structure PyPointlessBitvector where
  primitiveNBits : UInt32
  primitiveBits : List UInt8
  primitiveNBytesAlloc : UInt32
  primitiveNOne : UInt64
  deriving DecidableEq, Repr

/-- What a method hands back to Python. -/
inductive PyOutcome where
  | raised (exception message : String)
  | none
  | bool (b : Bool)
  deriving DecidableEq, Repr

/-- A Python object given as a bit. -/
inductive PyItem where
  | bool (b : Bool)
  | int (v : Int)
  | other
  deriving DecidableEq, Repr

/-- `PyPointlessBitvector_new`. -/
def pyBitvectorNew : PyPointlessBitvector := ⟨0, [], 0, 0⟩

/-- `bm_is_set_`. -/
def pyBmIsSet (bits : List UInt8) (i : Nat) : Res Bool :=
  match bits[i / 8]? with
  | some byte => .ok (byte &&& (1 <<< UInt8.ofNat (i % 8)) ≠ 0)
  | none => fault .outOfBounds

/-- `bm_set_`. -/
def bmSet (bits : List UInt8) (i : Nat) : Res (List UInt8) :=
  match bits[i / 8]? with
  | some byte => .ok (bits.set (i / 8) (byte ||| (1 <<< UInt8.ofNat (i % 8))))
  | none => fault .outOfBounds

/-- `bm_reset_`. -/
def bmReset (bits : List UInt8) (i : Nat) : Res (List UInt8) :=
  match bits[i / 8]? with
  | some byte => .ok (bits.set (i / 8) (byte &&& ~~~(1 <<< UInt8.ofNat (i % 8))))
  | none => fault .outOfBounds

/-! ## Growth -/

/-- `next_size`. -/
def nextSize (nAlloc : UInt32) : UInt32 :=
  let smallAdd := [1, 1, 2, 2, 4, 4, 4, 8, 8, 10, 11, 12, 13, 14, 15, 16]
  let a := nAlloc.toNat / 16
  let b := nAlloc.toNat
  let c := if nAlloc.toNat < 16 then smallAdd.getD nAlloc.toNat 0 else 0
  UInt32.ofNat (a + b + c)

/-- The loop of `PyPointlessBitvector_extend_by` that looks for a size of at least
`need` bytes, from `nextBytes` on. -/
def nextBytesLoop (alloc : UInt32) (need : Nat) : Nat → UInt32 → UInt32
  | 0, nextBytes => nextBytes
  | fuel + 1, nextBytes =>
      if nextBytes.toNat < need then
        let grown := nextSize nextBytes
        nextBytesLoop alloc need fuel
          (if grown < alloc then UInt32.ofNat (iceil uint32Max.toNat 8) else grown)
      else nextBytes

/-- The size `PyPointlessBitvector_extend_by` allocates for `nBits` bits when it has
`alloc` bytes; each round of its loop adds a byte at least. -/
def nextBytesFor (alloc nBits : UInt32) : UInt32 :=
  nextBytesLoop alloc (iceil nBits.toNat 8) (iceil nBits.toNat 8) alloc

/-- `PyPointlessBitvector_extend_by`. -/
def pyBitvectorExtendBy (realloc : Bool) (self : PyPointlessBitvector) (n : UInt32)
    (isTrue : Bool) : Res (PyOutcome × PyPointlessBitvector) := do
  let nextNBits := self.primitiveNBits + n
  if nextNBits < self.primitiveNBits ∨ nextNBits < n then
    return (.raised "ValueError" "BitVector would grow beyond 2**32-1 items", self)
  let nextBytes := nextBytesFor self.primitiveNBytesAlloc nextNBits
  if nextBytes ≠ self.primitiveNBytesAlloc ∧ !realloc then
    return (.raised "MemoryError" "", self)
  -- the bytes gained are cleared; where none is, this changes nothing
  let gained := nextBytes.toNat - self.primitiveNBytesAlloc.toNat
  let bits ← (List.range n.toNat).foldlM (fun bits i =>
      if isTrue then bmSet bits (self.primitiveNBits + UInt32.ofNat i).toNat
      else bmReset bits (self.primitiveNBits + UInt32.ofNat i).toNat)
    (self.primitiveBits ++ List.replicate gained 0)
  pure (.none,
    { primitiveNBits := self.primitiveNBits + n
      primitiveBits := bits
      primitiveNBytesAlloc := nextBytes
      primitiveNOne := if isTrue then self.primitiveNOne + n.toUInt64 else self.primitiveNOne })

/-! ## Methods -/

/-- `PyPointlessBitvector_extend_`. -/
def pyBitvectorExtend (realloc : Bool) (self : PyPointlessBitvector) (n : Int32)
    (isTrue : Bool) : Res (PyOutcome × PyPointlessBitvector) :=
  if n < 0 then .ok (.raised "ValueError" "negative value", self)
  else if 0 ≤ n ∧ uint32Max.toNat < n.toInt.toNat then
    .ok (.raised "ValueError" "resulting bitvector would be too large", self)
  else pyBitvectorExtendBy realloc self (UInt32.ofNat n.toInt.toNat) isTrue

/-- `PyPointlessBitvector_append`. -/
def pyBitvectorAppend (realloc : Bool) (self : PyPointlessBitvector) (v : Bool) :
    Res (PyOutcome × PyPointlessBitvector) :=
  pyBitvectorExtendBy realloc self 1 v

/-- The argument of `append_bulk`: the vector itself, or another one, which is only
asked for its length and its bits. -/
inductive BulkOperand where
  | self
  | other (nItems : UInt32) (isSet : Nat → Bool)

/-- `PyPointlessBitvector_length` of the operand, with the vector as it stands. -/
def BulkOperand.length (self : PyPointlessBitvector) : BulkOperand → UInt32
  | .self => self.primitiveNBits
  | .other nItems _ => nItems

/-- `PyPointlessBitvector_is_set` of the operand, with the vector's bits as they
stand. -/
def BulkOperand.isSet (bits : List UInt8) (i : Nat) : BulkOperand → Res Bool
  | .self => pyBmIsSet bits i
  | .other _ isSet => .ok (isSet i)

/-- A round of the loop of `PyPointlessBitvector_append_bulk`. -/
def bulkRound (operand : BulkOperand) (nBefore : Nat) (bits : List UInt8) (i : Nat) :
    Res (List UInt8) := do
  if ← operand.isSet bits i then bmSet bits (nBefore + i) else pure bits

/-- `PyPointlessBitvector_append_bulk`. The loop asks for the operand's length in
each round, hence for the length after the extension. -/
def pyBitvectorAppendBulk (realloc : Bool) (self : PyPointlessBitvector)
    (operand : BulkOperand) : Res (PyOutcome × PyPointlessBitvector) := do
  let nBefore := self.primitiveNBits.toNat
  let (outcome, self) ← pyBitvectorExtendBy realloc self (operand.length self) false
  if outcome ≠ .none then return (outcome, self)
  let bits ← (List.range (operand.length self).toNat).foldlM (bulkRound operand nBefore)
    self.primitiveBits
  pure (.none, { self with primitiveBits := bits })

/-- `PyPointlessBitvector_pop`. -/
def pyBitvectorPop (self : PyPointlessBitvector) : Res (PyOutcome × PyPointlessBitvector) := do
  if self.primitiveNBits = 0 then return (.raised "IndexError" "pop from empty vector", self)
  let isSet ← pyBmIsSet self.primitiveBits (self.primitiveNBits - 1).toNat
  pure (.bool isSet, { self with primitiveNBits := self.primitiveNBits - 1 })

/-- `PyPointlessBitvector_check_index`: the index that an integer stands for, or the
exception. `PyNumber_AsSsize_t` refuses what does not fit `Py_ssize_t`. -/
def pyBitvectorCheckIndex (self : PyPointlessBitvector) (item : Int) : Except PyOutcome Nat :=
  if item < -2 ^ 63 ∨ 2 ^ 63 ≤ item then
    .error (.raised "IndexError" "cannot fit 'int' into an index-sized integer")
  else
    let i := if item < 0 then item + self.primitiveNBits.toNat else item
    if 0 ≤ i ∧ i < self.primitiveNBits.toNat then .ok i.toNat
    else .error (.raised "IndexError" "index is out of bounds")

/-- The `i_value` of `PyPointlessBitvector_ass_subscript`. -/
def pyItemBit : PyItem → Except PyOutcome Bool
  | .bool b => .ok b
  | .int v =>
      if v < -2 ^ 63 ∨ 2 ^ 63 ≤ v then
        .error (.raised "OverflowError" "int too big to convert")
      else if v = 0 then .ok false
      else if v = 1 then .ok true
      else .error (.raised "ValueError" "we only want 0, 1, True or False")
  | .other => .error (.raised "ValueError" "we only want 0, 1, True or False")

/-- `PyPointlessBitvector_ass_subscript`. -/
def pyBitvectorAssSubscript (self : PyPointlessBitvector) (item : Int) (value : PyItem) :
    Res (PyOutcome × PyPointlessBitvector) :=
  match pyBitvectorCheckIndex self item with
  | .error raised => .ok (raised, self)
  | .ok i => do
      let wasSet ← pyBmIsSet self.primitiveBits i
      match pyItemBit value with
      | .error raised => pure (raised, self)
      | .ok false =>
          let bits ← bmReset self.primitiveBits i
          pure (.none, { self with
            primitiveBits := bits
            primitiveNOne := if wasSet then self.primitiveNOne - 1 else self.primitiveNOne })
      | .ok true =>
          let bits ← bmSet self.primitiveBits i
          pure (.none, { self with
            primitiveBits := bits
            primitiveNOne := if wasSet then self.primitiveNOne else self.primitiveNOne + 1 })

/-- `PyPointlessBitvector_subscript`. -/
def pyBitvectorSubscript (self : PyPointlessBitvector) (item : Int) :
    Res (PyOutcome × PyPointlessBitvector) :=
  match pyBitvectorCheckIndex self item with
  | .error raised => .ok (raised, self)
  | .ok i => do
      let isSet ← pyBmIsSet self.primitiveBits i
      pure (.bool isSet, self)

/-! ## Construction -/

/-- `PyPointlessBitvector_init` without arguments or with `size`. -/
def pyBitvectorInitSize (calloc : Bool) (size : Int) :
    PyOutcome × PyPointlessBitvector :=
  if size < -2 ^ 63 ∨ 2 ^ 63 ≤ size then
    (.raised "OverflowError" "int too big to convert", pyBitvectorNew)
  else if ¬(0 ≤ size ∧ size ≤ uint32Max.toNat) then
    (.raised "ValueError" "size must be an integer 0 <= i < 2**32", pyBitvectorNew)
  else
    let nBytes := iceil size.toNat 8
    if 0 < size ∧ !calloc then
      (.raised "MemoryError" "", { pyBitvectorNew with primitiveNBits := UInt32.ofNat size.toNat })
    else
      (.none,
        { primitiveNBits := UInt32.ofNat size.toNat
          primitiveBits := List.replicate nBytes 0
          primitiveNBytesAlloc := UInt32.ofNat nBytes
          primitiveNOne := 0 })

/-- The bit an item of a `sequence` stands for; `none` where it is refused. -/
def sequenceBit : PyItem → Option Bool
  | .bool b => some b
  | .int v => if v = 0 then some false else if v = 1 then some true else none
  | .other => none

/-- The loop of `PyPointlessBitvector_init` over a `sequence`, at item number `i`. -/
def pyBitvectorInitLoop (realloc : Nat → Bool) :
    Nat → List PyItem → PyPointlessBitvector → Res (PyOutcome × PyPointlessBitvector)
  | _, [], self => .ok (.none, self)
  | i, obj :: rest, self => do
      let (outcome, self) ← pyBitvectorExtendBy (realloc i) self 1 false
      if outcome ≠ .none then return (outcome, pyBitvectorNew)
      match sequenceBit obj with
      | none =>
          pure (.raised "ValueError" "sequence must only contain True, False, 0 or 1",
            pyBitvectorNew)
      | some false => pyBitvectorInitLoop realloc (i + 1) rest self
      | some true =>
          let bits ← bmSet self.primitiveBits i
          pyBitvectorInitLoop realloc (i + 1) rest
            { self with primitiveBits := bits, primitiveNOne := self.primitiveNOne + 1 }

/-- `PyPointlessBitvector_init` with `sequence`. -/
def pyBitvectorInitSequence (realloc : Nat → Bool) (items : List PyItem) :
    Res (PyOutcome × PyPointlessBitvector) :=
  pyBitvectorInitLoop realloc 0 items pyBitvectorNew

/-! ## Runs -/

/-- The operations on a bitvector, with the arguments that have been parsed. -/
inductive BitvectorOp where
  | append (v : Bool)
  | extendTrue (n : Int32)
  | extendFalse (n : Int32)
  | appendBulk (operand : BulkOperand)
  | pop
  | assSubscript (item : Int) (value : PyItem)
  | subscript (item : Int)

/-- An operation, and whether `realloc` serves it. -/
structure BitvectorStep where
  op : BitvectorOp
  realloc : Bool

/-- The operation as the code carries it out. -/
def BitvectorStep.run (step : BitvectorStep) (self : PyPointlessBitvector) :
    Res (PyOutcome × PyPointlessBitvector) :=
  match step.op with
  | .append v => pyBitvectorAppend step.realloc self v
  | .extendTrue n => pyBitvectorExtend step.realloc self n true
  | .extendFalse n => pyBitvectorExtend step.realloc self n false
  | .appendBulk operand => pyBitvectorAppendBulk step.realloc self operand
  | .pop => pyBitvectorPop self
  | .assSubscript item value => pyBitvectorAssSubscript self item value
  | .subscript item => pyBitvectorSubscript self item

end Pointless
