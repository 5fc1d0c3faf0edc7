import Pointless.PyPrimVector

/-!
# The PrimVector object: building, bulk operations and buffers

The methods of `pointless_prim_vector.c` that go through many items: the constructor,
which takes the items of an iterable or of a serialized buffer, `append_bulk`,
`serialize`, `sort` and `sort_proj`; and the two ends of a memory view.

Three of the methods call code that may be written in Python, of a class of the caller:
the constructor and `append_bulk` go through an iterator, and the constructor and `remove`
parse an argument. That code may do anything to the vector before it answers. Such a
method is a number of steps, of which each ends where the method returns or calls such
code (`Segment`) and the next begins with what the code answered (`primResume`).
`append_bulk` with an iterator that leaves the vector alone, though it may look at it, is
`primAppendBulk`.
-/

namespace Pointless

/-! ## Python code -/

/-- What `PyIter_Next` gives: an item or an exception, and nothing at the end. -/
abbrev IterAnswer := Option (Raises PyOperand)

/-- The methods that append what an iterator gives. -/
inductive Appending where
  | init
  | appendBulk
  deriving DecidableEq, Repr

/-- The calls of a method that may run code of the caller: a class may have a `__buffer__`, an
`__iter__`, a `__next__`, a `__del__` and a `__float__` of its own. `nAppend` is the number
of items appended so far, and `raised` the exception that is set. -/
inductive PyCode where
  | parseArgs
  | getIter (method : Appending)
  | next (method : Appending) (nAppend : Nat)
  | dropIter (method : Appending) (raised : Option String) (nAppend : Nat)
  | parseFloat
  deriving DecidableEq, Repr

/-- The arguments of the constructor; `sequence` is whether there is one. -/
structure InitArgs where
  type : Option String
  buffer : Option (List UInt8)
  sequence : Bool
  allowPrint : Option Bool

/-- What the code answers, which is an answer to one kind of call. -/
inductive PyAnswer where
  | args (args : Raises InitArgs)
  | iter (outcome : Raises Unit)
  | item (answer : IterAnswer)
  | dropped
  | float (v : Raises FloatOperand)

/-- How a step of a method ends. -/
inductive Segment where
  | returns (outcome : Raises PrimResult)
  | calls (code : PyCode)
  deriving DecidableEq, Repr

/-- The end of a step, and the object after it. -/
abbrev PrimStep := Res (Segment × PrimVectorObject)

/-- The object that `append_bulk` is given, where it is not only an iterable. -/
inductive BulkObject where
  | itself
  | primVector (vector : PrimVectorObject)
  | vector (vector : PyPointlessVector)
  | iterable

section Methods

variable (alloc : Allocator) (self : PrimVectorObject)

/-! ## Loops that push -/

/-- The loops that push the items of a buffer, from item `i` on with so many left: whether
all were pushed, and how many. -/
def primPushLoop (alloc : Allocator) (item : Nat → HeapArray → Res Nat) :
    Nat → Nat → HeapArray → Res (Bool × Nat × HeapArray)
  | 0, i, a => .ok (true, i, a)
  | left + 1, i, a => do
      match ← a.push alloc (item i) with
      | (false, a) => return (false, i, a)
      | (true, a) => primPushLoop alloc item left (i + 1) a

/-- The same loop where the buffer is the array itself. Its bound is the number of items at
each round, and `v` points into the block that the array has before the push. `inPlace`
says of a request that is served whether the block stays where it is. -/
def primPushItselfLoop (alloc : Allocator) (inPlace : Nat → Bool) :
    Nat → Nat → HeapArray → Res (Bool × Nat × HeapArray)
  | 0, _, _ => fault .diverges
  | fuel + 1, i, a =>
      if i < a.nItems then do
        let v := fun next : HeapArray =>
          -- `v` dangles once the array has been moved
          if next.requests = a.requests ∨ inPlace a.requests then
            loadWord a.itemSize a.data (a.itemSize * i)
          else fault .outOfBounds
        match ← a.push alloc v with
        | (false, a) => return (false, i, a)
        | (true, a) => primPushItselfLoop alloc inPlace fuel (i + 1) a
      else .ok (true, i, a)

/-! ## Loops over an iterator -/

/-- `cleanup` of `PyPointlessPrimVector_init`, after an exception. -/
def primInitCleanup (message : String) : Segment × PrimVectorObject :=
  (.returns (.error message), self.withArray self.array.clear)

/-- A method goes on after `PyObject_GetIter`. -/
def primGotIter (method : Appending) : Raises Unit → PrimStep
  | .ok () => .ok (.calls (.next method 0), self)
  | .error message =>
      match method with
      | .init => .ok (primInitCleanup self message)
      | .appendBulk => .ok (.returns (.error message), self)

/-- A method goes on after `PyIter_Next`. -/
def primNext (method : Appending) (nAppend : Nat) : IterAnswer → PrimStep
  | none => .ok (.calls (.dropIter method none nAppend), self)
  | some (.error message) => .ok (.calls (.dropIter method (some message) nAppend), self)
  | some (.ok item) => do
      match ← primAppendItem alloc self item with
      | (.ok _, self) => return (.calls (.next method (nAppend + 1)), self)
      | (.error message, self) => return (.calls (.dropIter method (some message) nAppend), self)

/-- A method goes on after the last `Py_DECREF(iterator)`: after an exception the constructor
destroys the array, and `append_bulk` pops what it appended. -/
def primDropped (method : Appending) (raised : Option String) (nAppend : Nat) : PrimStep :=
  match raised with
  | none => .ok (.returns (.ok .none), self)
  | some message =>
      match method with
      | .init => .ok (primInitCleanup self message)
      | .appendBulk => do
          let array ← self.array.popMany nAppend
          return (.returns (.error message), self.withArray array)

/-! ## Building -/

/-- What `PyType_GenericNew` makes: all fields are zero. -/
def primNew : PrimVectorObject := ⟨0, 0, ⟨⟨0, []⟩, 0, none, 0⟩, 0⟩

/-- The branch of `PyPointlessPrimVector_init` for a type, up to the sequence: whether there
is one. -/
def primInitType (type : String) (sequence : Bool) : Raises Bool × PrimVectorObject :=
  match NumberType.ofName type with
  | none => (.error "unknown primitive vector type", self)
  | some t => (.ok sequence, { self with array := self.array.init t.size, type := t.primType })

/-- The branch of `PyPointlessPrimVector_init` for a buffer. The type word is cut to the
field `type`. -/
def primInitBuffer (buffer : List UInt8) : Res (Raises Bool × PrimVectorObject) :=
  if buffer.length < 8 then .ok (.error "buffer too short", self)
  else do
    let typeWord ← loadU32 buffer 0
    let bufferNItems ← loadU32 buffer 4
    let self := { self with type := UInt8.ofNat typeWord.toNat }
    match NumberType.ofPrimType self.type with
    | none => return (.error "illegal buffer vector type", self)
    | some t =>
        let self := self.withArray (self.array.init t.size)
        if buffer.length ≠ t.size * bufferNItems.toNat + 8 then
          return (.error "illegal buffer length", self)
        else
          let item := fun i _ => loadWord t.size buffer (8 + t.size * i)
          let (added, _, array) ← primPushLoop alloc item bufferNItems.toNat 0 self.array
          return (if added then .ok false else .error "", self.withArray array)

/-- The part of `PyPointlessPrimVector_init` whose errors lead to `cleanup`, up to the
sequence: whether there is one. -/
def primInitArgs (args : InitArgs) : Res (Raises Bool × PrimVectorObject) :=
  let printing := if args.allowPrint = some false then { self with allowPrint := 0 } else self
  match args.type, args.buffer with
  | some _, some _ | none, none =>
      .ok (.error "exactly one of type/buffer must be specified", self)
  | none, some buffer =>
      if args.sequence then .ok (.error "sequence only allowed if type is specified", self)
      else primInitBuffer alloc printing buffer
  | some type, none => .ok (primInitType printing type args.sequence)

/-- `PyPointlessPrimVector_init`, up to the call that parses its arguments. -/
def primInitStart : PrimStep :=
  match primCanResize self with
  | .error message => .ok (.returns (.error message), self)
  | .ok () => .ok (.calls .parseArgs, ⟨1, 0, self.array.clear, 0⟩)

/-- `PyPointlessPrimVector_init` goes on with its arguments. -/
def primInitParsed : Raises InitArgs → PrimStep
  | .error message => .ok (.returns (.error message), self)
  | .ok args => do
      match ← primInitArgs alloc self args with
      | (.error message, self) => return primInitCleanup self message
      | (.ok true, self) => return (.calls (.getIter .init), self)
      | (.ok false, self) => return (.returns (.ok .none), self)

/-- `PyPointlessPrimVector_init` with arguments that are no objects of the caller's classes, up
to the sequence. -/
def primInit (args : Raises InitArgs) : PrimStep := do
  match ← primInitStart self with
  | (.returns outcome, self) => return (.returns outcome, self)
  | (.calls _, self) => primInitParsed alloc self args

/-! ## Appending many items -/

/-- What follows a loop that pushes: when it failed, the items it pushed are popped. -/
def primPushed : Bool × Nat × HeapArray → PrimStep
  | (true, _, array) => .ok (.returns (.ok .none), self.withArray array)
  | (false, nAppend, array) => do
      let array ← array.popMany nAppend
      return (.returns (.error ""), self.withArray array)

/-- The two fast versions of `PyPointlessPrimVector_append_bulk`, where the object is one of
theirs; `fuel` is for the loop on the vector itself. -/
def primAppendBulkFast (inPlace : Nat → Bool) (fuel : Nat) :
    BulkObject → Option (Res (Bool × Nat × HeapArray))
  | .itself => some (primPushItselfLoop alloc inPlace fuel 0 self.array)
  | .primVector w =>
      if w.type = self.type then
        let item := fun i (_ : HeapArray) =>
          loadWord self.array.itemSize w.array.data (w.array.itemSize * i)
        some (primPushLoop alloc item w.array.nItems 0 self.array)
      else none
  | .vector w =>
      match itemType? w.v.type with
      | some t =>
          if t.primType = self.type then some do
            let base ← readerVectorBasePtr w.pp w.v
            let item := fun i (_ : HeapArray) =>
              loadWord self.array.itemSize w.pp.heap (base + (i + w.sliceI.toNat) * t.size)
            primPushLoop alloc item w.sliceN.toNat 0 self.array
          else none
      | none => none
  | .iterable => none

/-- `PyPointlessPrimVector_append_bulk`, up to `PyObject_GetIter` where it comes to that. -/
def primAppendBulkStart (inPlace : Nat → Bool) (fuel : Nat) (obj : BulkObject) : PrimStep :=
  match primCanResize self with
  | .error message => .ok (.returns (.error message), self)
  | .ok () =>
      match primAppendBulkFast alloc self inPlace fuel obj with
      | some loop => do primPushed self (← loop)
      | none => .ok (.calls (.getIter .appendBulk), self)

/-! ## Removing -/

/-- `PyPointlessPrimVector_remove`, up to the call that parses a float. -/
def primRemoveStart (arg : PyOperand) : PrimStep :=
  match primCanResize self with
  | .error message => .ok (.returns (.error message), self)
  | .ok () =>
      if NumberType.ofPrimType self.type = some .float then .ok (.calls .parseFloat, self)
      else do
        let (outcome, self) ← primRemoveFound self (← primIndexInteger self arg "remove")
        return (.returns outcome, self)

/-- `PyPointlessPrimVector_remove` goes on with its argument. -/
def primRemoveParsed (v : Raises FloatOperand) : PrimStep := do
  let (outcome, self) ← primRemoveFound self (← primIndexParsed self "remove" v)
  return (.returns outcome, self)

/-! ## Going on -/

/-- A method goes on with what the code it called has answered. With an answer to another
kind of call it goes on waiting. -/
def primResume : PyCode → PyAnswer → PrimStep
  | .parseArgs, .args args => primInitParsed alloc self args
  | .getIter method, .iter outcome => primGotIter self method outcome
  | .next method nAppend, .item answer => primNext alloc self method nAppend answer
  | .dropIter method raised nAppend, .dropped => primDropped self method raised nAppend
  | .parseFloat, .float v => primRemoveParsed self v
  | code, _ => .ok (.calls code, self)

/-! ## Iterators that leave the vector alone -/

/-- An iterable object whose code leaves the vector alone: what `PyObject_GetIter` says, and
what `PyIter_Next` gives in a state of the iterator, with its next state. -/
structure PyIterable (σ : Type) where
  iter : Raises Unit
  next : σ → PrimVectorObject → Res (IterAnswer × σ)

variable {σ : Type}

/-- What the code of the iterable answers. -/
def PyIterable.answer (w : PyIterable σ) (vector : PrimVectorObject) :
    PyCode → σ → Res (PyAnswer × σ)
  | .getIter _, state => .ok (.iter w.iter, state)
  | .next _ _, state => do
      let (answer, state) ← w.next state vector
      return (.item answer, state)
  | _, state => .ok (.dropped, state)

/-- A method from the end of a step on, where it is the iterable that answers. -/
def primRun (w : PyIterable σ) : Nat → σ → Segment × PrimVectorObject → PrimOutcome
  | _, _, (.returns outcome, self) => .ok (outcome, self)
  | 0, _, (.calls _, _) => fault .diverges
  | fuel + 1, state, (.calls code, self) => do
      let (answer, state) ← w.answer self code state
      primRun w fuel state (← primResume alloc self code answer)

/-- `PyPointlessPrimVector_append_bulk`, where the code of the object leaves the vector
alone. -/
def primAppendBulk (inPlace : Nat → Bool) (fuel : Nat) (obj : BulkObject) (w : PyIterable σ)
    (state : σ) : PrimOutcome := do
  primRun alloc w fuel state (← primAppendBulkStart alloc self inPlace fuel obj)

/-- `PyPointlessPrimVectorIter`, and `PyPointlessPrimVectorRevIter`, of the vector; `ended` is
that its field `vector` is null. -/
structure PrimVectorIter where
  iterState : UInt32
  ended : Bool
  deriving DecidableEq, Repr

/-- `PyPointlessPrimVector_iter`, and `PyPointlessPrimVector_rev_iter`. -/
def primIter : PrimVectorIter := ⟨0, false⟩

/-- The two `iternext` functions of iterators over the vector, with the position of the item
of a state. The number of items is read again each time. -/
def primIterNextAt (position : UInt32 → UInt32 → UInt32) (iter : PrimVectorIter) :
    Res (IterAnswer × PrimVectorIter) := do
  if iter.ended then return (none, iter)
  let nItems := UInt32.ofNat (primLength self)
  if iter.iterState < nItems then
    match ← attempt (primSubscriptPriv self (position nItems iter.iterState)) with
    | .error message => return (some (.error message), iter)
    | .ok item => return (some (.ok (some item)), { iter with iterState := iter.iterState + 1 })
  else return (none, { iter with ended := true })

/-- `PyPointlessPrimVectorIter_iternext`. -/
def primVectorIterNext : PrimVectorIter → Res (IterAnswer × PrimVectorIter) :=
  primIterNextAt self fun _ iterState => iterState

/-- `PyPointlessPrimVectorRevIter_iternext`. -/
def primVectorRevIterNext : PrimVectorIter → Res (IterAnswer × PrimVectorIter) :=
  primIterNextAt self fun nItems iterState => nItems - iterState - 1

/-- `iter(v)`, as an iterable. -/
def ownIter : PyIterable PrimVectorIter := ⟨.ok (), fun iter self => primVectorIterNext self iter⟩

/-- `reversed(v)`, as an iterable. -/
def ownRevIter : PyIterable PrimVectorIter :=
  ⟨.ok (), fun iter self => primVectorRevIterNext self iter⟩

/-! ## Serializing -/

/-- `PyPointlessPrimVector_type_size`. -/
def primTypeSize : Nat := ((NumberType.ofPrimType self.type).map NumberType.size).getD 0

/-- `PyPointlessPrimVector_n_bytes`, a `size_t`. -/
def primNBytes : Nat := self.array.nItems * primTypeSize self % 2 ^ 64

/-- `PyPointlessPrimVector_serialize`; `malloc` says whether so many bytes are served. -/
def primSerialize (malloc : Nat → Bool) : Res (Raises PrimResult) :=
  let nBytes := primNBytes self
  let nBuffer := (8 + nBytes) % 2 ^ 64
  if 2 ^ 63 - 1 < nBuffer then .ok (.error "vector too large for serialization")
  else if malloc nBuffer = false then .ok (.error "")
  else if nBuffer < 8 + nBytes then fault .outOfBounds
  else
    match ByteMemory.slice self.array.data 0 nBytes with
    | none => fault .outOfBounds
    | some items =>
        .ok (.ok (.bytes (bytesU32 self.type.toUInt32 ++
          bytesU32 (UInt32.ofNat self.array.nItems) ++ items)))

/-! ## Sorting -/

/-- `prim_sort_cmp_*`, on items that are being sorted. -/
def primSortCmp (t : NumberType) : Comparator Nat Unit := fun i j items own => do
  let v := self.withArray { self.array with items := items }
  let c ← primSortProjCmpCmp t (primElement v t) i j
  return ((true, c), own)

/-- `PyPointlessPrimVector_sort`. The number of items is given as an `int`. -/
def primSort (fuel : Nat) : PrimOutcome :=
  match NumberType.ofPrimType self.type with
  | none => .ok (.error "bad argument to internal function", self)
  | some t => do
      let n := (dataI32 (UInt32.ofNat self.array.nItems)).toNat
      let (_, s) ← bentleySort (arrayCallbacks (primSortCmp self t)) fuel n ⟨self.array.items, ()⟩
      return (.ok .none, self.withArray { self.array with items := s.user.items })

/-- `PyPointlessPrimVector_sort_proj` as a method of the object. -/
def primSortProj (fuel : Nat) (args : List PyObject) : PrimOutcome :=
  match NumberType.ofPrimType self.type with
  | none => .ok (.error "bad argument to internal function", self)
  | some t => do
      let (p, raised) ← sortProj fuel ⟨self.array.toDynarray, t⟩ args
      let result : Raises PrimResult := (raised.map Except.error).getD (.ok .none)
      return (result, self.withArray { self.array with items := p.array.items })

/-! ## Memory views -/

/-- `PointlessPrimVector_getbuffer`. `PyBuffer_FillInfo` serves every view of a buffer that
is not read-only. -/
def primGetBuffer : PrimVectorObject := { self with obExports := self.obExports + 1 }

/-- `PointlessPrimVector_releasebuffer`. -/
def primReleaseBuffer : PrimVectorObject := { self with obExports := self.obExports - 1 }

end Methods

end Pointless
