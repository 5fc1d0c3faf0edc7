import Pointless.CycleMarker
import Pointless.IntOps
import Pointless.ReaderTables

/-!
# Validation

`pointless_validate_heap_ref.c`, `pointless_validate_heap.c`,
`pointless_validate_hash_table.c` and `pointless_validate.c`: the checks of a
single value, the check of a hash table, the three passes over a file, and opening
a buffer with them.
-/

namespace Pointless

section Checks

variable (p : OpenFile) (v : Value)

/-! ## Heap references -/

/-- A reference into one of the offset tables. -/
def checkRef (count : UInt32) (message : String) : Res Unit :=
  if count ≤ v.data then fail message else pure ()

/-- `pointless_validate_heap_ref`. -/
def validateHeapRef : Res Unit :=
  match v.type with
  | .unicode | .string =>
      checkRef v p.header.nStringUnicode "string/unicode reference out of bounds"
  | .vectorValue | .vectorValueHashable | .vectorI8 | .vectorU8 | .vectorI16 | .vectorU16
  | .vectorI32 | .vectorU32 | .vectorI64 | .vectorU64 | .vectorFloat =>
      checkRef v p.header.nVector "vector reference out of bounds"
  | .bitvector => checkRef v p.header.nBitvector "bitvector reference out of bounds"
  | .setValue => checkRef v p.header.nSet "set reference out of bounds"
  | .mapValueValue => checkRef v p.header.nMap "map reference out of bounds"
  | .vectorEmpty | .bitvector01 | .bitvector10 | .bitvector0 | .bitvector1 | .bitvectorPacked
  | .i32 | .u32 | .float | .boolean | .emptySlot | .null => pure ()
  | _ => fail "unknown type X"

/-- `pointless_validate_inline_invariants`. -/
def validateInlineInvariants : Res Unit :=
  match v.type with
  | .vectorValue | .vectorValueHashable | .vectorI8 | .vectorU8 | .vectorI16 | .vectorU16
  | .vectorI32 | .vectorU32 | .vectorI64 | .vectorU64 | .vectorFloat | .bitvector | .setValue
  | .mapValueValue => pure ()
  | .bitvectorPacked =>
      if 27 < packedNBits v.data then fail "packed bitvector has too many bits" else pure ()
  | .vectorEmpty =>
      if v.data ≠ 0 then fail "empty vectors must contain data value 0" else pure ()
  | .unicode | .string | .bitvector01 | .bitvector10 | .bitvector0 | .bitvector1 | .i32 | .u32
  | .float => pure ()
  | .boolean =>
      if v.data ≠ 0 ∧ v.data ≠ 1 then fail "booleans must contain 0 or 1 in data field"
      else pure ()
  | .null => if v.data ≠ 0 then fail "NULLs must contain 0 in the data field" else pure ()
  | .emptySlot =>
      if v.data ≠ 0 then fail "EMPTY_SLOT must contain 0 in the data field" else pure ()
  | _ => fail "unknown type"

/-! ## Heap objects -/

/-- `pointless_require_heap`. -/
def requireHeap (offset nBytes : UInt64) : Bool :=
  let pastLastByte := intopU64Add (intopU64Init offset) (intopU64Init nBytes)
  !pastLastByte.isOverflow && pastLastByte.value.toNat ≤ p.heap.length

/-- The size check of an object of `4 + itemLen * count` bytes. -/
def requireBody (offset itemLen count : UInt64) : Bool :=
  let nBytes := intopU64Add (intopU64Init 4) (intopU64Mult (intopU64Init itemLen)
    (intopU64Init count))
  !nBytes.isOverflow && requireHeap p offset nBytes.value

/-- The `item_len` switch of `pointless_validate_vector_heap`, which leaves 0 for
any other type. -/
def vectorHeapItemLen (t : ValueType) : Nat := (vectorItemLen t).getD 0

/-- `pointless_validate_vector_heap`. -/
def validateVectorHeap : Res Unit := do
  let offset ← pcOffset p.vectorOffsets v.data
  if ¬requireHeap p (UInt64.ofNat offset) 4 then fail "vector header too large for heap"
  else
    let nItems ← loadU32 p.heap offset
    if ¬requireBody p (UInt64.ofNat offset) (UInt64.ofNat (vectorHeapItemLen v.type))
        nItems.toUInt64 then
      fail "vector body too large for heap"
    else pure ()

/-- `pointless_validate_bitvector_heap`. -/
def validateBitvectorHeap : Res Unit := do
  let offset ← pcOffset p.bitvectorOffsets v.data
  if ¬requireHeap p (UInt64.ofNat offset) 4 then fail "bitvector too large for heap"
  else
    let nBits ← loadU32 p.heap offset
    if ¬requireHeap p (UInt64.ofNat offset) (UInt64.ofNat (4 + iceil nBits.toNat 8)) then
      fail "bitvector too large for heap"
    else pure ()

/-- The character loop of the two checks below: none of the first `len` characters
is the terminator, and the next one is. Characters take `w` bytes. -/
def validateTerminator (w start len : Nat) (premature missing : String) : Res Unit := do
  (List.range len).forM fun i => do
    let c ← loadWord w p.heap (start + w * i)
    if c = 0 then fail premature else pure ()
  let c ← loadWord w p.heap (start + w * len)
  if c ≠ 0 then fail missing else pure ()

/-- `pointless_validate_unicode_heap`. -/
def validateUnicodeHeap : Res Unit := do
  let offset ← pcOffset p.stringUnicodeOffsets v.data
  if ¬requireHeap p (UInt64.ofNat offset) 4 then fail "unicode too large for heap"
  else
    let len ← loadU32 p.heap offset
    if ¬requireBody p (UInt64.ofNat offset) (len.toUInt64 + 1) 4 then
      fail "unicode too large for heap"
    else
      validateTerminator p 4 (offset + 4) len.toNat "premature end-of-unicode"
        "missing end-of-unicode"

/-- `pointless_validate_string_heap`. -/
def validateStringHeap : Res Unit := do
  let offset ← pcOffset p.stringUnicodeOffsets v.data
  if ¬requireHeap p (UInt64.ofNat offset) 4 then fail "string too large for heap"
  else
    let len ← loadU32 p.heap offset
    if ¬requireBody p (UInt64.ofNat offset) (len.toUInt64 + 1) 1 then
      fail "unicode too large for heap"
    else
      validateTerminator p 1 (offset + 4) len.toNat "premature end-of-string"
        "missing end-of-string"

/-- `pointless_validate_set_heap`. -/
def validateSetHeap : Res Unit := do
  let offset ← pcOffset p.setOffsets v.data
  if ¬requireHeap p (UInt64.ofNat offset) 24 then fail "set header too large for heap"
  else
    let hashVector ← setHashVector p v
    if hashVector.type ≠ .vectorU32 then
      fail "set hash vector not of type POINTLESS_VECTOR_U32"
    else
      let keyVector ← setKeyVector p v
      if keyVector.type ≠ .vectorValueHashable then
        fail "set key vector not of type POINTLESS_VECTOR_VALUE_HASHABLE"
      else pure ()

/-- The message for a map whose value vector has another type. -/
def mapValueVectorMessage : String :=
  "map key vector not of type POINTLESS_VECTOR_VALUE or POINTLESS_VECTOR_VALUE_HASHABLE"

/-- `pointless_validate_map_heap`. -/
def validateMapHeap : Res Unit := do
  let offset ← pcOffset p.mapOffsets v.data
  if ¬requireHeap p (UInt64.ofNat offset) 32 then fail "map header too large for heap"
  else
    let hashVector ← mapHashVector p v
    if hashVector.type ≠ .vectorU32 then
      fail "map hash vector not of type POINTLESS_VECTOR_U32"
    else
      let keyVector ← mapKeyVector p v
      if keyVector.type ≠ .vectorValueHashable then
        fail "map key vector not of type POINTLESS_VECTOR_VALUE_HASHABLE"
      else
        let valueVector ← mapValueVector p v
        if valueVector.type ≠ .vectorValueHashable ∧ valueVector.type ≠ .vectorValue then
          fail mapValueVectorMessage
        else pure ()

/-- `pointless_validate_heap_value`. -/
def validateHeapValue : Res Unit :=
  match v.type with
  | .vectorValue | .vectorValueHashable | .vectorI8 | .vectorU8 | .vectorI16 | .vectorU16
  | .vectorI32 | .vectorU32 | .vectorI64 | .vectorU64 | .vectorFloat => validateVectorHeap p v
  | .vectorEmpty => pure ()
  | .unicode => validateUnicodeHeap p v
  | .string => validateStringHeap p v
  | .bitvector => validateBitvectorHeap p v
  | .bitvector0 | .bitvector1 | .bitvector01 | .bitvector10 | .bitvectorPacked => pure ()
  | .setValue => validateSetHeap p v
  | .mapValueValue => validateMapHeap p v
  | .emptySlot => pure ()
  | .i32 | .u32 | .float | .boolean | .null => pure ()
  | _ => fail "unknown type"

end Checks

/-! ## Hash tables -/

section HashTable

variable (fuel : Nat) (p : OpenFile) (nBuckets : UInt32) (hashAt : Nat → Res UInt32)
  (keyAt : Nat → Res Value)

/-- The round of the counting loop for bucket `i`, on `n_used` and `n_empty`. -/
def countSlot (valueAt : Option (Nat → Res Value)) (counts : Nat × Nat) (i : Nat) :
    Res (Nat × Nat) := do
  let key ← keyAt i
  if key.type = .emptySlot then
    match valueAt with
    | none => pure (counts.1, counts.2 + 1)
    | some valueAt => do
        let value ← valueAt i
        if value.type ≠ .emptySlot then
          fail "empty slot in key vector does not imply an empty slot in value vector"
        else pure (counts.1, counts.2 + 1)
  else pure (counts.1 + 1, counts.2)

/-- The hash in a bucket is that of its key. An empty slot is checked like a key. -/
def checkSlotHash (i : Nat) : Res Unit := do
  let key ← keyAt i
  if ¬isHashable key.type then fail "key in set/map is not hashable"
  else
    let hash ← hashReader32 p fuel key
    let stored ← hashAt i
    if hash ≠ stored then fail "hash for object in hash-table does not match hash in slot"
    else pure ()

/-- Probing for the key of a bucket leads to this bucket. -/
def checkSlotProbe (i : Nat) : Res Unit := do
  let key ← keyAt i
  if key.type = .emptySlot then pure ()
  else
    let hash ← hashAt i
    let probe ← hashTableProbe fuel p hash key nBuckets hashAt keyAt
    if probe ≠ some (UInt32.ofNat i) then
      fail "probing of key in hash-table, does not match the place it is in"
    else pure ()

/-- `pointless_hash_table_validate`. -/
def hashTableValidate (nItems : UInt32) (valueAt : Option (Nat → Res Value)) : Res Unit := do
  let expected ← hashComputeNBuckets nItems
  if expected ≠ nBuckets then fail "invalid number of buckets in hash table"
  else
    let counts ← (List.range nBuckets.toNat).foldlM (countSlot keyAt valueAt) (0, 0)
    if counts.2 = 0 then fail "there are no empty slots in hash table, wtf"
    else if counts.1 ≠ nItems.toNat then
      fail "number of non-empty slots in hash-table, does not match item count"
    else do
      (List.range nBuckets.toNat).forM (checkSlotHash fuel p hashAt keyAt)
      (List.range nBuckets.toNat).forM (checkSlotProbe fuel p nBuckets hashAt keyAt)

end HashTable

/-- `pointless_validate_set_complicated`. -/
def validateSetComplicated (fuel : Nat) (p : OpenFile) (v : Value) : Res Unit := do
  let hashes ← setHashVector p v
  let keys ← setKeyVector p v
  let nHash ← readerVectorNItems p hashes
  let nKeys ← readerVectorNItems p keys
  if nHash ≠ nKeys then
    fail "set hash and key vectors do not contain the same number of items"
  else
    let nItems ← readerSetNItems p v
    hashTableValidate fuel p nKeys (hashVectorAt p hashes) (readerVectorValue p keys) nItems none

/-- `pointless_validate_map_complicated`. -/
def validateMapComplicated (fuel : Nat) (p : OpenFile) (v : Value) : Res Unit := do
  let hashes ← mapHashVector p v
  let keys ← mapKeyVector p v
  let values ← mapValueVector p v
  let nHash ← readerVectorNItems p hashes
  let nKeys ← readerVectorNItems p keys
  let nValues ← readerVectorNItems p values
  if nHash ≠ nKeys ∨ nHash ≠ nValues then
    fail "map hash, key and value vectors do not contain the same number of items"
  else
    let nItems ← readerMapNItems p v
    hashTableValidate fuel p nKeys (hashVectorAt p hashes) (readerVectorValue p keys) nItems
      (some (readerVectorValue p values))

/-! ## The three passes -/

/-- The bitmasks `vector`, `set` and `map` of `pointless_validate_state_t`. -/
structure Visited where
  vector : Bitmask
  set : Bitmask
  map : Bitmask
  deriving DecidableEq, Repr

/-- Nothing has been visited. -/
def Visited.calloc (h : Header) : Visited :=
  ⟨.calloc h.nVector.toNat, .calloc h.nSet.toNat, .calloc h.nMap.toNat⟩

/-- `pass` of `pointless_validate_state_t`, with what the later passes use. -/
inductive ValidatePass where
  | sanity
  | cycles (cycleMarker : Bitmask)
  | hashTables (fuel : Nat)

/-- `bm_is_set_` and then `bm_set_`; `none` when the bit was set. -/
def markBit (m : Bitmask) (i : Nat) : Res (Option Bitmask) := do
  let seen ← m.isSet i
  if seen then pure none
  else
    let m ← m.set i
    pure (some m)

/-- The test and the marking of the visited bitmasks; `none` for a container that
has been visited before. -/
def markVisited (v : Value) (s : Visited) : Res (Option Visited) :=
  match v.type with
  | .vectorValue | .vectorValueHashable => do
      let marked ← markBit s.vector v.data.toNat
      pure (marked.map fun vector => { s with vector })
  | .setValue => do
      let marked ← markBit s.set v.data.toNat
      pure (marked.map fun set => { s with set })
  | .mapValueValue => do
      let marked ← markBit s.map v.data.toNat
      pure (marked.map fun map => { s with map })
  | _ => pure (some s)

/-- What a pass checks of a value when it first comes to it. -/
def passCheck (p : OpenFile) (pass : ValidatePass) (v : Value) : Res Unit :=
  match pass with
  | .sanity => do
      validateInlineInvariants v
      validateHeapValue p v
  | .cycles cycleMarker =>
      if v.type = .vectorValueHashable then do
        let inCycle ← cycleMarker.isSet (containerId p v).toNat
        if inCycle then fail "POINTLESS_VECTOR_VALUE_HASHABLE is in a cycle" else pure ()
      else pure ()
  | .hashTables fuel =>
      if v.type = .mapValueValue then validateMapComplicated fuel p v
      else if v.type = .setValue then validateSetComplicated fuel p v
      else pure ()

/-- The check that precedes the visited bitmasks, which only the first pass makes. -/
def passRef (p : OpenFile) (pass : ValidatePass) (v : Value) : Res Unit :=
  match pass with
  | .sanity => validateHeapRef p v
  | _ => pure ()

/-- `pointless_validate_pass_cb`. -/
def validatePassCb (p : OpenFile) (pass : ValidatePass) (v : Value) (depth : Nat) (s : Visited) :
    Res (Action × Visited) := do
  if maxDepth ≤ depth then fail "maximum depth exceeded"
  else
    passRef p pass v
    let marked ← markVisited v s
    match marked with
    | none => pure (.moveUp, s)
    | some s =>
        passCheck p pass v
        pure (.visitChildren, s)

/-- One `pointless_walk` of `pointless_validate`, from cleared bitmasks. -/
def validatePass (p : OpenFile) (pass : ValidatePass) : Res Unit := do
  let _ ← walk p (validatePassCb p pass) (.calloc p.header)
  pure ()

/-- `pointless_validate`. -/
def validate (fuel : Nat) (p : OpenFile) : Res Unit := do
  validatePass p .sanity
  let cycleMarker ← cycleMarkerRead p
  validatePass p (.cycles cycleMarker)
  validatePass p (.hashTables fuel)

/-- `pointless_open_b`: the opened file, and what `*error` holds. -/
def openB (fuel : Nat) (buf : List UInt8) : Res (OpenFile × Option String) := do
  let (p, error) ← init buf
  validate fuel p
  pure (p, error)

end Pointless
