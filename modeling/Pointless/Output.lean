import Pointless.CreateKeys
import Pointless.CycleMarker

/-!
# Writing a file

`pointless_create_output_and_end_` of `pointless_create.c` with the memory sink,
`pointless_hash_table_create`, and the callbacks of `pointless_cycle_marker_create`.

A loop `for (i = 0; i < n_values; i++)` that only looks at value `i` is a loop over
the first `nValues` values. `fuel` bounds the recursion of the hashes and the probing
of the hash tables, which the code does not bound.
-/

namespace Pointless

open ByteMemory

/-! ## Hash tables -/

/-- The arrays and handles that `pointless_hash_table_create` takes from a set or
map. -/
structure TableParts where
  keys : List UInt32
  values : Option (List UInt32)
  serializeHash : UInt32
  serializeKeys : UInt32
  serializeValues : Option UInt32
  deriving DecidableEq, Repr

/-- The two switches of `pointless_hash_table_create` over the type of the table. -/
def tableParts (c : Create) (v : CreateValue) : Res TableParts :=
  match v.type with
  | .setValue => do
      let set ← cvGetSet c v
      pure ⟨set.keys, none, set.serializeHash, set.serializeKeys, none⟩
  | .mapValueValue => do
      let map ← cvGetMap c v
      pure ⟨map.keys, some map.values, map.serializeHash, map.serializeKeys,
        some map.serializeValues⟩
  | _ => fail
      "pointless_hash_table_create() only support POINTLESS_SET_VALUE and POINTLESS_MAP_VALUE_VALUE"

/-- The round of the loop over the keys: the checks, and the hash. -/
def createKeyHash (fuel : Nat) (c : Create) (key : UInt32) : Res UInt32 := do
  let v ← cvValueAt c key
  if ¬isHashable v.type then
    fail "pointless_hash_table_create(): internal error: key not hashable"
  else if v.type = .emptySlot then fail "key in set/map is of type POINTLESS_EMPTY_SLOT"
  else hashCreate32 c fuel v

/-- The hash vector of a table. -/
def createKeyHashes (fuel : Nat) (c : Create) (keys : List UInt32) (nKeys : UInt32) :
    Res (List UInt32) :=
  (List.range nKeys.toNat).mapM fun i => do
    let key ← arrayGet keys i
    createKeyHash fuel c key

/-- The transfers at the end of `pointless_hash_table_create`. -/
def transferTable (c : Create) (t : TableParts) (buckets : Buckets) : Res Create := do
  let (sh, c) ← createVectorU32Transfer c t.serializeHash buckets.hash
  if sh = createValueFail then fail "unable to transfer hash_serialize vector"
  else
    let (sk, c) ← createVectorValueTransfer c t.serializeKeys buckets.keys
    if sk = createValueFail then fail "unable to transfer keys_serialize vector"
    else
      match t.serializeValues, buckets.values with
      | some serializeValues, some values => do
          let (sv, c) ← createVectorValueTransfer c serializeValues values
          if sv = createValueFail then fail "unable to transfer values_serialize_vector"
          else pure c
      | _, _ => pure c

/-- `pointless_hash_table_create`. -/
def hashTableCreate (fuel : Nat) (c : Create) (hashTable : UInt32) : Res Create := do
  let v ← cvValueAt c hashTable
  let t ← tableParts c v
  let nKeys := UInt32.ofNat t.keys.length
  let nBuckets ← hashComputeNBuckets nKeys
  let (emptySlotHandle, c) := createEmptySlot c
  if emptySlotHandle = createValueFail then fail "out of memory D"
  else
    let hashVector ← createKeyHashes fuel c t.keys nKeys
    let buckets ← hashTablePopulate fuel (cmpCreate c) hashVector t.keys t.values nKeys
      (.fresh t.values.isSome nBuckets emptySlotHandle) nBuckets emptySlotHandle
    transferTable c t buckets

/-! ## Cycle marking -/

/-- The packed `owner` and `value` of the create-time callbacks, with the value that
the handle names. -/
structure CreateNode where
  owner : UInt32
  handle : UInt32
  value : CreateValue
  deriving DecidableEq, Repr

/-- `_pack_owner_and_value`. -/
def createNode (c : Create) (owner handle : UInt32) : Res CreateNode := do
  let value ← cvValueAt c handle
  pure ⟨owner, handle, value⟩

/-- `_create_pointless_is_container`. -/
def createIsContainer (v : CreateNode) : Bool :=
  match v.value.type with
  | .vectorValue | .vectorValueHashable => !v.value.isOutsideVector
  | .setValue | .mapValueValue => true
  | _ => false

/-- `_create_pointless_n_children`. -/
def createNChildren (c : Create) (v : CreateNode) : Res UInt32 :=
  match v.value.type with
  | .setValue => pure 2
  | .mapValueValue => pure 3
  | _ =>
      if v.owner = uint32Max then do
        let vector ← cvGetPrivVector c v.value
        pure (UInt32.ofNat vector.nItems)
      else do
        let owner ← cvValueAt c v.owner
        match owner.type with
        | .setValue => do
            let set ← cvGetSet c owner
            pure (UInt32.ofNat set.keys.length)
        | .mapValueValue => do
            let map ← cvGetMap c owner
            pure (UInt32.ofNat map.keys.length)
        | _ => pure 0

/-- The child of a vector of a set or map: the vectors stand for the arrays of their
owner, which they have not been filled with yet. -/
def createOwnedChild (c : Create) (v : CreateNode) (i : Nat) : Res UInt32 := do
  let owner ← cvValueAt c v.owner
  match owner.type with
  | .setValue => do
      let set ← cvGetSet c owner
      if v.handle = set.serializeKeys then arrayGet set.keys i else pure 0
  | .mapValueValue => do
      let map ← cvGetMap c owner
      if v.handle = map.serializeKeys then arrayGet map.keys i
      else if v.handle = map.serializeValues then arrayGet map.values i
      else pure 0
  | _ => pure 0

/-- `_create_pointless_child_at`. -/
def createChildAt (c : Create) (v : CreateNode) (i : Nat) : Res CreateNode :=
  match v.value.type with
  | .setValue => do
      let set ← cvGetSet c v.value
      createNode c v.handle (if i = 0 then set.serializeHash else set.serializeKeys)
  | .mapValueValue => do
      let map ← cvGetMap c v.value
      createNode c v.handle
        (if i = 0 then map.serializeHash
         else if i = 1 then map.serializeKeys
         else map.serializeValues)
  | _ =>
      if v.owner = uint32Max then do
        let vector ← cvGetPrivVector c v.value
        let child ← vector.itemAtU32 i
        createNode c uint32Max child
      else do
        let child ← createOwnedChild c v i
        if child ≠ uint32Max then createNode c uint32Max child else createNode c 0 0

/-- `pointless_cycle_marker_create`. -/
def cycleMarkerCreate (c : Create) : Res Bitmask := do
  let root ← createNode c uint32Max c.root
  cycleMarker
    { nNodes := UInt32.ofNat c.values.length
      getRoot := root
      isContainer := createIsContainer
      containerId := CreateNode.handle
      nChildren := createNChildren c
      childAt := createChildAt c }

/-! ## Renumbering -/

/-- `new_priv_vector_values` and the four counters. -/
structure Numbering where
  newPrivVectorValues : List Dynarray
  nPrivVectors : UInt32
  nOutsideVectors : UInt32
  nSets : UInt32
  nMaps : UInt32
  deriving DecidableEq, Repr

/-- The round of the first loop for the value `v`. -/
def renumberValue (c : Create) (v : CreateValue) (s : Numbering) :
    Res (CreateValue × Numbering) :=
  match v.type with
  | .vectorI8 | .vectorU8 | .vectorI16 | .vectorU16 | .vectorI32 | .vectorU32 | .vectorI64
  | .vectorU64 | .vectorFloat | .vectorValue =>
      if v.isOutsideVector then pure (v, { s with nOutsideVectors := s.nOutsideVectors + 1 })
      else do
        let vector ← cvGetPrivVector c v
        if vector.nItems = 0 ∧ ¬v.isSetMapVector then
          pure ({ v with type := .vectorEmpty, data := 0 }, s)
        else
          pure ({ v with data := s.nPrivVectors },
            { s with
              newPrivVectorValues := s.newPrivVectorValues ++ [vector]
              nPrivVectors := s.nPrivVectors + 1 })
  | .setValue => pure ({ v with data := s.nSets }, { s with nSets := s.nSets + 1 })
  | .mapValueValue => pure ({ v with data := s.nMaps }, { s with nMaps := s.nMaps + 1 })
  | _ => pure (v, s)

/-- The first loop. -/
def renumberValues (c : Create) : List CreateValue → Numbering →
    Res (List CreateValue × Numbering)
  | [], s => .ok ([], s)
  | v :: rest, s => do
      let (v, s) ← renumberValue c v s
      let (rest, s) ← renumberValues c rest s
      pure (v :: rest, s)

/-! ## Tagging and compression -/

/-- The loop that tags the vectors which the cycle marker has left unmarked. -/
def markHashable (cycleMarker : Bitmask) (values : List CreateValue) : Res (List CreateValue) :=
  values.zipIdx.mapM fun (v, i) =>
    if v.type = .vectorValue ∧ ¬v.isOutsideVector then do
      let marked ← cycleMarker.isSet i
      pure (if marked then v else { v with type := .vectorValueHashable })
    else pure v

/-- `min_int`, `max_int`, `init_int` and `init_float` of
`pointless_create_vector_compression`. -/
structure ItemRange where
  minInt : Int
  maxInt : Int
  initInt : Bool
  initFloat : Bool
  deriving DecidableEq, Repr

/-- An integer item; `none` is the early return. -/
def ItemRange.addInt (s : ItemRange) (curInt : Int) : Option ItemRange :=
  if s.initFloat then none
  else if ¬s.initInt then some { s with minInt := curInt, maxInt := curInt, initInt := true }
  else some { s with minInt := min s.minInt curInt, maxInt := max s.maxInt curInt }

/-- The round of the loop of `pointless_create_vector_compression`. -/
def ItemRange.add (s : ItemRange) (item : CreateValue) : Option ItemRange :=
  match item.type with
  | .i32 => s.addInt (dataI32 item.data)
  | .u32 => s.addInt item.data.toNat
  | .float => if s.initInt then none else some { s with initFloat := true }
  | _ => none

/-- The loop, over the items from `i` on; `none` is the early return. -/
def itemRange (c : Create) (vector : Dynarray) : Nat → Nat → ItemRange → Res (Option ItemRange)
  | 0, _, s => .ok (some s)
  | n + 1, i, s => do
      let handle ← vector.itemAtU32 i
      let item ← cvValueAt c handle
      match s.add item with
      | none => pure none
      | some s => itemRange c vector n (i + 1) s

/-- The type for a range of integers. The last branch is the `return 0` after an
`assert(0)`. -/
def rangeType (minInt maxInt : Int) : ValueType :=
  if 0 ≤ minInt ∧ maxInt ≤ 255 then .vectorU8
  else if 0 ≤ minInt ∧ maxInt ≤ 65535 then .vectorU16
  else if 0 ≤ minInt ∧ maxInt ≤ 4294967295 then .vectorU32
  else if -128 ≤ minInt ∧ maxInt ≤ 127 then .vectorI8
  else if -32768 ≤ minInt ∧ maxInt ≤ 32767 then .vectorI16
  else if -2147483648 ≤ minInt ∧ maxInt ≤ 2147483647 then .vectorI32
  else .vectorValue

/-- `pointless_create_vector_compression`. -/
def createVectorCompression (c : Create) (v : CreateValue) : Res ValueType := do
  let vector ← cvGetPrivVector c v
  let range ← itemRange c vector vector.nItems 0 ⟨0, 0, false, false⟩
  match range with
  | none => pure v.type
  | some s => pure (if s.initFloat then .vectorFloat else rangeType s.minInt s.maxInt)

/-- A vector that compression may be tried on. -/
def CreateValue.compressible (v : CreateValue) : Bool :=
  (v.type == .vectorValue || v.type == .vectorValueHashable) &&
    !v.isOutsideVector && !v.isSetMapVector

/-- A vector with the type that compression gave it. -/
def CreateValue.compressed (v : CreateValue) (type : ValueType) : CreateValue :=
  { v with
    type
    isCompressedVector :=
      v.isCompressedVector || (type != .vectorValue && type != .vectorValueHashable) }

/-- The round of the compression loop for value `i`. -/
def compressValue (c : Create) (i : Nat) : Res Create := do
  let v ← cvValueAt c (UInt32.ofNat i)
  if v.compressible then
    let type ← createVectorCompression c v
    pure { c with values := c.values.set i (v.compressed type) }
  else pure c

/-! ## Preparation -/

/-- The state when writing starts. -/
structure Prepared where
  c : Create
  nValues : Nat
  nPrivVectors : UInt32
  nOutsideVectors : UInt32
  nSets : UInt32
  nMaps : UInt32

/-- A loop over the values that builds the tables of one type. -/
def createTables (fuel : Nat) (type : ValueType) (nValues : Nat) (c : Create) : Res Create :=
  (List.range nValues).foldlM (fun c i => do
    let v ← cvValueAt c (UInt32.ofNat i)
    if v.type = type then hashTableCreate fuel c (UInt32.ofNat i) else pure c) c

/-- `pointless_create_output_and_end_` up to compression. -/
def prepareVectors (c : Create) : Res (Create × Numbering) := do
  let (values, s) ← renumberValues c c.values ⟨[], 0, 0, 0, 0⟩
  let c := { c with values, privVectorValues := s.newPrivVectorValues }
  let cycleMarker ← cycleMarkerCreate c
  let values ← markHashable cycleMarker c.values
  let c ← (List.range values.length).foldlM compressValue { c with values }
  pure (c, s)

/-- `pointless_create_output_and_end_` up to the header. -/
def prepare (fuel : Nat) (c : Create) : Res Prepared :=
  if c.version ≠ 2 then fail "unsupported version"
  else if c.root = uint32Max then fail "root has not been set"
  else do
    let nValues := c.values.length
    let (c, s) ← prepareVectors c
    let c ← createTables fuel .setValue nValues c
    let c ← createTables fuel .mapValueValue nValues c
    pure ⟨c, nValues, s.nPrivVectors, s.nOutsideVectors, s.nSets, s.nMaps⟩

/-! ## The memory sink -/

/-- What the tables `{0, 3, 2, 1}` add to a size. -/
def alignPad (n : Nat) : Nat := (4 - n % 4) % 4

/-- `dynarray_write`. An array has less than `2 ^ 64` bytes. -/
def dynarrayWrite (sink buf : List UInt8) : Res (List UInt8) :=
  if sink.length + buf.length < 2 ^ 64 then .ok (sink ++ buf) else fail "out of memory"

/-- `dynarray_align_4`. -/
def dynarrayAlign4 (sink : List UInt8) : Res (List UInt8) :=
  dynarrayWrite sink (List.replicate (alignPad sink.length) 0)

/-- Write the bytes of a part of an object, from a buffer that has to hold them. -/
def writeFrom (sink buffer : List UInt8) (off n : Nat) : Res (List UInt8) :=
  match slice buffer off n with
  | some bytes => dynarrayWrite sink bytes
  | none => fault .outOfBounds

section Writing

variable (p : Prepared)

/-- A loop over the values, for those that `selects` holds of. -/
def forValues {σ : Type} (selects : CreateValue → Bool) (step : CreateValue → σ → Res σ) (s : σ) :
    Res σ :=
  (p.c.values.take p.nValues).foldlM (fun s v => if selects v then step v s else pure s) s

/-- `pointless_create_to_read_value`. -/
def createToReadValue (handle : UInt32) : Res Value := do
  let v ← cvValueAt p.c handle
  pure ⟨v.type, if v.isOutsideVector then v.data + p.nPrivVectors else v.data⟩

/-! ## Header and offsets -/

/-- `header`. -/
def outputHeader : Res Header := do
  let root ← createToReadValue p p.c.root
  pure
    { root
      nStringUnicode := p.c.stringUnicodeMapJudyCount
      nVector := p.nPrivVectors + p.nOutsideVectors
      nBitvector := p.c.bitvectorMapJudyCount
      nSet := p.nSets
      nMap := p.nMaps
      version := p.c.version }

/-- The bytes of a `pointless_header_t`. -/
def bytesHeader (h : Header) : List UInt8 :=
  bytesValue h.root ++ bytesU32 h.nStringUnicode ++ bytesU32 h.nVector ++ bytesU32 h.nBitvector ++
    bytesU32 h.nSet ++ bytesU32 h.nMap ++ bytesU32 h.version

/-- The sink and `current_offset_64`. -/
structure OffsetPass where
  sink : List UInt8
  currentOffset64 : UInt64
  deriving DecidableEq, Repr

/-- `align_next_4_64`. -/
def alignNext464 (v : UInt64) : UInt64 := v + UInt64.ofNat (alignPad v.toNat)

/-- `PC_WRITE_OFFSET`, `PC_INCREMENT_OFFSET` and `PC_ALIGN_OFFSET` for an object of
`size` bytes. -/
def writeOffset (size : Nat) (s : OffsetPass) : Res OffsetPass := do
  let sink ← dynarrayWrite s.sink (bytesU64 s.currentOffset64)
  pure ⟨sink, alignNext464 (s.currentOffset64 + UInt64.ofNat size)⟩

def isStringUnicode (v : CreateValue) : Bool := v.type == .unicode || v.type == .string

/-- The offset of a string or unicode. -/
def offsetStringUnicode (v : CreateValue) (s : OffsetPass) : Res OffsetPass := do
  let buffer ← cvGetStringUnicode p.c v
  let len ← loadU32 buffer 0
  writeOffset (4 + (len + 1).toNat * charLen v.type) s

/-- `vector_heap_size`, a `uint32_t`, of a vector whose items take `w` bytes. -/
def vectorHeapSize (w : Option Nat) (nItems : UInt32) : UInt32 :=
  match w with
  | some w => UInt32.ofNat (4 + nItems.toNat * w)
  | none => 0

def offsetsPrivVector (v : CreateValue) : Bool :=
  isVectorType v.type && !v.isOutsideVector && v.type != .vectorEmpty

/-- The offset of a private vector. -/
def offsetPrivVector (v : CreateValue) (s : OffsetPass) : Res OffsetPass := do
  let vector ← cvGetPrivVector p.c v
  writeOffset (vectorHeapSize (vectorItemLen v.type) (UInt32.ofNat vector.nItems)).toNat s

/-- The bytes that an item takes in a caller's vector. -/
def outsideItemLen (t : ValueType) : Option Nat :=
  if t = .vectorValue ∨ t = .vectorValueHashable then none else vectorItemLen t

def offsetsOutsideVector (v : CreateValue) : Bool :=
  isVectorType v.type && v.isOutsideVector && v.type != .vectorEmpty

/-- The offset of a caller's vector. -/
def offsetOutsideVector (v : CreateValue) (s : OffsetPass) : Res OffsetPass := do
  let vector ← cvGetOutsideVector p.c v
  writeOffset (vectorHeapSize (outsideItemLen v.type) vector.nItems).toNat s

/-- The offset of a bitvector. -/
def offsetBitvector (v : CreateValue) (s : OffsetPass) : Res OffsetPass := do
  let buffer ← cvGetBitvector p.c v
  let len ← loadU32 buffer 0
  writeOffset (4 + iceil len.toNat 8) s

/-- The five offset tables. -/
def writeOffsets (s : OffsetPass) : Res OffsetPass := do
  let s ← forValues p isStringUnicode (offsetStringUnicode p) s
  let s ← forValues p offsetsPrivVector (offsetPrivVector p) s
  let s ← forValues p offsetsOutsideVector (offsetOutsideVector p) s
  let s ← forValues p (fun v => v.type == .bitvector) (offsetBitvector p) s
  let s ← forValues p (fun v => v.type == .setValue) (fun _ => writeOffset 24) s
  forValues p (fun v => v.type == .mapValueValue) (fun _ => writeOffset 32) s

/-! ## Heap -/

/-- `pointless_serialize_string` and `pointless_serialize_unicode`. -/
def serializeStringUnicode (v : CreateValue) (sink : List UInt8) : Res (List UInt8) := do
  let buffer ← cvGetStringUnicode p.c v
  let len ← loadU32 buffer 0
  let sink ← dynarrayWrite sink (bytesU32 len)
  let sink ← writeFrom sink buffer 4 ((len + 1).toNat * charLen v.type)
  dynarrayAlign4 sink

/-- The bytes of an item of a vector of handles that has been compressed. -/
def compressedItemBytes (t : ValueType) (item : CreateValue) : List UInt8 :=
  match t with
  | .vectorI8 | .vectorU8 => encode 1 (UInt64.ofInt (createGetIntAsInt64 item)).toNat
  | .vectorI16 | .vectorU16 => encode 2 (UInt64.ofInt (createGetIntAsInt64 item)).toNat
  | .vectorI32 | .vectorU32 => encode 4 (UInt64.ofInt (createGetIntAsInt64 item)).toNat
  | .vectorFloat => bytesU32 item.data
  | _ => []

/-- The bytes of an item of a vector of handles. -/
def handleItemBytes (v : CreateValue) (handle : UInt32) : Res (List UInt8) :=
  if v.type = .vectorValue ∨ v.type = .vectorValueHashable then
    bytesValue <$> createToReadValue p handle
  else compressedItemBytes v.type <$> cvValueAt p.c handle

/-- `pointless_serialize_vector_priv`. -/
def serializeVectorPriv (v : CreateValue) (sink : List UInt8) : Res (List UInt8) := do
  let vector ← cvGetPrivVector p.c v
  let nItems := UInt32.ofNat vector.nItems
  let sink ← dynarrayWrite sink (bytesU32 nItems)
  let isUncompressed := v.type = .vectorValue ∨ v.type = .vectorValueHashable
  if ¬isUncompressed ∧ ¬v.isCompressedVector then do
    let sink ← writeFrom sink vector.data 0 ((vectorItemLen v.type).getD 0 * nItems.toNat)
    dynarrayAlign4 sink
  else do
    let sink ← (List.range nItems.toNat).foldlM (fun sink i => do
      let handle ← vector.itemAtU32 i
      let bytes ← handleItemBytes p v handle
      dynarrayWrite sink bytes) sink
    dynarrayAlign4 sink

/-- `pointless_serialize_vector_outside`. -/
def serializeVectorOutside (v : CreateValue) (sink : List UInt8) : Res (List UInt8) := do
  let vector ← cvGetOutsideVector p.c v
  let sink ← dynarrayWrite sink (bytesU32 vector.nItems)
  match outsideItemLen v.type with
  | none => fail "pointless_serialize_vector_outside(): internal error"
  | some wLen => do
      let sink ← writeFrom sink vector.items 0 (wLen * vector.nItems.toNat)
      dynarrayAlign4 sink

/-- `pointless_serialize_bitvector`. -/
def serializeBitvector (v : CreateValue) (sink : List UInt8) : Res (List UInt8) := do
  let buffer ← cvGetBitvector p.c v
  let len ← loadU32 buffer 0
  let sink ← dynarrayWrite sink (bytesU32 len)
  let sink ← writeFrom sink buffer 4 (iceil len.toNat 8)
  dynarrayAlign4 sink

/-- `pointless_serialize_set`. -/
def serializeSet (v : CreateValue) (sink : List UInt8) : Res (List UInt8) := do
  let set ← cvGetSet p.c v
  let hashVector ← createToReadValue p set.serializeHash
  let keyVector ← createToReadValue p set.serializeKeys
  let sink ← dynarrayWrite sink
    (bytesU32 (UInt32.ofNat set.keys.length) ++ bytesU32 0 ++ bytesValue hashVector ++
      bytesValue keyVector)
  dynarrayAlign4 sink

/-- `pointless_serialize_map`. -/
def serializeMap (v : CreateValue) (sink : List UInt8) : Res (List UInt8) := do
  let map ← cvGetMap p.c v
  let hashVector ← createToReadValue p map.serializeHash
  let keyVector ← createToReadValue p map.serializeKeys
  let valueVector ← createToReadValue p map.serializeValues
  let sink ← dynarrayWrite sink
    (bytesU32 (UInt32.ofNat map.keys.length) ++ bytesU32 0 ++ bytesValue hashVector ++
      bytesValue keyVector ++ bytesValue valueVector)
  dynarrayAlign4 sink

def serializesPrivVector (v : CreateValue) : Bool :=
  match v.type with
  | .vectorValue | .vectorValueHashable => true
  | .vectorI8 | .vectorU8 | .vectorI16 | .vectorU16 | .vectorI32 | .vectorU32 | .vectorI64
  | .vectorU64 | .vectorFloat => !v.isOutsideVector
  | _ => false

def serializesOutsideVector (v : CreateValue) : Bool :=
  match v.type with
  | .vectorI8 | .vectorU8 | .vectorI16 | .vectorU16 | .vectorI32 | .vectorU32 | .vectorI64
  | .vectorU64 | .vectorFloat => v.isOutsideVector
  | _ => false

/-- The heap. -/
def writeHeap (sink : List UInt8) : Res (List UInt8) := do
  let sink ← forValues p isStringUnicode (serializeStringUnicode p) sink
  let sink ← forValues p serializesPrivVector (serializeVectorPriv p) sink
  let sink ← forValues p serializesOutsideVector (serializeVectorOutside p) sink
  let sink ← forValues p (fun v => v.type == .bitvector) (serializeBitvector p) sink
  let sink ← forValues p (fun v => v.type == .setValue) (serializeSet p) sink
  forValues p (fun v => v.type == .mapValueValue) (serializeMap p) sink

/-- `pointless_create_output_and_end_` from the header on. -/
def writeOut : Res (List UInt8) := do
  let header ← outputHeader p
  let sink ← dynarrayWrite [] (bytesHeader header)
  let s ← writeOffsets p ⟨sink, 0⟩
  writeHeap p s.sink

end Writing

/-- `pointless_create_output_and_end_b`: the bytes of the file. -/
def createOutputAndEndB (fuel : Nat) (c : Create) : Res (List UInt8) := do
  let p ← prepare fuel c
  writeOut p

end Pointless
