import Pointless.Bitvector

/-!
# Opened files

`pointless_reader.c`: laying a `pointless_t` over a buffer, and the accessors
that read values back out of its heap.

A buffer is a header of 32 bytes, five tables of 64-bit offsets and the heap.
The heap is kept as the memory it is, and every accessor reads it through a
checked load at the offset its table gives. An index at or past the header count
of its table faults as well, although in C it would land in the next table.
-/

namespace Pointless

/-- `pointless_header_t`. -/
structure Header where
  root : Value
  nStringUnicode : UInt32
  nVector : UInt32
  nBitvector : UInt32
  nSet : UInt32
  nMap : UInt32
  version : UInt32
  deriving DecidableEq, Repr

/-- `pointless_t`: an opened file. -/
structure OpenFile where
  header : Header
  stringUnicodeOffsets : List UInt64
  vectorOffsets : List UInt64
  bitvectorOffsets : List UInt64
  setOffsets : List UInt64
  mapOffsets : List UInt64
  heap : List UInt8
  deriving DecidableEq, Repr

/-! ## Opening -/

/-- Read a `pointless_header_t`. -/
def loadHeader (buf : List UInt8) : Res Header := do
  let root ← loadValue buf 0
  let nStringUnicode ← loadU32 buf 8
  let nVector ← loadU32 buf 12
  let nBitvector ← loadU32 buf 16
  let nSet ← loadU32 buf 20
  let nMap ← loadU32 buf 24
  let version ← loadU32 buf 28
  pure ⟨root, nStringUnicode, nVector, nBitvector, nSet, nMap, version⟩

/-- The offset table of `n` entries that starts at `start`. -/
def loadOffsets (buf : List UInt8) (start n : Nat) : Res (List UInt64) :=
  (List.range n).mapM fun i => loadU64 buf (start + 8 * i)

/-- The version switch of `pointless_init`. A version 1 file sets `*error` and
falls through, so that opening it goes on; the result is what `*error` holds. -/
def initVersion (version : UInt32) : Res (Option String) :=
  if version = 0 then fail "old-hash file version not supported"
  else if version = 1 then .ok (some "32-bit offset files no longer supported")
  else if version = 2 then .ok none
  else fail "file version not supported"

/-- `mandatory_size`: the header and the five offset tables. -/
def Header.mandatorySize (h : Header) : Nat :=
  32 + h.nStringUnicode.toNat * 8 + h.nVector.toNat * 8 + h.nBitvector.toNat * 8 +
    h.nSet.toNat * 8 + h.nMap.toNat * 8

/-- The offset tables, one behind the other from the end of the header on, and the
heap behind them. -/
def layTables (buf : List UInt8) (header : Header) : Res OpenFile := do
  let vectorStart := 32 + 8 * header.nStringUnicode.toNat
  let bitvectorStart := vectorStart + 8 * header.nVector.toNat
  let setStart := bitvectorStart + 8 * header.nBitvector.toNat
  let mapStart := setStart + 8 * header.nSet.toNat
  let stringUnicodeOffsets ← loadOffsets buf 32 header.nStringUnicode.toNat
  let vectorOffsets ← loadOffsets buf vectorStart header.nVector.toNat
  let bitvectorOffsets ← loadOffsets buf bitvectorStart header.nBitvector.toNat
  let setOffsets ← loadOffsets buf setStart header.nSet.toNat
  let mapOffsets ← loadOffsets buf mapStart header.nMap.toNat
  pure ⟨header, stringUnicodeOffsets, vectorOffsets, bitvectorOffsets, setOffsets, mapOffsets,
    buf.drop header.mandatorySize⟩

/-- `pointless_init` up to validation: the opened file, and what `*error` holds. -/
def init (buf : List UInt8) : Res (OpenFile × Option String) :=
  if buf.length < 32 then fail "header missing"
  else do
    let header ← loadHeader buf
    let error ← initVersion header.version
    if buf.length < header.mandatorySize then
      fail "file is too small to hold offset vectors"
    else
      let p ← layTables buf header
      pure (p, error)

/-- `pointless_root`. -/
def OpenFile.root (p : OpenFile) : Value := p.header.root

/-- `PC_OFFSET`. -/
def pcOffset (offsets : List UInt64) (i : UInt32) : Res Nat :=
  match offsets[i.toNat]? with
  | some off => .ok off.toNat
  | none => fault .outOfBounds

section Accessors

variable (p : OpenFile) (v : Value)

/-! ## Strings and unicodes -/

/-- `pointless_reader_unicode_len` and `pointless_reader_string_len`. -/
def readerStringUnicodeLen : Res UInt32 := do
  let off ← pcOffset p.stringUnicodeOffsets v.data
  loadU32 p.heap off

/-- `pointless_reader_string_value_ascii` and `pointless_reader_unicode_value_ucs4`:
the memory from the first character on. -/
def readerStringUnicodeValue : Res (List UInt8) := do
  let off ← pcOffset p.stringUnicodeOffsets v.data
  pure (p.heap.drop (off + 4))

/-! ## Vectors -/

/-- `pointless_reader_vector_n_items`. -/
def readerVectorNItems : Res UInt32 :=
  if v.type = .vectorEmpty then .ok 0
  else do
    let off ← pcOffset p.vectorOffsets v.data
    loadU32 p.heap off

/-- `pointless_reader_vector_base_ptr`, as a heap position. The null pointer it
returns for an empty vector faults, since every caller dereferences it. -/
def readerVectorBasePtr : Res Nat :=
  if v.type = .vectorEmpty then fault .nullPointer
  else do
    let off ← pcOffset p.vectorOffsets v.data
    pure (off + 4)

/-- Item `i` of a vector whose items take `w` bytes. -/
def readerVectorWord (w i : Nat) : Res Nat := do
  let base ← readerVectorBasePtr p v
  loadWord w p.heap (base + w * i)

/-- `pointless_reader_vector_value(p, v)[i]`. -/
def readerVectorValue (i : Nat) : Res Value := do
  let base ← readerVectorBasePtr p v
  loadValue p.heap (base + 8 * i)

/-- `pointless_reader_vector_i8(p, v)[i]`; the readers below are its siblings. -/
def readerVectorI8 (i : Nat) : Res Int := toSigned 1 <$> readerVectorWord p v 1 i
def readerVectorU8 (i : Nat) : Res Int := Int.ofNat <$> readerVectorWord p v 1 i
def readerVectorI16 (i : Nat) : Res Int := toSigned 2 <$> readerVectorWord p v 2 i
def readerVectorU16 (i : Nat) : Res Int := Int.ofNat <$> readerVectorWord p v 2 i
def readerVectorI32 (i : Nat) : Res Int := toSigned 4 <$> readerVectorWord p v 4 i
def readerVectorU32 (i : Nat) : Res Int := Int.ofNat <$> readerVectorWord p v 4 i
def readerVectorI64 (i : Nat) : Res Int := toSigned 8 <$> readerVectorWord p v 8 i
def readerVectorU64 (i : Nat) : Res Int := Int.ofNat <$> readerVectorWord p v 8 i
def readerVectorFloat (i : Nat) : Res UInt32 := UInt32.ofNat <$> readerVectorWord p v 4 i

/-- `pointless_reader_vector_value_case`. -/
def readerVectorValueCase (i : Nat) : Res CompleteValue :=
  match v.type with
  | .vectorValue | .vectorValueHashable => Value.toComplete <$> readerVectorValue p v i
  | .vectorI8 => completeI32 <$> readerVectorI8 p v i
  | .vectorU8 => completeU32 <$> readerVectorU8 p v i
  | .vectorI16 => completeI32 <$> readerVectorI16 p v i
  | .vectorU16 => completeU32 <$> readerVectorU16 p v i
  | .vectorI32 => completeI32 <$> readerVectorI32 p v i
  | .vectorU32 => completeU32 <$> readerVectorU32 p v i
  | .vectorI64 => completeI64 <$> readerVectorI64 p v i
  | .vectorU64 => completeU64 <$> readerVectorU64 p v i
  | .vectorFloat => completeFloat <$> readerVectorFloat p v i
  | _ => .ok completeNull

/-! ## Bitvectors -/

/-- `pointless_reader_bitvector_buffer`. -/
def readerBitvectorBuffer : Res Ptr := do
  let off ← pcOffset p.bitvectorOffsets v.data
  pure (some (p.heap.drop off))

/-- The buffer as the callers take it: null unless the bits are on the heap. -/
def readerBitvectorPtr : Res Ptr :=
  if v.type = .bitvector then readerBitvectorBuffer p v else .ok none

/-- `pointless_reader_bitvector_n_bits`. -/
def readerBitvectorNBits : Res UInt32 := do
  let buffer ← readerBitvectorPtr p v
  bitvectorNBits v.type v.data buffer

/-- `pointless_reader_bitvector_is_set`. -/
def readerBitvectorIsSet (bit : Nat) : Res Bool := do
  let buffer ← readerBitvectorPtr p v
  bitvectorIsSet v.type v.data buffer bit

/-! ## Sets and maps

A `pointless_set_header_t` is `n_items`, four bytes of padding, the hash vector
and the key vector; a `pointless_map_header_t` has the value vector after them. -/

/-- `pointless_reader_set_n_items`. -/
def readerSetNItems : Res UInt32 := do
  let off ← pcOffset p.setOffsets v.data
  loadU32 p.heap off

/-- `pointless_set_hash_vector`. -/
def setHashVector : Res Value := do
  let off ← pcOffset p.setOffsets v.data
  loadValue p.heap (off + 8)

/-- `pointless_set_key_vector`. -/
def setKeyVector : Res Value := do
  let off ← pcOffset p.setOffsets v.data
  loadValue p.heap (off + 16)

/-- `pointless_reader_map_n_items`. -/
def readerMapNItems : Res UInt32 := do
  let off ← pcOffset p.mapOffsets v.data
  loadU32 p.heap off

/-- `pointless_map_hash_vector`. -/
def mapHashVector : Res Value := do
  let off ← pcOffset p.mapOffsets v.data
  loadValue p.heap (off + 8)

/-- `pointless_map_key_vector`. -/
def mapKeyVector : Res Value := do
  let off ← pcOffset p.mapOffsets v.data
  loadValue p.heap (off + 16)

/-- `pointless_map_value_vector`. -/
def mapValueVector : Res Value := do
  let off ← pcOffset p.mapOffsets v.data
  loadValue p.heap (off + 24)

/-! ## Containers -/

/-- `pointless_n_containers`: one extra for empty vectors. -/
def nContainers : UInt32 := 1 + p.header.nVector + p.header.nSet + p.header.nMap

/-- `pointless_container_id`. -/
def containerId : UInt32 :=
  match v.type with
  | .vectorEmpty => 0
  | .vectorValue | .vectorValueHashable | .vectorI8 | .vectorU8 | .vectorI16 | .vectorU16
  | .vectorI32 | .vectorU32 | .vectorI64 | .vectorU64 | .vectorFloat => 1 + v.data
  | .setValue => 1 + v.data + p.header.nVector
  | .mapValueValue => 1 + v.data + p.header.nVector + p.header.nSet
  | _ => uint32Max

end Accessors

end Pointless
