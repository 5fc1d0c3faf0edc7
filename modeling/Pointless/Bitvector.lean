import Pointless.Defs

/-!
# Bitvectors

`pointless_bitvector.c`: the six encodings of a bitvector, its hash and its
comparison. A bitvector is a type, its 32-bit data and a pointer `buffer` to
`uint32_t n_bits` followed by the bits; the pointer is null for the encodings
that are kept inline.
-/

namespace Pointless

/-- `bm_is_set_`. -/
def bmIsSet (bits : Ptr) (bit : Nat) : Res Bool :=
  match bits with
  | none => fault .nullPointer
  | some m => (fun byte => byte.toNat.testBit (bit % 8)) <$> loadU8 m (bit / 8)

/-- `pointless_bitvector_bits`. -/
def bitvectorBits (buffer : Ptr) : Ptr := buffer.map (List.drop 4)

/-- `pointless_bitvector_is_set_bits`. The packed bits start at bit 5 of the
data word. -/
def bitvectorIsSetBits (t : ValueType) (data : UInt32) (bits : Ptr) (bit : Nat) : Res Bool :=
  match t with
  | .bitvector => bmIsSet bits bit
  | .bitvector0 => .ok false
  | .bitvector1 => .ok true
  | .bitvector01 => .ok (nBitsA data ≤ bit)
  | .bitvector10 => .ok (bit < nBitsA data)
  | .bitvectorPacked => bmIsSet (some (bytesU32 data)) (bit + 5)
  | _ => .ok false

/-- `pointless_bitvector_n_bits`. -/
def bitvectorNBits (t : ValueType) (data : UInt32) (buffer : Ptr) : Res UInt32 :=
  match t with
  | .bitvector =>
      match buffer with
      | none => fault .nullPointer
      | some m => loadU32 m 0
  | .bitvector0 | .bitvector1 => .ok data
  | .bitvector01 | .bitvector10 => .ok (UInt32.ofNat (nBitsA data + nBitsB data))
  | .bitvectorPacked => .ok (UInt32.ofNat (packedNBits data))
  | _ => .ok 0

/-- `pointless_bitvector_is_set`. -/
def bitvectorIsSet (t : ValueType) (data : UInt32) (buffer : Ptr) (bit : Nat) : Res Bool :=
  bitvectorIsSetBits t data (if t = .bitvector then bitvectorBits buffer else none) bit

/-- `HASH_BITVECTOR_SEED`. -/
def hashBitvectorSeed : UInt32 := 1000000001

/-- The inner loop of `pointless_bitvector_hash_32_priv`: bits `8 * k` to
`8 * k + 7`, as far as the bitvector goes, as a byte. -/
def bitvectorHashByte (t : ValueType) (data : UInt32) (nBits : Nat) (bits : Ptr) (k : Nat) :
    Res UInt32 :=
  (List.range (min 8 (nBits - 8 * k))).foldlM (fun b j => do
    let isSet ← bitvectorIsSetBits t data bits (8 * k + j)
    pure (if isSet then b ||| (1 <<< UInt32.ofNat j) else b)) 0

/-- `pointless_bitvector_hash_32_priv`. -/
def bitvectorHash32Priv (t : ValueType) (data : UInt32) (nBits : Nat) (bits : Ptr) :
    Res UInt32 :=
  (List.range (iceil nBits 8)).foldlM (fun h k => do
    let b ← bitvectorHashByte t data nBits bits k
    pure (h * hashBitvectorSeed + b)) 1

/-- `pointless_bitvector_hash_32`. -/
def bitvectorHash32 (t : ValueType) (data : UInt32) (buffer : Ptr) : Res UInt32 := do
  let nBits ← bitvectorNBits t data buffer
  bitvectorHash32Priv t data nBits.toNat (if t = .bitvector then bitvectorBits buffer else none)

/-- Compare position by position; the first difference decides, and `last` is
the verdict when there is none. -/
def cmpSeq (compare : Nat → Res Int) (last : Int) : List Nat → Res Int
  | [] => .ok last
  | i :: rest => do
      let c ← compare i
      if c ≠ 0 then pure c else cmpSeq compare last rest

/-- `pointless_bitvector_cmp_buffer_buffer`. The bits of both operands are read
under the type of the first. -/
def bitvectorCmpBufferBuffer (tA : ValueType) (dataA : UInt32) (bufferA : Ptr)
    (tB : ValueType) (dataB : UInt32) (bufferB : Ptr) : Res Int := do
  let nBitsA ← bitvectorNBits tA dataA bufferA
  let nBitsB ← bitvectorNBits tB dataB bufferB
  cmpSeq (fun i => do
      let ba ← bitvectorIsSet tA dataA bufferA i
      let bb ← bitvectorIsSet tA dataB bufferB i
      pure (simpleCmp ba.toNat bb.toNat))
    (simpleCmp nBitsA nBitsB) (List.range (min nBitsA.toNat nBitsB.toNat))

end Pointless
