import Pointless.HashTable

/-!
# Iterating over sets and maps, and looking keys up

The part of `pointless_reader.c` that goes through the buckets of a table. A set
and a map differ in where their header keeps the vectors, and in the value that
comes with a key.
-/

namespace Pointless

section Tables

variable (p : OpenFile)

/-- `pointless_reader_vector_u32(p, v)[i]`, as a hash. -/
def hashVectorAt (v : Value) (i : Nat) : Res UInt32 :=
  UInt32.ofNat <$> readerVectorWord p v 4 i

/-- `pointless_reader_set_n_buckets`. -/
def readerSetNBuckets (s : Value) : Res UInt32 := do
  let keys ← setKeyVector p s
  readerVectorNItems p keys

/-- `pointless_reader_map_n_buckets`. -/
def readerMapNBuckets (m : Value) : Res UInt32 := do
  let keys ← mapKeyVector p m
  readerVectorNItems p keys

/-! ## Iteration -/

/-- The loop of `pointless_reader_set_iter`, which has at most `n` buckets left:
the bucket of the next key. -/
def iterLoop (keyAt : Nat → Res Value) : Nat → Nat → Res (Option Nat)
  | 0, _ => pure none
  | n + 1, i => do
      let key ← keyAt i
      if key.type ≠ .emptySlot then pure (some i) else iterLoop keyAt n (i + 1)

/-- `pointless_reader_set_iter`: the key, and the iteration state after it. -/
def readerSetIter (s : Value) (iterState : UInt32) : Res (Option (Value × UInt32)) := do
  let keys ← setKeyVector p s
  let nBuckets ← readerVectorNItems p keys
  let next ← iterLoop (readerVectorValue p keys) (nBuckets.toNat - iterState.toNat)
    iterState.toNat
  match next with
  | none => pure none
  | some i => do
      let key ← readerVectorValue p keys i
      pure (some (key, UInt32.ofNat (i + 1)))

/-- `pointless_reader_map_iter`. -/
def readerMapIter (m : Value) (iterState : UInt32) :
    Res (Option (Value × Value × UInt32)) := do
  let keys ← mapKeyVector p m
  let values ← mapValueVector p m
  let nBuckets ← readerVectorNItems p keys
  let next ← iterLoop (readerVectorValue p keys) (nBuckets.toNat - iterState.toNat)
    iterState.toNat
  match next with
  | none => pure none
  | some i => do
      let key ← readerVectorValue p keys i
      let value ← readerVectorValue p values i
      pure (some (key, value, UInt32.ofNat (i + 1)))

/-! ## Iteration over the keys of one hash -/

/-- `pointless_reader_set_iter_hash_init`. -/
def readerSetIterHashInit (s : Value) (hash : UInt32) : Res HashIterState := do
  let hashes ← setHashVector p s
  let nBuckets ← readerVectorNItems p hashes
  pure (hashTableProbeHashInit hash nBuckets)

/-- `pointless_reader_map_iter_hash_init`. -/
def readerMapIterHashInit (m : Value) (hash : UInt32) : Res HashIterState := do
  let hashes ← mapHashVector p m
  let nBuckets ← readerVectorNItems p hashes
  pure (hashTableProbeHashInit hash nBuckets)

/-- The loop of `pointless_reader_set_iter_hash`: the next bucket of the hash, and
the state after it. -/
def iterHashLoop (hashAt : Nat → Res UInt32) (keyAt : Nat → Res Value) (hash : UInt32) :
    Nat → HashIterState → Res (Option (UInt32 × HashIterState))
  | 0, _ => fault .diverges
  | fuel + 1, s => do
      let probed ← hashTableProbeHash keyAt s
      match probed with
      | none => pure none
      | some (bucket, s) => do
          let stored ← hashAt bucket.toNat
          if stored = hash then pure (some (bucket, s))
          else iterHashLoop hashAt keyAt hash fuel s

/-- `pointless_reader_set_iter_hash`: the bucket, its key and the state after it. -/
def readerSetIterHash (fuel : Nat) (s : Value) (hash : UInt32) (iterState : HashIterState) :
    Res (Option (UInt32 × Value × HashIterState)) := do
  let hashes ← setHashVector p s
  let keys ← setKeyVector p s
  let next ← iterHashLoop (hashVectorAt p hashes) (readerVectorValue p keys) hash fuel iterState
  match next with
  | none => pure none
  | some (bucket, iterState) => do
      let key ← readerVectorValue p keys bucket.toNat
      pure (some (bucket, key, iterState))

/-- `pointless_reader_map_iter_hash`. -/
def readerMapIterHash (fuel : Nat) (m : Value) (hash : UInt32) (iterState : HashIterState) :
    Res (Option (UInt32 × Value × Value × HashIterState)) := do
  let hashes ← mapHashVector p m
  let keys ← mapKeyVector p m
  let values ← mapValueVector p m
  let next ← iterHashLoop (hashVectorAt p hashes) (readerVectorValue p keys) hash fuel iterState
  match next with
  | none => pure none
  | some (bucket, iterState) => do
      let key ← readerVectorValue p keys bucket.toNat
      let value ← readerVectorValue p values bucket.toNat
      pure (some (bucket, key, value, iterState))

/-! ## Lookup -/

/-- `pointless_reader_set_lookup`: the bucket that `*kk` points to. -/
def readerSetLookup (fuel : Nat) (s k : Value) : Res (Option UInt32) :=
  if ¬isHashable k.type then fail "value is not hashable"
  else do
    let hash ← hashReader32 p fuel k
    let hashes ← setHashVector p s
    let keys ← setKeyVector p s
    let nBuckets ← readerVectorNItems p keys
    hashTableProbe fuel p hash k nBuckets (hashVectorAt p hashes) (readerVectorValue p keys)

/-- `pointless_reader_map_lookup`: the bucket that `*kk` and `*vv` point to. -/
def readerMapLookup (fuel : Nat) (m k : Value) : Res (Option UInt32) :=
  if ¬isHashable k.type then fail "value is not hashable"
  else do
    let hash ← hashReader32 p fuel k
    let hashes ← mapHashVector p m
    let keys ← mapKeyVector p m
    let nBuckets ← readerVectorNItems p keys
    hashTableProbe fuel p hash k nBuckets (hashVectorAt p hashes) (readerVectorValue p keys)

/-- `pointless_reader_set_lookup_ext`, with the callback `cb`. -/
def readerSetLookupExt (fuel : Nat) (s : Value) (hash : UInt32) (cb : CompleteValue → Res UInt32) :
    Res (Option UInt32) := do
  let hashes ← setHashVector p s
  let keys ← setKeyVector p s
  let nBuckets ← readerVectorNItems p keys
  hashTableProbeExt fuel hash cb nBuckets (hashVectorAt p hashes) (readerVectorValue p keys)

/-- `pointless_reader_map_lookup_ext`. -/
def readerMapLookupExt (fuel : Nat) (m : Value) (hash : UInt32) (cb : CompleteValue → Res UInt32) :
    Res (Option UInt32) := do
  let hashes ← mapHashVector p m
  let keys ← mapKeyVector p m
  let nBuckets ← readerVectorNItems p keys
  hashTableProbeExt fuel hash cb nBuckets (hashVectorAt p hashes) (readerVectorValue p keys)

end Tables

end Pointless
