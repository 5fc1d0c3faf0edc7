import Pointless.Cmp

/-!
# Hash tables

`pointless_hash_table.c`. A table is a hash vector and a key vector of the same
power-of-two length, and for a map a value vector. The readers reach the vectors
through `hashAt` and `keyAt`; the writer fills arrays of handles.
-/

namespace Pointless

/-! ## Sizes -/

/-- The loop of `next_power_of_2`. -/
def nextPowerOf2Loop (n : UInt32) : Nat → UInt32 → Res UInt32
  | 0, _ => fault .diverges
  | rounds + 1, p => if p < n then nextPowerOf2Loop n rounds (p <<< 1) else .ok p

/-- `next_power_of_2`. After 32 rounds `p` has been shifted out to 0 and never
changes again, so that 33 rounds decide whether the loop ends. -/
def nextPowerOf2 (n : UInt32) : Res UInt32 := nextPowerOf2Loop n 33 1

/-- `pointless_hash_compute_n_buckets`. -/
def hashComputeNBuckets (nItems : UInt32) : Res UInt32 :=
  if nItems = 1 then .ok 2 else nextPowerOf2 (nItems + nItems / 2)

/-! ## Probing -/

/-- `pointless_hash_iter_state_t`, which is also what the loops of
`pointless_hash_table_probe_priv` and `pointless_hash_table_populate` keep in
`perturb`, `i` and `mask`. -/
structure HashIterState where
  perturb : UInt32
  i : UInt32
  mask : UInt32
  deriving DecidableEq, Repr

/-- `bucket = i & mask`. -/
def HashIterState.bucket (s : HashIterState) : UInt32 := s.i &&& s.mask

/-- The recurrence `i = 5 * i + perturb + 1`, `perturb >>= 5`. -/
def HashIterState.next (s : HashIterState) : HashIterState :=
  { s with i := (s.i <<< 2) + s.i + s.perturb + 1, perturb := s.perturb >>> 5 }

/-- `pointless_hash_table_probe_hash_init`. -/
def hashTableProbeHashInit (valueHash nBuckets : UInt32) : HashIterState :=
  ⟨valueHash, valueHash, nBuckets - 1⟩

/-- `pointless_hash_table_probe_hash`: the bucket, and the state moved on. -/
def hashTableProbeHash (keyAt : Nat → Res Value) (s : HashIterState) :
    Res (Option (UInt32 × HashIterState)) := do
  let key ← keyAt s.bucket.toNat
  pure (if key.type = .emptySlot then none else some (s.bucket, s.next))

/-- The loop of `pointless_hash_table_probe_priv`; `none` is
`POINTLESS_HASH_TABLE_PROBE_MISS`. -/
def hashTableProbeLoop (isEqual : Value → Res Bool) (hashAt : Nat → Res UInt32)
    (keyAt : Nat → Res Value) (valueHash : UInt32) :
    Nat → HashIterState → Res (Option UInt32)
  | 0, _ => fault .diverges
  | fuel + 1, s => do
      let key ← keyAt s.bucket.toNat
      if key.type = .emptySlot then pure none
      else
        let hash ← hashAt s.bucket.toNat
        let found ← if valueHash = hash then isEqual key else pure false
        if found then pure (some s.bucket)
        else hashTableProbeLoop isEqual hashAt keyAt valueHash fuel s.next

/-- `pointless_hash_table_probe_priv`, with the test that it applies to a key of
the same hash. -/
def hashTableProbePriv (fuel : Nat) (isEqual : Value → Res Bool) (valueHash nBuckets : UInt32)
    (hashAt : Nat → Res UInt32) (keyAt : Nat → Res Value) : Res (Option UInt32) :=
  hashTableProbeLoop isEqual hashAt keyAt valueHash fuel
    (hashTableProbeHashInit valueHash nBuckets)

/-- `pointless_hash_table_probe`. -/
def hashTableProbe (fuel : Nat) (p : OpenFile) (valueHash : UInt32) (value : Value)
    (nBuckets : UInt32) (hashAt : Nat → Res UInt32) (keyAt : Nat → Res Value) :
    Res (Option UInt32) :=
  hashTableProbePriv fuel (fun key => do
      let c ← cmpReader p value.toComplete p key.toComplete
      pure (c = 0))
    valueHash nBuckets hashAt keyAt

/-- `pointless_hash_table_probe_ext`, with the callback `cb`. -/
def hashTableProbeExt (fuel : Nat) (valueHash : UInt32) (cb : CompleteValue → Res UInt32)
    (nBuckets : UInt32) (hashAt : Nat → Res UInt32) (keyAt : Nat → Res Value) :
    Res (Option UInt32) :=
  hashTableProbePriv fuel (fun key => do
      let c ← cb key.toComplete
      pure (c ≠ 0))
    valueHash nBuckets hashAt keyAt

/-! ## Building -/

/-- `xs[i]`. -/
def arrayGet (xs : List UInt32) (i : Nat) : Res UInt32 :=
  match xs[i]? with
  | some x => .ok x
  | none => fault .outOfBounds

/-- `xs[i] = x`. -/
def arraySet (xs : List UInt32) (i : Nat) (x : UInt32) : Res (List UInt32) :=
  if i < xs.length then .ok (xs.set i x) else fault .outOfBounds

/-- `hash_serialize`, `keys_serialize` and `values_serialize`. -/
structure Buckets where
  hash : List UInt32
  keys : List UInt32
  values : Option (List UInt32)
  deriving DecidableEq, Repr

/-- The arrays as `pointless_hash_table_create` initializes them. -/
def Buckets.fresh (isMap : Bool) (nBuckets emptySlotHandle : UInt32) : Buckets where
  hash := List.replicate nBuckets.toNat 0
  keys := List.replicate nBuckets.toNat emptySlotHandle
  values := if isMap then some (List.replicate nBuckets.toNat emptySlotHandle) else none

/-- `values_vector[j]` into `values_serialize[bucket]`, for a map. -/
def putValue (valuesVector : Option (List UInt32)) (j : Nat) (values : Option (List UInt32))
    (bucket : Nat) : Res (Option (List UInt32)) :=
  match values, valuesVector with
  | none, _ => .ok none
  | some _, none => fault .nullPointer
  | some values, some valuesVector => do
      let value ← arrayGet valuesVector j
      some <$> arraySet values bucket value

/-- The inner loop of `pointless_hash_table_populate`: the empty bucket for a key. -/
def populateFind (cmpCreate : UInt32 → UInt32 → Res Int) (emptySlotHandle : UInt32)
    (t : Buckets) (valueHash key : UInt32) : Nat → HashIterState → Res UInt32
  | 0, _ => fault .diverges
  | fuel + 1, s => do
      let stored ← arrayGet t.keys s.bucket.toNat
      if stored = emptySlotHandle then pure s.bucket
      else
        let hash ← arrayGet t.hash s.bucket.toNat
        let cmp ← if hash = valueHash then cmpCreate stored key else pure 1
        if cmp = 0 then fail "there are duplicate keys in the set/map"
        else populateFind cmpCreate emptySlotHandle t valueHash key fuel s.next

/-- One round of the outer loop: key `j` goes into its bucket. -/
def populateStep (fuel : Nat) (cmpCreate : UInt32 → UInt32 → Res Int)
    (hashVector keysVector : List UInt32) (valuesVector : Option (List UInt32))
    (nBuckets emptySlotHandle : UInt32) (t : Buckets) (j : Nat) : Res Buckets := do
  let valueHash ← arrayGet hashVector j
  let key ← arrayGet keysVector j
  let bucket ← populateFind cmpCreate emptySlotHandle t valueHash key fuel
    (hashTableProbeHashInit valueHash nBuckets)
  let hash ← arraySet t.hash bucket.toNat valueHash
  let keys ← arraySet t.keys bucket.toNat key
  let values ← putValue valuesVector j t.values bucket.toNat
  pure ⟨hash, keys, values⟩

/-- Invariant A: no key is the empty slot. -/
def populateCheckKeys (keysVector : List UInt32) (nKeys emptySlotHandle : UInt32) : Res Unit :=
  (List.range nKeys.toNat).forM fun j => do
    let key ← arrayGet keysVector j
    if key = emptySlotHandle then
      fail "pointless_hash_table_populate(): internal invariant error A"
    else pure ()

/-- Invariants B, C and D: every bucket is empty. -/
def populateCheckBuckets (t : Buckets) (nBuckets emptySlotHandle : UInt32) : Res Unit :=
  (List.range nBuckets.toNat).forM fun j => do
    let hash ← arrayGet t.hash j
    if hash ≠ 0 then fail "pointless_hash_table_populate(): internal invariant error B"
    else
      let key ← arrayGet t.keys j
      if key ≠ emptySlotHandle then
        fail "pointless_hash_table_populate(): internal invariant error C"
      else
        match t.values with
        | none => pure ()
        | some values => do
            let value ← arrayGet values j
            if value ≠ emptySlotHandle then
              fail "pointless_hash_table_populate(): internal invariant error D"
            else pure ()

/-- The message of a populate call that has only one of its two value arrays. -/
def populateValuesMessage : String :=
  "pointless_hash_table_populate(): caller must specify either both of values_vector/values_serialize or neither"

/-- `pointless_hash_table_populate`, with the comparison of two handles. -/
def hashTablePopulate (fuel : Nat) (cmpCreate : UInt32 → UInt32 → Res Int)
    (hashVector keysVector : List UInt32) (valuesVector : Option (List UInt32)) (nKeys : UInt32)
    (serialize : Buckets) (nBuckets emptySlotHandle : UInt32) : Res Buckets :=
  if 0 < nKeys ∧ valuesVector.isNone ≠ serialize.values.isNone then
    fail populateValuesMessage
  else do
    populateCheckKeys keysVector nKeys emptySlotHandle
    populateCheckBuckets serialize nBuckets emptySlotHandle
    (List.range nKeys.toNat).foldlM
      (populateStep fuel cmpCreate hashVector keysVector valuesVector nBuckets emptySlotHandle)
      serialize

end Pointless
