import Pointless.Lib.ErrorChannel
import Pointless.Validate

/-!
# Opening a buffer, with its error variables

The functions that `pointless_open_b` goes through, with everything that the
embedding into `Res` hides: what they return when they fail, `*error` and
`state.error` as variables that their callers look at, and the requests for memory,
which the allocator may refuse. A function without an error argument is its
embedding into `Res`, as a step that reports nothing.
-/

namespace Pointless.Reporting

open ErrorChannel

/-- A function with an `error` argument. -/
abbrev Run := Chan Stop String

/-- A stretch of a function that returns at each of its checks, with the value for
failure, once it has stored the message of the check. -/
def attempt {α : Type} (stretch : Res α) : Run (Option α) := fun s =>
  match stretch with
  | .ok a => .ok (some a, s)
  | .error (.error message) => .ok (none, { s with error := some message })
  | .error (.fault kind) => .error (.fault kind)

/-- A function that checks its arguments and returns 1 or 0. -/
def check (checks : Res Unit) : Run Bool := do
  let checked ← attempt checks
  pure checked.isSome

/-! ## Comparison -/

/-- The loop of `pointless_cmp_reader_vector`. -/
def cmpItems (compare : Nat → Run Int) (last : Int) : List Nat → Run Int
  | [] => pure last
  | i :: rest => do
      let cc ← compare i
      let error ← getError
      if error.isSome then pure cc
      else if cc ≠ 0 then pure cc
      else cmpItems compare last rest

/-- `pointless_cmp_reader_rec`. -/
def cmpReaderRec (pA pB : OpenFile) : Nat → CompleteValue → CompleteValue → Nat → Run Int
  | 0, _, _, _ => read (fault .diverges)
  | fuel + 1, a, b, depth =>
      if maxDepth ≤ depth then giveUp "maximum recursion depth reached during comparison" 0
      else if cmpReaderFunc a.type ≠ cmpReaderFunc b.type then
        pure (simpleCmp a.type.code b.type.code)
      else
        match cmpReaderFunc a.type with
        | some .stringUnicode =>
            read (cmpStringUnicode a.type b.type (readerStringUnicodeValue pA a.toValue)
              (readerStringUnicodeValue pB b.toValue))
        | some .intFloat => pure (cmpIntFloat a.type a.data b.type b.data)
        | some .bitvector => do
            let bufferA ← read (readerBitvectorPtr pA a.toValue)
            let bufferB ← read (readerBitvectorPtr pB b.toValue)
            read (bitvectorCmpBufferBuffer a.type a.toValue.data bufferA b.type b.toValue.data
              bufferB)
        | some .null => pure 0
        | some .vector => do
            let nItemsA ← read (readerVectorNItems pA a.toValue)
            let nItemsB ← read (readerVectorNItems pB b.toValue)
            cmpItems (fun i => do
                let cA ← read (readerVectorValueCase pA a.toValue i)
                let cB ← read (readerVectorValueCase pB b.toValue i)
                cmpReaderRec pA pB fuel cA cB (depth + 2))
              (simpleCmp nItemsA nItemsB) (List.range (min nItemsA.toNat nItemsB.toNat))
        | some .set => giveUp "set comparison not implemented yet" 0
        | some .map => giveUp "map comparison not implemented yet" 0
        | some .emptySlot => pure 0
        | none => read (fault .nullCallback)

/-- `pointless_cmp_reader`. -/
def cmpReader (pA : OpenFile) (a : CompleteValue) (pB : OpenFile) (b : CompleteValue) : Run Int :=
  cmpReaderRec pA pB (maxDepth + 1) a b 0

/-! ## Hash tables -/

/-- `POINTLESS_HASH_TABLE_PROBE_ERROR`, `POINTLESS_HASH_TABLE_PROBE_MISS` or a bucket. -/
inductive Probe where
  | error
  | miss
  | bucket (i : UInt32)
  deriving DecidableEq, Repr

/-- The loop of `pointless_hash_table_probe_priv`, without a callback. -/
def hashTableProbeLoop (p : OpenFile) (value : Value) (hashAt : Nat → Res UInt32)
    (keyAt : Nat → Res Value) (valueHash : UInt32) : Nat → HashIterState → Run Probe
  | 0, _ => read (fault .diverges)
  | fuel + 1, s => do
      let key ← read (keyAt s.bucket.toNat)
      if key.type = .emptySlot then pure .miss
      else
        let hash ← read (hashAt s.bucket.toNat)
        if valueHash = hash then
          let c ← cmpReader p value.toComplete p key.toComplete
          let error ← getError
          if error.isSome then pure .error
          else if c = 0 then pure (.bucket s.bucket)
          else hashTableProbeLoop p value hashAt keyAt valueHash fuel s.next
        else hashTableProbeLoop p value hashAt keyAt valueHash fuel s.next

/-- `pointless_hash_table_probe`. -/
def hashTableProbe (fuel : Nat) (p : OpenFile) (valueHash : UInt32) (value : Value)
    (nBuckets : UInt32) (hashAt : Nat → Res UInt32) (keyAt : Nat → Res Value) : Run Probe :=
  hashTableProbeLoop p value hashAt keyAt valueHash fuel
    (hashTableProbeHashInit valueHash nBuckets)

/-- The last loop of `pointless_hash_table_validate`. -/
def probeSlots (fuel : Nat) (p : OpenFile) (nBuckets : UInt32) (hashAt : Nat → Res UInt32)
    (keyAt : Nat → Res Value) : List Nat → Run Bool
  | [] => pure true
  | i :: rest => do
      let key ← read (keyAt i)
      if key.type = .emptySlot then probeSlots fuel p nBuckets hashAt keyAt rest
      else
        let hash ← read (hashAt i)
        let probe ← hashTableProbe fuel p hash key nBuckets hashAt keyAt
        match probe with
        | .error => pure false
        | .miss => giveUp "probing of key in hash-table, does not match the place it is in" false
        | .bucket j =>
            if j ≠ UInt32.ofNat i then
              giveUp "probing of key in hash-table, does not match the place it is in" false
            else probeSlots fuel p nBuckets hashAt keyAt rest

/-- The two checks between the loops of `pointless_hash_table_validate`. -/
def checkCounts (nItems : UInt32) (counts : Nat × Nat) : Res Unit :=
  if counts.2 = 0 then fail "there are no empty slots in hash table, wtf"
  else if counts.1 ≠ nItems.toNat then
    fail "number of non-empty slots in hash-table, does not match item count"
  else pure ()

/-- `pointless_hash_table_validate`. -/
def hashTableValidate (fuel : Nat) (p : OpenFile) (nBuckets : UInt32) (hashAt : Nat → Res UInt32)
    (keyAt : Nat → Res Value) (nItems : UInt32) (valueAt : Option (Nat → Res Value)) :
    Run Bool := do
  let expected ← read (hashComputeNBuckets nItems)
  if expected ≠ nBuckets then giveUp "invalid number of buckets in hash table" false
  else
    let checked ← attempt (do
      let counts ← (List.range nBuckets.toNat).foldlM (countSlot keyAt valueAt) (0, 0)
      checkCounts nItems counts
      (List.range nBuckets.toNat).forM (checkSlotHash fuel p hashAt keyAt))
    if checked.isNone then pure false
    else probeSlots fuel p nBuckets hashAt keyAt (List.range nBuckets.toNat)

/-- `pointless_validate_set_complicated`, for which `error` is `state->error`. -/
def validateSetComplicated (fuel : Nat) (p : OpenFile) (v : Value) : Run Bool := do
  let hashes ← read (setHashVector p v)
  let keys ← read (setKeyVector p v)
  let nHash ← read (readerVectorNItems p hashes)
  let nKeys ← read (readerVectorNItems p keys)
  if nHash ≠ nKeys then
    giveUp "set hash and key vectors do not contain the same number of items" false
  else
    let nItems ← read (readerSetNItems p v)
    hashTableValidate fuel p nKeys (hashVectorAt p hashes) (readerVectorValue p keys) nItems none

/-- `pointless_validate_map_complicated`. -/
def validateMapComplicated (fuel : Nat) (p : OpenFile) (v : Value) : Run Bool := do
  let hashes ← read (mapHashVector p v)
  let keys ← read (mapKeyVector p v)
  let values ← read (mapValueVector p v)
  let nHash ← read (readerVectorNItems p hashes)
  let nKeys ← read (readerVectorNItems p keys)
  let nValues ← read (readerVectorNItems p values)
  if nHash ≠ nKeys ∨ nHash ≠ nValues then
    giveUp "map hash, key and value vectors do not contain the same number of items" false
  else
    let nItems ← read (readerMapNItems p v)
    hashTableValidate fuel p nKeys (hashVectorAt p hashes) (readerVectorValue p keys) nItems
      (some (readerVectorValue p values))

/-! ## The passes -/

/-- `POINTLESS_WALK_VISIT_CHILDREN`, `POINTLESS_WALK_MOVE_UP` and `POINTLESS_WALK_STOP`. -/
inductive WalkAction where
  | visitChildren
  | moveUp
  | stop
  deriving DecidableEq, Repr

/-- The check of pass 1 that precedes the visited bitmasks. -/
def passRef (p : OpenFile) (pass : ValidatePass) (v : Value) : Run Bool :=
  match pass with
  | .sanity => check (validateHeapRef p v)
  | _ => pure true

/-- The checks of a pass that follow the visited bitmasks. -/
def passCheck (p : OpenFile) (pass : ValidatePass) (v : Value) : Run Bool :=
  match pass with
  | .sanity => do
      let inline ← check (validateInlineInvariants v)
      if ¬inline then pure false else check (validateHeapValue p v)
  | .cycles cycleMarker =>
      if v.type = .vectorValueHashable then do
        let inCycle ← read (cycleMarker.isSet (containerId p v).toNat)
        if inCycle then giveUp "POINTLESS_VECTOR_VALUE_HASHABLE is in a cycle" false
        else pure true
      else pure true
  | .hashTables fuel =>
      if v.type = .mapValueValue then validateMapComplicated fuel p v
      else if v.type = .setValue then validateSetComplicated fuel p v
      else pure true

/-- `pointless_validate_pass_cb`. -/
def validatePassCb (p : OpenFile) (pass : ValidatePass) (v : Value) (depth : Nat) (s : Visited) :
    Run (WalkAction × Visited) := do
  if maxDepth ≤ depth then giveUp "maximum depth exceeded" (.stop, s)
  else
    let ref ← passRef p pass v
    if ¬ref then pure (.stop, s)
    else
      let marked ← read (markVisited v s)
      match marked with
      | none => pure (.moveUp, s)
      | some s => do
          let checked ← passCheck p pass v
          if ¬checked then pure (.stop, s) else pure (.visitChildren, s)

/-- The walks through the children of a value, until `*stop` is set. -/
def walkNodes (visit : Value → Visited → Run (Visited × Bool)) :
    List (Res Value) → Visited → Run (Visited × Bool)
  | [], s => pure (s, false)
  | node :: rest, s => do
      let w ← read node
      let (s, stop) ← visit w s
      if stop then pure (s, true) else walkNodes visit rest s

/-- `pointless_walk_priv`: the state of the visitor, and `*stop`. -/
def walkPriv (p : OpenFile) (cb : Value → Nat → Visited → Run (WalkAction × Visited)) :
    Nat → Value → Nat → Visited → Run (Visited × Bool)
  | 0, _, _, _ => read (fault .diverges)
  | fuel + 1, v, depth, s => do
      let (action, s) ← cb v depth s
      match action with
      | .moveUp => pure (s, false)
      | .stop => pure (s, true)
      | .visitChildren => do
          let nodes ← read (walkChildren p v)
          walkNodes (fun w s => walkPriv p cb fuel w (depth + 1) s) nodes s

/-- One `pointless_walk` of `pointless_validate`: what `state.error` holds after it. -/
def validatePass (p : OpenFile) (pass : ValidatePass) : Run (Option String) := do
  let (_, error) ← ownError
    (walkPriv p (validatePassCb p pass) (maxDepth + 1) p.root 0 (.calloc p.header))
  pure error

/-! ## Cycle marking -/

section CycleMarker

/-- `state->error = "out of memory"` for a request that is refused. -/
def orNoMemory {α : Type} (a : α) (program : Run α) : Run α := do
  let isGranted ← request
  if isGranted then program else giveUp "out of memory" a

/-- `*PValue = …` with the answer of `JudyLIns`. When that is refused memory it answers `PPJERR`,
which is not the null pointer the code looks for: the value is stored through it. -/
def orStores {α : Type} (program : Run α) : Run α := do
  let isGranted ← request
  if isGranted then program else read (fault .outOfBounds)

/-- The loop that pops the component of `id` off the stack. -/
def popComponent (id : UInt32) (rootV : Nat) : List UInt32 → CycleMarkerState →
    Run CycleMarkerState
  | [], _ => read (fault .outOfBounds)
  | last :: rest, s =>
      if last = id then pure { s with stack := rest }
      else do
        let cycleMarker ← read (s.cycleMarker.set last.toNat)
        orStores (popComponent id rootV rest
          { s with cycleMarker, component := Function.update s.component last (some rootV) })

/-- The second part of `process_child`. -/
def joinRoot (id childId : UInt32) (s : CycleMarkerState) : Run CycleMarkerState :=
  match s.component childId with
  | some _ => pure s
  | none =>
      match s.root id, s.root childId with
      | some rootV, some rootW =>
          if rootW < rootV then
            orStores (pure { s with root := Function.update s.root id (some rootW) })
          else pure s
      | _, _ => giveUp "internal error, root[v]/root[w] missing" s

/-- The end of `pointless_cycle_marker_visit`. -/
def finish (id : UInt32) (s : CycleMarkerState) : Run CycleMarkerState :=
  match s.root id, s.visited id with
  | some rootV, some visitedV =>
      if rootV = visitedV then
        orStores (popComponent id rootV s.stack
          { s with component := Function.update s.component id (some rootV) })
      else pure s
  | _, _ => giveUp "internal error: root[v]/visited[v] missing" s

/-- The start of `pointless_cycle_marker_visit`: two Judy arrays and the stack. -/
def enter (id : UInt32) (count : Nat) (s : CycleMarkerState) : Run CycleMarkerState :=
  orStores (orStores (orNoMemory s (pure (CycleMarker.enter id count s))))

variable {ν : Type} (info : CycleMarkerInfo ν)

/-- `process_child`, with the visit of the child given. -/
def processChild (visit : ν → CycleMarkerState → Run CycleMarkerState) (id : UInt32) (w : ν)
    (s : CycleMarkerState) : Run CycleMarkerState :=
  if info.isContainer w then
    if s.visited (info.containerId w) = none then do
      let s ← visit w s
      let error ← getError
      if error.isSome then pure s else joinRoot id (info.containerId w) s
    else joinRoot id (info.containerId w) s
  else pure s

/-- The loop over the children, on their indices. -/
def visitChildren (visit : ν → CycleMarkerState → Run CycleMarkerState) (v : ν) :
    List Nat → CycleMarkerState → Run CycleMarkerState
  | [], s => pure s
  | i :: rest, s => do
      let child ← read (info.childAt v i)
      if info.isContainer child ∧ info.containerId v = info.containerId child then do
        let cycleMarker ← read (s.cycleMarker.set (info.containerId v).toNat)
        visitChildren visit v rest { s with cycleMarker }
      else do
        let s ← processChild info visit (info.containerId v) child s
        let error ← getError
        if error.isSome then pure s else visitChildren visit v rest s

/-- `pointless_cycle_marker_visit`. -/
def visit : Nat → ν → Nat → Nat → CycleMarkerState → Run CycleMarkerState
  | 0, _, _, _, _ => read (fault .diverges)
  | fuel + 1, v, count, depth, s =>
      if maxDepth ≤ depth then giveUp "maximum recursion depth reached" s
      else if info.nNodes.toNat ≤ count then
        giveUp "internal error: pre-order count exceeds number of containers" s
      else do
        let s ← enter (info.containerId v) count s
        let error ← getError
        if error.isSome then pure s
        else
          let nChildren ← read (info.nChildren v)
          let s ← visitChildren info
            (fun w s => visit fuel w (count + 1) (depth + 2) s) v (List.range nChildren.toNat) s
          let error ← getError
          if error.isSome then pure s else finish (info.containerId v) s

/-- `pointless_cycle_marker`: the bitmask, or null and the message in `*error`. -/
def cycleMarker : Run (Option Bitmask) := do
  let start : CycleMarkerState :=
    { cycleMarker := Bitmask.calloc info.nNodes.toNat
      visited := fun _ => none
      component := fun _ => none
      root := fun _ => none
      stack := [] }
  let (s, error) ← ownError (orNoMemory start (
    if info.isContainer info.getRoot then visit info (maxDepth + 1) info.getRoot 0 0 start
    else pure start))
  match error with
  | some message => giveUp message none
  | none => pure (some s.cycleMarker)

end CycleMarker

/-- `pointless_cycle_marker_read`. -/
def cycleMarkerRead (p : OpenFile) : Run (Option Bitmask) :=
  cycleMarker
    { nNodes := nContainers p
      getRoot := p.root
      isContainer := readerIsContainer
      containerId := containerId p
      nChildren := readerNChildren p
      childAt := readerChildAt p }

/-! ## Opening -/

/-- The end of `pointless_validate` that all its exits lead to. -/
def cleanup (stateError : Option String) (retval : Bool) : Run Bool :=
  match stateError with
  | some message => giveUp message retval
  | none => pure retval

/-- `pointless_validate`. -/
def validate (fuel : Nat) (p : OpenFile) : Run Bool := do
  let vector ← request
  let set ← request
  let map ← request
  if ¬(vector ∧ set ∧ map) then giveUp "out of memory" false
  else
    let stateError ← validatePass p .sanity
    if stateError.isSome then cleanup stateError false
    else
      let cycleMarker ← cycleMarkerRead p
      match cycleMarker with
      | none => cleanup none false
      | some cycleMarker => do
          let stateError ← validatePass p (.cycles cycleMarker)
          if stateError.isSome then cleanup stateError false
          else
            let stateError ← validatePass p (.hashTables fuel)
            if stateError.isSome then cleanup stateError false else cleanup none true

/-- The version switch of `pointless_init`: whether it goes on. -/
def initVersion (version : UInt32) : Run Bool :=
  if version = 0 then giveUp "old-hash file version not supported" false
  else if version = 1 then giveUp "32-bit offset files no longer supported" true
  else if version = 2 then pure true
  else giveUp "file version not supported" false

/-- `pointless_init`, with validation. -/
def init (fuel : Nat) (buf : List UInt8) : Run Bool := do
  if buf.length < 32 then giveUp "header missing" false
  else
    let header ← read (loadHeader buf)
    let supported ← initVersion header.version
    if ¬supported then pure false
    else if buf.length < header.mandatorySize then
      giveUp "file is too small to hold offset vectors" false
    else
      let p ← read (layTables buf header)
      validate fuel p

/-- `pointless_open_b`. -/
def openB (fuel : Nat) (buf : List UInt8) : Run Bool :=
  orNoMemory false (init fuel buf)

end Pointless.Reporting
