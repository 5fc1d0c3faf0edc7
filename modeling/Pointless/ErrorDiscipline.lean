import Mathlib
import Pointless.Reporting
import Pointless.ValidateSound

/-!
# The errors of opening a buffer

Each function of `Pointless.Reporting` follows its embedding into `Res`: it returns
without a message exactly where the embedding returns, and with a message it returns
the value by which its caller gives up. `openB_reports_iff` draws the conclusion for
`pointless_open_b`.
-/

namespace Pointless.Reporting

open ErrorChannel ExceptRules

/-- A function that returns what its embedding returns. -/
abbrev Returns {α : Type} (program : Run α) (outcome : Res α) : Prop :=
  Follows (· = none) program outcome Eq fun _ => True

/-- A function that returns 1 when its embedding returns, and else 0. -/
abbrev Succeeds {β : Type} (program : Run Bool) (outcome : Res β) : Prop :=
  Follows (· = none) program outcome (fun a _ => a = true) fun a => a = false

theorem attempt_follows {entry : Option String → Prop} {α : Type} (stretch : Res α) :
    Follows entry (attempt stretch) stretch (fun a b => a = some b) fun a => a = none where
  sound := by
    intro s _ a t returned
    match stretch with
    | .ok b =>
        cases returned
        exact Or.inl ⟨rfl, b, rfl, rfl⟩
    | .error (.error message) =>
        cases returned
        exact Or.inr ⟨Option.some_ne_none message, rfl⟩
    | .error (.fault kind) => cases returned
  complete := by
    intro e _ b returned
    subst returned
    exact ⟨some b, rfl, rfl⟩

theorem check_follows (checks : Res Unit) : Succeeds (check checks) checks := by
  have follows : Succeeds (check checks) (checks >>= fun _ => .ok ()) := by
    refine Follows.bind (attempt_follows checks) ?_ ?_
    · rintro a b - rfl
      exact Follows.returns rfl
    · rintro a rfl
      exact GivesUp.returns rfl
  cases checks <;> exact follows

/-! ## Comparison -/

theorem cmpItems_follows {compare : Nat → Run Int} {compare' : Nat → Res Int} {last : Int}
    (each : ∀ i, Returns (compare i) (compare' i)) (indices : List Nat) :
    Returns (cmpItems compare last indices) (cmpSeq compare' last indices) := by
  induction indices with
  | nil => exact Follows.returns rfl
  | cons i rest ih =>
      rw [cmpItems, cmpSeq]
      refine Follows.unlessError (fun _ clean => clean) (each i) (fun _ => trivial) ?_
      rintro cc _ - rfl
      by_cases differ : cc ≠ 0
      · rw [if_pos differ, if_pos differ]
        exact Follows.returns rfl
      · rw [if_neg differ, if_neg differ]
        exact ih

theorem cmpReaderRec_follows (pA pB : OpenFile) (fuel : Nat) (a b : CompleteValue) (depth : Nat) :
    Returns (cmpReaderRec pA pB fuel a b depth) (Pointless.cmpReaderRec true pA pB fuel a b depth) := by
  induction fuel generalizing a b depth with
  | zero => exact Follows.stops
  | succ fuel ih =>
      unfold cmpReaderRec Pointless.cmpReaderRec
      simp only [true_and, not_true_eq_false, and_false, if_false]
      by_cases deep : maxDepth ≤ depth
      · rw [if_pos deep, if_pos deep]
        exact Follows.giveUp trivial
      rw [if_neg deep, if_neg deep]
      by_cases differ : cmpReaderFunc a.type ≠ cmpReaderFunc b.type
      · rw [if_pos differ, if_pos differ]
        exact Follows.returns rfl
      rw [if_neg differ, if_neg differ]
      cases cmpReaderFunc a.type with
      | none => exact Follows.read _
      | some func =>
          cases func
          case stringUnicode => exact Follows.read _
          case bitvector =>
            exact Follows.read_bind fun _ _ => Follows.read_bind fun _ _ => Follows.read _
          case vector =>
            refine Follows.read_bind fun nItemsA _ => Follows.read_bind fun nItemsB _ => ?_
            refine cmpItems_follows (fun i => ?_) _
            refine Follows.read_bind fun cA _ => Follows.read_bind fun cB _ => ?_
            rw [bind_pure]
            exact ih cA cB (depth + 2)
          case set | map => exact Follows.giveUp trivial
          case intFloat | null | emptySlot => exact Follows.returns rfl

theorem cmpReader_follows (pA : OpenFile) (a : CompleteValue) (pB : OpenFile) (b : CompleteValue) :
    Returns (cmpReader pA a pB b) (Pointless.cmpReader pA a pB b) :=
  cmpReaderRec_follows pA pB _ a b 0

/-! ## Hash tables -/

/-- What the result of a probe says. -/
def Probe.ofOption : Option UInt32 → Probe
  | none => .miss
  | some i => .bucket i

/-- A probe that returns the error value when it leaves a message. -/
abbrev Probes (program : Run Probe) (outcome : Res (Option UInt32)) : Prop :=
  Follows (· = none) program outcome (fun a b => a = Probe.ofOption b) fun a => a = .error

section HashTable

variable (fuel : Nat) (p : OpenFile) (nBuckets : UInt32) (hashAt : Nat → Res UInt32)
  (keyAt : Nat → Res Value)

theorem hashTableProbeLoop_follows (value : Value) (valueHash : UInt32) (s : HashIterState) :
    Probes (hashTableProbeLoop p value hashAt keyAt valueHash fuel s)
      (Pointless.hashTableProbeLoop (fun key => do
          let c ← Pointless.cmpReader p value.toComplete p key.toComplete
          pure (c = 0))
        hashAt keyAt valueHash fuel s) := by
  induction fuel generalizing s with
  | zero => exact Follows.stops
  | succ fuel ih =>
      unfold hashTableProbeLoop Pointless.hashTableProbeLoop
      refine Follows.read_bind fun key _ => ?_
      by_cases empty : key.type = .emptySlot
      · rw [if_pos empty, if_pos empty]
        exact Follows.returns rfl
      rw [if_neg empty, if_neg empty]
      refine Follows.read_bind fun hash _ => ?_
      by_cases same : valueHash = hash
      · rw [if_pos same, if_pos same]
        simp only [bind_assoc, pure_bind]
        refine Follows.unlessError (fun _ clean => clean) (cmpReader_follows _ _ _ _) ?_ ?_
        · exact fun _ => rfl
        · rintro c _ - rfl
          by_cases zero : c = 0
          · simp only [zero, if_true, decide_true]
            exact Follows.returns rfl
          · simp only [zero, if_false, decide_false]
            exact ih s.next
      · rw [if_neg same, if_neg same]
        exact ih s.next

theorem hashTableProbe_follows (valueHash : UInt32) (value : Value) :
    Probes (hashTableProbe fuel p valueHash value nBuckets hashAt keyAt)
      (Pointless.hashTableProbe fuel p valueHash value nBuckets hashAt keyAt) :=
  hashTableProbeLoop_follows fuel p hashAt keyAt value valueHash _

theorem probeSlots_follows (indices : List Nat) :
    Succeeds (probeSlots fuel p nBuckets hashAt keyAt indices)
      (indices.forM (checkSlotProbe fuel p nBuckets hashAt keyAt)) := by
  induction indices with
  | nil => exact Follows.returns rfl
  | cons i rest ih =>
      rw [forM_cons, checkSlotProbe, probeSlots, bind_assoc]
      refine Follows.read_bind fun key _ => ?_
      by_cases empty : key.type = .emptySlot
      · rw [if_pos empty, if_pos empty]
        exact ih
      rw [if_neg empty, if_neg empty, bind_assoc]
      refine Follows.read_bind fun hash _ => ?_
      rw [bind_assoc]
      refine Follows.bind (hashTableProbe_follows fuel p nBuckets hashAt keyAt hash key) ?_ ?_
      · rintro _ probe - rfl
        cases probe with
        | none =>
            rw [if_pos (Option.some_ne_none _).symm]
            exact Follows.giveUp rfl
        | some j =>
            change Succeeds (if j ≠ UInt32.ofNat i then giveUp _ false
              else probeSlots fuel p nBuckets hashAt keyAt rest) _
            by_cases differ : j ≠ UInt32.ofNat i
            · rw [if_pos differ, if_pos (by simpa using differ)]
              exact Follows.giveUp rfl
            · rw [if_neg differ, if_neg (by simpa using differ)]
              exact ih
      · rintro _ rfl
        exact GivesUp.returns rfl

theorem hashTableValidate_follows (nItems : UInt32) (valueAt : Option (Nat → Res Value)) :
    Succeeds (hashTableValidate fuel p nBuckets hashAt keyAt nItems valueAt)
      (Pointless.hashTableValidate fuel p nBuckets hashAt keyAt nItems valueAt) := by
  have shape : Pointless.hashTableValidate fuel p nBuckets hashAt keyAt nItems valueAt = (do
      let expected ← hashComputeNBuckets nItems
      if expected ≠ nBuckets then fail "invalid number of buckets in hash table"
      else do
        let _ ← (do
          let counts ← (List.range nBuckets.toNat).foldlM (countSlot keyAt valueAt) (0, 0)
          checkCounts nItems counts
          (List.range nBuckets.toNat).forM (checkSlotHash fuel p hashAt keyAt))
        (List.range nBuckets.toNat).forM (checkSlotProbe fuel p nBuckets hashAt keyAt)) := by
    unfold Pointless.hashTableValidate checkCounts
    refine bind_congr fun expected => ?_
    by_cases differ : expected ≠ nBuckets
    · rw [if_pos differ, if_pos differ]
    rw [if_neg differ, if_neg differ, bind_assoc]
    refine bind_congr fun counts => ?_
    split
    · rfl
    · split <;> rfl
  rw [shape, hashTableValidate]
  refine Follows.read_bind fun expected _ => ?_
  by_cases differ : expected ≠ nBuckets
  · rw [if_pos differ, if_pos differ]
    exact Follows.giveUp rfl
  rw [if_neg differ, if_neg differ]
  refine Follows.bind (attempt_follows _) ?_ ?_
  · rintro _ ⟨⟩ - rfl
    exact probeSlots_follows fuel p nBuckets hashAt keyAt _
  · rintro _ rfl
    exact GivesUp.returns rfl

end HashTable

theorem validateSetComplicated_follows (fuel : Nat) (p : OpenFile) (v : Value) :
    Succeeds (validateSetComplicated fuel p v) (Pointless.validateSetComplicated fuel p v) := by
  unfold validateSetComplicated Pointless.validateSetComplicated
  refine Follows.read_bind fun hashes _ => Follows.read_bind fun keys _ => ?_
  refine Follows.read_bind fun nHash _ => Follows.read_bind fun nKeys _ => ?_
  by_cases differ : nHash ≠ nKeys
  · rw [if_pos differ, if_pos differ]
    exact Follows.giveUp rfl
  · rw [if_neg differ, if_neg differ]
    exact Follows.read_bind fun nItems _ => hashTableValidate_follows _ _ _ _ _ _ _

theorem validateMapComplicated_follows (fuel : Nat) (p : OpenFile) (v : Value) :
    Succeeds (validateMapComplicated fuel p v) (Pointless.validateMapComplicated fuel p v) := by
  unfold validateMapComplicated Pointless.validateMapComplicated
  refine Follows.read_bind fun hashes _ => Follows.read_bind fun keys _ => ?_
  refine Follows.read_bind fun values _ => Follows.read_bind fun nHash _ => ?_
  refine Follows.read_bind fun nKeys _ => Follows.read_bind fun nValues _ => ?_
  by_cases differ : nHash ≠ nKeys ∨ nHash ≠ nValues
  · rw [if_pos differ, if_pos differ]
    exact Follows.giveUp rfl
  · rw [if_neg differ, if_neg differ]
    exact Follows.read_bind fun nItems _ => hashTableValidate_follows _ _ _ _ _ _ _

/-! ## The passes -/

section Passes

variable (p : OpenFile) (pass : ValidatePass)

theorem passRef_follows (v : Value) : Succeeds (passRef p pass v) (Pointless.passRef p pass v) := by
  cases pass with
  | sanity => exact check_follows _
  | cycles cycleMarker => exact Follows.returns rfl
  | hashTables fuel => exact Follows.returns rfl

theorem passCheck_follows (v : Value) :
    Succeeds (passCheck p pass v) (Pointless.passCheck p pass v) := by
  cases pass with
  | sanity =>
      exact Follows.unless (check_follows _) rfl fun _ _ => check_follows _
  | cycles cycleMarker =>
      unfold passCheck Pointless.passCheck
      by_cases type : v.type = .vectorValueHashable
      · simp only [if_pos type]
        refine Follows.read_bind fun inCycle _ => ?_
        cases inCycle with
        | true => exact Follows.giveUp rfl
        | false => exact Follows.returns rfl
      · simp only [if_neg type]
        exact Follows.returns rfl
  | hashTables fuel =>
      unfold passCheck Pointless.passCheck
      by_cases map : v.type = .mapValueValue
      · simp only [if_pos map]
        exact validateMapComplicated_follows fuel p v
      by_cases set : v.type = .setValue
      · simp only [if_neg map, if_pos set]
        exact validateSetComplicated_follows fuel p v
      · simp only [if_neg map, if_neg set]
        exact Follows.returns rfl

/-- The action of a visitor that does not stop the walk. -/
def WalkAction.ofAction : Action → WalkAction
  | .visitChildren => .visitChildren
  | .moveUp => .moveUp

/-- A visitor that stops the walk when it leaves a message. -/
abbrev Visits (program : Run (WalkAction × Visited)) (outcome : Res (Action × Visited)) : Prop :=
  Follows (· = none) program outcome (fun a b => a = (WalkAction.ofAction b.1, b.2))
    fun a => a.1 = .stop

theorem validatePassCb_follows (v : Value) (depth : Nat) (s : Visited) :
    Visits (validatePassCb p pass v depth s) (Pointless.validatePassCb p pass v depth s) := by
  unfold validatePassCb Pointless.validatePassCb
  by_cases deep : maxDepth ≤ depth
  · rw [if_pos deep, if_pos deep]
    exact Follows.giveUp rfl
  rw [if_neg deep, if_neg deep]
  refine Follows.unless (passRef_follows p pass v) rfl fun _ _ => ?_
  refine Follows.read_bind fun marked _ => ?_
  cases marked with
  | none => exact Follows.returns rfl
  | some s =>
      exact Follows.unless (passCheck_follows p pass v) rfl fun _ _ => Follows.returns rfl

/-- A walk that sets `*stop` when it leaves a message. -/
abbrev Walks (program : Run (Visited × Bool)) (outcome : Res Visited) : Prop :=
  Follows (· = none) program outcome (fun a b => a = (b, false)) fun a => a.2 = true

theorem walkNodes_follows {visit : Value → Visited → Run (Visited × Bool)}
    {visit' : Value → Visited → Res Visited}
    (each : ∀ w s, Walks (visit w s) (visit' w s)) (nodes : List (Res Value)) (s : Visited) :
    Walks (walkNodes visit nodes s)
      (nodes.foldlM (fun s node => do
        let w ← node
        visit' w s) s) := by
  induction nodes generalizing s with
  | nil => exact Follows.returns rfl
  | cons node rest ih =>
      rw [walkNodes, List.foldlM_cons, bind_assoc]
      refine Follows.read_bind fun w _ => Follows.bind (each w s) ?_ ?_
      · rintro _ s' - rfl
        exact ih s'
      · rintro ⟨s', stop⟩ rfl
        exact GivesUp.returns rfl

theorem walkPriv_follows {cb : Value → Nat → Visited → Run (WalkAction × Visited)}
    {cb' : Value → Nat → Visited → Res (Action × Visited)}
    (visits : ∀ v depth s, Visits (cb v depth s) (cb' v depth s)) (fuel : Nat) (v : Value)
    (depth : Nat) (s : Visited) :
    Walks (walkPriv p cb fuel v depth s)
      (DepthFirst.walk (.fault .diverges) (walkChildren p) cb' fuel v depth s) := by
  induction fuel generalizing v depth s with
  | zero => exact Follows.stops
  | succ fuel ih =>
      rw [walkPriv, DepthFirst.walk]
      refine Follows.bind (visits v depth s) ?_ ?_
      · rintro _ ⟨action, s'⟩ - rfl
        cases action with
        | moveUp => exact Follows.returns rfl
        | visitChildren =>
            exact Follows.read_bind fun nodes _ =>
              walkNodes_follows (fun w s => ih w (depth + 1) s) nodes s'
      · rintro ⟨action, s'⟩ rfl
        exact GivesUp.returns rfl

end Passes

/-! ## Cycle marking -/

section CycleMarker

theorem orNoMemory_follows {entry : Option String → Prop} {α β : Type} {program : Run α}
    {outcome : Res β} {ok : α → β → Prop} {failed : α → Prop} {a : α} (gave : failed a)
    (granted : Follows entry program outcome ok failed) :
    Follows entry (orNoMemory a program) outcome ok failed := by
  refine Follows.request (fun s a' t returned => ?_) granted
  cases returned
  exact ⟨Option.some_ne_none _, gave⟩

theorem orStores_follows {entry : Option String → Prop} {α β : Type} {program : Run α}
    {outcome : Res β} {ok : α → β → Prop} {failed : α → Prop}
    (granted : Follows entry program outcome ok failed) :
    Follows entry (orStores program) outcome ok failed := by
  refine Follows.request (fun s a t returned => ?_) granted
  cases returned

theorem popComponent_follows (id : UInt32) (rootV : Nat) (stack : List UInt32)
    (s : CycleMarkerState) :
    Returns (popComponent id rootV stack s) (CycleMarker.popComponent id rootV stack s) := by
  induction stack generalizing s with
  | nil => exact Follows.stops
  | cons last rest ih =>
      rw [popComponent, CycleMarker.popComponent]
      by_cases same : last = id
      · rw [if_pos same, if_pos same]
        exact Follows.returns rfl
      · rw [if_neg same, if_neg same]
        exact Follows.read_bind fun _ _ => orStores_follows (ih _)

theorem joinRoot_follows (id childId : UInt32) (s : CycleMarkerState) :
    Returns (joinRoot id childId s) (CycleMarker.joinRoot id childId s) := by
  unfold joinRoot CycleMarker.joinRoot
  cases s.component childId with
  | some _ => exact Follows.returns rfl
  | none =>
      cases s.root id with
      | none => exact Follows.giveUp trivial
      | some rootV =>
          cases s.root childId with
          | none => exact Follows.giveUp trivial
          | some rootW =>
              by_cases less : rootW < rootV
              · simp only [if_pos less]
                exact orStores_follows (Follows.returns rfl)
              · simp only [if_neg less]
                exact Follows.returns rfl

theorem finish_follows (id : UInt32) (s : CycleMarkerState) :
    Returns (finish id s) (CycleMarker.finish id s) := by
  unfold finish CycleMarker.finish
  cases s.root id with
  | none => exact Follows.giveUp trivial
  | some rootV =>
      cases s.visited id with
      | none => exact Follows.giveUp trivial
      | some visitedV =>
          by_cases same : rootV = visitedV
          · simp only [if_pos same]
            exact orStores_follows (popComponent_follows _ _ _ _)
          · simp only [if_neg same]
            exact Follows.returns rfl

theorem enter_follows (id : UInt32) (count : Nat) (s : CycleMarkerState) :
    Returns (enter id count s) (.ok (CycleMarker.enter id count s)) :=
  orStores_follows (orStores_follows (orNoMemory_follows trivial (Follows.returns rfl)))

variable {ν : Type} (info : CycleMarkerInfo ν)

section Children

variable {visit : ν → CycleMarkerState → Run CycleMarkerState}
  {visit' : ν → CycleMarkerState → Res CycleMarkerState}
  (visits : ∀ w s, Returns (visit w s) (visit' w s))
include visits

theorem processChild_follows (id : UInt32) (w : ν) (s : CycleMarkerState) :
    Returns (processChild info visit id w s) (CycleMarker.processChild info visit' id w s) := by
  unfold processChild CycleMarker.processChild
  by_cases container : info.isContainer w = true
  · rw [if_pos container, if_pos container]
    by_cases unseen : s.visited (info.containerId w) = none
    · rw [if_pos unseen, if_pos unseen]
      refine Follows.unlessError (fun _ clean => clean) (visits w s) (fun _ => trivial) ?_
      rintro s' _ - rfl
      exact joinRoot_follows _ _ s'
    · rw [if_neg unseen, if_neg unseen]
      exact joinRoot_follows _ _ s
  · rw [if_neg container, if_neg container]
    exact Follows.returns rfl

theorem visitChildren_follows (v : ν) (indices : List Nat) (s : CycleMarkerState) :
    Returns (visitChildren info visit v indices s)
      (indices.foldlM (CycleMarker.visitChild info visit' v) s) := by
  induction indices generalizing s with
  | nil => exact Follows.returns rfl
  | cons i rest ih =>
      rw [visitChildren, List.foldlM_cons, CycleMarker.visitChild, bind_assoc]
      refine Follows.read_bind fun child _ => ?_
      by_cases itself : info.isContainer child ∧ info.containerId v = info.containerId child
      · rw [if_pos itself, if_pos itself, bind_assoc]
        exact Follows.read_bind fun cycleMarker _ => ih _
      · rw [if_neg itself, if_neg itself]
        refine Follows.unlessError (fun _ clean => clean)
          (processChild_follows info visits (info.containerId v) child s) (fun _ => trivial) ?_
        rintro s' _ - rfl
        exact ih s'

end Children

theorem visit_follows (fuel : Nat) (v : ν) (count depth : Nat) (s : CycleMarkerState) :
    Returns (visit info fuel v count depth s) (CycleMarker.visit info fuel v count depth s) := by
  induction fuel generalizing v count depth s with
  | zero => exact Follows.stops
  | succ fuel ih =>
      rw [visit, CycleMarker.visit]
      by_cases deep : maxDepth ≤ depth
      · rw [if_pos deep, if_pos deep]
        exact Follows.giveUp trivial
      rw [if_neg deep, if_neg deep]
      by_cases many : info.nNodes.toNat ≤ count
      · rw [if_pos many, if_pos many]
        exact Follows.giveUp trivial
      rw [if_neg many, if_neg many]
      have entered : ∀ {β : Type} (after : CycleMarkerState → Res β),
          after (CycleMarker.enter (info.containerId v) count s)
            = ((.ok (CycleMarker.enter (info.containerId v) count s) : Res _) >>= after) :=
        fun after => rfl
      rw [entered fun s => do
        let nChildren ← info.nChildren v
        let s ← (List.range nChildren.toNat).foldlM
          (CycleMarker.visitChild info
            (fun w s => CycleMarker.visit info fuel w (count + 1) (depth + 2) s) v) s
        CycleMarker.finish (info.containerId v) s]
      refine Follows.unlessError (fun _ clean => clean) (enter_follows _ count s)
        (fun _ => trivial) ?_
      rintro s' _ - rfl
      refine Follows.read_bind fun nChildren _ => ?_
      refine Follows.unlessError (fun _ clean => clean)
        (visitChildren_follows info (fun w s => ih w (count + 1) (depth + 2) s) v _ s')
        (fun _ => trivial) ?_
      rintro s'' _ - rfl
      exact finish_follows _ s''

/-- The bitmask is null when there is a message in `*error`, whatever was in it. -/
theorem cycleMarker_follows :
    Follows (fun _ => True) (cycleMarker info) (Pointless.cycleMarker info)
      (fun a b => a = some b) fun a => a = none := by
  let start : CycleMarkerState :=
    ⟨Bitmask.calloc info.nNodes.toNat, fun _ => none, fun _ => none, fun _ => none, []⟩
  let search' : Res CycleMarkerState :=
    if info.isContainer info.getRoot then
      CycleMarker.visit info (maxDepth + 1) info.getRoot 0 0 start
    else pure start
  have shape : Pointless.cycleMarker info = search' >>= fun s => pure s.cycleMarker := by
    unfold Pointless.cycleMarker search'
    by_cases container : info.isContainer info.getRoot = true
    · simp only [if_pos container]
      rfl
    · simp only [if_neg container]
      rfl
  have search : Returns (orNoMemory start (
      if info.isContainer info.getRoot then visit info (maxDepth + 1) info.getRoot 0 0 start
      else pure start)) search' := by
    refine orNoMemory_follows trivial ?_
    unfold search'
    by_cases container : info.isContainer info.getRoot = true
    · rw [if_pos container, if_pos container]
      exact visit_follows info _ _ _ _ _
    · rw [if_neg container, if_neg container]
      exact Follows.returns rfl
  rw [shape]
  refine Follows.ownError search ?_ ?_
  · rintro s _ - rfl
    exact Follows.returns rfl
  · rintro s message - start a t returned
    cases returned
    exact ⟨Option.some_ne_none message, rfl⟩

end CycleMarker

/-! ## Validation -/

/-- A function that returns 1 when its embedding returns, and else 0, and that never
looks at what is in its error variable. -/
abbrev SucceedsFrom {β : Type} (program : Run Bool) (outcome : Res β) : Prop :=
  Follows (fun _ => True) program outcome (fun a _ => a = true) fun a => a = false

section Validate

variable (p : OpenFile)

/-- A pass, whose message `pointless_validate` passes on as it returns 0. -/
theorem pass_follows (pass : ValidatePass) {next : Run Bool} {after : Res Unit}
    (goesOn : SucceedsFrom next after) :
    SucceedsFrom (do
      let stateError ← validatePass p pass
      if stateError.isSome then cleanup stateError false else next)
      (do
        Pointless.validatePass p pass
        after) := by
  have walks := walkPriv_follows p (validatePassCb_follows p pass) (maxDepth + 1) p.root 0
    (.calloc p.header)
  rw [Pointless.validatePass, validatePass, bind_assoc, bind_assoc]
  refine Follows.ownError walks ?_ ?_
  · rintro _ s' - rfl
    exact goesOn
  · rintro _ message - s a t returned
    cases returned
    exact ⟨Option.some_ne_none message, rfl⟩

/-- The three bitmasks of `pointless_validate` are all requested before any is tested. -/
theorem requests_follows {program : Run Bool} {β : Type} {outcome : Res β}
    (granted : SucceedsFrom program outcome) :
    SucceedsFrom (do
      let vector ← request
      let set ← request
      let map ← request
      if ¬(vector ∧ set ∧ map) then giveUp "out of memory" false else program) outcome where
  sound := by
    intro s enters a t returned
    change (if ¬(s.grants 0 = true ∧ s.grants 1 = true ∧ s.grants 2 = true) then
      giveUp "out of memory" false else program) { s with grants := fun n => s.grants (n + 3) }
      = .ok (a, t) at returned
    by_cases all : s.grants 0 = true ∧ s.grants 1 = true ∧ s.grants 2 = true
    · rw [if_neg (not_not.mpr all)] at returned
      exact granted.sound { s with grants := fun n => s.grants (n + 3) } trivial a t returned
    · rw [if_pos all] at returned
      cases returned
      exact Or.inr ⟨Option.some_ne_none _, rfl⟩
  complete := fun e enters b same => granted.complete e enters b same

theorem validate_follows (fuel : Nat) : SucceedsFrom (validate fuel p) (Pointless.validate fuel p) := by
  unfold validate Pointless.validate
  refine requests_follows (pass_follows p .sanity ?_)
  refine Follows.bind (cycleMarker_follows _) ?_ ?_
  · rintro _ cycleMarker - rfl
    refine pass_follows p (.cycles cycleMarker) ?_
    have last : SucceedsFrom (do
        let stateError ← validatePass p (.hashTables fuel)
        if stateError.isSome then cleanup stateError false else cleanup none true)
        (do
          Pointless.validatePass p (.hashTables fuel)
          .ok ()) := pass_follows p (.hashTables fuel) (Follows.returns rfl)
    cases passed : Pointless.validatePass p (.hashTables fuel) with
    | error e =>
        rw [passed] at last
        exact last
    | ok result =>
        rw [passed] at last
        exact last
  · rintro _ rfl
    exact GivesUp.returns rfl

end Validate

/-! ## Opening -/

/-- What `*error` holds when validation starts. -/
def oldMessage (version : UInt32) : Option String :=
  if version = 1 then some "32-bit offset files no longer supported" else none

/-- The buffer holds a header of a version that `pointless_init` goes on with, its
tables, and the file laid over it. -/
structure Laid (buf : List UInt8) (header : Header) (p : OpenFile) : Prop where
  room : 32 ≤ buf.length
  loaded : loadHeader buf = .ok header
  version : header.version = 1 ∨ header.version = 2
  tables : header.mandatorySize ≤ buf.length
  file : layTables buf header = .ok p

/-- How `pointless_init` ends: at a check of its own, or with the validator. -/
theorem init_cases {fuel : Nat} {buf : List UInt8} {grants : Nat → Bool} {ret : Bool}
    {s : Channel String} (ran : init fuel buf ⟨none, grants⟩ = .ok (ret, s)) :
    (ret = false ∧ s.error ≠ none) ∨ ∃ header p, Laid buf header p ∧
      validate fuel p ⟨oldMessage header.version, grants⟩ = .ok (ret, s) := by
  have gaveUp : ∀ {message t}, (giveUp message false : Run Bool) t = .ok (ret, s) →
      ret = false ∧ s.error ≠ none := by
    intro message t returned
    cases returned
    exact ⟨rfl, Option.some_ne_none message⟩
  unfold init at ran
  by_cases short : buf.length < 32
  · rw [if_pos short] at ran
    exact Or.inl (gaveUp ran)
  rw [if_neg short] at ran
  obtain ⟨header, loaded⟩ := loadHeader_inside short
  simp only [loaded] at ran
  change (initVersion header.version >>= fun supported =>
    if ¬supported then pure false
    else if buf.length < header.mandatorySize then
      giveUp "file is too small to hold offset vectors" false
    else ErrorChannel.read (layTables buf header) >>= fun p => validate fuel p)
    ⟨none, grants⟩ = .ok (ret, s) at ran
  have goesOn : (header.version = 1 ∨ header.version = 2) →
      (if buf.length < header.mandatorySize then
        giveUp "file is too small to hold offset vectors" false
      else ErrorChannel.read (layTables buf header) >>= fun p => validate fuel p)
      ⟨oldMessage header.version, grants⟩ = .ok (ret, s) →
      (ret = false ∧ s.error ≠ none) ∨ ∃ header p, Laid buf header p ∧
        validate fuel p ⟨oldMessage header.version, grants⟩ = .ok (ret, s) := by
    intro version ran
    by_cases small : buf.length < header.mandatorySize
    · rw [if_pos small] at ran
      exact Or.inl (gaveUp ran)
    rw [if_neg small, bind_apply] at ran
    cases laid : layTables buf header with
    | error e =>
        rw [laid] at ran
        cases ran
    | ok p =>
        rw [laid] at ran
        exact Or.inr ⟨header, p, ⟨Nat.not_lt.mp short, loaded, version, Nat.not_lt.mp small, laid⟩, ran⟩
  rw [bind_apply] at ran
  unfold initVersion at ran
  by_cases zero : header.version = 0
  · rw [if_pos zero] at ran
    cases ran
    exact Or.inl ⟨rfl, Option.some_ne_none _⟩
  rw [if_neg zero] at ran
  by_cases one : header.version = 1
  · rw [if_pos one] at ran
    refine goesOn (Or.inl one) ?_
    rw [oldMessage, if_pos one]
    exact ran
  rw [if_neg one] at ran
  by_cases two : header.version = 2
  · rw [if_pos two] at ran
    refine goesOn (Or.inr two) ?_
    rw [oldMessage, if_neg one]
    exact ran
  · rw [if_neg two] at ran
    cases ran
    exact Or.inl ⟨rfl, Option.some_ne_none _⟩

/-- The error discipline of `pointless_open_b`: from a null `*error` it returns 1
exactly when `*error` is null afterwards, and then the buffer holds a header of
version 2 and the offset tables. -/
def OpenReports (buf : List UInt8) : Prop :=
  ∀ fuel grants ret s, openB fuel buf ⟨none, grants⟩ = .ok (ret, s) →
    (ret = true ↔ s.error = none) ∧
      (ret = true → ∃ header, 32 ≤ buf.length ∧ loadHeader buf = .ok header ∧
        header.version = 2 ∧ header.mandatorySize ≤ buf.length)

/-- The buffer holds a file of version 1 that the validator has nothing against. -/
def OldFileValid (buf : List UInt8) : Prop :=
  ∃ header p fuel, Laid buf header p ∧ header.version = 1 ∧ Pointless.validate fuel p = .ok ()

/-- Every failure of opening a buffer is reported as one. What is reported as a
failure although it is none is the version of an old file. -/
theorem openB_reports_iff (buf : List UInt8) : OpenReports buf ↔ ¬OldFileValid buf := by
  constructor
  · rintro reports ⟨header, p, fuel, laid, version, valid⟩
    obtain ⟨ret, validated, rfl⟩ :=
      (validate_follows p fuel).complete (oldMessage header.version) trivial () valid
    have ran : openB fuel buf ⟨none, unlimited⟩
        = .ok (true, ⟨oldMessage header.version, unlimited⟩) := by
      change init fuel buf ⟨none, unlimited⟩ = _
      have room : ¬buf.length < 32 := Nat.not_lt.mpr laid.room
      have tables : ¬buf.length < header.mandatorySize := Nat.not_lt.mpr laid.tables
      unfold init
      rw [if_neg room]
      simp only [bind_apply, laid.loaded, ErrorChannel.read, ok_bind, initVersion, version]
      change (if buf.length < header.mandatorySize then
          giveUp "file is too small to hold offset vectors" false
        else ErrorChannel.read (layTables buf header) >>= fun p => validate fuel p)
        ⟨oldMessage 1, unlimited⟩ = _
      rw [if_neg tables, bind_apply, laid.file]
      rw [version] at validated
      exact validated
    have kept := (reports fuel unlimited true _ ran).1.mp rfl
    rw [oldMessage, if_pos version] at kept
    cases kept
  · intro notOld fuel grants ret s ran
    have failed : ret = false → s.error ≠ none →
        (ret = true ↔ s.error = none) ∧ (ret = true → ∃ header, 32 ≤ buf.length ∧
          loadHeader buf = .ok header ∧ header.version = 2 ∧
          header.mandatorySize ≤ buf.length) := by
      rintro rfl message
      exact ⟨⟨nofun, fun bad => absurd bad message⟩, nofun⟩
    change (if grants 0 then init fuel buf else giveUp "out of memory" false)
      ⟨none, fun n => grants (n + 1)⟩ = .ok (ret, s) at ran
    cases granted : grants 0 with
    | false =>
        rw [granted, if_neg Bool.false_ne_true] at ran
        cases ran
        exact failed rfl (Option.some_ne_none _)
    | true =>
        rw [granted, if_pos rfl] at ran
        rcases init_cases ran with ⟨refused, message⟩ | ⟨header, p, laid, validated⟩
        · exact failed refused message
        rcases (validate_follows p fuel).sound _ trivial ret s validated with
          ⟨kept, ⟨⟩, valid, rfl⟩ | ⟨message, refused⟩
        · rcases laid.version with one | two
          · exact absurd ⟨header, p, fuel, laid, one, valid⟩ notOld
          · have clean : s.error = none := by
              rw [kept, oldMessage, if_neg (by rw [two]; decide)]
            exact ⟨⟨fun _ => clean, fun _ => rfl⟩,
              fun _ => ⟨header, laid.room, laid.loaded, two, laid.tables⟩⟩
        · exact failed refused message

/-- A file of version 1 whose root is null. -/
def oldFile : List UInt8 :=
  bytesValue ⟨.null, 0⟩ ++ bytesU32 0 ++ bytesU32 0 ++ bytesU32 0 ++ bytesU32 0 ++ bytesU32 0 ++
    bytesU32 1

/-- Opening the old file returns 1 with a message in `*error`. -/
theorem oldFile_not_reports : ¬OpenReports oldFile := by
  intro reports
  have ran : openB 1 oldFile ⟨none, unlimited⟩
      = .ok (true, ⟨some "32-bit offset files no longer supported", unlimited⟩) := by
    cbv
  have kept := (reports 1 unlimited true _ ran).1.mp rfl
  cases kept

end Pointless.Reporting
