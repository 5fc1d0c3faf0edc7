import Pointless.Lib.EventLog
import Pointless.MarkerExact
import Mathlib.Data.Finset.Card
import Mathlib.Data.Finset.Range
import Mathlib.Data.List.Nodup

/-!
# The stack of the cycle marker

On a graph whose containers have ids of their own the cycle marker runs into none of its
internal errors: `visit_stops` leaves the depth as the only thing that stops it. The log of a
search has every container that it enters and every component that it pops, with the stack
then; `visitLogged_notes` says that the first are distinct and that the second are popped
off stacks with their first container on them.
-/

namespace Pointless

open EventLog ExceptRules Relation

namespace CycleMarker

variable {ν : Type}

/-! ## The search with a log -/

/-- What is noted of a search: that a container is entered, and that the component of `id`
is popped off `stack`. -/
inductive MarkerEvent (ν : Type) where
  | enter (v : ν)
  | pop (id : UInt32) (stack : List UInt32)

/-- A part of the search with its log. -/
abbrev MarkerLog (ν : Type) := Logged (MarkerEvent ν) Stop

section Log

variable (info : CycleMarkerInfo ν)

/-- `finish`, which notes what it pops. -/
def finishLogged (id : UInt32) (s : CycleMarkerState) : MarkerLog ν CycleMarkerState :=
  match s.root id, s.visited id with
  | some rootV, some visitedV =>
      if rootV = visitedV then do
        let s ← note (.pop id s.stack) s
        lift (popComponent id rootV s.stack
          { s with component := Function.update s.component id (some rootV) })
      else lift (pure s)
  | _, _ => lift (fail "internal error: root[v]/visited[v] missing")

/-- `processChild`. -/
def processChildLogged (visit : ν → CycleMarkerState → MarkerLog ν CycleMarkerState)
    (id : UInt32) (w : ν) (s : CycleMarkerState) : MarkerLog ν CycleMarkerState :=
  if info.isContainer w then
    if s.visited (info.containerId w) = none then do
      let s ← visit w s
      lift (joinRoot id (info.containerId w) s)
    else lift (joinRoot id (info.containerId w) s)
  else lift (pure s)

/-- `visitChild`. -/
def visitChildLogged (visit : ν → CycleMarkerState → MarkerLog ν CycleMarkerState) (v : ν)
    (s : CycleMarkerState) (i : Nat) : MarkerLog ν CycleMarkerState := do
  let child ← lift (info.childAt v i)
  if info.isContainer child ∧ info.containerId v = info.containerId child then
    lift ((fun cycleMarker => { s with cycleMarker }) <$>
      s.cycleMarker.set (info.containerId v).toNat)
  else processChildLogged info visit (info.containerId v) child s

/-- `visit`, which notes the container that it enters. -/
def visitLogged : Nat → ν → Nat → Nat → CycleMarkerState → MarkerLog ν CycleMarkerState
  | 0, _, _, _, _ => lift (fault .diverges)
  | fuel + 1, v, count, depth, s =>
      if maxDepth ≤ depth then lift (fail "maximum recursion depth reached")
      else if info.nNodes.toNat ≤ count then
        lift (fail "internal error: pre-order count exceeds number of containers")
      else do
        let s ← note (.enter v) (enter (info.containerId v) count s)
        let nChildren ← lift (info.nChildren v)
        let s ← (List.range nChildren.toNat).foldlM
          (visitChildLogged info (fun w s => visitLogged fuel w (count + 1) (depth + 2) s) v) s
        finishLogged (info.containerId v) s

/-- The search from the root, with its log. -/
def searchLogged : MarkerLog ν CycleMarkerState :=
  if info.isContainer info.getRoot then
    visitLogged info (maxDepth + 1) info.getRoot 0 0 (startState info)
  else lift (pure (startState info))

end Log

/-! ## The log left out -/

section Outcome

variable {info : CycleMarkerInfo ν}

theorem finishLogged_outcome (id : UInt32) (s : CycleMarkerState) :
    (finishLogged id s : MarkerLog ν CycleMarkerState).outcome = finish id s := by
  cases isRoot : s.root id with
  | none => simp only [finishLogged, finish, isRoot, outcome_lift]
  | some rootV =>
      cases isVisited : s.visited id with
      | none => simp only [finishLogged, finish, isRoot, isVisited, outcome_lift]
      | some visitedV =>
          simp only [finishLogged, finish, isRoot, isVisited]
          split
          · rw [outcome_bind, outcome_note, ok_bind, outcome_lift]
          · rfl

theorem visitChildLogged_outcome {visit : ν → CycleMarkerState → MarkerLog ν CycleMarkerState}
    {plain : ν → CycleMarkerState → Res CycleMarkerState}
    (visits : ∀ w s, (visit w s).outcome = plain w s) (v : ν) (s : CycleMarkerState) (i : Nat) :
    (visitChildLogged info visit v s i).outcome = visitChild info plain v s i := by
  rw [visitChildLogged, visitChild, outcome_bind, outcome_lift]
  congr 1
  funext child
  split
  · rw [outcome_lift]
    cases s.cycleMarker.set (info.containerId v).toNat <;> rfl
  · unfold processChildLogged processChild
    split
    · split
      · rw [outcome_bind, visits]
        rfl
      · rfl
    · rfl

theorem visitLogged_outcome (fuel : Nat) (v : ν) (count depth : Nat) (s : CycleMarkerState) :
    (visitLogged info fuel v count depth s).outcome = visit info fuel v count depth s := by
  induction fuel generalizing v count depth s with
  | zero => rfl
  | succ fuel ih =>
      rw [visitLogged, visit]
      split
      · rfl
      split
      · rfl
      rw [outcome_bind, outcome_note, ok_bind, outcome_bind, outcome_lift]
      congr 1
      funext nChildren
      rw [outcome_bind, outcome_foldlM
        (visitChildLogged_outcome (fun w s => ih w (count + 1) (depth + 2) s) v)]
      congr 1
      funext s'
      exact finishLogged_outcome _ s'

theorem searchLogged_outcome : (searchLogged info).outcome = searchRoot info := by
  unfold searchRoot searchLogged
  split
  · exact visitLogged_outcome ..
  · rfl

end Outcome

/-! ## Nothing but the depth stops the search -/

/-- The callbacks can be called on the containers of the graph. -/
def Callable (info : CycleMarkerInfo ν) : Prop :=
  ∀ v, Reached info v → ∃ n, info.nChildren v = .ok n ∧ ∀ i < n.toNat, ∃ w, info.childAt v i = .ok w

/-- The error of the depth check. -/
def DepthError (e : Stop) : Prop := e = .error "maximum recursion depth reached"

section Stops

variable {info : CycleMarkerInfo ν} {path stack : List ν} {s : CycleMarkerState} {v : ν}

theorem Search.root_visited (search : Search info path stack s) {u : ν} (mem : u ∈ stack) :
    ∃ r l, s.root (info.containerId u) = some r ∧ s.visited (info.containerId u) = some l := by
  obtain ⟨above, below, rfl⟩ := List.append_of_mem mem
  obtain ⟨-, -, -, -, -, r, l, -, isRoot, isVisited, -⟩ :=
    search.low u below (List.suffix_append _ _)
  exact ⟨r, l, isRoot, isVisited⟩

theorem Search.room (distinct : DistinctIds info) (search : Search info path stack s)
    (reached : Reached info v) : (info.containerId v).toNat / 8 < s.cycleMarker.nBytes := by
  have bound := distinct.bound v reached
  have enough := iceil_eight info.nNodes.toNat
  rw [search.size]
  omega

/-- A child without a component is on the stack, so that it has a root. -/
theorem Search.joins (search : Search info path stack s) (mem : v ∈ stack) {w : ν}
    (reached : Reached info w) (seen : s.visited (info.containerId w) ≠ none) :
    ∃ s', joinRoot (info.containerId v) (info.containerId w) s = .ok s' := by
  unfold joinRoot
  cases isComponent : s.component (info.containerId w) with
  | some c => exact ⟨s, rfl⟩
  | none =>
      obtain ⟨rootV, -, isRootV, -⟩ := search.root_visited mem
      obtain ⟨rootW, -, isRootW, -⟩ :=
        search.root_visited (search.closed w reached seen isComponent)
      simp only [isRootV, isRootW]
      split
      · exact ⟨_, rfl⟩
      · exact ⟨_, rfl⟩

/-- A component whose container is on the stack is popped. -/
theorem popComponent_ok {id : UInt32} {rootV nBytes : Nat} {ids : List UInt32} (mem : id ∈ ids)
    (room : ∀ last ∈ ids, last.toNat / 8 < nBytes) {s : CycleMarkerState}
    (size : s.cycleMarker.nBytes = nBytes) : ∃ s', popComponent id rootV ids s = .ok s' := by
  induction ids generalizing s with
  | nil => exact absurd mem List.not_mem_nil
  | cons last rest ih =>
      rw [popComponent]
      split
      case isTrue => exact ⟨_, rfl⟩
      case isFalse other =>
        have inside := room last List.mem_cons_self
        rw [Bitmask.set, if_pos (by rw [size]; exact inside), ok_bind]
        have deeper := (List.mem_cons.mp mem).resolve_left fun same => other same.symm
        exact ih deeper (fun last mem => room last (List.mem_cons_of_mem _ mem)) size

theorem Search.finishes (distinct : DistinctIds info) (search : Search info path stack s)
    (mem : v ∈ stack) : ∃ s', CycleMarker.finish (info.containerId v) s = .ok s' := by
  obtain ⟨rootV, visitedV, isRoot, isVisited⟩ := search.root_visited mem
  have onStack : info.containerId v ∈ s.stack := by
    rw [search.ids]
    exact List.mem_map_of_mem mem
  have room : ∀ last ∈ s.stack, last.toNat / 8 < s.cycleMarker.nBytes := by
    intro last memLast
    rw [search.ids] at memLast
    obtain ⟨u, memU, rfl⟩ := List.mem_map.mp memLast
    exact search.room distinct (search.waiting u memU).1
  simp only [CycleMarker.finish, isRoot, isVisited]
  split
  · exact popComponent_ok onStack room rfl
  · exact ⟨s, rfl⟩

/-- The level of a container that is entered is below the number of nodes: the active
containers and itself have distinct ids. -/
theorem Search.level_lt (distinct : DistinctIds info) (search : Search info path stack s)
    (nodup : path.Nodup) (reached : Reached info v)
    (fresh : s.visited (info.containerId v) = none) : path.length < info.nNodes.toNat := by
  have reachedAll : ∀ a ∈ v :: path, Reached info a := by
    intro a mem
    rcases List.mem_cons.mp mem with rfl | mem
    · exact reached
    · exact (search.waiting a (search.active a mem)).1
  have notOn : v ∉ path := fun mem => search.seen (search.active v mem) fresh
  let number : ν → Nat := fun a => (info.containerId a).toNat
  have distinctIds : ((v :: path).map number).Nodup :=
    (List.nodup_cons.mpr ⟨notOn, nodup⟩).map_on fun a memA b memB same =>
      distinct.injective a b (reachedAll a memA) (reachedAll b memB) (UInt32.toNat_inj.mp same)
  have below : ((v :: path).map number).toFinset ⊆ Finset.range info.nNodes.toNat := by
    intro n mem
    rw [List.mem_toFinset] at mem
    obtain ⟨a, memA, rfl⟩ := List.mem_map.mp mem
    exact Finset.mem_range.mpr (distinct.bound a (reachedAll a memA))
  have few := Finset.card_le_card below
  rw [List.toFinset_card_of_nodup distinctIds, List.length_map, Finset.card_range,
    List.length_cons] at few
  exact few

/-- The round for a child stops only where its visit does. -/
theorem Search.child_stops {above below : List ν} (distinct : DistinctIds info)
    {visitW : ν → CycleMarkerState → Res CycleMarkerState}
    (visits : ∀ w s stack, Reached info w → (∀ a ∈ v :: path, TransGen (Edge info) a w) →
      s.visited (info.containerId w) = none → Search info (v :: path) stack s →
      Post (Visited info (v :: path) stack w s) DepthError (visitW w s))
    (search : Search info (v :: path) (above ++ v :: below) s)
    (from_path : ∀ a ∈ path, TransGen (Edge info) a v) {n : UInt32}
    (count : info.nChildren v = .ok n) {i : Nat} (less : i < n.toNat) {w : ν}
    (child : info.childAt v i = .ok w) :
    Post (fun _ => True) DepthError (visitChild info visitW v s i) := by
  have memV : v ∈ above ++ v :: below := List.mem_append_right above List.mem_cons_self
  have reachedV := (search.waiting v memV).1
  rw [visitChild, child, ok_bind]
  split
  case isTrue =>
    rw [Bitmask.set, if_pos (search.room distinct reachedV), ok_bind]
    exact trivial
  case isFalse =>
    unfold processChild
    split
    case isFalse => exact trivial
    case isTrue container =>
      have edge : Edge info v w := ⟨n, i, count, less, child, container⟩
      have reachedW := reachedV.next edge
      dsimp only
      split
      case isTrue fresh =>
        have behind : ∀ a ∈ v :: path, TransGen (Edge info) a w := by
          intro a mem
          rcases List.mem_cons.mp mem with rfl | mem
          · exact .single edge
          · exact (from_path a mem).tail edge
        refine Post.bind (visits w s _ reachedW behind fresh search) fun s' _ done => ?_
        obtain ⟨⟨above', search'⟩, -, seen⟩ := done
        obtain ⟨t, joined⟩ := search'.joins (List.mem_append_right above' memV) reachedW seen
        rw [joined]
        exact trivial
      case isFalse seen =>
        obtain ⟨t, joined⟩ := search.joins memV reachedW seen
        rw [pure_eq_ok, ok_bind, joined]
        exact trivial

/-- The search goes on below `v` after the round for a child. -/
theorem Search.child_kept {above below : List ν} (distinct : DistinctIds info) {fuel : Nat}
    {count depth : Nat} (search : Search info (v :: path) (above ++ v :: below) s)
    (paths : ∀ a ∈ path, a ∈ below) (from_path : ∀ a ∈ path, TransGen (Edge info) a v) {n : UInt32}
    (children : info.nChildren v = .ok n) {i : Nat} (less : i < n.toNat) {t : CycleMarkerState}
    (returned : visitChild info (fun w s => CycleMarker.visit info fuel w count depth s) v s i =
      .ok t) : ∃ above', Search info (v :: path) (above' ++ v :: below) t := by
  cases child : info.childAt v i with
  | error e =>
      rw [visitChild, child] at returned
      cases returned
  | ok w =>
      have visits : ∀ w s stack, Reached info w → (∀ a ∈ v :: path, TransGen (Edge info) a w) →
          s.visited (info.containerId w) = none → Search info (v :: path) stack s →
          Post (Visited info (v :: path) stack w s) (fun _ => True)
            (CycleMarker.visit info fuel w count depth s) :=
        fun w s stack reachedW behind fresh search => search.visit distinct reachedW behind fresh
      have done := search.child distinct visits paths from_path children less child
      exact (done.of_ok returned).1

/-- The rounds for the children keep the search and stop only where a visit does. -/
theorem Search.children_stop (distinct : DistinctIds info) {fuel count depth : Nat}
    (visits : ∀ w s stack, Reached info w → (∀ a ∈ v :: path, TransGen (Edge info) a w) →
      s.visited (info.containerId w) = none → Search info (v :: path) stack s →
      Post (fun _ => True) DepthError (CycleMarker.visit info fuel w count depth s))
    (search : Search info (v :: path) (v :: stack) s) (paths : ∀ a ∈ path, a ∈ stack)
    (from_path : ∀ a ∈ path, TransGen (Edge info) a v) {n : UInt32}
    (children : info.nChildren v = .ok n)
    (callable : ∀ i < n.toNat, ∃ w, info.childAt v i = .ok w) :
    Post (fun t => ∃ above, Search info (v :: path) (above ++ v :: stack) t) DepthError
      ((List.range n.toNat).foldlM
        (visitChild info (fun w s => CycleMarker.visit info fuel w count depth s) v) s) := by
  refine Post.foldlM ⟨[], search⟩ fun t held i mem => ?_
  obtain ⟨above, search'⟩ := held
  have less := List.mem_range.mp mem
  obtain ⟨w, child⟩ := callable i less
  have stops := search'.child_stops distinct
    (fun x u stack reachedX behind fresh searchX =>
      (searchX.visit distinct reachedX behind fresh).sides
        (visits x u stack reachedX behind fresh searchX))
    from_path children less child
  cases returned :
      visitChild info (fun w s => CycleMarker.visit info fuel w count depth s) v t i with
  | error e => exact stops.of_error returned
  | ok t' => exact search'.child_kept distinct paths from_path children less returned

theorem Search.visit_stops (distinct : DistinctIds info) (callable : Callable info) {fuel : Nat}
    {count depth : Nat} (search : Search info path stack s) (reached : Reached info v)
    (from_path : ∀ a ∈ path, TransGen (Edge info) a v)
    (fresh : s.visited (info.containerId v) = none) (nodup : path.Nodup)
    (level : count = path.length) (enough : maxDepth ≤ depth + fuel) :
    Post (fun _ => True) DepthError (CycleMarker.visit info (fuel + 1) v count depth s) := by
  have notOn : v ∉ path := fun mem => search.seen (search.active v mem) fresh
  induction fuel generalizing path stack s v count depth with
  | zero =>
      rw [Nat.add_zero] at enough
      rw [CycleMarker.visit, if_pos enough]
      rfl
  | succ fuel ih =>
      have below := search.level_lt distinct nodup reached fresh
      rw [CycleMarker.visit]
      split
      · rfl
      rw [if_neg (by omega)]
      obtain ⟨n, children, callableV⟩ := callable v reached
      obtain ⟨entered, -⟩ := search.enter distinct reached fresh count
      rw [children, ok_bind]
      refine Post.bind (entered.children_stop distinct
        (fun w t stack' reachedW behind freshW searchW => ?_)
        search.active from_path children callableV) fun t _ held => ?_
      · exact ih searchW reachedW behind freshW (List.nodup_cons.mpr ⟨notOn, nodup⟩)
          (by rw [level, List.length_cons]) (by omega)
          fun mem => searchW.seen (searchW.active w mem) freshW
      · obtain ⟨above, search'⟩ := held
        obtain ⟨t', finished⟩ :=
          search'.finishes distinct (List.mem_append_right above List.mem_cons_self)
        rw [finished]
        exact trivial

end Stops

/-! ## What is noted -/

section Notes

variable (info : CycleMarkerInfo ν)

/-- The id that an event enters. -/
def enteredId : MarkerEvent ν → Option UInt32
  | .enter v => some (info.containerId v)
  | .pop _ _ => none

/-- Only containers of the graph are entered, and only components that stand on the stack
are popped. -/
def Sound : MarkerEvent ν → Prop
  | .enter v => Reached info v
  | .pop id stack => id ∈ stack

/-- The ids that the map of visited containers has. -/
def HasVisited (s : CycleMarkerState) (id : UInt32) : Prop := s.visited id ≠ none

/-- The log of a part of the search is sound, and enters each container once that the map
of visited containers has more at the end. -/
abbrev Notes (s : CycleMarkerState) (m : MarkerLog ν CycleMarkerState) : Prop :=
  Records (enteredId info) HasVisited (Sound info) s m

variable {info : CycleMarkerInfo ν} {path stack : List ν} {s : CycleMarkerState} {v : ν}

theorem hasVisited_enter {id : UInt32} {count : Nat} (id' : UInt32) :
    HasVisited (enter id count s) id' ↔ HasVisited s id' ∨ id' = id := by
  change Function.update s.visited id _ id' ≠ none ↔ s.visited id' ≠ none ∨ _
  rcases eq_or_ne id' id with rfl | differ
  · rw [Function.update_self]
    exact iff_of_true (Option.some_ne_none count) (Or.inr rfl)
  · rw [Function.update_of_ne differ, or_iff_left differ]

theorem notes_of_visited {x : Res CycleMarkerState}
    (same : ∀ t, x = .ok t → t.visited = s.visited) : Notes info s (lift x) := by
  refine Records.lift fun t returned id => ?_
  rw [HasVisited, HasVisited, same t returned]

theorem joinRoot_visited {id childId : UInt32} {t : CycleMarkerState}
    (returned : joinRoot id childId s = .ok t) : t.visited = s.visited := by
  unfold joinRoot at returned
  split at returned
  · cases returned
    rfl
  split at returned
  · split at returned <;> cases returned <;> rfl
  · cases returned

theorem popComponent_visited {id : UInt32} {rootV : Nat} {ids : List UInt32} {t : CycleMarkerState}
    (returned : popComponent id rootV ids s = .ok t) : t.visited = s.visited := by
  induction ids generalizing s with
  | nil => cases returned
  | cons last rest ih =>
      rw [popComponent] at returned
      split at returned
      · cases returned
        rfl
      · obtain ⟨cycleMarker, -, returned⟩ := bind_eq_ok.mp returned
        have kept := ih returned
        exact kept

theorem finishLogged_notes {id : UInt32} (onStack : id ∈ s.stack) :
    Notes info s (finishLogged id s) := by
  unfold finishLogged
  split
  · split
    · refine Records.bind (Records.note (e := MarkerEvent.pop id s.stack) onStack rfl)
        fun t returned => ?_
      cases returned
      refine notes_of_visited fun t' returned => ?_
      have kept := popComponent_visited returned
      exact kept
    · exact notes_of_visited fun t returned => by cases returned; rfl
  · exact notes_of_visited fun t failed => by cases failed

theorem visitChildLogged_notes {visitW : ν → CycleMarkerState → MarkerLog ν CycleMarkerState}
    {i : Nat} (visits : ∀ w, info.childAt v i = .ok w → info.isContainer w = true →
      s.visited (info.containerId w) = none → Notes info s (visitW w s)) :
    Notes info s (visitChildLogged info visitW v s i) := by
  refine Records.lift_bind fun w child => ?_
  split
  · refine notes_of_visited fun t returned => ?_
    obtain ⟨cycleMarker, -, rfl⟩ := map_eq_ok.mp returned
    rfl
  · unfold processChildLogged
    split
    case isFalse => exact notes_of_visited fun t returned => by cases returned; rfl
    case isTrue container =>
      split
      case isTrue fresh =>
        refine Records.bind (visits w child container fresh) fun t _ => ?_
        exact notes_of_visited fun t' returned => joinRoot_visited returned
      case isFalse => exact notes_of_visited fun t returned => joinRoot_visited returned

theorem Search.children_notes (distinct : DistinctIds info) (fuel count depth : Nat)
    (visits : ∀ w t stack, Reached info w → (∀ a ∈ v :: path, TransGen (Edge info) a w) →
      t.visited (info.containerId w) = none → Search info (v :: path) stack t →
      Notes info t (visitLogged info fuel w count depth t))
    (search : Search info (v :: path) (v :: stack) s) (paths : ∀ a ∈ path, a ∈ stack)
    (from_path : ∀ a ∈ path, TransGen (Edge info) a v) {n : UInt32}
    (children : info.nChildren v = .ok n) :
    let rounds := (List.range n.toNat).foldlM
      (visitChildLogged info (fun w s => visitLogged info fuel w count depth s) v) s
    Notes info s rounds ∧
      ∀ t, rounds.outcome = .ok t → ∃ above, Search info (v :: path) (above ++ v :: stack) t := by
  refine Records.foldlM ⟨[], search⟩ fun t held i mem => ?_
  obtain ⟨above, search'⟩ := held
  have less := List.mem_range.mp mem
  have memV : v ∈ above ++ v :: stack := List.mem_append_right above List.mem_cons_self
  refine ⟨visitChildLogged_notes fun w child container fresh => ?_, fun t' returned => ?_⟩
  · have edge : Edge info v w := ⟨n, i, children, less, child, container⟩
    refine visits w t _ ((search'.waiting v memV).1.next edge) (fun a memA => ?_) fresh search'
    rcases List.mem_cons.mp memA with rfl | memA
    · exact .single edge
    · exact (from_path a memA).tail edge
  · rw [visitChildLogged_outcome fun w s => visitLogged_outcome fuel w count depth s] at returned
    exact search'.child_kept distinct paths from_path children less returned

theorem visitLogged_notes (distinct : DistinctIds info) {fuel count depth : Nat}
    (search : Search info path stack s) (reached : Reached info v)
    (from_path : ∀ a ∈ path, TransGen (Edge info) a v)
    (fresh : s.visited (info.containerId v) = none) :
    Notes info s (visitLogged info fuel v count depth s) := by
  induction fuel generalizing path stack s v count depth with
  | zero => exact notes_of_visited fun t failed => by cases failed
  | succ fuel ih =>
      rw [visitLogged]
      split
      · exact notes_of_visited fun t failed => by cases failed
      split
      · exact notes_of_visited fun t failed => by cases failed
      have notes : Notes info s (note (.enter v) (enter (info.containerId v) count s)) :=
        Records.note_key reached rfl (not_not_intro fresh) hasVisited_enter
      refine notes.bind fun t returned => ?_
      cases returned
      refine Records.lift_bind fun n children => ?_
      have rounds := (search.enter distinct reached fresh count).1.children_notes distinct fuel
        (count + 1) (depth + 2)
        (fun w t stack' reachedW behind freshW searchW => ih searchW reachedW behind freshW)
        search.active from_path children
      refine rounds.1.bind fun t returned => ?_
      obtain ⟨above, search'⟩ := rounds.2 t returned
      refine finishLogged_notes ?_
      rw [search'.ids]
      exact List.mem_map_of_mem (List.mem_append_right above List.mem_cons_self)

/-! ## The whole search -/

theorem searchLogged_notes (distinct : DistinctIds info) :
    Notes info (startState info) (searchLogged info) := by
  unfold searchLogged
  split
  case isTrue container =>
    exact visitLogged_notes distinct (Search.start info) ⟨container, .refl⟩
      (fun _ bad => absurd bad List.not_mem_nil) rfl
  case isFalse => exact notes_of_visited fun t returned => by cases returned; rfl

theorem searchRoot_stops (distinct : DistinctIds info) (callable : Callable info) :
    Post (fun _ => True) DepthError (searchRoot info) := by
  unfold searchRoot
  split
  case isTrue container =>
    refine (Search.start info).visit_stops distinct callable ⟨container, .refl⟩
      (fun _ bad => absurd bad List.not_mem_nil) rfl List.nodup_nil rfl (Nat.le_of_eq ?_)
    exact (Nat.zero_add maxDepth).symm
  case isFalse => exact trivial

/-- The ids of the containers that a search from the root enters, in order. -/
def enteredIds (info : CycleMarkerInfo ν) : List UInt32 :=
  (searchLogged info).log.filterMap (enteredId info)

theorem mem_enteredIds (distinct : DistinctIds info) (returned : searchRoot info = .ok s)
    (reached : Reached info v) : info.containerId v ∈ enteredIds info := by
  have seen := (searchRoot_done distinct returned).2 v reached
  rw [← searchLogged_outcome] at returned
  have either := ((searchLogged_notes distinct).has s returned _).mp seen
  exact either.resolve_left fun bad => bad rfl

/-- The discipline of the cycle marker: the depth is all that stops it, it enters no
container twice and each container if it is not stopped, and when it pops a component the
first container of the component is on the stack. -/
theorem cycleMarker_discipline (distinct : DistinctIds info) (callable : Callable info) :
    (cycleMarker info = (searchLogged info).outcome >>= fun s => pure s.cycleMarker) ∧
      ((∃ mask, cycleMarker info = .ok mask ∧
          ∀ v, Reached info v → info.containerId v ∈ enteredIds info) ∨
        cycleMarker info = .error (.error "maximum recursion depth reached")) ∧
      (enteredIds info).Nodup ∧
      (∀ v, .enter v ∈ (searchLogged info).log → Reached info v) ∧
      ∀ id stack, .pop id stack ∈ (searchLogged info).log → id ∈ stack := by
  have notes := searchLogged_notes distinct
  have stops := searchRoot_stops distinct callable
  refine ⟨?_, ?_, notes.nodup, fun v mem => notes.good _ mem, fun id stack mem => notes.good _ mem⟩
  · rw [searchLogged_outcome, cycleMarker_eq]
  · rw [cycleMarker_eq]
    cases returned : searchRoot info with
    | error e => exact Or.inr (congrArg Except.error (stops.of_error returned))
    | ok s =>
        exact Or.inl ⟨s.cycleMarker, rfl, fun v reached => mem_enteredIds distinct returned reached⟩

theorem cycleMarker_discipline_twoCycle :
    enteredIds twoCycle = [0, 1] ∧
      (∃ mask, cycleMarker twoCycle = .ok mask ∧
        ∀ v, Reached twoCycle v → twoCycle.containerId v ∈ enteredIds twoCycle) := by
  have distinct : DistinctIds twoCycle := distinctIds_of_bool rfl rfl
  have callable : Callable twoCycle := fun v _ => ⟨1, rfl, fun i _ => ⟨!v, rfl⟩⟩
  obtain ⟨-, either, -⟩ := cycleMarker_discipline distinct callable
  refine ⟨rfl, either.resolve_right fun stopped => ?_⟩
  rw [twoCycle_marks] at stopped
  cases stopped

end Notes

end CycleMarker

end Pointless
