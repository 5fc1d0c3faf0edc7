import Pointless.MarkerSound
import Mathlib.Data.List.Infix
import Mathlib.Logic.Relation

/-!
# What the cycle marker marks

Every container that the cycle marker marks lies on a cycle, whatever count it hands
out. It does not mark every container on a cycle. The first container of a component
that it visits is popped off the stack without a mark, unless it has an edge to
itself. So the marks are exact where each container on a cycle has such an edge, and
are not where a component with a cycle has no container with such an edge.
-/

namespace Pointless

open ExceptRules Relation

namespace CycleMarker

variable {ν : Type}

/-! ## The graph -/

section Graph

variable (info : CycleMarkerInfo ν)

/-- The container `w` is a child of `v`. -/
def Edge (v w : ν) : Prop :=
  ∃ n i, info.nChildren v = .ok n ∧ i < n.toNat ∧ info.childAt v i = .ok w ∧
    info.isContainer w = true

/-- A container that is reachable from the root. -/
def Reached (v : ν) : Prop :=
  info.isContainer info.getRoot = true ∧ ReflTransGen (Edge info) info.getRoot v

/-- The container lies on a directed cycle, which may be an edge to itself. -/
def OnCycle (v : ν) : Prop := TransGen (Edge info) v v

/-- Containers have ids of their own, which are below the number of nodes. -/
structure DistinctIds : Prop where
  injective : ∀ v w, Reached info v → Reached info w →
    info.containerId v = info.containerId w → v = w
  bound : ∀ v, Reached info v → (info.containerId v).toNat < info.nNodes.toNat

/-- The bits of `mask` are those of the reachable containers on cycles. -/
def MarksCycles (mask : Bitmask) : Prop :=
  ∀ id : UInt32, mask.isSet id.toNat = .ok true ↔
    ∃ v, Reached info v ∧ info.containerId v = id ∧ OnCycle info v

end Graph

variable {info : CycleMarkerInfo ν}

theorem Reached.next {v w : ν} (reached : Reached info v) (edge : Edge info v w) :
    Reached info w := ⟨reached.1, reached.2.tail edge⟩

theorem Reached.along {v w : ν} (reached : Reached info v)
    (chain : ReflTransGen (Edge info) v w) : Reached info w := ⟨reached.1, reached.2.trans chain⟩

theorem Reached.container {v : ν} (reached : Reached info v) : info.isContainer v = true := by
  obtain ⟨root, chain⟩ := reached
  cases chain with
  | refl => exact root
  | tail _ edge =>
      obtain ⟨-, -, -, -, -, container⟩ := edge
      exact container

/-! ## The invariant -/

/-- A container on a cycle with one that got a lower count. -/
def Below (info : CycleMarkerInfo ν) (s : CycleMarkerState) (u : ν) : Prop :=
  ∃ a la lu, s.visited (info.containerId a) = some la ∧ s.visited (info.containerId u) = some lu ∧
    la < lu ∧ TransGen (Edge info) a u ∧ ReflTransGen (Edge info) u a

/-- The child `w` of `u` has been visited, or has been marked where it is `u` itself. -/
def Followed (info : CycleMarkerInfo ν) (s : CycleMarkerState) (u w : ν) : Prop :=
  s.visited (info.containerId w) ≠ none ∧
    (w = u → (info.containerId u).toNat ∈ s.cycleMarker.bits)

/-- The state of the search while the containers in `path` are being visited, with
the containers `stack` on the stack. -/
structure Search (info : CycleMarkerInfo ν) (path stack : List ν) (s : CycleMarkerState) :
    Prop where
  size : s.cycleMarker.nBytes = iceil info.nNodes.toNat 8
  ids : s.stack = stack.map info.containerId
  nodup : stack.Nodup
  active : ∀ a ∈ path, a ∈ stack
  waiting : ∀ u ∈ stack, Reached info u ∧ s.component (info.containerId u) = none
  -- what `root[u]` stands for: an active container that `u` leads to, below `u` on the stack
  low : ∀ u below, (u :: below) <:+ stack → ∃ a ∈ u :: below, a ∈ path ∧
    ReflTransGen (Edge info) u a ∧ ∃ la r lu, s.visited (info.containerId a) = some la ∧
      s.root (info.containerId u) = some r ∧ s.visited (info.containerId u) = some lu ∧
      la ≤ r ∧ r ≤ lu
  finished : ∀ u ∈ stack, u ∉ path → Below info s u
  component : ∀ id, s.visited id = none → s.component id = none
  closed : ∀ w, Reached info w → s.visited (info.containerId w) ≠ none →
    s.component (info.containerId w) = none → w ∈ stack
  marks : ∀ id ∈ s.cycleMarker.bits, ∃ v, Reached info v ∧ (info.containerId v).toNat = id ∧
    (Edge info v v ∨ Below info s v)
  followed : ∀ u, Reached info u → s.visited (info.containerId u) ≠ none → u ∉ path →
    ∀ w, Edge info u w → Followed info s u w

/-- What is visited or marked stays so. -/
structure Grows (s s' : CycleMarkerState) : Prop where
  visited : ∀ id l, s.visited id = some l → s'.visited id = some l
  bits : ∀ id ∈ s.cycleMarker.bits, id ∈ s'.cycleMarker.bits

theorem Grows.refl (s : CycleMarkerState) : Grows s s := ⟨fun _ _ l => l, fun _ mem => mem⟩

theorem Grows.trans {s t u : CycleMarkerState} (first : Grows s t) (second : Grows t u) :
    Grows s u :=
  ⟨fun id l seen => second.visited id l (first.visited id l seen),
    fun id mem => second.bits id (first.bits id mem)⟩

theorem Grows.ne_none {s s' : CycleMarkerState} (grows : Grows s s') {id : UInt32}
    (seen : s.visited id ≠ none) : s'.visited id ≠ none := by
  obtain ⟨l, isSome⟩ := Option.ne_none_iff_exists'.mp seen
  rw [grows.visited id l isSome]
  exact Option.some_ne_none l

theorem Below.grow {s s' : CycleMarkerState} (grows : Grows s s') {u : ν}
    (below : Below info s u) : Below info s' u := by
  obtain ⟨a, la, lu, seenA, seenU, less, there, back⟩ := below
  exact ⟨a, la, lu, grows.visited _ _ seenA, grows.visited _ _ seenU, less, there, back⟩

theorem Followed.grow {s s' : CycleMarkerState} (grows : Grows s s') {u w : ν}
    (followed : Followed info s u w) : Followed info s' u w :=
  ⟨grows.ne_none followed.1, fun same => grows.bits _ (followed.2 same)⟩

theorem Below.onCycle {s : CycleMarkerState} {u : ν} (below : Below info s u) :
    OnCycle info u := by
  obtain ⟨a, -, -, -, -, -, there, back⟩ := below
  exact TransGen.trans_right back there

/-! ## Steps -/

section Steps

variable {path stack : List ν} {s : CycleMarkerState}

/-- On a stack without duplicates, what stands below a container lies in every stretch
that ends the stack and has the container in it. -/
theorem below_subset {above below rest : List ν} {u v : ν}
    (nodup : (above ++ v :: below).Nodup) (suffix : (u :: rest) <:+ (above ++ v :: below))
    (mem : v ∈ u :: rest) {a : ν} (memA : a ∈ below) : a ∈ u :: rest := by
  have whole : (v :: below) <:+ (above ++ v :: below) := List.suffix_append above _
  rcases List.suffix_or_suffix_of_suffix suffix whole with short | long
  · -- the stretch would lie below `v`, which stands only once
    obtain ⟨front, split⟩ := short
    cases front with
    | nil =>
        rw [List.nil_append] at split
        rw [split]
        exact List.mem_cons_of_mem v memA
    | cons x front =>
        obtain ⟨rfl, rest⟩ := List.cons.inj split
        have once := (List.nodup_append.mp nodup).2.1
        exact absurd (rest ▸ List.mem_append_right front mem) (List.nodup_cons.mp once).1
  · exact long.subset (List.mem_cons_of_mem v memA)

theorem Search.seen (search : Search info path stack s) {u : ν} (mem : u ∈ stack) :
    s.visited (info.containerId u) ≠ none := by
  obtain ⟨above, below, rfl⟩ := List.append_of_mem mem
  obtain ⟨-, -, -, -, la, r, lu, -, -, seen, -⟩ := search.low u below (List.suffix_append _ _)
  rw [seen]
  exact Option.some_ne_none lu

/-- A container is entered. -/
theorem Search.enter (distinct : DistinctIds info) (search : Search info path stack s) {v : ν}
    (reached : Reached info v) (fresh : s.visited (info.containerId v) = none) (count : Nat) :
    Search info (v :: path) (v :: stack) (enter (info.containerId v) count s) ∧
      Grows s (CycleMarker.enter (info.containerId v) count s) := by
  have notOn : v ∉ stack := fun mem => search.seen mem fresh
  have apart : ∀ u, Reached info u → u ≠ v → info.containerId u ≠ info.containerId v :=
    fun u reachedU differ same => differ (distinct.injective u v reachedU reached same)
  have grows : Grows s (CycleMarker.enter (info.containerId v) count s) := by
    refine ⟨fun id l seen => ?_, fun id mem => mem⟩
    change Function.update s.visited _ _ id = _
    rw [Function.update_of_ne, seen]
    rintro rfl
    rw [fresh] at seen
    cases seen
  have here : (CycleMarker.enter (info.containerId v) count s).visited (info.containerId v) =
      some count := Function.update_self ..
  refine ⟨⟨search.size, ?_, List.nodup_cons.mpr ⟨notOn, search.nodup⟩, ?_, ?_, ?_, ?_, ?_, ?_, ?_, ?_⟩,
    grows⟩
  · change info.containerId v :: s.stack = _
    rw [search.ids, List.map_cons]
  · intro a mem
    rcases List.mem_cons.mp mem with rfl | mem
    · exact List.mem_cons_self
    · exact List.mem_cons_of_mem v (search.active a mem)
  · intro u mem
    rcases List.mem_cons.mp mem with rfl | mem
    · exact ⟨reached, search.component _ fresh⟩
    · exact search.waiting u mem
  · intro u below suffix
    rcases List.suffix_cons_iff.mp suffix with whole | inner
    · cases whole
      exact ⟨v, List.mem_cons_self, List.mem_cons_self, .refl, count, count, count, here,
        Function.update_self .., here, Nat.le_refl _, Nat.le_refl _⟩
    · obtain ⟨a, mem, memPath, chain, la, r, lu, seenA, rootU, seenU, le, le'⟩ :=
        search.low u below inner
      have memU : u ∈ stack := inner.subset List.mem_cons_self
      refine ⟨a, mem, List.mem_cons_of_mem v memPath, chain, la, r, lu, grows.visited _ _ seenA, ?_,
        grows.visited _ _ seenU, le, le'⟩
      change Function.update s.root _ _ _ = _
      rw [Function.update_of_ne (apart u (search.waiting u memU).1 fun same => notOn (same ▸ memU)),
        rootU]
  · intro u mem notPath
    rcases List.mem_cons.mp mem with rfl | mem
    · exact absurd List.mem_cons_self notPath
    · exact (search.finished u mem fun memPath =>
        notPath (List.mem_cons_of_mem v memPath)).grow grows
  · intro id unseen
    refine search.component id ?_
    by_cases same : id = info.containerId v
    · rw [same, fresh]
    · change Function.update s.visited _ _ _ = _ at unseen
      rwa [Function.update_of_ne same] at unseen
  · intro w reachedW seen none
    by_cases same : w = v
    · rw [same]
      exact List.mem_cons_self
    · refine List.mem_cons_of_mem v (search.closed w reachedW ?_ none)
      change Function.update s.visited _ _ _ ≠ _ at seen
      rwa [Function.update_of_ne (apart w reachedW same)] at seen
  · intro id mem
    obtain ⟨u, reachedU, isId, either⟩ := search.marks id mem
    exact ⟨u, reachedU, isId, either.imp_right fun below => below.grow grows⟩
  · intro u reachedU seen notPath w edge
    have differ : u ≠ v := fun same => notPath (same ▸ List.mem_cons_self)
    change Function.update s.visited _ _ _ ≠ _ at seen
    rw [Function.update_of_ne (apart u reachedU differ)] at seen
    exact (search.followed u reachedU seen (fun mem => notPath (List.mem_cons_of_mem v mem)) w
      edge).grow grows

/-- The mark of a container with an edge to itself. -/
theorem Search.mark (search : Search info path stack s) {v : ν} (reached : Reached info v)
    (edge : Edge info v v) {cycleMarker : Bitmask}
    (set : s.cycleMarker.set (info.containerId v).toNat = .ok cycleMarker) :
    Search info path stack { s with cycleMarker } ∧ Grows s { s with cycleMarker } ∧
      (info.containerId v).toNat ∈ cycleMarker.bits := by
  rw [Bitmask.set] at set
  split at set
  case isFalse => cases set
  case isTrue =>
    cases set
    have grows : Grows s { s with cycleMarker :=
        { s.cycleMarker with bits := (info.containerId v).toNat :: s.cycleMarker.bits } } :=
      ⟨fun _ _ seen => seen, fun id mem => List.mem_cons_of_mem _ mem⟩
    refine ⟨⟨search.size, search.ids, search.nodup, search.active, search.waiting, search.low,
      search.finished, search.component, search.closed, fun id mem => ?_,
      fun u reachedU seen notPath w edge => (search.followed u reachedU seen notPath w edge).grow
        grows⟩, grows, List.mem_cons_self⟩
    rcases List.mem_cons.mp mem with rfl | mem
    · exact ⟨v, reached, rfl, Or.inl edge⟩
    · exact search.marks id mem

/-- `root[v]` is lowered to that of a child without a component. -/
theorem Search.join {above below : List ν} {v w : ν} (distinct : DistinctIds info)
    (search : Search info (v :: path) (above ++ v :: below) s) (paths : ∀ a ∈ path, a ∈ below)
    (edge : Edge info v w) (seen : s.visited (info.containerId w) ≠ none) :
    Post (fun s' => Search info (v :: path) (above ++ v :: below) s' ∧ Grows s s') (fun _ => True)
      (joinRoot (info.containerId v) (info.containerId w) s) := by
  have memV : v ∈ above ++ v :: below := List.mem_append_right above List.mem_cons_self
  have reachedV := (search.waiting v memV).1
  unfold joinRoot
  split
  case h_1 => exact ⟨search, Grows.refl s⟩
  case h_2 none =>
    split
    case h_2 => exact trivial
    case h_1 rootV rootW isRootV isRootW =>
      split
      case isFalse => exact ⟨search, Grows.refl s⟩
      case isTrue less =>
        refine ⟨⟨search.size, search.ids, search.nodup, search.active, search.waiting, ?_,
          search.finished, search.component, search.closed, search.marks, search.followed⟩,
          fun _ _ seen => seen, fun _ mem => mem⟩
        intro u rest suffix
        have memU : u ∈ above ++ v :: below := suffix.subset List.mem_cons_self
        by_cases same : u = v
        · -- the container that `w` leads to is active, so that it stands below `v`
          subst same
          have memW := search.closed w (reachedV.next edge) seen none
          obtain ⟨front, back, split⟩ := List.append_of_mem memW
          obtain ⟨a, -, memPath, chain, la, r, lw, seenA, isRoot, -, le, -⟩ :=
            search.low w back (split ▸ List.suffix_append front _)
          obtain ⟨-, -, -, -, -, r', lu, -, isRoot', seenU, -, le'⟩ := search.low u rest suffix
          rw [isRootW] at isRoot
          rw [isRootV] at isRoot'
          cases isRoot
          cases isRoot'
          refine ⟨a, ?_, memPath, .head edge chain, la, rootW, lu, seenA, Function.update_self ..,
            seenU, le, by omega⟩
          rcases List.mem_cons.mp memPath with rfl | memPath
          · exact List.mem_cons_self
          · exact below_subset search.nodup suffix List.mem_cons_self (paths a memPath)
        · obtain ⟨a, mem, memPath, chain, la, r, lu, seenA, isRoot, seenU, le, le'⟩ :=
            search.low u rest suffix
          refine ⟨a, mem, memPath, chain, la, r, lu, seenA, ?_, seenU, le, le'⟩
          change Function.update s.root _ _ _ = _
          rw [Function.update_of_ne fun ids => same
            (distinct.injective u v (search.waiting u memU).1 reachedV ids), isRoot]

/-- What popping the ids `above` off the stack does. -/
structure Popped (above below : List UInt32) (s s' : CycleMarkerState) : Prop where
  size : s'.cycleMarker.nBytes = s.cycleMarker.nBytes
  stack : s'.stack = below
  visited : s'.visited = s.visited
  root : s'.root = s.root
  component : ∀ id, (id ∈ above → s'.component id ≠ none) ∧
    (id ∉ above → s'.component id = s.component id)
  bits : ∀ id, id ∈ s'.cycleMarker.bits ↔
    id ∈ s.cycleMarker.bits ∨ ∃ last ∈ above, last.toNat = id

theorem popComponent_popped {id : UInt32} {rootV : Nat} {above below : List UInt32}
    {s : CycleMarkerState} (notAbove : id ∉ above) :
    Post (Popped above below s) (fun _ => True)
      (popComponent id rootV (above ++ id :: below) s) := by
  induction above generalizing s with
  | nil =>
      rw [List.nil_append, popComponent, if_pos rfl]
      exact ⟨rfl, rfl, rfl, rfl, fun _ => ⟨fun bad => absurd bad List.not_mem_nil, fun _ => rfl⟩,
        fun _ => by simp⟩
  | cons last above ih =>
      obtain ⟨differ, notAbove⟩ := not_or.mp (mt List.mem_cons.mpr notAbove)
      rw [List.cons_append, popComponent, if_neg (Ne.symm differ), Bitmask.set]
      split
      case isFalse => exact trivial
      case isTrue =>
        refine Post.mono (ih notAbove) (fun s' popped => ?_) fun _ _ => trivial
        obtain ⟨size, rest, visited, root, component, bits⟩ := popped
        refine ⟨size, rest, visited, root, fun x => ⟨fun mem => ?_, fun notMem => ?_⟩, fun x => ?_⟩
        · by_cases mem' : x ∈ above
          · exact (component x).1 mem'
          · obtain rfl := (List.mem_cons.mp mem).resolve_right mem'
            rw [(component x).2 mem']
            change Function.update s.component _ _ _ ≠ _
            rw [Function.update_self]
            exact Option.some_ne_none _
        · obtain ⟨differ, notMem⟩ := not_or.mp (mt List.mem_cons.mpr notMem)
          rw [(component x).2 notMem]
          exact Function.update_of_ne differ ..
        · rw [bits]
          simp only [List.mem_cons, exists_eq_or_imp]
          constructor
          · rintro ((rfl | mem) | found)
            · exact Or.inr (Or.inl rfl)
            · exact Or.inl mem
            · exact Or.inr (Or.inr found)
          · rintro (mem | rfl | found)
            · exact Or.inl (Or.inr mem)
            · exact Or.inl (Or.inl rfl)
            · exact Or.inr found

/-- A component is closed with its first container. -/
theorem Search.pop {above below : List ν} {v : ν} (distinct : DistinctIds info)
    (search : Search info (v :: path) (above ++ v :: below) s) (paths : ∀ a ∈ path, a ∈ below)
    (followed : ∀ w, Edge info v w → Followed info s v w) (rootV : Nat) :
    Post (fun s' => Search info path below s' ∧ Grows s s') (fun _ => True)
      (popComponent (info.containerId v) rootV s.stack
        { s with component := Function.update s.component (info.containerId v) (some rootV) }) := by
  have nodup := search.nodup
  obtain ⟨nodupAbove, nodupBelow, disjoint⟩ := List.nodup_append.mp nodup
  obtain ⟨notBelow, nodupBelow⟩ := List.nodup_cons.mp nodupBelow
  have memV : v ∈ above ++ v :: below := List.mem_append_right above List.mem_cons_self
  have inAbove : ∀ u ∈ above, u ∈ above ++ v :: below := fun u => List.mem_append_left _
  have inBelow : ∀ u ∈ below, u ∈ above ++ v :: below := fun u mem =>
    List.mem_append_right above (List.mem_cons_of_mem v mem)
  have idNe : ∀ u x, u ∈ above ++ v :: below → x ∈ above ++ v :: below → u ≠ x →
      info.containerId u ≠ info.containerId x := fun u x memU memX differ same =>
    differ (distinct.injective u x (search.waiting u memU).1 (search.waiting x memX).1 same)
  have notAbove : info.containerId v ∉ above.map info.containerId := by
    intro mem
    obtain ⟨u, memU, same⟩ := List.mem_map.mp mem
    exact idNe u v (inAbove u memU) memV (disjoint u memU v List.mem_cons_self) same
  rw [search.ids, List.map_append, List.map_cons]
  refine Post.mono (popComponent_popped notAbove) (fun s' popped => ?_) fun _ _ => trivial
  have visited : s'.visited = s.visited := popped.visited
  have grows : Grows s s' :=
    ⟨fun id l seen => by rw [visited, seen], fun id mem => (popped.bits id).mpr (Or.inl mem)⟩
  -- the containers that stay have kept their components
  have kept : ∀ u ∈ below, s'.component (info.containerId u) = none := by
    intro u mem
    have notPopped : info.containerId u ∉ above.map info.containerId := by
      intro mem'
      obtain ⟨x, memX, same⟩ := List.mem_map.mp mem'
      exact idNe x u (inAbove x memX) (inBelow u mem)
        (disjoint x memX u (List.mem_cons_of_mem v mem)) same
    rw [(popped.component _).2 notPopped]
    change Function.update s.component _ _ _ = _
    rw [Function.update_of_ne (idNe u v (inBelow u mem) memV fun same => notBelow (same ▸ mem)),
      (search.waiting u (inBelow u mem)).2]
  refine ⟨⟨popped.size.trans search.size, popped.stack, nodupBelow, paths,
    fun u mem => ⟨(search.waiting u (inBelow u mem)).1, kept u mem⟩, fun u rest suffix => ?_,
    fun u mem notPath => ?_, fun id unseen => ?_, fun w reachedW seen none => ?_,
    fun id mem => ?_, fun u reachedU seen notPath w edge => ?_⟩, grows⟩
  · obtain ⟨a, mem, memPath, chain, la, r, lu, seenA, isRoot, seenU, le, le'⟩ :=
      search.low u rest (suffix.trans ⟨above ++ [v], by simp⟩)
    have memBelow : a ∈ below := suffix.subset mem
    refine ⟨a, mem, ?_, chain, la, r, lu, grows.visited _ _ seenA, by rw [popped.root]; exact isRoot,
      grows.visited _ _ seenU, le, le'⟩
    exact (List.mem_cons.mp memPath).resolve_left fun same => notBelow (same ▸ memBelow)
  · refine (search.finished u (inBelow u mem) fun memPath => ?_).grow grows
    rcases List.mem_cons.mp memPath with rfl | memPath
    · exact notBelow mem
    · exact notPath memPath
  · rw [visited] at unseen
    have notPopped : id ∉ above.map info.containerId := by
      intro mem
      obtain ⟨u, memU, rfl⟩ := List.mem_map.mp mem
      exact search.seen (inAbove u memU) unseen
    rw [(popped.component id).2 notPopped]
    change Function.update s.component _ _ _ = _
    rw [Function.update_of_ne fun same => search.seen memV (by rw [← same]; exact unseen),
      search.component id unseen]
  · have notPopped : info.containerId w ∉ above.map info.containerId := fun mem =>
      (popped.component _).1 mem none
    rw [(popped.component _).2 notPopped] at none
    change Function.update s.component _ _ _ = _ at none
    have differ : info.containerId w ≠ info.containerId v := by
      intro same
      rw [same, Function.update_self] at none
      cases none
    rw [Function.update_of_ne differ] at none
    rw [visited] at seen
    rcases List.mem_append.mp (search.closed w reachedW seen none) with mem | mem
    · exact absurd (List.mem_map_of_mem mem) notPopped
    · exact (List.mem_cons.mp mem).resolve_left fun same => differ (by rw [same])
  · rcases (popped.bits id).mp mem with mem | ⟨last, memLast, rfl⟩
    · obtain ⟨u, reachedU, isId, either⟩ := search.marks id mem
      exact ⟨u, reachedU, isId, either.imp_right fun below => below.grow grows⟩
    · obtain ⟨u, memU, rfl⟩ := List.mem_map.mp memLast
      refine ⟨u, (search.waiting u (inAbove u memU)).1, rfl, Or.inr ?_⟩
      refine (search.finished u (inAbove u memU) fun memPath => ?_).grow grows
      rcases List.mem_cons.mp memPath with rfl | memPath
      · exact disjoint u memU u List.mem_cons_self rfl
      · exact disjoint u memU u (List.mem_cons_of_mem v (paths u memPath)) rfl
  · by_cases same : u = v
    · subst same
      exact (followed w edge).grow grows
    · rw [visited] at seen
      refine (search.followed u reachedU seen (fun memPath => ?_) w edge).grow grows
      exact notPath ((List.mem_cons.mp memPath).resolve_left same)

/-- The end of a visit that leaves the container on the stack. -/
theorem Search.leave {above below : List ν} {v : ν}
    (search : Search info (v :: path) (above ++ v :: below) s) (paths : ∀ a ∈ path, a ∈ below)
    (from_path : ∀ a ∈ path, TransGen (Edge info) a v)
    (followed : ∀ w, Edge info v w → Followed info s v w) {rootV visitedV : Nat}
    (isRoot : s.root (info.containerId v) = some rootV)
    (isVisited : s.visited (info.containerId v) = some visitedV) (differ : rootV ≠ visitedV) :
    Search info path (above ++ v :: below) s := by
  have suffixV : (v :: below) <:+ (above ++ v :: below) := List.suffix_append above _
  -- `root[v]` stands for a container of the path that is below `v`
  obtain ⟨b, memB, memPathB, chainB, lb, r, lv, seenB, isRoot', seenV, leB, leB'⟩ :=
    search.low v below suffixV
  rw [isRoot] at isRoot'
  rw [isVisited] at seenV
  cases isRoot'
  cases seenV
  have lower : lb < visitedV := by omega
  have apart : b ≠ v := by
    rintro rfl
    rw [isVisited] at seenB
    cases seenB
    omega
  have onPath : b ∈ path := (List.mem_cons.mp memPathB).resolve_left apart
  refine ⟨search.size, search.ids, search.nodup, fun a mem =>
    search.active a (List.mem_cons_of_mem v mem), search.waiting, fun u rest suffix => ?_,
    fun u mem notPath => ?_, search.component, search.closed, search.marks,
    fun u reachedU seen notPath w edge => ?_⟩
  · obtain ⟨a, mem, memPath, chain, la, r, lu, seenA, isRootU, seenU, le, le'⟩ :=
      search.low u rest suffix
    by_cases same : a = v
    · subst same
      rw [isVisited] at seenA
      cases seenA
      exact ⟨b, below_subset search.nodup suffix mem (paths b onPath), onPath, chain.trans chainB,
        lb, r, lu, seenB, isRootU, seenU, by omega, le'⟩
    · exact ⟨a, mem, (List.mem_cons.mp memPath).resolve_left same, chain, la, r, lu, seenA, isRootU,
        seenU, le, le'⟩
  · by_cases same : u = v
    · subst same
      exact ⟨b, lb, visitedV, seenB, isVisited, lower, from_path b onPath, chainB⟩
    · exact search.finished u mem fun memPath =>
        notPath ((List.mem_cons.mp memPath).resolve_left same)
  · by_cases same : u = v
    · subst same
      exact followed w edge
    · exact search.followed u reachedU seen (fun memPath =>
        notPath ((List.mem_cons.mp memPath).resolve_left same)) w edge

end Steps

/-! ## The recursion -/

/-- What a visit that starts with the containers `path` and `stack` leaves behind. -/
def Visited (info : CycleMarkerInfo ν) (path stack : List ν) (v : ν) (s s' : CycleMarkerState) :
    Prop :=
  (∃ above, Search info path (above ++ stack) s') ∧ Grows s s' ∧
    s'.visited (info.containerId v) ≠ none

section Recursion

variable {path stack : List ν} {s : CycleMarkerState} {v : ν}

theorem Search.finish {above below : List ν} (distinct : DistinctIds info)
    (search : Search info (v :: path) (above ++ v :: below) s) (paths : ∀ a ∈ path, a ∈ below)
    (from_path : ∀ a ∈ path, TransGen (Edge info) a v)
    (followed : ∀ w, Edge info v w → Followed info s v w) :
    Post (Visited info path below v s) (fun _ => True)
      (CycleMarker.finish (info.containerId v) s) := by
  have seen := search.seen (List.mem_append_right above (List.mem_cons_self (a := v)))
  unfold CycleMarker.finish
  split
  case h_2 => exact trivial
  case h_1 rootV visitedV isRoot isVisited =>
    split
    case isTrue =>
      refine (search.pop distinct paths followed rootV).mono (fun s' popped => ?_) fun _ _ => trivial
      exact ⟨⟨[], popped.1⟩, popped.2, popped.2.ne_none seen⟩
    case isFalse differ =>
      refine ⟨⟨above ++ [v], ?_⟩, Grows.refl s, seen⟩
      rw [List.append_assoc]
      exact search.leave paths from_path followed isRoot isVisited differ

/-- What the round for the child `w` of `v` leaves behind. -/
def ChildDone (info : CycleMarkerInfo ν) (path below : List ν) (v w : ν)
    (s s' : CycleMarkerState) : Prop :=
  (∃ above, Search info (v :: path) (above ++ v :: below) s') ∧ Grows s s' ∧
    (info.isContainer w = true → Followed info s' v w)

/-- The round for a child. -/
theorem Search.child {above below : List ν} (distinct : DistinctIds info)
    {visitW : ν → CycleMarkerState → Res CycleMarkerState}
    (visits : ∀ w s stack, Reached info w → (∀ a ∈ v :: path, TransGen (Edge info) a w) →
      s.visited (info.containerId w) = none → Search info (v :: path) stack s →
      Post (Visited info (v :: path) stack w s) (fun _ => True) (visitW w s))
    (search : Search info (v :: path) (above ++ v :: below) s) (paths : ∀ a ∈ path, a ∈ below)
    (from_path : ∀ a ∈ path, TransGen (Edge info) a v) {n : UInt32}
    (count : info.nChildren v = .ok n) {i : Nat} (less : i < n.toNat) {w : ν}
    (child : info.childAt v i = .ok w) :
    Post (ChildDone info path below v w s) (fun _ => True) (visitChild info visitW v s i) := by
  have memV : v ∈ above ++ v :: below := List.mem_append_right above List.mem_cons_self
  have reachedV := (search.waiting v memV).1
  rw [visitChild, child, ok_bind]
  split
  case isTrue self =>
    obtain ⟨container, ids⟩ := self
    have edge : Edge info v w := ⟨n, i, count, less, child, container⟩
    obtain rfl := distinct.injective v w reachedV (reachedV.next edge) ids
    cases set : s.cycleMarker.set (info.containerId v).toNat with
    | error e => exact trivial
    | ok cycleMarker =>
        obtain ⟨marked, grows, mem⟩ := search.mark reachedV edge set
        exact ⟨⟨above, marked⟩, grows, fun _ => ⟨search.seen memV, fun _ => mem⟩⟩
  case isFalse notSelf =>
    unfold processChild
    split
    case isFalse notContainer =>
      exact ⟨⟨above, search⟩, Grows.refl s, fun container => absurd container notContainer⟩
    case isTrue container =>
      have edge : Edge info v w := ⟨n, i, count, less, child, container⟩
      have differ : w ≠ v := fun same => notSelf ⟨container, by rw [same]⟩
      have joined : ∀ s' above, Search info (v :: path) (above ++ v :: below) s' →
          Grows s s' → s'.visited (info.containerId w) ≠ none →
          Post (ChildDone info path below v w s) (fun _ => True)
            (joinRoot (info.containerId v) (info.containerId w) s') := by
        intro s' above search' grows seen
        refine (search'.join distinct paths edge seen).mono (fun t after => ?_) fun _ _ => trivial
        exact ⟨⟨above, after.1⟩, grows.trans after.2, fun _ =>
          ⟨after.2.ne_none seen, fun same => absurd same differ⟩⟩
      dsimp only
      split
      case isTrue fresh =>
        have behind : ∀ a ∈ v :: path, TransGen (Edge info) a w := by
          intro a mem
          rcases List.mem_cons.mp mem with rfl | mem
          · exact .single edge
          · exact (from_path a mem).tail edge
        refine Post.bind (visits w s _ (reachedV.next edge) behind fresh search) fun s' _ done => ?_
        obtain ⟨⟨above', search'⟩, grows, seen⟩ := done
        rw [← List.append_assoc] at search'
        exact joined s' _ search' grows seen
      case isFalse seen => exact joined s above search (Grows.refl s) seen

theorem Search.visit (distinct : DistinctIds info) {fuel : Nat} {count depth : Nat}
    (search : Search info path stack s) (reached : Reached info v)
    (from_path : ∀ a ∈ path, TransGen (Edge info) a v)
    (fresh : s.visited (info.containerId v) = none) :
    Post (Visited info path stack v s) (fun _ => True)
      (CycleMarker.visit info fuel v count depth s) := by
  induction fuel generalizing path stack s v count depth with
  | zero => exact trivial
  | succ fuel ih =>
      rw [CycleMarker.visit]
      split
      · exact trivial
      split
      · exact trivial
      cases children : info.nChildren v with
      | error e => exact trivial
      | ok n =>
          obtain ⟨entered, grows⟩ := search.enter distinct reached fresh count
          let inv : Nat → CycleMarkerState → Prop := fun i t =>
            (∃ above, Search info (v :: path) (above ++ v :: stack) t) ∧ Grows s t ∧
              ∀ j < i, ∀ w, info.childAt v j = .ok w → info.isContainer w = true →
                Followed info t v w
          have start : inv 0 (CycleMarker.enter (info.containerId v) count s) :=
            ⟨⟨[], entered⟩, grows, fun j bad => absurd bad j.not_lt_zero⟩
          rw [ok_bind]
          refine Post.bind (Post.foldlM_range start fun i less t held => ?_) fun t _ held => ?_
          · obtain ⟨⟨above, search'⟩, grown, followed⟩ := held
            cases child : info.childAt v i with
            | error e =>
                rw [visitChild, child]
                exact trivial
            | ok w =>
                refine (search'.child distinct (fun w s stack reachedW behind fresh search =>
                  ih search reachedW behind fresh) search.active from_path children less child).mono
                  (fun t' done => ?_) fun _ _ => trivial
                obtain ⟨search', grows', here⟩ := done
                refine ⟨search', grown.trans grows', fun j jLess x isChild container => ?_⟩
                rcases Nat.lt_succ_iff_lt_or_eq.mp jLess with before | rfl
                · exact (followed j before x isChild container).grow grows'
                · rw [child] at isChild
                  cases isChild
                  exact here container
          · obtain ⟨⟨above, search'⟩, grown, followed⟩ := held
            refine (search'.finish distinct search.active from_path fun w edge => ?_).mono
              (fun t' done => ?_) fun _ _ => trivial
            · obtain ⟨m, i, count', less, child, container⟩ := edge
              rw [children] at count'
              cases count'
              exact followed i less w child container
            · exact ⟨done.1, grown.trans done.2.1, done.2.2⟩

end Recursion

/-! ## The marks -/

section Marks

/-- The state in which the search starts. -/
def startState (info : CycleMarkerInfo ν) : CycleMarkerState where
  cycleMarker := Bitmask.calloc info.nNodes.toNat
  visited := fun _ => none
  component := fun _ => none
  root := fun _ => none
  stack := []

theorem Search.start (info : CycleMarkerInfo ν) : Search info [] [] (startState info) where
  size := rfl
  ids := rfl
  nodup := List.nodup_nil
  active := fun _ bad => absurd bad List.not_mem_nil
  waiting := fun _ bad => absurd bad List.not_mem_nil
  low := fun u below suffix => absurd suffix.length_le (by simp)
  finished := fun _ bad => absurd bad List.not_mem_nil
  component := fun _ _ => rfl
  closed := fun _ _ bad => absurd rfl bad
  marks := fun _ bad => absurd bad List.not_mem_nil
  followed := fun _ _ bad => absurd rfl bad

/-- What a search from the root leads to is visited when it is over. -/
theorem Search.all_visited (search : Search info [] stack s)
    (root : s.visited (info.containerId info.getRoot) ≠ none) {v : ν} (reached : Reached info v) :
    s.visited (info.containerId v) ≠ none := by
  obtain ⟨container, chain⟩ := reached
  have all : s.visited (info.containerId v) ≠ none ∧ Reached info v := by
    induction chain with
    | refl => exact ⟨root, container, .refl⟩
    | tail _ edge ih =>
        exact ⟨(search.followed _ ih.2 ih.1 List.not_mem_nil _ edge).1, ih.2.next edge⟩
  exact all.1

/-- The search of `pointless_cycle_marker`, with the state that it ends in. -/
def searchRoot (info : CycleMarkerInfo ν) : Res CycleMarkerState :=
  if info.isContainer info.getRoot then
    CycleMarker.visit info (maxDepth + 1) info.getRoot 0 0 (startState info)
  else pure (startState info)

theorem cycleMarker_eq (info : CycleMarkerInfo ν) :
    cycleMarker info = searchRoot info >>= fun s => pure s.cycleMarker := by
  unfold cycleMarker searchRoot
  split <;> rfl

/-- The state when the search is over. -/
theorem searchRoot_done (distinct : DistinctIds info) (returned : searchRoot info = .ok s) :
    (∃ stack, Search info [] stack s) ∧
      ∀ v, Reached info v → s.visited (info.containerId v) ≠ none := by
  unfold searchRoot at returned
  split at returned
  case isFalse notContainer =>
    cases returned
    exact ⟨⟨[], Search.start info⟩, fun v reached => absurd reached.1 notContainer⟩
  case isTrue container =>
    have reachedRoot : Reached info info.getRoot := ⟨container, .refl⟩
    obtain ⟨⟨above, search⟩, -, seenRoot⟩ := ((Search.start info).visit distinct reachedRoot
      (fun _ bad => absurd bad List.not_mem_nil) rfl).of_ok returned
    rw [List.append_nil] at search
    exact ⟨⟨above, search⟩, fun v reached => search.all_visited seenRoot reached⟩

theorem exists_search (distinct : DistinctIds info) {mask : Bitmask}
    (returned : cycleMarker info = .ok mask) :
    ∃ s stack, Search info [] stack s ∧ s.cycleMarker = mask ∧
      ∀ v, Reached info v → s.visited (info.containerId v) ≠ none := by
  rw [cycleMarker_eq] at returned
  obtain ⟨s, searched, returned⟩ := bind_eq_ok.mp returned
  cases returned
  obtain ⟨⟨stack, search⟩, seen⟩ := searchRoot_done distinct searched
  exact ⟨s, stack, search, rfl, seen⟩

theorem isSet_iff_mem (distinct : DistinctIds info) {s : CycleMarkerState} {stack : List ν}
    (search : Search info [] stack s) {v : ν} (reached : Reached info v) :
    s.cycleMarker.isSet (info.containerId v).toNat = .ok true ↔
      (info.containerId v).toNat ∈ s.cycleMarker.bits := by
  have bound := distinct.bound v reached
  have room : (info.containerId v).toNat / 8 < s.cycleMarker.nBytes := by
    rw [search.size]
    have enough := iceil_eight info.nNodes.toNat
    omega
  rw [Bitmask.isSet, if_pos room, Except.ok.injEq, List.contains_iff_mem]

theorem Search.marked (search : Search info [] stack s) {id : UInt32}
    (set : s.cycleMarker.isSet id.toNat = .ok true) :
    ∃ v, Reached info v ∧ info.containerId v = id ∧ (Edge info v v ∨ Below info s v) := by
  rw [Bitmask.isSet] at set
  split at set
  case isFalse => cases set
  case isTrue =>
    rw [Except.ok.injEq, List.contains_iff_mem] at set
    obtain ⟨v, reached, same, either⟩ := search.marks _ set
    exact ⟨v, reached, UInt32.toNat_inj.mp same, either⟩

/-- The marks are exact when every container on a cycle has an edge to itself. When they
are exact, every component with a cycle has a container with such an edge. -/
theorem marksCycles_of_selfEdges (distinct : DistinctIds info) {mask : Bitmask}
    (returned : cycleMarker info = .ok mask) :
    ((∀ v, Reached info v → OnCycle info v → Edge info v v) → MarksCycles info mask) ∧
      (MarksCycles info mask → ∀ v, Reached info v → OnCycle info v →
        ∃ w, ReflTransGen (Edge info) v w ∧ ReflTransGen (Edge info) w v ∧ Edge info w w) := by
  obtain ⟨s, stack, search, rfl, seen⟩ := exists_search distinct returned
  constructor
  · intro selfEdges id
    constructor
    · intro set
      obtain ⟨v, reached, same, either⟩ := search.marked set
      refine ⟨v, reached, same, ?_⟩
      rcases either with edge | below
      · exact .single edge
      · exact below.onCycle
    · rintro ⟨v, reached, rfl, cycle⟩
      have edge := selfEdges v reached cycle
      rw [isSet_iff_mem distinct search reached]
      exact (search.followed v reached (seen v reached) List.not_mem_nil v edge).2 rfl
  · intro exactly v reached cycle
    obtain ⟨l, level⟩ := Option.ne_none_iff_exists'.mp (seen v reached)
    -- among the containers of a component, the one with the least count has the edge
    induction l using Nat.strong_induction_on generalizing v with
    | _ l ih =>
        have set := (exactly (info.containerId v)).mpr ⟨v, reached, rfl, cycle⟩
        obtain ⟨u, reachedU, same, either⟩ := search.marked set
        obtain rfl := distinct.injective u v reachedU reached same
        rcases either with edge | ⟨a, la, lu, seenA, seenU, less, there, back⟩
        · exact ⟨u, .refl, .refl, edge⟩
        · rw [level] at seenU
          cases seenU
          obtain ⟨w, toW, fromW, edge⟩ := ih la less a (reached.along back)
            (TransGen.trans_left there back) seenA
          exact ⟨w, back.trans toW, fromW.trans there.to_reflTransGen, edge⟩

theorem distinctIds_of_bool {info : CycleMarkerInfo Bool} (nodes : info.nNodes = 2)
    (ids : info.containerId = fun v => if v then 1 else 0) : DistinctIds info := by
  constructor
  · intro v w _ _ same
    rw [ids] at same
    revert same
    cases v <;> cases w <;> simp
  · intro v _
    rw [ids, nodes]
    cases v <;> decide

/-- Two containers that are children of each other. -/
def twoCycle : CycleMarkerInfo Bool where
  nNodes := 2
  getRoot := false
  isContainer := fun _ => true
  containerId := fun v => if v then 1 else 0
  nChildren := fun _ => .ok 1
  childAt := fun v _ => .ok !v

theorem twoCycle_marks : cycleMarker twoCycle = .ok ⟨1, [1]⟩ := rfl

/-- Of a cycle of two containers only the second is marked. -/
theorem twoCycle_not_exact : ¬∀ (info : CycleMarkerInfo Bool) (mask : Bitmask),
    DistinctIds info → cycleMarker info = .ok mask → MarksCycles info mask := by
  intro claim
  have marks := claim twoCycle _ (distinctIds_of_bool rfl rfl) twoCycle_marks
  have edge : ∀ v, Edge twoCycle v (!v) := fun v => ⟨1, 0, rfl, by decide, rfl, rfl⟩
  have cycle : OnCycle twoCycle false := .tail (.single (edge false)) (edge true)
  have bit := (marks 0).mpr ⟨false, ⟨rfl, .refl⟩, rfl, cycle⟩
  exact absurd bit (by decide)

/-- A container that is its own child, under a root that is not. -/
def selfCycle : CycleMarkerInfo Bool where
  nNodes := 2
  getRoot := false
  isContainer := fun _ => true
  containerId := fun v => if v then 1 else 0
  nChildren := fun _ => .ok 1
  childAt := fun _ _ => .ok true

theorem marksCycles_selfCycle : MarksCycles selfCycle ⟨1, [1]⟩ := by
  refine (marksCycles_of_selfEdges (distinctIds_of_bool rfl rfl) rfl).1 fun v _ cycle => ?_
  have back : TransGen (Edge selfCycle) v v := cycle
  obtain ⟨u, -, edge⟩ := TransGen.tail'_iff.mp back
  obtain ⟨n, i, -, -, child, -⟩ := edge
  cases child
  exact ⟨1, 0, rfl, by decide, rfl, rfl⟩

end Marks

end CycleMarker

end Pointless
