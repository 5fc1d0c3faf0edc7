import Pointless.CycleMarker
import Pointless.Sound

/-!
# The cycle marker stays inside

The stack of the cycle marker only grows while it visits a container and is never
popped below the container itself, whatever the graph looks like and also where
two containers share an id. The ids it marks are ids of containers, so that the
bitmask has room for them as long as it has room for every container.
-/

namespace Pointless

open ExceptRules

namespace CycleMarker

/-- The bitmask has kept its size, and has room for every id on the stack. -/
structure Fits (nBytes : Nat) (s : CycleMarkerState) : Prop where
  size : s.cycleMarker.nBytes = nBytes
  stack : ∀ id ∈ s.stack, id.toNat / 8 < nBytes

/-- What a stretch of the algorithm leaves behind: a state that fits, whose stack
ends with `stack`. -/
def Kept (nBytes : Nat) (stack : List UInt32) (s : CycleMarkerState) : Prop :=
  Fits nBytes s ∧ stack <:+ s.stack

section Steps

variable {nBytes : Nat} {stack : List UInt32} {s : CycleMarkerState} {id : UInt32}

theorem set_kept (kept : Kept nBytes stack s) (room : id.toNat / 8 < nBytes) :
    ∃ cycleMarker, s.cycleMarker.set id.toNat = .ok cycleMarker ∧
      Kept nBytes stack { s with cycleMarker } := by
  have inside : id.toNat / 8 < s.cycleMarker.nBytes := by rw [kept.1.size]; exact room
  refine ⟨{ s.cycleMarker with bits := id.toNat :: s.cycleMarker.bits }, ?_, ?_, kept.2⟩
  · rw [Bitmask.set, if_pos inside]
  · exact ⟨kept.1.size, kept.1.stack⟩

/-- Popping a component stops at its own container, which is on the stack. -/
theorem popComponent_inside {above : List UInt32} {rootV : Nat}
    (suffix : (id :: stack) <:+ above) (fits : Fits nBytes s)
    (room : ∀ last ∈ above, last.toNat / 8 < nBytes) :
    Post (Kept nBytes stack) Stop.Inside (popComponent id rootV above s) := by
  induction above generalizing s with
  | nil => exact absurd suffix.length_le (by simp)
  | cons last rest ih =>
      have restRoom : ∀ other ∈ rest, other.toNat / 8 < nBytes :=
        fun other mem => room other (List.mem_cons_of_mem last mem)
      rw [popComponent]
      by_cases found : last = id
      · rw [if_pos found]
        refine ⟨⟨fits.size, restRoom⟩, ?_⟩
        rcases List.suffix_cons_iff.mp suffix with here | deeper
        · cases here
          exact List.suffix_refl _
        · exact (List.suffix_cons id stack).trans deeper
      · rw [if_neg found]
        have lastRoom : last.toNat / 8 < s.cycleMarker.nBytes := by
          rw [fits.size]
          exact room last List.mem_cons_self
        rw [Bitmask.set, if_pos lastRoom, ok_bind]
        refine ih ?_ ⟨fits.size, fits.stack⟩ restRoom
        rcases List.suffix_cons_iff.mp suffix with here | deeper
        · cases here
          exact absurd rfl found
        · exact deeper

theorem joinRoot_inside {childId : UInt32} (kept : Kept nBytes stack s) :
    Post (Kept nBytes stack) Stop.Inside (joinRoot id childId s) := by
  unfold joinRoot
  split
  · exact kept
  · split
    · split
      · exact ⟨⟨kept.1.size, kept.1.stack⟩, kept.2⟩
      · exact kept
    · exact trivial

theorem finish_inside (kept : Kept nBytes (id :: stack) s) :
    Post (Kept nBytes stack) Stop.Inside (finish id s) := by
  unfold finish
  split
  · split
    · exact popComponent_inside kept.2 ⟨kept.1.size, kept.1.stack⟩ kept.1.stack
    · exact ⟨kept.1, (List.suffix_cons id stack).trans kept.2⟩
  · exact trivial

theorem enter_kept (kept : Kept nBytes stack s) (room : id.toNat / 8 < nBytes) (count : Nat) :
    Kept nBytes (id :: s.stack) (enter id count s) := by
  refine ⟨⟨kept.1.size, fun other mem => ?_⟩, List.suffix_refl _⟩
  rcases List.mem_cons.mp mem with rfl | mem
  · exact room
  · exact kept.1.stack other mem

end Steps

/-! ## The recursion -/

section Recursion

variable {ν : Type} {info : CycleMarkerInfo ν}

/-- The callbacks can be called on the nodes in `P` and lead to nodes in `P`, and
`nBytes` bytes have room for the containers among them. -/
structure Explorable (info : CycleMarkerInfo ν) (P : ν → Prop) (nBytes : Nat) : Prop where
  children : ∀ v, P v → info.isContainer v = true →
    Post (fun n => ∀ i < n.toNat, Post P Stop.Inside (info.childAt v i)) Stop.Inside
      (info.nChildren v)
  room : ∀ v, P v → info.isContainer v = true → (info.containerId v).toNat / 8 < nBytes

variable {P : ν → Prop} {nBytes : Nat}

theorem visitChild_inside (explorable : Explorable info P nBytes)
    {visitW : ν → CycleMarkerState → Res CycleMarkerState}
    (visits : ∀ w s stack, P w → info.isContainer w = true → Kept nBytes stack s →
      Post (Kept nBytes stack) Stop.Inside (visitW w s))
    {v : ν} (vNode : P v) (container : info.isContainer v = true) {i : Nat}
    (child : Post P Stop.Inside (info.childAt v i)) {stack : List UInt32} {s : CycleMarkerState}
    (kept : Kept nBytes stack s) :
    Post (Kept nBytes stack) Stop.Inside (visitChild info visitW v s i) := by
  refine Post.bind child fun w _ wNode => ?_
  split
  · obtain ⟨cycleMarker, set, kept'⟩ := set_kept kept (explorable.room v vNode container)
    rw [set]
    exact kept'
  · unfold processChild
    split
    case isTrue wContainer =>
      dsimp only
      split
      · exact Post.bind (visits w s stack wNode wContainer kept) fun _ _ kept' =>
          joinRoot_inside kept'
      · exact joinRoot_inside kept
    case isFalse => exact kept

theorem visit_inside (explorable : Explorable info P nBytes) {fuel : Nat} {v : ν} (vNode : P v)
    (container : info.isContainer v = true) {count depth : Nat} {stack : List UInt32}
    {s : CycleMarkerState} (kept : Kept nBytes stack s) :
    Post (Kept nBytes stack) Stop.Inside (visit info fuel v count depth s) := by
  induction fuel generalizing v count depth stack s with
  | zero => exact trivial
  | succ fuel ih =>
      rw [visit]
      split
      · exact post_fail
      · split
        · exact post_fail
        · refine Post.bind (explorable.children v vNode container) fun n _ children => ?_
          have entered := enter_kept kept (explorable.room v vNode container) count
          have loop : Post (Kept nBytes (info.containerId v :: s.stack)) Stop.Inside
              ((List.range n.toNat).foldlM
                (visitChild info (fun w s => visit info fuel w (count + 1) (depth + 2) s) v)
                (enter (info.containerId v) count s)) := by
            refine Post.foldlM entered fun s' kept' i mem => ?_
            exact visitChild_inside explorable
              (fun w s stack wNode wContainer kept => ih wNode wContainer kept) vNode container
              (children i (List.mem_range.mp mem)) kept'
          refine Post.bind loop fun s' _ kept' => ?_
          refine (finish_inside kept').mono (fun t done => ?_) fun _ inside => inside
          exact ⟨done.1, kept.2.trans done.2⟩

end Recursion

end CycleMarker

/-- The cycle marker stays inside its memory, and its bitmask has a bit for every
node. -/
theorem cycleMarker_inside {ν : Type} {info : CycleMarkerInfo ν} {P : ν → Prop}
    (explorable : CycleMarker.Explorable info P (iceil info.nNodes.toNat 8))
    (root : P info.getRoot) :
    Post (fun mask => mask.nBytes = iceil info.nNodes.toNat 8) Stop.Inside (cycleMarker info) := by
  unfold cycleMarker
  have start : CycleMarker.Kept (iceil info.nNodes.toNat 8) []
      { cycleMarker := Bitmask.calloc info.nNodes.toNat
        visited := fun _ => none
        component := fun _ => none
        root := fun _ => none
        stack := [] } :=
    ⟨⟨rfl, fun id mem => absurd mem List.not_mem_nil⟩, List.suffix_refl _⟩
  dsimp only
  split
  case isTrue container =>
    exact Post.bind (CycleMarker.visit_inside explorable root container start) fun _ _ kept =>
      kept.1.size
  case isFalse => exact rfl

/-! ## Opened files -/

section Files

variable {p : OpenFile}

/-- The cycle marker has a bit for every reachable container. -/
def ContainersFit (p : OpenFile) : Prop :=
  ∀ v, Reachable p v → readerIsContainer v = true →
    (containerId p v).toNat / 8 < iceil (nContainers p).toNat 8

/-- The containers fit unless their number overflows. -/
theorem containersFit_of_count (sound : p.Sound)
    (small : 1 + p.header.nVector.toNat + p.header.nSet.toNat + p.header.nMap.toNat < 2 ^ 32) :
    ContainersFit p := by
  intro v reach container
  have checked := sound.checked v reach
  have count : (nContainers p).toNat
      = 1 + p.header.nVector.toNat + p.header.nSet.toNat + p.header.nMap.toNat := by
    rw [nContainers]
    simp only [UInt32.toNat_add, UInt32.toNat_one]
    omega
  have bound : (containerId p v).toNat < (nContainers p).toNat := by
    have ref := checked.ref
    unfold validateHeapRef at ref
    unfold readerIsContainer at container
    unfold containerId
    cases type : v.type <;> simp only [type] at container ref ⊢ <;> try cases container
    all_goals
      have inside := checkRef_ok ref
      rw [UInt32.le_iff_toNat_le] at inside
      simp only [count, UInt32.toNat_add, UInt32.toNat_one]
      omega
  have enough := iceil_eight (nContainers p).toNat
  omega

/-- The callbacks of the cycle marker read reachable values. -/
theorem reader_explorable (sound : p.Sound) (fit : ContainersFit p) :
    CycleMarker.Explorable
      { nNodes := nContainers p
        getRoot := p.root
        isContainer := readerIsContainer
        containerId := containerId p
        nChildren := readerNChildren p
        childAt := readerChildAt p } (Reachable p) (iceil (nContainers p).toNat 8) := by
  refine ⟨fun v reach container => ?_, fun v reach container => fit v reach container⟩
  have items : (v.type = .vectorValue ∨ v.type = .vectorValueHashable) →
      Post (fun n => ∀ i < n.toNat, Post (Reachable p) Stop.Inside (readerVectorValue p v i))
        Stop.Inside (readerVectorNItems p v) := by
    intro type
    obtain ⟨n, count, all⟩ := sound.items reach type
    rw [count]
    intro i less
    obtain ⟨item, read, itemReach⟩ := all i less
    rw [read]
    exact itemReach
  change Post (fun n => ∀ i < n.toNat, Post (Reachable p) Stop.Inside (readerChildAt p v i))
    Stop.Inside (readerNChildren p v)
  unfold readerIsContainer at container
  unfold readerNChildren readerChildAt
  cases type : v.type <;> simp only [type] at container <;> try cases container
  case vectorValue => exact items (Or.inl type)
  case vectorValueHashable => exact items (Or.inr type)
  case setValue =>
    obtain ⟨hashes, keys, n, hashesRead, keysRead, -, -, -, hashesReach, keysReach⟩ :=
      sound.setVectors reach type
    intro i _
    simp only [hashesRead, keysRead]
    split
    · exact hashesReach
    · exact keysReach
  case mapValueValue =>
    obtain ⟨hashes, keys, values, n, hashesRead, keysRead, valuesRead, -, -, -, -, hashesReach,
      keysReach, valuesReach⟩ := sound.mapVectors reach type
    intro i _
    simp only [hashesRead, keysRead, valuesRead]
    split
    · exact hashesReach
    · split
      · exact keysReach
      · exact valuesReach

theorem cycleMarkerRead_inside (sound : p.Sound) (fit : ContainersFit p) :
    Post (fun mask => mask.nBytes = iceil (nContainers p).toNat 8) Stop.Inside
      (cycleMarkerRead p) :=
  cycleMarker_inside (reader_explorable sound fit) (Reachable.root p)

end Files

end Pointless
