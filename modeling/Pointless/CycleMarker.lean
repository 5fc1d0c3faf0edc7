import Pointless.Walk

/-!
# Cycle marking

`pointless_cycle_marker.c`: Tarjan's algorithm over the containers of a graph that
is given by callbacks, and the callbacks for an opened file. The count that a
container gets is its level in the recursion.
-/

namespace Pointless

/-- `cycle_marker_info_t`, for graphs whose nodes are `ν`. -/
structure CycleMarkerInfo (ν : Type) where
  nNodes : UInt32
  getRoot : ν
  isContainer : ν → Bool
  containerId : ν → UInt32
  nChildren : ν → Res UInt32
  childAt : ν → Nat → Res ν

/-- `pointless_cycle_marker_state_t`. The three maps are the Judy arrays, and the
top of the stack is its first element. -/
structure CycleMarkerState where
  cycleMarker : Bitmask
  visited : UInt32 → Option Nat
  component : UInt32 → Option Nat
  root : UInt32 → Option Nat
  stack : List UInt32

namespace CycleMarker

/-- Pop the component of `id` off the stack. Every container above `id` lies on a
cycle with it. -/
def popComponent (id : UInt32) (rootV : Nat) : List UInt32 → CycleMarkerState →
    Res CycleMarkerState
  | [], _ => fault .outOfBounds
  | last :: rest, s =>
      if last = id then pure { s with stack := rest }
      else do
        let cycleMarker ← s.cycleMarker.set last.toNat
        popComponent id rootV rest
          { s with cycleMarker, component := Function.update s.component last (some rootV) }

/-- `root[v] = min(root[v], root[w])`, unless `w` already has a component. -/
def joinRoot (id childId : UInt32) (s : CycleMarkerState) : Res CycleMarkerState :=
  match s.component childId with
  | some _ => pure s
  | none =>
      match s.root id, s.root childId with
      | some rootV, some rootW =>
          if rootW < rootV then pure { s with root := Function.update s.root id (some rootW) }
          else pure s
      | _, _ => fail "internal error, root[v]/root[w] missing"

/-- The end of `pointless_cycle_marker_visit`. -/
def finish (id : UInt32) (s : CycleMarkerState) : Res CycleMarkerState :=
  match s.root id, s.visited id with
  | some rootV, some visitedV =>
      if rootV = visitedV then
        popComponent id rootV s.stack
          { s with component := Function.update s.component id (some rootV) }
      else pure s
  | _, _ => fail "internal error: root[v]/visited[v] missing"

/-- The start of `pointless_cycle_marker_visit`. -/
def enter (id : UInt32) (count : Nat) (s : CycleMarkerState) : CycleMarkerState :=
  { s with
    root := Function.update s.root id (some count)
    visited := Function.update s.visited id (some count)
    stack := id :: s.stack }

variable {ν : Type} (info : CycleMarkerInfo ν)

/-- `process_child`, with the visit of the child given. -/
def processChild (visit : ν → CycleMarkerState → Res CycleMarkerState) (id : UInt32) (w : ν)
    (s : CycleMarkerState) : Res CycleMarkerState :=
  if info.isContainer w then do
    let s ← if s.visited (info.containerId w) = none then visit w s else pure s
    joinRoot id (info.containerId w) s
  else pure s

/-- The round of the loop over the children for child `i`. -/
def visitChild (visit : ν → CycleMarkerState → Res CycleMarkerState) (v : ν)
    (s : CycleMarkerState) (i : Nat) : Res CycleMarkerState := do
  let child ← info.childAt v i
  if info.isContainer child ∧ info.containerId v = info.containerId child then
    let cycleMarker ← s.cycleMarker.set (info.containerId v).toNat
    pure { s with cycleMarker }
  else processChild info visit (info.containerId v) child s

/-- `pointless_cycle_marker_visit`. Its depth grows by two from a container to its
child. -/
def visit : Nat → ν → Nat → Nat → CycleMarkerState → Res CycleMarkerState
  | 0, _, _, _, _ => fault .diverges
  | fuel + 1, v, count, depth, s =>
      if maxDepth ≤ depth then fail "maximum recursion depth reached"
      else if info.nNodes.toNat ≤ count then
        fail "internal error: pre-order count exceeds number of containers"
      else do
        let nChildren ← info.nChildren v
        let s ← (List.range nChildren.toNat).foldlM
          (visitChild info (fun w s => visit fuel w (count + 1) (depth + 2) s) v)
          (enter (info.containerId v) count s)
        finish (info.containerId v) s

end CycleMarker

/-- `pointless_cycle_marker`. The depth check bounds the recursion, so that the
fuel here is never used up. -/
def cycleMarker {ν : Type} (info : CycleMarkerInfo ν) : Res Bitmask := do
  let start : CycleMarkerState :=
    { cycleMarker := Bitmask.calloc info.nNodes.toNat
      visited := fun _ => none
      component := fun _ => none
      root := fun _ => none
      stack := [] }
  let s ←
    if info.isContainer info.getRoot then
      CycleMarker.visit info (maxDepth + 1) info.getRoot 0 0 start
    else pure start
  pure s.cycleMarker

/-! ## Opened files -/

/-- `_reader_pointless_is_container`. -/
def readerIsContainer (v : Value) : Bool :=
  match v.type with
  | .vectorValue | .vectorValueHashable | .setValue | .mapValueValue => true
  | _ => false

/-- `_reader_pointless_n_children`. -/
def readerNChildren (p : OpenFile) (v : Value) : Res UInt32 :=
  match v.type with
  | .vectorValue | .vectorValueHashable => readerVectorNItems p v
  | .setValue => pure 2
  | .mapValueValue => pure 3
  | _ => pure 0

/-- `_reader_pointless_child_at`. -/
def readerChildAt (p : OpenFile) (v : Value) (i : Nat) : Res Value :=
  match v.type with
  | .vectorValue | .vectorValueHashable => readerVectorValue p v i
  | .setValue => if i = 0 then setHashVector p v else setKeyVector p v
  | .mapValueValue =>
      if i = 0 then mapHashVector p v
      else if i = 1 then mapKeyVector p v
      else mapValueVector p v
  | _ => fault .nullPointer

/-- `pointless_cycle_marker_read`. -/
def cycleMarkerRead (p : OpenFile) : Res Bitmask :=
  cycleMarker
    { nNodes := nContainers p
      getRoot := p.root
      isContainer := readerIsContainer
      containerId := containerId p
      nChildren := readerNChildren p
      childAt := readerChildAt p }

end Pointless
