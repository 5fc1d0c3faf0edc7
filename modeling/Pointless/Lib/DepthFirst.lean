import Pointless.Lib.ExceptRules
import Mathlib.Logic.Relation
import Mathlib.Data.Set.Basic

/-!
# Depth-first walks with a visitor

A walk calls `visit` on a node and then, when the visitor says so, walks through
the node's children from left to right. The visitor carries a state, may stop the
walk with an error, and usually keeps in its state which nodes it has expanded,
by the key of the node.

* `walk_post` is the safety rule: what the visitor keeps, the walk keeps.
* `walk_reaches` is the closure rule: after a walk that was not stopped, every
  node reachable from its root has passed the visitor.
* `walk_checking` turns a walk that only adds a check into the sequence of these
  checks, in the order in which the walk expands nodes.
-/

namespace DepthFirst

open ExceptRules

universe u

/-- What a visitor asks for next. -/
inductive Action where
  | visitChildren
  | moveUp
  deriving DecidableEq, Repr

variable {ε V σ K : Type u}

/-- The walk from a node at some depth. A child is read when its turn comes. -/
def walk (outOfFuel : ε) (children : V → Except ε (List (Except ε V)))
    (visit : V → Nat → σ → Except ε (Action × σ)) : Nat → V → Nat → σ → Except ε σ
  | 0, _, _, _ => .error outOfFuel
  | fuel + 1, v, depth, s => do
      let (action, s) ← visit v depth s
      match action with
      | .moveUp => pure s
      | .visitChildren => do
          let nodes ← children v
          nodes.foldlM (fun s node => do
            let w ← node
            walk outOfFuel children visit fuel w (depth + 1) s) s

variable {outOfFuel : ε} {children : V → Except ε (List (Except ε V))}
  {visit : V → Nat → σ → Except ε (Action × σ)}

theorem walk_moveUp {fuel depth : Nat} {v : V} {s s' : σ}
    (visited : visit v depth s = .ok (.moveUp, s')) :
    walk outOfFuel children visit (fuel + 1) v depth s = .ok s' := by
  rw [walk, visited]
  rfl

theorem walk_visitChildren {fuel depth : Nat} {v : V} {s s' : σ}
    (visited : visit v depth s = .ok (.visitChildren, s')) :
    walk outOfFuel children visit (fuel + 1) v depth s = (do
      let nodes ← children v
      nodes.foldlM (fun s node => do
        let w ← node
        walk outOfFuel children visit fuel w (depth + 1) s) s') := by
  rw [walk, visited]
  rfl

theorem walk_error {fuel depth : Nat} {v : V} {s : σ} {e : ε}
    (stopped : visit v depth s = .error e) :
    walk outOfFuel children visit (fuel + 1) v depth s = .error e := by
  rw [walk, stopped]
  rfl

/-- A walk that was not stopped either moved up at once, or expanded its node. -/
theorem walk_eq_ok {fuel depth : Nat} {v : V} {s t : σ}
    (walked : walk outOfFuel children visit (fuel + 1) v depth s = .ok t) :
    visit v depth s = .ok (.moveUp, t) ∨
    ∃ s' nodes, visit v depth s = .ok (.visitChildren, s') ∧ children v = .ok nodes ∧
      nodes.foldlM (fun s node => do
        let w ← node
        walk outOfFuel children visit fuel w (depth + 1) s) s' = .ok t := by
  cases visited : visit v depth s with
  | error e =>
      rw [walk_error visited] at walked
      cases walked
  | ok result =>
      obtain ⟨action, s'⟩ := result
      cases action with
      | moveUp =>
          rw [walk_moveUp visited] at walked
          cases walked
          exact Or.inl rfl
      | visitChildren =>
          rw [walk_visitChildren visited] at walked
          obtain ⟨nodes, read, rest⟩ := bind_eq_ok.mp walked
          exact Or.inr ⟨s', nodes, rfl, read, rest⟩

/-! ## Safety -/

/-- The safety rule. `P` holds of every node the walk comes to, the visitor keeps
`inv`, and it stops by itself at the depth `limit`. -/
theorem walk_post (P : V → Prop) {inv : σ → Prop} {bad : ε → Prop} (limit : Nat)
    (visits : ∀ v, P v → ∀ depth s, inv s →
      Post (fun result => inv result.2) bad (visit v depth s))
    (expands : ∀ v, P v → ∀ depth s, inv s → ∀ s', visit v depth s = .ok (.visitChildren, s') →
      Post (fun nodes => ∀ node ∈ nodes, Post P bad node) bad (children v))
    (deep : ∀ v depth s, limit ≤ depth → ∃ e, visit v depth s = .error e)
    {fuel depth : Nat} (enough : limit < fuel + depth) (bound : depth ≤ limit) {v : V}
    (start : P v) {s : σ} (held : inv s) :
    Post inv bad (walk outOfFuel children visit fuel v depth s) := by
  induction fuel generalizing v depth s with
  | zero => omega
  | succ fuel ih =>
      have here := visits v start depth s held
      cases visited : visit v depth s with
      | error e =>
          rw [walk_error visited]
          rw [visited] at here
          exact here
      | ok result =>
          obtain ⟨action, s'⟩ := result
          rw [visited] at here
          cases action with
          | moveUp =>
              rw [walk_moveUp visited]
              exact here
          | visitChildren =>
              rw [walk_visitChildren visited]
              refine Post.bind (expands v start depth s held s' visited) fun nodes _ good => ?_
              refine Post.foldlM here fun t heldT node mem => ?_
              refine Post.bind (good node mem) fun w _ next => ?_
              have shallow : depth < limit := by
                by_contra notShallow
                obtain ⟨e, stopped⟩ := deep v depth s (Nat.not_lt.mp notShallow)
                rw [stopped] at visited
                cases visited
              exact ih (by omega) shallow next heldT

/-! ## Closure -/

/-- The children relation of the nodes that can be read. -/
def Child (children : V → Except ε (List (Except ε V))) (v w : V) : Prop :=
  ∃ nodes, children v = .ok nodes ∧ .ok w ∈ nodes

/-- A visitor that keeps the keys of the expanded nodes: it moves up at a node
whose key it has, and it adds the key of every node it expands. -/
structure Marks (visit : V → Nat → σ → Except ε (Action × σ)) (key : V → Option K)
    (visited : σ → K → Prop) : Prop where
  moveUp : ∀ {v depth s s'}, visit v depth s = .ok (.moveUp, s') →
    s' = s ∧ ∃ k, key v = some k ∧ visited s k
  expand : ∀ {v depth s s'}, visit v depth s = .ok (.visitChildren, s') →
    ∀ k, visited s' k ↔ visited s k ∨ key v = some k

section Closure

variable {key : V → Option K} {visited : σ → K → Prop} {accepted passed : V → Prop}

/-- An expanded node: the visitor accepted it, and all its children were read and
are among the seen nodes. -/
def Expanded (children : V → Except ε (List (Except ε V))) (accepted : V → Prop)
    (seen : Set V) (v : V) : Prop :=
  accepted v ∧ ∃ nodes, children v = .ok nodes ∧ ∀ node ∈ nodes, ∃ w ∈ seen, node = .ok w

theorem Expanded.mono {seen seen' : Set V} (subset : seen ⊆ seen') {v : V}
    (expanded : Expanded children accepted seen v) : Expanded children accepted seen' v := by
  obtain ⟨ok, nodes, read, all⟩ := expanded
  refine ⟨ok, nodes, read, fun node mem => ?_⟩
  obtain ⟨w, mem', eq⟩ := all node mem
  exact ⟨w, subset mem', eq⟩

/-- What a stretch of a walk from state `s` to state `s'` has done to the nodes in
`seen`. -/
structure Explored (children : V → Except ε (List (Except ε V))) (key : V → Option K)
    (visited : σ → K → Prop) (accepted passed : V → Prop) (s s' : σ) (seen : Set V) : Prop where
  grows : ∀ k, visited s k → visited s' k
  passed : ∀ v ∈ seen, passed v
  marked : ∀ v ∈ seen, ∀ k, key v = some k → visited s' k
  unkeyed : ∀ v ∈ seen, key v = none → Expanded children accepted seen v
  fresh : ∀ k, visited s' k → visited s k ∨
    ∃ v ∈ seen, key v = some k ∧ Expanded children accepted seen v

theorem Explored.refl (s : σ) : Explored children key visited accepted passed s s ∅ :=
  ⟨fun _ held => held, fun _ mem => mem.elim, fun _ mem => mem.elim, fun _ mem => mem.elim,
    fun _ held => Or.inl held⟩

theorem Explored.trans {s s' s'' : σ} {seen seen' : Set V}
    (first : Explored children key visited accepted passed s s' seen)
    (second : Explored children key visited accepted passed s' s'' seen') :
    Explored children key visited accepted passed s s'' (seen ∪ seen') := by
  have left : seen ⊆ seen ∪ seen' := Set.subset_union_left
  have right : seen' ⊆ seen ∪ seen' := Set.subset_union_right
  refine ⟨fun k held => second.grows k (first.grows k held), ?_, ?_, ?_, ?_⟩
  · rintro v (mem | mem)
    · exact first.passed v mem
    · exact second.passed v mem
  · rintro v (mem | mem) k isKey
    · exact second.grows k (first.marked v mem k isKey)
    · exact second.marked v mem k isKey
  · rintro v (mem | mem) none
    · exact (first.unkeyed v mem none).mono left
    · exact (second.unkeyed v mem none).mono right
  · intro k held
    rcases second.fresh k held with before | ⟨v, mem, isKey, expanded⟩
    · rcases first.fresh k before with start | ⟨v, mem, isKey, expanded⟩
      · exact Or.inl start
      · exact Or.inr ⟨v, left mem, isKey, expanded.mono left⟩
    · exact Or.inr ⟨v, right mem, isKey, expanded.mono right⟩

/-- A node that the visitor moved up from. -/
theorem Explored.moveUp {v : V} {s : σ} {k : K} (isKey : key v = some k) (held : visited s k)
    (pass : passed v) : Explored children key visited accepted passed s s {v} := by
  refine ⟨fun _ held => held, ?_, ?_, ?_, fun _ held => Or.inl held⟩
  · rintro w rfl
    exact pass
  · rintro w rfl k' isKey'
    rw [isKey] at isKey'
    cases isKey'
    exact held
  · rintro w rfl none
    rw [isKey] at none
    cases none

/-- A node that was expanded, together with what the walk saw below it. -/
theorem Explored.expand {v : V} {s s' t : σ} {seen : Set V} (pass : passed v)
    (ok : accepted v) (marks : ∀ k, visited s' k ↔ visited s k ∨ key v = some k)
    {nodes : List (Except ε V)} (read : children v = .ok nodes)
    (below : Explored children key visited accepted passed s' t seen)
    (all : ∀ node ∈ nodes, ∃ w ∈ seen, node = .ok w) :
    Explored children key visited accepted passed s t ({v} ∪ seen) := by
  have right : seen ⊆ {v} ∪ seen := Set.subset_union_right
  have here : Expanded children accepted ({v} ∪ seen) v := by
    refine ⟨ok, nodes, read, fun node mem => ?_⟩
    obtain ⟨w, mem', eq⟩ := all node mem
    exact ⟨w, right mem', eq⟩
  refine ⟨fun k held => below.grows k ((marks k).mpr (Or.inl held)), ?_, ?_, ?_, ?_⟩
  · rintro w (rfl | mem)
    · exact pass
    · exact below.passed w mem
  · rintro w (rfl | mem) k isKey
    · exact below.grows k ((marks k).mpr (Or.inr isKey))
    · exact below.marked w mem k isKey
  · rintro w (rfl | mem) none
    · exact here
    · exact (below.unkeyed w mem none).mono right
  · intro k held
    rcases below.fresh k held with before | ⟨w, mem, isKey, expanded⟩
    · rcases (marks k).mp before with start | isKey
      · exact Or.inl start
      · exact Or.inr ⟨v, Or.inl rfl, isKey, here⟩
    · exact Or.inr ⟨w, right mem, isKey, expanded.mono right⟩

/-- The walks through a list of children, given what each of them does. -/
theorem Explored.foldlM {step : σ → V → Except ε σ}
    (each : ∀ s w t, step s w = .ok t →
      ∃ seen, w ∈ seen ∧ Explored children key visited accepted passed s t seen)
    {nodes : List (Except ε V)} {s t : σ}
    (walked : nodes.foldlM (fun s node => node >>= step s) s = .ok t) :
    ∃ seen, (∀ node ∈ nodes, ∃ w ∈ seen, node = .ok w) ∧
      Explored children key visited accepted passed s t seen := by
  induction nodes generalizing s with
  | nil =>
      cases walked
      exact ⟨∅, fun _ mem => absurd mem List.not_mem_nil, Explored.refl _⟩
  | cons node rest ih =>
      rw [List.foldlM_cons] at walked
      obtain ⟨s', first, others⟩ := bind_eq_ok.mp walked
      obtain ⟨w, read, stepped⟩ := bind_eq_ok.mp first
      obtain ⟨seen, mem, explored⟩ := each s w s' stepped
      obtain ⟨seen', all, explored'⟩ := ih others
      refine ⟨seen ∪ seen', fun node' mem' => ?_, explored.trans explored'⟩
      rcases List.mem_cons.mp mem' with rfl | mem'
      · exact ⟨w, Or.inl mem, read⟩
      · obtain ⟨x, xMem, eq⟩ := all node' mem'
        exact ⟨x, Or.inr xMem, eq⟩

/-- Every walk that was not stopped explores the nodes it saw. -/
theorem walk_explored (marks : Marks visit key visited)
    (accepts : ∀ v depth s s', visit v depth s = .ok (.visitChildren, s') → accepted v)
    (passes : ∀ v depth s result, visit v depth s = .ok result → passed v)
    {fuel depth : Nat} {v : V} {s t : σ}
    (walked : walk outOfFuel children visit fuel v depth s = .ok t) :
    ∃ seen, v ∈ seen ∧ Explored children key visited accepted passed s t seen := by
  induction fuel generalizing v depth s t with
  | zero => cases walked
  | succ fuel ih =>
      rcases walk_eq_ok walked with up | ⟨s', nodes, expanded, read, below⟩
      · obtain ⟨rfl, k, isKey, held⟩ := marks.moveUp up
        exact ⟨{v}, rfl, Explored.moveUp isKey held (passes v depth _ _ up)⟩
      · have each : ∀ s w t, walk outOfFuel children visit fuel w (depth + 1) s = .ok t →
            ∃ seen, w ∈ seen ∧ Explored children key visited accepted passed s t seen :=
          fun s w t stepped => ih stepped
        obtain ⟨seen, all, explored⟩ := Explored.foldlM each below
        exact ⟨{v} ∪ seen, Or.inl rfl, Explored.expand (passes v depth s _ expanded)
          (accepts v depth s s' expanded) (marks.expand expanded) read explored all⟩

variable (accepted passed) in
/-- The closure rule. A walk that starts with no key and was not stopped has
passed every node reachable from its root, and has accepted each of them or a
node of the same key. -/
theorem walk_reaches (marks : Marks visit key visited)
    (accepts : ∀ v depth s s', visit v depth s = .ok (.visitChildren, s') → accepted v)
    (passes : ∀ v depth s result, visit v depth s = .ok result → passed v)
    (sameKey : ∀ v w k, key v = some k → key w = some k → children v = children w)
    {fuel depth : Nat} {root : V} {s t : σ} (clean : ∀ k, ¬visited s k)
    (walked : walk outOfFuel children visit fuel root depth s = .ok t)
    {v : V} (reach : Relation.ReflTransGen (Child children) root v) :
    passed v ∧ (∃ w, accepted w ∧ (w = v ∨ ∃ k, key w = some k ∧ key v = some k)) ∧
      ∃ nodes, children v = .ok nodes ∧ ∀ node ∈ nodes, ∃ w, node = .ok w := by
  obtain ⟨seen, rootSeen, explored⟩ := walk_explored marks accepts passes walked
  have expandedLike : ∀ w ∈ seen, ∃ x, Expanded children accepted seen x ∧
      children x = children w ∧ (x = w ∨ ∃ k, key x = some k ∧ key w = some k) := by
    intro w mem
    cases isKey : key w with
    | none => exact ⟨w, explored.unkeyed w mem isKey, rfl, Or.inl rfl⟩
    | some k =>
        rcases explored.fresh k (explored.marked w mem k isKey) with start | ⟨x, -, xKey, expanded⟩
        · exact absurd start (clean k)
        · exact ⟨x, expanded, sameKey x w k xKey isKey, Or.inr ⟨k, xKey, rfl⟩⟩
  have closed : v ∈ seen := by
    induction reach with
    | refl => exact rootSeen
    | tail _ step ih =>
        obtain ⟨nodes, read, mem⟩ := step
        obtain ⟨x, ⟨-, nodes', read', all⟩, same, -⟩ := expandedLike _ ih
        rw [same, read] at read'
        cases read'
        obtain ⟨w, wSeen, eq⟩ := all _ mem
        cases eq
        exact wSeen
  obtain ⟨x, ⟨ok, nodes, read, all⟩, same, like⟩ := expandedLike v closed
  refine ⟨explored.passed v closed, ⟨x, ok, like⟩, nodes, same ▸ read, fun node mem => ?_⟩
  obtain ⟨w, -, eq⟩ := all node mem
  exact ⟨w, eq⟩

end Closure

/-! ## Checks along a walk -/

/-- A visitor that also checks the nodes it expands. -/
def checking (visit : V → Nat → σ → Except ε (Action × σ)) (check : V → Except ε PUnit.{u + 1}) :
    V → Nat → σ → Except ε (Action × σ) := fun v depth s => do
  let (action, s) ← visit v depth s
  match action with
  | .moveUp => pure (.moveUp, s)
  | .visitChildren => do
      check v
      pure (.visitChildren, s)

/-- A visitor that also lists the nodes it expands. -/
def listing (visit : V → Nat → σ → Except ε (Action × σ)) :
    V → Nat → σ × List V → Except ε (Action × (σ × List V)) := fun v depth s => do
  let (action, t) ← visit v depth s.1
  match action with
  | .moveUp => pure (.moveUp, (t, s.2))
  | .visitChildren => pure (.visitChildren, (t, s.2 ++ [v]))

/-- How two visits of the same nodes go, one of which lists what the other checks:
`result` is what comes of them apart from the checks. -/
def Lists (check : V → Except ε PUnit.{u + 1}) (acc : List V)
    (listed : Except ε (σ × List V)) (checked : Except ε σ) : Prop :=
  ∃ order, ∃ result : Except ε σ, (listed = result >>= fun t => .ok (t, acc ++ order)) ∧
    checked = order.forM check >>= fun _ => result

theorem Lists.bind {check : V → Except ε PUnit.{u + 1}} {acc : List V}
    {listed : Except ε (σ × List V)} {checked : Except ε σ}
    {list : σ × List V → Except ε (σ × List V)} {step : σ → Except ε σ}
    (first : Lists check acc listed checked)
    (next : ∀ t acc, Lists check acc (list (t, acc)) (step t)) :
    Lists check acc (listed >>= list) (checked >>= step) := by
  obtain ⟨order, result, rfl, rfl⟩ := first
  cases result with
  | error e =>
      refine ⟨order, .error e, rfl, ?_⟩
      cases order.forM check <;> rfl
  | ok t =>
      obtain ⟨order', result, listed, checked⟩ := next t (acc ++ order)
      refine ⟨order ++ order', result, ?_, ?_⟩
      · rw [ok_bind, ok_bind, listed, List.append_assoc]
      · rw [forM_append]
        cases order.forM check with
        | error e => rfl
        | ok done =>
            simp only [ok_bind]
            exact checked

theorem Lists.error (check : V → Except ε PUnit.{u + 1}) (acc : List V) (e : ε) :
    Lists (σ := σ) check acc (.error e) (.error e) := ⟨[], .error e, rfl, rfl⟩

theorem Lists.ok (check : V → Except ε PUnit.{u + 1}) (acc : List V) (s : σ) :
    Lists check acc (.ok (s, acc)) (.ok s) :=
  ⟨[], .ok s, by rw [List.append_nil]; rfl, rfl⟩

theorem Lists.foldlM {check : V → Except ε PUnit.{u + 1}}
    {list : V → σ × List V → Except ε (σ × List V)} {step : V → σ → Except ε σ}
    (each : ∀ w s acc, Lists check acc (list w (s, acc)) (step w s))
    (nodes : List (Except ε V)) (s : σ) (acc : List V) :
    Lists check acc (nodes.foldlM (fun s node => node >>= fun w => list w s) (s, acc))
      (nodes.foldlM (fun s node => node >>= fun w => step w s) s) := by
  induction nodes generalizing s acc with
  | nil => exact Lists.ok check acc s
  | cons node rest ih =>
      rw [List.foldlM_cons, List.foldlM_cons]
      refine Lists.bind ?_ fun t acc => ih t acc
      cases node with
      | error e => exact Lists.error check acc e
      | ok w => exact each w s acc

/-- A walk that adds a check makes the checks in the order in which the walk without
them expands nodes. -/
theorem walk_checking (check : V → Except ε PUnit.{u + 1}) (fuel : Nat) (v : V) (depth : Nat)
    (s : σ) (acc : List V) :
    Lists check acc (walk outOfFuel children (listing visit) fuel v depth (s, acc))
      (walk outOfFuel children (checking visit check) fuel v depth s) := by
  induction fuel generalizing v depth s acc with
  | zero => exact Lists.error check acc outOfFuel
  | succ fuel ih =>
      cases visited : visit v depth s with
      | error e =>
          have listed : listing visit v depth (s, acc) = .error e := by
            rw [listing, visited]
            rfl
          have checked : checking visit check v depth s = .error e := by
            rw [checking, visited]
            rfl
          rw [walk_error listed, walk_error checked]
          exact Lists.error check acc e
      | ok result =>
          obtain ⟨action, s'⟩ := result
          cases action with
          | moveUp =>
              have listed : listing visit v depth (s, acc) = .ok (.moveUp, (s', acc)) := by
                rw [listing, visited]
                rfl
              have checked : checking visit check v depth s = .ok (.moveUp, s') := by
                rw [checking, visited]
                rfl
              rw [walk_moveUp listed, walk_moveUp checked]
              exact Lists.ok check acc s'
          | visitChildren =>
              have listed : listing visit v depth (s, acc)
                  = .ok (.visitChildren, (s', acc ++ [v])) := by
                rw [listing, visited]
                rfl
              have below : Lists check (acc ++ [v])
                  (children v >>= fun nodes => nodes.foldlM (fun s node => node >>= fun w =>
                    walk outOfFuel children (listing visit) fuel w (depth + 1) s) (s', acc ++ [v]))
                  (children v >>= fun nodes => nodes.foldlM (fun s node => node >>= fun w =>
                    walk outOfFuel children (checking visit check) fuel w (depth + 1) s) s') := by
                cases children v with
                | error e => exact Lists.error check _ e
                | ok nodes =>
                    exact Lists.foldlM (fun w s acc => ih w (depth + 1) s acc) nodes s' _
              obtain ⟨order, result, listedBelow, checkedBelow⟩ := below
              refine ⟨v :: order, result, ?_, ?_⟩
              · rw [walk_visitChildren listed, listedBelow, List.append_assoc]
                rfl
              · rw [forM_cons]
                cases checks : check v with
                | error e =>
                    have stopped : checking visit check v depth s = .error e := by
                      rw [checking, visited, ok_bind]
                      simp only [checks, error_bind]
                    rw [walk_error stopped]
                    rfl
                | ok done =>
                    have checked : checking visit check v depth s = .ok (.visitChildren, s') := by
                      rw [checking, visited, ok_bind]
                      simp only [checks, ok_bind, pure_eq_ok]
                    rw [walk_visitChildren checked, checkedBelow]
                    rfl

section Order

variable {check : V → Except ε PUnit.{u + 1}} {fuel depth : Nat} {v : V} {s t : σ}

/-- A walk that passed its checks can be listed. -/
theorem walk_listing (checked : walk outOfFuel children (checking visit check) fuel v depth s = .ok t)
    (acc : List V) :
    ∃ order, walk outOfFuel children (listing visit) fuel v depth (s, acc) = .ok (t, acc ++ order) := by
  have lists : Lists check acc (walk outOfFuel children (listing visit) fuel v depth (s, acc))
      (walk outOfFuel children (checking visit check) fuel v depth s) :=
    walk_checking check fuel v depth s acc
  obtain ⟨order, result, listed, checked'⟩ := lists
  rw [checked] at checked'
  obtain ⟨-, -, returned⟩ := bind_eq_ok.mp checked'.symm
  exact ⟨order, by rw [listed, returned]; rfl⟩

/-- The checks of a walk that can be listed. -/
theorem walk_checking_of_listing {order : List V}
    (listed : walk outOfFuel children (listing visit) fuel v depth (s, []) = .ok (t, order))
    (check : V → Except ε PUnit.{u + 1}) :
    walk outOfFuel children (checking visit check) fuel v depth s
      = order.forM check >>= fun _ => .ok t := by
  have lists : Lists check [] (walk outOfFuel children (listing visit) fuel v depth (s, []))
      (walk outOfFuel children (checking visit check) fuel v depth s) :=
    walk_checking check fuel v depth s []
  obtain ⟨order', result, listed', checked⟩ := lists
  rw [listed] at listed'
  obtain ⟨t', returned, same⟩ := bind_eq_ok.mp listed'.symm
  cases same
  rw [checked, returned]
  rfl

end Order

end DepthFirst
