import Pointless.Lib.DepthFirst
import Mathlib.Data.List.Nodup

/-!
# The visits of a depth-first walk

`trace` is the walk together with the visits it makes, in their order. The visits are
kept also when the walk is stopped, so that they say how far it has gone and how deep.

* `trace_walk`: the outcome of a trace is that of the walk.
* `trace_depth`: a visitor that stops by itself at some depth bounds every visit.
* `trace_once`: a visitor that keeps the keys of the nodes it expands, and only expands
  a node whose key it has not kept, expands each key once.
-/

namespace DepthFirst

universe u

variable {ε V σ K : Type u}

/-- A call of the visitor, and whether the walk went on to the children. -/
structure Visit (V : Type u) where
  node : V
  depth : Nat
  expanded : Bool

/-- The traces of a row of nodes. A node is read when its turn comes. -/
def traceNodes (step : V → σ → List (Visit V) × Except ε σ) :
    List (Except ε V) → σ → List (Visit V) × Except ε σ
  | [], s => ([], .ok s)
  | .error e :: _, _ => ([], .error e)
  | .ok w :: rest, s =>
      match step w s with
      | (seen, .error e) => (seen, .error e)
      | (seen, .ok t) => (seen ++ (traceNodes step rest t).1, (traceNodes step rest t).2)

/-- The walk from a node at some depth, with its visits. -/
def trace (outOfFuel : ε) (children : V → Except ε (List (Except ε V)))
    (visit : V → Nat → σ → Except ε (Action × σ)) :
    Nat → V → Nat → σ → List (Visit V) × Except ε σ
  | 0, _, _, _ => ([], .error outOfFuel)
  | fuel + 1, v, depth, s =>
      match visit v depth s with
      | .error e => ([⟨v, depth, false⟩], .error e)
      | .ok (.moveUp, t) => ([⟨v, depth, false⟩], .ok t)
      | .ok (.visitChildren, t) =>
          match children v with
          | .error e => ([⟨v, depth, true⟩], .error e)
          | .ok nodes =>
              let below := traceNodes
                (fun w s => trace outOfFuel children visit fuel w (depth + 1) s) nodes t
              (⟨v, depth, true⟩ :: below.1, below.2)

/-- The keys of the expanded nodes. -/
def expandedKeys (key : V → Option K) (visits : List (Visit V)) : List K :=
  visits.filterMap fun visit => if visit.expanded then key visit.node else none

theorem expandedKeys_append (key : V → Option K) (visits visits' : List (Visit V)) :
    expandedKeys key (visits ++ visits') = expandedKeys key visits ++ expandedKeys key visits' :=
  List.filterMap_append

variable {outOfFuel : ε} {children : V → Except ε (List (Except ε V))}
  {visit : V → Nat → σ → Except ε (Action × σ)}

/-- What holds of the trace of a row of nodes, by what holds of the trace of each of
them: `P s` of a trace that starts in `s`. -/
theorem traceNodes_induct {P : σ → List (Visit V) × Except ε σ → Prop}
    {step : V → σ → List (Visit V) × Except ε σ} (nil : ∀ s, P s ([], .ok s))
    (stopped : ∀ s e, P s ([], .error e)) (each : ∀ w s, P s (step w s))
    (append : ∀ s seen t later, P s (seen, .ok t) → P t later → P s (seen ++ later.1, later.2))
    (nodes : List (Except ε V)) (s : σ) : P s (traceNodes step nodes s) := by
  induction nodes generalizing s with
  | nil => exact nil s
  | cons node rest ih =>
      cases node with
      | error e => exact stopped s e
      | ok w =>
          have here := each w s
          rw [traceNodes]
          generalize step w s = traced at here ⊢
          obtain ⟨seen, outcome⟩ := traced
          cases outcome with
          | error e => exact here
          | ok t => exact append s seen t _ here (ih t)

/-! ## The outcome -/

theorem traceNodes_walk {step : V → σ → List (Visit V) × Except ε σ} {walk : V → σ → Except ε σ}
    (each : ∀ w s, (step w s).2 = walk w s) (nodes : List (Except ε V)) (s : σ) :
    (traceNodes step nodes s).2 = nodes.foldlM (fun s node => node >>= fun w => walk w s) s := by
  induction nodes generalizing s with
  | nil => rfl
  | cons node rest ih =>
      rw [List.foldlM_cons]
      cases node with
      | error e => rfl
      | ok w =>
          rw [ExceptRules.ok_bind, ← each w s, traceNodes]
          generalize step w s = traced
          obtain ⟨seen, outcome⟩ := traced
          cases outcome with
          | error e => rfl
          | ok t => exact ih t

/-- The outcome of a trace is that of the walk. -/
theorem trace_walk (fuel : Nat) (v : V) (depth : Nat) (s : σ) :
    (trace outOfFuel children visit fuel v depth s).2
      = walk outOfFuel children visit fuel v depth s := by
  induction fuel generalizing v depth s with
  | zero => rfl
  | succ fuel ih =>
      rw [trace]
      cases visited : visit v depth s with
      | error e => exact (walk_error visited).symm
      | ok result =>
          obtain ⟨action, t⟩ := result
          cases action with
          | moveUp => exact (walk_moveUp visited).symm
          | visitChildren =>
              rw [walk_visitChildren visited]
              cases children v with
              | error e => rfl
              | ok nodes => exact traceNodes_walk (fun w s => ih w (depth + 1) s) nodes t

/-! ## Depth -/

/-- No visit is deeper than the depth at which the visitor stops by itself. -/
theorem trace_depth {limit : Nat} (deep : ∀ v depth s, limit ≤ depth → ∃ e, visit v depth s = .error e)
    (fuel : Nat) (v : V) {depth : Nat} (bound : depth ≤ limit) (s : σ) :
    ∀ call ∈ (trace outOfFuel children visit fuel v depth s).1, call.depth ≤ limit := by
  induction fuel generalizing v depth s with
  | zero => exact fun call mem => absurd mem List.not_mem_nil
  | succ fuel ih =>
      have here : ∀ expanded, ∀ call ∈ [(⟨v, depth, expanded⟩ : Visit V)], call.depth ≤ limit := by
        intro expanded call mem
        rw [List.mem_singleton.mp mem]
        exact bound
      rw [trace]
      cases visited : visit v depth s with
      | error e => exact here false
      | ok result =>
          obtain ⟨action, t⟩ := result
          cases action with
          | moveUp => exact here false
          | visitChildren =>
              have shallow : depth < limit := by
                by_contra notShallow
                obtain ⟨e, stopped⟩ := deep v depth s (Nat.not_lt.mp notShallow)
                rw [visited] at stopped
                cases stopped
              cases children v with
              | error e => exact here true
              | ok nodes =>
                  intro call mem
                  rcases List.mem_cons.mp mem with rfl | mem
                  · exact bound
                  · refine traceNodes_induct (P := fun _ traced => ∀ call ∈ traced.1,
                      call.depth ≤ limit) ?_ ?_ ?_ ?_ nodes t call mem
                    · exact fun _ call mem => absurd mem List.not_mem_nil
                    · exact fun _ _ call mem => absurd mem List.not_mem_nil
                    · exact fun w s => ih w shallow s
                    · intro s seen t later before after call mem
                      rcases List.mem_append.mp mem with mem | mem
                      · exact before call mem
                      · exact after call mem

/-! ## Expansions -/

section Once

variable {key : V → Option K} {visited : σ → K → Prop}

/-- The keys of the nodes that a trace from `s` expands differ from each other and from
those kept in `s`, and are kept with them where it ends. -/
def ExpandsOnce (key : V → Option K) (visited : σ → K → Prop) (s : σ)
    (traced : List (Visit V) × Except ε σ) : Prop :=
  (expandedKeys key traced.1).Nodup ∧ (∀ k ∈ expandedKeys key traced.1, ¬visited s k) ∧
    ∀ t, traced.2 = .ok t → ∀ k, visited t k ↔ visited s k ∨ k ∈ expandedKeys key traced.1

theorem ExpandsOnce.nothing {s : σ} {visits : List (Visit V)} {outcome : Except ε σ}
    (none : expandedKeys key visits = []) (same : ∀ t, outcome = .ok t → t = s) :
    ExpandsOnce key visited s (visits, outcome) := by
  refine ⟨none ▸ List.nodup_nil, fun k mem => ?_, fun t ended k => ?_⟩
  · rw [none] at mem
    exact absurd mem List.not_mem_nil
  · rw [same t ended, none]
    exact ⟨Or.inl, fun either => either.elim id fun mem => absurd mem List.not_mem_nil⟩

theorem ExpandsOnce.append {s t : σ} {seen : List (Visit V)} {later : List (Visit V) × Except ε σ}
    (first : ExpandsOnce key visited s (seen, (.ok t : Except ε σ)))
    (second : ExpandsOnce key visited t later) :
    ExpandsOnce key visited s (seen ++ later.1, later.2) := by
  obtain ⟨nodup, fresh, kept⟩ := first
  obtain ⟨nodup', fresh', kept'⟩ := second
  refine ⟨?_, fun k mem => ?_, fun u ended k => ?_⟩
  · rw [expandedKeys_append]
    refine List.Nodup.append nodup nodup' fun k mem mem' => ?_
    exact fresh' k mem' ((kept t rfl k).mpr (Or.inr mem))
  · rw [expandedKeys_append] at mem
    rcases List.mem_append.mp mem with mem | mem
    · exact fresh k mem
    · exact fun held => fresh' k mem ((kept t rfl k).mpr (Or.inl held))
  · rw [kept' u ended, kept t rfl, expandedKeys_append, List.mem_append, or_assoc]

/-- A node that is expanded comes before what the walk expands below it. -/
theorem ExpandsOnce.expand {s s' : σ} {v : V} {depth : Nat}
    (fresh : ∀ k, key v = some k → ¬visited s k)
    (marks : ∀ k, visited s' k ↔ visited s k ∨ key v = some k)
    {below : List (Visit V) × Except ε σ} (rest : ExpandsOnce key visited s' below) :
    ExpandsOnce key visited s (⟨v, depth, true⟩ :: below.1, below.2) := by
  have here : ∀ k, k ∈ expandedKeys key [(⟨v, depth, true⟩ : Visit V)] ↔ key v = some k := by
    intro k
    rw [expandedKeys, List.mem_filterMap]
    constructor
    · intro mem
      obtain ⟨call, only, isKey⟩ := mem
      rw [List.mem_singleton.mp only] at isKey
      exact isKey
    · exact fun isKey => ⟨_, List.mem_singleton.mpr rfl, isKey⟩
  have first : ExpandsOnce key visited s ([⟨v, depth, true⟩], (.ok s' : Except ε σ)) := by
    refine ⟨?_, fun k mem => fresh k ((here k).mp mem), fun t ended k => ?_⟩
    · cases isKey : key v <;> simp [expandedKeys, isKey]
    · cases ended
      rw [marks k, here k]
  exact first.append rest

/-- The walk expands each key once, and none that has been kept before. -/
theorem trace_once (marks : Marks visit key visited)
    (fresh : ∀ {v depth s s'}, visit v depth s = .ok (.visitChildren, s') →
      ∀ k, key v = some k → ¬visited s k) (fuel : Nat) (v : V) (depth : Nat) (s : σ) :
    ExpandsOnce key visited s (trace outOfFuel children visit fuel v depth s) := by
  induction fuel generalizing v depth s with
  | zero => exact ExpandsOnce.nothing rfl nofun
  | succ fuel ih =>
      rw [trace]
      cases called : visit v depth s with
      | error e => exact ExpandsOnce.nothing rfl nofun
      | ok result =>
          obtain ⟨action, t⟩ := result
          cases action with
          | moveUp =>
              refine ExpandsOnce.nothing rfl fun u ended => ?_
              cases ended
              exact (marks.moveUp called).1
          | visitChildren =>
              cases children v with
              | error e =>
                  have below : ExpandsOnce key visited t ([], (.error e : Except ε σ)) :=
                    ExpandsOnce.nothing rfl nofun
                  exact below.expand (fresh called) (marks.expand called)
              | ok nodes =>
                  apply ExpandsOnce.expand (fresh called) (marks.expand called)
                  apply traceNodes_induct
                  · exact fun s => ExpandsOnce.nothing rfl fun u ended => by cases ended; rfl
                  · exact fun s e => ExpandsOnce.nothing rfl nofun
                  · exact fun w s => ih w (depth + 1) s
                  · exact fun s seen t later => ExpandsOnce.append

end Once

end DepthFirst
