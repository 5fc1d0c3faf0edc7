import Pointless.Lib.ExceptRules
import Mathlib.Data.List.Nodup

/-!
# Programs with a log

A program that may fail and notes events as it runs. The log is kept where it fails, so that
it says how far the program has gone.

* `outcome_bind`, `outcome_foldlM`: without the log it is a program that may fail.
* `Records key Has Good s m`: run from the state `s`, all events of `m` are good, the keys of
  the events are distinct and new, and they are what the state has more at the end.
-/

namespace EventLog

open ExceptRules

universe u

/-- A log and an outcome. -/
structure Logged (E ε α : Type u) where
  log : List E
  outcome : Except ε α

variable {E ε α β σ K : Type u}

/-- A step that notes nothing. -/
def lift (x : Except ε α) : Logged E ε α := ⟨[], x⟩

/-- Note an event and go on with `a`. -/
def note (e : E) (a : α) : Logged E ε α := ⟨[e], .ok a⟩

/-- One program after the other. -/
def andThen (m : Logged E ε α) (f : α → Logged E ε β) : Logged E ε β :=
  match m.outcome with
  | .error e => ⟨m.log, .error e⟩
  | .ok a => ⟨m.log ++ (f a).log, (f a).outcome⟩

instance : Monad (Logged E ε) where
  pure a := ⟨[], .ok a⟩
  bind := andThen

/-! ## The outcome -/

theorem bind_of_error {m : Logged E ε α} {f : α → Logged E ε β} {e : ε}
    (failed : m.outcome = .error e) : (m >>= f) = ⟨m.log, .error e⟩ := by
  change andThen m f = _
  rw [andThen, failed]

theorem bind_of_ok {m : Logged E ε α} {f : α → Logged E ε β} {a : α}
    (returned : m.outcome = .ok a) : (m >>= f) = ⟨m.log ++ (f a).log, (f a).outcome⟩ := by
  change andThen m f = _
  rw [andThen, returned]

theorem lift_bind (a : α) (f : α → Logged E ε β) : (lift (.ok a) >>= f) = f a := by
  rw [bind_of_ok rfl]
  rfl

@[simp] theorem outcome_bind (m : Logged E ε α) (f : α → Logged E ε β) :
    (m >>= f).outcome = m.outcome >>= fun a => (f a).outcome := by
  cases returned : m.outcome with
  | error e => rw [bind_of_error returned, error_bind]
  | ok a => rw [bind_of_ok returned, ok_bind]

@[simp] theorem outcome_pure (a : α) : (pure a : Logged E ε α).outcome = .ok a := rfl

@[simp] theorem outcome_lift (x : Except ε α) : (lift x : Logged E ε α).outcome = x := rfl

@[simp] theorem outcome_note (e : E) (a : α) : (note e a : Logged E ε α).outcome = .ok a := rfl

theorem outcome_foldlM {body : σ → α → Logged E ε σ} {plain : σ → α → Except ε σ}
    (each : ∀ s a, (body s a).outcome = plain s a) (items : List α) (s : σ) :
    (items.foldlM body s).outcome = items.foldlM plain s := by
  induction items generalizing s with
  | nil => rfl
  | cons a rest ih =>
      rw [List.foldlM_cons, List.foldlM_cons, outcome_bind, each]
      congr 1
      funext t
      exact ih t

/-! ## What is recorded -/

/-- All events are good, and their keys are distinct, new to the state `s`, and what the
state has more at the end. -/
structure Records (key : E → Option K) (Has : σ → K → Prop) (Good : E → Prop) (s : σ)
    (m : Logged E ε σ) : Prop where
  good : ∀ e ∈ m.log, Good e
  nodup : (m.log.filterMap key).Nodup
  fresh : ∀ k ∈ m.log.filterMap key, ¬Has s k
  has : ∀ t, m.outcome = .ok t → ∀ k, Has t k ↔ Has s k ∨ k ∈ m.log.filterMap key

section Records

variable {key : E → Option K} {Has : σ → K → Prop} {Good : E → Prop} {s : σ}

/-- A step that notes nothing and leaves the keys as they are. -/
theorem Records.lift {x : Except ε σ} (same : ∀ t, x = .ok t → ∀ k, Has t k ↔ Has s k) :
    Records key Has Good s (lift x) where
  good := fun _ mem => absurd mem List.not_mem_nil
  nodup := List.nodup_nil
  fresh := fun _ mem => absurd mem List.not_mem_nil
  has := fun t returned k => by
    rw [same t returned k]
    exact (or_iff_left List.not_mem_nil).symm

/-- A step that notes an event without a key and leaves the state as it is. -/
theorem Records.note {e : E} (good : Good e) (none : key e = none) :
    Records key Has Good s (note e s : Logged E ε σ) := by
  have nothing : [e].filterMap key = [] := List.filterMap_cons_none none
  refine ⟨fun _ mem => ?_, ?_, ?_, fun t returned k => ?_⟩
  · rw [List.mem_singleton.mp mem]
    exact good
  · change ([e].filterMap key).Nodup
    rw [nothing]
    exact List.nodup_nil
  · change ∀ k ∈ [e].filterMap key, _
    rw [nothing]
    exact fun _ mem => absurd mem List.not_mem_nil
  · cases returned
    change _ ↔ _ ∨ k ∈ [e].filterMap key
    rw [nothing]
    exact (or_iff_left List.not_mem_nil).symm

/-- A step that notes an event with a new key, and gives it to the state. -/
theorem Records.note_key {e : E} {t : σ} {k : K} (good : Good e) (isKey : key e = some k)
    (fresh : ¬Has s k) (has : ∀ k', Has t k' ↔ Has s k' ∨ k' = k) :
    Records key Has Good s (EventLog.note e t : Logged E ε σ) := by
  have single : [e].filterMap key = [k] := by
    rw [List.filterMap_cons_some isKey, List.filterMap_nil]
  refine ⟨fun _ mem => ?_, ?_, ?_, fun t' returned k' => ?_⟩
  · rw [List.mem_singleton.mp mem]
    exact good
  · change ([e].filterMap key).Nodup
    rw [single]
    exact List.nodup_singleton k
  · change ∀ k' ∈ [e].filterMap key, _
    rw [single]
    intro k' mem
    rw [List.mem_singleton.mp mem]
    exact fresh
  · cases returned
    change _ ↔ _ ∨ k' ∈ [e].filterMap key
    rw [single, List.mem_singleton]
    exact has k'

/-- What the steps of a sequence record is recorded by the sequence. -/
theorem Records.bind {m : Logged E ε σ} {f : σ → Logged E ε σ} (first : Records key Has Good s m)
    (next : ∀ t, m.outcome = .ok t → Records key Has Good t (f t)) :
    Records key Has Good s (m >>= f) := by
  cases returned : m.outcome with
  | error e =>
      rw [bind_of_error returned]
      exact ⟨first.good, first.nodup, first.fresh, fun t bad => by cases bad⟩
  | ok t =>
      rw [bind_of_ok returned]
      have rest := next t returned
      have has := first.has t returned
      refine ⟨fun e mem => ?_, ?_, fun k mem => ?_, fun t' returned' k => ?_⟩
      · rcases List.mem_append.mp mem with mem | mem
        · exact first.good e mem
        · exact rest.good e mem
      · rw [List.filterMap_append, List.nodup_append]
        refine ⟨first.nodup, rest.nodup, fun k mem k' mem' same => ?_⟩
        exact rest.fresh k' mem' ((has k').mpr (Or.inr (same ▸ mem)))
      · rw [List.filterMap_append, List.mem_append] at mem
        rcases mem with mem | mem
        · exact first.fresh k mem
        · exact fun had => rest.fresh k mem ((has k).mpr (Or.inl had))
      · rw [rest.has t' returned' k, has k, List.filterMap_append, List.mem_append, or_assoc]

/-- A step may look at something first. -/
theorem Records.lift_bind {x : Except ε α} {f : α → Logged E ε σ}
    (next : ∀ a, x = .ok a → Records key Has Good s (f a)) :
    Records key Has Good s (EventLog.lift x >>= f) := by
  cases x with
  | error e =>
      rw [bind_of_error rfl]
      exact Records.lift fun t bad => by cases bad
  | ok a =>
      rw [EventLog.lift_bind]
      exact next a rfl

/-- The rule for loops, with an invariant of the states. -/
theorem Records.foldlM {inv : σ → Prop} {body : σ → α → Logged E ε σ} {items : List α}
    (start : inv s)
    (step : ∀ t, inv t → ∀ a ∈ items, Records key Has Good t (body t a) ∧
      ∀ t', (body t a).outcome = .ok t' → inv t') :
    Records key Has Good s (items.foldlM body s) ∧
      ∀ t', (items.foldlM body s).outcome = .ok t' → inv t' := by
  induction items generalizing s with
  | nil =>
      refine ⟨Records.lift fun t returned k => ?_, fun t' returned => ?_⟩
      · cases returned
        exact Iff.rfl
      · cases returned
        exact start
  | cons a rest ih =>
      rw [List.foldlM_cons]
      obtain ⟨here, kept⟩ := step s start a List.mem_cons_self
      have later : ∀ t, (body s a).outcome = .ok t → _ := fun t returned =>
        ih (kept t returned) fun t' held b mem => step t' held b (List.mem_cons_of_mem a mem)
      refine ⟨here.bind fun t returned => (later t returned).1, fun t' returned => ?_⟩
      rw [outcome_bind] at returned
      obtain ⟨t, first, others⟩ := bind_eq_ok.mp returned
      exact (later t first).2 t' others

end Records

end EventLog
