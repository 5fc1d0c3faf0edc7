import Pointless.Lib.ExceptRules

/-!
# Programs that decide

A program with fuel is a family of runs, one for each amount of fuel.

* `EventuallyReturns run a` and `EventuallyStops run` say how it ends with enough fuel.
* `Decides looks answer run` is that the program answers a question where it may look for
  the answer, and stops with an error elsewhere.
* `InTurn looks goesOn xs` is what a loop needs that looks at one entry after the other and
  goes on as long as `goesOn`. `Decides.search` and `Decides.all` are the rules for a loop
  that ends at the first entry that passes, or at the first that does not.
-/

namespace Deciding

open ExceptRules

universe u

variable {ε : Type u} {α β : Type}

/-! ## Ends of runs -/

/-- With enough fuel the run returns `a`. -/
def EventuallyReturns (run : Nat → Except ε α) (a : α) : Prop :=
  ∃ enough, ∀ fuel ≥ enough, run fuel = .ok a

/-- With enough fuel the run stops with an error. -/
def EventuallyStops (run : Nat → Except ε α) : Prop :=
  ∃ enough, ∀ fuel ≥ enough, ∃ stop, run fuel = .error stop

section Runs

variable {run : Nat → Except ε α} {a b : α}

theorem EventuallyReturns.always (returned : ∀ fuel, run fuel = .ok a) :
    EventuallyReturns run a := ⟨0, fun fuel _ => returned fuel⟩

/-- A call spends one unit of fuel. -/
theorem EventuallyReturns.call {run' : Nat → Except ε α}
    (calls : ∀ fuel, run' (fuel + 1) = run fuel) (returns : EventuallyReturns run a) :
    EventuallyReturns run' a := by
  obtain ⟨enough, returned⟩ := returns
  refine ⟨enough + 1, fun fuel le => ?_⟩
  obtain ⟨less, rfl⟩ := Nat.exists_eq_add_of_lt le
  rw [calls, returned _ (Nat.le_add_right enough less)]

theorem EventuallyStops.call {run' : Nat → Except ε α}
    (calls : ∀ fuel, run' (fuel + 1) = run fuel) (stops : EventuallyStops run) :
    EventuallyStops run' := by
  obtain ⟨enough, stopped⟩ := stops
  refine ⟨enough + 1, fun fuel le => ?_⟩
  obtain ⟨less, rfl⟩ := Nat.exists_eq_add_of_lt le
  rw [calls]
  exact stopped _ (Nat.le_add_right enough less)

theorem EventuallyReturns.unique (first : EventuallyReturns run a)
    (second : EventuallyReturns run b) : a = b := by
  obtain ⟨enough, returned⟩ := first
  obtain ⟨enough', returned'⟩ := second
  have same := (returned _ (Nat.le_max_left enough enough')).symm.trans
    (returned' _ (Nat.le_max_right enough enough'))
  exact Except.ok.inj same

theorem EventuallyReturns.not_stops (returns : EventuallyReturns run a) : ¬EventuallyStops run := by
  intro stops
  obtain ⟨enough, returned⟩ := returns
  obtain ⟨enough', stopped⟩ := stops
  obtain ⟨stop, failed⟩ := stopped _ (Nat.le_max_right enough enough')
  rw [returned _ (Nat.le_max_left enough enough')] at failed
  cases failed

theorem EventuallyReturns.map (f : α → β) (returns : EventuallyReturns run a) :
    EventuallyReturns (fun fuel => f <$> run fuel) (f a) := by
  obtain ⟨enough, returned⟩ := returns
  refine ⟨enough, fun fuel le => ?_⟩
  change f <$> run fuel = _
  rw [returned fuel le, map_ok]

theorem EventuallyReturns.bind {next : Nat → α → Except ε β} {c : β}
    (returns : EventuallyReturns run a) (rest : EventuallyReturns (fun fuel => next fuel a) c) :
    EventuallyReturns (fun fuel => run fuel >>= next fuel) c := by
  obtain ⟨enough, returned⟩ := returns
  obtain ⟨enough', returned'⟩ := rest
  refine ⟨max enough enough', fun fuel le => ?_⟩
  change (run fuel >>= next fuel) = _
  rw [returned fuel (by omega), ok_bind]
  exact returned' fuel (by omega)

theorem EventuallyStops.bind_next {next : Nat → α → Except ε β}
    (returns : EventuallyReturns run a) (rest : EventuallyStops fun fuel => next fuel a) :
    EventuallyStops fun fuel => run fuel >>= next fuel := by
  obtain ⟨enough, returned⟩ := returns
  obtain ⟨enough', stopped⟩ := rest
  refine ⟨max enough enough', fun fuel le => ?_⟩
  obtain ⟨stop, failed⟩ := stopped fuel (by omega)
  refine ⟨stop, ?_⟩
  change (run fuel >>= next fuel) = _
  rw [returned fuel (by omega), ok_bind]
  exact failed

theorem EventuallyStops.bind (stops : EventuallyStops run) (next : Nat → α → Except ε β) :
    EventuallyStops fun fuel => run fuel >>= next fuel := by
  obtain ⟨enough, stopped⟩ := stops
  refine ⟨enough, fun fuel le => ?_⟩
  obtain ⟨stop, failed⟩ := stopped fuel le
  refine ⟨stop, ?_⟩
  change (run fuel >>= next fuel) = _
  rw [failed, error_bind]

/-- Runs that are the same with enough fuel end alike. -/
theorem EventuallyReturns.congr {run' : Nat → Except ε α} (enough : Nat)
    (same : ∀ fuel ≥ enough, run' fuel = run fuel) (returns : EventuallyReturns run a) :
    EventuallyReturns run' a := by
  obtain ⟨enough', returned⟩ := returns
  refine ⟨max enough enough', fun fuel le => ?_⟩
  rw [same fuel (by omega), returned fuel (by omega)]

theorem EventuallyStops.congr {run' : Nat → Except ε α} (enough : Nat)
    (same : ∀ fuel ≥ enough, run' fuel = run fuel) (stops : EventuallyStops run) :
    EventuallyStops run' := by
  obtain ⟨enough', stopped⟩ := stops
  refine ⟨max enough enough', fun fuel le => ?_⟩
  rw [same fuel (by omega)]
  exact stopped fuel (by omega)

end Runs

/-! ## Deciding a question -/

/-- The run answers whether `answer` where `looks`, and stops with an error elsewhere. -/
def Decides (looks answer : Prop) (run : Nat → Except ε Bool) : Prop :=
  (looks ∧ ∃ b, EventuallyReturns run b ∧ (b = true ↔ answer)) ∨ (¬looks ∧ EventuallyStops run)

section Questions

variable {looks answer looks' answer' : Prop} {run run' : Nat → Except ε Bool}

theorem Decides.congr (enough : Nat) (same : ∀ fuel ≥ enough, run' fuel = run fuel)
    (decides : Decides looks answer run) : Decides looks answer run' := by
  rcases decides with ⟨may, b, returns, correct⟩ | ⟨mayNot, stops⟩
  · exact Or.inl ⟨may, b, returns.congr enough same, correct⟩
  · exact Or.inr ⟨mayNot, stops.congr enough same⟩

theorem Decides.iff (decides : Decides looks answer run) (sameLooks : looks ↔ looks')
    (sameAnswer : answer ↔ answer') : Decides looks' answer' run := by
  rcases decides with ⟨may, b, returns, correct⟩ | ⟨mayNot, stops⟩
  · exact Or.inl ⟨sameLooks.mp may, b, returns, correct.trans sameAnswer⟩
  · exact Or.inr ⟨mt sameLooks.mpr mayNot, stops⟩

theorem decides_const (b : Bool) : Decides (ε := ε) True (b = true) fun _ => .ok b :=
  Or.inl ⟨trivial, b, ⟨0, fun _ _ => rfl⟩, Iff.rfl⟩

/-- What a run that decides one question returns is right for another exactly when it may
look, and the questions have one answer. -/
theorem Decides.right_iff (decides : Decides looks answer run) {goal : Prop} :
    (∃ b, EventuallyReturns run b ∧ (b = true ↔ goal)) ↔ looks ∧ (answer ↔ goal) := by
  rcases decides with ⟨may, b, returns, correct⟩ | ⟨mayNot, stops⟩
  · constructor
    · intro right
      obtain ⟨b', returns', correct'⟩ := right
      obtain rfl := returns.unique returns'
      exact ⟨may, correct.symm.trans correct'⟩
    · intro both
      exact ⟨b, returns, correct.trans both.2⟩
  · constructor
    · intro right
      obtain ⟨b, returns, -⟩ := right
      exact absurd stops returns.not_stops
    · intro both
      exact absurd both.1 mayNot

/-- The second question is asked where the answer to the first is yes. -/
theorem Decides.and (first : Decides looks answer run) (second : Decides looks' answer' run') :
    Decides (looks ∧ (answer → looks')) (answer ∧ answer')
      fun fuel => run fuel >>= fun b => if b = true then run' fuel else .ok false := by
  rcases first with ⟨may, b, returns, correct⟩ | ⟨mayNot, stops⟩
  · cases b with
    | false =>
        have no : ¬answer := fun yes => Bool.noConfusion (correct.mpr yes)
        refine Or.inl ⟨⟨may, fun yes => absurd yes no⟩, false, ?_, ?_⟩
        · exact EventuallyReturns.bind returns ⟨0, fun _ _ => rfl⟩
        · exact iff_of_false (fun bad => Bool.noConfusion bad) fun both => no both.1
    | true =>
        have yes := correct.mp rfl
        rcases second with ⟨may', b', returns', correct'⟩ | ⟨mayNot', stops'⟩
        · refine Or.inl ⟨⟨may, fun _ => may'⟩, b', ?_, ?_⟩
          · exact EventuallyReturns.bind returns returns'
          · rw [correct', and_iff_right yes]
        · refine Or.inr ⟨fun both => mayNot' (both.2 yes), ?_⟩
          exact EventuallyStops.bind_next returns stops'
  · exact Or.inr ⟨fun both => mayNot both.1, stops.bind _⟩

/-- The second question is asked where the answer to the first is no. -/
theorem Decides.or (first : Decides looks answer run) (second : Decides looks' answer' run') :
    Decides (looks ∧ (¬answer → looks')) (answer ∨ answer')
      fun fuel => run fuel >>= fun b => if b = true then .ok true else run' fuel := by
  rcases first with ⟨may, b, returns, correct⟩ | ⟨mayNot, stops⟩
  · cases b with
    | true =>
        have yes := correct.mp rfl
        refine Or.inl ⟨⟨may, fun no => absurd yes no⟩, true, ?_, ?_⟩
        · exact EventuallyReturns.bind returns ⟨0, fun _ _ => rfl⟩
        · exact iff_of_true rfl (Or.inl yes)
    | false =>
        have no : ¬answer := fun yes => Bool.noConfusion (correct.mpr yes)
        rcases second with ⟨may', b', returns', correct'⟩ | ⟨mayNot', stops'⟩
        · refine Or.inl ⟨⟨may, fun _ => may'⟩, b', ?_, ?_⟩
          · exact EventuallyReturns.bind returns returns'
          · rw [correct', or_iff_right no]
        · refine Or.inr ⟨fun both => mayNot' (both.2 no), ?_⟩
          exact EventuallyStops.bind_next returns stops'
  · exact Or.inr ⟨fun both => mayNot both.1, stops.bind _⟩

/-- What comes first returns always. -/
theorem Decides.after {first : Nat → Except ε α} {a : α} (returns : EventuallyReturns first a)
    {next : Nat → α → Except ε Bool} (decides : Decides looks answer fun fuel => next fuel a) :
    Decides looks answer fun fuel => first fuel >>= next fuel := by
  rcases decides with ⟨may, b, rest, correct⟩ | ⟨mayNot, stops⟩
  · exact Or.inl ⟨may, b, returns.bind rest, correct⟩
  · exact Or.inr ⟨mayNot, EventuallyStops.bind_next returns stops⟩

end Questions

/-! ## Loops -/

/-- Each entry may be looked at that comes after entries at which the loop goes on. -/
def InTurn (looks goesOn : α → Prop) : List α → Prop
  | [] => True
  | x :: rest => looks x ∧ (goesOn x → InTurn looks goesOn rest)

section Loops

variable {looks answer : α → Prop} {test : Nat → α → Except ε Bool} {entries : List α}

/-- A loop that ends at the first entry that passes decides whether there is one. -/
theorem Decides.search
    (each : ∀ x ∈ entries, Decides (looks x) (answer x) fun fuel => test fuel x) :
    Decides (InTurn looks (fun x => ¬answer x) entries) (∃ x ∈ entries, answer x)
      fun fuel => entries.anyM (test fuel) := by
  induction entries with
  | nil => exact Or.inl ⟨trivial, false, ⟨0, fun _ _ => rfl⟩, by simp⟩
  | cons x rest ih =>
      rw [List.forall_mem_cons] at each
      have step := Decides.or each.1 (ih each.2)
      simp only [List.mem_cons, exists_eq_or_imp]
      refine Decides.congr 0 (fun fuel _ => ?_) step
      rw [List.anyM]
      congr 1
      funext b
      cases b <;> rfl

/-- A loop that ends at the first entry that does not pass decides whether all do. -/
theorem Decides.all (each : ∀ x ∈ entries, Decides (looks x) (answer x) fun fuel => test fuel x) :
    Decides (InTurn looks answer entries) (∀ x ∈ entries, answer x)
      fun fuel => entries.allM (test fuel) := by
  induction entries with
  | nil => exact Or.inl ⟨trivial, true, ⟨0, fun _ _ => rfl⟩, by simp⟩
  | cons x rest ih =>
      rw [List.forall_mem_cons] at each
      have step := Decides.and each.1 (ih each.2)
      rw [List.forall_mem_cons]
      refine Decides.congr 0 (fun fuel _ => ?_) step
      rw [List.allM]
      congr 1
      funext b
      cases b <;> rfl

end Loops

end Deciding
