import Pointless.Lib.ExceptRules

/-!
# Programs that give up

A program over a state that may give up with a message, which leaves the state as it was at
that point. It may also stop for good, with no state left.

`Ends attempt s ok gaveUp` is the total judgment: the program does not stop for good, what it
returns satisfies `ok` with the state then, and where it gives up the state satisfies
`gaveUp`. A loop over a list is `List.forM`, for which `Ends.forM` is the invariant rule, and
a loop over what an iterator yields is `whileSome`.
-/

namespace Attempts

open ExceptRules

variable {ε μ σ τ α β : Type}

/-! ## Steps -/

/-- A program over a state. -/
abbrev Attempt (ε μ σ α : Type) := ExceptT μ (StateT σ (Except ε)) α

/-- How a program ends: with what it returns or its message, and the state. -/
def run (attempt : Attempt ε μ σ α) (s : σ) : Except ε (Except μ α × σ) := attempt s

/-- A step that looks at nothing of the state. -/
def reading (action : Except ε α) : Attempt ε μ σ α := fun s => (fun a => (.ok a, s)) <$> action

/-- A step that looks at the state. -/
def looking (action : σ → Except ε α) : Attempt ε μ σ α := fun s =>
  (fun a => (.ok a, s)) <$> action s

/-- A step that changes the state. -/
def changing (action : σ → Except ε (α × σ)) : Attempt ε μ σ α := fun s =>
  (fun result => (.ok result.1, result.2)) <$> action s

/-- Give up with a message. -/
def giveUp (message : μ) : Attempt ε μ σ α := throw message

/-- `while (next(&i)) body;`, with at most `calls` calls of `next`. -/
def whileSome (stop : ε) (next : τ → Except ε (Option (α × τ))) (body : α → Attempt ε μ σ Unit) :
    Nat → τ → Attempt ε μ σ Unit
  | 0, _ => reading (.error stop)
  | calls + 1, i => do
      match ← reading (next i) with
      | none => pure ()
      | some (x, i) => do
          body x
          whileSome stop next body calls i

/-! ## The judgment -/

/-- The program returns what satisfies `ok`, or gives up where `gaveUp`. -/
def Ends (attempt : Attempt ε μ σ α) (s : σ) (ok : α → σ → Prop) (gaveUp : σ → Prop) : Prop :=
  ∃ result t, run attempt s = .ok (result, t) ∧
    match result with
    | .ok a => ok a t
    | .error _ => gaveUp t

section Rules

variable {s : σ} {ok : α → σ → Prop} {ok' : β → σ → Prop} {gaveUp : σ → Prop}
  {attempt : Attempt ε μ σ α} {next : α → Attempt ε μ σ β} {action : Except ε α} {a : α}

theorem run_bind : run (attempt >>= next) s = run attempt s >>= fun out =>
    match out.1 with
    | .ok a => run (next a) out.2
    | .error message => .ok (.error message, out.2) := by
  change (attempt s >>= fun out => ExceptT.bindCont next out.1 out.2) = attempt s >>= _
  congr 1
  funext out
  obtain ⟨result, t⟩ := out
  cases result with
  | ok a => rfl
  | error message => rfl

theorem Ends.pure (holds : ok a s) : Ends (pure a : Attempt ε μ σ α) s ok gaveUp :=
  ⟨.ok a, s, rfl, holds⟩

theorem Ends.giveUp {message : μ} (holds : gaveUp s) :
    Ends (giveUp message : Attempt ε μ σ α) s ok gaveUp :=
  ⟨.error message, s, rfl, holds⟩

theorem Ends.bind (first : Ends attempt s ok gaveUp)
    (rest : ∀ a t, ok a t → Ends (next a) t ok' gaveUp) : Ends (attempt >>= next) s ok' gaveUp := by
  obtain ⟨result, t, ran, holds⟩ := first
  cases result with
  | ok a =>
      obtain ⟨result', t', ran', holds'⟩ := rest a t holds
      refine ⟨result', t', ?_, holds'⟩
      rw [run_bind, ran]
      exact ran'
  | error message =>
      refine ⟨.error message, t, ?_, holds⟩
      rw [run_bind, ran]
      rfl

theorem Ends.mono {weaker : α → σ → Prop} (ends : Ends attempt s ok gaveUp)
    (weaken : ∀ a t, ok a t → weaker a t) : Ends attempt s weaker gaveUp := by
  obtain ⟨result, t, ran, holds⟩ := ends
  refine ⟨result, t, ran, ?_⟩
  cases result with
  | ok a => exact weaken a t holds
  | error message => exact holds

theorem Ends.reading (returned : action = .ok a) (holds : ok a s) :
    Ends (reading action : Attempt ε μ σ α) s ok gaveUp := by
  subst returned
  exact ⟨.ok a, s, rfl, holds⟩

/-- A read whose result is known comes before the rest. -/
theorem reading_bind (returned : action = .ok a) :
    ((reading action : Attempt ε μ σ α) >>= next) = next a := by
  subst returned
  rfl

theorem Ends.looking {action : σ → Except ε α} (returned : action s = .ok a) (holds : ok a s) :
    Ends (looking action : Attempt ε μ σ α) s ok gaveUp := by
  refine ⟨.ok a, s, ?_, holds⟩
  change (fun a => (Except.ok a, s)) <$> action s = _
  rw [returned, map_ok]

theorem Ends.changing {action : σ → Except ε (α × σ)} {t : σ} (returned : action s = .ok (a, t))
    (holds : ok a t) : Ends (changing action : Attempt ε μ σ α) s ok gaveUp := by
  refine ⟨.ok a, t, ?_, holds⟩
  change (fun result => (Except.ok result.1, result.2)) <$> action s = _
  rw [returned, map_ok]

/-- A look at the state whose result is known comes before the rest. -/
theorem run_looking_bind {action : σ → Except ε α} (returned : action s = .ok a) :
    run ((looking action : Attempt ε μ σ α) >>= next) s = run (next a) s := by
  have first : run (looking action : Attempt ε μ σ α) s = .ok (.ok a, s) := by
    change (fun a => (Except.ok a, s)) <$> action s = _
    rw [returned, map_ok]
  rw [run_bind, first]
  rfl

theorem Ends.of_run {other : Attempt ε μ σ α} (ends : Ends other s ok gaveUp)
    (same : run attempt s = run other s) : Ends attempt s ok gaveUp := by
  unfold Ends
  rw [same]
  exact ends

end Rules

/-! ## Loops -/

section Loops

variable {s : σ} {gaveUp : σ → Prop} {body : α → Attempt ε μ σ Unit}

theorem forM_cons_attempt (x : α) (xs : List α) :
    (x :: xs).forM body = body x >>= fun _ => xs.forM body := rfl

/-- What holds before the loop, and is carried on by the round of each item, holds after
it. -/
theorem Ends.forM {inv : List α → σ → Prop} {xs : List α} (start : inv [] s)
    (step : ∀ done x rest t, xs = done ++ x :: rest → inv done t →
      Ends (body x) t (fun _ t' => inv (done ++ [x]) t') gaveUp) :
    Ends (xs.forM body) s (fun _ t => inv xs t) gaveUp := by
  have from_ (done rest : List α) (t : σ) (split : xs = done ++ rest) (here : inv done t) :
      Ends (rest.forM body) t (fun _ t' => inv xs t') gaveUp := by
    induction rest generalizing done t with
    | nil =>
        rw [List.append_nil] at split
        subst split
        exact Ends.pure here
    | cons x rest ih =>
        rw [forM_cons_attempt]
        apply Ends.bind (step done x rest t split here)
        intro _ t' carried
        apply ih (done ++ [x]) t' _ carried
        rw [split, List.append_assoc]
        rfl
  exact from_ [] xs s rfl start

/-- A loop over positions whose items are read first is a loop over the items. -/
theorem forM_reading {read : β → Except ε α} {positions : List β} {items : List α}
    (each : List.Forall₂ (fun i x => read i = .ok x) positions items) :
    positions.forM (fun i => (reading (read i) : Attempt ε μ σ α) >>= body) = items.forM body := by
  induction each with
  | nil => rfl
  | cons returned _ ih =>
      rw [forM_cons_attempt, forM_cons_attempt, reading_bind returned, ih]

variable {stop : ε} {next : τ → Except ε (Option (α × τ))} {calls : Nat} {i j : τ} {x : α}

theorem whileSome_done (done : next i = .ok none) :
    whileSome stop next body (calls + 1) i = pure () := by
  rw [whileSome, reading_bind done]

theorem whileSome_round (called : next i = .ok (some (x, j))) :
    whileSome stop next body (calls + 1) i
      = body x >>= fun _ => whileSome stop next body calls j := by
  rw [whileSome, reading_bind called]

end Loops

end Attempts
