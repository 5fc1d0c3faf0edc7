import Pointless.Lib.ExceptRules

/-!
# Errors reported through a variable

A program in the C style returns a value and, when it fails, stores a message in an
error variable that its caller has handed to it. The caller finds out about the
failure by the returned value or by looking at the variable, and gives up in turn.
The program may also be refused memory.

`Follows entry program outcome ok failed` compares such a program with an outcome in
the `Except` monad, where giving up is the error. A return with the error variable
as it was is a return of the outcome. A return with a message is one with a value by
which the caller can tell. `Follows.bind` is the rule for a caller: it goes on as
the outcome does, or it gives up.
-/

namespace ErrorChannel

open ExceptRules

variable {ε μ α β γ : Type}

/-- The error variable, `none` being the null pointer, and what the allocator is
going to answer. -/
structure Channel (μ : Type) where
  error : Option μ
  grants : Nat → Bool

/-- A program with an error variable. It may also stop for good. -/
abbrev Chan (ε μ : Type) := StateT (Channel μ) (Except ε)

/-! ## Steps -/

/-- `*error = message`. -/
def setError (message : μ) : Chan ε μ Unit := fun s => .ok ((), { s with error := some message })

/-- `*error`. -/
def getError : Chan ε μ (Option μ) := fun s => .ok (s.error, s)

/-- A request for memory: whether it is granted. -/
def request : Chan ε μ Bool := fun s =>
  .ok (s.grants 0, { s with grants := fun n => s.grants (n + 1) })

/-- A step that reports nothing. -/
def read (action : Except ε α) : Chan ε μ α := fun s =>
  match action with
  | .ok a => .ok (a, s)
  | .error e => .error e

/-- A program with an error variable of its own, which is returned with its value. -/
def ownError (program : Chan ε μ α) : Chan ε μ (α × Option μ) := fun s =>
  match program { s with error := none } with
  | .ok (a, t) => .ok ((a, t.error), { t with error := s.error })
  | .error e => .error e

/-- Store a message and return. -/
def giveUp (message : μ) (a : α) : Chan ε μ α := do
  setError message
  pure a

/-- The allocator that grants every request. -/
def unlimited : Nat → Bool := fun _ => true

/-! ## Comparison with an outcome -/

/-- The program returns what the outcome returns and leaves the error variable, or it
returns a value that says it failed and leaves a message. With unlimited memory it
fails only where the outcome does. -/
structure Follows (entry : Option μ → Prop) (program : Chan ε μ α) (outcome : Except ε β)
    (ok : α → β → Prop) (failed : α → Prop) : Prop where
  sound : ∀ s, entry s.error → ∀ a t, program s = .ok (a, t) →
    (t.error = s.error ∧ ∃ b, outcome = .ok b ∧ ok a b) ∨ (t.error ≠ none ∧ failed a)
  complete : ∀ e, entry e → ∀ b, outcome = .ok b →
    ∃ a, program ⟨e, unlimited⟩ = .ok (a, ⟨e, unlimited⟩) ∧ ok a b

/-- With a message in the error variable, the program keeps one and fails. -/
def GivesUp (program : Chan ε μ α) (failed : α → Prop) : Prop :=
  ∀ s, s.error ≠ none → ∀ a t, program s = .ok (a, t) → t.error ≠ none ∧ failed a

variable {entry : Option μ → Prop} {program : Chan ε μ α} {outcome : Except ε β}
  {ok : α → β → Prop} {failed : α → Prop}

theorem bind_apply (program : Chan ε μ α) (next : α → Chan ε μ β) (s : Channel μ) :
    (program >>= next) s = program s >>= fun result => next result.1 result.2 := rfl

theorem GivesUp.returns {a : α} (gave : failed a) :
    GivesUp (pure a : Chan ε μ α) failed := by
  intro s message a' t returned
  cases returned
  exact ⟨message, gave⟩

/-- A program that fails by itself. -/
theorem Follows.giveUp {message : μ} {a : α} {e : ε} (gave : failed a) :
    Follows entry (giveUp message a) (.error e : Except ε β) ok failed where
  sound := by
    intro s _ a' t returned
    cases returned
    exact Or.inr ⟨Option.some_ne_none message, gave⟩
  complete := by
    intro e' _ b returned
    cases returned

theorem Follows.returns {a : α} {b : β} (same : ok a b) :
    Follows entry (pure a : Chan ε μ α) (.ok b) ok failed where
  sound := by
    intro s _ a' t returned
    cases returned
    exact Or.inl ⟨rfl, b, rfl, same⟩
  complete := by
    intro e _ b' returned
    cases returned
    exact ⟨a, rfl, same⟩

theorem Follows.read (action : Except ε α) :
    Follows entry (read action : Chan ε μ α) action Eq failed where
  sound := by
    intro s _ a t returned
    cases action with
    | error e => cases returned
    | ok b =>
        cases returned
        exact Or.inl ⟨rfl, _, rfl, rfl⟩
  complete := by
    intro e _ b returned
    subst returned
    exact ⟨b, rfl, rfl⟩

/-- A program that stops for good. -/
theorem Follows.stops {e e' : ε} :
    Follows entry (ErrorChannel.read (.error e) : Chan ε μ α) (.error e' : Except ε β) ok failed where
  sound := by
    intro s _ a t returned
    cases returned
  complete := by
    intro _ _ b returned
    cases returned

theorem Follows.mono {ok' : α → β → Prop} {failed' : α → Prop}
    (follows : Follows entry program outcome ok failed) (weakenOk : ∀ a b, ok a b → ok' a b)
    (weakenFailed : ∀ a, failed a → failed' a) : Follows entry program outcome ok' failed' where
  sound := by
    intro s enters a t returned
    rcases follows.sound s enters a t returned with ⟨kept, b, same, good⟩ | ⟨message, gave⟩
    · exact Or.inl ⟨kept, b, same, weakenOk a b good⟩
    · exact Or.inr ⟨message, weakenFailed a gave⟩
  complete := by
    intro e enters b same
    obtain ⟨a, returned, good⟩ := follows.complete e enters b same
    exact ⟨a, returned, weakenOk a b good⟩

/-- The rule for a caller. -/
theorem Follows.bind {δ : Type} {ok' : γ → δ → Prop} {failed' : γ → Prop} {next : α → Chan ε μ γ}
    {after : β → Except ε δ} (first : Follows entry program outcome ok failed)
    (goesOn : ∀ a b, outcome = .ok b → ok a b → Follows entry (next a) (after b) ok' failed')
    (givesUp : ∀ a, failed a → GivesUp (next a) failed') :
    Follows entry (program >>= next) (outcome >>= after) ok' failed' where
  sound := by
    intro s enters c u returned
    rw [bind_apply] at returned
    obtain ⟨⟨a, t⟩, called, returned⟩ := bind_eq_ok.mp returned
    rcases first.sound s enters a t called with ⟨kept, b, same, good⟩ | ⟨message, gave⟩
    · have rest := (goesOn a b same good).sound t (kept ▸ enters) c u returned
      rw [same, ok_bind]
      rcases rest with ⟨kept', found⟩ | gaveUp
      · exact Or.inl ⟨kept'.trans kept, found⟩
      · exact Or.inr gaveUp
    · exact Or.inr (givesUp a gave t message c u returned)
  complete := by
    intro e enters d returned
    obtain ⟨b, same, after⟩ := bind_eq_ok.mp returned
    obtain ⟨a, called, good⟩ := first.complete e enters b same
    obtain ⟨c, rest, good'⟩ := (goesOn a b same good).complete e enters d after
    exact ⟨c, by rw [bind_apply, called]; exact rest, good'⟩

/-- A step that reports nothing needs no look at the error variable. -/
theorem Follows.read_bind {δ : Type} {ok' : γ → δ → Prop} {failed' : γ → Prop}
    {action : Except ε α} {next : α → Chan ε μ γ} {after : α → Except ε δ}
    (goesOn : ∀ a, action = .ok a → Follows entry (next a) (after a) ok' failed') :
    Follows entry (ErrorChannel.read action >>= next) (action >>= after) ok' failed' := by
  have step : Follows entry (ErrorChannel.read action : Chan ε μ α) action Eq fun _ => False :=
    Follows.read action
  refine Follows.bind step ?_ fun _ bad => bad.elim
  intro a b same eq
  cases eq
  exact goesOn a same

/-- A request for memory, where the program may not return without a message once it is
refused. -/
theorem Follows.request {refusal : Chan ε μ α}
    (refused : ∀ s a t, refusal s = .ok (a, t) → t.error ≠ none ∧ failed a)
    (granted : Follows entry program outcome ok failed) :
    Follows entry (do
      let isGranted ← request
      if isGranted then program else refusal) outcome ok failed where
  sound := by
    intro s enters a t returned
    rw [bind_apply] at returned
    change (if s.grants 0 then program else refusal)
      { s with grants := fun n => s.grants (n + 1) } = .ok (a, t) at returned
    cases answer : s.grants 0 with
    | true =>
        rw [answer, if_pos rfl] at returned
        exact granted.sound { s with grants := fun n => s.grants (n + 1) } enters a t returned
    | false =>
        rw [answer, if_neg Bool.false_ne_true] at returned
        exact Or.inr (refused _ a t returned)
  complete := fun e enters b same => granted.complete e enters b same

/-- A look at the error variable after a step that has left no message. -/
theorem Follows.getError {gaveUp : Chan ε μ α} (clean : ∀ e, entry e → e = none)
    (goesOn : Follows entry program outcome ok failed) :
    Follows entry (do
      let error ← getError
      if error.isSome then gaveUp else program) outcome ok failed where
  sound := by
    intro s enters a t returned
    rw [bind_apply] at returned
    change (if s.error.isSome then gaveUp else program) s = .ok (a, t) at returned
    rw [clean _ enters, if_neg (by simp)] at returned
    exact goesOn.sound s enters a t returned
  complete := by
    intro e enters b same
    obtain ⟨a, returned, good⟩ := goesOn.complete e enters b same
    refine ⟨a, ?_, good⟩
    change (if e.isSome then gaveUp else program) ⟨e, unlimited⟩ = .ok (a, ⟨e, unlimited⟩)
    rw [clean e enters, if_neg (by simp), ← clean e enters]
    exact returned

/-- A look at the error variable after a step that has left a message. -/
theorem GivesUp.getError {gaveUp : Chan ε μ α} (gives : GivesUp gaveUp failed) :
    GivesUp (do
      let error ← ErrorChannel.getError
      if error.isSome then gaveUp else program) failed := by
  intro s message a t returned
  rw [bind_apply] at returned
  change (if s.error.isSome then gaveUp else program) s = .ok (a, t) at returned
  rw [if_pos (Option.isSome_iff_ne_none.mpr message)] at returned
  exact gives s message a t returned

/-- A call that tells by its value whether it failed. -/
theorem Follows.unless {δ : Type} {ok' : γ → δ → Prop} {failed' : γ → Prop}
    {call : Chan ε μ Bool} {gaveUp : γ} {next : Chan ε μ γ} {after : β → Except ε δ}
    (first : Follows entry call outcome (fun a _ => a = true) (fun a => a = false))
    (gave : failed' gaveUp)
    (goesOn : ∀ b, outcome = .ok b → Follows entry next (after b) ok' failed') :
    Follows entry (do
      let succeeded ← call
      if ¬succeeded then pure gaveUp else next) (outcome >>= after) ok' failed' := by
  refine Follows.bind first ?_ ?_
  · intro a b same succeeded
    rw [if_neg (not_not.mpr succeeded)]
    exact goesOn b same
  · intro a failed
    rw [failed, if_pos Bool.false_ne_true]
    exact GivesUp.returns gave

/-- A call after which the caller looks at the error variable. -/
theorem Follows.unlessError {δ : Type} {ok' : γ → δ → Prop} {failed' : γ → Prop}
    {gaveUp : α → γ} {next : α → Chan ε μ γ} {after : β → Except ε δ}
    (clean : ∀ e, entry e → e = none) (first : Follows entry program outcome ok failed)
    (gave : ∀ a, failed' (gaveUp a))
    (goesOn : ∀ a b, outcome = .ok b → ok a b → Follows entry (next a) (after b) ok' failed') :
    Follows entry (do
      let a ← program
      let error ← ErrorChannel.getError
      if error.isSome then pure (gaveUp a) else next a) (outcome >>= after) ok' failed' :=
  Follows.bind first (fun a b same good => Follows.getError clean (goesOn a b same good))
    fun a _ => GivesUp.getError (GivesUp.returns (gave a))

/-- A call with an error variable of its own, whose message the caller passes on. -/
theorem Follows.ownError {δ : Type} {ok' : γ → δ → Prop} {failed' : γ → Prop}
    {next : α × Option μ → Chan ε μ γ} {after : β → Except ε δ}
    (call : Follows (· = none) program outcome ok failed)
    (goesOn : ∀ a b, outcome = .ok b → ok a b →
      Follows entry (next (a, none)) (after b) ok' failed')
    (givesUp : ∀ a message, failed a → ∀ s c t, next (a, some message) s = .ok (c, t) →
      t.error ≠ none ∧ failed' c) :
    Follows entry (ownError program >>= next) (outcome >>= after) ok' failed' where
  sound := by
    intro s enters c u returned
    rw [bind_apply] at returned
    obtain ⟨⟨⟨a, error⟩, t⟩, called, returned⟩ := bind_eq_ok.mp returned
    unfold ErrorChannel.ownError at called
    cases ran : program { s with error := none } with
    | error e =>
        rw [ran] at called
        cases called
    | ok result =>
        obtain ⟨a', t'⟩ := result
        rw [ran] at called
        cases called
        rcases call.sound _ rfl a t' ran with ⟨kept, b, same, good⟩ | ⟨message, gave⟩
        · rw [kept] at returned
          rw [same, ok_bind]
          exact (goesOn a b same good).sound { s with grants := t'.grants } enters c u returned
        · obtain ⟨text, found⟩ := Option.ne_none_iff_exists'.mp message
          rw [found] at returned
          exact Or.inr (givesUp a text gave _ c u returned)
  complete := by
    intro e enters d returned
    obtain ⟨b, same, after⟩ := bind_eq_ok.mp returned
    obtain ⟨a, called, good⟩ := call.complete none rfl b same
    obtain ⟨c, rest, good'⟩ := (goesOn a b same good).complete e enters d after
    refine ⟨c, ?_, good'⟩
    have own : ErrorChannel.ownError program ⟨e, unlimited⟩ = .ok ((a, none), ⟨e, unlimited⟩) := by
      unfold ErrorChannel.ownError
      rw [called]
    rw [bind_apply, own]
    exact rest

end ErrorChannel
