import Pointless.Lib.ExceptRules

/-!
# Programs with fuel

A program that may not end is a family of runs, one for each amount of fuel, in which
`out` is the error of a run that has used its fuel up.

* `Below out x y` is the order of such runs: `x` has used its fuel up, or is `y`.
* `Grows out run` is that more fuel only takes a run further.
* `Ends out run` is that some amount of fuel is enough. `ends_bind` and `ends_forM` say
  when programs in sequence end.
-/

namespace Fuel

open ExceptRules

universe u v

variable {ε : Type u} {α β σ : Type v} {out : ε}

/-! ## The order of runs -/

/-- `x` has used its fuel up, or is `y`. -/
def Below (out : ε) (x y : Except ε α) : Prop := x = .error out ∨ x = y

theorem Below.refl (x : Except ε α) : Below out x x := Or.inr rfl

theorem Below.bind {x y : Except ε α} {f g : α → Except ε β} (first : Below out x y)
    (next : ∀ a, Below out (f a) (g a)) : Below out (x >>= f) (y >>= g) := by
  rcases first with rfl | rfl
  · exact Or.inl rfl
  · cases x with
    | error e => exact Or.inr rfl
    | ok a => exact next a

theorem Below.map {x y : Except ε α} (f : α → β) (below : Below out x y) :
    Below out (f <$> x) (f <$> y) := by
  rcases below with rfl | rfl
  · exact Or.inl rfl
  · exact Or.inr rfl

theorem Below.ite {c : Prop} [Decidable c] {x y x' y' : Except ε α} (yes : Below out x y)
    (no : Below out x' y') : Below out (if c then x else x') (if c then y else y') := by
  split
  · exact yes
  · exact no

theorem Below.foldlM {body body' : σ → α → Except ε σ}
    (each : ∀ s a, Below out (body s a) (body' s a)) (items : List α) (s : σ) :
    Below out (items.foldlM body s) (items.foldlM body' s) := by
  induction items generalizing s with
  | nil => exact Below.refl _
  | cons a rest ih =>
      rw [List.foldlM_cons, List.foldlM_cons]
      exact Below.bind (each s a) ih

theorem Below.forM {check check' : α → Except ε PUnit.{v + 1}}
    (each : ∀ a, Below out (check a) (check' a)) (items : List α) :
    Below out (items.forM check) (items.forM check') := by
  induction items with
  | nil => exact Below.refl _
  | cons a rest ih =>
      rw [forM_cons, forM_cons]
      exact Below.bind (each a) fun _ => ih

/-- A run that has not used its fuel up stays as it is. -/
theorem Below.eq {x y : Except ε α} (below : Below out x y) (ended : x ≠ .error out) : y = x := by
  rcases below with used | same
  · exact absurd used ended
  · exact same.symm

theorem Below.ok {x y : Except ε α} {a : α} (below : Below out x y) (returned : x = .ok a) :
    y = .ok a := by
  rw [← returned]
  apply below.eq
  rw [returned]
  exact nofun

/-! ## Runs that end -/

/-- More fuel only takes a run further. -/
def Grows (out : ε) (run : Nat → Except ε α) : Prop := ∀ fuel, Below out (run fuel) (run (fuel + 1))

/-- Some amount of fuel is enough. -/
def Ends (out : ε) (run : Nat → Except ε α) : Prop := ∃ fuel, run fuel ≠ .error out

section Runs

variable {run : Nat → Except ε α}

theorem Grows.const (x : Except ε α) : Grows out fun _ => x := fun _ => Below.refl x

theorem Grows.le (grows : Grows out run) {fuel more : Nat} (enough : fuel ≤ more) :
    Below out (run fuel) (run more) := by
  induction enough with
  | refl => exact Below.refl _
  | @step more _ ih =>
      rcases ih with used | same
      · exact Or.inl used
      · rw [same]
        exact grows more

theorem Grows.bind {f : Nat → α → Except ε β} (first : Grows out run)
    (next : ∀ a, Grows out fun fuel => f fuel a) : Grows out fun fuel => run fuel >>= f fuel :=
  fun fuel => Below.bind (first fuel) fun a => next a fuel

theorem Grows.forM {check : Nat → α → Except ε PUnit.{v + 1}}
    (each : ∀ a, Grows out fun fuel => check fuel a) (items : List α) :
    Grows out fun fuel => items.forM (check fuel) :=
  fun fuel => Below.forM (fun a => each a fuel) items

theorem ends_const {x : Except ε α} : Ends out (fun _ => x) ↔ x ≠ .error out :=
  ⟨fun ends => ends.elim fun _ ended => ended, fun ended => ⟨0, ended⟩⟩

theorem Ends.of_ok {fuel : Nat} {a : α} (returned : run fuel = .ok a) : Ends out run :=
  ⟨fuel, by rw [returned]; exact nofun⟩

/-- What comes after a program does not matter when it ends at once. -/
theorem ends_bind_const {next : α → Except ε β} (ended : ∀ a, next a ≠ .error out) :
    Ends out (fun fuel => run fuel >>= next) ↔ Ends out run := by
  apply exists_congr
  intro fuel
  change (run fuel >>= next) ≠ .error out ↔ _
  cases run fuel with
  | error e =>
      rw [error_bind]
      exact ⟨fun differ same => by cases same; exact differ rfl,
        fun differ same => by cases same; exact differ rfl⟩
  | ok a => exact ⟨fun _ => nofun, fun _ => ended a⟩

/-- Programs in sequence end when the first does and, where it returns, the second. -/
theorem ends_bind {f : Nat → α → Except ε β} (grows : Grows out run)
    (growsNext : ∀ a, Grows out fun fuel => f fuel a) :
    Ends out (fun fuel => run fuel >>= f fuel) ↔
      Ends out run ∧ ∀ fuel a, run fuel = .ok a → Ends out fun fuel => f fuel a := by
  constructor
  · intro ends
    obtain ⟨fuel, ended⟩ := ends
    change (run fuel >>= f fuel) ≠ .error out at ended
    have first : run fuel ≠ .error out := by
      intro used
      rw [used] at ended
      exact ended rfl
    refine ⟨⟨fuel, first⟩, fun fuel' a returned => ⟨fuel, ?_⟩⟩
    have same : run fuel = .ok a := by
      have here := (grows.le (Nat.le_max_left fuel fuel')).eq first
      rw [← here]
      exact (grows.le (Nat.le_max_right fuel fuel')).ok returned
    rw [same] at ended
    exact ended
  · intro ends
    obtain ⟨⟨fuel, first⟩, next⟩ := ends
    cases ran : run fuel with
    | error e =>
        refine ⟨fuel, ?_⟩
        change (run fuel >>= f fuel) ≠ .error out
        rw [ran] at first
        rw [ran, error_bind]
        intro same
        cases same
        exact first rfl
    | ok a =>
        obtain ⟨fuel', ended⟩ := next fuel a ran
        refine ⟨max fuel fuel', ?_⟩
        change (run (max fuel fuel') >>= f (max fuel fuel')) ≠ .error out
        rw [(grows.le (Nat.le_max_left fuel fuel')).ok ran, ok_bind,
          ((growsNext a).le (Nat.le_max_right fuel fuel')).eq ended]
        exact ended

/-- A row of checks ends when each of them does that comes after checks that passed. -/
theorem ends_forM {check : Nat → α → Except ε PUnit.{v + 1}}
    (grows : ∀ a, Grows out fun fuel => check fuel a) {items : List α} :
    Ends out (fun fuel => items.forM (check fuel)) ↔
      ∀ fuel before a after, items = before ++ a :: after →
        before.forM (check fuel) = .ok ⟨⟩ → Ends out fun fuel => check fuel a := by
  induction items with
  | nil =>
      constructor
      · intro _ fuel before a after split
        simp at split
      · exact fun _ => ends_const.mpr nofun
  | cons b rest ih =>
      have row : Ends out (fun fuel => (b :: rest).forM (check fuel)) ↔
          Ends out (fun fuel => check fuel b) ∧ ∀ fuel a, check fuel b = .ok a →
            Ends out fun fuel => rest.forM (check fuel) :=
        ends_bind (grows b) fun _ => Grows.forM grows rest
      rw [row, ih]
      constructor
      · intro ends fuel before a after split passed
        cases before with
        | nil =>
            cases split
            exact ends.1
        | cons c before =>
            cases split
            obtain ⟨⟨⟩, first, others⟩ := bind_eq_ok.mp passed
            exact ends.2 fuel ⟨⟩ first fuel before a after rfl others
      · intro ends
        refine ⟨ends 0 [] b rest rfl rfl, fun fuel done first fuel' before a after split passed => ?_⟩
        refine ends (max fuel fuel') (b :: before) a after (by rw [split]; rfl) ?_
        rw [forM_cons, ((grows b).le (Nat.le_max_left fuel fuel')).ok first]
        exact ((Grows.forM grows before).le (Nat.le_max_right fuel fuel')).ok passed

/-- The same for the checks of `0, …, n - 1`. -/
theorem ends_forM_range {check : Nat → Nat → Except ε PUnit.{1}}
    (grows : ∀ i, Grows out fun fuel => check fuel i) {n : Nat} :
    Ends out (fun fuel => (List.range n).forM (check fuel)) ↔
      ∀ fuel, ∀ i < n, (∀ j < i, check fuel j = .ok ⟨⟩) → Ends out fun fuel => check fuel i := by
  rw [ends_forM grows]
  constructor
  · intro ends fuel i less passed
    have split : List.range n = List.range i ++ i :: List.range' (i + 1) (n - (i + 1)) := by
      rw [List.range_eq_range', List.range_eq_range', ← List.range'_succ]
      have total : i + (n - (i + 1) + 1) = n := by omega
      rw [← total, ← List.range'_append_1, Nat.zero_add]
      congr 2
      omega
    exact ends fuel _ i _ split (forM_eq_ok.mpr fun j mem => passed j (List.mem_range.mp mem))
  · intro ends fuel before i after split passed
    have place : i = before.length := by
      have here : (List.range n)[before.length]? = some i := by
        rw [split, List.getElem?_append_right (Nat.le_refl _), Nat.sub_self, List.getElem?_cons_zero]
      obtain ⟨_, same⟩ := List.getElem?_eq_some_iff.mp here
      rw [List.getElem_range] at same
      exact same.symm
    have less : i < n := by
      have mem : i ∈ List.range n := by
        rw [split]
        simp
      exact List.mem_range.mp mem
    refine ends fuel i less fun j before' => forM_eq_ok.mp passed j ?_
    rw [place] at before'
    have here : (List.range n)[j]? = before[j]? := by
      rw [split, List.getElem?_append_left before']
    rw [List.getElem?_range (by omega)] at here
    exact List.mem_of_getElem? here.symm

end Runs

/-! ## Loops of bounded length -/

/-- A loop goes through the states of its rounds. What holds of its results where it
starts in the last state, and holds where it does in the next one, holds from the first
one on, once the fuel lasts until the end. -/
theorem loop_induction {ρ : Type v} (run : Nat → σ → ρ) (P : ρ → Prop) (state : Nat → σ)
    {last : Nat} (ends : ∀ fuel, P (run (fuel + 1) (state last)))
    (next : ∀ e < last, ∀ fuel, P (run fuel (state (e + 1))) → P (run (fuel + 1) (state e)))
    {fuel : Nat} (enough : last < fuel) : P (run fuel (state 0)) := by
  have rounds : ∀ n e fuel, e + n = last → n < fuel → P (run fuel (state e)) := by
    intro n
    induction n with
    | zero =>
        intro e fuel there more
        obtain ⟨fuel, rfl⟩ := Nat.exists_eq_succ_of_ne_zero (Nat.ne_of_gt more)
        rw [Nat.add_zero] at there
        rw [there]
        exact ends fuel
    | succ n ih =>
        intro e fuel there more
        obtain ⟨fuel, rfl⟩ := Nat.exists_eq_succ_of_ne_zero (Nat.ne_of_gt (Nat.zero_lt_of_lt more))
        exact next e (by omega) fuel (ih (e + 1) fuel (by omega) (Nat.lt_of_succ_lt_succ more))
  exact rounds last 0 fuel (Nat.zero_add last) enough

end Fuel
