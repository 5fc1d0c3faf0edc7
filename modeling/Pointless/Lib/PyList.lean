import Pointless.Lib.ExceptRules

/-!
# Slices and iterators of Python lists

* `slice xs start stop` is `xs[start:stop]` of the Python list `xs`, for any bounds:
  negative ones count from the end, those outside the list are moved to its ends, and a
  slice whose bounds are reversed is empty.
* `drain out next fuel s` is what a loop over an iterator collects. An iterator is its
  state and its `next`, which yields an item or says that there is none left.

An item is an outcome, since an iterator may raise where it has to make an item.
-/

namespace PyList

open ExceptRules

/-! ## Slices -/

section Slices

variable {α : Type}

/-- The position in a list of length `n` that a slice bound stands for. -/
def bound (n : Nat) (b : Int) : Nat :=
  if b < 0 then (b + n).toNat else min b.toNat n

/-- `xs[start:stop]`. -/
def slice (xs : List α) (start stop : Option Int) : List α :=
  let low := (start.map (bound xs.length)).getD 0
  let high := (stop.map (bound xs.length)).getD xs.length
  (xs.drop low).take (high - low)

theorem bound_le (n : Nat) (b : Int) : bound n b ≤ n := by
  unfold bound
  split <;> omega

theorem bound_getD_le (n : Nat) (b : Option Int) {d : Nat} (le : d ≤ n) :
    (b.map (bound n)).getD d ≤ n := by
  cases b with
  | none => exact le
  | some b => exact bound_le n b

/-- A slice of a list that is itself part of a longer one. -/
theorem slice_window (all : List α) (i n : Nat) (inside : i + n ≤ all.length)
    (start stop : Option Int) :
    let low := (start.map (bound n)).getD 0
    let high := (stop.map (bound n)).getD n
    slice ((all.drop i).take n) start stop = (all.drop (i + low)).take (high - low) := by
  intro low high
  have length : ((all.drop i).take n).length = n := by
    rw [List.length_take, List.length_drop]
    omega
  have high_le : high ≤ n := bound_getD_le n stop (Nat.le_refl n)
  unfold slice
  rw [length]
  change (((all.drop i).take n).drop low).take (high - low) = _
  rw [List.drop_take, List.drop_drop, List.take_take, Nat.min_eq_left (by omega)]

end Slices

/-! ## Iterators -/

section Iterators

universe u

variable {ε : Type u} {α σ : Type}

/-- What a loop over an iterator collects; `out` is the error of a run that has used its
fuel up. -/
def drain (out : ε) (next : σ → Except ε (Option α × σ)) : Nat → σ → Except ε (List α)
  | 0, _ => .error out
  | fuel + 1, s =>
      match next s with
      | .error e => .error e
      | .ok (none, _) => .ok []
      | .ok (some x, s') => (x :: ·) <$> drain out next fuel s'

variable {out : ε} {next : σ → Except ε (Option α × σ)}

/-- An iterator that makes item `k` in state `k` collects the items: all of them, or the
first exception among them. -/
theorem drain_eq {items : List (Except ε α)} (state : Nat → σ)
    (each : ∀ k (less : k < items.length),
      next (state k) = (fun x => (some x, state (k + 1))) <$> items[k])
    (last : ∃ s, next (state items.length) = .ok (none, s)) {fuel : Nat}
    (enough : items.length < fuel) : drain out next fuel (state 0) = items.mapM id := by
  induction items generalizing state fuel with
  | nil =>
      obtain ⟨fuel, rfl⟩ := Nat.exists_eq_add_one_of_ne_zero (Nat.ne_of_gt enough)
      obtain ⟨s, ended⟩ := last
      rw [List.length_nil] at ended
      rw [drain, ended]
      rfl
  | cons item rest ih =>
      rw [List.length_cons] at enough
      obtain ⟨fuel, rfl⟩ :=
        Nat.exists_eq_add_one_of_ne_zero (Nat.ne_of_gt (Nat.zero_lt_of_lt enough))
      have here : next (state 0) = (fun x => (some x, state 1)) <$> item :=
        each 0 (Nat.zero_lt_succ _)
      have after : drain out next fuel (state 1) = rest.mapM id :=
        ih (fun k => state (k + 1))
          (fun k less => each (k + 1) (Nat.succ_lt_succ less)) last (by omega)
      rw [List.mapM_cons, drain, here]
      cases item with
      | error e => rfl
      | ok x =>
          simp only [map_ok, id_eq, ok_bind, after]
          cases rest.mapM id <;> rfl

end Iterators

end PyList
