import Mathlib.Data.List.Basic
import Mathlib.Order.Bounds.Defs
import Mathlib.Order.Lattice

/-!
# Bisection

A sorted list is cut at `x` into the elements below `x` and those from `x` on. A search
keeps two positions with the cut between them: `Between.up` and `Between.down` are its
rounds, which compare `x` with an element between the two.

* `Between.countP_eq`: the cut is the number of the elements below `x`.
* `Between.isLeast`: it is the leftmost position at which `x` is inserted in order.
-/

namespace Bisection

universe u

variable {α : Type u} [LinearOrder α] {x : α} {xs : List α} {i j k : Nat}

/-- The cut at `x` lies between `i` and `j`. -/
structure Between (x : α) (xs : List α) (i j : Nat) : Prop where
  le : i ≤ j
  within : j ≤ xs.length
  below : ∀ y ∈ xs.take i, y < x
  above : ∀ y ∈ xs.drop j, x ≤ y

theorem Between.start : Between x xs 0 xs.length where
  le := Nat.zero_le _
  within := Nat.le_refl _
  below := fun _ mem => absurd mem List.not_mem_nil
  above := fun y mem => by
    rw [List.drop_length] at mem
    exact absurd mem List.not_mem_nil

theorem getElem_le_getElem (sorted : xs.Pairwise (· ≤ ·)) (le : i ≤ j) (less : j < xs.length) :
    xs[i] ≤ xs[j] := by
  rcases Nat.lt_or_eq_of_le le with before | rfl
  · exact List.pairwise_iff_getElem.mp sorted i j _ less before
  · exact le_refl _

/-! ## Rounds -/

/-- An element below `x` has only such elements before it. -/
theorem Between.up (between : Between x xs i j) (sorted : xs.Pairwise (· ≤ ·))
    (before : k < j) (less : k < xs.length) (smaller : xs[k] < x) : Between x xs (k + 1) j where
  le := before
  within := between.within
  below := fun y mem => by
    obtain ⟨m, inside, rfl⟩ := List.mem_take_iff_getElem.mp mem
    have le : m ≤ k := by omega
    exact lt_of_le_of_lt (getElem_le_getElem sorted le less) smaller
  above := between.above

/-- An element that is not below `x` has only such elements behind it. -/
theorem Between.down (between : Between x xs i j) (sorted : xs.Pairwise (· ≤ ·))
    (after : i ≤ k) (less : k < xs.length) (larger : x ≤ xs[k]) : Between x xs i k where
  le := after
  within := Nat.le_of_lt less
  below := between.below
  above := fun y mem => by
    obtain ⟨m, inside, rfl⟩ := List.mem_drop_iff_getElem.mp mem
    exact le_trans larger (getElem_le_getElem sorted (Nat.le_add_right k m) (by omega))

/-! ## The cut -/

/-- The cut is the number of the elements below `x`. -/
theorem Between.countP_eq (between : Between x xs k k) : xs.countP (· < x) = k := by
  have first : (xs.take k).countP (· < x) = k := by
    have all : (xs.take k).countP (· < x) = (xs.take k).length :=
      List.countP_eq_length.mpr fun y mem => decide_eq_true (between.below y mem)
    rw [all, List.length_take, Nat.min_eq_left between.within]
  have rest : (xs.drop k).countP (· < x) = 0 :=
    List.countP_eq_zero.mpr fun y mem smaller =>
      absurd (of_decide_eq_true smaller) (not_lt.mpr (between.above y mem))
  calc xs.countP (· < x) = (xs.take k ++ xs.drop k).countP (· < x) := by
        rw [List.take_append_drop]
    _ = k := by rw [List.countP_append, first, rest, Nat.add_zero]

theorem insertIdx_eq {β : Type u} (x : β) (xs : List β) (le : k ≤ xs.length) :
    xs.insertIdx k x = xs.take k ++ x :: xs.drop k := by
  induction k generalizing xs with
  | zero => rfl
  | succ k ih =>
      cases xs with
      | nil => exact absurd le (Nat.not_succ_le_zero k)
      | cons y ys =>
          rw [List.insertIdx_succ_cons, ih ys (Nat.le_of_succ_le_succ le)]
          rfl

/-- `x` stands in order where nothing before it is larger and nothing behind it smaller. -/
theorem pairwise_insertIdx (sorted : xs.Pairwise (· ≤ ·)) (le : k ≤ xs.length) :
    (xs.insertIdx k x).Pairwise (· ≤ ·) ↔ (∀ y ∈ xs.take k, y ≤ x) ∧ ∀ y ∈ xs.drop k, x ≤ y := by
  rw [← List.take_append_drop k xs, List.pairwise_append] at sorted
  rw [insertIdx_eq x xs le, List.pairwise_append, List.pairwise_cons]
  constructor
  · intro ordered
    exact ⟨fun y mem => ordered.2.2 y mem x List.mem_cons_self, ordered.2.1.1⟩
  · intro sides
    refine ⟨sorted.1, ⟨sides.2, sorted.2.1⟩, fun y mem z mem' => ?_⟩
    rcases List.mem_cons.mp mem' with rfl | behind
    · exact sides.1 y mem
    · exact sorted.2.2 y mem z behind

/-- The cut is the leftmost position at which `x` is inserted in order. -/
theorem Between.isLeast (between : Between x xs k k) (sorted : xs.Pairwise (· ≤ ·)) :
    IsLeast {m | m ≤ xs.length ∧ (xs.insertIdx m x).Pairwise (· ≤ ·)} k := by
  constructor
  · refine ⟨between.within, (pairwise_insertIdx sorted between.within).mpr ⟨?_, between.above⟩⟩
    exact fun y mem => le_of_lt (between.below y mem)
  · intro m position
    obtain ⟨within, ordered⟩ := position
    by_contra before
    have less : m < k := Nat.not_le.mp before
    have inside : m < xs.length := Nat.lt_of_lt_of_le less between.within
    -- the element at `m` is below `x`, but `x` would stand before it
    have smaller : xs[m] < x :=
      between.below _ (List.mem_take_iff_getElem.mpr ⟨m, by omega, rfl⟩)
    have larger : x ≤ xs[m] :=
      ((pairwise_insertIdx sorted within).mp ordered).2 _
        (List.mem_drop_iff_getElem.mpr ⟨0, by omega, rfl⟩)
    exact absurd smaller (not_lt.mpr larger)

end Bisection
