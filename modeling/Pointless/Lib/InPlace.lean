import Mathlib.Data.List.Basic
import Mathlib.Data.List.Perm.Basic

/-!
# Rearranging a range of a list in place

`exchange i j` swaps the items at two positions. `Rearranged lo hi xs ys` is what
exchanges inside `[lo, hi)` can do: `ys` has the items of `xs`, those outside the
range where they were, and those inside it come from inside it. It composes, so a
procedure that works on a part of the range needs to report no more than this.

`AllOn` and `SortedOn` speak of the items at the positions of a range; a property
of all items of a range survives every rearrangement of it.
-/

namespace InPlace

universe u v

variable {α : Type u}

/-! ## Exchanging two items -/

/-- The list with the items at `i` and `j` exchanged. -/
def exchange (i j : Nat) (xs : List α) : List α :=
  match xs[i]?, xs[j]? with
  | some x, some y => (xs.set i y).set j x
  | _, _ => xs

theorem exchange_eq {i j : Nat} {xs : List α} (hi : i < xs.length) (hj : j < xs.length) :
    exchange i j xs = (xs.set i xs[j]).set j xs[i] := by
  simp only [exchange, List.getElem?_eq_getElem hi, List.getElem?_eq_getElem hj]

@[simp] theorem length_exchange (i j : Nat) (xs : List α) :
    (exchange i j xs).length = xs.length := by
  unfold exchange
  split <;> simp

theorem exchange_perm (i j : Nat) (xs : List α) : (exchange i j xs).Perm xs := by
  by_cases inside : i < xs.length ∧ j < xs.length
  · rw [exchange_eq inside.1 inside.2]
    exact List.set_set_perm inside.1 inside.2
  · unfold exchange
    split
    · rename_i x y hx hy
      exact absurd ⟨(List.getElem?_eq_some_iff.mp hx).1, (List.getElem?_eq_some_iff.mp hy).1⟩ inside
    · exact List.Perm.refl xs

theorem map_exchange {β : Type v} (f : α → β) (i j : Nat) (xs : List α) :
    (exchange i j xs).map f = exchange i j (xs.map f) := by
  unfold exchange
  rw [List.getElem?_map, List.getElem?_map]
  cases xs[i]? with
  | none => rfl
  | some x =>
      cases xs[j]? with
      | none => rfl
      | some y =>
          dsimp only [Option.map_some]
          rw [List.map_set, List.map_set]

theorem getElem?_exchange {i j : Nat} {xs : List α} (hi : i < xs.length) (hj : j < xs.length)
    (k : Nat) :
    (exchange i j xs)[k]? = if k = j then xs[i]? else if k = i then xs[j]? else xs[k]? := by
  rw [exchange_eq hi hj, List.getElem?_set, List.getElem?_set, List.length_set]
  by_cases kj : j = k
  · subst kj
    simp [hi, hj]
  · by_cases ki : i = k
    · subst ki
      simp [hi, hj, kj, Ne.symm kj]
    · simp [ki, kj, Ne.symm ki, Ne.symm kj]

/-! ## Rearrangements of a range -/

/-- `ys` is `xs` with the items at the positions `[lo, hi)` rearranged among them. -/
structure Rearranged (lo hi : Nat) (xs ys : List α) : Prop where
  perm : ys.Perm xs
  outside : ∀ k, k < lo ∨ hi ≤ k → ys[k]? = xs[k]?
  inside : ∀ k, lo ≤ k → k < hi → ∃ j, lo ≤ j ∧ j < hi ∧ ys[k]? = xs[j]?

variable {lo hi : Nat} {xs ys zs : List α}

theorem Rearranged.refl (lo hi : Nat) (xs : List α) : Rearranged lo hi xs xs :=
  ⟨List.Perm.refl xs, fun _ _ => rfl, fun k above below => ⟨k, above, below, rfl⟩⟩

theorem Rearranged.trans (first : Rearranged lo hi xs ys) (second : Rearranged lo hi ys zs) :
    Rearranged lo hi xs zs where
  perm := second.perm.trans first.perm
  outside k out := (second.outside k out).trans (first.outside k out)
  inside k above below := by
    obtain ⟨j, above_j, below_j, same⟩ := second.inside k above below
    obtain ⟨i, above_i, below_i, same'⟩ := first.inside j above_j below_j
    exact ⟨i, above_i, below_i, same.trans same'⟩

/-- A rearrangement of a part of a range is one of the range. -/
theorem Rearranged.widen {lo' hi' : Nat} (part : Rearranged lo' hi' xs ys) (lower : lo ≤ lo')
    (upper : hi' ≤ hi) : Rearranged lo hi xs ys where
  perm := part.perm
  outside k out := part.outside k (by omega)
  inside k above below := by
    by_cases inPart : lo' ≤ k ∧ k < hi'
    · obtain ⟨j, above_j, below_j, same⟩ := part.inside k inPart.1 inPart.2
      exact ⟨j, by omega, by omega, same⟩
    · exact ⟨k, above, below, part.outside k (by omega)⟩

theorem Rearranged.length_eq (moved : Rearranged lo hi xs ys) : ys.length = xs.length :=
  moved.perm.length_eq

theorem exchange_rearranged {i j : Nat} (hi_i : lo ≤ i ∧ i < hi) (hi_j : lo ≤ j ∧ j < hi)
    (inside : hi ≤ xs.length) : Rearranged lo hi xs (exchange i j xs) where
  perm := exchange_perm i j xs
  outside k out := by
    rw [getElem?_exchange (by omega) (by omega), if_neg (by omega), if_neg (by omega)]
  inside k above below := by
    rw [getElem?_exchange (by omega) (by omega)]
    split
    · exact ⟨i, hi_i.1, hi_i.2, rfl⟩
    · split
      · exact ⟨j, hi_j.1, hi_j.2, rfl⟩
      · exact ⟨k, above, below, rfl⟩

/-! ## Properties of the items of a range -/

/-- Every item at a position of `[lo, hi)` has the property. -/
def AllOn (P : α → Prop) (lo hi : Nat) (xs : List α) : Prop :=
  ∀ k x, lo ≤ k → k < hi → xs[k]? = some x → P x

/-- The items at the positions of `[lo, hi)` are nondecreasing. -/
def SortedOn (le : α → α → Prop) (lo hi : Nat) (xs : List α) : Prop :=
  ∀ i j x y, lo ≤ i → i < j → j < hi → xs[i]? = some x → xs[j]? = some y → le x y

variable {P : α → Prop} {le : α → α → Prop}

theorem AllOn.empty {lo hi : Nat} (nothing : hi ≤ lo) : AllOn P lo hi xs := by
  intro k x above below
  omega

theorem AllOn.narrow {lo' hi' : Nat} (all : AllOn P lo hi xs) (lower : lo ≤ lo')
    (upper : hi' ≤ hi) : AllOn P lo' hi' xs := by
  intro k x above below at_k
  exact all k x (by omega) (by omega) at_k

theorem AllOn.imp {Q : α → Prop} (all : AllOn P lo hi xs) (weaker : ∀ x, P x → Q x) :
    AllOn Q lo hi xs := fun k x above below at_k => weaker x (all k x above below at_k)

/-- What holds of every item of a range holds after the range is rearranged. -/
theorem AllOn.rearranged (all : AllOn P lo hi xs) (moved : Rearranged lo hi xs ys) :
    AllOn P lo hi ys := by
  intro k x above below at_k
  obtain ⟨j, above_j, below_j, same⟩ := moved.inside k above below
  exact all j x above_j below_j (same ▸ at_k)

/-- What holds of the items outside a range is not touched by a rearrangement of it. -/
theorem AllOn.apart {lo' hi' : Nat} (all : AllOn P lo hi xs) (moved : Rearranged lo' hi' xs ys)
    (apart : hi ≤ lo' ∨ hi' ≤ lo) : AllOn P lo hi ys := by
  intro k x above below at_k
  refine all k x above below ?_
  rw [← moved.outside k (by omega)]
  exact at_k

theorem SortedOn.short {lo hi : Nat} (short : hi ≤ lo + 1) : SortedOn le lo hi xs := by
  intro i j x y above before below
  omega

theorem SortedOn.apart {lo' hi' : Nat} (sorted : SortedOn le lo hi xs)
    (moved : Rearranged lo' hi' xs ys) (apart : hi ≤ lo' ∨ hi' ≤ lo) : SortedOn le lo hi ys := by
  intro i j x y above before below at_i at_j
  apply sorted i j x y above before below
  · rw [← moved.outside i (by omega)]
    exact at_i
  · rw [← moved.outside j (by omega)]
    exact at_j

/-- One more item that none of the range is above. -/
theorem SortedOn.snoc (sorted : SortedOn le lo hi xs)
    (last : ∀ y, xs[hi]? = some y → AllOn (fun x => le x y) lo hi xs) :
    SortedOn le lo (hi + 1) xs := by
  intro i j x y above before below at_i at_j
  by_cases end_j : j = hi
  · subst end_j
    exact last y at_j i x above before at_i
  · exact sorted i j x y above before (by omega) at_i at_j

/-- A range is sorted when it falls into a sorted part of items that are at most `p`, a part
of items that are both at most and at least `p`, and a sorted part of items that are at least
`p`. -/
theorem SortedOn.three {a b c d : Nat} {p : α} (trans : ∀ x y z, le x y → le y z → le x z)
    (low : SortedOn le a b xs) (high : SortedOn le c d xs)
    (below : AllOn (fun x => le x p) a b xs)
    (level : AllOn (fun x => le x p ∧ le p x) b c xs)
    (above : AllOn (fun x => le p x) c d xs) : SortedOn le a d xs := by
  have atMost : AllOn (fun x => le x p) a c xs := by
    intro k x lower upper at_k
    by_cases part : k < b
    · exact below k x lower part at_k
    · exact (level k x (by omega) upper at_k).1
  have atLeast : AllOn (fun x => le p x) b d xs := by
    intro k x lower upper at_k
    by_cases part : k < c
    · exact (level k x lower part at_k).2
    · exact above k x (by omega) upper at_k
  intro i j x y lower before upper at_i at_j
  by_cases inLow : j < b
  · exact low i j x y lower before inLow at_i at_j
  · by_cases inHigh : c ≤ i
    · exact high i j x y inHigh before upper at_i at_j
    · apply trans x p y
      · exact atMost i x lower (by omega) at_i
      · exact atLeast j y (by omega) upper at_j

/-! ## Insertion -/

/-- A range with one item still on its way down: the items are nondecreasing, except that those
before `place` may be above the one at `place`. -/
def SortedBut (le : α → α → Prop) (lo hi place : Nat) (xs : List α) : Prop :=
  ∀ i j x y, lo ≤ i → i < j → j < hi → j ≠ place → xs[i]? = some x → xs[j]? = some y → le x y

theorem SortedOn.insert (sorted : SortedOn le lo hi xs) : SortedBut le lo (hi + 1) hi xs := by
  intro i j x y above before below apart
  exact sorted i j x y above before (by omega)

/-- The item has reached the bottom of the range. -/
theorem SortedBut.bottom (sorted : SortedBut le lo hi lo xs) : SortedOn le lo hi xs := by
  intro i j x y above before below
  exact sorted i j x y above before below (by omega)

/-- The item has reached one that it is not below. -/
theorem SortedBut.settle {place : Nat} (trans : ∀ x y z, le x y → le y z → le x z)
    (sorted : SortedBut le lo hi (place + 1) xs) (upper : place + 1 < hi)
    (inOrder : ∀ x y, xs[place]? = some x → xs[place + 1]? = some y → le x y) :
    SortedOn le lo hi xs := by
  intro i j x y above before below at_i at_j
  by_cases here : j = place + 1
  · subst here
    by_cases next : i = place
    · subst next
      exact inOrder x y at_i at_j
    · obtain ⟨z, at_place⟩ : ∃ z, xs[place]? = some z := by
        have inside := (List.getElem?_eq_some_iff.mp at_j).1
        exact ⟨_, List.getElem?_eq_getElem (by omega)⟩
      apply trans x z y
      · exact sorted i place x z above (by omega) (by omega) (by omega) at_i at_place
      · exact inOrder z y at_place at_j
  · exact sorted i j x y above before below here at_i at_j

/-- The item changes places with the one before it, which is above it. -/
theorem SortedBut.sink {place : Nat} (sorted : SortedBut le lo hi (place + 1) xs)
    (inside : place + 1 < xs.length) (lower : lo ≤ place)
    (outOfOrder : ∀ x y, xs[place]? = some x → xs[place + 1]? = some y → le y x) :
    SortedBut le lo hi place (exchange (place + 1) place xs) := by
  intro i j x y above before below apart at_i at_j
  rw [getElem?_exchange (by omega) (by omega)] at at_i at_j
  rw [if_neg apart] at at_j
  by_cases up_j : j = place + 1
  · rw [if_pos up_j] at at_j
    by_cases low_i : i = place
    · rw [if_pos low_i] at at_i
      exact outOfOrder y x at_j at_i
    · rw [if_neg low_i, if_neg (by omega)] at at_i
      exact sorted i place x y above (by omega) (by omega) (by omega) at_i at_j
  · rw [if_neg up_j] at at_j
    by_cases low_i : i = place
    · rw [if_pos low_i] at at_i
      exact sorted (place + 1) j x y (by omega) (by omega) below up_j at_i at_j
    · rw [if_neg low_i] at at_i
      by_cases up_i : i = place + 1
      · rw [if_pos up_i] at at_i
        exact sorted place j x y (by omega) (by omega) below up_j at_i at_j
      · rw [if_neg up_i] at at_i
        exact sorted i j x y above before below up_j at_i at_j

/-! ## The whole list -/

/-- A list is sorted when it is on all its positions. -/
theorem SortedOn.pairwise (sorted : SortedOn le 0 xs.length xs) : xs.Pairwise le := by
  rw [List.pairwise_iff_getElem]
  intro i j hi hj before
  exact sorted i j _ _ (Nat.zero_le i) before hj (List.getElem?_eq_getElem hi)
    (List.getElem?_eq_getElem hj)

/-- When the first items have been sorted, the list is sorted if and only if the others already
were in place. -/
theorem Rearranged.pairwise_iff {m : Nat} (moved : Rearranged 0 m xs ys)
    (sorted : SortedOn le 0 m ys) :
    ys.Pairwise le ↔
      (xs.drop m).Pairwise le ∧ ∀ x ∈ xs.take m, ∀ y ∈ xs.drop m, le x y := by
  have rest : ys.drop m = xs.drop m := by
    apply List.ext_getElem?
    intro k
    rw [List.getElem?_drop, List.getElem?_drop]
    exact moved.outside _ (Or.inr (by omega))
  have first : (ys.take m).Perm (xs.take m) := by
    have all := moved.perm
    rw [← List.take_append_drop m ys, ← List.take_append_drop m xs, rest] at all
    exact (List.perm_append_right_iff _).mp all
  have sorted : (ys.take m).Pairwise le := by
    rw [List.pairwise_iff_getElem]
    intro i j hi hj before
    rw [List.length_take] at hi hj
    have at_i := List.getElem?_take_of_lt (l := ys) (show i < m by omega)
    have at_j := List.getElem?_take_of_lt (l := ys) (show j < m by omega)
    apply sorted i j _ _ (Nat.zero_le i) before (by omega)
    · rw [← at_i]
      exact List.getElem?_eq_getElem _
    · rw [← at_j]
      exact List.getElem?_eq_getElem _
  have whole : ys.Pairwise le ↔ (ys.take m ++ ys.drop m).Pairwise le := by
    rw [List.take_append_drop]
  rw [whole, List.pairwise_append, rest]
  constructor
  · intro all
    exact ⟨all.2.1, fun x mem => all.2.2 x (first.mem_iff.mpr mem)⟩
  · intro both
    exact ⟨sorted, both.1, fun x mem => both.2 x (first.mem_iff.mp mem)⟩

end InPlace
