import Mathlib.Data.Finset.Card
import Mathlib.Data.List.Perm.Basic
import Mathlib.Data.Nat.Find

/-!
# Open addressing

Keys are put into buckets along probe paths: `path h d` is the bucket that the
`d`-th probe for the hash `h` looks at. A table of the keys `0, …, n - 1`, inserted
in this order, is the function `place` that gives the bucket of each.

`Chained` is the invariant of insertion at the first free bucket of a path: no two
keys share a bucket, and the probes of a key that come before its bucket look at
buckets of keys inserted earlier. It makes every key findable, and it makes the
keys of one hash come in the order of their insertion on their path.
-/

namespace OpenAddressing

universe u

variable {η : Type u}

/-- Within `bound` probes every path looks at each of the buckets below `size`. -/
def Covers (path : η → Nat → Nat) (size bound : Nat) : Prop :=
  ∀ h, ∀ b < size, ∃ d < bound, path h d = b

/-- The table of the first `n` keys, as insertion along the paths builds it. -/
structure Chained (path : η → Nat → Nat) (hash : Nat → η) (place : Nat → Nat) (n : Nat) :
    Prop where
  injective : ∀ i < n, ∀ j < n, place i = place j → i = j
  chain : ∀ i < n, ∃ d, path (hash i) d = place i ∧
    ∀ e < d, ∃ j < i, path (hash i) e = place j

variable {path : η → Nat → Nat} {hash : Nat → η} {place : Nat → Nat} {n : Nat}

theorem Chained.empty : Chained path hash place 0 :=
  ⟨fun _ bound => absurd bound (Nat.not_lt_zero _), fun _ bound => absurd bound (Nat.not_lt_zero _)⟩

/-! ## Free buckets -/

/-- A table with fewer keys than buckets has a free bucket. -/
theorem exists_free (place : Nat → Nat) {size : Nat} (room : n < size) :
    ∃ b < size, ∀ i < n, place i ≠ b := by
  have fewer : ((Finset.range n).image place).card < (Finset.range size).card := by
    rw [Finset.card_range]
    exact lt_of_le_of_lt Finset.card_image_le (by rwa [Finset.card_range])
  obtain ⟨b, inRange, notImage⟩ := Finset.exists_mem_notMem_of_card_lt_card fewer
  refine ⟨b, Finset.mem_range.mp inRange, fun i below same => notImage ?_⟩
  exact Finset.mem_image.mpr ⟨i, Finset.mem_range.mpr below, same⟩

/-- The first place on a path where a predicate of buckets holds. -/
theorem Covers.first {size bound : Nat} (covers : Covers path size bound) (free : Nat → Prop)
    {b : Nat} (inside : b < size) (isFree : free b) (h : η) :
    ∃ d < bound, free (path h d) ∧ ∀ e < d, ¬free (path h e) := by
  classical
  obtain ⟨d, below, reached⟩ := covers h b inside
  have found : ∃ d, free (path h d) := ⟨d, by rwa [reached]⟩
  refine ⟨Nat.find found, ?_, Nat.find_spec found, fun e before => Nat.find_min found before⟩
  exact lt_of_le_of_lt (Nat.find_min' found (by rwa [reached])) below

/-- Where the next key goes: the first free bucket of its path. -/
theorem Covers.exists_slot {size bound : Nat} (covers : Covers path size bound)
    (place : Nat → Nat) (room : n < size) (h : η) :
    ∃ d < bound, (∀ i < n, place i ≠ path h d) ∧ ∀ e < d, ∃ i < n, path h e = place i := by
  obtain ⟨b, inside, isFree⟩ := exists_free place room
  obtain ⟨d, below, free, taken⟩ :=
    covers.first (fun b => ∀ i < n, place i ≠ b) inside isFree h
  refine ⟨d, below, free, fun e before => ?_⟩
  have notFree := taken e before
  push Not at notFree
  obtain ⟨i, less, same⟩ := notFree
  exact ⟨i, less, same.symm⟩

/-! ## Insertion -/

/-- Putting the next key into the first free bucket of its path keeps the table
chained. -/
theorem Chained.insert (chained : Chained path hash place n) {d : Nat}
    (free : ∀ i < n, place i ≠ path (hash n) d)
    (taken : ∀ e < d, ∃ i < n, path (hash n) e = place i) :
    Chained path hash (Function.update place n (path (hash n) d)) (n + 1) := by
  have old : ∀ i < n, Function.update place n (path (hash n) d) i = place i :=
    fun i less => Function.update_of_ne (Nat.ne_of_lt less) _ _
  have new : Function.update place n (path (hash n) d) n = path (hash n) d :=
    Function.update_self _ _ _
  constructor
  · intro i iBound j jBound same
    rcases Nat.lt_succ_iff_lt_or_eq.mp iBound with iLess | rfl <;>
      rcases Nat.lt_succ_iff_lt_or_eq.mp jBound with jLess | rfl
    · rw [old i iLess, old j jLess] at same
      exact chained.injective i iLess j jLess same
    · rw [old i iLess, new] at same
      exact absurd same (free i iLess)
    · rw [old j jLess, new] at same
      exact absurd same.symm (free j jLess)
    · rfl
  · intro i iBound
    rcases Nat.lt_succ_iff_lt_or_eq.mp iBound with iLess | rfl
    · obtain ⟨e, reached, before⟩ := chained.chain i iLess
      refine ⟨e, by rw [old i iLess, reached], fun e' less => ?_⟩
      obtain ⟨j, jLess, same⟩ := before e' less
      exact ⟨j, jLess, by rw [old j (jLess.trans iLess), same]⟩
    · refine ⟨d, new.symm, fun e less => ?_⟩
      obtain ⟨j, jLess, same⟩ := taken e less
      exact ⟨j, jLess, by rw [old j jLess, same]⟩

/-! ## Lookup -/

/-- No free bucket comes before a key's bucket on its path. -/
theorem Chained.before_free (chained : Chained path hash place n) {i : Nat} (less : i < n)
    {d : Nat} (free : ∀ j < n, place j ≠ path (hash i) d) :
    ∃ e < d, path (hash i) e = place i ∧ ∀ e' < e, ∃ j < i, path (hash i) e' = place j := by
  obtain ⟨e, reached, before⟩ := chained.chain i less
  refine ⟨e, ?_, reached, before⟩
  by_contra notBefore
  rcases Nat.lt_or_eq_of_le (Nat.not_lt.mp notBefore) with dLess | rfl
  · obtain ⟨j, jLess, same⟩ := before d dLess
    exact free j (jLess.trans less) same.symm
  · exact free i less reached.symm

/-! ## Occupied buckets -/

/-- Where exactly the entries `entry i` are occupied, the occupied ones of a row are these in
another order. -/
theorem occupied_perm {γ : Type u} (row : List γ) (occupied : γ → Bool) {place : Nat → Nat} {n : Nat}
    (entry : Nat → γ) (injective : ∀ i < n, ∀ j < n, place i = place j → i = j)
    (placed : ∀ i < n, row[place i]? = some (entry i) ∧ occupied (entry i) = true)
    (free : ∀ b x, row[b]? = some x → (∀ i < n, place i ≠ b) → occupied x = false) :
    (row.filter occupied).Perm ((List.range n).map entry) := by
  have whole : row.map some = (List.range row.length).map (row[·]?) := by
    refine List.ext_getElem (by simp) fun i less less' => ?_
    rw [List.length_map] at less
    rw [List.getElem_map, List.getElem_map, List.getElem_range, List.getElem?_eq_getElem less]
  have kept : (row.filter occupied).map some
      = ((List.range row.length).filter fun b => (row[b]?).any occupied).map (row[·]?) := by
    have moved := List.filter_map (f := some) (p := fun x : Option γ => x.any occupied) (l := row)
    have moved' := List.filter_map (f := fun b : Nat => row[b]?)
      (p := fun x : Option γ => x.any occupied) (l := List.range row.length)
    exact moved.symm.trans ((congrArg _ whole).trans moved')
  have places : ((List.range row.length).filter fun b => (row[b]?).any occupied).Perm
      ((List.range n).map place) := by
    refine (List.perm_ext_iff_of_nodup (List.nodup_range.filter _) ?_).mpr fun b => ?_
    · refine List.Nodup.map_on (fun i mem j mem' same => ?_) List.nodup_range
      exact injective i (List.mem_range.mp mem) j (List.mem_range.mp mem') same
    · rw [List.mem_filter, List.mem_range, List.mem_map]
      constructor
      · rintro ⟨less, any⟩
        rw [List.getElem?_eq_getElem less] at any
        by_contra none_
        have unused : ∀ i < n, place i ≠ b := fun i less same =>
          none_ ⟨i, List.mem_range.mpr less, same⟩
        rw [Option.any_some, free b _ (List.getElem?_eq_getElem less) unused] at any
        cases any
      · rintro ⟨i, mem, rfl⟩
        rcases placed i (List.mem_range.mp mem) with ⟨at_i, isOccupied⟩
        exact ⟨(List.getElem?_eq_some_iff.mp at_i).1, by rw [at_i]; exact isOccupied⟩
  have entries : ((List.range n).map place).map (row[·]?) = ((List.range n).map entry).map some := by
    rw [List.map_map, List.map_map]
    exact List.map_congr_left fun i mem => (placed i (List.mem_range.mp mem)).1
  have perm := places.map (row[·]?)
  rw [← kept, entries] at perm
  have back := perm.filterMap id
  rwa [List.filterMap_map, List.filterMap_map, Function.id_comp, List.filterMap_some,
    List.filterMap_some] at back

end OpenAddressing
