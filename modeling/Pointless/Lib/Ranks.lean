import Mathlib.Algebra.Ring.Nat
import Mathlib.Data.List.Basic

/-!
Lists whose elements carry their rank within a class.

An element may belong to a class `cls v`, and then `rank v` is meant to be the
number of earlier elements of that class. This is what ties a table of mixed
records to the separate arrays that hold the parts of one class each: a record
finds its part at its rank, and the array lists the parts in the order of the
records.
-/

namespace Ranks

variable {α κ : Type*} [DecidableEq κ] (cls : α → Option κ) (rank : α → Nat)

/-- The elements of class `k`, in order. -/
def members (l : List α) (k : κ) : List α := l.filter fun v => cls v = some k

/-- How many elements of class `k` there are. -/
def count (l : List α) (k : κ) : Nat := (members cls l k).length

/-- Every element with a class has the number of earlier members as its rank. -/
def Ranked (l : List α) : Prop :=
  ∀ i v k, l[i]? = some v → cls v = some k → rank v = count cls (l.take i) k

variable {cls rank} {l : List α} {v : α} {k : κ} {i j : Nat}

@[simp] theorem count_nil (k : κ) : count cls ([] : List α) k = 0 := rfl

@[simp] theorem members_append (l r : List α) (k : κ) :
    members cls (l ++ r) k = members cls l k ++ members cls r k := List.filter_append ..

@[simp] theorem count_append (l r : List α) (k : κ) :
    count cls (l ++ r) k = count cls l k + count cls r k := by
  rw [count, members_append, List.length_append]
  rfl

theorem count_singleton (v : α) (k : κ) :
    count cls [v] k = if cls v = some k then 1 else 0 := by
  rw [count, members, List.filter_singleton]
  split <;> simp_all

theorem members_cons_of_mem (l : List α) (member : cls v = some k) :
    members cls (v :: l) k = v :: members cls l k :=
  List.filter_cons_of_pos (by simpa using member)

theorem members_cons_of_not_mem (l : List α) (other : cls v ≠ some k) :
    members cls (v :: l) k = members cls l k :=
  List.filter_cons_of_neg (by simpa using other)

theorem count_cons (v : α) (l : List α) (k : κ) :
    count cls (v :: l) k = (if cls v = some k then 1 else 0) + count cls l k := by
  rw [← List.singleton_append, count_append, count_singleton]

theorem count_le_length (l : List α) (k : κ) : count cls l k ≤ l.length :=
  List.length_filter_le ..

theorem mem_members : v ∈ members cls l k ↔ v ∈ l ∧ cls v = some k := by
  rw [members, List.mem_filter, decide_eq_true_iff]

/-- A list around its element at `i`. -/
theorem split_at (at_i : l[i]? = some v) : l = l.take i ++ v :: l.drop (i + 1) := by
  obtain ⟨inside, eq⟩ := List.getElem?_eq_some_iff.mp at_i
  rw [← eq, List.getElem_cons_drop inside, List.take_append_drop]

/-- A member stands among the members at the number of earlier ones. -/
theorem members_getElem? (at_i : l[i]? = some v) (member : cls v = some k) :
    (members cls l k)[count cls (l.take i) k]? = some v := by
  have parted : members cls l k
      = members cls (l.take i) k ++ v :: members cls (l.drop (i + 1)) k := by
    conv_lhs => rw [split_at at_i]
    rw [members_append]
    rw [members_cons_of_mem _ member]
  rw [parted, count, List.getElem?_append_right (Nat.le_refl _), Nat.sub_self]
  rfl

theorem Ranked.members_rank (ranked : Ranked cls rank l) (at_i : l[i]? = some v)
    (member : cls v = some k) : (members cls l k)[rank v]? = some v := by
  rw [ranked i v k at_i member]
  exact members_getElem? at_i member

theorem Ranked.lt_count (ranked : Ranked cls rank l) (at_i : l[i]? = some v)
    (member : cls v = some k) : rank v < count cls l k := by
  have found := ranked.members_rank at_i member
  exact (List.getElem?_eq_some_iff.mp found).1

/-- Two members of one rank are one element. -/
theorem Ranked.index_unique (ranked : Ranked cls rank l) {w : α} (at_i : l[i]? = some v)
    (at_j : l[j]? = some w) (memberV : cls v = some k) (memberW : cls w = some k)
    (same : rank v = rank w) : i = j := by
  have apart : ∀ {i j : Nat} {v w : α}, l[i]? = some v → l[j]? = some w → cls v = some k →
      cls w = some k → i < j → rank v < rank w := by
    intro i j v w at_i at_j memberV memberW less
    rw [ranked j w k at_j memberW, ranked i v k at_i memberV]
    have later : l.take j = l.take i ++ (l.take j).drop i := by
      conv_lhs => rw [← List.take_append_drop i (l.take j)]
      rw [List.take_take, Nat.min_eq_left (Nat.le_of_lt less)]
    have here : v ∈ (l.take j).drop i := by
      rw [List.mem_iff_getElem?]
      exact ⟨0, by rw [List.getElem?_drop, List.getElem?_take_of_lt (by omega)]; exact at_i⟩
    have positive : 0 < count cls ((l.take j).drop i) k :=
      List.length_pos_of_mem (mem_members.mpr ⟨here, memberV⟩)
    rw [later, count_append]
    omega
  rcases Nat.lt_trichotomy i j with less | rfl | more
  · have := apart at_i at_j memberV memberW less
    omega
  · rfl
  · have := apart at_j at_i memberW memberV more
    omega

/-- Each position among the members is that of a member of the list. -/
theorem exists_index {r : Nat} (found : (members cls l k)[r]? = some v) :
    ∃ i, l[i]? = some v ∧ cls v = some k ∧ count cls (l.take i) k = r := by
  induction l generalizing r with
  | nil => cases found
  | cons w rest ih =>
      by_cases member : cls w = some k
      · rw [members_cons_of_mem rest member] at found
        cases r with
        | zero =>
            cases found
            exact ⟨0, rfl, member, rfl⟩
        | succ r =>
            obtain ⟨i, at_i, class_v, before⟩ := ih found
            refine ⟨i + 1, at_i, class_v, ?_⟩
            rw [List.take_succ_cons, count_cons, if_pos member, before, Nat.add_comm]
      · rw [members_cons_of_not_mem rest member] at found
        obtain ⟨i, at_i, class_v, before⟩ := ih found
        refine ⟨i + 1, at_i, class_v, ?_⟩
        rw [List.take_succ_cons, count_cons, if_neg member, before, Nat.zero_add]

/-- The element at a position among the members has that position as its rank. -/
theorem Ranked.of_members (ranked : Ranked cls rank l) {r : Nat}
    (found : (members cls l k)[r]? = some v) : rank v = r := by
  obtain ⟨i, at_i, member, before⟩ := exists_index found
  rw [ranked i v k at_i member, before]

theorem Ranked.nil : Ranked cls rank ([] : List α) := by
  intro i v k at_i
  cases at_i

/-- Pushing an element that has the next rank of its class. -/
theorem Ranked.push (ranked : Ranked cls rank l)
    (next : ∀ k, cls v = some k → rank v = count cls l k) : Ranked cls rank (l ++ [v]) := by
  intro i w k at_i member
  rcases Nat.lt_or_ge i l.length with less | more
  · rw [List.getElem?_append_left less] at at_i
    rw [List.take_append_of_le_length (Nat.le_of_lt less)]
    exact ranked i w k at_i member
  · rw [List.getElem?_append_right more] at at_i
    have last : i - l.length = 0 := by
      have := (List.getElem?_eq_some_iff.mp at_i).1
      simpa using this
    rw [last] at at_i
    cases at_i
    rw [show i = l.length by omega, List.take_left]
    exact next k member

/-! ## Lists by class -/

/-- The members of some classes, class after class: a member stands behind those of the
classes before its own. -/
theorem members_flatMap_getElem? (before after : List κ) {r : Nat}
    (found : (members cls l k)[r]? = some v) :
    ((before ++ k :: after).flatMap (members cls l))[(before.map (count cls l)).sum + r]?
      = some v := by
  induction before with
  | nil =>
      rw [List.nil_append, List.flatMap_cons, List.map_nil, List.sum_nil, Nat.zero_add]
      rw [List.getElem?_append_left (List.getElem?_eq_some_iff.mp found).1]
      exact found
  | cons k' before ih =>
      rw [List.cons_append, List.flatMap_cons, List.map_cons, List.sum_cons, Nat.add_assoc]
      rw [count, List.getElem?_append_right (Nat.le_add_right _ _), Nat.add_sub_cancel_left]
      exact ih

/-- Each position in such a list is that of a member of one of the classes. -/
theorem exists_of_members_flatMap {classes : List κ} {i : Nat}
    (found : (classes.flatMap (members cls l))[i]? = some v) :
    ∃ before k after r, classes = before ++ k :: after ∧ (members cls l k)[r]? = some v ∧
      i = (before.map (count cls l)).sum + r := by
  induction classes generalizing i with
  | nil => cases found
  | cons k rest ih =>
      rw [List.flatMap_cons] at found
      rcases Nat.lt_or_ge i (members cls l k).length with less | more
      · rw [List.getElem?_append_left less] at found
        exact ⟨[], k, rest, i, rfl, found, (Nat.zero_add i).symm⟩
      · rw [List.getElem?_append_right more] at found
        obtain ⟨before, k', after, r, split, at_r, index⟩ := ih found
        refine ⟨k :: before, k', after, r, congrArg (k :: ·) split, at_r, ?_⟩
        rw [List.map_cons, List.sum_cons, count]
        omega

theorem length_members_flatMap (classes : List κ) :
    (classes.flatMap (members cls l)).length = (classes.map (count cls l)).sum := by
  rw [List.length_flatMap]
  rfl

/-! ## Changes that keep class and rank -/

theorem count_eq_of_map {l' : List α} (classes : l'.map cls = l.map cls) (k : κ) :
    count cls l' k = count cls l k := by
  have asCount (l : List α) : count cls l k = (l.map cls).countP (· = some k) := by
    rw [List.countP_map, List.countP_eq_length_filter]
    rfl
  rw [asCount l', asCount l, classes]

/-- Elements may be replaced by others of the same class and rank. -/
theorem Ranked.of_map (ranked : Ranked cls rank l) {l' : List α}
    (classes : l'.map cls = l.map cls) (ranks : l'.map rank = l.map rank) :
    Ranked cls rank l' := by
  intro i w k at_i member
  have inside : i < l'.length := (List.getElem?_eq_some_iff.mp at_i).1
  have same : l'.length = l.length := by
    rw [← List.length_map (f := cls), classes, List.length_map]
  obtain ⟨v, old⟩ : ∃ v, l[i]? = some v := ⟨_, List.getElem?_eq_getElem (same ▸ inside)⟩
  have classAt := congrArg (fun m => m[i]?) classes
  have rankAt := congrArg (fun m => m[i]?) ranks
  simp only [List.getElem?_map, at_i, old, Option.map_some, Option.some.injEq] at classAt rankAt
  have before : (l'.take i).map cls = (l.take i).map cls := by
    rw [List.map_take, List.map_take, classes]
  rw [rankAt, count_eq_of_map before, ranked i v k old (classAt ▸ member)]

/-- A change in place that keeps what `g` sees of the elements. -/
theorem map_modify_of_eq {β : Type*} {g : α → β} {f : α → α} (same : ∀ v, g (f v) = g v)
    (l : List α) (i : Nat) : (l.modify i f).map g = l.map g := by
  refine List.ext_getElem? fun j => ?_
  rw [List.getElem?_map, List.getElem?_map, List.getElem?_modify]
  cases l[j]? with
  | none => rfl
  | some v =>
      simp only [Option.map_eq_map, Option.map_some]
      split
      · rw [same v]
      · rfl

end Ranks
