import Mathlib.Data.List.Basic
import Mathlib.Data.List.Forall2

/-!
Objects placed one after another at aligned positions.

`places a at sizes` are the positions of objects of the given sizes, the first one at `at`
and each at the next multiple of `a` behind the one before it. Positions that are computed
from sizes which fall short of the real ones by multiples of `a` agree with the real
positions exactly when no size but the last one falls short (`places_eq_iff`).
-/

namespace Placement

variable {a : Nat}

/-- The next multiple of `a`. -/
def alignUp (a n : Nat) : Nat := n + (a - n % a) % a

/-- The positions of objects of the given sizes. -/
def places (a : Nat) : Nat → List Nat → List Nat
  | _, [] => []
  | start, size :: rest => start :: places a (alignUp a (start + size)) rest

/-- Where the next object would go. -/
def finish (a : Nat) : Nat → List Nat → Nat
  | start, [] => start
  | start, size :: rest => finish a (alignUp a (start + size)) rest

theorem le_alignUp (a n : Nat) : n ≤ alignUp a n := Nat.le_add_right _ _

theorem dvd_alignUp (positive : 0 < a) (n : Nat) : a ∣ alignUp a n := by
  have less := Nat.mod_lt n positive
  rcases Nat.eq_zero_or_pos (n % a) with zero | some_
  · rw [alignUp, zero, Nat.sub_zero, Nat.mod_self, Nat.add_zero]
    exact Nat.dvd_of_mod_eq_zero zero
  · rw [alignUp, Nat.mod_eq_of_lt (Nat.sub_lt positive some_)]
    have parts := Nat.div_add_mod n a
    refine ⟨n / a + 1, ?_⟩
    rw [Nat.mul_add, Nat.mul_one]
    omega

theorem alignUp_add (multiple : a ∣ k) (n : Nat) : alignUp a (n + k) = alignUp a n + k := by
  obtain ⟨m, rfl⟩ := multiple
  rw [alignUp, alignUp, Nat.add_mul_mod_self_left]
  omega

@[simp] theorem length_places (a start : Nat) (sizes : List Nat) :
    (places a start sizes).length = sizes.length := by
  induction sizes generalizing start with
  | nil => rfl
  | cons size rest ih => exact congrArg Nat.succ (ih _)

theorem le_finish (a start : Nat) (sizes : List Nat) : start ≤ finish a start sizes := by
  induction sizes generalizing start with
  | nil => exact Nat.le_refl _
  | cons size rest ih =>
      have next := ih (alignUp a (start + size))
      have up := le_alignUp a (start + size)
      rw [finish]
      omega

theorem alignUp_mono {m n : Nat} (positive : 0 < a) (le : m ≤ n) : alignUp a m ≤ alignUp a n := by
  obtain ⟨k, upper⟩ := dvd_alignUp positive n
  obtain ⟨j, lower⟩ := dvd_alignUp positive m
  have above := le_alignUp a n
  have near : alignUp a m < m + a := Nat.add_lt_add_left (Nat.mod_lt _ positive) m
  rw [upper] at above ⊢
  rw [lower] at near ⊢
  refine Nat.mul_le_mul_left a (Nat.le_of_lt_succ ?_)
  refine Nat.lt_of_mul_lt_mul_left (a := a) ?_
  rw [Nat.mul_succ]
  omega

theorem finish_mono (positive : 0 < a) {start start' : Nat} {ms ns : List Nat}
    (le : start ≤ start') (sizes : List.Forall₂ (· ≤ ·) ms ns) :
    finish a start ms ≤ finish a start' ns := by
  induction sizes generalizing start start' with
  | nil => exact le
  | cons first rest ih => exact ih (alignUp_mono positive (Nat.add_le_add le first))

/-- A shift of the first position shifts all of them. -/
theorem places_shift (multiple : a ∣ k) (start : Nat) (sizes : List Nat) :
    places a (k + start) sizes = (places a start sizes).map (k + ·) := by
  induction sizes generalizing start with
  | nil => rfl
  | cons size rest ih =>
      rw [places, places, List.map_cons, ← ih, Nat.add_comm k start, Nat.add_right_comm,
        alignUp_add multiple, Nat.add_comm k (alignUp _ _)]

/-- Every position is a multiple of `a`. -/
theorem dvd_of_mem_places (positive : 0 < a) {start off : Nat} {sizes : List Nat}
    (multiple : a ∣ start) (mem : off ∈ places a start sizes) : a ∣ off := by
  induction sizes generalizing start with
  | nil => cases mem
  | cons size rest ih =>
      rcases List.mem_cons.mp mem with rfl | later
      · exact multiple
      · exact ih (dvd_alignUp positive _) later

/-- A size that falls short by a multiple of `a`. -/
def ShortOf (a m n : Nat) : Prop := m ≤ n ∧ a ∣ n - m

theorem alignUp_short (start : Nat) {m n : Nat} (short : ShortOf a m n) :
    alignUp a (start + n) = alignUp a (start + m) + (n - m) := by
  rw [← alignUp_add short.2]
  congr 1
  have := short.1
  omega

theorem places_eq_iff {start : Nat} {ms ns : List Nat} (short : List.Forall₂ (ShortOf a) ms ns) :
    places a start ms = places a start ns ↔ ms.dropLast = ns.dropLast := by
  induction short generalizing start with
  | nil => exact ⟨fun _ => rfl, fun _ => rfl⟩
  | @cons m n ms ns first rest ih =>
      cases rest with
      | nil => exact ⟨fun _ => rfl, fun _ => rfl⟩
      | @cons m' n' ms ns second rest =>
          have whole := first.1
          have next : places a start (n :: n' :: ns)
              = start :: places a (alignUp a (start + m) + (n - m)) (n' :: ns) := by
            rw [← alignUp_short start first]
            rfl
          rw [List.dropLast_cons_cons, List.dropLast_cons_cons, List.cons.injEq, next]
          constructor
          · intro same
            have later := (List.cons.inj same).2
            have shift : alignUp a (start + m) = alignUp a (start + m) + (n - m) :=
              (List.cons.inj later).1
            rw [← shift] at later
            exact ⟨by omega, ih.mp later⟩
          · intro same
            obtain ⟨rfl, later⟩ := same
            rw [Nat.sub_self, Nat.add_zero]
            exact congrArg (start :: ·) (ih.mpr later)

/-- Lists agree up to the last element exactly if they do so element by element. -/
theorem dropLast_eq_iff {α : Type} {xs ys : List α} (lengths : xs.length = ys.length) :
    xs.dropLast = ys.dropLast ↔
      ∀ i x y, i + 1 < xs.length → xs[i]? = some x → ys[i]? = some y → x = y := by
  constructor
  · intro same i x y less at_x at_y
    have here := congrArg (fun l => l[i]?) same
    rw [List.dropLast_eq_take, List.dropLast_eq_take,
      List.getElem?_take_of_lt (by omega), List.getElem?_take_of_lt (by omega), at_x, at_y] at here
    exact Option.some.inj here
  · intro same
    refine List.ext_getElem (by simp only [List.length_dropLast, lengths]) fun i less less' => ?_
    rw [List.length_dropLast] at less less'
    rw [List.getElem_dropLast, List.getElem_dropLast]
    exact same i _ _ (by omega) (List.getElem?_eq_getElem _) (List.getElem?_eq_getElem _)

end Placement
