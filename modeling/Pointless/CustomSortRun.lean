import Pointless.CustomSort

/-!
# What a run of the sort does to an array

Every part of `bentley_qsort_priv` gets one specification, for any comparator: it
ends, it rearranges the positions of its range, and `return 0` is reached exactly
where `is_error` is looked at at or after a failed call of the pass. The same
specification says what the part does to the order of the items when the comparator
computes a total preorder; this is the conclusion under `Computes`.
-/

namespace Pointless

open ExceptRules InPlace

/-! ## The calls of a pass -/

/-- `is_error` is looked at right after a call that has this outcome. -/
def CmpCall.looked (call : CmpCall) : Bool :=
  match call.site with
  | .insertion | .presorted => 0 < call.c
  | .median => !call.ok
  | .up => call.c ≤ 0
  | .down => 0 ≤ call.c

/-- Some call failed. -/
def Failed (calls : List CmpCall) : Prop := ∃ call ∈ calls, call.ok = false

/-- Of the calls of a pass, the latest first: `is_error` is looked at at a failed one or at one
that comes after it. -/
def Noticed : List CmpCall → Prop
  | [] => False
  | call :: earlier => Noticed earlier ∨ call.looked = true ∧ Failed (call :: earlier)

theorem failed_cons {call : CmpCall} {calls : List CmpCall} :
    Failed (call :: calls) ↔ call.ok = false ∨ Failed calls := by
  simp [Failed]

theorem Noticed.failed {calls : List CmpCall} (noticed : Noticed calls) : Failed calls := by
  induction calls with
  | nil => exact noticed.elim
  | cons call earlier ih =>
      rcases noticed with before | ⟨_, failed⟩
      · exact failed_cons.mpr (Or.inr (ih before))
      · exact failed

/-- What holds of `is_error` as long as a pass goes on. -/
structure Watched (isError : Bool) (calls : List CmpCall) : Prop where
  unnoticed : ¬Noticed calls
  flag : isError = true ↔ Failed calls

theorem Watched.nil : Watched false [] := ⟨fun none => none, by simp [Failed]⟩

variable {isError : Bool} {calls : List CmpCall}

theorem Watched.flag_cons (watched : Watched isError calls) (call : CmpCall) :
    (isError || !call.ok) = true ↔ Failed (call :: calls) := by
  rw [failed_cons, ← watched.flag, Bool.or_eq_true, Bool.not_eq_true', or_comm]

/-- A call after which `is_error` is not looked at, or is not set. -/
theorem Watched.cons (watched : Watched isError calls) (call : CmpCall)
    (passed : call.looked = false ∨ (isError || !call.ok) = false) :
    Watched (isError || !call.ok) (call :: calls) where
  unnoticed noticed := by
    rcases noticed with before | ⟨looked, failed⟩
    · exact watched.unnoticed before
    · rw [← watched.flag_cons call] at failed
      rcases passed with blind | clear
      · rw [blind] at looked
        cases looked
      · rw [clear] at failed
        cases failed
  flag := watched.flag_cons call

/-- A call after which `is_error` is looked at, and is set. -/
theorem Watched.notice (watched : Watched isError calls) (call : CmpCall)
    (looked : call.looked = true) (set : (isError || !call.ok) = true) : Noticed (call :: calls) :=
  Or.inr ⟨looked, (watched.flag_cons call).mp set⟩

/-- What a loop that may `return 0` has to say about the calls so far. -/
def Reported : Option Bool → List CmpCall → Prop
  | none, calls => Noticed calls
  | some isError, calls => Watched isError calls

/-! ## Comparators on an array -/

variable {α γ : Type}

/-- The comparator answers at every two positions of every rearrangement of the array. -/
def Defined (cmp : Comparator α γ) (xs : List α) : Prop :=
  ∀ ys, ys.Perm xs → ∀ i j g, i < ys.length → j < ys.length →
    ∃ answer, cmp i j ys g = .ok answer

/-- The comparator never fails, and the sign of `*c` is that of a total preorder on the two
items. -/
structure Computes (cmp : Comparator α γ) (le : α → α → Prop) (xs : List α) : Prop where
  total : ∀ x y, le x y ∨ le y x
  trans : ∀ x y z, le x y → le y z → le x z
  answers : ∀ ys, ys.Perm xs → ∀ i j x y g, ys[i]? = some x → ys[j]? = some y →
    ∀ answer own, cmp i j ys g = .ok (answer, own) →
      answer.1 = true ∧ (answer.2 ≤ 0 ↔ le x y) ∧ (0 ≤ answer.2 ↔ le y x)

/-- A state of a run on an array. -/
abbrev ArrayState (α γ : Type) := SortState (SortUser α γ)

/-- The action returns, and the result satisfies `Q`. -/
abbrev Finishes {β : Type} (Q : β → Prop) (action : Res β) : Prop := Post Q (fun _ => False) action

/-- What every part of a pass keeps, when it works on the positions `[lo, hi)`. -/
structure Kept (lo hi : Nat) (s s' : ArrayState α γ) : Prop where
  items : Rearranged lo hi s.user.items s'.user.items
  passes : s'.passes = s.passes

variable {s s' s'' : ArrayState α γ} {lo hi : Nat}

theorem Kept.refl (lo hi : Nat) (s : ArrayState α γ) : Kept lo hi s s :=
  ⟨Rearranged.refl lo hi _, rfl⟩

theorem Kept.trans (first : Kept lo hi s s') (second : Kept lo hi s' s'') : Kept lo hi s s'' :=
  ⟨first.items.trans second.items, second.passes.trans first.passes⟩

theorem Kept.widen {lo' hi' : Nat} (part : Kept lo' hi' s s') (lower : lo ≤ lo')
    (upper : hi' ≤ hi) : Kept lo hi s s' :=
  ⟨part.items.widen lower upper, part.passes⟩

/-- The state after a call of `cmp`. -/
def SortState.called (s : ArrayState α γ) (call : CmpCall) (own : γ) : ArrayState α γ :=
  { s with user := { s.user with own := own }, calls := call :: s.calls }

/-- The state after a call of `swap`. -/
def SortState.swapped (s : ArrayState α γ) (i j : Nat) : ArrayState α γ :=
  { s with user := { s.user with items := exchange i j s.user.items } }

@[simp] theorem called_items (call : CmpCall) (own : γ) :
    (s.called call own).user.items = s.user.items := rfl

@[simp] theorem called_calls (call : CmpCall) (own : γ) :
    (s.called call own).calls = call :: s.calls := rfl

@[simp] theorem swapped_items (i j : Nat) :
    (s.swapped i j).user.items = exchange i j s.user.items := rfl

@[simp] theorem swapped_calls (i j : Nat) : (s.swapped i j).calls = s.calls := rfl

theorem called_kept (lo hi : Nat) (call : CmpCall) (own : γ) : Kept lo hi s (s.called call own) :=
  ⟨Rearranged.refl lo hi _, rfl⟩

theorem swapped_kept {i j : Nat} (at_i : lo ≤ i ∧ i < hi) (at_j : lo ≤ j ∧ j < hi)
    (inside : hi ≤ s.user.items.length) : Kept lo hi s (s.swapped i j) :=
  ⟨exchange_rearranged at_i at_j inside, rfl⟩

section Runs

variable {cmp : Comparator α γ} {xs : List α} (le : α → α → Prop)

/-- A call of `cmp` at two positions of the array. -/
theorem cmpAdapter_runs (defined : Defined cmp xs) (perm : s.user.items.Perm xs)
    (site : CallSite) {i j : Nat} (hi : i < s.user.items.length) (hj : j < s.user.items.length)
    (isError : Bool) :
    ∃ ok c own,
      cmpAdapter (arrayCallbacks cmp) site i j isError s =
        .ok (c, isError || !ok, s.called ⟨site, ok, c⟩ own) ∧
      (Computes cmp le xs → ok = true ∧
        ∀ x y, s.user.items[i]? = some x → s.user.items[j]? = some y →
          (c ≤ 0 ↔ le x y) ∧ (0 ≤ c ↔ le y x)) := by
  obtain ⟨⟨⟨ok, c⟩, own⟩, answered⟩ := defined _ perm i j s.user.own hi hj
  refine ⟨ok, c, own, ?_, fun computes => ⟨?_, fun x y at_i at_j => ?_⟩⟩
  · simp only [cmpAdapter, arrayCallbacks, if_pos (And.intro hi hj), answered, ok_bind,
      pure_eq_ok, SortState.called]
  · exact (computes.answers _ perm i j _ _ _ (List.getElem?_eq_getElem hi)
      (List.getElem?_eq_getElem hj) _ _ answered).1
  · exact (computes.answers _ perm i j x y _ at_i at_j _ _ answered).2

/-- A call of `swap` at two positions of the array. -/
theorem swapItems_runs (cmp : Comparator α γ) {i j : Nat} (hi : i < s.user.items.length)
    (hj : j < s.user.items.length) :
    swapItems (arrayCallbacks cmp) i j s = .ok (s.swapped i j) := by
  simp only [swapItems, arrayCallbacks, if_pos (And.intro hi hj), ok_bind, pure_eq_ok,
    SortState.swapped]

/-! ## The insertion sort -/

/-- The loop that takes the item at `a + k` down to its place. -/
theorem insertionInner_ends (defined : Defined cmp xs) {a : Nat} (top k : Nat)
    {isError : Bool} {s : ArrayState α γ} (perm : s.user.items.Perm xs) (below : a + k < top)
    (inside : top ≤ s.user.items.length) (watched : Watched isError s.calls) :
    Finishes (fun out => Kept a top s out.2 ∧ Reported out.1 out.2.calls ∧
        (Computes cmp le xs → isError = false → out.1 = some false ∧
          (SortedBut le a top (a + k) s.user.items → SortedOn le a top out.2.user.items)))
      (insertionInner (arrayCallbacks cmp) a k isError s) := by
  induction k generalizing isError s with
  | zero =>
      refine ⟨Kept.refl a top s, watched, fun _ clear => ⟨by rw [clear], fun sorted => ?_⟩⟩
      exact sorted.bottom
  | succ k ih =>
      obtain ⟨ok, c, own, ran, sound⟩ := cmpAdapter_runs le defined perm .insertion
        (i := a + k) (j := a + k + 1) (by omega) (by omega) isError
      rw [insertionInner, ran, ok_bind]
      by_cases above : c > 0
      · simp only [if_pos above]
        by_cases set : (isError || !ok) = true
        · -- `is_error` is looked at in the body of the loop
          rw [if_pos set]
          refine ⟨called_kept a top _ own, watched.notice _ (decide_eq_true above) set, ?_⟩
          intro computes clear
          rw [clear, (sound computes).1] at set
          cases set
        · rw [if_neg set, swapItems_runs cmp (by simp; omega) (by simp; omega), ok_bind]
          rw [Bool.not_eq_true] at set
          have kept : Kept a top s
              ((s.called ⟨.insertion, ok, c⟩ own).swapped (a + k + 1) (a + k)) :=
            (called_kept a top _ own).trans
              (swapped_kept ⟨by omega, by omega⟩ ⟨by omega, by omega⟩ inside)
          refine Post.mono (ih (kept.items.perm.trans perm) (by omega) ?_ ?_) ?_ (fun _ no => no)
          · rw [kept.items.length_eq]
            exact inside
          · exact watched.cons ⟨.insertion, ok, c⟩ (Or.inr set)
          · intro out post
            refine ⟨kept.trans post.1, post.2.1, fun computes clear => ?_⟩
            obtain ⟨goesOn, sorts⟩ := post.2.2 computes set
            refine ⟨goesOn, fun sorted => sorts ?_⟩
            have sorted : SortedBut le a top (a + k + 1) s.user.items := sorted
            refine sorted.sink (by omega) (by omega) fun x y at_x at_y => ?_
            exact ((sound computes).2 x y at_x at_y).2.mp (by omega)
      · simp only [if_neg above]
        refine ⟨called_kept a top _ own,
          watched.cons ⟨.insertion, ok, c⟩ (Or.inl (decide_eq_false above)), ?_⟩
        intro computes clear
        refine ⟨by rw [clear, (sound computes).1]; rfl, fun sorted => ?_⟩
        refine sorted.settle computes.trans below fun x y at_x at_y => ?_
        exact ((sound computes).2 x y at_x at_y).1.mp (by omega)

/-- The insertion sort of the positions from `a`, of which the first `k` are in order. -/
theorem insertionSort_ends (defined : Defined cmp xs) {a : Nat} (rounds : Nat) {k : Nat}
    {isError : Bool} {s : ArrayState α γ} (perm : s.user.items.Perm xs)
    (inside : a + k + rounds ≤ s.user.items.length) (watched : Watched isError s.calls) :
    Finishes (fun out => Kept a (a + k + rounds) s out.2 ∧ Reported out.1 out.2.calls ∧
        (Computes cmp le xs → isError = false → out.1 = some false ∧
          (SortedOn le a (a + k) s.user.items →
            SortedOn le a (a + k + rounds) out.2.user.items)))
      (insertionSort (arrayCallbacks cmp) a rounds k isError s) := by
  induction rounds generalizing k isError s with
  | zero =>
      exact ⟨Kept.refl a _ s, watched, fun _ clear => ⟨by rw [clear], fun sorted => sorted⟩⟩
  | succ rounds ih =>
      rw [insertionSort]
      refine Post.bind (insertionInner_ends le defined (a + k + 1) k perm (by omega)
        (by omega) watched) ?_
      intro out _ post
      obtain ⟨result, s'⟩ := out
      obtain ⟨kept, reported, sorts⟩ := post
      have kept := kept.widen (le_refl a) (show a + k + 1 ≤ a + k + (rounds + 1) by omega)
      cases result with
      | none =>
          refine ⟨kept, reported, fun computes clear => ?_⟩
          cases (sorts computes clear).1
      | some isError' =>
          have shift : a + (k + 1) + rounds = a + k + (rounds + 1) := by omega
          have next := ih (k := k + 1) (kept.items.perm.trans perm)
            (by rw [kept.items.length_eq]; omega) reported
          rw [shift] at next
          refine Post.mono next ?_ (fun _ no => no)
          intro out post
          refine ⟨kept.trans post.1, post.2.1, fun computes clear => ?_⟩
          obtain ⟨goesOn, inner⟩ := sorts computes clear
          obtain ⟨last, outer⟩ := post.2.2 computes (Option.some.inj goesOn)
          exact ⟨last, fun sorted => outer (inner sorted.insert)⟩

/-! ## The scan for a presorted range -/

theorem presortedScan_ends (defined : Defined cmp xs) {a : Nat} (rounds : Nat) {k : Nat}
    {isError : Bool} {s : ArrayState α γ} (perm : s.user.items.Perm xs) (some_k : 0 < k)
    (inside : a + k + rounds ≤ s.user.items.length) (watched : Watched isError s.calls) :
    Finishes (fun out => Kept a (a + k) s out.2 ∧ out.2.user.items = s.user.items ∧
        Reported (out.1.map Prod.snd) out.2.calls ∧
        (∀ e, out.1 = some (false, e) → e = false) ∧
        (Computes cmp le xs → isError = false → ∃ presorted, out.1 = some (presorted, false) ∧
          (presorted = true → SortedOn le a (a + k) s.user.items →
            SortedOn le a (a + k + rounds) s.user.items)))
      (presortedScan (arrayCallbacks cmp) rounds (a + k) isError s) := by
  induction rounds generalizing k isError s with
  | zero =>
      refine ⟨Kept.refl a _ s, rfl, watched, ?_, fun _ clear => ?_⟩
      · intro e ends
        cases ends
      · exact ⟨true, by rw [clear], fun _ sorted => sorted⟩
  | succ rounds ih =>
      obtain ⟨ok, c, own, ran, sound⟩ := cmpAdapter_runs le defined perm .presorted
        (i := a + k - 1) (j := a + k) (by omega) (by omega) isError
      rw [presortedScan, ran, ok_bind]
      by_cases above : c > 0
      · simp only [if_pos above]
        by_cases set : (isError || !ok) = true
        · rw [if_pos set]
          refine ⟨called_kept a _ _ own, rfl, watched.notice _ (decide_eq_true above) set,
            fun e ends => (by cases ends), fun computes clear => ?_⟩
          rw [clear, (sound computes).1] at set
          cases set
        · rw [if_neg set]
          rw [Bool.not_eq_true] at set
          have watched' := watched.cons ⟨.presorted, ok, c⟩ (Or.inr set)
          rw [set] at watched'
          refine ⟨called_kept a _ _ own, rfl, ?_, fun e ends => ?_, fun computes clear => ?_⟩
          · rw [set]
            exact watched'
          · rw [set] at ends
            cases ends
            rfl
          · exact ⟨false, by rw [set], fun no => by cases no⟩
      · simp only [if_neg above]
        have next := ih (k := k + 1) (s := s.called ⟨.presorted, ok, c⟩ own) perm (by omega)
          (by simp only [called_items]; omega)
          (watched.cons ⟨.presorted, ok, c⟩ (Or.inl (decide_eq_false above)))
        have shift : a + (k + 1) + rounds = a + k + (rounds + 1) := by omega
        rw [shift] at next
        refine Post.mono next ?_ (fun _ no => no)
        intro out post
        refine ⟨⟨?_, post.1.passes⟩, post.2.1, post.2.2.1, post.2.2.2.1, fun computes clear => ?_⟩
        · rw [post.2.1]
          exact Rearranged.refl a _ _
        · obtain ⟨presorted, ends, sorts⟩ := post.2.2.2.2 computes
            (by rw [clear, (sound computes).1]; rfl)
          refine ⟨presorted, ends, fun yes sorted => sorts yes (sorted.snoc fun y at_y => ?_)⟩
          intro i x lower upper at_i
          -- every item before is at most the last, which is at most this one
          obtain ⟨z, at_z⟩ : ∃ z, s.user.items[a + k - 1]? = some z :=
            ⟨_, List.getElem?_eq_getElem (by omega)⟩
          have next_le := ((sound computes).2 z y at_z at_y).1.mp (by omega)
          by_cases last : i = a + k - 1
          · rw [last, at_z] at at_i
            cases at_i
            exact next_le
          · apply computes.trans x z y
            · exact sorted i (a + k - 1) x z lower (by omega) (by omega) at_i at_z
            · exact next_le

end Runs

end Pointless
