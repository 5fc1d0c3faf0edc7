import Pointless.CustomSort
import Pointless.Lib.ExceptRules

/-!
# What a sort leaves as it is

The sort reaches `user` through the two callbacks only: what both of them keep, a sort
that returns has kept, and a sort that stops does so as one of them does, or out of fuel.
Nothing is asked of the comparator beside that.
-/

namespace Pointless

open ExceptRules

variable {σ β : Type}

/-- The two callbacks keep a property of `user`, and stop in some ways only. -/
structure SortCallbacks.Keeps (cb : SortCallbacks σ) (I : σ → Prop) (bad : Stop → Prop) :
    Prop where
  cmp : ∀ {i j user}, I user → Post (fun out => I out.2) bad (cb.cmp i j user)
  swap : ∀ {i j user}, I user → Post I bad (cb.swap i j user)
  diverges : bad (.fault .diverges)

/-- The step keeps a property of `user` when it returns. -/
def KeepsUser (I : σ → Prop) (bad : Stop → Prop) (x : Res (β × SortState σ)) : Prop :=
  Post (fun out => I out.2.user) bad x

section Steps

variable {I : σ → Prop} {bad : Stop → Prop} {cb : SortCallbacks σ} {s : SortState σ}

theorem KeepsUser.pure {b : β} (kept : I s.user) : KeepsUser I bad (pure (b, s)) := kept

theorem KeepsUser.bind {α : Type} {x : Res (α × SortState σ)}
    {f : α × SortState σ → Res (β × SortState σ)} (first : KeepsUser I bad x)
    (next : ∀ a s, I s.user → KeepsUser I bad (f (a, s))) : KeepsUser I bad (x >>= f) :=
  Post.bind first fun out _ kept => next out.1 out.2 kept

variable (keeps : cb.Keeps I bad)

include keeps

/-- A comparison, followed by a step. -/
theorem SortCallbacks.Keeps.cmpAdapter {site : CallSite} {a b : Nat} {isError : Bool}
    (kept : I s.user) {f : Int × Bool × SortState σ → Res (β × SortState σ)}
    (next : ∀ c isError s, I s.user → KeepsUser I bad (f (c, isError, s))) :
    KeepsUser I bad (cmpAdapter cb site a b isError s >>= f) := by
  rw [Pointless.cmpAdapter, bind_assoc]
  apply Post.bind (keeps.cmp kept)
  intro out _ kept
  exact next _ _ _ kept

/-- A swap, followed by a step. -/
theorem SortCallbacks.Keeps.swapItems {a b : Nat} (kept : I s.user)
    {f : SortState σ → Res (β × SortState σ)} (next : ∀ s, I s.user → KeepsUser I bad (f s)) :
    KeepsUser I bad (swapItems cb a b s >>= f) := by
  rw [Pointless.swapItems, bind_assoc]
  apply Post.bind (keeps.swap kept)
  intro user _ kept
  exact next _ kept

theorem SortCallbacks.Keeps.vecswap (i j r : Nat) (kept : I s.user)
    {f : SortState σ → Res (β × SortState σ)} (next : ∀ s, I s.user → KeepsUser I bad (f s)) :
    KeepsUser I bad (vecswap cb i j r s >>= f) := by
  induction r generalizing i j s with
  | zero => exact next s kept
  | succ r ih =>
      rw [Pointless.vecswap, bind_assoc]
      apply keeps.swapItems kept
      intro s kept
      exact ih (i + 1) (j + 1) kept

/-! ## The loops -/

theorem SortCallbacks.Keeps.insertionInner (a k : Nat) (isError : Bool) (kept : I s.user) :
    KeepsUser I bad (insertionInner cb a k isError s) := by
  induction k generalizing isError s with
  | zero => exact KeepsUser.pure kept
  | succ k ih =>
      rw [Pointless.insertionInner]
      apply keeps.cmpAdapter kept
      intro c isError s kept
      dsimp only
      split
      · split
        · exact KeepsUser.pure kept
        · exact keeps.swapItems kept fun s kept => ih isError kept
      · exact KeepsUser.pure kept

theorem SortCallbacks.Keeps.insertionSort (a rounds k : Nat) (isError : Bool) (kept : I s.user) :
    KeepsUser I bad (insertionSort cb a rounds k isError s) := by
  induction rounds generalizing k isError s with
  | zero => exact KeepsUser.pure kept
  | succ rounds ih =>
      rw [Pointless.insertionSort]
      apply (keeps.insertionInner a k isError kept).bind
      intro out s kept
      cases out with
      | none => exact KeepsUser.pure kept
      | some isError => exact ih (k + 1) isError kept

theorem SortCallbacks.Keeps.presortedScan (rounds pm : Nat) (isError : Bool) (kept : I s.user) :
    KeepsUser I bad (presortedScan cb rounds pm isError s) := by
  induction rounds generalizing pm isError s with
  | zero => exact KeepsUser.pure kept
  | succ rounds ih =>
      rw [Pointless.presortedScan]
      apply keeps.cmpAdapter kept
      intro c isError s kept
      dsimp only
      split
      · exact KeepsUser.pure kept
      · exact ih (pm + 1) isError kept

theorem SortCallbacks.Keeps.scanUp (a left pa pb : Nat) (isError : Bool) (kept : I s.user) :
    KeepsUser I bad (scanUp cb a left pa pb isError s) := by
  induction left generalizing pa pb isError s with
  | zero => exact KeepsUser.pure kept
  | succ left ih =>
      rw [Pointless.scanUp]
      apply keeps.cmpAdapter kept
      intro r isError s kept
      dsimp only
      split
      · split
        · exact KeepsUser.pure kept
        · split
          · exact keeps.swapItems kept fun s kept => ih (pa + 1) (pb + 1) isError kept
          · exact ih pa (pb + 1) isError kept
      · exact KeepsUser.pure kept

theorem SortCallbacks.Keeps.scanDown (a left pc pd : Nat) (isError : Bool) (kept : I s.user) :
    KeepsUser I bad (scanDown cb a left pc pd isError s) := by
  induction left generalizing pc pd isError s with
  | zero => exact KeepsUser.pure kept
  | succ left ih =>
      rw [Pointless.scanDown]
      apply keeps.cmpAdapter kept
      intro r isError s kept
      dsimp only
      split
      · split
        · exact KeepsUser.pure kept
        · split
          · exact keeps.swapItems kept fun s kept => ih (pc - 1) (pd - 1) isError kept
          · exact ih (pc - 1) pd isError kept
      · exact KeepsUser.pure kept

theorem SortCallbacks.Keeps.partition (a fuel : Nat) (cur : Cursors) (isError : Bool)
    (kept : I s.user) : KeepsUser I bad (partition cb a fuel cur isError s) := by
  induction fuel generalizing cur isError s with
  | zero => exact keeps.diverges
  | succ fuel ih =>
      rw [Pointless.partition]
      apply (keeps.scanUp a _ _ _ isError kept).bind
      intro out s kept
      match out with
      | none => exact KeepsUser.pure kept
      | some (pa, pb, isError) =>
          apply (keeps.scanDown a _ _ _ isError kept).bind
          intro out s kept
          match out with
          | none => exact KeepsUser.pure kept
          | some (pc, pd, isError) =>
              dsimp only
              split
              · exact KeepsUser.pure kept
              · exact keeps.swapItems kept fun s kept => ih _ isError kept

/-! ## A pass -/

theorem SortCallbacks.Keeps.med3 (a b c : Nat) (kept : I s.user) :
    KeepsUser I bad (med3 cb a b c s) := by
  unfold Pointless.med3
  apply keeps.cmpAdapter kept
  intro ab isError s kept
  apply keeps.cmpAdapter kept
  intro bc isError s kept
  dsimp only
  split
  · split
    · exact KeepsUser.pure kept
    · exact keeps.cmpAdapter kept fun ac isError s kept => KeepsUser.pure kept
  · split
    · exact KeepsUser.pure kept
    · exact keeps.cmpAdapter kept fun ac isError s kept => KeepsUser.pure kept

theorem SortCallbacks.Keeps.candidates (a n : Nat) (kept : I s.user) :
    KeepsUser I bad (candidates cb a n s) := by
  unfold Pointless.candidates
  dsimp only
  split
  · apply (keeps.med3 _ _ _ kept).bind
    intro pl s kept
    apply (keeps.med3 _ _ _ kept).bind
    intro pm s kept
    apply (keeps.med3 _ _ _ kept).bind
    intro pn s kept
    dsimp only
    split <;> exact KeepsUser.pure kept
  · exact KeepsUser.pure kept

theorem SortCallbacks.Keeps.pivot (a n : Nat) (kept : I s.user) :
    KeepsUser I bad (pivot cb a n s) := by
  unfold Pointless.pivot
  split
  · apply (keeps.candidates a n kept).bind
    intro out s kept
    match out with
    | none => exact KeepsUser.pure kept
    | some (pl, pm, pn) => exact keeps.med3 _ _ _ kept
  · exact KeepsUser.pure kept

theorem SortCallbacks.Keeps.splitRange (a n : Nat) (isError : Bool) (kept : I s.user) :
    KeepsUser I bad (splitRange cb a n isError s) := by
  unfold Pointless.splitRange
  apply (keeps.pivot a n kept).bind
  intro out s kept
  match out with
  | none => exact KeepsUser.pure kept
  | some pm =>
      apply keeps.swapItems kept
      intro s kept
      apply (keeps.partition a n _ isError kept).bind
      intro out s kept
      match out with
      | none => exact KeepsUser.pure kept
      | some ⟨pa, pb, pc, pd⟩ =>
          apply keeps.vecswap _ _ _ kept
          intro s kept
          exact keeps.vecswap _ _ _ kept fun s kept => KeepsUser.pure kept

theorem SortCallbacks.Keeps.sortPass (a n : Nat) (kept : I s.user) :
    KeepsUser I bad (sortPass cb a n s) := by
  unfold Pointless.sortPass
  have next : I s.nextPass.user := kept
  dsimp only
  split
  · exact (keeps.insertionSort a _ _ _ next).bind fun out s kept => KeepsUser.pure kept
  · apply (keeps.presortedScan _ _ _ next).bind
    intro out s kept
    match out with
    | none => exact KeepsUser.pure kept
    | some (true, _) => exact KeepsUser.pure kept
    | some (false, isError) => exact keeps.splitRange a n isError kept

/-! ## The sort -/

theorem SortCallbacks.Keeps.bentleyQsortPriv (fuel a n : Nat) (kept : I s.user) :
    KeepsUser I bad (bentleyQsortPriv cb fuel a n s) := by
  induction fuel generalizing a n s with
  | zero => exact keeps.diverges
  | succ fuel ih =>
      rw [Pointless.bentleyQsortPriv]
      apply (keeps.sortPass a n kept).bind
      intro out s kept
      match out with
      | .returns result => exact KeepsUser.pure kept
      | .splits left right =>
          dsimp only
          split
          · apply (ih a left kept).bind
            intro result s kept
            dsimp only
            split
            · split
              · exact ih _ _ kept
              · exact KeepsUser.pure kept
            · exact KeepsUser.pure kept
          · split
            · exact ih _ _ kept
            · exact KeepsUser.pure kept

/-- What both callbacks keep, the sort keeps. -/
theorem SortCallbacks.Keeps.bentleySort (fuel n : Nat) {user : σ} (kept : I user) :
    KeepsUser I bad (bentleySort cb fuel n user) :=
  keeps.bentleyQsortPriv fuel 0 n (s := ⟨user, [], []⟩) kept

end Steps

/-- A sort changes no array's length. -/
theorem arrayCallbacks_keeps_length {α γ : Type} {bad : Stop → Prop} {cmp : Comparator α γ}
    (stops : ∀ i j items own, Post (fun _ => True) bad (cmp i j items own))
    (outside : bad (.fault .outOfBounds)) (diverges : bad (.fault .diverges)) (n : Nat) :
    (arrayCallbacks cmp).Keeps (fun user => user.items.length = n) bad where
  cmp := by
    intro i j user kept
    simp only [arrayCallbacks]
    split
    · exact Post.bind (stops i j user.items user.own) fun _ _ _ => kept
    · exact outside
  swap := by
    intro i j user kept
    simp only [arrayCallbacks]
    split
    · exact (InPlace.length_exchange i j user.items).trans kept
    · exact outside
  diverges := diverges

end Pointless
