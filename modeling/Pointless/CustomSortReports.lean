import Pointless.CustomSortSound

/-!
# Which failures the sort reports

A failed call sets `is_error`, and most places that look at `is_error` are behind a test
of `*c`. Whether a failure is reported is therefore a matter of what the comparator leaves
in `*c` when it fails, and of its next answer: `FailureMode` is such a way to fail, and
`FailureMode.Seen` the ways that `bentley_sort_` reports for every comparator that fails
so, on every array.

The positions of a call tell its place. Neighbours `i`, `i + 1` are compared by the
insertion sort and by the scan for a presorted range, a position is compared with an
earlier one by the two scans of the partition, and all others by `med3`, which reports
every failure.
-/

namespace Pointless

open ExceptRules

/-! ## Ways to fail -/

/-- A way to fail: `near c` if a failing call on `i` and `i + 1` may leave `c` in `*c`, and
`back c c'` if one on a position and an earlier one may leave `c`, when the next comparison
with that earlier position, of the same or a later position, answers `c'`. -/
structure FailureMode where
  near : Int → Prop
  back : Int → Int → Prop

/-- A failing call on neighbours leaves a positive number. One on a position and an earlier
one leaves 0, or a positive number, and then the next answer is not negative. -/
def FailureMode.Seen (mode : FailureMode) : Prop :=
  (∀ c, mode.near c → 0 < c) ∧ ∀ c c', mode.back c c' → c = 0 ∨ 0 < c ∧ 0 ≤ c'

section Comparators

variable {α γ : Type}

/-- The comparator fails in this way only. Nothing is said of its failures on two positions
that are neither neighbours nor in descending order. -/
structure FailsBy (mode : FailureMode) (cmp : Nat → Nat → List α → γ → (Bool × Int) × γ) :
    Prop where
  near : ∀ i ys g, (cmp i (i + 1) ys g).1.1 = false → mode.near (cmp i (i + 1) ys g).1.2
  back : ∀ i j ys g, j < i → (cmp i j ys g).1.1 = false → ∀ i', i ≤ i' →
    mode.back (cmp i j ys g).1.2 (cmp i' j ys (cmp i j ys g).2).1.2

/-- Some call of the run failed. -/
def SomeFailed {σ : Type} (s : SortState σ) : Prop := ∃ calls ∈ s.allPasses, Failed calls

/-- The sort of any array ends, with the items rearranged, and returns 0 if and only if a call
of the comparator failed. -/
def Reports (cmp : Nat → Nat → List α → γ → (Bool × Int) × γ) : Prop :=
  ∀ xs own fuel, xs.length < fuel →
    ∃ result s, bentleySort (arrayCallbacks (total cmp)) fuel xs.length ⟨xs, own⟩ =
        .ok (result, s) ∧
      s.user.items.Perm xs ∧ (result = false ↔ SomeFailed s)

end Comparators

/-! ## Callbacks whose failures are seen -/

variable {σ : Type} {cb : SortCallbacks σ}

/-- The failures of these callbacks are in the ways that are seen. -/
structure SortCallbacks.Warns (cb : SortCallbacks σ) : Prop where
  near : ∀ {i user c user'}, cb.cmp i (i + 1) user = .ok ((false, c), user') → 0 < c
  back : ∀ {i j user c user'}, j < i → cb.cmp i j user = .ok ((false, c), user') → 0 ≤ c
  next : ∀ {i j user c user'}, j < i → cb.cmp i j user = .ok ((false, c), user') → 0 < c →
    ∀ {i'} answer user'', i ≤ i' → cb.cmp i' j user' = .ok (answer, user'') → 0 ≤ answer.2

theorem FailsBy.warns {α γ : Type} {mode : FailureMode}
    {cmp : Nat → Nat → List α → γ → (Bool × Int) × γ} (fails : FailsBy mode cmp)
    (seen : mode.Seen) : (arrayCallbacks (total cmp)).Warns := by
  obtain ⟨near, back⟩ := seen
  -- a call that returned is one of the comparator
  have called : ∀ {i j : Nat} {user user' : SortUser α γ} {answer : Bool × Int},
      (arrayCallbacks (total cmp)).cmp i j user = .ok (answer, user') →
      answer = (cmp i j user.items user.own).1 ∧
        user' = { user with own := (cmp i j user.items user.own).2 } := by
    intro i j user user' answer ran
    simp only [arrayCallbacks, total] at ran
    split at ran
    · cases ran
      exact ⟨rfl, rfl⟩
    · cases ran
  refine ⟨fun {i user c user'} ran => ?_, fun {i j user c user'} below ran => ?_,
    fun {i j user c user'} below ran positive i' answer user'' later ran' => ?_⟩
  · obtain ⟨same, -⟩ := called ran
    have failed := fails.near i user.items user.own (congrArg Prod.fst same).symm
    rw [← same] at failed
    exact near c failed
  · obtain ⟨same, -⟩ := called ran
    have failed := fails.back i j user.items user.own below (congrArg Prod.fst same).symm i
      (le_refl i)
    rw [← same] at failed
    rcases back c _ failed with zero | ⟨positive, -⟩
    · exact le_of_eq zero.symm
    · exact le_of_lt positive
  · obtain ⟨same, left⟩ := called ran
    obtain ⟨same', -⟩ := called ran'
    have failed := fails.back i j user.items user.own below (congrArg Prod.fst same).symm i' later
    rw [left] at same'
    rw [← same, ← same'] at failed
    rcases back c answer.2 failed with zero | ⟨-, next⟩
    · omega
    · exact next

/-- If the action returns, the result satisfies `Q`. -/
abbrev Yields {β : Type} (Q : β → Prop) (action : Res β) : Prop := Post Q (fun _ => True) action

/-- The state after a call of `cmp`. -/
def SortState.answered (s : SortState σ) (call : CmpCall) (user : σ) : SortState σ :=
  { s with user := user, calls := call :: s.calls }

theorem someFailed_answered {s : SortState σ} {call : CmpCall} {user : σ} :
    SomeFailed (s.answered call user) ↔ call.ok = false ∨ SomeFailed s := by
  simp [SomeFailed, SortState.allPasses, SortState.answered, failed_cons, or_assoc]

theorem someFailed_nextPass {s : SortState σ} : SomeFailed s.nextPass ↔ SomeFailed s := by
  simp [SomeFailed, SortState.allPasses, SortState.nextPass, Failed]

section Steps

variable {β : Type} {Q : β → Prop} {s : SortState σ}

/-- A comparison, followed by a step. -/
theorem cmpAdapter_yields {site : CallSite} {a b : Nat} {isError : Bool}
    {f : Int × Bool × SortState σ → Res β}
    (next : ∀ ok c user, cb.cmp a b s.user = .ok ((ok, c), user) →
      Yields Q (f (c, isError || !ok, s.answered ⟨site, ok, c⟩ user))) :
    Yields Q (cmpAdapter cb site a b isError s >>= f) := by
  rw [cmpAdapter, bind_assoc]
  refine Post.bind (post_true _) fun out ran _ => ?_
  obtain ⟨⟨ok, c⟩, user⟩ := out
  exact next ok c user ran

/-- The same before any call has failed. -/
theorem cmpAdapter_first {site : CallSite} {a b : Nat} {f : Int × Bool × SortState σ → Res β}
    (quiet : ¬SomeFailed s)
    (fails : ∀ c user, cb.cmp a b s.user = .ok ((false, c), user) →
      Yields Q (f (c, true, s.answered ⟨site, false, c⟩ user)))
    (passes : ∀ c s, ¬SomeFailed s → Yields Q (f (c, false, s))) :
    Yields Q (cmpAdapter cb site a b false s >>= f) := by
  apply cmpAdapter_yields
  intro ok c user ran
  cases ok with
  | false => exact fails c user ran
  | true =>
      refine passes c _ fun failed => ?_
      rcases someFailed_answered.mp failed with no | before
      · cases no
      · exact quiet before

/-- A swap, followed by a step. No call fails in it. -/
theorem swapItems_yields {a b : Nat} {f : SortState σ → Res β} (quiet : ¬SomeFailed s)
    (next : ∀ s, ¬SomeFailed s → Yields Q (f s)) : Yields Q (swapItems cb a b s >>= f) := by
  rw [swapItems, bind_assoc]
  refine Post.bind (post_true _) fun user _ _ => ?_
  exact next { s with user := user } quiet

theorem vecswap_yields (i j r : Nat) {f : SortState σ → Res β} (quiet : ¬SomeFailed s)
    (next : ∀ s, ¬SomeFailed s → Yields Q (f s)) : Yields Q (vecswap cb i j r s >>= f) := by
  induction r generalizing i j s with
  | zero => exact next s quiet
  | succ r ih =>
      rw [vecswap, bind_assoc]
      apply swapItems_yields quiet
      intro s quiet
      exact ih (i + 1) (j + 1) quiet

/-! ## The loops on neighbours -/

/-- Either the function returns 0, or no call has failed and `is_error` is clear. -/
def InTime (out : Option Bool × SortState σ) : Prop :=
  out.1 = none ∨ out.1 = some false ∧ ¬SomeFailed out.2

theorem SortCallbacks.Warns.insertionInner (warns : cb.Warns) (a k : Nat)
    (quiet : ¬SomeFailed s) : Yields InTime (insertionInner cb a k false s) := by
  induction k generalizing s with
  | zero => exact Or.inr ⟨rfl, quiet⟩
  | succ k ih =>
      rw [Pointless.insertionInner]
      apply cmpAdapter_first quiet
      · intro c user ran
        have above : c > 0 := warns.near ran
        simp only [if_pos above]
        exact Or.inl rfl
      · intro c s quiet
        by_cases above : c > 0
        · simp only [if_pos above]
          exact swapItems_yields quiet fun s quiet => ih quiet
        · simp only [if_neg above]
          exact Or.inr ⟨rfl, quiet⟩

theorem SortCallbacks.Warns.insertionSort (warns : cb.Warns) (a rounds k : Nat)
    (quiet : ¬SomeFailed s) : Yields InTime (insertionSort cb a rounds k false s) := by
  induction rounds generalizing k s with
  | zero => exact Or.inr ⟨rfl, quiet⟩
  | succ rounds ih =>
      rw [Pointless.insertionSort]
      apply Post.bind (warns.insertionInner a k quiet)
      intro out _ inTime
      obtain ⟨out, s⟩ := out
      rcases inTime with stopped | ⟨clear, quiet⟩
      · cases stopped
        exact Or.inl rfl
      · cases clear
        exact ih (k + 1) quiet

theorem SortCallbacks.Warns.presortedScan (warns : cb.Warns) (rounds k : Nat)
    (quiet : ¬SomeFailed s) :
    Yields (fun out => InTime (out.1.map Prod.snd, out.2))
      (presortedScan cb rounds (k + 1) false s) := by
  induction rounds generalizing k s with
  | zero => exact Or.inr ⟨rfl, quiet⟩
  | succ rounds ih =>
      rw [Pointless.presortedScan]
      apply cmpAdapter_first quiet
      · intro c user ran
        have above : c > 0 := warns.near ran
        simp only [if_pos above]
        exact Or.inl rfl
      · intro c s quiet
        by_cases above : c > 0
        · simp only [if_pos above]
          exact Or.inr ⟨rfl, quiet⟩
        · simp only [if_neg above]
          exact ih (k + 1) quiet

/-! ## The partition -/

/-- Either the function returns 0, or no call has failed. -/
def Told {α : Type} (out : Option α × SortState σ) : Prop := out.1 = none ∨ ¬SomeFailed out.2

/-- How the first scan ends, on the positions `[pb, top)`. A call that failed without a
`return 0` is its last, and warns of a next answer that is not negative. -/
inductive ScanEnd (cb : SortCallbacks σ) (a pb top : Nat) :
    Option (Nat × Nat × Bool) × SortState σ → Prop
  | stopped s : ScanEnd cb a pb top (none, s)
  | clear pa pb' s : pb ≤ pb' → ¬SomeFailed s → ScanEnd cb a pb top (some (pa, pb', false), s)
  | warned pa pb' s : pb ≤ pb' → pb' < top →
      (∀ i answer user, pb' ≤ i → cb.cmp i a s.user = .ok (answer, user) → 0 ≤ answer.2) →
      ScanEnd cb a pb top (some (pa, pb', true), s)

theorem ScanEnd.later {a pb pb' top : Nat} {out : Option (Nat × Nat × Bool) × SortState σ}
    (ends : ScanEnd cb a pb' top out) (later : pb ≤ pb') : ScanEnd cb a pb top out := by
  cases ends with
  | stopped s => exact .stopped s
  | clear pa pb'' s lower quiet => exact .clear pa pb'' s (later.trans lower) quiet
  | warned pa pb'' s lower upper next =>
      exact .warned pa pb'' s (later.trans lower) upper next

theorem SortCallbacks.Warns.scanUp (warns : cb.Warns) {a : Nat} (left pa : Nat) {pb : Nat}
    (above : a < pb) (quiet : ¬SomeFailed s) :
    Yields (ScanEnd cb a pb (pb + left)) (scanUp cb a left pa pb false s) := by
  induction left generalizing pa pb s with
  | zero => exact .clear pa pb s (le_refl pb) quiet
  | succ left ih =>
      have shift : pb + (left + 1) = pb + 1 + left := by omega
      -- the rest of the scan, from the next position on
      have goesOn : ∀ pa s, ¬SomeFailed s →
          Yields (ScanEnd cb a pb (pb + (left + 1)))
            (Pointless.scanUp cb a left pa (pb + 1) false s) := by
        intro pa s quiet
        rw [shift]
        refine Post.mono (ih pa (by omega) quiet) (fun out ends => ?_) fun _ _ => trivial
        exact ends.later (Nat.le_succ pb)
      rw [Pointless.scanUp]
      apply cmpAdapter_first quiet
      · intro c user ran
        by_cases most : c ≤ 0
        · simp only [if_pos most]
          exact .stopped _
        · simp only [if_neg most]
          refine .warned pa pb _ (le_refl pb) (by omega) fun i answer user' later ran' => ?_
          exact warns.next above ran (by omega) answer user' later ran'
      · intro c s quiet
        by_cases most : c ≤ 0
        · simp only [if_pos most]
          by_cases level : c = 0
          · simp only [if_pos level]
            exact swapItems_yields quiet fun s quiet => goesOn (pa + 1) s quiet
          · simp only [if_neg level]
            exact goesOn pa s quiet
        · simp only [if_neg most]
          exact .clear pa pb s (le_refl pb) quiet

theorem SortCallbacks.Warns.scanDown (warns : cb.Warns) {a : Nat} (left : Nat) {pc : Nat}
    (pd : Nat) (above : a + left ≤ pc) (quiet : ¬SomeFailed s) :
    Yields (fun out => InTime (out.1.map fun t => t.2.2, out.2))
      (scanDown cb a left pc pd false s) := by
  induction left generalizing pc pd s with
  | zero => exact Or.inr ⟨rfl, quiet⟩
  | succ left ih =>
      rw [Pointless.scanDown]
      apply cmpAdapter_first quiet
      · intro c user ran
        have least : c ≥ 0 := warns.back (show a < pc by omega) ran
        simp only [if_pos least]
        exact Or.inl rfl
      · intro c s quiet
        by_cases least : c ≥ 0
        · simp only [if_pos least]
          by_cases level : c = 0
          · simp only [if_pos level]
            exact swapItems_yields quiet fun s quiet => ih (pd - 1) (by omega) quiet
          · simp only [if_neg level]
            exact ih pd (by omega) quiet
        · simp only [if_neg least]
          exact Or.inr ⟨rfl, quiet⟩

/-- The second scan looks at `is_error` when its first answer is not negative. -/
theorem scanDown_stops {a left pc pd : Nat}
    (next : ∀ answer user, cb.cmp pc a s.user = .ok (answer, user) → 0 ≤ answer.2) :
    Yields (fun out => out.1 = none) (scanDown cb a (left + 1) pc pd true s) := by
  rw [scanDown]
  apply cmpAdapter_yields
  intro ok c user ran
  have least : c ≥ 0 := next _ _ ran
  simp only [if_pos least]
  exact rfl

theorem SortCallbacks.Warns.partition (warns : cb.Warns) {a : Nat} (fuel : Nat) {cur : Cursors}
    (above : a < cur.pb) (high : a ≤ cur.pc) (quiet : ¬SomeFailed s) :
    Yields Told (partition cb a fuel cur false s) := by
  induction fuel generalizing cur s with
  | zero => exact trivial
  | succ fuel ih =>
      obtain ⟨pa, pb, pc, pd⟩ := cur
      simp only at above high
      rw [Pointless.partition]
      apply Post.bind (warns.scanUp (pc + 1 - pb) pa above quiet)
      intro out _ ends
      cases ends with
      | stopped s => exact Or.inl rfl
      | clear pa pb' s lower quiet =>
          apply Post.bind (warns.scanDown (pc + 1 - pb') pd (by omega) quiet)
          intro out _ inTime
          obtain ⟨out, s⟩ := out
          cases out with
          | none => exact Or.inl rfl
          | some t =>
              obtain ⟨pc', pd', isError⟩ := t
              rcases inTime with no | ⟨same, quiet⟩
              · cases no
              · cases same
                by_cases crossed : pb' > pc'
                · simp only [if_pos crossed]
                  exact Or.inr quiet
                · simp only [if_neg crossed]
                  apply swapItems_yields quiet
                  intro s quiet
                  exact ih (by simp only; omega) (by simp only; omega) quiet
      | warned pa pb' s lower upper next =>
          -- there is a next call, at `pc`
          obtain ⟨left, more⟩ : ∃ left, pc + 1 - pb' = left + 1 :=
            ⟨pc - pb', by omega⟩
          simp only [more]
          apply Post.bind (scanDown_stops fun answer user => next pc answer user (by omega))
          intro out _ stopped
          obtain ⟨out, s⟩ := out
          cases stopped
          exact Or.inl rfl

/-! ## A pass -/

section Median

variable {earlier : Prop}

/-- A comparison when `is_error` has been set by every failed call, but for the earlier ones. -/
theorem cmpAdapter_marked {site : CallSite} {a b : Nat} {isError : Bool}
    {f : Int × Bool × SortState σ → Res β} (marked : SomeFailed s → isError = true ∨ earlier)
    (next : ∀ c isError s, (SomeFailed s → isError = true ∨ earlier) →
      Yields Q (f (c, isError, s))) :
    Yields Q (cmpAdapter cb site a b isError s >>= f) := by
  apply cmpAdapter_yields
  intro ok c user ran
  refine next c _ _ fun failed => ?_
  rcases someFailed_answered.mp failed with here | before
  · rw [show ok = false from here]
    exact Or.inl (Bool.or_true isError)
  · rcases marked before with set | before
    · rw [set]
      exact Or.inl rfl
    · exact Or.inr before

/-- The end of `med3`. -/
theorem told_of_marked {isError : Bool} {v : Nat}
    (marked : SomeFailed s → isError = true ∨ earlier) :
    (if isError then none else some v) = none ∨ (SomeFailed s → earlier) := by
  cases isError with
  | true => exact Or.inl rfl
  | false =>
      refine Or.inr fun failed => ?_
      exact (marked failed).resolve_left Bool.false_ne_true

/-- `med3` looks at `is_error` after its last call. -/
theorem med3_tells (a b c : Nat) (s : SortState σ) :
    Yields (fun out => out.1 = none ∨ (SomeFailed out.2 → SomeFailed s)) (med3 cb a b c s) := by
  unfold med3
  apply cmpAdapter_marked Or.inr
  intro ab isError s marked
  apply cmpAdapter_marked marked
  intro bc isError s marked
  dsimp only
  split
  · split
    · exact told_of_marked marked
    · exact cmpAdapter_marked marked fun ac isError s marked => told_of_marked marked
  · split
    · exact told_of_marked marked
    · exact cmpAdapter_marked marked fun ac isError s marked => told_of_marked marked

end Median

/-- All three medians are taken before the first is looked at. -/
theorem candidates_told {a n : Nat} (quiet : ¬SomeFailed s) :
    Yields Told (candidates cb a n s) := by
  unfold candidates
  dsimp only
  split
  · apply Post.bind (med3_tells _ _ _ s)
    rintro ⟨pl, s₁⟩ _ first
    apply Post.bind (med3_tells _ _ _ s₁)
    rintro ⟨pm, s₂⟩ _ second
    apply Post.bind (med3_tells _ _ _ s₂)
    rintro ⟨pn, s₃⟩ _ third
    match pl, pm, pn, first, second, third with
    | none, _, _, _, _, _ => exact Or.inl rfl
    | some _, none, _, _, _, _ => exact Or.inl rfl
    | some _, some _, none, _, _, _ => exact Or.inl rfl
    | some _, some _, some _, .inr first, .inr second, .inr third =>
        exact Or.inr fun failed => quiet (first (second (third failed)))
  · exact Or.inr quiet

theorem pivot_told {a n : Nat} (quiet : ¬SomeFailed s) : Yields Told (pivot cb a n s) := by
  rw [pivot]
  split
  · apply Post.bind (candidates_told quiet)
    rintro ⟨out, s⟩ _ told
    cases out with
    | none => exact Or.inl rfl
    | some places =>
        obtain ⟨pl, pm, pn⟩ := places
        have quiet := told.resolve_left (Option.some_ne_none _)
        refine Post.mono (med3_tells pl pm pn s) (fun out told => ?_) fun _ _ => trivial
        exact told.imp_right fun before failed => quiet (before failed)
  · exact Or.inr quiet

/-- A pass, or a part of it, that ends with `return 0` or without a failed call. -/
def PassTold (out : PassEnd × SortState σ) : Prop :=
  out.1 = .returns false ∨ ¬SomeFailed out.2

theorem SortCallbacks.Warns.splitRange (warns : cb.Warns) (a n : Nat) (quiet : ¬SomeFailed s) :
    Yields PassTold (splitRange cb a n false s) := by
  rw [Pointless.splitRange]
  apply Post.bind (pivot_told quiet)
  rintro ⟨out, s⟩ _ told
  cases out with
  | none => exact Or.inl rfl
  | some pm =>
      apply swapItems_yields (told.resolve_left (Option.some_ne_none _))
      intro s quiet
      apply Post.bind (warns.partition n (show a < a + 1 by omega) (by simp only; omega) quiet)
      rintro ⟨out, s⟩ _ told
      cases out with
      | none => exact Or.inl rfl
      | some zones =>
          apply vecswap_yields _ _ _ (told.resolve_left (Option.some_ne_none _))
          intro s quiet
          exact vecswap_yields _ _ _ quiet fun s quiet => Or.inr quiet

theorem SortCallbacks.Warns.sortPass (warns : cb.Warns) (a n : Nat) (quiet : ¬SomeFailed s) :
    Yields PassTold (sortPass cb a n s) := by
  have next : ¬SomeFailed s.nextPass := fun failed => quiet (someFailed_nextPass.mp failed)
  rw [Pointless.sortPass]
  dsimp only
  split
  · apply Post.bind (warns.insertionSort a (n - 1) 1 next)
    rintro ⟨out, s⟩ _ (stopped | ⟨clear, quiet⟩)
    · cases stopped
      exact Or.inl rfl
    · exact Or.inr quiet
  · apply Post.bind (warns.presortedScan (n - 1) a next)
    rintro ⟨out, s⟩ _ inTime
    obtain _ | ⟨sorted, isError⟩ := out
    · exact Or.inl rfl
    · obtain ⟨clear, quiet⟩ := inTime.resolve_left (Option.some_ne_none _)
      cases sorted with
      | true => exact Or.inr quiet
      | false =>
          obtain rfl : isError = false := Option.some.inj clear
          exact warns.splitRange a n quiet

/-! ## The run -/

theorem SortCallbacks.Warns.bentleyQsortPriv (warns : cb.Warns) (fuel a n : Nat)
    (quiet : ¬SomeFailed s) :
    Yields (fun out => out.1 = false ∨ ¬SomeFailed out.2) (bentleyQsortPriv cb fuel a n s) := by
  induction fuel generalizing a n s with
  | zero => exact trivial
  | succ fuel ih =>
      rw [Pointless.bentleyQsortPriv]
      apply Post.bind (warns.sortPass a n quiet)
      rintro ⟨out, s⟩ _ told
      have quiet (goesOn : out ≠ .returns false) : ¬SomeFailed s := told.resolve_left goesOn
      cases out with
      | returns result =>
          cases result with
          | false => exact Or.inl rfl
          | true => exact Or.inr (quiet (by simp))
      | splits left right =>
          replace quiet := quiet (by simp)
          dsimp only
          split
          · apply Post.bind (ih a left quiet)
            rintro ⟨result, s⟩ _ told
            cases result with
            | false => exact Or.inl rfl
            | true =>
                have quiet := told.resolve_left Bool.noConfusion
                simp only [↓reduceIte]
                split
                · exact ih (a + n - right) right quiet
                · exact Or.inr quiet
          · split
            · exact ih (a + n - right) right quiet
            · exact Or.inr quiet

end Steps

/-- What fails in a way that is seen is reported. -/
theorem FailsBy.reports {α γ : Type} {mode : FailureMode}
    {cmp : Nat → Nat → List α → γ → (Bool × Int) × γ} (fails : FailsBy mode cmp)
    (seen : mode.Seen) : Reports cmp := by
  intro xs own fuel enough
  obtain ⟨result, s, ran, perm, returns, -⟩ :=
    bentleySort_ends (fun _ _ => True) (total_defined cmp xs) own enough
  refine ⟨result, s, ran, perm, fun stopped => ?_, fun failed => ?_⟩
  · obtain ⟨calls, mem, noticed⟩ := returns.mp stopped
    exact ⟨calls, mem, noticed.failed⟩
  · have quiet : ¬SomeFailed (⟨⟨xs, own⟩, [], []⟩ : SortState (SortUser α γ)) := by
      simp [SomeFailed, SortState.allPasses, Failed]
    have told := ((fails.warns seen).bentleyQsortPriv fuel 0 xs.length quiet).of_ok ran
    exact told.resolve_right fun none => none failed

/-! ## Failures that are not seen -/

/-- A comparator that fails on neighbours only, with `c`. -/
def failsNear (c : Int) (i j : Nat) (_ : List Unit) (g : Unit) : (Bool × Int) × Unit :=
  ((j != i + 1, c), g)

theorem failsNear_failsBy {mode : FailureMode} {c : Int} (allowed : mode.near c) :
    FailsBy mode (failsNear c) where
  near _ _ _ _ := allowed
  back i j _ _ below failed := by
    simp only [failsNear, bne_eq_false_iff_eq] at failed
    omega

/-- A comparator that counts its calls. On a position and an earlier one it answers from
a list, and fails in the call numbered `fails`; on others it answers 1 in the first call, and
then 0. -/
def scripted (fails : Nat) (answers : List Int) (i j : Nat) (_ : List Unit) (calls : Nat) :
    (Bool × Int) × Nat :=
  ((!(decide (j < i) && calls == fails),
    if j < i then answers.getD calls 0 else if calls = 0 then 1 else 0), calls + 1)

theorem scripted_failsBy {mode : FailureMode} (fails : Nat) (answers : List Int)
    (allowed : mode.back (answers.getD fails 0) (answers.getD (fails + 1) 0)) :
    FailsBy mode (scripted fails answers) where
  near i _ _ failed := by
    simp [scripted] at failed
  back i j _ calls below failed i' later := by
    have here : calls = fails := by simpa [scripted, below] using failed
    have after : j < i' := by omega
    simp only [scripted, if_pos below, if_pos after, here]
    exact allowed

/-- A run that returns 1 after a failed call. -/
theorem not_reports {α γ : Type} {cmp : Nat → Nat → List α → γ → (Bool × Int) × γ} (xs : List α)
    {own : γ} {fuel : Nat} {s : SortState (SortUser α γ)} (enough : xs.length < fuel)
    (ran : bentleySort (arrayCallbacks (total cmp)) fuel xs.length ⟨xs, own⟩ = .ok (true, s))
    (failed : SomeFailed s) : ¬Reports cmp := by
  intro reports
  obtain ⟨result, s', ran', -, returns⟩ := reports xs own fuel enough
  cases ran.symm.trans ran'
  cases returns.mpr failed

/-- The insertion sort of two items misses a failure that does not come with a positive
number. -/
theorem failsNear_missed {c : Int} (unseen : ¬0 < c) : ¬Reports (failsNear c) := by
  have ran : bentleySort (arrayCallbacks (total (failsNear c))) 3 2 ⟨[(), ()], ()⟩ =
      .ok (true, ⟨⟨[(), ()], ()⟩, [⟨.insertion, false, c⟩], [[]]⟩) := by
    match c with
    | .ofNat 0 => rfl
    | .ofNat (m + 1) => exact absurd (Int.natCast_succ_pos m) unseen
    | .negSucc m => rfl
  exact not_reports [(), ()] (by decide) ran ⟨_, List.mem_cons_self, _, List.mem_cons_self, rfl⟩

/-- The state of a run on seven items, after some calls. -/
def sevenItems (made : Nat) (calls : List CmpCall) (passes : List (List CmpCall)) :
    SortState (SortUser Unit Nat) := ⟨⟨List.replicate 7 (), made⟩, calls, passes⟩

/-- After the first call the script answers that three items are level. -/
theorem scripted_level (fails : Nat) (answers : List Int) (fuel made : Nat) (left : Bool)
    (calls : List CmpCall) (passes : List (List CmpCall)) :
    ∃ later, bentleyQsortPriv (arrayCallbacks (total (scripted fails answers))) (fuel + 1)
        (if left then 0 else 4) 3 (sevenItems (made + 1) calls passes) =
      .ok (true, sevenItems (made + 3) later (calls :: passes)) := by
  refine ⟨[⟨.insertion, true, 0⟩, ⟨.insertion, true, 0⟩], ?_⟩
  cases left <;> rfl

/-- A first pass on seven items that misses a failure, and leaves three at each end. -/
theorem scripted_missed {fails made : Nat} {answers : List Int} {calls : List CmpCall}
    (pass : sortPass (arrayCallbacks (total (scripted fails answers))) 0 7 (sevenItems 0 [] []) =
      .ok (.splits 3 3, sevenItems (made + 1) calls [[]]))
    (failed : Failed calls) : ¬Reports (scripted fails answers) := by
  obtain ⟨first, ran⟩ := scripted_level fails answers 6 made true calls [[]]
  obtain ⟨last, ran'⟩ := scripted_level fails answers 6 (made + 2) false first [calls, []]
  have whole : bentleySort (arrayCallbacks (total (scripted fails answers))) 8 7
      ⟨List.replicate 7 (), 0⟩ =
        .ok (true, sevenItems (made + 5) last [first, calls, []]) := by
    change bentleyQsortPriv _ 8 0 7 (sevenItems 0 [] []) = _
    rw [bentleyQsortPriv, pass, ok_bind]
    change (bentleyQsortPriv _ 7 0 3 (sevenItems (made + 1) calls [[]]) >>= _) = _
    rw [show bentleyQsortPriv _ 7 0 3 (sevenItems (made + 1) calls [[]]) = _ from ran, ok_bind]
    exact ran'
  refine not_reports (List.replicate 7 ()) (by decide) whole ⟨calls, ?_, failed⟩
  simp [SortState.allPasses, sevenItems]

/-- The second scan of the partition misses a failure with a negative number. -/
theorem scripted_missed_down (m : Nat) (c' : Int) :
    ¬Reports (scripted 6 [0, 1, -1, 1, -1, 1, .negSucc m, c']) := by
  have pass : sortPass
      (arrayCallbacks (total (scripted 6 [0, 1, -1, 1, -1, 1, .negSucc m, c']))) 0 7
        (sevenItems 0 [] []) =
      .ok (.splits 3 3, sevenItems 7
        [⟨.down, false, .negSucc m⟩, ⟨.up, true, 1⟩, ⟨.down, true, -1⟩, ⟨.up, true, 1⟩,
          ⟨.down, true, -1⟩, ⟨.up, true, 1⟩, ⟨.presorted, true, 1⟩] [[]]) := by rfl
  exact scripted_missed pass ⟨_, List.mem_cons_self, rfl⟩

/-- The first scan misses one with a positive number, when the next answer is negative. -/
theorem scripted_missed_up (m m' : Nat) :
    ¬Reports (scripted 1 [0, .ofNat (m + 1), .negSucc m', 1, -1, 1, -1]) := by
  have pass : sortPass
      (arrayCallbacks (total (scripted 1 [0, .ofNat (m + 1), .negSucc m', 1, -1, 1, -1]))) 0 7
        (sevenItems 0 [] []) =
      .ok (.splits 3 3, sevenItems 7
        [⟨.down, true, -1⟩, ⟨.up, true, 1⟩, ⟨.down, true, -1⟩, ⟨.up, true, 1⟩,
          ⟨.down, true, .negSucc m'⟩, ⟨.up, false, .ofNat (m + 1)⟩, ⟨.presorted, true, 1⟩]
        [[]]) := by rfl
  exact scripted_missed pass ⟨⟨.up, false, .ofNat (m + 1)⟩, by simp, rfl⟩

/-- The sort of every array ends, with the items rearranged, and returns 0 exactly when a call
failed, for all comparators that fail in a certain way, if and only if failures of that way
are seen. -/
theorem bentleySort_reports_iff (mode : FailureMode) :
    (∀ (α γ : Type) (cmp : Nat → Nat → List α → γ → (Bool × Int) × γ),
        FailsBy mode cmp → Reports cmp) ↔ mode.Seen := by
  constructor
  · intro reports
    refine ⟨fun c allowed => ?_, fun c c' allowed => ?_⟩
    · by_contra unseen
      exact failsNear_missed unseen (reports Unit Unit _ (failsNear_failsBy allowed))
    · match c, c' with
      | .ofNat 0, _ => exact Or.inl rfl
      | .ofNat (m + 1), .ofNat m' =>
          exact Or.inr ⟨Int.natCast_succ_pos m, Int.natCast_nonneg m'⟩
      | .ofNat (m + 1), .negSucc m' =>
          have fails := scripted_failsBy 1 [0, .ofNat (m + 1), .negSucc m', 1, -1, 1, -1] allowed
          exact absurd (reports Unit Nat _ fails) (scripted_missed_up m m')
      | .negSucc m, c' =>
          have fails := scripted_failsBy 6 [0, 1, -1, 1, -1, 1, .negSucc m, c'] allowed
          exact absurd (reports Unit Nat _ fails) (scripted_missed_down m c')
  · intro seen α γ cmp fails
    exact fails.reports seen

/-- A comparator that always fails, and leaves `*c` as it is. -/
def cmpFails (_ _ : Nat) (_ : List Nat) (g : Unit) : (Bool × Int) × Unit := ((false, 0), g)

/-- Two items, a comparator that fails: the sort reports success. -/
theorem cmpFails_unreported :
    ∃ s, bentleySort (arrayCallbacks (total cmpFails)) 3 2 ⟨[1, 0], ()⟩ = .ok (true, s) ∧
      SomeFailed s ∧ ¬(true = false ↔ SomeFailed s) := by
  refine ⟨⟨⟨[1, 0], ()⟩, [⟨.insertion, false, 0⟩], [[]]⟩, rfl, ?_, ?_⟩
  · exact ⟨_, List.mem_cons_self, _, List.mem_cons_self, rfl⟩
  · intro same
    cases same.mpr ⟨_, List.mem_cons_self, _, List.mem_cons_self, rfl⟩

end Pointless
