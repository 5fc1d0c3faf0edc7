import Pointless.CustomSortRun

/-!
# The partition of a pass of the sort

The choice of the pivot, the two scans, the loop around them and the exchange of
the blocks at the ends of the range. The items equal to the pivot are kept at both
ends while the partition runs (`LowZones`, `HighZones`) and are brought to the
middle at its end.
-/

namespace Pointless

open ExceptRules InPlace

variable {α γ : Type}

/-! ## The choice of the pivot -/

/-- What calls of the medians add to the calls of a pass, and whether one of them failed. -/
structure Median (bad : Bool) (before after : List CmpCall) : Prop where
  noticed : Noticed after ↔ Noticed before ∨ bad = true
  failed : Failed after ↔ Failed before ∨ bad = true

theorem Median.refl (calls : List CmpCall) : Median false calls calls :=
  ⟨by simp, by simp⟩

theorem Median.cons {bad : Bool} {before after : List CmpCall} (median : Median bad before after)
    (ok : Bool) (c : Int) : Median (bad || !ok) before (⟨.median, ok, c⟩ :: after) where
  noticed := by
    cases ok with
    | true => simp [Noticed, CmpCall.looked, median.noticed]
    | false => simp [Noticed, CmpCall.looked, Failed]
  failed := by
    rw [failed_cons, median.failed]
    cases ok <;> simp

theorem Median.trans {bad bad' : Bool} {first second third : List CmpCall}
    (one : Median bad first second) (two : Median bad' second third) :
    Median (bad || bad') first third where
  noticed := by rw [two.noticed, one.noticed, Bool.or_eq_true, or_assoc]
  failed := by rw [two.failed, one.failed, Bool.or_eq_true, or_assoc]

theorem Median.watched {before after : List CmpCall} (median : Median false before after)
    (watched : Watched false before) : Watched false after where
  unnoticed noticed := by
    rcases median.noticed.mp noticed with before | no
    · exact watched.unnoticed before
    · cases no
  flag := by
    rw [median.failed, ← watched.flag]
    simp

variable {cmp : Comparator α γ} {xs : List α} (le : α → α → Prop)

/-- What a function that chooses positions by calls of `cmp` leaves behind. -/
structure Picked (cmp : Comparator α γ) (le : α → α → Prop) (xs : List α) {β : Type}
    (good : β → Prop) (s : ArrayState α γ) (out : Option β × ArrayState α γ) : Prop where
  items : out.2.user.items = s.user.items
  passes : out.2.passes = s.passes
  median : Median out.1.isNone s.calls out.2.calls
  inside : ∀ m, out.1 = some m → good m
  found : Computes cmp le xs → out.1.isSome = true

/-- Nothing is chosen once a call has failed, which one that computes an order never does. -/
theorem Picked.none {β : Type} {good : β → Prop} {s s' : ArrayState α γ}
    (items : s'.user.items = s.user.items) (passes : s'.passes = s.passes)
    (median : Median true s.calls s'.calls) (fails : ¬Computes cmp le xs) :
    Picked cmp le xs good s (none, s') :=
  ⟨items, passes, median, fun m no => (by cases no), fun computes => absurd computes fails⟩

theorem Picked.fails {le : α → α → Prop} {β : Type} {good : β → Prop} {s s' : ArrayState α γ}
    (picked : Picked cmp le xs good s (Option.none, s')) : ¬Computes cmp le xs := by
  intro computes
  cases picked.found computes

theorem med3_ends (defined : Defined cmp xs) {a b c : Nat} {s : ArrayState α γ}
    (perm : s.user.items.Perm xs) (good : Nat → Prop) (good_a : good a) (good_b : good b)
    (good_c : good c) (inside : ∀ m, good m → m < s.user.items.length) :
    Finishes (Picked cmp le xs good s) (med3 (arrayCallbacks cmp) a b c s) := by
  obtain ⟨ok, ab, own, ran, sound⟩ := cmpAdapter_runs le defined perm .median
    (inside a good_a) (inside b good_b) false
  obtain ⟨ok', bc, own', ran', sound'⟩ := cmpAdapter_runs le defined
    (s := s.called ⟨.median, ok, ab⟩ own) perm .median (inside b good_b) (inside c good_c)
    (false || !ok)
  obtain ⟨ok'', ac, own'', ran'', sound''⟩ := cmpAdapter_runs le defined
    (s := (s.called ⟨.median, ok, ab⟩ own).called ⟨.median, ok', bc⟩ own') perm .median
    (inside a good_a) (inside c good_c) (false || !ok || !ok')
  have two := ((Median.refl s.calls).cons ok ab).cons ok' bc
  have three := two.cons ok'' ac
  -- after two or three calls: `-1` when one of them failed, else a position
  have finish : ∀ (bad : Bool) (m : Nat) (s' : ArrayState α γ), s'.user.items = s.user.items →
      s'.passes = s.passes → Median bad s.calls s'.calls → good m →
      (Computes cmp le xs → bad = false) →
      Picked cmp le xs good s (if bad then none else some m, s') := by
    intro bad m s' items passes median good_m clear
    cases bad with
    | true => exact Picked.none le items passes median fun computes => by cases clear computes
    | false =>
        refine ⟨items, passes, median, fun m' same => ?_, fun _ => rfl⟩
        cases same
        exact good_m
  rw [med3, ran, ok_bind]
  simp only [ran', ok_bind]
  by_cases first : ab < 0
  · rw [if_pos first]
    by_cases second : bc < 0
    · rw [if_pos second]
      refine finish _ _ _ rfl rfl two good_b fun computes => ?_
      rw [(sound computes).1, (sound' computes).1]
      rfl
    · rw [if_neg second, ran'', ok_bind]
      refine finish _ _ _ rfl rfl three ?_ fun computes => ?_
      · split
        · exact good_c
        · exact good_a
      · rw [(sound computes).1, (sound' computes).1, (sound'' computes).1]
        rfl
  · rw [if_neg first]
    by_cases second : bc > 0
    · rw [if_pos second]
      refine finish _ _ _ rfl rfl two good_b fun computes => ?_
      rw [(sound computes).1, (sound' computes).1]
      rfl
    · rw [if_neg second, ran'', ok_bind]
      refine finish _ _ _ rfl rfl three ?_ fun computes => ?_
      · split
        · exact good_a
        · exact good_c
      · rw [(sound computes).1, (sound' computes).1, (sound'' computes).1]
        rfl

/-- All three positions are good. -/
def AllThree (good : Nat → Prop) (t : Nat × Nat × Nat) : Prop := good t.1 ∧ good t.2.1 ∧ good t.2.2

theorem candidates_ends (defined : Defined cmp xs) {a n : Nat} {s : ArrayState α γ}
    (perm : s.user.items.Perm xs) (large : 7 < n) (inside : a + n ≤ s.user.items.length) :
    Finishes (Picked cmp le xs (AllThree fun m => a ≤ m ∧ m < a + n) s)
      (candidates (arrayCallbacks cmp) a n s) := by
  have bound : ∀ (s' : ArrayState α γ), s'.user.items = s.user.items →
      ∀ m, a ≤ m ∧ m < a + n → m < s'.user.items.length := by
    intro s' items m good
    rw [items]
    omega
  rw [candidates]
  by_cases nine : n > 40
  · rw [if_pos nine]
    refine Post.bind (med3_ends le defined perm (fun m => a ≤ m ∧ m < a + n)
      ⟨by omega, by omega⟩ ⟨by omega, by omega⟩ ⟨by omega, by omega⟩ (bound s rfl)) ?_
    intro low _ first
    refine Post.bind (med3_ends le defined (by rw [first.items]; exact perm)
      (fun m => a ≤ m ∧ m < a + n)
      ⟨by omega, by omega⟩ ⟨by omega, by omega⟩ ⟨by omega, by omega⟩ (bound low.2 first.items)) ?_
    intro mid _ second
    refine Post.bind (med3_ends le defined (by rw [second.items, first.items]; exact perm)
      (fun m => a ≤ m ∧ m < a + n)
      ⟨by omega, by omega⟩ ⟨by omega, by omega⟩ ⟨by omega, by omega⟩
      (bound mid.2 (second.items.trans first.items))) ?_
    intro high _ third
    have items := third.items.trans (second.items.trans first.items)
    have passes := third.passes.trans (second.passes.trans first.passes)
    have median := (first.median.trans second.median).trans third.median
    obtain ⟨low, s₁⟩ := low
    obtain ⟨mid, s₂⟩ := mid
    obtain ⟨high, s₃⟩ := high
    cases low with
    | none => exact Picked.none le items passes (by simpa using median) first.fails
    | some pl =>
        cases mid with
        | none => exact Picked.none le items passes (by simpa using median) second.fails
        | some pm =>
            cases high with
            | none => exact Picked.none le items passes (by simpa using median) third.fails
            | some pn =>
                refine ⟨items, passes, median, fun m same => ?_, fun _ => rfl⟩
                cases same
                exact ⟨first.inside pl rfl, second.inside pm rfl, third.inside pn rfl⟩
  · rw [if_neg nine]
    refine ⟨rfl, rfl, Median.refl s.calls, fun m same => ?_, fun _ => rfl⟩
    cases same
    simp only [AllThree]
    omega

theorem pivot_ends (defined : Defined cmp xs) {a n : Nat} {s : ArrayState α γ}
    (perm : s.user.items.Perm xs) (large : 7 ≤ n) (inside : a + n ≤ s.user.items.length) :
    Finishes (Picked cmp le xs (fun m => a ≤ m ∧ m < a + n) s)
      (pivot (arrayCallbacks cmp) a n s) := by
  rw [pivot]
  by_cases larger : n > 7
  · rw [if_pos larger]
    refine Post.bind (candidates_ends le defined perm larger inside) ?_
    intro out _ picked
    obtain ⟨out, s'⟩ := out
    cases out with
    | none => exact Picked.none le picked.items picked.passes picked.median picked.fails
    | some t =>
        obtain ⟨pl, pm, pn⟩ := t
        obtain ⟨good_l, good_m, good_n⟩ := picked.inside _ rfl
        have chosen := med3_ends le defined (s := s') (by rw [picked.items]; exact perm)
          (fun m => a ≤ m ∧ m < a + n) good_l good_m good_n (fun m good => by rw [picked.items]; omega)
        refine Post.mono chosen ?_ (fun _ no => no)
        intro out chosen
        refine ⟨chosen.items.trans picked.items, chosen.passes.trans picked.passes, ?_,
          chosen.inside, chosen.found⟩
        have median := picked.median.trans chosen.median
        simpa using median
  · rw [if_neg larger]
    refine ⟨rfl, rfl, Median.refl s.calls, fun m same => ?_, fun _ => rfl⟩
    cases same
    exact ⟨by omega, by omega⟩

/-! ## The scans -/

/-- Before `pb`: the items level with the pivot up to `pa`, then items that are at most it. -/
structure LowZones (le : α → α → Prop) (p : α) (a pa pb : Nat) (xs : List α) : Prop where
  pivot : xs[a]? = some p
  level : AllOn (fun x => le x p ∧ le p x) a pa xs
  low : AllOn (fun x => le x p) pa pb xs

/-- After `pc`: items that are at least the pivot up to `pd`, then those level with it. -/
structure HighZones (le : α → α → Prop) (p : α) (pc pd top : Nat) (xs : List α) : Prop where
  high : AllOn (fun x => le p x) (pc + 1) (pd + 1) xs
  level : AllOn (fun x => le x p ∧ le p x) (pd + 1) top xs

section Zones

variable {le : α → α → Prop} {p : α} {a pa pb pc pd top : Nat} {ys zs : List α}

theorem LowZones.low_next (zones : LowZones le p a pa pb ys)
    (next : ∀ x, ys[pb]? = some x → le x p) : LowZones le p a pa (pb + 1) ys where
  pivot := zones.pivot
  level := zones.level
  low k x above below at_k := by
    by_cases last : k = pb
    · subst last
      exact next x at_k
    · exact zones.low k x above (by omega) at_k

theorem LowZones.level_next (zones : LowZones le p a pa pb ys) (after : a < pa) (order : pa ≤ pb)
    (inside : pb < ys.length) (next : ∀ x, ys[pb]? = some x → le x p ∧ le p x) :
    LowZones le p a (pa + 1) (pb + 1) (exchange pa pb ys) where
  pivot := by
    rw [getElem?_exchange (by omega) inside, if_neg (by omega), if_neg (by omega)]
    exact zones.pivot
  level k x above below at_k := by
    rw [getElem?_exchange (by omega) inside] at at_k
    by_cases last : k = pa
    · subst last
      rw [if_pos rfl] at at_k
      by_cases same : k = pb
      · rw [if_pos same, same] at at_k
        exact next x at_k
      · rw [if_neg same] at at_k
        exact next x at_k
    · rw [if_neg (by omega), if_neg last] at at_k
      exact zones.level k x above (by omega) at_k
  low k x above below at_k := by
    rw [getElem?_exchange (by omega) inside] at at_k
    by_cases last : k = pb
    · rw [if_pos last] at at_k
      exact zones.low pa x (le_refl pa) (by omega) at_k
    · rw [if_neg last, if_neg (by omega)] at at_k
      exact zones.low k x (by omega) (by omega) at_k

theorem HighZones.high_next (zones : HighZones le p pc pd top ys) (some_pc : 0 < pc)
    (next : ∀ x, ys[pc]? = some x → le p x) : HighZones le p (pc - 1) pd top ys where
  high k x above below at_k := by
    by_cases first : k = pc
    · subst first
      exact next x at_k
    · exact zones.high k x (by omega) below at_k
  level := zones.level

theorem HighZones.level_next (zones : HighZones le p pc pd top ys) (some_pc : 0 < pc)
    (order : pc ≤ pd) (inside : pd < ys.length)
    (next : ∀ x, ys[pc]? = some x → le x p ∧ le p x) :
    HighZones le p (pc - 1) (pd - 1) top (exchange pc pd ys) where
  high k x above below at_k := by
    rw [getElem?_exchange (by omega) inside, if_neg (by omega)] at at_k
    by_cases first : k = pc
    · rw [if_pos first] at at_k
      exact zones.high pd x (by omega) (by omega) at_k
    · rw [if_neg first] at at_k
      exact zones.high k x (by omega) (by omega) at_k
  level k x above below at_k := by
    rw [getElem?_exchange (by omega) inside] at at_k
    by_cases first : k = pd
    · rw [if_pos first] at at_k
      exact next x at_k
    · rw [if_neg first, if_neg (by omega)] at at_k
      exact zones.level k x (by omega) below at_k

/-- Work at positions apart from a zone does not touch it. -/
theorem LowZones.apart {lo hi : Nat} (zones : LowZones le p a pa pb ys)
    (moved : Rearranged lo hi ys zs) (order : a < pa) (below : pa ≤ lo) (below' : pb ≤ lo) :
    LowZones le p a pa pb zs where
  pivot := by
    rw [moved.outside a (by omega)]
    exact zones.pivot
  level := zones.level.apart moved (by omega)
  low := zones.low.apart moved (by omega)

theorem HighZones.apart {lo hi : Nat} (zones : HighZones le p pc pd top ys)
    (moved : Rearranged lo hi ys zs) (above : hi ≤ pc + 1) (order : pc ≤ pd) :
    HighZones le p pc pd top zs where
  high := zones.high.apart moved (by omega)
  level := zones.level.apart moved (by omega)

/-- The two items at which the scans have stopped change places. -/
theorem LowZones.crossed (zones : LowZones le p a pa pb ys) (after : a < pa) (order : pa ≤ pb)
    (apart : pb < pc) (inside : pc < ys.length) (next : ∀ x, ys[pc]? = some x → le x p) :
    LowZones le p a pa (pb + 1) (exchange pb pc ys) := by
  have moved : Rearranged pb (pc + 1) ys (exchange pb pc ys) :=
    exchange_rearranged ⟨by omega, by omega⟩ ⟨by omega, by omega⟩ (by omega)
  have kept : LowZones le p a pa pb (exchange pb pc ys) :=
    zones.apart moved after order (le_refl pb)
  refine kept.low_next fun x at_pb => ?_
  rw [getElem?_exchange (by omega) inside, if_neg (by omega), if_pos rfl] at at_pb
  exact next x at_pb

theorem HighZones.crossed (zones : HighZones le p pc pd top ys) (order : pc ≤ pd)
    (apart : pb < pc) (inside : pc < ys.length) (next : ∀ x, ys[pb]? = some x → le p x) :
    HighZones le p (pc - 1) pd top (exchange pb pc ys) := by
  have moved : Rearranged pb (pc + 1) ys (exchange pb pc ys) :=
    exchange_rearranged ⟨by omega, by omega⟩ ⟨by omega, by omega⟩ (by omega)
  have kept : HighZones le p pc pd top (exchange pb pc ys) :=
    zones.apart moved (le_refl _) order
  refine kept.high_next (by omega) fun x at_pc => ?_
  rw [getElem?_exchange (by omega) inside, if_pos rfl] at at_pc
  exact next x at_pc

end Zones

/-- What the scan from below has done when it ends, over the positions up to `hi`. -/
structure ScannedUp (cmp : Comparator α γ) (xs : List α) (a hi pa pb : Nat) (isError : Bool)
    (s : ArrayState α γ) (out : Option (Nat × Nat × Bool) × ArrayState α γ) : Prop where
  kept : Kept (a + 1) hi s out.2
  reported : Reported (out.1.map fun t => t.2.2) out.2.calls
  bounds : ∀ pa' pb' e, out.1 = some (pa', pb', e) →
    pa ≤ pa' ∧ pa' ≤ pb' ∧ pb ≤ pb' ∧ pb' ≤ hi
  zones : Computes cmp le xs → isError = false → ∃ pa' pb', out.1 = some (pa', pb', false) ∧
    ∀ p, LowZones le p a pa pb s.user.items →
      LowZones le p a pa' pb' out.2.user.items ∧
        (pb' < hi → ∀ x, out.2.user.items[pb']? = some x → ¬le x p)

/-- A round of the scan that goes on. -/
theorem ScannedUp.round {a hi pa pb pa' pb' : Nat} {isError isError' : Bool}
    {s s' : ArrayState α γ} {out : Option (Nat × Nat × Bool) × ArrayState α γ}
    (kept : Kept (a + 1) hi s s') (up : pa ≤ pa') (up' : pb ≤ pb') (clear : isError' = false)
    (next : Computes cmp le xs → ∀ p, LowZones le p a pa pb s.user.items →
      LowZones le p a pa' pb' s'.user.items)
    (rest : ScannedUp le cmp xs a hi pa' pb' isError' s' out) :
    ScannedUp le cmp xs a hi pa pb isError s out where
  kept := kept.trans rest.kept
  reported := rest.reported
  bounds qa qb e ends := by
    have bounds := rest.bounds qa qb e ends
    omega
  zones computes _ := by
    obtain ⟨qa, qb, ends, scanned⟩ := rest.zones computes clear
    exact ⟨qa, qb, ends, fun p zones => scanned p (next computes p zones)⟩

/-- The scan from below, over `left` positions from `pb` on. -/
theorem scanUp_ends (defined : Defined cmp xs) {a : Nat} (left pa pb : Nat)
    {isError : Bool} {s : ArrayState α γ} (perm : s.user.items.Perm xs) (after : a < pa)
    (order : pa ≤ pb) (inside : pb + left ≤ s.user.items.length)
    (watched : Watched isError s.calls) :
    Finishes (ScannedUp le cmp xs a (pb + left) pa pb isError s)
      (scanUp (arrayCallbacks cmp) a left pa pb isError s) := by
  induction left generalizing pa pb isError s with
  | zero =>
      refine ⟨Kept.refl _ _ s, watched, fun pa' pb' e ends => ?_, fun _ clear => ?_⟩
      · cases ends
        omega
      · exact ⟨pa, pb, by rw [clear], fun p zones => ⟨zones, fun no => by omega⟩⟩
  | succ left ih =>
      obtain ⟨ok, r, own, ran, sound⟩ := cmpAdapter_runs le defined perm .up
        (i := pb) (j := a) (by omega) (by omega) isError
      have shift : pb + 1 + left = pb + (left + 1) := by omega
      rw [scanUp, ran, ok_bind]
      by_cases below : r ≤ 0
      · simp only [if_pos below]
        by_cases set : (isError || !ok) = true
        · rw [if_pos set]
          refine ⟨called_kept _ _ _ own, watched.notice _ (decide_eq_true below) set,
            fun pa' pb' e ends => (by cases ends), fun computes clear => ?_⟩
          rw [clear, (sound computes).1] at set
          cases set
        · rw [if_neg set]
          rw [Bool.not_eq_true] at set
          have watched' := watched.cons ⟨.up, ok, r⟩ (Or.inr set)
          by_cases level : r = 0
          · rw [if_pos level, swapItems_runs cmp (by simp; omega) (by simp; omega), ok_bind]
            have kept : Kept (a + 1) (pb + (left + 1)) s
                ((s.called ⟨.up, ok, r⟩ own).swapped pa pb) :=
              (called_kept _ _ _ own).trans
                (swapped_kept ⟨by omega, by omega⟩ ⟨by omega, by omega⟩ inside)
            have next := ih (pa + 1) (pb + 1) (kept.items.perm.trans perm) (by omega)
              (by omega) (by rw [kept.items.length_eq]; omega) watched'
            rw [shift] at next
            refine Post.mono next (fun out rest => ?_) (fun _ no => no)
            apply rest.round le kept (Nat.le_succ pa) (Nat.le_succ pb) set
            intro computes p zones
            apply zones.level_next after order (by omega)
            intro x at_pb
            have answer := (sound computes).2 x p at_pb zones.pivot
            exact ⟨answer.1.mp (by omega), answer.2.mp (by omega)⟩
          · rw [if_neg level]
            have kept : Kept (a + 1) (pb + (left + 1)) s (s.called ⟨.up, ok, r⟩ own) :=
              called_kept _ _ _ own
            have next := ih pa (pb + 1) (kept.items.perm.trans perm) after
              (by omega) (by rw [kept.items.length_eq]; omega) watched'
            rw [shift] at next
            refine Post.mono next (fun out rest => ?_) (fun _ no => no)
            apply rest.round le kept (le_refl pa) (Nat.le_succ pb) set
            intro computes p zones
            apply zones.low_next
            intro x at_pb
            exact ((sound computes).2 x p at_pb zones.pivot).1.mp below
      · simp only [if_neg below]
        refine ⟨called_kept _ _ _ own, watched.cons ⟨.up, ok, r⟩ (Or.inl (decide_eq_false below)),
          fun pa' pb' e ends => ?_, fun computes clear => ?_⟩
        · cases ends
          omega
        · refine ⟨pa, pb, by rw [clear, (sound computes).1]; rfl, fun p zones => ⟨zones, ?_⟩⟩
          intro _ x at_pb atMost
          exact below (((sound computes).2 x p at_pb zones.pivot).1.mpr atMost)

/-- What the scan from above has done when it ends, over the positions from `pb` on. -/
structure ScannedDown (cmp : Comparator α γ) (xs : List α) (a top pb pc pd : Nat) (isError : Bool)
    (s : ArrayState α γ) (out : Option (Nat × Nat × Bool) × ArrayState α γ) : Prop where
  kept : Kept pb (pd + 1) s out.2
  reported : Reported (out.1.map fun t => t.2.2) out.2.calls
  bounds : ∀ pc' pd' e, out.1 = some (pc', pd', e) →
    pc' ≤ pd' ∧ pd' ≤ pd ∧ pc' ≤ pc ∧ (pc' = pc ∨ pb ≤ pc' + 1)
  zones : Computes cmp le xs → isError = false → ∃ pc' pd', out.1 = some (pc', pd', false) ∧
    ∀ p, s.user.items[a]? = some p → HighZones le p pc pd top s.user.items →
      HighZones le p pc' pd' top out.2.user.items ∧
        (pb ≤ pc' → (∀ x, out.2.user.items[pc']? = some x → ¬le p x) ∧
          ∀ k ≤ pc', out.2.user.items[k]? = s.user.items[k]?)

/-- A round of the scan that goes on. -/
theorem ScannedDown.round {a top pb pc pd pd' : Nat} {isError isError' : Bool}
    {s s' : ArrayState α γ} {out : Option (Nat × Nat × Bool) × ArrayState α γ}
    (kept : Kept pb (pd + 1) s s') (after : a < pb) (some_ : pb ≤ pc) (down : pd' ≤ pd)
    (clear : isError' = false)
    (untouched : ∀ k < pc, s'.user.items[k]? = s.user.items[k]?)
    (next : Computes cmp le xs → ∀ p, s.user.items[a]? = some p →
      HighZones le p pc pd top s.user.items → HighZones le p (pc - 1) pd' top s'.user.items)
    (rest : ScannedDown le cmp xs a top pb (pc - 1) pd' isError' s' out) :
    ScannedDown le cmp xs a top pb pc pd isError s out where
  kept := kept.trans (rest.kept.widen (le_refl pb) (by omega))
  reported := rest.reported
  bounds qc qd e ends := by
    have bounds := rest.bounds qc qd e ends
    omega
  zones computes _ := by
    obtain ⟨qc, qd, ends, scanned⟩ := rest.zones computes clear
    refine ⟨qc, qd, ends, fun p at_a zones => ?_⟩
    have bounds := rest.bounds qc qd false ends
    have at_a' : s'.user.items[a]? = some p := by
      rw [← at_a]
      exact untouched a (by omega)
    obtain ⟨zones', stopped⟩ := scanned p at_a' (next computes p at_a zones)
    refine ⟨zones', fun more => ⟨(stopped more).1, fun k before => ?_⟩⟩
    exact ((stopped more).2 k before).trans (untouched k (by omega))

/-- The scan from above, over `left` positions from `pc` down. -/
theorem scanDown_ends (defined : Defined cmp xs) {a : Nat} (top left : Nat) {pb : Nat} (pc pd : Nat)
    {isError : Bool} {s : ArrayState α γ} (perm : s.user.items.Perm xs) (after : a < pb)
    (span : left = pc + 1 - pb) (order : pc ≤ pd) (inside : pd < s.user.items.length)
    (watched : Watched isError s.calls) :
    Finishes (ScannedDown le cmp xs a top pb pc pd isError s)
      (scanDown (arrayCallbacks cmp) a left pc pd isError s) := by
  induction left generalizing pc pd isError s with
  | zero =>
      refine ⟨Kept.refl _ _ s, watched, fun pc' pd' e ends => ?_, fun _ clear => ?_⟩
      · cases ends
        omega
      · exact ⟨pc, pd, by rw [clear], fun p _ zones => ⟨zones, fun no => by omega⟩⟩
  | succ left ih =>
      obtain ⟨ok, r, own, ran, sound⟩ := cmpAdapter_runs le defined perm .down
        (i := pc) (j := a) (by omega) (by omega) isError
      rw [scanDown, ran, ok_bind]
      by_cases above : r ≥ 0
      · simp only [if_pos above]
        by_cases set : (isError || !ok) = true
        · rw [if_pos set]
          refine ⟨called_kept _ _ _ own, watched.notice _ (decide_eq_true above) set,
            fun pa' pb' e ends => (by cases ends), fun computes clear => ?_⟩
          rw [clear, (sound computes).1] at set
          cases set
        · rw [if_neg set]
          rw [Bool.not_eq_true] at set
          have watched' := watched.cons ⟨.down, ok, r⟩ (Or.inr set)
          by_cases level : r = 0
          · rw [if_pos level, swapItems_runs cmp (by simp; omega) (by simp; omega), ok_bind]
            have kept : Kept pb (pd + 1) s ((s.called ⟨.down, ok, r⟩ own).swapped pc pd) :=
              (called_kept _ _ _ own).trans
                (swapped_kept ⟨by omega, by omega⟩ ⟨by omega, by omega⟩ (Nat.succ_le_of_lt inside))
            have next := ih (pc - 1) (pd - 1) (kept.items.perm.trans perm)
              (by omega) (by omega) (by rw [kept.items.length_eq]; omega) watched'
            refine Post.mono next (fun out rest => ?_) (fun _ no => no)
            apply rest.round le kept after (by omega) (Nat.sub_le pd 1) set
            · intro k before
              rw [swapped_items, called_items, getElem?_exchange (by omega) inside,
                if_neg (by omega), if_neg (by omega)]
            · intro computes p at_a zones
              apply zones.level_next (by omega) order inside
              intro x at_pc
              have answer := (sound computes).2 x p at_pc at_a
              exact ⟨answer.1.mp (by omega), answer.2.mp (by omega)⟩
          · rw [if_neg level]
            have kept : Kept pb (pd + 1) s (s.called ⟨.down, ok, r⟩ own) := called_kept _ _ _ own
            have next := ih (pc - 1) pd (kept.items.perm.trans perm) (by omega)
              (by omega) (by rw [kept.items.length_eq]; omega) watched'
            refine Post.mono next (fun out rest => ?_) (fun _ no => no)
            apply rest.round le kept after (by omega) (le_refl pd) set (fun _ _ => rfl)
            intro computes p at_a zones
            apply zones.high_next (by omega)
            intro x at_pc
            exact ((sound computes).2 x p at_pc at_a).2.mp above
      · simp only [if_neg above]
        refine ⟨called_kept _ _ _ own,
          watched.cons ⟨.down, ok, r⟩ (Or.inl (decide_eq_false above)),
          fun pa' pb' e ends => ?_, fun computes clear => ?_⟩
        · cases ends
          omega
        · refine ⟨pc, pd, by rw [clear, (sound computes).1]; rfl, fun p at_a zones => ⟨zones, ?_⟩⟩
          refine fun _ => ⟨fun x at_pc atLeast => ?_, fun _ _ => rfl⟩
          exact above (((sound computes).2 x p at_pc at_a).2.mpr atLeast)

end Pointless
