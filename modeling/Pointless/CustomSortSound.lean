import Pointless.CustomSortPartition

/-!
# The sort ends, rearranges, reports and sorts

One pass, and by induction on the length of the range the whole recursion. Both
parts that a pass leaves to be sorted are shorter than its range, for every
comparator.
-/

namespace Pointless

open ExceptRules InPlace

variable {α γ : Type} {cmp : Comparator α γ} {xs : List α} (le : α → α → Prop)

/-! ## The partition -/

/-- The cursors of the partition of the positions `[a, top)`. A comparator that contradicts
itself can make them cross by two. -/
structure Within (a top : Nat) (cur : Cursors) : Prop where
  first : a < cur.pa
  low : cur.pa ≤ cur.pb
  room : cur.pb ≤ top
  gap : cur.pb ≤ cur.pc + 2
  above : a ≤ cur.pc
  high : cur.pc ≤ cur.pd
  last : cur.pd < top

/-- What the partition has done when it ends. -/
structure Partitioned (cmp : Comparator α γ) (xs : List α) (a top : Nat) (cur : Cursors)
    (isError : Bool) (s : ArrayState α γ) (out : Option Cursors × ArrayState α γ) : Prop where
  kept : Kept (a + 1) top s out.2
  failed : out.1 = none → Noticed out.2.calls
  bounds : ∀ cur', out.1 = some cur' →
    Within a top cur' ∧ cur'.pc < cur'.pb ∧ ¬Noticed out.2.calls
  zones : Computes cmp le xs → isError = false → ∃ cur', out.1 = some cur' ∧
    ∀ p, cur.pb ≤ cur.pc + 1 → LowZones le p a cur.pa cur.pb s.user.items →
      HighZones le p cur.pc cur.pd top s.user.items →
      cur'.pb = cur'.pc + 1 ∧ LowZones le p a cur'.pa cur'.pb out.2.user.items ∧
        HighZones le p cur'.pc cur'.pd top out.2.user.items

section Scans

variable {a top pa pb pc pd pa' pb' pc' pd' : Nat} {isError isError' isError'' : Bool}
  {s s₁ s₂ : ArrayState α γ}

/-- What the two scans have done to the zones, and the items they stopped at. -/
theorem ScannedUp.zones_of_down
    (up : ScannedUp le cmp xs a (pb + (pc + 1 - pb)) pa pb isError s
      (some (pa', pb', isError'), s₁))
    (down : ScannedDown le cmp xs a top pb' pc pd isError' s₁ (some (pc', pd', isError''), s₂))
    (first : a < pa) (high : pc ≤ pd) (computes : Computes cmp le xs) (clear : isError = false) :
    isError' = false ∧ isError'' = false ∧
      ∀ p, pb ≤ pc + 1 → LowZones le p a pa pb s.user.items →
        HighZones le p pc pd top s.user.items →
        LowZones le p a pa' pb' s₂.user.items ∧ HighZones le p pc' pd' top s₂.user.items ∧
          (pb' ≤ pc' → (∀ x, s₂.user.items[pb']? = some x → ¬le x p) ∧
            ∀ x, s₂.user.items[pc']? = some x → ¬le p x) := by
  have bounds := up.bounds pa' pb' isError' rfl
  have bounds' := down.bounds pc' pd' isError'' rfl
  obtain ⟨_, _, same, low_zones⟩ := up.zones computes clear
  cases same
  obtain ⟨_, _, same, high_zones⟩ := down.zones computes rfl
  cases same
  refine ⟨rfl, rfl, fun p near zones zones' => ?_⟩
  obtain ⟨low₁, stopped⟩ := low_zones p zones
  obtain ⟨high₂, stopped'⟩ := high_zones p low₁.pivot
    (zones'.apart up.kept.items (by omega) high)
  have low₂ := low₁.apart down.kept.items (by omega) (by omega) (le_refl _)
  refine ⟨low₂, high₂, fun more => ⟨fun x at_pb => stopped (by omega) x ?_, (stopped' more).1⟩⟩
  rw [← (stopped' more).2 pb' more]
  exact at_pb

/-- The two scans stop at items that are out of place, and these are exchanged. -/
theorem ScannedUp.exchanged
    (up : ScannedUp le cmp xs a (pb + (pc + 1 - pb)) pa pb isError s
      (some (pa', pb', isError'), s₁))
    (down : ScannedDown le cmp xs a top pb' pc pd isError' s₁ (some (pc', pd', isError''), s₂))
    (first : a < pa) (high : pc ≤ pd) (computes : Computes cmp le xs) (clear : isError = false)
    (inside : pd < s₂.user.items.length) (met : pb' ≤ pc') (p : α) (near : pb ≤ pc + 1)
    (low : LowZones le p a pa pb s.user.items) (above : HighZones le p pc pd top s.user.items) :
    pb' < pc' ∧ LowZones le p a pa' (pb' + 1) (exchange pb' pc' s₂.user.items) ∧
      HighZones le p (pc' - 1) pd' top (exchange pb' pc' s₂.user.items) := by
  have bounds := up.bounds pa' pb' isError' rfl
  have bounds' := down.bounds pc' pd' isError'' rfl
  obtain ⟨low₂, high₂, stopped⟩ :=
    (up.zones_of_down le down first high computes clear).2.2 p near low above
  obtain ⟨above_p, below_p⟩ := stopped met
  -- an item that is neither at most the pivot nor at least it does not exist
  have apart : pb' < pc' := by
    by_contra same
    obtain rfl : pb' = pc' := by omega
    have at_pb := List.getElem?_eq_getElem (show pb' < s₂.user.items.length by omega)
    rcases computes.total s₂.user.items[pb'] p with atMost | atLeast
    · exact above_p _ at_pb atMost
    · exact below_p _ at_pb atLeast
  refine ⟨apart, low₂.crossed (by omega) (by omega) apart (by omega) fun x at_pc => ?_,
    high₂.crossed (by omega) apart (by omega) fun x at_pb => ?_⟩
  · exact (computes.total x p).resolve_right (below_p x at_pc)
  · exact (computes.total x p).resolve_left (above_p x at_pb)

end Scans

theorem partition_ends (defined : Defined cmp xs) {a top : Nat} (fuel : Nat) {cur : Cursors}
    {isError : Bool} {s : ArrayState α γ} (perm : s.user.items.Perm xs)
    (within : Within a top cur) (enough : cur.pc + 1 - cur.pb < fuel)
    (inside : top ≤ s.user.items.length) (watched : Watched isError s.calls) :
    Finishes (Partitioned le cmp xs a top cur isError s)
      (partition (arrayCallbacks cmp) a fuel cur isError s) := by
  induction fuel generalizing cur isError s with
  | zero => omega
  | succ fuel ih =>
      obtain ⟨pa, pb, pc, pd⟩ := cur
      obtain ⟨first, low, room, gap, above, high, last⟩ := within
      simp only at first low room gap above high last enough
      rw [partition]
      refine Post.bind (scanUp_ends le defined (pc + 1 - pb) pa pb perm first low (by omega)
        watched) ?_
      intro out _ up
      obtain ⟨out, s₁⟩ := out
      have kept₁ : Kept (a + 1) top s s₁ := up.kept.widen (le_refl _) (by omega)
      cases out with
      | none =>
          refine ⟨kept₁, fun _ => up.reported, fun cur' no => (by cases no),
            fun computes clear => ?_⟩
          obtain ⟨pa', pb', no, _⟩ := up.zones computes clear
          cases no
      | some t =>
        obtain ⟨pa', pb', isError'⟩ := t
        have bounds := up.bounds pa' pb' isError' rfl
        have length₁ : s₁.user.items.length = s.user.items.length := kept₁.items.length_eq
        refine Post.bind (scanDown_ends le defined (a := a) top (pc + 1 - pb') pc pd
          (kept₁.items.perm.trans perm) (by omega) rfl high (by omega) up.reported) ?_
        intro out _ down
        obtain ⟨out, s₂⟩ := out
        have kept₂ : Kept (a + 1) top s s₂ := kept₁.trans (down.kept.widen (by omega) (by omega))
        cases out with
        | none =>
            refine ⟨kept₂, fun _ => down.reported, fun cur' no => (by cases no),
              fun computes clear => ?_⟩
            obtain ⟨pa'', pb'', same, _⟩ := up.zones computes clear
            cases same
            obtain ⟨pc', pd', no, _⟩ := down.zones computes rfl
            cases no
        | some t =>
          obtain ⟨pc', pd', isError''⟩ := t
          have bounds' := down.bounds pc' pd' isError'' rfl
          have length₂ : s₂.user.items.length = s.user.items.length := kept₂.items.length_eq
          by_cases crossed : pb' > pc'
          · simp only [if_pos crossed]
            refine ⟨kept₂, fun no => (by cases no), fun cur' same => ?_, fun computes clear => ?_⟩
            · cases same
              refine ⟨?_, crossed, down.reported.unnoticed⟩
              constructor <;> simp only <;> omega
            · refine ⟨_, rfl, fun p near zones zones' => ?_⟩
              simp only at near
              obtain ⟨low₂, high₂, _⟩ :=
                (up.zones_of_down le down first high computes clear).2.2 p near zones zones'
              exact ⟨by simp only; omega, low₂, high₂⟩
          · simp only [if_neg crossed]
            rw [swapItems_runs cmp (by omega) (by omega), ok_bind]
            have kept₃ : Kept (a + 1) top s (s₂.swapped pb' pc') :=
              kept₂.trans (swapped_kept ⟨by omega, by omega⟩ ⟨by omega, by omega⟩ (by omega))
            have within₃ : Within a top ⟨pa', pb' + 1, pc' - 1, pd'⟩ := by
              constructor <;> simp only <;> omega
            have next := ih (kept₃.items.perm.trans perm) within₃ (by simp only; omega)
              (by rw [kept₃.items.length_eq]; exact inside) down.reported
            refine Post.mono next ?_ (fun _ no => no)
            intro out rest
            refine ⟨kept₃.trans rest.kept, rest.failed, rest.bounds, fun computes clear => ?_⟩
            obtain ⟨_, clear'', -⟩ := up.zones_of_down le down first high computes clear
            obtain ⟨cur', ends, divided⟩ := rest.zones computes clear''
            refine ⟨cur', ends, fun p near zones zones' => ?_⟩
            simp only at near
            obtain ⟨apart, low₃, high₃⟩ := up.exchanged le down first high computes clear
              (by omega) (by omega) p near zones zones'
            exact divided p (by simp only; omega) low₃ high₃

/-! ## The blocks at the ends of the range -/

/-- The state with the array changed to `ys`. -/
def SortState.withItems (s : ArrayState α γ) (ys : List α) : ArrayState α γ :=
  { s with user := { s.user with items := ys } }

/-- `ys` is `xs` with the blocks of `r` items at `i` and at `j` exchanged. -/
def BlocksExchanged (i j r : Nat) (xs ys : List α) : Prop :=
  ∀ k, ys[k]? =
    if i ≤ k ∧ k < i + r then xs[k + (j - i)]?
    else if j ≤ k ∧ k < j + r then xs[k - (j - i)]?
    else xs[k]?

omit le in
theorem vecswap_runs (cmp : Comparator α γ) (lo hi r : Nat) {i j : Nat}
    {s : ArrayState α γ} (low : lo ≤ i ∧ i + r ≤ hi) (high : lo ≤ j ∧ j + r ≤ hi)
    (inside : hi ≤ s.user.items.length) :
    ∃ ys, vecswap (arrayCallbacks cmp) i j r s = .ok (s.withItems ys) ∧
      Rearranged lo hi s.user.items ys ∧
      (i + r ≤ j → BlocksExchanged i j r s.user.items ys) := by
  induction r generalizing i j s with
  | zero =>
      refine ⟨s.user.items, rfl, Rearranged.refl lo hi _, fun _ k => ?_⟩
      rw [if_neg (by omega), if_neg (by omega)]
  | succ r ih =>
      have moved : Rearranged lo hi s.user.items (exchange i j s.user.items) :=
        exchange_rearranged ⟨low.1, by omega⟩ ⟨high.1, by omega⟩ inside
      obtain ⟨ys, ran, moved', blocks⟩ := ih (i := i + 1) (j := j + 1) (s := s.swapped i j)
        ⟨by omega, by omega⟩ ⟨by omega, by omega⟩ (by simpa using inside)
      refine ⟨ys, ?_, moved.trans moved', fun apart k => ?_⟩
      · rw [vecswap, swapItems_runs cmp (by omega) (by omega), ok_bind]
        exact ran
      · have exchanged := @getElem?_exchange _ i j s.user.items (by omega) (by omega)
        have shift : j + 1 - (i + 1) = j - i := by omega
        rw [blocks (by omega) k, swapped_items, exchanged, exchanged, exchanged, shift]
        -- each position is at the head of a block, in the rest of one, or in neither
        split_ifs <;> first | omega | rfl | (congr 1; omega)

/-- The items level with the pivot come after those that are at most it. -/
theorem LowZones.center {p : α} {a pa pb : Nat} {ys zs : List α} (zones : LowZones le p a pa pb ys)
    (first : a ≤ pa) (order : pa ≤ pb)
    (blocks : BlocksExchanged a (pb - min (pa - a) (pb - pa)) (min (pa - a) (pb - pa)) ys zs) :
    AllOn (fun x => le x p) a (a + (pb - pa)) zs ∧
      AllOn (fun x => le x p ∧ le p x) (a + (pb - pa)) pb zs := by
  refine ⟨fun k x above below at_k => ?_, fun k x above below at_k => ?_⟩
  · rw [blocks k] at at_k
    by_cases inBlock : k < a + min (pa - a) (pb - pa)
    · rw [if_pos ⟨above, inBlock⟩] at at_k
      exact zones.low _ x (by omega) (by omega) at_k
    · rw [if_neg (by omega), if_neg (by omega)] at at_k
      exact zones.low k x (by omega) (by omega) at_k
  · rw [blocks k] at at_k
    by_cases inBlock : pb - min (pa - a) (pb - pa) ≤ k
    · rw [if_neg (by omega), if_pos (by omega)] at at_k
      exact zones.level _ x (by omega) (by omega) at_k
    · rw [if_neg (by omega), if_neg (by omega)] at at_k
      exact zones.level k x (by omega) (by omega) at_k

/-- The items level with the pivot come before those that are at least it. -/
theorem HighZones.center {p : α} {pc pd top : Nat} {ys zs : List α}
    (zones : HighZones le p pc pd top ys) (order : pc ≤ pd) (last : pd < top)
    (blocks : BlocksExchanged (pc + 1) (top - min (pd - pc) (top - pd - 1))
      (min (pd - pc) (top - pd - 1)) ys zs) :
    AllOn (fun x => le x p ∧ le p x) (pc + 1) (top - (pd - pc)) zs ∧
      AllOn (fun x => le p x) (top - (pd - pc)) top zs := by
  refine ⟨fun k x above below at_k => ?_, fun k x above below at_k => ?_⟩
  · rw [blocks k] at at_k
    by_cases inBlock : k < pc + 1 + min (pd - pc) (top - pd - 1)
    · rw [if_pos ⟨above, inBlock⟩] at at_k
      exact zones.level _ x (by omega) (by omega) at_k
    · rw [if_neg (by omega), if_neg (by omega)] at at_k
      exact zones.level k x (by omega) (by omega) at_k
  · rw [blocks k] at at_k
    by_cases inBlock : top - min (pd - pc) (top - pd - 1) ≤ k
    · rw [if_neg (by omega), if_pos (by omega)] at at_k
      exact zones.high _ x (by omega) (by omega) at_k
    · rw [if_neg (by omega), if_neg (by omega)] at at_k
      exact zones.high k x (by omega) (by omega) at_k

/-! ## One pass -/

/-- The first `l` items of the range are at most `p`, the last `r` at least, those between
both. -/
structure Divided (p : α) (a n l r : Nat) (ys : List α) : Prop where
  fits : l + r ≤ n
  below : AllOn (fun x => le x p) a (a + l) ys
  level : AllOn (fun x => le x p ∧ le p x) (a + l) (a + n - r) ys
  above : AllOn (fun x => le p x) (a + n - r) (a + n) ys

/-- Once both blocks are exchanged the range is divided. -/
theorem LowZones.divided {p : α} {a n pa pc pd : Nat} {ys zs us : List α}
    (lows : LowZones le p a pa (pc + 1) ys) (highs : HighZones le p pc pd (a + n) ys)
    (first : a ≤ pa) (order : pa ≤ pc + 1) (order' : pc ≤ pd) (last : pd < a + n)
    (blocks : BlocksExchanged a (pc + 1 - min (pa - a) (pc + 1 - pa)) (min (pa - a) (pc + 1 - pa))
      ys zs)
    (blocks' : BlocksExchanged (pc + 1) (a + n - min (pd - pc) (a + n - pd - 1))
      (min (pd - pc) (a + n - pd - 1)) zs us)
    (moved : Rearranged (pc + 1) (a + n) zs us) :
    Divided le p a n (pc + 1 - pa) (pd - pc) us := by
  obtain ⟨below, level⟩ := lows.center le first order blocks
  have highs' : HighZones le p pc pd (a + n) zs := by
    refine ⟨fun k x lower upper at_k => ?_, fun k x lower upper at_k => ?_⟩
    · rw [blocks k, if_neg (by omega), if_neg (by omega)] at at_k
      exact highs.high k x lower upper at_k
    · rw [blocks k, if_neg (by omega), if_neg (by omega)] at at_k
      exact highs.level k x lower upper at_k
  obtain ⟨level', top⟩ := highs'.center le order' last blocks'
  refine ⟨by omega, below.apart moved (by omega), ?_, top.narrow (by omega) (le_refl _)⟩
  intro k x lower upper at_k
  by_cases part : k < pc + 1
  · exact level.apart moved (by omega) k x lower part at_k
  · exact level' k x (by omega) (by omega) at_k

/-- What the end of a pass says about its calls, and about the parts it leaves. -/
def PassReported (n : Nat) (calls : List CmpCall) : PassEnd → Prop
  | .returns result => result = false ↔ Noticed calls
  | .splits l r => l < n ∧ r < n ∧ ¬Noticed calls

/-- What the end of a pass says about the order of the items. -/
def PassSorted (a n : Nat) (ys : List α) : PassEnd → Prop
  | .returns result => result = true ∧ SortedOn le a (a + n) ys
  | .splits l r => ∃ p, Divided le p a n l r ys

theorem splitRange_ends (defined : Defined cmp xs) {a n : Nat} {s : ArrayState α γ}
    (perm : s.user.items.Perm xs) (large : 7 ≤ n) (inside : a + n ≤ s.user.items.length)
    (watched : Watched false s.calls) :
    Finishes (fun out => Kept a (a + n) s out.2 ∧ PassReported n out.2.calls out.1 ∧
        (Computes cmp le xs → PassSorted le a n out.2.user.items out.1))
      (splitRange (arrayCallbacks cmp) a n false s) := by
  rw [splitRange]
  refine Post.bind (pivot_ends le defined perm large inside) ?_
  intro out _ picked
  obtain ⟨out, s₁⟩ := out
  have items₁ : s₁.user.items = s.user.items := picked.items
  have kept₁ : Kept a (a + n) s s₁ :=
    ⟨by rw [items₁]; exact Rearranged.refl _ _ _, picked.passes⟩
  cases out with
  | none =>
      refine ⟨kept₁, ?_, fun computes => by cases picked.found computes⟩
      exact ⟨fun _ => picked.median.noticed.mpr (Or.inr rfl), fun _ => rfl⟩
  | some pm =>
    obtain ⟨low, high⟩ := picked.inside pm rfl
    have swap := swapItems_runs (s := s₁) cmp (i := a) (j := pm) (by rw [items₁]; omega)
      (by rw [items₁]; omega)
    simp only [swap, ok_bind]
    have kept₂ : Kept a (a + n) s (s₁.swapped a pm) :=
      kept₁.trans (swapped_kept ⟨by omega, by omega⟩ ⟨low, high⟩ (by rw [items₁]; exact inside))
    have length₂ : (s₁.swapped a pm).user.items.length = s.user.items.length :=
      kept₂.items.length_eq
    have within : Within a (a + n) ⟨a + 1, a + 1, a + (n - 1), a + (n - 1)⟩ := by
      constructor <;> simp only <;> omega
    refine Post.bind (partition_ends le defined n (kept₂.items.perm.trans perm) within
      (by simp only; omega) (by rw [length₂]; exact inside) (picked.median.watched watched)) ?_
    intro out _ parted
    obtain ⟨out, s₃⟩ := out
    obtain ⟨kept, noticed, bounds, zones⟩ := parted
    have kept₃ : Kept a (a + n) s s₃ := kept₂.trans (kept.widen (by omega) (le_refl _))
    have length₃ : s₃.user.items.length = s.user.items.length := kept₃.items.length_eq
    cases out with
    | none =>
        refine ⟨kept₃, ⟨fun _ => noticed rfl, fun _ => rfl⟩, fun computes => ?_⟩
        obtain ⟨cur, no, _⟩ := zones computes rfl
        cases no
    | some cur =>
      obtain ⟨pa, pb, pc, pd⟩ := cur
      obtain ⟨⟨first, order, room, gap, above, order', last⟩, crossed, unnoticed⟩ := bounds _ rfl
      simp only at first order room gap above order' last crossed
      obtain ⟨ys, ran, moved, blocks⟩ := vecswap_runs (s := s₃) cmp a (a + n)
        (min (pa - a) (pb - pa)) (i := a) (j := pb - min (pa - a) (pb - pa))
        ⟨by omega, by omega⟩ ⟨by omega, by omega⟩ (by rw [length₃]; exact inside)
      obtain ⟨zs, ran', moved', blocks'⟩ := vecswap_runs (s := s₃.withItems ys) cmp pb
        (a + n) (min (pd - pc) (a + n - pd - 1)) (i := pb)
        (j := a + n - min (pd - pc) (a + n - pd - 1)) ⟨by omega, by omega⟩ ⟨by omega, by omega⟩
        (by rw [SortState.withItems, moved.length_eq, length₃]; exact inside)
      simp only [ran, ok_bind, ran']
      refine ⟨⟨?_, kept₃.passes⟩, ⟨by omega, by omega, unnoticed⟩, fun computes => ?_⟩
      · exact (kept₃.items.trans moved).trans (moved'.widen (by omega) (le_refl _))
      · obtain ⟨cur, same, divides⟩ := zones computes rfl
        cases same
        obtain ⟨p, at_a⟩ : ∃ p, (s₁.swapped a pm).user.items[a]? = some p :=
          ⟨_, List.getElem?_eq_getElem (by rw [length₂]; omega)⟩
        -- the partition starts with the pivot alone in its zone
        have start : AllOn (fun x => le x p ∧ le p x) a (a + 1) (s₁.swapped a pm).user.items := by
          intro k x lower upper at_k
          have here : k = a := by omega
          subst here
          rw [at_a] at at_k
          cases at_k
          exact ⟨(computes.total p p).elim id id, (computes.total p p).elim id id⟩
        obtain ⟨next, lows, highs⟩ := divides p (by simp only; omega)
          ⟨at_a, start, AllOn.empty (by simp)⟩
          ⟨AllOn.empty (by simp), AllOn.empty (by simp only; omega)⟩
        simp only at next
        subst next
        have lows : LowZones le p a pa (pc + 1) s₃.user.items := lows
        have highs : HighZones le p pc pd (a + n) s₃.user.items := highs
        exact ⟨p, lows.divided le highs (by omega) order order' last (blocks (by omega))
          (blocks' (by omega)) moved'⟩

/-- A pass begins with no calls and with `is_error` clear. -/
theorem sortPass_ends (defined : Defined cmp xs) {a n : Nat} {s : ArrayState α γ}
    (perm : s.user.items.Perm xs) (inside : a + n ≤ s.user.items.length) :
    Finishes (fun out => Rearranged a (a + n) s.user.items out.2.user.items ∧
        out.2.passes = s.allPasses ∧ PassReported n out.2.calls out.1 ∧
        (Computes cmp le xs → PassSorted le a n out.2.user.items out.1))
      (sortPass (arrayCallbacks cmp) a n s) := by
  have watched : Watched false s.nextPass.calls := Watched.nil
  rw [sortPass]
  by_cases small : n < 7
  · simp only [if_pos small]
    cases n with
    | zero =>
        refine ⟨Rearranged.refl _ _ _, rfl, ?_, fun _ => ⟨rfl, SortedOn.short (by omega)⟩⟩
        exact ⟨fun no => (by cases no), fun noticed => (watched.unnoticed noticed).elim⟩
    | succ n =>
      refine Post.bind (insertionSort_ends le defined (a := a) n (k := 1) perm
        (by change a + 1 + n ≤ s.user.items.length; omega) watched) ?_
      intro out _ sorted
      obtain ⟨out, s'⟩ := out
      obtain ⟨kept, reported, sorts⟩ := sorted
      have whole : a + 1 + n = a + (n + 1) := by omega
      rw [whole] at kept sorts
      refine ⟨kept.items, kept.passes, ?_, fun computes => ?_⟩
      · cases out with
        | none => exact ⟨fun _ => reported, fun _ => rfl⟩
        | some e => exact ⟨fun no => (by cases no), fun noticed => (reported.unnoticed noticed).elim⟩
      · obtain ⟨ends, order⟩ := sorts computes rfl
        refine ⟨?_, order (SortedOn.short (le_refl _))⟩
        rw [show out = some false from ends]
        rfl
  · simp only [if_neg small]
    have inside' : a + 1 + (n - 1) ≤ s.nextPass.user.items.length := by
      change a + 1 + (n - 1) ≤ s.user.items.length
      omega
    refine Post.bind (presortedScan_ends le defined (a := a) (n - 1) (k := 1) perm (by omega)
      inside' watched) ?_
    intro out _ scanned
    obtain ⟨out, s'⟩ := out
    obtain ⟨kept, items, reported, clear, sorts⟩ := scanned
    have items : s'.user.items = s.user.items := items
    have moved : Rearranged a (a + n) s.user.items s'.user.items := by
      rw [items]
      exact Rearranged.refl _ _ _
    cases out with
    | none =>
        refine ⟨moved, kept.passes, ⟨fun _ => reported, fun _ => rfl⟩, fun computes => ?_⟩
        obtain ⟨presorted, no, _⟩ := sorts computes rfl
        cases no
    | some t =>
      obtain ⟨presorted, e⟩ := t
      cases presorted with
      | true =>
          refine ⟨moved, kept.passes, ⟨fun no => (by cases no), fun noticed => ?_⟩, fun computes => ?_⟩
          · exact (reported.unnoticed noticed).elim
          · obtain ⟨presorted, same, order⟩ := sorts computes rfl
            cases same
            refine ⟨rfl, ?_⟩
            have whole : a + 1 + (n - 1) = a + n := by omega
            rw [whole] at order
            rw [items]
            exact order rfl (SortedOn.short (le_refl _))
      | false =>
          cases clear e rfl
          refine Post.mono (splitRange_ends le defined (by rw [items]; exact perm) (by omega)
            (by rw [items]; exact inside) reported) ?_ (fun _ no => no)
          intro out post
          exact ⟨moved.trans post.1.items, post.1.passes.trans kept.passes, post.2.1, post.2.2⟩

/-! ## The whole run -/

/-- What a run on the positions from `a` on does: its passes come before the earlier ones, and
it returns 0 exactly when one of them noticed a failed call. -/
structure Sorted (cmp : Comparator α γ) (xs : List α) (a n : Nat) (s : ArrayState α γ)
    (out : Bool × ArrayState α γ) : Prop where
  items : Rearranged a (a + n) s.user.items out.2.user.items
  reports : ∃ passes, out.2.allPasses = passes ++ s.allPasses ∧
    (out.1 = false ↔ ∃ calls ∈ passes, Noticed calls)
  sorts : Computes cmp le xs → out.1 = true ∧ SortedOn le a (a + n) out.2.user.items

/-- Sorting `n` items takes fuel for `n` nested ranges at most. -/
theorem bentleyQsortPriv_ends (defined : Defined cmp xs) (fuel : Nat) {a n : Nat}
    {s : ArrayState α γ} (perm : s.user.items.Perm xs) (inside : a + n ≤ s.user.items.length)
    (enough : n < fuel) :
    Finishes (Sorted le cmp xs a n s) (bentleyQsortPriv (arrayCallbacks cmp) fuel a n s) := by
  induction fuel generalizing a n s with
  | zero => omega
  | succ fuel ih =>
    rw [bentleyQsortPriv]
    refine Post.bind (sortPass_ends le defined perm inside) ?_
    intro out _ pass
    obtain ⟨out, s₁⟩ := out
    obtain ⟨moved, passes, reported, sorted⟩ := pass
    have moved : Rearranged a (a + n) s.user.items s₁.user.items := moved
    have all : s₁.allPasses = [s₁.calls] ++ s.allPasses := by
      rw [SortState.allPasses, show s₁.passes = s.allPasses from passes]
      rfl
    cases out with
    | returns result =>
        exact ⟨moved, ⟨[s₁.calls], all, reported.trans (by simp)⟩, sorted⟩
    | splits left right =>
      obtain ⟨short, short', quiet⟩ := reported
      have length₁ := moved.length_eq
      -- sorting the last part, from a state in which the first is sorted
      have last : ∀ (s₂ : ArrayState α γ) (first : List (List CmpCall)),
          Rearranged a (a + left) s₁.user.items s₂.user.items →
          s₂.allPasses = first ++ s.allPasses → (¬∃ calls ∈ first, Noticed calls) →
          (Computes cmp le xs → SortedOn le a (a + left) s₂.user.items) →
          Finishes (Sorted le cmp xs a n s)
            (if right > 1 then
              bentleyQsortPriv (arrayCallbacks cmp) fuel (a + n - right) right s₂
            else .ok (true, s₂)) := by
        intro s₂ first moved₂ all₂ quiet₂ sorted₂
        have whole : a + n - right + right = a + n := by omega
        have moved₃ : Rearranged a (a + n) s.user.items s₂.user.items :=
          moved.trans (moved₂.widen (le_refl a) (by omega))
        -- the two parts and the middle make the range
        have joined : ∀ ys, Rearranged (a + n - right) (a + n) s₂.user.items ys →
            Computes cmp le xs → SortedOn le (a + n - right) (a + n) ys →
            SortedOn le a (a + n) ys := by
          intro ys moved₄ computes high
          obtain ⟨p, divided⟩ := sorted computes
          refine SortedOn.three computes.trans ((sorted₂ computes).apart moved₄ ?_) high
            ((divided.below.rearranged moved₂).apart moved₄ ?_)
            ((divided.level.apart moved₂ ?_).apart moved₄ ?_)
            ((divided.above.apart moved₂ ?_).rearranged moved₄)
          all_goals
            have fits := divided.fits
            omega
        by_cases more : right > 1
        · rw [if_pos more]
          refine Post.mono (ih (moved₃.perm.trans perm) (by rw [moved₃.length_eq]; omega)
            (by omega)) ?_ (fun _ no => no)
          intro out rest
          have moved₄ := rest.items
          rw [whole] at moved₄
          refine ⟨moved₃.trans (moved₄.widen (by omega) (le_refl _)), ?_, fun computes => ?_⟩
          · obtain ⟨later, all₄, returns⟩ := rest.reports
            refine ⟨later ++ first, by rw [all₄, all₂, List.append_assoc], returns.trans ?_⟩
            simp only [List.mem_append, or_and_right, exists_or, or_iff_left quiet₂]
          · obtain ⟨ends, high⟩ := rest.sorts computes
            rw [whole] at high
            exact ⟨ends, joined _ moved₄ computes high⟩
        · rw [if_neg more]
          refine ⟨moved₃, ⟨first, all₂, ?_⟩, fun computes => ⟨rfl, ?_⟩⟩
          · exact ⟨fun no => (by cases no), fun noticed => (quiet₂ noticed).elim⟩
          · exact joined _ (Rearranged.refl _ _ _) computes (SortedOn.short (by omega))
      simp only
      by_cases more : left > 1
      · rw [if_pos more]
        refine Post.bind (ih (moved.perm.trans perm) (by rw [length₁]; omega) (by omega)) ?_
        intro out _ rest
        obtain ⟨result, s₂⟩ := out
        obtain ⟨earlier, part, returns⟩ := rest.reports
        have all₂ : s₂.allPasses = (earlier ++ [s₁.calls]) ++ s.allPasses := by
          rw [show s₂.allPasses = earlier ++ s₁.allPasses from part, all, List.append_assoc]
        cases result with
        | true =>
            refine last s₂ _ rest.items all₂ ?_ fun computes => (rest.sorts computes).2
            intro noticed
            simp only [List.mem_append, List.mem_singleton, or_and_right, exists_or,
              exists_eq_left, or_iff_left quiet] at noticed
            cases returns.mpr noticed
        | false =>
            refine ⟨moved.trans (rest.items.widen (le_refl a) (by omega)), ⟨_, all₂, ?_⟩,
              fun computes => ?_⟩
            · refine returns.trans ?_
              simp only [List.mem_append, List.mem_singleton, or_and_right, exists_or,
                exists_eq_left, or_iff_left quiet]
            · cases (rest.sorts computes).1
      · rw [if_neg more]
        refine last s₁ [s₁.calls] (Rearranged.refl _ _ _) all ?_ fun _ =>
          SortedOn.short (by omega)
        simpa using quiet

/-- `bentley_sort_` on a whole array. -/
theorem bentleySort_ends (defined : Defined cmp xs) (own : γ) {fuel : Nat}
    (enough : xs.length < fuel) :
    ∃ result s, bentleySort (arrayCallbacks cmp) fuel xs.length ⟨xs, own⟩ = .ok (result, s) ∧
      s.user.items.Perm xs ∧
      (result = false ↔ ∃ calls ∈ s.allPasses, Noticed calls) ∧
      (Computes cmp le xs → result = true ∧ s.user.items.Pairwise le) := by
  have ends := bentleyQsortPriv_ends le defined fuel (s := ⟨⟨xs, own⟩, [], []⟩) (a := 0)
    (n := xs.length) (List.Perm.refl xs) (by simp) enough
  rw [bentleySort]
  cases ran : bentleyQsortPriv (arrayCallbacks cmp) fuel 0 xs.length ⟨⟨xs, own⟩, [], []⟩ with
  | error stop =>
      rw [ran] at ends
      exact ends.elim
  | ok out =>
      obtain ⟨result, s⟩ := out
      have sorted := ends.of_ok ran
      obtain ⟨passes, all, returns⟩ := sorted.reports
      refine ⟨result, s, rfl, sorted.items.perm, ?_, fun computes => ?_⟩
      · rw [returns, show s.allPasses = passes ++ [[]] from all]
        simp [Noticed]
      · obtain ⟨result_true, order⟩ := sorted.sorts computes
        refine ⟨result_true, SortedOn.pairwise ?_⟩
        have length : s.user.items.length = xs.length := sorted.items.length_eq
        rw [Nat.zero_add] at order
        rw [length]
        exact order

/-! ## Sorting -/

/-- A comparator that is a function: it has no undefined behaviour of its own. -/
def total (cmp : Nat → Nat → List α → γ → (Bool × Int) × γ) : Comparator α γ :=
  fun i j ys g => .ok (cmp i j ys g)

omit le in
theorem total_defined (cmp : Nat → Nat → List α → γ → (Bool × Int) × γ) (xs : List α) :
    Defined (total cmp) xs := fun _ _ _ _ _ _ _ => ⟨_, rfl⟩

/-- A comparator that never fails and computes a total preorder sorts every array. -/
theorem bentleySort_sorts (cmp : Nat → Nat → List α → γ → (Bool × Int) × γ) (xs : List α) (own : γ)
    (computes : Computes (total cmp) le xs) (fuel : Nat) (enough : xs.length < fuel) :
    ∃ s, bentleySort (arrayCallbacks (total cmp)) fuel xs.length ⟨xs, own⟩ = .ok (true, s) ∧
      s.user.items.Perm xs ∧ s.user.items.Pairwise le := by
  obtain ⟨result, s, ran, perm, _, sorts⟩ :=
    bentleySort_ends le (total_defined cmp xs) own enough
  obtain ⟨same, sorted⟩ := sorts computes
  exact ⟨s, by rw [ran, same], perm, sorted⟩

/-- The comparator of two natural numbers of the array. -/
def cmpNat (i j : Nat) (ys : List Nat) (g : Unit) : (Bool × Int) × Unit :=
  ((true, (ys.getD i 0 : Int) - ys.getD j 0), g)

theorem cmpNat_computes (xs : List Nat) : Computes (total cmpNat) (· ≤ ·) xs where
  total := Nat.le_total
  trans _ _ _ := Nat.le_trans
  answers ys _ i j x y g at_i at_j answer own answered := by
    cases answered
    refine ⟨rfl, ?_⟩
    simp only [List.getD_eq_getElem?_getD, at_i, at_j, Option.getD_some]
    omega

/-- Nine items, of which the pivot is a median of three. -/
theorem bentleySort_sorts_nine :
    ∃ s, bentleySort (arrayCallbacks (total cmpNat)) 10 9 ⟨[5, 2, 8, 0, 6, 2, 1, 7, 4], ()⟩ =
        .ok (true, s) ∧
      s.user.items.Perm [5, 2, 8, 0, 6, 2, 1, 7, 4] ∧ s.user.items.Pairwise (· ≤ ·) :=
  bentleySort_sorts (· ≤ ·) cmpNat [5, 2, 8, 0, 6, 2, 1, 7, 4] () (cmpNat_computes _) 10 (by decide)

end Pointless
