import Pointless.Defs
import Pointless.Lib.InPlace

/-!
# Sorting through callbacks

The sort of `custom_sort.c`. It works on positions only: `cmp` and `swap` are
given two positions and `user`.

`is_error` is passed from loop to loop as the C code does. A loop that leaves the
function by `return 0` returns `none`, and otherwise `is_error`. The calls of `cmp`
are kept beside `user`: the code has no such list, it is what statements about a
run refer to.

`bentley_qsort_priv` returns 1 for a negative `n` as it does for 0, so `n` is a
natural number here and the conversion of an `int` is `Int.toNat`.
-/

namespace Pointless

/-- The five places where `cmp` is called. -/
inductive CallSite where
  | insertion
  | presorted
  | median
  | up
  | down
  deriving DecidableEq, Repr

/-- A call of `cmp`: whether it returned nonzero, and what it left in `*c`. -/
structure CmpCall where
  site : CallSite
  ok : Bool
  c : Int
  deriving DecidableEq, Repr

/-- `qsort_cmp_` and `qsort_swap_`; `user` points to a `σ`. -/
structure SortCallbacks (σ : Type) where
  cmp : Nat → Nat → σ → Res ((Bool × Int) × σ)
  swap : Nat → Nat → σ → Res σ

/-- `user`, the calls of `cmp` since `loop:` was last reached, and those of the
earlier passes. The latest is first. -/
structure SortState (σ : Type) where
  user : σ
  calls : List CmpCall
  passes : List (List CmpCall)

variable {σ : Type}

/-- The calls of the run, pass by pass. -/
def SortState.allPasses (s : SortState σ) : List (List CmpCall) := s.calls :: s.passes

/-- `loop:` is reached. -/
def SortState.nextPass (s : SortState σ) : SortState σ :=
  { s with calls := [], passes := s.calls :: s.passes }

/-- `cmp_adapter`. -/
def cmpAdapter (cb : SortCallbacks σ) (site : CallSite) (a b : Nat) (isError : Bool)
    (s : SortState σ) : Res (Int × Bool × SortState σ) := do
  let ((ok, c), user) ← cb.cmp a b s.user
  return (c, isError || !ok, { s with user := user, calls := ⟨site, ok, c⟩ :: s.calls })

/-- `(*swap)(a, b, user)`. -/
def swapItems (cb : SortCallbacks σ) (a b : Nat) (s : SortState σ) : Res (SortState σ) := do
  let user ← cb.swap a b s.user
  return { s with user := user }

/-- `med3`; `none` is its -1. -/
def med3 (cb : SortCallbacks σ) (a b c : Nat) (s : SortState σ) :
    Res (Option Nat × SortState σ) := do
  let (ab, isError, s) ← cmpAdapter cb .median a b false s
  let (bc, isError, s) ← cmpAdapter cb .median b c isError s
  if ab < 0 then
    if bc < 0 then
      return (if isError then none else some b, s)
    else
      let (ac, isError, s) ← cmpAdapter cb .median a c isError s
      return (if isError then none else some (if ac < 0 then c else a), s)
  else
    if bc > 0 then
      return (if isError then none else some b, s)
    else
      let (ac, isError, s) ← cmpAdapter cb .median a c isError s
      return (if isError then none else some (if ac < 0 then a else c), s)

/-- The inner loop of the insertion sort, at `pl = a + k`. -/
def insertionInner (cb : SortCallbacks σ) (a : Nat) :
    Nat → Bool → SortState σ → Res (Option Bool × SortState σ)
  | 0, isError, s => return (some isError, s)
  | k + 1, isError, s => do
    let (c, isError, s) ← cmpAdapter cb .insertion (a + k) (a + k + 1) isError s
    if c > 0 then
      if isError then
        return (none, s)
      else
        let s ← swapItems cb (a + k + 1) (a + k) s
        insertionInner cb a k isError s
    else
      return (some isError, s)

/-- The insertion sort, at `pm = a + k` with `rounds` positions left. -/
def insertionSort (cb : SortCallbacks σ) (a : Nat) :
    Nat → Nat → Bool → SortState σ → Res (Option Bool × SortState σ)
  | 0, _, isError, s => return (some isError, s)
  | rounds + 1, k, isError, s => do
    let (out, s) ← insertionInner cb a k isError s
    match out with
    | none => return (none, s)
    | some isError => insertionSort cb a rounds (k + 1) isError s

/-- The scan for a presorted range, at `pm` with `rounds` positions left: `presorted`, with
`is_error`. -/
def presortedScan (cb : SortCallbacks σ) :
    Nat → Nat → Bool → SortState σ → Res (Option (Bool × Bool) × SortState σ)
  | 0, _, isError, s => return (some (true, isError), s)
  | rounds + 1, pm, isError, s => do
    let (c, isError, s) ← cmpAdapter cb .presorted (pm - 1) pm isError s
    if c > 0 then
      return (if isError then none else some (false, isError), s)
    else
      presortedScan cb rounds (pm + 1) isError s

/-- The three candidates for the pivot: `pl`, `pm` and `pn`. -/
def candidates (cb : SortCallbacks σ) (a n : Nat) (s : SortState σ) :
    Res (Option (Nat × Nat × Nat) × SortState σ) :=
  let pl := a
  let pm := a + n / 2
  let pn := a + (n - 1)
  if n > 40 then do
    let d := n / 8
    let (pl, s) ← med3 cb pl (pl + d) (pl + 2 * d) s
    let (pm, s) ← med3 cb (pm - d) pm (pm + d) s
    let (pn, s) ← med3 cb (pn - 2 * d) (pn - d) pn s
    match pl, pm, pn with
    | some pl, some pm, some pn => return (some (pl, pm, pn), s)
    | _, _, _ => return (none, s)
  else
    return (some (pl, pm, pn), s)

/-- The position of the pivot: the middle of seven items, else a median of three, of nine
in a range of more than forty. -/
def pivot (cb : SortCallbacks σ) (a n : Nat) (s : SortState σ) :
    Res (Option Nat × SortState σ) :=
  if n > 7 then do
    let (out, s) ← candidates cb a n s
    match out with
    | none => return (none, s)
    | some (pl, pm, pn) => med3 cb pl pm pn s
  else
    return (some (a + n / 2), s)

/-- The first scan of the partition. `left` is the number of positions from `pb` to `pc`. -/
def scanUp (cb : SortCallbacks σ) (a : Nat) :
    Nat → Nat → Nat → Bool → SortState σ → Res (Option (Nat × Nat × Bool) × SortState σ)
  | 0, pa, pb, isError, s => return (some (pa, pb, isError), s)
  | left + 1, pa, pb, isError, s => do
    let (r, isError, s) ← cmpAdapter cb .up pb a isError s
    if r ≤ 0 then
      if isError then
        return (none, s)
      else if r = 0 then
        let s ← swapItems cb pa pb s
        scanUp cb a left (pa + 1) (pb + 1) isError s
      else
        scanUp cb a left pa (pb + 1) isError s
    else
      return (some (pa, pb, isError), s)

/-- The second scan of the partition. -/
def scanDown (cb : SortCallbacks σ) (a : Nat) :
    Nat → Nat → Nat → Bool → SortState σ → Res (Option (Nat × Nat × Bool) × SortState σ)
  | 0, pc, pd, isError, s => return (some (pc, pd, isError), s)
  | left + 1, pc, pd, isError, s => do
    let (r, isError, s) ← cmpAdapter cb .down pc a isError s
    if r ≥ 0 then
      if isError then
        return (none, s)
      else if r = 0 then
        let s ← swapItems cb pc pd s
        scanDown cb a left (pc - 1) (pd - 1) isError s
      else
        scanDown cb a left (pc - 1) pd isError s
    else
      return (some (pc, pd, isError), s)

/-- `pa`, `pb`, `pc` and `pd`. -/
structure Cursors where
  pa : Nat
  pb : Nat
  pc : Nat
  pd : Nat
  deriving DecidableEq, Repr

/-- The partition, `for (;;)`. -/
def partition (cb : SortCallbacks σ) (a : Nat) :
    Nat → Cursors → Bool → SortState σ → Res (Option Cursors × SortState σ)
  | 0, _, _, _ => fault .diverges
  | fuel + 1, ⟨pa, pb, pc, pd⟩, isError, s => do
    let (out, s) ← scanUp cb a (pc + 1 - pb) pa pb isError s
    match out with
    | none => return (none, s)
    | some (pa, pb, isError) =>
      let (out, s) ← scanDown cb a (pc + 1 - pb) pc pd isError s
      match out with
      | none => return (none, s)
      | some (pc, pd, isError) =>
        if pb > pc then
          return (some ⟨pa, pb, pc, pd⟩, s)
        else
          let s ← swapItems cb pb pc s
          partition cb a fuel ⟨pa, pb + 1, pc - 1, pd⟩ isError s

/-- `vecswap(i, j, r)`. -/
def vecswap (cb : SortCallbacks σ) : Nat → Nat → Nat → SortState σ → Res (SortState σ)
  | _, _, 0, s => return s
  | i, j, r + 1, s => do
    let s ← swapItems cb i j s
    vecswap cb (i + 1) (j + 1) r s

/-- How a pass ends: the function returns, or the first and the last positions of the range
are still to be sorted. -/
inductive PassEnd where
  | returns (result : Bool)
  | splits (left right : Nat)
  deriving DecidableEq, Repr

/-- From the choice of the pivot to the end of the partition. -/
def splitRange (cb : SortCallbacks σ) (a n : Nat) (isError : Bool) (s : SortState σ) :
    Res (PassEnd × SortState σ) := do
  let (out, s) ← pivot cb a n s
  match out with
  | none => return (.returns false, s)
  | some pm =>
    let s ← swapItems cb a pm s
    let (out, s) ← partition cb a n ⟨a + 1, a + 1, a + (n - 1), a + (n - 1)⟩ isError s
    match out with
    | none => return (.returns false, s)
    | some ⟨pa, pb, pc, pd⟩ =>
      let pn := a + n
      let r := min (pa - a) (pb - pa)
      let s ← vecswap cb a (pb - r) r s
      let r := min (pd - pc) (pn - pd - 1)
      let s ← vecswap cb pb (pn - r) r s
      return (.splits (pb - pa) (pd - pc), s)

/-- The body of `bentley_qsort_priv` from `loop:` up to the recursion. -/
def sortPass (cb : SortCallbacks σ) (a n : Nat) (s : SortState σ) :
    Res (PassEnd × SortState σ) := do
  let s := s.nextPass
  if n < 7 then
    let (out, s) ← insertionSort cb a (n - 1) 1 false s
    return (.returns out.isSome, s)
  else
    let (out, s) ← presortedScan cb (n - 1) (a + 1) false s
    match out with
    | none => return (.returns false, s)
    | some (true, _) => return (.returns true, s)
    | some (false, isError) => splitRange cb a n isError s

/-- `bentley_qsort_priv`. Both the recursive call and `goto loop` take fuel. -/
def bentleyQsortPriv (cb : SortCallbacks σ) :
    Nat → Nat → Nat → SortState σ → Res (Bool × SortState σ)
  | 0, _, _, _ => fault .diverges
  | fuel + 1, a, n, s => do
    let (out, s) ← sortPass cb a n s
    match out with
    | .returns result => return (result, s)
    | .splits left right =>
      if left > 1 then
        let (result, s) ← bentleyQsortPriv cb fuel a left s
        if result then
          if right > 1 then bentleyQsortPriv cb fuel (a + n - right) right s
          else return (true, s)
        else
          return (false, s)
      else if right > 1 then
        bentleyQsortPriv cb fuel (a + n - right) right s
      else
        return (true, s)

/-- `bentley_sort_`. -/
def bentleySort (cb : SortCallbacks σ) (fuel n : Nat) (user : σ) : Res (Bool × SortState σ) :=
  bentleyQsortPriv cb fuel 0 n ⟨user, [], []⟩

/-! ## Sorting an array -/

/-- A `user` that holds the array to be sorted, beside what the comparator keeps. -/
structure SortUser (α γ : Type) where
  items : List α
  own : γ

/-- A comparator of two positions, which may look at the whole array and at its own state: its
answer, or a fault. -/
abbrev Comparator (α γ : Type) := Nat → Nat → List α → γ → Res ((Bool × Int) × γ)

/-- Callbacks on an array; `swap` exchanges two items. A position outside the array is a
fault. -/
def arrayCallbacks {α γ : Type} (cmp : Comparator α γ) : SortCallbacks (SortUser α γ) where
  cmp i j user :=
    if i < user.items.length ∧ j < user.items.length then do
      let (answer, own) ← cmp i j user.items user.own
      return (answer, { user with own := own })
    else fault .outOfBounds
  swap i j user :=
    if i < user.items.length ∧ j < user.items.length then
      return { user with items := InPlace.exchange i j user.items }
    else fault .outOfBounds

end Pointless
