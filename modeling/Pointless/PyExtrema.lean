import Mathlib.Order.Bounds.Defs
import Pointless.PyFileVectorSlices
import Pointless.PyPrimVectorItems
import Pointless.PySortProjSound

/-!
# `max`, `min` and `range`

Both vectors look for the positions of their extremes with the same loop, and both keep
what it finds to themselves: `min_i_out` and `max_i_out` are not set. So `max`, `min` and
`range` read item 0, and are right exactly where all items are equal.
-/

namespace Pointless

open ExceptRules

/-! ## The loop -/

/-- `>` in the macros. -/
def itemGreater (t : NumberType) (x y : Int) : Bool :=
  if t = .float then
    cmpFloat (floatOperand (UInt32.ofInt y)) (floatOperand (UInt32.ofInt x)) = -1
  else y < x

/-- A round of `POINTLESS_PRIMVECTOR_MIN_MAX_LOOP` and `POINTLESS_VECTOR_MIN_MAX_LOOP`, on
`min_i` and `max_i`. -/
def extremaRound (t : NumberType) (item : Nat → Res Int) (m : Nat × Nat) (i : Nat) :
    Res (Nat × Nat) := do
  let x ← item i
  let high ← item m.2
  let maxI := if itemGreater t x high then i else m.2
  let low ← item m.1
  let minI := if itemGreater t low x then i else m.1
  return (minI, maxI)

/-- `POINTLESS_PRIMVECTOR_MIN_MAX_LOOP` and `POINTLESS_VECTOR_MIN_MAX_LOOP`. -/
def extremaLoop (t : NumberType) (item : Nat → Res Int) (n : Nat) : Res (Nat × Nat) :=
  (List.range (n - 1)).foldlM (fun m i => extremaRound t item m (i + 1)) (0, 0)

/-! ## A PrimVector -/

/-- `PyPointlessPrimVector_min_max`, with what `*min_i_out` and `*max_i_out` hold. -/
def primMinMax (self : PrimVectorObject) (out : Nat × Nat) : Res (Nat × Nat) :=
  let nItems := self.array.nItems
  if nItems = 0 then fail "vector is empty"
  else
    match NumberType.ofPrimType self.type with
    | none => fail "bad argument to internal function"
    | some t => do
        -- `min_i` and `max_i` are dropped
        let _ ← extremaLoop t (primElement self t) nItems
        return out

/-- `PyPointlessPrimVector_max`. -/
def primMax (self : PrimVectorObject) : Res PyNumber := do
  let (_, maxI) ← primMinMax self (0, 0)
  primSubscriptPriv self (UInt32.ofNat maxI)

/-- `PyPointlessPrimVector_min`. -/
def primMin (self : PrimVectorObject) : Res PyNumber := do
  let (minI, _) ← primMinMax self (0, 0)
  primSubscriptPriv self (UInt32.ofNat minI)

/-- `PyPointlessPrimVector_range`. -/
def primRange (self : PrimVectorObject) : Res (PyNumber × PyNumber) := do
  let (minI, maxI) ← primMinMax self (0, 0)
  let lower ← primSubscriptPriv self (UInt32.ofNat minI)
  let upper ← primSubscriptPriv self (UInt32.ofNat maxI)
  return (lower, upper)

/-! ## A vector of a file -/

/-- `PyPointlessVector_min_max`, with what `*min_i_out` and `*max_i_out` hold. -/
def pyVectorMinMax (self : PyPointlessVector) (out : Nat × Nat) : Res (Nat × Nat) :=
  if self.v.type = .vectorEmpty then fail "vector is empty"
  else
    match itemType? self.v.type with
    | none => fail "only primitive vectors support this operation"
    | some t => do
        let base ← readerVectorBasePtr self.pp self.v
        if self.sliceN = 0 then fail "vector is empty"
        else
          -- `min_i` and `max_i` are dropped
          let _ ← extremaLoop t (sliceItem self.pp t base self.sliceI self.sliceN)
            self.sliceN.toNat
          return out

/-- `PyPointlessVector_max`. -/
def pyVectorMax (self : PyPointlessVector) : Res PyFileObject := do
  let (_, maxI) ← pyVectorMinMax self (0, 0)
  pyVectorSubscriptPriv self (UInt32.ofNat maxI)

/-- `PyPointlessVector_min`. -/
def pyVectorMin (self : PyPointlessVector) : Res PyFileObject := do
  let (minI, _) ← pyVectorMinMax self (0, 0)
  pyVectorSubscriptPriv self (UInt32.ofNat minI)

/-- `PyPointlessVector_range`. -/
def pyVectorRange (self : PyPointlessVector) : Res (PyFileObject × PyFileObject) := do
  let (minI, maxI) ← pyVectorMinMax self (0, 0)
  let lower ← pyVectorSubscriptPriv self (UInt32.ofNat minI)
  let upper ← pyVectorSubscriptPriv self (UInt32.ofNat maxI)
  return (lower, upper)

/-! ## What the loop finds -/

section Loop

variable {t : NumberType} {item : Nat → Res Int} {zs : List Int}

/-- Positions of a least and of a greatest one of the first `n` items. -/
structure Extremes (zs : List Int) (n : Nat) (m : Nat × Nat) : Prop where
  min_lt : m.1 < n
  max_lt : m.2 < n
  least : ∀ k < n, zs.getD m.1 0 ≤ zs.getD k 0
  greatest : ∀ k < n, zs.getD k 0 ≤ zs.getD m.2 0

theorem Extremes.round {n : Nat} {m : Nat × Nat} (found : Extremes zs n m) (whole : t ≠ .float)
    (items : ∀ k < zs.length, item k = .ok (zs.getD k 0)) (less : n < zs.length) :
    ∃ m', extremaRound t item m n = .ok m' ∧ Extremes zs (n + 1) m' := by
  have min_lt := found.min_lt
  have max_lt := found.max_lt
  have least := found.least
  have greatest := found.greatest
  have greater : ∀ x y, itemGreater t x y = decide (y < x) := by
    intro x y
    rw [itemGreater, if_neg whole]
  refine ⟨(if zs.getD n 0 < zs.getD m.1 0 then n else m.1,
    if zs.getD m.2 0 < zs.getD n 0 then n else m.2), ?_, ?_⟩
  · simp only [extremaRound, items n less, items m.1 (by omega), items m.2 (by omega), ok_bind,
      greater, decide_eq_true_eq, pure_eq_ok]
  · have within : ∀ k < n + 1, k < n ∨ k = n := fun k le => by omega
    constructor
    · dsimp only
      split <;> omega
    · dsimp only
      split <;> omega
    · intro k le
      dsimp only
      split
      case isTrue lower =>
        rcases within k le with before | rfl
        · exact Int.le_trans (Int.le_of_lt lower) (least k before)
        · exact Int.le_refl _
      case isFalse higher =>
        rcases within k le with before | rfl
        · exact least k before
        · exact Int.not_lt.mp higher
    · intro k le
      dsimp only
      split
      case isTrue higher =>
        rcases within k le with before | rfl
        · exact Int.le_trans (greatest k before) (Int.le_of_lt higher)
        · exact Int.le_refl _
      case isFalse lower =>
        rcases within k le with before | rfl
        · exact greatest k before
        · exact Int.not_lt.mp lower

/-- The loop finds the extremes of a vector that has items. -/
theorem extremaLoop_finds (whole : t ≠ .float)
    (items : ∀ k < zs.length, item k = .ok (zs.getD k 0)) (nonempty : zs ≠ []) :
    ∃ m, extremaLoop t item zs.length = .ok m ∧ Extremes zs zs.length m := by
  have some_item := List.length_pos_iff.mpr nonempty
  have rounds : ∀ n < zs.length, ∃ m,
      (List.range n).foldlM (fun m i => extremaRound t item m (i + 1)) (0, 0) = .ok m ∧
        Extremes zs (n + 1) m := by
    intro n
    induction n with
    | zero =>
        intro _
        have only : ∀ k < 0 + 1, k = 0 := fun k less => by omega
        refine ⟨(0, 0), rfl, Nat.zero_lt_one, Nat.zero_lt_one, ?_, ?_⟩ <;>
        · intro k less
          rw [only k less]
    | succ n ih =>
        intro less
        obtain ⟨m, ran, found⟩ := ih (Nat.lt_of_succ_lt less)
        obtain ⟨m', round, found'⟩ := found.round whole items less
        refine ⟨m', ?_, found'⟩
        rw [foldlM_range_succ, ran, ok_bind, round]
  obtain ⟨m, ran, found⟩ := rounds (zs.length - 1) (Nat.sub_one_lt_of_lt some_item)
  refine ⟨m, ran, ?_⟩
  rw [Nat.sub_add_cancel some_item] at found
  exact found

end Loop

/-! ## What the methods return -/

/-- The two kinds of vectors of integers. -/
inductive IntegerVector where
  | prim (v : PrimVectorObject)
  | file (vector : PyPointlessVector)

/-- The vector is a PrimVector of the integers `zs`, or a slice of an integer vector of an
accepted file in which they are visible. -/
inductive IntegerVector.Holds : IntegerVector → List Int → Prop
  | prim {v zs} {t : NumberType} (whole : t ≠ .float) (shows : v.Shows t zs) : Holds (.prim v) zs
  | file {vector zs} (visible : ValueVector (.vector vector.pp vector.v vector.sliceI
      vector.sliceN) zs) : Holds (.file vector) zs

/-- An item of a vector of a file as a number. -/
def PyFileObject.number : PyFileObject → Option PyNumber
  | int v => some (.int v)
  | float bits => some (.float bits)
  | _ => .none

/-- `max()`. -/
def IntegerVector.max : IntegerVector → Res (Option PyNumber)
  | prim v => some <$> primMax v
  | file vector => PyFileObject.number <$> pyVectorMax vector

/-- `min()`. -/
def IntegerVector.min : IntegerVector → Res (Option PyNumber)
  | prim v => some <$> primMin v
  | file vector => PyFileObject.number <$> pyVectorMin vector

/-- `range()`. -/
def IntegerVector.range : IntegerVector → Res (Option PyNumber × Option PyNumber)
  | prim v => (fun r => (some r.1, some r.2)) <$> primRange v
  | file vector => (fun r => (r.1.number, r.2.number)) <$> pyVectorRange vector

/-- `max()` is a greatest element, `min()` a least one, and `range()` is the pair. -/
def ExtremaMeet (a : IntegerVector) (zs : List Int) : Prop :=
  ∃ low high, a.max = .ok (some (.int high)) ∧ a.min = .ok (some (.int low)) ∧
    a.range = .ok (some (.int low), some (.int high)) ∧
    IsGreatest {z | z ∈ zs} high ∧ IsLeast {z | z ∈ zs} low

theorem primMinMax_eq {v : PrimVectorObject} {t : NumberType} {zs : List Int} (whole : t ≠ .float)
    (shows : v.Shows t zs) (nonempty : zs ≠ []) (out : Nat × Nat) : primMinMax v out = .ok out := by
  have length : v.array.nItems = zs.length := shows.length
  have items : ∀ k < zs.length, primElement v t k = .ok (zs.getD k 0) := by
    intro k less
    rw [shows.element less, List.getD_eq_getElem _ _ less]
  obtain ⟨m, ran, -⟩ := extremaLoop_finds whole items nonempty
  rw [primMinMax]
  simp only [length]
  rw [if_neg (by rw [List.length_eq_zero_iff]; exact nonempty), shows.type,
    NumberType.ofPrimType_primType]
  simp only [ran, ok_bind, pure_eq_ok]

theorem pyVectorItemAt_typed {t : NumberType} (whole : t ≠ .float) {p : OpenFile} {v : Value}
    (type : v.type = t.vectorType) (i : UInt32) :
    pyVectorItemAt p v i = .int <$> t.toInt <$> readerVectorWord p v t.size i.toNat := by
  unfold pyVectorItemAt
  rw [type]
  cases t with
  | float => exact absurd rfl whole
  | _ => rfl

/-- The first item is what all three methods return. -/
theorem IntegerVector.Holds.first {a : IntegerVector} {zs : List Int} (holds : a.Holds zs)
    (nonempty : zs ≠ []) :
    a.max = .ok (some (.int (zs.head nonempty))) ∧ a.min = .ok (some (.int (zs.head nonempty))) ∧
      a.range = .ok (some (.int (zs.head nonempty)), some (.int (zs.head nonempty))) := by
  have some_item := List.length_pos_iff.mpr nonempty
  have first : zs.head nonempty = zs[0] := List.head_eq_getElem nonempty
  rw [first]
  cases holds with
  | prim whole shows =>
      have read := shows.subscriptPriv whole (i := UInt32.ofNat 0) some_item
      simp only [max, min, range, primMax, primMin, primRange, primMinMax_eq whole shows nonempty,
        ok_bind, read, map_ok, pure_eq_ok]
      exact ⟨rfl, rfl, rfl⟩
  | @file vector _ visible =>
      obtain ⟨p, v, i, n⟩ := vector
      cases visible with
      | @typed buf fuel _ error _ nItems _ _ _ t opened reach whole type total inside length items =>
          dsimp only at opened reach type total inside length items
          have nonzero : n ≠ 0 := by
            intro zero
            rw [zero] at length
            exact Nat.ne_of_gt some_item length
          have notEmpty : v.type ≠ .vectorEmpty := type ▸ vectorType_ne_empty t
          obtain ⟨off, base⟩ := exists_vectorBasePtr opened reach type
          have each : ∀ k < zs.length, sliceItem p t off i n k = .ok (zs.getD k 0) := by
            intro k less
            rw [sliceItem, if_pos (by omega), List.getD_eq_getElem _ _ less, ← items k less,
              readerVectorWord, base, ok_bind]
          obtain ⟨found, ran, -⟩ := extremaLoop_finds whole each nonempty
          have minMax : ∀ out, pyVectorMinMax ⟨p, v, i, n⟩ out = .ok out := by
            intro out
            rw [length] at ran
            rw [pyVectorMinMax, if_neg notEmpty]
            simp only [type, itemType?_vectorType, base, ok_bind, if_neg nonzero, ran, pure_eq_ok]
          have read : pyVectorSubscriptPriv ⟨p, v, i, n⟩ (UInt32.ofNat 0) = .ok (.int zs[0]) := by
            have at_i : UInt32.ofNat 0 + i = i := UInt32.zero_add i
            have loaded := items 0 some_item
            rw [Nat.add_zero] at loaded
            rw [pyVectorSubscriptPriv, pyVectorItemAt_typed whole type, at_i, loaded, map_ok]
          simp only [max, min, range, pyVectorMax, pyVectorMin, pyVectorRange, minMax, ok_bind,
            read, map_ok, pure_eq_ok]
          exact ⟨rfl, rfl, rfl⟩
      | empty => exact absurd rfl nonempty

/-- The methods are right exactly where all elements are equal. -/
theorem extremaMeet_iff {a : IntegerVector} {zs : List Int} (holds : a.Holds zs)
    (nonempty : zs ≠ []) : ExtremaMeet a zs ↔ ∀ x ∈ zs, ∀ y ∈ zs, x = y := by
  obtain ⟨max, min, range⟩ := holds.first nonempty
  have first := List.head_mem nonempty
  constructor
  · intro meets x mem_x y mem_y
    obtain ⟨low, high, max', min', -, greatest, least⟩ := meets
    rw [max] at max'
    rw [min] at min'
    cases max'
    cases min'
    have same : ∀ z ∈ zs, z = zs.head nonempty := fun z mem =>
      Int.le_antisymm (greatest.2 mem) (least.2 mem)
    rw [same x mem_x, same y mem_y]
  · intro same
    refine ⟨_, _, max, min, range, ⟨first, ?_⟩, ⟨first, ?_⟩⟩ <;>
    · intro z mem
      exact Int.le_of_eq (same _ ‹_› _ ‹_›)

/-- A slice of the five items, from the second on. -/
theorem fiveVector_visible {zs : List Int} {n : UInt32} (length : zs.length = n.toNat)
    (first : zs <+: [5, 5, 2 ^ 32, 2 ^ 64 - 1]) :
    ValueVector (.vector fiveVectorOpened ⟨.vectorU64, 0⟩ 1 n) zs := by
  have few : zs.length ≤ 4 := first.length_le
  have all : ∀ k < 4, NumberType.u64.toInt <$>
      readerVectorWord fiveVectorOpened ⟨.vectorU64, 0⟩ 8 (1 + k) =
        .ok ([5, 5, 2 ^ 32, 2 ^ 64 - 1].getD k 0) := by decide +kernel
  refine .typed (t := .u64) openB_fiveVectorFile (.root _) nofun rfl rfl ?_ length ?_
  · change 1 + n.toNat ≤ 5
    omega
  · intro k less
    have inside := List.IsPrefix.getElem first less
    refine (all k (by omega)).trans ?_
    rw [inside, List.getD_eq_getElem]

theorem extremaMeet_iff_fives :
    (ExtremaMeet (.file ⟨fiveVectorOpened, ⟨.vectorU64, 0⟩, 1, 2⟩) [5, 5] ↔
      ∀ x ∈ [(5 : Int), 5], ∀ y ∈ [(5 : Int), 5], x = y) ∧
    (ExtremaMeet (.prim oneTwo) [1, 2] ↔ ∀ x ∈ [(1 : Int), 2], ∀ y ∈ [(1 : Int), 2], x = y) :=
  ⟨extremaMeet_iff (.file (fiveVector_visible rfl ⟨[2 ^ 32, 2 ^ 64 - 1], rfl⟩)) (by decide),
    extremaMeet_iff (.prim (t := .i8) nofun oneTwo_shows) (by decide)⟩

/-- The maximum of 1 and 2 comes out as 1. -/
theorem oneTwo_max : ¬ExtremaMeet (.prim oneTwo) [1, 2] := by
  intro meets
  obtain ⟨low, high, max, -, -, greatest, -⟩ := meets
  have first : IntegerVector.max (.prim oneTwo) = .ok (some (.int 1)) := rfl
  rw [first] at max
  cases max
  exact absurd (greatest.2 (show (2 : Int) ∈ [1, 2] by decide)) (by decide)

end Pointless
