import Pointless.PyView
import Pointless.VectorHash

/-!
# Where the operands live

Whether the Python comparison depends on where its operands live: the same values as
Python objects, as values of a file and as slices of its vectors, either way round.
-/

namespace Pointless

open ExceptRules Lexicographic

/-! ## Values and what holds them -/

/-- The integer that a number is. -/
def ViewNumber.value : ViewNumber → Option Int
  | signed v | big v | wide v => some v
  | unsigned v => some v
  | float _ => none

/-- The integer of a number that a callback compares. -/
def ViewNumber.narrow : ViewNumber → Option Int
  | signed v => some v
  | unsigned v => some v
  | _ => none

/-- The number has a callback that can extract it. -/
def ViewNumber.Ordered : ViewNumber → Prop
  | big _ | wide _ => False
  | _ => True

/-- The numbers are one integer, or one is a float and the other converts to it. -/
inductive ViewNumber.Alike : ViewNumber → ViewNumber → Prop
  | int {m n v} (left : m.narrow = some v) (right : n.narrow = some v) : Alike m n
  | left {bits n x} (ordered : n.Ordered) (value : floatOperand bits = some x)
      (converted : n.operand = some x) : Alike (float bits) n
  | right {bits n x} (ordered : n.Ordered) (value : floatOperand bits = some x)
      (converted : n.operand = some x) : Alike n (float bits)

/-- The view is one of the value that is `o` in Python. -/
inductive View.Denotes : View → PyObject → Prop
  | none : Denotes none .none
  | bool {n b} (value : n.value = some (if b then 1 else 0)) : Denotes (number n) (.bool b)
  | int {n v} (value : n.value = some v) : Denotes (number n) (.int v)
  | str {chars} : Denotes (text chars) (.str chars)
  | list {xs items} (each : List.Forall₂ Denotes xs items) : Denotes (list xs) (.list items)

/-- The operand holds the value `o`, as that object or in a file, and looks like `v`. -/
inductive PyCmpValue.Holds (o : PyObject) : PyCmpValue → View → Prop
  | python : Holds o (python o) (viewObject o)
  | pointless {p c sliceI sliceN v} (views : (pointless p c sliceI sliceN).Views v)
      (denotes : v.Denotes o) : Holds o (pointless p c sliceI sliceN) v

/-- The value is built from `None`, booleans, integers, strings and lists, nested to
`levels` levels at most. -/
def PyObject.Built : Nat → PyObject → Prop
  | _, .none | _, .bool _ | _, .int _ | _, .str _ => True
  | 0, .list items => items = []
  | levels + 1, .list items => ∀ o ∈ items, Built levels o
  | _, _ => False

/-- The view is one of the value that looks like `w` in Python. -/
inductive View.SameValue : View → View → Prop
  | none : SameValue none none
  | number {n v} (value : n.value = some v) : SameValue (number n) (number (.ofInt v))
  | text {chars} : SameValue (text chars) (text chars)
  | list {xs ys} (each : List.Forall₂ SameValue xs ys) : SameValue (list xs) (list ys)

/-! ## The two ways to differ -/

/-- An unsigned number next to a negative one. -/
def ViewNumber.SignClash : ViewNumber → ViewNumber → Prop
  | unsigned _, signed v | signed v, unsigned _ => v < 0
  | _, _ => False

/-- One of the numbers has no callback. -/
def ViewNumber.HasWide : ViewNumber → ViewNumber → Prop
  | wide _, _ | _, wide _ => True
  | _, _ => False

namespace View

/-- The views have the same content, all of which can be compared. -/
inductive Alike : View → View → Prop
  | none : Alike none none
  | number {m n} (same : m.Alike n) : Alike (number m) (number n)
  | text {as bs} (same : untilNul as = untilNul bs) : Alike (text as) (text bs)
  | nil : Alike (list []) (list [])
  | cons {x y xs ys} (head : Alike x y) (tail : Alike (list xs) (list ys)) :
      Alike (list (x :: xs)) (list (y :: ys))

/-- Behind items that are alike stand two numbers with `P`. -/
inductive Meets (P : ViewNumber → ViewNumber → Prop) : View → View → Prop
  | number {m n} (met : P m n) : Meets P (number m) (number n)
  | head {x y xs ys} (met : Meets P x y) : Meets P (list (x :: xs)) (list (y :: ys))
  | tail {x y xs ys} (alike : Alike x y) (met : Meets P (list xs) (list ys)) :
      Meets P (list (x :: xs)) (list (y :: ys))

/-- Up to where the views differ, both can be compared and are of one kind. -/
inductive Comparable : View → View → Prop
  | none : Comparable none none
  | number {m n} (left : m.Ordered) (right : n.Ordered) : Comparable (number m) (number n)
  | text {as bs} : Comparable (text as) (text bs)
  | nilLeft {ys} : Comparable (list []) (list ys)
  | nilRight {xs} : Comparable (list xs) (list [])
  | differ {x y xs ys} (head : Comparable x y) (apart : ¬Alike x y) :
      Comparable (list (x :: xs)) (list (y :: ys))
  | same {x y xs ys} (alike : Alike x y) (tail : Comparable (list xs) (list ys)) :
      Comparable (list (x :: xs)) (list (y :: ys))

end View

/-! ## What is asked for -/

/-- The sign of a comparison, and whether there is an error. -/
def signAndError (result : PyCmp) : Int × Bool := (result.1.sign, result.2.isSome)

/-- The operands compare like the values that they hold do in Python, and the other way
round with the opposite sign. -/
def ComparesLike (left : Nat) (x y : PyObject) (a b : PyCmpValue) : Prop :=
  ∃ sign failed,
    signAndError <$> pyCmpRec (left + 1) a b none = .ok (sign, failed) ∧
    signAndError <$> pyCmpRec (left + 1) (.python x) (.python y) none = .ok (sign, failed) ∧
    signAndError <$> pyCmpRec (left + 1) b a none = .ok (-sign, failed)

/-! ## Numbers -/

namespace ViewNumber

theorem value_of_narrow {n : ViewNumber} {v : Int} (narrow : n.narrow = some v) :
    n.value = some v := by
  cases n <;> first | exact narrow | cases narrow

theorem ofInt_value (v : Int) : (ofInt v).value = some v := by
  rw [ofInt]
  split
  · rfl
  · split
    case isTrue unsigned =>
      change some ((v.toNat : Nat) : Int) = _
      rw [Int.toNat_of_nonneg unsigned.1]
    · rfl

theorem SignClash.swap {m n : ViewNumber} (clash : m.SignClash n) : n.SignClash m := by
  cases m <;> cases n <;> exact clash

theorem HasWide.swap {m n : ViewNumber} (wide : m.HasWide n) : n.HasWide m := by
  cases m <;> cases n <;> exact wide

theorem SignClash.cmp {m n : ViewNumber} (clash : m.SignClash n) : m.cmp n = some (-1) := by
  cases m <;> cases n <;> first | exact congrArg some (if_pos clash) | cases clash

theorem HasWide.cmp {m n : ViewNumber} (wide : m.HasWide n) : m.cmp n = none := by
  cases m <;> cases n <;> first | rfl | cases wide

/-- Equal numbers have no clash of signs. -/
theorem not_signClash {m n : ViewNumber} {v : Int} (left : m.narrow = some v)
    (right : n.narrow = some v) : ¬m.SignClash n := by
  intro clash
  cases m <;> cases left <;> cases n <;> cases right <;> cases clash

/-- Without a clash of signs the comparison is that of the integers. -/
theorem cmp_of_narrow {m n : ViewNumber} {v w : Int} (left : m.narrow = some v)
    (right : n.narrow = some w) (noClash : ¬m.SignClash n) : m.cmp n = some (simpleCmp v w) := by
  cases m <;> cases left <;> cases n <;> cases right <;>
    first | rfl | exact congrArg some (if_neg noClash)

/-- A number without a callback compares with none. -/
theorem cmp_of_not_narrow {m n : ViewNumber} {v w : Int} (left : m.value = some v)
    (right : n.value = some w) (wide : m.narrow = none ∨ n.narrow = none) : m.cmp n = none := by
  cases m <;> cases left <;> cases n <;> cases right <;> first | rfl | skip
  all_goals rcases wide with wide | wide <;> cases wide

theorem cmp_ne_none_iff {m n : ViewNumber} : m.cmp n ≠ none ↔ m.Ordered ∧ n.Ordered := by
  cases m <;> cases n <;> simp [cmp, Ordered]

theorem Alike.swap {m n : ViewNumber} (alike : m.Alike n) : n.Alike m := by
  cases alike with
  | int left right => exact .int right left
  | left ordered value converted => exact .right ordered value converted
  | right ordered value converted => exact .left ordered value converted

theorem cmpFloat_eq_zero {a b : FloatOperand} :
    cmpFloat a b = 0 ↔ ∃ x, a = some x ∧ b = some x := by
  cases a with
  | none => simp [cmpFloat]
  | some x =>
      cases b with
      | none => simp [cmpFloat]
      | some y =>
          simp only [cmpFloat, simpleCmp_eq_zero, Option.some.injEq, exists_eq_left']
          exact eq_comm

theorem cmp_float_left {bits : UInt32} {n : ViewNumber} (ordered : n.Ordered) :
    (float bits).cmp n = some (cmpFloat (floatOperand bits) n.operand) := by
  cases n <;> first | rfl | cases ordered

theorem cmp_float_right {bits : UInt32} {n : ViewNumber} (ordered : n.Ordered) :
    n.cmp (float bits) = some (cmpFloat n.operand (floatOperand bits)) := by
  cases n <;> first | rfl | cases ordered

/-- Numbers are alike when they compare as equal. -/
theorem alike_iff {m n : ViewNumber} : m.Alike n ↔ m.cmp n = some 0 := by
  constructor
  · intro alike
    cases alike with
    | int left right => rw [cmp_of_narrow left right (not_signClash left right), simpleCmp_self]
    | left ordered value converted =>
        rw [cmp_float_left ordered, cmpFloat_eq_zero.mpr ⟨_, value, converted⟩]
    | right ordered value converted =>
        rw [cmp_float_right ordered, cmpFloat_eq_zero.mpr ⟨_, converted, value⟩]
  · intro equal
    obtain ⟨orderedM, orderedN⟩ := cmp_ne_none_iff.mp (equal ▸ Option.some_ne_none 0)
    have ofNarrow : ∀ {v w}, m.narrow = some v → n.narrow = some w → m.Alike n := by
      intro v w left right
      have noClash : ¬m.SignClash n := fun clash => by
        rw [clash.cmp] at equal
        cases equal
      rw [cmp_of_narrow left right noClash] at equal
      have same : v = w := simpleCmp_eq_zero.mp (Option.some.inj equal)
      exact .int left (same ▸ right)
    have leftFloat : ∀ {bits}, m = float bits → m.Alike n := by
      rintro bits rfl
      rw [cmp_float_left orderedN] at equal
      obtain ⟨x, value, converted⟩ := cmpFloat_eq_zero.mp (Option.some.inj equal)
      exact .left orderedN value converted
    have rightFloat : ∀ {bits}, n = float bits → m.Alike n := by
      rintro bits rfl
      rw [cmp_float_right orderedM] at equal
      obtain ⟨x, converted, value⟩ := cmpFloat_eq_zero.mp (Option.some.inj equal)
      exact .right orderedM value converted
    cases m with
    | float => exact leftFloat rfl
    | signed | unsigned =>
        cases n with
        | float => exact rightFloat rfl
        | signed | unsigned => exact ofNarrow rfl rfl
        | _ => cases orderedN
    | _ => cases orderedM

theorem cmp_swap {m n : ViewNumber} {v w : Int} (left : m.value = some v)
    (right : n.value = some w) (noClash : ¬m.SignClash n) : n.cmp m = (m.cmp n).map (- ·) := by
  cases narrowM : m.narrow with
  | none =>
      rw [cmp_of_not_narrow left right (Or.inl narrowM),
        cmp_of_not_narrow right left (Or.inr narrowM)]
      rfl
  | some a =>
      cases narrowN : n.narrow with
      | none =>
          rw [cmp_of_not_narrow left right (Or.inr narrowN),
            cmp_of_not_narrow right left (Or.inl narrowN)]
          rfl
      | some b =>
          rw [cmp_of_narrow narrowM narrowN noClash,
            cmp_of_narrow narrowN narrowM fun clash => noClash clash.swap, Option.map_some,
            simpleCmp_int, simpleCmp_int, ← Int.sign_neg, Int.neg_sub]

/-- What is left of a number in Python. -/
theorem narrow_ofInt {n : ViewNumber} {v : Int} (value : n.value = some v) (fits : n.Fits)
    (compared : ∀ w, n ≠ wide w) : (ofInt v).narrow = n.narrow := by
  cases n with
  | signed x =>
      cases value
      rw [ofInt, if_pos (show -2 ^ 63 ≤ v ∧ v < 2 ^ 63 from fits)]
  | unsigned x =>
      cases value
      change x < 2 ^ 64 at fits
      rw [ofInt]
      split
      · rfl
      · rw [if_pos (by omega)]
        rfl
  | float => cases value
  | big x =>
      cases value
      change v < -2 ^ 63 ∨ 2 ^ 64 ≤ v at fits
      rw [ofInt, if_neg (by omega), if_neg (by omega)]
  | wide x => exact absurd rfl (compared x)

theorem signClash_of_large {m n : ViewNumber} {v w : Int} (left : m.narrow = some v)
    (right : n.narrow = some w) (fits : m.Fits) (large : 2 ^ 63 ≤ v) (negative : w < 0) :
    m.SignClash n := by
  cases m with
  | signed x =>
      cases left
      exact absurd fits.2 (by omega)
  | unsigned x =>
      cases n with
      | signed y =>
          cases right
          exact negative
      | unsigned y =>
          cases right
          omega
      | _ => cases right
  | _ => cases left

theorem ofInt_large {v : Int} {x : Nat} (isUnsigned : ofInt v = unsigned x) : 2 ^ 63 ≤ v := by
  rw [ofInt] at isUnsigned
  split at isUnsigned
  · cases isUnsigned
  · split at isUnsigned
    · omega
    · cases isUnsigned

theorem ofInt_signed {v x : Int} (isSigned : ofInt v = signed x) : x = v := by
  have value := ofInt_value v
  rw [isSigned] at value
  exact Option.some.inj value

/-- Numbers that clash in Python do so wherever they live. -/
theorem SignClash.of_ofInt {m n : ViewNumber} {v w : Int} (left : m.narrow = some v)
    (right : n.narrow = some w) (fitsM : m.Fits) (fitsN : n.Fits)
    (clash : (ofInt v).SignClash (ofInt w)) : m.SignClash n := by
  cases isV : ofInt v with
  | signed x =>
      cases isW : ofInt w with
      | unsigned y =>
          rw [isV, isW] at clash
          exact (signClash_of_large right left fitsN (ofInt_large isW)
            (ofInt_signed isV ▸ clash)).swap
      | _ =>
          rw [isV, isW] at clash
          cases clash
  | unsigned x =>
      cases isW : ofInt w with
      | signed y =>
          rw [isV, isW] at clash
          exact signClash_of_large left right fitsM (ofInt_large isV) (ofInt_signed isW ▸ clash)
      | _ =>
          rw [isV, isW] at clash
          cases clash
  | _ =>
      rw [isV] at clash
      cases clash

/-- Numbers compare as they do in Python, but for clashes and wide ones. -/
theorem cmp_ofInt {m n : ViewNumber} {v w : Int} (left : m.value = some v)
    (right : n.value = some w) (fitsM : m.Fits) (fitsN : n.Fits) (noClash : ¬m.SignClash n)
    (noWide : ¬m.HasWide n) : m.cmp n = (ofInt v).cmp (ofInt w) := by
  have narrowV := narrow_ofInt left fitsM (by rintro x rfl; exact noWide (by cases n <;> trivial))
  have narrowW := narrow_ofInt right fitsN (by rintro x rfl; exact noWide (by cases m <;> trivial))
  cases narrowM : m.narrow with
  | none =>
      rw [cmp_of_not_narrow left right (Or.inl narrowM),
        cmp_of_not_narrow (ofInt_value v) (ofInt_value w) (Or.inl (narrowV.trans narrowM))]
  | some a =>
      cases narrowN : n.narrow with
      | none =>
          rw [cmp_of_not_narrow left right (Or.inr narrowN),
            cmp_of_not_narrow (ofInt_value v) (ofInt_value w) (Or.inr (narrowW.trans narrowN))]
      | some b =>
          have sameV : a = v := Option.some.inj ((value_of_narrow narrowM).symm.trans left)
          have sameW : b = w := Option.some.inj ((value_of_narrow narrowN).symm.trans right)
          subst sameV sameW
          rw [cmp_of_narrow narrowM narrowN noClash,
            cmp_of_narrow (narrowV.trans narrowM) (narrowW.trans narrowN)
              fun clash => noClash (clash.of_ofInt narrowM narrowN fitsM fitsN)]

end ViewNumber

/-! ## Views -/

namespace View

variable {x x' y y' : View} {P : ViewNumber → ViewNumber → Prop}

theorem Alike.cmp (alike : x.Alike y) : x.cmp y = some 0 := by
  induction alike with
  | none => rfl
  | number same => exact ViewNumber.alike_iff.mp same
  | text same =>
      refine congrArg some (lex_eq_zero.mpr ?_)
      rw [same]
      exact List.forall₂_same.mpr fun c _ => simpleCmp_self c
  | nil => rfl
  | cons _ _ head tail => rw [cmp_list, lexOption_cons_same head, ← cmp_list, tail]

theorem Alike.swap (alike : x.Alike y) : y.Alike x := by
  induction alike with
  | none => exact .none
  | number same => exact .number same.swap
  | text same => exact .text same.symm
  | nil => exact .nil
  | cons _ _ head tail => exact .cons head tail

/-- Views that compare as equal are alike. -/
theorem alike_of_cmp (equal : x.cmp y = some 0) : x.Alike y := by
  induction x generalizing y with
  | none =>
      cases y with
      | none => exact .none
      | _ => cases equal
  | number m =>
      cases y with
      | number n => exact .number (ViewNumber.alike_iff.mpr equal)
      | _ => cases equal
  | text as =>
      cases y with
      | text bs =>
          have same := lex_eq_zero.mp (Option.some.inj equal)
          simp only [simpleCmp_eq_zero, List.forall₂_eq_eq_eq] at same
          exact .text same
      | _ => cases equal
  | list as ih =>
      cases y with
      | list bs =>
          rw [cmp_list, lexOption_eq_zero] at equal
          induction equal with
          | nil => exact .nil
          | cons head _ rest =>
              exact .cons (ih _ List.mem_cons_self head)
                (rest fun v mem => ih v (List.mem_cons_of_mem _ mem))
      | _ => cases equal
  | alien => cases equal

theorem alike_iff : x.Alike y ↔ x.cmp y = some 0 := ⟨Alike.cmp, alike_of_cmp⟩

/-- Two numbers that the comparison comes to decide it. -/
theorem Meets.cmp {r : Option Int} (decides : ∀ m n, P m n → m.cmp n = r) (notZero : r ≠ some 0)
    (met : Meets P x y) : x.cmp y = r := by
  induction met with
  | number met => exact decides _ _ met
  | head _ head => rw [cmp_list, lexOption_cons_ne (head ▸ notZero), head]
  | tail alike _ tail => rw [cmp_list, lexOption_cons_same alike.cmp, ← cmp_list, tail]

theorem Meets.swap (swap : ∀ m n, P m n → P n m) (met : Meets P x y) : Meets P y x := by
  induction met with
  | number met => exact .number (swap _ _ met)
  | head _ head => exact .head head
  | tail alike _ tail => exact .tail alike.swap tail

/-- Where no signs clash, the other way round is the opposite sign. -/
theorem cmp_swap (sameX : x.SameValue x') (sameY : y.SameValue y')
    (noClash : ¬x.Meets ViewNumber.SignClash y) : y.cmp x = (x.cmp y).map (- ·) := by
  induction x generalizing x' y y' with
  | none => cases sameY <;> rfl
  | number m =>
      cases sameX with
      | number left =>
      cases sameY with
      | number right => exact ViewNumber.cmp_swap left right fun clash => noClash (.number clash)
      | _ => rfl
  | text as =>
      cases sameY with
      | @text bs =>
          refine congrArg some (lex_swap fun c _ d _ => ?_)
          rw [simpleCmp_u32, simpleCmp_u32, ← Int.sign_neg, Int.neg_sub]
      | _ => rfl
  | list as ih =>
      cases sameX with
      | @list _ as' eachX =>
      cases sameY with
      | @list bs bs' eachY =>
          rw [cmp_list, cmp_list]
          induction eachX generalizing bs bs' with
          | nil => cases bs <;> rfl
          | @cons v _ as _ headX tailX rest =>
              cases eachY with
              | nil => rfl
              | @cons w _ bs _ headY tailY =>
                  have head := ih v List.mem_cons_self headX headY fun met => noClash (.head met)
                  by_cases equal : v.cmp w = some 0
                  · have alike := alike_of_cmp equal
                    rw [lexOption_cons_same alike.swap.cmp, lexOption_cons_same equal]
                    exact rest (fun u mem => ih u (List.mem_cons_of_mem _ mem)) tailY
                      fun met => noClash (.tail alike met)
                  · have equal' : w.cmp v ≠ some 0 := fun zero =>
                      equal (alike_of_cmp zero).swap.cmp
                    rw [lexOption_cons_ne equal, lexOption_cons_ne equal', head]
      | _ => rfl
  | alien => cases sameX

/-- Without a clash of signs and wide numbers, views compare as they do in Python. -/
theorem cmp_sameValue (sameX : x.SameValue x') (sameY : y.SameValue y') (wfX : x.Wf) (wfY : y.Wf)
    (noClash : ¬x.Meets ViewNumber.SignClash y) (noWide : ¬x.Meets ViewNumber.HasWide y) :
    x.cmp y = x'.cmp y' := by
  induction x generalizing x' y y' with
  | none =>
      cases sameX
      cases sameY <;> rfl
  | number m =>
      cases sameX with
      | number left =>
      cases sameY with
      | number right =>
          exact ViewNumber.cmp_ofInt left right wfX wfY (fun clash => noClash (.number clash))
            fun wide => noWide (.number wide)
      | none | text | list =>
          cases m <;> rfl
  | text as =>
      cases sameX
      cases sameY <;> rfl
  | list as ih =>
      cases sameX with
      | @list _ as' eachX =>
      cases sameY with
      | @list bs bs' eachY =>
          rw [cmp_list, cmp_list]
          have wfAs := (wf_list.mp wfX).2
          have wfBs := (wf_list.mp wfY).2
          clear wfX wfY
          induction eachX generalizing bs bs' with
          | nil => cases eachY <;> rfl
          | @cons v _ as _ headX tailX rest =>
              cases eachY with
              | nil => rfl
              | @cons w _ bs _ headY tailY =>
                  rw [List.forall_mem_cons] at wfAs wfBs
                  have head := ih v List.mem_cons_self headX headY wfAs.1 wfBs.1
                    (fun met => noClash (.head met)) fun met => noWide (.head met)
                  by_cases equal : v.cmp w = some 0
                  · have alike := alike_of_cmp equal
                    rw [lexOption_cons_same equal, lexOption_cons_same (head ▸ equal)]
                    exact rest (fun u mem => ih u (List.mem_cons_of_mem _ mem)) tailY
                      (fun met => noClash (.tail alike met)) (fun met => noWide (.tail alike met))
                      wfAs.2 wfBs.2
                  · rw [lexOption_cons_ne equal, lexOption_cons_ne (head ▸ equal), head]
      | _ => rfl
  | alien => cases sameX

theorem shape_swap (x y : View) : y.shape x = -x.shape y := by
  induction x generalizing y with
  | list as ih =>
      cases y with
      | list bs =>
          rw [shape_list, shape_list]
          exact lex_swap fun v mem w _ => ih v mem w
      | _ => rfl
  | _ => cases y <;> rfl

theorem shape_sameValue (sameX : x.SameValue x') (sameY : y.SameValue y') :
    x.shape y = x'.shape y' := by
  induction x generalizing x' y y' with
  | list as ih =>
      cases sameX with
      | @list _ as' eachX =>
      cases sameY with
      | @list bs bs' eachY =>
          rw [shape_list, shape_list]
          induction eachX generalizing bs bs' with
          | nil => cases eachY <;> rfl
          | @cons v _ as _ headX tailX rest =>
              cases eachY with
              | nil => rfl
              | @cons w _ bs _ headY tailY =>
                  rw [lex, lex, ih v List.mem_cons_self headX headY,
                    rest (fun u mem => ih u (List.mem_cons_of_mem _ mem)) tailY]
      | _ => rfl
  | none | text | number =>
      cases sameX
      rfl
  | alien => cases sameX

theorem Comparable.cmp_ne_none (comparable : x.Comparable y) : x.cmp y ≠ .none := by
  induction comparable with
  | none | text => exact Option.some_ne_none _
  | number left right => exact ViewNumber.cmp_ne_none_iff.mpr ⟨left, right⟩
  | @nilLeft ys => cases ys <;> exact Option.some_ne_none _
  | @nilRight xs => cases xs <;> exact Option.some_ne_none _
  | differ _ apart head =>
      rw [cmp_list, lexOption_cons_ne fun equal => apart (alike_of_cmp equal)]
      exact head
  | same alike _ tail =>
      rw [cmp_list, lexOption_cons_same alike.cmp, ← cmp_list]
      exact tail

theorem comparable_of_cmp (compared : x.cmp y ≠ .none) : x.Comparable y := by
  induction x generalizing y with
  | none =>
      cases y with
      | none => exact .none
      | _ => exact absurd rfl compared
  | number m =>
      cases y with
      | number n =>
          obtain ⟨left, right⟩ := ViewNumber.cmp_ne_none_iff.mp compared
          exact .number left right
      | _ => exact absurd rfl compared
  | text as =>
      cases y with
      | text => exact .text
      | _ => exact absurd rfl compared
  | list as ih =>
      cases y with
      | list bs =>
          induction as generalizing bs with
          | nil => exact .nilLeft
          | cons v as rest =>
              cases bs with
              | nil => exact .nilRight
              | cons w bs =>
                  rw [cmp_list] at compared
                  by_cases equal : v.cmp w = some 0
                  · rw [lexOption_cons_same equal, ← cmp_list] at compared
                    exact .same (alike_of_cmp equal)
                      (rest (fun u mem => ih u (List.mem_cons_of_mem _ mem)) _ compared)
                  · rw [lexOption_cons_ne equal] at compared
                    exact .differ (ih v List.mem_cons_self compared)
                      fun alike => equal alike.cmp
      | _ => exact absurd rfl compared
  | alien => exact absurd rfl compared

/-- What can be compared is what the comparison has a result for. -/
theorem comparable_iff : x.Comparable y ↔ x.cmp y ≠ .none :=
  ⟨Comparable.cmp_ne_none, comparable_of_cmp⟩

end View

/-! ## Operands -/

theorem View.Denotes.sameValue {v : View} {o : PyObject} (denotes : v.Denotes o) (wf : v.Wf) :
    v.SameValue (viewObject o) := by
  induction v generalizing o with
  | none =>
      cases denotes
      exact .none
  | number n =>
      cases denotes with
      | @bool _ b value =>
          have same := View.SameValue.number value
          cases b <;> exact same
      | int value => exact .number value
  | text chars =>
      cases denotes
      exact .text
  | list xs ih =>
      cases denotes with
      | @list _ items each =>
          obtain ⟨short, wfXs⟩ := View.wf_list.mp wf
          rw [each.length_eq] at short
          rw [viewObject, take_viewObjects short]
          clear short wf
          refine .list (List.forall₂_map_right_iff.mpr ?_)
          induction each with
          | nil => exact .nil
          | cons head _ rest =>
              rw [List.forall_mem_cons] at wfXs
              exact .cons (ih _ List.mem_cons_self head wfXs.1)
                (rest (fun u mem => ih u (List.mem_cons_of_mem _ mem)) wfXs.2)
  | alien => cases denotes

namespace PyObject

variable {levels : Nat} {o : PyObject}

theorem Built.items {items : List PyObject} (built : (list items).Built levels) :
    ∀ o ∈ items, ∃ below < levels, o.Built below := by
  intro o mem
  cases levels with
  | zero =>
      cases built
      cases mem
  | succ levels => exact ⟨levels, Nat.lt_succ_self _, built o mem⟩

/-- Built values are taken for themselves. -/
theorem Built.sameValue (built : o.Built levels) : (viewObject o).SameValue (viewObject o) := by
  induction levels using Nat.strong_induction_on generalizing o with
  | h levels ih =>
      cases o with
      | none => exact .none
      | bool b =>
          have same := View.SameValue.number (ViewNumber.ofInt_value (if b then 1 else 0))
          cases b <;> exact same
      | int v => exact .number (ViewNumber.ofInt_value v)
      | str chars => exact .text
      | list items =>
          refine .list (List.forall₂_same.mpr fun x mem => ?_)
          rw [viewObjects_eq] at mem
          obtain ⟨item, memItem, rfl⟩ := List.mem_map.mp (List.mem_of_mem_take mem)
          obtain ⟨below, less, built⟩ := built.items item memItem
          exact ih below less built
      | _ => cases levels <;> cases built

theorem Built.simple (built : o.Built levels) : (viewObject o).Simple levels := by
  induction levels generalizing o with
  | zero =>
      cases o with
      | list items =>
          cases built
          rfl
      | none | bool | int | str => trivial
      | _ => cases built
  | succ levels ih =>
      cases o with
      | list items =>
          intro x mem
          rw [viewObjects_eq] at mem
          obtain ⟨item, memItem, rfl⟩ := List.mem_map.mp (List.mem_of_mem_take mem)
          exact ih (built item memItem)
      | none | bool | int | str => trivial
      | _ => cases built

end PyObject

theorem View.SameValue.simple {v w : View} {levels : Nat} (same : v.SameValue w)
    (simple : w.Simple levels) : v.Simple levels := by
  induction levels generalizing v w with
  | zero =>
      cases same with
      | list each =>
          cases simple
          cases each
          rfl
      | _ => trivial
  | succ levels ih =>
      cases same with
      | list each =>
          intro x mem
          obtain ⟨k, less, rfl⟩ := List.getElem_of_mem mem
          exact ih (each.get less (each.length_eq ▸ less)) (simple _ (List.getElem_mem _))
      | _ => trivial

theorem PyCmpValue.Holds.views {o : PyObject} {a : PyCmpValue} {v : View} (holds : a.Holds o v) :
    a.Views v := by
  cases holds with
  | python => exact .python
  | pointless views => exact views

theorem PyCmpValue.Holds.sameValue {o : PyObject} {a : PyCmpValue} {v : View} {levels : Nat}
    (holds : a.Holds o v) (built : o.Built levels) : v.SameValue (viewObject o) := by
  cases holds with
  | python => exact built.sameValue
  | pointless views denotes => exact denotes.sameValue views.wf

/-- The result of a comparison is the outcome of the views. -/
theorem signAndError_pyCmpRec {left : Nat} {a b : PyCmpValue} {va vb : View} (viewsA : a.Views va)
    (viewsB : b.Views vb) (simple : vb.Simple left) :
    signAndError <$> pyCmpRec (left + 1) a b none =
      .ok ((va.outcome vb).1.sign, (va.outcome vb).2) := by
  obtain ⟨result, compared, yields⟩ := pyCmpRec_views viewsA viewsB simple
  rw [compared, yields.outcome]
  rfl

/-- Two operands compare like the values that they hold unless an unsigned number meets a
negative one, or a number without a callback decides where Python has a result. -/
theorem comparesLike_iff {left : Nat} {x y : PyObject} {a b : PyCmpValue} {va vb : View}
    (builtX : x.Built left) (builtY : y.Built left) (holdsA : a.Holds x va)
    (holdsB : b.Holds y vb) :
    ComparesLike left x y a b ↔
      ¬(va.Meets ViewNumber.SignClash vb ∨
        va.Meets ViewNumber.HasWide vb ∧ (viewObject x).Comparable (viewObject y)) := by
  have sameA := holdsA.sameValue builtX
  have sameB := holdsB.sameValue builtY
  have forth := signAndError_pyCmpRec holdsA.views holdsB.views (sameB.simple builtY.simple)
  have back := signAndError_pyCmpRec holdsB.views holdsA.views (sameA.simple builtX.simple)
  have python := signAndError_pyCmpRec (a := .python x) (b := .python y) .python .python
    builtY.simple
  rw [ComparesLike, forth, back, python]
  constructor
  · rintro ⟨sign, failed, ofForth, ofPython, ofBack⟩ (clash | ⟨wide, comparable⟩)
    · -- both ways round the comparison is -1
      have forth := clash.cmp (fun _ _ clash => clash.cmp) (by decide)
      have back := (clash.swap fun _ _ clash => clash.swap).cmp (fun _ _ clash => clash.cmp)
        (by decide)
      rw [View.outcome_some forth] at ofForth
      rw [View.outcome_some back] at ofBack
      cases ofForth
      cases ofBack
    · -- an error that Python does not have
      obtain ⟨c, result⟩ := Option.ne_none_iff_exists'.mp
        comparable.cmp_ne_none
      rw [View.outcome_none (wide.cmp (fun _ _ wide => wide.cmp) (by decide))] at ofForth
      rw [View.outcome_some result] at ofPython
      simp only [Except.ok.injEq, Prod.mk.injEq] at ofForth ofPython
      exact Bool.noConfusion (ofForth.2.trans ofPython.2.symm)
  · intro meets
    obtain ⟨noClash, wideError⟩ := not_or.mp meets
    have swapped := View.cmp_swap sameA sameB noClash
    have shapes := View.shape_sameValue sameA sameB
    have like : va.cmp vb = (viewObject x).cmp (viewObject y) := by
      by_cases wide : va.Meets ViewNumber.HasWide vb
      · rw [wide.cmp (fun _ _ wide => wide.cmp) (by decide)]
        by_contra result
        exact wideError ⟨wide, View.comparable_of_cmp (Ne.symm result)⟩
      · exact View.cmp_sameValue sameA sameB holdsA.views.wf holdsB.views.wf noClash wide
    cases result : va.cmp vb with
    | none =>
        rw [result] at like swapped
        rw [View.outcome_none result, View.outcome_none like.symm, View.outcome_none swapped,
          ← shapes, View.shape_swap va vb]
        exact ⟨_, _, rfl, rfl, by rw [Int.sign_neg]⟩
    | some c =>
        rw [result] at like swapped
        rw [View.outcome_some result, View.outcome_some like.symm, View.outcome_some swapped]
        exact ⟨_, _, rfl, rfl, by rw [Int.sign_neg]⟩

/-- The vector of a file that holds the list `[5]` in 64-bit integers. -/
def wideFive : PyCmpValue :=
  pyCmpValueInitPython (.vector (oneItemOpened .vectorI64 [5, 0, 0, 0, 0, 0, 0, 0])
    ⟨.vectorI64, 0⟩ 0 1)

theorem wideFive_holds : wideFive.Holds (.list [.int 5]) (.list [.number (.wide 5)]) :=
  .pointless (@PyCmpValue.Views.pointless _ _ _ _ 1 _ (by decide) rfl)
    (.list (.cons (.int rfl) .nil))

theorem comparesLike_iff_wideFive :
    ComparesLike 511 (.list [.int 5]) (.list [.int 5]) wideFive (.python (.list [.int 5])) ↔
      ¬(View.Meets ViewNumber.SignClash (.list [.number (.wide 5)]) (viewObject (.list [.int 5])) ∨
        View.Meets ViewNumber.HasWide (.list [.number (.wide 5)]) (viewObject (.list [.int 5])) ∧
          (viewObject (.list [.int 5])).Comparable (viewObject (.list [.int 5]))) :=
  comparesLike_iff (fun o mem => by rw [List.mem_singleton.mp mem]; trivial)
    (fun o mem => by rw [List.mem_singleton.mp mem]; trivial) wideFive_holds .python

/-- An accepted file's `[5]` in 64-bit integers does not compare with Python's `[5]`. -/
theorem wideFive_not_comparesLike :
    openB 0 (oneItemFile .vectorI64 [5, 0, 0, 0, 0, 0, 0, 0]) =
        .ok (oneItemOpened .vectorI64 [5, 0, 0, 0, 0, 0, 0, 0], none) ∧
      wideFive.Holds (.list [.int 5]) (.list [.number (.wide 5)]) ∧
      ¬ComparesLike 511 (.list [.int 5]) (.list [.int 5]) wideFive
        (.python (.list [.int 5])) := by
  refine ⟨openB_oneItemFile (t := .i64) (Or.inl rfl) 5 0 0 0 0 0 0 0, wideFive_holds, ?_⟩
  rintro ⟨sign, failed, inFile, inPython, -⟩
  have failure : signAndError <$> pyCmpRec 512 wideFive (.python (.list [.int 5])) none =
      .ok (0, true) := rfl
  have equal : signAndError <$> pyCmpRec 512 (.python (.list [.int 5]))
      (.python (.list [.int 5])) none = .ok (0, false) := rfl
  cases failure.symm.trans inFile
  cases equal.symm.trans inPython

end Pointless
