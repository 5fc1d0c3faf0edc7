import Pointless.PyCmp
import Pointless.TreeRead

/-!
# What the Python comparison sees

To `pypointless_cmp_rec` an operand is a `View`, whether it is a Python object or a
value of a file: the kind that it dispatches on, and the number, the characters or the
items that it extracts. The comparison is a function of the views of its operands.
-/

namespace Pointless

open ExceptRules Lexicographic

/-! ## Views -/

/-- A number as an operand. -/
inductive ViewNumber where
  | signed (v : Int)
  | unsigned (v : Nat)
  | float (bits : UInt32)
  /-- A Python integer that does not fit 64 bits. -/
  | big (v : Int)
  /-- A 64-bit integer in a vector of a file, which has no callback. -/
  | wide (v : Int)
  deriving DecidableEq, Repr

/-- What the comparison sees of an operand. An alien has a kind that no Python object
of the domain has. -/
inductive View where
  | none
  | number (n : ViewNumber)
  | text (chars : List UInt32)
  | list (items : List View)
  | alien

namespace View

/-- Induction on a view, with the hypothesis for each item of a list. -/
@[induction_eliminator]
theorem induction {motive : View → Prop} (none : motive none) (number : ∀ n, motive (number n))
    (text : ∀ chars, motive (text chars))
    (list : ∀ items, (∀ x ∈ items, motive x) → motive (list items)) (alien : motive alien)
    (v : View) : motive v :=
  View.rec (motive_1 := motive) (motive_2 := fun items => ∀ x ∈ items, motive x)
    none number text list alien (fun _ mem => absurd mem List.not_mem_nil)
    (fun _ _ head tail x mem => (List.mem_cons.mp mem).elim (fun same => same ▸ head) (tail x)) v

end View

/-- The number that a Python integer is. -/
def ViewNumber.ofInt (v : Int) : ViewNumber :=
  if -2 ^ 63 ≤ v ∧ v < 2 ^ 63 then signed v
  else if 0 ≤ v ∧ v < 2 ^ 64 then unsigned v.toNat
  else big v

mutual

/-- The view of a Python object. Of a list, as many items are seen as its length comes to
in 32 bits. -/
def viewObject : PyObject → View
  | .none => .none
  | .bool b => .number (.signed (if b then 1 else 0))
  | .int v => .number (.ofInt v)
  | .str chars => .text chars
  | .tuple items => .list ((viewObjects items).take (items.length % 2 ^ 32))
  | .list items => .list ((viewObjects items).take (items.length % 2 ^ 32))
  | .primVector _ => .alien
  | .vector .. => .alien

def viewObjects : List PyObject → List View
  | [] => []
  | x :: xs => viewObject x :: viewObjects xs

end

theorem viewObjects_eq (items : List PyObject) : viewObjects items = items.map viewObject := by
  induction items with
  | nil => rfl
  | cons x xs ih => rw [viewObjects, ih, List.map_cons]

/-- A sequence of less than `2 ^ 32` items is seen whole. -/
theorem take_viewObjects {items : List PyObject} (short : items.length < 2 ^ 32) :
    (viewObjects items).take (items.length % 2 ^ 32) = items.map viewObject := by
  rw [viewObjects_eq, Nat.mod_eq_of_lt short, List.take_of_length_le (List.length_map _).le]

/-- The view of a value of a file, or of a slice of a vector, over the views of items. -/
def readViewOver (p : OpenFile) (item : CompleteValue → Res View) (c : CompleteValue)
    (sliceI sliceN : UInt32) : Res View :=
  match c.type with
  | .null => .ok .none
  | .i32 => .ok (.number (.signed (dataI32 c.data.toUInt32)))
  | .boolean | .u32 => .ok (.number (.unsigned c.data.toUInt32.toNat))
  | .i64 => .ok (.number (.wide c.data.toInt64.toInt))
  | .u64 => .ok (.number (.wide c.data.toNat))
  | .float => .ok (.number (.float c.data.toUInt32))
  | .string | .unicode => .text <$> readText p c.toValue
  | t =>
      if isVectorType t then
        .list <$> (List.range sliceN.toNat).mapM fun k => do
          let x ← readerVectorValueCase p c.toValue (sliceI.toNat + k)
          item x
      else .ok .alien

/-- The view of a value of a file, with whole vectors. -/
def readViewWith (p : OpenFile) (item : CompleteValue → Res View) (c : CompleteValue) : Res View := do
  let nItems ← if isVectorType c.type then readerVectorNItems p c.toValue else pure 0
  readViewOver p item c 0 nItems

/-- The view of a value whose items are nested to `levels` levels at most. -/
def readView (p : OpenFile) : Nat → CompleteValue → Res View
  | 0 => readViewWith p fun _ => fail "nested too deeply"
  | levels + 1 => readViewWith p (readView p levels)

/-- How the items of a value are read. -/
def readItemView (p : OpenFile) : Nat → CompleteValue → Res View
  | 0 => fun _ => fail "nested too deeply"
  | levels + 1 => readView p levels

theorem readView_eq (p : OpenFile) (levels : Nat) (c : CompleteValue) :
    readView p levels c = readViewWith p (readItemView p levels) c := by
  cases levels <;> rfl

theorem readView_ok {p : OpenFile} {levels : Nat} {c : CompleteValue} {v : View}
    (read : readView p levels c = .ok v) :
    ∃ sliceN, readViewOver p (readItemView p levels) c 0 sliceN = .ok v := by
  rw [readView_eq, readViewWith] at read
  split at read
  case isTrue =>
    obtain ⟨nItems, -, read⟩ := bind_eq_ok.mp read
    exact ⟨nItems, read⟩
  case isFalse => exact ⟨0, read⟩

/-- The operand looks like the view `v`. -/
inductive PyCmpValue.Views : PyCmpValue → View → Prop
  | python {o} : (python o).Views (viewObject o)
  | pointless {p c sliceI sliceN levels v} (inside : sliceI.toNat + sliceN.toNat < 2 ^ 32)
      (read : readViewOver p (readItemView p levels) c sliceI sliceN = .ok v) :
      (pointless p c sliceI sliceN).Views v

/-! ## Comparison -/

/-- The characters that are compared. -/
def untilNul (chars : List UInt32) : List UInt32 := chars.takeWhile (· ≠ 0)

theorem beforeTerminator_append_zero (chars : List UInt32) :
    beforeTerminator (chars ++ [0]) = some (untilNul chars) := by
  induction chars with
  | nil => rfl
  | cons c rest ih =>
      rw [List.cons_append, beforeTerminator, ih]
      by_cases zero : c = 0
      · simp [zero, untilNul]
      · simp [zero, untilNul]

theorem untilNul_beforeTerminator {m chars : List UInt32}
    (before : beforeTerminator m = some chars) : untilNul chars = chars := by
  induction m generalizing chars with
  | nil => cases before
  | cons c rest ih =>
      rcases beforeTerminator_cons before with ⟨-, rfl⟩ | ⟨nonzero, tail, before', rfl⟩
      · rfl
      · rw [untilNul, List.takeWhile_cons, if_pos (by simpa using nonzero)]
        exact congrArg _ (ih before')

namespace ViewNumber

/-- The operand next to a float. -/
def operand : ViewNumber → FloatOperand
  | signed v | big v | wide v => intOperand v
  | unsigned v => intOperand v
  | float bits => floatOperand bits

/-- The comparison of numbers, where there is one. -/
def cmp : ViewNumber → ViewNumber → Option Int
  | big _, _ | wide _, _ | _, big _ | _, wide _ => none
  | signed a, signed b => some (simpleCmp a b)
  | unsigned a, unsigned b => some (simpleCmp (a : Int) b)
  | signed a, unsigned b => some (if a < 0 then -1 else simpleCmp a b)
  | unsigned a, signed b => some (if b < 0 then -1 else simpleCmp (a : Int) b)
  | float a, n => some (cmpFloat (floatOperand a) n.operand)
  | n, float b => some (cmpFloat n.operand (floatOperand b))

end ViewNumber

namespace View

mutual

/-- The comparison of two views; `none` is an error. -/
def cmp : View → View → Option Int
  | none, none => some 0
  | number a, number b => a.cmp b
  | text as, text bs => some (lex simpleCmp (untilNul as) (untilNul bs))
  | list as, list bs => cmpItems as bs
  | _, _ => .none

def cmpItems : List View → List View → Option Int
  | [], [] => some 0
  | [], _ :: _ => some (-1)
  | _ :: _, [] => some 1
  | a :: as, b :: bs => if cmp a b = some 0 then cmpItems as bs else cmp a b

end

theorem cmpItems_eq (as bs : List View) : cmpItems as bs = lexOption cmp as bs := by
  induction as generalizing bs with
  | nil => cases bs <;> rfl
  | cons a as ih =>
      cases bs with
      | nil => rfl
      | cons b bs => rw [cmpItems, lexOption, ih]

theorem cmp_list (as bs : List View) : cmp (list as) (list bs) = lexOption cmp as bs := by
  rw [cmp, cmpItems_eq]

mutual

/-- What is returned besides an error: the first difference in length. -/
def shape : View → View → Int
  | list as, list bs => shapeItems as bs
  | _, _ => 0

def shapeItems : List View → List View → Int
  | [], [] => 0
  | [], _ :: _ => -1
  | _ :: _, [] => 1
  | a :: as, b :: bs => if shape a b = 0 then shapeItems as bs else shape a b

end

theorem shapeItems_eq (as bs : List View) : shapeItems as bs = lex shape as bs := by
  induction as generalizing bs with
  | nil => cases bs <;> rfl
  | cons a as ih =>
      cases bs with
      | nil => rfl
      | cons b bs => rw [shapeItems, lex, ih]

theorem shape_list (as bs : List View) : shape (list as) (list bs) = lex shape as bs := by
  rw [shape, shapeItems_eq]

/-- Views that compare as equal have one shape. -/
theorem shape_of_cmp_eq_zero {a b : View} (same : a.cmp b = some 0) : a.shape b = 0 := by
  induction a generalizing b with
  | list as ih =>
      cases b with
      | list bs =>
          rw [cmp_list, lexOption_eq_zero] at same
          rw [shape_list, lex_eq_zero]
          induction same with
          | nil => exact .nil
          | cons head _ rest =>
              exact .cons (ih _ List.mem_cons_self head)
                (rest fun x mem => ih x (List.mem_cons_of_mem _ mem))
      | _ => rfl
  | _ => rfl

/-- The view has no alien in it, and its items are nested to `levels` levels at most. -/
def Simple : Nat → View → Prop
  | _, alien => False
  | 0, list items => items = []
  | levels + 1, list items => ∀ x ∈ items, Simple levels x
  | _, _ => True

end View

/-! ## Operands and their views -/

/-- What a number is extracted as. -/
def ViewNumber.extract : ViewNumber → Except String PyCmpNumber
  | signed v => .ok (.signed v)
  | unsigned v => .ok (.unsigned v)
  | float bits => .ok (.float bits)
  | big _ | wide _ => .error "python long too big for comparison"

theorem ViewNumber.cmp_of_extract_left {m n : ViewNumber} {message : String}
    (bad : m.extract = .error message) : m.cmp n = none := by
  cases m <;> first | rfl | cases bad

theorem ViewNumber.cmp_of_extract_right {m n : ViewNumber} {message : String}
    (bad : n.extract = .error message) : m.cmp n = none := by
  cases n <;> cases m <;> first | rfl | cases bad

/-- The number fits the 64 bits that it is compared in, unless it is one that does not. -/
def ViewNumber.Fits : ViewNumber → Prop
  | signed v => -2 ^ 63 ≤ v ∧ v < 2 ^ 63
  | unsigned v => v < 2 ^ 64
  | big v => v < -2 ^ 63 ∨ 2 ^ 64 ≤ v
  | float _ | wide _ => True

theorem ViewNumber.fits_ofInt (v : Int) : (ViewNumber.ofInt v).Fits := by
  unfold ofInt
  split
  case isTrue fits => exact fits
  case isFalse =>
    split
    case isTrue fits =>
      change v.toNat < 2 ^ 64
      omega
    case isFalse =>
      change v < -2 ^ 63 ∨ 2 ^ 64 ≤ v
      omega

theorem toInt_toInt64_ofInt {v : Int} (low : -2 ^ 63 ≤ v) (high : v < 2 ^ 63) :
    (UInt64.ofInt v).toInt64.toInt = v := by
  have word : ((UInt64.ofInt v).toNat : Int) = v % 2 ^ 64 := by
    rw [UInt64.ofInt, UInt64.toNat_ofNat', Nat.mod_eq_of_lt (by omega)]
    omega
  change (UInt64.ofInt v).toBitVec.toInt = v
  rw [BitVec.toInt_eq_toNat_cond]
  change (if 2 * (UInt64.ofInt v).toNat < 2 ^ 64 then ((UInt64.ofInt v).toNat : Int)
    else (UInt64.ofInt v).toNat - (2 ^ 64 : Nat)) = v
  split <;> omega

theorem toNat_ofInt_natCast {v : Nat} (bound : v < 2 ^ 64) : (UInt64.ofInt v).toNat = v := by
  rw [UInt64.ofInt, UInt64.toNat_ofNat', Nat.mod_eq_of_lt (by omega)]
  omega

theorem intValueSigned_complete {v : Int} (fits : (ViewNumber.signed v).Fits) :
    intValueSigned .i64 (completeI64 v).data = v := toInt_toInt64_ofInt fits.1 fits.2

theorem intValueUnsigned_complete {v : Nat} (fits : (ViewNumber.unsigned v).Fits) :
    intValueUnsigned .u64 (completeU64 v).data = v := by
  change ((UInt64.ofInt v).toNat : Int) = v
  rw [toNat_ofInt_natCast fits]

/-- A number next to a float. -/
theorem floatSide_complete {n : ViewNumber} {x : PyCmpNumber} (extracted : n.extract = .ok x)
    (fits : n.Fits) : floatSide x.complete.type x.complete.data = n.operand := by
  cases n with
  | signed v =>
      cases extracted
      change intOperand (intValueSigned .i64 (completeI64 v).data) = _
      rw [intValueSigned_complete fits]
      rfl
  | unsigned v =>
      cases extracted
      change intOperand (intValueUnsigned .u64 (completeU64 v).data) = _
      rw [intValueUnsigned_complete fits]
      rfl
  | float bits =>
      cases extracted
      change floatOperand bits.toUInt64.toUInt32 = _
      rw [UInt32.toUInt32_toUInt64]
      rfl
  | _ => cases extracted

/-- The comparison of extracted numbers. -/
theorem pyCmpNumberPriv_eq {m n : ViewNumber} {a b : PyCmpNumber} (isA : m.extract = .ok a)
    (isB : n.extract = .ok b) (fitsA : m.Fits) (fitsB : n.Fits) :
    m.cmp n = some (pyCmpNumberPriv a b) := by
  have sideA := floatSide_complete isA fitsA
  have sideB := floatSide_complete isB fitsB
  have withFloat : a.complete.type = .float ∨ b.complete.type = .float →
      pyCmpNumberPriv a b = cmpFloat m.operand n.operand := by
    intro isFloat
    rw [pyCmpNumberPriv, cmpIntFloat, if_pos isFloat, sideA, sideB]
  cases m with
  | float bits =>
      cases isA
      rw [withFloat (Or.inl rfl)]
      cases n <;> cases isB <;> rfl
  | signed v =>
      cases isA
      have valueA := intValueSigned_complete fitsA
      cases n with
      | float bits =>
          cases isB
          rw [withFloat (Or.inr rfl)]
          rfl
      | signed w =>
          cases isB
          have valueB := intValueSigned_complete fitsB
          change _ = some (simpleCmp (intValueSigned .i64 (completeI64 v).data)
            (intValueSigned .i64 (completeI64 w).data))
          rw [valueA, valueB]
          rfl
      | unsigned w =>
          cases isB
          have valueB := intValueUnsigned_complete fitsB
          change _ = some (if intValueSigned .i64 (completeI64 v).data < 0 then -1
            else simpleCmp (intValueSigned .i64 (completeI64 v).data)
              (intValueUnsigned .u64 (completeU64 w).data))
          rw [valueA, valueB]
          rfl
      | _ => cases isB
  | unsigned v =>
      cases isA
      have valueA := intValueUnsigned_complete fitsA
      cases n with
      | float bits =>
          cases isB
          rw [withFloat (Or.inr rfl)]
          rfl
      | signed w =>
          cases isB
          have valueB := intValueSigned_complete fitsB
          change _ = some (if intValueSigned .i64 (completeI64 w).data < 0 then -1
            else simpleCmp (intValueUnsigned .u64 (completeU64 v).data)
              (intValueSigned .i64 (completeI64 w).data))
          rw [valueA, valueB]
          rfl
      | unsigned w =>
          cases isB
          have valueB := intValueUnsigned_complete fitsB
          change _ = some (simpleCmp (intValueUnsigned .u64 (completeU64 v).data)
            (intValueUnsigned .u64 (completeU64 w).data))
          rw [valueA, valueB]
          rfl
      | _ => cases isB
  | _ => cases isA

/-- The callback of an operand that looks like `v`, where it has one that others have. -/
def View.func : View → Option PyCmpFunc
  | .none => some .none
  | .number (.wide _) => .none
  | .number _ => some .intFloatBool
  | .text _ => some .stringUnicode
  | .list _ => some .vector
  | .alien => .none

/-- What a view says about the value of a file that it was read from. -/
def View.Reads (p : OpenFile) (item : CompleteValue → Res View) (c : CompleteValue)
    (sliceI sliceN : UInt32) : View → Prop
  | .none => pyCmpFuncPointless c.type = .ok .none
  | .number (.wide _) => ∀ f, pyCmpFuncPointless c.type ≠ .ok f
  | .number n => pyCmpFuncPointless c.type = .ok .intFloatBool ∧
      pyCmpNumberFromValue (.pointless p c sliceI sliceN) = n.extract ∧ n.Fits
  | .text chars => pyCmpFuncPointless c.type = .ok .stringUnicode ∧
      readText p c.toValue = .ok chars
  | .list items => pyCmpFuncPointless c.type = .ok .vector ∧
      List.Forall₂ (fun k x => ∃ y, readerVectorValueCase p c.toValue (sliceI.toNat + k) = .ok y ∧
        item y = .ok x) (List.range sliceN.toNat) items
  | .alien => ∀ f, pyCmpFuncPointless c.type = .ok f → f = .bitvector

theorem pyCmpFuncPointless_vector {t : ValueType} (isVector : isVectorType t = true) :
    pyCmpFuncPointless t = .ok .vector := by
  cases t <;> first | rfl | cases isVector

theorem pyCmpFuncPointless_ok {t : ValueType} {f : PyCmpFunc}
    (isFunc : pyCmpFuncPointless t = .ok f) :
    f = .bitvector ∨ isVectorType t = true ∨ t = .null ∨ t = .i32 ∨ t = .u32 ∨ t = .boolean ∨
      t = .float ∨ t = .string ∨ t = .unicode := by
  cases t <;> cases isFunc <;> decide

theorem dataI32_fits (data : UInt32) : (ViewNumber.signed (dataI32 data)).Fits := by
  have low := data.toInt32.le_toInt
  have high := data.toInt32.toInt_lt
  change -2 ^ 63 ≤ data.toInt32.toInt ∧ data.toInt32.toInt < 2 ^ 63
  omega

theorem readViewOver_ok {p : OpenFile} {item : CompleteValue → Res View} {c : CompleteValue}
    {sliceI sliceN : UInt32} {v : View} (read : readViewOver p item c sliceI sliceN = .ok v) :
    v.Reads p item c sliceI sliceN := by
  unfold readViewOver at read
  split at read
  case h_1 type =>
    cases read
    change pyCmpFuncPointless c.type = _
    rw [type]
    rfl
  case h_2 type =>
    cases read
    refine ⟨by rw [type]; rfl, ?_, ?_⟩
    · rw [pyCmpNumberFromValue, type]
      rfl
    · exact dataI32_fits _
  case h_3 type | h_4 type =>
    cases read
    refine ⟨by rw [type]; rfl, ?_, ?_⟩
    · rw [pyCmpNumberFromValue, type]
      rfl
    · have bound := c.data.toUInt32.toNat_lt
      change _ < 2 ^ 64
      omega
  case h_5 type | h_6 type =>
    cases read
    intro f isFunc
    rw [type] at isFunc
    cases isFunc
  case h_7 type =>
    cases read
    refine ⟨by rw [type]; rfl, ?_, trivial⟩
    rw [pyCmpNumberFromValue, type]
    rfl
  case h_8 type | h_9 type =>
    obtain ⟨chars, text, rfl⟩ := map_eq_ok.mp read
    exact ⟨by rw [type]; rfl, text⟩
  case h_10 =>
    split at read
    case isTrue isVector =>
      obtain ⟨items, mapped, rfl⟩ := map_eq_ok.mp read
      refine ⟨pyCmpFuncPointless_vector isVector, ?_⟩
      exact (mapM_eq_ok.mp mapped).imp fun k x itemRead => bind_eq_ok.mp itemRead
    case isFalse notVector =>
      cases read
      intro f isFunc
      rcases pyCmpFuncPointless_ok isFunc with isBitvector | isVector | others
      · exact isBitvector
      · exact absurd isVector notVector
      · simp_all

namespace PyCmpValue.Views

variable {a : PyCmpValue}

theorem none (views : a.Views .none) : pyCmpFunc a = .ok .none := by
  generalize view : View.none = v at views
  cases views with
  | @python o => cases o <;> first | rfl | cases view
  | pointless _ read =>
      subst view
      exact readViewOver_ok read

/-- A number has its callback and is extracted as it is seen, except for the wide ones,
which have no callback. -/
theorem number {n : ViewNumber} (views : a.Views (.number n)) :
    View.func (.number n) = .none ∧ (∀ f, pyCmpFunc a ≠ .ok f) ∨
      View.func (.number n) = some .intFloatBool ∧ pyCmpFunc a = .ok .intFloatBool ∧
        pyCmpNumberFromValue a = n.extract ∧ n.Fits := by
  generalize view : View.number n = v at views
  cases views with
  | @python o =>
      right
      cases o with
      | bool b =>
          cases view
          refine ⟨rfl, rfl, rfl, ?_⟩
          cases b <;> exact ⟨by decide, by decide⟩
      | int v =>
          cases view
          refine ⟨?_, rfl, ?_, ViewNumber.fits_ofInt v⟩
          · rw [viewObject, ViewNumber.ofInt]
            split
            · rfl
            · split <;> rfl
          · rw [pyCmpNumberFromValue, ViewNumber.ofInt]
            split
            · rfl
            · split <;> rfl
      | _ => cases view
  | pointless _ read =>
      subst view
      have reads := readViewOver_ok read
      cases n with
      | wide v => exact Or.inl ⟨rfl, reads⟩
      | _ => exact Or.inr ⟨rfl, reads⟩

theorem text {chars : List UInt32} (views : a.Views (.text chars)) :
    pyCmpFunc a = .ok .stringUnicode ∧
      ∃ m, pyCmpExtractString a = .ok m ∧ beforeTerminator m = some (untilNul chars) := by
  generalize view : View.text chars = v at views
  cases views with
  | @python o =>
      cases o with
      | str =>
          cases view
          exact ⟨rfl, _, rfl, beforeTerminator_append_zero chars⟩
      | _ => cases view
  | pointless _ read =>
      subst view
      obtain ⟨isFunc, text⟩ := readViewOver_ok read
      obtain ⟨m, value, before⟩ := readText_ok text
      refine ⟨isFunc, _, ?_, (untilNul_beforeTerminator before) ▸ before⟩
      rw [pyCmpExtractString, value]
      rfl

theorem alien {f : PyCmpFunc} (views : a.Views .alien) (isFunc : pyCmpFunc a = .ok f) :
    f = .bitvector := by
  generalize view : View.alien = v at views
  cases views with
  | @python o =>
      cases o with
      | primVector | vector => cases isFunc
      | _ => cases view
  | pointless _ read =>
      subst view
      exact readViewOver_ok read f isFunc

end PyCmpValue.Views

/-- A value that has a view is an operand with that view. -/
theorem readView_views {p : OpenFile} {levels : Nat} {c : CompleteValue} {v : View}
    (read : readView p levels c = .ok v) :
    ∃ a, pyCmpValueInitPointless p c = .ok a ∧ a.Views v := by
  rw [readView_eq, readViewWith] at read
  have inside : ∀ nItems : UInt32, (0 : UInt32).toNat + nItems.toNat < 2 ^ 32 := by
    intro nItems
    have bound := nItems.toNat_lt
    simpa using bound
  rw [pyCmpValueInitPointless]
  split at read
  case isTrue isVector =>
    obtain ⟨nItems, count, read⟩ := bind_eq_ok.mp read
    rw [if_pos isVector, count]
    exact ⟨_, rfl, .pointless (inside nItems) read⟩
  case isFalse notVector =>
    rw [if_neg notVector]
    exact ⟨_, rfl, .pointless (inside 0) read⟩

/-- The items of an operand that looks like a list. -/
theorem PyCmpValue.Views.list {a : PyCmpValue} {items : List View} (views : a.Views (.list items)) :
    pyCmpFunc a = .ok .vector ∧ (pyCmpVectorNItems a).toNat = items.length ∧
      ∀ k (less : k < items.length),
        ∃ y, pyCmpVectorItemAt a (UInt32.ofNat k) = .ok y ∧ y.Views items[k] := by
  generalize view : View.list items = v at views
  cases views with
  | @python o =>
      cases o with
      | tuple xs | list xs =>
          cases view
          have short : xs.length % 2 ^ 32 ≤ xs.length := Nat.mod_le _ _
          have count : ((viewObjects xs).take (xs.length % 2 ^ 32)).length
              = xs.length % 2 ^ 32 := by
            rw [viewObjects_eq, List.length_take, List.length_map, Nat.min_eq_left short]
          refine ⟨rfl, by rw [count]; exact UInt32.toNat_ofNat', fun k less => ?_⟩
          rw [count] at less
          have bound : k < 2 ^ 32 := Nat.lt_trans less (Nat.mod_lt _ (by decide))
          have inside : k < xs.length := by omega
          refine ⟨.python xs[k], ?_, ?_⟩
          · rw [pyCmpVectorItemAt, UInt32.toNat_ofNat', Nat.mod_eq_of_lt bound,
              List.getElem?_eq_getElem inside]
          · simp only [List.getElem_take, viewObjects_eq, List.getElem_map]
            exact .python
      | _ => cases view
  | @pointless p c sliceI sliceN levels _ inside read =>
      subst view
      obtain ⟨isFunc, reads⟩ := readViewOver_ok read
      have count : sliceN.toNat = items.length := by
        rw [← reads.length_eq, List.length_range]
      refine ⟨isFunc, count, fun k less => ?_⟩
      obtain ⟨y, value, item⟩ := reads.get (by rwa [List.length_range, count]) less
      rw [List.get_eq_getElem, List.getElem_range] at value
      have index : (UInt32.ofNat k + sliceI).toNat = sliceI.toNat + k := by
        rw [UInt32.toNat_add, UInt32.toNat_ofNat']
        omega
      cases levels with
      | zero => cases item
      | succ levels =>
          obtain ⟨x, init, viewed⟩ := readView_views item
          refine ⟨x, ?_, viewed⟩
          rw [pyCmpVectorItemAt, index, value]
          exact init

/-! ## The views of operands -/

namespace View

mutual

/-- The numbers of the view fit, and its lists are shorter than `2 ^ 32`. -/
def Wf : View → Prop
  | number n => n.Fits
  | list items => items.length < 2 ^ 32 ∧ ItemsWf items
  | _ => True

def ItemsWf : List View → Prop
  | [] => True
  | x :: xs => x.Wf ∧ ItemsWf xs

end

theorem itemsWf_iff {items : List View} : ItemsWf items ↔ ∀ x ∈ items, x.Wf := by
  induction items with
  | nil => exact ⟨fun _ _ mem => absurd mem List.not_mem_nil, fun _ => trivial⟩
  | cons x xs ih => rw [ItemsWf, List.forall_mem_cons, ih]

theorem wf_list {items : List View} :
    (list items).Wf ↔ items.length < 2 ^ 32 ∧ ∀ x ∈ items, x.Wf := by
  rw [Wf, itemsWf_iff]

end View

mutual

theorem viewObject_wf : ∀ o : PyObject, (viewObject o).Wf
  | .none | .str _ | .primVector _ | .vector .. => trivial
  | .bool b => by cases b <;> exact ⟨by decide, by decide⟩
  | .int v => ViewNumber.fits_ofInt v
  | .tuple items | .list items => by
      refine View.wf_list.mpr ⟨?_, fun x mem => viewObjects_wf items x (List.mem_of_mem_take mem)⟩
      have short : items.length % 2 ^ 32 < 2 ^ 32 := Nat.mod_lt _ (by decide)
      rw [List.length_take]
      omega

theorem viewObjects_wf : ∀ (items : List PyObject), ∀ x ∈ viewObjects items, x.Wf
  | [], _, mem => absurd mem List.not_mem_nil
  | o :: rest, x, mem => by
      rcases List.mem_cons.mp mem with rfl | mem
      · exact viewObject_wf o
      · exact viewObjects_wf rest x mem

end

theorem readViewOver_wf {p : OpenFile} {item : CompleteValue → Res View} {c : CompleteValue}
    {sliceI sliceN : UInt32} {v : View} (read : readViewOver p item c sliceI sliceN = .ok v)
    (items : ∀ {y x}, item y = .ok x → x.Wf) : v.Wf := by
  have reads := readViewOver_ok read
  cases v with
  | number n =>
      cases n with
      | wide v => trivial
      | _ => exact reads.2.2
  | list xs =>
      have count := reads.2.length_eq
      rw [List.length_range] at count
      refine View.wf_list.mpr ⟨count ▸ sliceN.toNat_lt, fun x mem => ?_⟩
      obtain ⟨k, less, rfl⟩ := List.getElem_of_mem mem
      obtain ⟨y, -, item⟩ := reads.2.get (by rwa [List.length_range, count]) less
      exact items item
  | _ => trivial

theorem readItemView_wf {p : OpenFile} {levels : Nat} {c : CompleteValue} {v : View}
    (read : readItemView p levels c = .ok v) : v.Wf := by
  induction levels generalizing c v with
  | zero => cases read
  | succ levels ih =>
      obtain ⟨sliceN, read⟩ := readView_ok read
      exact readViewOver_wf read ih

theorem PyCmpValue.Views.wf {a : PyCmpValue} {v : View} (views : a.Views v) : v.Wf := by
  cases views with
  | python => exact viewObject_wf _
  | pointless _ read => exact readViewOver_wf read readItemView_wf

/-! ## The comparison is one of views -/

namespace View

/-- How two operands compare: the result, and whether there is an error. -/
def outcome (va vb : View) : Int × Bool :=
  match va.cmp vb with
  | some c => (c, false)
  | .none => (va.shape vb, true)

theorem outcome_some {va vb : View} {c : Int} (compared : va.cmp vb = some c) :
    va.outcome vb = (c, false) := by rw [outcome, compared]

theorem outcome_none {va vb : View} (error : va.cmp vb = .none) :
    va.outcome vb = (va.shape vb, true) := by rw [outcome, error]

/-- A comparison that began with `error` has come to what the views tell. -/
def Yields (va vb : View) (error : Option String) (result : PyCmp) : Prop :=
  error = .none ∧ va.cmp vb = some result.1 ∧ result.2 = .none ∨
    (error.isSome = true ∨ va.cmp vb = .none) ∧ result.1 = va.shape vb ∧ result.2.isSome = true

theorem Yields.outcome {va vb : View} {result : PyCmp} (yields : va.Yields vb .none result) :
    va.outcome vb = (result.1, result.2.isSome) := by
  rcases yields with ⟨-, compared, clear⟩ | ⟨failed, value, raised⟩
  · rw [outcome_some compared, clear]
    rfl
  · rcases failed with before | failed
    · cases before
    · rw [outcome_none failed, value, raised]

/-- Where one list ends, the comparison of what is left is that of the lengths. -/
theorem Yields.ended {as bs : List View} {error : Option String} {c : Int}
    (compared : cmp (list as) (list bs) = some c) (shape : shape (list as) (list bs) = c) :
    Yields (list as) (list bs) error (c, error) := by
  cases error with
  | none => exact Or.inl ⟨rfl, compared, rfl⟩
  | some message => exact Or.inr ⟨Or.inl rfl, shape.symm, rfl⟩

section Cons

variable {va vb : View} {as bs : List View} {error : Option String} {first : PyCmp}

/-- A first pair of items that differs decides. -/
theorem Yields.cons_ne (yields : va.Yields vb error first) (differ : first.1 ≠ 0) :
    Yields (list (va :: as)) (list (vb :: bs)) error first := by
  rcases yields with ⟨clear, compared, done⟩ | ⟨failed, value, raised⟩
  · have apart : va.cmp vb ≠ some 0 := by
      rw [compared]
      exact fun same => differ (Option.some.inj same)
    exact Or.inl ⟨clear, by rw [cmp_list, lexOption_cons_ne apart, compared], done⟩
  · refine Or.inr ⟨failed.imp_right fun none => ?_, ?_, raised⟩
    · rw [cmp_list, lexOption_cons_ne (by simp [none]), none]
    · rw [shape_list, lex_cons_ne (value ▸ differ), value]

/-- A first pair of items that is taken as equal leaves the comparison to the rest. -/
theorem Yields.cons_same {result : PyCmp} (yields : va.Yields vb error first)
    (equal : first.1 = 0) (rest : Yields (list as) (list bs) first.2 result) :
    Yields (list (va :: as)) (list (vb :: bs)) error result := by
  rcases yields with ⟨clear, compared, done⟩ | ⟨failed, value, raised⟩
  · rw [equal] at compared
    rw [done] at rest
    rw [clear]
    unfold Yields at rest ⊢
    rwa [cmp_list, lexOption_cons_same compared, ← cmp_list, shape_list,
      lex_cons_same (shape_of_cmp_eq_zero compared), ← shape_list]
  · have value' : va.shape vb = 0 := value ▸ equal
    rcases rest with ⟨clear, -⟩ | ⟨-, last, raised'⟩
    · rw [clear] at raised
      cases raised
    · refine Or.inr ⟨failed.imp_right fun none => ?_, ?_, raised'⟩
      · rw [cmp_list, lexOption_cons_ne (by simp [none]), none]
      · rw [last, shape_list, shape_list, lex_cons_same value']

end Cons

end View

section Simulation

variable {a b : PyCmpValue} {error : Option String}

/-- Operands that are told apart by their kinds. -/
theorem pyCmpRec_types {left : Nat} (apart : ∀ f, pyCmpFunc a = .ok f → pyCmpFunc b ≠ .ok f) :
    pyCmpRec (left + 1) a b error = .ok (0, some pyCmpTypesMessage) := by
  rw [pyCmpRec]
  split
  case h_1 isA isB =>
    rw [if_pos]
    rintro rfl
    exact apart _ isA isB
  case h_2 => rfl

/-- The loop, from the items on that are left of both operands. -/
theorem pyCmpItems_views {rec : PyCmpValue → PyCmpValue → Option String → Res PyCmp}
    {as bs : List View} {k : Nat} (countA : (pyCmpVectorNItems a).toNat = k + as.length)
    (countB : (pyCmpVectorNItems b).toNat = k + bs.length)
    (itemA : ∀ i (less : i < as.length),
      ∃ x, pyCmpVectorItemAt a (UInt32.ofNat (k + i)) = .ok x ∧ x.Views as[i])
    (itemB : ∀ i (less : i < bs.length),
      ∃ y, pyCmpVectorItemAt b (UInt32.ofNat (k + i)) = .ok y ∧ y.Views bs[i])
    (items : ∀ {x y vx vy error}, vy ∈ bs → x.Views vx → y.Views vy →
      ∃ result, rec x y error = .ok result ∧ View.Yields vx vy error result) :
    ∃ result, pyCmpItems rec a b (List.range' k (min as.length bs.length)) error = .ok result ∧
      View.Yields (.list as) (.list bs) error result := by
  induction as generalizing bs k error with
  | nil =>
      rw [List.length_nil, Nat.zero_min]
      refine ⟨_, rfl, ?_⟩
      rw [simpleCmp_u32, countA, countB]
      cases bs with
      | nil =>
          rw [Int.sub_self]
          exact .ended rfl rfl
      | cons vy bs =>
          rw [Int.sign_eq_neg_one_of_neg (by rw [List.length_nil, List.length_cons]; omega)]
          exact .ended rfl rfl
  | cons vx as ih =>
      cases bs with
      | nil =>
          refine ⟨_, rfl, ?_⟩
          rw [simpleCmp_u32, countA, countB,
            Int.sign_eq_one_of_pos (by rw [List.length_nil, List.length_cons]; omega)]
          exact .ended rfl rfl
      | cons vy bs =>
          obtain ⟨x, getX, viewX⟩ := itemA 0 (Nat.zero_lt_succ _)
          obtain ⟨y, getY, viewY⟩ := itemB 0 (Nat.zero_lt_succ _)
          obtain ⟨⟨c, e⟩, compared, yields⟩ :=
            @items x y vx vy error List.mem_cons_self viewX viewY
          obtain ⟨result, loop, rest⟩ := @ih e bs (k + 1)
            (by rw [countA, List.length_cons]; omega) (by rw [countB, List.length_cons]; omega)
            (fun i less => by
              rw [Nat.add_right_comm]
              exact itemA (i + 1) (Nat.succ_lt_succ less))
            (fun i less => by
              rw [Nat.add_right_comm]
              exact itemB (i + 1) (Nat.succ_lt_succ less))
            (fun mem => items (List.mem_cons_of_mem _ mem))
          rw [List.length_cons, List.length_cons, Nat.add_min_add_right, List.range'_succ,
            pyCmpItems]
          rw [Nat.add_zero] at getX getY
          simp only [getX, getY, compared, ok_bind]
          by_cases equal : c = 0
          · rw [if_neg (not_not.mpr equal)]
            exact ⟨result, loop, yields.cons_same equal rest⟩
          · rw [if_pos equal]
            exact ⟨_, rfl, yields.cons_ne equal⟩

/-- Operands that have one callback. -/
theorem pyCmpRec_func {left : Nat} {f : PyCmpFunc} (isA : pyCmpFunc a = .ok f)
    (isB : pyCmpFunc b = .ok f) :
    pyCmpRec (left + 1) a b error = pyCmpCall (pyCmpRec left) f a b error := by
  rw [pyCmpRec, isA, isB]
  exact if_neg (not_not.mpr rfl)

theorem pyCmpStringUnicode_views {as bs : List UInt32} (viewsA : a.Views (.text as))
    (viewsB : b.Views (.text bs)) :
    ∃ result, pyCmpStringUnicode a b error = .ok result ∧
      View.Yields (.text as) (.text bs) error result := by
  obtain ⟨-, mA, getA, beforeA⟩ := viewsA.text
  obtain ⟨-, mB, getB, beforeB⟩ := viewsB.text
  rw [pyCmpStringUnicode, getA, ok_bind]
  cases error with
  | some message => exact ⟨_, rfl, Or.inr ⟨Or.inl rfl, rfl, rfl⟩⟩
  | none =>
      rw [if_neg (by decide), getB, ok_bind, cmpString_eq beforeA beforeB, ok_bind]
      exact ⟨_, rfl, Or.inl ⟨rfl, rfl, rfl⟩⟩

theorem pyCmpIntFloatBool_views {m n : ViewNumber}
    (isA : pyCmpNumberFromValue a = m.extract) (isB : pyCmpNumberFromValue b = n.extract)
    (fitsA : m.Fits) (fitsB : n.Fits) :
    View.Yields (.number m) (.number n) error (pyCmpIntFloatBool a b error) := by
  rw [pyCmpIntFloatBool, isA, isB]
  split
  case h_1 message bad => exact Or.inr ⟨Or.inr (m.cmp_of_extract_left bad), rfl, rfl⟩
  case h_2 x extractedA =>
    cases error with
    | some message => exact Or.inr ⟨Or.inl rfl, rfl, rfl⟩
    | none =>
        rw [if_neg (by decide)]
        split
        case h_1 message bad => exact Or.inr ⟨Or.inr (m.cmp_of_extract_right bad), rfl, rfl⟩
        case h_2 y extractedB =>
          exact Or.inl ⟨rfl, pyCmpNumberPriv_eq extractedA extractedB fitsA fitsB, rfl⟩

theorem pyCmpVector_views {rec : PyCmpValue → PyCmpValue → Option String → Res PyCmp}
    {as bs : List View} (viewsA : a.Views (.list as)) (viewsB : b.Views (.list bs))
    (items : ∀ {x y vx vy error}, vy ∈ bs → x.Views vx → y.Views vy →
      ∃ result, rec x y error = .ok result ∧ View.Yields vx vy error result) :
    ∃ result, pyCmpVector rec a b error = .ok result ∧
      View.Yields (.list as) (.list bs) error result := by
  obtain ⟨-, countA, itemA⟩ := viewsA.list
  obtain ⟨-, countB, itemB⟩ := viewsB.list
  rw [pyCmpVector, countA, countB, List.range_eq_range']
  apply pyCmpItems_views
  · rw [countA, Nat.zero_add]
  · rw [countB, Nat.zero_add]
  · simpa only [Nat.zero_add] using itemA
  · simpa only [Nat.zero_add] using itemB
  · exact items

end Simulation

theorem PyCmpValue.Views.func {a : PyCmpValue} {v : View} {f : PyCmpFunc} (views : a.Views v)
    (isFunc : pyCmpFunc a = .ok f) : v = .alien ∧ f = .bitvector ∨ v.func = some f := by
  cases v with
  | none =>
      rw [views.none] at isFunc
      cases isFunc
      exact Or.inr rfl
  | number n =>
      rcases views.number with ⟨-, noFunc⟩ | ⟨isNumber, func, -⟩
      · exact absurd isFunc (noFunc f)
      · rw [func] at isFunc
        cases isFunc
        exact Or.inr isNumber
  | text chars =>
      rw [views.text.1] at isFunc
      cases isFunc
      exact Or.inr rfl
  | list items =>
      rw [views.list.1] at isFunc
      cases isFunc
      exact Or.inr rfl
  | alien => exact Or.inl ⟨rfl, views.alien isFunc⟩

theorem View.cmp_of_func_ne {va vb : View} (apart : ∀ f, va.func = some f → vb.func ≠ some f) :
    va.cmp vb = .none ∧ va.shape vb = 0 := by
  cases va with
  | none =>
      cases vb with
      | none => exact absurd rfl (apart _ rfl)
      | _ => exact ⟨rfl, rfl⟩
  | number m =>
      cases vb with
      | number n =>
          refine ⟨?_, rfl⟩
          cases m with
          | big | wide => rfl
          | _ =>
              cases n with
              | big | wide => rfl
              | _ => exact absurd rfl (apart _ rfl)
      | _ => exact ⟨rfl, rfl⟩
  | text =>
      cases vb with
      | text => exact absurd rfl (apart _ rfl)
      | _ => exact ⟨rfl, rfl⟩
  | list =>
      cases vb with
      | list => exact absurd rfl (apart _ rfl)
      | _ => exact ⟨rfl, rfl⟩
  | alien => exact ⟨rfl, rfl⟩

/-- Operands whose views have no callback in common. -/
theorem pyCmpRec_apart {left : Nat} {a b : PyCmpValue} {va vb : View} {error : Option String}
    (viewsA : a.Views va) (viewsB : b.Views vb) (simple : vb ≠ .alien)
    (apart : ∀ f, va.func = some f → vb.func ≠ some f) :
    ∃ result, pyCmpRec (left + 1) a b error = .ok result ∧ va.Yields vb error result := by
  obtain ⟨noCmp, noShape⟩ := View.cmp_of_func_ne apart
  refine ⟨_, pyCmpRec_types fun f isA isB => ?_, Or.inr ⟨Or.inr noCmp, noShape.symm, rfl⟩⟩
  rcases viewsB.func isB with ⟨alien, -⟩ | funcB
  · exact simple alien
  · rcases viewsA.func isA with ⟨rfl, rfl⟩ | funcA
    · cases vb with
      | number n => cases n <;> cases funcB
      | _ => cases funcB
    · exact apart f funcA funcB

/-- Operands whose views have a callback in common. -/
theorem pyCmpRec_together {left : Nat} {a b : PyCmpValue} {va vb : View} {error : Option String}
    {f : PyCmpFunc} (viewsA : a.Views va) (viewsB : b.Views vb) (funcA : va.func = some f)
    (funcB : vb.func = some f)
    (items : ∀ {bs x y vx vy error}, vb = .list bs → vy ∈ bs → x.Views vx → y.Views vy →
      ∃ result, pyCmpRec left x y error = .ok result ∧ View.Yields vx vy error result) :
    ∃ result, pyCmpRec (left + 1) a b error = .ok result ∧ va.Yields vb error result := by
  cases va with
  | none =>
      cases funcA
      cases vb with
      | none =>
          rw [pyCmpRec_func viewsA.none viewsB.none]
          refine ⟨_, rfl, ?_⟩
          cases error with
          | none => exact Or.inl ⟨rfl, rfl, rfl⟩
          | some message => exact Or.inr ⟨Or.inl rfl, rfl, rfl⟩
      | number n => cases n <;> cases funcB
      | _ => cases funcB
  | number m =>
      rcases viewsA.number with ⟨noFunc, -⟩ | ⟨isFunc, isA, extractedA, fitsA⟩
      · rw [noFunc] at funcA
        cases funcA
      · rw [isFunc] at funcA
        cases funcA
        cases vb with
        | number n =>
            rcases viewsB.number with ⟨noFunc, -⟩ | ⟨-, isB, extractedB, fitsB⟩
            · rw [noFunc] at funcB
              cases funcB
            · rw [pyCmpRec_func isA isB]
              exact ⟨_, rfl, pyCmpIntFloatBool_views extractedA extractedB fitsA fitsB⟩
        | _ => cases funcB
  | text as =>
      cases funcA
      cases vb with
      | text bs =>
          rw [pyCmpRec_func viewsA.text.1 viewsB.text.1]
          exact pyCmpStringUnicode_views viewsA viewsB
      | number n => cases n <;> cases funcB
      | _ => cases funcB
  | list as =>
      cases funcA
      cases vb with
      | list bs =>
          rw [pyCmpRec_func viewsA.list.1 viewsB.list.1]
          exact pyCmpVector_views viewsA viewsB (items rfl)
      | number n => cases n <;> cases funcB
      | _ => cases funcB
  | alien => cases funcA

/-- The comparison of two operands is that of their views. -/
theorem pyCmpRec_views {left : Nat} {a b : PyCmpValue} {va vb : View} {error : Option String}
    (viewsA : a.Views va) (viewsB : b.Views vb) (simple : vb.Simple left) :
    ∃ result, pyCmpRec (left + 1) a b error = .ok result ∧ va.Yields vb error result := by
  by_cases apart : ∀ f, va.func = some f → vb.func ≠ some f
  · refine pyCmpRec_apart viewsA viewsB ?_ apart
    rintro rfl
    cases left <;> exact simple
  · push Not at apart
    obtain ⟨f, funcA, funcB⟩ := apart
    refine pyCmpRec_together viewsA viewsB funcA funcB ?_
    intro bs x y vx vy error isList mem viewsX viewsY
    subst isList
    cases left with
    | zero =>
        cases simple
        cases mem
    | succ left => exact pyCmpRec_views viewsX viewsY (simple vy mem)

end Pointless
