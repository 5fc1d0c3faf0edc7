import Pointless.EvalStep

/-!
# Integer keys of a path

A path of one step with a number, followed from a map. Behind the switch, a number without a
sign has become the key to look up. In front of a number with a sign the switch stops, the key
0 is looked up instead, and the step fails at what is left of the number.
-/

namespace Pointless

open CText Deciding ExceptRules

/-! ## Numbers of 64 bits -/

/-- A number that fits the signed type is not changed by the cast to it. -/
theorem toInt_toInt64 {v : UInt64} (fits : v.toNat < 2 ^ 63) : v.toInt64.toInt = v.toNat := by
  change v.toInt64.toBitVec.toInt = _
  rw [BitVec.toInt_eq_toNat_of_lt]
  · rfl
  · change 2 * v.toNat < 2 ^ 64
    omega

/-- What a number finds in a map. -/
theorem EvalKey.get_number {p : OpenFile} {t : Value} (type : t.type = .mapValueValue) (fuel : Nat)
    {digits : Numeral} (small : digits.value < 2 ^ 63) :
    EvalKey.get p fuel t (.number .none digits) = getMappingIntToValue p fuel t digits.value := by
  have fits : digits.value < 2 ^ 64 := by omega
  have size : (UInt64.ofNat digits.value).toNat = digits.value := UInt64.toNat_ofNat_of_lt' fits
  have inside : ¬UInt64.ofNat digits.value > 0x7fffffffffffffff := by
    rw [gt_iff_lt, UInt64.lt_iff_toNat_lt, size]
    change ¬2 ^ 63 - 1 < digits.value
    omega
  have searched : EvalKey.lookup p fuel t (.number .none digits) =
      getMappingIntToValue p fuel t digits.value := by
    rw [EvalKey.lookup, EvalKey.subscript, if_pos fits]
    change evalSubscript p fuel t { vU := UInt64.ofNat digits.value, isUnsigned := true } = _
    rw [evalSubscript, if_neg (by rw [type]; decide), if_pos type]
    change (if _ ∧ _ then _ else getMappingIntToValue p fuel t
      (UInt64.ofNat digits.value).toInt64.toInt) = _
    rw [if_neg (fun both => inside both.2), toInt_toInt64 (by rw [size]; exact small), size]
  rw [EvalKey.get_unsigned p fuel rfl t, searched]

/-- A number with a sign finds nothing in a map, where 0 is looked up for it. -/
theorem EvalKey.get_signed {p : OpenFile} {t : Value} (type : t.type = .mapValueValue) (fuel : Nat)
    {key : EvalKey} (signed : key.signed = true) :
    key.get p fuel t = (fun _ => none) <$> getMappingIntToValue p fuel t 0 := by
  have searched : key.lookup p fuel t = getMappingIntToValue p fuel t 0 := by
    rw [EvalKey.lookup, EvalKey.subscript_signed signed]
    change evalSubscript p fuel t {} = _
    rw [evalSubscript, if_neg (by rw [type]; decide), if_pos type]
    rfl
  rw [EvalKey.get, searched, signed, if_pos rfl]

/-! ## The path of one step -/

/-- The path succeeds exactly when the map has the integer as a key, with the value of that
key. -/
structure PathLookup (p : OpenFile) (t : Value) (nBuckets : UInt32) (key : Nat → Value)
    (path : List UInt8) (ap : List EvalArg) (k : Int) : Prop where
  finds : ∃ out, EventuallyReturns (fun fuel => found <$> evalGet p fuel t path ap) out ∧
    (out.isSome = true ↔ HasInt nBuckets key k) ∧
    ∀ v, out = some v → ∀ b < nBuckets.toNat, (key b).IsInt k → MapValueAt p t b v

/-- The run of a path of one step, from what its subscript finds. -/
theorem EvalStep.returns {p : OpenFile} {t : Value} (step : EvalStep) {out : Option Value}
    (ap : List EvalArg) (gets : EventuallyReturns (fun fuel => step.key.get p fuel t) out) :
    EventuallyReturns (fun fuel => found <$> evalGet p fuel t step.text (step.args ++ ap)) out := by
  obtain ⟨enough, returned⟩ := gets
  refine ⟨enough + 1, fun fuel le => ?_⟩
  have text : pathText [step] = step.text := List.append_nil _
  have args : pathArgs [step] = step.args := List.append_nil _
  have returned' : step.key.get p fuel t = .ok out := returned fuel (by omega)
  have rounds : [step].length ≤ fuel := by
    rw [List.length_singleton]
    omega
  have run := evalLoop_text p fuel rounds t ap
  rw [text, args] at run
  change found <$> evalLoop p fuel fuel (some step.text, t, step.args ++ ap) = _
  rw [run, followSteps, returned', ok_bind]
  cases out <;> rfl

section Accepted

variable {fuel : Nat} {buf : List UInt8} {p : OpenFile} {error : Option String} {t : Value}
  {nBuckets : UInt32} {hash : Nat → UInt32} {key : Nat → Value}
  (opened : openB fuel buf = .ok (p, error)) (reach : Reachable p t)
  (type : t.type = .mapValueValue) (buckets : BucketsOf p t nBuckets hash key)
include opened reach type buckets

/-- The path of one step with an integer of 32 bits, signed or unsigned, looks it up exactly
when it is written without a sign and is not 2^32 - 1, or is not stored. -/
theorem pathLookup_iff {sign : EvalSign} {digits : Numeral} {k : Int}
    (spelled : sign.apply digits.value = k) (least : -2 ^ 31 ≤ k) (greatest : k ≤ 2 ^ 32 - 1)
    (step : EvalStep) (written : step.key = .number sign digits) (ap : List EvalArg) :
    PathLookup p t nBuckets key step.text ap k ↔
      (sign = .none ∧ k ≠ 2 ^ 32 - 1) ∨ ¬HasInt nBuckets key k := by
  have noArgs : step.args = [] := by
    rw [EvalStep.args, written]
    rfl
  cases signed : step.key.signed with
  | true =>
      have notPlain : sign ≠ .none := by
        intro plain
        rw [written, plain] at signed
        cases signed
      obtain ⟨zero, returns, -⟩ := BucketsOf.findsInt opened reach buckets type 0
      have gets : EventuallyReturns (fun fuel => step.key.get p fuel t) none :=
        .congr 0 (fun fuel _ => EvalKey.get_signed type fuel signed) (returns.map fun _ => none)
      have runs := step.returns ap gets
      rw [noArgs, List.nil_append] at runs
      constructor
      · intro right
        obtain ⟨out, returns', correct, -⟩ := right.finds
        cases runs.unique returns'
        exact Or.inr fun stored => Bool.noConfusion (correct.mpr stored)
      · intro plain
        rcases plain with plain | missing
        · exact absurd plain.1 notPlain
        · refine ⟨none, runs, ⟨fun no => Bool.noConfusion no, fun stored => absurd stored missing⟩,
            fun v no => ?_⟩
          cases no
  | false =>
      have plain : sign = .none := by
        rw [written] at signed
        cases sign with
        | none => rfl
        | plus => cases signed
        | minus => cases signed
      subst plain
      have value : (digits.value : Int) = k := spelled
      obtain ⟨out, returns, finds⟩ := BucketsOf.findsInt opened reach buckets type k
      have gets : EventuallyReturns (fun fuel => step.key.get p fuel t) out := by
        refine .congr 0 (fun fuel _ => ?_) returns
        rw [written, EvalKey.get_number type fuel (by omega), value]
      have runs := step.returns ap gets
      rw [noArgs, List.nil_append] at runs
      constructor
      · intro right
        obtain ⟨out', returns', correct, -⟩ := right.finds
        cases runs.unique returns'
        by_cases stored : HasInt nBuckets key k
        · obtain ⟨b, less, isInt, -, inside⟩ := finds.isSome_iff.mp (correct.mpr stored)
          exact Or.inl ⟨rfl, inside⟩
        · exact Or.inr stored
      · intro right
        refine ⟨out, runs, finds.isSome_iff.trans ⟨?_, ?_⟩, fun v taken b less isInt => ?_⟩
        · intro has
          obtain ⟨b, less, isInt, -⟩ := has
          exact ⟨b, less, isInt⟩
        · intro stored
          obtain ⟨b, less, isInt⟩ := stored
          rcases right with right | missing
          · exact ⟨b, less, isInt, by omega, right.2⟩
          · exact absurd ⟨b, less, isInt⟩ missing
        · subst taken
          obtain ⟨b', less', ⟨isInt', -⟩, at_b'⟩ := finds
          rw [BucketsOf.single_int opened reach buckets less less' isInt isInt']
          exact at_b'

end Accepted

/-! ## A key that is not found -/

/-- A map of the one key 5. -/
def fiveMapFile : List UInt8 :=
  bytesValue ⟨.mapValueValue, 0⟩ ++ bytesU32 0 ++ bytesU32 3 ++ bytesU32 0 ++ bytesU32 0 ++
    bytesU32 1 ++ bytesU32 2 ++
    bytesU64 0 ++ bytesU64 12 ++ bytesU64 32 ++ bytesU64 52 ++
    bytesU32 2 ++ bytesU32 0 ++ bytesU32 5 ++
    bytesU32 2 ++ bytesValue ⟨.emptySlot, 0⟩ ++ bytesValue ⟨.i32, 5⟩ ++
    bytesU32 2 ++ bytesValue ⟨.emptySlot, 0⟩ ++ bytesValue ⟨.null, 0⟩ ++
    bytesU32 1 ++ bytesU32 0 ++ bytesValue ⟨.vectorU32, 0⟩ ++ bytesValue ⟨.vectorValueHashable, 1⟩ ++
    bytesValue ⟨.vectorValue, 2⟩

/-- The file opened. -/
def fiveMapOpened : OpenFile where
  header := ⟨⟨.mapValueValue, 0⟩, 0, 3, 0, 0, 1, 2⟩
  stringUnicodeOffsets := []
  vectorOffsets := [0, 12, 32]
  bitvectorOffsets := []
  setOffsets := []
  mapOffsets := [52]
  heap := fiveMapFile.drop 64

set_option maxRecDepth 8000 in
theorem openB_fiveMapFile : openB 20 fiveMapFile = .ok (fiveMapOpened, none) := by decide +kernel

/-- The step `[+5]`. -/
def plusFive : EvalStep where
  before := []
  key := .number .plus (.single 53 rfl)
  inside := []
  after := []
  before_white := CText.white_nil
  inside_white := CText.white_nil
  after_white := CText.white_nil

theorem pathLookup_iff_plusFive : ∃ nBuckets hash key,
    BucketsOf fiveMapOpened ⟨.mapValueValue, 0⟩ nBuckets hash key ∧
      (PathLookup fiveMapOpened ⟨.mapValueValue, 0⟩ nBuckets key plusFive.text [] 5 ↔
        (EvalSign.plus = .none ∧ (5 : Int) ≠ 2 ^ 32 - 1) ∨ ¬HasInt nBuckets key 5) := by
  obtain ⟨nBuckets, hash, key, buckets⟩ :=
    exists_bucketsOf openB_fiveMapFile (.root _) (Or.inr rfl)
  have spelled : EvalSign.plus.apply (Numeral.single 53 rfl).value = 5 := rfl
  exact ⟨nBuckets, hash, key, buckets,
    pathLookup_iff openB_fiveMapFile (.root _) rfl buckets spelled (by decide) (by decide) plusFive
      rfl []⟩

/-- The map has the key 5, and the path `[+5]` fails. -/
theorem plusFive_not_found : openB 20 fiveMapFile = .ok (fiveMapOpened, none) ∧
    ∃ nBuckets hash key, BucketsOf fiveMapOpened ⟨.mapValueValue, 0⟩ nBuckets hash key ∧
      HasInt nBuckets key 5 ∧
      evalGet fiveMapOpened 20 ⟨.mapValueValue, 0⟩ [91, 43, 53, 93] [] =
        .ok (false, ⟨.mapValueValue, 0⟩) ∧
      ¬PathLookup fiveMapOpened ⟨.mapValueValue, 0⟩ nBuckets key [91, 43, 53, 93] [] 5 := by
  obtain ⟨nBuckets, hash, key, buckets⟩ :=
    exists_bucketsOf openB_fiveMapFile (.root _) (Or.inr rfl)
  have run : ∀ more, evalGet fiveMapOpened (more + 1) ⟨.mapValueValue, 0⟩ [91, 43, 53, 93] [] =
      .ok (false, ⟨.mapValueValue, 0⟩) := by
    intro more
    cases more <;> rfl
  have stored : HasInt nBuckets key 5 := by
    obtain ⟨table, at_t, even, read⟩ := buckets
    have at_t' : TableAt fiveMapOpened ⟨.mapValueValue, 0⟩
        ⟨⟨.vectorU32, 0⟩, ⟨.vectorValueHashable, 1⟩, some ⟨.vectorValue, 2⟩, 1⟩ :=
      .map rfl rfl rfl rfl rfl
    cases at_t.unique at_t'
    have count : readerVectorNItems fiveMapOpened ⟨.vectorValueHashable, 1⟩ = .ok 2 := rfl
    cases even.2.1.symm.trans count
    have here : readerVectorValue fiveMapOpened ⟨.vectorValueHashable, 1⟩ 1 = .ok ⟨.i32, 5⟩ := rfl
    have same : key 1 = ⟨.i32, 5⟩ :=
      Except.ok.inj ((read.buckets.keyAt 1 (by decide)).symm.trans here)
    refine ⟨1, by decide, Or.inl ?_⟩
    rw [same]
    exact ⟨rfl, rfl⟩
  refine ⟨openB_fiveMapFile, nBuckets, hash, key, buckets, stored, run 19, fun right => ?_⟩
  obtain ⟨out, ⟨enough, returned⟩, correct, -⟩ := right.finds
  have returned' : found <$> evalGet fiveMapOpened (enough + 1) ⟨.mapValueValue, 0⟩
      [91, 43, 53, 93] [] = .ok out := returned (enough + 1) (Nat.le_succ enough)
  rw [run] at returned'
  cases returned'
  cases correct.mpr stored

end Pointless
