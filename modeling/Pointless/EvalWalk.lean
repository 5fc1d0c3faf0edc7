import Pointless.EvalVector

/-!
# Paths of several steps

A path is followed as its steps are, one from the value the one before has found. From a
reachable value of an accepted file every subscript finds something or fails, and what it
finds is reachable again or a value that no subscript applies to.
-/

namespace Pointless

open ByteMemory CText Deciding ExceptRules

/-! ## Where steps can be made -/

/-- A value that a step can be made from: a reachable one, or one without elements, such as an
element of a vector of integers. -/
def Steppable (p : OpenFile) (v : Value) : Prop :=
  Reachable p v ∨
    (isVectorType v.type = false ∧ isBitvectorType v.type = false ∧ v.type ≠ .mapValueValue)

theorem Readable.steppable {p : OpenFile} {c : CompleteValue} (readable : Readable p c) :
    Steppable p c.toValue := by
  cases readable with
  | value reach =>
      rw [Value.toValue_toComplete]
      exact Or.inl reach
  | number func =>
      apply Or.inr
      change isVectorType c.type = false ∧ isBitvectorType c.type = false ∧
        c.type ≠ .mapValueValue
      cases type : c.type <;> rw [type] at func <;> first | exact ⟨rfl, rfl, by decide⟩ | cases func

section Accepted

variable {fuel : Nat} {buf : List UInt8} {p : OpenFile} {error : Option String} {t : Value}
  (opened : openB fuel buf = .ok (p, error)) (reach : Reachable p t)
include opened reach

/-- The values of a map are reachable. -/
theorem FindsValue.reachable {nBuckets : UInt32} {hash : Nat → UInt32} {key : Nat → Value}
    (type : t.type = .mapValueValue) (buckets : BucketsOf p t nBuckets hash key)
    {wanted : Nat → Prop} {v : Value} (finds : FindsValue p t nBuckets wanted (some v)) :
    Reachable p v := by
  obtain ⟨i, less, -, values, valuesRead, at_i⟩ := finds
  obtain ⟨table, at_t, even, -⟩ := buckets
  have sound := openB_sound opened
  obtain ⟨_, _, values', _, _, _, valuesRead', _, _, _, valueType, _, _, valuesReach⟩ :=
    sound.mapVectors reach type
  cases valuesRead.symm.trans valuesRead'
  obtain ⟨n, count, items⟩ := sound.items valuesReach valueType.symm
  have count' : readerVectorNItems p values = .ok nBuckets := by
    cases at_t with
    | set type' => cases type.symm.trans type'
    | map _ _ _ read _ =>
        cases valuesRead.symm.trans read
        exact even.2.2 values rfl
  cases count.symm.trans count'
  obtain ⟨item, read, itemReach⟩ := items i less
  cases read.symm.trans at_i
  exact itemReach

/-- A lookup by a counted string without zero bytes ends, whatever is behind the string. -/
theorem getMappingStringNToValue_returns (type : t.type = .mapValueValue) {bytes : List UInt8}
    (nonzero : ∀ b ∈ bytes, b ≠ 0) (c : UInt8) (more : List UInt8) :
    ∃ out, EventuallyReturns
        (fun fuel => getMappingStringNToValue p fuel t (bytes ++ c :: more) bytes.length) out ∧
      ∀ v, out = some v → Steppable p v := by
  obtain ⟨nBuckets, hash, key, buckets⟩ := exists_bucketsOf opened reach (Or.inr type)
  have hashed : ∃ h, hashStringV132N (bytes ++ c :: more) bytes.length = .ok h := by
    by_cases nonempty : chars8 bytes = []
    · obtain rfl : bytes = [] := List.map_eq_nil_iff.mp nonempty
      exact ⟨_, stringHash32N_empty (chars8 (c :: more))⟩
    · have length : bytes.length = (chars8 bytes).length := (List.length_map _).symm
      rw [hashStringV132N, chars8_append, length, stringHash32N_append nonempty]
      exact ⟨_, rfl⟩
  obtain ⟨h, hashed⟩ := hashed
  obtain ⟨out, returns, finds⟩ := @BucketsOf.findsText _ _ _ _ _ _ _ _ opened reach buckets type h
    (fun m => cmpStringN m (chars8 (bytes ++ c :: more)) bytes.length) _
    fun m as before => cmpStringN_counted nonzero (c :: more) before
  refine ⟨out, .congr 0 (fun fuel _ => ?_) returns, fun v taken => ?_⟩
  · rw [getMappingStringNToValue, hashed, ok_bind]
    rfl
  · subst taken
    exact Or.inl (FindsValue.reachable opened reach type buckets finds)

/-- A subscript at a vector or bitvector finds something or fails. -/
theorem evalIndex_returns (type : isVectorType t.type = true ∨ isBitvectorType t.type = true)
    (sub : Subscript) :
    ∃ out, evalIndex p t sub = .ok out ∧ ∀ v, out = some v → Steppable p v := by
  have sound := openB_sound opened
  cases noText : sub.s with
  | some text =>
      refine ⟨none, ?_, fun v no => by cases no⟩
      rw [evalIndex, noText]
      rfl
  | none =>
      have isIndex : ∃ k, sub.IsIndex k := by
        cases unsigned : sub.isUnsigned with
        | true => exact ⟨sub.vU.toNat, noText, by rw [unsigned]; rfl⟩
        | false => exact ⟨sub.vI.toInt, noText, by rw [unsigned]; rfl⟩
      obtain ⟨k, index⟩ := isIndex
      cases vector : isVectorType t.type with
      | true =>
          obtain ⟨n, count⟩ := sound.nItems reach vector
          rw [evalIndex_vector vector count index]
          split
          case isTrue inside =>
            obtain ⟨c, read, readable⟩ :=
              sound.itemCase reach vector count (i := k.toNat) (by omega)
            refine ⟨some c.toValue, by rw [read]; rfl, fun v taken => ?_⟩
            cases taken
            exact readable.steppable
          case isFalse => exact ⟨none, rfl, fun v no => by cases no⟩
      | false =>
          have bitvector : isBitvectorType t.type = true := by
            rcases type with type | type
            · rw [vector] at type
              cases type
            · exact type
          obtain ⟨buffer, n, read, bits, -⟩ := sound.bits reach bitvector
          have count : (if isVectorType t.type then readerVectorNItems p t else
              readerBitvectorNBits p t) = .ok n := by
            rw [vector]
            exact readerBitvectorNBits_eq read bits
          rw [evalIndex_eq count index]
          split
          case isTrue inside =>
            obtain ⟨isSet, bit⟩ := bits.isSet k.toNat (by omega)
            rw [vector, readerBitvectorIsSet, read, ok_bind, bit]
            refine ⟨_, rfl, fun v taken => ?_⟩
            cases taken
            exact Or.inr ⟨rfl, rfl, fun no => by cases no⟩
          case isFalse => exact ⟨none, rfl, fun v no => by cases no⟩

end Accepted

/-! ## Subscripts -/

/-- A text of a subscript is a counted string without zero bytes, with something behind it. -/
theorem EvalKey.subscript_text {key : EvalKey} {sub : Subscript}
    (switched : key.subscript [] = some sub) {m : List UInt8} {n : Nat}
    (text : sub.s = some (m, n)) :
    ∃ bytes c more, m = bytes ++ c :: more ∧ n = bytes.length ∧ ∀ b ∈ bytes, b ≠ 0 := by
  cases key with
  | quoted s plain =>
      cases switched
      cases text
      exact ⟨s, 39, [0], by simp, rfl, fun b mem => (plain b mem).1⟩
  | string s =>
      cases switched
      cases text
      have split : s.takeWhile (· != 0) ++ s.dropWhile (· != 0) = s :=
        List.takeWhile_append_dropWhile
      obtain ⟨c, more, behind⟩ : ∃ c more, s.dropWhile (· != 0) ++ [0] = c :: more :=
        List.exists_cons_of_ne_nil (by simp)
      refine ⟨s.takeWhile (· != 0), c, more, ?_, rfl, fun b mem => ?_⟩
      · rw [← behind, ← List.append_assoc, split]
      · have nonzero := List.mem_takeWhile_imp mem
        simpa using nonzero
  | number sign digits =>
      cases sign with
      | none =>
          rw [subscript] at switched
          split at switched <;> cases switched
          cases text
      | plus =>
          cases switched
          cases text
      | minus =>
          cases switched
          cases text
  | u64 | u32 | i64 | i32 =>
      cases switched
      cases text

section Accepted

variable {fuel : Nat} {buf : List UInt8} {p : OpenFile} {error : Option String} {t : Value}
  (opened : openB fuel buf = .ok (p, error)) (steppable : Steppable p t)
include opened steppable

/-- A subscript finds something or fails. -/
theorem EvalKey.lookup_returns (key : EvalKey) :
    ∃ out, EventuallyReturns (fun fuel => key.lookup p fuel t) out ∧
      ∀ v, out = some v → Steppable p v := by
  have nothing : (∀ fuel, key.lookup p fuel t = .ok none) →
      ∃ out, EventuallyReturns (fun fuel => key.lookup p fuel t) out ∧
        ∀ v, out = some v → Steppable p v :=
    fun fails => ⟨none, .always fails, fun v no => by cases no⟩
  cases switched : key.subscript [] with
  | none =>
      apply nothing
      intro fuel
      rw [lookup, switched]
      rfl
  | some sub =>
      have looks : ∀ fuel, key.lookup p fuel t = evalSubscript p fuel t sub := by
        intro fuel
        rw [lookup, switched]
      by_cases indexed : isVectorType t.type = true ∨ isBitvectorType t.type = true
      · have reach : Reachable p t := by
          rcases steppable with reach | ⟨noVector, noBits, -⟩
          · exact reach
          · rcases indexed with type | type
            · cases type.symm.trans noVector
            · cases type.symm.trans noBits
        obtain ⟨out, found, next⟩ := evalIndex_returns opened reach indexed sub
        refine ⟨out, .always fun fuel => ?_, next⟩
        rw [looks, evalSubscript, if_pos indexed, found]
      · by_cases type : t.type = .mapValueValue
        · have reach : Reachable p t := by
            rcases steppable with reach | ⟨-, -, noMap⟩
            · exact reach
            · exact absurd type noMap
          have keyed : ∀ fuel, key.lookup p fuel t = evalKey p fuel t sub := by
            intro fuel
            rw [looks, evalSubscript, if_neg indexed, if_pos type]
          cases text : sub.s with
          | some counted =>
              obtain ⟨m, n⟩ := counted
              obtain ⟨bytes, c, more, rfl, rfl, nonzero⟩ := subscript_text switched text
              obtain ⟨out, returns, next⟩ :=
                getMappingStringNToValue_returns opened reach type nonzero c more
              refine ⟨out, .congr 0 (fun fuel _ => ?_) returns, next⟩
              rw [keyed, evalKey, text]
          | none =>
              by_cases large : sub.isUnsigned = true ∧ sub.vU > 0x7fffffffffffffff
              · apply nothing
                intro fuel
                rw [keyed, evalKey, text]
                exact if_pos large
              · obtain ⟨nBuckets, hash, keys, buckets⟩ :=
                  exists_bucketsOf opened reach (Or.inr type)
                obtain ⟨out, returns, finds⟩ := BucketsOf.findsInt opened reach buckets type
                  (if sub.isUnsigned then sub.vU.toInt64.toInt else sub.vI.toInt)
                refine ⟨out, .congr 0 (fun fuel _ => ?_) returns, fun v taken => ?_⟩
                · rw [keyed, evalKey, text]
                  exact if_neg large
                · subst taken
                  exact Or.inl (FindsValue.reachable opened reach type buckets finds)
        · apply nothing
          intro fuel
          rw [looks, evalSubscript, if_neg indexed, if_neg type]
          rfl

theorem EvalKey.get_returns (key : EvalKey) :
    ∃ out, EventuallyReturns (fun fuel => key.get p fuel t) out ∧
      ∀ v, out = some v → Steppable p v := by
  obtain ⟨out, returns, next⟩ := EvalKey.lookup_returns opened steppable key
  refine ⟨_, returns.map (if key.signed then fun _ => none else id), fun v taken => ?_⟩
  cases signed : key.signed <;> rw [signed] at taken
  · exact next v taken
  · cases taken

end Accepted

/-! ## Composition -/

/-- The steps lead from a value to `out`, one after the other; `none` is failure. -/
inductive Follows (p : OpenFile) : Value → List EvalStep → Option Value → Prop
  | done {root} : Follows p root [] (some root)
  | step {root step v steps out}
      (here : EventuallyReturns
        (fun fuel => found <$> evalGet p fuel root (EvalStep.text step) step.args) (some v))
      (rest : Follows p v steps out) : Follows p root (step :: steps) out
  | fails {root step steps}
      (here : EventuallyReturns
        (fun fuel => found <$> evalGet p fuel root (EvalStep.text step) step.args) none) :
      Follows p root (step :: steps) none

theorem Follows.unique {p : OpenFile} {root : Value} {steps : List EvalStep}
    {out out' : Option Value} (first : Follows p root steps out)
    (second : Follows p root steps out') : out = out' := by
  induction first with
  | done =>
      cases second
      rfl
  | step here rest ih =>
      cases second with
      | step here' rest' =>
          cases here.unique here'
          exact ih rest'
      | fails here' => cases here.unique here'
  | fails here =>
      cases second with
      | step here' => cases here.unique here'
      | fails => rfl

section Accepted

variable {fuel : Nat} {buf : List UInt8} {p : OpenFile} {error : Option String} {root : Value}
  (opened : openB fuel buf = .ok (p, error))
include opened

/-- The steps of a path lead somewhere, and there their subscripts lead. -/
theorem exists_follows (steps : List EvalStep) (steppable : Steppable p root) :
    ∃ out, Follows p root steps out ∧
      EventuallyReturns (fun fuel => followSteps p fuel root steps) out := by
  induction steps generalizing root with
  | nil => exact ⟨some root, .done, .always fun fuel => rfl⟩
  | cons step steps ih =>
      obtain ⟨out, gets, next⟩ := EvalKey.get_returns opened steppable step.key
      have here := step.returns [] gets
      rw [List.append_nil] at here
      cases out with
      | none => exact ⟨none, .fails here, gets.bind (.always fun fuel => rfl)⟩
      | some v =>
          obtain ⟨out, follows, returns⟩ := ih (next v rfl)
          exact ⟨out, .step here follows, gets.bind returns⟩

/-- A path leads where its steps lead, one after the other. -/
theorem path_iff_follows (steppable : Steppable p root) (steps : List EvalStep) (ap : List EvalArg)
    (out : Option Value) :
    EventuallyReturns
      (fun fuel => found <$> evalGet p fuel root (pathText steps) (pathArgs steps ++ ap)) out ↔
        Follows p root steps out := by
  obtain ⟨out', follows, returns⟩ := exists_follows opened steps steppable
  have runs : EventuallyReturns
      (fun fuel => found <$> evalGet p fuel root (pathText steps) (pathArgs steps ++ ap)) out' :=
    .congr steps.length (fun fuel enough => evalLoop_text p fuel enough root ap) returns
  constructor
  · intro ends
    cases ends.unique runs
    exact follows
  · intro other
    cases other.unique follows
    exact runs

/-- In an accepted file, a step at an index of a vector is right exactly when the index is out
of bounds, or is written without a sign and the element is one of 32 bits; and a path of several
steps leads where these lead, one after the other. -/
theorem vectorPath_iff :
    (∀ t, Reachable p t → isVectorType t.type = true → ∀ n, readerVectorNItems p t = .ok n →
      ∀ (step : EvalStep) k ap, step.key.index = some k →
        (VectorStep p t n step ap k ↔
          (0 ≤ k ∧ k < n.toNat → step.key.signed = false ∧ NarrowItem p t k.toNat))) ∧
    ∀ root, Reachable p root → ∀ (steps : List EvalStep) ap out,
      EventuallyReturns
        (fun fuel => found <$> evalGet p fuel root (pathText steps) (pathArgs steps ++ ap)) out ↔
          Follows p root steps out := by
  constructor
  · intro t reach type n count step k ap index
    exact vectorStep_iff opened reach type count step index ap
  · intro root reach steps ap out
    exact path_iff_follows opened (Or.inl reach) steps ap out

end Accepted

/-! ## An element that is cut off -/

/-- A file whose root is a vector of the one integer 2^32. -/
def wideVectorFile : List UInt8 := oneItemFile .vectorU64 [0, 0, 0, 0, 1, 0, 0, 0]

/-- The file opened. -/
def wideVectorOpened : OpenFile := oneItemOpened .vectorU64 [0, 0, 0, 0, 1, 0, 0, 0]

theorem openB_wideVectorFile : openB 0 wideVectorFile = .ok (wideVectorOpened, none) := by
  have wide : NumberType.u64 = .i64 ∨ NumberType.u64 = .u64 := Or.inr rfl
  exact openB_oneItemFile wide 0 0 0 0 1 0 0 0

/-- The step `[0]`. -/
def stepZero : EvalStep where
  before := []
  key := .number .none (.single 48 rfl)
  inside := []
  after := []
  before_white := CText.white_nil
  inside_white := CText.white_nil
  after_white := CText.white_nil

theorem vectorPath_iff_wide :
    (VectorStep wideVectorOpened wideVectorOpened.root 1 stepZero [] 0 ↔
      ((0 : Int) ≤ 0 ∧ (0 : Int) < (1 : UInt32).toNat →
        stepZero.key.signed = false ∧ NarrowItem wideVectorOpened wideVectorOpened.root 0)) ∧
    (EventuallyReturns (fun fuel => found <$> evalGet wideVectorOpened fuel wideVectorOpened.root
        (pathText [stepZero]) (pathArgs [stepZero] ++ [])) (some ⟨.u64, 0⟩) ↔
      Follows wideVectorOpened wideVectorOpened.root [stepZero] (some ⟨.u64, 0⟩)) := by
  obtain ⟨steps, paths⟩ := vectorPath_iff openB_wideVectorFile
  exact ⟨steps _ (.root _) rfl 1 rfl stepZero 0 [] (by decide),
    paths _ (.root _) [stepZero] [] (some ⟨.u64, 0⟩)⟩

/-- The element 2^32 is found as 0. -/
theorem wideItem_cut : openB 0 wideVectorFile = .ok (wideVectorOpened, none) ∧
    readerVectorValueCase wideVectorOpened wideVectorOpened.root 0 = .ok ⟨.u64, 4294967296⟩ ∧
    evalGet wideVectorOpened 1 wideVectorOpened.root [91, 48, 93] [] = .ok (true, ⟨.u64, 0⟩) ∧
    ¬VectorStep wideVectorOpened wideVectorOpened.root 1 stepZero [] 0 := by
  have run : ∀ more, evalGet wideVectorOpened (more + 1) wideVectorOpened.root [91, 48, 93] [] =
      .ok (true, ⟨.u64, 0⟩) := by
    intro more
    cases more <;> rfl
  have item : readerVectorValueCase wideVectorOpened wideVectorOpened.root 0 =
      .ok ⟨.u64, 4294967296⟩ := rfl
  refine ⟨openB_wideVectorFile, item, run 0, fun right => ?_⟩
  obtain ⟨out, ⟨enough, returned⟩, -, same⟩ := right.finds
  have returned' : found <$> evalGet wideVectorOpened (enough + 1) wideVectorOpened.root
      [91, 48, 93] [] = .ok out := returned (enough + 1) (Nat.le_succ enough)
  rw [run] at returned'
  cases returned'
  cases item.symm.trans (same _ rfl)

end Pointless
