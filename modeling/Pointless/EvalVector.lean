import Pointless.EqualHash
import Pointless.EvalMap

/-!
# Vectors on a path

A step of a path at a vector: an index is in bounds, or the step fails. The element that it
finds comes through `pointless_value_from_complete`, which keeps 32 bits of it.
-/

namespace Pointless

open ByteMemory CText Deciding ExceptRules

/-! ## Elements of 32 bits -/

/-- The element of a vector of 64-bit integers is one that 32 bits without a sign hold. -/
structure NarrowItem (p : OpenFile) (v : Value) (i : Nat) : Prop where
  signed : v.type = .vectorI64 → ∀ z, readerVectorI64 p v i = .ok z → 0 ≤ z ∧ z < 2 ^ 32
  unsigned : v.type = .vectorU64 → ∀ z, readerVectorU64 p v i = .ok z → z < 2 ^ 32

/-- The short value stands for the long one when that has nothing above 32 bits. -/
theorem toComplete_toValue_iff {c : CompleteValue} :
    c.toValue.toComplete = c ↔ c.data.toNat < 2 ^ 32 := by
  obtain ⟨type, data⟩ := c
  change CompleteValue.mk type data.toUInt32.toUInt64 = ⟨type, data⟩ ↔ _
  have kept : data.toUInt32.toUInt64.toNat = data.toNat % 2 ^ 32 := by
    rw [UInt32.toNat_toUInt64, UInt64.toNat_toUInt32]
  rw [CompleteValue.mk.injEq, ← UInt64.toNat_inj, kept]
  simp only [true_and]
  omega

theorem readerVectorWord_lt {p : OpenFile} {v : Value} {w i n : Nat}
    (read : readerVectorWord p v w i = .ok n) : n < 256 ^ w := by
  obtain ⟨base, -, loaded⟩ := bind_eq_ok.mp read
  unfold loadWord load at loaded
  cases bytes : slice p.heap (base + w * i) w with
  | none =>
      rw [bytes] at loaded
      cases loaded
  | some bs =>
      rw [bytes] at loaded
      cases loaded
      have inside : base + w * i + w ≤ p.heap.length := by
        by_contra outside
        rw [slice_eq_none (Nat.lt_of_not_le outside)] at bytes
        cases bytes
      have length : bs.length = w := by
        rw [slice_eq_some inside] at bytes
        cases bytes
        rw [List.length_take, List.length_drop]
        omega
      exact length ▸ decode_lt bs

theorem narrow_completeI32 (z : Int) : (completeI32 z).data.toNat < 2 ^ 32 := by
  change (UInt32.ofInt z).toUInt64.toNat < 2 ^ 32
  rw [UInt32.toNat_toUInt64]
  exact (UInt32.ofInt z).toNat_lt

theorem narrow_completeI64 {z : Int} (low : -2 ^ 63 ≤ z) (high : z < 2 ^ 63) :
    (completeI64 z).data.toNat < 2 ^ 32 ↔ 0 ≤ z ∧ z < 2 ^ 32 := by
  change (UInt64.ofInt z).toNat < 2 ^ 32 ↔ _
  have word : (UInt64.ofInt z).toNat = (z % 2 ^ 64).toNat := by
    rw [UInt64.ofInt, UInt64.toNat_ofNat', Nat.mod_eq_of_lt (by omega)]
  rw [word]
  omega

theorem narrow_completeU64 {n : Nat} (small : n < 2 ^ 64) :
    (completeU64 n).data.toNat < 2 ^ 32 ↔ (n : Int) < 2 ^ 32 := by
  change (UInt64.ofInt n).toNat < 2 ^ 32 ↔ _
  have word : (UInt64.ofInt n).toNat = ((n : Int) % 2 ^ 64).toNat := by
    rw [UInt64.ofInt, UInt64.toNat_ofNat', Nat.mod_eq_of_lt (by omega)]
  rw [word]
  omega

/-- The elements that keep what they stand for. -/
theorem narrowItem_iff {p : OpenFile} {v : Value} {i : Nat} {c : CompleteValue}
    (item : readerVectorValueCase p v i = .ok c) :
    c.toValue.toComplete = c ↔ NarrowItem p v i := by
  have narrow : ∀ {t}, v.type = t → t ≠ .vectorI64 → t ≠ .vectorU64 → NarrowItem p v i := by
    intro t type notSigned notUnsigned
    exact ⟨fun same => absurd (type.symm.trans same) notSigned,
      fun same => absurd (type.symm.trans same) notUnsigned⟩
  have always : c.toValue.toComplete = c → NarrowItem p v i →
      (c.toValue.toComplete = c ↔ NarrowItem p v i) := fun here there =>
    ⟨fun _ => there, fun _ => here⟩
  unfold readerVectorValueCase at item
  split at item
  case h_1 type | h_2 type =>
    obtain ⟨value, -, rfl⟩ := map_eq_ok.mp item
    exact always (by rw [Value.toValue_toComplete]) (narrow type (by decide) (by decide))
  case h_3 type | h_4 type | h_5 type | h_6 type | h_7 type | h_8 type =>
    obtain ⟨z, -, rfl⟩ := map_eq_ok.mp item
    exact always (toComplete_toValue_iff.mpr (narrow_completeI32 z))
      (narrow type (by decide) (by decide))
  case h_9 type =>
    obtain ⟨z, read, rfl⟩ := map_eq_ok.mp item
    obtain ⟨n, word, rfl⟩ := map_eq_ok.mp read
    have small : n < 2 ^ 64 := readerVectorWord_lt word
    have bounds : -2 ^ 63 ≤ toSigned 8 n ∧ toSigned 8 n < 2 ^ 63 := by
      rcases toSigned_cases 8 n with ⟨low, value⟩ | ⟨high, value⟩ <;> rw [value] <;> omega
    rw [toComplete_toValue_iff, narrow_completeI64 bounds.1 bounds.2]
    constructor
    · intro holds
      refine ⟨fun _ z same => ?_, fun bad => ?_⟩
      · cases read.symm.trans same
        exact holds
      · cases type.symm.trans bad
    · intro narrow
      exact narrow.signed type _ read
  case h_10 type =>
    obtain ⟨z, read, rfl⟩ := map_eq_ok.mp item
    obtain ⟨n, word, rfl⟩ := map_eq_ok.mp read
    have small : n < 2 ^ 64 := readerVectorWord_lt word
    change (completeU64 (n : Int)).toValue.toComplete = completeU64 (n : Int) ↔ _
    rw [toComplete_toValue_iff, narrow_completeU64 small]
    constructor
    · intro holds
      refine ⟨fun bad => ?_, fun _ z same => ?_⟩
      · cases type.symm.trans bad
      · cases read.symm.trans same
        exact holds
    · intro narrow
      exact narrow.unsigned type _ read
  case h_11 type =>
    obtain ⟨bits, -, rfl⟩ := map_eq_ok.mp item
    have small : (completeFloat bits).data.toNat < 2 ^ 32 := by
      change bits.toUInt64.toNat < 2 ^ 32
      rw [UInt32.toNat_toUInt64]
      exact bits.toNat_lt
    exact always (toComplete_toValue_iff.mpr small) (narrow type (by decide) (by decide))
  case h_12 =>
    cases item
    refine always rfl ⟨fun type => ?_, fun type => ?_⟩ <;> simp_all

/-! ## Indexes -/

/-- The subscript is the index `k`. -/
def Subscript.IsIndex (sub : Subscript) (k : Int) : Prop :=
  sub.s = none ∧ if sub.isUnsigned then (sub.vU.toNat : Int) = k else sub.vI.toInt = k

/-- The index that a number or a placeholder gives. -/
def EvalKey.index : EvalKey → Option Int
  | .number sign digits => some (sign.apply digits.value)
  | .u64 v => some v.toNat
  | .u32 v => some v.toNat
  | .i64 v => some v.toInt
  | .i32 v => some v.toInt
  | _ => none

/-- An index that is written without a sign, or passed, is the subscript; one that takes more
than 64 bits is none. -/
theorem EvalKey.subscript_index {key : EvalKey} {k : Int} (index : key.index = some k)
    (unsigned : key.signed = false) :
    (key.subscript [] = none ∧ 2 ^ 64 ≤ k) ∨
      ∃ sub, key.subscript [] = some sub ∧ sub.IsIndex k := by
  cases key with
  | number sign digits =>
      cases sign with
      | none =>
          cases index
          by_cases small : digits.value < 2 ^ 64
          · refine Or.inr ⟨_, if_pos small, rfl, ?_⟩
            change ((UInt64.ofNat digits.value).toNat : Int) = digits.value
            rw [UInt64.toNat_ofNat_of_lt' small]
          · apply Or.inl
            refine ⟨if_neg small, ?_⟩
            change 2 ^ 64 ≤ (digits.value : Int)
            omega
      | plus => cases unsigned
      | minus => cases unsigned
  | quoted => cases index
  | string => cases index
  | u64 v =>
      cases index
      exact Or.inr ⟨_, rfl, rfl, rfl⟩
  | u32 v =>
      cases index
      refine Or.inr ⟨_, rfl, rfl, ?_⟩
      change (v.toUInt64.toNat : Int) = v.toNat
      rw [UInt32.toNat_toUInt64]
  | i64 v =>
      cases index
      exact Or.inr ⟨_, rfl, rfl, rfl⟩
  | i32 v =>
      cases index
      refine Or.inr ⟨_, rfl, rfl, ?_⟩
      change v.toInt64.toInt = v.toInt
      exact Int32.toInt_toInt64 v

theorem toNat_toUInt64 {v : Int64} (positive : 0 ≤ v.toInt) :
    (v.toUInt64.toNat : Int) = v.toInt := by
  have bits : v.toInt = v.toBitVec.toInt := rfl
  have word : v.toUInt64.toNat = v.toBitVec.toNat := rfl
  have bound := v.toBitVec.isLt
  rw [bits, BitVec.toInt_eq_toNat_cond] at positive ⊢
  by_cases low : 2 * v.toBitVec.toNat < 2 ^ 64
  · rw [if_pos low, word]
  · rw [if_neg low] at positive
    omega

/-- What an index finds in a vector or bitvector of `n` elements. -/
theorem evalIndex_eq {p : OpenFile} {t : Value} {n : UInt32}
    (count : (if isVectorType t.type then readerVectorNItems p t else readerBitvectorNBits p t) =
      .ok n)
    {sub : Subscript} {k : Int} (index : sub.IsIndex k) :
    evalIndex p t sub =
      if 0 ≤ k ∧ k < n.toNat then
        if isVectorType t.type then
          (fun c => some c.toValue) <$> readerVectorValueCase p t k.toNat
        else
          (fun isSet => some ⟨.boolean, if isSet then 1 else 0⟩) <$> readerBitvectorIsSet p t k.toNat
      else .ok none := by
  obtain ⟨noText, value⟩ := index
  have bound := n.toNat_lt
  have narrow : ∀ w : UInt64, w.toNat < n.toNat → w.toUInt32.toNat = w.toNat := by
    intro w less
    rw [UInt64.toNat_toUInt32]
    omega
  have zero : (0 : Int64).toInt = 0 := rfl
  have sized : evalIndex p t sub =
      if ¬sub.isUnsigned ∧ sub.vI.toInt < 0 then .ok none
      else if sub.isUnsigned ∧ sub.vU.toNat ≥ n.toNat then .ok none
      else if ¬sub.isUnsigned ∧ sub.vI.toInt ≥ n.toNat then .ok none
      else
        let i := if sub.isUnsigned then sub.vU.toUInt32 else sub.vI.toUInt64.toUInt32
        if isVectorType t.type then
          (fun c => some c.toValue) <$> readerVectorValueCase p t i.toNat
        else
          (fun isSet => some ⟨.boolean, if isSet then 1 else 0⟩) <$>
            readerBitvectorIsSet p t i.toNat := by
    rw [evalIndex, noText]
    cases type : isVectorType t.type <;> rw [type] at count <;>
      simp only [Bool.false_eq_true, if_false, if_true] at count <;>
      simp only [Option.isSome_none, Bool.false_eq_true, if_false, if_true, count, ok_bind,
        Int64.lt_iff_toInt_lt, zero] <;>
      rfl
  rw [sized]
  cases isUnsigned : sub.isUnsigned with
  | true =>
      rw [isUnsigned] at value
      change (sub.vU.toNat : Int) = k at value
      subst value
      by_cases less : sub.vU.toNat < n.toNat
      · have here := narrow sub.vU less
        simp [here, less]
      · have outside : n.toNat ≤ sub.vU.toNat := Nat.le_of_not_lt less
        simp [outside, less]
  | false =>
      rw [isUnsigned] at value
      change sub.vI.toInt = k at value
      subst value
      by_cases positive : 0 ≤ sub.vI.toInt
      · have word := toNat_toUInt64 positive
        by_cases less : sub.vI.toInt < n.toNat
        · have here := narrow sub.vI.toUInt64 (by omega)
          have same : sub.vI.toUInt64.toUInt32.toNat = sub.vI.toInt.toNat := by omega
          simp [same, less, positive, Int.not_lt.mpr positive, Int.not_le.mpr less]
        · simp [less, positive, Int.not_lt.mpr positive, Int.not_lt.mp less]
      · simp [positive, Int.not_le.mp positive]

/-- What an index finds in a vector. -/
theorem evalIndex_vector {p : OpenFile} {t : Value} (type : isVectorType t.type = true)
    {n : UInt32} (count : readerVectorNItems p t = .ok n) {sub : Subscript} {k : Int}
    (index : sub.IsIndex k) :
    evalIndex p t sub =
      if 0 ≤ k ∧ k < n.toNat then
        (fun c => some c.toValue) <$> readerVectorValueCase p t k.toNat
      else .ok none := by
  have count' : (if isVectorType t.type then readerVectorNItems p t else
      readerBitvectorNBits p t) = .ok n := by rw [if_pos type, count]
  rw [evalIndex_eq count' index, if_pos type]

/-! ## A step at a vector -/

/-- The step succeeds exactly when the index is in bounds, with a value that widens to the
element. -/
structure VectorStep (p : OpenFile) (t : Value) (n : UInt32) (step : EvalStep) (ap : List EvalArg)
    (k : Int) : Prop where
  finds : ∃ out,
    EventuallyReturns (fun fuel => found <$> evalGet p fuel t step.text (step.args ++ ap)) out ∧
    (out.isSome = true ↔ 0 ≤ k ∧ k < n.toNat) ∧
    ∀ v, out = some v → readerVectorValueCase p t k.toNat = .ok v.toComplete

/-- What a subscript that is an index finds in a vector. -/
theorem EvalKey.lookup_vector {p : OpenFile} {t : Value} (type : isVectorType t.type = true)
    {n : UInt32} (count : readerVectorNItems p t = .ok n) {key : EvalKey} {sub : Subscript}
    (switched : key.subscript [] = some sub) {k : Int} (index : sub.IsIndex k) (fuel : Nat) :
    key.lookup p fuel t =
      if 0 ≤ k ∧ k < n.toNat then
        (fun c => some c.toValue) <$> readerVectorValueCase p t k.toNat
      else .ok none := by
  rw [EvalKey.lookup, switched]
  change evalSubscript p fuel t sub = _
  rw [evalSubscript, if_pos (Or.inl type), evalIndex_vector type count index]

/-- A step of an accepted file's vector at an index is right exactly when the index is out of
bounds, or is written without a sign and the element is one of 32 bits. -/
theorem vectorStep_iff {fuel : Nat} {buf : List UInt8} {p : OpenFile} {error : Option String}
    {t : Value} (opened : openB fuel buf = .ok (p, error)) (reach : Reachable p t)
    (type : isVectorType t.type = true) {n : UInt32} (count : readerVectorNItems p t = .ok n)
    (step : EvalStep) {k : Int} (index : step.key.index = some k) (ap : List EvalArg) :
    VectorStep p t n step ap k ↔
      (0 ≤ k ∧ k < n.toNat → step.key.signed = false ∧ NarrowItem p t k.toNat) := by
  have item : ∀ i < n.toNat, ∃ c, readerVectorValueCase p t i = .ok c := by
    intro i less
    obtain ⟨c, read, -⟩ := (openB_sound opened).itemCase reach type count less
    exact ⟨c, read⟩
  have missed : EventuallyReturns (fun fuel => step.key.get p fuel t) none →
      (VectorStep p t n step ap k ↔ ¬(0 ≤ k ∧ k < n.toNat)) := by
    intro gets
    have runs := step.returns ap gets
    constructor
    · intro right inside
      obtain ⟨out, returns, correct, -⟩ := right.finds
      cases runs.unique returns
      cases correct.mpr inside
    · intro outside
      exact ⟨none, runs, ⟨fun no => Bool.noConfusion no, fun inside => absurd inside outside⟩,
        fun v no => by cases no⟩
  cases signed : step.key.signed with
  | true =>
      have plain := EvalKey.subscript_signed signed []
      have first := fun fuel => EvalKey.lookup_vector type count plain (k := 0) ⟨rfl, rfl⟩ fuel
      have gets : EventuallyReturns (fun fuel => step.key.get p fuel t) none := by
        apply EventuallyReturns.always
        intro fuel
        rw [EvalKey.get, first, signed, if_pos rfl]
        split
        case isTrue inside =>
          obtain ⟨c, read⟩ := item 0 (by omega)
          rw [show (0 : Int).toNat = 0 from rfl, read]
          rfl
        case isFalse => rfl
      rw [missed gets]
      exact ⟨fun outside inside => absurd inside outside, fun holds inside =>
        Bool.noConfusion (holds inside).1⟩
  | false =>
      have whole := fun fuel => EvalKey.get_unsigned p fuel signed t
      rcases EvalKey.subscript_index index signed with ⟨fails, large⟩ | ⟨sub, switched, isIndex⟩
      · have outside : ¬(0 ≤ k ∧ k < n.toNat) := by
          have bound := n.toNat_lt
          omega
        have gets : EventuallyReturns (fun fuel => step.key.get p fuel t) none := by
          apply EventuallyReturns.always
          intro fuel
          rw [whole, EvalKey.lookup, fails]
          rfl
        rw [missed gets]
        exact ⟨fun _ inside => absurd inside outside, fun _ => outside⟩
      · have looks := fun fuel => EvalKey.lookup_vector type count switched isIndex fuel
        by_cases inside : 0 ≤ k ∧ k < n.toNat
        · obtain ⟨c, read⟩ := item k.toNat (by omega)
          have gets : EventuallyReturns (fun fuel => step.key.get p fuel t) (some c.toValue) := by
            apply EventuallyReturns.always
            intro fuel
            rw [whole, looks, if_pos inside, read]
            rfl
          have runs := step.returns ap gets
          constructor
          · intro right _
            obtain ⟨out, returns, -, same⟩ := right.finds
            cases runs.unique returns
            have widened := Except.ok.inj (read.symm.trans (same c.toValue rfl))
            exact ⟨rfl, (narrowItem_iff read).mp widened.symm⟩
          · intro holds
            refine ⟨some c.toValue, runs, ⟨fun _ => inside, fun _ => rfl⟩, fun v taken => ?_⟩
            cases taken
            rw [read, (narrowItem_iff read).mpr (holds inside).2]
        · have gets : EventuallyReturns (fun fuel => step.key.get p fuel t) none := by
            apply EventuallyReturns.always
            intro fuel
            rw [whole, looks, if_neg inside]
          rw [missed gets]
          exact ⟨fun _ here => absurd here inside, fun _ => inside⟩

end Pointless
