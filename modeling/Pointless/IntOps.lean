import Pointless.Defs

/-!
# Arithmetic that tracks overflow

The 64-bit operations of `pointless_int_ops.c` that the validator sizes objects
with.
-/

namespace Pointless

/-- `intop_u64_t`. -/
structure IntopU64 where
  isOverflow : Bool
  value : UInt64
  deriving DecidableEq, Repr

/-- `intop_u64_init`. -/
def intopU64Init (v : UInt64) : IntopU64 := ⟨false, v⟩

/-- `intop_u64_add`. -/
def intopU64Add (a b : IntopU64) : IntopU64 :=
  if a.isOverflow ∨ b.isOverflow then ⟨true, 1⟩
  else
    let value := a.value + b.value
    ⟨value < a.value ∧ value < b.value, value⟩

/-- `intop_u64_mult`. -/
def intopU64Mult (a b : IntopU64) : IntopU64 :=
  if a.isOverflow ∨ b.isOverflow ∨ (a.value ≠ 0 ∧ 0xffffffffffffffff / a.value < b.value) ∨
      (b.value ≠ 0 ∧ 0xffffffffffffffff / b.value < a.value) then ⟨true, 1⟩
  else ⟨false, a.value * b.value⟩

/-- The result stands for the number `n`: it is `n`, or it overflowed and `n` does
not fit. -/
def IntopU64.Is (x : IntopU64) (n : Nat) : Prop :=
  (x.isOverflow = false ∧ x.value.toNat = n) ∨ (x.isOverflow = true ∧ 2 ^ 64 ≤ n)

theorem intopU64Init_is (v : UInt64) : (intopU64Init v).Is v.toNat := Or.inl ⟨rfl, rfl⟩

theorem intopU64Add_is {x y : IntopU64} {a b : Nat} (isA : x.Is a) (isB : y.Is b) :
    (intopU64Add x y).Is (a + b) := by
  rcases isA with ⟨xFits, rfl⟩ | ⟨xOver, aLarge⟩
  · rcases isB with ⟨yFits, rfl⟩ | ⟨yOver, bLarge⟩
    · have sum : (x.value + y.value).toNat = (x.value.toNat + y.value.toNat) % 2 ^ 64 :=
        UInt64.toNat_add _ _
      have xBound := x.value.toNat_lt
      have yBound := y.value.toNat_lt
      rw [intopU64Add, if_neg (by simp [xFits, yFits])]
      by_cases wraps : 2 ^ 64 ≤ x.value.toNat + y.value.toNat
      · refine Or.inr ⟨?_, wraps⟩
        simp only [decide_eq_true_eq, UInt64.lt_iff_toNat_lt, sum]
        omega
      · refine Or.inl ⟨?_, ?_⟩
        · simp only [decide_eq_false_iff_not, UInt64.lt_iff_toNat_lt, sum]
          omega
        · simp only [sum]
          omega
    · rw [intopU64Add, if_pos (Or.inr yOver)]
      exact Or.inr ⟨rfl, by omega⟩
  · rw [intopU64Add, if_pos (Or.inl xOver)]
    exact Or.inr ⟨rfl, by omega⟩

theorem intopU64Mult_is {a b : UInt64} :
    (intopU64Mult (intopU64Init a) (intopU64Init b)).Is (a.toNat * b.toNat) := by
  have product : (a * b).toNat = a.toNat * b.toNat % 2 ^ 64 := UInt64.toNat_mul a b
  have limit : ∀ x y : UInt64, x ≠ 0 ∧ 0xffffffffffffffff / x < y ↔
      2 ^ 64 ≤ x.toNat * y.toNat := by
    intro x y
    have top : (0xffffffffffffffff / x : UInt64).toNat = (2 ^ 64 - 1) / x.toNat :=
      UInt64.toNat_div _ _
    rw [UInt64.lt_iff_toNat_lt, top, ne_eq, ← UInt64.toNat_inj]
    rcases Nat.eq_zero_or_pos x.toNat with zero | positive
    · rw [zero, Nat.zero_mul]
      exact ⟨fun bad => absurd rfl bad.1, fun bad => by omega⟩
    · rw [Nat.div_lt_iff_lt_mul positive, Nat.mul_comm y.toNat]
      change ¬x.toNat = 0 ∧ _ ↔ _
      omega
  rw [intopU64Mult]
  by_cases wraps : 2 ^ 64 ≤ a.toNat * b.toNat
  · rw [if_pos]
    · exact Or.inr ⟨rfl, wraps⟩
    · exact Or.inr (Or.inr (Or.inl ((limit a b).mpr wraps)))
  · rw [if_neg]
    · refine Or.inl ⟨rfl, ?_⟩
      simp only [intopU64Init, product]
      omega
    · rintro (bad | bad | bad | bad)
      · cases bad
      · cases bad
      · exact wraps ((limit a b).mp bad)
      · exact wraps (Nat.mul_comm b.toNat a.toNat ▸ (limit b a).mp bad)

end Pointless
