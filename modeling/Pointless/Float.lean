import Pointless.Defs

/-!
# Single-precision floats as bit patterns

A `float` is kept as the 32 bits it is stored in. What the library does with one
(compare it with another float or with an integer converted to `float`, and take
its hash) is decided exactly by the integer `floatScaled f`, the value of `f`
times `2 ^ 149`.
-/

namespace Pointless

def floatExponent (f : UInt32) : Nat := f.toNat / 2 ^ 23 % 256

def floatFraction (f : UInt32) : Nat := f.toNat % 2 ^ 23

def floatIsNaN (f : UInt32) : Bool := floatExponent f = 255 ∧ floatFraction f ≠ 0

/-- The value of `f` times `2 ^ 149`. An infinity comes out as `2 ^ 277`, above
every finite value; a NaN has no value and is tested for first. -/
def floatScaled (f : UInt32) : Int :=
  let magnitude : Nat :=
    if floatExponent f = 0 then floatFraction f
    else (floatFraction f + 2 ^ 23) * 2 ^ (floatExponent f - 1)
  if f.toNat < 2 ^ 31 then magnitude else -magnitude

/-- `(float)z` for a 64-bit integer: the nearest integer with a 24-bit
significand, ties to even. -/
def intToFloat (z : Int) : Int :=
  let n := z.natAbs
  if n < 2 ^ 24 then z
  else
    let unit := 2 ^ (n.log2 - 23)
    let q := n / unit
    let r := n % unit
    let q := if 2 * r < unit then q else if unit < 2 * r then q + 1 else q + q % 2
    if z < 0 then -((q * unit : Nat) : Int) else (q * unit : Nat)

/-- A `float` operand of a comparison; `none` is a NaN. -/
abbrev FloatOperand := Option Int

def floatOperand (f : UInt32) : FloatOperand :=
  if floatIsNaN f then none else some (floatScaled f)

def intOperand (z : Int) : FloatOperand := some (intToFloat z * 2 ^ 149)

/-- `SIMPLE_CMP` on floats. A NaN is neither equal to nor below anything. -/
def cmpFloat : FloatOperand → FloatOperand → Int
  | some a, some b => simpleCmp a b
  | _, _ => 1

/-- `pointless_hash_float_32`. -/
def hashFloat32 (f : UInt32) : UInt32 :=
  if floatExponent f = 255 then f
  else if floatScaled f % 2 ^ 149 = 0 then
    let di := floatScaled f / 2 ^ 149
    if di < 0 ∧ -2 ^ 31 ≤ di then UInt32.ofInt di
    else if 0 ≤ di ∧ di ≤ 2 ^ 32 - 1 then UInt32.ofInt di
    else f
  else f

/-- The distance of a float from zero, times `2 ^ 149`. -/
theorem natAbs_floatScaled (f : UInt32) : (floatScaled f).natAbs =
    if floatExponent f = 0 then floatFraction f
    else (floatFraction f + 2 ^ 23) * 2 ^ (floatExponent f - 1) := by
  simp only [floatScaled]
  generalize (if floatExponent f = 0 then floatFraction f
    else (floatFraction f + 2 ^ 23) * 2 ^ (floatExponent f - 1)) = magnitude
  split
  · exact Int.natAbs_natCast magnitude
  · rw [Int.natAbs_neg, Int.natAbs_natCast]

/-- The integer of a float is one that converts without rounding. -/
theorem intToFloat_of_scaled {f : UInt32} {v : Int} (value : floatScaled f = v * 2 ^ 149) :
    intToFloat v = v := by
  have fraction : floatFraction f < 2 ^ 23 := Nat.mod_lt _ (by decide)
  have magnitude := natAbs_floatScaled f
  rw [value, Int.natAbs_mul, show ((2 : Int) ^ 149).natAbs = 2 ^ 149 from rfl] at magnitude
  simp only [intToFloat]
  by_cases small : v.natAbs < 2 ^ 24
  · exact if_pos small
  · rw [if_neg small]
    have large : 2 ^ 24 ≤ v.natAbs := Nat.not_lt.mp small
    have normal : floatExponent f ≠ 0 := by
      intro zero
      rw [if_pos zero] at magnitude
      omega
    rw [if_neg normal] at magnitude
    -- the exponent is one of an integer
    have high : 149 ≤ floatExponent f - 1 := by
      by_contra low
      obtain ⟨k, hk⟩ : ∃ k, 149 = floatExponent f - 1 + k :=
        ⟨149 - (floatExponent f - 1), by omega⟩
      rw [hk, Nat.pow_add, ← Nat.mul_assoc, Nat.mul_right_comm] at magnitude
      have same := Nat.eq_of_mul_eq_mul_right (Nat.two_pow_pos _) magnitude
      have grow := Nat.le_mul_of_pos_right v.natAbs (Nat.two_pow_pos k)
      omega
    obtain ⟨k, hk⟩ : ∃ k, floatExponent f - 1 = k + 149 := ⟨floatExponent f - 1 - 149, by omega⟩
    rw [hk, Nat.pow_add, ← Nat.mul_assoc] at magnitude
    have integer := Nat.eq_of_mul_eq_mul_right (Nat.two_pow_pos _) magnitude
    have log : v.natAbs.log2 = 23 + k := by
      rw [Nat.log2_eq_iff (by omega), integer, Nat.pow_add, Nat.add_right_comm, Nat.pow_add]
      exact ⟨Nat.mul_le_mul_right _ (by omega),
        Nat.mul_lt_mul_of_pos_right (by omega) (Nat.two_pow_pos k)⟩
    have unit : 2 ^ (v.natAbs.log2 - 23) = 2 ^ k := by rw [log, Nat.add_sub_cancel_left]
    simp only [unit]
    have quotient : v.natAbs / 2 ^ k = floatFraction f + 2 ^ 23 := by
      rw [integer, Nat.mul_div_cancel _ (Nat.two_pow_pos k)]
    have remainder : v.natAbs % 2 ^ k = 0 := by rw [integer, Nat.mul_mod_left]
    rw [quotient, remainder, Nat.mul_zero, if_pos (Nat.two_pow_pos k), ← integer]
    split <;> omega
end Pointless
