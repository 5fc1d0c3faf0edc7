import Mathlib.RingTheory.ZMod.UnitsCyclic
import Mathlib.Data.Nat.ModEq

/-!
# A congruential sequence of full period

A sequence that follows `x ↦ 5 * x + 1` modulo `2 ^ k` runs through every residue
in any `2 ^ k` consecutive places.

With `u = 4 * x + 1` the recurrence becomes `u ↦ 5 * u` modulo `2 ^ (k + 2)`, where
`u` is a unit and `5` has order `2 ^ k`. So no residue comes twice among the first
`2 ^ k`, and there are only `2 ^ k` of them.
-/

namespace FullPeriod

/-- The sequence follows `x ↦ 5 * x + 1` modulo `2 ^ k`. -/
def Follows (k : Nat) (x : Nat → Nat) : Prop :=
  ∀ d, x (d + 1) ≡ 5 * x d + 1 [MOD 2 ^ k]

variable {k : Nat} {x : Nat → Nat}

theorem modEq_scaled {a b : Nat} (same : a ≡ b [MOD 2 ^ k]) :
    4 * a + 1 ≡ 4 * b + 1 [MOD 2 ^ (k + 2)] := by
  have times : 4 * a ≡ 4 * b [MOD 4 * 2 ^ k] := same.mul_left' 4
  have modulus : 2 ^ (k + 2) = 4 * 2 ^ k := by ring
  rw [modulus]
  exact times.add_right 1

theorem Follows.shift (follows : Follows k x) (n : Nat) : Follows k fun d => x (n + d) :=
  fun d => follows (n + d)

/-- In the variable `4 * x + 1` the sequence is geometric. -/
theorem Follows.geometric (follows : Follows k x) (d : Nat) :
    ((4 * x d + 1 : Nat) : ZMod (2 ^ (k + 2))) = 5 ^ d * ((4 * x 0 + 1 : Nat) : ZMod _) := by
  induction d with
  | zero => simp only [pow_zero, one_mul]
  | succ d ih =>
      calc ((4 * x (d + 1) + 1 : Nat) : ZMod (2 ^ (k + 2)))
          = ((4 * (5 * x d + 1) + 1 : Nat) : ZMod (2 ^ (k + 2))) :=
            (ZMod.natCast_eq_natCast_iff _ _ _).mpr (modEq_scaled (follows d))
        _ = 5 * ((4 * x d + 1 : Nat) : ZMod (2 ^ (k + 2))) := by
            push_cast
            ring
        _ = 5 ^ (d + 1) * ((4 * x 0 + 1 : Nat) : ZMod (2 ^ (k + 2))) := by
            rw [ih, pow_succ]
            ring

/-- Two places with one residue are a multiple of `2 ^ k` apart. -/
theorem Follows.eq_places (follows : Follows k x) {d e : Nat}
    (same : x d % 2 ^ k = x e % 2 ^ k) : d ≡ e [MOD 2 ^ k] := by
  have powers : (5 : ZMod (2 ^ (k + 2))) ^ d * ((4 * x 0 + 1 : Nat) : ZMod _)
      = 5 ^ e * ((4 * x 0 + 1 : Nat) : ZMod _) := by
    rw [← follows.geometric d, ← follows.geometric e]
    exact (ZMod.natCast_eq_natCast_iff _ _ _).mpr (modEq_scaled same)
  have odd : IsUnit ((4 * x 0 + 1 : Nat) : ZMod (2 ^ (k + 2))) := by
    rw [ZMod.isUnit_iff_coprime]
    apply Nat.Coprime.pow_right
    rw [Nat.coprime_two_right]
    exact ⟨2 * x 0, by ring⟩
  have five : IsUnit (5 : ZMod (2 ^ (k + 2))) := by
    have cast : (5 : ZMod (2 ^ (k + 2))) = ((5 : Nat) : ZMod (2 ^ (k + 2))) := by norm_cast
    rw [cast, ZMod.isUnit_iff_coprime]
    exact Nat.Coprime.pow_right _ (by norm_num)
  obtain ⟨unit, unit_eq⟩ := five
  have cancelled : (5 : ZMod (2 ^ (k + 2))) ^ d = 5 ^ e := odd.mul_right_cancel powers
  have unitPowers : unit ^ d = unit ^ e := by
    apply Units.ext
    rw [Units.val_pow_eq_pow_val, Units.val_pow_eq_pow_val, unit_eq, cancelled]
  have order : orderOf unit = 2 ^ k := by
    rw [← orderOf_units, unit_eq, ZMod.orderOf_five]
  rw [← order]
  exact pow_eq_pow_iff_modEq.mp unitPowers

/-- Every residue comes within the first `2 ^ k` places. -/
theorem Follows.visits (follows : Follows k x) {r : Nat} (residue : r < 2 ^ k) :
    ∃ d < 2 ^ k, x d % 2 ^ k = r := by
  let place : Fin (2 ^ k) → Fin (2 ^ k) := fun d =>
    ⟨x d % 2 ^ k, Nat.mod_lt _ (Nat.two_pow_pos k)⟩
  have injective : Function.Injective place := by
    intro d e same
    have apart := follows.eq_places (congrArg Fin.val same)
    apply Fin.ext
    rwa [Nat.ModEq, Nat.mod_eq_of_lt d.isLt, Nat.mod_eq_of_lt e.isLt] at apart
  obtain ⟨d, found⟩ := Finite.injective_iff_surjective.mp injective ⟨r, residue⟩
  exact ⟨d, d.isLt, congrArg Fin.val found⟩

end FullPeriod
