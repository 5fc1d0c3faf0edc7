import Mathlib.Data.Nat.Basic
import Mathlib.Tactic.Ring

/-!
# Arithmetic that tracks overflow

Numbers of `w` bits that carry a flag for overflow. The flag is found out after the fact: a
sum that wraps is below its summands, and a product that fits is not past the greatest
number divided by a factor. An operand with the flag set gives it to the result.

* `Arith` are the expressions of sums and products over some leaves, with their exact value
  and what it is for all of their parts to stay below a bound.
* `Arith.tracked_tracks`: the flag of a tracked expression is clear exactly when each part is
  below `2 ^ w`, and its value is then exact.
-/

namespace Overflow

universe u v w

/-! ## Expressions -/

/-- Expressions of sums and products. -/
inductive Arith (α : Type u) where
  | leaf (a : α)
  | add (l r : Arith α)
  | mult (l r : Arith α)

namespace Arith

variable {α : Type u} {β : Type v} {γ : Type w}

/-- The value of an expression in some arithmetic. -/
def fold (leaf : α → β) (add mult : β → β → β) : Arith α → β
  | .leaf a => leaf a
  | .add l r => add (l.fold leaf add mult) (r.fold leaf add mult)
  | .mult l r => mult (l.fold leaf add mult) (r.fold leaf add mult)

/-- A map that goes along with the operations goes along with the value. -/
theorem fold_hom {leaf : α → β} {add mult : β → β → β} {leaf' : α → γ} {add' mult' : γ → γ → γ}
    {h : β → γ} (onLeaf : ∀ a, h (leaf a) = leaf' a)
    (onAdd : ∀ x y, h (add x y) = add' (h x) (h y))
    (onMult : ∀ x y, h (mult x y) = mult' (h x) (h y)) (e : Arith α) :
    h (e.fold leaf add mult) = e.fold leaf' add' mult' := by
  induction e with
  | leaf a => exact onLeaf a
  | add l r ihl ihr => rw [fold, fold, onAdd, ihl, ihr]
  | mult l r ihl ihr => rw [fold, fold, onMult, ihl, ihr]

/-- The exact value. -/
def exact (size : α → Nat) (e : Arith α) : Nat := e.fold size (· + ·) (· * ·)

/-- Every part has an exact value below the bound. -/
def Fits (size : α → Nat) (bound : Nat) : Arith α → Prop
  | .leaf a => size a < bound
  | .add l r => l.Fits size bound ∧ r.Fits size bound ∧ l.exact size + r.exact size < bound
  | .mult l r => l.Fits size bound ∧ r.Fits size bound ∧ l.exact size * r.exact size < bound

end Arith

/-! ## Tracked numbers -/

/-- A number of `w` bits, and whether there was an overflow on the way to it. -/
structure Tracked (w : Nat) where
  isOverflow : Bool
  value : BitVec w
  deriving DecidableEq

section Tracked

variable {w : Nat}

/-- A number to start from. -/
def Tracked.init (v : BitVec w) : Tracked w := ⟨false, v⟩

/-- The sum, which has wrapped when it is below its summands. -/
def Tracked.add (a b : Tracked w) : Tracked w :=
  if a.isOverflow ∨ b.isOverflow then ⟨true, 1⟩
  else
    let value := a.value + b.value
    ⟨value < a.value ∧ value < b.value, value⟩

/-- The product, unless a factor is past the greatest number divided by the other. -/
def Tracked.mult (a b : Tracked w) : Tracked w :=
  if a.isOverflow ∨ b.isOverflow ∨ (a.value ≠ 0 ∧ BitVec.allOnes w / a.value < b.value) ∨
      (b.value ≠ 0 ∧ BitVec.allOnes w / b.value < a.value) then ⟨true, 1⟩
  else ⟨false, a.value * b.value⟩

/-- The flag is clear exactly under the condition `fits`, and the value is then `n`. -/
structure Tracks (x : Tracked w) (n : Nat) (fits : Prop) : Prop where
  flag : x.isOverflow = false ↔ fits
  value : fits → x.value.toNat = n

variable {x y : Tracked w} {a b : Nat} {p q : Prop}

theorem Tracks.init (v : BitVec w) : Tracks (.init v) v.toNat (v.toNat < 2 ^ w) :=
  ⟨⟨fun _ => v.isLt, fun _ => rfl⟩, fun _ => rfl⟩

theorem Tracks.overflow {v : BitVec w} (not : ¬p) : Tracks ⟨true, v⟩ a p where
  flag := by
    constructor
    · intro clear
      cases clear
    · intro fits
      exact absurd fits not
  value := fun fits => absurd fits not

/-- An operand with the flag set. -/
theorem Tracks.not_fits (tracks : Tracks x a p) (overflow : x.isOverflow = true) : ¬p := by
  intro fits
  rw [tracks.flag.mpr fits] at overflow
  cases overflow

theorem add_wraps (u v : BitVec w) : (u + v < u ∧ u + v < v) ↔ 2 ^ w ≤ u.toNat + v.toNat := by
  have below := u.isLt
  have below' := v.isLt
  rw [BitVec.lt_def, BitVec.lt_def, BitVec.toNat_add]
  rcases Nat.lt_or_ge (u.toNat + v.toNat) (2 ^ w) with fits | wraps
  · rw [Nat.mod_eq_of_lt fits]
    omega
  · have rest : (u.toNat + v.toNat) % 2 ^ w = u.toNat + v.toNat - 2 ^ w := by
      rw [Nat.mod_eq_sub_mod wraps, Nat.mod_eq_of_lt (by omega)]
    omega

theorem mult_limit (u v : BitVec w) :
    (u ≠ 0 ∧ BitVec.allOnes w / u < v) ↔ 2 ^ w ≤ u.toNat * v.toNat := by
  have zero : u = 0 ↔ u.toNat = 0 := by
    rw [← BitVec.toNat_inj]
    rfl
  have positive := Nat.two_pow_pos w
  rw [BitVec.lt_def, BitVec.toNat_udiv, BitVec.toNat_allOnes, ne_eq, zero]
  rcases Nat.eq_zero_or_pos u.toNat with none | some
  · rw [none, Nat.zero_mul]
    omega
  · rw [Nat.div_lt_iff_lt_mul some, Nat.mul_comm v.toNat]
    omega

theorem Tracks.add (left : Tracks x a p) (right : Tracks y b q) :
    Tracks (x.add y) (a + b) (p ∧ q ∧ a + b < 2 ^ w) := by
  rw [Tracked.add]
  split
  case isTrue flagged =>
    apply Tracks.overflow
    intro fits
    rcases flagged with wrapped | wrapped
    · exact left.not_fits wrapped fits.1
    · exact right.not_fits wrapped fits.2.1
  case isFalse clear =>
    rw [not_or, Bool.not_eq_true, Bool.not_eq_true] at clear
    have fitsLeft := left.flag.mp clear.1
    have fitsRight := right.flag.mp clear.2
    have wraps := add_wraps x.value y.value
    rw [left.value fitsLeft, right.value fitsRight] at wraps
    constructor
    case flag =>
      change decide _ = false ↔ _
      rw [decide_eq_false_iff_not, wraps, Nat.not_le]
      exact ⟨fun less => ⟨fitsLeft, fitsRight, less⟩, fun fits => fits.2.2⟩
    case value =>
      intro fits
      change (x.value + y.value).toNat = a + b
      rw [BitVec.toNat_add, left.value fitsLeft, right.value fitsRight, Nat.mod_eq_of_lt fits.2.2]

theorem Tracks.mult (left : Tracks x a p) (right : Tracks y b q) :
    Tracks (x.mult y) (a * b) (p ∧ q ∧ a * b < 2 ^ w) := by
  rw [Tracked.mult]
  split
  case isTrue flagged =>
    apply Tracks.overflow
    intro fits
    have limit := mult_limit x.value y.value
    have limit' := mult_limit y.value x.value
    rw [left.value fits.1, right.value fits.2.1] at limit limit'
    rw [Nat.mul_comm] at limit'
    have less := fits.2.2
    rcases flagged with wrapped | wrapped | past | past
    · exact left.not_fits wrapped fits.1
    · exact right.not_fits wrapped fits.2.1
    · exact absurd (limit.mp past) (Nat.not_le.mpr less)
    · exact absurd (limit'.mp past) (Nat.not_le.mpr less)
  case isFalse clear =>
    rw [not_or, not_or, not_or, Bool.not_eq_true, Bool.not_eq_true] at clear
    have fitsLeft := left.flag.mp clear.1
    have fitsRight := right.flag.mp clear.2.1
    have limit := mult_limit x.value y.value
    rw [left.value fitsLeft, right.value fitsRight] at limit
    have less : a * b < 2 ^ w := Nat.not_le.mp fun wraps => clear.2.2.1 (limit.mpr wraps)
    constructor
    case flag => exact ⟨fun _ => ⟨fitsLeft, fitsRight, less⟩, fun _ => rfl⟩
    case value =>
      intro _
      change (x.value * y.value).toNat = a * b
      rw [BitVec.toNat_mul, left.value fitsLeft, right.value fitsRight, Nat.mod_eq_of_lt less]

/-- The flag of a tracked expression is clear exactly when all of its parts fit, and its
value is then exact. -/
theorem Arith.tracked_tracks {α : Type u} (bits : α → BitVec w) (e : Arith α) :
    Tracks (e.fold (fun a => .init (bits a)) .add .mult) (e.exact fun a => (bits a).toNat)
      (e.Fits (fun a => (bits a).toNat) (2 ^ w)) := by
  induction e with
  | leaf a => exact .init (bits a)
  | add l r ihl ihr => exact ihl.add ihr
  | mult l r ihl ihr => exact ihl.mult ihr

end Tracked

end Overflow
