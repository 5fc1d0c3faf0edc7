import Mathlib.Data.List.DropRight
import Mathlib.Data.UInt

/-!
# C text

Text as C programs read it: bytes, of which the first zero ends the text.

* `isSpace` and `isDigit` are the character classes of the C locale, and `peek` is the
  character a pointer is at.
* `Numeral` is a sequence of at least one digit. `strtoull` reads the longest one in front of
  it and keeps to 64 bits.
-/

namespace CText

/-! ## Characters -/

/-- `isspace`. -/
def isSpace (c : UInt8) : Bool := c == 32 || (9 ≤ c && c ≤ 13)

/-- `isdigit`. -/
def isDigit (c : UInt8) : Bool := 48 ≤ c && c ≤ 57

/-- `*s`. -/
def peek (s : List UInt8) : UInt8 := s.headD 0

@[simp] theorem peek_nil : peek [] = 0 := rfl

@[simp] theorem peek_cons (c : UInt8) (s : List UInt8) : peek (c :: s) = c := rfl

/-- `while (isspace(*s)) s++;`. -/
def skipSpace (s : List UInt8) : List UInt8 := s.dropWhile isSpace

theorem white_nil : ∀ c ∈ ([] : List UInt8), isSpace c = true := List.forall_mem_nil _

theorem skipSpace_append {space : List UInt8} (white : ∀ c ∈ space, isSpace c = true)
    (s : List UInt8) : skipSpace (space ++ s) = skipSpace s := by
  unfold skipSpace
  rw [List.dropWhile_append, List.dropWhile_eq_nil_iff.mpr white]
  rfl

theorem skipSpace_cons {c : UInt8} (solid : isSpace c = false) (s : List UInt8) :
    skipSpace (c :: s) = c :: s := by
  unfold skipSpace
  rw [List.dropWhile_cons_of_neg (by simp [solid])]

theorem skipSpace_skipSpace (s : List UInt8) : skipSpace (skipSpace s) = skipSpace s :=
  List.dropWhile_idempotent _ s

theorem isDigit_not_space {c : UInt8} (digit : isDigit c = true) : isSpace c = false := by
  simp only [isDigit, Bool.and_eq_true, decide_eq_true_eq, UInt8.le_iff_toNat_le] at digit
  simp only [isSpace, Bool.or_eq_false_iff, beq_eq_false_iff_ne, ne_eq, Bool.and_eq_false_imp,
    decide_eq_true_eq, decide_eq_false_iff_not, UInt8.le_iff_toNat_le, ← UInt8.toNat_inj]
  simp only [UInt8.toNat_ofNat] at digit ⊢
  omega

theorem isSpace_not_digit {c : UInt8} (space : isSpace c = true) : isDigit c = false := by
  cases digit : isDigit c with
  | false => rfl
  | true =>
      rw [isDigit_not_space digit] at space
      cases space

/-! ## Numerals -/

/-- The number that digits spell. -/
def decimal (digits : List UInt8) : Nat := digits.foldl (fun n c => 10 * n + (c.toNat - 48)) 0

/-- At least one digit. -/
structure Numeral where
  chars : List UInt8
  nonempty : chars ≠ []
  digits : ∀ c ∈ chars, isDigit c = true

namespace Numeral

/-- The numeral of one digit. -/
def single (c : UInt8) (digit : isDigit c = true) : Numeral where
  chars := [c]
  nonempty := List.cons_ne_nil c []
  digits := List.forall_mem_singleton.mpr digit

/-- The number it spells. -/
def value (numeral : Numeral) : Nat := decimal numeral.chars

variable (numeral : Numeral)

/-- The first digit, with the rest. -/
theorem exists_cons : ∃ c rest, numeral.chars = c :: rest ∧ isDigit c = true := by
  obtain ⟨c, rest, split⟩ := List.exists_cons_of_ne_nil numeral.nonempty
  exact ⟨c, rest, split, numeral.digits c (by simp [split])⟩

/-- The longest numeral in front of a text is the one that a character other than a digit
ends. -/
theorem takeWhile_append {rest : List UInt8} (ends : isDigit (peek rest) = false) :
    (numeral.chars ++ rest).takeWhile isDigit = numeral.chars := by
  rw [List.takeWhile_append_of_pos numeral.digits]
  cases rest with
  | nil => simp
  | cons c rest => rw [List.takeWhile_cons_of_neg (by simpa using ends), List.append_nil]

theorem dropWhile_append {rest : List UInt8} (ends : isDigit (peek rest) = false) :
    (numeral.chars ++ rest).dropWhile isDigit = rest := by
  rw [List.dropWhile_append, List.dropWhile_eq_nil_iff.mpr numeral.digits]
  cases rest with
  | nil => rfl
  | cons c rest => exact List.dropWhile_cons_of_neg (by simpa using ends)

end Numeral

/-- `strtoull` in base 10, in front of a digit: the number, whether `errno` is `ERANGE`, and
the text behind the digits. -/
def strtoull (s : List UInt8) : UInt64 × Bool × List UInt8 :=
  let n := decimal (s.takeWhile isDigit)
  if n < 2 ^ 64 then (UInt64.ofNat n, false, s.dropWhile isDigit)
  else (0xffffffffffffffff, true, s.dropWhile isDigit)

theorem strtoull_numeral (numeral : Numeral) {rest : List UInt8}
    (ends : isDigit (peek rest) = false) :
    strtoull (numeral.chars ++ rest) =
      if numeral.value < 2 ^ 64 then (UInt64.ofNat numeral.value, false, rest)
      else (0xffffffffffffffff, true, rest) := by
  unfold strtoull Numeral.value
  rw [numeral.takeWhile_append ends, numeral.dropWhile_append ends]

end CText
