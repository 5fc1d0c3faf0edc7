import Pointless.Lib.Bisection
import Pointless.PyExtrema

/-!
# `bisect_left`

The binary search of a slice of a vector of `u64`. The positions `i`, `j` and `mid` are
`int64_t`, and the number of items has 32 bits, so that `i + j` stays far below 2^63.
-/

namespace Pointless

open Bisection ExceptRules

/-! ## The search -/

/-- The loop of `PyPointlessVector_bisect_left`. -/
def bisectLeftLoop (item : Nat → Res Int) (x : Int) : Nat → Nat → Nat → Res Nat
  | 0, _, _ => fault .diverges
  | fuel + 1, i, j =>
      if i < j then do
        let mid := (i + j) / 2
        let y ← item mid
        if y < x then bisectLeftLoop item x fuel (mid + 1) j else bisectLeftLoop item x fuel i mid
      else pure i

/-- `PyPointlessVector_bisect_left`. -/
def pyVectorBisectLeft (fuel : Nat) (self : PyPointlessVector) (args : List PyOperand) :
    Res PyFileObject :=
  let number : Raises Int :=
    match args with
    | [arg] => parsePyobjectNumber arg
    | _ => .error ""
  match number with
  | .error _ => fail "we need a number in the range [0, 2**64-1]"
  | .ok x =>
      if x < 0 then fail "value is signed"
      else if self.v.type ≠ .vectorU64 then fail "vector must be u64"
      else do
        let base ← readerVectorBasePtr self.pp self.v
        let i ← bisectLeftLoop (sliceItem self.pp .u64 base self.sliceI self.sliceN) x fuel 0
          self.sliceN.toNat
        return .int i

/-! ## The cut -/

/-- The loop closes in on the cut, halving the stretch between `i` and `j`, and reads only
items in between. -/
theorem bisectLeftLoop_cut {item : Nat → Res Int} {x : Int} {zs : List Int}
    (sorted : zs.Pairwise (· ≤ ·)) (items : ∀ k (less : k < zs.length), item k = .ok zs[k])
    {fuel i j : Nat} (between : Between x zs i j) (enough : j - i < 2 ^ fuel) :
    ∃ k, bisectLeftLoop item x (fuel + 1) i j = .ok k ∧ Between x zs k k := by
  induction fuel generalizing i j with
  | zero =>
      have closed : i = j := Nat.le_antisymm between.le (by omega)
      subst closed
      exact ⟨i, by rw [bisectLeftLoop, if_neg (Nat.lt_irrefl i), pure_eq_ok], between⟩
  | succ fuel ih =>
      rw [bisectLeftLoop]
      split
      case isTrue apart =>
        have within := between.within
        have before : (i + j) / 2 < j := by omega
        have after : i ≤ (i + j) / 2 := by omega
        have less : (i + j) / 2 < zs.length := by omega
        have twice : 2 ^ (fuel + 1) = 2 * 2 ^ fuel := Nat.pow_succ'
        simp only [items _ less, ok_bind]
        split
        case isTrue smaller => exact ih (between.up sorted before less smaller) (by omega)
        case isFalse larger =>
          exact ih (between.down sorted after less (Int.not_lt.mp larger)) (by omega)
      case isFalse closed =>
        have same : i = j := Nat.le_antisymm between.le (Nat.not_lt.mp closed)
        subst same
        exact ⟨i, by rw [pure_eq_ok], between⟩

/-- The items below `x` are counted. -/
theorem bisectLeftLoop_eq {item : Nat → Res Int} {x : Int} {zs : List Int}
    (sorted : zs.Pairwise (· ≤ ·)) (items : ∀ k (less : k < zs.length), item k = .ok zs[k])
    {fuel : Nat} (enough : zs.length < 2 ^ fuel) :
    bisectLeftLoop item x (fuel + 1) 0 zs.length = .ok (zs.countP (· < x)) := by
  obtain ⟨k, ran, between⟩ := bisectLeftLoop_cut sorted items (.start (x := x)) enough
  rw [ran, between.countP_eq]

/-- `bisect_left` finds the number of the items below `x`, the leftmost position at which `x`
is inserted in order, and reads no item outside the slice. -/
theorem bisectLeft_eq {vector : PyPointlessVector} {zs : List Int} {x : Int} {fuel : Nat}
    (visible : ValueVector (.vector vector.pp vector.v vector.sliceI vector.sliceN) zs)
    (wide : vector.v.type = .vectorU64) (sorted : zs.Pairwise (· ≤ ·)) (unsigned : 0 ≤ x)
    (fits : x < 2 ^ 64) (enough : 33 ≤ fuel) :
    pyVectorBisectLeft fuel vector [some (.int x)] = .ok (.int (zs.countP (· < x))) ∧
      (∀ item : Nat → Res Int, (∀ k (less : k < zs.length), item k = .ok zs[k]) →
        bisectLeftLoop item x fuel 0 zs.length = .ok (zs.countP (· < x))) ∧
      IsLeast {m | m ≤ zs.length ∧ (zs.insertIdx m x).Pairwise (· ≤ ·)} (zs.countP (· < x)) := by
  obtain ⟨p, v, i, n⟩ := vector
  dsimp only at visible wide
  cases visible with
  | empty type =>
      rw [wide] at type
      cases type
  | @typed _ _ _ _ _ _ _ _ _ t opened reach whole type total inside length items =>
      have isU64 : t = .u64 := by
        rw [wide] at type
        cases t <;> cases type
        rfl
      subst isU64
      obtain ⟨fuel, rfl⟩ : ∃ fuel', fuel = fuel' + 1 := ⟨fuel - 1, by omega⟩
      have few : zs.length < 2 ^ fuel := by
        have less := n.toNat_lt
        have grows : 2 ^ 32 ≤ 2 ^ fuel := Nat.pow_le_pow_right Nat.two_pos (by omega)
        omega
      have finds : ∀ item : Nat → Res Int, (∀ k (less : k < zs.length), item k = .ok zs[k]) →
          bisectLeftLoop item x (fuel + 1) 0 zs.length = .ok (zs.countP (· < x)) :=
        fun item items => bisectLeftLoop_eq sorted items few
      obtain ⟨base, start⟩ := exists_vectorBasePtr opened reach type
      have read : ∀ k (less : k < zs.length), sliceItem p .u64 base i n k = .ok zs[k] := by
        intro k less
        rw [sliceItem, if_pos (by omega), ← items k less, readerVectorWord, start, ok_bind]
      have number : parsePyobjectNumber (some (.int x)) = .ok x := by
        rw [parsePyobjectNumber, if_neg (by omega)]
      have found := finds _ read
      rw [length] at found
      refine ⟨?_, finds, ?_⟩
      · simp only [pyVectorBisectLeft, number, if_neg (Int.not_lt.mpr unsigned), wide,
          ne_eq, not_true_eq_false, if_false, start, ok_bind, found, pure_eq_ok]
      · obtain ⟨k, -, between⟩ := bisectLeftLoop_cut sorted read (.start (x := x)) few
        rw [between.countP_eq]
        exact between.isLeast sorted

/-- Among four items of a slice, two of them the same. -/
theorem bisectLeft_eq_five :
    pyVectorBisectLeft 33 ⟨fiveVectorOpened, ⟨.vectorU64, 0⟩, 1, 4⟩ [some (.int 6)] =
      .ok (.int ([5, 5, 2 ^ 32, (2 : Int) ^ 64 - 1].countP (· < 6))) :=
  (bisectLeft_eq (fiveVector_visible rfl (List.prefix_refl _)) rfl (by decide) (by decide)
    (by decide) (Nat.le_refl 33)).1

end Pointless
