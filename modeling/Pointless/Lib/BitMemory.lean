import Mathlib.Data.Nat.Bitwise
import Mathlib.Data.List.Basic
import Mathlib.Data.UInt

/-!
The bits of a byte memory, the least significant bit of each byte first.

`bit m i` reads bit `i` and `put m i b` overwrites it. Both are total: a bit
outside the memory is clear and writing it changes nothing, so that a program
which checks its bounds can be compared with them.
-/

namespace BitMemory

/-- Bit `i` of `m`. -/
def bit (m : List UInt8) (i : Nat) : Bool := (m[i / 8]?.getD 0).toNat.testBit (i % 8)

/-- The byte with bit `k` set to `b`. -/
def putByte (byte : UInt8) (k : Nat) (b : Bool) : UInt8 :=
  if b then byte ||| (1 <<< UInt8.ofNat k) else byte &&& ~~~(1 <<< UInt8.ofNat k)

/-- The memory `m` with bit `i` set to `b`. -/
def put (m : List UInt8) (i : Nat) (b : Bool) : List UInt8 :=
  m.modify (i / 8) fun byte => putByte byte (i % 8) b

@[simp] theorem length_put (m : List UInt8) (i : Nat) (b : Bool) :
    (put m i b).length = m.length := List.length_modify _ _ _

theorem testBit_shift {k j : Nat} (inByte : k < 8) (inByte' : j < 8) :
    ((1 : UInt8) <<< UInt8.ofNat k).toNat.testBit j = decide (k = j) := by
  have size : ∀ a b : Fin 8, ((1 : UInt8) <<< UInt8.ofNat a.val).toNat.testBit b.val
      = decide (a.val = b.val) := by decide
  exact size ⟨k, inByte⟩ ⟨j, inByte'⟩

/-- A byte masked by a single bit is nonzero exactly when it has that bit. -/
theorem and_shift_ne_zero (byte : UInt8) {k : Nat} (inByte : k < 8) :
    byte &&& (1 <<< UInt8.ofNat k) ≠ 0 ↔ byte.toNat.testBit k = true := by
  have power : ∀ a : Fin 8, ((1 : UInt8) <<< UInt8.ofNat a.val).toNat = 2 ^ a.val := by decide
  have mask := power ⟨k, inByte⟩
  have zero : byte &&& (1 <<< UInt8.ofNat k) = 0 ↔ byte.toNat.testBit k = false := by
    rw [← UInt8.toNat_inj, UInt8.toNat_and, mask, Nat.and_two_pow]
    cases byte.toNat.testBit k <;> simp
  rw [ne_eq, zero, Bool.not_eq_false]

theorem testBit_not (byte : UInt8) {j : Nat} (inByte : j < 8) :
    (~~~byte).toNat.testBit j = !byte.toNat.testBit j := by
  change (~~~byte.toBitVec).getLsbD j = !byte.toBitVec.getLsbD j
  rw [BitVec.getLsbD_not, decide_eq_true inByte, Bool.true_and]

theorem testBit_putByte (byte : UInt8) {k j : Nat} (inByte : k < 8) (inByte' : j < 8)
    (b : Bool) :
    (putByte byte k b).toNat.testBit j = if k = j then b else byte.toNat.testBit j := by
  unfold putByte
  cases b with
  | false =>
      rw [if_neg Bool.false_ne_true, UInt8.toNat_and, Nat.testBit_and, testBit_not _ inByte',
        testBit_shift inByte inByte']
      by_cases same : k = j <;> simp [same]
  | true =>
      rw [if_pos rfl, UInt8.toNat_or, Nat.testBit_or, testBit_shift inByte inByte']
      by_cases same : k = j <;> simp [same]

theorem bit_put {m : List UInt8} {i : Nat} (inside : i / 8 < m.length) (b : Bool) (j : Nat) :
    bit (put m i b) j = if i = j then b else bit m j := by
  unfold bit put
  rw [List.getElem?_modify]
  by_cases sameByte : i / 8 = j / 8
  · have same : i % 8 = j % 8 ↔ i = j := by omega
    simp only [← sameByte, List.getElem?_eq_getElem inside, if_true, Option.map_eq_map,
      Option.map_some, Option.getD_some]
    rw [testBit_putByte _ (Nat.mod_lt _ (by omega)) (Nat.mod_lt _ (by omega))]
    simp only [same]
  · have apart : i ≠ j := fun same => sameByte (by rw [same])
    simp only [if_neg sameByte, if_neg apart, Option.map_eq_map, Option.map_id']

theorem bit_put_ne {m : List UInt8} {i j : Nat} (inside : i / 8 < m.length) (b : Bool)
    (apart : i ≠ j) : bit (put m i b) j = bit m j := by rw [bit_put inside, if_neg apart]

/-- Cleared bytes added at the end do not show. -/
theorem bit_append_zeros (m : List UInt8) (k i : Nat) :
    bit (m ++ List.replicate k 0) i = bit m i := by
  unfold bit
  by_cases inside : i / 8 < m.length
  · rw [List.getElem?_append_left inside]
  · rw [List.getElem?_append_right (by omega), List.getElem?_replicate,
      List.getElem?_eq_none (Nat.le_of_not_lt inside)]
    split <;> rfl

theorem bit_replicate_zero (k i : Nat) : bit (List.replicate k 0) i = false := by
  have none := bit_append_zeros [] k i
  rw [List.nil_append] at none
  rw [none]
  simp [bit]

end BitMemory
