import Pointless.Create
import Pointless.Lib.BitMemory

/-!
# The encodings of a created bitvector

`pointless_create_bitvector_` looks for a compressed encoding of the bits it is given.
Whichever it picks, `pointless_bitvector.c` reads the same bits back from it.
-/

namespace Pointless

open ByteMemory ExceptRules

/-- A bitvector of a type, data and buffer that reads as `bits`. -/
structure ShowsBits (t : ValueType) (data : UInt32) (buffer : Ptr) (bits : List Bool) : Prop where
  nBits : bitvectorNBits t data buffer = .ok (UInt32.ofNat bits.length)
  isSet : ∀ (i : Nat) (less : i < bits.length), bitvectorIsSet t data buffer i = .ok bits[i]

/-- The first `n` bits of a memory. -/
def bitsOf (v : List UInt8) (n : Nat) : List Bool := (List.range n).map (BitMemory.bit v)

@[simp] theorem length_bitsOf (v : List UInt8) (n : Nat) : (bitsOf v n).length = n := by
  rw [bitsOf, List.length_map, List.length_range]

@[simp] theorem getElem_bitsOf (v : List UInt8) (n i : Nat) (less : i < (bitsOf v n).length) :
    (bitsOf v n)[i] = BitMemory.bit v i := by
  simp [bitsOf]

/-! ## Reading a bit -/

theorem bmIsSet_eq {v : List UInt8} {i : Nat} (inside : i / 8 < v.length) :
    bmIsSet (some v) i = .ok (BitMemory.bit v i) := by
  rw [bmIsSet, loadU8, loadWord, load_one, List.getElem?_eq_getElem inside]
  simp [BitMemory.bit, List.getElem?_eq_getElem inside]

theorem div_lt_iceil {n i : Nat} (less : i < n) : i / 8 < iceil n 8 := by
  rw [iceil]
  split
  · omega
  · omega

theorem inside_of_iceil {v : List UInt8} {n i : Nat} (room : iceil n 8 ≤ v.length) (less : i < n) :
    i / 8 < v.length := Nat.lt_of_lt_of_le (div_lt_iceil less) room

theorem bit_encode (w n j : Nat) (less : j < 8 * w) :
    BitMemory.bit (encode w n) j = n.testBit j := by
  induction w generalizing n j with
  | zero => omega
  | succ w ih =>
      rcases Nat.lt_or_ge j 8 with low | high
      · rw [BitMemory.bit, Nat.div_eq_of_lt low, Nat.mod_eq_of_lt low, encode]
        simp only [List.getElem?_cons_zero, Option.getD_some, UInt8.toNat_ofNat']
        exact (Nat.testBit_mod_two_pow n 8 j).trans (by simp [low])
      · have next := ih (n / 256) (j - 8) (by omega)
        obtain ⟨k, rfl⟩ := Nat.exists_eq_add_of_le high
        rw [Nat.add_sub_cancel_left, show 256 = 2 ^ 8 from rfl, Nat.testBit_div_two_pow] at next
        rw [Nat.add_comm 8 k, ← next, BitMemory.bit, BitMemory.bit, encode,
          Nat.add_div_right k (Nat.succ_pos 7), Nat.add_mod_right, List.getElem?_cons_succ]
        rfl

/-! ## The loops -/

variable {v : List UInt8} {n : Nat}

theorem bitvectorIsAll_eq (b : Bool) (room : iceil n 8 ≤ v.length) :
    bitvectorIsAll b v n = .ok (decide (∀ i < n, BitMemory.bit v i = b)) := by
  have loop : Post (fun all => all = decide (∀ i < n, BitMemory.bit v i = b))
      (fun _ => False) (bitvectorIsAll b v n) := by
    refine @Post.foldlM_range _ _ (fun k all => all = decide (∀ i < k, BitMemory.bit v i = b))
      _ _ _ _ (by simp) fun i less all held => ?_
    rw [bmIsSet_eq (inside_of_iceil room less), map_ok, held]
    split
    · rename_i before
      simp only [post_ok, Nat.forall_lt_succ_right]
      rw [Bool.decide_and, before, Bool.true_and]
      rfl
    · rename_i before
      simp only [pure_eq_ok, post_ok, Nat.forall_lt_succ_right]
      rw [Bool.decide_and, eq_false_of_ne_true before, Bool.false_and]
  cases result : bitvectorIsAll b v n with
  | error e => exact (loop.of_error result).elim
  | ok all => rw [loop.of_ok result]

/-- Bits that are not `last` up to `nFirst`, and then bits that are. -/
def StepAt (last : Bool) (v : List UInt8) (nFirst n : Nat) : Prop :=
  ∀ i < n, BitMemory.bit v i = if i < nFirst then !last else last

theorem bitvectorIsStep_post (last : Bool) (room : iceil n 8 ≤ v.length) :
    Post (fun counts => ∀ nFirst nLast, counts = some (nFirst, nLast) →
        nFirst + nLast = n ∧ StepAt last v nFirst n)
      (fun _ => False) (bitvectorIsStep last v n) := by
  refine @Post.foldlM_range _ _ (fun k counts => ∀ nFirst nLast,
      counts = some (nFirst, nLast) → nFirst + nLast = k ∧ StepAt last v nFirst k)
    _ _ _ _ ?_ fun i less counts held => ?_
  · intro nFirst nLast start
    cases start
    exact ⟨rfl, fun i less => absurd less (Nat.not_lt_zero i)⟩
  rw [bmIsSet_eq (inside_of_iceil room less)]
  cases counts with
  | none => exact fun nFirst nLast none => nomatch none
  | some counts =>
      obtain ⟨a, b⟩ := counts
      obtain ⟨total, steps⟩ := held a b rfl
      simp only [ok_bind]
      split
      · rename_i isLast
        intro nFirst nLast same
        cases same
        refine ⟨by omega, fun j below => ?_⟩
        rcases Nat.lt_succ_iff_lt_or_eq.mp below with before | rfl
        · exact steps j before
        · rw [isLast, if_neg (by omega)]
      · rename_i notLast
        split
        · exact fun nFirst nLast none => nomatch none
        · intro nFirst nLast same
          cases same
          refine ⟨by omega, fun j below => ?_⟩
          rcases Nat.lt_succ_iff_lt_or_eq.mp below with before | rfl
          · rw [steps j before, if_pos (by omega), if_pos (by omega)]
          · rw [if_pos (by omega)]
            exact Bool.eq_not_of_ne notLast

/-- The data word after `k` bits have been packed. -/
def Packed (v : List UInt8) (n k : Nat) (data : UInt32) : Prop :=
  ∀ j < 32, data.toNat.testBit j
    = if j < 5 then n.testBit j else decide (j - 5 < k) && BitMemory.bit v (j - 5)

theorem testBit_shift_word {k j : Nat} (inWord : k < 32) :
    ((1 : UInt32) <<< UInt32.ofNat k).toNat.testBit j = decide (k = j) := by
  have power : ((1 : UInt32) <<< UInt32.ofNat k).toNat = 2 ^ k := by
    have shift : (UInt32.ofNat k).toNat = k := Nat.mod_eq_of_lt (by omega)
    have small : 2 ^ k < 2 ^ 32 := Nat.pow_lt_pow_right (by omega) inWord
    rw [UInt32.toNat_shiftLeft, shift, Nat.mod_eq_of_lt inWord, Nat.shiftLeft_eq,
      UInt32.toNat_one, Nat.one_mul, Nat.mod_eq_of_lt small]
  rw [power, Nat.testBit_two_pow]

theorem packBits_post (room : iceil n 8 ≤ v.length) (few : n ≤ 27) :
    Post (Packed v n n) (fun _ => False) (packBits v n) := by
  refine @Post.foldlM_range _ _ (Packed v n) _ _ _ _ ?_ fun i less data held => ?_
  · intro j below
    have count : (UInt32.ofNat n).toNat = n := Nat.mod_eq_of_lt (by omega)
    rw [count]
    split
    · rfl
    · have high : n < 2 ^ j :=
        Nat.lt_of_lt_of_le (by omega : n < 2 ^ 5) (Nat.pow_le_pow_right (by omega) (by omega))
      rw [Nat.testBit_lt_two_pow high]
      simp
  · rw [bmIsSet_eq (inside_of_iceil room less)]
    simp only [ok_bind, pure_eq_ok, post_ok]
    intro j below
    have before := held j below
    have others (apart : i + 5 ≠ j) (high : ¬j < 5) :
        decide (j - 5 < i + 1) = decide (j - 5 < i) := by
      rw [decide_eq_decide]
      omega
    split
    · rename_i isSet
      rw [UInt32.toNat_or, Nat.testBit_or, testBit_shift_word (by omega), before]
      by_cases here : i + 5 = j
      · subst here
        simp [isSet]
      · rw [decide_eq_false here, Bool.or_false]
        split
        · rfl
        · rename_i high
          rw [others here high]
    · rename_i clear
      rw [before]
      split
      · rfl
      · rename_i high
        by_cases here : i + 5 = j
        · subst here
          simp [eq_false_of_ne_true clear]
        · rw [others here high]

/-! ## What is read back -/

theorem showsBits_all {b : Bool} (all : ∀ i < n, BitMemory.bit v i = b) :
    ShowsBits (if b then .bitvector1 else .bitvector0) (UInt32.ofNat n) none (bitsOf v n) := by
  cases b
  · refine ⟨by rw [length_bitsOf]; rfl, fun i less => ?_⟩
    rw [getElem_bitsOf, all i (by simpa using less)]
    rfl
  · refine ⟨by rw [length_bitsOf]; rfl, fun i less => ?_⟩
    rw [getElem_bitsOf, all i (by simpa using less)]
    rfl

theorem showsBits_packed {data : UInt32} (packed : Packed v n n data) (few : n ≤ 27) :
    ShowsBits .bitvectorPacked data none (bitsOf v n) := by
  constructor
  · have low : data.toNat % 2 ^ 5 = n := by
      refine Nat.eq_of_testBit_eq fun j => ?_
      rw [Nat.testBit_mod_two_pow]
      rcases Nat.lt_or_ge j 5 with below | above
      · rw [packed j (by omega), if_pos below, decide_eq_true below, Bool.true_and]
      · have high : n < 2 ^ j :=
          Nat.lt_of_lt_of_le (by omega : n < 2 ^ 5) (Nat.pow_le_pow_right (by omega) above)
        rw [decide_eq_false (by omega), Nat.testBit_lt_two_pow high]
        rfl
    rw [length_bitsOf]
    exact congrArg (fun k => Except.ok (UInt32.ofNat k)) low
  · intro i less
    rw [length_bitsOf] at less
    have word : i + 5 < 8 * 4 := by omega
    have length : (bytesU32 data).length = 4 := length_encode 4 _
    have read : bmIsSet (some (bytesU32 data)) (i + 5) = .ok (BitMemory.bit (bytesU32 data) (i + 5)) :=
      bmIsSet_eq (by omega)
    rw [getElem_bitsOf]
    refine read.trans (congrArg Except.ok ?_)
    rw [bytesU32, bit_encode 4 _ _ word, packed _ (by omega), if_neg (by omega),
      Nat.add_sub_cancel, decide_eq_true less, Bool.true_and]

theorem showsBits_step (last : Bool) {nFirst nLast : Nat} {data : UInt32}
    (total : nFirst + nLast = n) (steps : StepAt last v nFirst n)
    (packed : packCounts (some (nFirst, nLast)) = some data) :
    ShowsBits (if last then .bitvector01 else .bitvector10) data none (bitsOf v n) := by
  rw [packCounts] at packed
  split at packed
  · rename_i small
    have word : data.toNat = nFirst + 65536 * nLast := by
      rw [← Option.some.inj packed]
      exact Nat.mod_eq_of_lt (by omega)
    have first : nBitsA data = nFirst := by rw [nBitsA, word]; omega
    have rest : nBitsB data = nLast := by rw [nBitsB, word]; omega
    have count : bitvectorNBits .bitvector01 data none = .ok (UInt32.ofNat n) := by
      rw [← total, ← first, ← rest]
      rfl
    cases last
    · refine ⟨by rw [length_bitsOf]; exact count, fun i less => ?_⟩
      rw [getElem_bitsOf, steps i (by simpa using less)]
      refine congrArg Except.ok ?_
      rw [first]
      split <;> simp_all
    · refine ⟨by rw [length_bitsOf]; exact count, fun i less => ?_⟩
      rw [getElem_bitsOf, steps i (by simpa using less)]
      refine congrArg Except.ok ?_
      rw [first]
      split <;> simp_all
  · cases packed

/-- The buffer of a bitvector on the heap. -/
theorem showsBits_heap {nBits data : UInt32} {bits : List UInt8}
    (copied : slice v 0 (iceil nBits.toNat 8) = some bits) :
    ShowsBits .bitvector data (some (bytesU32 nBits ++ bits)) (bitsOf v nBits.toNat) := by
  have room : 0 + iceil nBits.toNat 8 ≤ v.length := by
    by_contra outside
    rw [slice_eq_none (Nat.not_le.mp outside)] at copied
    cases copied
  rw [slice_eq_some room, List.drop_zero] at copied
  cases copied
  rw [Nat.zero_add] at room
  constructor
  · rw [length_bitsOf, UInt32.ofNat_toNat]
    change loadU32 _ 0 = _
    have loaded := load_zero (bytesU32 nBits) (v.take (iceil nBits.toNat 8))
    have length : (bytesU32 nBits).length = 4 := length_encode 4 _
    rw [length, bytesU32, decode_encode_of_lt nBits.toNat_lt] at loaded
    rw [loadU32, loadWord, bytesU32, loaded]
    exact congrArg Except.ok (UInt32.ofNat_toNat)
  · intro i less
    have inside : i / 8 < (v.take (iceil nBits.toNat 8)).length := by
      rw [length_bitsOf] at less
      rw [List.length_take, Nat.min_eq_left room]
      exact div_lt_iceil less
    have read := bmIsSet_eq inside
    rw [getElem_bitsOf]
    refine read.trans (congrArg Except.ok ?_)
    rw [BitMemory.bit, BitMemory.bit, List.getElem?_take_of_lt]
    rw [List.length_take] at inside
    exact Nat.lt_of_lt_of_le inside (Nat.min_le_left _ _)

/-- The types of the bitvectors that are kept inline. -/
def IsInlineBits (t : ValueType) : Prop :=
  t = .bitvector0 ∨ t = .bitvector1 ∨ t = .bitvectorPacked ∨ t = .bitvector01 ∨ t = .bitvector10

theorem compressBitvector_post {nBits : UInt32} (room : iceil nBits.toNat 8 ≤ v.length) :
    Post (fun compressed => ∀ t data, compressed = some (t, data) →
        IsInlineBits t ∧ ShowsBits t data none (bitsOf v nBits.toNat))
      (fun _ => False) (compressBitvector v nBits) := by
  rw [compressBitvector, bitvectorIsAll_eq false room, bitvectorIsAll_eq true room]
  simp only [ok_bind, decide_eq_true_eq]
  split
  · rename_i all
    intro t data same
    cases same
    have shows := showsBits_all all
    rw [UInt32.ofNat_toNat] at shows
    exact ⟨Or.inl rfl, shows⟩
  split
  · rename_i all
    intro t data same
    cases same
    have shows := showsBits_all all
    rw [UInt32.ofNat_toNat] at shows
    exact ⟨Or.inr (Or.inl rfl), shows⟩
  split
  · rename_i few
    refine (packBits_post room few).bind fun data _ packed => ?_
    intro t data' same
    cases same
    exact ⟨Or.inr (Or.inr (Or.inl rfl)), showsBits_packed packed few⟩
  · refine (bitvectorIsStep_post true room).bind fun counts _ held => ?_
    split
    · intro t data same
      obtain ⟨word, packed, eq⟩ := Option.map_eq_some_iff.mp same
      cases eq
      cases counts with
      | none => cases packed
      | some counts =>
          obtain ⟨total, steps⟩ := held counts.1 counts.2 rfl
          exact ⟨by simp [IsInlineBits], showsBits_step true total steps packed⟩
    · refine (bitvectorIsStep_post false room).bind fun counts _ held => ?_
      intro t data same
      obtain ⟨word, packed, eq⟩ := Option.map_eq_some_iff.mp same
      cases eq
      cases counts with
      | none => cases packed
      | some counts =>
          obtain ⟨total, steps⟩ := held counts.1 counts.2 rfl
          exact ⟨by simp [IsInlineBits], showsBits_step false total steps packed⟩

end Pointless
