import Pointless.PyBitvector
import Pointless.Lib.BitMemory

/-!
# The Python bitvector as a list of booleans

Every operation of `PyPointlessBitvector` does to the bits what the same operation
does to a list, or raises and leaves the vector as it was, and touches only bits of
the memory it allocated. The exception is `append_bulk` of a vector to itself: its
loop runs to the length it has already doubled, and so sets a bit past the new end
for each bit that was set. `bitvector_refines_list` says when that stays inside the
allocation.
-/

namespace Pointless

open ExceptRules BitMemory

/-! ## The list -/

/-- The bit a Python object stands for. -/
def PyItem.bit : PyItem → Option Bool
  | .bool b => some b
  | .int 0 => some false
  | .int 1 => some true
  | _ => none

/-- The position a Python index stands for in a list of length `n`. -/
def listIndex (n : Nat) (item : Int) : Option Nat :=
  if 0 ≤ item ∧ item < n then some item.toNat
  else if -n ≤ item ∧ item < 0 then some (item + n).toNat
  else none

/-- The list with `more` behind it, as long as its length has 32 bits. -/
def listExtend (bits more : List Bool) : Option (PyOutcome × List Bool) :=
  if bits.length + more.length < 2 ^ 32 then some (.none, bits ++ more) else none

/-- The operation on a list; `none` where it fails. -/
def BitvectorOp.onList (bits : List Bool) : BitvectorOp → Option (PyOutcome × List Bool)
  | .append v => listExtend bits [v]
  | .extendTrue n =>
      if n < 0 then none else listExtend bits (List.replicate n.toInt.toNat true)
  | .extendFalse n =>
      if n < 0 then none else listExtend bits (List.replicate n.toInt.toNat false)
  | .appendBulk .self => listExtend bits bits
  | .appendBulk (.other nItems isSet) => listExtend bits ((List.range nItems.toNat).map isSet)
  | .pop => bits.getLast?.map fun b => (.bool b, bits.dropLast)
  | .assSubscript item value => do
      let i ← listIndex bits.length item
      let b ← value.bit
      pure (.none, bits.set i b)
  | .subscript item => do
      let i ← listIndex bits.length item
      let b ← bits[i]?
      pure (.bool b, bits)

/-! ## Refinement -/

/-- The vector's memory is as long as its field says and its bits are those of the
list. -/
structure PyPointlessBitvector.Shows (vector : PyPointlessBitvector) (bits : List Bool) :
    Prop where
  memory : vector.primitiveBits.length = vector.primitiveNBytesAlloc.toNat
  length : vector.primitiveNBits.toNat = bits.length
  items : ∀ i (less : i < bits.length), pyBmIsSet vector.primitiveBits i = .ok bits[i]

/-- What a step may do to a vector that shows `bits`: what the operation does to the
list, or nothing, with an exception, where the list operation fails or the memory is
refused. -/
inductive BitvectorStep.Matches (step : BitvectorStep) (self : PyPointlessBitvector)
    (bits : List Bool) : PyOutcome → PyPointlessBitvector → List Bool → Prop
  | does {outcome self' bits'} (same : step.op.onList bits = some (outcome, bits')) :
      step.Matches self bits outcome self' bits'
  | fails {exception message} (fails : step.op.onList bits = none) :
      step.Matches self bits (.raised exception message) self bits
  | refused (refused : step.realloc = false) :
      step.Matches self bits (.raised "MemoryError" "") self bits

/-- Along the whole run the vector shows the list, each operation returns (hence
touches no bit outside the memory), and it does what it does to the list. -/
def RefinesList : PyPointlessBitvector → List Bool → List BitvectorStep → Prop
  | self, bits, [] => self.Shows bits
  | self, bits, step :: rest =>
      self.Shows bits ∧ ∃ outcome self' bits', step.run self = .ok (outcome, self') ∧
        step.Matches self bits outcome self' bits' ∧ RefinesList self' bits' rest

/-- The vectors that `PyPointlessBitvector_init` builds, each with its list. -/
inductive PyPointlessBitvector.Built : PyPointlessBitvector → List Bool → Prop
  | size {calloc size self} (made : pyBitvectorInitSize calloc size = (.none, self)) :
      Built self (List.replicate size.toNat false)
  | sequence {realloc items self bits}
      (made : pyBitvectorInitSequence realloc items = .ok (.none, self))
      (same : items.mapM PyItem.bit = some bits) : Built self bits

/-- The size that `extend_by` allocates for `n` more bits. -/
def PyPointlessBitvector.allocFor (self : PyPointlessBitvector) (n : UInt32) : UInt32 :=
  nextBytesFor self.primitiveNBytesAlloc (self.primitiveNBits + n)

/-- Appending the vector to itself, with `n` bits before: where the extension comes
about, the loop's second half sets bit `2 * n + h` for each bit `h` that was set, and
all these are inside the grown memory. -/
def SelfAppendFits (realloc : Bool) (self : PyPointlessBitvector) : Prop :=
  let n := self.primitiveNBits.toNat
  let alloc := self.allocFor self.primitiveNBits
  n + n < 2 ^ 32 → (alloc = self.primitiveNBytesAlloc ∨ realloc = true) →
    ∀ h < n, pyBmIsSet self.primitiveBits h = .ok true → 2 * n + h < 8 * alloc.toNat

/-- The step is not a self-append that runs past the memory. -/
def BitvectorStep.Fits (step : BitvectorStep) (self : PyPointlessBitvector) : Prop :=
  match step.op with
  | .appendBulk .self => SelfAppendFits step.realloc self
  | _ => True

/-- No step of the run is a self-append that runs past the memory. -/
def RunFits : PyPointlessBitvector → List BitvectorStep → Prop
  | _, [] => True
  | self, step :: rest => step.Fits self ∧
      ∀ outcome self', step.run self = .ok (outcome, self') → RunFits self' rest

/-! ## Bits in memory -/

theorem pyBmIsSet_eq {bits : List UInt8} {i : Nat} (inside : i / 8 < bits.length) :
    pyBmIsSet bits i = .ok (bit bits i) := by
  rw [pyBmIsSet, List.getElem?_eq_getElem inside]
  simp only [bit, List.getElem?_eq_getElem inside, Option.getD_some,
    and_shift_ne_zero _ (Nat.mod_lt i (Nat.succ_pos 7)), Bool.decide_eq_true]

theorem pyBmIsSet_ok {bits : List UInt8} {i : Nat} {b : Bool}
    (read : pyBmIsSet bits i = .ok b) : i / 8 < bits.length ∧ bit bits i = b := by
  by_cases inside : i / 8 < bits.length
  · rw [pyBmIsSet_eq inside] at read
    exact ⟨inside, Except.ok.inj read⟩
  · rw [pyBmIsSet, List.getElem?_eq_none (Nat.le_of_not_lt inside)] at read
    cases read

theorem bmSet_eq {bits : List UInt8} {i : Nat} (inside : i / 8 < bits.length) :
    bmSet bits i = .ok (put bits i true) := by
  rw [bmSet, List.getElem?_eq_getElem inside, put, List.modify_eq_set_getElem?,
    List.getElem?_eq_getElem inside]
  rfl

theorem bmReset_eq {bits : List UInt8} {i : Nat} (inside : i / 8 < bits.length) :
    bmReset bits i = .ok (put bits i false) := by
  rw [bmReset, List.getElem?_eq_getElem inside, put, List.modify_eq_set_getElem?,
    List.getElem?_eq_getElem inside]
  rfl

/-- The bits `start` to `start + n - 1` set to `b`, as the loop of `extend_by` sets
them. -/
theorem extendLoop_eq {bits : List UInt8} {start n : UInt32} (b : Bool)
    (fits : start.toNat + n.toNat < 2 ^ 32)
    (inside : start.toNat + n.toNat ≤ 8 * bits.length) :
    ∃ bits', (List.range n.toNat).foldlM (fun bits i =>
        if b then bmSet bits (start + UInt32.ofNat i).toNat
        else bmReset bits (start + UInt32.ofNat i).toNat) bits = .ok bits' ∧
      bits'.length = bits.length ∧
      ∀ j, bit bits' j = if start.toNat ≤ j ∧ j < start.toNat + n.toNat then b else bit bits j := by
  generalize n.toNat = k at fits inside ⊢
  induction k with
  | zero =>
      refine ⟨bits, rfl, rfl, fun j => ?_⟩
      rw [if_neg (by omega)]
  | succ k ih =>
      obtain ⟨before, loop, size, read⟩ := ih (by omega) (by omega)
      have index : (start + UInt32.ofNat k).toNat = start.toNat + k := by
        rw [UInt32.toNat_add, UInt32.toNat_ofNat']
        omega
      have here : (start.toNat + k) / 8 < before.length := by omega
      refine ⟨put before (start.toNat + k) b, ?_, by rw [length_put, size], fun j => ?_⟩
      · rw [foldlM_range_succ, loop, ok_bind, index]
        cases b with
        | false => rw [if_neg Bool.false_ne_true, bmReset_eq here]
        | true => rw [if_pos rfl, bmSet_eq here]
      · rw [bit_put here, read j]
        by_cases same : start.toNat + k = j
        · rw [if_pos same, if_pos (by omega)]
        · have split : start.toNat ≤ j ∧ j < start.toNat + k ↔
              start.toNat ≤ j ∧ j < start.toNat + (k + 1) := by omega
          rw [if_neg same]
          simp only [split]

theorem shows_iff {self : PyPointlessBitvector} {bits : List Bool} :
    self.Shows bits ↔ self.primitiveBits.length = self.primitiveNBytesAlloc.toNat ∧
      self.primitiveNBits.toNat = bits.length ∧ bits.length ≤ 8 * self.primitiveBits.length ∧
      ∀ i (less : i < bits.length), bit self.primitiveBits i = bits[i] := by
  constructor
  · intro shows
    refine ⟨shows.memory, shows.length, ?_, fun i less => (pyBmIsSet_ok (shows.items i less)).2⟩
    rcases Nat.eq_zero_or_pos bits.length with empty | positive
    · omega
    · have last := (pyBmIsSet_ok (shows.items (bits.length - 1) (by omega))).1
      omega
  · rintro ⟨memory, length, inside, items⟩
    refine ⟨memory, length, fun i less => ?_⟩
    rw [pyBmIsSet_eq (by omega), items i less]

/-! ## Growth -/

theorem iceil_le {n k : Nat} : iceil n 8 ≤ k ↔ n ≤ 8 * k := by
  unfold iceil
  split <;> omega

theorem nextSize_gt {nAlloc : UInt32} (small : nAlloc.toNat < 2 ^ 29) :
    nAlloc.toNat < (nextSize nAlloc).toNat := by
  have adds : ∀ n < 16, 1 ≤ [1, 1, 2, 2, 4, 4, 4, 8, 8, 10, 11, 12, 13, 14, 15, 16].getD n 0 ∧
      [1, 1, 2, 2, 4, 4, 4, 8, 8, 10, 11, 12, 13, 14, 15, 16].getD n 0 ≤ 16 := by decide
  rw [nextSize, UInt32.toNat_ofNat']
  by_cases few : nAlloc.toNat < 16
  · have add := adds _ few
    rw [if_pos few]
    omega
  · rw [if_neg few, Nat.mod_eq_of_lt (by omega)]
    omega

/-- The loop reaches the size it looks for: each round gains a byte, and the branch
for an overflow is not taken. -/
theorem nextBytesLoop_ge {alloc : UInt32} {need : Nat} (bounded : need ≤ 2 ^ 29) (fuel : Nat)
    (nextBytes : UInt32) (started : alloc ≤ nextBytes)
    (enough : need ≤ nextBytes.toNat + fuel) :
    need ≤ (nextBytesLoop alloc need fuel nextBytes).toNat ∧
      nextBytes ≤ nextBytesLoop alloc need fuel nextBytes := by
  induction fuel generalizing nextBytes with
  | zero => exact ⟨enough, UInt32.le_refl _⟩
  | succ fuel ih =>
      rw [nextBytesLoop]
      split
      case isTrue short =>
        have grows := nextSize_gt (show nextBytes.toNat < 2 ^ 29 by omega)
        have started' := UInt32.le_iff_toNat_le.mp started
        have noOverflow : ¬nextSize nextBytes < alloc := by
          rw [UInt32.lt_iff_toNat_lt]
          omega
        dsimp only
        rw [if_neg noOverflow]
        obtain ⟨reached, above⟩ := ih (nextSize nextBytes) (UInt32.le_iff_toNat_le.mpr (by omega))
          (by omega)
        refine ⟨reached, UInt32.le_iff_toNat_le.mpr ?_⟩
        have above' := UInt32.le_iff_toNat_le.mp above
        omega
      case isFalse reached => exact ⟨by omega, UInt32.le_refl _⟩

theorem nextBytesFor_ge (alloc nBits : UInt32) :
    nBits.toNat ≤ 8 * (nextBytesFor alloc nBits).toNat ∧ alloc ≤ nextBytesFor alloc nBits := by
  have bound := nBits.toNat_lt
  have need : iceil nBits.toNat 8 ≤ 2 ^ 29 := iceil_le.mpr (by omega)
  obtain ⟨reached, above⟩ := nextBytesLoop_ge need (iceil nBits.toNat 8) alloc
    (UInt32.le_refl alloc) (by omega)
  exact ⟨iceil_le.mp reached, above⟩

/-! ## Extension -/

section Extension

variable {self : PyPointlessBitvector} {bits : List Bool} (shows : self.Shows bits)
  (realloc : Bool) (n : UInt32) (b : Bool)

include shows

theorem extendBy_wraps :
    (self.primitiveNBits + n < self.primitiveNBits ∨ self.primitiveNBits + n < n) ↔
      2 ^ 32 ≤ bits.length + n.toNat := by
  have nBound := n.toNat_lt
  have selfBound := self.primitiveNBits.toNat_lt
  rw [UInt32.lt_iff_toNat_lt, UInt32.lt_iff_toNat_lt, UInt32.toNat_add, ← shows.length]
  omega

theorem extendBy_tooLong (tooLong : 2 ^ 32 ≤ bits.length + n.toNat) :
    pyBitvectorExtendBy realloc self n b =
      .ok (.raised "ValueError" "BitVector would grow beyond 2**32-1 items", self) := by
  rw [pyBitvectorExtendBy, if_pos ((extendBy_wraps shows n).mpr tooLong)]
  rfl

theorem extendBy_refused (fits : bits.length + n.toNat < 2 ^ 32) (noMemory : realloc = false)
    (grows : self.allocFor n ≠ self.primitiveNBytesAlloc) :
    pyBitvectorExtendBy realloc self n b = .ok (.raised "MemoryError" "", self) := by
  have keep := mt (extendBy_wraps shows n).mp (Nat.not_le.mpr fits)
  rw [pyBitvectorExtendBy, if_neg keep, noMemory]
  exact if_pos ⟨grows, rfl⟩

/-- Where the length fits and the memory is there, the vector shows the longer list. -/
theorem extendBy_done (fits : bits.length + n.toNat < 2 ^ 32)
    (served : self.allocFor n = self.primitiveNBytesAlloc ∨ realloc = true) :
    ∃ self', pyBitvectorExtendBy realloc self n b = .ok (.none, self') ∧
      self'.Shows (bits ++ List.replicate n.toNat b) ∧
      self'.primitiveNBits = self.primitiveNBits + n ∧
      self'.primitiveNBytesAlloc = self.allocFor n := by
  obtain ⟨memory, length, inside, items⟩ := shows_iff.mp shows
  have keep := mt (extendBy_wraps shows n).mp (Nat.not_le.mpr fits)
  have given : ¬(self.allocFor n ≠ self.primitiveNBytesAlloc ∧ (!realloc) = true) := by
    rintro ⟨grows, refused⟩
    rcases served with same | served
    · exact grows same
    · rw [served] at refused
      exact Bool.false_ne_true refused
  have sum : (self.primitiveNBits + n).toNat = bits.length + n.toNat := by
    rw [UInt32.toNat_add, length, Nat.mod_eq_of_lt fits]
  obtain ⟨enough, grows⟩ := nextBytesFor_ge self.primitiveNBytesAlloc (self.primitiveNBits + n)
  have grows' := UInt32.le_iff_toNat_le.mp grows
  change _ ≤ 8 * (self.allocFor n).toNat at enough
  change _ ≤ (self.allocFor n).toNat at grows'
  let gained := self.primitiveBits ++
    List.replicate ((self.allocFor n).toNat - self.primitiveNBytesAlloc.toNat) 0
  have size : gained.length = (self.allocFor n).toNat := by
    rw [List.length_append, List.length_replicate]
    omega
  obtain ⟨bits', loop, size', read⟩ := extendLoop_eq b (by rw [length]; exact fits)
    (show self.primitiveNBits.toNat + n.toNat ≤ 8 * gained.length by omega)
  refine ⟨⟨self.primitiveNBits + n, bits', self.allocFor n,
    if b then self.primitiveNOne + n.toUInt64 else self.primitiveNOne⟩, ?_, ?_, rfl, rfl⟩
  · rw [pyBitvectorExtendBy, if_neg keep]
    change (if self.allocFor n ≠ self.primitiveNBytesAlloc ∧ (!realloc) = true then _ else _) = _
    rw [if_neg given]
    exact bind_eq_ok.mpr ⟨bits', loop, rfl⟩
  · refine shows_iff.mpr ⟨by rw [size', size], ?_, ?_, fun i less => ?_⟩
    · rw [sum, List.length_append, List.length_replicate]
    · rw [List.length_append, List.length_replicate, size', size]
      omega
    · rw [List.length_append, List.length_replicate] at less
      rw [read i, bit_append_zeros]
      by_cases old : i < bits.length
      · rw [if_neg (by omega), items i old, List.getElem_append_left old]
      · rw [if_pos (by omega), List.getElem_append_right (by omega), List.getElem_replicate]

end Extension

/-- An extension that does not come about raises and leaves the vector as it was. -/
theorem extendBy_stops {step : BitvectorStep} {self : PyPointlessBitvector}
    {bits more : List Bool} (shows : self.Shows bits) (n : UInt32) (b : Bool)
    (size : more.length = n.toNat) (onList : step.op.onList bits = listExtend bits more)
    (stops : ¬(bits.length + n.toNat < 2 ^ 32 ∧
      (self.allocFor n = self.primitiveNBytesAlloc ∨ step.realloc = true))) :
    ∃ exception message,
      pyBitvectorExtendBy step.realloc self n b = .ok (.raised exception message, self) ∧
      step.Matches self bits (.raised exception message) self bits := by
  rw [listExtend, size] at onList
  by_cases fits : bits.length + n.toNat < 2 ^ 32
  · obtain ⟨grows, refused⟩ := not_or.mp fun served => stops ⟨fits, served⟩
    have noMemory := Bool.eq_false_iff.mpr refused
    exact ⟨_, _, extendBy_refused shows step.realloc n b fits noMemory grows,
      .refused noMemory⟩
  · rw [if_neg fits] at onList
    exact ⟨_, _, extendBy_tooLong shows step.realloc n b (Nat.le_of_not_lt fits),
      .fails onList⟩

/-- What an extension does to the vector and to the list. -/
theorem extendBy_matches {step : BitvectorStep} {self : PyPointlessBitvector}
    {bits : List Bool} (shows : self.Shows bits) (n : UInt32) (b : Bool)
    (onList : step.op.onList bits = listExtend bits (List.replicate n.toNat b)) :
    ∃ outcome self' bits', pyBitvectorExtendBy step.realloc self n b = .ok (outcome, self') ∧
      step.Matches self bits outcome self' bits' ∧ self'.Shows bits' := by
  by_cases goes : bits.length + n.toNat < 2 ^ 32 ∧
      (self.allocFor n = self.primitiveNBytesAlloc ∨ step.realloc = true)
  · obtain ⟨fits, served⟩ := goes
    obtain ⟨self', done, shows', -, -⟩ := extendBy_done shows step.realloc n b fits served
    rw [listExtend, List.length_replicate, if_pos fits] at onList
    exact ⟨_, self', _, done, .does onList, shows'⟩
  · obtain ⟨exception, message, raised, agrees⟩ :=
      extendBy_stops shows n b (List.length_replicate ..) onList goes
    exact ⟨_, self, bits, raised, agrees, shows⟩

/-! ## Appending in bulk -/

/-- The loop over another vector copies its bits behind the first `nBefore`. -/
theorem bulkLoop_other {nItems : UInt32} {isSet : Nat → Bool} {nBefore : Nat}
    {bits : List UInt8} (k : Nat) (inside : nBefore + k ≤ 8 * bits.length) :
    ∃ bits', (List.range k).foldlM (bulkRound (.other nItems isSet) nBefore) bits = .ok bits' ∧
      bits'.length = bits.length ∧
      ∀ j, bit bits' j = (bit bits j ||
        decide (nBefore ≤ j ∧ j < nBefore + k) && isSet (j - nBefore)) := by
  induction k with
  | zero =>
      refine ⟨bits, rfl, rfl, fun j => ?_⟩
      rw [decide_eq_false (by omega), Bool.false_and, Bool.or_false]
  | succ k ih =>
      obtain ⟨before, loop, size, read⟩ := ih (by omega)
      have here : (nBefore + k) / 8 < before.length := by omega
      rw [foldlM_range_succ, loop, ok_bind]
      change ∃ bits', (if isSet k = true then bmSet before (nBefore + k) else .ok before)
        = .ok bits' ∧ _
      cases set : isSet k with
      | false =>
          refine ⟨before, if_neg Bool.false_ne_true, size, fun j => ?_⟩
          rw [read j]
          by_cases last : j = nBefore + k
          · subst last
            simp [set]
          · have split : nBefore ≤ j ∧ j < nBefore + (k + 1) ↔
                nBefore ≤ j ∧ j < nBefore + k := by omega
            simp only [split]
      | true =>
          refine ⟨put before (nBefore + k) true, by rw [if_pos rfl, bmSet_eq here],
            by rw [length_put, size], fun j => ?_⟩
          rw [bit_put here, read j]
          by_cases last : nBefore + k = j
          · subst last
            simp [set]
          · have split : nBefore ≤ j ∧ j < nBefore + (k + 1) ↔
                nBefore ≤ j ∧ j < nBefore + k := by omega
            rw [if_neg last]
            simp only [split]

/-- The loop of a self-append after `k` rounds, `n` being the length before. The bits
below `n` are as they were, and those copied stand behind them; it went on as long as
no bit it set for one of its own copies was outside the memory. -/
theorem bulkLoop_self {n : Nat} {bits : List UInt8} (inside : n + n ≤ 8 * bits.length)
    (clear : ∀ j, n ≤ j → j < n + n → bit bits j = false) (k : Nat) (most : k ≤ n + n) :
    Post (fun bits' => bits'.length = bits.length ∧
        (∀ j < n, bit bits' j = bit bits j) ∧
        (∀ j, n ≤ j → j < n + n → bit bits' j = (decide (j < n + k) && bit bits (j - n))) ∧
        ∀ h, n + h < k → bit bits h = true → 2 * n + h < 8 * bits.length)
      (fun _ => ∃ h < n, bit bits h = true ∧ 8 * bits.length ≤ 2 * n + h)
      ((List.range k).foldlM (bulkRound .self n) bits) := by
  induction k with
  | zero =>
      refine ⟨rfl, fun _ _ => rfl, fun j low high => ?_, fun h less => absurd less (by omega)⟩
      rw [clear j low high, decide_eq_false (by omega), Bool.false_and]
  | succ k ih =>
      rw [foldlM_range_succ]
      refine Post.bind (ih (by omega)) ?_
      rintro before - ⟨size, old, copied, within⟩
      have readable : k / 8 < before.length := by omega
      rw [bulkRound, BulkOperand.isSet, pyBmIsSet_eq readable, ok_bind]
      -- the bit read is an old one in the first half, a copy in the second
      have first : k < n → bit before k = bit bits k := fun low => old k low
      have second : n ≤ k → bit before k = bit bits (k - n) := by
        intro high
        rw [copied k high (by omega), decide_eq_true (by omega), Bool.true_and]
      cases set : bit before k with
      | false =>
          refine ⟨size, old, fun j low high => ?_, fun h less isSet => ?_⟩
          · rw [copied j low high]
            by_cases last : j = n + k
            · rw [show j - n = k by omega, ← first (by omega), set, Bool.and_false,
                Bool.and_false]
            · have split : j < n + (k + 1) ↔ j < n + k := by omega
              simp only [split]
          · rcases Nat.lt_succ_iff_lt_or_eq.mp less with less | rfl
            · exact within h less isSet
            · rw [second (by omega), Nat.add_sub_cancel_left, isSet] at set
              exact absurd set (by decide)
      | true =>
          rw [if_pos rfl]
          by_cases here : (n + k) / 8 < before.length
          · rw [bmSet_eq here]
            refine ⟨by rw [length_put, size], fun j low => ?_, fun j low high => ?_,
              fun h less isSet => ?_⟩
            · rw [bit_put_ne here true (by omega), old j low]
            · rw [bit_put here]
              by_cases last : n + k = j
              · rw [if_pos last, decide_eq_true (by omega), Bool.true_and,
                  show j - n = k by omega, ← first (by omega), set]
              · have split : j < n + (k + 1) ↔ j < n + k := by omega
                rw [if_neg last, copied j low high]
                simp only [split]
            · rcases Nat.lt_succ_iff_lt_or_eq.mp less with less | rfl
              · exact within h less isSet
              · omega
          · rw [bmSet, List.getElem?_eq_none (Nat.le_of_not_lt here)]
            have high : n ≤ k := by omega
            refine ⟨k - n, by omega, ?_, by omega⟩
            rw [← second high, set]

theorem appendBulk_stops {realloc : Bool} {self : PyPointlessBitvector} (operand : BulkOperand)
    {exception message : String}
    (raised : pyBitvectorExtendBy realloc self (operand.length self) false =
      .ok (.raised exception message, self)) :
    pyBitvectorAppendBulk realloc self operand = .ok (.raised exception message, self) := by
  rw [pyBitvectorAppendBulk, raised, ok_bind]
  exact if_pos (by simp)

theorem appendBulk_extended {realloc : Bool} {self extended : PyPointlessBitvector}
    (operand : BulkOperand)
    (done : pyBitvectorExtendBy realloc self (operand.length self) false = .ok (.none, extended)) :
    pyBitvectorAppendBulk realloc self operand =
      (List.range (operand.length extended).toNat).foldlM
        (bulkRound operand self.primitiveNBits.toNat) extended.primitiveBits >>=
      fun bits => .ok (.none, { extended with primitiveBits := bits }) := by
  rw [pyBitvectorAppendBulk, done, ok_bind]
  exact if_neg (by simp)

/-- `append_bulk` of another vector. -/
theorem appendBulk_other_matches {step : BitvectorStep} {self : PyPointlessBitvector}
    {bits : List Bool} (shows : self.Shows bits) {nItems : UInt32} {isSet : Nat → Bool}
    (op : step.op = .appendBulk (.other nItems isSet)) :
    ∃ outcome self' bits',
      pyBitvectorAppendBulk step.realloc self (.other nItems isSet) = .ok (outcome, self') ∧
      step.Matches self bits outcome self' bits' ∧ self'.Shows bits' := by
  have onList : step.op.onList bits =
      listExtend bits ((List.range nItems.toNat).map isSet) := by rw [op]; rfl
  have size : ((List.range nItems.toNat).map isSet).length = nItems.toNat := by
    rw [List.length_map, List.length_range]
  by_cases goes : bits.length + nItems.toNat < 2 ^ 32 ∧
      (self.allocFor nItems = self.primitiveNBytesAlloc ∨ step.realloc = true)
  · obtain ⟨fits, served⟩ := goes
    rw [listExtend, size, if_pos fits] at onList
    obtain ⟨extended, done, shows', -, -⟩ :=
      extendBy_done shows step.realloc nItems false fits served
    obtain ⟨memory, length, inside, items⟩ := shows_iff.mp shows'
    rw [List.length_append, List.length_replicate] at length inside
    obtain ⟨bits', loop, size', read⟩ := bulkLoop_other 
      nItems.toNat inside
    refine ⟨.none, { extended with primitiveBits := bits' }, _, ?_, .does onList,
      shows_iff.mpr ⟨by rw [← memory]; exact size', ?_, ?_, fun i less => ?_⟩⟩
    · rw [appendBulk_extended (.other nItems isSet) done, shows.length]
      exact bind_eq_ok.mpr ⟨bits', loop, rfl⟩
    · rw [List.length_append, size]
      exact length
    · rw [List.length_append, size, size']
      exact inside
    · rw [List.length_append, size] at less
      rw [read i, items i (by rw [List.length_append, List.length_replicate]; exact less)]
      by_cases old : i < bits.length
      · rw [decide_eq_false (by omega), List.getElem_append_left old,
          List.getElem_append_left old, Bool.false_and, Bool.or_false]
      · rw [decide_eq_true (by omega), List.getElem_append_right (by omega),
          List.getElem_append_right (by omega), List.getElem_replicate, List.getElem_map,
          List.getElem_range, Bool.true_and, Bool.false_or]
  · obtain ⟨exception, message, raised, agrees⟩ := extendBy_stops shows nItems false size onList goes
    exact ⟨_, self, bits, appendBulk_stops (.other nItems isSet) raised, agrees, shows⟩

theorem selfAppendFits_iff {self : PyPointlessBitvector} {bits : List Bool}
    (shows : self.Shows bits) (realloc : Bool) :
    SelfAppendFits realloc self ↔
      (bits.length + self.primitiveNBits.toNat < 2 ^ 32 ∧
        (self.allocFor self.primitiveNBits = self.primitiveNBytesAlloc ∨ realloc = true) →
      ∀ h < bits.length, bit self.primitiveBits h = true →
        2 * bits.length + h < 8 * (self.allocFor self.primitiveNBits).toNat) := by
  obtain ⟨memory, length, inside, items⟩ := shows_iff.mp shows
  simp only [SelfAppendFits, length]
  have read : ∀ h < bits.length,
      (pyBmIsSet self.primitiveBits h = .ok true ↔ bit self.primitiveBits h = true) := by
    intro h less
    rw [pyBmIsSet_eq (by omega), Except.ok.injEq]
  constructor
  · rintro within ⟨fits, served⟩ h less isSet
    exact within fits served h less ((read h less).mpr isSet)
  · intro within fits served h less isSet
    exact within ⟨fits, served⟩ h less ((read h less).mp isSet)

/-- `append_bulk` of the vector itself: it does what it does to the list when it stays
inside the memory, and runs past it otherwise. -/
theorem appendBulk_self_iff {step : BitvectorStep} {self : PyPointlessBitvector}
    {bits : List Bool} (shows : self.Shows bits) (op : step.op = .appendBulk .self) :
    (SelfAppendFits step.realloc self → ∃ outcome self' bits',
      pyBitvectorAppendBulk step.realloc self .self = .ok (outcome, self') ∧
      step.Matches self bits outcome self' bits' ∧ self'.Shows bits') ∧
    (∀ returned, pyBitvectorAppendBulk step.realloc self .self = .ok returned →
      SelfAppendFits step.realloc self) := by
  have onList : step.op.onList bits = listExtend bits bits := by rw [op]; rfl
  have length := shows.length
  rw [selfAppendFits_iff shows]
  by_cases goes : bits.length + self.primitiveNBits.toNat < 2 ^ 32 ∧
      (self.allocFor self.primitiveNBits = self.primitiveNBytesAlloc ∨ step.realloc = true)
  · simp only [goes, and_self, forall_const]
    obtain ⟨fits, served⟩ := goes
    rw [listExtend, if_pos (length ▸ fits)] at onList
    obtain ⟨extended, done, shows', nBits, alloc⟩ :=
      extendBy_done shows step.realloc self.primitiveNBits false fits served
    obtain ⟨memory, length', inside, items⟩ := shows_iff.mp shows'
    rw [List.length_append, List.length_replicate, length] at length' inside
    have old : ∀ j (less : j < bits.length), bit extended.primitiveBits j = bits[j] := by
      intro j less
      rw [items j (by rw [List.length_append]; omega), List.getElem_append_left less]
    have clear : ∀ j, bits.length ≤ j → j < bits.length + bits.length →
        bit extended.primitiveBits j = false := by
      intro j low high
      rw [items j (by rw [List.length_append, List.length_replicate, length]; exact high),
        List.getElem_append_right low, List.getElem_replicate]
    have same : ∀ j < bits.length, bit extended.primitiveBits j = bit self.primitiveBits j := by
      intro j less
      rw [old j less, (shows_iff.mp shows).2.2.2 j less]
    have loop := bulkLoop_self inside clear (bits.length + bits.length) (Nat.le_refl _)
    rw [← length'] at loop
    have bulk := appendBulk_extended .self done
    rw [length] at bulk
    change _ = (List.range extended.primitiveNBits.toNat).foldlM _ _ >>= _ at bulk
    rw [← alloc, ← memory]
    constructor
    · intro within
      cases ended : (List.range extended.primitiveNBits.toNat).foldlM
          (bulkRound .self bits.length) extended.primitiveBits with
      | error stop =>
          obtain ⟨h, less, isSet, past⟩ := loop.of_error ended
          have := within h less (by rw [← same h less, isSet])
          omega
      | ok bits' =>
          obtain ⟨size, kept, copied, -⟩ := loop.of_ok ended
          rw [ended, ok_bind] at bulk
          refine ⟨_, _, _, bulk, .does onList, shows_iff.mpr ⟨?_, ?_, ?_, fun i less => ?_⟩⟩
          · rw [← memory]
            exact size
          · rw [List.length_append]
            exact length'
          · rw [List.length_append, size]
            exact inside
          · rw [List.length_append] at less
            by_cases low : i < bits.length
            · rw [kept i low, old i low, List.getElem_append_left low]
            · rw [copied i (by omega) (by omega), decide_eq_true (by omega), Bool.true_and,
                old _ (by omega), List.getElem_append_right (by omega)]
    · intro returned ok h less isSet
      rw [bulk] at ok
      obtain ⟨bits', ended, -⟩ := bind_eq_ok.mp ok
      obtain ⟨-, -, -, within⟩ := loop.of_ok ended
      exact within h (by omega) (by rw [same h less, isSet])
  · obtain ⟨exception, message, raised, agrees⟩ :=
      extendBy_stops shows self.primitiveNBits false length.symm onList goes
    exact ⟨fun _ => ⟨_, self, bits, appendBulk_stops .self raised, agrees, shows⟩,
      fun _ _ going => absurd going goes⟩

/-! ## Single bits -/

theorem pop_matches {step : BitvectorStep} {self : PyPointlessBitvector} {bits : List Bool}
    (shows : self.Shows bits) (op : step.op = .pop) :
    ∃ outcome self' bits', pyBitvectorPop self = .ok (outcome, self') ∧
      step.Matches self bits outcome self' bits' ∧ self'.Shows bits' := by
  have length := shows.length
  have onList : step.op.onList bits = bits.getLast?.map fun b => (.bool b, bits.dropLast) := by
    rw [op]
    rfl
  rw [pyBitvectorPop]
  by_cases empty : self.primitiveNBits = 0
  · have nil : bits = [] := by
      rw [empty] at length
      exact List.length_eq_zero_iff.mp length.symm
    subst nil
    rw [if_pos empty]
    exact ⟨_, self, [], rfl, .fails onList, shows⟩
  · have positive : 0 < bits.length := by
      rw [← length]
      exact Nat.pos_of_ne_zero fun zero => empty (UInt32.toNat_inj.mp zero)
    have one : (1 : UInt32).toNat = 1 := rfl
    have last : (self.primitiveNBits - 1).toNat = bits.length - 1 := by
      rw [UInt32.toNat_sub_of_le _ _ (UInt32.le_iff_toNat_le.mpr (by omega)), length, one]
    rw [List.getLast?_eq_getElem?, List.getElem?_eq_getElem (by omega), Option.map_some] at onList
    rw [if_neg empty, last, shows.items _ (by omega), ok_bind]
    refine ⟨_, _, _, rfl, .does onList, shows.memory, ?_, fun i less => ?_⟩
    · rw [List.length_dropLast]
      exact last
    · rw [List.length_dropLast] at less
      rw [List.getElem_dropLast]
      exact shows.items i (by omega)

theorem checkIndex_cases {self : PyPointlessBitvector} {bits : List Bool}
    (shows : self.Shows bits) (item : Int) :
    (∃ i, i < bits.length ∧ listIndex bits.length item = some i ∧
      pyBitvectorCheckIndex self item = .ok i) ∨
    listIndex bits.length item = none ∧
      ∃ exception message, pyBitvectorCheckIndex self item = .error (.raised exception message) := by
  have bound := self.primitiveNBits.toNat_lt
  rw [pyBitvectorCheckIndex, listIndex]
  rw [shows.length] at bound ⊢
  by_cases wide : item < -2 ^ 63 ∨ 2 ^ 63 ≤ item
  · rw [if_pos wide, if_neg (by omega), if_neg (by omega)]
    exact Or.inr ⟨rfl, _, _, rfl⟩
  · rw [if_neg wide]
    by_cases negative : item < 0
    · simp only [if_pos negative, if_neg (show ¬(0 ≤ item ∧ item < bits.length) by omega)]
      by_cases inside : -(bits.length : Int) ≤ item
      · rw [if_pos ⟨inside, negative⟩, if_pos (by omega)]
        exact Or.inl ⟨_, by omega, rfl, rfl⟩
      · rw [if_neg (by omega), if_neg (by omega)]
        exact Or.inr ⟨rfl, _, _, rfl⟩
    · simp only [if_neg negative]
      by_cases inside : 0 ≤ item ∧ item < bits.length
      · rw [if_pos inside, if_pos inside]
        exact Or.inl ⟨_, by omega, rfl, rfl⟩
      · rw [if_neg inside, if_neg inside, if_neg (by omega)]
        exact Or.inr ⟨rfl, _, _, rfl⟩

theorem itemBit_cases (value : PyItem) :
    (∃ b, value.bit = some b ∧ pyItemBit value = .ok b) ∨
    value.bit = none ∧ ∃ exception message, pyItemBit value = .error (.raised exception message) := by
  cases value with
  | bool b => exact Or.inl ⟨b, rfl, rfl⟩
  | other => exact Or.inr ⟨rfl, _, _, rfl⟩
  | int v =>
      by_cases zero : v = 0
      · subst zero
        exact Or.inl ⟨false, rfl, rfl⟩
      by_cases one : v = 1
      · subst one
        exact Or.inl ⟨true, rfl, rfl⟩
      refine Or.inr ⟨by simp [PyItem.bit, zero, one], ?_⟩
      by_cases wide : v < -2 ^ 63 ∨ 2 ^ 63 ≤ v
      · exact ⟨_, _, if_pos wide⟩
      · exact ⟨_, _, by rw [pyItemBit, if_neg wide, if_neg zero, if_neg one]⟩

theorem subscript_matches {step : BitvectorStep} {self : PyPointlessBitvector}
    {bits : List Bool} (shows : self.Shows bits) {item : Int} (op : step.op = .subscript item) :
    ∃ outcome self' bits', pyBitvectorSubscript self item = .ok (outcome, self') ∧
      step.Matches self bits outcome self' bits' ∧ self'.Shows bits' := by
  have onList : step.op.onList bits = (listIndex bits.length item).bind fun i =>
      bits[i]?.bind fun b => some (.bool b, bits) := by rw [op]; rfl
  rw [pyBitvectorSubscript]
  rcases checkIndex_cases shows item with ⟨i, less, index, checked⟩ | ⟨index, _, _, raised⟩
  · rw [index, Option.bind_some, List.getElem?_eq_getElem less, Option.bind_some] at onList
    rw [checked]
    simp only [shows.items i less, ok_bind]
    exact ⟨_, self, bits, rfl, .does onList, shows⟩
  · rw [index] at onList
    rw [raised]
    exact ⟨_, self, bits, rfl, .fails onList, shows⟩

/-- A vector whose bit `i` was put to `b` shows the list with that item set. -/
theorem PyPointlessBitvector.Shows.put {self : PyPointlessBitvector} {bits : List Bool}
    (shows : self.Shows bits) {i : Nat} (less : i < bits.length) (b : Bool) (nOne : UInt64) :
    PyPointlessBitvector.Shows
      { self with primitiveBits := put self.primitiveBits i b, primitiveNOne := nOne }
      (bits.set i b) := by
  obtain ⟨memory, length, inside, items⟩ := shows_iff.mp shows
  refine shows_iff.mpr ⟨?_, ?_, ?_, fun j less' => ?_⟩
  · rw [length_put]
    exact memory
  · rw [List.length_set]
    exact length
  · rw [List.length_set, length_put]
    exact inside
  · rw [List.length_set] at less'
    rw [bit_put (by omega), List.getElem_set, items j less']

theorem assSubscript_matches {step : BitvectorStep} {self : PyPointlessBitvector}
    {bits : List Bool} (shows : self.Shows bits) {item : Int} {value : PyItem}
    (op : step.op = .assSubscript item value) :
    ∃ outcome self' bits', pyBitvectorAssSubscript self item value = .ok (outcome, self') ∧
      step.Matches self bits outcome self' bits' ∧ self'.Shows bits' := by
  have onList : step.op.onList bits = (listIndex bits.length item).bind fun i =>
      value.bit.bind fun b => some (.none, bits.set i b) := by rw [op]; rfl
  rw [pyBitvectorAssSubscript]
  rcases checkIndex_cases shows item with ⟨i, less, index, checked⟩ | ⟨index, _, _, raised⟩
  · rw [index, Option.bind_some] at onList
    rw [checked]
    simp only [shows.items i less, ok_bind]
    have here : i / 8 < self.primitiveBits.length := by
      have := (shows_iff.mp shows).2.2.1
      omega
    rcases itemBit_cases value with ⟨b, isBit, stored⟩ | ⟨noBit, _, _, raised⟩
    · rw [isBit, Option.bind_some] at onList
      rw [stored]
      cases b with
      | false =>
          simp only [bmReset_eq here, ok_bind]
          exact ⟨_, _, _, rfl, .does onList, shows.put less false _⟩
      | true =>
          simp only [bmSet_eq here, ok_bind]
          exact ⟨_, _, _, rfl, .does onList, shows.put less true _⟩
    · rw [noBit] at onList
      rw [raised]
      exact ⟨_, self, bits, rfl, .fails onList, shows⟩
  · rw [index] at onList
    rw [raised]
    exact ⟨_, self, bits, rfl, .fails onList, shows⟩

/-! ## Runs -/

theorem extend_matches {step : BitvectorStep} {self : PyPointlessBitvector} {bits : List Bool}
    (shows : self.Shows bits) {n : Int32} {b : Bool}
    (onList : step.op.onList bits =
      if n < 0 then none else listExtend bits (List.replicate n.toInt.toNat b)) :
    ∃ outcome self' bits', pyBitvectorExtend step.realloc self n b = .ok (outcome, self') ∧
      step.Matches self bits outcome self' bits' ∧ self'.Shows bits' := by
  rw [pyBitvectorExtend]
  by_cases negative : n < 0
  · rw [if_pos negative] at onList ⊢
    exact ⟨_, self, bits, rfl, .fails onList, shows⟩
  · have bound := n.toInt_lt
    have top : uint32Max.toNat = 4294967295 := rfl
    have size : (UInt32.ofNat n.toInt.toNat).toNat = n.toInt.toNat := by
      rw [UInt32.toNat_ofNat', Nat.mod_eq_of_lt (by omega)]
    rw [if_neg negative] at onList ⊢
    rw [if_neg (by rintro ⟨-, tooLong⟩; omega)]
    rw [← size] at onList
    exact extendBy_matches shows _ b onList

/-- A step on a vector that shows a list does what the operation does to the list,
exactly when it is not a self-append that runs past the memory. -/
theorem step_iff {self : PyPointlessBitvector} {bits : List Bool} (shows : self.Shows bits)
    (step : BitvectorStep) :
    (step.Fits self → ∃ outcome self' bits', step.run self = .ok (outcome, self') ∧
      step.Matches self bits outcome self' bits' ∧ self'.Shows bits') ∧
    (∀ returned, step.run self = .ok returned → step.Fits self) := by
  obtain ⟨op, realloc⟩ := step
  cases op with
  | append v => exact ⟨fun _ => extendBy_matches shows 1 v rfl, fun _ _ => trivial⟩
  | extendTrue n => exact ⟨fun _ => extend_matches shows rfl, fun _ _ => trivial⟩
  | extendFalse n => exact ⟨fun _ => extend_matches shows rfl, fun _ _ => trivial⟩
  | appendBulk operand =>
      cases operand with
      | self => exact appendBulk_self_iff shows rfl
      | other nItems isSet =>
          exact ⟨fun _ => appendBulk_other_matches shows rfl, fun _ _ => trivial⟩
  | pop => exact ⟨fun _ => pop_matches shows rfl, fun _ _ => trivial⟩
  | assSubscript item value => exact ⟨fun _ => assSubscript_matches shows rfl, fun _ _ => trivial⟩
  | subscript item => exact ⟨fun _ => subscript_matches shows rfl, fun _ _ => trivial⟩

/-- The run lemma, from any vector that shows a list. -/
theorem refinesList_iff {self : PyPointlessBitvector} {bits : List Bool}
    (shows : self.Shows bits) (steps : List BitvectorStep) :
    RefinesList self bits steps ↔ RunFits self steps := by
  induction steps generalizing self bits with
  | nil => exact ⟨fun _ => trivial, fun _ => shows⟩
  | cons step rest ih =>
      obtain ⟨goes, fits⟩ := step_iff shows step
      constructor
      · rintro ⟨-, outcome, self', bits', ran, -, after⟩
        have shows' : self'.Shows bits' := by
          cases rest with
          | nil => exact after
          | cons _ _ => exact after.1
        refine ⟨fits _ ran, fun outcome₂ self₂ ran₂ => ?_⟩
        rw [ran] at ran₂
        cases ran₂
        exact (ih shows').mp after
      · rintro ⟨fits, after⟩
        obtain ⟨outcome, self', bits', ran, agrees, shows'⟩ := goes fits
        exact ⟨shows, outcome, self', bits', ran, agrees, (ih shows').mpr (after _ _ ran)⟩

/-! ## Construction -/

theorem new_shows : pyBitvectorNew.Shows [] :=
  ⟨rfl, rfl, fun _ less => absurd less (Nat.not_lt_zero _)⟩

theorem initSize_shows {calloc : Bool} {size : Int} {self : PyPointlessBitvector}
    (made : pyBitvectorInitSize calloc size = (.none, self)) :
    self.Shows (List.replicate size.toNat false) := by
  have top : uint32Max.toNat = 4294967295 := rfl
  rw [pyBitvectorInitSize] at made
  by_cases wide : size < -2 ^ 63 ∨ 2 ^ 63 ≤ size
  · rw [if_pos wide] at made
    cases made
  rw [if_neg wide] at made
  by_cases ranged : 0 ≤ size ∧ size ≤ uint32Max.toNat
  · rw [if_neg (not_not.mpr ranged)] at made
    by_cases refused : 0 < size ∧ (!calloc) = true
    · rw [if_pos refused] at made
      cases made
    · rw [if_neg refused] at made
      cases made
      have need : iceil size.toNat 8 ≤ 2 ^ 29 := iceil_le.mpr (by omega)
      refine shows_iff.mpr ⟨?_, ?_, ?_, fun i less => ?_⟩
      · rw [List.length_replicate, UInt32.toNat_ofNat', Nat.mod_eq_of_lt (by omega)]
      · rw [List.length_replicate, UInt32.toNat_ofNat', Nat.mod_eq_of_lt (by omega)]
      · rw [List.length_replicate, List.length_replicate]
        exact iceil_le.mp (Nat.le_refl _)
      · rw [bit_replicate_zero, List.getElem_replicate]
  · rw [if_pos ranged] at made
    cases made

theorem sequenceBit_eq (item : PyItem) : sequenceBit item = item.bit := by
  cases item with
  | bool b => rfl
  | other => rfl
  | int v =>
      by_cases zero : v = 0
      · subst zero
        rfl
      by_cases one : v = 1
      · subst one
        rfl
      simp [sequenceBit, PyItem.bit, zero, one]

theorem extendOne_shows {realloc : Bool} {self self' : PyPointlessBitvector} {bits : List Bool}
    (shows : self.Shows bits)
    (extended : pyBitvectorExtendBy realloc self 1 false = .ok (.none, self')) :
    self'.Shows (bits ++ [false]) := by
  by_cases goes : bits.length + (1 : UInt32).toNat < 2 ^ 32 ∧
      (self.allocFor 1 = self.primitiveNBytesAlloc ∨ realloc = true)
  · obtain ⟨_, done, shows', -, -⟩ := extendBy_done shows realloc 1 false goes.1 goes.2
    rw [extended] at done
    cases done
    exact shows'
  · obtain ⟨_, _, raised, -⟩ :=
      @extendBy_stops ⟨.append false, realloc⟩ self bits [false] shows 1 false rfl rfl goes
    rw [extended] at raised
    cases raised

theorem extendBy_nOne {self self' : PyPointlessBitvector} {realloc : Bool} {n : UInt32} {b : Bool}
    (ran : pyBitvectorExtendBy realloc self n b = .ok (.none, self')) :
    self'.primitiveNOne = if b then self.primitiveNOne + n.toUInt64 else self.primitiveNOne := by
  rw [pyBitvectorExtendBy] at ran
  split at ran
  · cases ran
  · dsimp only at ran
    split at ran
    · cases ran
    · obtain ⟨memory, -, returned⟩ := bind_eq_ok.mp ran
      cases returned
      rfl

/-- A round of the loop over a sequence appends a bit and counts it. -/
theorem initLoop_cons {realloc : Nat → Bool} {obj : PyItem} {rest : List PyItem}
    {self self' : PyPointlessBitvector} {before : List Bool} {b : Bool} (shows : self.Shows before)
    (made : pyBitvectorInitLoop realloc before.length (obj :: rest) self = .ok (.none, self'))
    (isBit : obj.bit = some b) :
    ∃ next, next.Shows (before ++ [b]) ∧
      next.primitiveNOne = (if b then self.primitiveNOne + 1 else self.primitiveNOne) ∧
      pyBitvectorInitLoop realloc (before ++ [b]).length rest next = .ok (.none, self') := by
  have size : (before ++ [b]).length = before.length + 1 := List.length_append
  rw [pyBitvectorInitLoop] at made
  obtain ⟨⟨outcome, extended⟩, extension, made⟩ := bind_eq_ok.mp made
  dsimp only at made
  by_cases failed : outcome = .none
  · subst failed
    rw [if_neg (by simp), sequenceBit_eq, isBit] at made
    have shows' := extendOne_shows shows extension
    have nOne : extended.primitiveNOne = self.primitiveNOne := extendBy_nOne extension
    rw [size]
    cases b with
    | false => exact ⟨extended, shows', nOne, made⟩
    | true =>
        have here : before.length < (before ++ [false]).length := by simp
        have inside := (shows_iff.mp shows').2.2.1
        rw [bmSet_eq (by omega), ok_bind] at made
        have shows'' := shows'.put here true (extended.primitiveNOne + 1)
        rw [List.set_append_right _ _ (Nat.le_refl _), Nat.sub_self] at shows''
        exact ⟨_, shows'', congrArg (· + 1) nOne, made⟩
  · rw [if_pos failed] at made
    cases made
    exact absurd rfl failed

theorem mapM_bit_cons {obj : PyItem} {rest : List PyItem} {bits : List Bool}
    (same : (obj :: rest).mapM PyItem.bit = some bits) :
    ∃ b bits', obj.bit = some b ∧ rest.mapM PyItem.bit = some bits' ∧ bits = b :: bits' := by
  rw [List.mapM_cons] at same
  obtain ⟨b, isBit, same⟩ := Option.bind_eq_some_iff.mp same
  obtain ⟨bits', others, same⟩ := Option.bind_eq_some_iff.mp same
  cases same
  exact ⟨b, bits', isBit, others, rfl⟩

/-- The loop over a sequence, on a vector that shows the items before. -/
theorem initLoop_shows {realloc : Nat → Bool} {items : List PyItem}
    {self self' : PyPointlessBitvector} {before bits : List Bool} (shows : self.Shows before)
    (made : pyBitvectorInitLoop realloc before.length items self = .ok (.none, self'))
    (same : items.mapM PyItem.bit = some bits) : self'.Shows (before ++ bits) := by
  induction items generalizing self before bits with
  | nil =>
      cases made
      cases same
      rw [List.reverse_nil, List.append_nil]
      exact shows
  | cons obj rest ih =>
      obtain ⟨b, bits', isBit, others, rfl⟩ := mapM_bit_cons same
      obtain ⟨next, shows', -, made'⟩ := initLoop_cons shows made isBit
      rw [show before ++ b :: bits' = (before ++ [b]) ++ bits' by simp]
      exact ih shows' made' others

theorem PyPointlessBitvector.Built.shows {self : PyPointlessBitvector} {bits : List Bool}
    (built : self.Built bits) : self.Shows bits := by
  cases built with
  | size made => exact initSize_shows made
  | sequence made same => exact initLoop_shows new_shows made same

/-! ## The refinement -/

/-- A bitvector that `PyPointlessBitvector_init` built refines the list of its bits along
a run exactly when no self-append of the run sets a bit outside the memory. -/
theorem bitvector_refines_list {self : PyPointlessBitvector} {bits : List Bool}
    (built : self.Built bits) (steps : List BitvectorStep) :
    RefinesList self bits steps ↔ RunFits self steps :=
  refinesList_iff built.shows steps

/-- Three cleared bits, one of them set, and the vector appended to itself: bit `6 + 1` is
still in the one byte there is. -/
theorem bitvector_refines_list_three :
    let self : PyPointlessBitvector := ⟨3, [0], 1, 0⟩
    let steps : List BitvectorStep :=
      [⟨.assSubscript 1 (.bool true), true⟩, ⟨.appendBulk .self, true⟩, ⟨.pop, true⟩]
    self.Built [false, false, false] ∧
      (RefinesList self [false, false, false] steps ↔ RunFits self steps) := by
  have built : (⟨3, [0], 1, 0⟩ : PyPointlessBitvector).Built [false, false, false] :=
    .size (by rfl : pyBitvectorInitSize true 3 = (.none, ⟨3, [0], 1, 0⟩))
  exact ⟨built, bitvector_refines_list built _⟩

/-- The vector of eight `True`s. -/
def eightTrue : PyPointlessBitvector := ⟨8, [255], 1, 8⟩

/-- Appending eight `True`s to themselves sets bit 16 of two bytes. -/
theorem bitvector_overruns_list : ¬∀ (self : PyPointlessBitvector) (bits : List Bool),
    self.Built bits → ∀ steps, RefinesList self bits steps := by
  intro refines
  have built : eightTrue.Built (List.replicate 8 true) :=
    .sequence (by decide : pyBitvectorInitSequence (fun _ => true)
      (List.replicate 8 (.bool true)) = .ok (.none, eightTrue)) rfl
  obtain ⟨-, outcome, self', bits', ran, -⟩ :=
    refines eightTrue (List.replicate 8 true) built [⟨.appendBulk .self, true⟩]
  have overrun : pyBitvectorAppendBulk true eightTrue .self = fault .outOfBounds := by decide
  rw [show BitvectorStep.run ⟨.appendBulk .self, true⟩ eightTrue = fault .outOfBounds from
    overrun] at ran
  cases ran

end Pointless
