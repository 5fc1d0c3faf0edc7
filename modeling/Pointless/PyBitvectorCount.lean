import Pointless.PyBitvectorList
import Pointless.Reader

/-!
# The count of the set bits

`primitive_n_one` of `PyPointlessBitvector` is kept beside the bits by every method that
changes them, and `IsAnySet` looks at nothing else. `append_bulk` and `pop` forget it: the
count stays right along a run exactly when they only ever deal with clear bits.
-/

namespace Pointless

open ExceptRules BitMemory ByteMemory

/-! ## Copies -/

/-- The loop of `PyPointlessBitvector_copy` that counts the bits of the copy. -/
def countOnes (bits : List UInt8) (nBits : Nat) : Res UInt64 :=
  (List.range nBits).foldlM (fun nOne i => do
    let isSet ← pyBmIsSet bits i
    pure (if isSet then nOne + 1 else nOne)) 0

/-- What `PyPointlessBitvector_copy` builds once it has the bits. -/
def pyBitvectorOfBits (object : Bool) (nBits : UInt32) (bits : List UInt8) :
    Res (PyOutcome × Option PyPointlessBitvector) :=
  if !object then pure (.raised "MemoryError" "", none)
  else do
    let nOne ← countOnes bits nBits.toNat
    pure (.none, some
      { primitiveNBits := nBits
        primitiveBits := bits
        primitiveNBytesAlloc := UInt32.ofNat (iceil nBits.toNat 8)
        primitiveNOne := nOne })

/-- `PyPointlessBitvector_copy` of a vector that is not file-backed; `calloc` and `object`
say whether the two allocations are served. -/
def pyBitvectorCopy (calloc object : Bool) (self : PyPointlessBitvector) :
    Res (PyOutcome × Option PyPointlessBitvector) :=
  if !calloc then pure (.raised "MemoryError" "", none)
  else
    match slice self.primitiveBits 0 (iceil self.primitiveNBits.toNat 8) with
    | none => fault .outOfBounds
    | some bits => pyBitvectorOfBits object self.primitiveNBits bits

/-- The bits that `PyPointlessBitvector_copy` takes from a file, in `nBytes` bytes. -/
def fileBits (p : OpenFile) (v : Value) (nBits : UInt32) (nBytes : Nat) : Res (List UInt8) :=
  if v.type = .bitvector then do
    let buffer ← readerBitvectorBuffer p v
    match buffer.bind fun m => slice m 4 nBytes with
    | none => fault .outOfBounds
    | some bits => pure bits
  else
    (List.range nBits.toNat).foldlM (fun bits i => do
      let isSet ← readerBitvectorIsSet p v i
      if isSet then bmSet bits i else pure bits) (List.replicate nBytes 0)

/-- `PyPointlessBitvector_copy` of a file-backed vector. -/
def pyBitvectorCopyFile (calloc object : Bool) (p : OpenFile) (v : Value) :
    Res (PyOutcome × Option PyPointlessBitvector) := do
  let nBits ← readerBitvectorNBits p v
  if !calloc then pure (.raised "MemoryError" "", none)
  else
    let bits ← fileBits p v nBits (iceil nBits.toNat 8)
    pyBitvectorOfBits object nBits bits

/-- `PyPointlessBitvector_is_any_set` of a vector that is not file-backed. -/
def pyBitvectorIsAnySet (self : PyPointlessBitvector) : Bool := decide (0 < self.primitiveNOne)

/-! ## Runs -/

/-- The vectors that are not file-backed when they come into being. -/
inductive PyPointlessBitvector.Made : PyPointlessBitvector → Prop
  | built {self bits} (built : PyPointlessBitvector.Built self bits) : Made self
  | copied {calloc object p v self}
      (copied : pyBitvectorCopyFile calloc object p v = .ok (.none, some self)) : Made self

/-- An operation on the vector, or a copy that the run goes on with. -/
inductive CountStep where
  | op (step : BitvectorStep)
  | copy (calloc object : Bool)

/-- The step as the code carries it out. -/
def CountStep.run (self : PyPointlessBitvector) : CountStep → Res (PyOutcome × PyPointlessBitvector)
  | .op step => step.run self
  | .copy calloc object => do
      let (outcome, made) ← pyBitvectorCopy calloc object self
      pure (outcome, made.getD self)

/-- The number of set bits among the first `primitive_n_bits`. -/
def PyPointlessBitvector.nSet (self : PyPointlessBitvector) : Nat :=
  (List.range self.primitiveNBits.toNat).countP fun i =>
    decide (pyBmIsSet self.primitiveBits i = .ok true)

/-- The count is right, and so is what `IsAnySet` makes of it. -/
structure PyPointlessBitvector.Counts (vector : PyPointlessBitvector) : Prop where
  nOne : vector.primitiveNOne.toNat = vector.nSet
  isAnySet : pyBitvectorIsAnySet vector = true ↔
    ∃ i < vector.primitiveNBits.toNat, pyBmIsSet vector.primitiveBits i = .ok true

/-- Along the whole run each operation returns and the count is right. -/
def KeepsCount : PyPointlessBitvector → List CountStep → Prop
  | self, [] => self.Counts
  | self, step :: rest =>
      self.Counts ∧ ∃ outcome self', step.run self = .ok (outcome, self') ∧ KeepsCount self' rest

/-- `extend_by` goes through. -/
def PyPointlessBitvector.Grows (self : PyPointlessBitvector) (realloc : Bool) (n : UInt32) :
    Prop :=
  self.primitiveNBits.toNat + n.toNat < 2 ^ 32 ∧
    (self.allocFor n = self.primitiveNBytesAlloc ∨ realloc = true)

/-- No bit of the operand is set. -/
def BulkOperand.Clear (self : PyPointlessBitvector) (operand : BulkOperand) : Prop :=
  ∀ i < (operand.length self).toNat, operand.isSet self.primitiveBits i = .ok false

/-- The step appends no set bits in bulk and pops none. -/
def CountStep.KeepsOnes (self : PyPointlessBitvector) : CountStep → Prop
  | .op ⟨.appendBulk operand, realloc⟩ =>
      self.Grows realloc (operand.length self) → operand.Clear self
  | .op ⟨.pop, _⟩ =>
      ∀ i, self.primitiveNBits.toNat = i + 1 → pyBmIsSet self.primitiveBits i = .ok false
  | _ => True

/-- No step of the run appends set bits in bulk or pops one. -/
def OnesKept : PyPointlessBitvector → List CountStep → Prop
  | _, [] => True
  | self, step :: rest => step.KeepsOnes self ∧
      ∀ outcome self', step.run self = .ok (outcome, self') → OnesKept self' rest

/-! ## The count over the list -/

section Counting

variable {self self' : PyPointlessBitvector} {bits bits' : List Bool}

theorem PyPointlessBitvector.Shows.bits_eq (shows : self.Shows bits) :
    bits = (List.range self.primitiveNBits.toNat).map fun i => bit self.primitiveBits i := by
  obtain ⟨-, length, -, items⟩ := shows_iff.mp shows
  apply List.ext_getElem
  · rw [List.length_map, List.length_range, length]
  · intro i less _
    rw [List.getElem_map, List.getElem_range, items i less]

/-- A vector shows one list. -/
theorem PyPointlessBitvector.Shows.unique (first : self.Shows bits) (second : self.Shows bits') :
    bits = bits' := first.bits_eq.trans second.bits_eq.symm

theorem PyPointlessBitvector.Shows.readable (shows : self.Shows bits) {i : Nat}
    (less : i < self.primitiveNBits.toNat) :
    pyBmIsSet self.primitiveBits i = .ok (bit self.primitiveBits i) := by
  obtain ⟨-, length, inside, -⟩ := shows_iff.mp shows
  exact pyBmIsSet_eq (by omega)

theorem PyPointlessBitvector.Shows.nSet_eq (shows : self.Shows bits) :
    self.nSet = bits.count true := by
  rw [shows.bits_eq, List.count, List.countP_map, PyPointlessBitvector.nSet]
  apply List.countP_congr
  intro i mem
  rw [shows.readable (List.mem_range.mp mem)]
  simp

theorem PyPointlessBitvector.Shows.counts_iff (shows : self.Shows bits) :
    self.Counts ↔ self.primitiveNOne.toNat = bits.count true := by
  rw [← shows.nSet_eq]
  refine ⟨fun counts => counts.nOne, fun same => ⟨same, ?_⟩⟩
  have positive : pyBitvectorIsAnySet self = true ↔ 0 < self.nSet := by
    rw [pyBitvectorIsAnySet, decide_eq_true_eq, UInt64.lt_iff_toNat_lt, same]
    rfl
  rw [positive, PyPointlessBitvector.nSet, List.countP_pos_iff]
  simp only [List.mem_range, decide_eq_true_eq]

/-- The bits of a vector that shows a list are fewer than `2 ^ 32`. -/
theorem PyPointlessBitvector.Shows.count_lt (shows : self.Shows bits) :
    bits.count true < 2 ^ 32 := by
  have bound := self.primitiveNBits.toNat_lt
  have most := List.count_le_length (a := true) (l := bits)
  rw [← shows.length] at most
  omega

/-! ## Extensions -/

theorem PyPointlessBitvector.Shows.grows_iff (shows : self.Shows bits) (realloc : Bool)
    (n : UInt32) : self.Grows realloc n ↔ bits.length + n.toNat < 2 ^ 32 ∧
      (self.allocFor n = self.primitiveNBytesAlloc ∨ realloc = true) := by
  rw [PyPointlessBitvector.Grows, shows.length]

theorem extendBy_raises (shows : self.Shows bits) {realloc : Bool} {n : UInt32} (b : Bool)
    (stops : ¬self.Grows realloc n) : ∃ exception message,
      pyBitvectorExtendBy realloc self n b = .ok (.raised exception message, self) := by
  rw [shows.grows_iff] at stops
  by_cases fits : bits.length + n.toNat < 2 ^ 32
  · obtain ⟨grows, refused⟩ := not_or.mp fun served => stops ⟨fits, served⟩
    exact ⟨_, _, extendBy_refused shows realloc n b fits (Bool.eq_false_iff.mpr refused) grows⟩
  · exact ⟨_, _, extendBy_tooLong shows realloc n b (Nat.le_of_not_lt fits)⟩

/-- An extension keeps the count. -/
theorem extendBy_counts (shows : self.Shows bits) (realloc : Bool) (n : UInt32) (b : Bool)
    (nOne : self.primitiveNOne.toNat = bits.count true) :
    ∃ outcome self' bits', pyBitvectorExtendBy realloc self n b = .ok (outcome, self') ∧
      self'.Shows bits' ∧ self'.primitiveNOne.toNat = bits'.count true := by
  by_cases grows : self.Grows realloc n
  · obtain ⟨fits, served⟩ := (shows.grows_iff realloc n).mp grows
    obtain ⟨self', done, shows', -, -⟩ := extendBy_done shows realloc n b fits served
    refine ⟨_, self', _, done, shows', ?_⟩
    rw [extendBy_nOne done, List.count_append, List.count_replicate]
    cases b with
    | false => simpa using nOne
    | true =>
        have bound := n.toNat_lt
        have few := shows.count_lt
        rw [if_pos rfl, UInt64.toNat_add, UInt32.toNat_toUInt64, nOne, beq_self_eq_true, if_pos rfl]
        omega
  · obtain ⟨exception, message, raised⟩ := extendBy_raises shows b grows
    exact ⟨_, self, bits, raised, shows, nOne⟩

/-! ## Bulk appends -/

theorem appendBulk_outcome (shows : self.Shows bits) {realloc : Bool} {operand : BulkOperand}
    {outcome : PyOutcome} (ran : pyBitvectorAppendBulk realloc self operand = .ok (outcome, self')) :
    self'.primitiveNOne = self.primitiveNOne ∧
      (outcome = .none ↔ self.Grows realloc (operand.length self)) := by
  by_cases grows : self.Grows realloc (operand.length self)
  · obtain ⟨fits, served⟩ := (shows.grows_iff realloc _).mp grows
    obtain ⟨extended, done, -⟩ := extendBy_done shows realloc _ false fits served
    rw [appendBulk_extended operand done] at ran
    obtain ⟨memory, -, returned⟩ := bind_eq_ok.mp ran
    cases returned
    exact ⟨extendBy_nOne done, iff_of_true rfl grows⟩
  · obtain ⟨exception, message, raised⟩ := extendBy_raises shows false grows
    rw [appendBulk_stops operand raised] at ran
    cases ran
    exact ⟨rfl, iff_of_false nofun grows⟩

/-- `append_bulk` leaves the count as it was, and so keeps it right when the bits appended
are clear. -/
theorem appendBulk_counts {step : BitvectorStep} {operand : BulkOperand} {more : List Bool}
    {outcome : PyOutcome} (shows : self.Shows bits)
    (nOne : self.primitiveNOne.toNat = bits.count true)
    (onList : step.op.onList bits = listExtend bits more)
    (size : more.length = (operand.length self).toNat)
    (clear : operand.Clear self ↔ true ∉ more)
    (ran : pyBitvectorAppendBulk step.realloc self operand = .ok (outcome, self'))
    (agrees : step.Matches self bits outcome self' bits') :
    self'.primitiveNOne.toNat = bits'.count true ↔
      (self.Grows step.realloc (operand.length self) → operand.Clear self) := by
  obtain ⟨same, went⟩ := appendBulk_outcome shows ran
  rw [same, nOne]
  cases agrees with
  | does done =>
      rw [onList, listExtend] at done
      split at done
      · cases done
        rw [List.count_append, clear, ← List.count_eq_zero]
        have grows := went.mp rfl
        constructor
        · intro total _
          omega
        · intro none
          rw [none grows, Nat.add_zero]
      · cases done
  | fails fails =>
      refine iff_of_true rfl fun grows => ?_
      rw [onList, listExtend, size, if_pos ((shows.grows_iff _ _).mp grows).1] at fails
      cases fails
  | refused refused => exact iff_of_true rfl fun grows => by cases went.mpr grows

theorem selfClear_iff (shows : self.Shows bits) :
    BulkOperand.self.Clear self ↔ true ∉ bits := by
  constructor
  · intro clear mem
    obtain ⟨i, less, isSet⟩ := List.getElem_of_mem mem
    have inside : i < self.primitiveNBits.toNat := by rw [shows.length]; exact less
    have read := clear i inside
    rw [BulkOperand.isSet, shows.items i less, isSet] at read
    cases read
  · intro none i less
    have inside : i < bits.length := by rw [← shows.length]; exact less
    rw [BulkOperand.isSet, shows.items i inside]
    refine congrArg Except.ok (Bool.eq_false_iff.mpr fun isSet => none ?_)
    rw [← isSet]
    exact List.getElem_mem inside

theorem otherClear_iff {nItems : UInt32} {isSet : Nat → Bool} :
    (BulkOperand.other nItems isSet).Clear self ↔ true ∉ (List.range nItems.toNat).map isSet := by
  simp only [BulkOperand.Clear, BulkOperand.length, BulkOperand.isSet, Except.ok.injEq, List.mem_map,
    List.mem_range, not_exists, not_and, Bool.not_eq_true]

/-! ## Single bits -/

theorem count_set_bit {i : Nat} (less : i < bits.length) (b : Bool) :
    (bits.set i b).count true + bits[i].toNat = bits.count true + b.toNat := by
  have present : bits[i] = true → 0 < bits.count true := fun isSet =>
    List.count_pos_iff.mpr (isSet ▸ List.getElem_mem less)
  rw [List.count_set less]
  cases was : bits[i] with
  | false => cases b <;> simp
  | true =>
      have positive := present was
      cases b <;> simp <;> omega

/-- `pop` leaves the count as it was, and so keeps it right when the bit was clear. -/
theorem pop_counts {step : BitvectorStep} {outcome : PyOutcome} (shows : self.Shows bits)
    (nOne : self.primitiveNOne.toNat = bits.count true) (op : step.op = .pop)
    (ran : pyBitvectorPop self = .ok (outcome, self'))
    (agrees : step.Matches self bits outcome self' bits') :
    self'.primitiveNOne.toNat = bits'.count true ↔
      ∀ i, self.primitiveNBits.toNat = i + 1 → pyBmIsSet self.primitiveBits i = .ok false := by
  have onList : step.op.onList bits = bits.getLast?.map fun b => (.bool b, bits.dropLast) := by
    rw [op]
    rfl
  have same : self'.primitiveNOne = self.primitiveNOne := by
    rw [pyBitvectorPop] at ran
    split at ran
    · cases ran
      rfl
    · obtain ⟨isSet, -, returned⟩ := bind_eq_ok.mp ran
      cases returned
      rfl
  rw [same, nOne, shows.length]
  rcases List.eq_nil_or_concat bits with rfl | ⟨init, last, rfl⟩
  · have unchanged : bits' = [] := by
      cases agrees with
      | does done =>
          rw [onList] at done
          cases done
      | fails => rfl
      | refused => rfl
    rw [unchanged]
    exact iff_of_true rfl fun n length => absurd length (Nat.succ_ne_zero n).symm
  · have item : pyBmIsSet self.primitiveBits init.length = .ok last := by
      rw [shows.items init.length (by simp)]
      simp
    rw [List.concat_eq_append] at onList agrees ⊢
    rw [List.getLast?_concat, List.dropLast_concat, Option.map_some] at onList
    have popped : bits' = init := by
      cases agrees with
      | does done =>
          rw [onList] at done
          cases done
          rfl
      | fails fails =>
          rw [onList] at fails
          cases fails
      | refused =>
          rw [pyBitvectorPop] at ran
          split at ran
          · simp at ran
          · obtain ⟨isSet, -, returned⟩ := bind_eq_ok.mp ran
            cases returned
    rw [popped, List.count_append, List.length_append]
    constructor
    · intro total i size
      have place : i = init.length := (Nat.succ.inj size).symm
      rw [place, item]
      cases last with
      | false => rfl
      | true => simp at total
    · intro clear
      have isClear := clear init.length rfl
      rw [item, Except.ok.injEq] at isClear
      rw [isClear]
      rfl

/-- An assignment keeps the count. -/
theorem assSubscript_counts (shows : self.Shows bits)
    (nOne : self.primitiveNOne.toNat = bits.count true) (item : Int) (value : PyItem) :
    ∃ outcome self' bits', pyBitvectorAssSubscript self item value = .ok (outcome, self') ∧
      self'.Shows bits' ∧ self'.primitiveNOne.toNat = bits'.count true := by
  have few := shows.count_lt
  rw [pyBitvectorAssSubscript]
  rcases checkIndex_cases shows item with ⟨i, less, -, checked⟩ | ⟨-, _, _, raised⟩
  · rw [checked]
    simp only [shows.items i less, ok_bind]
    have here : i / 8 < self.primitiveBits.length := by
      have := (shows_iff.mp shows).2.2.1
      omega
    rcases itemBit_cases value with ⟨b, -, stored⟩ | ⟨-, _, _, raised⟩
    · rw [stored]
      have total := count_set_bit less b
      cases b with
      | false =>
          simp only [bmReset_eq here, ok_bind]
          refine ⟨_, _, _, rfl, shows.put less false _, ?_⟩
          cases was : bits[i] with
          | false =>
              rw [was] at total
              rw [if_neg Bool.false_ne_true, nOne]
              exact total.symm
          | true =>
              rw [was] at total
              change _ + 1 = _ + 0 at total
              have one : (1 : UInt64) ≤ self.primitiveNOne := by
                rw [UInt64.le_iff_toNat_le, nOne]
                exact Nat.le_trans (Nat.le_add_left 1 _) (Nat.le_of_eq total)
              rw [if_pos rfl, UInt64.toNat_sub_of_le _ _ one, nOne]
              change bits.count true - 1 = _
              omega
      | true =>
          simp only [bmSet_eq here, ok_bind]
          refine ⟨_, _, _, rfl, shows.put less true _, ?_⟩
          cases was : bits[i] with
          | false =>
              rw [was] at total
              change _ + 0 = _ + 1 at total
              rw [if_neg Bool.false_ne_true, UInt64.toNat_add, nOne]
              change (bits.count true + 1) % 2 ^ 64 = _
              omega
          | true =>
              rw [was] at total
              rw [if_pos rfl, nOne]
              exact Nat.add_right_cancel total.symm
    · rw [raised]
      exact ⟨_, self, bits, rfl, shows, nOne⟩
  · rw [raised]
    exact ⟨_, self, bits, rfl, shows, nOne⟩

theorem subscript_keeps {outcome : PyOutcome} {item : Int}
    (ran : pyBitvectorSubscript self item = .ok (outcome, self')) : self' = self := by
  rw [pyBitvectorSubscript] at ran
  split at ran
  · cases ran
    rfl
  · obtain ⟨isSet, -, returned⟩ := bind_eq_ok.mp ran
    cases returned
    rfl

/-! ## Copies -/

theorem countOnes_eq {memory : List UInt8} {n : Nat} (inside : n ≤ 8 * memory.length)
    (few : n < 2 ^ 32) : ∃ nOne, countOnes memory n = .ok nOne ∧
      nOne.toNat = ((List.range n).map (bit memory)).count true := by
  induction n with
  | zero => exact ⟨0, rfl, rfl⟩
  | succ n ih =>
      obtain ⟨nOne, counted, total⟩ := ih (by omega) (by omega)
      have most := List.count_le_length (a := true) (l := (List.range n).map (bit memory))
      rw [List.length_map, List.length_range] at most
      rw [countOnes] at counted ⊢
      rw [foldlM_range_succ, counted, ok_bind, pyBmIsSet_eq (by omega), ok_bind, List.range_succ,
        List.map_append, List.count_append]
      refine ⟨_, rfl, ?_⟩
      cases isSet : bit memory n with
      | false => simpa [isSet] using total
      | true =>
          rw [if_pos rfl, UInt64.toNat_add, total]
          change (_ + 1) % 2 ^ 64 = _
          rw [List.map_singleton, isSet, Nat.mod_eq_of_lt (by omega)]
          rfl

theorem ofBits_counts (object : Bool) {nBits : UInt32} {memory : List UInt8}
    (size : memory.length = iceil nBits.toNat 8) :
    ∃ outcome made, pyBitvectorOfBits object nBits memory = .ok (outcome, made) ∧
      ∀ vector, made = some vector → ∃ bits,
        vector.Shows bits ∧ vector.primitiveNOne.toNat = bits.count true := by
  have bound := nBits.toNat_lt
  have inside : nBits.toNat ≤ 8 * memory.length := size ▸ iceil_le.mp (Nat.le_refl _)
  have need : iceil nBits.toNat 8 ≤ 2 ^ 29 := iceil_le.mpr (by omega)
  rw [pyBitvectorOfBits]
  cases object with
  | false => exact ⟨_, _, rfl, nofun⟩
  | true =>
      obtain ⟨nOne, counted, total⟩ := countOnes_eq inside bound
      rw [counted]
      refine ⟨_, _, rfl, fun vector isVector => ?_⟩
      cases isVector
      refine ⟨(List.range nBits.toNat).map (bit memory), shows_iff.mpr ⟨?_, ?_, ?_, ?_⟩, total⟩
      · rw [size, UInt32.toNat_ofNat', Nat.mod_eq_of_lt (by omega)]
      · rw [List.length_map, List.length_range]
      · rw [List.length_map, List.length_range]
        exact inside
      · intro i less
        rw [List.getElem_map, List.getElem_range]

theorem fileBits_length {p : OpenFile} {v : Value} {nBits : UInt32} {nBytes : Nat}
    {memory : List UInt8} (read : fileBits p v nBits nBytes = .ok memory) :
    memory.length = nBytes := by
  rw [fileBits] at read
  split at read
  · obtain ⟨buffer, -, read⟩ := bind_eq_ok.mp read
    split at read
    case h_1 => cases read
    case h_2 sliced =>
      cases read
      obtain ⟨m, -, sliced⟩ := Option.bind_eq_some_iff.mp sliced
      rw [slice] at sliced
      split at sliced
      case isFalse => cases sliced
      case isTrue inside =>
        cases sliced
        rw [List.length_take, List.length_drop]
        omega
  · have kept : Post (fun memory : List UInt8 => memory.length = nBytes) (fun _ => True)
        ((List.range nBits.toNat).foldlM (fun bits i => do
          let isSet ← readerBitvectorIsSet p v i
          if isSet then bmSet bits i else pure bits) (List.replicate nBytes 0)) := by
      refine Post.foldlM List.length_replicate fun bits size i _ => ?_
      refine Post.bind (post_true _) fun isSet _ _ => ?_
      split
      · rw [bmSet]
        split
        · rw [← size]
          exact List.length_set
        · exact trivial
      · exact size
    exact kept.of_ok read

theorem copy_counts (shows : self.Shows bits) (nOne : self.primitiveNOne.toNat = bits.count true)
    (calloc object : Bool) :
    ∃ outcome self' bits', (CountStep.copy calloc object).run self = .ok (outcome, self') ∧
      self'.Shows bits' ∧ self'.primitiveNOne.toNat = bits'.count true := by
  rw [CountStep.run, pyBitvectorCopy]
  cases calloc with
  | false => exact ⟨_, self, bits, rfl, shows, nOne⟩
  | true =>
      obtain ⟨-, length, inside, -⟩ := shows_iff.mp shows
      have room : 0 + iceil self.primitiveNBits.toNat 8 ≤ self.primitiveBits.length := by
        rw [Nat.zero_add, length]
        exact iceil_le.mpr inside
      rw [slice_eq_some room, List.drop_zero]
      have size : (self.primitiveBits.take (iceil self.primitiveNBits.toNat 8)).length
          = iceil self.primitiveNBits.toNat 8 := by
        rw [List.length_take]
        omega
      obtain ⟨outcome, made, done, counted⟩ := ofBits_counts object size
      cases made with
      | none => exact ⟨outcome, self, bits, by simp [done], shows, nOne⟩
      | some vector =>
          obtain ⟨bits', shows', nOne'⟩ := counted vector rfl
          exact ⟨outcome, vector, bits', by simp [done], shows', nOne'⟩

/-! ## Steps and runs -/

theorem extend_counts (shows : self.Shows bits) (nOne : self.primitiveNOne.toNat = bits.count true)
    (realloc : Bool) (n : Int32) (b : Bool) :
    ∃ outcome self' bits', pyBitvectorExtend realloc self n b = .ok (outcome, self') ∧
      self'.Shows bits' ∧ self'.primitiveNOne.toNat = bits'.count true := by
  rw [pyBitvectorExtend]
  split
  · exact ⟨_, self, bits, rfl, shows, nOne⟩
  · split
    · exact ⟨_, self, bits, rfl, shows, nOne⟩
    · exact extendBy_counts shows realloc _ b nOne

theorem CountStep.KeepsOnes.runs (shows : self.Shows bits) {step : BitvectorStep}
    (keeps : (CountStep.op step).KeepsOnes self) :
    ∃ outcome self', step.run self = .ok (outcome, self') := by
  have fits : step.Fits self := by
    obtain ⟨op, realloc⟩ := step
    cases op with
    | appendBulk operand =>
        cases operand with
        | self =>
            intro fits served h less isSet
            have clear := keeps ⟨fits, served⟩ h less
            rw [BulkOperand.isSet, isSet] at clear
            cases clear
        | other nItems isSet => exact trivial
    | _ => exact trivial
  obtain ⟨outcome, self', bits', ran, -, -⟩ := (step_iff shows step).1 fits
  exact ⟨outcome, self', ran⟩

/-- A step that returns keeps the count exactly when it keeps the ones. -/
theorem step_counts_iff {step : CountStep} {outcome : PyOutcome} (shows : self.Shows bits)
    (nOne : self.primitiveNOne.toNat = bits.count true)
    (ran : step.run self = .ok (outcome, self')) :
    ∃ bits', self'.Shows bits' ∧
      (self'.primitiveNOne.toNat = bits'.count true ↔ step.KeepsOnes self) := by
  have always {x : Res (PyOutcome × PyPointlessBitvector)} (same : step.run self = x)
      (holds : step.KeepsOnes self)
      (counts : ∃ outcome self' bits', x = .ok (outcome, self') ∧ self'.Shows bits' ∧
        self'.primitiveNOne.toNat = bits'.count true) :
      ∃ bits', self'.Shows bits' ∧
        (self'.primitiveNOne.toNat = bits'.count true ↔ step.KeepsOnes self) := by
    obtain ⟨outcome', self'', bits', done, shows', nOne'⟩ := counts
    rw [ran, done] at same
    cases same
    exact ⟨bits', shows', iff_of_true nOne' holds⟩
  cases step with
  | copy calloc object => exact always rfl trivial (copy_counts shows nOne calloc object)
  | op step =>
      obtain ⟨goes, fits⟩ := step_iff shows step
      obtain ⟨outcome', self'', bits', ran', agrees, shows'⟩ := goes (fits _ ran)
      have same : step.run self = .ok (outcome, self') := ran
      rw [same] at ran'
      cases ran'
      obtain ⟨op, realloc⟩ := step
      cases op with
      | append v => exact always rfl trivial (extendBy_counts shows realloc 1 v nOne)
      | extendTrue n => exact always rfl trivial (extend_counts shows nOne realloc n true)
      | extendFalse n => exact always rfl trivial (extend_counts shows nOne realloc n false)
      | appendBulk operand =>
          refine ⟨bits', shows', ?_⟩
          cases operand with
          | self =>
              exact appendBulk_counts shows nOne rfl shows.length.symm (selfClear_iff shows) same
                agrees
          | other nItems isSet =>
              exact appendBulk_counts shows nOne rfl (by simp [BulkOperand.length]) otherClear_iff
                same agrees
      | pop => exact ⟨bits', shows', pop_counts shows nOne rfl same agrees⟩
      | assSubscript item value =>
          exact always rfl trivial (assSubscript_counts shows nOne item value)
      | subscript item =>
          have unchanged := subscript_keeps same
          rw [unchanged]
          exact ⟨bits, shows, iff_of_true nOne trivial⟩

/-- The run lemma, from any vector with a right count. -/
theorem keepsCount_iff (shows : self.Shows bits)
    (nOne : self.primitiveNOne.toNat = bits.count true) (steps : List CountStep) :
    KeepsCount self steps ↔ OnesKept self steps := by
  induction steps generalizing self bits with
  | nil => exact iff_of_true (shows.counts_iff.mpr nOne) trivial
  | cons step rest ih =>
      constructor
      · rintro ⟨-, outcome, self', ran, after⟩
        obtain ⟨bits', shows', exact_⟩ := step_counts_iff shows nOne ran
        have counts : self'.Counts := by
          cases rest with
          | nil => exact after
          | cons _ _ => exact after.1
        have nOne' := shows'.counts_iff.mp counts
        refine ⟨exact_.mp nOne', fun outcome₂ self₂ ran₂ => ?_⟩
        rw [ran] at ran₂
        cases ran₂
        exact (ih shows' nOne').mp after
      · rintro ⟨keeps, after⟩
        obtain ⟨outcome, self', ran⟩ : ∃ outcome self', step.run self = .ok (outcome, self') := by
          cases step with
          | op step => exact keeps.runs shows
          | copy calloc object =>
              obtain ⟨outcome, self', -, ran, -⟩ := copy_counts shows nOne calloc object
              exact ⟨outcome, self', ran⟩
        obtain ⟨bits', shows', exact_⟩ := step_counts_iff shows nOne ran
        exact ⟨shows.counts_iff.mpr nOne, outcome, self', ran,
          (ih shows' (exact_.mpr keeps)).mpr (after _ _ ran)⟩

/-! ## Construction -/

/-- The loop over a sequence keeps the count. -/
theorem initLoop_counts {realloc : Nat → Bool} {items : List PyItem} {before : List Bool}
    (shows : self.Shows before) (nOne : self.primitiveNOne.toNat = before.count true)
    (made : pyBitvectorInitLoop realloc before.length items self = .ok (.none, self'))
    (same : items.mapM PyItem.bit = some bits) :
    self'.primitiveNOne.toNat = (before ++ bits).count true := by
  induction items generalizing self before bits with
  | nil =>
      cases made
      cases same
      rw [List.reverse_nil, List.append_nil]
      exact nOne
  | cons obj rest ih =>
      obtain ⟨b, bits', isBit, others, rfl⟩ := mapM_bit_cons same
      obtain ⟨next, shows', counted, made'⟩ := initLoop_cons shows made isBit
      have kept : next.primitiveNOne.toNat = (before ++ [b]).count true := by
        rw [counted, List.count_append]
        cases b with
        | false => exact nOne
        | true =>
            have few := shows.count_lt
            rw [if_pos rfl, UInt64.toNat_add, nOne]
            change (before.count true + 1) % 2 ^ 64 = before.count true + 1
            omega
      rw [show before ++ b :: bits' = (before ++ [b]) ++ bits' by simp]
      exact ih shows' kept made' others

theorem PyPointlessBitvector.Built.nOne (built : self.Built bits) :
    self.primitiveNOne.toNat = bits.count true := by
  cases built with
  | sequence made same => exact initLoop_counts new_shows rfl made same
  | @size calloc size self made =>
      have zero : self.primitiveNOne = 0 := by
        rw [pyBitvectorInitSize] at made
        split at made
        · cases made
        · split at made
          · cases made
          · dsimp only at made
            split at made
            · cases made
            · cases made
              rfl
      rw [zero, List.count_replicate]
      rfl

theorem PyPointlessBitvector.Made.counts (made : self.Made) :
    ∃ bits, self.Shows bits ∧ self.primitiveNOne.toNat = bits.count true := by
  cases made with
  | built built => exact ⟨_, built.shows, built.nOne⟩
  | @copied calloc object p v self copied =>
      rw [pyBitvectorCopyFile] at copied
      obtain ⟨nBits, -, copied⟩ := bind_eq_ok.mp copied
      split at copied
      · cases copied
      · obtain ⟨memory, read, copied⟩ := bind_eq_ok.mp copied
        obtain ⟨outcome, made, done, counted⟩ := ofBits_counts object (fileBits_length read)
        rw [copied] at done
        cases done
        exact counted self rfl

end Counting

/-- A bitvector keeps the count of its bits along a run exactly when no step of the run
appends set bits in bulk or pops a set bit. -/
theorem bitvector_keepsCount {self : PyPointlessBitvector} (made : self.Made)
    (steps : List CountStep) : KeepsCount self steps ↔ OnesKept self steps := by
  obtain ⟨bits, shows, nOne⟩ := made.counts
  exact keepsCount_iff shows nOne steps

/-- The vector of one `True`. -/
def oneTrue : PyPointlessBitvector := ⟨1, [1], 1, 1⟩

/-- A `True` that is cleared before it is popped. -/
theorem bitvector_keepsCount_cleared :
    let steps : List CountStep :=
      [.op ⟨.assSubscript 0 (.bool false), true⟩, .copy true true, .op ⟨.pop, true⟩]
    oneTrue.Made ∧ (KeepsCount oneTrue steps ↔ OnesKept oneTrue steps) := by
  have made : oneTrue.Made := .built (.sequence
    (by decide : pyBitvectorInitSequence (fun _ => true) [.bool true] = .ok (.none, oneTrue)) rfl)
  exact ⟨made, bitvector_keepsCount made _⟩

/-- After its only `True` has been popped, the vector still counts it. -/
theorem poppedTrue_counted : ¬∀ self : PyPointlessBitvector, self.Made →
    ∀ steps, KeepsCount self steps := by
  intro keeps
  have made : oneTrue.Made := .built (.sequence
    (by decide : pyBitvectorInitSequence (fun _ => true) [.bool true] = .ok (.none, oneTrue)) rfl)
  obtain ⟨-, outcome, self', ran, counts⟩ := keeps oneTrue made [.op ⟨.pop, true⟩]
  have popped : CountStep.run oneTrue (.op ⟨.pop, true⟩) = .ok (.bool true, ⟨0, [1], 1, 1⟩) := by
    decide
  rw [popped] at ran
  cases ran
  cases counts.nOne

end Pointless
