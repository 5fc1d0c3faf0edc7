import Pointless.Lib.Overflow
import Pointless.Sound

/-!
# Sizes

The numbers that track overflow, of each width, and the size checks of the validator that
are made with them. `sizeChecks_exact`: a check passes exactly when the object, with its
exact size, ends inside the heap.
-/

namespace Pointless

open ByteMemory ExceptRules Overflow

/-! ## The other widths -/

/-- `intop_u32_t`. -/
abbrev IntopU32 := Tracked 32

/-- `intop_u32_init`. -/
def intopU32Init (v : UInt32) : IntopU32 := .init v.toBitVec

/-- `intop_u32_add`. -/
def intopU32Add (a b : IntopU32) : IntopU32 := a.add b

/-- `uintop_32_mult`, which the header declares as `intop_u32_mult`. -/
def uintop32Mult (a b : IntopU32) : IntopU32 := a.mult b

/-- `intop_sizet_t`, with a `size_t` of 64 bits. -/
abbrev IntopSizet := Tracked 64

/-- `intop_sizet_init`. -/
def intopSizetInit (v : UInt64) : IntopSizet := .init v.toBitVec

/-- `intop_sizet_add`. -/
def intopSizetAdd (a b : IntopSizet) : IntopSizet := a.add b

/-- `intop_sizet_mult`. -/
def intopSizetMult (a b : IntopSizet) : IntopSizet := a.mult b

/-! ## Expressions -/

/-- An expression of the `intop_u64_*` functions over initialized numbers. -/
def evalU64 (e : Arith UInt64) : IntopU64 := e.fold intopU64Init intopU64Add intopU64Mult

/-- An expression of the `intop_sizet_*` functions. -/
def evalSizet (e : Arith UInt64) : IntopSizet := e.fold intopSizetInit intopSizetAdd intopSizetMult

/-- An expression of the `intop_u32_*` functions. -/
def evalU32 (e : Arith UInt32) : IntopU32 := e.fold intopU32Init intopU32Add uintop32Mult

/-- An `intop_u64_t` as a tracked number. -/
def IntopU64.tracked (x : IntopU64) : Tracked 64 := ⟨x.isOverflow, x.value.toBitVec⟩

theorem tracked_add (a b : IntopU64) :
    (intopU64Add a b).tracked = a.tracked.add b.tracked := by
  unfold intopU64Add Tracked.add
  split
  case isTrue => exact (if_pos ‹_›).symm
  case isFalse clear =>
    exact (if_neg clear).symm

theorem tracked_limit (u v : UInt64) : (u ≠ 0 ∧ 0xffffffffffffffff / u < v) ↔
    (u.toBitVec ≠ 0 ∧ BitVec.allOnes 64 / u.toBitVec < v.toBitVec) := by
  have zero : u = 0 ↔ u.toBitVec = 0 := UInt64.toBitVec_inj.symm
  rw [ne_eq, zero, UInt64.lt_iff_toBitVec_lt, UInt64.toBitVec_div]
  exact Iff.rfl

theorem tracked_mult (a b : IntopU64) :
    (intopU64Mult a b).tracked = a.tracked.mult b.tracked := by
  have limit := tracked_limit a.value b.value
  have limit' := tracked_limit b.value a.value
  unfold intopU64Mult Tracked.mult
  split
  case isTrue flagged =>
    rw [limit, limit'] at flagged
    exact (if_pos flagged).symm
  case isFalse clear =>
    rw [limit, limit'] at clear
    exact (if_neg clear).symm

theorem tracked_evalU64 (e : Arith UInt64) :
    (evalU64 e).tracked = e.fold (fun v => .init v.toBitVec) .add .mult :=
  e.fold_hom (fun _ => rfl) tracked_add tracked_mult

/-! ## Size checks -/

section Checks

variable {p : OpenFile} {v : Value}

theorem requireHeap_iff (narrow : p.heap.length < 2 ^ 64) (offset nBytes : UInt64) :
    requireHeap p offset nBytes = true ↔ offset.toNat + nBytes.toNat ≤ p.heap.length := by
  constructor
  · exact requireHeap_inside
  · intro inside
    unfold requireHeap
    simp only [Bool.and_eq_true, Bool.not_eq_true', decide_eq_true_eq]
    rcases intopU64Add_is (intopU64Init_is offset) (intopU64Init_is nBytes) with
      ⟨clear, sum⟩ | ⟨-, large⟩
    · exact ⟨clear, by rw [sum]; exact inside⟩
    · omega

theorem requireBody_iff (narrow : p.heap.length < 2 ^ 64) (offset itemLen count : UInt64) :
    requireBody p offset itemLen count = true ↔
      offset.toNat + (4 + itemLen.toNat * count.toNat) ≤ p.heap.length := by
  constructor
  · exact requireBody_inside
  · intro inside
    unfold requireBody
    simp only [Bool.and_eq_true, Bool.not_eq_true']
    have size := intopU64Add_is (intopU64Init_is 4) (intopU64Mult_is (a := itemLen) (b := count))
    rcases size with ⟨clear, sum⟩ | ⟨-, large⟩
    · refine ⟨clear, (requireHeap_iff narrow _ _).mpr ?_⟩
      rw [sum]
      exact inside
    · change 2 ^ 64 ≤ 4 + itemLen.toNat * count.toNat at large
      omega

theorem pcOffset_lt {offsets : List UInt64} {i : UInt32} {off : Nat}
    (read : pcOffset offsets i = .ok off) : off < 2 ^ 64 := by
  unfold pcOffset at read
  split at read
  · cases read
    exact UInt64.toNat_lt _
  · cases read

/-- The object at `off` is a count and as many items of `itemLen` bytes as it says, and
`more`. -/
def BodyFits (p : OpenFile) (off itemLen more : Nat) : Prop :=
  ∃ n, loadU32 p.heap off = .ok n ∧ off + (4 + itemLen * (n.toNat + more)) ≤ p.heap.length

/-- A count is read where the header check passes. -/
theorem headerFits_iff (narrow : p.heap.length < 2 ^ 64) {off : Nat} (small : off < 2 ^ 64) :
    requireHeap p (.ofNat off) 4 = true ↔ ∃ n, loadU32 p.heap off = .ok n := by
  rw [requireHeap_iff narrow, toNat_ofNat_offset small]
  constructor
  · exact loadU32_inside
  · intro read
    obtain ⟨n, read⟩ := read
    obtain ⟨word, loaded, -⟩ := map_eq_ok.mp read
    have found : (load 4 p.heap off).isSome := by
      rw [loadWord_eq_ok.mp loaded, Option.isSome_some]
    exact load_isSome_iff.mp found

/-- Both size checks pass exactly when the body fits. -/
theorem sized_cases (narrow : p.heap.length < 2 ^ 64) {off itemLen more : Nat}
    (small : off < 2 ^ 64) {l r : UInt32 → UInt64}
    (size : ∀ n, (l n).toNat * (r n).toNat = itemLen * (n.toNat + more))
    {header body : String} {rest : UInt32 → Res Unit} {check : Res Unit}
    (is : check = if ¬requireHeap p (.ofNat off) 4 then fail header else do
      let n ← loadU32 p.heap off
      if ¬requireBody p (.ofNat off) (l n) (r n) then fail body else rest n) :
    (BodyFits p off itemLen more → ∃ n, check = rest n) ∧
      (¬BodyFits p off itemLen more → check = fail header ∨ check = fail body) := by
  have passes : ∀ n, requireBody p (.ofNat off) (l n) (r n) = true ↔
      off + (4 + itemLen * (n.toNat + more)) ≤ p.heap.length := by
    intro n
    rw [requireBody_iff narrow, toNat_ofNat_offset small, size]
  have start := headerFits_iff narrow small
  constructor
  · intro fits
    obtain ⟨n, read, inside⟩ := fits
    refine ⟨n, ?_⟩
    rw [is, if_neg (not_not.mpr (start.mpr ⟨n, read⟩)), read, ok_bind,
      if_neg (not_not.mpr ((passes n).mpr inside))]
  · intro large
    rcases Bool.eq_false_or_eq_true (requireHeap p (.ofNat off) 4) with found | missing
    · obtain ⟨n, read⟩ := start.mp found
      have past : ¬requireBody p (.ofNat off) (l n) (r n) = true :=
        fun inside => large ⟨n, read, (passes n).mp inside⟩
      refine Or.inr ?_
      rw [is, if_neg (not_not.mpr found), read, ok_bind, if_pos past]
    · refine Or.inl ?_
      rw [is, if_pos (by rw [missing]; exact Bool.false_ne_true)]

/-- The errors of the character loop are not those of the size checks. -/
theorem validateTerminator_error {w start len : Nat} {premature missing message : String}
    (other : premature ≠ message) (other' : missing ≠ message) :
    validateTerminator p w start len premature missing ≠ fail message := by
  have load : ∀ off, Post (fun _ => True) (fun e => e ≠ Stop.error message)
      (loadWord w p.heap off) := by
    intro off
    unfold loadWord
    split
    · exact trivial
    · exact fun bad => by cases bad
  have failed : ∀ {text : String}, text ≠ message →
      Post (fun _ => True) (fun e => e ≠ Stop.error message) (fail text : Res Unit) := by
    intro text differ same
    cases same
    exact differ rfl
  have each : ∀ i ∈ List.range len, Post (fun _ => True) (fun e => e ≠ Stop.error message) (do
      let c ← loadWord w p.heap (start + w * i)
      if c = 0 then fail premature else pure ()) := by
    refine fun i _ => Post.bind (load _) fun c _ _ => ?_
    split
    · exact failed other
    · exact trivial
  have all : Post (fun _ => True) (fun e => e ≠ Stop.error message)
      (validateTerminator p w start len premature missing) := by
    refine Post.bind (Post.forM each) fun _ _ _ => Post.bind (load _) fun c _ _ => ?_
    split
    · exact failed other'
    · exact trivial
  intro same
  rw [same] at all
  exact all rfl

/-- The size checks accept exactly the objects that end inside the heap. -/
structure SizeChecksExact (p : OpenFile) : Prop where
  requireHeap : ∀ offset nBytes, requireHeap p offset nBytes = true ↔
    offset.toNat + nBytes.toNat ≤ p.heap.length
  vector : ∀ v off, pcOffset p.vectorOffsets v.data = .ok off →
    (validateVectorHeap p v = .ok () ↔ BodyFits p off (vectorHeapItemLen v.type) 0)
  unicode : ∀ v off, pcOffset p.stringUnicodeOffsets v.data = .ok off →
    (validateUnicodeHeap p v ≠ fail "unicode too large for heap" ↔ BodyFits p off 4 1)
  string : ∀ v off, pcOffset p.stringUnicodeOffsets v.data = .ok off →
    (validateStringHeap p v ≠ fail "string too large for heap" ∧
      validateStringHeap p v ≠ fail "unicode too large for heap" ↔ BodyFits p off 1 1)

theorem validateVectorHeap_iff (narrow : p.heap.length < 2 ^ 64) {off : Nat}
    (offset : pcOffset p.vectorOffsets v.data = .ok off) :
    validateVectorHeap p v = .ok () ↔ BodyFits p off (vectorHeapItemLen v.type) 0 := by
  have small : vectorHeapItemLen v.type < 2 ^ 64 := by
    unfold vectorHeapItemLen vectorItemLen
    split <;> decide
  obtain ⟨accepts, rejects⟩ := sized_cases narrow (pcOffset_lt offset)
    (l := fun _ => .ofNat (vectorHeapItemLen v.type)) (r := fun n => n.toUInt64)
    (fun n => by rw [toNat_ofNat_offset small, UInt32.toNat_toUInt64, Nat.add_zero])
    (show validateVectorHeap p v = _ by rw [validateVectorHeap, offset, ok_bind])
  constructor
  · intro passed
    by_contra large
    rw [passed] at rejects
    rcases rejects large with bad | bad <;> cases bad
  · intro fits
    obtain ⟨n, result⟩ := accepts fits
    exact result

theorem validateUnicodeHeap_iff (narrow : p.heap.length < 2 ^ 64) {off : Nat}
    (offset : pcOffset p.stringUnicodeOffsets v.data = .ok off) :
    validateUnicodeHeap p v ≠ fail "unicode too large for heap" ↔ BodyFits p off 4 1 := by
  obtain ⟨accepts, rejects⟩ := sized_cases narrow (pcOffset_lt offset)
    (l := fun n => n.toUInt64 + 1) (r := fun _ => 4)
    (fun n => by rw [toNat_succ_u32]; exact Nat.mul_comm _ _)
    (show validateUnicodeHeap p v = _ by rw [validateUnicodeHeap, offset, ok_bind])
  constructor
  · intro passed
    by_contra large
    rcases rejects large with failed | failed <;> exact passed failed
  · intro fits
    obtain ⟨n, result⟩ := accepts fits
    rw [result]
    exact validateTerminator_error (by decide) (by decide)

theorem validateStringHeap_iff (narrow : p.heap.length < 2 ^ 64) {off : Nat}
    (offset : pcOffset p.stringUnicodeOffsets v.data = .ok off) :
    validateStringHeap p v ≠ fail "string too large for heap" ∧
      validateStringHeap p v ≠ fail "unicode too large for heap" ↔ BodyFits p off 1 1 := by
  obtain ⟨accepts, rejects⟩ := sized_cases narrow (pcOffset_lt offset)
    (l := fun n => n.toUInt64 + 1) (r := fun _ => 1)
    (fun n => by rw [toNat_succ_u32]; exact Nat.mul_comm _ _)
    (show validateStringHeap p v = _ by rw [validateStringHeap, offset, ok_bind])
  constructor
  · intro passed
    by_contra large
    rcases rejects large with failed | failed
    · exact passed.1 failed
    · exact passed.2 failed
  · intro fits
    obtain ⟨n, result⟩ := accepts fits
    rw [result]
    exact ⟨validateTerminator_error (by decide) (by decide),
      validateTerminator_error (by decide) (by decide)⟩

end Checks

/-- The flag of every expression is clear exactly when all of its parts fit, and its value is
then exact; so the size checks accept exactly the objects that end inside the heap. -/
theorem sizeChecks_exact :
    (∀ e : Arith UInt64, ((evalU64 e).isOverflow = false ↔ e.Fits UInt64.toNat (2 ^ 64)) ∧
      (e.Fits UInt64.toNat (2 ^ 64) → (evalU64 e).value.toNat = e.exact UInt64.toNat)) ∧
    (∀ e : Arith UInt64, ((evalSizet e).isOverflow = false ↔ e.Fits UInt64.toNat (2 ^ 64)) ∧
      (e.Fits UInt64.toNat (2 ^ 64) → (evalSizet e).value.toNat = e.exact UInt64.toNat)) ∧
    (∀ e : Arith UInt32, ((evalU32 e).isOverflow = false ↔ e.Fits UInt32.toNat (2 ^ 32)) ∧
      (e.Fits UInt32.toNat (2 ^ 32) → (evalU32 e).value.toNat = e.exact UInt32.toNat)) ∧
    ∀ p : OpenFile, p.heap.length < 2 ^ 64 → SizeChecksExact p := by
  refine ⟨fun e => ?_, fun e => ?_, fun e => ?_, fun p narrow => ?_⟩
  · have tracks := e.tracked_tracks UInt64.toBitVec
    rw [← tracked_evalU64] at tracks
    exact ⟨tracks.flag, tracks.value⟩
  · have tracks := e.tracked_tracks UInt64.toBitVec
    exact ⟨tracks.flag, tracks.value⟩
  · have tracks := e.tracked_tracks UInt32.toBitVec
    exact ⟨tracks.flag, tracks.value⟩
  · exact ⟨requireHeap_iff narrow, fun _ _ => validateVectorHeap_iff narrow,
      fun _ _ => validateUnicodeHeap_iff narrow, fun _ _ => validateStringHeap_iff narrow⟩

/-- A file with a vector of two items. -/
def twoItemsOpened : OpenFile :=
  ⟨⟨⟨.vectorU32, 0⟩, 0, 1, 0, 0, 0, 2⟩, [], [0], [], [], [], bytesU32 2 ++ bytesU32 7 ++ bytesU32 9⟩

theorem sizeChecks_exact_two : SizeChecksExact twoItemsOpened :=
  sizeChecks_exact.2.2.2 twoItemsOpened (by decide)

end Pointless
