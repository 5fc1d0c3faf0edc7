import Pointless.CreateKeys
import Pointless.HashTableCorrect
import Pointless.PassBounds
import Pointless.TableSound

/-!
# Probing comes to an end

The probe sequence visits every bucket, and so the loops that follow it come to the empty
bucket of their table: the search for a key (`hashTableProbePriv_ended`), the iteration over
the keys of a hash (`probeHash_ended`) and the insertion of a key (`populateFind_ended`),
of which building a table makes one for each key (`hashTablePopulate_ended`).
-/

namespace Pointless

open ExceptRules Fuel OpenAddressing

/-! ## The sequence -/

/-- The sequence of `i` and `perturb`: `i` in 32 bits, and what is left of the hash. -/
def probeSequence (hash : Nat) : Nat → Nat × Nat
  | 0 => (hash, hash)
  | t + 1 =>
      ((5 * (probeSequence hash t).1 + (probeSequence hash t).2 + 1) % 2 ^ 32,
        (probeSequence hash t).2 >>> 5)

/-- The loops go through the sequence. -/
theorem probeState_sequence (hash nBuckets : UInt32) (t : Nat) :
    (probeState hash nBuckets t).i.toNat = (probeSequence hash.toNat t).1 ∧
      (probeState hash nBuckets t).perturb.toNat = (probeSequence hash.toNat t).2 := by
  induction t with
  | zero => exact ⟨rfl, rfl⟩
  | succ t ih =>
      obtain ⟨position, rest⟩ := ih
      rw [probeState_succ, HashIterState.next, probeSequence]
      constructor
      · have shift : ((probeState hash nBuckets t).i <<< 2).toNat =
            (probeState hash nBuckets t).i.toNat * 4 % 2 ^ 32 := by
          rw [UInt32.toNat_shiftLeft]
          exact congrArg (· % 2 ^ 32) (Nat.shiftLeft_eq _ _)
        simp only [UInt32.toNat_add, UInt32.toNat_one, shift, position, rest]
        omega
      · rw [← rest]
        exact UInt32.toNat_shiftRight _ _

theorem probeSequence_path {k : Nat} (bound : k ≤ 31) (hash : UInt32) (t : Nat) :
    (probeSequence hash.toNat t).1 % 2 ^ k = probePath (.ofNat (2 ^ k)) hash t := by
  rw [probePath_eq_mod bound, (probeState_sequence hash (.ofNat (2 ^ k)) t).1]

/-! ## Comparisons come to an end -/

section Comparisons

theorem cmpSeq_ended {compare : Nat → Res Int} (each : ∀ i, Ended (compare i)) (last : Int)
    (indices : List Nat) : Ended (cmpSeq compare last indices) := by
  induction indices with
  | nil => exact trivial
  | cons i rest ih =>
      rw [cmpSeq]
      exact (each i).bind fun _ => Ended.ite trivial ih

theorem cmpString_ended (a b : List UInt32) : Ended (cmpString a b) := by
  induction a generalizing b with
  | nil => simp [cmpString, fault, Stop.Ended]
  | cons x rest ih =>
      cases b with
      | nil => simp [cmpString, fault, Stop.Ended]
      | cons y rest' =>
          rw [cmpString]
          exact Ended.ite (Ended.ite trivial (ih rest')) trivial

theorem cmpStringUnicode_ended (tA tB : ValueType) {a b : Res (List UInt8)} (readA : Ended a)
    (readB : Ended b) : Ended (cmpStringUnicode tA tB a b) :=
  Ended.ite (readA.bind fun _ => readB.bind fun _ => cmpString_ended _ _) trivial

theorem bmIsSet_ended (buffer : Ptr) (bit : Nat) : Ended (bmIsSet buffer bit) := by
  unfold bmIsSet
  split
  · simp [fault, Stop.Ended]
  · exact Ended.bind (Post.map (loadWord_ended _ _ _)) fun _ => trivial

theorem bitvectorNBits_ended (t : ValueType) (data : UInt32) (buffer : Ptr) :
    Ended (bitvectorNBits t data buffer) := by
  unfold bitvectorNBits
  split
  · split
    · simp [fault, Stop.Ended]
    · exact loadU32_ended _ _
  all_goals exact trivial

theorem bitvectorIsSet_ended (t : ValueType) (data : UInt32) (buffer : Ptr) (bit : Nat) :
    Ended (bitvectorIsSet t data buffer bit) := by
  unfold bitvectorIsSet bitvectorIsSetBits
  split <;> first | exact bmIsSet_ended _ _ | exact trivial

theorem bitvectorCmpBufferBuffer_ended (tA : ValueType) (dataA : UInt32) (bufferA : Ptr)
    (tB : ValueType) (dataB : UInt32) (bufferB : Ptr) :
    Ended (bitvectorCmpBufferBuffer tA dataA bufferA tB dataB bufferB) := by
  refine (bitvectorNBits_ended _ _ _).bind fun _ => (bitvectorNBits_ended _ _ _).bind fun _ => ?_
  refine cmpSeq_ended (fun _ => ?_) _ _
  exact (bitvectorIsSet_ended _ _ _ _).bind fun _ => (bitvectorIsSet_ended _ _ _ _).bind
    fun _ => post_ok.mpr trivial

theorem readerStringUnicodeValue_ended (p : OpenFile) (v : Value) :
    Ended (readerStringUnicodeValue p v) := (pcOffset_ended _ _).bind fun _ => trivial

theorem readerBitvectorPtr_ended (p : OpenFile) (v : Value) : Ended (readerBitvectorPtr p v) :=
  Ended.ite ((pcOffset_ended _ _).bind fun _ => trivial) trivial

theorem readerVectorBasePtr_ended (p : OpenFile) (v : Value) : Ended (readerVectorBasePtr p v) := by
  apply Ended.ite
  · simp [fault, Stop.Ended]
  · exact (pcOffset_ended _ _).bind fun _ => trivial

theorem readerVectorValueCase_ended (p : OpenFile) (v : Value) (i : Nat) :
    Ended (readerVectorValueCase p v i) := by
  have word : ∀ w, Ended (readerVectorWord p v w i) := fun w =>
    (readerVectorBasePtr_ended p v).bind fun _ => loadWord_ended _ _ _
  unfold readerVectorValueCase
  split <;> first
    | exact trivial
    | exact Post.map (readerVectorValue_ended p v i)
    | exact Post.map (Post.map (word _))

/-- The depth check bounds the recursion. -/
theorem cmpReaderRec_ended (pA pB : OpenFile) {fuel depth : Nat} (enough : maxDepth ≤ depth + fuel)
    (a b : CompleteValue) : Ended (cmpReaderRec true pA pB (fuel + 1) a b depth) := by
  induction fuel generalizing depth a b with
  | zero =>
      have deep : true = true ∧ maxDepth ≤ depth := ⟨rfl, enough⟩
      rw [cmpReaderRec, if_pos deep]
      exact ended_fail
  | succ fuel ih =>
      rw [cmpReaderRec]
      refine Ended.ite ended_fail (Ended.ite trivial ?_)
      have fails : ∀ message, Ended (cmpFail true message : Res Int) := fun _ => ended_fail
      split
      · exact cmpStringUnicode_ended _ _ (readerStringUnicodeValue_ended _ _)
          (readerStringUnicodeValue_ended _ _)
      · exact trivial
      · exact (readerBitvectorPtr_ended _ _).bind fun _ => (readerBitvectorPtr_ended _ _).bind
          fun _ => bitvectorCmpBufferBuffer_ended _ _ _ _ _ _
      · exact trivial
      · refine (readerVectorNItems_ended _ _).bind fun _ => (readerVectorNItems_ended _ _).bind
          fun _ => cmpSeq_ended (fun i => ?_) _ _
        refine (readerVectorValueCase_ended _ _ _).bind fun cA =>
          (readerVectorValueCase_ended _ _ _).bind fun cB => (ih (by omega) cA cB).bind fun _ => ?_
        exact Ended.ite (by simp [fault, Stop.Ended]) trivial
      · exact fails _
      · exact fails _
      · exact trivial
      · simp [fault, Stop.Ended]

theorem cmpReader_ended (pA : OpenFile) (a : CompleteValue) (pB : OpenFile) (b : CompleteValue) :
    Ended (cmpReader pA a pB b) := cmpReaderRec_ended pA pB (Nat.le_add_left _ _) a b

theorem itemAt_ended {α : Type} (a : List α) (i : UInt32) : Ended (itemAt a i) := by
  unfold itemAt
  split
  · exact trivial
  · simp [fault, Stop.Ended]

section Create

variable {c : Create}

theorem createBitvectorPtr_ended (v : CreateValue) : Ended (createBitvectorPtr c v) :=
  Ended.ite (Post.map (itemAt_ended _ _)) trivial

theorem createVectorItems_ended (v : CreateValue) : Ended (createVectorItems c v) :=
  Ended.ite ((itemAt_ended _ _).bind fun _ => trivial) ((itemAt_ended _ _).bind fun _ => trivial)

theorem cmpVectorValueCreate_ended (v : CompleteCreateValue) (i : Nat) :
    Ended (cmpVectorValueCreate c v i) := by
  refine Ended.ite ((itemAt_ended _ _).bind fun vector => ?_) ((itemAt_ended _ _).bind fun _ =>
    (loadU32_ended _ _).bind fun _ => Post.map (itemAt_ended _ _))
  unfold cmpVectorValueOutside
  split <;> first
    | exact trivial
    | exact Post.map (loadWord_ended _ _ _)

theorem cmpCreateRecPriv_ended {fuel depth : Nat} (enough : maxDepth ≤ depth + fuel)
    (a b : CompleteCreateValue) : Ended (cmpCreateRecPriv c (fuel + 1) a b depth) := by
  induction fuel generalizing depth a b with
  | zero =>
      rw [cmpCreateRecPriv, if_pos (show maxDepth ≤ depth from enough)]
      exact ended_fail
  | succ fuel ih =>
      rw [cmpCreateRecPriv]
      refine Ended.ite ended_fail (Ended.ite trivial ?_)
      split
      · exact cmpStringUnicode_ended _ _ (Post.map (itemAt_ended _ _)) (Post.map (itemAt_ended _ _))
      · exact trivial
      · exact (createBitvectorPtr_ended _).bind fun _ => (createBitvectorPtr_ended _).bind
          fun _ => bitvectorCmpBufferBuffer_ended _ _ _ _ _ _
      · exact trivial
      · refine (createVectorItems_ended _).bind fun _ => (createVectorItems_ended _).bind
          fun _ => cmpSeq_ended (fun i => ?_) _ _
        exact (cmpVectorValueCreate_ended _ _).bind fun cA =>
          (cmpVectorValueCreate_ended _ _).bind fun cB => ih (by omega) cA cB
      · exact ended_fail
      · exact ended_fail
      · exact trivial
      · simp [fault, Stop.Ended]

theorem cmpCreate_ended (a b : UInt32) : Ended (cmpCreate c a b) :=
  (itemAt_ended _ _).bind fun _ => (itemAt_ended _ _).bind fun _ =>
    cmpCreateRecPriv_ended (Nat.le_add_left _ _) _ _

end Create

end Comparisons

/-! ## The search for a key -/

/-- A table of 2^k buckets that can be read, one of which is empty. -/
structure TableWithGap (k : Nat) (hashAt : Nat → Res UInt32) (keyAt : Nat → Res Value) : Prop where
  keys : ∀ b < 2 ^ k, ∃ key, keyAt b = .ok key
  hashes : ∀ b < 2 ^ k, ∃ hash, hashAt b = .ok hash
  gap : ∃ b < 2 ^ k, ∃ key, keyAt b = .ok key ∧ key.type = .emptySlot

section Search

variable {k fuel : Nat} {hashAt : Nat → Res UInt32} {keyAt : Nat → Res Value}

/-- Where a path comes to an empty bucket for the first time. -/
theorem TableWithGap.first (table : TableWithGap k hashAt keyAt) (bound : k ≤ 31) (hash : UInt32) :
    ∃ d < 7 + 2 ^ k, (∃ key, keyAt (probePath (.ofNat (2 ^ k)) hash d) = .ok key ∧
      key.type = .emptySlot) ∧ ∀ e < d, ∃ key,
        keyAt (probePath (.ofNat (2 ^ k)) hash e) = .ok key ∧ key.type ≠ .emptySlot := by
  obtain ⟨b, inside, isFree⟩ := table.gap
  obtain ⟨d, less, free, before⟩ := (probePath_covers bound).first
    (fun b => ∃ key, keyAt b = .ok key ∧ key.type = .emptySlot) inside isFree hash
  refine ⟨d, less, free, fun e earlier => ?_⟩
  obtain ⟨key, read⟩ := table.keys _ (probePath_lt bound hash e)
  exact ⟨key, read, fun isEmpty => before e earlier ⟨key, read, isEmpty⟩⟩

/-- A search ends when the tests of the stored keys do. -/
theorem hashTableProbePriv_ended (table : TableWithGap k hashAt keyAt) (bound : k ≤ 31)
    (enough : 7 + 2 ^ k ≤ fuel) (hash : UInt32) {isEqual : Value → Res Bool}
    (tests : ∀ b < 2 ^ k, ∀ key, keyAt b = .ok key → Ended (isEqual key)) :
    Ended (hashTableProbePriv fuel isEqual hash (.ofNat (2 ^ k)) hashAt keyAt) := by
  obtain ⟨d, less, ⟨key, read, isEmpty⟩, before⟩ := table.first bound hash
  refine loop_induction (hashTableProbeLoop isEqual hashAt keyAt hash) Ended
    (probeState hash (.ofNat (2 ^ k))) (fun fuel => ?_) (fun e earlier fuel rest => ?_)
    (Nat.lt_of_lt_of_le less enough)
  · rw [probePath] at read
    rw [hashTableProbeLoop, read, ok_bind, if_pos isEmpty]
    exact post_ok.mpr trivial
  · obtain ⟨other, readOther, occupied⟩ := before e earlier
    have inside := probePath_lt bound hash e
    have test := tests _ inside other readOther
    obtain ⟨stored, readStored⟩ := table.hashes _ inside
    rw [probePath] at readOther readStored
    rw [hashTableProbeLoop, readOther, ok_bind, if_neg occupied, readStored, ok_bind,
      ← probeState_succ]
    have answered : ∀ found, Ended (if found = true then
        pure (some (probeState hash (.ofNat (2 ^ k)) e).bucket)
        else hashTableProbeLoop isEqual hashAt keyAt hash fuel
          (probeState hash (.ofNat (2 ^ k)) (e + 1))) :=
      fun found => Ended.ite (post_ok.mpr trivial) rest
    split
    · exact test.bind answered
    · exact answered false

/-- The iteration over the keys of a hash comes to its end. -/
theorem probeHash_ended (table : TableWithGap k hashAt keyAt) (bound : k ≤ 31)
    (enough : 7 + 2 ^ k ≤ fuel) (hash : UInt32) :
    ∃ entries, iterRun (hashTableProbeHash keyAt) fuel
      (hashTableProbeHashInit hash (.ofNat (2 ^ k))) = .ok entries := by
  obtain ⟨d, less, ⟨key, read, isEmpty⟩, before⟩ := table.first bound hash
  refine loop_induction (iterRun (hashTableProbeHash keyAt))
    (fun result => ∃ entries, result = .ok entries) (probeState hash (.ofNat (2 ^ k)))
    (fun fuel => ?_) (fun e earlier fuel rest => ?_) (Nat.lt_of_lt_of_le less enough)
  · rw [probePath] at read
    refine ⟨[], iterRun_done ?_⟩
    rw [hashTableProbeHash, read, ok_bind, if_pos isEmpty, pure_eq_ok]
  · obtain ⟨other, readOther, occupied⟩ := before e earlier
    obtain ⟨entries, others⟩ := rest
    rw [probePath] at readOther
    have called : hashTableProbeHash keyAt (probeState hash (.ofNat (2 ^ k)) e) =
        .ok (some ((probeState hash (.ofNat (2 ^ k)) e).bucket,
          probeState hash (.ofNat (2 ^ k)) (e + 1))) := by
      rw [hashTableProbeHash, readOther, ok_bind, if_neg occupied, pure_eq_ok, probeState_succ]
    exact ⟨_, iterRun_entry called others⟩

end Search

/-! ## Building a table -/

section Populate

variable {k fuel : Nat} {cmpCreate : UInt32 → UInt32 → Res Int} {emptySlotHandle : UInt32}

theorem arrayGet_ended (xs : List UInt32) (i : Nat) : Ended (arrayGet xs i) := by
  unfold arrayGet
  split
  · exact trivial
  · simp [fault, Stop.Ended]

theorem arraySet_ended (xs : List UInt32) (i : Nat) (x : UInt32) : Ended (arraySet xs i x) :=
  Ended.ite trivial (by simp [fault, Stop.Ended])

theorem arraySet_ok {xs ys : List UInt32} {i : Nat} {x : UInt32} (done : arraySet xs i x = .ok ys) :
    ys = xs.set i x := by
  rw [arraySet] at done
  split at done
  · cases done
    rfl
  · cases done

theorem putValue_ended (valuesVector : Option (List UInt32)) (j : Nat)
    (values : Option (List UInt32)) (bucket : Nat) :
    Ended (putValue valuesVector j values bucket) := by
  unfold putValue
  split
  · exact trivial
  · simp [fault, Stop.Ended]
  · exact (arrayGet_ended _ _).bind fun _ => Post.map (arraySet_ended _ _ _)

/-- There are 2^k buckets, of which at most `j` are taken. -/
structure Buckets.Taken (t : Buckets) (emptySlotHandle : UInt32) (k j : Nat) : Prop where
  keys : 2 ^ k ≤ t.keys.length
  taken : ((Finset.range (2 ^ k)).filter fun b => t.keys[b]? ≠ some emptySlotHandle).card ≤ j

/-- A bucket is left. -/
theorem Buckets.Taken.gap {t : Buckets} {j : Nat} (taken : t.Taken emptySlotHandle k j)
    (room : j < 2 ^ k) : ∃ b < 2 ^ k, t.keys[b]? = some emptySlotHandle := by
  by_contra full
  push Not at full
  have all : (Finset.range (2 ^ k)).filter (fun b => t.keys[b]? ≠ some emptySlotHandle) =
      Finset.range (2 ^ k) :=
    Finset.filter_true_of_mem fun b mem => full b (Finset.mem_range.mp mem)
  have few := taken.taken
  rw [all, Finset.card_range] at few
  omega

/-- One more bucket is taken. -/
theorem Buckets.Taken.set {t : Buckets} {j bucket : Nat} {hash : List UInt32} {key : UInt32}
    {values : Option (List UInt32)} (taken : t.Taken emptySlotHandle k j) :
    Buckets.Taken ⟨hash, t.keys.set bucket key, values⟩ emptySlotHandle k (j + 1) := by
  constructor
  · rw [List.length_set]
    exact taken.keys
  · have among : (Finset.range (2 ^ k)).filter
        (fun b => (t.keys.set bucket key)[b]? ≠ some emptySlotHandle) ⊆
        insert bucket ((Finset.range (2 ^ k)).filter
          fun b => t.keys[b]? ≠ some emptySlotHandle) := by
      intro b mem
      rw [Finset.mem_filter] at mem
      rw [Finset.mem_insert, Finset.mem_filter]
      rcases eq_or_ne bucket b with same | other
      · exact Or.inl same.symm
      · rw [List.getElem?_set_ne other] at mem
        exact Or.inr mem
    calc _ ≤ _ := Finset.card_le_card among
      _ ≤ _ := Finset.card_insert_le _ _
      _ ≤ j + 1 := Nat.add_le_add_right taken.taken 1

/-- The insertion of a key ends when its comparisons with the stored keys do. -/
theorem populateFind_ended {t : Buckets} (keys : 2 ^ k ≤ t.keys.length)
    (gap : ∃ b < 2 ^ k, t.keys[b]? = some emptySlotHandle)
    (bound : k ≤ 31) (enough : 7 + 2 ^ k ≤ fuel) (hash key : UInt32)
    (tests : ∀ stored ∈ t.keys, Ended (cmpCreate stored key)) :
    Ended (populateFind cmpCreate emptySlotHandle t hash key fuel
      (hashTableProbeHashInit hash (.ofNat (2 ^ k)))) := by
  obtain ⟨b, inside, isFree⟩ := gap
  obtain ⟨d, less, free, before⟩ := (probePath_covers bound).first
    (fun b => t.keys[b]? = some emptySlotHandle) inside isFree hash
  refine loop_induction (populateFind cmpCreate emptySlotHandle t hash key) Ended
    (probeState hash (.ofNat (2 ^ k))) (fun fuel => ?_) (fun e earlier fuel rest => ?_)
    (Nat.lt_of_lt_of_le less enough)
  · rw [probePath] at free
    rw [populateFind, arrayGet_eq_ok.mpr free, ok_bind, if_pos rfl]
    exact post_ok.mpr trivial
  · have occupied := before e earlier
    have within := Nat.lt_of_lt_of_le (probePath_lt bound hash e) keys
    rw [probePath] at occupied within
    have read := List.getElem?_eq_getElem within
    have test := tests _ (List.getElem_mem within)
    rw [populateFind, arrayGet_eq_ok.mpr read, ok_bind,
      if_neg (fun same => occupied (by rw [read, same])), ← probeState_succ]
    have compared : ∀ c : Int, Ended (if c = 0 then fail duplicateKeysMessage
        else populateFind cmpCreate emptySlotHandle t hash key fuel
          (probeState hash (.ofNat (2 ^ k)) (e + 1))) :=
      fun c => Ended.ite ended_fail rest
    refine (arrayGet_ended _ _).bind fun stored => ?_
    split
    · exact test.bind compared
    · exact compared 1

theorem populateCheckKeys_ended (keysVector : List UInt32) (nKeys : UInt32) :
    Ended (populateCheckKeys keysVector nKeys emptySlotHandle) := by
  refine (Post.forM fun j _ => (?_ : Ended _)).mono (fun _ _ => trivial) fun _ ended => ended
  exact (arrayGet_ended _ _).bind fun _ => Ended.ite ended_fail (post_ok.mpr trivial)

theorem populateCheckBuckets_ended (t : Buckets) (nBuckets : UInt32) :
    Ended (populateCheckBuckets t nBuckets emptySlotHandle) := by
  refine (Post.forM fun j _ => (?_ : Ended _)).mono (fun _ _ => trivial) fun _ ended => ended
  refine (arrayGet_ended _ _).bind fun _ => Ended.ite ended_fail ((arrayGet_ended _ _).bind fun _ =>
    Ended.ite ended_fail ?_)
  split
  · exact post_ok.mpr trivial
  · exact (arrayGet_ended _ _).bind fun _ => Ended.ite ended_fail (post_ok.mpr trivial)

/-- The invariants that are checked leave every bucket free. -/
theorem populateCheckBuckets_taken {t : Buckets} (bound : k ≤ 31)
    (passed : populateCheckBuckets t (.ofNat (2 ^ k)) emptySlotHandle = .ok ()) :
    t.Taken emptySlotHandle k 0 := by
  rw [populateCheckBuckets, toNat_two_pow bound, forM_eq_ok] at passed
  have each : ∀ b < 2 ^ k, t.keys[b]? = some emptySlotHandle := by
    intro b less
    obtain ⟨hash, -, rest⟩ := bind_eq_ok.mp (passed b (List.mem_range.mpr less))
    split at rest
    · cases rest
    · obtain ⟨key, readKey, rest⟩ := bind_eq_ok.mp rest
      split at rest
      · cases rest
      case isFalse same =>
        rw [arrayGet_eq_ok.mp readKey, not_not.mp same]
  have last : 2 ^ k - 1 < 2 ^ k := Nat.sub_one_lt (Nat.ne_of_gt (Nat.two_pow_pos k))
  have keys := (List.getElem?_eq_some_iff.mp (each _ last)).1
  refine ⟨by omega, ?_⟩
  rw [Nat.le_zero, Finset.card_eq_zero, Finset.filter_eq_empty_iff]
  exact fun b mem => not_not.mpr (each b (Finset.mem_range.mp mem))

/-- A table is built in finitely many steps, if there are more buckets than keys. -/
theorem hashTablePopulate_ended (bound : k ≤ 31) (enough : 7 + 2 ^ k ≤ fuel)
    (tests : ∀ a b, Ended (cmpCreate a b)) {hashVector keysVector : List UInt32}
    {valuesVector : Option (List UInt32)} {nKeys : UInt32} (room : nKeys.toNat < 2 ^ k)
    (serialize : Buckets) :
    Ended (hashTablePopulate fuel cmpCreate hashVector keysVector valuesVector nKeys serialize
      (.ofNat (2 ^ k)) emptySlotHandle) := by
  refine Ended.ite ended_fail ((populateCheckKeys_ended _ _).bind fun _ => ?_)
  refine Post.bind (populateCheckBuckets_ended _ _) fun _ passed _ => ?_
  let inv : Nat → Buckets → Prop := fun j t => t.Taken emptySlotHandle k j
  have start : inv 0 serialize := populateCheckBuckets_taken bound passed
  refine Post.mono (Post.foldlM_range start fun j less t taken => ?_) (fun _ _ => trivial)
    fun _ ended => ended
  have gap := taken.gap (Nat.lt_trans less room)
  unfold populateStep
  refine Post.bind (arrayGet_ended _ _) fun valueHash _ _ => ?_
  refine Post.bind (arrayGet_ended _ _) fun key _ _ => ?_
  refine Post.bind (populateFind_ended taken.keys gap bound enough valueHash key
    fun stored _ => tests stored key) fun bucket _ _ => ?_
  refine Post.bind (arraySet_ended _ _ _) fun hash _ _ => ?_
  refine Post.bind (arraySet_ended _ _ _) fun keys setKeys _ => ?_
  refine Post.bind (putValue_ended _ _ _ _) fun values _ _ => ?_
  rw [arraySet_ok setKeys]
  exact taken.set

end Populate

/-! ## Tables of a power of two of buckets -/

/-- What probing a table of 2^k buckets is to do: visit every bucket, and so come to an end
where one is empty. -/
structure ProbingEnds (k : Nat) : Prop where
  covers : ∀ (hash : UInt32), ∀ b < 2 ^ k, ∃ t < 7 + 2 ^ k,
    (probeSequence hash.toNat t).1 % 2 ^ k = b
  priv : ∀ {hashAt keyAt}, TableWithGap k hashAt keyAt → ∀ fuel hash isEqual, 7 + 2 ^ k ≤ fuel →
    (∀ b < 2 ^ k, ∀ key, keyAt b = .ok key → Ended (isEqual key)) →
    Ended (hashTableProbePriv fuel isEqual hash (.ofNat (2 ^ k)) hashAt keyAt)
  probe : ∀ {hashAt keyAt}, TableWithGap k hashAt keyAt → ∀ fuel p hash value, 7 + 2 ^ k ≤ fuel →
    Ended (hashTableProbe fuel p hash value (.ofNat (2 ^ k)) hashAt keyAt)
  probeHash : ∀ {hashAt keyAt}, TableWithGap k hashAt keyAt → ∀ fuel hash, 7 + 2 ^ k ≤ fuel →
    ∃ entries, iterRun (hashTableProbeHash keyAt) fuel
      (hashTableProbeHashInit hash (.ofNat (2 ^ k))) = .ok entries
  find : ∀ {t : Buckets} {emptySlotHandle}, 2 ^ k ≤ t.keys.length →
    (∃ b < 2 ^ k, t.keys[b]? = some emptySlotHandle) → ∀ fuel c hash key, 7 + 2 ^ k ≤ fuel →
    Ended (populateFind (cmpCreate c) emptySlotHandle t hash key fuel
      (hashTableProbeHashInit hash (.ofNat (2 ^ k))))
  populate : ∀ fuel c hashVector keysVector valuesVector nKeys serialize emptySlotHandle,
    7 + 2 ^ k ≤ fuel → nKeys.toNat < 2 ^ k →
    Ended (hashTablePopulate fuel (cmpCreate c) hashVector keysVector valuesVector nKeys serialize
      (.ofNat (2 ^ k)) emptySlotHandle)

/-- Seven probes and one period are enough. -/
theorem probing_ends {k : Nat} (bound : k ≤ 31) : ProbingEnds k where
  covers := fun hash b inside => by
    obtain ⟨t, less, reached⟩ := probePath_covers bound hash b inside
    exact ⟨t, less, by rw [probeSequence_path bound, reached]⟩
  priv := fun table _ hash _ enough tests =>
    hashTableProbePriv_ended table bound enough hash tests
  probe := fun table fuel p hash value enough => by
    refine hashTableProbePriv_ended table bound enough hash fun b inside key read => ?_
    exact (cmpReader_ended _ _ _ _).bind fun _ => post_ok.mpr trivial
  probeHash := fun table _ hash enough => probeHash_ended table bound enough hash
  find := fun keys gap _ _ hash key enough =>
    populateFind_ended keys gap bound enough hash key fun stored _ => cmpCreate_ended stored key
  populate := fun _ _ _ _ _ _ serialize _ enough room =>
    hashTablePopulate_ended bound enough cmpCreate_ended room serialize

theorem probing_ends_two : ProbingEnds 1 := probing_ends (by decide)

end Pointless
