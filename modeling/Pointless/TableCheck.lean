import Pointless.CompareSound
import Pointless.HashTableCorrect

/-!
# The check of a hash table

`hashTableValidate` on a table whose vectors can be read: when it leaves the
buffer, and what it has established when it returns. `Table` is what a set and a
map have in common.
-/

namespace Pointless

open ExceptRules

/-! ## Leaving the buffer -/

/-- The action makes an access outside the memory that was given. -/
def Escapes {α : Type} (action : Res α) : Prop := ∃ e, action = .error e ∧ ¬e.Inside

section Escaping

variable {α β : Type}

theorem staysInside_iff {action : Res α} : StaysInside action ↔ ¬Escapes action := by
  cases action with
  | ok a => simp [Escapes, StaysInside]
  | error e => simp [Escapes, StaysInside]

theorem not_escapes_ok (a : α) : ¬Escapes (.ok a : Res α) := by
  rintro ⟨e, stopped, -⟩
  cases stopped

theorem not_escapes_fail {message : String} : ¬Escapes (fail message : Res α) :=
  staysInside_iff.mp trivial

theorem escapes_bind {x : Res α} {f : α → Res β} :
    Escapes (x >>= f) ↔ Escapes x ∨ ∃ a, x = .ok a ∧ Escapes (f a) := by
  cases x with
  | ok a =>
      rw [ok_bind]
      constructor
      · exact fun escapes => Or.inr ⟨a, rfl, escapes⟩
      · rintro (escapes | ⟨b, same, escapes⟩)
        · exact absurd escapes (not_escapes_ok a)
        · cases same
          exact escapes
  | error e =>
      rw [error_bind]
      constructor
      · rintro ⟨e', same, outside⟩
        cases same
        exact Or.inl ⟨e, rfl, outside⟩
      · rintro (⟨e', same, outside⟩ | ⟨b, same, -⟩)
        · cases same
          exact ⟨e, rfl, outside⟩
        · cases same

/-- After a first action that stays inside, only the second can escape. -/
theorem escapes_bind_of_inside {x : Res α} {f : α → Res β} (inside : StaysInside x) :
    Escapes (x >>= f) ↔ ∃ a, x = .ok a ∧ Escapes (f a) := by
  rw [escapes_bind]
  exact or_iff_right (staysInside_iff.mp inside)

theorem escapes_forM {check : α → Res Unit} {items : List α} :
    Escapes (items.forM check) ↔ ∃ before a after, items = before ++ a :: after ∧
      before.forM check = .ok () ∧ Escapes (check a) := by
  constructor
  · rintro ⟨e, stopped, outside⟩
    obtain ⟨before, a, after, split, passed, failed⟩ := forM_eq_error.mp stopped
    exact ⟨before, a, after, split, passed, e, failed, outside⟩
  · rintro ⟨before, a, after, split, passed, e, failed, outside⟩
    exact ⟨e, forM_eq_error.mpr ⟨before, a, after, split, passed, failed⟩, outside⟩

theorem escapes_forM_range {check : Nat → Res Unit} {n : Nat} :
    Escapes ((List.range n).forM check) ↔
      ∃ i < n, (∀ j < i, check j = .ok ()) ∧ Escapes (check i) := by
  constructor
  · rintro ⟨e, stopped, outside⟩
    obtain ⟨i, less, before, failed⟩ := forM_range_eq_error.mp stopped
    exact ⟨i, less, before, e, failed, outside⟩
  · rintro ⟨i, less, before, e, failed, outside⟩
    exact ⟨e, forM_range_eq_error.mpr ⟨i, less, before, failed⟩, outside⟩

end Escaping

/-! ## The number of buckets -/

theorem nextPowerOf2Loop_result {n m : UInt32} {rounds k : Nat} (bound : k ≤ 31)
    (returned : nextPowerOf2Loop n rounds (UInt32.ofNat (2 ^ k)) = .ok m) :
    ∃ j ≤ 31, m = UInt32.ofNat (2 ^ j) := by
  induction rounds generalizing k with
  | zero => cases returned
  | succ rounds ih =>
      rw [nextPowerOf2Loop] at returned
      split at returned
      case isFalse =>
        cases returned
        exact ⟨k, bound, rfl⟩
      case isTrue less =>
        rcases Nat.lt_or_eq_of_le bound with more | rfl
        · rw [two_pow_shiftLeft more] at returned
          exact ih more returned
        · have zero : UInt32.ofNat (2 ^ 31) <<< 1 = 0 := by decide
          have positive : 0 < n := by
            rw [UInt32.lt_iff_toNat_lt] at less ⊢
            exact Nat.zero_lt_of_lt less
          rw [zero, nextPowerOf2Loop_stuck positive] at returned
          cases returned

/-- When the number of buckets can be computed it is a power of two. -/
theorem hashComputeNBuckets_result {n m : UInt32} (returned : hashComputeNBuckets n = .ok m) :
    ∃ k ≤ 31, m = UInt32.ofNat (2 ^ k) := by
  unfold hashComputeNBuckets at returned
  split at returned
  · cases returned
    exact ⟨1, by decide, rfl⟩
  · exact nextPowerOf2Loop_result (Nat.zero_le 31) returned

theorem nextPowerOf2Loop_inside {n p : UInt32} {rounds : Nat} :
    StaysInside (nextPowerOf2Loop n rounds p) := by
  induction rounds generalizing p with
  | zero => exact trivial
  | succ rounds ih =>
      rw [nextPowerOf2Loop]
      split
      · exact ih
      · exact trivial

theorem hashComputeNBuckets_inside {n : UInt32} : StaysInside (hashComputeNBuckets n) := by
  unfold hashComputeNBuckets
  split
  · exact trivial
  · exact nextPowerOf2Loop_inside

/-! ## The buckets of a table -/

section Buckets

variable {nBuckets nItems : UInt32} {hashAt : Nat → Res UInt32} {keyAt : Nat → Res Value}
  {valueAt : Option (Nat → Res Value)}

/-- The first part of `hashTableValidate`: the number of buckets and how many of
them are in use. -/
def tableCounts (nBuckets : UInt32) (keyAt : Nat → Res Value) (nItems : UInt32)
    (valueAt : Option (Nat → Res Value)) : Res Unit := do
  let expected ← hashComputeNBuckets nItems
  if expected ≠ nBuckets then fail "invalid number of buckets in hash table"
  else
    let counts ← (List.range nBuckets.toNat).foldlM (countSlot keyAt valueAt) (0, 0)
    if counts.2 = 0 then fail "there are no empty slots in hash table, wtf"
    else if counts.1 ≠ nItems.toNat then
      fail "number of non-empty slots in hash-table, does not match item count"
    else pure ()

/-- The three parts of the check of a table. -/
theorem hashTableValidate_eq (fuel : Nat) (p : OpenFile) :
    hashTableValidate fuel p nBuckets hashAt keyAt nItems valueAt = (do
      tableCounts nBuckets keyAt nItems valueAt
      (List.range nBuckets.toNat).forM (checkSlotHash fuel p hashAt keyAt)
      (List.range nBuckets.toNat).forM (checkSlotProbe fuel p nBuckets hashAt keyAt)) := by
  unfold hashTableValidate tableCounts
  cases hashComputeNBuckets nItems with
  | error e => rfl
  | ok expected =>
      rw [ok_bind, ok_bind]
      by_cases same : expected ≠ nBuckets
      · rw [if_pos same, if_pos same]
        rfl
      · rw [if_neg same, if_neg same]
        cases (List.range nBuckets.toNat).foldlM (countSlot keyAt valueAt) (0, 0) with
        | error e => rfl
        | ok counts =>
            rw [ok_bind, ok_bind]
            split
            · rfl
            · split <;> rfl

/-- The buckets of a table can be read, and hold reachable keys. -/
structure BucketsRead (p : OpenFile) (nBuckets : UInt32) (hashAt : Nat → Res UInt32)
    (keyAt : Nat → Res Value) (hash : Nat → UInt32) (key : Nat → Value) : Prop where
  hashAt : ∀ i < nBuckets.toNat, hashAt i = .ok (hash i)
  keyAt : ∀ i < nBuckets.toNat, keyAt i = .ok (key i)
  reach : ∀ i < nBuckets.toNat, Reachable p (key i)

/-- The number of keys in the first `n` buckets. -/
def occupied (key : Nat → Value) (n : Nat) : Nat :=
  (List.range n).countP fun i => (key i).type ≠ .emptySlot

theorem occupied_succ (key : Nat → Value) (n : Nat) :
    occupied key (n + 1) = occupied key n + if (key n).type ≠ .emptySlot then 1 else 0 := by
  simp [occupied, List.range_succ, List.countP_cons]

theorem exists_free_bucket {key : Nat → Value} {n : Nat} (fewer : occupied key n < n) :
    ∃ b < n, (key b).type = .emptySlot := by
  induction n with
  | zero => omega
  | succ n ih =>
      rw [occupied_succ] at fewer
      by_cases isEmpty : (key n).type = .emptySlot
      · exact ⟨n, Nat.lt_succ_self n, isEmpty⟩
      · rw [if_pos isEmpty] at fewer
        obtain ⟨b, less, found⟩ := ih (by omega)
        exact ⟨b, Nat.lt_succ_of_lt less, found⟩

/-- The counting loop. -/
theorem countSlots_post {bad : Stop → Prop} (fails : ∀ message, bad (.error message))
    {key : Nat → Value} {n : Nat} (keyRead : ∀ i < n, keyAt i = .ok (key i))
    (valueRead : ∀ valueAt' ∈ valueAt, ∀ i < n, ∃ value, valueAt' i = .ok value) :
    Post (fun counts => counts.1 = occupied key n ∧ counts.1 + counts.2 = n) bad
      ((List.range n).foldlM (countSlot keyAt valueAt) (0, 0)) := by
  induction n with
  | zero => exact ⟨rfl, rfl⟩
  | succ n ih =>
      rw [List.range_succ, foldlM_append]
      have before := ih (fun i less => keyRead i (by omega))
        fun valueAt' mem i less => valueRead valueAt' mem i (by omega)
      refine Post.bind before fun counts _ so => ?_
      obtain ⟨used, total⟩ := so
      have last : Post (fun counts => counts.1 = occupied key (n + 1) ∧
          counts.1 + counts.2 = n + 1) bad (countSlot keyAt valueAt counts n) := by
        unfold countSlot
        rw [keyRead n (Nat.lt_succ_self n), ok_bind, occupied_succ]
        by_cases isEmpty : (key n).type = .emptySlot
        · rw [if_pos isEmpty, if_neg (not_not.mpr isEmpty)]
          have next : counts.1 = occupied key n + 0 ∧ counts.1 + (counts.2 + 1) = n + 1 := by
            omega
          cases valueAt with
          | none => exact next
          | some valueAt' =>
              obtain ⟨value, read⟩ := valueRead valueAt' rfl n (Nat.lt_succ_self n)
              simp only [read, ok_bind]
              split
              · exact fails _
              · exact next
        · have next : counts.1 + 1 = occupied key n + 1 ∧ counts.1 + 1 + counts.2 = n + 1 := by
            omega
          rw [if_neg isEmpty, if_pos isEmpty]
          exact next
      rw [List.foldlM_cons]
      exact Post.bind last fun counts' _ so => so

/-- What the counts establish. -/
structure Counted (nBuckets nItems : UInt32) (key : Nat → Value) : Prop where
  size : ∃ k ≤ 31, nBuckets = UInt32.ofNat (2 ^ k)
  items : occupied key nBuckets.toNat = nItems.toNat
  room : nItems.toNat < nBuckets.toNat

/-- Every path comes to an empty bucket. -/
theorem Counted.gap {key : Nat → Value} (counted : Counted nBuckets nItems key) (h : UInt32) :
    ∃ d < 7 + nBuckets.toNat, (key (probePath nBuckets h d)).type = .emptySlot ∧
      ∀ e < d, (key (probePath nBuckets h e)).type ≠ .emptySlot := by
  obtain ⟨k, bound, size⟩ := counted.size
  have fewer : occupied key nBuckets.toNat < nBuckets.toNat := by
    rw [counted.items]
    exact counted.room
  obtain ⟨b, inside, isEmpty⟩ := exists_free_bucket fewer
  have covers : OpenAddressing.Covers (probePath nBuckets) nBuckets.toNat
      (7 + nBuckets.toNat) := by
    rw [size, toNat_two_pow bound]
    exact probePath_covers bound
  exact covers.first (fun b => (key b).type = .emptySlot) inside isEmpty h

theorem tableCounts_post {bad : Stop → Prop} (fails : ∀ message, bad (.error message))
    (computes : Post (fun _ => True) bad (hashComputeNBuckets nItems)) {key : Nat → Value}
    (keyRead : ∀ i < nBuckets.toNat, keyAt i = .ok (key i))
    (valueRead : ∀ valueAt' ∈ valueAt, ∀ i < nBuckets.toNat, ∃ value, valueAt' i = .ok value) :
    Post (fun _ => Counted nBuckets nItems key) bad
      (tableCounts nBuckets keyAt nItems valueAt) := by
  rw [tableCounts]
  refine Post.bind computes fun expected computed _ => ?_
  split
  case isTrue => exact fails _
  case isFalse same =>
    refine Post.bind (countSlots_post fails keyRead valueRead) fun counts _ so => ?_
    obtain ⟨used, total⟩ := so
    split
    case isTrue => exact fails _
    case isFalse room =>
      split
      case isTrue => exact fails _
      case isFalse items =>
        obtain ⟨k, bound, size⟩ := hashComputeNBuckets_result computed
        rw [not_not] at same items
        exact ⟨⟨k, bound, same ▸ size⟩, by omega, by omega⟩

end Buckets

/-! ## Probing for stored keys -/

/-- The test that `hashTableProbe` applies to a key of the same hash. -/
def keyEquals (p : OpenFile) (value key : Value) : Res Bool := do
  let c ← cmpReader p value.toComplete p key.toComplete
  pure (c = 0)

theorem hashTableProbe_eq (fuel : Nat) (p : OpenFile) (hash : UInt32) (value : Value)
    (nBuckets : UInt32) (hashAt : Nat → Res UInt32) (keyAt : Nat → Res Value) :
    hashTableProbe fuel p hash value nBuckets hashAt keyAt
      = hashTableProbePriv fuel (keyEquals p value) hash nBuckets hashAt keyAt := rfl

/-- The probe for `value` meets a clash in the `d`-th bucket it looks at. -/
def ProbeClash (p : OpenFile) (nBuckets : UInt32) (hashAt : Nat → Res UInt32)
    (keyAt : Nat → Res Value) (hash : UInt32) (value : Value) (d : Nat) : Prop :=
  (∀ e < d, ProbePasses (keyEquals p value) hashAt keyAt hash (probePath nBuckets hash e)) ∧
    ∃ key, keyAt (probePath nBuckets hash d) = .ok key ∧ key.type ≠ .emptySlot ∧
      hashAt (probePath nBuckets hash d) = .ok hash ∧
      MeetsClash p (maxDepth + 1) value.toComplete key.toComplete 0

section Probes

variable {p : OpenFile} {nBuckets nItems : UInt32} {hashAt : Nat → Res UInt32}
  {keyAt : Nat → Res Value} {valueAt : Option (Nat → Res Value)} {hash : Nat → UInt32}
  {key : Nat → Value}

theorem keyEquals_outcome (sound : p.Sound) {value other : Value} (valueReach : Reachable p value)
    (otherReach : Reachable p other) :
    (MeetsClash p (maxDepth + 1) value.toComplete other.toComplete 0 ∧
        Escapes (keyEquals p value other)) ∨
      (¬MeetsClash p (maxDepth + 1) value.toComplete other.toComplete 0 ∧
        ¬Escapes (keyEquals p value other)) := by
  have outcome : CompareOutcome (MeetsClash p (maxDepth + 1) value.toComplete other.toComplete 0)
      (cmpReaderRec true p p (maxDepth + 1) value.toComplete other.toComplete 0) :=
    cmpReaderRec_outcome sound (.value valueReach) (.value otherReach) (by decide) (by decide)
  rw [keyEquals, cmpReader]
  rcases outcome with ⟨meets, stopped⟩ | ⟨avoids, ⟨c, returned⟩ | ⟨message, stopped⟩⟩
  · rw [stopped]
    exact Or.inl ⟨meets, .fault .nullPointer, rfl, fun inside => inside⟩
  · rw [returned]
    exact Or.inr ⟨avoids, not_escapes_ok _⟩
  · rw [stopped]
    exact Or.inr ⟨avoids, not_escapes_fail⟩

theorem BucketsRead.path (read : BucketsRead p nBuckets hashAt keyAt hash key) {k : Nat}
    (bound : k ≤ 31) (size : nBuckets = UInt32.ofNat (2 ^ k)) (h : UInt32) (d : Nat) :
    keyAt (probePath nBuckets h d) = .ok (key (probePath nBuckets h d)) ∧
      hashAt (probePath nBuckets h d) = .ok (hash (probePath nBuckets h d)) ∧
      Reachable p (key (probePath nBuckets h d)) := by
  have inside : probePath nBuckets h d < nBuckets.toNat := by
    rw [size, toNat_two_pow bound]
    exact probePath_lt bound h d
  exact ⟨read.keyAt _ inside, read.hashAt _ inside, read.reach _ inside⟩

/-- A probe leaves the buffer where it meets a clash. -/
theorem escapes_probe (sound : p.Sound) (read : BucketsRead p nBuckets hashAt keyAt hash key)
    {k : Nat} (bound : k ≤ 31) (size : nBuckets = UInt32.ofNat (2 ^ k)) {value : Value}
    (valueReach : Reachable p value) (h : UInt32) (fuel : Nat) :
    Escapes (hashTableProbe fuel p h value nBuckets hashAt keyAt) ↔
      ∃ d < fuel, ProbeClash p nBuckets hashAt keyAt h value d := by
  rw [hashTableProbe_eq]
  constructor
  · intro escapes
    have reads : ∀ d, ∃ key stored, keyAt (probePath nBuckets h d) = .ok key ∧
        hashAt (probePath nBuckets h d) = .ok stored := by
      intro d
      obtain ⟨keyRead, hashRead, -⟩ := read.path bound size h d
      exact ⟨_, _, keyRead, hashRead⟩
    obtain ⟨e, stopped, outside⟩ := escapes
    have ended := @hashTableProbePriv_ends (keyEquals p value) _ _ _ _ reads fuel
    rcases ended with ⟨-, diverged⟩ | ⟨d, less, passes, ends⟩
    · rw [diverged] at stopped
      cases stopped
      exact absurd trivial outside
    · rw [stopped] at ends
      cases ends with
      | @stop key' _ keyRead notEmpty hashRead failed =>
          refine ⟨d, less, passes, key', keyRead, notEmpty, hashRead, ?_⟩
          obtain ⟨keyRead', -, otherReach⟩ := read.path bound size h d
          rw [keyRead] at keyRead'
          cases keyRead'
          rcases keyEquals_outcome sound valueReach otherReach with ⟨meets, -⟩ | ⟨-, inside⟩
          · exact meets
          · exact absurd ⟨e, failed, outside⟩ inside
  · rintro ⟨d, less, passes, key', keyRead, notEmpty, hashRead, meets⟩
    obtain ⟨keyRead', -, otherReach⟩ := read.path bound size h d
    rw [keyRead] at keyRead'
    cases keyRead'
    rcases keyEquals_outcome sound valueReach otherReach with ⟨-, escapes⟩ | ⟨avoids, -⟩
    · obtain ⟨e, failed, outside⟩ := escapes
      exact ⟨e, hashTableProbePriv_stop less passes keyRead notEmpty hashRead failed, outside⟩
    · exact absurd meets avoids

/-! ## The slots -/

theorem checkSlotHash_ok (read : BucketsRead p nBuckets hashAt keyAt hash key) {fuel i : Nat}
    (less : i < nBuckets.toNat) :
    checkSlotHash fuel p hashAt keyAt i = .ok () ↔
      isHashable (key i).type = true ∧ hashReader32 p fuel (key i) = .ok (hash i) := by
  rw [checkSlotHash, read.keyAt i less, read.hashAt i less, ok_bind]
  by_cases hashable : isHashable (key i).type = true
  · rw [if_neg (not_not.mpr hashable)]
    cases hashReader32 p fuel (key i) with
    | error e => simp
    | ok h =>
        rw [ok_bind, ok_bind]
        by_cases same : h = hash i
        · simp [same, hashable]
        · simp [same, fail]
  · rw [if_pos hashable]
    simp [hashable, fail]

theorem checkSlotHash_inside (sound : p.Sound)
    (read : BucketsRead p nBuckets hashAt keyAt hash key) {fuel i : Nat}
    (less : i < nBuckets.toNat) : StaysInside (checkSlotHash fuel p hashAt keyAt i) := by
  rw [checkSlotHash, read.keyAt i less, read.hashAt i less, ok_bind]
  split
  · exact post_fail
  · have hashed : StaysInside (hashReader32 p fuel (key i)) :=
      (sound.hash fuel (read.reach i less)).mono (fun _ _ => trivial) fun _ inHash => inHash.inside
    refine StaysInside.bind hashed fun h _ => ?_
    rw [ok_bind]
    split
    · exact post_fail
    · exact trivial

theorem checkSlotProbe_ok (read : BucketsRead p nBuckets hashAt keyAt hash key) {fuel i : Nat}
    (less : i < nBuckets.toNat) :
    checkSlotProbe fuel p nBuckets hashAt keyAt i = .ok () ↔
      ((key i).type ≠ .emptySlot →
        hashTableProbe fuel p (hash i) (key i) nBuckets hashAt keyAt
          = .ok (some (UInt32.ofNat i))) := by
  rw [checkSlotProbe, read.keyAt i less, ok_bind]
  by_cases isEmpty : (key i).type = .emptySlot
  · rw [if_pos isEmpty]
    exact ⟨fun _ notEmpty => absurd isEmpty notEmpty, fun _ => rfl⟩
  · rw [if_neg isEmpty, read.hashAt i less, ok_bind]
    cases hashTableProbe fuel p (hash i) (key i) nBuckets hashAt keyAt with
    | error e => simp [isEmpty]
    | ok probe =>
        rw [ok_bind]
        by_cases same : probe = some (UInt32.ofNat i)
        · simp [same]
        · simp [same, isEmpty, fail]

theorem escapes_checkSlotProbe (sound : p.Sound)
    (read : BucketsRead p nBuckets hashAt keyAt hash key) {k : Nat} (bound : k ≤ 31)
    (size : nBuckets = UInt32.ofNat (2 ^ k)) {fuel i : Nat} (less : i < nBuckets.toNat) :
    Escapes (checkSlotProbe fuel p nBuckets hashAt keyAt i) ↔ (key i).type ≠ .emptySlot ∧
      ∃ d < fuel, ProbeClash p nBuckets hashAt keyAt (hash i) (key i) d := by
  rw [checkSlotProbe, read.keyAt i less, ok_bind]
  by_cases isEmpty : (key i).type = .emptySlot
  · rw [if_pos isEmpty]
    exact ⟨fun escapes => absurd escapes (not_escapes_ok _), fun both => absurd isEmpty both.1⟩
  · rw [if_neg isEmpty, read.hashAt i less, ok_bind, escapes_bind,
      escapes_probe sound read bound size (read.reach i less) (hash i) fuel]
    constructor
    · rintro (clash | ⟨probe, -, escapes⟩)
      · exact ⟨isEmpty, clash⟩
      · split at escapes
        · exact absurd escapes not_escapes_fail
        · exact absurd escapes (not_escapes_ok _)
    · exact fun both => Or.inl both.2

/-- The keys of a table whose slots have been checked before slot `i`, which meets a
clash. -/
def SlotClash (fuel : Nat) (p : OpenFile) (nBuckets : UInt32) (hashAt : Nat → Res UInt32)
    (keyAt : Nat → Res Value) (i : Nat) : Prop :=
  (∀ j < i, checkSlotProbe fuel p nBuckets hashAt keyAt j = .ok ()) ∧
    ∃ key hash, keyAt i = .ok key ∧ hashAt i = .ok hash ∧ key.type ≠ .emptySlot ∧
      ∃ d < fuel, ProbeClash p nBuckets hashAt keyAt hash key d

/-- The check of a table leaves the buffer in the probe of a key that meets a clash. -/
theorem escapes_hashTableValidate (sound : p.Sound)
    (read : BucketsRead p nBuckets hashAt keyAt hash key)
    (valueRead : ∀ valueAt' ∈ valueAt, ∀ i < nBuckets.toNat, ∃ value, valueAt' i = .ok value)
    (fuel : Nat) :
    Escapes (hashTableValidate fuel p nBuckets hashAt keyAt nItems valueAt) ↔
      tableCounts nBuckets keyAt nItems valueAt = .ok () ∧
        (∀ i < nBuckets.toNat, checkSlotHash fuel p hashAt keyAt i = .ok ()) ∧
        ∃ i < nBuckets.toNat, SlotClash fuel p nBuckets hashAt keyAt i := by
  have counts : Post (fun _ => Counted nBuckets nItems key) Stop.Inside
      (tableCounts nBuckets keyAt nItems valueAt) :=
    tableCounts_post (fun _ => trivial) hashComputeNBuckets_inside read.keyAt valueRead
  have hashes : StaysInside ((List.range nBuckets.toNat).forM (checkSlotHash fuel p hashAt keyAt)) :=
    (Post.forM fun i mem => checkSlotHash_inside sound read (List.mem_range.mp mem)).mono
      (fun _ _ => trivial) fun _ inside => inside
  rw [hashTableValidate_eq,
    escapes_bind_of_inside (counts.mono (fun _ _ => trivial) fun _ inside => inside)]
  have allHashes : (List.range nBuckets.toNat).forM (checkSlotHash fuel p hashAt keyAt) = .ok () ↔
      ∀ i < nBuckets.toNat, checkSlotHash fuel p hashAt keyAt i = .ok () := by
    rw [forM_eq_ok]
    simp only [List.mem_range]
  have slots : ∀ k ≤ 31, nBuckets = UInt32.ofNat (2 ^ k) → ∀ i < nBuckets.toNat,
      ((∀ j < i, checkSlotProbe fuel p nBuckets hashAt keyAt j = .ok ()) ∧
        Escapes (checkSlotProbe fuel p nBuckets hashAt keyAt i)) ↔
      SlotClash fuel p nBuckets hashAt keyAt i := by
    intro k bound size i less
    rw [escapes_checkSlotProbe sound read bound size less, SlotClash, read.keyAt i less,
      read.hashAt i less]
    refine and_congr_right fun _ => ?_
    constructor
    · exact fun both => ⟨key i, hash i, rfl, rfl, both.1, both.2⟩
    · rintro ⟨key', hash', sameKey, sameHash, both⟩
      cases sameKey
      cases sameHash
      exact both
  constructor
  · rintro ⟨⟨⟩, counted, escapes⟩
    obtain ⟨k, bound, size⟩ := (counts.of_ok counted).size
    obtain ⟨⟨⟩, hashed, escapes⟩ := (escapes_bind_of_inside hashes).mp escapes
    obtain ⟨i, less, before, escapes⟩ := escapes_forM_range.mp escapes
    exact ⟨counted, allHashes.mp hashed, i, less,
      (slots k bound size i less).mp ⟨before, escapes⟩⟩
  · rintro ⟨counted, hashed, i, less, clash⟩
    obtain ⟨k, bound, size⟩ := (counts.of_ok counted).size
    obtain ⟨before, escapes⟩ := (slots k bound size i less).mpr clash
    exact ⟨(), counted, (escapes_bind_of_inside hashes).mpr
      ⟨(), allHashes.mpr hashed, escapes_forM_range.mpr ⟨i, less, before, escapes⟩⟩⟩

end Probes

end Pointless
