import Pointless.HashCalls
import Pointless.Lib.WalkTrace

/-!
# The bounds of the passes

Every pass of the validator goes at most `maxDepth` levels deep and expands a container
once, whatever the graph looks like: `pass_bounded`. The first two passes also end. The
third does, unless it comes to a table whose number of buckets is never found, or to
the hash of a vector that is one of its own items.
-/

namespace Pointless

open ByteMemory ExceptRules DepthFirst Acyclic Fuel

/-! ## Visits -/

/-- The visits of a pass, in a walk that may recurse `levels` deep. -/
def passTrace (levels : Nat) (p : OpenFile) (pass : ValidatePass) :
    List (Visit Value) × Res Visited :=
  trace (.fault .diverges) (walkChildren p) (validatePassCb p pass) levels p.root 0
    (.calloc p.header)

/-- A pass visits nothing below `maxDepth`, and expands every container once, under
either tag of value vectors. -/
structure PassBounded (p : OpenFile) (pass : ValidatePass) : Prop where
  depth : ∀ levels, ∀ call ∈ (passTrace levels p pass).1, call.depth ≤ maxDepth
  once : ∀ levels, (expandedKeys containerKey (passTrace levels p pass).1).Nodup

theorem passTrace_walk (p : OpenFile) (pass : ValidatePass) :
    (passTrace (maxDepth + 1) p pass).2 = walk p (validatePassCb p pass) (.calloc p.header) :=
  trace_walk _ _ _ _

theorem pass_bounded (p : OpenFile) (pass : ValidatePass) : PassBounded p pass := by
  constructor
  · intro levels
    exact trace_depth (fun v depth s deep => validatePassCb_deep deep) levels p.root
      (Nat.zero_le maxDepth) _
  · intro levels
    have fresh : ∀ {v depth s s'}, validatePassCb p pass v depth s = .ok (.visitChildren, s') →
        ∀ key, containerKey v = some key → ¬s.Has key := by
      intro v depth s s' expanded
      obtain ⟨-, ⟨bad, -⟩ | ⟨-, -, -, unseen⟩⟩ := validatePassCb_ok expanded
      · cases bad
      · exact unseen
    have once : ExpandsOnce containerKey Visited.Has (.calloc p.header) (passTrace levels p pass) :=
      trace_once validatePassCb_marks fresh levels p.root 0 _
    exact once.1

/-! ## The first two passes -/

/-- A stop that is not divergence. -/
def Stop.Ended (e : Stop) : Prop := e ≠ .fault .diverges

/-- The action ends. -/
abbrev Ended {α : Type} (action : Res α) : Prop := Post (fun _ => True) Stop.Ended action

section Ended

variable {α β : Type}

theorem ended_iff {action : Res α} : Ended action ↔ action ≠ .error (.fault .diverges) := by
  cases action with
  | ok a => simp
  | error e => simp [Stop.Ended]

theorem ended_fail {message : String} : Ended (fail message : Res α) := by
  simp [fail, Stop.Ended]

theorem Ended.bind {x : Res α} {f : α → Res β} (first : Ended x) (next : ∀ a, Ended (f a)) :
    Ended (x >>= f) := Post.bind first fun a _ _ => next a

theorem Ended.ite {c : Prop} [Decidable c] {x y : Res α} (yes : Ended x) (no : Ended y) :
    Ended (if c then x else y) := by
  split
  · exact yes
  · exact no

theorem loadWord_ended (w : Nat) (m : List UInt8) (off : Nat) : Ended (loadWord w m off) := by
  unfold loadWord
  split
  · exact trivial
  · simp [fault, Stop.Ended]

theorem loadU32_ended (m : List UInt8) (off : Nat) : Ended (loadU32 m off) :=
  Post.map (loadWord_ended 4 m off)

theorem loadValue_ended (m : List UInt8) (off : Nat) : Ended (loadValue m off) :=
  (loadU32_ended m off).bind fun _ => (loadU32_ended m _).bind fun _ => trivial

theorem pcOffset_ended (offsets : List UInt64) (i : UInt32) : Ended (pcOffset offsets i) := by
  unfold pcOffset
  split
  · exact trivial
  · simp [fault, Stop.Ended]

/-- A count or a value at some distance from the offset of an object. -/
theorem countAt_ended (offsets : List UInt64) (m : List UInt8) (i : UInt32) :
    Ended (pcOffset offsets i >>= fun off => loadU32 m off) :=
  (pcOffset_ended offsets i).bind fun _ => loadU32_ended m _

theorem valueAt_ended (offsets : List UInt64) (m : List UInt8) (i : UInt32) (distance : Nat) :
    Ended (pcOffset offsets i >>= fun off => loadValue m (off + distance)) :=
  (pcOffset_ended offsets i).bind fun _ => loadValue_ended m _

end Ended

section Checks

variable {p : OpenFile} {v : Value}

theorem readerVectorNItems_ended (p : OpenFile) (v : Value) : Ended (readerVectorNItems p v) :=
  Ended.ite trivial (countAt_ended _ _ _)

theorem readerVectorValue_ended (p : OpenFile) (v : Value) (i : Nat) :
    Ended (readerVectorValue p v i) := by
  have base : Ended (readerVectorBasePtr p v) := by
    apply Ended.ite
    · simp [fault, Stop.Ended]
    · exact (pcOffset_ended _ _).bind fun _ => trivial
  exact base.bind fun _ => loadValue_ended _ _

theorem checkRef_ended (v : Value) (count : UInt32) (message : String) :
    Ended (checkRef v count message) := Ended.ite ended_fail trivial

theorem validateHeapRef_ended : Ended (validateHeapRef p v) := by
  unfold validateHeapRef
  split <;> first | exact checkRef_ended _ _ _ | exact trivial | exact ended_fail

theorem validateInlineInvariants_ended : Ended (validateInlineInvariants v) := by
  unfold validateInlineInvariants
  split <;> first | exact trivial | exact Ended.ite ended_fail trivial | exact ended_fail

theorem validateTerminator_ended (w start len : Nat) (premature missing : String) :
    Ended (validateTerminator p w start len premature missing) := by
  have each : ∀ i ∈ List.range len, Ended (do
      let c ← loadWord w p.heap (start + w * i)
      if c = 0 then fail premature else pure ()) :=
    fun i _ => (loadWord_ended _ _ _).bind fun _ => Ended.ite ended_fail trivial
  have row := (Post.forM each).mono (fun _ _ => trivial) fun _ ended => ended
  exact Ended.bind row fun _ => (loadWord_ended _ _ _).bind fun _ => Ended.ite ended_fail trivial

theorem validateVectorHeap_ended : Ended (validateVectorHeap p v) :=
  (pcOffset_ended _ _).bind fun _ => Ended.ite ended_fail <|
    (loadU32_ended _ _).bind fun _ => Ended.ite ended_fail trivial

theorem validateBitvectorHeap_ended : Ended (validateBitvectorHeap p v) :=
  (pcOffset_ended _ _).bind fun _ => Ended.ite ended_fail <|
    (loadU32_ended _ _).bind fun _ => Ended.ite ended_fail trivial

theorem validateUnicodeHeap_ended : Ended (validateUnicodeHeap p v) :=
  (pcOffset_ended _ _).bind fun _ => Ended.ite ended_fail <|
    (loadU32_ended _ _).bind fun _ => Ended.ite ended_fail (validateTerminator_ended _ _ _ _ _)

theorem validateStringHeap_ended : Ended (validateStringHeap p v) :=
  (pcOffset_ended _ _).bind fun _ => Ended.ite ended_fail <|
    (loadU32_ended _ _).bind fun _ => Ended.ite ended_fail (validateTerminator_ended _ _ _ _ _)

theorem validateSetHeap_ended : Ended (validateSetHeap p v) :=
  (pcOffset_ended _ _).bind fun _ => Ended.ite ended_fail <|
    (valueAt_ended _ _ _ _).bind fun _ => Ended.ite ended_fail <|
      (valueAt_ended _ _ _ _).bind fun _ => Ended.ite ended_fail trivial

theorem validateMapHeap_ended : Ended (validateMapHeap p v) :=
  (pcOffset_ended _ _).bind fun _ => Ended.ite ended_fail <|
    (valueAt_ended _ _ _ _).bind fun _ => Ended.ite ended_fail <|
      (valueAt_ended _ _ _ _).bind fun _ => Ended.ite ended_fail <|
        (valueAt_ended _ _ _ _).bind fun _ => Ended.ite ended_fail trivial

theorem validateHeapValue_ended : Ended (validateHeapValue p v) := by
  unfold validateHeapValue
  split <;> first
    | exact validateVectorHeap_ended
    | exact validateUnicodeHeap_ended
    | exact validateStringHeap_ended
    | exact validateBitvectorHeap_ended
    | exact validateSetHeap_ended
    | exact validateMapHeap_ended
    | exact trivial
    | exact ended_fail

theorem isSet_ended (m : Bitmask) (i : Nat) : Ended (m.isSet i) :=
  Ended.ite trivial (by simp [fault, Stop.Ended])

theorem markVisited_ended (v : Value) (s : Visited) : Ended (markVisited v s) := by
  have bit : ∀ m i, Ended (markBit m i) := fun m i =>
    (isSet_ended m i).bind fun seen => Ended.ite trivial <|
      Ended.bind (Ended.ite trivial (by simp [fault, Stop.Ended])) fun _ => trivial
  cases isKey : containerKey v with
  | none =>
      rw [markVisited_of_none isKey]
      exact trivial
  | some key =>
      rw [markVisited_of_key isKey]
      exact (bit _ _).bind fun _ => trivial

theorem walkChildren_ended (p : OpenFile) (v : Value) :
    Post (fun nodes => ∀ node ∈ nodes, Ended node) Stop.Ended (walkChildren p v) := by
  have items : Post (fun nodes => ∀ node ∈ nodes, Ended node) Stop.Ended (do
      let nItems ← readerVectorNItems p v
      pure ((List.range nItems.toNat).map fun i => readerVectorValue p v i)) := by
    refine Post.bind (readerVectorNItems_ended p v) fun n _ _ node mem => ?_
    obtain ⟨i, -, rfl⟩ := List.mem_map.mp mem
    exact readerVectorValue_ended p v i
  unfold walkChildren
  split
  · exact items
  · exact items
  · intro node mem
    simp only [List.mem_cons, List.not_mem_nil, or_false] at mem
    rcases mem with rfl | rfl
    · exact valueAt_ended _ _ _ _
    · exact valueAt_ended _ _ _ _
  · intro node mem
    simp only [List.mem_cons, List.not_mem_nil, or_false] at mem
    rcases mem with rfl | rfl | rfl
    · exact valueAt_ended _ _ _ _
    · exact valueAt_ended _ _ _ _
    · exact valueAt_ended _ _ _ _
  · exact fun node mem => absurd mem List.not_mem_nil

/-- A pass ends when its checks do. -/
theorem validatePass_ended {pass : ValidatePass} (ref : ∀ v, Ended (passRef p pass v))
    (check : ∀ v, Ended (passCheck p pass v)) : Ended (validatePass p pass) := by
  refine Ended.bind ?_ fun _ => trivial
  refine walk_post (fun _ => True) maxDepth ?_ ?_ (fun v depth s deep => validatePassCb_deep deep)
    (by omega) (by omega) trivial trivial
  · intro v _ depth s _
    refine Ended.ite ended_fail ((ref v).bind fun _ => (markVisited_ended v s).bind fun marked => ?_)
    cases marked with
    | none => exact trivial
    | some s' => exact (check v).bind fun _ => trivial
  · intro v _ depth s _ s' _
    refine (walkChildren_ended p v).mono (fun nodes all node mem => ?_) fun _ bad => bad
    exact (all node mem).mono (fun _ _ => trivial) fun _ bad => bad

theorem sanity_ended (p : OpenFile) : Ended (validatePass p .sanity) :=
  validatePass_ended (fun _ => validateHeapRef_ended) fun _ =>
    validateInlineInvariants_ended.bind fun _ => validateHeapValue_ended

theorem cycles_ended (p : OpenFile) (cycleMarker : Bitmask) :
    Ended (validatePass p (.cycles cycleMarker)) :=
  validatePass_ended (fun _ => trivial) fun _ =>
    Ended.ite ((isSet_ended _ _).bind fun _ => Ended.ite ended_fail trivial) trivial

end Checks

/-! ## The checks of the third pass grow with their fuel -/

section Grows

variable {p : OpenFile} {nBuckets nItems : UInt32} {hashAt : Nat → Res UInt32}
  {keyAt : Nat → Res Value} {valueAt : Option (Nat → Res Value)}

theorem hashTableProbeLoop_grows (isEqual : Value → Res Bool) (hash : UInt32) (s : HashIterState) :
    Grows (.fault .diverges) fun fuel => hashTableProbeLoop isEqual hashAt keyAt hash fuel s := by
  intro fuel
  induction fuel generalizing s with
  | zero => exact Or.inl rfl
  | succ fuel ih =>
      change Below _ (hashTableProbeLoop isEqual hashAt keyAt hash (fuel + 1) s)
        (hashTableProbeLoop isEqual hashAt keyAt hash (fuel + 1 + 1) s)
      unfold hashTableProbeLoop
      refine Below.bind (Below.refl _) fun key => Below.ite (Below.refl _) ?_
      refine Below.bind (Below.refl _) fun stored => Below.ite ?_ ?_
      · exact Below.bind (Below.refl _) fun found => Below.ite (Below.refl _) (ih s.next)
      · exact Below.bind (Below.refl _) fun found => Below.ite (Below.refl _) (ih s.next)

theorem checkSlotHash_grows (i : Nat) :
    Grows (.fault .diverges) fun fuel => checkSlotHash fuel p hashAt keyAt i := by
  intro fuel
  refine Below.bind (Below.refl _) fun key => Below.ite (Below.refl _) ?_
  exact Below.bind (hashReader32_grows key fuel) fun hash => Below.refl _

theorem checkSlotProbe_grows (i : Nat) :
    Grows (.fault .diverges) fun fuel => checkSlotProbe fuel p nBuckets hashAt keyAt i := by
  intro fuel
  refine Below.bind (Below.refl _) fun key => Below.ite (Below.refl _) ?_
  refine Below.bind (Below.refl _) fun hash => Below.bind ?_ fun probe => Below.refl _
  exact hashTableProbeLoop_grows (keyEquals p key) hash _ fuel

theorem hashTableValidate_grows : Grows (.fault .diverges) fun fuel =>
    hashTableValidate fuel p nBuckets hashAt keyAt nItems valueAt := by
  intro fuel
  change Below _ (hashTableValidate fuel p nBuckets hashAt keyAt nItems valueAt)
    (hashTableValidate (fuel + 1) p nBuckets hashAt keyAt nItems valueAt)
  rw [hashTableValidate_eq, hashTableValidate_eq]
  refine Below.bind (Below.refl _) fun _ => Below.bind ?_ fun _ => ?_
  · exact Grows.forM checkSlotHash_grows _ fuel
  · exact Grows.forM checkSlotProbe_grows _ fuel

theorem passCheck_grows (t : Value) :
    Grows (.fault .diverges) fun fuel => passCheck p (.hashTables fuel) t := by
  intro fuel
  refine Below.ite ?_ (Below.ite ?_ (Below.refl _))
  · refine Below.bind (Below.refl _) fun hashes => Below.bind (Below.refl _) fun keys => ?_
    refine Below.bind (Below.refl _) fun values => Below.bind (Below.refl _) fun nHash => ?_
    refine Below.bind (Below.refl _) fun nKeys => Below.bind (Below.refl _) fun nValues => ?_
    refine Below.ite (Below.refl _) (Below.bind (Below.refl _) fun nItems => ?_)
    exact hashTableValidate_grows fuel
  · refine Below.bind (Below.refl _) fun hashes => Below.bind (Below.refl _) fun keys => ?_
    refine Below.bind (Below.refl _) fun nHash => Below.bind (Below.refl _) fun nKeys => ?_
    refine Below.ite (Below.refl _) (Below.bind (Below.refl _) fun nItems => ?_)
    exact hashTableValidate_grows fuel

end Grows

/-! ## The check of a table -/

section Tables

variable {p : OpenFile} {nBuckets nItems : UInt32} {hashAt : Nat → Res UInt32}
  {keyAt : Nat → Res Value} {valueAt : Option (Nat → Res Value)} {hash : Nat → UInt32}
  {key : Nat → Value}

theorem keyEquals_ended (sound : p.Sound) {value other : Value} (valueReach : Reachable p value)
    (otherReach : Reachable p other) : Ended (keyEquals p value other) := by
  have outcome : CompareOutcome (MeetsClash p (maxDepth + 1) value.toComplete other.toComplete 0)
      (cmpReaderRec true p p (maxDepth + 1) value.toComplete other.toComplete 0) :=
    cmpReaderRec_outcome sound (.value valueReach) (.value otherReach) (by decide) (by decide)
  rw [keyEquals, cmpReader]
  rcases outcome with ⟨-, stopped⟩ | ⟨-, ⟨c, returned⟩ | ⟨message, stopped⟩⟩
  · rw [stopped]
    simp [fault, Stop.Ended]
  · rw [returned]
    exact trivial
  · rw [stopped]
    exact ended_fail

/-- Of the checks of a slot, that of its hash ends when the hash of its key does. -/
theorem checkSlotHash_ends (sound : p.Sound)
    (read : BucketsRead p nBuckets hashAt keyAt hash key) {i : Nat} (less : i < nBuckets.toNat) :
    Ends (.fault .diverges) (fun fuel => checkSlotHash fuel p hashAt keyAt i) ↔
      (isHashable (key i).type = true → NoCycle (HashCalls p) (key i)) := by
  have slot : (fun fuel => checkSlotHash fuel p hashAt keyAt i) = fun fuel =>
      if ¬isHashable (key i).type then fail "key in set/map is not hashable"
      else hashReader32 p fuel (key i) >>= fun found =>
        if found ≠ hash i then fail "hash for object in hash-table does not match hash in slot"
        else pure () := by
    funext fuel
    rw [checkSlotHash, read.keyAt i less, read.hashAt i less]
    rfl
  rw [slot]
  by_cases hashable : isHashable (key i).type = true
  · simp only [hashable, not_true_eq_false, if_false, forall_const]
    rw [ends_bind_const, hash_ends sound (read.reach i less)]
    intro found
    split
    · simp [fail]
    · exact fun bad => by cases bad
  · refine ⟨fun _ bad => absurd bad hashable, fun _ => ⟨0, ?_⟩⟩
    simp [hashable, fail]

/-- With an empty bucket in the table every probe ends. -/
theorem checkSlotProbe_ends (sound : p.Sound)
    (read : BucketsRead p nBuckets hashAt keyAt hash key) (counted : Counted nBuckets nItems key)
    {i : Nat} (less : i < nBuckets.toNat) :
    Ends (.fault .diverges) fun fuel => checkSlotProbe fuel p nBuckets hashAt keyAt i := by
  obtain ⟨k, bound, size⟩ := counted.size
  have reads : ∀ d, ∃ other stored, keyAt (probePath nBuckets (hash i) d) = .ok other ∧
      hashAt (probePath nBuckets (hash i) d) = .ok stored := by
    intro d
    obtain ⟨keyRead, hashRead, -⟩ := read.path bound size (hash i) d
    exact ⟨_, _, keyRead, hashRead⟩
  refine ⟨7 + nBuckets.toNat, ended_iff.mp ?_⟩
  change Ended (checkSlotProbe (7 + nBuckets.toNat) p nBuckets hashAt keyAt i)
  rw [checkSlotProbe, read.keyAt i less, ok_bind]
  apply Ended.ite
  · exact trivial
  · rw [read.hashAt i less, ok_bind]
    refine Ended.bind ?_ fun _ => Ended.ite ended_fail trivial
    rw [hashTableProbe_eq]
    have ended := @hashTableProbePriv_ends (keyEquals p (key i)) _ _ _ _ reads (7 + nBuckets.toNat)
    rcases ended with ⟨passes, -⟩ | ⟨d, -, -, ends⟩
    · obtain ⟨d, inside, isEmpty, -⟩ := counted.gap (hash i)
      obtain ⟨other, stored, keyRead, occupied, -⟩ := passes d inside
      rw [(read.path bound size (hash i) d).1] at keyRead
      cases keyRead
      exact absurd isEmpty occupied
    · generalize hashTableProbePriv (7 + nBuckets.toNat) (keyEquals p (key i)) (hash i) nBuckets
        hashAt keyAt = outcome at ends
      cases ends with
      | miss => exact trivial
      | hit => exact trivial
      | stop keyRead _ _ failed =>
          obtain ⟨keyRead', -, otherReach⟩ := read.path bound size (hash i) d
          rw [keyRead] at keyRead'
          cases keyRead'
          exact (keyEquals_ended sound (read.reach i less) otherReach).of_error failed

theorem tableCounts_ended (keyRead : ∀ i < nBuckets.toNat, keyAt i = .ok (key i))
    (valueRead : ∀ valueAt' ∈ valueAt, ∀ i < nBuckets.toNat, ∃ value, valueAt' i = .ok value) :
    Ended (tableCounts nBuckets keyAt nItems valueAt) ↔ ¬NBucketsOverrun nItems := by
  constructor
  · intro ended overrun
    have stuck : hashComputeNBuckets nItems = fault .diverges :=
      hashComputeNBucketsIn_overrun overrun 33
    rw [tableCounts, stuck] at ended
    exact ended rfl
  · intro inside
    obtain ⟨expected, computed⟩ := hashComputeNBuckets_ok inside
    have computes : Ended (hashComputeNBuckets nItems) := by
      rw [computed]
      exact trivial
    have counts := tableCounts_post (fun _ bad => by cases bad) computes keyRead valueRead
    exact counts.mono (fun _ _ => trivial) fun _ ended => ended

/-- When the check of a table ends: its number of buckets is computed, and the hash of
every key that it comes to ends. -/
theorem hashTableValidate_ends (sound : p.Sound)
    (read : BucketsRead p nBuckets hashAt keyAt hash key)
    (valueRead : ∀ valueAt' ∈ valueAt, ∀ i < nBuckets.toNat, ∃ value, valueAt' i = .ok value) :
    Ends (.fault .diverges)
        (fun fuel => hashTableValidate fuel p nBuckets hashAt keyAt nItems valueAt) ↔
      ¬NBucketsOverrun nItems ∧ (tableCounts nBuckets keyAt nItems valueAt = .ok () →
        ∀ fuel, ∀ i < nBuckets.toNat, (∀ j < i, checkSlotHash fuel p hashAt keyAt j = .ok ()) →
          isHashable (key i).type = true → NoCycle (HashCalls p) (key i)) := by
  have hashesGrow : Grows (.fault .diverges) fun fuel =>
      (List.range nBuckets.toNat).forM (checkSlotHash fuel p hashAt keyAt) :=
    Grows.forM checkSlotHash_grows _
  have probesGrow : Grows (.fault .diverges) fun fuel =>
      (List.range nBuckets.toNat).forM (checkSlotProbe fuel p nBuckets hashAt keyAt) :=
    Grows.forM checkSlotProbe_grows _
  have hashes : Ends (.fault .diverges) (fun fuel =>
        (List.range nBuckets.toNat).forM (checkSlotHash fuel p hashAt keyAt)) ↔
      ∀ fuel, ∀ i < nBuckets.toNat, (∀ j < i, checkSlotHash fuel p hashAt keyAt j = .ok ()) →
        isHashable (key i).type = true → NoCycle (HashCalls p) (key i) := by
    rw [ends_forM_range checkSlotHash_grows]
    refine forall_congr' fun fuel => forall_congr' fun i => forall_congr' fun less => ?_
    exact imp_congr_right fun _ => checkSlotHash_ends sound read less
  have rest : Ends (.fault .diverges) (fun fuel =>
        (List.range nBuckets.toNat).forM (checkSlotHash fuel p hashAt keyAt) >>= fun _ =>
          (List.range nBuckets.toNat).forM (checkSlotProbe fuel p nBuckets hashAt keyAt)) ↔
      Ends (.fault .diverges) (fun fuel =>
          (List.range nBuckets.toNat).forM (checkSlotHash fuel p hashAt keyAt)) ∧
        ∀ fuel done, (List.range nBuckets.toNat).forM (checkSlotHash fuel p hashAt keyAt) = .ok done →
          Ends (.fault .diverges) fun fuel =>
            (List.range nBuckets.toNat).forM (checkSlotProbe fuel p nBuckets hashAt keyAt) :=
    ends_bind hashesGrow fun _ => probesGrow
  have whole : Ends (.fault .diverges)
        (fun fuel => hashTableValidate fuel p nBuckets hashAt keyAt nItems valueAt) ↔
      Ends (.fault .diverges) (fun _ => tableCounts nBuckets keyAt nItems valueAt) ∧
        ∀ (fuel : Nat) done, tableCounts nBuckets keyAt nItems valueAt = .ok done →
          Ends (.fault .diverges) fun fuel =>
            (List.range nBuckets.toNat).forM (checkSlotHash fuel p hashAt keyAt) >>= fun _ =>
              (List.range nBuckets.toNat).forM (checkSlotProbe fuel p nBuckets hashAt keyAt) := by
    rw [funext fun fuel => hashTableValidate_eq fuel p]
    exact ends_bind (Grows.const _) fun _ => hashesGrow.bind fun _ => probesGrow
  rw [whole, ends_const, ← ended_iff, tableCounts_ended read.keyAt valueRead, rest, hashes]
  refine and_congr_right fun inside => ?_
  constructor
  · exact fun ends counted => (ends 0 () counted).1
  · intro ends fuel done counted
    have post : Post (fun _ => Counted nBuckets nItems key) Stop.Inside
        (tableCounts nBuckets keyAt nItems valueAt) :=
      tableCounts_post (fun _ => trivial) hashComputeNBuckets_inside read.keyAt valueRead
    refine ⟨ends counted, fun _ _ _ => (ends_forM_range checkSlotProbe_grows).mpr ?_⟩
    exact fun _ i less _ => checkSlotProbe_ends sound read (post.of_ok counted) less

/-- When the third pass ends at a reachable value. -/
theorem passCheck_ends (sound : p.Sound) {t : Value} (reach : Reachable p t) :
    Ends (.fault .diverges) (fun fuel => passCheck p (.hashTables fuel) t) ↔
      (∀ table nBuckets, TableAt p t table → table.Even p nBuckets →
        ¬NBucketsOverrun table.nItems) ∧
      ∀ fuel v, TableHashes fuel p t v → NoCycle (HashCalls p) v := by
  by_cases type : isTableType t.type
  · obtain ⟨table, at_t, known⟩ := sound.table reach type
    rcases sound.tablePass at_t known with ⟨uneven, message, pass⟩ | ⟨nBuckets, even, pass⟩
    · rw [funext pass]
      constructor
      · intro _
        constructor
        · intro table' nBuckets at_t' even
          rw [at_t'.unique at_t] at even
          exact absurd ⟨nBuckets, even⟩ uneven
        · rintro fuel v ⟨table', nBuckets, at_t', even, -⟩
          rw [at_t'.unique at_t] at even
          exact absurd ⟨nBuckets, even⟩ uneven
      · exact fun _ => ends_const.mpr (by simp [fail])
    · obtain ⟨hash, key, read⟩ := sound.tableRead known even
      rw [funext pass]
      change Ends _ (fun fuel => hashTableValidate fuel p nBuckets (hashVectorAt p table.hashes)
        (readerVectorValue p table.keys) table.nItems
        (table.values.map (readerVectorValue p))) ↔ _
      rw [hashTableValidate_ends sound read.buckets read.valueRead]
      constructor
      · intro ends
        constructor
        · intro table' nBuckets' at_t' _
          rw [at_t'.unique at_t]
          exact ends.1
        · rintro fuel v ⟨table', nBuckets', at_t', even', counted, i, less, before, keyRead, hashable⟩
          obtain rfl := at_t'.unique at_t
          obtain rfl := even'.unique even
          rw [read.buckets.keyAt i less] at keyRead
          cases keyRead
          exact ends.2 counted fuel i less before hashable
      · intro ends
        refine ⟨ends.1 table nBuckets at_t even, fun counted fuel i less before hashable => ?_⟩
        exact ends.2 fuel (key i) ⟨table, nBuckets, at_t, even, counted, i, less, before,
          read.buckets.keyAt i less, hashable⟩
  · have nothing : ∀ fuel, passCheck p (.hashTables fuel) t = .ok () := by
      intro fuel
      have notMap : t.type ≠ .mapValueValue := fun bad => type (Or.inr bad)
      have notSet : t.type ≠ .setValue := fun bad => type (Or.inl bad)
      simp [passCheck, notMap, notSet]
    rw [funext nothing]
    constructor
    · intro _
      constructor
      · exact fun table nBuckets at_t _ => absurd at_t.isTable type
      · rintro fuel v ⟨table, nBuckets, at_t, -⟩
        exact absurd at_t.isTable type
    · exact fun _ => ends_const.mpr fun bad => by cases bad

end Tables

/-! ## The third pass -/

/-- The third pass comes to the check of a table. -/
def PassTable (fuel : Nat) (p : OpenFile) (table : Table) : Prop :=
  ∃ before t after nBuckets, passOrder p = .ok (before ++ t :: after) ∧
    before.forM (passCheck p (.hashTables fuel)) = .ok () ∧ TableAt p t table ∧
    table.Even p nBuckets

section Pass

variable {p : OpenFile}

/-- What a table check comes to it also comes to with more fuel. -/
theorem TableHashes.le {fuel more : Nat} (enough : fuel ≤ more) {t v : Value}
    (hashes : TableHashes fuel p t v) : TableHashes more p t v := by
  obtain ⟨table, nBuckets, at_t, even, counted, i, less, before, read, hashable⟩ := hashes
  refine ⟨table, nBuckets, at_t, even, counted, i, less, fun j earlier => ?_, read, hashable⟩
  exact ((checkSlotHash_grows j).le enough).ok (before j earlier)

/-- When the third pass ends. -/
theorem hashTables_ends (sound : p.Sound) {cycleMarker : Bitmask}
    (passed : validatePass p (.cycles cycleMarker) = .ok ()) :
    Ends (.fault .diverges) (fun fuel => validatePass p (.hashTables fuel)) ↔
      (∀ fuel table, PassTable fuel p table → ¬NBucketsOverrun table.nItems) ∧
      ∀ fuel v, PassHashes fuel p v → NoCycle (HashCalls p) v := by
  obtain ⟨order, listed, pass⟩ := hashTables_pass passed
  have reach := passOrder_reachable listed
  rw [funext pass, ends_forM passCheck_grows]
  constructor
  · intro ends
    have here : ∀ {fuel before t after}, passOrder p = .ok (before ++ t :: after) →
        before.forM (passCheck p (.hashTables fuel)) = .ok () →
        (∀ table nBuckets, TableAt p t table → table.Even p nBuckets →
          ¬NBucketsOverrun table.nItems) ∧
        ∀ fuel v, TableHashes fuel p t v → NoCycle (HashCalls p) v := by
      intro fuel before t after listed' checked
      rw [listed] at listed'
      cases listed'
      have tReach := reach t (by simp)
      exact (passCheck_ends sound tReach).mp (ends fuel before t after rfl checked)
    constructor
    · rintro fuel table ⟨before, t, after, nBuckets, listed', checked, at_t, even⟩
      exact (here listed' checked).1 table nBuckets at_t even
    · rintro fuel v ⟨before, t, after, listed', checked, hashes⟩
      exact (here listed' checked).2 fuel v hashes
  · rintro ⟨counts, hashes⟩ fuel before t after rfl checked
    have tReach := reach t (by simp)
    refine (passCheck_ends sound tReach).mpr ⟨fun table nBuckets at_t even => ?_,
      fun fuel' v tableHashes => ?_⟩
    · exact counts fuel table ⟨before, t, after, nBuckets, listed, checked, at_t, even⟩
    · have more := ((Grows.forM passCheck_grows before).le (Nat.le_max_left fuel fuel')).ok checked
      exact hashes (max fuel fuel') v ⟨before, t, after, listed, more,
        tableHashes.le (Nat.le_max_right fuel fuel')⟩

end Pass

/-! ## The three passes -/

/-- Every pass that opening a buffer comes to ends and is bounded. -/
def PassesBounded (buf : List UInt8) : Prop :=
  ∀ p error, init buf = .ok (p, error) →
    (Ended (validatePass p .sanity) ∧ PassBounded p .sanity) ∧
    (PassesSanity p → ∀ cycleMarker, cycleMarkerRead p = .ok cycleMarker →
      Ended (validatePass p (.cycles cycleMarker)) ∧ PassBounded p (.cycles cycleMarker)) ∧
    (PassesCycles p → Ends (.fault .diverges) (fun fuel => validatePass p (.hashTables fuel)) ∧
      ∀ fuel, PassBounded p (.hashTables fuel))

/-- No table that the third pass comes to has an item count for which no number of
buckets is found, and no hash that it comes to calls for itself. -/
def ThirdPassEnds (buf : List UInt8) : Prop :=
  ∀ p error, init buf = .ok (p, error) → PassesCycles p →
    (∀ fuel table, PassTable fuel p table → ¬NBucketsOverrun table.nItems) ∧
    ∀ fuel v, PassHashes fuel p v → NoCycle (HashCalls p) v

/-- The passes are bounded when the third of them ends. -/
theorem passes_bounded (buf : List UInt8) : PassesBounded buf ↔ ThirdPassEnds buf := by
  constructor
  · intro bounded p error laid cycles
    obtain ⟨-, -, third⟩ := bounded p error laid
    have ends := (third cycles).1
    obtain ⟨sanity, cycleMarker, -, passed⟩ := cycles
    exact (hashTables_ends (sanity.sound laid) passed).mp ends
  · intro ends p error laid
    refine ⟨⟨sanity_ended p, pass_bounded p _⟩, fun _ cycleMarker _ =>
      ⟨cycles_ended p cycleMarker, pass_bounded p _⟩, fun cycles => ⟨?_, fun _ => pass_bounded p _⟩⟩
    have third := ends p error laid cycles
    obtain ⟨sanity, cycleMarker, -, passed⟩ := cycles
    exact (hashTables_ends (sanity.sound laid) passed).mpr third

/-! ## A file with too many items -/

/-- A set with no buckets and an item count of `0x80000000`. -/
def overrunFile : List UInt8 :=
  bytesValue ⟨.setValue, 0⟩ ++ bytesU32 0 ++ bytesU32 2 ++ bytesU32 0 ++ bytesU32 1 ++ bytesU32 0 ++
    bytesU32 2 ++
    bytesU64 0 ++ bytesU64 4 ++ bytesU64 8 ++
    bytesU32 0 ++ bytesU32 0 ++
    bytesU32 0x80000000 ++ bytesU32 0 ++ bytesValue ⟨.vectorU32, 0⟩ ++
    bytesValue ⟨.vectorValueHashable, 1⟩

/-- The file opened. -/
def overrunOpened : OpenFile where
  header := ⟨⟨.setValue, 0⟩, 0, 2, 0, 1, 0, 2⟩
  stringUnicodeOffsets := []
  vectorOffsets := [0, 4]
  bitvectorOffsets := []
  setOffsets := [8]
  mapOffsets := []
  heap := overrunFile.drop 56

set_option maxRecDepth 4000 in
/-- The third pass over the file looks for a number of buckets forever. -/
theorem overrunFile_not_bounded : ¬PassesBounded overrunFile := by
  intro bounded
  have laid : init overrunFile = .ok (overrunOpened, none) := by decide +kernel
  have sanity : PassesSanity overrunOpened := by
    unfold PassesSanity
    decide +kernel
  have marked : cycleMarkerRead overrunOpened = .ok ⟨1, []⟩ := by decide +kernel
  have passed : validatePass overrunOpened (.cycles ⟨1, []⟩) = .ok () := by decide +kernel
  obtain ⟨-, -, third⟩ := bounded overrunOpened none laid
  have ends := (third ⟨sanity, _, marked, passed⟩).1
  have tables := ((hashTables_ends (sanity.sound laid) passed).mp ends).1
  have order : passOrder overrunOpened
      = .ok ([] ++ ⟨.setValue, 0⟩ :: [⟨.vectorU32, 0⟩, ⟨.vectorValueHashable, 1⟩]) := by
    decide +kernel
  have at_t : TableAt overrunOpened ⟨.setValue, 0⟩
      ⟨⟨.vectorU32, 0⟩, ⟨.vectorValueHashable, 1⟩, none, 0x80000000⟩ :=
    .set rfl (by decide) (by decide) (by decide)
  have even : Table.Even overrunOpened
      ⟨⟨.vectorU32, 0⟩, ⟨.vectorValueHashable, 1⟩, none, 0x80000000⟩ 0 :=
    ⟨by decide, by decide, nofun⟩
  exact tables 0 _ ⟨[], _, _, 0, order, rfl, at_t, even⟩ (by unfold NBucketsOverrun; decide)

end Pointless
