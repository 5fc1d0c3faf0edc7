import Pointless.HashSound

/-!
# The tables of an accepted file

What the third pass leaves of a table, and the three ways of going through it: one
bucket after the other, by a key, and by a hash.
-/

namespace Pointless

open ByteMemory ExceptRules OpenAddressing

/-! ## Calling an iterator -/

/-- Call an iterator until it is done. Each entry comes with the state after it. -/
def iterRun {α σ : Type} (next : σ → Res (Option (α × σ))) : Nat → σ → Res (List (α × σ))
  | 0, _ => fault .diverges
  | calls + 1, s => do
      let entry ← next s
      match entry with
      | none => pure []
      | some entry => (entry :: ·) <$> iterRun next calls entry.2

section Run

variable {α σ : Type} {next : σ → Res (Option (α × σ))}

theorem iterRun_done {calls : Nat} {s : σ} (done : next s = .ok none) :
    iterRun next (calls + 1) s = .ok [] := by
  rw [iterRun, done]
  rfl

theorem iterRun_entry {calls : Nat} {s : σ} {entry : α × σ} (called : next s = .ok (some entry))
    {entries : List (α × σ)} (rest : iterRun next calls entry.2 = .ok entries) :
    iterRun next (calls + 1) s = .ok (entry :: entries) := by
  rw [iterRun, called, ok_bind]
  simp only [rest, map_ok]

theorem iterRun_succ {calls : Nat} {s : σ} {entries : List (α × σ)}
    (returned : iterRun next calls s = .ok entries) : iterRun next (calls + 1) s = .ok entries := by
  induction calls generalizing s entries with
  | zero => cases returned
  | succ calls ih =>
      rw [iterRun] at returned
      obtain ⟨entry, called, returned⟩ := bind_eq_ok.mp returned
      cases entry with
      | none =>
          cases returned
          exact iterRun_done called
      | some entry =>
          obtain ⟨rest, others, rfl⟩ := map_eq_ok.mp returned
          exact iterRun_entry called (ih others)

theorem iterRun_le {calls more : Nat} (enough : calls ≤ more) {s : σ} {entries : List (α × σ)}
    (returned : iterRun next calls s = .ok entries) : iterRun next more s = .ok entries := by
  induction enough with
  | refl => exact returned
  | step _ ih => exact iterRun_succ ih

/-- An iterator yields the same entries however often it may be called. -/
theorem iterRun_unique {calls calls' : Nat} {s : σ} {entries entries' : List (α × σ)}
    (first : iterRun next calls s = .ok entries) (second : iterRun next calls' s = .ok entries') :
    entries = entries' := by
  have more := iterRun_le (Nat.le_max_left calls calls') first
  rw [iterRun_le (Nat.le_max_right calls calls') second] at more
  exact (Except.ok.inj more).symm

/-- An iterator that scans the positions up to `stop` for the next one to yield
yields them all. -/
theorem iterRun_scan {state : Nat → σ} {entry : Nat → α} {stop : Nat} {yields : Nat → Bool}
    (scan : ∀ d ≤ stop,
      ((∀ e, d ≤ e → e < stop → yields e = false) ∧ next (state d) = .ok none) ∨
      ∃ e, d ≤ e ∧ e < stop ∧ yields e = true ∧ (∀ l, d ≤ l → l < e → yields l = false) ∧
        next (state d) = .ok (some (entry e, state (e + 1))))
    {d calls : Nat} (inside : d ≤ stop) (enough : stop - d < calls) :
    iterRun next calls (state d) = .ok (((List.range' d (stop - d)).filter yields).map
      fun e => (entry e, state (e + 1))) := by
  induction calls generalizing d with
  | zero => omega
  | succ calls ih =>
      rcases scan d inside with ⟨none, done⟩ | ⟨e, low, high, yielded, skipped, called⟩
      · rw [iterRun_done done]
        have nothing : (List.range' d (stop - d)).filter yields = [] := by
          rw [List.filter_eq_nil_iff]
          intro e mem
          obtain ⟨low, high⟩ := List.mem_range'_1.mp mem
          simp [none e low (by omega)]
        rw [nothing]
        rfl
      · have rest := ih (d := e + 1) (by omega) (by omega)
        rw [iterRun_entry called rest]
        have split : List.range' d (stop - d)
            = List.range' d (e - d) ++ (e :: List.range' (e + 1) (stop - (e + 1))) := by
          rw [← List.range'_succ]
          have here : d + (e - d) = e := by omega
          have total : e - d + (stop - (e + 1) + 1) = stop - d := by omega
          rw [← total, ← List.range'_append_1, here]
        have nothing : (List.range' d (e - d)).filter yields = [] := by
          rw [List.filter_eq_nil_iff]
          intro l mem
          obtain ⟨low, high⟩ := List.mem_range'_1.mp mem
          simp [skipped l low (by omega)]
        rw [split, List.filter_append, nothing, List.nil_append, List.filter_cons, if_pos yielded]
        rfl

end Run

/-! ## Stored keys -/

/-- The buckets of a table that the third pass has accepted. -/
structure StoredKeys (fuel : Nat) (p : OpenFile) (nBuckets nItems : UInt32)
    (hashAt : Nat → Res UInt32) (keyAt : Nat → Res Value) (hash : Nat → UInt32)
    (key : Nat → Value) : Prop where
  read : BucketsRead p nBuckets hashAt keyAt hash key
  counted : Counted nBuckets nItems key
  hashes : ∀ i < nBuckets.toNat, isHashable (key i).type = true ∧
    hashReader32 p fuel (key i) = .ok (hash i)
  probes : ∀ i < nBuckets.toNat, (key i).type ≠ .emptySlot →
    hashTableProbe fuel p (hash i) (key i) nBuckets hashAt keyAt = .ok (some (UInt32.ofNat i))

theorem storedKeys_of_validate {fuel : Nat} {p : OpenFile} {nBuckets nItems : UInt32}
    {hashAt : Nat → Res UInt32} {keyAt : Nat → Res Value} {valueAt : Option (Nat → Res Value)}
    {hash : Nat → UInt32} {key : Nat → Value}
    (read : BucketsRead p nBuckets hashAt keyAt hash key)
    (valueRead : ∀ valueAt' ∈ valueAt, ∀ i < nBuckets.toNat, ∃ value, valueAt' i = .ok value)
    (validated : hashTableValidate fuel p nBuckets hashAt keyAt nItems valueAt = .ok ()) :
    StoredKeys fuel p nBuckets nItems hashAt keyAt hash key := by
  rw [hashTableValidate_eq] at validated
  obtain ⟨⟨⟩, counted, validated⟩ := bind_eq_ok.mp validated
  obtain ⟨⟨⟩, hashes, probes⟩ := bind_eq_ok.mp validated
  rw [forM_eq_ok] at hashes probes
  have counts := tableCounts_post (fun _ => trivial)
    (hashComputeNBuckets_inside (n := nItems)) read.keyAt valueRead
  refine ⟨read, counts.of_ok counted, fun i less => ?_, fun i less => ?_⟩
  · exact (checkSlotHash_ok read less).mp (hashes i (List.mem_range.mpr less))
  · exact (checkSlotProbe_ok read less).mp (probes i (List.mem_range.mpr less))

section Stored

variable {fuel : Nat} {p : OpenFile} {nBuckets nItems : UInt32} {hashAt : Nat → Res UInt32}
  {keyAt : Nat → Res Value} {hash : Nat → UInt32} {key : Nat → Value}
  (stored : StoredKeys fuel p nBuckets nItems hashAt keyAt hash key)
include stored

theorem StoredKeys.lt_bound {i : Nat} (less : i < nBuckets.toNat) : i + 1 ≤ 2 ^ 31 := by
  obtain ⟨k, bound, size⟩ := stored.counted.size
  rw [size, toNat_two_pow bound] at less
  exact less.trans_le (Nat.pow_le_pow_right (by decide) bound)

/-- Where the probe for a stored key finds it. -/
theorem StoredKeys.found {i : Nat} (less : i < nBuckets.toNat)
    (occupied : (key i).type ≠ .emptySlot) :
    ∃ d < fuel, probePath nBuckets (hash i) d = i ∧ keyEquals p (key i) (key i) = .ok true ∧
      ∀ e < d, ProbePasses (keyEquals p (key i)) hashAt keyAt (hash i)
        (probePath nBuckets (hash i) e) := by
  obtain ⟨k, bound, size⟩ := stored.counted.size
  have reads : ∀ d, ∃ key' stored, keyAt (probePath nBuckets (hash i) d) = .ok key' ∧
      hashAt (probePath nBuckets (hash i) d) = .ok stored := by
    intro d
    obtain ⟨keyRead, hashRead, -⟩ := stored.read.path bound size (hash i) d
    exact ⟨_, _, keyRead, hashRead⟩
  have probed := stored.probes i less occupied
  rw [hashTableProbe_eq] at probed
  have ended := @hashTableProbePriv_ends (keyEquals p (key i)) _ _ _ _ reads fuel
  rw [probed] at ended
  rcases ended with ⟨-, bad⟩ | ⟨d, dLess, passes, ends⟩
  · cases bad
  · have small : probePath nBuckets (hash i) d < nBuckets.toNat := by
      rw [size, toNat_two_pow bound]
      exact probePath_lt bound _ _
    generalize result : (Except.ok (some (UInt32.ofNat i)) : Res (Option UInt32)) = r at ends
    cases ends with
    | miss => cases result
    | stop => cases result
    | hit keyRead _ _ equal =>
        have same := congrArg UInt32.toNat (Option.some.inj (Except.ok.inj result))
        rw [UInt32.toNat_ofNat', UInt32.toNat_ofNat',
          Nat.mod_eq_of_lt (less.trans nBuckets.toNat_lt),
          Nat.mod_eq_of_lt (small.trans nBuckets.toNat_lt)] at same
        rw [← same, stored.read.keyAt i less] at keyRead
        cases keyRead
        exact ⟨d, dLess, same.symm, equal, passes⟩

/-- A stored key comes on its path before the first empty bucket. -/
theorem StoredKeys.before_gap {i d gap : Nat} (passes : ∀ e < d,
      ProbePasses (keyEquals p (key i)) hashAt keyAt (hash i) (probePath nBuckets (hash i) e))
    (here : (key (probePath nBuckets (hash i) d)).type ≠ .emptySlot)
    (isEmpty : (key (probePath nBuckets (hash i) gap)).type = .emptySlot) : d < gap := by
  obtain ⟨k, bound, size⟩ := stored.counted.size
  rcases Nat.lt_trichotomy d gap with before | rfl | after
  · exact before
  · exact absurd isEmpty here
  · obtain ⟨key', stored', keyRead, occupied, -⟩ := passes gap after
    rw [(stored.read.path bound size (hash i) gap).1] at keyRead
    cases keyRead
    exact absurd isEmpty occupied

/-! ## Lookup -/

theorem StoredKeys.hash_more {i more : Nat} (less : i < nBuckets.toNat) (enough : fuel ≤ more) :
    hashReader32 p more (key i) = .ok (hash i) :=
  hashReader32_le enough (stored.hashes i less).2

/-- The probe for a stored key finds it, also with more fuel than the validator had. -/
theorem StoredKeys.probe_more {i more : Nat} (less : i < nBuckets.toNat)
    (occupied : (key i).type ≠ .emptySlot) (enough : fuel ≤ more) :
    hashTableProbe more p (hash i) (key i) nBuckets hashAt keyAt = .ok (some (UInt32.ofNat i)) := by
  obtain ⟨d, dLess, here, equal, passes⟩ := stored.found less occupied
  have hit := hashTableProbePriv_hit (dLess.trans_le enough) passes
    (by rw [here]; exact stored.read.keyAt i less) occupied
    (by rw [here]; exact stored.read.hashAt i less) equal
  rw [here] at hit
  exact hit

/-- The order in which two keys of one hash come on their path decides which of them
the validator has compared with the other. -/
theorem StoredKeys.compared {i j : Nat} (iLess : i < nBuckets.toNat) (jLess : j < nBuckets.toNat)
    (differ : i ≠ j) (iOccupied : (key i).type ≠ .emptySlot)
    (jOccupied : (key j).type ≠ .emptySlot) (same : hash i = hash j) :
    keyEquals p (key i) (key j) = .ok false ∨ keyEquals p (key j) (key i) = .ok false := by
  obtain ⟨d, -, iHere, -, iPasses⟩ := stored.found iLess iOccupied
  obtain ⟨e, -, jHere, -, jPasses⟩ := stored.found jLess jOccupied
  have passed : ∀ {x y d e : Nat}, x < nBuckets.toNat → hash y = hash x →
      (∀ e < d, ProbePasses (keyEquals p (key y)) hashAt keyAt (hash y)
        (probePath nBuckets (hash y) e)) →
      probePath nBuckets (hash x) e = x → e < d → keyEquals p (key y) (key x) = .ok false := by
    intro x y d e xLess same passes here before
    obtain ⟨key', stored', keyRead, -, hashRead, apart⟩ := passes e before
    rw [same, here, stored.read.keyAt x xLess] at keyRead
    rw [same, here, stored.read.hashAt x xLess] at hashRead
    cases keyRead
    cases hashRead
    exact apart same
  rcases Nat.lt_trichotomy d e with before | both | after
  · exact Or.inr (passed iLess same.symm jPasses iHere before)
  · rw [same, both, jHere] at iHere
    exact absurd iHere.symm differ
  · exact Or.inl (passed jLess same iPasses jHere after)

end Stored

/-! ## Going through the buckets -/

/-- What `readerSetIter` and `readerMapIter` do on the buckets. -/
def bucketIter (nBuckets : UInt32) (keyAt : Nat → Res Value) (iterState : UInt32) :
    Res (Option (Value × UInt32)) := do
  let next ← iterLoop keyAt (nBuckets.toNat - iterState.toNat) iterState.toNat
  match next with
  | none => pure none
  | some i => do
      let key ← keyAt i
      pure (some (key, UInt32.ofNat (i + 1)))

/-- What `readerSetIterHash` and `readerMapIterHash` do on the buckets. -/
def bucketIterHash (fuel : Nat) (hashAt : Nat → Res UInt32) (keyAt : Nat → Res Value)
    (hash : UInt32) (iterState : HashIterState) :
    Res (Option ((UInt32 × Value) × HashIterState)) := do
  let next ← iterHashLoop hashAt keyAt hash fuel iterState
  match next with
  | none => pure none
  | some (bucket, iterState) => do
      let key ← keyAt bucket.toNat
      pure (some ((bucket, key), iterState))

section Buckets

variable {nBuckets : UInt32} {hashAt : Nat → Res UInt32} {keyAt : Nat → Res Value}
  {hash : Nat → UInt32} {key : Nat → Value}

theorem iterLoop_cases {n i : Nat} (keyRead : ∀ j, i ≤ j → j < i + n → keyAt j = .ok (key j)) :
    (∀ j, i ≤ j → j < i + n → (key j).type = .emptySlot) ∧ iterLoop keyAt n i = .ok none ∨
      ∃ j, i ≤ j ∧ j < i + n ∧ (key j).type ≠ .emptySlot ∧
        (∀ l, i ≤ l → l < j → (key l).type = .emptySlot) ∧ iterLoop keyAt n i = .ok (some j) := by
  induction n generalizing i with
  | zero => exact Or.inl ⟨fun j low high => by omega, rfl⟩
  | succ n ih =>
      rw [iterLoop, keyRead i (Nat.le_refl i) (by omega), ok_bind]
      by_cases isEmpty : (key i).type = .emptySlot
      · rw [if_neg (not_not.mpr isEmpty)]
        have here : ∀ l, i ≤ l → l < i + 1 → (key l).type = .emptySlot := by
          intro l low high
          rw [show l = i by omega, isEmpty]
        have below : ∀ j, i + 1 ≤ j → j < i + 1 + n → keyAt j = .ok (key j) :=
          fun j low high => keyRead j (by omega) (by omega)
        rcases ih below with ⟨none, done⟩ | ⟨j, low, high, occupied, skipped, found⟩
        · refine Or.inl ⟨fun j low high => ?_, done⟩
          rcases Nat.lt_or_ge j (i + 1) with first | later
          · exact here j low first
          · exact none j later (by omega)
        · refine Or.inr ⟨j, by omega, by omega, occupied, fun l low high => ?_, found⟩
          rcases Nat.lt_or_ge l (i + 1) with first | later
          · exact here l low first
          · exact skipped l later high
      · rw [if_pos isEmpty]
        exact Or.inr ⟨i, Nat.le_refl i, by omega, isEmpty, fun l low high => by omega, rfl⟩

/-- The entries that iterating over the buckets yields. -/
def storedEntries (key : Nat → Value) (n : Nat) : List (Value × UInt32) :=
  ((List.range' 0 n).filter fun i => (key i).type ≠ .emptySlot).map
    fun i => (key i, UInt32.ofNat (i + 1))

theorem length_storedEntries (key : Nat → Value) (n : Nat) :
    (storedEntries key n).length = occupied key n := by
  rw [storedEntries, List.length_map, occupied, List.countP_eq_length_filter, List.range_eq_range']

/-- An iterator that goes on to the bucket that the loop finds yields the buckets that are
not empty. -/
theorem iterLoop_run {α : Type} {next : UInt32 → Res (Option (α × UInt32))} {entry : Nat → α}
    (keyRead : ∀ i < nBuckets.toNat, keyAt i = .ok (key i))
    (none : ∀ state : UInt32,
      iterLoop keyAt (nBuckets.toNat - state.toNat) state.toNat = .ok none → next state = .ok none)
    (some : ∀ (state : UInt32), ∀ i < nBuckets.toNat,
      iterLoop keyAt (nBuckets.toNat - state.toNat) state.toNat = .ok (some i) →
        next state = .ok (some (entry i, UInt32.ofNat (i + 1))))
    {calls : Nat} (enough : nBuckets.toNat < calls) :
    iterRun next calls 0 =
      .ok (((List.range' 0 nBuckets.toNat).filter fun i => (key i).type ≠ .emptySlot).map
        fun i => (entry i, UInt32.ofNat (i + 1))) := by
  have scan : ∀ d ≤ nBuckets.toNat,
      ((∀ e, d ≤ e → e < nBuckets.toNat → decide ((key e).type ≠ .emptySlot) = false) ∧
        next (UInt32.ofNat d) = .ok .none) ∨
      ∃ e, d ≤ e ∧ e < nBuckets.toNat ∧ decide ((key e).type ≠ .emptySlot) = true ∧
        (∀ l, d ≤ l → l < e → decide ((key l).type ≠ .emptySlot) = false) ∧
        next (UInt32.ofNat d) = .ok (.some (entry e, UInt32.ofNat (e + 1))) := by
    intro d inside
    have state : (UInt32.ofNat d).toNat = d := by
      rw [UInt32.toNat_ofNat', Nat.mod_eq_of_lt (inside.trans_lt nBuckets.toNat_lt)]
    rcases iterLoop_cases (n := nBuckets.toNat - d) (i := d)
      fun j low high => keyRead j (by omega) with ⟨empty, done⟩ | ⟨e, low, high, full, skipped, found⟩
    · refine Or.inl ⟨fun e low high => by simp [empty e low (by omega)], none _ ?_⟩
      rw [state]
      exact done
    · refine Or.inr ⟨e, low, by omega, by simp [full], fun l low high => by simp [skipped l low high],
        some _ e (by omega) ?_⟩
      rw [state]
      exact found
  exact iterRun_scan scan (Nat.zero_le _) (by omega)

theorem bucketIter_run (keyRead : ∀ i < nBuckets.toNat, keyAt i = .ok (key i)) {calls : Nat}
    (enough : nBuckets.toNat < calls) :
    iterRun (bucketIter nBuckets keyAt) calls 0 = .ok (storedEntries key nBuckets.toNat) := by
  apply iterLoop_run keyRead _ _ enough
  · intro state done
    rw [bucketIter, done]
    rfl
  · intro state i less found
    rw [bucketIter, found, ok_bind]
    simp only [keyRead i less, ok_bind, pure_eq_ok]

/-- The buckets of a path up to its first empty one. -/
structure PathRead (nBuckets : UInt32) (hashAt : Nat → Res UInt32) (keyAt : Nat → Res Value)
    (hash : Nat → UInt32) (key : Nat → Value) (h : UInt32) (gap : Nat) : Prop where
  hashAt : ∀ d, hashAt (probePath nBuckets h d) = .ok (hash (probePath nBuckets h d))
  keyAt : ∀ d, keyAt (probePath nBuckets h d) = .ok (key (probePath nBuckets h d))
  isEmpty : (key (probePath nBuckets h gap)).type = .emptySlot
  occupied : ∀ d < gap, (key (probePath nBuckets h d)).type ≠ .emptySlot

theorem iterHashLoop_cases {h : UInt32} {gap : Nat}
    (path : PathRead nBuckets hashAt keyAt hash key h gap) {d fuel : Nat} (inside : d ≤ gap)
    (enough : gap - d < fuel) :
    (∀ e, d ≤ e → e < gap → hash (probePath nBuckets h e) ≠ h) ∧
        iterHashLoop hashAt keyAt h fuel (probeState h nBuckets d) = .ok none ∨
      ∃ e, d ≤ e ∧ e < gap ∧ hash (probePath nBuckets h e) = h ∧
        (∀ l, d ≤ l → l < e → hash (probePath nBuckets h l) ≠ h) ∧
        iterHashLoop hashAt keyAt h fuel (probeState h nBuckets d)
          = .ok (some ((probeState h nBuckets e).bucket, probeState h nBuckets (e + 1))) := by
  induction fuel generalizing d with
  | zero => omega
  | succ fuel ih =>
      have keyRead := path.keyAt d
      have hashRead := path.hashAt d
      unfold probePath at keyRead hashRead
      rw [iterHashLoop, hashTableProbeHash, keyRead, ok_bind]
      rcases Nat.lt_or_eq_of_le inside with before | rfl
      · have full := path.occupied d before
        unfold probePath at full
        rw [if_neg full]
        simp only [pure_eq_ok, ok_bind]
        rw [hashRead, ok_bind, ← probeState_succ]
        by_cases same : hash (probePath nBuckets h d) = h
        · refine Or.inr ⟨d, Nat.le_refl d, before, same, fun l low high => by omega, ?_⟩
          exact if_pos same
        · have differ : hash (probeState h nBuckets d).bucket.toNat ≠ h := same
          rw [if_neg differ]
          have here : ∀ l, d ≤ l → l < d + 1 → hash (probePath nBuckets h l) ≠ h := by
            intro l low high
            rw [show l = d by omega]
            exact same
          have rest := ih (d := d + 1) (by omega) (by omega)
          rcases rest with ⟨none, done⟩ | ⟨e, low, high, found, skipped, called⟩
          · refine Or.inl ⟨fun e low high => ?_, done⟩
            rcases Nat.lt_or_ge e (d + 1) with first | later
            · exact here e low first
            · exact none e later high
          · refine Or.inr ⟨e, by omega, high, found, fun l low high => ?_, called⟩
            rcases Nat.lt_or_ge l (d + 1) with first | later
            · exact here l low first
            · exact skipped l later high
      · have isEmpty := path.isEmpty
        unfold probePath at isEmpty
        rw [if_pos isEmpty]
        exact Or.inl ⟨fun e low high => by omega, rfl⟩

/-- The entries that iterating over the keys of one hash yields. -/
def hashEntries (nBuckets : UInt32) (hash : Nat → UInt32) (key : Nat → Value) (h : UInt32)
    (gap : Nat) : List ((UInt32 × Value) × HashIterState) :=
  ((List.range' 0 gap).filter fun d => hash (probePath nBuckets h d) = h).map
    fun d => (((probeState h nBuckets d).bucket, key (probePath nBuckets h d)),
      probeState h nBuckets (d + 1))

/-- An iterator that takes its steps with `iterHashLoop` yields an entry for each key of
the hash. -/
theorem iterHash_run {α : Type} {entry : Nat → α} {h : UInt32} {gap : Nat}
    (path : PathRead nBuckets hashAt keyAt hash key h gap) {fuel calls : Nat} (enough : gap < fuel)
    (enoughCalls : gap < calls) {next : HashIterState → Res (Option (α × HashIterState))}
    (ends : ∀ d, iterHashLoop hashAt keyAt h fuel (probeState h nBuckets d) = .ok none →
      next (probeState h nBuckets d) = .ok none)
    (yields : ∀ d e, iterHashLoop hashAt keyAt h fuel (probeState h nBuckets d)
        = .ok (some ((probeState h nBuckets e).bucket, probeState h nBuckets (e + 1))) →
      next (probeState h nBuckets d) = .ok (some (entry e, probeState h nBuckets (e + 1)))) :
    iterRun next calls (hashTableProbeHashInit h nBuckets)
      = .ok (((List.range' 0 gap).filter fun d => hash (probePath nBuckets h d) = h).map
          fun d => (entry d, probeState h nBuckets (d + 1))) := by
  have scan : ∀ d ≤ gap,
      ((∀ e, d ≤ e → e < gap → decide (hash (probePath nBuckets h e) = h) = false) ∧
        next (probeState h nBuckets d) = .ok none) ∨
      ∃ e, d ≤ e ∧ e < gap ∧ decide (hash (probePath nBuckets h e) = h) = true ∧
        (∀ l, d ≤ l → l < e → decide (hash (probePath nBuckets h l) = h) = false) ∧
        next (probeState h nBuckets d) = .ok (some (entry e, probeState h nBuckets (e + 1))) := by
    intro d inside
    rcases iterHashLoop_cases path inside (show gap - d < fuel by omega) with
      ⟨none, done⟩ | ⟨e, low, high, found, skipped, called⟩
    · exact Or.inl ⟨fun e low high => by simp [none e low high], ends d done⟩
    · exact Or.inr ⟨e, low, high, by simp [found], fun l low high => by simp [skipped l low high],
        yields d e called⟩
  exact iterRun_scan scan (Nat.zero_le _) (by omega)

theorem bucketIterHash_run {h : UInt32} {gap : Nat}
    (path : PathRead nBuckets hashAt keyAt hash key h gap) {fuel calls : Nat} (enough : gap < fuel)
    (enoughCalls : gap < calls)
    {next : HashIterState → Res (Option ((UInt32 × Value) × HashIterState))}
    (agrees : ∀ d, next (probeState h nBuckets d)
      = bucketIterHash fuel hashAt keyAt h (probeState h nBuckets d)) :
    iterRun next calls (hashTableProbeHashInit h nBuckets)
      = .ok (hashEntries nBuckets hash key h gap) := by
  apply iterHash_run path enough enoughCalls
  · intro d done
    rw [agrees, bucketIterHash, done]
    rfl
  · intro d e called
    have keyRead := path.keyAt e
    unfold probePath at keyRead
    rw [agrees, bucketIterHash, called, ok_bind]
    simp only [keyRead, ok_bind, pure_eq_ok]
    rfl

end Buckets

/-! ## The tables of a file -/

/-- The functions of `pointless_reader.c` on one set or map, up to the values of a
map. -/
structure TableReader where
  nItems : Res UInt32
  iter : UInt32 → Res (Option (Value × UInt32))
  lookup : Nat → Value → Res (Option UInt32)
  iterHashInit : UInt32 → Res HashIterState
  iterHash : Nat → UInt32 → HashIterState → Res (Option ((UInt32 × Value) × HashIterState))

/-- The functions on a set. -/
def setReader (p : OpenFile) (s : Value) : TableReader where
  nItems := readerSetNItems p s
  iter := readerSetIter p s
  lookup := fun fuel k => readerSetLookup p fuel s k
  iterHashInit := readerSetIterHashInit p s
  iterHash := fun fuel hash state =>
    (·.map fun (bucket, key, state) => ((bucket, key), state)) <$>
      readerSetIterHash p fuel s hash state

/-- The functions on a map. -/
def mapReader (p : OpenFile) (m : Value) : TableReader where
  nItems := readerMapNItems p m
  iter := fun state => (·.map fun (key, _, state) => (key, state)) <$> readerMapIter p m state
  lookup := fun fuel k => readerMapLookup p fuel m k
  iterHashInit := readerMapIterHashInit p m
  iterHash := fun fuel hash state =>
    (·.map fun (bucket, key, _, state) => ((bucket, key), state)) <$>
      readerMapIterHash p fuel m hash state

/-- The functions on a set or map. -/
def tableReader (p : OpenFile) (t : Value) : TableReader :=
  if t.type = .setValue then setReader p t else mapReader p t

/-- What the functions of a reader come to on the buckets of its table. -/
structure TableReader.Reads (p : OpenFile) (reader : TableReader) (nBuckets nItems : UInt32)
    (hashAt : Nat → Res UInt32) (keyAt : Nat → Res Value) : Prop where
  nItems : reader.nItems = .ok nItems
  iter : ∀ state, reader.iter state = bucketIter nBuckets keyAt state
  lookup : ∀ fuel k h, isHashable k.type = true → hashReader32 p fuel k = .ok h →
    reader.lookup fuel k = hashTableProbe fuel p h k nBuckets hashAt keyAt
  iterHashInit : ∀ h, reader.iterHashInit h = .ok (hashTableProbeHashInit h nBuckets)
  iterHash : ∀ fuel h d, reader.iterHash fuel h (probeState h nBuckets d)
    = bucketIterHash fuel hashAt keyAt h (probeState h nBuckets d)

theorem iterLoop_lt {keyAt : Nat → Res Value} {n i j : Nat}
    (found : iterLoop keyAt n i = .ok (some j)) : i ≤ j ∧ j < i + n := by
  induction n generalizing i with
  | zero => cases found
  | succ n ih =>
      rw [iterLoop] at found
      obtain ⟨key, -, found⟩ := bind_eq_ok.mp found
      split at found
      · cases found
        omega
      · have less := ih found
        omega

theorem iterHashLoop_bucket {hashAt : Nat → Res UInt32} {keyAt : Nat → Res Value}
    {h nBuckets bucket : UInt32} {fuel d : Nat} {state : HashIterState}
    (found : iterHashLoop hashAt keyAt h fuel (probeState h nBuckets d) = .ok (some (bucket, state))) :
    ∃ e, bucket.toNat = probePath nBuckets h e := by
  induction fuel generalizing d with
  | zero => cases found
  | succ fuel ih =>
      rw [iterHashLoop] at found
      obtain ⟨probed, probe, found⟩ := bind_eq_ok.mp found
      rw [hashTableProbeHash] at probe
      obtain ⟨key, -, probe⟩ := bind_eq_ok.mp probe
      cases probe
      by_cases isEmpty : key.type = .emptySlot
      · rw [if_pos isEmpty] at found
        cases found
      · rw [if_neg isEmpty] at found
        obtain ⟨stored, -, found⟩ := bind_eq_ok.mp found
        split at found
        · cases found
          exact ⟨d, rfl⟩
        · rw [← probeState_succ] at found
          exact ih found

section Readers

variable {p : OpenFile} {t : Value} {table : Table} {nBuckets : UInt32} {hash : Nat → UInt32}
  {key : Nat → Value}

/-- The functions on a reachable set or map. -/
theorem tableReader_reads (at_t : TableAt p t table) (even : table.Even p nBuckets)
    (read : TableRead p table nBuckets hash key)
    (size : ∃ k ≤ 31, nBuckets = UInt32.ofNat (2 ^ k)) :
    (tableReader p t).Reads p nBuckets table.nItems (hashVectorAt p table.hashes)
      (readerVectorValue p table.keys) := by
  obtain ⟨nHashes, nKeys, nValues⟩ := even
  cases at_t with
  | set type hashes keys nItems =>
      rw [tableReader, if_pos type]
      refine ⟨nItems, fun state => ?_, fun fuel k h hashable hashed => ?_, fun h => ?_,
        fun fuel h d => ?_⟩
      · simp only [setReader, readerSetIter, keys, nKeys, ok_bind]
        rfl
      · simp only [setReader, readerSetLookup, hashable, hashed, hashes, keys, nKeys, ok_bind]
        rfl
      · simp only [setReader, readerSetIterHashInit, hashes, nHashes, ok_bind, pure_eq_ok]
      · simp only [setReader, readerSetIterHash, hashes, keys, ok_bind, bucketIterHash]
        cases iterHashLoop (hashVectorAt p _) (readerVectorValue p _) h fuel
          (probeState h nBuckets d) with
        | error e => rfl
        | ok next =>
            cases next with
            | none => rfl
            | some found =>
                simp only [ok_bind]
                cases readerVectorValue p _ found.1.toNat <;> rfl
  | @map _ _ values _ type hashes keys valuesRead nItems =>
      have notSet : t.type ≠ .setValue := by
        rw [type]
        exact ValueType.noConfusion
      have valueAt := read.valueAt values rfl
      rw [tableReader, if_neg notSet]
      refine ⟨nItems, fun state => ?_, fun fuel k h hashable hashed => ?_, fun h => ?_,
        fun fuel h d => ?_⟩
      · simp only [mapReader, readerMapIter, keys, valuesRead, nKeys, ok_bind, bucketIter]
        cases looped : iterLoop (readerVectorValue p _) (nBuckets.toNat - state.toNat)
            state.toNat with
        | error e => rfl
        | ok next =>
            cases next with
            | none => rfl
            | some i =>
                have bounds := iterLoop_lt looped
                have inside : i < nBuckets.toNat := by omega
                obtain ⟨value, valueRead⟩ := valueAt i inside
                simp only [ok_bind, valueRead]
                cases readerVectorValue p _ i <;> rfl
      · simp only [mapReader, readerMapLookup, hashable, hashed, hashes, keys, nKeys, ok_bind]
        rfl
      · simp only [mapReader, readerMapIterHashInit, hashes, nHashes, ok_bind, pure_eq_ok]
      · simp only [mapReader, readerMapIterHash, hashes, keys, valuesRead, ok_bind, bucketIterHash]
        cases looped : iterHashLoop (hashVectorAt p _) (readerVectorValue p _) h fuel
            (probeState h nBuckets d) with
        | error e => rfl
        | ok next =>
            cases next with
            | none => rfl
            | some found =>
                obtain ⟨e, here⟩ := iterHashLoop_bucket looped
                obtain ⟨k, bound, size⟩ := size
                have inside : found.1.toNat < nBuckets.toNat := by
                  rw [here, size, toNat_two_pow bound]
                  exact probePath_lt bound h e
                obtain ⟨value, valueRead⟩ := valueAt found.1.toNat inside
                simp only [ok_bind, valueRead]
                cases readerVectorValue p _ found.1.toNat <;> rfl

end Readers

/-- The hash of a value. -/
def HashIs (p : OpenFile) (v : Value) (h : UInt32) : Prop :=
  ∃ fuel, hashReader32 p fuel v = .ok h

/-- The three traversals agree on the entries of a table, of which an entry is a key
and the iteration state after it, one more than the bucket of the key. -/
structure TableReader.Consistent (p : OpenFile) (reader : TableReader)
    (entries : List (Value × UInt32)) : Prop where
  iterates : ∃ calls, iterRun reader.iter calls 0 = .ok entries
  count : ∃ nItems, reader.nItems = .ok nItems ∧ entries.length = nItems.toNat
  finds : ∀ entry ∈ entries, ∃ fuel, ∀ more ≥ fuel,
    reader.lookup more entry.1 = .ok (some (entry.2 - 1))
  apart : entries.Pairwise fun a b => ∀ h, HashIs p a.1 h → HashIs p b.1 h →
    cmpReader p a.1.toComplete p b.1.toComplete ≠ .ok 0 ∧
      cmpReader p b.1.toComplete p a.1.toComplete ≠ .ok 0
  iteratesHash : ∀ h, ∃ fuel calls start found, reader.iterHashInit h = .ok start ∧
    (∀ more ≥ fuel, iterRun (reader.iterHash more h) calls start = .ok found) ∧
    (∀ entry ∈ entries, HashIs p entry.1 h → ∃ state, ((entry.2 - 1, entry.1), state) ∈ found) ∧
    ∀ result ∈ found, HashIs p result.1.2 h ∧ (result.1.2, result.1.1 + 1) ∈ entries

theorem HashIs.unique {p : OpenFile} {v : Value} {h h' : UInt32} (first : HashIs p v h)
    (second : HashIs p v h') : h = h' := by
  obtain ⟨fuel, hashed⟩ := first
  obtain ⟨fuel', hashed'⟩ := second
  have more := hashReader32_le (Nat.le_max_left fuel fuel') hashed
  have more' := hashReader32_le (Nat.le_max_right fuel fuel') hashed'
  rw [more] at more'
  exact Except.ok.inj more'

theorem keyEquals_eq_ok {p : OpenFile} {value other : Value} {equal : Bool} :
    keyEquals p value other = .ok equal ↔
      ∃ c, cmpReader p value.toComplete p other.toComplete = .ok c ∧ decide (c = 0) = equal := by
  rw [keyEquals, bind_eq_ok]
  simp only [pure_eq_ok, Except.ok.injEq]

/-- Keys of one hash that the table holds in different buckets compare as equal in
both orders or in none. -/
def SymmetricBuckets (p : OpenFile) (n : Nat) (hash : Nat → UInt32) (key : Nat → Value) : Prop :=
  ∀ i < n, ∀ j < n, (key i).type ≠ .emptySlot → (key j).type ≠ .emptySlot → hash i = hash j →
    cmpReader p (key i).toComplete p (key j).toComplete = .ok 0 →
    cmpReader p (key j).toComplete p (key i).toComplete = .ok 0

section Consistency

variable {fuel : Nat} {p : OpenFile} {nBuckets nItems : UInt32} {hashAt : Nat → Res UInt32}
  {keyAt : Nat → Res Value} {hash : Nat → UInt32} {key : Nat → Value} {reader : TableReader}

theorem mem_storedEntries {n : Nat} {entry : Value × UInt32} :
    entry ∈ storedEntries key n ↔
      ∃ i < n, (key i).type ≠ .emptySlot ∧ entry = (key i, UInt32.ofNat (i + 1)) := by
  simp only [storedEntries, List.mem_map, List.mem_filter, List.mem_range'_1, decide_eq_true_eq]
  constructor
  · rintro ⟨i, ⟨⟨-, less⟩, full⟩, rfl⟩
    exact ⟨i, by omega, full, rfl⟩
  · rintro ⟨i, less, full, rfl⟩
    exact ⟨i, ⟨⟨by omega, by omega⟩, full⟩, rfl⟩

theorem mem_hashEntries {h : UInt32} {gap : Nat} {result : (UInt32 × Value) × HashIterState} :
    result ∈ hashEntries nBuckets hash key h gap ↔
      ∃ d < gap, hash (probePath nBuckets h d) = h ∧
        result = (((probeState h nBuckets d).bucket, key (probePath nBuckets h d)),
          probeState h nBuckets (d + 1)) := by
  simp only [hashEntries, List.mem_map, List.mem_filter, List.mem_range'_1, decide_eq_true_eq]
  constructor
  · rintro ⟨d, ⟨⟨-, less⟩, same⟩, rfl⟩
    exact ⟨d, by omega, same, rfl⟩
  · rintro ⟨d, less, same, rfl⟩
    exact ⟨d, ⟨⟨by omega, by omega⟩, same⟩, rfl⟩

/-- The state after an entry is one more than its bucket. -/
theorem state_sub_one {i : Nat} (small : i + 1 ≤ 2 ^ 31) :
    UInt32.ofNat (i + 1) - 1 = UInt32.ofNat i := by
  apply UInt32.toNat_inj.mp
  have succ : (UInt32.ofNat (i + 1)).toNat = i + 1 := by
    rw [UInt32.toNat_ofNat', Nat.mod_eq_of_lt (by omega)]
  have le : (1 : UInt32) ≤ UInt32.ofNat (i + 1) := by
    rw [UInt32.le_iff_toNat_le, succ]
    exact Nat.le_add_left 1 i
  rw [UInt32.toNat_sub_of_le _ _ le, succ, UInt32.toNat_ofNat', Nat.mod_eq_of_lt (by omega)]
  rfl

variable (stored : StoredKeys fuel p nBuckets nItems hashAt keyAt hash key)
include stored

theorem StoredKeys.hashIs {i : Nat} (less : i < nBuckets.toNat) {h : UInt32} :
    HashIs p (key i) h ↔ hash i = h := by
  have own : HashIs p (key i) (hash i) := ⟨fuel, (stored.hashes i less).2⟩
  constructor
  · exact fun other => own.unique other
  · rintro rfl
    exact own

theorem StoredKeys.pathRead (h : UInt32) :
    ∃ gap < 7 + nBuckets.toNat, PathRead nBuckets hashAt keyAt hash key h gap := by
  obtain ⟨gap, less, isEmpty, occupied⟩ := stored.counted.gap h
  obtain ⟨k, bound, size⟩ := stored.counted.size
  exact ⟨gap, less, fun d => (stored.read.path bound size h d).2.1,
    fun d => (stored.read.path bound size h d).1, isEmpty, occupied⟩

/-- A stored key stands on the path of its hash before any empty bucket. -/
theorem StoredKeys.met {i gap : Nat} {h : UInt32} (less : i < nBuckets.toNat)
    (occupied : (key i).type ≠ .emptySlot) (own : hash i = h)
    (isEmpty : (key (probePath nBuckets h gap)).type = .emptySlot) :
    ∃ d < gap, probePath nBuckets h d = i := by
  subst own
  obtain ⟨d, -, here, -, passes⟩ := stored.found less occupied
  refine ⟨d, stored.before_gap passes ?_ isEmpty, here⟩
  rw [here]
  exact occupied

/-- Iterating over the keys of one hash. -/
theorem StoredKeys.iteratesHash (reads : reader.Reads p nBuckets nItems hashAt keyAt)
    (h : UInt32) :
    ∃ fuel calls start found, reader.iterHashInit h = .ok start ∧
      (∀ more ≥ fuel, iterRun (reader.iterHash more h) calls start = .ok found) ∧
      (∀ entry ∈ storedEntries key nBuckets.toNat, HashIs p entry.1 h →
        ∃ state, ((entry.2 - 1, entry.1), state) ∈ found) ∧
      ∀ result ∈ found, HashIs p result.1.2 h ∧
        (result.1.2, result.1.1 + 1) ∈ storedEntries key nBuckets.toNat := by
  obtain ⟨gap, -, path⟩ := stored.pathRead h
  obtain ⟨k, bound, size⟩ := stored.counted.size
  have inside : ∀ d, probePath nBuckets h d < nBuckets.toNat := by
    intro d
    rw [size, toNat_two_pow bound]
    exact probePath_lt bound h d
  refine ⟨gap + 1, gap + 1, _, hashEntries nBuckets hash key h gap, reads.iterHashInit h,
    fun more enough => ?_, fun entry mem hashed => ?_, fun result mem => ?_⟩
  · exact bucketIterHash_run path enough (Nat.lt_succ_self gap) fun d => reads.iterHash more h d
  · obtain ⟨i, less, full, rfl⟩ := mem_storedEntries.mp mem
    have own := (stored.hashIs less).mp hashed
    obtain ⟨d, before, here⟩ := stored.met less full own path.isEmpty
    have bucket : (probeState h nBuckets d).bucket = UInt32.ofNat i := by
      rw [← here, probePath, UInt32.ofNat_toNat]
    refine ⟨probeState h nBuckets (d + 1), mem_hashEntries.mpr ⟨d, before, by rw [here, own], ?_⟩⟩
    rw [state_sub_one (stored.lt_bound less), bucket, here]
  · obtain ⟨d, before, same, rfl⟩ := mem_hashEntries.mp mem
    refine ⟨(stored.hashIs (inside d)).mpr same, mem_storedEntries.mpr
      ⟨probePath nBuckets h d, inside d, path.occupied d before, ?_⟩⟩
    refine Prod.ext rfl (UInt32.toNat_inj.mp ?_)
    have small := stored.lt_bound (inside d)
    change ((probeState h nBuckets d).bucket + 1).toNat = _
    rw [UInt32.toNat_add, UInt32.toNat_ofNat', probePath]
    rfl

/-- Two stored keys of one hash that compare as equal do so in one order only. -/
theorem StoredKeys.not_both (symmetric : SymmetricBuckets p nBuckets.toNat hash key) {i j : Nat}
    (iLess : i < nBuckets.toNat) (jLess : j < nBuckets.toNat) (differ : i ≠ j)
    (iFull : (key i).type ≠ .emptySlot) (jFull : (key j).type ≠ .emptySlot)
    (same : hash i = hash j) : cmpReader p (key i).toComplete p (key j).toComplete ≠ .ok 0 := by
  intro equal
  have converse := symmetric i iLess j jLess iFull jFull same equal
  rcases stored.compared iLess jLess differ iFull jFull same with apart | apart
  · obtain ⟨c, returned, nonzero⟩ := keyEquals_eq_ok.mp apart
    rw [equal] at returned
    cases returned
    cases nonzero
  · obtain ⟨c, returned, nonzero⟩ := keyEquals_eq_ok.mp apart
    rw [converse] at returned
    cases returned
    cases nonzero

/-- The keys of a table are told apart exactly when their comparison is symmetric. -/
theorem StoredKeys.apart_iff : ((storedEntries key nBuckets.toNat).Pairwise fun a b => ∀ h,
      HashIs p a.1 h → HashIs p b.1 h →
        cmpReader p a.1.toComplete p b.1.toComplete ≠ .ok 0 ∧
        cmpReader p b.1.toComplete p a.1.toComplete ≠ .ok 0) ↔
    SymmetricBuckets p nBuckets.toNat hash key := by
  rw [storedEntries, List.pairwise_map, List.pairwise_filter, List.pairwise_iff_getElem]
  simp only [decide_eq_true_eq, List.length_range', List.getElem_range', Nat.zero_add, Nat.one_mul]
  constructor
  · intro apart i iLess j jLess iFull jFull same equal
    rcases Nat.lt_trichotomy i j with before | rfl | after
    · have differ := apart i j iLess jLess before iFull jFull (hash j)
        ((stored.hashIs iLess).mpr same) ((stored.hashIs jLess).mpr rfl)
      exact absurd equal differ.1
    · exact equal
    · have differ := apart j i jLess iLess after jFull iFull (hash j)
        ((stored.hashIs jLess).mpr rfl) ((stored.hashIs iLess).mpr same)
      exact absurd equal differ.2
  · intro symmetric i j iLess jLess before iFull jFull h iHash jHash
    have same : hash i = hash j := by
      rw [(stored.hashIs iLess).mp iHash, (stored.hashIs jLess).mp jHash]
    have differ : i ≠ j := Nat.ne_of_lt before
    exact ⟨stored.not_both symmetric iLess jLess differ iFull jFull same,
      stored.not_both symmetric jLess iLess differ.symm jFull iFull same.symm⟩

/-- The traversals of an accepted table agree when its keys compare symmetrically. -/
theorem StoredKeys.consistent (reads : reader.Reads p nBuckets nItems hashAt keyAt)
    (symmetric : SymmetricBuckets p nBuckets.toNat hash key) :
    reader.Consistent p (storedEntries key nBuckets.toNat) := by
  refine ⟨⟨nBuckets.toNat + 1, ?_⟩, ⟨nItems, reads.nItems, ?_⟩, fun entry mem => ?_,
    stored.apart_iff.mpr symmetric, stored.iteratesHash reads⟩
  · rw [funext reads.iter]
    exact bucketIter_run stored.read.keyAt (Nat.lt_succ_self _)
  · rw [length_storedEntries, stored.counted.items]
  · obtain ⟨i, less, full, rfl⟩ := mem_storedEntries.mp mem
    refine ⟨fuel, fun more enough => ?_⟩
    rw [reads.lookup more (key i) (hash i) (stored.hashes i less).1 (stored.hash_more less enough),
      stored.probe_more less full enough, state_sub_one (stored.lt_bound less)]

/-- The entries of the iteration are those of the buckets. -/
theorem StoredKeys.entries_eq (reads : reader.Reads p nBuckets nItems hashAt keyAt)
    {entries : List (Value × UInt32)} (consistent : reader.Consistent p entries) :
    entries = storedEntries key nBuckets.toNat := by
  obtain ⟨calls, returned⟩ := consistent.iterates
  rw [funext reads.iter] at returned
  exact iterRun_unique returned
    (bucketIter_run stored.read.keyAt (Nat.lt_succ_self nBuckets.toNat))

theorem StoredKeys.consistent_iff (reads : reader.Reads p nBuckets nItems hashAt keyAt) :
    (∃ entries, reader.Consistent p entries) ↔ SymmetricBuckets p nBuckets.toNat hash key := by
  constructor
  · rintro ⟨entries, consistent⟩
    have apart := consistent.apart
    rw [stored.entries_eq reads consistent] at apart
    exact stored.apart_iff.mp apart
  · exact fun symmetric => ⟨_, stored.consistent reads symmetric⟩

end Consistency

/-! ## Accepted files -/

/-- The tables of an accepted file are consistent. -/
def TablesConsistent (buf : List UInt8) : Prop :=
  ∀ fuel p error, openB fuel buf = .ok (p, error) → ∀ t, Reachable p t → isTableType t.type →
    ∃ entries, (tableReader p t).Consistent p entries

/-- In the tables of an accepted file, whether two keys of one hash compare as equal
does not depend on their order. -/
def SymmetricKeys (buf : List UInt8) : Prop :=
  ∀ fuel p error, openB fuel buf = .ok (p, error) → ∀ t table nBuckets hash key,
    Reachable p t → TableAt p t table → table.Even p nBuckets →
    TableRead p table nBuckets hash key → SymmetricBuckets p nBuckets.toNat hash key

/-- The third pass has accepted the tables of an accepted file. -/
theorem storedKeys_of_openB {fuel : Nat} {buf : List UInt8} {p : OpenFile} {error : Option String}
    {t : Value} {table : Table} {nBuckets : UInt32} {hash : Nat → UInt32} {key : Nat → Value}
    (opened : openB fuel buf = .ok (p, error)) (reach : Reachable p t) (at_t : TableAt p t table)
    (even : table.Even p nBuckets) (read : TableRead p table nBuckets hash key) :
    StoredKeys fuel p nBuckets table.nItems (hashVectorAt p table.hashes)
      (readerVectorValue p table.keys) hash key := by
  obtain ⟨-, -, hashTables⟩ := openB_eq_ok.mp opened
  obtain ⟨table', nBuckets', -, -, at_t', even', -, validated⟩ :=
    (openB_sound opened).tableInside reach at_t.isTable
      (table_passed hashTables reach at_t.isTable)
  obtain rfl := at_t'.unique at_t
  obtain rfl := even'.unique even
  exact storedKeys_of_validate read.buckets read.valueRead validated

/-- The tables of an accepted file are consistent exactly when their keys compare
symmetrically. -/
theorem tables_consistent (buf : List UInt8) : TablesConsistent buf ↔ SymmetricKeys buf := by
  constructor
  · intro consistent fuel p error opened t table nBuckets hash key reach at_t even read
    have keys := storedKeys_of_openB opened reach at_t even read
    have reads := tableReader_reads at_t even read keys.counted.size
    exact (keys.consistent_iff reads).mp (consistent fuel p error opened t reach at_t.isTable)
  · intro symmetric fuel p error opened t reach type
    obtain ⟨-, -, hashTables⟩ := openB_eq_ok.mp opened
    obtain ⟨table, nBuckets, hash, key, at_t, even, read, -⟩ :=
      (openB_sound opened).tableInside reach type (table_passed hashTables reach type)
    have keys := storedKeys_of_openB opened reach at_t even read
    have reads := tableReader_reads at_t even read keys.counted.size
    exact (keys.consistent_iff reads).mpr
      (symmetric fuel p error opened t table nBuckets hash key reach at_t even read)

/-! ## A file with two equal keys -/

/-- A set of the bitvector of one zero bit in two encodings. The probe for the second
key compares it with the first, and not the other way. -/
def twinFile : List UInt8 :=
  bytesValue ⟨.setValue, 0⟩ ++ bytesU32 0 ++ bytesU32 2 ++ bytesU32 0 ++ bytesU32 1 ++ bytesU32 0 ++
    bytesU32 2 ++
    bytesU64 0 ++ bytesU64 20 ++ bytesU64 56 ++
    bytesU32 4 ++ bytesU32 0 ++ bytesU32 1000000001 ++ bytesU32 0 ++ bytesU32 1000000001 ++
    bytesU32 4 ++ bytesValue ⟨.emptySlot, 0⟩ ++ bytesValue ⟨.bitvector0, 1⟩ ++
    bytesValue ⟨.emptySlot, 0⟩ ++ bytesValue ⟨.bitvector10, 0x10000⟩ ++
    bytesU32 2 ++ bytesU32 0 ++ bytesValue ⟨.vectorU32, 0⟩ ++ bytesValue ⟨.vectorValueHashable, 1⟩

/-- The file opened. -/
def twinOpened : OpenFile where
  header := ⟨⟨.setValue, 0⟩, 0, 2, 0, 1, 0, 2⟩
  stringUnicodeOffsets := []
  vectorOffsets := [0, 20]
  bitvectorOffsets := []
  setOffsets := [56]
  mapOffsets := []
  heap := twinFile.drop 56

set_option maxRecDepth 4000 in
/-- The file is accepted, and its two keys of one hash compare as equal. -/
theorem twinFile_not_consistent : ¬TablesConsistent twinFile := by
  intro consistent
  have opened : openB 20 twinFile = .ok (twinOpened, none) := by decide +kernel
  obtain ⟨entries, keys⟩ :=
    consistent 20 twinOpened none opened ⟨.setValue, 0⟩ (.root _) (Or.inl rfl)
  obtain ⟨calls, returned⟩ := keys.iterates
  have run : iterRun (tableReader twinOpened ⟨.setValue, 0⟩).iter 3 0
      = .ok [(⟨.bitvector0, 1⟩, 2), (⟨.bitvector10, 0x10000⟩, 4)] := by decide +kernel
  have apart := keys.apart
  rw [iterRun_unique returned run, List.pairwise_pair] at apart
  have hash0 : HashIs twinOpened ⟨.bitvector0, 1⟩ 1000000001 := ⟨1, by decide +kernel⟩
  have hash10 : HashIs twinOpened ⟨.bitvector10, 0x10000⟩ 1000000001 := ⟨1, by decide +kernel⟩
  have equal : cmpReader twinOpened (Value.toComplete ⟨.bitvector0, 1⟩) twinOpened
      (Value.toComplete ⟨.bitvector10, 0x10000⟩) = .ok 0 := by decide +kernel
  exact (apart 1000000001 hash0 hash10).1 equal

end Pointless
