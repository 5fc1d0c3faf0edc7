import Pointless.ProbePath

/-!
# What the hash table functions do

`hashTableProbePriv_ends` says what a probe returns from what stands on its path.
`hashTablePopulate_eq` says what building a table comes to: the keys of one hash are
compared pairwise, each with those before it, and when all these comparisons tell
them apart every key gets a bucket of its own.
-/

namespace Pointless

open OpenAddressing ExceptRules

/-! ## Probing -/

section Probing

variable {isEqual : Value → Res Bool} {hashAt : Nat → Res UInt32} {keyAt : Nat → Res Value}
  {hash nBuckets : UInt32}

/-- A bucket a probe for `hash` goes past: it holds a key of another hash or one
that the test tells apart. -/
def ProbePasses (isEqual : Value → Res Bool) (hashAt : Nat → Res UInt32)
    (keyAt : Nat → Res Value) (hash : UInt32) (b : Nat) : Prop :=
  ∃ key stored, keyAt b = .ok key ∧ key.type ≠ .emptySlot ∧ hashAt b = .ok stored ∧
    (hash = stored → isEqual key = .ok false)

theorem hashTableProbeLoop_skip {d : Nat}
    (passes : ∀ e < d, ProbePasses isEqual hashAt keyAt hash (probePath nBuckets hash e))
    (fuel : Nat) :
    hashTableProbeLoop isEqual hashAt keyAt hash (fuel + d) (probeState hash nBuckets 0)
      = hashTableProbeLoop isEqual hashAt keyAt hash fuel (probeState hash nBuckets d) := by
  induction d generalizing fuel with
  | zero => rfl
  | succ d ih =>
      have rest := ih (fun e less => passes e (Nat.lt_succ_of_lt less)) (fuel + 1)
      rw [Nat.add_right_comm] at rest
      rw [← Nat.add_assoc, rest]
      obtain ⟨key, stored, keyRead, occupied, hashRead, apart⟩ := passes d (Nat.lt_succ_self d)
      rw [probePath] at keyRead hashRead
      rw [hashTableProbeLoop, keyRead, ok_bind, if_neg occupied, hashRead, ok_bind,
        ← probeState_succ]
      split
      case isTrue same =>
        rw [apart same]
        rfl
      case isFalse => rfl

theorem hashTableProbePriv_eq {d fuel : Nat} (enough : d < fuel)
    (passes : ∀ e < d, ProbePasses isEqual hashAt keyAt hash (probePath nBuckets hash e)) :
    ∃ rest, hashTableProbePriv fuel isEqual hash nBuckets hashAt keyAt
      = hashTableProbeLoop isEqual hashAt keyAt hash (rest + 1) (probeState hash nBuckets d) := by
  refine ⟨fuel - d - 1, ?_⟩
  have split : fuel = (fuel - d - 1 + 1) + d := by omega
  conv_lhs => rw [split]
  exact hashTableProbeLoop_skip passes _

/-- A probe that gets to an empty bucket misses. -/
theorem hashTableProbePriv_miss {d fuel : Nat} (enough : d < fuel)
    (passes : ∀ e < d, ProbePasses isEqual hashAt keyAt hash (probePath nBuckets hash e))
    {key : Value} (read : keyAt (probePath nBuckets hash d) = .ok key)
    (isEmpty : key.type = .emptySlot) :
    hashTableProbePriv fuel isEqual hash nBuckets hashAt keyAt = .ok none := by
  obtain ⟨rest, eq⟩ := hashTableProbePriv_eq enough passes
  rw [probePath] at read
  rw [eq, hashTableProbeLoop, read, ok_bind, if_pos isEmpty]
  rfl

/-- A probe that gets to a key of its hash that passes the test returns its bucket. -/
theorem hashTableProbePriv_hit {d fuel : Nat} (enough : d < fuel)
    (passes : ∀ e < d, ProbePasses isEqual hashAt keyAt hash (probePath nBuckets hash e))
    {key : Value} (read : keyAt (probePath nBuckets hash d) = .ok key)
    (occupied : key.type ≠ .emptySlot)
    (hashRead : hashAt (probePath nBuckets hash d) = .ok hash) (equal : isEqual key = .ok true) :
    hashTableProbePriv fuel isEqual hash nBuckets hashAt keyAt
      = .ok (some (UInt32.ofNat (probePath nBuckets hash d))) := by
  obtain ⟨rest, eq⟩ := hashTableProbePriv_eq enough passes
  rw [probePath] at read hashRead
  rw [eq, hashTableProbeLoop, read, ok_bind, if_neg occupied, hashRead, ok_bind, if_pos rfl, equal,
    ok_bind, probePath, UInt32.ofNat_toNat]
  rfl

/-- The ways in which a probe can end at its `d`-th round. -/
inductive ProbeEnds (isEqual : Value → Res Bool) (hashAt : Nat → Res UInt32)
    (keyAt : Nat → Res Value) (hash : UInt32) (b : Nat) : Res (Option UInt32) → Prop where
  | miss {key : Value} : keyAt b = .ok key → key.type = .emptySlot →
      ProbeEnds isEqual hashAt keyAt hash b (.ok none)
  | hit {key : Value} : keyAt b = .ok key → key.type ≠ .emptySlot → hashAt b = .ok hash →
      isEqual key = .ok true → ProbeEnds isEqual hashAt keyAt hash b (.ok (some (UInt32.ofNat b)))
  | stop {key : Value} {e : Stop} : keyAt b = .ok key → key.type ≠ .emptySlot →
      hashAt b = .ok hash → isEqual key = .error e →
      ProbeEnds isEqual hashAt keyAt hash b (.error e)

/-- A probe stops with the test of the first key it does not go past. -/
theorem hashTableProbePriv_stop {d fuel : Nat} (enough : d < fuel)
    (passes : ∀ e < d, ProbePasses isEqual hashAt keyAt hash (probePath nBuckets hash e))
    {key : Value} (read : keyAt (probePath nBuckets hash d) = .ok key)
    (occupied : key.type ≠ .emptySlot)
    (hashRead : hashAt (probePath nBuckets hash d) = .ok hash) {stop : Stop}
    (failed : isEqual key = .error stop) :
    hashTableProbePriv fuel isEqual hash nBuckets hashAt keyAt = .error stop := by
  obtain ⟨rest, eq⟩ := hashTableProbePriv_eq enough passes
  rw [probePath] at read hashRead
  rw [eq, hashTableProbeLoop, read, ok_bind, if_neg occupied, hashRead, ok_bind, if_pos rfl, failed]
  rfl

/-- A probe along buckets that can be read ends at the first one it does not go
past, unless its fuel does not last until there. -/
theorem hashTableProbePriv_ends
    (reads : ∀ d, ∃ key stored, keyAt (probePath nBuckets hash d) = .ok key ∧
      hashAt (probePath nBuckets hash d) = .ok stored) (fuel : Nat) :
    (∀ d < fuel, ProbePasses isEqual hashAt keyAt hash (probePath nBuckets hash d)) ∧
        hashTableProbePriv fuel isEqual hash nBuckets hashAt keyAt = fault .diverges ∨
      ∃ d < fuel,
        (∀ e < d, ProbePasses isEqual hashAt keyAt hash (probePath nBuckets hash e)) ∧
        ProbeEnds isEqual hashAt keyAt hash (probePath nBuckets hash d)
          (hashTableProbePriv fuel isEqual hash nBuckets hashAt keyAt) := by
  classical
  by_cases all : ∀ d < fuel, ProbePasses isEqual hashAt keyAt hash (probePath nBuckets hash d)
  · refine Or.inl ⟨all, ?_⟩
    have skipped := hashTableProbeLoop_skip all 0
    rw [Nat.zero_add] at skipped
    exact skipped
  · push Not at all
    have least := Nat.find_spec all
    have passes : ∀ e < Nat.find all,
        ProbePasses isEqual hashAt keyAt hash (probePath nBuckets hash e) := by
      intro e less
      by_contra stuck
      exact Nat.find_min all less ⟨less.trans least.1, stuck⟩
    refine Or.inr ⟨Nat.find all, least.1, passes, ?_⟩
    generalize Nat.find all = d at least passes
    obtain ⟨key, stored, read, hashRead⟩ := reads d
    by_cases isEmpty : key.type = .emptySlot
    · rw [hashTableProbePriv_miss least.1 passes read isEmpty]
      exact .miss read isEmpty
    · have same : hash = stored := by
        by_contra other
        exact least.2 ⟨key, stored, read, isEmpty, hashRead, fun same => absurd same other⟩
      rw [← same] at hashRead
      cases tested : isEqual key with
      | error stop =>
          rw [hashTableProbePriv_stop least.1 passes read isEmpty hashRead tested]
          exact .stop read isEmpty hashRead tested
      | ok equal =>
          cases equal with
          | true =>
              rw [hashTableProbePriv_hit least.1 passes read isEmpty hashRead tested]
              exact .hit read isEmpty hashRead tested
          | false =>
              exact absurd ⟨key, hash, read, isEmpty, hashRead, fun _ => tested⟩ least.2

end Probing

/-! ## Filled arrays -/

/-- `xs[0], …, xs[n - 1]` put at their places into an array of blanks. -/
def scatter (place : Nat → Nat) (blank : UInt32) (size : Nat) (xs : List UInt32) :
    Nat → List UInt32
  | 0 => List.replicate size blank
  | n + 1 => (scatter place blank size xs n).set (place n) (xs.getD n 0)

section Scatter

variable {place : Nat → Nat} {blank : UInt32} {size : Nat} {xs : List UInt32} {n : Nat}

@[simp] theorem length_scatter : (scatter place blank size xs n).length = size := by
  induction n with
  | zero => exact List.length_replicate
  | succ n ih => rw [scatter, List.length_set, ih]

theorem scatter_congr {place' : Nat → Nat} (same : ∀ i < n, place i = place' i) :
    scatter place blank size xs n = scatter place' blank size xs n := by
  induction n with
  | zero => rfl
  | succ n ih =>
      rw [scatter, scatter, ih fun i less => same i (Nat.lt_succ_of_lt less),
        same n (Nat.lt_succ_self n)]

theorem scatter_free {b : Nat} (inside : b < size) (free : ∀ i < n, place i ≠ b) :
    (scatter place blank size xs n)[b]? = some blank := by
  induction n with
  | zero => rw [scatter, List.getElem?_replicate, if_pos inside]
  | succ n ih =>
      rw [scatter, List.getElem?_set_ne (free n (Nat.lt_succ_self n))]
      exact ih fun i less => free i (Nat.lt_succ_of_lt less)

theorem scatter_place (injective : ∀ i < n, ∀ j < n, place i = place j → i = j)
    {j : Nat} (less : j < n) (inside : place j < size) :
    (scatter place blank size xs n)[place j]? = some (xs.getD j 0) := by
  induction n with
  | zero => omega
  | succ n ih =>
      rw [scatter]
      rcases Nat.lt_succ_iff_lt_or_eq.mp less with before | rfl
      · have apart : place n ≠ place j := fun same =>
          absurd (injective n (Nat.lt_succ_self n) j less same) (Nat.ne_of_gt before)
        rw [List.getElem?_set_ne apart]
        exact ih (fun i iLess k kLess =>
          injective i (Nat.lt_succ_of_lt iLess) k (Nat.lt_succ_of_lt kLess)) before
      · rw [List.getElem?_set_self (by rwa [length_scatter])]

end Scatter

theorem arrayGet_eq_ok {xs : List UInt32} {i : Nat} {x : UInt32} :
    arrayGet xs i = .ok x ↔ xs[i]? = some x := by
  unfold arrayGet
  cases xs[i]? with
  | none => simp [fault]
  | some y => simp

theorem arrayGet_getD {xs : List UInt32} {i : Nat} (inside : i < xs.length) :
    arrayGet xs i = .ok (xs.getD i 0) := by
  rw [arrayGet_eq_ok, List.getD_eq_getElem?_getD, List.getElem?_eq_getElem inside,
    Option.getD_some]

theorem arraySet_eq_ok {xs : List UInt32} {i : Nat} (inside : i < xs.length) (x : UInt32) :
    arraySet xs i x = .ok (xs.set i x) := if_pos inside

/-! ## Building -/

/-- The message of a table with two keys that compare equal. -/
def duplicateKeysMessage : String := "there are duplicate keys in the set/map"

/-- One comparison of a new key with a stored one. -/
def compareKeys (cmpCreate : UInt32 → UInt32 → Res Int) (stored key : UInt32) : Res Unit := do
  let cmp ← cmpCreate stored key
  if cmp = 0 then fail duplicateKeysMessage else pure ()

/-- The comparisons that inserting key `j` makes, in their order: the keys before
it that share its hash, oldest first. -/
def compareWithEarlier (cmpCreate : UInt32 → UInt32 → Res Int)
    (hashVector keysVector : List UInt32) (j : Nat) : Res Unit :=
  (List.range j).forM fun i =>
    if hashVector.getD i 0 = hashVector.getD j 0 then
      compareKeys cmpCreate (keysVector.getD i 0) (keysVector.getD j 0)
    else pure ()

/-- The comparisons that inserting the first `n` keys makes, in their order. -/
def compareAllKeys (cmpCreate : UInt32 → UInt32 → Res Int) (hashVector keysVector : List UInt32)
    (n : Nat) : Res Unit :=
  (List.range n).forM (compareWithEarlier cmpCreate hashVector keysVector)

theorem compareAllKeys_succ (cmpCreate : UInt32 → UInt32 → Res Int)
    (hashVector keysVector : List UInt32) (n : Nat) :
    compareAllKeys cmpCreate hashVector keysVector (n + 1)
      = compareAllKeys cmpCreate hashVector keysVector n >>= fun _ =>
        compareWithEarlier cmpCreate hashVector keysVector n := by
  rw [compareAllKeys, List.range_succ, forM_append, forM_cons]
  congr 1
  funext done
  cases compareWithEarlier cmpCreate hashVector keysVector n with
  | error stop => rfl
  | ok done => rfl

section Populate

variable {cmpCreate : UInt32 → UInt32 → Res Int} {emptySlotHandle nBuckets hash key : UInt32}
  {t : Buckets}

/-- A bucket that insertion of `key` goes past. -/
def FindPasses (cmpCreate : UInt32 → UInt32 → Res Int) (emptySlotHandle : UInt32) (t : Buckets)
    (hash key : UInt32) (b : Nat) : Prop :=
  ∃ stored h, t.keys[b]? = some stored ∧ stored ≠ emptySlotHandle ∧ t.hash[b]? = some h ∧
    (h = hash → compareKeys cmpCreate stored key = .ok ())

theorem populateFind_passed {fuel : Nat} {s : HashIterState}
    (passes : FindPasses cmpCreate emptySlotHandle t hash key s.bucket.toNat) :
    populateFind cmpCreate emptySlotHandle t hash key (fuel + 1) s
      = populateFind cmpCreate emptySlotHandle t hash key fuel s.next := by
  obtain ⟨stored, h, keyRead, occupied, hashRead, apart⟩ := passes
  rw [populateFind, arrayGet_eq_ok.mpr keyRead, ok_bind, if_neg occupied,
    arrayGet_eq_ok.mpr hashRead, ok_bind]
  split
  case isTrue same =>
    have verdict := apart same
    unfold compareKeys at verdict
    obtain ⟨c, compared, result⟩ := bind_eq_ok.mp verdict
    have nonzero : c ≠ 0 := by
      intro zero
      rw [if_pos zero] at result
      cases result
    rw [compared]
    exact if_neg nonzero
  case isFalse => rfl

theorem populateFind_skip {d : Nat}
    (passes : ∀ e < d, FindPasses cmpCreate emptySlotHandle t hash key (probePath nBuckets hash e))
    (fuel : Nat) :
    populateFind cmpCreate emptySlotHandle t hash key (fuel + d) (probeState hash nBuckets 0)
      = populateFind cmpCreate emptySlotHandle t hash key fuel (probeState hash nBuckets d) := by
  induction d generalizing fuel with
  | zero => rfl
  | succ d ih =>
      have rest := ih (fun e less => passes e (Nat.lt_succ_of_lt less)) (fuel + 1)
      rw [Nat.add_right_comm] at rest
      rw [← Nat.add_assoc, rest, populateFind_passed (passes d (Nat.lt_succ_self d)),
        ← probeState_succ]

theorem populateFind_eq {d fuel : Nat} (enough : d < fuel)
    (passes : ∀ e < d,
      FindPasses cmpCreate emptySlotHandle t hash key (probePath nBuckets hash e)) :
    ∃ rest, populateFind cmpCreate emptySlotHandle t hash key fuel
        (hashTableProbeHashInit hash nBuckets)
      = populateFind cmpCreate emptySlotHandle t hash key (rest + 1)
        (probeState hash nBuckets d) := by
  refine ⟨fuel - d - 1, ?_⟩
  have split : fuel = (fuel - d - 1 + 1) + d := by omega
  conv_lhs => rw [split]
  exact populateFind_skip passes _

/-- Insertion stops at the first empty bucket. -/
theorem populateFind_free {d fuel : Nat} (enough : d < fuel)
    (passes : ∀ e < d,
      FindPasses cmpCreate emptySlotHandle t hash key (probePath nBuckets hash e))
    (free : t.keys[probePath nBuckets hash d]? = some emptySlotHandle) :
    populateFind cmpCreate emptySlotHandle t hash key fuel (hashTableProbeHashInit hash nBuckets)
      = .ok (probeState hash nBuckets d).bucket := by
  obtain ⟨rest, eq⟩ := populateFind_eq enough passes
  rw [probePath] at free
  rw [eq, populateFind, arrayGet_eq_ok.mpr free, ok_bind, if_pos rfl]
  rfl

/-- Insertion stops at the first key of its hash that the comparison does not
tell apart from the new one. -/
theorem populateFind_clash {d fuel : Nat} (enough : d < fuel)
    (passes : ∀ e < d,
      FindPasses cmpCreate emptySlotHandle t hash key (probePath nBuckets hash e))
    {stored : UInt32} (read : t.keys[probePath nBuckets hash d]? = some stored)
    (occupied : stored ≠ emptySlotHandle)
    (hashRead : t.hash[probePath nBuckets hash d]? = some hash)
    {stop : Stop} (clash : compareKeys cmpCreate stored key = .error stop) :
    populateFind cmpCreate emptySlotHandle t hash key fuel (hashTableProbeHashInit hash nBuckets)
      = .error stop := by
  obtain ⟨rest, eq⟩ := populateFind_eq enough passes
  rw [probePath] at read hashRead
  rw [eq, populateFind, arrayGet_eq_ok.mpr read, ok_bind, if_neg occupied,
    arrayGet_eq_ok.mpr hashRead, ok_bind, if_pos rfl]
  unfold compareKeys at clash
  rcases bind_eq_error.mp clash with failed | ⟨c, compared, result⟩
  · rw [failed]
    rfl
  · rw [compared]
    split at result
    case isTrue zero =>
      cases result
      exact if_pos zero
    case isFalse => cases result

end Populate

/-- The arrays with the first `n` keys at their places. -/
def filled (place : Nat → Nat) (emptySlotHandle : UInt32) (size : Nat)
    (hashVector keysVector : List UInt32) (valuesVector : Option (List UInt32)) (n : Nat) :
    Buckets where
  hash := scatter place 0 size hashVector n
  keys := scatter place emptySlotHandle size keysVector n
  values := valuesVector.map fun values => scatter place emptySlotHandle size values n

/-- What a caller of `pointless_hash_table_populate` provides: `n` keys with their
hashes, and a power of two of buckets that has room for them. -/
structure PopulateInput (hashVector keysVector : List UInt32)
    (valuesVector : Option (List UInt32)) (emptySlotHandle : UInt32) (k n : Nat) : Prop where
  hashLength : hashVector.length = n
  keysLength : keysVector.length = n
  valuesLength : ∀ values ∈ valuesVector, values.length = n
  bound : k ≤ 31
  room : n < 2 ^ k
  nonempty : ∀ key ∈ keysVector, key ≠ emptySlotHandle

section PopulateLoop

variable {cmpCreate : UInt32 → UInt32 → Res Int} {hashVector keysVector : List UInt32}
  {valuesVector : Option (List UInt32)} {emptySlotHandle : UInt32} {k n j : Nat}
  {place : Nat → Nat}

/-- The first `j` keys stand in a table of `2 ^ k` buckets. -/
abbrev TableOf (hashVector : List UInt32) (k : Nat) (place : Nat → Nat) (j : Nat) : Prop :=
  Chained (probePath (UInt32.ofNat (2 ^ k))) (fun i => hashVector.getD i 0) place j

theorem PopulateInput.place_lt
    (input : PopulateInput hashVector keysVector valuesVector emptySlotHandle k n)
    (table : TableOf hashVector k place j) {i : Nat} (less : i < j) : place i < 2 ^ k := by
  obtain ⟨d, reached, -⟩ := table.chain i less
  rw [← reached]
  exact probePath_lt input.bound _ _

theorem PopulateInput.key_ne
    (input : PopulateInput hashVector keysVector valuesVector emptySlotHandle k n)
    {i : Nat} (less : i < n) : keysVector.getD i 0 ≠ emptySlotHandle := by
  have inside : i < keysVector.length := by rwa [input.keysLength]
  rw [List.getD_eq_getElem?_getD, List.getElem?_eq_getElem inside, Option.getD_some]
  exact input.nonempty _ (List.getElem_mem inside)

/-- A stored key that is told apart from the new one lets insertion pass. -/
theorem PopulateInput.findPasses
    (input : PopulateInput hashVector keysVector valuesVector emptySlotHandle k n)
    (jLess : j < n) (table : TableOf hashVector k place j) {i : Nat} (less : i < j)
    (apart : hashVector.getD i 0 = hashVector.getD j 0 →
      compareKeys cmpCreate (keysVector.getD i 0) (keysVector.getD j 0) = .ok ()) :
    FindPasses cmpCreate emptySlotHandle
      (filled place emptySlotHandle (2 ^ k) hashVector keysVector valuesVector j)
      (hashVector.getD j 0) (keysVector.getD j 0) (place i) := by
  have inside := input.place_lt table less
  exact ⟨_, _, scatter_place table.injective less inside, input.key_ne (less.trans jLess),
    scatter_place table.injective less inside, apart⟩

/-- Where the comparisons stop, insertion stops with the same outcome: the least
key that is not told apart comes on the path before the first empty bucket, and
the keys before it there were inserted earlier. -/
theorem populateFind_fails
    (input : PopulateInput hashVector keysVector valuesVector emptySlotHandle k n)
    (jLess : j < n) (table : TableOf hashVector k place j) {fuel : Nat}
    (enough : 7 + 2 ^ k ≤ fuel) {stop : Stop}
    (clash : compareWithEarlier cmpCreate hashVector keysVector j = .error stop) :
    populateFind cmpCreate emptySlotHandle
        (filled place emptySlotHandle (2 ^ k) hashVector keysVector valuesVector j)
        (hashVector.getD j 0) (keysVector.getD j 0) fuel
        (hashTableProbeHashInit (hashVector.getD j 0) (UInt32.ofNat (2 ^ k)))
      = .error stop := by
  obtain ⟨i, less, passed, failed⟩ := forM_range_eq_error.mp clash
  have apart : ∀ i' < i, hashVector.getD i' 0 = hashVector.getD j 0 →
      compareKeys cmpCreate (keysVector.getD i' 0) (keysVector.getD j 0) = .ok () := by
    intro i' before same
    have result := passed i' before
    rwa [if_pos same] at result
  have sameHash : hashVector.getD i 0 = hashVector.getD j 0 := by
    by_contra differ
    rw [if_neg differ] at failed
    cases failed
  rw [if_pos sameHash] at failed
  obtain ⟨D, DBound, free, -⟩ :=
    (probePath_covers input.bound).exists_slot place (jLess.trans input.room)
      (hashVector.getD j 0)
  rw [← sameHash] at free
  obtain ⟨d, dLess, reached, before⟩ := table.before_free less free
  rw [sameHash] at reached before
  have inside := input.place_lt table less
  refine populateFind_clash (d := d) (by omega) ?_ ?_ (input.key_ne (less.trans jLess)) ?_ failed
  · intro e eLess
    obtain ⟨i', i'Less, at_i'⟩ := before e eLess
    rw [at_i']
    exact input.findPasses jLess table (i'Less.trans less) (apart i' i'Less)
  · rw [reached]
    exact scatter_place table.injective less inside
  · rw [reached, ← sameHash]
    exact scatter_place table.injective less inside

/-- Where the comparisons all tell the keys apart, insertion finds the first free
bucket of the path, and the table stays chained with the key put there. -/
theorem populateFind_finds
    (input : PopulateInput hashVector keysVector valuesVector emptySlotHandle k n)
    (jLess : j < n) (table : TableOf hashVector k place j)
    (apart : compareWithEarlier cmpCreate hashVector keysVector j = .ok ()) :
    ∃ bucket : UInt32, bucket.toNat < 2 ^ k ∧
      TableOf hashVector k (Function.update place j bucket.toNat) (j + 1) ∧
      ∀ fuel, 7 + 2 ^ k ≤ fuel → populateFind cmpCreate emptySlotHandle
        (filled place emptySlotHandle (2 ^ k) hashVector keysVector valuesVector j)
        (hashVector.getD j 0) (keysVector.getD j 0) fuel
        (hashTableProbeHashInit (hashVector.getD j 0) (UInt32.ofNat (2 ^ k))) = .ok bucket := by
  obtain ⟨d, dBound, free, taken⟩ :=
    (probePath_covers input.bound).exists_slot place (jLess.trans input.room)
      (hashVector.getD j 0)
  refine ⟨(probeState (hashVector.getD j 0) (UInt32.ofNat (2 ^ k)) d).bucket,
    probePath_lt input.bound _ _, table.insert free taken, fun fuel enough => ?_⟩
  refine populateFind_free (by omega) ?_ (scatter_free (probePath_lt input.bound _ _) free)
  intro e eLess
  obtain ⟨i, less, at_i⟩ := taken e eLess
  rw [at_i]
  refine input.findPasses jLess table less fun same => ?_
  have result := forM_eq_ok.mp apart i (List.mem_range.mpr less)
  rwa [if_pos same] at result

theorem putValue_filled
    (input : PopulateInput hashVector keysVector valuesVector emptySlotHandle k n)
    (jLess : j < n) {bucket : Nat} (inside : bucket < 2 ^ k) :
    putValue valuesVector j
        (valuesVector.map fun values => scatter place emptySlotHandle (2 ^ k) values j) bucket
      = .ok (valuesVector.map fun values =>
          (scatter place emptySlotHandle (2 ^ k) values j).set bucket (values.getD j 0)) := by
  cases valuesVector with
  | none => rfl
  | some values =>
      have length := input.valuesLength values rfl
      rw [Option.map_some, putValue, arrayGet_getD (by omega), ok_bind,
        arraySet_eq_ok (by rwa [length_scatter])]
      rfl

theorem filled_update (place : Nat → Nat) (j bucket : Nat) :
    filled (Function.update place j bucket) emptySlotHandle (2 ^ k) hashVector keysVector
        valuesVector (j + 1)
      = ⟨(scatter place 0 (2 ^ k) hashVector j).set bucket (hashVector.getD j 0),
         (scatter place emptySlotHandle (2 ^ k) keysVector j).set bucket (keysVector.getD j 0),
         valuesVector.map fun values =>
          (scatter place emptySlotHandle (2 ^ k) values j).set bucket (values.getD j 0)⟩ := by
  have same : ∀ i < j, Function.update place j bucket i = place i :=
    fun i less => Function.update_of_ne (Nat.ne_of_lt less) _ _
  simp only [filled, scatter, Function.update_self, scatter_congr same]

variable (cmpCreate) in
/-- One round: the comparisons with the earlier keys, and then the key is in a
bucket of its own. -/
theorem populateStep_eq
    (input : PopulateInput hashVector keysVector valuesVector emptySlotHandle k n)
    (jLess : j < n) (table : TableOf hashVector k place j) :
    ∃ place', TableOf hashVector k place' (j + 1) ∧ ∀ fuel, 7 + 2 ^ k ≤ fuel →
      populateStep fuel cmpCreate hashVector keysVector valuesVector (UInt32.ofNat (2 ^ k))
          emptySlotHandle
          (filled place emptySlotHandle (2 ^ k) hashVector keysVector valuesVector j) j
        = compareWithEarlier cmpCreate hashVector keysVector j >>= fun _ =>
          .ok (filled place' emptySlotHandle (2 ^ k) hashVector keysVector valuesVector (j + 1)) := by
  have hashRead : arrayGet hashVector j = .ok (hashVector.getD j 0) :=
    arrayGet_getD (by rwa [input.hashLength])
  have keyRead : arrayGet keysVector j = .ok (keysVector.getD j 0) :=
    arrayGet_getD (by rwa [input.keysLength])
  cases verdict : compareWithEarlier cmpCreate hashVector keysVector j with
  | error stop =>
      obtain ⟨d, -, free, taken⟩ := (probePath_covers input.bound).exists_slot place
        (jLess.trans input.room) (hashVector.getD j 0)
      refine ⟨_, table.insert free taken, fun fuel enough => ?_⟩
      rw [populateStep, hashRead, ok_bind, keyRead, ok_bind,
        populateFind_fails input jLess table enough verdict]
      rfl
  | ok done =>
      obtain ⟨bucket, inside, table', found⟩ := populateFind_finds input jLess table verdict
      refine ⟨_, table', fun fuel enough => ?_⟩
      rw [populateStep, hashRead, ok_bind, keyRead, ok_bind, found fuel enough, ok_bind, filled_update]
      simp only [filled]
      rw [arraySet_eq_ok (by rwa [length_scatter]), ok_bind,
        arraySet_eq_ok (by rwa [length_scatter]), ok_bind, putValue_filled input jLess inside]
      rfl

variable (cmpCreate) in
/-- The whole loop. -/
theorem populateLoop_eq
    (input : PopulateInput hashVector keysVector valuesVector emptySlotHandle k n)
    (bound : j ≤ n) :
    ∃ place, TableOf hashVector k place j ∧ ∀ fuel, 7 + 2 ^ k ≤ fuel →
      (List.range j).foldlM
          (populateStep fuel cmpCreate hashVector keysVector valuesVector (UInt32.ofNat (2 ^ k))
            emptySlotHandle)
          (filled place emptySlotHandle (2 ^ k) hashVector keysVector valuesVector 0)
        = compareAllKeys cmpCreate hashVector keysVector j >>= fun _ =>
          .ok (filled place emptySlotHandle (2 ^ k) hashVector keysVector valuesVector j) := by
  induction j with
  | zero => exact ⟨fun _ => 0, Chained.empty, fun fuel _ => rfl⟩
  | succ j ih =>
      obtain ⟨place, table, run⟩ := ih (Nat.le_of_succ_le bound)
      obtain ⟨place', table', step⟩ :=
        populateStep_eq cmpCreate input (Nat.lt_of_succ_le bound) table
      refine ⟨place', table', fun fuel enough => ?_⟩
      have start : filled place' emptySlotHandle (2 ^ k) hashVector keysVector valuesVector 0
          = filled place emptySlotHandle (2 ^ k) hashVector keysVector valuesVector 0 := rfl
      rw [start, List.range_succ, foldlM_append, run fuel enough, compareAllKeys_succ]
      cases compareAllKeys cmpCreate hashVector keysVector j with
      | error stop => rfl
      | ok done =>
          rw [ok_bind, ok_bind, ok_bind, List.foldlM_cons, step fuel enough]
          cases compareWithEarlier cmpCreate hashVector keysVector j with
          | error stop => rfl
          | ok done => rfl

theorem populateCheckKeys_ok
    (input : PopulateInput hashVector keysVector valuesVector emptySlotHandle k n)
    {nKeys : UInt32} (count : nKeys.toNat = n) :
    populateCheckKeys keysVector nKeys emptySlotHandle = .ok () := by
  refine forM_eq_ok.mpr fun j mem => ?_
  rw [List.mem_range, count] at mem
  rw [arrayGet_getD (by rwa [input.keysLength]), ok_bind, if_neg (input.key_ne mem)]
  rfl

theorem populateCheckBuckets_fresh (isMap : Bool) (nBuckets emptySlotHandle : UInt32) :
    populateCheckBuckets (.fresh isMap nBuckets emptySlotHandle) nBuckets emptySlotHandle
      = .ok () := by
  refine forM_eq_ok.mpr fun j mem => ?_
  rw [List.mem_range] at mem
  have read : ∀ x : UInt32, arrayGet (List.replicate nBuckets.toNat x) j = .ok x := by
    intro x
    rw [arrayGet_eq_ok, List.getElem?_replicate, if_pos mem]
  cases isMap <;> simp [Buckets.fresh, read]

variable (cmpCreate) in
/-- Building a table of fresh arrays: the comparisons of the keys of equal hash,
and then every key is at its place. -/
theorem hashTablePopulate_eq
    (input : PopulateInput hashVector keysVector valuesVector emptySlotHandle k n)
    {nKeys : UInt32} (count : nKeys.toNat = n) :
    ∃ place, TableOf hashVector k place n ∧ ∀ fuel, 7 + 2 ^ k ≤ fuel →
      hashTablePopulate fuel cmpCreate hashVector keysVector valuesVector nKeys
          (.fresh valuesVector.isSome (UInt32.ofNat (2 ^ k)) emptySlotHandle)
          (UInt32.ofNat (2 ^ k)) emptySlotHandle
        = compareAllKeys cmpCreate hashVector keysVector n >>= fun _ =>
          .ok (filled place emptySlotHandle (2 ^ k) hashVector keysVector valuesVector n) := by
  obtain ⟨place, table, run⟩ :=
    populateLoop_eq cmpCreate input (Nat.le_refl n)
  refine ⟨place, table, fun fuel enough => ?_⟩
  have fresh : Buckets.fresh valuesVector.isSome (UInt32.ofNat (2 ^ k)) emptySlotHandle
      = filled place emptySlotHandle (2 ^ k) hashVector keysVector valuesVector 0 := by
    rw [Buckets.fresh, filled, toNat_two_pow input.bound]
    cases valuesVector <;> rfl
  have both : ¬(0 < nKeys ∧ valuesVector.isNone ≠
      (Buckets.fresh valuesVector.isSome (UInt32.ofNat (2 ^ k)) emptySlotHandle).values.isNone) := by
    rintro ⟨-, differ⟩
    cases valuesVector <;> exact differ rfl
  rw [hashTablePopulate, if_neg both, populateCheckKeys_ok input count, ok_bind,
    populateCheckBuckets_fresh, ok_bind, fresh, count, run fuel enough]

end PopulateLoop

end Pointless
