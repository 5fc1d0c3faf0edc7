import Pointless.AcyclicCompare

/-!
# Lookups by acyclic keys

`pointless_is_in_set_acyclic`, `pointless_is_in_map_acyclic` and the two
`pointless_has_same_keys` functions. They are right as long as every comparison that they
come to is, and an equal key has the hash of the key that is looked up.
-/

namespace Pointless

open Deciding ExceptRules

/-! ## Keys that equal themselves -/

/-- A comparison position by position that returns 0 has found no difference. -/
theorem cmpSeq_eq_zero {compare : Nat → Res Int} {last : Int} {indices : List Nat}
    (equal : cmpSeq compare last indices = .ok 0) : ∀ i ∈ indices, compare i = .ok 0 := by
  induction indices with
  | nil => exact fun i no => absurd no List.not_mem_nil
  | cons i rest ih =>
      rw [cmpSeq] at equal
      obtain ⟨c, here, equal⟩ := bind_eq_ok.mp equal
      by_cases zero : c = 0
      · rw [if_neg (not_not.mpr zero)] at equal
        rw [List.forall_mem_cons]
        exact ⟨zero ▸ here, ih equal⟩
      · rw [if_pos zero] at equal
        exact absurd (Except.ok.inj equal) zero

/-- A value that equals itself has no set or map in it, and is nested below the depth limit. -/
theorem acyclicWithin_of_equal {p : OpenFile} {fuel depth levels : Nat} {c : CompleteValue}
    (equal : cmpReaderRec true p p fuel c c depth = .ok 0)
    (enough : maxDepth ≤ depth + 2 * levels + 2) : AcyclicWithin p levels c := by
  induction fuel generalizing levels depth c with
  | zero => cases equal
  | succ fuel ih =>
      rw [cmpReaderRec] at equal
      split at equal
      case isTrue => cases equal
      case isFalse shallow =>
        rw [if_neg (not_not.mpr rfl)] at equal
        have items : isVectorType c.type = true → ∀ n i x,
            readerVectorNItems p c.toValue = .ok n → i < n.toNat →
            readerVectorValueCase p c.toValue i = .ok x →
            cmpReaderRec true p p fuel x x (depth + 2) = .ok 0 := by
          intro vector n i x count less item
          rw [cmpReaderFunc_vector.mpr vector] at equal
          simp only [count, ok_bind] at equal
          have here := cmpSeq_eq_zero equal i (List.mem_range.mpr (by omega))
          rw [item, ok_bind, ok_bind] at here
          simp only [not_true_eq_false, and_false, if_false, bind_pure] at here
          exact here
        have notSet : c.type ≠ .setValue := by
          intro type
          rw [type] at equal
          cases equal
        have notMap : c.type ≠ .mapValueValue := by
          intro type
          rw [type] at equal
          cases equal
        cases levels with
        | zero =>
            refine ⟨notSet, notMap, fun vector n i x count less item => ?_⟩
            have below := items vector n i x count less item
            cases fuel with
            | zero => cases below
            | succ fuel =>
                have deep : (true : Bool) = true ∧ maxDepth ≤ depth + 2 := ⟨rfl, by omega⟩
                rw [cmpReaderRec, if_pos deep] at below
                cases below
        | succ levels =>
            refine ⟨notSet, notMap, fun vector n i x count less item => ?_⟩
            exact ih (items vector n i x count less item) (by omega)

/-! ## The test of a key -/

/-- The test of a stored key decides whether it is equal, where the comparison gets on. -/
theorem checkAcyclic_decides {p : OpenFile} (sound : p.Sound) {k kk : Value}
    (readable : Readable p k.toComplete) (stored : Readable p kk.toComplete)
    (acyclic : AcyclicWithin p ((maxDepth - 1) / 2) k.toComplete) :
    Decides (FirstDiffer p p kk.toComplete k.toComplete)
      (cmpReader p kk.toComplete p k.toComplete = .ok 0) fun fuel => checkAcyclic p fuel k kk := by
  rcases cmpReaderAcyclic_outcome sound sound stored readable acyclic with
    ⟨differ, c, returns, checked⟩ | ⟨notDiffer, enough, stops⟩
  · refine Or.inl ⟨differ, decide (c = 0), ?_, ?_⟩
    · exact EventuallyReturns.bind returns ⟨0, fun _ _ => rfl⟩
    · rw [decide_eq_true_iff, checked, Except.ok.injEq]
  · refine Or.inr ⟨notDiffer, enough, fun fuel le => ⟨.fault .nullPointer, ?_⟩⟩
    change checkAcyclic p fuel k kk = _
    rw [checkAcyclic, stops fuel le]
    rfl

/-! ## Lookups -/

/-- `pointless_is_in_set_acyclic` or `pointless_is_in_map_acyclic`. -/
def isInAcyclic (p : OpenFile) (fuel : Nat) (t k : Value) : Res Bool :=
  if t.type = .setValue then isInSetAcyclic p fuel t k else isInMapAcyclic p fuel t k

/-- Some stored key compares as equal to `k`. -/
def HasEqual (p : OpenFile) (nBuckets : UInt32) (key : Nat → Value) (k : Value) : Prop :=
  ∃ b < nBuckets.toNat, (key b).type ≠ .emptySlot ∧
    cmpReader p (key b).toComplete p k.toComplete = .ok 0

/-- Some stored key of the hash of `k` compares as equal to it. -/
def HasEqualOfHash (p : OpenFile) (nBuckets : UInt32) (hash : Nat → UInt32) (key : Nat → Value)
    (k : Value) : Prop :=
  ∃ h, HashIs p k h ∧ ∃ b < nBuckets.toNat, (key b).type ≠ .emptySlot ∧ hash b = h ∧
    cmpReader p (key b).toComplete p k.toComplete = .ok 0

/-- The first empty bucket on the path of a hash. -/
structure FirstGap (nBuckets : UInt32) (key : Nat → Value) (h : UInt32) (gap : Nat) : Prop where
  isEmpty : (key (probePath nBuckets h gap)).type = .emptySlot
  occupied : ∀ d < gap, (key (probePath nBuckets h d)).type ≠ .emptySlot

theorem FirstGap.unique {nBuckets : UInt32} {key : Nat → Value} {h : UInt32} {gap gap' : Nat}
    (first : FirstGap nBuckets key h gap) (second : FirstGap nBuckets key h gap') : gap = gap' := by
  rcases Nat.lt_trichotomy gap gap' with before | same | after
  · exact absurd first.isEmpty (second.occupied gap before)
  · exact same
  · exact absurd second.isEmpty (first.occupied gap' after)

/-- The key has a hash, and every stored key of that hash can be compared with it, up to one
that is equal. -/
def LookupGetsOn (p : OpenFile) (nBuckets : UInt32) (hash : Nat → UInt32) (key : Nat → Value)
    (k : Value) : Prop :=
  ∃ h gap, HashIs p k h ∧ FirstGap nBuckets key h gap ∧
    InTurn (fun b => FirstDiffer p p (key b).toComplete k.toComplete)
      (fun b => ¬cmpReader p (key b).toComplete p k.toComplete = .ok 0)
      (hashBuckets nBuckets hash h gap)

/-- A search that takes what it finds tests one entry after the other. -/
theorem isSome_findSomeM? {α β : Type} (test : α → Res Bool) (value : α → β) (entries : List α) :
    (Option.isSome <$> entries.findSomeM? fun x => do
      let checked ← test x
      if checked then pure (some (value x)) else pure none) = entries.anyM test := by
  induction entries with
  | nil => rfl
  | cons x rest ih =>
      rw [List.findSomeM?, List.anyM]
      cases test x with
      | error e => rfl
      | ok checked =>
          cases checked with
          | true => rfl
          | false => exact ih

section Accepted

variable {fuel : Nat} {buf : List UInt8} {p : OpenFile} {error : Option String} {t : Value}
  {nBuckets : UInt32} {hash : Nat → UInt32} {key : Nat → Value}
  (opened : openB fuel buf = .ok (p, error)) (reach : Reachable p t)
  (buckets : BucketsOf p t nBuckets hash key)
include opened reach buckets

/-- With enough fuel the lookup is the hash and then the tests of the keys of that hash. -/
theorem isInAcyclic_eq {h : UInt32} {gap : Nat} (first : FirstGap nBuckets key h gap) {k : Value}
    {more : Nat} (enough : gap < more) (hashed : hashReader32 p more k = .ok h) :
    isInAcyclic p more t k =
      (hashBuckets nBuckets hash h gap).anyM fun b => checkAcyclic p more k (key b) := by
  obtain ⟨table, at_t, even, read⟩ := buckets
  have stored := storedKeys_of_openB opened reach at_t even read
  obtain ⟨gap', -, path⟩ := stored.pathRead h
  obtain rfl := first.unique ⟨path.isEmpty, path.occupied⟩
  rw [isInAcyclic]
  by_cases type : t.type = .setValue
  · rw [if_pos type, isInSetAcyclic, hashed, ok_bind, getSet_eq type at_t even path enough]
    exact isSome_findSomeM? _ (fun _ => ()) _
  · rw [if_neg type, isInMapAcyclic, hashed, ok_bind]
    have isMap : t.type = .mapValueValue := by
      rcases at_t.isTable with no | isMap
      · exact absurd no type
      · exact isMap
    obtain ⟨value, values⟩ := exists_mapValues isMap at_t read
    rw [getMap_eq isMap at_t even (stored.path_lt _) path values enough]
    exact isSome_findSomeM? _ value _

/-- A lookup by an acyclic key decides whether there is an equal key of its hash. -/
theorem isInAcyclic_decides {k : Value} (readable : Readable p k.toComplete)
    (acyclic : AcyclicWithin p ((maxDepth - 1) / 2) k.toComplete) :
    Decides (LookupGetsOn p nBuckets hash key k) (HasEqualOfHash p nBuckets hash key k)
      fun fuel => isInAcyclic p fuel t k := by
  by_cases hasHash : ∃ h, HashIs p k h
  · obtain ⟨h, hashIs⟩ := hasHash
    obtain ⟨table, at_t, even, read⟩ := id buckets
    have stored := storedKeys_of_openB opened reach at_t even read
    obtain ⟨gap, -, path⟩ := stored.pathRead h
    have first : FirstGap nBuckets key h gap := ⟨path.isEmpty, path.occupied⟩
    have tests : ∀ b ∈ hashBuckets nBuckets hash h gap,
        Decides (FirstDiffer p p (key b).toComplete k.toComplete)
          (cmpReader p (key b).toComplete p k.toComplete = .ok 0)
          fun fuel => checkAcyclic p fuel k (key b) := by
      intro b mem
      obtain ⟨less, -, -⟩ := (mem_hashBuckets stored path).mp mem
      exact checkAcyclic_decides (openB_sound opened) readable (.value (read.buckets.reach b less))
        acyclic
    obtain ⟨enough, hashed⟩ := hashIs
    have search : Decides _ _ fun fuel => isInAcyclic p fuel t k :=
      (Decides.search tests).congr (max (gap + 1) enough) fun more le =>
        isInAcyclic_eq opened reach buckets first (by omega)
          (hashReader32_le (by omega) hashed)
    apply search.iff
    · constructor
      · intro inTurn
        exact ⟨h, gap, ⟨enough, hashed⟩, first, inTurn⟩
      · intro getsOn
        obtain ⟨h', gap', hashIs', first', inTurn⟩ := getsOn
        obtain rfl := HashIs.unique ⟨enough, hashed⟩ hashIs'
        obtain rfl := first.unique first'
        exact inTurn
    · constructor
      · intro found
        obtain ⟨b, mem, equal⟩ := found
        obtain ⟨less, occupied, own⟩ := (mem_hashBuckets stored path).mp mem
        exact ⟨h, ⟨enough, hashed⟩, b, less, occupied, own, equal⟩
      · intro has
        obtain ⟨h', hashIs', b, less, occupied, own, equal⟩ := has
        obtain rfl := HashIs.unique ⟨enough, hashed⟩ hashIs'
        exact ⟨b, (mem_hashBuckets stored path).mpr ⟨less, occupied, own⟩, equal⟩
  · refine Or.inr ⟨fun getsOn => ?_, 0, fun more _ => ?_⟩
    · obtain ⟨h, -, hashIs, -⟩ := getsOn
      exact hasHash ⟨h, hashIs⟩
    · change ∃ stop, isInAcyclic p more t k = .error stop
      rw [isInAcyclic, isInSetAcyclic, isInMapAcyclic]
      cases hashed : hashReader32 p more k with
      | ok h => exact absurd ⟨h, more, hashed⟩ hasHash
      | error stop =>
          refine ⟨stop, ?_⟩
          split <;> rfl

end Accepted

/-! ## Tables with the same keys -/

/-- `pointless_has_same_keys_set_map` or `pointless_has_same_keys_map_map`. -/
def hasSameKeys (p : OpenFile) (fuel : Nat) (a b : Value) : Res Bool :=
  if a.type = .setValue then hasSameKeysSetMap p fuel a b else hasSameKeysMapMap p fuel a b

/-- The keys of a table in the order of its buckets. -/
def keysInOrder (nBuckets : UInt32) (key : Nat → Value) : List Value :=
  (storedEntries key nBuckets.toNat).map Prod.fst

theorem mem_keysInOrder {nBuckets : UInt32} {key : Nat → Value} {k : Value} :
    k ∈ keysInOrder nBuckets key ↔ ∃ b < nBuckets.toNat, (key b).type ≠ .emptySlot ∧ key b = k := by
  rw [keysInOrder, List.mem_map]
  constructor
  · intro has
    obtain ⟨entry, mem, rfl⟩ := has
    obtain ⟨b, less, occupied, rfl⟩ := mem_storedEntries.mp mem
    exact ⟨b, less, occupied, rfl⟩
  · intro has
    obtain ⟨b, less, occupied, rfl⟩ := has
    exact ⟨_, mem_storedEntries.mpr ⟨b, less, occupied, rfl⟩, rfl⟩

/-- The loop around an iterator tests all entries. -/
theorem iterAll_eq {α σ : Type} {next : σ → Res (Option (α × σ))} {calls : Nat} {s : σ}
    {entries : List (α × σ)} (ran : iterRun next calls s = .ok entries) (test : α → Res Bool) :
    iterAll next test calls s = (entries.map Prod.fst).allM test := by
  induction calls generalizing s entries with
  | zero => cases ran
  | succ calls ih =>
      rw [iterRun] at ran
      obtain ⟨entry, called, ran⟩ := bind_eq_ok.mp ran
      rw [iterAll, called, ok_bind]
      cases entry with
      | none =>
          cases ran
          rfl
      | some entry =>
          obtain ⟨rest, others, rfl⟩ := map_eq_ok.mp ran
          rw [List.map_cons, List.allM]
          simp only [← ih others]
          congr 1
          funext passed
          cases passed <;> rfl

/-- Each of the two tables has an equal key for every key of the other. -/
def SameKeys (p : OpenFile) (nA : UInt32) (keyA : Nat → Value) (nB : UInt32)
    (keyB : Nat → Value) : Prop :=
  (∀ k ∈ keysInOrder nA keyA, HasEqual p nB keyB k) ∧
    ∀ k ∈ keysInOrder nB keyB, HasEqual p nA keyA k

/-- The tables have as many items, and each has an equal key of its hash for every key of the
other. -/
def SameKeysOfHash (p : OpenFile) (nA : UInt32) (hashA : Nat → UInt32) (keyA : Nat → Value)
    (nB : UInt32) (hashB : Nat → UInt32) (keyB : Nat → Value) : Prop :=
  occupied keyA nA.toNat = occupied keyB nB.toNat ∧
    (∀ k ∈ keysInOrder nA keyA, HasEqualOfHash p nB hashB keyB k) ∧
    ∀ k ∈ keysInOrder nB keyB, HasEqualOfHash p nA hashA keyA k

/-- If the tables have as many items, the lookups of the keys of each in the other get on, up
to the first that finds nothing. -/
def SameKeysGetsOn (p : OpenFile) (nA : UInt32) (hashA : Nat → UInt32) (keyA : Nat → Value)
    (nB : UInt32) (hashB : Nat → UInt32) (keyB : Nat → Value) : Prop :=
  occupied keyA nA.toNat = occupied keyB nB.toNat →
    InTurn (LookupGetsOn p nB hashB keyB) (HasEqualOfHash p nB hashB keyB) (keysInOrder nA keyA) ∧
      ((∀ k ∈ keysInOrder nA keyA, HasEqualOfHash p nB hashB keyB k) →
        InTurn (LookupGetsOn p nA hashA keyA) (HasEqualOfHash p nA hashA keyA)
          (keysInOrder nB keyB))

section Same

variable {fuel : Nat} {buf : List UInt8} {p : OpenFile} {error : Option String} {a b : Value}
  {nA nB : UInt32} {hashA hashB : Nat → UInt32} {keyA keyB : Nat → Value}
  (opened : openB fuel buf = .ok (p, error)) (aReach : Reachable p a) (bReach : Reachable p b)
  (aBuckets : BucketsOf p a nA hashA keyA) (bBuckets : BucketsOf p b nB hashB keyB)
include opened

include aReach aBuckets in
/-- A stored key is readable and acyclic. -/
theorem BucketsOf.acyclic {k : Value} (mem : k ∈ keysInOrder nA keyA) :
    Readable p k.toComplete ∧ AcyclicWithin p ((maxDepth - 1) / 2) k.toComplete := by
  obtain ⟨i, less, occupied, rfl⟩ := mem_keysInOrder.mp mem
  obtain ⟨table, at_a, even, read⟩ := aBuckets
  have stored := storedKeys_of_openB opened aReach at_a even read
  obtain ⟨d, -, -, equal, -⟩ := stored.found less occupied
  obtain ⟨c, compared, zero⟩ := keyEquals_eq_ok.mp equal
  obtain rfl := of_decide_eq_true zero
  exact ⟨.value (read.buckets.reach i less), acyclicWithin_of_equal compared (by decide)⟩

include aReach aBuckets in
/-- Going through the keys of a table. -/
theorem BucketsOf.iterates : ∃ entries : List (Value × UInt32),
    entries.map Prod.fst = keysInOrder nA keyA ∧
      ∀ calls, nA.toNat < calls → iterRun (tableReader p a).iter calls 0 = .ok entries := by
  obtain ⟨table, at_a, even, read⟩ := aBuckets
  have stored := storedKeys_of_openB opened aReach at_a even read
  have reads := tableReader_reads at_a even read stored.counted.size
  refine ⟨storedEntries keyA nA.toNat, rfl, fun calls enough => ?_⟩
  rw [funext reads.iter]
  exact bucketIter_run stored.read.keyAt enough

include aReach aBuckets in
/-- The number of items of a table. -/
theorem BucketsOf.nItems : ∃ n, (tableReader p a).nItems = .ok n ∧
    n.toNat = occupied keyA nA.toNat := by
  obtain ⟨table, at_a, even, read⟩ := aBuckets
  have stored := storedKeys_of_openB opened aReach at_a even read
  have reads := tableReader_reads at_a even read stored.counted.size
  exact ⟨table.nItems, reads.nItems, stored.counted.items.symm⟩

omit opened in
/-- The functions of a set or map are those of its reader. -/
theorem hasSameKeys_eq (bType : b.type = .mapValueValue) (fuel : Nat) :
    hasSameKeys p fuel a b = (do
      let nItemsA ← (tableReader p a).nItems
      let nItemsB ← (tableReader p b).nItems
      if nItemsA ≠ nItemsB then pure false
      else
        hasSameKeysLoops fuel (tableReader p a).iter (tableReader p b).iter
          (isInAcyclic p fuel a) (isInAcyclic p fuel b)) := by
  have bNotSet : ¬b.type = .setValue := by
    rw [bType]
    exact ValueType.noConfusion
  have bIsIn : isInAcyclic p fuel b = isInMapAcyclic p fuel b := by
    funext k
    exact if_neg bNotSet
  have bReader : tableReader p b = mapReader p b := if_neg bNotSet
  rw [hasSameKeys, bIsIn, bReader]
  by_cases aType : a.type = .setValue
  · have aIsIn : isInAcyclic p fuel a = isInSetAcyclic p fuel a := by
      funext k
      exact if_pos aType
    have aReader : tableReader p a = setReader p a := if_pos aType
    rw [if_pos aType, aIsIn, aReader]
    rfl
  · have aIsIn : isInAcyclic p fuel a = isInMapAcyclic p fuel a := by
      funext k
      exact if_neg aType
    have aReader : tableReader p a = mapReader p a := if_neg aType
    rw [if_neg aType, aIsIn, aReader]
    rfl

include aReach bReach aBuckets bBuckets in
/-- The two loops decide whether each table has equal keys of their hashes for the keys of the
other, if the tables have as many items. -/
theorem hasSameKeys_decides (bType : b.type = .mapValueValue) :
    Decides (SameKeysGetsOn p nA hashA keyA nB hashB keyB)
      (SameKeysOfHash p nA hashA keyA nB hashB keyB) fun fuel => hasSameKeys p fuel a b := by
  obtain ⟨entriesA, keysA, ranA⟩ := BucketsOf.iterates opened aReach aBuckets
  obtain ⟨entriesB, keysB, ranB⟩ := BucketsOf.iterates opened bReach bBuckets
  obtain ⟨itemsA, countA, isCountA⟩ := BucketsOf.nItems opened aReach aBuckets
  obtain ⟨itemsB, countB, isCountB⟩ := BucketsOf.nItems opened bReach bBuckets
  have first : Decides
      (InTurn (LookupGetsOn p nB hashB keyB) (HasEqualOfHash p nB hashB keyB)
        (keysInOrder nA keyA))
      (∀ k ∈ keysInOrder nA keyA, HasEqualOfHash p nB hashB keyB k)
      fun fuel => (keysInOrder nA keyA).allM (isInAcyclic p fuel b) := by
    apply Decides.all
    intro k mem
    obtain ⟨readable, acyclic⟩ := BucketsOf.acyclic opened aReach aBuckets mem
    exact isInAcyclic_decides opened bReach bBuckets readable acyclic
  have second : Decides
      (InTurn (LookupGetsOn p nA hashA keyA) (HasEqualOfHash p nA hashA keyA)
        (keysInOrder nB keyB))
      (∀ k ∈ keysInOrder nB keyB, HasEqualOfHash p nA hashA keyA k)
      fun fuel => (keysInOrder nB keyB).allM (isInAcyclic p fuel a) := by
    apply Decides.all
    intro k mem
    obtain ⟨readable, acyclic⟩ := BucketsOf.acyclic opened bReach bBuckets mem
    exact isInAcyclic_decides opened aReach aBuckets readable acyclic
  have sameItems : itemsA = itemsB ↔ occupied keyA nA.toNat = occupied keyB nB.toNat := by
    rw [← UInt32.toNat_inj, isCountA, isCountB]
  have run : ∀ fuel ≥ max (nA.toNat + 1) (nB.toNat + 1), hasSameKeys p fuel a b =
      if itemsA ≠ itemsB then pure false
      else (keysInOrder nA keyA).allM (isInAcyclic p fuel b) >>= fun passed =>
        if passed = true then (keysInOrder nB keyB).allM (isInAcyclic p fuel a) else .ok false := by
    intro fuel enough
    rw [hasSameKeys_eq bType, countA, countB, ok_bind, ok_bind, hasSameKeysLoops,
      iterAll_eq (ranA fuel (by omega)), iterAll_eq (ranB fuel (by omega)), keysA, keysB]
    rfl
  by_cases same : itemsA = itemsB
  · have loops : ∀ fuel ≥ max (nA.toNat + 1) (nB.toNat + 1), hasSameKeys p fuel a b =
        (keysInOrder nA keyA).allM (isInAcyclic p fuel b) >>= fun passed =>
          if passed = true then (keysInOrder nB keyB).allM (isInAcyclic p fuel a)
          else .ok false := by
      intro fuel enough
      rw [run fuel enough, if_neg (not_not.mpr same)]
    have both := (Decides.and first second).congr _ loops
    have counts := sameItems.mp same
    apply both.iff
    · rw [SameKeysGetsOn, forall_prop_of_true counts]
    · rw [SameKeysOfHash, and_iff_right counts]
  · have differ : ¬occupied keyA nA.toNat = occupied keyB nB.toNat := mt sameItems.mpr same
    have rejected : ∀ fuel ≥ max (nA.toNat + 1) (nB.toNat + 1),
        hasSameKeys p fuel a b = .ok false := by
      intro fuel enough
      rw [run fuel enough, if_pos same]
      rfl
    apply ((decides_const false).congr _ rejected).iff
    · exact iff_of_true trivial fun counts => absurd counts differ
    · exact iff_of_false Bool.noConfusion fun has => differ has.1

end Same

/-! ## When the functions are right -/

theorem HasEqualOfHash.hasEqual {p : OpenFile} {nBuckets : UInt32} {hash : Nat → UInt32}
    {key : Nat → Value} {k : Value} (has : HasEqualOfHash p nBuckets hash key k) :
    HasEqual p nBuckets key k := by
  obtain ⟨h, -, b, less, occupied, -, equal⟩ := has
  exact ⟨b, less, occupied, equal⟩

theorem SameKeysOfHash.sameKeys {p : OpenFile} {nA nB : UInt32} {hashA hashB : Nat → UInt32}
    {keyA keyB : Nat → Value} (same : SameKeysOfHash p nA hashA keyA nB hashB keyB) :
    SameKeys p nA keyA nB keyB :=
  ⟨fun k mem => (same.2.1 k mem).hasEqual, fun k mem => (same.2.2 k mem).hasEqual⟩

/-- The lookup by `k` returns whether an equal key is stored. -/
def LookupRight (p : OpenFile) (t : Value) (nBuckets : UInt32) (key : Nat → Value)
    (k : Value) : Prop :=
  ∃ found, EventuallyReturns (fun fuel => isInAcyclic p fuel t k) found ∧
    (found = true ↔ HasEqual p nBuckets key k)

/-- Two tables are found to have the same keys exactly when they have. -/
def SameKeysRight (p : OpenFile) (a b : Value) (nA : UInt32) (keyA : Nat → Value) (nB : UInt32)
    (keyB : Nat → Value) : Prop :=
  ∃ same, EventuallyReturns (fun fuel => hasSameKeys p fuel a b) same ∧
    (same = true ↔ SameKeys p nA keyA nB keyB)

/-- For values of accepted files: when the comparison without an `error` pointer agrees with
the one with a fresh error, and when the functions that rest on it are right. -/
theorem acyclic_right_iff {bufA bufB : List UInt8} {fuelA fuelB : Nat} {p pB : OpenFile}
    {errorA errorB : Option String} (opened : openB fuelA bufA = .ok (p, errorA))
    (openedB : openB fuelB bufB = .ok (pB, errorB)) :
    (∀ {a b}, Readable p a → Readable pB b → AcyclicWithin p ((maxDepth - 1) / 2) a →
      AcyclicWithin pB ((maxDepth - 1) / 2) b →
      (AcyclicAgrees p pB a b ↔ FirstDiffer p pB a b)) ∧
    (∀ {t nBuckets hash key k}, Reachable p t → BucketsOf p t nBuckets hash key →
      Readable p k.toComplete → AcyclicWithin p ((maxDepth - 1) / 2) k.toComplete →
      (LookupRight p t nBuckets key k ↔ LookupGetsOn p nBuckets hash key k ∧
        (HasEqual p nBuckets key k → HasEqualOfHash p nBuckets hash key k))) ∧
    ∀ {a b nA nB hashA hashB keyA keyB},
      Reachable p a → Reachable p b → isTableType a.type → b.type = .mapValueValue →
      BucketsOf p a nA hashA keyA → BucketsOf p b nB hashB keyB →
      (SameKeysRight p a b nA keyA nB keyB ↔ SameKeysGetsOn p nA hashA keyA nB hashB keyB ∧
        (SameKeys p nA keyA nB keyB → SameKeysOfHash p nA hashA keyA nB hashB keyB)) := by
  refine ⟨?_, ?_, ?_⟩
  · intro a b aReadable bReadable _ acyclic
    rcases cmpReaderAcyclic_outcome (openB_sound opened) (openB_sound openedB) aReadable bReadable
      acyclic with ⟨differ, c, returns, checked⟩ | ⟨notDiffer, stops⟩
    · exact iff_of_true ⟨c, c, returns, checked, rfl⟩ differ
    · refine iff_of_false (fun agrees => ?_) notDiffer
      obtain ⟨c, d, returns, -⟩ := agrees
      obtain ⟨enough, stops⟩ := stops
      exact returns.not_stops ⟨enough, fun fuel le => ⟨_, stops fuel le⟩⟩
  · intro t nBuckets hash key k reach buckets readable acyclic
    rw [LookupRight, (isInAcyclic_decides opened reach buckets readable acyclic).right_iff]
    apply and_congr_right
    intro _
    exact ⟨fun same => same.mpr, fun sees => ⟨HasEqualOfHash.hasEqual, sees⟩⟩
  · intro a b nA nB hashA hashB keyA keyB aReach bReach _ bType aBuckets bBuckets
    rw [SameKeysRight,
      (hasSameKeys_decides opened aReach bReach aBuckets bBuckets bType).right_iff]
    apply and_congr_right
    intro _
    exact ⟨fun same => same.mpr, fun sees => ⟨SameKeysOfHash.sameKeys, sees⟩⟩

/-! ## A vector and itself -/

/-- A file whose root is a vector of the one integer 0. -/
def zeroVectorFile : List UInt8 := oneItemFile .vectorI64 [0, 0, 0, 0, 0, 0, 0, 0]

/-- The file opened. -/
def zeroVectorOpened : OpenFile := oneItemOpened .vectorI64 [0, 0, 0, 0, 0, 0, 0, 0]

theorem openB_zeroVectorFile : openB 0 zeroVectorFile = .ok (zeroVectorOpened, none) := by
  have wide : NumberType.i64 = .i64 ∨ NumberType.i64 = .u64 := Or.inl rfl
  exact openB_oneItemFile wide 0 0 0 0 0 0 0 0

theorem acyclicWithin_number {p : OpenFile} {c : CompleteValue}
    (number : cmpReaderFunc c.type = some .intFloat) (levels : Nat) : AcyclicWithin p levels c := by
  have noItems : ∀ item, AcyclicOver p item c := by
    intro item
    refine ⟨?_, ?_, ?_⟩
    · intro type
      rw [type] at number
      cases number
    · intro type
      rw [type] at number
      cases number
    · intro vector
      rw [cmpReaderFunc_vector.mpr vector] at number
      cases number
  cases levels with
  | zero => exact noItems _
  | succ levels => exact noItems _

theorem zeroVector_acyclic :
    AcyclicWithin zeroVectorOpened ((maxDepth - 1) / 2) zeroVectorOpened.root.toComplete := by
  change AcyclicOver zeroVectorOpened (AcyclicWithin zeroVectorOpened 254) _
  refine ⟨by decide, by decide, fun _ n i x _ _ item => ?_⟩
  apply acyclicWithin_number
  have read : completeI64 <$> readerVectorI64 zeroVectorOpened zeroVectorOpened.root i = .ok x :=
    item
  obtain ⟨word, -, rfl⟩ := map_eq_ok.mp read
  rfl

theorem acyclic_right_iff_zero :
    (AcyclicAgrees zeroVectorOpened zeroVectorOpened zeroVectorOpened.root.toComplete
        zeroVectorOpened.root.toComplete ↔
      FirstDiffer zeroVectorOpened zeroVectorOpened zeroVectorOpened.root.toComplete
        zeroVectorOpened.root.toComplete) ∧
    (∃ nBuckets hash key, BucketsOf zeroSetOpened ⟨.setValue, 0⟩ nBuckets hash key ∧
      (LookupRight zeroSetOpened ⟨.setValue, 0⟩ nBuckets key ⟨.i32, 0⟩ ↔
        LookupGetsOn zeroSetOpened nBuckets hash key ⟨.i32, 0⟩ ∧
          (HasEqual zeroSetOpened nBuckets key ⟨.i32, 0⟩ →
            HasEqualOfHash zeroSetOpened nBuckets hash key ⟨.i32, 0⟩))) ∧
    ∃ nBuckets hash key, BucketsOf abMapOpened ⟨.mapValueValue, 0⟩ nBuckets hash key ∧
      (SameKeysRight abMapOpened ⟨.mapValueValue, 0⟩ ⟨.mapValueValue, 0⟩ nBuckets key nBuckets
          key ↔
        SameKeysGetsOn abMapOpened nBuckets hash key nBuckets hash key ∧
          (SameKeys abMapOpened nBuckets key nBuckets key →
            SameKeysOfHash abMapOpened nBuckets hash key nBuckets hash key)) := by
  obtain ⟨compares, -⟩ := acyclic_right_iff openB_zeroVectorFile openB_zeroVectorFile
  obtain ⟨-, looksUp, -⟩ := acyclic_right_iff openB_zeroSetFile openB_zeroSetFile
  obtain ⟨-, -, sameKeys⟩ := acyclic_right_iff openB_abMapFile openB_abMapFile
  obtain ⟨nBuckets, hash, key, buckets⟩ :=
    exists_bucketsOf openB_zeroSetFile (.root _) (Or.inl rfl)
  obtain ⟨nKeys, hash', key', buckets'⟩ :=
    exists_bucketsOf openB_abMapFile (.root _) (Or.inr rfl)
  refine ⟨?_, ⟨nBuckets, hash, key, buckets, ?_⟩, nKeys, hash', key', buckets', ?_⟩
  · exact compares (.value (.root _)) (.value (.root _)) zeroVector_acyclic zeroVector_acyclic
  · exact looksUp (.root _) buckets (.number rfl) (acyclicWithin_number rfl _)
  · exact sameKeys (.root _) (.root _) (Or.inr rfl) rfl buckets' buckets'

/-- Without an `error` pointer, a vector of an integer cannot be compared with itself; with
one, it is equal to itself. -/
theorem zeroVector_faults : openB 0 zeroVectorFile = .ok (zeroVectorOpened, none) ∧
    Readable zeroVectorOpened zeroVectorOpened.root.toComplete ∧
    AcyclicWithin zeroVectorOpened ((maxDepth - 1) / 2) zeroVectorOpened.root.toComplete ∧
    cmpReader zeroVectorOpened zeroVectorOpened.root.toComplete zeroVectorOpened
      zeroVectorOpened.root.toComplete = .ok 0 ∧
    ¬AcyclicAgrees zeroVectorOpened zeroVectorOpened zeroVectorOpened.root.toComplete
      zeroVectorOpened.root.toComplete := by
  refine ⟨openB_zeroVectorFile, .value (.root _), zeroVector_acyclic, rfl, fun agrees => ?_⟩
  obtain ⟨c, d, ⟨enough, returned⟩, -⟩ := agrees
  have faults : cmpReaderAcyclic (enough + 2) zeroVectorOpened zeroVectorOpened.root.toComplete
      zeroVectorOpened zeroVectorOpened.root.toComplete = fault .nullPointer := rfl
  have returned' : cmpReaderAcyclic (enough + 2) zeroVectorOpened
      zeroVectorOpened.root.toComplete zeroVectorOpened zeroVectorOpened.root.toComplete =
        .ok c := returned (enough + 2) (by omega)
  rw [returned'] at faults
  cases faults

end Pointless
