import Pointless.HashTableCorrect

/-!
# Tables as partial maps

With comparisons that stand for an equivalence relation `E`, a table built from
keys that are pairwise unrelated holds each of them in one bucket, and a probe
for any value finds the bucket of the key related to it, or misses when there is
none.
-/

namespace Pointless

open OpenAddressing ExceptRules

/-- The arrays `t` hold key `j`, with its own hash and value, in the bucket
`place j` and in no other, and every other bucket is empty. -/
structure Buckets.HoldsAt (t : Buckets) (hashVector keysVector : List UInt32)
    (valuesVector : Option (List UInt32)) (emptySlotHandle : UInt32) (size n : Nat)
    (place : Nat → Nat) : Prop where
  hashLength : t.hash.length = size
  keysLength : t.keys.length = size
  valuesSome : t.values.isSome = valuesVector.isSome
  key : ∀ j < n, ∀ b, t.keys[b]? = keysVector[j]? ↔ b = place j
  hash : ∀ j < n, t.hash[place j]? = hashVector[j]?
  value : ∀ j < n, ∀ values ∈ t.values, ∀ valuesIn ∈ valuesVector,
    values[place j]? = valuesIn[j]?
  emptyElsewhere : ∀ b < size, (∀ j < n, b ≠ place j) →
    t.hash[b]? = some 0 ∧ t.keys[b]? = some emptySlotHandle ∧
      ∀ values ∈ t.values, values[b]? = some emptySlotHandle

section Filled

variable {hashVector keysVector : List UInt32} {valuesVector : Option (List UInt32)}
  {emptySlotHandle : UInt32} {k n : Nat} {place : Nat → Nat}

theorem getElem?_eq_getD {xs : List UInt32} {i : Nat} (inside : i < xs.length) :
    xs[i]? = some (xs.getD i 0) := by
  rw [List.getD_eq_getElem?_getD, List.getElem?_eq_getElem inside, Option.getD_some]

/-- A bucket of a filled table holds a key that was put there, or is empty. -/
theorem PopulateInput.filled_cases
    (input : PopulateInput hashVector keysVector valuesVector emptySlotHandle k n)
    (table : TableOf hashVector k place n) {b : Nat} (inside : b < 2 ^ k) :
    (∃ j < n, b = place j ∧
      (scatter place emptySlotHandle (2 ^ k) keysVector n)[b]? = keysVector[j]? ∧
      (scatter place 0 (2 ^ k) hashVector n)[b]? = hashVector[j]?) ∨
    ((∀ j < n, b ≠ place j) ∧
      (scatter place emptySlotHandle (2 ^ k) keysVector n)[b]? = some emptySlotHandle) := by
  by_cases taken : ∃ j < n, b = place j
  · obtain ⟨j, less, rfl⟩ := taken
    refine Or.inl ⟨j, less, rfl, ?_, ?_⟩
    · rw [scatter_place table.injective less inside, getElem?_eq_getD (by rwa [input.keysLength])]
    · rw [scatter_place table.injective less inside, getElem?_eq_getD (by rwa [input.hashLength])]
  · push Not at taken
    exact Or.inr ⟨taken, scatter_free inside fun j less same => taken j less same.symm⟩

theorem PopulateInput.filled_holdsAt
    (input : PopulateInput hashVector keysVector valuesVector emptySlotHandle k n)
    (table : TableOf hashVector k place n) (nodup : keysVector.Nodup) :
    (filled place emptySlotHandle (2 ^ k) hashVector keysVector valuesVector n).HoldsAt
      hashVector keysVector valuesVector emptySlotHandle (2 ^ k) n place := by
  have inside : ∀ j < n, place j < 2 ^ k := fun j less => input.place_lt table less
  refine ⟨length_scatter, length_scatter, Option.isSome_map, ?_, ?_, ?_, ?_⟩
  · intro j less b
    have keyInside : j < keysVector.length := by rwa [input.keysLength]
    constructor
    · intro found
      have bInside : b < 2 ^ k := by
        by_contra outside
        rw [getElem?_eq_getD keyInside, List.getElem?_eq_none] at found
        · cases found
        · change (scatter place emptySlotHandle (2 ^ k) keysVector n).length ≤ b
          rw [length_scatter]
          omega
      rcases input.filled_cases table bInside with ⟨i, iLess, at_i, key, -⟩ | ⟨-, blank⟩
      · have same : keysVector[i]? = keysVector[j]? := key.symm.trans found
        rw [at_i, (List.getElem?_inj (by rwa [input.keysLength]) nodup).mp same]
      · have same : some emptySlotHandle = keysVector[j]? := blank.symm.trans found
        rw [getElem?_eq_getD keyInside] at same
        exact absurd (Option.some.inj same).symm (input.key_ne less)
    · rintro rfl
      exact (scatter_place table.injective less (inside j less)).trans
        (getElem?_eq_getD keyInside).symm
  · intro j less
    exact (scatter_place table.injective less (inside j less)).trans
      (getElem?_eq_getD (by rwa [input.hashLength])).symm
  · intro j less values valuesMem valuesIn inMem
    cases inMem
    cases valuesMem
    exact (scatter_place table.injective less (inside j less)).trans
      (getElem?_eq_getD (by rwa [input.valuesLength valuesIn rfl])).symm
  · intro b bInside free
    have free' : ∀ j < n, place j ≠ b := fun j less same => free j less same.symm
    refine ⟨scatter_free bInside free', scatter_free bInside free', ?_⟩
    intro values mem
    obtain ⟨valuesIn, -, rfl⟩ := Option.mem_map.mp mem
    exact scatter_free bInside free'

/-! ## Probing a filled table -/

variable {serialize : UInt32 → Value} {hash : UInt32}

/-- What a probe for `hash` that tests keys with `isEqual` answers: the bucket of
the key that passes, or a miss. -/
theorem PopulateInput.probe_filled
    (input : PopulateInput hashVector keysVector valuesVector emptySlotHandle k n)
    (table : TableOf hashVector k place n) (isEqual : Value → Res Bool)
    (emptyType : (serialize emptySlotHandle).type = .emptySlot)
    (keyType : ∀ key ∈ keysVector, (serialize key).type ≠ .emptySlot)
    {related : Nat → Prop} [DecidablePred related]
    (tests : ∀ j < n, isEqual (serialize (keysVector.getD j 0)) = .ok (decide (related j)))
    (sameHash : ∀ j < n, related j → hashVector.getD j 0 = hash)
    (unique : ∀ i < n, ∀ j < n, related i → related j → i = j)
    {fuel : Nat} (enough : 7 + 2 ^ k ≤ fuel) :
    let probe := hashTableProbePriv fuel isEqual hash (UInt32.ofNat (2 ^ k))
      (arrayGet (scatter place 0 (2 ^ k) hashVector n))
      (fun b => serialize <$> arrayGet (scatter place emptySlotHandle (2 ^ k) keysVector n) b)
    (∀ j < n, related j → probe = .ok (some (UInt32.ofNat (place j)))) ∧
      ((∀ j < n, ¬related j) → probe = .ok none) := by
  intro probe
  have keyAt : ∀ j < n,
      serialize <$> arrayGet (scatter place emptySlotHandle (2 ^ k) keysVector n) (place j)
        = .ok (serialize (keysVector.getD j 0)) := by
    intro j less
    rw [arrayGet_eq_ok.mpr (scatter_place table.injective less (input.place_lt table less))]
    rfl
  have hashAt : ∀ j < n, arrayGet (scatter place 0 (2 ^ k) hashVector n) (place j)
      = .ok (hashVector.getD j 0) := fun j less =>
    arrayGet_eq_ok.mpr (scatter_place table.injective less (input.place_lt table less))
  have occupied : ∀ j < n, (serialize (keysVector.getD j 0)).type ≠ .emptySlot := by
    intro j less
    have keyInside : j < keysVector.length := by rwa [input.keysLength]
    rw [List.getD_eq_getElem?_getD, List.getElem?_eq_getElem keyInside, Option.getD_some]
    exact keyType _ (List.getElem_mem keyInside)
  have passes : ∀ i < n, ¬related i → ProbePasses isEqual
      (arrayGet (scatter place 0 (2 ^ k) hashVector n))
      (fun b => serialize <$> arrayGet (scatter place emptySlotHandle (2 ^ k) keysVector n) b)
      hash (place i) := by
    intro i less unrelated
    refine ⟨_, _, keyAt i less, occupied i less, hashAt i less, fun _ => ?_⟩
    rw [tests i less, decide_eq_false unrelated]
  obtain ⟨D, DBound, free, taken⟩ :=
    (probePath_covers input.bound).exists_slot place input.room hash
  constructor
  · intro j less isRelated
    rw [← sameHash j less isRelated] at free
    obtain ⟨d, dLess, reached, before⟩ := table.before_free less free
    rw [sameHash j less isRelated] at reached before
    have inTime : d < fuel := by omega
    have path : ∀ e < d, ProbePasses isEqual (arrayGet (scatter place 0 (2 ^ k) hashVector n))
        (fun b => serialize <$> arrayGet (scatter place emptySlotHandle (2 ^ k) keysVector n) b)
        hash (probePath (UInt32.ofNat (2 ^ k)) hash e) := by
      intro e eLess
      obtain ⟨i, iLess, at_i⟩ := before e eLess
      rw [at_i]
      refine passes i (iLess.trans less) fun alsoRelated => ?_
      exact absurd (unique i (iLess.trans less) j less alsoRelated isRelated) (Nat.ne_of_lt iLess)
    have result := hashTableProbePriv_hit inTime path (by rw [reached, keyAt j less])
      (occupied j less) (by rw [reached, hashAt j less, sameHash j less isRelated])
      (by rw [tests j less, decide_eq_true isRelated])
    rwa [reached] at result
  · intro unrelated
    have blank : (scatter place emptySlotHandle (2 ^ k) keysVector n)[probePath _ hash D]?
        = some emptySlotHandle := scatter_free (probePath_lt input.bound hash D) free
    have inTime : D < fuel := by omega
    refine hashTableProbePriv_miss inTime ?_ ?_ emptyType
    · intro e eLess
      obtain ⟨i, iLess, at_i⟩ := taken e eLess
      rw [at_i]
      exact passes i iLess (unrelated i iLess)
    · rw [arrayGet_eq_ok.mpr blank]
      rfl

end Filled

/-! ## Tables of unrelated keys -/

/-- The comparisons of pairwise unrelated keys all tell them apart. -/
theorem compareAllKeys_ok {cmpCreate : UInt32 → UInt32 → Res Int}
    {hashVector keysVector : List UInt32} {n : Nat}
    (apart : ∀ j < n, ∀ i < j, hashVector.getD i 0 = hashVector.getD j 0 →
      ∃ c, cmpCreate (keysVector.getD i 0) (keysVector.getD j 0) = .ok c ∧ c ≠ 0) :
    compareAllKeys cmpCreate hashVector keysVector n = .ok () := by
  refine forM_eq_ok.mpr fun j jMem => forM_eq_ok.mpr fun i iMem => ?_
  rw [List.mem_range] at jMem iMem
  split
  case isTrue same =>
    obtain ⟨c, compared, nonzero⟩ := apart j jMem i iMem same
    rw [compareKeys, compared, ok_bind, if_neg nonzero]
    rfl
  case isFalse => rfl

/-- A comparison that answers a relation, turned into a test. -/
theorem test_of_answer {β : Type} {action : Res β} {test : β → Prop} [DecidablePred test]
    {related : Prop} [Decidable related]
    (answer : ∃ c, action = .ok c ∧ (test c ↔ related)) :
    (do let c ← action; pure (decide (test c))) = (.ok (decide related) : Res Bool) := by
  obtain ⟨c, returned, meaning⟩ := answer
  rw [returned, ok_bind, decide_eq_decide.mpr meaning]
  rfl

/-- Building a table from keys that an equivalence relation keeps apart, and
probing it for any value. The relation stands for the comparison callbacks, and
related values have one hash. -/
theorem hashTable_correct {α : Type} {E : α → α → Prop} (equivalence : Equivalence E)
    {hashOf : α → UInt32} (sameHash : ∀ x y, E x y → hashOf x = hashOf y)
    {n : UInt32} (bound : n.toNat + n.toNat / 2 ≤ 2 ^ 31)
    {keysVector : List UInt32} (keysLength : keysVector.length = n.toNat)
    {valuesVector : Option (List UInt32)}
    (valuesLength : ∀ values ∈ valuesVector, values.length = n.toNat)
    {emptySlotHandle : UInt32} (nonempty : ∀ key ∈ keysVector, key ≠ emptySlotHandle)
    {ofKey : UInt32 → α} (unrelated : keysVector.Pairwise fun a b => ¬E (ofKey a) (ofKey b))
    {cmpCreate : UInt32 → UInt32 → Res Int}
    (compares : ∀ a ∈ keysVector, ∀ b ∈ keysVector,
      ∃ c, cmpCreate a b = .ok c ∧ (c = 0 ↔ E (ofKey a) (ofKey b)))
    {serialize : UInt32 → Value} (emptyType : (serialize emptySlotHandle).type = .emptySlot)
    (keyType : ∀ key ∈ keysVector, (serialize key).type ≠ .emptySlot) :
    ∃ nBuckets place t,
      hashComputeNBuckets n = .ok nBuckets ∧
      (∀ fuel, 7 + nBuckets.toNat ≤ fuel →
        hashTablePopulate fuel cmpCreate (keysVector.map fun key => hashOf (ofKey key)) keysVector
          valuesVector n (.fresh valuesVector.isSome nBuckets emptySlotHandle) nBuckets
          emptySlotHandle = .ok t) ∧
      t.HoldsAt (keysVector.map fun key => hashOf (ofKey key)) keysVector valuesVector
        emptySlotHandle nBuckets.toNat n.toNat place ∧
      (∀ (p : OpenFile) (value : Value) (x : α),
        (∀ key ∈ keysVector, ∃ c,
          cmpReader p value.toComplete p (serialize key).toComplete = .ok c ∧
            (c = 0 ↔ E x (ofKey key))) →
        ∀ fuel, 7 + nBuckets.toNat ≤ fuel →
          (∀ j < n.toNat, E x (ofKey (keysVector.getD j 0)) →
            hashTableProbe fuel p (hashOf x) value nBuckets (arrayGet t.hash)
              (fun b => serialize <$> arrayGet t.keys b)
              = .ok (some (UInt32.ofNat (place j)))) ∧
          ((∀ key ∈ keysVector, ¬E x (ofKey key)) →
            hashTableProbe fuel p (hashOf x) value nBuckets (arrayGet t.hash)
              (fun b => serialize <$> arrayGet t.keys b) = .ok none)) ∧
      (∀ (cb : CompleteValue → Res UInt32) (x : α),
        (∀ key ∈ keysVector, ∃ c, cb (serialize key).toComplete = .ok c ∧
          (c ≠ 0 ↔ E x (ofKey key))) →
        ∀ fuel, 7 + nBuckets.toNat ≤ fuel →
          (∀ j < n.toNat, E x (ofKey (keysVector.getD j 0)) →
            hashTableProbeExt fuel (hashOf x) cb nBuckets (arrayGet t.hash)
              (fun b => serialize <$> arrayGet t.keys b)
              = .ok (some (UInt32.ofNat (place j)))) ∧
          ((∀ key ∈ keysVector, ¬E x (ofKey key)) →
            hashTableProbeExt fuel (hashOf x) cb nBuckets (arrayGet t.hash)
              (fun b => serialize <$> arrayGet t.keys b) = .ok none)) := by
  classical
  obtain ⟨k, kBound, buckets, room⟩ := hashComputeNBuckets_eq bound
  have size : (UInt32.ofNat (2 ^ k)).toNat = 2 ^ k := toNat_two_pow kBound
  set hashVector := keysVector.map fun key => hashOf (ofKey key) with hashVector_eq
  have input : PopulateInput hashVector keysVector valuesVector emptySlotHandle k n.toNat :=
    ⟨by rw [hashVector_eq, List.length_map, keysLength], keysLength, valuesLength, kBound, room,
      nonempty⟩
  have keyMem : ∀ j < n.toNat, keysVector.getD j 0 ∈ keysVector := by
    intro j less
    have inside : j < keysVector.length := by rwa [keysLength]
    rw [List.getD_eq_getElem?_getD, List.getElem?_eq_getElem inside, Option.getD_some]
    exact List.getElem_mem inside
  have hashOfKey : ∀ j < n.toNat, hashVector.getD j 0 = hashOf (ofKey (keysVector.getD j 0)) := by
    intro j less
    have inside : j < keysVector.length := by rwa [keysLength]
    simp only [hashVector_eq, List.getD_eq_getElem?_getD, List.getElem?_map,
      List.getElem?_eq_getElem inside, Option.map_some, Option.getD_some]
  have apart : ∀ j < n.toNat, ∀ i < j,
      ¬E (ofKey (keysVector.getD i 0)) (ofKey (keysVector.getD j 0)) := by
    intro j jLess i iLess
    have jInside : j < keysVector.length := by rwa [keysLength]
    have iInside : i < keysVector.length := iLess.trans jInside
    simp only [List.getD_eq_getElem?_getD, List.getElem?_eq_getElem jInside,
      List.getElem?_eq_getElem iInside, Option.getD_some]
    exact List.pairwise_iff_getElem.mp unrelated i j iInside jInside iLess
  have allApart : compareAllKeys cmpCreate hashVector keysVector n.toNat = .ok () := by
    refine compareAllKeys_ok fun j jLess i iLess _ => ?_
    obtain ⟨c, compared, meaning⟩ := compares _ (keyMem i (iLess.trans jLess)) _ (keyMem j jLess)
    exact ⟨c, compared, fun zero => apart j jLess i iLess (meaning.mp zero)⟩
  have nodup : keysVector.Nodup :=
    unrelated.imp fun {a b} differ (same : a = b) => differ (same ▸ equivalence.refl (ofKey a))
  have unique : ∀ x, ∀ i < n.toNat, ∀ j < n.toNat, E x (ofKey (keysVector.getD i 0)) →
      E x (ofKey (keysVector.getD j 0)) → i = j := by
    intro x i iLess j jLess toI toJ
    have both := equivalence.trans (equivalence.symm toI) toJ
    rcases Nat.lt_trichotomy i j with less | same | more
    · exact absurd both (apart j jLess i less)
    · exact same
    · exact absurd (equivalence.symm both) (apart i iLess j more)
  have hashes : ∀ x, ∀ j < n.toNat, E x (ofKey (keysVector.getD j 0)) →
      hashVector.getD j 0 = hashOf x := by
    intro x j less toJ
    rw [hashOfKey j less, sameHash _ _ toJ]
  obtain ⟨place, table, run⟩ := hashTablePopulate_eq cmpCreate input rfl
  refine ⟨UInt32.ofNat (2 ^ k), place,
    filled place emptySlotHandle (2 ^ k) hashVector keysVector valuesVector n.toNat, buckets,
    ?_, ?_, ?_, ?_⟩
  · intro fuel enough
    rw [size] at enough
    rw [run fuel enough, allApart]
    rfl
  · rw [size]
    exact input.filled_holdsAt table nodup
  · intro p value x tests fuel enough
    rw [size] at enough
    let test : Value → Res Bool := fun key => do
      let c ← cmpReader p value.toComplete p key.toComplete
      pure (c = 0)
    have result := input.probe_filled table test emptyType keyType
      (fun j less => test_of_answer (tests _ (keyMem j less))) (hashes x) (unique x) enough
    exact ⟨result.1, fun none => result.2 fun j less => none _ (keyMem j less)⟩
  · intro cb x tests fuel enough
    rw [size] at enough
    let test : Value → Res Bool := fun key => do
      let c ← cb key.toComplete
      pure (c ≠ 0)
    have result := input.probe_filled table test emptyType keyType
      (fun j less => test_of_answer (tests _ (keyMem j less))) (hashes x) (unique x) enough
    exact ⟨result.1, fun none => result.2 fun j less => none _ (keyMem j less)⟩

theorem hashTable_correct_two_keys :
    ∃ nBuckets place t, hashComputeNBuckets 2 = .ok nBuckets ∧
      (∀ fuel, 7 + nBuckets.toNat ≤ fuel →
        hashTablePopulate fuel (fun a b => .ok (simpleCmp a b)) [5, 13] [5, 13] none 2
          (.fresh false nBuckets 0) nBuckets 0 = .ok t) ∧
      t.HoldsAt [5, 13] [5, 13] none 0 nBuckets.toNat 2 place := by
  obtain ⟨nBuckets, place, t, buckets, populated, holds, -⟩ :=
    @hashTable_correct UInt32 (fun a b => a = b) eq_equivalence id (fun x y same => same)
      2 (by decide) [5, 13] rfl none (fun values mem => by cases mem) 0 (by simp)
      id (by decide) (fun a b => .ok (simpleCmp a b))
      (fun a _ b _ => ⟨_, rfl, simpleCmp_eq_zero⟩)
      (fun handle => if handle = 0 then ⟨.emptySlot, 0⟩ else ⟨.u32, handle⟩) rfl (by simp)
  exact ⟨nBuckets, place, t, buckets, populated, holds⟩

end Pointless
