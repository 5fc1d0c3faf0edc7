import Pointless.HashTableCorrect
import Pointless.WrittenTables

/-!
# The buckets that are written

Where the keys of a table have been put: `Bucketed` says that the buckets hold every key once,
each on its own probe path, and `TableWritten.placed` that those of a table that was written
do.
-/

namespace Pointless

open ByteMemory ExceptRules OpenAddressing

variable {c₁ c' : Create} {fuel fuel' : Nat} {t : TableParts} {nBuckets : UInt32}
  {hashVector : List UInt32} {buckets : Buckets}

/-! ## Fuel -/

theorem populateFind_mono {cmp : UInt32 → UInt32 → Res Int} {slot hash key b : UInt32}
    {t : Buckets} {s : HashIterState} (more : fuel ≤ fuel')
    (done : populateFind cmp slot t hash key fuel s = .ok b) :
    populateFind cmp slot t hash key fuel' s = .ok b := by
  induction fuel generalizing fuel' s with
  | zero => cases done
  | succ n ih =>
      obtain ⟨m, rfl⟩ : ∃ m, fuel' = m + 1 := ⟨fuel' - 1, by omega⟩
      rw [populateFind] at done ⊢
      rcases bind_eq_ok.mp done with ⟨stored, read, done⟩
      rw [read, ok_bind]
      split at done
      · rename_i free
        rw [if_pos free]
        exact done
      · rename_i occupied
        rw [if_neg occupied]
        rcases bind_eq_ok.mp done with ⟨h, hashRead, done⟩
        rw [hashRead, ok_bind]
        dsimp only at done ⊢
        split at done
        · rename_i same
          rw [if_pos same]
          rcases bind_eq_ok.mp done with ⟨compared, compare, done⟩
          rw [compare, ok_bind]
          split at done
          · cases done
          · rename_i apart
            rw [if_neg apart]
            exact ih (by omega) done
        · rename_i other
          rw [if_neg other]
          exact ih (by omega) done

theorem foldlM_ok_of {σ α : Type} {body body' : σ → α → Res σ} {items : List α} {s s' : σ}
    (each : ∀ s, ∀ a ∈ items, ∀ s', body s a = .ok s' → body' s a = .ok s')
    (done : items.foldlM body s = .ok s') : items.foldlM body' s = .ok s' := by
  induction items generalizing s with
  | nil => exact done
  | cons a rest ih =>
      rw [List.foldlM_cons] at done ⊢
      rcases bind_eq_ok.mp done with ⟨s₁, step, later⟩
      rw [each s a List.mem_cons_self s₁ step, ok_bind]
      exact ih (fun s a mem => each s a (List.mem_cons_of_mem _ mem)) later

/-- More fuel does not change the buckets. -/
theorem hashTablePopulate_mono {cmp : UInt32 → UInt32 → Res Int} {keys : List UInt32}
    {values : Option (List UInt32)} {nKeys slot : UInt32} {start t' : Buckets}
    (more : fuel ≤ fuel')
    (done : hashTablePopulate fuel cmp hashVector keys values nKeys start nBuckets slot = .ok t') :
    hashTablePopulate fuel' cmp hashVector keys values nKeys start nBuckets slot = .ok t' := by
  rw [hashTablePopulate] at done ⊢
  split at done
  · cases done
  · rename_i both
    rw [if_neg both]
    rcases bind_eq_ok.mp done with ⟨⟨⟩, checked, done⟩
    rcases bind_eq_ok.mp done with ⟨⟨⟩, empty, done⟩
    rw [checked, ok_bind, empty, ok_bind]
    refine foldlM_ok_of (fun t j _ t' step => ?_) done
    rw [populateStep] at step ⊢
    rcases bind_eq_ok.mp step with ⟨valueHash, hashRead, step⟩
    rcases bind_eq_ok.mp step with ⟨key, keyRead, step⟩
    rcases bind_eq_ok.mp step with ⟨bucket, found, step⟩
    rw [hashRead, ok_bind, keyRead, ok_bind, populateFind_mono more found, ok_bind]
    exact step

/-! ## The keys -/

/-- The keys of a table that is built are not the empty slot. -/
theorem populate_keys {cmp : UInt32 → UInt32 → Res Int} {keys : List UInt32}
    {values : Option (List UInt32)} {nKeys slot : UInt32} {start t' : Buckets}
    (count : nKeys.toNat = keys.length)
    (done : hashTablePopulate fuel cmp hashVector keys values nKeys start nBuckets slot = .ok t') :
    ∀ key ∈ keys, key ≠ slot := by
  rw [hashTablePopulate] at done
  split at done
  · cases done
  · rcases bind_eq_ok.mp done with ⟨⟨⟩, checked, -⟩
    intro key mem
    rcases List.getElem_of_mem mem with ⟨j, less, rfl⟩
    have round := forM_eq_ok.mp checked j (List.mem_range.mpr (by rwa [count]))
    rw [arrayGet_eq_ok.mpr (List.getElem?_eq_getElem less), ok_bind] at round
    split at round
    · cases round
    · assumption

/-- The hash of every key, which has a hash. -/
theorem createKeyHashes_spec {c : Create} {keys : List UInt32} {nKeys : UInt32}
    (count : nKeys.toNat = keys.length)
    (done : createKeyHashes fuel c keys nKeys = .ok hashVector) :
    List.Forall₂ (fun key hash => ∃ v, cvValueAt c key = .ok v ∧ isHashable v.type = true ∧
      v.type ≠ .emptySlot ∧ hashCreate32 c fuel v = .ok hash) keys hashVector := by
  rw [createKeyHashes, count, mapM_eq_ok, List.forall₂_iff_get] at done
  rcases done with ⟨length, each⟩
  rw [List.length_range] at length
  refine List.forall₂_iff_get.mpr ⟨length, fun i less less' => ?_⟩
  have round := each i (by rwa [List.length_range]) less'
  rw [List.get_eq_getElem, List.getElem_range,
    arrayGet_eq_ok.mpr (List.getElem?_eq_getElem less), ok_bind, createKeyHash] at round
  rcases bind_eq_ok.mp round with ⟨v, read, round⟩
  split at round
  · cases round
  · rename_i hashable
    split at round
    · cases round
    · rename_i notSlot
      exact ⟨v, read, not_not.mp hashable, notSlot, round⟩

/-! ## The places -/

/-- What is in a bucket was put there or is blank. -/
theorem mem_scatter {place : Nat → Nat} {blank x : UInt32} {size n : Nat} {xs : List UInt32}
    (enough : n ≤ xs.length) (mem : x ∈ scatter place blank size xs n) : x = blank ∨ x ∈ xs := by
  induction n with
  | zero => exact Or.inl (List.eq_of_mem_replicate mem)
  | succ n ih =>
      rcases List.mem_or_eq_of_mem_set mem with before | same
      · exact ih (by omega) before
      · rw [List.getD_eq_getElem?_getD, List.getElem?_eq_getElem (by omega)] at same
        exact Or.inr (same ▸ List.getElem_mem _)

/-- The keys of a table have places in its `2 ^ k` buckets, one by one on their probe paths, and
everything else is blank. -/
structure Bucketed (t : TableParts) (hashVector : List UInt32) (buckets : Buckets) (slot : UInt32)
    (k : Nat) (place : Nat → Nat) : Prop where
  bound : k ≤ 31
  room : t.keys.length < 2 ^ k
  hashes : hashVector.length = t.keys.length
  table : TableOf hashVector k place t.keys.length
  isFilled : buckets = filled place slot (2 ^ k) hashVector t.keys t.values t.keys.length
  fresh : ∀ key ∈ t.keys, key ≠ slot

/-- The number of keys that a table may have. -/
def ShortTables (c : Create) : Prop :=
  ∀ v t, v ∈ c.values → tableParts c v = .ok t → t.keys.length + t.keys.length / 2 ≤ 2 ^ 31

theorem TableWritten.placed (written : TableWritten fuel c₁ c' t nBuckets hashVector buckets)
    (short : t.keys.length + t.keys.length / 2 ≤ 2 ^ 31)
    (paired : ∀ values ∈ t.values, values.length = t.keys.length) :
    ∃ k place, nBuckets = UInt32.ofNat (2 ^ k) ∧
      Bucketed t hashVector buckets (createEmptySlot c₁).1 k place ∧
      compareAllKeys (cmpCreate (createEmptySlot c₁).2) hashVector t.keys t.keys.length
        = .ok () := by
  have count : (UInt32.ofNat t.keys.length).toNat = t.keys.length := toNat_handle (by omega)
  rcases hashComputeNBuckets_eq (n := UInt32.ofNat t.keys.length) (by rwa [count]) with
    ⟨k, bound, computed, room⟩
  rw [count] at room
  cases Except.ok.inj (computed.symm.trans written.computed)
  have fresh := populate_keys count written.populated
  have hashes := (createKeyHashes_spec count written.hashes).length_eq.symm
  have input : PopulateInput hashVector t.keys t.values (createEmptySlot c₁).1 k t.keys.length :=
    ⟨hashes, rfl, paired, bound, room, fresh⟩
  rcases hashTablePopulate_eq (cmpCreate (createEmptySlot c₁).2) input count with
    ⟨place, table, run⟩
  have done := hashTablePopulate_mono (Nat.le_max_left fuel (7 + 2 ^ k)) written.populated
  rw [run _ (Nat.le_max_right fuel (7 + 2 ^ k))] at done
  rcases bind_eq_ok.mp done with ⟨⟨⟩, compared, filled⟩
  exact ⟨k, place, rfl, ⟨bound, room, hashes, table, (Except.ok.inj filled).symm, fresh⟩, compared⟩

section Bucketed

variable {slot : UInt32} {k : Nat} {place : Nat → Nat}
  (placed : Bucketed t hashVector buckets slot k place)

include placed

theorem Bucketed.place_lt {i : Nat} (less : i < t.keys.length) : place i < 2 ^ k := by
  rcases placed.table.chain i less with ⟨d, reached, -⟩
  rw [← reached]
  exact probePath_lt placed.bound _ _

theorem Bucketed.key {i : Nat} {key : UInt32} (at_i : t.keys[i]? = some key) :
    buckets.keys[place i]? = some key := by
  have less := (List.getElem?_eq_some_iff.mp at_i).1
  rw [placed.isFilled, filled, scatter_place placed.table.injective less (placed.place_lt less),
    List.getD_eq_getElem?_getD, at_i]
  rfl

theorem Bucketed.hash {i : Nat} {hash : UInt32} (at_i : hashVector[i]? = some hash) :
    buckets.hash[place i]? = some hash := by
  have less := (List.getElem?_eq_some_iff.mp at_i).1
  rw [placed.hashes] at less
  rw [placed.isFilled, filled, scatter_place placed.table.injective less (placed.place_lt less),
    List.getD_eq_getElem?_getD, at_i]
  rfl

theorem Bucketed.value {values stored : List UInt32} (isValues : t.values = some values)
    (isStored : buckets.values = some stored) {i : Nat} {value : UInt32}
    (less : i < t.keys.length) (at_i : values[i]? = some value) :
    stored[place i]? = some value := by
  rw [placed.isFilled, filled, isValues] at isStored
  cases isStored
  rw [scatter_place placed.table.injective less (placed.place_lt less),
    List.getD_eq_getElem?_getD, at_i]
  rfl

/-- A bucket that no key was put to is empty. -/
theorem Bucketed.free {b : Nat} {key : UInt32} (at_b : buckets.keys[b]? = some key)
    (unused : ∀ i < t.keys.length, place i ≠ b) : key = slot := by
  have inside := (List.getElem?_eq_some_iff.mp at_b).1
  rw [placed.isFilled, filled, length_scatter] at inside
  rw [placed.isFilled, filled, scatter_free inside unused] at at_b
  exact (Option.some.inj at_b).symm

theorem Bucketed.length_keys : buckets.keys.length = 2 ^ k := by
  rw [placed.isFilled, filled, length_scatter]

theorem Bucketed.length_hash : buckets.hash.length = 2 ^ k := by
  rw [placed.isFilled, filled, length_scatter]

theorem Bucketed.length_values {stored : List UInt32} (isStored : buckets.values = some stored) :
    stored.length = 2 ^ k := by
  rw [placed.isFilled, filled] at isStored
  rcases Option.map_eq_some_iff.mp isStored with ⟨values, -, rfl⟩
  exact length_scatter

theorem Bucketed.mem_keys {key : UInt32} (mem : key ∈ buckets.keys) : key = slot ∨ key ∈ t.keys := by
  rw [placed.isFilled] at mem
  exact mem_scatter (Nat.le_refl _) mem

theorem Bucketed.mem_values {stored : List UInt32} {value : UInt32}
    (paired : ∀ values ∈ t.values, values.length = t.keys.length)
    (isStored : buckets.values = some stored) (mem : value ∈ stored) :
    value = slot ∨ ∃ values ∈ t.values, value ∈ values := by
  rw [placed.isFilled, filled] at isStored
  rcases Option.map_eq_some_iff.mp isStored with ⟨values, isValues, rfl⟩
  exact (mem_scatter (paired values isValues).ge mem).imp_right fun inside =>
    ⟨values, isValues, inside⟩

end Bucketed

end Pointless
