import Pointless.TablePass
import Pointless.WrittenHashes

/-!
# The check of a written table

`pointless_hash_table_validate` on the table of a set or a map that has been written: the
counts are right, and so is every hash where no vector at or below a key is empty.
-/

namespace Pointless

open ByteMemory ExceptRules OpenAddressing

variable {c m : Create} {fuel : Nat} {file : List UInt8} {p : Prepared} {f : OpenFile}
  {v : CreateValue} {handle slot : UInt32} {t : TableParts} {hashVector : List UInt32}
  {buckets : Buckets} {k : Nat} {place : Nat → Nat} {found : Table}

/-! ## The vectors of a table -/

/-- The vectors and the count that a reader finds of the parts `t`. -/
structure PartsFound (p : Prepared) (f : OpenFile) (t : TableParts) (v : Value) (found : Table) :
    Prop where
  isTable : TableAt f v found
  nItems : found.nItems = UInt32.ofNat t.keys.length
  hashes : createToReadValue p t.serializeHash = .ok found.hashes
  keys : createToReadValue p t.serializeKeys = .ok found.keys
  values : ∀ values ∈ found.values, ∃ handle, t.serializeValues = some handle ∧
    createToReadValue p handle = .ok values

theorem ReadsBack.parts (back : ReadsBack fuel c p f) (mem : v ∈ p.values)
    (parts : tableParts c v = .ok t) (plain : v = .plain v.type v.data) :
    ∃ found, PartsFound p f t (readOf p v) found := by
  rcases type_of_tableParts parts with isSet | isMap
  · rw [tableParts, isSet] at parts
    rcases bind_eq_ok.mp parts with ⟨set, item, same⟩
    cases same
    rw [isSet] at plain
    rw [plain] at mem
    rcases back.set mem (itemAt_eq_ok.mp item) with
      ⟨hashVector, keyVector, isHash, isKeys, count, hashes, keys⟩
    rw [← plain] at count hashes keys
    exact ⟨_, .set isSet hashes keys count, rfl, isHash, isKeys, fun _ isValues =>
      absurd isValues (Option.not_mem_none _)⟩
  · rw [tableParts, isMap] at parts
    rcases bind_eq_ok.mp parts with ⟨map, item, same⟩
    cases same
    rw [isMap] at plain
    rw [plain] at mem
    rcases back.map mem (itemAt_eq_ok.mp item) with
      ⟨hashVector, keyVector, valueVector, isHash, isKeys, isValues, count, hashes, keys, values⟩
    rw [← plain] at count hashes keys values
    refine ⟨_, .map isMap hashes keys values count, rfl, isHash, isKeys, fun values' same => ?_⟩
    cases same
    exact ⟨_, rfl, isValues⟩

/-- The buckets that a reader finds. -/
structure BucketsFound (p : Prepared) (f : OpenFile) (buckets : Buckets) (slot : UInt32) (k : Nat)
    (found : Table) : Prop where
  even : found.Even f (UInt32.ofNat (2 ^ k))
  hashAt : ∀ b < 2 ^ k, hashVectorAt f found.hashes b = .ok (buckets.hash.getD b 0)
  keyAt : ∀ b < 2 ^ k,
    readerVectorValue f found.keys b = .ok (readAt p (buckets.keys.getD b slot))
  valueAt : ∀ values ∈ found.values, ∃ stored, buckets.values = some stored ∧ ∀ b < 2 ^ k,
    readerVectorValue f values b = .ok (readAt p (stored.getD b slot))

/-- The items of a vector of `2 ^ k` handles. -/
theorem items_found {values : Value} {handles : List UInt32}
    (length : handles.length = 2 ^ k) (read : readItems f values = .ok (handles.map (readAt p))) :
    readerVectorNItems f values = .ok (UInt32.ofNat (2 ^ k)) ∧ ∀ b < 2 ^ k,
      readerVectorValue f values b = .ok (readAt p (handles.getD b slot)) := by
  rcases bind_eq_ok.mp read with ⟨n, count, each⟩
  replace each := mapM_eq_ok.mp each
  have size : n.toNat = 2 ^ k := by
    rw [← length, ← List.length_map (f := readAt p), ← each.length_eq, List.length_range]
  constructor
  · rw [count, ← size, UInt32.ofNat_toNat]
  · intro b less
    have inside : b < handles.length := by rwa [length]
    have here := each.get (i := b) (by rwa [List.length_range, size]) (by rwa [List.length_map])
    rw [List.get_eq_getElem, List.get_eq_getElem, List.getElem_range, List.getElem_map] at here
    rw [List.getD_eq_getElem?_getD, List.getElem?_eq_getElem inside]
    exact here

theorem TableBack.bucketsFound (table : TableBack p f t hashVector buckets slot k place)
    {value : Value}
    (both : t.serializeValues.isSome = t.values.isSome)
    (parts : PartsFound p f t value found) : BucketsFound p f buckets slot k found := by
  have keys := @items_found _ _ slot _ _ _ table.placed.length_keys (table.keys _ parts.keys)
  have hashes := table.hash _ parts.hashes
  have values : ∀ values ∈ found.values, ∃ stored, buckets.values = some stored ∧
      readerVectorNItems f values = .ok (UInt32.ofNat (2 ^ k)) ∧ ∀ b < 2 ^ k,
        readerVectorValue f values b = .ok (readAt p (stored.getD b slot)) := by
    intro values mem
    rcases parts.values values mem with ⟨handle, isHandle, isRead⟩
    rw [isHandle, Option.isSome_some] at both
    rcases Option.isSome_iff_exists.mp both.symm with ⟨items, isItems⟩
    have stored : buckets.values = some (scatter place slot (2 ^ k) items t.keys.length) := by
      rw [table.placed.isFilled, filled, isItems]
      rfl
    exact ⟨_, stored, items_found (table.placed.length_values stored)
      (table.values handle _ values isHandle stored isRead)⟩
  refine ⟨⟨hashes.1, keys.1, fun vector mem => ?_⟩, fun b less => ?_, keys.2, fun vector mem => ?_⟩
  · rcases values vector mem with ⟨-, -, count, -⟩
    exact count
  · have inside : b < buckets.hash.length := by rwa [table.placed.length_hash]
    have word := hashes.2 b _ (List.getElem?_eq_getElem inside)
    rw [hashVectorAt, word, List.getD_eq_getElem?_getD, List.getElem?_eq_getElem inside]
    exact congrArg Except.ok UInt32.ofNat_toNat
  · rcases values vector mem with ⟨stored, isStored, -, each⟩
    exact ⟨stored, isStored, each⟩

/-! ## What is in a bucket -/

/-- A bucket has a key with its hash, or is free. -/
theorem Bucketed.bucket (placed : Bucketed t hashVector buckets slot k place) {b : Nat}
    (less : b < 2 ^ k) :
    (∃ i key hash, place i = b ∧ t.keys[i]? = some key ∧ hashVector[i]? = some hash ∧
      buckets.keys.getD b slot = key ∧ buckets.hash.getD b 0 = hash) ∨
    (∀ i < t.keys.length, place i ≠ b) ∧ buckets.keys.getD b slot = slot ∧
      buckets.hash.getD b 0 = 0 ∧
      ∀ stored, buckets.values = some stored → stored.getD b slot = slot := by
  by_cases used : ∃ i < t.keys.length, place i = b
  · rcases used with ⟨i, inside, rfl⟩
    have inside' : i < hashVector.length := by rwa [placed.hashes]
    have at_i := List.getElem?_eq_getElem inside
    have at_i' := List.getElem?_eq_getElem inside'
    refine Or.inl ⟨i, _, _, rfl, at_i, at_i', ?_, ?_⟩
    · rw [List.getD_eq_getElem?_getD, placed.key at_i]
      rfl
    · rw [List.getD_eq_getElem?_getD, placed.hash at_i']
      rfl
  · have unused : ∀ i < t.keys.length, place i ≠ b := fun i inside same => used ⟨i, inside, same⟩
    refine Or.inr ⟨unused, ?_, ?_, fun stored isStored => ?_⟩
    · rw [placed.isFilled, filled, List.getD_eq_getElem?_getD, scatter_free less unused]
      rfl
    · rw [placed.isFilled, filled, List.getD_eq_getElem?_getD, scatter_free less unused]
      rfl
    · rw [placed.isFilled, filled] at isStored
      rcases Option.map_eq_some_iff.mp isStored with ⟨values, -, rfl⟩
      rw [List.getD_eq_getElem?_getD, scatter_free less unused]
      rfl

/-! ## The counts -/

/-- The counting loop, where the values of free buckets are free. -/
theorem countSlots_eq {keyAt : Nat → Res Value} {valueAt : Option (Nat → Res Value)}
    {key : Nat → Value} {n : Nat} (keyRead : ∀ i < n, keyAt i = .ok (key i))
    (free : ∀ valueAt' ∈ valueAt, ∀ i < n, (key i).type = .emptySlot →
      ∃ value, valueAt' i = .ok value ∧ value.type = .emptySlot) :
    (List.range n).foldlM (countSlot keyAt valueAt) (0, 0)
      = .ok (occupied key n, n - occupied key n) := by
  induction n with
  | zero => rfl
  | succ n ih =>
      have before := ih (fun i less => keyRead i (by omega))
        fun valueAt' mem i less => free valueAt' mem i (by omega)
      have le : occupied key n ≤ n := by
        refine List.countP_le_length.trans ?_
        rw [List.length_range]
      have last : countSlot keyAt valueAt (occupied key n, n - occupied key n) n
          = .ok (occupied key (n + 1), n + 1 - occupied key (n + 1)) := by
        unfold countSlot
        rw [keyRead n (Nat.lt_succ_self n), ok_bind, occupied_succ]
        by_cases isEmpty : (key n).type = .emptySlot
        · have free' : n + 1 - (occupied key n + 0) = n - occupied key n + 1 := by omega
          rw [if_pos isEmpty, if_neg (not_not.mpr isEmpty), free']
          cases valueAt with
          | none => rfl
          | some valueAt' =>
              rcases free valueAt' rfl n (Nat.lt_succ_self n) isEmpty with ⟨value, read, isFree⟩
              dsimp only
              rw [read, ok_bind, if_neg (not_not.mpr isFree)]
              rfl
        · rw [if_neg isEmpty, if_pos isEmpty, Nat.add_sub_add_right]
          rfl
      rw [List.range_succ, foldlM_append, before, ok_bind, List.foldlM_cons, last]
      rfl

/-- The keys of a table occupy as many buckets. -/
theorem TableBack.occupied_eq (table : TableBack p f t hashVector buckets slot k place) :
    Pointless.occupied (fun b => readAt p (buckets.keys.getD b slot)) (2 ^ k) = t.keys.length := by
  have perm := table.keysPerm.length_eq
  rw [List.length_map, ← List.countP_eq_length_filter] at perm
  have same : (List.range (2 ^ k)).map (fun b => readAt p (buckets.keys.getD b slot))
      = buckets.keys.map (readAt p) := by
    rw [← table.placed.length_keys]
    refine map_range_getElem? fun b key at_b => ?_
    rw [List.getD_eq_getElem?_getD, at_b]
    rfl
  rw [← perm, ← same, List.countP_map]
  rfl

theorem tableCounts_written (table : TableBack p f t hashVector buckets slot k place)
    (made : TableMade fuel c m p t hashVector k) (short : t.keys.length < 2 ^ 32)
    (buckets' : BucketsFound p f buckets slot k found)
    (isCount : found.nItems = UInt32.ofNat t.keys.length) :
    tableCounts (UInt32.ofNat (2 ^ k)) (readerVectorValue f found.keys) found.nItems
      (found.values.map (readerVectorValue f)) = .ok () := by
  have size := toNat_two_pow table.placed.bound
  have count : (UInt32.ofNat t.keys.length).toNat = t.keys.length := Nat.mod_eq_of_lt short
  have room := table.placed.room
  have slots := @countSlots_eq _ (found.values.map (readerVectorValue f)) _ _ buckets'.keyAt
    fun valueAt mem b less isEmpty => by
      rcases Option.map_eq_some_iff.mp mem with ⟨values, isValues, rfl⟩
      rcases buckets'.valueAt values isValues with ⟨stored, isStored, each⟩
      refine ⟨_, each b less, ?_⟩
      rcases table.placed.bucket less with ⟨i, key, -, -, at_i, -, isKey, -⟩ | ⟨-, -, -, free⟩
      · rw [isKey] at isEmpty
        exact absurd isEmpty (table.notSlot key (List.mem_of_getElem? at_i))
      · rw [free stored isStored, readAt_eq table.slot]
        rfl
  rw [table.occupied_eq] at slots
  rw [tableCounts, isCount, made.computed, ok_bind, if_neg (not_not.mpr rfl), size, slots, ok_bind]
  have gap : ¬2 ^ k - t.keys.length = 0 := by omega
  rw [if_neg gap, count, if_neg (not_not.mpr rfl)]
  rfl

/-! ## The hashes -/

/-- A key that is written, which has a hash. -/
theorem ReadsBack.keyMade (back : ReadsBack fuel c p f)
    (made : TableMade fuel c m p t hashVector k) (short : t.keys.length < 2 ^ 32)
    {i : Nat} {key hash : UInt32} (at_i : t.keys[i]? = some key)
    (at_i' : hashVector[i]? = some hash) (isHandle : IsHandle c key) :
    ∃ v w, c.values[key.toNat]? = some v ∧ v.isSetMapVector = false ∧
      p.values[key.toNat]? = some w ∧ readAt p key = readOf p w ∧ isHashable w.type = true ∧
      hashCreate32 m fuel w = .ok hash := by
  have hashes := createKeyHashes_spec (toNat_handle short) made.hashes
  rcases List.getElem?_eq_some_iff.mp at_i with ⟨less, rfl⟩
  rcases List.getElem?_eq_some_iff.mp at_i' with ⟨less', rfl⟩
  rcases hashes.get less less' with ⟨u, found, hashable, -, hashed⟩
  rw [List.get_eq_getElem] at found
  rcases isHandle with ⟨v, at_v, own⟩
  rcases back.prepares.value at_v with ⟨w, at_w, at_c, -⟩
  cases Option.some.inj ((made.mid.values _ w at_w).symm.trans (itemAt_eq_ok.mp found))
  exact ⟨v, _, at_v, own, at_w, readAt_eq at_c, hashable, hashed⟩

/-- The hash of a key that is written is that of the value that is read. -/
theorem ReadsBack.keyHash (back : ReadsBack fuel c p f) (fit : CountsFit c)
    (made : TableMade fuel c m p t hashVector k) (short : t.keys.length < 2 ^ 32)
    {i : Nat} {key hash : UInt32} (at_i : t.keys[i]? = some key)
    (at_i' : hashVector[i]? = some hash) (isHandle : IsHandle c key) (full : FullBelow c key) :
    isHashable (readAt p key).type = true ∧ hashReader32 f fuel (readAt p key) = .ok hash := by
  rcases back.keyMade made short at_i at_i' isHandle with
    ⟨v, w, at_v, own, at_w, isRead, hashable, hashed⟩
  rw [isRead]
  exact ⟨hashable, back.hash made.mid fit at_v own at_w full hashed⟩

theorem checkSlotHash_written (back : ReadsBack fuel c p f) (fit : CountsFit c)
    (made : TableMade fuel c m p t hashVector k) (short : t.keys.length < 2 ^ 32)
    (table : TableBack p f t hashVector buckets slot k place)
    (buckets' : BucketsFound p f buckets slot k found) (shape : TableShape c t)
    (full : ∀ key ∈ t.keys, FullBelow c key) {more b : Nat} (enough : fuel < more)
    (less : b < 2 ^ k) :
    checkSlotHash more f (hashVectorAt f found.hashes) (readerVectorValue f found.keys) b
      = .ok () := by
  have hashed : isHashable (readAt p (buckets.keys.getD b slot)).type = true ∧
      hashReader32 f more (readAt p (buckets.keys.getD b slot))
        = .ok (buckets.hash.getD b 0) := by
    rcases table.placed.bucket less with
      ⟨i, key, hash, -, at_i, at_i', isKey, isHash⟩ | ⟨-, isKey, isHash, -⟩
    · rw [isKey, isHash]
      have mem := List.mem_of_getElem? at_i
      have here := back.keyHash fit made short at_i at_i' (shape.keys key mem) (full key mem)
      exact ⟨here.1, hashReader32_le (Nat.le_of_lt enough) here.2⟩
    · rcases Nat.exists_eq_add_of_lt enough with ⟨n, rfl⟩
      rw [isKey, isHash, readAt_eq table.slot]
      exact ⟨rfl, rfl⟩
  rw [checkSlotHash, buckets'.keyAt b less, ok_bind, if_neg (not_not.mpr hashed.1), hashed.2,
    ok_bind, buckets'.hashAt b less, ok_bind, if_neg (not_not.mpr rfl)]
  rfl

/-! ## Written tables -/

theorem tableBoth (parts : tableParts c v = .ok t) :
    t.serializeValues.isSome = t.values.isSome := by
  rcases type_of_tableParts parts with isSet | isMap
  · rw [tableParts, isSet] at parts
    rcases bind_eq_ok.mp parts with ⟨set, -, same⟩
    cases same
    rfl
  · rw [tableParts, isMap] at parts
    rcases bind_eq_ok.mp parts with ⟨map, -, same⟩
    cases same
    rfl

/-- A set or a map has no flags. -/
theorem plain_of_tableParts (fits : v.Fits c) (parts : tableParts c v = .ok t) :
    v = .plain v.type v.data := by
  cases fits with
  | inline | text | bits | set | map => rfl
  | vector isVector =>
      rcases type_of_tableParts parts with bad | bad
      all_goals
        rcases isVector with rfl | ⟨t, rfl⟩
        · cases bad
        · cases t
          all_goals cases bad
  | @owned t =>
      rcases type_of_tableParts parts with bad | bad
      all_goals
        cases t
        all_goals cases bad

/-- What is found of a written set or map, and how it was made. -/
structure TableRound (fuel : Nat) (c m : Create) (p : Prepared) (f : OpenFile) (t : TableParts)
    (hashVector : List UInt32) (buckets : Buckets) (slot : UInt32) (k : Nat) (place : Nat → Nat)
    (value : Value) (found : Table) : Prop where
  shape : TableShape c t
  short : t.keys.length + t.keys.length / 2 ≤ 2 ^ 31
  made : TableMade fuel c m p t hashVector k
  back : TableBack p f t hashVector buckets slot k place
  parts : PartsFound p f t value found
  buckets : BucketsFound p f buckets slot k found

theorem TableRound.countFits {value : Value}
    (round : TableRound fuel c m p f t hashVector buckets slot k place value found) :
    t.keys.length < 2 ^ 32 := by
  have bound := round.short
  omega

theorem ReadsBack.round (back : ReadsBack fuel c p f) (fit : CountsFit c)
    (at_h : c.values[handle.toNat]? = some v) (parts : tableParts c v = .ok t) :
    ∃ m hashVector buckets slot k place found,
      createToReadValue p handle = .ok (readOf p v) ∧
      TableRound fuel c m p f t hashVector buckets slot k place (readOf p v) found := by
  have fits := back.shaped.fits _ v at_h
  have shape := tableShape fits parts
  rcases back.prepares.value at_h with ⟨w, at_w, at_c, becomes⟩
  cases becomes.table_kept (type_of_tableParts parts)
  rcases back.table fit.tables at_h parts with
    ⟨m, hashVector, buckets, slot, k, place, made, table⟩
  have plain := plain_of_tableParts fits parts
  rcases back.parts (List.mem_of_getElem? at_w) parts plain with ⟨found, isFound⟩
  refine ⟨m, hashVector, buckets, slot, k, place, found, ?_, shape,
    fit.tables v t (List.mem_of_getElem? at_h) parts, made, table, isFound,
    table.bucketsFound (tableBoth parts) isFound⟩
  rw [createToReadValue_readAt at_c, readAt_eq at_c]

/-- A set or map that has been written has the number of buckets, keys and free buckets that the
validation expects of it, and every bucket has the hash that it expects, if no vector at or below
a key is empty. -/
theorem written_hashes (reachable : CreateReachable c) (fit : CountsFit c)
    (narrow : NarrowVectors c) (done : createOutputAndEndB fuel c = .ok file) :
    ∃ p f, prepare fuel c = .ok p ∧ init file = .ok (f, none) ∧
      ∀ (handle : UInt32) (v : CreateValue) (t : TableParts), c.values[handle.toNat]? = some v →
        tableParts c v = .ok t → ∃ value found n, createToReadValue p handle = .ok value ∧
          TableAt f value found ∧ found.Even f n ∧
          tableCounts n (readerVectorValue f found.keys) found.nItems
            (found.values.map (readerVectorValue f)) = .ok () ∧
          ((∀ key ∈ t.keys, FullBelow c key) → ∀ more > fuel, ∀ b < n.toNat,
            checkSlotHash more f (hashVectorAt f found.hashes) (readerVectorValue f found.keys) b
              = .ok ()) := by
  rcases readsBack_of_narrow reachable narrow done with ⟨p, f, prepared, opened, back⟩
  refine ⟨p, f, prepared, opened, fun handle v t at_h parts => ?_⟩
  rcases back.round fit at_h parts with
    ⟨m, hashVector, buckets, slot, k, place, found, isRead, round⟩
  refine ⟨_, found, UInt32.ofNat (2 ^ k), isRead, round.parts.isTable, round.buckets.even,
    tableCounts_written round.back round.made round.countFits round.buckets round.parts.nItems,
    fun full more enough b less => ?_⟩
  rw [toNat_two_pow round.back.placed.bound] at less
  exact checkSlotHash_written back fit round.made round.countFits round.back round.buckets round.shape full
    enough less

theorem written_hashes_oneString :
    ∃ p f, prepare 4 oneStringSet = .ok p ∧ init oneStringFile = .ok (f, none) ∧
      ∀ (handle : UInt32) (v : CreateValue) (t : TableParts),
        oneStringSet.values[handle.toNat]? = some v → tableParts oneStringSet v = .ok t →
        ∃ value found n, createToReadValue p handle = .ok value ∧
          TableAt f value found ∧ found.Even f n ∧
          tableCounts n (readerVectorValue f found.keys) found.nItems
            (found.values.map (readerVectorValue f)) = .ok () ∧
          ((∀ key ∈ t.keys, FullBelow oneStringSet key) → ∀ more > 4, ∀ b < n.toNat,
            checkSlotHash more f (hashVectorAt f found.hashes) (readerVectorValue f found.keys) b
              = .ok ()) :=
  written_hashes oneStringSet_reachable oneStringSet_fits oneStringSet_narrow output_oneStringSet

end Pointless
