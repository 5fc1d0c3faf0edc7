import Pointless.ReadBack
import Pointless.WrittenBuckets

/-!
# Tables read back

The vectors of handles of a file that has been written, and the vectors of its sets and
maps: `TableBack` is what a reader finds of a table.
-/

namespace Pointless

open ByteMemory ExceptRules OpenAddressing

variable {c c₁ : Create} {fuel : Nat} {p : Prepared} {f : OpenFile} {v w : CreateValue}
  {handle : UInt32} {array : Dynarray} {handles : List UInt32}

/-! ## Handles -/

/-- A value of the file is that of a handle. -/
def ReadsAs (c : Create) (p : Prepared) (handle : UInt32) (v : Value) : Prop :=
  IsHandle c handle ∧ createToReadValue p handle = .ok v

/-- The value that a reader has for a handle. -/
def readAt (p : Prepared) (handle : UInt32) : Value :=
  readOf p (p.c.values.getD handle.toNat (.plain .emptySlot 0))

theorem readAt_eq (found : p.c.values[handle.toNat]? = some w) : readAt p handle = readOf p w := by
  rw [readAt, List.getD_eq_getElem?_getD, found]
  rfl

theorem createToReadValue_readAt (found : p.c.values[handle.toNat]? = some w) :
    createToReadValue p handle = .ok (readAt p handle) := by
  rw [createToReadValue_eq, cvValueAt, itemAt_eq_ok.mpr found, readAt_eq found]
  rfl

/-- The handles of a caller are those of values that are written. -/
theorem Prepares.readsAs (prepares : Prepares fuel c p) (isHandle : IsHandle c handle) :
    ReadsAs c p handle (readAt p handle) := by
  rcases isHandle with ⟨v, at_h, own⟩
  rcases prepares.value at_h with ⟨w, -, at_w, -⟩
  exact ⟨⟨v, at_h, own⟩, createToReadValue_readAt at_w⟩

/-! ## Vectors of handles -/

/-- A vector of handles is read back as the values of the handles. -/
theorem ReadsBack.items (back : ReadsBack fuel c p f) {type : ValueType} {table : Bool} {d : UInt32}
    {array : Dynarray} {handles : List UInt32}
    (isValue : type = .vectorValue ∨ type = .vectorValueHashable)
    (mem : ⟨type, false, table, false, d⟩ ∈ p.values)
    (item : p.c.privVectorValues[d.toNat]? = some array) (size : array.itemSize = 4)
    (isItems : array.items = handles.map UInt32.toNat) (short : handles.length < 2 ^ 32)
    (known : ∀ handle ∈ handles, ∃ w, p.c.values[handle.toNat]? = some w) :
    readItems f (readOf p ⟨type, false, table, false, d⟩) = .ok (handles.map (readAt p)) := by
  have narrow : ∀ n ∈ array.items, n < 2 ^ 32 := by
    rw [isItems]
    intro n mem'
    rcases List.mem_map.mp mem' with ⟨handle, -, rfl⟩
    exact handle.toNat_lt
  have length : array.nItems = handles.length := by
    rw [Dynarray.nItems, isItems, List.length_map]
  have names : Names p.c array
      (handles.map fun handle => p.c.values.getD handle.toNat (.plain .emptySlot 0)) := by
    rw [Names, isItems, List.forall₂_map_left_iff, List.forall₂_map_right_iff, List.forall₂_same]
    intro handle mem'
    rcases known handle mem' with ⟨w, found⟩
    rw [List.getD_eq_getElem?_getD, found]
    rfl
  have vector := back.values isValue mem item size narrow (by rwa [length]) names
  have read : (handles.map fun handle => p.c.values.getD handle.toNat (.plain .emptySlot 0)).map
      (readOf p) = handles.map (readAt p) := List.map_map
  rw [read] at vector
  have count : (UInt32.ofNat array.nItems).toNat = handles.length := by
    rw [length]
    exact Nat.mod_eq_of_lt short
  have knownTypes : ∀ x ∈ handles.map (readAt p), x.type.Known := by
    intro x mem'
    rcases List.mem_map.mp mem' with ⟨handle, among, rfl⟩
    rcases known handle among with ⟨w, found⟩
    exact back.prepares.known_readOf back.shaped (createToReadValue_readAt found)
  rw [readItems, vector.1, ok_bind, count, mapM_eq_ok, List.forall₂_iff_get]
  refine ⟨by rw [List.length_range, List.length_map], fun i less less' => ?_⟩
  rw [List.get_eq_getElem, List.get_eq_getElem, List.getElem_range]
  exact vector.value knownTypes (List.getElem?_eq_getElem less')

/-! ## The vectors of a table -/

/-- The items of a vector that a table is written through are words. -/
theorem Prepares.tableVector_size (prepares : Prepares fuel c p) (shaped : Shaped c)
    {type : ValueType} (isVector : IsTableVector c type handle)
    (isType : type = .vectorValue ∨ type = .vectorU32)
    (at_w : p.c.values[handle.toNat]? = some w)
    (item : p.c.privVectorValues[w.data.toNat]? = some array) : array.itemSize = 4 := by
  rcases isVector with ⟨d, at_h⟩
  rcases prepares.value at_h with ⟨w', -, at_w', becomes⟩
  cases Option.some.inj (at_w'.symm.trans at_w)
  have size : ∀ array₀, c.privVectorValues[d.toNat]? = some array₀ → array₀.itemSize = 4 := by
    intro array₀ item₀
    have fits := shaped.fits _ _ at_h
    generalize start : CreateValue.mk type false true false d = u at fits
    cases fits with
    | vector isPriv fits unfilled item =>
        cases start
        cases Option.some.inj (item₀.symm.trans item)
        rcases isType with rfl | rfl
        · exact (fits.handles rfl).1
        · exact (fits.numbers .u32 rfl).1
    | _ => cases congrArg CreateValue.isSetMapVector start
  generalize start : CreateValue.mk type false true false d = u at becomes
  cases becomes with
  | same other =>
      subst start
      refine absurd ?_ other
      rcases isType with rfl | rfl
      all_goals rfl
  | table isPriv isTag item₀ item' =>
      cases start
      cases Option.some.inj (item.symm.trans item')
      have width := size _ item₀
      exact width
  | _ => cases congrArg CreateValue.isSetMapVector start

/-- The items of a vector that a table is written through. -/
theorem ReadsBack.filledItems (back : ReadsBack fuel c p f)
    (isVector : IsTableVector c .vectorValue handle) (filled : FilledWith p.c handle handles)
    (short : handles.length < 2 ^ 32)
    (known : ∀ key ∈ handles, ∃ w, p.c.values[key.toNat]? = some w) {vector : Value}
    (isRead : createToReadValue p handle = .ok vector) :
    readItems f vector = .ok (handles.map (readAt p)) := by
  rcases back.prepares.tableVector isVector (Or.inl rfl) filled with
    ⟨w, array, type, at_w, at_w', item, items, own, isType⟩
  have size := back.prepares.tableVector_size back.shaped isVector (Or.inl rfl) at_w' item
  have value : vector = readOf p w :=
    (Except.ok.inj ((createToReadValue_readAt at_w').symm.trans isRead)).symm.trans (readAt_eq at_w')
  have mem := List.mem_of_getElem? at_w
  rw [own] at mem
  rw [value, own]
  exact back.items (isType.imp_right And.right) mem item size items short known

/-- The words of a vector that a table is written through. -/
theorem ReadsBack.filledWords (back : ReadsBack fuel c p f)
    (isVector : IsTableVector c .vectorU32 handle) (filled : FilledWith p.c handle handles)
    (short : handles.length < 2 ^ 32) {vector : Value}
    (isRead : createToReadValue p handle = .ok vector) :
    readerVectorNItems f vector = .ok (UInt32.ofNat handles.length) ∧
      ∀ (i : Nat) (word : UInt32), handles[i]? = some word →
        readerVectorWord f vector 4 i = .ok word.toNat := by
  rcases back.prepares.tableVector isVector (Or.inr ⟨.u32, rfl⟩) filled with
    ⟨w, array, type, at_w, at_w', item, items, own, isType⟩
  have size := back.prepares.tableVector_size back.shaped isVector (Or.inr rfl) at_w' item
  have value : vector = readOf p w :=
    (Except.ok.inj ((createToReadValue_readAt at_w').symm.trans isRead)).symm.trans (readAt_eq at_w')
  have mem := List.mem_of_getElem? at_w
  rw [own] at mem
  have tag : type = .vectorU32 := by
    rcases isType with same | ⟨bad, -⟩
    · exact same
    · cases bad
  subst tag
  have count : array.nItems = handles.length := by
    rw [Dynarray.nItems, items, List.length_map]
  have words := back.numbers (t := .u32) mem item size (by rwa [count])
  rw [value, own]
  rw [count] at words
  refine ⟨words.1, fun i word at_i => words.word (fun x among => ?_) ?_⟩
  · rw [items] at among
    rcases List.mem_map.mp among with ⟨handle, -, rfl⟩
    exact handle.toNat_lt
  · rw [items, List.getElem?_map, at_i]
    rfl

/-- What a reader finds of a table, whose keys have been put to `place`. -/
structure TableBack (p : Prepared) (f : OpenFile) (t : TableParts) (hashVector : List UInt32)
    (buckets : Buckets) (slot : UInt32) (k : Nat) (place : Nat → Nat) : Prop where
  placed : Bucketed t hashVector buckets slot k place
  slot : p.c.values[slot.toNat]? = some (.plain .emptySlot 0)
  notSlot : ∀ key ∈ t.keys, (readAt p key).type ≠ .emptySlot
  keys : ∀ vector, createToReadValue p t.serializeKeys = .ok vector →
    readItems f vector = .ok (buckets.keys.map (readAt p))
  values : ∀ handle stored vector, t.serializeValues = some handle →
    buckets.values = some stored → createToReadValue p handle = .ok vector →
    readItems f vector = .ok (stored.map (readAt p))
  hash : ∀ vector, createToReadValue p t.serializeHash = .ok vector →
    readerVectorNItems f vector = .ok (UInt32.ofNat (2 ^ k)) ∧
      ∀ (i : Nat) (word : UInt32), buckets.hash[i]? = some word →
        readerVectorWord f vector 4 i = .ok word.toNat

/-- What went into the table of the parts `t`, which was made in the state `m`: the number of
buckets, and the hashes and comparisons of the keys. -/
structure TableMade (fuel : Nat) (c m : Create) (p : Prepared) (t : TableParts)
    (hashVector : List UInt32) (k : Nat) : Prop where
  mid : Midway c m p
  computed : hashComputeNBuckets (UInt32.ofNat t.keys.length) = .ok (UInt32.ofNat (2 ^ k))
  hashes : createKeyHashes fuel m t.keys (UInt32.ofNat t.keys.length) = .ok hashVector
  compared : compareAllKeys (cmpCreate m) hashVector t.keys t.keys.length = .ok ()

/-- A set or map of the state is read back. -/
theorem ReadsBack.table (back : ReadsBack fuel c p f) (short : ShortTables c) {i : Nat}
    (at_i : c.values[i]? = some v) {t : TableParts} (parts : tableParts c v = .ok t) :
    ∃ m hashVector buckets slot k place, TableMade fuel c m p t hashVector k ∧
      TableBack p f t hashVector buckets slot k place := by
  have isTable := type_of_tableParts parts
  have shape := tableShape (back.shaped.fits i v at_i) parts
  have count := short v t (List.mem_of_getElem? at_i) parts
  rcases back.prepares.table at_i isTable with
    ⟨c₁, t', nBuckets, hashVector, buckets, mid, parts', written⟩
  cases Except.ok.inj (parts.symm.trans parts')
  rcases mid.later with ⟨sizes, after⟩
  rcases written.placed count (tablePaired back.wf parts) with ⟨k, place, rfl, placed, compared⟩
  have total : (2 : Nat) ^ k < 2 ^ 32 := by
    have bound := Nat.pow_le_pow_right (show 0 < 2 by decide) placed.bound
    omega
  have isKnown (key : UInt32) (isHandle : IsHandle c key) :
      ∃ w, p.c.values[key.toNat]? = some w := by
    rcases isHandle with ⟨v, at_key, -⟩
    rcases back.prepares.value at_key with ⟨w, -, at_w, -⟩
    exact ⟨w, at_w⟩
  refine ⟨_, hashVector, buckets, _, k, place, ⟨mid, written.computed, written.hashes, compared⟩,
    placed, written.slot, fun key mem => ?_,
    fun vector isRead => ?_, fun handle stored vector isHandle isStored isRead => ?_,
    fun vector isRead => ?_⟩
  · have hashes := createKeyHashes_spec (toNat_handle (by omega)) written.hashes
    rcases Unfolding.exists_zip hashes mem with ⟨hash, -, u, found, -, apart, -⟩
    rw [readAt_eq (after.value (itemAt_eq_ok.mp found))]
    exact apart
  · refine back.filledItems shape.keyVector written.keys ?_ (fun key mem => ?_) isRead
    · rw [placed.length_keys]
      exact total
    · rcases placed.mem_keys mem with rfl | inside
      · exact ⟨_, written.slot⟩
      · exact isKnown key (shape.keys key inside)
  · refine back.filledItems (shape.valueVector handle isHandle)
      (written.values handle stored isHandle isStored) ?_ (fun key mem => ?_) isRead
    · rw [placed.length_values isStored]
      exact total
    · rcases placed.mem_values (tablePaired back.wf parts) isStored mem with rfl | ⟨values, isValues, inside⟩
      · exact ⟨_, written.slot⟩
      · exact isKnown key (shape.values values isValues key inside)
  · have words := back.filledWords shape.hash written.hash (by rwa [placed.length_hash]) isRead
    rwa [placed.length_hash] at words

section TableBack

variable {t : TableParts} {hashVector : List UInt32} {buckets : Buckets} {slot : UInt32} {k : Nat}
  {place : Nat → Nat} (back : TableBack p f t hashVector buckets slot k place)

include back

/-- A bucket is occupied by a key, or shows the empty slot. -/
theorem TableBack.occupied {i : Nat} {key : UInt32} (at_i : t.keys[i]? = some key) :
    (buckets.keys.map (readAt p))[place i]? = some (readAt p key) ∧
      decide ((readAt p key).type ≠ .emptySlot) = true := by
  refine ⟨?_, decide_eq_true (back.notSlot key (List.mem_of_getElem? at_i))⟩
  rw [List.getElem?_map, back.placed.key at_i]
  rfl

theorem TableBack.free {b : Nat} {x : Value} (at_b : (buckets.keys.map (readAt p))[b]? = some x)
    (unused : ∀ i < t.keys.length, place i ≠ b) : decide (x.type ≠ .emptySlot) = false := by
  rw [List.getElem?_map, Option.map_eq_some_iff] at at_b
  rcases at_b with ⟨key, stored, rfl⟩
  rw [back.placed.free stored unused, readAt_eq back.slot]
  exact decide_eq_false (not_not_intro rfl)

theorem TableBack.injective :
    ∀ i < t.keys.length, ∀ j < t.keys.length, place i = place j → i = j :=
  back.placed.table.injective

omit back in
theorem map_range_getElem? {α β : Type} {xs : List α} {g : Nat → β} {h : α → β}
    (same : ∀ (i : Nat) (x : α), xs[i]? = some x → g i = h x) :
    (List.range xs.length).map g = xs.map h := by
  refine List.ext_getElem (by rw [List.length_map, List.length_map, List.length_range])
    fun i less less' => ?_
  rw [List.length_map, List.length_range] at less
  rw [List.getElem_map, List.getElem_map, List.getElem_range]
  exact same i _ (List.getElem?_eq_getElem less)

/-- The occupied buckets of a table are its keys. -/
theorem TableBack.keysPerm :
    ((buckets.keys.map (readAt p)).filter fun key => key.type ≠ .emptySlot).Perm
      (t.keys.map (readAt p)) := by
  have perm := occupied_perm (buckets.keys.map (readAt p)) (fun key => key.type ≠ .emptySlot)
    (fun i => readAt p (t.keys.getD i 0)) back.injective (fun i less => ?_)
    fun b x at_b unused => back.free at_b unused
  · rwa [map_range_getElem? fun i key at_i => by
      rw [List.getD_eq_getElem?_getD, at_i, Option.getD_some]] at perm
  · have at_i := List.getElem?_eq_getElem less
    rw [List.getD_eq_getElem?_getD, at_i]
    exact back.occupied at_i

/-- The occupied buckets of a map are its keys, each with its value. -/
theorem TableBack.entriesPerm {values stored : List UInt32} (isValues : t.values = some values)
    (isStored : buckets.values = some stored) (paired : values.length = t.keys.length) :
    (((buckets.keys.map (readAt p)).zip (stored.map (readAt p))).filter fun entry =>
      entry.1.type ≠ .emptySlot).Perm ((t.keys.map (readAt p)).zip (values.map (readAt p))) := by
  have entry {i : Nat} {entry : UInt32 × UInt32} (at_i : (t.keys.zip values)[i]? = some entry) :
      (readAt p (t.keys.getD i 0), readAt p (values.getD i 0))
        = (readAt p entry.1, readAt p entry.2) := by
    rcases List.getElem?_zip_eq_some.mp at_i with ⟨at_key, at_value⟩
    rw [List.getD_eq_getElem?_getD, List.getD_eq_getElem?_getD, at_key, at_value]
    rfl
  have length : (t.keys.zip values).length = t.keys.length := by
    rw [List.length_zip, paired, Nat.min_self]
  have perm := occupied_perm ((buckets.keys.map (readAt p)).zip (stored.map (readAt p)))
    (fun entry => entry.1.type ≠ .emptySlot)
    (fun i => (readAt p (t.keys.getD i 0), readAt p (values.getD i 0))) back.injective
    (fun i less => ?_) fun b x at_b unused => ?_
  · rw [← length, map_range_getElem? fun i x at_i => entry at_i] at perm
    refine perm.trans (.of_eq ?_)
    rw [List.zip_map]
    rfl
  · have less' := less
    rw [← paired] at less'
    have at_i : (t.keys.zip values)[i]? = some (t.keys[i], values[i]) :=
      List.getElem?_zip_eq_some.mpr
        ⟨List.getElem?_eq_getElem less, List.getElem?_eq_getElem less'⟩
    have found := back.occupied (List.getElem?_eq_getElem less)
    have value := back.placed.value isValues isStored less (List.getElem?_zip_eq_some.mp at_i).2
    rw [entry at_i]
    refine ⟨List.getElem?_zip_eq_some.mpr ⟨found.1, ?_⟩, found.2⟩
    rw [List.getElem?_map, value]
    rfl
  · exact back.free (List.getElem?_zip_eq_some.mp at_b).1 unused

end TableBack

end Pointless
