import Pointless.WrittenFile

/-!
# The tables that are written

A set or map of the state that is written is the one that the calls have made, and its
vectors hold the buckets that its keys have been put to (`Prepares.table`).
-/

namespace Pointless

open ByteMemory ExceptRules

variable {c c' c'' : Create} {fuel : Nat} {p : Prepared} {sizes : Nat → Prop}

/-- A table becomes itself. -/
theorem Becomes.table_kept {arrays : List Dynarray} {v w : CreateValue}
    (becomes : Becomes c arrays v w) (isTable : v.type = .setValue ∨ v.type = .mapValueValue) :
    w = v := by
  refine becomes.kept ?_
  rw [CreateValue.pool]
  rcases isTable with same | same
  all_goals
    rw [same]
    intro isPriv
    cases isPriv

/-- What becomes of a value is at the same handle. -/
theorem Prepares.value (prepares : Prepares fuel c p) {i : Nat} {v : CreateValue}
    (at_i : c.values[i]? = some v) :
    ∃ w, p.values[i]? = some w ∧ p.c.values[i]? = some w ∧ Becomes c p.c.privVectorValues v w := by
  obtain ⟨w, at_w, becomes⟩ := prepares.becomes.becomes i v at_i
  exact ⟨w, at_w, getElem?_grown (List.take_prefix _ _) at_w, becomes⟩

/-- The buckets of a table, which were computed in the state `c₁`, and where they have been
put. -/
structure TableWritten (fuel : Nat) (c₁ c' : Create) (t : TableParts) (nBuckets : UInt32)
    (hashVector : List UInt32) (buckets : Buckets) : Prop where
  computed : hashComputeNBuckets (UInt32.ofNat t.keys.length) = .ok nBuckets
  hashes : createKeyHashes fuel (createEmptySlot c₁).2 t.keys (UInt32.ofNat t.keys.length)
    = .ok hashVector
  populated : hashTablePopulate fuel (cmpCreate (createEmptySlot c₁).2) hashVector t.keys t.values
    (UInt32.ofNat t.keys.length) (.fresh t.values.isSome nBuckets (createEmptySlot c₁).1) nBuckets
    (createEmptySlot c₁).1 = .ok buckets
  sized : buckets.Sized t.values.isSome nBuckets.toNat
  some_ : nBuckets.toNat ≠ 0
  slot : c'.values[(createEmptySlot c₁).1.toNat]? = some (.plain .emptySlot 0)
  hash : FilledWith c' t.serializeHash buckets.hash
  keys : FilledWith c' t.serializeKeys buckets.keys
  values : ∀ handle values, t.serializeValues = some handle → buckets.values = some values →
    FilledWith c' handle values

theorem TableBuilt.written {t : TableParts} {nBuckets : UInt32} (cached : SlotCached c)
    (built : TableBuilt fuel c t nBuckets c') (after : Fills sizes c' c'') :
    ∃ hashVector buckets, TableWritten fuel c c'' t nBuckets hashVector buckets := by
  obtain ⟨hashVector, buckets, hashes, populated, sized, some_, hash, keys, values⟩ := built.filled
  have nonempty {xs : List UInt32} (length : xs.length = nBuckets.toNat) : xs ≠ [] := by
    rintro rfl
    exact some_ length.symm
  have slot := after.value (built.rest.value (emptySlot_cached cached built.slot).2)
  refine ⟨hashVector, buckets, built.computed, hashes, populated, sized, some_, slot,
    hash.keep (nonempty sized.1) after, keys.keep (nonempty sized.2.1) after,
    fun handle items isHandle isItems => (values handle items isHandle isItems).keep ?_ after⟩
  have size := sized.2.2
  rw [isItems] at size
  split at size
  · exact nonempty (Option.some.inj size)
  · cases size

/-- The parts of a table are those that it had. -/
theorem Prepares.tableParts_eq (prepares : Prepares fuel c p) (v : CreateValue) :
    tableParts p.c v = tableParts c v := by
  rw [prepares.others]
  rfl

/-- A state in which tables are being built: its values have become what is written, and
what is filled in later is not there yet. -/
structure Midway (c m : Create) (p : Prepared) : Prop where
  values : ∀ (i : Nat) (w : CreateValue), p.values[i]? = some w → m.values[i]? = some w
  becomes : AllBecome c m.privVectorValues p.values
  others : m = { c with
    values := m.values, cache := m.cache, privVectorValues := m.privVectorValues }
  later : ∃ sizes, Fills sizes m p.c

/-- What has become of a value of the caller's is there. -/
theorem Midway.value {m : Create} (mid : Midway c m p) {i : Nat} {v : CreateValue}
    (at_i : c.values[i]? = some v) :
    ∃ w, p.values[i]? = some w ∧ m.values[i]? = some w ∧ Becomes c m.privVectorValues v w := by
  rcases mid.becomes.becomes i v at_i with ⟨w, at_w, becomes⟩
  exact ⟨w, at_w, mid.values i w at_w, becomes⟩

/-- A vector that has items keeps them. -/
theorem Midway.array {m : Create} (mid : Midway c m p) {d : Nat} {array : Dynarray}
    (item : m.privVectorValues[d]? = some array) (some_ : array.nItems ≠ 0) :
    p.c.privVectorValues[d]? = some array := by
  rcases mid.later with ⟨sizes, fills⟩
  exact fills.array item some_

/-- Between the first table and the last one, the values stay and the vectors are filled. -/
theorem Prepares.midway (prepares : Prepares fuel c p) {c₀ m : Create}
    (values : c₀.values = p.values) (all : AllBecome c c₀.privVectorValues c₀.values)
    (before : Fills (TableSize c₀) c₀ m) (after : Fills (TableSize c₀) m p.c) : Midway c m p := by
  have samePools (v : CreateValue) : tableParts c₀ v = tableParts c v := by
    rw [← prepares.tableParts_eq, ← before.tableParts_eq, ← after.tableParts_eq]
  refine ⟨fun i w at_w => before.value ?_, ⟨?_, fun i v at_i => ?_⟩, ?_, _, after⟩
  · rw [values]
    exact at_w
  · rw [← values]
    exact all.length
  · rcases all.becomes i v at_i with ⟨w, at_w, becomes⟩
    rw [values] at at_w
    exact ⟨w, at_w, becomes.fill before fun n => tableSize_prepared all samePools⟩
  · have others := prepares.others
    rw [after.state] at others
    rcases m with ⟨⟩
    cases others
    rfl

/-- The tables are built one by one, on the way to the state that is written. -/
theorem Prepares.table (prepares : Prepares fuel c p) {i : Nat} {v : CreateValue}
    (at_i : c.values[i]? = some v) (isTable : v.type = .setValue ∨ v.type = .mapValueValue) :
    ∃ c₁ t nBuckets hashVector buckets, Midway c (createEmptySlot c₁).2 p ∧
      tableParts c v = .ok t ∧ TableWritten fuel c₁ p.c t nBuckets hashVector buckets := by
  obtain ⟨w, at_w, -, becomes⟩ := prepares.value at_i
  obtain rfl := becomes.table_kept isTable
  obtain ⟨c₀, fills, slot, values, all, built⟩ := prepares.built
  obtain ⟨c₁, c₂, t, nBuckets, before, parts, table, after⟩ :=
    built i w (by rw [values]; exact at_w) isTable
  obtain ⟨hashVector, buckets, written⟩ := table.written (before.slot slot) after
  have size : nBuckets.toNat ≠ 0 → TableSize c₀ nBuckets.toNat := fun _ =>
    ⟨w, List.mem_of_getElem? (by rw [values]; exact at_w), t, nBuckets, parts, table.computed, rfl⟩
  have rest := (table.rest.mono fun n same => by rw [same]; exact size written.some_).trans after
  have mid := prepares.midway values all (before.trans (emptySlot_fills _ table.slot)) rest
  rw [← fills.tableParts_eq, prepares.tableParts_eq] at parts
  exact ⟨c₁, t, nBuckets, hashVector, buckets, mid, parts, written⟩

/-- What the parts of a table name. -/
structure TableShape (c : Create) (t : TableParts) : Prop where
  keys : ∀ key ∈ t.keys, IsHandle c key
  values : ∀ values ∈ t.values, ∀ value ∈ values, IsHandle c value
  hash : IsTableVector c .vectorU32 t.serializeHash
  keyVector : IsTableVector c .vectorValue t.serializeKeys
  valueVector : ∀ handle, t.serializeValues = some handle → IsTableVector c .vectorValue handle

theorem tableShape {v : CreateValue} {t : TableParts} (fits : v.Fits c)
    (parts : tableParts c v = .ok t) : TableShape c t := by
  have isTable := type_of_tableParts parts
  cases fits with
  | @inline type d inline =>
      cases type
      all_goals first | exact inline.elim | (rcases isTable with bad | bad <;> cases bad)
  | text isText =>
      rcases isText.1 with rfl | rfl
      all_goals rcases isTable with bad | bad <;> cases bad
  | bits => rcases isTable with bad | bad <;> cases bad
  | vector isVector =>
      rcases isVector with rfl | ⟨t, rfl⟩
      · rcases isTable with bad | bad <;> cases bad
      · cases t
        all_goals rcases isTable with bad | bad <;> cases bad
  | @owned t =>
      cases t
      all_goals rcases isTable with bad | bad <;> cases bad
  | set keys hash keyVector item =>
      rcases bind_eq_ok.mp parts with ⟨set, found, same⟩
      cases Option.some.inj (item.symm.trans (itemAt_eq_ok.mp found))
      cases same
      exact ⟨keys, nofun, hash, keyVector, nofun⟩
  | map keys values hash keyVector valueVector item =>
      rcases bind_eq_ok.mp parts with ⟨map, found, same⟩
      cases Option.some.inj (item.symm.trans (itemAt_eq_ok.mp found))
      cases same
      refine ⟨keys, fun _ same => ?_, hash, keyVector, fun handle same => ?_⟩
      · cases same
        exact values
      · cases same
        exact valueVector

/-- A map has a value for each key. -/
theorem tablePaired {v : CreateValue} {t : TableParts} (wf : WellFormed c)
    (parts : tableParts c v = .ok t) :
    ∀ values ∈ t.values, values.length = t.keys.length := by
  rcases type_of_tableParts parts with isSet | isMap
  · rw [tableParts, isSet] at parts
    rcases bind_eq_ok.mp parts with ⟨set, -, same⟩
    cases same
    intro values mem
    cases mem
  · rw [tableParts, isMap] at parts
    rcases bind_eq_ok.mp parts with ⟨map, found, same⟩
    cases same
    intro values same
    cases same
    exact (wf.maps map (List.mem_of_getElem? (itemAt_eq_ok.mp found))).symm

/-- A vector that a table is written through is written. -/
theorem Prepares.tableVector (prepares : Prepares fuel c p) {type : ValueType} {handle : UInt32}
    (isVector : IsTableVector c type handle) (isPriv : IsPrivType type) {items : List UInt32}
    (filled : FilledWith p.c handle items) :
    ∃ w array type', p.values[handle.toNat]? = some w ∧ p.c.values[handle.toNat]? = some w ∧
      p.c.privVectorValues[w.data.toNat]? = some array ∧ array.items = items.map UInt32.toNat ∧
      w = ⟨type', false, true, false, w.data⟩ ∧
      (type' = type ∨ type = .vectorValue ∧ type' = .vectorValueHashable) := by
  obtain ⟨d, at_h⟩ := isVector
  obtain ⟨w, at_w, at_w', becomes⟩ := prepares.value at_h
  obtain ⟨u, array, at_u, item, same⟩ := filled
  cases Option.some.inj (at_w'.symm.trans at_u)
  generalize start : CreateValue.mk type false true false d = v at becomes
  cases becomes with
  | same other =>
      subst start
      refine absurd ?_ other
      rcases isPriv with rfl | ⟨t, rfl⟩
      · rfl
      · cases t
        all_goals rfl
  | emptied => cases congrArg CreateValue.isSetMapVector start
  | numbers => cases congrArg CreateValue.isSetMapVector start
  | handles => cases congrArg CreateValue.isSetMapVector start
  | compressed => cases congrArg CreateValue.isSetMapVector start
  | table isVector isType =>
      cases start
      exact ⟨_, array, _, at_w, at_w', item, same, rfl, isType⟩

end Pointless
