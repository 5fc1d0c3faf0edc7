import Pointless.Prepare
import Pointless.TableCheck

/-!
# Filling the vectors of sets and maps

The loops of `pointless_create_output_and_end_` over `pointless_hash_table_create`. They push
the empty slot, if there is none yet, and give items to vectors that have none (`Fills`), so
that what one table has been filled with stays.
-/

namespace Pointless

open ByteMemory ExceptRules

variable {c c' c'' : Create} {fuel : Nat} {sizes : Nat → Prop}

/-! ## Growth -/

/-- The cache has the handle of an empty slot, or there is room for one. -/
def SlotCached (c : Create) : Prop :=
  c.cache.emptySlotHandle = createValueFail ∧ c.values.length < 2 ^ 32 ∨
    c.cache.emptySlotHandle ≠ createValueFail ∧
      c.values[c.cache.emptySlotHandle.toNat]? = some (.plain .emptySlot 0)

/-- Empty slots are pushed, and empty arrays get as many items as `sizes` allows. -/
structure Fills (sizes : Nat → Prop) (c c' : Create) : Prop where
  state : c' = { c with
    values := c'.values, cache := c'.cache, privVectorValues := c'.privVectorValues }
  values : ∃ n, c'.values = c.values ++ List.replicate n (.plain .emptySlot 0)
  arrays : ∀ (d : Nat) (array : Dynarray), c.privVectorValues[d]? = some array →
    ∃ items, c'.privVectorValues[d]? = some { array with items } ∧
      (items = array.items ∨ array.nItems = 0 ∧ sizes items.length)
  slot : SlotCached c → SlotCached c'

theorem Fills.refl (sizes : Nat → Prop) (c : Create) : Fills sizes c c :=
  ⟨rfl, ⟨0, (List.append_nil _).symm⟩, fun _ array item => ⟨array.items, item, Or.inl rfl⟩, id⟩

theorem Fills.trans (first : Fills sizes c c') (second : Fills sizes c' c'') :
    Fills sizes c c'' := by
  refine ⟨?_, ?_, fun d array item => ?_, second.slot ∘ first.slot⟩
  · rw [second.state, first.state]
  · obtain ⟨n, values⟩ := first.values
    obtain ⟨m, values'⟩ := second.values
    refine ⟨n + m, ?_⟩
    rw [values', values, List.append_assoc, List.replicate_add]
  · obtain ⟨items, item', change⟩ := first.arrays d array item
    obtain ⟨items', item'', change'⟩ := second.arrays d _ item'
    refine ⟨items', item'', ?_⟩
    rcases change with rfl | ⟨empty, size⟩
    · exact change'
    · rcases change' with rfl | ⟨-, size'⟩
      · exact Or.inr ⟨empty, size⟩
      · exact Or.inr ⟨empty, size'⟩

theorem Fills.mono {sizes' : Nat → Prop} (wider : ∀ n, sizes n → sizes' n)
    (fills : Fills sizes c c') : Fills sizes' c c' := by
  refine ⟨fills.state, fills.values, fun d array item => ?_, fills.slot⟩
  obtain ⟨items, item', change⟩ := fills.arrays d array item
  exact ⟨items, item', change.imp_right fun ⟨empty, size⟩ => ⟨empty, wider _ size⟩⟩

theorem Fills.value (fills : Fills sizes c c') {i : Nat} {v : CreateValue}
    (at_i : c.values[i]? = some v) : c'.values[i]? = some v := by
  obtain ⟨n, values⟩ := fills.values
  rw [values, List.getElem?_append_left (List.getElem?_eq_some_iff.mp at_i).1]
  exact at_i

theorem Fills.array (fills : Fills sizes c c') {d : Nat} {array : Dynarray}
    (item : c.privVectorValues[d]? = some array) (some_ : array.nItems ≠ 0) :
    c'.privVectorValues[d]? = some array := by
  obtain ⟨items, item', rfl | ⟨empty, -⟩⟩ := fills.arrays d array item
  · exact item'
  · exact absurd empty some_

/-- A vector of handles or hashes has been given items. -/
def FilledWith (c : Create) (handle : UInt32) (items : List UInt32) : Prop :=
  ∃ v array, c.values[handle.toNat]? = some v ∧ c.privVectorValues[v.data.toNat]? = some array ∧
    array.items = items.map UInt32.toNat

/-- A vector that has items keeps them. -/
theorem FilledWith.keep {handle : UInt32} {items : List UInt32}
    (filled : FilledWith c handle items) (some_ : items ≠ []) (fills : Fills sizes c c') :
    FilledWith c' handle items := by
  obtain ⟨v, array, at_h, item, same⟩ := filled
  refine ⟨v, array, fills.value at_h, fills.array item ?_, same⟩
  intro empty
  rw [Dynarray.nItems, same, List.length_map] at empty
  exact some_ (List.length_eq_zero_iff.mp empty)

/-! ## Transfers -/

theorem transferPriv_fills {vector handle : UInt32} {items : List UInt32}
    (done : createVectorTransferPriv c vector items = .ok (handle, c'))
    (succeeded : handle ≠ createValueFail) :
    Fills (· = items.length) c c' ∧ FilledWith c' vector items := by
  rw [createVectorTransferPriv] at done
  obtain ⟨v, read, later⟩ := bind_eq_ok.mp done
  obtain ⟨a, found, last⟩ := bind_eq_ok.mp later
  have at_v := itemAt_eq_ok.mp read
  have item := itemAt_eq_ok.mp found
  split at last
  · cases last
    exact absurd rfl succeeded
  · rename_i empty
    rw [modifyPrivVector, read, ok_bind, modifyAt_of_item item] at last
    cases last
    have changed : (c.privVectorValues.modify v.data.toNat fun a =>
        { a with items := items.map UInt32.toNat })[v.data.toNat]?
        = some { a with items := items.map UInt32.toNat } := by
      rw [List.getElem?_modify_eq, item]
      rfl
    refine ⟨⟨rfl, ⟨0, (List.append_nil _).symm⟩, fun d array here => ?_, id⟩,
      v, _, at_v, changed, rfl⟩
    by_cases same : v.data.toNat = d
    · subst same
      cases Option.some.inj (item.symm.trans here)
      exact ⟨_, changed, Or.inr ⟨not_not.mp empty, List.length_map _⟩⟩
    · exact ⟨array.items, (List.getElem?_modify_ne _ _ same).trans here, Or.inl rfl⟩

theorem valueTransfer_fills {vector handle : UInt32} {items : List UInt32}
    (done : createVectorValueTransfer c vector items = .ok (handle, c'))
    (succeeded : handle ≠ createValueFail) :
    Fills (· = items.length) c c' ∧ FilledWith c' vector items := by
  rw [createVectorValueTransfer] at done
  split at done
  · cases done
    exact absurd rfl succeeded
  · exact transferPriv_fills done succeeded

/-- The handle of the empty slot, and what it names. -/
theorem emptySlot_cached (cached : SlotCached c) (succeeded : (createEmptySlot c).1 ≠ createValueFail) :
    SlotCached (createEmptySlot c).2 ∧
      (createEmptySlot c).2.values[(createEmptySlot c).1.toNat]? = some (.plain .emptySlot 0) := by
  rw [createEmptySlot, pushCached] at succeeded ⊢
  split
  · rename_i known
    rcases cached with ⟨absent, -⟩ | ⟨-, here⟩
    · exact absurd absent known
    · exact ⟨Or.inr ⟨known, here⟩, here⟩
  · rename_i unknown
    rw [if_neg unknown] at succeeded
    rcases cached with ⟨-, room⟩ | ⟨known, -⟩
    · have pushed : (c.values ++ [CreateValue.plain .emptySlot 0])[(UInt32.ofNat
          c.values.length).toNat]? = some (.plain .emptySlot 0) := by
        rw [toNat_handle room]
        exact getElem?_pushed _ _
      exact ⟨Or.inr ⟨succeeded, pushed⟩, pushed⟩
    · exact absurd known unknown

theorem emptySlot_fills (sizes : Nat → Prop) {c : Create}
    (succeeded : (createEmptySlot c).1 ≠ createValueFail) :
    Fills sizes c (createEmptySlot c).2 := by
  have slot (cached : SlotCached c) := (emptySlot_cached cached succeeded).1
  rw [createEmptySlot, pushCached] at slot ⊢
  split
  · exact .refl sizes c
  · rename_i unknown
    rw [if_neg unknown] at slot
    exact ⟨rfl, ⟨1, rfl⟩, fun _ array item => ⟨array.items, item, Or.inl rfl⟩, slot⟩

/-! ## The buckets -/

/-- The arrays have a place for every bucket. -/
def Buckets.Sized (t : Buckets) (isMap : Bool) (n : Nat) : Prop :=
  t.hash.length = n ∧ t.keys.length = n ∧ t.values.map List.length = if isMap then some n else none

theorem arraySet_length {xs ys : List UInt32} {i : Nat} {x : UInt32}
    (done : arraySet xs i x = .ok ys) : ys.length = xs.length := by
  rw [arraySet] at done
  split at done
  · cases done
    exact List.length_set
  · cases done

theorem putValue_length {valuesVector values values' : Option (List UInt32)} {j bucket : Nat}
    (done : putValue valuesVector j values bucket = .ok values') :
    values'.map List.length = values.map List.length := by
  cases values with
  | none =>
      cases done
      rfl
  | some values =>
      cases valuesVector with
      | none => cases done
      | some valuesVector =>
          obtain ⟨value, -, later⟩ := bind_eq_ok.mp done
          obtain ⟨values', set, rfl⟩ := map_eq_ok.mp later
          exact congrArg some (arraySet_length set)

/-- Whatever buckets the keys go to, there are as many. -/
theorem populate_sized {cmp : UInt32 → UInt32 → Res Int} {hashVector keysVector : List UInt32}
    {valuesVector : Option (List UInt32)} {nKeys nBuckets emptySlotHandle : UInt32}
    {isMap : Bool} {n : Nat} {t t' : Buckets} (sized : t.Sized isMap n)
    (done : hashTablePopulate fuel cmp hashVector keysVector valuesVector nKeys t nBuckets
      emptySlotHandle = .ok t') : t'.Sized isMap n := by
  rw [hashTablePopulate] at done
  split at done
  · cases done
  · obtain ⟨-, -, later⟩ := bind_eq_ok.mp done
    obtain ⟨-, -, loop⟩ := bind_eq_ok.mp later
    refine foldlM_kept (I := fun t : Buckets => t.Sized isMap n) sized
      (fun t t' j _ sized round => ?_) loop
    rw [populateStep] at round
    obtain ⟨valueHash, -, round⟩ := bind_eq_ok.mp round
    obtain ⟨key, -, round⟩ := bind_eq_ok.mp round
    obtain ⟨bucket, -, round⟩ := bind_eq_ok.mp round
    obtain ⟨hash, setHash, round⟩ := bind_eq_ok.mp round
    obtain ⟨keys, setKeys, round⟩ := bind_eq_ok.mp round
    obtain ⟨values, setValues, round⟩ := bind_eq_ok.mp round
    cases round
    exact ⟨(arraySet_length setHash).trans sized.1, (arraySet_length setKeys).trans sized.2.1,
      (putValue_length setValues).trans sized.2.2⟩

theorem fresh_sized (isMap : Bool) (nBuckets emptySlotHandle : UInt32) :
    (Buckets.fresh isMap nBuckets emptySlotHandle).Sized isMap nBuckets.toNat := by
  refine ⟨List.length_replicate, List.length_replicate, ?_⟩
  cases isMap with
  | false => rfl
  | true => exact congrArg some List.length_replicate

/-! ## One table -/

theorem transferTable_fills {t : TableParts} {buckets : Buckets} {isMap : Bool} {n : Nat}
    (sized : buckets.Sized isMap n) (some_ : n ≠ 0)
    (done : transferTable c t buckets = .ok c') :
    Fills (· = n) c c' ∧ FilledWith c' t.serializeHash buckets.hash ∧
      FilledWith c' t.serializeKeys buckets.keys ∧
      ∀ handle values, t.serializeValues = some handle → buckets.values = some values →
        FilledWith c' handle values := by
  have nonempty {xs : List UInt32} (length : xs.length = n) : xs ≠ [] := by
    rintro rfl
    exact some_ length.symm
  rw [transferTable] at done
  obtain ⟨⟨sh, c₁⟩, hash, done⟩ := bind_eq_ok.mp done
  dsimp only at done
  split at done
  · cases done
  rename_i hashDone
  obtain ⟨fills₁, filledHash⟩ := transferPriv_fills hash hashDone
  rw [sized.1] at fills₁
  obtain ⟨⟨sk, c₂⟩, keys, done⟩ := bind_eq_ok.mp done
  dsimp only at done
  split at done
  · cases done
  rename_i keysDone
  obtain ⟨fills₂, filledKeys⟩ := valueTransfer_fills keys keysDone
  rw [sized.2.1] at fills₂
  have filledHash₂ := filledHash.keep (nonempty sized.1) fills₂
  split at done
  · rename_i serializeValues values isMap' isValues
    obtain ⟨⟨sv, c₃⟩, transferred, done⟩ := bind_eq_ok.mp done
    dsimp only at done
    split at done
    · cases done
    rename_i valuesDone
    obtain ⟨fills₃, filledValues⟩ := valueTransfer_fills transferred valuesDone
    have size : values.length = n := by
      have sizedValues := sized.2.2
      rw [isValues] at sizedValues
      split at sizedValues
      · exact Option.some.inj sizedValues
      · cases sizedValues
    rw [size] at fills₃
    cases done
    refine ⟨(fills₁.trans fills₂).trans fills₃, filledHash₂.keep (nonempty sized.1) fills₃,
      filledKeys.keep (nonempty sized.2.1) fills₃, fun handle items isHandle isItems => ?_⟩
    cases Option.some.inj (isMap'.symm.trans isHandle)
    cases Option.some.inj (isValues.symm.trans isItems)
    exact filledValues
  · rename_i notBoth
    cases done
    refine ⟨fills₁.trans fills₂, filledHash₂, filledKeys, fun handle values isHandle isValues => ?_⟩
    exact absurd isValues (notBoth handle values isHandle)

/-- How the vectors of a table have been filled. -/
structure TableBuilt (fuel : Nat) (c : Create) (t : TableParts) (nBuckets : UInt32) (c' : Create) :
    Prop where
  computed : hashComputeNBuckets (UInt32.ofNat t.keys.length) = .ok nBuckets
  slot : (createEmptySlot c).1 ≠ createValueFail
  rest : Fills (· = nBuckets.toNat) (createEmptySlot c).2 c'
  filled : ∃ hashVector buckets,
    createKeyHashes fuel (createEmptySlot c).2 t.keys (UInt32.ofNat t.keys.length) = .ok hashVector ∧
    hashTablePopulate fuel (cmpCreate (createEmptySlot c).2) hashVector t.keys t.values
      (UInt32.ofNat t.keys.length)
      (.fresh t.values.isSome nBuckets (createEmptySlot c).1) nBuckets (createEmptySlot c).1
      = .ok buckets ∧
    buckets.Sized t.values.isSome nBuckets.toNat ∧ nBuckets.toNat ≠ 0 ∧
    FilledWith c' t.serializeHash buckets.hash ∧ FilledWith c' t.serializeKeys buckets.keys ∧
    ∀ handle values, t.serializeValues = some handle → buckets.values = some values →
      FilledWith c' handle values

theorem TableBuilt.fills {t : TableParts} {nBuckets : UInt32}
    (built : TableBuilt fuel c t nBuckets c') : Fills (· = nBuckets.toNat) c c' :=
  (emptySlot_fills _ built.slot).trans built.rest

theorem nBuckets_ne_zero {n nBuckets : UInt32} (done : hashComputeNBuckets n = .ok nBuckets) :
    nBuckets.toNat ≠ 0 := by
  obtain ⟨k, bound, rfl⟩ := hashComputeNBuckets_result done
  rw [toNat_two_pow bound]
  exact Nat.ne_of_gt (Nat.two_pow_pos k)

theorem hashTableCreate_built {handle : UInt32} (done : hashTableCreate fuel c handle = .ok c') :
    ∃ v t nBuckets, cvValueAt c handle = .ok v ∧ tableParts c v = .ok t ∧
      TableBuilt fuel c t nBuckets c' := by
  rw [hashTableCreate] at done
  obtain ⟨v, read, done⟩ := bind_eq_ok.mp done
  obtain ⟨t, parts, done⟩ := bind_eq_ok.mp done
  obtain ⟨nBuckets, computed, done⟩ := bind_eq_ok.mp done
  refine ⟨v, t, nBuckets, read, parts, ?_⟩
  dsimp only at done
  split at done
  · cases done
  rename_i succeeded
  obtain ⟨hashVector, hashes, done⟩ := bind_eq_ok.mp done
  obtain ⟨buckets, populated, done⟩ := bind_eq_ok.mp done
  have sized := populate_sized (fresh_sized _ _ _) populated
  have some_ := nBuckets_ne_zero computed
  obtain ⟨fills, filled⟩ := transferTable_fills sized some_ done
  exact ⟨computed, succeeded, fills, hashVector, buckets, hashes, populated, sized, some_, filled⟩

/-! ## All tables -/

/-- The table of the value `v` is built between two states on the way from `c` to `c'`. -/
def BuiltBetween (fuel : Nat) (c c' : Create) (v : CreateValue) : Prop :=
  ∃ c₁ c₂ t nBuckets, Fills (TableSize c) c c₁ ∧ tableParts c v = .ok t ∧
    TableBuilt fuel c₁ t nBuckets c₂ ∧ Fills (TableSize c) c₂ c'

theorem Fills.tableParts_eq (fills : Fills sizes c c') (v : CreateValue) :
    tableParts c' v = tableParts c v := by
  rw [fills.state]
  rfl

theorem createTables_built {c₀ : Create} {type : ValueType} {nValues : Nat}
    (earlier : Fills (TableSize c₀) c₀ c) (inside : nValues ≤ c₀.values.length)
    (room : nValues ≤ 2 ^ 32) (done : createTables fuel type nValues c = .ok c') :
    Fills (TableSize c₀) c c' ∧ ∀ (i : Nat) (v : CreateValue), i < nValues →
      c₀.values[i]? = some v → v.type = type → BuiltBetween fuel c₀ c' v := by
  refine foldlM_range_kept (I := fun k cc => Fills (TableSize c₀) c cc ∧
    ∀ (i : Nat) (v : CreateValue), i < k → c₀.values[i]? = some v → v.type = type →
      BuiltBetween fuel c₀ cc v)
    ⟨.refl _ c, fun i v less => absurd less (Nat.not_lt_zero i)⟩
    (fun k less cc cc' before round => ?_) done
  obtain ⟨fills, built⟩ := before
  have handle : (UInt32.ofNat k).toNat = k := toNat_handle (by omega)
  have here := List.getElem?_eq_getElem (show k < c₀.values.length by omega)
  have read : cvValueAt cc (UInt32.ofNat k) = .ok c₀.values[k] := by
    refine itemAt_eq_ok.mpr ?_
    rw [handle]
    exact (earlier.trans fills).value here
  have kept {cc' : Create} (step : Fills (TableSize c₀) cc cc') {i : Nat} {w : CreateValue}
      (less : i < k) (at_i : c₀.values[i]? = some w) (isType : w.type = type) :
      BuiltBetween fuel c₀ cc' w := by
    obtain ⟨c₁, c₂, t, nBuckets, before, parts, table, after⟩ := built i w less at_i isType
    exact ⟨c₁, c₂, t, nBuckets, before, parts, table, after.trans step⟩
  rw [read, ok_bind] at round
  split at round
  · obtain ⟨w, t, nBuckets, read', parts, table⟩ := hashTableCreate_built round
    cases Except.ok.inj (read.symm.trans read')
    rw [(earlier.trans fills).tableParts_eq] at parts
    have step : Fills (TableSize c₀) cc cc' := table.fills.mono fun n same =>
      ⟨_, List.getElem_mem _, t, nBuckets, parts, table.computed, same⟩
    refine ⟨fills.trans step, fun i w less' at_i isType => ?_⟩
    rcases Nat.lt_or_eq_of_le (Nat.le_of_lt_succ less') with old | rfl
    · exact kept step old at_i isType
    · cases Option.some.inj (here.symm.trans at_i)
      exact ⟨cc, cc', t, nBuckets, earlier.trans fills, parts, table, .refl _ cc'⟩
  · rename_i other
    cases round
    refine ⟨fills, fun i w less' at_i isType => ?_⟩
    rcases Nat.lt_or_eq_of_le (Nat.le_of_lt_succ less') with old | rfl
    · exact kept (.refl _ cc) old at_i isType
    · cases Option.some.inj (here.symm.trans at_i)
      exact absurd isType other

theorem BuiltBetween.mono {v : CreateValue} {c₁ : Create} (built : BuiltBetween fuel c c' v)
    (after : Fills (TableSize c) c' c₁) : BuiltBetween fuel c c₁ v := by
  obtain ⟨c₂, c₃, t, nBuckets, first, parts, table, last⟩ := built
  exact ⟨c₂, c₃, t, nBuckets, first, parts, table, last.trans after⟩

/-! ## The state that is written -/

theorem Becomes.fill {c₀ : Create} {v w : CreateValue} (fills : Fills sizes c₀ c')
    (ofTables : ∀ n, sizes n → TableSize c n) (becomes : Becomes c c₀.privVectorValues v w) :
    Becomes c c'.privVectorValues v w := by
  cases becomes with
  | same other => exact .same other
  | emptied isVector item none_ => exact .emptied isVector item none_
  | numbers item some_ item' => exact .numbers item some_ (fills.array item' some_)
  | handles isValue item some_ item' =>
      exact .handles isValue item some_ (fills.array item' some_)
  | compressed isItems isType item some_ item' =>
      exact .compressed isItems isType item some_ (fills.array item' some_)
  | table isVector isType item item' size =>
      obtain ⟨items, item'', same | ⟨-, filled⟩⟩ := fills.arrays _ _ item'
      · rw [same] at item''
        exact .table isVector isType item item'' size
      · exact .table isVector isType item item'' (Or.inr (ofTables _ filled))

/-- What is no vector of the library's stays what it is. -/
theorem Becomes.kept {arrays : List Dynarray} {v w : CreateValue} (becomes : Becomes c arrays v w)
    (other : v.pool ≠ some .priv) : w = v := by
  cases becomes with
  | same => rfl
  | emptied isVector => exact absurd (pool_priv isVector) other
  | @numbers t => exact absurd (pool_priv (Or.inr ⟨t, rfl⟩)) other
  | handles | compressed => exact absurd rfl other
  | table isVector =>
      refine absurd ?_ other
      rcases isVector with rfl | ⟨t, rfl⟩
      · rfl
      · cases t
        all_goals rfl

/-- A set or map is what it was. -/
theorem Becomes.table_same {arrays : List Dynarray} {v w : CreateValue}
    (becomes : Becomes c arrays v w) (isTable : w.type = .setValue ∨ w.type = .mapValueValue) :
    v = w := by
  have notVector (t : NumberType) :
      ¬(t.vectorType = .setValue ∨ t.vectorType = .mapValueValue) := by
    cases t
    all_goals simp [NumberType.vectorType]
  cases becomes with
  | same other => rfl
  | emptied => simp [CreateValue.plain] at isTable
  | @numbers t => exact absurd isTable (notVector t)
  | handles isValue => rcases isValue with rfl | rfl <;> simp [CreateValue.plain] at isTable
  | @compressed t => exact absurd isTable (notVector t)
  | @table type type' d d' array items isVector isType =>
      rcases isType with rfl | ⟨-, rfl⟩
      · rcases isVector with rfl | ⟨t, rfl⟩
        · simp at isTable
        · exact absurd isTable (notVector t)
      · simp at isTable

theorem type_of_tableParts {v : CreateValue} {t : TableParts} (parts : tableParts c v = .ok t) :
    v.type = .setValue ∨ v.type = .mapValueValue := by
  rw [tableParts] at parts
  split at parts
  · rename_i isSet
    exact Or.inl isSet
  · rename_i isMap
    exact Or.inr isMap
  · cases parts

/-- The sizes of the tables are known from the start. -/
theorem tableSize_prepared {c₀ : Create} {n : Nat}
    (all : AllBecome c c₀.privVectorValues c₀.values)
    (samePools : ∀ v, tableParts c₀ v = tableParts c v)
    (size : TableSize c₀ n) : TableSize c n := by
  obtain ⟨v, mem, t, nBuckets, parts, computed, same⟩ := size
  obtain ⟨i, inside, rfl⟩ := List.getElem_of_mem mem
  have less : i < c.values.length := by rwa [← all.length]
  obtain ⟨w, at_w, becomes⟩ := all.becomes i _ (List.getElem?_eq_getElem less)
  cases Option.some.inj ((List.getElem?_eq_getElem inside).symm.trans at_w)
  have kept := becomes.table_same (type_of_tableParts parts)
  refine ⟨_, List.getElem_mem less, t, nBuckets, ?_, computed, same⟩
  rw [kept, ← samePools]
  exact parts

/-- What the state `c` has been prepared to. -/
structure Prepares (fuel : Nat) (c : Create) (p : Prepared) : Prop where
  nValues : p.nValues = c.values.length
  values : ∃ n, p.c.values = p.c.values.take p.nValues ++ List.replicate n (.plain .emptySlot 0)
  becomes : AllBecome c p.c.privVectorValues (p.c.values.take p.nValues)
  settled : ∀ (i : Nat) (v w : CreateValue), c.values[i]? = some v →
    p.c.values[i]? = some w → Settled c v w
  ranked : Ranks.Ranked CreateValue.heapPool (fun v => v.data.toNat) (p.c.values.take p.nValues)
  pools : ∀ k ≠ Pool.priv, Ranks.count CreateValue.heapPool (p.c.values.take p.nValues) k
    = Ranks.count CreateValue.pool c.values k
  nPrivVectors : p.nPrivVectors
    = UInt32.ofNat (Ranks.count CreateValue.heapPool (p.c.values.take p.nValues) .priv)
  nOutsideVectors : p.nOutsideVectors
    = UInt32.ofNat (Ranks.count CreateValue.heapPool (p.c.values.take p.nValues) .outside)
  nSets : p.nSets
    = UInt32.ofNat (Ranks.count CreateValue.heapPool (p.c.values.take p.nValues) .set)
  nMaps : p.nMaps
    = UInt32.ofNat (Ranks.count CreateValue.heapPool (p.c.values.take p.nValues) .map)
  others : p.c = { c with
    values := p.c.values, cache := p.c.cache, privVectorValues := p.c.privVectorValues }
  version : c.version = 2
  root : c.root ≠ uint32Max
  built : ∃ c₀, Fills (TableSize c₀) c₀ p.c ∧ SlotCached c₀ ∧
    c₀.values = p.c.values.take p.nValues ∧
    AllBecome c c₀.privVectorValues c₀.values ∧
    ∀ (i : Nat) (v : CreateValue), c₀.values[i]? = some v →
      v.type = .setValue ∨ v.type = .mapValueValue → BuiltBetween fuel c₀ p.c v

/-- The vectors, before any table is filled. -/
theorem prepareVectors_spec (wf : WellFormed c) (shaped : Shaped c) {c₀ : Create} {s : Numbering}
    (done : prepareVectors c = .ok (c₀, s)) :
    AllBecome c c₀.privVectorValues c₀.values ∧
      (∀ (i : Nat) (v w : CreateValue), c.values[i]? = some v → c₀.values[i]? = some w →
        Settled c v w) ∧
      Renumbered c c.values c₀.values { s with newPrivVectorValues := c₀.privVectorValues } ∧
      c₀ = { c with values := c₀.values, privVectorValues := c₀.privVectorValues } := by
  rw [prepareVectors] at done
  obtain ⟨⟨values, s'⟩, renumber, done⟩ := bind_eq_ok.mp done
  have renumbered := renumberValues_renumbered wf shaped (List.nil_append _).symm
    (renumbered_nil c) renumber
  rw [List.nil_append] at renumbered
  obtain ⟨marker, -, done⟩ := bind_eq_ok.mp done
  obtain ⟨tagged, mark, done⟩ := bind_eq_ok.mp done
  obtain ⟨c₁, compress, same⟩ := bind_eq_ok.mp done
  cases same
  obtain ⟨before, retagged⟩ := markHashable_becomes ⟨renumbered.length, renumbered.becomes⟩ mark
  have start : Compressed c { c with values := tagged, privVectorValues := s.newPrivVectorValues } 0
      { c with values := tagged, privVectorValues := s.newPrivVectorValues } :=
    ⟨rfl, before, .refl _, fun i v w less => absurd less (Nat.not_lt_zero i)⟩
  have finished := foldlM_range_kept (I := fun n cc => n ≤ c.values.length → Compressed c
      { c with values := tagged, privVectorValues := s.newPrivVectorValues } n cc)
    (fun _ => start) (fun i less cc cc' held round inside =>
      (held (Nat.le_of_succ_le inside)).step shaped inside round) compress
      (Nat.le_of_eq before.length)
  have arrays : c₀.privVectorValues = s.newPrivVectorValues := by rw [finished.state]
  have retagged' := retagged.trans finished.retagged
  have counts (p : Pool) := Ranks.count_eq_of_map retagged'.pools p
  refine ⟨by rw [arrays]; exact finished.becomes, fun i v w at_v at_w => ?_, ?_, ?_⟩
  · refine finished.settled i v w ?_ at_v at_w
    rw [before.length]
    exact (List.getElem?_eq_some_iff.mp at_v).1
  · rw [arrays]
    refine ⟨finished.becomes.length, finished.becomes.becomes,
      renumbered.ranked.of_map retagged'.pools retagged'.data, ?_, fun p isOther => ?_, ?_, ?_, ?_, ?_⟩
    · rw [counts]
      exact renumbered.arrays
    · rw [counts]
      exact renumbered.others p isOther
    · rw [counts]
      exact renumbered.nPrivVectors
    · rw [counts]
      exact renumbered.nOutsideVectors
    · rw [counts]
      exact renumbered.nSets
    · rw [counts]
      exact renumbered.nMaps
  · rw [finished.state]

theorem prepare_prepares (reachable : CreateReachable c) {p : Prepared}
    (done : prepare fuel c = .ok p) : Prepares fuel c p := by
  obtain ⟨wf, shaped⟩ := reachable.shaped
  have room := shaped.room
  rw [prepare] at done
  split at done
  · cases done
  rename_i version
  split at done
  · cases done
  rename_i root
  obtain ⟨⟨c₀, s⟩, vectors, done⟩ := bind_eq_ok.mp done
  obtain ⟨before, settled, renumbered, others⟩ := prepareVectors_spec wf shaped vectors
  obtain ⟨c₁, sets, done⟩ := bind_eq_ok.mp done
  obtain ⟨c₂, maps, done⟩ := bind_eq_ok.mp done
  cases done
  have length : c₀.values.length = c.values.length := before.length
  have inside := Nat.le_of_eq length.symm
  obtain ⟨fillsSets, builtSets⟩ :=
    createTables_built (.refl _ c₀) inside (Nat.le_of_lt room) sets
  obtain ⟨fillsMaps, builtMaps⟩ := createTables_built fillsSets inside (Nat.le_of_lt room) maps
  have fills := fillsSets.trans fillsMaps
  obtain ⟨m, values⟩ := fills.values
  have own : c₂.values.take c.values.length = c₀.values := by
    rw [values, ← length, List.take_left]
  refine ⟨rfl, ⟨m, by rw [own]; exact values⟩, ?_, ?_, ?_, ?_, ?_, ?_, ?_, ?_, ?_,
    not_not.mp version, root, c₀, fills, ?_, own.symm, before, ?_⟩
  · rw [own]
    refine ⟨length, fun i v at_i => ?_⟩
    obtain ⟨w, at_w, becomes⟩ := before.becomes i v at_i
    have samePools (v : CreateValue) : tableParts c₀ v = tableParts c v := by
      rw [others]
      rfl
    exact ⟨w, at_w, becomes.fill fills fun n => tableSize_prepared before samePools⟩
  · intro i v w at_v at_w
    obtain ⟨u, at_u, -⟩ := before.becomes i v at_v
    cases Option.some.inj ((fills.value at_u).symm.trans at_w)
    exact settled i v w at_v at_u
  · rw [own]
    exact renumbered.ranked
  · intro k isOther
    rw [own]
    exact renumbered.others k isOther
  · rw [own]
    exact renumbered.nPrivVectors
  · rw [own]
    exact renumbered.nOutsideVectors
  · rw [own]
    exact renumbered.nSets
  · rw [own]
    exact renumbered.nMaps
  · rw [fills.state, others]
  · have cache : c₀.cache = c.cache := by rw [others]
    rw [SlotCached, cache, length]
    by_cases known : c.cache.emptySlotHandle = createValueFail
    · exact Or.inl ⟨known, room⟩
    · obtain ⟨w, at_w, becomes⟩ := before.becomes _ _ (wf.cache.emptySlot known)
      rw [becomes.kept nofun] at at_w
      exact Or.inr ⟨known, at_w⟩
  · intro i v at_i isTable
    have less : i < c.values.length := by
      rw [← length]
      exact (List.getElem?_eq_some_iff.mp at_i).1
    rcases isTable with isSet | isMap
    · exact (builtSets i v less at_i isSet).mono fillsMaps
    · exact builtMaps i v less at_i isMap

end Pointless
