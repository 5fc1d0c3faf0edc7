import Pointless.Layout

/-!
# Where a value finds its object

The five offset tables cut the row of all objects, which stand pool by pool: a value has its
entry behind those of the earlier values of its pool. `Written.object` is what a reader
finds there.
-/

namespace Pointless

open ByteMemory ExceptRules Placement Ranks

variable {c : Create} {fuel : Nat} {p : Prepared} {w : CreateValue} {k : Pool}

/-! ## The row of objects -/

/-- The pools that are written before a pool. -/
def Pool.before : Pool → List Pool
  | .text => []
  | .priv => [.text]
  | .outside => [.text, .priv]
  | .bits => [.text, .priv, .outside]
  | .set => [.text, .priv, .outside, .bits]
  | .map => [.text, .priv, .outside, .bits, .set]

/-- How many objects a pool has. -/
def poolCount (p : Prepared) (k : Pool) : Nat := count CreateValue.heapPool p.values k

/-- How many objects are written before those of a pool. -/
def poolStart (p : Prepared) (k : Pool) : Nat := (k.before.map (poolCount p)).sum

theorem heapOrder_split (k : Pool) : ∃ after, heapOrder = k.before ++ k :: after := by
  cases k
  all_goals exact ⟨_, rfl⟩

theorem Prepares.object (prepares : Prepares fuel c p) (mem : w ∈ p.values)
    (pool : w.heapPool = some k) :
    (heapObjects p)[poolStart p k + w.data.toNat]? = some w := by
  obtain ⟨i, inside, rfl⟩ := List.getElem_of_mem mem
  have here := prepares.ranked.members_rank (List.getElem?_eq_getElem inside) pool
  obtain ⟨after, order⟩ := heapOrder_split k
  rw [heapObjects, order]
  exact members_flatMap_getElem? k.before after here

theorem Prepares.data_lt (prepares : Prepares fuel c p) (mem : w ∈ p.values)
    (pool : w.heapPool = some k) : w.data.toNat < poolCount p k := by
  obtain ⟨i, inside, rfl⟩ := List.getElem_of_mem mem
  exact prepares.ranked.lt_count (List.getElem?_eq_getElem inside) pool

theorem before_unique {before after : List Pool} (order : heapOrder = before ++ k :: after) :
    before = k.before := by
  have distinct : (before ++ k :: after).Nodup := by
    rw [← order]
    decide
  have absent : k ∉ before := fun mem =>
    List.disjoint_of_nodup_append distinct mem List.mem_cons_self
  have cut : k.before = heapOrder.takeWhile (· ≠ k) := by
    cases k
    all_goals rfl
  have passed : ∀ k' ∈ before, decide (k' ≠ k) = true := by
    intro k' mem
    refine decide_eq_true fun same => absent ?_
    rwa [← same]
  have stop : (k :: after).takeWhile (· ≠ k) = [] :=
    List.takeWhile_cons_of_neg (by rw [decide_eq_true_iff]; exact fun other => other rfl)
  rw [cut, order, List.takeWhile_append_of_pos passed, stop, List.append_nil]

/-- An object is that of a value, and where it is says which index the value has. -/
theorem Prepares.index_of_object (prepares : Prepares fuel c p) {i : Nat}
    (at_i : (heapObjects p)[i]? = some w) :
    w ∈ p.values ∧ ∃ k, w.heapPool = some k ∧ i = poolStart p k + w.data.toNat := by
  obtain ⟨before, k, after, r, order, at_r, index⟩ := exists_of_members_flatMap at_i
  obtain ⟨mem, pool⟩ := mem_members.mp (List.mem_of_getElem? at_r)
  have rank : w.data.toNat = r := prepares.ranked.of_members at_r
  refine ⟨mem, k, pool, ?_⟩
  rw [rank, poolStart, ← before_unique order]
  exact index

theorem length_heapObjects (p : Prepared) :
    (heapObjects p).length = poolCount p .text + (poolCount p .priv + poolCount p .outside) +
      poolCount p .bits + poolCount p .set + poolCount p .map := by
  rw [heapObjects, length_members_flatMap, heapOrder]
  simp only [List.map_cons, List.map_nil, List.sum_cons, List.sum_nil, poolCount]
  omega

/-- The pools hold different values. -/
theorem length_heapObjects_le (p : Prepared) : (heapObjects p).length ≤ p.values.length := by
  rw [heapObjects, length_members_flatMap]
  induction p.values with
  | nil => exact Nat.le_refl _
  | cons v rest ih =>
      have one : (heapOrder.map fun k => if v.heapPool = some k then 1 else 0).sum ≤ 1 := by
        cases v.heapPool with
        | none => exact Nat.zero_le _
        | some k =>
            cases k
            all_goals exact Nat.le_refl _
      have split : (heapOrder.map (count CreateValue.heapPool (v :: rest))).sum
          = (heapOrder.map fun k => if v.heapPool = some k then 1 else 0).sum
            + (heapOrder.map (count CreateValue.heapPool rest)).sum := by
        rw [← List.sum_map_add]
        exact congrArg List.sum (List.map_congr_left fun k _ => count_cons v rest k)
      rw [split, List.length_cons]
      omega

/-! ## The counts of the header -/

/-- The header counts the objects of each table. -/
structure CountsObjects (p : Prepared) (header : Header) : Prop where
  texts : header.nStringUnicode.toNat = poolCount p .text
  vectors : header.nVector.toNat = poolCount p .priv + poolCount p .outside
  bitvectors : header.nBitvector.toNat = poolCount p .bits
  sets : header.nSet.toNat = poolCount p .set
  maps : header.nMap.toNat = poolCount p .map
  priv : p.nPrivVectors.toNat = poolCount p .priv

theorem Prepares.length_values (prepares : Prepares fuel c p) :
    p.values.length = c.values.length := prepares.becomes.length

theorem Prepares.counts (prepares : Prepares fuel c p) (wf : WellFormed c) (shaped : Shaped c)
    {header : Header} (isHeader : outputHeader p = .ok header) : CountsObjects p header := by
  obtain ⟨root, -, same⟩ := bind_eq_ok.mp isHeader
  cases same
  have room : (heapObjects p).length < 2 ^ 32 :=
    Nat.lt_of_le_of_lt (length_heapObjects_le p) (by rw [prepares.length_values]; exact shaped.room)
  rw [length_heapObjects] at room
  have pools (k : Pool) (other : k ≠ .priv) : poolCount p k = c.poolSize k :=
    (prepares.pools k other).trans (wf.pools.size k)
  have size {n : Nat} (less : n < 2 ^ 32) : (UInt32.ofNat n).toNat = n := toNat_handle less
  have priv : p.nPrivVectors.toNat = poolCount p .priv := by
    rw [prepares.nPrivVectors]
    exact size (n := poolCount p .priv) (by omega)
  have outside : p.nOutsideVectors.toNat = poolCount p .outside := by
    rw [prepares.nOutsideVectors]
    exact size (n := poolCount p .outside) (by omega)
  have texts := pools .text nofun
  have bitvectors := pools .bits nofun
  refine ⟨?_, ?_, ?_, ?_, ?_, priv⟩
  · change p.c.stringUnicodeMapJudyCount.toNat = _
    rw [prepares.others]
    change c.stringUnicodeMapJudyCount.toNat = _
    rw [wf.texts.count, texts]
    exact size (by rw [← show c.poolSize .text = c.stringUnicodeValues.length from rfl]; omega)
  · change (p.nPrivVectors + p.nOutsideVectors).toNat = _
    rw [UInt32.toNat_add, priv, outside, Nat.mod_eq_of_lt (by omega)]
  · change p.c.bitvectorMapJudyCount.toNat = _
    rw [prepares.others]
    change c.bitvectorMapJudyCount.toNat = _
    rw [wf.bitvectors.count, bitvectors]
    exact size (by rw [← show c.poolSize .bits = c.bitvectorValues.length from rfl]; omega)
  · change p.nSets.toNat = _
    rw [prepares.nSets]
    exact size (n := poolCount p .set) (by omega)
  · change p.nMaps.toNat = _
    rw [prepares.nMaps]
    exact size (n := poolCount p .map) (by omega)

theorem CountsObjects.nOffsets {header : Header} (counts : CountsObjects p header) :
    header.nOffsets = (heapObjects p).length := by
  rw [Header.nOffsets, counts.texts, counts.vectors, counts.bitvectors, counts.sets, counts.maps,
    length_heapObjects]

/-! ## The entry of an object -/

/-- The offset table of a pool. -/
def OpenFile.offsetsOf (f : OpenFile) : Pool → List UInt64
  | .text => f.stringUnicodeOffsets
  | .priv | .outside => f.vectorOffsets
  | .bits => f.bitvectorOffsets
  | .set => f.setOffsets
  | .map => f.mapOffsets

/-- The index that a file refers to the object of a value by. -/
def readData (p : Prepared) (v : CreateValue) : UInt32 :=
  if v.isOutsideVector then v.data + p.nPrivVectors else v.data

theorem entries_getElem? {offsets : List Nat} {start n i off : Nat} (less : i < n)
    (at_i : offsets[start + i]? = some off) :
    (entries offsets start n)[i]? = some (UInt64.ofNat off) := by
  rw [entries, List.getElem?_map, List.getElem?_take_of_lt less, List.getElem?_drop, at_i]
  rfl

/-- Only the vectors of the pool of the callers' are marked as such. -/
theorem WrittenShape.outside_iff (shape : WrittenShape w) (pool : w.heapPool = some k) :
    w.isOutsideVector = true ↔ k = .outside := by
  constructor
  · intro owned
    exact Option.some.inj (pool.symm.trans (shape.owned owned))
  · rintro rfl
    obtain ⟨type, compressed, table, outside, d⟩ := w
    cases outside with
    | true => rfl
    | false =>
        cases type
        all_goals cases pool

/-- The entry of an object is at the index that the file refers to it by. -/
theorem CountsObjects.offset {header : Header} (counts : CountsObjects p header)
    (shape : WrittenShape w) (pool : w.heapPool = some k) (less : w.data.toNat < poolCount p k)
    (room : (heapObjects p).length < 2 ^ 32) {offsets : List Nat} {heap : List UInt8} {off : Nat}
    (entry : offsets[poolStart p k + w.data.toNat]? = some off) :
    ((fileOf header offsets heap).offsetsOf k)[(readData p w).toNat]?
      = some (UInt64.ofNat off) := by
  have isOutside := shape.outside_iff pool
  have own (other : k ≠ .outside) : readData p w = w.data :=
    if_neg fun owned => other (isOutside.mp owned)
  rw [length_heapObjects] at room
  simp only [poolStart, Pool.before] at entry
  cases k
  all_goals simp only [List.map_cons, List.map_nil, List.sum_cons, List.sum_nil, Nat.add_zero] at entry
  case text =>
    rw [own nofun]
    exact entries_getElem? (by rw [counts.texts]; exact less) entry
  case priv =>
    rw [own nofun]
    refine entries_getElem? (by rw [counts.vectors]; omega) ?_
    rw [counts.texts]
    exact entry
  case outside =>
    have index : (readData p w).toNat = poolCount p .priv + w.data.toNat := by
      rw [readData, if_pos (isOutside.mpr rfl), UInt32.toNat_add, counts.priv, Nat.add_comm,
        Nat.mod_eq_of_lt (by omega)]
    rw [index]
    refine entries_getElem? (by rw [counts.vectors]; omega) ?_
    rw [counts.texts, ← Nat.add_assoc]
    exact entry
  case bits =>
    rw [own nofun]
    refine entries_getElem? (by rw [counts.bitvectors]; exact less) ?_
    rw [counts.texts, counts.vectors]
    exact entry
  case set =>
    rw [own nofun]
    refine entries_getElem? (by rw [counts.sets]; exact less) ?_
    rw [counts.texts, counts.vectors, counts.bitvectors]
    simpa only [Nat.add_assoc] using entry
  case map =>
    rw [own nofun]
    refine entries_getElem? (by rw [counts.maps]; exact less) ?_
    rw [counts.texts, counts.vectors, counts.bitvectors, counts.sets]
    simpa only [Nat.add_assoc] using entry

/-! ## The heap -/

theorem padded_extends (sink b : List UInt8) : sink ++ b <+: padded sink b := List.prefix_append _ _

theorem foldl_padded_extends (bytes : List (List UInt8)) (sink : List UInt8) :
    sink <+: bytes.foldl padded sink := by
  induction bytes generalizing sink with
  | nil => exact List.prefix_refl _
  | cons b rest ih =>
      exact ((List.prefix_append sink b).trans (padded_extends sink b)).trans (ih _)

/-- Every object stands on the heap at its place. -/
theorem holds_padded {bytes : List (List UInt8)} {i : Nat} {b : List UInt8}
    (at_i : bytes[i]? = some b) (sink : List UInt8) :
    ∃ off, (places 4 sink.length (sizes bytes))[i]? = some off ∧
      Holds (bytes.foldl padded sink) off b := by
  induction bytes generalizing sink i with
  | nil => cases at_i
  | cons b' rest ih =>
      cases i with
      | zero =>
          cases at_i
          refine ⟨sink.length, rfl, ?_⟩
          obtain ⟨after, whole⟩ := (padded_extends sink b).trans (foldl_padded_extends rest _)
          rw [List.foldl_cons, ← whole]
          exact holds_append sink b after
      | succ i =>
          obtain ⟨off, place, holds⟩ := ih at_i (padded sink b')
          rw [length_padded] at place
          exact ⟨off, place, holds⟩

end Pointless
