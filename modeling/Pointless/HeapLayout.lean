import Pointless.ObjectPlaces

/-!
# The offset tables and the heap

Each table of a written file has one entry for every object of its kind (`TableLaid.count`),
in the order of the indices that values name the objects by. Whether the entries are where
the objects are depends on the vectors: the size of a vector is announced in 32 bits, so that
everything behind a larger one is looked for too early.
-/

namespace Pointless

open ByteMemory ExceptRules Placement Ranks

variable {c : Create} {fuel : Nat} {p : Prepared} {v w : CreateValue}

/-! ## Laid tables -/

/-- An offset table: what has an entry in it, the entries, and the count of the header. -/
structure OffsetTable where
  has : CreateValue → Bool
  offsets : OpenFile → List UInt64
  count : Header → UInt32

/-- The five offset tables of a file. -/
def offsetTables : List OffsetTable :=
  [⟨isStringUnicode, OpenFile.stringUnicodeOffsets, Header.nStringUnicode⟩,
    ⟨fun v => isVectorType v.type, OpenFile.vectorOffsets, Header.nVector⟩,
    ⟨fun v => v.type == .bitvector, OpenFile.bitvectorOffsets, Header.nBitvector⟩,
    ⟨fun v => v.type == .setValue, OpenFile.setOffsets, Header.nSet⟩,
    ⟨fun v => v.type == .mapValueValue, OpenFile.mapOffsets, Header.nMap⟩]

/-- The objects of a table. -/
def OffsetTable.objects (t : OffsetTable) (log : List (CreateValue × Nat)) :
    List (CreateValue × Nat) :=
  log.filter fun entry => t.has entry.1

/-- The table fits the log of the heap pass, and each of its entries leads to the bytes of its
object. -/
structure TableLaid (p : Prepared) (f : OpenFile) (log : List (CreateValue × Nat))
    (t : OffsetTable) : Prop where
  positions : (t.offsets f).map (fun off => f.header.mandatorySize + off.toNat)
    = (t.objects log).map Prod.snd
  aligned : ∀ off ∈ t.offsets f, 4 ∣ off.toNat
  count : (t.count f.header).toNat = (t.objects log).length
  indexed : ∀ (i : Nat) (v : CreateValue) (position : Nat),
    (t.objects log)[i]? = some (v, position) → (readData p v).toNat = i
  stored : ∀ (i : Nat) (off : UInt64) (v : CreateValue) (position : Nat),
    (t.offsets f)[i]? = some off → (t.objects log)[i]? = some (v, position) →
    ∃ b, objectBytes p v = .ok b ∧ Holds f.heap off.toNat b

/-- The file written for `c` has its tables laid for its heap. -/
def HeapLaid (fuel : Nat) (c : Create) (file : List UInt8) : Prop :=
  ∃ p f log, prepare fuel c = .ok p ∧ init file = .ok (f, none) ∧ heapLog p = .ok log ∧
    ∀ t ∈ offsetTables, TableLaid p f log t

/-! ## The tables as segments -/

/-- The elements that a test holds of stand in a row. -/
theorem filter_segment {α : Type} {l : List α} {test : α → Bool} {start n : Nat}
    (inside : ∀ i x, l[i]? = some x → (test x = true ↔ start ≤ i ∧ i < start + n)) :
    l.filter test = (l.drop start).take n := by
  induction l generalizing start n with
  | nil => rw [List.drop_nil, List.take_nil, List.filter_nil]
  | cons x rest ih =>
      have first := inside 0 x rfl
      cases start with
      | succ s =>
          rw [List.filter_cons_of_neg (by rw [first]; omega), List.drop_succ_cons]
          refine ih fun i y at_i => ?_
          rw [inside (i + 1) y at_i]
          omega
      | zero =>
          cases n with
          | zero =>
              rw [List.filter_cons_of_neg (by rw [first]; omega), List.take_zero]
              refine (@ih 0 0 fun i y at_i => ?_).trans List.take_zero
              rw [inside (i + 1) y at_i]
              omega
          | succ m =>
              rw [List.filter_cons_of_pos (by rw [first]; omega), List.drop_zero,
                List.take_succ_cons]
              refine congrArg (x :: ·) (@ih 0 m fun i y at_i => ?_)
              rw [inside (i + 1) y at_i]
              omega

/-- A table has the objects of some pools, which are written one after the other. -/
structure OffsetTable.Spans (t : OffsetTable) (before pools after : List Pool) : Prop where
  order : heapOrder = before ++ (pools ++ after)
  has : ∀ (v : CreateValue) (k : Pool), v.heapPool = some k → (t.has v = true ↔ k ∈ pools)
  starts : ∀ k ∈ pools, k.before = before ++ if k = .outside then [.priv] else []
  offsets : ∀ (p : Prepared) (header : Header), CountsObjects p header →
    ∀ (offsets : List Nat) (heap : List UInt8), t.offsets (fileOf header offsets heap)
      = entries offsets (before.map (poolCount p)).sum (pools.map (poolCount p)).sum
  count : ∀ (p : Prepared) (header : Header), CountsObjects p header →
    (t.count header).toNat = (pools.map (poolCount p)).sum

/-- A table of one pool. -/
theorem has_pool {k₀ : Pool} {has : CreateValue → Bool}
    (same : ∀ v : CreateValue, has v = decide (v.heapPool = some k₀)) (v : CreateValue) (k : Pool)
    (pool : v.heapPool = some k) : has v = true ↔ k ∈ [k₀] := by
  rw [same, pool, decide_eq_true_iff, Option.some.injEq, List.mem_singleton]

/-- A vector with an object is the library's or a caller's. -/
theorem isVectorType_pool (v : CreateValue) (k : Pool) (pool : v.heapPool = some k) :
    isVectorType v.type = true ↔ k ∈ [Pool.priv, Pool.outside] := by
  obtain ⟨type, compressed, table, outside, d⟩ := v
  cases type
  all_goals
    cases outside
    all_goals
      cases pool
      all_goals simp [isVectorType]

/-- Every table spans pools. -/
theorem spans_of_mem {t : OffsetTable} (mem : t ∈ offsetTables) :
    ∃ before pools after, t.Spans before pools after := by
  simp only [offsetTables, List.mem_cons, List.not_mem_nil, or_false] at mem
  rcases mem with rfl | rfl | rfl | rfl | rfl
  · refine ⟨[], [.text], _, rfl, has_pool fun v => (offsets_select v).1, by decide,
      fun p header counts offsets heap => ?_, fun p header counts => counts.texts⟩
    change entries offsets 0 header.nStringUnicode.toNat = _
    rw [counts.texts]
    rfl
  · refine ⟨[.text], [.priv, .outside], _, rfl, isVectorType_pool, by decide,
      fun p header counts offsets heap => ?_, fun p header counts => counts.vectors⟩
    change entries offsets header.nStringUnicode.toNat header.nVector.toNat = _
    rw [counts.texts, counts.vectors]
    rfl
  · refine ⟨[.text, .priv, .outside], [.bits], _, rfl,
      has_pool fun v => (offsets_select v).2.2.2.1, by decide,
      fun p header counts offsets heap => ?_, fun p header counts => counts.bitvectors⟩
    change entries offsets (header.nStringUnicode.toNat + header.nVector.toNat)
      header.nBitvector.toNat = _
    rw [counts.texts, counts.vectors, counts.bitvectors]
    rfl
  · refine ⟨[.text, .priv, .outside, .bits], [.set], _, rfl,
      has_pool fun v => (offsets_select v).2.2.2.2.1, by decide,
      fun p header counts offsets heap => ?_, fun p header counts => counts.sets⟩
    change entries offsets (header.nStringUnicode.toNat + header.nVector.toNat +
      header.nBitvector.toNat) header.nSet.toNat = _
    rw [counts.texts, counts.vectors, counts.bitvectors, counts.sets]
    simp only [List.map_cons, List.map_nil, List.sum_cons, List.sum_nil, Nat.add_zero, Nat.add_assoc]
  · refine ⟨[.text, .priv, .outside, .bits, .set], [.map], [], rfl,
      has_pool fun v => (offsets_select v).2.2.2.2.2, by decide,
      fun p header counts offsets heap => ?_, fun p header counts => counts.maps⟩
    change entries offsets (header.nStringUnicode.toNat + header.nVector.toNat +
      header.nBitvector.toNat + header.nSet.toNat) header.nMap.toNat = _
    rw [counts.texts, counts.vectors, counts.bitvectors, counts.sets, counts.maps]
    simp only [List.map_cons, List.map_nil, List.sum_cons, List.sum_nil, Nat.add_zero, Nat.add_assoc]

/-- Every object has an entry in some table. -/
theorem exists_table {v : CreateValue} {k : Pool} (pool : v.heapPool = some k) :
    ∃ t ∈ offsetTables, t.has v = true := by
  have only (k₀ : Pool) {has : CreateValue → Bool}
      (same : ∀ v : CreateValue, has v = decide (v.heapPool = some k₀)) (here : k = k₀) :
      has v = true := by
    rw [same, pool, here]
    exact decide_eq_true rfl
  cases k
  case text => exact ⟨_, .head _, only .text (fun v => (offsets_select v).1) rfl⟩
  case priv | outside =>
    exact ⟨_, .tail _ (.head _), (isVectorType_pool v _ pool).mpr (by simp)⟩
  case bits =>
    exact ⟨_, .tail _ (.tail _ (.head _)), only .bits (fun v => (offsets_select v).2.2.2.1) rfl⟩
  case set =>
    exact ⟨_, .tail _ (.tail _ (.tail _ (.head _))),
      only .set (fun v => (offsets_select v).2.2.2.2.1) rfl⟩
  case map =>
    exact ⟨_, .tail _ (.tail _ (.tail _ (.tail _ (.head _)))),
      only .map (fun v => (offsets_select v).2.2.2.2.2) rfl⟩

theorem poolStart_split {before after : List Pool} {k : Pool}
    (order : heapOrder = before ++ k :: after) (p : Prepared) :
    poolStart p k = (before.map (poolCount p)).sum := by
  rw [poolStart, before_unique order]

/-- An object has an entry in a table exactly if it stands in the row of the table. -/
theorem OffsetTable.Spans.mem_iff {t : OffsetTable} {before pools after : List Pool}
    (spans : t.Spans before pools after) {k : Pool} {r : Nat} (less : r < poolCount p k) :
    k ∈ pools ↔ (before.map (poolCount p)).sum ≤ poolStart p k + r ∧
      poolStart p k + r < (before.map (poolCount p)).sum + (pools.map (poolCount p)).sum := by
  have order := spans.order
  have distinct : (before ++ (pools ++ after)).Nodup := by
    rw [← order]
    decide
  have here : k ∈ before ++ (pools ++ after) := by
    rw [← order]
    cases k
    all_goals decide
  rcases List.mem_append.mp here with earlier | later
  · obtain ⟨front, back, rfl⟩ := List.append_of_mem earlier
    have start := poolStart_split (order.trans (List.append_assoc _ _ _)) p
    have absent : k ∉ pools := fun mem =>
      List.disjoint_of_nodup_append distinct earlier (List.mem_append_left _ mem)
    refine ⟨fun mem => absurd mem absent, fun inside => ?_⟩
    rw [start, List.map_append, List.sum_append, List.map_cons, List.sum_cons] at inside
    omega
  · rcases List.mem_append.mp later with mem | later
    · obtain ⟨front, back, rfl⟩ := List.append_of_mem mem
      have split : heapOrder = (before ++ front) ++ k :: (back ++ after) := by
        rw [order]
        simp only [List.append_assoc, List.cons_append]
      rw [poolStart_split split p, List.map_append, List.sum_append, List.map_append,
        List.sum_append, List.map_cons, List.sum_cons]
      refine ⟨fun _ => ⟨by omega, by omega⟩, fun _ => mem⟩
    · obtain ⟨front, back, rfl⟩ := List.append_of_mem later
      have split : heapOrder = (before ++ pools ++ front) ++ k :: back := by
        rw [order]
        simp only [List.append_assoc]
      have absent : k ∉ pools := fun mem =>
        List.disjoint_of_nodup_append (List.nodup_append.mp distinct).2.1 mem later
      refine ⟨fun mem => absurd mem absent, fun inside => ?_⟩
      rw [poolStart_split split p, List.map_append, List.sum_append, List.map_append,
        List.sum_append] at inside
      omega

/-- The values that are written, each with a position. -/
theorem OffsetTable.Spans.objects_eq {t : OffsetTable} {before pools after : List Pool}
    (spans : t.Spans before pools after) (prepares : Prepares fuel c p) (positions : List Nat) :
    t.objects ((heapObjects p).zip positions)
      = (((heapObjects p).zip positions).drop (before.map (poolCount p)).sum).take
          (pools.map (poolCount p)).sum := by
  refine filter_segment fun i entry at_i => ?_
  obtain ⟨v, position⟩ := entry
  obtain ⟨at_v, -⟩ := List.getElem?_zip_eq_some.mp at_i
  obtain ⟨mem, k, pool, rfl⟩ := prepares.index_of_object at_v
  exact (spans.has v k pool).trans (spans.mem_iff (prepares.data_lt mem pool))

/-! ## Positions and offsets -/

/-- The heap that is written for `c`, with the offsets that are announced for it. -/
structure LaidOut (fuel : Nat) (c : Create) (p : Prepared) (header : Header)
    (bytes : List (List UInt8)) : Prop where
  prepares : Prepares fuel c p
  wf : WellFormed c
  shaped : Shaped c
  isHeader : outputHeader p = .ok header
  hasBytes : HasBytes p (heapObjects p) bytes
  narrow : ∀ off ∈ places 4 0 (announcedSizes (heapObjects p) bytes), off < 2 ^ 64

section LaidOut

variable {header : Header} {bytes : List (List UInt8)}

/-- The offsets that are written. -/
abbrev offsetsOf (p : Prepared) (bytes : List (List UInt8)) : List Nat :=
  places 4 0 (announcedSizes (heapObjects p) bytes)

/-- The log of the heap pass. -/
abbrev logOf (p : Prepared) (bytes : List (List UInt8)) : List (CreateValue × Nat) :=
  (heapObjects p).zip ((places 4 0 (sizes bytes)).map (heapStart p + ·))

theorem LaidOut.counts (laid : LaidOut fuel c p header bytes) : CountsObjects p header :=
  laid.prepares.counts laid.wf laid.shaped laid.isHeader

theorem LaidOut.length_offsets (laid : LaidOut fuel c p header bytes) :
    (offsetsOf p bytes).length = (heapObjects p).length := by
  rw [length_places, length_announcedSizes laid.hasBytes]

theorem LaidOut.length_positions (laid : LaidOut fuel c p header bytes) :
    (places 4 0 (sizes bytes)).length = (heapObjects p).length := by
  rw [length_places, List.length_map, laid.hasBytes.length_eq]

theorem LaidOut.mandatorySize (laid : LaidOut fuel c p header bytes) :
    header.mandatorySize = heapStart p := by
  rw [header.mandatorySize_eq, laid.counts.nOffsets, heapStart]

/-- The offsets of a table, as positions in the file. -/
theorem LaidOut.offsets_eq (laid : LaidOut fuel c p header bytes) {t : OffsetTable}
    {before pools after : List Pool} (spans : t.Spans before pools after) (heap : List UInt8) :
    (t.offsets (fileOf header (offsetsOf p bytes) heap)).map
        (fun off => header.mandatorySize + off.toNat)
      = (((offsetsOf p bytes).map (heapStart p + ·)).drop (before.map (poolCount p)).sum).take
          (pools.map (poolCount p)).sum := by
  rw [spans.offsets p header laid.counts, entries, List.map_map, ← List.map_drop, ← List.map_take,
    laid.mandatorySize]
  refine List.map_congr_left fun off mem => ?_
  have small : off < 2 ^ 64 := laid.narrow off (List.mem_of_mem_drop (List.mem_of_mem_take mem))
  exact congrArg (heapStart p + ·) (Nat.mod_eq_of_lt small)

theorem LaidOut.positions_eq (laid : LaidOut fuel c p header bytes) {t : OffsetTable}
    {before pools after : List Pool} (spans : t.Spans before pools after) :
    (t.objects (logOf p bytes)).map Prod.snd
      = (((places 4 0 (sizes bytes)).map (heapStart p + ·)).drop
          (before.map (poolCount p)).sum).take (pools.map (poolCount p)).sum := by
  rw [spans.objects_eq laid.prepares, List.map_take, List.map_drop, List.map_snd_zip]
  rw [List.length_map, laid.length_positions]

/-- The row of a table lies inside that of all objects. -/
theorem OffsetTable.Spans.le_length {t : OffsetTable} {before pools after : List Pool}
    (spans : t.Spans before pools after) (p : Prepared) :
    (before.map (poolCount p)).sum + (pools.map (poolCount p)).sum ≤ (heapObjects p).length := by
  have whole : (heapObjects p).length = (heapOrder.map (poolCount p)).sum :=
    length_members_flatMap heapOrder
  rw [whole, spans.order, List.map_append, List.sum_append, List.map_append, List.sum_append]
  omega

/-- Where an object stands in the row of its table. -/
theorem LaidOut.index (laid : LaidOut fuel c p header bytes) {t : OffsetTable}
    {before pools after : List Pool} (spans : t.Spans before pools after) (mem : w ∈ p.values)
    {k : Pool} (pool : w.heapPool = some k) (inside : k ∈ pools) :
    (before.map (poolCount p)).sum + (readData p w).toNat = poolStart p k + w.data.toNat := by
  have isOutside := (laid.prepares.shaped laid.shaped w mem).outside_iff pool
  have less := laid.prepares.data_lt mem pool
  have room : (heapObjects p).length < 2 ^ 32 := by
    have fits := laid.shaped.room
    have le := length_heapObjects_le p
    rw [laid.prepares.length_values] at le
    omega
  rw [poolStart, spans.starts k inside, List.map_append, List.sum_append, readData]
  by_cases outside : k = .outside
  · subst outside
    rw [length_heapObjects] at room
    rw [if_pos rfl, if_pos (isOutside.mpr rfl), UInt32.toNat_add, laid.counts.priv,
      Nat.mod_eq_of_lt (by omega)]
    simp only [List.map_cons, List.map_nil, List.sum_cons, List.sum_nil]
    omega
  · rw [if_neg outside, if_neg fun owned => outside (isOutside.mp owned)]
    rfl

theorem LaidOut.getElem?_objects (laid : LaidOut fuel c p header bytes) {t : OffsetTable}
    {before pools after : List Pool} (spans : t.Spans before pools after) {i position : Nat}
    (at_i : (t.objects (logOf p bytes))[i]? = some (w, position)) :
    (heapObjects p)[(before.map (poolCount p)).sum + i]? = some w := by
  rw [spans.objects_eq laid.prepares] at at_i
  have less : i < (pools.map (poolCount p)).sum := by
    have inside := (List.getElem?_eq_some_iff.mp at_i).1
    rw [List.length_take] at inside
    omega
  rw [List.getElem?_take_of_lt less, List.getElem?_drop] at at_i
  exact (List.getElem?_zip_eq_some.mp at_i).1

/-- An object of the log stands on the heap. -/
theorem LaidOut.stored (laid : LaidOut fuel c p header bytes) {v : CreateValue} {position : Nat}
    (logged : (v, position) ∈ logOf p bytes) :
    ∃ off b, position = heapStart p + off ∧ objectBytes p v = .ok b ∧
      Holds (bytes.foldl padded []) off b := by
  obtain ⟨i, here⟩ := List.getElem?_of_mem logged
  obtain ⟨at_v, at_position⟩ := List.getElem?_zip_eq_some.mp here
  obtain ⟨less, rfl⟩ := List.getElem?_eq_some_iff.mp at_v
  have less' : i < bytes.length := by rwa [← laid.hasBytes.length_eq]
  obtain ⟨off, place, holds⟩ := holds_padded (List.getElem?_eq_getElem less') []
  rw [List.getElem?_map, show (places 4 0 (sizes bytes))[i]? = some off from place] at at_position
  exact ⟨off, _, (Option.some.inj at_position).symm, laid.hasBytes.get less less', holds⟩

/-- The positions that were announced for the objects of a row are the real ones. -/
def SameOn (p : Prepared) (bytes : List (List UInt8)) (before pools : List Pool) : Prop :=
  ∀ i off off', (before.map (poolCount p)).sum ≤ i →
    i < (before.map (poolCount p)).sum + (pools.map (poolCount p)).sum →
    (offsetsOf p bytes)[i]? = some off → (places 4 0 (sizes bytes))[i]? = some off' → off = off'

theorem LaidOut.positions_of_same (laid : LaidOut fuel c p header bytes) {t : OffsetTable}
    {before pools after : List Pool} (spans : t.Spans before pools after)
    (same : SameOn p bytes before pools) (heap : List UInt8) :
    (t.offsets (fileOf header (offsetsOf p bytes) heap)).map
        (fun off => header.mandatorySize + off.toNat)
      = (t.objects (logOf p bytes)).map Prod.snd := by
  have le := spans.le_length p
  rw [laid.offsets_eq spans, laid.positions_eq spans]
  refine List.ext_getElem? fun i => ?_
  rcases Nat.lt_or_ge i (pools.map (poolCount p)).sum with less | beyond
  · rw [List.getElem?_take_of_lt less, List.getElem?_take_of_lt less, List.getElem?_drop,
      List.getElem?_drop, List.getElem?_map, List.getElem?_map]
    have inside : (before.map (poolCount p)).sum + i < (offsetsOf p bytes).length := by
      rw [laid.length_offsets]
      omega
    have inside' : (before.map (poolCount p)).sum + i < (places 4 0 (sizes bytes)).length := by
      rw [laid.length_positions]
      omega
    have at_off := List.getElem?_eq_getElem inside
    have at_off' := List.getElem?_eq_getElem inside'
    rw [at_off, at_off', same _ _ _ (Nat.le_add_right _ _) (by omega) at_off at_off']
  · rw [List.getElem?_take_eq_none beyond, List.getElem?_take_eq_none beyond]

/-- What does not depend on the sizes of the vectors. -/
theorem LaidOut.tableLaid_iff (laid : LaidOut fuel c p header bytes) {t : OffsetTable}
    {before pools after : List Pool} (spans : t.Spans before pools after) :
    TableLaid p (fileOf header (offsetsOf p bytes) (bytes.foldl padded [])) (logOf p bytes) t ↔
      SameOn p bytes before pools := by
  constructor
  · intro table i off off' lower upper at_off at_off'
    have same := table.positions
    change (t.offsets _).map (fun off => header.mandatorySize + off.toNat) = _ at same
    rw [laid.offsets_eq spans, laid.positions_eq spans] at same
    have here := congrArg (fun l => l[i - (before.map (poolCount p)).sum]?) same
    have less : i - (before.map (poolCount p)).sum < (pools.map (poolCount p)).sum := by omega
    rw [List.getElem?_take_of_lt less, List.getElem?_take_of_lt less, List.getElem?_drop,
      List.getElem?_drop, List.getElem?_map, List.getElem?_map, Nat.add_sub_cancel' lower, at_off,
      at_off'] at here
    exact Nat.add_left_cancel (Option.some.inj here)
  · intro same
    have le := spans.le_length p
    have positions := laid.positions_of_same spans same (bytes.foldl padded [])
    refine ⟨positions, fun off mem => ?_, ?_, fun i v position at_i => ?_,
      fun i off v position at_off at_i => ?_⟩
    · rw [spans.offsets p header laid.counts] at mem
      obtain ⟨n, inside, rfl⟩ := List.mem_map.mp mem
      have among := List.mem_of_mem_drop (List.mem_of_mem_take inside)
      have small : n < 2 ^ 64 := laid.narrow n among
      rw [UInt64.toNat_ofNat', Nat.mod_eq_of_lt small]
      exact dvd_of_mem_places (by decide) (Nat.dvd_zero 4) among
    · change (t.count header).toNat = _
      rw [spans.count p header laid.counts, spans.objects_eq laid.prepares, List.length_take,
        List.length_drop, List.length_zip, List.length_map, laid.length_positions, Nat.min_self]
      omega
    · obtain ⟨mem, k, pool, index⟩ :=
        laid.prepares.index_of_object (laid.getElem?_objects spans at_i)
      have less := laid.prepares.data_lt mem pool
      have inside : k ∈ pools := by
        have has := List.of_mem_filter (List.mem_of_getElem? at_i)
        exact (spans.has v k pool).mp has
      have row := laid.index spans mem pool inside
      omega
    · -- the entry is the position of the object
      have here := congrArg (fun l => l[i]?) positions
      simp only [List.getElem?_map, at_off, at_i, Option.map_some, Option.some.injEq] at here
      obtain ⟨off', b, place, done, holds⟩ :=
        laid.stored (List.mem_of_mem_filter (List.mem_of_getElem? at_i))
      rw [laid.mandatorySize, place] at here
      rw [← Nat.add_left_cancel here] at holds
      exact ⟨b, done, holds⟩

/-- The tables fit the heap exactly if every position that was announced is the real one. -/
theorem LaidOut.laid_iff (laid : LaidOut fuel c p header bytes) :
    (∀ t ∈ offsetTables,
        TableLaid p (fileOf header (offsetsOf p bytes) (bytes.foldl padded []))
          (logOf p bytes) t) ↔
      offsetsOf p bytes = places 4 0 (sizes bytes) := by
  constructor
  · intro tables
    refine List.ext_getElem (laid.length_offsets.trans laid.length_positions.symm)
      fun i less less' => ?_
    have inside : i < (heapObjects p).length := by rwa [← laid.length_offsets]
    obtain ⟨mem, k, pool, index⟩ :=
      laid.prepares.index_of_object (List.getElem?_eq_getElem inside)
    obtain ⟨t, isTable, has⟩ := exists_table pool
    obtain ⟨before, pools, after, spans⟩ := spans_of_mem isTable
    obtain ⟨lower, upper⟩ := (spans.mem_iff (laid.prepares.data_lt mem pool)).mp
      ((spans.has _ k pool).mp has)
    exact (laid.tableLaid_iff spans).mp (tables t isTable) i _ _ (by omega) (by omega)
      (List.getElem?_eq_getElem less) (List.getElem?_eq_getElem less')
  · intro same t isTable
    obtain ⟨before, pools, after, spans⟩ := spans_of_mem isTable
    refine (laid.tableLaid_iff spans).mpr fun i off off' _ _ at_off at_off' => ?_
    rw [same] at at_off
    exact Option.some.inj (at_off.symm.trans at_off')

end LaidOut

/-! ## Written files -/

/-- A value of the state that is written has a type that a reader knows. -/
theorem Prepares.known (prepares : Prepares fuel c p) (shaped : Shaped c) {handle : UInt32}
    (read : cvValueAt p.c handle = .ok w) : w.type.Known := by
  have mem := List.mem_of_getElem? (itemAt_eq_ok.mp read)
  obtain ⟨n, values⟩ := prepares.values
  rw [values] at mem
  rcases List.mem_append.mp mem with own | slot
  · exact (prepares.shaped shaped w own).known
  · rw [List.eq_of_mem_replicate slot]
    trivial

theorem Written.laidOut {file : List UInt8} {header : Header} {bytes : List (List UInt8)}
    (written : Written p file header bytes) (prepares : Prepares fuel c p) (wf : WellFormed c)
    (shaped : Shaped c) : LaidOut fuel c p header bytes :=
  ⟨prepares, wf, shaped, written.isHeader, written.hasBytes, written.narrow⟩

/-- A file that has been written opens. -/
theorem Written.opens {file : List UInt8} {header : Header} {bytes : List (List UInt8)}
    (written : Written p file header bytes) (laid : LaidOut fuel c p header bytes) :
    init file = .ok (fileOf header (offsetsOf p bytes) (bytes.foldl padded []), none) := by
  obtain ⟨root, found, same⟩ := bind_eq_ok.mp written.isHeader
  obtain ⟨v, read, rfl⟩ := map_eq_ok.mp found
  have known := laid.prepares.known laid.shaped read
  cases same
  rw [written.whole]
  refine init_written known ?_ (laid.length_offsets.trans laid.counts.nOffsets.symm) laid.narrow
  change p.c.version = 2
  rw [laid.prepares.others]
  exact laid.prepares.version

/-- The tables of the file that is written fit its heap exactly if every position that was
announced is the real one. -/
theorem Written.heapLaid_iff {file : List UInt8} {header : Header} {bytes : List (List UInt8)}
    (written : Written p file header bytes) (laid : LaidOut fuel c p header bytes)
    (prepared : prepare fuel c = .ok p) :
    HeapLaid fuel c file ↔ offsetsOf p bytes = places 4 0 (sizes bytes) := by
  have fits : (∀ t ∈ offsetTables, TableLaid p (fileOf header (offsetsOf p bytes)
      (bytes.foldl padded [])) (logOf p bytes) t) ↔ offsetsOf p bytes = places 4 0 (sizes bytes) :=
    laid.laid_iff
  have opens := written.opens laid
  rw [← fits]
  constructor
  · rintro ⟨p', f, log, prepared', opened, logged, tables⟩
    cases Except.ok.inj (prepared.symm.trans prepared')
    cases Except.ok.inj (opens.symm.trans opened)
    cases Except.ok.inj (written.log.symm.trans logged)
    exact tables
  · exact fun tables => ⟨p, _, _, prepared, opens, written.log, tables⟩

end Pointless
