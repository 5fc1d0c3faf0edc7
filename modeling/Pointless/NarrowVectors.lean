import Mathlib
import Pointless.HeapLayout
import Pointless.WrittenTables

/-!
# Narrow vectors

The size of a vector is announced in 32 bits. `heapLaid_iff_narrow` says which states are written
to files whose offset tables nevertheless fit the heap.
-/

namespace Pointless

open ByteMemory ExceptRules Placement Ranks

variable {c : Create} {fuel : Nat} {p : Prepared} {v w : CreateValue}

/-! ## Narrow vectors -/

/-- A vector of the library's with items. -/
def hasItems (c : Create) (v : CreateValue) : Bool :=
  match cvGetPrivVector c v with
  | .ok vector => vector.nItems != 0
  | .error _ => false

/-- An object is written for the value to the pool `k`. A vector of the library's has one if
it has items, or if a set or map is written through it. -/
def isWritten (c : Create) (k : Pool) (v : CreateValue) : Bool :=
  decide (v.pool = some k) && (k != .priv || v.isSetMapVector || hasItems c v)

/-- The values with an object on the heap, in the order of the objects. -/
def writtenObjects (c : Create) : List CreateValue :=
  heapOrder.flatMap fun k => c.values.filter (isWritten c k)

/-- The type that a vector is written with. -/
def writtenType (c : Create) (v : CreateValue) : Res ValueType :=
  if v.type = .vectorValue ∧ ¬v.isSetMapVector then createVectorCompression c v else pure v.type

/-- The bytes that a vector takes. -/
def vectorBytes (c : Create) (v : CreateValue) : Res Nat := do
  let type ← writtenType c v
  let w := (vectorItemLen type).getD 0
  if v.isOutsideVector then
    let vector ← cvGetOutsideVector c v
    pure (4 + w * vector.nItems.toNat)
  else
    let vector ← cvGetPrivVector c v
    pure (4 + w * (UInt32.ofNat vector.nItems).toNat)

/-- The size of every vector but of one at the very end fits into 32 bits, and so does that
of the vectors of handles that the sets and maps are written through. -/
structure NarrowVectors (c : Create) : Prop where
  vectors : ∀ v ∈ (writtenObjects c).dropLast, ∀ n, vectorBytes c v = .ok n → n < 2 ^ 32
  tables : ∀ n, TableSize c n → 4 + 8 * n < 2 ^ 32

/-! ## What becomes of the objects -/

/-- What a value has become, with what is known of it from before. -/
structure BecomesWritten (c : Create) (arrays : List Dynarray) (v w : CreateValue) : Prop where
  becomes : Becomes c arrays v w
  settled : Settled c v w
  inside : v ∈ c.values
  fits : v.Fits c

theorem isWritten_other {k : Pool} (other : v.pool ≠ some .priv) :
    isWritten c k v = decide (v.pool = some k) := by
  by_cases same : k = .priv
  · subst same
    rw [isWritten, decide_eq_false other, Bool.false_and]
  · rw [isWritten, bne_iff_ne.mpr same, Bool.true_or, Bool.true_or, Bool.and_true]

theorem isWritten_priv {k : Pool} (pool : v.pool = some .priv) :
    isWritten c k v = (decide (some Pool.priv = some k) && (v.isSetMapVector || hasItems c v)) := by
  rw [isWritten, pool]
  by_cases same : k = .priv
  · subst same
    rfl
  · have apart : some Pool.priv ≠ some k := fun equal => same (Option.some.inj equal).symm
    rw [decide_eq_false apart, Bool.false_and, Bool.false_and]

theorem hasItems_eq {array : Dynarray} (item : c.privVectorValues[v.data.toNat]? = some array) :
    hasItems c v = (array.nItems != 0) := by
  rw [hasItems, cvGetPrivVector, itemAt_eq_ok.mpr item]

/-- Before it is tagged a value has its pool. -/
theorem CreateValue.Fits.heapPool (fits : v.Fits c) : v.heapPool = v.pool := by
  cases fits with
  | @inline type d inline =>
      cases type
      case vectorValueHashable => exact inline.elim
      all_goals rfl
  | text isText item =>
      rcases isText.1 with rfl | rfl
      all_goals rfl
  | vector isVector fits unfilled item =>
      rcases isVector with rfl | ⟨t, rfl⟩
      · rfl
      · cases t
        all_goals rfl
  | @owned t =>
      cases t
      all_goals rfl
  | bits | set | map => rfl

theorem pool_number (t : NumberType) (compressed table : Bool) (d : UInt32) :
    (CreateValue.mk t.vectorType compressed table false d).heapPool = some .priv := by
  cases t
  all_goals rfl

theorem pool_vector {type : ValueType} (isVector : IsPrivType type) (table : Bool) (d : UInt32) :
    (CreateValue.mk type false table false d).pool = some .priv ∧
      (CreateValue.mk type false table false d).heapPool = some .priv := by
  rcases isVector with rfl | ⟨t, rfl⟩
  · exact ⟨rfl, rfl⟩
  · cases t
    all_goals exact ⟨rfl, rfl⟩

/-- A value has an object in a pool exactly if what becomes of it has. -/
theorem Becomes.isWritten_eq {arrays : List Dynarray} (becomes : Becomes c arrays v w)
    (fits : v.Fits c) (k : Pool) : isWritten c k v = decide (w.heapPool = some k) := by
  have withItems {type : ValueType} {d : UInt32} {array : Dynarray} (isVector : IsPrivType type)
      (item : c.privVectorValues[d.toNat]? = some array) (some_ : array.nItems ≠ 0) :
      isWritten c k (.plain type d) = decide (some Pool.priv = some k) := by
    have known : hasItems c (.plain type d) = true := by
      rw [hasItems_eq item]
      exact bne_iff_ne.mpr some_
    rw [isWritten_priv (pool_priv isVector), known, Bool.or_true, Bool.and_true]
  cases becomes with
  | same other =>
      rw [fits.heapPool] at other ⊢
      exact isWritten_other other
  | @emptied type d array isVector item none_ =>
      have known : hasItems c (.plain type d) = false := by
        rw [hasItems_eq item, none_]
        rfl
      rw [isWritten_priv (pool_priv isVector), known]
      exact Bool.and_false _
  | @numbers t d d' array item some_ item' =>
      rw [withItems (Or.inr ⟨t, rfl⟩) item some_, CreateValue.plain, pool_number]
  | handles isValue item some_ item' =>
      rw [withItems (Or.inl rfl) item some_]
      rcases isValue with rfl | rfl
      all_goals rfl
  | @compressed t d d' array items isItems isType item some_ item' =>
      rw [withItems (Or.inl rfl) item some_, pool_number]
  | @table type type' d d' array items isVector isType item item' size =>
      rw [isWritten_priv (pool_vector isVector true d).1, Bool.true_or, Bool.and_true]
      rcases isType with rfl | ⟨-, rfl⟩
      · rw [(pool_vector isVector true d').2]
      · rfl

/-- The objects of a state and those that are written for it. -/
theorem Prepares.objects (prepares : Prepares fuel c p) (shaped : Shaped c) :
    List.Forall₂ (BecomesWritten c p.c.privVectorValues) (writtenObjects c) (heapObjects p) := by
  have values : List.Forall₂ (BecomesWritten c p.c.privVectorValues) c.values p.values := by
    rw [List.forall₂_iff_get]
    refine ⟨prepares.becomes.length.symm, fun i less less' => ?_⟩
    have at_i := List.getElem?_eq_getElem less
    obtain ⟨w, at_w, becomes⟩ := prepares.becomes.becomes i _ at_i
    have here := List.getElem?_eq_getElem less'
    cases Option.some.inj (here.symm.trans at_w)
    refine ⟨becomes, prepares.settled i _ _ at_i ?_, List.getElem_mem less, shaped.fits i _ at_i⟩
    exact (List.getElem?_take_of_lt (by
      rw [Prepared.values, List.length_take] at less'
      omega)).symm.trans here
  rw [writtenObjects, heapObjects]
  induction heapOrder with
  | nil => exact .nil
  | cons k pools ih =>
      rw [List.flatMap_cons, List.flatMap_cons]
      refine List.rel_append ?_ ih
      refine List.rel_filter (fun v w becomes => ?_) values
      change isWritten c k v = true ↔ decide (w.heapPool = some k) = true
      rw [becomes.becomes.isWritten_eq becomes.fits k]

/-! ## The sizes of the vectors -/

theorem length_privObject {b : List UInt8} (shape : WrittenShape w) (pool : w.heapPool = some .priv)
    (done : objectBytes p w = .ok b) :
    ∃ array width, p.c.privVectorValues[w.data.toNat]? = some array ∧
      vectorItemLen w.type = some width ∧ b.length = 4 + width * (UInt32.ofNat array.nItems).toNat := by
  unfold objectBytes at done
  rw [pool] at done
  obtain ⟨array, found, done⟩ := bind_eq_ok.mp done
  obtain ⟨items, part, same⟩ := bind_eq_ok.mp done
  cases same
  obtain ⟨width, isWidth⟩ := itemLen_of_pool (Or.inl pool)
  refine ⟨array, width, itemAt_eq_ok.mp found, isWidth, ?_⟩
  rw [List.length_append, length_bytesU32, length_privItems shape isWidth part]

theorem length_ownedObject {t : NumberType} {d : UInt32} {b : List UInt8}
    (done : objectBytes p ⟨t.vectorType, false, false, true, d⟩ = .ok b) :
    ∃ vector, p.c.outsideVectorValues[d.toNat]? = some vector ∧
      b.length = 4 + t.size * vector.nItems.toNat := by
  have isOutside : (CreateValue.mk t.vectorType false false true d).heapPool = some .outside := by
    cases t
    all_goals rfl
  have width : outsideItemLen t.vectorType = some t.size := by
    rw [outsideItemLen, if_neg (not_value_type t), t.vectorItemLen_vectorType]
  unfold objectBytes at done
  rw [isOutside] at done
  obtain ⟨vector, found, done⟩ := bind_eq_ok.mp done
  obtain ⟨items, part, same⟩ := bind_eq_ok.mp done
  cases same
  refine ⟨vector, itemAt_eq_ok.mp found, ?_⟩
  rw [outsideItemBytes, width] at part
  rw [List.length_append, length_bytesU32, length_partOf part]

theorem vectorItemLen_le {type : ValueType} {width : Nat}
    (isWidth : vectorItemLen type = some width) : width ≤ 8 := by
  cases type
  all_goals
    cases isWidth
    try decide

/-- What `vectorBytes` says of a vector of the library's. -/
theorem vectorBytes_priv {type : ValueType} {array : Dynarray} {width : Nat}
    (isType : writtenType c v = .ok type) (isWidth : vectorItemLen type = some width)
    (inside : v.isOutsideVector = false) (item : c.privVectorValues[v.data.toNat]? = some array) :
    vectorBytes c v = .ok (4 + width * (UInt32.ofNat array.nItems).toNat) := by
  rw [vectorBytes, isType, ok_bind, isWidth, if_neg (by rw [inside]; exact Bool.false_ne_true),
    cvGetPrivVector, itemAt_eq_ok.mpr item]
  rfl

/-- The type that a vector of handles is written with. -/
theorem writtenType_handles (shaped : Shaped c) {d : UInt32} {array : Dynarray}
    {items : List CreateValue} (inside : .plain .vectorValue d ∈ c.values)
    (item : c.privVectorValues[d.toNat]? = some array) (some_ : array.nItems ≠ 0)
    (named : HasItems c array items) :
    writtenType c (.plain .vectorValue d) = .ok (itemsType .vectorValue items) := by
  obtain ⟨i, less, same⟩ := List.getElem_of_mem inside
  have at_i : c.values[i]? = some (.plain .vectorValue d) := by
    rw [← same]
    exact List.getElem?_eq_getElem less
  have size := ((shaped.handles at_i item).handles rfl).1
  have isVector : PrivValueVector c (.plain .vectorValue d) array items := by
    refine ⟨Or.inl rfl, rfl, itemAt_eq_ok.mpr item, itemsAre_of_named size shaped.room named, ?_⟩
    rintro rfl
    exact some_ (mapM_some named).1.symm
  rw [writtenType, if_pos ⟨rfl, Bool.false_ne_true⟩, createVectorCompression_eq isVector]
  rfl

/-- A vector takes the bytes that it does from the start, if it is not one of a table. -/
theorem BecomesWritten.vectorBytes_eq (becomes : BecomesWritten c p.c.privVectorValues v w)
    (shaped : Shaped c) (others : p.c.outsideVectorValues = c.outsideVectorValues)
    (pool : w.heapPool = some .priv ∨ w.heapPool = some .outside)
    (own : v.isSetMapVector = false) {b : List UInt8} (done : objectBytes p w = .ok b) :
    vectorBytes c v = .ok b.length := by
  obtain ⟨became, settled, inside, fits⟩ := becomes
  have shape := became.written fits
  have numbered (t : NumberType) {d : UInt32} :
      writtenType c (.plain t.vectorType d) = .ok t.vectorType :=
    if_neg fun isValue => vectorType_ne_value t isValue.1
  cases became with
  | same other =>
      cases fits with
      | @inline type d inline =>
          cases type
          all_goals first | exact inline.elim | (rcases pool with bad | bad <;> cases bad)
      | text isText =>
          rcases isText.1 with rfl | rfl
          all_goals rcases pool with bad | bad <;> cases bad
      | bits | set | map => rcases pool with bad | bad <;> cases bad
      | vector isVector =>
          refine absurd ?_ other
          rcases isVector with rfl | ⟨t, rfl⟩
          · rfl
          · cases t
            all_goals rfl
      | @owned t d nItems items size some_ item =>
          obtain ⟨vector, found, length⟩ := length_ownedObject done
          rw [others] at found
          have isType : writtenType c ⟨t.vectorType, false, false, true, d⟩ = .ok t.vectorType :=
            if_neg fun isValue => vectorType_ne_value t isValue.1
          rw [vectorBytes, isType, ok_bind, t.vectorItemLen_vectorType, if_pos rfl,
            cvGetOutsideVector, itemAt_eq_ok.mpr found, length]
          rfl
  | emptied => rcases pool with bad | bad <;> cases bad
  | @numbers t d d' array item some_ item' =>
      obtain ⟨array', width, found, isWidth, length⟩ := length_privObject shape (pool_number t _ _ _) done
      cases Option.some.inj (item'.symm.trans found)
      rw [vectorBytes_priv (numbered t) isWidth rfl item, length]
  | @handles type d d' array isValue item some_ item' =>
      have isPool : (CreateValue.plain type d').heapPool = some .priv := by
        rcases isValue with rfl | rfl
        all_goals rfl
      obtain ⟨array', width, found, isWidth, length⟩ := length_privObject shape isPool done
      cases Option.some.inj (item'.symm.trans found)
      obtain ⟨array', items, item'', named, unfit⟩ := settled d rfl isValue
      cases Option.some.inj (item.symm.trans item'')
      have isType := writtenType_handles shaped inside item some_ named
      rw [unfit] at isType
      have width' : vectorItemLen .vectorValue = some width := by
        rcases isValue with rfl | rfl
        all_goals exact isWidth
      rw [vectorBytes_priv isType width' rfl item, length]
  | @compressed t d d' array items isItems isType item some_ item' =>
      obtain ⟨array', width, found, isWidth, length⟩ := length_privObject shape (pool_number t _ _ _) done
      cases Option.some.inj (item'.symm.trans found)
      have type := writtenType_handles shaped inside item some_ isItems
      rw [isType] at type
      rw [vectorBytes_priv type isWidth rfl item, length]
  | table => cases own

/-- A vector of a table has nothing in it from the start, and the buckets later. -/
theorem BecomesWritten.table_bytes (becomes : BecomesWritten c p.c.privVectorValues v w)
    (isTable : v.isSetMapVector = true) {b : List UInt8} (done : objectBytes p w = .ok b) :
    vectorBytes c v = .ok 4 ∧ (b.length = 4 ∨ ∃ n, TableSize c n ∧ b.length ≤ 4 + 8 * n) := by
  obtain ⟨became, settled, inside, fits⟩ := becomes
  have shape := became.written fits
  cases became with
  | same other =>
      cases fits with
      | vector isVector =>
          refine absurd ?_ other
          rcases isVector with rfl | ⟨t, rfl⟩
          · rfl
          · cases t
            all_goals rfl
      | inline | text | bits | owned | set | map => cases isTable
  | emptied | numbers | handles | compressed => cases isTable
  | @table type type' d d' array items isVector isType item item' size =>
      have isPool : (CreateValue.mk type' false true false d').heapPool = some .priv := by
        rcases isType with rfl | ⟨-, rfl⟩
        · exact (pool_vector isVector true d').2
        · rfl
      have unfilled : array.nItems = 0 := by
        generalize start : CreateValue.mk type false true false d = v at fits
        cases fits with
        | inline | text | bits | owned | set | map => cases congrArg CreateValue.isSetMapVector start
        | vector _ _ unfilled item'' =>
            cases start
            cases Option.some.inj (item.symm.trans item'')
            exact unfilled rfl
      have own : writtenType c ⟨type, false, true, false, d⟩ = .ok type :=
        if_neg fun isValue => isValue.2 rfl
      obtain ⟨width₀, isWidth₀⟩ := itemLen_of_pool (Or.inl (pool_vector isVector true d).2)
      obtain ⟨array', width, found, isWidth, length⟩ := length_privObject shape isPool done
      cases Option.some.inj (item'.symm.trans found)
      have narrow : width ≤ 8 := vectorItemLen_le isWidth
      refine ⟨?_, ?_⟩
      · rw [vectorBytes_priv own isWidth₀ rfl item, unfilled]
        rfl
      · change b.length = 4 + width * (UInt32.ofNat items.length).toNat at length
        rcases size with rfl | size
        · refine Or.inl ?_
          rw [length, show array.items.length = 0 from unfilled]
          rfl
        · refine Or.inr ⟨_, size, ?_⟩
          have small : (UInt32.ofNat items.length).toNat ≤ items.length := by
            rw [UInt32.toNat_ofNat']
            exact Nat.mod_le _ _
          have := Nat.mul_le_mul narrow small
          omega

/-- `vectorBytes` has a small answer for other values, if any. -/
theorem vectorBytes_other (fits : v.Fits c) (other : v.heapPool ≠ some .priv)
    (notOutside : v.heapPool ≠ some .outside) {n : Nat} (done : vectorBytes c v = .ok n) : n = 4 := by
  have plain {type : ValueType} {d : UInt32} (done : vectorBytes c (.plain type d) = .ok n)
      (notValue : type ≠ .vectorValue) (none_ : vectorItemLen type = none) : n = 4 := by
    have isType : writtenType c (.plain type d) = .ok type := if_neg fun isValue => notValue isValue.1
    rw [vectorBytes, isType, ok_bind, none_] at done
    obtain ⟨array, -, same⟩ := bind_eq_ok.mp done
    cases same
    rw [Option.getD_none, Nat.zero_mul]
  cases fits with
  | @inline type d inline =>
      refine plain done ?_ ?_
      all_goals
        cases type
        all_goals first | exact inline.elim | rfl | nofun
  | text isText =>
      rcases isText.1 with rfl | rfl
      all_goals exact plain done nofun rfl
  | bits | set | map => exact plain done nofun rfl
  | vector isVector =>
      refine absurd ?_ other
      rcases isVector with rfl | ⟨t, rfl⟩
      · rfl
      · cases t
        all_goals rfl
  | @owned t =>
      refine absurd ?_ notOutside
      cases t
      all_goals rfl

/-! ## Which sizes are announced right -/

theorem announcedSize_eq_iff (w : CreateValue) (n : Nat) : announcedSize w n = n ↔
    (w.heapPool = some .priv ∨ w.heapPool = some .outside → n < 2 ^ 32) := by
  have vector : n % 2 ^ 32 = n ↔ n < 2 ^ 32 :=
    ⟨fun same => by rw [← same]; exact Nat.mod_lt n (by decide), Nat.mod_eq_of_lt⟩
  rw [announcedSize]
  cases w.heapPool with
  | none => exact ⟨fun _ bad => (by rcases bad with bad | bad <;> cases bad), fun _ => rfl⟩
  | some k =>
      cases k
      case priv => exact vector.trans ⟨fun less _ => less, fun fits => fits (Or.inl rfl)⟩
      case outside => exact vector.trans ⟨fun less _ => less, fun fits => fits (Or.inr rfl)⟩
      all_goals exact ⟨fun _ bad => (by rcases bad with bad | bad <;> cases bad), fun _ => rfl⟩

/-- The sizes are announced right up to the last exactly if the vectors there are narrow. -/
theorem announced_iff {objects : List CreateValue} {bytes : List (List UInt8)}
    (hasBytes : HasBytes p objects bytes) :
    (announcedSizes objects bytes).dropLast = (sizes bytes).dropLast ↔
      ∀ i w b, i + 1 < objects.length → objects[i]? = some w → bytes[i]? = some b →
        w.heapPool = some .priv ∨ w.heapPool = some .outside → b.length < 2 ^ 32 := by
  have same := hasBytes.length_eq
  have lengths : (announcedSizes objects bytes).length = (sizes bytes).length := by
    rw [length_announcedSizes hasBytes, List.length_map, same]
  rw [dropLast_eq_iff lengths, length_announcedSizes hasBytes]
  refine ⟨fun announced i w b less at_w at_b => (announcedSize_eq_iff w b.length).mp ?_,
    fun narrow i m n less at_m at_n => ?_⟩
  · refine announced i _ _ less ?_ ?_
    · rw [announcedSizes, List.getElem?_zipWith, at_w, at_b]
    · rw [sizes, List.getElem?_map, at_b]
      rfl
  · have at_w := List.getElem?_eq_getElem (show i < objects.length by omega)
    have at_b := List.getElem?_eq_getElem (show i < bytes.length by omega)
    rw [announcedSizes, List.getElem?_zipWith, at_w, at_b] at at_m
    rw [sizes, List.getElem?_map, at_b] at at_n
    cases at_m
    cases at_n
    exact (announcedSize_eq_iff _ _).mpr (narrow i _ _ less at_w at_b)

/-- A set or map is written behind the vectors. -/
theorem Prepares.vector_before (prepares : Prepares fuel c p) (mem : w ∈ p.values)
    (pool : w.heapPool = some .priv) (mem' : v ∈ p.values)
    (isTable : v.type = .setValue ∨ v.type = .mapValueValue) :
    poolStart p .priv + w.data.toNat + 1 < (heapObjects p).length := by
  have less := prepares.data_lt mem pool
  have table : 0 < poolCount p .set + poolCount p .map := by
    obtain ⟨type, compressed, table, outside, d⟩ := v
    rcases isTable with rfl | rfl
    · have here := prepares.data_lt mem' (k := .set) rfl
      omega
    · have here := prepares.data_lt mem' (k := .map) rfl
      omega
  rw [length_heapObjects, poolStart, Pool.before]
  simp only [List.map_cons, List.map_nil, List.sum_cons, List.sum_nil]
  omega

/-- The vector of the keys of a table takes eight bytes for each bucket. -/
theorem Prepares.keyVector (prepares : Prepares fuel c p) (shaped : Shaped c)
    {bytes : List (List UInt8)} (hasBytes : HasBytes p (heapObjects p) bytes) {n : Nat}
    (size : TableSize c n) :
    ∃ i w b, i + 1 < (heapObjects p).length ∧ (heapObjects p)[i]? = some w ∧
      bytes[i]? = some b ∧ w.heapPool = some .priv ∧ b.length = 4 + 8 * n := by
  obtain ⟨v, inside, t, nBuckets, parts, computed, rfl⟩ := size
  obtain ⟨j, less, rfl⟩ := List.getElem_of_mem inside
  have at_v := List.getElem?_eq_getElem less
  have isTable := type_of_tableParts parts
  obtain ⟨c₁, t', nBuckets', hashVector, buckets, -, parts', table⟩ :=
    prepares.table at_v isTable
  cases Except.ok.inj (parts.symm.trans parts')
  cases Except.ok.inj (computed.symm.trans table.computed)
  have isKeys := (tableShape (shaped.fits j _ at_v) parts).keyVector
  obtain ⟨w, array, type, at_w, -, item, items, own, isType⟩ :=
    prepares.tableVector isKeys (Or.inl rfl) table.keys
  have isValue : type = .vectorValue ∨ type = .vectorValueHashable := isType.imp_right And.right
  have pool : w.heapPool = some .priv := by
    rw [own]
    rcases isValue with rfl | rfl
    all_goals rfl
  have width : vectorItemLen w.type = some 8 := by
    rw [own]
    rcases isValue with rfl | rfl
    all_goals rfl
  have mem := List.mem_of_getElem? at_w
  have object := prepares.object mem pool
  obtain ⟨x, at_x, -, becomes⟩ := prepares.value at_v
  obtain rfl := becomes.table_kept isTable
  have before := prepares.vector_before mem pool (List.mem_of_getElem? at_x) isTable
  have inside : poolStart p .priv + w.data.toNat < bytes.length := by
    rw [← hasBytes.length_eq]
    omega
  refine ⟨_, w, bytes[poolStart p .priv + w.data.toNat], before, object,
    List.getElem?_eq_getElem inside, pool, ?_⟩
  have done := hasBytes.get (by omega) inside
  rw [List.get_eq_getElem, List.get_eq_getElem,
    (List.getElem?_eq_some_iff.mp object).2] at done
  obtain ⟨array', width', found, isWidth, length⟩ :=
    length_privObject (prepares.shaped shaped w mem) pool done
  cases Option.some.inj (item.symm.trans found)
  cases Option.some.inj (width.symm.trans isWidth)
  have count : array.nItems = nBuckets.toNat := by
    rw [Dynarray.nItems, items, List.length_map]
    exact table.sized.2.1
  rw [length, count, UInt32.ofNat_toNat]

/-- The size of every vector but the last object is announced right exactly if the vectors are
narrow. -/
theorem Prepares.narrow_iff (prepares : Prepares fuel c p) (shaped : Shaped c)
    {bytes : List (List UInt8)} (hasBytes : HasBytes p (heapObjects p) bytes) :
    (announcedSizes (heapObjects p) bytes).dropLast = (sizes bytes).dropLast ↔
      NarrowVectors c := by
  rw [announced_iff hasBytes]
  have objects := prepares.objects shaped
  have same := objects.length_eq
  have outside : p.c.outsideVectorValues = c.outsideVectorValues := by
    rw [prepares.others]
  have object (i : Nat) (less : i < (heapObjects p).length) :
      ∃ v w b, (writtenObjects c)[i]? = some v ∧ (heapObjects p)[i]? = some w ∧
        bytes[i]? = some b ∧ BecomesWritten c p.c.privVectorValues v w ∧
        objectBytes p w = .ok b := by
    have less' : i < bytes.length := by rwa [← hasBytes.length_eq]
    have less'' : i < (writtenObjects c).length := by rwa [same]
    exact ⟨_, _, _, List.getElem?_eq_getElem less'', List.getElem?_eq_getElem less,
      List.getElem?_eq_getElem less', objects.get less'' less, hasBytes.get less less'⟩
  constructor
  · intro narrow
    refine ⟨fun v mem n taken => ?_, fun n size => ?_⟩
    · obtain ⟨i, inside, rfl⟩ := List.getElem_of_mem mem
      rw [List.length_dropLast, same] at inside
      obtain ⟨v, w, b, at_v, at_w, at_b, becomes, done⟩ := object i (by omega)
      rw [List.getElem_dropLast, (List.getElem?_eq_some_iff.mp at_v).2] at taken
      by_cases pool : w.heapPool = some .priv ∨ w.heapPool = some .outside
      · have bound := narrow i w b (by omega) at_w at_b pool
        cases own : v.isSetMapVector with
        | false =>
            rw [becomes.vectorBytes_eq shaped outside pool own done] at taken
            cases taken
            exact bound
        | true =>
            rw [(becomes.table_bytes own done).1] at taken
            cases taken
            decide
      · have other : w.heapPool ≠ some .priv := fun isPriv => pool (Or.inl isPriv)
        have kept : v.heapPool = w.heapPool := by
          obtain ⟨-, k, isPool, -⟩ := prepares.index_of_object at_w
          have row := becomes.becomes.isWritten_eq becomes.fits k
          rw [isPool, decide_eq_true rfl, isWritten, Bool.and_eq_true, decide_eq_true_iff] at row
          rw [isPool, becomes.fits.heapPool]
          exact row.1
        rw [vectorBytes_other becomes.fits (by rw [kept]; exact other)
          (by rw [kept]; exact fun isOutside => pool (Or.inr isOutside)) taken]
        decide
    · obtain ⟨i, w, b, less, at_w, at_b, pool, length⟩ := prepares.keyVector shaped hasBytes size
      rw [← length]
      exact narrow i w b less at_w at_b (Or.inl pool)
  · intro narrow i w b less at_w at_b pool
    obtain ⟨v, w', b', at_v, at_w', at_b', becomes, done⟩ := object i (by omega)
    cases Option.some.inj (at_w.symm.trans at_w')
    cases Option.some.inj (at_b.symm.trans at_b')
    have mem : v ∈ (writtenObjects c).dropLast := by
      rw [List.dropLast_eq_take]
      have at_take := List.getElem?_take_of_lt (l := writtenObjects c)
        (show i < (writtenObjects c).length - 1 by omega)
      exact List.mem_of_getElem? (at_take.trans at_v)
    cases own : v.isSetMapVector with
    | false =>
        exact narrow.vectors v mem _ (becomes.vectorBytes_eq shaped outside pool own done)
    | true =>
        rcases (becomes.table_bytes own done).2 with few | ⟨n, size, bound⟩
        · rw [few]
          decide
        · exact Nat.lt_of_le_of_lt bound (narrow.tables n size)

/-- The offset tables of the file that is written fit its heap exactly if the vectors are
narrow. -/
theorem heapLaid_iff_narrow (reachable : CreateReachable c) {file : List UInt8}
    (done : createOutputAndEndB fuel c = .ok file) : HeapLaid fuel c file ↔ NarrowVectors c := by
  obtain ⟨wf, shaped⟩ := reachable.shaped
  obtain ⟨p, prepared, out⟩ := bind_eq_ok.mp done
  have prepares := prepare_prepares reachable prepared
  obtain ⟨header, bytes, written⟩ := writeOut_written (prepares.shaped shaped) out
  rw [written.heapLaid_iff (written.laidOut prepares wf shaped) prepared,
    places_eq_iff (announcedSizes_short written.hasBytes),
    prepares.narrow_iff shaped written.hasBytes]

/-- A set of one string. -/
def oneStringSet : Create :=
  { createBegin64 with
    root := 3
    values := [.plain .string 0, ⟨.vectorU32, false, true, false, 0⟩,
      ⟨.vectorValue, false, true, false, 1⟩, .plain .setValue 0]
    privVectorValues := [⟨4, []⟩, ⟨4, []⟩]
    setValues := [⟨[0], 1, 2⟩]
    stringUnicodeValues := [[1, 0, 0, 0, 65, 0]]
    stringUnicodeMapJudy := [([1, 0, 0, 0, 65, 0], 0)]
    stringUnicodeMapJudyCount := 1 }

theorem oneStringSet_reachable : CreateReachable oneStringSet := by
  have text := @CreateReachable.call _ _ (.stringAscii [65, 0]) _ .begin64 (.tail _ (.head _)) rfl
    (by decide)
  have set := @CreateReachable.call _ _ .set _ text trivial rfl (by decide)
  have add := @CreateReachable.call _ _ (.setAdd 3 0) _ set
    ⟨⟨_, rfl, rfl, rfl⟩, _, rfl, rfl⟩ rfl (by decide)
  exact @CreateReachable.call _ _ (.setRoot 3) _ add ⟨_, rfl, rfl⟩ rfl (by decide)

/-- The file of a set of one string. -/
def oneStringFile : List UInt8 :=
  bytesValue ⟨.setValue, 0⟩ ++ bytesU32 1 ++ bytesU32 2 ++ bytesU32 0 ++ bytesU32 1 ++
    bytesU32 0 ++ bytesU32 2 ++ bytesU64 0 ++ bytesU64 8 ++ bytesU64 20 ++ bytesU64 40 ++
    bytesU32 1 ++ [65, 0, 0, 0] ++
    bytesU32 2 ++ bytesU32 4025057728 ++ bytesU32 0 ++
    bytesU32 2 ++ bytesValue ⟨.string, 0⟩ ++ bytesValue ⟨.emptySlot, 0⟩ ++
    bytesU32 1 ++ bytesU32 0 ++ bytesValue ⟨.vectorU32, 0⟩ ++ bytesValue ⟨.vectorValueHashable, 1⟩

set_option maxRecDepth 4000 in
theorem output_oneStringSet : createOutputAndEndB 4 oneStringSet = .ok oneStringFile := by cbv

theorem heapLaid_iff_narrow_oneString :
    HeapLaid 4 oneStringSet oneStringFile ↔ NarrowVectors oneStringSet :=
  heapLaid_iff_narrow oneStringSet_reachable output_oneStringSet

theorem oneStringSet_parts {v : CreateValue} {t : TableParts} (mem : v ∈ oneStringSet.values)
    (parts : tableParts oneStringSet v = .ok t) : t = ⟨[0], none, 1, 2, none⟩ := by
  simp only [oneStringSet, List.mem_cons, List.not_mem_nil, or_false] at mem
  rcases mem with rfl | rfl | rfl | rfl
  all_goals
    cases parts
  rfl

theorem oneStringSet_narrow : NarrowVectors oneStringSet := by
  have objects : (writtenObjects oneStringSet).dropLast = [.plain .string 0,
      ⟨.vectorU32, false, true, false, 0⟩, ⟨.vectorValue, false, true, false, 1⟩] := by decide
  constructor
  · intro v mem n bytes
    rw [objects] at mem
    simp only [List.mem_cons, List.not_mem_nil, or_false] at mem
    rcases mem with rfl | rfl | rfl
    all_goals
      cases bytes
      decide
  · rintro n ⟨v, mem, t, nBuckets, parts, computed, rfl⟩
    cases oneStringSet_parts mem parts
    cases computed
    decide

end Pointless
