import Mathlib.Data.List.Induction
import Pointless.Output
import Pointless.VectorHash

/-!
# Compression of value vectors

What `pointless_create_vector_compression` makes of a private vector of values, and
what the two later switches over the type it returns make of the items.

The loop keeps a summary of the items it has seen (`RangeOf`): the bounds of the
integers, that all of them are floats, or that it has returned early. The integers
come from 32-bit values of either sign, so that their bounds may lie further apart
than any of the six types reaches.
-/

namespace Pointless

open ByteMemory

/-! ## What compression is for -/

namespace NumberType

/-- The least integer of the type. -/
def least : NumberType → Int
  | i8 => -128
  | i16 => -32768
  | i32 => -2147483648
  | i64 => -9223372036854775808
  | u8 | u16 | u32 | u64 | float => 0

/-- The greatest integer of the type. -/
def greatest : NumberType → Int
  | i8 => 127
  | u8 => 255
  | i16 => 32767
  | u16 => 65535
  | i32 => 2147483647
  | u32 => 4294967295
  | i64 => 9223372036854775807
  | u64 => 18446744073709551615
  | float => 0

/-- The integer is in the range of the type. -/
def InRange (t : NumberType) (n : Int) : Prop := t.least ≤ n ∧ n ≤ t.greatest

instance (t : NumberType) (n : Int) : Decidable (t.InRange n) :=
  inferInstanceAs (Decidable (_ ∧ _))

/-- The narrowest type for the integers `ns`: unsigned when none is negative. -/
def narrowest (ns : List Int) : Option NumberType :=
  (if ∀ n ∈ ns, 0 ≤ n then [u8, u16, u32] else [i8, i16, i32]).find? fun t =>
    ∀ n ∈ ns, t.InRange n

end NumberType

/-- The integer that a value holds. -/
def CreateValue.int? (v : CreateValue) : Option Int :=
  match v.type with
  | .i32 => some (dataI32 v.data)
  | .u32 => some v.data.toNat
  | _ => none

/-- The type that a vector of type `type` with the values `items` should be given. -/
def compressionOf (type : ValueType) (items : List CreateValue) : ValueType :=
  match items.mapM CreateValue.int? with
  | some ns => ((NumberType.narrowest ns).map NumberType.vectorType).getD type
  | none => if ∀ item ∈ items, item.type = .float then .vectorFloat else type

/-! ## The vector, and the assertion -/

/-- The items of the vector are handles of the values `items`. -/
def ItemsAre (c : Create) (vector : Dynarray) (items : List CreateValue) : Prop :=
  vector.nItems = items.length ∧
    ∀ i item, items[i]? = some item →
      ∃ handle, vector.itemAtU32 i = .ok handle ∧ cvValueAt c handle = .ok item

/-- What the callers of `pointless_create_vector_compression` pass: a nonempty private
vector of values. -/
structure PrivValueVector (c : Create) (v : CreateValue) (vector : Dynarray)
    (items : List CreateValue) : Prop where
  type : v.type = .vectorValue ∨ v.type = .vectorValueHashable
  inside : v.isOutsideVector = false
  found : cvGetPrivVector c v = .ok vector
  holds : ItemsAre c vector items
  nonempty : items ≠ []

/-- The end of `pointless_create_vector_compression`; `none` is the final `assert(0)`. -/
def rangeTypeIn (minInt maxInt : Int) : Option ValueType :=
  if 0 ≤ minInt ∧ maxInt ≤ 255 then some .vectorU8
  else if 0 ≤ minInt ∧ maxInt ≤ 65535 then some .vectorU16
  else if 0 ≤ minInt ∧ maxInt ≤ 4294967295 then some .vectorU32
  else if -128 ≤ minInt ∧ maxInt ≤ 127 then some .vectorI8
  else if -32768 ≤ minInt ∧ maxInt ≤ 32767 then some .vectorI16
  else if -2147483648 ≤ minInt ∧ maxInt ≤ 2147483647 then some .vectorI32
  else none

theorem rangeType_eq (minInt maxInt : Int) :
    rangeType minInt maxInt = (rangeTypeIn minInt maxInt).getD .vectorValue := by
  rw [rangeType, rangeTypeIn]
  repeat' split
  all_goals rfl

/-- `pointless_create_vector_compression` runs into its final `assert(0)`. -/
def AssertsCompression (c : Create) (v : CreateValue) : Prop :=
  ∃ vector s, cvGetPrivVector c v = .ok vector ∧
    itemRange c vector vector.nItems 0 ⟨0, 0, false, false⟩ = .ok (some s) ∧
    s.initFloat = false ∧ rangeTypeIn s.minInt s.maxInt = none

/-! ## The loop -/

/-- The range is that of the integers `ns`. -/
structure ItemRange.Bounds (s : ItemRange) (ns : List Int) : Prop where
  initInt : s.initInt = true
  initFloat : s.initFloat = false
  least : s.minInt ∈ ns ∧ ∀ n ∈ ns, s.minInt ≤ n
  greatest : s.maxInt ∈ ns ∧ ∀ n ∈ ns, n ≤ s.maxInt

/-- The summary of the items that the loop has seen; `none` is the early return. -/
inductive RangeOf : List CreateValue → Option ItemRange → Prop
  | start : RangeOf [] (some ⟨0, 0, false, false⟩)
  | ints {items ns s} : items.mapM CreateValue.int? = some ns → s.Bounds ns →
      RangeOf items (some s)
  | floats {items} : items ≠ [] → (∀ item ∈ items, item.type = .float) →
      RangeOf items (some ⟨0, 0, false, true⟩)
  | mixed {items} : items.mapM CreateValue.int? = none →
      (¬∀ item ∈ items, item.type = .float) → RangeOf items none

theorem mapM_int?_snoc (items : List CreateValue) (item : CreateValue) :
    (items ++ [item]).mapM CreateValue.int? =
      (items.mapM CreateValue.int?).bind fun ns => item.int?.map fun n => ns ++ [n] := by
  rw [List.mapM_append]
  cases items.mapM CreateValue.int? with
  | none => rfl
  | some ns =>
      cases one : item.int? with
      | none => simp [one]
      | some n => simp [one]

theorem mapM_int?_floats {items : List CreateValue} (nonempty : items ≠ [])
    (all : ∀ item ∈ items, item.type = .float) : items.mapM CreateValue.int? = none := by
  obtain ⟨first, rest, rfl⟩ := List.exists_cons_of_ne_nil nonempty
  have float : first.type = .float := all first List.mem_cons_self
  simp [CreateValue.int?, float]

/-- The three kinds of items. -/
theorem CreateValue.int?_cases (item : CreateValue) :
    (∃ n, item.int? = some n ∧ item.type ≠ .float ∧ ∀ s : ItemRange, s.add item = s.addInt n) ∨
      (item.int? = none ∧ item.type = .float ∧
        ∀ s : ItemRange, s.add item = if s.initInt then none else some { s with initFloat := true }) ∨
      (item.int? = none ∧ item.type ≠ .float ∧ ∀ s : ItemRange, s.add item = none) := by
  rw [CreateValue.int?]
  split
  case h_1 type => exact Or.inl ⟨_, rfl, by simp [type], fun s => by simp [ItemRange.add, type]⟩
  case h_2 type => exact Or.inl ⟨_, rfl, by simp [type], fun s => by simp [ItemRange.add, type]⟩
  case h_3 notI32 notU32 =>
    by_cases float : item.type = .float
    · exact Or.inr (Or.inl ⟨rfl, float, fun s => by simp [ItemRange.add, float]⟩)
    · refine Or.inr (Or.inr ⟨rfl, float, fun s => ?_⟩)
      rw [ItemRange.add]
      split
      case h_1 type => exact absurd type notI32
      case h_2 type => exact absurd type notU32
      case h_3 type => exact absurd type float
      case h_4 => rfl

theorem ItemRange.Bounds.addInt {s : ItemRange} {ns : List Int} (bounds : s.Bounds ns) (n : Int) :
    ∃ s', s.addInt n = some s' ∧ s'.Bounds (ns ++ [n]) := by
  obtain ⟨initInt, initFloat, ⟨leastIn, least⟩, ⟨greatestIn, greatest⟩⟩ := bounds
  refine ⟨{ s with minInt := min s.minInt n, maxInt := max s.maxInt n }, ?_, ?_⟩
  · simp [ItemRange.addInt, initInt, initFloat]
  · refine ⟨initInt, initFloat, ⟨?_, ?_⟩, ?_, ?_⟩
    · rcases min_choice s.minInt n with same | same
      · exact List.mem_append_left _ (by simpa only [same] using leastIn)
      · exact List.mem_append_right _ (by simp only [same, List.mem_singleton])
    · intro m isIn
      rcases List.mem_append.mp isIn with old | new
      · exact le_trans (min_le_left _ _) (least m old)
      · rw [List.mem_singleton.mp new]
        exact min_le_right _ _
    · rcases max_choice s.maxInt n with same | same
      · exact List.mem_append_left _ (by simpa only [same] using greatestIn)
      · exact List.mem_append_right _ (by simp only [same, List.mem_singleton])
    · intro m isIn
      rcases List.mem_append.mp isIn with old | new
      · exact le_trans (greatest m old) (le_max_left _ _)
      · rw [List.mem_singleton.mp new]
        exact le_max_right _ _

/-- The round of the loop keeps the summary. -/
theorem RangeOf.add {items : List CreateValue} {r : Option ItemRange} (seen : RangeOf items r)
    (item : CreateValue) : RangeOf (items ++ [item]) (r.bind (·.add item)) := by
  have snoc := mapM_int?_snoc items item
  rcases item.int?_cases with ⟨n, int, notFloat, add⟩ | ⟨notInt, float, add⟩ | ⟨notInt, notFloat, add⟩
  · have someInt : ¬∀ item' ∈ items ++ [item], item'.type = .float :=
      fun all => notFloat (all item (by simp))
    rw [int] at snoc
    cases seen with
    | start =>
        rw [Option.bind_some, add]
        exact .ints snoc ⟨rfl, rfl, ⟨by simp, by simp⟩, by simp, by simp⟩
    | ints read bounds =>
        obtain ⟨s', added, bounds'⟩ := bounds.addInt n
        rw [Option.bind_some, add, added]
        rw [read] at snoc
        exact .ints snoc bounds'
    | floats nonempty all =>
        rw [Option.bind_some, add]
        rw [mapM_int?_floats nonempty all] at snoc
        exact .mixed snoc someInt
    | mixed read notFloats =>
        rw [read] at snoc
        exact .mixed snoc someInt
  · rw [notInt] at snoc
    have none : (items ++ [item]).mapM CreateValue.int? = none := by
      rw [snoc]
      cases items.mapM CreateValue.int? <;> rfl
    cases seen with
    | start =>
        rw [Option.bind_some, add]
        exact .floats (by simp) (by simpa using float)
    | ints read bounds =>
        rw [Option.bind_some, add, if_pos bounds.initInt]
        refine .mixed none fun all => ?_
        have nonempty : items ≠ [] := by
          rintro rfl
          cases read
          cases bounds.least.1
        have before := mapM_int?_floats nonempty fun other isIn => all other (by simp [isIn])
        cases read.symm.trans before
    | floats nonempty all =>
        rw [Option.bind_some, add]
        refine .floats (by simp) fun other isIn => ?_
        rcases List.mem_append.mp isIn with old | new
        · exact all other old
        · rw [List.mem_singleton.mp new]
          exact float
    | mixed read notFloats =>
        exact .mixed none fun all => notFloats fun other isIn => all other (by simp [isIn])
  · rw [notInt] at snoc
    have none : (items ++ [item]).mapM CreateValue.int? = none := by
      rw [snoc]
      cases items.mapM CreateValue.int? <;> rfl
    have returned : r.bind (·.add item) = .none := by
      cases r with
      | none => rfl
      | some s => exact add s
    rw [returned]
    exact .mixed none fun all => notFloat (all item (by simp))

theorem rangeOf_foldlM (items : List CreateValue) :
    RangeOf items (items.foldlM ItemRange.add ⟨0, 0, false, false⟩) := by
  induction items using List.reverseRecOn with
  | nil => exact .start
  | append_singleton items item ih =>
      have folded := ih.add item
      rw [List.foldlM_append]
      simpa using folded

/-- The loop folds `ItemRange.add` over the items. -/
theorem itemRange_eq {c : Create} {vector : Dynarray} {items : List CreateValue}
    (isItems : ItemsAre c vector items) :
    ∀ n i s, i + n = items.length →
      itemRange c vector n i s = .ok ((items.drop i).foldlM ItemRange.add s) := by
  intro n
  induction n with
  | zero =>
      intro i s whole
      rw [List.drop_eq_nil_of_le (by omega)]
      rfl
  | succ n ih =>
      intro i s whole
      have less : i < items.length := by omega
      obtain ⟨handle, read, value⟩ := isItems.2 i items[i] (List.getElem?_eq_getElem less)
      rw [itemRange, read, List.drop_eq_getElem_cons less, List.foldlM_cons]
      change (cvValueAt c handle >>= _) = _
      rw [value]
      rw [ExceptRules.ok_bind]
      cases s.add items[i] with
      | none => rfl
      | some s' => exact ih (i + 1) s' (by omega)

/-! ## The type -/

theorem bounds_inRange {s : ItemRange} {ns : List Int} (bounds : s.Bounds ns) (t : NumberType) :
    (∀ n ∈ ns, t.InRange n) ↔ t.least ≤ s.minInt ∧ s.maxInt ≤ t.greatest := by
  constructor
  · intro all
    exact ⟨(all _ bounds.least.1).1, (all _ bounds.greatest.1).2⟩
  · rintro ⟨low, high⟩ n isIn
    exact ⟨le_trans low (bounds.least.2 n isIn), le_trans (bounds.greatest.2 n isIn) high⟩

theorem bounds_nonneg {s : ItemRange} {ns : List Int} (bounds : s.Bounds ns) :
    (∀ n ∈ ns, 0 ≤ n) ↔ 0 ≤ s.minInt :=
  ⟨fun all => all _ bounds.least.1, fun low n isIn => le_trans low (bounds.least.2 n isIn)⟩

theorem bounds_le {s : ItemRange} {ns : List Int} (bounds : s.Bounds ns) : s.minInt ≤ s.maxInt :=
  bounds.least.2 _ bounds.greatest.1

/-- The chain of comparisons finds the narrowest type. -/
theorem rangeTypeIn_eq {s : ItemRange} {ns : List Int} (bounds : s.Bounds ns) :
    rangeTypeIn s.minInt s.maxInt = (NumberType.narrowest ns).map NumberType.vectorType := by
  have ordered := bounds_le bounds
  rw [NumberType.narrowest]
  simp only [bounds_nonneg bounds, bounds_inRange bounds]
  rw [rangeTypeIn]
  by_cases low : 0 ≤ s.minInt
  · rw [if_pos low]
    simp only [low, true_and, List.find?_cons, List.find?_nil, NumberType.least,
      NumberType.greatest]
    by_cases small : s.maxInt ≤ 255
    · simp [small, NumberType.vectorType]
    by_cases medium : s.maxInt ≤ 65535
    · simp [small, medium, NumberType.vectorType]
    by_cases large : s.maxInt ≤ 4294967295
    · simp [small, medium, large, NumberType.vectorType]
    · rw [if_neg small, if_neg medium, if_neg large, if_neg (by omega), if_neg (by omega),
        if_neg (by omega)]
      simp [small, medium, large]
  · rw [if_neg low, if_neg (by omega), if_neg (by omega), if_neg (by omega)]
    simp only [List.find?_cons, List.find?_nil, NumberType.least, NumberType.greatest]
    by_cases small : -128 ≤ s.minInt ∧ s.maxInt ≤ 127
    · simp [small, NumberType.vectorType]
    by_cases medium : -32768 ≤ s.minInt ∧ s.maxInt ≤ 32767
    · simp [small, medium, NumberType.vectorType]
    by_cases large : -2147483648 ≤ s.minInt ∧ s.maxInt ≤ 2147483647
    · simp [small, medium, large, NumberType.vectorType]
    · simp [small, medium, large]

/-- The items are integers, and no type of one sign holds them all. -/
def SpansSigns (items : List CreateValue) : Prop :=
  ∃ ns, items.mapM CreateValue.int? = some ns ∧ (∃ n ∈ ns, n < 0) ∧ ∃ n ∈ ns, 2147483647 < n

theorem CreateValue.int?_range {item : CreateValue} {n : Int} (int : item.int? = some n) :
    -2147483648 ≤ n ∧ n ≤ 4294967295 := by
  have bound := item.data.toNat_lt
  rw [CreateValue.int?] at int
  split at int
  case h_1 =>
    cases int
    rw [dataI32_eq]
    split <;> omega
  case h_2 =>
    cases int
    omega
  case h_3 => cases int

theorem mapM_int?_range {items : List CreateValue} {ns : List Int}
    (read : items.mapM CreateValue.int? = some ns) :
    ∀ n ∈ ns, -2147483648 ≤ n ∧ n ≤ 4294967295 := by
  induction items using List.reverseRecOn generalizing ns with
  | nil =>
      cases read
      simp
  | append_singleton items item ih =>
      rw [mapM_int?_snoc] at read
      obtain ⟨ms, before, rest⟩ := Option.bind_eq_some_iff.mp read
      obtain ⟨m, int, rfl⟩ := Option.map_eq_some_iff.mp rest
      intro n isIn
      rcases List.mem_append.mp isIn with old | new
      · exact ih before n old
      · rw [List.mem_singleton.mp new]
        exact CreateValue.int?_range int

theorem narrowest_eq_none {ns : List Int}
    (range : ∀ n ∈ ns, -2147483648 ≤ n ∧ n ≤ 4294967295) :
    NumberType.narrowest ns = none ↔ (∃ n ∈ ns, n < 0) ∧ ∃ n ∈ ns, 2147483647 < n := by
  rw [NumberType.narrowest, List.find?_eq_none]
  by_cases nonneg : ∀ n ∈ ns, 0 ≤ n
  · rw [if_pos nonneg]
    constructor
    · intro misses
      exact absurd (decide_eq_true fun n isIn => ⟨nonneg n isIn, (range n isIn).2⟩)
        (misses .u32 (by simp))
    · rintro ⟨⟨n, isIn, negative⟩, -⟩
      exact absurd (nonneg n isIn) (by omega)
  · rw [if_neg nonneg]
    push Not at nonneg
    constructor
    · intro misses
      refine ⟨nonneg, ?_⟩
      by_contra low
      push Not at low
      exact misses .i32 (by simp) (decide_eq_true fun n isIn => ⟨(range n isIn).1, low n isIn⟩)
    · rintro ⟨-, n, isIn, large⟩ t isCandidate
      rw [decide_eq_true_eq]
      intro all
      have high : n ≤ t.greatest := (all n isIn).2
      simp only [List.mem_cons, List.not_mem_nil, or_false] at isCandidate
      rcases isCandidate with rfl | rfl | rfl
      all_goals
        simp only [NumberType.greatest] at high
        omega

/-- The loop over the items of a vector. -/
theorem PrivValueVector.itemRange {c : Create} {v : CreateValue} {vector : Dynarray}
    {items : List CreateValue} (isVector : PrivValueVector c v vector items) :
    itemRange c vector vector.nItems 0 ⟨0, 0, false, false⟩ =
      .ok (items.foldlM ItemRange.add ⟨0, 0, false, false⟩) := by
  have loop := itemRange_eq isVector.holds items.length 0 ⟨0, 0, false, false⟩ (Nat.zero_add _)
  rw [List.drop_zero, ← isVector.holds.1] at loop
  exact loop

theorem createVectorCompression_eq {c : Create} {v : CreateValue} {vector : Dynarray}
    {items : List CreateValue} (isVector : PrivValueVector c v vector items) :
    createVectorCompression c v =
      .ok (match items.foldlM ItemRange.add ⟨0, 0, false, false⟩ with
        | none => v.type
        | some s => if s.initFloat then .vectorFloat else rangeType s.minInt s.maxInt) := by
  rw [createVectorCompression, isVector.found]
  change (itemRange c vector vector.nItems 0 ⟨0, 0, false, false⟩ >>= _) = _
  rw [isVector.itemRange]
  change (match items.foldlM ItemRange.add _ with | none => _ | some s => _) = _
  cases items.foldlM ItemRange.add ⟨0, 0, false, false⟩ <;> rfl

theorem assertsCompression_iff {c : Create} {v : CreateValue} {vector : Dynarray}
    {items : List CreateValue} (isVector : PrivValueVector c v vector items) :
    AssertsCompression c v ↔ SpansSigns items := by
  have loop := isVector.itemRange
  have seen := rangeOf_foldlM items
  constructor
  · rintro ⟨vector', s, found, ran, noFloat, noType⟩
    rw [isVector.found] at found
    cases found
    rw [loop] at ran
    rw [Except.ok.inj ran] at seen
    cases seen with
    | start => exact absurd rfl isVector.nonempty
    | ints read bounds =>
        rw [rangeTypeIn_eq bounds, Option.map_eq_none_iff] at noType
        exact ⟨_, read, (narrowest_eq_none (mapM_int?_range read)).mp noType⟩
    | floats => cases noFloat
  · rintro ⟨ns, read, spans⟩
    have none := (narrowest_eq_none (mapM_int?_range read)).mpr spans
    generalize folded : items.foldlM ItemRange.add ⟨0, 0, false, false⟩ = r at loop seen
    cases seen with
    | start => exact absurd rfl isVector.nonempty
    | ints read' bounds =>
        cases read.symm.trans read'
        exact ⟨vector, _, isVector.found, loop, bounds.initFloat, by
          rw [rangeTypeIn_eq bounds, none]; rfl⟩
    | floats nonempty all =>
        cases read.symm.trans (mapM_int?_floats nonempty all)
    | mixed read' => cases read.symm.trans read'

/-- The type that is returned, unless the assertion is hit. -/
theorem createVectorCompression_type {c : Create} {v : CreateValue} {vector : Dynarray}
    {items : List CreateValue} (isVector : PrivValueVector c v vector items)
    (narrow : ¬SpansSigns items) :
    createVectorCompression c v = .ok (compressionOf v.type items) := by
  have seen := rangeOf_foldlM items
  rw [createVectorCompression_eq isVector]
  congr 1
  generalize items.foldlM ItemRange.add ⟨0, 0, false, false⟩ = r at seen
  rw [compressionOf]
  cases seen with
  | start => exact absurd rfl isVector.nonempty
  | ints read bounds =>
      have found : NumberType.narrowest _ ≠ none := fun none =>
        narrow ⟨_, read, (narrowest_eq_none (mapM_int?_range read)).mp none⟩
      obtain ⟨t, narrowest⟩ := Option.ne_none_iff_exists'.mp found
      simp only [read, narrowest, bounds.initFloat, rangeType_eq, rangeTypeIn_eq bounds]
      rfl
  | floats nonempty all =>
      simp only [mapM_int?_floats nonempty all, if_pos all]
      rfl
  | mixed read notFloats => simp only [read, if_neg notFloats]

/-! ## The casts -/

/-- The integer in a 32-bit hash of an item of the type: `pointless_hash_i32_32` and
`pointless_hash_u32_32` return their argument. -/
def NumberType.ofHash : NumberType → UInt32 → Int
  | i8, h | i16, h | i32, h => dataI32 h
  | _, h => h.toNat

/-- The casts of an item to the type keep its integer. -/
theorem castsKeep {t : NumberType} {item : CreateValue} {n : Int} (int : item.int? = some n)
    (candidate : t ∈ [NumberType.u8, .u16, .u32] ∨ t ∈ [NumberType.i8, .i16, .i32])
    (range : t.InRange n) :
    t.toInt (decode (compressedItemBytes t.vectorType item)) = n ∧
      t.ofHash (hashInt32 (createGetIntAsInt64 item)) = n := by
  have read : createGetIntAsInt64 item = n := by
    rw [CreateValue.int?] at int
    rw [createGetIntAsInt64]
    split at int
    case h_1 type =>
      rw [if_pos type]
      exact Option.some.inj int
    case h_2 type =>
      rw [if_neg (by simp [type])]
      exact Option.some.inj int
    case h_3 => cases int
  have word := toNat_u64_ofInt n
  have hash := toNat_hashInt32 n
  obtain ⟨low, high⟩ := range
  simp only [List.mem_cons, List.not_mem_nil, or_false] at candidate
  rcases candidate with (rfl | rfl | rfl) | rfl | rfl | rfl
  all_goals
    simp only [NumberType.vectorType, compressedItemBytes, NumberType.toInt, NumberType.ofHash,
      read, dataI32_eq, toSigned, decode_encode]
    simp only [NumberType.least, NumberType.greatest] at low high
    constructor <;> omega

/-- The type of a compressed vector of integers is one of six, and holds the items. -/
theorem compressionOf_vectorType {type : ValueType} {items : List CreateValue} {t : NumberType}
    (isValue : type = .vectorValue ∨ type = .vectorValueHashable) (whole : t ≠ .float)
    (compressed : compressionOf type items = t.vectorType) :
    ∃ ns, items.mapM CreateValue.int? = some ns ∧
      (t ∈ [NumberType.u8, .u16, .u32] ∨ t ∈ [NumberType.i8, .i16, .i32]) ∧
      ∀ n ∈ ns, t.InRange n := by
  have notValue : type ≠ t.vectorType := by
    rcases isValue with rfl | rfl
    all_goals cases t <;> nofun
  have notFloat : ValueType.vectorFloat ≠ t.vectorType := by
    cases t with
    | float => exact absurd rfl whole
    | _ => nofun
  rw [compressionOf] at compressed
  split at compressed
  case h_1 ns read =>
    refine ⟨ns, read, ?_⟩
    generalize found : NumberType.narrowest ns = r at compressed
    cases r with
    | none => exact absurd compressed notValue
    | some t' =>
        obtain rfl : t' = t := by
          cases t' <;> cases t <;> first | rfl | cases compressed
        rw [NumberType.narrowest] at found
        refine ⟨?_, of_decide_eq_true (List.find?_some (p := fun t =>
          decide (∀ n ∈ ns, NumberType.InRange t n)) found)⟩
        have isCandidate := List.mem_of_find?_eq_some found
        split at isCandidate
        · exact Or.inl isCandidate
        · exact Or.inr isCandidate
  case h_2 =>
    split at compressed
    · exact absurd compressed notFloat
    · exact absurd compressed notValue

theorem mapM_int?_mem {items : List CreateValue} {ns : List Int}
    (read : items.mapM CreateValue.int? = some ns) {item : CreateValue} (isIn : item ∈ items) :
    ∃ n ∈ ns, item.int? = some n := by
  induction items using List.reverseRecOn generalizing ns with
  | nil => cases isIn
  | append_singleton items last ih =>
      rw [mapM_int?_snoc] at read
      obtain ⟨ms, before, rest⟩ := Option.bind_eq_some_iff.mp read
      obtain ⟨m, int, rfl⟩ := Option.map_eq_some_iff.mp rest
      rcases List.mem_append.mp isIn with old | new
      · obtain ⟨n, among, int⟩ := ih before old
        exact ⟨n, List.mem_append_left _ among, int⟩
      · rw [List.mem_singleton.mp new]
        exact ⟨m, by simp, int⟩

/-- What compression owes a vector. -/
structure Compresses (c : Create) (v : CreateValue) (vector : Dynarray)
    (items : List CreateValue) : Prop where
  total : ¬AssertsCompression c v
  type : createVectorCompression c v = .ok (compressionOf v.type items)
  written : ∀ t : NumberType, t ≠ .float → createVectorCompression c v = .ok t.vectorType →
    ∀ item ∈ items, ∃ n, item.int? = some n ∧
      t.toInt (decode (compressedItemBytes t.vectorType item)) = n
  hashed : ∀ t : NumberType, t ≠ .float → createVectorCompression c v = .ok t.vectorType →
    ∀ i item, items[i]? = some item → ∃ n h, item.int? = some n ∧
      hashCreateCompressedItem c (v.compressed t.vectorType) vector.data i = .ok h ∧
      t.ofHash h = n

theorem hashCreateCompressedItem_eq {c : Create} {v : CreateValue} {vector : Dynarray}
    {items : List CreateValue} (isItems : ItemsAre c vector items) {t : NumberType}
    (candidate : t ∈ [NumberType.u8, .u16, .u32] ∨ t ∈ [NumberType.i8, .i16, .i32])
    {i : Nat} {item : CreateValue} (found : items[i]? = some item) :
    hashCreateCompressedItem c (v.compressed t.vectorType) vector.data i =
      .ok (hashInt32 (createGetIntAsInt64 item)) := by
  obtain ⟨handle, read, value⟩ := isItems.2 i item found
  change loadU32 vector.data (4 * i) = _ at read
  rw [hashCreateCompressedItem, read]
  change (cvValueAt c handle >>= _) = _
  rw [value]
  simp only [List.mem_cons, List.not_mem_nil, or_false] at candidate
  rcases candidate with (rfl | rfl | rfl) | rfl | rfl | rfl <;> rfl

/-- Compression keeps its word for every vector but those of integers that no type of one
sign holds. -/
theorem compresses_iff {c : Create} {v : CreateValue} {vector : Dynarray}
    {items : List CreateValue} (isVector : PrivValueVector c v vector items) :
    Compresses c v vector items ↔ ¬SpansSigns items := by
  constructor
  · intro compresses spans
    exact compresses.total ((assertsCompression_iff isVector).mpr spans)
  · intro narrow
    have type := createVectorCompression_type isVector narrow
    refine ⟨fun asserts => narrow ((assertsCompression_iff isVector).mp asserts), type, ?_, ?_⟩
    · intro t whole compressed item isIn
      rw [type] at compressed
      obtain ⟨ns, read, candidate, range⟩ :=
        compressionOf_vectorType isVector.type whole (Except.ok.inj compressed)
      obtain ⟨n, among, int⟩ := mapM_int?_mem read isIn
      exact ⟨n, int, (castsKeep int candidate (range n among)).1⟩
    · intro t whole compressed i item found
      rw [type] at compressed
      obtain ⟨ns, read, candidate, range⟩ :=
        compressionOf_vectorType isVector.type whole (Except.ok.inj compressed)
      obtain ⟨n, among, int⟩ := mapM_int?_mem read (List.mem_of_getElem? found)
      exact ⟨n, _, int, hashCreateCompressedItem_eq isVector.holds candidate found,
        (castsKeep int candidate (range n among)).2⟩

/-- The values `-1`, `2147483648` and `7`. -/
def mixedSigns : Create :=
  { createBegin64 with
    values := [.plain .i32 0xffffffff, .plain .u32 0x80000000, .plain .u32 7]
    privVectorValues := [⟨4, [0, 1]⟩, ⟨4, [0, 2]⟩] }

/-- A vector of the first two values, tagged hashable, comes back as an unhashable one. -/
theorem mixedSigns_asserts :
    PrivValueVector mixedSigns (.plain .vectorValueHashable 0) ⟨4, [0, 1]⟩
        (mixedSigns.values.take 2) ∧
      AssertsCompression mixedSigns (.plain .vectorValueHashable 0) ∧
      createVectorCompression mixedSigns (.plain .vectorValueHashable 0) =
        .ok .vectorValue ∧
      ¬Compresses mixedSigns (.plain .vectorValueHashable 0) ⟨4, [0, 1]⟩
        (mixedSigns.values.take 2) := by
  have asserts : AssertsCompression mixedSigns (.plain .vectorValueHashable 0) :=
    ⟨⟨4, [0, 1]⟩, ⟨-1, 2147483648, true, false⟩, rfl, by cbv, rfl, rfl⟩
  refine ⟨⟨Or.inr rfl, rfl, rfl, ⟨rfl, ?_⟩, List.cons_ne_nil _ _⟩, asserts, by cbv,
    fun compresses => compresses.total asserts⟩
  intro i item found
  rcases i with _ | _ | i
  · cases found
    exact ⟨0, by cbv, rfl⟩
  · cases found
    exact ⟨1, by cbv, rfl⟩
  · cases found

theorem compresses_iff_signed :
    Compresses mixedSigns (.plain .vectorValue 1) ⟨4, [0, 2]⟩
      [.plain .i32 0xffffffff, .plain .u32 7] := by
  refine (compresses_iff ⟨Or.inl rfl, rfl, rfl, ⟨rfl, ?_⟩, List.cons_ne_nil _ _⟩).mpr ?_
  · intro i item found
    match i, found with
    | 0, rfl => exact ⟨0, by cbv, rfl⟩
    | 1, rfl => exact ⟨2, by cbv, rfl⟩
  · rintro ⟨ns, read, -, n, isIn, large⟩
    obtain rfl : ns = [-1, 7] := Option.some.inj (read.symm.trans rfl)
    have small : ∀ n ∈ [(-1 : Int), 7], ¬2147483647 < n := by decide
    exact small n isIn large

end Pointless
