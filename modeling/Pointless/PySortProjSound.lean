import Mathlib.Order.Lex
import Mathlib.Data.List.Lex
import Pointless.PySortProj
import Pointless.CustomSortSound
import Pointless.ValidateSound
import Pointless.VectorHash
import Pointless.Lib.Lexicographic

/-!
# What `sort_proj` does to a projection

The bounds test of `sort_proj` looks at the least item only when the items have a
sign, and at the greatest only when they have none; all counts are taken modulo
2 ^ 32, and the sort is given the count of the projection as an `int`. This module
says exactly when the result is nevertheless what a bounds test of every item and a
sort of all of them would give.
-/

namespace Pointless

open ExceptRules InPlace Lexicographic

/-! ## Primitive vectors of a file -/

theorem itemType?_vectorType (t : NumberType) : itemType? t.vectorType = some t := by
  cases t <;> rfl

theorem vectorItemLen_vectorType (t : NumberType) : vectorItemLen t.vectorType = some t.size := by
  cases t <;> rfl

theorem vectorType_ne_empty (t : NumberType) : t.vectorType ≠ .vectorEmpty := by
  cases t <;> exact nofun

/-- The items of a primitive vector of an accepted file begin somewhere. -/
theorem exists_vectorBasePtr {buf : List UInt8} {fuel : Nat} {p : OpenFile} {error : Option String}
    {v : Value} {t : NumberType} (opened : openB fuel buf = .ok (p, error)) (reach : Reachable p v)
    (type : v.type = t.vectorType) : ∃ base, readerVectorBasePtr p v = .ok base := by
  have sound := openB_sound opened
  obtain ⟨off, m, vector⟩ := (sound.checked v reach).vector sound.sized
    (type ▸ vectorItemLen_vectorType t)
  refine ⟨off + 4, ?_⟩
  rw [readerVectorBasePtr, if_neg (type ▸ vectorType_ne_empty t), vector.offset]
  rfl

/-! ## Projections and value vectors -/

/-- A `PrimVector` with the integers `zs`. -/
def primOf (t : NumberType) (zs : List Int) : PyPointlessPrimVector :=
  ⟨⟨t.size, zs.map t.toWord⟩, t⟩

/-- The object is a value vector of the integers `zs`: a slice of an integer vector of an
accepted file, its empty vector, or a `PrimVector`. -/
inductive ValueVector : PyObject → List Int → Prop
  | typed {buf fuel p error v nItems i n zs} {t : NumberType}
      (opened : openB fuel buf = .ok (p, error)) (reach : Reachable p v)
      (whole : t ≠ .float) (type : v.type = t.vectorType)
      (total : readerVectorNItems p v = .ok nItems)
      (inside : i.toNat + n.toNat ≤ nItems.toNat) (length : zs.length = n.toNat)
      (items : ∀ k (less : k < zs.length),
        t.toInt <$> readerVectorWord p v t.size (i.toNat + k) = .ok zs[k]) :
      ValueVector (.vector p v i n) zs
  | empty {p v} (type : v.type = .vectorEmpty) : ValueVector (.vector p v 0 0) []
  | primVector {zs} {t : NumberType} (whole : t ≠ .float)
      (fits : ∀ z ∈ zs, t.toInt (t.toWord z) = z) : ValueVector (.primVector (primOf t zs)) zs

/-- Every slice of an integer vector of an accepted file is a value vector of some integers. -/
theorem exists_valueVector {buf : List UInt8} {fuel : Nat} {p : OpenFile} {error : Option String}
    {v : Value} {nItems i n : UInt32} {t : NumberType} (opened : openB fuel buf = .ok (p, error))
    (reach : Reachable p v) (whole : t ≠ .float) (type : v.type = t.vectorType)
    (total : readerVectorNItems p v = .ok nItems) (inside : i.toNat + n.toNat ≤ nItems.toNat) :
    ∃ zs, ValueVector (.vector p v i n) zs := by
  have itemLen : vectorItemLen v.type = some t.size := type ▸ vectorItemLen_vectorType t
  have nonempty : v.type ≠ .vectorEmpty := type ▸ vectorType_ne_empty t
  have read : ∀ k ∈ List.range n.toNat,
      ∃ z, t.toInt <$> readerVectorWord p v t.size (i.toNat + k) = .ok z := by
    intro k mem
    have less := List.mem_range.mp mem
    obtain ⟨word, loaded⟩ := (openB_sound opened).word reach itemLen nonempty total
      (show i.toNat + k < nItems.toNat by omega)
    exact ⟨t.toInt word, by rw [loaded, map_ok]⟩
  obtain ⟨zs, ran⟩ := exists_mapM_ok read
  have each := mapM_eq_ok.mp ran
  have length := each.length_eq
  rw [List.length_range] at length
  refine ⟨zs, .typed opened reach whole type total inside length.symm fun k less => ?_⟩
  have here := each.get (by rw [List.length_range]; omega) less
  simpa using here

/-- The entries of the value vectors at an index. -/
def tupleAt (columns : List (List Int)) (z : Int) : List Int :=
  columns.map fun column => column.getD z.toNat 0

/-- The length of the first value vector. -/
def columnLength (columns : List (List Int)) : Nat := (columns.headD []).length

/-- The value vectors have one length, and the items of the projection are positions of
them. -/
structure Projects (zs : List Int) (columns : List (List Int)) : Prop where
  lengths : ∀ column ∈ columns, column.length = columnLength columns
  items : ∀ z ∈ zs, 0 ≤ z ∧ z < columnLength columns

/-- The order of the projection. -/
def TupleLe (columns : List (List Int)) (x y : Int) : Prop := tupleAt columns x ≤ tupleAt columns y

/-- What `sort_proj` is to do: sort a projection of which every item is a position, raise an
exception for any other and leave it as it is. An empty projection may pass unseen. -/
def SortProjMeets (t : NumberType) (zs : List Int) (columns : List (List Int)) :
    Res (PyPointlessPrimVector × Option String) → Prop
  | .ok (p, none) => zs = [] ∧ p = primOf t zs ∨
      Projects zs columns ∧ ∃ zs', p = primOf t zs' ∧ zs'.Perm zs ∧ zs'.Pairwise (TupleLe columns)
  | .ok (p, some _) => p = primOf t zs ∧ ¬Projects zs columns
  | .error _ => False

/-! ## Items -/

/-- A word of the item size is read back from its place. -/
theorem primVectorItem_words {t : NumberType} {ys : List Nat} (narrow : ∀ n ∈ ys, n < 256 ^ t.size)
    {i : Nat} (less : i < ys.length) : primVectorItem ⟨⟨t.size, ys⟩, t⟩ i = .ok (t.toInt ys[i]) := by
  rw [primVectorItem, Dynarray.loadWord_data narrow less, map_ok]

theorem map_toWord_narrow (t : NumberType) (zs : List Int) :
    ∀ n ∈ zs.map t.toWord, n < 256 ^ t.size := by
  intro n mem
  obtain ⟨z, -, rfl⟩ := List.mem_map.mp mem
  exact t.toWord_lt z

theorem primVectorItem_primOf {t : NumberType} {zs : List Int}
    (fits : ∀ z ∈ zs, t.toInt (t.toWord z) = z) {i : Nat} (less : i < zs.length) :
    primVectorItem (primOf t zs) i = .ok zs[i] := by
  rw [primOf, primVectorItem_words (map_toWord_narrow t zs) (by rw [List.length_map]; exact less),
    List.getElem_map, fits _ (List.getElem_mem less)]

/-- What is known of the state of a value vector: its length, and how its items compare. -/
structure Shows (v : SortValues) (column : List Int) : Prop where
  count : v.nItems = UInt32.ofNat column.length
  compares : ∀ a b (ha : a < column.length) (hb : b < column.length),
    v.cmpCmp a b = .ok (simpleCmp column[a] column[b])

theorem primSortProjCmpCmp_whole {t : NumberType} (whole : t ≠ .float) {item : Nat → Res Int}
    {a b : Nat} {x y : Int} (at_a : item a = .ok x) (at_b : item b = .ok y) :
    primSortProjCmpCmp t item a b = .ok (simpleCmp x y) := by
  rw [primSortProjCmpCmp, at_a, ok_bind, at_b, ok_bind, if_neg whole]
  rfl

theorem ValueVector.shows {o : PyObject} {column : List Int} (holds : ValueVector o column) :
    ∃ v, sortProjValues o = .ok v ∧ Shows v column := by
  cases holds with
  | @typed buf fuel p error v nItems i n _ t opened reach whole type total inside length items =>
      obtain ⟨off, base⟩ := exists_vectorBasePtr opened reach type
      refine ⟨⟨n, primSortProjCmpCmp t (sliceItem p t off i n)⟩, ?_, ?_,
        fun a b less_a less_b => ?_⟩
      · simp only [sortProjValues, type, itemType?_vectorType, base, ok_bind]
        rfl
      · rw [length, UInt32.ofNat_toNat]
      · have read : ∀ k (less : k < column.length), sliceItem p t off i n k =
            .ok column[k] := by
          intro k less
          rw [sliceItem, if_pos (by omega), ← items k less, readerVectorWord, base, ok_bind]
        exact primSortProjCmpCmp_whole whole (read a less_a) (read b less_b)
  | empty type =>
      refine ⟨⟨0, fun _ _ => fault .nullCallback⟩, ?_, rfl, fun a b less => ?_⟩
      · simp only [sortProjValues, type, itemType?, if_pos]
        rfl
      · exact absurd less (Nat.not_lt_zero a)
  | @primVector _ t whole fits =>
      refine ⟨_, rfl, ?_, fun a b less_a less_b => ?_⟩
      · exact congrArg UInt32.ofNat (List.length_map _)
      · exact primSortProjCmpCmp_whole whole (primVectorItem_primOf fits less_a)
          (primVectorItem_primOf fits less_b)

/-- The value vectors are all initialized. -/
theorem sortProjValues_ok {args : List PyObject} {columns : List (List Int)}
    (holds : List.Forall₂ ValueVector args columns) :
    ∃ values, args.mapM sortProjValues = .ok values ∧ List.Forall₂ Shows values columns := by
  induction holds with
  | nil => exact ⟨[], rfl, .nil⟩
  | cons first _ ih =>
      obtain ⟨v, ran, shows⟩ := first.shows
      obtain ⟨rest, ran', all⟩ := ih
      refine ⟨v :: rest, ?_, .cons shows all⟩
      rw [List.mapM_cons, ran, ok_bind, ran']
      rfl

/-! ## The comparison of two indices -/

/-- The loop over the value vectors compares the tuples. -/
theorem sortProjCompare_eq {values : List SortValues} {columns : List (List Int)} {n : Nat}
    (shows : List.Forall₂ Shows values columns) (lengths : ∀ column ∈ columns, column.length = n)
    {a b : Nat} (less_a : a < n) (less_b : b < n) :
    sortProjCompare values a b = .ok (lex simpleCmp (tupleAt columns a) (tupleAt columns b)) := by
  induction shows with
  | nil => rfl
  | @cons v column values columns first _ ih =>
      have length := lengths column List.mem_cons_self
      have entry : ∀ k < n, column.getD (k : Int).toNat 0 = column[k]?.getD 0 := by
        intro k _
        rw [Int.toNat_natCast, List.getD_eq_getElem?_getD]
      have compares := first.compares a b (by omega) (by omega)
      simp only [tupleAt, List.map_cons]
      rw [entry a less_a, entry b less_b, List.getElem?_eq_getElem (by omega),
        List.getElem?_eq_getElem (by omega), Option.getD_some, Option.getD_some, lex,
        sortProjCompare, compares, ok_bind]
      split
      · exact ih fun c mem => lengths c (List.mem_cons_of_mem column mem)
      · rfl

theorem simpleCmp_cases (x y : Int) : x < y ∧ simpleCmp x y = -1 ∨ x = y ∧ simpleCmp x y = 0 ∨
    y < x ∧ simpleCmp x y = 1 := by
  unfold simpleCmp
  split
  · exact Or.inr (Or.inl ⟨‹_›, rfl⟩)
  · split
    · exact Or.inl ⟨‹_›, rfl⟩
    · exact Or.inr (Or.inr ⟨by omega, rfl⟩)

/-- The sign of the comparison of two lists of integers is that of their order. -/
theorem lex_simpleCmp_pos {xs ys : List Int} : 0 < lex simpleCmp xs ys ↔ ys < xs := by
  induction xs generalizing ys with
  | nil => cases ys <;> simp
  | cons x xs ih =>
      cases ys with
      | nil => simp
      | cons y ys =>
          rw [List.cons_lt_cons_iff, lex]
          rcases simpleCmp_cases x y with ⟨less, value⟩ | ⟨same, value⟩ | ⟨greater, value⟩
          · rw [value, if_neg (by decide)]
            constructor
            · omega
            · rintro (less' | ⟨same, -⟩) <;> omega
          · rw [value, if_pos rfl, ih]
            constructor
            · exact fun rest => Or.inr ⟨same.symm, rest⟩
            · rintro (less | ⟨-, rest⟩)
              · omega
              · exact rest
          · rw [value, if_neg (by decide)]
            exact ⟨fun _ => Or.inl greater, fun _ => by decide⟩

theorem lex_simpleCmp_le {xs ys : List Int} : lex simpleCmp xs ys ≤ 0 ↔ xs ≤ ys := by
  rw [← not_lt, lex_simpleCmp_pos, not_lt]

theorem lex_simpleCmp_ge {xs ys : List Int} : 0 ≤ lex simpleCmp xs ys ↔ ys ≤ xs := by
  have swap : lex simpleCmp xs ys = -lex simpleCmp ys xs := by
    refine lex_swap fun a _ b _ => ?_
    rcases simpleCmp_cases a b with ⟨h, h'⟩ | ⟨h, h'⟩ | ⟨h, h'⟩ <;>
      rcases simpleCmp_cases b a with ⟨g, g'⟩ | ⟨g, g'⟩ | ⟨g, g'⟩ <;> omega
  rw [swap, ← lex_simpleCmp_le]
  omega

/-! ## The sort -/

/-- The order of the projection, on the words that its items are kept in. -/
def WordLe (t : NumberType) (columns : List (List Int)) (x y : Nat) : Prop :=
  TupleLe columns (t.toInt x) (t.toInt y)

/-- An item that is a position is the index it is converted to. -/
theorem sortProjIndex_eq {t : NumberType} {ys : List Nat} (narrow : ∀ n ∈ ys, n < 256 ^ t.size)
    {i : Nat} (less : i < ys.length) {n : Nat}
    (inside : 0 ≤ t.toInt ys[i] ∧ t.toInt ys[i] < n) (wide : t.toInt ys[i] < 2 ^ 64) :
    ∃ k < n, sortProjIndex ⟨⟨t.size, ys⟩, t⟩ i = .ok k ∧ (k : Int) = t.toInt ys[i] := by
  refine ⟨(t.toInt ys[i]).toNat, by omega, ?_, by omega⟩
  rw [sortProjIndex, primVectorItem_words narrow less, map_ok, Int.emod_eq_of_lt inside.1 wide]

theorem toInt_lt {t : NumberType} (whole : t ≠ .float) {n : Nat} (narrow : n < 256 ^ t.size) :
    t.toInt n < 2 ^ 64 := by
  cases t with
  | float => exact absurd rfl whole
  | i8 | i16 | i32 | i64 =>
      simp only [NumberType.size] at narrow
      simp only [NumberType.toInt]
      rcases toSigned_cases _ n with ⟨_, value⟩ | ⟨_, value⟩
      · rw [value]
        omega
      · rw [value]
        omega
  | u8 | u16 | u32 | u64 =>
      simp only [NumberType.size] at narrow
      simp only [NumberType.toInt]
      omega

section Sorting

variable {t : NumberType} {zs : List Int} {columns : List (List Int)} {values : List SortValues}

/-- What is known of every rearrangement of the items of a projection. -/
structure Positions (t : NumberType) (n : Nat) (ys : List Nat) : Prop where
  narrow : ∀ y ∈ ys, y < 256 ^ t.size
  inside : ∀ y ∈ ys, 0 ≤ t.toInt y ∧ t.toInt y < n

theorem Projects.positions (projects : Projects zs columns)
    (fits : ∀ z ∈ zs, t.toInt (t.toWord z) = z) {ys : List Nat} (perm : ys.Perm (zs.map t.toWord)) :
    Positions t (columnLength columns) ys := by
  refine ⟨fun y mem => map_toWord_narrow t zs y (perm.mem_iff.mp mem), fun y mem => ?_⟩
  obtain ⟨z, mem_z, rfl⟩ := List.mem_map.mp (perm.mem_iff.mp mem)
  rw [fits z mem_z]
  exact projects.items z mem_z

/-- A call of the comparator on positions of the value vectors. -/
theorem primSortProjCmp_eq (whole : t ≠ .float) (shows : List.Forall₂ Shows values columns)
    (lengths : ∀ column ∈ columns, column.length = columnLength columns) {ys : List Nat}
    (positions : Positions t (columnLength columns) ys) {zs₀ : List Nat} {i j : Nat}
    (less_i : i < ys.length) (less_j : j < ys.length) (own : Unit) :
    primSortProjCmp ⟨⟨t.size, zs₀⟩, t⟩ values i j ys own =
      .ok ((true, lex simpleCmp (tupleAt columns (t.toInt ys[i]))
        (tupleAt columns (t.toInt ys[j]))), own) := by
  have mem_i := List.getElem_mem less_i
  have mem_j := List.getElem_mem less_j
  obtain ⟨a, less_a, read_a, same_a⟩ := sortProjIndex_eq positions.narrow less_i
    (positions.inside _ mem_i) (toInt_lt whole (positions.narrow _ mem_i))
  obtain ⟨b, less_b, read_b, same_b⟩ := sortProjIndex_eq positions.narrow less_j
    (positions.inside _ mem_j) (toInt_lt whole (positions.narrow _ mem_j))
  rw [primSortProjCmp, read_a, ok_bind, read_b, ok_bind,
    sortProjCompare_eq shows lengths less_a less_b, ok_bind, same_a, same_b]
  rfl

/-- On positions of the value vectors the comparator is defined, and computes the order of the
tuples. -/
theorem primSortProjCmp_computes (whole : t ≠ .float) (shows : List.Forall₂ Shows values columns)
    (projects : Projects zs columns) (fits : ∀ z ∈ zs, t.toInt (t.toWord z) = z) :
    Defined (primSortProjCmp (primOf t zs) values) (zs.map t.toWord) ∧
      Computes (primSortProjCmp (primOf t zs) values) (WordLe t columns) (zs.map t.toWord) := by
  refine ⟨fun ys perm i j own less_i less_j => ?_, ?_, ?_, ?_⟩
  · exact ⟨_, primSortProjCmp_eq whole shows projects.lengths (projects.positions fits perm)
      less_i less_j own⟩
  · exact fun x y => le_total _ _
  · exact fun x y z => le_trans
  · intro ys perm i j x y own at_i at_j answer own' answered
    obtain ⟨less_i, rfl⟩ := List.getElem?_eq_some_iff.mp at_i
    obtain ⟨less_j, rfl⟩ := List.getElem?_eq_some_iff.mp at_j
    rw [primOf, primSortProjCmp_eq whole shows projects.lengths (projects.positions fits perm)
      less_i less_j own] at answered
    cases answered
    exact ⟨rfl, lex_simpleCmp_le, lex_simpleCmp_ge⟩

/-! ## The bounds test -/

/-- What the loop for `p_min` and `p_max` has found in the first `k` items. -/
structure Scanned (t : NumberType) (zs : List Int) (k : Nat) (m : Int × Int) : Prop where
  signed : t.isSigned = true →
    m.2 = 0 ∧ (0 < k → ∀ bound, bound ≤ m.1 ↔ ∀ z ∈ zs.take k, bound ≤ z)
  unsigned : t.isSigned = false →
    m.1 = 0 ∧ (0 < k → ∀ bound, m.2 < bound ↔ ∀ z ∈ zs.take k, z < bound)

theorem scan_ok (fits : ∀ z ∈ zs, t.toInt (t.toWord z) = z) {k : Nat} (few : k ≤ zs.length) :
    ∃ m, (List.range k).foldlM (minMaxRound (primOf t zs)) (0, 0) = .ok m ∧ Scanned t zs k m := by
  induction k with
  | zero => exact ⟨(0, 0), rfl, fun _ => ⟨rfl, fun no => absurd no (Nat.lt_irrefl 0)⟩,
      fun _ => ⟨rfl, fun no => absurd no (Nat.lt_irrefl 0)⟩⟩
  | succ k ih =>
      obtain ⟨⟨low, high⟩, ran, scanned⟩ := ih (by omega)
      have taken : ∀ P : Int → Prop, (∀ z ∈ zs.take (k + 1), P z) ↔
          (∀ z ∈ zs.take k, P z) ∧ P zs[k] := by
        intro P
        rw [List.take_succ_eq_append_getElem (by omega), List.forall_mem_append]
        simp
      have round : minMaxRound (primOf t zs) (low, high) k = .ok
          (if k = 0 ∨ (if t.isSigned then zs[k] else 0) < low then
              (if t.isSigned then zs[k] else 0) else low,
            if k = 0 ∨ (if t.isSigned then 0 else zs[k]) > high then
              (if t.isSigned then 0 else zs[k]) else high) := by
        rw [minMaxRound, primVectorItem_primOf fits (by omega), ok_bind]
        rfl
      refine ⟨_, by rw [foldlM_range_succ, ran, ok_bind, round], fun signed => ?_, fun unsigned => ?_⟩
      · obtain ⟨clear, least⟩ := scanned.signed signed
        simp only [signed, if_true] at clear least ⊢
        subst clear
        refine ⟨by simp, fun _ bound => ?_⟩
        rw [taken]
        by_cases start : k = 0
        · subst start
          simp
        · rw [← least (by omega) bound]
          split <;> omega
      · obtain ⟨clear, greatest⟩ := scanned.unsigned unsigned
        simp only [unsigned, if_false, Bool.false_eq_true] at clear greatest ⊢
        subst clear
        refine ⟨by simp, fun _ bound => ?_⟩
        rw [taken]
        by_cases start : k = 0
        · subst start
          simp
        · rw [← greatest (by omega) bound]
          split <;> omega

/-- The bounds test, on the items that it looks at and the length it compares them with. -/
def BoundsPass (t : NumberType) (zs : List Int) (n : Nat) : Prop :=
  if t.isSigned then 0 < n ∧ ∀ z ∈ zs, 0 ≤ z else ∀ z ∈ zs, z < n

theorem Scanned.boundsPass {k : Nat} {m : Int × Int} (scanned : Scanned t zs k m) (some : 0 < k)
    (n : Nat) : 0 ≤ m.1 ∧ m.2 < n ↔ BoundsPass t (zs.take k) n := by
  unfold BoundsPass
  cases sign : t.isSigned with
  | true =>
      obtain ⟨clear, least⟩ := scanned.signed sign
      rw [clear, least some, if_pos rfl, and_comm]
      simp
  | false =>
      obtain ⟨clear, greatest⟩ := scanned.unsigned sign
      rw [clear, greatest some]
      simp

/-- The checks of `sort_proj`, which counts modulo 2 ^ 32. -/
structure ChecksPass (t : NumberType) (zs : List Int) (columns : List (List Int)) : Prop where
  lengths : ∀ column ∈ columns, column.length % 2 ^ 32 = columnLength columns % 2 ^ 32
  bounds : zs.length % 2 ^ 32 = 0 ∨
    BoundsPass t (zs.take (zs.length % 2 ^ 32)) (columnLength columns % 2 ^ 32)

theorem toNat_ofNat (n : Nat) : (UInt32.ofNat n).toNat = n % 2 ^ 32 := UInt32.toNat_ofNat'

theorem ofNat_inj {n m : Nat} : UInt32.ofNat n = UInt32.ofNat m ↔ n % 2 ^ 32 = m % 2 ^ 32 := by
  rw [← UInt32.toNat_inj, toNat_ofNat, toNat_ofNat]

theorem checkLengths_ok (shows : List.Forall₂ Shows values columns) (n : Nat) :
    checkLengths (UInt32.ofNat n) values = .ok () ↔
      ∀ column ∈ columns, column.length % 2 ^ 32 = n % 2 ^ 32 := by
  rw [checkLengths, forM_eq_ok]
  induction shows with
  | nil => simp
  | @cons v column values columns first _ ih =>
      rw [List.forall_mem_cons, List.forall_mem_cons, ih, first.count]
      refine and_congr_left fun _ => ?_
      by_cases same : column.length % 2 ^ 32 = n % 2 ^ 32
      · rw [if_neg (not_not.mpr (ofNat_inj.mpr same.symm))]
        exact ⟨fun _ => same, fun _ => rfl⟩
      · rw [if_pos fun equal => same (ofNat_inj.mp equal).symm]
        exact ⟨fun no => (by cases no), fun equal => absurd equal same⟩

/-- A check of the lengths only raises exceptions. -/
theorem checkLengths_error {first : UInt32} {e : Stop}
    (stopped : checkLengths first values = .error e) : ∃ message, e = .error message := by
  rw [checkLengths, forM_eq_error] at stopped
  obtain ⟨_, v, _, _, _, failed⟩ := stopped
  by_cases differ : first ≠ v.nItems
  · rw [if_pos differ] at failed
    cases failed
    exact ⟨_, rfl⟩
  · rw [if_neg differ] at failed
    cases failed

/-- What the checks make of integer value vectors. -/
theorem sortProjChecks_cases (whole : t ≠ .float) (fits : ∀ z ∈ zs, t.toInt (t.toWord z) = z)
    {args : List PyObject} (some_args : 1 ≤ args.length) (few_args : args.length ≤ 16)
    (holds : List.Forall₂ ValueVector args columns) :
    (¬ChecksPass t zs columns ∧
        ∃ message, sortProjChecks (primOf t zs) args = .error (.error message)) ∨
      ChecksPass t zs columns ∧ (zs.length % 2 ^ 32 = 0 ∧
          sortProjChecks (primOf t zs) args = .ok none ∨
        zs.length % 2 ^ 32 ≠ 0 ∧ ∃ values, List.Forall₂ Shows values columns ∧
          sortProjChecks (primOf t zs) args = .ok (some values)) := by
  obtain ⟨values, ran, shows⟩ := sortProjValues_ok holds
  have count : (primOf t zs).array.nItems = zs.length := List.length_map _
  have type : (primOf t zs).type ≠ .float := whole
  rw [sortProjChecks, if_neg (by omega), if_neg (by omega), if_neg type, ran, ok_bind]
  simp only [count]
  cases shows with
  | nil =>
      cases holds
      exact absurd some_args (by decide)
  | @cons v column values columns first rest =>
    have first_length : columnLength (column :: columns) = column.length := rfl
    simp only [List.head?_cons, Option.map_some, Option.getD_some, List.tail_cons, first.count]
    have lengths : (∀ c ∈ column :: columns, c.length % 2 ^ 32 =
        columnLength (column :: columns) % 2 ^ 32) ↔
        checkLengths (UInt32.ofNat column.length) values = .ok () := by
      rw [checkLengths_ok rest, List.forall_mem_cons, first_length]
      exact ⟨And.right, fun all => ⟨rfl, all⟩⟩
    cases checked : checkLengths (UInt32.ofNat column.length) values with
    | error e =>
        obtain ⟨message, rfl⟩ := checkLengths_error checked
        refine Or.inl ⟨fun passes => ?_, message, rfl⟩
        rw [lengths.mp passes.lengths] at checked
        cases checked
    | ok _ =>
        rw [ok_bind]
        have lengths := lengths.mpr checked
        by_cases none_counted : zs.length % 2 ^ 32 = 0
        · rw [if_pos (by rw [← UInt32.toNat_inj, toNat_ofNat]; exact none_counted)]
          exact Or.inr ⟨⟨lengths, Or.inl none_counted⟩, Or.inl ⟨none_counted, rfl⟩⟩
        · rw [if_neg (by rw [← UInt32.toNat_inj, toNat_ofNat]; exact none_counted), toNat_ofNat]
          obtain ⟨m, ran, scanned⟩ := scan_ok (k := zs.length % 2 ^ 32) fits (Nat.mod_le _ _)
          have bounds := scanned.boundsPass (by omega) (column.length % 2 ^ 32)
          rw [ran, ok_bind, toNat_ofNat]
          by_cases inBounds : 0 ≤ m.1 ∧ m.2 < (column.length % 2 ^ 32 : Nat)
          · rw [if_pos inBounds]
            exact Or.inr ⟨⟨lengths, Or.inr (bounds.mp inBounds)⟩,
              Or.inr ⟨none_counted, _, .cons first rest, rfl⟩⟩
          · rw [if_neg inBounds]
            refine Or.inl ⟨fun passes => ?_, _, rfl⟩
            exact inBounds (bounds.mpr (passes.bounds.resolve_left none_counted))

/-! ## The projection afterwards -/

/-- `(int)state.p_n`, as far as it is a number of items. -/
def sortedCount (zs : List Int) : Nat := (dataI32 (UInt32.ofNat zs.length)).toNat

theorem sortedCount_le (zs : List Int) : sortedCount zs ≤ zs.length := by
  have low := Nat.mod_le zs.length (2 ^ 32)
  rw [sortedCount, dataI32_eq, toNat_ofNat]
  split <;> omega

theorem sortedCount_small (small : zs.length < 2 ^ 31) : sortedCount zs = zs.length := by
  have same := Nat.mod_eq_of_lt (show zs.length < 2 ^ 32 by omega)
  rw [sortedCount, dataI32_eq, toNat_ofNat, same, if_pos small, Int.toNat_natCast]

theorem sortedCount_zero (none_counted : zs.length % 2 ^ 32 = 0) : sortedCount zs = 0 := by
  rw [sortedCount, dataI32_eq, toNat_ofNat, none_counted]
  rfl

/-- The items that the sort does not get, because there are too many, are in place. -/
structure RestInPlace (zs : List Int) (columns : List (List Int)) : Prop where
  rest : (zs.drop (sortedCount zs)).Pairwise (TupleLe columns)
  after : ∀ x ∈ zs.take (sortedCount zs), ∀ y ∈ zs.drop (sortedCount zs), TupleLe columns x y

theorem RestInPlace.of_small (small : zs.length < 2 ^ 31) : RestInPlace zs columns := by
  have nothing : zs.drop (sortedCount zs) = [] := by
    rw [sortedCount_small small, List.drop_length]
  refine ⟨by rw [nothing]; exact List.Pairwise.nil, fun x _ y mem => ?_⟩
  rw [nothing] at mem
  cases mem

theorem map_back (fits : ∀ z ∈ zs, t.toInt (t.toWord z) = z) :
    zs.map (t.toInt ∘ t.toWord) = zs :=
  (List.map_congr_left fits).trans (List.map_id zs)

/-- The words of a rearrangement are those of a rearrangement of the integers. -/
theorem exists_integers (fits : ∀ z ∈ zs, t.toInt (t.toWord z) = z) {ys : List Nat}
    (perm : ys.Perm (zs.map t.toWord)) :
    ys = (ys.map t.toInt).map t.toWord ∧ (ys.map t.toInt).Perm zs := by
  constructor
  · rw [List.map_map]
    refine ((List.map_congr_left fun y mem => ?_).trans (List.map_id ys)).symm
    obtain ⟨z, mem_z, rfl⟩ := List.mem_map.mp (perm.mem_iff.mp mem)
    exact congrArg t.toWord (fits z mem_z)
  · have mapped := perm.map t.toInt
    rw [List.map_map] at mapped
    rwa [map_back fits] at mapped

/-- A projection holds one list of integers. -/
theorem primOf_inj {ys : List Int} (fits : ∀ z ∈ zs, t.toInt (t.toWord z) = z)
    (fits' : ∀ z ∈ ys, t.toInt (t.toWord z) = z) (same : primOf t ys = primOf t zs) : ys = zs := by
  have words : ys.map t.toWord = zs.map t.toWord := congrArg (fun p => p.array.items) same
  have back := congrArg (List.map t.toInt) words
  rwa [List.map_map, List.map_map, map_back fits, map_back fits'] at back

theorem pairwise_words {zs' : List Int} (fits : ∀ z ∈ zs', t.toInt (t.toWord z) = z) :
    (zs'.map t.toWord).Pairwise (WordLe t columns) ↔ zs'.Pairwise (TupleLe columns) := by
  rw [List.pairwise_map]
  refine List.Pairwise.iff_of_mem fun {x y} mem_x mem_y => ?_
  rw [WordLe, fits x mem_x, fits y mem_y]

theorem RestInPlace.words (fits : ∀ z ∈ zs, t.toInt (t.toWord z) = z) :
    RestInPlace zs columns ↔
      ((zs.map t.toWord).drop (sortedCount zs)).Pairwise (WordLe t columns) ∧
      ∀ x ∈ (zs.map t.toWord).take (sortedCount zs),
        ∀ y ∈ (zs.map t.toWord).drop (sortedCount zs), WordLe t columns x y := by
  have wordLe : ∀ x ∈ zs, ∀ y ∈ zs,
      WordLe t columns (t.toWord x) (t.toWord y) ↔ TupleLe columns x y := by
    intro x mem_x y mem_y
    rw [WordLe, fits x mem_x, fits y mem_y]
  rw [← List.map_drop, ← List.map_take,
    pairwise_words fun z mem => fits z (List.mem_of_mem_drop mem)]
  constructor
  · intro place
    refine ⟨place.rest, fun x mem_x y mem_y => ?_⟩
    obtain ⟨a, mem_a, rfl⟩ := List.mem_map.mp mem_x
    obtain ⟨b, mem_b, rfl⟩ := List.mem_map.mp mem_y
    rw [wordLe a (List.mem_of_mem_take mem_a) b (List.mem_of_mem_drop mem_b)]
    exact place.after a mem_a b mem_b
  · intro both
    refine ⟨both.1, fun x mem_x y mem_y => ?_⟩
    rw [← wordLe x (List.mem_of_mem_take mem_x) y (List.mem_of_mem_drop mem_y)]
    exact both.2 _ (List.mem_map_of_mem mem_x) _ (List.mem_map_of_mem mem_y)

/-- A projection of positions, after the checks: the sort ends, and leaves the items in order if
and only if those it does not get were in place. -/
theorem sortProj_sorts (whole : t ≠ .float) (shows : List.Forall₂ Shows values columns)
    (projects : Projects zs columns) (fits : ∀ z ∈ zs, t.toInt (t.toWord z) = z) {fuel : Nat}
    (enough : zs.length < fuel) :
    ∃ result s, bentleySort (arrayCallbacks (primSortProjCmp (primOf t zs) values)) fuel
        (sortedCount zs) ⟨zs.map t.toWord, ()⟩ = .ok (result, s) ∧
      s.user.items.Perm (zs.map t.toWord) ∧
      (s.user.items.Pairwise (WordLe t columns) ↔ RestInPlace zs columns) := by
  obtain ⟨defined, computes⟩ := primSortProjCmp_computes whole shows projects fits
  have fewer := sortedCount_le zs
  have ends := bentleyQsortPriv_ends (WordLe t columns) defined fuel
    (s := ⟨⟨zs.map t.toWord, ()⟩, [], []⟩) (a := 0) (n := sortedCount zs) (List.Perm.refl _)
    (by rw [Nat.zero_add, List.length_map]; exact fewer) (by omega)
  rw [bentleySort]
  cases ran : bentleyQsortPriv (arrayCallbacks (primSortProjCmp (primOf t zs) values)) fuel 0
      (sortedCount zs) ⟨⟨zs.map t.toWord, ()⟩, [], []⟩ with
  | error stop =>
      rw [ran] at ends
      exact ends.elim
  | ok out =>
      have sorted := ends.of_ok ran
      have moved := sorted.items
      have order := (sorted.sorts computes).2
      rw [Nat.zero_add] at moved order
      refine ⟨out.1, out.2, rfl, moved.perm, ?_⟩
      rw [moved.pairwise_iff order, RestInPlace.words fits]

end Sorting

/-! ## Exactly when it does -/

/-- The checks pass exactly the projections of positions, and of one that passes the items the
sort does not get are in place; or the projection is empty. -/
def SortProjHandles (t : NumberType) (zs : List Int) (columns : List (List Int)) : Prop :=
  zs = [] ∨ (ChecksPass t zs columns ↔ Projects zs columns) ∧
    (Projects zs columns → RestInPlace zs columns)

theorem Projects.lengths_mod {zs : List Int} {columns : List (List Int)}
    (projects : Projects zs columns) :
    ∀ column ∈ columns, column.length % 2 ^ 32 = columnLength columns % 2 ^ 32 := by
  intro column mem
  rw [projects.lengths column mem]

/-- `sort_proj` on a projection of integers and 1 to 16 integer value vectors. -/
theorem sortProj_meets_iff {t : NumberType} (whole : t ≠ .float) {zs : List Int}
    (fits : ∀ z ∈ zs, t.toInt (t.toWord z) = z) {args : List PyObject} {columns : List (List Int)}
    (some_args : 1 ≤ args.length) (few_args : args.length ≤ 16)
    (holds : List.Forall₂ ValueVector args columns) {fuel : Nat} (enough : zs.length < fuel) :
    SortProjMeets t zs columns (sortProj fuel (primOf t zs) args) ↔
      SortProjHandles t zs columns := by
  have count : (primOf t zs).array.nItems = zs.length := List.length_map _
  have integers : ∀ zs' : List Int, zs'.Perm zs → ∀ z ∈ zs', t.toInt (t.toWord z) = z :=
    fun zs' perm z mem => fits z (perm.mem_iff.mp mem)
  rw [sortProj, SortProjHandles]
  rcases sortProjChecks_cases whole fits some_args few_args holds with
    ⟨refused, message, checked⟩ | ⟨passes, ⟨none_counted, checked⟩ | ⟨counted, values, shows, checked⟩⟩
  · -- an exception
    rw [checked]
    change (primOf t zs = primOf t zs ∧ ¬Projects zs columns) ↔ _
    simp only [true_and]
    constructor
    · intro not_positions
      exact Or.inr ⟨⟨fun p => absurd p refused, fun p => absurd p not_positions⟩,
        fun p => absurd p not_positions⟩
    · rintro (nothing | ⟨same, -⟩) projects
      · subst nothing
        exact refused ⟨projects.lengths_mod, Or.inl rfl⟩
      · exact refused (same.mpr projects)
  · -- no items are counted
    rw [checked]
    change (zs = [] ∧ primOf t zs = primOf t zs ∨ Projects zs columns ∧ ∃ zs', primOf t zs =
      primOf t zs' ∧ zs'.Perm zs ∧ zs'.Pairwise (TupleLe columns)) ↔ _
    have place : RestInPlace zs columns ↔ zs.Pairwise (TupleLe columns) := by
      have zero := sortedCount_zero none_counted
      constructor
      · intro place
        have rest := place.rest
        rwa [zero, List.drop_zero] at rest
      · intro sorted
        refine ⟨by rwa [zero, List.drop_zero], fun x mem => ?_⟩
        rw [zero, List.take_zero] at mem
        cases mem
    constructor
    · rintro (⟨nothing, -⟩ | ⟨projects, zs', same, perm, sorted⟩)
      · exact Or.inl nothing
      · cases primOf_inj (integers zs' perm) fits same
        exact Or.inr ⟨⟨fun _ => projects, fun _ => passes⟩, fun _ => place.mpr sorted⟩
    · rintro (nothing | ⟨same, rest⟩)
      · exact Or.inl ⟨nothing, rfl⟩
      · have projects := same.mp passes
        exact Or.inr ⟨projects, zs, rfl, List.Perm.refl zs, place.mp (rest projects)⟩
  · -- the sort is called
    rw [checked]
    have nonempty : zs ≠ [] := by
      intro nothing
      subst nothing
      exact counted rfl
    have given : (dataI32 (UInt32.ofNat (primOf t zs).array.nItems)).toNat = sortedCount zs := by
      rw [count, sortedCount]
    by_cases projects : Projects zs columns
    · obtain ⟨result, s, ran, perm, sorted⟩ := sortProj_sorts whole shows projects fits enough
      obtain ⟨words, perm'⟩ := exists_integers fits perm
      have fits' := integers _ perm'
      have after : ∀ zs', (⟨⟨t.size, s.user.items⟩, t⟩ : PyPointlessPrimVector) = primOf t zs' ↔
          primOf t (s.user.items.map t.toInt) = primOf t zs' := by
        intro zs'
        conv_rhs => rw [primOf, ← words]
      have items : (primOf t zs).array.items = zs.map t.toWord := rfl
      simp only [given, items, ran, ok_bind]
      change (zs = [] ∧ _ ∨ Projects zs columns ∧ ∃ zs', (⟨⟨t.size, s.user.items⟩, t⟩ :
        PyPointlessPrimVector) = primOf t zs' ∧ zs'.Perm zs ∧ zs'.Pairwise (TupleLe columns)) ↔ _
      rw [words, pairwise_words fits'] at sorted
      constructor
      · rintro (⟨nothing, -⟩ | ⟨-, zs', same, perm'', order⟩)
        · exact absurd nothing nonempty
        · cases primOf_inj (integers zs' perm'') fits' ((after zs').mp same)
          exact Or.inr ⟨⟨fun _ => projects, fun _ => passes⟩, fun _ => sorted.mp order⟩
      · rintro (nothing | ⟨-, rest⟩)
        · exact absurd nothing nonempty
        · exact Or.inr ⟨projects, _, (after _).mpr rfl, perm', sorted.mpr (rest projects)⟩
    · -- the items are not all positions, but nothing is raised
      constructor
      · intro meets
        simp only at meets
        cases ran : bentleySort (arrayCallbacks (primSortProjCmp (primOf t zs) values)) fuel
            (dataI32 (UInt32.ofNat (primOf t zs).array.nItems)).toNat
            ⟨(primOf t zs).array.items, ()⟩ with
        | error e =>
            rw [ran] at meets
            exact meets.elim
        | ok out =>
            rw [ran] at meets
            rcases meets with ⟨nothing, -⟩ | ⟨positions, -⟩
            · exact absurd nothing nonempty
            · exact absurd positions projects
      · rintro (nothing | ⟨same, -⟩)
        · exact absurd nothing nonempty
        · exact absurd (same.mp passes) projects

theorem sortProj_meets_iff_two :
    SortProjMeets .u8 [1, 0] [[7, 5]]
        (sortProj 3 (primOf .u8 [1, 0]) [.primVector (primOf .i32 [7, 5])]) ↔
      SortProjHandles .u8 [1, 0] [[7, 5]] :=
  sortProj_meets_iff (by decide) (by decide) (by decide) (by decide)
    (.cons (.primVector (by decide) (by decide)) .nil) (by decide)

/-- An `i32` projection with the item 1 of a value vector with one entry: the bounds test lets it
pass, and the comparison reads behind the entry. -/
theorem signedProjection_reads :
    sortProj 3 (primOf .i32 [0, 1]) [.primVector (primOf .i32 [7])] = .error (.fault .outOfBounds) ∧
      ¬SortProjMeets .i32 [0, 1] [[7]]
        (sortProj 3 (primOf .i32 [0, 1]) [.primVector (primOf .i32 [7])]) := by
  have reads : sortProj 3 (primOf .i32 [0, 1]) [.primVector (primOf .i32 [7])] =
      .error (.fault .outOfBounds) := by
    rfl
  refine ⟨reads, fun meets => ?_⟩
  rw [reads] at meets
  exact meets

theorem toInt_nonneg {t : NumberType} (plain : t.isSigned = false) (n : Nat) : 0 ≤ t.toInt n := by
  cases t with
  | i8 | i16 | i32 | i64 => cases plain
  | u8 | u16 | u32 | u64 | float => exact Int.natCast_nonneg n

/-- Of vectors of ordinary size it goes wrong with exactly the signed projections without a
negative item that have one past the end of the value vectors. -/
theorem sortProjHandles_small {t : NumberType} {zs : List Int} {columns : List (List Int)}
    (fits : ∀ z ∈ zs, t.toInt (t.toWord z) = z) (small : zs.length < 2 ^ 31)
    (columns_small : ∀ column ∈ columns, column.length < 2 ^ 32) :
    SortProjHandles t zs columns ↔
      ¬(t.isSigned = true ∧ (∀ column ∈ columns, column.length = columnLength columns) ∧
        0 < columnLength columns ∧ (∀ z ∈ zs, 0 ≤ z) ∧ ∃ z ∈ zs, columnLength columns ≤ z) := by
  have first_small : columnLength columns < 2 ^ 32 := by
    cases columns with
    | nil => decide
    | cons column _ => exact columns_small column List.mem_cons_self
  have first_mod := Nat.mod_eq_of_lt first_small
  have length_mod := Nat.mod_eq_of_lt (show zs.length < 2 ^ 32 by omega)
  have whole : zs.take (zs.length % 2 ^ 32) = zs := by rw [length_mod, List.take_length]
  have lengths : (∀ column ∈ columns, column.length % 2 ^ 32 = columnLength columns % 2 ^ 32) ↔
      ∀ column ∈ columns, column.length = columnLength columns := by
    refine forall₂_congr fun column mem => ?_
    rw [first_mod, Nat.mod_eq_of_lt (columns_small column mem)]
  have checks : ChecksPass t zs columns ↔
      (∀ column ∈ columns, column.length = columnLength columns) ∧
        (zs = [] ∨ BoundsPass t zs (columnLength columns)) := by
    constructor
    · intro passes
      refine ⟨lengths.mp passes.lengths, ?_⟩
      have bounds := passes.bounds
      rwa [whole, first_mod, length_mod, List.length_eq_zero_iff] at bounds
    · intro both
      refine ⟨lengths.mpr both.1, ?_⟩
      rw [whole, first_mod, length_mod, List.length_eq_zero_iff]
      exact both.2
  have projects : Projects zs columns ↔
      (∀ column ∈ columns, column.length = columnLength columns) ∧
        ∀ z ∈ zs, 0 ≤ z ∧ z < columnLength columns :=
    ⟨fun p => ⟨p.lengths, p.items⟩, fun both => ⟨both.1, both.2⟩⟩
  rw [SortProjHandles, checks, projects]
  have place : RestInPlace zs columns := RestInPlace.of_small small
  simp only [place, implies_true, and_true]
  cases sign : t.isSigned with
  | true =>
      simp only [BoundsPass, sign, if_true, true_and]
      constructor
      · rintro (nothing | same) ⟨equal, some_entry, least, z, mem, past⟩
        · subst nothing
          cases mem
        · have inside := (same.mp ⟨equal, Or.inr ⟨some_entry, least⟩⟩).2 z mem
          omega
      · intro handled
        by_cases nothing : zs = []
        · exact Or.inl nothing
        · refine Or.inr ⟨fun passes => ⟨passes.1, fun z mem => ?_⟩, fun positions => ?_⟩
          · obtain ⟨some_entry, least⟩ := passes.2.resolve_left nothing
            refine ⟨least z mem, ?_⟩
            by_contra past
            exact handled ⟨passes.1, some_entry, least, z, mem, by omega⟩
          · obtain ⟨z, mem⟩ := List.exists_mem_of_ne_nil zs nothing
            have inside := positions.2 z mem
            exact ⟨positions.1, Or.inr ⟨by omega, fun y mem => (positions.2 y mem).1⟩⟩
  | false =>
      have least : ∀ z ∈ zs, 0 ≤ z := by
        intro z mem
        rw [← fits z mem]
        exact toInt_nonneg sign _
      simp only [BoundsPass, sign, Bool.false_eq_true, if_false, false_and, not_false_eq_true,
        iff_true]
      by_cases nothing : zs = []
      · exact Or.inl nothing
      · refine Or.inr ⟨fun passes => ⟨passes.1, fun z mem => ⟨least z mem, ?_⟩⟩, fun positions => ?_⟩
        · exact passes.2.resolve_left nothing z mem
        · exact ⟨positions.1, Or.inr fun z mem => (positions.2 z mem).2⟩

end Pointless
