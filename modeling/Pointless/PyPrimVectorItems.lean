import Pointless.PyPrimVector

/-!
# The numbers of a PrimVector

A PrimVector of a type shows the list of the numbers that its words stand for. A number
that a method is given is stored exactly where it lies in the range of the type, and is
then read back.
-/

namespace Pointless

open ExceptRules

/-! ## Ranges -/

namespace NumberType

/-- A number in the range of its type is read back from its word. -/
theorem toInt_toWord {t : NumberType} (whole : t ≠ .float) {v : Int} (inRange : t.InRange v) :
    t.toInt (t.toWord v) = v := by
  obtain ⟨low, high⟩ := inRange
  cases t with
  | float => exact absurd rfl whole
  | i8 | i16 | i32 | i64 =>
      simp only [least, greatest] at low high
      simp only [toInt]
      rcases toSigned_cases _ (toWord _ v) with ⟨below, value⟩ | ⟨above, value⟩
      · rw [value]
        simp only [toWord, size] at below ⊢
        omega
      · rw [value]
        simp only [toWord, size] at above ⊢
        omega
  | u8 | u16 | u32 | u64 =>
      simp only [least, greatest] at low high
      simp only [toInt, toWord, size]
      omega

/-- A word stands for a number in the range of the type. -/
theorem inRange_toInt {t : NumberType} (whole : t ≠ .float) {n : Nat}
    (narrow : n < 256 ^ t.size) : t.InRange (t.toInt n) := by
  unfold InRange
  cases t with
  | float => exact absurd rfl whole
  | i8 | i16 | i32 | i64 =>
      simp only [size] at narrow
      simp only [toInt, least, greatest]
      rcases toSigned_cases _ n with ⟨below, value⟩ | ⟨above, value⟩
      · rw [value]
        omega
      · rw [value]
        omega
  | u8 | u16 | u32 | u64 =>
      simp only [size] at narrow
      simp only [toInt, least, greatest]
      omega

/-- Two words that stand for one number are the same. -/
theorem toInt_inj {t : NumberType} (whole : t ≠ .float) {m n : Nat} (narrow : m < 256 ^ t.size)
    (narrow' : n < 256 ^ t.size) (same : t.toInt m = t.toInt n) : m = n := by
  cases t with
  | float => exact absurd rfl whole
  | i8 | i16 | i32 | i64 =>
      simp only [size] at narrow narrow'
      simp only [toInt] at same
      rcases toSigned_cases _ m with ⟨_, value⟩ | ⟨_, value⟩ <;>
        rcases toSigned_cases _ n with ⟨_, value'⟩ | ⟨_, value'⟩ <;>
        · rw [value, value'] at same
          omega
  | u8 | u16 | u32 | u64 =>
      simp only [toInt] at same
      omega

theorem ofPrimType_primType (t : NumberType) : ofPrimType t.primType = some t := by
  cases t <;> rfl

end NumberType

/-! ## Numbers given to a method -/

/-- The range of every type lies between `INT64_MIN` and `UINT64_MAX`, and begins at 0
where the type has no sign. -/
theorem NumberType.InRange.wide {t : NumberType} {v : Int} (inRange : t.InRange v) :
    -2 ^ 63 ≤ v ∧ v < 2 ^ 64 ∧ (v < 0 → t.isSigned = true) := by
  obtain ⟨low, high⟩ := inRange
  cases t <;> simp only [NumberType.least, NumberType.greatest] at low high <;>
    exact ⟨by omega, by omega, fun negative => by first | rfl | omega⟩

/-- The number that an operand gives for a vector of the type. -/
def operandFor (t : NumberType) : PyOperand → Option Int
  | some (.int v) => if t.InRange v then some v else none
  | _ => none

theorem operandFor_int {t : NumberType} {x x' : Int}
    (number : operandFor t (some (.int x)) = some x') : x = x' := by
  rw [operandFor] at number
  split at number
  · exact Option.some.inj number
  · cases number

/-- A number is parsed to its word exactly where it lies in the range of the type. -/
theorem pypointlessParseNumber_cases {t : NumberType} (whole : t ≠ .float) (n : PyOperand) :
    (∃ v, operandFor t n = some v ∧ t.InRange v ∧
        pypointlessParseNumber n t.primType = .ok (t.toWord v)) ∨
      operandFor t n = none ∧ ∃ message, pypointlessParseNumber n t.primType = .error message := by
  have parsed : pypointlessParseNumber n t.primType = (do
      let v ← parsePyobjectNumber n
      if (if 0 ≤ v then v ≤ t.greatest else t.isSigned ∧ t.least ≤ v) then .ok (t.toWord v)
      else .error "given value is smaller/greater than the allowed values") := by
    unfold pypointlessParseNumber
    rw [NumberType.ofPrimType_primType]
    cases t with
    | float => exact absurd rfl whole
    | _ => rfl
  rw [parsed]
  cases n with
  | none => exact .inr ⟨rfl, _, rfl⟩
  | some number =>
      cases number with
      | float bits => exact .inr ⟨rfl, _, rfl⟩
      | int v =>
          by_cases inRange : t.InRange v
          · left
            obtain ⟨low, high, sign⟩ := inRange.wide
            have passes : if 0 ≤ v then v ≤ t.greatest else t.isSigned ∧ t.least ≤ v := by
              split
              case isTrue => exact inRange.2
              case isFalse negative => exact ⟨sign (by omega), inRange.1⟩
            refine ⟨v, if_pos inRange, inRange, ?_⟩
            rw [parsePyobjectNumber, if_neg (by omega), ok_bind, if_pos passes]
          · right
            refine ⟨if_neg inRange, ?_⟩
            rw [parsePyobjectNumber]
            split
            case isTrue => exact ⟨_, rfl⟩
            case isFalse =>
              have refused : ¬if 0 ≤ v then v ≤ t.greatest else t.isSigned ∧ t.least ≤ v := by
                split
                case isTrue positive =>
                  intro high
                  apply inRange
                  refine ⟨?_, high⟩
                  cases t <;> simp only [NumberType.least] <;> omega
                case isFalse negative =>
                  intro both
                  obtain ⟨signed, low⟩ := both
                  apply inRange
                  refine ⟨low, ?_⟩
                  cases t with
                  | float => exact absurd rfl whole
                  | _ =>
                      simp only [NumberType.greatest]
                      omega
              exact ⟨_, by rw [ok_bind, if_neg refused]⟩

/-! ## Items -/

/-- The object is a PrimVector of the type, and its items are the numbers `zs`. -/
structure PrimVectorObject.Shows (vector : PrimVectorObject) (t : NumberType) (zs : List Int) :
    Prop where
  type : vector.type = t.primType
  itemSize : vector.array.itemSize = t.size
  narrow : ∀ n ∈ vector.array.items, n < 256 ^ t.size
  items : vector.array.items.map t.toInt = zs

section Items

variable {v : PrimVectorObject} {t : NumberType} {zs : List Int}

theorem PrimVectorObject.Shows.length (shows : v.Shows t zs) : v.array.items.length = zs.length := by
  rw [← shows.items, List.length_map]

theorem PrimVectorObject.Shows.inRange (shows : v.Shows t zs) (whole : t ≠ .float) :
    ∀ z ∈ zs, t.InRange z := by
  intro z mem
  rw [← shows.items] at mem
  obtain ⟨n, inside, rfl⟩ := List.mem_map.mp mem
  exact NumberType.inRange_toInt whole (shows.narrow n inside)

/-- A vector has one list of numbers. -/
theorem PrimVectorObject.Shows.unique {zs' : List Int} (shows : v.Shows t zs)
    (shows' : v.Shows t zs') : zs = zs' := by
  rw [← shows.items, ← shows'.items]

/-- Item `k` of the array, read with the width of the type. -/
theorem PrimVectorObject.Shows.word (shows : v.Shows t zs) {k : Nat} (less : k < zs.length) :
    ∃ word, loadWord t.size v.array.data (t.size * k) = .ok word ∧ t.toInt word = zs[k] := by
  have inside : k < v.array.items.length := by
    rw [shows.length]
    exact less
  refine ⟨v.array.items[k], ?_, ?_⟩
  · have data : v.array.data = Dynarray.data ⟨t.size, v.array.items⟩ := by
      rw [Dynarray.data, Dynarray.data, shows.itemSize]
    rw [data, Dynarray.loadWord_data shows.narrow inside]
  · simp only [← shows.items, List.getElem_map]

theorem PrimVectorObject.Shows.element (shows : v.Shows t zs) {k : Nat} (less : k < zs.length) :
    primElement v t k = .ok zs[k] := by
  obtain ⟨word, loaded, value⟩ := shows.word less
  rw [primElement, loaded, map_ok, value]

/-- `subscript_priv` reads the item of a 32-bit position. -/
theorem PrimVectorObject.Shows.subscriptPriv (shows : v.Shows t zs) (whole : t ≠ .float)
    {i : UInt32} (less : i.toNat < zs.length) :
    primSubscriptPriv v i = .ok (.int zs[i.toNat]) := by
  obtain ⟨word, loaded, value⟩ := shows.word less
  have read : v.array.itemAt t.size i.toNat = .ok word := by
    rw [HeapArray.itemAt, shows.itemSize, loaded]
  rw [primSubscriptPriv, shows.type, NumberType.ofPrimType_primType]
  cases t with
  | float => exact absurd rfl whole
  | _ => simp only [read, map_ok, value]

/-! ## Changing the items -/

theorem PrimVectorObject.Shows.set (shows : v.Shows t zs) (whole : t ≠ .float) {x : Int}
    (inRange : t.InRange x) (k : Nat) :
    (v.withArray { v.array with items := v.array.items.set k (t.toWord x) }).Shows t
      (zs.set k x) where
  type := shows.type
  itemSize := shows.itemSize
  narrow := by
    intro n mem
    rcases List.mem_or_eq_of_mem_set mem with old | rfl
    · exact shows.narrow n old
    · exact t.toWord_lt x
  items := by
    change (v.array.items.set k (t.toWord x)).map t.toInt = _
    rw [List.map_set, shows.items, NumberType.toInt_toWord whole inRange]

end Items

/-! ## A vector of two items -/

/-- The vector `PrimVector("i8", sequence=[1, 2])`. -/
def oneTwo : PrimVectorObject where
  allowPrint := 1
  obExports := 0
  array := ⟨⟨1, [1, 2]⟩, 2, some 1, 2⟩
  type := 0

theorem oneTwo_shows : oneTwo.Shows .i8 [1, 2] where
  type := rfl
  itemSize := rfl
  narrow := by decide
  items := rfl

end Pointless
