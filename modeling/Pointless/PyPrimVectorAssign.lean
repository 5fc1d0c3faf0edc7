import Pointless.PyFileVectorSlices
import Pointless.PyPrimVectorItems

/-!
# Item assignment of a PrimVector

`v[i] = x` takes the length of the vector from `ob_size` of a list, which a PrimVector
does not have: the field lies where `allow_print` and `ob_exports` are. So a negative
index is moved by the sum `primObSize`, and the item that is set is another one than
`v[i]` reads, unless the two are the same.
-/

namespace Pointless

open ExceptRules

/-! ## The assignment -/

/-- The position of an index in `[-n, n)`. -/
def wrapIndex (n : Nat) (item : Int) : Nat := ((item + n) % n).toNat

/-- What `v[item] = value` is to do to a vector of the numbers `zs`: set the item of an index
in `[-n, n)` to a number in the range of the type, so that both indices of the item read it,
and fail without a change for any other. -/
def AssignMeets (t : NumberType) (zs : List Int) (v : PrimVectorObject) (item : Int)
    (value : PyOperand) : Prop :=
  ∃ outcome v', primAssSubscript v item value = .ok (outcome, v') ∧
    if -zs.length ≤ item ∧ item < zs.length ∧ (operandFor t value).isSome then
      ∃ x, operandFor t value = some x ∧ outcome = .ok .none ∧
        v'.Shows t (zs.set (wrapIndex zs.length item) x) ∧
        primSubscript v' item = .ok (.int x) ∧
        primSubscript v' (wrapIndex zs.length item) = .ok (.int x)
    else (∃ message, outcome = .error message) ∧ v' = v

/-- Where the code writes: a negative index is moved by what it takes for the length. -/
def writtenIndex (v : PrimVectorObject) (item : Int) : Int :=
  if item < 0 then item + primObSize v else item

/-- The item that is written is the one that the index stands for, or both hold the number
already; and it is read back from a 32-bit position. An index that stands for no item makes
the code write none. -/
def WritesItem (zs : List Int) (v : PrimVectorObject) (item x : Int) : Prop :=
  if -zs.length ≤ item ∧ item < zs.length then
    let k := wrapIndex zs.length item
    (0 ≤ writtenIndex v item ∧ writtenIndex v item < zs.length) ∧
      ((writtenIndex v item).toNat = k ∨
        zs[(writtenIndex v item).toNat]? = some x ∧ zs[k]? = some x) ∧
      (k < 2 ^ 32 ∨ zs[k % 2 ^ 32]? = some x)
  else ¬(0 ≤ writtenIndex v item ∧ writtenIndex v item < zs.length)

section Assign

variable {v : PrimVectorObject} {t : NumberType} {zs : List Int}

theorem wrapIndex_lt {n : Nat} (item : Int) (low : -n ≤ item) (high : item < n) :
    wrapIndex n item < n ∧
      (wrapIndex n item : Int) = if item < 0 then item + n else item := by
  have positive : (0 : Int) < n := by omega
  have least := Int.emod_nonneg (item + n) (Int.ne_of_gt positive)
  have less := Int.emod_lt_of_pos (item + n) positive
  refine ⟨by rw [wrapIndex]; omega, ?_⟩
  rw [wrapIndex, Int.toNat_of_nonneg least]
  split
  case isTrue negative => exact Int.emod_eq_of_lt (by omega) (by omega)
  case isFalse positive =>
    rw [Int.add_emod_right]
    exact Int.emod_eq_of_lt (by omega) high

/-- What an index in `[-n, n)` reads. -/
theorem PrimVectorObject.Shows.subscript (shows : v.Shows t zs) (whole : t ≠ .float)
    (few : zs.length < 2 ^ 63) (item : Int) (low : -zs.length ≤ item) (high : item < zs.length) :
    ∃ less : wrapIndex zs.length item % 2 ^ 32 < zs.length,
      primSubscript v item = .ok (.int zs[wrapIndex zs.length item % 2 ^ 32]) := by
  obtain ⟨inside, position⟩ := wrapIndex_lt item low high
  have less : wrapIndex zs.length item % 2 ^ 32 < zs.length :=
    Nat.lt_of_le_of_lt (Nat.mod_le _ _) inside
  refine ⟨less, ?_⟩
  have length : primLength v = zs.length := shows.length
  have checked : pyCheckIndex (primLength v) item = .ok (wrapIndex zs.length item) := by
    rw [length, pyCheckIndex, if_neg (by omega)]
    simp only [← position]
    rw [if_pos (by omega), Int.toNat_natCast]
  have place : (UInt32.ofNat (wrapIndex zs.length item)).toNat = wrapIndex zs.length item % 2 ^ 32 :=
    UInt32.toNat_ofNat'
  rw [primSubscript, checked, ok_bind, shows.subscriptPriv whole (by rw [place]; exact less)]
  simp only [place]

theorem primAssItem_ok (shows : v.Shows t zs) (whole : t ≠ .float) {i x : Int}
    {value : PyOperand} (inside : 0 ≤ i ∧ i < zs.length) (number : operandFor t value = some x) :
    ∃ v', primAssItem v i value = .ok v' ∧ v'.Shows t (zs.set i.toNat x) := by
  have length : primLength v = zs.length := shows.length
  rcases pypointlessParseNumber_cases whole value with ⟨x', number', inRange, parsed⟩ | ⟨absent, -⟩
  · rw [number] at number'
    cases number'
    refine ⟨_, ?_, shows.set whole inRange _⟩
    rw [primAssItem, length, if_neg (by rw [not_not]; exact inside), shows.type, parsed]
    rfl
  · rw [number] at absent
    cases absent

theorem primAssItem_error (shows : v.Shows t zs) (whole : t ≠ .float) {i : Int}
    {value : PyOperand} (refused : ¬(0 ≤ i ∧ i < zs.length) ∨ operandFor t value = none) :
    ∃ message, primAssItem v i value = .error message := by
  have length : primLength v = zs.length := shows.length
  rw [primAssItem, length]
  split
  case isTrue => exact ⟨_, rfl⟩
  case isFalse inside =>
    rcases refused with outside | absent
    · exact absurd outside inside
    · rcases pypointlessParseNumber_cases whole value with ⟨x, number, -⟩ | ⟨-, message, failed⟩
      · rw [absent] at number
        cases number
      · exact ⟨message, by rw [shows.type, failed]; rfl⟩

/-- What the code takes for the length fits `Py_ssize_t`, and so does an index that makes it
write an item. -/
theorem writtenIndex_narrow (few : zs.length < 2 ^ 63) {item : Int}
    (inside : 0 ≤ writtenIndex v item ∧ writtenIndex v item < zs.length) :
    -2 ^ 63 ≤ item ∧ item < 2 ^ 63 := by
  have size : primObSize v < 2 ^ 63 := by
    have low := v.allowPrint.toUInt32.toNat_lt
    have high := v.obExports.toInt_lt
    unfold primObSize
    omega
  unfold writtenIndex at inside
  split at inside <;> omega

/-- The assignment succeeds for a number in the range of the type where the index it
writes is that of an item. -/
theorem primAssSubscript_ok (shows : v.Shows t zs) (whole : t ≠ .float) (few : zs.length < 2 ^ 63)
    {item x : Int} {value : PyOperand}
    (inside : 0 ≤ writtenIndex v item ∧ writtenIndex v item < zs.length)
    (number : operandFor t value = some x) :
    ∃ v', primAssSubscript v item value = .ok (.ok .none, v') ∧
      v'.Shows t (zs.set (writtenIndex v item).toNat x) := by
  have narrow := writtenIndex_narrow few inside
  obtain ⟨v', set, shows'⟩ := primAssItem_ok shows whole inside number
  refine ⟨v', ?_, shows'⟩
  unfold primAssSubscript
  rw [if_neg (by omega)]
  rw [show (if item < 0 then item + primObSize v else item) = writtenIndex v item from rfl, set]

/-- The assignment fails without a change otherwise. -/
theorem primAssSubscript_error (shows : v.Shows t zs) (whole : t ≠ .float) (item : Int)
    {value : PyOperand}
    (refused : ¬(0 ≤ writtenIndex v item ∧ writtenIndex v item < zs.length) ∨
      operandFor t value = none) :
    ∃ message, primAssSubscript v item value = .ok (.error message, v) := by
  obtain ⟨message, failed⟩ := primAssItem_error shows whole refused
  unfold primAssSubscript
  split
  case isTrue => exact ⟨_, rfl⟩
  case isFalse =>
    refine ⟨message, ?_⟩
    rw [show (if item < 0 then item + primObSize v else item) = writtenIndex v item from rfl,
      failed]

theorem set_of_getElem? {j : Nat} {x : Int} (held : zs[j]? = some x) : zs.set j x = zs := by
  obtain ⟨less, rfl⟩ := List.getElem?_eq_some_iff.mp held
  exact List.set_getElem_self less

/-- A number set in one of two places gives one list where the places are one, or both have
it already. -/
theorem set_eq_set_iff {j k : Nat} {x : Int} (at_j : j < zs.length) (at_k : k < zs.length) :
    zs.set j x = zs.set k x ↔ j = k ∨ zs[j]? = some x ∧ zs[k]? = some x := by
  constructor
  · intro same
    by_cases equal : j = k
    · exact .inl equal
    · right
      have first := congrArg (·[j]?) same
      have second := congrArg (·[k]?) same
      simp only [List.getElem?_set_self at_j, List.getElem?_set_self at_k,
        List.getElem?_set_ne equal, List.getElem?_set_ne (Ne.symm equal)] at first second
      exact ⟨first.symm, second⟩
  · intro either
    rcases either with rfl | ⟨first, second⟩
    · rfl
    · rw [set_of_getElem? first, set_of_getElem? second]

/-- An item that was set is read back where the position that is read is that of the item, or
has the number too. -/
theorem subscript_set_iff {k : Nat} {x : Int} (shows : v.Shows t (zs.set k x)) (whole : t ≠ .float)
    (few : zs.length < 2 ^ 63) {item : Int} (low : -zs.length ≤ item) (high : item < zs.length)
    (position : wrapIndex zs.length item = k) :
    primSubscript v item = .ok (.int x) ↔ k < 2 ^ 32 ∨ zs[k % 2 ^ 32]? = some x := by
  have length : (zs.set k x).length = zs.length := List.length_set
  have inside := (wrapIndex_lt item low high).1
  obtain ⟨less, read⟩ := shows.subscript whole (by rw [length]; exact few) item
    (by rw [length]; exact low) (by rw [length]; exact high)
  simp only [length, position] at less read inside
  rw [read, Except.ok.injEq, PyNumber.int.injEq]
  by_cases near : k < 2 ^ 32
  · simp only [Nat.mod_eq_of_lt near, List.getElem_set_self, near, true_or]
  · rw [List.getElem_set_ne (by omega), List.getElem?_eq_getElem less, Option.some.injEq]
    exact ⟨.inr, fun either => either.resolve_left near⟩

/-- Item assignment does what it is to do exactly where the number is out of range or the
item that the code writes is that of the index. -/
theorem assignMeets_iff (shows : v.Shows t zs) (whole : t ≠ .float) (few : zs.length < 2 ^ 63)
    (item : Int) (value : PyOperand) :
    AssignMeets t zs v item value ↔
      ∀ x, operandFor t value = some x → WritesItem zs v item x := by
  constructor
  · intro meets x number
    obtain ⟨outcome, v', ran, result⟩ := meets
    rw [number] at result
    unfold WritesItem
    by_cases inside : -zs.length ≤ item ∧ item < zs.length
    · rw [if_pos inside]
      rw [if_pos ⟨inside.1, inside.2, rfl⟩] at result
      obtain ⟨x', same, succeeded, shows', reads, -⟩ := result
      cases same
      have written : 0 ≤ writtenIndex v item ∧ writtenIndex v item < zs.length := by
        by_contra outside
        obtain ⟨message, failed⟩ := primAssSubscript_error shows whole item (.inl outside)
        rw [failed] at ran
        cases ran
        cases succeeded
      obtain ⟨v'', ran', shows''⟩ := primAssSubscript_ok shows whole few written number
      rw [ran'] at ran
      cases ran
      have less := (wrapIndex_lt item inside.1 inside.2).1
      exact ⟨written, (set_eq_set_iff (by omega) less).mp (shows''.unique shows'),
        (subscript_set_iff shows' whole few inside.1 inside.2 rfl).mp reads⟩
    · rw [if_neg inside]
      rw [if_neg (fun all => inside ⟨all.1, all.2.1⟩)] at result
      obtain ⟨⟨message, failed⟩, -⟩ := result
      intro written
      obtain ⟨v'', ran', -⟩ := primAssSubscript_ok shows whole few written number
      rw [ran'] at ran
      cases ran
      cases failed
  · intro writes
    cases number : operandFor t value with
    | none =>
        obtain ⟨message, failed⟩ := primAssSubscript_error shows whole item (.inr number)
        refine ⟨_, _, failed, ?_⟩
        rw [number, if_neg (fun all => by cases all.2.2)]
        exact ⟨⟨message, rfl⟩, rfl⟩
    | some x =>
        have write := writes x number
        unfold WritesItem at write
        by_cases inside : -zs.length ≤ item ∧ item < zs.length
        · rw [if_pos inside] at write
          obtain ⟨written, places, near⟩ := write
          obtain ⟨less, position⟩ := wrapIndex_lt item inside.1 inside.2
          obtain ⟨v', ran, shows'⟩ := primAssSubscript_ok shows whole few written number
          rw [(set_eq_set_iff (by omega) less).mpr places] at shows'
          refine ⟨_, v', ran, ?_⟩
          rw [number, if_pos ⟨inside.1, inside.2, rfl⟩]
          have again : wrapIndex zs.length (wrapIndex zs.length item) = wrapIndex zs.length item := by
            have place := (wrapIndex_lt (n := zs.length) (wrapIndex zs.length item)
              (by omega) (by omega)).2
            omega
          exact ⟨x, rfl, rfl, shows',
            (subscript_set_iff shows' whole few inside.1 inside.2 rfl).mpr near,
            (subscript_set_iff shows' whole few (by omega) (by omega) again).mpr near⟩
        · rw [if_neg inside] at write
          obtain ⟨message, failed⟩ := primAssSubscript_error shows whole item (.inl write)
          refine ⟨_, _, failed, ?_⟩
          rw [if_neg (fun all => inside ⟨all.1, all.2.1⟩)]
          exact ⟨⟨message, rfl⟩, rfl⟩

theorem assignMeets_iff_oneTwo : AssignMeets .i8 [1, 2] oneTwo 1 (some (.int 5)) ↔
    ∀ x, operandFor .i8 (some (.int 5)) = some x → WritesItem [1, 2] oneTwo 1 x :=
  assignMeets_iff oneTwo_shows nofun (by decide) 1 (some (.int 5))

/-- `v[-1] = 5` sets the first of two items. -/
theorem oneTwo_assign_last : ¬AssignMeets .i8 [1, 2] oneTwo (-1) (some (.int 5)) := by
  intro ⟨outcome, v', ran, result⟩
  rw [if_pos (by decide)] at result
  obtain ⟨x, number, -, shows, -⟩ := result
  cases number
  cases ran
  cases shows.items

end Assign

end Pointless
