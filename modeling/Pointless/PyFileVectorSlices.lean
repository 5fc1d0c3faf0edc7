import Pointless.PyBitvectorList
import Pointless.PyFileVector
import Pointless.PySortProj
import Pointless.AcyclicLookup

/-!
# Slices of file vectors as slices of lists

A vector of an accepted file, and every slice of slices of it, behaves as the Python
list does: its length, its items at positive and negative indices, and the items that
both iterators yield are those of the list. An item of the list is an outcome, as a file
may hold an empty slot, which becomes no Python object.
-/

namespace Pointless

open ExceptRules PyList

/-! ## The list -/

/-- An object or an exception, and no fault. -/
def Outcome {α : Type} (result : Res α) : Prop := ∀ kind, result ≠ .error (.fault kind)

/-- Item `k` of a vector, as the Python object of what its bytes hold: a number of the type of
the vector, or a value. -/
def vectorObject (p : OpenFile) (v : Value) (k : Nat) : Res PyFileObject :=
  match itemType? v.type with
  | some .float => (fun word => .float (UInt32.ofNat word)) <$> readerVectorWord p v 4 k
  | some t => (fun word => .int (t.toInt word)) <$> readerVectorWord p v t.size k
  | none => readerVectorValue p v k >>= pypointlessValue p

/-- The items of a vector, as Python objects. -/
def vectorObjects (p : OpenFile) (v : Value) (nItems : Nat) : List (Res PyFileObject) :=
  (List.range nItems).map (vectorObject p v)

/-- The list that a chain of slices leaves. -/
def listSlices {α : Type} (items : List α) (slices : List PySlice) : List α :=
  slices.foldl (fun xs s => slice xs s.start s.stop) items

/-- Through each of its accesses the vector shows the items of the list. -/
structure PyPointlessVector.Shows (vector : PyPointlessVector) (items : List (Res PyFileObject)) :
    Prop where
  length : pyVectorLength vector = items.length
  outcomes : ∀ item ∈ items, Outcome item
  inside : ∀ index k (_ : listIndex items.length index = some k) (less : k < items.length),
    pyVectorSubscript vector index = items[k]
  outside : ∀ index, listIndex items.length index = none →
    ∃ message, pyVectorSubscript vector index = fail message
  item : ∀ k (less : k < items.length), pyVectorItem vector k = items[k]
  noItem : ∀ index : Int, ¬(0 ≤ index ∧ index < items.length) →
    ∃ message, pyVectorItem vector index = fail message
  forward : ∀ fuel, items.length < fuel →
    drain (.fault .diverges) pyVectorIterIternext fuel (pyVectorIter vector) = items.mapM id
  backward : ∀ fuel, items.length < fuel →
    drain (.fault .diverges) pyVectorRevIterIternext fuel (pyVectorIter vector)
      = items.reverse.mapM id

/-- The vector is a part of `v`, of `nItems` items. -/
structure PyPointlessVector.WindowOf (vector : PyPointlessVector) (p : OpenFile) (v : Value)
    (nItems : UInt32) : Prop where
  pp : vector.pp = p
  v : vector.v = v
  inside : vector.sliceI.toNat + vector.sliceN.toNat ≤ nItems.toNat

/-- The items of a vector that are visible through a window on it. -/
def PyPointlessVector.visible (self : PyPointlessVector) (items : List (Res PyFileObject)) :
    List (Res PyFileObject) :=
  (items.drop self.sliceI.toNat).take self.sliceN.toNat

/-! ## Indices -/

/-- An index is checked as that of a list, for every length that a vector can have. -/
theorem pyCheckIndex_cases {n : Nat} (few : n < 2 ^ 63) (item : Int) :
    (∃ k, k < n ∧ listIndex n item = some k ∧ pyCheckIndex n item = .ok k) ∨
      listIndex n item = none ∧ ∃ message, pyCheckIndex n item = fail message := by
  unfold pyCheckIndex
  split
  case isTrue wide =>
    right
    refine ⟨?_, _, rfl⟩
    rw [listIndex, if_neg (by omega), if_neg (by omega)]
  case isFalse narrow =>
    rcases Int.lt_or_le item 0 with negative | positive
    · simp only [if_pos negative]
      by_cases inside : 0 ≤ item + n ∧ item + n < n
      · left
        refine ⟨(item + n).toNat, by omega, ?_, if_pos inside⟩
        rw [listIndex, if_neg (by omega), if_pos (by omega)]
      · right
        refine ⟨?_, _, if_neg inside⟩
        rw [listIndex, if_neg (by omega), if_neg (by omega)]
    · simp only [if_neg (Int.not_lt.mpr positive)]
      by_cases inside : 0 ≤ item ∧ item < n
      · left
        exact ⟨item.toNat, by omega, if_pos inside, if_pos inside⟩
      · right
        refine ⟨?_, _, if_neg inside⟩
        rw [listIndex, if_neg inside, if_neg (by omega)]

theorem ofInt_natCast_u32 (k : Nat) : UInt32.ofInt k = UInt32.ofNat k := by
  rw [← UInt32.toNat_inj, UInt32.ofInt, UInt32.toNat_ofNat', UInt32.toNat_ofNat']
  omega

/-! ## Windows -/

section Windows

variable {self : PyPointlessVector} {p : OpenFile} {v : Value} {nItems : UInt32}

/-- A vector that has an item is not the empty one. -/
theorem vectorType_nonempty (count : readerVectorNItems p v = .ok nItems) {k : Nat}
    (less : k < nItems.toNat) : v.type ≠ .vectorEmpty := by
  intro empty
  rw [readerVectorNItems, if_pos empty] at count
  cases count
  exact Nat.not_lt_zero k less

/-- The type switch finds the object of each item. -/
theorem pyVectorItemAt_eq (type : isVectorType v.type = true)
    (count : readerVectorNItems p v = .ok nItems) {k : Nat} (less : k < nItems.toNat) :
    pyVectorItemAt p v (UInt32.ofNat k) = vectorObject p v k := by
  have position : (UInt32.ofNat k).toNat = k :=
    UInt32.toNat_ofNat_of_lt' (Nat.lt_trans less nItems.toNat_lt)
  have nonempty := vectorType_nonempty count less
  obtain ⟨t, data⟩ := v
  dsimp only at type nonempty
  rw [pyVectorItemAt, vectorObject, position]
  cases t with
  | vectorValue | vectorValueHashable => rfl
  | vectorI8 | vectorU8 | vectorI16 | vectorU16 | vectorI32 | vectorU32 | vectorI64 | vectorU64 =>
      exact Functor.map_map _ _ _
  | vectorFloat => exact Functor.map_map _ _ _
  | vectorEmpty => exact absurd rfl nonempty
  | _ => cases type

theorem PyPointlessVector.WindowOf.length_visible (window : self.WindowOf p v nItems) :
    (self.visible (vectorObjects p v nItems.toNat)).length = self.sliceN.toNat := by
  have inside := window.inside
  rw [visible, List.length_take, List.length_drop, vectorObjects, List.length_map,
    List.length_range]
  omega

/-- Item `k` of a window is item `k` of the visible ones. -/
theorem PyPointlessVector.WindowOf.subscriptPriv (window : self.WindowOf p v nItems)
    (type : isVectorType v.type = true) (count : readerVectorNItems p v = .ok nItems) {k : Nat}
    (less : k < (self.visible (vectorObjects p v nItems.toNat)).length) :
    pyVectorSubscriptPriv self (UInt32.ofNat k)
      = (self.visible (vectorObjects p v nItems.toNat))[k] := by
  have place : UInt32.ofNat k + self.sliceI = UInt32.ofNat (self.sliceI.toNat + k) := by
    rw [Nat.add_comm, UInt32.ofNat_add, UInt32.ofNat_toNat]
  have inside : self.sliceI.toNat + k < nItems.toNat := by
    have whole := window.inside
    rw [window.length_visible] at less
    omega
  rw [pyVectorSubscriptPriv, window.pp, window.v, place, pyVectorItemAt_eq type count inside]
  simp only [visible, vectorObjects, List.getElem_take, List.getElem_drop, List.getElem_map,
    List.getElem_range]

/-- A forward iterator is at item `k` in state `k`; the backward one is at the item that
is as far from the end. -/
theorem drain_pyVectorIternext {place : UInt32 → UInt32 → UInt32}
    {items : List (Res PyFileObject)} (length : items.length = self.sliceN.toNat)
    (each : ∀ k (less : k < items.length),
      pyVectorSubscriptPriv self (place self.sliceN (UInt32.ofNat k)) = items[k])
    {fuel : Nat} (enough : items.length < fuel) :
    drain (.fault .diverges) (pyVectorIternext place) fuel (pyVectorIter self)
      = items.mapM id := by
  have bound := self.sliceN.toNat_lt
  have count : UInt32.ofNat (pyVectorLength self) = self.sliceN := UInt32.ofNat_toNat
  refine drain_eq (fun k => PyVectorIter.mk (some self) (UInt32.ofNat k)) ?_ ?_ enough
  · intro k less
    have small : k < 2 ^ 32 := by omega
    have before : UInt32.ofNat k < self.sliceN := by
      rw [UInt32.lt_iff_toNat_lt, UInt32.toNat_ofNat_of_lt' small]
      omega
    have next : UInt32.ofNat k + 1 = UInt32.ofNat (k + 1) := (UInt32.ofNat_add k 1).symm
    simp only [pyVectorIternext, count, if_pos before, each k less, next]
    cases items[k] <;> rfl
  · have small : items.length < 2 ^ 32 := by omega
    have ended : ¬UInt32.ofNat items.length < self.sliceN := by
      rw [UInt32.lt_iff_toNat_lt, UInt32.toNat_ofNat_of_lt' small]
      omega
    refine ⟨⟨none, UInt32.ofNat items.length⟩, ?_⟩
    simp only [pyVectorIternext, count, if_neg ended, pure_eq_ok]

/-- A window shows what is visible through it. -/
theorem PyPointlessVector.WindowOf.shows (window : self.WindowOf p v nItems)
    (type : isVectorType v.type = true) (count : readerVectorNItems p v = .ok nItems)
    (outcomes : ∀ item ∈ vectorObjects p v nItems.toNat, Outcome item) :
    self.Shows (self.visible (vectorObjects p v nItems.toNat)) := by
  have length := window.length_visible
  have bound := self.sliceN.toNat_lt
  have checked := fun index : Int =>
    pyCheckIndex_cases (n := self.sliceN.toNat) (by omega) index
  refine ⟨length.symm, ?_, ?_, ?_, ?_, ?_, ?_, ?_⟩
  · intro item mem
    exact outcomes item (List.mem_of_mem_drop (List.mem_of_mem_take mem))
  · intro index k found less
    rw [length] at found
    rcases checked index with ⟨k', -, found', passed⟩ | ⟨absent, -⟩
    · rw [found] at found'
      cases found'
      rw [pyVectorSubscript, show pyVectorLength self = self.sliceN.toNat from rfl, passed, ok_bind,
        window.subscriptPriv type count less]
    · rw [found] at absent
      cases absent
  · intro index absent
    rw [length] at absent
    rcases checked index with ⟨k', -, found, -⟩ | ⟨-, message, failed⟩
    · rw [absent] at found
      cases found
    · refine ⟨message, ?_⟩
      rw [pyVectorSubscript, show pyVectorLength self = self.sliceN.toNat from rfl, failed]
      rfl
  · intro k less
    rw [pyVectorItem, if_neg (by omega), ofInt_natCast_u32, window.subscriptPriv type count less]
  · intro index outside
    rw [length] at outside
    exact ⟨_, if_pos outside⟩
  · intro fuel enough
    unfold pyVectorIterIternext
    refine drain_pyVectorIternext length ?_ enough
    intro k less
    exact window.subscriptPriv type count less
  · intro fuel enough
    rw [← List.length_reverse] at enough
    unfold pyVectorRevIterIternext
    refine drain_pyVectorIternext (by rw [List.length_reverse, length]) ?_ enough
    intro k less
    have less' := less
    rw [List.length_reverse, length] at less'
    have place : self.sliceN - UInt32.ofNat k - 1 = UInt32.ofNat (self.sliceN.toNat - 1 - k) := by
      have back : self.sliceN = UInt32.ofNat (self.sliceN.toNat - 1 - k) + 1 + UInt32.ofNat k := by
        rw [← UInt32.ofNat_one, ← UInt32.ofNat_add, ← UInt32.ofNat_add,
          show self.sliceN.toNat - 1 - k + 1 + k = self.sliceN.toNat by omega, UInt32.ofNat_toNat]
      nth_rewrite 1 [back]
      rw [UInt32.add_sub_cancel, UInt32.add_sub_cancel]
    change pyVectorSubscriptPriv self (self.sliceN - UInt32.ofNat k - 1) = _
    rw [place, window.subscriptPriv type count (by omega), List.getElem_reverse]
    simp only [length]

end Windows

/-! ## Slicing -/

theorem adjustIndex_eq {n : Nat} (few : n < 2 ^ 32) (b : Int) :
    adjustIndex n 1 (evalSliceIndex b) = bound n b := by
  have high : evalSliceIndex b ≤ b ∨ evalSliceIndex b = -2 ^ 63 := by
    unfold evalSliceIndex
    omega
  have low : b ≤ evalSliceIndex b ∨ evalSliceIndex b = 2 ^ 63 - 1 := by
    unfold evalSliceIndex
    omega
  have small : (1 : Int) < 0 ↔ False := by decide
  generalize evalSliceIndex b = e at high low
  unfold adjustIndex bound
  simp only [small, if_false]
  rcases Int.lt_or_le b 0 with negative | positive
  · rw [if_pos negative, if_pos (show e < 0 by omega)]
    split <;> omega
  · rw [if_neg (show ¬b < 0 by omega), if_neg (show ¬e < 0 by omega)]
    split <;> omega

/-- The bounds of a slice with step 1, as those of the list. -/
theorem getIndicesEx_unit {n : Nat} (few : n < 2 ^ 32) {s : PySlice} (unit : s.UnitStep) :
    getIndicesEx s n = .ok (((s.start.map (bound n)).getD 0 : Nat),
      ((s.stop.map (bound n)).getD n : Nat), 1) := by
  have step : (s.step.map evalSliceIndex).getD 1 = 1 := by
    rcases unit with absent | one
    · rw [absent]
      rfl
    · rw [one]
      rfl
  have start : adjustIndex n 1 ((s.start.map evalSliceIndex).getD 0)
      = ((s.start.map (bound n)).getD 0 : Nat) := by
    cases s.start with
    | none =>
        change adjustIndex n 1 0 = (0 : Nat)
        unfold adjustIndex
        rw [if_neg (by omega)]
        split
        case isTrue empty =>
          rw [if_neg (by omega)]
          omega
        case isFalse => rfl
    | some b => exact adjustIndex_eq few b
  have stop : adjustIndex n 1 ((s.stop.map evalSliceIndex).getD (2 ^ 63 - 1))
      = ((s.stop.map (bound n)).getD n : Nat) := by
    cases s.stop with
    | none =>
        change adjustIndex n 1 (2 ^ 63 - 1) = n
        unfold adjustIndex
        rw [if_neg (by omega), if_pos (by omega), if_neg (by omega)]
    | some b => exact adjustIndex_eq few b
  rw [getIndicesEx]
  simp only [step]
  rw [if_neg (by omega), if_neg (by omega), if_neg (by omega), start, stop]

section Slices

variable {self : PyPointlessVector} {p : OpenFile} {v : Value} {nItems : UInt32}

theorem pyVectorNew_ok (count : readerVectorNItems p v = .ok nItems) {sliceI sliceN : UInt32}
    (inside : sliceI.toNat + sliceN.toNat ≤ nItems.toNat) :
    pyVectorNew p v sliceI sliceN = .ok ⟨p, v, sliceI, sliceN⟩ := by
  have sum : sliceI + sliceN ≤ nItems := by
    have bound := nItems.toNat_lt
    rw [UInt32.le_iff_toNat_le, UInt32.toNat_add]
    omega
  rw [pyVectorNew, count, ok_bind, if_neg (by rw [not_not]; exact sum), pure_eq_ok]

/-- A slice of a window is a window on the same vector, through which the slice of the
list is seen. -/
theorem PyPointlessVector.WindowOf.subscriptSlice (window : self.WindowOf p v nItems)
    (count : readerVectorNItems p v = .ok nItems) {s : PySlice} (unit : s.UnitStep) :
    ∃ sliced, pyVectorSubscriptSlice self s = .ok sliced ∧ sliced.WindowOf p v nItems ∧
      sliced.visible (vectorObjects p v nItems.toNat)
        = slice (self.visible (vectorObjects p v nItems.toNat)) s.start s.stop := by
  have few := self.sliceN.toNat_lt
  have inside := window.inside
  have total := nItems.toNat_lt
  let low := (s.start.map (bound self.sliceN.toNat)).getD 0
  let high := (s.stop.map (bound self.sliceN.toNat)).getD self.sliceN.toNat
  have low_le : low ≤ self.sliceN.toNat := bound_getD_le _ s.start (Nat.zero_le _)
  have high_le : high ≤ self.sliceN.toNat := bound_getD_le _ s.stop (Nat.le_refl _)
  -- a reversed slice ends where it begins
  have clamped : pyVectorSlice self low high
      = pyVectorNew p v (self.sliceI + UInt32.ofNat low) (UInt32.ofNat (high - low)) := by
    rw [pyVectorSlice, window.pp, window.v]
    simp only [if_neg (show ¬((low : Int) < 0) by omega),
      if_neg (show ¬((self.sliceN.toNat : Int) < low) by omega), ofInt_natCast_u32]
    rcases Nat.lt_or_ge high low with reversed | ordered
    · rw [if_pos (by omega), Int.sub_self, Nat.sub_eq_zero_of_le (Nat.le_of_lt reversed)]
      rfl
    · rw [if_neg (by omega), if_neg (by omega), ← ofInt_natCast_u32 (high - low),
        Int.ofNat_sub ordered]
  have first : (self.sliceI + UInt32.ofNat low).toNat = self.sliceI.toNat + low := by
    rw [UInt32.toNat_add, UInt32.toNat_ofNat']
    omega
  have length : (UInt32.ofNat (high - low)).toNat = high - low := by
    rw [UInt32.toNat_ofNat']
    omega
  have fits : (self.sliceI + UInt32.ofNat low).toNat + (UInt32.ofNat (high - low)).toNat
      ≤ nItems.toNat := by
    rw [first, length]
    omega
  have made := pyVectorNew_ok count fits
  refine ⟨⟨p, v, self.sliceI + UInt32.ofNat low, UInt32.ofNat (high - low)⟩, ?_,
    ⟨rfl, rfl, fits⟩, ?_⟩
  · rw [pyVectorSubscriptSlice, getIndicesEx_unit few unit, ok_bind]
    change (if (1 : Int) ≠ 1 then _ else pyVectorSlice self low high) = _
    rw [if_neg (by decide), clamped, made]
  · have all : self.sliceI.toNat + self.sliceN.toNat
        ≤ (vectorObjects p v nItems.toNat).length := by
      rw [vectorObjects, List.length_map, List.length_range]
      exact inside
    rw [visible, visible, slice_window _ _ _ all, first, length]

/-- A chain of slices of a window is a window on the same vector, through which the
chain of slices of the list is seen. -/
theorem PyPointlessVector.WindowOf.slices (window : self.WindowOf p v nItems)
    (count : readerVectorNItems p v = .ok nItems) {slices : List PySlice}
    (unit : ∀ s ∈ slices, s.UnitStep) :
    ∃ sliced, pyVectorSlices self slices = .ok sliced ∧ sliced.WindowOf p v nItems ∧
      sliced.visible (vectorObjects p v nItems.toNat)
        = listSlices (self.visible (vectorObjects p v nItems.toNat)) slices := by
  induction slices generalizing self with
  | nil => exact ⟨self, rfl, window, rfl⟩
  | cons s rest ih =>
      obtain ⟨next, sliced, nextWindow, seen⟩ :=
        window.subscriptSlice count (unit s List.mem_cons_self)
      obtain ⟨last, ran, lastWindow, lastSeen⟩ :=
        ih nextWindow fun s' mem => unit s' (List.mem_cons_of_mem s mem)
      refine ⟨last, ?_, lastWindow, ?_⟩
      · rw [pyVectorSlices, List.foldlM_cons, sliced, ok_bind]
        exact ran
      · rw [lastSeen, seen]
        rfl

end Slices

/-! ## Items of an accepted file -/

section Items

variable {p : OpenFile} {v : Value} {nItems : UInt32}

theorem outcome_ok {α : Type} {x : Res α} (ok : ∃ a, x = .ok a) : Outcome x := by
  obtain ⟨a, rfl⟩ := ok
  exact nofun

theorem outcome_fail {α : Type} (message : String) : Outcome (fail message : Res α) := nofun

theorem Outcome.map {α β : Type} {x : Res α} (outcome : Outcome x) (f : α → β) :
    Outcome (f <$> x) := by
  cases x with
  | ok a => exact nofun
  | error e =>
      intro kind same
      exact outcome kind (by rw [map_error] at same; exact congrArg _ (Except.error.inj same))

/-- A vector as a whole is made a Python object. -/
theorem pypointlessValue_vector (type : isVectorType v.type = true)
    (count : readerVectorNItems p v = .ok nItems) :
    pypointlessValue p v = .ok (.vector ⟨p, v, 0, nItems⟩) := by
  have made : pyVectorNew p v 0 nItems = .ok ⟨p, v, 0, nItems⟩ :=
    pyVectorNew_ok count (Nat.le_of_eq (Nat.zero_add _))
  unfold pypointlessValue
  unfold isVectorType at type
  split at type
  all_goals simp_all

/-- A value of an accepted file becomes an object, or is refused with an exception. -/
theorem pypointlessValue_outcome (sound : p.Sound) (reach : Reachable p v) :
    Outcome (pypointlessValue p v) := by
  by_cases vector : isVectorType v.type = true
  · obtain ⟨nItems, count⟩ := sound.nItems reach vector
    exact outcome_ok ⟨_, pypointlessValue_vector vector count⟩
  · by_cases string : v.type = .string
    · obtain ⟨chars, text⟩ := sound.readText reach (.inr string)
      obtain ⟨m, read, before⟩ := readText_ok text
      rw [stringChars, if_neg (by rw [string]; decide)] at before
      refine outcome_ok ⟨.str chars, ?_⟩
      simp only [pypointlessValue, string, pypointlessValueString, read, ok_bind, before]
      rfl
    · by_cases unicode : v.type = .unicode
      · obtain ⟨off, n, inside⟩ := (sound.checked v reach).unicode sound.sized unicode
        have length : readerStringUnicodeLen p v = .ok n := by
          rw [readerStringUnicodeLen, inside.offset, ok_bind, inside.count]
        have value : readerStringUnicodeValue p v = .ok (p.heap.drop (off + 4)) := by
          rw [readerStringUnicodeValue, inside.offset, ok_bind, pure_eq_ok]
        have each : ∀ i ∈ List.range n.toNat,
            ∃ c, loadU32 (p.heap.drop (off + 4)) (4 * i) = .ok c := by
          intro i mem
          have less := List.mem_range.mp mem
          have whole := inside.inside
          apply loadU32_inside
          rw [List.length_drop]
          omega
        obtain ⟨chars, loaded⟩ := exists_mapM_ok each
        refine outcome_ok ⟨.str chars, ?_⟩
        simp only [pypointlessValue, unicode, pypointlessValueUnicode, length, value, ok_bind,
          loaded, pure_eq_ok]
      · unfold pypointlessValue
        split
        all_goals first
          | exact outcome_ok ⟨_, rfl⟩
          | exact outcome_fail _
          | simp_all [isVectorType]

/-- The items of a vector of an accepted file become objects, or are refused with an
exception. -/
theorem vectorObjects_outcome (sound : p.Sound) (reach : Reachable p v)
    (type : isVectorType v.type = true) (count : readerVectorNItems p v = .ok nItems) :
    ∀ item ∈ vectorObjects p v nItems.toNat, Outcome item := by
  intro item mem
  obtain ⟨k, inRange, rfl⟩ := List.mem_map.mp mem
  have less := List.mem_range.mp inRange
  have nonempty := vectorType_nonempty count less
  by_cases values : v.type = .vectorValue ∨ v.type = .vectorValueHashable
  · obtain ⟨n, count', items⟩ := sound.items reach values
    rw [count] at count'
    cases count'
    obtain ⟨x, read, reachable⟩ := items k less
    have made : vectorObject p v k = pypointlessValue p x := by
      rcases values with type | type <;> simp only [vectorObject, type, itemType?, read, ok_bind]
    rw [made]
    exact pypointlessValue_outcome sound reachable
  · have read : ∀ w, vectorItemLen v.type = some w →
        ∃ word, readerVectorWord p v w k = .ok word := fun w len =>
      sound.word reach len nonempty count less
    obtain ⟨t, data⟩ := v
    dsimp only at type nonempty values read
    rw [vectorObject]
    cases t with
    | vectorValue => exact absurd (.inl rfl) values
    | vectorValueHashable => exact absurd (.inr rfl) values
    | vectorEmpty => exact absurd rfl nonempty
    | vectorI8 | vectorU8 | vectorI16 | vectorU16 | vectorI32 | vectorU32 | vectorI64 | vectorU64
    | vectorFloat =>
        obtain ⟨word, loaded⟩ := read _ rfl
        exact outcome_ok ⟨_, map_eq_ok.mpr ⟨word, loaded, rfl⟩⟩
    | _ => cases type

end Items

/-! ## Chains of slices -/

/-- Every chain of slices with step 1 of a vector of an accepted file stays inside the
vector, and shows the list that the same slices leave of the list of its items. -/
theorem vectorSlices_refine {buf : List UInt8} {fuel : Nat} {p : OpenFile} {error : Option String}
    {v : Value} (opened : openB fuel buf = .ok (p, error)) (reach : Reachable p v)
    (type : isVectorType v.type = true) :
    ∃ nItems whole, readerVectorNItems p v = .ok nItems ∧
      pypointlessValue p v = .ok (.vector whole) ∧
      ∀ slices : List PySlice, (∀ s ∈ slices, s.UnitStep) →
        ∃ sliced, pyVectorSlices whole slices = .ok sliced ∧ sliced.pp = p ∧ sliced.v = v ∧
          sliced.sliceI.toNat + sliced.sliceN.toNat ≤ nItems.toNat ∧
          sliced.Shows (listSlices (vectorObjects p v nItems.toNat) slices) := by
  have sound := openB_sound opened
  obtain ⟨nItems, count⟩ := sound.nItems reach type
  have outcomes := vectorObjects_outcome sound reach type count
  refine ⟨nItems, ⟨p, v, 0, nItems⟩, count, pypointlessValue_vector type count, ?_⟩
  intro slices unit
  have window : (PyPointlessVector.mk p v 0 nItems).WindowOf p v nItems :=
    ⟨rfl, rfl, Nat.le_of_eq (Nat.zero_add _)⟩
  obtain ⟨sliced, ran, slicedWindow, seen⟩ := window.slices count unit
  have all : (PyPointlessVector.mk p v 0 nItems).visible (vectorObjects p v nItems.toNat)
      = vectorObjects p v nItems.toNat := by
    apply List.take_of_length_le
    change (vectorObjects p v nItems.toNat).length ≤ _
    rw [vectorObjects, List.length_map, List.length_range]
  refine ⟨sliced, ran, slicedWindow.pp, slicedWindow.v, slicedWindow.inside, ?_⟩
  have shows := slicedWindow.shows type count outcomes
  rw [seen, all] at shows
  exact shows

/-- A file whose root is a vector of 1, 5, 5, 2^32 and 2^64 - 1. -/
def fiveVectorFile : List UInt8 :=
  bytesValue ⟨.vectorU64, 0⟩ ++ bytesU32 0 ++ bytesU32 1 ++ bytesU32 0 ++ bytesU32 0 ++
    bytesU32 0 ++ bytesU32 2 ++ bytesU64 0 ++
    bytesU32 5 ++ bytesU64 1 ++ bytesU64 5 ++ bytesU64 5 ++ bytesU64 (2 ^ 32) ++
    bytesU64 (2 ^ 64 - 1)

/-- The file opened. -/
def fiveVectorOpened : OpenFile where
  header := ⟨⟨.vectorU64, 0⟩, 0, 1, 0, 0, 0, 2⟩
  stringUnicodeOffsets := []
  vectorOffsets := [0]
  bitvectorOffsets := []
  setOffsets := []
  mapOffsets := []
  heap := fiveVectorFile.drop 40

set_option maxRecDepth 8000 in
theorem openB_fiveVectorFile : openB 0 fiveVectorFile = .ok (fiveVectorOpened, none) := by
  decide +kernel

/-- A slice of a slice of five items, with bounds from the end and past it. -/
theorem vectorSlices_refine_five : ∃ nItems whole,
    readerVectorNItems fiveVectorOpened ⟨.vectorU64, 0⟩ = .ok nItems ∧
      pypointlessValue fiveVectorOpened ⟨.vectorU64, 0⟩ = .ok (.vector whole) ∧
      ∃ sliced, pyVectorSlices whole [⟨some (-4), none, none⟩, ⟨some (-9), some 3, some 1⟩]
          = .ok sliced ∧
        sliced.pp = fiveVectorOpened ∧ sliced.v = ⟨.vectorU64, 0⟩ ∧
        sliced.sliceI.toNat + sliced.sliceN.toNat ≤ nItems.toNat ∧
        sliced.Shows (listSlices (vectorObjects fiveVectorOpened ⟨.vectorU64, 0⟩ nItems.toNat)
          [⟨some (-4), none, none⟩, ⟨some (-9), some 3, some 1⟩]) := by
  obtain ⟨nItems, whole, count, made, slices⟩ :=
    vectorSlices_refine openB_fiveVectorFile (.root _) rfl
  refine ⟨nItems, whole, count, made, slices _ ?_⟩
  intro s mem
  rcases List.mem_pair.mp mem with rfl | rfl
  · exact .inl rfl
  · exact .inr rfl

/-- The list that is left of the five. -/
example : listSlices (vectorObjects fiveVectorOpened ⟨.vectorU64, 0⟩ 5)
    [⟨some (-4), none, none⟩, ⟨some (-9), some 3, some 1⟩] =
      [.ok (.int 5), .ok (.int 5), .ok (.int (2 ^ 32))] := by
  decide +kernel

end Pointless
