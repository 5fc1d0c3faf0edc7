import Pointless.Lib.Deciding
import Pointless.PyPrimVectorGrowth
import Pointless.PySortProjSound

/-!
# Appending many items at once

`append_bulk` appends the items of another vector, of a slice of a file vector or of an
iterable, or leaves the vector as it was. The exceptions are sources that change while
they are read. A vector that is appended to itself has a loop whose bound grows with it,
until a growth is refused, or moves the array away from the pointer that is read next.
And an iterator over the vector goes on to what was appended.

An iterator is followed along a list that takes up what it gives (`HandsOut`), next to
what it would give if the list stayed as it is (`Supplies`). `bulkMeets_iff` says that
`append_bulk` does what it is to do wherever the two are the same, or the first comes to
no end.
-/

namespace Pointless

open ByteMemory Deciding ExceptRules

/-! ## What is appended -/

/-- An integer that a vector of the type takes. -/
def Takes (t : NumberType) (x : Int) : Prop := t ≠ .float ∧ t.InRange x

/-- `append_bulk` goes through an iterator of the object. -/
def BulkObject.Iterates (v : PrimVectorObject) : BulkObject → Prop
  | .itself => False
  | .primVector u => u.type ≠ v.type
  | .vector u => ∀ t, itemType? u.v.type = some t → t.primType ≠ v.type
  | .iterable => True

variable {σ : Type}

/-- What an iterator gives, and its state then, for a vector that has certain numbers. -/
abbrev Look (σ : Type) := σ → List Int → IterAnswer × σ

/-- The object has an iterator, and its code sees no more of a vector of the type than the
numbers. -/
structure PyIterable.Sees (w : PyIterable σ) (t : NumberType) (look : Look σ) : Prop where
  iter : w.iter = .ok ()
  next : ∀ (v : PrimVectorObject) (zs : List Int) (state : σ), v.Shows t zs →
    w.next state v = .ok (look state zs)

/-- As long as the vector has the numbers `zs`, the iterator supplies the integers `ws` and comes
to its end. -/
inductive Supplies (look : Look σ) (zs : List Int) : σ → List Int → Prop
  | nil {state state'} (ended : look state zs = (none, state')) : Supplies look zs state []
  | cons {state state' x ws} (item : look state zs = (some (.ok (some (.int x))), state'))
      (rest : Supplies look zs state' ws) : Supplies look zs state (x :: ws)

/-- Grown again and again, the array is moved before a growth is refused. -/
inductive MovesOnGrowth (alloc : Allocator) (inPlace : Nat → Bool) : HeapArray → Prop
  | moves {a} (served : (a.grow alloc).1 = true) (elsewhere : inPlace a.requests = false) :
      MovesOnGrowth alloc inPlace a
  | stays {a} (served : (a.grow alloc).1 = true) (same : inPlace a.requests = true)
      (later : MovesOnGrowth alloc inPlace (a.grow alloc).2) : MovesOnGrowth alloc inPlace a

/-- Asked for one item after the other, while a list takes each up behind its numbers, the
iterator gives `us` and comes to its end; each is a number that the type takes, and there
is memory for it. -/
inductive HandsOut (alloc : Allocator) (t : NumberType) (look : Look σ) :
    σ → List Int → HeapArray → List Int → Prop
  | nil {state state' zs a} (ended : look state zs = (none, state')) :
      HandsOut alloc t look state zs a []
  | cons {state state' zs a item word us} (gives : look state zs = (some (.ok item), state'))
      (takes : pypointlessParseNumber item t.primType = .ok word)
      (room : (a.reserve alloc).1 = true)
      (rest : HandsOut alloc t look state' (zs ++ [t.toInt word]) (a.pushed alloc word) us) :
      HandsOut alloc t look state zs a (t.toInt word :: us)

/-- An iterator of the object gives something else while the vector grows than it would if the
vector stayed as it is. -/
def Strays (alloc : Allocator) (v : PrimVectorObject) (t : NumberType) (zs : List Int)
    (obj : BulkObject) (look : Look σ) (state : σ) (ws : List Int) : Prop :=
  obj.Iterates v ∧ v.obExports ≤ 0 ∧ ∃ us, HandsOut alloc t look state zs v.array us ∧ us ≠ ws

section Bulk

variable (alloc : Allocator) {inPlace : Nat → Bool} {v : PrimVectorObject} {t : NumberType}
  {zs ws : List Int} {w : PyIterable σ} {look : Look σ} {state : σ}

/-! ## Popping what was appended -/

/-- The vector with its old items, in an array that has changed otherwise. -/
theorem PrimVectorObject.Shows.sameItems (shows : v.Shows t zs) {a : HeapArray}
    (itemSize : a.itemSize = v.array.itemSize) (items : a.items = v.array.items) :
    (v.withArray a).Shows t zs := by
  apply shows.withItems itemSize
  · rw [items]
    exact shows.narrow
  · rw [items, shows.items]

theorem PrimVectorObject.Shows.append (shows : v.Shows t zs) {a : HeapArray} {words : List Nat}
    (itemSize : a.itemSize = v.array.itemSize) (items : a.items = v.array.items ++ words)
    (narrow : ∀ n ∈ words, n < 256 ^ t.size) :
    (v.withArray a).Shows t (zs ++ words.map t.toInt) := by
  apply shows.withItems itemSize
  · intro n mem
    rw [items, List.mem_append] at mem
    rcases mem with old | new
    · exact shows.narrow n old
    · exact narrow n new
  · rw [items, List.map_append, shows.items]

/-! ## Buffers -/

/-- The vector with another number, in the room that is made for it. -/
theorem PrimVectorObject.Shows.pushed {a : HeapArray} (shows : (v.withArray a).Shows t zs)
    {word : Nat} (narrow : word < 256 ^ t.size) :
    (v.withArray (a.pushed alloc word)).Shows t (zs ++ [t.toInt word]) := by
  change ((v.withArray a).withArray _).Shows t (zs ++ [word].map t.toInt)
  apply shows.append (HeapArray.pushed_itemSize a word) rfl
  intro n mem
  rw [List.mem_singleton.mp mem]
  exact narrow

/-- Growth looks at no item. -/
theorem HeapArray.grow_withItems (a : HeapArray) (items : List Nat) :
    ({ a with items := items } : HeapArray).grow alloc =
      ((a.grow alloc).1, { (a.grow alloc).2 with items := items }) := by
  have same : ({ a with items := items } : HeapArray).nextBytes = a.nextBytes := rfl
  unfold grow
  rw [same]
  cases a.nextBytes with
  | none => rfl
  | some nBytes =>
      dsimp only
      split <;> rfl

variable {alloc} in
theorem MovesOnGrowth.withItems {a : HeapArray} (moves : MovesOnGrowth alloc inPlace a)
    (items : List Nat) : MovesOnGrowth alloc inPlace { a with items := items } := by
  have grows := fun b => HeapArray.grow_withItems alloc b items
  induction moves with
  | @moves a served elsewhere => exact .moves (by rw [grows]; exact served) elsewhere
  | @stays a served same _ ih =>
      refine .stays (by rw [grows]; exact served) same ?_
      rw [grows]
      exact ih

/-- What the iterator hands out is something else than its first item where that is not taken. -/
theorem HandsOut.takes {a : HeapArray} (hands : HandsOut alloc t look state zs a ws)
    (supplies : Supplies look zs state ws) : ∀ x ∈ ws, Takes t x := by
  by_cases whole : t = .float
  · subst whole
    cases supplies with
    | nil => exact fun x mem => absurd mem List.not_mem_nil
    | cons item =>
        generalize list : _ :: _ = us at hands
        cases hands with
        | nil => cases list
        | cons gives takes =>
            rw [item] at gives
            cases gives
            cases takes
  · clear supplies
    induction hands with
    | nil => exact fun x mem => absurd mem List.not_mem_nil
    | @cons _ _ _ _ item word _ _ takes _ _ ih =>
        intro x mem
        rcases List.mem_cons.mp mem with rfl | rest
        · rcases pypointlessParseNumber_cases whole item with
            ⟨x, -, inRange, parsed⟩ | ⟨-, message, failed⟩
          · rw [parsed] at takes
            cases takes
            rw [NumberType.toInt_toWord whole inRange]
            exact ⟨whole, inRange⟩
          · rw [failed] at takes
            cases takes
        · exact ih x rest

/-- What is handed out is determined. -/
theorem HandsOut.unique {a : HeapArray} {us us' : List Int}
    (hands : HandsOut alloc t look state zs a us) (hands' : HandsOut alloc t look state zs a us') :
    us = us' := by
  induction hands generalizing us' with
  | nil ended =>
      cases hands' with
      | nil => rfl
      | cons gives =>
          rw [ended] at gives
          cases gives
  | cons gives takes room rest ih =>
      cases hands' with
      | nil ended =>
          rw [gives] at ended
          cases ended
      | cons gives' takes' _ rest' =>
          rw [gives] at gives'
          cases gives'
          rw [takes] at takes'
          cases takes'
          rw [ih rest']

/-- The integer of an item is the number of its word. -/
theorem toInt_of_takes {x : Int} {word : Nat}
    (takes : pypointlessParseNumber (some (.int x)) t.primType = .ok word) : t.toInt word = x := by
  by_cases whole : t = .float
  · subst whole
    cases takes
  · rcases pypointlessParseNumber_cases whole (some (.int x)) with
      ⟨x', number, inRange, parsed⟩ | ⟨-, message, failed⟩
    · cases operandFor_int number
      rw [parsed] at takes
      cases takes
      exact NumberType.toInt_toWord whole inRange
    · rw [failed] at takes
      cases takes

/-- An iterator that takes no notice of the numbers of the vector hands out what it supplies. -/
theorem HandsOut.steady (steady : ∀ state zs zs', look state zs = look state zs')
    {a : HeapArray} {us zs₀ : List Int} (hands : HandsOut alloc t look state zs a us)
    (supplies : Supplies look zs₀ state ws) : us = ws := by
  induction hands generalizing ws with
  | nil ended =>
      cases supplies with
      | nil => rfl
      | cons item =>
          rw [steady _ _ _, ended] at item
          cases item
  | cons gives takes _ _ ih =>
      cases supplies with
      | nil ended =>
          rw [steady _ _ _, gives] at ended
          cases ended
      | cons item rest =>
          rw [steady _ _ _, gives] at item
          cases item
          rw [toInt_of_takes takes, ih rest]

theorem not_strays {obj : BulkObject} (steady : ∀ state zs zs', look state zs = look state zs')
    (supplies : Supplies look zs state ws) : ¬Strays alloc v t zs obj look state ws := by
  intro ⟨_, _, us, hands, other⟩
  exact other (hands.steady alloc steady supplies)

/-- What the iterators over the vector give, with the position of the item of a state. -/
def ownLook (position : UInt32 → UInt32 → UInt32) : Look PrimVectorIter := fun iter zs =>
  if iter.ended then (none, iter)
  else
    let nItems := UInt32.ofNat zs.length
    if iter.iterState < nItems then
      (some (.ok (some (.int (zs.getD (position nItems iter.iterState).toNat 0)))),
        { iter with iterState := iter.iterState + 1 })
    else (none, { iter with ended := true })

theorem own_sees (whole : t ≠ .float) {position : UInt32 → UInt32 → UInt32}
    (inside : ∀ n i, i < n → position n i < n) :
    PyIterable.Sees ⟨.ok (), fun iter self => primIterNextAt self position iter⟩ t
      (ownLook position) where
  iter := rfl
  next v zs iter shows := by
    have length : primLength v = zs.length := shows.length
    simp only [primIterNextAt, ownLook, length]
    by_cases ended : iter.ended = true
    · rw [if_pos ended, if_pos ended]
      rfl
    · rw [if_neg ended, if_neg ended]
      by_cases less : iter.iterState < UInt32.ofNat zs.length
      · have within : (position (UInt32.ofNat zs.length) iter.iterState).toNat < zs.length := by
          have below := UInt32.lt_iff_toNat_lt.mp (inside _ _ less)
          rw [UInt32.toNat_ofNat'] at below
          exact Nat.lt_of_lt_of_le below (Nat.mod_le _ _)
        rw [if_pos less, if_pos less, shows.subscriptPriv whole within,
          List.getD_eq_getElem?_getD, List.getElem?_eq_getElem within]
        rfl
      · rw [if_neg less, if_neg less]
        rfl

theorem ownIter_sees (whole : t ≠ .float) : ownIter.Sees t (ownLook fun _ i => i) :=
  own_sees whole fun _ _ less => less

theorem ownRevIter_sees (whole : t ≠ .float) : ownRevIter.Sees t (ownLook fun n i => n - i - 1) :=
  own_sees whole fun n i less => by
    have first : (n - i).toNat = n.toNat - i.toNat := UInt32.toNat_sub_of_le _ _ (UInt32.le_of_lt less)
    have some_ : 1 ≤ n - i := by
      rw [UInt32.le_iff_toNat_le, first, UInt32.toNat_one]
      exact Nat.sub_pos_of_lt less
    rw [UInt32.lt_iff_toNat_lt, UInt32.toNat_sub_of_le _ _ some_, first, UInt32.toNat_one]
    have below := UInt32.lt_iff_toNat_lt.mp less
    omega

/-- The numbers that an iterator over the vector supplies, from its state on. -/
theorem own_supplies (position : UInt32 → UInt32 → UInt32) (few : zs.length < 2 ^ 32) (left : Nat) :
    ∀ {i : UInt32}, i.toNat + left = zs.length →
      Supplies (ownLook position) zs ⟨i, false⟩ ((List.range' i.toNat left).map fun k =>
        zs.getD (position (UInt32.ofNat zs.length) (UInt32.ofNat k)).toNat 0) := by
  have size : (UInt32.ofNat zs.length).toNat = zs.length := UInt32.toNat_ofNat_of_lt' few
  induction left with
  | zero =>
      intro i count
      have ended : ¬i < UInt32.ofNat zs.length := by
        rw [UInt32.lt_iff_toNat_lt, size]
        omega
      have look : ownLook position ⟨i, false⟩ zs = (none, ⟨i, true⟩) := by
        simp [ownLook, ended]
      exact .nil look
  | succ left ih =>
      intro i count
      have less : i < UInt32.ofNat zs.length := by
        rw [UInt32.lt_iff_toNat_lt, size]
        omega
      have next : (i + 1).toNat = i.toNat + 1 := by
        rw [UInt32.toNat_add, UInt32.toNat_one]
        omega
      have rest := ih (i := i + 1) (by omega)
      rw [next] at rest
      rw [List.range'_succ, List.map_cons, UInt32.ofNat_toNat]
      refine .cons ?_ rest
      simp [ownLook, less]

theorem ownIter_supplies (few : zs.length < 2 ^ 32) :
    Supplies (ownLook fun _ i => i) zs primIter zs := by
  have supplies := own_supplies (fun _ i => i) few zs.length (i := 0) (Nat.zero_add _)
  have all : ((List.range' 0 zs.length).map fun k => zs.getD (UInt32.ofNat k).toNat 0) = zs := by
    apply List.ext_getElem
    · rw [List.length_map, List.length_range']
    · intro k less less'
      have exact_ : (UInt32.ofNat k).toNat = k :=
        UInt32.toNat_ofNat_of_lt' (Nat.lt_trans less' few)
      simp only [List.getElem_map, List.getElem_range', Nat.zero_add, Nat.one_mul, exact_,
        List.getD_eq_getElem?_getD, List.getElem?_eq_getElem less', Option.getD_some]
  rwa [UInt32.toNat_zero, all] at supplies

theorem ownRevIter_supplies (few : zs.length < 2 ^ 32) :
    Supplies (ownLook fun n i => n - i - 1) zs primIter zs.reverse := by
  have supplies := own_supplies (fun n i => n - i - 1) few zs.length (i := 0) (Nat.zero_add _)
  have all : ((List.range' 0 zs.length).map fun k =>
      zs.getD (UInt32.ofNat zs.length - UInt32.ofNat k - 1).toNat 0) = zs.reverse := by
    apply List.ext_getElem
    · rw [List.length_map, List.length_range', List.length_reverse]
    · intro k _ less
      rw [List.length_reverse] at less
      have at_k : (UInt32.ofNat zs.length - UInt32.ofNat k - 1).toNat = zs.length - 1 - k := by
        have size : (UInt32.ofNat zs.length).toNat = zs.length := UInt32.toNat_ofNat_of_lt' few
        have exact_ : (UInt32.ofNat k).toNat = k :=
          UInt32.toNat_ofNat_of_lt' (Nat.lt_trans less few)
        rw [UInt32.toNat_sub, UInt32.toNat_sub, size, exact_, UInt32.toNat_one]
        omega
      have at_end : zs.length - 1 - k < zs.length := by omega
      simp [at_k, at_end]
  rwa [UInt32.toNat_zero, all] at supplies

/-- An iterator supplies one list of numbers. -/
theorem Supplies.unique {ws' : List Int} (supplies : Supplies look zs state ws)
    (supplies' : Supplies look zs state ws') : ws = ws' := by
  induction supplies generalizing ws' with
  | nil ended =>
      cases supplies' with
      | nil => rfl
      | cons item =>
          rw [ended] at item
          cases item
  | cons item _ ih =>
      cases supplies' with
      | nil ended =>
          rw [item] at ended
          cases ended
      | cons item' rest' =>
          rw [item] at item'
          cases item'
          rw [ih rest']

/-- An iterator over a vector that grows comes to its end only where the number of items is
nothing in 32 bits. -/
theorem own_handsOut (served : ∀ requests nBytes, alloc requests nBytes = true) (whole : t ≠ .float)
    {position : UInt32 → UInt32 → UInt32} (inside : ∀ n i, i < n → position n i < n) (left : Nat) :
    ∀ (zs : List Int) {i : UInt32} {a : HeapArray}, zs.length + left = 2 ^ 32 →
      i.toNat < zs.length → (∀ z ∈ zs, t.InRange z) → a.items.length = zs.length →
      a.items.length ≤ a.nAlloc → a.itemSize ≤ 8 →
      ∃ us, HandsOut alloc t (ownLook position) ⟨i, false⟩ zs a us ∧ us.length = left := by
  induction left with
  | zero =>
      intro zs i a count less _ _ _ _
      have wraps : UInt32.ofNat zs.length = 0 := by
        rw [show zs.length = 2 ^ 32 from count]
        rfl
      have ended : ownLook position ⟨i, false⟩ zs = (none, ⟨i, true⟩) := by
        simp [ownLook, wraps]
      exact ⟨[], .nil ended, rfl⟩
  | succ left ih =>
      intro zs i a count less inRange length within narrow
      have size : (UInt32.ofNat zs.length).toNat = zs.length :=
        UInt32.toNat_ofNat_of_lt' (show zs.length < 2 ^ 32 by omega)
      have below : i < UInt32.ofNat zs.length := by
        rw [UInt32.lt_iff_toNat_lt, size]
        exact less
      have at_ : (position (UInt32.ofNat zs.length) i).toNat < zs.length := by
        have small := UInt32.lt_iff_toNat_lt.mp (inside _ _ below)
        rwa [size] at small
      obtain ⟨z, at_z⟩ : ∃ z, zs[(position (UInt32.ofNat zs.length) i).toNat]? = some z :=
        ⟨_, List.getElem?_eq_getElem at_⟩
      have fits := inRange z (List.mem_of_getElem? at_z)
      have parsed : pypointlessParseNumber (some (.int z)) t.primType = .ok (t.toWord z) := by
        rcases pypointlessParseNumber_cases whole (some (.int z)) with
          ⟨x, number, -, parsed⟩ | ⟨absent, -⟩
        · cases operandFor_int number
          exact parsed
        · rw [operandFor, if_pos fits] at absent
          cases absent
      obtain ⟨room, more⟩ := HeapArray.reserve_served served within
        (show a.items.length < 2 ^ 59 by omega) narrow
      have next : (i + 1).toNat = i.toNat + 1 := by
        rw [UInt32.toNat_add, UInt32.toNat_one]
        omega
      have gives : ownLook position ⟨i, false⟩ zs = (some (.ok (some (.int z))), ⟨i + 1, false⟩) := by
        simp only [ownLook, Bool.false_eq_true, if_false, if_pos below,
          List.getD_eq_getElem?_getD, at_z, Option.getD_some]
      have longer : (zs ++ [z]).length = zs.length + 1 := List.length_append
      obtain ⟨us, hands, rest⟩ := ih (zs ++ [z]) (i := i + 1)
        (a := a.pushed alloc (t.toWord z)) (by omega) (by omega)
        (fun y mem => by
          rcases List.mem_append.mp mem with old | new
          · exact inRange y old
          · rw [List.mem_singleton.mp new]
            exact fits)
        (by rw [HeapArray.pushed_items, List.length_append, longer, length]; rfl)
        (by rw [HeapArray.pushed_items, List.length_append]; exact more)
        (by rw [HeapArray.pushed_itemSize]; exact narrow)
      refine ⟨t.toInt (t.toWord z) :: us, .cons gives parsed room ?_, ?_⟩
      · rw [NumberType.toInt_toWord whole fits]
        exact hands
      · rw [List.length_cons, rest]

/-- Where all memory is served, an iterator over the vector that has items left goes astray:
`append_bulk` goes on until the vector has 2^32 items. -/
theorem own_strays (served : ∀ requests nBytes, alloc requests nBytes = true) (whole : t ≠ .float)
    {position : UInt32 → UInt32 → UInt32} (inside : ∀ n i, i < n → position n i < n)
    (shows : v.Shows t zs) (unexported : ¬0 < v.obExports)
    (within : v.array.items.length ≤ v.array.nAlloc) (few : zs.length < 2 ^ 32) {i : UInt32}
    (less : i.toNat < zs.length) (other : 2 * zs.length ≠ 2 ^ 32 + i.toNat)
    (supplies : Supplies (ownLook position) zs ⟨i, false⟩ ws) :
    Strays alloc v t zs .iterable (ownLook position) ⟨i, false⟩ ws := by
  obtain ⟨us, hands, count⟩ := own_handsOut alloc served whole inside (2 ^ 32 - zs.length)
    zs (i := i) (by omega) less (fun z mem => shows.inRange whole z mem) shows.length within
    (by rw [shows.itemSize]; cases t <;> decide)
  refine ⟨trivial, Int32.not_lt.mp unexported, us, hands, ?_⟩
  rintro rfl
  have length := congrArg List.length
    (supplies.unique (own_supplies position few (zs.length - i.toNat) (by omega)))
  rw [List.length_map, List.length_range'] at length
  omega

end Bulk

end Pointless
