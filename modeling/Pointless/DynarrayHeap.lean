import Pointless.DynarraySound

/-!
# The array of a PrimVector in memory

`HeapArray` has the words of an array, and forgets the bytes of its block. An array in
memory implements one of these when its items are the words and both have had the same
requests. Pushes, pops, swaps and clearing do the same to both, and a push is refused by
both or by neither.
-/

namespace Pointless

open ByteMemory ExceptRules InPlace Overflow RowMemory

namespace RawDynarray

/-- The items in memory are the words of `h`, of one byte or more but not of 2^32. -/
structure Implements (a : RawDynarray) (h : HeapArray) : Prop where
  positive : 0 < h.itemSize
  small : h.itemSize < 2 ^ 32
  items : a.Represents (UInt64.ofNat h.itemSize) (h.items.map (encode h.itemSize))
  nAlloc : a.nAlloc.toNat = h.nAlloc
  requests : a.requests = h.requests

section Steps

variable {a : RawDynarray} {h : HeapArray}

theorem Implements.toNat_size (imp : a.Implements h) :
    (UInt64.ofNat h.itemSize).toNat = h.itemSize := by
  have small := imp.small
  exact UInt64.toNat_ofNat_of_lt' (Nat.lt_trans small (by decide))

theorem Implements.live (imp : a.Implements h) : a.data ≠ .dangling := by
  intro dangling
  have memory := imp.items.memory
  rw [dangling] at memory
  have positive := imp.positive
  have zero := imp.toNat_size
  rw [memory.1, UInt64.toNat_zero] at zero
  omega

theorem Implements.count (imp : a.Implements h) : a.nItems.toNat = h.items.length := by
  rw [imp.items.count, List.length_map]

/-! ## Growing -/

/-- The sizes to grow to are the same numbers. -/
theorem nextSize_tracked (n : UInt64) : (HeapArray.nextSize n.toNat).tracked = nextSize n := by
  have leaf : ∀ (k : Nat) (v : UInt64), k = v.toNat →
      (intopU64Init (UInt64.ofNat k)).tracked = intopSizetInit v := by
    rintro _ v rfl
    rw [UInt64.ofNat_toNat]
    rfl
  have added : ∀ k < 16,
      [1, 1, 2, 2, 4, 4, 4, 8, 8, 10, 11, 12, 13, 14, 15, 16].getD k 0 =
        (smallAdd.getD k 0).toNat := by decide
  unfold HeapArray.nextSize nextSize
  dsimp only
  rw [tracked_add, tracked_add, leaf (n.toNat / 16) (n / 16) (UInt64.toNat_div n 16).symm,
    leaf n.toNat n rfl, leaf _ (if n < 16 then smallAdd.getD n.toNat 0 else 0) ?_]
  · rfl
  · by_cases few : n < 16
    · rw [if_pos few, if_pos (show n.toNat < 16 from few), added n.toNat few]
    · rw [if_neg few, if_neg (show ¬n.toNat < 16 from few)]
      rfl

/-- A block of some bytes is resized where the request is served, and stays where it is not. -/
theorem realloc_some (heap : CAllocator) (request : Nat) {p : BlockPointer} {size : UInt64}
    (live : p ≠ .dangling) (some_ : size ≠ 0) :
    ∃ b old, heap.realloc request p size =
      if heap.serves request size.toNat then .ok (some b, old) else .ok (none, p) := by
  cases p with
  | dangling => exact absurd rfl live
  | null => exact ⟨_, _, rfl⟩
  | block b =>
      unfold CAllocator.realloc
      dsimp only
      rw [if_neg fun both => some_ both.1]
      exact ⟨_, _, rfl⟩

theorem grow_served {heap : CAllocator} {b : Block} {old : BlockPointer}
    (clear : (intopSizetMult (nextSize a.nAlloc) (intopSizetInit a.itemSize)).isOverflow = false)
    (served : heap.realloc a.requests a.data (.ofBitVec (intopSizetMult (nextSize a.nAlloc)
      (intopSizetInit a.itemSize)).value) = .ok (some b, old)) :
    a.grow heap = .ok (true, { a with
      data := .block b
      nAlloc := .ofBitVec (nextSize a.nAlloc).value
      requests := a.requests + 1 }) := by
  unfold grow
  dsimp only
  rw [clear, served]
  rfl

theorem grow_refused {heap : CAllocator} {old : BlockPointer}
    (clear : (intopSizetMult (nextSize a.nAlloc) (intopSizetInit a.itemSize)).isOverflow = false)
    (refused : heap.realloc a.requests a.data (.ofBitVec (intopSizetMult (nextSize a.nAlloc)
      (intopSizetInit a.itemSize)).value) = .ok (none, old)) :
    a.grow heap = .ok (false, { a with data := old, requests := a.requests + 1 }) := by
  unfold grow
  dsimp only
  rw [clear, refused]
  rfl

/-- Both arrays grow, or neither does. -/
theorem grow_implements (heap : CAllocator) (imp : a.Implements h) :
    ∃ grown a' h', a.grow heap = .ok (grown, a') ∧ h.grow heap.serves = (grown, h') ∧
      a'.Implements h' ∧ h'.toDynarray = h.toDynarray ∧ (grown = true → h.nAlloc < h'.nAlloc) := by
  have next := nextSize_tracked a.nAlloc
  rw [imp.nAlloc] at next
  let bytes := intopU64Mult (HeapArray.nextSize h.nAlloc) (intopU64Init (UInt64.ofNat h.itemSize))
  let bytes' := intopSizetMult (nextSize a.nAlloc) (intopSizetInit a.itemSize)
  have same : bytes.tracked = bytes' := by
    rw [tracked_mult, next]
    change (nextSize a.nAlloc).mult (intopSizetInit (UInt64.ofNat h.itemSize)) = _
    rw [← imp.items.size]
    rfl
  have flags : bytes.isOverflow = bytes'.isOverflow := congrArg Tracked.isOverflow same
  have values : bytes.value.toBitVec = bytes'.value := congrArg Tracked.value same
  have room : (HeapArray.nextSize h.nAlloc).value.toNat = (nextSize a.nAlloc).value.toNat :=
    congrArg (fun x => x.value.toNat) next
  cases flag : bytes.isOverflow with
  | true =>
      refine ⟨false, a, h, ?_, ?_, imp, rfl, fun bad => by cases bad⟩
      · exact if_pos (flags.symm.trans flag)
      · have none_ : h.nextBytes = none := if_pos flag
        rw [HeapArray.grow, none_]
  | false =>
      have clear : bytes'.isOverflow = false := flags.symm.trans flag
      have some_ : h.nextBytes = some bytes.value.toNat :=
        if_neg (by rw [flag]; exact Bool.false_ne_true)
      have tracks : Tracks bytes' _ _ :=
        Tracks.mult ⟨Iff.rfl, fun _ => rfl⟩ (Tracks.init a.itemSize.toBitVec)
      have fits := tracks.flag.mp clear
      have more : a.nAlloc.toNat < (nextSize a.nAlloc).value.toNat :=
        (nextSize_grows a.nAlloc).resolve_left fun wrapped => by
          rw [fits.1] at wrapped
          cases wrapped
      have size : (UInt64.ofBitVec bytes'.value).toNat = bytes.value.toNat := by
        rw [← values]
      have nonzero : UInt64.ofBitVec bytes'.value ≠ 0 := by
        intro zero
        have total : (UInt64.ofBitVec bytes'.value).toNat = _ := tracks.value fits
        rw [zero] at total
        have wide : a.itemSize.toNat = h.itemSize := by rw [imp.items.size, imp.toNat_size]
        rcases Nat.mul_eq_zero.mp total.symm with none_ | none_
        · omega
        · exact absurd (wide.symm.trans none_) (Nat.ne_of_gt imp.positive)
      obtain ⟨b, old, resized⟩ := realloc_some heap a.requests imp.live nonzero
      obtain ⟨grown, a', ran, rep, -, -⟩ := grow_represents heap imp.items imp.live
      rw [size] at resized
      rw [HeapArray.grow, some_, ← imp.requests]
      dsimp only
      split at resized
      case isTrue served =>
        rw [if_pos served]
        have grows := grow_served clear resized
        rw [grows] at ran
        cases ran
        refine ⟨true, _, _, grows, rfl, ?_, rfl, fun _ => ?_⟩
        · exact ⟨imp.positive, imp.small, rep, room.symm, rfl⟩
        · change h.nAlloc < (HeapArray.nextSize h.nAlloc).value.toNat
          rw [room, ← imp.nAlloc]
          exact more
      case isFalse refused =>
        rw [if_neg refused]
        have grows := grow_refused clear resized
        rw [grows] at ran
        cases ran
        refine ⟨false, _, _, grows, rfl, ?_, rfl, fun bad => by cases bad⟩
        exact ⟨imp.positive, imp.small, rep, imp.nAlloc, rfl⟩

/-- Both arrays are full, or neither is. -/
theorem Implements.full_iff (imp : a.Implements h) (few : h.items.length + 1 < 2 ^ 64) :
    a.nAlloc < a.nItems + 1 ↔ h.nAlloc < h.items.length + 1 := by
  have sum : (a.nItems + 1).toNat = h.items.length + 1 := by
    rw [UInt64.toNat_add, imp.count]
    exact Nat.mod_eq_of_lt few
  rw [UInt64.lt_iff_toNat_lt, sum, imp.nAlloc]

/-- Both arrays make room for one more item, or neither does. -/
theorem reserve_implements (heap : CAllocator) (imp : a.Implements h)
    (few : h.items.length + 1 < 2 ^ 64) (fuel : Nat) :
    ∃ roomy a' h', growFor heap 1 (fuel + 2) a = .ok (roomy, a') ∧
      h.reserve heap.serves = (roomy, h') ∧ a'.Implements h' ∧
      h'.toDynarray = h.toDynarray := by
  have room := imp.items.room
  rw [imp.count, imp.nAlloc] at room
  rw [growFor, HeapArray.reserve]
  split
  case isFalse roomy =>
    rw [if_neg (mt (imp.full_iff few).mpr roomy)]
    exact ⟨true, a, h, rfl, rfl, imp, rfl⟩
  case isTrue full =>
    rw [if_pos ((imp.full_iff few).mp full)]
    obtain ⟨grown, a', h', ran, ran', imp', same, more⟩ := grow_implements heap imp
    rw [ran, ok_bind, ran']
    cases grown with
    | false => exact ⟨false, a', h', rfl, rfl, imp', same⟩
    | true =>
        refine ⟨true, a', h', ?_, rfl, imp', same⟩
        have greater := more rfl
        have roomy : ¬a'.nAlloc < a'.nItems + 1 := by
          have items : h'.items = h.items := congrArg Dynarray.items same
          rw [imp'.full_iff (by rw [items]; exact few), items]
          omega
        dsimp only
        rw [if_pos rfl, growFor, if_neg roomy]
        rfl

/-! ## The operations -/

/-- An item is pushed to both arrays, or to neither. -/
theorem push_implements (heap : CAllocator) (imp : a.Implements h)
    (few : h.items.length + 1 < 2 ^ 64) (word : Nat) :
    ∃ done a' h', a.push heap (encode h.itemSize word) = .ok (done, a') ∧
      h.push heap.serves (fun _ => .ok word) = .ok (done, h') ∧ a'.Implements h' := by
  have wide : ∀ item ∈ [encode h.itemSize word], item.length = (UInt64.ofNat h.itemSize).toNat := by
    intro item mem
    rw [List.mem_singleton.mp mem, length_encode, imp.toNat_size]
  obtain ⟨done, a₁, ran, rep⟩ := pushBulk_represents heap [encode h.itemSize word] imp.items
    (fun _ => imp.live) (n := 1) rfl wide (by rw [List.length_map]; exact few)
  rw [List.flatten_singleton] at ran
  obtain ⟨roomy, a₂, h₂, grown, reserved, imp₂, same⟩ := reserve_implements heap imp few h.items.length
  have fuel : (a.nItems + 1).toNat + 1 = h.items.length + 2 := by
    rw [UInt64.toNat_add, imp.count]
    exact congrArg (· + 1) (Nat.mod_eq_of_lt few)
  rw [push, HeapArray.push, ran, reserved]
  rw [pushBulk, fuel, grown, ok_bind] at ran
  cases roomy with
  | false =>
      cases ran
      exact ⟨false, a₁, h₂, rfl, rfl, imp₂⟩
  | true =>
      dsimp only at ran
      rw [if_pos rfl] at ran
      obtain ⟨data, -, ran⟩ := bind_eq_ok.mp ran
      cases ran
      refine ⟨true, _, { h₂ with items := h₂.items ++ [word] }, rfl, rfl, imp₂.positive,
        imp₂.small, ?_, imp₂.nAlloc, imp₂.requests⟩
      have size : h₂.itemSize = h.itemSize := congrArg Dynarray.itemSize same
      have items : h₂.items = h.items := congrArg Dynarray.items same
      dsimp only
      rw [size, items, List.map_append, List.map_singleton]
      exact rep

/-- The last item is left out of both arrays. -/
theorem pop_implements (imp : a.Implements h) (some_ : h.items ≠ []) : a.pop.Implements h.pop := by
  have rep := pop_represents imp.items (mt List.map_eq_nil_iff.mp some_)
  rw [← List.map_dropLast] at rep
  exact ⟨imp.positive, imp.small, rep, imp.nAlloc, imp.requests⟩

/-- Two items are swapped in both arrays. -/
theorem swap_implements (imp : a.Implements h) {i j : UInt64} (insideI : i.toNat < h.items.length)
    (insideJ : j.toNat < h.items.length) :
    ∃ a' h', a.swap i j = .ok a' ∧ h.swap i.toNat j.toNat = .ok h' ∧ a'.Implements h' := by
  obtain ⟨a', ran, rep⟩ := swap_represents imp.items (by rw [imp.toNat_size]; exact imp.small)
    (by rw [List.length_map]; exact insideI) (by rw [List.length_map]; exact insideJ)
  rw [← map_exchange] at rep
  refine ⟨a', { h with items := exchange i.toNat j.toNat h.items }, ran,
    if_pos ⟨insideI, insideJ⟩, imp.positive, imp.small, rep, ?_, ?_⟩
  · obtain ⟨data, -, rfl⟩ := map_eq_ok.mp ran
    exact imp.nAlloc
  · obtain ⟨data, -, rfl⟩ := map_eq_ok.mp ran
    exact imp.requests

/-- Both arrays are cleared. -/
theorem clear_implements (imp : a.Implements h) :
    ∃ a', a.clear = .ok a' ∧ a'.Implements h.clear := by
  refine ⟨_, clear_eq_ok.mpr ⟨imp.live, rfl⟩, imp.positive, imp.small, ?_, rfl, imp.requests⟩
  rw [imp.items.size]
  exact init_represents _ _

end Steps

end RawDynarray

end Pointless
