import Pointless.DynarraySound

/-!
# Runs of a dynamic array

An array refines the list of its items along a run (`RefinesItems`) exactly where two things
do not happen: a swap of items of 2^32 bytes or more, and a use of the block of an array
with items of no bytes after growing has freed it.
-/

namespace Pointless

open ByteMemory ExceptRules InPlace Overflow RowMemory

/-! ## Runs -/

/-- The memory of a pointer that is given away has these bytes. -/
def BlockPointer.Carries (bs : List UInt8) : BlockPointer → Prop
  | .null => bs = []
  | .block b => b.bytes = bs
  | .dangling => False

namespace DynarrayOp

/-- What a caller keeps to: items have the width of the array, there are fewer than 2^64 of
them, and the assertions of the functions hold. -/
def Allowed (itemSize : UInt64) (xs : List (List UInt8)) : DynarrayOp → Prop
  | .push item => item.length = itemSize.toNat ∧ xs.length + 1 < 2 ^ 64
  | .pushBulk items =>
      (∀ item ∈ items, item.length = itemSize.toNat) ∧ xs.length + items.length < 2 ^ 64
  | .pop => xs ≠ []
  | .swap i j => i.toNat < xs.length ∧ j.toNat < xs.length
  | .clear => True
  | .giveData data items =>
      xs = [] ∧ (∀ item ∈ items, item.length = itemSize.toNat) ∧ items.length < 2 ^ 64 ∧
        data.Carries items.flatten

/-- Where an operation does what it should: a swap does at items of fewer than 2^32 bytes,
and what uses the block does while it is there. -/
def Meets (a : RawDynarray) : DynarrayOp → Prop
  | .push _ => a.Lives 1
  | .pushBulk items => a.Lives (UInt64.ofNat items.length)
  | .pop => True
  | .swap _ _ => a.itemSize < 2 ^ 32
  | .clear | .giveData _ _ => a.data ≠ .dangling

section Steps

variable {heap : CAllocator} {a : RawDynarray} {itemSize : UInt64} {xs : List (List UInt8)}

theorem run_of_meets (heap : CAllocator) (rep : a.Represents itemSize xs) {op : DynarrayOp}
    (allowed : op.Allowed itemSize xs) (meets : op.Meets a) :
    ∃ done a', op.run heap a = .ok (done, a') ∧ a'.Represents itemSize (op.onList done xs) := by
  cases op with
  | push item =>
      have single : [item].flatten = item := List.flatten_singleton
      obtain ⟨done, a', ran, rep'⟩ := RawDynarray.pushBulk_represents heap [item] rep meets
        rfl (fun y mem => by rw [List.mem_singleton.mp mem]; exact allowed.1) allowed.2
      rw [single] at ran
      exact ⟨done, a', ran, rep'⟩
  | pushBulk items =>
      have count : (UInt64.ofNat items.length).toNat = items.length :=
        UInt64.toNat_ofNat_of_lt' (Nat.lt_of_le_of_lt (Nat.le_add_left _ _) allowed.2)
      exact RawDynarray.pushBulk_represents heap items rep meets count allowed.1 allowed.2
  | pop => exact ⟨true, a.pop, rfl, RawDynarray.pop_represents rep allowed⟩
  | swap i j =>
      have small : itemSize.toNat < 2 ^ 32 := by
        rw [← rep.size]
        exact meets
      obtain ⟨a', ran, rep'⟩ := RawDynarray.swap_represents rep small allowed.1 allowed.2
      exact ⟨true, a', by rw [run, ran, map_ok], rep'⟩
  | clear =>
      have ran : a.clear = .ok _ := RawDynarray.clear_eq_ok.mpr ⟨meets, rfl⟩
      refine ⟨true, _, by rw [run, ran, map_ok], ?_⟩
      rw [rep.size]
      exact RawDynarray.init_represents itemSize a.requests
  | giveData data items =>
      obtain ⟨-, wide, few, carries⟩ := allowed
      let n := UInt64.ofNat items.length
      have ran : a.giveData data n = .ok { a with data, nItems := n, nAlloc := n } :=
        RawDynarray.giveData_eq_ok.mpr ⟨meets, rfl⟩
      have count : n.toNat = items.length := UInt64.toNat_ofNat_of_lt' few
      refine ⟨true, { a with data, nItems := n, nAlloc := n }, by rw [run, ran, map_ok],
        ⟨rep.size, count, Nat.le_refl _, wide, ?_⟩⟩
      have total := length_flatten_of_wide wide
      cases data with
      | null =>
          rw [show items.flatten = [] from carries, List.length_nil] at total
          change _ * n.toNat = 0
          rw [count]
          exact total.symm
      | block b =>
          refine ⟨?_, wide, ?_⟩
          · rw [show b.bytes = _ from carries, count]
            exact total
          · rw [show b.bytes = _ from carries]
            exact List.prefix_refl _
      | dangling => exact absurd carries (fun bad => bad)

theorem meets_of_run (rep : a.Represents itemSize xs) {op : DynarrayOp} {r : Bool × RawDynarray}
    (ran : op.run heap a = .ok r) : op.Meets a := by
  cases op with
  | push item =>
      by_contra lost
      rw [run, RawDynarray.push, RawDynarray.pushBulk_dangling rep lost] at ran
      cases ran
  | pushBulk items =>
      by_contra lost
      rw [run, RawDynarray.pushBulk_dangling rep lost] at ran
      cases ran
  | pop => exact trivial
  | swap i j =>
      obtain ⟨a', swapped, -⟩ := map_eq_ok.mp ran
      refine Nat.not_le.mp fun large => ?_
      exact RawDynarray.swap_diverges large swapped
  | clear =>
      obtain ⟨a', cleared, -⟩ := map_eq_ok.mp ran
      exact (RawDynarray.clear_eq_ok.mp cleared).1
  | giveData data items =>
      obtain ⟨a', given, -⟩ := map_eq_ok.mp ran
      exact (RawDynarray.giveData_eq_ok.mp given).1

end Steps

end DynarrayOp

/-- Along a run of allowed operations the array has the items of the list that the same
operations are done to; a push may be refused, and then changes no list. -/
def RefinesItems (heap : CAllocator) (itemSize : UInt64) :
    RawDynarray → List (List UInt8) → List DynarrayOp → Prop
  | a, xs, [] => a.Represents itemSize xs
  | a, xs, op :: rest => a.Represents itemSize xs ∧ (op.Allowed itemSize xs →
      ∃ done a', op.run heap a = .ok (done, a') ∧
        RefinesItems heap itemSize a' (op.onList done xs) rest)

/-- Along a run of allowed operations each is where it does what it should. -/
def RunMeets (heap : CAllocator) (itemSize : UInt64) :
    RawDynarray → List (List UInt8) → List DynarrayOp → Prop
  | _, _, [] => True
  | a, xs, op :: rest => op.Allowed itemSize xs → op.Meets a ∧
      ∀ done a', op.run heap a = .ok (done, a') → RunMeets heap itemSize a' (op.onList done xs) rest

section Runs

variable {heap : CAllocator} {a : RawDynarray} {itemSize : UInt64} {xs : List (List UInt8)}

theorem refinesItems_iff (rep : a.Represents itemSize xs) (ops : List DynarrayOp) :
    RefinesItems heap itemSize a xs ops ↔ RunMeets heap itemSize a xs ops := by
  induction ops generalizing a xs with
  | nil => exact iff_of_true rep trivial
  | cons op rest ih =>
      constructor
      · rintro ⟨-, steps⟩ allowed
        obtain ⟨done, a', ran, refines⟩ := steps allowed
        have meets := DynarrayOp.meets_of_run rep ran
        refine ⟨meets, fun done₁ a₁ ran₁ => ?_⟩
        rw [ran] at ran₁
        cases ran₁
        obtain ⟨done₂, a₂, ran₂, rep₂⟩ := DynarrayOp.run_of_meets heap rep allowed meets
        rw [ran] at ran₂
        cases ran₂
        exact (ih rep₂).mp refines
      · intro meets
        refine ⟨rep, fun allowed => ?_⟩
        obtain ⟨here, later⟩ := meets allowed
        obtain ⟨done, a', ran, rep'⟩ := DynarrayOp.run_of_meets heap rep allowed here
        exact ⟨done, a', ran, (ih rep').mpr (later done a' ran)⟩

/-- Arrays of items of one byte or more, but fewer than 2^32, refine the list along every
run. -/
theorem runMeets_of_size (rep : a.Represents itemSize xs) (some_ : itemSize ≠ 0)
    (small : itemSize < 2 ^ 32) (ops : List DynarrayOp) : RunMeets heap itemSize a xs ops := by
  induction ops generalizing a xs with
  | nil => exact trivial
  | cons op rest ih =>
      intro allowed
      have live : a.data ≠ .dangling := by
        intro dangling
        have memory := rep.memory
        rw [dangling] at memory
        exact some_ memory.1
      have meets : op.Meets a := by
        cases op with
        | push item => exact fun _ => live
        | pushBulk items => exact fun _ => live
        | pop => exact trivial
        | swap i j =>
            rw [DynarrayOp.Meets, rep.size]
            exact small
        | clear => exact live
        | giveData data items => exact live
      refine ⟨meets, fun done a' ran => ?_⟩
      obtain ⟨done', a'', ran', rep'⟩ := DynarrayOp.run_of_meets heap rep allowed meets
      rw [ran] at ran'
      cases ran'
      exact ih rep'

/-- An array refines the list of its items along a run exactly when each of the operations
is where it does what it should. The next size is greater or overflows. -/
theorem dynarray_refines_list (heap : CAllocator) (itemSize : UInt64) (ops : List DynarrayOp) :
    (∀ n, (RawDynarray.nextSize n).isOverflow = true ∨
        n.toNat < (RawDynarray.nextSize n).value.toNat) ∧
      (RefinesItems heap itemSize (RawDynarray.init itemSize 0) [] ops ↔
        RunMeets heap itemSize (RawDynarray.init itemSize 0) [] ops) :=
  ⟨RawDynarray.nextSize_grows, refinesItems_iff (RawDynarray.init_represents itemSize 0) ops⟩

end Runs

/-! ## Large items -/

/-- Two items of 2^32 bytes. -/
def hugeItems : List (List UInt8) := List.replicate 2 (List.replicate (2 ^ 32) 0)

theorem hugeItems_wide : ∀ item ∈ hugeItems, item.length = 2 ^ 32 := by
  intro item mem
  rw [List.eq_of_mem_replicate mem, List.length_replicate]

/-- The block of 8 GiB that they take. -/
def hugeBlock : Block where
  bytes := hugeItems.flatten
  fits := by
    rw [length_flatten_of_wide hugeItems_wide, hugeItems, List.length_replicate]
    decide

/-- The swap of two items of 2^32 bytes does not come to an end inside their block. -/
theorem hugeItems_swap : ¬RefinesItems ⟨fun _ _ => true, fun _ _ => 0, true⟩ (2 ^ 32)
    (RawDynarray.init (2 ^ 32) 0) [] [.giveData (.block hugeBlock) hugeItems, .swap 0 1] := by
  rintro ⟨-, given⟩
  obtain ⟨done, a, -, rep, swapped⟩ := given ⟨rfl, hugeItems_wide, by decide, rfl⟩
  obtain ⟨done', a', ran, -⟩ := swapped ⟨Nat.zero_lt_two, Nat.one_lt_two⟩
  have small : a.itemSize < 2 ^ 32 := DynarrayOp.meets_of_run rep ran
  rw [rep.size] at small
  exact absurd small (by decide)

end Pointless
