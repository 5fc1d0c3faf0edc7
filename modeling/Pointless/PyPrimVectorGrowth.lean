import Pointless.PyPrimVectorList
import Pointless.PyPrimVectorMethods

/-!
# Loops that push

How an array of a PrimVector grows: it asks for more room than it had, and its bytes
do not overflow in an array of fewer than 2^59 items. The loops that push the items of a
buffer append its words up to a push that is refused.
-/

namespace Pointless

open ByteMemory ExceptRules

/-! ## Growth -/

/-- Growth asks for more room than there was, and not for much more, where the sum is a size. -/
theorem nextSize_more (n : Nat) (fits : n < 2 ^ 64) :
    ∃ k, (HeapArray.nextSize n).Is k ∧ n < k ∧ k ≤ n / 16 + n + 16 := by
  obtain ⟨c, constant, least, most⟩ : ∃ c : Nat,
      c = (if n < 16 then [1, 1, 2, 2, 4, 4, 4, 8, 8, 10, 11, 12, 13, 14, 15, 16].getD n 0 else 0) ∧
        (n < 16 → 1 ≤ c) ∧ c ≤ 16 := by
    refine ⟨_, rfl, ?_⟩
    by_cases few : n < 16
    · have added : ∀ k < 16,
          1 ≤ [1, 1, 2, 2, 4, 4, 4, 8, 8, 10, 11, 12, 13, 14, 15, 16].getD k 0 ∧
            [1, 1, 2, 2, 4, 4, 4, 8, 8, 10, 11, 12, 13, 14, 15, 16].getD k 0 ≤ 16 := by decide
      rw [if_pos few]
      exact ⟨fun _ => (added n few).1, (added n few).2⟩
    · rw [if_neg few]
      exact ⟨fun less => absurd less few, by omega⟩
  have exact_ : ∀ k < 2 ^ 64, (intopU64Init (UInt64.ofNat k)).Is k := by
    intro k less
    have is := intopU64Init_is (UInt64.ofNat k)
    rwa [UInt64.toNat_ofNat_of_lt' less] at is
  refine ⟨n / 16 + n + c, ?_, by omega, by omega⟩
  unfold HeapArray.nextSize
  simp only [← constant]
  exact intopU64Add_is (intopU64Add_is (exact_ _ (by omega)) (exact_ _ (by omega)))
    (exact_ _ (by omega))

theorem nextSize_is (n : Nat) (small : n < 2 ^ 62) :
    ∃ v, HeapArray.nextSize n = intopU64Init v ∧ n < v.toNat ∧ v.toNat ≤ n / 16 + n + 16 := by
  obtain ⟨k, sum, more, most⟩ := nextSize_more n (by omega)
  rcases sum with ⟨fits, value⟩ | ⟨-, large⟩
  · refine ⟨(HeapArray.nextSize n).value, ?_, by omega, by omega⟩
    rw [intopU64Init, ← fits]
  · omega

namespace HeapArray

variable {alloc : Allocator}

/-- The room of an array that is not large can be asked for. -/
theorem nextBytes_some {a : HeapArray} (small : a.nAlloc < 2 ^ 59) (narrow : a.itemSize ≤ 8) :
    ∃ nBytes, a.nextBytes = some nBytes ∧ a.nAlloc < (nextSize a.nAlloc).value.toNat := by
  obtain ⟨v, next, more, most⟩ := nextSize_is a.nAlloc (by omega)
  have size : (UInt64.ofNat a.itemSize).toNat = a.itemSize :=
    UInt64.toNat_ofNat_of_lt' (show a.itemSize < 2 ^ 64 by omega)
  rcases intopU64Mult_is (a := v) (b := UInt64.ofNat a.itemSize) with ⟨fits, -⟩ | ⟨-, large⟩
  · refine ⟨(intopU64Mult (intopU64Init v) (intopU64Init (UInt64.ofNat a.itemSize))).value.toNat,
      ?_, ?_⟩
    · unfold nextBytes
      simp [next, fits]
    · rw [next]
      exact more
  · rw [size] at large
    have bound : v.toNat * a.itemSize ≤ v.toNat * 8 := Nat.mul_le_mul_left _ narrow
    omega

/-- Room for an item is made where every request is served. -/
theorem reserve_served (served : ∀ requests nBytes, alloc requests nBytes = true) {a : HeapArray}
    (within : a.items.length ≤ a.nAlloc) (small : a.items.length < 2 ^ 59)
    (narrow : a.itemSize ≤ 8) :
    (a.reserve alloc).1 = true ∧ a.items.length < (a.reserve alloc).2.nAlloc := by
  unfold reserve
  split
  case isFalse room =>
    refine ⟨rfl, ?_⟩
    change a.items.length < a.nAlloc
    omega
  case isTrue full =>
    obtain ⟨nBytes, bytes, more⟩ := nextBytes_some (a := a) (by omega) narrow
    simp only [grow, bytes, served, if_true]
    exact ⟨trivial, by omega⟩

/-- The array with another item, in the room that is made for it. -/
def pushed (alloc : Allocator) (a : HeapArray) (word : Nat) : HeapArray :=
  { (a.reserve alloc).2 with items := a.items ++ [word] }

@[simp] theorem pushed_items (a : HeapArray) (word : Nat) :
    (a.pushed alloc word).items = a.items ++ [word] := rfl

@[simp] theorem pushed_itemSize (a : HeapArray) (word : Nat) :
    (a.pushed alloc word).itemSize = a.itemSize := (reserve_items alloc a).2

theorem push_eq (a : HeapArray) (item : HeapArray → Res Nat) :
    a.push alloc item = if (a.reserve alloc).1 then
      (fun word => (true, a.pushed alloc word)) <$> item (a.reserve alloc).2
    else .ok (false, (a.reserve alloc).2) := by
  unfold push pushed
  rw [← (reserve_items alloc a).1]
  cases reserved : a.reserve alloc with
  | mk room b => cases room <;> rfl

/-- Popping so many items leaves those before them. -/
theorem popN_eq (a : HeapArray) (n : Nat) :
    a.popN n = { a with items := a.items.take (a.items.length - n) } := by
  induction n with
  | zero =>
      rw [Nat.sub_zero, List.take_length]
      rfl
  | succ n ih =>
      have last : a.popN (n + 1) = (a.popN n).pop := rfl
      have rest : min (min (a.items.length - n) a.items.length - 1) (a.items.length - n) =
          a.items.length - (n + 1) := by omega
      rw [last, ih, HeapArray.pop]
      simp only [List.dropLast_eq_take, List.length_take, List.take_take, rest]

end HeapArray

theorem Dynarray.length_data (a : Dynarray) : a.data.length = a.itemSize * a.items.length := by
  rw [Dynarray.data, length_flatten_of_wide (w := a.itemSize), List.length_map]
  intro item mem
  obtain ⟨n, -, rfl⟩ := List.mem_map.mp mem
  exact length_encode _ _

/-! ## Pushing the words of a buffer -/

section PushLoop

variable (alloc : Allocator) {item : Nat → HeapArray → Res Nat}

/-- `item` reads these words, from position `i` on. -/
def ReadsWords (item : Nat → HeapArray → Res Nat) (i : Nat) (words : List Nat) : Prop :=
  ∀ k (less : k < words.length) a, item (i + k) a = .ok words[k]

theorem ReadsWords.first {i word : Nat} {words : List Nat}
    (reads : ReadsWords item i (word :: words)) : item i = fun _ => .ok word :=
  funext fun a => reads 0 (Nat.zero_lt_succ _) a

theorem ReadsWords.later {i word : Nat} {words : List Nat}
    (reads : ReadsWords item i (word :: words)) : ReadsWords item (i + 1) words := by
  intro k less a
  have here := reads (k + 1) (Nat.succ_lt_succ less) a
  rw [Nat.add_assoc, Nat.add_comm 1 k, here, List.getElem_cons_succ]

/-- Where every request is served, all words of a short buffer are pushed. -/
theorem primPushLoop_served {alloc : Allocator}
    (served : ∀ requests nBytes, alloc requests nBytes = true) {words : List Nat} {i : Nat}
    {a : HeapArray} (reads : ReadsWords item i words)
    (within : a.items.length ≤ a.nAlloc) (narrow : a.itemSize ≤ 8)
    (small : a.items.length + words.length ≤ 2 ^ 59) :
    ∃ a', primPushLoop alloc item words.length i a = .ok (true, i + words.length, a') ∧
      a'.itemSize = a.itemSize ∧ a'.items = a.items ++ words ∧ a'.items.length ≤ a'.nAlloc := by
  induction words generalizing i a with
  | nil => exact ⟨a, rfl, rfl, (List.append_nil _).symm, within⟩
  | cons word words ih =>
      rw [List.length_cons] at small
      obtain ⟨made, room⟩ := HeapArray.reserve_served served within (by omega) narrow
      obtain ⟨items, size⟩ := HeapArray.reserve_items alloc a
      have pushes : a.push alloc (item i) = .ok (true,
          { (a.reserve alloc).2 with items := (a.reserve alloc).2.items ++ [word] }) := by
        rw [HeapArray.push, reads.first]
        cases reserved : a.reserve alloc with
        | mk pushed b =>
            rw [reserved] at made
            cases made
            rfl
      obtain ⟨a', rest, size', items', within'⟩ := ih
        (a := { (a.reserve alloc).2 with items := (a.reserve alloc).2.items ++ [word] }) reads.later
        (by simp only [List.length_append, items, List.length_singleton]; exact room)
        (by simpa only [size] using narrow)
        (by simp only [List.length_append, items, List.length_singleton]; omega)
      refine ⟨a', ?_, size'.trans size, ?_, within'⟩
      · rw [List.length_cons, primPushLoop, pushes, ok_bind]
        change primPushLoop alloc item words.length (i + 1) _ = _
        rw [rest, Nat.add_assoc, Nat.add_comm 1 words.length]
      · rw [items', items, List.append_assoc]
        rfl

end PushLoop

end Pointless
