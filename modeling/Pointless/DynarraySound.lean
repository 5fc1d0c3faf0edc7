import Pointless.DynarrayBytes

/-!
# What a dynamic array stands for

An array stands for the list of its items, which are the first bytes of its block
(`RawDynarray.Represents`). Growing keeps the list, and where it is done there is more room
than before, so that the loop of a push ends. Pushes, pops and swaps do to the list what
they say, but for a swap of items of 2^32 bytes or more, whose loop counts in 32 bits and
never ends.
-/

namespace Pointless

open ByteMemory ExceptRules InPlace Overflow RowMemory

/-! ## What an array stands for -/

/-- A pointer has room for `nAlloc` items of `itemSize` bytes, and begins with the items
`xs`. Items of no bytes need no memory, so that their array may have lost its block to a
growth, which was not refused for the sake of an overflow. -/
def BlockPointer.Backs (itemSize nAlloc : UInt64) (xs : List (List UInt8)) : BlockPointer → Prop
  | .null => itemSize.toNat * nAlloc.toNat = 0
  | .block b => b.bytes.length = itemSize.toNat * nAlloc.toNat ∧ Row itemSize.toNat xs b.bytes
  | .dangling => itemSize = 0 ∧ (RawDynarray.nextSize nAlloc).isOverflow = false

namespace RawDynarray

/-- The array has the items `xs`, of `itemSize` bytes each. -/
structure Represents (a : RawDynarray) (itemSize : UInt64) (xs : List (List UInt8)) : Prop where
  size : a.itemSize = itemSize
  count : a.nItems.toNat = xs.length
  room : a.nItems.toNat ≤ a.nAlloc.toNat
  wide : ∀ x ∈ xs, x.length = itemSize.toNat
  memory : a.data.Backs itemSize a.nAlloc xs

/-- The array does not need memory that it has lost: its block has not been freed, or there
is room for `n` more items. -/
def Lives (a : RawDynarray) (n : UInt64) : Prop :=
  a.nAlloc < a.nItems + n → a.data ≠ .dangling

section Growth

variable {heap : CAllocator} {a : RawDynarray} {itemSize : UInt64} {xs : List (List UInt8)}

theorem init_represents (itemSize : UInt64) (requests : Nat) :
    (init itemSize requests).Represents itemSize [] where
  size := rfl
  count := rfl
  room := Nat.le_refl 0
  wide := fun _ bad => absurd bad List.not_mem_nil
  memory := Nat.mul_zero _

/-- The size of a block is a `size_t`. -/
theorem Represents.size_lt (rep : a.Represents itemSize xs) :
    itemSize.toNat * a.nAlloc.toNat < 2 ^ 64 := by
  have memory := rep.memory
  cases pointer : a.data with
  | null =>
      rw [pointer] at memory
      rw [show itemSize.toNat * a.nAlloc.toNat = 0 from memory]
      exact Nat.two_pow_pos 64
  | block b =>
      rw [pointer] at memory
      rw [← memory.1]
      exact b.fits
  | dangling =>
      rw [pointer] at memory
      rw [memory.1, UInt64.toNat_zero, Nat.zero_mul]
      exact Nat.two_pow_pos 64

theorem smallAdd_pos (n : UInt64) (few : n < 16) : 0 < (smallAdd.getD n.toNat 0).toNat := by
  have each : ∀ k < 16, 0 < (smallAdd.getD k 0).toNat := by decide
  exact each n.toNat few

/-- The next size is greater, or has overflowed. -/
theorem nextSize_grows (n : UInt64) :
    (nextSize n).isOverflow = true ∨ n.toNat < (nextSize n).value.toNat := by
  let c : UInt64 := if n < 16 then smallAdd.getD n.toNat 0 else 0
  have tracks : Tracks (nextSize n) ((n / 16).toNat + n.toNat + c.toNat) _ :=
    ((Tracks.init (n / 16).toBitVec).add (Tracks.init n.toBitVec)).add (Tracks.init c.toBitVec)
  cases flag : (nextSize n).isOverflow with
  | true => exact Or.inl rfl
  | false =>
      have more : 0 < (n / 16).toNat + c.toNat := by
        by_cases few : n < 16
        · have added := smallAdd_pos n few
          rw [show c = smallAdd.getD n.toNat 0 from if_pos few]
          omega
        · have least : 16 ≤ n.toNat := Nat.not_lt.mp few
          have part : (n / 16).toNat = n.toNat / 16 := UInt64.toNat_div n 16
          omega
      rw [tracks.value (tracks.flag.mp flag)]
      omega

/-- What is resized begins with the same items. -/
theorem resized_backs (request : Nat) (old : List UInt8) {size nAlloc : UInt64}
    (row : Row itemSize.toNat xs old) (total : size.toNat = itemSize.toNat * nAlloc.toNat)
    (enough : xs.length ≤ nAlloc.toNat) :
    (BlockPointer.block (heap.resized request old size)).Backs itemSize nAlloc xs := by
  refine ⟨(heap.length_resizedBytes request old size.toNat).trans total, row.resize ?_ _⟩
  rw [total]
  exact Nat.mul_le_mul_left _ enough

variable (heap)

/-- What `realloc` does to the block of an array, which has not been freed. -/
theorem realloc_backs {p : BlockPointer} {size nAlloc nAlloc' : UInt64} (request : Nat)
    (backs : p.Backs itemSize nAlloc xs) (live : p ≠ .dangling)
    (wide : ∀ x ∈ xs, x.length = itemSize.toNat) (within : xs.length ≤ nAlloc.toNat)
    (clear : (nextSize nAlloc).isOverflow = false)
    (total : size.toNat = itemSize.toNat * nAlloc'.toNat) (more : nAlloc.toNat < nAlloc'.toNat) :
    ∃ next old, heap.realloc request p size = .ok (next, old) ∧
      (next = none → old.Backs itemSize nAlloc xs) ∧
      ∀ b, next = some b → (BlockPointer.block b).Backs itemSize nAlloc' xs := by
  have enough : xs.length ≤ nAlloc'.toNat := Nat.le_trans within (Nat.le_of_lt more)
  have kept : ∀ old, Row itemSize.toNat xs old →
      ∀ b, some (heap.resized request old size) = some b →
      (BlockPointer.block b).Backs itemSize nAlloc' xs := by
    intro old row b same
    cases same
    exact resized_backs request old row total enough
  cases p with
  | dangling => exact absurd rfl live
  | null =>
      have none : itemSize.toNat * xs.length = 0 :=
        Nat.eq_zero_of_le_zero ((Nat.mul_le_mul_left _ within).trans (Nat.le_of_eq backs))
      unfold CAllocator.realloc
      dsimp only
      split
      · exact ⟨_, _, rfl, (fun bad => by cases bad), kept [] (row_of_empty wide none [])⟩
      · exact ⟨_, _, rfl, fun _ => backs, fun b bad => by cases bad⟩
  | block b =>
      unfold CAllocator.realloc
      dsimp only
      split
      case isTrue zero =>
        refine ⟨_, _, rfl, fun _ => ?_, fun b bad => by cases bad⟩
        rw [zero.1, UInt64.toNat_zero] at total
        have either := Nat.mul_eq_zero.mp total.symm
        exact ⟨UInt64.toNat_inj.mp (either.resolve_right (Nat.ne_zero_of_lt more)), clear⟩
      case isFalse =>
        split
        · exact ⟨_, _, rfl, (fun bad => by cases bad), kept b.bytes backs.2⟩
        · exact ⟨_, _, rfl, fun _ => backs, fun b bad => by cases bad⟩

/-- Growing keeps the items. Where it is done there is more room than before. -/
theorem grow_represents (rep : a.Represents itemSize xs) (live : a.data ≠ .dangling) :
    ∃ grown a', a.grow heap = .ok (grown, a') ∧ a'.Represents itemSize xs ∧
      a'.nItems = a.nItems ∧
      (grown = true → a.nAlloc.toNat < a'.nAlloc.toNat ∧ a'.data ≠ .dangling) := by
  have tracks : Tracks (intopSizetMult (nextSize a.nAlloc) (intopSizetInit a.itemSize)) _ _ :=
    Tracks.mult ⟨Iff.rfl, fun _ => rfl⟩ (Tracks.init a.itemSize.toBitVec)
  unfold grow
  dsimp only
  split
  case isTrue => exact ⟨false, a, rfl, rep, rfl, fun bad => by cases bad⟩
  case isFalse clear =>
    rw [Bool.not_eq_true] at clear
    have fits := tracks.flag.mp clear
    have more : a.nAlloc.toNat < (nextSize a.nAlloc).value.toNat :=
      (nextSize_grows a.nAlloc).resolve_left fun wrapped => by
        rw [fits.1] at wrapped
        cases wrapped
    have total : (UInt64.ofBitVec (intopSizetMult (nextSize a.nAlloc)
        (intopSizetInit a.itemSize)).value).toNat =
        itemSize.toNat * (UInt64.ofBitVec (nextSize a.nAlloc).value).toNat := by
      rw [← rep.size, Nat.mul_comm]
      exact tracks.value fits
    obtain ⟨next, old, ran, refused, served⟩ := realloc_backs heap a.requests rep.memory
      live rep.wide (rep.count ▸ rep.room) fits.1 total more
    rw [ran, ok_bind]
    cases next with
    | none =>
        refine ⟨false, _, rfl, ⟨rep.size, rep.count, rep.room, rep.wide, refused rfl⟩, rfl, ?_⟩
        intro bad
        cases bad
    | some b =>
        refine ⟨true, _, rfl, ⟨rep.size, rep.count, ?_, rep.wide, served b rfl⟩, rfl,
          fun _ => ⟨more, ?_⟩⟩
        · exact Nat.le_of_lt (Nat.lt_of_le_of_lt rep.room more)
        · intro bad
          cases bad

/-- The loop makes room for `n` more items, or is refused memory. -/
theorem growFor_represents {n : UInt64} {fuel : Nat} (rep : a.Represents itemSize xs)
    (lives : a.Lives n) (enough : (a.nItems + n).toNat ≤ a.nAlloc.toNat + fuel) :
    ∃ roomy a', growFor heap n (fuel + 1) a = .ok (roomy, a') ∧ a'.Represents itemSize xs ∧
      a'.nItems = a.nItems ∧ (roomy = true → ¬a'.nAlloc < a'.nItems + n) := by
  induction fuel generalizing a with
  | zero =>
      have roomy : ¬a.nAlloc < a.nItems + n := Nat.not_lt.mpr enough
      rw [growFor, if_neg roomy]
      exact ⟨true, a, rfl, rep, rfl, fun _ => roomy⟩
  | succ fuel ih =>
      rw [growFor]
      split
      case isTrue few =>
        obtain ⟨grown, a', ran, rep', same, more⟩ := grow_represents heap rep (lives few)
        rw [ran, ok_bind]
        cases grown with
        | false => exact ⟨false, a', rfl, rep', same, fun bad => by cases bad⟩
        | true =>
            obtain ⟨greater, live⟩ := more rfl
            obtain ⟨roomy, a'', ran', rep'', same', enough'⟩ :=
              ih rep' (fun _ => live) (by rw [same]; omega)
            exact ⟨roomy, a'', ran', rep'', same'.trans same, enough'⟩
      case isFalse roomy => exact ⟨true, a, rfl, rep, rfl, fun _ => roomy⟩

end Growth

/-! ## Pushes -/

section Push

variable {heap : CAllocator} {a : RawDynarray} {itemSize : UInt64} {xs ys : List (List UInt8)}

/-- Bytes are written where the block has them. -/
theorem write_block (b : Block) (off : Nat) (bs : List UInt8)
    (inside : off + bs.length ≤ b.bytes.length) :
    ∃ b' : Block, (BlockPointer.block b).write off bs = .ok (.block b') ∧
      overwrite b.bytes off bs = some b'.bytes := by
  rw [BlockPointer.write, dif_pos inside]
  exact ⟨_, rfl, overwrite_eq_some inside⟩

/-- The copy of new items behind the others. -/
theorem memcpy_backs {p : BlockPointer} {nAlloc : UInt64} (backs : p.Backs itemSize nAlloc xs)
    (wide' : ∀ y ∈ ys, y.length = itemSize.toNat)
    (roomy : xs.length + ys.length ≤ nAlloc.toNat) :
    ∃ p', p.memcpy (itemSize.toNat * xs.length) ys.flatten (itemSize.toNat * ys.length) = .ok p' ∧
      p'.Backs itemSize nAlloc (xs ++ ys) := by
  have total : ys.flatten.length = itemSize.toNat * ys.length := length_flatten_of_wide wide'
  have within : itemSize.toNat * xs.length + itemSize.toNat * ys.length ≤
      itemSize.toNat * nAlloc.toNat := by
    rw [← Nat.mul_add]
    exact Nat.mul_le_mul_left _ roomy
  unfold BlockPointer.memcpy
  cases p with
  | null =>
      rw [show itemSize.toNat * nAlloc.toNat = 0 from backs] at within
      rw [if_pos (by omega)]
      exact ⟨.null, rfl, backs⟩
  | dangling =>
      have none : itemSize.toNat * ys.length = 0 := by
        rw [backs.1, UInt64.toNat_zero, Nat.zero_mul]
      rw [if_pos none]
      exact ⟨.dangling, rfl, backs⟩
  | block b =>
      obtain ⟨size, row⟩ := backs
      have inside : itemSize.toNat * xs.length + ys.flatten.length ≤ b.bytes.length := by
        rw [size, total]
        exact within
      split
      case isTrue none =>
        have nothing : ys.flatten = [] := List.length_eq_zero_iff.mp (total.trans none)
        refine ⟨.block b, rfl, size, row.append wide' ?_⟩
        rw [overwrite_eq_some inside, nothing]
        simp
      case isFalse =>
        rw [if_neg (by omega), ← total, List.take_length]
        obtain ⟨b', wrote, written⟩ := write_block b _ _ inside
        exact ⟨.block b', wrote, (length_overwrite written).trans size, row.append wide' written⟩

/-- A push appends its items, or is refused memory and changes nothing. -/
theorem pushBulk_represents (heap : CAllocator) (ys : List (List UInt8)) {n : UInt64}
    (rep : a.Represents itemSize xs) (lives : a.Lives n)
    (count : n.toNat = ys.length) (wide : ∀ y ∈ ys, y.length = itemSize.toNat)
    (fits : xs.length + ys.length < 2 ^ 64) :
    ∃ done a', a.pushBulk heap ys.flatten n = .ok (done, a') ∧
      a'.Represents itemSize (if done then xs ++ ys else xs) := by
  obtain ⟨roomy, a', ran, rep', same, room⟩ :=
    growFor_represents heap rep lives (Nat.le_add_left _ a.nAlloc.toNat)
  rw [pushBulk, ran, ok_bind]
  cases roomy with
  | false => exact ⟨false, a', rfl, rep'⟩
  | true =>
      have sum : (a'.nItems + n).toNat = xs.length + ys.length := by
        rw [UInt64.toNat_add, rep'.count, count, Nat.mod_eq_of_lt fits]
      have enough : xs.length + ys.length ≤ a'.nAlloc.toNat := by
        have few := room rfl
        rw [UInt64.lt_iff_toNat_lt, sum, Nat.not_lt] at few
        exact few
      have product : ∀ k : UInt64, k.toNat ≤ a'.nAlloc.toNat →
          (a'.itemSize * k).toNat = itemSize.toNat * k.toNat := by
        intro k less
        rw [rep'.size, UInt64.toNat_mul, Nat.mod_eq_of_lt]
        exact Nat.lt_of_le_of_lt (Nat.mul_le_mul_left _ less) rep'.size_lt
      obtain ⟨p, copied, backs⟩ := memcpy_backs rep'.memory wide enough
      have copied' : a'.data.memcpy (a'.itemSize * a'.nItems).toNat ys.flatten
          (a'.itemSize * n).toNat = .ok p := by
        rw [product a'.nItems rep'.room, product n (by omega), rep'.count, count]
        exact copied
      dsimp only
      rw [if_pos rfl, copied', ok_bind]
      refine ⟨true, _, rfl, ⟨rep'.size, ?_, ?_, ?_, backs⟩⟩
      · rw [if_pos rfl, List.length_append]
        exact sum
      · change (a'.nItems + n).toNat ≤ _
        rw [sum]
        exact enough
      · intro x mem
        rw [if_pos rfl] at mem
        rcases List.mem_append.mp mem with mem | mem
        · exact rep'.wide x mem
        · exact wide x mem

/-- Growing an array whose block has been freed uses it. -/
theorem pushBulk_dangling {n : UInt64} {i : List UInt8} (rep : a.Represents itemSize xs)
    (lost : ¬a.Lives n) : a.pushBulk heap i n = fault .outOfBounds := by
  unfold Lives at lost
  rw [Classical.not_imp, not_not] at lost
  obtain ⟨few, dangling⟩ := lost
  have memory := rep.memory
  rw [dangling] at memory
  have tracks : Tracks (intopSizetMult (nextSize a.nAlloc) (intopSizetInit a.itemSize)) _ _ :=
    Tracks.mult ⟨Iff.rfl, fun _ => rfl⟩ (Tracks.init a.itemSize.toBitVec)
  have clear : (intopSizetMult (nextSize a.nAlloc)
      (intopSizetInit a.itemSize)).isOverflow = false := by
    refine tracks.flag.mpr ⟨memory.2, a.itemSize.toNat_lt, ?_⟩
    rw [rep.size, memory.1]
    exact Nat.two_pow_pos 64
  have grows : a.grow heap = fault .outOfBounds := by
    unfold grow
    dsimp only
    rw [clear, dangling]
    rfl
  rw [pushBulk, growFor, if_pos few, grows]
  rfl

end Push

/-! ## Swaps -/

section Swap

variable {a : RawDynarray} {itemSize : UInt64} {xs : List (List UInt8)}

theorem read_block {b : Block} {off n : Nat} (inside : off + n ≤ b.bytes.length) :
    ∃ bs, (BlockPointer.block b).read off n = .ok bs ∧ slice b.bytes off n = some bs ∧
      bs.length = n := by
  have read := slice_eq_some inside
  refine ⟨_, ?_, read, (slice_eq_iff read).1⟩
  rw [BlockPointer.read, read]

/-- The swap of two words. -/
theorem vectorSwap_swaps {b : Block} {w : Nat} {i j : UInt64}
    (insideI : w * i.toNat + w ≤ b.bytes.length) (insideJ : w * j.toNat + w ≤ b.bytes.length) :
    ∃ b' : Block, vectorSwap w i j (.block b) = .ok (.block b') ∧
      Swapped (w * i.toNat) (w * j.toNat) w b.bytes b'.bytes := by
  obtain ⟨t, readI, sliceI, lengthI⟩ := read_block insideI
  obtain ⟨d, readJ, sliceJ, lengthJ⟩ := read_block insideJ
  obtain ⟨b₁, writeI, overI⟩ := write_block b (w * i.toNat) d (by
    rw [lengthJ]
    exact insideI)
  obtain ⟨b₂, writeJ, overJ⟩ := write_block b₁ (w * j.toNat) t (by
    rw [lengthI, length_overwrite overI]
    exact insideJ)
  refine ⟨b₂, ?_, swapped_of_overwrite sliceI sliceJ overI overJ⟩
  rw [vectorSwap, readI, ok_bind, readJ, ok_bind, writeI, ok_bind, writeJ]

/-- The loop exchanges the items byte by byte, where its count of bytes does not wrap. -/
theorem swapBytes_swaps {m : List UInt8} {b : Block} {lo hi r fuel : Nat} {k : UInt32}
    {i j : UInt64}
    (small : itemSize.toNat < 2 ^ 32)
    (apart : lo = hi ∨ lo + itemSize.toNat ≤ hi ∨ hi + itemSize.toNat ≤ lo)
    (insideLo : lo + itemSize.toNat ≤ m.length) (insideHi : hi + itemSize.toNat ≤ m.length)
    (swapped : Swapped lo hi r m b.bytes) (isK : k.toNat = r) (isI : i.toNat = lo + r)
    (isJ : j.toNat = hi + r) (rounds : itemSize.toNat = r + fuel) :
    ∃ b' : Block, swapBytes itemSize (fuel + 1) k i j (.block b) = .ok (.block b') ∧
      Swapped lo hi itemSize.toNat m b'.bytes := by
  have count : k.toUInt64.toNat = r := by rw [UInt32.toNat_toUInt64, isK]
  induction fuel generalizing r b k i j with
  | zero =>
      have ended : ¬k.toUInt64 < itemSize := by
        rw [UInt64.lt_iff_toNat_lt]
        omega
      rw [swapBytes, if_neg ended]
      refine ⟨b, rfl, ?_⟩
      rw [rounds]
      exact swapped
  | succ fuel ih =>
      have more : k.toUInt64 < itemSize := by
        rw [UInt64.lt_iff_toNat_lt]
        omega
      have fits := b.fits
      have length := swapped.length
      obtain ⟨b', ran, exchanged⟩ := vectorSwap_swaps (b := b) (w := 1) (i := i) (j := j) (by omega)
        (by omega)
      rw [Nat.one_mul, Nat.one_mul, isI, isJ] at exchanged
      rw [swapBytes, if_pos more, ran, ok_bind]
      have isK' : (k + 1).toNat = r + 1 := by
        rw [UInt32.toNat_add, isK]
        exact Nat.mod_eq_of_lt (by change r + 1 < 2 ^ 32; omega)
      have step : ∀ (x : UInt64) (from_ : Nat), x.toNat = from_ + r →
          from_ + itemSize.toNat ≤ m.length → (x + 1).toNat = from_ + (r + 1) := by
        intro x from_ isX inside
        rw [UInt64.toNat_add, isX]
        exact Nat.mod_eq_of_lt (by change from_ + r + 1 < 2 ^ 64; omega)
      exact ih (swapped.next exchanged (by omega)) isK' (step i lo isI insideLo)
        (step j hi isJ insideHi) (by omega) (by rw [UInt32.toNat_toUInt64, isK'])

/-- A count of 32 bits does not come to the end of an item of 2^32 bytes or more. -/
theorem swapBytes_diverges {fuel : Nat} {k : UInt32} {i j : UInt64} {D D' : BlockPointer}
    (large : 2 ^ 32 ≤ itemSize.toNat) : swapBytes itemSize fuel k i j D ≠ .ok D' := by
  induction fuel generalizing k i j D with
  | zero =>
      intro bad
      cases bad
  | succ fuel ih =>
      have more : k.toUInt64 < itemSize := by
        have less := k.toNat_lt
        rw [UInt64.lt_iff_toNat_lt, UInt32.toNat_toUInt64]
        omega
      rw [swapBytes, if_pos more]
      intro returned
      obtain ⟨E, -, rest⟩ := bind_eq_ok.mp returned
      exact ih rest

/-- The items at `i` and `j` of a block are exchanged. -/
theorem swapData_swaps {b : Block} {i j : UInt64} (small : itemSize.toNat < 2 ^ 32)
    (insideI : itemSize.toNat * i.toNat + itemSize.toNat ≤ b.bytes.length)
    (insideJ : itemSize.toNat * j.toNat + itemSize.toNat ≤ b.bytes.length) :
    ∃ b' : Block, swapData itemSize i j (.block b) = .ok (.block b') ∧
      Swapped (itemSize.toNat * i.toNat) (itemSize.toNat * j.toNat) itemSize.toNat b.bytes
        b'.bytes := by
  have word : ∀ w : UInt64, itemSize = w → ∃ b' : Block,
      vectorSwap w.toNat i j (.block b) = .ok (.block b') ∧
        Swapped (itemSize.toNat * i.toNat) (itemSize.toNat * j.toNat) itemSize.toNat b.bytes
          b'.bytes := by
    intro w same
    subst same
    exact vectorSwap_swaps insideI insideJ
  unfold swapData
  split
  case isTrue one => exact word 1 one
  split
  case isTrue two => exact word 2 two
  split
  case isTrue four => exact word 4 four
  split
  case isTrue eight => exact word 8 eight
  have fits := b.fits
  have place : ∀ k : UInt64, itemSize.toNat * k.toNat + itemSize.toNat ≤ b.bytes.length →
      (k * itemSize).toNat = itemSize.toNat * k.toNat + 0 := by
    intro k inside
    rw [UInt64.toNat_mul, Nat.mul_comm, Nat.mod_eq_of_lt (by omega), Nat.add_zero]
  refine swapBytes_swaps small ?_ insideI insideJ (Swapped.refl _ _ _) rfl (place i insideI)
    (place j insideJ) (Nat.zero_add _).symm
  rcases Nat.lt_trichotomy i.toNat j.toNat with before | same | behind
  · have next := Nat.mul_le_mul_left itemSize.toNat (Nat.succ_le_of_lt before)
    rw [Nat.mul_succ] at next
    exact Or.inr (Or.inl next)
  · exact Or.inl (congrArg (itemSize.toNat * ·) same)
  · have next := Nat.mul_le_mul_left itemSize.toNat (Nat.succ_le_of_lt behind)
    rw [Nat.mul_succ] at next
    exact Or.inr (Or.inr next)

/-- Items of no bytes need not be moved. -/
theorem swapData_zero (i j : UInt64) (D : BlockPointer) : swapData 0 i j D = .ok D := rfl

theorem exchange_wide {i j : Nat} (wide : ∀ x ∈ xs, x.length = itemSize.toNat) :
    ∀ x ∈ exchange i j xs, x.length = itemSize.toNat := fun x mem =>
  wide x ((exchange_perm i j xs).mem_iff.mp mem)

theorem swap_represents {i j : UInt64} (rep : a.Represents itemSize xs)
    (small : itemSize.toNat < 2 ^ 32) (insideI : i.toNat < xs.length)
    (insideJ : j.toNat < xs.length) :
    ∃ a', a.swap i j = .ok a' ∧ a'.Represents itemSize (exchange i.toNat j.toNat xs) := by
  have wide := exchange_wide (i := i.toNat) (j := j.toNat) rep.wide
  have room := rep.room
  rw [rep.count] at room
  have moved : ∃ D, swapData itemSize i j a.data = .ok D ∧
      D.Backs itemSize a.nAlloc (exchange i.toNat j.toNat xs) := by
    have memory := rep.memory
    have unmoved : itemSize = 0 → ∀ D, swapData itemSize i j D = .ok D := by
      rintro rfl D
      exact swapData_zero i j D
    cases pointer : a.data with
    | null =>
        rw [pointer] at memory
        have zero : itemSize.toNat = 0 :=
          (Nat.mul_eq_zero.mp memory).resolve_right (by omega)
        exact ⟨.null, unmoved (UInt64.toNat_inj.mp zero) _, memory⟩
    | dangling =>
        rw [pointer] at memory
        exact ⟨.dangling, unmoved memory.1 _, memory⟩
    | block b =>
        rw [pointer] at memory
        obtain ⟨size, row⟩ := memory
        have inside : ∀ k : UInt64, k.toNat < xs.length →
            itemSize.toNat * k.toNat + itemSize.toNat ≤ b.bytes.length := by
          intro k less
          rw [size, ← Nat.mul_succ]
          exact Nat.mul_le_mul_left _ (by omega)
        obtain ⟨b', ran, swapped⟩ := swapData_swaps small (inside i insideI) (inside j insideJ)
        exact ⟨.block b', ran, swapped.length.trans size, row.exchange insideI insideJ swapped⟩
  obtain ⟨D, ran, backs⟩ := moved
  refine ⟨{ a with data := D }, ?_, rep.size, ?_, rep.room, wide, backs⟩
  · rw [swap, rep.size, ran, map_ok]
  · rw [length_exchange]
    exact rep.count

theorem swap_diverges {i j : UInt64} {a' : RawDynarray} (large : 2 ^ 32 ≤ a.itemSize.toNat) :
    a.swap i j ≠ .ok a' := by
  have other : ∀ w : UInt64, w.toNat < 2 ^ 32 → a.itemSize ≠ w := by
    intro w small same
    rw [same] at large
    omega
  rw [swap, swapData, if_neg (other 1 (by decide)), if_neg (other 2 (by decide)),
    if_neg (other 4 (by decide)), if_neg (other 8 (by decide))]
  intro returned
  obtain ⟨D, ran, -⟩ := map_eq_ok.mp returned
  exact swapBytes_diverges large ran

end Swap

/-! ## The other operations -/

section Others

variable {a : RawDynarray} {itemSize : UInt64} {xs : List (List UInt8)}

theorem pop_represents (rep : a.Represents itemSize xs) (some_ : xs ≠ []) :
    a.pop.Represents itemSize xs.dropLast := by
  have count := rep.count
  have room := rep.room
  have positive := List.length_pos_iff.mpr some_
  have less : (a.nItems - 1).toNat = a.nItems.toNat - 1 := by
    refine UInt64.toNat_sub_of_le _ _ ?_
    rw [UInt64.le_iff_toNat_le]
    change 1 ≤ a.nItems.toNat
    omega
  refine ⟨rep.size, ?_, ?_, fun x mem => rep.wide x (List.dropLast_subset xs mem), ?_⟩
  · change (a.nItems - 1).toNat = _
    rw [less, List.length_dropLast, count]
  · change (a.nItems - 1).toNat ≤ a.nAlloc.toNat
    omega
  · have memory := rep.memory
    change a.data.Backs itemSize a.nAlloc _
    cases pointer : a.data with
    | null =>
        rw [pointer] at memory
        exact memory
    | dangling =>
        rw [pointer] at memory
        exact memory
    | block b =>
        rw [pointer] at memory
        exact ⟨memory.1, memory.2.dropLast⟩

theorem free_eq_ok {p : BlockPointer} : p.free = .ok () ↔ p ≠ .dangling := by
  cases p with
  | null => exact iff_of_true rfl (fun bad => by cases bad)
  | block b => exact iff_of_true rfl (fun bad => by cases bad)
  | dangling => exact iff_of_false (fun bad => by cases bad) (fun live => live rfl)

theorem clear_eq_ok {a' : RawDynarray} :
    a.clear = .ok a' ↔ a.data ≠ .dangling ∧ a' = init a.itemSize a.requests := by
  rw [← free_eq_ok, clear, destroy]
  cases freed : a.data.free with
  | error e =>
      refine iff_of_false (fun bad => by cases bad) (fun both => ?_)
      cases both.1
  | ok done =>
      constructor
      · intro returned
        cases returned
        exact ⟨rfl, rfl⟩
      · rintro ⟨-, rfl⟩
        rfl

theorem giveData_eq_ok {data : BlockPointer} {nItems : UInt64} {a' : RawDynarray} :
    a.giveData data nItems = .ok a' ↔
      a.data ≠ .dangling ∧ a' = { a with data, nItems, nAlloc := nItems } := by
  rw [← free_eq_ok, giveData]
  cases freed : a.data.free with
  | error e =>
      refine iff_of_false (fun bad => by cases bad) (fun both => ?_)
      cases both.1
  | ok done =>
      constructor
      · intro returned
        cases returned
        exact ⟨rfl, rfl⟩
      · rintro ⟨-, rfl⟩
        rfl

end Others

end RawDynarray

end Pointless
