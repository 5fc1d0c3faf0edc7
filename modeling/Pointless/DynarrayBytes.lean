import Pointless.PyPrimVectorGrowth
import Pointless.SizeChecks
import Pointless.Lib.RowMemory

/-!
# The dynamic array and its memory

`pointless_dynarray.c` over the bytes of the block that an array has. Which requests of
memory are served, what a new block has in it and what becomes of a block that is
reallocated to no bytes is up to the allocator.
-/

namespace Pointless

open ByteMemory ExceptRules InPlace Overflow RowMemory

/-! ## Memory -/

/-- A block of memory, whose size is a `size_t`. -/
structure Block where
  bytes : List UInt8
  fits : bytes.length < 2 ^ 64
  deriving DecidableEq

/-- A `void*`: null, or to a block, or to one that is no longer there. -/
inductive BlockPointer where
  | null
  | block (b : Block)
  | dangling
  deriving DecidableEq

/-- What is left open of `malloc`: the requests that are served, the bytes that are new in a
block, and whether `realloc(p, 0)` frees `p` and returns null or is a request like others. -/
structure CAllocator where
  serves : Allocator
  fresh : Nat → Nat → UInt8
  freesAtZero : Bool

/-- The bytes that a request is served with: those of the old block, and new ones. -/
def CAllocator.resizedBytes (heap : CAllocator) (request : Nat) (old : List UInt8) (size : Nat) :
    List UInt8 :=
  old.take size ++ (List.range (size - old.length)).map (heap.fresh request)

theorem CAllocator.length_resizedBytes (heap : CAllocator) (request : Nat) (old : List UInt8)
    (size : Nat) : (heap.resizedBytes request old size).length = size := by
  rw [resizedBytes, List.length_append, List.length_take, List.length_map, List.length_range]
  omega

/-- The block that a request is served with. -/
def CAllocator.resized (heap : CAllocator) (request : Nat) (old : List UInt8) (size : UInt64) :
    Block where
  bytes := heap.resizedBytes request old size.toNat
  fits := by
    rw [length_resizedBytes]
    exact size.toNat_lt

/-- `pointless_realloc`: the block that it returns, and what `p` points to then. -/
def CAllocator.realloc (heap : CAllocator) (request : Nat) (p : BlockPointer) (size : UInt64) :
    Res (Option Block × BlockPointer) :=
  match p with
  | .dangling => fault .outOfBounds
  | .null =>
      if heap.serves request size.toNat then .ok (some (heap.resized request [] size), .null)
      else .ok (none, .null)
  | .block b =>
      if size = 0 ∧ heap.freesAtZero then .ok (none, .dangling)
      else if heap.serves request size.toNat then
        .ok (some (heap.resized request b.bytes size), .dangling)
      else .ok (none, .block b)

namespace BlockPointer

/-- `pointless_free`. -/
def free : BlockPointer → Res Unit
  | .dangling => fault .outOfBounds
  | _ => .ok ()

/-- The `n` bytes from `off` on. -/
def read (off n : Nat) : BlockPointer → Res (List UInt8)
  | .null => fault .nullPointer
  | .dangling => fault .outOfBounds
  | .block b =>
      match slice b.bytes off n with
      | some bs => .ok bs
      | none => fault .outOfBounds

/-- Put `bs` at `off`. -/
def write (off : Nat) (bs : List UInt8) : BlockPointer → Res BlockPointer
  | .null => fault .nullPointer
  | .dangling => fault .outOfBounds
  | .block b =>
      if inside : off + bs.length ≤ b.bytes.length then
        .ok (.block ⟨b.bytes.take off ++ bs ++ b.bytes.drop (off + bs.length), by
          rw [length_overwrite (overwrite_eq_some inside)]
          exact b.fits⟩)
      else fault .outOfBounds

/-- `memcpy` of `n` bytes of `src` to `off`. A copy of no bytes touches no memory. -/
def memcpy (off : Nat) (src : List UInt8) (n : Nat) (p : BlockPointer) : Res BlockPointer :=
  if n = 0 then .ok p
  else if src.length < n then fault .outOfBounds
  else p.write off (src.take n)

end BlockPointer

/-! ## The array -/

/-- `pointless_dynarray_t`, and how often it has asked for memory. -/
structure RawDynarray where
  data : BlockPointer
  nItems : UInt64
  nAlloc : UInt64
  itemSize : UInt64
  requests : Nat
  deriving DecidableEq

namespace RawDynarray

/-- `pointless_dynarray_init`, of an array that has asked for memory so often. -/
def init (itemSize : UInt64) (requests : Nat) : RawDynarray :=
  { data := .null, nItems := 0, nAlloc := 0, itemSize, requests }

/-- `pointless_dynarray_pop`. -/
def pop (a : RawDynarray) : RawDynarray := { a with nItems := a.nItems - 1 }

/-- `small_add`. -/
def smallAdd : List UInt64 := [1, 1, 2, 2, 4, 4, 4, 8, 8, 10, 11, 12, 13, 14, 15, 16]

/-- `next_size`. -/
def nextSize (nAlloc : UInt64) : IntopSizet :=
  let a := nAlloc / 16
  let b := nAlloc
  let c := if nAlloc < 16 then smallAdd.getD nAlloc.toNat 0 else 0
  intopSizetAdd (intopSizetAdd (intopSizetInit a) (intopSizetInit b)) (intopSizetInit c)

section Growth

variable (heap : CAllocator)

/-- `pointless_dynarray_grow`. -/
def grow (a : RawDynarray) : Res (Bool × RawDynarray) :=
  let nextNAlloc := nextSize a.nAlloc
  let nextNBytes := intopSizetMult nextNAlloc (intopSizetInit a.itemSize)
  if nextNBytes.isOverflow then .ok (false, a)
  else do
    let (nextData, old) ← heap.realloc a.requests a.data (.ofBitVec nextNBytes.value)
    match nextData with
    | none => pure (false, { a with data := old, requests := a.requests + 1 })
    | some b =>
        pure (true, { a with
          data := .block b
          nAlloc := .ofBitVec nextNAlloc.value
          requests := a.requests + 1 })

/-- The loop of `pointless_dynarray_push_bulk`: whether there is room for `n` more items. -/
def growFor (n : UInt64) : Nat → RawDynarray → Res (Bool × RawDynarray)
  | 0, _ => fault .diverges
  | fuel + 1, a =>
      if a.nAlloc < a.nItems + n then do
        let (grown, a) ← a.grow heap
        if grown then growFor n fuel a else pure (false, a)
      else pure (true, a)

/-- `pointless_dynarray_push_bulk`. Each round of the loop makes more room, so that there is
fuel for all of them. -/
def pushBulk (a : RawDynarray) (i : List UInt8) (n : UInt64) : Res (Bool × RawDynarray) := do
  let (roomy, a) ← growFor heap n ((a.nItems + n).toNat + 1) a
  if roomy then
    let data ← a.data.memcpy (a.itemSize * a.nItems).toNat i (a.itemSize * n).toNat
    pure (true, { a with data, nItems := a.nItems + n })
  else pure (false, a)

/-- `pointless_dynarray_push`. -/
def push (a : RawDynarray) (i : List UInt8) : Res (Bool × RawDynarray) := a.pushBulk heap i 1

end Growth

/-- `pointless_dynarray_destroy`. -/
def destroy (a : RawDynarray) : Res RawDynarray := do
  a.data.free
  pure { a with data := .null, nItems := 0, nAlloc := 0 }

/-- `pointless_dynarray_clear`. -/
def clear (a : RawDynarray) : Res RawDynarray := do
  let a ← a.destroy
  pure (init a.itemSize a.requests)

/-- `pointless_dynarray_item_at`, with the item that it points to. -/
def itemAt (a : RawDynarray) (i : UInt64) : Res (List UInt8) :=
  a.data.read (a.itemSize * i).toNat a.itemSize.toNat

/-- `pointless_dynarray_vector_swap`, for a type of `w` bytes. -/
def vectorSwap (w : Nat) (i j : UInt64) (D : BlockPointer) : Res BlockPointer := do
  let t ← D.read (w * i.toNat) w
  let d ← D.read (w * j.toNat) w
  let D ← D.write (w * i.toNat) d
  D.write (w * j.toNat) t

/-- The loop of `pointless_dynarray_swap`, which exchanges bytes and counts them in `k`. -/
def swapBytes (itemSize : UInt64) : Nat → UInt32 → UInt64 → UInt64 → BlockPointer → Res BlockPointer
  | 0, _, _, _, _ => fault .diverges
  | fuel + 1, k, i, j, D =>
      if k.toUInt64 < itemSize then do
        let D ← vectorSwap 1 i j D
        swapBytes itemSize fuel (k + 1) (i + 1) (j + 1) D
      else .ok D

/-- What `pointless_dynarray_swap` does to the block. A loop that ends takes a round for each
byte of an item. -/
def swapData (itemSize i j : UInt64) (D : BlockPointer) : Res BlockPointer :=
  if itemSize = 1 then vectorSwap 1 i j D
  else if itemSize = 2 then vectorSwap 2 i j D
  else if itemSize = 4 then vectorSwap 4 i j D
  else if itemSize = 8 then vectorSwap 8 i j D
  else swapBytes itemSize (itemSize.toNat + 1) 0 (i * itemSize) (j * itemSize) D

/-- `pointless_dynarray_swap`. -/
def swap (a : RawDynarray) (i j : UInt64) : Res RawDynarray :=
  (fun data => { a with data }) <$> swapData a.itemSize i j a.data

/-- `pointless_dynarray_give_data`. -/
def giveData (a : RawDynarray) (data : BlockPointer) (nItems : UInt64) : Res RawDynarray := do
  a.data.free
  pure { a with data, nItems, nAlloc := nItems }

end RawDynarray

/-! ## Operations -/

/-- The operations on an array. An item is the row of its bytes. -/
inductive DynarrayOp where
  | push (item : List UInt8)
  | pushBulk (items : List (List UInt8))
  | pop
  | swap (i j : UInt64)
  | clear
  | giveData (data : BlockPointer) (items : List (List UInt8))

namespace DynarrayOp

/-- The call, and whether it is done: only a push may not be. -/
def run (heap : CAllocator) (a : RawDynarray) : DynarrayOp → Res (Bool × RawDynarray)
  | .push item => a.push heap item
  | .pushBulk items => a.pushBulk heap items.flatten (UInt64.ofNat items.length)
  | .pop => .ok (true, a.pop)
  | .swap i j => (fun a => (true, a)) <$> a.swap i j
  | .clear => (fun a => (true, a)) <$> a.clear
  | .giveData data items => (fun a => (true, a)) <$> a.giveData data (UInt64.ofNat items.length)

/-- What it does to the list of items. -/
def onList (done : Bool) (xs : List (List UInt8)) : DynarrayOp → List (List UInt8)
  | .push item => if done then xs ++ [item] else xs
  | .pushBulk items => if done then xs ++ items else xs
  | .pop => xs.dropLast
  | .swap i j => exchange i.toNat j.toNat xs
  | .clear => []
  | .giveData _ items => items

end DynarrayOp

end Pointless
