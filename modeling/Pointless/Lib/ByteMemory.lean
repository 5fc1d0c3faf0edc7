import Mathlib.Data.Nat.Basic
import Mathlib.Tactic.Ring

/-!
Flat byte memories and the little-endian words stored in them.

`encode w n` writes the low `8 * w` bits of `n`, least significant byte first,
and `decode` reads them back. A memory is a plain list of bytes; `load w m off`
reads one word and refuses any access that is not wholly inside the list, so an
out-of-range access is visible in the result and never silently truncated.

`Holds m off bs` says that the bytes `bs` stand in `m` from `off` on. It splits
along appends (`Holds.left`, `Holds.right`), which is how a record layout is
read field by field.
-/

namespace ByteMemory

/-! ## Little-endian words -/

/-- The `w` little-endian bytes of `n`; bits above `8 * w` are dropped. -/
def encode : Nat → Nat → List UInt8
  | 0, _ => []
  | w + 1, n => UInt8.ofNat n :: encode w (n / 256)

/-- The natural number with the given little-endian bytes. -/
def decode : List UInt8 → Nat
  | [] => 0
  | b :: bs => b.toNat + 256 * decode bs

@[simp] theorem decode_nil : decode [] = 0 := rfl

@[simp] theorem decode_cons (b : UInt8) (bs : List UInt8) :
    decode (b :: bs) = b.toNat + 256 * decode bs := rfl

@[simp] theorem length_encode (w n : Nat) : (encode w n).length = w := by
  induction w generalizing n with
  | zero => rfl
  | succ w ih => simp only [encode, List.length_cons, ih]

theorem decode_encode (w n : Nat) : decode (encode w n) = n % 256 ^ w := by
  induction w generalizing n with
  | zero => simp only [encode, decode_nil, Nat.pow_zero, Nat.mod_one]
  | succ w ih =>
      have split : n % (256 * 256 ^ w) = n % 256 + 256 * (n / 256 % 256 ^ w) := Nat.mod_mul
      rw [encode, decode_cons, ih, UInt8.toNat_ofNat', pow_succ' (256 : Nat) w, split]

theorem decode_encode_of_lt {w n : Nat} (bound : n < 256 ^ w) :
    decode (encode w n) = n := by
  rw [decode_encode, Nat.mod_eq_of_lt bound]

theorem decode_lt (bs : List UInt8) : decode bs < 256 ^ bs.length := by
  induction bs with
  | nil => simp only [decode_nil, List.length_nil, pow_zero, Nat.lt_one_iff]
  | cons b bs ih =>
      have head : b.toNat < 256 := b.toNat_lt
      rw [decode_cons, List.length_cons, pow_succ]
      omega

theorem encode_decode (bs : List UInt8) : encode bs.length (decode bs) = bs := by
  induction bs with
  | nil => rfl
  | cons b bs ih =>
      have head : b.toNat < 256 := b.toNat_lt
      have tail : (b.toNat + 256 * decode bs) / 256 = decode bs := by omega
      have first : UInt8.ofNat (b.toNat + 256 * decode bs) = b := by
        apply UInt8.toNat_inj.mp
        rw [UInt8.toNat_ofNat']
        omega
      rw [decode_cons, List.length_cons, encode, tail, ih, first]

/-! ## Checked loads -/

/-- The `n` bytes of `m` from `off` on, when all of them are inside `m`. -/
def slice (m : List UInt8) (off n : Nat) : Option (List UInt8) :=
  if off + n ≤ m.length then some ((m.drop off).take n) else none

/-- The `w`-byte word of `m` at `off`, when all its bytes are inside `m`. -/
def load (w : Nat) (m : List UInt8) (off : Nat) : Option Nat :=
  (slice m off w).map decode

theorem slice_eq_some {m : List UInt8} {off n : Nat} (inside : off + n ≤ m.length) :
    slice m off n = some ((m.drop off).take n) := if_pos inside

theorem slice_eq_none {m : List UInt8} {off n : Nat} (outside : m.length < off + n) :
    slice m off n = none := if_neg (Nat.not_le.mpr outside)

theorem load_isSome_iff {w off : Nat} {m : List UInt8} :
    (load w m off).isSome ↔ off + w ≤ m.length := by
  simp only [load, slice, Option.isSome_map]
  split <;> simp_all

theorem load_eq_some_of_inside {w off : Nat} {m : List UInt8} (inside : off + w ≤ m.length) :
    ∃ n, load w m off = some n ∧ n < 256 ^ w := by
  refine ⟨decode ((m.drop off).take w), by rw [load, slice_eq_some inside]; rfl, ?_⟩
  have size : ((m.drop off).take w).length = w := by
    rw [List.length_take, List.length_drop]
    omega
  simpa only [size] using decode_lt ((m.drop off).take w)

theorem load_lt {w off n : Nat} {m : List UInt8} (loaded : load w m off = some n) :
    n < 256 ^ w := by
  have inside : off + w ≤ m.length := load_isSome_iff.mp (by rw [loaded]; rfl)
  obtain ⟨k, eq, bound⟩ := load_eq_some_of_inside inside
  rw [loaded] at eq
  exact (Option.some.inj eq) ▸ bound

/-- Only the bytes from `off` on matter to a load at or after `off`. -/
theorem load_drop {m : List UInt8} {base : Nat} (within : base ≤ m.length) (w off : Nat) :
    load w (m.drop base) off = load w m (base + off) := by
  simp only [load, slice, List.length_drop, List.drop_drop]
  have same : off + w ≤ m.length - base ↔ base + off + w ≤ m.length := by omega
  simp only [same]

theorem load_one (m : List UInt8) (i : Nat) : load 1 m i = m[i]?.map UInt8.toNat := by
  rw [load, slice]
  split
  case isTrue inside =>
    have less : i < m.length := by omega
    rw [List.getElem?_eq_getElem less, List.drop_eq_getElem_cons less, Option.map_some]
    rfl
  case isFalse outside =>
    rw [List.getElem?_eq_none (by omega)]
    rfl

/-- A word at the start of a memory. -/
theorem load_zero (bs rest : List UInt8) : load bs.length (bs ++ rest) 0 = some (decode bs) := by
  rw [load, slice_eq_some (by rw [List.length_append]; omega), List.drop_zero, List.take_left]
  rfl

/-! ## Bytes at a position -/

/-- The bytes `bs` stand in `m` from `off` on. -/
def Holds (m : List UInt8) (off : Nat) (bs : List UInt8) : Prop :=
  off ≤ m.length ∧ bs <+: m.drop off

theorem Holds.inside {m bs : List UInt8} {off : Nat} (h : Holds m off bs) :
    off + bs.length ≤ m.length := by
  have le := h.2.length_le
  rw [List.length_drop] at le
  have := h.1
  omega

theorem Holds.left {m a b : List UInt8} {off : Nat} (h : Holds m off (a ++ b)) :
    Holds m off a := ⟨h.1, (List.prefix_append a b).trans h.2⟩

theorem Holds.right {m a b : List UInt8} {off : Nat} (h : Holds m off (a ++ b)) :
    Holds m (off + a.length) b := by
  have inside := h.inside
  obtain ⟨-, rest, eq⟩ := h
  rw [List.length_append] at inside
  refine ⟨by omega, rest, ?_⟩
  rw [← List.drop_drop, ← eq, List.append_assoc, List.drop_left]

theorem Holds.slice {m bs : List UInt8} {off : Nat} (h : Holds m off bs) :
    slice m off bs.length = some bs := by
  rw [slice_eq_some h.inside, (List.prefix_iff_eq_take.mp h.2).symm]

theorem Holds.load {m bs : List UInt8} {off : Nat} (h : Holds m off bs) :
    load bs.length m off = some (decode bs) := by
  rw [ByteMemory.load, h.slice]
  rfl

/-- What is loaded from bytes is loaded where they stand. -/
theorem Holds.load_within {m bs : List UInt8} {off w i n : Nat} (h : Holds m off bs)
    (loaded : ByteMemory.load w bs i = some n) : ByteMemory.load w m (off + i) = some n := by
  have inside : i + w ≤ bs.length := load_isSome_iff.mp (by rw [loaded]; rfl)
  rcases h.2 with ⟨rest, same⟩
  have whole : i + w ≤ (bs ++ rest).length := by
    rw [List.length_append]
    omega
  have left : i ≤ bs.length := by omega
  have short : w ≤ (bs.drop i).length := by
    rw [List.length_drop]
    omega
  rw [← load_drop h.1, ← same, ← loaded, ByteMemory.load, ByteMemory.load, slice_eq_some whole,
    slice_eq_some inside, List.drop_append_of_le_length left, List.take_append_of_le_length short]

/-- A word that was written at a position is read back there. -/
theorem Holds.load_encode {m : List UInt8} {off w n : Nat} (h : Holds m off (encode w n)) :
    ByteMemory.load w m off = some (n % 256 ^ w) := by
  have loaded := h.load
  rwa [length_encode, decode_encode] at loaded

theorem holds_append (a b c : List UInt8) : Holds (a ++ b ++ c) a.length b := by
  refine ⟨by simp only [List.length_append]; omega, c, ?_⟩
  rw [List.append_assoc, List.drop_left]

/-- The `i`-th of a row of equally wide items stands at `w * i`. -/
theorem Holds.item {m : List UInt8} {off w : Nat} {items : List (List UInt8)}
    (wide : ∀ item ∈ items, item.length = w) (h : Holds m off items.flatten)
    {i : Nat} {item : List UInt8} (at_i : items[i]? = some item) :
    Holds m (off + w * i) item := by
  induction items generalizing off i with
  | nil => cases at_i
  | cons x xs ih =>
      rw [List.flatten_cons] at h
      cases i with
      | zero =>
          cases at_i
          exact h.left
      | succ i =>
          have tail := ih (fun y mem => wide y (List.mem_cons_of_mem x mem)) h.right at_i
          rw [wide x List.mem_cons_self] at tail
          rwa [Nat.mul_succ, Nat.add_comm (w * i) w, ← Nat.add_assoc]

/-- The memory from the position on starts with the bytes. -/
theorem Holds.drop_eq {m bs : List UInt8} {off : Nat} (h : Holds m off bs) :
    ∃ rest, m.drop off = bs ++ rest := by
  obtain ⟨rest, same⟩ := h.2
  exact ⟨rest, same.symm⟩

/-- The `i`-th of a row of words that were written at a position. -/
theorem Holds.load_word {m : List UInt8} {off w : Nat} {words : List Nat}
    (h : Holds m off (words.map (encode w)).flatten) {i n : Nat} (at_i : words[i]? = some n) :
    ByteMemory.load w m (off + w * i) = some (n % 256 ^ w) := by
  refine (h.item (w := w) (fun item mem => ?_) ?_).load_encode
  · obtain ⟨k, -, rfl⟩ := List.mem_map.mp mem
    exact length_encode w k
  · rw [List.getElem?_map, at_i]
    rfl

theorem length_flatten_of_wide {w : Nat} {items : List (List UInt8)}
    (wide : ∀ item ∈ items, item.length = w) : items.flatten.length = w * items.length := by
  induction items with
  | nil => rfl
  | cons x xs ih =>
      rw [List.flatten_cons, List.length_append, List.length_cons, wide x List.mem_cons_self,
        ih (fun y mem => wide y (List.mem_cons_of_mem x mem)), Nat.mul_succ, Nat.add_comm]

/-! ## Rows of words -/

/-- A row of words is known from its bytes. -/
theorem flatten_encode_inj {k : Nat} (wide : 0 < k) {xs ys : List Nat}
    (boundX : ∀ x ∈ xs, x < 256 ^ k) (boundY : ∀ y ∈ ys, y < 256 ^ k)
    (same : (xs.map (encode k)).flatten = (ys.map (encode k)).flatten) : xs = ys := by
  induction xs generalizing ys with
  | nil =>
      cases ys with
      | nil => rfl
      | cons y ys =>
          have lengths := congrArg List.length same
          simp only [List.map_nil, List.flatten_nil, List.length_nil, List.map_cons,
            List.flatten_cons, List.length_append, length_encode] at lengths
          omega
  | cons x xs ih =>
      cases ys with
      | nil =>
          have lengths := congrArg List.length same
          simp only [List.map_nil, List.flatten_nil, List.length_nil, List.map_cons,
            List.flatten_cons, List.length_append, length_encode] at lengths
          omega
      | cons y ys =>
          rw [List.map_cons, List.map_cons, List.flatten_cons, List.flatten_cons] at same
          obtain ⟨head, tail⟩ := List.append_inj same (by rw [length_encode, length_encode])
          have first := congrArg decode head
          rw [decode_encode_of_lt (boundX x List.mem_cons_self),
            decode_encode_of_lt (boundY y List.mem_cons_self)] at first
          rw [first, ih (fun x mem => boundX x (List.mem_cons_of_mem _ mem))
            (fun y mem => boundY y (List.mem_cons_of_mem _ mem)) tail]

/-- The `m` words of `w` bytes from `off` on, of which those outside the memory are cut. -/
def wordsAt (w off m : Nat) (b : List UInt8) : List Nat :=
  (List.range m).map fun i => decode ((b.drop (off + w * i)).take w)

@[simp] theorem length_wordsAt (w off m : Nat) (b : List UInt8) :
    (wordsAt w off m b).length = m := by
  rw [wordsAt, List.length_map, List.length_range]

theorem wordsAt_narrow (w off m : Nat) (b : List UInt8) :
    ∀ n ∈ wordsAt w off m b, n < 256 ^ w := by
  intro n mem
  obtain ⟨i, -, rfl⟩ := List.mem_map.mp mem
  have less := decode_lt ((b.drop (off + w * i)).take w)
  have short : (256 : Nat) ^ ((b.drop (off + w * i)).take w).length ≤ 256 ^ w :=
    Nat.pow_le_pow_right (by decide) (List.length_take_le w _)
  omega

/-- The words are the bytes from the offset on. -/
theorem flatten_wordsAt {w off m : Nat} {b : List UInt8} (inside : off + w * m ≤ b.length) :
    ((wordsAt w off m b).map (encode w)).flatten = (b.drop off).take (w * m) := by
  induction m with
  | zero => rw [wordsAt, Nat.mul_zero, List.take_zero]; rfl
  | succ m ih =>
      rw [Nat.mul_succ] at inside
      have wide : ((b.drop (off + w * m)).take w).length = w := by
        rw [List.length_take, List.length_drop]
        omega
      have last : encode w (decode ((b.drop (off + w * m)).take w)) =
          (b.drop (off + w * m)).take w := by
        have whole := encode_decode ((b.drop (off + w * m)).take w)
        rwa [wide] at whole
      have front := ih (by omega)
      unfold wordsAt at front ⊢
      rw [List.range_succ, List.map_append, List.map_append, List.flatten_append, front,
        Nat.mul_succ, List.take_add, List.drop_drop]
      simp only [List.map_cons, List.map_nil, List.flatten_cons, List.flatten_nil,
        List.append_nil, last]

/-- Words that were written behind a header are read back. -/
theorem wordsAt_encoded {w : Nat} (wide : 0 < w) {header rest : List UInt8} {xs : List Nat}
    (narrow : ∀ x ∈ xs, x < 256 ^ w) :
    wordsAt w header.length xs.length (header ++ (xs.map (encode w)).flatten ++ rest) = xs := by
  have length : ((xs.map (encode w)).flatten).length = w * xs.length := by
    rw [length_flatten_of_wide (w := w), List.length_map]
    intro item mem
    obtain ⟨x, -, rfl⟩ := List.mem_map.mp mem
    exact length_encode w x
  apply flatten_encode_inj wide (wordsAt_narrow _ _ _ _) narrow
  rw [flatten_wordsAt]
  · rw [List.append_assoc, List.drop_left, ← length, List.take_left]
  · rw [List.length_append, List.length_append, length]
    omega

/-- Words of one byte. -/
theorem flatten_encode_one (xs : List Nat) :
    (xs.map (encode 1)).flatten = xs.map UInt8.ofNat := by
  induction xs with
  | nil => rfl
  | cons x xs ih => rw [List.map_cons, List.map_cons, List.flatten_cons, ih]; rfl

end ByteMemory
