import Pointless.Lib.ByteMemory
import Pointless.Lib.InPlace

/-!
# Rows of items in a block of memory

Writes to a block of memory, and the items of one width that stand in a row at its start.

* `overwrite` replaces bytes of a block, and is refused where they are not all inside.
* `Swapped lo hi n m m'`: the `n` bytes from `lo` on and those from `hi` on have changed
  places. `Swapped.next` goes on behind them; `swapped_of_overwrite` does all at once.
* `Row w xs m`: the items `xs`, of `w` bytes each, stand at the start of `m`. A row is kept
  when the block is resized, and changes as its list does: `Row.append`, `Row.dropLast`,
  `Row.exchange`.
-/

namespace RowMemory

open ByteMemory InPlace

/-! ## Writes -/

/-- The block with the bytes `bs` written from `off` on, when all of them are inside. -/
def overwrite (m : List UInt8) (off : Nat) (bs : List UInt8) : Option (List UInt8) :=
  if off + bs.length ≤ m.length then some (m.take off ++ bs ++ m.drop (off + bs.length)) else none

section Overwrite

variable {m m' bs : List UInt8} {off : Nat}

theorem overwrite_eq_some (inside : off + bs.length ≤ m.length) :
    overwrite m off bs = some (m.take off ++ bs ++ m.drop (off + bs.length)) := if_pos inside

theorem overwrite_inside (written : overwrite m off bs = some m') :
    off + bs.length ≤ m.length ∧ m' = m.take off ++ bs ++ m.drop (off + bs.length) := by
  unfold overwrite at written
  split at written
  case isTrue inside => exact ⟨inside, (Option.some.inj written).symm⟩
  case isFalse => cases written

theorem length_overwrite (written : overwrite m off bs = some m') : m'.length = m.length := by
  obtain ⟨inside, rfl⟩ := overwrite_inside written
  simp only [List.length_append, List.length_take, List.length_drop]
  omega

theorem getElem?_overwrite (written : overwrite m off bs = some m') (p : Nat) :
    m'[p]? = if off ≤ p ∧ p < off + bs.length then bs[p - off]? else m[p]? := by
  obtain ⟨inside, rfl⟩ := overwrite_inside written
  have front : (m.take off).length = off := by
    rw [List.length_take]
    omega
  rw [List.append_assoc, List.getElem?_append, front]
  split
  case isTrue before =>
    rw [if_neg (by omega), List.getElem?_take_of_lt before]
  case isFalse after =>
    rw [List.getElem?_append]
    split
    case isTrue here => rw [if_pos (by omega)]
    case isFalse behind =>
      rw [if_neg (by omega), List.getElem?_drop]
      congr 1
      omega

end Overwrite

/-! ## Two stretches that change places -/

/-- `m'` is `m`, but that the `n` bytes from `lo` on and those from `hi` on have changed
places. -/
structure Swapped (lo hi n : Nat) (m m' : List UInt8) : Prop where
  length : m'.length = m.length
  bytes : ∀ p, m'[p]? =
    if hi ≤ p ∧ p < hi + n then m[p - hi + lo]?
    else if lo ≤ p ∧ p < lo + n then m[p - lo + hi]? else m[p]?

section Swapped

variable {lo hi n : Nat} {m m' : List UInt8}

theorem Swapped.refl (lo hi : Nat) (m : List UInt8) : Swapped lo hi 0 m m where
  length := rfl
  bytes := fun p => by rw [if_neg (by omega), if_neg (by omega)]

/-- The next `k` bytes change places, of stretches that are the same or do not meet. -/
theorem Swapped.next {k : Nat} {m'' : List UInt8} (swapped : Swapped lo hi n m m')
    (rest : Swapped (lo + n) (hi + n) k m' m'')
    (apart : lo = hi ∨ lo + n + k ≤ hi ∨ hi + n + k ≤ lo) : Swapped lo hi (n + k) m m'' where
  length := rest.length.trans swapped.length
  bytes := by
    intro p
    -- what is behind the bytes that were exchanged has not been touched
    have behind : ∀ q, lo + n ≤ q ∧ q < lo + n + k ∨ hi + n ≤ q ∧ q < hi + n + k →
        m'[q]? = m[q]? := by
      intro q either
      rw [swapped.bytes, if_neg (by omega), if_neg (by omega)]
    rw [rest.bytes]
    split
    case isTrue inHi =>
      rw [behind _ (by omega), if_pos (by omega)]
      congr 1
      omega
    case isFalse notHi =>
      split
      case isTrue inLo =>
        rw [behind _ (by omega), if_neg (by omega), if_pos (by omega)]
        congr 1
        omega
      case isFalse notLo =>
        rw [swapped.bytes]
        split
        · rw [if_pos (by omega)]
        · rw [if_neg (c := hi ≤ p ∧ p < hi + (n + k)) (by omega)]
          split
          · rw [if_pos (by omega)]
          · rw [if_neg (by omega)]

theorem slice_eq_iff {off : Nat} {bs : List UInt8} (read : slice m off n = some bs) :
    bs.length = n ∧ ∀ r < n, bs[r]? = m[off + r]? := by
  unfold slice at read
  split at read
  case isFalse => cases read
  case isTrue inside =>
    cases read
    constructor
    · rw [List.length_take, List.length_drop]
      omega
    · intro r less
      rw [List.getElem?_take_of_lt less, List.getElem?_drop]

/-- Two stretches that are read and then written to each other's place. -/
theorem swapped_of_overwrite {first second between : List UInt8}
    (readLo : slice m lo n = some first) (readHi : slice m hi n = some second)
    (writeLo : overwrite m lo second = some between)
    (writeHi : overwrite between hi first = some m') : Swapped lo hi n m m' where
  length := (length_overwrite writeHi).trans (length_overwrite writeLo)
  bytes := by
    intro p
    obtain ⟨lengthLo, bytesLo⟩ := slice_eq_iff readLo
    obtain ⟨lengthHi, bytesHi⟩ := slice_eq_iff readHi
    rw [getElem?_overwrite writeHi, lengthLo, getElem?_overwrite writeLo, lengthHi]
    split
    · rw [bytesLo _ (by omega), Nat.add_comm]
    split
    · rw [bytesHi _ (by omega), Nat.add_comm]
    · rfl

end Swapped

/-! ## Rows -/

/-- The items `xs`, of `w` bytes each, stand in a row at the start of `m`. -/
structure Row (w : Nat) (xs : List (List UInt8)) (m : List UInt8) : Prop where
  wide : ∀ x ∈ xs, x.length = w
  bytes : xs.flatten <+: m

section Row

variable {w : Nat} {xs ys : List (List UInt8)} {m m' : List UInt8}

theorem Row.nil (w : Nat) (m : List UInt8) : Row w [] m :=
  ⟨fun _ bad => absurd bad List.not_mem_nil, List.nil_prefix⟩

/-- Items of no bytes stand everywhere. -/
theorem row_of_empty (wide : ∀ x ∈ xs, x.length = w) (empty : w * xs.length = 0)
    (m : List UInt8) : Row w xs m where
  wide := wide
  bytes := by
    rw [← length_flatten_of_wide wide, List.length_eq_zero_iff] at empty
    rw [empty]
    exact List.nil_prefix

theorem Row.length_flatten (row : Row w xs m) : xs.flatten.length = w * xs.length :=
  length_flatten_of_wide row.wide

theorem Row.room (row : Row w xs m) : w * xs.length ≤ m.length := by
  rw [← row.length_flatten]
  exact row.bytes.length_le

/-- The items do not change when the block is resized. -/
theorem Row.resize (row : Row w xs m) {size : Nat} (room : w * xs.length ≤ size)
    (fresh : List UInt8) : Row w xs (m.take size ++ fresh) where
  wide := row.wide
  bytes := by
    obtain ⟨rest, rfl⟩ := row.bytes
    rw [List.take_append, List.take_of_length_le (by rw [row.length_flatten]; exact room),
      List.append_assoc]
    exact List.prefix_append _ _

/-- New items are written behind the others. -/
theorem Row.append (row : Row w xs m) (wide : ∀ y ∈ ys, y.length = w)
    (written : overwrite m (w * xs.length) ys.flatten = some m') : Row w (xs ++ ys) m' where
  wide := by
    intro x mem
    rcases List.mem_append.mp mem with mem | mem
    · exact row.wide x mem
    · exact wide x mem
  bytes := by
    obtain ⟨-, rfl⟩ := overwrite_inside written
    have front : m.take (w * xs.length) = xs.flatten := by
      rw [← row.length_flatten]
      exact (List.prefix_iff_eq_take.mp row.bytes).symm
    rw [front, List.flatten_append]
    exact List.prefix_append _ _

/-- The last item is left out. -/
theorem Row.dropLast (row : Row w xs m) : Row w xs.dropLast m where
  wide := fun x mem => row.wide x (List.dropLast_subset xs mem)
  bytes := by
    obtain ⟨rest, split⟩ := List.dropLast_prefix xs
    have inner : xs.dropLast.flatten <+: xs.flatten := by
      rw [← split, List.flatten_append, split]
      exact List.prefix_append _ _
    exact inner.trans row.bytes

/-- The bytes of a row are those of its items. -/
theorem getElem?_flatten_of_wide (wide : ∀ x ∈ xs, x.length = w) {q r : Nat} (less : r < w) :
    xs.flatten[w * q + r]? = xs[q]?.bind fun x => x[r]? := by
  induction xs generalizing q with
  | nil => rfl
  | cons x xs ih =>
      have first := wide x List.mem_cons_self
      rw [List.flatten_cons, List.getElem?_append, first]
      cases q with
      | zero =>
          rw [Nat.mul_zero, Nat.zero_add, if_pos less]
          rfl
      | succ q =>
          have later : w * (q + 1) + r - w = w * q + r := by
            rw [Nat.mul_succ]
            omega
          rw [if_neg (by rw [Nat.mul_succ]; omega), later,
            ih fun y mem => wide y (List.mem_cons_of_mem x mem)]
          rfl

theorem Row.getElem? (row : Row w xs m) {q : Nat} {x : List UInt8} (item : xs[q]? = some x)
    {r : Nat} (less : r < w) : m[w * q + r]? = x[r]? := by
  have inside := (List.getElem?_eq_some_iff.mp item).1
  have place : w * q + r < w * xs.length := by
    have next := Nat.mul_le_mul_left w (Nat.succ_le_of_lt inside)
    rw [Nat.mul_succ] at next
    omega
  obtain ⟨rest, rfl⟩ := row.bytes
  rw [List.getElem?_append_left (by rw [row.length_flatten]; exact place),
    getElem?_flatten_of_wide row.wide less, item]
  rfl

/-- An item is read where it stands. -/
theorem Row.slice (row : Row w xs m) {q : Nat} {x : List UInt8} (item : xs[q]? = some x) :
    slice m (w * q) w = some x := by
  have whole : Holds m 0 xs.flatten := ⟨Nat.zero_le _, row.bytes⟩
  have held := (whole.item row.wide item).slice
  rwa [Nat.zero_add, row.wide x (List.mem_of_getElem? item)] at held

/-- A block with the items of a row at their places begins with the row. -/
theorem row_of_getElem? (wide : ∀ x ∈ xs, x.length = w)
    (bytes : ∀ q x, xs[q]? = some x → ∀ r < w, m[w * q + r]? = x[r]?) : Row w xs m where
  wide := wide
  bytes := by
    rw [List.prefix_iff_getElem?]
    intro p inside
    have total := length_flatten_of_wide wide
    have below : p < w * xs.length := by
      rw [← total]
      exact inside
    have positive : 0 < w := Nat.pos_of_mul_pos_right (Nat.zero_lt_of_lt below)
    have less : p % w < w := Nat.mod_lt p positive
    have quotient : p / w < xs.length := Nat.div_lt_of_lt_mul below
    have item : xs[p / w]? = some xs[p / w] := List.getElem?_eq_getElem quotient
    have split : w * (p / w) + p % w = p := Nat.div_add_mod p w
    have stored := bytes (p / w) _ item (p % w) less
    have listed := getElem?_flatten_of_wide wide (q := p / w) less
    rw [split] at stored listed
    rw [stored, ← List.getElem?_eq_getElem inside, listed, item]
    rfl

/-- Two items change places when their bytes do. -/
theorem Row.exchange (row : Row w xs m) {i j : Nat} (insideI : i < xs.length)
    (insideJ : j < xs.length) (swapped : Swapped (w * i) (w * j) w m m') :
    Row w (exchange i j xs) m' := by
  have mem : ∀ x ∈ InPlace.exchange i j xs, x.length = w := fun x mem =>
    row.wide x ((exchange_perm i j xs).mem_iff.mp mem)
  refine row_of_getElem? mem fun q x item r less => ?_
  -- a byte of item `q` is in the stretch of item `k` only where `q` is `k`
  have stretch : ∀ k, w * k ≤ w * q + r ∧ w * q + r < w * k + w ↔ q = k := by
    intro k
    constructor
    · rintro ⟨least, most⟩
      have up : q < k + 1 := by
        refine Nat.lt_of_mul_lt_mul_left (a := w) ?_
        rw [Nat.mul_succ]
        omega
      have down : k < q + 1 := by
        refine Nat.lt_of_mul_lt_mul_left (a := w) ?_
        rw [Nat.mul_succ]
        omega
      omega
    · rintro rfl
      omega
  rw [swapped.bytes]
  rw [getElem?_exchange insideI insideJ] at item
  simp only [stretch]
  split
  case isTrue same =>
    subst same
    rw [if_pos rfl] at item
    rw [← row.getElem? item less]
    congr 1
    omega
  case isFalse notJ =>
    rw [if_neg notJ] at item
    split
    case isTrue same =>
      subst same
      rw [if_pos rfl] at item
      rw [← row.getElem? item less]
      congr 1
      omega
    case isFalse notI =>
      rw [if_neg notI] at item
      exact row.getElem? item less

end Row

end RowMemory
