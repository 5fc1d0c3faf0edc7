import Pointless.BitvectorEqual
import Pointless.PyBitvectorCount
import Pointless.ValidateSound

/-!
# The Python bitvector over a file

A `PyPointlessBitvector` either has memory of its own or shows a bitvector of an opened
file. Its comparison goes bit by bit, and its hash is that of the bits in both cases.
`IsAnySet` of a bitvector of a file is `pointless_bitvector_is_any_set`, which is handed
the buffer where it takes the bits.
-/

namespace Pointless

open ByteMemory ExceptRules

/-! ## Objects -/

/-- A `PyPointlessBitvector`, by its `is_pointless`. -/
inductive PyBitvectorObject where
  | file (p : OpenFile) (v : Value)
  | primitive (vector : PyPointlessBitvector)

/-- `PyPointlessBitvector_length`. -/
def PyBitvectorObject.length : PyBitvectorObject → Res UInt32
  | file p v => readerBitvectorNBits p v
  | primitive vector => .ok vector.primitiveNBits

/-- `PyPointlessBitvector_is_set`. -/
def PyBitvectorObject.isSet : PyBitvectorObject → Nat → Res Bool
  | file p v, i => readerBitvectorIsSet p v i
  | primitive vector, i => pyBmIsSet vector.primitiveBits i

/-- `PyPointlessBitVector_hash`. -/
def PyBitvectorObject.hash : PyBitvectorObject → Res Int64
  | file p v => do
      let buffer ← readerBitvectorPtr p v
      UInt64.toInt64 <$> bitvectorHash64 v.type v.data buffer
  | primitive vector =>
      UInt64.toInt64 <$> bitvectorHashNBitsBits64 vector.primitiveNBits (some vector.primitiveBits)

/-- The operators of a rich comparison. -/
inductive PyCmpOp where
  | lt
  | le
  | eq
  | ne
  | gt
  | ge
  deriving DecidableEq, Repr

/-- The operator between two numbers. -/
def PyCmpOp.holds (op : PyCmpOp) (a b : Nat) : Bool :=
  match op with
  | lt => a < b
  | le => a ≤ b
  | eq => a = b
  | ne => a ≠ b
  | gt => b < a
  | ge => b ≤ a

/-- The loop of `PyPointlessBitvector_richcompare`: the first two bits that differ. -/
def firstDifference (a b : PyBitvectorObject) : List Nat → Res (Option (Bool × Bool))
  | [] => .ok none
  | i :: rest => do
      let isSetA ← a.isSet i
      let isSetB ← b.isSet i
      if isSetA ≠ isSetB then pure (some (isSetA, isSetB)) else firstDifference a b rest

/-- `PyPointlessBitvector_richcompare` of two bitvectors. -/
def pyBitvectorRichcompare (a b : PyBitvectorObject) (op : PyCmpOp) : Res Bool := do
  let nBitsA ← a.length
  let nBitsB ← b.length
  if nBitsA ≠ nBitsB ∧ (op = .eq ∨ op = .ne) then pure (op = .ne)
  else
    let difference ← firstDifference a b (List.range (min nBitsA.toNat nBitsB.toNat))
    match difference with
    | none => pure (op.holds nBitsA.toNat nBitsB.toNat)
    | some (isSetA, isSetB) => pure (op.holds isSetA.toNat isSetB.toNat)

/-! ## Equal objects -/

/-- The object is as long as the string, and its bits are read as those of the string. -/
structure PyBitvectorObject.Shows (a : PyBitvectorObject) (bits : List Bool) : Prop where
  length : ∃ n, a.length = .ok n ∧ n.toNat = bits.length
  isSet : ∀ i (less : i < bits.length), a.isSet i = .ok bits[i]

theorem firstDifference_none {a b : PyBitvectorObject} {indices : List Nat}
    (none : firstDifference a b indices = .ok none) :
    ∀ i ∈ indices, ∃ isSet, a.isSet i = .ok isSet ∧ b.isSet i = .ok isSet := by
  induction indices with
  | nil => simp
  | cons i rest ih =>
      rw [firstDifference] at none
      obtain ⟨isSetA, readA, none⟩ := bind_eq_ok.mp none
      obtain ⟨isSetB, readB, none⟩ := bind_eq_ok.mp none
      split at none
      case isTrue => cases none
      case isFalse same =>
        rw [not_not] at same
        intro j mem
        rcases List.mem_cons.mp mem with rfl | later
        · exact ⟨isSetA, readA, same ▸ readB⟩
        · exact ih none j later

theorem firstDifference_some {a b : PyBitvectorObject} {indices : List Nat} {x y : Bool}
    (found : firstDifference a b indices = .ok (some (x, y))) : x ≠ y := by
  induction indices with
  | nil => cases found
  | cons i rest ih =>
      rw [firstDifference] at found
      obtain ⟨isSetA, -, found⟩ := bind_eq_ok.mp found
      obtain ⟨isSetB, -, found⟩ := bind_eq_ok.mp found
      split at found
      case isTrue differ =>
        cases found
        exact differ
      case isFalse => exact ih found

/-- Objects that compare equal show one string. -/
theorem shows_of_richcompare {a b : PyBitvectorObject}
    (equal : pyBitvectorRichcompare a b .eq = .ok true) :
    ∃ bits, a.Shows bits ∧ b.Shows bits := by
  rw [pyBitvectorRichcompare] at equal
  obtain ⟨nBitsA, lengthA, equal⟩ := bind_eq_ok.mp equal
  obtain ⟨nBitsB, lengthB, equal⟩ := bind_eq_ok.mp equal
  split at equal
  case isTrue => simp at equal
  case isFalse same =>
    obtain rfl : nBitsA = nBitsB := by simpa using same
    obtain ⟨difference, looped, equal⟩ := bind_eq_ok.mp equal
    cases difference with
    | some differing =>
        obtain ⟨x, y⟩ := differing
        have differ := firstDifference_some looped
        cases x <;> cases y <;> first | exact absurd rfl differ | cases equal
    | none =>
        rw [Nat.min_self] at looped
        have all : ∀ i, ∃ isSet, i < nBitsA.toNat →
            a.isSet i = .ok isSet ∧ b.isSet i = .ok isSet := by
          intro i
          by_cases less : i < nBitsA.toNat
          · obtain ⟨isSet, reads⟩ := firstDifference_none looped i (List.mem_range.mpr less)
            exact ⟨isSet, fun _ => reads⟩
          · exact ⟨false, fun bad => absurd bad less⟩
        choose isSet reads using all
        refine ⟨(List.range nBitsA.toNat).map isSet, ⟨⟨nBitsA, lengthA, by simp⟩, ?_⟩,
          ⟨nBitsA, lengthB, by simp⟩, ?_⟩
        · intro i less
          rw [List.length_map, List.length_range] at less
          simpa using (reads i less).1
        · intro i less
          rw [List.length_map, List.length_range] at less
          simpa using (reads i less).2

theorem PyBitvectorObject.Shows.hash {a : PyBitvectorObject} {bits : List Bool}
    (shows : a.Shows bits) : a.hash = .ok (hashBits64 bits).toInt64 := by
  obtain ⟨⟨n, length, count⟩, isSet⟩ := shows
  have short : bits.length < 2 ^ 32 := by
    rw [← count]
    exact n.toNat_lt
  have word : UInt32.ofNat bits.length = n := by rw [← count, UInt32.ofNat_toNat]
  cases a with
  | file p v =>
      obtain ⟨buffer, ptr, counted⟩ := bind_eq_ok.mp length
      have shown : ShowsBits v.type v.data buffer bits := by
        refine ⟨word ▸ counted, fun i less => ?_⟩
        have read := isSet i less
        rw [PyBitvectorObject.isSet, readerBitvectorIsSet, ptr, ok_bind] at read
        exact read
      rw [PyBitvectorObject.hash, ptr, ok_bind, shown.hash64 short, map_ok]
  | primitive vector =>
      cases length
      have hashed := @bitvectorHash64Priv_eq .bitvector 0 (some vector.primitiveBits) bits
        fun i less => by
          obtain ⟨inside, value⟩ := pyBmIsSet_ok (isSet i less)
          rw [← value]
          exact bmIsSet_eq inside
      rw [← count] at hashed
      rw [PyBitvectorObject.hash, bitvectorHashNBitsBits64, hashed, map_ok]

/-- The hashes of bitvectors go by their bits alone, wherever they are held; so those of
objects that compare equal are the same. -/
theorem bitvectorHashes_agree :
    (∀ a b : BitSource, a.bits = b.bits →
      (∃ hash, a.hash32 = .ok hash ∧ b.hash32 = .ok hash) ∧
        ∃ hash, a.hash64 = .ok hash ∧ b.hash64 = .ok hash) ∧
      ∀ a b : PyBitvectorObject, pyBitvectorRichcompare a b .eq = .ok true →
        ∃ hash, a.hash = .ok hash ∧ b.hash = .ok hash := by
  constructor
  · intro a b same
    exact ⟨⟨_, a.hash32_eq, same ▸ b.hash32_eq⟩, _, a.hash64_eq, same ▸ b.hash64_eq⟩
  · intro a b equal
    obtain ⟨bits, showsA, showsB⟩ := shows_of_richcompare equal
    exact ⟨_, showsA.hash, showsB.hash⟩

/-- A set bit in a file, and in a byte whose other bits are set as well. -/
theorem bitvectorHashes_agree_oneSet :
    (∃ hash, (BitSource.file oneSet).hash64 = .ok hash ∧
      (BitSource.primitive ⟨1, [0xff], by decide⟩).hash64 = .ok hash) ∧
    ∃ hash, (PyBitvectorObject.file ⟨⟨⟨.bitvector1, 1⟩, 0, 0, 0, 0, 0, 2⟩, [], [], [], [], [], []⟩
        ⟨.bitvector1, 1⟩).hash = .ok hash ∧
      (PyBitvectorObject.primitive ⟨1, [0xff], 1, 1⟩).hash = .ok hash :=
  ⟨(bitvectorHashes_agree.1 (.file oneSet) (.primitive ⟨1, [0xff], by decide⟩) (by decide)).2,
    bitvectorHashes_agree.2 _ _ (by decide)⟩

/-! ## `IsAnySet` -/

/-- The scan of `pointless_bitvector_is_any_set`, which stops at a set bit. -/
def anySetLoop (isSet : Nat → Res Bool) : List Nat → Res Bool
  | [] => .ok false
  | i :: rest => do
      if ← isSet i then pure true else anySetLoop isSet rest

/-- `pointless_bitvector_is_any_set`; its last argument is read as the buffer by
`pointless_bitvector_n_bits` and as the bits by `pointless_bitvector_is_set_bits`. -/
def bitvectorIsAnySet (t : ValueType) (data : UInt32) (bits : Ptr) : Res Bool :=
  match t with
  | .bitvector0 => .ok false
  | .bitvector1 => .ok (decide (0 < data))
  | .bitvector01 => .ok (decide (0 < nBitsB data))
  | .bitvector10 => .ok (decide (0 < nBitsA data))
  | _ => do
      let n ← bitvectorNBits t data bits
      anySetLoop (bitvectorIsSetBits t data bits) (List.range n.toNat)

/-- `PyPointlessBitvector_is_any_set` of a file-backed vector. -/
def pyBitvectorIsAnySetFile (p : OpenFile) (v : Value) : Res Bool := do
  let bits ← readerBitvectorPtr p v
  bitvectorIsAnySet v.type v.data bits

/-- `IsAnySet` of a bitvector of a file is right, and for one on the heap it comes to the
same in a memory of nothing but its object. -/
structure IsAnySetRight (p : OpenFile) (v : Value) (n : UInt32) (isAny : Bool) : Prop where
  returned : pyBitvectorIsAnySetFile p v = .ok isAny
  exact : isAny = true ↔ ∃ i < n.toNat, readerBitvectorIsSet p v i = .ok true
  inside : v.type = .bitvector → ∃ off object, pcOffset p.bitvectorOffsets v.data = .ok off ∧
    slice p.heap off (4 + iceil n.toNat 8) = some object ∧
    bitvectorIsAnySet v.type v.data (some object) = .ok isAny

/-- A bitvector on the heap has a set bit, if it has any bits. -/
def HeapBitSet (p : OpenFile) (v : Value) (n : UInt32) : Prop :=
  v.type = .bitvector → n = 0 ∨ ∃ i < n.toNat, readerBitvectorIsSet p v i = .ok true

theorem anySetLoop_true {isSet : Nat → Res Bool} {found : Nat} :
    ∀ indices : List Nat, found ∈ indices → isSet found = .ok true →
      (∀ i ∈ indices, i ≤ found → ∃ b, isSet i = .ok b) → indices.Pairwise (· < ·) →
      anySetLoop isSet indices = .ok true := by
  intro indices
  induction indices with
  | nil => exact fun mem => nomatch mem
  | cons i rest ih =>
      intro mem set_ reads ascending
      rw [anySetLoop]
      rcases List.mem_cons.mp mem with rfl | later
      · rw [set_]
        rfl
      · obtain ⟨first, others⟩ := List.pairwise_cons.mp ascending
        obtain ⟨b, read⟩ := reads i List.mem_cons_self (Nat.le_of_lt (first found later))
        rw [read, ok_bind]
        cases b with
        | true => rfl
        | false =>
            exact ih later set_ (fun j jMem => reads j (List.mem_cons_of_mem i jMem)) others

/-- The scan of bits that are all read. -/
theorem anySetLoop_eq {isSet : Nat → Res Bool} {f : Nat → Bool} :
    ∀ indices : List Nat, (∀ i ∈ indices, isSet i = .ok (f i)) →
      anySetLoop isSet indices = .ok (indices.any f) := by
  intro indices
  induction indices with
  | nil => exact fun _ => rfl
  | cons i rest ih =>
      intro reads
      rw [anySetLoop, reads i List.mem_cons_self, ok_bind,
        ih fun j mem => reads j (List.mem_cons_of_mem i mem), List.any_cons]
      cases f i <;> rfl

/-- The bits of a word in front of a memory. -/
theorem bmIsSet_header {m : List UInt8} {n : UInt32} (header : loadU32 m 0 = .ok n) {i : Nat}
    (less : i < 32) : bmIsSet (some m) i = .ok (n.toNat.testBit i) := by
  obtain ⟨word, loaded, rfl⟩ := map_eq_ok.mp header
  have read : load 4 m 0 = some word := by
    rw [loadWord] at loaded
    split at loaded
    case h_1 read =>
      cases loaded
      exact read
    case h_2 => cases loaded
  have inside : 0 + 4 ≤ m.length := load_isSome_iff.mp (by rw [read]; rfl)
  have narrow := load_lt read
  rw [load, slice_eq_some inside, List.drop_zero, Option.map_some] at read
  have bytes : encode 4 word = m.take 4 := by
    have back := encode_decode (m.take 4)
    rw [List.length_take, Nat.min_eq_left (by omega), Option.some.inj read] at back
    exact back
  have small : word < 2 ^ 32 := narrow
  rw [bmIsSet_eq (by omega), UInt32.toNat_ofNat', Nat.mod_eq_of_lt small,
    ← bit_encode 4 word i (by omega), bytes, BitMemory.bit, BitMemory.bit,
    List.getElem?_take_of_lt (by omega)]

/-- Handed the buffer, the scan finds a set bit in the length, if that is not zero. -/
theorem bitvectorIsAnySet_heap {m : List UInt8} {n data : UInt32} (header : loadU32 m 0 = .ok n) :
    bitvectorIsAnySet .bitvector data (some m) = .ok (decide (0 < n.toNat)) := by
  change (loadU32 m 0 >>= fun n =>
    anySetLoop (bitvectorIsSetBits .bitvector data (some m)) (List.range n.toNat)) = _
  rw [header, ok_bind]
  rcases Nat.eq_zero_or_pos n.toNat with zero | positive
  · rw [zero]
    rfl
  · have top : 2 ^ n.toNat.log2 ≤ n.toNat := Nat.log2_self_le (by omega)
    have inWord : n.toNat.log2 < 32 :=
      (Nat.log2_lt (by omega)).mpr n.toNat_lt
    have among : n.toNat.log2 < n.toNat := Nat.lt_of_lt_of_le Nat.lt_two_pow_self top
    rw [decide_eq_true positive]
    refine anySetLoop_true (List.range n.toNat) (List.mem_range.mpr among) ?_ ?_
      List.pairwise_lt_range
    · change bmIsSet (some m) _ = _
      rw [bmIsSet_header header inWord, Nat.testBit_log2 (by omega)]
    · exact fun i _ le => ⟨_, bmIsSet_header header (by omega)⟩

section Files

variable {p : OpenFile} {v : Value}

/-- What the accessors of a bitvector of a file come to, given its buffer. -/
theorem reader_of_ptr {buffer : Ptr} (ptr : readerBitvectorPtr p v = .ok buffer) :
    readerBitvectorNBits p v = bitvectorNBits v.type v.data buffer ∧
      (∀ i, readerBitvectorIsSet p v i = bitvectorIsSet v.type v.data buffer i) ∧
      pyBitvectorIsAnySetFile p v = bitvectorIsAnySet v.type v.data buffer := by
  refine ⟨?_, fun i => ?_, ?_⟩
  · rw [readerBitvectorNBits, ptr, ok_bind]
  · rw [readerBitvectorIsSet, ptr, ok_bind]
  · rw [pyBitvectorIsAnySetFile, ptr, ok_bind]

/-- The heap encoding: `IsAnySet` holds of every bitvector that has bits. -/
theorem isAnySetRight_heap_iff {off : Nat} {n : UInt32} (type : v.type = .bitvector)
    (bitvector : BitvectorInside p v off n) :
    readerBitvectorNBits p v = .ok n ∧
      ((∃ isAny, IsAnySetRight p v n isAny) ↔ HeapBitSet p v n) := by
  have ptr : readerBitvectorPtr p v = .ok (some (p.heap.drop off)) := by
    rw [readerBitvectorPtr, if_pos type, readerBitvectorBuffer, bitvector.offset]
    rfl
  obtain ⟨nBits, -, isAny⟩ := reader_of_ptr ptr
  have inside := bitvector.inside
  have header : loadU32 (p.heap.drop off) 0 = .ok n := by
    have count := bitvector.bits.nBits
    exact count
  rw [type] at nBits isAny
  rw [bitvectorIsAnySet_heap header] at isAny
  have object : slice p.heap off (4 + iceil n.toNat 8) =
      some ((p.heap.drop off).take (4 + iceil n.toNat 8)) := slice_eq_some inside
  have objectHeader : loadU32 ((p.heap.drop off).take (4 + iceil n.toNat 8)) 0 = .ok n := by
    rw [← header, loadU32, loadU32, loadWord, loadWord, load, load, slice_eq_some, slice_eq_some,
      List.drop_zero, List.drop_zero, List.take_take, Nat.min_eq_left (by omega)]
    · rw [List.length_drop]
      omega
    · rw [List.length_take, List.length_drop]
      omega
  refine ⟨nBits.trans header, ?_⟩
  constructor
  · rintro ⟨b, right⟩ -
    rcases Nat.eq_zero_or_pos n.toNat with zero | positive
    · exact Or.inl (UInt32.toNat_inj.mp zero)
    · obtain rfl : true = b := by
        rw [← decide_eq_true positive]
        exact Except.ok.inj (isAny.symm.trans right.returned)
      exact Or.inr (right.exact.mp rfl)
  · intro bitSet
    refine ⟨_, isAny, ?_, fun _ => ⟨off, _, bitvector.offset, object, ?_⟩⟩
    · rw [decide_eq_true_eq]
      constructor
      · intro positive
        rcases bitSet type with rfl | found
        · exact absurd positive (by decide)
        · exact found
      · rintro ⟨i, less, -⟩
        omega
    · rw [type]
      exact bitvectorIsAnySet_heap objectHeader

/-- The inline encodings. -/
theorem isAnySetRight_inline (isBits : isBitvectorType v.type = true)
    (inline : v.type ≠ .bitvector) (packed : v.type = .bitvectorPacked → packedNBits v.data ≤ 27) :
    ∃ n, readerBitvectorNBits p v = .ok n ∧ ∃ isAny, IsAnySetRight p v n isAny := by
  have ptr : readerBitvectorPtr p v = .ok none := if_neg inline
  obtain ⟨nBits, isSet, isAny⟩ := reader_of_ptr ptr
  have small : nBitsA v.data < 65536 ∧ nBitsB v.data < 65536 := by
    have word := v.data.toNat_lt
    rw [nBitsA, nBitsB]
    omega
  have sum : (UInt32.ofNat (nBitsA v.data + nBitsB v.data)).toNat = nBitsA v.data + nBitsB v.data :=
    Nat.mod_eq_of_lt (by omega)
  have outside (b : Bool) {n : UInt32} : v.type = .bitvector → ∃ off object,
      pcOffset p.bitvectorOffsets v.data = .ok off ∧
        slice p.heap off (4 + iceil n.toNat 8) = some object ∧
        bitvectorIsAnySet v.type v.data (some object) = .ok b := fun bad => absurd bad inline
  cases type : v.type with
  | bitvector => exact absurd type inline
  | bitvector0 =>
      rw [type] at nBits isSet isAny
      refine ⟨_, nBits, _, isAny, ?_, outside _⟩
      simp [isSet, bitvectorIsSet, bitvectorIsSetBits]
  | bitvector1 =>
      rw [type] at nBits isSet isAny
      refine ⟨_, nBits, _, isAny, ?_, outside _⟩
      simp only [isSet, decide_eq_true_eq, UInt32.lt_iff_toNat_lt]
      exact ⟨fun positive => ⟨0, positive, rfl⟩,
        fun found => found.elim fun i here => Nat.lt_of_le_of_lt (Nat.zero_le i) here.1⟩
  | bitvector01 =>
      rw [type] at nBits isSet isAny
      refine ⟨_, nBits, _, isAny, ?_, outside _⟩
      simp only [isSet, decide_eq_true_eq, sum]
      constructor
      · intro positive
        exact ⟨nBitsA v.data, by omega, congrArg Except.ok (decide_eq_true (Nat.le_refl _))⟩
      · rintro ⟨i, less, set_⟩
        have after : nBitsA v.data ≤ i := of_decide_eq_true (Except.ok.inj set_)
        omega
  | bitvector10 =>
      rw [type] at nBits isSet isAny
      refine ⟨_, nBits, _, isAny, ?_, outside _⟩
      simp only [isSet, decide_eq_true_eq, sum]
      constructor
      · intro positive
        exact ⟨0, by omega, congrArg Except.ok (decide_eq_true positive)⟩
      · rintro ⟨i, less, set_⟩
        have before : i < nBitsA v.data := of_decide_eq_true (Except.ok.inj set_)
        omega
  | bitvectorPacked =>
      have few := packed type
      rw [type] at nBits isSet isAny
      have length : (bytesU32 v.data).length = 4 := length_encode 4 _
      have reads : ∀ i < (UInt32.ofNat (packedNBits v.data)).toNat,
          bitvectorIsSetBits .bitvectorPacked v.data none i =
            .ok (BitMemory.bit (bytesU32 v.data) (i + 5)) := by
        intro i less
        rw [UInt32.toNat_ofNat', Nat.mod_eq_of_lt (by omega)] at less
        exact bmIsSet_eq (by omega)
      have scan := anySetLoop_eq (List.range (UInt32.ofNat (packedNBits v.data)).toNat)
        fun i mem => reads i (List.mem_range.mp mem)
      refine ⟨_, nBits, _, isAny.trans scan, ?_, outside _⟩
      simp only [List.any_eq_true, List.mem_range]
      constructor
      · rintro ⟨i, less, set_⟩
        exact ⟨i, less, by rw [isSet]; exact (reads i less).trans (congrArg Except.ok set_)⟩
      · rintro ⟨i, less, set_⟩
        rw [isSet] at set_
        exact ⟨i, less, Except.ok.inj ((reads i less).symm.trans set_)⟩
  | _ =>
      rw [type] at isBits
      cases isBits

/-- `IsAnySet` of a bitvector of an accepted file is right but for one on the heap that has
bits and none of them set. -/
theorem isAnySet_iff {fuel : Nat} {buf : List UInt8} {error : Option String}
    (opened : openB fuel buf = .ok (p, error)) (reach : Reachable p v)
    (isBits : isBitvectorType v.type = true) :
    ∃ n, readerBitvectorNBits p v = .ok n ∧
      ((∃ isAny, IsAnySetRight p v n isAny) ↔ HeapBitSet p v n) := by
  have sound := openB_sound opened
  have checked := sound.checked v reach
  by_cases type : v.type = .bitvector
  · obtain ⟨off, n, bitvector⟩ := checked.bitvector sound.sized type
    exact ⟨n, isAnySetRight_heap_iff type bitvector⟩
  · obtain ⟨n, count, right⟩ := isAnySetRight_inline isBits type checked.packed
    exact ⟨n, count, fun _ bad => absurd bad type, fun _ => right⟩

end Files

/-- A file whose root is a bitvector on the heap with the one bit of the byte `bits`. -/
def oneBitFile (bits : UInt8) : List UInt8 :=
  bytesValue ⟨.bitvector, 0⟩ ++ bytesU32 0 ++ bytesU32 0 ++ bytesU32 1 ++ bytesU32 0 ++
    bytesU32 0 ++ bytesU32 2 ++ bytesU64 0 ++ (bytesU32 1 ++ [bits])

/-- The file opened. -/
def oneBitOpened (bits : UInt8) : OpenFile where
  header := ⟨⟨.bitvector, 0⟩, 0, 0, 1, 0, 0, 2⟩
  stringUnicodeOffsets := []
  vectorOffsets := []
  bitvectorOffsets := [0]
  setOffsets := []
  mapOffsets := []
  heap := bytesU32 1 ++ [bits]

set_option maxRecDepth 4000 in
/-- A clear bit on the heap: the length is taken for a set one. -/
theorem clearBit_isAnySet :
    openB 0 (oneBitFile 0) = .ok (oneBitOpened 0, none) ∧
      readerBitvectorNBits (oneBitOpened 0) ⟨.bitvector, 0⟩ = .ok 1 ∧
      readerBitvectorIsSet (oneBitOpened 0) ⟨.bitvector, 0⟩ 0 = .ok false ∧
      pyBitvectorIsAnySetFile (oneBitOpened 0) ⟨.bitvector, 0⟩ = .ok true ∧
      ¬∃ isAny, IsAnySetRight (oneBitOpened 0) ⟨.bitvector, 0⟩ 1 isAny := by
  have clear : readerBitvectorIsSet (oneBitOpened 0) ⟨.bitvector, 0⟩ 0 = .ok false := by decide
  have isAny : pyBitvectorIsAnySetFile (oneBitOpened 0) ⟨.bitvector, 0⟩ = .ok true := by decide
  refine ⟨by decide +kernel, by decide, clear, isAny, ?_⟩
  rintro ⟨b, right⟩
  obtain rfl : true = b := Except.ok.inj (isAny.symm.trans right.returned)
  obtain ⟨i, less, set_⟩ := right.exact.mp rfl
  obtain rfl : i = 0 := Nat.lt_one_iff.mp less
  rw [clear] at set_
  cases set_

set_option maxRecDepth 4000 in
theorem isAnySet_iff_oneSet :
    ∃ n, readerBitvectorNBits (oneBitOpened 1) ⟨.bitvector, 0⟩ = .ok n ∧
      ((∃ isAny, IsAnySetRight (oneBitOpened 1) ⟨.bitvector, 0⟩ n isAny) ↔
        HeapBitSet (oneBitOpened 1) ⟨.bitvector, 0⟩ n) :=
  isAnySet_iff (show openB 0 (oneBitFile 1) = .ok (oneBitOpened 1, none) by decide +kernel)
    (.root _) rfl

end Pointless
