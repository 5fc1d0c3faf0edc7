import Pointless.Recreate
import Pointless.ValueGraph

/-!
# What re-creation reads

The reads of `pointless_recreate.c` of a value of an accepted file, next to the node that
the value is: the reads return, and they come to the label and the children of the node.
-/

namespace Pointless

open Attempts ByteMemory ExceptRules Unfolding

/-! ## Accepted files -/

/-- A file whose values have passed the first pass and whose tables have passed the third. -/
structure OpenFile.Accepted (p : OpenFile) : Prop where
  sound : p.Sound
  tables : ∀ t, Reachable p t → isTableType t.type → ∃ nBuckets hash key, BucketsOf p t nBuckets hash key

theorem openB_accepted {buf : List UInt8} {fuel : Nat} {p : OpenFile} {error : Option String}
    (opened : openB fuel buf = .ok (p, error)) : p.Accepted := by
  have sound := openB_sound opened
  obtain ⟨-, -, hashTables⟩ := openB_eq_ok.mp opened
  refine ⟨sound, fun t reach type => ?_⟩
  obtain ⟨table, nBuckets, hash, key, at_t, even, read, -⟩ :=
    sound.tableInside reach type (table_passed hashTables reach type)
  exact ⟨nBuckets, hash, key, table, at_t, even, read⟩

/-- Reads one after the other. -/
theorem mapM_ok_map {α β : Type} {read : α → Res β} {item : α → β} {positions : List α}
    (each : ∀ i ∈ positions, read i = .ok (item i)) :
    positions.mapM read = .ok (positions.map item) := by
  rw [mapM_eq_ok, List.forall₂_map_right_iff, List.forall₂_same]
  exact each

section Reads

variable {p : OpenFile} {v : Value}

/-! ## Vectors -/

theorem OpenFile.Sound.valueItems (sound : p.Sound) (reach : Reachable p v)
    (type : v.type = .vectorValue ∨ v.type = .vectorValueHashable) :
    ∃ (nItems : UInt32) (item : Nat → Value), readerVectorNItems p v = .ok nItems ∧
      ∀ i < nItems.toNat, readerVectorValue p v i = .ok (item i) ∧ Reachable p (item i) := by
  obtain ⟨nItems, count, items⟩ := sound.items reach type
  have each : ∀ i, ∃ item, i < nItems.toNat →
      readerVectorValue p v i = .ok item ∧ Reachable p item := by
    intro i
    by_cases less : i < nItems.toNat
    · obtain ⟨item, read⟩ := items i less
      exact ⟨item, fun _ => read⟩
    · exact ⟨v, fun inside => absurd inside less⟩
  choose item read using each
  exact ⟨nItems, item, count, read⟩

/-- The node of a part of a value vector. -/
theorem vectorNode_values (type : v.type = .vectorValue ∨ v.type = .vectorValueHashable)
    {item : Nat → Value} {first n : Nat}
    (read : ∀ i < n, readerVectorValue p v (first + i) = .ok (item (first + i))) :
    vectorNode p v first n = .ok (.vector, (List.range n).map fun i => item (first + i)) := by
  have items : (List.range n).mapM (fun i => readerVectorValue p v (first + i)) =
      .ok ((List.range n).map fun i => item (first + i)) :=
    mapM_ok_map fun i mem => read i (List.mem_range.mp mem)
  unfold vectorNode
  rcases type with type | type
  · rw [type]
    simp only [vectorTag, items, ok_bind, pure_eq_ok]
  · rw [type]
    simp only [vectorTag, items, ok_bind, pure_eq_ok]

/-- The node of a part of a vector of numbers. -/
theorem vectorNode_numbers {t : NumberType} (type : v.type = t.vectorType) {word : Nat → Nat}
    {first n : Nat}
    (read : ∀ i < n, readerVectorWord p v t.size (first + i) = .ok (word (first + i))) :
    vectorNode p v first n =
      .ok (numbersLabel t ((List.range n).map fun i => word (first + i)), []) := by
  have words : (List.range n).mapM (fun i => readerVectorWord p v t.size (first + i)) =
      .ok ((List.range n).map fun i => word (first + i)) :=
    mapM_ok_map fun i mem => read i (List.mem_range.mp mem)
  unfold vectorNode
  rw [type, vectorTag_vectorType]
  simp only [words, ok_bind, pure_eq_ok]

theorem fileNode_vector {nItems : UInt32} (type : isVectorType v.type = true)
    (count : readerVectorNItems p v = .ok nItems) :
    fileNode p v = vectorNode p v 0 nItems.toNat := by
  unfold fileNode
  cases isType : v.type <;> rw [isType] at type <;>
    first | (simp only [count, ok_bind, isVectorType, if_true]; done) | cases type

/-- The words of the items of a vector of numbers, and the bytes that are handed over for a
part of them. -/
theorem OpenFile.Sound.numberItems (sound : p.Sound) (reach : Reachable p v) {t : NumberType}
    (type : v.type = t.vectorType) :
    ∃ (nItems : UInt32) (word : Nat → Nat), readerVectorNItems p v = .ok nItems ∧
      (∀ i < nItems.toNat, readerVectorWord p v t.size i = .ok (word i)) ∧
      ∀ first n : UInt32, first.toNat + n.toNat ≤ nItems.toNat →
        ∃ items, ownerItems p v t first n = .ok items ∧ items.length = t.size * n.toNat ∧
          wordsAt t.size 0 n.toNat items =
            (List.range n.toNat).map fun i => word (first.toNat + i) := by
  have nonempty : v.type ≠ .vectorEmpty := by
    rw [type]
    cases t <;> exact nofun
  obtain ⟨off, nItems, vector⟩ := (sound.checked v reach).vector sound.sized
    (type ▸ t.vectorItemLen_vectorType)
  have base : readerVectorBasePtr p v = .ok (off + 4) := by
    rw [readerVectorBasePtr, if_neg nonempty, vector.offset]
    rfl
  let word (i : Nat) : Nat := decode ((p.heap.drop (off + 4 + t.size * i)).take t.size)
  have inside : ∀ i < nItems.toNat, off + 4 + t.size * i + t.size ≤ p.heap.length := by
    intro i less
    have grows : t.size * (i + 1) ≤ t.size * nItems.toNat := Nat.mul_le_mul_left _ less
    have whole := vector.inside
    rw [Nat.mul_succ] at grows
    omega
  refine ⟨nItems, word, vector.nItems nonempty, fun i less => ?_, fun first n part => ?_⟩
  · rw [readerVectorWord, base, ok_bind, loadWord, load, slice_eq_some (inside i less)]
    rfl
  · have span : t.size * (first.toNat + n.toNat) ≤ t.size * nItems.toNat :=
      Nat.mul_le_mul_left _ part
    have whole := vector.inside
    rw [Nat.mul_add] at span
    have fits : off + 4 + t.size * first.toNat + t.size * n.toNat ≤ p.heap.length := by omega
    refine ⟨(p.heap.drop (off + 4 + t.size * first.toNat)).take (t.size * n.toNat), ?_, ?_, ?_⟩
    · rw [ownerItems, base, ok_bind, slice_eq_some fits]
      rfl
    · rw [List.length_take, List.length_drop]
      omega
    · unfold wordsAt
      apply List.map_congr_left
      intro i mem
      have less := List.mem_range.mp mem
      have grows : t.size * (i + 1) ≤ t.size * n.toNat := Nat.mul_le_mul_left _ less
      rw [Nat.mul_succ] at grows
      change decode _ = decode _
      rw [List.drop_take, List.take_take, List.drop_drop, Nat.zero_add,
        Nat.min_eq_left (by omega), Nat.mul_add, Nat.add_assoc (off + 4)]

/-! ## Texts -/

theorem beforeTerminator_eq {chars : List UInt32} (terminated : 0 ∈ chars) :
    beforeTerminator chars = some (chars.takeWhile (· ≠ 0)) := by
  induction chars with
  | nil => cases terminated
  | cons c rest ih =>
      rw [beforeTerminator]
      by_cases zero : c = 0
      · rw [if_pos zero, List.takeWhile_cons_of_neg (by simp [zero])]
      · have later : 0 ∈ rest := by
          rcases List.mem_cons.mp terminated with same | later
          · exact absurd same.symm zero
          · exact later
        rw [if_neg zero, ih later, List.takeWhile_cons_of_pos (by simp [zero])]
        rfl

/-- The terminator stops the text. -/
theorem Terminated.length_takeWhile {chars : List UInt32} {n : Nat}
    (terminated : Terminated chars n) : (chars.takeWhile (· ≠ 0)).length ≤ n := by
  by_contra more
  have less : n < (chars.takeWhile (· ≠ 0)).length := Nat.not_le.mp more
  have whole := List.takeWhile_append_dropWhile (p := fun c : UInt32 => decide (c ≠ 0)) (l := chars)
  have zero := terminated.terminator
  rw [← whole, List.getElem?_append_left less] at zero
  exact mem_chars_ne_zero (List.mem_of_getElem? zero) rfl

theorem textNode (sound : p.Sound) (reach : Reachable p v)
    (type : v.type = .string ∨ v.type = .unicode) :
    ∃ m, readerStringUnicodeValue p v = .ok m ∧ 0 ∈ stringChars v.type m ∧
      fileNode p v = .ok (.text (charsOf ((stringChars v.type m).map UInt32.toNat)), []) ∧
      (charsOf ((stringChars v.type m).map UInt32.toNat)).length < 2 ^ 32 := by
  have checked := sound.checked v reach
  have terminated : ∃ (m : List UInt8) (n : UInt32), readerStringUnicodeValue p v = .ok m ∧
      Terminated (stringChars v.type m) n.toNat := by
    rcases type with type | type
    · obtain ⟨off, n, string⟩ := checked.string sound.sized type
      obtain ⟨m, read, terminated⟩ := string.terminated8
      rw [type]
      exact ⟨m, n, read, terminated⟩
    · obtain ⟨off, n, string⟩ := checked.unicode sound.sized type
      obtain ⟨m, read, terminated⟩ := string.terminated32
      rw [type]
      exact ⟨m, n, read, terminated⟩
  obtain ⟨m, n, read, terminated⟩ := terminated
  have zero : 0 ∈ stringChars v.type m := List.mem_of_getElem? terminated.terminator
  have text : readText p v = .ok ((stringChars v.type m).takeWhile (· ≠ 0)) := by
    rw [readText, read, ok_bind, beforeTerminator_eq zero]
    rfl
  refine ⟨m, read, zero, ?_⟩
  rw [charsOf_map u32_toNat_ne_zero]
  constructor
  · unfold fileNode
    rcases type with type | type
    · rw [type] at text ⊢
      simp only [text, ok_bind, pure_eq_ok]
    · rw [type] at text ⊢
      simp only [text, ok_bind, pure_eq_ok]
  · rw [List.length_map]
    exact Nat.lt_of_le_of_lt terminated.length_takeWhile n.toNat_lt

/-! ## Bitvectors -/

theorem fileNode_bits (isBits : isBitvectorType v.type = true) {buffer : Ptr} {bits : List Bool}
    (pointer : readerBitvectorPtr p v = .ok buffer)
    (read : readBits v.type v.data buffer = .ok bits) : fileNode p v = .ok (.bits bits, []) := by
  unfold fileNode
  unfold isBitvectorType at isBits
  cases type : v.type <;> rw [type] at isBits read <;>
    first | cases isBits; done | simp only [pointer, ok_bind, read, pure_eq_ok]

/-- A bitvector that is complete in its data. -/
theorem OpenFile.Sound.inlineBits (sound : p.Sound) (reach : Reachable p v)
    (isBits : isBitvectorType v.type = true) (inline : v.type ≠ .bitvector) :
    IsInlineBitvector v ∧ ∃ bits, readBits v.type v.data none = .ok bits ∧
      fileNode p v = .ok (.bits bits, []) := by
  have checked := sound.checked v reach
  obtain ⟨buffer, n, pointer, inside, none_⟩ := sound.bits reach isBits
  obtain rfl := none_ inline
  have each : ∀ i, ∃ bit, i < n.toNat → bitvectorIsSet v.type v.data none i = .ok bit := by
    intro i
    by_cases less : i < n.toNat
    · obtain ⟨bit, read⟩ := inside.isSet i less
      exact ⟨bit, fun _ => read⟩
    · exact ⟨false, fun less' => absurd less' less⟩
  choose bit read using each
  have bits : readBits v.type v.data none = .ok ((List.range n.toNat).map bit) := by
    rw [readBits, inside.nBits, ok_bind]
    exact mapM_ok_map fun i mem => read i (List.mem_range.mp mem)
  refine ⟨?_, _, bits, fileNode_bits isBits pointer bits⟩
  unfold IsInlineBitvector
  unfold isBitvectorType at isBits
  cases type : v.type <;> rw [type] at isBits <;>
    first
      | trivial
      | cases isBits; done
      | exact absurd type inline
      | exact checked.packed type

/-- The bits of a bitvector on the heap, and the copy that is made of them. -/
theorem OpenFile.Sound.heapBits (sound : p.Sound) (reach : Reachable p v)
    (type : v.type = .bitvector) :
    ∃ n bits, readerBitvectorNBits p v = .ok n ∧ bitvectorCopy p v n = .ok bits ∧
      iceil n.toNat 8 ≤ bits.length ∧ fileNode p v = .ok (.bits (bitsOf bits n.toNat), []) := by
  obtain ⟨off, n, inside⟩ := (sound.checked v reach).bitvector sound.sized type
  have size := inside.inside
  have buffer : readerBitvectorBuffer p v = .ok (some (p.heap.drop off)) := by
    rw [readerBitvectorBuffer, inside.offset]
    rfl
  have pointer : readerBitvectorPtr p v = .ok (some (p.heap.drop off)) := by
    rw [readerBitvectorPtr, if_pos type, buffer]
  have room : 4 + iceil n.toNat 8 ≤ (p.heap.drop off).length := by
    rw [List.length_drop]
    omega
  have bits := inside.bits
  refine ⟨n, ((p.heap.drop off).drop 4).take (iceil n.toNat 8), ?_, ?_, ?_, ?_⟩
  · rw [readerBitvectorNBits, pointer, ok_bind, type]
    exact bits.nBits
  · rw [bitvectorCopy, buffer, ok_bind]
    simp only [Option.bind_some, slice_eq_some room]
    rfl
  · rw [List.length_take, List.length_drop]
    omega
  · refine fileNode_bits (by rw [type]; rfl) pointer ?_
    rw [type, readBits, bits.nBits, ok_bind]
    apply mapM_ok_map
    intro i mem
    have less := List.mem_range.mp mem
    have inside : i / 8 < ((p.heap.drop off).drop 4).length := by
      have byte := div_lt_iceil less
      rw [List.length_drop]
      omega
    refine (bmIsSet_eq inside).trans (congrArg Except.ok ?_)
    rw [BitMemory.bit, BitMemory.bit, List.getElem?_take_of_lt (div_lt_iceil less)]

/-! ## Tables -/

/-- The loop around an iterator is the loop over what it yields. -/
theorem whileSome_eq_forM {α σ : Type} {next : σ → Res (Option (α × σ))} {calls : Nat} {i : σ}
    {entries : List (α × σ)} (ran : iterRun next calls i = .ok entries)
    (body : α → Recreate Unit) :
    whileSome (.fault .diverges) next body calls i = (entries.map Prod.fst).forM body := by
  induction calls generalizing i entries with
  | zero => cases ran
  | succ calls ih =>
      rw [iterRun] at ran
      obtain ⟨entry, called, ran⟩ := bind_eq_ok.mp ran
      cases entry with
      | none =>
          cases ran
          exact whileSome_done called
      | some entry =>
          obtain ⟨rest, others, rfl⟩ := map_eq_ok.mp ran
          rw [whileSome_round called, List.map_cons, forM_cons_attempt, ih others]

/-- The buckets of a table that are not empty. -/
def occupiedBuckets (key : Nat → Value) (n : Nat) : List Nat :=
  (List.range n).filter fun i => (key i).type ≠ .emptySlot

theorem readItems_eq {keys : Value} {nBuckets : UInt32} {key : Nat → Value}
    (count : readerVectorNItems p keys = .ok nBuckets)
    (read : ∀ i < nBuckets.toNat, readerVectorValue p keys i = .ok (key i)) :
    readItems p keys = .ok ((List.range nBuckets.toNat).map key) := by
  rw [readItems, count, ok_bind]
  exact mapM_ok_map fun i mem => read i (List.mem_range.mp mem)

/-- The keys of a set, and the loop over them. -/
theorem OpenFile.Accepted.setKeys (accepted : p.Accepted) (reach : Reachable p v)
    (type : v.type = .setValue) :
    ∃ keys : List Value, fileNode p v = .ok (.set, keys) ∧ (∀ key ∈ keys, Reachable p key) ∧
      ∀ body : Value → Recreate Unit,
        whileSome (.fault .diverges) (readerSetIter p v) body (2 ^ 32) 0 = keys.forM body := by
  obtain ⟨nBuckets, hash, key, table, at_v, even, read⟩ := accepted.tables v reach (.inl type)
  have keyAt := read.buckets.keyAt
  obtain ⟨-, nKeys, -⟩ := even
  cases at_v with
  | map isMap =>
      rw [type] at isMap
      cases isMap
  | @set hashes keys nItems _ hashesRead keysRead itemsRead =>
      have node : fileNode p v = .ok (.set, (occupiedBuckets key nBuckets.toNat).map key) := by
        unfold fileNode
        rw [type]
        simp only [setNode, keysRead, ok_bind, readItems_eq nKeys keyAt, List.filter_map, pure_eq_ok]
        rfl
      refine ⟨_, node, ?_, fun body => ?_⟩
      · intro k mem
        obtain ⟨i, inside, rfl⟩ := List.mem_map.mp mem
        exact read.buckets.reach i (List.mem_range.mp (List.mem_filter.mp inside).1)
      · have iterates : readerSetIter p v = bucketIter nBuckets (readerVectorValue p keys) := by
          funext state
          simp only [readerSetIter, keysRead, nKeys, ok_bind]
          rfl
        have ran := bucketIter_run keyAt nBuckets.toNat_lt
        rw [← iterates] at ran
        rw [whileSome_eq_forM ran, storedEntries, List.map_map, ← List.range_eq_range']
        rfl

/-- The entries of a map, and the loop over them. -/
theorem OpenFile.Accepted.mapEntries (accepted : p.Accepted) (reach : Reachable p v)
    (type : v.type = .mapValueValue) :
    ∃ entries : List (Value × Value),
      fileNode p v = .ok (.map, entries.flatMap fun entry => [entry.1, entry.2]) ∧
      (∀ entry ∈ entries, Reachable p entry.1 ∧ Reachable p entry.2) ∧
      ∀ body : Value × Value → Recreate Unit,
        whileSome (.fault .diverges) (mapEntryNext p v) body (2 ^ 32) 0 = entries.forM body := by
  obtain ⟨nBuckets, hash, key, table, at_v, even, read⟩ := accepted.tables v reach (.inr type)
  have keyAt := read.buckets.keyAt
  obtain ⟨-, nKeys, nValues⟩ := even
  cases at_v with
  | set isSet =>
      rw [type] at isSet
      cases isSet
  | @map hashes keys values nItems _ hashesRead keysRead valuesRead itemsRead =>
      obtain ⟨_, _, values', _, -, -, valuesRead', -, -, -, valuesType, -, -, valuesReach⟩ :=
        accepted.sound.mapVectors reach type
      cases valuesRead.symm.trans valuesRead'
      obtain ⟨n, value, count, valueAt⟩ := accepted.sound.valueItems valuesReach valuesType.symm
      cases count.symm.trans (nValues values rfl)
      have node : fileNode p v = .ok (.map, ((occupiedBuckets key nBuckets.toNat).map
          fun i => (key i, value i)).flatMap fun entry => [entry.1, entry.2]) := by
        unfold fileNode
        rw [type]
        simp only [mapNode, keysRead, valuesRead, ok_bind, readItems_eq nKeys keyAt,
          readItems_eq (nValues values rfl) fun i less => (valueAt i less).1, List.zip_map',
          List.filter_map, pure_eq_ok]
        rfl
      refine ⟨_, node, ?_, fun body => ?_⟩
      · intro entry mem
        obtain ⟨i, inside, rfl⟩ := List.mem_map.mp mem
        have less := List.mem_range.mp (List.mem_filter.mp inside).1
        exact ⟨read.buckets.reach i less, (valueAt i less).2⟩
      · have ends : ∀ state : UInt32, iterLoop (readerVectorValue p keys)
            (nBuckets.toNat - state.toNat) state.toNat = .ok none →
            mapEntryNext p v state = .ok none := by
          intro state done
          simp only [mapEntryNext, readerMapIter, keysRead, valuesRead, nKeys, ok_bind, done,
            pure_eq_ok, map_ok, Option.map_none]
        have yields : ∀ state : UInt32, ∀ i < nBuckets.toNat, iterLoop (readerVectorValue p keys)
            (nBuckets.toNat - state.toNat) state.toNat = .ok (some i) →
            mapEntryNext p v state = .ok (some ((key i, value i), UInt32.ofNat (i + 1))) := by
          intro state i less found
          simp only [mapEntryNext, readerMapIter, keysRead, valuesRead, nKeys, ok_bind, found,
            keyAt i less, (valueAt i less).1, pure_eq_ok, map_ok, Option.map_some]
        have ran := iterLoop_run keyAt ends yields nBuckets.toNat_lt
        rw [whileSome_eq_forM ran, List.map_map, ← List.range_eq_range']
        rfl

end Reads

end Pointless
