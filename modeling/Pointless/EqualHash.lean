import Pointless.HashSound
import Pointless.TreeRead
import Pointless.VectorHash

/-!
# Equal values have equal hashes

Two values that compare as equal are one plain value, however they are encoded, and
the hash of a hashable value is a function of the plain value.
-/

namespace Pointless

open ExceptRules

/-! ## The hash of a plain value -/

namespace Plain

mutual

/-- The hash of a value without its type tags. -/
def hash : Plain → UInt32
  | null => 0
  | emptySlot => 0
  | int v => hashInt32 v
  | text chars => textHash chars
  | seq items => combineHashes (hashItems items)

def hashItems : List Plain → List UInt32
  | [] => []
  | x :: xs => hash x :: hashItems xs

end

theorem hashItems_eq (items : List Plain) : hashItems items = items.map hash := by
  induction items with
  | nil => rfl
  | cons x xs ih => rw [hashItems, ih, List.map_cons]

theorem hash_seq (items : List Plain) : (seq items).hash = combineHashes (items.map hash) := by
  rw [hash, hashItems_eq]

end Plain

/-- A hashable value of a file with only nulls, booleans, 32-bit integers, strings,
vectors of integers, empty vectors, and vectors of such values. -/
inductive PlainHashable (p : OpenFile) : Value → Prop
  | scalar {v} (type : v.type = .null ∨ v.type = .boolean ∨ v.type = .i32 ∨ v.type = .u32 ∨
      v.type = .string ∨ v.type = .unicode) : PlainHashable p v
  | numbers {v} {t : NumberType} (whole : t ≠ .float) (type : v.type = t.vectorType) :
      PlainHashable p v
  | empty {v} (type : v.type = .vectorEmpty) : PlainHashable p v
  | values {v} (type : v.type = .vectorValueHashable)
      (items : ∀ n i item, readerVectorNItems p v = .ok n → i < n.toNat →
        readerVectorValue p v i = .ok item → PlainHashable p item) : PlainHashable p v

/-! ## Numbers in vectors -/

/-- An item of a vector, as `pointless_reader_vector_value_case` has it. -/
def NumberType.complete : NumberType → Int → CompleteValue
  | i8 | i16 | i32 => completeI32
  | u8 | u16 | u32 => completeU32
  | i64 => completeI64
  | u64 => completeU64
  | float => fun bits => completeFloat (UInt32.ofInt bits)

theorem readerVectorValueCase_typed {p : OpenFile} {v : Value} {t : NumberType} (whole : t ≠ .float)
    (type : v.type = t.vectorType) (i : Nat) :
    readerVectorValueCase p v i = t.complete <$> t.toInt <$> readerVectorWord p v t.size i := by
  rw [readerVectorValueCase, type]
  cases t with
  | float => exact absurd rfl whole
  | _ => rfl

/-- The items of a vector keep their low halves. -/
theorem complete_tree {t : NumberType} (whole : t ≠ .float) (p : OpenFile)
    (item : CompleteValue → Res Tree) (z : Int) :
    ∃ x, readTreeOver p item (t.complete z) = .ok x ∧ x.erase.hash = hashInt32 z := by
  cases t with
  | float => exact absurd rfl whole
  | i8 | i16 | i32 => exact ⟨_, rfl, hashInt32_completeI32 z⟩
  | u8 | u16 | u32 => exact ⟨_, rfl, hashInt32_completeU32 z⟩
  | i64 => exact ⟨_, rfl, hashInt32_completeI64 z⟩
  | u64 => exact ⟨_, rfl, hashInt32_completeU64 z⟩

/-! ## The hash of a tree -/

/-- More levels read the same tree. -/
theorem readTreeOver_extend {p : OpenFile} {item item' : CompleteValue → Res Tree}
    {c : CompleteValue} {t : Tree} (more : ∀ x t, item x = .ok t → item' x = .ok t)
    (read : readTreeOver p item c = .ok t) : readTreeOver p item' c = .ok t := by
  cases tag : vectorTag c.type with
  | none =>
      have same : readTreeOver p item c = readTreeOver p item' c := by
        unfold readTreeOver
        split
        case h_10 => rw [tag]
        all_goals rfl
      rwa [← same]
  | some tag' =>
      rw [readTreeOver_vector tag] at read ⊢
      obtain ⟨n, count, read⟩ := bind_eq_ok.mp read
      obtain ⟨items, mapped, read⟩ := bind_eq_ok.mp read
      rw [count, ok_bind]
      refine bind_eq_ok.mpr ⟨items, mapM_eq_ok.mpr ?_, read⟩
      refine (mapM_eq_ok.mp mapped).imp fun i x itemRead => ?_
      obtain ⟨y, valueCase, tree⟩ := bind_eq_ok.mp itemRead
      exact bind_eq_ok.mpr ⟨y, valueCase, more y x tree⟩

theorem readTree_le {p : OpenFile} {levels levels' : Nat} (enough : levels ≤ levels')
    {c : CompleteValue} {t : Tree} (read : readTree p levels c = .ok t) :
    readTree p levels' c = .ok t := by
  induction levels generalizing levels' c t with
  | zero =>
      rw [readTree_eq] at read ⊢
      exact readTreeOver_extend (fun _ _ bad => by cases bad) read
  | succ levels ih =>
      rw [readTree_eq] at read ⊢
      refine readTreeOver_extend (fun x t itemRead => ?_) read
      obtain ⟨k, rfl⟩ : ∃ k, levels' = k + 1 := ⟨levels' - 1, by omega⟩
      exact ih (by omega) itemRead

/-- The hash of a vector is that of its tree, when the hashes of its items are. -/
theorem hashReader32_vector {p : OpenFile} {fuel : Nat} {v : Value} {tag : VectorTag}
    {item : CompleteValue → Res Tree} {items : List Tree}
    (func : hashFunc32 v.type = some .vector)
    (read : readTreeOver p item v.toComplete = .ok (.vector tag items))
    (each : ∀ n i y x, readerVectorNItems p v = .ok n → i < n.toNat →
      readerVectorValueCase p v i = .ok y → item y = .ok x →
      hashReaderVectorItem (hashReader32 p fuel) p v i = .ok x.erase.hash) :
    hashReader32 p (fuel + 1) v = .ok (Tree.vector tag items).erase.hash := by
  obtain ⟨-, -, n, count, itemsRead⟩ := readTreeOver_ok read
  rw [Value.toValue_toComplete] at count itemsRead
  have length : items.length = n.toNat := by rw [← itemsRead.length_eq, List.length_range]
  have size : n = UInt32.ofNat (items.map fun x => x.erase.hash).length := by
    rw [List.length_map, length, UInt32.ofNat_toNat]
  have hashes : List.Forall₂ (fun i h => hashReaderVectorItem (hashReader32 p fuel) p v i = .ok h)
      (List.range n.toNat) (items.map fun x => x.erase.hash) := by
    rw [List.forall₂_map_right_iff]
    refine List.forall₂_iff_get.mpr ⟨itemsRead.length_eq, fun k less less' => ?_⟩
    obtain ⟨y, valueCase, tree⟩ := (List.forall₂_iff_get.mp itemsRead).2 k less less'
    rw [List.length_range] at less
    rw [List.get_eq_getElem, List.getElem_range] at valueCase ⊢
    exact each n k y _ count less valueCase tree
  have hash := vectorHash32_eq hashes
  rw [← size] at hash
  rw [hashReader32, func]
  simp only [count, ok_bind]
  rw [hashReaderVector32Priv, UInt32.add_zero, Tree.erase_vector, Plain.hash_seq,
    List.map_map]
  change vectorHash32 n (List.range' 0 n.toNat) _ = _
  rw [← List.range_eq_range', hash]
  rfl

section Hashing

variable {p : OpenFile} (sound : p.Sound)
include sound

theorem scalar_tree_hash {v : Value} (reach : Reachable p v)
    (type : v.type = .null ∨ v.type = .boolean ∨ v.type = .i32 ∨ v.type = .u32 ∨
      v.type = .string ∨ v.type = .unicode) :
    ∃ t, readTree p 0 v.toComplete = .ok t ∧ hashReader32 p 1 v = .ok t.erase.hash := by
  have text : v.type = .unicode ∨ v.type = .string → ∃ m chars,
      readerStringUnicodeValue p v = .ok m ∧ readText p v = .ok chars ∧
      stringHash32 (stringChars v.type m) = .ok (textHash chars) := by
    intro isText
    obtain ⟨chars, read⟩ := sound.readText reach isText
    obtain ⟨m, value, before⟩ := readText_ok read
    exact ⟨m, chars, value, read, stringHash32_eq before⟩
  obtain ⟨t, data⟩ := v
  rcases type with rfl | rfl | rfl | rfl | rfl | rfl
  · exact ⟨.null, rfl, rfl⟩
  · refine ⟨_, rfl, ?_⟩
    change Except.ok data = .ok (hashInt32 data.toUInt64.toUInt32.toNat)
    rw [hashInt32_toNat, UInt32.toUInt32_toUInt64]
  · refine ⟨_, rfl, ?_⟩
    change Except.ok data = .ok (hashInt32 (dataI32 data.toUInt64.toUInt32))
    rw [hashInt32_dataI32, UInt32.toUInt32_toUInt64]
  · refine ⟨_, rfl, ?_⟩
    change Except.ok data = .ok (hashInt32 data.toUInt64.toUInt32.toNat)
    rw [hashInt32_toNat, UInt32.toUInt32_toUInt64]
  · obtain ⟨m, chars, value, read, hash⟩ := text (Or.inr rfl)
    refine ⟨.text .string chars, ?_, ?_⟩
    · change Tree.text .string <$> readText p (Value.toComplete _).toValue = _
      rw [Value.toValue_toComplete, read]
      rfl
    · change (do
        let s ← readerStringUnicodeValue p ⟨.string, data⟩
        hashStringV132 s) = _
      rw [value]
      exact hash
  · obtain ⟨m, chars, value, read, hash⟩ := text (Or.inl rfl)
    refine ⟨.text .unicode chars, ?_, ?_⟩
    · change Tree.text .unicode <$> readText p (Value.toComplete _).toValue = _
      rw [Value.toValue_toComplete, read]
      rfl
    · change (do
        let s ← readerStringUnicodeValue p ⟨.unicode, data⟩
        hashUnicodeUcs4V132 s) = _
      rw [value]
      exact hash

/-- The hash of a value is that of the plain value it stands for. -/
theorem PlainHashable.tree_hash {v : Value} (plain : PlainHashable p v) (reach : Reachable p v) :
    ∃ levels t, readTree p levels v.toComplete = .ok t ∧
      hashReader32 p (levels + 1) v = .ok t.erase.hash := by
  induction plain with
  | scalar type =>
      obtain ⟨t, read, hash⟩ := scalar_tree_hash sound reach type
      exact ⟨0, t, read, hash⟩
  | @numbers v t whole type =>
      have vector : isVectorType v.type = true := by rw [type]; cases t <;> rfl
      have func : hashFunc32 v.type = some .vector := by rw [type]; cases t <;> rfl
      have caseEq := readerVectorValueCase_typed (p := p) whole type
      obtain ⟨tag, items, read⟩ := @OpenFile.Sound.readVectorTree p sound (readTree p 0)
        v.toComplete (by rwa [Value.toValue_toComplete]) vector
        fun n i x count less valueCase _ => by
          rw [Value.toValue_toComplete, caseEq] at valueCase
          obtain ⟨z, -, rfl⟩ := map_eq_ok.mp valueCase
          obtain ⟨tree, readItem, -⟩ := complete_tree whole p
            (fun _ => fail "nested too deeply") z
          exact ⟨tree, readItem⟩
      refine ⟨1, _, read, hashReader32_vector func read fun _ i y x _ _ valueCase tree => ?_⟩
      rw [caseEq] at valueCase
      obtain ⟨z, word, rfl⟩ := map_eq_ok.mp valueCase
      obtain ⟨tree', readItem, hash⟩ := complete_tree whole p (fun _ => fail "nested too deeply") z
      obtain rfl : tree' = x := Except.ok.inj (readItem.symm.trans tree)
      rw [hashReaderVectorItem_typed whole type, word, map_ok, hash]
  | @empty v type =>
      have vector : isVectorType v.type = true := by rw [type]; rfl
      have func : hashFunc32 v.type = some .vector := by rw [type]; rfl
      obtain ⟨tag, items, read⟩ := @OpenFile.Sound.readVectorTree p sound
        (fun _ => fail "nested too deeply") v.toComplete (by rwa [Value.toValue_toComplete]) vector
        fun n i x count less _ _ => by
          rw [Value.toValue_toComplete, readerVectorNItems, if_pos type] at count
          cases count
          exact absurd less (Nat.not_lt_zero i)
      exact ⟨0, _, read, hashReader32_vector func read fun _ _ _ _ _ _ _ bad => by cases bad⟩
  | @values v type items ih =>
      have vector : isVectorType v.type = true := by rw [type]; rfl
      have func : hashFunc32 v.type = some .vector := by rw [type]; rfl
      have caseEq : ∀ i, readerVectorValueCase p v i =
          Value.toComplete <$> readerVectorValue p v i := by
        intro i
        rw [readerVectorValueCase, type]
      have found : ∀ item, ∃ levels, HashItem p v item → ∃ t,
          readTree p levels item.toComplete = .ok t ∧
            hashReader32 p (levels + 1) item = .ok t.erase.hash := by
        intro item
        by_cases isItem : HashItem p v item
        · obtain ⟨-, n, i, count, less, value⟩ := id isItem
          obtain ⟨levels, found⟩ := ih n i item count less value (isItem.reachable sound reach)
          exact ⟨levels, fun _ => found⟩
        · exact ⟨0, fun bad => absurd bad isItem⟩
      choose levelsOf trees using found
      -- there are finitely many values, so that one number of levels is enough for all
      obtain ⟨levels, enough⟩ := (Set.finite_range levelsOf).bddAbove
      have tree : ∀ item, HashItem p v item → ∃ t, readTree p levels item.toComplete = .ok t ∧
          hashReader32 p (levels + 1) item = .ok t.erase.hash := by
        intro item isItem
        obtain ⟨t, read, hash⟩ := trees item isItem
        have below := enough (Set.mem_range_self item)
        exact ⟨t, readTree_le below read, hashReader32_le (by omega) hash⟩
      obtain ⟨tag, items, read⟩ := @OpenFile.Sound.readVectorTree p sound (readTree p levels)
        v.toComplete (by rwa [Value.toValue_toComplete]) vector
        fun n i x count less valueCase _ => by
          rw [Value.toValue_toComplete] at count valueCase
          rw [caseEq] at valueCase
          obtain ⟨item, value, rfl⟩ := map_eq_ok.mp valueCase
          obtain ⟨t, read, -⟩ := tree item ⟨type, n, i, count, less, value⟩
          exact ⟨t, read⟩
      refine ⟨levels + 1, _, read,
        hashReader32_vector func read fun n i y x count less valueCase itemTree => ?_⟩
      rw [caseEq] at valueCase
      obtain ⟨item, value, rfl⟩ := map_eq_ok.mp valueCase
      obtain ⟨t, itemRead, hash⟩ := tree item ⟨type, n, i, count, less, value⟩
      obtain rfl : t = x := Except.ok.inj (itemRead.symm.trans itemTree)
      unfold hashReaderVectorItem
      simp only [type, value, ok_bind, hash]

end Hashing

/-- Values of accepted files that compare as equal have one hash. -/
theorem equal_hash {bufA bufB : List UInt8} {fuelA fuelB : Nat} {pA pB : OpenFile}
    {errorA errorB : Option String} {a b : Value}
    (openedA : openB fuelA bufA = .ok (pA, errorA)) (openedB : openB fuelB bufB = .ok (pB, errorB))
    (reachA : Reachable pA a) (reachB : Reachable pB b) (plainA : PlainHashable pA a)
    (plainB : PlainHashable pB b) (equal : cmpReader pA a.toComplete pB b.toComplete = .ok 0) :
    ∃ hash fuel₀, ∀ fuel ≥ fuel₀, hashReader32 pA fuel a = .ok hash ∧
      hashReader32 pB fuel b = .ok hash := by
  obtain ⟨levelsA, ta, readA, hashA⟩ := plainA.tree_hash (openB_sound openedA) reachA
  obtain ⟨levelsB, tb, readB, hashB⟩ := plainB.tree_hash (openB_sound openedB) reachB
  have compared : (0 : Int) = ta.cmp tb := (cmpReaderRec_tree readA readB).of_ok equal
  have same : ta.erase = tb.erase := Tree.cmp_eq_zero.mp compared.symm
  refine ⟨ta.erase.hash, max (levelsA + 1) (levelsB + 1), fun fuel enough => ⟨?_, ?_⟩⟩
  · exact hashReader32_le (by omega) hashA
  · rw [same]
    exact hashReader32_le (by omega) hashB

/-- The integer 1 as the only item of a signed and of an unsigned vector. -/
theorem equal_hash_one : ∃ hash fuel₀, ∀ fuel ≥ fuel₀,
    hashReader32 (oneItemOpened .vectorI64 [1, 0, 0, 0, 0, 0, 0, 0]) fuel ⟨.vectorI64, 0⟩ =
        .ok hash ∧
      hashReader32 (oneItemOpened .vectorU64 [1, 0, 0, 0, 0, 0, 0, 0]) fuel ⟨.vectorU64, 0⟩ =
        .ok hash :=
  equal_hash (openB_oneItemFile (t := .i64) (Or.inl rfl) 1 0 0 0 0 0 0 0)
    (openB_oneItemFile (t := .u64) (Or.inr rfl) 1 0 0 0 0 0 0 0) .refl .refl
    (.numbers (t := .i64) NumberType.noConfusion rfl)
    (.numbers (t := .u64) NumberType.noConfusion rfl) (by decide)

end Pointless
