import Pointless.PyView
import Pointless.EqualHash

/-!
# The hash of what is seen

The hash of a Python object and that of a value of a file are functions of their views:
a hashable value has a view, and its hash is that of the view.
-/

namespace Pointless

open ExceptRules

/-! ## The hash of a view -/

/-- The hash of a number. -/
def ViewNumber.hash : ViewNumber → UInt32
  | signed v | big v | wide v => hashInt32 v
  | unsigned v => hashInt32 v
  | float bits => hashFloat32 bits

namespace View

mutual

/-- The hash of a view without an alien in it. -/
def hash : View → UInt32
  | none => 0
  | number n => n.hash
  | text chars => textHash (untilNul chars)
  | list items => combineHashes (hashItems items)
  | alien => 0

def hashItems : List View → List UInt32
  | [] => []
  | x :: xs => hash x :: hashItems xs

end

theorem hashItems_eq (items : List View) : hashItems items = items.map hash := by
  induction items with
  | nil => rfl
  | cons x xs ih => rw [hashItems, ih, List.map_cons]

theorem hash_list (items : List View) : (list items).hash = combineHashes (items.map hash) := by
  rw [hash, hashItems_eq]

end View

/-! ## Levels -/

/-- More levels read the same view. -/
theorem readViewOver_extend {p : OpenFile} {item item' : CompleteValue → Res View}
    {c : CompleteValue} {sliceI sliceN : UInt32} {v : View}
    (more : ∀ x v, item x = .ok v → item' x = .ok v)
    (read : readViewOver p item c sliceI sliceN = .ok v) :
    readViewOver p item' c sliceI sliceN = .ok v := by
  unfold readViewOver at read ⊢
  split at read
  case h_10 =>
    split at read
    case isTrue isVector =>
      obtain ⟨items, mapped, rfl⟩ := map_eq_ok.mp read
      rw [if_pos isVector]
      refine map_eq_ok.mpr ⟨items, mapM_eq_ok.mpr ?_, rfl⟩
      refine (mapM_eq_ok.mp mapped).imp fun k x itemRead => ?_
      obtain ⟨y, valueCase, view⟩ := bind_eq_ok.mp itemRead
      exact bind_eq_ok.mpr ⟨y, valueCase, more y x view⟩
    case isFalse notVector =>
      rw [if_neg notVector]
      exact read
  all_goals exact read

theorem readViewWith_extend {p : OpenFile} {item item' : CompleteValue → Res View}
    {c : CompleteValue} {v : View} (more : ∀ x v, item x = .ok v → item' x = .ok v)
    (read : readViewWith p item c = .ok v) : readViewWith p item' c = .ok v := by
  unfold readViewWith at read ⊢
  split
  case isTrue isVector =>
    rw [if_pos isVector] at read
    obtain ⟨nItems, count, read⟩ := bind_eq_ok.mp read
    exact bind_eq_ok.mpr ⟨nItems, count, readViewOver_extend more read⟩
  case isFalse notVector =>
    rw [if_neg notVector] at read
    exact readViewOver_extend more read

theorem readView_le {p : OpenFile} {levels levels' : Nat} (enough : levels ≤ levels')
    {c : CompleteValue} {v : View} (read : readView p levels c = .ok v) :
    readView p levels' c = .ok v := by
  induction levels generalizing levels' c v with
  | zero =>
      rw [readView_eq] at read ⊢
      exact readViewWith_extend (fun _ _ bad => by cases bad) read
  | succ levels ih =>
      obtain ⟨k, rfl⟩ : ∃ k, levels' = k + 1 := ⟨levels' - 1, by omega⟩
      exact readViewWith_extend (fun x v itemRead => ih (by omega) itemRead) read

/-- A value has at most one view. -/
theorem readView_unique {p : OpenFile} {levels levels' : Nat} {c : CompleteValue} {v v' : View}
    (read : readView p levels c = .ok v) (read' : readView p levels' c = .ok v') : v = v' := by
  have left := readView_le (Nat.le_max_left levels levels') read
  have right := readView_le (Nat.le_max_right levels levels') read'
  exact Except.ok.inj (left.symm.trans right)

/-! ## Values of a file -/

/-- A number in a vector. -/
theorem complete_view {t : NumberType} (whole : t ≠ .float) (p : OpenFile) (levels : Nat) (z : Int) :
    ∃ n : ViewNumber, readView p levels (t.complete z) = .ok (.number n) ∧
      n.hash = hashInt32 z := by
  rw [readView_eq]
  cases t with
  | float => exact absurd rfl whole
  | i8 | i16 | i32 => exact ⟨_, rfl, hashInt32_completeI32 z⟩
  | u8 | u16 | u32 => exact ⟨_, rfl, hashInt32_completeU32 z⟩
  | i64 => exact ⟨_, rfl, hashInt32_completeI64 z⟩
  | u64 => exact ⟨_, rfl, hashInt32_completeU64 z⟩

theorem readView_text {p : OpenFile} {levels : Nat} {c : CompleteValue} {chars : List UInt32}
    (type : c.type = .unicode ∨ c.type = .string) (read : readText p c.toValue = .ok chars) :
    readView p levels c = .ok (.text chars) := by
  obtain ⟨t, data⟩ := c
  rw [readView_eq]
  rcases type with rfl | rfl
  · change View.text <$> readText p _ = _
    rw [read]
    rfl
  · change View.text <$> readText p _ = _
    rw [read]
    rfl

theorem readViewOver_vector {p : OpenFile} {item : CompleteValue → Res View} {c : CompleteValue}
    {sliceI sliceN : UInt32} (vector : isVectorType c.type = true) :
    readViewOver p item c sliceI sliceN = .list <$> ((List.range sliceN.toNat).mapM fun k => do
      let x ← readerVectorValueCase p c.toValue (sliceI.toNat + k)
      item x) := by
  unfold readViewOver
  split
  case h_10 => rw [if_pos vector]
  all_goals
    rename_i type
    rw [type] at vector
    cases vector

theorem View.Simple.items {items : List View} {levels : Nat} (simple : (list items).Simple levels) :
    ∀ x ∈ items, ∃ below, x.Simple below := by
  intro x mem
  cases levels with
  | zero =>
      cases simple
      cases mem
  | succ levels => exact ⟨levels, simple x mem⟩

/-- A value is seen, and its hash is that of what is seen unless it has an alien in it. -/
def Seen (p : OpenFile) (levels : Nat) (c : CompleteValue) (hash : UInt32) : Prop :=
  ∃ x, readView p levels c = .ok x ∧ ∀ n, x.Simple n → x.hash = hash

theorem Seen.alien {p : OpenFile} {levels : Nat} {c : CompleteValue} {hash : UInt32}
    (read : readView p levels c = .ok .alien) : Seen p levels c hash := by
  refine ⟨.alien, read, fun n simple => ?_⟩
  cases n <;> cases simple

section Values

variable {p : OpenFile} (sound : p.Sound)
include sound

theorem seen_text {v : Value} {levels : Nat} {hash : UInt32} (reach : Reachable p v)
    (type : v.type = .unicode ∨ v.type = .string)
    (hashed : ∀ m, readerStringUnicodeValue p v = .ok m →
      stringHash32 (stringChars v.type m) = .ok hash) : Seen p levels v.toComplete hash := by
  obtain ⟨chars, read⟩ := sound.readText reach type
  obtain ⟨m, value, before⟩ := readText_ok read
  refine ⟨.text chars, readView_text type (by rwa [Value.toValue_toComplete]), fun n _ => ?_⟩
  have same := (hashed m value).symm.trans (stringHash32_eq before)
  change textHash (untilNul chars) = hash
  rw [untilNul_beforeTerminator before]
  exact (Except.ok.inj same).symm

/-- A scalar is seen. -/
theorem seen_scalar {v : Value} {fuel levels : Nat} {hash : UInt32} (reach : Reachable p v)
    (scalar : hashFunc32 v.type ≠ some .vector)
    (hashed : hashReader32 p (fuel + 1) v = .ok hash) : Seen p levels v.toComplete hash := by
  have text := @seen_text p sound v levels hash reach
  obtain ⟨t, data⟩ := v
  cases t
  case unicode =>
    refine text (Or.inl rfl) fun m value => ?_
    obtain ⟨m', value', hash⟩ := bind_eq_ok.mp hashed
    obtain rfl : m' = m := Except.ok.inj (value'.symm.trans value)
    exact hash
  case string =>
    refine text (Or.inr rfl) fun m value => ?_
    obtain ⟨m', value', hash⟩ := bind_eq_ok.mp hashed
    obtain rfl : m' = m := Except.ok.inj (value'.symm.trans value)
    exact hash
  case i32 =>
    cases hashed
    refine ⟨.number (.signed _), by rw [readView_eq]; rfl, fun n _ => ?_⟩
    change hashInt32 (dataI32 data.toUInt64.toUInt32) = data
    rw [hashInt32_dataI32, UInt32.toUInt32_toUInt64]
  case u32 | boolean =>
    cases hashed
    refine ⟨.number (.unsigned _), by rw [readView_eq]; rfl, fun n _ => ?_⟩
    change hashInt32 data.toUInt64.toUInt32.toNat = data
    rw [hashInt32_toNat, UInt32.toUInt32_toUInt64]
  case float =>
    cases hashed
    refine ⟨.number (.float _), by rw [readView_eq]; rfl, fun n _ => ?_⟩
    change hashFloat32 data.toUInt64.toUInt32 = hashFloat32 data
    rw [UInt32.toUInt32_toUInt64]
  case null =>
    cases hashed
    exact ⟨.none, by rw [readView_eq]; rfl, fun n _ => rfl⟩
  case emptySlot | bitvector | bitvector0 | bitvector1 | bitvector01 | bitvector10
      | bitvectorPacked =>
    exact .alien (by rw [readView_eq]; rfl)
  all_goals first | exact absurd rfl scalar | cases hashed

/-- The items of a vector are seen, given that the values are. -/
theorem seen_item {v : Value} {fuel i : Nat} {n hash : UInt32} (reach : Reachable p v)
    (vector : hashFunc32 v.type = some .vector) (count : readerVectorNItems p v = .ok n)
    (less : i < n.toNat)
    (values : ∀ {item hash}, Reachable p item → hashReader32 p fuel item = .ok hash →
      Seen p fuel item.toComplete hash)
    (hashed : hashReaderVectorItem (hashReader32 p fuel) p v i = .ok hash) :
    ∃ y, readerVectorValueCase p v i = .ok y ∧ Seen p fuel y hash := by
  have typed : ∀ t : NumberType, t ≠ .float → v.type = t.vectorType →
      ∃ y, readerVectorValueCase p v i = .ok y ∧ Seen p fuel y hash := by
    intro t whole type
    rw [hashReaderVectorItem_typed whole type] at hashed
    obtain ⟨z, number, rfl⟩ := map_eq_ok.mp hashed
    obtain ⟨x, view, same⟩ := complete_view whole p fuel z
    rw [readerVectorValueCase_typed whole type, number]
    exact ⟨_, rfl, .number x, view, fun _ _ => same⟩
  cases type : v.type
  case vectorValueHashable =>
    unfold hashReaderVectorItem at hashed
    simp only [type] at hashed
    obtain ⟨item, read, hashed⟩ := bind_eq_ok.mp hashed
    have isItem : HashItem p v item := ⟨type, n, i, count, less, read⟩
    refine ⟨item.toComplete, ?_, values (isItem.reachable sound reach) hashed⟩
    unfold readerVectorValueCase
    simp only [type, read, map_ok]
  case vectorFloat =>
    unfold hashReaderVectorItem at hashed
    simp only [type] at hashed
    obtain ⟨bits, read, rfl⟩ := map_eq_ok.mp hashed
    refine ⟨completeFloat bits, ?_, .number (.float bits), ?_, fun _ _ => rfl⟩
    · unfold readerVectorValueCase
      simp only [type, read, map_ok]
    · rw [readView_eq]
      change Except.ok (View.number (.float bits.toUInt64.toUInt32)) = _
      rw [UInt32.toUInt32_toUInt64]
  case vectorEmpty =>
    rw [readerVectorNItems, if_pos type] at count
    cases count
    exact absurd less (Nat.not_lt_zero i)
  case vectorI8 => exact typed .i8 NumberType.noConfusion type
  case vectorU8 => exact typed .u8 NumberType.noConfusion type
  case vectorI16 => exact typed .i16 NumberType.noConfusion type
  case vectorU16 => exact typed .u16 NumberType.noConfusion type
  case vectorI32 => exact typed .i32 NumberType.noConfusion type
  case vectorU32 => exact typed .u32 NumberType.noConfusion type
  case vectorI64 => exact typed .i64 NumberType.noConfusion type
  case vectorU64 => exact typed .u64 NumberType.noConfusion type
  all_goals
    rw [type] at vector
    cases vector

/-- A vector is seen when its items are. -/
theorem seen_vector {v : Value} {fuel : Nat} {hash : UInt32} (reach : Reachable p v)
    (vector : hashFunc32 v.type = some .vector)
    (values : ∀ {item hash}, Reachable p item → hashReader32 p fuel item = .ok hash →
      Seen p fuel item.toComplete hash)
    (hashed : hashReader32 p (fuel + 1) v = .ok hash) : Seen p (fuel + 1) v.toComplete hash := by
  have isVector : isVectorType v.type = true := by
    cases type : v.type <;> rw [type] at vector <;> first | rfl | cases vector
  rw [hashReader32, vector] at hashed
  obtain ⟨n, count, hashed⟩ := bind_eq_ok.mp hashed
  rw [hashReaderVector32Priv, UInt32.add_zero] at hashed
  change vectorHash32 n (List.range' 0 n.toNat) _ = _ at hashed
  rw [← List.range_eq_range'] at hashed
  have each : ∀ i < n.toNat, ∃ y h, readerVectorValueCase p v i = .ok y ∧ Seen p fuel y h ∧
      hashReaderVectorItem (hashReader32 p fuel) p v i = .ok h := by
    intro i less
    obtain ⟨s, loop, -⟩ := bind_eq_ok.mp hashed
    obtain ⟨s', s'', step⟩ := foldlM_ok_mem loop (List.mem_range.mpr less)
    obtain ⟨h, item, -⟩ := map_eq_ok.mp step
    obtain ⟨y, valueCase, seen⟩ := seen_item sound reach vector count less values item
    exact ⟨y, h, valueCase, seen, item⟩
  obtain ⟨items, mapped⟩ : ∃ items, ((List.range n.toNat).mapM fun k => do
      let x ← readerVectorValueCase p v ((0 : UInt32).toNat + k)
      readView p fuel x) = .ok items := by
    refine exists_mapM_ok fun k mem => ?_
    obtain ⟨y, h, valueCase, ⟨x, view, -⟩, -⟩ := each k (List.mem_range.mp mem)
    refine ⟨x, bind_eq_ok.mpr ⟨y, ?_, view⟩⟩
    rwa [show (0 : UInt32).toNat = 0 from rfl, Nat.zero_add]
  refine ⟨.list items, ?_, fun levels simple => ?_⟩
  · have isVector' : isVectorType v.toComplete.type = true := isVector
    rw [readView, readViewWith, if_pos isVector', Value.toValue_toComplete, count, ok_bind]
    change readViewOver p (readView p fuel) v.toComplete 0 n = _
    rw [readViewOver_vector isVector', Value.toValue_toComplete, mapped]
    rfl
  · have hashes : List.Forall₂ (fun i h => hashReaderVectorItem (hashReader32 p fuel) p v i = .ok h)
        (List.range n.toNat) (items.map View.hash) := by
      rw [List.forall₂_map_right_iff]
      refine List.forall₂_iff_get.mpr ⟨(mapM_eq_ok.mp mapped).length_eq, fun k less less' => ?_⟩
      have read := (List.forall₂_iff_get.mp (mapM_eq_ok.mp mapped)).2 k less less'
      rw [List.length_range] at less
      rw [List.get_eq_getElem, List.getElem_range, show (0 : UInt32).toNat = 0 from rfl,
        Nat.zero_add] at read
      rw [List.get_eq_getElem, List.getElem_range]
      obtain ⟨y, h, valueCase, ⟨x, view, same⟩, hash⟩ := each k less
      rw [valueCase, ok_bind] at read
      obtain rfl := readView_unique view read
      obtain ⟨below, simple⟩ := simple.items _ (List.getElem_mem less')
      rw [hash, ← same below simple]
    have size : n = UInt32.ofNat (items.map View.hash).length := by
      rw [← hashes.length_eq, List.length_range, UInt32.ofNat_toNat]
    have combined := vectorHash32_eq hashes
    rw [← size, hashed] at combined
    rw [View.hash_list]
    exact (Except.ok.inj combined).symm

/-- A value that has a hash is seen. -/
theorem hash_seen {v : Value} {fuel : Nat} {hash : UInt32} (reach : Reachable p v)
    (hashed : hashReader32 p fuel v = .ok hash) : Seen p fuel v.toComplete hash := by
  induction fuel generalizing v hash with
  | zero => cases hashed
  | succ fuel ih =>
      by_cases vector : hashFunc32 v.type = some .vector
      · exact seen_vector sound reach vector ih hashed
      · exact seen_scalar sound reach vector hashed

end Values

end Pointless
