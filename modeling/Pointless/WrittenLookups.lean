import Pointless.StringLookup
import Pointless.TablesChecked

/-!
# Lookups in written files

A key that a set or map of a create-time state has is found in the file that is written for it,
with the value that it was put in with, and a key that it does not have is not.
-/

namespace Pointless

open ByteMemory Deciding ExceptRules Lexicographic OpenAddressing

variable {c m : Create} {fuel : Nat} {file : List UInt8} {p : Prepared} {f : OpenFile}
  {handle slot h : UInt32} {t : TableParts} {hashVector : List UInt32} {buckets : Buckets}
  {k gap : Nat} {place : Nat → Nat} {value : Value} {found : Table}

/-! ## The path of a hash -/

section Table

variable (table : TableBack p f t hashVector buckets slot k place)

include table

/-- A bucket has a key exactly if one has been put there. -/
theorem TableBack.occupied_iff {b : Nat} (less : b < 2 ^ k) :
    (readAt p (buckets.keys.getD b slot)).type ≠ .emptySlot ↔ ∃ i < t.keys.length, place i = b := by
  rcases table.placed.bucket less with ⟨i, key, hash, here, at_i, -, isKey, -⟩ | ⟨unused, isSlot, -⟩
  · rw [isKey]
    have inside := (List.getElem?_eq_some_iff.mp at_i).1
    exact iff_of_true (table.notSlot key (List.mem_of_getElem? at_i)) ⟨i, inside, here⟩
  · rw [isSlot, readAt_eq table.slot]
    exact iff_of_false (not_not_intro rfl) fun ⟨i, inside, here⟩ => unused i inside here

theorem TableBack.pathRead (reads : BucketsFound p f buckets slot k found) (h : UInt32) :
    ∃ gap, PathRead (UInt32.ofNat (2 ^ k)) (hashVectorAt f found.hashes)
      (readerVectorValue f found.keys) (fun b => buckets.hash.getD b 0)
      (fun b => readAt p (buckets.keys.getD b slot)) h gap := by
  have bound := table.placed.bound
  rcases exists_free place table.placed.room with ⟨b, inside, unused⟩
  have isFree : (readAt p (buckets.keys.getD b slot)).type = .emptySlot := by
    by_contra occupied
    rcases (table.occupied_iff inside).mp occupied with ⟨i, less, here⟩
    exact unused i less here
  rcases (probePath_covers bound).first
      (fun b => (readAt p (buckets.keys.getD b slot)).type = .emptySlot) inside isFree h with
    ⟨gap, -, isEmpty, before⟩
  exact ⟨gap, fun d => reads.hashAt _ (probePath_lt bound h d),
    fun d => reads.keyAt _ (probePath_lt bound h d), isEmpty, before⟩

/-- The buckets on the path of a hash are those of the keys that have it. -/
theorem TableBack.mem_hashBuckets (path : PathRead (UInt32.ofNat (2 ^ k))
      (hashVectorAt f found.hashes) (readerVectorValue f found.keys)
      (fun b => buckets.hash.getD b 0) (fun b => readAt p (buckets.keys.getD b slot)) h gap)
    {b : Nat} :
    b ∈ hashBuckets (UInt32.ofNat (2 ^ k)) (fun b => buckets.hash.getD b 0) h gap ↔
      ∃ i key, place i = b ∧ t.keys[i]? = some key ∧ hashVector[i]? = some h ∧
        buckets.keys.getD b slot = key := by
  have bound := table.placed.bound
  simp only [hashBuckets, List.mem_map, List.mem_filter, List.mem_range'_1, decide_eq_true_eq]
  constructor
  · rintro ⟨d, ⟨⟨-, before⟩, same⟩, rfl⟩
    have less := probePath_lt bound h d
    rcases table.placed.bucket less with
      ⟨i, key, hash, here, at_i, at_i', isKey, isHash⟩ | ⟨-, isSlot, -⟩
    · cases isHash.symm.trans same
      exact ⟨i, key, here, at_i, at_i', isKey⟩
    · have occupied := path.occupied d (by omega)
      rw [isSlot, readAt_eq table.slot] at occupied
      exact absurd rfl occupied
  · rintro ⟨i, key, rfl, at_i, at_i', -⟩
    have less := (List.getElem?_eq_some_iff.mp at_i).1
    have isHash : hashVector.getD i 0 = h := by
      rw [List.getD_eq_getElem?_getD, at_i']
      rfl
    have free : ∀ j < t.keys.length,
        place j ≠ probePath (UInt32.ofNat (2 ^ k)) (hashVector.getD i 0) gap := by
      intro j inside here
      rw [isHash] at here
      exact (table.occupied_iff (probePath_lt bound h gap)).mpr ⟨j, inside, here⟩ path.isEmpty
    rcases table.placed.table.before_free less free with ⟨d, before, here, -⟩
    rw [isHash] at here
    refine ⟨d, ⟨⟨Nat.zero_le d, by omega⟩, ?_⟩, here⟩
    rw [here, List.getD_eq_getElem?_getD, table.placed.hash at_i']
    rfl

end Table

/-! ## The search of a map -/

/-- The search of a written map finds the value of a key of the hash that the test holds for. -/
theorem TableRound.finds
    (round : TableRound fuel c m p f t hashVector buckets slot k place value found)
    (isMap : value.type = .mapValueValue) {values : List UInt32} (isValues : t.values = some values)
    (paired : values.length = t.keys.length) {cbK : Value → Res Bool} {holds : UInt32 → Prop}
    (answers : ∀ (i : Nat) (key : UInt32), t.keys[i]? = some key → hashVector[i]? = some h →
      Answers (cbK (readAt p key)) (holds key)) :
    ∃ out, EventuallyReturns (fun fuel => getMap f fuel value h cbK getValue) out ∧
      (out = none → ∀ (i : Nat) (key : UInt32), t.keys[i]? = some key → hashVector[i]? = some h →
        ¬holds key) ∧
      ∀ w, out = some w → ∃ (i : Nat) (key x : UInt32), t.keys[i]? = some key ∧ hashVector[i]? = some h ∧
        values[i]? = some x ∧ holds key ∧ w = readAt p x := by
  rcases round.back.pathRead round.buckets h with ⟨gap, path⟩
  have size := toNat_two_pow round.back.placed.bound
  have inside (d : Nat) : probePath (UInt32.ofNat (2 ^ k)) h d < (UInt32.ofNat (2 ^ k)).toNat := by
    rw [size]
    exact probePath_lt round.back.placed.bound h d
  have buckets_ := @TableBack.mem_hashBuckets _ _ _ _ _ _ _ _ _ _ _ round.back path
  rcases isStored : buckets.values with _ | stored
  · rw [round.back.placed.isFilled, filled, isValues] at isStored
    cases isStored
  have valueAt : ∀ b < (UInt32.ofNat (2 ^ k)).toNat,
      MapValueAt f value b (readAt p (stored.getD b slot)) := by
    intro b less
    rw [size] at less
    generalize isFound : found = found' at *
    cases round.parts.isTable with
    | set isSet => cases isMap.symm.trans isSet
    | map _ _ _ valuesRead _ =>
        rcases round.buckets.valueAt _ rfl with ⟨stored', same, each⟩
        cases isStored.symm.trans same
        exact ⟨_, valuesRead, each b less⟩
  have tests : ∀ b ∈ hashBuckets (UInt32.ofNat (2 ^ k)) (fun b => buckets.hash.getD b 0) h gap,
      Answers (cbK (readAt p (buckets.keys.getD b slot))) (holds (buckets.keys.getD b slot)) := by
    intro b mem
    rcases buckets_.mp mem with ⟨i, key, -, at_i, at_i', isKey⟩
    rw [isKey]
    exact answers i key at_i at_i'
  rcases @search_ok _ _ (fun b => cbK (readAt p (buckets.keys.getD b slot)))
    (fun b => readAt p (stored.getD b slot)) _ _ tests with ⟨out, searched, missed, taken⟩
  refine ⟨out, ⟨gap + 1, fun more le => ?_⟩, fun none_ i key at_i at_i' => ?_, fun w isOut => ?_⟩
  · exact (getMap_eq isMap round.parts.isTable round.buckets.even inside path valueAt le cbK
      getValue).trans searched
  · have isKey : buckets.keys.getD (place i) slot = key := by
      rw [List.getD_eq_getElem?_getD, round.back.placed.key at_i]
      rfl
    have mem := buckets_.mpr ⟨i, key, rfl, at_i, at_i', isKey⟩
    have nothing := missed none_ _ mem
    rwa [isKey] at nothing
  · rcases taken w isOut with ⟨b, mem, has, rfl⟩
    rcases buckets_.mp mem with ⟨i, key, rfl, at_i, at_i', isKey⟩
    have less := (List.getElem?_eq_some_iff.mp at_i).1
    have at_x := List.getElem?_eq_getElem (show i < values.length by rwa [paired])
    refine ⟨i, key, _, at_i, at_i', at_x, isKey ▸ has, ?_⟩
    rw [List.getD_eq_getElem?_getD, round.back.placed.value isValues isStored less at_x]
    rfl

/-! ## Texts and integers as nodes -/

/-- A label that is neither of characters nor of an integer. -/
def NodeLabel.Other (label : NodeLabel) : Prop :=
  (∀ chars, label ≠ .text chars) ∧ ∀ n, label ≠ .int n

theorem numbersLabel_other (t : NumberType) (words : List Nat) : (numbersLabel t words).Other := by
  rw [numbersLabel]
  split
  · exact ⟨fun _ => NodeLabel.noConfusion, fun _ => NodeLabel.noConfusion⟩
  · split
    all_goals exact ⟨fun _ => NodeLabel.noConfusion, fun _ => NodeLabel.noConfusion⟩

theorem createVectorNode_other {v : CreateValue} {label : NodeLabel} {children : List UInt32}
    (read : createVectorNode c v = .ok (label, children)) : label.Other := by
  rw [createVectorNode] at read
  split at read
  · rcases bind_eq_ok.mp read with ⟨vector, -, same⟩
    cases same
    exact ⟨fun _ => NodeLabel.noConfusion, fun _ => NodeLabel.noConfusion⟩
  · rcases bind_eq_ok.mp read with ⟨vector, -, same⟩
    cases same
    exact ⟨fun _ => NodeLabel.noConfusion, fun _ => NodeLabel.noConfusion⟩
  · split at read
    all_goals
      rcases bind_eq_ok.mp read with ⟨vector, -, same⟩
      cases same
      exact numbersLabel_other _ _
  · cases read
    exact ⟨fun _ => NodeLabel.noConfusion, fun _ => NodeLabel.noConfusion⟩
  · cases read

/-- Only a string is a node of characters, and only an integer that of an integer. -/
theorem label_cases {v : CreateValue} {label : NodeLabel} {children : List UInt32}
    (read : createValueNode c v = .ok (label, children)) :
    (v.type = .string ∨ v.type = .unicode) ∨ plainLabel v.type v.data = some label ∨
      label.Other := by
  unfold createValueNode at read
  cases type : v.type
  all_goals rw [type] at read
  case string => exact Or.inl (Or.inl rfl)
  case unicode => exact Or.inl (Or.inr rfl)
  case setValue | mapValueValue =>
    rcases bind_eq_ok.mp read with ⟨_, -, same⟩
    cases same
    exact Or.inr (Or.inr ⟨nofun, nofun⟩)
  case bitvector | bitvector0 | bitvector1 | bitvector01 | bitvector10 | bitvectorPacked =>
    rcases bind_eq_ok.mp read with ⟨_, -, later⟩
    rcases bind_eq_ok.mp later with ⟨_, -, same⟩
    cases same
    exact Or.inr (Or.inr ⟨nofun, nofun⟩)
  case null | emptySlot | boolean | i32 | u32 | float =>
    cases read
    exact Or.inr (Or.inl rfl)
  all_goals first | exact Or.inr (Or.inr (createVectorNode_other read)) | cases read

/-- What is not a vector has become what it was. -/
theorem Becomes.same_of {arrays : List Dynarray} {v w : CreateValue} (becomes : Becomes c arrays v w)
    (other : w.heapPool ≠ some .priv) (full : w.type ≠ .vectorEmpty) : w = v := by
  cases becomes with
  | same => rfl
  | emptied => exact absurd rfl full
  | @numbers t => exact absurd (pool_number t _ _ _) other
  | handles isValue =>
      rcases isValue with rfl | rfl
      all_goals exact absurd rfl other
  | @compressed t => exact absurd (pool_number t _ _ _) other
  | table isVector isType =>
      rcases isType with rfl | ⟨-, rfl⟩
      · rcases isVector with rfl | ⟨t, rfl⟩
        · exact absurd rfl other
        · exact absurd (pool_number t _ _ _) other
      · exact absurd rfl other

/-- A node that has no children and is not a vector has no vectors below it. -/
theorem fullBelow_leaf {label : NodeLabel} (read : handleNode c handle = .ok (label, []))
    (other : label ≠ .vector) : FullBelow c handle := by
  intro under below isEmpty
  cases below.cases_head with
  | inl same =>
      subst same
      cases read.symm.trans isEmpty
      exact other rfl
  | inr further =>
      rcases further with ⟨child, ⟨label', children, read', mem⟩, -⟩
      cases read.symm.trans read'
      cases mem

/-! ## Texts -/

theorem text_of_type {v : CreateValue} (fits : v.Fits c)
    (isText : v.type = .string ∨ v.type = .unicode) :
    ∃ type d chars, v = .plain type d ∧ IsText type chars ∧
      c.stringUnicodeValues[d.toNat]? = some (textBuffer type chars) := by
  cases fits with
  | @inline type d inline =>
      rcases isText with type | type
      all_goals
        cases type
        exact inline.elim
  | text isText' item => exact ⟨_, _, _, rfl, isText', item⟩
  | bits | set | map =>
      rcases isText with bad | bad
      all_goals cases bad
  | vector isVector =>
      rcases isVector with rfl | ⟨t, rfl⟩
      · rcases isText with bad | bad
        all_goals cases bad
      · cases t
        all_goals
          rcases isText with bad | bad
          all_goals cases bad
  | @owned t =>
      cases t
      all_goals
        rcases isText with bad | bad
        all_goals cases bad

/-- A node of characters is a text. -/
theorem type_of_textNode {v : CreateValue} {chars : List Nat} {children : List UInt32}
    (read : createValueNode c v = .ok (.text chars, children)) :
    v.type = .string ∨ v.type = .unicode := by
  rcases label_cases read with isText | plain | other
  · exact isText
  · unfold plainLabel at plain
    cases type : v.type
    all_goals
      rw [type] at plain
      cases plain
  · exact absurd rfl (other.1 chars)

theorem handleNode_text {key d : UInt32} {type : ValueType} {chars : List Nat}
    (short : ShortTexts c) (at_h : c.values[key.toNat]? = some (.plain type d))
    (isText : IsText type chars)
    (item : c.stringUnicodeValues[d.toNat]? = some (textBuffer type chars)) :
    handleNode c key = .ok (.text chars, []) := by
  have fits := short type chars (List.mem_of_getElem? item)
  exact (handleNode_eq at_h).trans (createValueNode_text isText.1 item
    ((textOf_textBuffer_iff isText).mpr (by omega)))

section Keys

variable (back : ReadsBack fuel c p f) (fit : CountsFit c)

include back fit

/-- The characters of a handle that is written as a text. -/
theorem ReadsBack.textAt {key : UInt32} (isHandle : IsHandle c key)
    (isText : (readAt p key).type = .unicode ∨ (readAt p key).type = .string) :
    ∃ type d chars, c.values[key.toNat]? = some (.plain type d) ∧ IsText type chars ∧
      c.stringUnicodeValues[d.toNat]? = some (textBuffer type chars) ∧
      readText f (readAt p key) = .ok (chars.map UInt32.ofNat) := by
  rcases isHandle with ⟨v, at_h, -⟩
  rcases back.prepares.value at_h with ⟨w, at_w, at_c, becomes⟩
  have mem := List.mem_of_getElem? at_w
  rw [readAt_eq at_c] at isText ⊢
  change w.type = _ ∨ w.type = _ at isText
  have same : w = v := by
    refine becomes.same_of (fun bad => ?_) fun bad => ?_
    · rw [CreateValue.heapPool, CreateValue.pool] at bad
      rcases isText with type | type
      all_goals
        rw [type] at bad
        cases bad
    · rcases isText with type | type
      all_goals cases type.symm.trans bad
  subst same
  rcases text_of_type (back.shaped.fits _ w at_h) isText.symm with
    ⟨type, d, chars, rfl, isText', item⟩
  rcases back.text mem isText'.1 (fit.texts type chars (List.mem_of_getElem? item)) item with
    ⟨rest, read⟩
  exact ⟨type, d, chars, at_h, isText', item, readText_written isText' rfl read⟩

/-- What has a node of characters is a text. -/
theorem ReadsBack.textOf {key : UInt32} {chars : List Nat} (isHandle : IsHandle c key)
    (node : handleNode c key = .ok (.text chars, [])) :
    ∃ type d, c.values[key.toNat]? = some (.plain type d) ∧ IsText type chars ∧
      c.stringUnicodeValues[d.toNat]? = some (textBuffer type chars) ∧
      p.values[key.toNat]? = some (.plain type d) ∧
      p.c.values[key.toNat]? = some (.plain type d) := by
  rcases isHandle with ⟨v, at_h, -⟩
  rcases back.prepares.value at_h with ⟨w, at_w, at_c, becomes⟩
  rcases text_of_type (back.shaped.fits _ v at_h)
    (type_of_textNode ((handleNode_eq at_h).symm.trans node)) with
    ⟨type, d, chars', rfl, isText, item⟩
  have other : (CreateValue.plain type d).pool ≠ some .priv := by
    rcases isText.1 with rfl | rfl
    all_goals nofun
  cases becomes.kept other
  cases (handleNode_text fit.texts at_h isText item).symm.trans node
  exact ⟨type, d, at_h, isText, item, at_w, at_c⟩

/-- A text is written as a text of its characters, and nothing else is. -/
theorem ReadsBack.keyText {key : UInt32} (isHandle : IsHandle c key) {chars : List UInt32} :
    KeyText f (readAt p key) chars ↔
      handleNode c key = .ok (.text (chars.map UInt32.toNat), []) := by
  constructor
  · rintro ⟨isText, read⟩
    rcases back.textAt fit isHandle isText with ⟨type, d, chars', at_h, isText', item, read'⟩
    cases read'.symm.trans read
    rw [isText'.toNat]
    exact handleNode_text fit.texts at_h isText' item
  · intro node
    rcases back.textOf fit isHandle node with ⟨type, d, at_h, isText, item, -, at_c⟩
    have isText' : (readAt p key).type = .unicode ∨ (readAt p key).type = .string := by
      rw [readAt_eq at_c]
      exact isText.1.symm
    rcases back.textAt fit isHandle isText' with ⟨type', d', chars', at_h', isText', item', read⟩
    cases at_h.symm.trans at_h'
    cases (handleNode_text fit.texts at_h' isText' item').symm.trans node
    refine ⟨‹_›, read.trans ?_⟩
    rw [List.map_map]
    refine congrArg Except.ok ((List.map_congr_left fun x _ => ?_).trans (List.map_id chars))
    exact UInt32.ofNat_toNat

end Keys

/-! ## Keys that are told apart -/

/-- No two keys of a table that have one hash compare as equal. -/
theorem TableMade.apart (made : TableMade fuel c m p t hashVector k) {i j : Nat} {key key' : UInt32}
    (before : i < j) (at_i : t.keys[i]? = some key) (at_j : t.keys[j]? = some key')
    (at_i' : hashVector[i]? = some h) (at_j' : hashVector[j]? = some h) :
    cmpCreate m key key' ≠ .ok 0 := by
  intro equal
  have less := (List.getElem?_eq_some_iff.mp at_j).1
  have round := forM_eq_ok.mp made.compared j (List.mem_range.mpr less)
  have pair := forM_eq_ok.mp round i (List.mem_range.mpr before)
  rw [List.getD_eq_getElem?_getD, List.getD_eq_getElem?_getD, List.getD_eq_getElem?_getD,
    List.getD_eq_getElem?_getD, at_i, at_j, at_i', at_j', if_pos rfl] at pair
  rcases bind_eq_ok.mp pair with ⟨x, compared, apart⟩
  cases equal.symm.trans compared
  cases apart

/-- Two keys of one text compare as equal. -/
theorem cmpCreate_text {key key' d d' : UInt32} {type type' : ValueType} {chars : List Nat}
    (found : cvValueAt m key = .ok (.plain type d)) (found' : cvValueAt m key' = .ok (.plain type' d'))
    (isText : IsText type chars) (isText' : IsText type' chars)
    (item : m.stringUnicodeValues[d.toNat]? = some (textBuffer type chars))
    (item' : m.stringUnicodeValues[d'.toNat]? = some (textBuffer type' chars)) :
    cmpCreate m key key' = .ok 0 := by
  have shown (type : ValueType) : (textBuffer type chars).drop 4
      = ((chars ++ [0]).map (encode (charWidth type))).flatten ++ [] := by
    rw [List.append_nil, textBuffer, stringUnicodeBuffer, ← length_bytesU32, List.drop_left]
  have text := beforeTerminator_text isText []
  have text' := beforeTerminator_text isText' []
  rw [← shown] at text text'
  have buffer : List.drop 4 <$> cvGetStringUnicode m (.plain type d)
      = .ok ((textBuffer type chars).drop 4) := map_eq_ok.mpr ⟨_, itemAt_eq_ok.mpr item, rfl⟩
  have buffer' : List.drop 4 <$> cvGetStringUnicode m (.plain type' d')
      = .ok ((textBuffer type' chars).drop 4) := map_eq_ok.mpr ⟨_, itemAt_eq_ok.mpr item', rfl⟩
  have step : cmpCreateRecPriv m (maxDepth + 1) (CreateValue.plain type d).toComplete
      (CreateValue.plain type' d').toComplete 0
      = cmpStringUnicode type type' (List.drop 4 <$> cvGetStringUnicode m (.plain type d))
        (List.drop 4 <$> cvGetStringUnicode m (.plain type' d')) := by
    simp only [cmpCreateRecPriv, CreateValue.toCreateValue_toComplete]
    rcases isText.1 with rfl | rfl
    all_goals
      rcases isText'.1 with rfl | rfl
      all_goals rfl
  rw [cmpCreate, found, ok_bind, found', ok_bind, step, buffer, buffer', cmpStringUnicode,
    if_pos ⟨isText.1.symm, isText'.1.symm⟩]
  change cmpString _ _ = _
  rw [cmpString_eq text text', lex_simpleCmp_eq_zero.mpr rfl]

section Round

variable (back : ReadsBack fuel c p f) (fit : CountsFit c)
  (round : TableRound fuel c m p f t hashVector buckets slot k place value found)

include back fit round

/-- A key that is no vector is stored with the hash that a reader has for it. -/
theorem TableRound.leafHash {i : Nat} {key : UInt32} {label : NodeLabel}
    (at_i : t.keys[i]? = some key) (read : handleNode c key = .ok (label, []))
    (other : label ≠ .vector) : ∃ hash, hashVector[i]? = some hash ∧
      isHashable (readAt p key).type = true ∧ hashReader32 f fuel (readAt p key) = .ok hash := by
  have less := (List.getElem?_eq_some_iff.mp at_i).1
  rw [← round.back.placed.hashes] at less
  have at_i' := List.getElem?_eq_getElem less
  have isHandle := round.shape.keys key (List.mem_of_getElem? at_i)
  exact ⟨_, at_i', back.keyHash fit round.made round.countFits at_i at_i' isHandle
    (fullBelow_leaf read other)⟩

theorem TableRound.textHash {i : Nat} {key : UInt32} {chars : List UInt32}
    (at_i : t.keys[i]? = some key)
    (read : handleNode c key = .ok (.text (chars.map UInt32.toNat), [])) :
    hashVector[i]? = some (Pointless.textHash chars) := by
  rcases round.leafHash back fit at_i read nofun with ⟨hash, at_i', -, hashed⟩
  have text := (back.keyText fit (round.shape.keys key (List.mem_of_getElem? at_i))).mpr read
  rcases fuel with _ | fuel
  · cases hashed
  · cases hashed.symm.trans (text.hash fuel)
    exact at_i'

/-- A table has one key of a text at most. -/
theorem TableRound.textUnique {i j : Nat} {key key' : UInt32} {chars : List UInt32}
    (at_i : t.keys[i]? = some key) (at_j : t.keys[j]? = some key')
    (read : handleNode c key = .ok (.text (chars.map UInt32.toNat), []))
    (read' : handleNode c key' = .ok (.text (chars.map UInt32.toNat), [])) : ¬i < j := by
  intro before
  have isHandle := round.shape.keys key (List.mem_of_getElem? at_i)
  have isHandle' := round.shape.keys key' (List.mem_of_getElem? at_j)
  rcases back.textOf fit isHandle read with ⟨type, d, -, isText, item, at_w, -⟩
  rcases back.textOf fit isHandle' read' with ⟨type', d', -, isText', item', at_w', -⟩
  have texts : m.stringUnicodeValues = c.stringUnicodeValues := by
    rw [round.made.mid.others]
  rw [← texts] at item item'
  have found := round.made.mid.values _ _ at_w
  have found' := round.made.mid.values _ _ at_w'
  exact round.made.apart before at_i at_j (round.textHash back fit at_i read)
    (round.textHash back fit at_j read')
    (cmpCreate_text (itemAt_eq_ok.mpr found) (itemAt_eq_ok.mpr found') isText isText' item item')

end Round

/-- What is found of a map, and how it was made. -/
theorem ReadsBack.mapRound (back : ReadsBack fuel c p f) (fit : CountsFit c) {v : CreateValue}
    {map : CreateMap} (at_h : c.values[handle.toNat]? = some v) (isMap : v.type = .mapValueValue)
    (isEntry : cvGetMap c v = .ok map) :
    ∃ m hashVector buckets slot k place found, createToReadValue p handle = .ok (readOf p v) ∧
      map.values.length = map.keys.length ∧
      TableRound fuel c m p f ⟨map.keys, some map.values, map.serializeHash, map.serializeKeys,
        some map.serializeValues⟩ hashVector buckets slot k place (readOf p v) found := by
  have parts : tableParts c v = .ok ⟨map.keys, some map.values, map.serializeHash,
      map.serializeKeys, some map.serializeValues⟩ := by
    rw [tableParts, isMap]
    exact bind_eq_ok.mpr ⟨map, isEntry, rfl⟩
  rcases back.round fit at_h parts with
    ⟨m, hashVector, buckets, slot, k, place, found, isRead, round⟩
  exact ⟨m, hashVector, buckets, slot, k, place, found, isRead, tablePaired back.wf parts _ rfl,
    round⟩

/-! ## A written map -/

/-- A map of "A" to 7 and of 7 to "A". -/
def crossMap : Create :=
  { createBegin64 with
    root := 5
    cache := createCacheSetU32 (createCacheInit createValueFail) 7 1
    values := [.plain .string 0, .plain .u32 7, ⟨.vectorU32, false, true, false, 0⟩,
      ⟨.vectorValue, false, true, false, 1⟩, ⟨.vectorValue, false, true, false, 2⟩,
      .plain .mapValueValue 0]
    privVectorValues := [⟨4, []⟩, ⟨4, []⟩, ⟨4, []⟩]
    mapValues := [⟨[0, 1], [1, 0], 2, 3, 4⟩]
    stringUnicodeValues := [[1, 0, 0, 0, 65, 0]]
    stringUnicodeMapJudy := [([1, 0, 0, 0, 65, 0], 0)]
    stringUnicodeMapJudyCount := 1 }

theorem crossMap_reachable : CreateReachable crossMap := by
  have text := @CreateReachable.call _ _ (.stringAscii [65, 0]) _ .begin64 (.tail _ (.head _)) rfl
    (by decide)
  have seven := @CreateReachable.call _ _ (.u32 7) _ text trivial rfl (by decide)
  have map := @CreateReachable.call _ _ .map _ seven trivial rfl (by decide)
  have add := @CreateReachable.call _ _ (.mapAdd 5 0 1) _ map
    ⟨⟨_, rfl, rfl, rfl⟩, ⟨_, rfl, rfl⟩, _, rfl, rfl⟩ rfl (by decide)
  have add' := @CreateReachable.call _ _ (.mapAdd 5 1 0) _ add
    ⟨⟨_, rfl, rfl, rfl⟩, ⟨_, rfl, rfl⟩, _, rfl, rfl⟩ rfl (by decide)
  exact @CreateReachable.call _ _ (.setRoot 5) _ add' ⟨_, rfl, rfl⟩ rfl (by decide)

theorem crossMap_parts {v : CreateValue} {t : TableParts} (mem : v ∈ crossMap.values)
    (parts : tableParts crossMap v = .ok t) : t = ⟨[0, 1], some [1, 0], 2, 3, some 4⟩ := by
  simp only [crossMap, List.mem_cons, List.not_mem_nil, or_false] at mem
  rcases mem with rfl | rfl | rfl | rfl | rfl | rfl
  all_goals
    cases parts
  rfl

theorem crossMap_fits : CountsFit crossMap := by
  refine ⟨fun type chars mem => ?_, fun array mem => ?_, fun v t mem parts => ?_⟩
  · exact oneStringSet_fits.texts type chars mem
  · simp only [crossMap, List.mem_cons, List.not_mem_nil, or_false, or_self] at mem
    rw [mem]
    decide
  · cases crossMap_parts mem parts
    decide

theorem crossMap_narrow : NarrowVectors crossMap := by
  have objects : (writtenObjects crossMap).dropLast = [.plain .string 0,
      ⟨.vectorU32, false, true, false, 0⟩, ⟨.vectorValue, false, true, false, 1⟩,
      ⟨.vectorValue, false, true, false, 2⟩] := by decide
  constructor
  · intro v mem n bytes
    rw [objects] at mem
    simp only [List.mem_cons, List.not_mem_nil, or_false] at mem
    rcases mem with rfl | rfl | rfl | rfl
    all_goals
      cases bytes
      decide
  · rintro n ⟨v, mem, t, nBuckets, parts, computed, rfl⟩
    cases crossMap_parts mem parts
    cases computed
    decide

/-- The file of a map of "A" to 7 and of 7 to "A". -/
def crossFile : List UInt8 :=
  bytesValue ⟨.mapValueValue, 0⟩ ++ bytesU32 1 ++ bytesU32 3 ++ bytesU32 0 ++ bytesU32 0 ++
    bytesU32 1 ++ bytesU32 2 ++ bytesU64 0 ++ bytesU64 8 ++ bytesU64 28 ++ bytesU64 64 ++
    bytesU64 100 ++
    bytesU32 1 ++ [65, 0, 0, 0] ++
    bytesU32 4 ++ bytesU32 4025057728 ++ bytesU32 0 ++ bytesU32 0 ++ bytesU32 7 ++
    bytesU32 4 ++ bytesValue ⟨.string, 0⟩ ++ bytesValue ⟨.emptySlot, 0⟩ ++
    bytesValue ⟨.emptySlot, 0⟩ ++ bytesValue ⟨.u32, 7⟩ ++
    bytesU32 4 ++ bytesValue ⟨.u32, 7⟩ ++ bytesValue ⟨.emptySlot, 0⟩ ++
    bytesValue ⟨.emptySlot, 0⟩ ++ bytesValue ⟨.string, 0⟩ ++
    bytesU32 2 ++ bytesU32 0 ++ bytesValue ⟨.vectorU32, 0⟩ ++
    bytesValue ⟨.vectorValueHashable, 1⟩ ++ bytesValue ⟨.vectorValueHashable, 2⟩

set_option maxRecDepth 4000 in
theorem output_crossMap : createOutputAndEndB 4 crossMap = .ok crossFile := by cbv

/-! ## The lookup of a string -/

/-- In the file that is written for a state, a map has the value of every key that is a string,
and has no value for any other string. -/
theorem written_findsString (reachable : CreateReachable c) (fit : CountsFit c)
    (narrow : NarrowVectors c) (done : createOutputAndEndB fuel c = .ok file) :
    ∃ p f, prepare fuel c = .ok p ∧ init file = .ok (f, none) ∧
      ∀ (handle : UInt32) (v : CreateValue) (map : CreateMap),
        c.values[handle.toNat]? = some v → v.type = .mapValueValue → cvGetMap c v = .ok map →
        ∃ value, createToReadValue p handle = .ok value ∧
          ∀ (bytes : List UInt8) (chars : List UInt32),
            beforeTerminator (chars8 bytes) = some chars →
            ∃ out, EventuallyReturns (fun fuel => getMappingStringToValue f fuel value bytes) out ∧
              (∀ (i : Nat) (key x : UInt32), map.keys[i]? = some key → map.values[i]? = some x →
                handleNode c key = .ok (.text (chars.map UInt32.toNat), []) →
                ∃ w, createToReadValue p x = .ok w ∧ out = some w) ∧
              ((∀ key ∈ map.keys,
                handleNode c key ≠ .ok (.text (chars.map UInt32.toNat), [])) → out = none) := by
  rcases readsBack_of_narrow reachable narrow done with ⟨p, f, prepared, opened, back⟩
  refine ⟨p, f, prepared, opened, fun handle v map at_h isMap isEntry => ?_⟩
  rcases back.mapRound fit at_h isMap isEntry with
    ⟨m, hashVector, buckets, slot, k, place, found, isRead, paired, round⟩
  refine ⟨_, isRead, fun bytes chars text => ?_⟩
  have answers : ∀ (i : Nat) (key : UInt32), map.keys[i]? = some key →
      hashVector[i]? = some (textHash chars) → Answers (checkString f bytes (readAt p key))
        (handleNode c key = .ok (.text (chars.map UInt32.toNat), [])) := by
    intro i key at_i _
    have isHandle := round.shape.keys key (List.mem_of_getElem? at_i)
    rw [← back.keyText fit isHandle]
    refine checkChars_answers (fun isText => ?_) fun bytes' as before => cmpString_eq before text
    rcases back.textAt fit isHandle isText with ⟨-, -, chars', -, -, -, read⟩
    exact ⟨_, read⟩
  rcases round.finds isMap rfl paired answers with ⟨out, ⟨enough, returned⟩, missed, taken⟩
  refine ⟨out, ⟨enough, fun more le => ?_⟩, fun i key x at_i at_x read => ?_, fun nothing => ?_⟩
  · change getMappingStringToValue f more _ bytes = _
    rw [getMappingStringToValue, hashStringV132, stringHash32_eq text, ok_bind]
    exact returned more le
  · rcases out with _ | w
    · exact absurd read (missed rfl i key at_i (round.textHash back fit at_i read))
    · rcases taken w rfl with ⟨j, key', x', at_j, -, at_x', read', same⟩
      have here : i = j := by
        have below := round.textUnique back fit at_i at_j read read'
        have above := round.textUnique back fit at_j at_i read' read
        omega
      subst here
      cases Option.some.inj (at_x.symm.trans at_x')
      have isHandle := round.shape.values _ rfl x (List.mem_of_getElem? at_x)
      exact ⟨w, same ▸ (back.prepares.readsAs isHandle).2, rfl⟩
  · rcases out with _ | w
    · rfl
    · rcases taken w rfl with ⟨j, key, -, at_j, -, -, read, -⟩
      exact absurd read (nothing key (List.mem_of_getElem? at_j))

theorem written_findsString_crossMap :
    ∃ p f, prepare 4 crossMap = .ok p ∧ init crossFile = .ok (f, none) ∧
      ∀ (handle : UInt32) (v : CreateValue) (map : CreateMap),
        crossMap.values[handle.toNat]? = some v → v.type = .mapValueValue →
        cvGetMap crossMap v = .ok map →
        ∃ value, createToReadValue p handle = .ok value ∧
          ∀ (bytes : List UInt8) (chars : List UInt32),
            beforeTerminator (chars8 bytes) = some chars →
            ∃ out, EventuallyReturns (fun fuel => getMappingStringToValue f fuel value bytes) out ∧
              (∀ (i : Nat) (key x : UInt32), map.keys[i]? = some key → map.values[i]? = some x →
                handleNode crossMap key = .ok (.text (chars.map UInt32.toNat), []) →
                ∃ w, createToReadValue p x = .ok w ∧ out = some w) ∧
              ((∀ key ∈ map.keys, handleNode crossMap key
                ≠ .ok (.text (chars.map UInt32.toNat), [])) → out = none) :=
  written_findsString crossMap_reachable crossMap_fits crossMap_narrow output_crossMap

/-! ## Integers -/

/-- A value of one of the types that integers are looked up in has no flags. -/
theorem plain_of_int {v : CreateValue} (fits : v.Fits c) (isInt : v.type = .i32 ∨ v.type = .u32) :
    v = .plain v.type v.data := by
  cases fits with
  | inline | text | bits | set | map => rfl
  | vector isVector =>
      rcases isInt with bad | bad
      all_goals
        rcases isVector with rfl | ⟨t, rfl⟩
        · cases bad
        · cases t
          all_goals cases bad
  | @owned t =>
      rcases isInt with bad | bad
      all_goals
        cases t
        all_goals cases bad

theorem plainLabel_isInt {type : ValueType} {data : UInt32} {n : Int} :
    plainLabel type data = some (.int n) ↔ (⟨type, data⟩ : Value).IsInt n := by
  rw [Value.IsInt]
  cases type
  case i32 | u32 => simp [plainLabel]
  all_goals simp [plainLabel]

/-- What has a node of an integer is an integer, and is kept. -/
theorem ReadsBack.intOf (back : ReadsBack fuel c p f) {key : UInt32} {n : Int}
    (isHandle : IsHandle c key) (node : handleNode c key = .ok (.int n, [])) :
    ∃ type d, (⟨type, d⟩ : Value).IsInt n ∧ p.values[key.toNat]? = some (.plain type d) ∧
      p.c.values[key.toNat]? = some (.plain type d) := by
  rcases isHandle with ⟨v, at_h, -⟩
  rcases back.prepares.value at_h with ⟨w, at_w, at_c, becomes⟩
  replace node := (handleNode_eq at_h).symm.trans node
  have label : plainLabel v.type v.data = some (.int n) := by
    rcases label_cases node with isText | label | other
    · unfold createValueNode at node
      rcases isText with type | type
      all_goals
        rw [type] at node
        rcases bind_eq_ok.mp node with ⟨_, -, same⟩
        cases same
    · exact label
    · exact absurd rfl (other.2 n)
  have pool := pool_of_label label
  cases becomes.kept (by rw [pool]; nofun)
  have isInt := plainLabel_isInt.mp label
  have isType : v.type = .i32 ∨ v.type = .u32 := isInt.imp And.left And.left
  rw [plain_of_int (back.shaped.fits _ v at_h) isType] at at_w at_c
  exact ⟨v.type, v.data, isInt, at_w, at_c⟩

/-- An integer is written as that integer, and nothing else is. -/
theorem ReadsBack.keyInt (back : ReadsBack fuel c p f) {key : UInt32} (isHandle : IsHandle c key)
    {n : Int} : (readAt p key).IsInt n ↔ handleNode c key = .ok (.int n, []) := by
  constructor
  · rcases isHandle with ⟨v, at_h, -⟩
    rcases back.prepares.value at_h with ⟨w, at_w, at_c, becomes⟩
    rw [readAt_eq at_c, handleNode_eq at_h]
    intro isInt
    have isType : w.type = .i32 ∨ w.type = .u32 := isInt.imp And.left And.left
    have same : w = v := by
      refine becomes.same_of (fun bad => ?_) fun bad => ?_
      · rw [CreateValue.heapPool, CreateValue.pool] at bad
        rcases isType with type | type
        all_goals
          rw [type] at bad
          cases bad
      · rcases isType with type | type
        all_goals cases type.symm.trans bad
    subst same
    rw [plain_of_int (back.shaped.fits _ w at_h) isType] at isInt
    exact createValueNode_label (plainLabel_isInt.mpr isInt)
  · intro node
    rcases back.intOf isHandle node with ⟨type, d, isInt, -, at_c⟩
    rw [readAt_eq at_c]
    exact isInt

/-- Two keys of one integer compare as equal. -/
theorem cmpCreate_int (f : OpenFile) {key key' d d' : UInt32} {type type' : ValueType} {n : Int}
    (found : cvValueAt m key = .ok (.plain type d)) (found' : cvValueAt m key' = .ok (.plain type' d'))
    (isInt : (⟨type, d⟩ : Value).IsInt n) (isInt' : (⟨type', d'⟩ : Value).IsInt n) :
    cmpCreate m key key' = .ok 0 := by
  rcases keyEquals_eq_ok.mp (isInt.keyEquals isInt' f) with ⟨x, compared, zero⟩
  cases of_decide_eq_true zero
  rw [cmpCreate, found, ok_bind, found', ok_bind, ← compared]
  rcases isInt.imp And.left And.left with type | type
  all_goals
    cases type
    rcases isInt'.imp And.left And.left with type' | type'
    all_goals
      cases type'
      rfl

section Round

variable (back : ReadsBack fuel c p f) (fit : CountsFit c)
  (round : TableRound fuel c m p f t hashVector buckets slot k place value found)

include back fit round

theorem TableRound.intHash {i : Nat} {key : UInt32} {n : Int} (at_i : t.keys[i]? = some key)
    (read : handleNode c key = .ok (.int n, [])) : hashVector[i]? = some (hashInt32 n) := by
  rcases round.leafHash back fit at_i read nofun with ⟨hash, at_i', -, hashed⟩
  have isInt := (back.keyInt (round.shape.keys key (List.mem_of_getElem? at_i))).mpr read
  rcases fuel with _ | fuel
  · cases hashed
  · cases hashed.symm.trans (isInt.hash f fuel)
    exact at_i'

/-- A table has one key of an integer at most. -/
theorem TableRound.intUnique {i j : Nat} {key key' : UInt32} {n : Int}
    (at_i : t.keys[i]? = some key) (at_j : t.keys[j]? = some key')
    (read : handleNode c key = .ok (.int n, []))
    (read' : handleNode c key' = .ok (.int n, [])) : ¬i < j := by
  intro before
  have isHandle := round.shape.keys key (List.mem_of_getElem? at_i)
  have isHandle' := round.shape.keys key' (List.mem_of_getElem? at_j)
  rcases back.intOf isHandle read with ⟨type, d, isInt, at_w, -⟩
  rcases back.intOf isHandle' read' with ⟨type', d', isInt', at_w', -⟩
  have found := itemAt_eq_ok.mpr (round.made.mid.values _ _ at_w)
  have found' := itemAt_eq_ok.mpr (round.made.mid.values _ _ at_w')
  exact round.made.apart before at_i at_j (round.intHash back fit at_i read)
    (round.intHash back fit at_j read') (cmpCreate_int f found found' isInt isInt')

end Round

/-- In the file that is written for a state, a map has the value of every key that is an integer,
but for the two whose 32 bits are all ones, and has no value for any other integer. -/
theorem written_findsInt (reachable : CreateReachable c) (fit : CountsFit c)
    (narrow : NarrowVectors c) (done : createOutputAndEndB fuel c = .ok file) :
    ∃ p f, prepare fuel c = .ok p ∧ init file = .ok (f, none) ∧
      ∀ (handle : UInt32) (v : CreateValue) (map : CreateMap),
        c.values[handle.toNat]? = some v → v.type = .mapValueValue → cvGetMap c v = .ok map →
        ∃ value, createToReadValue p handle = .ok value ∧ ∀ n : Int,
          ∃ out, EventuallyReturns (fun fuel => getMappingIntToValue f fuel value n) out ∧
            (∀ (i : Nat) (key x : UInt32), map.keys[i]? = some key → map.values[i]? = some x →
              handleNode c key = .ok (.int n, []) → n ≠ -1 → n ≠ 2 ^ 32 - 1 →
              ∃ w, createToReadValue p x = .ok w ∧ out = some w) ∧
            ((∀ key ∈ map.keys, handleNode c key ≠ .ok (.int n, [])) ∨ n = -1 ∨ n = 2 ^ 32 - 1 →
              out = none) := by
  rcases readsBack_of_narrow reachable narrow done with ⟨p, f, prepared, opened, back⟩
  refine ⟨p, f, prepared, opened, fun handle v map at_h isMap isEntry => ?_⟩
  rcases back.mapRound fit at_h isMap isEntry with
    ⟨m, hashVector, buckets, slot, k, place, found, isRead, paired, round⟩
  refine ⟨_, isRead, fun n => ?_⟩
  have isInt {i : Nat} {key : UInt32} (at_i : map.keys[i]? = some key) :=
    @ReadsBack.keyInt _ _ _ _ back _ (round.shape.keys key (List.mem_of_getElem? at_i)) n
  have answers : ∀ (i : Nat) (key : UInt32), map.keys[i]? = some key →
      hashVector[i]? = some (hashI6432 n) →
      Answers (checkI64 n (readAt p key)) (handleNode c key = .ok (.int n, [])) := by
    intro i key at_i at_i'
    rw [← isInt at_i]
    refine checkI64_answers ?_
    have isHandle := round.shape.keys key (List.mem_of_getElem? at_i)
    rcases back.keyMade round.made round.countFits at_i at_i' isHandle with
      ⟨-, w, -, -, -, isRead', hashable, -⟩
    rw [isRead']
    exact hashable
  rcases round.finds isMap rfl paired answers with ⟨out, returns, missed, taken⟩
  refine ⟨out, returns, fun i key x at_i at_x read low high => ?_, fun nothing => ?_⟩
  · have hash := round.intHash back fit at_i read
    rw [((isInt at_i).mpr read).hashI64.mpr ⟨low, high⟩] at hash
    rcases out with _ | w
    · exact absurd read (missed rfl i key at_i hash)
    · rcases taken w rfl with ⟨j, key', x', at_j, -, at_x', read', same⟩
      have here : i = j := by
        have below := round.intUnique back fit at_i at_j read read'
        have above := round.intUnique back fit at_j at_i read' read
        omega
      subst here
      cases Option.some.inj (at_x.symm.trans at_x')
      have isHandle := round.shape.values _ rfl x (List.mem_of_getElem? at_x)
      exact ⟨w, same ▸ (back.prepares.readsAs isHandle).2, rfl⟩
  · rcases out with _ | w
    · rfl
    · rcases taken w rfl with ⟨j, key, -, at_j, hash, -, read, -⟩
      rcases nothing with none_ | ones
      · exact absurd read (none_ key (List.mem_of_getElem? at_j))
      · have same := Option.some.inj ((round.intHash back fit at_j read).symm.trans hash)
        have apart := ((isInt at_j).mpr read).hashI64.mp same
        rcases ones with low | high
        · exact absurd low apart.1
        · exact absurd high apart.2

theorem written_findsInt_crossMap :
    ∃ p f, prepare 4 crossMap = .ok p ∧ init crossFile = .ok (f, none) ∧
      ∀ (handle : UInt32) (v : CreateValue) (map : CreateMap),
        crossMap.values[handle.toNat]? = some v → v.type = .mapValueValue →
        cvGetMap crossMap v = .ok map →
        ∃ value, createToReadValue p handle = .ok value ∧ ∀ n : Int,
          ∃ out, EventuallyReturns (fun fuel => getMappingIntToValue f fuel value n) out ∧
            (∀ (i : Nat) (key x : UInt32), map.keys[i]? = some key → map.values[i]? = some x →
              handleNode crossMap key = .ok (.int n, []) → n ≠ -1 → n ≠ 2 ^ 32 - 1 →
              ∃ w, createToReadValue p x = .ok w ∧ out = some w) ∧
            ((∀ key ∈ map.keys, handleNode crossMap key ≠ .ok (.int n, [])) ∨ n = -1 ∨
              n = 2 ^ 32 - 1 → out = none) :=
  written_findsInt crossMap_reachable crossMap_fits crossMap_narrow output_crossMap

end Pointless
