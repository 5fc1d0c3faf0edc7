import Pointless.CompareSound
import Pointless.TreeOrder

/-!
# Reading trees

`readTree` reads the tree of a value out of an opened file, down to a number of
levels of nesting. The comparison and the hash of the code are functions of the
trees of their operands.
-/

namespace Pointless

open ByteMemory ExceptRules Lexicographic

/-! ## Strings -/

/-- The characters before the terminator, where there is one. -/
def beforeTerminator : List UInt32 → Option (List UInt32)
  | [] => none
  | c :: rest => if c = 0 then some [] else (c :: ·) <$> beforeTerminator rest

/-- The hash of a string of characters. -/
def textHash (chars : List UInt32) : UInt32 :=
  chars.foldl (fun (x : UInt32) c => (1000003 * x) ^^^ c) (chars.headD 0 <<< 7) ^^^
    UInt32.ofNat chars.length

theorem beforeTerminator_cons {c : UInt32} {rest chars : List UInt32}
    (text : beforeTerminator (c :: rest) = some chars) :
    c = 0 ∧ chars = [] ∨ c ≠ 0 ∧ ∃ tail, beforeTerminator rest = some tail ∧ chars = c :: tail := by
  rw [beforeTerminator] at text
  split at text
  case isTrue zero =>
    cases text
    exact Or.inl ⟨zero, rfl⟩
  case isFalse nonzero =>
    obtain ⟨tail, before, rfl⟩ := Option.map_eq_some_iff.mp text
    exact Or.inr ⟨nonzero, tail, before, rfl⟩

theorem Terminated.beforeTerminator {m : List UInt32} {n : Nat} (terminated : Terminated m n) :
    ∃ chars, beforeTerminator m = some chars := by
  induction m generalizing n with
  | nil => cases terminated.terminator
  | cons c rest ih =>
      rw [Pointless.beforeTerminator]
      split
      case isTrue => exact ⟨[], rfl⟩
      case isFalse nonzero =>
        obtain ⟨k, -, rest'⟩ := terminated.tail nonzero
        obtain ⟨chars, before⟩ := ih rest'
        exact ⟨c :: chars, by rw [before]; rfl⟩

theorem lex_simpleCmp_eq_zero {as bs : List UInt32} : lex simpleCmp as bs = 0 ↔ as = bs := by
  rw [lex_eq_zero]
  simp only [simpleCmp_eq_zero, List.forall₂_eq_eq_eq]

/-- The terminator makes a shorter string less, as it is less than any character. -/
theorem cmpString_eq {a b as bs : List UInt32} (textA : beforeTerminator a = some as)
    (textB : beforeTerminator b = some bs) : cmpString a b = .ok (lex simpleCmp as bs) := by
  have positive : ∀ {c : UInt32}, c ≠ 0 → 0 < c.toNat := by
    intro c nonzero
    exact Nat.pos_of_ne_zero fun zero => nonzero (UInt32.toNat_inj.mp zero)
  induction a generalizing b as bs with
  | nil => cases textA
  | cons x rest ih =>
      cases b with
      | nil => cases textB
      | cons y rest' =>
          rw [cmpString]
          rcases beforeTerminator_cons textA with ⟨rfl, rfl⟩ | ⟨nonzero, tail, textA', rfl⟩
          · rcases beforeTerminator_cons textB with ⟨rfl, rfl⟩ | ⟨nonzero, tail, -, rfl⟩
            · rfl
            · rw [if_neg (Ne.symm nonzero), simpleCmp_u32, Int.sign_eq_neg_one_of_neg]
              · rfl
              · have := positive nonzero
                change (0 : Int) - _ < 0
                omega
          · rcases beforeTerminator_cons textB with ⟨rfl, rfl⟩ | ⟨nonzero', tail', textB', rfl⟩
            · rw [if_neg nonzero, simpleCmp_u32, Int.sign_eq_one_of_pos]
              · rfl
              · have := positive nonzero
                change 0 < _ - (0 : Int)
                omega
            · by_cases same : x = y
              · rw [if_pos same, if_neg nonzero, ih textA' textB',
                  lex_cons_same (simpleCmp_eq_zero.mpr same)]
              · rw [if_neg same, lex_cons_ne (mt simpleCmp_eq_zero.mp same)]

theorem stringHash32_eq {m chars : List UInt32} (text : beforeTerminator m = some chars) :
    stringHash32 m = .ok (textHash chars) := by
  have loop : ∀ (x : UInt32) (len : Nat), stringHashLoop x len m =
      .ok (chars.foldl (fun (x : UInt32) c => (1000003 * x) ^^^ c) x ^^^
        UInt32.ofNat (len + chars.length)) := by
    induction m generalizing chars with
    | nil => cases text
    | cons c rest ih =>
        intro x len
        rw [stringHashLoop]
        rcases beforeTerminator_cons text with ⟨zero, rfl⟩ | ⟨nonzero, tail, text', rfl⟩
        · rw [if_pos zero]
          rfl
        · rw [if_neg nonzero, ih text', List.foldl_cons, List.length_cons]
          simp only [Nat.add_assoc, Nat.add_comm 1]
  cases m with
  | nil => cases text
  | cons c rest =>
      have head : chars.headD 0 = c := by
        rcases beforeTerminator_cons text with ⟨rfl, rfl⟩ | ⟨-, tail, -, rfl⟩ <;> rfl
      rw [stringHash32, loop, textHash, head, Nat.zero_add]

/-! ## Reading -/

/-- The tag of a vector. -/
def vectorTag : ValueType → Option VectorTag
  | .vectorValue => some .value
  | .vectorValueHashable => some .valueHashable
  | .vectorI8 => some (.number .i8)
  | .vectorU8 => some (.number .u8)
  | .vectorI16 => some (.number .i16)
  | .vectorU16 => some (.number .u16)
  | .vectorI32 => some (.number .i32)
  | .vectorU32 => some (.number .u32)
  | .vectorI64 => some (.number .i64)
  | .vectorU64 => some (.number .u64)
  | .vectorFloat => some (.number .float)
  | .vectorEmpty => some .empty
  | _ => none

/-- The characters of a string of a file. -/
def readText (p : OpenFile) (v : Value) : Res (List UInt32) := do
  let m ← readerStringUnicodeValue p v
  match beforeTerminator (stringChars v.type m) with
  | some chars => pure chars
  | none => fault .outOfBounds

/-- The tree of a value, over the trees of its items. -/
def readTreeOver (p : OpenFile) (item : CompleteValue → Res Tree) (c : CompleteValue) :
    Res Tree :=
  match c.type with
  | .null => .ok .null
  | .emptySlot => .ok .emptySlot
  | .i32 => .ok (.signed .i32 (dataI32 c.data.toUInt32))
  | .i64 => .ok (.signed .i64 c.data.toInt64.toInt)
  | .boolean => .ok (.signed .boolean c.data.toUInt32.toNat)
  | .u32 => .ok (.unsigned .u32 c.data.toUInt32.toNat)
  | .u64 => .ok (.unsigned .u64 c.data.toNat)
  | .unicode => .text .unicode <$> readText p c.toValue
  | .string => .text .string <$> readText p c.toValue
  | t =>
      match vectorTag t with
      | none => fail "sets, maps, floats and bitvectors have no tree"
      | some tag => do
          let nItems ← readerVectorNItems p c.toValue
          let items ← (List.range nItems.toNat).mapM fun i => do
            let x ← readerVectorValueCase p c.toValue i
            item x
          pure (.vector tag items)

/-- The tree of a value whose items are nested to `levels` levels at most. -/
def readTree (p : OpenFile) : Nat → CompleteValue → Res Tree
  | 0 => readTreeOver p fun _ => fail "nested too deeply"
  | levels + 1 => readTreeOver p (readTree p levels)

/-- How the items of a value are read. -/
def readItem (p : OpenFile) : Nat → CompleteValue → Res Tree
  | 0 => fun _ => fail "nested too deeply"
  | levels + 1 => readTree p levels

theorem readTree_eq (p : OpenFile) (levels : Nat) (c : CompleteValue) :
    readTree p levels c = readTreeOver p (readItem p levels) c := by
  cases levels <;> rfl

/-- What the tree says about the value it was read from. -/
def Tree.Reads (p : OpenFile) (item : CompleteValue → Res Tree) (c : CompleteValue) :
    Tree → Prop
  | .null | .emptySlot => True
  | .signed _ v => isSigned c.type = true ∧ intValueSigned c.type c.data = v
  | .unsigned _ v => isSigned c.type = false ∧ intValueUnsigned c.type c.data = v
  | .text _ chars => (c.type = .unicode ∨ c.type = .string) ∧ readText p c.toValue = .ok chars
  | .vector tag items => vectorTag c.type = some tag ∧
      ∃ nItems, readerVectorNItems p c.toValue = .ok nItems ∧
        List.Forall₂ (fun i x => ∃ y, readerVectorValueCase p c.toValue i = .ok y ∧ item y = .ok x)
          (List.range nItems.toNat) items

theorem vectorTag_type {t : ValueType} {tag : VectorTag} (isTag : vectorTag t = some tag) :
    tag.type = t := by
  unfold vectorTag at isTag
  split at isTag <;> cases isTag <;> rfl

theorem readTreeOver_vector {p : OpenFile} {item : CompleteValue → Res Tree} {c : CompleteValue}
    {tag : VectorTag} (isTag : vectorTag c.type = some tag) :
    readTreeOver p item c = (do
      let nItems ← readerVectorNItems p c.toValue
      let items ← (List.range nItems.toNat).mapM fun i => do
        let x ← readerVectorValueCase p c.toValue i
        item x
      pure (.vector tag items)) := by
  unfold readTreeOver
  split
  case h_10 => rw [isTag]
  all_goals
    rename_i type
    rw [type] at isTag
    cases isTag

section Inversion

variable {p : OpenFile} {item : CompleteValue → Res Tree} {c : CompleteValue} {t : Tree}

theorem readTreeOver_ok (read : readTreeOver p item c = .ok t) :
    t.type = c.type ∧ t.Reads p item c := by
  unfold readTreeOver at read
  split at read
  case h_8 type | h_9 type =>
    obtain ⟨chars, text, rfl⟩ := map_eq_ok.mp read
    exact ⟨type.symm, by simp [type], text⟩
  case h_10 =>
    split at read
    case h_1 => cases read
    case h_2 tag isTag =>
      obtain ⟨nItems, count, read⟩ := bind_eq_ok.mp read
      obtain ⟨items, mapped, read⟩ := bind_eq_ok.mp read
      cases read
      refine ⟨vectorTag_type isTag, isTag, nItems, count, ?_⟩
      refine (mapM_eq_ok.mp mapped).imp fun i x itemRead => ?_
      exact bind_eq_ok.mp itemRead
  all_goals
    rename_i type
    cases read
    simp [Tree.type, SignedTag.type, UnsignedTag.type, Tree.Reads, type, isSigned, intValueSigned,
      intValueUnsigned]

end Inversion

theorem readText_ok {p : OpenFile} {v : Value} {chars : List UInt32}
    (text : readText p v = .ok chars) :
    ∃ m, readerStringUnicodeValue p v = .ok m ∧
      beforeTerminator (stringChars v.type m) = some chars := by
  obtain ⟨m, read, text⟩ := bind_eq_ok.mp text
  refine ⟨m, read, ?_⟩
  split at text
  case h_1 before =>
    cases text
    exact before
  case h_2 => cases text

/-! ## Comparing -/

/-- A comparison position by position is one of the lists of items. -/
theorem cmpSeq_lex {α β : Type} {cmp : α → β → Int} {compare : Nat → Res Int} {bad : Stop → Prop}
    {as : List α} {bs : List β} {start : Nat}
    (items : ∀ k (lessA : k < as.length) (lessB : k < bs.length),
      Post (· = cmp as[k] bs[k]) bad (compare (start + k))) :
    Post (· = lex cmp as bs) bad
      (cmpSeq compare ((as.length : Int) - bs.length).sign
        (List.range' start (min as.length bs.length))) := by
  induction as generalizing bs start with
  | nil =>
      cases bs with
      | nil => exact rfl
      | cons b bs =>
          rw [List.length_nil, Nat.zero_min]
          exact Int.sign_eq_neg_one_of_neg (by rw [List.length_cons]; omega)
  | cons a as ih =>
      cases bs with
      | nil =>
          rw [List.length_nil, Nat.min_zero]
          exact Int.sign_eq_one_of_pos (by rw [List.length_cons]; omega)
      | cons b bs =>
          have count : min (a :: as).length (b :: bs).length = min as.length bs.length + 1 := by
            rw [List.length_cons, List.length_cons]
            omega
          have last : ((a :: as).length : Int) - (b :: bs).length = as.length - bs.length := by
            rw [List.length_cons, List.length_cons]
            omega
          rw [count, last, List.range'_succ, cmpSeq]
          refine Post.bind (items 0 (by simp) (by simp)) fun c _ head => ?_
          change c = cmp a b at head
          split
          case isTrue differ => exact head.trans (lex_cons_ne (head ▸ differ) as bs).symm
          case isFalse same =>
            rw [lex_cons_same (head ▸ not_not.mp same)]
            refine ih fun k lessA lessB => ?_
            have next := items (k + 1) (by simpa using lessA) (by simpa using lessB)
            rwa [Nat.add_assoc, Nat.add_comm 1]

section Leaves

variable {pA pB : OpenFile} {itemA itemB : CompleteValue → Res Tree} {a b : CompleteValue}
  {ta tb : Tree}

theorem Tree.type_ne_float (t : Tree) : t.type ≠ .float := by
  cases t with
  | signed t _ => cases t <;> exact ValueType.noConfusion
  | unsigned t _ => cases t <;> exact ValueType.noConfusion
  | text t _ => cases t <;> exact ValueType.noConfusion
  | vector t _ =>
      cases t with
      | number t => cases t <;> exact ValueType.noConfusion
      | _ => exact ValueType.noConfusion
  | _ => exact ValueType.noConfusion

/-- The branches of the comparison of integers. -/
theorem cmpIntFloat_tree (typeA : ta.type = a.type) (typeB : tb.type = b.type)
    (readsA : ta.Reads pA itemA a) (readsB : tb.Reads pB itemB b) (numberA : ta.func = .intFloat)
    (numberB : tb.func = .intFloat) :
    cmpIntFloat a.type a.data b.type b.data = Tree.cmp ta tb := by
  have noFloat : ¬(a.type = .float ∨ b.type = .float) := by
    rw [← typeA, ← typeB]
    exact not_or.mpr ⟨ta.type_ne_float, tb.type_ne_float⟩
  rw [cmpIntFloat, if_neg noFloat]
  cases ta with
  | signed s x =>
      obtain ⟨signA, valueA⟩ := readsA
      cases tb with
      | signed t y =>
          obtain ⟨signB, valueB⟩ := readsB
          simp only [signA, signB, valueA, valueB]
          rfl
      | unsigned t y =>
          obtain ⟨signB, valueB⟩ := readsB
          simp only [signA, signB, valueA, valueB]
          rfl
      | _ => cases numberB
  | unsigned s x =>
      obtain ⟨signA, valueA⟩ := readsA
      cases tb with
      | signed t y =>
          obtain ⟨signB, valueB⟩ := readsB
          simp only [signA, signB, valueA, valueB]
          rfl
      | unsigned t y =>
          obtain ⟨signB, valueB⟩ := readsB
          simp only [signA, signB, valueA, valueB]
          rfl
      | _ => cases numberB
  | _ => cases numberA

theorem cmpStringUnicode_tree {s t : TextTag} {xs ys : List UInt32}
    (readsA : (Tree.text s xs).Reads pA itemA a) (readsB : (Tree.text t ys).Reads pB itemB b) :
    cmpStringUnicode a.type b.type (readerStringUnicodeValue pA a.toValue)
      (readerStringUnicodeValue pB b.toValue) = .ok (Tree.cmp (.text s xs) (.text t ys)) := by
  obtain ⟨typeA, textA⟩ := readsA
  obtain ⟨typeB, textB⟩ := readsB
  obtain ⟨mA, readA, beforeA⟩ := readText_ok textA
  obtain ⟨mB, readB, beforeB⟩ := readText_ok textB
  rw [cmpStringUnicode, if_pos ⟨typeA, typeB⟩, readA, ok_bind, readB, ok_bind]
  exact cmpString_eq beforeA beforeB

end Leaves

/-- One level of a comparison, given how the items compare. -/
theorem cmpReaderRec_treeOver {pA pB : OpenFile} {fuel depth : Nat} {a b : CompleteValue}
    {ta tb : Tree} {itemA itemB : CompleteValue → Res Tree} {bad : Stop → Prop}
    (readA : readTreeOver pA itemA a = .ok ta) (readB : readTreeOver pB itemB b = .ok tb)
    (deep : maxDepth ≤ depth →
      bad (.error "maximum recursion depth reached during comparison"))
    (items : ∀ {x y tx ty}, itemA x = .ok tx → itemB y = .ok ty →
      Post (· = Tree.cmp tx ty) bad (cmpReaderRec true pA pB fuel x y (depth + 2))) :
    Post (· = Tree.cmp ta tb) bad (cmpReaderRec true pA pB (fuel + 1) a b depth) := by
  obtain ⟨typeA, readsA⟩ := readTreeOver_ok readA
  obtain ⟨typeB, readsB⟩ := readTreeOver_ok readB
  rw [cmpReaderRec]
  split
  case isTrue reached => exact deep reached.2
  case isFalse =>
    have funcA : cmpReaderFunc a.type = some ta.func := typeA ▸ ta.cmpReaderFunc_type
    have funcB : cmpReaderFunc b.type = some tb.func := typeB ▸ tb.cmpReaderFunc_type
    rw [funcA, funcB]
    split
    case isTrue differ =>
      rw [← typeA, ← typeB]
      exact (Tree.cmpWith_of_func_ne _ fun same => differ (by rw [same])).symm
    case isFalse same =>
      have kind : ta.func = tb.func := Option.some.inj (not_not.mp same)
      cases ta with
      | null =>
          cases tb <;> cases kind
          exact rfl
      | emptySlot =>
          cases tb <;> cases kind
          exact rfl
      | signed s x | unsigned s x =>
          exact cmpIntFloat_tree typeA typeB readsA readsB rfl kind.symm
      | text s xs =>
          cases tb <;> cases kind
          simp only [Tree.func]
          rw [cmpStringUnicode_tree readsA readsB]
          exact rfl
      | vector s xs =>
          cases tb <;> cases kind
          rename_i t ys
          obtain ⟨-, nA, countA, eachA⟩ := readsA
          obtain ⟨-, nB, countB, eachB⟩ := readsB
          have lengthA : xs.length = nA.toNat := by rw [← eachA.length_eq, List.length_range]
          have lengthB : ys.length = nB.toNat := by rw [← eachB.length_eq, List.length_range]
          simp only [Tree.func, countA, countB, ok_bind]
          rw [Tree.cmp_vector, simpleCmp_u32, ← lengthA, ← lengthB, List.range_eq_range']
          refine cmpSeq_lex fun k lessA lessB => ?_
          obtain ⟨x, caseA, readX⟩ := (List.forall₂_iff_get.mp eachA).2 k (by simp; omega) lessA
          obtain ⟨y, caseB, readY⟩ := (List.forall₂_iff_get.mp eachB).2 k (by simp; omega) lessB
          simp only [List.get_eq_getElem, List.getElem_range] at caseA caseB readX readY
          simp only [Nat.zero_add, caseA, caseB, ok_bind]
          simp only [not_true_eq_false, and_false, if_false, bind_pure]
          exact items readX readY

/-- The comparison of two values is that of their trees, unless it goes too deep. -/
theorem cmpReaderRec_tree {pA pB : OpenFile} {levelsA levelsB fuel depth : Nat}
    {a b : CompleteValue} {ta tb : Tree} (readA : readTree pA levelsA a = .ok ta)
    (readB : readTree pB levelsB b = .ok tb) :
    Post (· = Tree.cmp ta tb) (fun _ => maxDepth ≤ depth + 2 * levelsA ∨ fuel ≤ levelsA)
      (cmpReaderRec true pA pB fuel a b depth) := by
  induction fuel generalizing levelsA levelsB a b ta tb depth with
  | zero => exact Or.inr (Nat.zero_le _)
  | succ fuel ih =>
      have deep : maxDepth ≤ depth → maxDepth ≤ depth + 2 * levelsA ∨ fuel + 1 ≤ levelsA :=
        fun reached => Or.inl (by omega)
      rw [readTree_eq] at readA readB
      refine cmpReaderRec_treeOver readA readB deep fun readX readY => ?_
      cases levelsA with
      | zero => cases readX
      | succ levelsA =>
          cases levelsB with
          | zero => cases readY
          | succ levelsB =>
              refine (ih readX readY).mono (fun _ same => same) fun _ bound => ?_
              omega

/-- The comparison of two values that are not nested too deeply. -/
theorem cmpReader_tree {pA pB : OpenFile} {levelsA levelsB : Nat} {a b : CompleteValue}
    {ta tb : Tree} (readA : readTree pA levelsA a = .ok ta)
    (readB : readTree pB levelsB b = .ok tb) (shallow : 2 * levelsA < maxDepth) :
    cmpReader pA a pB b = .ok (Tree.cmp ta tb) := by
  have post := @cmpReaderRec_tree pA pB levelsA levelsB (maxDepth + 1) 0 a b ta tb readA readB
  cases compared : cmpReaderRec true pA pB (maxDepth + 1) a b 0 with
  | ok c =>
      have same := post.of_ok compared
      change c = _ at same
      rw [cmpReader, compared, same]
  | error e =>
      have bad := post.of_error compared
      omega

/-! ## Values that have trees -/

/-- The types of scalars that trees have. -/
def isLeafType : ValueType → Bool
  | .null | .emptySlot | .i32 | .i64 | .boolean | .u32 | .u64 | .unicode | .string => true
  | _ => false

/-- A scalar, or a vector whose items are as `item` says. -/
def PlainOver (p : OpenFile) (item : CompleteValue → Prop) (c : CompleteValue) : Prop :=
  isLeafType c.type = true ∨ isVectorType c.type = true ∧
    ∀ n i x, readerVectorNItems p c.toValue = .ok n → i < n.toNat →
      readerVectorValueCase p c.toValue i = .ok x → item x

/-- The value holds no set, map, float or bitvector, and its items are nested to `levels`
levels at most. -/
def PlainWithin (p : OpenFile) : Nat → CompleteValue → Prop
  | 0 => PlainOver p fun _ => False
  | levels + 1 => PlainOver p (PlainWithin p levels)

theorem vectorTag_isSome {t : ValueType} (vector : isVectorType t = true) :
    ∃ tag, vectorTag t = some tag := by
  cases t <;> first | exact ⟨_, rfl⟩ | cases vector

section Existence

variable {p : OpenFile} (sound : p.Sound)
include sound

theorem OpenFile.Sound.readText {v : Value} (reach : Reachable p v)
    (type : v.type = .unicode ∨ v.type = .string) : ∃ chars, readText p v = .ok chars := by
  obtain ⟨m, n, read, terminated⟩ := sound.stringChars reach type
  obtain ⟨chars, before⟩ := terminated.beforeTerminator
  exact ⟨chars, by rw [Pointless.readText, read, ok_bind, before]; rfl⟩

/-- A vector has a tree when its items have. -/
theorem OpenFile.Sound.readVectorTree {item : CompleteValue → Res Tree} {c : CompleteValue}
    (reach : Reachable p c.toValue) (vector : isVectorType c.type = true)
    (items : ∀ n i x, readerVectorNItems p c.toValue = .ok n → i < n.toNat →
      readerVectorValueCase p c.toValue i = .ok x → Readable p x → ∃ t, item x = .ok t) :
    ∃ tag items, readTreeOver p item c = .ok (.vector tag items) := by
  obtain ⟨tag, isTag⟩ := vectorTag_isSome vector
  obtain ⟨n, count⟩ := sound.nItems reach vector
  have mapped : ∃ results, ((List.range n.toNat).mapM fun i => do
      let x ← readerVectorValueCase p c.toValue i
      item x) = .ok results := by
    refine exists_mapM_ok fun i mem => ?_
    have less := List.mem_range.mp mem
    obtain ⟨x, read, readable⟩ := sound.itemCase reach vector count less
    obtain ⟨t, tree⟩ := items n i x count less read readable
    exact ⟨t, by rw [read, ok_bind, tree]⟩
  obtain ⟨results, returned⟩ := mapped
  refine ⟨tag, results, ?_⟩
  rw [readTreeOver_vector isTag, count, ok_bind, returned]
  rfl

/-- A readable value has a tree when its items have. -/
theorem OpenFile.Sound.readTreeOver {content : CompleteValue → Prop}
    {item : CompleteValue → Res Tree}
    (items : ∀ x, Readable p x → content x → ∃ t, item x = .ok t) {c : CompleteValue}
    (readable : Readable p c) (plain : PlainOver p content c) :
    ∃ t, readTreeOver p item c = .ok t := by
  rcases plain with leaf | ⟨vector, each⟩
  · have text : c.type = .unicode ∨ c.type = .string → ∃ chars, Pointless.readText p c.toValue =
        .ok chars := by
      intro type
      refine sound.readText (readable.reachable ?_) type
      rcases type with type | type <;> rw [type] <;> simp [cmpReaderFunc]
    unfold Pointless.readTreeOver
    cases type : c.type
    case unicode =>
      obtain ⟨chars, read⟩ := text (Or.inl type)
      exact ⟨_, by simp only [read]; rfl⟩
    case string =>
      obtain ⟨chars, read⟩ := text (Or.inr type)
      exact ⟨_, by simp only [read]; rfl⟩
    all_goals first
      | exact ⟨_, rfl⟩
      | (rw [type] at leaf; cases leaf)
  · have func := cmpReaderFunc_vector.mpr vector
    have reach := readable.reachable (by rw [func]; simp)
    obtain ⟨tag, trees, read⟩ := sound.readVectorTree reach vector
      fun n i x count less valueCase itemReadable =>
        items x itemReadable (each n i x count less valueCase)
    exact ⟨_, read⟩

theorem OpenFile.Sound.readTree {levels : Nat} {c : CompleteValue} (readable : Readable p c)
    (plain : PlainWithin p levels c) : ∃ t, readTree p levels c = .ok t := by
  induction levels generalizing c with
  | zero => exact sound.readTreeOver (fun _ _ bad => bad.elim) readable plain
  | succ levels ih =>
      exact sound.readTreeOver (fun _ itemReadable itemPlain => ih itemReadable itemPlain)
        readable plain

end Existence

end Pointless
