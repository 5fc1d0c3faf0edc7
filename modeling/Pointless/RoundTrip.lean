import Pointless.CreateRoot
import Pointless.Lib.Reordering
import Pointless.TablesBack

/-!
# What is written is read

Every value of a create-time state reads the same in the file that is written for it, as a
node of the graph of values: the keys of a set come in another order, and so do those of a
map, each with its value; a vector of handles of numbers may be a vector of numbers.
-/

namespace Pointless

open ByteMemory ExceptRules OpenAddressing Unfolding

variable {c : Create} {fuel : Nat} {file : List UInt8} {p : Prepared} {f : OpenFile}
  {v₀ : CreateValue} {handle : UInt32}

/-! ## The graphs -/

/-- How many children of a node of a label stand together, where their order is open. -/
def chunkOf : NodeLabel → Nat
  | .set => 1
  | .map => 2
  | _ => 0

/-- The numbers that a label has below it. -/
def numberItems : NodeLabel → Option (NodeLabel × List NodeLabel)
  | .ints items => some (.vector, items.map .int)
  | .floats items => some (.vector, items.map fun word => .float (UInt32.ofNat word))
  | _ => none

/-- The handles of a create-time state, with the numbers of its vectors as nodes. -/
def createGraph (c : Create) : Graph Stop NodeLabel (UInt32 ⊕ NodeLabel) :=
  spread numberItems (handleNode c)

/-- The values of a file, with the numbers of its vectors as nodes. -/
def fileGraph (f : OpenFile) : Graph Stop NodeLabel (Value ⊕ NodeLabel) :=
  spread numberItems (fileNode f)

/-- The counts of a state fit the 32 bits that they are written with. -/
structure CountsFit (c : Create) : Prop where
  texts : ShortTexts c
  vectors : ∀ array ∈ c.privVectorValues, array.nItems < 2 ^ 32
  tables : ShortTables c

/-- What a handle is written as. An item of a vector that is compressed is written as its
number. -/
def Wrote (c : Create) (p : Prepared) : UInt32 ⊕ NodeLabel → Value ⊕ NodeLabel → Prop
  | .inl handle, .inl v => ReadsAs c p handle v
  | .inl handle, .inr label => createGraph c (.inl handle) = .ok (label, [])
  | .inr label, .inr label' => label = label'
  | .inr _, .inl _ => False

/-- A handle and a value have one label, and what is below the handle was written as what is
below the value. -/
def WrittenCopy (c : Create) (p : Prepared) (f : OpenFile) (handle : UInt32) (v : Value) : Prop :=
  ∃ label children copies copies', createGraph c (.inl handle) = .ok (label, children) ∧
    fileGraph f (.inl v) = .ok (label, copies) ∧ Reordered (chunkOf label) copies copies' ∧
    List.Forall₂ (Wrote c p) children copies'

section Copies

variable {label : NodeLabel} {handles : List UInt32} {values values' : List Value} {v : Value}

theorem copied_leaf (read : handleNode c handle = .ok (label, []))
    (read' : fileNode f v = .ok (label, [])) : WrittenCopy c p f handle v := by
  rcases isItems : numberItems label with _ | ⟨label', leaves⟩
  · exact ⟨label, _, _, _, spread_none read isItems, spread_none read' isItems, .refl _ _, .nil⟩
  · refine ⟨label', _, _, _, spread_items read isItems, spread_items read' isItems, .refl _ _, ?_⟩
    rw [List.forall₂_map_left_iff, List.forall₂_map_right_iff]
    exact List.forall₂_same.mpr fun _ _ => rfl

theorem copied_children (noItems : numberItems label = none)
    (read : handleNode c handle = .ok (label, handles))
    (read' : fileNode f v = .ok (label, values)) (order : Reordered (chunkOf label) values values')
    (each : List.Forall₂ (ReadsAs c p) handles values') : WrittenCopy c p f handle v := by
  refine ⟨label, _, _, values'.map .inl, spread_none read noItems, spread_none read' noItems,
    order.map _, ?_⟩
  rw [List.forall₂_map_left_iff, List.forall₂_map_right_iff]
  exact each

end Copies

/-! ## Texts -/

theorem stringChars_cons {type : ValueType} (isText : type = .string ∨ type = .unicode) {n : Nat}
    (narrow : n < 256 ^ charWidth type) (rest : List UInt8) :
    stringChars type (encode (charWidth type) n ++ rest)
      = UInt32.ofNat n :: stringChars type rest := by
  have word := decode_encode_of_lt narrow
  rcases isText with rfl | rfl
  · have byte : (UInt8.ofNat n).toUInt32 = UInt32.ofNat n := by
      apply UInt32.toNat_inj.mp
      change n < 256 at narrow
      rw [UInt8.toNat_toUInt32, UInt8.toNat_ofNat', UInt32.toNat_ofNat']
      omega
    change (UInt8.ofNat n).toUInt32 :: stringChars .string rest = _
    rw [byte]
  · change UInt32.ofNat (decode (encode 4 n)) :: stringChars .unicode rest = _
    rw [show decode (encode 4 n) = n from word]

/-- The characters of a text are read, up to the terminator. -/
theorem beforeTerminator_text {type : ValueType} {chars : List Nat} (isText : IsText type chars)
    (rest : List UInt8) :
    beforeTerminator (stringChars type
      (((chars ++ [0]).map (encode (charWidth type))).flatten ++ rest))
      = some (chars.map UInt32.ofNat) := by
  rcases isText with ⟨isType, each⟩
  induction chars with
  | nil =>
      have zero : (0 : Nat) < 256 ^ charWidth type := Nat.pow_pos (by decide)
      rw [List.nil_append, List.map_singleton, List.flatten_singleton,
        stringChars_cons isType zero]
      rfl
  | cons n chars ih =>
      rcases List.forall_mem_cons.mp each with ⟨⟨nonzero, narrow⟩, others⟩
      have bound : n < 2 ^ 32 := by
        refine Nat.lt_of_lt_of_le narrow ?_
        rcases isType with rfl | rfl
        all_goals decide
      have apart : ¬UInt32.ofNat n = 0 := by
        intro zero
        have same := congrArg UInt32.toNat zero
        rw [UInt32.toNat_ofNat', Nat.mod_eq_of_lt bound] at same
        exact nonzero same
      rw [List.cons_append, List.map_cons, List.flatten_cons, List.append_assoc,
        stringChars_cons isType narrow, beforeTerminator, if_neg apart, ih others]
      rfl

/-- The characters of a text fit a word. -/
theorem IsText.toNat {type : ValueType} {chars : List Nat} (isText : IsText type chars) :
    (chars.map UInt32.ofNat).map UInt32.toNat = chars := by
  rw [List.map_map]
  refine (List.map_congr_left fun n mem => ?_).trans (List.map_id chars)
  refine Nat.mod_eq_of_lt (Nat.lt_of_lt_of_le (isText.2 n mem).2 ?_)
  rcases isText.1 with rfl | rfl
  all_goals decide

theorem readText_written {type : ValueType} {chars : List Nat} (isText : IsText type chars)
    {v : Value} (isType : v.type = type) {rest : List UInt8}
    (read : readerStringUnicodeValue f v
      = .ok (((chars ++ [0]).map (encode (charWidth type))).flatten ++ rest)) :
    readText f v = .ok (chars.map UInt32.ofNat) := by
  subst isType
  rw [readText, read, ok_bind, beforeTerminator_text isText]
  rfl

theorem fileNode_text {type : ValueType} {chars : List Nat} (isText : IsText type chars)
    {v : Value} (isType : v.type = type) {rest : List UInt8}
    (read : readerStringUnicodeValue f v
      = .ok (((chars ++ [0]).map (encode (charWidth type))).flatten ++ rest)) :
    fileNode f v = .ok (.text chars, []) := by
  have text := readText_written isText isType read
  subst isType
  unfold fileNode
  rcases isText.1 with type | type
  all_goals
    rw [type]
    dsimp only
    rw [text, ok_bind, isText.toNat]
    rfl

/-! ## Bitvectors -/

/-- The bits of a bitvector are read from its buffer, whatever stands behind it. -/
theorem readBits_heap {nBits data : UInt32} {bits : List UInt8}
    (size : bits.length = iceil nBits.toNat 8) (rest : List UInt8) :
    readBits .bitvector data (some (bytesU32 nBits ++ bits ++ rest))
      = .ok (bitsOf bits nBits.toNat) := by
  have count : bitvectorNBits .bitvector data (some (bytesU32 nBits ++ bits ++ rest)) = .ok nBits := by
    refine loadU32_holds ⟨Nat.zero_le _, ?_⟩
    rw [List.append_assoc]
    exact List.prefix_append _ _
  have buffer : bitvectorBits (some (bytesU32 nBits ++ bits ++ rest)) = some (bits ++ rest) := by
    rw [bitvectorBits, Option.map_some, List.append_assoc, ← length_bytesU32 nBits, List.drop_left]
  rw [readBits, count, ok_bind]
  refine mapM_ok_map fun i mem => ?_
  have inside : i / 8 < bits.length := by
    rw [size]
    exact div_lt_iceil (List.mem_range.mp mem)
  have whole : i / 8 < (bits ++ rest).length := by
    rw [List.length_append]
    omega
  have bit : bitvectorIsSet .bitvector data (some (bytesU32 nBits ++ bits ++ rest)) i
      = bmIsSet (some (bits ++ rest)) i := by
    rw [bitvectorIsSet, if_pos rfl, buffer]
    rfl
  rw [bit, bmIsSet_eq whole, BitMemory.bit, BitMemory.bit, List.getElem?_append_left inside]

/-- The bits of a value that is complete in its data are there. -/
theorem readBits_inline {type : ValueType} {data : UInt32} (inline : IsInlineValue type data)
    (isBits : isBitvectorType type = true) : ∃ bits, readBits type data none = .ok bits := by
  have isSet : ∃ n, bitvectorNBits type data none = .ok n ∧
      ∀ i < n.toNat, ∃ bit, bitvectorIsSet type data none i = .ok bit := by
    cases type
    case bitvectorPacked =>
      have small : packedNBits data ≤ 27 := inline
      have count : (UInt32.ofNat (packedNBits data)).toNat = packedNBits data :=
        Nat.mod_eq_of_lt (by omega)
      refine ⟨_, rfl, fun i less => ⟨_, bmIsSet_eq ?_⟩⟩
      rw [length_bytesU32]
      omega
    case bitvector => exact inline.elim
    case bitvector0 | bitvector1 | bitvector01 | bitvector10 => exact ⟨_, rfl, fun i _ => ⟨_, rfl⟩⟩
    all_goals cases isBits
  rcases isSet with ⟨n, count, each⟩
  have bits : ∀ i, ∃ bit, i < n.toNat → bitvectorIsSet type data none i = .ok bit := by
    intro i
    by_cases less : i < n.toNat
    · rcases each i less with ⟨bit, read⟩
      exact ⟨bit, fun _ => read⟩
    · exact ⟨false, fun less' => absurd less' less⟩
  choose bit read using bits
  refine ⟨(List.range n.toNat).map bit, ?_⟩
  rw [readBits, count, ok_bind]
  exact mapM_ok_map fun i mem => read i (List.mem_range.mp mem)

/-- A value that is complete in its data is the same node in the file. -/
theorem copied_inline {type : ValueType} {d : UInt32} (inline : IsInlineValue type d)
    (at_h : c.values[handle.toNat]? = some (.plain type d)) :
    WrittenCopy c p f handle (readOf p (.plain type d)) := by
  have value : readOf p (.plain type d) = ⟨type, d⟩ := by
    rfl
  have node : handleNode c handle = createValueNode c (.plain type d) := by
    rw [handleNode, cvValueAt, itemAt_eq_ok.mpr at_h, ok_bind]
  rw [value]
  by_cases isBits : isBitvectorType type = true
  · rcases readBits_inline inline isBits with ⟨bits, read⟩
    have other := isInline_of_readBits read
    refine copied_leaf (node.trans ?_) (fileNode_bits (v := ⟨type, d⟩) isBits ?_ read)
    · exact @createValueNode_bits _ (.plain type d) _ isBits _ (if_neg other) read
    · exact if_neg other
  · have plain : type = .vectorEmpty ∨ ∃ label, plainLabel type d = some label := by
      cases type
      all_goals first | exact Or.inl rfl | exact Or.inr ⟨_, rfl⟩ | exact inline.elim | exact absurd rfl isBits
    rcases plain with rfl | ⟨label, isLabel⟩
    · exact copied_leaf (node.trans rfl) rfl
    · exact copied_leaf (node.trans (createValueNode_plain isLabel)) (fileNode_plain isLabel)

/-! ## Vectors of numbers -/

/-- The node of an item of a vector of numbers. -/
def leafOf (t : NumberType) (word : Nat) : NodeLabel :=
  if t = .float then .float (UInt32.ofNat word) else .int (t.toInt word)

theorem numberItems_numbersLabel (t : NumberType) {words : List Nat} (some_ : words ≠ []) :
    numberItems (numbersLabel t words) = some (.vector, words.map (leafOf t)) := by
  rw [numbersLabel, if_neg some_]
  by_cases float : t = .float
  · have leaf : leafOf t = fun word => .float (UInt32.ofNat word) := by
      funext word
      rw [leafOf, if_pos float]
    rw [if_pos float, numberItems, leaf]
  · have leaf : leafOf t = fun word => .int (t.toInt word) := by
      funext word
      rw [leafOf, if_neg float]
    rw [if_neg float, numberItems, List.map_map, leaf]
    rfl

theorem numberItems_leafOf (t : NumberType) (word : Nat) : numberItems (leafOf t word) = none := by
  rw [leafOf]
  split
  all_goals rfl

theorem isVectorType_vectorType (t : NumberType) : isVectorType t.vectorType = true :=
  isVectorType_of_tag (vectorTag_vectorType t)

/-- A row of words in the file as a node. -/
theorem VectorAt.node {t : NumberType} {v : Value} {n : UInt32} {words : List Nat}
    (vector : VectorAt f v n (words.map (encode t.size)).flatten) (isType : v.type = t.vectorType)
    (count : n.toNat = words.length) (narrow : ∀ x ∈ words, x < 256 ^ t.size) :
    fileNode f v = .ok (numbersLabel t words, []) := by
  have read : ∀ i < n.toNat, readerVectorWord f v t.size (0 + i) = .ok (words.getD (0 + i) 0) := by
    intro i less
    rw [Nat.zero_add]
    rw [count] at less
    refine vector.word narrow ?_
    rw [List.getD_eq_getElem?_getD, List.getElem?_eq_getElem less]
    rfl
  rw [fileNode_vector (by rw [isType]; exact isVectorType_vectorType t) vector.1,
    @vectorNode_numbers f v t isType (fun i => words.getD i 0) 0 n.toNat read, count]
  have same : (List.range words.length).map (fun i => words.getD (0 + i) 0) = words := by
    refine List.ext_getElem (by rw [List.length_map, List.length_range]) fun i less less' => ?_
    rw [List.getElem_map, List.getElem_range, Nat.zero_add, List.getD_eq_getElem?_getD,
      List.getElem?_eq_getElem less']
    rfl
  rw [same]

/-! ## Vectors of handles -/

theorem fileNode_values {v : Value} {items : List Value}
    (isValue : v.type = .vectorValue ∨ v.type = .vectorValueHashable)
    (read : readItems f v = .ok items) : fileNode f v = .ok (.vector, items) := by
  rcases bind_eq_ok.mp read with ⟨n, count, each⟩
  have vector : isVectorType v.type = true := by
    rcases isValue with same | same
    all_goals
      rw [same]
      rfl
  have each' : (List.range n.toNat).mapM (fun i => readerVectorValue f v (0 + i)) = .ok items := by
    simp only [Nat.zero_add]
    exact each
  rw [fileNode_vector vector count]
  unfold vectorNode
  rcases isValue with same | same
  all_goals
    rw [same]
    simp only [vectorTag, each', ok_bind, pure_eq_ok]

/-! ## Compressed vectors -/

/-- The type that compression gives to a vector that is not empty. -/
theorem itemsType_eq {items : List CreateValue} (some_ : items ≠ []) :
    itemsType .vectorValue items = compressionOf .vectorValue items := by
  have seen := rangeOf_foldlM items
  rw [itemsType, compressionOf]
  generalize items.foldlM ItemRange.add ⟨0, 0, false, false⟩ = r at seen
  cases seen with
  | start => exact absurd rfl some_
  | ints read bounds =>
      simp only [read, bounds.initFloat, rangeType_eq, rangeTypeIn_eq bounds]
      rfl
  | floats nonempty all =>
      simp only [mapM_int?_floats nonempty all, if_pos all]
      rfl
  | mixed read notFloats => simp only [read, if_neg notFloats]

theorem narrowest_ne_float (ns : List Int) : NumberType.narrowest ns ≠ some .float := by
  intro found
  have candidate := List.mem_of_find?_eq_some found
  split at candidate
  all_goals exact absurd candidate (by decide)

/-- An item of a compressed vector is an integer or a float, and so is the word that it is
written as. -/
theorem plainLabel_compressed {t : NumberType} {items : List CreateValue} {item : CreateValue}
    (isType : itemsType .vectorValue items = t.vectorType) (mem : item ∈ items) :
    plainLabel item.type item.data = some (leafOf t (compressedWord t item)) := by
  rw [itemsType_eq (List.ne_nil_of_mem mem)] at isType
  by_cases float : t = .float
  · subst float
    rw [compressionOf] at isType
    split at isType
    case h_1 ns read =>
      rcases isNarrowest : NumberType.narrowest ns with _ | t
      · rw [isNarrowest] at isType
        cases isType
      · rw [isNarrowest] at isType
        cases t
        case float => exact absurd isNarrowest (narrowest_ne_float ns)
        all_goals cases isType
    case h_2 =>
      split at isType
      case isTrue all =>
        rw [leafOf, if_pos rfl, all item mem, compressedWord]
        change some (NodeLabel.float item.data)
          = some (.float (UInt32.ofNat (decode (encode 4 item.data.toNat))))
        rw [decode_encode_of_lt item.data.toNat_lt, UInt32.ofNat_toNat]
      case isFalse => cases isType
  · rcases compressionOf_vectorType (Or.inl rfl) float isType with ⟨ns, read, candidate, range⟩
    rcases mapM_int?_mem read mem with ⟨n, among, int⟩
    have word := (castsKeep int candidate (range n among)).1
    rw [leafOf, if_neg float, compressedWord, word]
    rw [CreateValue.int?] at int
    split at int
    case h_1 isInt =>
      rw [isInt, ← Option.some.inj int]
      rfl
    case h_2 isInt =>
      rw [isInt, ← Option.some.inj int]
      rfl
    case h_3 => cases int

/-! ## The nodes of a written file -/

theorem handleNode_eq (at_h : c.values[handle.toNat]? = some v₀) :
    handleNode c handle = createValueNode c v₀ := by
  rw [handleNode, cvValueAt, itemAt_eq_ok.mpr at_h, ok_bind]

/-- The node of a vector of numbers. -/
theorem numbersNode {t : NumberType} {d : UInt32} {array : Dynarray}
    (at_h : c.values[handle.toNat]? = some (.plain t.vectorType d))
    (item : c.privVectorValues[d.toNat]? = some array) :
    handleNode c handle = .ok (numbersLabel t array.items, []) := by
  have tag : vectorTag (CreateValue.plain t.vectorType d).type = some (.number t) :=
    vectorTag_vectorType t
  have found : cvGetPrivVector c (.plain t.vectorType d) = .ok array := itemAt_eq_ok.mpr item
  have own : ¬(CreateValue.plain t.vectorType d).isOutsideVector = true := Bool.false_ne_true
  rw [handleNode_eq at_h, createValueNode_vector tag, createVectorNode, tag]
  dsimp only
  rw [if_neg own, found]
  rfl

/-- The node of a vector of handles. -/
theorem handlesNode {d : UInt32} {array : Dynarray}
    (at_h : c.values[handle.toNat]? = some (.plain .vectorValue d))
    (item : c.privVectorValues[d.toNat]? = some array) :
    handleNode c handle = .ok (.vector, array.items.map UInt32.ofNat) :=
  (handleNode_eq at_h).trans (bind_eq_ok.mpr ⟨array, itemAt_eq_ok.mpr item, rfl⟩)

theorem vectorHandles_narrow (shaped : Shaped c) {array : Dynarray}
    (fits : FitsVector c .vectorValue array) : ∀ n ∈ array.items, n < 2 ^ 32 := by
  intro n mem
  rcases (fits.handles rfl).2 n mem with ⟨v, at_n, -⟩
  exact Nat.lt_trans (List.getElem?_eq_some_iff.mp at_n).1 shaped.room

/-- The items of a vector of handles are handles of the caller's. -/
theorem vectorHandles (shaped : Shaped c) {array : Dynarray}
    (fits : FitsVector c .vectorValue array) :
    (array.items.map UInt32.ofNat).map UInt32.toNat = array.items ∧
      ∀ handle ∈ array.items.map UInt32.ofNat, IsHandle c handle := by
  have narrow := vectorHandles_narrow shaped fits
  constructor
  · rw [List.map_map]
    exact (List.map_congr_left fun n mem => toNat_handle (narrow n mem)).trans (List.map_id _)
  · intro handle mem
    rcases List.mem_map.mp mem with ⟨n, inside, rfl⟩
    rw [IsHandle, toNat_handle (narrow n inside)]
    exact (fits.handles rfl).2 n inside

/-- The items of an array with the values that their handles name. -/
theorem named_of_hasItems {array : Dynarray} {items : List CreateValue}
    (isItems : HasItems c array items) :
    List.Forall₂ (fun n v => c.values[n]? = some v ∧ n ∈ array.items ∧ v ∈ items) array.items
      items := by
  rcases mapM_some isItems with ⟨length, each⟩
  refine List.forall₂_iff_get.mpr ⟨length.symm, fun i less less' => ?_⟩
  rcases each i _ (List.getElem?_eq_getElem less') with ⟨n, at_i, found⟩
  rw [List.get_eq_getElem, List.get_eq_getElem, (List.getElem?_eq_some_iff.mp at_i).2]
  exact ⟨found, List.mem_of_getElem? at_i, List.getElem_mem less'⟩

theorem pool_of_label {v : CreateValue} {label : NodeLabel}
    (isLabel : plainLabel v.type v.data = some label) : v.pool = none := by
  rw [CreateValue.pool]
  unfold plainLabel at isLabel
  cases type : v.type
  all_goals first | rfl | (rw [type] at isLabel; cases isLabel)

theorem createValueNode_label {v : CreateValue} {label : NodeLabel}
    (isLabel : plainLabel v.type v.data = some label) :
    createValueNode c v = .ok (label, []) := by
  unfold createValueNode
  unfold plainLabel at isLabel
  cases type : v.type
  all_goals
    rw [type] at isLabel
    cases isLabel
  all_goals rfl

section Copies

variable (back : ReadsBack fuel c p f)

include back

theorem ReadsBack.copiedSet {d : UInt32} {set : CreateSet} (short : ShortTables c)
    (at_h : c.values[handle.toNat]? = some (.plain .setValue d))
    (mem : .plain .setValue d ∈ p.values) (item : c.setValues[d.toNat]? = some set) :
    WrittenCopy c p f handle (readOf p (.plain .setValue d)) := by
  have found : cvGetSet c (.plain .setValue d) = .ok set := itemAt_eq_ok.mpr item
  have parts : tableParts c (.plain .setValue d)
      = .ok ⟨set.keys, none, set.serializeHash, set.serializeKeys, none⟩ :=
    bind_eq_ok.mpr ⟨set, found, rfl⟩
  rcases back.table short at_h parts with ⟨-, hashVector, buckets, slot, k, place, -, table⟩
  rcases back.set mem item with ⟨hashVector', keyVector, -, isKeys, -, -, keys⟩
  have node : handleNode c handle = .ok (.set, set.keys) :=
    (handleNode_eq at_h).trans (bind_eq_ok.mpr ⟨set, found, rfl⟩)
  have node' : fileNode f (readOf p (.plain .setValue d)) = .ok (.set,
      (buckets.keys.map (readAt p)).filter fun key => key.type ≠ .emptySlot) := by
    change setNode f _ = _
    rw [setNode, keys, ok_bind, table.keys keyVector isKeys]
    rfl
  have shape := tableShape (back.shaped.fits _ _ at_h) parts
  refine copied_children rfl node node' (Reordered.single table.keysPerm) ?_
  rw [List.forall₂_map_right_iff, List.forall₂_same]
  exact fun key mem => back.prepares.readsAs (shape.keys key mem)

theorem ReadsBack.copiedMap {d : UInt32} {map : CreateMap} (short : ShortTables c)
    (at_h : c.values[handle.toNat]? = some (.plain .mapValueValue d))
    (mem : .plain .mapValueValue d ∈ p.values) (item : c.mapValues[d.toNat]? = some map) :
    WrittenCopy c p f handle (readOf p (.plain .mapValueValue d)) := by
  have found : cvGetMap c (.plain .mapValueValue d) = .ok map := itemAt_eq_ok.mpr item
  have parts : tableParts c (.plain .mapValueValue d) = .ok ⟨map.keys, some map.values,
      map.serializeHash, map.serializeKeys, some map.serializeValues⟩ :=
    bind_eq_ok.mpr ⟨map, found, rfl⟩
  have paired : map.values.length = map.keys.length := tablePaired back.wf parts _ rfl
  rcases back.table short at_h parts with ⟨-, hashVector, buckets, slot, k, place, -, table⟩
  rcases back.map mem item with
    ⟨hashVector', keyVector, valueVector, -, isKeys, isValues, -, -, keys, values⟩
  rcases isStored : buckets.values with _ | stored
  · rw [table.placed.isFilled] at isStored
    cases isStored
  have node : handleNode c handle = .ok (.map, entryList map.keys map.values) :=
    (handleNode_eq at_h).trans (bind_eq_ok.mpr ⟨map, found, rfl⟩)
  have node' : fileNode f (readOf p (.plain .mapValueValue d)) = .ok (.map,
      (((buckets.keys.map (readAt p)).zip (stored.map (readAt p))).filter fun entry =>
        entry.1.type ≠ .emptySlot).flatMap fun entry => [entry.1, entry.2]) := by
    change mapNode f _ = _
    rw [mapNode, keys, ok_bind, values, ok_bind, table.keys keyVector isKeys, ok_bind,
      table.values _ stored valueVector rfl isStored isValues]
    rfl
  have shape := tableShape (back.shaped.fits _ _ at_h) parts
  refine copied_children rfl node node' (Reordered.chunks (by decide) (fun _ => rfl)
    (table.entriesPerm rfl isStored paired)) ?_
  have entries : ((map.keys.map (readAt p)).zip (map.values.map (readAt p))).flatMap
      (fun entry => [entry.1, entry.2]) = (entryList map.keys map.values).map (readAt p) := by
    rw [entryList, List.zip_map, List.flatMap_map, List.map_flatMap]
    rfl
  rw [entries, List.forall₂_map_right_iff, List.forall₂_same]
  intro handle mem
  rcases List.mem_flatMap.mp mem with ⟨entry, among, here⟩
  rcases List.of_mem_zip among with ⟨isKey, isValue⟩
  rcases List.mem_cons.mp here with rfl | here
  · exact back.prepares.readsAs (shape.keys _ isKey)
  · rw [List.mem_singleton.mp here]
    exact back.prepares.readsAs (shape.values _ rfl _ isValue)

theorem ReadsBack.copiedText {type : ValueType} {d : UInt32} {chars : List Nat}
    (short : ShortTexts c) (isText : IsText type chars)
    (at_h : c.values[handle.toNat]? = some (.plain type d)) (mem : .plain type d ∈ p.values)
    (item : c.stringUnicodeValues[d.toNat]? = some (textBuffer type chars)) :
    WrittenCopy c p f handle (readOf p (.plain type d)) := by
  have fits := short type chars (List.mem_of_getElem? item)
  rcases back.text mem isText.1 fits item with ⟨rest, read⟩
  have node : createValueNode c (.plain type d) = .ok (.text chars, []) :=
    createValueNode_text isText.1 item ((textOf_textBuffer_iff isText).mpr (by omega))
  exact copied_leaf ((handleNode_eq at_h).trans node) (fileNode_text isText rfl read)

theorem ReadsBack.copiedBits {d nBits : UInt32} {bits : List UInt8}
    (at_h : c.values[handle.toNat]? = some (.plain .bitvector d))
    (mem : .plain .bitvector d ∈ p.values) (size : bits.length = iceil nBits.toNat 8)
    (item : c.bitvectorValues[d.toNat]? = some (bytesU32 nBits ++ bits)) :
    WrittenCopy c p f handle (readOf p (.plain .bitvector d)) := by
  rcases back.bits mem size item with ⟨rest, read⟩
  have pointer : createBitvectorPtr c (.plain .bitvector d)
      = .ok (some (bytesU32 nBits ++ bits ++ [])) := by
    rw [List.append_nil]
    exact (if_pos rfl).trans (map_eq_ok.mpr ⟨_, itemAt_eq_ok.mpr item, rfl⟩)
  have node : createValueNode c (.plain .bitvector d) = .ok (.bits _, []) :=
    createValueNode_bits rfl pointer (readBits_heap size [])
  exact copied_leaf ((handleNode_eq at_h).trans node)
    (fileNode_bits rfl read (readBits_heap size rest))

theorem ReadsBack.copiedOwned {t : NumberType} {d nItems : UInt32} {items : List UInt8}
    (at_h : c.values[handle.toNat]? = some ⟨t.vectorType, false, false, true, d⟩)
    (mem : ⟨t.vectorType, false, false, true, d⟩ ∈ p.values)
    (item : c.outsideVectorValues[d.toNat]? = some ⟨items, nItems⟩)
    (size : items.length = t.size * nItems.toNat) :
    WrittenCopy c p f handle (readOf p ⟨t.vectorType, false, false, true, d⟩) := by
  have vector := back.owned mem item size
  have words : items = ((wordsAt t.size 0 nItems.toNat items).map (encode t.size)).flatten := by
    rw [flatten_wordsAt (by omega), List.drop_zero, ← size, List.take_length]
  have tag := vectorTag_vectorType t
  have found : cvGetOutsideVector c ⟨t.vectorType, false, false, true, d⟩ = .ok ⟨items, nItems⟩ :=
    itemAt_eq_ok.mpr item
  have node : handleNode c handle
      = .ok (numbersLabel t (wordsAt t.size 0 nItems.toNat items), []) := by
    rw [handleNode_eq at_h, createValueNode_vector tag, createVectorNode, tag]
    dsimp only
    rw [if_pos rfl, found]
    rfl
  rw [words] at vector
  exact copied_leaf node
    (vector.node rfl (length_wordsAt t.size 0 nItems.toNat items).symm (wordsAt_narrow _ _ _ _))

/-! ## The library's vectors -/

theorem ReadsBack.copiedNumbers {t : NumberType} {d d' : UInt32} {array : Dynarray}
    (fits : FitsVector c t.vectorType array) (short : array.nItems < 2 ^ 32)
    (at_h : c.values[handle.toNat]? = some (.plain t.vectorType d))
    (mem : .plain t.vectorType d' ∈ p.values)
    (item : c.privVectorValues[d.toNat]? = some array)
    (item' : p.c.privVectorValues[d'.toNat]? = some array) :
    WrittenCopy c p f handle (readOf p (.plain t.vectorType d')) := by
  rcases fits.numbers t rfl with ⟨size, narrow⟩
  have vector := back.numbers mem item' size short
  exact copied_leaf (numbersNode at_h item) (vector.node rfl (Nat.mod_eq_of_lt short) narrow)

theorem ReadsBack.copiedHandles {type : ValueType} {d d' : UInt32} {array : Dynarray}
    (isValue : type = .vectorValue ∨ type = .vectorValueHashable)
    (fits : FitsVector c .vectorValue array) (short : array.nItems < 2 ^ 32)
    (at_h : c.values[handle.toNat]? = some (.plain .vectorValue d))
    (mem : .plain type d' ∈ p.values) (item : c.privVectorValues[d.toNat]? = some array)
    (item' : p.c.privVectorValues[d'.toNat]? = some array) :
    WrittenCopy c p f handle (readOf p (.plain type d')) := by
  have handles := vectorHandles back.shaped fits
  have each := fun handle mem => back.prepares.readsAs (handles.2 handle mem)
  have length : (array.items.map UInt32.ofNat).length < 2 ^ 32 := by
    rwa [List.length_map]
  have items := back.items isValue mem item' (fits.handles rfl).1 handles.1.symm length
    fun handle mem => ?_
  · refine copied_children rfl (handlesNode at_h item) (fileNode_values isValue items) (.refl _ _) ?_
    rw [List.forall₂_map_right_iff, List.forall₂_same]
    exact each
  · rcases handles.2 handle mem with ⟨v, at_v, -⟩
    rcases back.prepares.value at_v with ⟨w, -, at_w, -⟩
    exact ⟨w, at_w⟩

/-- The items of a vector that is compressed stay what they are. -/
theorem ReadsBack.keptItems {t : NumberType} {array : Dynarray} {items : List CreateValue}
    (isItems : HasItems c array items) (isType : itemsType .vectorValue items = t.vectorType) :
    Names p.c array items := by
  refine (named_of_hasItems isItems).imp fun n v here => ?_
  rcases back.prepares.value here.1 with ⟨w, -, at_w, becomes⟩
  have pool := pool_of_label (plainLabel_compressed isType here.2.2)
  rwa [becomes.kept (by rw [pool]; nofun)] at at_w

theorem ReadsBack.copiedCompressed {t : NumberType} {d d' : UInt32} {array : Dynarray}
    {items : List CreateValue} (isItems : HasItems c array items)
    (isType : itemsType .vectorValue items = t.vectorType)
    (fits : FitsVector c .vectorValue array) (short : array.nItems < 2 ^ 32)
    (some_ : array.nItems ≠ 0)
    (at_h : c.values[handle.toNat]? = some (.plain .vectorValue d))
    (mem : ⟨t.vectorType, true, false, false, d'⟩ ∈ p.values)
    (item : c.privVectorValues[d.toNat]? = some array)
    (item' : p.c.privVectorValues[d'.toNat]? = some array) :
    WrittenCopy c p f handle (readOf p ⟨t.vectorType, true, false, false, d'⟩) := by
  have handles := vectorHandles back.shaped fits
  have named := named_of_hasItems isItems
  have length : items.length = array.nItems := named.length_eq.symm
  have nonempty : items ≠ [] := by
    rintro rfl
    exact some_ length.symm
  have narrow := vectorHandles_narrow back.shaped fits
  have narrowType := itemsType_narrow (Or.inl rfl) isType
  have vector := back.compressed narrowType mem item' (fits.handles rfl).1 narrow short
    (back.keptItems isItems isType)
  have words : items.map (compressedWord t) ≠ [] :=
    fun none_ => nonempty (List.map_eq_nil_iff.mp none_)
  have count : (UInt32.ofNat array.nItems).toNat = (items.map (compressedWord t)).length := by
    rw [List.length_map, length]
    exact Nat.mod_eq_of_lt short
  have node := vector.node rfl count fun x among => by
    rcases List.mem_map.mp among with ⟨v, -, rfl⟩
    exact compressedWord_lt narrowType v
  refine ⟨.vector, _, _, _, spread_none (handlesNode at_h item) rfl,
    spread_items node (numberItems_numbersLabel t words), .refl _ _, ?_⟩
  rw [List.forall₂_map_left_iff, List.forall₂_map_left_iff, List.forall₂_map_right_iff,
    List.forall₂_map_right_iff, List.forall₂_map_right_iff]
  refine named.imp fun n v here => ?_
  have at_n : c.values[(UInt32.ofNat n).toNat]? = some v := by
    rw [toNat_handle (narrow n here.2.1)]
    exact here.1
  exact spread_none
    ((handleNode_eq at_n).trans (createValueNode_label (plainLabel_compressed isType here.2.2)))
    (numberItems_leafOf t _)

/-- A vector of the library's is copied, whatever it has become. -/
theorem ReadsBack.copiedVector {type : ValueType} {d : UInt32} {array : Dynarray} {w : CreateValue}
    (isVector : IsPrivType type) (fits : FitsVector c type array) (short : array.nItems < 2 ^ 32)
    (at_h : c.values[handle.toNat]? = some (.plain type d)) (mem : w ∈ p.values)
    (item : c.privVectorValues[d.toNat]? = some array)
    (becomes : Becomes c p.c.privVectorValues (.plain type d) w) :
    WrittenCopy c p f handle (readOf p w) := by
  generalize start : CreateValue.plain type d = u at becomes
  cases becomes with
  | same other =>
      subst start
      refine absurd ?_ other
      rcases isVector with rfl | ⟨t, rfl⟩
      · rfl
      · cases t
        all_goals rfl
  | emptied isVector' item' none_ =>
      cases start
      cases Option.some.inj (item.symm.trans item')
      have empty : array.items = [] := List.length_eq_zero_iff.mp none_
      have node : handleNode c handle = .ok (.vector, []) := by
        rcases isVector with rfl | ⟨t, rfl⟩
        · rw [handlesNode at_h item, empty]
          rfl
        · rw [numbersNode at_h item, empty]
          rfl
      exact copied_leaf node rfl
  | numbers item' some_ isArray =>
      cases start
      cases Option.some.inj (item.symm.trans item')
      exact back.copiedNumbers fits short at_h mem item isArray
  | handles isValue item' some_ isArray =>
      cases start
      cases Option.some.inj (item.symm.trans item')
      exact back.copiedHandles isValue fits short at_h mem item isArray
  | compressed isItems isType item' some_ isArray =>
      cases start
      cases Option.some.inj (item.symm.trans item')
      exact back.copiedCompressed isItems isType fits short some_ at_h mem item isArray
  | table => cases congrArg CreateValue.isSetMapVector start

/-- A value of a state is copied to the file. -/
theorem ReadsBack.copied (fit : CountsFit c) {v w : CreateValue}
    (at_h : c.values[handle.toNat]? = some v) (own : v.isSetMapVector = false)
    (at_w : p.values[handle.toNat]? = some w) (becomes : Becomes c p.c.privVectorValues v w) :
    WrittenCopy c p f handle (readOf p w) := by
  have mem := List.mem_of_getElem? at_w
  have fits := back.shaped.fits _ _ at_h
  have kept (other : v.pool ≠ some .priv) : w = v := becomes.kept other
  cases fits with
  | @inline type d inline =>
      have other : (CreateValue.plain type d).pool ≠ some .priv := by
        cases type
        all_goals first | exact inline.elim | nofun
      rw [kept other]
      exact copied_inline inline at_h
  | @text type d chars isText item =>
      have other : (CreateValue.plain type d).pool ≠ some .priv := by
        rcases isText.1 with rfl | rfl
        all_goals nofun
      rw [kept other] at mem ⊢
      exact back.copiedText fit.texts isText at_h mem item
  | bits size item =>
      rw [kept nofun] at mem ⊢
      exact back.copiedBits at_h mem size item
  | set keys hash keyVector item =>
      rw [kept nofun] at mem ⊢
      exact back.copiedSet fit.tables at_h mem item
  | map keys values hash keyVector valueVector item =>
      rw [kept nofun] at mem ⊢
      exact back.copiedMap fit.tables at_h mem item
  | @owned t d nItems items size some_ item =>
      have other : (CreateValue.mk t.vectorType false false true d).pool ≠ some .priv := by
        cases t
        all_goals nofun
      rw [kept other] at mem ⊢
      exact back.copiedOwned at_h mem item size
  | @vector type d table array isVector fits unfilled item =>
      cases (show table = false from own)
      exact back.copiedVector isVector fits (fit.vectors array (List.mem_of_getElem? item)) at_h mem
        item becomes

/-- Handles and what was written for them are related as nodes. -/
theorem ReadsBack.bisimulation (fit : CountsFit c) :
    IsBisimulationUpTo chunkOf (createGraph c) (fileGraph f) (Wrote c p) := by
  rintro (handle | label) (v | label') here
  · rcases here with ⟨⟨v₀, at_h, own⟩, isRead⟩
    rcases back.prepares.value at_h with ⟨w, at_w, at_w', becomes⟩
    cases (createToReadValue_readAt at_w').symm.trans isRead
    rw [readAt_eq at_w']
    exact back.copied fit at_h own at_w becomes
  · exact ⟨label', [], [], [], here, rfl, .refl _ _, .nil⟩
  · exact here.elim
  · cases here
    exact ⟨label, [], [], [], rfl, rfl, .refl _ _, .nil⟩

end Copies

/-! ## Sharing -/

theorem heapPool_congr {w w' : CreateValue} (type : w'.type = w.type)
    (flag : w'.isOutsideVector = w.isOutsideVector) : w'.heapPool = w.heapPool := by
  rw [CreateValue.heapPool, CreateValue.heapPool, CreateValue.pool, CreateValue.pool, type, flag]

/-- A type of vectors has two pools, the library's and the callers'. -/
theorem heapPool_inside {w w' : CreateValue} (type : w'.type = w.type)
    (pool : w.heapPool = some .outside) (flag : w'.isOutsideVector = false) :
    w'.heapPool = some .priv := by
  rw [CreateValue.heapPool, CreateValue.pool] at pool ⊢
  rw [type, flag]
  cases isType : w.type
  all_goals
    rw [isType] at pool
    first | rfl | cases pool

/-- The positions of the callers' vectors are behind those of the library's. -/
theorem Prepares.outside_apart (prepares : Prepares fuel c p) (shaped : Shaped c)
    {w w' : CreateValue} (mem : w ∈ p.values) (mem' : w' ∈ p.values) (type : w'.type = w.type)
    (outside : w.isOutsideVector = true) (inside : w'.isOutsideVector = false) :
    readData p w ≠ readData p w' := by
  intro same
  have pool := (prepares.shaped shaped w mem).owned outside
  have less := prepares.data_lt mem pool
  have less' := prepares.data_lt mem' (heapPool_inside type pool inside)
  have room : (heapObjects p).length < 2 ^ 32 := by
    have fits := shaped.room
    have le := length_heapObjects_le p
    rw [prepares.length_values] at le
    omega
  have own : ¬w'.isOutsideVector = true := by
    rw [inside]
    exact Bool.false_ne_true
  rw [readData, if_pos outside, readData, if_neg own] at same
  have index := congrArg UInt32.toNat same
  have counter : p.nPrivVectors.toNat = poolCount p .priv % 2 ^ 32 :=
    congrArg UInt32.toNat prepares.nPrivVectors
  rw [length_heapObjects] at room
  rw [UInt32.toNat_add, counter] at index
  omega

/-- Values are written as one value only if they are one value, or complete in their data. -/
theorem Prepares.apart (prepares : Prepares fuel c p) (shaped : Shaped c) {i j : Nat}
    {w w' : CreateValue} {k : Pool} (at_i : p.values[i]? = some w) (at_j : p.values[j]? = some w')
    (pool : w.heapPool = some k) (same : readOf p w = readOf p w') : i = j := by
  have type : w'.type = w.type := (congrArg Value.type same).symm
  have data : readData p w = readData p w' := congrArg Value.data same
  have mem := List.mem_of_getElem? at_i
  have mem' := List.mem_of_getElem? at_j
  have flag : w'.isOutsideVector = w.isOutsideVector := by
    cases outside : w.isOutsideVector
    · cases outside' : w'.isOutsideVector
      · rfl
      · exact absurd data.symm
          (prepares.outside_apart shaped mem' mem type.symm outside' outside)
    · cases inside : w'.isOutsideVector
      · exact absurd data (prepares.outside_apart shaped mem mem' type outside inside)
      · rfl
  have index : w.data.toNat = w'.data.toNat := by
    rw [readData, readData, flag] at data
    split at data
    · exact congrArg UInt32.toNat (add_right_cancel data)
    · exact congrArg UInt32.toNat data
  exact prepares.ranked.index_unique at_i at_j pool ((heapPool_congr type flag).trans pool) index

/-- A value without an object is complete in its data. -/
theorem inline_of_none {arrays : List Dynarray} {v w : CreateValue} (fits : v.Fits c)
    (becomes : Becomes c arrays v w) (none_ : w.heapPool = none) : IsInlineValue w.type w.data := by
  have some_ {k : Pool} (pool : w.heapPool = some k) : False := nomatch none_.symm.trans pool
  cases becomes with
  | same other =>
      cases fits with
      | inline inline => exact inline
      | text isText =>
          rcases isText.1 with rfl | rfl
          all_goals exact (some_ rfl).elim
      | bits | set | map => exact (some_ rfl).elim
      | vector isVector =>
          rcases isVector with rfl | ⟨t, rfl⟩
          · exact (some_ rfl).elim
          · exact (some_ (pool_number t _ _ _)).elim
      | @owned t d =>
          refine (some_ (k := .outside) ?_).elim
          cases t
          all_goals rfl
  | emptied => exact (rfl : (0 : UInt32) = 0)
  | @numbers t => exact (some_ (pool_number t _ _ _)).elim
  | handles isValue =>
      rcases isValue with rfl | rfl
      all_goals exact (some_ rfl).elim
  | @compressed t => exact (some_ (pool_number t _ _ _)).elim
  | table isVector isType =>
      rcases isType with rfl | ⟨-, rfl⟩
      · rcases isVector with rfl | ⟨t, rfl⟩
        · exact (some_ rfl).elim
        · exact (some_ (pool_number t _ _ _)).elim
      · exact (some_ rfl).elim

theorem Prepares.shared (prepares : Prepares fuel c p) (shaped : Shaped c) {handle' : UInt32}
    (isHandle : IsHandle c handle) (isHandle' : IsHandle c handle') {v : Value}
    (isRead : createToReadValue p handle = .ok v) (isRead' : createToReadValue p handle' = .ok v) :
    handle' = handle ∨ IsInlineValue v.type v.data := by
  rcases isHandle with ⟨u, at_u, -⟩
  rcases isHandle' with ⟨u', at_u', -⟩
  rcases prepares.value at_u with ⟨w, at_w, at_c, becomes⟩
  rcases prepares.value at_u' with ⟨w', at_w', at_c', -⟩
  have value : readOf p w = v := by
    rw [← readAt_eq at_c]
    exact Except.ok.inj ((createToReadValue_readAt at_c).symm.trans isRead)
  have value' : readOf p w' = v := by
    rw [← readAt_eq at_c']
    exact Except.ok.inj ((createToReadValue_readAt at_c').symm.trans isRead')
  rcases pool : w.heapPool with _ | k
  · have inline := inline_of_none (shaped.fits _ _ at_u) becomes pool
    have own : ¬w.isOutsideVector = true := fun outside => by
      cases pool.symm.trans ((prepares.shaped shaped w (List.mem_of_getElem? at_w)).owned outside)
    rw [← value, readOf, readData, if_neg own]
    exact Or.inr inline
  · exact Or.inl (UInt32.toNat_inj.mp
      (prepares.apart shaped at_w at_w' pool (value.trans value'.symm)).symm)

/-! ## What is written is read -/

/-- A state whose counts fit and whose vectors are narrow is read back from its file: every
handle is written as a value that is alike but for the order of sets and maps, the root is the
root of the file, and two handles are written as one value only if that is complete in its
data. -/
theorem written_alike (reachable : CreateReachable c) (fit : CountsFit c) (narrow : NarrowVectors c)
    (done : createOutputAndEndB fuel c = .ok file) :
    ∃ p f, prepare fuel c = .ok p ∧ init file = .ok (f, none) ∧
      createToReadValue p c.root = .ok f.root ∧ IsHandle c c.root ∧
      ∀ handle, IsHandle c handle → ∃ v, createToReadValue p handle = .ok v ∧
        AlikeUpTo chunkOf (createGraph c) (fileGraph f) (.inl handle) (.inl v) ∧
        ∀ handle', IsHandle c handle' → createToReadValue p handle' = .ok v →
          handle' = handle ∨ IsInlineValue v.type v.data := by
  rcases readsBack_of_narrow reachable narrow done with ⟨p, f, prepared, opened, back⟩
  have root : p.c.root = c.root := by
    rw [back.prepares.others]
  refine ⟨p, f, prepared, opened, ?_, ?_, fun handle isHandle => ?_⟩
  · rw [← root]
    exact back.root
  · exact reachable.rootOk.resolve_left back.prepares.root
  · have isRead := back.prepares.readsAs isHandle
    refine ⟨_, isRead.2, (back.bisimulation fit).alikeUpTo (R := Wrote c p) isRead, ?_⟩
    intro handle' isHandle' isRead'
    exact back.prepares.shared back.shaped isHandle isHandle' isRead.2 isRead'

theorem oneStringSet_fits : CountsFit oneStringSet := by
  refine ⟨fun type chars mem => ?_, fun array mem => ?_, fun v t mem parts => ?_⟩
  · have length := congrArg List.length (List.mem_singleton.mp mem)
    rw [textBuffer, stringUnicodeBuffer, List.length_append, length_bytesU32, length_chars] at length
    have wide : 0 < charLen type := by
      rw [charLen]
      split
      all_goals decide
    have small := Nat.le_mul_of_pos_right (chars.length + 1) wide
    have six : ([1, 0, 0, 0, 65, 0] : List UInt8).length = 6 := rfl
    omega
  · simp only [oneStringSet, List.mem_cons, List.not_mem_nil, or_false, or_self] at mem
    rw [mem]
    decide
  · cases oneStringSet_parts mem parts
    decide

theorem written_alike_oneString :
    ∃ p f, prepare 4 oneStringSet = .ok p ∧ init oneStringFile = .ok (f, none) ∧
      createToReadValue p oneStringSet.root = .ok f.root ∧ IsHandle oneStringSet oneStringSet.root ∧
      ∀ handle, IsHandle oneStringSet handle → ∃ v, createToReadValue p handle = .ok v ∧
        AlikeUpTo chunkOf (createGraph oneStringSet) (fileGraph f) (.inl handle) (.inl v) ∧
        ∀ handle', IsHandle oneStringSet handle' → createToReadValue p handle' = .ok v →
          handle' = handle ∨ IsInlineValue v.type v.data :=
  written_alike oneStringSet_reachable oneStringSet_fits oneStringSet_narrow output_oneStringSet

end Pointless
