import Pointless.AcyclicLookup
import Pointless.CreateGrowth
import Pointless.Lib.Unfolding
import Pointless.PyExportText

/-!
# Values as graphs

The values of a file are the nodes of a graph, and so are those of a create-time state: the
label of a node is what the value holds by itself, and its children are the items, the keys,
or the keys each with its value. A label leaves out what a reader of the values does not
see, which is how wide a text or a number is kept.

`OpenFile.Accepted.node` is that the nodes of an accepted file are there, and
`Denotes.handleNode` what a content of a handle is as a node.
-/

namespace Pointless

open ByteMemory ExceptRules Unfolding

/-! ## Labels -/

/-- What a value holds by itself. -/
inductive NodeLabel where
  | null
  | emptySlot
  | bool (b : Bool)
  | int (v : Int)
  | float (bits : UInt32)
  | text (chars : List Nat)
  | bits (bits : List Bool)
  | ints (items : List Int)
  | floats (items : List Nat)
  | vector
  | set
  | map
  deriving DecidableEq, Repr

/-- The label of a value that is complete in its data. -/
def plainLabel (type : ValueType) (data : UInt32) : Option NodeLabel :=
  match type with
  | .null => some .null
  | .emptySlot => some .emptySlot
  | .boolean => some (.bool (data ≠ 0))
  | .i32 => some (.int (dataI32 data))
  | .u32 => some (.int data.toNat)
  | .float => some (.float data)
  | _ => none

/-- The label of a vector of numbers, from the words of its items. -/
def numbersLabel (t : NumberType) (words : List Nat) : NodeLabel :=
  if words = [] then .vector else if t = .float then .floats words else .ints (words.map t.toInt)

/-- The bits of a bitvector. -/
def readBits (t : ValueType) (data : UInt32) (buffer : Ptr) : Res (List Bool) := do
  let nBits ← bitvectorNBits t data buffer
  (List.range nBits.toNat).mapM fun i => bitvectorIsSet t data buffer i

/-- The keys, each with its value. -/
def entryList {α : Type} (keys values : List α) : List α :=
  (keys.zip values).flatMap fun entry => [entry.1, entry.2]

/-! ## Nodes of a file -/

section FileNodes

variable (p : OpenFile) (v : Value)

/-- The items of a value vector. -/
def readItems : Res (List Value) := do
  let nItems ← readerVectorNItems p v
  (List.range nItems.toNat).mapM fun i => readerVectorValue p v i

/-- `n` items of a vector from `first` on, as a node. -/
def vectorNode (first n : Nat) : Res (NodeLabel × List Value) :=
  match vectorTag v.type with
  | some .value | some .valueHashable => do
      let items ← (List.range n).mapM fun i => readerVectorValue p v (first + i)
      pure (.vector, items)
  | some (.number t) => do
      let words ← (List.range n).mapM fun i => readerVectorWord p v t.size (first + i)
      pure (numbersLabel t words, [])
  | some .empty => pure (.vector, [])
  | none => fail "not a vector"

/-- The keys of a set, which are in the buckets that are not empty. -/
def setNode : Res (NodeLabel × List Value) := do
  let keyVector ← setKeyVector p v
  let keys ← readItems p keyVector
  pure (.set, keys.filter fun key => key.type ≠ .emptySlot)

/-- The keys of a map, each with the value in its bucket. -/
def mapNode : Res (NodeLabel × List Value) := do
  let keyVector ← mapKeyVector p v
  let valueVector ← mapValueVector p v
  let keys ← readItems p keyVector
  let values ← readItems p valueVector
  pure (.map, ((keys.zip values).filter fun entry => entry.1.type ≠ .emptySlot).flatMap
    fun entry => [entry.1, entry.2])

/-- A value of a file as a node. -/
def fileNode : Res (NodeLabel × List Value) :=
  match v.type with
  | .string | .unicode => do
      let chars ← readText p v
      pure (.text (chars.map UInt32.toNat), [])
  | .bitvector | .bitvector0 | .bitvector1 | .bitvector01 | .bitvector10 | .bitvectorPacked => do
      let buffer ← readerBitvectorPtr p v
      let bits ← readBits v.type v.data buffer
      pure (.bits bits, [])
  | .setValue => setNode p v
  | .mapValueValue => mapNode p v
  | t =>
      if isVectorType t then do
        let nItems ← readerVectorNItems p v
        vectorNode p v 0 nItems.toNat
      else
        match plainLabel t v.data with
        | some label => pure (label, [])
        | none => fail "not a value"

end FileNodes

/-! ## Nodes of a create-time state -/

/-- A vector of a create-time state as a node. -/
def createVectorNode (c : Create) (cv : CreateValue) : Res (NodeLabel × List UInt32) :=
  match vectorTag cv.type with
  | some .value | some .valueHashable => do
      let vector ← cvGetPrivVector c cv
      pure (.vector, vector.items.map UInt32.ofNat)
  | some (.number t) =>
      if cv.isOutsideVector then do
        let vector ← cvGetOutsideVector c cv
        pure (numbersLabel t (wordsAt t.size 0 vector.nItems.toNat vector.items), [])
      else do
        let vector ← cvGetPrivVector c cv
        pure (numbersLabel t vector.items, [])
  | some .empty => pure (.vector, [])
  | none => fail "not a vector"

/-- A value of a create-time state as a node. -/
def createValueNode (c : Create) (cv : CreateValue) : Res (NodeLabel × List UInt32) :=
  match cv.type with
  | .string | .unicode => do
      let buffer ← cvGetStringUnicode c cv
      pure (.text (textOf cv.type buffer), [])
  | .bitvector | .bitvector0 | .bitvector1 | .bitvector01 | .bitvector10 | .bitvectorPacked => do
      let buffer ← createBitvectorPtr c cv
      let bits ← readBits cv.type cv.data buffer
      pure (.bits bits, [])
  | .setValue => do
      let set ← cvGetSet c cv
      pure (.set, set.keys)
  | .mapValueValue => do
      let map ← cvGetMap c cv
      pure (.map, entryList map.keys map.values)
  | t =>
      if isVectorType t then createVectorNode c cv
      else
        match plainLabel t cv.data with
        | some label => pure (label, [])
        | none => fail "not a value"

/-- The value of a handle as a node. -/
def handleNode (c : Create) (handle : UInt32) : Res (NodeLabel × List UInt32) :=
  cvValueAt c handle >>= createValueNode c

/-! ## Contents as nodes -/

/-- What a handle stands for as a node; a text or a bitvector where its length fits 32 bits.
No bits at all do not tell that there is a bitvector. -/
def Content.node : Content → Option (NodeLabel × List UInt32)
  | .inline type data =>
      if isBitvectorType type then (readBits type data none).toOption.map fun read => (.bits read, [])
      else if type = .vectorEmpty then some (.vector, [])
      else (plainLabel type data).map fun label => (label, [])
  | .text _ chars => if chars.length < 2 ^ 32 then some (.text chars, []) else none
  | .bits shown =>
      if shown ≠ [] ∧ shown.length < 2 ^ 32 then some (.bits shown, []) else none
  | .vector type array =>
      match vectorTag type with
      | some .value => some (.vector, array.items.map UInt32.ofNat)
      | some (.number t) => some (numbersLabel t array.items, [])
      | _ => none
  | .owned type items nItems =>
      match vectorTag type with
      | some (.number t) => some (numbersLabel t (wordsAt t.size 0 nItems.toNat items), [])
      | _ => none
  | .set keys => some (.set, keys)
  | .map keys values => some (.map, entryList keys values)

theorem Content.node_inlineBits {type : ValueType} {data : UInt32} {shown : List Bool}
    (isBits : isBitvectorType type = true) (read : readBits type data none = .ok shown) :
    (Content.inline type data).node = some (.bits shown, []) := by
  change (if isBitvectorType type then _ else _) = _
  rw [if_pos isBits, read]
  rfl

theorem vectorTag_vectorType (t : NumberType) : vectorTag t.vectorType = some (.number t) := by
  cases t <;> rfl

theorem Content.node_owned (t : NumberType) (items : List UInt8) (nItems : UInt32) :
    (Content.owned t.vectorType items nItems).node =
      some (numbersLabel t (wordsAt t.size 0 nItems.toNat items), []) := by
  change (match vectorTag t.vectorType with | some (.number t) => _ | _ => _) = _
  rw [vectorTag_vectorType]

/-- The bits that a bitvector shows are read. -/
theorem ShowsBits.readBits {t : ValueType} {data : UInt32} {buffer : Ptr} {bits : List Bool}
    (shows : ShowsBits t data buffer bits) (short : bits.length < 2 ^ 32) :
    readBits t data buffer = .ok bits := by
  have size : (UInt32.ofNat bits.length).toNat = bits.length := Nat.mod_eq_of_lt short
  rw [Pointless.readBits, shows.nBits, ok_bind, size, mapM_eq_ok, List.forall₂_iff_get]
  refine ⟨List.length_range, fun i less less' => ?_⟩
  rw [List.get_eq_getElem, List.get_eq_getElem, List.getElem_range]
  exact shows.isSet i less'

/-- Only a bitvector shows any bits. -/
theorem ShowsBits.isBitvector {t : ValueType} {data : UInt32} {buffer : Ptr} {bits : List Bool}
    (shows : ShowsBits t data buffer bits) (some_ : bits ≠ []) (short : bits.length < 2 ^ 32) :
    isBitvectorType t = true := by
  by_contra other
  have nBits := shows.nBits
  have none_ : bitvectorNBits t data buffer = .ok 0 := by
    unfold bitvectorNBits
    unfold isBitvectorType at other
    cases t <;> first | rfl | exact absurd rfl other
  have zero := congrArg UInt32.toNat (Except.ok.inj (none_.symm.trans nBits))
  rw [UInt32.toNat_ofNat', Nat.mod_eq_of_lt short] at zero
  exact some_ (List.length_eq_zero_iff.mp zero.symm)

section Contents

variable {c : Create} {cv : CreateValue} {handle : UInt32}

/-- The tag of a vector is that of its type. -/
theorem isVectorType_of_tag {t : ValueType} {tag : VectorTag} (isTag : vectorTag t = some tag) :
    isVectorType t = true := by
  rw [← vectorTag_type isTag]
  cases tag with
  | number t => cases t <;> rfl
  | _ => rfl

theorem createValueNode_vector {tag : VectorTag} (isTag : vectorTag cv.type = some tag) :
    createValueNode c cv = createVectorNode c cv := by
  have vector := isVectorType_of_tag isTag
  unfold createValueNode
  cases type : cv.type <;> rw [type] at vector <;> first | rfl | cases vector

/-- A value of a pool of vectors says whether it is a caller's. -/
theorem isOutside_of_pool {tag : VectorTag} (isTag : vectorTag cv.type = some tag) {pool : Pool}
    (here : cv.pool = some pool) : cv.isOutsideVector = decide (pool = .outside) := by
  unfold CreateValue.pool at here
  unfold vectorTag at isTag
  cases type : cv.type <;> simp only [type] at here isTag <;> cases isTag <;>
    simp only [Option.some.injEq, reduceCtorEq] at here <;> subst here <;>
    cases cv.isOutsideVector <;> rfl

theorem createValueNode_text {chars : List Nat} (isType : cv.type = .string ∨ cv.type = .unicode)
    {buffer : List UInt8} (item : c.stringUnicodeValues[cv.data.toNat]? = some buffer)
    (text : textOf cv.type buffer = chars) : createValueNode c cv = .ok (.text chars, []) := by
  have read : cvGetStringUnicode c cv = .ok buffer := itemAt_eq_ok.mpr item
  unfold createValueNode
  rcases isType with type | type
  · rw [type] at text
    simp only [type, read, ok_bind, text, pure_eq_ok]
  · rw [type] at text
    simp only [type, read, ok_bind, text, pure_eq_ok]

theorem createValueNode_bits {bits : List Bool} (isBits : isBitvectorType cv.type = true)
    {buffer : Ptr} (pointer : createBitvectorPtr c cv = .ok buffer)
    (read : readBits cv.type cv.data buffer = .ok bits) :
    createValueNode c cv = .ok (.bits bits, []) := by
  unfold createValueNode
  unfold isBitvectorType at isBits
  cases type : cv.type <;> rw [type] at isBits read <;>
    first | cases isBits; done | simp only [pointer, ok_bind, read, pure_eq_ok]

theorem createValueNode_plain {type : ValueType} {data : UInt32} {label : NodeLabel}
    (plain : plainLabel type data = some label) :
    createValueNode c (.plain type data) = .ok (label, []) := by
  unfold createValueNode
  unfold plainLabel at plain
  cases type <;> cases plain <;> rfl

theorem fileNode_plain {p : OpenFile} {v : Value} {label : NodeLabel}
    (plain : plainLabel v.type v.data = some label) :
    fileNode p v = .ok (label, []) := by
  unfold fileNode
  unfold plainLabel at plain
  cases type : v.type <;> rw [type] at plain <;> cases plain <;> rfl

/-- A type that shows its bits without a buffer keeps them in its data. -/
theorem isInline_of_readBits {type : ValueType} {data : UInt32} {bits : List Bool}
    (read : readBits type data none = .ok bits) : type ≠ .bitvector := by
  rintro rfl
  cases read

/-- What a content is as a node, its handle is. -/
theorem Denotes.handleNode {content : Content} (denotes : Denotes c handle content)
    {node : NodeLabel × List UInt32} (isNode : content.node = some node) :
    handleNode c handle = .ok node := by
  obtain ⟨cv, at_h, -, shows⟩ := denotes
  rw [Pointless.handleNode, cvValueAt, itemAt_eq_ok.mpr at_h, ok_bind]
  cases content with
  | inline type data =>
      obtain rfl : cv = .plain type data := shows
      change (if isBitvectorType type then _ else _) = _ at isNode
      split at isNode
      case isTrue isBits =>
        cases read : readBits type data none with
        | error stop =>
            rw [read] at isNode
            cases isNode
        | ok bits =>
            rw [read] at isNode
            cases isNode
            have pointer : createBitvectorPtr c (.plain type data) = .ok none :=
              if_neg (isInline_of_readBits read)
            exact createValueNode_bits isBits pointer read
      case isFalse =>
        split at isNode
        case isTrue empty =>
          subst empty
          cases isNode
          rfl
        case isFalse =>
          obtain ⟨label, plain, rfl⟩ := Option.map_eq_some_iff.mp isNode
          exact createValueNode_plain plain
  | text type chars =>
      obtain ⟨rfl, isText, item⟩ := shows
      change (if chars.length < 2 ^ 32 then _ else _) = _ at isNode
      split at isNode
      case isTrue short =>
        cases isNode
        exact createValueNode_text isText.1 item ((textOf_textBuffer_iff isText).mpr short)
      case isFalse => cases isNode
  | bits shown =>
      obtain ⟨buffer, pointer, shows⟩ := shows
      change (if shown ≠ [] ∧ shown.length < 2 ^ 32 then _ else _) = _ at isNode
      split at isNode
      case isTrue some_ =>
        cases isNode
        exact createValueNode_bits (shows.isBitvector some_.1 some_.2) pointer
          (shows.readBits some_.2)
      case isFalse => cases isNode
  | vector type array =>
      obtain ⟨rfl, pool, item⟩ := shows
      have read : cvGetPrivVector c cv = .ok array := itemAt_eq_ok.mpr item
      change (match vectorTag cv.type with | some .value => _ | some (.number t) => _ | _ => _) = _
        at isNode
      split at isNode
      case h_1 isTag =>
        cases isNode
        rw [createValueNode_vector isTag]
        unfold createVectorNode
        rw [isTag]
        simp only [read, ok_bind, pure_eq_ok]
      case h_2 t isTag =>
        cases isNode
        rw [createValueNode_vector isTag]
        unfold createVectorNode
        rw [isTag]
        simp only [isOutside_of_pool isTag pool, read, ok_bind, pure_eq_ok]
        rfl
      case h_3 => cases isNode
  | owned type items nItems =>
      obtain ⟨rfl, pool, item⟩ := shows
      have read : cvGetOutsideVector c cv = .ok ⟨items, nItems⟩ := itemAt_eq_ok.mpr item
      change (match vectorTag cv.type with | some (.number t) => _ | _ => _) = _ at isNode
      split at isNode
      case h_1 t isTag =>
        cases isNode
        rw [createValueNode_vector isTag]
        unfold createVectorNode
        rw [isTag]
        simp only [isOutside_of_pool isTag pool, read, ok_bind, pure_eq_ok]
        rfl
      case h_2 => cases isNode
  | set keys =>
      obtain ⟨pool, set, item, rfl⟩ := shows
      cases isNode
      have read : cvGetSet c cv = .ok set := itemAt_eq_ok.mpr item
      unfold createValueNode
      simp only [type_of_setPool pool, read, ok_bind, pure_eq_ok]
  | map keys values =>
      obtain ⟨pool, map, item, rfl, rfl⟩ := shows
      cases isNode
      have read : cvGetMap c cv = .ok map := itemAt_eq_ok.mpr item
      unfold createValueNode
      simp only [type_of_mapPool pool, read, ok_bind, pure_eq_ok]

end Contents

end Pointless
