import Pointless.RecreateReads

/-!
# The calls of re-creation

What `recreateNew` comes to for a value of an accepted file: one call for a value without
children, and for the others a call and then a loop over the children.
-/

namespace Pointless

open Attempts ByteMemory ExceptRules Unfolding

/-! ## One call -/

/-- A value that one call creates. -/
def recreateByCall (v : Value) (error : String) (call : Call) : Recreate UInt32 := do
  let handle ← recreateCall error fun c => call.run c
  recreateSetMapped v handle
  pure handle

/-- A call creates a value without children as it is in the file. -/
structure CreatesLeaf (p : OpenFile) (v : Value) (call : Call) : Prop where
  valid : ∀ c, call.Valid c
  narrow : call.Narrow
  leaf : ∃ content label, call.created = some content ∧ content.node = some (label, []) ∧
    fileNode p v = .ok (label, [])

/-- A value is re-created by one call. -/
def IsByCall (p : OpenFile) (v : Value) (made : Recreate UInt32) : Prop :=
  ∃ error call, CreatesLeaf p v call ∧
    ∀ s, s.normalizeBitvector = true → run made s = run (recreateByCall v error call) s

section Calls

variable {p : OpenFile} {v : Value} {nItems : UInt32} (rec : Value → Recreate UInt32)

/-- A value that is not on the heap has no place in a mapping. -/
theorem isByCall_unmapped {made : Recreate UInt32} {error : String} (call : Call)
    (unmapped : recreateMapping v.type = none) (leaf : CreatesLeaf p v call)
    (same : made = recreateCall error fun c => call.run c) : IsByCall p v made := by
  refine ⟨error, call, leaf, fun s _ => ?_⟩
  rw [recreateByCall, same]
  unfold recreateSetMapped
  rw [unmapped]
  simp only [pure_bind, bind_pure]

/-- The values that are complete in their data. -/
theorem recreateNew_plain {label : NodeLabel} (plain : plainLabel v.type v.data = some label) :
    IsByCall p v (recreateNew p rec v nItems) := by
  have node := fileNode_plain (p := p) plain
  have unmapped : recreateMapping v.type = none := by
    unfold plainLabel at plain
    cases type : v.type <;> rw [type] at plain <;> first | rfl | cases plain
  unfold plainLabel at plain
  unfold recreateNew
  cases type : v.type <;> rw [type] at plain <;> cases plain
  case i32 =>
    exact isByCall_unmapped (.i32 v.data.toInt32) unmapped
      ⟨fun _ => trivial, trivial, _, _, rfl, rfl, node⟩ rfl
  case u32 =>
    exact isByCall_unmapped (.u32 v.data) unmapped
      ⟨fun _ => trivial, trivial, _, _, rfl, rfl, node⟩ rfl
  case float =>
    exact isByCall_unmapped (.float v.data) unmapped
      ⟨fun _ => trivial, trivial, _, _, rfl, rfl, node⟩ rfl
  case null =>
    exact isByCall_unmapped .null unmapped ⟨fun _ => trivial, trivial, _, _, rfl, rfl, node⟩ rfl
  case emptySlot =>
    exact isByCall_unmapped .emptySlot unmapped
      ⟨fun _ => trivial, trivial, _, _, rfl, rfl, node⟩ rfl
  case boolean =>
    by_cases isTrue : v.data ≠ 0
    · rw [if_pos isTrue]
      rw [decide_eq_true isTrue] at node
      exact isByCall_unmapped .booleanTrue unmapped
        ⟨fun _ => trivial, trivial, _, _, rfl, rfl, node⟩ rfl
    · rw [if_neg isTrue]
      rw [decide_eq_false isTrue] at node
      exact isByCall_unmapped .booleanFalse unmapped
        ⟨fun _ => trivial, trivial, _, _, rfl, rfl, node⟩ rfl

/-- An empty vector. -/
theorem recreateNew_vectorEmpty (type : v.type = .vectorEmpty) :
    IsByCall p v (recreateNew p rec v nItems) := by
  have node : fileNode p v = .ok (.vector, []) := by
    unfold fileNode vectorNode readerVectorNItems
    rw [type]
    rfl
  unfold recreateNew
  rw [type]
  exact isByCall_unmapped .vectorValue (by rw [type]; rfl)
    ⟨fun _ => trivial, trivial, _, _, rfl, rfl, node⟩ rfl

/-- The bitvectors that are complete in their data. -/
theorem recreateNew_inlineBits (sound : p.Sound) (reach : Reachable p v)
    (isBits : isBitvectorType v.type = true) (inline : v.type ≠ .bitvector) :
    IsByCall p v (recreateNew p rec v nItems) := by
  obtain ⟨valid, bits, read, node⟩ := sound.inlineBits reach isBits inline
  have leaf : CreatesLeaf p v (.bitvectorCompressed v) :=
    ⟨fun _ => valid, trivial, _, _, rfl, Content.node_inlineBits isBits read, node⟩
  unfold recreateNew
  unfold isBitvectorType at isBits
  cases type : v.type <;> rw [type] at isBits <;>
    first
      | exact absurd type inline
      | cases isBits; done
      | exact isByCall_unmapped (.bitvectorCompressed v) (by rw [type]; rfl) leaf rfl

/-- The vectors of numbers. -/
theorem recreateNew_numbers (sound : p.Sound) (reach : Reachable p v) {t : NumberType}
    (type : v.type = t.vectorType) (count : readerVectorNItems p v = .ok nItems) :
    IsByCall p v (recreateNew p rec v nItems) := by
  obtain ⟨n, word, count', words, parts⟩ := sound.numberItems reach type
  cases count.symm.trans count'
  obtain ⟨items, read, size, same⟩ := parts 0 nItems (by rw [UInt32.toNat_zero, Nat.zero_add])
  have node : fileNode p v =
      .ok (numbersLabel t ((List.range nItems.toNat).map fun i => word (0 + i)), []) := by
    rw [fileNode_vector (by rw [type]; cases t <;> rfl) count]
    apply vectorNode_numbers type
    intro i less
    rw [Nat.zero_add]
    exact words i less
  have content : (if nItems = 0 then Content.inline .vectorEmpty 0
      else .owned t.vectorType items nItems).node =
        some (numbersLabel t ((List.range nItems.toNat).map fun i => word (0 + i)), []) := by
    split
    case isTrue empty =>
      subst empty
      rfl
    case isFalse =>
      rw [Content.node_owned, same]
      rfl
  have leaf : CreatesLeaf p v (.vectorOwner t items nItems) :=
    ⟨fun _ => size, trivial, _, _, rfl, content, node⟩
  have made : recreateNew p rec v nItems = recreateVectorOwner p t v nItems := by
    unfold recreateNew
    rw [type]
    cases t <;> rfl
  refine ⟨t.ownerName ++ " failure", _, leaf, fun s _ => ?_⟩
  rw [made, recreateVectorOwner, reading_bind read]
  rfl

/-- The texts. -/
theorem recreateNew_text (sound : p.Sound) (reach : Reachable p v)
    (type : v.type = .string ∨ v.type = .unicode) :
    IsByCall p v (recreateNew p rec v nItems) := by
  obtain ⟨m, read, terminated, node, short⟩ := textNode sound reach type
  have made : recreateNew p rec v nItems = recreateStringUnicode p v := by
    unfold recreateNew
    rcases type with type | type
    · rw [type]
    · rw [type]
  rw [made]
  unfold recreateStringUnicode
  rw [reading_bind read]
  rcases type with type | type
  · have chars : (stringChars v.type m).map UInt32.toNat = m.map UInt8.toNat := by
      rw [type]
      change (m.map UInt8.toUInt32).map UInt32.toNat = _
      rw [List.map_map]
      rfl
    have zero : 0 ∈ m := by
      rw [type] at terminated
      obtain ⟨x, mem, isZero⟩ := List.mem_map.mp terminated
      have nothing := congrArg UInt32.toNat isZero
      rw [UInt8.toNat_toUInt32] at nothing
      rw [← UInt8.toNat_inj.mp (nothing.trans UInt8.toNat_zero.symm)]
      exact mem
    rw [chars] at node short
    rw [type]
    refine ⟨"pointless_create_string_ascii" ++ " failure", .stringAscii m, ⟨fun _ => zero,
      trivial, _, _, rfl, if_pos short, node⟩, ?_⟩
    intro s _
    rfl
  · rw [type] at terminated node short
    rw [type]
    refine ⟨"pointless_create_unicode_ucs4" ++ " failure", .unicodeUcs4 (chars32 m),
      ⟨fun _ => terminated, trivial, _, _, rfl, if_pos short, node⟩, ?_⟩
    intro s _
    rfl

/-- The bitvectors on the heap; without any bits, one is compressed into nothing. -/
theorem recreateNew_heapBits (sound : p.Sound) (reach : Reachable p v) (type : v.type = .bitvector) :
    IsByCall p v (recreateNew p rec v nItems) := by
  obtain ⟨n, bits, count, copied, long, node⟩ := sound.heapBits reach type
  have made : ∀ s : RecreateState, s.normalizeBitvector = true →
      run (recreateNew p rec v nItems) s = run
        (recreateByCall v "pointless_create_bitvector() failure" (.bitvector bits n)) s := by
    intro s normalize
    have looked : (Except.ok s.normalizeBitvector : Res Bool) = .ok true :=
      congrArg Except.ok normalize
    unfold recreateNew
    rw [type]
    change run (recreateBitvector p v) s = _
    rw [recreateBitvector, reading_bind count, reading_bind copied, recreateByCall,
      recreateBitvectorCall, bind_assoc, run_looking_bind (s := s) looked]
    rfl
  by_cases empty : n = 0
  · subst empty
    have same : ∀ c : Create, Call.run c (.bitvector bits 0) =
        Call.run c (.bitvectorCompressed ⟨.bitvector0, 0⟩) := fun c => rfl
    refine ⟨"pointless_create_bitvector() failure", .bitvectorCompressed ⟨.bitvector0, 0⟩,
      ⟨fun _ => trivial, trivial, _, _, rfl, rfl, node⟩, fun s normalize => ?_⟩
    rw [made s normalize, recreateByCall, recreateByCall, funext same]
  · have some_ : bitsOf bits n.toNat ≠ [] := by
      intro none_
      have length := congrArg List.length none_
      rw [length_bitsOf] at length
      exact empty (UInt32.toNat_inj.mp length)
    have short : (bitsOf bits n.toNat).length < 2 ^ 32 := by
      rw [length_bitsOf]
      exact n.toNat_lt
    exact ⟨_, .bitvector bits n, ⟨fun _ => long, trivial, _, _, rfl, if_pos ⟨some_, short⟩, node⟩,
      made⟩

/-! ## A call and a loop -/

/-- A value that one call creates empty, and a loop fills. -/
def recreateFilled (v : Value) (error : String) (call : Call) (fill : UInt32 → Recreate Unit) :
    Recreate UInt32 := do
  let handle ← recreateCall error fun c => call.run c
  recreateSetMapped v handle
  fill handle
  pure handle

theorem recreateNew_values (sound : p.Sound) (reach : Reachable p v)
    (type : v.type = .vectorValue ∨ v.type = .vectorValueHashable)
    (count : readerVectorNItems p v = .ok nItems) :
    ∃ items : List Value, fileNode p v = .ok (.vector, items) ∧
      (∀ item ∈ items, Reachable p item) ∧
      recreateNew p rec v nItems = recreateFilled v "pointless_create_vector_value() failure"
        .vectorValue fun handle => items.forM (recreateItem rec handle) := by
  obtain ⟨n, item, count', read⟩ := sound.valueItems reach type
  cases count.symm.trans count'
  have made : recreateNew p rec v nItems = recreateVectorValue p rec v nItems := by
    unfold recreateNew
    rcases type with type | type
    · rw [type]
    · rw [type]
  have isVector : isVectorType v.type = true := by
    rcases type with type | type
    · rw [type]
      rfl
    · rw [type]
      rfl
  have each : ∀ handle, ((List.range nItems.toNat).forM fun i =>
      (reading (readerVectorValue p v i) : Recreate Value) >>= recreateItem rec handle) =
        ((List.range nItems.toNat).map item).forM (recreateItem rec handle) := by
    intro handle
    apply forM_reading
    rw [List.forall₂_map_right_iff, List.forall₂_same]
    exact fun i mem => (read i (List.mem_range.mp mem)).1
  refine ⟨(List.range nItems.toNat).map item, ?_, ?_, ?_⟩
  · have each : ∀ i < nItems.toNat, readerVectorValue p v (0 + i) = .ok (item (0 + i)) := by
      intro i less
      rw [Nat.zero_add]
      exact (read i less).1
    rw [fileNode_vector isVector count, vectorNode_values type each]
    simp only [Nat.zero_add]
  · intro w mem
    obtain ⟨i, inside, rfl⟩ := List.mem_map.mp mem
    exact (read i (List.mem_range.mp inside)).2
  · rw [made, recreateVectorValue, recreateFilled]
    simp only [each]
    rfl

theorem recreateNew_set {n : UInt32} (accepted : p.Accepted) (reach : Reachable p v)
    (type : v.type = .setValue) :
    ∃ keys : List Value, fileNode p v = .ok (.set, keys) ∧ (∀ key ∈ keys, Reachable p key) ∧
      recreateNew p rec v n = recreateFilled v ("pointless_create_set" ++ " failure") .set
        fun handle => keys.forM (recreateKey rec handle) := by
  obtain ⟨keys, node, reachable, loop⟩ := accepted.setKeys reach type
  refine ⟨keys, node, reachable, ?_⟩
  unfold recreateNew
  rw [type]
  change recreateSet p rec v = _
  rw [recreateSet, recreateFilled]
  simp only [loop]
  rfl

theorem recreateNew_map {n : UInt32} (accepted : p.Accepted) (reach : Reachable p v)
    (type : v.type = .mapValueValue) :
    ∃ entries : List (Value × Value),
      fileNode p v = .ok (.map, entries.flatMap fun entry => [entry.1, entry.2]) ∧
      (∀ entry ∈ entries, Reachable p entry.1 ∧ Reachable p entry.2) ∧
      recreateNew p rec v n = recreateFilled v ("pointless_create_map" ++ " failure") .map
        fun handle => entries.forM (recreateEntry rec handle) := by
  obtain ⟨entries, node, reachable, loop⟩ := accepted.mapEntries reach type
  refine ⟨entries, node, reachable, ?_⟩
  unfold recreateNew
  rw [type]
  change recreateMap p rec v = _
  rw [recreateMap, recreateFilled]
  simp only [loop]
  rfl

/-! ## Values of an accepted file -/

/-- The ways a value is re-created. -/
theorem recreateNew_cases (accepted : p.Accepted) (reach : Reachable p v)
    (count : isVectorType v.type = true → readerVectorNItems p v = .ok nItems) :
    IsByCall p v (recreateNew p rec v nItems) ∨
      (v.type = .vectorValue ∨ v.type = .vectorValueHashable) ∨ v.type = .setValue ∨
        v.type = .mapValueValue := by
  have sound := accepted.sound
  obtain ⟨noI64, noU64, known⟩ := (sound.checked v reach).type_ne
  have numbers (t : NumberType) (type : v.type = t.vectorType) :
      IsByCall p v (recreateNew p rec v nItems) :=
    recreateNew_numbers rec sound reach type (count (by rw [type]; cases t <;> rfl))
  have inline (isBits : isBitvectorType v.type = true) (inline : v.type ≠ .bitvector) :
      IsByCall p v (recreateNew p rec v nItems) :=
    recreateNew_inlineBits rec sound reach isBits inline
  have plain {label : NodeLabel} (plain : plainLabel v.type v.data = some label) :
      IsByCall p v (recreateNew p rec v nItems) := recreateNew_plain rec plain
  cases type : v.type with
  | vectorValue => exact .inr (.inl (.inl rfl))
  | vectorValueHashable => exact .inr (.inl (.inr rfl))
  | setValue => exact .inr (.inr (.inl rfl))
  | mapValueValue => exact .inr (.inr (.inr rfl))
  | vectorI8 => exact .inl (numbers .i8 type)
  | vectorU8 => exact .inl (numbers .u8 type)
  | vectorI16 => exact .inl (numbers .i16 type)
  | vectorU16 => exact .inl (numbers .u16 type)
  | vectorI32 => exact .inl (numbers .i32 type)
  | vectorU32 => exact .inl (numbers .u32 type)
  | vectorI64 => exact .inl (numbers .i64 type)
  | vectorU64 => exact .inl (numbers .u64 type)
  | vectorFloat => exact .inl (numbers .float type)
  | vectorEmpty => exact .inl (recreateNew_vectorEmpty rec type)
  | unicode => exact .inl (recreateNew_text rec sound reach (.inr type))
  | string => exact .inl (recreateNew_text rec sound reach (.inl type))
  | bitvector => exact .inl (recreateNew_heapBits rec sound reach type)
  | bitvector0 | bitvector1 | bitvector01 | bitvector10 | bitvectorPacked =>
      exact .inl (inline (by rw [type]; rfl) (by rw [type]; nofun))
  | i32 | u32 | float | boolean | null | emptySlot =>
      exact .inl (plain (by rw [type]; rfl))
  | i64 => exact absurd type noI64
  | u64 => exact absurd type noU64
  | unknown code => exact absurd type (known code)

/-- Some call counts the items of a vector. -/
theorem OpenFile.Sound.counted (sound : p.Sound) (reach : Reachable p v) :
    ∃ n, isVectorType v.type = true → readerVectorNItems p v = .ok n := by
  by_cases vector : isVectorType v.type = true
  · obtain ⟨n, count⟩ := sound.nItems reach vector
    exact ⟨n, fun _ => count⟩
  · exact ⟨0, fun isVector => absurd isVector vector⟩

/-- The children of a node are reachable. -/
theorem OpenFile.Accepted.children (accepted : p.Accepted) (reach : Reachable p v)
    {label : NodeLabel} {children : List Value} (node : fileNode p v = .ok (label, children)) :
    ∀ w ∈ children, Reachable p w := by
  have nothing : Value → Recreate UInt32 := fun _ => pure 0
  obtain ⟨n, count⟩ := accepted.sound.counted reach
  rcases recreateNew_cases nothing accepted reach count with byCall | type | type | type
  · obtain ⟨-, -, ⟨-, -, content, _, -, -, leaf⟩, -⟩ := byCall
    cases node.symm.trans leaf
    exact nofun
  · have vector : isVectorType v.type = true := by
      rcases type with type | type <;> rw [type] <;> rfl
    obtain ⟨items, node', reachable, -⟩ :=
      recreateNew_values nothing accepted.sound reach type (count vector)
    cases node.symm.trans node'
    exact reachable
  · obtain ⟨keys, node', reachable, -⟩ :=
      recreateNew_set (n := n) nothing accepted reach type
    cases node.symm.trans node'
    exact reachable
  · obtain ⟨entries, node', reachable, -⟩ :=
      recreateNew_map (n := n) nothing accepted reach type
    cases node.symm.trans node'
    intro w mem
    obtain ⟨entry, inside, isPart⟩ := List.mem_flatMap.mp mem
    rcases List.mem_pair.mp isPart with rfl | rfl
    · exact (reachable entry inside).1
    · exact (reachable entry inside).2

theorem OpenFile.Accepted.below (accepted : p.Accepted) (reach : Reachable p v) {w : Value}
    (below : Below (fileNode p) v w) : Reachable p w := by
  induction below with
  | refl => exact reach
  | tail _ child ih =>
      obtain ⟨label, children, node, mem⟩ := child
      exact accepted.children ih node _ mem

/-! ## Places in the mappings -/

/-- The place of a value in the mappings. -/
def slotKey (v : Value) : Option (RecreateMapping × UInt32) :=
  (recreateMapping v.type).map fun m => (m, v.data)

/-- A value lies inside the array for it. -/
theorem OpenFile.Sound.slot (sound : p.Sound) (reach : Reachable p v) {m : RecreateMapping}
    (mapped : recreateMapping v.type = some m) : v.data.toNat < (recreateCount p m).toNat := by
  have offset := (sound.checked v reach).offset
  have count : offsetCount p.header v.type = some (recreateCount p m) := by
    unfold recreateMapping at mapped
    cases type : v.type <;> rw [type] at mapped <;> cases mapped <;> rfl
  exact UInt32.lt_iff_toNat_lt.mp (offset _ count)

/-- What the accessors of a vector read depends on its place. -/
theorem readerVectorNItems_of_data {w : Value} (data : v.data = w.data)
    (some_ : v.type ≠ .vectorEmpty) (some_' : w.type ≠ .vectorEmpty) :
    readerVectorNItems p v = readerVectorNItems p w := by
  rw [readerVectorNItems, readerVectorNItems, if_neg some_, if_neg some_', data]

theorem readerVectorValue_of_data {w : Value} (data : v.data = w.data)
    (some_ : v.type ≠ .vectorEmpty) (some_' : w.type ≠ .vectorEmpty) :
    readerVectorValue p v = readerVectorValue p w := by
  funext i
  rw [readerVectorValue, readerVectorValue, readerVectorBasePtr, readerVectorBasePtr,
    if_neg some_, if_neg some_', data]

/-- The children of a vector that has a place: its items, if it is one of values, and none if
it is one of numbers; then its label is that of no items only if it has none. -/
theorem fileNode_vector_children (mapped : recreateMapping v.type = some .vector)
    {label : NodeLabel} {children : List Value} (node : fileNode p v = .ok (label, children)) :
    v.type ≠ .vectorEmpty ∧ ∃ n, readerVectorNItems p v = .ok n ∧
      (label = .vector ∧ (List.range n.toNat).mapM (readerVectorValue p v) = .ok children ∨
        children = [] ∧ (label = .vector → n = 0)) := by
  have isVector : isVectorType v.type = true := by
    unfold recreateMapping at mapped
    cases type : v.type <;> rw [type] at mapped <;> first | rfl | cases mapped
  have nonempty : v.type ≠ .vectorEmpty := by
    intro type
    rw [type] at mapped
    cases mapped
  refine ⟨nonempty, ?_⟩
  cases count : readerVectorNItems p v with
  | error stop =>
      unfold fileNode at node
      cases type : v.type <;> rw [type] at node isVector <;>
        first
          | (simp only [count, error_bind, isVectorType, if_true] at node; cases node; done)
          | cases isVector
  | ok n =>
      rw [fileNode_vector isVector count] at node
      refine ⟨n, rfl, ?_⟩
      unfold vectorNode at node
      split at node
      case h_1 =>
        obtain ⟨items, read, rest⟩ := bind_eq_ok.mp node
        cases rest
        simp only [Nat.zero_add] at read
        exact .inl ⟨rfl, read⟩
      case h_2 =>
        obtain ⟨items, read, rest⟩ := bind_eq_ok.mp node
        cases rest
        simp only [Nat.zero_add] at read
        exact .inl ⟨rfl, read⟩
      case h_3 t _ =>
        obtain ⟨words, read, rest⟩ := bind_eq_ok.mp node
        cases rest
        refine .inr ⟨rfl, fun isEmpty => ?_⟩
        have length := (mapM_eq_ok.mp read).length_eq
        rw [List.length_range] at length
        unfold numbersLabel at isEmpty
        split at isEmpty
        case isTrue none_ =>
          rw [none_] at length
          exact UInt32.toNat_inj.mp length
        case isFalse => split at isEmpty <;> cases isEmpty
      case h_4 isEmpty =>
        refine absurd ?_ nonempty
        rw [← vectorTag_type isEmpty]
        rfl
      case h_5 => cases node

/-- Only the arrays for vectors and for texts are for several types. -/
theorem type_of_mapping {t u : ValueType} {m : RecreateMapping}
    (mapped : recreateMapping t = some m) (mapped' : recreateMapping u = some m) :
    t = u ∨ m = .vector ∨ m = .stringUnicode := by
  unfold recreateMapping at mapped mapped'
  cases t <;> cases mapped <;>
    first
      | exact .inr (.inl rfl)
      | exact .inr (.inr rfl)
      | (cases u <;> first | exact .inl rfl | cases mapped')

/-- Values with one place and one label have the same children. -/
theorem fileNode_labelled {w : Value} {k : RecreateMapping × UInt32} {label : NodeLabel}
    {children children' : List Value} (keyV : slotKey v = some k) (keyW : slotKey w = some k)
    (nodeV : fileNode p v = .ok (label, children))
    (nodeW : fileNode p w = .ok (label, children')) : children = children' := by
  obtain ⟨m, mappedV, rfl⟩ := Option.map_eq_some_iff.mp keyV
  obtain ⟨m', mappedW, same⟩ := Option.map_eq_some_iff.mp keyW
  obtain ⟨rfl, data⟩ := Prod.mk.inj same
  by_cases type : v.type = w.type
  · have equal : v = w := by
      cases v
      cases w
      simp only at type data
      rw [type, data]
    subst equal
    cases nodeV.symm.trans nodeW
    rfl
  cases m' with
  | vector =>
      obtain ⟨some_, n, count, items⟩ := fileNode_vector_children mappedV nodeV
      obtain ⟨some_', n', count', items'⟩ := fileNode_vector_children mappedW nodeW
      rw [readerVectorNItems_of_data data.symm some_ some_', count'] at count
      cases count
      rw [readerVectorValue_of_data data.symm some_ some_'] at items
      rcases items with ⟨isVector, read⟩ | ⟨none_, empty⟩
      · rcases items' with ⟨-, read'⟩ | ⟨none_', empty'⟩
        · exact Except.ok.inj (read.symm.trans read')
        · rw [empty' isVector] at read
          cases read
          exact none_'.symm
      · rcases items' with ⟨isVector, read'⟩ | ⟨none_', -⟩
        · rw [empty isVector] at read'
          cases read'
          exact none_
        · rw [none_, none_']
  | stringUnicode =>
      have none_ {u : Value} {l : NodeLabel} {cs : List Value}
          (mapped : recreateMapping u.type = some .stringUnicode)
          (node : fileNode p u = .ok (l, cs)) : cs = [] := by
        unfold recreateMapping at mapped
        unfold fileNode at node
        cases type : u.type <;> rw [type] at mapped node <;> cases mapped <;>
          (obtain ⟨chars, -, rest⟩ := bind_eq_ok.mp node; cases rest; rfl)
      rw [none_ mappedV nodeV, none_ mappedW nodeW]
  | bitvector | set | map =>
      rcases type_of_mapping mappedV mappedW with same | isVector | isText
      · exact absurd same type
      · cases isVector
      · cases isText

end Calls

end Pointless
