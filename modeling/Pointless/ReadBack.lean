import Pointless.NarrowVectors
import Pointless.RecreateReads

/-!
# Objects read back

What the accessors of a reader find in a file that has been written, object by object. The
offset tables have to fit the heap, for which `NarrowVectors` is the condition.
-/

namespace Pointless

open ByteMemory ExceptRules Placement Ranks

variable {c : Create} {fuel : Nat} {file : List UInt8} {p : Prepared} {f : OpenFile}
  {w : CreateValue} {k : Pool}

/-! ## The file -/

/-- The value that a reader has for a value of the state that is written. -/
def readOf (p : Prepared) (w : CreateValue) : Value := ⟨w.type, readData p w⟩

theorem createToReadValue_eq (p : Prepared) (handle : UInt32) :
    createToReadValue p handle = readOf p <$> cvValueAt p.c handle := rfl

/-- Where an object is found, and what is there. -/
def FoundAt (p : Prepared) (f : OpenFile) (w : CreateValue) (k : Pool) (off : Nat)
    (b : List UInt8) : Prop :=
  pcOffset (f.offsetsOf k) (readData p w) = .ok off ∧ objectBytes p w = .ok b ∧ Holds f.heap off b

/-- `f` is the file that has been written for `c`, through the state `p`. -/
structure ReadsBack (fuel : Nat) (c : Create) (p : Prepared) (f : OpenFile) : Prop where
  prepares : Prepares fuel c p
  wf : WellFormed c
  shaped : Shaped c
  root : createToReadValue p p.c.root = .ok f.root
  object : ∀ (w : CreateValue) (k : Pool), w ∈ p.values → w.heapPool = some k →
    ∃ off b, FoundAt p f w k off b

theorem Written.readsBack {header : Header} {bytes : List (List UInt8)}
    (written : Written p file header bytes) (laid : LaidOut fuel c p header bytes)
    (same : offsetsOf p bytes = places 4 0 (sizes bytes)) :
    ReadsBack fuel c p (fileOf header (offsetsOf p bytes) (bytes.foldl padded [])) := by
  refine ⟨laid.prepares, laid.wf, laid.shaped, ?_, fun w k mem pool => ?_⟩
  · rcases bind_eq_ok.mp written.isHeader with ⟨root, found, isHeader⟩
    cases isHeader
    exact found
  · have here := laid.prepares.object mem pool
    have room : (heapObjects p).length < 2 ^ 32 := by
      have fits := laid.shaped.room
      have le := length_heapObjects_le p
      rw [laid.prepares.length_values] at le
      omega
    have inside := (List.getElem?_eq_some_iff.mp here).1
    rw [laid.hasBytes.length_eq] at inside
    rcases holds_padded (List.getElem?_eq_getElem inside) [] with ⟨off, place, holds⟩
    have done := laid.hasBytes.get (by rw [laid.hasBytes.length_eq]; exact inside) inside
    rw [List.get_eq_getElem, List.get_eq_getElem, (List.getElem?_eq_some_iff.mp here).2] at done
    have entry : (offsetsOf p bytes)[poolStart p k + w.data.toNat]? = some off := by
      rw [same]
      exact place
    have narrow : off < 2 ^ 64 := laid.narrow off (List.mem_of_getElem? entry)
    refine ⟨off, _, ?_, done, holds⟩
    rw [pcOffset, laid.counts.offset (laid.prepares.shaped laid.shaped w mem) pool
      (laid.prepares.data_lt mem pool) room entry]
    exact congrArg Except.ok (Nat.mod_eq_of_lt narrow)

/-- The file of a state with narrow vectors can be read back. -/
theorem readsBack_of_narrow (reachable : CreateReachable c) (narrow : NarrowVectors c)
    (done : createOutputAndEndB fuel c = .ok file) :
    ∃ p f, prepare fuel c = .ok p ∧ init file = .ok (f, none) ∧ ReadsBack fuel c p f := by
  rcases reachable.shaped with ⟨wf, shaped⟩
  rcases bind_eq_ok.mp done with ⟨p, prepared, out⟩
  have prepares := prepare_prepares reachable prepared
  rcases writeOut_written (prepares.shaped shaped) out with ⟨header, bytes, written⟩
  have laid := written.laidOut prepares wf shaped
  refine ⟨p, _, prepared, written.opens laid, written.readsBack laid ?_⟩
  exact (places_eq_iff (announcedSizes_short written.hasBytes)).mpr
    ((prepares.narrow_iff shaped written.hasBytes).mpr narrow)

/-! ## Parts of a buffer -/

theorem partOf_eq {buffer part : List UInt8} {off n : Nat} (length : part.length = n)
    (holds : Holds buffer off part) : partOf buffer off n = .ok part := by
  rw [partOf, ← length, holds.slice]

/-- A header and the part behind it. -/
theorem partOf_rest {header part : List UInt8} {off n : Nat} (isOff : header.length = off)
    (length : part.length = n) : partOf (header ++ part) off n = .ok part := by
  refine partOf_eq length ?_
  have holds := holds_append header part []
  rwa [List.append_nil, isOff] at holds

/-! ## Texts and bitvectors -/

/-- The length of a text leaves room for that of its terminator. -/
def ShortTexts (c : Create) : Prop :=
  ∀ type chars, textBuffer type chars ∈ c.stringUnicodeValues → chars.length + 1 < 2 ^ 32

theorem length_chars (type : ValueType) (chars : List Nat) :
    (((chars ++ [0]).map (encode (charWidth type))).flatten).length
      = (chars.length + 1) * charLen type := by
  rw [length_flatten_of_wide (w := charWidth type), List.length_map, List.length_append,
    Nat.mul_comm]
  · rfl
  · intro item mem
    rcases List.mem_map.mp mem with ⟨n, -, rfl⟩
    exact length_encode _ _

theorem objectBytes_text {d : UInt32} {type : ValueType} {chars : List Nat}
    (isText : type = .string ∨ type = .unicode) (short : chars.length + 1 < 2 ^ 32)
    (item : p.c.stringUnicodeValues[d.toNat]? = some (textBuffer type chars)) :
    objectBytes p (.plain type d) = .ok (textBuffer type chars) := by
  have pool : (CreateValue.plain type d).heapPool = some .text := by
    rcases isText with rfl | rfl
    all_goals rfl
  have len : (UInt32.ofNat chars.length + 1).toNat = chars.length + 1 := by
    rw [ofNat_succ]
    exact Nat.mod_eq_of_lt short
  have found : cvGetStringUnicode p.c (.plain type d) = .ok (textBuffer type chars) :=
    itemAt_eq_ok.mpr item
  have loaded : loadU32 (textBuffer type chars) 0 = .ok (UInt32.ofNat chars.length) :=
    loadU32_holds ⟨Nat.zero_le _, List.prefix_append _ _⟩
  unfold objectBytes
  rw [pool]
  dsimp only
  rw [found, ok_bind, loaded, ok_bind]
  have part : partOf (textBuffer type chars) 4
      ((UInt32.ofNat chars.length + 1).toNat * charLen (CreateValue.plain type d).type)
      = .ok ((chars ++ [0]).map (encode (charWidth type))).flatten :=
    partOf_rest (length_bytesU32 _) (by rw [length_chars, len]; rfl)
  rw [part, ok_bind]
  rfl

theorem objectBytes_bits {d nBits : UInt32} {bits : List UInt8}
    (size : bits.length = iceil nBits.toNat 8)
    (item : p.c.bitvectorValues[d.toNat]? = some (bytesU32 nBits ++ bits)) :
    objectBytes p (.plain .bitvector d) = .ok (bytesU32 nBits ++ bits) := by
  have found : cvGetBitvector p.c (.plain .bitvector d) = .ok (bytesU32 nBits ++ bits) :=
    itemAt_eq_ok.mpr item
  have loaded : loadU32 (bytesU32 nBits ++ bits) 0 = .ok nBits :=
    loadU32_holds ⟨Nat.zero_le _, List.prefix_append _ _⟩
  have pool : (CreateValue.plain .bitvector d).heapPool = some .bits := rfl
  unfold objectBytes
  rw [pool]
  dsimp only
  rw [found, ok_bind, loaded, ok_bind, partOf_rest (length_bytesU32 _) size, ok_bind]
  rfl

section ReadsBack

variable (back : ReadsBack fuel c p f)

include back

theorem ReadsBack.texts : p.c.stringUnicodeValues = c.stringUnicodeValues := by
  rw [back.prepares.others]

theorem ReadsBack.bitvectors : p.c.bitvectorValues = c.bitvectorValues := by
  rw [back.prepares.others]

/-- The characters of a text, with the terminator. -/
theorem ReadsBack.text {d : UInt32} {type : ValueType} {chars : List Nat}
    (mem : .plain type d ∈ p.values) (isText : type = .string ∨ type = .unicode)
    (short : chars.length + 1 < 2 ^ 32)
    (item : c.stringUnicodeValues[d.toNat]? = some (textBuffer type chars)) :
    ∃ rest, readerStringUnicodeValue f (readOf p (.plain type d))
      = .ok (((chars ++ [0]).map (encode (charWidth type))).flatten ++ rest) := by
  have pool : (CreateValue.plain type d).heapPool = some .text := by
    rcases isText with rfl | rfl
    all_goals rfl
  rcases back.object _ _ mem pool with ⟨off, b, entry, done, holds⟩
  rw [← back.texts] at item
  cases Except.ok.inj ((objectBytes_text isText short item).symm.trans done)
  rcases holds.right.drop_eq with ⟨rest, found⟩
  rw [length_bytesU32] at found
  refine ⟨rest, ?_⟩
  have entry' : pcOffset f.stringUnicodeOffsets (readOf p (.plain type d)).data = .ok off := entry
  rw [readerStringUnicodeValue, entry', ok_bind, found]
  rfl

/-- The buffer of a bitvector. -/
theorem ReadsBack.bits {d nBits : UInt32} {bits : List UInt8}
    (mem : .plain .bitvector d ∈ p.values) (size : bits.length = iceil nBits.toNat 8)
    (item : c.bitvectorValues[d.toNat]? = some (bytesU32 nBits ++ bits)) :
    ∃ rest, readerBitvectorPtr f (readOf p (.plain .bitvector d))
      = .ok (some (bytesU32 nBits ++ bits ++ rest)) := by
  rcases back.object _ .bits mem rfl with ⟨off, b, entry, done, holds⟩
  rw [← back.bitvectors] at item
  cases Except.ok.inj ((objectBytes_bits size item).symm.trans done)
  rcases holds.drop_eq with ⟨rest, found⟩
  refine ⟨rest, ?_⟩
  have entry' : pcOffset f.bitvectorOffsets (readOf p (.plain .bitvector d)).data = .ok off := entry
  rw [readerBitvectorPtr]
  change readerBitvectorBuffer f _ = _
  rw [readerBitvectorBuffer, entry', ok_bind, found]
  rfl

/-! ## Vectors -/

/-- A vector with its count, and what stands behind it. -/
def VectorAt (f : OpenFile) (v : Value) (n : UInt32) (items : List UInt8) : Prop :=
  readerVectorNItems f v = .ok n ∧
    ∃ base, readerVectorBasePtr f v = .ok base ∧ Holds f.heap base items

omit back in
theorem vectorAt_of_found {n : UInt32} {off : Nat} {items : List UInt8}
    (vector : k = .priv ∨ k = .outside) (isVector : w.type ≠ .vectorEmpty)
    (found : FoundAt p f w k off (bytesU32 n ++ items)) : VectorAt f (readOf p w) n items := by
  rcases found with ⟨entry, -, holds⟩
  have entry' : pcOffset f.vectorOffsets (readOf p w).data = .ok off := by
    rcases vector with rfl | rfl
    all_goals exact entry
  have other : ¬(readOf p w).type = .vectorEmpty := isVector
  refine ⟨?_, off + 4, ?_, ?_⟩
  · rw [readerVectorNItems, if_neg other, entry', ok_bind, loadU32_holds holds.left]
  · rw [readerVectorBasePtr, if_neg other, entry']
    rfl
  · have items := holds.right
    rwa [length_bytesU32] at items

omit back in
/-- A row of words is read back word by word. -/
theorem VectorAt.word {v : Value} {n : UInt32} {width : Nat} {words : List Nat}
    (vector : VectorAt f v n (words.map (encode width)).flatten)
    (narrow : ∀ x ∈ words, x < 256 ^ width) {i x : Nat} (at_i : words[i]? = some x) :
    readerVectorWord f v width i = .ok x := by
  rcases vector with ⟨-, base, isBase, holds⟩
  rw [readerVectorWord, isBase, ok_bind, loadWord, holds.load_word at_i,
    Nat.mod_eq_of_lt (narrow x (List.mem_of_getElem? at_i))]

omit back in
/-- A row of values is read back value by value. -/
theorem VectorAt.value {v : Value} {n : UInt32} {values : List Value}
    (vector : VectorAt f v n (values.map bytesValue).flatten)
    (known : ∀ x ∈ values, x.type.Known) {i : Nat} {x : Value} (at_i : values[i]? = some x) :
    readerVectorValue f v i = .ok x := by
  rcases vector with ⟨-, base, isBase, holds⟩
  have here : Holds f.heap (base + 8 * i) (bytesValue x) := by
    refine holds.item (fun item mem => ?_) ?_
    · rcases List.mem_map.mp mem with ⟨y, -, rfl⟩
      exact length_bytesValue y
    · rw [List.getElem?_map, at_i]
      rfl
  rw [readerVectorValue, isBase, ok_bind,
    loadValue_holds (known x (List.mem_of_getElem? at_i)) here]

omit back in
theorem length_data {array : Dynarray} {width : Nat} (size : array.itemSize = width) :
    array.data.length = width * array.items.length := by
  rw [Dynarray.data, size, length_flatten_of_wide (w := width), List.length_map]
  intro item mem
  rcases List.mem_map.mp mem with ⟨n, -, rfl⟩
  exact length_encode _ _

/-- A vector of numbers. -/
theorem ReadsBack.numbers {t : NumberType} {table : Bool} {d : UInt32} {array : Dynarray}
    (mem : ⟨t.vectorType, false, table, false, d⟩ ∈ p.values)
    (item : p.c.privVectorValues[d.toNat]? = some array) (size : array.itemSize = t.size)
    (short : array.nItems < 2 ^ 32) :
    VectorAt f (readOf p ⟨t.vectorType, false, table, false, d⟩) (UInt32.ofNat array.nItems)
      (array.items.map (encode t.size)).flatten := by
  have pool := pool_number t false table d
  rcases back.object _ _ mem pool with ⟨off, b, entry, done, holds⟩
  have width := t.vectorItemLen_vectorType
  have own : ¬((CreateValue.mk t.vectorType false table false d).type = .vectorValue ∨
      (CreateValue.mk t.vectorType false table false d).type = .vectorValueHashable) :=
    not_value_type t
  have count : (UInt32.ofNat array.nItems).toNat = array.items.length := Nat.mod_eq_of_lt short
  have bytes : objectBytes p ⟨t.vectorType, false, table, false, d⟩
      = .ok (bytesU32 (UInt32.ofNat array.nItems) ++ array.data) := by
    unfold objectBytes
    rw [pool]
    dsimp only
    rw [cvGetPrivVector, itemAt_eq_ok.mpr item, ok_bind, privItemBytes,
      if_pos ⟨own, Bool.false_ne_true⟩]
    dsimp only
    rw [width, count, Option.getD_some, partOf_eq (length_data size) ⟨Nat.zero_le _, ?_⟩, ok_bind]
    · rfl
    · exact List.prefix_refl _
  cases Except.ok.inj (bytes.symm.trans done)
  rw [Dynarray.data, size] at holds done
  refine vectorAt_of_found (Or.inl rfl) ?_ ⟨entry, done, holds⟩
  cases t
  all_goals
    intro same
    cases same

/-- A caller's vector. -/
theorem ReadsBack.owned {t : NumberType} {d nItems : UInt32} {items : List UInt8}
    (mem : ⟨t.vectorType, false, false, true, d⟩ ∈ p.values)
    (item : c.outsideVectorValues[d.toNat]? = some ⟨items, nItems⟩)
    (size : items.length = t.size * nItems.toNat) :
    VectorAt f (readOf p ⟨t.vectorType, false, false, true, d⟩) nItems items := by
  have pool : (CreateValue.mk t.vectorType false false true d).heapPool = some .outside := by
    cases t
    all_goals rfl
  have width : outsideItemLen t.vectorType = some t.size := by
    rw [outsideItemLen, if_neg (not_value_type t), t.vectorItemLen_vectorType]
  rcases back.object _ _ mem pool with ⟨off, b, entry, done, holds⟩
  have item' : p.c.outsideVectorValues[d.toNat]? = some ⟨items, nItems⟩ := by
    rw [back.prepares.others]
    exact item
  have bytes : objectBytes p ⟨t.vectorType, false, false, true, d⟩
      = .ok (bytesU32 nItems ++ items) := by
    unfold objectBytes
    rw [pool]
    dsimp only
    rw [cvGetOutsideVector, itemAt_eq_ok.mpr item', ok_bind, outsideItemBytes, width]
    dsimp only
    rw [partOf_eq size ⟨Nat.zero_le _, List.prefix_refl _⟩, ok_bind]
    rfl
  cases Except.ok.inj (bytes.symm.trans done)
  refine vectorAt_of_found (Or.inr rfl) ?_ ⟨entry, done, holds⟩
  cases t
  all_goals
    intro same
    cases same

/-- The handles of an array name values of the state. -/
def Names (c : Create) (array : Dynarray) (values : List CreateValue) : Prop :=
  List.Forall₂ (fun n v => c.values[n]? = some v) array.items values

omit back in
/-- The bytes of the items of a vector of handles. -/
theorem handleItems {array : Dynarray} {values : List CreateValue} {bytes : CreateValue → List UInt8}
    (size : array.itemSize = 4) (narrow : ∀ n ∈ array.items, n < 2 ^ 32)
    (short : array.nItems < 2 ^ 32) (names : Names p.c array values)
    (each : ∀ handle u, cvValueAt p.c handle = .ok u →
      handleItemBytes p w handle = .ok (bytes u)) :
    (List.range (UInt32.ofNat array.nItems).toNat).mapM (fun i => do
      let handle ← array.itemAtU32 i
      handleItemBytes p w handle) = .ok (values.map bytes) := by
  have count : (UInt32.ofNat array.nItems).toNat = array.items.length := Nat.mod_eq_of_lt short
  rw [count, mapM_eq_ok, List.forall₂_iff_get]
  refine ⟨by rw [List.length_range, List.length_map, names.length_eq], fun i less less' => ?_⟩
  rw [List.length_range] at less
  rw [List.get_eq_getElem, List.get_eq_getElem, List.getElem_range, List.getElem_map,
    itemAtU32_eq size narrow less, ok_bind]
  refine each _ _ (itemAt_eq_ok.mpr ?_)
  rw [toNat_handle (narrow _ (List.getElem_mem less))]
  exact names.get less (by rwa [← names.length_eq])

/-- The bytes of a vector of handles. -/
theorem ReadsBack.handleVector {array : Dynarray} {values : List CreateValue}
    {bytes : CreateValue → List UInt8} (mem : w ∈ p.values) (pool : w.heapPool = some .priv)
    (isHandles : w.type = .vectorValue ∨ w.type = .vectorValueHashable ∨
      w.isCompressedVector = true)
    (item : p.c.privVectorValues[w.data.toNat]? = some array) (size : array.itemSize = 4)
    (narrow : ∀ n ∈ array.items, n < 2 ^ 32) (short : array.nItems < 2 ^ 32)
    (names : Names p.c array values)
    (each : ∀ handle u, cvValueAt p.c handle = .ok u →
      handleItemBytes p w handle = .ok (bytes u)) :
    VectorAt f (readOf p w) (UInt32.ofNat array.nItems) (values.map bytes).flatten := by
  rcases back.object _ _ mem pool with ⟨off, b, entry, done, holds⟩
  have other : ¬(¬(w.type = .vectorValue ∨ w.type = .vectorValueHashable) ∧
      ¬w.isCompressedVector) := by
    rintro ⟨notValue, own⟩
    rcases isHandles with same | same | same
    · exact notValue (Or.inl same)
    · exact notValue (Or.inr same)
    · exact own same
  have written : objectBytes p w
      = .ok (bytesU32 (UInt32.ofNat array.nItems) ++ (values.map bytes).flatten) := by
    unfold objectBytes
    rw [pool]
    dsimp only
    rw [cvGetPrivVector, itemAt_eq_ok.mpr item, ok_bind, privItemBytes, if_neg other,
      handleItems size narrow short names each]
    rfl
  cases Except.ok.inj (written.symm.trans done)
  refine vectorAt_of_found (Or.inl rfl) (fun empty => ?_) ⟨entry, done, holds⟩
  rw [CreateValue.heapPool, CreateValue.pool, empty] at pool
  cases pool

/-- A vector of values. -/
theorem ReadsBack.values {type : ValueType} {table : Bool} {d : UInt32} {array : Dynarray}
    {values : List CreateValue} (isValue : type = .vectorValue ∨ type = .vectorValueHashable)
    (mem : ⟨type, false, table, false, d⟩ ∈ p.values)
    (item : p.c.privVectorValues[d.toNat]? = some array) (size : array.itemSize = 4)
    (narrow : ∀ n ∈ array.items, n < 2 ^ 32) (short : array.nItems < 2 ^ 32)
    (names : Names p.c array values) :
    VectorAt f (readOf p ⟨type, false, table, false, d⟩) (UInt32.ofNat array.nItems)
      ((values.map (readOf p)).map bytesValue).flatten := by
  have pool : (CreateValue.mk type false table false d).heapPool = some .priv := by
    rcases isValue with rfl | rfl
    all_goals rfl
  rw [List.map_map]
  refine back.handleVector mem pool (isValue.imp_right Or.inl) item size narrow short names ?_
  intro handle u read
  rw [handleItemBytes, if_pos isValue, createToReadValue_eq, read]
  rfl

/-- The word that an item of a compressed vector is written as. -/
def compressedWord (t : NumberType) (item : CreateValue) : Nat :=
  decode (compressedItemBytes t.vectorType item)

omit back in
theorem length_compressedItemBytes {t : NumberType} (narrow : t ≠ .i64 ∧ t ≠ .u64)
    (item : CreateValue) : (compressedItemBytes t.vectorType item).length = t.size := by
  cases t
  case i64 => exact absurd rfl narrow.1
  case u64 => exact absurd rfl narrow.2
  all_goals exact length_encode _ _

omit back in
theorem compressedItemBytes_eq {t : NumberType} (narrow : t ≠ .i64 ∧ t ≠ .u64)
    (item : CreateValue) :
    compressedItemBytes t.vectorType item = encode t.size (compressedWord t item) := by
  have back := encode_decode (compressedItemBytes t.vectorType item)
  rw [length_compressedItemBytes narrow] at back
  exact back.symm

omit back in
theorem compressedWord_lt {t : NumberType} (narrow : t ≠ .i64 ∧ t ≠ .u64) (item : CreateValue) :
    compressedWord t item < 256 ^ t.size := by
  have less := decode_lt (compressedItemBytes t.vectorType item)
  rwa [length_compressedItemBytes narrow] at less

/-- A vector of handles that has been compressed. -/
theorem ReadsBack.compressed {t : NumberType} {d : UInt32} {array : Dynarray}
    {values : List CreateValue} (narrowType : t ≠ .i64 ∧ t ≠ .u64)
    (mem : ⟨t.vectorType, true, false, false, d⟩ ∈ p.values)
    (item : p.c.privVectorValues[d.toNat]? = some array) (size : array.itemSize = 4)
    (narrow : ∀ n ∈ array.items, n < 2 ^ 32) (short : array.nItems < 2 ^ 32)
    (names : Names p.c array values) :
    VectorAt f (readOf p ⟨t.vectorType, true, false, false, d⟩) (UInt32.ofNat array.nItems)
      ((values.map (compressedWord t)).map (encode t.size)).flatten := by
  rw [List.map_map]
  refine back.handleVector mem (pool_number t true false d) (Or.inr (Or.inr rfl)) item size narrow
    short names fun handle u read => ?_
  rw [handleItemBytes, if_neg (not_value_type t), read]
  exact congrArg Except.ok (compressedItemBytes_eq narrowType u)

/-! ## Sets and maps -/

omit back in
theorem Prepares.known_readOf (prepares : Prepares fuel c p) (shaped : Shaped c) {handle : UInt32}
    {v : Value} (read : createToReadValue p handle = .ok v) : v.type.Known := by
  rcases map_eq_ok.mp read with ⟨u, found, rfl⟩
  exact prepares.known shaped found

/-- The vectors of a set. -/
theorem ReadsBack.set {d : UInt32} {set : CreateSet} (mem : .plain .setValue d ∈ p.values)
    (item : c.setValues[d.toNat]? = some set) :
    ∃ hashVector keyVector, createToReadValue p set.serializeHash = .ok hashVector ∧
      createToReadValue p set.serializeKeys = .ok keyVector ∧
      readerSetNItems f (readOf p (.plain .setValue d)) = .ok (UInt32.ofNat set.keys.length) ∧
      setHashVector f (readOf p (.plain .setValue d)) = .ok hashVector ∧
      setKeyVector f (readOf p (.plain .setValue d)) = .ok keyVector := by
  rcases back.object _ .set mem rfl with ⟨off, b, entry, done, holds⟩
  have found : cvGetSet p.c (.plain .setValue d) = .ok set := by
    refine itemAt_eq_ok.mpr ?_
    rw [back.prepares.others]
    exact item
  have pool : (CreateValue.plain .setValue d).heapPool = some .set := rfl
  unfold objectBytes at done
  rw [pool] at done
  dsimp only at done
  rw [found, ok_bind] at done
  rcases bind_eq_ok.mp done with ⟨hashVector, isHash, done⟩
  rcases bind_eq_ok.mp done with ⟨keyVector, isKeys, same⟩
  cases same
  have entry' : pcOffset f.setOffsets (readOf p (.plain .setValue d)).data = .ok off := entry
  have count := holds.left.left.left
  have hash := holds.left.right
  have keys := holds.right
  simp only [List.length_append, length_bytesU32, length_bytesValue] at hash keys
  have knownHash := back.prepares.known_readOf back.shaped isHash
  have knownKeys := back.prepares.known_readOf back.shaped isKeys
  refine ⟨hashVector, keyVector, isHash, isKeys, ?_, ?_, ?_⟩
  · rw [readerSetNItems, entry', ok_bind, loadU32_holds count]
  · rw [setHashVector, entry', ok_bind, loadValue_holds knownHash hash]
  · rw [setKeyVector, entry', ok_bind, loadValue_holds knownKeys keys]

/-- The vectors of a map. -/
theorem ReadsBack.map {d : UInt32} {map : CreateMap} (mem : .plain .mapValueValue d ∈ p.values)
    (item : c.mapValues[d.toNat]? = some map) :
    ∃ hashVector keyVector valueVector, createToReadValue p map.serializeHash = .ok hashVector ∧
      createToReadValue p map.serializeKeys = .ok keyVector ∧
      createToReadValue p map.serializeValues = .ok valueVector ∧
      readerMapNItems f (readOf p (.plain .mapValueValue d)) = .ok (UInt32.ofNat map.keys.length) ∧
      mapHashVector f (readOf p (.plain .mapValueValue d)) = .ok hashVector ∧
      mapKeyVector f (readOf p (.plain .mapValueValue d)) = .ok keyVector ∧
      mapValueVector f (readOf p (.plain .mapValueValue d)) = .ok valueVector := by
  rcases back.object _ .map mem rfl with ⟨off, b, entry, done, holds⟩
  have found : cvGetMap p.c (.plain .mapValueValue d) = .ok map := by
    refine itemAt_eq_ok.mpr ?_
    rw [back.prepares.others]
    exact item
  have pool : (CreateValue.plain .mapValueValue d).heapPool = some .map := rfl
  unfold objectBytes at done
  rw [pool] at done
  dsimp only at done
  rw [found, ok_bind] at done
  rcases bind_eq_ok.mp done with ⟨hashVector, isHash, done⟩
  rcases bind_eq_ok.mp done with ⟨keyVector, isKeys, done⟩
  rcases bind_eq_ok.mp done with ⟨valueVector, isValues, same⟩
  cases same
  have entry' : pcOffset f.mapOffsets (readOf p (.plain .mapValueValue d)).data = .ok off := entry
  have count := holds.left.left.left.left
  have hash := holds.left.left.right
  have keys := holds.left.right
  have values := holds.right
  simp only [List.length_append, length_bytesU32, length_bytesValue] at hash keys values
  have knownHash := back.prepares.known_readOf back.shaped isHash
  have knownKeys := back.prepares.known_readOf back.shaped isKeys
  have knownValues := back.prepares.known_readOf back.shaped isValues
  refine ⟨hashVector, keyVector, valueVector, isHash, isKeys, isValues, ?_, ?_, ?_, ?_⟩
  · rw [readerMapNItems, entry', ok_bind, loadU32_holds count]
  · rw [mapHashVector, entry', ok_bind, loadValue_holds knownHash hash]
  · rw [mapKeyVector, entry', ok_bind, loadValue_holds knownKeys keys]
  · rw [mapValueVector, entry', ok_bind, loadValue_holds knownValues values]

end ReadsBack

end Pointless
