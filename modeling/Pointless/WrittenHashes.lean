import Pointless.BitvectorEqual
import Pointless.RoundTrip

/-!
# Hashes of written values

The hash of a key is computed from the state before the file is there, and checked against the
hash of the value that is read. `ReadsBack.hash` says that they are the same where no vector
at or below the key is empty: an empty vector is hashed as if it had the items of the first
vector of the library's.
-/

namespace Pointless

open ByteMemory ExceptRules Relation

variable {c m : Create} {fuel levels : Nat} {p : Prepared} {f : OpenFile} {v w : CreateValue}
  {handle : UInt32}

/-! ## Below a handle -/

/-- A handle is among the children of another one. -/
def IsChild (c : Create) (handle child : UInt32) : Prop :=
  ∃ label children, handleNode c handle = .ok (label, children) ∧ child ∈ children

/-- No vector at or below a handle is empty. -/
def FullBelow (c : Create) (handle : UInt32) : Prop :=
  ∀ under, ReflTransGen (IsChild c) handle under → handleNode c under ≠ .ok (.vector, [])

theorem FullBelow.child {child : UInt32} (full : FullBelow c handle)
    (isChild : IsChild c handle child) : FullBelow c child :=
  fun under below => full under (.head isChild below)

theorem FullBelow.here (full : FullBelow c handle) : handleNode c handle ≠ .ok (.vector, []) :=
  full handle .refl

/-! ## Items -/

/-- The hash of an item of a vector of numbers. -/
def wordHash (t : NumberType) (word : Nat) : UInt32 :=
  if t = .float then hashFloat32 (UInt32.ofNat word) else hashInt32 (t.toInt word)

theorem hashReaderVectorItem_word {t : NumberType} {v : Value} (isType : v.type = t.vectorType)
    (rec : Value → Res UInt32) (i : Nat) :
    hashReaderVectorItem rec f v i = wordHash t <$> readerVectorWord f v t.size i := by
  rcases read : readerVectorWord f v t.size i with e | word
  all_goals
    unfold hashReaderVectorItem
    rw [isType]
    cases t
    all_goals
      change _ <$> _ <$> readerVectorWord f v _ i = _
      exact congrArg (fun r => _ <$> _ <$> r) read

theorem hashCreateNativeItem_word {t : NumberType} (isType : w.type = t.vectorType)
    (rec : CreateValue → Res UInt32) (items : List UInt8) (i : Nat) :
    hashCreateNativeItem m rec w items i = wordHash t <$> loadWord t.size items (t.size * i) := by
  unfold hashCreateNativeItem
  rw [isType]
  cases t
  all_goals rfl

/-- Item hashes that are found in both places make one hash of the vector. -/
theorem vectorHash32_same {n h : UInt32} {item item' : Nat → Res UInt32}
    (each : ∀ i < n.toNat, ∀ h, item i = .ok h → item' i = .ok h)
    (hashed : vectorHash32 n (List.range n.toNat) item = .ok h) :
    vectorHash32 n (List.range' (0 : UInt32).toNat ((n + 0).toNat - (0 : UInt32).toNat)) item'
      = .ok h := by
  have indices : List.range' (0 : UInt32).toNat ((n + 0).toNat - (0 : UInt32).toNat)
      = List.range n.toNat := by
    rw [UInt32.add_zero, List.range_eq_range']
    rfl
  rw [indices, vectorHash32]
  rcases bind_eq_ok.mp hashed with ⟨s, looped, ended⟩
  refine bind_eq_ok.mpr ⟨s, foldlM_ok_of (fun s i mem s' done => ?_) looped, ended⟩
  rcases map_eq_ok.mp done with ⟨hash, found, next⟩
  exact map_eq_ok.mpr ⟨hash, each i (List.mem_range.mp mem) hash found, next⟩

/-- A word of the items of a vector is read from the file. -/
theorem VectorAt.loaded {value : Value} {n : UInt32} {items : List UInt8} {width x : Nat}
    (vector : VectorAt f value n items) {i : Nat}
    (found : loadWord width items (width * i) = .ok x) :
    readerVectorWord f value width i = .ok x := by
  rcases vector with ⟨-, base, isBase, holds⟩
  rw [readerVectorWord, isBase, ok_bind, loadWord_eq_ok]
  exact holds.load_within (loadWord_eq_ok.mp found)

theorem hashFunc32_vectorType (t : NumberType) : hashFunc32 t.vectorType = some .vector := by
  cases t
  all_goals rfl

/-- A vector of numbers has the hash that is made of its words. -/
theorem VectorAt.hash {value : Value} {t : NumberType} {n h : UInt32} {items : List UInt8}
    (vector : VectorAt f value n items) (isType : value.type = t.vectorType)
    {item : Nat → Res UInt32}
    (each : ∀ i < n.toNat, ∀ h, item i = .ok h →
      ∃ word, loadWord t.size items (t.size * i) = .ok word ∧ wordHash t word = h)
    (hashed : vectorHash32 n (List.range n.toNat) item = .ok h) :
    hashReader32 f (levels + 1) value = .ok h := by
  have read : hashReader32 f (levels + 1) value
      = hashReaderVector32Priv (hashReader32 f levels) f value 0 n := by
    rw [hashReader32, isType, hashFunc32_vectorType]
    dsimp only
    rw [vector.1, ok_bind]
  rw [read]
  refine vectorHash32_same (fun i less h found => ?_) hashed
  rcases each i less h found with ⟨word, loaded, rfl⟩
  rw [hashReaderVectorItem_word isType, vector.loaded loaded]
  rfl

/-- A bitvector has the hash of the bits that are read. -/
theorem bitvectorHash32_read {type : ValueType} {data : UInt32} {buffer : Ptr} {bits : List Bool}
    (read : readBits type data buffer = .ok bits) :
    bitvectorHash32 type data buffer = .ok (hashBits32 bits) := by
  rcases bind_eq_ok.mp read with ⟨n, count, each⟩
  replace each := mapM_eq_ok.mp each
  have length : n.toNat = bits.length := by
    rw [← each.length_eq, List.length_range]
  have short : bits.length < 2 ^ 32 := by
    rw [← length]
    exact n.toNat_lt
  refine ShowsBits.hash32 ⟨?_, fun i less => ?_⟩ short
  · rw [count, ← length, UInt32.ofNat_toNat]
  · have found := each.get (i := i) (by rwa [List.length_range, length]) less
    rwa [List.get_eq_getElem, List.get_eq_getElem, List.getElem_range] at found

/-! ## The hash of a value that is written -/

/-- A value that is complete in its data has its hash there. -/
theorem hash_inline {type : ValueType} {d : UInt32} (inline : IsInlineValue type d)
    (other : type ≠ .vectorEmpty) :
    hashReader32 f (levels + 1) ⟨type, d⟩ = hashCreate32 m (levels + 1) (.plain type d) := by
  cases type
  case vectorEmpty => exact absurd rfl other
  all_goals first | rfl | exact inline.elim

theorem vectorItems_inside {type : ValueType} {compressed table : Bool} {d : UInt32}
    {array : Dynarray} (item : m.privVectorValues[d.toNat]? = some array) :
    createVectorItems m ⟨type, compressed, table, false, d⟩
      = .ok (array.data, UInt32.ofNat array.nItems) :=
  (if_neg Bool.false_ne_true).trans (bind_eq_ok.mpr ⟨array, itemAt_eq_ok.mpr item, rfl⟩)

theorem plainLabel_float {type : ValueType} {data x : UInt32}
    (isLabel : plainLabel type data = some (.float x)) : data = x := by
  cases type
  case float => exact NodeLabel.float.inj (Option.some.inj isLabel)
  all_goals cases isLabel

theorem plainLabel_int {n : Int} (isLabel : plainLabel w.type w.data = some (.int n)) :
    createGetIntAsInt64 w = n := by
  rw [createGetIntAsInt64]
  cases isType : w.type
  all_goals rw [isType] at isLabel
  case i32 | u32 => exact NodeLabel.int.inj (Option.some.inj isLabel)
  all_goals cases isLabel

/-- An item of a vector that is compressed has the hash of its number. -/
theorem compressedItem_hash {t : NumberType} (narrow : t ≠ .i64 ∧ t ≠ .u64)
    (isType : w.type = t.vectorType) {items : List UInt8} {i : Nat} {child h : UInt32}
    (loaded : loadU32 items (4 * i) = .ok child) (found : cvValueAt m child = .ok v)
    (hashed : hashCreateCompressedItem m w items i = .ok h) :
    h = if t = .float then hashFloat32 v.data else hashInt32 (createGetIntAsInt64 v) := by
  rw [hashCreateCompressedItem, loaded, ok_bind, found, ok_bind, isType] at hashed
  cases t
  case i64 => exact absurd rfl narrow.1
  case u64 => exact absurd rfl narrow.2
  all_goals exact (Except.ok.inj hashed).symm

/-- The hash of the number of a value is that of its word. -/
theorem hash_of_label {t : NumberType} {word : Nat}
    (isLabel : plainLabel w.type w.data = some (leafOf t word)) :
    wordHash t word = if t = .float then hashFloat32 w.data else hashInt32 (createGetIntAsInt64 w) := by
  rw [leafOf] at isLabel
  rw [wordHash]
  split
  case isTrue float =>
    rw [if_pos float] at isLabel
    rw [plainLabel_float isLabel]
  case isFalse float =>
    rw [if_neg float] at isLabel
    rw [plainLabel_int isLabel]

section Hash

variable (back : ReadsBack fuel c p f) (mid : Midway c m p)

include back mid

theorem ReadsBack.hashText {type : ValueType} {d : UInt32} {chars : List Nat} {h : UInt32}
    (short : ShortTexts c) (isText : IsText type chars) (mem : .plain type d ∈ p.values)
    (item : c.stringUnicodeValues[d.toNat]? = some (textBuffer type chars))
    (hashed : hashCreate32 m (levels + 1) (.plain type d) = .ok h) :
    hashReader32 f (levels + 1) (readOf p (.plain type d)) = .ok h := by
  have fits := short type chars (List.mem_of_getElem? item)
  rcases back.text mem isText.1 fits item with ⟨rest, read⟩
  have buffer : cvGetStringUnicode m (.plain type d) = .ok (textBuffer type chars) := by
    refine itemAt_eq_ok.mpr ?_
    rw [mid.others]
    exact item
  have shown : (textBuffer type chars).drop 4
      = ((chars ++ [0]).map (encode (charWidth type))).flatten ++ [] := by
    rw [List.append_nil, textBuffer, stringUnicodeBuffer, ← length_bytesU32, List.drop_left]
  have hash := stringHash32_eq (beforeTerminator_text isText [])
  have hash' := stringHash32_eq (beforeTerminator_text isText rest)
  rw [← shown] at hash
  rcases isText.1 with rfl | rfl
  · change (cvGetStringUnicode m _ >>= fun s => hashStringV132 (s.drop 4)) = _ at hashed
    rw [buffer, ok_bind] at hashed
    change (readerStringUnicodeValue f _ >>= fun s => hashStringV132 s) = _
    rw [read, ok_bind]
    exact hash'.trans (hash.symm.trans hashed)
  · change (cvGetStringUnicode m _ >>= fun s => hashUnicodeUcs4V132 (s.drop 4)) = _ at hashed
    rw [buffer, ok_bind] at hashed
    change (readerStringUnicodeValue f _ >>= fun s => hashUnicodeUcs4V132 s) = _
    rw [read, ok_bind]
    exact hash'.trans (hash.symm.trans hashed)

theorem ReadsBack.hashBits {d nBits h : UInt32} {bits : List UInt8}
    (mem : .plain .bitvector d ∈ p.values) (size : bits.length = iceil nBits.toNat 8)
    (item : c.bitvectorValues[d.toNat]? = some (bytesU32 nBits ++ bits))
    (hashed : hashCreate32 m (levels + 1) (.plain .bitvector d) = .ok h) :
    hashReader32 f (levels + 1) (readOf p (.plain .bitvector d)) = .ok h := by
  rcases back.bits mem size item with ⟨rest, read⟩
  have buffer : createBitvectorPtr m (.plain .bitvector d)
      = .ok (some (bytesU32 nBits ++ bits ++ [])) := by
    rw [List.append_nil]
    refine (if_pos rfl).trans (map_eq_ok.mpr ⟨_, itemAt_eq_ok.mpr ?_, rfl⟩)
    rw [mid.others]
    exact item
  change (createBitvectorPtr m _ >>= fun buffer => bitvectorHash32 .bitvector d buffer) = _ at hashed
  rw [buffer, ok_bind, bitvectorHash32_read (readBits_heap size [])] at hashed
  change (readerBitvectorPtr f _ >>= fun buffer => bitvectorHash32 .bitvector _ buffer) = _
  rw [read, ok_bind, bitvectorHash32_read (readBits_heap size rest)]
  exact hashed

theorem ReadsBack.hashOwned {t : NumberType} {d nItems h : UInt32} {items : List UInt8}
    (mem : ⟨t.vectorType, false, false, true, d⟩ ∈ p.values)
    (item : c.outsideVectorValues[d.toNat]? = some ⟨items, nItems⟩)
    (size : items.length = t.size * nItems.toNat)
    (hashed : hashCreate32 m (levels + 1) ⟨t.vectorType, false, false, true, d⟩ = .ok h) :
    hashReader32 f (levels + 1) (readOf p ⟨t.vectorType, false, false, true, d⟩) = .ok h := by
  have found : createVectorItems m ⟨t.vectorType, false, false, true, d⟩ = .ok (items, nItems) := by
    refine (if_pos rfl).trans (bind_eq_ok.mpr ⟨⟨items, nItems⟩, itemAt_eq_ok.mpr ?_, rfl⟩)
    rw [mid.others]
    exact item
  rw [hashCreate32, hashFunc32_vectorType, hashCreateVector32, found] at hashed
  refine (back.owned mem item size).hash rfl (fun i less h loaded => ?_) hashed
  rw [if_neg Bool.false_ne_true, hashCreateNativeItem_word rfl] at loaded
  exact map_eq_ok.mp loaded

/-! ## The library's vectors -/

theorem ReadsBack.hashNumbers {t : NumberType} {d h : UInt32} {array : Dynarray}
    (fits : FitsVector c t.vectorType array) (short : array.nItems < 2 ^ 32)
    (some_ : array.nItems ≠ 0) (mem : .plain t.vectorType d ∈ p.values)
    (item : m.privVectorValues[d.toNat]? = some array)
    (hashed : hashCreate32 m (levels + 1) (.plain t.vectorType d) = .ok h) :
    hashReader32 f (levels + 1) (readOf p (.plain t.vectorType d)) = .ok h := by
  have size := (fits.numbers t rfl).1
  have vector := back.numbers mem (mid.array item some_) size short
  have data : array.data = (array.items.map (encode t.size)).flatten := by
    rw [Dynarray.data, size]
  rw [hashCreate32, CreateValue.plain, hashFunc32_vectorType, hashCreateVector32,
    vectorItems_inside item, data] at hashed
  refine vector.hash rfl (fun i less h loaded => ?_) hashed
  rw [if_neg Bool.false_ne_true, hashCreateNativeItem_word rfl] at loaded
  exact map_eq_ok.mp loaded

/-- An item of a vector of handles, with what it is written as. -/
theorem Midway.item {array : Dynarray} (fits : FitsVector c .vectorValue array) {i : Nat}
    {found : UInt32} (loaded : loadU32 array.data (4 * i) = .ok found) (less : i < array.nItems) :
    found = UInt32.ofNat array.items[i] ∧ ∃ v w, c.values[found.toNat]? = some v ∧
      v.isSetMapVector = false ∧ p.values[found.toNat]? = some w ∧ cvValueAt m found = .ok w := by
  have handles := vectorHandles back.shaped fits
  have here := itemAtU32_eq (fits.handles rfl).1 (vectorHandles_narrow back.shaped fits) less
  cases Except.ok.inj (here.symm.trans loaded)
  refine ⟨rfl, ?_⟩
  rcases handles.2 _ (List.mem_map.mpr ⟨_, List.getElem_mem less, rfl⟩) with ⟨v, at_v, own⟩
  rcases mid.value at_v with ⟨w, at_w, at_w', -⟩
  exact ⟨v, w, at_v, own, at_w, itemAt_eq_ok.mpr at_w'⟩

/-- A vector of handles, of which every item has its hash. -/
theorem ReadsBack.hashHandles {d h : UInt32} {array : Dynarray}
    (fits : FitsVector c .vectorValue array) (short : array.nItems < 2 ^ 32)
    (some_ : array.nItems ≠ 0) (mem : .plain .vectorValueHashable d ∈ p.values)
    (item : m.privVectorValues[d.toNat]? = some array)
    (each : ∀ handle ∈ array.items.map UInt32.ofNat, ∀ v w h, c.values[handle.toNat]? = some v →
      v.isSetMapVector = false → p.values[handle.toNat]? = some w →
      hashCreate32 m levels w = .ok h → hashReader32 f levels (readOf p w) = .ok h)
    (hashed : hashCreate32 m (levels + 1) (.plain .vectorValueHashable d) = .ok h) :
    hashReader32 f (levels + 1) (readOf p (.plain .vectorValueHashable d)) = .ok h := by
  have handles := vectorHandles back.shaped fits
  have length : (array.items.map UInt32.ofNat).length < 2 ^ 32 := by
    rwa [List.length_map]
  have read := back.items (Or.inr rfl) mem (mid.array item some_) (fits.handles rfl).1
    handles.1.symm length fun handle among => by
      rcases handles.2 handle among with ⟨v, at_v, -⟩
      rcases back.prepares.value at_v with ⟨w, -, at_w, -⟩
      exact ⟨w, at_w⟩
  rcases bind_eq_ok.mp read with ⟨n, count, values⟩
  change readerVectorNItems f (readOf p (.plain .vectorValueHashable d)) = _ at count
  replace values := mapM_eq_ok.mp values
  have size : n = UInt32.ofNat array.nItems := by
    apply UInt32.toNat_inj.mp
    have same := values.length_eq
    rw [List.length_range, List.length_map, List.length_map] at same
    rw [same]
    exact (Nat.mod_eq_of_lt short).symm
  have total : (UInt32.ofNat array.nItems).toNat = array.nItems := Nat.mod_eq_of_lt short
  subst size
  change hashCreateVector32 m (hashCreate32 m levels) _ = _ at hashed
  rw [hashCreateVector32, CreateValue.plain, vectorItems_inside item] at hashed
  change (readerVectorNItems f _ >>= fun n => _) = _
  rw [count, ok_bind]
  refine vectorHash32_same (fun i less h found => ?_) hashed
  rcases bind_eq_ok.mp ((if_neg Bool.false_ne_true).symm.trans found) with ⟨child, loaded, found⟩
  rcases bind_eq_ok.mp found with ⟨w, isValue, hash⟩
  have inside : i < array.nItems := by rwa [← total]
  rcases Midway.item back mid fits loaded inside with ⟨rfl, v, w', at_v, own, at_w, isValue'⟩
  cases Except.ok.inj (isValue'.symm.trans isValue)
  have among : UInt32.ofNat array.items[i] ∈ array.items.map UInt32.ofNat :=
    List.mem_map.mpr ⟨_, List.getElem_mem inside, rfl⟩
  have here := values.get (i := i) (by rwa [List.length_range])
    (by rwa [List.length_map, List.length_map])
  rw [List.get_eq_getElem, List.get_eq_getElem, List.getElem_range, List.getElem_map,
    List.getElem_map] at here
  change readerVectorValue f (readOf p (.plain .vectorValueHashable d)) i
    = .ok (readAt p (UInt32.ofNat array.items[i])) at here
  change (readerVectorValue f _ i >>= hashReader32 f levels) = _
  rcases back.prepares.value at_v with ⟨w', at_w', at_c, -⟩
  cases Option.some.inj (at_w'.symm.trans at_w)
  rw [here, ok_bind, readAt_eq at_c]
  exact each _ among v _ h at_v own at_w hash

/-- A vector of handles that is compressed, of which every item has the hash of its word. -/
theorem ReadsBack.hashCompressed {t : NumberType} {d h : UInt32} {array : Dynarray}
    {items : List CreateValue} (isItems : HasItems c array items)
    (isType : itemsType .vectorValue items = t.vectorType)
    (fits : FitsVector c .vectorValue array) (short : array.nItems < 2 ^ 32)
    (some_ : array.nItems ≠ 0) (mem : ⟨t.vectorType, true, false, false, d⟩ ∈ p.values)
    (item : m.privVectorValues[d.toNat]? = some array)
    (hashed : hashCreate32 m (levels + 1) ⟨t.vectorType, true, false, false, d⟩ = .ok h) :
    hashReader32 f (levels + 1) (readOf p ⟨t.vectorType, true, false, false, d⟩) = .ok h := by
  have named := named_of_hasItems isItems
  have kept : Names p.c array items := back.keptItems isItems isType
  have narrowType := itemsType_narrow (Or.inl rfl) isType
  have vector := back.compressed narrowType mem (mid.array item some_) (fits.handles rfl).1
    (vectorHandles_narrow back.shaped fits) short kept
  have total : (UInt32.ofNat array.nItems).toNat = array.nItems := Nat.mod_eq_of_lt short
  rw [hashCreate32, hashFunc32_vectorType, hashCreateVector32, vectorItems_inside item] at hashed
  refine vector.hash rfl (fun i less h found => ?_) hashed
  replace found := (if_pos rfl).symm.trans found
  rcases bind_eq_ok.mp found with ⟨child, loaded, later⟩
  rcases bind_eq_ok.mp later with ⟨w, isValue, -⟩
  have inside : i < array.nItems := by rwa [← total]
  rcases Midway.item back mid fits loaded inside with ⟨rfl, v, w', at_v, -, at_w, isValue'⟩
  cases Except.ok.inj (isValue'.symm.trans isValue)
  rcases back.prepares.value at_v with ⟨w, at_w', at_c, -⟩
  cases Option.some.inj (at_w'.symm.trans at_w)
  have inside' : i < items.length := by rwa [← named.length_eq]
  have at_i := kept.get inside inside'
  rw [List.get_eq_getElem, List.get_eq_getElem] at at_i
  rw [toNat_handle (vectorHandles_narrow back.shaped fits _ (List.getElem_mem inside))] at at_c
  cases Option.some.inj (at_i.symm.trans at_c)
  refine ⟨compressedWord t items[i], ?_, ?_⟩
  · have words : ∀ n ∈ items.map (compressedWord t), n < 256 ^ t.size := by
      intro n mem
      rcases List.mem_map.mp mem with ⟨v, -, rfl⟩
      exact compressedWord_lt narrowType v
    have read := Dynarray.loadWord_data words (k := i) (by rwa [List.length_map])
    rwa [List.getElem_map] at read
  · rw [hash_of_label (plainLabel_compressed isType (List.getElem_mem inside'))]
    exact (compressedItem_hash narrowType rfl loaded isValue found).symm

/-- What has become of a vector of the library's has the same hash in the file. -/
theorem ReadsBack.hashVector {type : ValueType} {d h : UInt32} {array : Dynarray}
    (isVector : IsPrivType type) (fits : FitsVector c type array) (short : array.nItems < 2 ^ 32)
    (at_h : c.values[handle.toNat]? = some (.plain type d)) (mem : w ∈ p.values)
    (item : c.privVectorValues[d.toNat]? = some array) (full : FullBelow c handle)
    (becomes : Becomes c m.privVectorValues (.plain type d) w)
    (each : ∀ child v w h, IsChild c handle child → c.values[child.toNat]? = some v →
      v.isSetMapVector = false → p.values[child.toNat]? = some w →
      hashCreate32 m levels w = .ok h → hashReader32 f levels (readOf p w) = .ok h)
    (hashed : hashCreate32 m (levels + 1) w = .ok h) :
    hashReader32 f (levels + 1) (readOf p w) = .ok h := by
  generalize start : CreateValue.plain type d = u at becomes
  cases becomes with
  | same other =>
      subst start
      refine absurd ?_ other
      rcases isVector with rfl | ⟨t, rfl⟩
      · rfl
      · exact pool_number t false false d
  | emptied isVector' item' none_ =>
      cases start
      cases Option.some.inj (item.symm.trans item')
      have empty : array.items = [] := List.length_eq_zero_iff.mp none_
      refine absurd ?_ full.here
      rcases isVector with rfl | ⟨t, rfl⟩
      · rw [handlesNode at_h item, empty]
        rfl
      · rw [numbersNode at_h item, empty]
        rfl
  | numbers item' some_ isArray =>
      cases start
      cases Option.some.inj (item.symm.trans item')
      exact back.hashNumbers mid fits short some_ mem isArray hashed
  | handles isValue item' some_ isArray =>
      cases start
      cases Option.some.inj (item.symm.trans item')
      rcases isValue with rfl | rfl
      · cases hashed
      · refine back.hashHandles mid fits short some_ mem isArray ?_ hashed
        intro child among v w h
        exact each child v w h ⟨_, _, handlesNode at_h item, among⟩
  | compressed isItems isType item' some_ isArray =>
      cases start
      cases Option.some.inj (item.symm.trans item')
      exact back.hashCompressed mid isItems isType fits short some_ mem isArray hashed
  | table => cases congrArg CreateValue.isSetMapVector start

/-- A value that has a hash while the tables are built has the same hash in the file. -/
theorem ReadsBack.hash (fit : CountsFit c) {h : UInt32}
    (at_h : c.values[handle.toNat]? = some v) (own : v.isSetMapVector = false)
    (at_w : p.values[handle.toNat]? = some w) (full : FullBelow c handle)
    (hashed : hashCreate32 m levels w = .ok h) :
    hashReader32 f levels (readOf p w) = .ok h := by
  induction levels generalizing handle v w h with
  | zero => cases hashed
  | succ levels ih =>
      have mem := List.mem_of_getElem? at_w
      have fits := back.shaped.fits _ _ at_h
      rcases mid.value at_h with ⟨w', at_w', -, becomes⟩
      cases Option.some.inj (at_w.symm.trans at_w')
      have kept (other : v.pool ≠ some .priv) : w = v := becomes.kept other
      cases fits with
      | @inline type d inline =>
          have other : (CreateValue.plain type d).pool ≠ some .priv := by
            cases type
            all_goals first | exact inline.elim | nofun
          rw [kept other] at hashed ⊢
          have full' : type ≠ .vectorEmpty := by
            rintro rfl
            exact full.here (handleNode_eq at_h)
          exact (hash_inline inline full').trans hashed
      | @text type d chars isText item =>
          have other : (CreateValue.plain type d).pool ≠ some .priv := by
            rcases isText.1 with rfl | rfl
            all_goals nofun
          rw [kept other] at mem hashed ⊢
          exact back.hashText mid fit.texts isText mem item hashed
      | bits size item =>
          rw [kept nofun] at mem hashed ⊢
          exact back.hashBits mid mem size item hashed
      | set | map =>
          rw [kept nofun] at hashed
          cases hashed
      | @owned t d nItems items size some_ item =>
          have other : (CreateValue.mk t.vectorType false false true d).pool ≠ some .priv := by
            cases t
            all_goals nofun
          rw [kept other] at mem hashed ⊢
          exact back.hashOwned mid mem item size hashed
      | @vector type d table array isVector fits unfilled item =>
          cases (show table = false from own)
          refine back.hashVector mid isVector fits
            (fit.vectors array (List.mem_of_getElem? item)) at_h mem item full becomes ?_ hashed
          intro child v w h isChild at_v own at_w hash
          exact ih at_v own at_w (full.child isChild) hash

end Hash

end Pointless
