import Pointless.CreateCalls

/-!
# Creating values when memory runs out

The functions of `Create.lean` with the memory they ask for refused at any point.
Each pushes to several arrays and takes back what it has pushed when a later push
is refused.

* `Memory.run_cases`: with the Judy map granted its memory, a call does what it does
  when nothing is refused, or it fails and leaves behind at most some private vectors
  that no handle has been given out for.
-/

namespace Pointless

/-- What is granted of the memory one call asks for: `grants i` of its requests to
`pointless_malloc` and `pointless_dynarray_push`, by their place in the code, and
`judy` of those that `JudyHSIns` makes. -/
structure Memory where
  grants : Nat → Bool
  judy : Bool

/-- `pointless_dynarray_pop(&c->values)`. -/
def popValue (c : Create) : Create := { c with values := c.values.dropLast }

namespace Memory

/-- The requests from the `k`-th on. -/
def after (m : Memory) (k : Nat) : Memory := { m with grants := fun i => m.grants (k + i) }

variable (m : Memory) (c : Create)

/-! ## Inline values -/

/-- `pointless_create_and_return_inline_value_1` and `_2`. -/
def createInlineValue (v : CreateValue) : UInt32 × Create :=
  if m.grants 0 then pushValue c v else (createValueFail, c)

/-- `handle`, if it is one; otherwise push `v` and note in the cache what has come of
that, a handle or the failure. -/
def createCached (handle : UInt32) (v : CreateValue)
    (set : CreateCache → UInt32 → CreateCache) : UInt32 × Create :=
  if handle ≠ createValueFail then (handle, c)
  else
    let (handle, c) := m.createInlineValue c v
    (handle, { c with cache := set c.cache handle })

/-- `pointless_create_i32`. -/
def createI32 (v : Int32) : UInt32 × Create :=
  m.createCached c (createCacheGetI32 c.cache v) (.plain .i32 v.toUInt32)
    fun cache => createCacheSetI32 cache v

/-- `pointless_create_u32`. -/
def createU32 (v : UInt32) : UInt32 × Create :=
  m.createCached c (createCacheGetU32 c.cache v) (.plain .u32 v)
    fun cache => createCacheSetU32 cache v

/-- `pointless_create_float`. -/
def createFloat (bits : UInt32) : UInt32 × Create := m.createInlineValue c (.plain .float bits)

/-- `pointless_create_boolean_false`. -/
def createBooleanFalse : UInt32 × Create :=
  m.createCached c c.cache.falseHandle (.plain .boolean 0)
    fun cache handle => { cache with falseHandle := handle }

/-- `pointless_create_boolean_true`. -/
def createBooleanTrue : UInt32 × Create :=
  m.createCached c c.cache.trueHandle (.plain .boolean 1)
    fun cache handle => { cache with trueHandle := handle }

/-- `pointless_create_boolean`. -/
def createBoolean (v : Int32) : UInt32 × Create :=
  if v ≠ 0 then m.createBooleanTrue c else m.createBooleanFalse c

/-- `pointless_create_empty_slot`. -/
def createEmptySlot : UInt32 × Create :=
  m.createCached c c.cache.emptySlotHandle (.plain .emptySlot 0)
    fun cache handle => { cache with emptySlotHandle := handle }

/-- `pointless_create_null`. -/
def createNull : UInt32 × Create :=
  m.createCached c c.cache.nullHandle (.plain .null 0)
    fun cache handle => { cache with nullHandle := handle }

/-! ## Strings and unicodes -/

/-- `pointless_create_unicode_ucs4` and `pointless_create_string_ascii`: memory for the
buffer, a push onto `values` and one onto `string_unicode_values`. When `JudyHSIns`
has no memory it answers `PPJERR`, which is not the null pointer the code looks for:
the handle is stored through it. -/
def createStringUnicode (type : ValueType) (buffer : List UInt8) : Res (UInt32 × Create) :=
  if m.grants 0 then
    match c.stringUnicodeMapJudy.lookup buffer with
    | some handle => .ok (handle, c)
    | none =>
        if m.grants 1 then
          let (handle, c) := pushValue c (.plain type c.stringUnicodeMapJudyCount)
          if m.grants 2 then
            let c := { c with stringUnicodeValues := c.stringUnicodeValues ++ [buffer] }
            if m.judy then
              .ok (handle,
                { c with
                  stringUnicodeMapJudy := (buffer, handle) :: c.stringUnicodeMapJudy
                  stringUnicodeMapJudyCount := c.stringUnicodeMapJudyCount + 1 })
            else fault .outOfBounds
          else .ok (createValueFail, popValue c)
        else .ok (createValueFail, c)
  else .ok (createValueFail, c)

/-- `pointless_create_unicode_ucs4`. -/
def createUnicodeUcs4 (v : List UInt32) : Res (UInt32 × Create) := do
  let chars ← charsBeforeZero v
  m.createStringUnicode c .unicode (stringUnicodeBuffer 4 (chars.map UInt32.toNat))

/-- `pointless_create_string_ascii`. -/
def createStringAscii (v : List UInt8) : Res (UInt32 × Create) := do
  let chars ← charsBeforeZero v
  m.createStringUnicode c .string (stringUnicodeBuffer 1 (chars.map UInt8.toNat))

/-- A function over a string that is converted first: `converted` is what the conversion
makes of it, when it is given the memory. -/
def createConverted {α : Type} (converted : Res (List α))
    (create : List α → Res (UInt32 × Create)) : Res (UInt32 × Create) := do
  let v ← converted
  if m.grants 0 then create v else .ok (createValueFail, c)

/-- `pointless_create_string_ucs2`. -/
def createStringUcs2 (v : List UInt16) : Res (UInt32 × Create) :=
  m.createConverted c (ucs2ToAscii v) ((m.after 1).createStringAscii c)

/-- `pointless_create_string_ucs4`. -/
def createStringUcs4 (v : List UInt32) : Res (UInt32 × Create) :=
  m.createConverted c (ucs4ToAscii v) ((m.after 1).createStringAscii c)

/-- `pointless_create_unicode_ucs2`. -/
def createUnicodeUcs2 (v : List UInt16) : Res (UInt32 × Create) :=
  m.createConverted c (ucs2ToUcs4 v) ((m.after 1).createUnicodeUcs4 c)

/-- `pointless_create_unicode_ascii`. -/
def createUnicodeAscii (v : List UInt8) : Res (UInt32 × Create) :=
  m.createConverted c (asciiToUcs4 v) ((m.after 1).createUnicodeUcs4 c)

/-! ## Bitvectors -/

/-- The part of `pointless_create_bitvector_` that keeps the bits on the heap. -/
def createBitvectorHeap (buffer : List UInt8) (normalize : Bool) : Res (UInt32 × Create) :=
  if m.grants 0 then
    match if normalize then c.bitvectorMapJudy.lookup buffer else none with
    | some handle => .ok (handle, c)
    | none =>
        if m.grants 1 then
          let (handle, c) := pushValue c (.plain .bitvector c.bitvectorMapJudyCount)
          if m.grants 2 then
            let c := { c with bitvectorValues := c.bitvectorValues ++ [buffer] }
            if normalize then
              if m.judy then
                .ok (handle,
                  { c with
                    bitvectorMapJudy := (buffer, handle) :: c.bitvectorMapJudy
                    bitvectorMapJudyCount := c.bitvectorMapJudyCount + 1 })
              else fault .outOfBounds
            else .ok (handle, { c with bitvectorMapJudyCount := c.bitvectorMapJudyCount + 1 })
          else .ok (createValueFail, popValue c)
        else .ok (createValueFail, c)
  else .ok (createValueFail, c)

/-- `pointless_create_bitvector_`. -/
def createBitvector_ (v : List UInt8) (nBits : UInt32) (normalize : Bool) :
    Res (UInt32 × Create) := do
  let compressed ← compressBitvector v nBits
  match compressed with
  | some (type, data) => pure (m.createInlineValue c (.plain type data))
  | none =>
      match ByteMemory.slice v 0 (iceil nBits.toNat 8) with
      | none => fault .outOfBounds
      | some bits => m.createBitvectorHeap c (bytesU32 nBits ++ bits) normalize

/-- `pointless_create_bitvector_compressed`. -/
def createBitvectorCompressed (v : Value) : UInt32 × Create :=
  m.createInlineValue c (.plain v.type v.data)

/-! ## Vectors, sets and maps -/

/-- Push a value, and then what the value keeps in one of the other arrays. The value is
popped again when that push is refused. -/
def createPooled (v : CreateValue) (pool : Create → Create) : UInt32 × Create :=
  if m.grants 0 then
    let (handle, c) := pushValue c v
    if m.grants 1 then (handle, pool c) else (createValueFail, popValue c)
  else (createValueFail, c)

/-- `pointless_create_vector_priv`. -/
def createVectorPriv (vectorType : ValueType) (itemSize : Nat) : UInt32 × Create :=
  m.createPooled c (.plain vectorType (UInt32.ofNat c.privVectorValues.length))
    fun c => { c with privVectorValues := c.privVectorValues ++ [.init itemSize] }

/-- `pointless_create_vector_append_priv`. -/
def createVectorAppendPriv (vector : UInt32) (v : Nat) : Res (UInt32 × Create) := do
  let cv ← cvValueAt c vector
  let _ ← cvGetPrivVector c cv
  if m.grants 0 then
    let c ← modifyPrivVector c vector fun a => a.push v
    pure (vector, c)
  else pure (createValueFail, c)

/-- `pointless_create_vector_value_append`. -/
def createVectorValueAppend (vector v : UInt32) : Res (UInt32 × Create) :=
  if c.values.length ≤ v.toNat then .ok (createValueFail, c)
  else m.createVectorAppendPriv c vector v.toNat

/-- `pointless_create_vector_i8_append` and its siblings. -/
def createVectorNumberAppend (t : NumberType) (vector : UInt32) (v : UInt64) :
    Res (UInt32 × Create) :=
  m.createVectorAppendPriv c vector (v.toNat % 256 ^ t.size)

/-- `pointless_create_vector_owner_priv`. -/
def createVectorOwnerPriv (vectorType : ValueType) (items : List UInt8) (nItems : UInt32) :
    UInt32 × Create :=
  if nItems = 0 then m.createInlineValue c (.plain .vectorEmpty 0)
  else
    m.createPooled c
      { type := vectorType, isCompressedVector := false, isSetMapVector := false,
        isOutsideVector := true, data := UInt32.ofNat c.outsideVectorValues.length }
      fun c => { c with outsideVectorValues := c.outsideVectorValues ++ [⟨items, nItems⟩] }

/-- `pointless_create_set`. The vectors of a set that fails stay behind. -/
def createSet : Res (UInt32 × Create) := do
  let data := UInt32.ofNat c.setValues.length
  let (serializeHash, c) := m.createVectorPriv c .vectorU32 4
  let (serializeKeys, c) := (m.after 2).createVectorPriv c .vectorValue 4
  if serializeHash = createValueFail ∨ serializeKeys = createValueFail then
    pure (createValueFail, c)
  else
    let c ← markSetMapVector c serializeHash
    let c ← markSetMapVector c serializeKeys
    pure ((m.after 4).createPooled c (.plain .setValue data) fun c =>
      { c with setValues := c.setValues ++ [⟨[], serializeHash, serializeKeys⟩] })

/-- `pointless_create_set_add`. -/
def createSetAdd (s k : UInt32) : Res (UInt32 × Create) := do
  let cv ← cvValueAt c s
  let _ ← cvGetSet c cv
  if m.grants 0 then
    let setValues ← modifyAt c.setValues cv.data fun set => { set with keys := set.keys ++ [k] }
    pure (s, { c with setValues })
  else pure (createValueFail, c)

/-- `pointless_create_map`. The vectors of a map that fails stay behind. -/
def createMap : Res (UInt32 × Create) := do
  let data := UInt32.ofNat c.mapValues.length
  let (serializeHash, c) := m.createVectorPriv c .vectorU32 4
  let (serializeKeys, c) := (m.after 2).createVectorPriv c .vectorValue 4
  let (serializeValues, c) := (m.after 4).createVectorPriv c .vectorValue 4
  if serializeHash = createValueFail ∨ serializeKeys = createValueFail ∨
      serializeValues = createValueFail then
    pure (createValueFail, c)
  else
    let c ← markSetMapVector c serializeHash
    let c ← markSetMapVector c serializeKeys
    let c ← markSetMapVector c serializeValues
    pure ((m.after 6).createPooled c (.plain .mapValueValue data) fun c =>
      { c with
        mapValues := c.mapValues ++ [⟨[], [], serializeHash, serializeKeys, serializeValues⟩] })

/-- `pointless_create_map_add`. The key is popped again when the value is refused. -/
def createMapAdd (map k v : UInt32) : Res (UInt32 × Create) := do
  let cv ← cvValueAt c map
  let _ ← cvGetMap c cv
  if m.grants 0 then
    let mapValues ← modifyAt c.mapValues cv.data fun map => { map with keys := map.keys ++ [k] }
    if m.grants 1 then
      let mapValues ← modifyAt mapValues cv.data fun map =>
        { map with values := map.values ++ [v] }
      pure (map, { c with mapValues })
    else
      let mapValues ← modifyAt mapValues cv.data fun map =>
        { map with keys := map.keys.dropLast }
      pure (createValueFail, { c with mapValues })
  else pure (createValueFail, c)

/-! ## Calls -/

/-- What a call answers under `m`, and the state after it. -/
def run : Call → Res (UInt32 × Create)
  | .setRoot root => .ok (root, createSetRoot c root)
  | .i32 v => .ok (m.createI32 c v)
  | .u32 v => .ok (m.createU32 c v)
  | .float bits => .ok (m.createFloat c bits)
  | .null => .ok (m.createNull c)
  | .booleanTrue => .ok (m.createBooleanTrue c)
  | .booleanFalse => .ok (m.createBooleanFalse c)
  | .boolean v => .ok (m.createBoolean c v)
  | .emptySlot => .ok (m.createEmptySlot c)
  | .unicodeUcs4 v => m.createUnicodeUcs4 c v
  | .unicodeUcs2 v => m.createUnicodeUcs2 c v
  | .unicodeAscii v => m.createUnicodeAscii c v
  | .stringUcs4 v => m.createStringUcs4 c v
  | .stringUcs2 v => m.createStringUcs2 c v
  | .stringAscii v => m.createStringAscii c v
  | .bitvector v nBits => m.createBitvector_ c v nBits true
  | .bitvectorNoNormalize v nBits => m.createBitvector_ c v nBits false
  | .bitvectorCompressed v => .ok (m.createBitvectorCompressed c v)
  | .vectorValue => .ok (m.createVectorPriv c .vectorValue 4)
  | .vectorNumber t => .ok (m.createVectorPriv c t.vectorType t.size)
  | .vectorValueAppend vector v => m.createVectorValueAppend c vector v
  | .vectorNumberAppend t vector v => m.createVectorNumberAppend c t vector v
  | .vectorValueSet vector i v => do
      let c ← createVectorValueSet c vector i v
      pure (vector, c)
  | .vectorU32Transfer vector v => createVectorU32Transfer c vector v
  | .vectorValueTransfer vector v => createVectorValueTransfer c vector v
  | .vectorOwner t items nItems => .ok (m.createVectorOwnerPriv c t.vectorType items nItems)
  | .set => m.createSet c
  | .setAdd s k => m.createSetAdd c s k
  | .map => m.createMap c
  | .mapAdd map k v => m.createMapAdd c map k v

end Memory

theorem toNat_handle {n : Nat} (room : n < 2 ^ 32) : (UInt32.ofNat n).toNat = n :=
  Nat.mod_eq_of_lt room

theorem createVectorPriv_fst (c : Create) (type : ValueType) (size : Nat) :
    (createVectorPriv c type size).1 = UInt32.ofNat c.values.length := rfl

theorem createVectorPriv_length (c : Create) (type : ValueType) (size : Nat) :
    (createVectorPriv c type size).2.values.length = c.values.length + 1 := List.length_append

/-! ## What a refusal leaves behind -/

/-- What a call that fails may leave behind in a state: vectors of a set or map that has
not come about. -/
inductive Leaks (c : Create) : Create → Prop where
  | nothing : Leaks c c
  | vector {c' : Create} {type : ValueType} {size : Nat} (before : Leaks c c')
      (kept : type = .vectorU32 ∨ type = .vectorValue) (room : c'.values.length < 2 ^ 32) :
      Leaks c (createVectorPriv c' type size).2
  | mark {c' c'' : Create} {handle : UInt32} (before : Leaks c c')
      (marked : markSetMapVector c' handle = .ok c'') (new : c.values.length ≤ handle.toNat) :
      Leaks c c''

/-- Push a value and what it keeps in a pool. -/
def pushPooled (c : Create) (v : CreateValue) (pool : Create → Create) : UInt32 × Create :=
  ((pushValue c v).1, pool (pushValue c v).2)

/-- The end of `pointless_create_set` and `pointless_create_map`: mark the vectors, if all of
them have come about, and push the value with its set or map. -/
def finishTable (vectors : List UInt32) (c : Create) (pooled : Create → UInt32 × Create) :
    Res (UInt32 × Create) :=
  if vectors.any (· == createValueFail) then pure (createValueFail, c)
  else do
    let c ← vectors.foldlM markSetMapVector c
    pure (pooled c)

/-- How a call may go when memory is refused, next to how it goes when none is. -/
def Memory.Outcome (c : Create) (granted : Res (UInt32 × Create)) (result : Res (UInt32 × Create)) :
    Prop :=
  result = granted ∨ ∃ c', result = .ok (createValueFail, c') ∧ Leaks c c'

namespace Memory

variable {m : Memory} {c : Create}

theorem Outcome.refused {granted : Res (UInt32 × Create)} :
    Outcome c granted (.ok (createValueFail, c)) :=
  Or.inr ⟨c, rfl, .nothing⟩

@[simp] theorem popValue_pushValue (c : Create) (v : CreateValue) :
    popValue (pushValue c v).2 = c := by
  cases c
  simp [popValue, pushValue]

theorem createInlineValue_cases (c : Create) (v : CreateValue) :
    m.createInlineValue c v = pushValue c v ∨ m.createInlineValue c v = (createValueFail, c) := by
  rw [createInlineValue]
  split
  · exact Or.inl rfl
  · exact Or.inr rfl

/-- The failure that is noted in the cache is what stood there before. -/
theorem createCached_cases {handle : UInt32} {v : CreateValue}
    {set : CreateCache → UInt32 → CreateCache}
    (same : handle = createValueFail → set c.cache createValueFail = c.cache) :
    Outcome c (.ok (Pointless.pushCached c handle v set)) (.ok (m.createCached c handle v set)) := by
  rw [createCached, pushCached]
  split
  · exact Or.inl rfl
  · rename_i absent
    rcases m.createInlineValue_cases c v with pushed | refused
    · rw [pushed]
      exact Or.inl rfl
    · rw [refused]
      refine Or.inr ⟨c, ?_, .nothing⟩
      have unchanged := same (not_not.mp absent)
      simp only [unchanged]

theorem createStringUnicode_cases (judy : m.judy = true) (type : ValueType)
    (buffer : List UInt8) :
    Outcome c (.ok (Pointless.createStringUnicode c type buffer))
      (m.createStringUnicode c type buffer) := by
  rw [createStringUnicode, Pointless.createStringUnicode]
  by_cases room : m.grants 0
  case neg =>
    rw [if_neg room]
    exact .refused
  rw [if_pos room]
  cases c.stringUnicodeMapJudy.lookup buffer with
  | some handle => exact Or.inl rfl
  | none =>
      by_cases value : m.grants 1
      · rw [if_pos value]
        by_cases pooled : m.grants 2
        · exact Or.inl ((if_pos pooled).trans (if_pos judy))
        · refine Or.inr ⟨c, (if_neg pooled).trans ?_, .nothing⟩
          exact congrArg (fun c => Except.ok (createValueFail, c)) (popValue_pushValue c _)
      · rw [if_neg value]
        exact .refused

theorem createBitvectorHeap_cases (judy : m.judy = true) (buffer : List UInt8)
    (normalize : Bool) :
    Outcome c (.ok (Pointless.createBitvectorHeap c buffer normalize))
      (m.createBitvectorHeap c buffer normalize) := by
  rw [createBitvectorHeap, Pointless.createBitvectorHeap]
  by_cases room : m.grants 0
  case neg =>
    rw [if_neg room]
    exact .refused
  rw [if_pos room]
  cases (if normalize then c.bitvectorMapJudy.lookup buffer else none) with
  | some handle => exact Or.inl rfl
  | none =>
      by_cases value : m.grants 1
      · rw [if_pos value]
        by_cases pooled : m.grants 2
        · refine Or.inl ((if_pos pooled).trans ?_)
          cases normalize
          · rfl
          · exact if_pos judy
        · refine Or.inr ⟨c, (if_neg pooled).trans ?_, .nothing⟩
          exact congrArg (fun c => Except.ok (createValueFail, c)) (popValue_pushValue c _)
      · rw [if_neg value]
        exact .refused

theorem Outcome.bind {α : Type} {x : Res α} {granted result : α → Res (UInt32 × Create)}
    (each : ∀ a, Outcome c (granted a) (result a)) :
    Outcome c (x >>= granted) (x >>= result) := by
  cases x with
  | ok a => exact each a
  | error e => exact Or.inl rfl

theorem createConverted_cases {α : Type} {converted : Res (List α)}
    {granted create : List α → Res (UInt32 × Create)}
    (each : ∀ v, Outcome c (granted v) (create v)) :
    Outcome c (converted >>= granted) (m.createConverted c converted create) := by
  refine Outcome.bind fun v => ?_
  split
  · exact each v
  · exact .refused

theorem createUnicodeUcs4_cases (judy : m.judy = true) (v : List UInt32) :
    Outcome c (Pointless.createUnicodeUcs4 c v) (m.createUnicodeUcs4 c v) :=
  Outcome.bind fun _ => createStringUnicode_cases judy _ _

theorem createStringAscii_cases (judy : m.judy = true) (v : List UInt8) :
    Outcome c (Pointless.createStringAscii c v) (m.createStringAscii c v) :=
  Outcome.bind fun _ => createStringUnicode_cases judy _ _

theorem createBitvector_cases (judy : m.judy = true) (v : List UInt8) (nBits : UInt32)
    (normalize : Bool) :
    Outcome c (Pointless.createBitvector_ c v nBits normalize)
      (m.createBitvector_ c v nBits normalize) := by
  refine Outcome.bind fun compressed => ?_
  cases compressed with
  | some packed =>
      rcases m.createInlineValue_cases c (.plain packed.1 packed.2) with pushed | refused
      · exact Or.inl (congrArg Except.ok pushed)
      · exact Or.inr ⟨c, congrArg Except.ok refused, .nothing⟩
  | none =>
      cases ByteMemory.slice v 0 (iceil nBits.toNat 8) with
      | none => exact Or.inl rfl
      | some bits => exact createBitvectorHeap_cases judy _ _

theorem createPooled_cases (m : Memory) (c : Create) (v : CreateValue) (pool : Create → Create) :
    m.createPooled c v pool = ((pushValue c v).1, pool (pushValue c v).2) ∨
      m.createPooled c v pool = (createValueFail, c) := by
  rw [createPooled]
  by_cases value : m.grants 0
  · rw [if_pos value]
    by_cases pooled : m.grants 1
    · exact Or.inl (if_pos pooled)
    · right
      simp only [popValue_pushValue]
      exact if_neg pooled
  · exact Or.inr (if_neg value)

theorem createVectorPriv_cases (m : Memory) (c : Create) (type : ValueType) (size : Nat) :
    m.createVectorPriv c type size = Pointless.createVectorPriv c type size ∨
      m.createVectorPriv c type size = (createValueFail, c) :=
  m.createPooled_cases c _ _

theorem createVectorOwnerPriv_cases (m : Memory) (c : Create) (type : ValueType)
    (items : List UInt8) (nItems : UInt32) :
    m.createVectorOwnerPriv c type items nItems
        = Pointless.createVectorOwnerPriv c type items nItems ∨
      m.createVectorOwnerPriv c type items nItems = (createValueFail, c) := by
  rw [createVectorOwnerPriv, Pointless.createVectorOwnerPriv]
  split
  · exact m.createInlineValue_cases c _
  · exact m.createPooled_cases c _ _

/-- An update of a pool that is only made when its memory is granted, after a look at the
item to be updated. -/
theorem update_cases {α : Type} (pool : List α) (i handle : UInt32) (f : α → α)
    (set : List α → Create) (granted : Bool) :
    Outcome c (do let pool ← modifyAt pool i f; pure (handle, set pool))
      (do
        let _ ← itemAt pool i
        if granted then do
          let pool ← modifyAt pool i f
          pure (handle, set pool)
        else pure (createValueFail, c)) := by
  cases at_i : pool[i.toNat]? with
  | none =>
      rw [itemAt_outside at_i, modifyAt_outside at_i]
      exact Or.inl rfl
  | some x =>
      rw [itemAt_eq_ok.mpr at_i]
      cases granted with
      | true => exact Or.inl rfl
      | false => exact .refused

theorem createVectorAppendPriv_cases (m : Memory) (c : Create) (vector : UInt32) (v : Nat) :
    Outcome c (Pointless.createVectorAppendPriv c vector v)
      (m.createVectorAppendPriv c vector v) := by
  rw [createVectorAppendPriv, Pointless.createVectorAppendPriv, modifyPrivVector]
  cases cvValueAt c vector with
  | error e => exact Or.inl rfl
  | ok cv =>
      have updated := update_cases (c := c) c.privVectorValues cv.data vector (fun a => a.push v)
        (fun privVectorValues => { c with privVectorValues }) (m.grants 0)
      simpa only [cvGetPrivVector, ExceptRules.ok_bind, bind_assoc, pure_bind] using updated

theorem createVectorValueAppend_cases (m : Memory) (c : Create) (vector v : UInt32) :
    Outcome c (Pointless.createVectorValueAppend c vector v)
      (m.createVectorValueAppend c vector v) := by
  rw [createVectorValueAppend, Pointless.createVectorValueAppend]
  split
  · exact Or.inl rfl
  · exact m.createVectorAppendPriv_cases c vector v.toNat

theorem createSetAdd_cases (m : Memory) (c : Create) (s k : UInt32) :
    Outcome c (Pointless.createSetAdd c s k) (m.createSetAdd c s k) :=
  Outcome.bind fun cv => update_cases c.setValues cv.data s
    (fun set => { set with keys := set.keys ++ [k] }) (fun setValues => { c with setValues })
    (m.grants 0)

/-- A key that is pushed and popped again leaves the maps as they were. -/
theorem createMapAdd_cases (m : Memory) (c : Create) (map k v : UInt32) :
    Outcome c (Pointless.createMapAdd c map k v) (m.createMapAdd c map k v) := by
  refine Outcome.bind fun cv => ?_
  simp only [cvGetMap]
  cases at_i : c.mapValues[cv.data.toNat]? with
  | none =>
      rw [itemAt_outside at_i, modifyAt_outside at_i]
      exact Or.inl rfl
  | some x =>
      have pushed : (c.mapValues.modify cv.data.toNat fun map =>
          { map with keys := map.keys ++ [k] })[cv.data.toNat]?
          = some { x with keys := x.keys ++ [k] } := by
        rw [List.getElem?_modify_eq, at_i]
        rfl
      rw [itemAt_eq_ok.mpr at_i]
      simp only [ExceptRules.ok_bind, modifyAt_of_item at_i]
      split
      · rw [modifyAt_of_item pushed, modifyAt_of_item pushed, List.modify_modify_eq,
          List.modify_modify_eq]
        split
        · exact Or.inl rfl
        · refine Or.inr ⟨c, ?_, .nothing⟩
          have unchanged : c.mapValues.modify cv.data.toNat
              ((fun map : CreateMap => { map with keys := map.keys.dropLast }) ∘
                fun map => { map with keys := map.keys ++ [k] }) = c.mapValues := by
            have same : ((fun map : CreateMap => { map with keys := map.keys.dropLast }) ∘
                fun map => { map with keys := map.keys ++ [k] }) = id := by
              funext map
              simp
            rw [same, List.modify_id]
          simp only [ExceptRules.ok_bind, unchanged, ExceptRules.pure_eq_ok]
      · exact .refused

theorem createVectorPriv_length_le (m : Memory) (c : Create) (type : ValueType) (size : Nat) :
    (m.createVectorPriv c type size).2.values.length ≤ c.values.length + 1 := by
  rcases m.createVectorPriv_cases c type size with granted | refused
  · rw [granted, createVectorPriv_length]
  · rw [refused]
    exact Nat.le_succ _

/-- A vector of a set or map, refused or not, is no more than a leak. -/
theorem leaks_createVectorPriv {c' : Create} {type : ValueType} (m : Memory) (size : Nat)
    (before : Leaks c c') (kept : type = .vectorU32 ∨ type = .vectorValue)
    (room : c'.values.length < 2 ^ 32) : Leaks c (m.createVectorPriv c' type size).2 := by
  rcases m.createVectorPriv_cases c' type size with granted | refused
  · rw [granted]
    exact .vector before kept room
  · rw [refused]
    exact before

theorem marks_leak {vectors : List UInt32} {c' c'' : Create} (before : Leaks c c')
    (new : ∀ handle ∈ vectors, c.values.length ≤ handle.toNat)
    (marked : vectors.foldlM markSetMapVector c' = .ok c'') : Leaks c c'' := by
  induction vectors generalizing c' with
  | nil =>
      cases marked
      exact before
  | cons handle rest ih =>
      obtain ⟨c1, mark, marks⟩ := ExceptRules.bind_eq_ok.mp marked
      have next := Leaks.mark before mark (new handle List.mem_cons_self)
      exact ih next (fun h mem => new h (List.mem_cons_of_mem handle mem)) marks

theorem finishTable_cases {vectors : List UInt32} {c' : Create} (before : Leaks c c')
    (new : ∀ handle ∈ vectors, c.values.length ≤ handle.toNat)
    {granted pooled : Create → UInt32 × Create}
    (either : ∀ c, pooled c = granted c ∨ pooled c = (createValueFail, c)) :
    Outcome c (finishTable vectors c' granted) (finishTable vectors c' pooled) := by
  rw [finishTable, finishTable]
  split
  · exact Or.inl rfl
  · cases marked : vectors.foldlM markSetMapVector c' with
    | error e => exact Or.inl rfl
    | ok c'' =>
        rcases either c'' with same | refused
        · exact Or.inl (congrArg Except.ok same)
        · exact Or.inr ⟨c'', congrArg Except.ok refused, marks_leak before new marked⟩

theorem finishTable_failed {vectors : List UInt32} {c' : Create}
    {granted : Res (UInt32 × Create)} {pooled : Create → UInt32 × Create} (before : Leaks c c')
    (failed : vectors.any (· == createValueFail)) : Outcome c granted (finishTable vectors c' pooled) :=
  Or.inr ⟨c', if_pos failed, before⟩

theorem createSet_eq (m : Memory) (c : Create) :
    m.createSet c =
      let hash := m.createVectorPriv c .vectorU32 4
      let keys := (m.after 2).createVectorPriv hash.2 .vectorValue 4
      finishTable [hash.1, keys.1] keys.2 fun c' =>
        (m.after 4).createPooled c' (.plain .setValue (UInt32.ofNat c.setValues.length)) fun c =>
          { c with setValues := c.setValues ++ [⟨[], hash.1, keys.1⟩] } := by
  simp only [createSet, finishTable, List.any_cons, List.any_nil, Bool.or_false,
    Bool.or_eq_true, beq_iff_eq, List.foldlM_cons, List.foldlM_nil, bind_assoc, pure_bind]

theorem createMap_eq (m : Memory) (c : Create) :
    m.createMap c =
      let hash := m.createVectorPriv c .vectorU32 4
      let keys := (m.after 2).createVectorPriv hash.2 .vectorValue 4
      let values := (m.after 4).createVectorPriv keys.2 .vectorValue 4
      finishTable [hash.1, keys.1, values.1] values.2 fun c' =>
        (m.after 6).createPooled c' (.plain .mapValueValue (UInt32.ofNat c.mapValues.length))
          fun c => { c with mapValues := c.mapValues ++ [⟨[], [], hash.1, keys.1, values.1⟩] } := by
  simp only [createMap, finishTable, List.any_cons, List.any_nil, Bool.or_false,
    Bool.or_eq_true, beq_iff_eq, List.foldlM_cons, List.foldlM_nil, bind_assoc, pure_bind]

theorem granted_createSet_eq (c : Create) :
    Pointless.createSet c =
      let hash := Pointless.createVectorPriv c .vectorU32 4
      let keys := Pointless.createVectorPriv hash.2 .vectorValue 4
      finishTable [hash.1, keys.1] keys.2 fun c' =>
        pushPooled c' (.plain .setValue (UInt32.ofNat c.setValues.length)) fun c =>
          { c with setValues := c.setValues ++ [⟨[], hash.1, keys.1⟩] } := by
  simp only [Pointless.createSet, finishTable, List.any_cons, List.any_nil, Bool.or_false,
    Bool.or_eq_true, beq_iff_eq, List.foldlM_cons, List.foldlM_nil, bind_assoc, pure_bind]
  rfl

theorem granted_createMap_eq (c : Create) :
    Pointless.createMap c =
      let hash := Pointless.createVectorPriv c .vectorU32 4
      let keys := Pointless.createVectorPriv hash.2 .vectorValue 4
      let values := Pointless.createVectorPriv keys.2 .vectorValue 4
      finishTable [hash.1, keys.1, values.1] values.2 fun c' =>
        pushPooled c' (.plain .mapValueValue (UInt32.ofNat c.mapValues.length)) fun c =>
          { c with mapValues := c.mapValues ++ [⟨[], [], hash.1, keys.1, values.1⟩] } := by
  simp only [Pointless.createMap, finishTable, List.any_cons, List.any_nil, Bool.or_false,
    Bool.or_eq_true, beq_iff_eq, List.foldlM_cons, List.foldlM_nil, bind_assoc, pure_bind]
  rfl

theorem createSet_cases (m : Memory) (room : c.values.length + 3 ≤ 2 ^ 32) :
    Outcome c (Pointless.createSet c) (m.createSet c) := by
  rw [createSet_eq, granted_createSet_eq]
  dsimp only
  have leakHash := leaks_createVectorPriv m 4 (.nothing (c := c)) (Or.inl rfl) (by omega)
  have sizeHash := m.createVectorPriv_length_le c .vectorU32 4
  have leakKeys := leaks_createVectorPriv (m.after 2) 4 leakHash (Or.inr rfl) (by omega)
  rcases m.createVectorPriv_cases c .vectorU32 4 with hash | hash
  case inr => exact finishTable_failed leakKeys (by simp [hash])
  rw [hash] at leakKeys ⊢
  rcases (m.after 2).createVectorPriv_cases (Pointless.createVectorPriv c .vectorU32 4).2
    .vectorValue 4 with keys | keys
  case inr => exact finishTable_failed leakKeys (by simp [keys])
  rw [keys] at leakKeys ⊢
  refine finishTable_cases leakKeys ?_ fun c' => (m.after 4).createPooled_cases c' _ _
  intro handle mem
  rcases List.mem_pair.mp mem with rfl | rfl
  · rw [createVectorPriv_fst, toNat_handle (by omega)]
  · rw [createVectorPriv_fst, createVectorPriv_length, toNat_handle (by omega)]
    exact Nat.le_succ _

theorem createMap_cases (m : Memory) (room : c.values.length + 4 ≤ 2 ^ 32) :
    Outcome c (Pointless.createMap c) (m.createMap c) := by
  rw [createMap_eq, granted_createMap_eq]
  dsimp only
  have leakHash := leaks_createVectorPriv m 4 (.nothing (c := c)) (Or.inl rfl) (by omega)
  have sizeHash := m.createVectorPriv_length_le c .vectorU32 4
  have leakKeys := leaks_createVectorPriv (m.after 2) 4 leakHash (Or.inr rfl) (by omega)
  have sizeKeys := (m.after 2).createVectorPriv_length_le (m.createVectorPriv c .vectorU32 4).2
    .vectorValue 4
  have leakValues := leaks_createVectorPriv (m.after 4) 4 leakKeys (Or.inr rfl) (by omega)
  rcases m.createVectorPriv_cases c .vectorU32 4 with hash | hash
  case inr => exact finishTable_failed leakValues (by simp [hash])
  rw [hash] at leakValues ⊢
  rcases (m.after 2).createVectorPriv_cases (Pointless.createVectorPriv c .vectorU32 4).2
    .vectorValue 4 with keys | keys
  case inr => exact finishTable_failed leakValues (by simp [keys])
  rw [keys] at leakValues ⊢
  rcases (m.after 4).createVectorPriv_cases (Pointless.createVectorPriv
    (Pointless.createVectorPriv c .vectorU32 4).2 .vectorValue 4).2 .vectorValue 4
    with values | values
  case inr => exact finishTable_failed leakValues (by simp [values])
  rw [values] at leakValues ⊢
  refine finishTable_cases leakValues ?_ fun c' => (m.after 6).createPooled_cases c' _ _
  intro handle mem
  simp only [List.mem_cons, List.not_mem_nil, or_false] at mem
  rcases mem with rfl | rfl | rfl
  · rw [createVectorPriv_fst, toNat_handle (by omega)]
  · rw [createVectorPriv_fst, createVectorPriv_length, toNat_handle (by omega)]
    exact Nat.le_succ _
  · rw [createVectorPriv_fst, createVectorPriv_length, createVectorPriv_length,
      toNat_handle (by omega)]
    exact Nat.le_add_right _ 2

/-! ## Every call -/

/-- An empty entry of a cache is made empty. -/
theorem cached_kept {inside : Prop} [Decidable inside] {handles : Nat → UInt32} {i : Nat}
    {cache : CreateCache} {set : (Nat → UInt32) → CreateCache} (same : set handles = cache)
    (empty : inside → handles i = createValueFail) :
    (if inside then set fun j => if j = i then createValueFail else handles j else cache)
      = cache := by
  split
  case isFalse => rfl
  case isTrue here =>
    have unchanged : (fun j => if j = i then createValueFail else handles j) = handles := by
      funext j
      split
      case isTrue at_i => rw [at_i, empty here]
      case isFalse => rfl
    rw [unchanged, same]

theorem cacheI32_kept {cache : CreateCache} {v : Int32}
    (empty : createCacheGetI32 cache v = createValueFail) :
    createCacheSetI32 cache v createValueFail = cache := by
  refine @cached_kept _ _ cache.i32Cache _ cache (fun f => { cache with i32Cache := f }) rfl
    fun inside => ?_
  rwa [createCacheGetI32, if_pos inside] at empty

theorem cacheU32_kept {cache : CreateCache} {v : UInt32}
    (empty : createCacheGetU32 cache v = createValueFail) :
    createCacheSetU32 cache v createValueFail = cache := by
  refine @cached_kept _ _ cache.u32Cache _ cache (fun f => { cache with u32Cache := f }) rfl
    fun inside => ?_
  rwa [createCacheGetU32, if_pos inside] at empty

theorem createBooleanTrue_cases (m : Memory) (c : Create) :
    Outcome c (.ok (Pointless.createBooleanTrue c)) (.ok (m.createBooleanTrue c)) :=
  createCached_cases fun empty => by rw [← empty]

theorem createBooleanFalse_cases (m : Memory) (c : Create) :
    Outcome c (.ok (Pointless.createBooleanFalse c)) (.ok (m.createBooleanFalse c)) :=
  createCached_cases fun empty => by rw [← empty]

theorem append_word (t : NumberType) (c : Create) (vector : UInt32) (v : UInt64) :
    t.append c vector v
      = Pointless.createVectorAppendPriv c vector (v.toNat % 256 ^ t.size) := by
  have same {word : Nat} (eq : word = v.toNat % 256 ^ t.size) :
      Pointless.createVectorAppendPriv c vector word
        = Pointless.createVectorAppendPriv c vector (v.toNat % 256 ^ t.size) := by rw [eq]
  cases t
  case i8 => exact same v.toNat_toUInt8
  case u8 => exact same v.toNat_toUInt8
  case i16 => exact same v.toNat_toUInt16
  case u16 => exact same v.toNat_toUInt16
  case i32 => exact same v.toNat_toUInt32
  case u32 => exact same v.toNat_toUInt32
  case i64 => exact same (Nat.mod_eq_of_lt v.toNat_lt).symm
  case u64 => exact same (Nat.mod_eq_of_lt v.toNat_lt).symm
  case float => exact same v.toNat_toUInt32

theorem Outcome.of_pair {granted result : UInt32 × Create}
    (either : result = granted ∨ result = (createValueFail, c)) :
    Outcome c (.ok granted) (.ok result) := by
  rcases either with rfl | rfl
  · exact Or.inl rfl
  · exact .refused

/-- A call under `m` does what it does when nothing is refused, or it fails and leaves no
more than a leak. -/
theorem run_cases (judy : m.judy = true) {call : Call}
    (set : call = .set → c.values.length + 3 ≤ 2 ^ 32)
    (map : call = .map → c.values.length + 4 ≤ 2 ^ 32) :
    Outcome c (call.run c) (m.run c call) := by
  have after (k : Nat) : (m.after k).judy = true := judy
  cases call with
  | setRoot root => exact Or.inl rfl
  | i32 v => exact createCached_cases cacheI32_kept
  | u32 v => exact createCached_cases cacheU32_kept
  | float bits => exact .of_pair (m.createInlineValue_cases c _)
  | null => exact createCached_cases fun empty => by rw [← empty]
  | booleanTrue => exact m.createBooleanTrue_cases c
  | booleanFalse => exact m.createBooleanFalse_cases c
  | boolean v =>
      rw [Call.run, run, createBoolean, Pointless.createBoolean]
      split
      · exact m.createBooleanTrue_cases c
      · exact m.createBooleanFalse_cases c
  | emptySlot => exact createCached_cases fun empty => by rw [← empty]
  | unicodeUcs4 v => exact createUnicodeUcs4_cases judy v
  | unicodeUcs2 v => exact createConverted_cases fun v => createUnicodeUcs4_cases (after 1) v
  | unicodeAscii v => exact createConverted_cases fun v => createUnicodeUcs4_cases (after 1) v
  | stringUcs4 v => exact createConverted_cases fun v => createStringAscii_cases (after 1) v
  | stringUcs2 v => exact createConverted_cases fun v => createStringAscii_cases (after 1) v
  | stringAscii v => exact createStringAscii_cases judy v
  | bitvector v nBits => exact createBitvector_cases judy v nBits true
  | bitvectorNoNormalize v nBits => exact createBitvector_cases judy v nBits false
  | bitvectorCompressed v => exact .of_pair (m.createInlineValue_cases c _)
  | vectorValue => exact .of_pair (m.createVectorPriv_cases c _ _)
  | vectorNumber t =>
      rw [Call.run, t.create_eq]
      exact .of_pair (m.createVectorPriv_cases c _ _)
  | vectorValueAppend vector v => exact m.createVectorValueAppend_cases c vector v
  | vectorNumberAppend t vector v =>
      rw [Call.run, append_word]
      exact m.createVectorAppendPriv_cases c vector _
  | vectorValueSet vector i v => exact Or.inl rfl
  | vectorU32Transfer vector v => exact Or.inl rfl
  | vectorValueTransfer vector v => exact Or.inl rfl
  | vectorOwner t items nItems =>
      rw [Call.run, t.owner_eq]
      exact .of_pair (m.createVectorOwnerPriv_cases c _ _ _)
  | set => exact m.createSet_cases (set rfl)
  | setAdd s k => exact m.createSetAdd_cases c s k
  | map => exact m.createMap_cases (map rfl)
  | mapAdd target k v => exact m.createMapAdd_cases c target k v

end Memory

end Pointless
