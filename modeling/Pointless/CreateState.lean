import Pointless.CreateAlloc
import Pointless.Lib.Ranks

/-!
# Well-formed create states

What holds of a `Create` after every call: a value that keeps something in one of the
six pools holds as its data the number of earlier values of that pool, the interning
maps know the texts and bitvectors there are, and the cache knows inline values only.

* `PoolsOk.push` extends the pools by a value.
* `WellFormed.leak`: what a failed call leaves behind does no harm.
-/

namespace Pointless

open ByteMemory Ranks ExceptRules

/-! ## Pools -/

/-- The arrays of the state that values keep something in. -/
inductive Pool where
  | text
  | bits
  | priv
  | outside
  | set
  | map
  deriving DecidableEq, Repr

/-- The pool that a value has its data in, as an index. -/
def CreateValue.pool (v : CreateValue) : Option Pool :=
  match v.type with
  | .string | .unicode => some .text
  | .bitvector => some .bits
  | .setValue => some .set
  | .mapValueValue => some .map
  | .vectorValue | .vectorI8 | .vectorU8 | .vectorI16 | .vectorU16 | .vectorI32 | .vectorU32
  | .vectorI64 | .vectorU64 | .vectorFloat => some (if v.isOutsideVector then .outside else .priv)
  | _ => none

/-- How many items a pool has. -/
def Create.poolSize (c : Create) : Pool → Nat
  | .text => c.stringUnicodeValues.length
  | .bits => c.bitvectorValues.length
  | .priv => c.privVectorValues.length
  | .outside => c.outsideVectorValues.length
  | .set => c.setValues.length
  | .map => c.mapValues.length

/-- The values of a pool have the positions of their items as data, which are `0`, `1`,
`2`, … in the order of the values. -/
structure PoolsOk (c : Create) : Prop where
  ranked : Ranked CreateValue.pool (fun v => v.data.toNat) c.values
  size : ∀ p, count CreateValue.pool c.values p = c.poolSize p
  room : c.values.length ≤ 2 ^ 32

variable {c c' : Create} {v w : CreateValue} {p : Pool} {i j : Nat}

theorem PoolsOk.inside (ok : PoolsOk c) (at_i : c.values[i]? = some v) (pool : v.pool = some p) :
    v.data.toNat < c.poolSize p := by
  rw [← ok.size p]
  exact ok.ranked.lt_count at_i pool

/-- No two values share an item. -/
theorem PoolsOk.apart (ok : PoolsOk c) (at_i : c.values[i]? = some v)
    (at_j : c.values[j]? = some w) (poolV : v.pool = some p) (poolW : w.pool = some p)
    (same : v.data = w.data) : i = j :=
  ok.ranked.index_unique at_i at_j poolV poolW (congrArg UInt32.toNat same)

theorem PoolsOk.size_le (ok : PoolsOk c) (p : Pool) : c.poolSize p ≤ c.values.length := by
  rw [← ok.size p]
  exact count_le_length c.values p

/-- A value is pushed, and an item onto its pool if it has one. -/
theorem PoolsOk.push (ok : PoolsOk c) (room : c.values.length < 2 ^ 32)
    (values : c'.values = c.values ++ [v])
    (next : ∀ p, v.pool = some p → v.data.toNat = c.poolSize p)
    (size : ∀ p, c'.poolSize p = c.poolSize p + if v.pool = some p then 1 else 0) :
    PoolsOk c' := by
  refine ⟨?_, fun p => ?_, ?_⟩
  · rw [values]
    exact ok.ranked.push fun p pool => (next p pool).trans (ok.size p).symm
  · rw [values, count_append, count_singleton, ok.size p, size p]
  · rw [values, List.length_append]
    exact room

/-- Items are changed where they are. -/
theorem PoolsOk.keep (ok : PoolsOk c) (values : c'.values = c.values)
    (size : ∀ p, c'.poolSize p = c.poolSize p) : PoolsOk c' := by
  refine ⟨?_, fun p => ?_, ?_⟩
  · rw [values]
    exact ok.ranked
  · rw [values, size p]
    exact ok.size p
  · rw [values]
    exact ok.room

/-! ## Texts -/

/-- The width of a character. -/
def charWidth (type : ValueType) : Nat := if type = .unicode then 4 else 1

/-- The buffer of a string or unicode. -/
def textBuffer (type : ValueType) (chars : List Nat) : List UInt8 :=
  stringUnicodeBuffer (charWidth type) chars

/-- A type of text, and characters that are not zero and fit its width. -/
def IsText (type : ValueType) (chars : List Nat) : Prop :=
  (type = .string ∨ type = .unicode) ∧ ∀ x ∈ chars, x ≠ 0 ∧ x < 256 ^ charWidth type

/-- The characters of a buffer with the terminator. -/
theorem textBuffer_chars {s t : ValueType} {xs ys : List Nat}
    (same : textBuffer s xs = textBuffer t ys) :
    ((xs ++ [0]).map (encode (charWidth s))).flatten
      = ((ys ++ [0]).map (encode (charWidth t))).flatten :=
  (List.append_inj same (by rw [bytesU32, bytesU32, length_encode, length_encode])).2

/-- A string has no zero byte before its last one, and a unicode ends in four. -/
theorem string_ne_unicode {xs ys : List Nat} (isString : IsText .string xs) :
    textBuffer .string xs ≠ textBuffer .unicode ys := by
  intro same
  have bytes := textBuffer_chars same
  change ((xs ++ [0]).map (encode 1)).flatten = ((ys ++ [0]).map (encode 4)).flatten at bytes
  rw [flatten_encode_one, List.map_append, List.map_append, List.flatten_append] at bytes
  have ends : ([0].map (encode 4)).flatten = [0, 0, 0] ++ [(0 : UInt8)] := rfl
  rw [ends, ← List.append_assoc] at bytes
  have zero : (0 : UInt8) ∈ xs.map UInt8.ofNat := by
    rw [List.append_cancel_right bytes]
    simp
  obtain ⟨x, mem, isZero⟩ := List.mem_map.mp zero
  obtain ⟨nonzero, narrow⟩ := isString.2 x mem
  have value := congrArg UInt8.toNat isZero
  rw [UInt8.toNat_ofNat', Nat.mod_eq_of_lt (show x < 2 ^ 8 from narrow)] at value
  exact nonzero value

/-- The two layouts never meet, and each determines its characters. -/
theorem textBuffer_inj {s t : ValueType} {xs ys : List Nat} (isS : IsText s xs)
    (isT : IsText t ys) (same : textBuffer s xs = textBuffer t ys) : s = t ∧ xs = ys := by
  have types : s = t := by
    rcases isS.1 with rfl | rfl
    · rcases isT.1 with rfl | rfl
      · rfl
      · exact absurd same (string_ne_unicode isS)
    · rcases isT.1 with rfl | rfl
      · exact absurd same.symm (string_ne_unicode isT)
      · rfl
  subst types
  have wide : 0 < charWidth s := by
    rw [charWidth]
    split
    · exact Nat.succ_pos 3
    · exact Nat.one_pos
  have bound {zs : List Nat} (isText : IsText s zs) : ∀ z ∈ zs ++ [0], z < 256 ^ charWidth s := by
    intro z mem
    rcases List.mem_append.mp mem with char | terminator
    · exact (isText.2 z char).2
    · rw [List.mem_singleton.mp terminator]
      exact Nat.pow_pos (Nat.succ_pos 255)
  have chars := flatten_encode_inj wide (bound isS) (bound isT) (textBuffer_chars same)
  exact ⟨rfl, List.append_cancel_right chars⟩

/-- The texts are interned: the Judy map has the handle of each under its buffer, and
nothing else. -/
structure TextsOk (c : Create) : Prop where
  kept : ∀ i v, c.values[i]? = some v → v.pool = some .text →
    ∃ chars, IsText v.type chars ∧
      c.stringUnicodeValues[v.data.toNat]? = some (textBuffer v.type chars) ∧
      c.stringUnicodeMapJudy.lookup (textBuffer v.type chars) = some (UInt32.ofNat i)
  found : ∀ buffer handle, c.stringUnicodeMapJudy.lookup buffer = some handle →
    ∃ v, c.values[handle.toNat]? = some v ∧ v.isSetMapVector = false ∧ v.pool = some .text ∧
      c.stringUnicodeValues[v.data.toNat]? = some buffer
  count : c.stringUnicodeMapJudyCount = UInt32.ofNat c.stringUnicodeValues.length

/-- The bitvectors that have been normalized are found again. -/
structure BitvectorsOk (c : Create) : Prop where
  found : ∀ buffer handle, c.bitvectorMapJudy.lookup buffer = some handle →
    ∃ v, c.values[handle.toNat]? = some v ∧ v.isSetMapVector = false ∧ v.type = .bitvector ∧
      c.bitvectorValues[v.data.toNat]? = some buffer
  count : c.bitvectorMapJudyCount = UInt32.ofNat c.bitvectorValues.length

/-! ## Cache -/

/-- A handle in the cache, if there is one, is that of `v`. -/
def IsCached (c : Create) (handle : UInt32) (v : CreateValue) : Prop :=
  handle ≠ createValueFail → c.values[handle.toNat]? = some v

/-- The cache denotes what it is asked for. -/
structure CacheOk (c : Create) : Prop where
  init : c.cache.init = createValueFail
  i32 : ∀ v, IsCached c (createCacheGetI32 c.cache v) (.plain .i32 v.toUInt32)
  u32 : ∀ v, IsCached c (createCacheGetU32 c.cache v) (.plain .u32 v)
  null : IsCached c c.cache.nullHandle (.plain .null 0)
  booleanTrue : IsCached c c.cache.trueHandle (.plain .boolean 1)
  booleanFalse : IsCached c c.cache.falseHandle (.plain .boolean 0)
  emptySlot : IsCached c c.cache.emptySlotHandle (.plain .emptySlot 0)

/-! ## The invariant -/

/-- What holds of every state. -/
structure WellFormed (c : Create) : Prop where
  pools : PoolsOk c
  texts : TextsOk c
  bitvectors : BitvectorsOk c
  maps : ∀ map ∈ c.mapValues, map.keys.length = map.values.length
  cache : CacheOk c

/-! ## Frames -/

/-- The states agree on the texts. -/
structure SameTexts (c c' : Create) : Prop where
  items : c'.stringUnicodeValues = c.stringUnicodeValues
  judy : c'.stringUnicodeMapJudy = c.stringUnicodeMapJudy
  count : c'.stringUnicodeMapJudyCount = c.stringUnicodeMapJudyCount

/-- The states agree on the bitvectors. -/
structure SameBitvectors (c c' : Create) : Prop where
  items : c'.bitvectorValues = c.bitvectorValues
  judy : c'.bitvectorMapJudy = c.bitvectorMapJudy
  count : c'.bitvectorMapJudyCount = c.bitvectorMapJudyCount

/-- The states agree on everything that is looked up. -/
structure SameInterned (c c' : Create) : Prop where
  texts : SameTexts c c'
  bitvectors : SameBitvectors c c'
  cache : c'.cache = c.cache

/-- Values that are no private vectors stay where they are. -/
def KeepsValues (c c' : Create) : Prop :=
  ∀ (i : Nat) (v : CreateValue), v.pool ≠ some .priv → c.values[i]? = some v →
    c'.values[i]? = some v

/-- No texts are added. -/
def NoNewTexts (c c' : Create) : Prop :=
  ∀ (i : Nat) (v : CreateValue), v.pool = some .text → c'.values[i]? = some v →
    c.values[i]? = some v

theorem pool_of_bitvector (type : v.type = .bitvector) : v.pool = some .bits := by
  rw [CreateValue.pool, type]

theorem CacheOk.frame (ok : CacheOk c) (same : c'.cache = c.cache) (keeps : KeepsValues c c') :
    CacheOk c' := by
  have carry {handle : UInt32} {v : CreateValue} (plain : v.pool = none)
      (cached : IsCached c handle v) : IsCached c' handle v := fun isHandle =>
    keeps _ v (by rw [plain]; nofun) (cached isHandle)
  refine ⟨by rw [same]; exact ok.init, fun v => ?_, fun v => ?_, ?_, ?_, ?_, ?_⟩
  all_goals rw [same]
  · exact carry rfl (ok.i32 v)
  · exact carry rfl (ok.u32 v)
  · exact carry rfl ok.null
  · exact carry rfl ok.booleanTrue
  · exact carry rfl ok.booleanFalse
  · exact carry rfl ok.emptySlot

theorem TextsOk.frame (ok : TextsOk c) (same : SameTexts c c') (keeps : KeepsValues c c')
    (noNew : NoNewTexts c c') : TextsOk c' := by
  refine ⟨fun i v at_i pool => ?_, fun buffer handle hit => ?_, ?_⟩
  · rw [same.items, same.judy]
    exact ok.kept i v (noNew i v pool at_i) pool
  · rw [same.judy] at hit
    obtain ⟨v, at_h, shown, pool, item⟩ := ok.found buffer handle hit
    rw [same.items]
    exact ⟨v, keeps _ v (by rw [pool]; nofun) at_h, shown, pool, item⟩
  · rw [same.count, same.items]
    exact ok.count

theorem BitvectorsOk.frame (ok : BitvectorsOk c) (same : SameBitvectors c c')
    (keeps : KeepsValues c c') : BitvectorsOk c' := by
  refine ⟨fun buffer handle hit => ?_, ?_⟩
  · rw [same.judy] at hit
    obtain ⟨v, at_h, shown, type, item⟩ := ok.found buffer handle hit
    rw [same.items]
    exact ⟨v, keeps _ v (by rw [pool_of_bitvector type]; nofun) at_h, shown, type, item⟩
  · rw [same.count, same.items]
    exact ok.count

/-- A step that interns nothing. -/
theorem WellFormed.frame (wf : WellFormed c) (pools : PoolsOk c') (same : SameInterned c c')
    (keeps : KeepsValues c c') (noNew : NoNewTexts c c')
    (maps : ∀ map ∈ c'.mapValues, map.keys.length = map.values.length) : WellFormed c' :=
  ⟨pools, wf.texts.frame same.texts keeps noNew, wf.bitvectors.frame same.bitvectors keeps, maps,
    wf.cache.frame same.cache keeps⟩

/-! ## Pushing a value -/

theorem getElem?_push {α : Type} {l : List α} {x y : α} (at_i : l[i]? = some x) :
    (l ++ [y])[i]? = some x := by
  rw [List.getElem?_append_left (List.getElem?_eq_some_iff.mp at_i).1, at_i]

theorem getElem?_of_push {l : List CreateValue} (at_i : (l ++ [w])[i]? = some v) :
    l[i]? = some v ∨ i = l.length ∧ v = w := by
  rcases Nat.lt_or_ge i l.length with less | more
  · rw [List.getElem?_append_left less] at at_i
    exact Or.inl at_i
  · rw [List.getElem?_append_right more] at at_i
    have last : i - l.length = 0 := by
      have := (List.getElem?_eq_some_iff.mp at_i).1
      simpa using this
    rw [last] at at_i
    exact Or.inr ⟨by omega, (Option.some.inj at_i).symm⟩

theorem getElem?_pushed {α : Type} (l : List α) (x : α) : (l ++ [x])[l.length]? = some x := by
  rw [List.getElem?_append_right (Nat.le_refl _), Nat.sub_self]
  rfl

theorem keepsValues_push (values : c'.values = c.values ++ [w]) : KeepsValues c c' := by
  intro i v _ at_i
  rw [values]
  exact getElem?_push at_i

theorem noNewTexts_push (values : c'.values = c.values ++ [w]) (other : w.pool ≠ some .text) :
    NoNewTexts c c' := by
  intro i v pool at_i
  rw [values] at at_i
  rcases getElem?_of_push at_i with before | ⟨_, rfl⟩
  · exact before
  · exact absurd pool other

/-- Push a value that is not interned, with its item. -/
theorem WellFormed.push (wf : WellFormed c) (room : c.values.length < 2 ^ 32)
    (values : c'.values = c.values ++ [v]) (same : SameInterned c c')
    (other : v.pool ≠ some .text)
    (next : ∀ p, v.pool = some p → v.data.toNat = c.poolSize p)
    (size : ∀ p, c'.poolSize p = c.poolSize p + if v.pool = some p then 1 else 0)
    (maps : ∀ map ∈ c'.mapValues, map.keys.length = map.values.length) : WellFormed c' :=
  wf.frame (wf.pools.push room values next size) same (keepsValues_push values)
    (noNewTexts_push values other) maps

/-- Push a value that is complete in itself. -/
theorem WellFormed.pushInline (wf : WellFormed c) (room : c.values.length < 2 ^ 32)
    (inline : v.pool = none) : WellFormed (pushValue c v).2 := by
  refine wf.push room rfl ⟨⟨rfl, rfl, rfl⟩, ⟨rfl, rfl, rfl⟩, rfl⟩ (by rw [inline]; nofun) ?_ ?_ wf.maps
  · intro p pool
    rw [inline] at pool
    cases pool
  · intro p
    rw [inline, if_neg nofun]
    cases p <;> rfl

/-- The pool of a vector of the library's. -/
theorem pool_priv {type : ValueType} {data : UInt32}
    (isVector : type = .vectorValue ∨ ∃ t : NumberType, type = t.vectorType) :
    (CreateValue.plain type data).pool = some .priv := by
  rcases isVector with rfl | ⟨t, rfl⟩
  · rfl
  · cases t <;> rfl

theorem toNat_poolSize (pools : PoolsOk c) (room : c.values.length < 2 ^ 32) (p : Pool) :
    (UInt32.ofNat (c.poolSize p)).toNat = c.poolSize p :=
  toNat_handle (Nat.lt_of_le_of_lt (pools.size_le p) room)

theorem WellFormed.pushVectorPriv (wf : WellFormed c) (room : c.values.length < 2 ^ 32)
    {type : ValueType} (isVector : type = .vectorValue ∨ ∃ t : NumberType, type = t.vectorType)
    (itemSize : Nat) : WellFormed (createVectorPriv c type itemSize).2 := by
  have pool : (CreateValue.plain type (UInt32.ofNat c.privVectorValues.length)).pool
      = some .priv := pool_priv isVector
  refine wf.push room rfl ⟨⟨rfl, rfl, rfl⟩, ⟨rfl, rfl, rfl⟩, rfl⟩ (by rw [pool]; nofun) ?_ ?_ wf.maps
  · intro p same
    cases pool.symm.trans same
    exact toNat_poolSize wf.pools room .priv
  · intro p
    rw [pool]
    cases p
    case priv => exact List.length_append
    all_goals rfl

theorem WellFormed.pushVectorOwner (wf : WellFormed c) (room : c.values.length < 2 ^ 32)
    (t : NumberType) (items : List UInt8) (nItems : UInt32) :
    WellFormed (createVectorOwnerPriv c t.vectorType items nItems).2 := by
  rw [createVectorOwnerPriv]
  split
  · exact wf.pushInline room rfl
  · have pool : (CreateValue.mk t.vectorType false false true
        (UInt32.ofNat c.outsideVectorValues.length)).pool = some .outside := by
      cases t <;> rfl
    refine wf.push room rfl ⟨⟨rfl, rfl, rfl⟩, ⟨rfl, rfl, rfl⟩, rfl⟩ (by rw [pool]; decide) ?_ ?_
      wf.maps
    · intro p same
      cases pool.symm.trans same
      exact toNat_poolSize wf.pools room .outside
    · intro p
      rw [pool]
      cases p
      case outside => exact List.length_append
      all_goals rfl

/-- The set of a value whose two vectors have been made. -/
theorem WellFormed.pushSet (wf : WellFormed c) (room : c.values.length < 2 ^ 32)
    (hash keys : UInt32) :
    WellFormed (pushPooled c (.plain .setValue (UInt32.ofNat c.setValues.length)) fun c =>
      { c with setValues := c.setValues ++ [⟨[], hash, keys⟩] }).2 := by
  refine wf.push room rfl ⟨⟨rfl, rfl, rfl⟩, ⟨rfl, rfl, rfl⟩, rfl⟩ nofun ?_ ?_ wf.maps
  · intro p same
    cases same
    exact toNat_poolSize wf.pools room .set
  · intro p
    cases p
    case set => exact List.length_append
    all_goals rfl

/-- The map of a value whose three vectors have been made. -/
theorem WellFormed.pushMap (wf : WellFormed c) (room : c.values.length < 2 ^ 32)
    (hash keys values : UInt32) :
    WellFormed (pushPooled c (.plain .mapValueValue (UInt32.ofNat c.mapValues.length)) fun c =>
      { c with mapValues := c.mapValues ++ [⟨[], [], hash, keys, values⟩] }).2 := by
  refine wf.push room rfl ⟨⟨rfl, rfl, rfl⟩, ⟨rfl, rfl, rfl⟩, rfl⟩ nofun ?_ ?_ ?_
  · intro p same
    cases same
    exact toNat_poolSize wf.pools room .map
  · intro p
    cases p
    case map => exact List.length_append
    all_goals rfl
  · intro map mem
    rcases List.mem_append.mp mem with old | new
    · exact wf.maps map old
    · cases List.mem_singleton.mp new
      rfl

/-! ## Leaks -/

theorem markSetMapVector_eq {handle : UInt32} (marked : markSetMapVector c handle = .ok c') :
    c' = { c with values := c.values.modify handle.toNat fun v =>
      { v with isSetMapVector := true } } := by
  rw [markSetMapVector] at marked
  obtain ⟨values, modified, done⟩ := bind_eq_ok.mp marked
  rw [modifyAt] at modified
  split at modified
  · cases modified
    exact (Except.ok.inj done).symm
  · cases modified

/-- Mark a vector that a set or map keeps to itself. -/
theorem WellFormed.mark (wf : WellFormed c) {handle : UInt32}
    (marked : markSetMapVector c handle = .ok c')
    (priv : ∀ v, c.values[handle.toNat]? = some v → v.pool = some .priv) : WellFormed c' := by
  cases markSetMapVector_eq marked
  have pools : (c.values.modify handle.toNat fun v => { v with isSetMapVector := true }).map
      CreateValue.pool = c.values.map CreateValue.pool := by
    apply map_modify_of_eq
    exact fun _ => rfl
  have ranks : (c.values.modify handle.toNat fun v => { v with isSetMapVector := true }).map
      (fun v => v.data.toNat) = c.values.map fun v => v.data.toNat := by
    apply map_modify_of_eq
    exact fun _ => rfl
  refine wf.frame ⟨wf.pools.ranked.of_map pools ranks, fun p => ?_, ?_⟩
    ⟨⟨rfl, rfl, rfl⟩, ⟨rfl, rfl, rfl⟩, rfl⟩ ?_ ?_ wf.maps
  · exact (count_eq_of_map pools p).trans (wf.pools.size p)
  · exact (List.length_modify _ _ _).trans_le wf.pools.room
  · intro i v other at_i
    have apart : handle.toNat ≠ i := by
      rintro rfl
      exact other (priv v at_i)
    exact (List.getElem?_modify_ne _ _ apart).trans at_i
  · intro i v pool at_i
    have apart : handle.toNat ≠ i := by
      rintro rfl
      rw [List.getElem?_modify_eq] at at_i
      obtain ⟨w, at_h, rfl⟩ := Option.map_eq_some_iff.mp at_i
      have := (priv w at_h).symm.trans pool
      cases this
    exact (List.getElem?_modify_ne _ _ apart).symm.trans at_i

/-- What a leak keeps: everything but values and private vectors, and of these it adds
some private vectors. -/
structure LeakKeeps (c c' : Create) : Prop where
  values : c.values <+: c'.values
  privVectors : c.privVectorValues <+: c'.privVectorValues
  added : ∀ i v, c.values.length ≤ i → c'.values[i]? = some v → v.pool = some .priv
  rest : ∃ values privVectorValues, c' = { c with values, privVectorValues }

theorem Leaks.keeps (leaks : Leaks c c') : LeakKeeps c c' := by
  induction leaks with
  | nothing =>
      refine ⟨List.prefix_refl _, List.prefix_refl _, fun i v beyond at_i => ?_, _, _, rfl⟩
      have inside := (List.getElem?_eq_some_iff.mp at_i).1
      omega
  | @vector c' type size _ kept _ ih =>
      obtain ⟨values, privVectors, added, vs, ps, rfl⟩ := ih
      refine ⟨values.trans (List.prefix_append _ _), privVectors.trans (List.prefix_append _ _),
        fun i v beyond at_i => ?_, _, _, rfl⟩
      rcases getElem?_of_push at_i with before | ⟨_, rfl⟩
      · exact added i v beyond before
      · rcases kept with rfl | rfl
        · rfl
        · rfl
  | @mark c' c'' handle _ marked new ih =>
      obtain ⟨values, privVectors, added, vs, ps, rfl⟩ := ih
      cases markSetMapVector_eq marked
      refine ⟨?_, privVectors, fun i v beyond at_i => ?_, _, _, rfl⟩
      · rw [List.prefix_iff_getElem?] at values ⊢
        intro i less
        have apart : handle.toNat ≠ i := by omega
        exact (List.getElem?_modify_ne _ _ apart).trans (values i less)
      · rw [List.getElem?_modify] at at_i
        obtain ⟨w, old, change⟩ := Option.map_eq_some_iff.mp at_i
        have pool := added i w beyond old
        rw [← change]
        split
        · exact pool
        · exact pool

theorem WellFormed.leak (wf : WellFormed c) (leaks : Leaks c c') : WellFormed c' := by
  induction leaks with
  | nothing => exact wf
  | @vector c' type size _ kept room ih =>
      refine ih.pushVectorPriv room ?_ size
      rcases kept with rfl | rfl
      · exact Or.inr ⟨.u32, rfl⟩
      · exact Or.inl rfl
  | mark before marked new ih =>
      exact ih.mark marked fun v at_h => before.keeps.added _ v new at_h

/-! ## Interning -/

theorem lookup_cons_of_ne {α β : Type} [BEq α] [LawfulBEq α] {k k' : α} {x : β}
    {l : List (α × β)} (apart : k ≠ k') : List.lookup k ((k', x) :: l) = List.lookup k l := by
  rw [List.lookup_cons, beq_false_of_ne apart]

/-- Intern a text that is not there yet. -/
theorem WellFormed.pushText (wf : WellFormed c) (room : c.values.length < 2 ^ 32)
    {type : ValueType} {chars : List Nat} (isText : IsText type chars)
    (absent : c.stringUnicodeMapJudy.lookup (textBuffer type chars) = none) :
    WellFormed (createStringUnicode c type (textBuffer type chars)).2 := by
  have pool : (CreateValue.plain type c.stringUnicodeMapJudyCount).pool = some .text := by
    rcases isText.1 with rfl | rfl
    · rfl
    · rfl
  have data : c.stringUnicodeMapJudyCount.toNat = c.stringUnicodeValues.length := by
    rw [wf.texts.count]
    exact toNat_poolSize wf.pools room .text
  have handle : (UInt32.ofNat c.values.length).toNat = c.values.length := toNat_handle room
  rw [createStringUnicode, absent]
  have keeps : KeepsValues c { c with
      values := c.values ++ [.plain type c.stringUnicodeMapJudyCount] } := keepsValues_push rfl
  refine ⟨wf.pools.push room rfl ?_ ?_, ⟨?_, ?_, ?_⟩, wf.bitvectors.frame ⟨rfl, rfl, rfl⟩ keeps,
    wf.maps, wf.cache.frame rfl keeps⟩
  · intro p same
    cases pool.symm.trans same
    exact data
  · intro p
    rw [pool]
    cases p
    case text => exact List.length_append
    all_goals rfl
  · intro i v at_i isPool
    rcases getElem?_of_push at_i with before | ⟨rfl, rfl⟩
    · obtain ⟨chars', isText', item, known⟩ := wf.texts.kept i v before isPool
      have apart : textBuffer v.type chars' ≠ textBuffer type chars := by
        intro same
        rw [same, absent] at known
        cases known
      exact ⟨chars', isText', getElem?_push item, (lookup_cons_of_ne apart).trans known⟩
    · refine ⟨chars, isText, ?_, List.lookup_cons_self⟩
      change (c.stringUnicodeValues ++ [_])[c.stringUnicodeMapJudyCount.toNat]? = _
      rw [data]
      exact getElem?_pushed _ _
  · intro buffer h hit
    by_cases same : buffer = textBuffer type chars
    · subst same
      cases List.lookup_cons_self.symm.trans hit
      refine ⟨.plain type c.stringUnicodeMapJudyCount, ?_, rfl, pool, ?_⟩
      · change (c.values ++ [_])[(UInt32.ofNat c.values.length).toNat]? = _
        rw [handle]
        exact getElem?_pushed _ _
      · change (c.stringUnicodeValues ++ [_])[c.stringUnicodeMapJudyCount.toNat]? = _
        rw [data]
        exact getElem?_pushed _ _
    · obtain ⟨v, at_h, shown, isPool, item⟩ :=
        wf.texts.found buffer h ((lookup_cons_of_ne same).symm.trans hit)
      exact ⟨v, getElem?_push at_h, shown, isPool, getElem?_push item⟩
  · change c.stringUnicodeMapJudyCount + 1 = UInt32.ofNat (c.stringUnicodeValues ++ [_]).length
    rw [List.length_append, wf.texts.count]
    exact (UInt32.ofNat_add _ 1).symm

/-- Keep a bitvector on the heap. -/
theorem WellFormed.pushBitvector (wf : WellFormed c) (room : c.values.length < 2 ^ 32)
    (buffer : List UInt8) (normalize : Bool)
    (absent : normalize = true → c.bitvectorMapJudy.lookup buffer = none) :
    WellFormed (createBitvectorHeap c buffer normalize).2 := by
  have missed : (if normalize then c.bitvectorMapJudy.lookup buffer else none) = none := by
    split
    · rename_i isTrue
      exact absent isTrue
    · rfl
  have data : c.bitvectorMapJudyCount.toNat = c.bitvectorValues.length := by
    rw [wf.bitvectors.count]
    exact toNat_poolSize wf.pools room .bits
  have handle : (UInt32.ofNat c.values.length).toNat = c.values.length := toNat_handle room
  rw [createBitvectorHeap, missed]
  have keeps : KeepsValues c { c with
      values := c.values ++ [.plain .bitvector c.bitvectorMapJudyCount] } := keepsValues_push rfl
  have noNew : NoNewTexts c { c with
      values := c.values ++ [.plain .bitvector c.bitvectorMapJudyCount] } :=
    noNewTexts_push rfl fun bad => by cases bad
  refine ⟨wf.pools.push room rfl ?_ ?_, wf.texts.frame ⟨rfl, rfl, rfl⟩ keeps noNew, ⟨?_, ?_⟩,
    wf.maps, wf.cache.frame rfl keeps⟩
  · intro p same
    cases same
    exact data
  · intro p
    cases p
    case bits => exact List.length_append
    all_goals rfl
  · have old {b : List UInt8} {h : UInt32} (hit : c.bitvectorMapJudy.lookup b = some h) :
        ∃ v, (c.values ++ [.plain .bitvector c.bitvectorMapJudyCount])[h.toNat]? = some v ∧
          v.isSetMapVector = false ∧ v.type = .bitvector ∧
          (c.bitvectorValues ++ [buffer])[v.data.toNat]? = some b := by
      obtain ⟨v, at_h, shown, type, item⟩ := wf.bitvectors.found b h hit
      exact ⟨v, getElem?_push at_h, shown, type, getElem?_push item⟩
    intro b h hit
    cases normalize with
    | false => exact old hit
    | true =>
        by_cases same : b = buffer
        · subst same
          cases List.lookup_cons_self.symm.trans hit
          refine ⟨.plain .bitvector c.bitvectorMapJudyCount, ?_, rfl, rfl, ?_⟩
          · change (c.values ++ [_])[(UInt32.ofNat c.values.length).toNat]? = _
            rw [handle]
            exact getElem?_pushed _ _
          · change (c.bitvectorValues ++ [_])[c.bitvectorMapJudyCount.toNat]? = _
            rw [data]
            exact getElem?_pushed _ _
        · exact old ((lookup_cons_of_ne same).symm.trans hit)
  · change c.bitvectorMapJudyCount + 1 = UInt32.ofNat (c.bitvectorValues ++ [_]).length
    rw [List.length_append, wf.bitvectors.count]
    exact (UInt32.ofNat_add _ 1).symm

/-! ## Cached values -/

/-- Push an inline value and note its handle where the cache has none for it. -/
theorem WellFormed.pushCached (wf : WellFormed c) {handle : UInt32} {v : CreateValue}
    {set : CreateCache → UInt32 → CreateCache} (inline : v.pool = none)
    (room : handle = createValueFail → c.values.length < 2 ^ 32)
    (cache : CacheOk (pushValue c v).2 → IsCached (pushValue c v).2 (pushValue c v).1 v →
      CacheOk { (pushValue c v).2 with cache := set c.cache (pushValue c v).1 }) :
    WellFormed (pushCached c handle v set).2 := by
  rw [Pointless.pushCached]
  split
  · exact wf
  · rename_i absent
    have pushed := wf.pushInline (room (not_not.mp absent)) inline
    have here : IsCached (pushValue c v).2 (pushValue c v).1 v := by
      intro _
      change (c.values ++ [v])[(UInt32.ofNat c.values.length).toNat]? = some v
      rw [toNat_handle (room (not_not.mp absent))]
      exact getElem?_pushed _ _
    refine ⟨pushed.pools.keep rfl fun _ => rfl, ?_, ?_, pushed.maps, cache pushed.cache here⟩
    · exact pushed.texts.frame ⟨rfl, rfl, rfl⟩ (fun _ _ _ at_i => at_i) fun _ _ _ at_i => at_i
    · exact pushed.bitvectors.frame ⟨rfl, rfl, rfl⟩ fun _ _ _ at_i => at_i

/-- A handle noted under one number is found under that number only: the shifted bounds
keep the slots apart. -/
theorem getI32_setI32 (cache : CreateCache) (v w : Int32) (handle : UInt32) :
    createCacheGetI32 (createCacheSetI32 cache v handle) w = createCacheGetI32 cache w ∨
      (w = v ∧ createCacheGetI32 (createCacheSetI32 cache v handle) w = handle) := by
  rw [createCacheSetI32]
  split
  case isFalse => exact Or.inl rfl
  rename_i insideV
  rw [createCacheGetI32, createCacheGetI32]
  split
  case isFalse => exact Or.inl rfl
  rename_i insideW
  by_cases same : (w.toInt - createCacheMinI32).toNat = (v.toInt - createCacheMinI32).toNat
  · right
    have equal : w = v := by
      apply Int32.toInt_inj.mp
      omega
    exact ⟨equal, if_pos same⟩
  · exact Or.inl (if_neg same)

theorem getU32_setU32 (cache : CreateCache) (v w handle : UInt32) :
    createCacheGetU32 (createCacheSetU32 cache v handle) w = createCacheGetU32 cache w ∨
      (w = v ∧ createCacheGetU32 (createCacheSetU32 cache v handle) w = handle) := by
  rw [createCacheSetU32]
  split
  case isFalse => exact Or.inl rfl
  rw [createCacheGetU32, createCacheGetU32]
  split
  case isFalse => exact Or.inl rfl
  by_cases same : w.toNat = v.toNat
  · exact Or.inr ⟨UInt32.toNat_inj.mp same, if_pos same⟩
  · exact Or.inl (if_neg same)

theorem setI32_rest (cache : CreateCache) (v : Int32) (handle : UInt32) :
    ∃ i32Cache, createCacheSetI32 cache v handle = { cache with i32Cache } := by
  rw [createCacheSetI32]
  split
  · exact ⟨_, rfl⟩
  · exact ⟨cache.i32Cache, rfl⟩

theorem setU32_rest (cache : CreateCache) (v handle : UInt32) :
    ∃ u32Cache, createCacheSetU32 cache v handle = { cache with u32Cache } := by
  rw [createCacheSetU32]
  split
  · exact ⟨_, rfl⟩
  · exact ⟨cache.u32Cache, rfl⟩

theorem CacheOk.setI32 (ok : CacheOk c) {v : Int32} {handle : UInt32}
    (here : IsCached c handle (.plain .i32 v.toUInt32)) :
    CacheOk { c with cache := createCacheSetI32 c.cache v handle } := by
  have i32 (w : Int32) : IsCached c (createCacheGetI32 (createCacheSetI32 c.cache v handle) w)
      (.plain .i32 w.toUInt32) := by
    rcases getI32_setI32 c.cache v w handle with old | ⟨rfl, new⟩
    · rw [old]
      exact ok.i32 w
    · rw [new]
      exact here
  obtain ⟨slots, rest⟩ := setI32_rest c.cache v handle
  rw [rest] at i32 ⊢
  exact ⟨ok.init, i32, ok.u32, ok.null, ok.booleanTrue, ok.booleanFalse, ok.emptySlot⟩

theorem CacheOk.setU32 (ok : CacheOk c) {v handle : UInt32}
    (here : IsCached c handle (.plain .u32 v)) :
    CacheOk { c with cache := createCacheSetU32 c.cache v handle } := by
  have u32 (w : UInt32) : IsCached c (createCacheGetU32 (createCacheSetU32 c.cache v handle) w)
      (.plain .u32 w) := by
    rcases getU32_setU32 c.cache v w handle with old | ⟨rfl, new⟩
    · rw [old]
      exact ok.u32 w
    · rw [new]
      exact here
  obtain ⟨slots, rest⟩ := setU32_rest c.cache v handle
  rw [rest] at u32 ⊢
  exact ⟨ok.init, ok.i32, u32, ok.null, ok.booleanTrue, ok.booleanFalse, ok.emptySlot⟩

/-! ## The beginning, sets and maps, and changes in place -/

theorem wellFormed_begin (version : UInt32) : WellFormed (createBegin version) := by
  have cached (v : CreateValue) : IsCached (createBegin version) createValueFail v :=
    fun isHandle => absurd rfl isHandle
  refine ⟨⟨Ranked.nil, fun p => ?_, Nat.zero_le _⟩, ⟨?_, ?_, rfl⟩, ⟨?_, rfl⟩, ?_, rfl, ?_, ?_, ?_,
    ?_, ?_, ?_⟩
  · cases p
    all_goals rfl
  · intro i v at_i
    cases at_i
  · intro buffer handle hit
    cases hit
  · intro buffer handle hit
    cases hit
  · intro map mem
    cases mem
  · intro v
    have none : createCacheGetI32 (createBegin version).cache v = createValueFail := by
      rw [createCacheGetI32]
      split
      · rfl
      · rfl
    rw [none]
    exact cached _
  · intro v
    have none : createCacheGetU32 (createBegin version).cache v = createValueFail := by
      rw [createCacheGetU32]
      split
      · rfl
      · rfl
    rw [none]
    exact cached _
  · exact cached _
  · exact cached _
  · exact cached _
  · exact cached _

/-- Items of private vectors and sets, and pairs of maps, are changed in place. -/
theorem WellFormed.update (wf : WellFormed c) (values : c'.values = c.values)
    (same : SameInterned c c') (size : ∀ p, c'.poolSize p = c.poolSize p)
    (maps : ∀ map ∈ c'.mapValues, map.keys.length = map.values.length) : WellFormed c' := by
  refine wf.frame (wf.pools.keep values size) same (fun i v _ at_i => ?_) (fun i v _ at_i => ?_)
    maps
  · rw [values]
    exact at_i
  · rw [← values]
    exact at_i

end Pointless
