import Pointless.CreateBits
import Pointless.CreateKeys
import Pointless.CreateState

/-!
# What handles denote

The create API seen from outside: each handle a call answers stands for a content, a
later call may add to the content of a handle it is given, and that is all that ever
happens to it. `Call.issue` is this reading of a call, over nothing but the handles
and contents there have been; `Denotes` is what a state says a handle stands for.
-/

namespace Pointless

open ExceptRules

/-! ## Contents -/

/-- What a handle stands for. -/
inductive Content where
  | inline (type : ValueType) (data : UInt32)
  | text (type : ValueType) (chars : List Nat)
  | bits (bits : List Bool)
  | vector (type : ValueType) (array : Dynarray)
  | owned (type : ValueType) (items : List UInt8) (nItems : UInt32)
  | set (keys : List UInt32)
  | map (keys values : List UInt32)
  deriving DecidableEq, Repr

/-- The characters of a terminated string. -/
def charsOf (v : List Nat) : List Nat := v.takeWhile (· ≠ 0)

namespace Call

/-- What a call that creates a value is asked for. -/
def created : Call → Option Content
  | i32 v => some (.inline .i32 v.toUInt32)
  | u32 v => some (.inline .u32 v)
  | float bits => some (.inline .float bits)
  | null => some (.inline .null 0)
  | booleanTrue => some (.inline .boolean 1)
  | booleanFalse => some (.inline .boolean 0)
  | boolean v => some (.inline .boolean (if v ≠ 0 then 1 else 0))
  | emptySlot => some (.inline .emptySlot 0)
  | unicodeUcs4 v => some (.text .unicode (charsOf (v.map UInt32.toNat)))
  | unicodeUcs2 v => some (.text .unicode (charsOf (v.map UInt16.toNat)))
  | unicodeAscii v => some (.text .unicode (charsOf (v.map UInt8.toNat)))
  | stringUcs4 v => some (.text .string (charsOf (v.map UInt32.toNat)))
  | stringUcs2 v => some (.text .string (charsOf (v.map UInt16.toNat)))
  | stringAscii v => some (.text .string (charsOf (v.map UInt8.toNat)))
  | bitvector v nBits => some (.bits (bitsOf v nBits.toNat))
  | bitvectorNoNormalize v nBits => some (.bits (bitsOf v nBits.toNat))
  | bitvectorCompressed v => some (.inline v.type v.data)
  | vectorValue => some (.vector .vectorValue (.init 4))
  | vectorNumber t => some (.vector t.vectorType (.init t.size))
  | vectorOwner t items nItems =>
      some (if nItems = 0 then .inline .vectorEmpty 0 else .owned t.vectorType items nItems)
  | set => some (.set [])
  | map => some (.map [] [])
  | _ => none

/-- The handle whose content a call is to change. -/
def target : Call → Option UInt32
  | vectorValueAppend vector _ => some vector
  | vectorNumberAppend _ vector _ => some vector
  | vectorValueSet vector _ _ => some vector
  | vectorU32Transfer vector _ => some vector
  | vectorValueTransfer vector _ => some vector
  | setAdd s _ => some s
  | mapAdd m _ _ => some m
  | _ => none

/-- How a call changes the content of its target. -/
def change : Call → Content → Content
  | vectorValueAppend _ v, .vector type a => .vector type (a.push v.toNat)
  | vectorNumberAppend t _ v, .vector type a => .vector type (a.push (v.toNat % 256 ^ t.size))
  | vectorValueSet _ i v, .vector type a =>
      .vector type { a with items := a.items.set i.toNat v.toNat }
  | vectorU32Transfer _ v, .vector type a =>
      .vector type { a with items := v.map UInt32.toNat }
  | vectorValueTransfer _ v, .vector type a =>
      .vector type { a with items := v.map UInt32.toNat }
  | setAdd _ k, .set keys => .set (keys ++ [k])
  | mapAdd _ k v, .map keys values => .map (keys ++ [k]) (values ++ [v])
  | _, content => content

/-- The handles issued so far with their contents, after a call has answered. A call that
failed has issued nothing and changed nothing. -/
def issue (call : Call) (answer : UInt32) (issued : List (UInt32 × Content)) :
    List (UInt32 × Content) :=
  if answer = createValueFail then issued
  else
    (issued.map fun (handle, content) =>
      (handle, if call.target = some handle then call.change content else content)) ++
    (call.created.map (answer, ·)).toList

end Call

/-! ## What a state denotes -/

/-- A value of a state shows a content. -/
def CreateValue.Shows (c : Create) (v : CreateValue) : Content → Prop
  | .inline type data => v = .plain type data
  | .text type chars =>
      v.type = type ∧ IsText type chars ∧
        c.stringUnicodeValues[v.data.toNat]? = some (textBuffer type chars)
  | .bits bits =>
      ∃ buffer, createBitvectorPtr c v = .ok buffer ∧ ShowsBits v.type v.data buffer bits
  | .vector type array =>
      v.type = type ∧ v.pool = some .priv ∧ c.privVectorValues[v.data.toNat]? = some array
  | .owned type items nItems =>
      v.type = type ∧ v.pool = some .outside ∧
        c.outsideVectorValues[v.data.toNat]? = some ⟨items, nItems⟩
  | .set keys =>
      v.pool = some .set ∧ ∃ set, c.setValues[v.data.toNat]? = some set ∧ set.keys = keys
  | .map keys values =>
      v.pool = some .map ∧ ∃ map, c.mapValues[v.data.toNat]? = some map ∧
        map.keys = keys ∧ map.values = values

/-- What a handle stands for in a state. -/
def Denotes (c : Create) (handle : UInt32) (content : Content) : Prop :=
  ∃ v, c.values[handle.toNat]? = some v ∧ v.isSetMapVector = false ∧ v.Shows c content

/-! ## Growing states -/

/-- The arrays of a state only grow. -/
structure Extends (c c' : Create) : Prop where
  values : c.values <+: c'.values
  privVectors : c.privVectorValues <+: c'.privVectorValues
  outsideVectors : c.outsideVectorValues <+: c'.outsideVectorValues
  sets : c.setValues <+: c'.setValues
  maps : c.mapValues <+: c'.mapValues
  texts : c.stringUnicodeValues <+: c'.stringUnicodeValues
  bitvectors : c.bitvectorValues <+: c'.bitvectorValues

variable {c c' c'' : Create} {v w : CreateValue} {content : Content} {handle : UInt32}

theorem Extends.trans (first : Extends c c') (second : Extends c' c'') : Extends c c'' :=
  ⟨first.values.trans second.values, first.privVectors.trans second.privVectors,
    first.outsideVectors.trans second.outsideVectors, first.sets.trans second.sets,
    first.maps.trans second.maps, first.texts.trans second.texts,
    first.bitvectors.trans second.bitvectors⟩

theorem Extends.refl (c : Create) : Extends c c :=
  ⟨List.prefix_refl _, List.prefix_refl _, List.prefix_refl _, List.prefix_refl _,
    List.prefix_refl _, List.prefix_refl _, List.prefix_refl _⟩

theorem getElem?_grown {α : Type} {l l' : List α} {i : Nat} {x : α} (grown : l <+: l')
    (at_i : l[i]? = some x) : l'[i]? = some x := by
  obtain ⟨rest, rfl⟩ := grown
  rw [List.getElem?_append_left (List.getElem?_eq_some_iff.mp at_i).1, at_i]

theorem createBitvectorPtr_mono (extends_ : Extends c c') {buffer : Ptr}
    (read : createBitvectorPtr c v = .ok buffer) : createBitvectorPtr c' v = .ok buffer := by
  rw [createBitvectorPtr] at read ⊢
  split
  · rename_i heap
    rw [if_pos heap] at read
    obtain ⟨m, item, rfl⟩ := map_eq_ok.mp read
    have grown := getElem?_grown extends_.bitvectors (itemAt_eq_ok.mp item)
    exact map_eq_ok.mpr ⟨m, itemAt_eq_ok.mpr grown, rfl⟩
  · rename_i inline
    rw [if_neg inline] at read
    exact read

theorem Denotes.mono (denotes : Denotes c handle content) (extends_ : Extends c c') :
    Denotes c' handle content := by
  obtain ⟨v, at_h, shown, shows⟩ := denotes
  refine ⟨v, getElem?_grown extends_.values at_h, shown, ?_⟩
  cases content with
  | inline type data => exact shows
  | text type chars =>
      obtain ⟨isType, isText, item⟩ := shows
      exact ⟨isType, isText, getElem?_grown extends_.texts item⟩
  | bits bits =>
      obtain ⟨buffer, read, reads⟩ := shows
      exact ⟨buffer, createBitvectorPtr_mono extends_ read, reads⟩
  | vector type array =>
      obtain ⟨isType, pool, item⟩ := shows
      exact ⟨isType, pool, getElem?_grown extends_.privVectors item⟩
  | owned type items nItems =>
      obtain ⟨isType, pool, item⟩ := shows
      exact ⟨isType, pool, getElem?_grown extends_.outsideVectors item⟩
  | set keys =>
      obtain ⟨pool, set, item, same⟩ := shows
      exact ⟨pool, set, getElem?_grown extends_.sets item, same⟩
  | map keys values =>
      obtain ⟨pool, map, item, same⟩ := shows
      exact ⟨pool, map, getElem?_grown extends_.maps item, same⟩

/-! ## Creating -/

/-- A call has created `content`: it has answered a handle for it, and everything else is
as before. -/
structure Creates (c : Create) (content : Content) (result : UInt32 × Create) : Prop where
  wellFormed : WellFormed result.2
  grown : Extends c result.2
  denotes : result.1 ≠ createValueFail → Denotes result.2 result.1 content

theorem denotes_pushed (room : c.values.length < 2 ^ 32) (values : c'.values = c.values ++ [v])
    (shown : v.isSetMapVector = false) (shows : v.Shows c' content) :
    Denotes c' (UInt32.ofNat c.values.length) content := by
  refine ⟨v, ?_, shown, shows⟩
  rw [values, toNat_handle room]
  exact getElem?_pushed _ _

theorem getElem?_pooled {α : Type} (l : List α) (size : (UInt32.ofNat l.length).toNat = l.length)
    (x : α) : (l ++ [x])[(UInt32.ofNat l.length).toNat]? = some x := by
  rw [size]
  exact getElem?_pushed l x

theorem extends_pushValue (c : Create) (v : CreateValue) : Extends c (pushValue c v).2 :=
  { Extends.refl c with values := List.prefix_append _ _ }

theorem creates_inline (wf : WellFormed c) (room : c.values.length < 2 ^ 32) {type : ValueType}
    {data : UInt32} (inline : (CreateValue.plain type data).pool = none) :
    Creates c (.inline type data) (pushValue c (.plain type data)) :=
  ⟨wf.pushInline room inline, extends_pushValue c _, fun _ => denotes_pushed room rfl rfl rfl⟩

theorem creates_cached (wf : WellFormed c) {handle : UInt32} {type : ValueType} {data : UInt32}
    {set : CreateCache → UInt32 → CreateCache}
    (inline : (CreateValue.plain type data).pool = none)
    (cached : IsCached c handle (.plain type data))
    (room : handle = createValueFail → c.values.length < 2 ^ 32)
    (cache : CacheOk (pushValue c (.plain type data)).2 →
      IsCached (pushValue c (.plain type data)).2 (pushValue c (.plain type data)).1
        (.plain type data) →
      CacheOk { (pushValue c (.plain type data)).2 with
        cache := set c.cache (pushValue c (.plain type data)).1 }) :
    Creates c (.inline type data) (pushCached c handle (.plain type data) set) := by
  have wellFormed := wf.pushCached inline room cache
  rw [pushCached] at wellFormed ⊢
  split
  · rename_i isHandle
    refine ⟨wf, .refl c, fun _ => ⟨_, cached isHandle, rfl, rfl⟩⟩
  · rename_i absent
    rw [if_neg absent] at wellFormed
    refine ⟨wellFormed, ?_, fun _ => denotes_pushed (room (not_not.mp absent)) rfl rfl rfl⟩
    exact { extends_pushValue c (.plain type data) with values := List.prefix_append _ _ }

/-- A text that is there already is found under its buffer, by its kind and characters. -/
theorem creates_text (wf : WellFormed c) {type : ValueType} {chars : List Nat}
    (isText : IsText type chars)
    (room : c.stringUnicodeMapJudy.lookup (textBuffer type chars) = none →
      c.values.length < 2 ^ 32) :
    Creates c (.text type chars) (createStringUnicode c type (textBuffer type chars)) := by
  cases looked : c.stringUnicodeMapJudy.lookup (textBuffer type chars) with
  | some handle =>
      rw [createStringUnicode, looked]
      refine ⟨wf, .refl c, fun _ => ?_⟩
      obtain ⟨v, at_h, shown, pool, item⟩ := wf.texts.found _ handle looked
      obtain ⟨chars', isText', item', -⟩ := wf.texts.kept _ v at_h pool
      obtain ⟨isType, -⟩ := textBuffer_inj isText' isText (Option.some.inj (item'.symm.trans item))
      exact ⟨v, at_h, shown, isType, isText, item⟩
  | none =>
      have wellFormed := wf.pushText (room looked) isText looked
      have data : c.stringUnicodeMapJudyCount.toNat = c.stringUnicodeValues.length := by
        rw [wf.texts.count]
        exact toNat_poolSize wf.pools (room looked) .text
      rw [createStringUnicode, looked] at wellFormed ⊢
      refine ⟨wellFormed, { extends_pushValue c _ with texts := List.prefix_append _ _ },
        fun _ => denotes_pushed (room looked) rfl rfl ⟨rfl, isText, ?_⟩⟩
      change (c.stringUnicodeValues ++ [_])[c.stringUnicodeMapJudyCount.toNat]? = _
      rw [data]
      exact getElem?_pushed _ _

/-- The buffer of a bitvector on the heap. -/
theorem creates_bits (wf : WellFormed c) {buffer : List UInt8} {bits : List Bool}
    (normalize : Bool) (shows : ∀ data, ShowsBits .bitvector data (some buffer) bits)
    (room : (normalize = true → c.bitvectorMapJudy.lookup buffer = none) →
      c.values.length < 2 ^ 32) :
    Creates c (.bits bits) (createBitvectorHeap c buffer normalize) := by
  have reads {c : Create} {v : CreateValue} (type : v.type = .bitvector)
      (item : c.bitvectorValues[v.data.toNat]? = some buffer) : v.Shows c (.bits bits) := by
    refine ⟨some buffer, ?_, by rw [type]; exact shows v.data⟩
    rw [createBitvectorPtr, if_pos type]
    exact map_eq_ok.mpr ⟨buffer, itemAt_eq_ok.mpr item, rfl⟩
  cases looked : (if normalize then c.bitvectorMapJudy.lookup buffer else none) with
  | some handle =>
      rw [createBitvectorHeap, looked]
      refine ⟨wf, .refl c, fun _ => ?_⟩
      have hit : c.bitvectorMapJudy.lookup buffer = some handle := by
        split at looked
        · exact looked
        · cases looked
      obtain ⟨v, at_h, shown, type, item⟩ := wf.bitvectors.found _ handle hit
      exact ⟨v, at_h, shown, reads type item⟩
  | none =>
      have absent : normalize = true → c.bitvectorMapJudy.lookup buffer = none := by
        rintro rfl
        exact looked
      have wellFormed := wf.pushBitvector (room absent) buffer normalize absent
      have data : c.bitvectorMapJudyCount.toNat = c.bitvectorValues.length := by
        rw [wf.bitvectors.count]
        exact toNat_poolSize wf.pools (room absent) .bits
      rw [createBitvectorHeap, looked] at wellFormed ⊢
      refine ⟨wellFormed, { extends_pushValue c _ with bitvectors := List.prefix_append _ _ },
        fun _ => denotes_pushed (room absent) rfl rfl (reads rfl ?_)⟩
      change (c.bitvectorValues ++ [_])[c.bitvectorMapJudyCount.toNat]? = _
      rw [data]
      exact getElem?_pushed _ _

theorem creates_vector (wf : WellFormed c) (room : c.values.length < 2 ^ 32) {type : ValueType}
    (isVector : type = .vectorValue ∨ ∃ t : NumberType, type = t.vectorType) (itemSize : Nat) :
    Creates c (.vector type (.init itemSize)) (createVectorPriv c type itemSize) := by
  refine ⟨wf.pushVectorPriv room isVector itemSize, ?_, fun _ => ?_⟩
  · exact { extends_pushValue c _ with privVectors := List.prefix_append _ _ }
  · have item := getElem?_pooled c.privVectorValues (toNat_poolSize wf.pools room .priv)
    exact denotes_pushed room rfl rfl ⟨rfl, pool_priv isVector, item _⟩

theorem creates_owned (wf : WellFormed c) (room : c.values.length < 2 ^ 32) (t : NumberType)
    (items : List UInt8) (nItems : UInt32) :
    Creates c (if nItems = 0 then .inline .vectorEmpty 0 else .owned t.vectorType items nItems)
      (createVectorOwnerPriv c t.vectorType items nItems) := by
  have wellFormed := wf.pushVectorOwner room t items nItems
  rw [createVectorOwnerPriv] at wellFormed ⊢
  split
  · exact creates_inline wf room rfl
  · rename_i someItems
    rw [if_neg someItems] at wellFormed
    have item := getElem?_pooled c.outsideVectorValues (toNat_poolSize wf.pools room .outside)
    refine ⟨wellFormed, ?_, fun _ => denotes_pushed room rfl rfl ⟨rfl, ?_, item _⟩⟩
    · exact { extends_pushValue c _ with outsideVectors := List.prefix_append _ _ }
    · cases t
      all_goals rfl

/-- The vectors of a set or map have been made and marked. -/
theorem finishTable_granted {vectors : List UInt32} (leaks : Leaks c c')
    (new : ∀ handle ∈ vectors, c.values.length ≤ handle.toNat)
    (inside : ∀ handle ∈ vectors, handle.toNat < c'.values.length)
    (some_ : ∀ handle ∈ vectors, handle ≠ createValueFail) :
    ∃ c'', Leaks c c'' ∧ c''.values.length = c'.values.length ∧
      ∀ pooled, finishTable vectors c' pooled = .ok (pooled c'') := by
  have marks : ∃ c'', vectors.foldlM markSetMapVector c' = .ok c'' ∧
      c''.values.length = c'.values.length := by
    clear new some_ leaks
    induction vectors generalizing c' with
    | nil => exact ⟨c', rfl, rfl⟩
    | cons handle rest ih =>
        have less := inside handle List.mem_cons_self
        have marked : ∃ c1, markSetMapVector c' handle = .ok c1 ∧
            c1.values.length = c'.values.length := by
          rw [markSetMapVector, modifyAt, if_pos less]
          exact ⟨_, rfl, List.length_modify _ _ _⟩
        obtain ⟨c1, mark, size⟩ := marked
        have insideRest : ∀ h ∈ rest, h.toNat < c1.values.length := by
          intro h mem
          rw [size]
          exact inside h (List.mem_cons_of_mem handle mem)
        obtain ⟨c'', all, total⟩ := ih insideRest
        refine ⟨c'', ?_, total.trans size⟩
        rw [List.foldlM_cons, mark]
        exact all
  obtain ⟨c'', marked, size⟩ := marks
  refine ⟨c'', Memory.marks_leak leaks new marked, size, fun pooled => ?_⟩
  have granted : vectors.any (· == createValueFail) = false := by
    rw [List.any_eq_false]
    intro handle mem same
    exact some_ handle mem (eq_of_beq same)
  rw [finishTable, granted, marked]
  rfl

theorem Leaks.extends (leaks : Leaks c c') : Extends c c' := by
  obtain ⟨values, privVectors, -, vs, ps, rfl⟩ := leaks.keeps
  exact { Extends.refl c with values := values, privVectors := privVectors }

theorem handle_ne_fail {n : Nat} (room : n + 1 < 2 ^ 32) : UInt32.ofNat n ≠ createValueFail := by
  intro same
  have value := congrArg UInt32.toNat same
  rw [toNat_handle (by omega)] at value
  change n = 4294967295 at value
  omega

/-- A row of handles that have just been pushed. -/
def NewHandles (c : Create) (n : Nat) (vectors : List UInt32) : Prop :=
  ∀ handle ∈ vectors, ∃ k < n, handle = UInt32.ofNat (c.values.length + k)

/-- The vectors of a set or map are granted, and its value can be pushed. -/
theorem finishTable_new (wf : WellFormed c) {vectors : List UInt32} {n : Nat}
    (leaks : Leaks c c') (size : c'.values.length = c.values.length + n)
    (room : c.values.length + n < 2 ^ 32) (new : NewHandles c n vectors) :
    ∃ c'', Leaks c c'' ∧ WellFormed c'' ∧ c''.values.length < 2 ^ 32 ∧
      ∀ pooled, finishTable vectors c' pooled = .ok (pooled c'') := by
  have toNat {handle : UInt32} (mem : handle ∈ vectors) :
      ∃ k < n, handle.toNat = c.values.length + k ∧ handle ≠ createValueFail := by
    obtain ⟨k, less, rfl⟩ := new handle mem
    exact ⟨k, less, toNat_handle (by omega), handle_ne_fail (by omega)⟩
  obtain ⟨c'', leaks', size', done⟩ := finishTable_granted leaks
    (fun handle mem => by obtain ⟨k, _, eq, _⟩ := toNat mem; omega)
    (fun handle mem => by obtain ⟨k, _, eq, _⟩ := toNat mem; omega)
    (fun handle mem => by obtain ⟨k, _, _, isHandle⟩ := toNat mem; exact isHandle)
  exact ⟨c'', leaks', wf.leak leaks', by omega, done⟩

theorem creates_set (wf : WellFormed c) (room : c.values.length + 3 ≤ 2 ^ 32) :
    ∃ result, createSet c = .ok result ∧ Creates c (.set []) result := by
  have new : NewHandles c 2 [(createVectorPriv c .vectorU32 4).1,
      (createVectorPriv (createVectorPriv c .vectorU32 4).2 .vectorValue 4).1] := by
    intro handle mem
    rcases List.mem_pair.mp mem with rfl | rfl
    · exact ⟨0, by omega, rfl⟩
    · exact ⟨1, by omega, by rw [createVectorPriv_fst, createVectorPriv_length]⟩
  have made : Leaks c (createVectorPriv (createVectorPriv c .vectorU32 4).2 .vectorValue 4).2 :=
    .vector (.vector .nothing (Or.inl rfl) (by omega)) (Or.inr rfl)
      (by rw [createVectorPriv_length]; omega)
  obtain ⟨c'', leaks, wf'', room'', done⟩ := finishTable_new wf made
    (by rw [createVectorPriv_length, createVectorPriv_length]) (by omega) new
  rw [Memory.granted_createSet_eq]
  refine ⟨_, done _, ?_⟩
  have sets : c''.setValues = c.setValues := by
    obtain ⟨-, -, -, vs, ps, rfl⟩ := leaks.keeps
    rfl
  rw [← sets]
  refine ⟨wf''.pushSet room'' _ _, leaks.extends.trans ?_, fun _ => ?_⟩
  · exact { extends_pushValue c'' _ with sets := List.prefix_append _ _ }
  · have item := getElem?_pooled c''.setValues (toNat_poolSize wf''.pools room'' .set)
    exact denotes_pushed room'' rfl rfl ⟨rfl, _, item _, rfl⟩

theorem creates_map (wf : WellFormed c) (room : c.values.length + 4 ≤ 2 ^ 32) :
    ∃ result, createMap c = .ok result ∧ Creates c (.map [] []) result := by
  have new : NewHandles c 3 [(createVectorPriv c .vectorU32 4).1,
      (createVectorPriv (createVectorPriv c .vectorU32 4).2 .vectorValue 4).1,
      (createVectorPriv (createVectorPriv (createVectorPriv c .vectorU32 4).2
        .vectorValue 4).2 .vectorValue 4).1] := by
    intro handle mem
    simp only [List.mem_cons, List.not_mem_nil, or_false] at mem
    rcases mem with rfl | rfl | rfl
    · exact ⟨0, by omega, rfl⟩
    · exact ⟨1, by omega, by rw [createVectorPriv_fst, createVectorPriv_length]⟩
    · refine ⟨2, by omega, ?_⟩
      rw [createVectorPriv_fst, createVectorPriv_length, createVectorPriv_length]
  have made : Leaks c (createVectorPriv (createVectorPriv (createVectorPriv c .vectorU32 4).2
      .vectorValue 4).2 .vectorValue 4).2 :=
    .vector (.vector (.vector .nothing (Or.inl rfl) (by omega)) (Or.inr rfl)
      (by rw [createVectorPriv_length]; omega)) (Or.inr rfl)
      (by rw [createVectorPriv_length, createVectorPriv_length]; omega)
  obtain ⟨c'', leaks, wf'', room'', done⟩ := finishTable_new wf made
    (by rw [createVectorPriv_length, createVectorPriv_length, createVectorPriv_length])
    (by omega) new
  rw [Memory.granted_createMap_eq]
  refine ⟨_, done _, ?_⟩
  have maps : c''.mapValues = c.mapValues := by
    obtain ⟨-, -, -, vs, ps, rfl⟩ := leaks.keeps
    rfl
  rw [← maps]
  refine ⟨wf''.pushMap room'' _ _ _, leaks.extends.trans ?_, fun _ => ?_⟩
  · exact { extends_pushValue c'' _ with maps := List.prefix_append _ _ }
  · have item := getElem?_pooled c''.mapValues (toNat_poolSize wf''.pools room'' .map)
    exact denotes_pushed room'' rfl rfl ⟨rfl, _, item _, rfl, rfl⟩

/-! ## Strings -/

section Chars

variable {α β : Type} [DecidableEq α] [Zero α] [DecidableEq β] [Zero β]

theorem charsBeforeZero_eq {v : List α} (terminated : 0 ∈ v) :
    charsBeforeZero v = .ok (v.takeWhile (· ≠ 0)) := by
  induction v with
  | nil => cases terminated
  | cons x rest ih =>
      rw [charsBeforeZero]
      by_cases zero : x = 0
      · rw [if_pos zero, List.takeWhile_cons, zero]
        simp
      · have later : 0 ∈ rest := by
          rcases List.mem_cons.mp terminated with same | later
          · exact absurd same.symm zero
          · exact later
        rw [if_neg zero, ih later, List.takeWhile_cons]
        simp [zero]

theorem mem_chars_ne_zero {v : List α} {x : α} (mem : x ∈ v.takeWhile (· ≠ 0)) : x ≠ 0 := by
  simpa using List.all_eq_true.mp List.all_takeWhile x mem

/-- A string that is converted to another width and terminated again. -/
theorem charsBeforeZero_converted {v : List α} {f : α → β}
    (nonzero : ∀ x ∈ v.takeWhile (· ≠ 0), f x ≠ 0) :
    charsBeforeZero ((v.takeWhile (· ≠ 0)).map f ++ [0])
      = .ok ((v.takeWhile (· ≠ 0)).map f) := by
  rw [charsBeforeZero_eq (List.mem_append_right _ List.mem_cons_self)]
  refine congrArg Except.ok ?_
  have all : ∀ y ∈ (v.takeWhile (· ≠ 0)).map f, decide (y ≠ 0) = true := by
    intro y mem
    obtain ⟨x, before, rfl⟩ := List.mem_map.mp mem
    exact decide_eq_true (nonzero x before)
  rw [List.takeWhile_append_of_pos all]
  simp

theorem charsOf_map {v : List α} {f : α → Nat} (zero : ∀ x, f x ≠ 0 ↔ x ≠ 0) :
    charsOf (v.map f) = (v.takeWhile (· ≠ 0)).map f := by
  rw [charsOf, List.takeWhile_map]
  refine congrArg (List.map f) (congrArg (fun p => v.takeWhile p) ?_)
  funext x
  exact decide_eq_decide.mpr (zero x)

end Chars

theorem u32_toNat_ne_zero (x : UInt32) : x.toNat ≠ 0 ↔ x ≠ 0 := by
  rw [ne_eq, ne_eq, ← UInt32.toNat_inj]
  rfl

theorem u16_toNat_ne_zero (x : UInt16) : x.toNat ≠ 0 ↔ x ≠ 0 := by
  rw [ne_eq, ne_eq, ← UInt16.toNat_inj]
  rfl

theorem u8_toNat_ne_zero (x : UInt8) : x.toNat ≠ 0 ↔ x ≠ 0 := by
  rw [ne_eq, ne_eq, ← UInt8.toNat_inj]
  rfl

/-- `pointless_create_unicode_ucs4` interns the characters before the terminator. -/
theorem createUnicodeUcs4_eq {v : List UInt32} {chars : List Nat} {before : List UInt32}
    (read : charsBeforeZero v = .ok before) (same : before.map UInt32.toNat = chars) :
    createUnicodeUcs4 c v = .ok (createStringUnicode c .unicode (textBuffer .unicode chars)) := by
  rw [createUnicodeUcs4, read, ← same]
  rfl

theorem createStringAscii_eq {v : List UInt8} {chars : List Nat} {before : List UInt8}
    (read : charsBeforeZero v = .ok before) (same : before.map UInt8.toNat = chars) :
    createStringAscii c v = .ok (createStringUnicode c .string (textBuffer .string chars)) := by
  rw [createStringAscii, read, ← same]
  rfl

/-- Strings whose characters have to fit into a byte do. -/
def Call.Narrow : Call → Prop
  | .stringUcs4 v => ∀ x ∈ charsOf (v.map UInt32.toNat), x < 256
  | .stringUcs2 v => ∀ x ∈ charsOf (v.map UInt16.toNat), x < 256
  | _ => True

/-- Characters that fit into the width of a type make a text of it. -/
theorem isText_map {α : Type} {type : ValueType} (isType : type = .string ∨ type = .unicode)
    {before : List α} {f : α → Nat}
    (chars : ∀ x ∈ before, f x ≠ 0 ∧ f x < 256 ^ charWidth type) :
    IsText type (before.map f) := by
  refine ⟨isType, fun x mem => ?_⟩
  obtain ⟨y, inside, rfl⟩ := List.mem_map.mp mem
  exact chars y inside

/-- The calls that create texts intern what they are asked for. -/
theorem run_text {call : Call} {type : ValueType} {chars : List Nat} (valid : call.Valid c)
    (narrow : call.Narrow) (text : call.created = some (.text type chars)) :
    IsText type chars ∧
      call.run c = .ok (createStringUnicode c type (textBuffer type chars)) := by
  cases call
  case unicodeUcs4 v =>
    cases text
    rw [charsOf_map u32_toNat_ne_zero]
    refine ⟨isText_map (Or.inr rfl) fun x mem => ⟨?_, x.toNat_lt⟩,
      createUnicodeUcs4_eq (charsBeforeZero_eq valid) rfl⟩
    exact (u32_toNat_ne_zero x).mpr (mem_chars_ne_zero mem)
  case stringAscii v =>
    cases text
    rw [charsOf_map u8_toNat_ne_zero]
    refine ⟨isText_map (Or.inl rfl) fun x mem => ⟨?_, x.toNat_lt⟩,
      createStringAscii_eq (charsBeforeZero_eq valid) rfl⟩
    exact (u8_toNat_ne_zero x).mpr (mem_chars_ne_zero mem)
  case unicodeUcs2 v =>
    cases text
    rw [charsOf_map u16_toNat_ne_zero]
    have nonzero : ∀ x ∈ v.takeWhile (· ≠ 0), x.toNat ≠ 0 := fun x mem =>
      (u16_toNat_ne_zero x).mpr (mem_chars_ne_zero mem)
    refine ⟨isText_map (Or.inr rfl) fun x mem => ⟨nonzero x mem, ?_⟩, ?_⟩
    · exact Nat.lt_trans x.toNat_lt (by decide)
    · rw [Call.run, createUnicodeUcs2, ucs2ToUcs4, charsBeforeZero_eq valid]
      refine createUnicodeUcs4_eq (charsBeforeZero_converted fun x mem => ?_) List.map_map
      exact (u32_toNat_ne_zero _).mp (nonzero x mem)
  case unicodeAscii v =>
    cases text
    rw [charsOf_map u8_toNat_ne_zero]
    have nonzero : ∀ x ∈ v.takeWhile (· ≠ 0), x.toNat ≠ 0 := fun x mem =>
      (u8_toNat_ne_zero x).mpr (mem_chars_ne_zero mem)
    refine ⟨isText_map (Or.inr rfl) fun x mem => ⟨nonzero x mem, ?_⟩, ?_⟩
    · exact Nat.lt_trans x.toNat_lt (by decide)
    · rw [Call.run, createUnicodeAscii, asciiToUcs4, charsBeforeZero_eq valid]
      refine createUnicodeUcs4_eq (charsBeforeZero_converted fun x mem => ?_) List.map_map
      exact (u32_toNat_ne_zero _).mp (nonzero x mem)
  case stringUcs4 v =>
    cases text
    rw [Call.Narrow, charsOf_map u32_toNat_ne_zero] at narrow
    rw [charsOf_map u32_toNat_ne_zero]
    have small : ∀ x ∈ v.takeWhile (· ≠ 0), x.toUInt8.toNat = x.toNat := fun x mem => by
      rw [UInt32.toNat_toUInt8]
      exact Nat.mod_eq_of_lt (narrow _ (List.mem_map_of_mem mem))
    have nonzero : ∀ x ∈ v.takeWhile (· ≠ 0), x.toNat ≠ 0 := fun x mem =>
      (u32_toNat_ne_zero x).mpr (mem_chars_ne_zero mem)
    refine ⟨isText_map (Or.inl rfl) fun x mem => ⟨nonzero x mem, ?_⟩, ?_⟩
    · exact narrow _ (List.mem_map_of_mem mem)
    · rw [Call.run, createStringUcs4, ucs4ToAscii, charsBeforeZero_eq valid]
      refine createStringAscii_eq (charsBeforeZero_converted fun x mem => ?_) ?_
      · exact (u8_toNat_ne_zero _).mp (by rw [small x mem]; exact nonzero x mem)
      · rw [List.map_map]
        exact List.map_congr_left small
  case stringUcs2 v =>
    cases text
    rw [Call.Narrow, charsOf_map u16_toNat_ne_zero] at narrow
    rw [charsOf_map u16_toNat_ne_zero]
    have small : ∀ x ∈ v.takeWhile (· ≠ 0), x.toUInt8.toNat = x.toNat := fun x mem => by
      rw [UInt16.toNat_toUInt8]
      exact Nat.mod_eq_of_lt (narrow _ (List.mem_map_of_mem mem))
    have nonzero : ∀ x ∈ v.takeWhile (· ≠ 0), x.toNat ≠ 0 := fun x mem =>
      (u16_toNat_ne_zero x).mpr (mem_chars_ne_zero mem)
    refine ⟨isText_map (Or.inl rfl) fun x mem => ⟨nonzero x mem, ?_⟩, ?_⟩
    · exact narrow _ (List.mem_map_of_mem mem)
    · rw [Call.run, createStringUcs2, ucs2ToAscii, charsBeforeZero_eq valid]
      refine createStringAscii_eq (charsBeforeZero_converted fun x mem => ?_) ?_
      · exact (u8_toNat_ne_zero _).mp (by rw [small x mem]; exact nonzero x mem)
      · rw [List.map_map]
        exact List.map_congr_left small
  case vectorOwner t items nItems =>
    change some (if nItems = 0 then Content.inline .vectorEmpty 0
      else .owned t.vectorType items nItems) = some (.text type chars) at text
    split at text
    · cases text
    · cases text
  all_goals cases text

/-! ## Changing -/

/-- A call has changed the content of `target`, and nothing else. -/
structure Changes (c : Create) (target : UInt32) (change : Content → Content) (c' : Create) :
    Prop where
  wellFormed : WellFormed c'
  denotes : ∀ handle content, Denotes c handle content →
    Denotes c' handle (if target = handle then change content else content)

/-- Change a private vector. -/
def Content.mapVector (f : Dynarray → Dynarray) : Content → Content
  | .vector type array => .vector type (f array)
  | content => content

/-- Change the keys of a set. -/
def Content.mapSet (f : List UInt32 → List UInt32) : Content → Content
  | .set keys => .set (f keys)
  | content => content

/-- Change the keys and values of a map. -/
def Content.mapMap (f g : List UInt32 → List UInt32) : Content → Content
  | .map keys values => .map (f keys) (g values)
  | content => content

/-- The items of a pool after one has been changed: that of the target is, and those of
other values are not. -/
theorem getElem?_changed {α : Type} {items : List α} {f : α → α} {x : α} {p : Pool}
    (wf : WellFormed c) {target : UInt32} (at_t : c.values[target.toNat]? = some v)
    (at_h : c.values[handle.toNat]? = some w) (poolV : v.pool = some p) (poolW : w.pool = some p)
    (item : items[w.data.toNat]? = some x) :
    (items.modify v.data.toNat f)[w.data.toNat]? = some (if target = handle then f x else x) := by
  by_cases same : target = handle
  · subst same
    cases Option.some.inj (at_t.symm.trans at_h)
    rw [if_pos rfl, List.getElem?_modify_eq, item]
    rfl
  · have apart : v.data.toNat ≠ w.data.toNat := by
      intro eq
      have index := wf.pools.apart at_t at_h poolV poolW (UInt32.toNat_inj.mp eq)
      exact same (UInt32.toNat_inj.mp index)
    rw [if_neg same, List.getElem?_modify_ne _ _ apart]
    exact item

/-- A content that is not of the kind that changes. -/
theorem shows_unchanged {target : UInt32} {change : Content → Content}
    (unchanged : change content = content) (shows : w.Shows c content) :
    w.Shows c (if target = handle then change content else content) := by
  rw [unchanged, ite_self]
  exact shows

theorem changes_vector (wf : WellFormed c) {target : UInt32} (f : Dynarray → Dynarray)
    (at_t : c.values[target.toNat]? = some v) (pool : v.pool = some .priv) :
    Changes c target (Content.mapVector f)
      { c with privVectorValues := c.privVectorValues.modify v.data.toNat f } := by
  constructor
  · refine wf.update rfl ⟨⟨rfl, rfl, rfl⟩, ⟨rfl, rfl, rfl⟩, rfl⟩ (fun p => ?_) wf.maps
    cases p
    case priv => exact List.length_modify _ _ _
    all_goals rfl
  · rintro handle content ⟨w, at_h, shown, shows⟩
    refine ⟨w, at_h, shown, ?_⟩
    cases content with
    | vector type array =>
        obtain ⟨isType, poolW, item⟩ := shows
        have changed := getElem?_changed (f := f) wf at_t at_h pool poolW item
        split
        · rename_i same
          rw [if_pos same] at changed
          exact ⟨isType, poolW, changed⟩
        · rename_i apart
          rw [if_neg apart] at changed
          exact ⟨isType, poolW, changed⟩
    | inline | text | bits | owned | set | map => exact shows_unchanged rfl shows

theorem changes_set (wf : WellFormed c) {target : UInt32} (f : List UInt32 → List UInt32)
    (at_t : c.values[target.toNat]? = some v) (pool : v.pool = some .set) :
    Changes c target (Content.mapSet f)
      { c with setValues := c.setValues.modify v.data.toNat fun set =>
          { set with keys := f set.keys } } := by
  constructor
  · refine wf.update rfl ⟨⟨rfl, rfl, rfl⟩, ⟨rfl, rfl, rfl⟩, rfl⟩ (fun p => ?_) wf.maps
    cases p
    case set => exact List.length_modify _ _ _
    all_goals rfl
  · rintro handle content ⟨w, at_h, shown, shows⟩
    refine ⟨w, at_h, shown, ?_⟩
    cases content with
    | set keys =>
        obtain ⟨poolW, set, item, rfl⟩ := shows
        have changed := getElem?_changed (f := fun set => { set with keys := f set.keys }) wf at_t
          at_h pool poolW item
        split
        · rename_i same
          rw [if_pos same] at changed
          exact ⟨poolW, _, changed, rfl⟩
        · rename_i apart
          rw [if_neg apart] at changed
          exact ⟨poolW, _, changed, rfl⟩
    | inline | text | bits | owned | vector | map => exact shows_unchanged rfl shows

/-- The keys and values of a map are changed together. -/
theorem changes_map (wf : WellFormed c) {target : UInt32} (f g : List UInt32 → List UInt32)
    (parallel : ∀ keys values : List UInt32, keys.length = values.length →
      (f keys).length = (g values).length)
    (at_t : c.values[target.toNat]? = some v) (pool : v.pool = some .map) :
    Changes c target (Content.mapMap f g)
      { c with mapValues := c.mapValues.modify v.data.toNat fun map =>
          { map with keys := f map.keys, values := g map.values } } := by
  constructor
  · refine wf.update rfl ⟨⟨rfl, rfl, rfl⟩, ⟨rfl, rfl, rfl⟩, rfl⟩ (fun p => ?_) fun map mem => ?_
    · cases p
      case map => exact List.length_modify _ _ _
      all_goals rfl
    · obtain ⟨i, at_i⟩ := List.mem_iff_getElem?.mp mem
      rw [List.getElem?_modify] at at_i
      obtain ⟨old, item, change⟩ := Option.map_eq_some_iff.mp at_i
      have same := wf.maps old (List.mem_of_getElem? item)
      rw [← change]
      split
      · exact parallel _ _ same
      · exact same
  · rintro handle content ⟨w, at_h, shown, shows⟩
    refine ⟨w, at_h, shown, ?_⟩
    cases content with
    | map keys values =>
        obtain ⟨poolW, map, item, rfl, rfl⟩ := shows
        have changed := getElem?_changed
          (f := fun map => { map with keys := f map.keys, values := g map.values }) wf at_t
          at_h pool poolW item
        split
        · rename_i same
          rw [if_pos same] at changed
          exact ⟨poolW, _, changed, rfl, rfl⟩
        · rename_i apart
          rw [if_neg apart] at changed
          exact ⟨poolW, _, changed, rfl, rfl⟩
    | inline | text | bits | owned | vector | set => exact shows_unchanged rfl shows

end Pointless
