import Pointless.CreateShape

/-!
# One more value

What a call does to a state that calls have led to. A call that creates a value answers a
handle for it and keeps every value that there is (`CreateReachable.create`), or it fails, and
then the handles are used up. A call that adds to a vector, a set or a map changes that one
only (`CreateReachable.append` and its siblings).
-/

namespace Pointless

open ExceptRules

variable {c c' : Create} {content : Content} {handle : UInt32}

/-! ## Handles -/

/-- The contents that no call changes. -/
def Content.Fixed : Content → Prop
  | .vector _ _ | .set _ | .map _ _ => False
  | _ => True

/-- The contents that a call may answer an older handle for. -/
def Content.Shared : Content → Prop
  | .inline type _ => type ≠ .vectorEmpty
  | .text _ _ | .bits _ => True
  | _ => False

theorem Content.fixed_of_shared (shared : content.Shared) : content.Fixed := by
  cases content with
  | inline | text | bits => trivial
  | owned | vector | set | map => cases shared

theorem Denotes.isHandle (denotes : Denotes c handle content) : IsHandle c handle := by
  obtain ⟨v, at_h, shown, -⟩ := denotes
  exact ⟨v, at_h, shown⟩

theorem Denotes.inside (denotes : Denotes c handle content) : handle.toNat < c.values.length :=
  Nat.not_le.mp (not_outside denotes.isHandle)

theorem Denotes.ne_fail (denotes : Denotes c handle content) (room : c.values.length < 2 ^ 32) :
    handle ≠ createValueFail := by
  rintro rfl
  have inside := denotes.inside
  have last : createValueFail.toNat = 2 ^ 32 - 1 := rfl
  rw [last] at inside
  omega

/-! ## Failures -/

/-- The answer is a handle, or the position of a value that was pushed. -/
def AnswersHandle (c : Create) (result : UInt32 × Create) : Prop :=
  result.1 ≠ createValueFail ∨
    result.1 = UInt32.ofNat c.values.length ∧ result.2.values.length = c.values.length + 1

theorem AnswersHandle.full {result : UInt32 × Create} (answers : AnswersHandle c result)
    (room : c.values.length < 2 ^ 32) (failed : result.1 = createValueFail) :
    2 ^ 32 ≤ result.2.values.length := by
  rcases answers with isHandle | ⟨pushed, length⟩
  · exact absurd failed isHandle
  · have last : createValueFail.toNat = 2 ^ 32 - 1 := rfl
    have position := congrArg UInt32.toNat (pushed.symm.trans failed)
    rw [toNat_handle room, last] at position
    omega

theorem answers_pushed {result : UInt32 × Create} {v : CreateValue}
    (position : result.1 = UInt32.ofNat c.values.length)
    (values : result.2.values = c.values ++ [v]) : AnswersHandle c result :=
  .inr ⟨position, by rw [values, List.length_append, List.length_singleton]⟩

theorem answers_pushCached (v : CreateValue) (set : CreateCache → UInt32 → CreateCache) :
    AnswersHandle c (pushCached c handle v set) := by
  rw [pushCached]
  split
  case isTrue isHandle => exact .inl isHandle
  case isFalse => exact answers_pushed rfl rfl

/-- A handle that is looked up names a value. -/
theorem ne_fail_of_inside (room : c.values.length < 2 ^ 32) {v : CreateValue}
    (at_h : c.values[handle.toNat]? = some v) : handle ≠ createValueFail := by
  rintro rfl
  have inside := (List.getElem?_eq_some_iff.mp at_h).1
  have last : createValueFail.toNat = 2 ^ 32 - 1 := rfl
  rw [last] at inside
  omega

theorem answers_text (wf : WellFormed c) (room : c.values.length < 2 ^ 32) (type : ValueType)
    (buffer : List UInt8) : AnswersHandle c (createStringUnicode c type buffer) := by
  rw [createStringUnicode]
  cases looked : c.stringUnicodeMapJudy.lookup buffer with
  | some handle =>
      obtain ⟨v, at_h, -⟩ := wf.texts.found _ handle looked
      exact .inl (ne_fail_of_inside room at_h)
  | none => exact answers_pushed rfl rfl

theorem answers_bits (wf : WellFormed c) (room : c.values.length < 2 ^ 32)
    (buffer : List UInt8) (normalize : Bool) :
    AnswersHandle c (createBitvectorHeap c buffer normalize) := by
  rw [createBitvectorHeap]
  cases looked : (if normalize then c.bitvectorMapJudy.lookup buffer else none) with
  | some handle =>
      have hit : c.bitvectorMapJudy.lookup buffer = some handle := by
        split at looked
        · exact looked
        · cases looked
      obtain ⟨v, at_h, -⟩ := wf.bitvectors.found _ handle hit
      exact .inl (ne_fail_of_inside room at_h)
  | none => exact answers_pushed rfl rfl

theorem answers_createBitvector (wf : WellFormed c) (room : c.values.length < 2 ^ 32)
    {v : List UInt8} {nBits : UInt32} (long : iceil nBits.toNat 8 ≤ v.length) (normalize : Bool) :
    ∃ result, createBitvector_ c v nBits normalize = .ok result ∧ AnswersHandle c result := by
  have post := compressBitvector_post long
  rw [createBitvector_]
  cases compressed : compressBitvector v nBits with
  | error e =>
      rw [compressed] at post
      exact post.elim
  | ok result =>
      cases result with
      | some packed => exact ⟨_, rfl, answers_pushed rfl rfl⟩
      | none =>
          have slice : ByteMemory.slice v 0 (iceil nBits.toNat 8)
              = some (v.take (iceil nBits.toNat 8)) := by
            rw [ByteMemory.slice_eq_some (by omega), List.drop_zero]
          simp only [ok_bind, slice, pure_eq_ok]
          exact ⟨_, rfl, answers_bits wf room _ normalize⟩

/-- A set or map whose vectors have not all come about. -/
theorem finishTable_full {c' : Create} {vectors : List UInt32}
    {pooled : Create → UInt32 × Create} (failed : createValueFail ∈ vectors) :
    finishTable vectors c' pooled = .ok (createValueFail, c') := by
  have any : vectors.any (· == createValueFail) = true :=
    List.any_eq_true.mpr ⟨_, failed, beq_self_eq_true _⟩
  rw [finishTable, any]
  rfl

theorem createSet_full (room : c.values.length < 2 ^ 32) (full : 2 ^ 32 < c.values.length + 3) :
    ∃ c', createSet c = .ok (createValueFail, c') ∧ 2 ^ 32 ≤ c'.values.length := by
  rw [Memory.granted_createSet_eq]
  simp only [createVectorPriv_fst, createVectorPriv_length]
  refine ⟨_, finishTable_full ?_, ?_⟩
  · rcases Nat.lt_or_ge (c.values.length + 1) (2 ^ 32) with two | one
    · have last : c.values.length + 1 = 2 ^ 32 - 1 := by omega
      rw [last]
      exact List.mem_cons_of_mem _ List.mem_cons_self
    · have last : c.values.length = 2 ^ 32 - 1 := by omega
      rw [last]
      exact List.mem_cons_self
  · rw [createVectorPriv_length, createVectorPriv_length]
    omega

theorem createMap_full (room : c.values.length < 2 ^ 32) (full : 2 ^ 32 < c.values.length + 4) :
    ∃ c', createMap c = .ok (createValueFail, c') ∧ 2 ^ 32 ≤ c'.values.length := by
  rw [Memory.granted_createMap_eq]
  simp only [createVectorPriv_fst, createVectorPriv_length]
  refine ⟨_, finishTable_full ?_, ?_⟩
  · rcases Nat.lt_or_ge (c.values.length + 2) (2 ^ 32) with three | fewer
    · have last : c.values.length + 1 + 1 = 2 ^ 32 - 1 := by omega
      rw [last]
      exact List.mem_cons_of_mem _ (List.mem_cons_of_mem _ List.mem_cons_self)
    rcases Nat.lt_or_ge (c.values.length + 1) (2 ^ 32) with two | one
    · have last : c.values.length + 1 = 2 ^ 32 - 1 := by omega
      rw [last]
      exact List.mem_cons_of_mem _ List.mem_cons_self
    · have last : c.values.length = 2 ^ 32 - 1 := by omega
      rw [last]
      exact List.mem_cons_self
  · rw [createVectorPriv_length, createVectorPriv_length, createVectorPriv_length]
    omega

/-! ## Creating -/

/-- A call has created `content` under a handle, and has changed no other value. -/
structure Created (c : Create) (content : Content) (handle : UInt32) (c' : Create) : Prop where
  reachable : CreateReachable c'
  kept : ∀ h x, Denotes c h x → Denotes c' h x
  denotes : Denotes c' handle content
  fresh : ¬content.Shared → c.values.length ≤ handle.toNat

theorem target_of_created {call : Call} (created : call.created = some content) :
    call.target = none := by
  cases call <;> first | rfl | cases created

/-- A call that creates a value answers a handle, or has used the handles up. -/
theorem CreateReachable.run_created (reachable : CreateReachable c) {call : Call}
    (valid : call.Valid c) (narrow : call.Narrow) (created : call.created = some content) :
    ∃ answer c', call.run c = .ok (answer, c') ∧
      (answer = createValueFail → 2 ^ 32 ≤ c'.values.length) := by
  obtain ⟨wf, shaped⟩ := reachable.shaped
  have room := shaped.room
  have last : createValueFail.toNat = 2 ^ 32 - 1 := rfl
  have answered {result : UInt32 × Create} (run : call.run c = .ok result)
      (answers : AnswersHandle c result) : ∃ answer c', call.run c = .ok (answer, c') ∧
        (answer = createValueFail → 2 ^ 32 ≤ c'.values.length) :=
    ⟨result.1, result.2, run, answers.full room⟩
  have text {type : ValueType} {chars : List Nat}
      (isText : call.created = some (.text type chars)) : ∃ answer c', call.run c = .ok (answer, c') ∧
        (answer = createValueFail → 2 ^ 32 ≤ c'.values.length) :=
    answered (run_text valid narrow isText).2 (answers_text wf room type _)
  cases call with
  | i32 | u32 | null | booleanTrue | booleanFalse | emptySlot =>
      exact answered rfl (answers_pushCached _ _)
  | boolean v =>
      by_cases isTrue : v ≠ 0
      · exact answered (congrArg Except.ok (if_pos isTrue)) (answers_pushCached _ _)
      · exact answered (congrArg Except.ok (if_neg isTrue)) (answers_pushCached _ _)
  | float | bitvectorCompressed | vectorValue => exact answered rfl (answers_pushed rfl rfl)
  | unicodeUcs4 | unicodeUcs2 | unicodeAscii | stringUcs4 | stringUcs2 | stringAscii =>
      exact text rfl
  | bitvector v nBits =>
      obtain ⟨result, run, answers⟩ := answers_createBitvector wf room valid true
      exact answered run answers
  | bitvectorNoNormalize v nBits =>
      obtain ⟨result, run, answers⟩ := answers_createBitvector wf room valid false
      exact answered run answers
  | vectorNumber t => exact answered (congrArg Except.ok (t.create_eq c)) (answers_pushed rfl rfl)
  | vectorOwner t items nItems =>
      apply answered (congrArg Except.ok (t.owner_eq c items nItems))
      rw [createVectorOwnerPriv]
      split
      · exact answers_pushed rfl rfl
      · exact answers_pushed rfl rfl
  | set =>
      rcases Nat.lt_or_ge (2 ^ 32) (c.values.length + 3) with full | fits
      · obtain ⟨c', run, length⟩ := createSet_full room full
        exact ⟨_, c', run, fun _ => length⟩
      · refine ⟨_, _, createSet_eq fits, fun failed => ?_⟩
        have position := congrArg UInt32.toNat failed
        rw [toNat_handle (by omega), last] at position
        change 2 ^ 32 ≤ (c.values ++ _).length
        rw [List.length_append]
        change 2 ^ 32 ≤ c.values.length + 3
        omega
  | map =>
      rcases Nat.lt_or_ge (2 ^ 32) (c.values.length + 4) with full | fits
      · obtain ⟨c', run, length⟩ := createMap_full room full
        exact ⟨_, c', run, fun _ => length⟩
      · refine ⟨_, _, createMap_eq fits, fun failed => ?_⟩
        have position := congrArg UInt32.toNat failed
        rw [toNat_handle (by omega), last] at position
        change 2 ^ 32 ≤ (c.values ++ _).length
        rw [List.length_append]
        change 2 ^ 32 ≤ c.values.length + 4
        omega
  | _ => cases created

/-- A value that is not shared is a new one. -/
theorem fresh_of_created (shaped : Shaped c) {call : Call} (created : call.created = some content)
    (own : ¬content.Shared) (run : call.run c = .ok (handle, c'))
    (succeeded : handle ≠ createValueFail) : c.values.length ≤ handle.toNat := by
  have room := shaped.room
  have pushed (position : handle = UInt32.ofNat c.values.length) :
      c.values.length ≤ handle.toNat := by
    rw [position, toNat_handle room]
  have shared (same : ∃ content, call.created = some content ∧ content.Shared) :
      c.values.length ≤ handle.toNat := by
    obtain ⟨content', same, isShared⟩ := same
    cases created.symm.trans same
    exact absurd isShared own
  cases call with
  | vectorValue =>
      cases run
      exact pushed rfl
  | vectorNumber t =>
      have same := (t.create_eq c).symm.trans (Except.ok.inj run)
      exact pushed (congrArg Prod.fst same).symm
  | vectorOwner t items nItems =>
      have same := (t.owner_eq c items nItems).symm.trans (Except.ok.inj run)
      have answered : (createVectorOwnerPriv c t.vectorType items nItems).1 = handle :=
        congrArg Prod.fst same
      apply pushed
      rw [← answered, createVectorOwnerPriv]
      split <;> rfl
  | set =>
      have fits := room_of_createSet shaped run succeeded
      rw [Call.run, createSet_eq (Nat.le_of_lt fits)] at run
      cases run
      rw [toNat_handle (by omega)]
      exact Nat.le_add_right _ 2
  | map =>
      have fits := room_of_createMap shaped run succeeded
      rw [Call.run, createMap_eq (Nat.le_of_lt fits)] at run
      cases run
      rw [toNat_handle (by omega)]
      exact Nat.le_add_right _ 3
  | setRoot | vectorValueAppend | vectorNumberAppend | vectorValueSet | vectorU32Transfer
  | vectorValueTransfer | setAdd | mapAdd => cases created
  | bitvectorCompressed v =>
      cases run
      exact pushed rfl
  | _ => exact shared ⟨_, rfl, by first | trivial | exact ValueType.noConfusion⟩

/-- A call that answers a handle has created what it was asked for. -/
theorem CreateReachable.created (reachable : CreateReachable c) {call : Call}
    (valid : call.Valid c) (narrow : call.Narrow) (created : call.created = some content)
    (run : call.run c = .ok (handle, c')) (succeeded : handle ≠ createValueFail) :
    Created c content handle c' := by
  obtain ⟨wf, shaped⟩ := reachable.shaped
  have room := room_of_call shaped run succeeded
  have issues {issued : List (UInt32 × Content)} (holds : HandlesHold c issued) :
      HandlesHold c' (call.issue handle issued) := by
    obtain ⟨answer, c'', run', -, holds'⟩ := run_call wf holds valid narrow room
    cases run.symm.trans run'
    exact holds'
  have target := target_of_created created
  refine ⟨.call reachable valid run succeeded, fun h x denotes => ?_, ?_,
    fun own => fresh_of_created shaped created own run succeeded⟩
  · have holds : HandlesHold c [(h, x)] := by
      intro h' x' mem
      cases List.mem_singleton.mp mem
      exact ⟨denotes.ne_fail shaped.room, denotes⟩
    refine (issues holds h x ?_).2
    rw [Call.issue, if_neg succeeded, target]
    exact List.mem_append_left _ List.mem_cons_self
  · have none_ : HandlesHold c [] := fun _ _ mem => absurd mem List.not_mem_nil
    refine (issues none_ handle content ?_).2
    rw [Call.issue, if_neg succeeded, created]
    exact List.mem_append_right _ List.mem_cons_self

/-! ## Adding -/

theorem type_of_setPool {cv : CreateValue} (pool : cv.pool = some .set) : cv.type = .setValue := by
  unfold CreateValue.pool at pool
  cases type : cv.type <;> rw [type] at pool <;>
    first | rfl | cases pool | (simp only [Option.some.injEq] at pool; split at pool <;> cases pool)

theorem type_of_mapPool {cv : CreateValue} (pool : cv.pool = some .map) : cv.type = .mapValueValue := by
  unfold CreateValue.pool at pool
  cases type : cv.type <;> rw [type] at pool <;>
    first | rfl | cases pool | (simp only [Option.some.injEq] at pool; split at pool <;> cases pool)

/-- Append to a vector of values. -/
theorem CreateReachable.append (reachable : CreateReachable c) {array : Dynarray} {v : UInt32}
    (denotes : Denotes c handle (.vector .vectorValue array)) (item : IsHandle c v) :
    ∃ c', createVectorValueAppend c handle v = .ok (handle, c') ∧ CreateReachable c' ∧
      Changes c handle (Content.mapVector fun a => a.push v.toNat) c' := by
  obtain ⟨wf, shaped⟩ := reachable.shaped
  have isHandle := denotes.ne_fail shaped.room
  obtain ⟨cv, at_v, shown, type, pool, -⟩ := denotes
  have own : cv.isOutsideVector = false := by
    rw [CreateValue.pool, type] at pool
    cases outside : cv.isOutsideVector with
    | false => rfl
    | true =>
        rw [outside] at pool
        cases pool
  have run : createVectorValueAppend c handle v = .ok (handle, { c with
      privVectorValues := c.privVectorValues.modify cv.data.toNat fun a => a.push v.toNat }) := by
    rw [createVectorValueAppend, if_neg (not_outside item), createVectorAppendPriv,
      modifyPrivVector_eq wf at_v pool]
    rfl
  have valid : (Call.vectorValueAppend handle v).Valid c := ⟨⟨cv, at_v, shown, type, own⟩, item⟩
  exact ⟨_, run, .call reachable valid run isHandle, changes_vector wf _ at_v pool⟩

/-- Add a key to a set. -/
theorem CreateReachable.setAdd (reachable : CreateReachable c) {keys : List UInt32} {k : UInt32}
    (denotes : Denotes c handle (.set keys)) (key : IsHandle c k) :
    ∃ c', createSetAdd c handle k = .ok (handle, c') ∧ CreateReachable c' ∧
      Changes c handle (Content.mapSet fun keys => keys ++ [k]) c' := by
  obtain ⟨wf, shaped⟩ := reachable.shaped
  have isHandle := denotes.ne_fail shaped.room
  obtain ⟨cv, at_v, shown, pool, -⟩ := denotes
  have inside : cv.data.toNat < c.setValues.length := wf.pools.inside at_v pool
  have run : createSetAdd c handle k = .ok (handle, { c with
      setValues := c.setValues.modify cv.data.toNat fun set =>
        { set with keys := set.keys ++ [k] } }) := by
    rw [createSetAdd, cvValueAt, itemAt_eq_ok.mpr at_v, ok_bind, modifyAt, if_pos inside]
    rfl
  have valid : (Call.setAdd handle k).Valid c := ⟨⟨cv, at_v, shown, type_of_setPool pool⟩, key⟩
  exact ⟨_, run, .call reachable valid run isHandle, changes_set wf _ at_v pool⟩

/-- Add a key and its value to a map. -/
theorem CreateReachable.mapAdd (reachable : CreateReachable c) {keys values : List UInt32}
    {k v : UInt32} (denotes : Denotes c handle (.map keys values)) (key : IsHandle c k)
    (value : IsHandle c v) :
    ∃ c', createMapAdd c handle k v = .ok (handle, c') ∧ CreateReachable c' ∧
      Changes c handle (Content.mapMap (fun keys => keys ++ [k]) fun values => values ++ [v]) c' := by
  obtain ⟨wf, shaped⟩ := reachable.shaped
  have isHandle := denotes.ne_fail shaped.room
  obtain ⟨cv, at_v, shown, pool, -⟩ := denotes
  have inside : cv.data.toNat < c.mapValues.length := wf.pools.inside at_v pool
  have run : createMapAdd c handle k v = .ok (handle, { c with
      mapValues := c.mapValues.modify cv.data.toNat fun map =>
        { map with keys := map.keys ++ [k], values := map.values ++ [v] } }) := by
    rw [createMapAdd, cvValueAt, itemAt_eq_ok.mpr at_v, ok_bind, modifyAt, if_pos inside]
    rfl
  have valid : (Call.mapAdd handle k v).Valid c :=
    ⟨⟨cv, at_v, shown, type_of_mapPool pool⟩, key, value⟩
  refine ⟨_, run, .call reachable valid run isHandle, changes_map wf _ _ ?_ at_v pool⟩
  intro keys values same
  rw [List.length_append, List.length_append, same]
  rfl

end Pointless
