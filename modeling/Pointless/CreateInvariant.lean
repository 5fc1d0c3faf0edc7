import Pointless.CreateContent

/-!
# Runs of the create API

Any sequence of calls, any of whose requests for memory may be refused. What a handle
stands for is followed by `Call.issue` over the handles and contents there have been;
the states are followed by `Memory.run`.

* `createInvariant`: every handle keeps denoting its content, texts are interned, the
  pools are in the order of their values, maps have a value for each key and the cache
  denotes what it is asked for, as long as `JudyHSIns` is granted its memory and no
  value is pushed onto a full array.
* `refusedInsert_not_kept`: where `JudyHSIns` is refused, the code stores through the
  pointer that says so.
-/

namespace Pointless

open ExceptRules Ranks

/-! ## Steps -/

/-- A call of the API, and what it is granted of the memory it asks for. -/
structure CreateStep where
  call : Call
  memory : Memory

/-- What a step answers, and the state after it. -/
def CreateStep.run (step : CreateStep) (c : Create) : Res (UInt32 × Create) :=
  step.memory.run c step.call

/-- What a caller has to keep to, with what the functions assert of the characters of a
string. -/
def CreateStep.Valid (step : CreateStep) (c : Create) : Prop :=
  step.call.Valid c ∧ step.call.Narrow

/-- A value that a call asks for is there already. -/
def Call.reuses (c : Create) (call : Call) : Bool :=
  match call with
  | .i32 v => createCacheGetI32 c.cache v != createValueFail
  | .u32 v => createCacheGetU32 c.cache v != createValueFail
  | .null => c.cache.nullHandle != createValueFail
  | .booleanTrue => c.cache.trueHandle != createValueFail
  | .booleanFalse => c.cache.falseHandle != createValueFail
  | .boolean v =>
      (if v ≠ 0 then c.cache.trueHandle else c.cache.falseHandle) != createValueFail
  | .emptySlot => c.cache.emptySlotHandle != createValueFail
  | .bitvector v nBits =>
      match compressBitvector v nBits with
      | .ok none =>
          (c.bitvectorMapJudy.lookup
            (bytesU32 nBits ++ v.take (iceil nBits.toNat 8))).isSome
      | _ => false
  | call =>
      match call.created with
      | some (.text type chars) =>
          (c.stringUnicodeMapJudy.lookup (textBuffer type chars)).isSome
      | _ => false

theorem reuses_bitvector (c : Create) (v : List UInt8) (nBits : UInt32) :
    (Call.bitvector v nBits).reuses c =
      match compressBitvector v nBits with
      | .ok none =>
          (c.bitvectorMapJudy.lookup
            (bytesU32 nBits ++ v.take (iceil nBits.toNat 8))).isSome
      | _ => false := rfl

theorem reuses_vectorOwner (c : Create) (t : NumberType) (items : List UInt8) (nItems : UInt32) :
    (Call.vectorOwner t items nItems).reuses c =
      match some (if nItems = 0 then Content.inline .vectorEmpty 0
        else .owned t.vectorType items nItems) with
      | some (.text type chars) =>
          (c.stringUnicodeMapJudy.lookup (textBuffer type chars)).isSome
      | _ => false := rfl

/-- How many values a call pushes. -/
def Call.slots (c : Create) (call : Call) : Nat :=
  match call with
  | .set => 3
  | .map => 4
  | call => if call.created.isSome ∧ call.reuses c = false then 1 else 0

/-- The inserts into the Judy maps are granted their memory, and what is pushed has a
place in an array whose indices have 32 bits. -/
def CreateStep.Fits (step : CreateStep) (c : Create) : Prop :=
  step.memory.judy = true ∧ c.values.length + step.call.slots c ≤ 2 ^ 32

instance (step : CreateStep) (c : Create) : Decidable (step.Fits c) :=
  inferInstanceAs (Decidable (_ ∧ _))

/-! ## What holds in every state -/

/-- The handles issued so far stand for their contents. -/
def HandlesHold (c : Create) (issued : List (UInt32 × Content)) : Prop :=
  ∀ handle content, (handle, content) ∈ issued →
    handle ≠ createValueFail ∧ Denotes c handle content

/-- Texts share a handle exactly when they are of one kind and have the same characters. -/
def TextsInterned (issued : List (UInt32 × Content)) : Prop :=
  ∀ handle handle' type type' chars chars', (handle, .text type chars) ∈ issued →
    (handle', .text type' chars') ∈ issued →
    (handle = handle' ↔ type = type' ∧ chars = chars')

/-- The values of a pool hold the positions of their items, and these are `0`, `1`, `2`, …
in the order of the values. -/
def PoolInOrder (c : Create) (p : Pool) : Prop :=
  c.poolSize p = count CreateValue.pool c.values p ∧
    ∀ i v, c.values[i]? = some v → v.pool = some p →
      v.data.toNat = count CreateValue.pool (c.values.take i) p

/-- What holds of a state and the handles issued before it. -/
structure CreateHolds (c : Create) (issued : List (UInt32 × Content)) : Prop where
  handles : HandlesHold c issued
  interned : TextsInterned issued
  texts : PoolInOrder c .text
  bitvectors : PoolInOrder c .bits
  maps : ∀ map ∈ c.mapValues, map.keys.length = map.values.length
  cache : CacheOk c

/-- What is claimed of a run from `c`: it gets through every step, and `CreateHolds` holds
in every state. -/
def KeepsCreateInvariant :
    Create → List (UInt32 × Content) → List CreateStep → Prop
  | c, issued, [] => CreateHolds c issued
  | c, issued, step :: rest =>
      CreateHolds c issued ∧
        (step.Valid c → ∃ answer c', step.run c = .ok (answer, c') ∧
          KeepsCreateInvariant c' (step.call.issue answer issued) rest)

/-- The steps of a run fit. -/
def StepsFit : Create → List CreateStep → Prop
  | _, [] => True
  | c, step :: rest =>
      step.Fits c ∧ ∀ answer c', step.run c = .ok (answer, c') → StepsFit c' rest

variable {c c' : Create} {call : Call} {issued : List (UInt32 × Content)}

/-! ## What is issued -/

theorem issue_failed (call : Call) (issued : List (UInt32 × Content)) :
    call.issue createValueFail issued = issued := if_pos rfl

theorem issue_idle {answer : UInt32} (created : call.created = none)
    (target : call.target = none) : call.issue answer issued = issued := by
  rw [Call.issue, created, target]
  split
  · rfl
  · simp

theorem HandlesHold.mono (holds : HandlesHold c issued) (grown : Extends c c') :
    HandlesHold c' issued := by
  intro handle content mem
  obtain ⟨isHandle, denotes⟩ := holds handle content mem
  exact ⟨isHandle, denotes.mono grown⟩

theorem holds_created {content : Content} {result : UInt32 × Create}
    (holds : HandlesHold c issued) (target : call.target = none)
    (created : call.created = some content) (creates : Creates c content result) :
    HandlesHold result.2 (call.issue result.1 issued) := by
  have before := holds.mono creates.grown
  rw [Call.issue]
  split
  · exact before
  · rename_i isHandle
    intro handle content' mem
    rw [created, target] at mem
    rcases List.mem_append.mp mem with old | new
    · obtain ⟨entry, inside, same⟩ := List.mem_map.mp old
      cases same
      exact before entry.1 entry.2 inside
    · cases List.mem_singleton.mp new
      exact ⟨isHandle, creates.denotes isHandle⟩

theorem holds_changed {target : UInt32} {change : Content → Content}
    (holds : HandlesHold c issued) (created : call.created = none)
    (isTarget : call.target = some target) (same : call.change = change)
    (changes : Changes c target change c') : HandlesHold c' (call.issue target issued) := by
  rw [Call.issue]
  split
  · rename_i failed
    intro handle content mem
    obtain ⟨isHandle, denotes⟩ := holds handle content mem
    have unchanged := changes.denotes handle content denotes
    rw [if_neg (by rw [failed]; exact isHandle.symm)] at unchanged
    exact ⟨isHandle, unchanged⟩
  · intro handle content mem
    rw [created, isTarget, same] at mem
    rcases List.mem_append.mp mem with old | new
    · obtain ⟨entry, inside, eq⟩ := List.mem_map.mp old
      cases eq
      obtain ⟨isHandle, denotes⟩ := holds entry.1 entry.2 inside
      have changed := changes.denotes entry.1 entry.2 denotes
      simp only [Option.some.injEq]
      exact ⟨isHandle, changed⟩
    · cases new

/-! ## One call, with its memory -/

/-- A call has answered, keeps the state in order and keeps to what has been issued. -/
def RunsTo (issued : List (UInt32 × Content)) (call : Call)
    (run : Res (UInt32 × Create)) : Prop :=
  ∃ answer c', run = .ok (answer, c') ∧ WellFormed c' ∧ HandlesHold c' (call.issue answer issued)

theorem runsTo_created {content : Content} {result : UInt32 × Create}
    {run : Res (UInt32 × Create)} (holds : HandlesHold c issued) (target : call.target = none)
    (created : call.created = some content) (done : run = .ok result)
    (creates : Creates c content result) : RunsTo issued call run :=
  ⟨result.1, result.2, done, creates.wellFormed, holds_created holds target created creates⟩

theorem runsTo_changed {target : UInt32} {change : Content → Content}
    {run : Res (UInt32 × Create)} (holds : HandlesHold c issued) (created : call.created = none)
    (isTarget : call.target = some target) (same : call.change = change)
    (done : run = .ok (target, c')) (changes : Changes c target change c') :
    RunsTo issued call run :=
  ⟨target, c', done, changes.wellFormed, holds_changed holds created isTarget same changes⟩

theorem runsTo_failed {run : Res (UInt32 × Create)} (wf : WellFormed c)
    (holds : HandlesHold c issued) (done : run = .ok (createValueFail, c)) :
    RunsTo issued call run := by
  refine ⟨createValueFail, c, done, wf, ?_⟩
  rw [issue_failed]
  exact holds

/-- A value that is not there yet has a place. -/
theorem room_of_slots (room : c.values.length + call.slots c ≤ 2 ^ 32)
    (slots : call.slots c = if call.created.isSome ∧ call.reuses c = false then 1 else 0)
    (created : call.created.isSome) (new : call.reuses c = false) : c.values.length < 2 ^ 32 := by
  rw [slots, if_pos ⟨created, new⟩] at room
  exact room

theorem bne_fail {handle : UInt32} (absent : handle = createValueFail) :
    (handle != createValueFail) = false := by
  rw [absent]
  rfl

/-- The calls whose answers are cached. -/
theorem run_cached (wf : WellFormed c) (holds : HandlesHold c issued)
    (room : c.values.length + call.slots c ≤ 2 ^ 32) {type : ValueType} {data handle : UInt32}
    {set : CreateCache → UInt32 → CreateCache} (target : call.target = none)
    (created : call.created = some (.inline type data))
    (slots : call.slots c = if call.created.isSome ∧ call.reuses c = false then 1 else 0)
    (reuses : call.reuses c = (handle != createValueFail))
    (done : call.run c = .ok (pushCached c handle (.plain type data) set))
    (inline : (CreateValue.plain type data).pool = none)
    (cached : IsCached c handle (.plain type data))
    (cache : CacheOk (pushValue c (.plain type data)).2 →
      IsCached (pushValue c (.plain type data)).2 (pushValue c (.plain type data)).1
        (.plain type data) →
      CacheOk { (pushValue c (.plain type data)).2 with
        cache := set c.cache (pushValue c (.plain type data)).1 }) :
    RunsTo issued call (call.run c) := by
  refine runsTo_created holds target created done (creates_cached wf inline cached ?_ cache)
  intro absent
  refine room_of_slots room slots (by rw [created]; rfl) ?_
  rw [reuses, bne_fail absent]

theorem run_booleanTrue (wf : WellFormed c) (holds : HandlesHold c issued)
    (target : call.target = none) (created : call.created = some (.inline .boolean 1))
    (slots : call.slots c = if call.created.isSome ∧ call.reuses c = false then 1 else 0)
    (reuses : call.reuses c = (c.cache.trueHandle != createValueFail))
    (done : call.run c = .ok (createBooleanTrue c))
    (room : c.values.length + call.slots c ≤ 2 ^ 32) : RunsTo issued call (call.run c) := by
  refine run_cached wf holds room target created slots reuses done rfl wf.cache.booleanTrue ?_
  exact fun ok here => { ok with booleanTrue := here }

theorem run_booleanFalse (wf : WellFormed c) (holds : HandlesHold c issued)
    (target : call.target = none) (created : call.created = some (.inline .boolean 0))
    (slots : call.slots c = if call.created.isSome ∧ call.reuses c = false then 1 else 0)
    (reuses : call.reuses c = (c.cache.falseHandle != createValueFail))
    (done : call.run c = .ok (createBooleanFalse c))
    (room : c.values.length + call.slots c ≤ 2 ^ 32) : RunsTo issued call (call.run c) := by
  refine run_cached wf holds room target created slots reuses done rfl wf.cache.booleanFalse ?_
  exact fun ok here => { ok with booleanFalse := here }

/-- The six calls that intern a text. -/
theorem run_texts (wf : WellFormed c) (holds : HandlesHold c issued)
    (room : c.values.length + call.slots c ≤ 2 ^ 32) {type : ValueType} {chars : List Nat}
    (target : call.target = none) (text : call.created = some (.text type chars))
    (slots : call.slots c = if call.created.isSome ∧ call.reuses c = false then 1 else 0)
    (reuses : call.reuses c = (c.stringUnicodeMapJudy.lookup (textBuffer type chars)).isSome)
    (valid : call.Valid c) (narrow : call.Narrow) : RunsTo issued call (call.run c) := by
  obtain ⟨isText, done⟩ := run_text valid narrow text
  refine runsTo_created holds target text done (creates_text wf isText fun absent => ?_)
  refine room_of_slots room slots (by rw [text]; rfl) ?_
  rw [reuses, absent]
  rfl

theorem creates_inlineBits (wf : WellFormed c) (room : c.values.length < 2 ^ 32)
    {type : ValueType} {data : UInt32} {bits : List Bool} (inline : IsInlineBits type)
    (shows : ShowsBits type data none bits) :
    Creates c (.bits bits) (pushValue c (.plain type data)) := by
  have kinds : (CreateValue.plain type data).pool = none ∧ type ≠ .bitvector := by
    rcases inline with rfl | rfl | rfl | rfl | rfl
    all_goals exact ⟨rfl, nofun⟩
  refine ⟨wf.pushInline room kinds.1, extends_pushValue c _, fun _ => ?_⟩
  exact denotes_pushed room rfl rfl ⟨none, if_neg kinds.2, shows⟩

/-- Both ways to create a bitvector from its bits. -/
theorem run_bits (wf : WellFormed c) (holds : HandlesHold c issued)
    {v : List UInt8} {nBits : UInt32} {normalize : Bool} (target : call.target = none)
    (created : call.created = some (.bits (bitsOf v nBits.toNat)))
    (long : iceil nBits.toNat 8 ≤ v.length)
    (roomInline : ∀ packed, compressBitvector v nBits = .ok (some packed) →
      c.values.length < 2 ^ 32)
    (roomHeap : compressBitvector v nBits = .ok none →
      (normalize = true → c.bitvectorMapJudy.lookup
        (bytesU32 nBits ++ v.take (iceil nBits.toNat 8)) = none) → c.values.length < 2 ^ 32) :
    RunsTo issued call (createBitvector_ c v nBits normalize) := by
  have post := compressBitvector_post long
  cases compressed : compressBitvector v nBits with
  | error e =>
      rw [compressed] at post
      exact post.elim
  | ok result =>
      rw [compressed] at post
      cases result with
      | some packed =>
          obtain ⟨inline, shows⟩ := post packed.1 packed.2 rfl
          refine runsTo_created holds target created ?_
            (creates_inlineBits wf (roomInline packed compressed) inline shows)
          rw [createBitvector_, compressed]
          rfl
      | none =>
          have slice : ByteMemory.slice v 0 (iceil nBits.toNat 8)
              = some (v.take (iceil nBits.toNat 8)) := by
            rw [ByteMemory.slice_eq_some (by omega), List.drop_zero]
          refine runsTo_created holds target created ?_
            (creates_bits wf normalize (fun data => showsBits_heap slice) (roomHeap compressed))
          rw [createBitvector_, compressed]
          simp only [ok_bind, slice, pure_eq_ok]

/-! ## Changes in place -/

theorem modifyPrivVector_eq (wf : WellFormed c) {vector : UInt32} {v : CreateValue}
    (at_v : c.values[vector.toNat]? = some v) (pool : v.pool = some .priv)
    (f : Dynarray → Dynarray) :
    modifyPrivVector c vector f
      = .ok { c with privVectorValues := c.privVectorValues.modify v.data.toNat f } := by
  have inside : v.data.toNat < c.privVectorValues.length := wf.pools.inside at_v pool
  rw [modifyPrivVector, cvValueAt, itemAt_eq_ok.mpr at_v, ok_bind, modifyAt, if_pos inside]
  rfl

theorem pool_of_vectorHandle {vector : UInt32} {type : ValueType}
    (isVector : type = .vectorValue ∨ ∃ t : NumberType, type = t.vectorType)
    (isHandle : IsVectorHandle c type vector) :
    ∃ v, c.values[vector.toNat]? = some v ∧ v.pool = some .priv := by
  obtain ⟨v, at_v, -, isType, inside⟩ := isHandle
  refine ⟨v, at_v, ?_⟩
  rw [CreateValue.pool, isType, inside]
  rcases isVector with rfl | ⟨t, rfl⟩
  · rfl
  · cases t
    all_goals rfl

theorem run_append (wf : WellFormed c) (holds : HandlesHold c issued) {vector : UInt32} {v : Nat}
    {type : ValueType} (isVector : type = .vectorValue ∨ ∃ t : NumberType, type = t.vectorType)
    (isHandle : IsVectorHandle c type vector) (created : call.created = none)
    (target : call.target = some vector)
    (same : call.change = Content.mapVector fun a => a.push v) :
    RunsTo issued call (createVectorAppendPriv c vector v) := by
  obtain ⟨cv, at_v, pool⟩ := pool_of_vectorHandle isVector isHandle
  refine runsTo_changed holds created target same ?_ (changes_vector wf _ at_v pool)
  rw [createVectorAppendPriv, modifyPrivVector_eq wf at_v pool]
  rfl

theorem run_transfer (wf : WellFormed c) (holds : HandlesHold c issued) {vector : UInt32}
    {items : List UInt32} {type : ValueType}
    (isVector : type = .vectorValue ∨ ∃ t : NumberType, type = t.vectorType)
    (isHandle : IsVectorHandle c type vector) (created : call.created = none)
    (target : call.target = some vector)
    (same : call.change = Content.mapVector fun a => { a with items := items.map UInt32.toNat }) :
    RunsTo issued call (createVectorTransferPriv c vector items) := by
  obtain ⟨cv, at_v, pool⟩ := pool_of_vectorHandle isVector isHandle
  have inside : cv.data.toNat < c.privVectorValues.length := wf.pools.inside at_v pool
  have found : cvGetPrivVector c cv = .ok c.privVectorValues[cv.data.toNat] :=
    itemAt_eq_ok.mpr (List.getElem?_eq_getElem inside)
  have read : cvValueAt c vector = .ok cv := itemAt_eq_ok.mpr at_v
  by_cases filled : c.privVectorValues[cv.data.toNat].nItems ≠ 0
  · refine runsTo_failed wf holds ?_
    rw [createVectorTransferPriv, read, ok_bind, found, ok_bind, if_pos filled]
    rfl
  · refine runsTo_changed holds created target same ?_ (changes_vector wf _ at_v pool)
    rw [createVectorTransferPriv, read, ok_bind, found, ok_bind, if_neg filled,
      modifyPrivVector_eq wf at_v pool]
    rfl

/-- The handle of a value is inside the array. -/
theorem not_outside {handle : UInt32} (isHandle : IsHandle c handle) :
    ¬c.values.length ≤ handle.toNat := by
  obtain ⟨v, at_h, -⟩ := isHandle
  exact Nat.not_le.mpr (List.getElem?_eq_some_iff.mp at_h).1

/-- A call that is granted its memory. -/
theorem run_call (wf : WellFormed c) (holds : HandlesHold c issued) (valid : call.Valid c)
    (narrow : call.Narrow) (room : c.values.length + call.slots c ≤ 2 ^ 32) :
    RunsTo issued call (call.run c) := by
  cases call with
  | setRoot root =>
      refine ⟨root, _, rfl, ?_, ?_⟩
      · exact wf.update rfl ⟨⟨rfl, rfl, rfl⟩, ⟨rfl, rfl, rfl⟩, rfl⟩ (fun _ => rfl) wf.maps
      · rw [issue_idle rfl rfl]
        exact holds.mono { Extends.refl c with values := List.prefix_refl _ }
  | i32 v =>
      exact run_cached wf holds room rfl rfl rfl rfl rfl rfl (wf.cache.i32 v)
        fun ok here => ok.setI32 here
  | u32 v =>
      exact run_cached wf holds room rfl rfl rfl rfl rfl rfl (wf.cache.u32 v)
        fun ok here => ok.setU32 here
  | float bits =>
      exact runsTo_created holds rfl rfl rfl
        (creates_inline wf (room_of_slots room rfl rfl rfl) rfl)
  | null =>
      exact run_cached wf holds room rfl rfl rfl rfl rfl rfl wf.cache.null
        fun ok here => { ok with null := here }
  | booleanTrue => exact run_booleanTrue wf holds rfl rfl rfl rfl rfl room
  | booleanFalse => exact run_booleanFalse wf holds rfl rfl rfl rfl rfl room
  | boolean v =>
      by_cases isTrue : v ≠ 0
      · refine run_booleanTrue wf holds rfl ?_ rfl ?_ ?_ room
        · exact congrArg (fun data => some (Content.inline .boolean data)) (if_pos isTrue)
        · exact congrArg (fun handle => handle != createValueFail) (if_pos isTrue)
        · rw [Call.run, createBoolean, if_pos isTrue]
      · refine run_booleanFalse wf holds rfl ?_ rfl ?_ ?_ room
        · exact congrArg (fun data => some (Content.inline .boolean data)) (if_neg isTrue)
        · exact congrArg (fun handle => handle != createValueFail) (if_neg isTrue)
        · rw [Call.run, createBoolean, if_neg isTrue]
  | emptySlot =>
      exact run_cached wf holds room rfl rfl rfl rfl rfl rfl wf.cache.emptySlot
        fun ok here => { ok with emptySlot := here }
  | unicodeUcs4 v => exact run_texts wf holds room rfl rfl rfl rfl valid narrow
  | unicodeUcs2 v => exact run_texts wf holds room rfl rfl rfl rfl valid narrow
  | unicodeAscii v => exact run_texts wf holds room rfl rfl rfl rfl valid narrow
  | stringUcs4 v => exact run_texts wf holds room rfl rfl rfl rfl valid narrow
  | stringUcs2 v => exact run_texts wf holds room rfl rfl rfl rfl valid narrow
  | stringAscii v => exact run_texts wf holds room rfl rfl rfl rfl valid narrow
  | bitvector v nBits =>
      refine run_bits wf holds rfl rfl valid (fun packed compressed => ?_)
        fun compressed absent => ?_
      · refine room_of_slots room rfl rfl ?_
        rw [reuses_bitvector, compressed]
      · refine room_of_slots room rfl rfl ?_
        rw [reuses_bitvector, compressed]
        exact congrArg Option.isSome (absent rfl)
  | bitvectorNoNormalize v nBits =>
      have place := room_of_slots room rfl rfl rfl
      exact run_bits wf holds rfl rfl valid (fun _ _ => place) fun _ _ => place
  | bitvectorCompressed v =>
      have inline : (CreateValue.plain v.type v.data).pool = none := by
        have kinds : IsInlineBitvector v := valid
        rw [IsInlineBitvector] at kinds
        rw [CreateValue.pool, CreateValue.plain]
        split at kinds
        case h_6 => exact kinds.elim
        all_goals simp_all
      exact runsTo_created holds rfl rfl rfl
        (creates_inline wf (room_of_slots room rfl rfl rfl) inline)
  | vectorValue =>
      exact runsTo_created holds rfl rfl rfl
        (creates_vector wf (room_of_slots room rfl rfl rfl) (Or.inl rfl) 4)
  | vectorNumber t =>
      exact runsTo_created holds rfl rfl (congrArg Except.ok (t.create_eq c))
        (creates_vector wf (room_of_slots room rfl rfl rfl) (Or.inr ⟨t, rfl⟩) t.size)
  | vectorValueAppend vector v =>
      have change : (Call.vectorValueAppend vector v).change
          = Content.mapVector fun a => a.push v.toNat := by
        funext content
        cases content
        all_goals rfl
      have done := run_append wf holds (Or.inl rfl) valid.1 rfl rfl change
      rw [Call.run, createVectorValueAppend, if_neg (not_outside valid.2)]
      exact done
  | vectorNumberAppend t vector v =>
      have change : (Call.vectorNumberAppend t vector v).change
          = Content.mapVector fun a => a.push (v.toNat % 256 ^ t.size) := by
        funext content
        cases content
        all_goals rfl
      rw [Call.run, Memory.append_word]
      exact run_append wf holds (Or.inr ⟨t, rfl⟩) valid rfl rfl change
  | vectorValueSet vector i v =>
      have change : (Call.vectorValueSet vector i v).change
          = Content.mapVector fun a => { a with items := a.items.set i.toNat v.toNat } := by
        funext content
        cases content
        all_goals rfl
      obtain ⟨isHandle, -, inside⟩ := valid
      obtain ⟨cv, at_v, pool⟩ := pool_of_vectorHandle (Or.inl rfl) isHandle
      have item : cv.data.toNat < c.privVectorValues.length := wf.pools.inside at_v pool
      have found : cvGetPrivVector c cv = .ok c.privVectorValues[cv.data.toNat] :=
        itemAt_eq_ok.mpr (List.getElem?_eq_getElem item)
      have read : cvValueAt c vector = .ok cv := itemAt_eq_ok.mpr at_v
      refine runsTo_changed holds rfl rfl change ?_ (changes_vector wf _ at_v pool)
      rw [Call.run, createVectorValueSet, read, ok_bind, found, ok_bind,
        if_pos (inside cv _ read found), modifyPrivVector_eq wf at_v pool]
      rfl
  | vectorU32Transfer vector v =>
      have change : (Call.vectorU32Transfer vector v).change
          = Content.mapVector fun a => { a with items := v.map UInt32.toNat } := by
        funext content
        cases content
        all_goals rfl
      exact run_transfer wf holds (Or.inr ⟨.u32, rfl⟩) valid rfl rfl change
  | vectorValueTransfer vector v =>
      have change : (Call.vectorValueTransfer vector v).change
          = Content.mapVector fun a => { a with items := v.map UInt32.toNat } := by
        funext content
        cases content
        all_goals rfl
      have handles : (v.any fun handle => decide (c.values.length ≤ handle.toNat)) = false := by
        rw [List.any_eq_false]
        intro handle mem outside
        exact not_outside (valid.2 handle mem) (of_decide_eq_true outside)
      have done := run_transfer wf holds (Or.inl rfl) valid.1 rfl rfl change
      rw [Call.run, createVectorValueTransfer, handles]
      exact done
  | vectorOwner t items nItems =>
      have new : (Call.vectorOwner t items nItems).reuses c = false := by
        by_cases empty : nItems = 0
        · rw [reuses_vectorOwner, if_pos empty]
        · rw [reuses_vectorOwner, if_neg empty]
      exact runsTo_created holds rfl rfl (congrArg Except.ok (t.owner_eq c items nItems))
        (creates_owned wf (room_of_slots room rfl rfl new) t items nItems)
  | set =>
      obtain ⟨result, done, creates⟩ := creates_set wf room
      exact runsTo_created holds rfl rfl done creates
  | setAdd s k =>
      have change : (Call.setAdd s k).change = Content.mapSet fun keys => keys ++ [k] := by
        funext content
        cases content
        all_goals rfl
      obtain ⟨⟨cv, at_v, -, isType⟩, -⟩ := valid
      have pool : cv.pool = some .set := by rw [CreateValue.pool, isType]
      have item : cv.data.toNat < c.setValues.length := wf.pools.inside at_v pool
      refine runsTo_changed holds rfl rfl change ?_ (changes_set wf _ at_v pool)
      rw [Call.run, createSetAdd, cvValueAt, itemAt_eq_ok.mpr at_v, ok_bind, modifyAt,
        if_pos item]
      rfl
  | map =>
      obtain ⟨result, done, creates⟩ := creates_map wf room
      exact runsTo_created holds rfl rfl done creates
  | mapAdd m k v =>
      have change : (Call.mapAdd m k v).change
          = Content.mapMap (fun keys => keys ++ [k]) fun values => values ++ [v] := by
        funext content
        cases content
        all_goals rfl
      obtain ⟨⟨cv, at_v, -, isType⟩, -⟩ := valid
      have pool : cv.pool = some .map := by rw [CreateValue.pool, isType]
      have item : cv.data.toNat < c.mapValues.length := wf.pools.inside at_v pool
      refine runsTo_changed holds rfl rfl change ?_ (changes_map wf _ _ ?_ at_v pool)
      · rw [Call.run, createMapAdd, cvValueAt, itemAt_eq_ok.mpr at_v, ok_bind, modifyAt,
          if_pos item]
        rfl
      · intro keys values same
        rw [List.length_append, List.length_append, same]
        rfl

/-! ## Steps and runs -/

/-- A text has its buffer in the Judy map under its own handle. -/
theorem lookup_of_text (wf : WellFormed c) {handle : UInt32} {type : ValueType}
    {chars : List Nat} (denotes : Denotes c handle (.text type chars)) :
    IsText type chars ∧
      c.stringUnicodeMapJudy.lookup (textBuffer type chars) = some handle := by
  obtain ⟨v, at_h, -, rfl, isText, item⟩ := denotes
  have pool : v.pool = some .text := by
    rw [CreateValue.pool]
    rcases isText.1 with isString | isUnicode
    · rw [isString]
    · rw [isUnicode]
  obtain ⟨chars', isText', item', known⟩ := wf.texts.kept _ v at_h pool
  have same := Option.some.inj (item'.symm.trans item)
  rw [← same, known, UInt32.ofNat_toNat]
  exact ⟨isText, rfl⟩

theorem textsInterned (wf : WellFormed c) (holds : HandlesHold c issued) :
    TextsInterned issued := by
  intro handle handle' type type' chars chars' mem mem'
  obtain ⟨isText, known⟩ := lookup_of_text wf (holds handle _ mem).2
  obtain ⟨isText', known'⟩ := lookup_of_text wf (holds handle' _ mem').2
  constructor
  · rintro rfl
    obtain ⟨v, at_h, -, isType, -, item⟩ := (holds handle _ mem).2
    obtain ⟨w, at_h', -, isType', -, item'⟩ := (holds handle _ mem').2
    cases Option.some.inj (at_h.symm.trans at_h')
    exact textBuffer_inj isText isText' (Option.some.inj (item.symm.trans item'))
  · rintro ⟨rfl, rfl⟩
    exact Option.some.inj (known.symm.trans known')

theorem poolInOrder (wf : WellFormed c) (p : Pool) : PoolInOrder c p :=
  ⟨(wf.pools.size p).symm, fun i v at_i pool => wf.pools.ranked i v p at_i pool⟩

theorem createHolds (wf : WellFormed c) (holds : HandlesHold c issued) : CreateHolds c issued :=
  ⟨holds, textsInterned wf holds, poolInOrder wf .text, poolInOrder wf .bits, wf.maps, wf.cache⟩

/-- One step: granted or refused its memory, it keeps the state in order and keeps to what
has been issued. -/
theorem step_keeps {step : CreateStep} (wf : WellFormed c) (holds : HandlesHold c issued)
    (fits : step.Fits c) (valid : step.Valid c) :
    RunsTo issued step.call (step.run c) := by
  obtain ⟨judy, room⟩ := fits
  have outcome : Memory.Outcome c (step.call.run c) (step.run c) := by
    refine Memory.run_cases judy (fun isSet => ?_) fun isMap => ?_
    · rw [isSet] at room
      exact room
    · rw [isMap] at room
      exact room
  rcases outcome with granted | ⟨c', refused, leaks⟩
  · rw [granted]
    exact run_call wf holds valid.1 valid.2 room
  · refine ⟨createValueFail, c', refused, wf.leak leaks, ?_⟩
    rw [issue_failed]
    exact holds.mono leaks.extends

theorem run_keeps {steps : List CreateStep} (wf : WellFormed c) (holds : HandlesHold c issued)
    (fit : StepsFit c steps) : KeepsCreateInvariant c issued steps := by
  induction steps generalizing c issued with
  | nil => exact createHolds wf holds
  | cons step rest ih =>
      refine ⟨createHolds wf holds, fun valid => ?_⟩
      obtain ⟨answer, c', done, wf', holds'⟩ := step_keeps wf holds fit.1 valid
      exact ⟨answer, c', done, ih wf' holds' (fit.2 answer c' done)⟩

/-- The invariant of the create API over every run whose steps fit. -/
theorem createInvariant (version : UInt32) (steps : List CreateStep)
    (fit : StepsFit (createBegin version) steps) :
    KeepsCreateInvariant (createBegin version) [] steps :=
  run_keeps (wellFormed_begin version) (fun _ _ mem => nomatch mem) fit

/-- A string, the unicode of the same characters, and a string whose buffer is refused. -/
theorem createInvariant_sameChars :
    KeepsCreateInvariant (createBegin 1) []
      [⟨.stringAscii [65, 0], fun _ => true, true⟩, ⟨.unicodeAscii [65, 0], fun _ => true, true⟩,
        ⟨.stringAscii [66, 0], fun _ => false, true⟩] := by
  refine createInvariant 1 _ ⟨by decide, fun answer c' done => ?_⟩
  cases done
  refine ⟨by decide, fun answer c' done => ?_⟩
  cases done
  exact ⟨by decide, fun _ _ _ => trivial⟩

/-- `JudyHSIns` that is refused its memory answers a pointer that the code takes for one
to store the handle through. -/
theorem refusedInsert_not_kept :
    ¬∀ (version : UInt32) (steps : List CreateStep),
      KeepsCreateInvariant (createBegin version) [] steps := by
  intro kept
  obtain ⟨-, runs⟩ := kept 1 [⟨.stringAscii [65, 0], fun _ => true, false⟩]
  obtain ⟨answer, c', done, -⟩ := runs ⟨List.mem_cons_of_mem 65 List.mem_cons_self, trivial⟩
  cases done

end Pointless
