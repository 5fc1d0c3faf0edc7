import Pointless.CustomSortKeeps
import Pointless.PyPrimVectorSerialize
import Pointless.PyPrimVectorSystem

/-!
# Exported memory

While a memory view of a PrimVector is open, no method is to change the number of items
or the memory they lie in. All methods but `pop_bulk` ask `can_resize` first, or only move
items. But some of them run code of the caller after they have asked, and that code may
open a view: what they do then is not asked for again. `exportsKept_iff` says which steps
of a run change what is exported.
-/

namespace Pointless

open ByteMemory ExceptRules

/-! ## What is to be kept -/

/-- There are as many items as before, in the memory of before: no other has been asked for
in its place. -/
structure SameStorage (v v' : PrimVectorObject) : Prop where
  length : v'.array.items.length = v.array.items.length
  nAlloc : v'.array.nAlloc = v.array.nAlloc
  block : v'.array.block = v.array.block
  unmoved : v.array.block ≠ none → v'.array.requests = v.array.requests

/-- The stop is not that of a number of items that falls below zero. -/
def Stop.Counted (e : Stop) : Prop := e ≠ .fault .underflow

/-- The step changes neither the number of items nor the memory. -/
abbrev StorageKept (v : PrimVectorObject) : PrimStep → Prop :=
  Post (fun out => SameStorage v out.2) Stop.Counted

/-- Along the run, no step changes the number of items or the memory while there are exports. -/
def ExportsKept (alloc : Allocator) (inPlace : Nat → Bool) :
    PrimVectorSystem → List PrimVectorAction → Prop
  | _, [] => True
  | sys, action :: rest => ∀ fuel,
      (0 < sys.object.obExports →
        Post (fun sys' => SameStorage sys.object sys'.object) Stop.Counted
          (sys.step alloc inPlace fuel action)) ∧
      ∀ sys', sys.step alloc inPlace fuel action = .ok sys' → ExportsKept alloc inPlace sys' rest

/-! ## What breaks it -/

/-- The array is as it is when it is made. -/
def HeapArray.Blank (a : HeapArray) : Prop := a.items = [] ∧ a.nAlloc = 0 ∧ a.block = none

/-- There is memory for the words, one after the other. -/
def HeapArray.HasRoom (alloc : Allocator) : List Nat → HeapArray → Prop
  | [], _ => True
  | word :: words, a => (a.reserve alloc).1 = true ∧ HasRoom alloc words (a.pushed alloc word)

/-- The arguments are a buffer of some items, and there is memory for them. -/
def InitArgs.Fills (alloc : Allocator) (a : HeapArray) (args : InitArgs) : Prop :=
  args.type = none ∧ args.sequence = false ∧ ∃ b t, args.buffer = some b ∧ 8 ≤ b.length ∧
    NumberType.ofPrimType (UInt8.ofNat (typeWord b)) = some t ∧
    b.length = t.size * countWord b + 8 ∧ 0 < countWord b ∧
    (a.init t.size).HasRoom alloc (wordsAt t.size 8 (countWord b) b)

/-- With this answer, a method that has asked `can_resize` before the call changes the number of
items or the memory. The constructor empties the array, or fills it from a buffer;
`append_bulk` pops what it appended before an exception; `remove` pops the float it
finds. -/
def PyCode.Resizes (alloc : Allocator) (v : PrimVectorObject) : PyCode → PyAnswer → Prop
  | .parseArgs, .args (.ok args) => ¬v.array.Blank ∨ args.Fills alloc v.array
  | .getIter .init, .iter (.error _) => ¬v.array.Blank
  | .dropIter .init (some _) _, .dropped => ¬v.array.Blank
  | .dropIter .appendBulk (some _) nAppend, .dropped => 0 < nAppend
  | .parseFloat, .float (.ok ff) => ∃ i, primIndexF v ff = .ok (some i)
  | _, _ => False

/-- The action changes what is exported: it is a `pop_bulk` of some items, of which there are
enough, or an answer to a method that resizes with it. -/
def PrimVectorAction.Breaks (alloc : Allocator) (sys : PrimVectorSystem) :
    PrimVectorAction → Prop
  | .call (.popBulk n) =>
      0 < sys.object.obExports ∧ 0 < n ∧ n ≤ sys.object.array.items.length ∧ n < 2 ^ 63
  | .call _ => False
  | .answer i reply => 0 < sys.object.obExports ∧
      ∃ code, sys.waiting[i]? = some code ∧ code.Resizes alloc sys.object reply

/-- No action of the run changes what is exported. -/
def NoneBreaks (alloc : Allocator) (inPlace : Nat → Bool) :
    PrimVectorSystem → List PrimVectorAction → Prop
  | _, [] => True
  | sys, action :: rest => ¬action.Breaks alloc sys ∧
      ∀ fuel sys', sys.step alloc inPlace fuel action = .ok sys' →
        NoneBreaks alloc inPlace sys' rest

/-! ## Storage -/

section Storage

variable {v v' : PrimVectorObject}

theorem SameStorage.refl (v : PrimVectorObject) : SameStorage v v := ⟨rfl, rfl, rfl, fun _ => rfl⟩

/-- Other items, as many. -/
theorem SameStorage.withItems {items : List Nat} (length : items.length = v.array.items.length) :
    SameStorage v (v.withArray { v.array with items := items }) := ⟨length, rfl, rfl, fun _ => rfl⟩

theorem SameStorage.of_blank (blank : v.array.Blank) (blank' : v'.array.Blank) :
    SameStorage v v' where
  length := by rw [blank.1, blank'.1]
  nAlloc := by rw [blank.2.1, blank'.2.1]
  block := by rw [blank.2.2, blank'.2.2]
  unmoved := fun some_ => absurd blank.2.2 some_

theorem SameStorage.blank (same : SameStorage v v') (blank' : v'.array.Blank) :
    v.array.Blank := by
  refine ⟨?_, same.nAlloc.symm.trans blank'.2.1, same.block.symm.trans blank'.2.2⟩
  rw [← List.length_eq_zero_iff, ← same.length, blank'.1, List.length_nil]

theorem HeapArray.init_blank (a : HeapArray) (itemSize : Nat) : (a.init itemSize).Blank :=
  ⟨rfl, rfl, rfl⟩

/-! ## Reading -/

theorem loadWord_counted (w : Nat) (m : List UInt8) (off : Nat) :
    Post (fun _ => True) Stop.Counted (loadWord w m off) := by
  unfold loadWord
  split
  · exact trivial
  · exact nofun

theorem readerVectorBasePtr_counted (p : OpenFile) (v : Value) :
    Post (fun _ => True) Stop.Counted (readerVectorBasePtr p v) := by
  unfold readerVectorBasePtr pcOffset
  split
  · exact nofun
  · split
    · exact trivial
    · exact nofun

theorem primSortProjCmpCmp_counted {t : NumberType} {item : Nat → Res Int}
    (reads : ∀ i, Post (fun _ => True) Stop.Counted (item i)) (a b : Nat) :
    Post (fun _ => True) Stop.Counted (primSortProjCmpCmp t item a b) := by
  unfold primSortProjCmpCmp
  apply (reads a).bind
  intro x _ _
  apply (reads b).bind
  intro y _ _
  split <;> exact trivial

theorem sliceItem_counted (p : OpenFile) (t : NumberType) (base : Nat) (sliceI sliceN : UInt32)
    (i : Nat) : Post (fun _ => True) Stop.Counted (sliceItem p t base sliceI sliceN i) := by
  unfold sliceItem
  split
  · exact Post.map (loadWord_counted _ _ _)
  · exact nofun

/-- A value vector is read, and compared, without counting down. -/
theorem sortProjValues_counted (o : PyObject) :
    Post (fun values => ∀ a b, Post (fun _ => True) Stop.Counted (values.cmpCmp a b)) Stop.Counted
      (sortProjValues o) := by
  cases o with
  | primVector v =>
      exact fun a b => primSortProjCmpCmp_counted (fun i => Post.map (loadWord_counted _ _ _)) a b
  | vector p v sliceI sliceN =>
      rw [sortProjValues]
      split
      · apply (readerVectorBasePtr_counted p v).bind
        intro base _ _
        exact fun a b => primSortProjCmpCmp_counted (sliceItem_counted p _ base sliceI sliceN) a b
      · split
        · exact fun a b => nofun
        · split <;> exact nofun
  | _ => exact nofun

theorem checkLengths_counted (first : UInt32) (rest : List SortValues) :
    Post (fun _ => True) Stop.Counted (checkLengths first rest) := by
  have checked : Post (fun _ => ∀ u ∈ rest, True) Stop.Counted (checkLengths first rest) := by
    apply Post.forM
    intro u _
    split
    · exact nofun
    · exact trivial
  exact checked.mono (fun _ _ => trivial) fun _ counted => counted

theorem sortProjChecks_counted (p : PyPointlessPrimVector) (args : List PyObject) :
    Post (fun checked => ∀ values, checked = some values → ∀ u ∈ values, ∀ a b,
      Post (fun _ => True) Stop.Counted (u.cmpCmp a b)) Stop.Counted (sortProjChecks p args) := by
  unfold sortProjChecks
  split
  · exact nofun
  split
  · exact nofun
  split
  · exact nofun
  apply (Post.mapM fun o _ => sortProjValues_counted o).bind
  intro values _ each
  apply (checkLengths_counted _ _).bind
  intro _ _ _
  dsimp only
  split
  · exact nofun
  · have bounds : Post (fun _ => True) Stop.Counted
        ((List.range (UInt32.ofNat p.array.nItems).toNat).foldlM (minMaxRound p) (0, 0)) := by
      apply Post.foldlM trivial
      intro m _ i _
      have item : Post (fun _ => True) Stop.Counted (primVectorItem p i) :=
        Post.map (loadWord_counted _ _ _)
      exact item.bind fun _ _ _ => trivial
    apply bounds.bind
    intro found _ _
    split
    · intro values' same
      cases same
      exact each
    · exact nofun

theorem sortProjCompare_counted {values : List SortValues}
    (each : ∀ u ∈ values, ∀ a b, Post (fun _ => True) Stop.Counted (u.cmpCmp a b)) (a b : Nat) :
    Post (fun _ => True) Stop.Counted (sortProjCompare values a b) := by
  induction values with
  | nil => exact trivial
  | cons u rest ih =>
      rw [List.forall_mem_cons] at each
      rw [sortProjCompare]
      apply (each.1 a b).bind
      intro c _ _
      split
      · exact ih each.2
      · exact trivial

/-! ## Methods that start -/

/-- The method keeps the storage. -/
abbrev OutcomeKept (v : PrimVectorObject) : PrimOutcome → Prop :=
  Post (fun out => SameStorage v out.2) Stop.Counted

theorem OutcomeKept.returns {method : PrimOutcome} (kept : OutcomeKept v method) :
    StorageKept v (primReturns method) := kept.bind fun _ _ same => same

/-- Sorting moves items about. -/
theorem sort_kept (v : PrimVectorObject) (fuel : Nat) : OutcomeKept v (primSort v fuel) := by
  unfold primSort
  cases NumberType.ofPrimType v.type with
  | none => exact SameStorage.refl v
  | some t =>
      have compares : ∀ i j items (own : Unit),
          Post (fun _ => True) Stop.Counted (primSortCmp v t i j items own) := by
        intro i j items own
        have reads : ∀ k, Post (fun _ => True) Stop.Counted
            (primElement (v.withArray { v.array with items := items }) t k) :=
          fun k => Post.map (loadWord_counted _ _ _)
        exact (primSortProjCmpCmp_counted reads i j).bind fun _ _ _ => trivial
      have keeps := arrayCallbacks_keeps_length compares nofun nofun v.array.items.length
      have start : (⟨v.array.items, ()⟩ : SortUser Nat Unit).items.length = v.array.items.length :=
        rfl
      apply Post.bind (keeps.bentleySort fuel _ start)
      intro out _ length
      exact SameStorage.withItems length

theorem sortProj_kept (v : PrimVectorObject) (fuel : Nat) (args : List PyObject) :
    OutcomeKept v (primSortProj v fuel args) := by
  unfold primSortProj
  cases NumberType.ofPrimType v.type with
  | none => exact SameStorage.refl v
  | some t =>
      have sorted : Post (fun out : PyPointlessPrimVector × Option String =>
          out.1.array.items.length = v.array.items.length) Stop.Counted
          (sortProj fuel ⟨v.array.toDynarray, t⟩ args) := by
        have checked := sortProjChecks_counted ⟨v.array.toDynarray, t⟩ args
        unfold sortProj
        split
        case h_1 => exact rfl
        case h_2 kind stopped => exact checked.of_error stopped
        case h_3 => exact rfl
        case h_4 values found =>
          have each := checked.of_ok found values rfl
          have compares : ∀ i j items (own : Unit), Post (fun _ => True) Stop.Counted
              (primSortProjCmp ⟨v.array.toDynarray, t⟩ values i j items own) := by
            intro i j items own
            have index : ∀ p k, Post (fun _ => True) Stop.Counted (sortProjIndex p k) :=
              fun p k => Post.map (Post.map (loadWord_counted _ _ _))
            refine (index _ i).bind fun a _ _ => (index _ j).bind fun b _ _ => ?_
            exact (sortProjCompare_counted each a b).bind fun _ _ _ => trivial
          have keeps := arrayCallbacks_keeps_length compares nofun nofun v.array.items.length
          have start : (⟨v.array.items, ()⟩ : SortUser Nat Unit).items.length =
              v.array.items.length := rfl
          apply Post.bind (keeps.bentleySort fuel _ start)
          intro out _ length
          exact length
      apply sorted.bind
      intro out _ length
      exact SameStorage.withItems length

theorem assItem_sameStorage {i : Int} {value : PyOperand}
    (assigned : primAssItem v i value = .ok v') : SameStorage v v' := by
  unfold primAssItem at assigned
  split at assigned
  case isTrue => cases assigned
  case isFalse =>
    obtain ⟨word, _, same⟩ := bind_eq_ok.mp assigned
    cases same
    exact SameStorage.withItems (List.length_set ..)

theorem assign_kept (v : PrimVectorObject) (item : Int) (value : PyOperand) :
    OutcomeKept v (primAssSubscript v item value) := by
  unfold primAssSubscript
  split
  case isTrue => exact SameStorage.refl v
  case isFalse =>
    cases assigned : primAssItem v (if item < 0 then item + primObSize v else item) value with
    | error message => exact SameStorage.refl v
    | ok w => exact assItem_sameStorage assigned

theorem popBulk_kept {n : Int}
    (none_ : ¬(0 < n ∧ n ≤ v.array.items.length ∧ n < 2 ^ 63)) :
    OutcomeKept v (primPopBulk v n) := by
  unfold primPopBulk
  split
  case isTrue => exact SameStorage.refl v
  case isFalse fits =>
    split
    case isTrue => exact SameStorage.refl v
    case isFalse enough =>
      have notPositive : n ≤ 0 := by
        by_contra positive
        apply none_
        refine ⟨by omega, ?_, by omega⟩
        by_contra few
        exact enough ⟨by omega, by simpa only [Dynarray.nItems] using Int.not_le.mp few⟩
      rw [Int.toNat_of_nonpos notPositive]
      exact SameStorage.refl v

/-- A `pop_bulk` of some items changes their number. -/
theorem popBulk_breaks {n : Int} (positive : 0 < n) (enough : n ≤ v.array.items.length)
    (fits : n < 2 ^ 63) : ¬OutcomeKept v (primPopBulk v n) := by
  have pops : primPopBulk v n = .ok (.ok .none, v.withArray (v.array.popN n.toNat)) := by
    unfold primPopBulk
    rw [if_neg (by omega), if_neg]
    intro short
    have few : (v.array.items.length : Int) < n := short.2
    omega
  rw [pops]
  intro kept
  have left := kept.length
  simp only [PrimVectorObject.withArray, HeapArray.popN_eq, List.length_take] at left
  omega

/-- While there are exports, the first step of a method keeps the storage, but for such a
`pop_bulk`. -/
theorem start_kept_iff (alloc : Allocator) (inPlace : Nat → Bool) (fuel : Nat)
    {sys : PrimVectorSystem} (exported : 0 < sys.object.obExports) (op : PrimVectorOp) :
    StorageKept sys.object (op.start alloc inPlace fuel sys.object) ↔
      ¬(PrimVectorAction.call op).Breaks alloc sys := by
  have refuses : primCanResize sys.object = .error _ := if_pos exported
  have same := SameStorage.refl sys.object
  cases op with
  | popBulk n =>
      constructor
      · intro kept breaks
        apply popBulk_breaks breaks.2.1 breaks.2.2.1 breaks.2.2.2
        rw [PrimVectorOp.start, primReturns] at kept
        cases pops : primPopBulk sys.object n with
        | error stop =>
            rw [pops] at kept
            exact kept
        | ok out =>
            rw [pops] at kept
            exact kept
      · intro none_
        exact (popBulk_kept fun breaks => none_ ⟨exported, breaks⟩).returns
  | init =>
      refine iff_of_true ?_ id
      rw [PrimVectorOp.start, primInitStart, refuses]
      exact same
  | append obj =>
      refine iff_of_true (OutcomeKept.returns ?_) id
      rw [primAppend, refuses]
      exact same
  | appendBulk obj =>
      refine iff_of_true ?_ id
      rw [PrimVectorOp.start, primAppendBulkStart, refuses]
      exact same
  | pop =>
      refine iff_of_true (OutcomeKept.returns ?_) id
      simp only [primPop, refuses]
      split <;> exact same
  | remove arg =>
      refine iff_of_true ?_ id
      rw [PrimVectorOp.start, primRemoveStart, refuses]
      exact same
  | clear =>
      refine iff_of_true (OutcomeKept.returns ?_) id
      rw [primClear, refuses]
      exact same
  | sort => exact iff_of_true (sort_kept sys.object fuel).returns id
  | sortProj args => exact iff_of_true (sortProj_kept sys.object fuel args).returns id
  | assign item value => exact iff_of_true (assign_kept sys.object item value).returns id
  | getBuffer => exact iff_of_true ⟨rfl, rfl, rfl, fun _ => rfl⟩ id
  | releaseBuffer => exact iff_of_true ⟨rfl, rfl, rfl, fun _ => rfl⟩ id

/-! ## Methods that go on -/

/-- The array has items in a block that was asked for after this one. -/
def HeapArray.FilledAfter (a : HeapArray) (requests : Nat) : Prop :=
  a.items ≠ [] ∧ a.block ≠ none ∧ requests < a.requests

theorem HeapArray.grow_served {alloc : Allocator} {a : HeapArray}
    (served : (a.grow alloc).1 = true) :
    (a.grow alloc).2.requests = a.requests + 1 ∧ (a.grow alloc).2.block = some a.requests := by
  unfold grow at served ⊢
  cases bytes : a.nextBytes with
  | none =>
      rw [bytes] at served
      cases served
  | some nBytes =>
      rw [bytes] at served
      dsimp only at served ⊢
      by_cases granted : alloc a.requests nBytes = true
      · rw [if_pos granted]
        exact ⟨rfl, rfl⟩
      · rw [if_neg granted] at served
        cases served

theorem HeapArray.FilledAfter.pushed {alloc : Allocator} {a : HeapArray} {requests : Nat}
    (filled : a.FilledAfter requests) (room : (a.reserve alloc).1 = true) (word : Nat) :
    (a.pushed alloc word).FilledAfter requests := by
  refine ⟨List.append_ne_nil_of_right_ne_nil _ (List.cons_ne_nil _ _), ?_⟩
  rw [HeapArray.pushed]
  by_cases full : a.nAlloc < a.items.length + 1
  · have reserves : a.reserve alloc = a.grow alloc := if_pos full
    rw [reserves] at room
    obtain ⟨more, block⟩ := grow_served room
    rw [reserves, block, more]
    exact ⟨Option.some_ne_none _, Nat.lt_succ_of_lt filled.2.2⟩
  · have reserves : a.reserve alloc = (true, a) := if_neg full
    rw [reserves]
    exact filled.2

/-- The first item comes into a block of its own. -/
theorem HeapArray.Blank.pushed {alloc : Allocator} {a : HeapArray} (blank : a.Blank)
    (room : (a.reserve alloc).1 = true) (word : Nat) :
    (a.pushed alloc word).FilledAfter a.requests := by
  refine ⟨List.append_ne_nil_of_right_ne_nil _ (List.cons_ne_nil _ _), ?_⟩
  have full : a.nAlloc < a.items.length + 1 := by
    rw [blank.2.1]
    exact Nat.zero_lt_succ _
  have reserves : a.reserve alloc = a.grow alloc := if_pos full
  rw [reserves] at room
  obtain ⟨more, block⟩ := grow_served room
  rw [HeapArray.pushed, reserves, block, more]
  exact ⟨Option.some_ne_none _, Nat.lt_succ_self _⟩

/-- A loop that pushes words does so exactly where there is room for them. -/
theorem primPushLoop_hasRoom (alloc : Allocator) {item : Nat → HeapArray → Res Nat}
    {words : List Nat} {i : Nat} {a : HeapArray} (reads : ReadsWords item i words) :
    (a.HasRoom alloc words ∧ ∃ n a', primPushLoop alloc item words.length i a = .ok (true, n, a') ∧
      ∀ requests, a.FilledAfter requests → a'.FilledAfter requests) ∨
    (¬a.HasRoom alloc words ∧
      ∃ n a', primPushLoop alloc item words.length i a = .ok (false, n, a')) := by
  induction words generalizing i a with
  | nil => exact .inl ⟨trivial, i, a, rfl, fun _ => id⟩
  | cons word words ih =>
      rw [List.length_cons, primPushLoop, reads.first, HeapArray.push_eq]
      by_cases room : (a.reserve alloc).1 = true
      · rw [if_pos room]
        rcases ih (a := a.pushed alloc word) reads.later with
          ⟨rest, n, a', ran, filled⟩ | ⟨short, n, a', ran⟩
        · refine .inl ⟨⟨room, rest⟩, n, a', ran, fun requests before => ?_⟩
          exact filled requests (before.pushed room word)
        · exact .inr ⟨fun both => short both.2, n, a', ran⟩
      · rw [if_neg room]
        exact .inr ⟨fun both => room both.1, i, _, rfl⟩

/-- A new array is filled by such a loop where there are words, and room for them. -/
theorem primPushLoop_blank (alloc : Allocator) {item : Nat → HeapArray → Res Nat}
    {words : List Nat} {i : Nat} {a : HeapArray} (blank : a.Blank)
    (reads : ReadsWords item i words) :
    ((words ≠ [] ∧ a.HasRoom alloc words) ∧ ∃ n a',
      primPushLoop alloc item words.length i a = .ok (true, n, a') ∧
        a'.FilledAfter a.requests) ∨
    (¬(words ≠ [] ∧ a.HasRoom alloc words) ∧ ∃ added n a',
      primPushLoop alloc item words.length i a = .ok (added, n, a') ∧
        (added = true → a'.Blank)) := by
  cases words with
  | nil => exact .inr ⟨fun both => both.1 rfl, true, i, a, rfl, fun _ => blank⟩
  | cons word words =>
      rw [List.length_cons, primPushLoop, reads.first, HeapArray.push_eq]
      by_cases room : (a.reserve alloc).1 = true
      · rw [if_pos room]
        rcases primPushLoop_hasRoom alloc (a := a.pushed alloc word) reads.later with
          ⟨rest, n, a', ran, filled⟩ | ⟨short, n, a', ran⟩
        · refine .inl ⟨⟨List.cons_ne_nil _ _, room, rest⟩, n, a', ran, ?_⟩
          exact filled _ (blank.pushed room word)
        · exact .inr ⟨fun both => short both.2.2, false, n, a', ran, Bool.noConfusion⟩
      · rw [if_neg room]
        exact .inr ⟨fun both => room both.2.1, false, i, _, rfl, Bool.noConfusion⟩

/-- The branch of the constructor for a buffer fills the array where it can. -/
theorem primInitBuffer_cases (alloc : Allocator) (v : PrimVectorObject) (b : List UInt8) :
    ((bufferArgs b).Fills alloc v.array ∧
      ∃ v', primInitBuffer alloc v b = .ok (.ok false, v') ∧
        v'.array.FilledAfter v.array.requests) ∨
    (¬(bufferArgs b).Fills alloc v.array ∧ ∃ outcome v', primInitBuffer alloc v b = .ok (outcome, v') ∧
      ∀ sequence, outcome = .ok sequence → v'.array.Blank) := by
  by_cases long : 8 ≤ b.length
  · rw [primInitBuffer_eq v long]
    cases type : NumberType.ofPrimType (UInt8.ofNat (typeWord b)) with
    | none =>
        refine .inr ⟨?_, _, _, rfl, nofun⟩
        rintro ⟨-, -, _, t, same, -, found, -⟩
        cases same
        rw [type] at found
        cases found
    | some t =>
        have fills : (bufferArgs b).Fills alloc v.array ↔ b.length = t.size * countWord b + 8 ∧
            0 < countWord b ∧
            (v.array.init t.size).HasRoom alloc (wordsAt t.size 8 (countWord b) b) := by
          constructor
          · rintro ⟨-, -, _, t', same, -, found, rest⟩
            cases same
            rw [type] at found
            cases found
            exact rest
          · intro rest
            exact ⟨rfl, rfl, b, t, rfl, long, type, rest⟩
        rw [fills]
        dsimp only
        by_cases length : b.length = t.size * countWord b + 8
        · rw [if_neg (not_not_intro length)]
          have reads := readsWords_wordsAt (b := b) (w := t.size) (m := countWord b) (by omega)
          have count := length_wordsAt t.size 8 (countWord b) b
          have some_ : wordsAt t.size 8 (countWord b) b ≠ [] ↔ 0 < countWord b := by
            rw [← List.length_pos_iff, count]
          have pushes := primPushLoop_blank alloc (v.array.init_blank t.size) reads
          rw [count, some_] at pushes
          rcases pushes with ⟨room, n, a, ran, filled⟩ | ⟨short, added, n, a, ran, blank⟩
          · rw [ran]
            exact .inl ⟨⟨length, room⟩, _, rfl, filled⟩
          · rw [ran]
            refine .inr ⟨fun rest => short rest.2, _, _, rfl, fun sequence same => blank ?_⟩
            cases added with
            | true => rfl
            | false => cases same
        · rw [if_pos length]
          exact .inr ⟨fun rest => length rest.1, _, _, rfl, nofun⟩
  · rw [primInitBuffer, if_pos (Nat.lt_of_not_le long)]
    refine .inr ⟨?_, _, _, rfl, nofun⟩
    rintro ⟨-, -, _, t, same, enough, -⟩
    cases same
    exact long enough

theorem primInitArgs_cases (alloc : Allocator) (v : PrimVectorObject) (args : InitArgs) :
    (args.Fills alloc v.array ∧ ∃ v', primInitArgs alloc v args = .ok (.ok false, v') ∧
      v'.array.FilledAfter v.array.requests) ∨
    (¬args.Fills alloc v.array ∧ ∃ outcome v', primInitArgs alloc v args = .ok (outcome, v') ∧
      ∀ sequence, outcome = .ok sequence → v'.array.Blank) := by
  obtain ⟨type, buffer, sequence, allowPrint⟩ := args
  obtain ⟨w, printing, array⟩ : ∃ w : PrimVectorObject,
      (if allowPrint = some false then { v with allowPrint := 0 } else v) = w ∧
        w.array = v.array := by
    refine ⟨_, rfl, ?_⟩
    split <;> rfl
  rw [← array, primInitArgs]
  dsimp only
  rw [printing]
  cases type with
  | some type =>
      refine .inr ⟨fun fills => absurd fills.1 (Option.some_ne_none type), ?_⟩
      cases buffer with
      | some b => exact ⟨_, _, rfl, nofun⟩
      | none =>
          dsimp only
          rw [primInitType]
          split
          · exact ⟨_, _, rfl, nofun⟩
          case h_2 t found => exact ⟨_, _, rfl, fun _ _ => w.array.init_blank t.size⟩
  | none =>
      cases buffer with
      | none =>
          refine .inr ⟨?_, _, _, rfl, nofun⟩
          rintro ⟨-, -, b, t, same, -⟩
          cases same
      | some b =>
          cases sequence with
          | true =>
              exact .inr ⟨fun fills => Bool.noConfusion fills.2.1, _, _, rfl, nofun⟩
          | false =>
              have same : ∀ allowPrint, (⟨none, some b, false, allowPrint⟩ : InitArgs).Fills alloc
                  w.array ↔ (bufferArgs b).Fills alloc w.array := fun _ => Iff.rfl
              rw [same]
              exact primInitBuffer_cases alloc w b

/-- The constructor empties the array, or fills it from its buffer. -/
theorem primInitParsed_cases (alloc : Allocator) (v : PrimVectorObject) (args : InitArgs) :
    (args.Fills alloc v.array ∧ ∃ segment v', primInitParsed alloc v (.ok args) = .ok (segment, v') ∧
      v'.array.FilledAfter v.array.requests) ∨
    (¬args.Fills alloc v.array ∧ ∃ segment v',
      primInitParsed alloc v (.ok args) = .ok (segment, v') ∧ v'.array.Blank) := by
  rcases primInitArgs_cases alloc v args with
    ⟨fills, v', parsed, filled⟩ | ⟨notFills, outcome, v', parsed, empties⟩
  · rw [primInitParsed, parsed]
    exact .inl ⟨fills, _, _, rfl, filled⟩
  · refine .inr ⟨notFills, ?_⟩
    rw [primInitParsed, parsed, ok_bind]
    cases outcome with
    | error message => exact ⟨_, _, rfl, v'.array.init_blank v'.array.itemSize⟩
    | ok sequence => cases sequence <;> exact ⟨_, _, rfl, empties _ rfl⟩

theorem primInitParsed_kept_iff (alloc : Allocator) (v : PrimVectorObject) (args : InitArgs) :
    StorageKept v (primInitParsed alloc v (.ok args)) ↔
      ¬(¬v.array.Blank ∨ args.Fills alloc v.array) := by
  rcases primInitParsed_cases alloc v args with
    ⟨fills, segment, v', parsed, filled⟩ | ⟨notFills, segment, v', parsed, blank⟩
  · rw [parsed]
    refine iff_of_false (fun same => ?_) fun none_ => none_ (.inr fills)
    -- the block of before would be the new one, which was asked for later
    have block : v.array.block ≠ none := same.block ▸ filled.2.1
    exact Nat.ne_of_gt filled.2.2 (same.unmoved block)
  · rw [parsed]
    constructor
    · intro same resizes
      rcases resizes with notBlank | fills
      · exact notBlank (SameStorage.blank same blank)
      · exact notFills fills
    · intro none_
      have blank' : v.array.Blank := by
        by_contra notBlank
        exact none_ (.inl notBlank)
      exact SameStorage.of_blank blank' blank

/-- The array is emptied after an exception. -/
theorem primInitCleanup_kept_iff (v : PrimVectorObject) (message : String) :
    StorageKept v (.ok (primInitCleanup v message)) ↔ ¬¬v.array.Blank := by
  have blank := v.array.init_blank v.array.itemSize
  rw [not_not]
  constructor
  · intro same
    exact SameStorage.blank same blank
  · intro blank'
    exact SameStorage.of_blank blank' blank

theorem primDropped_kept_iff (v : PrimVectorObject) (message : String) (nAppend : Nat) :
    StorageKept v (primDropped v .appendBulk (some message) nAppend) ↔ ¬0 < nAppend := by
  rw [primDropped, HeapArray.popMany]
  split
  case isTrue enough =>
    change SameStorage v (v.withArray (v.array.popN nAppend)) ↔ _
    constructor
    · intro same positive
      have left := same.length
      simp only [PrimVectorObject.withArray, HeapArray.popN_eq, List.length_take] at left
      omega
    · intro none_
      obtain rfl : nAppend = 0 := Nat.eq_zero_of_not_pos none_
      exact SameStorage.refl v
  case isFalse few =>
    refine iff_of_false (fun counted => counted rfl) fun none_ => ?_
    omega

/-- A search finds one of the positions it looks at. -/
theorem primSearchLoop_post {α : Type} {item : Nat → Res α} {found : α → Bool}
    (reads : ∀ i, Post (fun _ => True) Stop.Counted (item i)) (left i : Nat) :
    Post (fun out => ∀ j, out = some j → j < i + left) Stop.Counted
      (primSearchLoop item found left i) := by
  induction left generalizing i with
  | zero => exact nofun
  | succ left ih =>
      rw [primSearchLoop]
      apply (reads i).bind
      intro a _ _
      split
      · intro j same
        cases same
        exact Nat.lt_add_of_pos_right (Nat.zero_lt_succ left)
      · rw [← Nat.succ_add_eq_add_succ]
        exact ih (i + 1)

/-- The item that is found is taken out. -/
theorem primRemoveFound_ok {i : Nat} (inside : i < v.array.items.length) :
    ∃ v', primRemoveFound v (.ok i) = .ok (.ok .none, v') ∧
      v'.array.items.length + 1 = v.array.items.length := by
  have items : v.array.items =
      v.array.items.take i ++ v.array.items[i] :: v.array.items.drop (i + 1) := by
    rw [List.getElem_cons_drop, List.take_append_drop]
  have first : (v.array.items.take i).length = i := List.length_take_of_le (Nat.le_of_lt inside)
  have rounds : v.array.nItems - 1 - i = (v.array.items.drop (i + 1)).length := by
    rw [Dynarray.nItems, List.length_drop]
    omega
  have swapped := HeapArray.swaps_to_end v.array items
  rw [first, ← rounds] at swapped
  rw [primRemoveFound, swapped, ok_bind]
  refine ⟨_, rfl, ?_⟩
  simp only [PrimVectorObject.withArray, HeapArray.pop, List.dropLast_concat, List.length_append,
    List.length_take, List.length_drop]
  omega

theorem primRemoveParsed_kept_iff (v : PrimVectorObject) (ff : FloatOperand) :
    StorageKept v (primRemoveParsed v (.ok ff)) ↔ ¬∃ i, primIndexF v ff = .ok (some i) := by
  have reads : ∀ k, Post (fun _ => True) Stop.Counted (primElement v .float k) :=
    fun k => Post.map (loadWord_counted _ _ _)
  have searched : Post (fun out => ∀ j, out = some j → j < 0 + primSearchLength v) Stop.Counted
      (primIndexF v ff) := primSearchLoop_post reads _ _
  rw [primRemoveParsed, primIndexParsed]
  cases found : primIndexF v ff with
  | error stop =>
      have counted := searched.of_error found
      refine iff_of_true counted ?_
      rintro ⟨i, same⟩
      cases same
  | ok out =>
      cases out with
      | none =>
          refine iff_of_true (SameStorage.refl v) ?_
          rintro ⟨i, same⟩
          cases same
      | some i =>
          have inside : i < v.array.items.length := by
            have less := searched.of_ok found i rfl
            have few : primSearchLength v ≤ v.array.items.length := Nat.mod_le _ _
            omega
          obtain ⟨v', removed, length⟩ := primRemoveFound_ok inside
          refine iff_of_false ?_ fun none_ => none_ ⟨i, rfl⟩
          have found_ : primFound "remove" (some i) = .ok i := rfl
          rw [map_ok, ok_bind, found_, removed]
          intro same
          have left : v'.array.items.length = v.array.items.length := same.length
          omega

/-- While there are exports, a method that goes on keeps the storage, unless it resizes with its
answer. -/
theorem primResume_kept_iff (alloc : Allocator) (exported : 0 < v.obExports) (code : PyCode)
    (reply : PyAnswer) :
    StorageKept v (primResume alloc v code reply) ↔ ¬code.Resizes alloc v reply := by
  have same := SameStorage.refl v
  cases code with
  | parseArgs =>
      cases reply with
      | args args =>
          cases args with
          | error message => exact iff_of_true same id
          | ok args => exact primInitParsed_kept_iff alloc v args
      | _ => exact iff_of_true same id
  | getIter method =>
      cases reply with
      | iter outcome =>
          cases outcome with
          | ok => cases method <;> exact iff_of_true same id
          | error message =>
              cases method with
              | init => exact primInitCleanup_kept_iff v message
              | appendBulk => exact iff_of_true same id
      | _ => cases method <;> exact iff_of_true same id
  | next method nAppend =>
      cases reply with
      | item answer =>
          refine iff_of_true ?_ id
          rcases answer with _ | ⟨message | item⟩
          · exact same
          · exact same
          · have refuses : primCanResize v = .error _ := if_pos exported
            rw [primResume, primNext, primAppendItem, refuses]
            exact same
      | _ => exact iff_of_true same id
  | dropIter method raised nAppend =>
      cases reply with
      | dropped =>
          cases raised with
          | none => cases method <;> exact iff_of_true same id
          | some message =>
              cases method with
              | init => exact primInitCleanup_kept_iff v message
              | appendBulk => exact primDropped_kept_iff v message nAppend
      | _ => cases method <;> cases raised <;> exact iff_of_true same id
  | parseFloat =>
      cases reply with
      | float parsed =>
          cases parsed with
          | error message => exact iff_of_true same id
          | ok ff => exact primRemoveParsed_kept_iff v ff
      | _ => exact iff_of_true same id

/-! ## Runs -/

section Runs

variable (alloc : Allocator) (inPlace : Nat → Bool)

/-- One step keeps what is exported exactly where it breaks nothing. -/
theorem step_kept_iff (sys : PrimVectorSystem) (fuel : Nat) (action : PrimVectorAction) :
    (0 < sys.object.obExports → Post (fun sys' => SameStorage sys.object sys'.object) Stop.Counted
      (sys.step alloc inPlace fuel action)) ↔ ¬action.Breaks alloc sys := by
  by_cases exported : 0 < sys.object.obExports
  · rw [forall_prop_of_true exported]
    cases action with
    | call op =>
        rw [← start_kept_iff alloc inPlace fuel exported op, PrimVectorSystem.step]
        cases op.start alloc inPlace fuel sys.object <;> exact Iff.rfl
    | answer i reply =>
        rw [PrimVectorSystem.step]
        cases at_i : sys.waiting[i]? with
        | none =>
            refine iff_of_true (SameStorage.refl sys.object) ?_
            rintro ⟨-, code, found, -⟩
            rw [at_i] at found
            cases found
        | some code =>
            have breaks : (PrimVectorAction.answer i reply).Breaks alloc sys ↔
                code.Resizes alloc sys.object reply := by
              constructor
              · rintro ⟨-, code', found, resizes⟩
                rw [at_i] at found
                cases found
                exact resizes
              · intro resizes
                exact ⟨exported, code, at_i, resizes⟩
            rw [breaks, ← primResume_kept_iff alloc exported]
            dsimp only
            cases primResume alloc sys.object code reply <;> exact Iff.rfl
  · refine iff_of_true (fun yes => absurd yes exported) fun breaks => exported ?_
    cases action with
    | call op =>
        cases op with
        | popBulk n => exact breaks.1
        | _ => exact breaks.elim
    | answer i reply => exact breaks.1

/-- A run changes nothing that is exported exactly where none of its actions does. -/
theorem exportsKept_iff (sys : PrimVectorSystem) (actions : List PrimVectorAction) :
    ExportsKept alloc inPlace sys actions ↔ NoneBreaks alloc inPlace sys actions := by
  induction actions generalizing sys with
  | nil => exact Iff.rfl
  | cons action rest ih =>
      constructor
      · intro kept
        refine ⟨(step_kept_iff alloc inPlace sys 0 action).mp (kept 0).1, ?_⟩
        intro fuel sys' stepped
        exact (ih sys').mp ((kept fuel).2 sys' stepped)
      · intro none_ fuel
        refine ⟨(step_kept_iff alloc inPlace sys fuel action).mpr none_.1, ?_⟩
        intro sys' stepped
        exact (ih sys').mpr (none_.2 fuel sys' stepped)

variable {alloc inPlace}

/-- What holds of a run holds of what is left after some of its steps. -/
theorem ExportsKept.after (fuel : Nat) (first : List PrimVectorAction)
    {sys sys' : PrimVectorSystem} {rest : List PrimVectorAction}
    (kept : ExportsKept alloc inPlace sys (first ++ rest))
    (ran : sys.run alloc inPlace fuel first = .ok sys') : ExportsKept alloc inPlace sys' rest := by
  induction first generalizing sys with
  | nil =>
      cases ran
      exact kept
  | cons action first ih =>
      obtain ⟨next, stepped, ran⟩ := bind_eq_ok.mp ran
      exact ih ((kept fuel).2 next stepped) ran

/-- `PrimVector("i8", sequence=[1])`, a memory view of it, and `pop_bulk(1)`. -/
theorem exportsKept_pop_bulk :
    ¬ExportsKept (fun _ _ => true) (fun _ => false) ⟨primNew, []⟩
      [.call .init, .answer 0 (.args (.ok ⟨some "i8", none, true, none⟩)),
        .answer 0 (.iter (.ok ())), .answer 0 (.item (some (.ok (some (.int 1))))),
        .answer 0 (.item none), .answer 0 .dropped, .call .getBuffer, .call (.popBulk 1)] := by
  intro kept
  have viewed : ExportsKept (fun _ _ => true) (fun _ => false)
      ⟨⟨1, 1, ⟨⟨1, [1]⟩, 1, some 0, 1⟩, 0⟩, []⟩ [.call (.popBulk 1)] :=
    ExportsKept.after 0 [_, _, _, _, _, _, _] kept rfl
  have popped := (viewed 0).1 (by decide)
  exact absurd popped.length (by decide)

end Runs

end Storage

end Pointless
