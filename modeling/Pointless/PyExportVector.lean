import Pointless.PyFileVectorSlices
import Pointless.RecreateRuns

/-!
# Slices of file vectors that are written

`pointless_export_py_rec` for a `PyPointlessVector`: the items of a vector of numbers are
handed over from the first one of the slice on, and as many as the slice has, but a value
vector is re-created as a whole. `sliceExport_iff` says what this comes to.
-/

namespace Pointless

open Attempts ByteMemory ExceptRules Unfolding

/-! ## The branch of the vectors -/

/-- The cases of the vectors of numbers. -/
def exportVectorOwner (c : Create) (v : PyPointlessVector) (t : NumberType) : ExportOutcome := do
  let items ← ownerItems v.pp v.v t v.sliceI v.sliceN
  let (handle, c) := t.owner c items v.sliceN
  pure (.ok handle, c)

/-- The case of the value vectors. -/
def exportVectorValue (fuel : Nat) (c : Create) (v : PyPointlessVector) : ExportOutcome := do
  match ← recreateValue fuel v.pp v.v c with
  | (.ok handle, c) => pure (.ok handle, c)
  | (.error error, c) => pure (.error ("pointless_recreate_value(): " ++ error), c)

/-- The branch for a `PyPointlessVector`. -/
def exportVector (fuel : Nat) (c : Create) (v : PyPointlessVector) : ExportOutcome :=
  match v.v.type with
  | .vectorValue | .vectorValueHashable => exportVectorValue fuel c v
  | .vectorI8 => exportVectorOwner c v .i8
  | .vectorU8 => exportVectorOwner c v .u8
  | .vectorI16 => exportVectorOwner c v .i16
  | .vectorU16 => exportVectorOwner c v .u16
  | .vectorI32 => exportVectorOwner c v .i32
  | .vectorU32 => exportVectorOwner c v .u32
  | .vectorI64 => exportVectorOwner c v .i64
  | .vectorU64 => exportVectorOwner c v .u64
  | .vectorFloat => exportVectorOwner c v .float
  | .vectorEmpty =>
      let (handle, c) := createVectorValue c
      .ok (.ok handle, c)
  | _ => .ok (.error "internal error: illegal type for primitive vector", c)

/-- `pointless_export_py_rec` for a `PyPointlessVector`. -/
def exportPyVector (fuel : Nat) (state : ExportState) (pyObject : Nat) (v : PyPointlessVector)
    (depth : Nat) : Res (Except String UInt32 × ExportState) :=
  exportTracked state pyObject depth (exportVector fuel state.c v)

/-! ## What a slice is to become -/

/-- The handle is that of a vector whose items denote those that are visible, in order. -/
def DenotesSlice (c : Create) (handle : UInt32) (v : PyPointlessVector) : Prop :=
  ∃ label items copies, vectorNode v.pp v.v v.sliceI.toNat v.sliceN.toNat = .ok (label, items) ∧
    handleNode c handle = .ok (label, copies) ∧
    List.Forall₂ (Alike (fileNode v.pp) (handleNode c)) items copies

/-- A value vector is visible as a whole, and of the values below it those that have one place
in the mappings are read the same. -/
def WholeAndAlike (v : PyPointlessVector) : Prop :=
  v.v.type = .vectorValue ∨ v.v.type = .vectorValueHashable →
    v.sliceI = 0 ∧ readerVectorNItems v.pp v.v = .ok v.sliceN ∧
      KeyedAlike (fileNode v.pp) slotKey v.v

/-! ## Windows -/

section Windows

variable {p : OpenFile} {v : Value} {self sliced whole : PyPointlessVector} {nItems : UInt32}

/-- Only slices with step 1 are taken. -/
theorem unitStep_of_sliced {s : PySlice} (ran : pyVectorSubscriptSlice self s = .ok sliced) :
    s.UnitStep := by
  obtain ⟨⟨start, stop, step⟩, indices, rest⟩ := bind_eq_ok.mp ran
  have one : step = 1 := by
    by_contra other
    simp only [ne_eq, other, not_false_eq_true, if_true] at rest
    cases rest
  subst one
  unfold getIndicesEx at indices
  dsimp only at indices
  split at indices
  case isTrue => cases indices
  case isFalse =>
    cases given : s.step with
    | none => exact .inl given
    | some k =>
        have same : evalSliceIndex k = 1 := by
          rw [given] at indices
          exact congrArg (fun result : Int × Int × Int => result.2.2) (Except.ok.inj indices)
        unfold evalSliceIndex at same
        obtain rfl : k = 1 := by omega
        exact .inr given

/-- A chain of slices of a vector is a window on it. -/
theorem windowOf_slices (count : readerVectorNItems p v = .ok nItems)
    (value : pypointlessValue p v = .ok (.vector whole)) (type : isVectorType v.type = true)
    {slices : List PySlice} (ran : pyVectorSlices whole slices = .ok sliced) :
    sliced.WindowOf p v nItems := by
  have start : whole.WindowOf p v nItems := by
    cases (pypointlessValue_vector type count).symm.trans value
    exact ⟨rfl, rfl, Nat.le_of_eq (Nat.zero_add _)⟩
  refine foldlM_kept (I := fun v' => PyPointlessVector.WindowOf v' p v nItems) start ?_ ran
  intro self sliced s _ window step
  obtain ⟨sliced', step', window', -⟩ := window.subscriptSlice count (unitStep_of_sliced step)
  cases step.symm.trans step'
  exact window'

end Windows

/-! ## Outcomes -/

/-- An export has ended with a handle where `made` holds, or the handles are used up. -/
def EndsWith (out : ExportOutcome) (made : UInt32 → Create → Prop) : Prop :=
  (∃ error c, out = .ok (.error error, c) ∧ 2 ^ 32 ≤ c.values.length) ∨
    ∃ handle c, out = .ok (.ok handle, c) ∧
      (handle = createValueFail ∧ 2 ^ 32 ≤ c.values.length ∨
        handle ≠ createValueFail ∧ made handle c)

section Outcomes

variable {p : OpenFile} {v : Value} {self : PyPointlessVector} {nItems : UInt32} {c : Create}

/-- A content without children, created by one call. -/
theorem endsWith_call (call : Call) (reachable : CreateReachable c) (valid : call.Valid c)
    (narrow : call.Narrow) {content : Content} {label : NodeLabel}
    (created : call.created = some content) (isNode : content.node = some (label, [])) :
    EndsWith ((fun out => (.ok out.1, out.2)) <$> call.run c)
      fun handle c' => handleNode c' handle = .ok (label, []) := by
  obtain ⟨answer, c', ran, full⟩ := reachable.run_created valid narrow created
  refine .inr ⟨answer, c', by rw [ran, map_ok], ?_⟩
  by_cases failed : answer = createValueFail
  · exact .inl ⟨failed, full failed⟩
  · have created := reachable.created valid narrow created ran failed
    exact .inr ⟨failed, created.denotes.handleNode isNode⟩

theorem EndsWith.mono {out : ExportOutcome} {made weaker : UInt32 → Create → Prop}
    (ends : EndsWith out made) (weaken : ∀ handle c, made handle c → weaker handle c) :
    EndsWith out weaker := by
  rcases ends with failed | ⟨handle, c, ran, full | ⟨some_, here⟩⟩
  · exact .inl failed
  · exact .inr ⟨handle, c, ran, .inl full⟩
  · exact .inr ⟨handle, c, ran, .inr ⟨some_, weaken handle c here⟩⟩

/-- A slice of a vector of numbers is what its items are. -/
theorem exportVectorOwner_ends (sound : p.Sound) (reach : Reachable p v)
    (window : self.WindowOf p v nItems) (count : readerVectorNItems p v = .ok nItems)
    (reachable : CreateReachable c) {t : NumberType} (type : v.type = t.vectorType) :
    EndsWith (exportVectorOwner c self t) fun handle c' => DenotesSlice c' handle self := by
  obtain ⟨pp, w, i, n⟩ := self
  obtain ⟨rfl, rfl, inside⟩ := window
  change i.toNat + n.toNat ≤ nItems.toNat at inside
  obtain ⟨total, word, count', words, parts⟩ := sound.numberItems reach type
  cases count.symm.trans count'
  obtain ⟨items, read, size, same⟩ := parts i n inside
  let label := numbersLabel t ((List.range n.toNat).map fun k => word (i.toNat + k))
  have node : vectorNode pp w i.toNat n.toNat = .ok (label, []) := by
    apply vectorNode_numbers type
    intro k less
    exact words _ (by omega)
  have isNode : (if n = 0 then Content.inline .vectorEmpty 0
      else .owned t.vectorType items n).node = some (label, []) := by
    split
    case isTrue empty =>
      subst empty
      rfl
    case isFalse => rw [Content.node_owned, same]
  have made : exportVectorOwner c ⟨pp, w, i, n⟩ t =
      (fun out => (.ok out.1, out.2)) <$> (Call.vectorOwner t items n).run c := by
    rw [exportVectorOwner, read, ok_bind]
    rfl
  rw [made]
  have ends := endsWith_call (.vectorOwner t items n) reachable size trivial rfl isNode
  refine ends.mono fun handle c' there => ?_
  exact ⟨label, [], [], node, there, .nil⟩

theorem exportEmpty_ends (type : self.v.type = .vectorEmpty) (reachable : CreateReachable c) :
    EndsWith (.ok (.ok (createVectorValue c).1, (createVectorValue c).2))
      fun handle c' => DenotesSlice c' handle self := by
  have node : vectorNode self.pp self.v self.sliceI.toNat self.sliceN.toNat = .ok (.vector, []) := by
    unfold vectorNode
    rw [type]
    rfl
  have ends := endsWith_call .vectorValue reachable trivial trivial rfl rfl
  exact ends.mono fun handle c' there => ⟨.vector, [], [], node, there, .nil⟩

/-- A slice of a value vector becomes the whole of it. -/
theorem exportVectorValue_ends (accepted : p.Accepted) (reach : Reachable p v)
    (window : self.WindowOf p v nItems) (count : readerVectorNItems p v = .ok nItems)
    (reachable : CreateReachable c) (type : v.type = .vectorValue ∨ v.type = .vectorValueHashable)
    {fuel : Nat} (enough : recreateDepth p < fuel) :
    EndsWith (exportVectorValue fuel c self) fun handle c' =>
      DenotesSlice c' handle self ↔
        self.sliceI = 0 ∧ nItems = self.sliceN ∧ KeyedAlike (fileNode p) slotKey v := by
  obtain ⟨pp, w, i, n⟩ := self
  obtain ⟨rfl, rfl, inside⟩ := window
  change i.toNat + n.toNat ≤ nItems.toNat at inside
  rcases recreateValue_ends accepted reach reachable enough with
    ⟨error, c', ran, full⟩ | ⟨handle, c', ran, recreated⟩
  · refine .inl ⟨"pointless_recreate_value(): " ++ error, c', ?_, full⟩
    rw [exportVectorValue, ran]
    rfl
  · refine .inr ⟨handle, c', ?_, .inr ⟨recreated.some_, ?_⟩⟩
    · rw [exportVectorValue, ran]
      rfl
    have isVector : isVectorType w.type = true := by
      rcases type with type | type <;> rw [type] <;> rfl
    obtain ⟨total, item, count', items⟩ := accepted.sound.valueItems reach type
    cases count.symm.trans count'
    have part {i n : Nat} (inside : i + n ≤ nItems.toNat) :
        vectorNode pp w i n = .ok (.vector, (List.range n).map fun k => item (i + k)) :=
      vectorNode_values type fun k less => (items (i + k) (by omega)).1
    have whole : fileNode pp w = .ok (.vector, (List.range nItems.toNat).map item) := by
      rw [fileNode_vector isVector count, part (Nat.le_of_eq (Nat.zero_add _))]
      simp only [Nat.zero_add]
    obtain ⟨given, label, children, copies, -, -, -, read, there, each⟩ := recreated.copy
    cases read.symm.trans whole
    have length : nItems.toNat = copies.length := by
      rw [← each.length_eq, List.length_map, List.length_range]
    constructor
    · intro slice
      obtain ⟨label, items', copies', visible, there', alike⟩ := slice
      cases visible.symm.trans (part inside)
      cases there.symm.trans there'
      -- as many items as the slice has, and as many as the vector has
      have all := alike.length_eq
      rw [List.length_map, List.length_range, ← length] at all
      have full : n = nItems := UInt32.toNat_inj.mp all
      subst full
      have first : i = 0 := UInt32.toNat_inj.mp (by rw [UInt32.toNat_zero]; omega)
      subst first
      refine ⟨rfl, rfl, recreated.alike_iff.mp (alike_of_children whole there ?_)⟩
      simpa only [UInt32.toNat_zero, Nat.zero_add] using alike
    · intro conditions
      obtain ⟨first, full, keyed⟩ := conditions
      obtain rfl : i = 0 := first
      obtain rfl : nItems = n := full
      have children := ((alike_iff_children whole there).mp (recreated.alike_iff.mpr keyed)).2
      refine ⟨.vector, _, copies, part inside, there, ?_⟩
      simpa only [UInt32.toNat_zero, Nat.zero_add] using children

/-- The branch of a vector that is not met before. -/
theorem exportVector_ends (accepted : p.Accepted) (reach : Reachable p v)
    (type : isVectorType v.type = true) (window : self.WindowOf p v nItems)
    (count : readerVectorNItems p v = .ok nItems) (reachable : CreateReachable c) {fuel : Nat}
    (enough : recreateDepth p < fuel) :
    EndsWith (exportVector fuel c self) fun handle c' =>
      DenotesSlice c' handle self ↔ WholeAndAlike self := by
  have sound := accepted.sound
  obtain rfl := window.pp
  obtain rfl := window.v
  have numbers (t : NumberType) (isType : self.v.type = t.vectorType)
      (made : exportVector fuel c self = exportVectorOwner c self t) :
      EndsWith (exportVector fuel c self) fun handle c' =>
        DenotesSlice c' handle self ↔ WholeAndAlike self := by
    rw [made]
    refine (exportVectorOwner_ends sound reach window count reachable isType).mono ?_
    intro handle c' slice
    refine iff_of_true slice fun isValue => ?_
    rw [isType] at isValue
    cases t <;> rcases isValue with same | same <;> cases same
  have values (isType : self.v.type = .vectorValue ∨ self.v.type = .vectorValueHashable)
      (made : exportVector fuel c self = exportVectorValue fuel c self) :
      EndsWith (exportVector fuel c self) fun handle c' =>
        DenotesSlice c' handle self ↔ WholeAndAlike self := by
    rw [made]
    refine (exportVectorValue_ends accepted reach window count reachable isType enough).mono ?_
    intro handle c' slice
    rw [slice, WholeAndAlike, imp_iff_right isType, count, Except.ok.injEq]
  unfold exportVector at numbers values ⊢
  cases isType : self.v.type <;> rw [isType] at type numbers values <;>
    first | cases type; done | skip
  case vectorValue => exact values (.inl rfl) rfl
  case vectorValueHashable => exact values (.inr rfl) rfl
  case vectorI8 => exact numbers .i8 rfl rfl
  case vectorU8 => exact numbers .u8 rfl rfl
  case vectorI16 => exact numbers .i16 rfl rfl
  case vectorU16 => exact numbers .u16 rfl rfl
  case vectorI32 => exact numbers .i32 rfl rfl
  case vectorU32 => exact numbers .u32 rfl rfl
  case vectorI64 => exact numbers .i64 rfl rfl
  case vectorU64 => exact numbers .u64 rfl rfl
  case vectorFloat => exact numbers .float rfl rfl
  case vectorEmpty =>
    refine (exportEmpty_ends isType reachable).mono fun handle c' slice => ?_
    refine iff_of_true slice fun isValue => ?_
    rw [isType] at isValue
    rcases isValue with same | same <;> cases same

end Outcomes

/-! ## Exports of slices -/

section Exports

variable {state : ExportState} {pyObject depth : Nat} {create : ExportOutcome}

/-- An object that is tracked: it lies too deep, or was met before, or is created. -/
theorem exportTracked_ends {made : UInt32 → Create → Prop} (ends : EndsWith create made) :
    (∃ message state', exportTracked state pyObject depth create = .ok (.error message, state') ∧
        (maxDepth ≤ depth ∨ 2 ^ 32 ≤ state'.c.values.length)) ∨
      (exportGetSeen state pyObject ≠ createValueFail ∧
        exportTracked state pyObject depth create =
          .ok (.ok (exportGetSeen state pyObject), state)) ∨
      ∃ handle state', exportTracked state pyObject depth create = .ok (.ok handle, state') ∧
        made handle state'.c := by
  unfold exportTracked
  by_cases deep : maxDepth ≤ depth
  · rw [if_pos deep]
    exact .inl ⟨_, _, rfl, .inl deep⟩
  rw [if_neg deep]
  by_cases seen : exportGetSeen state pyObject ≠ createValueFail
  · rw [if_pos seen]
    exact .inr (.inl ⟨seen, rfl⟩)
  rw [if_neg seen]
  rcases ends with ⟨error, c, ran, full⟩ | ⟨handle, c, ran, ⟨failed, full⟩ | ⟨some_, here⟩⟩
  · rw [ran]
    exact .inl ⟨error, _, rfl, .inr full⟩
  · rw [ran, ok_bind]
    simp only [if_pos failed]
    exact .inl ⟨"", _, rfl, .inr full⟩
  · rw [ran, ok_bind]
    simp only [if_neg some_]
    exact .inr (.inr ⟨handle, _, rfl, here⟩)

/-- The export of a slice of a vector of an accepted file, of any chain of slices. It ends; an
exception says that it lies too deep or that the handles are used up, and an object that was
met before has its handle. Otherwise, the handle is that of a vector of the items that are
visible, exactly where the vector is one of numbers or has no items at all, or is visible as
a whole and alike below. -/
theorem sliceExport_iff {buf : List UInt8} {fuel : Nat} {p : OpenFile} {error : Option String}
    {v : Value} (opened : openB fuel buf = .ok (p, error)) (reach : Reachable p v)
    (type : isVectorType v.type = true) :
    ∃ whole, pypointlessValue p v = .ok (.vector whole) ∧
      ∀ slices sliced, pyVectorSlices whole slices = .ok sliced →
        ∀ state, CreateReachable state.c → ∀ pyObject depth calls, recreateDepth p < calls →
          (∃ message state',
              exportPyVector calls state pyObject sliced depth = .ok (.error message, state') ∧
                (maxDepth ≤ depth ∨ 2 ^ 32 ≤ state'.c.values.length)) ∨
            (exportGetSeen state pyObject ≠ createValueFail ∧
              exportPyVector calls state pyObject sliced depth =
                .ok (.ok (exportGetSeen state pyObject), state)) ∨
            ∃ handle state',
              exportPyVector calls state pyObject sliced depth = .ok (.ok handle, state') ∧
                (DenotesSlice state'.c handle sliced ↔ WholeAndAlike sliced) := by
  have accepted := openB_accepted opened
  obtain ⟨nItems, count⟩ := accepted.sound.nItems reach type
  have value := pypointlessValue_vector type count
  refine ⟨_, value, fun slices sliced ran state reachable pyObject depth calls enough => ?_⟩
  have window := windowOf_slices count value type ran
  exact exportTracked_ends (exportVector_ends accepted reach type window count reachable enough)

end Exports

/-! ## A slice of a value vector -/

/-- A file whose root is a vector of the one value null. -/
def nullVectorFile : List UInt8 := oneItemFile .vectorValue (bytesValue ⟨.null, 0⟩)

/-- The file opened. -/
def nullVectorOpened : OpenFile := oneItemOpened .vectorValue (bytesValue ⟨.null, 0⟩)

set_option maxRecDepth 4000 in
theorem openB_nullVectorFile : openB 1 nullVectorFile = .ok (nullVectorOpened, none) := by cbv

/-- The vector without its first item, which is the slice `[1:]`. -/
def nullVectorTail : PyPointlessVector := ⟨nullVectorOpened, ⟨.vectorValue, 0⟩, 1, 0⟩

/-- The state at the start of an export. -/
def exportBegin : ExportState := ⟨createBegin64, false, [], true, true⟩

theorem nullVector_value : pypointlessValue nullVectorOpened ⟨.vectorValue, 0⟩ =
    .ok (.vector ⟨nullVectorOpened, ⟨.vectorValue, 0⟩, 0, 1⟩) := by rfl

theorem nullVector_sliced :
    pyVectorSlices ⟨nullVectorOpened, ⟨.vectorValue, 0⟩, 0, 1⟩ [⟨some 1, none, none⟩] =
      .ok nullVectorTail := by rfl

theorem sliceExport_iff_tail :
    (∃ message state',
        exportPyVector 2 exportBegin 1 nullVectorTail 0 = .ok (.error message, state') ∧
          (maxDepth ≤ 0 ∨ 2 ^ 32 ≤ state'.c.values.length)) ∨
      (exportGetSeen exportBegin 1 ≠ createValueFail ∧
        exportPyVector 2 exportBegin 1 nullVectorTail 0 =
          .ok (.ok (exportGetSeen exportBegin 1), exportBegin)) ∨
      ∃ handle state', exportPyVector 2 exportBegin 1 nullVectorTail 0 = .ok (.ok handle, state') ∧
        (DenotesSlice state'.c handle nullVectorTail ↔ WholeAndAlike nullVectorTail) := by
  obtain ⟨whole, value, exports⟩ := sliceExport_iff openB_nullVectorFile (.root _) rfl
  cases nullVector_value.symm.trans value
  exact exports _ _ nullVector_sliced exportBegin .begin64 1 0 2 (Nat.lt_succ_self 1)

/-- The export of the slice `[1:]` of a vector of one value gives a vector of that value; no
item is visible through the slice. -/
theorem nullVectorTail_whole :
    openB 1 nullVectorFile = .ok (nullVectorOpened, none) ∧
      Reachable nullVectorOpened ⟨.vectorValue, 0⟩ ∧
      pypointlessValue nullVectorOpened ⟨.vectorValue, 0⟩ =
        .ok (.vector ⟨nullVectorOpened, ⟨.vectorValue, 0⟩, 0, 1⟩) ∧
      pyVectorSlices ⟨nullVectorOpened, ⟨.vectorValue, 0⟩, 0, 1⟩ [⟨some 1, none, none⟩] =
        .ok nullVectorTail ∧
      ∃ state', exportPyVector 2 exportBegin 1 nullVectorTail 0 = .ok (.ok 0, state') ∧
        handleNode state'.c 0 = .ok (.vector, [1]) ∧ ¬DenotesSlice state'.c 0 nullVectorTail := by
  refine ⟨openB_nullVectorFile, .root _, nullVector_value, nullVector_sliced, _, rfl, rfl, ?_⟩
  intro slice
  obtain ⟨label, items, copies, visible, there, alike⟩ := slice
  cases visible
  cases there
  cases alike

end Pointless
