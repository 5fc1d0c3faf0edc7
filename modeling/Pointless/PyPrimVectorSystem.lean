import Pointless.Lib.ExceptRules
import Pointless.PyPrimVectorMethods

/-!
# Runs of a PrimVector

A PrimVector goes through the steps of its methods. A method that has called code of the
caller waits for its answer, while other methods are called or go on: that code may call
them, and so may other threads. What is said of a method by itself, with code that leaves
the vector alone, is said of a run in which nothing comes between its steps.
-/

namespace Pointless

open ExceptRules

/-! ## Steps -/

/-- The methods that change a vector, and the two ends of a memory view. The arguments of the
constructor come later, as an answer. -/
inductive PrimVectorOp where
  | init
  | append (obj : PyOperand)
  | appendBulk (obj : BulkObject)
  | pop
  | popBulk (n : Int)
  | remove (arg : PyOperand)
  | clear
  | sort
  | sortProj (args : List PyObject)
  | assign (item : Int) (value : PyOperand)
  | getBuffer
  | releaseBuffer

/-- A method that calls no code of the caller has one step. -/
def primReturns (method : PrimOutcome) : PrimStep := do
  let (outcome, self) ← method
  return (.returns outcome, self)

/-- The first step of the method. -/
def PrimVectorOp.start (alloc : Allocator) (inPlace : Nat → Bool) (fuel : Nat)
    (self : PrimVectorObject) : PrimVectorOp → PrimStep
  | .init => primInitStart self
  | .append obj => primReturns (primAppend alloc self obj)
  | .appendBulk obj => primAppendBulkStart alloc self inPlace fuel obj
  | .pop => primReturns (primPop self)
  | .popBulk n => primReturns (primPopBulk self n)
  | .remove arg => primRemoveStart self arg
  | .clear => primReturns (primClear self)
  | .sort => primReturns (primSort self fuel)
  | .sortProj args => primReturns (primSortProj self fuel args)
  | .assign item value => primReturns (primAssSubscript self item value)
  | .getBuffer => .ok (.returns (.ok .none), primGetBuffer self)
  | .releaseBuffer => .ok (.returns (.ok .none), primReleaseBuffer self)

/-- A vector, and the calls whose answers its methods wait for, the latest first. -/
structure PrimVectorSystem where
  object : PrimVectorObject
  waiting : List PyCode
  deriving DecidableEq, Repr

/-- A method is called, or one that waits gets its answer. -/
inductive PrimVectorAction where
  | call (op : PrimVectorOp)
  | answer (i : Nat) (reply : PyAnswer)

/-- What a method waits for after a step. -/
def Segment.waiting : Segment → List PyCode
  | .returns _ => []
  | .calls code => [code]

/-- A step of the vector. -/
def PrimVectorSystem.step (alloc : Allocator) (inPlace : Nat → Bool) (fuel : Nat)
    (sys : PrimVectorSystem) : PrimVectorAction → Res PrimVectorSystem
  | .call op => do
      let (segment, object) ← op.start alloc inPlace fuel sys.object
      return ⟨object, segment.waiting ++ sys.waiting⟩
  | .answer i reply =>
      match sys.waiting[i]? with
      | none => .ok sys
      | some code => do
          let (segment, object) ← primResume alloc sys.object code reply
          return ⟨object, segment.waiting ++ sys.waiting.eraseIdx i⟩

/-- The steps one after the other. -/
def PrimVectorSystem.run (alloc : Allocator) (inPlace : Nat → Bool) (fuel : Nat)
    (sys : PrimVectorSystem) (actions : List PrimVectorAction) : Res PrimVectorSystem :=
  actions.foldlM (fun sys action => sys.step alloc inPlace fuel action) sys

/-! ## The methods as runs -/

section Methods

variable {alloc : Allocator} {inPlace : Nat → Bool} {v v' : PrimVectorObject} {σ : Type}
  {w : PyIterable σ} {state : σ} {fuel : Nat} {outcome : Raises PrimResult}

/-- A method that goes on with what an iterable answers is a run of the vector, in which it
waits no more at the end. -/
theorem run_of_primRun (inPlace : Nat → Bool) {segment : Segment}
    (ran : primRun alloc w fuel state (segment, v) = .ok (outcome, v')) (enough : Nat)
    (waiting : List PyCode) :
    ∃ replies : List PyAnswer, PrimVectorSystem.run alloc inPlace enough
      ⟨v, segment.waiting ++ waiting⟩ (replies.map (.answer 0)) = .ok ⟨v', waiting⟩ := by
  induction fuel generalizing state segment v with
  | zero =>
      cases segment with
      | returns result =>
          cases ran
          exact ⟨[], rfl⟩
      | calls code => cases ran
  | succ fuel ih =>
      cases segment with
      | returns result =>
          cases ran
          exact ⟨[], rfl⟩
      | calls code =>
          rw [primRun] at ran
          obtain ⟨⟨reply, state'⟩, -, ran⟩ := bind_eq_ok.mp ran
          obtain ⟨⟨segment, next⟩, resumed, ran⟩ := bind_eq_ok.mp ran
          obtain ⟨replies, rest⟩ := ih ran
          refine ⟨reply :: replies, ?_⟩
          have stepped : PrimVectorSystem.step alloc inPlace enough ⟨v, code :: waiting⟩
              (.answer 0 reply) = .ok ⟨next, segment.waiting ++ waiting⟩ := by
            simp only [PrimVectorSystem.step, List.getElem?_cons_zero, resumed, ok_bind,
              List.eraseIdx_cons_zero, pure_eq_ok]
          rw [PrimVectorSystem.run, List.map_cons, List.foldlM_cons]
          change (PrimVectorSystem.step alloc inPlace enough ⟨v, code :: waiting⟩ _ >>= _) = _
          rw [stepped]
          exact rest

/-- `append_bulk`, with an iterable that leaves the vector alone. -/
theorem appendBulk_isRun {obj : BulkObject}
    (ran : primAppendBulk alloc v inPlace fuel obj w state = .ok (outcome, v'))
    (waiting : List PyCode) :
    ∃ replies : List PyAnswer, PrimVectorSystem.run alloc inPlace fuel ⟨v, waiting⟩
      (.call (.appendBulk obj) :: replies.map (.answer 0)) = .ok ⟨v', waiting⟩ := by
  obtain ⟨⟨segment, next⟩, started, ran⟩ := bind_eq_ok.mp ran
  obtain ⟨replies, rest⟩ := run_of_primRun inPlace ran fuel waiting
  refine ⟨replies, ?_⟩
  have stepped : PrimVectorSystem.step alloc inPlace fuel ⟨v, waiting⟩ (.call (.appendBulk obj)) =
      .ok ⟨next, segment.waiting ++ waiting⟩ := by
    simp only [PrimVectorSystem.step, PrimVectorOp.start, started, ok_bind, pure_eq_ok]
  rw [PrimVectorSystem.run, List.foldlM_cons, stepped]
  exact rest

/-- `remove`, with an argument whose code leaves the vector alone. -/
theorem remove_isRun {arg : PyOperand} (ran : primRemove v arg = .ok (outcome, v'))
    (waiting : List PyCode) :
    ∃ replies : List PyAnswer, PrimVectorSystem.run alloc inPlace fuel ⟨v, waiting⟩
      (.call (.remove arg) :: replies.map (.answer 0)) = .ok ⟨v', waiting⟩ := by
  rw [primRemove] at ran
  cases resizes : primCanResize v with
  | error message =>
      rw [resizes] at ran
      cases ran
      refine ⟨[], ?_⟩
      simp only [PrimVectorSystem.run, List.map_nil, List.foldlM_cons, List.foldlM_nil,
        PrimVectorSystem.step, PrimVectorOp.start, primRemoveStart, resizes, ok_bind, pure_eq_ok,
        Segment.waiting, List.nil_append]
  | ok =>
      rw [resizes, primIndex_] at ran
      dsimp only at ran
      by_cases float : NumberType.ofPrimType v.type = some .float
      · rw [if_pos float] at ran
        refine ⟨[.float (parseTupleFloat arg)], ?_⟩
        simp only [PrimVectorSystem.run, List.map_cons, List.map_nil, List.foldlM_cons,
          List.foldlM_nil, PrimVectorSystem.step, PrimVectorOp.start, primRemoveStart, resizes,
          if_pos float, ok_bind, pure_eq_ok, Segment.waiting, List.cons_append, List.nil_append,
          List.getElem?_cons_zero, primResume, primRemoveParsed, bind_assoc, List.eraseIdx_cons_zero]
        obtain ⟨found, searched, removed⟩ := bind_eq_ok.mp ran
        rw [searched, ok_bind, removed]
        rfl
      · rw [if_neg float] at ran
        refine ⟨[], ?_⟩
        simp only [PrimVectorSystem.run, List.map_nil, List.foldlM_cons, List.foldlM_nil,
          PrimVectorSystem.step, PrimVectorOp.start, primRemoveStart, resizes, if_neg float,
          bind_assoc]
        obtain ⟨found, searched, removed⟩ := bind_eq_ok.mp ran
        rw [searched, ok_bind, removed]
        rfl

/-- The constructor, without a sequence or with arguments that it refuses. -/
theorem init_isRun {args : Raises InitArgs}
    (ran : primInit alloc v args = .ok (.returns outcome, v')) (waiting : List PyCode) :
    ∃ replies : List PyAnswer, PrimVectorSystem.run alloc inPlace fuel ⟨v, waiting⟩
      (.call .init :: replies.map (.answer 0)) = .ok ⟨v', waiting⟩ := by
  rw [primInit, primInitStart] at ran
  cases resizes : primCanResize v with
  | error message =>
      rw [resizes] at ran
      cases ran
      refine ⟨[], ?_⟩
      simp only [PrimVectorSystem.run, List.map_nil, List.foldlM_cons, List.foldlM_nil,
        PrimVectorSystem.step, PrimVectorOp.start, primInitStart, resizes, ok_bind, pure_eq_ok,
        Segment.waiting, List.nil_append]
  | ok =>
      rw [resizes] at ran
      dsimp only at ran
      rw [ok_bind] at ran
      dsimp only at ran
      refine ⟨[.args args], ?_⟩
      simp only [PrimVectorSystem.run, List.map_cons, List.map_nil, List.foldlM_cons,
        List.foldlM_nil, PrimVectorSystem.step, PrimVectorOp.start, primInitStart, resizes,
        ok_bind, pure_eq_ok, Segment.waiting, List.cons_append, List.nil_append,
        List.getElem?_cons_zero, primResume, List.eraseIdx_cons_zero]
      rw [ran]
      rfl

end Methods

end Pointless
