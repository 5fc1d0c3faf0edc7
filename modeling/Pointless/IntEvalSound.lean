import Pointless.IntCompile

/-!
# Running an integer expression

The compiler and the evaluator together give an expression the value of its mirrored reading.

* `compile_spells`: the program of a text that a derivation spells is its code.
* `runProgram_eq`: the evaluator runs a program as the stack machine does.
* `operator_computes`: an overflow is carried along as a flag until the end, where it fails, and the
  other failures come at once.
-/

namespace Pointless

open CText Deciding ExceptRules Postfix

/-! ## Compiling -/

theorem ArithTree.tokens_ne_nil :
    ∀ {k : Nonterminal} (tree : ArithTree k), k ≠ .Em → k ≠ .Tm → tree.tokens ≠ []
  | _, sum first rest, _, _ => by
      have nonempty := first.tokens_ne_nil (by decide) (by decide)
      simp [tokens, nonempty]
  | _, product first rest, _, _ => by
      have nonempty := first.tokens_ne_nil (by decide) (by decide)
      simp [tokens, nonempty]
  | _, operand a, _, _ => List.cons_ne_nil _ _
  | _, parens inner, _, _ => List.cons_ne_nil _ _
  | _, sumEnd, notRest, _ | _, sumNext _ _ _ _, notRest, _ => absurd rfl notRest
  | _, productEnd, _, notRest | _, productNext _ _ _ _, _, notRest => absurd rfl notRest

/-- In a context with no operator left behind the tokens, the text of a derivation compiles to
its code. -/
theorem compile_spells {s : List UInt8} {tree : ArithTree .E} (spells : Spells s tree.tokens)
    (few : tree.tokens.length < intopEvalMaxN) {c : IntopEvalContext}
    (clean : ∀ op : ArithOp, (c.tokens tree.tokens.length).type ≠ op.type) :
    ∃ c', EventuallyReturns (fun fuel => intopEvalCompile fuel s c) c' ∧
      IsCode c'.program tree.code := by
  obtain ⟨c₁, tokenized, stored⟩ := @tokenize_spells s _ spells
    { c with i := 0, n := 0, sN := 0, eN := 0, sError := none, iError := 0 }
    (by change 0 + _ < _; omega) s.length (Nat.le_refl _) 0
  have count : c₁.n = tree.tokens.length := stored.n.trans (Nat.zero_add _)
  have start : c₁.i = 0 := stored.i
  have empty : c₁.sN = 0 := stored.sN
  have written : TokensAt c₁.tokens c₁.i tree.tokens := by
    rw [start]
    exact stored.written
  have ends : EndsAt c₁.tokens (c₁.i + tree.tokens.length) .E := by
    intro _ op same
    have behind : 0 + tree.tokens.length ≤ tree.tokens.length := Nat.le_of_eq (Nat.zero_add _)
    rw [start, Nat.zero_add, stored.kept _ (Or.inr behind)] at same
    exact clean op same
  have room : c₁.sN + tree.code.length ≤ intopEvalMaxN := by
    have le := tree.length_code_le
    omega
  obtain ⟨c₂, returns, parsed⟩ := parse_tree tree c₁ stored.sError written ends room
  have some_ : c₁.n ≠ 0 := by
    rw [count]
    intro zero
    exact tree.tokens_ne_nil (by decide) (by decide) (List.eq_nil_of_length_eq_zero zero)
  have finished : ¬c₂.i ≠ c₂.n := by
    rw [parsed.i, parsed.n, start, count, Nat.zero_add]
    exact not_not.mpr rfl
  obtain ⟨new, program, isCode⟩ := parsed.program
  obtain ⟨enough, returned⟩ := returns
  refine ⟨c₂, ⟨enough, fun fuel le => ?_⟩, ?_⟩
  · have run : intopEvalE fuel c₁ = .ok c₂ := returned fuel le
    change intopEvalCompile fuel s c = _
    rw [intopEvalCompile, tokenized, ok_bind, if_neg some_, run, ok_bind, parsed.sError]
    exact if_neg finished
  · have nothing : c₁.program = [] := by
      rw [IntopEvalContext.program, empty]
      rfl
    rw [program, nothing]
    exact isCode

/-! ## The stack machine -/

/-- The value of an operand. -/
def operandValue : Operand → Res IntopU64
  | .number v => .ok ⟨false, v⟩
  | .x => fail "not supported yet"

/-- An operator at its operands. -/
def operatorApply (op : ArithOp) (a b : IntopU64) : Res IntopU64 := intopEvalApply op.type a b

/-- The value the evaluator computes for an expression. -/
def intopValue (e : ArithExpr) : Res IntopU64 := e.eval operandValue operatorApply

/-- The step of the stack machine that the evaluator is. -/
abbrev intopStep := Postfix.step operandValue operatorApply (Stop.fault .outOfBounds)

/-- The evaluation stack holds these numbers, the top first. -/
def Stacked (eval : Nat → IntopEvalToken) : List IntopU64 → Prop
  | [] => True
  | v :: vs => ((eval vs.length).type = .number ∧ (eval vs.length).number = v) ∧ Stacked eval vs

theorem Stacked.update {eval : Nat → IntopEvalToken} {vs : List IntopU64}
    (stacked : Stacked eval vs) {k : Nat} (above : vs.length ≤ k) (token : IntopEvalToken) :
    Stacked (Function.update eval k token) vs := by
  induction vs with
  | nil => trivial
  | cons v vs ih =>
      rw [List.length_cons] at above
      refine ⟨?_, ih stacked.2 (by omega)⟩
      rw [Function.update_of_ne (by omega)]
      exact stacked.1

/-- A number put on top. -/
theorem Stacked.push {eval : Nat → IntopEvalToken} {vs : List IntopU64} (stacked : Stacked eval vs)
    {token : IntopEvalToken} (number : token.type = .number) :
    Stacked (Function.update eval vs.length token) (token.number :: vs) := by
  refine ⟨?_, stacked.update (Nat.le_refl _) token⟩
  rw [Function.update_self]
  exact ⟨number, rfl⟩

/-- The context holds these numbers on its evaluation stack. -/
def EvalHolds (c : IntopEvalContext) (vs : List IntopU64) : Prop :=
  c.eN = vs.length ∧ Stacked c.eval vs

/-- A round or a run of the evaluator ends as the stack machine does. -/
def EndsAs (out : Res IntopEvalContext) : Res (List IntopU64) → Prop
  | .ok vs => ∃ c, out = .ok c ∧ EvalHolds c vs
  | .error stop => out = .error stop

/-- A round of the evaluator is a step of the stack machine. -/
theorem intopEvalRound_eq {c : IntopEvalContext} {vs : List IntopU64} (holds : EvalHolds c vs)
    (room : vs.length < intopEvalMaxN) {token : IntopEvalToken} {instr : Instr Operand ArithOp}
    (represents : Represents token (instrLexeme instr)) :
    EndsAs (intopEvalRound c token) (intopStep vs instr) := by
  obtain ⟨count, stacked⟩ := holds
  cases instr with
  | leaf a =>
      cases a with
      | number v =>
          obtain ⟨type, number⟩ := represents
          refine ⟨{ c with eval := Function.update c.eval c.eN token, eN := c.eN + 1 }, ?_, ?_, ?_⟩
          · rw [intopEvalRound, type]
            exact if_neg (by omega)
          · exact congrArg (· + 1) count
          · rw [← number, count]
            exact stacked.push type
      | x =>
          have type : token.type = .variable := represents
          change intopEvalRound c token = _
          rw [intopEvalRound, type]
          rfl
  | op o =>
      have type : token.type = o.type := represents
      cases vs with
      | nil =>
          change intopEvalRound c token = _
          have few : c.eN < 2 := by rw [count]; decide
          rw [intopEvalRound, type]
          cases o <;> exact if_pos few
      | cons a vs =>
          cases vs with
          | nil =>
              change intopEvalRound c token = _
              have few : c.eN < 2 := Nat.lt_of_le_of_lt (Nat.le_of_eq count) (Nat.lt_succ_self 1)
              rw [intopEvalRound, type]
              cases o <;> exact if_pos few
          | cons b vs =>
              obtain ⟨⟨-, rfl⟩, ⟨-, rfl⟩, rest⟩ := stacked
              have two : c.eN = vs.length + 2 := count
              have round : intopEvalRound c token =
                  operatorApply o (c.eval (vs.length + 1)).number (c.eval vs.length).number >>=
                    fun number =>
                  pure { c with
                    eval := Function.update c.eval vs.length
                      { c.eval vs.length with type := .number, number := number },
                    eN := vs.length + 1 } := by
                have enough : ¬c.eN < 2 := by omega
                have last : c.eN - 1 = vs.length + 1 := by rw [two]; rfl
                have lastButOne : c.eN - 2 = vs.length := by rw [two]; rfl
                rw [intopEvalRound, type]
                cases o <;>
                  · refine (if_neg enough).trans ?_
                    rw [last, lastButOne]
                    rfl
              rw [round]
              change EndsAs _ (operatorApply o (c.eval (vs.length + 1)).number
                (c.eval vs.length).number >>= fun v => pure (v :: vs))
              cases operatorApply o (c.eval (vs.length + 1)).number (c.eval vs.length).number with
              | error stop => rfl
              | ok v => exact ⟨_, rfl, rfl, rest.push rfl⟩

/-- A program is run as the stack machine runs it. -/
theorem runProgram_eq {tokens : List IntopEvalToken} {code : List (Instr Operand ArithOp)}
    (isCode : IsCode tokens code) {c : IntopEvalContext} {vs : List IntopU64}
    (holds : EvalHolds c vs) (room : vs.length + code.length ≤ intopEvalMaxN) :
    EndsAs (tokens.foldlM intopEvalRound c) (code.foldlM intopStep vs) := by
  induction isCode generalizing c vs with
  | nil => exact ⟨c, rfl, holds⟩
  | @cons token instr tokens code represents isCode ih =>
      rw [List.length_cons] at room
      have round := intopEvalRound_eq holds (by omega) represents
      rw [List.foldlM_cons, List.foldlM_cons]
      cases stepped : intopStep vs instr with
      | error stop =>
          rw [stepped] at round
          change intopEvalRound c token = _ at round
          rw [round]
          rfl
      | ok vs' =>
          rw [stepped] at round
          obtain ⟨c', ran, holds'⟩ := round
          rw [ran]
          apply ih holds'
          have grows := length_step _ _ _ stepped
          omega

/-! ## Values -/

/-- The number stands for a value; it is flagged where there is none. -/
def StandsFor (x : IntopU64) : Option Nat → Prop
  | some n => x.isOverflow = false ∧ x.value.toNat = n
  | none => x.isOverflow = true

/-- The failures of the operators. -/
def Fails {α : Type} (out : Res α) : Prop := out = fail "underflow" ∨ out = fail "division by zero"

theorem Fails.bind {α β : Type} {out : Res α} (failed : Fails out) (next : α → Res β) :
    Fails (out >>= next) := by
  rcases failed with failed | failed <;> rw [failed]
  · exact Or.inl rfl
  · exact Or.inr rfl

/-- The evaluator fails where the stack machine does. -/
theorem EndsAs.fails {out : Res IntopEvalContext} {run : Res (List IntopU64)}
    (ends : EndsAs out run) (failed : Fails run) : Fails out := by
  rcases failed with failed | failed
  · rw [failed] at ends
    exact Or.inl ends
  · rw [failed] at ends
    exact Or.inr ends

/-- A computed number stands for a value, or there is none and the computation has failed. -/
def ComputesValue (out : Res IntopU64) (n : Option Nat) : Prop :=
  (∃ x, out = .ok x ∧ StandsFor x n) ∨ (Fails out ∧ n = none)

/-- The value of an operator, if both operands have one. -/
abbrev applyValue (op : ArithOp) (m n : Option Nat) : Option Nat := do
  let a ← m
  let b ← n
  op.apply a b

theorem applyValue_none (op : ArithOp) (m : Option Nat) : applyValue op m none = none := by
  cases m <;> rfl

section Operators

variable {a b : IntopU64} {m n : Option Nat} (isA : StandsFor a m) (isB : StandsFor b n)
include isA isB

/-- Where an operand is flagged, there is no value. -/
theorem flagged_none (op : ArithOp) (flagged : a.isOverflow = true ∨ b.isOverflow = true) :
    applyValue op m n = none := by
  rcases flagged with flagged | flagged
  · cases m with
    | none => rfl
    | some x => cases flagged.symm.trans isA.1
  · cases n with
    | none => exact applyValue_none op m
    | some y => cases flagged.symm.trans isB.1

/-- Where no operand is flagged, they are numbers. -/
theorem unflagged_some (op : ArithOp) (plainA : a.isOverflow = false)
    (plainB : b.isOverflow = false) :
    applyValue op m n = op.apply a.value.toNat b.value.toNat := by
  cases m with
  | none => cases plainA.symm.trans isA
  | some x =>
      cases n with
      | none => cases plainB.symm.trans isB
      | some y => rw [isA.2, isB.2]; rfl

theorem add_computes : ComputesValue (operatorApply .add a b) (applyValue .add m n) := by
  apply Or.inl
  refine ⟨intopU64Add a b, rfl, ?_⟩
  by_cases flagged : a.isOverflow = true ∨ b.isOverflow = true
  · rw [flagged_none isA isB .add flagged, intopU64Add, if_pos flagged]
    rfl
  · obtain ⟨plainA, plainB⟩ := not_or.mp flagged
    rw [Bool.not_eq_true] at plainA plainB
    rw [unflagged_some isA isB .add plainA plainB, ArithOp.apply]
    have sum := intopU64Add_is (Or.inl ⟨plainA, rfl⟩ : a.Is a.value.toNat)
      (Or.inl ⟨plainB, rfl⟩ : b.Is b.value.toNat)
    rcases sum with ⟨plain, value⟩ | ⟨wraps, large⟩
    · have small : a.value.toNat + b.value.toNat < 2 ^ 64 := value ▸ UInt64.toNat_lt _
      rw [if_pos small]
      exact ⟨plain, value⟩
    · rw [if_neg (Nat.not_lt.mpr large)]
      exact wraps

theorem mul_computes : ComputesValue (operatorApply .mul a b) (applyValue .mul m n) := by
  apply Or.inl
  refine ⟨intopU64Mult a b, rfl, ?_⟩
  by_cases flagged : a.isOverflow = true ∨ b.isOverflow = true
  · have overflows : intopU64Mult a b = ⟨true, 1⟩ := by
      rw [intopU64Mult, if_pos]
      rcases flagged with flagged | flagged
      · exact Or.inl flagged
      · exact Or.inr (Or.inl flagged)
    rw [flagged_none isA isB .mul flagged, overflows]
    rfl
  · obtain ⟨plainA, plainB⟩ := not_or.mp flagged
    rw [Bool.not_eq_true] at plainA plainB
    rw [unflagged_some isA isB .mul plainA plainB, ArithOp.apply]
    have initA : a = intopU64Init a.value := by cases a; cases plainA; rfl
    have initB : b = intopU64Init b.value := by cases b; cases plainB; rfl
    have product := @intopU64Mult_is a.value b.value
    rw [← initA, ← initB] at product
    rcases product with ⟨plain, value⟩ | ⟨wraps, large⟩
    · have small : a.value.toNat * b.value.toNat < 2 ^ 64 := value ▸ UInt64.toNat_lt _
      rw [if_pos small]
      exact ⟨plain, value⟩
    · rw [if_neg (Nat.not_lt.mpr large)]
      exact wraps

/-- What the two operators that check their operands share: the flags are joined. -/
theorem joined_computes (op : ArithOp) {v : UInt64}
    (value : op.apply a.value.toNat b.value.toNat = some v.toNat) :
    StandsFor ⟨a.isOverflow || b.isOverflow, v⟩ (applyValue op m n) := by
  by_cases flagged : a.isOverflow = true ∨ b.isOverflow = true
  · rw [flagged_none isA isB op flagged]
    exact Bool.or_eq_true_iff.mpr flagged
  · obtain ⟨plainA, plainB⟩ := not_or.mp flagged
    rw [Bool.not_eq_true] at plainA plainB
    rw [unflagged_some isA isB op plainA plainB, value, plainA, plainB]
    exact ⟨rfl, rfl⟩

/-- An operator that has no result at the operands has no value. -/
theorem applyValue_eq_none (op : ArithOp)
    (noResult : op.apply a.value.toNat b.value.toNat = none) : applyValue op m n = none := by
  by_cases flagged : a.isOverflow = true ∨ b.isOverflow = true
  · exact flagged_none isA isB op flagged
  · obtain ⟨plainA, plainB⟩ := not_or.mp flagged
    rw [Bool.not_eq_true] at plainA plainB
    rw [unflagged_some isA isB op plainA plainB, noResult]

theorem sub_computes : ComputesValue (operatorApply .sub a b) (applyValue .sub m n) := by
  have apply : operatorApply .sub a b =
      if b.value > a.value then fail "underflow"
      else .ok ⟨a.isOverflow || b.isOverflow, a.value - b.value⟩ := rfl
  rw [apply]
  by_cases less : b.value > a.value
  · rw [if_pos less]
    refine Or.inr ⟨Or.inl rfl, applyValue_eq_none isA isB .sub (if_neg ?_)⟩
    rw [gt_iff_lt, UInt64.lt_iff_toNat_lt] at less
    omega
  · rw [if_neg less]
    rw [gt_iff_lt, UInt64.lt_iff_toNat_lt, Nat.not_lt] at less
    refine Or.inl ⟨_, rfl, joined_computes isA isB .sub ?_⟩
    rw [ArithOp.apply, if_pos less, UInt64.toNat_sub_of_le _ _ less]

theorem div_computes : ComputesValue (operatorApply .div a b) (applyValue .div m n) := by
  have apply : operatorApply .div a b =
      if b.value = 0 then fail "division by zero"
      else .ok ⟨a.isOverflow || b.isOverflow, a.value / b.value⟩ := rfl
  rw [apply]
  have zero : b.value = 0 ↔ b.value.toNat = 0 := UInt64.toNat_inj.symm
  by_cases isZero : b.value = 0
  · rw [if_pos isZero]
    refine Or.inr ⟨Or.inr rfl, applyValue_eq_none isA isB .div (if_neg ?_)⟩
    exact not_not.mpr (zero.mp isZero)
  · rw [if_neg isZero]
    refine Or.inl ⟨_, rfl, joined_computes isA isB .div ?_⟩
    rw [ArithOp.apply, if_pos (mt zero.mpr isZero), UInt64.toNat_div]

/-- An operator at numbers that stand for values. -/
theorem operator_computes (op : ArithOp) :
    ComputesValue (operatorApply op a b) (applyValue op m n) := by
  cases op with
  | add => exact add_computes isA isB
  | sub => exact sub_computes isA isB
  | mul => exact mul_computes isA isB
  | div => exact div_computes isA isB

end Operators

/-- An expression of numbers only. -/
def NumbersOnly : ArithExpr → Prop
  | .leaf (.number _) => True
  | .leaf .x => False
  | .binary _ left right => NumbersOnly left ∧ NumbersOnly right

/-- The evaluator computes the value of an expression. -/
theorem intopValue_computes {e : ArithExpr} (numbers : NumbersOnly e) :
    ComputesValue (intopValue e) (arithValue e) := by
  induction e with
  | leaf a =>
      cases a with
      | number v => exact Or.inl ⟨_, rfl, rfl, rfl⟩
      | x => exact numbers.elim
  | binary op left right ihLeft ihRight =>
      have split : intopValue (.binary op left right) =
          intopValue right >>= fun b => intopValue left >>= fun a => operatorApply op a b := rfl
      change ComputesValue _ (applyValue op (arithValue left) (arithValue right))
      rw [split]
      rcases ihRight numbers.2 with ⟨b, ran, isB⟩ | ⟨failed, none⟩
      · rw [ran, ok_bind]
        rcases ihLeft numbers.1 with ⟨a, ran', isA⟩ | ⟨failed, none⟩
        · rw [ran', ok_bind]
          exact operator_computes isA isB op
        · rw [none]
          exact Or.inr ⟨failed.bind _, rfl⟩
      · rw [none, applyValue_none]
        exact Or.inr ⟨failed.bind _, rfl⟩

/-! ## The whole evaluation -/

/-- The result is the value, or there is none and the evaluation fails with an overflow, an
underflow or a division by zero. -/
def HasValue (out : Res UInt64) : Option Nat → Prop
  | some n => ∃ v, out = .ok v ∧ v.toNat = n
  | none => out = fail "eval overflow" ∨ Fails out

theorem HasValue.unique {out : Res UInt64} {m n : Option Nat} (first : HasValue out m)
    (second : HasValue out n) : m = n := by
  have never : ∀ {v}, out = .ok v → ¬(out = fail "eval overflow" ∨ Fails out) := by
    intro v returned failed
    rcases failed with failed | failed | failed <;> cases returned.symm.trans failed
  cases m with
  | none =>
      cases n with
      | none => rfl
      | some y =>
          obtain ⟨v, returned, -⟩ := second
          exact absurd first (never returned)
  | some x =>
      obtain ⟨v, returned, rfl⟩ := first
      cases n with
      | none => exact absurd second (never returned)
      | some y =>
          obtain ⟨w, returned', rfl⟩ := second
          cases returned.symm.trans returned'
          rfl

/-- The evaluator gives a program of an expression the value of that. -/
theorem intopEvalEval_hasValue {c : IntopEvalContext} {e : ArithExpr} (numbers : NumbersOnly e)
    (isCode : IsCode c.program e.program) (room : e.program.length ≤ intopEvalMaxN) :
    HasValue (intopEvalEval c) (arithValue e) := by
  have ends := @runProgram_eq _ _ isCode { c with eN := 0, sError := none, iError := 0 } []
    ⟨rfl, trivial⟩ (by rwa [List.length_nil, Nat.zero_add])
  have run : (e.program).foldlM intopStep [] = (· :: []) <$> intopValue e := run_program _ _ _ e []
  rw [run] at ends
  rw [intopEvalEval]
  rcases intopValue_computes numbers with ⟨x, computed, stands⟩ | ⟨failed, none⟩
  · rw [computed] at ends
    obtain ⟨c', ran, count, ⟨type, number⟩, -⟩ := ends
    have one : ¬(c'.eN ≠ 1 ∨ (c'.eval 0).type ≠ .number) := by
      rw [not_or, not_not, not_not]
      exact ⟨count, type⟩
    have number' : (c'.eval 0).number = x := number
    rw [ran, ok_bind, if_neg one, number']
    cases value : arithValue e with
    | none =>
        rw [value] at stands
        exact Or.inl (if_pos stands)
    | some n =>
        rw [value] at stands
        refine ⟨x.value, if_neg ?_, stands.2⟩
        rw [stands.1]
        exact Bool.false_ne_true
  · have stops : Fails ((· :: []) <$> intopValue e) := by
      rw [map_eq_pure_bind]
      exact failed.bind _
    rw [none]
    exact Or.inr ((ends.fails stops).bind _)

/-- What a reading of a derivation without variables has: numbers only. -/
def ArithTree.ReadsNumbers : (k : Nonterminal) → Reading k → Prop
  | .Em, reading | .Tm, reading => ∀ before, NumbersOnly before → NumbersOnly (reading before)
  | .E, reading | .T, reading | .F, reading => NumbersOnly reading

theorem ArithTree.mirrored_numbers {k : Nonterminal} (tree : ArithTree k)
    (numeric : .operand .x ∉ tree.tokens) : ReadsNumbers k tree.mirrored := by
  induction tree with
  | sum first rest ihFirst ihRest | product first rest ihFirst ihRest =>
      rw [tokens, List.mem_append, not_or] at numeric
      exact ihRest numeric.2 _ (ihFirst numeric.1)
  | sumEnd | productEnd => exact fun before numbers => numbers
  | sumNext op kind first rest ihFirst ihRest | productNext op kind first rest ihFirst ihRest =>
      rw [tokens, List.mem_cons, List.mem_append, not_or, not_or] at numeric
      exact fun before numbers => ⟨ihRest numeric.2.2 _ (ihFirst numeric.2.1), numbers⟩
  | operand a =>
      cases a with
      | number v => trivial
      | x => exact absurd List.mem_cons_self numeric
  | parens inner ih =>
      rw [tokens, List.mem_cons, List.mem_append, not_or, not_or] at numeric
      exact ih numeric.2.1

/-- Compiled in a zeroed context and evaluated, the text has the value of the expression. -/
def Evaluates (s : List UInt8) (e : ArithExpr) : Prop :=
  ∃ c, EventuallyReturns (fun fuel => intopEvalCompile fuel s zeroContext) c ∧
    HasValue (intopEvalEval c) (arithValue e)

/-- A text evaluates to the mirrored reading of its derivation. -/
theorem evaluates_mirrored {s : List UInt8} {tree : ArithTree .E} (spells : Spells s tree.tokens)
    (few : tree.tokens.length < 512) (numeric : .operand .x ∉ tree.tokens) :
    Evaluates s tree.mirrored := by
  have clean : ∀ op : ArithOp, (zeroContext.tokens tree.tokens.length).type ≠ op.type := by
    intro op same
    cases op <;> cases same
  obtain ⟨c, returns, isCode⟩ := compile_spells spells few clean
  have program : Expr.program tree.mirrored = tree.code := tree.code_isProgram
  refine ⟨c, returns, intopEvalEval_hasValue (tree.mirrored_numbers numeric) ?_ ?_⟩
  · rw [program]
    exact isCode
  · rw [program]
    exact Nat.le_of_lt (Nat.lt_of_le_of_lt tree.length_code_le few)

/-- A text evaluates to the usual reading of its derivation exactly when that has the value of
the mirrored one, or neither has a value. -/
theorem evaluates_iff {s : List UInt8} {tree : ArithTree .E} (spells : Spells s tree.tokens)
    (few : tree.tokens.length < 512) (numeric : .operand .x ∉ tree.tokens) :
    Evaluates s tree.conventional ↔ arithValue tree.mirrored = arithValue tree.conventional := by
  obtain ⟨c, returns, value⟩ := evaluates_mirrored spells few numeric
  constructor
  · intro usual
    obtain ⟨c', returns', value'⟩ := usual
    cases returns.unique returns'
    exact value.unique value'
  · intro same
    exact ⟨c, returns, same ▸ value⟩

/-- Sums and products of positive numbers have their usual value. -/
theorem evaluates_growing {s : List UInt8} {tree : ArithTree .E} (spells : Spells s tree.tokens)
    (few : tree.tokens.length < 512) (growing : ∀ t ∈ tree.tokens, Lexeme.Growing t) :
    Evaluates s tree.conventional := by
  obtain ⟨grows, grows', same⟩ := tree.readings_same growing
  obtain ⟨c, returns, value⟩ :=
    evaluates_mirrored spells few fun variable_ => growing _ variable_
  refine ⟨c, returns, ?_⟩
  rw [arithValue_growing grows', ← same, ← arithValue_growing grows] at value
  exact value

/-! ## A difference -/

/-- The derivation of a difference of two numbers. -/
def differenceTree (a b : UInt64) : ArithTree .E :=
  .sum (.product (.operand (.number a)) .productEnd)
    (.sumNext .sub rfl (.product (.operand (.number b)) .productEnd) .sumEnd)

/-- The derivation of `5-3` is spelled so. -/
theorem spells_fiveThree : Spells [53, 45, 51] (differenceTree 5 3).tokens := by
  have five : isDigit (peek [45, 51]) = false := rfl
  have three : isDigit (peek []) = false := rfl
  exact .number (.single 53 rfl) (by decide) (by decide) five
    (.symbol rfl (.number (.single 51 rfl) (by decide) (by decide) three .done))

theorem evaluates_iff_fiveThree : Evaluates [53, 45, 51] (differenceTree 5 3).conventional ↔
    arithValue (differenceTree 5 3).mirrored = arithValue (differenceTree 5 3).conventional :=
  evaluates_iff spells_fiveThree (by decide) (by decide)

/-- The difference `5-3` underflows, and `3-5` is 2. -/
theorem fiveThree_underflows : arithValue (differenceTree 5 3).conventional = some 2 ∧
    (intopEvalCompile 20 [53, 45, 51] zeroContext >>= intopEvalEval) = fail "underflow" ∧
    (intopEvalCompile 20 [51, 45, 53] zeroContext >>= intopEvalEval) = .ok 2 ∧
    ¬Evaluates [53, 45, 51] (differenceTree 5 3).conventional := by
  have run : ∀ more, (intopEvalCompile (more + 20) [53, 45, 51] zeroContext >>= intopEvalEval) =
      fail "underflow" := by
    intro more
    rfl
  refine ⟨rfl, run 0, rfl, fun usual => ?_⟩
  obtain ⟨c, ⟨enough, returned⟩, v, value, -⟩ := usual
  have compiled : intopEvalCompile (enough + 20) [53, 45, 51] zeroContext = .ok c :=
    returned (enough + 20) (Nat.le_add_right enough 20)
  have failed := run enough
  rw [compiled, ok_bind, value] at failed
  cases failed

end Pointless
