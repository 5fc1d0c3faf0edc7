import Pointless.IntExpr
import Pointless.Lib.Deciding

/-!
# Compiling an integer expression

* `tokenize_spells`: the tokens of a text are stored one after the other.
* `parse_tree`: from stored tokens that a nonterminal derives, its function goes to the token
  behind them and leaves the code of the derivation on the compile stack.

What a context held before matters in one place only: behind the last token the compiler looks
at the type of the next one, which no compilation has stored.
-/

namespace Pointless

open CText Deciding ExceptRules Postfix

/-! ## Stored tokens -/

/-- The token is of this kind. -/
def Represents (t : IntopEvalToken) : Lexeme → Prop
  | .operand (.number v) => t.type = .number ∧ t.number = ⟨false, v⟩
  | .operand .x => t.type = .variable
  | .op o => t.type = o.type
  | .lparen => t.type = .lparen
  | .rparen => t.type = .rparen

/-- The tokens are stored from `i` on. -/
def TokensAt (tokens : Nat → IntopEvalToken) : Nat → List Lexeme → Prop
  | _, [] => True
  | i, t :: ts => i < intopEvalMaxN ∧ Represents (tokens i) t ∧ TokensAt tokens (i + 1) ts

theorem tokensAt_append {tokens : Nat → IntopEvalToken} {i : Nat} {ts us : List Lexeme} :
    TokensAt tokens i (ts ++ us) ↔ TokensAt tokens i ts ∧ TokensAt tokens (i + ts.length) us := by
  induction ts generalizing i with
  | nil => exact ⟨fun rest => ⟨trivial, rest⟩, fun both => both.2⟩
  | cons t ts ih =>
      simp only [List.cons_append, TokensAt, ih, List.length_cons, and_assoc]
      rw [Nat.add_assoc, Nat.add_comm 1]

/-- The stored token that an instruction is. -/
def instrLexeme : Instr Operand ArithOp → Lexeme
  | .leaf a => .operand a
  | .op o => .op o

/-- The tokens are those of a program. -/
abbrev IsCode (tokens : List IntopEvalToken) (code : List (Instr Operand ArithOp)) : Prop :=
  List.Forall₂ (fun t instr => Represents t (instrLexeme instr)) tokens code

/-! ## What a nonterminal does -/

/-- The function of a nonterminal. -/
def Nonterminal.run : Nonterminal → Nat → IntopEvalContext → Res IntopEvalContext
  | .E => intopEvalE
  | .Em => intopEvalEm
  | .T => intopEvalT
  | .Tm => intopEvalTm
  | .F => intopEvalF

/-- The token at `j` ends what the nonterminal derives. -/
def EndsAt (tokens : Nat → IntopEvalToken) (j : Nat) : Nonterminal → Prop
  | .E | .Em => j < intopEvalMaxN → ∀ op : ArithOp, (tokens j).type ≠ op.type
  | .T | .Tm => j < intopEvalMaxN → ∀ op : ArithOp, op.additive = false → (tokens j).type ≠ op.type
  | .F => True

/-- Any token ends a factor. -/
theorem endsAt_F {tokens : Nat → IntopEvalToken} {j : Nat} : EndsAt tokens j .F := trivial

/-- From `c` to `c'`, `length` tokens have been read and the code has been pushed. -/
structure Parsed (c c' : IntopEvalContext) (length : Nat) (code : List (Instr Operand ArithOp)) :
    Prop where
  sError : c'.sError = none
  i : c'.i = c.i + length
  n : c'.n = c.n
  tokens : c'.tokens = c.tokens
  sN : c'.sN = c.sN + code.length
  program : ∃ new, c'.program = c.program ++ new ∧ IsCode new code

section Contexts

variable {c c' c'' : IntopEvalContext} {length length' : Nat}
  {code code' : List (Instr Operand ArithOp)}

theorem Parsed.refl (noError : c.sError = none) : Parsed c c 0 [] :=
  ⟨noError, rfl, rfl, rfl, rfl, [], (List.append_nil _).symm, .nil⟩

theorem Parsed.trans (first : Parsed c c' length code) (second : Parsed c' c'' length' code') :
    Parsed c c'' (length + length') (code ++ code') := by
  obtain ⟨new, program, isCode⟩ := first.program
  obtain ⟨new', program', isCode'⟩ := second.program
  refine ⟨second.sError, ?_, second.n.trans first.n, second.tokens.trans first.tokens, ?_,
    new ++ new', ?_, List.rel_append isCode isCode'⟩
  · rw [second.i, first.i, Nat.add_assoc]
  · rw [second.sN, first.sN, List.length_append, Nat.add_assoc]
  · rw [program', program, List.append_assoc]

/-- A token that is stepped over. -/
theorem Parsed.skip (noError : c.sError = none) : Parsed c { c with i := c.i + 1 } 1 [] :=
  ⟨noError, rfl, rfl, rfl, rfl, [], (List.append_nil _).symm, .nil⟩

/-- Where there is room, a token is pushed behind the program. -/
theorem program_push (room : c.sN ≠ intopEvalMaxN) (token : IntopEvalToken) :
    (intopEvalPush c token).program = c.program ++ [token] := by
  rw [intopEvalPush, if_neg room]
  have below : (List.range c.sN).map (Function.update c.stack c.sN token) = c.program := by
    apply List.map_congr_left
    intro k mem
    exact Function.update_of_ne (Nat.ne_of_lt (List.mem_range.mp mem)) _ _
  change (List.range (c.sN + 1)).map (Function.update c.stack c.sN token) = _
  rw [List.range_succ, List.map_append, below, List.map_singleton, Function.update_self]

/-- A token that is pushed. -/
theorem Parsed.push (noError : c.sError = none) (room : c.sN < intopEvalMaxN)
    {token : IntopEvalToken} {instr : Instr Operand ArithOp}
    (represents : Represents token (instrLexeme instr)) :
    Parsed c (intopEvalPush c token) 0 [instr] := by
  have program := program_push (Nat.ne_of_lt room) token
  rw [intopEvalPush, if_neg (Nat.ne_of_lt room)] at program ⊢
  exact ⟨noError, rfl, rfl, rfl, rfl, [token], program, .cons represents .nil⟩

theorem intopCurrent_eq {type : IntopTokenType} (inside : c.i < intopEvalMaxN)
    (here : (c.tokens c.i).type = type) : intopCurrent c = some type := by
  rw [intopCurrent, intopEvalCheckBounds, decide_eq_true inside, if_pos rfl, here]

theorem intopCurrent_some {type : IntopTokenType} (current : intopCurrent c = some type) :
    c.i < intopEvalMaxN ∧ (c.tokens c.i).type = type := by
  rw [intopCurrent, intopEvalCheckBounds] at current
  split at current
  case isTrue inside => exact ⟨of_decide_eq_true inside, Option.some.inj current⟩
  case isFalse => cases current

theorem noError_check (noError : c.sError = none) : ¬intopCheckError c = true := by
  rw [intopCheckError, noError]
  exact Bool.false_ne_true

/-- The current token is an operator of a sum. -/
theorem current_additive {op : ArithOp} (additive : op.additive = true)
    (inside : c.i < intopEvalMaxN) (here : (c.tokens c.i).type = op.type) :
    intopCurrent c = some .add ∨ intopCurrent c = some .sub := by
  have current := intopCurrent_eq inside here
  cases op with
  | add => exact Or.inl current
  | sub => exact Or.inr current
  | mul => cases additive
  | div => cases additive

/-- The current token is an operator of a product. -/
theorem current_multiplicative {op : ArithOp} (multiplicative : op.additive = false)
    (inside : c.i < intopEvalMaxN) (here : (c.tokens c.i).type = op.type) :
    intopCurrent c = some .mul ∨ intopCurrent c = some .div := by
  have current := intopCurrent_eq inside here
  cases op with
  | add => cases multiplicative
  | sub => cases multiplicative
  | mul => exact Or.inl current
  | div => exact Or.inr current

theorem EndsAt.not_additive (ends : EndsAt c.tokens c.i .Em) :
    ¬(intopCurrent c = some .add ∨ intopCurrent c = some .sub) := by
  intro current
  rcases current with current | current
  · obtain ⟨inside, here⟩ := intopCurrent_some current
    exact ends inside .add here
  · obtain ⟨inside, here⟩ := intopCurrent_some current
    exact ends inside .sub here

theorem EndsAt.not_multiplicative (ends : EndsAt c.tokens c.i .Tm) :
    ¬(intopCurrent c = some .mul ∨ intopCurrent c = some .div) := by
  intro current
  rcases current with current | current
  · obtain ⟨inside, here⟩ := intopCurrent_some current
    exact ends inside .mul rfl here
  · obtain ⟨inside, here⟩ := intopCurrent_some current
    exact ends inside .div rfl here

end Contexts

/-- What the rest of a sum begins with ends a product. -/
theorem EndsAt.beforeRest {tokens : Nat → IntopEvalToken} {j : Nat} (rest : ArithTree .Em)
    (written : TokensAt tokens j rest.tokens) (ends : EndsAt tokens (j + rest.tokens.length) .Em) :
    EndsAt tokens j .T := by
  cases rest with
  | sumEnd => exact fun inside op _ => ends inside op
  | sumNext op additive term rest =>
      intro _ other multiplicative same
      have here : (tokens j).type = op.type := written.2.1
      obtain rfl := ArithOp.type_inj (here.symm.trans same)
      rw [additive] at multiplicative
      cases multiplicative

section Steps

variable {c c' : IntopEvalContext}

theorem intopEvalE_succ (noError : c.sError = none) (fuel : Nat) :
    Nonterminal.E.run (fuel + 1) c =
      Nonterminal.T.run fuel c >>= Nonterminal.Em.run fuel :=
  if_neg (noError_check noError)

theorem intopEvalT_succ (noError : c.sError = none) (fuel : Nat) :
    Nonterminal.T.run (fuel + 1) c =
      Nonterminal.F.run fuel c >>= Nonterminal.Tm.run fuel :=
  if_neg (noError_check noError)

theorem intopEvalEm_end (noError : c.sError = none) (ends : EndsAt c.tokens c.i .Em) (fuel : Nat) :
    Nonterminal.Em.run (fuel + 1) c = .ok c :=
  (if_neg (noError_check noError)).trans (if_neg ends.not_additive)

theorem intopEvalTm_end (noError : c.sError = none) (ends : EndsAt c.tokens c.i .Tm) (fuel : Nat) :
    Nonterminal.Tm.run (fuel + 1) c = .ok c :=
  (if_neg (noError_check noError)).trans (if_neg ends.not_multiplicative)

theorem intopEvalEm_next (noError : c.sError = none) {op : ArithOp} (additive : op.additive = true)
    (inside : c.i < intopEvalMaxN) (here : (c.tokens c.i).type = op.type) (fuel : Nat) :
    Nonterminal.Em.run (fuel + 1) c =
      Nonterminal.T.run fuel { c with i := c.i + 1 } >>= fun c₁ =>
        Nonterminal.Em.run fuel c₁ >>= fun c₂ => pure (intopEvalPush c₂ (c₂.tokens c.i)) :=
  (if_neg (noError_check noError)).trans (if_pos (current_additive additive inside here))

theorem intopEvalTm_next (noError : c.sError = none) {op : ArithOp}
    (multiplicative : op.additive = false) (inside : c.i < intopEvalMaxN)
    (here : (c.tokens c.i).type = op.type) (fuel : Nat) :
    Nonterminal.Tm.run (fuel + 1) c =
      Nonterminal.F.run fuel { c with i := c.i + 1 } >>= fun c₁ =>
        Nonterminal.Tm.run fuel c₁ >>= fun c₂ => pure (intopEvalPush c₂ (c₂.tokens c.i)) :=
  (if_neg (noError_check noError)).trans
    (if_pos (current_multiplicative multiplicative inside here))

theorem intopEvalF_operand (noError : c.sError = none) {a : Operand}
    (inside : c.i < intopEvalMaxN) (here : Represents (c.tokens c.i) (.operand a)) (fuel : Nat) :
    Nonterminal.F.run (fuel + 1) c =
      .ok { intopEvalPush c (c.tokens c.i) with i := (intopEvalPush c (c.tokens c.i)).i + 1 } := by
  have current : intopCurrent c = some .number ∨ intopCurrent c = some .variable := by
    cases a with
    | number v => exact Or.inl (intopCurrent_eq inside here.1)
    | x => exact Or.inr (intopCurrent_eq inside here)
  exact (if_neg (noError_check noError)).trans (if_pos current)

theorem intopEvalF_parens (noError : c.sError = none) (inside : c.i < intopEvalMaxN)
    (here : (c.tokens c.i).type = .lparen) (fuel : Nat) :
    Nonterminal.F.run (fuel + 1) c =
      Nonterminal.E.run fuel { c with i := c.i + 1 } >>= fun c₁ =>
        if intopCheckError c₁ then pure c₁
        else if intopCurrent c₁ ≠ some .rparen then pure (intopError c₁ "expected ')'")
        else pure { c₁ with i := c₁.i + 1 } := by
  have current := intopCurrent_eq inside here
  have noOperand : ¬(intopCurrent c = some .number ∨ intopCurrent c = some .variable) := by
    rw [current]
    decide
  exact ((if_neg (noError_check noError)).trans (if_neg noOperand)).trans (if_pos current)

end Steps

/-! ## Derivations -/

/-- The function of a nonterminal reads the tokens and pushes the code. -/
def Parses (k : Nonterminal) (c : IntopEvalContext) (length : Nat)
    (code : List (Instr Operand ArithOp)) : Prop :=
  ∃ c', EventuallyReturns (fun fuel => k.run fuel c) c' ∧ Parsed c c' length code

section Rules

variable {c : IntopEvalContext} {length length' : Nat} {code code' : List (Instr Operand ArithOp)}

/-- The rule for a first operand and the rest of its chain. -/
theorem Parses.chain {k operand rest : Nonterminal}
    (calls : ∀ fuel, k.run (fuel + 1) c = operand.run fuel c >>= rest.run fuel)
    (first : Parses operand c length code)
    (goesOn : ∀ c₁, Parsed c c₁ length code → Parses rest c₁ length' code') :
    Parses k c (length + length') (code ++ code') := by
  obtain ⟨c₁, returns, parsed⟩ := first
  obtain ⟨c₂, returns', parsed'⟩ := goesOn c₁ parsed
  exact ⟨c₂, .call calls (returns.bind returns'), parsed.trans parsed'⟩

/-- The rule for an operator, its operand and the rest of the chain: the operator comes last. -/
theorem Parses.next {operand rest : Nonterminal} {op : ArithOp}
    (calls : ∀ fuel, rest.run (fuel + 1) c =
      operand.run fuel { c with i := c.i + 1 } >>= fun c₁ =>
        rest.run fuel c₁ >>= fun c₂ => pure (intopEvalPush c₂ (c₂.tokens c.i)))
    (noError : c.sError = none) (here : (c.tokens c.i).type = op.type)
    (room : c.sN + (code ++ code').length < intopEvalMaxN)
    (first : Parses operand { c with i := c.i + 1 } length code)
    (goesOn : ∀ c₁, Parsed c c₁ (1 + length) code → Parses rest c₁ length' code') :
    Parses rest c (1 + length + length') (code ++ code' ++ [.op op]) := by
  obtain ⟨c₁, returns, parsed⟩ := first
  have before : Parsed c c₁ (1 + length) code := (Parsed.skip noError).trans parsed
  obtain ⟨c₂, returns', parsed'⟩ := goesOn c₁ before
  have both := before.trans parsed'
  have represents : Represents (c₂.tokens c.i) (instrLexeme (.op op)) := by
    rw [both.tokens]
    exact here
  have pushed : Parsed c₂ (intopEvalPush c₂ (c₂.tokens c.i)) 0 [.op op] :=
    .push both.sError (by rw [both.sN]; exact room) represents
  exact ⟨_, .call calls (returns.bind (returns'.bind (.always fun fuel => rfl))),
    both.trans pushed⟩

end Rules

/-- Wherever these tokens stand the function of the nonterminal parses them to this code. -/
def Parsable (k : Nonterminal) (ts : List Lexeme) (code : List (Instr Operand ArithOp)) : Prop :=
  ∀ c : IntopEvalContext, c.sError = none → TokensAt c.tokens c.i ts →
    EndsAt c.tokens (c.i + ts.length) k → c.sN + code.length ≤ intopEvalMaxN →
    Parses k c ts.length code

section Parsable

variable {k operand rest : Nonterminal} {ts ts' : List Lexeme}
  {code code' : List (Instr Operand ArithOp)}
  (ended : ∀ tokens j, TokensAt tokens j ts' → EndsAt tokens (j + ts'.length) rest →
    EndsAt tokens j operand)
  (first : Parsable operand ts code) (others : Parsable rest ts' code')
include ended first others

/-- A sum and a product are a first operand and the rest of its chain. -/
theorem Parsable.chain
    (calls : ∀ {c : IntopEvalContext}, c.sError = none → ∀ fuel,
      k.run (fuel + 1) c = operand.run fuel c >>= rest.run fuel)
    (closes : ∀ {tokens j}, EndsAt tokens j k → EndsAt tokens j rest) :
    Parsable k (ts ++ ts') (code ++ code') := by
  intro c noError written ends room
  obtain ⟨writtenFirst, writtenRest⟩ := tokensAt_append.mp written
  have endsRest := closes ends
  rw [List.length_append, ← Nat.add_assoc] at endsRest
  rw [List.length_append] at room
  rw [List.length_append]
  apply Parses.chain (calls noError)
  · exact first c noError writtenFirst (ended _ _ writtenRest endsRest) (by omega)
  · intro c₁ parsed
    rw [← parsed.tokens, ← parsed.i] at writtenRest endsRest
    exact others c₁ parsed.sError writtenRest endsRest (by rw [parsed.sN]; omega)

/-- The rest of a chain is an operator, its operand and the rest. -/
theorem Parsable.next {op : ArithOp}
    (calls : ∀ {c : IntopEvalContext}, c.sError = none → c.i < intopEvalMaxN →
      (c.tokens c.i).type = op.type → ∀ fuel, rest.run (fuel + 1) c =
        operand.run fuel { c with i := c.i + 1 } >>= fun c₁ =>
          rest.run fuel c₁ >>= fun c₂ => pure (intopEvalPush c₂ (c₂.tokens c.i))) :
    Parsable rest (.op op :: (ts ++ ts')) (code ++ code' ++ [.op op]) := by
  intro c noError written ends room
  obtain ⟨inside, here, written⟩ := written
  obtain ⟨writtenFirst, writtenRest⟩ := tokensAt_append.mp written
  have length : (Lexeme.op op :: (ts ++ ts')).length = 1 + ts.length + ts'.length := by
    rw [List.length_cons, List.length_append]
    omega
  have place : c.i + (1 + ts.length + ts'.length) = c.i + 1 + ts.length + ts'.length := by omega
  rw [length, place] at ends
  rw [List.length_append, List.length_singleton] at room
  rw [length]
  apply Parses.next (calls noError inside here) noError here room
  · apply first { c with i := c.i + 1 } noError writtenFirst (ended _ _ writtenRest ends)
    rw [List.length_append] at room
    change c.sN + _ ≤ _
    omega
  · intro c₁ parsed
    have position : c₁.i = c.i + 1 + ts.length := by
      rw [parsed.i]
      omega
    rw [← parsed.tokens, ← position] at writtenRest ends
    rw [List.length_append] at room
    exact others c₁ parsed.sError writtenRest ends (by rw [parsed.sN]; omega)

end Parsable

theorem Parsable.operand (a : Operand) : Parsable .F [.operand a] [.leaf a] := by
  intro c noError written _ room
  obtain ⟨inside, here, -⟩ := written
  have pushed : Parsed c (intopEvalPush c (c.tokens c.i)) 0 [.leaf a] := .push noError room here
  exact ⟨_, .call (intopEvalF_operand noError inside here) (.always fun _ => rfl),
    pushed.trans (.skip pushed.sError)⟩

/-- A sum in parentheses is read up to the one that closes it. -/
theorem Parsable.parens {ts : List Lexeme} {code : List (Instr Operand ArithOp)}
    (inner : Parsable .E ts code) : Parsable .F (.lparen :: (ts ++ [.rparen])) code := by
  intro c noError written _ room
  obtain ⟨inside, here, written⟩ := written
  obtain ⟨writtenInner, insideEnd, hereEnd, -⟩ := tokensAt_append.mp written
  have closes : EndsAt c.tokens (c.i + 1 + ts.length) .E := by
    intro _ op same
    have rparen : (c.tokens (c.i + 1 + ts.length)).type = .rparen := hereEnd
    rw [rparen] at same
    cases op <;> cases same
  obtain ⟨c₁, returns, parsed⟩ :=
    inner { c with i := c.i + 1 } noError writtenInner closes room
  have position : c₁.i = c.i + 1 + ts.length := parsed.i
  have current : intopCurrent c₁ = some .rparen := by
    apply intopCurrent_eq
    · rw [position]
      exact insideEnd
    · rw [parsed.tokens, position]
      exact hereEnd
  have closing : ∀ fuel : Nat, (if intopCheckError c₁ then pure c₁
      else if intopCurrent c₁ ≠ some .rparen then pure (intopError c₁ "expected ')'")
      else pure { c₁ with i := c₁.i + 1 } : Res IntopEvalContext) =
        .ok { c₁ with i := c₁.i + 1 } := by
    intro _
    rw [if_neg (noError_check parsed.sError), if_neg (by rw [current]; exact not_not.mpr rfl)]
    rfl
  refine ⟨_, .call (intopEvalF_parens noError inside here)
    (returns.bind (.always closing)), ?_⟩
  have whole := ((Parsed.skip noError).trans parsed).trans (.skip parsed.sError)
  have length : (Lexeme.lparen :: (ts ++ [.rparen])).length = 1 + ts.length + 1 := by
    rw [List.length_cons, List.length_append, List.length_singleton]
    omega
  rw [length]
  rw [List.nil_append, List.append_nil] at whole
  exact whole

/-- At tokens that a nonterminal derives, its function reads them and pushes the code of the
derivation. -/
theorem parse_tree {k : Nonterminal} (tree : ArithTree k) :
    Parsable k tree.tokens tree.code := by
  induction tree with
  | sum first rest ihFirst ihRest =>
      exact Parsable.chain (fun _ _ written ends => ends.beforeRest rest written) ihFirst ihRest
        intopEvalE_succ id
  | sumEnd =>
      intro c noError _ ends _
      exact ⟨c, .call (intopEvalEm_end noError ends) (.always fun _ => rfl), .refl noError⟩
  | sumNext op additive term rest ihTerm ihRest =>
      exact Parsable.next (fun _ _ written ends => ends.beforeRest rest written) ihTerm ihRest
        fun noError => intopEvalEm_next noError additive
  | product first rest ihFirst ihRest =>
      exact Parsable.chain (fun _ _ _ _ => endsAt_F) ihFirst ihRest intopEvalT_succ id
  | productEnd =>
      intro c noError _ ends _
      exact ⟨c, .call (intopEvalTm_end noError ends) (.always fun _ => rfl), .refl noError⟩
  | productNext op multiplicative factor rest ihFactor ihRest =>
      exact Parsable.next (fun _ _ _ _ => endsAt_F) ihFactor ihRest
        fun noError => intopEvalTm_next noError multiplicative
  | operand a => exact Parsable.operand a
  | parens inner ih => exact Parsable.parens ih

/-! ## Text -/

/-- From `c` to `c'`, the tokens have been stored, and nothing else has changed. -/
structure Tokenized (c c' : IntopEvalContext) (ts : List Lexeme) : Prop where
  n : c'.n = c.n + ts.length
  written : TokensAt c'.tokens c.n ts
  kept : ∀ k, k < c.n ∨ c.n + ts.length ≤ k → c'.tokens k = c.tokens k
  i : c'.i = c.i
  sN : c'.sN = c.sN
  sError : c'.sError = c.sError

/-- A token that is stored in front of others. -/
theorem Tokenized.cons {c c' : IntopEvalContext} {set : IntopEvalToken → IntopEvalToken}
    {t : Lexeme} {ts : List Lexeme} (inside : c.n < intopEvalMaxN)
    (represents : Represents (set (c.tokens c.n)) t)
    (tokenized : Tokenized (c.addToken set) c' ts) : Tokenized c c' (t :: ts) := by
  have stored : c'.tokens c.n = set (c.tokens c.n) := by
    rw [tokenized.kept c.n (Or.inl (Nat.lt_succ_self c.n))]
    exact Function.update_self c.n _ c.tokens
  refine ⟨?_, ⟨inside, ?_, tokenized.written⟩, fun k outside => ?_, tokenized.i, tokenized.sN,
    tokenized.sError⟩
  · rw [tokenized.n, List.length_cons]
    change c.n + 1 + ts.length = _
    omega
  · rw [stored]
    exact represents
  · rw [List.length_cons] at outside
    have outside' : k < c.n + 1 ∨ c.n + 1 + ts.length ≤ k := by omega
    rw [tokenized.kept k outside']
    exact Function.update_of_ne (by omega) _ c.tokens

theorem intopSymbol_char {t : Lexeme} {c : UInt8} (char : t.char = some c) :
    c ≠ 0 ∧ ∃ type, intopSymbol c = some type ∧
      ∀ token : IntopEvalToken, Represents { token with type := type } t := by
  cases t with
  | operand a => cases char
  | op o => cases o <;> cases char <;> exact ⟨by decide, _, rfl, fun _ => rfl⟩
  | lparen =>
      cases char
      exact ⟨by decide, _, rfl, fun _ => rfl⟩
  | rparen =>
      cases char
      exact ⟨by decide, _, rfl, fun _ => rfl⟩

/-- A digit is in no other class of characters. -/
theorem digit_classes {a : UInt8} (digit : isDigit a = true) :
    a ≠ 0 ∧ intopSymbol a = none ∧ ¬(a = 32 ∨ a = 9) ∧ a ≠ 120 := by
  have other : ∀ e : UInt8, isDigit e = false → a ≠ e := by
    intro e no same
    rw [same, no] at digit
    cases digit
  refine ⟨other 0 rfl, ?_, fun either => either.elim (other 32 rfl) (other 9 rfl), other 120 rfl⟩
  rw [intopSymbol, if_neg (other 40 rfl), if_neg (other 41 rfl), if_neg (other 45 rfl),
    if_neg (other 43 rfl), if_neg (other 47 rfl), if_neg (other 42 rfl)]

section Rounds

variable {a : UInt8} {s : List UInt8} {c : IntopEvalContext} (inside : c.n < intopEvalMaxN)
  (steps : Nat) (nVariables : Int)
include inside

/-- The round at a token of one character. -/
theorem intopTokenize_symbol (nonzero : a ≠ 0) {type : IntopTokenType}
    (symbol : intopSymbol a = some type) :
    intopTokenize (steps + 1) (a :: s) nVariables c =
      intopTokenize steps s nVariables (c.addToken ({ · with type := type })) := by
  rw [intopTokenize, peek_cons, if_neg nonzero, if_neg (Nat.not_le.mpr inside), symbol]
  rfl

/-- The round at a blank. -/
theorem intopTokenize_blank (white : a = 32 ∨ a = 9) :
    intopTokenize (steps + 1) (a :: s) nVariables c = intopTokenize steps s nVariables c := by
  have symbol : a ≠ 0 ∧ intopSymbol a = none := by
    rcases white with rfl | rfl <;> decide
  rw [intopTokenize, peek_cons, if_neg symbol.1, if_neg (Nat.not_le.mpr inside), symbol.2]
  exact if_pos white

/-- The round at the variable. -/
theorem intopTokenize_x :
    intopTokenize (steps + 1) (120 :: s) nVariables c =
      intopTokenize steps s (nVariables + 1)
        (c.addToken ({ · with type := .variable, varIndex := nVariables })) := by
  rw [intopTokenize, peek_cons, if_neg (by decide), if_neg (Nat.not_le.mpr inside)]
  rfl

/-- The round at any other character. -/
theorem intopTokenize_invalid (nonzero : a ≠ 0) (symbol : intopSymbol a = none)
    (solid : ¬(a = 32 ∨ a = 9)) (noVariable : a ≠ 120) (noDigit : ¬isDigit a = true) :
    intopTokenize (steps + 1) (a :: s) nVariables c = fail "invalid token" := by
  rw [intopTokenize, peek_cons, if_neg nonzero, if_neg (Nat.not_le.mpr inside), symbol]
  simp only [if_neg solid, if_neg noVariable, if_neg noDigit]

/-- The round at a digit, up to the last one. -/
theorem intopTokenize_digit (digits : Numeral) (ends : isDigit (peek s) = false) :
    intopTokenize (steps + 1) (digits.chars ++ s) nVariables c =
      if (digits.chars.take 31).length = 31 then fail "too big of a number"
      else
        match intopParseNumber (digits.chars.take 31) with
        | none => fail "invalid number"
        | some v =>
            intopTokenize steps ((digits.chars ++ s).drop (digits.chars.take 31).length) nVariables
              (c.addToken ({ · with type := .number, number := ⟨false, v⟩ })) := by
  obtain ⟨d, more, split, digit⟩ := digits.exists_cons
  have first : peek (digits.chars ++ s) = d := by rw [split]; rfl
  obtain ⟨nonzero, symbol, solid, noVariable⟩ := digit_classes digit
  rw [intopTokenize, first, if_neg nonzero, if_neg (Nat.not_le.mpr inside), symbol,
    digits.takeWhile_append ends]
  exact (if_neg solid).trans ((if_neg noVariable).trans (if_pos digit))

/-- The round at a number. -/
theorem intopTokenize_number (digits : Numeral) (short : digits.chars.length ≤ 30)
    (small : digits.value < 2 ^ 64) (ends : isDigit (peek s) = false) :
    intopTokenize (steps + 1) (digits.chars ++ s) nVariables c =
      intopTokenize steps s nVariables (c.addToken
        ({ · with type := .number, number := ⟨false, UInt64.ofNat digits.value⟩ })) := by
  have token : digits.chars.take 31 = digits.chars := List.take_of_length_le (by omega)
  have parsed : intopParseNumber digits.chars = some (UInt64.ofNat digits.value) := by
    have read := @strtoull_numeral digits [] rfl
    rw [List.append_nil, if_pos small] at read
    rw [intopParseNumber, read]
    exact if_neg (by simp)
  have length : digits.chars.length ≠ 31 := by omega
  rw [intopTokenize_digit inside steps nVariables digits ends, token, if_neg length, parsed,
    List.drop_left]

/-- The round at a number that is out of range. -/
theorem intopTokenize_refuses (digits : Numeral) (ends : isDigit (peek s) = false)
    (large : ¬(digits.chars.length ≤ 30 ∧ digits.value < 2 ^ 64)) :
    intopTokenize (steps + 1) (digits.chars ++ s) nVariables c =
      fail (if digits.chars.length ≤ 30 then "invalid number" else "too big of a number") := by
  rw [intopTokenize_digit inside steps nVariables digits ends]
  by_cases short : digits.chars.length ≤ 30
  · have token : digits.chars.take 31 = digits.chars := List.take_of_length_le (by omega)
    have length : digits.chars.length ≠ 31 := by omega
    have outOfRange : ¬digits.value < 2 ^ 64 := fun small => large ⟨short, small⟩
    have parsed : intopParseNumber digits.chars = none := by
      have read := @strtoull_numeral digits [] rfl
      rw [List.append_nil, if_neg outOfRange] at read
      rw [intopParseNumber, read]
      exact if_pos (.inl ⟨rfl, rfl⟩)
    rw [token, if_neg length, parsed, if_pos short]
  · have long : (digits.chars.take 31).length = 31 := by
      rw [List.length_take]
      omega
    rw [if_pos long, if_neg short]

end Rounds

/-- The tokens of a text are stored one after the other. -/
theorem tokenize_spells {s : List UInt8} {ts : List Lexeme} (spells : Spells s ts)
    {c : IntopEvalContext} (room : c.n + ts.length < intopEvalMaxN) {steps : Nat}
    (enough : s.length ≤ steps) (nVariables : Int) :
    ∃ c', intopTokenize (steps + 1) s nVariables c = .ok c' ∧ Tokenized c c' ts := by
  have more : ∀ set, (c.addToken set).n = c.n + 1 := fun _ => rfl
  induction spells generalizing c steps nVariables with
  | done => exact ⟨c, rfl, rfl, trivial, fun _ _ => rfl, rfl, rfl, rfl⟩
  | @blank d s ts white spells ih =>
      cases steps with
      | zero => exact absurd enough (Nat.not_succ_le_zero _)
      | succ steps =>
          obtain ⟨c', run, tokenized⟩ :=
            ih room (Nat.le_of_succ_le_succ enough) nVariables fun _ => rfl
          refine ⟨c', ?_, tokenized⟩
          rw [intopTokenize_blank (by omega) _ _ white]
          exact run
  | @symbol t d s ts char spells ih =>
      cases steps with
      | zero => exact absurd enough (Nat.not_succ_le_zero _)
      | succ steps =>
          rw [List.length_cons] at room
          have inside : c.n < intopEvalMaxN := by omega
          obtain ⟨nonzero, type, symbol, represents⟩ := intopSymbol_char char
          obtain ⟨c', run, tokenized⟩ := @ih (c.addToken ({ · with type := type }))
            (by rw [more]; omega) steps (Nat.le_of_succ_le_succ enough) nVariables fun _ => rfl
          refine ⟨c', ?_, .cons inside (represents _) tokenized⟩
          rw [intopTokenize_symbol inside _ _ nonzero symbol]
          exact run
  | @x s ts spells ih =>
      cases steps with
      | zero => exact absurd enough (Nat.not_succ_le_zero _)
      | succ steps =>
          rw [List.length_cons] at room
          have inside : c.n < intopEvalMaxN := by omega
          obtain ⟨c', run, tokenized⟩ :=
            @ih (c.addToken ({ · with type := .variable, varIndex := nVariables }))
              (by rw [more]; omega) steps (Nat.le_of_succ_le_succ enough) (nVariables + 1)
              fun _ => rfl
          refine ⟨c', ?_, .cons inside ?_ tokenized⟩
          · rw [intopTokenize_x inside]
            exact run
          · exact rfl
  | @number s ts digits short small ends spells ih =>
      have positive : 0 < digits.chars.length := List.length_pos_of_ne_nil digits.nonempty
      rw [List.length_append] at enough
      cases steps with
      | zero => omega
      | succ steps =>
          rw [List.length_cons] at room
          have inside : c.n < intopEvalMaxN := by omega
          obtain ⟨c', run, tokenized⟩ := @ih (c.addToken
            ({ · with type := .number, number := ⟨false, UInt64.ofNat digits.value⟩ }))
              (by rw [more]; omega) steps (by omega) nVariables fun _ => rfl
          refine ⟨c', ?_, .cons inside ⟨rfl, rfl⟩ tokenized⟩
          rw [intopTokenize_number inside _ _ digits short small ends]
          exact run

end Pointless
