import Mathlib.Logic.Function.Basic
import Pointless.IntOps
import Pointless.Lib.CText

/-!
# Integer expressions

`intop_eval_compile` and `intop_eval_eval` of `pointless_int_ops.c`: an expression is split
into tokens, compiled to a postfix program by recursive descent, and run on a stack.

The arrays of the context are functions of the index, with whatever they held before. An access
at or past `INTOP_EVAL_MAX_N` faults, and so do the accesses below the evaluation stack that
the assertions rule out.
-/

namespace Pointless

open CText

/-! ## Contexts -/

/-- The `INTOP_EVAL_` codes, and any other integer that a context may hold. -/
inductive IntopTokenType where
  | number
  | add
  | sub
  | mul
  | div
  | lparen
  | rparen
  | variable
  | unknown (code : Int)
  deriving DecidableEq

/-- `intop_eval_token_t`. -/
structure IntopEvalToken where
  type : IntopTokenType
  number : IntopU64
  varIndex : Int
  deriving DecidableEq

/-- `INTOP_EVAL_MAX_N`. -/
def intopEvalMaxN : Nat := 512

/-- `intop_eval_context_t`. -/
structure IntopEvalContext where
  i : Nat
  n : Nat
  tokens : Nat → IntopEvalToken
  stack : Nat → IntopEvalToken
  sN : Nat
  eval : Nat → IntopEvalToken
  eN : Nat
  sError : Option String
  iError : Nat

/-- A token of zero bytes. -/
def zeroToken : IntopEvalToken := ⟨.number, ⟨false, 0⟩, 0⟩

/-- A zeroed context. -/
def zeroContext : IntopEvalContext where
  i := 0
  n := 0
  tokens := fun _ => zeroToken
  stack := fun _ => zeroToken
  sN := 0
  eval := fun _ => zeroToken
  eN := 0
  sError := none
  iError := 0

/-! ## Recursive descent -/

/-- `intop_check_error`. -/
def intopCheckError (c : IntopEvalContext) : Bool := c.sError.isSome

/-- `intop_eval_check_bounds`. -/
def intopEvalCheckBounds (c : IntopEvalContext) : Bool := c.i < intopEvalMaxN

/-- Set `s_error`, and `i_error` to the current token. -/
def intopError (c : IntopEvalContext) (message : String) : IntopEvalContext :=
  { c with sError := some message, iError := c.i }

/-- `intop_eval_push`. -/
def intopEvalPush (c : IntopEvalContext) (token : IntopEvalToken) : IntopEvalContext :=
  if c.sN = intopEvalMaxN then intopError c "result stack overflow"
  else { c with stack := Function.update c.stack c.sN token, sN := c.sN + 1 }

/-- The type of the current token, if it is in bounds. -/
def intopCurrent (c : IntopEvalContext) : Option IntopTokenType :=
  if intopEvalCheckBounds c then some (c.tokens c.i).type else none

/-- The failure of `intop_eval_F`. -/
def intopExpected : String := "expected '(', number or variable"

mutual

/-- `intop_eval_E`. -/
def intopEvalE : Nat → IntopEvalContext → Res IntopEvalContext
  | 0, _ => fault .diverges
  | fuel + 1, c =>
      if intopCheckError c then pure c
      else do
        let c ← intopEvalT fuel c
        intopEvalEm fuel c

/-- `intop_eval_Em`. -/
def intopEvalEm : Nat → IntopEvalContext → Res IntopEvalContext
  | 0, _ => fault .diverges
  | fuel + 1, c =>
      if intopCheckError c then pure c
      else if intopCurrent c = some .add ∨ intopCurrent c = some .sub then do
        let i := c.i
        let c ← intopEvalT fuel { c with i := c.i + 1 }
        let c ← intopEvalEm fuel c
        pure (intopEvalPush c (c.tokens i))
      else pure c

/-- `intop_eval_T`. -/
def intopEvalT : Nat → IntopEvalContext → Res IntopEvalContext
  | 0, _ => fault .diverges
  | fuel + 1, c =>
      if intopCheckError c then pure c
      else do
        let c ← intopEvalF fuel c
        intopEvalTm fuel c

/-- `intop_eval_Tm`. -/
def intopEvalTm : Nat → IntopEvalContext → Res IntopEvalContext
  | 0, _ => fault .diverges
  | fuel + 1, c =>
      if intopCheckError c then pure c
      else if intopCurrent c = some .mul ∨ intopCurrent c = some .div then do
        let i := c.i
        let c ← intopEvalF fuel { c with i := c.i + 1 }
        let c ← intopEvalTm fuel c
        pure (intopEvalPush c (c.tokens i))
      else pure c

/-- `intop_eval_F`. -/
def intopEvalF : Nat → IntopEvalContext → Res IntopEvalContext
  | 0, _ => fault .diverges
  | fuel + 1, c =>
      if intopCheckError c then pure c
      else if intopCurrent c = some .number ∨ intopCurrent c = some .variable then
        let c := intopEvalPush c (c.tokens c.i)
        pure { c with i := c.i + 1 }
      else if intopCurrent c = some .lparen then do
        let c ← intopEvalE fuel { c with i := c.i + 1 }
        if intopCheckError c then pure c
        else if intopCurrent c ≠ some .rparen then pure (intopError c "expected ')'")
        else pure { c with i := c.i + 1 }
      else pure (intopError c intopExpected)

end

/-! ## Compilation -/

/-- `parse_number`. -/
def intopParseNumber (s : List UInt8) : Option UInt64 :=
  let (n, outOfRange, rest) := strtoull s
  if (n = 0xffffffffffffffff ∧ outOfRange = true) ∨ peek rest ≠ 0 then none else some n

/-- The tokens of one character other than `x`. -/
def intopSymbol (c : UInt8) : Option IntopTokenType :=
  if c = 40 then some .lparen                                           -- '('
  else if c = 41 then some .rparen                                      -- ')'
  else if c = 45 then some .sub                                         -- '-'
  else if c = 43 then some .add                                         -- '+'
  else if c = 47 then some .div                                         -- '/'
  else if c = 42 then some .mul                                         -- '*'
  else none

/-- `c->tokens[c->n]` is set, which keeps the fields that the case does not name, and counted. -/
def IntopEvalContext.addToken (c : IntopEvalContext) (set : IntopEvalToken → IntopEvalToken) :
    IntopEvalContext :=
  { c with tokens := Function.update c.tokens c.n (set (c.tokens c.n)), n := c.n + 1 }

/-- The loop that tokenizes, with at most `steps` rounds. The number that `atoi` stores first
is overwritten, or left in a context whose compilation has failed. -/
def intopTokenize : Nat → List UInt8 → Int → IntopEvalContext → Res IntopEvalContext
  | 0, _, _, _ => fault .diverges
  | steps + 1, s, nVariables, c =>
      if peek s = 0 then pure c
      else if c.n ≥ intopEvalMaxN then fail "too many tokens"
      else
        match intopSymbol (peek s) with
        | some type => intopTokenize steps s.tail nVariables (c.addToken ({ · with type := type }))
        | none =>
            if peek s = 32 ∨ peek s = 9 then intopTokenize steps s.tail nVariables c
            else if peek s = 120 then                                   -- 'x'
              intopTokenize steps s.tail (nVariables + 1)
                (c.addToken ({ · with type := .variable, varIndex := nVariables }))
            else if isDigit (peek s) then
              let token := (s.takeWhile isDigit).take 31
              if token.length = 31 then fail "too big of a number"
              else
                match intopParseNumber token with
                | none => fail "invalid number"
                | some v =>
                    intopTokenize steps (s.drop token.length) nVariables
                      (c.addToken ({ · with type := .number, number := ⟨false, v⟩ }))
            else fail "invalid token"

/-- `intop_eval_compile`. -/
def intopEvalCompile (fuel : Nat) (s : List UInt8) (c : IntopEvalContext) :
    Res IntopEvalContext := do
  let c ← intopTokenize (s.length + 1) s 0
    { c with i := 0, n := 0, sN := 0, eN := 0, sError := none, iError := 0 }
  if c.n = 0 then fail "no tokens"
  else
    let c ← intopEvalE fuel c
    match c.sError with
    | some message => fail message
    | none => if c.i ≠ c.n then fail "some parsing error" else pure c

/-! ## Evaluation -/

/-- The switch over the operators: `a` is on top of the stack, and `b` below it. -/
def intopEvalApply (type : IntopTokenType) (a b : IntopU64) : Res IntopU64 :=
  match type with
  | .sub =>
      if b.value > a.value then fail "underflow"
      else pure ⟨a.isOverflow || b.isOverflow, a.value - b.value⟩
  | .add => pure (intopU64Add a b)
  | .div =>
      if b.value = 0 then fail "division by zero"
      else pure ⟨a.isOverflow || b.isOverflow, a.value / b.value⟩
  | _ => pure (intopU64Mult a b)

/-- A round of the loop of `intop_eval_eval`, at a token of the program. -/
def intopEvalRound (c : IntopEvalContext) (token : IntopEvalToken) : Res IntopEvalContext :=
  match token.type with
  | .number =>
      if c.eN ≥ intopEvalMaxN then fault .outOfBounds
      else pure { c with eval := Function.update c.eval c.eN token, eN := c.eN + 1 }
  | .variable => fail "not supported yet"
  | .sub | .add | .div | .mul =>
      if c.eN < 2 then fault .outOfBounds
      else do
        let a := c.eval (c.eN - 1)
        let b := c.eval (c.eN - 2)
        let number ← intopEvalApply token.type a.number b.number
        let result := { b with type := .number, number := number }
        pure { c with eval := Function.update c.eval (c.eN - 2) result, eN := c.eN - 1 }
  | _ => fail "invalid token"

/-- The program on the compile stack. -/
def IntopEvalContext.program (c : IntopEvalContext) : List IntopEvalToken :=
  (List.range c.sN).map c.stack

/-- `intop_eval_eval`. -/
def intopEvalEval (c : IntopEvalContext) : Res UInt64 := do
  let c ← c.program.foldlM intopEvalRound { c with eN := 0, sError := none, iError := 0 }
  if c.eN ≠ 1 ∨ (c.eval 0).type ≠ .number then fail "compile/eval error"
  else if (c.eval 0).number.isOverflow then fail "eval overflow"
  else pure (c.eval 0).number.value

end Pointless
