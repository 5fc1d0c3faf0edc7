import Pointless.IntEval
import Pointless.Lib.Postfix

/-!
# What an integer expression means

The grammar that `pointless_int_ops.c` states, its derivations, and the two readings of a
derivation.

* `ArithTree.conventional`: the usual one. The operators of a chain are applied from the left, each
  to its operands in the order in which they are written.
* `ArithTree.mirrored`: the one of the postfix program that recursive descent leaves. The operators
  of a chain are applied from the right, each with its operands exchanged.

`arithValue` is the value of an expression in the integers from 0 to 2^64 - 1.
-/

namespace Pointless

open CText ExceptRules Postfix

/-! ## Expressions -/

/-- The operators. -/
inductive ArithOp where
  | add
  | sub
  | mul
  | div
  deriving DecidableEq

namespace ArithOp

/-- The operators of a sum; the others are those of a product. -/
def additive : ArithOp → Bool
  | add | sub => true
  | mul | div => false

/-- The token type of the operator. -/
def type : ArithOp → IntopTokenType
  | add => .add
  | sub => .sub
  | mul => .mul
  | div => .div

theorem type_inj {op other : ArithOp} (same : op.type = other.type) : op = other := by
  cases op <;> cases other <;> first | rfl | cases same

/-- The result, if it is one of 64 bits. -/
def apply : ArithOp → Nat → Nat → Option Nat
  | add, a, b => if a + b < 2 ^ 64 then some (a + b) else none
  | sub, a, b => if b ≤ a then some (a - b) else none
  | mul, a, b => if a * b < 2 ^ 64 then some (a * b) else none
  | div, a, b => if b ≠ 0 then some (a / b) else none

end ArithOp

/-- The operands; the variable `x` has no value. -/
inductive Operand where
  | number (v : UInt64)
  | x
  deriving DecidableEq

/-- An arithmetic expression. -/
abbrev ArithExpr := Postfix.Expr Operand ArithOp

/-- The value of an expression, if each result on the way is one of 64 bits. -/
def arithValue : ArithExpr → Option Nat
  | .leaf (.number v) => some v.toNat
  | .leaf .x => none
  | .binary op left right => do
      let a ← arithValue left
      let b ← arithValue right
      op.apply a b

/-! ## Derivations -/

/-- The tokens of an expression. -/
inductive Lexeme where
  | operand (a : Operand)
  | op (o : ArithOp)
  | lparen
  | rparen
  deriving DecidableEq

/-- The nonterminals of the grammar. -/
inductive Nonterminal where
  | E
  | Em
  | T
  | Tm
  | F
  deriving DecidableEq

/-- A derivation of the grammar `E := T E'`, `E' := (+|-) T E' | e`, `T := F T'`,
`T' := (*|/) F T' | e`, `F := (E) | x | number`. -/
inductive ArithTree : Nonterminal → Type where
  | sum (first : ArithTree .T) (rest : ArithTree .Em) : ArithTree .E
  | sumEnd : ArithTree .Em
  | sumNext (op : ArithOp) (additive : op.additive = true) (term : ArithTree .T) (rest : ArithTree .Em) :
      ArithTree .Em
  | product (first : ArithTree .F) (rest : ArithTree .Tm) : ArithTree .T
  | productEnd : ArithTree .Tm
  | productNext (op : ArithOp) (multiplicative : op.additive = false) (factor : ArithTree .F)
      (rest : ArithTree .Tm) : ArithTree .Tm
  | operand (a : Operand) : ArithTree .F
  | parens (inner : ArithTree .E) : ArithTree .F

/-- A reading of a derivation: an expression, or for the rest of a chain one from the operand
in front of it. -/
abbrev Reading : Nonterminal → Type
  | .Em | .Tm => ArithExpr → ArithExpr
  | _ => ArithExpr

namespace ArithTree

/-- The tokens of a derivation. -/
def tokens : {k : Nonterminal} → ArithTree k → List Lexeme
  | _, sum first rest => first.tokens ++ rest.tokens
  | _, sumEnd => []
  | _, sumNext op _ term rest => .op op :: (term.tokens ++ rest.tokens)
  | _, product first rest => first.tokens ++ rest.tokens
  | _, productEnd => []
  | _, productNext op _ factor rest => .op op :: (factor.tokens ++ rest.tokens)
  | _, operand a => [.operand a]
  | _, parens inner => .lparen :: (inner.tokens ++ [.rparen])

/-- The usual reading. -/
def conventional : {k : Nonterminal} → ArithTree k → Reading k
  | _, sum first rest => rest.conventional first.conventional
  | _, sumEnd => fun before => before
  | _, sumNext op _ term rest => fun before =>
      rest.conventional (.binary op before term.conventional)
  | _, product first rest => rest.conventional first.conventional
  | _, productEnd => fun before => before
  | _, productNext op _ factor rest => fun before =>
      rest.conventional (.binary op before factor.conventional)
  | _, operand a => .leaf a
  | _, parens inner => inner.conventional

/-- The reading with each chain regrouped from the right, and the operands of each operator
exchanged. -/
def mirrored : {k : Nonterminal} → ArithTree k → Reading k
  | _, sum first rest => rest.mirrored first.mirrored
  | _, sumEnd => fun before => before
  | _, sumNext op _ term rest => fun before => .binary op (rest.mirrored term.mirrored) before
  | _, product first rest => rest.mirrored first.mirrored
  | _, productEnd => fun before => before
  | _, productNext op _ factor rest => fun before =>
      .binary op (rest.mirrored factor.mirrored) before
  | _, operand a => .leaf a
  | _, parens inner => inner.mirrored

/-- The program that recursive descent leaves for a derivation. -/
def code : {k : Nonterminal} → ArithTree k → List (Instr Operand ArithOp)
  | _, sum first rest => first.code ++ rest.code
  | _, sumEnd => []
  | _, sumNext op _ term rest => term.code ++ rest.code ++ [.op op]
  | _, product first rest => first.code ++ rest.code
  | _, productEnd => []
  | _, productNext op _ factor rest => factor.code ++ rest.code ++ [.op op]
  | _, operand a => [.leaf a]
  | _, parens inner => inner.code

/-- The code is the program of a reading; that of the rest of a chain goes behind the program
of the operand in front of it. -/
def IsProgram : (k : Nonterminal) → List (Instr Operand ArithOp) → Reading k → Prop
  | .Em, code, reading | .Tm, code, reading =>
      ∀ before, (reading before).program = Expr.program before ++ code
  | .E, code, reading | .T, code, reading | .F, code, reading => Expr.program reading = code

/-- Recursive descent leaves the program of the mirrored reading. -/
theorem code_isProgram {k : Nonterminal} (tree : ArithTree k) :
    IsProgram k tree.code tree.mirrored := by
  have chain : ∀ {first rest : List (Instr Operand ArithOp)} {reading : ArithExpr}
      {from_ : ArithExpr → ArithExpr}, Expr.program reading = first →
      (∀ before, (from_ before).program = Expr.program before ++ rest) →
      (from_ reading).program = first ++ rest := by
    intro first rest reading from_ head tail
    rw [tail, head]
  have next : ∀ {first rest : List (Instr Operand ArithOp)} {reading : ArithExpr}
      {from_ : ArithExpr → ArithExpr} (op : ArithOp), Expr.program reading = first →
      (∀ before, (from_ before).program = Expr.program before ++ rest) →
      ∀ before, (Expr.binary op (from_ reading) before).program =
        Expr.program before ++ (first ++ rest ++ [.op op]) := by
    intro first rest reading from_ op head tail before
    rw [Expr.program, chain head tail, List.append_assoc]
  induction tree with
  | sum first rest ihFirst ihRest => exact chain ihFirst ihRest
  | sumEnd => exact fun before => (List.append_nil _).symm
  | sumNext op additive term rest ihTerm ihRest => exact next op ihTerm ihRest
  | product first rest ihFirst ihRest => exact chain ihFirst ihRest
  | productEnd => exact fun before => (List.append_nil _).symm
  | productNext op multiplicative factor rest ihFactor ihRest => exact next op ihFactor ihRest
  | operand a => rfl
  | parens inner ih => exact ih

theorem length_code_le {k : Nonterminal} (tree : ArithTree k) :
    tree.code.length ≤ tree.tokens.length := by
  induction tree with
  | sum first rest ihFirst ihRest => simp only [code, tokens, List.length_append]; omega
  | sumEnd => exact Nat.le_refl _
  | sumNext op additive term rest ihTerm ihRest =>
      simp only [code, tokens, List.length_append, List.length_cons, List.length_nil]
      omega
  | product first rest ihFirst ihRest => simp only [code, tokens, List.length_append]; omega
  | productEnd => exact Nat.le_refl _
  | productNext op multiplicative factor rest ihFactor ihRest =>
      simp only [code, tokens, List.length_append, List.length_cons, List.length_nil]
      omega
  | operand a => exact Nat.le_refl _
  | parens inner ih =>
      simp only [code, tokens, List.length_append, List.length_cons, List.length_nil]
      omega

end ArithTree

/-! ## Sums and products -/

/-- A token of an expression of sums and products of positive numbers. -/
def Lexeme.Growing : Lexeme → Prop
  | .operand (.number v) => 0 < v.toNat
  | .operand .x => False
  | .op o => o = .add ∨ o = .mul
  | _ => True

/-- The sums and products of positive numbers. -/
def Growing : ArithExpr → Prop
  | .leaf a => (Lexeme.operand a).Growing
  | .binary op left right => (Lexeme.op op).Growing ∧ Growing left ∧ Growing right

/-- The value of such an expression in the natural numbers. -/
def natValue : ArithExpr → Nat
  | .leaf (.number v) => v.toNat
  | .leaf .x => 0
  | .binary .mul left right => natValue left * natValue right
  | .binary _ left right => natValue left + natValue right

theorem natValue_pos {e : ArithExpr} (growing : Growing e) : 0 < natValue e := by
  induction e with
  | leaf a =>
      cases a with
      | number v => exact growing
      | x => exact growing.elim
  | binary op left right ihLeft ihRight =>
      obtain ⟨kind, growsLeft, growsRight⟩ := growing
      have posLeft := ihLeft growsLeft
      have posRight := ihRight growsRight
      rcases kind with rfl | rfl
      · exact Nat.add_pos_left posLeft _
      · exact Nat.mul_pos posLeft posRight

/-- Operands below the result need not be looked at. -/
theorem bind_bounded {m n r : Nat} {f : Nat → Nat → Option Nat} (le : m ≤ r) (le' : n ≤ r)
    (result : f m n = if r < 2 ^ 64 then some r else none) :
    ((if m < 2 ^ 64 then some m else none) >>= fun a =>
      (if n < 2 ^ 64 then some n else none) >>= fun b => f a b) =
        if r < 2 ^ 64 then some r else none := by
  by_cases small : m < 2 ^ 64
  · rw [if_pos small]
    by_cases small' : n < 2 ^ 64
    · rw [if_pos small']
      exact result
    · rw [if_neg small', if_neg (by omega)]
      rfl
  · have large : ¬r < 2 ^ 64 := by omega
    rw [if_neg small, if_neg large]
    rfl

/-- No result on the way is above the last one. -/
theorem arithValue_growing {e : ArithExpr} (growing : Growing e) :
    arithValue e = if natValue e < 2 ^ 64 then some (natValue e) else none := by
  induction e with
  | leaf a =>
      cases a with
      | number v => exact (if_pos v.toNat_lt).symm
      | x => exact growing.elim
  | binary op left right ihLeft ihRight =>
      obtain ⟨kind, growsLeft, growsRight⟩ := growing
      have posLeft := natValue_pos growsLeft
      have posRight := natValue_pos growsRight
      rw [arithValue, ihLeft growsLeft, ihRight growsRight]
      rcases kind with rfl | rfl
      · exact bind_bounded (Nat.le_add_right _ _) (Nat.le_add_left _ _) rfl
      · exact bind_bounded (Nat.le_mul_of_pos_right _ posRight)
          (Nat.le_mul_of_pos_left _ posLeft) rfl

/-- Two readings of a derivation with one value; the rest of a sum adds a number to the operand
in front of it, and the rest of a product multiplies by one. -/
def SameReading : (k : Nonterminal) → Reading k → Reading k → Prop
  | .Em, first, second => ∃ n, ∀ before, Growing before →
      (Growing (first before) ∧ natValue (first before) = natValue before + n) ∧
        Growing (second before) ∧ natValue (second before) = natValue before + n
  | .Tm, first, second => ∃ n, ∀ before, Growing before →
      (Growing (first before) ∧ natValue (first before) = natValue before * n) ∧
        Growing (second before) ∧ natValue (second before) = natValue before * n
  | .E, first, second | .T, first, second | .F, first, second =>
      Growing first ∧ Growing second ∧ natValue first = natValue second

/-- Regrouping sums and products of positive numbers keeps their value. -/
theorem ArithTree.readings_same {k : Nonterminal} (tree : ArithTree k)
    (growing : ∀ t ∈ tree.tokens, Lexeme.Growing t) :
    SameReading k tree.conventional tree.mirrored := by
  induction tree with
  | sum first rest ihFirst ihRest | product first rest ihFirst ihRest =>
      rw [tokens, List.forall_mem_append] at growing
      obtain ⟨growsFirst, growsFirst', same⟩ := ihFirst growing.1
      obtain ⟨n, chain⟩ := ihRest growing.2
      obtain ⟨⟨grows, value⟩, -⟩ := chain _ growsFirst
      obtain ⟨-, grows', value'⟩ := chain _ growsFirst'
      refine ⟨grows, grows', ?_⟩
      change natValue (rest.conventional first.conventional) =
        natValue (rest.mirrored first.mirrored)
      rw [value, value', same]
  | sumEnd => exact ⟨0, fun before grows => ⟨⟨grows, rfl⟩, grows, rfl⟩⟩
  | sumNext op additive term rest ihTerm ihRest =>
      rw [tokens, List.forall_mem_cons, List.forall_mem_append] at growing
      obtain ⟨kind, growingTerm, growingRest⟩ := growing
      obtain rfl : op = .add := kind.resolve_right fun same => by
        rw [same] at additive
        cases additive
      obtain ⟨growsTerm, growsTerm', same⟩ := ihTerm growingTerm
      obtain ⟨n, chain⟩ := ihRest growingRest
      refine ⟨natValue (conventional term) + n, fun before grows => ?_⟩
      obtain ⟨⟨growsFirst, value⟩, -⟩ := chain (.binary .add before term.conventional)
        ⟨kind, grows, growsTerm⟩
      obtain ⟨-, growsRest, value'⟩ := chain _ growsTerm'
      refine ⟨⟨growsFirst, value.trans (Nat.add_assoc _ _ _)⟩, ⟨kind, growsRest, grows⟩, ?_⟩
      change natValue (rest.mirrored term.mirrored) + natValue before = _
      rw [value', same]
      omega
  | productEnd => exact ⟨1, fun before grows => ⟨⟨grows, (Nat.mul_one _).symm⟩, grows,
      (Nat.mul_one _).symm⟩⟩
  | productNext op multiplicative factor rest ihFactor ihRest =>
      rw [tokens, List.forall_mem_cons, List.forall_mem_append] at growing
      obtain ⟨kind, growingFactor, growingRest⟩ := growing
      obtain rfl : op = .mul := kind.resolve_left fun same => by
        rw [same] at multiplicative
        cases multiplicative
      obtain ⟨growsFactor, growsFactor', same⟩ := ihFactor growingFactor
      obtain ⟨n, chain⟩ := ihRest growingRest
      refine ⟨natValue (conventional factor) * n, fun before grows => ?_⟩
      obtain ⟨⟨growsFirst, value⟩, -⟩ := chain (.binary .mul before factor.conventional)
        ⟨kind, grows, growsFactor⟩
      obtain ⟨-, growsRest, value'⟩ := chain _ growsFactor'
      refine ⟨⟨growsFirst, value.trans (Nat.mul_assoc _ _ _)⟩, ⟨kind, growsRest, grows⟩, ?_⟩
      change natValue (rest.mirrored factor.mirrored) * natValue before = _
      rw [value', same, Nat.mul_comm]
  | operand a => exact ⟨growing _ List.mem_cons_self, growing _ List.mem_cons_self, rfl⟩
  | parens inner ih =>
      rw [tokens, List.forall_mem_cons, List.forall_mem_append] at growing
      exact ih growing.2.1

/-! ## Text -/

/-- The character of a token other than an operand. -/
def Lexeme.char : Lexeme → Option UInt8
  | .op .add => some 43
  | .op .sub => some 45
  | .op .mul => some 42
  | .op .div => some 47
  | .lparen => some 40
  | .rparen => some 41
  | .operand _ => none

/-- The text spells the tokens, with blanks and tabs anywhere between them. A number has at most
30 digits and is below 2^64. -/
inductive Spells : List UInt8 → List Lexeme → Prop
  | done : Spells [] []
  | blank {c s ts} : c = 32 ∨ c = 9 → Spells s ts → Spells (c :: s) ts
  | symbol {t c s ts} : Lexeme.char t = some c → Spells s ts → Spells (c :: s) (t :: ts)
  | x {s ts} : Spells s ts → Spells (120 :: s) (.operand .x :: ts)
  | number {s ts} (digits : Numeral) : digits.chars.length ≤ 30 → digits.value < 2 ^ 64 →
      isDigit (peek s) = false → Spells s ts →
      Spells (digits.chars ++ s) (.operand (.number (UInt64.ofNat digits.value)) :: ts)

end Pointless
