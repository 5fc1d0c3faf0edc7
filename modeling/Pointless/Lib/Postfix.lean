import Pointless.Lib.ExceptRules

/-!
# Postfix programs

Expressions of leaves and binary operators, and the postfix programs that a stack machine runs
for them. The operand that is on top of the stack is the left one, so that the program of an
expression has its right operand first. Leaves and operators may fail; the failure that comes
first in the program is that of the expression.
-/

namespace Postfix

open ExceptRules

universe u

variable {Leaf Op : Type} {Val : Type} {ε : Type u}

/-- An expression. -/
inductive Expr (Leaf Op : Type) where
  | leaf (a : Leaf)
  | binary (op : Op) (left right : Expr Leaf Op)
  deriving DecidableEq

/-- An instruction of a program. -/
inductive Instr (Leaf Op : Type) where
  | leaf (a : Leaf)
  | op (o : Op)
  deriving DecidableEq

/-- The program of an expression. -/
def Expr.program : Expr Leaf Op → List (Instr Leaf Op)
  | leaf a => [.leaf a]
  | binary op left right => right.program ++ left.program ++ [.op op]

section Machine

variable (value : Leaf → Except ε Val) (apply : Op → Val → Val → Except ε Val) (short : ε)

/-- The value of an expression, its right operand first. -/
def Expr.eval : Expr Leaf Op → Except ε Val
  | leaf a => value a
  | binary op left right => do
      let b ← right.eval
      let a ← left.eval
      apply op a b

/-- A step of the machine; an operator without two operands fails with `short`. -/
def step : List Val → Instr Leaf Op → Except ε (List Val)
  | stack, .leaf a => do
      let v ← value a
      pure (v :: stack)
  | a :: b :: stack, .op o => do
      let v ← apply o a b
      pure (v :: stack)
  | _, .op _ => .error short

theorem length_step {stack stack' : List Val} {instr : Instr Leaf Op}
    (stepped : step value apply short stack instr = .ok stack') :
    stack'.length ≤ stack.length + 1 := by
  cases instr with
  | leaf a =>
      obtain ⟨v, -, pushed⟩ := bind_eq_ok.mp stepped
      cases pushed
      exact Nat.le_refl _
  | op o =>
      match stack, stepped with
      | a :: b :: stack, stepped =>
          obtain ⟨v, -, pushed⟩ := bind_eq_ok.mp stepped
          cases pushed
          rw [List.length_cons, List.length_cons, List.length_cons]
          omega

/-- The program of an expression puts its value on the stack. -/
theorem run_program (e : Expr Leaf Op) (stack : List Val) :
    e.program.foldlM (step value apply short) stack = (· :: stack) <$> e.eval value apply := by
  induction e generalizing stack with
  | leaf a =>
      rw [Expr.program, List.foldlM_cons, Expr.eval, step]
      cases value a <;> rfl
  | binary op left right ihLeft ihRight =>
      rw [Expr.program, List.append_assoc, List.foldlM_append, ihRight, Expr.eval]
      cases right.eval value apply with
      | error stop => rfl
      | ok b =>
          simp only [map_ok, ok_bind]
          rw [List.foldlM_append, ihLeft]
          cases left.eval value apply with
          | error stop => rfl
          | ok a =>
              simp only [map_ok, ok_bind, List.foldlM_cons, List.foldlM_nil, step]
              cases apply op a b <;> rfl

end Machine

end Postfix
