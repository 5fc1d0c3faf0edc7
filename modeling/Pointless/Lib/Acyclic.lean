import Mathlib.Data.Fintype.Card
import Mathlib.Data.Fintype.EquivFin
import Mathlib.Logic.Relation
import Mathlib.Order.WellFounded

/-!
# Recursion over finite graphs

A recursion along the edges of a finite graph ends below a node exactly when no
cycle can be reached from it.
-/

namespace Acyclic

open Relation

universe u

variable {α : Type u} {edge : α → α → Prop} {a : α}

/-- No cycle can be reached from `a`. -/
def NoCycle (edge : α → α → Prop) (a : α) : Prop :=
  ∀ b, ReflTransGen edge a b → ¬TransGen edge b b

theorem NoCycle.next {b : α} (noCycle : NoCycle edge a) (next : edge a b) : NoCycle edge b :=
  fun c reach => noCycle c (.head next reach)

theorem acc_of_noCycle [Finite α] (noCycle : NoCycle edge a) : Acc (fun x y => edge y x) a := by
  let Reached := { b // ReflTransGen edge a b }
  let above : Reached → Reached → Prop := fun x y => TransGen edge y.1 x.1
  have finite : Finite Reached := Subtype.finite
  have trans : IsTrans Reached above := ⟨fun _ _ _ first second => second.trans first⟩
  have irrefl : Std.Irrefl above := ⟨fun b => noCycle b.1 b.2⟩
  have wellFounded : WellFounded above := Finite.wellFounded_of_trans_of_irrefl above
  have reached : ∀ b : Reached, Acc (fun x y => edge y x) b.1 := by
    intro b
    induction b using wellFounded.induction with
    | _ b ih =>
        refine Acc.intro _ fun c next => ?_
        exact ih ⟨c, b.2.tail next⟩ (.single next)
  exact reached ⟨a, .refl⟩

theorem not_cycle_of_acc (acc : Acc (fun x y => edge y x) a) : ¬TransGen edge a a := by
  induction acc with
  | intro b _ ih =>
      intro cycle
      obtain ⟨c, next, back⟩ := TransGen.head'_iff.mp cycle
      exact ih c next (.tail' back next)

theorem noCycle_of_acc (acc : Acc (fun x y => edge y x) a) : NoCycle edge a := by
  intro b reach
  apply not_cycle_of_acc
  induction reach with
  | refl => exact acc
  | tail _ next ih => exact ih.inv next

end Acyclic
