import Mathlib.Data.List.Forall2
import Mathlib.Logic.Relation

/-!
# Graphs that unfold alike

A graph is read node by node: the label of a node, and its children in order. Two nodes
are alike when their unfoldings, which may be infinite, have the same labels and the same
shape.

* `IsBisimulation.alike` and `Alike.step` are the two rules of the relation.
* `Paired` are the pairs of nodes that are met on the way.
* `SharedCopy` is a copy of the part of a graph below a root which makes one copy of all
  nodes that have one key. `SharedCopy.alike_iff` says when the copy of the root is alike:
  exactly when nodes with one key are read the same.
-/

namespace Unfolding

open Relation

universe u v w x

variable {ε : Type u} {δ : Type v} {L A B K : Type w}

/-! ## Alike -/

/-- How the nodes of a graph are read: the label, and the children. -/
abbrev Graph (ε : Type u) (L A : Type w) := A → Except ε (L × List A)

/-- Related nodes have one label, and their children are related. -/
def IsBisimulation (g : Graph ε L A) (h : Graph δ L B) (R : A → B → Prop) : Prop :=
  ∀ a b, R a b →
    ∃ l children copies, g a = .ok (l, children) ∧ h b = .ok (l, copies) ∧
      List.Forall₂ R children copies

/-- Two nodes unfold alike. -/
def Alike (g : Graph ε L A) (h : Graph δ L B) (a : A) (b : B) : Prop :=
  ∃ R, IsBisimulation g h R ∧ R a b

section Alike

variable {g : Graph ε L A} {h : Graph δ L B} {a : A} {b : B}

theorem IsBisimulation.alike {R : A → B → Prop} (bisimulation : IsBisimulation g h R)
    (related : R a b) : Alike g h a b := ⟨R, bisimulation, related⟩

theorem isBisimulation_alike : IsBisimulation g h (Alike g h) := by
  intro a b alike
  obtain ⟨R, bisimulation, related⟩ := alike
  obtain ⟨l, children, copies, readA, readB, each⟩ := bisimulation a b related
  exact ⟨l, children, copies, readA, readB, each.imp fun _ _ => bisimulation.alike⟩

theorem Alike.step (alike : Alike g h a b) :
    ∃ l children copies, g a = .ok (l, children) ∧ h b = .ok (l, copies) ∧
      List.Forall₂ (Alike g h) children copies :=
  isBisimulation_alike a b alike

/-- Nodes of one label are alike where their children are. -/
theorem alike_of_children {l : L} {children : List A} {copies : List B}
    (readA : g a = .ok (l, children)) (readB : h b = .ok (l, copies))
    (each : List.Forall₂ (Alike g h) children copies) : Alike g h a b := by
  have bisimulation : IsBisimulation g h fun a b =>
      ∃ l children copies, g a = .ok (l, children) ∧ h b = .ok (l, copies) ∧
        List.Forall₂ (Alike g h) children copies := by
    intro a b related
    obtain ⟨l, children, copies, readA, readB, each⟩ := related
    exact ⟨l, children, copies, readA, readB, each.imp fun _ _ => Alike.step⟩
  exact bisimulation.alike ⟨l, children, copies, readA, readB, each⟩

/-- Where both nodes are read, they are alike if the labels are one and the children are
alike. -/
theorem alike_iff_children {l l' : L} {children : List A} {copies : List B}
    (readA : g a = .ok (l, children)) (readB : h b = .ok (l', copies)) :
    Alike g h a b ↔ l = l' ∧ List.Forall₂ (Alike g h) children copies := by
  constructor
  · intro alike
    obtain ⟨_, _, _, readA', readB', each⟩ := alike.step
    cases readA.symm.trans readA'
    cases readB.symm.trans readB'
    exact ⟨rfl, each⟩
  · intro both
    obtain ⟨rfl, each⟩ := both
    exact alike_of_children readA readB each

end Alike

/-! ## Pairs -/

/-- `x` and `y` are met when both graphs are walked alike from `a` and `b`. -/
inductive Paired (g : Graph ε L A) (h : Graph δ L B) (a : A) (b : B) : A → B → Prop where
  | roots : Paired g h a b a b
  | children {x : A} {y : B} {l : L} {children : List A} {copies : List B} {c : A} {d : B}
      (parents : Paired g h a b x y) (readX : g x = .ok (l, children))
      (readY : h y = .ok (l, copies)) (mem : (c, d) ∈ children.zip copies) : Paired g h a b c d

theorem exists_zip {R : A → B → Prop} {as : List A} {bs : List B} {a : A}
    (each : List.Forall₂ R as bs) (mem : a ∈ as) : ∃ b, (a, b) ∈ as.zip bs ∧ R a b := by
  induction each with
  | nil => cases mem
  | cons related _ ih =>
      rcases List.mem_cons.mp mem with rfl | later
      · exact ⟨_, List.mem_cons_self, related⟩
      · obtain ⟨b, there, related⟩ := ih later
        exact ⟨b, List.mem_cons_of_mem _ there, related⟩

/-! ## Copies that share -/

/-- `c` is a child of `a`. -/
def Child (g : Graph ε L A) (a c : A) : Prop := ∃ l children, g a = .ok (l, children) ∧ c ∈ children

/-- `c` lies below `a`, or is `a` itself. -/
def Below (g : Graph ε L A) : A → A → Prop := ReflTransGen (Child g)

/-- Every node below the first of two alike ones is paired with one that is alike. -/
theorem Alike.exists_paired {g : Graph ε L A} {h : Graph δ L B} {a x : A} {b : B}
    (alike : Alike g h a b) (below : Below g a x) : ∃ y, Paired g h a b x y ∧ Alike g h x y := by
  induction below with
  | refl => exact ⟨b, .roots, alike⟩
  | @tail x c _ child ih =>
      obtain ⟨y, paired, alikeX⟩ := ih
      obtain ⟨l, children, copies, readX, readY, each⟩ := alikeX.step
      obtain ⟨_, _, readX', mem⟩ := child
      cases readX.symm.trans readX'
      obtain ⟨d, there, alikeC⟩ := exists_zip each mem
      exact ⟨d, .children paired readX readY there, alikeC⟩

/-- The nodes below `root` that have one key are read the same. -/
def KeyedAlike (g : Graph ε L A) (key : A → Option K) (root : A) : Prop :=
  ∀ a a' k, Below g root a → Below g root a' → key a = some k → key a' = some k → g a = g a'

/-- `given a b` is that `b` is the copy that `a` was given. Nodes with one key have one
copy, which was made of one of them. -/
structure SharedCopy (g : Graph ε L A) (h : Graph δ L B) (key : A → Option K) (root : A)
    (given : A → B → Prop) : Prop where
  shared : ∀ a a' b b' k, key a = some k → key a' = some k → given a b → given a' b' → b = b'
  made : ∀ a b, given a b →
    ∃ o l children copies, (o = a ∨ Below g root o ∧ ∃ k, key o = some k ∧ key a = some k) ∧
      g o = .ok (l, children) ∧ h b = .ok (l, copies) ∧ List.Forall₂ given children copies
  labelled : ∀ a a' k l children children', key a = some k → key a' = some k →
    g a = .ok (l, children) → g a' = .ok (l, children') → children = children'

section SharedCopy

variable {g : Graph ε L A} {h : Graph δ L B} {key : A → Option K} {root a : A} {b : B}
  {given : A → B → Prop}

theorem exists_of_forall₂ {R S : A → B → Prop} {as : List A} {bs : List B}
    (first : List.Forall₂ R as bs) (second : List.Forall₂ S as bs) (mem : a ∈ as) :
    ∃ b, R a b ∧ S a b := by
  induction first with
  | nil => cases mem
  | cons related _ ih =>
      cases second with
      | cons related' rest =>
          rcases List.mem_cons.mp mem with rfl | later
          · exact ⟨_, related, related'⟩
          · exact ih rest later

/-- Every node below a root that is alike to its copy has a copy that is alike. -/
theorem SharedCopy.alike_below (copy : SharedCopy g h key root given) (here : given root b)
    (alike : Alike g h root b) (below : Below g root a) : ∃ b, given a b ∧ Alike g h a b := by
  induction below with
  | refl => exact ⟨b, here, alike⟩
  | @tail a c _ child ih =>
      obtain ⟨b, givenA, alikeA⟩ := ih
      obtain ⟨l, children, copies, readA, readB, each⟩ := alikeA.step
      obtain ⟨o, l', children', copies', from_, readO, readB', given'⟩ := copy.made a b givenA
      cases readB.symm.trans readB'
      -- the children that were copied are those of `a`, as the label is
      have same : children' = children := by
        rcases from_ with rfl | ⟨-, k, keyO, keyA⟩
        · cases readA.symm.trans readO
          rfl
        · exact copy.labelled o a k l children' children keyO keyA readO readA
      obtain ⟨_, _, readA', mem⟩ := child
      cases readA.symm.trans readA'
      rw [same] at given'
      exact exists_of_forall₂ given' each mem

/-- The copy of the root is alike exactly when nodes with one key are read the same. -/
theorem SharedCopy.alike_iff (copy : SharedCopy g h key root given) (here : given root b) :
    Alike g h root b ↔ KeyedAlike g key root := by
  constructor
  · intro alike a a' k below below' keyA keyA'
    obtain ⟨c, givenA, alikeA⟩ := copy.alike_below here alike below
    obtain ⟨c', givenA', alikeA'⟩ := copy.alike_below here alike below'
    cases copy.shared a a' c c' k keyA keyA' givenA givenA'
    obtain ⟨l, children, copies, readA, readB, -⟩ := alikeA.step
    obtain ⟨l', children', copies', readA', readB', -⟩ := alikeA'.step
    cases readB.symm.trans readB'
    rw [readA, readA', copy.labelled a a' k l children children' keyA keyA' readA readA']
  · intro keyed
    have bisimulation : IsBisimulation g h fun a b => Below g root a ∧ given a b := by
      intro a b related
      obtain ⟨below, givenA⟩ := related
      obtain ⟨o, l, children, copies, from_, readO, readB, each⟩ := copy.made a b givenA
      have readA : g a = .ok (l, children) := by
        rcases from_ with rfl | ⟨belowO, k, keyO, keyA⟩
        · exact readO
        · rw [keyed a o k below belowO keyA keyO, readO]
      refine ⟨l, children, copies, readA, readB, (List.forall₂_and_left _ _).mpr ⟨?_, each⟩⟩
      exact fun c mem => below.tail ⟨l, children, readA, mem⟩
    exact bisimulation.alike ⟨.refl, here⟩

/-- Where nodes with one key are read the same, a node is paired only with its copy. -/
theorem SharedCopy.given_of_paired (copy : SharedCopy g h key root given) (here : given root b)
    (keyed : KeyedAlike g key root) {x : A} {y : B} (paired : Paired g h root b x y) :
    Below g root x ∧ given x y := by
  induction paired with
  | roots => exact ⟨.refl, here⟩
  | @children x y l children copies c d _ readX readY mem ih =>
      obtain ⟨below, givenX⟩ := ih
      obtain ⟨o, l', children', copies', from_, readO, readY', each⟩ := copy.made x y givenX
      have same : g x = g o := by
        rcases from_ with rfl | ⟨belowO, k, keyO, keyX⟩
        · rfl
        · exact keyed x o k below belowO keyX keyO
      cases readX.symm.trans (same.trans readO)
      cases readY.symm.trans readY'
      exact ⟨below.tail ⟨l, children, readX, (List.of_mem_zip mem).1⟩,
        (List.forall₂_iff_zip.mp each).2 mem⟩

end SharedCopy

end Unfolding
