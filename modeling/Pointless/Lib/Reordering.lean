import Pointless.Lib.Unfolding
import Mathlib.Data.List.Perm.Basic

/-!
# Graphs that unfold alike up to order

A label may leave the order of the children open, one by one or in chunks of a length:
`Reordered n` are the lists with the same chunks of `n` elements, and for no `n` those that
are the same. `AlikeUpTo` is unfolding alike where every node may have its children
reordered.

* `IsBisimulationUpTo.alikeUpTo` and `AlikeUpTo.step` are the two rules of the relation.
* `AlikeUpTo.symm` and `AlikeUpTo.trans` say how it composes.
* `spread` reads some labels as nodes of their own, below the node that they were read at.
-/

namespace Unfolding

universe u v w x y

variable {ε : Type u} {δ : Type v} {ζ : Type y} {L A B C : Type w}

/-! ## Reordered lists -/

/-- The lists have the same chunks of `n` elements. -/
def Reordered (n : Nat) (xs ys : List A) : Prop :=
  xs = ys ∨ 0 < n ∧ ∃ xss yss : List (List A), (∀ chunk ∈ xss, chunk.length = n) ∧
    xss.Perm yss ∧ xs = xss.flatten ∧ ys = yss.flatten

section Reordered

variable {n : Nat} {xs ys zs : List A}

theorem Reordered.refl (n : Nat) (xs : List A) : Reordered n xs xs := .inl rfl

theorem Reordered.symm (reordered : Reordered n xs ys) : Reordered n ys xs := by
  rcases reordered with same | ⟨positive, xss, yss, lengths, perm, isX, isY⟩
  · exact .inl same.symm
  · exact .inr ⟨positive, yss, xss, fun chunk mem => lengths chunk (perm.mem_iff.mpr mem),
      perm.symm, isY, isX⟩

/-- Chunks of one length are known from what they make up. -/
theorem chunks_unique {xss yss : List (List A)} (positive : 0 < n)
    (lengths : ∀ chunk ∈ xss, chunk.length = n) (lengths' : ∀ chunk ∈ yss, chunk.length = n)
    (same : xss.flatten = yss.flatten) : xss = yss := by
  have nonempty {chunk : List A} (length : chunk.length = n) : chunk ≠ [] := by
    rintro rfl
    exact Nat.ne_of_gt positive length.symm
  induction xss generalizing yss with
  | nil =>
      cases yss with
      | nil => rfl
      | cons chunk rest =>
          have empty := (List.append_eq_nil_iff.mp same.symm).1
          exact absurd empty (nonempty (lengths' chunk List.mem_cons_self))
  | cons chunk rest ih =>
      have first := lengths chunk List.mem_cons_self
      cases yss with
      | nil => exact absurd (List.append_eq_nil_iff.mp same).1 (nonempty first)
      | cons chunk' rest' =>
          rcases List.append_inj same
            (first.trans (lengths' chunk' List.mem_cons_self).symm) with ⟨rfl, later⟩
          rw [ih (fun x mem => lengths x (List.mem_cons_of_mem _ mem))
            (fun y mem => lengths' y (List.mem_cons_of_mem _ mem)) later]

theorem Reordered.trans (first : Reordered n xs ys) (second : Reordered n ys zs) :
    Reordered n xs zs := by
  rcases first with rfl | ⟨positive, xss, yss, lengths, perm, isX, isY⟩
  · exact second
  · rcases second with rfl | ⟨-, yss', zss, lengths', perm', isY', isZ⟩
    · exact .inr ⟨positive, xss, yss, lengths, perm, isX, isY⟩
    · have same : yss = yss' := chunks_unique positive
        (fun chunk mem => lengths chunk (perm.mem_iff.mpr mem)) lengths' (isY.symm.trans isY')
      subst same
      exact .inr ⟨positive, xss, zss, lengths, perm.trans perm', isX, isZ⟩

theorem forall₂_flatten {R : A → B → Prop} {xs : List A} {yss : List (List B)}
    (each : List.Forall₂ R xs yss.flatten) :
    ∃ xss : List (List A), xs = xss.flatten ∧ List.Forall₂ (List.Forall₂ R) xss yss := by
  induction yss generalizing xs with
  | nil =>
      cases each
      exact ⟨[], rfl, .nil⟩
  | cons chunk rest ih =>
      rw [List.flatten_cons] at each
      have first := List.forall₂_take_append xs chunk rest.flatten each
      rcases ih (List.forall₂_drop_append xs chunk rest.flatten each) with ⟨xss, back, others⟩
      refine ⟨xs.take chunk.length :: xss, ?_, .cons first others⟩
      rw [List.flatten_cons, ← back, List.take_append_drop]

theorem forall₂_flatten_of {R : A → B → Prop} {xss : List (List A)} {yss : List (List B)}
    (chunks : List.Forall₂ (List.Forall₂ R) xss yss) :
    List.Forall₂ R xss.flatten yss.flatten := by
  induction chunks with
  | nil => exact .nil
  | cons first _ ih => exact List.rel_append first ih

theorem forall₂_comp {R : A → B → Prop} {S : B → C → Prop} {as : List A} {bs : List B}
    {cs : List C} (first : List.Forall₂ R as bs) (second : List.Forall₂ S bs cs) :
    List.Forall₂ (fun a c => ∃ b, R a b ∧ S b c) as cs := by
  induction first generalizing cs with
  | nil =>
      cases second
      exact .nil
  | cons related _ ih =>
      cases second with
      | cons related' rest => exact .cons ⟨_, related, related'⟩ (ih rest)

/-- A reordering carries over to a related list. -/
theorem Reordered.lift {R : A → B → Prop} {xs : List A} {ys zs : List B}
    (reordered : Reordered n ys zs) (each : List.Forall₂ R xs ys) :
    ∃ ws, Reordered n xs ws ∧ List.Forall₂ R ws zs := by
  rcases reordered with rfl | ⟨positive, yss, zss, lengths, perm, rfl, rfl⟩
  · exact ⟨xs, .refl n xs, each⟩
  · rcases forall₂_flatten each with ⟨xss, rfl, chunks⟩
    have moved : Relation.Comp (List.Forall₂ (List.Forall₂ R)) List.Perm xss zss :=
      ⟨yss, chunks, perm⟩
    rw [List.forall₂_comp_perm_eq_perm_comp_forall₂] at moved
    rcases moved with ⟨wss, perm', chunks'⟩
    refine ⟨wss.flatten, .inr ⟨positive, xss, wss, fun chunk mem => ?_, perm', rfl, rfl⟩,
      forall₂_flatten_of chunks'⟩
    rcases exists_zip chunks mem with ⟨chunk', among, related⟩
    exact related.length_eq.trans (lengths chunk' (List.of_mem_zip among).2)

/-- Single elements in another order. -/
theorem Reordered.single (perm : xs.Perm ys) : Reordered 1 xs ys := by
  have singles (zs : List A) : zs = (zs.map fun z => [z]).flatten := by
    rw [← List.flatMap_def, List.flatMap_singleton']
  refine .inr ⟨Nat.one_pos, xs.map fun x => [x], ys.map fun y => [y], fun chunk mem => ?_,
    perm.map _, singles xs, singles ys⟩
  rcases List.mem_map.mp mem with ⟨x, -, rfl⟩
  rfl

theorem Reordered.map (g : A → B) (reordered : Reordered n xs ys) :
    Reordered n (xs.map g) (ys.map g) := by
  rcases reordered with rfl | ⟨positive, xss, yss, lengths, perm, rfl, rfl⟩
  · exact .refl n _
  · refine .inr ⟨positive, xss.map (List.map g), yss.map (List.map g), fun chunk mem => ?_,
      perm.map _, List.map_flatten, List.map_flatten⟩
    rcases List.mem_map.mp mem with ⟨chunk', mem', rfl⟩
    rw [List.length_map]
    exact lengths chunk' mem'

/-- Chunks in another order. -/
theorem Reordered.chunks {K : Type x} {ks ks' : List K} {chunk : K → List A} (positive : 0 < n)
    (length : ∀ k, (chunk k).length = n) (perm : ks.Perm ks') :
    Reordered n (ks.flatMap chunk) (ks'.flatMap chunk) := by
  refine .inr ⟨positive, ks.map chunk, ks'.map chunk, fun c mem => ?_, perm.map _,
    List.flatMap_def .., List.flatMap_def ..⟩
  rcases List.mem_map.mp mem with ⟨k, -, rfl⟩
  exact length k

end Reordered

/-! ## Alike up to order -/

/-- Related nodes have one label, and their children are related when they are reordered. -/
def IsBisimulationUpTo (chunk : L → Nat) (g : Graph ε L A) (h : Graph δ L B) (R : A → B → Prop) :
    Prop :=
  ∀ a b, R a b → ∃ l children copies copies', g a = .ok (l, children) ∧ h b = .ok (l, copies) ∧
    Reordered (chunk l) copies copies' ∧ List.Forall₂ R children copies'

/-- Two nodes unfold alike but for the order of children. -/
def AlikeUpTo (chunk : L → Nat) (g : Graph ε L A) (h : Graph δ L B) (a : A) (b : B) : Prop :=
  ∃ R, IsBisimulationUpTo chunk g h R ∧ R a b

section AlikeUpTo

variable {chunk : L → Nat} {g : Graph ε L A} {h : Graph δ L B} {k : Graph ζ L C}
  {a : A} {b : B} {c : C}

theorem IsBisimulationUpTo.alikeUpTo {R : A → B → Prop}
    (bisimulation : IsBisimulationUpTo chunk g h R) (related : R a b) : AlikeUpTo chunk g h a b :=
  ⟨R, bisimulation, related⟩

theorem isBisimulationUpTo_alikeUpTo : IsBisimulationUpTo chunk g h (AlikeUpTo chunk g h) := by
  rintro a b ⟨R, bisimulation, related⟩
  rcases bisimulation a b related with ⟨l, children, copies, copies', readA, readB, order, each⟩
  exact ⟨l, children, copies, copies', readA, readB, order,
    each.imp fun _ _ => bisimulation.alikeUpTo⟩

theorem AlikeUpTo.step (alike : AlikeUpTo chunk g h a b) :
    ∃ l children copies copies', g a = .ok (l, children) ∧ h b = .ok (l, copies) ∧
      Reordered (chunk l) copies copies' ∧ List.Forall₂ (AlikeUpTo chunk g h) children copies' :=
  isBisimulationUpTo_alikeUpTo a b alike

theorem AlikeUpTo.symm (alike : AlikeUpTo chunk g h a b) : AlikeUpTo chunk h g b a := by
  have bisimulation : IsBisimulationUpTo chunk h g fun b a => AlikeUpTo chunk g h a b := by
    intro b a alike
    rcases alike.step with ⟨l, children, copies, copies', readA, readB, order, each⟩
    rcases order.symm.lift each with ⟨children', order', each'⟩
    exact ⟨l, copies, children, children', readB, readA, order', each'.flip⟩
  exact bisimulation.alikeUpTo alike

theorem AlikeUpTo.trans (first : AlikeUpTo chunk g h a b) (second : AlikeUpTo chunk h k b c) :
    AlikeUpTo chunk g k a c := by
  have bisimulation : IsBisimulationUpTo chunk g k fun a c =>
      ∃ b, AlikeUpTo chunk g h a b ∧ AlikeUpTo chunk h k b c := by
    rintro a c ⟨b, first, second⟩
    rcases first.step with ⟨l, children, copies, copies', readA, readB, order, each⟩
    rcases second.step with ⟨l', copies₂, last, last', readB', readC, order', each'⟩
    cases readB.symm.trans readB'
    -- the children of the last node follow the order of the first relation, too
    rcases order.lift each'.flip with ⟨last₂, order₂, each₂⟩
    exact ⟨l, children, last, last₂, readA, readC, order'.trans order₂,
      forall₂_comp each each₂.flip⟩
  exact bisimulation.alikeUpTo ⟨b, first, second⟩

end AlikeUpTo

/-! ## Labels that hold nodes -/

/-- A node whose label may stand for another one with leaves below it. -/
def spreadNode (items : L → Option (L × List L)) (node : L × List A) : L × List (A ⊕ L) :=
  match items node.1 with
  | some (l, leaves) => (l, leaves.map .inr)
  | none => (node.1, node.2.map .inl)

/-- A graph with the leaves that its labels stand for. -/
def spread (items : L → Option (L × List L)) (g : Graph ε L A) : Graph ε L (A ⊕ L)
  | .inl a => spreadNode items <$> g a
  | .inr l => .ok (l, [])

section Spread

variable {items : L → Option (L × List L)} {g : Graph ε L A} {h : Graph δ L B} {a : A} {b : B}

theorem spread_items {l l' : L} {children : List A} {leaves : List L}
    (read : g a = .ok (l, children)) (isItems : items l = some (l', leaves)) :
    spread items g (.inl a) = .ok (l', leaves.map .inr) := by
  rw [spread, read]
  change Except.ok (spreadNode items (l, children)) = _
  rw [spreadNode, isItems]

theorem spread_none {l : L} {children : List A} (read : g a = .ok (l, children))
    (none_ : items l = none) : spread items g (.inl a) = .ok (l, children.map .inl) := by
  rw [spread, read]
  change Except.ok (spreadNode items (l, children)) = _
  rw [spreadNode, none_]

/-- Nodes that are alike are so when their labels are read as nodes. -/
theorem Alike.spread (alike : Alike g h a b) :
    Alike (spread items g) (spread items h) (.inl a) (.inl b) := by
  let related : A ⊕ L → B ⊕ L → Prop
    | .inl a, .inl b => Alike g h a b
    | .inr l, .inr l' => l = l'
    | _, _ => False
  have bisimulation : IsBisimulation (Unfolding.spread items g) (Unfolding.spread items h)
      related := by
    rintro (a | l) (b | l') here
    · rcases Alike.step here with ⟨l, children, copies, readA, readB, each⟩
      rcases isItems : items l with _ | ⟨l', leaves⟩
      · refine ⟨l, _, _, spread_none readA isItems, spread_none readB isItems, ?_⟩
        rw [List.forall₂_map_left_iff, List.forall₂_map_right_iff]
        exact each
      · refine ⟨l', _, _, spread_items readA isItems, spread_items readB isItems, ?_⟩
        rw [List.forall₂_map_left_iff, List.forall₂_map_right_iff]
        exact List.forall₂_refl leaves
    · exact here.elim
    · exact here.elim
    · cases here
      exact ⟨l, [], [], rfl, rfl, .nil⟩
  exact bisimulation.alike (R := related) alike

end Spread

end Unfolding
