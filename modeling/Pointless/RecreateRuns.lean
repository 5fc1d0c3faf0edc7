import Pointless.RecreateCalls

/-!
# Runs of re-creation

Values that have one place in the mappings get one handle, whose content is made of the
handles of the children. That content is under way while the children are created: the
handle is busy, and only the call that made it adds to it.

`recreateConvertRec_ends` is what a call comes to, from any state of a run, and
`recreateValue_ends` what the copy of a value with everything below it is.
-/

namespace Pointless

open Attempts ByteMemory ExceptRules Unfolding

/-! ## States of a run -/

/-- A place in the mappings holds a handle. -/
def RecreateState.Slot (s : RecreateState) (k : RecreateMapping × UInt32) (b : UInt32) : Prop :=
  (s.mapping k.1)[k.2.toNat]? = some b ∧ b ≠ uint32Max

/-- How many places hold none. -/
def RecreateState.vacant (s : RecreateState) : Nat :=
  (s.mapping .stringUnicode).count uint32Max + (s.mapping .vector).count uint32Max +
    (s.mapping .bitvector).count uint32Max + (s.mapping .set).count uint32Max +
    (s.mapping .map).count uint32Max

/-- The arrays for containers, whose values are not shared with others. -/
def RecreateMapping.OfContainers : RecreateMapping → Prop
  | .vector | .set | .map => True
  | _ => False

/-- A handle denotes a content that is a node, and that calls can change. -/
def Changeable (c : Create) (handle : UInt32) : Prop :=
  ∃ content node, Denotes c handle content ∧ content.node = some node ∧ ¬content.Fixed

/-- A state of a run, where `busy` are the handles that are under way. -/
structure Steady (p : OpenFile) (busy : List UInt32) (s : RecreateState) : Prop where
  reachable : CreateReachable s.c
  sized : ∀ m, (s.mapping m).length = (recreateCount p m).toNat
  normalize : s.normalizeBitvector = true
  slots : ∀ k b, s.Slot k b → ∃ content, Denotes s.c b content
  apart : ∀ k k' b, k.1.OfContainers → k'.1.OfContainers → s.Slot k b → s.Slot k' b → k = k'
  growing : ∀ h ∈ busy, Changeable s.c h

/-- The handle that a value was given: the one in its place, or the handle of a leaf. -/
inductive Given (p : OpenFile) (busy : List UInt32) (s : RecreateState) (a : Value) (b : UInt32) :
    Prop where
  | mapped {k : RecreateMapping × UInt32} (key : slotKey a = some k) (slot : s.Slot k b)
  | leaf {content : Content} {label : NodeLabel} (key : slotKey a = none) (idle : b ∉ busy)
      (denotes : Denotes s.c b content) (isNode : content.node = some (label, []))
      (read : fileNode p a = .ok (label, []))

/-- The content of `b` is `o`, with the handles that the children were given. -/
def CopyOf (p : OpenFile) (busy : List UInt32) (s : RecreateState) (o : Value) (b : UInt32) : Prop :=
  b ∉ busy ∧ ∃ label children content copies, fileNode p o = .ok (label, children) ∧
    Denotes s.c b content ∧ content.node = some (label, copies) ∧
    List.Forall₂ (Given p busy s) children copies

/-- The content of `b` is one of the values whose place is `k`. -/
def Copied (p : OpenFile) (root : Value) (busy : List UInt32) (s : RecreateState)
    (k : RecreateMapping × UInt32) (b : UInt32) : Prop :=
  ∃ o, Below (fileNode p) root o ∧ slotKey o = some k ∧ CopyOf p busy s o b

/-- `t` comes after `s`, and what was created between them is complete. -/
structure Later (p : OpenFile) (root : Value) (busy : List UInt32) (s t : RecreateState) : Prop where
  steady : Steady p busy t
  kept : ∀ h content, Denotes s.c h content → Denotes t.c h content
  held : ∀ k b, s.Slot k b → t.Slot k b
  made : ∀ k b, t.Slot k b → s.Slot k b ∨ Copied p root busy t k b
  vacant : t.vacant ≤ s.vacant

/-! ## Later states -/

section Later

variable {p : OpenFile} {root v : Value} {busy : List UInt32} {s t u : RecreateState}
  {a o : Value} {b : UInt32} {k : RecreateMapping × UInt32}

theorem RecreateState.Slot.unique {b' : UInt32} (slot : s.Slot k b) (slot' : s.Slot k b') :
    b = b' := Option.some.inj (slot.1.symm.trans slot'.1)

/-- Contents that are not under way are kept, and so are the places. -/
structure Onward (busy : List UInt32) (s t : RecreateState) : Prop where
  kept : ∀ h ∉ busy, ∀ content, Denotes s.c h content → Denotes t.c h content
  held : ∀ k b, s.Slot k b → t.Slot k b

theorem Later.onward (later : Later p root busy s t) : Onward busy s t :=
  ⟨fun h _ => later.kept h, later.held⟩

theorem Given.mono (given : Given p busy s a b) (onward : Onward busy s t) :
    Given p busy t a b := by
  cases given with
  | mapped key slot => exact .mapped key (onward.held _ _ slot)
  | leaf key idle denotes isNode read =>
      exact .leaf key idle (onward.kept b idle _ denotes) isNode read

theorem CopyOf.mono (copy : CopyOf p busy s o b) (onward : Onward busy s t) :
    CopyOf p busy t o b := by
  obtain ⟨idle, label, children, content, copies, read, denotes, isNode, each⟩ := copy
  exact ⟨idle, label, children, content, copies, read, onward.kept b idle _ denotes, isNode,
    each.imp fun _ _ given => given.mono onward⟩

theorem Copied.mono (copied : Copied p root busy s k b) (onward : Onward busy s t) :
    Copied p root busy t k b := by
  obtain ⟨o, below, key, copy⟩ := copied
  exact ⟨o, below, key, copy.mono onward⟩

/-- Fewer handles are under way. -/
theorem Given.narrow {h : UInt32} (given : Given p (h :: busy) s a b) : Given p busy s a b := by
  cases given with
  | mapped key slot => exact .mapped key slot
  | leaf key idle denotes isNode read =>
      exact .leaf key (fun mem => idle (List.mem_cons_of_mem h mem)) denotes isNode read

theorem Copied.narrow {h : UInt32} (copied : Copied p root (h :: busy) s k b) :
    Copied p root busy s k b := by
  obtain ⟨o, below, key, idle, label, children, content, copies, read, denotes, isNode, each⟩ :=
    copied
  exact ⟨o, below, key, fun mem => idle (List.mem_cons_of_mem h mem), label, children, content,
    copies, read, denotes, isNode, each.imp fun _ _ given => given.narrow⟩

theorem Steady.narrow {h : UInt32} (steady : Steady p (h :: busy) s) : Steady p busy s where
  reachable := steady.reachable
  sized := steady.sized
  normalize := steady.normalize
  slots := steady.slots
  apart := steady.apart
  growing := fun h' mem => steady.growing h' (List.mem_cons_of_mem h mem)

theorem Later.refl (steady : Steady p busy s) : Later p root busy s s where
  steady := steady
  kept := fun _ _ denotes => denotes
  held := fun _ _ slot => slot
  made := fun _ _ slot => .inl slot
  vacant := Nat.le_refl _

theorem Later.trans (first : Later p root busy s t) (second : Later p root busy t u) :
    Later p root busy s u where
  steady := second.steady
  kept := fun h content denotes => second.kept h content (first.kept h content denotes)
  held := fun k b slot => second.held k b (first.held k b slot)
  made := by
    intro k b slot
    rcases second.made k b slot with before | copied
    · rcases first.made k b before with before | copied
      · exact .inl before
      · exact .inr (copied.mono second.onward)
    · exact .inr copied
  vacant := Nat.le_trans second.vacant first.vacant

/-- What was given has a handle. -/
theorem Given.isHandle (given : Given p busy s a b) (steady : Steady p busy s) :
    IsHandle s.c b := by
  cases given with
  | mapped key slot =>
      obtain ⟨content, denotes⟩ := steady.slots _ b slot
      exact denotes.isHandle
  | leaf key idle denotes isNode read => exact denotes.isHandle

end Later

/-! ## New handles -/

section New

variable {p : OpenFile} {busy : List UInt32} {s : RecreateState} {c : Create} {b : UInt32}
  {cv : CreateValue} {content : Content} {node : NodeLabel × List UInt32}

/-- The pools whose items calls can change. -/
def Pool.Changeable : Pool → Prop
  | .priv | .set | .map => True
  | _ => False

/-- Of the contents that are nodes, those in the pools that grow can be changed. -/
theorem fixed_iff_pool (shows : cv.Shows c content) (isNode : content.node = some node) :
    content.Fixed ↔ ∀ pool, cv.pool = some pool → ¬pool.Changeable := by
  cases content with
  | inline type data =>
      obtain rfl : cv = .plain type data := shows
      refine iff_of_true trivial fun pool here => ?_
      unfold CreateValue.pool at here
      change (if isBitvectorType type then _ else _) = _ at isNode
      cases type <;> cases here <;> first | exact not_false | cases isNode
  | text type chars =>
      obtain ⟨rfl, isText, -⟩ := shows
      refine iff_of_true trivial fun pool here => ?_
      unfold CreateValue.pool at here
      rcases isText.1 with type | type <;> rw [type] at here <;> cases here <;> exact not_false
  | bits shown =>
      obtain ⟨buffer, -, shows⟩ := shows
      change (if shown ≠ [] ∧ shown.length < 2 ^ 32 then _ else _) = _ at isNode
      split at isNode
      case isTrue some_ =>
        have isBits := shows.isBitvector some_.1 some_.2
        refine iff_of_true trivial fun pool here => ?_
        unfold CreateValue.pool at here
        unfold isBitvectorType at isBits
        cases type : cv.type <;> rw [type] at here isBits <;> cases here <;>
          first | exact not_false | cases isBits
      case isFalse => cases isNode
  | owned type items nItems =>
      obtain ⟨-, outside, -⟩ := shows
      refine iff_of_true trivial fun pool here => ?_
      cases outside.symm.trans here
      exact not_false
  | vector type array =>
      obtain ⟨-, own, -⟩ := shows
      exact iff_of_false not_false fun none_ => none_ _ own trivial
  | set keys =>
      obtain ⟨own, -⟩ := shows
      exact iff_of_false not_false fun none_ => none_ _ own trivial
  | map keys values =>
      obtain ⟨own, -⟩ := shows
      exact iff_of_false not_false fun none_ => none_ _ own trivial

/-- A handle does not denote both a content that can change and one that cannot. -/
theorem Changeable.not_fixed (growing : Changeable c b) (denotes : Denotes c b content)
    (isNode : content.node = some node) : ¬content.Fixed := by
  obtain ⟨content', node', ⟨cv, at_b, -, shows⟩, isNode', changes⟩ := growing
  obtain ⟨cv', at_b', -, shows'⟩ := denotes
  cases at_b.symm.trans at_b'
  rw [fixed_iff_pool shows' isNode, ← fixed_iff_pool shows isNode']
  exact changes

theorem Changeable.inside (growing : Changeable c b) : b.toNat < c.values.length := by
  obtain ⟨content, node, denotes, -, -⟩ := growing
  exact denotes.inside

/-- A handle that was created is not one of those under way. -/
theorem Created.idle {c' : Create} (created : Created s.c content b c')
    (isNode : content.node = some node) (steady : Steady p busy s) : b ∉ busy := by
  intro mem
  have growing := steady.growing b mem
  have after : Changeable c' b := by
    obtain ⟨content', node', denotes, isNode', changes⟩ := growing
    exact ⟨content', node', created.kept b content' denotes, isNode', changes⟩
  have changes := after.not_fixed created.denotes isNode
  have fresh := created.fresh fun shared => changes (Content.fixed_of_shared shared)
  exact Nat.not_le.mpr growing.inside fresh

/-- A handle that is not shared lies in no place yet. -/
theorem Created.not_slot {c' : Create} {k : RecreateMapping × UInt32}
    (created : Created s.c content b c') (own : ¬content.Shared) (steady : Steady p busy s) :
    ¬s.Slot k b := by
  intro slot
  obtain ⟨content', denotes⟩ := steady.slots k b slot
  exact Nat.not_le.mpr denotes.inside (created.fresh own)

/-- The labels of containers. -/
def NodeLabel.OfContainer : NodeLabel → Prop
  | .ints _ | .floats _ | .vector | .set | .map => True
  | _ => False

theorem numbersLabel_container (t : NumberType) (words : List Nat) :
    (numbersLabel t words).OfContainer := by
  unfold numbersLabel
  split
  · trivial
  · split <;> trivial

theorem fileNode_container {v : Value} {m : RecreateMapping} {children : List Value}
    {label : NodeLabel} (mapped : recreateMapping v.type = some m) (container : m.OfContainers)
    (read : fileNode p v = .ok (label, children)) : label.OfContainer := by
  unfold recreateMapping at mapped
  unfold fileNode at read
  cases type : v.type <;> rw [type] at mapped read <;> cases mapped <;>
    first | cases container; done | skip
  case setValue =>
    obtain ⟨_, -, rest⟩ := bind_eq_ok.mp read
    obtain ⟨_, -, rest⟩ := bind_eq_ok.mp rest
    cases rest
    trivial
  case mapValueValue =>
    obtain ⟨_, -, rest⟩ := bind_eq_ok.mp read
    obtain ⟨_, -, rest⟩ := bind_eq_ok.mp rest
    obtain ⟨_, -, rest⟩ := bind_eq_ok.mp rest
    obtain ⟨_, -, rest⟩ := bind_eq_ok.mp rest
    cases rest
    trivial
  all_goals
    obtain ⟨n, -, rest⟩ := bind_eq_ok.mp read
    unfold vectorNode at rest
    rw [type] at rest
    obtain ⟨_, -, rest⟩ := bind_eq_ok.mp rest
    cases rest
    first | trivial | exact numbersLabel_container _ _

/-- A content whose label is that of a container is not shared. -/
theorem not_shared_of_container (isNode : content.node = some node)
    (container : node.1.OfContainer) : ¬content.Shared := by
  intro shared
  cases content with
  | inline type data =>
      change (if isBitvectorType type then _ else _) = _ at isNode
      split at isNode
      case isTrue =>
        obtain ⟨bits, -, rfl⟩ := Option.map_eq_some_iff.mp isNode
        exact container
      case isFalse =>
        rw [if_neg shared] at isNode
        obtain ⟨label, plain, rfl⟩ := Option.map_eq_some_iff.mp isNode
        unfold plainLabel at plain
        cases type <;> cases plain <;> exact container
  | text type chars =>
      change (if chars.length < 2 ^ 32 then _ else _) = _ at isNode
      split at isNode <;> cases isNode
      exact container
  | bits shown =>
      change (if shown ≠ [] ∧ shown.length < 2 ^ 32 then _ else _) = _ at isNode
      split at isNode <;> cases isNode
      exact container
  | owned | vector | set | map => exact shared

end New

/-! ## Places -/

section Places

variable {v : Value} {s : RecreateState} {k : RecreateMapping × UInt32} {b : UInt32}
  {gaveUp : RecreateState → Prop}

/-- `t` is `s` with a handle in a place that held none. -/
structure Placed (s : RecreateState) (k : RecreateMapping × UInt32) (b : UInt32)
    (t : RecreateState) : Prop where
  c : t.c = s.c
  normalize : t.normalizeBitvector = s.normalizeBitvector
  sized : ∀ m, (t.mapping m).length = (s.mapping m).length
  here : t.Slot k b
  held : ∀ k' b', s.Slot k' b' → t.Slot k' b'
  made : ∀ k' b', t.Slot k' b' → s.Slot k' b' ∨ k' = k ∧ b' = b
  vacant : t.vacant < s.vacant

theorem count_modify_lt {l : List UInt32} {i : Nat} {x y : UInt32} (at_i : l[i]? = some x)
    (differ : y ≠ x) : (l.modify i fun _ => y).count x < l.count x := by
  obtain ⟨inside, here⟩ := List.getElem?_eq_some_iff.mp at_i
  have some_ : 0 < l.count x := List.count_pos_iff.mpr (here ▸ List.getElem_mem inside)
  have different : (y == x) = false := beq_eq_false_iff_ne.mpr differ
  rw [List.modify_eq_set, List.count_set inside, here, beq_self_eq_true, if_pos rfl, different]
  rw [if_neg Bool.false_ne_true]
  omega

/-- The state with a handle in a place. -/
def RecreateState.place (s : RecreateState) (m : RecreateMapping) (i : UInt32) (b : UInt32) :
    RecreateState :=
  { s with mapping := Function.update s.mapping m ((s.mapping m).modify i.toNat fun _ => b) }

theorem placed_place {m : RecreateMapping} {i : UInt32}
    (free : (s.mapping m)[i.toNat]? = some uint32Max) (some_ : b ≠ uint32Max) :
    Placed s (m, i) b (s.place m i b) := by
  have same : (s.place m i b).mapping m = (s.mapping m).modify i.toNat fun _ => b :=
    Function.update_self m _ _
  have other {m' : RecreateMapping} (apart : m' ≠ m) :
      (s.place m i b).mapping m' = s.mapping m' := Function.update_of_ne apart _ _
  have item {m' : RecreateMapping} {j : Nat} (apart : ¬(m' = m ∧ i.toNat = j)) :
      ((s.place m i b).mapping m')[j]? = (s.mapping m')[j]? := by
    by_cases sameMapping : m' = m
    · subst sameMapping
      rw [same, List.getElem?_modify_ne _ _ fun eq => apart ⟨rfl, eq⟩]
    · rw [other sameMapping]
  constructor
  case c => rfl
  case normalize => rfl
  case sized =>
    intro m'
    by_cases sameMapping : m' = m
    · subst sameMapping
      rw [same, List.length_modify]
    · rw [other sameMapping]
  case here =>
    refine ⟨?_, some_⟩
    rw [same, List.getElem?_modify_eq, free]
    rfl
  case held =>
    intro k' b' slot
    refine ⟨?_, slot.2⟩
    rw [item, slot.1]
    intro both
    have at_k := slot.1
    rw [both.1, ← both.2, free] at at_k
    exact slot.2 (Option.some.inj at_k).symm
  case made =>
    intro k' b' slot
    by_cases both : k'.1 = m ∧ i.toNat = k'.2.toNat
    · right
      have at_k := slot.1
      rw [both.1, same, ← both.2, List.getElem?_modify_eq, free] at at_k
      exact ⟨Prod.ext both.1 (UInt32.toNat_inj.mp both.2).symm, (Option.some.inj at_k).symm⟩
    · left
      refine ⟨?_, slot.2⟩
      rw [← item both]
      exact slot.1
  case vacant =>
    have fewer := count_modify_lt free some_
    rw [← same] at fewer
    unfold RecreateState.vacant
    cases m with
    | stringUnicode | vector | bitvector | set | map =>
        simp only [other, ne_eq, reduceCtorEq, not_false_eq_true]
        omega

/-- The handle of a value is put in its place. -/
theorem recreateSetMapped_ends (key : slotKey v = some k)
    (free : (s.mapping k.1)[k.2.toNat]? = some uint32Max) (some_ : b ≠ uint32Max) :
    Ends (recreateSetMapped v b) s (fun _ t => Placed s k b t) gaveUp := by
  obtain ⟨m, mapped, rfl⟩ := Option.map_eq_some_iff.mp key
  unfold recreateSetMapped
  rw [mapped]
  refine Ends.changing (a := ()) (t := s.place m v.data b) ?_ (placed_place free some_)
  rw [modifyAt_of_item free]
  rfl

end Places

/-! ## One call -/

/-- The handles are used up. -/
def OutOfHandles (s : RecreateState) : Prop := 2 ^ 32 ≤ s.c.values.length

/-- The place of a value, if it has one, holds no handle. -/
def Free (s : RecreateState) (v : Value) : Prop :=
  ∀ k, slotKey v = some k → (s.mapping k.1)[k.2.toNat]? = some uint32Max

/-- A value was created, and nothing that was there is changed. -/
structure Makes (p : OpenFile) (root : Value) (busy : List UInt32) (s : RecreateState) (v : Value)
    (b : UInt32) (t : RecreateState) : Prop where
  later : Later p root busy s t
  given : Given p busy t v b
  copy : CopyOf p busy t v b

section Calls

variable {p : OpenFile} {root v : Value} {busy : List UInt32} {s t : RecreateState} {call : Call}
  {content : Content} {b : UInt32} {c' : Create} {k : RecreateMapping × UInt32}

/-- A call whose answer is known. -/
theorem recreateCall_answers (error : String) {called : Create → Res (UInt32 × Create)}
    {answer : UInt32} (ran : called s.c = .ok (answer, c'))
    (full : answer = createValueFail → 2 ^ 32 ≤ c'.values.length) :
    Ends (recreateCall error called) s
      (fun b t => b = answer ∧ b ≠ createValueFail ∧ t = { s with c := c' }) OutOfHandles := by
  have first : Ends (changing fun s => (fun result => (result.1, { s with c := result.2 })) <$>
      called s.c : Recreate UInt32) s (fun b t => b = answer ∧ t = { s with c := c' })
      OutOfHandles := by
    refine Ends.changing (a := answer) (t := { s with c := c' }) ?_ ⟨rfl, rfl⟩
    rw [ran, map_ok]
  refine Ends.bind first fun b t here => ?_
  obtain ⟨rfl, rfl⟩ := here
  by_cases failed : b = createValueFail
  · rw [if_pos failed]
    exact Ends.giveUp (full failed)
  · rw [if_neg failed]
    exact Ends.pure ⟨rfl, failed, rfl⟩

/-- A call answers the handle of what it creates, or the handles are used up. -/
theorem recreateCall_ends (error : String) (reachable : CreateReachable s.c)
    (valid : call.Valid s.c) (narrow : call.Narrow) (created : call.created = some content) :
    Ends (recreateCall error fun c => call.run c) s
      (fun b t => b ≠ createValueFail ∧ ∃ c', Created s.c content b c' ∧ t = { s with c := c' })
      OutOfHandles := by
  obtain ⟨answer, c', ran, full⟩ := reachable.run_created valid narrow created
  refine (recreateCall_answers error ran full).mono fun b t here => ?_
  obtain ⟨rfl, some_, rfl⟩ := here
  exact ⟨some_, c', reachable.created valid narrow created ran some_, rfl⟩

theorem Steady.created (steady : Steady p busy s) (created : Created s.c content b c') :
    Steady p busy { s with c := c' } where
  reachable := created.reachable
  sized := steady.sized
  normalize := steady.normalize
  slots := by
    intro k b slot
    obtain ⟨content, denotes⟩ := steady.slots k b slot
    exact ⟨content, created.kept b content denotes⟩
  apart := steady.apart
  growing := by
    intro h mem
    obtain ⟨content, node, denotes, isNode, changes⟩ := steady.growing h mem
    exact ⟨content, node, created.kept h content denotes, isNode, changes⟩

theorem Later.created (steady : Steady p busy s) (created : Created s.c content b c') :
    Later p root busy s { s with c := c' } where
  steady := steady.created created
  kept := created.kept
  held := fun _ _ slot => slot
  made := fun _ _ slot => .inl slot
  vacant := Nat.le_refl _

theorem Steady.placed (steady : Steady p busy s) (placed : Placed s k b t)
    (denotes : Denotes s.c b content) (own : k.1.OfContainers → ∀ k', ¬s.Slot k' b) :
    Steady p busy t where
  reachable := placed.c ▸ steady.reachable
  sized := fun m => (placed.sized m).trans (steady.sized m)
  normalize := placed.normalize.trans steady.normalize
  slots := by
    intro k' b' slot
    rw [placed.c]
    rcases placed.made k' b' slot with before | ⟨-, rfl⟩
    · exact steady.slots k' b' before
    · exact ⟨content, denotes⟩
  apart := by
    intro k₁ k₂ b' isContainer isContainer' slot slot'
    rcases placed.made k₁ b' slot with before | ⟨rfl, rfl⟩
    · rcases placed.made k₂ b' slot' with before' | ⟨rfl, rfl⟩
      · exact steady.apart k₁ k₂ b' isContainer isContainer' before before'
      · exact absurd before (own isContainer' k₁)
    · rcases placed.made k₂ b' slot' with before' | ⟨rfl, -⟩
      · exact absurd before' (own isContainer k₂)
      · rfl
  growing := placed.c ▸ steady.growing

/-- A leaf is created by one call. -/
theorem recreateByCall_ends (error : String) (steady : Steady p busy s)
    (leaf : CreatesLeaf p v call) (below : Below (fileNode p) root v) (free : Free s v) :
    Ends (recreateByCall v error call) s (Makes p root busy s v) OutOfHandles := by
  obtain ⟨content, label, isCreated, isNode, read⟩ := leaf.leaf
  refine Ends.bind (recreateCall_ends error steady.reachable (leaf.valid s.c) leaf.narrow
    isCreated) fun b t here => ?_
  obtain ⟨some_, c', created, rfl⟩ := here
  have idle := created.idle isNode steady
  have later : Later p root busy s { s with c := c' } := .created steady created
  cases key : slotKey v with
  | none =>
      have unmapped : recreateSetMapped v b = pure () := by
        unfold recreateSetMapped
        rw [Option.map_eq_none_iff.mp key]
      rw [unmapped, pure_bind]
      exact Ends.pure ⟨later, .leaf key idle created.denotes isNode read, idle, label, [], content,
        [], read, created.denotes, isNode, .nil⟩
  | some k =>
      refine Ends.bind (recreateSetMapped_ends key (free k key) some_) fun _ t placed => ?_
      have denotes : Denotes t.c b content := placed.c ▸ created.denotes
      have copy : CopyOf p busy t v b :=
        ⟨idle, label, [], content, [], read, denotes, isNode, .nil⟩
      refine Ends.pure ⟨later.trans ?_, .mapped key placed.here, copy⟩
      have own : k.1.OfContainers → ∀ k', ¬s.Slot k' b := by
        intro container k'
        obtain ⟨m, mapped, rfl⟩ := Option.map_eq_some_iff.mp key
        have isContainer := fileNode_container mapped container read
        exact created.not_slot (not_shared_of_container isNode isContainer) steady
      refine ⟨later.steady.placed placed created.denotes own, fun h x denotes => placed.c ▸ denotes,
        placed.held, fun k' b' slot => ?_, Nat.le_of_lt placed.vacant⟩
      rcases placed.made k' b' slot with before | ⟨rfl, rfl⟩
      · exact .inl before
      · exact .inr ⟨v, below, key, copy⟩

end Calls

/-! ## A call and a loop -/

/-- A content that a loop fills, with its label and its children so far. -/
inductive Filling : NodeLabel → List UInt32 → Content → Prop where
  | vector (array : Dynarray) :
      Filling .vector (array.items.map UInt32.ofNat) (.vector .vectorValue array)
  | set (keys : List UInt32) : Filling .set keys (.set keys)
  | map (keys values : List UInt32) (same : keys.length = values.length) :
      Filling .map (entryList keys values) (.map keys values)

/-- The handle `b` of a container, which lies in the place `k`, is under way, and its content
is made of what `kids` were given. -/
structure Filled (p : OpenFile) (root : Value) (busy : List UInt32) (s : RecreateState)
    (k : RecreateMapping × UInt32) (b : UInt32) (label : NodeLabel) (kids : List Value)
    (t : RecreateState) : Prop where
  steady : Steady p (b :: busy) t
  kept : ∀ h content, Denotes s.c h content → Denotes t.c h content
  here : t.Slot k b
  held : ∀ k' b', s.Slot k' b' → t.Slot k' b'
  made : ∀ k' b', t.Slot k' b' → s.Slot k' b' ∨ (k' = k ∧ b' = b) ∨ Copied p root (b :: busy) t k' b'
  vacant : t.vacant < s.vacant
  fresh : s.c.values.length ≤ b.toNat
  content : ∃ content copies, Denotes t.c b content ∧ Filling label copies content ∧
    List.Forall₂ (Given p (b :: busy) t) kids copies

/-- A call of `recreateConvertRec` comes to a later state, while fewer than `n` places hold no
handle. -/
def Recreates (p : OpenFile) (root : Value) (rec : Value → Recreate UInt32) (n : Nat) : Prop :=
  ∀ busy t v, Reachable p v → Below (fileNode p) root v → Steady p busy t → t.vacant < n →
    Ends (rec v) t (fun b u => Later p root busy t u ∧ Given p busy u v b) OutOfHandles

section Loops

variable {p : OpenFile} {root v child : Value} {busy : List UInt32} {s t u : RecreateState}
  {k : RecreateMapping × UInt32} {b : UInt32} {label : NodeLabel} {kids as : List Value}
  {copies bs : List UInt32} {content : Content} {c' : Create}

theorem Filling.isNode (filling : Filling label copies content) :
    content.node = some (label, copies) := by
  cases filling with
  | vector | set | map => rfl

theorem Filling.changes (filling : Filling label copies content) : ¬content.Fixed := by
  cases filling with
  | vector | set | map => exact not_false

/-- A child is created. -/
theorem Filled.mono (filled : Filled p root busy s k b label kids t)
    (later : Later p root (b :: busy) t u) : Filled p root busy s k b label kids u := by
  obtain ⟨content, copies, denotes, filling, each⟩ := filled.content
  refine ⟨later.steady, fun h x denotes => later.kept h x (filled.kept h x denotes),
    later.held _ _ filled.here, fun k' b' slot => later.held k' b' (filled.held k' b' slot), ?_,
    Nat.lt_of_le_of_lt later.vacant filled.vacant, filled.fresh, content, copies,
    later.kept b content denotes, filling, each.imp fun _ _ given => given.mono later.onward⟩
  intro k' b' slot
  rcases later.made k' b' slot with before | copied
  · rcases filled.made k' b' before with before | same | copied
    · exact .inl before
    · exact .inr (.inl same)
    · exact .inr (.inr (copied.mono later.onward))
  · exact .inr (.inr copied)

/-- The handles of children are added. -/
theorem Filled.added (filled : Filled p root busy s k b label kids t) {change : Content → Content}
    (given : List.Forall₂ (Given p (b :: busy) t) as bs) (reachable : CreateReachable c')
    (changes : Changes t.c b change c')
    (grows : ∀ copies content, Filling label copies content →
      Filling label (copies ++ bs) (change content)) :
    Filled p root busy s k b label (kids ++ as) { t with c := c' } := by
  obtain ⟨content, copies, denotes, filling, each⟩ := filled.content
  have other : ∀ h content, h ≠ b → Denotes t.c h content → Denotes c' h content := by
    intro h content apart denotes
    have after := changes.denotes h content denotes
    rw [if_neg fun same => apart same.symm] at after
    exact after
  have own : Denotes c' b (change content) := by
    have after := changes.denotes b content denotes
    rw [if_pos rfl] at after
    exact after
  have filling := grows copies content filling
  have onward : Onward (b :: busy) t { t with c := c' } :=
    ⟨fun h idle content => other h content fun same => idle (same ▸ List.mem_cons_self),
      fun _ _ slot => slot⟩
  refine ⟨⟨reachable, filled.steady.sized, filled.steady.normalize, ?_, filled.steady.apart, ?_⟩,
    ?_, filled.here,
    filled.held, ?_, filled.vacant, filled.fresh, change content, copies ++ bs, own, filling, ?_⟩
  · intro k' b' slot
    obtain ⟨content', denotes'⟩ := filled.steady.slots k' b' slot
    exact ⟨_, changes.denotes b' content' denotes'⟩
  · intro h mem
    by_cases same : h = b
    · subst same
      exact ⟨_, _, own, filling.isNode, filling.changes⟩
    · obtain ⟨content', node, denotes', isNode, canChange⟩ := filled.steady.growing h mem
      exact ⟨content', node, other h content' same denotes', isNode, canChange⟩
  · intro h content' denotes'
    refine other h content' ?_ (filled.kept h content' denotes')
    intro same
    have inside := denotes'.inside
    have fresh := filled.fresh
    rw [same] at inside
    omega
  · intro k' b' slot
    rcases filled.made k' b' slot with before | same | copied
    · exact .inl before
    · exact .inr (.inl same)
    · exact .inr (.inr (copied.mono onward))
  · apply List.rel_append
    · exact each.imp fun _ _ given => given.mono onward
    · exact given.imp fun _ _ given => given.mono onward

/-- The call that adds the handles of children. -/
theorem recreateAdd_ends (error : String) (filled : Filled p root busy s k b label kids t)
    {called : Create → Res (UInt32 × Create)} {change : Content → Content}
    (given : List.Forall₂ (Given p (b :: busy) t) as bs)
    (add : ∃ c', called t.c = .ok (b, c') ∧ CreateReachable c' ∧ Changes t.c b change c')
    (grows : ∀ copies content, Filling label copies content →
      Filling label (copies ++ bs) (change content)) :
    Ends (recreateAdd error called) t
      (fun _ u => Filled p root busy s k b label (kids ++ as) u) OutOfHandles := by
  obtain ⟨c', ran, reachable, changes⟩ := add
  have some_ : b ≠ createValueFail := filled.here.2
  refine Ends.bind (recreateCall_answers error ran fun failed => absurd failed some_)
    fun _ u here => ?_
  obtain ⟨-, -, rfl⟩ := here
  exact Ends.pure (filled.added given reachable changes grows)

/-! ### Rounds -/

variable {rec : Value → Recreate UInt32} {value : Value}

/-- An item of a value vector. -/
theorem recreateItem_ends (recreates : Recreates p root rec s.vacant)
    (filled : Filled p root busy s k b .vector kids t) (reach : Reachable p child)
    (below : Below (fileNode p) root child) :
    Ends (recreateItem rec b child) t
      (fun _ u => Filled p root busy s k b .vector (kids ++ [child]) u) OutOfHandles := by
  refine Ends.bind (recreates _ t child reach below filled.steady filled.vacant)
    fun handle u made => ?_
  obtain ⟨later, given⟩ := made
  have filled := filled.mono later
  have isHandle := given.isHandle filled.steady
  obtain ⟨content, copies, denotes, filling, -⟩ := filled.content
  cases filling with
  | vector array =>
      refine recreateAdd_ends _ filled (.cons given .nil)
        (filled.steady.reachable.append denotes isHandle) fun copies content filling => ?_
      cases filling with
      | vector array =>
          have pushed : ((array.push handle.toNat).items.map UInt32.ofNat) =
              array.items.map UInt32.ofNat ++ [handle] := by
            rw [Dynarray.push, List.map_append, List.map_singleton, UInt32.ofNat_toNat]
          rw [← pushed]
          exact .vector _

/-- A key of a set. -/
theorem recreateKey_ends (recreates : Recreates p root rec s.vacant)
    (filled : Filled p root busy s k b .set kids t) (reach : Reachable p child)
    (below : Below (fileNode p) root child) :
    Ends (recreateKey rec b child) t
      (fun _ u => Filled p root busy s k b .set (kids ++ [child]) u) OutOfHandles := by
  refine Ends.bind (recreates _ t child reach below filled.steady filled.vacant)
    fun handle u made => ?_
  obtain ⟨later, given⟩ := made
  have filled := filled.mono later
  have isHandle := given.isHandle filled.steady
  obtain ⟨content, copies, denotes, filling, -⟩ := filled.content
  cases filling with
  | set keys =>
      refine recreateAdd_ends _ filled (.cons given .nil)
        (filled.steady.reachable.setAdd denotes isHandle) fun copies content filling => ?_
      cases filling with
      | set keys => exact .set _

theorem entryList_append {α : Type} {keys values : List α} (same : keys.length = values.length)
    (key value : α) :
    entryList (keys ++ [key]) (values ++ [value]) = entryList keys values ++ [key, value] := by
  rw [entryList, List.zip_append same, List.flatMap_append]
  rfl

/-- A key of a map and its value. -/
theorem recreateEntry_ends (recreates : Recreates p root rec s.vacant)
    (filled : Filled p root busy s k b .map kids t) (reach : Reachable p child)
    (below : Below (fileNode p) root child) (reach' : Reachable p value)
    (below' : Below (fileNode p) root value) :
    Ends (recreateEntry rec b (child, value)) t
      (fun _ u => Filled p root busy s k b .map (kids ++ [child, value]) u) OutOfHandles := by
  refine Ends.bind (recreates _ t child reach below filled.steady filled.vacant)
    fun key u made => ?_
  obtain ⟨later, givenKey⟩ := made
  have filled := filled.mono later
  refine Ends.bind (recreates _ u value reach' below' filled.steady filled.vacant)
    fun handle u' made => ?_
  obtain ⟨later, givenValue⟩ := made
  have filled := filled.mono later
  have givenKey := givenKey.mono later.onward
  have isKey := givenKey.isHandle filled.steady
  have isValue := givenValue.isHandle filled.steady
  obtain ⟨content, copies, denotes, filling, -⟩ := filled.content
  cases filling with
  | map keys values same =>
      refine recreateAdd_ends _ filled (.cons givenKey (.cons givenValue .nil))
        (filled.steady.reachable.mapAdd denotes isKey isValue) fun copies content filling => ?_
      cases filling with
      | map keys values same =>
          rw [← entryList_append same]
          exact .map _ _ (by rw [List.length_append, List.length_append, same]; rfl)

/-! ### The whole -/

/-- A container is created, and then filled. -/
theorem recreateFilled_ends (error : String) {call : Call} {children : List Value}
    {fill : UInt32 → Recreate Unit} (steady : Steady p busy s) (below : Below (fileNode p) root v)
    (key : slotKey v = some k) (free : Free s v) (valid : call.Valid s.c) (narrow : call.Narrow)
    (created : call.created = some content) (empty : Filling label [] content)
    (node : fileNode p v = .ok (label, children))
    (fills : ∀ b t, Filled p root busy s k b label [] t →
      Ends (fill b) t (fun _ u => Filled p root busy s k b label children u) OutOfHandles) :
    Ends (recreateFilled v error call fill) s (Makes p root busy s v) OutOfHandles := by
  refine Ends.bind (recreateCall_ends error steady.reachable valid narrow created)
    fun b t here => ?_
  obtain ⟨some_, c', created, rfl⟩ := here
  have idle := created.idle empty.isNode steady
  have steady' := steady.created created
  refine Ends.bind (recreateSetMapped_ends key (free k key) some_) fun _ t placed => ?_
  have denotes : Denotes t.c b content := placed.c ▸ created.denotes
  have own : ¬content.Shared := fun shared => empty.changes (Content.fixed_of_shared shared)
  have placedSteady := steady'.placed placed created.denotes
    fun _ k' => created.not_slot own steady
  have start : Filled p root busy s k b label [] t := by
    refine ⟨⟨placedSteady.reachable, placedSteady.sized, placedSteady.normalize,
      placedSteady.slots, placedSteady.apart, ?_⟩,
      fun h x denotes => placed.c ▸ created.kept h x denotes, placed.here, placed.held,
      fun k' b' slot => ?_, placed.vacant, created.fresh own,
      content, [], denotes, empty, .nil⟩
    · intro h mem
      rcases List.mem_cons.mp mem with rfl | rest
      · exact ⟨content, _, denotes, empty.isNode, empty.changes⟩
      · exact placedSteady.growing h rest
    · rcases placed.made k' b' slot with before | same
      · exact .inl before
      · exact .inr (.inl same)
  refine Ends.bind (fills b t start) fun _ u filled => ?_
  obtain ⟨content, copies, denotes, filling, each⟩ := filled.content
  have copy : CopyOf p busy u v b := ⟨idle, label, children, content, copies, node, denotes,
    filling.isNode, each.imp fun _ _ given => given.narrow⟩
  refine Ends.pure ⟨⟨filled.steady.narrow, filled.kept, filled.held, fun k' b' slot => ?_,
    Nat.le_of_lt filled.vacant⟩, .mapped key filled.here, copy⟩
  rcases filled.made k' b' slot with before | ⟨rfl, rfl⟩ | copied
  · exact .inl before
  · exact .inr ⟨v, below, key, copy⟩
  · exact .inr copied.narrow

end Loops

/-! ## Values -/

section Values

variable {p : OpenFile} {root v : Value} {busy : List UInt32} {s : RecreateState}
  {k : RecreateMapping × UInt32} {b : UInt32} {rec : Value → Recreate UInt32}

/-- A value that has no handle yet is created. -/
theorem recreateNew_ends {nItems : UInt32} (accepted : p.Accepted) (reach : Reachable p v)
    (below : Below (fileNode p) root v) (steady : Steady p busy s) (free : Free s v)
    (count : isVectorType v.type = true → readerVectorNItems p v = .ok nItems)
    (recreates : Recreates p root rec s.vacant) :
    Ends (recreateNew p rec v nItems) s (Makes p root busy s v) OutOfHandles := by
  have inside {label : NodeLabel} {children : List Value}
      (node : fileNode p v = .ok (label, children)) :
      ∀ w ∈ children, Reachable p w ∧ Below (fileNode p) root w := fun w mem =>
    ⟨accepted.children reach node w mem, below.tail ⟨label, children, node, mem⟩⟩
  have keyed {m : RecreateMapping} (mapped : recreateMapping v.type = some m) :
      slotKey v = some (m, v.data) := congrArg (Option.map _) mapped
  rcases recreateNew_cases rec accepted reach count with byCall | type | type | type
  · obtain ⟨error, call, leaf, same⟩ := byCall
    exact (recreateByCall_ends error steady leaf below free).of_run (same s steady.normalize)
  · have vector : isVectorType v.type = true := by
      rcases type with type | type <;> rw [type] <;> rfl
    have mapped : recreateMapping v.type = some .vector := by
      rcases type with type | type <;> rw [type] <;> rfl
    obtain ⟨items, node, -, made⟩ :=
      recreateNew_values rec accepted.sound reach type (count vector)
    rw [made]
    refine recreateFilled_ends _ steady below (keyed mapped) free trivial trivial rfl
      (.vector (.init 4)) node fun b t start => Ends.forM start ?_
    intro done item rest u split filled
    have mem : item ∈ items := split ▸ List.mem_append_right _ List.mem_cons_self
    exact recreateItem_ends recreates filled (inside node item mem).1 (inside node item mem).2
  · have mapped : recreateMapping v.type = some .set := by
      rw [type]
      rfl
    obtain ⟨keys, node, -, made⟩ := recreateNew_set (n := nItems) rec accepted reach type
    rw [made]
    refine recreateFilled_ends _ steady below (keyed mapped) free trivial trivial rfl (.set _)
      node fun b t start => Ends.forM start ?_
    intro done item rest u split filled
    have mem : item ∈ keys := split ▸ List.mem_append_right _ List.mem_cons_self
    exact recreateKey_ends recreates filled (inside node item mem).1 (inside node item mem).2
  · have mapped : recreateMapping v.type = some .map := by
      rw [type]
      rfl
    obtain ⟨entries, node, -, made⟩ := recreateNew_map (n := nItems) rec accepted reach type
    rw [made]
    refine recreateFilled_ends _ steady below (keyed mapped) free trivial trivial rfl
      (.map [] [] rfl) node fun b t start => ?_
    apply Ends.forM
    · exact start
    intro done entry rest u split filled
    have mem : entry ∈ entries := split ▸ List.mem_append_right _ List.mem_cons_self
    have part : ∀ w ∈ [entry.1, entry.2], Reachable p w ∧ Below (fileNode p) root w :=
      fun w isPart => inside node w (List.mem_flatMap.mpr ⟨entry, mem, isPart⟩)
    have key := part entry.1 List.mem_cons_self
    have value := part entry.2 (List.mem_cons_of_mem _ List.mem_cons_self)
    rw [List.flatMap_append]
    exact recreateEntry_ends recreates filled key.1 key.2 value.1 value.2

/-- The handle of a place comes before anything else. -/
theorem recreateMapped_slot (key : slotKey v = some k)
    (item : (s.mapping k.1)[k.2.toNat]? = some b) (next : UInt32 → Recreate UInt32) :
    run (recreateMapped v >>= next) s = run (next b) s := by
  obtain ⟨m, mapped, rfl⟩ := Option.map_eq_some_iff.mp key
  unfold recreateMapped
  rw [mapped]
  exact run_looking_bind (itemAt_eq_ok.mpr item)

/-- A value whose place is free is created. -/
theorem recreateConvertOver_free (accepted : p.Accepted) (reach : Reachable p v)
    (below : Below (fileNode p) root v) (steady : Steady p busy s) (free : Free s v)
    (recreates : Recreates p root rec s.vacant) :
    Ends (recreateConvertOver p rec v) s (Makes p root busy s v) OutOfHandles := by
  have looked (next : UInt32 → Recreate UInt32) :
      run (recreateMapped v >>= next) s = run (next uint32Max) s := by
    cases key : slotKey v with
    | none =>
        unfold recreateMapped
        rw [Option.map_eq_none_iff.mp key]
        rfl
    | some k => exact recreateMapped_slot key (free k key) next
  obtain ⟨n, count⟩ := accepted.sound.counted reach
  refine Ends.of_run ?_ (looked _)
  rw [if_neg (not_not.mpr rfl)]
  by_cases vector : isVectorType v.type = true
  · rw [if_pos vector, reading_bind (count vector)]
    exact recreateNew_ends accepted reach below steady free count recreates
  · have zero : (pure 0 : Res UInt32) = .ok 0 := rfl
    rw [if_neg vector, reading_bind zero]
    exact recreateNew_ends accepted reach below steady free (fun isVector => absurd isVector vector)
      recreates

/-- A call of `recreateConvertRec`, by induction on how deep it may go. A call goes deeper
only for a value whose place was free. -/
theorem recreateConvertRec_ends (accepted : p.Accepted) (fuel : Nat) :
    Recreates p root (recreateConvertRec p fuel) fuel := by
  induction fuel with
  | zero =>
      intro busy t v _ _ _ enough
      exact absurd enough (Nat.not_lt_zero _)
  | succ fuel ih =>
      intro busy s v reach below steady enough
      by_cases free : Free s v
      · have recreates : Recreates p root (recreateConvertRec p fuel) s.vacant :=
          fun busy t w reach below steady less =>
            ih busy t w reach below steady (Nat.lt_of_lt_of_le less (Nat.le_of_lt_succ enough))
        refine (recreateConvertOver_free accepted reach below steady free recreates).mono ?_
        exact fun b t makes => ⟨makes.later, makes.given⟩
      · obtain ⟨k, key, taken⟩ : ∃ k, slotKey v = some k ∧
            ¬(s.mapping k.1)[k.2.toNat]? = some uint32Max := by
          simpa only [Free, not_forall, exists_prop] using free
        obtain ⟨m, mapped, rfl⟩ := Option.map_eq_some_iff.mp key
        have inside : v.data.toNat < (s.mapping m).length := by
          rw [steady.sized]
          exact accepted.sound.slot reach mapped
        have item : (s.mapping m)[v.data.toNat]? = some (s.mapping m)[v.data.toNat] :=
          List.getElem?_eq_getElem inside
        have some_ : (s.mapping m)[v.data.toNat] ≠ uint32Max := fun none_ =>
          taken (item.trans (congrArg some none_))
        refine Ends.of_run ?_ (recreateMapped_slot key item _)
        rw [if_pos some_]
        exact Ends.pure ⟨.refl steady, .mapped key ⟨item, some_⟩⟩

end Values

/-! ## A copy -/

section Copies

variable {p : OpenFile} {v : Value} {c : Create}

/-- A depth of calls that is enough for every value of a file. -/
def recreateDepth (p : OpenFile) : Nat :=
  p.header.nStringUnicode.toNat + p.header.nVector.toNat + p.header.nBitvector.toNat +
    p.header.nSet.toNat + p.header.nMap.toNat

theorem vacant_begin : (recreateBegin p c).vacant = recreateDepth p := by
  unfold RecreateState.vacant recreateBegin recreateDepth
  simp only [List.count_replicate_self, recreateCount]

theorem not_slot_begin {k : RecreateMapping × UInt32} {b : UInt32} :
    ¬(recreateBegin p c).Slot k b := by
  intro slot
  have item := List.mem_of_getElem? slot.1
  exact slot.2 (List.eq_of_mem_replicate item)

theorem steady_begin (reachable : CreateReachable c) : Steady p [] (recreateBegin p c) where
  reachable := reachable
  sized := fun _ => List.length_replicate
  normalize := rfl
  slots := fun _ _ slot => absurd slot not_slot_begin
  apart := fun _ _ _ _ _ slot => absurd slot not_slot_begin
  growing := fun _ mem => absurd mem List.not_mem_nil

theorem free_begin (sound : p.Sound) (reach : Reachable p v) : Free (recreateBegin p c) v := by
  intro k key
  obtain ⟨m, mapped, rfl⟩ := Option.map_eq_some_iff.mp key
  change (List.replicate (recreateCount p m).toNat uint32Max)[v.data.toNat]? = _
  rw [List.getElem?_replicate, if_pos (sound.slot reach mapped)]

/-- At the end of a run nothing is under way, and the handles that the values were given are
those of a copy. -/
theorem sharedCopy_of_later {s t : RecreateState} (later : Later p v [] s t)
    (fresh : ∀ k b, ¬s.Slot k b) :
    SharedCopy (fileNode p) (handleNode t.c) slotKey v (Given p [] t) where
  shared := by
    intro a a' b b' k keyA keyA' givenA givenA'
    cases givenA with
    | leaf none_ => cases keyA.symm.trans none_
    | mapped key slot =>
        cases keyA.symm.trans key
        cases givenA' with
        | leaf none_ => cases keyA'.symm.trans none_
        | mapped key' slot' =>
            cases keyA'.symm.trans key'
            exact slot.unique slot'
  made := by
    intro a b given
    cases given with
    | leaf key idle denotes isNode read =>
        exact ⟨a, _, [], [], .inl rfl, read, denotes.handleNode isNode, .nil⟩
    | mapped key slot =>
        rcases later.made _ b slot with before | copied
        · exact absurd before (fresh _ b)
        · obtain ⟨o, below, keyO, -, label, children, content, copies, read, denotes, isNode, each⟩ :=
            copied
          exact ⟨o, label, children, copies, .inr ⟨below, _, keyO, key⟩, read,
            denotes.handleNode isNode, each⟩
  labelled := fun _ _ _ _ _ _ keyA keyA' readA readA' => fileNode_labelled keyA keyA' readA readA'

/-- A value has a place in an array for containers, which is its index in the file. -/
def HasIndex (v : Value) (k : RecreateMapping × UInt32) : Prop :=
  slotKey v = some k ∧ k.1.OfContainers

/-- Containers of different indices were given different handles. -/
def GivenApart (given : Value → UInt32 → Prop) : Prop :=
  ∀ a a' b k k', HasIndex a k → HasIndex a' k' → given a b → given a' b → k = k'

theorem givenApart_of_steady {s : RecreateState} (steady : Steady p [] s) :
    GivenApart (Given p [] s) := by
  intro a a' b k k' index index' given given'
  cases given with
  | leaf none_ => cases index.1.symm.trans none_
  | mapped key slot =>
      cases index.1.symm.trans key
      cases given' with
      | leaf none_ => cases index'.1.symm.trans none_
      | mapped key' slot' =>
          cases index'.1.symm.trans key'
          exact steady.apart _ _ b index.2 index'.2 slot slot'

/-- `handle` is that of a copy of `v` with everything below it, and what there was before is
kept. -/
structure Recreated (p : OpenFile) (v : Value) (c : Create) (handle : UInt32) (c' : Create) :
    Prop where
  reachable : CreateReachable c'
  kept : ∀ h content, Denotes c h content → Denotes c' h content
  some_ : handle ≠ createValueFail
  copy : ∃ given label children copies, SharedCopy (fileNode p) (handleNode c') slotKey v given ∧
    GivenApart given ∧ given v handle ∧ fileNode p v = .ok (label, children) ∧
    handleNode c' handle = .ok (label, copies) ∧ List.Forall₂ given children copies

theorem recreated_of_makes {s t : RecreateState} {handle : UInt32}
    (makes : Makes p v [] s v handle t) (fresh : ∀ k b, ¬s.Slot k b) :
    Recreated p v s.c handle t.c := by
  obtain ⟨later, given, -, label, children, content, copies, read, denotes, isNode, each⟩ := makes
  have room := later.steady.reachable.shaped.2.room
  exact ⟨later.steady.reachable, later.kept, denotes.ne_fail room, Given p [] t, label, children,
    copies, sharedCopy_of_later later fresh, givenApart_of_steady later.steady, given, read,
    denotes.handleNode isNode, each⟩

/-- Re-creation of a value of an accepted file ends: there is a copy, or the handles are used
up. -/
theorem recreateValue_ends (accepted : p.Accepted) (reach : Reachable p v)
    (reachable : CreateReachable c) {fuel : Nat} (enough : recreateDepth p < fuel) :
    (∃ error c', recreateValue fuel p v c = .ok (.error error, c') ∧ 2 ^ 32 ≤ c'.values.length) ∨
      ∃ handle c', recreateValue fuel p v c = .ok (.ok handle, c') ∧ Recreated p v c handle c' := by
  cases fuel with
  | zero => cases enough
  | succ fuel =>
      have recreates : Recreates p v (recreateConvertRec p fuel) (recreateBegin p c).vacant := by
        intro busy t w reach below steady less
        rw [vacant_begin] at less
        exact recreateConvertRec_ends accepted fuel busy t w reach below steady
          (Nat.lt_of_lt_of_le less (Nat.le_of_lt_succ enough))
      obtain ⟨result, t, ran, holds⟩ := recreateConvertOver_free accepted reach .refl
        (steady_begin reachable) (free_begin accepted.sound reach) recreates
      have ran : run (recreateConvertRec p (fuel + 1) v) (recreateBegin p c) = .ok (result, t) :=
        ran
      have whole : recreateValue (fuel + 1) p v c = .ok (result, t.c) := by
        rw [recreateValue, ran]
        rfl
      cases result with
      | error message => exact .inl ⟨message, t.c, whole, holds⟩
      | ok handle =>
          exact .inr ⟨handle, t.c, whole, recreated_of_makes holds fun _ _ => not_slot_begin⟩

/-- A copy is alike to what was copied exactly where the values below it that have one place
are read the same. -/
theorem Recreated.alike_iff {handle : UInt32} {c' : Create}
    (recreated : Recreated p v c handle c') :
    Alike (fileNode p) (handleNode c') v handle ↔ KeyedAlike (fileNode p) slotKey v := by
  obtain ⟨given, label, children, copies, copy, -, here, -⟩ := recreated.copy
  exact copy.alike_iff here

end Copies

end Pointless
