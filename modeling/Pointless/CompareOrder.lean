import Pointless.TreeRead
import Pointless.ValidateSound

/-!
# The order of plain values

Whether `pointless_cmp_reader` is a total preorder on a set of values is a matter of
two things. An unsigned integer and a negative one are each less than the other. And
of two values with one callback, whose codes have that of another kind between them,
the lesser may be the one with the greater code.
-/

namespace Pointless

open ExceptRules

/-! ## Values -/

/-- A value that a comparison gets to in an accepted file, with no set, map, float or
bitvector in it, and nested below the depth limit. -/
structure PlainValue where
  {buf : List UInt8}
  {fuel : Nat}
  {error : Option String}
  file : OpenFile
  opened : openB fuel buf = .ok (file, error)
  value : CompleteValue
  readable : Readable file value
  plain : PlainWithin file ((maxDepth - 1) / 2) value

namespace PlainValue

/-- The tree of the value. -/
def tree (a : PlainValue) : Tree :=
  match readTree a.file ((maxDepth - 1) / 2) a.value with
  | .ok t => t
  | .error _ => .null

theorem readTree_eq (a : PlainValue) :
    readTree a.file ((maxDepth - 1) / 2) a.value = .ok a.tree := by
  obtain ⟨t, read⟩ := (openB_sound a.opened).readTree a.readable a.plain
  rw [tree, read]

/-- `pointless_cmp_reader` on two such values. -/
def cmp (a b : PlainValue) : Res Int := cmpReader a.file a.value b.file b.value

theorem cmp_eq (a b : PlainValue) : a.cmp b = .ok (a.tree.cmp b.tree) :=
  cmpReader_tree a.readTree_eq b.readTree_eq (by decide)

/-- The integer that the value is. -/
def number (a : PlainValue) : Option Int := a.tree.number

end PlainValue

/-- On the values of `S` the comparison is a total preorder, and goes by the value of
integers. -/
structure TotalPreorder (S : Set PlainValue) : Prop where
  antisymmetric : ∀ a ∈ S, ∀ b ∈ S, ∃ c d, a.cmp b = .ok c ∧ b.cmp a = .ok d ∧
    c.sign = -d.sign
  transitive : ∀ a ∈ S, ∀ b ∈ S, ∀ c ∈ S, (∃ ab ≤ 0, a.cmp b = .ok ab) →
    (∃ bc ≤ 0, b.cmp c = .ok bc) → ∃ ac ≤ 0, a.cmp c = .ok ac
  integers : ∀ a ∈ S, ∀ b ∈ S, ∀ x y, a.number = some x → b.number = some y →
    ∃ c, a.cmp b = .ok c ∧ c.sign = (x - y).sign

/-- Nothing in `S` breaks the order. -/
structure OrderHolds (S : Set PlainValue) : Prop where
  clash : ∀ a ∈ S, ∀ b ∈ S, ¬a.tree.Clash b.tree
  straddle : ∀ a ∈ S, ∀ b ∈ S, ∀ c ∈ S, Tree.Straddle a.tree b.tree c.tree →
    0 < b.tree.compare a.tree

section Order

variable {S : Set PlainValue}

theorem OrderHolds.cmp_eq (holds : OrderHolds S) {a b : PlainValue} (memA : a ∈ S) (memB : b ∈ S) :
    a.tree.cmp b.tree = a.tree.compare b.tree := by
  by_contra differ
  exact holds.clash a memA b memB (Tree.clash_of_cmp_ne differ)

theorem OrderHolds.transitive (holds : OrderHolds S) {a b c : PlainValue} (memA : a ∈ S)
    (memB : b ∈ S) (memC : c ∈ S) (ab : a.tree.compare b.tree ≤ 0)
    (bc : b.tree.compare c.tree ≤ 0) : a.tree.compare c.tree ≤ 0 := by
  by_contra above
  have ca : c.tree.compare a.tree ≤ 0 := by
    rw [Tree.compare_swap a.tree c.tree]
    omega
  have apart : ¬(a.tree.compare b.tree = 0 ∧ b.tree.compare c.tree = 0) := by
    rintro ⟨same, same'⟩
    rw [Tree.compare_eq_zero] at same same'
    have equal := Tree.compare_eq_zero.mpr (same.trans same')
    omega
  rcases Tree.exists_straddle ab bc ca apart with straddle | straddle | straddle
  · have above := holds.straddle b memB a memA c memC straddle
    omega
  · have above := holds.straddle c memC b memB a memA straddle
    omega
  · have above := holds.straddle a memA c memC b memB straddle
    omega

/-- A set of values is ordered exactly when it has no clash, and no straddle of values
of which the second is not the greater. -/
theorem cmp_totalPreorder_iff (S : Set PlainValue) : TotalPreorder S ↔ OrderHolds S := by
  constructor
  · intro order
    have noClash : ∀ a ∈ S, ∀ b ∈ S, ¬a.tree.Clash b.tree := by
      intro a memA b memB clash
      obtain ⟨left, right⟩ := clash.cmp_eq
      obtain ⟨c, d, ab, ba, swap⟩ := order.antisymmetric a memA b memB
      rw [PlainValue.cmp_eq, left] at ab
      rw [PlainValue.cmp_eq, right] at ba
      cases ab
      cases ba
      exact absurd swap (by decide)
    have byValue : ∀ a ∈ S, ∀ b ∈ S, a.cmp b = .ok (a.tree.compare b.tree) := by
      intro a memA b memB
      rw [PlainValue.cmp_eq]
      by_contra differ
      exact noClash a memA b memB (Tree.clash_of_cmp_ne fun same => differ (by rw [same]))
    refine ⟨noClash, fun a memA b memB c memC straddle => ?_⟩
    by_contra notAbove
    -- then `b` is at most `a`, `a` is less than `c`, and `c` is less than `b`
    obtain ⟨ac, cb⟩ := straddle.compare_eq
    obtain ⟨bc, le, compared⟩ := order.transitive b memB a memA c memC
      ⟨_, Int.not_lt.mp notAbove, byValue b memB a memA⟩
      ⟨_, by rw [ac]; decide, byValue a memA c memC⟩
    rw [byValue b memB c memC, Tree.compare_swap c.tree b.tree, cb] at compared
    cases compared
    exact absurd le (by decide)
  · intro holds
    have byValue : ∀ a ∈ S, ∀ b ∈ S, a.cmp b = .ok (a.tree.compare b.tree) := by
      intro a memA b memB
      rw [PlainValue.cmp_eq, holds.cmp_eq memA memB]
    refine ⟨fun a memA b memB => ?_, fun a memA b memB c memC ab bc => ?_,
      fun a memA b memB x y isX isY => ?_⟩
    · refine ⟨_, _, byValue a memA b memB, byValue b memB a memA, ?_⟩
      rw [Tree.compare_swap a.tree b.tree, Int.sign_neg, Int.neg_neg]
    · obtain ⟨ab, leAB, comparedAB⟩ := ab
      obtain ⟨bc, leBC, comparedBC⟩ := bc
      rw [byValue a memA b memB] at comparedAB
      rw [byValue b memB c memC] at comparedBC
      cases comparedAB
      cases comparedBC
      exact ⟨_, holds.transitive memA memB memC leAB leBC, byValue a memA c memC⟩
    · refine ⟨_, byValue a memA b memB, ?_⟩
      rw [Tree.compare_number isX isY, simpleCmp_int, Int.sign_sign]

end Order

/-! ## A clash -/

/-- A file whose root is the scalar `v`. -/
def scalarFile (v : Value) : List UInt8 :=
  bytesValue v ++ bytesU32 0 ++ bytesU32 0 ++ bytesU32 0 ++ bytesU32 0 ++ bytesU32 0 ++ bytesU32 2

/-- The file opened. -/
def scalarOpened (v : Value) : OpenFile := ⟨⟨v, 0, 0, 0, 0, 0, 2⟩, [], [], [], [], [], []⟩

set_option maxRecDepth 4000 in
/-- 1 is less than -1, and -1 is less than 1. -/
theorem one_clashes : ¬TotalPreorder Set.univ := by
  intro order
  have openedA : openB 0 (scalarFile ⟨.u32, 1⟩) = .ok (scalarOpened ⟨.u32, 1⟩, none) := by
    decide +kernel
  have openedB : openB 0 (scalarFile ⟨.i32, 0xffffffff⟩) =
      .ok (scalarOpened ⟨.i32, 0xffffffff⟩, none) := by decide +kernel
  let a : PlainValue := ⟨_, openedA, ⟨.u32, 1⟩, .number rfl, Or.inl rfl⟩
  let b : PlainValue := ⟨_, openedB, ⟨.i32, 0xffffffff⟩, .number rfl, Or.inl rfl⟩
  obtain ⟨c, d, ab, ba, swap⟩ := order.antisymmetric a trivial b trivial
  have left : cmpReader (scalarOpened ⟨.u32, 1⟩) ⟨.u32, 1⟩ (scalarOpened ⟨.i32, 0xffffffff⟩)
      ⟨.i32, 0xffffffff⟩ = .ok (-1) := by decide
  have right : cmpReader (scalarOpened ⟨.i32, 0xffffffff⟩) ⟨.i32, 0xffffffff⟩
      (scalarOpened ⟨.u32, 1⟩) ⟨.u32, 1⟩ = .ok (-1) := by decide
  cases left.symm.trans ab
  cases right.symm.trans ba
  exact absurd swap (by decide)

end Pointless
