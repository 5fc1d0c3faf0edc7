import Pointless.RecreateRuns

/-!
# Graphs that are re-created

The graph of a value of an accepted file and that of its copy: they unfold alike, and each
container of the one has one container of the other. `recreation_iff` says when this is so.
-/

namespace Pointless

open ExceptRules Unfolding

/-- The copy `handle` of `v` unfolds like `v`, and the containers below `v`, by their indices
in the file, have one container each in the copy, and different ones. -/
structure GraphPreserved (p : OpenFile) (v : Value) (c : Create) (handle : UInt32) : Prop where
  alike : Alike (fileNode p) (handleNode c) v handle
  one : ∀ k w, Below (fileNode p) v w → HasIndex w k →
    ∃! b, ∃ w', HasIndex w' k ∧ Paired (fileNode p) (handleNode c) v handle w' b
  apart : ∀ k k' w w' b, HasIndex w k → HasIndex w' k' →
    Paired (fileNode p) (handleNode c) v handle w b →
    Paired (fileNode p) (handleNode c) v handle w' b → k = k'

section Graphs

variable {p : OpenFile} {v : Value} {c c' : Create} {handle : UInt32}

/-- A copy preserves the graph exactly where the values below it that have one place are read
the same. -/
theorem Recreated.preserved_iff (recreated : Recreated p v c handle c') :
    GraphPreserved p v c' handle ↔ KeyedAlike (fileNode p) slotKey v := by
  constructor
  · intro preserved
    exact recreated.alike_iff.mp preserved.alike
  · intro keyed
    have alike := recreated.alike_iff.mpr keyed
    obtain ⟨given, _, _, _, copy, apart, here, -⟩ := recreated.copy
    refine ⟨alike, fun k w below index => ?_, fun k k' w w' b index index' paired paired' => ?_⟩
    · obtain ⟨b, paired, -⟩ := alike.exists_paired below
      refine ⟨b, ⟨w, index, paired⟩, fun b' other => ?_⟩
      obtain ⟨w', index', paired'⟩ := other
      have givenW := (copy.given_of_paired here keyed paired).2
      have givenW' := (copy.given_of_paired here keyed paired').2
      exact copy.shared w' w b' b k index'.1 index.1 givenW' givenW
    · have givenW := (copy.given_of_paired here keyed paired).2
      have givenW' := (copy.given_of_paired here keyed paired').2
      exact apart w w' b k k' index index' givenW givenW'

end Graphs

/-- Re-creation of a value of an accepted file ends, and an error says that the handles are
used up. Otherwise the copy preserves the graph exactly where the values below `v` that have
one place in the mappings are read the same. -/
theorem recreation_iff {buf : List UInt8} {fuel : Nat} {p : OpenFile} {error : Option String}
    {v : Value} (opened : openB fuel buf = .ok (p, error)) (reach : Reachable p v) {c : Create}
    (reachable : CreateReachable c) {calls : Nat} (enough : recreateDepth p < calls) :
    (∃ message c',
        recreateValue calls p v c = .ok (.error message, c') ∧ 2 ^ 32 ≤ c'.values.length) ∨
      ∃ handle c', recreateValue calls p v c = .ok (.ok handle, c') ∧
        (GraphPreserved p v c' handle ↔ KeyedAlike (fileNode p) slotKey v) := by
  rcases recreateValue_ends (openB_accepted opened) reach reachable enough with
    full | ⟨handle, c', ran, recreated⟩
  · exact .inl full
  · exact .inr ⟨handle, c', ran, recreated.preserved_iff⟩

/-! ## One vector under two types -/

/-- A file whose root is a vector of two items, which are one vector on the heap: with items
of one byte with a sign, and without. -/
def twoTypesFile : List UInt8 :=
  bytesValue ⟨.vectorValue, 0⟩ ++ bytesU32 0 ++ bytesU32 2 ++ bytesU32 0 ++ bytesU32 0 ++
    bytesU32 0 ++ bytesU32 2 ++ bytesU64 0 ++ bytesU64 20 ++
    bytesU32 2 ++ bytesValue ⟨.vectorI8, 1⟩ ++ bytesValue ⟨.vectorU8, 1⟩ ++
    bytesU32 1 ++ [255, 0, 0, 0]

/-- The file opened. -/
def twoTypesOpened : OpenFile where
  header := ⟨⟨.vectorValue, 0⟩, 0, 2, 0, 0, 0, 2⟩
  stringUnicodeOffsets := []
  vectorOffsets := [0, 20]
  bitvectorOffsets := []
  setOffsets := []
  mapOffsets := []
  heap := bytesU32 2 ++ bytesValue ⟨.vectorI8, 1⟩ ++ bytesValue ⟨.vectorU8, 1⟩ ++ bytesU32 1 ++
    [255, 0, 0, 0]

set_option maxRecDepth 4000 in
theorem openB_twoTypesFile : openB 4 twoTypesFile = .ok (twoTypesOpened, none) := by cbv

/-- The copy of the two vectors. -/
theorem recreation_iff_twoTypes :
    (∃ message c', recreateValue 3 twoTypesOpened ⟨.vectorValue, 0⟩ createBegin64 =
        .ok (.error message, c') ∧ 2 ^ 32 ≤ c'.values.length) ∨
      ∃ handle c', recreateValue 3 twoTypesOpened ⟨.vectorValue, 0⟩ createBegin64 =
          .ok (.ok handle, c') ∧
        (GraphPreserved twoTypesOpened ⟨.vectorValue, 0⟩ c' handle ↔
          KeyedAlike (fileNode twoTypesOpened) slotKey ⟨.vectorValue, 0⟩) :=
  recreation_iff openB_twoTypesFile (.root _) .begin64 (Nat.lt_succ_self 2)

/-- The item without a sign, which is 255 in the file, gets the handle of the one with a sign,
which is -1. -/
theorem twoTypes_not_preserved :
    openB 4 twoTypesFile = .ok (twoTypesOpened, none) ∧
      Reachable twoTypesOpened ⟨.vectorValue, 0⟩ ∧
      fileNode twoTypesOpened ⟨.vectorValue, 0⟩ = .ok (.vector, [⟨.vectorI8, 1⟩, ⟨.vectorU8, 1⟩]) ∧
      fileNode twoTypesOpened ⟨.vectorU8, 1⟩ = .ok (.ints [255], []) ∧
      ∃ c', recreateValue 3 twoTypesOpened ⟨.vectorValue, 0⟩ createBegin64 = .ok (.ok 0, c') ∧
        handleNode c' 0 = .ok (.vector, [1, 1]) ∧ handleNode c' 1 = .ok (.ints [-1], []) ∧
        ¬GraphPreserved twoTypesOpened ⟨.vectorValue, 0⟩ c' 0 := by
  refine ⟨openB_twoTypesFile, .root _, rfl, rfl, _, rfl, rfl, rfl, fun preserved => ?_⟩
  obtain ⟨label, children, copies, read, there, each⟩ := preserved.alike.step
  cases read
  cases there
  cases each with
  | cons _ rest =>
      cases rest with
      | cons unsigned _ =>
          obtain ⟨label, children, copies, read, there, -⟩ := unsigned.step
          cases read
          cases there

end Pointless
