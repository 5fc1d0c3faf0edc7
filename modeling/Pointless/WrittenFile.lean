import Pointless.Lib.Placement
import Pointless.TableFill

/-!
# The file that is written

The loops of the offset pass and of the heap pass go through the values pool by pool
(`heapObjects`). A round of the first announces the size of an object (`announced`), and a
round of the second emits the bytes of the object (`objectBytes`) and pads them to a multiple
of four.
-/

namespace Pointless

open ByteMemory ExceptRules

variable {c : Create} {fuel : Nat} {p : Prepared} {v w : CreateValue}

/-! ## Loops and rounds -/

/-- A loop over the values: which of them it takes, and what it does with one. -/
structure Loop (σ : Type) where
  selects : CreateValue → Bool
  step : CreateValue → σ → Res σ

/-- The values that are written. -/
def Prepared.values (p : Prepared) : List CreateValue := p.c.values.take p.nValues

/-- The rounds of some loops, in order, with the value of each. -/
def rounds {σ : Type} (p : Prepared) (loops : List (Loop σ)) : List (CreateValue × (σ → Res σ)) :=
  loops.flatMap fun loop => (p.values.filter loop.selects).map fun v => (v, loop.step v)

/-- The loops of `writeOffsets`. -/
def offsetLoops (p : Prepared) : List (Loop OffsetPass) :=
  [⟨isStringUnicode, offsetStringUnicode p⟩, ⟨offsetsPrivVector, offsetPrivVector p⟩,
    ⟨offsetsOutsideVector, offsetOutsideVector p⟩,
    ⟨fun v => v.type == .bitvector, offsetBitvector p⟩,
    ⟨fun v => v.type == .setValue, fun _ => writeOffset 24⟩,
    ⟨fun v => v.type == .mapValueValue, fun _ => writeOffset 32⟩]

/-- The loops of `writeHeap`. -/
def heapLoops (p : Prepared) : List (Loop (List UInt8)) :=
  [⟨isStringUnicode, serializeStringUnicode p⟩, ⟨serializesPrivVector, serializeVectorPriv p⟩,
    ⟨serializesOutsideVector, serializeVectorOutside p⟩,
    ⟨fun v => v.type == .bitvector, serializeBitvector p⟩,
    ⟨fun v => v.type == .setValue, serializeSet p⟩,
    ⟨fun v => v.type == .mapValueValue, serializeMap p⟩]

theorem forValues_filter {σ : Type} (p : Prepared) (selects : CreateValue → Bool)
    (step : CreateValue → σ → Res σ) (s : σ) :
    forValues p selects step s = (p.values.filter selects).foldlM (fun s v => step v s) s := by
  rw [forValues, Prepared.values]
  generalize p.c.values.take p.nValues = values
  induction values generalizing s with
  | nil => rfl
  | cons v rest ih =>
      rw [List.foldlM_cons]
      cases selected : selects v with
      | false =>
          rw [List.filter_cons_of_neg (by rw [selected]; exact Bool.false_ne_true)]
          exact ih s
      | true =>
          rw [List.filter_cons_of_pos selected, List.foldlM_cons, if_pos rfl]
          exact congrArg _ (funext ih)

theorem rounds_run {σ : Type} (p : Prepared) (loops : List (Loop σ)) (s : σ) :
    loops.foldlM (fun s loop => forValues p loop.selects loop.step s) s
      = (rounds p loops).foldlM (fun s round => round.2 s) s := by
  induction loops generalizing s with
  | nil => rfl
  | cons loop rest ih =>
      rw [List.foldlM_cons, rounds, List.flatMap_cons, foldlM_append, List.foldlM_map,
        forValues_filter]
      exact congrArg _ (funext ih)

theorem writeOffsets_rounds (p : Prepared) (s : OffsetPass) :
    writeOffsets p s = (rounds p (offsetLoops p)).foldlM (fun s round => round.2 s) s := by
  rw [← rounds_run]
  simp only [offsetLoops, List.foldlM_cons, List.foldlM_nil, bind_pure, writeOffsets]

theorem writeHeap_rounds (p : Prepared) (sink : List UInt8) :
    writeHeap p sink = (rounds p (heapLoops p)).foldlM (fun s round => round.2 s) sink := by
  rw [← rounds_run]
  simp only [heapLoops, List.foldlM_cons, List.foldlM_nil, bind_pure, writeHeap]

/-! ## Objects -/

/-- What the passes rely on of a value. -/
structure WrittenShape (w : CreateValue) : Prop where
  inside : w.type = .vectorValue ∨ w.type = .vectorValueHashable → w.isOutsideVector = false
  narrow : w.isCompressedVector = true →
    ∃ t : NumberType, w.type = t.vectorType ∧ t ≠ .i64 ∧ t ≠ .u64
  owned : w.isOutsideVector = true → w.heapPool = some .outside
  known : w.type.Known

/-- No vector is compressed to 64-bit integers. -/
theorem itemsType_narrow {type : ValueType} {items : List CreateValue} {t : NumberType}
    (isValue : type = .vectorValue ∨ type = .vectorValueHashable)
    (isType : itemsType type items = t.vectorType) : t ≠ .i64 ∧ t ≠ .u64 := by
  have other : itemsType type items ≠ .vectorI64 ∧ itemsType type items ≠ .vectorU64 := by
    rw [itemsType]
    split
    · rcases isValue with rfl | rfl
      all_goals exact ⟨by decide, by decide⟩
    · split
      · exact ⟨by decide, by decide⟩
      · rw [rangeType]
        repeat' split
        all_goals exact ⟨by decide, by decide⟩
  constructor
  · rintro rfl
    exact other.1 isType
  · rintro rfl
    exact other.2 isType

theorem known_priv {type : ValueType} (isPriv : IsPrivType type) : type.Known := by
  rcases isPriv with rfl | ⟨t, rfl⟩
  · trivial
  · cases t
    all_goals trivial

theorem Becomes.written {arrays : List Dynarray} (becomes : Becomes c arrays v w)
    (fits : v.Fits c) : WrittenShape w := by
  have number (t : NumberType) (compressed table outside : Bool) (d : UInt32)
      (narrow : compressed = true → t ≠ .i64 ∧ t ≠ .u64) :
      WrittenShape ⟨t.vectorType, compressed, table, outside, d⟩ := by
    refine ⟨fun isValue => absurd isValue (not_value_type t), fun isCompressed =>
      ⟨t, rfl, narrow isCompressed⟩, fun isOwned => ?_, ?_⟩
    · obtain rfl : outside = true := isOwned
      cases t
      all_goals rfl
    · cases t
      all_goals trivial
  cases becomes with
  | same other =>
      cases fits with
      | owned => exact number _ _ _ _ _ nofun
      | @inline type d inline =>
          refine ⟨fun _ => rfl, nofun, nofun, ?_⟩
          cases type
          case unknown => exact inline.elim
          all_goals trivial
      | @text type d chars isText =>
          refine ⟨fun _ => rfl, nofun, nofun, ?_⟩
          rcases isText.1 with rfl | rfl
          all_goals trivial
      | bits | set | map => exact ⟨fun _ => rfl, nofun, nofun, trivial⟩
      | vector isVector => exact ⟨fun _ => rfl, nofun, nofun, known_priv isVector⟩
  | emptied => exact ⟨nofun, nofun, nofun, trivial⟩
  | numbers => exact number _ _ _ _ _ nofun
  | handles isValue =>
      refine ⟨fun _ => rfl, nofun, nofun, ?_⟩
      rcases isValue with rfl | rfl
      all_goals trivial
  | table isVector isType =>
      refine ⟨fun _ => rfl, nofun, nofun, ?_⟩
      rcases isType with rfl | ⟨-, rfl⟩
      · exact known_priv isVector
      · trivial
  | compressed isItems isType =>
      exact number _ _ _ _ _ fun _ => itemsType_narrow (Or.inl rfl) isType

/-- The pools in the order in which they are written. -/
def heapOrder : List Pool := [.text, .priv, .outside, .bits, .set, .map]

/-- The values with an object on the heap, in the order of the objects. -/
def heapObjects (p : Prepared) : List CreateValue :=
  heapOrder.flatMap fun k => Ranks.members CreateValue.heapPool p.values k

theorem Prepares.shaped (prepares : Prepares fuel c p) (shaped : Shaped c) :
    ∀ w ∈ p.values, WrittenShape w := by
  intro w mem
  obtain ⟨i, inside, rfl⟩ := List.getElem_of_mem mem
  have length := prepares.becomes.length
  have less : i < c.values.length := by rwa [← length]
  have at_i := List.getElem?_eq_getElem less
  obtain ⟨x, at_x, becomes⟩ := prepares.becomes.becomes i _ at_i
  cases Option.some.inj ((List.getElem?_eq_getElem inside).symm.trans at_x)
  exact becomes.written (shaped.fits i _ at_i)

/-! ## Selection -/

/-- The loops of the offset pass take a pool each. -/
theorem offsets_select (v : CreateValue) :
    isStringUnicode v = decide (v.heapPool = some .text) ∧
      offsetsPrivVector v = decide (v.heapPool = some .priv) ∧
      offsetsOutsideVector v = decide (v.heapPool = some .outside) ∧
      (v.type == .bitvector) = decide (v.heapPool = some .bits) ∧
      (v.type == .setValue) = decide (v.heapPool = some .set) ∧
      (v.type == .mapValueValue) = decide (v.heapPool = some .map) := by
  obtain ⟨type, compressed, table, outside, d⟩ := v
  cases type
  all_goals
    cases outside
    all_goals
      refine ⟨?_, ?_, ?_, ?_, ?_, ?_⟩
      all_goals rfl

/-- So do those of the heap pass. -/
theorem heap_selects (shape : WrittenShape v) :
    serializesPrivVector v = decide (v.heapPool = some .priv) ∧
      serializesOutsideVector v = decide (v.heapPool = some .outside) := by
  obtain ⟨type, compressed, table, outside, d⟩ := v
  cases type
  case vectorValue =>
    obtain rfl : outside = false := shape.inside (Or.inl rfl)
    exact ⟨rfl, rfl⟩
  case vectorValueHashable =>
    obtain rfl : outside = false := shape.inside (Or.inr rfl)
    exact ⟨rfl, rfl⟩
  all_goals
    cases outside
    all_goals exact ⟨rfl, rfl⟩

end Pointless
