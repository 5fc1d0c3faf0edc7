import Pointless.Output
import Pointless.Reader

/-!
# Opening what was written

A header, its offset tables and a heap that stand one after another are opened to the same
header, tables and heap (`init_written`).
-/

namespace Pointless

open ByteMemory ExceptRules

/-! ## Words -/

theorem length_bytesU32 (n : UInt32) : (bytesU32 n).length = 4 := length_encode 4 _

theorem length_bytesValue (v : Value) : (bytesValue v).length = 8 := by
  rw [bytesValue, List.length_append, length_bytesU32, length_bytesU32]

section Words

variable {m : List UInt8} {off : Nat}

theorem loadU32_holds {n : UInt32} (holds : Holds m off (bytesU32 n)) :
    loadU32 m off = .ok n := by
  have small : n.toNat < 256 ^ 4 := n.toNat_lt
  rw [loadU32, loadWord, holds.load_encode, Nat.mod_eq_of_lt small]
  exact congrArg Except.ok UInt32.ofNat_toNat

theorem loadValue_holds {v : Value} (known : v.type.Known) (holds : Holds m off (bytesValue v)) :
    loadValue m off = .ok v := by
  have data := holds.right
  rw [length_bytesU32] at data
  rw [loadValue, loadU32_holds holds.left, ok_bind, loadU32_holds data, ok_bind,
    ValueType.ofCode_code known]
  rfl

end Words

/-! ## The header -/

theorem length_bytesHeader (h : Header) : (bytesHeader h).length = 32 := by
  simp only [bytesHeader, List.length_append, length_bytesU32, length_bytesValue]

theorem loadHeader_written {m : List UInt8} {h : Header} (known : h.root.type.Known)
    (holds : Holds m 0 (bytesHeader h)) : loadHeader m = .ok h := by
  have version := holds.right
  have nMap := holds.left.right
  have nSet := holds.left.left.right
  have nBitvector := holds.left.left.left.right
  have nVector := holds.left.left.left.left.right
  have nStringUnicode := holds.left.left.left.left.left.right
  have root := holds.left.left.left.left.left.left
  simp only [List.length_append, length_bytesU32, length_bytesValue] at version nMap nSet nBitvector
  simp only [List.length_append, length_bytesU32, length_bytesValue] at nVector nStringUnicode
  rw [loadHeader, loadValue_holds known root, ok_bind, loadU32_holds nStringUnicode, ok_bind,
    loadU32_holds nVector, ok_bind, loadU32_holds nBitvector, ok_bind, loadU32_holds nSet, ok_bind,
    loadU32_holds nMap, ok_bind, loadU32_holds version]
  rfl

/-! ## Offset tables -/

/-- The entries of a table of offsets. -/
def entries (offsets : List Nat) (start n : Nat) : List UInt64 :=
  ((offsets.drop start).take n).map UInt64.ofNat

/-- The bytes of a table of offsets. -/
def bytesOffsets (offsets : List Nat) : List UInt8 := (offsets.map (encode 8)).flatten

theorem bytesOffsets_cons (off : Nat) (rest : List Nat) :
    bytesOffsets (off :: rest) = encode 8 off ++ bytesOffsets rest := rfl

theorem wide_offsets (offsets : List Nat) : ∀ b ∈ offsets.map (encode 8), b.length = 8 := by
  intro b mem
  obtain ⟨off, -, rfl⟩ := List.mem_map.mp mem
  exact length_encode 8 off

theorem length_bytesOffsets (offsets : List Nat) :
    (bytesOffsets offsets).length = 8 * offsets.length := by
  rw [bytesOffsets, length_flatten_of_wide (wide_offsets offsets), List.length_map]

theorem loadOffsets_written {m : List UInt8} {base : Nat} {offsets : List Nat}
    (narrow : ∀ off ∈ offsets, off < 2 ^ 64) (holds : Holds m base (bytesOffsets offsets))
    {start n : Nat} (inside : start + n ≤ offsets.length) :
    loadOffsets m (base + 8 * start) n = .ok (entries offsets start n) := by
  have length : (entries offsets start n).length = n := by
    rw [entries, List.length_map, List.length_take, List.length_drop]
    omega
  rw [loadOffsets, mapM_eq_ok, List.forall₂_iff_get]
  refine ⟨by rw [List.length_range, length], fun i less less' => ?_⟩
  simp only [List.get_eq_getElem, List.getElem_range, entries, List.getElem_map, List.getElem_take,
    List.getElem_drop]
  rw [List.length_range] at less
  have at_i : (offsets.map (encode 8))[start + i]? = some (encode 8 (offsets[start + i])) := by
    rw [List.getElem?_map, List.getElem?_eq_getElem (by omega), Option.map_some]
  have here := holds.item (wide_offsets offsets) at_i
  have small : offsets[start + i] < 256 ^ 8 := narrow _ (List.getElem_mem _)
  have word := Holds.load_encode here
  rw [Nat.mod_eq_of_lt small] at word
  rw [loadU64, loadWord, Nat.add_assoc, ← Nat.mul_add, word, map_ok]

/-! ## The file -/

/-- How many offsets there are. -/
def Header.nOffsets (h : Header) : Nat :=
  h.nStringUnicode.toNat + h.nVector.toNat + h.nBitvector.toNat + h.nSet.toNat + h.nMap.toNat

theorem Header.mandatorySize_eq (h : Header) : h.mandatorySize = 32 + 8 * h.nOffsets := by
  rw [mandatorySize, nOffsets]
  omega

/-- The file with the header, the offsets and the heap. -/
def fileOf (h : Header) (offsets : List Nat) (heap : List UInt8) : OpenFile :=
  let nText := h.nStringUnicode.toNat
  let nVector := nText + h.nVector.toNat
  let nBits := nVector + h.nBitvector.toNat
  let nSet := nBits + h.nSet.toNat
  ⟨h, entries offsets 0 nText, entries offsets nText h.nVector.toNat,
    entries offsets nVector h.nBitvector.toNat, entries offsets nBits h.nSet.toNat,
    entries offsets nSet h.nMap.toNat, heap⟩

theorem init_written {h : Header} {offsets : List Nat} {heap : List UInt8}
    (known : h.root.type.Known) (version : h.version = 2) (count : offsets.length = h.nOffsets)
    (narrow : ∀ off ∈ offsets, off < 2 ^ 64) :
    init (bytesHeader h ++ bytesOffsets offsets ++ heap) = .ok (fileOf h offsets heap, none) := by
  have length : (bytesHeader h ++ bytesOffsets offsets).length = h.mandatorySize := by
    rw [List.length_append, length_bytesHeader, length_bytesOffsets, h.mandatorySize_eq, count]
  have large : h.mandatorySize ≤ (bytesHeader h ++ bytesOffsets offsets ++ heap).length := by
    rw [← length]
    exact (List.prefix_append _ _).length_le
  have header : Holds (bytesHeader h ++ bytesOffsets offsets ++ heap) 0 (bytesHeader h) := by
    rw [List.append_assoc]
    exact holds_append [] _ _
  have tables : Holds (bytesHeader h ++ bytesOffsets offsets ++ heap) 32 (bytesOffsets offsets) := by
    have placed := holds_append (bytesHeader h) (bytesOffsets offsets) heap
    rwa [length_bytesHeader] at placed
  have table (start n : Nat) (inside : start + n ≤ h.nOffsets) :
      loadOffsets (bytesHeader h ++ bytesOffsets offsets ++ heap) (32 + 8 * start) n
        = .ok (entries offsets start n) :=
    loadOffsets_written narrow tables (by rwa [count])
  have rest : (bytesHeader h ++ bytesOffsets offsets ++ heap).drop h.mandatorySize = heap := by
    rw [← length, List.drop_left]
  have whole := h.mandatorySize_eq
  rw [Header.nOffsets] at table
  have passed : initVersion h.version = .ok none := by
    rw [version]
    rfl
  have textTable := table 0 h.nStringUnicode.toNat (by omega)
  have vectorTable := table h.nStringUnicode.toNat h.nVector.toNat (by omega)
  have bitsTable := table (h.nStringUnicode.toNat + h.nVector.toNat) h.nBitvector.toNat (by omega)
  have setTable := table (h.nStringUnicode.toNat + h.nVector.toNat + h.nBitvector.toNat) h.nSet.toNat
    (by omega)
  have mapTable := table
    (h.nStringUnicode.toNat + h.nVector.toNat + h.nBitvector.toNat + h.nSet.toNat) h.nMap.toNat
    (by omega)
  simp only [Nat.mul_add, ← Nat.add_assoc, Nat.mul_zero, Nat.add_zero]
    at textTable vectorTable bitsTable setTable mapTable
  rw [init, if_neg (by omega), loadHeader_written known header, ok_bind, passed, ok_bind,
    if_neg (by omega), layTables, textTable, ok_bind, vectorTable, ok_bind, bitsTable, ok_bind,
    setTable, ok_bind, mapTable, ok_bind, rest]
  rfl

end Pointless
