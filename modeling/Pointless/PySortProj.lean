import Pointless.CustomSort
import Pointless.PyObject

/-!
# Sorting a projection

`sort_proj` of a `PrimVector`: its items are positions of up to 16 value vectors, and
they are sorted by what the value vectors hold there.

A Python exception is its message. A read of a value vector outside its items is a
fault, also where the memory of the file goes on behind a slice. Value vectors are
taken as they are when the sort begins: none of them is the projection itself.
-/

namespace Pointless

/-- The items of a `PrimVector` of the type have a sign. -/
def NumberType.isSigned : NumberType → Bool
  | i8 | i16 | i32 | i64 => true
  | u8 | u16 | u32 | u64 | float => false

/-- The item type of a primitive vector of a file. -/
def itemType? : ValueType → Option NumberType
  | .vectorI8 => some .i8
  | .vectorU8 => some .u8
  | .vectorI16 => some .i16
  | .vectorU16 => some .u16
  | .vectorI32 => some .i32
  | .vectorU32 => some .u32
  | .vectorI64 => some .i64
  | .vectorU64 => some .u64
  | .vectorFloat => some .float
  | _ => none

/-- What `prim_sort_proj_state_t` has of a value vector: `v_n`, and `cmp_cmp` on `v_b`. -/
structure SortValues where
  nItems : UInt32
  cmpCmp : Nat → Nat → Res Int

/-- `prim_sort_proj_cmp_cmp_*`, for the items of a type at a base pointer. -/
def primSortProjCmpCmp (t : NumberType) (item : Nat → Res Int) (a b : Nat) : Res Int := do
  let x ← item a
  let y ← item b
  if t = .float then
    return cmpFloat (floatOperand (UInt32.ofInt x)) (floatOperand (UInt32.ofInt y))
  else
    return simpleCmp x y

/-- The name of an object's class, as far as one can be an illegal value vector. -/
def PyObject.tpName : PyObject → String
  | none => "NoneType"
  | bool _ => "bool"
  | int _ => "int"
  | str _ => "str"
  | tuple _ => "tuple"
  | list _ => "list"
  | primVector _ => "pointless.PyPointlessPrimVector"
  | vector _ _ _ _ => "pointless.PyPointlessVector"

/-- Item `i` of a slice of a vector whose items begin at `base`. -/
def sliceItem (p : OpenFile) (t : NumberType) (base : Nat) (sliceI sliceN : UInt32) (i : Nat) :
    Res Int :=
  if i < sliceN.toNat then
    t.toInt <$> loadWord t.size p.heap (base + t.size * (sliceI.toNat + i))
  else fault .outOfBounds

/-- One round of the loop that initializes the value vectors. -/
def sortProjValues : PyObject → Res SortValues
  | .primVector v =>
      return ⟨UInt32.ofNat v.array.nItems, primSortProjCmpCmp v.type (primVectorItem v)⟩
  | .vector p v sliceI sliceN =>
      match itemType? v.type with
      | some t => do
          let base ← readerVectorBasePtr p v
          return ⟨sliceN, primSortProjCmpCmp t (sliceItem p t base sliceI sliceN)⟩
      | none =>
          -- `cmp_cmp` is not set for an empty vector
          if v.type = .vectorEmpty then return ⟨sliceN, fun _ _ => fault .nullCallback⟩
          else if v.type = .vectorValue ∨ v.type = .vectorValueHashable then
            fail "illegal pointless vector type"
          else fail "bad argument to internal function"
  | o => fail ("illegal value vector type: " ++ o.tpName)

/-- The loop of `prim_sort_proj_cmp`. -/
def sortProjCompare : List SortValues → Nat → Nat → Res Int
  | [], _, _ => return 0
  | v :: rest, a, b => do
      let c ← v.cmpCmp a b
      if c = 0 then sortProjCompare rest a b else return c

/-- `prim_sort_proj_cmp_index_*`: item `i` of the projection as an `uint64_t`. -/
def sortProjIndex (p : PyPointlessPrimVector) (i : Nat) : Res Nat :=
  (fun item => (item % 2 ^ 64).toNat) <$> primVectorItem p i

/-- `prim_sort_proj_cmp`, on a projection whose items are being sorted. -/
def primSortProjCmp (p : PyPointlessPrimVector) (values : List SortValues) : Comparator Nat Unit :=
  fun i j items own => do
    let p := { p with array := { p.array with items := items } }
    let a ← sortProjIndex p i
    let b ← sortProjIndex p j
    let c ← sortProjCompare values a b
    return ((true, c), own)

/-- One round of the loop for `p_min` and `p_max`. -/
def minMaxRound (p : PyPointlessPrimVector) (m : Int × Int) (i : Nat) : Res (Int × Int) := do
  let item ← primVectorItem p i
  let a := if p.type.isSigned then item else 0
  let b := if p.type.isSigned then 0 else item
  return (if i = 0 ∨ a < m.1 then a else m.1, if i = 0 ∨ b > m.2 then b else m.2)

/-- The comparison of the lengths of the value vectors. -/
def checkLengths (first : UInt32) (rest : List SortValues) : Res Unit :=
  rest.forM fun v =>
    if first ≠ v.nItems then
      fail s!"all value vectors must have the same number of items ({dataI32 first}, {dataI32 v.nItems})"
    else pure ()

/-- The checks of `PyPointlessPrimVector_sort_proj`: the value vectors, where there is something
to sort. -/
def sortProjChecks (p : PyPointlessPrimVector) (args : List PyObject) :
    Res (Option (List SortValues)) := do
  if args.length < 1 then
    fail s!"function takes at least 1 argument ({args.length} given)"
  else if 16 < args.length then
    fail s!"function takes at most 16 arguments ({args.length} given)"
  else if p.type = .float then
    fail "projection vector must contain only integer values"
  else
    let values ← args.mapM sortProjValues
    let n := (values.head?.map SortValues.nItems).getD 0
    checkLengths n values.tail
    let pN := UInt32.ofNat p.array.nItems
    if pN = 0 then
      return none
    else
      let (pMin, pMax) ← (List.range pN.toNat).foldlM (minMaxRound p) (0, 0)
      if 0 ≤ pMin ∧ pMax < n.toNat then
        return some values
      else
        fail "projection value out of bounds"

/-- `PyPointlessPrimVector_sort_proj`: the projection, and the exception that is raised. -/
def sortProj (fuel : Nat) (p : PyPointlessPrimVector) (args : List PyObject) :
    Res (PyPointlessPrimVector × Option String) :=
  match sortProjChecks p args with
  | .error (.error message) => .ok (p, some message)
  | .error (.fault kind) => fault kind
  | .ok none => .ok (p, none)
  | .ok (some values) => do
      let pN := UInt32.ofNat p.array.nItems
      let (_, s) ← bentleySort (arrayCallbacks (primSortProjCmp p values)) fuel
        (dataI32 pN).toNat ⟨p.array.items, ()⟩
      return ({ p with array := { p.array with items := s.user.items } }, none)

end Pointless
