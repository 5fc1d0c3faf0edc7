import Pointless.CreateCalls
import Pointless.CreateInvariant

/-!
# Python objects written to a file

`pointless_export_py_rec` in `python/pointless_create.c`, which creates a value for a
Python object. Objects other than the simplest are tracked: by its address, an object
that was met before gets the handle that it got then.

What an object holds is not changed by an export. A Python exception is its message,
and that of `RETURN_OOM` is empty.
-/

namespace Pointless

/-! ## The state -/

/-- `pointless_export_state_t`. -/
structure ExportState where
  c : Create
  isError : Bool
  objectsUsed : List (Nat × UInt32)
  unwidenStrings : Bool
  normalizeBitvector : Bool

/-- The outcome for an object: its handle or an exception, and the create-time state. -/
abbrev ExportOutcome := Res (Except String UInt32 × Create)

/-- `pointless_export_get_seen`. -/
def exportGetSeen (state : ExportState) (pyObject : Nat) : UInt32 :=
  (state.objectsUsed.lookup pyObject).getD createValueFail

/-- `pointless_export_set_seen`. -/
def exportSetSeen (state : ExportState) (pyObject : Nat) (handle : UInt32) : ExportState :=
  { state with objectsUsed := (pyObject, handle) :: state.objectsUsed }

/-- `pointless_export_py_rec` for an object that is tracked and has no children of its own;
`create` is the branch of its class. -/
def exportTracked (state : ExportState) (pyObject depth : Nat) (create : ExportOutcome) :
    Res (Except String UInt32 × ExportState) :=
  if maxDepth ≤ depth then .ok (.error "structure is too deep", { state with isError := true })
  else if exportGetSeen state pyObject ≠ createValueFail then
    .ok (.ok (exportGetSeen state pyObject), state)
  else do
    match ← create with
    | (.error message, c) => return (.error message, { state with c := c, isError := true })
    | (.ok handle, c) =>
        if handle = createValueFail then
          return (.error "", { state with c := c, isError := true })
        else
          return (.ok handle, exportSetSeen { state with c := c } pyObject handle)

/-! ## Strings -/

/-- A Python string by its kind; behind its characters lies a zero. -/
inductive PyUnicode where
  | oneByte (data : List UInt8)
  | twoByte (data : List UInt16)
  | fourByte (data : List UInt32)
  deriving DecidableEq, Repr

/-- The code points of a string. -/
def PyUnicode.chars : PyUnicode → List Nat
  | oneByte data => data.map UInt8.toNat
  | twoByte data => data.map UInt16.toNat
  | fourByte data => data.map UInt32.toNat

/-- The loop of `POINTLESS_BELOW_RANGE`, and whether it ends at the terminator. -/
def belowRange (max : Nat) : List Nat → Res Bool
  | [] => fault .outOfBounds
  | x :: rest => if x ≠ 0 ∧ x ≤ max then belowRange max rest else .ok (x = 0)

/-- `pointless_is_ucs2_ascii`. -/
def isUcs2Ascii (s : List UInt16) : Res Bool := belowRange 255 (s.map UInt16.toNat)

/-- `pointless_is_ucs4_ascii`. -/
def isUcs4Ascii (s : List UInt32) : Res Bool := belowRange 255 (s.map UInt32.toNat)

/-- `pointless_ucs1_len`, `pointless_ucs2_len` and `pointless_ucs4_len`. -/
def pointlessLen : PyUnicode → Res Nat
  | .oneByte data => List.length <$> charsBeforeZero (data ++ [0])
  | .twoByte data => List.length <$> charsBeforeZero (data ++ [0])
  | .fourByte data => List.length <$> charsBeforeZero (data ++ [0])

/-- `state->unwiden_strings && …`: the scan is made where strings are to be unwidened. -/
def unwidens (state : ExportState) (isAscii : Res Bool) : Res Bool :=
  if state.unwidenStrings then isAscii else pure false

/-- The handle that the second switch over the kind creates. -/
def exportUnicodeHandle (state : ExportState) : PyUnicode → Res (UInt32 × Create)
  | .oneByte data => createStringAscii state.c (data ++ [0])
  | .twoByte data => do
      if ← unwidens state (isUcs2Ascii (data ++ [0])) then createStringUcs2 state.c (data ++ [0])
      else createUnicodeUcs2 state.c (data ++ [0])
  | .fourByte data => do
      if ← unwidens state (isUcs4Ascii (data ++ [0])) then createStringUcs4 state.c (data ++ [0])
      else createUnicodeUcs4 state.c (data ++ [0])

/-- The branch for a string. -/
def exportUnicode (state : ExportState) (s : PyUnicode) : ExportOutcome := do
  let sLenPython := s.chars.length
  let sLenPointless ← pointlessLen s
  if sLenPython ≠ sLenPointless then
    return (.error "unicode string contains a zero, where it shouldn't", state.c)
  else
    let (handle, c) ← exportUnicodeHandle state s
    return (.ok handle, c)

/-- `pointless_export_py_rec` for a string. -/
def exportPyString (state : ExportState) (pyObject : Nat) (s : PyUnicode) (depth : Nat) :
    Res (Except String UInt32 × ExportState) :=
  exportTracked state pyObject depth (exportUnicode state s)

end Pointless
