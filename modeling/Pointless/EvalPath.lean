import Pointless.Lib.CText
import Pointless.ReaderHelpers

/-!
# Paths

`pointless_eval.c`: a path such as `["some_key_in_map"][10][%u32]` is followed from a value on.

The path is the text in front of its terminator. The variable arguments are the list of the
ones that are left; a step takes its own off the list that its caller goes on with. An
argument that is missing or of another type faults.
-/

namespace Pointless

open CText

/-! ## Arguments -/

/-- A variable argument; a string is the text in front of its terminator. -/
inductive EvalArg where
  | u64 (v : UInt64)
  | u32 (v : UInt32)
  | i64 (v : Int64)
  | i32 (v : Int32)
  | string (s : List UInt8)
  deriving DecidableEq

namespace EvalArg

def u64? : EvalArg → Option UInt64
  | u64 v => some v
  | _ => none

def u32? : EvalArg → Option UInt32
  | u32 v => some v
  | _ => none

def i64? : EvalArg → Option Int64
  | i64 v => some v
  | _ => none

def i32? : EvalArg → Option Int32
  | i32 v => some v
  | _ => none

def string? : EvalArg → Option (List UInt8)
  | string s => some s
  | _ => none

end EvalArg

/-- `va_arg`, of the type that `get` takes. -/
def vaArg {α : Type} (get : EvalArg → Option α) : List EvalArg → Res (α × List EvalArg)
  | [] => fault .outOfBounds
  | arg :: ap =>
      match get arg with
      | some v => .ok (v, ap)
      | none => fault .outOfBounds

/-! ## Subscripts -/

/-- What the switch over the first character of a subscript leaves: `s` with `s_n`, `v_u`,
`v_i` and `is_unsigned`. -/
structure Subscript where
  s : Option (List UInt8 × Nat) := none
  vU : UInt64 := 0
  vI : Int64 := 0
  isUnsigned : Bool := false
  deriving DecidableEq

/-- Where the switch leaves `e` and `ap`; `none` is its `return 0`. -/
abbrev SwitchResult := Option (Subscript × List UInt8 × List EvalArg)

/-- `parse_number`. -/
def parseNumber (s : List UInt8) : Option (UInt64 × List UInt8) :=
  let (n, outOfRange, rest) := strtoull s
  if n = 0xffffffffffffffff ∧ outOfRange = true then none else some (n, rest)

/-- The case of a digit. -/
def evalDigits (isNeg : Bool) (e : List UInt8) : Option (Subscript × List UInt8) :=
  match parseNumber e with
  | none => none
  | some (vU, e) =>
      if isNeg then
        if vU > 0x7fffffffffffffff then none else some ({ vU := vU, vI := -vU.toInt64 }, e)
      else some ({ vU := vU, isUnsigned := true }, e)

/-- The case of a quote, behind it. -/
def evalQuoted (e : List UInt8) : Option (Subscript × List UInt8) :=
  let plain := fun c : UInt8 => c != 0 && c != 39
  let rest := e.dropWhile plain
  if peek rest ≠ 39 then none
  else some ({ s := some (e ++ [0], (e.takeWhile plain).length) }, rest.tail)

/-- The case of a percent sign, behind it. -/
def evalPlaceholder (e : List UInt8) (ap : List EvalArg) : Res SwitchResult :=
  if peek e = 117 then                                                  -- 'u'
    if e.tail.take 2 = [54, 52] then do                                 -- "64"
      let (v, ap) ← vaArg EvalArg.u64? ap
      pure (some ({ vU := v, isUnsigned := true }, e.tail.drop 2, ap))
    else if e.tail.take 2 = [51, 50] then do                            -- "32"
      let (v, ap) ← vaArg EvalArg.u32? ap
      pure (some ({ vU := v.toUInt64, isUnsigned := true }, e.tail.drop 2, ap))
    else pure none
  else if peek e = 105 then                                             -- 'i'
    if e.tail.take 2 = [54, 52] then do
      let (v, ap) ← vaArg EvalArg.i64? ap
      pure (some ({ vI := v }, e.tail.drop 2, ap))
    else if e.tail.take 2 = [51, 50] then do
      let (v, ap) ← vaArg EvalArg.i32? ap
      pure (some ({ vI := v.toInt64 }, e.tail.drop 2, ap))
    else pure none
  else if peek e = 115 then do                                          -- 's'
    let (s, ap) ← vaArg EvalArg.string? ap
    pure (some ({ s := some (s ++ [0], (s.takeWhile (· != 0)).length) }, e.tail, ap))
  else pure none

/-- The switch. The case of a minus sign leaves `e` at the sign, and that of a plus sign at the
digit behind it: neither comes to the case of a digit, where alone `is_neg` is read. -/
def evalSwitch (e : List UInt8) (ap : List EvalArg) : Res SwitchResult :=
  if peek e = 39 then                                                   -- '\''
    pure ((evalQuoted e.tail).map fun (sub, e) => (sub, e, ap))
  else if peek e = 45 then pure (some ({}, e, ap))                      -- '-'
  else if peek e = 43 then                                              -- '+'
    pure (if isDigit (peek e.tail) then some ({}, e.tail, ap) else none)
  else if isDigit (peek e) then
    pure ((evalDigits false e).map fun (sub, e) => (sub, e, ap))
  else if peek e = 37 then evalPlaceholder e.tail ap                    -- '%'
  else pure none

/-! ## Steps -/

section Steps

variable (p : OpenFile)

/-- The branch of a vector or bitvector; `none` is its `return 0`. -/
def evalIndex (root : Value) (sub : Subscript) : Res (Option Value) :=
  if sub.s.isSome then pure none
  else if ¬sub.isUnsigned ∧ sub.vI < 0 then pure none
  else do
    let nItems ←
      if isVectorType root.type then readerVectorNItems p root else readerBitvectorNBits p root
    if sub.isUnsigned ∧ sub.vU.toNat ≥ nItems.toNat then pure none
    else if ¬sub.isUnsigned ∧ sub.vI.toInt ≥ nItems.toNat then pure none
    else
      let i := if sub.isUnsigned then sub.vU.toUInt32 else sub.vI.toUInt64.toUInt32
      if isVectorType root.type then do
        let v ← readerVectorValueCase p root i.toNat
        pure (some v.toValue)
      else do
        let isSet ← readerBitvectorIsSet p root i.toNat
        pure (some ⟨.boolean, if isSet then 1 else 0⟩)

/-- The branch of a map; `none` is its `return 0`. -/
def evalKey (fuel : Nat) (root : Value) (sub : Subscript) : Res (Option Value) :=
  match sub.s with
  | some (s, n) => getMappingStringNToValue p fuel root s n
  | none =>
      if sub.isUnsigned ∧ sub.vU > 0x7fffffffffffffff then pure none
      else
        getMappingIntToValue p fuel root
          (if sub.isUnsigned then sub.vU.toInt64.toInt else sub.vI.toInt)

/-- The branches over the type of the root. -/
def evalSubscript (fuel : Nat) (root : Value) (sub : Subscript) : Res (Option Value) :=
  if isVectorType root.type ∨ isBitvectorType root.type then evalIndex p root sub
  else if root.type = .mapValueValue then evalKey p fuel root sub
  else pure none

/-- What `pointless_eval_get_single` leaves: the path it returns, `none` for 0, with `*root`
and `ap`. -/
abbrev StepResult := Option (List UInt8) × Value × List EvalArg

/-- The end of a step, from the root it has set. -/
def evalClose (root : Value) (e : List UInt8) (ap : List EvalArg) : StepResult :=
  let e := skipSpace e
  if peek e ≠ 93 then (none, root, ap) else (some (skipSpace e.tail), root, ap)

/-- What is behind the opening bracket. -/
def evalBracket (fuel : Nat) (root : Value) (e : List UInt8) (ap : List EvalArg) :
    Res StepResult := do
  let switched ← evalSwitch e ap
  match switched with
  | none => pure (none, root, ap)
  | some (sub, e, ap) => do
      let found ← evalSubscript p fuel root sub
      match found with
      | none => pure (none, root, ap)
      | some root => pure (evalClose root e ap)

/-- `pointless_eval_get_single`. -/
def evalGetSingle (fuel : Nat) (root : Value) (e : List UInt8) (ap : List EvalArg) :
    Res StepResult :=
  let e := skipSpace e
  if peek e = 0 then pure (some e, root, ap)
  else if peek e ≠ 91 then pure (none, root, ap)
  else evalBracket p fuel root e.tail ap

/-- `while (e && *e)`, with at most `steps` rounds, and the `return` behind it; beside the
result it leaves `*v`. -/
def evalLoop (fuel : Nat) : Nat → StepResult → Res (Bool × Value)
  | _, (none, v, _) => pure (false, v)
  | 0, (some e, v, _) => if peek e = 0 then pure (true, v) else fault .diverges
  | steps + 1, (some e, v, ap) =>
      if peek e = 0 then pure (true, v)
      else do
        let result ← evalGetSingle p fuel v e ap
        evalLoop fuel steps result

/-- `pointless_eval_get`. -/
def evalGet (fuel : Nat) (root : Value) (e : List UInt8) (ap : List EvalArg) :
    Res (Bool × Value) :=
  evalLoop p fuel fuel (some e, root, ap)

end Steps

end Pointless
