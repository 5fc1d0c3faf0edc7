import Pointless.EvalPath
import Pointless.StringLookup

/-!
# The steps of a path

A step is a bracketed subscript with its whitespace, and a path is a list of steps.

* `evalGetSingle_text`: what `pointless_eval_get_single` does at the text of a step is what its
  subscript does at the root, whatever the path goes on with.
* `evalLoop_text`: at the text of a list of steps the loop makes one step after the other.
-/

namespace Pointless

open ExceptRules CText

/-! ## Text -/

/-- The sign in front of a number. -/
inductive EvalSign where
  | none
  | plus
  | minus
  deriving DecidableEq

namespace EvalSign

/-- The sign as it is written. -/
def text : EvalSign → List UInt8
  | none => []
  | plus => [43]
  | minus => [45]

/-- The integer of a number with this sign in front. -/
def apply : EvalSign → Nat → Int
  | minus, n => -n
  | _, n => n

end EvalSign

/-- What may stand between the brackets: a number, a quoted string, or a placeholder with its
argument. -/
inductive EvalKey where
  | number (sign : EvalSign) (digits : Numeral)
  | quoted (s : List UInt8) (plain : ∀ c ∈ s, c ≠ 0 ∧ c ≠ 39)
  | string (s : List UInt8)
  | u64 (v : UInt64)
  | u32 (v : UInt32)
  | i64 (v : Int64)
  | i32 (v : Int32)

namespace EvalKey

/-- The subscript as it is written. -/
def text : EvalKey → List UInt8
  | number sign digits => sign.text ++ digits.chars
  | quoted s _ => 39 :: s ++ [39]
  | string _ => [37, 115]
  | u64 _ => [37, 117, 54, 52]
  | u32 _ => [37, 117, 51, 50]
  | i64 _ => [37, 105, 54, 52]
  | i32 _ => [37, 105, 51, 50]

/-- The arguments it takes. -/
def args : EvalKey → List EvalArg
  | number _ _ | quoted _ _ => []
  | string s => [.string s]
  | u64 v => [.u64 v]
  | u32 v => [.u32 v]
  | i64 v => [.i64 v]
  | i32 v => [.i32 v]

/-- A number with a sign in front. -/
def signed : EvalKey → Bool
  | number .none _ => false
  | number _ _ => true
  | _ => false

/-- What the switch leaves at the subscript with `rest` behind it. -/
def subscript (rest : List UInt8) : EvalKey → Option Subscript
  | number .none digits =>
      if digits.value < 2 ^ 64 then
        some { vU := UInt64.ofNat digits.value, isUnsigned := true }
      else none
  | number _ _ => some {}
  | quoted s _ => some { s := some (s ++ 39 :: rest ++ [0], s.length) }
  | string s => some { s := some (s ++ [0], (s.takeWhile (· != 0)).length) }
  | u64 v => some { vU := v, isUnsigned := true }
  | u32 v => some { vU := v.toUInt64, isUnsigned := true }
  | i64 v => some { vI := v }
  | i32 v => some { vI := v.toInt64 }

/-- What the switch does not take of the subscript. -/
def left : EvalKey → List UInt8
  | number .plus digits => digits.chars
  | number .minus digits => 45 :: digits.chars
  | _ => []

theorem left_of_unsigned {key : EvalKey} (unsigned : key.signed = false) : key.left = [] := by
  cases key with
  | number sign digits =>
      cases sign with
      | none => rfl
      | plus => cases unsigned
      | minus => cases unsigned
  | _ => rfl

/-- The switch leaves a zero at the sign of a number. -/
theorem subscript_signed {key : EvalKey} (signed : key.signed = true) (rest : List UInt8) :
    key.subscript rest = some {} := by
  cases key with
  | number sign digits =>
      cases sign with
      | none => cases signed
      | plus => rfl
      | minus => rfl
  | _ => cases signed

/-- The switch fails at a number only. -/
theorem args_of_subscript {key : EvalKey} {rest : List UInt8} (fails : key.subscript rest = none) :
    key.args = [] := by
  cases key with
  | number | quoted => rfl
  | _ => cases fails

end EvalKey

/-- A bracketed subscript with the whitespace the grammar allows. -/
structure EvalStep where
  before : List UInt8
  key : EvalKey
  inside : List UInt8
  after : List UInt8
  before_white : ∀ c ∈ before, isSpace c = true
  inside_white : ∀ c ∈ inside, isSpace c = true
  after_white : ∀ c ∈ after, isSpace c = true

namespace EvalStep

/-- The step as it is written. -/
def text (step : EvalStep) : List UInt8 :=
  step.before ++ 91 :: (step.key.text ++ (step.inside ++ 93 :: step.after))

/-- The arguments it takes. -/
def args (step : EvalStep) : List EvalArg := step.key.args

end EvalStep

/-- A path as it is written. -/
def pathText (steps : List EvalStep) : List UInt8 := steps.flatMap EvalStep.text

/-- The arguments of a path. -/
def pathArgs (steps : List EvalStep) : List EvalArg := steps.flatMap EvalStep.args

/-! ## The switch -/

theorem evalQuoted_text {s : List UInt8} (plain : ∀ c ∈ s, c ≠ 0 ∧ c ≠ 39) (rest : List UInt8) :
    evalQuoted (s ++ 39 :: rest) =
      some ({ s := some (s ++ 39 :: rest ++ [0], s.length) }, rest) := by
  have all : ∀ c ∈ s, (c != 0 && c != 39) = true := by
    intro c mem
    simp [plain c mem]
  have taken : (s ++ 39 :: rest).takeWhile (fun c => c != 0 && c != 39) = s := by
    rw [List.takeWhile_append_of_pos all, List.takeWhile_cons_of_neg (by simp), List.append_nil]
  have dropped : (s ++ 39 :: rest).dropWhile (fun c => c != 0 && c != 39) = 39 :: rest := by
    rw [List.dropWhile_append, List.dropWhile_eq_nil_iff.mpr all]
    rfl
  rw [evalQuoted, taken, dropped]
  rfl

theorem parseNumber_numeral (digits : Numeral) {rest : List UInt8}
    (ends : isDigit (peek rest) = false) :
    parseNumber (digits.chars ++ rest) =
      if digits.value < 2 ^ 64 then some (UInt64.ofNat digits.value, rest) else none := by
  rw [parseNumber, strtoull_numeral digits ends]
  by_cases small : digits.value < 2 ^ 64
  · rw [if_pos small, if_pos small]
    simp
  · rw [if_neg small, if_neg small]
    rfl

theorem evalSwitch_digit {c : UInt8} (digit : isDigit c = true) (e : List UInt8)
    (ap : List EvalArg) :
    evalSwitch (c :: e) ap =
      .ok ((evalDigits false (c :: e)).map fun (sub, e) => (sub, e, ap)) := by
  have other : ∀ d : UInt8, isDigit d = false → c ≠ d := by
    intro d no same
    rw [same, no] at digit
    cases digit
  rw [evalSwitch, peek_cons, if_neg (other 39 rfl), if_neg (other 45 rfl), if_neg (other 43 rfl),
    if_pos digit]
  rfl

/-- The switch at a subscript. -/
theorem evalSwitch_text (key : EvalKey) {rest : List UInt8}
    (ends : isDigit (peek rest) = false) (ap : List EvalArg) :
    evalSwitch (key.text ++ rest) (key.args ++ ap) =
      .ok ((key.subscript rest).map fun sub => (sub, key.left ++ rest, ap)) := by
  cases key with
  | number sign digits =>
      obtain ⟨c, more, split, digit⟩ := digits.exists_cons
      cases sign with
      | none =>
          have read := parseNumber_numeral digits ends
          change evalSwitch (digits.chars ++ rest) ap = _
          rw [split, List.cons_append] at read ⊢
          rw [evalSwitch_digit digit, evalDigits, read, EvalKey.subscript]
          by_cases small : digits.value < 2 ^ 64
          · rw [if_pos small, if_pos small]
            rfl
          · rw [if_neg small, if_neg small]
            rfl
      | plus =>
          have next : isDigit (peek (digits.chars ++ rest)) = true := by
            rw [split]
            exact digit
          change evalSwitch (43 :: (digits.chars ++ rest)) ap = _
          rw [evalSwitch, peek_cons, if_neg (by decide), if_neg (by decide), if_pos rfl,
            List.tail_cons, if_pos next]
          rfl
      | minus => rfl
  | quoted s plain =>
      change evalSwitch (39 :: (s ++ [39]) ++ rest) ap = _
      rw [List.cons_append, List.append_assoc, evalSwitch, peek_cons, if_pos rfl, List.tail_cons]
      change pure ((evalQuoted (s ++ 39 :: rest)).map _) = _
      rw [evalQuoted_text plain]
      rfl
  | _ => rfl

/-! ## What is behind a quoted string -/

theorem hashStringV132N_behind (s rest rest' : List UInt8) (c : UInt8) :
    hashStringV132N (s ++ c :: rest) s.length = hashStringV132N (s ++ c :: rest') s.length := by
  have length : s.length = (chars8 s).length := (List.length_map _).symm
  by_cases nonempty : chars8 s = []
  · obtain rfl : s = [] := List.map_eq_nil_iff.mp nonempty
    exact (stringHash32N_empty (chars8 (c :: rest))).trans
      (stringHash32N_empty (chars8 (c :: rest'))).symm
  · rw [hashStringV132N, hashStringV132N, chars8_append, chars8_append, length,
      stringHash32N_append nonempty, stringHash32N_append nonempty]

/-- A lookup by a counted string reads one byte behind it at most. -/
theorem getMappingStringNToValue_behind (p : OpenFile) (fuel : Nat) (map : Value)
    (s rest rest' : List UInt8) (c : UInt8) :
    getMappingStringNToValue p fuel map (s ++ c :: rest) s.length =
      getMappingStringNToValue p fuel map (s ++ c :: rest') s.length := by
  rw [getMappingStringNToValue, getMappingStringNToValue, hashStringV132N_behind s rest rest',
    checkStringN_behind p s (c :: rest) (c :: rest')]

/-! ## A step -/

section Steps

variable (p : OpenFile) (fuel : Nat)

namespace EvalKey

/-- What the subscript finds at the root, with nothing behind it. -/
def lookup (root : Value) (key : EvalKey) : Res (Option Value) :=
  match key.subscript [] with
  | none => pure none
  | some sub => evalSubscript p fuel root sub

/-- What a step with this subscript finds; one with a sign in front of its number ends at that
number. -/
def get (root : Value) (key : EvalKey) : Res (Option Value) :=
  (if key.signed then fun _ => none else id) <$> key.lookup p fuel root

theorem get_unsigned {key : EvalKey} (unsigned : key.signed = false) (root : Value) :
    key.get p fuel root = key.lookup p fuel root := by
  rw [get, unsigned]
  exact id_map _

/-- What `pointless_eval_get_single` leaves when the path goes on with `rest`. -/
def leaves (root : Value) (key : EvalKey) (rest : List UInt8) (ap : List EvalArg) :
    Option Value → StepResult
  | none => (none, root, ap)
  | some v => (if key.signed then none else some (skipSpace rest), v, ap)

theorem evalSubscript_behind (root : Value) (key : EvalKey) (rest : List UInt8) :
    (match key.subscript rest with
      | none => pure none
      | some sub => evalSubscript p fuel root sub) = key.lookup p fuel root := by
  unfold lookup
  cases key with
  | number sign digits => cases sign <;> rfl
  | quoted s plain =>
      simp only [subscript, evalSubscript, evalIndex, evalKey]
      rw [List.append_assoc, List.append_assoc, List.cons_append, List.cons_append,
        getMappingStringNToValue_behind p fuel root s (rest ++ [0]) ([] ++ [0])]
      rfl
  | _ => rfl

end EvalKey

/-- The end of a step, from what the switch has left of the subscript. -/
theorem evalClose_text (step : EvalStep) (root : Value) (rest : List UInt8) (ap : List EvalArg) :
    evalClose root (step.key.left ++ (step.inside ++ 93 :: (step.after ++ rest))) ap =
      step.key.leaves root rest ap (some root) := by
  have closes : evalClose root (step.inside ++ 93 :: (step.after ++ rest)) ap =
      (some (skipSpace rest), root, ap) := by
    rw [evalClose, skipSpace_append step.inside_white, skipSpace_cons rfl]
    change (some (skipSpace (step.after ++ rest)), root, ap) = _
    rw [skipSpace_append step.after_white]
  have stays : ∀ (c : UInt8) (e : List UInt8), isSpace c = false → c ≠ 93 →
      evalClose root (c :: e) ap = (none, root, ap) := by
    intro c e solid other
    rw [evalClose, skipSpace_cons solid]
    exact if_pos other
  cases signed : step.key.signed with
  | false =>
      rw [EvalKey.left_of_unsigned signed, List.nil_append, closes, EvalKey.leaves, signed]
      rfl
  | true =>
      rw [EvalKey.leaves, signed]
      cases written : step.key with
      | number sign digits =>
          obtain ⟨c, more, split, digit⟩ := digits.exists_cons
          cases sign with
          | none =>
              rw [written] at signed
              cases signed
          | plus =>
              rw [EvalKey.left, split]
              apply stays c _ (isDigit_not_space digit)
              intro same
              rw [same] at digit
              cases digit
          | minus => exact stays 45 _ rfl (by decide)
      | _ =>
          rw [written] at signed
          cases signed

/-- What `pointless_eval_get_single` does at the text of a step. -/
theorem evalGetSingle_text (step : EvalStep) (root : Value) (rest : List UInt8)
    (ap : List EvalArg) :
    evalGetSingle p fuel root (step.text ++ rest) (step.args ++ ap) =
      step.key.leaves root rest ap <$> step.key.lookup p fuel root := by
  have split : step.text ++ rest = step.before ++ 91 :: (step.key.text ++
      (step.inside ++ 93 :: (step.after ++ rest))) := by
    simp [EvalStep.text]
  have ends : isDigit (peek (step.inside ++ 93 :: (step.after ++ rest))) = false := by
    have white := step.inside_white
    cases inside : step.inside with
    | nil => rfl
    | cons c more =>
        rw [inside] at white
        exact isSpace_not_digit (white c List.mem_cons_self)
  have bracket : evalGetSingle p fuel root (step.text ++ rest) (step.args ++ ap) =
      evalBracket p fuel root (step.key.text ++ (step.inside ++ 93 :: (step.after ++ rest)))
        (step.key.args ++ ap) := by
    rw [split, evalGetSingle, skipSpace_append step.before_white, skipSpace_cons rfl]
    rfl
  rw [bracket, evalBracket, evalSwitch_text step.key ends, ok_bind,
    ← EvalKey.evalSubscript_behind p fuel root step.key (step.inside ++ 93 :: (step.after ++ rest))]
  cases switched : step.key.subscript (step.inside ++ 93 :: (step.after ++ rest)) with
  | none =>
      rw [EvalKey.args_of_subscript switched]
      rfl
  | some sub =>
      cases found : evalSubscript p fuel root sub with
      | error stop => simp [found]
      | ok out =>
          cases out with
          | none => simp [found, EvalKey.leaves]
          | some v => simp [found, evalClose_text, EvalKey.leaves]

/-! ## Steps in a row -/

theorem evalGetSingle_skipSpace (root : Value) (e : List UInt8) (ap : List EvalArg) :
    evalGetSingle p fuel root (skipSpace e) ap = evalGetSingle p fuel root e ap := by
  rw [evalGetSingle, evalGetSingle, skipSpace_skipSpace]

/-- Nothing of a path ends it but its terminator. -/
theorem EvalStep.peek_text (step : EvalStep) (rest : List UInt8) :
    peek (step.text ++ rest) ≠ 0 ∧ peek (skipSpace (step.text ++ rest)) ≠ 0 := by
  have white := step.before_white
  have behind : ∃ more, step.text ++ rest = step.before ++ 91 :: more :=
    ⟨step.key.text ++ (step.inside ++ 93 :: (step.after ++ rest)), by simp [EvalStep.text]⟩
  obtain ⟨more, split⟩ := behind
  rw [split]
  constructor
  · cases before : step.before with
    | nil => exact (by decide : (91 : UInt8) ≠ 0)
    | cons c rest =>
        rw [before] at white
        intro zero
        have space : isSpace c = true := white c List.mem_cons_self
        rw [show c = 0 from zero] at space
        cases space
  · rw [skipSpace_append white, skipSpace_cons rfl]
    exact (by decide : (91 : UInt8) ≠ 0)

/-- The loop goes on from the whitespace in front of a step as from the step. -/
theorem evalLoop_skipSpace (steps : List EvalStep) (rounds : Nat) (v : Value)
    (ap : List EvalArg) :
    evalLoop p fuel rounds (some (skipSpace (pathText steps)), v, ap) =
      evalLoop p fuel rounds (some (pathText steps), v, ap) := by
  cases steps with
  | nil => rfl
  | cons step steps =>
      obtain ⟨goes, goes'⟩ := step.peek_text (pathText steps)
      change peek (pathText (step :: steps)) ≠ 0 at goes
      change peek (skipSpace (pathText (step :: steps))) ≠ 0 at goes'
      cases rounds with
      | zero => rw [evalLoop, evalLoop, if_neg goes, if_neg goes']
      | succ rounds =>
          rw [evalLoop, evalLoop, if_neg goes, if_neg goes', evalGetSingle_skipSpace]

/-- The subscripts of a path, each at what the one before has found. -/
def followSteps : Value → List EvalStep → Res (Option Value)
  | root, [] => pure (some root)
  | root, step :: steps => do
      let found ← step.key.get p fuel root
      match found with
      | none => pure none
      | some v => followSteps v steps

/-- What a caller may use of a result: `*v`, if the path was followed to its end. -/
def found (result : Bool × Value) : Option Value := if result.1 then some result.2 else none

/-- The loop at the text of a path. -/
theorem evalLoop_text {steps : List EvalStep} {rounds : Nat} (enough : steps.length ≤ rounds)
    (root : Value) (ap : List EvalArg) :
    found <$> evalLoop p fuel rounds (some (pathText steps), root, pathArgs steps ++ ap) =
      followSteps p fuel root steps := by
  induction steps generalizing rounds root with
  | nil => cases rounds <;> rfl
  | cons step steps ih =>
      cases rounds with
      | zero => cases enough
      | succ rounds =>
          have ends : ∀ v ap, found <$> evalLoop p fuel rounds (none, v, ap) = .ok none := by
            intro v ap
            cases rounds <;> rfl
          have args : pathArgs (step :: steps) ++ ap = step.args ++ (pathArgs steps ++ ap) :=
            List.append_assoc _ _ _
          have goes : peek (pathText (step :: steps)) ≠ 0 := (step.peek_text (pathText steps)).1
          rw [evalLoop, if_neg goes, args]
          change found <$> (evalGetSingle p fuel root (step.text ++ pathText steps) _ >>= _) =
            (_ <$> step.key.lookup p fuel root) >>= _
          rw [evalGetSingle_text]
          cases step.key.lookup p fuel root with
          | error stop => rfl
          | ok here =>
              simp only [map_ok, ok_bind]
              cases here with
              | none =>
                  rw [EvalKey.leaves, ends]
                  cases step.key.signed <;> rfl
              | some v =>
                  rw [EvalKey.leaves]
                  cases step.key.signed with
                  | false =>
                      change found <$> evalLoop p fuel rounds
                        (some (skipSpace (pathText steps)), v, _) = followSteps p fuel v steps
                      rw [evalLoop_skipSpace]
                      exact ih (Nat.le_of_succ_le_succ enough) v
                  | true => exact ends v _

end Steps

end Pointless
