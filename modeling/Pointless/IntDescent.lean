import Pointless.IntCompile

/-!
# The runs of the recursive descent

`Descends k c c'`: the function of a nonterminal goes from `c` to `c'`, with a rule for each way
through the five functions.

* `descends_total`: from every context there is a run, whatever its arrays hold.
* `Descends.tree`: what a run without an error has read is derived by the nonterminal, if it
  has read tokens.
* `Descends.ends`: where a run without an error has stopped stands no operator.
* `Descends.twins`: two runs over the same tokens that have not left them end alike.
-/

namespace Pointless

open Deciding ExceptRules Postfix

/-! ## Rules -/

/-- The functions of a chain, of an operand of it, and of its rest. -/
inductive IsChain : Nonterminal → Nonterminal → Nonterminal → Prop
  | sum : IsChain .E .T .Em
  | product : IsChain .T .F .Tm

/-- The current token is an operator of the chain. -/
def GoesOn (rest : Nonterminal) (c : IntopEvalContext) : Prop :=
  match rest with
  | .Em => intopCurrent c = some .add ∨ intopCurrent c = some .sub
  | .Tm => intopCurrent c = some .mul ∨ intopCurrent c = some .div
  | _ => False

/-- The current token is an operand. -/
def AtOperand (c : IntopEvalContext) : Prop :=
  intopCurrent c = some .number ∨ intopCurrent c = some .variable

/-- What `intop_eval_F` does behind a sum in parentheses. -/
def intopClose (c : IntopEvalContext) : IntopEvalContext :=
  if intopCheckError c then c
  else if intopCurrent c ≠ some .rparen then intopError c "expected ')'"
  else { c with i := c.i + 1 }

/-- The runs of the recursive descent. -/
inductive Descends : Nonterminal → IntopEvalContext → IntopEvalContext → Prop
  | failed {k c} (message : c.sError ≠ none) : Descends k c c
  | chain {whole operand rest c c₁ c₂} (isChain : IsChain whole operand rest)
      (noError : c.sError = none) (first : Descends operand c c₁) (others : Descends rest c₁ c₂) :
      Descends whole c c₂
  | next {whole operand rest c c₁ c₂} (isChain : IsChain whole operand rest)
      (noError : c.sError = none) (goesOn : GoesOn rest c)
      (first : Descends operand { c with i := c.i + 1 } c₁) (others : Descends rest c₁ c₂) :
      Descends rest c (intopEvalPush c₂ (c₂.tokens c.i))
  | last {whole operand rest c} (isChain : IsChain whole operand rest)
      (noError : c.sError = none) (ends : ¬GoesOn rest c) : Descends rest c c
  | operand {c} (noError : c.sError = none) (here : AtOperand c) :
      Descends .F c
        { intopEvalPush c (c.tokens c.i) with i := (intopEvalPush c (c.tokens c.i)).i + 1 }
  | parens {c c₁} (noError : c.sError = none) (opens : intopCurrent c = some .lparen)
      (inner : Descends .E { c with i := c.i + 1 } c₁) : Descends .F c (intopClose c₁)
  | unexpected {c} (noError : c.sError = none) (noOperand : ¬AtOperand c)
      (noParens : intopCurrent c ≠ some .lparen) : Descends .F c (intopError c intopExpected)

/-! ## Runs of the functions -/

section Runs

variable {c : IntopEvalContext} {whole operand rest : Nonterminal}

theorem run_failed (k : Nonterminal) (message : c.sError ≠ none) (fuel : Nat) :
    k.run (fuel + 1) c = .ok c := by
  have check : intopCheckError c = true := Option.isSome_iff_ne_none.mpr message
  cases k <;> exact if_pos check

theorem run_chain (isChain : IsChain whole operand rest) (noError : c.sError = none)
    (fuel : Nat) : whole.run (fuel + 1) c = operand.run fuel c >>= rest.run fuel := by
  cases isChain with
  | sum => exact intopEvalE_succ noError fuel
  | product => exact intopEvalT_succ noError fuel

theorem run_next (isChain : IsChain whole operand rest) (noError : c.sError = none)
    (goesOn : GoesOn rest c) (fuel : Nat) :
    rest.run (fuel + 1) c =
      operand.run fuel { c with i := c.i + 1 } >>= fun c₁ =>
        rest.run fuel c₁ >>= fun c₂ => pure (intopEvalPush c₂ (c₂.tokens c.i)) := by
  cases isChain with
  | sum => exact (if_neg (noError_check noError)).trans (if_pos goesOn)
  | product => exact (if_neg (noError_check noError)).trans (if_pos goesOn)

theorem run_last (isChain : IsChain whole operand rest) (noError : c.sError = none)
    (ends : ¬GoesOn rest c) (fuel : Nat) : rest.run (fuel + 1) c = .ok c := by
  cases isChain with
  | sum => exact (if_neg (noError_check noError)).trans (if_neg ends)
  | product => exact (if_neg (noError_check noError)).trans (if_neg ends)

theorem run_parens (noError : c.sError = none) (opens : intopCurrent c = some .lparen)
    (fuel : Nat) :
    Nonterminal.F.run (fuel + 1) c =
      Nonterminal.E.run fuel { c with i := c.i + 1 } >>= fun c₁ => pure (intopClose c₁) := by
  obtain ⟨inside, here⟩ := intopCurrent_some opens
  rw [intopEvalF_parens noError inside here]
  congr 1
  funext c₁
  unfold intopClose
  split
  · rfl
  · split <;> rfl

/-- The functions follow the rules. -/
theorem Descends.returns {k : Nonterminal} {c' : IntopEvalContext} (descends : Descends k c c') :
    EventuallyReturns (fun fuel => k.run fuel c) c' := by
  induction descends with
  | failed message => exact .call (run_failed _ message) (.always fun _ => rfl)
  | chain isChain noError first others ihFirst ihOthers =>
      exact .call (run_chain isChain noError) (ihFirst.bind ihOthers)
  | next isChain noError goesOn first others ihFirst ihOthers =>
      exact .call (run_next isChain noError goesOn)
        (ihFirst.bind (ihOthers.bind (.always fun _ => rfl)))
  | last isChain noError ends => exact .call (run_last isChain noError ends) (.always fun _ => rfl)
  | operand noError here =>
      exact .call (fun _ => (if_neg (noError_check noError)).trans (if_pos here))
        (.always fun _ => rfl)
  | parens noError opens inner ih =>
      exact .call (run_parens noError opens) (ih.bind (.always fun _ => rfl))
  | unexpected noError noOperand noParens =>
      exact .call (fun _ => (if_neg (noError_check noError)).trans
        ((if_neg noOperand).trans (if_neg noParens))) (.always fun _ => rfl)

end Runs

/-! ## What a run keeps -/

/-- From `c` to `c'` no token has changed, none was given back, and an error has stayed. -/
structure Advances (c c' : IntopEvalContext) : Prop where
  i : c.i ≤ c'.i
  n : c'.n = c.n
  tokens : c'.tokens = c.tokens
  noError : c'.sError = none → c.sError = none

section Advances

variable {c c' c'' : IntopEvalContext}

theorem Advances.refl : Advances c c := ⟨Nat.le_refl _, rfl, rfl, id⟩

theorem Advances.trans (first : Advances c c') (second : Advances c' c'') : Advances c c'' :=
  ⟨first.i.trans second.i, second.n.trans first.n, second.tokens.trans first.tokens,
    first.noError ∘ second.noError⟩

theorem Advances.skip : Advances c { c with i := c.i + 1 } :=
  ⟨Nat.le_succ _, rfl, rfl, id⟩

theorem advances_error (message : String) : Advances c (intopError c message) :=
  ⟨Nat.le_refl _, rfl, rfl, nofun⟩

theorem advances_push (token : IntopEvalToken) : Advances c (intopEvalPush c token) := by
  unfold intopEvalPush
  split
  · exact advances_error _
  · exact ⟨Nat.le_refl _, rfl, rfl, id⟩

theorem push_i (token : IntopEvalToken) : (intopEvalPush c token).i = c.i := by
  unfold intopEvalPush
  split <;> rfl

theorem advances_close : Advances c (intopClose c) := by
  unfold intopClose
  split
  · exact .refl
  · split
    · exact advances_error _
    · exact .skip

theorem Descends.advances {k : Nonterminal} (descends : Descends k c c') : Advances c c' := by
  induction descends with
  | failed message => exact .refl
  | chain isChain noError first others ihFirst ihOthers => exact ihFirst.trans ihOthers
  | next isChain noError goesOn first others ihFirst ihOthers =>
      exact ((Advances.skip.trans ihFirst).trans ihOthers).trans (advances_push _)
  | last isChain noError ends => exact .refl
  | operand noError here => exact (advances_push _).trans .skip
  | parens noError opens inner ih => exact (Advances.skip.trans ih).trans advances_close
  | unexpected noError noOperand noParens => exact advances_error _

/-- Where a push has not failed, there was room. -/
theorem room_of_push {token : IntopEvalToken}
    (noError : (intopEvalPush c token).sError = none) : c.sN ≠ intopEvalMaxN := by
  intro full
  rw [intopEvalPush, if_pos full] at noError
  cases noError

/-- Where a parenthesis was closed. -/
theorem close_cases (noError : (intopClose c).sError = none) :
    c.sError = none ∧ intopCurrent c = some .rparen ∧ intopClose c = { c with i := c.i + 1 } := by
  have before := advances_close.noError noError
  have current : intopCurrent c = some .rparen := by
    by_contra other
    rw [intopClose, if_neg (noError_check before), if_pos other] at noError
    cases noError
  refine ⟨before, current, ?_⟩
  rw [intopClose, if_neg (noError_check before), if_neg (not_not.mpr current)]

/-- An operator of a chain is in bounds. -/
theorem GoesOn.inside {rest : Nonterminal} (goesOn : GoesOn rest c) : c.i < intopEvalMaxN := by
  cases rest with
  | Em => rcases goesOn with current | current <;> exact (intopCurrent_some current).1
  | Tm => rcases goesOn with current | current <;> exact (intopCurrent_some current).1
  | E => exact goesOn.elim
  | T => exact goesOn.elim
  | F => exact goesOn.elim

theorem AtOperand.inside (here : AtOperand c) : c.i < intopEvalMaxN := by
  rcases here with current | current <;> exact (intopCurrent_some current).1

end Advances

/-! ## Termination -/

/-- How many calls deep a function may go at the token where it begins. -/
def Nonterminal.rank : Nonterminal → Nat
  | .E => 3
  | .T => 2
  | _ => 1

/-- From every context there is a run: each call is at a later token, or further down at the
same one, and behind the last index nothing is called. -/
theorem descends_total (k : Nonterminal) (c : IntopEvalContext) : ∃ c', Descends k c c' := by
  generalize measure : 4 * (intopEvalMaxN - c.i) + k.rank = m
  induction m using Nat.strongRecOn generalizing k c with
  | ind m ih =>
  subst measure
  by_cases message : c.sError ≠ none
  · exact ⟨c, .failed message⟩
  have noError := not_not.mp message
  have chains {whole operand rest : Nonterminal} (isChain : IsChain whole operand rest)
      (isWhole : k = whole) : ∃ c', Descends k c c' := by
    subst isWhole
    have ranks : operand.rank < k.rank ∧ rest.rank < k.rank := by cases isChain <;> decide
    obtain ⟨c₁, first⟩ := ih _ (Nat.add_lt_add_left ranks.1 _) operand c rfl
    have later := first.advances.i
    obtain ⟨c₂, others⟩ := ih _ (by omega) rest c₁ rfl
    exact ⟨c₂, .chain isChain noError first others⟩
  have rests {whole operand rest : Nonterminal} (isChain : IsChain whole operand rest)
      (isRest : k = rest) : ∃ c', Descends k c c' := by
    subst isRest
    by_cases goesOn : GoesOn k c
    · have inside := goesOn.inside
      have ranks : operand.rank ≤ 2 ∧ k.rank = 1 := by cases isChain <;> decide
      have closer : 4 * (intopEvalMaxN - (c.i + 1)) + operand.rank <
          4 * (intopEvalMaxN - c.i) + k.rank := by omega
      obtain ⟨c₁, first⟩ := ih _ closer operand { c with i := c.i + 1 } rfl
      have later : c.i + 1 ≤ c₁.i := first.advances.i
      obtain ⟨c₂, others⟩ := ih _ (by omega) k c₁ rfl
      exact ⟨_, .next isChain noError goesOn first others⟩
    · exact ⟨c, .last isChain noError goesOn⟩
  cases k with
  | E => exact chains .sum rfl
  | T => exact chains .product rfl
  | Em => exact rests .sum rfl
  | Tm => exact rests .product rfl
  | F =>
      by_cases here : AtOperand c
      · exact ⟨_, .operand noError here⟩
      by_cases opens : intopCurrent c = some .lparen
      · have inside := (intopCurrent_some opens).1
        have closer : 4 * (intopEvalMaxN - (c.i + 1)) + Nonterminal.E.rank <
            4 * (intopEvalMaxN - c.i) + Nonterminal.F.rank := by
          change 4 * (intopEvalMaxN - (c.i + 1)) + 3 < 4 * (intopEvalMaxN - c.i) + 1
          omega
        obtain ⟨c₁, inner⟩ := ih _ closer .E { c with i := c.i + 1 } rfl
        exact ⟨_, .parens noError opens inner⟩
      · exact ⟨_, .unexpected noError here opens⟩

/-! ## Soundness -/

/-- The tokens from `i` up to `j` are tokens of expressions. -/
def WrittenUpTo (tokens : Nat → IntopEvalToken) (i j : Nat) : Prop :=
  ∀ k, i ≤ k → k < j → ∃ t, Represents (tokens k) t

theorem WrittenUpTo.inner {tokens : Nat → IntopEvalToken} {i i' j j' : Nat}
    (written : WrittenUpTo tokens i j) (later : i ≤ i') (sooner : j' ≤ j) :
    WrittenUpTo tokens i' j' := fun k le less =>
  written k (later.trans le) (less.trans_le sooner)

/-- The nonterminal derives the tokens from `i` up to `j`. -/
def Derives (k : Nonterminal) (tokens : Nat → IntopEvalToken) (i j : Nat) : Prop :=
  ∃ tree : ArithTree k, j = i + tree.tokens.length ∧ TokensAt tokens i tree.tokens

section Soundness

variable {tokens : Nat → IntopEvalToken} {i j l : Nat}

theorem Derives.chain {whole operand rest : Nonterminal} (isChain : IsChain whole operand rest)
    (first : Derives operand tokens i j) (others : Derives rest tokens j l) :
    Derives whole tokens i l := by
  obtain ⟨tree, rfl, written⟩ := first
  obtain ⟨tree', rfl, written'⟩ := others
  have both := tokensAt_append.mpr ⟨written, written'⟩
  have place : i + tree.tokens.length + tree'.tokens.length =
      i + (tree.tokens ++ tree'.tokens).length := by
    rw [List.length_append, Nat.add_assoc]
  cases isChain with
  | sum => exact ⟨.sum tree tree', place, both⟩
  | product => exact ⟨.product tree tree', place, both⟩

/-- An operator of the chain, by its type. -/
theorem GoesOn.operator {c : IntopEvalContext} {whole operand rest : Nonterminal}
    (isChain : IsChain whole operand rest) (goesOn : GoesOn rest c) :
    ∃ op : ArithOp, op.additive = decide (rest = .Em) ∧ (c.tokens c.i).type = op.type := by
  cases isChain with
  | sum =>
      rcases goesOn with current | current
      · exact ⟨.add, rfl, (intopCurrent_some current).2⟩
      · exact ⟨.sub, rfl, (intopCurrent_some current).2⟩
  | product =>
      rcases goesOn with current | current
      · exact ⟨.mul, rfl, (intopCurrent_some current).2⟩
      · exact ⟨.div, rfl, (intopCurrent_some current).2⟩

theorem Derives.next {whole operand rest : Nonterminal} (isChain : IsChain whole operand rest)
    (inside : i < intopEvalMaxN) {op : ArithOp} (kind : op.additive = decide (rest = .Em))
    (here : (tokens i).type = op.type) (first : Derives operand tokens (i + 1) j)
    (others : Derives rest tokens j l) : Derives rest tokens i l := by
  obtain ⟨tree, rfl, written⟩ := first
  obtain ⟨tree', rfl, written'⟩ := others
  have both : TokensAt tokens i (.op op :: (tree.tokens ++ tree'.tokens)) :=
    ⟨inside, here, tokensAt_append.mpr ⟨written, written'⟩⟩
  have place : i + 1 + tree.tokens.length + tree'.tokens.length =
      i + (Lexeme.op op :: (tree.tokens ++ tree'.tokens)).length := by
    rw [List.length_cons, List.length_append]
    omega
  cases isChain with
  | sum => exact ⟨.sumNext op kind tree tree', place, both⟩
  | product => exact ⟨.productNext op kind tree tree', place, both⟩

theorem Derives.last {whole operand rest : Nonterminal} (isChain : IsChain whole operand rest) :
    Derives rest tokens i i := by
  cases isChain with
  | sum => exact ⟨.sumEnd, rfl, trivial⟩
  | product => exact ⟨.productEnd, rfl, trivial⟩

/-- An operand, by its type. -/
theorem Derives.operand {c : IntopEvalContext} (here : AtOperand c) {t : Lexeme}
    (represents : Represents (c.tokens c.i) t) : Derives .F c.tokens c.i (c.i + 1) := by
  have inside := here.inside
  have type : (c.tokens c.i).type = .number ∨ (c.tokens c.i).type = .variable :=
    here.imp (fun current => (intopCurrent_some current).2)
      fun current => (intopCurrent_some current).2
  cases t with
  | operand a => exact ⟨.operand a, rfl, inside, represents, trivial⟩
  | op o =>
      have other : (c.tokens c.i).type = o.type := represents
      rw [other] at type
      cases o <;> rcases type with type | type <;> cases type
  | lparen =>
      have other : (c.tokens c.i).type = .lparen := represents
      rw [other] at type
      rcases type with type | type <;> cases type
  | rparen =>
      have other : (c.tokens c.i).type = .rparen := represents
      rw [other] at type
      rcases type with type | type <;> cases type

theorem Derives.parens (inside : i < intopEvalMaxN) (opens : (tokens i).type = .lparen)
    (inner : Derives .E tokens (i + 1) j) (insideEnd : j < intopEvalMaxN)
    (closes : (tokens j).type = .rparen) : Derives .F tokens i (j + 1) := by
  obtain ⟨tree, rfl, written⟩ := inner
  refine ⟨.parens tree, ?_, inside, opens, ?_⟩
  · rw [ArithTree.tokens, List.length_cons, List.length_append, List.length_singleton]
    omega
  · exact tokensAt_append.mpr ⟨written, insideEnd, closes, trivial⟩

/-- What a run without an error has read is derived by the nonterminal. -/
theorem Descends.tree {k : Nonterminal} {c c' : IntopEvalContext} (descends : Descends k c c')
    (noError : c'.sError = none) (written : WrittenUpTo c.tokens c.i c'.i) :
    Derives k c.tokens c.i c'.i := by
  induction descends with
  | failed message => exact absurd noError message
  | @chain whole operand rest c c₁ c₂ isChain noErrorBefore first others ihFirst ihOthers =>
      have kept := first.advances
      have kept' := others.advances
      rw [kept.tokens] at ihOthers
      exact .chain isChain (ihFirst (kept'.noError noError) (written.inner (Nat.le_refl _) kept'.i))
        (ihOthers noError (written.inner kept.i (Nat.le_refl _)))
  | @next whole operand rest c c₁ c₂ isChain noErrorBefore goesOn first others ihFirst ihOthers =>
      have kept := first.advances
      have kept' := others.advances
      have noError' := (advances_push _).noError noError
      have later : c.i + 1 ≤ c₁.i := kept.i
      obtain ⟨op, kind, here⟩ := goesOn.operator isChain
      rw [push_i] at written ⊢
      rw [kept.tokens] at ihOthers
      exact .next isChain goesOn.inside kind here
        (ihFirst (kept'.noError noError') (written.inner (Nat.le_succ _) kept'.i))
        (ihOthers noError' (written.inner (by omega) (Nat.le_refl _)))
  | last isChain noErrorBefore ends => exact .last isChain
  | @operand c noErrorBefore here =>
      rw [push_i] at written ⊢
      obtain ⟨t, represents⟩ := written c.i (Nat.le_refl _) (Nat.lt_succ_self _)
      exact .operand here represents
  | @parens c c₁ noErrorBefore opens inner ih =>
      obtain ⟨noError', current, closed⟩ := close_cases noError
      have kept := inner.advances
      have later : c.i + 1 ≤ c₁.i := kept.i
      have sameTokens : c₁.tokens = c.tokens := kept.tokens
      obtain ⟨inside, here⟩ := intopCurrent_some opens
      obtain ⟨insideEnd, hereEnd⟩ := intopCurrent_some current
      rw [closed] at written ⊢
      rw [sameTokens] at hereEnd
      exact .parens inside here (ih noError' (written.inner (Nat.le_succ _) (Nat.le_succ _)))
        insideEnd hereEnd
  | unexpected noErrorBefore noOperand noParens => cases noError

end Soundness

/-! ## Where a run stops -/

/-- What stands where a run of the nonterminal stops: the rest of a sum is to begin behind a
product. -/
def StopsAt (k : Nonterminal) (tokens : Nat → IntopEvalToken) (i j : Nat) : Prop :=
  match k with
  | .E => EndsAt tokens j .E
  | .Em => EndsAt tokens i .T → EndsAt tokens j .E
  | .T | .Tm => EndsAt tokens j .T
  | .F => True

theorem endsAt_product {c : IntopEvalContext} (ends : ¬GoesOn .Tm c) :
    EndsAt c.tokens c.i .T := by
  intro inside op multiplicative same
  exact ends (current_multiplicative multiplicative inside same)

theorem endsAt_sum {c : IntopEvalContext} (ends : ¬GoesOn .Em c)
    (product : EndsAt c.tokens c.i .T) : EndsAt c.tokens c.i .E := by
  intro inside op same
  cases additive : op.additive with
  | true => exact ends (current_additive additive inside same)
  | false => exact product inside op additive same

/-- Where a run without an error has stopped stands no operator that it would go on at. -/
theorem Descends.ends {k : Nonterminal} {c c' : IntopEvalContext} (descends : Descends k c c')
    (noError : c'.sError = none) : StopsAt k c.tokens c.i c'.i := by
  induction descends with
  | failed message => exact absurd noError message
  | chain isChain noErrorBefore first others ihFirst ihOthers =>
      have before := ihFirst (others.advances.noError noError)
      have after := ihOthers noError
      rw [first.advances.tokens] at after
      cases isChain with
      | sum => exact after before
      | product => exact after
  | next isChain noErrorBefore goesOn first others ihFirst ihOthers =>
      have noError' := (advances_push _).noError noError
      have before := ihFirst (others.advances.noError noError')
      have after := ihOthers noError'
      rw [first.advances.tokens] at after
      rw [push_i]
      cases isChain with
      | sum => exact fun _ => after before
      | product => exact after
  | last isChain noErrorBefore ends =>
      cases isChain with
      | sum => exact endsAt_sum ends
      | product => exact endsAt_product ends
  | operand noErrorBefore here => trivial
  | parens noErrorBefore opens inner ih => trivial
  | unexpected noErrorBefore noOperand noParens => trivial

/-! ## Two runs -/

/-- The tokens are the same in all that tokens of their type have. -/
def SameToken (t u : IntopEvalToken) : Prop :=
  t.type = u.type ∧ (t.type = .number → t.number = u.number) ∧
    (t.type = .variable → t.varIndex = u.varIndex)

/-- The contexts have the same program. -/
def SameProgram (c d : IntopEvalContext) : Prop := List.Forall₂ SameToken c.program d.program

/-- The contexts are at the same one of the first `n` tokens, which are the same. -/
structure Twins (n : Nat) (c d : IntopEvalContext) : Prop where
  i : d.i = c.i
  tokens : ∀ j < n, SameToken (c.tokens j) (d.tokens j)
  program : SameProgram c d

section Twins

variable {n : Nat} {c d : IntopEvalContext}

theorem Twins.skip (twins : Twins n c d) :
    Twins n { c with i := c.i + 1 } { d with i := d.i + 1 } :=
  ⟨congrArg (· + 1) twins.i, twins.tokens, twins.program⟩

theorem Twins.push (twins : Twins n c d) {t u : IntopEvalToken} (same : SameToken t u)
    (noError : (intopEvalPush c t).sError = none) (noError' : (intopEvalPush d u).sError = none) :
    Twins n (intopEvalPush c t) (intopEvalPush d u) where
  i := by rw [push_i, push_i, twins.i]
  tokens := by
    rw [(advances_push t).tokens, (advances_push u).tokens]
    exact twins.tokens
  program := by
    rw [SameProgram, program_push (room_of_push noError), program_push (room_of_push noError')]
    exact List.rel_append twins.program (.cons same .nil)

/-- At one of the tokens, the contexts see the same type. -/
theorem Twins.current (twins : Twins n c d) (less : c.i < n) : intopCurrent d = intopCurrent c := by
  rw [intopCurrent, intopCurrent, intopEvalCheckBounds, intopEvalCheckBounds, twins.i,
    (twins.tokens c.i less).1]

theorem Twins.goesOn (twins : Twins n c d) (less : c.i < n) (rest : Nonterminal) :
    GoesOn rest d ↔ GoesOn rest c := by
  unfold GoesOn
  rw [twins.current less]

theorem Twins.atOperand (twins : Twins n c d) (less : c.i < n) : AtOperand d ↔ AtOperand c := by
  unfold AtOperand
  rw [twins.current less]

end Twins

section Inversion

variable {c c' : IntopEvalContext} {whole operand rest : Nonterminal}

theorem Descends.chain_cases (descends : Descends whole c c') (isChain : IsChain whole operand rest)
    (noError : c.sError = none) : ∃ c₁, Descends operand c c₁ ∧ Descends rest c₁ c' := by
  cases descends with
  | failed message => exact absurd noError message
  | chain isChain' noError' first others =>
      cases isChain <;> cases isChain' <;> exact ⟨_, first, others⟩
  | next isChain' => cases isChain <;> cases isChain'
  | last isChain' => cases isChain <;> cases isChain'
  | operand => cases isChain
  | parens => cases isChain
  | unexpected => cases isChain

theorem Descends.rest_cases (descends : Descends rest c c') (isChain : IsChain whole operand rest)
    (noError : c.sError = none) :
    (GoesOn rest c ∧ ∃ c₁ c₂, Descends operand { c with i := c.i + 1 } c₁ ∧
        Descends rest c₁ c₂ ∧ c' = intopEvalPush c₂ (c₂.tokens c.i)) ∨
      (¬GoesOn rest c ∧ c' = c) := by
  cases descends with
  | failed message => exact absurd noError message
  | chain isChain' => cases isChain <;> cases isChain'
  | next isChain' noError' goesOn first others =>
      cases isChain <;> cases isChain' <;> exact .inl ⟨goesOn, _, _, first, others, rfl⟩
  | last isChain' noError' ends => exact .inr ⟨ends, rfl⟩
  | operand => cases isChain
  | parens => cases isChain
  | unexpected => cases isChain

theorem Descends.factor_cases (descends : Descends .F c c') (noError : c'.sError = none) :
    (AtOperand c ∧
        c' = { intopEvalPush c (c.tokens c.i) with i := (intopEvalPush c (c.tokens c.i)).i + 1 }) ∨
      (intopCurrent c = some .lparen ∧
        ∃ c₁, Descends .E { c with i := c.i + 1 } c₁ ∧ c' = intopClose c₁) := by
  cases descends with
  | failed message => exact absurd noError message
  | chain isChain' => cases isChain'
  | next isChain' => cases isChain'
  | last isChain' => cases isChain'
  | operand noError' here => exact .inl ⟨here, rfl⟩
  | parens noError' opens inner => exact .inr ⟨opens, _, inner, rfl⟩
  | unexpected => cases noError

end Inversion

/-- Two runs without an error over the same tokens, which both have stopped in front of token
`n`, end alike. -/
theorem Descends.twins {n : Nat} {k : Nonterminal} {c c' : IntopEvalContext}
    (descends : Descends k c c') (noError : c'.sError = none) (less : c'.i ≤ n)
    {d d' : IntopEvalContext} (descends' : Descends k d d') (noError' : d'.sError = none)
    (less' : d'.i ≤ n) (twins : Twins n c d) : Twins n c' d' := by
  have before := descends'.advances.noError noError'
  induction descends generalizing d d' with
  | failed message => exact absurd noError message
  | chain isChain noErrorBefore first others ihFirst ihOthers =>
      obtain ⟨d₁, first', others'⟩ := descends'.chain_cases isChain before
      have kept := others.advances
      have kept' := others'.advances
      have middle := ihFirst (kept.noError noError) (kept.i.trans less) first'
        (kept'.noError noError') (kept'.i.trans less') twins before
      exact ihOthers noError less others' noError' less' middle (kept'.noError noError')
  | @next whole operand rest c c₁ c₂ isChain noErrorBefore goesOn first others ihFirst ihOthers =>
      have noError₂ := (advances_push _).noError noError
      have kept := first.advances
      have kept₂ := others.advances
      have later : c.i + 1 ≤ c₁.i := kept.i
      rw [push_i] at less
      have inside : c.i < n := by have := kept₂.i; omega
      rcases descends'.rest_cases isChain before with
        ⟨-, d₁, d₂, first', others', rfl⟩ | ⟨ends, -⟩
      · have noError₂' := (advances_push _).noError noError'
        have kept' := others'.advances
        rw [push_i] at less'
        have middle := ihFirst (kept₂.noError noError₂) (kept₂.i.trans less) first'
          (kept'.noError noError₂') (kept'.i.trans less') twins.skip before
        have after := ihOthers noError₂ less others' noError₂' less' middle
          (kept'.noError noError₂')
        apply after.push _ noError noError'
        rw [twins.i]
        exact after.tokens c.i inside
      · exact absurd ((twins.goesOn inside rest).mpr goesOn) ends
  | @last whole operand rest c isChain noErrorBefore ends =>
      rcases descends'.rest_cases isChain before with
        ⟨goesOn, d₁, d₂, first', others', rfl⟩ | ⟨-, rfl⟩
      · have later : d.i + 1 ≤ d₁.i := first'.advances.i
        have kept' := others'.advances.i
        rw [push_i] at less'
        have inside : c.i < n := by have := twins.i; omega
        exact absurd ((twins.goesOn inside rest).mp goesOn) ends
      · exact twins
  | @operand c noErrorBefore here =>
      rw [push_i] at less
      have inside : c.i < n := less
      rcases descends'.factor_cases noError' with ⟨-, rfl⟩ | ⟨opens, -⟩
      · have pushed : Twins n (intopEvalPush c (c.tokens c.i)) (intopEvalPush d (d.tokens d.i)) := by
          apply twins.push _ noError noError'
          rw [twins.i]
          exact twins.tokens c.i inside
        exact pushed.skip
      · have here' := (twins.atOperand inside).mpr here
        unfold AtOperand at here'
        rw [opens] at here'
        rcases here' with other | other <;> cases other
  | @parens c c₁ noErrorBefore opens inner ih =>
      obtain ⟨noErrorInner, -, closed⟩ := close_cases noError
      have later : c.i + 1 ≤ c₁.i := inner.advances.i
      rw [closed] at less
      have less₁ : c₁.i + 1 ≤ n := less
      have inside : c.i < n := by omega
      rcases descends'.factor_cases noError' with ⟨here, -⟩ | ⟨-, d₁, inner', rfl⟩
      · have here' := (twins.atOperand inside).mp here
        unfold AtOperand at here'
        rw [opens] at here'
        rcases here' with other | other <;> cases other
      · obtain ⟨noErrorInner', -, closed'⟩ := close_cases noError'
        rw [closed'] at less'
        have less₁' : d₁.i + 1 ≤ n := less'
        rw [closed, closed']
        exact (ih noErrorInner (by omega) inner' noErrorInner' (by omega) twins.skip before).skip
  | unexpected noErrorBefore noOperand noParens => cases noError

end Pointless
