import Pointless.IntDescent
import Pointless.IntEvalSound

/-!
# Compiling in any context

What the compiler makes of a text where the context holds anything before: a text that the
grammar accepts is compiled to one program, from whichever context, unless an operator happens
to stand behind its last token; any other text is refused. `compileMeets_iff` is the exact
condition.
-/

namespace Pointless

open CText Deciding ExceptRules Postfix

/-! ## Statement -/

/-- The texts of fewer than 512 tokens that the grammar accepts. -/
def Accepted (s : List UInt8) : Prop :=
  ∃ tree : ArithTree .E, Spells s tree.tokens ∧ tree.tokens.length < intopEvalMaxN

/-- With enough fuel, the text compiles to the context. -/
def Compiles (s : List UInt8) (c c' : IntopEvalContext) : Prop :=
  EventuallyReturns (fun fuel => intopEvalCompile fuel s c) c'

/-- With enough fuel, the compiler refuses the text. -/
def Refuses (s : List UInt8) (c : IntopEvalContext) : Prop :=
  ∃ message enough, ∀ fuel ≥ enough, intopEvalCompile fuel s c = fail message

/-- Compiled in two contexts, an accepted text succeeds in both with the same program, and any
other text fails in both. -/
def CompileMeets (s : List UInt8) (c d : IntopEvalContext) : Prop :=
  (Accepted s ∧ ∃ c' d', Compiles s c c' ∧ Compiles s d d' ∧ SameProgram c' d') ∨
    (¬Accepted s ∧ Refuses s c ∧ Refuses s d)

/-- No operator stands at index `n`. -/
def CleanAt (c : IntopEvalContext) (n : Nat) : Prop := ∀ op : ArithOp, (c.tokens n).type ≠ op.type

/-! ## Tokens of two contexts -/

/-- The two runs of the tokenizer store the same tokens of the text, or fail alike. -/
def TokenizeAlike (c d : IntopEvalContext) (s : List UInt8) (out out' : Res IntopEvalContext) :
    Prop :=
  (∃ ts c' d', Spells s ts ∧ c.n + ts.length ≤ intopEvalMaxN ∧
      out = .ok c' ∧ Tokenized c c' ts ∧ out' = .ok d' ∧ Tokenized d d' ts ∧
      ∀ j, c.n ≤ j → j < c.n + ts.length → SameToken (c'.tokens j) (d'.tokens j)) ∨
    ∃ message, out = fail message ∧ out' = fail message

section Tokenizer

variable {c d : IntopEvalContext} {s s' : List UInt8} {out out' : Res IntopEvalContext}

/-- The rule for one more token in front. -/
theorem TokenizeAlike.token (t : Lexeme) (set : IntopEvalToken → IntopEvalToken)
    (same : d.n = c.n) (inside : c.n < intopEvalMaxN)
    (represents : ∀ token, Represents (set token) t)
    (sets : ∀ token token', SameToken (set token) (set token'))
    (spells : ∀ ts, Spells s ts → Spells s' (t :: ts))
    (alike : TokenizeAlike (c.addToken set) (d.addToken set) s out out') :
    TokenizeAlike c d s' out out' := by
  rcases alike with ⟨ts, c', d', spelled, room, ran, tokenized, ran', tokenized', stored⟩ | failed
  · have count : (c.addToken set).n = c.n + 1 := rfl
    have count' : (d.addToken set).n = c.n + 1 := congrArg (· + 1) same
    rw [count] at room stored
    have first : c'.tokens c.n = set (c.tokens c.n) := by
      rw [tokenized.kept c.n (.inl (Nat.lt_succ_self c.n))]
      exact Function.update_self c.n _ c.tokens
    have first' : d'.tokens c.n = set (d.tokens d.n) := by
      rw [tokenized'.kept c.n (.inl (by omega)), ← same]
      exact Function.update_self d.n _ d.tokens
    refine .inl ⟨t :: ts, c', d', spells ts spelled, ?_, ran, .cons inside (represents _) tokenized,
      ran', .cons (same ▸ inside) (represents _) tokenized', ?_⟩
    · rw [List.length_cons]
      omega
    · intro j le less
      rw [List.length_cons] at less
      rcases Nat.eq_or_lt_of_le le with rfl | later
      · rw [first, first']
        exact sets _ _
      · exact stored j later (by omega)
  · exact .inr failed

/-- The rule for a blank in front. -/
theorem TokenizeAlike.blank {a : UInt8} (white : a = 32 ∨ a = 9)
    (alike : TokenizeAlike c d s out out') : TokenizeAlike c d (a :: s) out out' := by
  rcases alike with ⟨ts, c', d', spelled, rest⟩ | failed
  · exact .inl ⟨ts, c', d', .blank white spelled, rest⟩
  · exact .inr failed

/-- The tokens of one character, by their type. -/
theorem intopSymbol_lexeme {a : UInt8} {type : IntopTokenType} (symbol : intopSymbol a = some type) :
    type ≠ .number ∧ type ≠ .variable ∧ ∃ t : Lexeme, t.char = some a ∧
      ∀ token : IntopEvalToken, Represents { token with type := type } t := by
  unfold intopSymbol at symbol
  split at symbol
  · next here => cases symbol; exact ⟨nofun, nofun, .lparen, here ▸ rfl, fun _ => rfl⟩
  split at symbol
  · next here => cases symbol; exact ⟨nofun, nofun, .rparen, here ▸ rfl, fun _ => rfl⟩
  split at symbol
  · next here => cases symbol; exact ⟨nofun, nofun, .op .sub, here ▸ rfl, fun _ => rfl⟩
  split at symbol
  · next here => cases symbol; exact ⟨nofun, nofun, .op .add, here ▸ rfl, fun _ => rfl⟩
  split at symbol
  · next here => cases symbol; exact ⟨nofun, nofun, .op .div, here ▸ rfl, fun _ => rfl⟩
  split at symbol
  · next here => cases symbol; exact ⟨nofun, nofun, .op .mul, here ▸ rfl, fun _ => rfl⟩
  · cases symbol

/-- A text that begins with a digit begins with a numeral, up to what is no digit. -/
theorem exists_numeral {a : UInt8} (digit : isDigit a = true) (s : List UInt8) :
    ∃ (digits : Numeral) (rest : List UInt8), a :: s = digits.chars ++ rest ∧
      isDigit (peek rest) = false := by
  have whole : (a :: s).takeWhile isDigit ++ (a :: s).dropWhile isDigit = a :: s :=
    List.takeWhile_append_dropWhile
  refine ⟨⟨(a :: s).takeWhile isDigit, ?_, fun c mem => List.mem_takeWhile_imp mem⟩,
    (a :: s).dropWhile isDigit, whole.symm, ?_⟩
  · rw [List.takeWhile_cons_of_pos digit]
    exact List.cons_ne_nil _ _
  · cases rest : (a :: s).dropWhile isDigit with
    | nil => rfl
    | cons b rest' =>
        have head := List.head_dropWhile_not isDigit (l := a :: s) (by rw [rest]; exact nofun)
        simpa [rest] using head

/-- The rule for the end of the text. -/
theorem TokenizeAlike.done (room : c.n ≤ intopEvalMaxN) :
    TokenizeAlike c d [] (.ok c) (.ok d) := by
  have nothing (c : IntopEvalContext) : Tokenized c c [] :=
    ⟨rfl, trivial, fun _ _ => rfl, rfl, rfl, rfl⟩
  refine .inl ⟨[], c, d, .done, room, rfl, nothing c, rfl, nothing d, fun j le less => ?_⟩
  exact absurd (le.trans_lt less) (Nat.lt_irrefl _)

/-- A text is tokenized in the same way from any two contexts. -/
theorem tokenize_alike {steps : Nat} (string : 0 ∉ s) (enough : s.length ≤ steps)
    (same : d.n = c.n) (room : c.n ≤ intopEvalMaxN) (nVariables : Int) :
    TokenizeAlike c d s (intopTokenize (steps + 1) s nVariables c)
      (intopTokenize (steps + 1) s nVariables d) := by
  induction steps generalizing s c d nVariables with
  | zero =>
      cases List.eq_nil_of_length_eq_zero (Nat.le_zero.mp enough)
      exact .done room
  | succ steps ih =>
      cases s with
      | nil => exact .done room
      | cons a s =>
          have nonzero : a ≠ 0 := fun zero => string (zero ▸ List.mem_cons_self)
          have string' : 0 ∉ s := fun mem => string (List.mem_cons_of_mem a mem)
          have enough' : s.length ≤ steps := Nat.le_of_succ_le_succ enough
          by_cases full : c.n ≥ intopEvalMaxN
          · refine .inr ⟨"too many tokens", ?_, ?_⟩
            · rw [intopTokenize, peek_cons, if_neg nonzero, if_pos full]
            · rw [intopTokenize, peek_cons, if_neg nonzero, if_pos (same ▸ full)]
          have inside : c.n < intopEvalMaxN := Nat.not_le.mp full
          have inside' : d.n < intopEvalMaxN := same ▸ inside
          cases symbol : intopSymbol a with
          | some type =>
              obtain ⟨noNumber, noVariable, t, char, represents⟩ := intopSymbol_lexeme symbol
              rw [intopTokenize_symbol inside _ _ nonzero symbol,
                intopTokenize_symbol inside' _ _ nonzero symbol]
              apply TokenizeAlike.token t ({ · with type := type }) same inside represents
              · exact fun _ _ => ⟨rfl, fun h => absurd h noNumber, fun h => absurd h noVariable⟩
              · exact fun ts => .symbol char
              · apply ih string' enough'
                · exact congrArg (· + 1) same
                · exact inside
          | none =>
              by_cases white : a = 32 ∨ a = 9
              · rw [intopTokenize_blank inside _ _ white, intopTokenize_blank inside' _ _ white]
                exact (ih string' enough' same room nVariables).blank white
              by_cases isX : a = 120
              · subst isX
                rw [intopTokenize_x inside, intopTokenize_x inside']
                apply TokenizeAlike.token (.operand .x)
                  ({ · with type := .variable, varIndex := nVariables }) same inside
                · exact fun _ => rfl
                · exact fun _ _ => ⟨rfl, fun bad => (by cases bad), fun _ => rfl⟩
                · exact fun ts => .x
                · apply ih string' enough'
                  · exact congrArg (· + 1) same
                  · exact inside
              by_cases digit : isDigit a = true
              · obtain ⟨digits, rest, split, ends⟩ := exists_numeral digit s
                rw [split] at string enough ⊢
                by_cases range : digits.chars.length ≤ 30 ∧ digits.value < 2 ^ 64
                · have positive : 0 < digits.chars.length := List.length_pos_of_ne_nil digits.nonempty
                  rw [List.length_append] at enough
                  rw [intopTokenize_number inside _ _ digits range.1 range.2 ends,
                    intopTokenize_number inside' _ _ digits range.1 range.2 ends]
                  apply TokenizeAlike.token (.operand (.number (UInt64.ofNat digits.value)))
                    ({ · with type := .number, number := ⟨false, UInt64.ofNat digits.value⟩ })
                    same inside
                  · exact fun _ => ⟨rfl, rfl⟩
                  · exact fun _ _ => ⟨rfl, fun _ => rfl, fun bad => by cases bad⟩
                  · exact fun ts => .number digits range.1 range.2 ends
                  · apply ih (fun mem => string (List.mem_append_right _ mem)) (by omega)
                    · exact congrArg (· + 1) same
                    · exact inside
                · exact .inr ⟨_, intopTokenize_refuses inside _ _ digits ends range,
                    intopTokenize_refuses inside' _ _ digits ends range⟩
              · exact .inr ⟨_, intopTokenize_invalid inside _ _ nonzero symbol white isX digit,
                  intopTokenize_invalid inside' _ _ nonzero symbol white isX digit⟩

end Tokenizer

/-! ## Stored tokens determine their text -/

/-- The lexeme that a token is. -/
def lexemeOf (token : IntopEvalToken) : Option Lexeme :=
  match token.type with
  | .number => some (.operand (.number token.number.value))
  | .variable => some (.operand .x)
  | .add => some (.op .add)
  | .sub => some (.op .sub)
  | .mul => some (.op .mul)
  | .div => some (.op .div)
  | .lparen => some .lparen
  | .rparen => some .rparen
  | .unknown _ => none

theorem Represents.lexemeOf_eq {token : IntopEvalToken} {t : Lexeme}
    (represents : Represents token t) : lexemeOf token = some t := by
  unfold lexemeOf
  cases t with
  | operand a =>
      cases a with
      | number v => rw [represents.1, represents.2]
      | x =>
          have type : token.type = .variable := represents
          rw [type]
  | op o =>
      have type : token.type = o.type := represents
      rw [type]
      cases o <;> rfl
  | lparen =>
      have type : token.type = .lparen := represents
      rw [type]
  | rparen =>
      have type : token.type = .rparen := represents
      rw [type]

theorem represents_unique {token : IntopEvalToken} {t u : Lexeme} (isT : Represents token t)
    (isU : Represents token u) : t = u :=
  Option.some.inj (isT.lexemeOf_eq.symm.trans isU.lexemeOf_eq)

theorem tokensAt_unique {tokens : Nat → IntopEvalToken} {i : Nat} {ts us : List Lexeme}
    (isTs : TokensAt tokens i ts) (isUs : TokensAt tokens i us) (length : ts.length = us.length) :
    ts = us := by
  induction ts generalizing i us with
  | nil => exact (List.eq_nil_of_length_eq_zero length.symm).symm
  | cons t ts ih =>
      cases us with
      | nil => cases length
      | cons u us =>
          rw [represents_unique isTs.2.1 isUs.2.1, ih isTs.2.2 isUs.2.2 (Nat.succ.inj length)]

theorem TokensAt.written {tokens : Nat → IntopEvalToken} {i : Nat} {ts : List Lexeme}
    (isTs : TokensAt tokens i ts) : WrittenUpTo tokens i (i + ts.length) := by
  induction ts generalizing i with
  | nil => exact fun k le less => absurd (le.trans_lt less) (Nat.lt_irrefl _)
  | cons t ts ih =>
      intro k le less
      rw [List.length_cons] at less
      rcases Nat.eq_or_lt_of_le le with rfl | later
      · exact ⟨t, isTs.2.1⟩
      · exact ih isTs.2.2 k later (by omega)

/-- The number of tokens that a nonterminal derives is odd, and even for the rest of a chain. -/
theorem ArithTree.length_tokens {k : Nonterminal} (tree : ArithTree k) :
    tree.tokens.length % 2 = if k = .Em ∨ k = .Tm then 0 else 1 := by
  induction tree with
  | sum first rest ihFirst ihRest | product first rest ihFirst ihRest =>
      simp only [tokens, List.length_append] at ihFirst ihRest ⊢
      simp at ihFirst ihRest ⊢
      omega
  | sumEnd | productEnd => rfl
  | sumNext op kind first rest ihFirst ihRest | productNext op kind first rest ihFirst ihRest =>
      simp only [tokens, List.length_cons, List.length_append] at ihFirst ihRest ⊢
      simp at ihFirst ihRest ⊢
      omega
  | operand a => rfl
  | parens inner ih =>
      simp only [tokens, List.length_cons, List.length_append, List.length_nil] at ih ⊢
      simp at ih ⊢
      omega

/-! ## Runs of the compiler -/

/-- What the compiler sets before it begins. -/
abbrev IntopEvalContext.initialized (c : IntopEvalContext) : IntopEvalContext :=
  { c with i := 0, n := 0, sN := 0, eN := 0, sError := none, iError := 0 }

/-- A run of the compiler that succeeds: it has stored the tokens `ts` in `c₁`, and its descent
ends behind the last one of them in `c₂`. -/
structure Succeeds (s : List UInt8) (c : IntopEvalContext) (ts : List Lexeme)
    (c₁ c₂ : IntopEvalContext) : Prop where
  spells : Spells s ts
  room : ts.length ≤ intopEvalMaxN
  ran : intopTokenize (s.length + 1) s 0 c.initialized = .ok c₁
  tokenized : Tokenized c.initialized c₁ ts
  descends : Descends .E c₁ c₂
  noError : c₂.sError = none
  stops : c₂.i = ts.length

section Runs

variable {s : List UInt8} {c d c₁ c₂ d₁ d₂ : IntopEvalContext} {ts us : List Lexeme}

/-- The compiler refuses a text, or succeeds with the context of such a run. -/
theorem compile_ends (string : 0 ∉ s) (c : IntopEvalContext) :
    Refuses s c ∨ ∃ ts c₁ c₂, Succeeds s c ts c₁ c₂ ∧ Compiles s c c₂ := by
  rcases tokenize_alike (c := c.initialized) (d := c.initialized) string (Nat.le_refl _) rfl
    (Nat.zero_le _) 0 with
    ⟨ts, c₁, -, spells, room, ran, tokenized, -⟩ | ⟨message, failed, -⟩
  · have count : c₁.n = ts.length := tokenized.n.trans (Nat.zero_add _)
    by_cases none_ : c₁.n = 0
    · refine .inl ⟨"no tokens", 0, fun fuel _ => ?_⟩
      rw [intopEvalCompile, ran, ok_bind, if_pos none_]
    obtain ⟨c₂, descends⟩ := descends_total .E c₁
    obtain ⟨enough, returned⟩ := descends.returns
    have run : ∀ fuel ≥ enough, intopEvalE fuel c₁ = .ok c₂ := returned
    cases noError : c₂.sError with
    | some message =>
        refine .inl ⟨message, enough, fun fuel le => ?_⟩
        rw [intopEvalCompile, ran, ok_bind, if_neg none_, run fuel le, ok_bind, noError]
    | none =>
        have whole : ∀ fuel ≥ enough, intopEvalCompile fuel s c =
            if c₂.i ≠ c₂.n then fail "some parsing error" else pure c₂ := by
          intro fuel le
          rw [intopEvalCompile, ran, ok_bind, if_neg none_, run fuel le, ok_bind, noError]
        by_cases stops : c₂.i = c₂.n
        · refine .inr ⟨ts, c₁, c₂, ⟨spells, ?_, ran, tokenized, descends, noError, ?_⟩, enough,
            fun fuel le => ?_⟩
          · change 0 + ts.length ≤ _ at room
            omega
          · rw [stops, descends.advances.n, count]
          · change intopEvalCompile fuel s c = _
            rw [whole fuel le]
            exact if_neg (not_not.mpr stops)
        · refine .inl ⟨"some parsing error", enough, fun fuel le => ?_⟩
          rw [whole fuel le]
          exact if_pos stops
  · refine .inl ⟨message, 0, fun fuel _ => ?_⟩
    rw [intopEvalCompile, failed]
    rfl

theorem Refuses.not_compiles (refuses : Refuses s c) : ¬Compiles s c c₂ := by
  intro compiles
  obtain ⟨message, enough, refused⟩ := refuses
  exact compiles.not_stops ⟨enough, fun fuel le => ⟨_, refused fuel le⟩⟩

/-- A run that succeeds has read a text that the grammar accepts, and no operator stands behind
its tokens. -/
theorem Succeeds.accepted (succeeds : Succeeds s c ts c₁ c₂) :
    (∃ tree : ArithTree .E, tree.tokens = ts) ∧ ts.length < intopEvalMaxN ∧
      CleanAt c ts.length := by
  have start : c₁.i = 0 := succeeds.tokenized.i
  have stored : TokensAt c₁.tokens c₁.i ts := by
    rw [start]
    exact succeeds.tokenized.written
  have stops : c₂.i = c₁.i + ts.length := by rw [succeeds.stops, start, Nat.zero_add]
  have written : WrittenUpTo c₁.tokens c₁.i c₂.i := by
    rw [stops]
    exact stored.written
  obtain ⟨tree, length, stored'⟩ := succeeds.descends.tree succeeds.noError written
  have same : tree.tokens = ts := tokensAt_unique stored' stored (by omega)
  have odd : ts.length % 2 = 1 := by
    rw [← same, tree.length_tokens]
    rfl
  have few : ts.length < intopEvalMaxN := by
    have room := succeeds.room
    unfold intopEvalMaxN at room ⊢
    omega
  refine ⟨⟨tree, same⟩, few, fun op here => ?_⟩
  have ends : EndsAt c₁.tokens c₂.i .E := succeeds.descends.ends succeeds.noError
  have kept := succeeds.tokenized.kept ts.length (.inr (Nat.le_of_eq (Nat.zero_add _)))
  rw [succeeds.stops] at ends
  exact ends few op (kept ▸ here)

/-- Two runs that succeed leave the same program. -/
theorem Succeeds.sameProgram (string : 0 ∉ s) (succeeds : Succeeds s c ts c₁ c₂)
    (succeeds' : Succeeds s d us d₁ d₂) : SameProgram c₂ d₂ := by
  rcases tokenize_alike (c := c.initialized) (d := d.initialized) string (Nat.le_refl _) rfl
    (Nat.zero_le _) 0 with
    ⟨vs, c', d', spells, room, ran, tokenized, ran', tokenized', stored⟩ | ⟨message, failed, -⟩
  · cases succeeds.ran.symm.trans ran
    cases succeeds'.ran.symm.trans ran'
    have count : c₁.n = vs.length := tokenized.n.trans (Nat.zero_add _)
    have length : ts.length = vs.length := by
      rw [← count, succeeds.tokenized.n, Nat.zero_add]
    have length' : us.length = vs.length := by
      have count' : d₁.n = vs.length := tokenized'.n.trans (Nat.zero_add _)
      rw [← count', succeeds'.tokenized.n, Nat.zero_add]
    have empty {e : IntopEvalContext} (nothing : e.sN = 0) : e.program = [] := by
      rw [IntopEvalContext.program, nothing]
      rfl
    have twins : Twins vs.length c₁ d₁ := by
      refine ⟨tokenized'.i.trans tokenized.i.symm, fun j less => ?_, ?_⟩
      · exact stored j (Nat.zero_le _) (less.trans_eq (Nat.zero_add _).symm)
      · rw [SameProgram, empty tokenized.sN, empty tokenized'.sN]
        exact .nil
    have stops : c₂.i ≤ vs.length := by rw [succeeds.stops, length]
    have stops' : d₂.i ≤ vs.length := by rw [succeeds'.stops, length']
    exact (succeeds.descends.twins succeeds.noError stops succeeds'.descends succeeds'.noError
      stops' twins).program
  · cases succeeds.ran.symm.trans failed

/-- From a context that compiles an accepted text, no operator stands behind its tokens. -/
theorem Compiles.clean (string : 0 ∉ s) (compiles : Compiles s c c₂) {tree : ArithTree .E}
    (spells : Spells s tree.tokens) (few : tree.tokens.length < intopEvalMaxN) :
    CleanAt c tree.tokens.length := by
  rcases compile_ends string c with refuses | ⟨ts, c₁, c₂, succeeds, -⟩
  · exact absurd compiles refuses.not_compiles
  obtain ⟨-, -, clean⟩ := succeeds.accepted
  have room : c.initialized.n + tree.tokens.length < intopEvalMaxN := by
    change 0 + _ < _
    omega
  obtain ⟨c', ran, tokenized⟩ := tokenize_spells spells room (Nat.le_refl _) 0
  cases succeeds.ran.symm.trans ran
  have length : ts.length = tree.tokens.length := by
    have first := succeeds.tokenized.n
    have second := tokenized.n
    omega
  rw [← length]
  exact clean

/-- A text that compiles is accepted. -/
theorem accepted_of_compiles (string : 0 ∉ s) (compiles : Compiles s c c₂) : Accepted s := by
  rcases compile_ends string c with refuses | ⟨ts, c₁, c₂, succeeds, -⟩
  · exact absurd compiles refuses.not_compiles
  · obtain ⟨⟨tree, rfl⟩, few, -⟩ := succeeds.accepted
    exact ⟨tree, succeeds.spells, few⟩

theorem refuses_of_not_accepted (string : 0 ∉ s) (unaccepted : ¬Accepted s)
    (c : IntopEvalContext) : Refuses s c := by
  rcases compile_ends string c with refuses | ⟨ts, c₁, c₂, succeeds, compiles⟩
  · exact refuses
  · exact absurd (accepted_of_compiles string compiles) unaccepted

end Runs

/-! ## Stale tokens -/

/-- Compilation does what it is to do in two contexts exactly where neither holds an operator
behind the tokens of the text, if the text is accepted. -/
theorem compileMeets_iff {s : List UInt8} (string : 0 ∉ s) (c d : IntopEvalContext) :
    CompileMeets s c d ↔
      ∀ tree : ArithTree .E, Spells s tree.tokens → tree.tokens.length < intopEvalMaxN →
        CleanAt c tree.tokens.length ∧ CleanAt d tree.tokens.length := by
  constructor
  · intro meets tree spells few
    rcases meets with ⟨-, c', d', compiles, compiles', -⟩ | ⟨unaccepted, -⟩
    · exact ⟨compiles.clean string spells few, compiles'.clean string spells few⟩
    · exact absurd ⟨tree, spells, few⟩ unaccepted
  · intro clean
    by_cases accepted : Accepted s
    · obtain ⟨tree, spells, few⟩ := accepted
      obtain ⟨cleanC, cleanD⟩ := clean tree spells few
      obtain ⟨c', compiles, -⟩ := compile_spells spells few cleanC
      obtain ⟨d', compiles', -⟩ := compile_spells spells few cleanD
      refine .inl ⟨⟨tree, spells, few⟩, c', d', compiles, compiles', ?_⟩
      rcases compile_ends string c with refuses | ⟨ts, c₁, c₂, succeeds, same⟩
      · exact absurd compiles refuses.not_compiles
      rcases compile_ends string d with refuses | ⟨us, d₁, d₂, succeeds', same'⟩
      · exact absurd compiles' refuses.not_compiles
      cases compiles.unique same
      cases compiles'.unique same'
      exact succeeds.sameProgram string succeeds'
    · exact .inr ⟨accepted, refuses_of_not_accepted string accepted c,
        refuses_of_not_accepted string accepted d⟩

/-- The context that `1+2` leaves. -/
def onePlusTwoContext : IntopEvalContext :=
  ((intopEvalCompile 20 [49, 43, 50] zeroContext).toOption).getD zeroContext

/-- The context that `1+2` leaves, beside one that is zero. -/
theorem compileMeets_iff_onePlusTwo : CompileMeets [49] onePlusTwoContext zeroContext ↔
    ∀ tree : ArithTree .E, Spells [49] tree.tokens → tree.tokens.length < intopEvalMaxN →
      CleanAt onePlusTwoContext tree.tokens.length ∧ CleanAt zeroContext tree.tokens.length :=
  compileMeets_iff (by decide) onePlusTwoContext zeroContext

/-- In the context that `1+2` leaves, `1` is refused. -/
theorem compileMeets_stale :
    ∃ c, Compiles [49, 43, 50] zeroContext c ∧ ¬CompileMeets [49] c zeroContext := by
  have compiled : ∀ more,
      intopEvalCompile (more + 20) [49, 43, 50] zeroContext = .ok onePlusTwoContext := by
    intro more
    rfl
  have refused : ∀ more,
      intopEvalCompile (more + 20) [49] onePlusTwoContext = fail "some parsing error" := by
    intro more
    rfl
  have enough : ∀ fuel ≥ 20, ∃ more, fuel = more + 20 := fun fuel le => ⟨fuel - 20, by omega⟩
  refine ⟨onePlusTwoContext, ⟨20, fun fuel le => ?_⟩, fun meets => ?_⟩
  · obtain ⟨more, rfl⟩ := enough fuel le
    exact compiled more
  have refuses : Refuses [49] onePlusTwoContext := by
    refine ⟨"some parsing error", 20, fun fuel le => ?_⟩
    obtain ⟨more, rfl⟩ := enough fuel le
    exact refused more
  rcases meets with ⟨-, c', d', compiles, -⟩ | ⟨unaccepted, -⟩
  · exact refuses.not_compiles compiles
  · apply unaccepted
    refine ⟨.sum (.product (.operand (.number 1)) .productEnd) .sumEnd, ?_, by decide⟩
    exact .number (.single 49 rfl) (by decide) (by decide) rfl .done

end Pointless
