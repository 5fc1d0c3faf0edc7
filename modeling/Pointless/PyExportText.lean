import Mathlib.Data.List.TakeWhile
import Pointless.CreateShape
import Pointless.PyExport

/-!
# Strings that are written

A string that has no zero in it gets a handle for its characters, as a string where its
kind is one byte, or where strings are to be unwidened and all its characters fit a byte,
and as a unicode otherwise; a string with a zero is refused. The length that is stored with
the characters has 32 bits: `textMeets_iff` says what this comes to.
-/

namespace Pointless

open ByteMemory ExceptRules

/-! ## What a string is to become -/

/-- The type that a string is to be stored with. -/
def storedKind (unwidenStrings : Bool) (s : PyUnicode) : ValueType :=
  match s with
  | .oneByte _ => .string
  | s => if unwidenStrings = true ∧ ∀ x ∈ s.chars, x ≤ 255 then .string else .unicode

/-- The text of a buffer: as many characters as its length says. -/
def textOf (type : ValueType) (buffer : List UInt8) : List Nat :=
  wordsAt (charWidth type) 4 (decode (buffer.take 4)) buffer

/-- The handle is that of a value of the type, whose buffer has this text. -/
def StandsForText (c : Create) (handle : UInt32) (type : ValueType) (chars : List Nat) : Prop :=
  ∃ v buffer, c.values[handle.toNat]? = some v ∧ v.type = type ∧
    c.stringUnicodeValues[v.data.toNat]? = some buffer ∧ textOf type buffer = chars

/-- The state of an export, where `objects` are the strings in memory: the create-time state
is one that calls have led to, and what was met before has a handle that denotes it. -/
structure ExportState.Known (objects : Nat → Option PyUnicode) (state : ExportState) : Prop where
  reachable : CreateReachable state.c
  seen : ∀ pyObject s handle, objects pyObject = some s →
    state.objectsUsed.lookup pyObject = some handle → handle ≠ createValueFail ∧
      Denotes state.c handle (.text (storedKind state.unwidenStrings s) s.chars)

/-- There is a handle for the string: it was met before, or has its text in the file, or the
values have not used up the handles. -/
def HandleLeft (state : ExportState) (pyObject : Nat) (s : PyUnicode) : Prop :=
  (state.objectsUsed.lookup pyObject).isSome ∨
    (state.c.stringUnicodeMapJudy.lookup
      (textBuffer (storedKind state.unwidenStrings s) s.chars)).isSome ∨
    state.c.values.length + 1 < 2 ^ 32

/-- What the export of a string is to do: it returns, with a handle for exactly the characters
of the string, which has no zero; or with an exception, where the string has a zero, lies
too deep, or no handle is left. -/
def TextMeets (state : ExportState) (pyObject : Nat) (s : PyUnicode) (depth : Nat) : Prop :=
  ∃ outcome state', exportPyString state pyObject s depth = .ok (outcome, state') ∧
    match outcome with
    | .ok handle =>
        0 ∉ s.chars ∧ StandsForText state'.c handle (storedKind state.unwidenStrings s) s.chars
    | .error _ => 0 ∈ s.chars ∨ maxDepth ≤ depth ∨ ¬HandleLeft state pyObject s

/-! ## Scans -/

theorem charsOf_terminated (xs : List Nat) : charsOf (xs ++ [0]) = charsOf xs := by
  induction xs with
  | nil => rfl
  | cons x xs ih =>
      unfold charsOf at ih ⊢
      rw [List.cons_append, List.takeWhile_cons, List.takeWhile_cons, ih]

/-- The characters before the first zero are all where there is none. -/
theorem charsOf_eq_self_iff (xs : List Nat) : charsOf xs = xs ↔ 0 ∉ xs := by
  rw [charsOf, List.takeWhile_eq_self_iff]
  constructor
  · intro nonzero mem
    simpa using nonzero 0 mem
  · intro absent x mem
    simp only [ne_eq, decide_not, Bool.not_eq_true', decide_eq_false_iff_not]
    intro zero
    exact absent (zero ▸ mem)

theorem length_charsOf_iff (xs : List Nat) : xs.length = (charsOf xs).length ↔ 0 ∉ xs := by
  rw [← charsOf_eq_self_iff]
  constructor
  · intro same
    exact (List.takeWhile_prefix _).eq_of_length same.symm
  · intro same
    rw [same]

/-- The length of a terminated string, whatever its characters are. -/
theorem length_charsBeforeZero {α : Type} [DecidableEq α] [Zero α] {f : α → Nat}
    (zero : ∀ x, f x ≠ 0 ↔ x ≠ 0) (data : List α) :
    List.length <$> charsBeforeZero (data ++ [0]) = .ok (charsOf (data.map f)).length := by
  have isZero : f 0 = 0 := by
    by_contra nonzero
    exact (zero 0).mp nonzero rfl
  have chars := charsOf_map zero (v := data ++ [0])
  rw [List.map_append, List.map_singleton, isZero, charsOf_terminated] at chars
  rw [charsBeforeZero_eq (List.mem_append_right _ List.mem_cons_self), map_ok, chars,
    List.length_map]

theorem pointlessLen_eq (s : PyUnicode) : pointlessLen s = .ok (charsOf s.chars).length := by
  cases s with
  | oneByte data => exact length_charsBeforeZero u8_toNat_ne_zero data
  | twoByte data => exact length_charsBeforeZero u16_toNat_ne_zero data
  | fourByte data => exact length_charsBeforeZero u32_toNat_ne_zero data

/-- The scan of a terminated string finds whether every character is in the range. -/
theorem belowRange_terminated (max : Nat) {xs : List Nat} (nonzero : 0 ∉ xs) :
    belowRange max (xs ++ [0]) = .ok (decide (∀ x ∈ xs, x ≤ max)) := by
  induction xs with
  | nil =>
      rw [List.nil_append, belowRange, if_neg (by simp)]
      simp
  | cons x xs ih =>
      have here : x ≠ 0 := fun zero => nonzero (zero ▸ List.mem_cons_self)
      rw [List.cons_append, belowRange]
      by_cases small : x ≤ max
      · rw [if_pos ⟨here, small⟩, ih fun mem => nonzero (List.mem_cons_of_mem x mem)]
        simp [small]
      · rw [if_neg fun both => small both.2]
        simp [small, here]

/-! ## The call that creates the text -/

theorem unwidens_eq (state : ExportState) {xs : List Nat} (nonzero : 0 ∉ xs) :
    unwidens state (belowRange 255 (xs ++ [0])) =
      .ok (decide (state.unwidenStrings = true ∧ ∀ x ∈ xs, x ≤ 255)) := by
  rw [unwidens, belowRange_terminated 255 nonzero]
  cases state.unwidenStrings <;> simp

/-- The content that a call for a terminated string creates. -/
theorem charsOf_terminated_map {α : Type} (f : α → Nat) {z : α} (isZero : f z = 0)
    {data : List α} (nonzero : 0 ∉ data.map f) :
    charsOf ((data ++ [z]).map f) = data.map f := by
  rw [List.map_append, List.map_singleton, isZero, charsOf_terminated]
  exact (charsOf_eq_self_iff _).mpr nonzero

/-- A string without a zero is created by one call, for its characters. -/
theorem exportUnicodeHandle_call (state : ExportState) {s : PyUnicode} (nonzero : 0 ∉ s.chars) :
    ∃ call : Call, call.Valid state.c ∧ call.Narrow ∧
      call.created = some (.text (storedKind state.unwidenStrings s) s.chars) ∧
      exportUnicodeHandle state s = call.run state.c := by
  have scan := unwidens_eq state nonzero
  cases s with
  | oneByte data =>
      refine ⟨.stringAscii (data ++ [0]), List.mem_append_right _ List.mem_cons_self, trivial, ?_,
        rfl⟩
      have chars : charsOf ((data ++ [0]).map UInt8.toNat) = data.map UInt8.toNat :=
        charsOf_terminated_map UInt8.toNat rfl nonzero
      change some (Content.text .string (charsOf ((data ++ [0]).map UInt8.toNat))) = _
      rw [chars]
      rfl
  | twoByte data =>
      have chars : charsOf ((data ++ [0]).map UInt16.toNat) = data.map UInt16.toNat :=
        charsOf_terminated_map UInt16.toNat rfl nonzero
      have terminated : (0 : UInt16) ∈ data ++ [0] := List.mem_append_right _ List.mem_cons_self
      have same : (PyUnicode.twoByte data).chars ++ [0] = (data ++ [0]).map UInt16.toNat := by
        rw [List.map_append]
        rfl
      rw [same] at scan
      have kind : storedKind state.unwidenStrings (.twoByte data) =
          if state.unwidenStrings = true ∧ ∀ x ∈ (PyUnicode.twoByte data).chars, x ≤ 255
          then .string else .unicode := rfl
      rw [exportUnicodeHandle, isUcs2Ascii, scan, ok_bind, kind]
      by_cases small : state.unwidenStrings = true ∧
          ∀ x ∈ (PyUnicode.twoByte data).chars, x ≤ 255
      · refine ⟨.stringUcs2 (data ++ [0]), terminated, ?_, ?_, ?_⟩
        · intro x mem
          rw [chars] at mem
          exact Nat.lt_succ_of_le (small.2 x mem)
        · change some (Content.text .string (charsOf ((data ++ [0]).map UInt16.toNat))) = _
          rw [chars, if_pos small]
          rfl
        · rw [if_pos (decide_eq_true small)]
          rfl
      · refine ⟨.unicodeUcs2 (data ++ [0]), terminated, trivial, ?_, ?_⟩
        · change some (Content.text .unicode (charsOf ((data ++ [0]).map UInt16.toNat))) = _
          rw [chars, if_neg small]
          rfl
        · rw [if_neg fun narrow => small (of_decide_eq_true narrow)]
          rfl
  | fourByte data =>
      have chars : charsOf ((data ++ [0]).map UInt32.toNat) = data.map UInt32.toNat :=
        charsOf_terminated_map UInt32.toNat rfl nonzero
      have terminated : (0 : UInt32) ∈ data ++ [0] := List.mem_append_right _ List.mem_cons_self
      have same : (PyUnicode.fourByte data).chars ++ [0] = (data ++ [0]).map UInt32.toNat := by
        rw [List.map_append]
        rfl
      rw [same] at scan
      have kind : storedKind state.unwidenStrings (.fourByte data) =
          if state.unwidenStrings = true ∧ ∀ x ∈ (PyUnicode.fourByte data).chars, x ≤ 255
          then .string else .unicode := rfl
      rw [exportUnicodeHandle, isUcs4Ascii, scan, ok_bind, kind]
      by_cases small : state.unwidenStrings = true ∧
          ∀ x ∈ (PyUnicode.fourByte data).chars, x ≤ 255
      · refine ⟨.stringUcs4 (data ++ [0]), terminated, ?_, ?_, ?_⟩
        · intro x mem
          rw [chars] at mem
          exact Nat.lt_succ_of_le (small.2 x mem)
        · change some (Content.text .string (charsOf ((data ++ [0]).map UInt32.toNat))) = _
          rw [chars, if_pos small]
          rfl
        · rw [if_pos (decide_eq_true small)]
          rfl
      · refine ⟨.unicodeUcs4 (data ++ [0]), terminated, trivial, ?_, ?_⟩
        · change some (Content.text .unicode (charsOf ((data ++ [0]).map UInt32.toNat))) = _
          rw [chars, if_neg small]
          rfl
        · rw [if_neg fun narrow => small (of_decide_eq_true narrow)]
          rfl

/-! ## One export -/

section Export

variable {objects : Nat → Option PyUnicode} {state : ExportState} {s : PyUnicode}

/-- A string with a zero is refused, and nothing is created. -/
theorem exportUnicode_zero (zero : 0 ∈ s.chars) : exportUnicode state s =
    .ok (.error "unicode string contains a zero, where it shouldn't", state.c) := by
  have short : s.chars.length ≠ (charsOf s.chars).length := fun same =>
    (length_charsOf_iff _).mp same zero
  rw [exportUnicode, pointlessLen_eq, ok_bind]
  simp only [if_pos short]
  rfl

/-- A string without a zero is created by a valid call. -/
theorem exportUnicode_call (state : ExportState) (nonzero : 0 ∉ s.chars) :
    ∃ call : Call, call.Valid state.c ∧ call.Narrow ∧
      call.created = some (.text (storedKind state.unwidenStrings s) s.chars) ∧
      exportUnicode state s = call.run state.c >>= fun out => .ok (.ok out.1, out.2) := by
  obtain ⟨call, valid, narrow, created, calls⟩ := exportUnicodeHandle_call state nonzero
  refine ⟨call, valid, narrow, created, ?_⟩
  have whole : ¬s.chars.length ≠ (charsOf s.chars).length :=
    not_not.mpr ((length_charsOf_iff _).mpr nonzero)
  rw [exportUnicode, pointlessLen_eq, ok_bind]
  simp only [if_neg whole, calls]
  rfl

/-- A call for a text answers a handle where it is interned, or where one is left. -/
theorem createStringUnicode_fails_iff (reachable : CreateReachable state.c) (type : ValueType)
    (chars : List Nat) :
    (createStringUnicode state.c type (textBuffer type chars)).1 = createValueFail ↔
      ¬((state.c.stringUnicodeMapJudy.lookup (textBuffer type chars)).isSome ∨
        state.c.values.length + 1 < 2 ^ 32) := by
  obtain ⟨wf, shaped⟩ := reachable.shaped
  have room := shaped.room
  have last : createValueFail.toNat = 2 ^ 32 - 1 := rfl
  cases looked : state.c.stringUnicodeMapJudy.lookup (textBuffer type chars) with
  | some handle =>
      obtain ⟨v, at_h, -⟩ := wf.texts.found _ handle looked
      have inside := (List.getElem?_eq_some_iff.mp at_h).1
      rw [createStringUnicode, looked]
      refine iff_of_false ?_ (not_not.mpr (.inl rfl))
      intro failed
      change handle = createValueFail at failed
      rw [failed, last] at inside
      omega
  | none =>
      have size : (UInt32.ofNat state.c.values.length).toNat = state.c.values.length :=
        toNat_handle room
      rw [createStringUnicode, looked]
      change UInt32.ofNat state.c.values.length = createValueFail ↔ _
      rw [← UInt32.toNat_inj, size, last]
      simp only [Option.isSome_none, Bool.false_eq_true, false_or]
      omega

/-- A handle for one more string. -/
theorem ExportState.Known.setSeen (known : state.Known objects) {pyObject : Nat}
    (here : objects pyObject = some s) {c : Create} {handle : UInt32}
    (reachable : CreateReachable c) (grown : Extends state.c c) (some_ : handle ≠ createValueFail)
    (denotes : Denotes c handle (.text (storedKind state.unwidenStrings s) s.chars)) :
    (exportSetSeen { state with c := c } pyObject handle).Known objects where
  reachable := reachable
  seen := by
    intro pyObject' s' handle' there looked
    simp only [exportSetSeen, List.lookup_cons] at looked
    split at looked
    case h_1 same =>
      cases looked
      cases beq_iff_eq.mp same
      cases here.symm.trans there
      exact ⟨some_, denotes⟩
    case h_2 =>
      obtain ⟨some_', denotes'⟩ := known.seen pyObject' s' handle' there looked
      exact ⟨some_', denotes'.mono grown⟩

/-- What the export of a string does: it gives the handle that the string got before, creates
one that denotes it, or raises for one of three reasons. -/
theorem exportPyString_cases (known : state.Known objects) {pyObject : Nat}
    (here : objects pyObject = some s) (depth : Nat) :
    (∃ handle state', exportPyString state pyObject s depth = .ok (.ok handle, state') ∧
        handle ≠ createValueFail ∧ 0 ∉ s.chars ∧ ¬maxDepth ≤ depth ∧ HandleLeft state pyObject s ∧
        state'.Known objects ∧
        Denotes state'.c handle (.text (storedKind state.unwidenStrings s) s.chars)) ∨
      ∃ message state', exportPyString state pyObject s depth = .ok (.error message, state') ∧
        (0 ∈ s.chars ∨ maxDepth ≤ depth ∨ ¬HandleLeft state pyObject s) := by
  unfold exportPyString exportTracked
  by_cases deep : maxDepth ≤ depth
  · rw [if_pos deep]
    exact .inr ⟨_, _, rfl, .inr (.inl deep)⟩
  rw [if_neg deep]
  cases looked : state.objectsUsed.lookup pyObject with
  | some handle =>
      obtain ⟨some_, denotes⟩ := known.seen pyObject s handle here looked
      have seen : exportGetSeen state pyObject = handle := by
        rw [exportGetSeen, looked]
        rfl
      have nonzero : 0 ∉ s.chars := fun zero =>
        ((lookup_of_text known.reachable.shaped.1 denotes).1.2 0 zero).1 rfl
      rw [seen, if_pos some_]
      exact .inl ⟨handle, state, rfl, some_, nonzero, deep, .inl (by rw [looked]; rfl), known,
        denotes⟩
  | none =>
      have unseen : exportGetSeen state pyObject = createValueFail := by
        rw [exportGetSeen, looked]
        rfl
      rw [unseen, if_neg (not_not.mpr rfl)]
      by_cases zero : 0 ∈ s.chars
      · rw [exportUnicode_zero zero]
        exact .inr ⟨_, _, rfl, .inl zero⟩
      obtain ⟨call, valid, narrow, created, calls⟩ := exportUnicode_call state zero
      obtain ⟨isText, ran⟩ := run_text valid narrow created
      obtain ⟨wf, shaped⟩ := known.reachable.shaped
      have creates := creates_text wf isText fun _ => shaped.room
      have fails := createStringUnicode_fails_iff known.reachable
        (storedKind state.unwidenStrings s) s.chars
      rw [calls, ran]
      generalize createStringUnicode state.c _ _ = result at ran creates fails
      obtain ⟨handle, c⟩ := result
      simp only [ok_bind]
      by_cases failed : handle = createValueFail
      · rw [if_pos failed]
        refine .inr ⟨"", _, rfl, .inr (.inr ?_)⟩
        intro left
        rcases left with seen | rest
        · rw [looked] at seen
          cases seen
        · exact fails.mp failed rest
      · rw [if_neg failed]
        have reachable : CreateReachable c := .call known.reachable valid ran failed
        exact .inl ⟨handle, _, rfl, failed, zero, deep,
          .inr (not_not.mp fun none_ => failed (fails.mpr none_)),
          known.setSeen here reachable creates.grown failed (creates.denotes failed),
          creates.denotes failed⟩

end Export

/-! ## The length that is stored -/

/-- The length at the front of a buffer. -/
theorem length_textBuffer_word (type : ValueType) (chars : List Nat) :
    decode ((textBuffer type chars).take 4) = chars.length % 2 ^ 32 := by
  rw [textBuffer, stringUnicodeBuffer, bytesU32, List.take_left' (length_encode 4 _),
    decode_encode, UInt32.toNat_ofNat']
  exact Nat.mod_eq_of_lt (Nat.mod_lt _ (Nat.two_pow_pos 32))

/-- A text is read back from its buffer where its length fits the word in front of it. -/
theorem textOf_textBuffer_iff {type : ValueType} {chars : List Nat}
    (isText : IsText type chars) :
    textOf type (textBuffer type chars) = chars ↔ chars.length < 2 ^ 32 := by
  rw [textOf, length_textBuffer_word]
  constructor
  · intro same
    have length := congrArg List.length same
    rw [length_wordsAt] at length
    have bounded := Nat.mod_lt chars.length (Nat.two_pow_pos 32)
    omega
  · intro short
    have wide : 0 < charWidth type := by
      unfold charWidth
      split
      · exact Nat.succ_pos 3
      · exact Nat.one_pos
    have front : (bytesU32 (UInt32.ofNat chars.length)).length = 4 := length_encode 4 _
    have read : wordsAt (charWidth type) (bytesU32 (UInt32.ofNat chars.length)).length
        chars.length (bytesU32 (UInt32.ofNat chars.length) ++
          (chars.map (encode (charWidth type))).flatten ++ encode (charWidth type) 0) = chars :=
      wordsAt_encoded wide fun x mem => (isText.2 x mem).2
    rw [front] at read
    rw [Nat.mod_eq_of_lt short, textBuffer, stringUnicodeBuffer, List.map_append,
      List.flatten_append, ← List.append_assoc, List.map_singleton, List.flatten_singleton]
    exact read

/-- What denotes a text stands for it where the length fits. -/
theorem standsForText_iff {c : Create} {handle : UInt32} {type : ValueType} {chars : List Nat}
    (denotes : Denotes c handle (.text type chars)) :
    StandsForText c handle type chars ↔ chars.length < 2 ^ 32 := by
  obtain ⟨v, at_h, -, type_v, isText, item⟩ := denotes
  rw [← textOf_textBuffer_iff isText]
  constructor
  · intro stands
    obtain ⟨v', buffer, at_h', -, item', text⟩ := stands
    cases at_h.symm.trans at_h'
    cases item.symm.trans item'
    exact text
  · intro text
    exact ⟨v, _, at_h, type_v, item, text⟩

/-! ## The round trip -/

/-- The export of a string does what it is to do exactly where the length of the string fits
32 bits, or where it raises: at a zero, too deep, or where no handle is left. -/
theorem textMeets_iff {objects : Nat → Option PyUnicode} {state : ExportState}
    (known : state.Known objects) {pyObject : Nat} {s : PyUnicode}
    (here : objects pyObject = some s) (depth : Nat) :
    TextMeets state pyObject s depth ↔
      s.chars.length < 2 ^ 32 ∨ 0 ∈ s.chars ∨ maxDepth ≤ depth ∨
        ¬HandleLeft state pyObject s := by
  rcases exportPyString_cases known here depth with
    ⟨handle, state', ran, -, nonzero, shallow, left, -, denotes⟩ | ⟨message, state', ran, reason⟩
  · have stands := standsForText_iff denotes
    constructor
    · intro meets
      obtain ⟨outcome, after, ran', right⟩ := meets
      cases ran.symm.trans ran'
      exact .inl (stands.mp right.2)
    · intro reasons
      rcases reasons with short | zero | deep | full
      · exact ⟨.ok handle, state', ran, nonzero, stands.mpr short⟩
      · exact absurd zero nonzero
      · exact absurd deep shallow
      · exact absurd left full
  · exact iff_of_true ⟨.error message, state', ran, reason⟩ (.inr reason)

/-- At the start of an export, nothing was met. -/
theorem known_begin (objects : Nat → Option PyUnicode) (unwidenStrings normalizeBitvector : Bool) :
    ExportState.Known objects
      ⟨createBegin64, false, [], unwidenStrings, normalizeBitvector⟩ where
  reachable := .begin64
  seen := by
    intro pyObject s handle there looked
    cases looked

/-- The first string of an export, of two characters in words of two bytes. -/
theorem textMeets_begin :
    TextMeets ⟨createBegin64, false, [], true, true⟩ 1 (.twoByte [255, 256]) 0 ↔
      (PyUnicode.twoByte [255, 256]).chars.length < 2 ^ 32 ∨
        0 ∈ (PyUnicode.twoByte [255, 256]).chars ∨ maxDepth ≤ 0 ∨
        ¬HandleLeft ⟨createBegin64, false, [], true, true⟩ 1 (.twoByte [255, 256]) :=
  textMeets_iff (known_begin (fun _ => some (.twoByte [255, 256])) true true) rfl 0

/-- A string of `2 ^ 32` characters gets a handle, for no text at all. -/
theorem textMeets_long : ¬∀ (objects : Nat → Option PyUnicode) (state : ExportState),
    state.Known objects → ∀ pyObject s, objects pyObject = some s → ∀ depth,
      TextMeets state pyObject s depth := by
  intro all
  let s : PyUnicode := .oneByte (List.replicate (2 ^ 32) 97)
  have chars : s.chars = List.replicate (2 ^ 32) 97 := List.map_replicate
  have known := known_begin (fun _ => some s) true true
  obtain ⟨outcome, after, ran, right⟩ := all _ _ known 1 s rfl 0
  have here : (fun _ : Nat => some s) 1 = some s := rfl
  rcases exportPyString_cases known here 0 with
    ⟨handle, state', ran', -, -, -, -, -, denotes⟩ | ⟨message, state', ran', reason⟩
  · cases ran'.symm.trans ran
    have short := (standsForText_iff denotes).mp right.2
    rw [chars, List.length_replicate] at short
    exact Nat.lt_irrefl _ short
  · rcases reason with zero | deep | full
    · rw [chars] at zero
      cases List.eq_of_mem_replicate zero
    · cases deep
    · exact full (.inr (.inr (by decide)))

end Pointless
