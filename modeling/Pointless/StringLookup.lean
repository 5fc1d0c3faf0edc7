import Pointless.NativeLookup

/-!
# Text keys

The lookups by a string, by a counted string and by a UCS4 string. A stored key is the
characters before its terminator; which keys a lookup can see is decided by the hash it
asks for.
-/

namespace Pointless

open ByteMemory Deciding ExceptRules Lexicographic

/-! ## Counted strings -/

theorem stringHashLoopN_append (x : UInt32) (len : Nat) (s rest : List UInt32) :
    stringHashLoopN x len s.length (s ++ rest) =
      .ok (s.foldl (fun (x : UInt32) c => (1000003 * x) ^^^ c) x ^^^
        UInt32.ofNat (len + s.length)) := by
  induction s generalizing x len with
  | nil => rfl
  | cons c s ih =>
      rw [List.length_cons, List.cons_append, stringHashLoopN, ih, List.foldl_cons]
      simp only [Nat.add_assoc, Nat.add_comm 1]

/-- A counted string that is not empty has the hash of its characters. -/
theorem stringHash32N_append {s : List UInt32} (nonempty : s ≠ []) (rest : List UInt32) :
    stringHash32N (s ++ rest) s.length = .ok (textHash s) := by
  cases s with
  | nil => exact absurd rfl nonempty
  | cons c s =>
      change stringHashLoopN (c <<< 7) 0 (c :: s).length (c :: s ++ rest) = _
      rw [stringHashLoopN_append, Nat.zero_add]
      rfl

/-- The hash of the empty counted string is that of the character behind it, shifted. -/
theorem stringHash32N_empty (rest : List UInt32) :
    stringHash32N rest 0 =
      match rest with
      | [] => fault .outOfBounds
      | c :: _ => .ok (c <<< 7) := by
  cases rest with
  | nil => rfl
  | cons c rest =>
      change Except.ok ((c <<< 7) ^^^ UInt32.ofNat 0) = _
      simp

theorem cmpStringN_cons (x : UInt32) (a b : List UInt32) (n : Nat) :
    cmpStringN (x :: a) b n =
      if x = 0 then .ok (if n = 0 then 0 else -1)
      else
        match n, b with
        | 0, _ => .ok 1
        | _ + 1, [] => fault .outOfBounds
        | n + 1, c :: b => if x = c then cmpStringN a b n else .ok (simpleCmp x c) := by
  cases n <;> cases b <;> rfl

/-- A counted string is compared as its characters. -/
theorem cmpStringN_append {a as s : List UInt32} (text : beforeTerminator a = some as)
    (nonzero : ∀ c ∈ s, c ≠ 0) (rest : List UInt32) :
    cmpStringN a (s ++ rest) s.length = .ok (lex simpleCmp as s) := by
  induction a generalizing as s with
  | nil => cases text
  | cons x a ih =>
      rw [cmpStringN_cons]
      rcases beforeTerminator_cons text with ⟨rfl, rfl⟩ | ⟨positive, tail, text', rfl⟩
      · rw [if_pos rfl]
        cases s with
        | nil => rfl
        | cons c s => rfl
      · rw [if_neg positive]
        cases s with
        | nil => rfl
        | cons c s =>
            rw [List.forall_mem_cons] at nonzero
            change (if x = c then cmpStringN a (s ++ rest) s.length else .ok (simpleCmp x c)) = _
            by_cases same : x = c
            · rw [if_pos same, ih text' nonzero.2, lex_cons_same (simpleCmp_eq_zero.mpr same)]
            · rw [if_neg same, lex_cons_ne (mt simpleCmp_eq_zero.mp same)]

theorem beforeTerminator_append {s : List UInt32} (nonzero : ∀ c ∈ s, c ≠ 0)
    (rest : List UInt32) : beforeTerminator (s ++ 0 :: rest) = some s := by
  induction s with
  | nil => rfl
  | cons c s ih =>
      rw [List.forall_mem_cons] at nonzero
      rw [List.cons_append, beforeTerminator, if_neg nonzero.1, ih nonzero.2]
      rfl

theorem chars8_append (s rest : List UInt8) : chars8 (s ++ rest) = chars8 s ++ chars8 rest :=
  List.map_append

theorem chars8_nonzero {s : List UInt8} (nonzero : ∀ b ∈ s, b ≠ 0) : ∀ c ∈ chars8 s, c ≠ 0 := by
  intro c mem
  obtain ⟨b, inside, rfl⟩ := List.mem_map.mp mem
  intro zero
  apply nonzero b inside
  have value : b.toNat = 0 := by
    rw [← UInt8.toNat_toUInt32, zero]
    rfl
  exact UInt8.toNat_inj.mp value

/-! ## The lookup of a text -/

/-- A value of a file that is a string or unicode of these characters. -/
def KeyText (p : OpenFile) (v : Value) (chars : List UInt32) : Prop :=
  (v.type = .unicode ∨ v.type = .string) ∧ readText p v = .ok chars

theorem KeyText.occupied {p : OpenFile} {v : Value} {chars : List UInt32}
    (text : KeyText p v chars) : v.type ≠ .emptySlot := by
  rcases text.1 with type | type <;> rw [type] <;> exact ValueType.noConfusion

/-- The hash of a text. -/
theorem KeyText.hash {p : OpenFile} {v : Value} {chars : List UInt32} (text : KeyText p v chars)
    (fuel : Nat) : hashReader32 p (fuel + 1) v = .ok (textHash chars) := by
  obtain ⟨type, read⟩ := text
  obtain ⟨m, value, before⟩ := readText_ok read
  obtain ⟨t, data⟩ := v
  rcases type with type | type
  · obtain rfl : t = .unicode := type
    rw [hashReader32]
    change (do
      let s ← readerStringUnicodeValue p ⟨.unicode, data⟩
      hashUnicodeUcs4V132 s) = _
    rw [value]
    exact stringHash32_eq before
  · obtain rfl : t = .string := type
    rw [hashReader32]
    change (do
      let s ← readerStringUnicodeValue p ⟨.string, data⟩
      hashStringV132 s) = _
    rw [value]
    exact stringHash32_eq before

/-- Two keys of one text compare as equal. -/
theorem KeyText.keyEquals {p : OpenFile} {v w : Value} {chars : List UInt32}
    (text : KeyText p v chars) (other : KeyText p w chars) : keyEquals p v w = .ok true := by
  obtain ⟨type, read⟩ := text
  obtain ⟨type', read'⟩ := other
  obtain ⟨m, value, before⟩ := readText_ok read
  obtain ⟨m', value', before'⟩ := readText_ok read'
  apply keyEquals_eq_ok.mpr
  refine ⟨0, ?_, rfl⟩
  have compared : cmpReader p v.toComplete p w.toComplete =
      cmpStringUnicode v.type w.type (readerStringUnicodeValue p v.toComplete.toValue)
        (readerStringUnicodeValue p w.toComplete.toValue) := by
    obtain ⟨t, data⟩ := v
    obtain ⟨t', data'⟩ := w
    rcases type with type | type
    · obtain rfl : t = .unicode := type
      rcases type' with type' | type'
      · obtain rfl : t' = .unicode := type'
        rfl
      · obtain rfl : t' = .string := type'
        rfl
    · obtain rfl : t = .string := type
      rcases type' with type' | type'
      · obtain rfl : t' = .unicode := type'
        rfl
      · obtain rfl : t' = .string := type'
        rfl
  rw [compared, Value.toValue_toComplete, Value.toValue_toComplete, value, value',
    cmpStringUnicode, if_pos ⟨type, type'⟩]
  change cmpString _ _ = _
  rw [cmpString_eq before before', lex_simpleCmp_eq_zero.mpr rfl]

/-- The test of a stored key by its characters. -/
theorem checkChars_answers {p : OpenFile} {v : Value}
    (readable : v.type = .unicode ∨ v.type = .string → ∃ as, readText p v = .ok as)
    {cmp : List UInt32 → Res Int} {chars : List UInt32}
    (compares : ∀ m as, beforeTerminator m = some as → cmp m = .ok (lex simpleCmp as chars)) :
    Answers (checkChars p cmp v) (KeyText p v chars) := by
  rw [checkChars]
  split
  case isTrue type =>
    obtain ⟨as, read⟩ := readable type
    obtain ⟨m, value, before⟩ := readText_ok read
    refine ⟨decide (lex simpleCmp as chars = 0), ?_, ?_⟩
    · rw [value, ok_bind, compares _ as before]
      rfl
    · rw [decide_eq_true_iff, lex_simpleCmp_eq_zero]
      constructor
      · intro same
        exact ⟨type, same ▸ read⟩
      · intro text
        exact Except.ok.inj (read.symm.trans text.2)
  case isFalse other =>
    exact ⟨false, rfl, fun no => Bool.noConfusion no, fun text => absurd text.1 other⟩

/-- Some bucket has a STRING or UNICODE key of these characters. -/
def HasText (p : OpenFile) (nBuckets : UInt32) (key : Nat → Value) (chars : List UInt32) : Prop :=
  ∃ b < nBuckets.toNat, KeyText p (key b) chars

section Accepted

variable {fuel : Nat} {buf : List UInt8} {p : OpenFile} {error : Option String} {t : Value}
  {nBuckets : UInt32} {hash : Nat → UInt32} {key : Nat → Value}
  (opened : openB fuel buf = .ok (p, error)) (reach : Reachable p t)
  (buckets : BucketsOf p t nBuckets hash key)
include opened reach buckets

theorem BucketsOf.hash_keyText {b : Nat} (less : b < nBuckets.toNat) {chars : List UInt32}
    (text : KeyText p (key b) chars) : hash b = textHash chars := by
  have hashed := (BucketsOf.hashed opened reach buckets less).2
  cases fuel with
  | zero => cases hashed
  | succ fuel =>
      rw [text.hash] at hashed
      exact (Except.ok.inj hashed).symm

/-- A text is the key of one bucket at most. -/
theorem BucketsOf.single_text {chars : List UInt32} : ∀ b < nBuckets.toNat, ∀ b' < nBuckets.toNat,
    KeyText p (key b) chars → KeyText p (key b') chars → b = b' := by
  intro b less b' less' text text'
  have hashes := (BucketsOf.hash_keyText opened reach buckets less text).trans
    (BucketsOf.hash_keyText opened reach buckets less' text').symm
  exact BucketsOf.unique opened reach buckets less less' text.occupied text'.occupied hashes
    (text.keyEquals text') (text'.keyEquals text)

/-- A search for a text under the hash `h` finds it if that is the hash of the text. -/
theorem BucketsOf.findsText (type : t.type = .mapValueValue) (h : UInt32)
    {cmp : List UInt32 → Res Int} {chars : List UInt32}
    (compares : ∀ m as, beforeTerminator m = some as → cmp m = .ok (lex simpleCmp as chars)) :
    ∃ out, EventuallyReturns (fun fuel => getMap p fuel t h (checkChars p cmp) getValue) out ∧
      FindsValue p t nBuckets (fun b => KeyText p (key b) chars ∧ textHash chars = h) out := by
  have answers : ∀ b < nBuckets.toNat, (key b).type ≠ .emptySlot → hash b = h →
      Answers (checkChars p cmp (key b)) (KeyText p (key b) chars) := by
    intro b less _ _
    obtain ⟨table, -, -, read⟩ := id buckets
    exact checkChars_answers ((openB_sound opened).readText (read.buckets.reach b less)) compares
  obtain ⟨out, returns, finds⟩ := getMap_finds opened reach buckets type h (checkChars p cmp)
    (KeyText p · chars) answers
  refine ⟨out, returns, (FindsValue.congr fun b less => ?_).mp finds⟩
  constructor
  · intro wanted
    obtain ⟨-, own, text⟩ := wanted
    exact ⟨text, (BucketsOf.hash_keyText opened reach buckets less text).symm.trans own⟩
  · intro both
    obtain ⟨text, own⟩ := both
    exact ⟨text.occupied, (BucketsOf.hash_keyText opened reach buckets less text).trans own, text⟩

/-- A search for a text under its hash. -/
theorem BucketsOf.findsText_own (type : t.type = .mapValueValue) {cmp : List UInt32 → Res Int}
    {chars : List UInt32}
    (compares : ∀ m as, beforeTerminator m = some as → cmp m = .ok (lex simpleCmp as chars)) :
    ∃ out, EventuallyReturns
        (fun fuel => getMap p fuel t (textHash chars) (checkChars p cmp) getValue) out ∧
      FindsValue p t nBuckets (fun b => KeyText p (key b) chars) out := by
  obtain ⟨out, returns, finds⟩ :=
    BucketsOf.findsText opened reach buckets type (textHash chars) compares
  refine ⟨out, returns, (FindsValue.congr fun b _ => ?_).mp finds⟩
  exact and_iff_left rfl

/-- The lookup by a string finds its characters. -/
theorem BucketsOf.findsString (type : t.type = .mapValueValue) {bytes : List UInt8}
    {chars : List UInt32} (text : beforeTerminator (chars8 bytes) = some chars) :
    ∃ out, EventuallyReturns (fun fuel => getMappingStringToValue p fuel t bytes) out ∧
      FindsValue p t nBuckets (fun b => KeyText p (key b) chars) out := by
  obtain ⟨out, ⟨enough, returned⟩, finds⟩ :=
    @BucketsOf.findsText_own _ _ _ _ _ _ _ _ opened reach buckets type
      (fun s => cmpString s (chars8 bytes)) chars fun m as before => cmpString_eq before text
  refine ⟨out, ⟨enough, fun more le => ?_⟩, finds⟩
  change getMappingStringToValue p more t bytes = _
  rw [getMappingStringToValue, hashStringV132, stringHash32_eq text, ok_bind]
  exact returned more le

end Accepted

/-! ## Lookups by a UCS4 string -/

theorem beforeTerminator_isSome {m : List UInt32} :
    (∃ chars, beforeTerminator m = some chars) ↔ 0 ∈ m := by
  induction m with
  | nil => exact ⟨fun ⟨chars, no⟩ => (by cases no), fun no => absurd no List.not_mem_nil⟩
  | cons c rest ih =>
      rw [beforeTerminator, List.mem_cons, ← ih]
      by_cases zero : c = 0
      · rw [if_pos zero]
        exact ⟨fun _ => Or.inl zero.symm, fun _ => ⟨[], rfl⟩⟩
      · rw [if_neg zero]
        constructor
        · intro has
          obtain ⟨chars, text⟩ := has
          obtain ⟨tail, before, -⟩ := Option.map_eq_some_iff.mp text
          exact Or.inr ⟨tail, before⟩
        · intro has
          rcases has with here | ⟨tail, before⟩
          · exact absurd here.symm zero
          · exact ⟨c :: tail, by rw [before]; rfl⟩

/-- A UCS4 string that is terminated has a zero byte. -/
theorem chars8_of_chars32 {m : List UInt8} {chars : List UInt32}
    (text : beforeTerminator (chars32 m) = some chars) :
    ∃ bytes, beforeTerminator (chars8 m) = some bytes := by
  have zero : 0 ∈ chars32 m := beforeTerminator_isSome.mp ⟨chars, text⟩
  apply beforeTerminator_isSome.mpr
  clear text
  induction m using chars32.induct with
  | case1 b0 b1 b2 b3 rest ih =>
      rw [chars32, List.mem_cons] at zero
      rcases zero with here | later
      · have bounds : b0.toNat < 256 ∧ b1.toNat < 256 ∧ b2.toNat < 256 ∧ b3.toNat < 256 :=
          ⟨b0.toNat_lt, b1.toNat_lt, b2.toNat_lt, b3.toNat_lt⟩
        have value := ofNat_eq_zero (by simp only [decode]; omega) here.symm
        have first : b0.toUInt32 = 0 := by
          apply UInt32.toNat_inj.mp
          rw [UInt8.toNat_toUInt32]
          simp only [decode] at value
          change b0.toNat = 0
          omega
        rw [chars8, List.map_cons, first]
        exact List.mem_cons_self
      · change 0 ∈ b0.toUInt32 :: b1.toUInt32 :: b2.toUInt32 :: b3.toUInt32 :: chars8 rest
        simp [ih later]
  | case2 m short =>
      rw [chars32] at zero
      · cases zero
      · exact short

/-- The lookup by a UCS4 string finds its characters, and agrees with the lookup by the byte
string of the same characters. -/
structure UnicodeLookup (p : OpenFile) (t : Value) (nBuckets : UInt32) (key : Nat → Value)
    (memory : List UInt8) (chars : List UInt32) : Prop where
  finds : ∃ out, EventuallyReturns (fun fuel => getMappingUnicodeToValue p fuel t memory) out ∧
    FindsValue p t nBuckets (fun b => KeyText p (key b) chars) out
  agrees : ∀ bytes, beforeTerminator (chars8 bytes) = some chars →
    ∃ out, EventuallyReturns (fun fuel => getMappingUnicodeToValue p fuel t memory) out ∧
      EventuallyReturns (fun fuel => getMappingStringToValue p fuel t bytes) out

section Unicode

variable {fuel : Nat} {buf : List UInt8} {p : OpenFile} {error : Option String} {t : Value}
  {nBuckets : UInt32} {hash : Nat → UInt32} {key : Nat → Value}
  (opened : openB fuel buf = .ok (p, error)) (reach : Reachable p t)
  (buckets : BucketsOf p t nBuckets hash key)
include opened reach buckets

/-- What the lookup by a UCS4 string finds: the text, under the hash of its bytes. -/
theorem BucketsOf.findsUnicode (type : t.type = .mapValueValue) {memory : List UInt8}
    {chars : List UInt32} (text : beforeTerminator (chars32 memory) = some chars) :
    ∃ h, hashStringV132 memory = .ok h ∧
      ∃ out, EventuallyReturns (fun fuel => getMappingUnicodeToValue p fuel t memory) out ∧
        FindsValue p t nBuckets (fun b => KeyText p (key b) chars ∧ textHash chars = h) out := by
  obtain ⟨bytes, before⟩ := chars8_of_chars32 text
  have hashed : hashStringV132 memory = .ok (textHash bytes) := stringHash32_eq before
  obtain ⟨out, ⟨enough, returned⟩, finds⟩ :=
    @BucketsOf.findsText _ _ _ _ _ _ _ _ opened reach buckets type (textHash bytes)
      (fun s => cmpString s (chars32 memory)) chars fun m as before => cmpString_eq before text
  refine ⟨_, hashed, out, ⟨enough, fun more le => ?_⟩, finds⟩
  change getMappingUnicodeToValue p more t memory = _
  rw [getMappingUnicodeToValue, hashed, ok_bind]
  exact returned more le

/-- The lookup by a UCS4 string is right exactly when the text is not stored, or its bytes up
to the first zero have the hash of its characters. -/
theorem unicodeLookup_iff (type : t.type = .mapValueValue) {memory : List UInt8}
    {chars : List UInt32} (text : beforeTerminator (chars32 memory) = some chars) :
    UnicodeLookup p t nBuckets key memory chars ↔
      ¬HasText p nBuckets key chars ∨ hashStringV132 memory = hashUnicodeUcs4V132 memory := by
  obtain ⟨h, hashed, out, returns, finds⟩ := BucketsOf.findsUnicode opened reach buckets type text
  have ucs4 : hashUnicodeUcs4V132 memory = .ok (textHash chars) := stringHash32_eq text
  rw [hashed, ucs4, Except.ok.injEq]
  constructor
  · intro right
    by_cases stored : HasText p nBuckets key chars
    · obtain ⟨out', returns', finds'⟩ := right.finds
      obtain rfl := returns.unique returns'
      obtain ⟨b, less, -, same⟩ := finds.isSome_iff.mp (finds'.isSome_iff.mpr stored)
      exact Or.inr same.symm
    · exact Or.inl stored
  · intro plain
    have finds' : FindsValue p t nBuckets (fun b => KeyText p (key b) chars) out := by
      refine (FindsValue.congr fun b less => ?_).mp finds
      constructor
      · exact fun both => both.1
      · intro stored
        rcases plain with missing | same
        · exact absurd ⟨b, less, stored⟩ missing
        · exact ⟨stored, same.symm⟩
    refine ⟨⟨out, returns, finds'⟩, fun bytes before => ⟨out, returns, ?_⟩⟩
    obtain ⟨out', returns', found⟩ := BucketsOf.findsString opened reach buckets type before
    rwa [FindsValue.unique (BucketsOf.single_text opened reach buckets) finds' found]

end Unicode

/-! ## A text that is not found -/

/-- The UCS4 string "ab". -/
def ab32 : List UInt8 := bytesU32 97 ++ bytesU32 98 ++ bytesU32 0

theorem unicodeLookup_iff_ab : ∃ nBuckets hash key,
    BucketsOf abMapOpened ⟨.mapValueValue, 0⟩ nBuckets hash key ∧
      (UnicodeLookup abMapOpened ⟨.mapValueValue, 0⟩ nBuckets key ab32 [97, 98] ↔
        ¬HasText abMapOpened nBuckets key [97, 98] ∨
          hashStringV132 ab32 = hashUnicodeUcs4V132 ab32) := by
  obtain ⟨nBuckets, hash, key, buckets⟩ :=
    exists_bucketsOf openB_abMapFile (.root _) (Or.inr rfl)
  exact ⟨nBuckets, hash, key, buckets,
    unicodeLookup_iff openB_abMapFile (.root _) buckets rfl (by decide +kernel)⟩

/-- The map has the string "ab", and the lookup by the UCS4 string "ab" fails. -/
theorem ab_not_found : openB 20 abMapFile = .ok (abMapOpened, none) ∧
    beforeTerminator (chars32 ab32) = some [97, 98] ∧
    ∃ nBuckets hash key, BucketsOf abMapOpened ⟨.mapValueValue, 0⟩ nBuckets hash key ∧
      HasText abMapOpened nBuckets key [97, 98] ∧
      getMappingUnicodeToValue abMapOpened 20 ⟨.mapValueValue, 0⟩ ab32 = .ok none ∧
      ¬UnicodeLookup abMapOpened ⟨.mapValueValue, 0⟩ nBuckets key ab32 [97, 98] := by
  obtain ⟨nBuckets, hash, key, buckets⟩ :=
    exists_bucketsOf openB_abMapFile (.root _) (Or.inr rfl)
  have lookup : ∀ more,
      getMappingUnicodeToValue abMapOpened (more + 1) ⟨.mapValueValue, 0⟩ ab32 = .ok none := by
    intro more
    rfl
  have stored : HasText abMapOpened nBuckets key [97, 98] := by
    obtain ⟨table, at_t, even, read⟩ := buckets
    have at_t' : TableAt abMapOpened ⟨.mapValueValue, 0⟩
        ⟨⟨.vectorU32, 0⟩, ⟨.vectorValueHashable, 1⟩, some ⟨.vectorValue, 2⟩, 1⟩ :=
      .map rfl rfl rfl rfl rfl
    cases at_t.unique at_t'
    have count : readerVectorNItems abMapOpened ⟨.vectorValueHashable, 1⟩ = .ok 2 := rfl
    cases even.2.1.symm.trans count
    have here : readerVectorValue abMapOpened ⟨.vectorValueHashable, 1⟩ 1 =
        .ok ⟨.string, 0⟩ := rfl
    have same : key 1 = ⟨.string, 0⟩ :=
      Except.ok.inj ((read.buckets.keyAt 1 (by decide)).symm.trans here)
    refine ⟨1, by decide, ?_⟩
    rw [same]
    exact ⟨Or.inr rfl, rfl⟩
  refine ⟨openB_abMapFile, by decide +kernel, nBuckets, hash, key, buckets, stored, lookup 19,
    fun right => ?_⟩
  obtain ⟨out, ⟨enough, returned⟩, finds⟩ := right.finds
  have missed := (returned (enough + 1) (Nat.le_succ enough)).symm.trans (lookup enough)
  cases missed
  cases finds.isSome_iff.mpr stored

/-! ## Lookups by a counted string -/

/-- No byte behind the counted string `s` has an influence on a hash, a comparison or a lookup. -/
structure IgnoresBehind (s rest rest' : List UInt8) : Prop where
  hash : hashStringV132N (s ++ rest) s.length = hashStringV132N (s ++ rest') s.length
  cmp8 : ∀ a, cmpString88N a (s ++ rest) s.length = cmpString88N a (s ++ rest') s.length
  cmp32 : ∀ a, cmpString328N a (s ++ rest) s.length = cmpString328N a (s ++ rest') s.length
  lookup : ∀ p fuel t, getMappingStringNToValue p fuel t (s ++ rest) s.length =
    getMappingStringNToValue p fuel t (s ++ rest') s.length

/-- Whatever is behind it in its buffer, the counted string `s` is hashed, compared and looked
up as its zero-terminated copy. -/
structure CountedAgrees (s : List UInt8) : Prop where
  hash : ∀ rest, hashStringV132N (s ++ rest) s.length = hashStringV132 (s ++ [0])
  cmp8 : ∀ rest a as, beforeTerminator (chars8 a) = some as →
    cmpString88N a (s ++ rest) s.length = cmpString (chars8 a) (chars8 (s ++ [0]))
  cmp32 : ∀ rest a as, beforeTerminator (chars32 a) = some as →
    cmpString328N a (s ++ rest) s.length = cmpString (chars32 a) (chars8 (s ++ [0]))
  behind : ∀ rest rest', IgnoresBehind s rest rest'
  lookup : ∀ rest fuel buf p error t, openB fuel buf = .ok (p, error) → Reachable p t →
    t.type = .mapValueValue → ∃ out,
      EventuallyReturns (fun fuel => getMappingStringNToValue p fuel t (s ++ rest) s.length) out ∧
      EventuallyReturns (fun fuel => getMappingStringToValue p fuel t (s ++ [0])) out

/-- The counted comparison looks at no character behind the counted ones. -/
theorem cmpStringN_behind (a s rest rest' : List UInt32) :
    cmpStringN a (s ++ rest) s.length = cmpStringN a (s ++ rest') s.length := by
  induction a generalizing s with
  | nil => rfl
  | cons x a ih =>
      rw [cmpStringN_cons, cmpStringN_cons]
      cases s with
      | nil => rfl
      | cons c s =>
          change (if x = 0 then _ else if x = c then cmpStringN a (s ++ rest) s.length
            else .ok (simpleCmp x c)) = _
          rw [ih s]
          rfl

theorem cmpStringN_chars8_behind (a : List UInt32) (s rest rest' : List UInt8) :
    cmpStringN a (chars8 (s ++ rest)) s.length = cmpStringN a (chars8 (s ++ rest')) s.length := by
  have length : s.length = (chars8 s).length := (List.length_map _).symm
  rw [chars8_append, chars8_append, length]
  exact cmpStringN_behind a (chars8 s) (chars8 rest) (chars8 rest')

theorem checkStringN_behind (p : OpenFile) (s rest rest' : List UInt8) :
    checkStringN p (s ++ rest) s.length = checkStringN p (s ++ rest') s.length :=
  congrArg (checkChars p) (funext fun m => cmpStringN_chars8_behind m s rest rest')

/-- Only the hash of a counted string may look behind it. -/
theorem ignoresBehind_of_hash {s rest rest' : List UInt8}
    (hash : hashStringV132N (s ++ rest) s.length = hashStringV132N (s ++ rest') s.length) :
    IgnoresBehind s rest rest' where
  hash := hash
  cmp8 a := cmpStringN_chars8_behind (chars8 a) s rest rest'
  cmp32 a := cmpStringN_chars8_behind (chars32 a) s rest rest'
  lookup p fuel t := by
    rw [getMappingStringNToValue, getMappingStringNToValue, hash, checkStringN_behind p s rest rest']

section Counted

variable {s : List UInt8} (nonzero : ∀ b ∈ s, b ≠ 0) (rest : List UInt8)
include nonzero

theorem beforeTerminator_copy : beforeTerminator (chars8 (s ++ [0])) = some (chars8 s) := by
  rw [chars8_append]
  exact beforeTerminator_append (chars8_nonzero nonzero) []

/-- The comparison stops before the end of the counted string. -/
theorem cmpStringN_counted {a as : List UInt32} (text : beforeTerminator a = some as) :
    cmpStringN a (chars8 (s ++ rest)) s.length = .ok (lex simpleCmp as (chars8 s)) := by
  have length : s.length = (chars8 s).length := (List.length_map _).symm
  rw [chars8_append, length]
  exact cmpStringN_append text (chars8_nonzero nonzero) (chars8 rest)

/-- The hash of a counted string is that of its copy, where there is a character to begin with. -/
theorem hashStringV132N_counted (nonempty : s ≠ []) :
    hashStringV132N (s ++ rest) s.length = hashStringV132 (s ++ [0]) := by
  have copy : hashStringV132 (s ++ [0]) = .ok (textHash (chars8 s)) :=
    stringHash32_eq (beforeTerminator_copy nonzero)
  have length : s.length = (chars8 s).length := (List.length_map _).symm
  have characters : chars8 s ≠ [] := fun no => nonempty (List.map_eq_nil_iff.mp no)
  rw [copy, hashStringV132N, chars8_append, length, stringHash32N_append characters]

omit rest in
/-- A counted string without zero bytes is treated as its copy exactly when it is not empty. -/
theorem countedAgrees_iff : CountedAgrees s ↔ s ≠ [] := by
  have copy := beforeTerminator_copy nonzero
  constructor
  · rintro agrees rfl
    -- the hash of nothing is taken from the byte behind it
    have read : hashStringV132N ([] ++ [1]) 0 = .ok 128 := rfl
    have hashed := (agrees.hash [1]).symm.trans read
    cases hashed
  · intro nonempty
    have hashed := fun rest => hashStringV132N_counted nonzero rest nonempty
    refine ⟨hashed, fun rest a as text => ?_, fun rest a as text => ?_, fun rest rest' => ?_, ?_⟩
    · rw [cmpString88N, cmpStringN_counted nonzero rest text, cmpString_eq text copy]
    · rw [cmpString328N, cmpStringN_counted nonzero rest text, cmpString_eq text copy]
    · exact ignoresBehind_of_hash ((hashed rest).trans (hashed rest').symm)
    · intro rest fuel buf p error t opened reach type
      obtain ⟨nBuckets, hash, key, buckets⟩ := exists_bucketsOf opened reach (Or.inr type)
      obtain ⟨out, returns, found⟩ := BucketsOf.findsString opened reach buckets type copy
      obtain ⟨out', ⟨enough, returned⟩, found'⟩ :=
        @BucketsOf.findsText_own _ _ _ _ _ _ _ _ opened reach buckets type
          (fun m => cmpStringN m (chars8 (s ++ rest)) s.length) _
          fun m as before => cmpStringN_counted nonzero rest before
      obtain rfl := FindsValue.unique (BucketsOf.single_text opened reach buckets) found found'
      refine ⟨out, ⟨enough, fun more le => ?_⟩, returns⟩
      change getMappingStringNToValue p more t (s ++ rest) s.length = _
      rw [getMappingStringNToValue, hashed, hashStringV132, stringHash32_eq copy, ok_bind]
      exact returned more le

end Counted

theorem countedAgrees_iff_ab :
    (∀ b ∈ ([97, 98] : List UInt8), b ≠ 0) ∧
      (CountedAgrees [97, 98] ↔ ([97, 98] : List UInt8) ≠ []) :=
  ⟨by simp, countedAgrees_iff (by simp)⟩

/-- The byte behind an empty counted string is its hash. -/
theorem emptyCounted_not_agrees : hashStringV132N ([] ++ [1]) 0 = .ok 128 ∧
    hashStringV132N ([] ++ [0]) 0 = .ok 0 ∧ hashStringV132 ([] ++ [0]) = .ok 0 ∧
    ¬IgnoresBehind [] [1] [0] ∧ ¬CountedAgrees [] := by
  have reads : ¬IgnoresBehind [] [1] [0] := by
    intro ignores
    have same : hashStringV132N ([] ++ [1]) 0 = hashStringV132N ([] ++ [0]) 0 := ignores.hash
    cases same
  exact ⟨rfl, rfl, rfl, reads, fun agrees => reads (agrees.behind [1] [0])⟩

end Pointless
