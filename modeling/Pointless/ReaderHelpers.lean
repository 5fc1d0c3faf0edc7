import Pointless.ReaderTables

/-!
# Lookups by a native key

`pointless_reader_helpers.c`, and what it uses of `pointless_hash.c` and
`pointless_cmp.c`: a native integer or string, or an acyclic value of the file, is
hashed, and the keys of its hash are tested one after the other. A string key is the memory
from its pointer on.
-/

namespace Pointless

/-! ## Strings with a count -/

/-- The loop of `PYTHON_STRING_HASH_32_`, which has `n` characters left. -/
def stringHashLoopN (x : UInt32) (len : Nat) : Nat → List UInt32 → Res UInt32
  | 0, _ => .ok (x ^^^ UInt32.ofNat len)
  | _ + 1, [] => fault .outOfBounds
  | n + 1, c :: rest => stringHashLoopN ((1000003 * x) ^^^ c) (len + 1) n rest

/-- `PYTHON_STRING_HASH_32_`. The first character is read whatever the count is. -/
def stringHash32N (s : List UInt32) (n : Nat) : Res UInt32 :=
  match s with
  | [] => fault .outOfBounds
  | c :: _ => stringHashLoopN (c <<< 7) 0 n s

/-- `pointless_hash_string_v1_32_`. -/
def hashStringV132N (s : List UInt8) (n : Nat) : Res UInt32 := stringHash32N (chars8 s) n

/-- `POINTLESS_CMP_STRING__N`, with `n` characters of the second string left. -/
def cmpStringN : List UInt32 → List UInt32 → Nat → Res Int
  | [], _, _ => fault .outOfBounds
  | a :: as, b, n =>
      if a = 0 then .ok (if n = 0 then 0 else -1)
      else
        match n, b with
        | 0, _ => .ok 1
        | _ + 1, [] => fault .outOfBounds
        | n + 1, b :: bs => if a = b then cmpStringN as bs n else .ok (simpleCmp a b)

/-- `pointless_cmp_string_8_8_n`. -/
def cmpString88N (a b : List UInt8) (n : Nat) : Res Int := cmpStringN (chars8 a) (chars8 b) n

/-- `pointless_cmp_string_32_8_n`. -/
def cmpString328N (a b : List UInt8) (n : Nat) : Res Int := cmpStringN (chars32 a) (chars8 b) n

/-! ## Integers -/

/-- `pointless_is_integer_type`. -/
def isIntegerType : ValueType → Bool
  | .i32 | .u32 | .i64 | .u64 => true
  | _ => false

/-- `pointless_get_int_as_int64`, which asserts one of the two 32-bit types. -/
def getIntAsInt64 (t : ValueType) (data : UInt32) : Int :=
  if t = .i32 then dataI32 data else data.toNat

section Lookups

variable (p : OpenFile)

/-! ## Tests of a key -/

/-- What `check_string`, `check_string_n` and `check_unicode` do at a key, with the
comparison of its characters. -/
def checkChars (cmp : List UInt32 → Res Int) (v : Value) : Res Bool :=
  if v.type = .unicode ∨ v.type = .string then do
    let s ← readerStringUnicodeValue p v
    let c ← cmp (stringChars v.type s)
    pure (c = 0)
  else pure false

/-- `check_string`. -/
def checkString (key : List UInt8) : Value → Res Bool :=
  checkChars p fun s => cmpString s (chars8 key)

/-- `check_string_n`. -/
def checkStringN (key : List UInt8) (n : Nat) : Value → Res Bool :=
  checkChars p fun s => cmpStringN s (chars8 key) n

/-- `check_unicode`. -/
def checkUnicode (key : List UInt8) : Value → Res Bool :=
  checkChars p fun s => cmpString s (chars32 key)

/-- `check_i64`. -/
def checkI64 (i : Int) (v : Value) : Res Bool :=
  pure (isIntegerType v.type ∧ i = getIntAsInt64 v.type v.data)

/-- `get_value`: every value is taken. -/
def getValue (v : Value) : Res (Option Value) := pure (some v)

/-! ## The loops over the keys of a hash -/

/-- `while (next(..)) if (test(..)) return 1;`, with at most `calls` calls of `next`. -/
def iterFind {α σ β : Type} (next : σ → Res (Option (α × σ))) (test : α → Res (Option β)) :
    Nat → σ → Res (Option β)
  | 0, _ => fault .diverges
  | calls + 1, s => do
      let entry ← next s
      match entry with
      | none => pure none
      | some (entry, s) => do
          let found ← test entry
          match found with
          | some b => pure (some b)
          | none => iterFind next test calls s

/-- A call of `pointless_reader_set_iter_hash`: the key, and the state after it. -/
def setNext (fuel : Nat) (s : Value) (hash : UInt32) (state : HashIterState) :
    Res (Option (Value × HashIterState)) :=
  (·.map fun (_, kk, state) => (kk, state)) <$> readerSetIterHash p fuel s hash state

/-- A call of `pointless_reader_map_iter_hash`: the key, the value and the state. -/
def mapNext (fuel : Nat) (m : Value) (hash : UInt32) (state : HashIterState) :
    Res (Option ((Value × Value) × HashIterState)) :=
  (·.map fun (_, kk, vv, state) => ((kk, vv), state)) <$> readerMapIterHash p fuel m hash state

/-- `pointless_get_map_`: what the callback for the value leaves in `*out`. -/
def getMap {α : Type} (fuel : Nat) (map : Value) (hash : UInt32) (cbK : Value → Res Bool)
    (cbV : Value → Res (Option α)) : Res (Option α) := do
  let state ← readerMapIterHashInit p map hash
  iterFind (mapNext p fuel map hash) (fun (kk, vv) => do
      let checked ← cbK kk
      if checked then cbV vv else pure none)
    fuel state

/-- `pointless_get_set_`. -/
def getSet (fuel : Nat) (set : Value) (hash : UInt32) (cbK : Value → Res Bool) : Res Bool := do
  let state ← readerSetIterHashInit p set hash
  let found ← iterFind (setNext p fuel set hash) (fun kk => do
      let checked ← cbK kk
      if checked then pure (some ()) else pure none)
    fuel state
  pure found.isSome

/-! ## Lookups -/

/-- `pointless_get_mapping_string_to_value`. -/
def getMappingStringToValue (fuel : Nat) (map : Value) (key : List UInt8) :
    Res (Option Value) := do
  let hash ← hashStringV132 key
  getMap p fuel map hash (checkString p key) getValue

/-- `pointless_get_mapping_string_n_to_value`. -/
def getMappingStringNToValue (fuel : Nat) (map : Value) (key : List UInt8) (n : Nat) :
    Res (Option Value) := do
  let hash ← hashStringV132N key n
  getMap p fuel map hash (checkStringN p key n) getValue

/-- `pointless_get_mapping_unicode_to_value`, which hashes the bytes of the key. -/
def getMappingUnicodeToValue (fuel : Nat) (map : Value) (key : List UInt8) :
    Res (Option Value) := do
  let hash ← hashStringV132 key
  getMap p fuel map hash (checkUnicode p key) getValue

/-- `pointless_get_mapping_int_to_value`. -/
def getMappingIntToValue (fuel : Nat) (map : Value) (i : Int) : Res (Option Value) :=
  getMap p fuel map (hashI6432 i) (checkI64 i) getValue

/-- `pointless_is_int_in_set`. -/
def isIntInSet (fuel : Nat) (set : Value) (i : Int) : Res Bool :=
  getSet p fuel set (hashI6432 i) (checkI64 i)

/-- `pointless_is_int_in_map`. -/
def isIntInMap (fuel : Nat) (map : Value) (i : Int) : Res Bool :=
  Option.isSome <$> getMap p fuel map (hashI6432 i) (checkI64 i) getValue

/-! ## Acyclic keys -/

/-- `pointless_cmp_reader_acyclic`: the comparison without an `error` pointer. -/
def cmpReaderAcyclic (fuel : Nat) (pA : OpenFile) (a : CompleteValue) (pB : OpenFile)
    (b : CompleteValue) : Res Int :=
  cmpReaderRec false pA pB fuel a b 0

/-- The test that the loops of `pointless_is_in_set_acyclic` and
`pointless_is_in_map_acyclic` apply to a key. -/
def checkAcyclic (fuel : Nat) (k kk : Value) : Res Bool := do
  let c ← cmpReaderAcyclic fuel p kk.toComplete p k.toComplete
  pure (c = 0)

/-- `pointless_is_in_set_acyclic`, whose loop is that of `pointless_get_set_`. -/
def isInSetAcyclic (fuel : Nat) (s k : Value) : Res Bool := do
  let hash ← hashReader32 p fuel k
  getSet p fuel s hash (checkAcyclic p fuel k)

/-- `pointless_is_in_map_acyclic`, whose loop is that of `pointless_get_map_`. -/
def isInMapAcyclic (fuel : Nat) (m k : Value) : Res Bool := do
  let hash ← hashReader32 p fuel k
  Option.isSome <$> getMap p fuel m hash (checkAcyclic p fuel k) getValue

/-- `while (next(..)) if (!test(..)) return 0;`, with at most `calls` calls of `next`. -/
def iterAll {α σ : Type} (next : σ → Res (Option (α × σ))) (test : α → Res Bool) :
    Nat → σ → Res Bool
  | 0, _ => fault .diverges
  | calls + 1, s => do
      let entry ← next s
      match entry with
      | none => pure true
      | some (entry, s) => do
          let passed ← test entry
          if passed then iterAll next test calls s else pure false

/-- A call of `pointless_reader_map_iter`: the key, and the state after it. -/
def mapKeyNext (m : Value) (state : UInt32) : Res (Option (Value × UInt32)) :=
  (·.map fun (kk, _, state) => (kk, state)) <$> readerMapIter p m state

/-- The two loops of `pointless_has_same_keys_set_map` and
`pointless_has_same_keys_map_map`, each of which goes through one of the tables and looks
its keys up in the other. -/
def hasSameKeysLoops (fuel : Nat) (nextA nextB : UInt32 → Res (Option (Value × UInt32)))
    (isInA isInB : Value → Res Bool) : Res Bool := do
  let first ← iterAll nextA isInB fuel 0
  if first then iterAll nextB isInA fuel 0 else pure false

/-- `pointless_has_same_keys_set_map`. -/
def hasSameKeysSetMap (fuel : Nat) (s m : Value) : Res Bool := do
  let nItemsS ← readerSetNItems p s
  let nItemsM ← readerMapNItems p m
  if nItemsS ≠ nItemsM then pure false
  else
    hasSameKeysLoops fuel (readerSetIter p s) (mapKeyNext p m) (isInSetAcyclic p fuel s)
      (isInMapAcyclic p fuel m)

/-- `pointless_has_same_keys_map_map`. -/
def hasSameKeysMapMap (fuel : Nat) (a b : Value) : Res Bool := do
  let nItemsA ← readerMapNItems p a
  let nItemsB ← readerMapNItems p b
  if nItemsA ≠ nItemsB then pure false
  else
    hasSameKeysLoops fuel (mapKeyNext p a) (mapKeyNext p b) (isInMapAcyclic p fuel a)
      (isInMapAcyclic p fuel b)

end Lookups

end Pointless
