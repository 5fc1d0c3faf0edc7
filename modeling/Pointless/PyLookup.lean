import Pointless.PyCmpIndependent
import Pointless.TableSound
import Pointless.ViewHash

/-!
# Python lookups

`PyPointlessMap_contains_` and `PyPointlessSet_contains`: a Python object is hashed, and
compared with the keys of its hash.
-/

namespace Pointless

open ExceptRules

/-! ## The functions -/

/-- The exception that an error is reported as. -/
def raise {α : Type} (message : String) : Res α → Res α
  | .error (.error error) => fail (message ++ error)
  | r => r

/-- `PyPointlessSet_contains`. -/
def pyPointlessSetContains (fuel : Nat) (p : OpenFile) (s : Value) (key : PyObject) : Res Bool := do
  let (hash, error) ← pyHash32 fuel key p.header.version
  match error with
  | some error => fail ("pointless hash error: " ++ error)
  | none =>
      let kk ← raise "pointless set query error: "
        (readerSetLookupExt p fuel s hash fun v => pyCmpEq p v key)
      pure kk.isSome

/-- `PyPointlessMap_contains_`. -/
def pyPointlessMapContains (fuel : Nat) (p : OpenFile) (m : Value) (key : PyObject) : Res Bool := do
  let (hash, error) ← pyHash32 fuel key p.header.version
  match error with
  | some error => fail ("pointless hash error: " ++ error)
  | none =>
      let k ← raise "pointless map query error: "
        (readerMapLookupExt p fuel m hash fun v => pyCmpEq p v key)
      pure k.isSome

/-- Either of the two. -/
def pyPointlessContains (fuel : Nat) (p : OpenFile) (t : Value) (key : PyObject) : Res Bool :=
  if t.type = .setValue then pyPointlessSetContains fuel p t key
  else pyPointlessMapContains fuel p t key

/-! ## Keys -/

/-- `None`, a bool, an integer of 32 bits, a string, or a tuple of such keys that are
nested to `levels` levels at most. -/
def PyObject.Key : Nat → PyObject → Prop
  | _, .none | _, .bool _ | _, .str _ => True
  | _, .int v => -2 ^ 31 ≤ v ∧ v ≤ 2 ^ 32 - 1
  | 0, .tuple items => items = []
  | levels + 1, .tuple items => ∀ o ∈ items, Key levels o
  | _, _ => False

mutual

/-- The tuples of the object are shorter than `2 ^ 32`. -/
def PyObject.Short : PyObject → Prop
  | .tuple items => items.length < 2 ^ 32 ∧ ItemsShort items
  | _ => True

def PyObject.ItemsShort : List PyObject → Prop
  | [] => True
  | o :: rest => o.Short ∧ ItemsShort rest

end

theorem PyObject.itemsShort_iff {items : List PyObject} :
    ItemsShort items ↔ ∀ o ∈ items, o.Short := by
  induction items with
  | nil => exact ⟨fun _ _ mem => absurd mem List.not_mem_nil, fun _ => trivial⟩
  | cons x xs ih => rw [ItemsShort, List.forall_mem_cons, ih]

theorem PyObject.short_tuple {items : List PyObject} :
    (tuple items).Short ↔ items.length < 2 ^ 32 ∧ ∀ o ∈ items, o.Short := by
  rw [Short, itemsShort_iff]

/-! ## The hash of a key -/

/-- What hashing an object after `error` comes to: the hash of its view, or an error. -/
def Hashes (o : PyObject) (error : Option String) (result : PyHash) : Prop :=
  (error.isSome = true → result.2.isSome = true) ∧
    (o.Short → result = ((viewObject o).hash, error)) ∧ (¬o.Short → result.2.isSome = true)

/-- The loop over the items of a tuple. -/
theorem tuple_hashes {rec : PyObject → Option String → Res PyHash} {items : List PyObject}
    (each : ∀ o ∈ items, ∀ error, ∃ result, rec o error = .ok result ∧ Hashes o error result)
    (state : VectorHashState32) (error : Option String) :
    ∃ result, items.foldlM (fun (s : VectorHashState32 × Option String) o => do
        let (h, error) ← rec o s.2
        pure (vectorHashNext32 s.1 h, error)) (state, error) = .ok result ∧
      (error.isSome = true → result.2.isSome = true) ∧
      ((∀ o ∈ items, o.Short) → result =
        ((items.map fun o => (viewObject o).hash).foldl vectorHashNext32 state, error)) ∧
      ((¬∀ o ∈ items, o.Short) → result.2.isSome = true) := by
  induction items generalizing state error with
  | nil =>
      exact ⟨_, rfl, id, fun _ => rfl,
        fun bad => absurd (fun _ mem => absurd mem List.not_mem_nil) bad⟩
  | cons o rest ih =>
      obtain ⟨⟨h, e⟩, hashed, keeps, short, long⟩ := each o List.mem_cons_self error
      obtain ⟨result, loop, keeps', short', long'⟩ :=
        ih (fun x mem => each x (List.mem_cons_of_mem _ mem)) (vectorHashNext32 state h) e
      refine ⟨result, ?_, fun before => keeps' (keeps before), fun all => ?_, fun some => ?_⟩
      · rw [List.foldlM_cons]
        simp only [hashed, ok_bind, pure_eq_ok]
        exact loop
      · rw [List.forall_mem_cons] at all
        obtain ⟨rfl, rfl⟩ := Prod.mk.inj (short all.1)
        exact short' all.2
      · rw [List.forall_mem_cons] at some
        by_cases first : o.Short
        · exact long' fun all => some ⟨first, all⟩
        · exact keeps' (long first)

theorem pyHashTuple32_hashes {rec : PyObject → Option String → Res PyHash} {items : List PyObject}
    (each : ∀ o ∈ items, ∀ error, ∃ result, rec o error = .ok result ∧ Hashes o error result)
    (error : Option String) :
    ∃ result, pyHashTuple32 rec items error = .ok result ∧ Hashes (.tuple items) error result := by
  have top : uint32Max.toNat = 4294967295 := rfl
  rw [pyHashTuple32]
  split
  case isTrue long =>
    refine ⟨_, rfl, fun _ => rfl, fun short => ?_, fun _ => rfl⟩
    have bound := (PyObject.short_tuple.mp short).1
    omega
  case isFalse notLong =>
    have bound : items.length < 2 ^ 32 := by omega
    obtain ⟨⟨state, e⟩, loop, keeps, short, long⟩ :=
      tuple_hashes each (vectorHashInit32 (UInt32.ofNat items.length)) error
    rw [loop, ok_bind]
    refine ⟨_, rfl, keeps, fun isShort => ?_, fun notShort => ?_⟩
    · obtain ⟨rfl, rfl⟩ := Prod.mk.inj (short (PyObject.short_tuple.mp isShort).2)
      rw [viewObject, take_viewObjects bound, View.hash_list, List.map_map, combineHashes,
        List.length_map]
      rfl
    · exact long fun all => notShort (PyObject.short_tuple.mpr ⟨bound, all⟩)

theorem pyHashLong32_hashes {v : Int} (low : -2 ^ 31 ≤ v) (high : v ≤ 2 ^ 32 - 1)
    (error : Option String) : pyHashLong32 v error = ((viewObject (.int v)).hash, error) := by
  have top : uint32Max.toNat = 4294967295 := rfl
  have signed : viewObject (.int v) = .number (.signed v) := by
    rw [viewObject, ViewNumber.ofInt, if_pos (by omega)]
  have inside : ¬(v < -2 ^ 63 ∨ 2 ^ 63 ≤ v) := by omega
  rw [signed, pyHashLong32, if_neg inside]
  by_cases negative : v < 0
  · rw [if_pos negative, if_neg (not_not.mpr low)]
    rfl
  · have small : ¬¬v ≤ uint32Max.toNat := not_not.mpr (by omega)
    rw [if_neg negative, if_neg small]
    rfl

theorem Hashes.short {o : PyObject} (short : o.Short) (error : Option String) :
    Hashes o error ((viewObject o).hash, error) :=
  ⟨id, fun _ => rfl, fun bad => absurd short bad⟩

theorem pyHashRec32_scalar {fuel : Nat} {version : UInt32} (known : version = 1 ∨ version = 2)
    {levels left : Nat} {o : PyObject} (key : o.Key levels) (scalar : ∀ items, o ≠ .tuple items)
    (error : Option String) :
    ∃ result, pyHashRec32 fuel version (left + 1) o error = .ok result ∧ Hashes o error result := by
  cases o with
  | none => exact ⟨_, rfl, .short (o := .none) trivial error⟩
  | bool b => cases b <;> exact ⟨_, rfl, .short (o := .bool _) trivial error⟩
  | int v =>
      have bounds : -2 ^ 31 ≤ v ∧ v ≤ 2 ^ 32 - 1 := by cases levels <;> exact key
      refine ⟨_, ?_, .short (o := .int v) trivial error⟩
      rw [pyHashRec32, pyHashLong32_hashes bounds.1 bounds.2]
  | str chars =>
      refine ⟨_, ?_, .short (o := .str chars) trivial error⟩
      rw [pyHashRec32, pyHashUnicode32, if_pos known,
        stringHash32_eq (beforeTerminator_append_zero chars)]
      rfl
  | tuple items => exact absurd rfl (scalar items)
  | _ => cases levels <;> cases key

/-- Hashing a key comes to the hash of its view, or to an error where it is too long. -/
theorem pyHashRec32_key {fuel : Nat} {version : UInt32} (known : version = 1 ∨ version = 2)
    {levels : Nat} {o : PyObject} (key : o.Key levels) (error : Option String) :
    ∃ result, pyHashRec32 fuel version (levels + 1) o error = .ok result ∧
      Hashes o error result := by
  by_cases scalar : ∀ items, o ≠ .tuple items
  · exact pyHashRec32_scalar known key scalar error
  · push Not at scalar
    obtain ⟨items, rfl⟩ := scalar
    refine pyHashTuple32_hashes (fun x mem error => ?_) error
    cases levels with
    | zero =>
        cases key
        cases mem
    | succ levels => exact pyHashRec32_key known (key x mem) error

/-! ## Stored keys that are the key -/

/-- The integer that a number equals in Python. -/
def ViewNumber.pyValue : ViewNumber → Option Int
  | float bits =>
      if floatExponent bits ≠ 255 ∧ floatScaled bits % 2 ^ 149 = 0 then
        some (floatScaled bits / 2 ^ 149)
      else none
  | n => n.value

/-- The view is one of a value that equals `o` in Python. -/
inductive View.Equals : View → PyObject → Prop
  | none : Equals none .none
  | bool {n b} (value : n.pyValue = some (if b then 1 else 0)) : Equals (number n) (.bool b)
  | int {n v} (value : n.pyValue = some v) : Equals (number n) (.int v)
  | str {chars} : Equals (text chars) (.str chars)
  | tuple {xs items} (each : List.Forall₂ Equals xs items) : Equals (list xs) (.tuple items)

namespace ViewNumber

/-- A number that equals an integer of 32 bits hashes like it, and is alike if it can be
compared at all. -/
theorem pyValue_spec {n : ViewNumber} {v : Int} (value : n.pyValue = some v)
    (low : -2 ^ 31 ≤ v) (high : v ≤ 2 ^ 32 - 1) :
    n.hash = hashInt32 v ∧ (n.Ordered → n.Alike (signed v)) := by
  cases n with
  | float bits =>
      rw [pyValue] at value
      split at value
      case isFalse => cases value
      case isTrue finite =>
        have quotient : floatScaled bits / 2 ^ 149 = v := Option.some.inj value
        have scaled : floatScaled bits = v * 2 ^ 149 := by omega
        have notNaN : floatIsNaN bits = false := by simp [floatIsNaN, finite.1]
        refine ⟨?_, fun _ => .left (x := v * 2 ^ 149) trivial ?_ ?_⟩
        · rw [hash, hashFloat32, if_neg finite.1, if_pos finite.2]
          simp only [quotient]
          by_cases negative : v < 0
          · rw [if_pos ⟨negative, low⟩]
            rfl
          · rw [if_neg fun bad => negative bad.1, if_pos ⟨Int.not_lt.mp negative, high⟩]
            rfl
        · rw [floatOperand, notNaN, scaled]
          rfl
        · exact congrArg (fun x => some (x * 2 ^ 149)) (intToFloat_of_scaled scaled)
  | _ =>
      cases value
      refine ⟨rfl, fun ordered => ?_⟩
      first | exact .int rfl rfl | cases ordered

end ViewNumber

section Keys

variable {x : View} {o : PyObject} {levels : Nat}

theorem PyObject.Key.simple (key : o.Key levels) : (viewObject o).Simple levels := by
  induction levels generalizing o with
  | zero =>
      cases o with
      | tuple items =>
          cases key
          rfl
      | none | bool | int | str => trivial
      | _ => cases key
  | succ levels ih =>
      cases o with
      | tuple items =>
          intro x mem
          rw [viewObjects_eq] at mem
          obtain ⟨item, memItem, rfl⟩ := List.mem_map.mp (List.mem_of_mem_take mem)
          exact ih (key item memItem)
      | none | bool | int | str => trivial
      | _ => cases key

theorem PyObject.Key.items {items : List PyObject} (key : (tuple items).Key levels) :
    ∀ o ∈ items, ∃ below, o.Key below := by
  intro o mem
  cases levels with
  | zero =>
      cases key
      cases mem
  | succ levels => exact ⟨levels, key o mem⟩

/-- A stored key that equals the key has its hash, and is alike if it can be compared. -/
theorem View.Equals.spec (equals : x.Equals o) (key : o.Key levels) (short : o.Short) :
    x.hash = (viewObject o).hash ∧ (x.Comparable (viewObject o) → x.Alike (viewObject o)) := by
  induction x generalizing o levels with
  | none =>
      cases equals
      exact ⟨rfl, fun _ => .none⟩
  | number n =>
      have number : ∀ v : Int, n.pyValue = some v → -2 ^ 31 ≤ v → v ≤ 2 ^ 32 - 1 →
          (number n).hash = (number (.signed v)).hash ∧
            ((number n).Comparable (number (.signed v)) → (number n).Alike (number (.signed v))) := by
        intro v value low high
        obtain ⟨hash, alike⟩ := ViewNumber.pyValue_spec value low high
        refine ⟨hash, fun comparable => ?_⟩
        cases comparable with
        | number ordered => exact .number (alike ordered)
      cases equals with
      | @bool _ b value => cases b <;> exact number _ value (by decide) (by decide)
      | @int _ v value =>
          have bounds : -2 ^ 31 ≤ v ∧ v ≤ 2 ^ 32 - 1 := by cases levels <;> exact key
          have signed : viewObject (.int v) = .number (.signed v) := by
            rw [viewObject, ViewNumber.ofInt, if_pos (by omega)]
          rw [signed]
          exact number v value bounds.1 bounds.2
  | text chars =>
      cases equals
      exact ⟨rfl, fun _ => .text rfl⟩
  | list xs ih =>
      cases equals with
      | @tuple _ items each =>
          obtain ⟨bound, shorts⟩ := PyObject.short_tuple.mp short
          have keys := key.items
          rw [viewObject, take_viewObjects bound]
          suffices both : xs.map hash = (items.map viewObject).map hash ∧
              ((list xs).Comparable (list (items.map viewObject)) →
                (list xs).Alike (list (items.map viewObject))) by
            rw [hash_list, hash_list, both.1]
            exact ⟨rfl, both.2⟩
          clear key short bound
          induction each with
          | nil => exact ⟨rfl, fun _ => .nil⟩
          | @cons y item ys items head tail rest =>
              rw [List.forall_mem_cons] at keys shorts
              obtain ⟨below, keyHead⟩ := keys.1
              obtain ⟨hashHead, alikeHead⟩ := ih y List.mem_cons_self head keyHead shorts.1
              obtain ⟨hashTail, alikeTail⟩ :=
                rest (fun u mem => ih u (List.mem_cons_of_mem _ mem)) shorts.2 keys.2
              refine ⟨?_, fun comparable => ?_⟩
              · rw [List.map_cons, List.map_cons, List.map_cons, hashHead, hashTail]
              · cases comparable with
                | differ comparable apart => exact absurd (alikeHead comparable) apart
                | same alike comparable => exact .cons alike (alikeTail comparable)
  | alien => cases equals

theorem View.Equals.simple (equals : x.Equals o) (key : o.Key levels) : x.Simple levels := by
  induction levels generalizing o x with
  | zero =>
      cases equals with
      | tuple each =>
          cases key
          cases each
          rfl
      | _ => trivial
  | succ levels ih =>
      cases equals with
      | tuple each =>
          intro y mem
          obtain ⟨k, less, rfl⟩ := List.getElem_of_mem mem
          exact ih (each.get less (each.length_eq ▸ less)) (key _ (List.getElem_mem _))
      | _ => trivial

end Keys

/-! ## What is asked for -/

/-- The buckets of a set or map. -/
def BucketsOf (p : OpenFile) (t : Value) (nBuckets : UInt32) (hash : Nat → UInt32)
    (key : Nat → Value) : Prop :=
  ∃ table, TableAt p t table ∧ table.Even p nBuckets ∧ TableRead p table nBuckets hash key

/-- A stored key is a Python value that equals `o`. -/
def KeyEquals (p : OpenFile) (k : Value) (o : PyObject) : Prop :=
  ∃ levels x, readView p levels k.toComplete = .ok x ∧ x.Equals o

/-- A stored key can be compared with `o`. -/
def KeyComparable (p : OpenFile) (k : Value) (o : PyObject) : Prop :=
  ∃ levels x, readView p levels k.toComplete = .ok x ∧ x.Comparable (viewObject o)

/-- A stored key has the content that is compared of `o`. -/
def KeyAlike (p : OpenFile) (k : Value) (o : PyObject) : Prop :=
  ∃ levels x, readView p levels k.toComplete = .ok x ∧ x.Alike (viewObject o)

/-- Some bucket has a key that equals `o`. -/
def HasKey (p : OpenFile) (nBuckets : UInt32) (key : Nat → Value) (o : PyObject) : Prop :=
  ∃ i < nBuckets.toNat, (key i).type ≠ .emptySlot ∧ KeyEquals p (key i) o

/-- The lookup of `o` returns whether some bucket has a key that equals it. -/
def LookupCorrect (p : OpenFile) (t : Value) (nBuckets : UInt32) (key : Nat → Value)
    (o : PyObject) : Prop :=
  ∃ found, (∃ enough, ∀ fuel ≥ enough, pyPointlessContains fuel p t o = .ok found) ∧
    (found = true ↔ HasKey p nBuckets key o)

/-- The `d`-th bucket on the path of `o` has a key of its hash, and no bucket is empty up
to there. -/
def MeetsKey (nBuckets : UInt32) (hash : Nat → UInt32) (key : Nat → Value) (o : PyObject)
    (d : Nat) : Prop :=
  (∀ e ≤ d, (key (probePath nBuckets (viewObject o).hash e)).type ≠ .emptySlot) ∧
    hash (probePath nBuckets (viewObject o).hash d) = (viewObject o).hash

/-- Every key of the hash of `o` that its path meets in front of one with the content of
`o` can be compared with it; and the first one with the content of `o` does not stand there
for another value. -/
def ClearPath (p : OpenFile) (nBuckets : UInt32) (hash : Nat → UInt32) (key : Nat → Value)
    (o : PyObject) : Prop :=
  ∀ d, MeetsKey nBuckets hash key o d →
    (∀ e < d, MeetsKey nBuckets hash key o e →
      ¬KeyAlike p (key (probePath nBuckets (viewObject o).hash e)) o) →
    KeyComparable p (key (probePath nBuckets (viewObject o).hash d)) o ∧
      (KeyAlike p (key (probePath nBuckets (viewObject o).hash d)) o → HasKey p nBuckets key o)

/-! ## The test of a stored key -/

/-- `pointless_eq_cb` as the probe applies it. -/
def pyKeyTest (p : OpenFile) (o : PyObject) (k : Value) : Res Bool := do
  let c ← pyCmpEq p k.toComplete o
  pure (c ≠ 0)

section Test

variable {p : OpenFile} {o : PyObject} {k : Value} {levels : Nat} {x : View}

theorem pyKeyTest_view (key : o.Key 511) (read : readView p levels k.toComplete = .ok x) :
    match x.cmp (viewObject o) with
    | some c => pyKeyTest p o k = .ok (decide (c = 0))
    | none => ∃ message, pyKeyTest p o k = fail message := by
  have python : pyCmpValueInitPython o = .python o := by
    cases o with
    | vector => cases key
    | _ => rfl
  obtain ⟨a, init, views⟩ := readView_views read
  obtain ⟨⟨c, error⟩, compared, yields⟩ := @pyCmpRec_views 511 _ _ _ _ none views
    (@PyCmpValue.Views.python o) key.simple
  have compared : pyCmpRec maxDepth a (.python o) none = .ok (c, error) := compared
  rw [pyKeyTest, pyCmpEq, init, ok_bind, python, compared]
  rcases yields with ⟨-, result, clear⟩ | ⟨failed, -, raised⟩
  · have clear : error = none := clear
    rw [result, clear]
    change Except.ok (decide ((if c = 0 then (1 : UInt32) else 0) ≠ 0)) = Except.ok (decide (c = 0))
    by_cases zero : c = 0
    · rw [if_pos zero, zero]
      rfl
    · rw [if_neg zero, decide_eq_false zero]
      rfl
  · obtain ⟨message, raised⟩ := Option.isSome_iff_exists.mp raised
    have raised : error = some message := raised
    rcases failed with before | failed
    · cases before
    · rw [failed, raised]
      exact ⟨message, rfl⟩

theorem pyKeyTest_alike (key : o.Key 511) (alike : KeyAlike p k o) : pyKeyTest p o k = .ok true := by
  obtain ⟨levels, x, read, alike⟩ := alike
  have test := pyKeyTest_view key read
  rw [alike.cmp] at test
  exact test

theorem pyKeyTest_differ (key : o.Key 511) (comparable : KeyComparable p k o)
    (differ : ¬KeyAlike p k o) : pyKeyTest p o k = .ok false := by
  obtain ⟨levels, x, read, comparable⟩ := comparable
  have test := pyKeyTest_view key read
  obtain ⟨c, result⟩ := Option.ne_none_iff_exists'.mp comparable.cmp_ne_none
  have nonzero : c ≠ 0 := by
    rintro rfl
    exact differ ⟨levels, x, read, View.alike_of_cmp result⟩
  rw [result] at test
  rw [test, decide_eq_false nonzero]

theorem pyKeyTest_incomparable (key : o.Key 511) (read : readView p levels k.toComplete = .ok x)
    (incomparable : ¬KeyComparable p k o) : ∃ message, pyKeyTest p o k = fail message := by
  have test := pyKeyTest_view key read
  have error : x.cmp (viewObject o) = none := by
    by_contra result
    exact incomparable ⟨levels, x, read, View.comparable_of_cmp result⟩
  rwa [error] at test

end Test

/-! ## The lookup -/

theorem version_of_openB {fuel : Nat} {buf : List UInt8} {p : OpenFile} {error : Option String}
    (opened : openB fuel buf = .ok (p, error)) : p.header.version = 1 ∨ p.header.version = 2 := by
  obtain ⟨laid, -, -⟩ := openB_eq_ok.mp opened
  obtain ⟨header, -, version, tables⟩ := init_ok laid
  rw [layTables_header tables]
  unfold initVersion at version
  split at version
  case isTrue => cases version
  case isFalse =>
    split at version
    case isTrue one => exact Or.inl one
    case isFalse =>
      split at version
      case isTrue two => exact Or.inr two
      case isFalse => cases version

theorem raise_eq_ok {α : Type} {message : String} {r : Res α} {a : α} :
    raise message r = .ok a ↔ r = .ok a := by
  cases r with
  | ok => exact Iff.rfl
  | error e => cases e <;> exact ⟨fun bad => (by cases bad), fun bad => (by cases bad)⟩

/-- A key without a hash is an error. -/
theorem pyPointlessContains_failed {fuel : Nat} {p : OpenFile} {t : Value} {o : PyObject}
    {h : UInt32} {message : String}
    (hashed : pyHash32 fuel o p.header.version = .ok (h, some message)) :
    pyPointlessContains fuel p t o = fail ("pointless hash error: " ++ message) := by
  rw [pyPointlessContains]
  split
  · rw [pyPointlessSetContains, hashed]
    rfl
  · rw [pyPointlessMapContains, hashed]
    rfl

/-- Both lookups are the hash and then the probe. -/
theorem pyPointlessContains_eq {fuel : Nat} {p : OpenFile} {t : Value} {o : PyObject} {table : Table}
    {nBuckets h : UInt32} (at_t : TableAt p t table) (even : table.Even p nBuckets)
    (hashed : pyHash32 fuel o p.header.version = .ok (h, none)) :
    ∃ message, pyPointlessContains fuel p t o = (do
      let found ← raise message (hashTableProbePriv fuel (pyKeyTest p o) h nBuckets
        (hashVectorAt p table.hashes) (readerVectorValue p table.keys))
      pure found.isSome) := by
  obtain ⟨-, nKeys, -⟩ := even
  rw [pyPointlessContains]
  cases at_t with
  | set type hashes keys nItems =>
      refine ⟨"pointless set query error: ", ?_⟩
      rw [if_pos type, pyPointlessSetContains, hashed, ok_bind]
      simp only [readerSetLookupExt, hashes, keys, nKeys, ok_bind]
      rfl
  | map type hashes keys values nItems =>
      refine ⟨"pointless map query error: ", ?_⟩
      rw [if_neg (by rw [type]; exact ValueType.noConfusion), pyPointlessMapContains, hashed,
        ok_bind]
      simp only [readerMapLookupExt, hashes, keys, nKeys, ok_bind]
      rfl

section Probe

variable {p : OpenFile} {o : PyObject} {fuel : Nat} {nBuckets nItems : UInt32}
  {hashAt : Nat → Res UInt32} {keyAt : Nat → Res Value} {hash : Nat → UInt32} {key : Nat → Value}
  (sound : p.Sound) (stored : StoredKeys fuel p nBuckets nItems hashAt keyAt hash key)
  (isKey : o.Key 511)
include sound stored

omit sound in
theorem StoredKeys.path_lt (h : UInt32) (d : Nat) : probePath nBuckets h d < nBuckets.toNat := by
  obtain ⟨k, bound, size⟩ := stored.counted.size
  rw [size, toNat_two_pow bound]
  exact probePath_lt bound h d

/-- A stored key is seen. -/
theorem StoredKeys.seen {i : Nat} (less : i < nBuckets.toNat) :
    Seen p fuel (key i).toComplete (hash i) :=
  hash_seen sound (stored.read.reach i less) (stored.hashes i less).2

include isKey

theorem StoredKeys.test_true_iff {i : Nat} (less : i < nBuckets.toNat) :
    pyKeyTest p o (key i) = .ok true ↔ KeyAlike p (key i) o := by
  refine ⟨fun test => ?_, pyKeyTest_alike isKey⟩
  by_contra differ
  obtain ⟨x, read, -⟩ := stored.seen sound less
  by_cases comparable : KeyComparable p (key i) o
  · rw [pyKeyTest_differ isKey comparable differ] at test
    cases test
  · obtain ⟨message, failed⟩ := pyKeyTest_incomparable isKey read comparable
    rw [failed] at test
    cases test

theorem StoredKeys.test_false_iff {i : Nat} (less : i < nBuckets.toNat) :
    pyKeyTest p o (key i) = .ok false ↔ KeyComparable p (key i) o ∧ ¬KeyAlike p (key i) o := by
  refine ⟨fun test => ?_, fun both => pyKeyTest_differ isKey both.1 both.2⟩
  have differ : ¬KeyAlike p (key i) o := by
    intro alike
    rw [pyKeyTest_alike isKey alike] at test
    cases test
  refine ⟨?_, differ⟩
  by_contra incomparable
  obtain ⟨x, read, -⟩ := stored.seen sound less
  obtain ⟨message, failed⟩ := pyKeyTest_incomparable isKey read incomparable
  rw [failed] at test
  cases test

/-- Which buckets the probe for the key goes past. -/
theorem StoredKeys.passes_iff {h : UInt32} {i : Nat} (less : i < nBuckets.toNat) :
    ProbePasses (pyKeyTest p o) hashAt keyAt h i ↔ (key i).type ≠ .emptySlot ∧
      (hash i = h → KeyComparable p (key i) o ∧ ¬KeyAlike p (key i) o) := by
  constructor
  · intro passes
    obtain ⟨k, h', keyRead, occupied, hashRead, test⟩ := passes
    rw [stored.read.keyAt i less] at keyRead
    rw [stored.read.hashAt i less] at hashRead
    cases keyRead
    cases hashRead
    exact ⟨occupied, fun same => (stored.test_false_iff sound isKey less).mp (test same.symm)⟩
  · intro both
    refine ⟨key i, hash i, stored.read.keyAt i less, both.1, stored.read.hashAt i less, ?_⟩
    exact fun same => (stored.test_false_iff sound isKey less).mpr (both.2 same.symm)

/-- A key that equals `o` stands on the path of `o` before any empty bucket. -/
theorem StoredKeys.equal_met (short : o.Short) {i : Nat} (less : i < nBuckets.toNat)
    (occupied : (key i).type ≠ .emptySlot) (equals : KeyEquals p (key i) o) {gap : Nat}
    (isEmpty : (key (probePath nBuckets (viewObject o).hash gap)).type = .emptySlot) :
    hash i = (viewObject o).hash ∧ (KeyComparable p (key i) o → KeyAlike p (key i) o) ∧
      ∃ d < gap, probePath nBuckets (viewObject o).hash d = i := by
  obtain ⟨levels, x, read, equals⟩ := equals
  obtain ⟨x', read', hashed⟩ := stored.seen sound less
  obtain rfl := readView_unique read read'
  obtain ⟨sameHash, alike⟩ := equals.spec isKey short
  have here : hash i = (viewObject o).hash := (hashed _ (equals.simple isKey)).symm.trans sameHash
  refine ⟨here, fun comparable => ?_, ?_⟩
  · obtain ⟨levels', x'', read'', comparable⟩ := comparable
    obtain rfl := readView_unique read read''
    exact ⟨levels, x, read, alike comparable⟩
  · exact stored.met less occupied here isEmpty

/-- On a clear path the probe returns whether there is a key that equals `o`. -/
theorem StoredKeys.probe_of_clear (short : o.Short) (clear : ClearPath p nBuckets hash key o) :
    ∃ found enough, (found.isSome = true ↔ HasKey p nBuckets key o) ∧ ∀ more ≥ enough,
      hashTableProbePriv more (pyKeyTest p o) (viewObject o).hash nBuckets hashAt keyAt =
        .ok found := by
  classical
  have inside := stored.path_lt (viewObject o).hash
  obtain ⟨gap, -, isEmpty, -⟩ := stored.counted.gap (viewObject o).hash
  have stops : ∃ d, ¬ProbePasses (pyKeyTest p o) hashAt keyAt (viewObject o).hash
      (probePath nBuckets (viewObject o).hash d) :=
    ⟨gap, fun passes => ((stored.passes_iff sound isKey (inside gap)).mp passes).1 isEmpty⟩
  -- the first bucket that the probe does not go past
  obtain ⟨d, stop, before⟩ : ∃ d, ¬ProbePasses (pyKeyTest p o) hashAt keyAt (viewObject o).hash
      (probePath nBuckets (viewObject o).hash d) ∧ ∀ e < d, ProbePasses (pyKeyTest p o) hashAt keyAt
        (viewObject o).hash (probePath nBuckets (viewObject o).hash e) :=
    ⟨Nat.find stops, Nat.find_spec stops, fun e less => not_not.mp (Nat.find_min stops less)⟩
  have passed := fun e less => (stored.passes_iff sound isKey (inside e)).mp (before e less)
  by_cases atGap : (key (probePath nBuckets (viewObject o).hash d)).type = .emptySlot
  · refine ⟨none, d + 1, ⟨fun bad => Bool.noConfusion bad, fun has => ?_⟩, fun more enough =>
      hashTableProbePriv_miss (by omega) before (stored.read.keyAt _ (inside d)) atGap⟩
    obtain ⟨i, less, occupied, equals⟩ := has
    obtain ⟨here, alike, e, eLess, path⟩ :=
      stored.equal_met sound isKey short less occupied equals atGap
    have both := (passed e eLess).2 (by rw [path, here])
    rw [path] at both
    exact absurd (alike both.1) both.2
  · have same : hash (probePath nBuckets (viewObject o).hash d) = (viewObject o).hash := by
      by_contra other
      exact stop ((stored.passes_iff sound isKey (inside d)).mpr
        ⟨atGap, fun same => absurd same other⟩)
    have met : MeetsKey nBuckets hash key o d := by
      refine ⟨fun e le => ?_, same⟩
      rcases Nat.lt_or_eq_of_le le with less | rfl
      · exact (passed e less).1
      · exact atGap
    obtain ⟨comparable, stands⟩ :=
      clear d met fun e less meets => ((passed e less).2 meets.2).2
    have alike : KeyAlike p (key (probePath nBuckets (viewObject o).hash d)) o := by
      by_contra differ
      exact stop ((stored.passes_iff sound isKey (inside d)).mpr
        ⟨atGap, fun _ => ⟨comparable, differ⟩⟩)
    refine ⟨some _, d + 1, ⟨fun _ => stands alike, fun _ => rfl⟩, fun more enough =>
      hashTableProbePriv_hit (by omega) before (stored.read.keyAt _ (inside d)) atGap ?_
        ((stored.test_true_iff sound isKey (inside d)).mpr alike)⟩
    rw [stored.read.hashAt _ (inside d), same]

/-- A probe that returns whether there is a key that equals `o` has gone a clear path. -/
theorem StoredKeys.clear_of_probe {enough : Nat}
    (probed : ∀ more ≥ enough, ∃ found,
      hashTableProbePriv more (pyKeyTest p o) (viewObject o).hash nBuckets hashAt keyAt =
        .ok found ∧ (found.isSome = true → HasKey p nBuckets key o)) :
    ClearPath p nBuckets hash key o := by
  have inside := stored.path_lt (viewObject o).hash
  intro d met noneAlike
  -- every key in front of it can be compared, for the probe would stop at the first that cannot
  have comparable : ∀ e, MeetsKey nBuckets hash key o e →
      (∀ e' < e, ProbePasses (pyKeyTest p o) hashAt keyAt (viewObject o).hash
        (probePath nBuckets (viewObject o).hash e')) →
      KeyComparable p (key (probePath nBuckets (viewObject o).hash e)) o := by
    intro e meets before
    by_contra incomparable
    obtain ⟨x, read, -⟩ := stored.seen sound (inside e)
    obtain ⟨message, failed⟩ := pyKeyTest_incomparable isKey read incomparable
    have less : e < max enough (e + 1) := by omega
    have stopped := hashTableProbePriv_stop less before
      (stored.read.keyAt _ (inside e)) (meets.1 e le_rfl)
      (by rw [stored.read.hashAt _ (inside e), meets.2]) failed
    obtain ⟨found, returned, -⟩ := probed _ (Nat.le_max_left enough (e + 1))
    rw [returned] at stopped
    cases stopped
  have before : ∀ e < d, ProbePasses (pyKeyTest p o) hashAt keyAt (viewObject o).hash
      (probePath nBuckets (viewObject o).hash e) := by
    intro e
    induction e using Nat.strong_induction_on with
    | h e ih =>
        intro less
        have occupied := met.1 e less.le
        refine (stored.passes_iff sound isKey (inside e)).mpr ⟨occupied, fun same => ?_⟩
        have meets : MeetsKey nBuckets hash key o e :=
          ⟨fun e' le => met.1 e' (le.trans less.le), same⟩
        exact ⟨comparable e meets fun e' less' => ih e' less' (less'.trans less),
          noneAlike e less meets⟩
  refine ⟨comparable d met before, fun alike => ?_⟩
  have less : d < max enough (d + 1) := by omega
  have hit := hashTableProbePriv_hit less before
    (stored.read.keyAt _ (inside d)) (met.1 d le_rfl)
    (by rw [stored.read.hashAt _ (inside d), met.2])
    ((stored.test_true_iff sound isKey (inside d)).mpr alike)
  obtain ⟨found, returned, correct⟩ := probed _ (Nat.le_max_left enough (d + 1))
  rw [returned] at hit
  cases hit
  exact correct rfl

end Probe

/-- The lookup of a Python key in a set or map of an accepted file is correct exactly
when the key can be hashed and its path is clear. -/
theorem lookupCorrect_iff {fuel : Nat} {buf : List UInt8} {p : OpenFile} {error : Option String}
    {t : Value} {nBuckets : UInt32} {hash : Nat → UInt32} {key : Nat → Value} {o : PyObject}
    (opened : openB fuel buf = .ok (p, error)) (reach : Reachable p t)
    (buckets : BucketsOf p t nBuckets hash key) (isKey : o.Key 511) :
    LookupCorrect p t nBuckets key o ↔ o.Short ∧ ClearPath p nBuckets hash key o := by
  obtain ⟨table, at_t, even, read⟩ := buckets
  have sound := openB_sound opened
  have stored := storedKeys_of_openB opened reach at_t even read
  have hashes := fun fuel => @pyHashRec32_key fuel _ (version_of_openB opened) 511 o isKey none
  by_cases short : o.Short
  · have hashed : ∀ fuel, pyHash32 fuel o p.header.version = .ok ((viewObject o).hash, none) := by
      intro fuel
      obtain ⟨result, hashed, -, same, -⟩ := hashes fuel
      rw [same short] at hashed
      exact hashed
    constructor
    · intro correct
      obtain ⟨found, ⟨enough, returned⟩, correct⟩ := correct
      refine ⟨short, @StoredKeys.clear_of_probe _ _ _ _ _ _ _ _ _ sound stored isKey enough ?_⟩
      intro more le
      have eq := returned more le
      obtain ⟨message, same⟩ := pyPointlessContains_eq at_t even (hashed more)
      rw [same] at eq
      obtain ⟨result, raised, isFound⟩ := bind_eq_ok.mp eq
      have isFound : result.isSome = found := Except.ok.inj isFound
      exact ⟨result, raise_eq_ok.mp raised, fun some => correct.mp (isFound ▸ some)⟩
    · intro both
      obtain ⟨found, enough, correct, probed⟩ := stored.probe_of_clear sound isKey short both.2
      refine ⟨found.isSome, ⟨enough, fun more le => ?_⟩, correct⟩
      obtain ⟨message, same⟩ := pyPointlessContains_eq at_t even (hashed more)
      rw [same, probed more le]
      rfl
  · refine ⟨fun correct => ?_, fun both => absurd both.1 short⟩
    obtain ⟨found, ⟨enough, returned⟩, -⟩ := correct
    obtain ⟨⟨h, e⟩, hashed, -, -, long⟩ := hashes enough
    obtain ⟨message, raised⟩ := Option.isSome_iff_exists.mp (long short)
    have raised : e = some message := raised
    have failed := @pyPointlessContains_failed enough p t o h message (raised ▸ hashed)
    rw [returned enough le_rfl] at failed
    cases failed

/-! ## A lookup that fails -/

/-- A set of the one key 0. -/
def zeroSetFile : List UInt8 :=
  bytesValue ⟨.setValue, 0⟩ ++ bytesU32 0 ++ bytesU32 2 ++ bytesU32 0 ++ bytesU32 1 ++ bytesU32 0 ++
    bytesU32 2 ++
    bytesU64 0 ++ bytesU64 12 ++ bytesU64 32 ++
    bytesU32 2 ++ bytesU32 0 ++ bytesU32 0 ++
    bytesU32 2 ++ bytesValue ⟨.i32, 0⟩ ++ bytesValue ⟨.emptySlot, 0⟩ ++
    bytesU32 1 ++ bytesU32 0 ++ bytesValue ⟨.vectorU32, 0⟩ ++ bytesValue ⟨.vectorValueHashable, 1⟩

/-- The file opened. -/
def zeroSetOpened : OpenFile where
  header := ⟨⟨.setValue, 0⟩, 0, 2, 0, 1, 0, 2⟩
  stringUnicodeOffsets := []
  vectorOffsets := [0, 12]
  bitvectorOffsets := []
  setOffsets := [32]
  mapOffsets := []
  heap := zeroSetFile.drop 56

set_option maxRecDepth 4000 in
theorem openB_zeroSetFile : openB 20 zeroSetFile = .ok (zeroSetOpened, none) := by decide +kernel

theorem exists_bucketsOf {fuel : Nat} {buf : List UInt8} {p : OpenFile} {error : Option String}
    {t : Value} (opened : openB fuel buf = .ok (p, error)) (reach : Reachable p t)
    (type : isTableType t.type) : ∃ nBuckets hash key, BucketsOf p t nBuckets hash key := by
  obtain ⟨-, -, hashTables⟩ := openB_eq_ok.mp opened
  obtain ⟨table, nBuckets, hash, key, at_t, even, read, -⟩ :=
    (openB_sound opened).tableInside reach type (table_passed hashTables reach type)
  exact ⟨nBuckets, hash, key, table, at_t, even, read⟩

theorem lookupCorrect_iff_zero : ∃ nBuckets hash key,
    BucketsOf zeroSetOpened ⟨.setValue, 0⟩ nBuckets hash key ∧
      (LookupCorrect zeroSetOpened ⟨.setValue, 0⟩ nBuckets key (.int 0) ↔
        (PyObject.int 0).Short ∧ ClearPath zeroSetOpened nBuckets hash key (.int 0)) := by
  obtain ⟨nBuckets, hash, key, buckets⟩ :=
    exists_bucketsOf openB_zeroSetFile (.root _) (Or.inl rfl)
  exact ⟨nBuckets, hash, key, buckets,
    lookupCorrect_iff openB_zeroSetFile (.root _) buckets ⟨by decide, by decide⟩⟩

/-- `None` has the hash of 0, and looking it up in a set of an accepted file that has 0 is
an error. -/
theorem zeroSet_none_fails : openB 20 zeroSetFile = .ok (zeroSetOpened, none) ∧
    PyObject.none.Key 511 ∧ ∃ nBuckets hash key,
      BucketsOf zeroSetOpened ⟨.setValue, 0⟩ nBuckets hash key ∧
        ¬LookupCorrect zeroSetOpened ⟨.setValue, 0⟩ nBuckets key .none := by
  obtain ⟨nBuckets, hash, key, buckets⟩ :=
    exists_bucketsOf openB_zeroSetFile (.root _) (Or.inl rfl)
  refine ⟨openB_zeroSetFile, trivial, nBuckets, hash, key, buckets, fun correct => ?_⟩
  obtain ⟨found, ⟨enough, returned⟩, -⟩ := correct
  have failed : pyPointlessContains (enough + 1) zeroSetOpened ⟨.setValue, 0⟩ .none =
      fail "pointless set query error: comparison not supported between these types" := rfl
  rw [returned (enough + 1) (Nat.le_succ _)] at failed
  cases failed

end Pointless
