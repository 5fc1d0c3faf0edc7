import Pointless.Lib.Deciding
import Pointless.PyLookup
import Pointless.ReaderHelpers

/-!
# Native keys are found

What the loops of `pointless_reader_helpers.c` come to on an accepted table: the first key
of the hash that passes the test. The integer lookups find what is stored exactly where the
hash of the query is that of the stored integer.
-/

namespace Pointless

open Deciding ExceptRules

/-! ## The first entry that passes -/

/-- The loop around an iterator looks for the first entry that passes the test. -/
theorem iterFind_eq {α σ β : Type} {next : σ → Res (Option (α × σ))} {calls : Nat} {s : σ}
    {entries : List (α × σ)} (ran : iterRun next calls s = .ok entries)
    (test : α → Res (Option β)) :
    iterFind next test calls s = entries.findSomeM? fun entry => test entry.1 := by
  induction calls generalizing s entries with
  | zero => cases ran
  | succ calls ih =>
      rw [iterRun] at ran
      obtain ⟨entry, called, ran⟩ := bind_eq_ok.mp ran
      rw [iterFind, called, ok_bind]
      cases entry with
      | none =>
          cases ran
          rfl
      | some entry =>
          obtain ⟨rest, others, rfl⟩ := map_eq_ok.mp ran
          change (test entry.1 >>= _) = (test entry.1 >>= _)
          congr 1
          funext found
          cases found with
          | none => exact ih others
          | some b => rfl

/-- The callback answers whether `holds`. -/
def Answers (result : Res Bool) (holds : Prop) : Prop :=
  ∃ answer, result = .ok answer ∧ (answer = true ↔ holds)

/-- When the callback answers at every entry, the search takes one that it holds for, or
there is none. -/
theorem search_ok {α β : Type} {cb : α → Res Bool} {value : α → β} {holds : α → Prop}
    {entries : List α} (answers : ∀ x ∈ entries, Answers (cb x) (holds x)) :
    ∃ out, (entries.findSomeM? fun x => do
        let checked ← cb x
        if checked then pure (some (value x)) else pure none) = .ok out ∧
      (out = none → ∀ x ∈ entries, ¬holds x) ∧
      ∀ v, out = some v → ∃ x ∈ entries, holds x ∧ v = value x := by
  induction entries with
  | nil => exact ⟨none, rfl, fun _ x mem => absurd mem List.not_mem_nil, fun v no => by cases no⟩
  | cons x rest ih =>
      rw [List.forall_mem_cons] at answers
      obtain ⟨⟨answer, test, passes⟩, others⟩ := answers
      rw [List.findSomeM?, test, ok_bind]
      cases answer with
      | true =>
          refine ⟨some (value x), rfl, fun no => (by cases no), fun v same => ?_⟩
          exact ⟨x, List.mem_cons_self, passes.mp rfl, (Option.some.inj same).symm⟩
      | false =>
          obtain ⟨out, found, none, some⟩ := ih others
          refine ⟨out, found, fun missed => ?_, fun v same => ?_⟩
          · rw [List.forall_mem_cons]
            exact ⟨fun has => Bool.noConfusion (passes.mpr has), none missed⟩
          · obtain ⟨y, mem, has⟩ := some v same
            exact ⟨y, List.mem_cons_of_mem x mem, has⟩

/-! ## The loops on an accepted table -/

/-- The value in a bucket of a map. -/
def MapValueAt (p : OpenFile) (m : Value) (i : Nat) (v : Value) : Prop :=
  ∃ values, mapValueVector p m = .ok values ∧ readerVectorValue p values i = .ok v

section Loops

variable {p : OpenFile} {t : Value} {table : Table} {nBuckets : UInt32} {hash : Nat → UInt32}
  {key : Nat → Value} {validated : Nat} {h : UInt32} {gap : Nat}

/-- The buckets on the path of a hash that have it, up to the first empty bucket. -/
def hashBuckets (nBuckets : UInt32) (hash : Nat → UInt32) (h : UInt32) (gap : Nat) : List Nat :=
  ((List.range' 0 gap).filter fun d => hash (probePath nBuckets h d) = h).map (probePath nBuckets h)

theorem findSomeM?_map {α β γ : Type} (f : α → β) (test : β → Res (Option γ)) (xs : List α) :
    (xs.map f).findSomeM? test = xs.findSomeM? fun x => test (f x) := by
  induction xs with
  | nil => rfl
  | cons x rest ih =>
      rw [List.map_cons, List.findSomeM?, List.findSomeM?, ih]

/-- The values of a map. -/
theorem exists_mapValues (type : t.type = .mapValueValue) (at_t : TableAt p t table)
    (read : TableRead p table nBuckets hash key) :
    ∃ value : Nat → Value, ∀ i < nBuckets.toNat, MapValueAt p t i (value i) := by
  have values : ∀ i, ∃ value, i < nBuckets.toNat → MapValueAt p t i value := by
    intro i
    by_cases less : i < nBuckets.toNat
    · cases at_t with
      | set type' =>
          rw [type] at type'
          cases type'
      | map _ _ _ valuesRead _ =>
          obtain ⟨value, at_i⟩ := read.valueAt _ rfl i less
          exact ⟨value, fun _ => ⟨_, valuesRead, at_i⟩⟩
    · exact ⟨p.root, fun bad => absurd bad less⟩
  choose value values using values
  exact ⟨value, values⟩

/-- What is found of a map is found in its buckets. -/
theorem getMap_eq {α : Type} (type : t.type = .mapValueValue) (at_t : TableAt p t table)
    (even : table.Even p nBuckets) (inside : ∀ d, probePath nBuckets h d < nBuckets.toNat)
    (path : PathRead nBuckets (hashVectorAt p table.hashes) (readerVectorValue p table.keys) hash
      key h gap)
    {value : Nat → Value} (values : ∀ i < nBuckets.toNat, MapValueAt p t i (value i))
    {fuel : Nat} (enough : gap < fuel) (cbK : Value → Res Bool) (cbV : Value → Res (Option α)) :
    getMap p fuel t h cbK cbV = (hashBuckets nBuckets hash h gap).findSomeM? (fun i => do
      let checked ← cbK (key i)
      if checked then cbV (value i) else pure none) := by
  obtain ⟨nHashes, -, -⟩ := even
  cases at_t with
  | set type' =>
      rw [type] at type'
      cases type'
  | @map hashVector keyVector valueVector _ _ hashesRead keysRead valuesRead nItems =>
      have valueAt : ∀ d, readerVectorValue p valueVector (probePath nBuckets h d) =
          .ok (value (probePath nBuckets h d)) := by
        intro d
        obtain ⟨values', valuesRead', at_i⟩ := values _ (inside d)
        cases valuesRead.symm.trans valuesRead'
        exact at_i
      have ends : ∀ d, iterHashLoop (hashVectorAt p hashVector) (readerVectorValue p keyVector)
          h fuel (probeState h nBuckets d) = .ok none →
          mapNext p fuel t h (probeState h nBuckets d) = .ok none := by
        intro d done
        simp only [mapNext, readerMapIterHash, hashesRead, keysRead, valuesRead, ok_bind, done,
          pure_eq_ok]
        rfl
      have yields : ∀ d e, iterHashLoop (hashVectorAt p hashVector) (readerVectorValue p keyVector)
          h fuel (probeState h nBuckets d)
            = .ok (some ((probeState h nBuckets e).bucket, probeState h nBuckets (e + 1))) →
          mapNext p fuel t h (probeState h nBuckets d) =
            .ok (some ((key (probePath nBuckets h e), value (probePath nBuckets h e)),
              probeState h nBuckets (e + 1))) := by
        intro d e called
        have keyRead := path.keyAt e
        have valueRead := valueAt e
        unfold probePath at keyRead valueRead
        simp only [mapNext, readerMapIterHash, hashesRead, keysRead, valuesRead, ok_bind, called,
          keyRead, valueRead, pure_eq_ok]
        rfl
      have ran := iterHash_run path enough enough ends yields
      simp only [getMap, readerMapIterHashInit, hashesRead, nHashes, ok_bind, pure_eq_ok]
      rw [iterFind_eq ran, hashBuckets, findSomeM?_map, findSomeM?_map]

/-- What is found of a set is found in its buckets. -/
theorem getSet_eq (type : t.type = .setValue) (at_t : TableAt p t table)
    (even : table.Even p nBuckets)
    (path : PathRead nBuckets (hashVectorAt p table.hashes) (readerVectorValue p table.keys) hash
      key h gap)
    {fuel : Nat} (enough : gap < fuel) (cbK : Value → Res Bool) :
    getSet p fuel t h cbK = Option.isSome <$>
      (hashBuckets nBuckets hash h gap).findSomeM? (fun i => do
        let checked ← cbK (key i)
        if checked then pure (some ()) else pure none) := by
  obtain ⟨nHashes, -, -⟩ := even
  cases at_t with
  | map type' =>
      rw [type] at type'
      cases type'
  | @set hashVector keyVector _ _ hashesRead keysRead nItems =>
      have ends : ∀ d, iterHashLoop (hashVectorAt p hashVector) (readerVectorValue p keyVector)
          h fuel (probeState h nBuckets d) = .ok none →
          setNext p fuel t h (probeState h nBuckets d) = .ok none := by
        intro d done
        simp only [setNext, readerSetIterHash, hashesRead, keysRead, ok_bind, done, pure_eq_ok]
        rfl
      have yields : ∀ d e, iterHashLoop (hashVectorAt p hashVector) (readerVectorValue p keyVector)
          h fuel (probeState h nBuckets d)
            = .ok (some ((probeState h nBuckets e).bucket, probeState h nBuckets (e + 1))) →
          setNext p fuel t h (probeState h nBuckets d) =
            .ok (some (key (probePath nBuckets h e), probeState h nBuckets (e + 1))) := by
        intro d e called
        have keyRead := path.keyAt e
        unfold probePath at keyRead
        simp only [setNext, readerSetIterHash, hashesRead, keysRead, ok_bind, called, keyRead,
          pure_eq_ok]
        rfl
      have ran := iterHash_run path enough enough ends yields
      simp only [getSet, readerSetIterHashInit, hashesRead, nHashes, ok_bind, pure_eq_ok]
      rw [iterFind_eq ran, hashBuckets, findSomeM?_map, findSomeM?_map]
      rfl

theorem mem_hashBuckets
    (stored : StoredKeys validated p nBuckets table.nItems (hashVectorAt p table.hashes)
      (readerVectorValue p table.keys) hash key)
    (path : PathRead nBuckets (hashVectorAt p table.hashes) (readerVectorValue p table.keys) hash
      key h gap) {i : Nat} :
    i ∈ hashBuckets nBuckets hash h gap ↔
      i < nBuckets.toNat ∧ (key i).type ≠ .emptySlot ∧ hash i = h := by
  simp only [hashBuckets, List.mem_map, List.mem_filter, List.mem_range'_1, decide_eq_true_eq]
  constructor
  · intro mem
    obtain ⟨d, ⟨⟨-, less⟩, same⟩, rfl⟩ := mem
    exact ⟨stored.path_lt h d, path.occupied d (by omega), same⟩
  · intro has
    obtain ⟨less, occupied, own⟩ := has
    obtain ⟨d, before, here⟩ := stored.met less occupied own path.isEmpty
    exact ⟨d, ⟨⟨by omega, by omega⟩, by rw [here, own]⟩, here⟩

end Loops

/-! ## Lookups in accepted files -/

/-- The result of a search for a bucket that is wanted. -/
def FindsValue (p : OpenFile) (m : Value) (nBuckets : UInt32) (wanted : Nat → Prop) :
    Option Value → Prop
  | none => ∀ i < nBuckets.toNat, ¬wanted i
  | some v => ∃ i < nBuckets.toNat, wanted i ∧ MapValueAt p m i v

theorem FindsValue.isSome_iff {p : OpenFile} {m : Value} {nBuckets : UInt32} {wanted : Nat → Prop}
    {out : Option Value} (finds : FindsValue p m nBuckets wanted out) :
    out.isSome = true ↔ ∃ i < nBuckets.toNat, wanted i := by
  cases out with
  | none => exact ⟨fun no => Bool.noConfusion no, fun ⟨i, less, has⟩ => absurd has (finds i less)⟩
  | some v =>
      obtain ⟨i, less, has, -⟩ := finds
      exact ⟨fun _ => ⟨i, less, has⟩, fun _ => rfl⟩

theorem FindsValue.congr {p : OpenFile} {m : Value} {nBuckets : UInt32} {wanted wanted' : Nat → Prop}
    (same : ∀ i < nBuckets.toNat, wanted i ↔ wanted' i) {out : Option Value} :
    FindsValue p m nBuckets wanted out ↔ FindsValue p m nBuckets wanted' out := by
  cases out with
  | none =>
      apply forall_congr'
      intro i
      apply imp_congr_right
      intro less
      rw [same i less]
  | some v =>
      apply exists_congr
      intro i
      apply and_congr_right
      intro less
      rw [same i less]

theorem MapValueAt.unique {p : OpenFile} {m : Value} {i : Nat} {v w : Value}
    (first : MapValueAt p m i v) (second : MapValueAt p m i w) : v = w := by
  obtain ⟨values, read, at_i⟩ := first
  obtain ⟨values', read', at_i'⟩ := second
  obtain rfl := Except.ok.inj (read.symm.trans read')
  exact Except.ok.inj (at_i.symm.trans at_i')

/-- Where one bucket at most is wanted, the search has one result. -/
theorem FindsValue.unique {p : OpenFile} {m : Value} {nBuckets : UInt32} {wanted : Nat → Prop}
    (single : ∀ i < nBuckets.toNat, ∀ j < nBuckets.toNat, wanted i → wanted j → i = j)
    {out out' : Option Value} (first : FindsValue p m nBuckets wanted out)
    (second : FindsValue p m nBuckets wanted out') : out = out' := by
  cases out with
  | none =>
      cases out' with
      | none => rfl
      | some w =>
          obtain ⟨i, less, has, -⟩ := second
          exact absurd has (first i less)
  | some v =>
      obtain ⟨i, less, has, at_i⟩ := first
      cases out' with
      | none => exact absurd has (second i less)
      | some w =>
          obtain ⟨j, less', has', at_j⟩ := second
          obtain rfl := single i less j less' has has'
          rw [at_i.unique at_j]

section Accepted

variable {fuel : Nat} {buf : List UInt8} {p : OpenFile} {error : Option String} {t : Value}
  {nBuckets : UInt32} {hash : Nat → UInt32} {key : Nat → Value}
  (opened : openB fuel buf = .ok (p, error)) (reach : Reachable p t)
  (buckets : BucketsOf p t nBuckets hash key)
include opened reach buckets

/-- The search of a map finds a value of a key of the hash that the callback holds for. -/
theorem getMap_finds (type : t.type = .mapValueValue) (h : UInt32) (cbK : Value → Res Bool)
    (holds : Value → Prop) (answers : ∀ i < nBuckets.toNat, (key i).type ≠ .emptySlot →
      hash i = h → Answers (cbK (key i)) (holds (key i))) :
    ∃ out, EventuallyReturns (fun fuel => getMap p fuel t h cbK getValue) out ∧
      FindsValue p t nBuckets
        (fun i => (key i).type ≠ .emptySlot ∧ hash i = h ∧ holds (key i)) out := by
  obtain ⟨table, at_t, even, read⟩ := buckets
  have stored := storedKeys_of_openB opened reach at_t even read
  obtain ⟨gap, -, path⟩ := stored.pathRead h
  obtain ⟨value, values⟩ := exists_mapValues type at_t read
  have tests : ∀ i ∈ hashBuckets nBuckets hash h gap, Answers (cbK (key i)) (holds (key i)) := by
    intro i mem
    obtain ⟨less, occupied, own⟩ := (mem_hashBuckets stored path).mp mem
    exact answers i less occupied own
  obtain ⟨out, found, missed, taken⟩ := @search_ok _ _ (fun i => cbK (key i)) value _ _ tests
  refine ⟨out, ⟨gap + 1, fun more le => ?_⟩, ?_⟩
  · exact (getMap_eq type at_t even (stored.path_lt h) path values le cbK getValue).trans found
  · cases out with
    | none =>
        intro i less has
        exact missed rfl i ((mem_hashBuckets stored path).mpr ⟨less, has.1, has.2.1⟩) has.2.2
    | some v =>
        obtain ⟨i, mem, has, rfl⟩ := taken v rfl
        obtain ⟨less, occupied, own⟩ := (mem_hashBuckets stored path).mp mem
        exact ⟨i, less, ⟨occupied, own, has⟩, values i less⟩

/-- The search of a set finds whether there is a key of the hash that the callback holds
for. -/
theorem getSet_finds (type : t.type = .setValue) (h : UInt32) (cbK : Value → Res Bool)
    (holds : Value → Prop) (answers : ∀ i < nBuckets.toNat, (key i).type ≠ .emptySlot →
      hash i = h → Answers (cbK (key i)) (holds (key i))) :
    ∃ found, EventuallyReturns (fun fuel => getSet p fuel t h cbK) found ∧
      (found = true ↔ ∃ i < nBuckets.toNat,
        (key i).type ≠ .emptySlot ∧ hash i = h ∧ holds (key i)) := by
  obtain ⟨table, at_t, even, read⟩ := buckets
  have stored := storedKeys_of_openB opened reach at_t even read
  obtain ⟨gap, -, path⟩ := stored.pathRead h
  have tests : ∀ i ∈ hashBuckets nBuckets hash h gap, Answers (cbK (key i)) (holds (key i)) := by
    intro i mem
    obtain ⟨less, occupied, own⟩ := (mem_hashBuckets stored path).mp mem
    exact answers i less occupied own
  obtain ⟨out, found, missed, taken⟩ :=
    @search_ok _ _ (fun i => cbK (key i)) (fun _ => ()) _ _ tests
  refine ⟨out.isSome, ⟨gap + 1, fun more le => ?_⟩, ?_⟩
  · change getSet p more t h cbK = _
    rw [getSet_eq type at_t even path le, found, map_ok]
  · cases out with
    | none =>
        refine ⟨fun no => Bool.noConfusion no, fun has => ?_⟩
        obtain ⟨i, less, occupied, own, has⟩ := has
        exact absurd has (missed rfl i ((mem_hashBuckets stored path).mpr ⟨less, occupied, own⟩))
    | some v =>
        obtain ⟨i, mem, has, -⟩ := taken v rfl
        obtain ⟨less, occupied, own⟩ := (mem_hashBuckets stored path).mp mem
        exact ⟨fun _ => ⟨i, less, occupied, own, has⟩, fun _ => rfl⟩

end Accepted

/-! ## Integers -/

/-- Some bucket has an I32 or U32 key that is numerically equal to `i`. -/
def HasInt (nBuckets : UInt32) (key : Nat → Value) (i : Int) : Prop :=
  ∃ b < nBuckets.toNat, (key b).IsInt i

/-- The integer lookups of `i` succeed exactly when it is a key, and the value is that of
the key. -/
structure IntLookups (p : OpenFile) (t : Value) (nBuckets : UInt32) (key : Nat → Value)
    (i : Int) : Prop where
  set : t.type = .setValue → ∃ found, EventuallyReturns (fun fuel => isIntInSet p fuel t i) found ∧
    (found = true ↔ HasInt nBuckets key i)
  map : t.type = .mapValueValue →
    ∃ found, EventuallyReturns (fun fuel => isIntInMap p fuel t i) found ∧
      (found = true ↔ HasInt nBuckets key i)
  value : t.type = .mapValueValue →
    ∃ out, EventuallyReturns (fun fuel => getMappingIntToValue p fuel t i) out ∧
      (out.isSome = true ↔ HasInt nBuckets key i) ∧
      ∀ v, out = some v → ∀ b < nBuckets.toNat, (key b).IsInt i → MapValueAt p t b v

theorem Value.IsInt.bounds {v : Value} {i : Int} (isInt : v.IsInt i) :
    -2 ^ 31 ≤ i ∧ i ≤ 2 ^ 32 - 1 := by
  have bound := v.data.toNat_lt
  rcases isInt with ⟨-, value⟩ | ⟨-, value⟩
  · rw [dataI32_eq] at value
    split at value <;> omega
  · omega

theorem Value.IsInt.occupied {v : Value} {i : Int} (isInt : v.IsInt i) : v.type ≠ .emptySlot := by
  intro isEmpty
  rcases isInt with ⟨type, -⟩ | ⟨type, -⟩ <;> rw [isEmpty] at type <;> cases type

/-- Two keys that are one integer compare as equal. -/
theorem Value.IsInt.keyEquals {v w : Value} {i : Int} (isInt : v.IsInt i) (other : w.IsInt i)
    (p : OpenFile) : keyEquals p v w = .ok true := by
  obtain ⟨t, data⟩ := v
  obtain ⟨t', data'⟩ := w
  have read : ∀ d : UInt32, d.toUInt64.toUInt32 = d := fun d => by simp
  -- the two fields that a number of 32 bits is read through agree with `i` where they are used
  have equal : cmpIntFloat t data.toUInt64 t' data'.toUInt64 = 0 := by
    rcases isInt with ⟨rfl, value⟩ | ⟨rfl, value⟩
    · rcases other with ⟨rfl, value'⟩ | ⟨rfl, value'⟩
      · change simpleCmp (dataI32 data.toUInt64.toUInt32) (dataI32 data'.toUInt64.toUInt32) = 0
        rw [read, read, value, value', simpleCmp_self]
      · change (if dataI32 data.toUInt64.toUInt32 < 0 then (-1 : Int)
          else simpleCmp (dataI32 data.toUInt64.toUInt32) (data'.toUInt64.toUInt32.toNat : Int)) = 0
        rw [read, read, value, value', if_neg (by omega), simpleCmp_self]
    · rcases other with ⟨rfl, value'⟩ | ⟨rfl, value'⟩
      · change (if dataI32 data'.toUInt64.toUInt32 < 0 then (-1 : Int)
          else simpleCmp (data.toUInt64.toUInt32.toNat : Int) (dataI32 data'.toUInt64.toUInt32)) = 0
        rw [read, read, value, value', if_neg (by omega), simpleCmp_self]
      · change simpleCmp (data.toUInt64.toUInt32.toNat : Int) (data'.toUInt64.toUInt32.toNat : Int) = 0
        rw [read, read, value, value', simpleCmp_self]
  apply keyEquals_eq_ok.mpr
  refine ⟨0, ?_, rfl⟩
  rw [← equal]
  rcases isInt with ⟨rfl, -⟩ | ⟨rfl, -⟩ <;> rcases other with ⟨rfl, -⟩ | ⟨rfl, -⟩ <;> rfl

/-- The query has the hash of the stored key, but for the two integers whose 32-bit pattern
is all ones. -/
theorem Value.IsInt.hashI64 {v : Value} {i : Int} (isInt : v.IsInt i) :
    hashInt32 i = hashI6432 i ↔ i ≠ -1 ∧ i ≠ 2 ^ 32 - 1 := by
  have bounds := isInt.bounds
  rw [eq_comm, hashI6432_eq_iff (by omega) (by omega), HalfIsRemainder]
  omega

/-- A key of an accepted table passes the test exactly when it is the integer. -/
theorem checkI64_answers {i : Int} {v : Value} (hashable : isHashable v.type = true) :
    Answers (checkI64 i v) (v.IsInt i) := by
  refine ⟨_, rfl, ?_⟩
  rw [decide_eq_true_iff, Value.IsInt]
  obtain ⟨t, data⟩ := v
  cases t with
  | i64 => cases hashable
  | u64 => cases hashable
  | _ => simp [isIntegerType, getIntAsInt64, eq_comm]

section Integers

variable {fuel : Nat} {buf : List UInt8} {p : OpenFile} {error : Option String} {t : Value}
  {nBuckets : UInt32} {hash : Nat → UInt32} {key : Nat → Value}
  (opened : openB fuel buf = .ok (p, error)) (reach : Reachable p t)
  (buckets : BucketsOf p t nBuckets hash key)
include opened reach buckets

omit opened reach in
theorem BucketsOf.isTable : isTableType t.type := by
  obtain ⟨table, at_t, -, -⟩ := buckets
  exact at_t.isTable

/-- The key in a bucket, as the validator has left it. -/
theorem BucketsOf.hashed {b : Nat} (less : b < nBuckets.toNat) :
    isHashable (key b).type = true ∧ hashReader32 p fuel (key b) = .ok (hash b) := by
  obtain ⟨table, at_t, even, read⟩ := buckets
  exact (storedKeys_of_openB opened reach at_t even read).hashes b less

/-- No two buckets have keys that compare as equal in both orders. -/
theorem BucketsOf.unique {b b' : Nat} (less : b < nBuckets.toNat) (less' : b' < nBuckets.toNat)
    (occupied : (key b).type ≠ .emptySlot) (occupied' : (key b').type ≠ .emptySlot)
    (same : hash b = hash b') (equal : keyEquals p (key b) (key b') = .ok true)
    (equal' : keyEquals p (key b') (key b) = .ok true) : b = b' := by
  obtain ⟨table, at_t, even, read⟩ := buckets
  have stored := storedKeys_of_openB opened reach at_t even read
  by_contra differ
  rcases stored.compared less less' differ occupied occupied' same with apart | apart
  · rw [equal] at apart
    cases apart
  · rw [equal'] at apart
    cases apart

/-- The hash of a stored integer. -/
theorem BucketsOf.hash_isInt {b : Nat} (less : b < nBuckets.toNat) {i : Int}
    (isInt : (key b).IsInt i) : hash b = hashInt32 i := by
  have hashed := (BucketsOf.hashed opened reach buckets less).2
  cases fuel with
  | zero => cases hashed
  | succ fuel =>
      rw [isInt.hash] at hashed
      exact (Except.ok.inj hashed).symm

/-- The keys that the search for an integer looks for. -/
theorem BucketsOf.wanted_iff {i : Int} {b : Nat} (less : b < nBuckets.toNat) :
    ((key b).type ≠ .emptySlot ∧ hash b = hashI6432 i ∧ (key b).IsInt i) ↔
      (key b).IsInt i ∧ i ≠ -1 ∧ i ≠ 2 ^ 32 - 1 := by
  constructor
  · intro wanted
    obtain ⟨-, same, isInt⟩ := wanted
    rw [BucketsOf.hash_isInt opened reach buckets less isInt, isInt.hashI64] at same
    exact ⟨isInt, same⟩
  · intro both
    obtain ⟨isInt, plain⟩ := both
    refine ⟨isInt.occupied, ?_, isInt⟩
    rw [BucketsOf.hash_isInt opened reach buckets less isInt]
    exact isInt.hashI64.mpr plain

/-- The test of the keys of the hash of an integer. -/
theorem BucketsOf.answersInt {i : Int} (h : UInt32) : ∀ b < nBuckets.toNat,
    (key b).type ≠ .emptySlot → hash b = h → Answers (checkI64 i (key b)) ((key b).IsInt i) :=
  fun _ less _ _ => checkI64_answers (BucketsOf.hashed opened reach buckets less).1

/-- An integer is the key of one bucket at most. -/
theorem BucketsOf.single_int {i : Int} {b b' : Nat} (less : b < nBuckets.toNat)
    (less' : b' < nBuckets.toNat) (isInt : (key b).IsInt i) (isInt' : (key b').IsInt i) : b = b' := by
  have hashes := (BucketsOf.hash_isInt opened reach buckets less isInt).trans
    (BucketsOf.hash_isInt opened reach buckets less' isInt').symm
  exact BucketsOf.unique opened reach buckets less less' isInt.occupied isInt'.occupied hashes
    (isInt.keyEquals isInt' p) (isInt'.keyEquals isInt p)

/-- The search of a map for an integer finds it unless its pattern is that of all ones. -/
theorem BucketsOf.findsInt (type : t.type = .mapValueValue) (i : Int) :
    ∃ out, EventuallyReturns (fun fuel => getMappingIntToValue p fuel t i) out ∧
      FindsValue p t nBuckets (fun b => (key b).IsInt i ∧ i ≠ -1 ∧ i ≠ 2 ^ 32 - 1) out := by
  obtain ⟨out, returns, finds⟩ := getMap_finds opened reach buckets type (hashI6432 i) (checkI64 i)
    (·.IsInt i) (BucketsOf.answersInt opened reach buckets _)
  refine ⟨out, returns, (FindsValue.congr fun b less => ?_).mp finds⟩
  exact BucketsOf.wanted_iff opened reach buckets less

/-- The search of a set for it. -/
theorem BucketsOf.findsIntInSet (type : t.type = .setValue) (i : Int) :
    ∃ found, EventuallyReturns (fun fuel => isIntInSet p fuel t i) found ∧
      (found = true ↔ ∃ b < nBuckets.toNat, (key b).IsInt i ∧ i ≠ -1 ∧ i ≠ 2 ^ 32 - 1) := by
  obtain ⟨found, returns, correct⟩ := getSet_finds opened reach buckets type (hashI6432 i)
    (checkI64 i) (·.IsInt i) (BucketsOf.answersInt opened reach buckets _)
  refine ⟨found, returns, correct.trans ?_⟩
  apply exists_congr
  intro b
  apply and_congr_right
  intro less
  exact BucketsOf.wanted_iff opened reach buckets less

/-- The integer lookups in a set or map of an accepted file are right exactly when the
integer is none of the two of the pattern of all ones, or is not stored. -/
theorem intLookups_iff {i : Int} :
    IntLookups p t nBuckets key i ↔
      (i ≠ -1 ∧ i ≠ 2 ^ 32 - 1) ∨ ¬HasInt nBuckets key i := by
  have wanted : (∃ b < nBuckets.toNat, (key b).IsInt i ∧ i ≠ -1 ∧ i ≠ 2 ^ 32 - 1) ↔
      HasInt nBuckets key i ∧ i ≠ -1 ∧ i ≠ 2 ^ 32 - 1 := by
    constructor
    · intro has
      obtain ⟨b, less, isInt, plain⟩ := has
      exact ⟨⟨b, less, isInt⟩, plain⟩
    · intro both
      obtain ⟨⟨b, less, isInt⟩, plain⟩ := both
      exact ⟨b, less, isInt, plain⟩
  constructor
  · intro right
    by_cases stored : HasInt nBuckets key i
    · apply Or.inl
      rcases BucketsOf.isTable buckets with type | type
      · obtain ⟨found, returns, correct⟩ := right.set type
        obtain ⟨found', returns', correct'⟩ := BucketsOf.findsIntInSet opened reach buckets type i
        cases returns.unique returns'
        exact (wanted.mp (correct'.mp (correct.mpr stored))).2
      · obtain ⟨out, returns, correct, -⟩ := right.value type
        obtain ⟨out', returns', finds⟩ := BucketsOf.findsInt opened reach buckets type i
        cases returns.unique returns'
        exact (wanted.mp (finds.isSome_iff.mp (correct.mpr stored))).2
    · exact Or.inr stored
  · intro plain
    have same : (∃ b < nBuckets.toNat, (key b).IsInt i ∧ i ≠ -1 ∧ i ≠ 2 ^ 32 - 1) ↔
        HasInt nBuckets key i := by
      rw [wanted]
      refine ⟨fun both => both.1, fun has => ⟨has, ?_⟩⟩
      rcases plain with plain | missing
      · exact plain
      · exact absurd has missing
    refine ⟨fun type => ?_, fun type => ?_, fun type => ?_⟩
    · obtain ⟨found, returns, correct⟩ := BucketsOf.findsIntInSet opened reach buckets type i
      exact ⟨found, returns, correct.trans same⟩
    · obtain ⟨out, returns, finds⟩ := BucketsOf.findsInt opened reach buckets type i
      exact ⟨out.isSome, returns.map Option.isSome, finds.isSome_iff.trans same⟩
    · obtain ⟨out, returns, finds⟩ := BucketsOf.findsInt opened reach buckets type i
      refine ⟨out, returns, finds.isSome_iff.trans same, fun v taken b less isInt => ?_⟩
      subst taken
      obtain ⟨b', less', ⟨isInt', -⟩, at_b'⟩ := finds
      rw [BucketsOf.single_int opened reach buckets less less' isInt isInt']
      exact at_b'

end Integers

/-! ## A key that is not found -/

/-- A set of the one key -1. -/
def minusOneSetFile : List UInt8 :=
  bytesValue ⟨.setValue, 0⟩ ++ bytesU32 0 ++ bytesU32 2 ++ bytesU32 0 ++ bytesU32 1 ++ bytesU32 0 ++
    bytesU32 2 ++
    bytesU64 0 ++ bytesU64 12 ++ bytesU64 32 ++
    bytesU32 2 ++ bytesU32 0 ++ bytesU32 0xFFFFFFFF ++
    bytesU32 2 ++ bytesValue ⟨.emptySlot, 0⟩ ++ bytesValue ⟨.i32, 0xFFFFFFFF⟩ ++
    bytesU32 1 ++ bytesU32 0 ++ bytesValue ⟨.vectorU32, 0⟩ ++ bytesValue ⟨.vectorValueHashable, 1⟩

/-- The file opened. -/
def minusOneSetOpened : OpenFile where
  header := ⟨⟨.setValue, 0⟩, 0, 2, 0, 1, 0, 2⟩
  stringUnicodeOffsets := []
  vectorOffsets := [0, 12]
  bitvectorOffsets := []
  setOffsets := [32]
  mapOffsets := []
  heap := minusOneSetFile.drop 56

set_option maxRecDepth 4000 in
theorem openB_minusOneSetFile : openB 20 minusOneSetFile = .ok (minusOneSetOpened, none) := by
  decide +kernel

theorem intLookups_iff_minusOne : ∃ nBuckets hash key,
    BucketsOf minusOneSetOpened ⟨.setValue, 0⟩ nBuckets hash key ∧
      (IntLookups minusOneSetOpened ⟨.setValue, 0⟩ nBuckets key (-1) ↔
        ((-1 : Int) ≠ -1 ∧ (-1 : Int) ≠ 2 ^ 32 - 1) ∨ ¬HasInt nBuckets key (-1)) := by
  obtain ⟨nBuckets, hash, key, buckets⟩ :=
    exists_bucketsOf openB_minusOneSetFile (.root _) (Or.inl rfl)
  exact ⟨nBuckets, hash, key, buckets, intLookups_iff openB_minusOneSetFile (.root _) buckets⟩

/-- The set has -1, and the lookup of -1 fails. -/
theorem minusOne_not_found : openB 20 minusOneSetFile = .ok (minusOneSetOpened, none) ∧
    ∃ nBuckets hash key, BucketsOf minusOneSetOpened ⟨.setValue, 0⟩ nBuckets hash key ∧
      HasInt nBuckets key (-1) ∧ isIntInSet minusOneSetOpened 20 ⟨.setValue, 0⟩ (-1) = .ok false ∧
      ¬IntLookups minusOneSetOpened ⟨.setValue, 0⟩ nBuckets key (-1) := by
  obtain ⟨nBuckets, hash, key, buckets⟩ :=
    exists_bucketsOf openB_minusOneSetFile (.root _) (Or.inl rfl)
  have lookup : ∀ more, isIntInSet minusOneSetOpened (more + 1) ⟨.setValue, 0⟩ (-1) = .ok false := by
    intro more
    rfl
  have stored : HasInt nBuckets key (-1) := by
    obtain ⟨table, at_t, even, read⟩ := buckets
    have at_t' : TableAt minusOneSetOpened ⟨.setValue, 0⟩
        ⟨⟨.vectorU32, 0⟩, ⟨.vectorValueHashable, 1⟩, none, 1⟩ := .set rfl rfl rfl rfl
    cases at_t.unique at_t'
    have count : readerVectorNItems minusOneSetOpened ⟨.vectorValueHashable, 1⟩ = .ok 2 := rfl
    cases even.2.1.symm.trans count
    have here : readerVectorValue minusOneSetOpened ⟨.vectorValueHashable, 1⟩ 1 =
        .ok ⟨.i32, 0xFFFFFFFF⟩ := rfl
    have same : key 1 = ⟨.i32, 0xFFFFFFFF⟩ :=
      Except.ok.inj ((read.buckets.keyAt 1 (by decide)).symm.trans here)
    exact ⟨1, by decide, Or.inl (by rw [same]; exact ⟨rfl, rfl⟩)⟩
  refine ⟨openB_minusOneSetFile, nBuckets, hash, key, buckets, stored, lookup 19, fun right => ?_⟩
  obtain ⟨found, ⟨enough, returned⟩, correct⟩ := right.set rfl
  have missed := (returned (enough + 1) (Nat.le_succ enough)).symm.trans (lookup enough)
  cases missed
  cases correct.mpr stored

/-! ## A file with a map -/

/-- A map of the one key "ab". -/
def abMapFile : List UInt8 :=
  bytesValue ⟨.mapValueValue, 0⟩ ++ bytesU32 1 ++ bytesU32 3 ++ bytesU32 0 ++ bytesU32 0 ++
    bytesU32 1 ++ bytesU32 2 ++
    bytesU64 0 ++ bytesU64 8 ++ bytesU64 20 ++ bytesU64 40 ++ bytesU64 60 ++
    bytesU32 2 ++ [97, 98, 0, 0] ++
    bytesU32 2 ++ bytesU32 0 ++ bytesU32 2745208707 ++
    bytesU32 2 ++ bytesValue ⟨.emptySlot, 0⟩ ++ bytesValue ⟨.string, 0⟩ ++
    bytesU32 2 ++ bytesValue ⟨.emptySlot, 0⟩ ++ bytesValue ⟨.null, 0⟩ ++
    bytesU32 1 ++ bytesU32 0 ++ bytesValue ⟨.vectorU32, 0⟩ ++ bytesValue ⟨.vectorValueHashable, 1⟩ ++
    bytesValue ⟨.vectorValue, 2⟩

/-- The file opened. -/
def abMapOpened : OpenFile where
  header := ⟨⟨.mapValueValue, 0⟩, 1, 3, 0, 0, 1, 2⟩
  stringUnicodeOffsets := [0]
  vectorOffsets := [8, 20, 40]
  bitvectorOffsets := []
  setOffsets := []
  mapOffsets := [60]
  heap := abMapFile.drop 72

set_option maxRecDepth 8000 in
theorem openB_abMapFile : openB 20 abMapFile = .ok (abMapOpened, none) := by decide +kernel

end Pointless
