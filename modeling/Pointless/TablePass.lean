import Pointless.MarkerSound
import Pointless.TableCheck

/-!
# The second and the third pass

The three passes come to the containers in one order, so that the third pass is the
row of the checks of the tables in that order. `escapes_hashTables` says when the third
pass leaves the buffer.
-/

namespace Pointless

open ExceptRules DepthFirst

/-! ## Sets and maps -/

/-- What the header of a set or a map refers to; `values` is there for a map. -/
structure Table where
  hashes : Value
  keys : Value
  values : Option Value
  nItems : UInt32
  deriving DecidableEq, Repr

/-- The table of a set or a map. -/
inductive TableAt (p : OpenFile) (t : Value) : Table → Prop where
  | set {hashes keys : Value} {nItems : UInt32} : t.type = .setValue →
      setHashVector p t = .ok hashes → setKeyVector p t = .ok keys →
      readerSetNItems p t = .ok nItems → TableAt p t ⟨hashes, keys, none, nItems⟩
  | map {hashes keys values : Value} {nItems : UInt32} : t.type = .mapValueValue →
      mapHashVector p t = .ok hashes → mapKeyVector p t = .ok keys →
      mapValueVector p t = .ok values → readerMapNItems p t = .ok nItems →
      TableAt p t ⟨hashes, keys, some values, nItems⟩

/-- Which values are tables. -/
def isTableType (t : ValueType) : Prop := t = .setValue ∨ t = .mapValueValue

/-- The vectors of a table have one length. -/
def Table.Even (p : OpenFile) (table : Table) (nBuckets : UInt32) : Prop :=
  readerVectorNItems p table.hashes = .ok nBuckets ∧
    readerVectorNItems p table.keys = .ok nBuckets ∧
    ∀ values ∈ table.values, readerVectorNItems p values = .ok nBuckets

/-- The vectors of a table can be read. -/
structure TableRead (p : OpenFile) (table : Table) (nBuckets : UInt32) (hash : Nat → UInt32)
    (key : Nat → Value) : Prop where
  buckets : BucketsRead p nBuckets (hashVectorAt p table.hashes) (readerVectorValue p table.keys)
    hash key
  valueAt : ∀ values ∈ table.values, ∀ i < nBuckets.toNat,
    ∃ value, readerVectorValue p values i = .ok value

/-- `hashTableValidate` on the vectors of a table. -/
def Table.validate (fuel : Nat) (p : OpenFile) (table : Table) (nBuckets : UInt32) : Res Unit :=
  hashTableValidate fuel p nBuckets (hashVectorAt p table.hashes) (readerVectorValue p table.keys)
    table.nItems (table.values.map (readerVectorValue p))

section Tables

variable {p : OpenFile} {t : Value}

theorem TableAt.isTable {table : Table} (at_t : TableAt p t table) : isTableType t.type := by
  cases at_t with
  | set type => exact Or.inl type
  | map type => exact Or.inr type

/-- A set or map has one table. -/
theorem TableAt.unique {table table' : Table} (first : TableAt p t table)
    (second : TableAt p t table') : table = table' := by
  cases first with
  | set type hashes keys nItems =>
      cases second with
      | set type' hashes' keys' nItems' =>
          rw [hashes] at hashes'
          rw [keys] at keys'
          rw [nItems] at nItems'
          cases hashes'
          cases keys'
          cases nItems'
          rfl
      | map type' =>
          rw [type] at type'
          cases type'
  | map type hashes keys values nItems =>
      cases second with
      | set type' =>
          rw [type] at type'
          cases type'
      | map type' hashes' keys' values' nItems' =>
          rw [hashes] at hashes'
          rw [keys] at keys'
          rw [values] at values'
          rw [nItems] at nItems'
          cases hashes'
          cases keys'
          cases values'
          cases nItems'
          rfl

/-- What is known of the table of a reachable set or map. -/
structure TableAt.Known (p : OpenFile) (table : Table) : Prop where
  hashType : table.hashes.type = .vectorU32
  hashReach : Reachable p table.hashes
  keyType : table.keys.type = .vectorValueHashable
  keyReach : Reachable p table.keys
  valueType : ∀ values ∈ table.values,
    values.type = .vectorValue ∨ values.type = .vectorValueHashable
  valueReach : ∀ values ∈ table.values, Reachable p values

theorem OpenFile.Sound.table (sound : p.Sound) (reach : Reachable p t)
    (type : isTableType t.type) : ∃ table, TableAt p t table ∧ TableAt.Known p table := by
  rcases type with type | type
  · obtain ⟨hashes, keys, n, hashesRead, keysRead, count, hashType, keyType, hashReach, keyReach⟩ :=
      sound.setVectors reach type
    refine ⟨_, .set type hashesRead keysRead count, hashType, hashReach, keyType, keyReach, ?_, ?_⟩
    · exact fun values mem => by cases mem
    · exact fun values mem => by cases mem
  · obtain ⟨hashes, keys, values, n, hashesRead, keysRead, valuesRead, count, hashType, keyType,
      valueType, hashReach, keyReach, valueReach⟩ := sound.mapVectors reach type
    refine ⟨_, .map type hashesRead keysRead valuesRead count, hashType, hashReach, keyType,
      keyReach, ?_, ?_⟩
    · intro values' mem
      cases mem
      exact valueType.symm
    · intro values' mem
      cases mem
      exact valueReach

/-- The vectors of a table of one length can be read. -/
theorem OpenFile.Sound.tableRead (sound : p.Sound) {table : Table} (known : TableAt.Known p table)
    {nBuckets : UInt32} (even : table.Even p nBuckets) :
    ∃ hash key, TableRead p table nBuckets hash key := by
  obtain ⟨nHashes, nKeys, nValues⟩ := even
  obtain ⟨n, count, hashes⟩ := sound.hashes known.hashReach known.hashType
  rw [nHashes] at count
  cases count
  obtain ⟨m, count, keys⟩ := sound.items known.keyReach (Or.inr known.keyType)
  rw [nKeys] at count
  cases count
  choose! hash hashRead using hashes
  have keys' : ∀ i, ∃ item, i < nBuckets.toNat →
      readerVectorValue p table.keys i = .ok item ∧ Reachable p item := by
    intro i
    by_cases less : i < nBuckets.toNat
    · obtain ⟨item, read⟩ := keys i less
      exact ⟨item, fun _ => read⟩
    · exact ⟨p.root, fun bad => absurd bad less⟩
  choose key keyRead using keys'
  refine ⟨hash, key, ⟨hashRead, fun i less => (keyRead i less).1,
    fun i less => (keyRead i less).2⟩, fun values mem i less => ?_⟩
  obtain ⟨l, count, items⟩ := sound.items (known.valueReach values mem) (known.valueType values mem)
  rw [nValues values mem] at count
  cases count
  obtain ⟨item, read, -⟩ := items i less
  exact ⟨item, read⟩

/-- What the third pass does at a set or map. -/
theorem OpenFile.Sound.tablePass (sound : p.Sound) {table : Table} (at_t : TableAt p t table)
    (known : TableAt.Known p table) :
    ((¬∃ nBuckets, table.Even p nBuckets) ∧
      ∃ message, ∀ fuel, passCheck p (.hashTables fuel) t = fail message) ∨
    ∃ nBuckets, table.Even p nBuckets ∧
      ∀ fuel, passCheck p (.hashTables fuel) t = table.validate fuel p nBuckets := by
  obtain ⟨nHash, hashCount⟩ := sound.nItems known.hashReach (by rw [known.hashType]; rfl)
  obtain ⟨nKeys, keyCount⟩ := sound.nItems known.keyReach (by rw [known.keyType]; rfl)
  cases at_t with
  | set type hashes keys nItems =>
      have pass : ∀ fuel, passCheck p (.hashTables fuel) t = validateSetComplicated fuel p t := by
        intro fuel
        simp [passCheck, type]
      simp only [pass, validateSetComplicated, hashes, keys, ok_bind, hashCount, keyCount, nItems]
      by_cases same : nHash = nKeys
      · refine Or.inr ⟨nKeys, ⟨same ▸ hashCount, keyCount, fun values mem => by cases mem⟩,
          fun fuel => ?_⟩
        rw [if_neg (not_not.mpr same)]
        rfl
      · refine Or.inl ⟨?_, _, fun fuel => if_pos same⟩
        rintro ⟨n, hashCount', keyCount', -⟩
        rw [hashCount] at hashCount'
        rw [keyCount] at keyCount'
        cases hashCount'
        cases keyCount'
        exact same rfl
  | @map _ _ values _ type hashes keys valuesRead nItems =>
      have valueType : isVectorType values.type = true := by
        rcases known.valueType values rfl with type | type <;> rw [type] <;> rfl
      obtain ⟨nValues, valueCount⟩ := sound.nItems (known.valueReach values rfl) valueType
      have pass : ∀ fuel, passCheck p (.hashTables fuel) t = validateMapComplicated fuel p t := by
        intro fuel
        simp [passCheck, type]
      simp only [pass, validateMapComplicated, hashes, keys, valuesRead, ok_bind, hashCount,
        keyCount, valueCount, nItems]
      by_cases differ : nHash ≠ nKeys ∨ nHash ≠ nValues
      · refine Or.inl ⟨?_, _, fun fuel => if_pos differ⟩
        rintro ⟨n, hashCount', keyCount', valueCount'⟩
        have valueCount' := valueCount' values rfl
        rw [hashCount] at hashCount'
        rw [keyCount] at keyCount'
        rw [valueCount] at valueCount'
        cases hashCount'
        cases keyCount'
        cases valueCount'
        rcases differ with bad | bad <;> exact bad rfl
      · push Not at differ
        obtain ⟨rfl, rfl⟩ := differ
        refine Or.inr ⟨nHash, ⟨hashCount, keyCount, fun values' mem => ?_⟩, fun fuel => ?_⟩
        · cases mem
          exact valueCount
        · rw [if_neg (by simp)]
          rfl

/-- The probe of a key of the table, whose slots have been checked before, meets a
clash. -/
def TableClash (fuel : Nat) (p : OpenFile) (t : Value) : Prop :=
  ∃ table nBuckets, TableAt p t table ∧ table.Even p nBuckets ∧
    tableCounts nBuckets (readerVectorValue p table.keys) table.nItems
      (table.values.map (readerVectorValue p)) = .ok () ∧
    (∀ i < nBuckets.toNat, checkSlotHash fuel p (hashVectorAt p table.hashes)
      (readerVectorValue p table.keys) i = .ok ()) ∧
    ∃ i < nBuckets.toNat, SlotClash fuel p nBuckets (hashVectorAt p table.hashes)
      (readerVectorValue p table.keys) i

theorem Table.Even.unique {table : Table} {n m : UInt32} (first : table.Even p n)
    (second : table.Even p m) : n = m := by
  have same := second.1
  rw [first.1] at same
  exact Except.ok.inj same

theorem TableRead.valueRead {table : Table} {nBuckets : UInt32} {hash : Nat → UInt32}
    {key : Nat → Value} (read : TableRead p table nBuckets hash key) :
    ∀ valueAt ∈ table.values.map (readerVectorValue p), ∀ i < nBuckets.toNat,
      ∃ value, valueAt i = .ok value := by
  intro valueAt mem
  obtain ⟨values, valuesMem, rfl⟩ := Option.mem_map.mp mem
  exact read.valueAt values valuesMem

/-- Where the third pass leaves the buffer at a reachable value. -/
theorem escapes_passCheck (sound : p.Sound) (reach : Reachable p t) (fuel : Nat) :
    Escapes (passCheck p (.hashTables fuel) t) ↔ TableClash fuel p t := by
  by_cases type : isTableType t.type
  · obtain ⟨table, at_t, known⟩ := sound.table reach type
    rcases sound.tablePass at_t known with ⟨uneven, message, pass⟩ | ⟨nBuckets, even, pass⟩
    · rw [pass fuel]
      constructor
      · exact fun escapes => absurd escapes not_escapes_fail
      · rintro ⟨table', nBuckets, at_t', even, -⟩
        rw [at_t'.unique at_t] at even
        exact absurd ⟨nBuckets, even⟩ uneven
    · obtain ⟨hash, key, read⟩ := sound.tableRead known even
      rw [pass fuel, Table.validate, escapes_hashTableValidate sound read.buckets read.valueRead]
      constructor
      · exact fun clash => ⟨table, nBuckets, at_t, even, clash⟩
      · rintro ⟨table', nBuckets', at_t', even', clash⟩
        have same := at_t'.unique at_t
        subst same
        have same := even'.unique even
        subst same
        exact clash
  · have nothing : passCheck p (.hashTables fuel) t = .ok () := by
      have notMap : t.type ≠ .mapValueValue := fun bad => type (Or.inr bad)
      have notSet : t.type ≠ .setValue := fun bad => type (Or.inl bad)
      simp [passCheck, notMap, notSet]
    rw [nothing]
    constructor
    · exact fun escapes => absurd escapes (not_escapes_ok ())
    · rintro ⟨table, nBuckets, at_t, -⟩
      exact absurd at_t.isTable type

end Tables

/-! ## The order of the passes -/

/-- The visitor of the last two passes without their checks. -/
def visitedCb (v : Value) (depth : Nat) (s : Visited) : Res (Action × Visited) := do
  if maxDepth ≤ depth then fail "maximum depth exceeded"
  else
    let marked ← markVisited v s
    match marked with
    | none => pure (.moveUp, s)
    | some s => pure (.visitChildren, s)

theorem validatePassCb_eq {p : OpenFile} {pass : ValidatePass}
    (later : ∀ v, passRef p pass v = .ok ()) :
    validatePassCb p pass = checking visitedCb (passCheck p pass) := by
  funext v depth s
  unfold validatePassCb checking visitedCb
  by_cases deep : maxDepth ≤ depth
  · rw [if_pos deep, if_pos deep]
    rfl
  · rw [if_neg deep, if_neg deep, later v, ok_bind]
    cases markVisited v s with
    | error e => rfl
    | ok marked => cases marked <;> rfl

/-- The values in the order in which the passes come to them for the first time. -/
def passOrder (p : OpenFile) : Res (List Value) :=
  (fun t => t.2) <$> walk p (listing visitedCb) (Visited.calloc p.header, [])

section Order

variable {p : OpenFile}

/-- After the second pass the third is a row of checks. -/
theorem hashTables_pass {cycleMarker : Bitmask}
    (passed : validatePass p (.cycles cycleMarker) = .ok ()) :
    ∃ order, passOrder p = .ok order ∧
      ∀ fuel, validatePass p (.hashTables fuel)
        = order.forM (passCheck p (.hashTables fuel)) := by
  obtain ⟨t, walked, -⟩ := bind_eq_ok.mp passed
  rw [validatePassCb_eq fun _ => rfl] at walked
  obtain ⟨order, listed⟩ := walk_listing walked []
  rw [List.nil_append] at listed
  refine ⟨order, by rw [passOrder, walk, listed]; rfl, fun fuel => ?_⟩
  rw [validatePass, validatePassCb_eq fun _ => rfl, walk, walk_checking_of_listing listed]
  cases order.forM (passCheck p (.hashTables fuel)) <;> rfl

theorem visitedCb_deep {v : Value} {depth : Nat} {s : Visited} (deep : maxDepth ≤ depth) :
    ∃ e, visitedCb v depth s = .error e := by
  rw [visitedCb, if_pos deep]
  exact ⟨_, rfl⟩

/-- The passes only come to reachable values. -/
theorem passOrder_reachable {order : List Value} (listed : passOrder p = .ok order) :
    ∀ v ∈ order, Reachable p v := by
  have walked : Post (fun t : Visited × List Value => ∀ v ∈ t.2, Reachable p v) (fun _ => True)
      (walk p (listing visitedCb) (Visited.calloc p.header, [])) := by
    refine walk_post (Reachable p) maxDepth ?_ ?_ ?_ (by omega) (by omega) (.root p) ?_
    · intro v reach depth s held
      rw [listing]
      have visited : Post (fun _ => True) (fun _ => True) (visitedCb v depth s.1) := by
        cases visitedCb v depth s.1 <;> exact trivial
      refine Post.bind visited fun result _ _ => ?_
      obtain ⟨action, s'⟩ := result
      cases action with
      | moveUp => exact held
      | visitChildren =>
          intro w mem
          rcases List.mem_append.mp mem with before | last
          · exact held w before
          · rw [List.mem_singleton.mp last]
            exact reach
    · intro v reach depth s held s' _
      cases read : walkChildren p v with
      | error e => exact trivial
      | ok nodes =>
          intro node mem
          cases node with
          | error e => exact trivial
          | ok w => exact reach.child read mem
    · intro v depth s deep
      obtain ⟨e, stopped⟩ := visitedCb_deep deep
      exact ⟨e, by rw [listing, stopped]; rfl⟩
    · exact fun v mem => absurd mem List.not_mem_nil
  obtain ⟨t, returned, rfl⟩ := map_eq_ok.mp listed
  exact walked.of_ok returned

/-- The third pass gets to a table, and there to the probe of a key that meets a clash. -/
def FileClash (fuel : Nat) (p : OpenFile) : Prop :=
  ∃ before t after, passOrder p = .ok (before ++ t :: after) ∧
    before.forM (passCheck p (.hashTables fuel)) = .ok () ∧ TableClash fuel p t

theorem escapes_hashTables (sound : p.Sound) {cycleMarker : Bitmask}
    (passed : validatePass p (.cycles cycleMarker) = .ok ()) (fuel : Nat) :
    Escapes (validatePass p (.hashTables fuel)) ↔ FileClash fuel p := by
  obtain ⟨order, listed, pass⟩ := hashTables_pass passed
  have reach := passOrder_reachable listed
  rw [pass fuel, escapes_forM]
  constructor
  · rintro ⟨before, t, after, rfl, checked, escapes⟩
    refine ⟨before, t, after, listed, checked, ?_⟩
    exact (escapes_passCheck sound (reach t (by simp)) fuel).mp escapes
  · rintro ⟨before, t, after, listed', checked, clash⟩
    rw [listed] at listed'
    cases listed'
    refine ⟨before, t, after, rfl, checked, ?_⟩
    exact (escapes_passCheck sound (reach t (by simp)) fuel).mpr clash

/-- The second pass stays inside, when the cycle marker has a bit for every container. -/
theorem cycles_inside (sound : p.Sound) (fit : ContainersFit p) {cycleMarker : Bitmask}
    (size : cycleMarker.nBytes = iceil (nContainers p).toNat 8) :
    StaysInside (validatePass p (.cycles cycleMarker)) := by
  refine StaysInside.bind ?_ fun _ _ => trivial
  have walked : Post (Visited.Sized p.header) Stop.Inside
      (walk p (validatePassCb p (.cycles cycleMarker)) (.calloc p.header)) := by
    refine walk_post (Reachable p) maxDepth ?_ ?_
      (fun v depth s deep => validatePassCb_deep deep) (by omega) (by omega) (.root p)
      (Visited.calloc_sized p.header)
    · intro v reach depth s held
      have refInside : StaysInside (passRef p (.cycles cycleMarker) v) := trivial
      refine validatePassCb_inside refInside (fun _ => (sound.checked v reach).ref)
        (fun _ => ?_) held
      unfold passCheck
      dsimp only
      split
      case isFalse => exact trivial
      case isTrue hashable =>
        have room := fit v reach (by unfold readerIsContainer; rw [hashable])
        rw [Bitmask.isSet, if_pos (by rw [size]; exact room), ok_bind]
        split
        · exact post_fail
        · exact trivial
    · intro v reach depth s held s' _
      obtain ⟨nodes, read, all⟩ := walkChildren_checked sound.sized (sound.checked v reach)
      rw [read]
      intro node mem
      obtain ⟨w, rfl⟩ := all node mem
      exact reach.child read mem
  exact walked.mono (fun _ _ => trivial) fun _ inside => inside

end Order

end Pointless
