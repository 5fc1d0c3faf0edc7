import Pointless.Lib.Acyclic
import Pointless.Lib.Fuel
import Pointless.ValidateSound

/-!
# The hash of a value in an opened file

In a sound file the hash of a value returns exactly when the values it goes on to
are hashable and none of them lies on a cycle. The validator does not check this of
every vector that is tagged as hashable.
-/

namespace Pointless

open ByteMemory ExceptRules DepthFirst Acyclic Relation Fuel

/-! ## Finitely many values -/

theorem finite_u32 : Finite UInt32 :=
  Finite.of_injective (fun n : UInt32 => n.toFin) fun _ _ same => UInt32.toFin_inj.mp same

instance : Finite ValueType := by
  have := finite_u32
  refine Finite.of_surjective (Sum.elim ValueType.ofCode ValueType.unknown) fun t => ?_
  cases t with
  | unknown code => exact ⟨.inr code, rfl⟩
  | _ => exact ⟨.inl _, ValueType.ofCode_code trivial⟩

instance : Finite Value := by
  have := finite_u32
  refine Finite.of_injective (fun v : Value => (v.type, v.data)) fun v w same => ?_
  cases v
  cases w
  cases same
  rfl

/-! ## When a hash returns -/

/-- The hash of a value returns, so that it ends and never comes to a value without
a hash callback. -/
def HashReturns (p : OpenFile) (v : Value) : Prop := ∃ fuel hash, hashReader32 p fuel v = .ok hash

/-- The values that a hash goes on to are hashable, and none of them goes on to
itself. -/
structure HashableInside (p : OpenFile) (v : Value) : Prop where
  types : ∀ w, ReflTransGen (HashItem p) v w → isHashable w.type = true
  acyclic : NoCycle (HashItem p) v

section Hashes

variable {p : OpenFile}

theorem hashReader32_hashable {fuel : Nat} {v : Value} {hash : UInt32}
    (hashed : hashReader32 p fuel v = .ok hash) : isHashable v.type = true := by
  cases fuel with
  | zero => cases hashed
  | succ fuel =>
      rw [isHashable]
      rw [hashReader32] at hashed
      cases func : hashFunc32 v.type with
      | some f => rfl
      | none =>
          rw [func] at hashed
          cases hashed

theorem hashReaderVectorItem_below {rec rec' : Value → Res UInt32} {v : Value}
    (each : ∀ w, Below (.fault .diverges) (rec w) (rec' w)) (i : Nat) :
    Below (.fault .diverges) (hashReaderVectorItem rec p v i) (hashReaderVectorItem rec' p v i) := by
  unfold hashReaderVectorItem
  split
  case h_1 => exact Below.bind (Below.refl _) each
  all_goals exact Below.refl _

/-- With more fuel a hash only gets further. -/
theorem hashReader32_grows (v : Value) : Grows (.fault .diverges) fun fuel => hashReader32 p fuel v := by
  intro fuel
  induction fuel generalizing v with
  | zero => exact Or.inl rfl
  | succ fuel ih =>
      change Below _ (hashReader32 p (fuel + 1) v) (hashReader32 p (fuel + 1 + 1) v)
      unfold hashReader32
      split
      case h_7 =>
        refine Below.bind (Below.refl _) fun n => Below.bind ?_ fun _ => Below.refl _
        refine Below.foldlM (fun s i => Below.map _ ?_) _ _
        exact hashReaderVectorItem_below (fun w => ih w) i
      all_goals exact Below.refl _

theorem hashReader32_le {fuel fuel' : Nat} (enough : fuel ≤ fuel') {v : Value} {hash : UInt32}
    (hashed : hashReader32 p fuel v = .ok hash) : hashReader32 p fuel' v = .ok hash :=
  ((hashReader32_grows v).le enough).ok hashed

/-- A hash that returns has hashed the items of its vector. -/
theorem hashReader32_item {fuel : Nat} {v w : Value} {hash : UInt32}
    (hashed : hashReader32 p (fuel + 1) v = .ok hash) (item : HashItem p v w) :
    ∃ itemHash, hashReader32 p fuel w = .ok itemHash := by
  obtain ⟨type, n, i, count, less, read⟩ := item
  rw [hashReader32, type] at hashed
  change (do
    let nItems ← readerVectorNItems p v
    hashReaderVector32Priv (hashReader32 p fuel) p v 0 nItems) = .ok hash at hashed
  rw [count, ok_bind, hashReaderVector32Priv, vectorHash32] at hashed
  obtain ⟨s, loop, -⟩ := bind_eq_ok.mp hashed
  have mem : i ∈ List.range' (0 : UInt32).toNat ((n + 0).toNat - (0 : UInt32).toNat) := by
    rw [UInt32.add_zero]
    exact List.mem_range'.mpr ⟨i, less, by simp⟩
  obtain ⟨s', s'', step⟩ := foldlM_ok_mem loop mem
  obtain ⟨itemHash, itemHashed, -⟩ := map_eq_ok.mp step
  unfold hashReaderVectorItem at itemHashed
  simp only [type, read, ok_bind] at itemHashed
  exact ⟨itemHash, itemHashed⟩

theorem HashReturns.item {v w : Value} (returns : HashReturns p v) (item : HashItem p v w) :
    HashReturns p w := by
  obtain ⟨fuel, hash, hashed⟩ := returns
  cases fuel with
  | zero => cases hashed
  | succ fuel =>
      obtain ⟨itemHash, itemHashed⟩ := hashReader32_item hashed item
      exact ⟨fuel, itemHash, itemHashed⟩

theorem acc_of_hashed {fuel : Nat} {v : Value} {hash : UInt32}
    (hashed : hashReader32 p fuel v = .ok hash) : Acc (fun x y => HashItem p y x) v := by
  induction fuel generalizing v hash with
  | zero => cases hashed
  | succ fuel ih =>
      refine Acc.intro v fun w item => ?_
      obtain ⟨itemHash, itemHashed⟩ := hashReader32_item hashed item
      exact ih itemHashed

theorem HashReturns.inside {v : Value} (returns : HashReturns p v) : HashableInside p v := by
  constructor
  · intro w chain
    have wReturns : HashReturns p w := by
      induction chain with
      | refl => exact returns
      | tail _ item ih => exact ih.item item
    obtain ⟨fuel, hash, hashed⟩ := wReturns
    exact hashReader32_hashable hashed
  · obtain ⟨fuel, hash, hashed⟩ := returns
    exact noCycle_of_acc (acc_of_hashed hashed)

theorem HashableInside.item {v w : Value} (inside : HashableInside p v) (item : HashItem p v w) :
    HashableInside p w :=
  ⟨fun x chain => inside.types x (.head item chain), inside.acyclic.next item⟩

/-- In a sound file, what the hash goes on to decides whether it returns. -/
theorem HashableInside.returns (sound : p.Sound) {v : Value} (reach : Reachable p v)
    (inside : HashableInside p v) : HashReturns p v := by
  have acc := acc_of_noCycle inside.acyclic
  induction acc with
  | intro v _ ih =>
      have items : ∀ w, ∃ fuel, HashItem p v w → ∃ hash, hashReader32 p fuel w = .ok hash := by
        intro w
        by_cases item : HashItem p v w
        · obtain ⟨fuel, hash, hashed⟩ := ih w item (item.reachable sound reach) (inside.item item)
          exact ⟨fuel, fun _ => ⟨hash, hashed⟩⟩
        · exact ⟨0, fun bad => absurd bad item⟩
      choose fuelOf hashes using items
      obtain ⟨fuel, enough⟩ := (Set.finite_range fuelOf).bddAbove
      have step : Post (fun _ => True) (fun _ : Stop => False) (hashReader32 p (fuel + 1) v) := by
        refine sound.hashStep reach (fun none => ?_) fun w item => ?_
        · have hashable := inside.types v .refl
          rw [isHashable, none] at hashable
          cases hashable
        · obtain ⟨hash, hashed⟩ := hashes w item
          rw [hashReader32_le (enough (Set.mem_range_self w)) hashed]
          exact trivial
      cases hashed : hashReader32 p (fuel + 1) v with
      | ok hash => exact ⟨fuel + 1, hash, hashed⟩
      | error e =>
          rw [hashed] at step
          exact step.elim

theorem hashReturns_iff (sound : p.Sound) {v : Value} (reach : Reachable p v) :
    HashReturns p v ↔ HashableInside p v :=
  ⟨HashReturns.inside, HashableInside.returns sound reach⟩

end Hashes

/-! ## The hashes of the validator -/

/-- The check of the table at `t` comes to the hash of its key `v`. -/
def TableHashes (fuel : Nat) (p : OpenFile) (t v : Value) : Prop :=
  ∃ table nBuckets, TableAt p t table ∧ table.Even p nBuckets ∧
    tableCounts nBuckets (readerVectorValue p table.keys) table.nItems
      (table.values.map (readerVectorValue p)) = .ok () ∧
    ∃ i < nBuckets.toNat, (∀ j < i, checkSlotHash fuel p (hashVectorAt p table.hashes)
      (readerVectorValue p table.keys) j = .ok ()) ∧
      readerVectorValue p table.keys i = .ok v ∧ isHashable v.type = true

/-- The third pass comes to the hash of `v`. -/
def PassHashes (fuel : Nat) (p : OpenFile) (v : Value) : Prop :=
  ∃ before t after, passOrder p = .ok (before ++ t :: after) ∧
    before.forM (passCheck p (.hashTables fuel)) = .ok () ∧ TableHashes fuel p t v

/-- The hashes of hashable values return: those of an accepted file, and those that
the validator computes before it decides. -/
def HashSoundness (buf : List UInt8) : Prop :=
  (∀ fuel p error, openB fuel buf = .ok (p, error) → ∀ v, Reachable p v →
      isHashable v.type = true → HashReturns p v) ∧
    ∀ fuel p error v, init buf = .ok (p, error) → PassesCycles p → PassHashes fuel p v →
      HashReturns p v

/-- In an accepted file no vector that is tagged as hashable has an item that is
not, or goes on to itself through such vectors; nor does what the validator hashes. -/
def HashableClosed (buf : List UInt8) : Prop :=
  (∀ fuel p error, openB fuel buf = .ok (p, error) →
      (∀ v w, Reachable p v → HashItem p v w → isHashable w.type = true) ∧
        ∀ v, Reachable p v → ¬TransGen (HashItem p) v v) ∧
    ∀ fuel p error v, init buf = .ok (p, error) → PassesCycles p → PassHashes fuel p v →
      HashableInside p v

theorem PassHashes.reachable {fuel : Nat} {p : OpenFile} (sound : p.Sound) {v : Value}
    (hashes : PassHashes fuel p v) : Reachable p v := by
  obtain ⟨before, t, after, listed, -, table, nBuckets, at_t, even, -, i, less, -, read, -⟩ := hashes
  have tReach := passOrder_reachable listed t (by simp)
  obtain ⟨table', at_t', known⟩ := sound.table tReach at_t.isTable
  rw [at_t.unique at_t'] at even read
  obtain ⟨hash, key, tableRead⟩ := sound.tableRead known even
  rw [tableRead.buckets.keyAt i less] at read
  cases read
  exact tableRead.buckets.reach i less

theorem reachable_of_chain {p : OpenFile} (sound : p.Sound) {v w : Value} (reach : Reachable p v)
    (chain : ReflTransGen (HashItem p) v w) : Reachable p w := by
  induction chain with
  | refl => exact reach
  | tail _ item ih => exact item.reachable sound ih

/-- Hashes of hashable values return exactly when the hashable vectors are closed. -/
theorem hash_soundness (buf : List UInt8) : HashSoundness buf ↔ HashableClosed buf := by
  constructor
  · rintro ⟨accepted, checked⟩
    refine ⟨fun fuel p error opened => ?_, fun fuel p error v laid cycles hashes =>
      (checked fuel p error v laid cycles hashes).inside⟩
    have inside : ∀ v, Reachable p v → isHashable v.type = true → HashableInside p v :=
      fun v reach hashable => (accepted fuel p error opened v reach hashable).inside
    constructor
    · intro v w reach item
      have hashable : isHashable v.type = true := by
        rw [item.1]
        rfl
      exact (inside v reach hashable).types w (.single item)
    · intro v reach cycle
      obtain ⟨w, item, -⟩ := TransGen.head'_iff.mp cycle
      have hashable : isHashable v.type = true := by
        rw [item.1]
        rfl
      exact (inside v reach hashable).acyclic v .refl cycle
  · rintro ⟨accepted, checked⟩
    refine ⟨fun fuel p error opened v reach hashable => ?_,
      fun fuel p error v laid cycles hashes => ?_⟩
    · obtain ⟨types, acyclic⟩ := accepted fuel p error opened
      obtain ⟨laid, cycles, -⟩ := openB_eq_ok.mp opened
      have sound := cycles.1.sound laid
      refine HashableInside.returns sound reach ⟨fun w chain => ?_, fun w chain =>
        acyclic w (reachable_of_chain sound reach chain)⟩
      rcases ReflTransGen.cases_tail chain with rfl | ⟨x, before, item⟩
      · exact hashable
      · exact types x w (reachable_of_chain sound reach before) item
    · have sound := cycles.1.sound laid
      exact HashableInside.returns sound (hashes.reachable sound)
        (checked fuel p error v laid cycles hashes)

/-- A vector that is tagged as hashable, with an item that is not. -/
def unhashableFile : List UInt8 :=
  bytesValue ⟨.vectorValueHashable, 0⟩ ++ bytesU32 0 ++ bytesU32 2 ++ bytesU32 0 ++ bytesU32 0 ++
    bytesU32 0 ++ bytesU32 2 ++
    bytesU64 0 ++ bytesU64 12 ++
    bytesU32 1 ++ bytesValue ⟨.vectorValue, 1⟩ ++
    bytesU32 0

/-- The file opened. -/
def unhashableOpened : OpenFile where
  header := ⟨⟨.vectorValueHashable, 0⟩, 0, 2, 0, 0, 0, 2⟩
  stringUnicodeOffsets := []
  vectorOffsets := [0, 12]
  bitvectorOffsets := []
  setOffsets := []
  mapOffsets := []
  heap := bytesU32 1 ++ bytesValue ⟨.vectorValue, 1⟩ ++ bytesU32 0

set_option maxRecDepth 4000 in
/-- The file is accepted, and the hash of its root comes to a value without a
callback. -/
theorem unhashableFile_not_sound : ¬HashSoundness unhashableFile := by
  rintro ⟨accepted, -⟩
  have opened : openB 0 unhashableFile = .ok (unhashableOpened, none) := by decide +kernel
  have returns := accepted 0 unhashableOpened none opened ⟨.vectorValueHashable, 0⟩ (.root _) rfl
  have item : HashItem unhashableOpened ⟨.vectorValueHashable, 0⟩ ⟨.vectorValue, 1⟩ :=
    ⟨rfl, 1, 0, by decide, by decide, by decide⟩
  have bad := returns.inside.types _ (.single item)
  cases bad

end Pointless
