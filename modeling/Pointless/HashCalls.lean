import Pointless.HashSound

/-!
# When a hash ends

The hash of a vector takes its items from left to right, and stops at the first that
has no hash callback. `HashCalls` are the calls that a hash really makes, and
`hash_ends` is that it ends when no value that it comes to calls for itself again.
-/

namespace Pointless

open ExceptRules Acyclic Relation Fuel

/-- The hash of `v` comes to its item `w`: the hashes of the items before it return. -/
def HashCalls (p : OpenFile) (v w : Value) : Prop :=
  v.type = .vectorValueHashable ∧ ∃ n i, readerVectorNItems p v = .ok n ∧ i < n.toNat ∧
    readerVectorValue p v i = .ok w ∧
    ∀ j < i, ∀ u, readerVectorValue p v j = .ok u → HashableInside p u

/-- The hash of item `i`, as a check. -/
def itemHashed (p : OpenFile) (v : Value) (fuel i : Nat) : Res Unit :=
  (fun _ => ()) <$> (readerVectorValue p v i >>= hashReader32 p fuel)

/-- A loop over results stops where the row of the results does. -/
theorem foldlM_map_eq_error {ε α β σ : Type} (next : σ → β → σ) (item : α → Except ε β)
    (items : List α) (s : σ) (e : ε) :
    items.foldlM (fun s a => next s <$> item a) s = .error e ↔
      items.forM (fun a => (fun _ => ()) <$> item a) = .error e := by
  induction items generalizing s with
  | nil =>
      constructor
      · exact nofun
      · exact nofun
  | cons a rest ih =>
      rw [List.foldlM_cons, forM_cons]
      cases item a with
      | error stop => exact ⟨fun same => by cases same; rfl, fun same => by cases same; rfl⟩
      | ok b =>
          rw [map_ok, map_ok, ok_bind, ok_bind]
          exact ih (next s b)

section Calls

variable {p : OpenFile} {v w : Value}

theorem HashCalls.item (calls : HashCalls p v w) : HashItem p v w := by
  obtain ⟨type, n, i, count, less, read, -⟩ := calls
  exact ⟨type, n, i, count, less, read⟩

theorem itemHashed_grows (v : Value) (i : Nat) :
    Grows (.fault .diverges) fun fuel => itemHashed p v fuel i :=
  fun fuel => Below.map _ (Below.bind (Below.refl _) fun w => hashReader32_grows w fuel)

theorem itemHashed_eq_ok {fuel i : Nat} (read : readerVectorValue p v i = .ok w) :
    itemHashed p v fuel i = .ok () ↔ ∃ hash, hashReader32 p fuel w = .ok hash := by
  rw [itemHashed, read, ok_bind, map_eq_ok]
  exact ⟨fun returned => returned.imp fun _ both => both.1,
    fun returned => returned.imp fun _ hashed => ⟨hashed, rfl⟩⟩

theorem itemHashed_eq_error {fuel i : Nat} (read : readerVectorValue p v i = .ok w) {e : Stop} :
    itemHashed p v fuel i = .error e ↔ hashReader32 p fuel w = .error e := by
  rw [itemHashed, read, ok_bind]
  cases hashReader32 p fuel w with
  | error stop => exact ⟨fun same => by cases same; rfl, fun same => by cases same; rfl⟩
  | ok hash => exact ⟨nofun, nofun⟩

/-- The hash of a vector stops where the row of its items does. -/
theorem hashReader32_eq_error (type : v.type = .vectorValueHashable) {n : UInt32}
    (count : readerVectorNItems p v = .ok n) (fuel : Nat) (e : Stop) :
    hashReader32 p (fuel + 1) v = .error e ↔
      (List.range n.toNat).forM (itemHashed p v fuel) = .error e := by
  have item : hashReaderVectorItem (hashReader32 p fuel) p v
      = fun i => readerVectorValue p v i >>= hashReader32 p fuel := by
    funext i
    unfold hashReaderVectorItem
    rw [type]
  have indices : List.range' (0 : UInt32).toNat ((n + 0).toNat - (0 : UInt32).toNat)
      = List.range n.toNat := by
    rw [UInt32.add_zero, List.range_eq_range']
    rfl
  rw [hashReader32, type]
  change (do
    let nItems ← readerVectorNItems p v
    hashReaderVector32Priv (hashReader32 p fuel) p v 0 nItems) = .error e ↔ _
  rw [count, ok_bind, hashReaderVector32Priv, vectorHash32, item, indices]
  refine Iff.trans ?_ (foldlM_map_eq_error vectorHashNext32
    (fun i => readerVectorValue p v i >>= hashReader32 p fuel) _ (vectorHashInit32 n) e)
  rw [bind_eq_error]
  constructor
  · intro stopped
    rcases stopped with stopped | ⟨s, -, stopped⟩
    · exact stopped
    · cases stopped
  · exact Or.inl

/-- A hash that has not used its fuel up leaves its calls enough. -/
theorem hashReader32_called (sound : p.Sound) (reach : Reachable p v) {fuel : Nat}
    (ended : hashReader32 p (fuel + 1) v ≠ .error (.fault .diverges)) (calls : HashCalls p v w) :
    hashReader32 p fuel w ≠ .error (.fault .diverges) := by
  obtain ⟨type, n, i, count, less, read, before⟩ := calls
  obtain ⟨m, count', items⟩ := sound.items reach (Or.inr type)
  rw [count] at count'
  cases count'
  intro used
  apply ended
  rw [hashReader32_eq_error type count]
  -- the first item whose hash does not return has used the fuel up
  have stuck : ∃ j, j ≤ i ∧ itemHashed p v fuel j = .error (.fault .diverges) :=
    ⟨i, Nat.le_refl i, (itemHashed_eq_error read).mpr used⟩
  classical
  obtain ⟨low, stopped⟩ := Nat.find_spec stuck
  refine forM_range_eq_error.mpr ⟨Nat.find stuck, by omega, fun j earlier => ?_, stopped⟩
  have below : j < i := by omega
  obtain ⟨u, uRead, uReach⟩ := items j (by omega)
  obtain ⟨enough, hash, hashed⟩ := HashableInside.returns sound uReach (before j below u uRead)
  rw [itemHashed_eq_ok uRead]
  rcases (hashReader32_grows u).le (Nat.le_max_left fuel enough) with used | same
  · exact absurd ⟨by omega, (itemHashed_eq_error uRead).mpr used⟩ (Nat.find_min stuck earlier)
  · exact ⟨hash, same.trans (hashReader32_le (Nat.le_max_right fuel enough) hashed)⟩

/-- A hash ends when its calls do. -/
theorem hash_ends_of_calls (sound : p.Sound) (reach : Reachable p v)
    (ends : ∀ w, HashCalls p v w → Ends (.fault .diverges) fun fuel => hashReader32 p fuel w) :
    Ends (.fault .diverges) fun fuel => hashReader32 p fuel v := by
  by_cases type : v.type = .vectorValueHashable
  · obtain ⟨n, count, items⟩ := sound.items reach (Or.inr type)
    have row : Ends (.fault .diverges) fun fuel =>
        (List.range n.toNat).forM (itemHashed p v fuel) := by
      refine (ends_forM_range (itemHashed_grows v)).mpr fun fuel i less before => ?_
      obtain ⟨w, read, -⟩ := items i less
      have calls : HashCalls p v w := by
        refine ⟨type, n, i, count, less, read, fun j earlier u uRead => ?_⟩
        obtain ⟨hash, hashed⟩ := (itemHashed_eq_ok uRead).mp (before j earlier)
        exact HashReturns.inside ⟨fuel, hash, hashed⟩
      obtain ⟨enough, ended⟩ := ends w calls
      exact ⟨enough, fun used => ended ((itemHashed_eq_error read).mp used)⟩
    obtain ⟨fuel, ended⟩ := row
    exact ⟨fuel + 1, fun used => ended ((hashReader32_eq_error type count fuel _).mp used)⟩
  · have step : Post (fun _ => True) (fun e : Stop => e ≠ .fault .diverges) (hashReader32 p 1 v) :=
      sound.hashStep reach (fun _ => by simp) fun w item => absurd item.1 type
    exact ⟨1, fun used => step.of_error used rfl⟩

/-- The hash of a reachable value ends when no value that it comes to calls for itself. -/
theorem hash_ends (sound : p.Sound) (reach : Reachable p v) :
    Ends (.fault .diverges) (fun fuel => hashReader32 p fuel v) ↔ NoCycle (HashCalls p) v := by
  constructor
  · intro ends
    obtain ⟨fuel, ended⟩ := ends
    apply noCycle_of_acc
    induction fuel generalizing v with
    | zero => exact absurd rfl ended
    | succ fuel ih =>
        refine Acc.intro v fun w calls => ?_
        exact ih (calls.item.reachable sound reach) (hashReader32_called sound reach ended calls)
  · intro noCycle
    have acc := acc_of_noCycle noCycle
    induction acc with
    | intro v _ ih =>
        refine hash_ends_of_calls sound reach fun w calls => ?_
        exact ih w calls (calls.item.reachable sound reach) (noCycle.next calls)

end Calls

end Pointless
