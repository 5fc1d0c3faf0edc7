import Mathlib.Logic.Basic
import Mathlib.Data.List.Basic
import Mathlib.Data.List.Forall2

/-!
Reasoning rules for programs in the `Except` monad.

`Post ok bad action` is a two-sided postcondition: a value that `action` returns
satisfies `ok`, and an error it stops with satisfies `bad`. The error side stays
part of every judgment, so a proof that a program cannot stop in a particular
way goes through the same rules as a proof about its result.

Loops are left folds. `Post.foldlM` is the invariant rule, and
`foldlM_kept` the one for a loop that returned.
-/

namespace ExceptRules

universe u v

variable {ε : Type u} {α β σ : Type v}

/-! ## Peeling a sequence apart -/

@[simp] theorem ok_bind (a : α) (f : α → Except ε β) : (Except.ok a >>= f) = f a := rfl

@[simp] theorem error_bind (e : ε) (f : α → Except ε β) :
    ((Except.error e : Except ε α) >>= f) = Except.error e := rfl

@[simp] theorem pure_eq_ok (a : α) : (pure a : Except ε α) = Except.ok a := rfl

@[simp] theorem map_ok (f : α → β) (a : α) : (f <$> (Except.ok a : Except ε α)) = .ok (f a) := rfl

@[simp] theorem map_error (f : α → β) (e : ε) :
    (f <$> (Except.error e : Except ε α)) = .error e := rfl

theorem bind_eq_ok {x : Except ε α} {f : α → Except ε β} {b : β} :
    (x >>= f) = .ok b ↔ ∃ a, x = .ok a ∧ f a = .ok b := by
  cases x with
  | error e => simp
  | ok a => simp

theorem bind_eq_error {x : Except ε α} {f : α → Except ε β} {e : ε} :
    (x >>= f) = .error e ↔ x = .error e ∨ ∃ a, x = .ok a ∧ f a = .error e := by
  cases x with
  | error e' => simp
  | ok a => simp

theorem map_eq_ok {f : α → β} {x : Except ε α} {b : β} :
    (f <$> x) = .ok b ↔ ∃ a, x = .ok a ∧ f a = b := by
  cases x with
  | error e => simp
  | ok a => simp

/-! ## Two-sided postconditions -/

/-- A returned value satisfies `ok` and an error satisfies `bad`. -/
def Post (ok : α → Prop) (bad : ε → Prop) : Except ε α → Prop
  | .ok a => ok a
  | .error e => bad e

@[simp] theorem post_ok {ok : α → Prop} {bad : ε → Prop} {a : α} :
    Post ok bad (.ok a) ↔ ok a := Iff.rfl

@[simp] theorem post_error {ok : α → Prop} {bad : ε → Prop} {e : ε} :
    Post ok bad (.error e) ↔ bad e := Iff.rfl

theorem post_true (x : Except ε α) : Post (fun _ => True) (fun _ => True) x := by
  cases x <;> exact trivial

theorem Post.bind {ok : α → Prop} {ok' : β → Prop} {bad : ε → Prop}
    {x : Except ε α} {f : α → Except ε β}
    (first : Post ok bad x) (next : ∀ a, x = .ok a → ok a → Post ok' bad (f a)) :
    Post ok' bad (x >>= f) := by
  cases x with
  | error e => exact first
  | ok a => exact next a rfl first

theorem Post.mono {ok ok' : α → Prop} {bad bad' : ε → Prop} {x : Except ε α}
    (post : Post ok bad x) (weakenOk : ∀ a, ok a → ok' a) (weakenBad : ∀ e, bad e → bad' e) :
    Post ok' bad' x := by
  cases x with
  | error e => exact weakenBad e post
  | ok a => exact weakenOk a post

/-- The two sides of a judgment may be proved apart. -/
theorem Post.sides {ok : α → Prop} {bad : ε → Prop} {x : Except ε α}
    (right : Post ok (fun _ => True) x) (wrong : Post (fun _ => True) bad x) : Post ok bad x := by
  cases x with
  | error e => exact wrong
  | ok a => exact right

theorem Post.of_ok {ok : α → Prop} {bad : ε → Prop} {x : Except ε α}
    (post : Post ok bad x) {a : α} (returned : x = .ok a) : ok a := by
  rw [returned] at post
  exact post

theorem Post.of_error {ok : α → Prop} {bad : ε → Prop} {x : Except ε α}
    (post : Post ok bad x) {e : ε} (stopped : x = .error e) : bad e := by
  rw [stopped] at post
  exact post

theorem Post.map {ok : β → Prop} {bad : ε → Prop} {f : α → β} {x : Except ε α}
    (post : Post (fun a => ok (f a)) bad x) : Post ok bad (f <$> x) := by
  cases x with
  | error e => exact post
  | ok a => exact post

/-! ## Loops -/

/-- The invariant rule: what holds initially and is kept by the body for every
listed item holds after the loop. -/
theorem Post.foldlM {inv : σ → Prop} {bad : ε → Prop} {body : σ → α → Except ε σ}
    {items : List α} {s : σ} (start : inv s)
    (step : ∀ s, inv s → ∀ a ∈ items, Post inv bad (body s a)) :
    Post inv bad (items.foldlM body s) := by
  induction items generalizing s with
  | nil => exact start
  | cons a rest ih =>
      rw [List.foldlM_cons]
      refine Post.bind (step s start a List.mem_cons_self) fun s' _ kept => ?_
      exact ih kept fun t held b mem => step t held b (List.mem_cons_of_mem a mem)

/-- A loop that returned has done the round of each listed item. -/
theorem foldlM_ok_mem {body : σ → α → Except ε σ} {items : List α} {s t : σ}
    (returned : items.foldlM body s = .ok t) {a : α} (mem : a ∈ items) :
    ∃ s' s'', body s' a = .ok s'' := by
  induction items generalizing s with
  | nil => exact absurd mem List.not_mem_nil
  | cons b rest ih =>
      rw [List.foldlM_cons] at returned
      obtain ⟨s', first, others⟩ := bind_eq_ok.mp returned
      rcases List.mem_cons.mp mem with rfl | mem
      · exact ⟨s, s', first⟩
      · exact ih others mem

/-- What every round that returns keeps holds after a loop that returned. -/
theorem foldlM_kept {I : σ → Prop} {body : σ → α → Except ε σ} {items : List α} {s t : σ}
    (start : I s) (step : ∀ s s', ∀ a ∈ items, I s → body s a = .ok s' → I s')
    (returned : items.foldlM body s = .ok t) : I t := by
  induction items generalizing s with
  | nil =>
      cases returned
      exact start
  | cons a rest ih =>
      rw [List.foldlM_cons] at returned
      obtain ⟨s', first, others⟩ := bind_eq_ok.mp returned
      refine ih (step s s' a List.mem_cons_self start first) (fun s s' b mem => ?_) others
      exact step s s' b (List.mem_cons_of_mem a mem)

/-- A loop over a split list is the two loops in sequence. -/
theorem foldlM_append (body : σ → α → Except ε σ) (left right : List α) (s : σ) :
    (left ++ right).foldlM body s = left.foldlM body s >>= right.foldlM body := by
  induction left generalizing s with
  | nil => rfl
  | cons a rest ih =>
      rw [List.cons_append, List.foldlM_cons, List.foldlM_cons, bind_assoc]
      congr 1
      funext s'
      exact ih s'

/-- The last round of a counted loop. -/
theorem foldlM_range_succ {σ : Type} (body : σ → Nat → Except ε σ) (n : Nat) (s : σ) :
    (List.range (n + 1)).foldlM body s = (List.range n).foldlM body s >>= fun t => body t n := by
  rw [List.range_succ, foldlM_append]
  congr 1
  funext t
  exact bind_pure (body t n)

/-- The invariant rule for a counted loop. -/
theorem Post.foldlM_range {σ : Type} {inv : Nat → σ → Prop} {bad : ε → Prop}
    {body : σ → Nat → Except ε σ} {n : Nat} {s : σ} (start : inv 0 s)
    (step : ∀ i < n, ∀ s, inv i s → Post (inv (i + 1)) bad (body s i)) :
    Post (inv n) bad ((List.range n).foldlM body s) := by
  induction n with
  | zero => exact start
  | succ n ih =>
      rw [foldlM_range_succ]
      refine Post.bind (ih fun i less => step i (Nat.lt_succ_of_lt less)) fun t _ held => ?_
      exact step n (Nat.lt_succ_self n) t held

/-- What the rounds of a counted loop keep, from one count to the next. -/
theorem foldlM_range_kept {σ : Type} {I : Nat → σ → Prop} {body : σ → Nat → Except ε σ} {n : Nat}
    {s t : σ} (start : I 0 s)
    (step : ∀ i < n, ∀ s s', I i s → body s i = .ok s' → I (i + 1) s')
    (returned : (List.range n).foldlM body s = .ok t) : I n t := by
  induction n generalizing t with
  | zero =>
      cases returned
      exact start
  | succ n ih =>
      rw [foldlM_range_succ] at returned
      obtain ⟨u, before, last⟩ := bind_eq_ok.mp returned
      have held := ih (fun i less => step i (Nat.lt_succ_of_lt less)) before
      exact step n (Nat.lt_succ_self n) u t held last

/-- The results of a mapped action, one by one. -/
theorem mapM_eq_ok {f : α → Except ε β} {items : List α} {results : List β} :
    items.mapM f = .ok results ↔ List.Forall₂ (fun a b => f a = .ok b) items results := by
  induction items generalizing results with
  | nil =>
      constructor
      · intro mapped
        cases mapped
        exact .nil
      · intro each
        cases each
        rfl
  | cons a rest ih =>
      rw [List.mapM_cons, bind_eq_ok]
      constructor
      · rintro ⟨b, first, mapped⟩
        obtain ⟨bs, others, last⟩ := bind_eq_ok.mp mapped
        cases last
        exact .cons first (ih.mp others)
      · intro each
        cases each with
        | cons first others =>
            refine ⟨_, first, ?_⟩
            rw [ih.mpr others]
            rfl

/-- A mapped action returns when it does at every item. -/
theorem exists_mapM_ok {f : α → Except ε β} {items : List α}
    (each : ∀ a ∈ items, ∃ b, f a = .ok b) : ∃ results, items.mapM f = .ok results := by
  induction items with
  | nil => exact ⟨[], rfl⟩
  | cons a rest ih =>
      obtain ⟨b, first⟩ := each a List.mem_cons_self
      obtain ⟨bs, others⟩ := ih fun x mem => each x (List.mem_cons_of_mem a mem)
      exact ⟨b :: bs, mapM_eq_ok.mpr (.cons first (mapM_eq_ok.mp others))⟩

/-- The rule for a mapped action. -/
theorem Post.mapM {ok : β → Prop} {bad : ε → Prop} {f : α → Except ε β} {items : List α}
    (each : ∀ a ∈ items, Post ok bad (f a)) :
    Post (fun results => ∀ b ∈ results, ok b) bad (items.mapM f) := by
  induction items with
  | nil => exact fun b mem => absurd mem List.not_mem_nil
  | cons a rest ih =>
      rw [List.mapM_cons]
      refine Post.bind (each a List.mem_cons_self) fun b _ here => ?_
      refine Post.bind (ih fun x mem => each x (List.mem_cons_of_mem a mem)) fun bs _ others => ?_
      exact List.forall_mem_cons.mpr ⟨here, others⟩

/-! ## Sequences of checks -/

theorem forM_cons (check : α → Except ε PUnit.{v + 1}) (a : α) (rest : List α) :
    (a :: rest).forM check = check a >>= fun _ => rest.forM check := rfl

theorem forM_append (check : α → Except ε PUnit.{v + 1}) (left right : List α) :
    (left ++ right).forM check = left.forM check >>= fun _ => right.forM check := by
  induction left with
  | nil => rfl
  | cons a rest ih =>
      rw [List.cons_append, forM_cons, forM_cons, bind_assoc, ih]

theorem forM_eq_ok {check : α → Except ε PUnit.{v + 1}} {items : List α} :
    items.forM check = .ok ⟨⟩ ↔ ∀ a ∈ items, check a = .ok ⟨⟩ := by
  induction items with
  | nil => exact ⟨fun _ _ mem => absurd mem List.not_mem_nil, fun _ => rfl⟩
  | cons a rest ih =>
      rw [forM_cons, List.forall_mem_cons, bind_eq_ok, ih]
      constructor
      · rintro ⟨⟨⟩, first, others⟩
        exact ⟨first, others⟩
      · rintro ⟨first, others⟩
        exact ⟨⟨⟩, first, others⟩

/-- A row of checks stops at the first that fails. -/
theorem forM_eq_error {check : α → Except ε PUnit.{v + 1}} {items : List α} {e : ε} :
    items.forM check = .error e ↔ ∃ before a after, items = before ++ a :: after ∧
      before.forM check = .ok ⟨⟩ ∧ check a = .error e := by
  induction items with
  | nil =>
      constructor
      · intro failed
        cases failed
      · rintro ⟨before, a, after, split, -⟩
        simp at split
  | cons b rest ih =>
      rw [forM_cons, bind_eq_error, ih]
      constructor
      · rintro (failed | ⟨⟨⟩, first, before, a, after, split, passed, failed⟩)
        · exact ⟨[], b, rest, rfl, rfl, failed⟩
        · refine ⟨b :: before, a, after, by rw [split]; rfl, ?_, failed⟩
          rw [forM_cons, first, ok_bind, passed]
      · rintro ⟨before, a, after, split, passed, failed⟩
        cases before with
        | nil =>
            cases split
            exact Or.inl failed
        | cons c before =>
            cases split
            rw [forM_cons, bind_eq_ok] at passed
            obtain ⟨⟨⟩, first, passed⟩ := passed
            exact Or.inr ⟨⟨⟩, first, before, a, after, rfl, passed, failed⟩

/-- A row of checks that was not stopped has passed each of them. -/
theorem Post.forM {ok : α → Prop} {bad : ε → Prop} {check : α → Except ε PUnit.{v + 1}}
    {items : List α} (each : ∀ a ∈ items, Post (fun _ => ok a) bad (check a)) :
    Post (fun _ => ∀ a ∈ items, ok a) bad (items.forM check) := by
  induction items with
  | nil => exact fun a mem => absurd mem List.not_mem_nil
  | cons a rest ih =>
      rw [forM_cons]
      refine Post.bind (each a List.mem_cons_self) fun _ _ here => ?_
      refine Post.mono (ih fun b mem => each b (List.mem_cons_of_mem a mem)) ?_ fun _ bad => bad
      intro _ others b mem
      rcases List.mem_cons.mp mem with rfl | mem
      · exact here
      · exact others b mem

/-- The checks of `0, …, n - 1` stop at the least number that fails. -/
theorem forM_range_eq_error {check : Nat → Except ε PUnit.{1}} {n : Nat} {e : ε} :
    (List.range n).forM check = .error e ↔
      ∃ i < n, (∀ j < i, check j = .ok ⟨⟩) ∧ check i = .error e := by
  induction n with
  | zero =>
      constructor
      · intro failed
        cases failed
      · rintro ⟨i, less, -⟩
        exact absurd less i.not_lt_zero
  | succ n ih =>
      have last : ([n] : List Nat).forM check = check n := by
        rw [forM_cons]
        cases check n with
        | ok done => rfl
        | error stop => rfl
      rw [List.range_succ, forM_append, last, bind_eq_error, ih]
      constructor
      · rintro (⟨i, less, passed, failed⟩ | ⟨⟨⟩, all, failed⟩)
        · exact ⟨i, Nat.lt_succ_of_lt less, passed, failed⟩
        · rw [forM_eq_ok] at all
          exact ⟨n, Nat.lt_succ_self n, fun j less => all j (List.mem_range.mpr less), failed⟩
      · rintro ⟨i, less, passed, failed⟩
        rcases Nat.lt_succ_iff_lt_or_eq.mp less with before | rfl
        · exact Or.inl ⟨i, before, passed, failed⟩
        · refine Or.inr ⟨⟨⟩, forM_eq_ok.mpr ?_, failed⟩
          exact fun j mem => passed j (List.mem_range.mp mem)

end ExceptRules
