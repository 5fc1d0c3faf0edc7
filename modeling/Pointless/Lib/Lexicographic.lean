import Mathlib.Data.List.Forall2
import Mathlib.Order.Defs.LinearOrder

/-!
Comparison of sequences by their first difference, with results in the style of C:
negative, zero or positive.

`lex cmp` compares two lists by the first pair of items that `cmp` tells apart, and
by their lengths where there is none. `lexOption cmp` is the same for items that may
not be comparable; an incomparable pair decides like a difference. Nothing is assumed of
`cmp` but what a lemma says: in particular `exists_cycle` is about comparisons that are not
transitive, and takes a cycle of three lists apart into a cycle of three items.
-/

namespace Lexicographic

variable {α β : Type*}

/-- Compare two lists by the first items that differ, then by length. -/
def lex (cmp : α → β → Int) : List α → List β → Int
  | [], [] => 0
  | [], _ :: _ => -1
  | _ :: _, [] => 1
  | a :: as, b :: bs => if cmp a b = 0 then lex cmp as bs else cmp a b

theorem forall₂_congr {R S : α → β → Prop} {as : List α} {bs : List β}
    (same : ∀ a ∈ as, ∀ b ∈ bs, R a b ↔ S a b) :
    List.Forall₂ R as bs ↔ List.Forall₂ S as bs := by
  induction as generalizing bs with
  | nil => cases bs <;> simp
  | cons a as ih =>
      cases bs with
      | nil => simp
      | cons b bs =>
          rw [List.forall₂_cons, List.forall₂_cons, same a List.mem_cons_self b List.mem_cons_self,
            ih fun x memX y memY => same x (List.mem_cons_of_mem a memX) y
              (List.mem_cons_of_mem b memY)]

@[simp] theorem lex_nil_nil (cmp : α → β → Int) : lex cmp [] [] = 0 := rfl

@[simp] theorem lex_nil_cons (cmp : α → β → Int) (b : β) (bs : List β) :
    lex cmp [] (b :: bs) = -1 := rfl

@[simp] theorem lex_cons_nil (cmp : α → β → Int) (a : α) (as : List α) :
    lex cmp (a :: as) [] = 1 := rfl

theorem lex_cons_same {cmp : α → β → Int} {a : α} {b : β} (same : cmp a b = 0) (as : List α)
    (bs : List β) : lex cmp (a :: as) (b :: bs) = lex cmp as bs := if_pos same

theorem lex_cons_ne {cmp : α → β → Int} {a : α} {b : β} (differ : cmp a b ≠ 0) (as : List α)
    (bs : List β) : lex cmp (a :: as) (b :: bs) = cmp a b := if_neg differ

theorem lex_eq_zero {cmp : α → β → Int} {as : List α} {bs : List β} :
    lex cmp as bs = 0 ↔ List.Forall₂ (fun a b => cmp a b = 0) as bs := by
  induction as generalizing bs with
  | nil =>
      cases bs with
      | nil => simp
      | cons b bs => simp
  | cons a as ih =>
      cases bs with
      | nil => simp
      | cons b bs =>
          rw [List.forall₂_cons]
          by_cases same : cmp a b = 0
          · rw [lex_cons_same same, ih]
            exact ⟨fun rest => ⟨same, rest⟩, And.right⟩
          · rw [lex_cons_ne same]
            exact ⟨fun zero => absurd zero same, fun both => absurd both.1 same⟩

/-- Swapping the lists negates the result where swapping their items does. -/
theorem lex_swap {cmp : α → β → Int} {cmp' : β → α → Int} {as : List α} {bs : List β}
    (swap : ∀ a ∈ as, ∀ b ∈ bs, cmp' b a = -cmp a b) : lex cmp' bs as = -lex cmp as bs := by
  induction as generalizing bs with
  | nil => cases bs <;> rfl
  | cons a as ih =>
      cases bs with
      | nil => rfl
      | cons b bs =>
          have head := swap a List.mem_cons_self b List.mem_cons_self
          have rest := ih fun x memX y memY => swap x (List.mem_cons_of_mem a memX) y
            (List.mem_cons_of_mem b memY)
          by_cases same : cmp a b = 0
          · rw [lex_cons_same same, lex_cons_same (by rw [head, same]; rfl), rest]
          · rw [lex_cons_ne same, lex_cons_ne (by rw [head]; omega), head]

/-- Items that compare equal in front do not matter. -/
theorem lex_append {cmp : α → β → Int} {ps : List α} {qs : List β}
    (same : List.Forall₂ (fun a b => cmp a b = 0) ps qs) (as : List α) (bs : List β) :
    lex cmp (ps ++ as) (qs ++ bs) = lex cmp as bs := by
  induction same with
  | nil => rfl
  | cons head _ ih =>
      rw [List.cons_append, List.cons_append, lex_cons_same head]
      exact ih

/-- Behind items that compare equal the first difference decides. -/
theorem lex_append_cons {cmp : α → β → Int} {ps : List α} {qs : List β}
    (same : List.Forall₂ (fun a b => cmp a b = 0) ps qs) {a : α} {b : β} (differ : cmp a b ≠ 0)
    (as : List α) (bs : List β) : lex cmp (ps ++ a :: as) (qs ++ b :: bs) = cmp a b := by
  rw [lex_append same, lex_cons_ne differ]

theorem le_zero_of_lex {cmp : α → β → Int} {a : α} {b : β} {as : List α} {bs : List β}
    (le : lex cmp (a :: as) (b :: bs) ≤ 0) : cmp a b ≤ 0 := by
  by_cases same : cmp a b = 0
  · omega
  · rwa [lex_cons_ne same] at le

/-- Two comparisons that do not agree on two lists differ at a first pair of items,
behind items that one of them takes as equal. -/
theorem exists_disagreement {cmp cmp' : α → β → Int} {as : List α} {bs : List β}
    (differ : lex cmp as bs ≠ lex cmp' as bs) :
    ∃ ps qs a b as' bs', as = ps ++ a :: as' ∧ bs = qs ++ b :: bs' ∧
      List.Forall₂ (fun a b => cmp a b = 0) ps qs ∧ a ∈ as ∧ b ∈ bs ∧ cmp a b ≠ cmp' a b := by
  induction as generalizing bs with
  | nil => cases bs <;> exact absurd rfl differ
  | cons a as ih =>
      cases bs with
      | nil => exact absurd rfl differ
      | cons b bs =>
          by_cases head : cmp a b = cmp' a b
          · by_cases same : cmp a b = 0
            · rw [lex_cons_same same, lex_cons_same (head ▸ same)] at differ
              obtain ⟨ps, qs, x, y, as', bs', rfl, rfl, equal, -, -, apart⟩ := ih differ
              exact ⟨a :: ps, b :: qs, x, y, as', bs', rfl, rfl, .cons same equal, by simp,
                by simp, apart⟩
            · rw [lex_cons_ne same, lex_cons_ne (head ▸ same)] at differ
              exact absurd head differ
          · exact ⟨[], [], a, b, as, bs, rfl, rfl, .nil, List.mem_cons_self, List.mem_cons_self,
              head⟩

/-- Three lists that go round in a circle have, behind items that compare equal, three
items that do. -/
theorem exists_cycle {cmp : α → α → Int}
    (close : ∀ a b c, cmp a b = 0 → cmp b c = 0 → cmp c a = 0) {as bs cs : List α}
    (ab : lex cmp as bs ≤ 0) (bc : lex cmp bs cs ≤ 0) (ca : lex cmp cs as ≤ 0)
    (apart : ¬(lex cmp as bs = 0 ∧ lex cmp bs cs = 0)) :
    ∃ ps qs rs a b c as' bs' cs', as = ps ++ a :: as' ∧ bs = qs ++ b :: bs' ∧
      cs = rs ++ c :: cs' ∧ List.Forall₂ (fun a b => cmp a b = 0) ps qs ∧
      List.Forall₂ (fun a b => cmp a b = 0) qs rs ∧
      cmp a b ≤ 0 ∧ cmp b c ≤ 0 ∧ cmp c a ≤ 0 ∧ ¬(cmp a b = 0 ∧ cmp b c = 0) := by
  induction as generalizing bs cs with
  | nil =>
      -- an ended list is before all others, so that all three have ended
      cases cs with
      | cons c cs => exact absurd ca (by simp)
      | nil =>
          cases bs with
          | cons b bs => exact absurd bc (by simp)
          | nil => exact absurd ⟨rfl, rfl⟩ apart
  | cons a as ih =>
      cases bs with
      | nil => exact absurd ab (by simp)
      | cons b bs =>
          cases cs with
          | nil => exact absurd bc (by simp)
          | cons c cs =>
              by_cases heads : cmp a b = 0 ∧ cmp b c = 0
              · obtain ⟨same, same'⟩ := heads
                rw [lex_cons_same same, lex_cons_same same'] at apart
                rw [lex_cons_same same] at ab
                rw [lex_cons_same same'] at bc
                rw [lex_cons_same (close a b c same same')] at ca
                obtain ⟨ps, qs, rs, x, y, z, as', bs', cs', rfl, rfl, rfl, pq, qr, items⟩ :=
                  ih ab bc ca apart
                exact ⟨a :: ps, b :: qs, c :: rs, x, y, z, as', bs', cs', rfl, rfl, rfl,
                  .cons same pq, .cons same' qr, items⟩
              · exact ⟨[], [], [], a, b, c, as, bs, cs, rfl, rfl, rfl, .nil, .nil,
                  le_zero_of_lex ab, le_zero_of_lex bc, le_zero_of_lex ca, heads⟩

/-! ## Items that may not be comparable -/

/-- Compare two lists by the first items that differ or cannot be compared, then by
length. -/
def lexOption (cmp : α → β → Option Int) : List α → List β → Option Int
  | [], [] => some 0
  | [], _ :: _ => some (-1)
  | _ :: _, [] => some 1
  | a :: as, b :: bs => if cmp a b = some 0 then lexOption cmp as bs else cmp a b

@[simp] theorem lexOption_nil_nil (cmp : α → β → Option Int) : lexOption cmp [] [] = some 0 := rfl

@[simp] theorem lexOption_nil_cons (cmp : α → β → Option Int) (b : β) (bs : List β) :
    lexOption cmp [] (b :: bs) = some (-1) := rfl

@[simp] theorem lexOption_cons_nil (cmp : α → β → Option Int) (a : α) (as : List α) :
    lexOption cmp (a :: as) [] = some 1 := rfl

theorem lexOption_cons_same {cmp : α → β → Option Int} {a : α} {b : β} (same : cmp a b = some 0)
    (as : List α) (bs : List β) : lexOption cmp (a :: as) (b :: bs) = lexOption cmp as bs :=
  if_pos same

theorem lexOption_cons_ne {cmp : α → β → Option Int} {a : α} {b : β} (differ : cmp a b ≠ some 0)
    (as : List α) (bs : List β) : lexOption cmp (a :: as) (b :: bs) = cmp a b := if_neg differ

theorem lexOption_eq_zero {cmp : α → β → Option Int} {as : List α} {bs : List β} :
    lexOption cmp as bs = some 0 ↔ List.Forall₂ (fun a b => cmp a b = some 0) as bs := by
  induction as generalizing bs with
  | nil =>
      cases bs with
      | nil => simp
      | cons b bs => simp
  | cons a as ih =>
      cases bs with
      | nil => simp
      | cons b bs =>
          rw [List.forall₂_cons]
          by_cases same : cmp a b = some 0
          · rw [lexOption_cons_same same, ih]
            exact ⟨fun rest => ⟨same, rest⟩, And.right⟩
          · rw [lexOption_cons_ne same]
            exact ⟨fun zero => absurd zero same, fun both => absurd both.1 same⟩

end Lexicographic
