import Pointless.Tree

/-!
# Where the comparison is an order

By the values of integers, trees are compared in a way that is antisymmetric, and
takes equal values for equal. It is not transitive, as values that have one callback
go by their value and others by their codes: a value of another kind whose code lies
between those of two integers, strings or vectors may stand above the greater one.

The comparison of the code differs from it where an unsigned integer meets a negative
one, which is less on either side.
-/

namespace Pointless

open Lexicographic

namespace Tree

/-! ## Clashes and straddles -/

/-- At the first position where the trees differ, an unsigned integer on the left meets
a negative one on the right. -/
inductive Clash : Tree → Tree → Prop
  | int {s a t b} (negative : b < 0) : Clash (unsigned s a) (signed t b)
  | item {s t ps qs a b as bs} (same : ps.map erase = qs.map erase) (clash : Clash a b) :
      Clash (vector s (ps ++ a :: as)) (vector t (qs ++ b :: bs))

/-- At the first position where the three trees are not all the same, `x` and `y` are
of one kind and `z` is of another, with a code between theirs. -/
inductive Straddle : Tree → Tree → Tree → Prop
  | code {x y z} (kind : x.func = y.func) (other : z.func ≠ x.func)
      (above : x.type.code < z.type.code) (below : z.type.code < y.type.code) : Straddle x y z
  | item {s t u ps qs rs x y z xs ys zs} (same : ps.map erase = qs.map erase)
      (same' : qs.map erase = rs.map erase) (straddle : Straddle x y z) :
      Straddle (vector s (ps ++ x :: xs)) (vector t (qs ++ y :: ys)) (vector u (rs ++ z :: zs))

/-! ## The comparison by value -/

theorem compare_swap_of_func_ne {t u : Tree} (differ : t.func ≠ u.func) :
    compare u t = -compare t u := by
  rw [compare_of_func_ne differ, compare_of_func_ne (Ne.symm differ), simpleCmp_u32,
    simpleCmp_u32, ← Int.sign_neg, Int.neg_sub]

theorem compare_swap_number {t u : Tree} {a b : Int} (left : t.number = some a)
    (right : u.number = some b) : compare u t = -compare t u := by
  rw [compare_number left right, compare_number right left, simpleCmp_int, simpleCmp_int,
    ← Int.sign_neg, Int.neg_sub]

theorem compare_swap (t u : Tree) : compare u t = -compare t u := by
  by_cases kind : t.func = u.func
  case neg => exact compare_swap_of_func_ne kind
  induction t generalizing u with
  | null =>
      cases u with
      | null => rfl
      | _ => cases kind
  | emptySlot =>
      cases u with
      | emptySlot => rfl
      | _ => cases kind
  | signed s a =>
      cases u with
      | signed t b => exact compare_swap_number rfl rfl
      | unsigned t b => exact compare_swap_number rfl rfl
      | _ => cases kind
  | unsigned s a =>
      cases u with
      | signed t b => exact compare_swap_number rfl rfl
      | unsigned t b => exact compare_swap_number rfl rfl
      | _ => cases kind
  | text s as =>
      cases u with
      | text t bs =>
          refine lex_swap fun a _ b _ => ?_
          rw [simpleCmp_u32, simpleCmp_u32, ← Int.sign_neg, Int.neg_sub]
      | _ => cases kind
  | vector s as ih =>
      cases u with
      | vector t bs =>
          rw [compare_vector, compare_vector]
          refine lex_swap fun a mem b _ => ?_
          by_cases itemKind : a.func = b.func
          · exact ih a mem b itemKind
          · exact compare_swap_of_func_ne itemKind
      | _ => cases kind

theorem forall₂_erase {as bs : List Tree} :
    List.Forall₂ (fun a b => a.erase = b.erase) as bs ↔ as.map erase = bs.map erase := by
  rw [← List.forall₂_eq_eq_eq, List.forall₂_map_left_iff, List.forall₂_map_right_iff]

section Zero

variable {unsignedSigned : Nat → Int → Int}
  (exact : ∀ a b, unsignedSigned a b = 0 ↔ (a : Int) = b)

theorem cmpWith_eq_zero_of_func_ne {t u : Tree} (differ : t.func ≠ u.func) :
    cmpWith unsignedSigned t u = 0 ↔ t.erase = u.erase := by
  rw [cmpWith_of_func_ne _ differ, simpleCmp_eq_zero]
  constructor
  · intro same
    exact absurd (func_of_code same) differ
  · intro same
    exact absurd same (erase_ne_of_func_ne differ)

include exact

/-- Either comparison finds no difference exactly between equal values. -/
theorem cmpWith_eq_zero {t u : Tree} :
    cmpWith unsignedSigned t u = 0 ↔ t.erase = u.erase := by
  by_cases kind : t.func = u.func
  case neg => exact cmpWith_eq_zero_of_func_ne kind
  induction t generalizing u with
  | null =>
      cases u <;> cases kind
      exact ⟨fun _ => rfl, fun _ => rfl⟩
  | emptySlot =>
      cases u <;> cases kind
      exact ⟨fun _ => rfl, fun _ => rfl⟩
  | signed s a =>
      cases u with
      | signed t b => simp only [cmpWith, simpleCmp_eq_zero, erase, Plain.int.injEq]
      | unsigned t b =>
          simp only [cmpWith, erase, Plain.int.injEq]
          split
          case isTrue negative => exact ⟨fun bad => absurd bad (by decide), fun same => by omega⟩
          case isFalse => exact simpleCmp_eq_zero
      | _ => cases kind
  | unsigned s a =>
      cases u with
      | signed t b => simp only [cmpWith, exact, erase, Plain.int.injEq]
      | unsigned t b => simp only [cmpWith, simpleCmp_eq_zero, erase, Plain.int.injEq]
      | _ => cases kind
  | text s as =>
      cases u <;> cases kind
      simp only [cmpWith, lex_eq_zero, simpleCmp_eq_zero, List.forall₂_eq_eq_eq, erase,
        Plain.text.injEq]
  | vector s as ih =>
      cases u <;> cases kind
      rw [cmpWith, cmpItems_eq, lex_eq_zero, erase_vector, erase_vector, Plain.seq.injEq,
        ← forall₂_erase]
      refine forall₂_congr fun a mem b _ => ?_
      by_cases itemKind : a.func = b.func
      · exact ih a mem itemKind
      · exact cmpWith_eq_zero_of_func_ne itemKind

end Zero

theorem compare_eq_zero {t u : Tree} : compare t u = 0 ↔ t.erase = u.erase :=
  cmpWith_eq_zero fun _ _ => simpleCmp_eq_zero

theorem cmp_eq_zero {t u : Tree} : cmp t u = 0 ↔ t.erase = u.erase := by
  refine cmpWith_eq_zero fun a b => ?_
  unfold cmpUnsignedSigned
  split
  case isTrue negative => exact ⟨fun bad => absurd bad (by decide), fun same => by omega⟩
  case isFalse => exact simpleCmp_eq_zero

theorem forall₂_compare {as bs : List Tree} :
    List.Forall₂ (fun a b => compare a b = 0) as bs ↔ as.map erase = bs.map erase := by
  rw [← forall₂_erase]
  exact forall₂_congr fun a _ b _ => compare_eq_zero

theorem forall₂_cmp {as bs : List Tree} :
    List.Forall₂ (fun a b => cmp a b = 0) as bs ↔ as.map erase = bs.map erase := by
  rw [← forall₂_erase]
  exact forall₂_congr fun a _ b _ => cmp_eq_zero

/-! ## The comparison of the code -/

/-- A clash is less from both sides. -/
theorem Clash.cmp_eq {t u : Tree} (clash : Clash t u) : cmp t u = -1 ∧ cmp u t = -1 := by
  induction clash with
  | int negative => exact ⟨if_pos negative, if_pos negative⟩
  | item same clash ih =>
      obtain ⟨left, right⟩ := ih
      rw [cmp_vector, cmp_vector, lex_append_cons (forall₂_cmp.mpr same) (by rw [left]; decide),
        lex_append_cons (forall₂_cmp.mpr same.symm) (by rw [right]; decide)]
      exact ⟨left, right⟩

/-- The comparison of the code differs from the one by value only in a clash. -/
theorem clash_of_cmp_ne {t u : Tree} (differ : cmp t u ≠ compare t u) : Clash t u := by
  induction t generalizing u with
  | unsigned s a =>
      cases u with
      | signed t b =>
          refine .int ?_
          by_contra least
          exact differ (if_neg least)
      | _ => exact absurd rfl differ
  | vector s as ih =>
      cases u with
      | vector t bs =>
          rw [cmp_vector, compare_vector] at differ
          obtain ⟨ps, qs, a, b, as', bs', rfl, rfl, same, memA, -, apart⟩ :=
            exists_disagreement differ
          exact .item (forall₂_cmp.mp same) (ih a memA apart)
      | _ => exact absurd rfl differ
  | _ => cases u <;> exact absurd rfl differ

/-! ## Cycles -/

/-- Behind items of equal values a straddle puts `z` between `x` and `y`. -/
theorem Straddle.compare_eq {x y z : Tree} (straddle : Straddle x y z) :
    compare x z = -1 ∧ compare z y = -1 := by
  induction straddle with
  | code kind other above below =>
      have less : ∀ {a b : UInt32}, a < b → simpleCmp a b = -1 := by
        intro a b less
        rw [simpleCmp_u32, Int.sign_eq_neg_one_of_neg]
        have := UInt32.lt_iff_toNat_lt.mp less
        omega
      rw [compare_of_func_ne (Ne.symm other), compare_of_func_ne (by rw [← kind]; exact other)]
      exact ⟨less above, less below⟩
  | item same same' _ ih =>
      obtain ⟨left, right⟩ := ih
      rw [compare_vector, compare_vector,
        lex_append_cons (forall₂_compare.mpr (same.trans same')) (by rw [left]; decide),
        lex_append_cons (forall₂_compare.mpr same'.symm) (by rw [right]; decide)]
      exact ⟨left, right⟩

theorem code_lt {t u : Tree} (differ : t.func ≠ u.func) (le : compare t u ≤ 0) :
    t.type.code < u.type.code := by
  have apart : t.type.code ≠ u.type.code := fun same => differ (func_of_code same)
  rw [compare_of_func_ne differ, simpleCmp_u32, Int.sign_nonpos_iff] at le
  have apart' := mt UInt32.toNat_inj.mp apart
  rw [UInt32.lt_iff_toNat_lt]
  omega

/-- Values of two or three kinds that go round in a circle: the kind between the other
two is alone. -/
theorem straddle_of_kinds {a b c : Tree} (ab : compare a b ≤ 0) (bc : compare b c ≤ 0)
    (ca : compare c a ≤ 0) (kinds : ¬(a.func = b.func ∧ b.func = c.func)) :
    Straddle b a c ∨ Straddle c b a ∨ Straddle a c b := by
  by_cases kindAB : a.func = b.func
  · have kindBC : b.func ≠ c.func := fun same => kinds ⟨kindAB, same⟩
    have kindCA : c.func ≠ a.func := by rw [kindAB]; exact Ne.symm kindBC
    exact Or.inl (.code kindAB.symm (Ne.symm kindBC) (code_lt kindBC bc) (code_lt kindCA ca))
  by_cases kindBC : b.func = c.func
  · have kindCA : c.func ≠ a.func := by rw [← kindBC]; exact Ne.symm kindAB
    exact Or.inr (Or.inl (.code kindBC.symm (Ne.symm kindCA) (code_lt kindCA ca)
      (code_lt kindAB ab)))
  by_cases kindCA : c.func = a.func
  · exact Or.inr (Or.inr (.code kindCA.symm (Ne.symm kindAB) (code_lt kindAB ab)
      (code_lt kindBC bc)))
  · have first := UInt32.lt_iff_toNat_lt.mp (code_lt kindAB ab)
    have second := UInt32.lt_iff_toNat_lt.mp (code_lt kindBC bc)
    have third := UInt32.lt_iff_toNat_lt.mp (code_lt kindCA ca)
    omega

/-- Numbers do not go round in a circle. -/
theorem number_cycle {a b c : Tree} {x y z : Int} (isX : a.number = some x)
    (isY : b.number = some y) (isZ : c.number = some z) (ab : compare a b ≤ 0)
    (bc : compare b c ≤ 0) (ca : compare c a ≤ 0) : compare a b = 0 ∧ compare b c = 0 := by
  rw [compare_number isX isY, simpleCmp_int] at ab ⊢
  rw [compare_number isY isZ, simpleCmp_int] at bc ⊢
  rw [compare_number isZ isX, simpleCmp_int] at ca
  rw [Int.sign_nonpos_iff] at ab bc ca
  rw [Int.sign_eq_zero_iff_zero, Int.sign_eq_zero_iff_zero]
  omega

/-- Strings do not go round in a circle. -/
theorem text_cycle {as bs cs : List UInt32} (ab : lex simpleCmp as bs ≤ 0)
    (bc : lex simpleCmp bs cs ≤ 0) (ca : lex simpleCmp cs as ≤ 0) :
    lex simpleCmp as bs = 0 ∧ lex simpleCmp bs cs = 0 := by
  by_contra apart
  have close : ∀ a b c : UInt32, simpleCmp a b = 0 → simpleCmp b c = 0 → simpleCmp c a = 0 := by
    intro a b c same same'
    rw [simpleCmp_eq_zero] at same same' ⊢
    rw [same, same']
  obtain ⟨-, -, -, a, b, c, -, -, -, -, -, -, -, -, le, le', le'', differ⟩ :=
    exists_cycle close ab bc ca apart
  rw [simpleCmp_u32] at le le' le'' differ
  rw [simpleCmp_u32] at differ
  rw [Int.sign_nonpos_iff] at le le' le''
  rw [Int.sign_eq_zero_iff_zero, Int.sign_eq_zero_iff_zero] at differ
  omega

/-- Three trees that go round in a circle, and are not all of one value, have a
straddle. -/
theorem exists_straddle {a b c : Tree} (ab : compare a b ≤ 0) (bc : compare b c ≤ 0)
    (ca : compare c a ≤ 0) (apart : ¬(compare a b = 0 ∧ compare b c = 0)) :
    Straddle b a c ∨ Straddle c b a ∨ Straddle a c b := by
  by_cases kinds : a.func = b.func ∧ b.func = c.func
  case neg => exact straddle_of_kinds ab bc ca kinds
  obtain ⟨kindAB, kindBC⟩ := kinds
  induction a generalizing b c with
  | null => cases b <;> cases kindAB; cases c <;> cases kindBC; exact absurd ⟨rfl, rfl⟩ apart
  | emptySlot =>
      cases b <;> cases kindAB; cases c <;> cases kindBC; exact absurd ⟨rfl, rfl⟩ apart
  | signed s x =>
      cases b <;> cases kindAB <;> cases c <;> cases kindBC <;>
        exact absurd (number_cycle rfl rfl rfl ab bc ca) apart
  | unsigned s x =>
      cases b <;> cases kindAB <;> cases c <;> cases kindBC <;>
        exact absurd (number_cycle rfl rfl rfl ab bc ca) apart
  | text s xs =>
      cases b <;> cases kindAB
      cases c <;> cases kindBC
      exact absurd (text_cycle ab bc ca) apart
  | vector s xs ih =>
      cases b <;> cases kindAB
      cases c <;> cases kindBC
      rw [compare_vector] at ab bc ca apart
      rw [compare_vector] at apart
      have close : ∀ a b c, compare a b = 0 → compare b c = 0 → compare c a = 0 := by
        intro a b c same same'
        rw [compare_eq_zero] at same same' ⊢
        rw [same, same']
      obtain ⟨ps, qs, rs, x, y, z, xs', ys', zs', rfl, rfl, rfl, pq, qr, xy, yz, zx, differ⟩ :=
        exists_cycle close ab bc ca apart
      have prefixes := forall₂_compare.mp pq
      have prefixes' := forall₂_compare.mp qr
      have items : Straddle y x z ∨ Straddle z y x ∨ Straddle x z y := by
        by_cases itemKinds : x.func = y.func ∧ y.func = z.func
        · exact ih x (by simp) xy yz zx differ itemKinds.1 itemKinds.2
        · exact straddle_of_kinds xy yz zx itemKinds
      rcases items with straddle | straddle | straddle
      · exact Or.inl (.item prefixes.symm (prefixes.trans prefixes') straddle)
      · exact Or.inr (Or.inl (.item prefixes'.symm prefixes.symm straddle))
      · exact Or.inr (Or.inr (.item (prefixes.trans prefixes') prefixes'.symm straddle))

end Tree

end Pointless
