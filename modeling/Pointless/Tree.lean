import Pointless.Cmp
import Pointless.Lib.Lexicographic

/-!
# Values as trees

What a value without sets, maps, floats and bitvectors stands for: a tree whose
leaves are numbers and strings. The type tags stay in the tree, as comparison falls
back on them and reads an integer by them.

`Tree.cmp` is the comparison of `pointless_cmp.c` on trees, and `Tree.compare` the one
that goes by the values of integers alone.
-/

namespace Pointless

open Lexicographic

/-! ## Tags -/

/-- The types of integers that `pointless_is_signed` takes as signed. -/
inductive SignedTag where
  | i32
  | i64
  | boolean
  deriving DecidableEq, Repr

/-- The types of the other integers. -/
inductive UnsignedTag where
  | u32
  | u64
  deriving DecidableEq, Repr

/-- The types of strings. -/
inductive TextTag where
  | unicode
  | string
  deriving DecidableEq, Repr

/-- The types of vectors. -/
inductive VectorTag where
  | value
  | valueHashable
  | number (t : NumberType)
  | empty
  deriving DecidableEq, Repr

def SignedTag.type : SignedTag → ValueType
  | i32 => .i32
  | i64 => .i64
  | boolean => .boolean

def UnsignedTag.type : UnsignedTag → ValueType
  | u32 => .u32
  | u64 => .u64

def TextTag.type : TextTag → ValueType
  | unicode => .unicode
  | string => .string

def VectorTag.type : VectorTag → ValueType
  | value => .vectorValue
  | valueHashable => .vectorValueHashable
  | number t => t.vectorType
  | empty => .vectorEmpty

/-! ## Trees -/

/-- A value without sets, maps, floats and bitvectors. A string has the characters
before its terminator. -/
inductive Tree where
  | null
  | emptySlot
  | signed (t : SignedTag) (v : Int)
  | unsigned (t : UnsignedTag) (v : Nat)
  | text (t : TextTag) (chars : List UInt32)
  | vector (t : VectorTag) (items : List Tree)

namespace Tree

/-- Induction on a tree, with the hypothesis for each item of a vector. -/
@[induction_eliminator]
theorem induction {motive : Tree → Prop} (null : motive null) (emptySlot : motive emptySlot)
    (signed : ∀ t v, motive (signed t v)) (unsigned : ∀ t v, motive (unsigned t v))
    (text : ∀ t chars, motive (text t chars))
    (vector : ∀ t items, (∀ x ∈ items, motive x) → motive (vector t items)) (t : Tree) :
    motive t :=
  Tree.rec (motive_1 := motive) (motive_2 := fun items => ∀ x ∈ items, motive x)
    null emptySlot signed unsigned text vector
    (fun _ mem => absurd mem List.not_mem_nil)
    (fun _ _ head tail x mem => (List.mem_cons.mp mem).elim (fun same => same ▸ head) (tail x)) t

/-- The type tag. -/
def type : Tree → ValueType
  | null => .null
  | emptySlot => .emptySlot
  | signed t _ => t.type
  | unsigned t _ => t.type
  | text t _ => t.type
  | vector t _ => t.type

/-- The callback that compares such values. -/
def func : Tree → CmpFunc
  | null => .null
  | emptySlot => .emptySlot
  | signed _ _ | unsigned _ _ => .intFloat
  | text _ _ => .stringUnicode
  | vector _ _ => .vector

theorem cmpReaderFunc_type (t : Tree) : cmpReaderFunc t.type = some t.func := by
  cases t with
  | null => rfl
  | emptySlot => rfl
  | signed t _ => cases t <;> rfl
  | unsigned t _ => cases t <;> rfl
  | text t _ => cases t <;> rfl
  | vector t _ =>
      cases t with
      | number t => cases t <;> rfl
      | _ => rfl

/-- Trees with one code have one callback. -/
theorem func_of_code {t u : Tree} (same : t.type.code = u.type.code) : t.func = u.func := by
  have known : ∀ w : Tree, w.type.Known := by
    intro w
    have func := w.cmpReaderFunc_type
    cases type : w.type with
    | unknown code =>
        rw [type] at func
        cases func
    | _ => trivial
  have types : t.type = u.type := by
    rw [← ValueType.ofCode_code (known t), ← ValueType.ofCode_code (known u), same]
  exact Option.some.inj (by rw [← t.cmpReaderFunc_type, ← u.cmpReaderFunc_type, types])

/-- The integer that a tree is. -/
def number : Tree → Option Int
  | signed _ v => some v
  | unsigned _ v => some v
  | _ => none

/-! ## Comparison -/

/-- The branch of `pointless_cmp_int_float` for an unsigned and a signed integer. -/
def cmpUnsignedSigned (a : Nat) (b : Int) : Int := if b < 0 then -1 else simpleCmp (a : Int) b

section Comparison

variable (unsignedSigned : Nat → Int → Int)

mutual

/-- The comparison of two trees, over the comparison of an unsigned with a signed
integer. -/
def cmpWith : Tree → Tree → Int
  | null, null => 0
  | emptySlot, emptySlot => 0
  | signed _ a, signed _ b => simpleCmp a b
  | unsigned _ a, unsigned _ b => simpleCmp (a : Int) b
  | signed _ a, unsigned _ b => if a < 0 then -1 else simpleCmp a b
  | unsigned _ a, signed _ b => unsignedSigned a b
  | text _ as, text _ bs => lex simpleCmp as bs
  | vector _ as, vector _ bs => cmpItems as bs
  | t, u => simpleCmp t.type.code u.type.code

/-- The comparison of the items of two vectors. -/
def cmpItems : List Tree → List Tree → Int
  | [], [] => 0
  | [], _ :: _ => -1
  | _ :: _, [] => 1
  | a :: as, b :: bs => if cmpWith a b = 0 then cmpItems as bs else cmpWith a b

end

theorem cmpItems_eq (as bs : List Tree) :
    cmpItems unsignedSigned as bs = lex (cmpWith unsignedSigned) as bs := by
  induction as generalizing bs with
  | nil => cases bs <;> rfl
  | cons a as ih =>
      cases bs with
      | nil => rfl
      | cons b bs => rw [cmpItems, lex, ih]

/-- Trees whose callbacks differ are compared by their tags. -/
theorem cmpWith_of_func_ne {t u : Tree} (differ : t.func ≠ u.func) :
    cmpWith unsignedSigned t u = simpleCmp t.type.code u.type.code := by
  cases t <;> cases u <;> first | rfl | exact absurd rfl differ

end Comparison

/-- The comparison that the code makes. -/
def cmp : Tree → Tree → Int := cmpWith cmpUnsignedSigned

/-- The comparison by the values of integers. -/
def compare : Tree → Tree → Int := cmpWith fun a b => simpleCmp (a : Int) b

theorem cmp_vector (s t : VectorTag) (as bs : List Tree) :
    cmp (vector s as) (vector t bs) = lex cmp as bs := cmpItems_eq _ as bs

theorem compare_vector (s t : VectorTag) (as bs : List Tree) :
    compare (vector s as) (vector t bs) = lex compare as bs := cmpItems_eq _ as bs

theorem compare_of_func_ne {t u : Tree} (differ : t.func ≠ u.func) :
    compare t u = simpleCmp t.type.code u.type.code := cmpWith_of_func_ne _ differ

theorem compare_number {t u : Tree} {a b : Int} (left : t.number = some a)
    (right : u.number = some b) : compare t u = simpleCmp a b := by
  cases t <;> cases left <;> cases u <;> cases right <;> first
    | rfl
    | (rename_i b
       change (if _ < 0 then (-1 : Int) else _) = _
       split
       case isTrue negative => rw [simpleCmp, if_neg (by omega), if_pos (by omega)]
       case isFalse => rfl)

end Tree

/-! ## Plain values -/

/-- A value without its type tags: what it is to Python, where `True` is 1. -/
inductive Plain where
  | null
  | emptySlot
  | int (v : Int)
  | text (chars : List UInt32)
  | seq (items : List Plain)

namespace Tree

mutual

/-- The value without its type tags. -/
def erase : Tree → Plain
  | null => .null
  | emptySlot => .emptySlot
  | signed _ v => .int v
  | unsigned _ v => .int v
  | text _ chars => .text chars
  | vector _ items => .seq (eraseItems items)

def eraseItems : List Tree → List Plain
  | [] => []
  | x :: xs => erase x :: eraseItems xs

end

theorem eraseItems_eq (items : List Tree) : eraseItems items = items.map erase := by
  induction items with
  | nil => rfl
  | cons x xs ih => rw [eraseItems, ih, List.map_cons]

theorem erase_vector (t : VectorTag) (items : List Tree) :
    (vector t items).erase = .seq (items.map erase) := by rw [erase, eraseItems_eq]

theorem erase_ne_of_func_ne {t u : Tree} (differ : t.func ≠ u.func) : t.erase ≠ u.erase := by
  cases t <;> cases u <;> first | exact absurd rfl differ | (simp [erase])

end Tree

end Pointless
