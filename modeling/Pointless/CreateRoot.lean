import Pointless.CreateAlloc
import Pointless.CreateShape

/-!
# The root of a create-time state

No call but `pointless_create_set_root` moves the root, and no call takes a value back: the
root of a state is unset, or the handle of one of its values.
-/

namespace Pointless

open ExceptRules

variable {c c' c'' : Create} {handle : UInt32}

/-- The root stays where it is, and the values are kept. -/
structure KeepsRoot (c c' : Create) : Prop where
  root : c'.root = c.root
  values : c.values <+: c'.values

theorem KeepsRoot.refl (c : Create) : KeepsRoot c c := ⟨rfl, List.prefix_refl _⟩

theorem IsHandle.keep (isHandle : IsHandle c handle) (values : c.values <+: c'.values) :
    IsHandle c' handle := by
  rcases isHandle with ⟨v, at_h, own⟩
  exact ⟨v, getElem?_grown values at_h, own⟩

/-- The root is unset or names a value. -/
def RootOk (c : Create) : Prop := c.root = uint32Max ∨ IsHandle c c.root

theorem RootOk.keep (ok : RootOk c) (keeps : KeepsRoot c c') : RootOk c' := by
  rw [RootOk, keeps.root]
  exact ok.imp_right fun isHandle => isHandle.keep keeps.values

/-! ## The steps of the calls -/

theorem keepsRoot_pushValue (c : Create) (v : CreateValue) : KeepsRoot c (pushValue c v).2 :=
  ⟨rfl, List.prefix_append _ _⟩

theorem keepsRoot_pushCached (c : Create) (handle : UInt32) (v : CreateValue)
    (set : CreateCache → UInt32 → CreateCache) : KeepsRoot c (pushCached c handle v set).2 := by
  rw [pushCached]
  split
  · exact .refl c
  · exact ⟨rfl, List.prefix_append _ _⟩

theorem keepsRoot_text (c : Create) (type : ValueType) (buffer : List UInt8) :
    KeepsRoot c (createStringUnicode c type buffer).2 := by
  rw [createStringUnicode]
  split
  · exact .refl c
  · exact ⟨rfl, List.prefix_append _ _⟩

theorem keepsRoot_bitvectorHeap (c : Create) (buffer : List UInt8) (normalize : Bool) :
    KeepsRoot c (createBitvectorHeap c buffer normalize).2 := by
  rw [createBitvectorHeap]
  split
  · exact .refl c
  · exact ⟨rfl, List.prefix_append _ _⟩

theorem keepsRoot_bitvector {v : List UInt8} {nBits : UInt32} {normalize : Bool}
    (done : createBitvector_ c v nBits normalize = .ok (handle, c')) : KeepsRoot c c' := by
  rw [createBitvector_] at done
  rcases bind_eq_ok.mp done with ⟨compressed, -, done⟩
  split at done
  · cases done
    exact keepsRoot_pushValue c _
  · split at done
    · cases done
    · rename_i bits _
      have same : (createBitvectorHeap c (bytesU32 nBits ++ bits) normalize).2 = c' :=
        congrArg Prod.snd (Except.ok.inj done)
      rw [← same]
      exact keepsRoot_bitvectorHeap c _ normalize

theorem keepsRoot_modify {vector : UInt32} {change : Dynarray → Dynarray}
    (done : modifyPrivVector c vector change = .ok c') : KeepsRoot c c' := by
  rw [modifyPrivVector] at done
  rcases bind_eq_ok.mp done with ⟨cv, -, done⟩
  rcases bind_eq_ok.mp done with ⟨arrays, -, same⟩
  cases same
  exact ⟨rfl, List.prefix_refl _⟩

theorem keepsRoot_append {vector : UInt32} {v : Nat}
    (done : createVectorAppendPriv c vector v = .ok (handle, c')) : KeepsRoot c c' := by
  rcases bind_eq_ok.mp done with ⟨c'', changed, same⟩
  cases same
  exact keepsRoot_modify changed

theorem keepsRoot_transfer {vector : UInt32} {items : List UInt32}
    (done : createVectorTransferPriv c vector items = .ok (handle, c')) : KeepsRoot c c' := by
  rw [createVectorTransferPriv] at done
  rcases bind_eq_ok.mp done with ⟨cv, -, done⟩
  rcases bind_eq_ok.mp done with ⟨array, -, done⟩
  split at done
  · cases done
    exact .refl c
  · rcases bind_eq_ok.mp done with ⟨c'', changed, same⟩
    cases same
    exact keepsRoot_modify changed

/-- A call that does not set the root keeps it. -/
theorem keepsRoot_call {call : Call} (shaped : Shaped c) (valid : call.Valid c)
    (narrow : call.Narrow) (other : ∀ root, call ≠ .setRoot root)
    (done : call.run c = .ok (handle, c')) (succeeded : handle ≠ createValueFail) :
    KeepsRoot c c' := by
  have answered {result : UInt32 × Create} (keeps : KeepsRoot c result.2)
      (run : call.run c = .ok result) : KeepsRoot c c' := by
    cases run.symm.trans done
    exact keeps
  have text {type : ValueType} {chars : List Nat}
      (created : call.created = some (.text type chars)) : KeepsRoot c c' :=
    answered (keepsRoot_text c type _) (run_text valid narrow created).2
  cases call with
  | setRoot root => exact absurd rfl (other root)
  | i32 | u32 | null | booleanTrue | booleanFalse | emptySlot =>
      exact answered (keepsRoot_pushCached c _ _ _) rfl
  | boolean v =>
      by_cases isTrue : v ≠ 0
      · exact answered (keepsRoot_pushCached c _ _ _) (congrArg Except.ok (if_pos isTrue))
      · exact answered (keepsRoot_pushCached c _ _ _) (congrArg Except.ok (if_neg isTrue))
  | float | bitvectorCompressed => exact answered (keepsRoot_pushValue c _) rfl
  | vectorValue => exact answered ⟨rfl, List.prefix_append _ _⟩ rfl
  | unicodeUcs4 | unicodeUcs2 | unicodeAscii | stringUcs4 | stringUcs2 | stringAscii =>
      exact text rfl
  | bitvector | bitvectorNoNormalize => exact keepsRoot_bitvector done
  | vectorNumber t =>
      exact answered ⟨rfl, List.prefix_append _ _⟩ (congrArg Except.ok (t.create_eq c))
  | vectorValueAppend vector v =>
      rw [Call.run, createVectorValueAppend, if_neg (not_outside valid.2)] at done
      exact keepsRoot_append done
  | vectorNumberAppend t vector v =>
      rw [Call.run, Memory.append_word] at done
      exact keepsRoot_append done
  | vectorValueSet vector i v =>
      rcases bind_eq_ok.mp done with ⟨c'', replaced, same⟩
      cases same
      rw [createVectorValueSet] at replaced
      rcases bind_eq_ok.mp replaced with ⟨cv, -, replaced⟩
      rcases bind_eq_ok.mp replaced with ⟨array, -, replaced⟩
      split at replaced
      · exact keepsRoot_modify replaced
      · cases replaced
  | vectorU32Transfer vector v => exact keepsRoot_transfer done
  | vectorValueTransfer vector v =>
      rw [Call.run, createVectorValueTransfer] at done
      split at done
      · cases done
        exact .refl c
      · exact keepsRoot_transfer done
  | vectorOwner t items nItems =>
      refine answered ?_ (congrArg Except.ok (t.owner_eq c items nItems))
      rw [createVectorOwnerPriv]
      split
      · exact keepsRoot_pushValue c _
      · exact ⟨rfl, List.prefix_append _ _⟩
  | set =>
      have room := room_of_createSet shaped done succeeded
      exact answered ⟨rfl, List.prefix_append _ _⟩ (createSet_eq (Nat.le_of_lt room))
  | map =>
      have room := room_of_createMap shaped done succeeded
      exact answered ⟨rfl, List.prefix_append _ _⟩ (createMap_eq (Nat.le_of_lt room))
  | setAdd s k =>
      rcases bind_eq_ok.mp done with ⟨cv, -, done⟩
      rcases bind_eq_ok.mp done with ⟨sets, -, same⟩
      cases same
      exact ⟨rfl, List.prefix_refl _⟩
  | mapAdd m k v =>
      rcases bind_eq_ok.mp done with ⟨cv, -, done⟩
      rcases bind_eq_ok.mp done with ⟨maps, -, same⟩
      cases same
      exact ⟨rfl, List.prefix_refl _⟩

/-- The root of every state that calls lead to. -/
theorem CreateReachable.rootOk (reachable : CreateReachable c) : RootOk c := by
  induction reachable with
  | begin32 => exact Or.inl rfl
  | begin64 => exact Or.inl rfl
  | @call c c' call handle before valid run succeeded ih =>
      by_cases isRoot : ∃ root, call = .setRoot root
      · rcases isRoot with ⟨root, rfl⟩
        cases run
        exact Or.inr valid
      · rcases narrowed_run valid with ⟨valid', narrow, same⟩
        rw [same] at run
        have other : ∀ root, call.narrowed ≠ .setRoot root := by
          intro root
          cases call
          case setRoot root => exact absurd ⟨root, rfl⟩ isRoot
          all_goals nofun
        exact ih.keep (keepsRoot_call before.shaped.2 valid' narrow other run succeeded)

end Pointless
