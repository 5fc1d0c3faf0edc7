import Pointless.CreateShape
import Pointless.VectorCompression

/-!
# What a create state is prepared to

`pointless_create_output_and_end_` renumbers the values, tags and compresses the vectors,
and fills the vectors of the sets and maps before it writes anything. `Becomes` says what
this makes of a value; `Prepares` is the whole of it, and `prepare_prepares` that this is
what the code does.
-/

namespace Pointless

open ByteMemory ExceptRules Ranks

variable {c c' : Create} {arrays : List Dynarray} {v w : CreateValue}

/-! ## What becomes of a value -/

/-- The type that compression gives to a vector of handles of the values `items`. -/
def itemsType (type : ValueType) (items : List CreateValue) : ValueType :=
  match items.foldlM ItemRange.add ⟨0, 0, false, false⟩ with
  | none => type
  | some s => if s.initFloat then .vectorFloat else rangeType s.minInt s.maxInt

/-- The array of handles has the values `items`. -/
def HasItems (c : Create) (array : Dynarray) (items : List CreateValue) : Prop :=
  array.items.mapM (fun n => c.values[n]?) = some items

/-- A table of `c` has so many buckets. -/
def TableSize (c : Create) (n : Nat) : Prop :=
  ∃ v ∈ c.values, ∃ t nBuckets, tableParts c v = .ok t ∧
    hashComputeNBuckets (UInt32.ofNat t.keys.length) = .ok nBuckets ∧ n = nBuckets.toNat

/-- The pool that a value is written to. Unlike `CreateValue.pool` it is that of a vector
also after it has been tagged hashable. -/
def CreateValue.heapPool (v : CreateValue) : Option Pool :=
  match v.type with
  | .vectorValueHashable => some (if v.isOutsideVector then .outside else .priv)
  | _ => v.pool

/-- What is made of a value, when the private vectors have the items `arrays`. -/
inductive Becomes (c : Create) (arrays : List Dynarray) : CreateValue → CreateValue → Prop
  | same {v : CreateValue} (other : v.heapPool ≠ some .priv) : Becomes c arrays v v
  | emptied {type : ValueType} {d : UInt32} {array : Dynarray} (isVector : IsPrivType type)
    (item : c.privVectorValues[d.toNat]? = some array) (none_ : array.nItems = 0) :
    Becomes c arrays (.plain type d) (.plain .vectorEmpty 0)
  | numbers {t : NumberType} {d d' : UInt32} {array : Dynarray}
    (item : c.privVectorValues[d.toNat]? = some array) (some_ : array.nItems ≠ 0)
    (item' : arrays[d'.toNat]? = some array) :
    Becomes c arrays (.plain t.vectorType d) (.plain t.vectorType d')
  | handles {type : ValueType} {d d' : UInt32} {array : Dynarray}
    (isValue : type = .vectorValue ∨ type = .vectorValueHashable)
    (item : c.privVectorValues[d.toNat]? = some array) (some_ : array.nItems ≠ 0)
    (item' : arrays[d'.toNat]? = some array) :
    Becomes c arrays (.plain .vectorValue d) (.plain type d')
  | compressed {t : NumberType} {d d' : UInt32} {array : Dynarray} {items : List CreateValue}
    (isItems : HasItems c array items) (isType : itemsType .vectorValue items = t.vectorType)
    (item : c.privVectorValues[d.toNat]? = some array) (some_ : array.nItems ≠ 0)
    (item' : arrays[d'.toNat]? = some array) :
    Becomes c arrays (.plain .vectorValue d) ⟨t.vectorType, true, false, false, d'⟩
  | table {type type' : ValueType} {d d' : UInt32} {array : Dynarray} {items : List Nat}
    (isVector : IsPrivType type)
    (isType : type' = type ∨ type = .vectorValue ∧ type' = .vectorValueHashable)
    (item : c.privVectorValues[d.toNat]? = some array)
    (item' : arrays[d'.toNat]? = some { array with items })
    (size : items = array.items ∨ TableSize c items.length) :
    Becomes c arrays ⟨type, false, true, false, d⟩ ⟨type', false, true, false, d'⟩

/-- Every value has become one of `values`. -/
structure AllBecome (c : Create) (arrays : List Dynarray) (values : List CreateValue) : Prop where
  length : values.length = c.values.length
  becomes : ∀ (i : Nat) (v : CreateValue), c.values[i]? = some v →
    ∃ w, values[i]? = some w ∧ Becomes c arrays v w

theorem Becomes.mono {arrays' : List Dynarray} (grown : arrays <+: arrays')
    (becomes : Becomes c arrays v w) : Becomes c arrays' v w := by
  cases becomes with
  | same other => exact .same other
  | emptied isVector item none_ => exact .emptied isVector item none_
  | numbers item some_ item' => exact .numbers item some_ (getElem?_grown grown item')
  | handles isValue item some_ item' =>
      exact .handles isValue item some_ (getElem?_grown grown item')
  | compressed isItems isType item some_ item' =>
      exact .compressed isItems isType item some_ (getElem?_grown grown item')
  | table isVector isType item item' size =>
      exact .table isVector isType item (getElem?_grown grown item') size

/-! ## Renumbering -/

/-- The values before have been renumbered to `values`, with the counters `s`. -/
structure Renumbered (c : Create) (before values : List CreateValue) (s : Numbering) : Prop where
  length : values.length = before.length
  becomes : ∀ (i : Nat) (v : CreateValue), before[i]? = some v →
    ∃ w, values[i]? = some w ∧ Becomes c s.newPrivVectorValues v w
  ranked : Ranked CreateValue.heapPool (fun v => v.data.toNat) values
  arrays : s.newPrivVectorValues.length = count CreateValue.heapPool values .priv
  others : ∀ p ≠ Pool.priv, count CreateValue.heapPool values p = count CreateValue.pool before p
  nPrivVectors : s.nPrivVectors = UInt32.ofNat (count CreateValue.heapPool values .priv)
  nOutsideVectors : s.nOutsideVectors = UInt32.ofNat (count CreateValue.heapPool values .outside)
  nSets : s.nSets = UInt32.ofNat (count CreateValue.heapPool values .set)
  nMaps : s.nMaps = UInt32.ofNat (count CreateValue.heapPool values .map)

theorem renumbered_nil (c : Create) : Renumbered c [] [] ⟨[], 0, 0, 0, 0⟩ :=
  ⟨rfl, nofun, Ranked.nil, rfl, fun _ _ => rfl, rfl, rfl, rfl, rfl⟩

theorem ofNat_succ (n : Nat) : UInt32.ofNat n + 1 = UInt32.ofNat (n + 1) := (UInt32.ofNat_add n 1).symm

/-- A counter goes up with the values of its pool. -/
def Counts (w : CreateValue) (p : Pool) (n n' : UInt32) : Prop :=
  n' = if w.heapPool = some p then n + 1 else n

/-- One value more, and with it an array if it is a vector of the library's. -/
theorem Renumbered.push {before values : List CreateValue} {s s' : Numbering}
    (renumbered : Renumbered c before values s) (becomes : Becomes c s'.newPrivVectorValues v w)
    (grown : s.newPrivVectorValues <+: s'.newPrivVectorValues)
    (next : ∀ p, w.heapPool = some p → w.data.toNat = count CreateValue.heapPool values p)
    (others : ∀ p ≠ Pool.priv, w.heapPool = some p ↔ v.pool = some p)
    (arrays : s'.newPrivVectorValues.length
      = s.newPrivVectorValues.length + if w.heapPool = some .priv then 1 else 0)
    (nPrivVectors : Counts w .priv s.nPrivVectors s'.nPrivVectors)
    (nOutsideVectors : Counts w .outside s.nOutsideVectors s'.nOutsideVectors)
    (nSets : Counts w .set s.nSets s'.nSets) (nMaps : Counts w .map s.nMaps s'.nMaps) :
    Renumbered c (before ++ [v]) (values ++ [w]) s' := by
  have counts (p : Pool) : count CreateValue.heapPool (values ++ [w]) p
      = count CreateValue.heapPool values p + if w.heapPool = some p then 1 else 0 := by
    rw [count_append, count_singleton]
  have counter {p : Pool} {n n' : UInt32} (old : n = UInt32.ofNat (count CreateValue.heapPool values p))
      (new : Counts w p n n') : n' = UInt32.ofNat (count CreateValue.heapPool (values ++ [w]) p) := by
    rw [new, counts p, old]
    split
    · exact ofNat_succ _
    · rfl
  refine ⟨by simp [renumbered.length], fun i u at_i => ?_, renumbered.ranked.push next, ?_,
    fun p isOther => ?_, counter renumbered.nPrivVectors nPrivVectors,
    counter renumbered.nOutsideVectors nOutsideVectors, counter renumbered.nSets nSets,
    counter renumbered.nMaps nMaps⟩
  · rcases getElem?_of_push at_i with old | ⟨rfl, rfl⟩
    · obtain ⟨x, at_x, became⟩ := renumbered.becomes i u old
      exact ⟨x, getElem?_push at_x, became.mono grown⟩
    · rw [← renumbered.length]
      exact ⟨w, getElem?_pushed _ _, becomes⟩
  · rw [arrays, counts, renumbered.arrays]
  · rw [counts, count_append, count_singleton, renumbered.others p isOther]
    simp only [others p isOther]

/-- A value that is no vector of the library's is renumbered to itself. -/
theorem Renumbered.keep {before values : List CreateValue} {s s' : Numbering}
    (renumbered : Renumbered c before values s) (other : v.pool ≠ some .priv)
    (heap : v.heapPool = v.pool)
    (next : ∀ p, v.pool = some p → v.data.toNat = count CreateValue.pool before p)
    (arrays : s'.newPrivVectorValues = s.newPrivVectorValues)
    (nPrivVectors : s'.nPrivVectors = s.nPrivVectors)
    (nOutsideVectors : Counts v .outside s.nOutsideVectors s'.nOutsideVectors)
    (nSets : Counts v .set s.nSets s'.nSets) (nMaps : Counts v .map s.nMaps s'.nMaps) :
    Renumbered c (before ++ [v]) (values ++ [v]) s' := by
  have notPriv : v.heapPool ≠ some .priv := by
    rw [heap]
    exact other
  refine renumbered.push (.same notPriv) (by rw [arrays]) (fun p pool => ?_)
    (fun p _ => by rw [heap]) ?_ ?_ nOutsideVectors nSets nMaps
  · have isOther : p ≠ .priv := by
      rintro rfl
      exact notPriv pool
    rw [renumbered.others p isOther]
    rw [heap] at pool
    exact next p pool
  · rw [arrays, if_neg notPriv]
    rfl
  · rw [Counts, if_neg notPriv]
    exact nPrivVectors

/-- An empty vector becomes the empty vector. -/
theorem Renumbered.empty {before values : List CreateValue} {s : Numbering}
    (renumbered : Renumbered c before values s) {type : ValueType} {d : UInt32}
    {array : Dynarray} (isVector : IsPrivType type)
    (item : c.privVectorValues[d.toNat]? = some array) (none_ : array.nItems = 0) :
    Renumbered c (before ++ [.plain type d]) (values ++ [.plain .vectorEmpty 0]) s := by
  have pool : (CreateValue.plain type d).pool = some .priv := pool_priv isVector
  refine renumbered.push (.emptied isVector item none_) (List.prefix_refl _) (fun p pool => ?_)
    (fun p isOther => ?_) rfl rfl rfl rfl rfl
  · cases pool
  · rw [pool]
    constructor
    · nofun
    · intro same
      exact absurd (Option.some.inj same).symm isOther

/-- A vector that is written gets the next array. -/
theorem Renumbered.take {before values : List CreateValue} {s : Numbering}
    (renumbered : Renumbered c before values s) {type : ValueType} {d : UInt32} {table : Bool}
    {array : Dynarray} (isVector : IsPrivType type)
    (item : c.privVectorValues[d.toNat]? = some array) (written : ¬(array.nItems = 0 ∧ ¬table))
    (room : values.length < 2 ^ 32) :
    Renumbered c (before ++ [⟨type, false, table, false, d⟩])
      (values ++ [⟨type, false, table, false, s.nPrivVectors⟩])
      { s with
        newPrivVectorValues := s.newPrivVectorValues ++ [array]
        nPrivVectors := s.nPrivVectors + 1 } := by
  have pool (d : UInt32) : (CreateValue.mk type false table false d).heapPool = some .priv ∧
      (CreateValue.mk type false table false d).pool = some .priv := by
    rcases isVector with rfl | ⟨t, rfl⟩
    · exact ⟨rfl, rfl⟩
    · cases t
      all_goals exact ⟨rfl, rfl⟩
  have data : s.nPrivVectors.toNat = count CreateValue.heapPool values .priv := by
    rw [renumbered.nPrivVectors]
    exact toNat_handle (Nat.lt_of_le_of_lt (count_le_length values _) room)
  have item' : (s.newPrivVectorValues ++ [array])[s.nPrivVectors.toNat]? = some array := by
    rw [data, ← renumbered.arrays]
    exact getElem?_pushed _ _
  have others (p : Pool) (isOther : p ≠ .priv) (d d' : UInt32) :
      (CreateValue.mk type false table false d).heapPool = some p ↔
        (CreateValue.mk type false table false d').pool = some p := by
    rw [(pool d).1, (pool d').2]
  refine renumbered.push ?_ (List.prefix_append _ _) (fun p here => ?_)
    (fun p isOther => others p isOther _ _) ?_ ?_ ?_ ?_ ?_
  · cases table with
    | true => exact .table isVector (Or.inl rfl) item item' (Or.inl rfl)
    | false =>
        have some_ : array.nItems ≠ 0 := fun none_ => written ⟨none_, Bool.false_ne_true⟩
        rcases isVector with rfl | ⟨t, rfl⟩
        · exact .handles (Or.inl rfl) item some_ item'
        · exact .numbers item some_ item'
  · rw [(pool _).1] at here
    cases here
    exact data
  · rw [if_pos (pool _).1, List.length_append]
    rfl
  all_goals
    rw [Counts, (pool _).1]
    rfl

/-- What the round for a value does. -/
theorem Renumbered.step {before values : List CreateValue} {s s' : Numbering}
    (renumbered : Renumbered c before values s) (fits : v.Fits c)
    (next : ∀ p, v.pool = some p → v.data.toNat = count CreateValue.pool before p)
    (room : values.length < 2 ^ 32) (done : renumberValue c v s = .ok (w, s')) :
    Renumbered c (before ++ [v]) (values ++ [w]) s' := by
  have counted {p : Pool} (pool : v.pool = some p) (isOther : p ≠ .priv) {n : UInt32}
      (counter : n = UInt32.ofNat (count CreateValue.heapPool values p)) : n = v.data := by
    rw [counter, renumbered.others p isOther, ← next p pool, UInt32.ofNat_toNat]
  have idle (other : v.pool ≠ some .priv) (heap : v.heapPool = v.pool)
      (outside : v.pool ≠ some .outside) (set : v.pool ≠ some .set) (map : v.pool ≠ some .map) :
      Renumbered c (before ++ [v]) (values ++ [v]) s := by
    refine renumbered.keep other heap next rfl rfl ?_ ?_ ?_
    · rw [Counts, heap, if_neg outside]
    · rw [Counts, heap, if_neg set]
    · rw [Counts, heap, if_neg map]
  cases fits with
  | @inline type d inline =>
      have kind : (CreateValue.plain type d).pool = none ∧
          (CreateValue.plain type d).heapPool = none ∧
          renumberValue c (.plain type d) s = .ok (.plain type d, s) := by
        cases type
        all_goals first | exact inline.elim | exact ⟨rfl, rfl, rfl⟩
      cases kind.2.2.symm.trans done
      refine idle ?_ (kind.2.1.trans kind.1.symm) ?_ ?_ ?_
      all_goals
        rw [kind.1]
        exact fun bad => by cases bad
  | text isText item =>
      rcases isText.1 with rfl | rfl
      all_goals
        cases done
        exact idle (fun bad => by cases bad) rfl (fun bad => by cases bad)
          (fun bad => by cases bad) fun bad => by cases bad
  | bits size item =>
      cases done
      exact idle (fun bad => by cases bad) rfl (fun bad => by cases bad)
        (fun bad => by cases bad) fun bad => by cases bad
  | @vector type d table array isVector fits unfilled item =>
      have run : renumberValue c ⟨type, false, table, false, d⟩ s = (do
          let vector ← cvGetPrivVector c ⟨type, false, table, false, d⟩
          if vector.nItems = 0 ∧ ¬table then
            pure (⟨.vectorEmpty, false, table, false, 0⟩, s)
          else
            pure (⟨type, false, table, false, s.nPrivVectors⟩,
              { s with
                newPrivVectorValues := s.newPrivVectorValues ++ [vector]
                nPrivVectors := s.nPrivVectors + 1 })) := by
        rcases isVector with rfl | ⟨t, rfl⟩
        · rfl
        · cases t
          all_goals rfl
      rw [run, cvGetPrivVector, itemAt_eq_ok.mpr item, ok_bind] at done
      split at done
      · rename_i empty
        cases done
        have own : table = false := eq_false_of_ne_true empty.2
        subst own
        exact renumbered.empty isVector item empty.1
      · rename_i written
        cases done
        exact renumbered.take isVector item written room
  | @owned t d nItems items size some_ item =>
      have run : renumberValue c ⟨t.vectorType, false, false, true, d⟩ s
          = .ok (⟨t.vectorType, false, false, true, d⟩,
            { s with nOutsideVectors := s.nOutsideVectors + 1 }) := by
        cases t
        all_goals rfl
      have pool : (CreateValue.mk t.vectorType false false true d).pool = some .outside ∧
          (CreateValue.mk t.vectorType false false true d).heapPool = some .outside := by
        cases t
        all_goals exact ⟨rfl, rfl⟩
      cases run.symm.trans done
      refine renumbered.keep (by rw [pool.1]; decide) (pool.2.trans pool.1.symm) next rfl rfl ?_ ?_ ?_
      all_goals
        rw [Counts, pool.2]
        rfl
  | @set d set keys hash keyVector item =>
      have data : s.nSets = d := counted (p := .set) rfl (by decide) renumbered.nSets
      rw [renumberValue] at done
      change Except.ok _ = _ at done
      rw [data] at done
      cases done
      refine renumbered.keep (fun bad => by cases bad) rfl next rfl rfl rfl ?_ rfl
      change d + 1 = s.nSets + 1
      rw [data]
  | @map d map keys values hash keyVector valueVector item =>
      have data : s.nMaps = d := counted (p := .map) rfl (by decide) renumbered.nMaps
      rw [renumberValue] at done
      change Except.ok _ = _ at done
      rw [data] at done
      cases done
      refine renumbered.keep (fun bad => by cases bad) rfl next rfl rfl rfl rfl ?_
      change d + 1 = s.nMaps + 1
      rw [data]

theorem renumberValues_renumbered (wf : WellFormed c) (shaped : Shaped c)
    {before rest values values' : List CreateValue} {s s' : Numbering}
    (whole : c.values = before ++ rest) (renumbered : Renumbered c before values s)
    (done : renumberValues c rest s = .ok (values', s')) :
    Renumbered c c.values (values ++ values') s' := by
  induction rest generalizing before values values' s with
  | nil =>
      cases done
      rw [List.append_nil] at whole ⊢
      rw [whole]
      exact renumbered
  | cons v rest ih =>
      rw [renumberValues] at done
      obtain ⟨⟨w, s₁⟩, step, later⟩ := bind_eq_ok.mp done
      obtain ⟨⟨ws, s₂⟩, run, same⟩ := bind_eq_ok.mp later
      cases same
      have here : c.values[before.length]? = some v := by
        rw [whole, List.getElem?_append_right (Nat.le_refl _), Nat.sub_self]
        rfl
      have room : values.length < 2 ^ 32 := by
        have fits := shaped.room
        have total := congrArg List.length whole
        rw [List.length_append] at total
        rw [renumbered.length]
        omega
      have next (p : Pool) (pool : v.pool = some p) :
          v.data.toNat = count CreateValue.pool before p := by
        have rank := wf.pools.ranked before.length v p here pool
        rw [whole, List.take_left] at rank
        exact rank
      have step' := renumbered.step (shaped.fits _ v here) next room step
      rw [List.append_cons values]
      exact ih (by rw [whole, List.append_cons]) step' run

/-! ## Tagging -/

/-- The values have changed, and none of them its pool or its place there. -/
structure Retagged (values values' : List CreateValue) : Prop where
  pools : values'.map CreateValue.heapPool = values.map CreateValue.heapPool
  data : values'.map (fun v => v.data.toNat) = values.map fun v => v.data.toNat

theorem Retagged.refl (values : List CreateValue) : Retagged values values := ⟨rfl, rfl⟩

theorem Retagged.trans {values values' values'' : List CreateValue}
    (first : Retagged values values') (second : Retagged values' values'') :
    Retagged values values'' :=
  ⟨second.pools.trans first.pools, second.data.trans first.data⟩

/-- Values change one by one into what they may become. -/
theorem AllBecome.retag {values values' : List CreateValue} (before : AllBecome c arrays values)
    (length : values'.length = values.length)
    (round : ∀ (i : Nat) (u x : CreateValue), c.values[i]? = some u → values[i]? = some x →
      Becomes c arrays u x → ∃ x', values'[i]? = some x' ∧ Becomes c arrays u x' ∧
        x'.heapPool = x.heapPool ∧ x'.data = x.data) :
    AllBecome c arrays values' ∧ Retagged values values' := by
  have maps {β : Type} {g : CreateValue → β}
      (same : ∀ x x' : CreateValue, x'.heapPool = x.heapPool → x'.data = x.data → g x' = g x) :
      values'.map g = values.map g := by
    refine List.ext_getElem? fun i => ?_
    rw [List.getElem?_map, List.getElem?_map]
    rcases Nat.lt_or_ge i values.length with inside | outside
    · have less : i < c.values.length := by rwa [← before.length]
      have at_i := List.getElem?_eq_getElem less
      obtain ⟨x, here, becomes⟩ := before.becomes i _ at_i
      obtain ⟨x', here', -, pool, data⟩ := round i _ x at_i here becomes
      rw [here, here', Option.map_some, Option.map_some, same x x' pool data]
    · rw [List.getElem?_eq_none_iff.mpr outside,
        List.getElem?_eq_none_iff.mpr (by rwa [length])]
  refine ⟨⟨length.trans before.length, fun i u at_u => ?_⟩, maps fun _ _ pool _ => pool,
    maps fun _ _ _ data => congrArg UInt32.toNat data⟩
  obtain ⟨x, here, becomes⟩ := before.becomes i u at_u
  obtain ⟨x', here', became, -⟩ := round i u x at_u here becomes
  exact ⟨x', here', became⟩

/-- What may become of a vector of handles that is tagged. -/
theorem Becomes.tag (becomes : Becomes c arrays v w) (isValue : w.type = .vectorValue)
    (inside : w.isOutsideVector = false) :
    Becomes c arrays v { w with type := .vectorValueHashable } ∧ w.heapPool = some .priv := by
  cases becomes with
  | same other =>
      refine absurd ?_ other
      rw [CreateValue.heapPool, CreateValue.pool, isValue, inside]
      rfl
  | emptied => cases isValue
  | @numbers t => exact absurd isValue (vectorType_ne_value t)
  | @handles type d d' array isTag item some_ item' =>
      obtain rfl : type = .vectorValue := isValue
      exact ⟨.handles (Or.inr rfl) item some_ item', rfl⟩
  | @compressed t => exact absurd isValue (vectorType_ne_value t)
  | @table type type' d d' array items isVector isType item item' size =>
      obtain rfl : type' = .vectorValue := isValue
      rcases isType with rfl | ⟨-, same⟩
      · exact ⟨.table isVector (Or.inr ⟨rfl, rfl⟩) item item' size, rfl⟩
      · cases same

/-- What the round for a value does. -/
theorem tagged_cases {cycleMarker : Bitmask} {i : Nat} {x : CreateValue}
    (done : (if w.type = .vectorValue ∧ ¬w.isOutsideVector then do
      let marked ← cycleMarker.isSet i
      pure (if marked then w else { w with type := .vectorValueHashable })
    else pure w : Res CreateValue) = .ok x) :
    x = w ∨ w.type = .vectorValue ∧ w.isOutsideVector = false ∧
      x = { w with type := .vectorValueHashable } := by
  split at done
  · rename_i vector
    obtain ⟨marked, -, tagged⟩ := bind_eq_ok.mp done
    cases tagged
    split
    · exact Or.inl rfl
    · exact Or.inr ⟨vector.1, eq_false_of_ne_true vector.2, rfl⟩
  · cases done
    exact Or.inl rfl

theorem markHashable_becomes {cycleMarker : Bitmask} {values values' : List CreateValue}
    (before : AllBecome c arrays values) (done : markHashable cycleMarker values = .ok values') :
    AllBecome c arrays values' ∧ Retagged values values' := by
  have each := mapM_eq_ok.mp done
  have length : values'.length = values.length := by
    rw [← each.length_eq, List.length_zipIdx]
  refine before.retag length fun i u x _ here becomes => ?_
  obtain ⟨inside, rfl⟩ := List.getElem?_eq_some_iff.mp here
  have inside' : i < values'.length := by rwa [length]
  have round := each.get (by rwa [List.length_zipIdx]) inside'
  simp only [List.get_eq_getElem, List.getElem_zipIdx, Nat.zero_add] at round
  refine ⟨values'[i], List.getElem?_eq_getElem inside', ?_⟩
  rcases tagged_cases round with same | ⟨isValue, own, tagged⟩
  · rw [same]
    exact ⟨becomes, rfl, rfl⟩
  · obtain ⟨became, pool⟩ := becomes.tag isValue own
    rw [tagged]
    refine ⟨became, ?_, rfl⟩
    rw [pool, CreateValue.heapPool, own]
    rfl

/-! ## Compression -/

/-- What the range of the items of a vector depends on is kept. -/
theorem Becomes.add_eq (becomes : Becomes c arrays v w) (s : ItemRange) : s.add w = s.add v := by
  have vector {t : NumberType} {v : CreateValue} (isVector : v.type = t.vectorType) :
      s.add v = none := by
    rw [ItemRange.add, isVector]
    cases t
    all_goals rfl
  have priv {type : ValueType} {v : CreateValue} (isPriv : IsPrivType type) (isType : v.type = type) :
      s.add v = none := by
    rcases isPriv with rfl | ⟨t, rfl⟩
    · rw [ItemRange.add, isType]
    · exact vector isType
  cases becomes with
  | same other => rfl
  | emptied isVector item none_ => exact (priv isVector rfl).symm
  | numbers item some_ item' => exact (vector rfl).trans (vector rfl).symm
  | handles isValue item some_ item' =>
      rcases isValue with rfl | rfl
      all_goals rfl
  | compressed isItems isType item some_ item' => exact vector rfl
  | @table type type' d d' array items isVector isType item item' size =>
      have before : s.add ⟨type, false, true, false, d⟩ = none := priv isVector rfl
      rw [before]
      rcases isType with rfl | ⟨-, rfl⟩
      · exact priv isVector rfl
      · rfl

/-- The values that handles name now, next to those that they named. -/
theorem AllBecome.items {values : List CreateValue} (before : AllBecome c arrays values)
    {ns : List Nat} (handles : ∀ n ∈ ns, IsHandleAt c n) :
    ∃ items items', ns.mapM (fun n => c.values[n]?) = some items ∧
      ns.mapM (fun n => values[n]?) = some items' ∧
      ∀ s : ItemRange, items'.foldlM ItemRange.add s = items.foldlM ItemRange.add s := by
  induction ns with
  | nil => exact ⟨[], [], rfl, rfl, fun _ => rfl⟩
  | cons n rest ih =>
      obtain ⟨items, items', named, named', same⟩ := ih fun m mem =>
        handles m (List.mem_cons_of_mem n mem)
      obtain ⟨u, at_n, -⟩ := handles n List.mem_cons_self
      obtain ⟨x, here, becomes⟩ := before.becomes n u at_n
      refine ⟨u :: items, x :: items', ?_, ?_, fun s => ?_⟩
      · rw [List.mapM_cons, at_n, named]
        rfl
      · rw [List.mapM_cons, here, named']
        rfl
      · rw [List.foldlM_cons, List.foldlM_cons, becomes.add_eq s]
        exact congrArg _ (funext same)

/-- The handle at a position of an array of handles. -/
theorem itemAtU32_eq {array : Dynarray} (size : array.itemSize = 4)
    (narrow : ∀ n ∈ array.items, n < 2 ^ 32) {k : Nat} (less : k < array.items.length) :
    array.itemAtU32 k = .ok (UInt32.ofNat array.items[k]) := by
  obtain ⟨w, items⟩ := array
  obtain rfl : w = 4 := size
  rw [Dynarray.itemAtU32, loadU32, Dynarray.loadWord_data narrow less]
  rfl

theorem mapM_some {α β : Type} {f : α → Option β} {as : List α} {bs : List β}
    (mapped : as.mapM f = some bs) :
    bs.length = as.length ∧
      ∀ (k : Nat) (b : β), bs[k]? = some b → ∃ a, as[k]? = some a ∧ f a = some b := by
  induction as generalizing bs with
  | nil =>
      cases mapped
      exact ⟨rfl, nofun⟩
  | cons a rest ih =>
      rw [List.mapM_cons] at mapped
      obtain ⟨b, first, later⟩ := Option.bind_eq_some_iff.mp mapped
      obtain ⟨bs', others, same⟩ := Option.bind_eq_some_iff.mp later
      cases same
      obtain ⟨length, each⟩ := ih others
      refine ⟨congrArg Nat.succ length, fun k x here => ?_⟩
      cases k with
      | zero =>
          cases here
          exact ⟨a, rfl, first⟩
      | succ k => exact each k x here

/-- The handles of an array name the values `items` of a state. -/
theorem itemsAre_of_named {array : Dynarray} {items : List CreateValue}
    (size : array.itemSize = 4) (room : c.values.length < 2 ^ 32) (named : HasItems c array items) :
    ItemsAre c array items := by
  obtain ⟨length, each⟩ := mapM_some named
  have narrow : ∀ n ∈ array.items, n < 2 ^ 32 := by
    intro n mem
    obtain ⟨k, less, rfl⟩ := List.getElem_of_mem mem
    obtain ⟨m, at_k, found⟩ := each k _ (List.getElem?_eq_getElem (by rwa [length]))
    rw [List.getElem?_eq_getElem less] at at_k
    cases at_k
    exact Nat.lt_trans (List.getElem?_eq_some_iff.mp found).1 room
  refine ⟨length.symm, fun k item here => ?_⟩
  obtain ⟨n, at_k, found⟩ := each k item here
  obtain ⟨less, rfl⟩ := List.getElem?_eq_some_iff.mp at_k
  refine ⟨_, itemAtU32_eq size narrow less, itemAt_eq_ok.mpr ?_⟩
  rw [toNat_handle (narrow _ (List.getElem_mem less))]
  exact found

/-- The answers of `pointless_create_vector_compression`. -/
theorem itemsType_cases (type : ValueType) (items : List CreateValue) :
    itemsType .vectorValue items = .vectorValue ∧
        (itemsType type items = type ∨ itemsType type items = .vectorValue) ∨
      ∃ t : NumberType, itemsType .vectorValue items = t.vectorType ∧
        itemsType type items = t.vectorType := by
  rw [itemsType, itemsType]
  cases items.foldlM ItemRange.add ⟨0, 0, false, false⟩ with
  | none => exact Or.inl ⟨rfl, Or.inl rfl⟩
  | some s =>
      dsimp only
      split
      · exact Or.inr ⟨.float, rfl, rfl⟩
      · rw [rangeType]
        repeat' split
        · exact Or.inr ⟨.u8, rfl, rfl⟩
        · exact Or.inr ⟨.u16, rfl, rfl⟩
        · exact Or.inr ⟨.u32, rfl, rfl⟩
        · exact Or.inr ⟨.i8, rfl, rfl⟩
        · exact Or.inr ⟨.i16, rfl, rfl⟩
        · exact Or.inr ⟨.i32, rfl, rfl⟩
        · exact Or.inl ⟨rfl, Or.inr rfl⟩

/-- A vector of handles whose items have no common type of numbers. -/
def Uncompressible (c : Create) (d : UInt32) : Prop :=
  ∃ array items, c.privVectorValues[d.toNat]? = some array ∧ HasItems c array items ∧
    itemsType .vectorValue items = .vectorValue

/-- A vector of handles that is still one has no common type of numbers. -/
def Settled (c : Create) (v w : CreateValue) : Prop :=
  ∀ d, v = .plain .vectorValue d → w.type = .vectorValue ∨ w.type = .vectorValueHashable →
    Uncompressible c d

/-- The values of `base` up to `n` have been through the compression loop. -/
structure Compressed (c base : Create) (n : Nat) (c' : Create) : Prop where
  state : c' = { base with values := c'.values }
  becomes : AllBecome c base.privVectorValues c'.values
  retagged : Retagged base.values c'.values
  settled : ∀ (i : Nat) (v w : CreateValue), i < n → c.values[i]? = some v →
    c'.values[i]? = some w → Settled c v w

theorem not_value_type (t : NumberType) :
    ¬(t.vectorType = .vectorValue ∨ t.vectorType = .vectorValueHashable) := by
  cases t
  all_goals simp [NumberType.vectorType]

/-- A vector that compression is tried on. -/
theorem compressible_cases (becomes : Becomes c arrays v w) (isCompressible : w.compressible = true) :
    ∃ type d d' array, (type = .vectorValue ∨ type = .vectorValueHashable) ∧
      v = .plain .vectorValue d ∧ w = .plain type d' ∧
      c.privVectorValues[d.toNat]? = some array ∧ array.nItems ≠ 0 ∧
      arrays[d'.toNat]? = some array := by
  have isValue : w.type = .vectorValue ∨ w.type = .vectorValueHashable := by
    rw [CreateValue.compressible] at isCompressible
    simp only [Bool.and_eq_true, Bool.or_eq_true, beq_iff_eq] at isCompressible
    exact isCompressible.1.1
  cases becomes with
  | same other =>
      simp only [CreateValue.compressible, Bool.and_eq_true, Bool.not_eq_true'] at isCompressible
      refine absurd ?_ other
      rcases isValue with same | same
      · rw [CreateValue.heapPool, same, CreateValue.pool, same, isCompressible.1.2]
        rfl
      · rw [CreateValue.heapPool, same, isCompressible.1.2]
        rfl
  | emptied => simp [CreateValue.plain] at isValue
  | @numbers t => exact absurd isValue (not_value_type t)
  | handles isType item some_ item' =>
      exact ⟨_, _, _, _, isType, rfl, rfl, item, some_, item'⟩
  | @compressed t => exact absurd isValue (not_value_type t)
  | table => simp [CreateValue.compressible] at isCompressible

/-- What compression makes of a vector of handles. -/
theorem compressed_becomes {type : ValueType} {d d' : UInt32} {array : Dynarray}
    {items : List CreateValue} (isType : type = .vectorValue ∨ type = .vectorValueHashable)
    (item : c.privVectorValues[d.toNat]? = some array) (some_ : array.nItems ≠ 0)
    (item' : arrays[d'.toNat]? = some array) (named : HasItems c array items) :
    Becomes c arrays (.plain .vectorValue d)
        ((CreateValue.plain type d').compressed (itemsType type items)) ∧
      ((CreateValue.plain type d').compressed (itemsType type items)).heapPool = some .priv ∧
      Settled c (.plain .vectorValue d)
        ((CreateValue.plain type d').compressed (itemsType type items)) := by
  rcases itemsType_cases type items with ⟨unfit, answer⟩ | ⟨t, fit, answer⟩
  · have stays : ∃ type', (type' = .vectorValue ∨ type' = .vectorValueHashable) ∧
        (CreateValue.plain type d').compressed (itemsType type items) = .plain type' d' := by
      rcases answer with same | mixed
      · refine ⟨type, isType, ?_⟩
        rw [same]
        rcases isType with rfl | rfl
        all_goals rfl
      · exact ⟨.vectorValue, Or.inl rfl, by rw [mixed]; rfl⟩
    obtain ⟨type', isType', same⟩ := stays
    rw [same]
    refine ⟨.handles isType' item some_ item', ?_, fun d₀ start _ => ?_⟩
    · rcases isType' with rfl | rfl
      all_goals rfl
    · cases start
      exact ⟨array, items, item, named, unfit⟩
  · rw [answer]
    have changed : (CreateValue.plain type d').compressed t.vectorType
        = ⟨t.vectorType, true, false, false, d'⟩ := by
      cases t
      all_goals rfl
    rw [changed]
    refine ⟨.compressed named fit item some_ item', ?_, fun _ _ isValue => ?_⟩
    · cases t
      all_goals rfl
    · exact absurd isValue (not_value_type t)

/-- The array of a vector of handles. -/
theorem Shaped.handles (shaped : Shaped c) {i : Nat} {d : UInt32} {array : Dynarray}
    (at_i : c.values[i]? = some (.plain .vectorValue d))
    (item : c.privVectorValues[d.toNat]? = some array) : FitsVector c .vectorValue array := by
  generalize same : CreateValue.plain .vectorValue d = v at at_i
  have fits := shaped.fits i v at_i
  cases fits with
  | inline inline =>
      cases same
      exact inline.elim
  | text isText =>
      cases same
      rcases isText.1 with h | h
      all_goals cases h
  | bits => cases same
  | vector isVector fits unfilled item' =>
      cases same
      cases Option.some.inj (item.symm.trans item')
      exact fits
  | owned => cases congrArg CreateValue.isOutsideVector same
  | set => cases same
  | map => cases same

theorem Compressed.step (shaped : Shaped c) {base cc cc' : Create} {n : Nat}
    (before : Compressed c base n cc) (inside : n < c.values.length)
    (done : compressValue cc n = .ok cc') : Compressed c base (n + 1) cc' := by
  have room := shaped.room
  have room' : cc.values.length < 2 ^ 32 := by rwa [before.becomes.length]
  have at_n := List.getElem?_eq_getElem inside
  obtain ⟨w, at_w, becomes⟩ := before.becomes.becomes n _ at_n
  have read : cvValueAt cc (UInt32.ofNat n) = .ok w :=
    itemAt_eq_ok.mpr (by rwa [toNat_handle (by omega)])
  have settled {cc' : Create} (others : ∀ i ≠ n, cc'.values[i]? = cc.values[i]?)
      (last : ∀ x, cc'.values[n]? = some x → Settled c c.values[n] x) :
      ∀ (i : Nat) (v x : CreateValue), i < n + 1 → c.values[i]? = some v →
        cc'.values[i]? = some x → Settled c v x := by
    intro i v x less at_v at_x
    by_cases same : i = n
    · subst same
      cases Option.some.inj (at_n.symm.trans at_v)
      exact last x at_x
    · rw [others i same] at at_x
      exact before.settled i v x (by omega) at_v at_x
  rw [compressValue, read, ok_bind] at done
  split at done
  · rename_i isCompressible
    obtain ⟨type, d, d', array, isType, start, rfl, item, some_, item'⟩ :=
      compressible_cases becomes isCompressible
    rw [start] at at_n settled
    obtain ⟨size, handles⟩ := (shaped.handles at_n item).handles rfl
    obtain ⟨items, items', named, named', same⟩ := before.becomes.items handles
    have isVector : PrivValueVector cc (.plain type d') array items' := by
      refine ⟨isType, rfl, ?_, itemsAre_of_named size room' named', ?_⟩
      · rw [before.state]
        exact itemAt_eq_ok.mpr item'
      · rintro rfl
        exact some_ (mapM_some named').1.symm
    have answer : createVectorCompression cc (.plain type d') = .ok (itemsType type items) := by
      rw [createVectorCompression_eq isVector, same]
      rfl
    rw [answer] at done
    cases done
    obtain ⟨became, pool, isSettled⟩ := compressed_becomes isType item some_ item' named
    have changed := List.getElem?_set_self (a := (CreateValue.plain type d').compressed
      (itemsType type items)) (List.getElem?_eq_some_iff.mp at_w).1
    obtain ⟨all, retagged⟩ := before.becomes.retag List.length_set fun i u x at_u at_x became' => by
      by_cases apart : n = i
      · subst apart
        cases Option.some.inj (at_n.symm.trans at_u)
        cases Option.some.inj (at_w.symm.trans at_x)
        refine ⟨_, changed, became, ?_, rfl⟩
        rw [pool]
        rcases isType with rfl | rfl
        all_goals rfl
      · exact ⟨x, (List.getElem?_set_ne apart).trans at_x, became', rfl, rfl⟩
    refine ⟨?_, all, before.retagged.trans retagged,
      settled (fun i apart => List.getElem?_set_ne (Ne.symm apart)) fun x at_x => ?_⟩
    · rw [before.state]
    · cases Option.some.inj (changed.symm.trans at_x)
      exact isSettled
  · rename_i incompressible
    cases done
    refine ⟨before.state, before.becomes, before.retagged, settled (fun _ _ => rfl) ?_⟩
    intro x at_x d start isValue
    cases Option.some.inj (at_w.symm.trans at_x)
    refine absurd ?_ incompressible
    generalize c.values[n] = v at becomes start
    cases becomes with
    | same =>
        rw [start]
        rfl
    | emptied => simp [CreateValue.plain] at isValue
    | @numbers t => exact absurd isValue (not_value_type t)
    | handles isType =>
        rcases isType with rfl | rfl
        all_goals rfl
    | @compressed t => exact absurd isValue (not_value_type t)
    | table => cases congrArg CreateValue.isSetMapVector start

end Pointless
