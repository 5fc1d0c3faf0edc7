import Pointless.PyPrimVectorItems

/-!
# An integer PrimVector as a list of integers

`append`, `pop`, `index`, `contains` and `remove` do to the items what the same operation
does to a list, or raise and leave the items as they were. The exceptions are vectors of
more than 2^32 items: the searches end at the length modulo 2^32, and `pop` reads the
last item at its position modulo 2^32. `primVector_refines_list` says when that is the
same.
-/

namespace Pointless

open ExceptRules InPlace

/-! ## The list -/

/-- The operations, with a Python integer. -/
inductive IntegerOp where
  | append (x : Int)
  | pop
  | index (x : Int)
  | contains (x : Int)
  | remove (x : Int)

/-- The operation as the code carries it out. -/
def IntegerOp.run (alloc : Allocator) (self : PrimVectorObject) : IntegerOp → PrimOutcome
  | .append x => primAppend alloc self (some (.int x))
  | .pop => primPop self
  | .index x => (fun outcome => (outcome, self)) <$> primIndex self (some (.int x))
  | .contains x => (fun b => (.ok (.bool b), self)) <$> primContains self (some (.int x))
  | .remove x => primRemove self (some (.int x))

/-- The operation on a list; `none` where it fails. -/
def IntegerOp.onList (t : NumberType) (zs : List Int) : IntegerOp → Option (PrimResult × List Int)
  | .append x => if t.InRange x then some (.none, zs ++ [x]) else none
  | .pop => zs.getLast?.map fun z => (.number (.int z), zs.dropLast)
  | .index x => if x ∈ zs then some (.number (.int (zs.idxOf x)), zs) else none
  | .contains x => some (.bool (x ∈ zs), zs)
  | .remove x => if x ∈ zs then some (.none, zs.erase x) else none

/-- What a step may do to a vector that shows `zs`: what the operation does to the list, or
nothing, with an exception, where the list operation fails or memory is refused to an append. -/
inductive IntegerOp.Matches (alloc : Allocator) (self : PrimVectorObject) (t : NumberType)
    (zs : List Int) (op : IntegerOp) : Raises PrimResult → List Int → Prop
  | does {result zs'} (same : op.onList t zs = some (result, zs')) :
      Matches alloc self t zs op (.ok result) zs'
  | fails {message} (fails : op.onList t zs = none) : Matches alloc self t zs op (.error message) zs
  | refused {x} (append : op = .append x) (refused : (self.array.reserve alloc).1 = false) :
      Matches alloc self t zs op (.error "") zs

/-- Along the whole run the vector shows the list, each operation returns, and it does what
it does to the list. -/
def RefinesIntegers (alloc : Allocator) (t : NumberType) :
    PrimVectorObject → List Int → List IntegerOp → Prop
  | self, zs, [] => self.Shows t zs
  | self, zs, op :: rest =>
      self.Shows t zs ∧ ∃ outcome self' zs', op.run alloc self = .ok (outcome, self') ∧
        op.Matches alloc self t zs outcome zs' ∧ RefinesIntegers alloc t self' zs' rest

/-- The part of a list that the searches look at. -/
def searched (zs : List Int) : List Int := zs.take (zs.length % 2 ^ 32)

/-- A search finds what there is in the part it looks at, and `pop` reads a number that is
that of the last item. -/
def IntegerOp.InSight (zs : List Int) : IntegerOp → Prop
  | .append _ => True
  | .pop => zs[(zs.length - 1) % 2 ^ 32]? = zs.getLast?
  | .index x | .contains x | .remove x => x ∈ zs → x ∈ searched zs

/-- Every operation of the run is in sight of what it is to find. -/
def RunInSight (alloc : Allocator) (t : NumberType) :
    PrimVectorObject → List Int → List IntegerOp → Prop
  | _, _, [] => True
  | self, zs, op :: rest => op.InSight zs ∧
      ∀ outcome self' zs', op.run alloc self = .ok (outcome, self') → self'.Shows t zs' →
        RunInSight alloc t self' zs' rest

/-! ## Growth -/

namespace HeapArray

variable (alloc : Allocator) (a : HeapArray)

/-- Growth changes no item. -/
theorem grow_items :
    (a.grow alloc).2.items = a.items ∧ (a.grow alloc).2.itemSize = a.itemSize := by
  unfold grow
  split
  case h_1 => exact ⟨rfl, rfl⟩
  case h_2 => split <;> exact ⟨rfl, rfl⟩

/-- Making room changes no item. -/
theorem reserve_items :
    (a.reserve alloc).2.items = a.items ∧ (a.reserve alloc).2.itemSize = a.itemSize := by
  unfold reserve
  split
  case isTrue => exact grow_items alloc a
  case isFalse => exact ⟨rfl, rfl⟩

/-- A word is pushed behind the items, unless memory is refused. -/
theorem push_word (word : Nat) :
    ∃ pushed a', a.push alloc (fun _ => .ok word) = .ok (pushed, a') ∧
      a'.itemSize = a.itemSize ∧ pushed = (a.reserve alloc).1 ∧
      a'.items = if pushed then a.items ++ [word] else a.items := by
  obtain ⟨items, itemSize⟩ := reserve_items alloc a
  unfold push
  cases reserved : a.reserve alloc with
  | mk room a' =>
      rw [reserved] at items itemSize
      cases room with
      | false => exact ⟨false, a', rfl, itemSize, rfl, items⟩
      | true => exact ⟨true, _, rfl, itemSize, rfl, congrArg (· ++ [word]) items⟩

/-- A round of swaps takes an item behind those that follow it. -/
theorem swap_adjacent {pre rest : List Nat} {x y : Nat}
    (items : a.items = pre ++ x :: y :: rest) :
    a.swap pre.length (pre.length + 1) = .ok { a with items := pre ++ y :: x :: rest } := by
  have first : pre.length < a.items.length := by
    rw [items]
    simp
  have second : pre.length + 1 < a.items.length := by
    rw [items]
    simp
  rw [swap, if_pos ⟨first, second⟩, exchange_eq first second]
  congr 2
  simp only [items]
  simp

/-- The loop of `remove` takes an item to the end. -/
theorem swaps_to_end {pre mid : List Nat} {x : Nat} (items : a.items = pre ++ x :: mid) :
    (List.range' pre.length mid.length).foldlM (fun a k => a.swap k (k + 1)) a
      = .ok { a with items := pre ++ mid ++ [x] } := by
  induction mid generalizing a pre with
  | nil =>
      rw [List.append_nil, ← items]
      rfl
  | cons y rest ih =>
      rw [List.length_cons, List.range'_succ, List.foldlM_cons, swap_adjacent a items, ok_bind]
      have moved : ({ a with items := pre ++ y :: x :: rest } : HeapArray).items
          = (pre ++ [y]) ++ x :: rest := by
        rw [List.append_assoc]
        rfl
      have after := ih _ moved
      rw [List.length_append, List.length_singleton] at after
      rw [after, List.append_assoc pre, List.singleton_append]

end HeapArray

/-! ## Searches -/

/-- A search returns the first position it looks at where the item is found. -/
theorem primSearchLoop_eq {α : Type} {item : Nat → Res α} {found : α → Bool} {xs : List α}
    (items : ∀ k (less : k < xs.length), item k = .ok xs[k]) {left i : Nat}
    (inside : i + left ≤ xs.length) :
    primSearchLoop item found left i
      = .ok ((((xs.drop i).take left).findIdx? found).map (i + ·)) := by
  induction left generalizing i with
  | zero =>
      rw [List.take_zero]
      rfl
  | succ left ih =>
      have less : i < xs.length := by omega
      rw [List.drop_eq_getElem_cons less, List.take_succ_cons, List.findIdx?_cons, primSearchLoop,
        items i less, ok_bind]
      cases found xs[i] with
      | true => rfl
      | false =>
          rw [ih (by omega)]
          simp only [Bool.false_eq_true, if_false, Option.map_map]
          congr 2
          funext k
          simp only [Function.comp_apply]
          omega

section Searches

variable {v : PrimVectorObject} {t : NumberType} {zs : List Int}

theorem findIdx?_eq_idxOf (xs : List Int) (x : Int) :
    xs.findIdx? (fun y => y = x) = if x ∈ xs then some (xs.idxOf x) else none := by
  induction xs with
  | nil => rfl
  | cons y rest ih =>
      rw [List.findIdx?_cons, ih, List.idxOf_cons]
      by_cases same : y = x
      · subst same
        simp
      · have differ : (y == x) = false := beq_false_of_ne same
        simp only [same, decide_false, differ, List.mem_cons, Ne.symm same, false_or]
        by_cases mem : x ∈ rest <;> simp [mem]

theorem PrimVectorObject.Shows.search (shows : v.Shows t zs) (found : Int → Bool) :
    primSearchLoop (primElement v t) found (primSearchLength v) 0
      = .ok ((searched zs).findIdx? found) := by
  have length : primSearchLength v = zs.length % 2 ^ 32 := by
    rw [primSearchLength, Dynarray.nItems, shows.length]
  rw [primSearchLoop_eq (fun k less => shows.element less)
    (by rw [length, Nat.zero_add]; exact Nat.mod_le _ _), length, List.drop_zero, searched]
  congr 1
  cases ((zs.take (zs.length % 2 ^ 32)).findIdx? found) with
  | none => rfl
  | some k => exact congrArg some (Nat.zero_add k)

/-- Whatever the sign and the type, the search for an integer is that of a list. -/
theorem PrimVectorObject.Shows.primIndexI (shows : v.Shows t zs) (whole : t ≠ .float) (x : Int) :
    primIndexI v x = .ok (if x ∈ searched zs then some ((searched zs).idxOf x) else none) := by
  have all := shows.inRange whole
  rw [← findIdx?_eq_idxOf]
  rw [Pointless.primIndexI]
  split
  case isTrue negative =>
    rw [primIndexII, shows.type, NumberType.ofPrimType_primType]
    dsimp only
    split
    case isTrue => exact shows.search _
    case isFalse unsigned =>
      have absent : x ∉ searched zs := by
        intro mem
        exact unsigned ((all x (List.mem_of_mem_take mem)).wide.2.2 negative)
      rw [findIdx?_eq_idxOf, if_neg absent]
  case isFalse positive =>
    have test : (fun item : Int => if t.isSigned then decide (0 ≤ item ∧ item = x)
        else decide (item = x)) = fun item => decide (item = x) := by
      funext item
      split
      · rw [decide_eq_decide]
        exact ⟨fun both => both.2, fun same => ⟨by omega, same⟩⟩
      · rfl
    have ran := shows.search fun item => decide (item = x)
    rw [← test] at ran
    rw [primIndexIU, shows.type, NumberType.ofPrimType_primType, ← test]
    cases t with
    | float => exact absurd rfl whole
    | _ => exact ran

/-- An integer that is not parsed is not in a vector either. -/
theorem parsePyobjectNumber_cases (x : Int) :
    parsePyobjectNumber (some (.int x)) = .ok x ∨
      (∃ message, parsePyobjectNumber (some (.int x)) = .error message) ∧
        ∀ t : NumberType, ¬t.InRange x := by
  rw [parsePyobjectNumber]
  by_cases wide : x < -2 ^ 63 ∨ 2 ^ 64 ≤ x
  · refine .inr ⟨⟨_, if_pos wide⟩, fun t inRange => ?_⟩
    have := inRange.wide
    omega
  · exact .inl (if_neg wide)

theorem PrimVectorObject.Shows.primIndex_ (shows : v.Shows t zs) (whole : t ≠ .float) (x : Int)
    (func : String) :
    (x ∈ searched zs ∧
        primIndex_ v (some (.int x)) func = .ok (.ok ((searched zs).idxOf x))) ∨
      x ∉ searched zs ∧ ∃ message, primIndex_ v (some (.int x)) func = .ok (.error message) := by
  have integer : ¬NumberType.ofPrimType v.type = some .float := by
    rw [shows.type, NumberType.ofPrimType_primType, Option.some.injEq]
    exact whole
  rw [Pointless.primIndex_, if_neg integer, primIndexInteger]
  rcases parsePyobjectNumber_cases x with parsed | ⟨⟨message, failed⟩, outside⟩
  · rw [parsed]
    simp only [shows.primIndexI whole, map_ok]
    by_cases mem : x ∈ searched zs
    · left
      rw [if_pos mem]
      exact ⟨mem, rfl⟩
    · right
      rw [if_neg mem]
      exact ⟨mem, _, rfl⟩
  · right
    rw [failed]
    exact ⟨fun mem => outside t (shows.inRange whole x (List.mem_of_mem_take mem)), _, rfl⟩

theorem PrimVectorObject.Shows.primContains (shows : v.Shows t zs) (whole : t ≠ .float) (x : Int) :
    primContains v (some (.int x)) = .ok (x ∈ searched zs) := by
  have integer : ¬NumberType.ofPrimType v.type = some .float := by
    rw [shows.type, NumberType.ofPrimType_primType, Option.some.injEq]
    exact whole
  unfold Pointless.primContains
  rw [if_neg integer]
  rcases parsePyobjectNumber_cases x with parsed | ⟨⟨message, failed⟩, outside⟩
  · rw [parsed]
    simp only [shows.primIndexI whole, map_ok]
    by_cases mem : x ∈ searched zs <;> simp [mem]
  · have absent : x ∉ searched zs := fun mem =>
      outside t (shows.inRange whole x (List.mem_of_mem_take mem))
    rw [failed, decide_eq_false absent]

end Searches

/-! ## One step -/

section Steps

variable (alloc : Allocator) {v : PrimVectorObject} {t : NumberType} {zs : List Int}

/-- Other items, whose words are narrow. -/
theorem PrimVectorObject.Shows.withItems (shows : v.Shows t zs) {array : HeapArray} {zs' : List Int}
    (itemSize : array.itemSize = v.array.itemSize)
    (narrow : ∀ n ∈ array.items, n < 256 ^ t.size) (items : array.items.map t.toInt = zs') :
    (v.withArray array).Shows t zs' :=
  ⟨shows.type, itemSize.trans shows.itemSize, narrow, items⟩

/-- An append does what it does to the list: it adds a number in the range of the type,
unless memory is refused, and fails for any other. -/
theorem append_matches (shows : v.Shows t zs) (whole : t ≠ .float)
    (unexported : ¬0 < v.obExports) (x : Int) :
    ∃ outcome v' zs', primAppend alloc v (some (.int x)) = .ok (outcome, v') ∧
      (IntegerOp.append x).Matches alloc v t zs outcome zs' ∧ v'.Shows t zs' ∧
      v'.obExports = v.obExports := by
  have resizes : primCanResize v = .ok () := if_neg unexported
  simp only [primAppend, resizes, primAppendItem, shows.type]
  rcases pypointlessParseNumber_cases whole (some (.int x)) with
    ⟨x', number, inRange, parsed⟩ | ⟨absent, message, failed⟩
  · cases operandFor_int number
    obtain ⟨pushed, array, ran, itemSize, room, items⟩ :=
      v.array.push_word alloc (t.toWord x)
    rw [parsed]
    simp only [ran, ok_bind, pure_eq_ok]
    cases pushed with
    | true =>
        rw [if_pos rfl] at items
        refine ⟨_, _, zs ++ [x], rfl, .does (if_pos inRange), ?_, rfl⟩
        apply shows.withItems itemSize
        · intro n mem
          rw [items, List.mem_append, List.mem_singleton] at mem
          rcases mem with old | rfl
          · exact shows.narrow n old
          · exact t.toWord_lt x
        · rw [items, List.map_append, shows.items, List.map_singleton,
            NumberType.toInt_toWord whole inRange]
    | false =>
        rw [if_neg (by decide)] at items
        refine ⟨_, _, zs, rfl, .refused rfl room.symm, ?_, rfl⟩
        apply shows.withItems itemSize
        · rw [items]
          exact shows.narrow
        · rw [items, shows.items]
  · have outside : ¬t.InRange x := by
      intro inRange
      rw [operandFor, if_pos inRange] at absent
      cases absent
    rw [failed]
    exact ⟨_, v, zs, rfl, .fails (if_neg outside), shows, rfl⟩

/-- The vector without its last item. -/
theorem PrimVectorObject.Shows.pop (shows : v.Shows t zs) :
    (v.withArray v.array.pop).Shows t zs.dropLast := by
  have fewer : v.array.items.dropLast.map t.toInt = zs.dropLast := by
    rw [List.map_dropLast, shows.items]
  exact shows.withItems (show v.array.pop.itemSize = _ from rfl)
    (fun n mem => shows.narrow n (List.dropLast_subset _ mem)) fewer

/-- `pop` takes the last item, and returns the one at its position modulo 2^32. -/
theorem primPop_eq (shows : v.Shows t zs) (whole : t ≠ .float) (unexported : ¬0 < v.obExports) :
    zs = [] ∧ (∃ message, primPop v = .ok (.error message, v)) ∨
      ∃ z, zs[(zs.length - 1) % 2 ^ 32]? = some z ∧
        primPop v = .ok (.ok (.number (.int z)), v.withArray v.array.pop) := by
  have resizes : primCanResize v = .ok () := if_neg unexported
  have length : v.array.nItems = zs.length := shows.length
  rw [primPop]
  simp only [length]
  rcases List.eq_nil_or_concat zs with rfl | ⟨before, last, rfl⟩
  · exact .inl ⟨rfl, _, rfl⟩
  · right
    have some_item : (before.concat last).length ≠ 0 := by simp
    have position : (UInt32.ofNat ((before.concat last).length - 1)).toNat
        = ((before.concat last).length - 1) % 2 ^ 32 := UInt32.toNat_ofNat'
    have less : ((before.concat last).length - 1) % 2 ^ 32 < (before.concat last).length :=
      Nat.lt_of_le_of_lt (Nat.mod_le _ _) (Nat.sub_one_lt some_item)
    have read := shows.subscriptPriv whole (i := UInt32.ofNat ((before.concat last).length - 1))
      (by rw [position]; exact less)
    refine ⟨_, List.getElem?_eq_getElem less, ?_⟩
    rw [if_neg some_item]
    simp only [resizes, read, attempt, pure_eq_ok, ok_bind, position]

/-- The step goes on, and it does what it does to the list exactly when what it is to find
is in sight. -/
def IntegerOp.StepsRight (alloc : Allocator) (v : PrimVectorObject) (t : NumberType)
    (zs : List Int) (op : IntegerOp) : Prop :=
  ∃ outcome v', op.run alloc v = .ok (outcome, v') ∧ v'.obExports = v.obExports ∧
    (op.InSight zs → ∃ zs', op.Matches alloc v t zs outcome zs' ∧ v'.Shows t zs') ∧
    ∀ zs', op.Matches alloc v t zs outcome zs' → op.InSight zs

theorem pop_stepsRight (shows : v.Shows t zs) (whole : t ≠ .float)
    (unexported : ¬0 < v.obExports) : IntegerOp.pop.StepsRight alloc v t zs := by
  rcases primPop_eq shows whole unexported with ⟨rfl, message, failed⟩ | ⟨z, at_z, popped⟩
  · exact ⟨_, v, failed, rfl, fun _ => ⟨[], .fails rfl, shows⟩, fun _ _ => rfl⟩
  · refine ⟨_, _, popped, rfl, ?_, ?_⟩
    · intro inSight
      rw [IntegerOp.InSight, at_z] at inSight
      refine ⟨zs.dropLast, .does ?_, shows.pop⟩
      rw [IntegerOp.onList, ← inSight]
      rfl
    · intro zs' agrees
      cases agrees with
      | does same =>
          rw [IntegerOp.onList] at same
          cases last : zs.getLast? with
          | none =>
              rw [last] at same
              cases same
          | some z' =>
              rw [last] at same
              cases same
              rw [IntegerOp.InSight, at_z, last]

theorem idxOf_searched {x : Int} (mem : x ∈ searched zs) :
    (searched zs).idxOf x = zs.idxOf x := by
  have parts : searched zs ++ zs.drop (zs.length % 2 ^ 32) = zs := List.take_append_drop _ zs
  nth_rewrite 2 [← parts]
  exact (List.idxOf_append_of_mem mem).symm

theorem index_stepsRight (shows : v.Shows t zs) (whole : t ≠ .float) (x : Int) :
    (IntegerOp.index x).StepsRight alloc v t zs := by
  unfold IntegerOp.StepsRight
  rw [IntegerOp.run, primIndex]
  rcases shows.primIndex_ whole x "index" with ⟨mem, found⟩ | ⟨absent, message, failed⟩
  · have inside : x ∈ zs := List.mem_of_mem_take mem
    rw [found]
    refine ⟨_, v, rfl, rfl, fun _ => ⟨zs, .does ?_, shows⟩, fun _ _ _ => mem⟩
    rw [IntegerOp.onList, if_pos inside, idxOf_searched mem]
  · rw [failed]
    refine ⟨_, v, rfl, rfl, ?_, ?_⟩
    · intro inSight
      exact ⟨zs, .fails (if_neg fun inside => absent (inSight inside)), shows⟩
    · intro zs' agrees inside
      cases agrees with
      | fails fails =>
          rw [IntegerOp.onList, if_pos inside] at fails
          cases fails
      | refused append => cases append

theorem contains_stepsRight (shows : v.Shows t zs) (whole : t ≠ .float) (x : Int) :
    (IntegerOp.contains x).StepsRight alloc v t zs := by
  unfold IntegerOp.StepsRight
  rw [IntegerOp.run, shows.primContains whole]
  refine ⟨_, v, rfl, rfl, ?_, ?_⟩
  · intro inSight
    have same : (x ∈ searched zs) = (x ∈ zs) := propext ⟨List.mem_of_mem_take, inSight⟩
    refine ⟨zs, ?_, shows⟩
    simp only [same]
    exact .does rfl
  · intro zs' agrees inside
    cases agrees with
    | does same =>
        simp only [IntegerOp.onList, Option.some.injEq, Prod.mk.injEq, PrimResult.bool.injEq,
          decide_eq_decide] at same
        exact same.1.mp inside

/-- The item that is removed, and those on both sides of it. -/
theorem exists_removed (shows : v.Shows t zs) {x : Int} (mem : x ∈ zs) :
    ∃ before word after, v.array.items = before ++ word :: after ∧
      zs.idxOf x = before.length ∧ zs.erase x = (before ++ after).map t.toInt := by
  obtain ⟨left, right, split, first⟩ := List.eq_append_cons_of_mem mem
  have items := shows.items
  rw [split, List.map_eq_append_iff] at items
  obtain ⟨before, rest, parts, isLeft, isRest⟩ := items
  obtain ⟨word, after, rfl, isWord, isRight⟩ := List.map_eq_cons_iff.mp isRest
  refine ⟨before, word, after, parts, ?_, ?_⟩
  · rw [split, List.idxOf_append_of_notMem first, List.idxOf_cons_self, Nat.add_zero, ← isLeft,
      List.length_map]
  · rw [split, List.erase_append_right _ first, List.erase_cons_head, List.map_append, isLeft,
      isRight]

theorem remove_stepsRight (shows : v.Shows t zs) (whole : t ≠ .float)
    (unexported : ¬0 < v.obExports) (x : Int) : (IntegerOp.remove x).StepsRight alloc v t zs := by
  have resizes : primCanResize v = .ok () := if_neg unexported
  unfold IntegerOp.StepsRight
  simp only [IntegerOp.run, primRemove, resizes]
  rcases shows.primIndex_ whole x "remove" with ⟨mem, found⟩ | ⟨absent, message, failed⟩
  · have inside : x ∈ zs := List.mem_of_mem_take mem
    obtain ⟨before, word, after, items, position, erased⟩ := exists_removed shows inside
    have rounds : v.array.nItems - 1 - before.length = after.length := by
      rw [Dynarray.nItems, items, List.length_append, List.length_cons]
      omega
    have swapped := HeapArray.swaps_to_end v.array items
    simp only [found, ok_bind, idxOf_searched mem, position, primRemoveFound, rounds, swapped,
      pure_eq_ok]
    refine ⟨_, _, rfl, rfl, fun _ => ⟨zs.erase x, .does (if_pos inside), ?_⟩, fun _ _ _ => mem⟩
    have left : (before ++ after ++ [word]).dropLast = before ++ after := List.dropLast_concat
    refine shows.withItems (show v.array.itemSize = _ from rfl) ?_ ?_
    · intro n mem'
      change n ∈ (before ++ after ++ [word]).dropLast at mem'
      apply shows.narrow
      rw [left, List.mem_append] at mem'
      rw [items, List.mem_append, List.mem_cons]
      exact mem'.imp_right .inr
    · change (before ++ after ++ [word]).dropLast.map t.toInt = _
      rw [left, erased]
  · simp only [failed, ok_bind, primRemoveFound]
    refine ⟨_, v, rfl, rfl, ?_, ?_⟩
    · intro inSight
      exact ⟨zs, .fails (if_neg fun inside => absent (inSight inside)), shows⟩
    · intro zs' agrees inside
      cases agrees with
      | fails fails =>
          rw [IntegerOp.onList, if_pos inside] at fails
          cases fails
      | refused append => cases append

theorem stepsRight (shows : v.Shows t zs) (whole : t ≠ .float) (unexported : ¬0 < v.obExports)
    (op : IntegerOp) : op.StepsRight alloc v t zs := by
  cases op with
  | append x =>
      obtain ⟨outcome, v', zs', ran, agrees, shows', exports⟩ :=
        append_matches alloc shows whole unexported x
      exact ⟨outcome, v', ran, exports, fun _ => ⟨zs', agrees, shows'⟩, fun _ _ => trivial⟩
  | pop => exact pop_stepsRight alloc shows whole unexported
  | index x => exact index_stepsRight alloc shows whole x
  | contains x => exact contains_stepsRight alloc shows whole x
  | remove x => exact remove_stepsRight alloc shows whole unexported x

end Steps

/-! ## Runs -/

theorem RefinesIntegers.shows {alloc : Allocator} {t : NumberType} {v : PrimVectorObject}
    {zs : List Int} {ops : List IntegerOp} (refines : RefinesIntegers alloc t v zs ops) :
    v.Shows t zs := by
  cases ops with
  | nil => exact refines
  | cons op rest => exact refines.1

/-- A vector of integers without exported buffers refines the list of its items along a run
exactly when each operation has in sight what it is to find. -/
theorem primVector_refines_list {alloc : Allocator} {t : NumberType} (whole : t ≠ .float)
    {v : PrimVectorObject} {zs : List Int} (shows : v.Shows t zs) (unexported : v.obExports = 0)
    (ops : List IntegerOp) : RefinesIntegers alloc t v zs ops ↔ RunInSight alloc t v zs ops := by
  induction ops generalizing v zs with
  | nil => exact ⟨fun _ => trivial, fun _ => shows⟩
  | cons op rest ih =>
      have free : ¬0 < v.obExports := by
        rw [unexported]
        decide
      obtain ⟨outcome, v', ran, exports, right, onlyIf⟩ :=
        stepsRight alloc shows whole free op
      rw [unexported] at exports
      constructor
      · intro ⟨_, outcome₁, v₁, zs₁, ran₁, agrees, after⟩
        rw [ran] at ran₁
        cases ran₁
        refine ⟨onlyIf zs₁ agrees, fun outcome₂ v₂ zs₂ ran₂ shows₂ => ?_⟩
        rw [ran] at ran₂
        cases ran₂
        rw [← after.shows.unique shows₂]
        exact (ih after.shows exports).mp after
      · intro ⟨inSight, after⟩
        obtain ⟨zs', agrees, shows'⟩ := right inSight
        exact ⟨shows, outcome, v', zs', ran, agrees,
          (ih shows' exports).mpr (after outcome v' zs' ran shows')⟩

theorem primVector_refines_list_oneTwo :
    RefinesIntegers (fun _ _ => true) .i8 oneTwo [1, 2]
        [.append 5, .append 200, .remove 1, .index 5, .pop] ↔
      RunInSight (fun _ _ => true) .i8 oneTwo [1, 2]
        [.append 5, .append 200, .remove 1, .index 5, .pop] := by
  have whole : NumberType.i8 ≠ .float := nofun
  exact primVector_refines_list whole oneTwo_shows rfl _

/-! ## A long vector -/

/-- A vector of 2^32 bytes that are 0. -/
def manyZeros : PrimVectorObject where
  allowPrint := 1
  obExports := 0
  array := ⟨⟨1, List.replicate (2 ^ 32) 0⟩, 2 ^ 32, some 0, 1⟩
  type := 1

theorem manyZeros_shows : manyZeros.Shows .u8 (List.replicate (2 ^ 32) 0) where
  type := rfl
  itemSize := rfl
  narrow := by
    intro n mem
    rw [List.eq_of_mem_replicate mem]
    decide
  items := List.map_replicate

/-- The search for 0 in 2^32 zeros looks at none of them. -/
theorem manyZeros_index : ¬RefinesIntegers (fun _ _ => true) .u8 manyZeros
    (List.replicate (2 ^ 32) 0) [.index 0] := by
  intro ⟨_, outcome, v', zs', ran, agrees, _⟩
  obtain ⟨outcome₁, v₁, ran₁, -, -, onlyIf⟩ :=
    index_stepsRight (fun _ _ => true) manyZeros_shows nofun 0
  rw [ran] at ran₁
  cases ran₁
  have found := onlyIf zs' agrees (List.mem_replicate.mpr ⟨by decide, rfl⟩)
  rw [searched, List.length_replicate, Nat.mod_self, List.take_zero] at found
  cases found

end Pointless
