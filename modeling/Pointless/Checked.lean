import Pointless.Validate

/-!
# What the checks of a value establish

`Checked p v` is that the first pass has nothing against the value `v`. It puts the
heap object of the value inside the heap, so that the accessors stay inside, and
the checks themselves read nothing outside on the way to that verdict.
-/

namespace Pointless

open ByteMemory ExceptRules

/-! ## Reads that stay inside -/

/-- A stop that is not an access outside the memory that was given. -/
def Stop.Inside : Stop → Prop
  | .fault .outOfBounds | .fault .nullPointer => False
  | _ => True

/-- An action that makes no access outside the memory that was given. -/
abbrev StaysInside {α : Type} (action : Res α) : Prop := Post (fun _ => True) Stop.Inside action

theorem post_fail {α : Type} {ok : α → Prop} {message : String} :
    Post ok Stop.Inside (fail message) := trivial

theorem StaysInside.bind {α β : Type} {x : Res α} {f : α → Res β} (first : StaysInside x)
    (next : ∀ a, x = .ok a → StaysInside (f a)) : StaysInside (x >>= f) :=
  Post.bind first fun a returned _ => next a returned

theorem StaysInside.map {α β : Type} {x : Res α} {f : α → β} (inside : StaysInside x) :
    StaysInside (f <$> x) := Post.map inside

theorem loadWord_inside {w off : Nat} {m : List UInt8} (inside : off + w ≤ m.length) :
    ∃ n, loadWord w m off = .ok n ∧ n < 256 ^ w := by
  obtain ⟨n, loaded, bound⟩ := load_eq_some_of_inside inside
  exact ⟨n, by rw [loadWord, loaded], bound⟩

theorem loadU32_inside {off : Nat} {m : List UInt8} (inside : off + 4 ≤ m.length) :
    ∃ n, loadU32 m off = .ok n := by
  obtain ⟨n, loaded, -⟩ := loadWord_inside inside
  exact ⟨UInt32.ofNat n, by rw [loadU32, loaded]; rfl⟩

theorem loadU8_inside {off : Nat} {m : List UInt8} (inside : off + 1 ≤ m.length) :
    ∃ n, loadU8 m off = .ok n := by
  obtain ⟨n, loaded, -⟩ := loadWord_inside inside
  exact ⟨UInt8.ofNat n, by rw [loadU8, loaded]; rfl⟩

theorem loadValue_inside {off : Nat} {m : List UInt8} (inside : off + 8 ≤ m.length) :
    ∃ v, loadValue m off = .ok v := by
  have first : off + 4 ≤ m.length := by omega
  have second : off + 4 + 4 ≤ m.length := by omega
  obtain ⟨type, typeRead⟩ := loadU32_inside first
  obtain ⟨data, dataRead⟩ := loadU32_inside second
  exact ⟨_, by rw [loadValue, typeRead, ok_bind, dataRead]; rfl⟩

/-! ## Opened files -/

/-- The offset tables have the lengths that the header says. -/
structure OpenFile.Sized (p : OpenFile) : Prop where
  stringUnicode : p.stringUnicodeOffsets.length = p.header.nStringUnicode.toNat
  vector : p.vectorOffsets.length = p.header.nVector.toNat
  bitvector : p.bitvectorOffsets.length = p.header.nBitvector.toNat
  set : p.setOffsets.length = p.header.nSet.toNat
  map : p.mapOffsets.length = p.header.nMap.toNat

theorem pcOffset_inside {offsets : List UInt64} {count i : UInt32}
    (sized : offsets.length = count.toNat) (less : ¬count ≤ i) :
    ∃ off, pcOffset offsets i = .ok off ∧ off < 2 ^ 64 := by
  rw [UInt32.le_iff_toNat_le] at less
  have inside : i.toNat < offsets.length := by omega
  refine ⟨offsets[i.toNat].toNat, ?_, offsets[i.toNat].toNat_lt⟩
  rw [pcOffset, List.getElem?_eq_getElem inside]

/-! ## Size checks -/

section SizeChecks

variable {p : OpenFile} {offset nBytes itemLen count : UInt64}

theorem requireHeap_inside (required : requireHeap p offset nBytes = true) :
    offset.toNat + nBytes.toNat ≤ p.heap.length := by
  unfold requireHeap at required
  simp only [Bool.and_eq_true, Bool.not_eq_true', decide_eq_true_eq] at required
  rcases intopU64Add_is (intopU64Init_is offset) (intopU64Init_is nBytes) with
    ⟨-, sum⟩ | ⟨overflow, -⟩
  · omega
  · rw [overflow] at required
    cases required.1

theorem requireBody_inside (required : requireBody p offset itemLen count = true) :
    offset.toNat + (4 + itemLen.toNat * count.toNat) ≤ p.heap.length := by
  unfold requireBody at required
  simp only [Bool.and_eq_true, Bool.not_eq_true'] at required
  have size := intopU64Add_is (intopU64Init_is 4) (intopU64Mult_is (a := itemLen) (b := count))
  rcases size with ⟨-, sum⟩ | ⟨overflow, -⟩
  · have inside := requireHeap_inside required.2
    rw [sum] at inside
    exact inside
  · rw [overflow] at required
    cases required.1

end SizeChecks

/-! ## The objects of the heap -/

/-- `v` refers to a vector that lies in the heap with its items, of `w` bytes each. -/
structure VectorInside (p : OpenFile) (v : Value) (w off : Nat) (n : UInt32) : Prop where
  offset : pcOffset p.vectorOffsets v.data = .ok off
  count : loadU32 p.heap off = .ok n
  inside : off + 4 + w * n.toNat ≤ p.heap.length

/-- `v` refers to a string in the heap, of characters of `w` bytes, with its
terminator. -/
structure StringInside (p : OpenFile) (v : Value) (w off : Nat) (n : UInt32) : Prop where
  offset : pcOffset p.stringUnicodeOffsets v.data = .ok off
  count : loadU32 p.heap off = .ok n
  inside : off + 4 + w * (n.toNat + 1) ≤ p.heap.length
  body : ∀ i < n.toNat, ∀ c, loadWord w p.heap (off + 4 + w * i) = .ok c → c ≠ 0
  terminator : loadWord w p.heap (off + 4 + w * n.toNat) = .ok 0

/-- `v` refers to a bitvector that lies in the heap with its bits. -/
structure BitvectorInside (p : OpenFile) (v : Value) (off : Nat) (n : UInt32) : Prop where
  offset : pcOffset p.bitvectorOffsets v.data = .ok off
  count : loadU32 p.heap off = .ok n
  inside : off + (4 + iceil n.toNat 8) ≤ p.heap.length

/-- `v` refers to a set header that lies in the heap. -/
structure SetInside (p : OpenFile) (v : Value) (off : Nat) : Prop where
  offset : pcOffset p.setOffsets v.data = .ok off
  inside : off + 24 ≤ p.heap.length

/-- `v` refers to a map header that lies in the heap. -/
structure MapInside (p : OpenFile) (v : Value) (off : Nat) : Prop where
  offset : pcOffset p.mapOffsets v.data = .ok off
  inside : off + 32 ≤ p.heap.length

/-! ## The checks of heap objects -/

section HeapChecks

variable {p : OpenFile} {v : Value}

theorem toNat_ofNat_offset {off : Nat} (bound : off < 2 ^ 64) :
    (UInt64.ofNat off).toNat = off := by
  rw [UInt64.toNat_ofNat']
  exact Nat.mod_eq_of_lt bound

theorem toNat_succ_u32 (n : UInt32) : (n.toUInt64 + 1).toNat = n.toNat + 1 := by
  have bound := n.toNat_lt
  rw [UInt64.toNat_add, UInt32.toNat_toUInt64]
  change (n.toNat + 1) % 2 ^ 64 = n.toNat + 1
  omega

theorem validateVectorHeap_post (sized : p.Sized) (ref : ¬p.header.nVector ≤ v.data) :
    Post (fun _ => ∃ off n, VectorInside p v (vectorHeapItemLen v.type) off n) Stop.Inside
      (validateVectorHeap p v) := by
  obtain ⟨off, offset, offBound⟩ := pcOffset_inside sized.vector ref
  rw [validateVectorHeap, offset, ok_bind]
  split
  case isTrue => exact post_fail
  case isFalse header =>
    have headerInside := requireHeap_inside (not_not.mp header)
    rw [toNat_ofNat_offset offBound] at headerInside
    obtain ⟨n, count⟩ := loadU32_inside headerInside
    rw [count, ok_bind]
    split
    case isTrue => exact post_fail
    case isFalse body =>
      have bodyInside := requireBody_inside (not_not.mp body)
      have small : vectorHeapItemLen v.type < 2 ^ 64 := by
        unfold vectorHeapItemLen vectorItemLen
        split <;> decide
      rw [toNat_ofNat_offset offBound, toNat_ofNat_offset small] at bodyInside
      refine ⟨off, n, offset, count, ?_⟩
      change off + (4 + vectorHeapItemLen v.type * n.toNat) ≤ p.heap.length at bodyInside
      omega

theorem validateBitvectorHeap_post (sized : p.Sized) (ref : ¬p.header.nBitvector ≤ v.data) :
    Post (fun _ => ∃ off n, BitvectorInside p v off n) Stop.Inside (validateBitvectorHeap p v) := by
  obtain ⟨off, offset, offBound⟩ := pcOffset_inside sized.bitvector ref
  rw [validateBitvectorHeap, offset, ok_bind]
  split
  case isTrue => exact post_fail
  case isFalse header =>
    have headerInside := requireHeap_inside (not_not.mp header)
    rw [toNat_ofNat_offset offBound] at headerInside
    obtain ⟨n, count⟩ := loadU32_inside headerInside
    rw [count, ok_bind]
    split
    case isTrue => exact post_fail
    case isFalse body =>
      have bodyInside := requireHeap_inside (not_not.mp body)
      have small : 4 + iceil n.toNat 8 < 2 ^ 64 := by
        have bound := n.toNat_lt
        unfold iceil
        split <;> omega
      rw [toNat_ofNat_offset offBound, toNat_ofNat_offset small] at bodyInside
      exact ⟨off, n, offset, count, bodyInside⟩

/-- The character loop reads inside, and when it returns the terminator is where
the length says and nowhere before. -/
theorem validateTerminator_post {w start len : Nat} {premature missing : String}
    (inside : start + w * (len + 1) ≤ p.heap.length) :
    Post (fun _ => (∀ i < len, ∀ c, loadWord w p.heap (start + w * i) = .ok c → c ≠ 0) ∧
        loadWord w p.heap (start + w * len) = .ok 0)
      Stop.Inside (validateTerminator p w start len premature missing) := by
  have read : ∀ i ≤ len, ∃ c, loadWord w p.heap (start + w * i) = .ok c := by
    intro i le
    have charInside : start + w * i + w ≤ p.heap.length := by
      have grows : w * (i + 1) ≤ w * (len + 1) := Nat.mul_le_mul_left w (by omega)
      rw [Nat.mul_succ] at grows
      omega
    obtain ⟨c, loaded, -⟩ := loadWord_inside charInside
    exact ⟨c, loaded⟩
  rw [validateTerminator]
  have characters : Post (fun _ => ∀ i ∈ List.range len,
        ∀ c, loadWord w p.heap (start + w * i) = .ok c → c ≠ 0) Stop.Inside
      ((List.range len).forM fun i => do
        let c ← loadWord w p.heap (start + w * i)
        if c = 0 then fail premature else pure ()) := by
    refine Post.forM fun i mem => ?_
    obtain ⟨c, loaded⟩ := read i (Nat.le_of_lt (List.mem_range.mp mem))
    rw [loaded, ok_bind]
    split
    case isTrue => exact post_fail
    case isFalse nonzero =>
      intro c' same
      cases same
      exact nonzero
  refine Post.bind characters fun _ _ body => ?_
  obtain ⟨c, loaded⟩ := read len (Nat.le_refl len)
  rw [loaded, ok_bind]
  split
  case isTrue => exact post_fail
  case isFalse zero => exact ⟨fun i less => body i (List.mem_range.mpr less), by rw [not_not.mp zero]⟩

/-- The two checks of texts differ in the width of the characters and in their messages. -/
theorem validateText_post (sized : p.Sized) (ref : ¬p.header.nStringUnicode ≤ v.data) (w : Nat)
    (narrow : w < 2 ^ 64) (noHeader noBody premature missing : String) :
    Post (fun _ => ∃ off n, StringInside p v w off n) Stop.Inside (do
      let offset ← pcOffset p.stringUnicodeOffsets v.data
      if ¬requireHeap p (UInt64.ofNat offset) 4 then fail noHeader
      else
        let len ← loadU32 p.heap offset
        if ¬requireBody p (UInt64.ofNat offset) (len.toUInt64 + 1) (UInt64.ofNat w) then
          fail noBody
        else validateTerminator p w (offset + 4) len.toNat premature missing) := by
  obtain ⟨off, offset, offBound⟩ := pcOffset_inside sized.stringUnicode ref
  rw [offset, ok_bind]
  split
  case isTrue => exact post_fail
  case isFalse header =>
    have headerInside := requireHeap_inside (not_not.mp header)
    rw [toNat_ofNat_offset offBound] at headerInside
    obtain ⟨n, count⟩ := loadU32_inside headerInside
    rw [count, ok_bind]
    split
    case isTrue => exact post_fail
    case isFalse body =>
      have bodyInside := requireBody_inside (not_not.mp body)
      rw [toNat_ofNat_offset offBound, toNat_succ_u32, toNat_ofNat_offset narrow,
        Nat.mul_comm] at bodyInside
      have inside : off + 4 + w * (n.toNat + 1) ≤ p.heap.length := by omega
      refine Post.mono (validateTerminator_post inside) ?_ fun _ bad => bad
      rintro - ⟨characters, terminator⟩
      exact ⟨off, n, offset, count, inside, characters, terminator⟩

theorem validateUnicodeHeap_post (sized : p.Sized) (ref : ¬p.header.nStringUnicode ≤ v.data) :
    Post (fun _ => ∃ off n, StringInside p v 4 off n) Stop.Inside (validateUnicodeHeap p v) :=
  validateText_post sized ref 4 (by decide) _ _ _ _

theorem validateStringHeap_post (sized : p.Sized) (ref : ¬p.header.nStringUnicode ≤ v.data) :
    Post (fun _ => ∃ off n, StringInside p v 1 off n) Stop.Inside (validateStringHeap p v) :=
  validateText_post sized ref 1 (by decide) _ _ _ _

theorem setHashVector_eq {off : Nat} (set : SetInside p v off) :
    ∃ hashes, setHashVector p v = .ok hashes := by
  have inside : off + 8 + 8 ≤ p.heap.length := by
    have := set.inside
    omega
  obtain ⟨hashes, loaded⟩ := loadValue_inside inside
  exact ⟨hashes, by rw [setHashVector, set.offset, ok_bind, loaded]⟩

theorem setKeyVector_eq {off : Nat} (set : SetInside p v off) :
    ∃ keys, setKeyVector p v = .ok keys := by
  have inside : off + 16 + 8 ≤ p.heap.length := by
    have := set.inside
    omega
  obtain ⟨keys, loaded⟩ := loadValue_inside inside
  exact ⟨keys, by rw [setKeyVector, set.offset, ok_bind, loaded]⟩

theorem readerSetNItems_eq {off : Nat} (set : SetInside p v off) :
    ∃ n, readerSetNItems p v = .ok n := by
  have inside : off + 4 ≤ p.heap.length := by
    have := set.inside
    omega
  obtain ⟨n, loaded⟩ := loadU32_inside inside
  exact ⟨n, by rw [readerSetNItems, set.offset, ok_bind, loaded]⟩

theorem mapHashVector_eq {off : Nat} (map : MapInside p v off) :
    ∃ hashes, mapHashVector p v = .ok hashes := by
  have inside : off + 8 + 8 ≤ p.heap.length := by
    have := map.inside
    omega
  obtain ⟨hashes, loaded⟩ := loadValue_inside inside
  exact ⟨hashes, by rw [mapHashVector, map.offset, ok_bind, loaded]⟩

theorem mapKeyVector_eq {off : Nat} (map : MapInside p v off) :
    ∃ keys, mapKeyVector p v = .ok keys := by
  have inside : off + 16 + 8 ≤ p.heap.length := by
    have := map.inside
    omega
  obtain ⟨keys, loaded⟩ := loadValue_inside inside
  exact ⟨keys, by rw [mapKeyVector, map.offset, ok_bind, loaded]⟩

theorem mapValueVector_eq {off : Nat} (map : MapInside p v off) :
    ∃ values, mapValueVector p v = .ok values := by
  have inside : off + 24 + 8 ≤ p.heap.length := by
    have := map.inside
    omega
  obtain ⟨values, loaded⟩ := loadValue_inside inside
  exact ⟨values, by rw [mapValueVector, map.offset, ok_bind, loaded]⟩

theorem readerMapNItems_eq {off : Nat} (map : MapInside p v off) :
    ∃ n, readerMapNItems p v = .ok n := by
  have inside : off + 4 ≤ p.heap.length := by
    have := map.inside
    omega
  obtain ⟨n, loaded⟩ := loadU32_inside inside
  exact ⟨n, by rw [readerMapNItems, map.offset, ok_bind, loaded]⟩

/-- What the check of a set says about its header. -/
def SetHeader (p : OpenFile) (v : Value) : Prop :=
  ∃ off hashes keys, SetInside p v off ∧ setHashVector p v = .ok hashes ∧
    setKeyVector p v = .ok keys ∧ hashes.type = .vectorU32 ∧ keys.type = .vectorValueHashable

theorem validateSetHeap_post (sized : p.Sized) (ref : ¬p.header.nSet ≤ v.data) :
    Post (fun _ => SetHeader p v) Stop.Inside (validateSetHeap p v) := by
  obtain ⟨off, offset, offBound⟩ := pcOffset_inside sized.set ref
  rw [validateSetHeap, offset, ok_bind]
  split
  case isTrue => exact post_fail
  case isFalse header =>
    have headerInside := requireHeap_inside (not_not.mp header)
    rw [toNat_ofNat_offset offBound] at headerInside
    have set : SetInside p v off := ⟨offset, headerInside⟩
    obtain ⟨hashes, hashesRead⟩ := setHashVector_eq set
    obtain ⟨keys, keysRead⟩ := setKeyVector_eq set
    rw [hashesRead, ok_bind]
    split
    case isTrue => exact post_fail
    case isFalse hashType =>
      rw [keysRead, ok_bind]
      split
      case isTrue => exact post_fail
      case isFalse keyType =>
        exact ⟨off, hashes, keys, set, hashesRead, keysRead, not_not.mp hashType,
          not_not.mp keyType⟩

/-- What the check of a map says about its header. -/
def MapHeader (p : OpenFile) (v : Value) : Prop :=
  ∃ off hashes keys values, MapInside p v off ∧ mapHashVector p v = .ok hashes ∧
    mapKeyVector p v = .ok keys ∧ mapValueVector p v = .ok values ∧
    hashes.type = .vectorU32 ∧ keys.type = .vectorValueHashable ∧
    (values.type = .vectorValueHashable ∨ values.type = .vectorValue)

theorem validateMapHeap_post (sized : p.Sized) (ref : ¬p.header.nMap ≤ v.data) :
    Post (fun _ => MapHeader p v) Stop.Inside (validateMapHeap p v) := by
  obtain ⟨off, offset, offBound⟩ := pcOffset_inside sized.map ref
  rw [validateMapHeap, offset, ok_bind]
  split
  case isTrue => exact post_fail
  case isFalse header =>
    have headerInside := requireHeap_inside (not_not.mp header)
    rw [toNat_ofNat_offset offBound] at headerInside
    have map : MapInside p v off := ⟨offset, headerInside⟩
    obtain ⟨hashes, hashesRead⟩ := mapHashVector_eq map
    obtain ⟨keys, keysRead⟩ := mapKeyVector_eq map
    obtain ⟨values, valuesRead⟩ := mapValueVector_eq map
    rw [hashesRead, ok_bind]
    split
    case isTrue => exact post_fail
    case isFalse hashType =>
      rw [keysRead, ok_bind]
      split
      case isTrue => exact post_fail
      case isFalse keyType =>
        rw [valuesRead, ok_bind]
        split
        case isTrue => exact post_fail
        case isFalse valueType =>
          have either : values.type = .vectorValueHashable ∨ values.type = .vectorValue := by
            by_contra neither
            push Not at neither
            exact valueType neither
          exact ⟨off, hashes, keys, values, map, hashesRead, keysRead, valuesRead,
            not_not.mp hashType, not_not.mp keyType, either⟩

end HeapChecks

/-! ## Checked values -/

/-- The first pass has nothing against the value. -/
structure Checked (p : OpenFile) (v : Value) : Prop where
  ref : validateHeapRef p v = .ok ()
  inline : validateInlineInvariants v = .ok ()
  heap : validateHeapValue p v = .ok ()

section CheckedValues

variable {p : OpenFile} {v : Value}

theorem checkRef_ok {count : UInt32} {message : String} (ok : checkRef v count message = .ok ()) :
    ¬count ≤ v.data := by
  unfold checkRef at ok
  split at ok
  case isTrue => cases ok
  case isFalse inside => exact inside

theorem validateHeapRef_inside : StaysInside (validateHeapRef p v) := by
  have ref : ∀ count message, StaysInside (checkRef v count message) := by
    intro count message
    unfold checkRef
    split
    · exact post_fail
    · exact trivial
  unfold validateHeapRef
  split <;> first | exact ref _ _ | exact trivial

theorem validateInlineInvariants_inside : StaysInside (validateInlineInvariants v) := by
  unfold validateInlineInvariants
  split <;> first | exact trivial | (split <;> exact trivial)

/-- A reference that has been checked can be followed by the check of its object. -/
theorem validateHeapValue_inside (sized : p.Sized) (ref : validateHeapRef p v = .ok ()) :
    StaysInside (validateHeapValue p v) := by
  unfold validateHeapRef at ref
  unfold validateHeapValue
  cases type : v.type <;> simp only [type] at ref ⊢
  case vectorValue | vectorValueHashable | vectorI8 | vectorU8 | vectorI16 | vectorU16 |
      vectorI32 | vectorU32 | vectorI64 | vectorU64 | vectorFloat =>
    exact (validateVectorHeap_post sized (checkRef_ok ref)).mono (fun _ _ => trivial)
      fun _ inside => inside
  case unicode =>
    exact (validateUnicodeHeap_post sized (checkRef_ok ref)).mono (fun _ _ => trivial)
      fun _ inside => inside
  case string =>
    exact (validateStringHeap_post sized (checkRef_ok ref)).mono (fun _ _ => trivial)
      fun _ inside => inside
  case bitvector =>
    exact (validateBitvectorHeap_post sized (checkRef_ok ref)).mono (fun _ _ => trivial)
      fun _ inside => inside
  case setValue =>
    exact (validateSetHeap_post sized (checkRef_ok ref)).mono (fun _ _ => trivial)
      fun _ inside => inside
  case mapValueValue =>
    exact (validateMapHeap_post sized (checkRef_ok ref)).mono (fun _ _ => trivial)
      fun _ inside => inside
  all_goals exact trivial

theorem Checked.vectorRef (checked : Checked p v) {w : Nat} (item : vectorItemLen v.type = some w) :
    ¬p.header.nVector ≤ v.data := by
  have ref := checked.ref
  unfold validateHeapRef at ref
  unfold vectorItemLen at item
  cases type : v.type <;> simp only [type] at ref item <;>
    first | exact checkRef_ok ref | cases item

theorem Checked.vector (sized : p.Sized) (checked : Checked p v) {w : Nat}
    (item : vectorItemLen v.type = some w) : ∃ off n, VectorInside p v w off n := by
  have heap : validateVectorHeap p v = .ok () := by
    have heap := checked.heap
    unfold validateHeapValue at heap
    unfold vectorItemLen at item
    cases type : v.type <;> simp only [type] at heap item <;> first | exact heap | cases item
  have post := (validateVectorHeap_post sized (checked.vectorRef item)).of_ok heap
  rwa [vectorHeapItemLen, item] at post

theorem Checked.unicode (sized : p.Sized) (checked : Checked p v) (type : v.type = .unicode) :
    ∃ off n, StringInside p v 4 off n := by
  have ref := checked.ref
  have heap := checked.heap
  simp only [validateHeapRef, validateHeapValue, type] at ref heap
  exact (validateUnicodeHeap_post sized (checkRef_ok ref)).of_ok heap

theorem Checked.string (sized : p.Sized) (checked : Checked p v) (type : v.type = .string) :
    ∃ off n, StringInside p v 1 off n := by
  have ref := checked.ref
  have heap := checked.heap
  simp only [validateHeapRef, validateHeapValue, type] at ref heap
  exact (validateStringHeap_post sized (checkRef_ok ref)).of_ok heap

theorem Checked.bitvector (sized : p.Sized) (checked : Checked p v) (type : v.type = .bitvector) :
    ∃ off n, BitvectorInside p v off n := by
  have ref := checked.ref
  have heap := checked.heap
  simp only [validateHeapRef, validateHeapValue, type] at ref heap
  exact (validateBitvectorHeap_post sized (checkRef_ok ref)).of_ok heap

theorem Checked.set (sized : p.Sized) (checked : Checked p v) (type : v.type = .setValue) :
    SetHeader p v := by
  have ref := checked.ref
  have heap := checked.heap
  simp only [validateHeapRef, validateHeapValue, type] at ref heap
  exact (validateSetHeap_post sized (checkRef_ok ref)).of_ok heap

theorem Checked.map (sized : p.Sized) (checked : Checked p v) (type : v.type = .mapValueValue) :
    MapHeader p v := by
  have ref := checked.ref
  have heap := checked.heap
  simp only [validateHeapRef, validateHeapValue, type] at ref heap
  exact (validateMapHeap_post sized (checkRef_ok ref)).of_ok heap

theorem Checked.packed (checked : Checked p v) (type : v.type = .bitvectorPacked) :
    packedNBits v.data ≤ 27 := by
  have inline := checked.inline
  simp only [validateInlineInvariants, type] at inline
  split at inline
  case isTrue => cases inline
  case isFalse few => omega

/-- A checked value has one of the types that files are made of. -/
theorem Checked.type_ne (checked : Checked p v) :
    v.type ≠ .i64 ∧ v.type ≠ .u64 ∧ ∀ code, v.type ≠ .unknown code := by
  have ref := checked.ref
  unfold validateHeapRef at ref
  refine ⟨fun type => ?_, fun type => ?_, fun code type => ?_⟩ <;>
    simp only [type] at ref <;> cases ref

end CheckedValues

/-! ## The accessors of a checked value -/

section Accessors

variable {p : OpenFile} {v : Value}

theorem VectorInside.nItems {w off : Nat} {n : UInt32} (vector : VectorInside p v w off n)
    (nonempty : v.type ≠ .vectorEmpty) : readerVectorNItems p v = .ok n := by
  rw [readerVectorNItems, if_neg nonempty, vector.offset, ok_bind, vector.count]

theorem VectorInside.word {w off : Nat} {n : UInt32} (vector : VectorInside p v w off n)
    (nonempty : v.type ≠ .vectorEmpty) {i : Nat} (less : i < n.toNat) :
    ∃ item, readerVectorWord p v w i = .ok item ∧ item < 256 ^ w := by
  have itemInside : off + 4 + w * i + w ≤ p.heap.length := by
    have grows : w * (i + 1) ≤ w * n.toNat := Nat.mul_le_mul_left w less
    have := vector.inside
    rw [Nat.mul_succ] at grows
    omega
  obtain ⟨item, loaded, bound⟩ := loadWord_inside itemInside
  refine ⟨item, ?_, bound⟩
  rw [readerVectorWord, readerVectorBasePtr, if_neg nonempty, vector.offset, ok_bind]
  exact loaded

theorem VectorInside.value {off : Nat} {n : UInt32} (vector : VectorInside p v 8 off n)
    (nonempty : v.type ≠ .vectorEmpty) {i : Nat} (less : i < n.toNat) :
    ∃ item, readerVectorValue p v i = .ok item := by
  have itemInside : off + 4 + 8 * i + 8 ≤ p.heap.length := by
    have := vector.inside
    omega
  obtain ⟨item, loaded⟩ := loadValue_inside itemInside
  refine ⟨item, ?_⟩
  rw [readerVectorValue, readerVectorBasePtr, if_neg nonempty, vector.offset, ok_bind]
  exact loaded

end Accessors

end Pointless
