import Pointless.Checked

/-!
# The passes of the validator

What `pointless_init` guarantees of the offset tables, and what the three walks do
to the visited bitmasks. The first walk puts every reachable value through the
checks: `checked_of_reachable`.
-/

namespace Pointless

open ByteMemory ExceptRules DepthFirst

/-! ## Opening -/

theorem mapM_length {α β ε : Type} {f : α → Except ε β} {items : List α} {results : List β}
    (mapped : items.mapM f = .ok results) : results.length = items.length := by
  induction items generalizing results with
  | nil =>
      cases mapped
      rfl
  | cons a rest ih =>
      rw [List.mapM_cons] at mapped
      obtain ⟨b, -, mapped⟩ := bind_eq_ok.mp mapped
      obtain ⟨bs, others, mapped⟩ := bind_eq_ok.mp mapped
      cases mapped
      rw [List.length_cons, List.length_cons, ih others]

theorem loadOffsets_length {buf : List UInt8} {start n : Nat} {offsets : List UInt64}
    (loaded : loadOffsets buf start n = .ok offsets) : offsets.length = n := by
  rw [mapM_length loaded, List.length_range]

theorem layTables_sized {buf : List UInt8} {header : Header} {p : OpenFile}
    (laid : layTables buf header = .ok p) : p.Sized := by
  unfold layTables at laid
  obtain ⟨strings, stringsRead, laid⟩ := bind_eq_ok.mp laid
  obtain ⟨vectors, vectorsRead, laid⟩ := bind_eq_ok.mp laid
  obtain ⟨bitvectors, bitvectorsRead, laid⟩ := bind_eq_ok.mp laid
  obtain ⟨sets, setsRead, laid⟩ := bind_eq_ok.mp laid
  obtain ⟨maps, mapsRead, laid⟩ := bind_eq_ok.mp laid
  cases laid
  exact ⟨loadOffsets_length stringsRead, loadOffsets_length vectorsRead,
    loadOffsets_length bitvectorsRead, loadOffsets_length setsRead, loadOffsets_length mapsRead⟩

/-- What `pointless_init` has gone through when it returns. -/
theorem init_ok {buf : List UInt8} {p : OpenFile} {error : Option String}
    (opened : init buf = .ok (p, error)) : ∃ header, loadHeader buf = .ok header ∧
      initVersion header.version = .ok error ∧ layTables buf header = .ok p := by
  unfold init at opened
  split at opened
  case isTrue => cases opened
  case isFalse =>
    obtain ⟨header, loaded, opened⟩ := bind_eq_ok.mp opened
    obtain ⟨error', version, opened⟩ := bind_eq_ok.mp opened
    split at opened
    case isTrue => cases opened
    case isFalse =>
      obtain ⟨p', laid, opened⟩ := bind_eq_ok.mp opened
      cases opened
      exact ⟨header, loaded, version, laid⟩

theorem init_sized {buf : List UInt8} {p : OpenFile} {error : Option String}
    (opened : init buf = .ok (p, error)) : p.Sized := by
  obtain ⟨header, -, -, laid⟩ := init_ok opened
  exact layTables_sized laid

theorem layTables_header {buf : List UInt8} {header : Header} {p : OpenFile}
    (laid : layTables buf header = .ok p) : p.header = header := by
  unfold layTables at laid
  obtain ⟨_, -, laid⟩ := bind_eq_ok.mp laid
  obtain ⟨_, -, laid⟩ := bind_eq_ok.mp laid
  obtain ⟨_, -, laid⟩ := bind_eq_ok.mp laid
  obtain ⟨_, -, laid⟩ := bind_eq_ok.mp laid
  obtain ⟨_, -, laid⟩ := bind_eq_ok.mp laid
  cases laid
  rfl

theorem loadOffsets_inside {buf : List UInt8} {start n : Nat}
    (inside : start + 8 * n ≤ buf.length) : ∃ offsets, loadOffsets buf start n = .ok offsets := by
  have items : ∀ indices : List Nat, (∀ i ∈ indices, i < n) →
      ∃ offsets, (indices.mapM fun i => loadU64 buf (start + 8 * i)) = .ok offsets := by
    intro indices
    induction indices with
    | nil => exact fun _ => ⟨[], rfl⟩
    | cons i rest ih =>
        intro below
        have less := below i List.mem_cons_self
        have itemInside : start + 8 * i + 8 ≤ buf.length := by omega
        obtain ⟨word, loaded, -⟩ := loadWord_inside itemInside
        obtain ⟨offsets, others⟩ := ih fun j mem => below j (List.mem_cons_of_mem i mem)
        refine ⟨UInt64.ofNat word :: offsets, ?_⟩
        rw [List.mapM_cons, loadU64, loaded, map_ok, ok_bind, others]
        rfl
  exact items _ fun i mem => List.mem_range.mp mem

theorem loadHeader_inside {buf : List UInt8} (inside : ¬buf.length < 32) :
    ∃ header, loadHeader buf = .ok header := by
  have field : ∀ off, off + 4 ≤ 32 → ∃ n, loadU32 buf off = .ok n :=
    fun off bound => loadU32_inside (by omega)
  have valueInside : 0 + 8 ≤ buf.length := by omega
  obtain ⟨root, rootRead⟩ := loadValue_inside valueInside
  obtain ⟨n1, read1⟩ := field 8 (by decide)
  obtain ⟨n2, read2⟩ := field 12 (by decide)
  obtain ⟨n3, read3⟩ := field 16 (by decide)
  obtain ⟨n4, read4⟩ := field 20 (by decide)
  obtain ⟨n5, read5⟩ := field 24 (by decide)
  obtain ⟨n6, read6⟩ := field 28 (by decide)
  exact ⟨_, by rw [loadHeader, rootRead, ok_bind, read1, ok_bind, read2, ok_bind, read3, ok_bind,
    read4, ok_bind, read5, ok_bind, read6]; rfl⟩

/-- Laying a file over a buffer reads nothing outside the buffer. -/
theorem init_inside (buf : List UInt8) : StaysInside (init buf) := by
  unfold init
  split
  case isTrue => exact post_fail
  case isFalse large =>
    obtain ⟨header, read⟩ := loadHeader_inside large
    rw [read, ok_bind]
    refine StaysInside.bind ?_ fun error _ => ?_
    · unfold initVersion
      split
      · exact post_fail
      · split
        · exact trivial
        · split
          · exact trivial
          · exact post_fail
    · split
      case isTrue => exact post_fail
      case isFalse fits =>
        rw [Header.mandatorySize] at fits
        refine StaysInside.bind ?_ fun _ _ => trivial
        have table : ∀ start n, start + 8 * n ≤ buf.length →
            ∃ offsets, loadOffsets buf start n = .ok offsets := fun _ _ => loadOffsets_inside
        obtain ⟨strings, stringsRead⟩ := table 32 header.nStringUnicode.toNat (by omega)
        obtain ⟨vectors, vectorsRead⟩ := table (32 + 8 * header.nStringUnicode.toNat)
          header.nVector.toNat (by omega)
        obtain ⟨bitvectors, bitvectorsRead⟩ := table
          (32 + 8 * header.nStringUnicode.toNat + 8 * header.nVector.toNat)
          header.nBitvector.toNat (by omega)
        obtain ⟨sets, setsRead⟩ := table (32 + 8 * header.nStringUnicode.toNat
          + 8 * header.nVector.toNat + 8 * header.nBitvector.toNat) header.nSet.toNat (by omega)
        obtain ⟨maps, mapsRead⟩ := table (32 + 8 * header.nStringUnicode.toNat
          + 8 * header.nVector.toNat + 8 * header.nBitvector.toNat + 8 * header.nSet.toNat)
          header.nMap.toNat (by omega)
        rw [layTables]
        simp only [stringsRead, vectorsRead, bitvectorsRead, setsRead, mapsRead, ok_bind]
        exact trivial

/-! ## Visited bitmasks -/

theorem iceil_eight (n : Nat) : n ≤ 8 * iceil n 8 := by
  unfold iceil
  split <;> omega

theorem Bitmask.isSet_eq {m : Bitmask} {n i : Nat} (size : m.nBytes = iceil n 8) (less : i < n) :
    m.isSet i = .ok (m.bits.contains i) := by
  have bound := iceil_eight n
  rw [Bitmask.isSet, if_pos (by omega)]

theorem Bitmask.set_eq {m : Bitmask} {n i : Nat} (size : m.nBytes = iceil n 8) (less : i < n) :
    m.set i = .ok { m with bits := i :: m.bits } := by
  have bound := iceil_eight n
  rw [Bitmask.set, if_pos (by omega)]

/-- The kinds of containers that a walk goes through. -/
inductive ContainerKind where
  | vector
  | set
  | map
  deriving DecidableEq, Repr

/-- Which bit of which bitmask a value is marked with. -/
def containerKey (v : Value) : Option (ContainerKind × Nat) :=
  match v.type with
  | .vectorValue | .vectorValueHashable => some (.vector, v.data.toNat)
  | .setValue => some (.set, v.data.toNat)
  | .mapValueValue => some (.map, v.data.toNat)
  | _ => none

def Visited.mask (s : Visited) : ContainerKind → Bitmask
  | .vector => s.vector
  | .set => s.set
  | .map => s.map

/-- The bit of a container is set. -/
def Visited.Has (s : Visited) (key : ContainerKind × Nat) : Prop := key.2 ∈ (s.mask key.1).bits

theorem markBit_ok {m : Bitmask} {i : Nat} {marked : Option Bitmask}
    (ok : markBit m i = .ok marked) :
    (marked = none ∧ i ∈ m.bits) ∨
      (marked = some { m with bits := i :: m.bits } ∧ i ∉ m.bits) := by
  unfold markBit Bitmask.isSet Bitmask.set at ok
  split at ok
  case isFalse => cases ok
  case isTrue inside =>
    rw [ok_bind] at ok
    split at ok
    case isTrue seen =>
      cases ok
      exact Or.inl ⟨rfl, by simpa using seen⟩
    case isFalse unseen =>
      cases ok
      exact Or.inr ⟨rfl, by simpa using unseen⟩

theorem markBit_inside {m : Bitmask} {n i : Nat} (size : m.nBytes = iceil n 8) (less : i < n) :
    Post (fun marked => ∀ m' ∈ marked, m'.nBytes = iceil n 8) Stop.Inside (markBit m i) := by
  rw [markBit, Bitmask.isSet_eq size less, ok_bind]
  split
  case isTrue => exact fun m' mem => by cases mem
  case isFalse =>
    rw [Bitmask.set_eq size less, ok_bind]
    intro m' mem
    cases mem
    exact size

def Visited.setMask (s : Visited) (kind : ContainerKind) (m : Bitmask) : Visited :=
  match kind with
  | .vector => { s with vector := m }
  | .set => { s with set := m }
  | .map => { s with map := m }

theorem Visited.mask_setMask (s : Visited) (kind kind' : ContainerKind) (m : Bitmask) :
    (s.setMask kind m).mask kind' = if kind' = kind then m else s.mask kind' := by
  cases kind <;> cases kind' <;> rfl

/-- The sizes of the bitmasks by kind. -/
def Header.count (h : Header) : ContainerKind → Nat
  | .vector => h.nVector.toNat
  | .set => h.nSet.toNat
  | .map => h.nMap.toNat

/-- The bitmasks have the sizes that the header counts ask for. -/
def Visited.Sized (h : Header) (s : Visited) : Prop :=
  ∀ kind, (s.mask kind).nBytes = iceil (h.count kind) 8

theorem Visited.calloc_sized (h : Header) : (Visited.calloc h).Sized h := by
  intro kind
  cases kind <;> rfl

theorem Visited.calloc_clean (h : Header) (key : ContainerKind × Nat) :
    ¬(Visited.calloc h).Has key := by
  obtain ⟨kind, i⟩ := key
  cases kind <;> exact List.not_mem_nil

theorem markVisited_of_key {v : Value} {key : ContainerKind × Nat}
    (isKey : containerKey v = some key) (s : Visited) :
    markVisited v s = (do
      let marked ← markBit (s.mask key.1) key.2
      pure (marked.map (s.setMask key.1))) := by
  unfold containerKey at isKey
  unfold markVisited
  split at isKey <;> cases isKey <;> simp only [*] <;> rfl

theorem markVisited_of_none {v : Value} (isKey : containerKey v = none) (s : Visited) :
    markVisited v s = .ok (some s) := by
  unfold containerKey at isKey
  unfold markVisited
  cases type : v.type <;> simp only [type] at isKey ⊢ <;> first | rfl | cases isKey

theorem containerKey_inside {p : OpenFile} {v : Value} (ref : validateHeapRef p v = .ok ())
    {key : ContainerKind × Nat} (isKey : containerKey v = some key) :
    key.2 < p.header.count key.1 := by
  have less : ∀ {count message}, checkRef v count message = .ok () →
      v.data.toNat < count.toNat := by
    intro count message ok
    have inside := checkRef_ok ok
    rw [UInt32.le_iff_toNat_le] at inside
    omega
  unfold containerKey at isKey
  unfold validateHeapRef at ref
  split at isKey <;> cases isKey <;> simp only [*] at ref <;> exact less ref

/-- What marking does to the set of marked containers. -/
theorem markVisited_ok {v : Value} {s : Visited} {marked : Option Visited}
    (ok : markVisited v s = .ok marked) :
    (marked = none ∧ ∃ key, containerKey v = some key ∧ s.Has key) ∨
      ∃ s', marked = some s' ∧ (∀ key, s'.Has key ↔ s.Has key ∨ containerKey v = some key) ∧
        ∀ key, containerKey v = some key → ¬s.Has key := by
  cases isKey : containerKey v with
  | none =>
      rw [markVisited_of_none isKey] at ok
      cases ok
      refine Or.inr ⟨s, rfl, fun key => ?_, fun key bad => by cases bad⟩
      exact ⟨Or.inl, fun either => either.elim id fun bad => by cases bad⟩
  | some key =>
      rw [markVisited_of_key isKey] at ok
      obtain ⟨mask, bit, ok⟩ := bind_eq_ok.mp ok
      cases ok
      rcases markBit_ok bit with ⟨rfl, seen⟩ | ⟨rfl, unseen⟩
      · exact Or.inl ⟨rfl, key, rfl, seen⟩
      · refine Or.inr ⟨_, rfl, fun key' => ?_, ?_⟩
        · rw [Visited.Has, Visited.mask_setMask, Option.some_inj]
          split
          case isTrue sameKind =>
            rw [List.mem_cons, Visited.Has, sameKind, or_comm]
            refine or_congr_right ⟨fun same => Prod.ext sameKind.symm same.symm, ?_⟩
            rintro rfl
            rfl
          case isFalse otherKind =>
            refine ⟨Or.inl, fun either => either.elim id ?_⟩
            rintro rfl
            exact absurd rfl otherKind
        · intro key' same
          cases same
          exact unseen

/-- Marking a checked reference stays inside the bitmasks and keeps their sizes. -/
theorem markVisited_inside {p : OpenFile} {v : Value} (ref : validateHeapRef p v = .ok ())
    {s : Visited} (sized : s.Sized p.header) :
    Post (fun marked => ∀ s' ∈ marked, s'.Sized p.header) Stop.Inside (markVisited v s) := by
  cases isKey : containerKey v with
  | none =>
      rw [markVisited_of_none isKey]
      intro s' mem
      cases mem
      exact sized
  | some key =>
      rw [markVisited_of_key isKey]
      refine Post.bind (markBit_inside (sized key.1) (containerKey_inside ref isKey)) ?_
      intro mask _ size s' mem
      obtain ⟨m, mMem, rfl⟩ := Option.mem_map.mp mem
      intro kind
      rw [Visited.mask_setMask]
      split
      case isTrue same =>
        rw [same]
        exact size m mMem
      case isFalse => exact sized kind

/-! ## The visitor of the passes -/

section PassCb

variable {p : OpenFile} {pass : ValidatePass}

/-- What the visitor has done when it did not stop the walk. -/
theorem validatePassCb_ok {v : Value} {depth : Nat} {s s' : Visited} {action : Action}
    (ok : validatePassCb p pass v depth s = .ok (action, s')) :
    passRef p pass v = .ok () ∧
      ((action = .moveUp ∧ s' = s ∧ ∃ key, containerKey v = some key ∧ s.Has key) ∨
        (action = .visitChildren ∧ passCheck p pass v = .ok () ∧
          (∀ key, s'.Has key ↔ s.Has key ∨ containerKey v = some key) ∧
          ∀ key, containerKey v = some key → ¬s.Has key)) := by
  unfold validatePassCb at ok
  split at ok
  case isTrue => cases ok
  case isFalse =>
    obtain ⟨⟨⟩, ref, ok⟩ := bind_eq_ok.mp ok
    obtain ⟨marked, marking, ok⟩ := bind_eq_ok.mp ok
    refine ⟨ref, ?_⟩
    rcases markVisited_ok marking with ⟨rfl, seen⟩ | ⟨t, rfl, marks, unseen⟩
    · cases ok
      exact Or.inl ⟨rfl, rfl, seen⟩
    · obtain ⟨⟨⟩, check, ok⟩ := bind_eq_ok.mp ok
      cases ok
      exact Or.inr ⟨rfl, check, marks, unseen⟩

theorem validatePassCb_marks : Marks (validatePassCb p pass) containerKey Visited.Has := by
  constructor
  · intro v depth s s' ok
    obtain ⟨-, ⟨-, same, seen⟩ | ⟨bad, -⟩⟩ := validatePassCb_ok ok
    · exact ⟨same, seen⟩
    · cases bad
  · intro v depth s s' ok
    obtain ⟨-, ⟨bad, -⟩ | ⟨-, -, marks, -⟩⟩ := validatePassCb_ok ok
    · cases bad
    · exact marks

theorem validatePassCb_deep {v : Value} {depth : Nat} {s : Visited} (deep : maxDepth ≤ depth) :
    ∃ e, validatePassCb p pass v depth s = .error e := by
  rw [validatePassCb, if_pos deep]
  exact ⟨_, rfl⟩

/-- The visitor stays inside when the reference and the check of its pass do. -/
theorem validatePassCb_inside {v : Value} (refInside : StaysInside (passRef p pass v))
    (ref : passRef p pass v = .ok () → validateHeapRef p v = .ok ())
    (check : passRef p pass v = .ok () → StaysInside (passCheck p pass v)) {depth : Nat}
    {s : Visited} (sized : s.Sized p.header) :
    Post (fun result => result.2.Sized p.header) Stop.Inside (validatePassCb p pass v depth s) := by
  unfold validatePassCb
  split
  case isTrue => exact post_fail
  case isFalse =>
    refine Post.bind refInside fun _ refOk _ => ?_
    refine Post.bind (markVisited_inside (ref refOk) sized) fun marked _ kept => ?_
    cases marked with
    | none => exact sized
    | some s' => exact Post.bind (check refOk) fun _ _ _ => kept s' rfl

end PassCb

/-- Values of one key are the same container, perhaps under two tags of value vectors. -/
theorem containerKey_cases {v w : Value} {key : ContainerKind × Nat}
    (vKey : containerKey v = some key) (wKey : containerKey w = some key) :
    v.data = w.data ∧ (v.type = w.type ∨
      ((v.type = .vectorValue ∨ v.type = .vectorValueHashable) ∧
        (w.type = .vectorValue ∨ w.type = .vectorValueHashable))) := by
  unfold containerKey at vKey wKey
  split at vKey <;> cases vKey <;> split at wKey <;>
    simp only [Option.some_inj, Prod.mk.injEq, reduceCtorEq, false_and, true_and] at wKey <;>
    exact ⟨(UInt32.toNat_inj.mp wKey).symm, by simp [*]⟩

theorem walkChildren_sameKey {p : OpenFile} {v w : Value} {key : ContainerKind × Nat}
    (vKey : containerKey v = some key) (wKey : containerKey w = some key) :
    walkChildren p v = walkChildren p w := by
  obtain ⟨vType, vData⟩ := v
  obtain ⟨wType, wData⟩ := w
  obtain ⟨sameData, sameType⟩ := containerKey_cases vKey wKey
  simp only at sameData sameType
  subst sameData
  rcases sameType with rfl | ⟨rfl | rfl, rfl | rfl⟩ <;> rfl

/-! ## The first pass -/

section Sanity

variable {p : OpenFile}

/-- The children of a checked value can all be read. -/
theorem walkChildren_checked (sized : p.Sized) {v : Value} (checked : Checked p v) :
    ∃ nodes, walkChildren p v = .ok nodes ∧ ∀ node ∈ nodes, ∃ w, node = .ok w := by
  have items : vectorItemLen v.type = some 8 → v.type ≠ .vectorEmpty →
      ∃ nodes, (do
        let nItems ← readerVectorNItems p v
        pure ((List.range nItems.toNat).map fun i => readerVectorValue p v i)) = .ok nodes ∧
      ∀ node ∈ nodes, ∃ w, node = .ok w := by
    intro item nonempty
    obtain ⟨off, n, vector⟩ := checked.vector sized item
    rw [vector.nItems nonempty]
    refine ⟨_, rfl, fun node mem => ?_⟩
    obtain ⟨i, iMem, rfl⟩ := List.mem_map.mp mem
    exact vector.value nonempty (List.mem_range.mp iMem)
  unfold walkChildren
  cases type : v.type
  case vectorValue | vectorValueHashable =>
    exact items (by rw [type]; rfl) (by rw [type]; exact ValueType.noConfusion)
  case setValue =>
    obtain ⟨off, hashes, keys, -, hashesRead, keysRead, -⟩ := checked.set sized type
    refine ⟨_, rfl, fun node mem => ?_⟩
    simp only [List.mem_cons, List.not_mem_nil, or_false] at mem
    rcases mem with rfl | rfl
    · exact ⟨hashes, hashesRead⟩
    · exact ⟨keys, keysRead⟩
  case mapValueValue =>
    obtain ⟨off, hashes, keys, values, -, hashesRead, keysRead, valuesRead, -⟩ :=
      checked.map sized type
    refine ⟨_, rfl, fun node mem => ?_⟩
    simp only [List.mem_cons, List.not_mem_nil, or_false] at mem
    rcases mem with rfl | rfl | rfl
    · exact ⟨hashes, hashesRead⟩
    · exact ⟨keys, keysRead⟩
    · exact ⟨values, valuesRead⟩
  all_goals exact ⟨[], rfl, fun node mem => absurd mem List.not_mem_nil⟩

theorem passCheck_sanity {v : Value} (check : passCheck p .sanity v = .ok ()) :
    validateInlineInvariants v = .ok () ∧ validateHeapValue p v = .ok () := by
  obtain ⟨⟨⟩, inline, heap⟩ := bind_eq_ok.mp check
  exact ⟨inline, heap⟩

/-- The first pass reads nothing outside the buffer, whatever the buffer holds. -/
theorem sanity_inside (sized : p.Sized) : StaysInside (validatePass p .sanity) := by
  refine StaysInside.bind ?_ fun _ _ => trivial
  have walked : Post (Visited.Sized p.header) Stop.Inside
      (walk p (validatePassCb p .sanity) (.calloc p.header)) := by
    refine walk_post (fun _ => True) maxDepth ?_ ?_
      (fun v depth s deep => validatePassCb_deep deep) (by omega) (by omega) trivial
      (Visited.calloc_sized p.header)
    · intro v _ depth s held
      have refInside : StaysInside (passRef p .sanity v) := validateHeapRef_inside
      refine validatePassCb_inside refInside (fun ref => ref) (fun ref => ?_) held
      exact StaysInside.bind validateInlineInvariants_inside fun _ _ =>
        validateHeapValue_inside sized ref
    · intro v _ depth s held s' expanded
      obtain ⟨ref, ⟨bad, -⟩ | ⟨-, check, -⟩⟩ := validatePassCb_ok expanded
      · cases bad
      · obtain ⟨inline, heap⟩ := passCheck_sanity check
        obtain ⟨nodes, read, all⟩ := walkChildren_checked sized ⟨ref, inline, heap⟩
        rw [read]
        intro node mem
        obtain ⟨w, rfl⟩ := all node mem
        exact trivial
  exact walked.mono (fun _ _ => trivial) fun _ inside => inside

/-- The checks of the object and of the inline data see the two tags of a value
vector alike. -/
theorem checks_sameKey {p : OpenFile} {v w : Value} {key : ContainerKind × Nat}
    (vKey : containerKey v = some key) (wKey : containerKey w = some key) :
    validateInlineInvariants v = validateInlineInvariants w ∧
      validateHeapValue p v = validateHeapValue p w := by
  obtain ⟨vType, vData⟩ := v
  obtain ⟨wType, wData⟩ := w
  obtain ⟨sameData, sameType⟩ := containerKey_cases vKey wKey
  simp only at sameData sameType
  subst sameData
  rcases sameType with rfl | ⟨rfl | rfl, rfl | rfl⟩ <;> exact ⟨rfl, rfl⟩

/-- The walk of a pass comes to every reachable value and, at it or at another tag
of the same container, makes the check of the pass. -/
theorem pass_reaches {pass : ValidatePass} (passed : validatePass p pass = .ok ()) {v : Value}
    (reach : Reachable p v) :
    passRef p pass v = .ok () ∧
      ∃ w, passCheck p pass w = .ok () ∧
        (w = v ∨ ∃ key, containerKey w = some key ∧ containerKey v = some key) := by
  obtain ⟨t, walked, -⟩ := bind_eq_ok.mp passed
  have accepts : ∀ w depth s s', validatePassCb p pass w depth s = .ok (.visitChildren, s') →
      passCheck p pass w = .ok () := by
    intro w depth s s' expanded
    obtain ⟨-, ⟨bad, -⟩ | ⟨-, check, -⟩⟩ := validatePassCb_ok expanded
    · cases bad
    · exact check
  obtain ⟨ref, accepted, -⟩ := walk_reaches (fun w => passCheck p pass w = .ok ())
    (fun w => passRef p pass w = .ok ()) validatePassCb_marks accepts
    (fun w depth s result ok => (validatePassCb_ok ok).1)
    (fun v w key => walkChildren_sameKey) (Visited.calloc_clean p.header) walked reach
  exact ⟨ref, accepted⟩

/-- After the first pass every reachable value is checked. -/
theorem checked_of_reachable (passed : validatePass p .sanity = .ok ()) {v : Value}
    (reach : Reachable p v) : Checked p v := by
  obtain ⟨ref, w, check, like⟩ := pass_reaches passed reach
  obtain ⟨inline, heap⟩ := passCheck_sanity check
  rcases like with rfl | ⟨key, wKey, vKey⟩
  · exact ⟨ref, inline, heap⟩
  · obtain ⟨sameInline, sameHeap⟩ := checks_sameKey wKey vKey
    exact ⟨ref, sameInline ▸ inline, sameHeap ▸ heap⟩

end Sanity

/-! ## Files that have passed the first pass -/

/-- A file whose reachable values are all checked. -/
structure OpenFile.Sound (p : OpenFile) : Prop where
  sized : p.Sized
  checked : ∀ v, Reachable p v → Checked p v

theorem sound_of_sanity {p : OpenFile} (sized : p.Sized)
    (passed : validatePass p .sanity = .ok ()) : p.Sound :=
  ⟨sized, fun _ reach => checked_of_reachable passed reach⟩

end Pointless
