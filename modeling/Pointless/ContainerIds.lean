import Pointless.MarkerSound
import Pointless.OpenWritten

/-!
# The ids of containers

The containers of a file are numbered one kind after another: the empty vector, the vectors,
the sets and the maps. An id is such a position in 32 bits, and so is the number of
containers that the bitmask of the cycle marker is made for. The size check of
`pointless_init` counts with 64 bits and lets positions of 2^32 and more through.
-/

namespace Pointless

/-! ## Positions -/

/-- A container that the header counts: the empty vector, or a vector, a set or a map by its
index. -/
inductive Container (h : Header) where
  | emptyVector
  | vector (i : Fin h.nVector.toNat)
  | set (i : Fin h.nSet.toNat)
  | map (i : Fin h.nMap.toNat)

/-- The values that refer to a container. -/
inductive Container.Referred {h : Header} : Container h → Value → Prop
  | emptyVector {v} (type : v.type = .vectorEmpty) : Referred .emptyVector v
  | vector {v i} (type : isVectorType v.type = true) (nonempty : v.type ≠ .vectorEmpty)
      (index : v.data.toNat = i.val) : Referred (.vector i) v
  | set {v i} (type : v.type = .setValue) (index : v.data.toNat = i.val) : Referred (.set i) v
  | map {v i} (type : v.type = .mapValueValue) (index : v.data.toNat = i.val) :
      Referred (.map i) v

/-- The position in the numbering. -/
def Container.position {h : Header} : Container h → Nat
  | emptyVector => 0
  | vector i => 1 + i.val
  | set i => 1 + h.nVector.toNat + i.val
  | map i => 1 + h.nVector.toNat + h.nSet.toNat + i.val

/-- How many containers there are. -/
def Header.nPositions (h : Header) : Nat := 1 + h.nVector.toNat + h.nSet.toNat + h.nMap.toNat

section Numbering

variable {h : Header}

theorem Container.position_lt (c : Container h) : c.position < h.nPositions := by
  rw [Header.nPositions]
  cases c with
  | emptyVector =>
      rw [position]
      omega
  | vector i | set i | map i =>
      have less := i.isLt
      rw [position]
      omega

theorem Container.position_injective {c d : Container h} (same : c.position = d.position) :
    c = d := by
  cases c with
  | emptyVector =>
      cases d with
      | emptyVector => rfl
      | vector j | set j | map j =>
          simp only [position] at same
          omega
  | vector i =>
      have less := i.isLt
      cases d with
      | vector j =>
          simp only [position] at same
          rw [Fin.ext (Nat.add_left_cancel same)]
      | emptyVector | set j | map j =>
          simp only [position] at same
          omega
  | set i =>
      have less := i.isLt
      cases d with
      | set j =>
          simp only [position] at same
          rw [Fin.ext (Nat.add_left_cancel same)]
      | vector j =>
          have less' := j.isLt
          simp only [position] at same
          omega
      | emptyVector | map j =>
          simp only [position] at same
          omega
  | map i =>
      cases d with
      | map j =>
          simp only [position] at same
          rw [Fin.ext (Nat.add_left_cancel same)]
      | vector j | set j =>
          have less' := j.isLt
          simp only [position] at same
          omega
      | emptyVector =>
          simp only [position] at same
          omega

/-- Every container is referred to. -/
theorem Container.exists_referred (c : Container h) : ∃ v, c.Referred v := by
  have index : ∀ {n : UInt32} (i : Fin n.toNat), (UInt32.ofNat i.val).toNat = i.val := by
    intro n i
    exact UInt32.toNat_ofNat_of_lt' (Nat.lt_trans i.isLt n.toNat_lt)
  cases c with
  | emptyVector => exact ⟨⟨.vectorEmpty, 0⟩, .emptyVector rfl⟩
  | vector i => exact ⟨⟨.vectorValue, .ofNat i.val⟩, .vector rfl (fun same => by cases same) (index i)⟩
  | set i => exact ⟨⟨.setValue, .ofNat i.val⟩, .set rfl (index i)⟩
  | map i => exact ⟨⟨.mapValueValue, .ofNat i.val⟩, .map rfl (index i)⟩

/-- There is a container at every position. -/
theorem Container.exists_position {n : Nat} (less : n < h.nPositions) :
    ∃ c : Container h, c.position = n := by
  rw [Header.nPositions] at less
  rcases Nat.eq_zero_or_pos n with rfl | positive
  · exact ⟨.emptyVector, rfl⟩
  · rcases Nat.lt_or_ge n (1 + h.nVector.toNat) with isVector | behind
    · exact ⟨.vector ⟨n - 1, by omega⟩, by simp only [position]; omega⟩
    · rcases Nat.lt_or_ge n (1 + h.nVector.toNat + h.nSet.toNat) with isSet | behind'
      · exact ⟨.set ⟨n - (1 + h.nVector.toNat), by omega⟩, by simp only [position]; omega⟩
      · exact ⟨.map ⟨n - (1 + h.nVector.toNat + h.nSet.toNat), by omega⟩,
          by simp only [position]; omega⟩

end Numbering

/-! ## Ids -/

section Ids

variable {p : OpenFile}

/-- `pointless_n_containers` has 32 bits. -/
theorem nContainers_toNat : (nContainers p).toNat = p.header.nPositions % 2 ^ 32 := by
  rw [nContainers, Header.nPositions]
  simp only [UInt32.toNat_add, UInt32.toNat_one, Nat.mod_add_mod]

/-- An id is the position in 32 bits. -/
theorem Container.Referred.id {c : Container p.header} {v : Value} (refers : c.Referred v) :
    (containerId p v).toNat = c.position % 2 ^ 32 := by
  cases refers with
  | emptyVector type =>
      rw [containerId, type]
      rfl
  | vector type nonempty index =>
      have id : containerId p v = 1 + v.data := by
        rw [containerId]
        cases kind : v.type <;> rw [kind] at type nonempty <;> first
          | rfl
          | (cases type; done)
          | exact absurd rfl nonempty
      rw [id, UInt32.toNat_add, UInt32.toNat_one, index, position]
  | set type index =>
      rw [containerId, type]
      simp only [UInt32.toNat_add, UInt32.toNat_one, index, position]
      omega
  | map type index =>
      rw [containerId, type]
      simp only [UInt32.toNat_add, UInt32.toNat_one, index, position]
      omega

/-- What the ids are to be: distinct for distinct containers, below the number of containers,
and with their bit inside the bitmask of the cycle marker. -/
structure ContainerIdsMeet (p : OpenFile) : Prop where
  distinct : ∀ (c d : Container p.header) v w, c.Referred v → d.Referred w → c ≠ d →
    containerId p v ≠ containerId p w
  bound : ∀ (c : Container p.header) v, c.Referred v → containerId p v < nContainers p
  bits : ∀ (c : Container p.header) v, c.Referred v →
    (containerId p v).toNat / 8 < iceil (nContainers p).toNat 8

theorem ContainerIdsMeet.of_count (few : p.header.nPositions < 2 ^ 32) : ContainerIdsMeet p := by
  have id : ∀ (c : Container p.header) v, c.Referred v → (containerId p v).toNat = c.position :=
    fun c v refers => by
      rw [refers.id, Nat.mod_eq_of_lt (Nat.lt_trans c.position_lt few)]
  have bound : ∀ (c : Container p.header) v, c.Referred v →
      (containerId p v).toNat < (nContainers p).toNat := fun c v refers => by
    rw [id c v refers, nContainers_toNat, Nat.mod_eq_of_lt few]
    exact c.position_lt
  constructor
  case distinct =>
    intro c d v w refers refers' differ same
    have positions := congrArg UInt32.toNat same
    rw [id c v refers, id d w refers'] at positions
    exact differ (Container.position_injective positions)
  case bound =>
    intro c v refers
    exact UInt32.lt_iff_toNat_lt.mpr (bound c v refers)
  case bits =>
    intro c v refers
    have less := bound c v refers
    have enough := iceil_eight (nContainers p).toNat
    omega

/-- From 2^32 containers on one has the greatest id, which is never below their number. -/
theorem ContainerIdsMeet.count (meet : ContainerIdsMeet p) : p.header.nPositions < 2 ^ 32 := by
  by_contra many
  obtain ⟨c, last⟩ := Container.exists_position (show 2 ^ 32 - 1 < p.header.nPositions by omega)
  obtain ⟨v, refers⟩ := c.exists_referred
  have below := UInt32.lt_iff_toNat_lt.mp (meet.bound c v refers)
  rw [refers.id, last, nContainers_toNat] at below
  have wraps := Nat.mod_lt p.header.nPositions (show 0 < 2 ^ 32 by decide)
  omega

end Ids

/-! ## Files of any counts -/

/-- A file of the header `h` with offsets of 0 and no heap. -/
def countsFile (h : Header) : List UInt8 :=
  bytesHeader h ++ bytesOffsets (List.replicate h.nOffsets 0) ++ []

/-- The file opened. -/
def countsOpened (h : Header) : OpenFile := fileOf h (List.replicate h.nOffsets 0) []

/-- The size check passes whatever the counts are. -/
theorem init_countsFile {h : Header} (known : h.root.type.Known) (version : h.version = 2) :
    init (countsFile h) = .ok (countsOpened h, none) := by
  refine init_written known version List.length_replicate fun off mem => ?_
  rw [List.eq_of_mem_replicate mem]
  decide

/-- The ids of a file are right exactly where its containers are fewer than 2^32. -/
theorem containerIds_iff {p : OpenFile} {buf : List UInt8} {error : Option String}
    (_passes : init buf = .ok (p, error)) :
    ContainerIdsMeet p ↔
      1 + p.header.nVector.toNat + p.header.nSet.toNat + p.header.nMap.toNat < 2 ^ 32 :=
  ⟨ContainerIdsMeet.count, ContainerIdsMeet.of_count⟩

/-- A header of one container of each kind. -/
def eachHeader : Header := ⟨⟨.vectorEmpty, 0⟩, 0, 1, 0, 1, 1, 2⟩

theorem containerIds_iff_each : ContainerIdsMeet (countsOpened eachHeader) ↔ 1 + 1 + 1 + 1 < 2 ^ 32 :=
  containerIds_iff (init_countsFile (h := eachHeader) trivial rfl)

/-- A header of 2^32 - 1 vectors and a set. -/
def manyHeader : Header := ⟨⟨.vectorEmpty, 0⟩, 0, uint32Max, 0, 1, 0, 2⟩

/-- The set gets the id of the empty vector, and the last vector the greatest one although
the bitmask is made for a single container. -/
theorem manyContainers_ids :
    init (countsFile manyHeader) = .ok (countsOpened manyHeader, none) ∧
      containerId (countsOpened manyHeader) ⟨.setValue, 0⟩ =
        containerId (countsOpened manyHeader) ⟨.vectorEmpty, 0⟩ ∧
      nContainers (countsOpened manyHeader) = 1 ∧
      containerId (countsOpened manyHeader) ⟨.vectorValue, 4294967294⟩ = uint32Max ∧
      ¬ContainerIdsMeet (countsOpened manyHeader) := by
  refine ⟨init_countsFile trivial rfl, rfl, rfl, rfl, fun meet => ?_⟩
  have few := meet.count
  exact absurd few (by decide)

end Pointless
