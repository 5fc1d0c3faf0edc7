import Pointless.Passes

/-!
# Reading a file that has passed the first pass

In a sound file the accessors of a reachable value return, and so do its string
and bitvector functions; what is reachable from it is reached by them.
-/

namespace Pointless

open ByteMemory ExceptRules DepthFirst

/-! ## Reachable values -/

section Reachability

variable {p : OpenFile}

theorem Reachable.root (p : OpenFile) : Reachable p p.root := .refl

theorem Reachable.child {v w : Value} (reach : Reachable p v) {nodes : List (Res Value)}
    (read : walkChildren p v = .ok nodes) (mem : .ok w ∈ nodes) : Reachable p w :=
  reach.tail ⟨nodes, read, mem⟩

variable (sound : p.Sound)
include sound

/-- The items of a reachable value vector can be read, and are reachable. -/
theorem OpenFile.Sound.items {v : Value} (reach : Reachable p v)
    (type : v.type = .vectorValue ∨ v.type = .vectorValueHashable) :
    ∃ n, readerVectorNItems p v = .ok n ∧
      ∀ i < n.toNat, ∃ item, readerVectorValue p v i = .ok item ∧ Reachable p item := by
  have itemLen : vectorItemLen v.type = some 8 := by
    rcases type with type | type <;> rw [type] <;> rfl
  have nonempty : v.type ≠ .vectorEmpty := by
    rcases type with type | type <;> rw [type] <;> exact ValueType.noConfusion
  obtain ⟨off, n, vector⟩ := (sound.checked v reach).vector sound.sized itemLen
  have count := vector.nItems nonempty
  refine ⟨n, count, fun i less => ?_⟩
  obtain ⟨item, read⟩ := vector.value nonempty less
  refine ⟨item, read, ?_⟩
  have children : walkChildren p v
      = .ok ((List.range n.toNat).map fun i => readerVectorValue p v i) := by
    unfold walkChildren
    rcases type with type | type <;> simp only [type, count, ok_bind, pure_eq_ok]
  exact reach.child children (List.mem_map.mpr ⟨i, List.mem_range.mpr less, read⟩)

/-- The vectors of a reachable set. -/
theorem OpenFile.Sound.setVectors {v : Value} (reach : Reachable p v) (type : v.type = .setValue) :
    ∃ hashes keys n, setHashVector p v = .ok hashes ∧ setKeyVector p v = .ok keys ∧
      readerSetNItems p v = .ok n ∧ hashes.type = .vectorU32 ∧
      keys.type = .vectorValueHashable ∧ Reachable p hashes ∧ Reachable p keys := by
  obtain ⟨off, hashes, keys, inside, hashesRead, keysRead, hashType, keyType⟩ :=
    (sound.checked v reach).set sound.sized type
  obtain ⟨n, count⟩ := readerSetNItems_eq inside
  have children : walkChildren p v = .ok [setHashVector p v, setKeyVector p v] := by
    unfold walkChildren
    simp only [type, pure_eq_ok]
  refine ⟨hashes, keys, n, hashesRead, keysRead, count, hashType, keyType, ?_, ?_⟩
  · exact reach.child children (by simp [hashesRead])
  · exact reach.child children (by simp [keysRead])

/-- The vectors of a reachable map. -/
theorem OpenFile.Sound.mapVectors {v : Value} (reach : Reachable p v)
    (type : v.type = .mapValueValue) :
    ∃ hashes keys values n, mapHashVector p v = .ok hashes ∧ mapKeyVector p v = .ok keys ∧
      mapValueVector p v = .ok values ∧ readerMapNItems p v = .ok n ∧
      hashes.type = .vectorU32 ∧ keys.type = .vectorValueHashable ∧
      (values.type = .vectorValueHashable ∨ values.type = .vectorValue) ∧
      Reachable p hashes ∧ Reachable p keys ∧ Reachable p values := by
  obtain ⟨off, hashes, keys, values, inside, hashesRead, keysRead, valuesRead, hashType, keyType,
    valueType⟩ := (sound.checked v reach).map sound.sized type
  obtain ⟨n, count⟩ := readerMapNItems_eq inside
  have children : walkChildren p v
      = .ok [mapHashVector p v, mapKeyVector p v, mapValueVector p v] := by
    unfold walkChildren
    simp only [type, pure_eq_ok]
  refine ⟨hashes, keys, values, n, hashesRead, keysRead, valuesRead, count, hashType, keyType,
    valueType, ?_, ?_, ?_⟩
  · exact reach.child children (by simp [hashesRead])
  · exact reach.child children (by simp [keysRead])
  · exact reach.child children (by simp [valuesRead])

/-- The hashes of a reachable hash vector can be read. -/
theorem OpenFile.Sound.hashes {v : Value} (reach : Reachable p v) (type : v.type = .vectorU32) :
    ∃ n, readerVectorNItems p v = .ok n ∧ ∀ i < n.toNat, ∃ hash, hashVectorAt p v i = .ok hash := by
  have itemLen : vectorItemLen v.type = some 4 := by rw [type]; rfl
  have nonempty : v.type ≠ .vectorEmpty := by rw [type]; exact ValueType.noConfusion
  obtain ⟨off, n, vector⟩ := (sound.checked v reach).vector sound.sized itemLen
  refine ⟨n, vector.nItems nonempty, fun i less => ?_⟩
  obtain ⟨word, read, -⟩ := vector.word nonempty less
  exact ⟨UInt32.ofNat word, by rw [hashVectorAt, read]; rfl⟩

end Reachability

/-! ## Strings -/

/-- The first `n` characters are followed by the terminator, which is none of them. -/
structure Terminated (chars : List UInt32) (n : Nat) : Prop where
  body : ∀ i < n, ∃ c, chars[i]? = some c ∧ c ≠ 0
  terminator : chars[n]? = some 0

theorem Terminated.ne_nil {chars : List UInt32} {n : Nat} (terminated : Terminated chars n) :
    ∃ c rest, chars = c :: rest := by
  cases chars with
  | nil => cases terminated.terminator
  | cons c rest => exact ⟨c, rest, rfl⟩

theorem Terminated.tail {c : UInt32} {rest : List UInt32} {n : Nat}
    (terminated : Terminated (c :: rest) n) (nonzero : c ≠ 0) :
    ∃ m, n = m + 1 ∧ Terminated rest m := by
  cases n with
  | zero =>
      have zero := terminated.terminator
      cases zero
      exact absurd rfl nonzero
  | succ m =>
      exact ⟨m, rfl, fun i less => terminated.body (i + 1) (by omega), terminated.terminator⟩

theorem stringHashLoop_terminated {chars : List UInt32} {n : Nat}
    (terminated : Terminated chars n) (x : UInt32) (len : Nat) :
    ∃ hash, stringHashLoop x len chars = .ok hash := by
  induction chars generalizing n x len with
  | nil => cases terminated.terminator
  | cons c rest ih =>
      rw [stringHashLoop]
      split
      case isTrue => exact ⟨_, rfl⟩
      case isFalse nonzero =>
        obtain ⟨m, rfl, rest'⟩ := terminated.tail nonzero
        exact ih rest' _ _

theorem stringHash32_terminated {chars : List UInt32} {n : Nat} (terminated : Terminated chars n) :
    ∃ hash, stringHash32 chars = .ok hash := by
  obtain ⟨c, rest, rfl⟩ := terminated.ne_nil
  exact stringHashLoop_terminated terminated _ _

theorem cmpString_terminated {a b : List UInt32} {n m : Nat} (aTerminated : Terminated a n)
    (bTerminated : Terminated b m) : ∃ c, cmpString a b = .ok c := by
  induction a generalizing b n m with
  | nil => cases aTerminated.terminator
  | cons x as ih =>
      obtain ⟨y, bs, rfl⟩ := bTerminated.ne_nil
      rw [cmpString]
      split
      case isTrue same =>
        split
        case isTrue => exact ⟨_, rfl⟩
        case isFalse nonzero =>
          obtain ⟨n', rfl, asTerminated⟩ := aTerminated.tail nonzero
          obtain ⟨m', rfl, bsTerminated⟩ := bTerminated.tail (same ▸ nonzero)
          exact ih asTerminated bsTerminated
      case isFalse => exact ⟨_, rfl⟩

theorem loadWord_eq_ok {w off n : Nat} {m : List UInt8} :
    loadWord w m off = .ok n ↔ load w m off = some n := by
  unfold loadWord
  cases load w m off with
  | none => simp [fault]
  | some k => simp

theorem chars8_getElem? {m : List UInt8} {i c : Nat} (loaded : loadWord 1 m i = .ok c) :
    (chars8 m)[i]? = some (UInt32.ofNat c) := by
  rw [loadWord_eq_ok, load_one, Option.map_eq_some_iff] at loaded
  obtain ⟨b, at_i, rfl⟩ := loaded
  rw [chars8, List.getElem?_map, at_i, Option.map_some]
  congr 1
  apply UInt32.toNat_inj.mp
  rw [UInt8.toNat_toUInt32, UInt32.toNat_ofNat']
  have bound := b.toNat_lt
  omega

theorem chars32_getElem? {m : List UInt8} {i c : Nat} (loaded : loadWord 4 m (4 * i) = .ok c) :
    (chars32 m)[i]? = some (UInt32.ofNat c) := by
  rw [loadWord_eq_ok] at loaded
  induction i generalizing m with
  | zero =>
      have inside := load_isSome_iff.mp (by rw [loaded]; rfl)
      match m, inside with
      | b0 :: b1 :: b2 :: b3 :: rest, _ =>
          have word := load_zero [b0, b1, b2, b3] rest
          have same : some (decode [b0, b1, b2, b3]) = some c := word.symm.trans loaded
          rw [chars32, Option.some.inj same]
          rfl
  | succ i ih =>
      have inside := load_isSome_iff.mp (by rw [loaded]; rfl)
      match m, inside with
      | b0 :: b1 :: b2 :: b3 :: rest, _ =>
          have dropped : load 4 rest (4 * i) = some c := by
            have within : 4 ≤ (b0 :: b1 :: b2 :: b3 :: rest).length := by simp
            have shift := load_drop within 4 (4 * i)
            have place : 4 + 4 * i = 4 * (i + 1) := by omega
            rw [place, loaded] at shift
            exact shift
          exact ih dropped

theorem loadWord_drop {w off base c : Nat} {m : List UInt8} (within : base ≤ m.length)
    (loaded : loadWord w m (base + off) = .ok c) : loadWord w (m.drop base) off = .ok c := by
  rw [loadWord_eq_ok] at loaded ⊢
  rw [load_drop within, loaded]

theorem ofNat_eq_zero {c : Nat} (bound : c < 2 ^ 32) (zero : UInt32.ofNat c = 0) : c = 0 := by
  have value : (UInt32.ofNat c).toNat = 0 := congrArg UInt32.toNat zero
  rwa [UInt32.toNat_ofNat', Nat.mod_eq_of_lt bound] at value

section Strings

variable {p : OpenFile} {v : Value}

/-- The characters of a string in the heap, read by `chars`, are terminated. -/
theorem StringInside.terminated {w off : Nat} {n : UInt32} (string : StringInside p v w off n)
    (narrow : w ≤ 4) {chars : List UInt8 → List UInt32}
    (charAt : ∀ {m : List UInt8} {i c : Nat}, loadWord w m (w * i) = .ok c →
      (chars m)[i]? = some (UInt32.ofNat c)) :
    ∃ m, readerStringUnicodeValue p v = .ok m ∧ Terminated (chars m) n.toNat := by
  have inside := string.inside
  have within : off + 4 ≤ p.heap.length := by omega
  refine ⟨p.heap.drop (off + 4), by rw [readerStringUnicodeValue, string.offset]; rfl, ?_, ?_⟩
  · intro i less
    have charInside : off + 4 + w * i + w ≤ p.heap.length := by
      have grows : w * (i + 1) ≤ w * (n.toNat + 1) := Nat.mul_le_mul_left w (by omega)
      rw [Nat.mul_succ] at grows
      omega
    obtain ⟨c, loaded, bound⟩ := loadWord_inside charInside
    refine ⟨UInt32.ofNat c, charAt (loadWord_drop within loaded), fun zero => ?_⟩
    have fits : c < 2 ^ 32 := by
      calc c < 256 ^ w := bound
        _ ≤ 256 ^ 4 := Nat.pow_le_pow_right (by decide) narrow
        _ = 2 ^ 32 := by decide
    exact string.body i less c loaded (ofNat_eq_zero fits zero)
  · exact charAt (loadWord_drop within string.terminator)

theorem StringInside.terminated8 {off : Nat} {n : UInt32} (string : StringInside p v 1 off n) :
    ∃ m, readerStringUnicodeValue p v = .ok m ∧ Terminated (chars8 m) n.toNat :=
  string.terminated (by decide) fun {m i c} loaded => by
    rw [Nat.one_mul] at loaded
    exact chars8_getElem? loaded

theorem StringInside.terminated32 {off : Nat} {n : UInt32} (string : StringInside p v 4 off n) :
    ∃ m, readerStringUnicodeValue p v = .ok m ∧ Terminated (chars32 m) n.toNat :=
  string.terminated (by decide) chars32_getElem?

/-- The characters of a reachable string or unicode. -/
theorem OpenFile.Sound.stringChars (sound : p.Sound) (reach : Reachable p v)
    (type : v.type = .unicode ∨ v.type = .string) :
    ∃ m n, readerStringUnicodeValue p v = .ok m ∧ Terminated (stringChars v.type m) n := by
  rcases type with type | type
  · obtain ⟨off, n, string⟩ := (sound.checked v reach).unicode sound.sized type
    obtain ⟨m, read, terminated⟩ := string.terminated32
    exact ⟨m, n.toNat, read, by rw [Pointless.stringChars, if_pos type]; exact terminated⟩
  · obtain ⟨off, n, string⟩ := (sound.checked v reach).string sound.sized type
    obtain ⟨m, read, terminated⟩ := string.terminated8
    refine ⟨m, n.toNat, read, ?_⟩
    rw [Pointless.stringChars, if_neg (by rw [type]; exact ValueType.noConfusion)]
    exact terminated

end Strings

/-! ## Bitvectors -/

section Bitvectors

variable {p : OpenFile} {v : Value}

/-- A bitvector whose bits can be read: its type, its data and its buffer. -/
structure BitsInside (t : ValueType) (data : UInt32) (buffer : Ptr) (n : UInt32) : Prop where
  nBits : bitvectorNBits t data buffer = .ok n
  isSet : ∀ i < n.toNat, ∃ b, bitvectorIsSet t data buffer i = .ok b

theorem bmIsSet_inside {m : List UInt8} {i : Nat} (inside : i / 8 < m.length) :
    ∃ b, bmIsSet (some m) i = .ok b := by
  have room : i / 8 + 1 ≤ m.length := inside
  obtain ⟨byte, loaded⟩ := loadU8_inside room
  exact ⟨byte.toNat.testBit (i % 8), by rw [bmIsSet, loaded]; rfl⟩

theorem BitvectorInside.bits {off : Nat} {n : UInt32} (bitvector : BitvectorInside p v off n) :
    BitsInside .bitvector v.data (some (p.heap.drop off)) n := by
  have inside := bitvector.inside
  have enough := iceil_eight n.toNat
  constructor
  · have loaded := bitvector.count
    unfold loadU32 at loaded
    obtain ⟨word, read, same⟩ := map_eq_ok.mp loaded
    rw [bitvectorNBits]
    change loadU32 (p.heap.drop off) 0 = .ok n
    rw [loadU32, loadWord_drop (by omega) read, map_ok, same]
  · intro i less
    have size : i / 8 < ((p.heap.drop off).drop 4).length := by
      simp only [List.length_drop]
      omega
    exact bmIsSet_inside size

/-- The bits of the inline encodings. -/
theorem bitsInside_inline {t : ValueType} {data : UInt32}
    (type : t = .bitvector0 ∨ t = .bitvector1 ∨ t = .bitvector01 ∨ t = .bitvector10 ∨
      t = .bitvectorPacked) (packed : t = .bitvectorPacked → packedNBits data ≤ 27)
    (buffer : Ptr) : ∃ n, BitsInside t data buffer n := by
  rcases type with rfl | rfl | rfl | rfl | rfl
  · exact ⟨_, rfl, fun i _ => ⟨_, rfl⟩⟩
  · exact ⟨_, rfl, fun i _ => ⟨_, rfl⟩⟩
  · exact ⟨_, rfl, fun i _ => ⟨_, rfl⟩⟩
  · exact ⟨_, rfl, fun i _ => ⟨_, rfl⟩⟩
  · refine ⟨_, rfl, fun i less => ?_⟩
    have few := packed rfl
    rw [UInt32.toNat_ofNat', Nat.mod_eq_of_lt (by omega)] at less
    have size : (i + 5) / 8 < (bytesU32 data).length := by
      rw [bytesU32, length_encode]
      omega
    exact bmIsSet_inside size

/-- The bits of a reachable bitvector. -/
theorem OpenFile.Sound.bits (sound : p.Sound) (reach : Reachable p v)
    (type : isBitvectorType v.type = true) :
    ∃ buffer n, readerBitvectorPtr p v = .ok buffer ∧ BitsInside v.type v.data buffer n ∧
      (v.type ≠ .bitvector → buffer = none) := by
  have checked := sound.checked v reach
  by_cases heap : v.type = .bitvector
  · obtain ⟨off, n, bitvector⟩ := checked.bitvector sound.sized heap
    refine ⟨some (p.heap.drop off), n, ?_, heap ▸ bitvector.bits, fun bad => absurd heap bad⟩
    rw [readerBitvectorPtr, if_pos heap, readerBitvectorBuffer, bitvector.offset]
    rfl
  · have inline : v.type = .bitvector0 ∨ v.type = .bitvector1 ∨ v.type = .bitvector01 ∨
        v.type = .bitvector10 ∨ v.type = .bitvectorPacked := by
      unfold isBitvectorType at type
      split at type <;> simp_all
    obtain ⟨n, bits⟩ := bitsInside_inline inline (fun type => checked.packed type) none
    exact ⟨none, n, by rw [readerBitvectorPtr, if_neg heap], bits, fun _ => rfl⟩

theorem BitsInside.hash {t : ValueType} {data : UInt32} {buffer : Ptr} {n : UInt32}
    (bits : BitsInside t data buffer n) : ∃ hash, bitvectorHash32 t data buffer = .ok hash := by
  have safe : Post (fun _ => True) (fun _ : Stop => False) (bitvectorHash32 t data buffer) := by
    rw [bitvectorHash32, bits.nBits, ok_bind, bitvectorHash32Priv]
    refine Post.foldlM trivial fun h _ k kMem => ?_
    have byte : Post (fun _ => True) (fun _ : Stop => False) (bitvectorHashByte t data n.toNat
        (if t = .bitvector then bitvectorBits buffer else none) k) := by
      refine Post.foldlM trivial fun b _ j jMem => ?_
      rw [List.mem_range] at jMem
      obtain ⟨isSet, read⟩ := bits.isSet (8 * k + j) (by omega)
      rw [bitvectorIsSet] at read
      rw [read]
      exact trivial
    exact Post.bind byte fun _ _ _ => trivial
  cases hashed : bitvectorHash32 t data buffer with
  | ok hash => exact ⟨hash, rfl⟩
  | error e =>
      rw [hashed] at safe
      exact safe.elim

end Bitvectors

/-! ## Hashes -/

section Hashes

variable {p : OpenFile}

/-- The two ways in which a hash can fail to come: a value without a hash
callback, and a recursion that does not end. -/
def Stop.InHash (e : Stop) : Prop := e = .fault .nullCallback ∨ e = .fault .diverges

theorem Stop.InHash.inside {e : Stop} (inHash : e.InHash) : e.Inside := by
  rcases inHash with rfl | rfl <;> exact trivial

/-- The words of a reachable vector of integers or floats. -/
theorem OpenFile.Sound.word (sound : p.Sound) {v : Value} (reach : Reachable p v) {w : Nat}
    (item : vectorItemLen v.type = some w) (nonempty : v.type ≠ .vectorEmpty) {n : UInt32}
    (count : readerVectorNItems p v = .ok n) {i : Nat} (less : i < n.toNat) :
    ∃ word, readerVectorWord p v w i = .ok word := by
  obtain ⟨off, m, vector⟩ := (sound.checked v reach).vector sound.sized item
  rw [vector.nItems nonempty] at count
  cases count
  obtain ⟨word, read, -⟩ := vector.word nonempty less
  exact ⟨word, read⟩

/-- The items of a vector that is not empty have a length. -/
theorem vectorItemLen_of_type {t : ValueType} (type : isVectorType t = true)
    (nonempty : t ≠ .vectorEmpty) : ∃ w, vectorItemLen t = some w := by
  unfold isVectorType at type
  unfold vectorItemLen
  split at type <;> simp_all

/-- The number of items of a reachable vector. -/
theorem OpenFile.Sound.nItems (sound : p.Sound) {v : Value} (reach : Reachable p v)
    (type : isVectorType v.type = true) : ∃ n, readerVectorNItems p v = .ok n := by
  by_cases empty : v.type = .vectorEmpty
  · exact ⟨0, by rw [readerVectorNItems, if_pos empty]⟩
  · obtain ⟨w, item⟩ := vectorItemLen_of_type type empty
    obtain ⟨off, n, vector⟩ := (sound.checked v reach).vector sound.sized item
    exact ⟨n, vector.nItems empty⟩

/-- The values that the hash of a vector goes on to. -/
def HashItem (p : OpenFile) (v w : Value) : Prop :=
  v.type = .vectorValueHashable ∧ ∃ n i, readerVectorNItems p v = .ok n ∧ i < n.toNat ∧
    readerVectorValue p v i = .ok w

theorem HashItem.reachable (sound : p.Sound) {v w : Value} (item : HashItem p v w)
    (reach : Reachable p v) : Reachable p w := by
  obtain ⟨type, n, i, count, less, read⟩ := item
  obtain ⟨m, count', all⟩ := sound.items reach (Or.inr type)
  rw [count] at count'
  cases count'
  obtain ⟨w', read', itemReach⟩ := all i less
  rw [read] at read'
  cases read'
  exact itemReach

/-- An item hash of a reachable vector comes, when those of the values it goes on to
come. -/
theorem OpenFile.Sound.hashItem (sound : p.Sound) {v : Value} (reach : Reachable p v)
    {bad : Stop → Prop} {rec : Value → Res UInt32}
    (items : ∀ w, HashItem p v w → Post (fun _ => True) bad (rec w))
    {n : UInt32} (count : readerVectorNItems p v = .ok n) {i : Nat} (less : i < n.toNat) :
    Post (fun _ => True) bad (hashReaderVectorItem rec p v i) := by
  have read : ∀ {w : Nat}, vectorItemLen v.type = some w → v.type ≠ .vectorEmpty →
      Post (fun _ => True) bad (readerVectorWord p v w i) := by
    intro w item nonempty
    obtain ⟨word, read⟩ := sound.word reach item nonempty count less
    rw [read]
    exact trivial
  unfold hashReaderVectorItem
  cases type : v.type
  case vectorValueHashable =>
    obtain ⟨m, count', all⟩ := sound.items reach (Or.inr type)
    rw [count] at count'
    cases count'
    obtain ⟨item, itemRead, -⟩ := all i less
    simp only [itemRead, ok_bind]
    exact items item ⟨type, n, i, count, less, itemRead⟩
  case vectorI8 | vectorU8 | vectorI16 | vectorU16 | vectorI32 | vectorU32 | vectorI64 |
      vectorU64 | vectorFloat =>
    exact Post.map (Post.map (read (by rw [type]; rfl) (by simp [type])))
  all_goals exact trivial

/-- A hash of a reachable vector comes, when the hashes of its items come. -/
theorem OpenFile.Sound.hashVector (sound : p.Sound) {v : Value} (reach : Reachable p v)
    (type : isVectorType v.type = true) {bad : Stop → Prop} {rec : Value → Res UInt32}
    (items : ∀ w, HashItem p v w → Post (fun _ => True) bad (rec w)) :
    Post (fun _ => True) bad (do
      let nItems ← readerVectorNItems p v
      hashReaderVector32Priv rec p v 0 nItems) := by
  obtain ⟨n, count⟩ := sound.nItems reach type
  rw [count, ok_bind, hashReaderVector32Priv, vectorHash32]
  have loop : Post (fun _ => True) bad
      ((List.range' (0 : UInt32).toNat ((n + 0).toNat - (0 : UInt32).toNat)).foldlM
        (fun s i => vectorHashNext32 s <$> hashReaderVectorItem rec p v i)
        (vectorHashInit32 n)) := by
    refine Post.foldlM trivial fun s _ i mem => Post.map ?_
    have less : i < n.toNat := by
      rw [UInt32.add_zero] at mem
      obtain ⟨j, jLess, rfl⟩ := List.mem_range'.mp mem
      change 0 + 1 * j < n.toNat
      change j < n.toNat - 0 at jLess
      omega
    exact sound.hashItem reach items count less
  exact Post.bind loop fun _ _ _ => trivial

theorem hashFunc32_vector {t : ValueType} (func : hashFunc32 t = some .vector) :
    isVectorType t = true := by
  unfold hashFunc32 at func
  split at func <;> first | rfl | cases func

theorem hashFunc32_bitvector {t : ValueType} (func : hashFunc32 t = some .bitvector) :
    isBitvectorType t = true := by
  unfold hashFunc32 at func
  split at func <;> first | rfl | cases func

theorem hashFunc32_unicode {t : ValueType} (func : hashFunc32 t = some .unicode) :
    t = .unicode := by
  unfold hashFunc32 at func
  split at func <;> first | rfl | cases func

theorem hashFunc32_string {t : ValueType} (func : hashFunc32 t = some .string) : t = .string := by
  unfold hashFunc32 at func
  split at func <;> first | rfl | cases func

/-- One level of the hash of a reachable value. -/
theorem OpenFile.Sound.hashStep (sound : p.Sound) {v : Value} (reach : Reachable p v)
    {bad : Stop → Prop} (notHashable : hashFunc32 v.type = none → bad (.fault .nullCallback))
    {fuel : Nat}
    (items : ∀ w, HashItem p v w → Post (fun _ => True) bad (hashReader32 p fuel w)) :
    Post (fun _ => True) bad (hashReader32 p (fuel + 1) v) := by
  rw [hashReader32]
  split
  case h_1 func =>
    have type := hashFunc32_unicode func
    obtain ⟨m, n, read, terminated⟩ := sound.stringChars reach (Or.inl type)
    rw [Pointless.stringChars, if_pos type] at terminated
    obtain ⟨hash, hashed⟩ := stringHash32_terminated terminated
    rw [read, ok_bind, hashUnicodeUcs4V132, hashed]
    exact trivial
  case h_2 func =>
    have type := hashFunc32_string func
    obtain ⟨m, n, read, terminated⟩ := sound.stringChars reach (Or.inr type)
    rw [Pointless.stringChars, if_neg (by rw [type]; exact ValueType.noConfusion)] at terminated
    obtain ⟨hash, hashed⟩ := stringHash32_terminated terminated
    rw [read, ok_bind, hashStringV132, hashed]
    exact trivial
  case h_5 func =>
    obtain ⟨buffer, n, read, bits, -⟩ := sound.bits reach (hashFunc32_bitvector func)
    obtain ⟨hash, hashed⟩ := bits.hash
    rw [read, ok_bind, hashed]
    exact trivial
  case h_7 func => exact sound.hashVector reach (hashFunc32_vector func) items
  case h_9 func => exact notHashable func
  all_goals exact trivial

/-- The hash of a reachable value reads nothing outside the buffer. -/
theorem OpenFile.Sound.hash (sound : p.Sound) (fuel : Nat) {v : Value} (reach : Reachable p v) :
    Post (fun _ => True) Stop.InHash (hashReader32 p fuel v) := by
  induction fuel generalizing v with
  | zero => exact Or.inr rfl
  | succ fuel ih =>
      exact sound.hashStep reach (fun _ => Or.inl rfl) fun w item => ih (item.reachable sound reach)

end Hashes

end Pointless
