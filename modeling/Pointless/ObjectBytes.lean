import Pointless.OpenWritten
import Pointless.WrittenFile

/-!
# The bytes of an object

`objectBytes` is what the heap pass writes for a value (`serializeObject_emits`), and
`announced` the size that the offset pass takes it to have. The two agree but for a vector,
whose size is announced in 32 bits (`announced_size`).
-/

namespace Pointless

open ByteMemory ExceptRules Placement

variable {p : Prepared} {v : CreateValue} {k : Pool}

/-! ## Appending -/

/-- A step that appends bytes. -/
def Appends (step : List UInt8 → Res (List UInt8)) (bytes : Res (List UInt8)) : Prop :=
  ∀ sink sink', step sink = .ok sink' → ∃ b, bytes = .ok b ∧ sink' = sink ++ b

/-- The sink with an object, and the padding after it. -/
def padded (sink b : List UInt8) : List UInt8 :=
  sink ++ b ++ List.replicate (alignPad (sink.length + b.length)) 0

/-- A step that appends bytes and pads the sink. -/
def Emits (step : List UInt8 → Res (List UInt8)) (bytes : Res (List UInt8)) : Prop :=
  ∀ sink sink', step sink = .ok sink' →
    ∃ b, bytes = .ok b ∧ sink' = padded sink b ∧ sink'.length < 2 ^ 64

theorem dynarrayWrite_eq_ok {sink buf sink' : List UInt8} :
    dynarrayWrite sink buf = .ok sink' ↔
      sink.length + buf.length < 2 ^ 64 ∧ sink' = sink ++ buf := by
  rw [dynarrayWrite]
  split
  · rename_i fits
    rw [Except.ok.injEq]
    exact ⟨fun same => ⟨fits, same.symm⟩, fun same => same.2.symm⟩
  · rename_i long
    exact ⟨nofun, fun same => absurd same.1 long⟩

theorem appends_write (buf : List UInt8) :
    Appends (fun sink => dynarrayWrite sink buf) (.ok buf) :=
  fun _ _ done => ⟨buf, rfl, (dynarrayWrite_eq_ok.mp done).2⟩

/-- The bytes of a part of a buffer that has to hold them. -/
def partOf (buffer : List UInt8) (off n : Nat) : Res (List UInt8) :=
  match slice buffer off n with
  | some bytes => .ok bytes
  | none => fault .outOfBounds

theorem appends_from (buffer : List UInt8) (off n : Nat) :
    Appends (fun sink => writeFrom sink buffer off n) (partOf buffer off n) := by
  intro sink sink' done
  change writeFrom sink buffer off n = _ at done
  rw [writeFrom] at done
  rw [partOf]
  cases found : slice buffer off n with
  | none =>
      rw [found] at done
      cases done
  | some bytes =>
      rw [found] at done
      exact ⟨bytes, rfl, (dynarrayWrite_eq_ok.mp done).2⟩

theorem appends_foldlM {α : Type} {step : List UInt8 → α → Res (List UInt8)}
    {bytes : α → Res (List UInt8)} (items : List α)
    (each : ∀ a, Appends (fun sink => step sink a) (bytes a)) :
    Appends (fun sink => items.foldlM step sink) (List.flatten <$> items.mapM bytes) := by
  induction items with
  | nil =>
      intro sink sink' done
      cases done
      exact ⟨[], rfl, (List.append_nil _).symm⟩
  | cons a rest ih =>
      intro sink sink' done
      change (a :: rest).foldlM step sink = _ at done
      rw [List.foldlM_cons] at done
      obtain ⟨sink₁, first, later⟩ := bind_eq_ok.mp done
      obtain ⟨b, here, rfl⟩ := each a sink sink₁ first
      obtain ⟨bs, others, rfl⟩ := ih _ _ later
      obtain ⟨parts, mapped, rfl⟩ := map_eq_ok.mp others
      refine ⟨b ++ parts.flatten, ?_, List.append_assoc _ _ _⟩
      rw [List.mapM_cons, here, ok_bind, mapped]
      rfl

theorem appends_bind {α : Type} {x : Res α} {step : α → List UInt8 → Res (List UInt8)}
    {bytes : α → Res (List UInt8)} (each : ∀ a, Appends (step a) (bytes a)) :
    Appends (fun sink => x >>= fun a => step a sink) (x >>= bytes) := by
  intro sink sink' done
  obtain ⟨a, here, later⟩ := bind_eq_ok.mp done
  obtain ⟨b, found, same⟩ := each a sink sink' later
  exact ⟨b, by rw [here]; exact found, same⟩

theorem emits_align : Emits dynarrayAlign4 (.ok []) := by
  intro sink sink' done
  obtain ⟨fits, same⟩ := dynarrayWrite_eq_ok.mp done
  refine ⟨[], rfl, ?_, ?_⟩
  · rw [same, padded, List.append_nil]
    rfl
  · rw [same, List.length_append]
    exact fits

theorem Appends.emits {step rest : List UInt8 → Res (List UInt8)} {b bs : Res (List UInt8)}
    (first : Appends step b) (later : Emits rest bs) :
    Emits (fun sink => step sink >>= rest) (b >>= fun x => (x ++ ·) <$> bs) := by
  intro sink sink' done
  obtain ⟨sink₁, here, next⟩ := bind_eq_ok.mp done
  obtain ⟨x, found, rfl⟩ := first sink sink₁ here
  obtain ⟨y, found', same, fits⟩ := later _ _ next
  refine ⟨x ++ y, ?_, ?_, fits⟩
  · rw [found, found']
    rfl
  · rw [same, padded, padded, List.length_append, List.length_append, List.append_assoc sink x y,
      Nat.add_assoc]

theorem emits_bind {α : Type} {x : Res α} {step : α → List UInt8 → Res (List UInt8)}
    {bytes : α → Res (List UInt8)} (each : ∀ a, Emits (step a) (bytes a)) :
    Emits (fun sink => x >>= fun a => step a sink) (x >>= bytes) := by
  intro sink sink' done
  obtain ⟨a, here, later⟩ := bind_eq_ok.mp done
  obtain ⟨b, found, rest⟩ := each a sink sink' later
  exact ⟨b, by rw [here]; exact found, rest⟩

theorem Appends.congr {step : List UInt8 → Res (List UInt8)} {bytes bytes' : Res (List UInt8)}
    (appends : Appends step bytes) (same : bytes = bytes') : Appends step bytes' := by
  rw [← same]
  exact appends

theorem Emits.congr {step : List UInt8 → Res (List UInt8)} {bytes bytes' : Res (List UInt8)}
    (emits : Emits step bytes) (same : bytes = bytes') : Emits step bytes' := by
  rw [← same]
  exact emits

/-- The bytes of a last part. -/
theorem last_bytes (x : Res (List UInt8)) :
    (x >>= fun b => (b ++ ·) <$> (Except.ok [] : Res (List UInt8))) = x := by
  cases x with
  | error e => rfl
  | ok b => exact congrArg Except.ok (List.append_nil b)

/-- The bytes of a first part that is there already. -/
theorem first_bytes (b : List UInt8) (x : Res (List UInt8)) :
    ((Except.ok b : Res (List UInt8)) >>= fun a => (a ++ ·) <$> x) = x >>= fun y => pure (b ++ y) := by
  cases x
  all_goals rfl

/-! ## Objects -/

/-- The bytes of the items of a vector of the library's. -/
def privItemBytes (p : Prepared) (v : CreateValue) (vector : Dynarray) : Res (List UInt8) :=
  if ¬(v.type = .vectorValue ∨ v.type = .vectorValueHashable) ∧ ¬v.isCompressedVector then
    partOf vector.data 0 ((vectorItemLen v.type).getD 0 * (UInt32.ofNat vector.nItems).toNat)
  else
    List.flatten <$> (List.range (UInt32.ofNat vector.nItems).toNat).mapM fun i => do
      let handle ← vector.itemAtU32 i
      handleItemBytes p v handle

/-- The bytes of the items of a caller's vector. -/
def outsideItemBytes (v : CreateValue) (vector : VectorOutside) : Res (List UInt8) :=
  match outsideItemLen v.type with
  | none => fail "pointless_serialize_vector_outside(): internal error"
  | some wLen => partOf vector.items 0 (wLen * vector.nItems.toNat)

/-- The bytes of an object, without the padding after it. -/
def objectBytes (p : Prepared) (v : CreateValue) : Res (List UInt8) :=
  match v.heapPool with
  | some .text => do
      let buffer ← cvGetStringUnicode p.c v
      let len ← loadU32 buffer 0
      let chars ← partOf buffer 4 ((len + 1).toNat * charLen v.type)
      pure (bytesU32 len ++ chars)
  | some .priv => do
      let vector ← cvGetPrivVector p.c v
      let items ← privItemBytes p v vector
      pure (bytesU32 (UInt32.ofNat vector.nItems) ++ items)
  | some .outside => do
      let vector ← cvGetOutsideVector p.c v
      let items ← outsideItemBytes v vector
      pure (bytesU32 vector.nItems ++ items)
  | some .bits => do
      let buffer ← cvGetBitvector p.c v
      let len ← loadU32 buffer 0
      let bits ← partOf buffer 4 (iceil len.toNat 8)
      pure (bytesU32 len ++ bits)
  | some .set => do
      let set ← cvGetSet p.c v
      let hashVector ← createToReadValue p set.serializeHash
      let keyVector ← createToReadValue p set.serializeKeys
      pure (bytesU32 (UInt32.ofNat set.keys.length) ++ bytesU32 0 ++ bytesValue hashVector ++
        bytesValue keyVector)
  | some .map => do
      let map ← cvGetMap p.c v
      let hashVector ← createToReadValue p map.serializeHash
      let keyVector ← createToReadValue p map.serializeKeys
      let valueVector ← createToReadValue p map.serializeValues
      pure (bytesU32 (UInt32.ofNat map.keys.length) ++ bytesU32 0 ++ bytesValue hashVector ++
        bytesValue keyVector ++ bytesValue valueVector)
  | none => pure []

/-- The function of the heap pass for a value. -/
def serializeObject (p : Prepared) (v : CreateValue) (sink : List UInt8) : Res (List UInt8) :=
  match v.heapPool with
  | some .text => serializeStringUnicode p v sink
  | some .priv => serializeVectorPriv p v sink
  | some .outside => serializeVectorOutside p v sink
  | some .bits => serializeBitvector p v sink
  | some .set => serializeSet p v sink
  | some .map => serializeMap p v sink
  | none => pure sink

theorem privVector_emits (p : Prepared) (v : CreateValue) (vector : Dynarray) :
    Emits (fun sink => do
      let isUncompressed := v.type = .vectorValue ∨ v.type = .vectorValueHashable
      if ¬isUncompressed ∧ ¬v.isCompressedVector then do
        let sink ← writeFrom sink vector.data 0
          ((vectorItemLen v.type).getD 0 * (UInt32.ofNat vector.nItems).toNat)
        dynarrayAlign4 sink
      else do
        let sink ← (List.range (UInt32.ofNat vector.nItems).toNat).foldlM (fun sink i => do
          let handle ← vector.itemAtU32 i
          let bytes ← handleItemBytes p v handle
          dynarrayWrite sink bytes) sink
        dynarrayAlign4 sink) (privItemBytes p v vector) := by
  rw [privItemBytes]
  dsimp only
  split
  · exact ((appends_from _ _ _).emits emits_align).congr (last_bytes _)
  · have each (i : Nat) : Appends (fun sink => do
        let handle ← vector.itemAtU32 i
        let bytes ← handleItemBytes p v handle
        dynarrayWrite sink bytes) (do
        let handle ← vector.itemAtU32 i
        handleItemBytes p v handle) := by
      refine appends_bind fun handle => ?_
      have written : (handleItemBytes p v handle >>= Except.ok) = handleItemBytes p v handle :=
        bind_pure _
      exact (appends_bind appends_write).congr written
    exact ((appends_foldlM _ each).emits emits_align).congr (last_bytes _)

theorem serializeObject_emits (pool : v.heapPool = some k) :
    Emits (serializeObject p v) (objectBytes p v) := by
  unfold serializeObject objectBytes
  rw [pool]
  cases k with
  | text =>
      refine emits_bind fun buffer => emits_bind fun len => ?_
      refine ((appends_write _).emits ((appends_from _ _ _).emits emits_align)).congr ?_
      rw [last_bytes]
      exact first_bytes _ _
  | priv =>
      refine emits_bind fun vector => ?_
      exact ((appends_write _).emits (privVector_emits p v vector)).congr (first_bytes _ _)
  | outside =>
      refine emits_bind fun vector => ?_
      refine Emits.congr ((appends_write _).emits ?_) (first_bytes _ _)
      rw [outsideItemBytes]
      cases outsideItemLen v.type with
      | none =>
          intro sink sink' done
          cases done
      | some wLen => exact ((appends_from _ _ _).emits emits_align).congr (last_bytes _)
  | bits =>
      refine emits_bind fun buffer => emits_bind fun len => ?_
      refine ((appends_write _).emits ((appends_from _ _ _).emits emits_align)).congr ?_
      rw [last_bytes]
      exact first_bytes _ _
  | set =>
      refine emits_bind fun set => emits_bind fun hashVector => emits_bind fun keyVector => ?_
      exact ((appends_write _).emits emits_align).congr (last_bytes _)
  | map =>
      refine emits_bind fun map => emits_bind fun hashVector => emits_bind fun keyVector =>
        emits_bind fun valueVector => ?_
      exact ((appends_write _).emits emits_align).congr (last_bytes _)

/-! ## Sizes -/

/-- The size of an object as the offset pass computes it. -/
def announced (p : Prepared) (v : CreateValue) : Res Nat :=
  match v.heapPool with
  | some .text => do
      let buffer ← cvGetStringUnicode p.c v
      let len ← loadU32 buffer 0
      pure (4 + (len + 1).toNat * charLen v.type)
  | some .priv => do
      let vector ← cvGetPrivVector p.c v
      pure (vectorHeapSize (vectorItemLen v.type) (UInt32.ofNat vector.nItems)).toNat
  | some .outside => do
      let vector ← cvGetOutsideVector p.c v
      pure (vectorHeapSize (outsideItemLen v.type) vector.nItems).toNat
  | some .bits => do
      let buffer ← cvGetBitvector p.c v
      let len ← loadU32 buffer 0
      pure (4 + iceil len.toNat 8)
  | some .set => pure 24
  | some .map => pure 32
  | none => pure 0

/-- The size of a vector is announced in 32 bits. -/
def announcedAs (k : Pool) (size : Nat) : Nat :=
  match k with
  | .priv | .outside => size % 2 ^ 32
  | .text | .bits | .set | .map => size

theorem announcedAs_short (k : Pool) (size : Nat) : ShortOf 4 (announcedAs k size) size := by
  cases k
  case priv | outside =>
    refine ⟨Nat.mod_le _ _, ?_⟩
    change 4 ∣ size - size % 2 ^ 32
    omega
  all_goals exact ⟨Nat.le_refl _, by rw [announcedAs, Nat.sub_self]; exact Nat.dvd_zero 4⟩

theorem length_partOf {buffer b : List UInt8} {off n : Nat} (done : partOf buffer off n = .ok b) :
    b.length = n := by
  rw [partOf, slice] at done
  split at done
  · rename_i found
    split at found
    · rename_i inside
      cases found
      cases done
      rw [List.length_take, List.length_drop]
      omega
    · cases found
  · cases done

/-- The width of the items of a vector. -/
theorem itemLen_of_pool (pool : v.heapPool = some .priv ∨ v.heapPool = some .outside) :
    ∃ w, vectorItemLen v.type = some w := by
  obtain ⟨type, compressed, table, outside, d⟩ := v
  cases type
  case vectorValue | vectorValueHashable | vectorI8 | vectorU8 | vectorI16 | vectorU16 | vectorI32
      | vectorU32 | vectorFloat | vectorI64 | vectorU64 => exact ⟨_, rfl⟩
  all_goals rcases pool with same | same
  all_goals cases same

theorem length_handleItem {handle : UInt32} {b : List UInt8} {w : Nat} (shape : WrittenShape v)
    (width : vectorItemLen v.type = some w)
    (isHandles : v.type = .vectorValue ∨ v.type = .vectorValueHashable ∨ v.isCompressedVector = true)
    (done : handleItemBytes p v handle = .ok b) : b.length = w := by
  rw [handleItemBytes] at done
  split at done
  · rename_i isValue
    obtain ⟨value, -, rfl⟩ := map_eq_ok.mp done
    rw [length_bytesValue]
    rcases isValue with same | same
    all_goals
      rw [same] at width
      exact Option.some.inj width
  · rename_i notValue
    obtain ⟨item, -, rfl⟩ := map_eq_ok.mp done
    have isCompressed : v.isCompressedVector = true := by
      rcases isHandles with same | same | same
      · exact absurd (Or.inl same) notValue
      · exact absurd (Or.inr same) notValue
      · exact same
    obtain ⟨t, same, notI64, notU64⟩ := shape.narrow isCompressed
    rw [same] at width ⊢
    rw [t.vectorItemLen_vectorType] at width
    cases width
    cases t
    case i64 => exact absurd rfl notI64
    case u64 => exact absurd rfl notU64
    all_goals exact length_encode _ _

theorem length_mapM_flatten {α : Type} {f : α → Res (List UInt8)} {items : List α}
    {parts : List (List UInt8)} {w : Nat} (each : ∀ a b, f a = .ok b → b.length = w)
    (mapped : items.mapM f = .ok parts) : parts.flatten.length = w * items.length := by
  have all := mapM_eq_ok.mp mapped
  rw [all.length_eq]
  apply length_flatten_of_wide
  intro part mem
  clear mapped
  induction all with
  | nil => cases mem
  | cons first rest ih =>
      rcases List.mem_cons.mp mem with rfl | later
      · exact each _ _ first
      · exact ih later

theorem length_privItems {vector : Dynarray} {b : List UInt8} {w : Nat} (shape : WrittenShape v)
    (width : vectorItemLen v.type = some w) (done : privItemBytes p v vector = .ok b) :
    b.length = w * (UInt32.ofNat vector.nItems).toNat := by
  rw [privItemBytes] at done
  split at done
  · rw [length_partOf done, width]
    rfl
  · rename_i handles
    have isHandles : v.type = .vectorValue ∨ v.type = .vectorValueHashable ∨
        v.isCompressedVector = true := by
      by_cases isValue : v.type = .vectorValue ∨ v.type = .vectorValueHashable
      · rcases isValue with same | same
        · exact Or.inl same
        · exact Or.inr (Or.inl same)
      · exact Or.inr (Or.inr (not_not.mp fun own => handles ⟨isValue, own⟩))
    obtain ⟨parts, mapped, rfl⟩ := map_eq_ok.mp done
    rw [length_mapM_flatten (fun i b found => ?_) mapped, List.length_range]
    obtain ⟨handle, -, item⟩ := bind_eq_ok.mp found
    exact length_handleItem shape width isHandles item

/-- The size of a vector in 32 bits. -/
theorem vectorHeapSize_toNat (w : Nat) (n : UInt32) :
    (vectorHeapSize (some w) n).toNat = (4 + w * n.toNat) % 2 ^ 32 := by
  rw [vectorHeapSize, UInt32.toNat_ofNat', Nat.mul_comm]

theorem announced_size {b : List UInt8} (shape : WrittenShape v) (pool : v.heapPool = some k)
    (done : objectBytes p v = .ok b) : announced p v = .ok (announcedAs k b.length) := by
  unfold objectBytes at done
  unfold announced
  rw [pool] at done ⊢
  cases k with
  | text =>
      obtain ⟨buffer, found, done⟩ := bind_eq_ok.mp done
      obtain ⟨len, loaded, done⟩ := bind_eq_ok.mp done
      obtain ⟨chars, part, same⟩ := bind_eq_ok.mp done
      cases same
      dsimp only
      rw [found, ok_bind, loaded, announcedAs, List.length_append, length_bytesU32,
        length_partOf part]
      rfl
  | priv =>
      obtain ⟨vector, found, done⟩ := bind_eq_ok.mp done
      obtain ⟨items, part, same⟩ := bind_eq_ok.mp done
      cases same
      obtain ⟨w, width⟩ := itemLen_of_pool (Or.inl pool)
      dsimp only
      rw [found, ok_bind, announcedAs, List.length_append, length_bytesU32,
        length_privItems shape width part, width, vectorHeapSize_toNat]
      rfl
  | outside =>
      obtain ⟨vector, found, done⟩ := bind_eq_ok.mp done
      obtain ⟨items, part, same⟩ := bind_eq_ok.mp done
      cases same
      dsimp only
      rw [outsideItemBytes] at part
      cases width : outsideItemLen v.type with
      | none =>
          rw [width] at part
          cases part
      | some w =>
          rw [width] at part
          rw [found, ok_bind, announcedAs, List.length_append, length_bytesU32, length_partOf part,
            vectorHeapSize_toNat]
          rfl
  | bits =>
      obtain ⟨buffer, found, done⟩ := bind_eq_ok.mp done
      obtain ⟨len, loaded, done⟩ := bind_eq_ok.mp done
      obtain ⟨bits, part, same⟩ := bind_eq_ok.mp done
      cases same
      dsimp only
      rw [found, ok_bind, loaded, announcedAs, List.length_append, length_bytesU32,
        length_partOf part]
      rfl
  | set =>
      obtain ⟨set, -, done⟩ := bind_eq_ok.mp done
      obtain ⟨hashVector, -, done⟩ := bind_eq_ok.mp done
      obtain ⟨keyVector, -, same⟩ := bind_eq_ok.mp done
      cases same
      rw [announcedAs]
      simp only [List.length_append, length_bytesU32, length_bytesValue]
      rfl
  | map =>
      obtain ⟨map, -, done⟩ := bind_eq_ok.mp done
      obtain ⟨hashVector, -, done⟩ := bind_eq_ok.mp done
      obtain ⟨keyVector, -, done⟩ := bind_eq_ok.mp done
      obtain ⟨valueVector, -, same⟩ := bind_eq_ok.mp done
      cases same
      rw [announcedAs]
      simp only [List.length_append, length_bytesU32, length_bytesValue]
      rfl

end Pointless
