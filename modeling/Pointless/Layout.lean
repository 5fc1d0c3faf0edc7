import Pointless.ObjectBytes

/-!
# The positions of the objects

The offset pass writes the positions that the announced sizes give (`offset_run`),
the heap pass puts the objects where their real sizes do (`heap_run`).
-/

namespace Pointless

open ByteMemory ExceptRules Placement Ranks

variable {c : Create} {fuel : Nat} {p : Prepared}

/-! ## Rounds over the objects -/

/-- Loops that take a pool each do the same for every object. -/
theorem rounds_eq {σ : Type} {loops : List (Loop σ)} {pools : List Pool}
    {f : CreateValue → σ → Res σ}
    (each : List.Forall₂ (fun loop k => ∀ v ∈ p.values,
      loop.selects v = decide (v.heapPool = some k) ∧ (v.heapPool = some k → loop.step v = f v))
      loops pools) :
    rounds p loops
      = (pools.flatMap fun k => members CreateValue.heapPool p.values k).map fun v => (v, f v) := by
  induction each with
  | nil => rfl
  | @cons loop k loops pools first rest ih =>
      rw [rounds, List.flatMap_cons, List.flatMap_cons, List.map_append]
      refine congrArg₂ (· ++ ·) ?_ ih
      rw [members, List.filter_congr fun v mem => (first v mem).1]
      refine List.map_congr_left fun v mem => ?_
      obtain ⟨inside, pool⟩ := List.mem_filter.mp mem
      rw [(first v inside).2 (of_decide_eq_true pool)]

/-- The round of the offset pass for an object. -/
def offsetObject (p : Prepared) (v : CreateValue) (s : OffsetPass) : Res OffsetPass := do
  let size ← announced p v
  writeOffset size s

theorem offset_rounds (p : Prepared) :
    rounds p (offsetLoops p) = (heapObjects p).map fun v => (v, offsetObject p v) := by
  refine rounds_eq (.cons ?_ (.cons ?_ (.cons ?_ (.cons ?_ (.cons ?_ (.cons ?_ .nil))))))
  all_goals intro v _
  all_goals have selects := offsets_select v
  · refine ⟨selects.1, fun pool => ?_⟩
    funext s
    simp only [offsetObject, announced, pool, offsetStringUnicode, bind_assoc, pure_eq_ok, ok_bind]
  · refine ⟨selects.2.1, fun pool => ?_⟩
    funext s
    simp only [offsetObject, announced, pool, offsetPrivVector, bind_assoc, pure_eq_ok, ok_bind]
  · refine ⟨selects.2.2.1, fun pool => ?_⟩
    funext s
    simp only [offsetObject, announced, pool, offsetOutsideVector, bind_assoc, pure_eq_ok, ok_bind]
  · refine ⟨selects.2.2.2.1, fun pool => ?_⟩
    funext s
    simp only [offsetObject, announced, pool, offsetBitvector, bind_assoc, pure_eq_ok, ok_bind]
  · refine ⟨selects.2.2.2.2.1, fun pool => ?_⟩
    funext s
    simp only [offsetObject, announced, pool, pure_eq_ok, ok_bind]
  · refine ⟨selects.2.2.2.2.2, fun pool => ?_⟩
    funext s
    simp only [offsetObject, announced, pool, pure_eq_ok, ok_bind]

theorem heap_rounds (shaped : ∀ v ∈ p.values, WrittenShape v) :
    rounds p (heapLoops p) = (heapObjects p).map fun v => (v, serializeObject p v) := by
  refine rounds_eq (.cons ?_ (.cons ?_ (.cons ?_ (.cons ?_ (.cons ?_ (.cons ?_ .nil))))))
  all_goals intro v mem
  all_goals have selects := offsets_select v
  all_goals have vectors := heap_selects (shaped v mem)
  · refine ⟨selects.1, fun pool => ?_⟩
    funext sink
    simp only [serializeObject, pool]
  · refine ⟨vectors.1, fun pool => ?_⟩
    funext sink
    simp only [serializeObject, pool]
  · refine ⟨vectors.2, fun pool => ?_⟩
    funext sink
    simp only [serializeObject, pool]
  · refine ⟨selects.2.2.2.1, fun pool => ?_⟩
    funext sink
    simp only [serializeObject, pool]
  · refine ⟨selects.2.2.2.2.1, fun pool => ?_⟩
    funext sink
    simp only [serializeObject, pool]
  · refine ⟨selects.2.2.2.2.2, fun pool => ?_⟩
    funext sink
    simp only [serializeObject, pool]

/-! ## The offset pass -/

theorem alignPad_eq (n : Nat) : n + alignPad n = alignUp 4 n := rfl

/-- The next offset, as long as it fits. -/
theorem alignNext464_toNat {off : UInt64} {size : Nat}
    (fits : alignUp 4 (off.toNat + size) < 2 ^ 64) :
    (alignNext464 (off + UInt64.ofNat size)).toNat = alignUp 4 (off.toNat + size) := by
  have up := le_alignUp 4 (off.toNat + size)
  have here : (off + UInt64.ofNat size).toNat = off.toNat + size := by
    rw [UInt64.toNat_add, UInt64.toNat_ofNat', Nat.add_mod_mod, Nat.mod_eq_of_lt (by omega)]
  rw [alignNext464, UInt64.toNat_add, here, UInt64.toNat_ofNat', Nat.add_mod_mod, alignPad_eq,
    Nat.mod_eq_of_lt fits]

theorem finish_le (start size : Nat) (rest : List Nat) :
    alignUp 4 (start + size) ≤ finish 4 start (size :: rest) := le_finish 4 _ rest

theorem writeOffset_run {sizes : List Nat} {s s' : OffsetPass}
    (fits : finish 4 s.currentOffset64.toNat sizes < 2 ^ 64)
    (done : sizes.foldlM (fun s size => writeOffset size s) s = .ok s') :
    s'.sink = s.sink ++ bytesOffsets (places 4 s.currentOffset64.toNat sizes) := by
  induction sizes generalizing s with
  | nil =>
      cases done
      exact (List.append_nil _).symm
  | cons size rest ih =>
      rw [List.foldlM_cons] at done
      obtain ⟨s₁, step, later⟩ := bind_eq_ok.mp done
      obtain ⟨sink, written, same⟩ := bind_eq_ok.mp step
      cases same
      have next := alignNext464_toNat (Nat.lt_of_le_of_lt (finish_le _ _ rest) fits)
      have run := ih (by rw [next]; exact fits) later
      rw [next] at run
      rw [run, (dynarrayWrite_eq_ok.mp written).2, List.append_assoc, places, bytesOffsets_cons]
      rfl

/-! ## The heap pass -/

/-- The objects on the heap, each with its bytes. -/
def HasBytes (p : Prepared) (objects : List CreateValue) (bytes : List (List UInt8)) : Prop :=
  List.Forall₂ (fun v b => objectBytes p v = .ok b) objects bytes

/-- The sizes of the objects. -/
abbrev sizes (bytes : List (List UInt8)) : List Nat := bytes.map List.length

theorem length_padded (sink b : List UInt8) :
    (padded sink b).length = alignUp 4 (sink.length + b.length) := by
  rw [padded, List.length_append, List.length_append, List.length_replicate, alignPad_eq]

/-- The lengths of the sink when the steps begin. -/
def positions : List (List UInt8 → Res (List UInt8)) → List UInt8 → Res (List Nat)
  | [], _ => .ok []
  | step :: rest, sink => do
      let sink' ← step sink
      let later ← positions rest sink'
      pure (sink.length :: later)

theorem heap_run {objects : List CreateValue} (written : ∀ v ∈ objects, v.heapPool ≠ none)
    {sink sink' : List UInt8}
    (done : objects.foldlM (fun sink v => serializeObject p v sink) sink = .ok sink') :
    ∃ bytes, HasBytes p objects bytes ∧
      sink' = bytes.foldl padded sink ∧
      sink'.length = finish 4 sink.length (sizes bytes) ∧
      (objects ≠ [] → sink'.length < 2 ^ 64) ∧
      positions (objects.map (serializeObject p)) sink
        = .ok (places 4 sink.length (sizes bytes)) := by
  induction objects generalizing sink with
  | nil =>
      cases done
      exact ⟨[], .nil, rfl, rfl, fun none_ => absurd rfl none_, rfl⟩
  | cons v rest ih =>
      rw [List.foldlM_cons] at done
      obtain ⟨sink₁, step, later⟩ := bind_eq_ok.mp done
      obtain ⟨k, pool⟩ := Option.ne_none_iff_exists'.mp (written v List.mem_cons_self)
      obtain ⟨b, found, same, fits⟩ := serializeObject_emits pool sink sink₁ step
      obtain ⟨bs, hasBytes, appended, length, bound, run⟩ :=
        ih (fun w mem => written w (List.mem_cons_of_mem v mem)) later
      subst same
      rw [length_padded] at length run
      refine ⟨b :: bs, .cons found hasBytes, appended, length, fun _ => ?_, ?_⟩
      · cases rest with
        | nil =>
            cases later
            exact fits
        | cons w rest => exact bound nofun
      · rw [List.map_cons, positions, step, ok_bind, run]
        rfl

/-! ## Both passes -/

/-- The size that the offset pass takes an object of `size` bytes to have. -/
def announcedSize (v : CreateValue) (size : Nat) : Nat :=
  match v.heapPool with
  | some k => announcedAs k size
  | none => size

/-- The sizes that the offset pass takes the objects to have. -/
def announcedSizes (objects : List CreateValue) (bytes : List (List UInt8)) : List Nat :=
  List.zipWith (fun v b => announcedSize v b.length) objects bytes

theorem announcedSizes_short {objects : List CreateValue} {bytes : List (List UInt8)}
    (hasBytes : HasBytes p objects bytes) :
    List.Forall₂ (ShortOf 4) (announcedSizes objects bytes) (sizes bytes) := by
  induction hasBytes with
  | nil => exact .nil
  | @cons v b objects bytes _ rest ih =>
      refine .cons ?_ ih
      change ShortOf 4 (announcedSize v b.length) b.length
      rw [announcedSize]
      split
      · exact announcedAs_short _ _
      · exact ⟨Nat.le_refl _, by rw [Nat.sub_self]; exact Nat.dvd_zero 4⟩

theorem offset_run {objects : List CreateValue} {bytes : List (List UInt8)}
    (shaped : ∀ v ∈ objects, WrittenShape v ∧ v.heapPool ≠ none)
    (hasBytes : HasBytes p objects bytes) (s : OffsetPass) :
    objects.foldlM (fun s v => offsetObject p v s) s
      = (announcedSizes objects bytes).foldlM (fun s size => writeOffset size s) s := by
  induction hasBytes generalizing s with
  | nil => rfl
  | @cons v b objects bytes first rest ih =>
      obtain ⟨shape, written⟩ := shaped v List.mem_cons_self
      obtain ⟨k, pool⟩ := Option.ne_none_iff_exists'.mp written
      have size : announcedSize v b.length = announcedAs k b.length := by
        rw [announcedSize, pool]
      rw [List.foldlM_cons, offsetObject, announced_size shape pool first, ok_bind, ← size]
      refine congrArg (writeOffset (announcedSize v b.length) s >>= ·) (funext fun s' => ?_)
      exact ih (fun w mem => shaped w (List.mem_cons_of_mem v mem)) s'

theorem mem_heapObjects {v : CreateValue} (mem : v ∈ heapObjects p) :
    v ∈ p.values ∧ v.heapPool ≠ none := by
  obtain ⟨k, -, inside⟩ := List.mem_flatMap.mp mem
  obtain ⟨among, pool⟩ := mem_members.mp inside
  refine ⟨among, ?_⟩
  rw [pool]
  exact nofun

/-- Where the heap starts. -/
def heapStart (p : Prepared) : Nat := 32 + 8 * (heapObjects p).length

theorem four_dvd_heapStart (p : Prepared) : 4 ∣ heapStart p := by
  rw [heapStart]
  omega

theorem length_announcedSizes {objects : List CreateValue} {bytes : List (List UInt8)}
    (hasBytes : HasBytes p objects bytes) :
    (announcedSizes objects bytes).length = objects.length := by
  rw [announcedSizes, List.length_zipWith, hasBytes.length_eq, Nat.min_self]

/-- An object more at the end of a sink that is a multiple of four long. -/
theorem foldl_padded (bytes : List (List UInt8)) {before : List UInt8} (aligned : 4 ∣ before.length)
    (sink : List UInt8) : bytes.foldl padded (before ++ sink) = before ++ bytes.foldl padded sink := by
  induction bytes generalizing sink with
  | nil => rfl
  | cons b rest ih =>
      have next : padded (before ++ sink) b = before ++ padded sink b := by
        have pad : alignPad ((before ++ sink).length + b.length) = alignPad (sink.length + b.length) := by
          obtain ⟨k, multiple⟩ := aligned
          rw [List.length_append, multiple, Nat.add_assoc, alignPad, alignPad, Nat.mul_add_mod]
        rw [padded, padded, pad]
        simp only [List.append_assoc]
      rw [List.foldl_cons, next]
      exact ih _

/-- The values that the heap pass writes, each with the length of the sink when its round
begins. -/
def heapLog (p : Prepared) : Res (List (CreateValue × Nat)) := do
  let header ← outputHeader p
  let sink ← dynarrayWrite [] (bytesHeader header)
  let s ← writeOffsets p ⟨sink, 0⟩
  let starts ← positions ((rounds p (heapLoops p)).map Prod.snd) s.sink
  pure (((rounds p (heapLoops p)).map Prod.fst).zip starts)

/-- What a file is made of. -/
structure Written (p : Prepared) (file : List UInt8) (header : Header)
    (bytes : List (List UInt8)) : Prop where
  isHeader : outputHeader p = .ok header
  hasBytes : HasBytes p (heapObjects p) bytes
  whole : file = bytesHeader header
    ++ bytesOffsets (places 4 0 (announcedSizes (heapObjects p) bytes)) ++ bytes.foldl padded []
  narrow : ∀ off ∈ places 4 0 (announcedSizes (heapObjects p) bytes), off < 2 ^ 64
  log : heapLog p = .ok ((heapObjects p).zip ((places 4 0 (sizes bytes)).map (heapStart p + ·)))

theorem le_finish_of_mem {sizes : List Nat} {start off : Nat} (mem : off ∈ places 4 start sizes) :
    off ≤ finish 4 start sizes := by
  induction sizes generalizing start with
  | nil => cases mem
  | cons size rest ih =>
      rcases List.mem_cons.mp mem with rfl | later
      · exact le_finish 4 off (size :: rest)
      · exact ih later

theorem writeOut_written (shaped : ∀ v ∈ p.values, WrittenShape v) {file : List UInt8}
    (done : writeOut p = .ok file) : ∃ header bytes, Written p file header bytes := by
  rw [writeOut] at done
  obtain ⟨header, isHeader, done⟩ := bind_eq_ok.mp done
  obtain ⟨sink, first, done⟩ := bind_eq_ok.mp done
  obtain ⟨s, offsets, heap⟩ := bind_eq_ok.mp done
  have start : sink = bytesHeader header := (dynarrayWrite_eq_ok.mp first).2
  have offsets' := offsets
  subst start
  have objects (v : CreateValue) (mem : v ∈ heapObjects p) : WrittenShape v ∧ v.heapPool ≠ none := by
    obtain ⟨among, written⟩ := mem_heapObjects mem
    exact ⟨shaped v among, written⟩
  rw [writeOffsets_rounds, offset_rounds, List.foldlM_map] at offsets
  rw [writeHeap_rounds, heap_rounds shaped, List.foldlM_map] at heap
  obtain ⟨bytes, hasBytes, same, length, bound, run⟩ :=
    heap_run (fun v mem => (objects v mem).2) heap
  have run' := offset_run objects hasBytes ⟨bytesHeader header, 0⟩
  have short : List.Forall₂ (· ≤ ·) (announcedSizes (heapObjects p) bytes) (sizes bytes) :=
    (announcedSizes_short hasBytes).imp fun _ _ short => short.1
  have fits : finish 4 0 (announcedSizes (heapObjects p) bytes) < 2 ^ 64 := by
    cases none_ : heapObjects p with
    | nil => exact Nat.two_pow_pos 64
    | cons v rest =>
        rw [← none_]
        have mono := finish_mono (by decide : 0 < 4) (Nat.zero_le s.sink.length) short
        have small := bound (by rw [none_]; nofun)
        omega
  have table := writeOffset_run (s := ⟨bytesHeader header, 0⟩) fits (run'.symm.trans offsets)
  have size : s.sink.length = heapStart p := by
    rw [table, List.length_append, length_bytesHeader, length_bytesOffsets, length_places,
      length_announcedSizes hasBytes, heapStart]
  refine ⟨header, bytes, isHeader, hasBytes, ?_, fun off mem => ?_, ?_⟩
  · have split : bytes.foldl padded (s.sink ++ []) = s.sink ++ bytes.foldl padded [] :=
      foldl_padded bytes (by rw [size]; exact four_dvd_heapStart p) []
    rw [List.append_nil] at split
    rw [same, split, table]
    rfl
  · exact Nat.lt_of_le_of_lt (le_finish_of_mem mem) fits
  · have shift := places_shift (four_dvd_heapStart p) 0 (sizes bytes)
    have steps : (rounds p (heapLoops p)).map Prod.snd = (heapObjects p).map (serializeObject p) := by
      rw [heap_rounds shaped, List.map_map]
      rfl
    have values : (rounds p (heapLoops p)).map Prod.fst = heapObjects p := by
      rw [heap_rounds shaped, List.map_map]
      exact List.map_id _
    rw [heapLog, isHeader, ok_bind, first, ok_bind, offsets', ok_bind, steps, run, ok_bind, values,
      ← shift, Nat.add_zero, ← size]
    rfl

end Pointless
