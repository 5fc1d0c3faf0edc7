import Pointless.CreateInvariant

/-!
# A created bitvector reads back

`pointless_create_bitvector_` settles on an encoding by scanning the bits it is given.
Whatever it settles on decodes to these bits, and so does the value behind the handle it
answers, in any state that the create API comes to.
-/

namespace Pointless

open ByteMemory ExceptRules

/-- The memory `v` holds the string `bits`; what stands behind it is arbitrary. -/
def StoresBits (v : List UInt8) (bits : List Bool) : Prop :=
  iceil bits.length 8 ≤ v.length ∧ bitsOf v bits.length = bits

/-- `pointless_bitvector_n_bits` and `pointless_bitvector_is_set` give back the string. -/
structure Decodes (t : ValueType) (data : UInt32) (buffer : Ptr) (bits : List Bool) : Prop where
  nBits : ∃ n, bitvectorNBits t data buffer = .ok n ∧ n.toNat = bits.length
  isSet : ∀ (i : Nat) (less : i < bits.length), bitvectorIsSet t data buffer i = .ok bits[i]

theorem ShowsBits.decodes {t : ValueType} {data : UInt32} {buffer : Ptr} {bits : List Bool}
    (shows : ShowsBits t data buffer bits) (short : bits.length < 2 ^ 32) :
    Decodes t data buffer bits :=
  ⟨⟨_, shows.nBits, Nat.mod_eq_of_lt short⟩, shows.isSet⟩

/-- The encoding that the scans settle on decodes to the string: an inline value, or a buffer
for the heap. -/
def EncodingDecodes (v : List UInt8) (bits : List Bool) : Prop :=
  ∃ compressed, compressBitvector v (UInt32.ofNat bits.length) = .ok compressed ∧
    match compressed with
    | some (t, data) => t ≠ .bitvector ∧ Decodes t data none bits
    | none => ∃ tail, slice v 0 (iceil bits.length 8) = some tail ∧
        ∀ data, Decodes .bitvector data
          (some (bytesU32 (UInt32.ofNat bits.length) ++ tail)) bits

/-- The value behind a handle decodes to the string. -/
def HandleDecodes (c : Create) (handle : UInt32) (bits : List Bool) : Prop :=
  ∃ value buffer, cvValueAt c handle = .ok value ∧ createBitvectorPtr c value = .ok buffer ∧
    Decodes value.type value.data buffer bits

/-- The states that the create API comes to, while the values have 32-bit handles. A step
that `JudyHSIns` is refused its memory in, and needs it, leads to no state. -/
inductive CreateReached (version : UInt32) : Create → Prop
  | begin : CreateReached version (createBegin version)
  | step {c c' answer} {step : CreateStep} (reached : CreateReached version c)
      (fits : step.Fits c) (valid : step.Valid c) (done : step.run c = .ok (answer, c')) :
      CreateReached version c'

theorem CreateReached.wellFormed {version : UInt32} {c : Create}
    (reached : CreateReached version c) : WellFormed c := by
  induction reached with
  | begin => exact wellFormed_begin version
  | @step c _ _ _ _ fits valid done ih =>
      have nothing : HandlesHold c [] := fun _ _ mem => nomatch mem
      obtain ⟨answer, c', done', wf, -⟩ := step_keeps ih nothing fits valid
      cases done.symm.trans done'
      exact wf

/-! ## The encoding -/

section Encoding

variable {v : List UInt8} {bits : List Bool} (short : bits.length < 2 ^ 32)
  (stored : StoresBits v bits)
include short stored

theorem compressBitvector_stored :
    ∃ compressed, compressBitvector v (UInt32.ofNat bits.length) = .ok compressed ∧
      ∀ t data, compressed = some (t, data) →
        IsInlineBits t ∧ ShowsBits t data none bits := by
  have count : (UInt32.ofNat bits.length).toNat = bits.length := Nat.mod_eq_of_lt short
  have room : iceil (UInt32.ofNat bits.length).toNat 8 ≤ v.length := by
    rw [count]
    exact stored.1
  have post := compressBitvector_post room
  rw [count, stored.2] at post
  cases compressed : compressBitvector v (UInt32.ofNat bits.length) with
  | error e =>
      rw [compressed] at post
      exact post.elim
  | ok result =>
      rw [compressed] at post
      exact ⟨result, rfl, post⟩

theorem showsBits_stored {tail : List UInt8} (copied : slice v 0 (iceil bits.length 8) = some tail)
    (data : UInt32) :
    ShowsBits .bitvector data (some (bytesU32 (UInt32.ofNat bits.length) ++ tail)) bits := by
  have count : (UInt32.ofNat bits.length).toNat = bits.length := Nat.mod_eq_of_lt short
  rw [← count] at copied
  have shows := @showsBits_heap v (UInt32.ofNat bits.length) data tail copied
  rw [count, stored.2] at shows
  exact shows

theorem encodingDecodes : EncodingDecodes v bits := by
  obtain ⟨compressed, chosen, inline⟩ := compressBitvector_stored short stored
  refine ⟨compressed, chosen, ?_⟩
  cases compressed with
  | some packed =>
      obtain ⟨isInline, shows⟩ := inline packed.1 packed.2 rfl
      refine ⟨?_, shows.decodes short⟩
      rcases isInline with same | same | same | same | same <;> simp [same]
  | none =>
      have copied := slice_eq_some (show 0 + iceil bits.length 8 ≤ v.length by
        have := stored.1
        omega)
      exact ⟨_, copied, fun data => (showsBits_stored short stored copied data).decodes short⟩

/-- The call goes through, and what it answers denotes the string. -/
theorem createBitvector_denotes {c : Create} (wf : WellFormed c) (room : c.values.length < 2 ^ 32)
    (normalize : Bool) :
    ∃ handle c', createBitvector_ c v (UInt32.ofNat bits.length) normalize = .ok (handle, c') ∧
      (handle ≠ createValueFail → Denotes c' handle (.bits bits)) := by
  obtain ⟨compressed, chosen, inline⟩ := compressBitvector_stored short stored
  rw [createBitvector_, chosen, ok_bind]
  cases compressed with
  | some packed =>
      obtain ⟨isInline, shows⟩ := inline packed.1 packed.2 rfl
      have creates := creates_inlineBits wf room isInline shows
      exact ⟨_, _, rfl, creates.denotes⟩
  | none =>
      have count : (UInt32.ofNat bits.length).toNat = bits.length := Nat.mod_eq_of_lt short
      have copied := slice_eq_some (show 0 + iceil bits.length 8 ≤ v.length by
        have := stored.1
        omega)
      have creates := creates_bits wf normalize (showsBits_stored short stored copied)
        fun _ => room
      rw [count]
      simp only [copied]
      exact ⟨_, _, rfl, creates.denotes⟩

end Encoding

/-! ## The call -/

/-- Where the insert into the Judy map is refused and needed, the call does not return. -/
theorem createBitvector_judy {m : Memory} {c : Create} {v : List UInt8} {nBits : UInt32}
    {normalize : Bool} {result : UInt32 × Create}
    (done : m.createBitvector_ c v nBits normalize = .ok result) :
    Memory.createBitvector_ { m with judy := true } c v nBits normalize = .ok result := by
  rw [Memory.createBitvector_] at done ⊢
  obtain ⟨compressed, chosen, done⟩ := bind_eq_ok.mp done
  rw [chosen, ok_bind]
  cases compressed with
  | some packed => exact done
  | none =>
      dsimp only at done ⊢
      split at done
      case h_1 => cases done
      case h_2 bits copied =>
        rw [Memory.createBitvectorHeap] at done ⊢
        split at done
        case isFalse refused =>
          rw [if_neg refused]
          exact done
        case isTrue granted =>
          rw [if_pos granted]
          split at done
          case h_1 => exact done
          case h_2 =>
            cases judy : m.judy with
            | true =>
                rw [judy] at done
                exact done
            | false =>
                rw [judy] at done
                revert done
                cases m.grants 1 <;> cases m.grants 2 <;> cases normalize <;> simp [fault]

theorem handleDecodes_of_denotes {c : Create} {handle : UInt32} {bits : List Bool}
    (short : bits.length < 2 ^ 32) (denotes : Denotes c handle (.bits bits)) :
    HandleDecodes c handle bits := by
  obtain ⟨value, at_h, -, buffer, ptr, shows⟩ := denotes
  exact ⟨value, buffer, itemAt_eq_ok.mpr at_h, ptr, shows.decodes short⟩

/-- A bitvector that is created from a string decodes to the string: as the encoding that is
settled on, and behind the handle that is answered, memory or not. -/
structure BitvectorReadsBack (v : List UInt8) (bits : List Bool) (normalize : Bool) : Prop where
  encoding : EncodingDecodes v bits
  created : ∀ version c, CreateReached version c → c.values.length < 2 ^ 32 →
    ∃ handle c', createBitvector_ c v (UInt32.ofNat bits.length) normalize = .ok (handle, c') ∧
      (handle ≠ createValueFail → HandleDecodes c' handle bits)
  refused : ∀ version c (m : Memory) handle c', CreateReached version c →
    c.values.length < 2 ^ 32 →
    m.createBitvector_ c v (UInt32.ofNat bits.length) normalize = .ok (handle, c') →
    handle ≠ createValueFail → HandleDecodes c' handle bits

theorem bitvectorReadsBack {v : List UInt8} {bits : List Bool} (short : bits.length < 2 ^ 32)
    (stored : StoresBits v bits) (normalize : Bool) : BitvectorReadsBack v bits normalize := by
  refine ⟨encodingDecodes short stored, ?_, ?_⟩
  · intro version c reached room
    obtain ⟨handle, c', done, denotes⟩ :=
      createBitvector_denotes short stored reached.wellFormed room normalize
    exact ⟨handle, c', done, fun isHandle => handleDecodes_of_denotes short (denotes isHandle)⟩
  · intro version c m handle c' reached room done isHandle
    obtain ⟨handle', c'', granted, denotes⟩ :=
      createBitvector_denotes short stored reached.wellFormed room normalize
    have outcome := @Memory.createBitvector_cases { m with judy := true } c rfl v
      (UInt32.ofNat bits.length) normalize
    rw [createBitvector_judy done] at outcome
    rcases outcome with same | ⟨left, failed, -⟩
    · cases same.trans granted
      exact handleDecodes_of_denotes short (denotes isHandle)
    · cases failed
      exact absurd rfl isHandle

theorem bitvectorReadsBack_three : BitvectorReadsBack [0xfd] [true, false, true] true :=
  bitvectorReadsBack (by decide) ⟨by decide, by decide⟩ true

end Pointless
