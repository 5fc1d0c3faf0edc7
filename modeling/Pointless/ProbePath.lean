import Pointless.HashTable
import Pointless.Lib.FullPeriod
import Pointless.Lib.OpenAddressing

/-!
# Probe paths

The number of buckets is a power of two above the number of items, and the
probe path of every hash covers all of the buckets: `perturb` is 0 from the
seventh probe on, and from there the path follows `5 * i + 1`.
-/

namespace Pointless

/-! ## The number of buckets -/

theorem toNat_two_pow {k : Nat} (bound : k ≤ 31) : (UInt32.ofNat (2 ^ k)).toNat = 2 ^ k := by
  rw [UInt32.toNat_ofNat']
  apply Nat.mod_eq_of_lt
  exact lt_of_le_of_lt (Nat.pow_le_pow_right (by decide) bound) (by decide)

theorem two_pow_shiftLeft {k : Nat} (bound : k < 31) :
    UInt32.ofNat (2 ^ k) <<< 1 = UInt32.ofNat (2 ^ (k + 1)) := by
  apply UInt32.toNat_inj.mp
  have below : 2 ^ (k + 1) < 2 ^ 32 := Nat.pow_lt_pow_right (by decide) (by omega)
  rw [UInt32.toNat_shiftLeft, toNat_two_pow (by omega), toNat_two_pow (by omega)]
  change 2 ^ k <<< 1 % 2 ^ 32 = 2 ^ (k + 1)
  rw [Nat.shiftLeft_eq, pow_one, ← pow_succ, Nat.mod_eq_of_lt below]

/-- The loop stops at the first power of two from `2 ^ k` on that is not below `n`. -/
theorem nextPowerOf2Loop_eq {n : UInt32} (small : n.toNat ≤ 2 ^ 31) {rounds k : Nat}
    (bound : k ≤ 31) (enough : 31 < rounds + k) (start : k = 0 ∨ 2 ^ (k - 1) < n.toNat) :
    ∃ m ≤ 31, nextPowerOf2Loop n rounds (UInt32.ofNat (2 ^ k)) = .ok (UInt32.ofNat (2 ^ m)) ∧
      n.toNat ≤ 2 ^ m ∧ (m = 0 ∨ 2 ^ (m - 1) < n.toNat) := by
  induction rounds generalizing k with
  | zero => omega
  | succ rounds ih =>
      rw [nextPowerOf2Loop]
      split
      case isTrue less =>
        rw [UInt32.lt_iff_toNat_lt, toNat_two_pow bound] at less
        have next : k < 31 := by
          by_contra last
          have top : k = 31 := by omega
          rw [top] at less
          omega
        rw [two_pow_shiftLeft next]
        exact ih (by omega) (by omega) (Or.inr (by simpa using less))
      case isFalse done =>
        rw [UInt32.lt_iff_toNat_lt, toNat_two_pow bound] at done
        exact ⟨k, bound, rfl, by omega, start⟩

/-- From 0 on the loop makes no progress, whatever the number of rounds. -/
theorem nextPowerOf2Loop_stuck {n : UInt32} (positive : 0 < n) (rounds : Nat) :
    nextPowerOf2Loop n rounds 0 = fault .diverges := by
  induction rounds with
  | zero => rfl
  | succ rounds ih =>
      have zero : (0 : UInt32) <<< 1 = 0 := by decide
      rw [nextPowerOf2Loop, if_pos positive, zero, ih]

theorem toNat_half_more {n : UInt32} (bound : n.toNat + n.toNat / 2 ≤ 2 ^ 31) :
    (n + n / 2).toNat = n.toNat + n.toNat / 2 := by
  rw [UInt32.toNat_add, UInt32.toNat_div]
  change (n.toNat + n.toNat / 2) % 2 ^ 32 = _
  omega

/-- A table gets a power of two of buckets, more than it has items. -/
theorem hashComputeNBuckets_eq {n : UInt32} (bound : n.toNat + n.toNat / 2 ≤ 2 ^ 31) :
    ∃ k ≤ 31, hashComputeNBuckets n = .ok (UInt32.ofNat (2 ^ k)) ∧ n.toNat < 2 ^ k := by
  unfold hashComputeNBuckets
  split
  case isTrue one =>
    refine ⟨1, by decide, rfl, ?_⟩
    rw [one]
    decide
  case isFalse notOne =>
    have size := toNat_half_more bound
    have small : (n + n / 2).toNat ≤ 2 ^ 31 := by rwa [size]
    have enough : 31 < 33 + 0 := by decide
    obtain ⟨k, kBound, result, above, -⟩ :=
      nextPowerOf2Loop_eq small (Nat.zero_le 31) enough (Or.inl rfl)
    refine ⟨k, kBound, result, ?_⟩
    have notOneNat : n.toNat ≠ 1 := fun one => notOne (UInt32.toNat_inj.mp one)
    have positive := Nat.two_pow_pos k
    omega

/-- Beyond `2 ^ 31` no power of two is reached, whatever the number of rounds. -/
theorem nextPowerOf2Loop_diverges {n : UInt32} (large : 2 ^ 31 < n.toNat) (rounds : Nat) {k : Nat}
    (bound : k ≤ 32) : nextPowerOf2Loop n rounds (UInt32.ofNat (2 ^ k)) = fault .diverges := by
  induction rounds generalizing k with
  | zero => rfl
  | succ rounds ih =>
      rcases Nat.lt_or_eq_of_le bound with less | last
      · have below : UInt32.ofNat (2 ^ k) < n := by
          rw [UInt32.lt_iff_toNat_lt, toNat_two_pow (by omega)]
          exact lt_of_le_of_lt (Nat.pow_le_pow_right (by decide) (by omega)) large
        rw [nextPowerOf2Loop, if_pos below]
        rcases Nat.lt_or_eq_of_le (Nat.le_of_lt_succ less) with more | top
        · rw [two_pow_shiftLeft more]
          exact ih (by omega)
        · have wrapped : UInt32.ofNat (2 ^ k) <<< 1 = UInt32.ofNat (2 ^ 32) := by
            rw [top]
            decide
          rw [wrapped]
          exact ih (Nat.le_refl 32)
      · have zero : UInt32.ofNat (2 ^ k) = 0 := by
          rw [last]
          decide
        rw [zero]
        exact nextPowerOf2Loop_stuck
          (by rw [UInt32.lt_iff_toNat_lt]; exact lt_trans (by decide) large) _

theorem nextPowerOf2_diverges {n : UInt32} (large : 2 ^ 31 < n.toNat) :
    nextPowerOf2 n = fault .diverges := nextPowerOf2Loop_diverges large 33 (Nat.zero_le 32)

/-- `pointless_hash_compute_n_buckets`, with `rounds` for its loop. -/
def hashComputeNBucketsIn (rounds : Nat) (nItems : UInt32) : Res UInt32 :=
  if nItems = 1 then .ok 2 else nextPowerOf2Loop (nItems + nItems / 2) rounds 1

/-- The number of buckets is computed, and where it has to leave room for an empty bucket
it does. -/
structure ComputesNBuckets (n : UInt32) : Prop where
  terminates : ∃ rounds m, hashComputeNBucketsIn rounds n = .ok m
  room : n.toNat + n.toNat / 2 ≤ 2 ^ 31 → ∃ m k, hashComputeNBuckets n = .ok m ∧
    m.toNat = 2 ^ k ∧ n < m ∧ (n = 0 → m = 1)

/-- The sum of an item count and its half is past the last power of two, but does not
wrap. -/
def NBucketsOverrun (n : UInt32) : Prop :=
  2 ^ 31 < n.toNat + n.toNat / 2 ∧ n.toNat + n.toNat / 2 < 2 ^ 32

theorem toNat_add_half (n : UInt32) :
    (n + n / 2).toNat = (n.toNat + n.toNat / 2) % 2 ^ 32 := by
  rw [UInt32.toNat_add, UInt32.toNat_div]
  rfl

theorem hashComputeNBucketsIn_overrun {n : UInt32} (overrun : NBucketsOverrun n) (rounds : Nat) :
    hashComputeNBucketsIn rounds n = fault .diverges := by
  obtain ⟨past, fits⟩ := overrun
  have large : 2 ^ 31 < (n + n / 2).toNat := by
    rw [toNat_add_half, Nat.mod_eq_of_lt fits]
    exact past
  have notOne : n ≠ 1 := by
    rintro rfl
    exact absurd past (by decide)
  rw [hashComputeNBucketsIn, if_neg notOne]
  exact nextPowerOf2Loop_diverges large rounds (Nat.zero_le 32)

/-- The loop ends for every other item count: a sum that wraps comes to less than
`2 ^ 31`. -/
theorem hashComputeNBuckets_ok {n : UInt32} (inside : ¬NBucketsOverrun n) :
    ∃ m, hashComputeNBuckets n = .ok m := by
  have few := n.toNat_lt
  rw [hashComputeNBuckets]
  split
  case isTrue => exact ⟨2, rfl⟩
  case isFalse =>
    have small : (n + n / 2).toNat ≤ 2 ^ 31 := by
      rw [toNat_add_half]
      by_contra large
      exact inside ⟨by omega, by omega⟩
    have enough : 31 < 33 + 0 := by decide
    obtain ⟨k, -, result, -, -⟩ :=
      nextPowerOf2Loop_eq small (Nat.zero_le 31) enough (Or.inl rfl)
    exact ⟨_, result⟩

/-- The number of buckets is computed exactly for the other item counts. -/
theorem hashComputeNBuckets_iff (n : UInt32) : ComputesNBuckets n ↔ ¬NBucketsOverrun n := by
  constructor
  · intro computes overrun
    obtain ⟨rounds, m, done⟩ := computes.terminates
    rw [hashComputeNBucketsIn_overrun overrun] at done
    cases done
  · intro inside
    refine ⟨⟨33, hashComputeNBuckets_ok inside⟩, fun bound => ?_⟩
    obtain ⟨k, kBound, result, above⟩ := hashComputeNBuckets_eq bound
    refine ⟨_, k, result, toNat_two_pow kBound, ?_, ?_⟩
    · rw [UInt32.lt_iff_toNat_lt, toNat_two_pow kBound]
      exact above
    · rintro rfl
      have zero : hashComputeNBuckets 0 = .ok 1 := by decide
      rw [zero] at result
      exact (Except.ok.inj result).symm

/-- The least item count for which the loop does not end. -/
theorem hashComputeNBuckets_overruns : ¬∀ n, ComputesNBuckets n := by
  intro computes
  obtain ⟨⟨rounds, m, done⟩, -⟩ := computes 1431655766
  have stuck : nextPowerOf2Loop 2147483649 rounds 1 = fault .diverges :=
    nextPowerOf2Loop_diverges (by decide) rounds (Nat.zero_le 32)
  cases stuck.symm.trans done

/-! ## Probe paths -/

/-- The state of the probing loops after `d` rounds. -/
def probeState (hash nBuckets : UInt32) (d : Nat) : HashIterState :=
  HashIterState.next^[d] (hashTableProbeHashInit hash nBuckets)

/-- The bucket that round `d` looks at. -/
def probePath (nBuckets hash : UInt32) (d : Nat) : Nat := (probeState hash nBuckets d).bucket.toNat

theorem probeState_succ (hash nBuckets : UInt32) (d : Nat) :
    probeState hash nBuckets (d + 1) = (probeState hash nBuckets d).next :=
  Function.iterate_succ_apply' _ _ _

@[simp] theorem probeState_zero (hash nBuckets : UInt32) :
    probeState hash nBuckets 0 = hashTableProbeHashInit hash nBuckets := rfl

theorem probeState_mask (hash nBuckets : UInt32) (d : Nat) :
    (probeState hash nBuckets d).mask = nBuckets - 1 := by
  induction d with
  | zero => rfl
  | succ d ih =>
      rw [probeState_succ]
      exact ih

theorem probeState_perturb (hash nBuckets : UInt32) (d : Nat) :
    (probeState hash nBuckets d).perturb.toNat = hash.toNat / 32 ^ d := by
  induction d with
  | zero => simp [hashTableProbeHashInit]
  | succ d ih =>
      have shift : ∀ x : UInt32, (x >>> 5).toNat = x.toNat / 32 := by
        intro x
        rw [UInt32.toNat_shiftRight]
        exact Nat.shiftRight_eq_div_pow _ _
      rw [probeState_succ]
      change ((probeState hash nBuckets d).perturb >>> 5).toNat = _
      rw [shift, ih, Nat.div_div_eq_div_mul, pow_succ]

theorem probeState_perturb_zero (hash nBuckets : UInt32) {d : Nat} (late : 7 ≤ d) :
    (probeState hash nBuckets d).perturb = 0 := by
  apply UInt32.toNat_inj.mp
  rw [probeState_perturb]
  apply Nat.div_eq_of_lt
  calc hash.toNat < 2 ^ 32 := hash.toNat_lt
    _ ≤ 32 ^ 7 := by decide
    _ ≤ 32 ^ d := Nat.pow_le_pow_right (by decide) late

theorem probeState_follows (hash nBuckets : UInt32) {k : Nat} (bound : k ≤ 32) :
    FullPeriod.Follows k fun d => (probeState hash nBuckets (7 + d)).i.toNat := by
  intro d
  have perturb := probeState_perturb_zero hash nBuckets (Nat.le_add_right 7 d)
  have step : (probeState hash nBuckets (7 + d + 1)).i
      = (probeState hash nBuckets (7 + d)).i <<< 2 + (probeState hash nBuckets (7 + d)).i + 1 := by
    rw [probeState_succ, HashIterState.next, perturb, UInt32.add_zero]
  change (probeState hash nBuckets (7 + d + 1)).i.toNat ≡ _ [MOD 2 ^ k]
  rw [step]
  have value : ∀ x : UInt32, (x <<< 2 + x + 1).toNat = (5 * x.toNat + 1) % 2 ^ 32 := by
    intro x
    have shift : (x <<< 2).toNat = x.toNat * 4 % 2 ^ 32 := by
      rw [UInt32.toNat_shiftLeft]
      exact congrArg (· % 2 ^ 32) (Nat.shiftLeft_eq _ _)
    rw [UInt32.toNat_add, UInt32.toNat_add, shift]
    change ((x.toNat * 4 % 2 ^ 32 + x.toNat) % 2 ^ 32 + 1) % 2 ^ 32 = _
    omega
  rw [value]
  exact (Nat.mod_modEq _ _).of_dvd (Nat.pow_dvd_pow 2 bound)

theorem probePath_eq_mod {k : Nat} (bound : k ≤ 31) (hash : UInt32) (d : Nat) :
    probePath (UInt32.ofNat (2 ^ k)) hash d
      = (probeState hash (UInt32.ofNat (2 ^ k)) d).i.toNat % 2 ^ k := by
  have mask : (UInt32.ofNat (2 ^ k) - 1).toNat = 2 ^ k - 1 := by
    have positive := Nat.two_pow_pos k
    rw [UInt32.toNat_sub_of_le, toNat_two_pow bound]
    · rfl
    · rw [UInt32.le_iff_toNat_le, toNat_two_pow bound]
      exact positive
  rw [probePath, HashIterState.bucket, UInt32.toNat_and, probeState_mask, mask,
    Nat.and_two_pow_sub_one_eq_mod]

theorem probePath_lt {k : Nat} (bound : k ≤ 31) (hash : UInt32) (d : Nat) :
    probePath (UInt32.ofNat (2 ^ k)) hash d < 2 ^ k := by
  rw [probePath_eq_mod bound]
  exact Nat.mod_lt _ (Nat.two_pow_pos k)

/-- Seven probes and one period reach every bucket. -/
theorem probePath_covers {k : Nat} (bound : k ≤ 31) :
    OpenAddressing.Covers (probePath (UInt32.ofNat (2 ^ k))) (2 ^ k) (7 + 2 ^ k) := by
  intro hash b inside
  have follows := probeState_follows hash (UInt32.ofNat (2 ^ k)) (by omega : k ≤ 32)
  obtain ⟨d, less, reached⟩ := follows.visits inside
  exact ⟨7 + d, by omega, by rw [probePath_eq_mod bound, reached]⟩

end Pointless
