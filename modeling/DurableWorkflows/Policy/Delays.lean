import DurableWorkflows.Policy
import Mathlib.Algebra.Order.Ring.Abs
import Mathlib.Tactic.SplitIfs

/-!
# Delays of a retry policy

The delay of an attempt is the base of the backoff with a jitter applied to it. The base
doubles with every attempt up to its maximum, and the jitter stays within its percentage of
the base.

## Main definitions

- `BackoffPolicy.baseDelay`: the delay without jitter

## Main results

- `RetryPolicy.delayForAttempt_eq`: what the source computes, without its saturations
- `RetryPolicy.applyJitter_distance`: the jitter stays within its percentage
-/

namespace DurableWorkflows

namespace BackoffPolicy

/-- The delay of an attempt without jitter, in seconds. -/
def baseDelay : BackoffPolicy → ℕ → ℕ
  | .fixed delaySecs, _ => delaySecs
  | .exponential initialSecs maxSecs _, attempt => min (initialSecs * 2 ^ (attempt - 1)) maxSecs

/-- The width of the jitter: a fixed delay has none. -/
def jitterPercent : BackoffPolicy → ℕ
  | .fixed _ => 0
  | .exponential _ _ jitterPercent => jitterPercent

/-- The delay grows with the attempt, up to its maximum. -/
theorem baseDelay_mono (backoff : BackoffPolicy) : Monotone backoff.baseDelay := by
  intro attempt attempt' hle
  cases backoff with
  | fixed => exact le_rfl
  | exponential initialSecs maxSecs =>
    have hpow : 2 ^ (attempt - 1) ≤ 2 ^ (attempt' - 1) :=
      Nat.pow_le_pow_right (by decide) (Nat.sub_le_sub_right hle 1)
    exact min_le_min_right maxSecs (Nat.mul_le_mul_left initialSecs hpow)

end BackoffPolicy

namespace RetryPolicy

/-- The bounds a policy carries. -/
theorem bounds (policy : RetryPolicy) :
    (∀ attempt, policy.backoff.baseDelay attempt ≤ maxRetryDelaySecs) ∧
      policy.backoff.jitterPercent ≤ 100 := by
  obtain ⟨backoff, hbounds⟩ := policy
  cases backoff with
  | fixed delaySecs =>
    simp only [BoundViolation.check] at hbounds
    split_ifs at hbounds with hzero hlong
    exact ⟨fun _ => not_lt.mp hlong, Nat.zero_le _⟩
  | exponential initialSecs maxSecs jitterPercent =>
    simp only [BoundViolation.check] at hbounds
    split_ifs at hbounds with hzero hbelow hlong hjitter
    exact ⟨fun _ => (min_le_right _ _).trans (not_lt.mp hlong), not_lt.mp hjitter⟩

/-- The distance of a jittered delay from its base. -/
theorem applyJitter_distance {base jitterPercent percentile : ℕ} (hbase : 2 * base ≤ u64Max)
    (hjitter : jitterPercent ≤ 100) (hpercentile : percentile ≤ 100) :
    |(applyJitter base jitterPercent percentile : ℤ) - base| * 100 ≤ base * jitterPercent := by
  set spread : ℤ := ((base * jitterPercent / 100 : ℕ) : ℤ) with hspread
  set delta : ℤ := (spread * (percentile * 2 - 100)).tdiv 100 with hdelta
  have hspread_nonneg : 0 ≤ spread := Int.natCast_nonneg _
  have hspread_le : spread * 100 ≤ base * jitterPercent := by
    have h := Nat.div_mul_le_self (base * jitterPercent) 100
    rw [hspread]
    exact_mod_cast h
  have hcentered : |(percentile : ℤ) * 2 - 100| ≤ 100 := by
    rw [abs_le]
    omega
  -- truncation is toward zero, so it only shrinks the jitter
  have hdelta_le : |delta| ≤ spread := by
    have hprod : |spread * ((percentile : ℤ) * 2 - 100)| ≤ spread * 100 := by
      rw [abs_mul, abs_of_nonneg hspread_nonneg]
      exact mul_le_mul_of_nonneg_left hcentered hspread_nonneg
    have habs : |delta| = |spread * ((percentile : ℤ) * 2 - 100)| / 100 := by
      rw [hdelta, Int.abs_eq_natAbs, Int.natAbs_tdiv, Int.abs_eq_natAbs]
      rfl
    omega
  have hbase_le : spread ≤ base := by
    have : (base : ℤ) * jitterPercent ≤ base * 100 :=
      mul_le_mul_of_nonneg_left (by exact_mod_cast hjitter) (Int.natCast_nonneg _)
    omega
  have hvalue : (applyJitter base jitterPercent percentile : ℤ) = base + delta := by
    have hle : (base : ℤ) + delta ≤ u64Max := by
      have := (abs_le.mp hdelta_le).2
      omega
    have hnonneg : 0 ≤ (base : ℤ) + delta := by
      have := (abs_le.mp hdelta_le).1
      omega
    show (((max 0 (min (u64Max : ℤ) (base + delta))).toNat : ℕ) : ℤ) = base + delta
    rw [min_eq_right hle, max_eq_right hnonneg, Int.toNat_of_nonneg hnonneg]
  rw [hvalue, add_sub_cancel_left]
  omega

/-- The shift limit and the saturating product of the source do not show: past them the delay is
at its maximum. -/
theorem saturated_eq {initialSecs maxSecs : ℕ} (attempt : ℕ) (hpos : 0 < initialSecs)
    (hmax : maxSecs ≤ maxRetryDelaySecs) :
    min (min (initialSecs * 2 ^ min (attempt - 1) 63) u64Max) maxSecs =
      min (initialSecs * 2 ^ (attempt - 1)) maxSecs := by
  have hu64 : maxSecs ≤ u64Max := hmax.trans (by decide)
  rw [min_assoc, min_eq_right hu64]
  by_cases hlimit : attempt - 1 ≤ 63
  · rw [min_eq_left hlimit]
  · have hfar : maxSecs ≤ initialSecs * 2 ^ 63 :=
      (hmax.trans (by decide)).trans (Nat.le_mul_of_pos_left _ hpos)
    have hpow : 2 ^ 63 ≤ 2 ^ (attempt - 1) :=
      Nat.pow_le_pow_right (by decide) (Nat.le_of_not_le hlimit)
    rw [min_eq_right (Nat.le_of_not_le hlimit), min_eq_right hfar,
      min_eq_right (hfar.trans (Nat.mul_le_mul_left _ hpow))]

/-- The delay of an attempt is the base with the jitter applied. -/
theorem delayForAttempt_eq (policy : RetryPolicy) {attempt percentile : ℕ} (hattempt : 1 ≤ attempt)
    (hpercentile : percentile ≤ 100) :
    policy.delayForAttempt attempt percentile = .ok (applyJitter (policy.backoff.baseDelay attempt)
      policy.backoff.jitterPercent percentile) := by
  have hbounds := policy.bounds.1 attempt
  obtain ⟨backoff, hcheck⟩ := policy
  unfold delayForAttempt
  rw [if_neg (by omega), if_neg (by omega)]
  cases backoff with
  | fixed delaySecs =>
    have hsmall : (delaySecs : ℤ) ≤ u64Max := by
      exact_mod_cast hbounds.trans (by decide)
    have hbase : applyJitter delaySecs 0 percentile = delaySecs := by
      have hdistance : |(applyJitter delaySecs 0 percentile : ℤ) - delaySecs| * 100 ≤
          delaySecs * (0 : ℕ) :=
        applyJitter_distance ((Nat.mul_le_mul_left 2 hbounds).trans (by decide)) (Nat.zero_le _)
          hpercentile
      have habs : |(applyJitter delaySecs 0 percentile : ℤ) - delaySecs| = 0 :=
        le_antisymm (by push_cast at hdistance; omega) (abs_nonneg _)
      have := abs_eq_zero.mp habs
      omega
    exact congrArg Except.ok hbase.symm
  | exponential initialSecs maxSecs jitterPercent =>
    simp only [BoundViolation.check] at hcheck
    split_ifs at hcheck with hzero hbelow hlong hjitter
    show Except.ok (applyJitter (min (min (initialSecs * 2 ^ min (attempt - 1) 63) u64Max) maxSecs)
      jitterPercent percentile) = _
    rw [saturated_eq attempt (Nat.pos_of_ne_zero hzero) (not_lt.mp hlong)]
    rfl

/-- At the middle of the jitter the delay is the base. -/
theorem delayForAttempt_middle (policy : RetryPolicy) {attempt : ℕ} (hattempt : 1 ≤ attempt) :
    policy.delayForAttempt attempt 50 = .ok (policy.backoff.baseDelay attempt) := by
  have hsmall : (policy.backoff.baseDelay attempt : ℤ) ≤ u64Max := by
    exact_mod_cast (policy.bounds.1 attempt).trans (by decide)
  rw [policy.delayForAttempt_eq hattempt (by decide)]
  refine congrArg Except.ok ?_
  show (max 0 (min (u64Max : ℤ) (_ + Int.tdiv (_ * 0) 100))).toNat = _
  rw [mul_zero, Int.zero_tdiv, add_zero, min_eq_right hsmall, max_eq_right (Int.natCast_nonneg _),
    Int.toNat_natCast]

end RetryPolicy

end DurableWorkflows
