import DurableWorkflows.Error

/-!
# Retry policies

`RetryPolicy` carries the bounds that its constructors and its decoder check,
so a policy outside them cannot be built. The stored column holds the shape
before the check (`BackoffPolicy`); reading it runs `RetryPolicy.validated`.
-/

namespace DurableWorkflows

/-- `MAX_RETRY_DELAY_SECS`. -/
def maxRetryDelaySecs : ℕ := 9223372036854775807 / 2000

/-- `u64::MAX`. -/
def u64Max : ℕ := 18446744073709551615

/-- `BackoffPolicy`: the serialized shape of a retry policy. -/
inductive BackoffPolicy
  | fixed (delaySecs : ℕ)
  | exponential (initialSecs maxSecs jitterPercent : ℕ)
  deriving DecidableEq, Repr

/-- `BoundViolation`: a bound a `BackoffPolicy` breaks. -/
inductive BoundViolation
  | fixedZero
  | fixedTooLong
  | initialZero
  | maxBelowInitial
  | maxTooLong
  | jitterOver100
  deriving DecidableEq, Repr

namespace BoundViolation

/-- `BoundViolation::check`: the first bound the policy breaks. -/
def check : BackoffPolicy → Option BoundViolation
  | .fixed delaySecs =>
    if delaySecs = 0 then some .fixedZero
    else if maxRetryDelaySecs < delaySecs then some .fixedTooLong
    else none
  | .exponential initialSecs maxSecs jitterPercent =>
    if initialSecs = 0 then some .initialZero
    else if maxSecs < initialSecs then some .maxBelowInitial
    else if maxRetryDelaySecs < maxSecs then some .maxTooLong
    else if 100 < jitterPercent then some .jitterOver100
    else none

/-- `BoundViolation::into_error`. -/
def intoError : BoundViolation → DurableError
  | .fixedTooLong =>
    .invalidDefinition s!"fixed retry delay cannot exceed {maxRetryDelaySecs} seconds"
  | .maxTooLong =>
    .invalidDefinition s!"exponential max delay cannot exceed {maxRetryDelaySecs} seconds"
  | .fixedZero => .invalidDefinition "fixed retry delay must be greater than zero"
  | .initialZero => .invalidDefinition "exponential initial delay must be greater than zero"
  | .maxBelowInitial =>
    .invalidDefinition "exponential max delay must be at least the initial delay"
  | .jitterOver100 => .invalidDefinition "retry jitter_percent cannot exceed 100"

end BoundViolation

/-- A retry policy within its bounds. -/
structure RetryPolicy where
  backoff : BackoffPolicy
  inBounds : BoundViolation.check backoff = none
  deriving DecidableEq

namespace RetryPolicy

/-- `RetryPolicy::validated`, which also decodes a stored policy. -/
def validated (backoff : BackoffPolicy) : Except DurableError RetryPolicy :=
  match h : BoundViolation.check backoff with
  | none => .ok ⟨backoff, h⟩
  | some violation => .error violation.intoError

theorem validated_ok_iff {backoff : BackoffPolicy} :
    (∃ policy, validated backoff = .ok policy) ↔ BoundViolation.check backoff = none := by
  unfold validated
  split <;> simp_all

/-- `apply_jitter`. The division is Rust's, toward zero. -/
def applyJitter (base jitterPercent percentile : ℕ) : ℕ :=
  let spread : ℤ := (base * jitterPercent / 100 : ℕ)
  let centeredPercentile : ℤ := percentile * 2 - 100
  let delta := (spread * centeredPercentile).tdiv 100
  (max 0 (min (u64Max : ℤ) (base + delta))).toNat

/-- `RetryPolicy::delay_for_attempt`, in seconds. -/
def delayForAttempt (policy : RetryPolicy) (attempt jitterPercentile : ℕ) :
    Except DurableError ℕ :=
  if attempt = 0 then
    .error (.invalidDefinition "attempt numbers are one-based")
  else if 100 < jitterPercentile then
    .error (.invalidDefinition "jitter percentile cannot exceed 100")
  else
    match policy.backoff with
    | .fixed delaySecs => .ok delaySecs
    | .exponential initialSecs maxSecs jitterPercent =>
      let exponent := min (attempt - 1) 63
      let base := min (min (initialSecs * 2 ^ exponent) u64Max) maxSecs
      .ok (applyJitter base jitterPercent jitterPercentile)

end RetryPolicy

/-- `duration_millis` of a duration in milliseconds: it must fit `i64`. -/
def durationMillis (millis : ℕ) : Except DurableError ℤ :=
  if (millis : ℤ) ≤ DbMillis.max then
    .ok millis
  else
    .error (.invalidDefinition "duration exceeds the database range")

end DurableWorkflows
