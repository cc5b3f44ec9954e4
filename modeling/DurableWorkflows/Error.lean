import DurableWorkflows.Persistence.Status
import Mathlib.Algebra.Ring.Nat
import Mathlib.Order.Lattice
import Mathlib.Data.Int.Notation

/-!
# Errors and integer ranges

`DurableError` with the texts of its invalid-state reasons, the constraint
violations a statement can raise, and the two helpers that bound stored text.
The reasons of an `invalidState` are an enumeration here, so that a proof can
say which of them cannot occur; `InvalidState.message` renders the source's
text.
-/

namespace DurableWorkflows

abbrev WorkflowId := ℕ
abbrev ActivityId := ℕ
abbrev ApprovalId := ℕ
abbrev ScheduleRunId := ℕ

/-- Epoch milliseconds on the database clock (`i64`). -/
abbrev DbMillis := ℤ

/-- A drawn lease token. Tokens are numbered in the order they are drawn, so
two draws never give the same token. -/
abbrev LeaseToken := ℕ

/-- Why a transaction found the stored state invalid. -/
inductive InvalidState
  | waitWithoutReference (workflow : WorkflowId) (kind : WaitKind)
  | referenceWithoutWait (workflow : WorkflowId) (reference : ℕ)
  | eventSequenceOverflow
  | deliverySequenceOverflow
  | noDeliverableEvent (workflow : WorkflowId)
  | nonDeliverableHistory
  | eventWithoutMetadata
  | noLeaseToken (status : ActivityStatus) (activity : ActivityId)
  | noRevokeOutcome (activity : ActivityId)
  | unknownOutcome (value : String)
  | finishedAsRevoked (activity : ActivityId) (attempt : ℕ)
  | renewalWithoutLease (activity : ActivityId) (status : ActivityStatus)
  | finishWithoutLease (activity : ActivityId) (status : ActivityStatus)
  | reconciledWithoutLease (activity : ActivityId) (status : ActivityStatus)
  | cancelledTerminal (activity : ActivityId) (status : ActivityStatus)
  | attemptOverflow
  | attemptLimitOverflow
  | leaseTimestampOverflow
  | negativeDuration
  | leaseDeadlineOverflow
  | leaseOverflow
  | replacementNumberOverflow
  | restartDeduplicated
  | deduplicationWithoutKey
  | missingActivity
  | missingChild
  | missingApproval
  | approvalMismatch (approval : ApprovalId) (workflow : WorkflowId)
  | approvalCommandMismatch (approval : ApprovalId) (workflow : WorkflowId)
  | timerReferenceMismatch (workflow : WorkflowId)
  | noTimerOrApprovalWait (workflow : WorkflowId)
  | progressSequenceOverflow
  | progressLengthOverflow
  | invalidGapTimestamp
  | gapTimestampUnderflow
  | occurrencesDisagree (scheduleKey : String)
  | occurrenceCountOverflow
  | cursorMustAdvance (next cursor : ℤ)
  | invalidRunOccurrence (scheduleKey text error : String)
  deriving DecidableEq, Repr

/-- The text of the source for each reason. -/
def InvalidState.message : InvalidState → String
  | .waitWithoutReference w k => s!"workflow {w} {k.asStr} wait has no reference"
  | .referenceWithoutWait w r => s!"workflow {w} wait reference {r} has no wait kind"
  | .eventSequenceOverflow => "workflow event sequence overflow"
  | .deliverySequenceOverflow => "workflow delivery sequence overflow"
  | .noDeliverableEvent w => s!"claimed workflow {w} has no deliverable event"
  | .nonDeliverableHistory => "workflow received non-deliverable history"
  | .eventWithoutMetadata => "deliverable event has no metadata"
  | .noLeaseToken s a => s!"{s.asStr} activity {a} has no lease token"
  | .noRevokeOutcome a => s!"cancelling activity {a} records no revoke outcome"
  | .unknownOutcome v => s!"unknown AttemptOutcome status {v}"
  | .finishedAsRevoked a n => s!"activity {a} attempt {n} finished as revoked but is still running"
  | .renewalWithoutLease a s =>
    s!"lease renewal fenced activity {a} in status {s.asStr}, which holds no lease"
  | .finishWithoutLease a s => s!"finish fenced activity {a} in status {s.asStr}, which holds no lease"
  | .reconciledWithoutLease a s =>
    s!"lease reconciliation loaded activity {a} in status {s.asStr}, which holds no lease"
  | .cancelledTerminal a s => s!"cancel loaded activity {a} in terminal status {s.asStr}"
  | .attemptOverflow => "activity attempt overflow"
  | .attemptLimitOverflow => "activity attempt limit overflow after operator pause"
  | .leaseTimestampOverflow => "activity lease timestamp overflow"
  | .negativeDuration => "stored duration cannot be negative"
  | .leaseDeadlineOverflow => "activity monotonic lease deadline overflow"
  | .leaseOverflow => "activity lease overflow"
  | .replacementNumberOverflow => "activity replacement number overflow"
  | .restartDeduplicated => "workflow restart unexpectedly deduplicated"
  | .deduplicationWithoutKey => "workflow deduplication conflict without a deduplication key"
  | .missingActivity => "paused activity wait references a missing activity"
  | .missingChild => "paused child wait references a missing workflow"
  | .missingApproval => "paused approval wait references a missing approval"
  | .approvalMismatch p w => s!"expired approval {p} no longer matches workflow {w}"
  | .approvalCommandMismatch p w => s!"approval {p} command sequence does not match workflow {w}"
  | .timerReferenceMismatch w => s!"workflow {w} timer reference does not match its command sequence"
  | .noTimerOrApprovalWait w => s!"workflow {w} has no timer or approval wait"
  | .progressSequenceOverflow => "progress sequence overflow"
  | .progressLengthOverflow => "progress description length overflow"
  | .invalidGapTimestamp => "invalid gap timestamp"
  | .gapTimestampUnderflow => "gap timestamp underflow"
  | .occurrencesDisagree key => s!"schedule {key} persisted local and UTC occurrences disagree"
  | .occurrenceCountOverflow => "schedule occurrence count exceeds u32"
  | .cursorMustAdvance next cursor => s!"schedule cursor must advance: {next} is not after {cursor}"
  | .invalidRunOccurrence key text error =>
    s!"schedule {key} has an invalid run occurrence {text}: {error}"

/-- The unique keys of the schema that a statement of the engine can meet. -/
inductive UniqueKey
  | workflowEventSequence
  | workflowEventDelivery
  | activityCommand
  | approvalCommand
  | activityAttempt
  | progressEvent
  | scheduleRunOccurrence
  deriving DecidableEq, Repr

/-- The check constraints of the schema that a statement of the engine can
meet. -/
inductive CheckConstraint
  | workflowVersion
  | activityVersion
  | activityMaxAttempts
  | approvalVersion
  deriving DecidableEq, Repr

/-- Errors the database raises. -/
inductive DatabaseError
  | uniqueViolation (key : UniqueKey)
  | checkViolation (constraint : CheckConstraint)
  | notFound
  | tooManyParameters
  deriving DecidableEq, Repr

/-- `DurableError`. The last constructor marks a loop of the source that the
model has cut off; it is not a benign error, and no transaction raises one. -/
inductive DurableError
  | database (error : DatabaseError)
  | serialization (message : String)
  | invalidPayload (field message : String)
  | invalidDefinition (message : String)
  | missingDefinition (kind : String) (version : ℤ)
  | missingCurrentDefinition (kind : String)
  | invalidState (reason : InvalidState)
  | fencedWrite
  | invalidId (value : ℤ)
  | notFound (resource : String) (identifier : ℕ)
  | notFoundKey (resource identifier : String)
  | conflict (message : String)
  | invalidCursor (message : String)
  | payloadTooLarge (field : String) (actualBytes maxBytes : ℕ)
  | definitionMismatch (actualKind : String) (actualVersion : ℤ) (expectedKind : String)
      (expectedVersion : ℤ)
  | outOfFuel
  deriving DecidableEq, Repr

/-- The text of a database error; a violated constraint is described by the
driver, here only by its kind. -/
def DatabaseError.message : DatabaseError → String
  | .uniqueViolation _ => "unique constraint violated"
  | .checkViolation _ => "check constraint violated"
  | .notFound => "Record not found"
  | .tooManyParameters => "Prepared statement contains too many placeholders"

/-- The text of an error (`to_string`). -/
def DurableError.message : DurableError → String
  | .database error => s!"database error: {error.message}"
  | .serialization message => s!"durable payload serialization failed: {message}"
  | .invalidPayload field message => s!"invalid {field}: {message}"
  | .invalidDefinition message => s!"invalid durable definition: {message}"
  | .missingDefinition kind version => s!"missing durable definition {kind} v{version}"
  | .missingCurrentDefinition kind => s!"missing current durable definition for {kind}"
  | .invalidState reason => s!"invalid durable state: {reason.message}"
  | .fencedWrite => "durable write lost its lease fence"
  | .invalidId value => s!"invalid durable identifier: {value}"
  | .notFound resource identifier => s!"durable resource not found: {resource} {identifier}"
  | .notFoundKey resource identifier => s!"durable resource not found: {resource} {identifier}"
  | .conflict message => s!"durable operation conflicts with current state: {message}"
  | .invalidCursor message => s!"invalid durable admin cursor: {message}"
  | .payloadTooLarge field actualBytes maxBytes =>
    s!"{field} is {actualBytes} bytes; maximum is {maxBytes} bytes"
  | .definitionMismatch actualKind actualVersion expectedKind expectedVersion =>
    s!"stored result definition {actualKind} v{actualVersion} does not match expected " ++
      s!"{expectedKind} v{expectedVersion}"
  | .outOfFuel => "loop without end"

/-- Reasons that report a counter at the end of its integer range, not a
broken invariant. -/
def InvalidState.isOverflow : InvalidState → Bool
  | .eventSequenceOverflow | .deliverySequenceOverflow | .attemptOverflow | .attemptLimitOverflow
  | .leaseTimestampOverflow | .leaseDeadlineOverflow | .leaseOverflow | .replacementNumberOverflow
  | .progressSequenceOverflow | .progressLengthOverflow => true
  | _ => false

/-- Errors that do not report a broken invariant of the stored state: every
error except an invalid state other than an overflow, a violated unique key,
and a loop without end. -/
def DurableError.isBenign : DurableError → Bool
  | .invalidState reason => reason.isOverflow
  | .database (.uniqueViolation _) => false
  | .outOfFuel => false
  | _ => true

-- ════════════════════════════════════════════════════════════════════════
-- Integer ranges
-- ════════════════════════════════════════════════════════════════════════

namespace I32

/-- `i32::MAX`. -/
def max : ℕ := 2147483647

/-- `i32::saturating_add` on non-negative values. -/
def saturatingAdd (a b : ℕ) : ℕ := min (a + b) max

/-- `i32::checked_add` on non-negative values. -/
def checkedAdd (a b : ℕ) : Option ℕ := if a + b ≤ max then some (a + b) else none

/-- `i32::try_from(..).unwrap_or(i32::MAX)` on a non-negative value. -/
def clamp (a : ℕ) : ℕ := min a max

theorem saturatingAdd_of_le {a b : ℕ} (h : a + b ≤ max) : saturatingAdd a b = a + b :=
  min_eq_left h

theorem checkedAdd_eq_some {a b c : ℕ} : checkedAdd a b = some c ↔ a + b ≤ max ∧ c = a + b := by
  unfold checkedAdd
  split <;> simp_all [eq_comm]

end I32

/-- `u32::MAX`. -/
def U32.max : ℕ := 4294967295

namespace DbMillis

/-- `i64::MAX`. -/
def max : ℤ := 9223372036854775807

/-- `i64::MIN`. -/
def min : ℤ := -9223372036854775808

/-- `DbMillis::checked_plus_millis`. -/
def checkedPlusMillis (t : DbMillis) (millis : ℤ) : Option DbMillis :=
  if min ≤ t + millis ∧ t + millis ≤ max then some (t + millis) else none

/-- `DbMillis::saturating_plus_millis`. -/
def saturatingPlusMillis (t : DbMillis) (millis : ℤ) : DbMillis :=
  Max.max min (Min.min max (t + millis))

theorem checkedPlusMillis_isSome {t : DbMillis} {millis : ℤ} :
    (∃ t', checkedPlusMillis t millis = some t') ↔ min ≤ t + millis ∧ t + millis ≤ max := by
  unfold checkedPlusMillis
  split <;> simp_all

end DbMillis

/-- An instant of a process's monotonic clock, in nanoseconds. -/
abbrev Instant := ℤ

namespace Instant

/-- The last instant of the clock, whose seconds are kept in an `i64`. -/
def max : ℤ := DbMillis.max * 1000000000 + 999999999

/-- `Instant::checked_add` of a duration in milliseconds. -/
def checkedAddMillis (t : Instant) (millis : ℕ) : Option Instant :=
  if t + millis * 1000000 ≤ max then some (t + millis * 1000000) else none

end Instant

-- ════════════════════════════════════════════════════════════════════════
-- Bounded text
-- ════════════════════════════════════════════════════════════════════════

/-- `MAX_ERROR_REASON_BYTES`. -/
def maxErrorReasonBytes : ℕ := 2 * 1024

/-- `MAX_INPUT_STATE_PAYLOAD_BYTES`. -/
def maxInputStatePayloadBytes : ℕ := 256 * 1024

/-- `MAX_OUTPUT_BYTES`. -/
def maxOutputBytes : ℕ := 64 * 1024

/-- `MAX_EVENT_METADATA_BYTES`. -/
def maxEventMetadataBytes : ℕ := 16 * 1024

/-- An error if the condition holds. -/
def rejectIf (c : Prop) [Decidable c] (e : DurableError) : Except DurableError Unit :=
  if c then .error e else .ok ()

/-- A sequence that returns has a first part that returns. -/
theorem bind_eq_ok {ε α β : Type} {x : Except ε α} {f : α → Except ε β} {b : β}
    (h : (x >>= f) = .ok b) : ∃ a, x = .ok a ∧ f a = .ok b := by
  cases x with
  | error e => cases h
  | ok a => exact ⟨a, rfl, h⟩

/-- A sequence that fails has a part that fails. -/
theorem bind_eq_error {ε α β : Type} {x : Except ε α} {f : α → Except ε β} {e : ε}
    (h : (x >>= f) = .error e) : x = .error e ∨ ∃ a, x = .ok a ∧ f a = .error e := by
  cases x with
  | error e' =>
    cases h
    exact .inl rfl
  | ok a => exact .inr ⟨a, rfl, h⟩

/-- `ensure_size`. -/
def ensureSize (field value : String) (maxBytes : ℕ) : Except DurableError Unit :=
  if maxBytes < value.utf8ByteSize then
    .error (.payloadTooLarge field value.utf8ByteSize maxBytes)
  else
    .ok ()

/-- The longest prefix of `chars` of at most `maxBytes` bytes. -/
def takeBytes : List Char → ℕ → List Char
  | [], _ => []
  | c :: chars, maxBytes =>
    if c.utf8Size ≤ maxBytes then c :: takeBytes chars (maxBytes - c.utf8Size) else []

/-- `truncate_utf8`: a value that fits is kept; a longer one is cut at the last
character boundary at or before the limit. -/
def truncateUtf8 (value : String) (maxBytes : ℕ) : String :=
  if value.utf8ByteSize ≤ maxBytes then value else String.ofList (takeBytes value.toList maxBytes)

end DurableWorkflows
