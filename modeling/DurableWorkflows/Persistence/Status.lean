import Mathlib.Data.Nat.Notation

/-!
# Persisted status columns

The status enumerations of the durable tables with the predicates that decide
membership in the status sets, and the text form of an attempt outcome. The
text matters for one column only: a revoke records its outcome in the
activity's `lastErrorCategory`, and settling the revoke parses it back.
-/

namespace DurableWorkflows

/-- `durable_workflow.status`. -/
inductive WorkflowStatus
  | ready
  | running
  | waitingActivity
  | waitingChild
  | sleeping
  | waitingApproval
  | paused
  | blocked
  | succeeded
  | failed
  | cancelled
  deriving DecidableEq, Repr

/-- `durable_activity.status`. -/
inductive ActivityStatus
  | pending
  | running
  | cancelling
  | succeeded
  | deadLettered
  | cancelled
  deriving DecidableEq, Repr

/-- `durable_workflow.wait_kind`. -/
inductive WaitKind
  | timer
  | activity
  | child
  | approval
  deriving DecidableEq, Repr

/-- `durable_approval.status`. -/
inductive ApprovalStatus
  | pending
  | resolved
  | expired
  | cancelled
  deriving DecidableEq, Repr

/-- `durable_activity_attempt.outcome`. -/
inductive AttemptOutcome
  | succeeded
  | retryableFailure
  | deadLettered
  | leaseExpired
  | operatorCancelled
  | applicationCancelled
  | operatorPaused
  deriving DecidableEq, Repr

namespace WorkflowStatus

/-- Statuses a workflow never leaves. -/
def isTerminal : WorkflowStatus → Bool
  | succeeded | failed | cancelled => true
  | ready | running | waitingActivity | waitingChild | sleeping | waitingApproval | paused
  | blocked => false

/-- Statuses in which a workflow may hold a child wait. -/
def awaitsChild : WorkflowStatus → Bool
  | waitingChild | paused => true
  | ready | running | waitingActivity | sleeping | waitingApproval | blocked | succeeded | failed
  | cancelled => false

/-- Statuses in which a workflow may hold an approval wait. -/
def awaitsApproval : WorkflowStatus → Bool
  | waitingApproval | paused => true
  | ready | running | waitingActivity | waitingChild | sleeping | blocked | succeeded | failed
  | cancelled => false

/-- Source statuses an operator restart accepts. -/
def isRestartable : WorkflowStatus → Bool
  | succeeded | failed | cancelled | paused | blocked => true
  | ready | running | waitingActivity | waitingChild | sleeping | waitingApproval => false

/-- Statuses of the newest generation from which a recoverable start starts a
new generation instead of returning the existing one. -/
def isStartRecoverable : WorkflowStatus → Bool
  | failed | blocked => true
  | ready | running | waitingActivity | waitingChild | sleeping | waitingApproval | paused
  | succeeded | cancelled => false

/-- The persisted text. -/
def asStr : WorkflowStatus → String
  | ready => "ready"
  | running => "running"
  | waitingActivity => "waiting_activity"
  | waitingChild => "waiting_child"
  | sleeping => "sleeping"
  | waitingApproval => "waiting_approval"
  | paused => "paused"
  | blocked => "blocked"
  | succeeded => "succeeded"
  | failed => "failed"
  | cancelled => "cancelled"

end WorkflowStatus

namespace ActivityStatus

/-- Statuses that count against the topic concurrency cap. -/
def holdsSlot : ActivityStatus → Bool
  | running | cancelling => true
  | pending | succeeded | deadLettered | cancelled => false

/-- Statuses whose row carries a lease. -/
def holdsLease : ActivityStatus → Bool
  | running | cancelling => true
  | pending | succeeded | deadLettered | cancelled => false

/-- Statuses a row never leaves; an operator retry of a dead letter inserts a
new row. -/
def isTerminal : ActivityStatus → Bool
  | succeeded | deadLettered | cancelled => true
  | pending | running | cancelling => false

/-- The persisted text. -/
def asStr : ActivityStatus → String
  | pending => "pending"
  | running => "running"
  | cancelling => "cancelling"
  | succeeded => "succeeded"
  | deadLettered => "dead_lettered"
  | cancelled => "cancelled"

end ActivityStatus

namespace ApprovalStatus

/-- The persisted text. -/
def asStr : ApprovalStatus → String
  | pending => "pending"
  | resolved => "resolved"
  | expired => "expired"
  | cancelled => "cancelled"

end ApprovalStatus

namespace WaitKind

/-- The persisted text. -/
def asStr : WaitKind → String
  | timer => "timer"
  | activity => "activity"
  | child => "child"
  | approval => "approval"

end WaitKind

namespace AttemptOutcome

/-- The persisted text. -/
def asStr : AttemptOutcome → String
  | succeeded => "succeeded"
  | retryableFailure => "retryable_failure"
  | deadLettered => "dead_lettered"
  | leaseExpired => "lease_expired"
  | operatorCancelled => "operator_cancelled"
  | applicationCancelled => "application_cancelled"
  | operatorPaused => "operator_paused"

/-- Parse the persisted text. -/
def tryFrom (value : String) : Option AttemptOutcome :=
  [succeeded, retryableFailure, deadLettered, leaseExpired, operatorCancelled,
    applicationCancelled, operatorPaused].find? fun outcome => outcome.asStr == value

/-- Every outcome parses back from its text. -/
@[simp]
theorem tryFrom_asStr (outcome : AttemptOutcome) : tryFrom outcome.asStr = some outcome := by
  cases outcome <;> decide

/-- The outcomes a revoke records: a pause, an operator's cancel, and an
application's cancel. -/
def isRevoke : AttemptOutcome → Bool
  | operatorCancelled | applicationCancelled | operatorPaused => true
  | succeeded | retryableFailure | deadLettered | leaseExpired => false

end AttemptOutcome

end DurableWorkflows
