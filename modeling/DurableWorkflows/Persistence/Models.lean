import DurableWorkflows.Base.Table
import DurableWorkflows.Transition

/-!
# Persisted rows

The rows of the durable tables with the columns the engine reads and writes,
the wait a workflow row persists in two of them, and the database as a whole.

## Main definitions

- `WorkflowRow`, `WorkflowEventRow`, `ActivityRow`, `ActivityAttemptRow`,
  `ApprovalRow`, `ScheduleRunRow`, `ProgressEventRow`, `TopicLockRow`
- `Wait` and `Wait.parse`: the typed reading of the two wait columns
- `DB`: the durable tables, and `Tx`: transactions over them
-/

namespace DurableWorkflows

/-- `durable_workflow`. -/
structure WorkflowRow where
  id : WorkflowId
  kind : String
  version : ℤ
  inputJson : String
  stateJson : String
  stateVersion : ℕ
  status : WorkflowStatus
  resultJson : Option String
  errorCategory : Option String
  errorMessage : Option String
  waitKind : Option WaitKind
  waitReferenceId : Option ℕ
  availableAt : DbMillis
  activationAttempts : ℕ
  maxActivationAttempts : ℕ
  consecutiveContinuations : ℕ
  leaseOwner : Option String
  leaseToken : Option LeaseToken
  leaseExpiresAt : Option DbMillis
  deduplicationKey : Option String
  scheduleRunId : Option ScheduleRunId
  rootWorkflowId : Option WorkflowId
  restartedFromWorkflowId : Option WorkflowId
  parentWorkflowId : Option WorkflowId
  parentCommandSequence : Option ℕ
  commandSequence : ℕ
  deliveredEventSequence : ℕ
  createdAt : DbMillis
  updatedAt : DbMillis
  completedAt : Option DbMillis
  deriving DecidableEq

instance : Keyed WorkflowRow := ⟨WorkflowRow.id⟩

/-- `durable_workflow_event.event_type`. -/
inductive EventType
  | started
  | continued
  | activitySucceeded
  | childSucceeded
  | childFailed
  | timerFired
  | approvalResolved
  | approvalExpired
  | leaseRecovered
  | activationFailed
  | activationExhausted
  | workflowSucceeded
  | timerScheduled
  | approvalRequested
  | activityScheduled
  | childWorkflowScheduled
  | childWaitReattached
  | workflowSupersededByRecovery
  | workflowSupersededByRestart
  | workflowCancelled
  | workflowPaused
  | workflowResumed
  | workflowRestarted
  | workflowCorrectedAndRestarted
  | workflowRestartCreated
  | activityLeaseExpired
  | activityRevokeSettled
  | activityQuarantined
  | activityRetryScheduled
  | activityDeadLettered
  | activityRetried
  | activityCorrectedAndRetried
  | scheduleRunNow
  deriving DecidableEq, Repr

/-- `durable_workflow_event.actor_type`. -/
inductive ActorType
  | system
  | operator
  deriving DecidableEq, Repr

/-- `durable_workflow_event.metadata_json` before serialization: a delivered
event, or the two ends of a re-attached child wait. -/
inductive EventMetadata
  | event (event : WorkflowEvent)
  | reattached (source target : WorkflowId)
  deriving DecidableEq

/-- `durable_workflow_event`. -/
structure WorkflowEventRow where
  workflowId : WorkflowId
  sequence : ℕ
  deliverySequence : Option ℕ
  eventType : EventType
  metadata : Option EventMetadata
  actorType : Option ActorType
  actorId : Option String
  reason : Option String
  createdAt : DbMillis
  deriving DecidableEq

/-- `durable_activity`. -/
structure ActivityRow where
  id : ActivityId
  workflowId : WorkflowId
  commandSequence : ℕ
  replacementNumber : ℕ
  kind : String
  version : ℤ
  topic : String
  payloadJson : String
  status : ActivityStatus
  availableAt : DbMillis
  maxAttempts : ℕ
  attemptCount : ℕ
  timeoutMillis : ℤ
  leaseDurationMillis : ℤ
  retryPolicy : BackoffPolicy
  operationKey : Option String
  providerResultJson : Option String
  lastErrorCategory : Option String
  lastErrorMessage : Option String
  leaseOwner : Option String
  leaseToken : Option LeaseToken
  leaseExpiresAt : Option DbMillis
  rootActivityId : Option ActivityId
  replacesActivityId : Option ActivityId
  createdAt : DbMillis
  updatedAt : DbMillis
  completedAt : Option DbMillis
  deriving DecidableEq

instance : Keyed ActivityRow := ⟨ActivityRow.id⟩

/-- `durable_activity_attempt`. -/
structure ActivityAttemptRow where
  activityId : ActivityId
  attemptNumber : ℕ
  workerId : String
  leaseToken : LeaseToken
  startedAt : DbMillis
  heartbeatAt : DbMillis
  finishedAt : Option DbMillis
  outcome : Option AttemptOutcome
  errorCategory : Option String
  errorMessage : Option String
  providerResultJson : Option String
  deriving DecidableEq

/-- `durable_progress_event`. -/
structure ProgressEventRow where
  activityId : ActivityId
  attemptNumber : ℕ
  sequence : ℕ
  code : String
  description : String
  descriptionBytes : ℕ
  completedUnits : Option ℤ
  totalUnits : Option ℤ
  severity : String
  metadataJson : Option String
  createdAt : DbMillis
  deriving DecidableEq

/-- `durable_approval`. -/
structure ApprovalRow where
  id : ApprovalId
  workflowId : WorkflowId
  commandSequence : ℕ
  kind : String
  version : ℤ
  promptMetadataJson : String
  validationSchemaJson : String
  validationVersion : ℕ
  status : ApprovalStatus
  requestedAt : DbMillis
  expiresAt : Option DbMillis
  decisionPayloadJson : Option String
  decidedBy : Option ℤ
  operatorReason : Option String
  resolvedAt : Option DbMillis
  deriving DecidableEq

instance : Keyed ApprovalRow := ⟨ApprovalRow.id⟩

/-- `durable_schedule_run`: the columns the workflow engine touches. -/
structure ScheduleRunRow where
  id : ScheduleRunId
  workflowId : Option WorkflowId
  deriving DecidableEq

instance : Keyed ScheduleRunRow := ⟨ScheduleRunRow.id⟩

/-- `durable_topic_lock`. -/
structure TopicLockRow where
  topic : String
  maxConcurrency : ℕ
  updatedAt : DbMillis
  deriving DecidableEq

-- ════════════════════════════════════════════════════════════════════════
-- The persisted wait
-- ════════════════════════════════════════════════════════════════════════

/-- `Wait`: what a workflow waits on. -/
inductive Wait
  | timer (commandSequence : ℕ)
  | activity (id : ActivityId)
  | child (id : WorkflowId)
  | approval (id : ApprovalId)
  deriving DecidableEq, Repr

namespace Wait

/-- `Wait::kind`. -/
def kind : Wait → WaitKind
  | timer _ => .timer
  | activity _ => .activity
  | child _ => .child
  | approval _ => .approval

/-- `Wait::reference_id`. -/
def referenceId : Wait → ℕ
  | timer commandSequence => commandSequence
  | activity id => id
  | child id => id
  | approval id => id

/-- `Wait::parse`: the one reading of the two wait columns. -/
def parse (workflowId : WorkflowId) (kind : Option WaitKind) (reference : Option ℕ) :
    Except DurableError (Option Wait) :=
  match kind, reference with
  | none, none => .ok none
  | some kind, none => .error (.invalidState (.waitWithoutReference workflowId kind))
  | none, some reference => .error (.invalidState (.referenceWithoutWait workflowId reference))
  | some .timer, some reference => .ok (some (timer reference))
  | some .activity, some reference =>
    if reference = 0 then .error (.invalidId 0) else .ok (some (activity reference))
  | some .child, some reference =>
    if reference = 0 then .error (.invalidId 0) else .ok (some (child reference))
  | some .approval, some reference =>
    if reference = 0 then .error (.invalidId 0) else .ok (some (approval reference))

end Wait

namespace WorkflowRow

/-- `WorkflowRow::wait`. -/
def wait (row : WorkflowRow) : Except DurableError (Option Wait) :=
  Wait.parse row.id row.waitKind row.waitReferenceId

/-- `WaitColumns::on`. -/
def waitOn (row : WorkflowRow) (wait : Wait) : WorkflowRow :=
  { row with waitKind := some wait.kind, waitReferenceId := some wait.referenceId }

/-- `WaitColumns::cleared`. -/
def waitCleared (row : WorkflowRow) : WorkflowRow :=
  { row with waitKind := none, waitReferenceId := none }

/-- The three lease columns set to null. -/
def leaseCleared (row : WorkflowRow) : WorkflowRow :=
  { row with leaseOwner := none, leaseToken := none, leaseExpiresAt := none }

end WorkflowRow

/-- `LeaseCleared`. -/
def ActivityRow.leaseCleared (row : ActivityRow) : ActivityRow :=
  { row with leaseOwner := none, leaseToken := none, leaseExpiresAt := none }

-- ════════════════════════════════════════════════════════════════════════
-- The database
-- ════════════════════════════════════════════════════════════════════════

/-- The durable tables. Attempts and topic locks have natural keys; events and
progress reports are only ever appended. -/
structure DB where
  workflows : Table WorkflowRow
  events : List WorkflowEventRow
  activities : Table ActivityRow
  attempts : ActivityId → ℕ → Option ActivityAttemptRow
  approvals : Table ApprovalRow
  scheduleRuns : Table ScheduleRunRow
  topicLocks : String → Option TopicLockRow
  progress : List ProgressEventRow

/-- The database after the migrations. -/
def DB.empty : DB where
  workflows := .empty
  events := []
  activities := .empty
  attempts _ _ := none
  approvals := .empty
  scheduleRuns := .empty
  topicLocks _ := none
  progress := []

/-- Transactions over the durable tables. -/
abbrev Tx (α : Type) : Type := Transaction DB DurableError α

/-- `durable_workflow` inside the database. -/
def workflowTable : TableOf DB WorkflowRow := ⟨DB.workflows, fun t db => { db with workflows := t }⟩

/-- `durable_activity` inside the database. -/
def activityTable : TableOf DB ActivityRow :=
  ⟨DB.activities, fun t db => { db with activities := t }⟩

/-- `durable_approval` inside the database. -/
def approvalTable : TableOf DB ApprovalRow := ⟨DB.approvals, fun t db => { db with approvals := t }⟩

/-- `durable_schedule_run` inside the database. -/
def scheduleRunTable : TableOf DB ScheduleRunRow :=
  ⟨DB.scheduleRuns, fun t db => { db with scheduleRuns := t }⟩

end DurableWorkflows
