import DurableWorkflows.Runtime.Temporal

/-!
# Operator control

`AdminControlService`: pause, resume, cancel and restart of a workflow, retry
of a dead-lettered activity, and the resolution of an approval. Each is one
transaction and records the operator in the workflow's history.
-/

namespace DurableWorkflows

open Transaction

/-- `Operator`. -/
structure Operator where
  actorId : String
  reason : String

/-- `append_operator_event`. -/
def appendOperatorEvent (workflowId : WorkflowId) (eventType : EventType) (operator : Operator)
    (now : DbMillis) : Tx Unit :=
  appendHistoryEvent workflowId eventType .operator (some operator.actorId) (some operator.reason)
    none now

/-- `lock_workflow`. -/
def lockWorkflow (workflowId : WorkflowId) : Tx WorkflowRow := do
  let workflow ← findRow workflowTable workflowId
  orAbort workflow (.notFound "workflow" workflowId)

/-- `conflict`. -/
def conflict (workflowId : WorkflowId) (action : String) (status : WorkflowStatus) :
    DurableError :=
  .conflict s!"workflow {workflowId} {action} while in {status.asStr} state"

/-- `str::parse::<i32>`. -/
def parseI32 (value : String) : Option ℤ :=
  let (negative, digits) := match value.toList with
    | '-' :: digits => (true, digits)
    | '+' :: digits => (false, digits)
    | digits => (false, digits)
  let number : ℤ := digits.foldl (fun n c => n * 10 + (c.toNat - '0'.toNat)) 0
  let number := if negative then -number else number
  if digits.isEmpty ∨ digits.any (fun c => !c.isDigit) ∨ number < -(I32.max + 1) ∨ I32.max < number
  then none else some number

/-- `operator_actor_id`. -/
def operatorActorId (operator : Operator) : Except DurableError ℤ :=
  match parseI32 operator.actorId with
  | none => .error (.invalidDefinition
      "schedule and approval controls require a numeric operator actor ID")
  | some actorId =>
    if actorId ≤ 0 then
      .error (.invalidDefinition
        "schedule and approval controls require a positive operator actor ID")
    else
      .ok actorId

-- ════════════════════════════════════════════════════════════════════════
-- Pause and resume
-- ════════════════════════════════════════════════════════════════════════

/-- The revoke of a running attempt by a pause. -/
def revokeRunning (activity : ActivityRow) (operator : Operator) (now : DbMillis) : Tx Unit := do
  let leaseToken ← orAbort activity.leaseToken
    (.invalidState (.noLeaseToken .running activity.id))
  let maxAttempts ← orAbort (I32.checkedAdd activity.maxAttempts 1)
    (.invalidState .attemptLimitOverflow)
  fencedUpdate activityTable activity.id
    (fun r => r.status == .running && r.attemptCount == activity.attemptCount &&
      r.leaseToken == some leaseToken)
    fun r => { r with
      status := .cancelling
      maxAttempts
      lastErrorCategory := some AttemptOutcome.operatorPaused.asStr
      lastErrorMessage := some operator.reason
      updatedAt := now }

/-- `pause_activity`. -/
def pauseActivity (activityId : ActivityId) (operator : Operator) (now : DbMillis) : Tx Unit := do
  match ← findRow activityTable activityId with
  | none => return ()
  | some activity =>
    match activity.status with
    | .running => revokeRunning activity operator now
    | .pending | .cancelling | .succeeded | .deadLettered | .cancelled => return ()

/-- The pause of the activity a workflow waits for. -/
def pauseAwaited (wait : Option Wait) (operator : Operator) (now : DbMillis) : Tx Unit :=
  match wait with
  | some (.activity activityId) => pauseActivity activityId operator now
  | some (.timer _) | some (.child _) | some (.approval _) | none => pure ()

/-- `pause_workflow`. -/
def pauseWorkflow (workflowId : WorkflowId) (operator : Operator) (now : DbMillis) : Tx Unit := do
  let workflow ← lockWorkflow workflowId
  ensure (workflow.status ≠ .paused ∧ workflow.status.isTerminal = false)
    (conflict workflowId "cannot be paused" workflow.status)
  let wait ← ofExcept workflow.wait
  pauseAwaited wait operator now
  fencedUpdate workflowTable workflow.id (fun r => r.status == workflow.status)
    fun r => { r.leaseCleared with status := .paused, updatedAt := now }
  appendOperatorEvent workflowId .workflowPaused operator now

/-- `resume_status`. -/
def resumeStatus (workflow : WorkflowRow) : Tx WorkflowStatus := do
  match ← ofExcept workflow.wait with
  | none => return .ready
  | some (.timer _) => return .sleeping
  | some (.activity activityId) =>
    let activity ← findRow activityTable activityId
    let activity ← orAbort activity (.invalidState .missingActivity)
    match activity.status with
    | .pending | .running | .cancelling => return .waitingActivity
    | .deadLettered => return .blocked
    | .succeeded => return .ready
    | .cancelled =>
      abort (.conflict s!"paused workflow references activity in {activity.status.asStr} state")
  | some (.child childId) =>
    let child ← findRow workflowTable childId
    let child ← orAbort child (.invalidState .missingChild)
    ensure (child.status.isTerminal = false) (.conflict
      s!"paused workflow references terminal child workflow {childId} whose outcome was never delivered")
    return .waitingChild
  | some (.approval approvalId) =>
    let approval ← findRow approvalTable approvalId
    let approval ← orAbort approval (.invalidState .missingApproval)
    return if approval.status = .pending then .waitingApproval else .ready

/-- `resume_workflow`. -/
def resumeWorkflow (workflowId : WorkflowId) (operator : Operator) (now : DbMillis) :
    Tx WorkflowStatus := do
  let workflow ← lockWorkflow workflowId
  ensure (workflow.status = .paused) (conflict workflowId "is not paused" workflow.status)
  let status ← resumeStatus workflow
  fencedUpdate workflowTable workflow.id (fun r => r.status == .paused)
    fun r => { r.leaseCleared with
      status
      availableAt := if status = .ready then now else workflow.availableAt
      updatedAt := now }
  appendOperatorEvent workflowId .workflowResumed operator now
  return status

-- ════════════════════════════════════════════════════════════════════════
-- Cancel and restart
-- ════════════════════════════════════════════════════════════════════════

/-- `cancel_workflow`. -/
def cancelWorkflow (workflowId : WorkflowId) (operator : Operator) (now : DbMillis) :
    Tx Unit := do
  let workflow ← lockWorkflow workflowId
  ensure (workflow.status.isTerminal = false)
    (conflict workflowId "is already terminal" workflow.status)
  cancelLockedWorkflow workflow operator.reason (some operator.actorId) now

theorem key_supersedeSource (now : DbMillis) (r : WorkflowRow) :
    Keyed.key ({ r.leaseCleared with
      status := .cancelled, updatedAt := now, completedAt := some now } : WorkflowRow) =
      Keyed.key r := rfl

/-- The supersession of a non-terminal restart source. -/
def supersedeSource (source : WorkflowRow) (operator : Operator) (now : DbMillis) : Tx Unit := do
  cancelActivities source.id operator.reason .operatorCancelled now
  cancelApprovals source.id operator.reason now
  fencedUpdate workflowTable source.id (fun r => r.status == source.status)
    (fun r => { r.leaseCleared with
      status := .cancelled, updatedAt := now, completedAt := some now })
    (key_supersedeSource now)
  appendOperatorEvent source.id .workflowSupersededByRestart operator now
  wakeWaitingParentsOnChildTerminal source (.error ("child_superseded", operator.reason)) now
  cancelOwnedDescendants source.id operator.reason (some operator.actorId) now

/-- The schedule run of a restart source follows the successor. -/
def moveScheduleRun (source : WorkflowRow) (successor : WorkflowId) : Tx Unit :=
  match source.scheduleRunId with
  | none => pure ()
  | some scheduleRunId =>
    fencedUpdate scheduleRunTable scheduleRunId (fun r => r.workflowId == some source.id)
      fun r => { r with workflowId := some successor }

/-- `restart`: `restart_workflow` without a correction and
`correct_and_restart_workflow` with one. -/
def restart (registry : WorkflowRegistry) (workflowId : WorkflowId) (correction : Option String)
    (operator : Operator) (now : DbMillis) : Tx WorkflowId := do
  let source ← lockWorkflow workflowId
  ensure (source.status.isRestartable = true)
    (conflict workflowId "must be paused, blocked, or terminal before restart" source.status)
  let existing ← selectRows workflowTable fun r => r.restartedFromWorkflowId == some source.id
  ensure existing.isEmpty (.conflict s!"workflow {workflowId} already has a restart")
  let prepared ← ofExcept <| match correction with
    | some input => registry.prepareStartCurrent source.kind input
    | none => registry.prepareStartExact source.kind source.version source.inputJson
  let options : StartOptions := {
    availableAt := none, scheduleRunId := source.scheduleRunId
    lineage := .restart (source.rootWorkflowId.getD source.id) workflowId }
  ofExcept (checkPreparedStart prepared options)
  let outcome ← insertPrepared prepared options now
  ensure (outcome.inserted = true) (.invalidState .restartDeduplicated)
  onlyIf (source.status.isTerminal = false) (supersedeSource source operator now)
  moveScheduleRun source outcome.workflowId
  appendOperatorEvent workflowId
    (if correction.isSome then .workflowCorrectedAndRestarted else .workflowRestarted) operator now
  appendOperatorEvent outcome.workflowId .workflowRestartCreated operator now
  return outcome.workflowId

-- ════════════════════════════════════════════════════════════════════════
-- Retry and approvals
-- ════════════════════════════════════════════════════════════════════════

/-- `retry`: `retry_activity` without a correction and
`correct_and_retry_activity` with one. -/
def retry (registry : ActivityRegistry) (activityId : ActivityId) (correction : Option String)
    (operator : Operator) (now : DbMillis) : Tx ActivityId := do
  let source ← findRow activityTable activityId
  let source ← orAbort source (.notFound "activity" activityId)
  let workflow ← lockWorkflow source.workflowId
  let wait ← ofExcept (if workflow.status = .blocked then workflow.wait else .ok none)
  ensure (wait = some (.activity activityId) ∧ source.status = .deadLettered) (.conflict
    s!"activity {activityId} is not the dead-lettered activity blocking workflow {workflow.id}")
  let replacementNumber ← orAbort (I32.checkedAdd source.replacementNumber 1)
    (.invalidState .replacementNumberOverflow)
  let rootId := source.rootActivityId.getD source.id
  let operationKey := if correction.isSome then
      some s!"durable:activity:{rootId}:correction:{replacementNumber}"
    else source.operationKey
  let command ← ofExcept <| match correction with
    | some payload => registry.prepareCommandCurrent source.kind payload operationKey
    | none =>
      registry.prepareCommandExact source.kind source.version source.payloadJson operationKey
  let row ← ofExcept (newActivityRow source.workflowId source.commandSequence replacementNumber
    command operationKey now (some rootId) (some source.id) now)
  let replacementId ← insertActivity row
  fencedUpdate workflowTable workflow.id
    (fun r => r.status == .blocked && r.waitReferenceId == some source.id)
    fun r => { r.waitOn (.activity replacementId) with
      status := .waitingActivity
      availableAt := now
      errorCategory := none
      errorMessage := none
      updatedAt := now }
  appendOperatorEvent workflow.id
    (if correction.isSome then .activityCorrectedAndRetried else .activityRetried) operator now
  return replacementId

/-- The history `run_schedule_now` records on the workflow that the schedule's
handler started. -/
def recordScheduleRunNow (workflowId : WorkflowId) (operator : Operator) (now : DbMillis) :
    Tx Unit := do
  let workflow ← lockWorkflow workflowId
  appendOperatorEvent workflow.id .scheduleRunNow operator now

/-- `resolve_approval`. -/
def resolveApproval (externals : Externals) (registry : WorkflowRegistry)
    (approvalId : ApprovalId) (decisionJson : String) (operator : Operator) (now : DbMillis) :
    Tx Unit := do
  let actorId ← ofExcept (operatorActorId operator)
  let approval ← findRow approvalTable approvalId
  let approval ← orAbort approval (.notFound "approval" approvalId)
  let workflow ← lockWorkflow approval.workflowId
  ensure (approval.status = .pending)
    (.conflict s!"approval {approvalId} is already {approval.status.asStr}")
  ensure (approval.expiresAt.all fun expiresAt => now < expiresAt)
    (.conflict s!"approval {approvalId} has expired")
  let wait ← ofExcept (if workflow.status.awaitsApproval then workflow.wait else .ok none)
  ensure (wait = some (.approval approvalId) ∧ workflow.kind = approval.kind ∧
      workflow.version = approval.version)
    (.conflict s!"approval {approvalId} no longer matches workflow {workflow.id}")
  let decision ←
    ofExcept (registry.validateApprovalExact workflow.kind workflow.version decisionJson)
  let event : WorkflowEvent := .approvalResolved approval.commandSequence
    ⟨workflow.kind, workflow.version, decision⟩
  ofExcept (ensureSize "approval resolution event" (externals.eventJson event)
    maxEventMetadataBytes)
  let deliverySequence ← orAbort (I32.checkedAdd workflow.deliveredEventSequence 1)
    (.invalidState .deliverySequenceOverflow)
  appendDelivery workflow.id deliverySequence .approvalResolved (some (.event event)) .operator
    (some operator.actorId) (some operator.reason) now
  fencedUpdate approvalTable approval.id (fun r => r.status == .pending)
    fun r => { r with
      status := .resolved
      decisionPayloadJson := some decision
      decidedBy := some actorId
      operatorReason := some operator.reason
      resolvedAt := some now }
  fencedUpdate workflowTable workflow.id
    (fun r => r.status == workflow.status && r.waitReferenceId == some approval.id)
    fun r => { r.waitCleared with
      status := if workflow.status = .paused then .paused else .ready
      availableAt := now, updatedAt := now }

end DurableWorkflows
