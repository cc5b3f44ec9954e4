import DurableWorkflows.Runtime.ActivityWorker

/-!
# Timers and approval expiry

`TimerMaterializer` and `ApprovalExpiryMaterializer`: each delivers the event
of one due timer or one expired approval and clears the wait it answers.
-/

namespace DurableWorkflows

open Transaction

/-- `wait_command_sequence`: the command that a timer or approval wait
answers. -/
def waitCommandSequence (workflow : WorkflowRow) : Except DurableError ℕ := do
  match ← workflow.wait with
  | some (.timer commandSequence) =>
    if commandSequence = workflow.commandSequence then
      return workflow.commandSequence
    else
      throw (.invalidState (.timerReferenceMismatch workflow.id))
  | some (.approval _) => return workflow.commandSequence
  | some (.activity _) | some (.child _) | none =>
    throw (.invalidState (.noTimerOrApprovalWait workflow.id))

/-- `append_delivery_event`. -/
def appendDeliveryEvent (externals : Externals) (workflow : WorkflowRow) (eventType : EventType)
    (event : WorkflowEvent) (now : DbMillis) : Tx Unit := do
  ofExcept (ensureSize "temporal workflow event" (externals.eventJson event) maxEventMetadataBytes)
  let deliverySequence ← orAbort (I32.checkedAdd workflow.deliveredEventSequence 1)
    (.invalidState .deliverySequenceOverflow)
  appendDelivery workflow.id deliverySequence eventType (some (.event event)) .system none none now

theorem key_clearWait (workflow : WorkflowRow) (now : DbMillis) (r : WorkflowRow) :
    Keyed.key ({ r.waitCleared with
      status := if workflow.status = .paused then .paused else .ready
      availableAt := now, updatedAt := now } : WorkflowRow) = Keyed.key r := rfl

/-- `clear_wait`. -/
def clearWait (workflow : WorkflowRow) (now : DbMillis) : Tx Unit :=
  fencedUpdate workflowTable workflow.id
    (fun r => r.status == workflow.status && r.waitKind == workflow.waitKind &&
      r.waitReferenceId == workflow.waitReferenceId)
    (fun r => { r.waitCleared with
      status := if workflow.status = .paused then .paused else .ready
      availableAt := now, updatedAt := now })
    (key_clearWait workflow now)

/-- `TimerMaterializer::materialize_one`. -/
def materializeTimer (externals : Externals) (locked : WorkflowId → Bool) (now : DbMillis) :
    Tx (Option WorkflowId) := do
  let due ← selectRows workflowTable fun r =>
    r.status == .sleeping && r.waitKind == some .timer && r.availableAt ≤ now && !locked r.id
  match (orderBy (·.availableAt) due).head? with
  | none => return none
  | some workflow =>
    let commandSequence ← ofExcept (waitCommandSequence workflow)
    appendDeliveryEvent externals workflow .timerFired (.timerFired commandSequence) now
    clearWait workflow now
    return some workflow.id

/-- The checks of an expired approval against its workflow. -/
def checkExpiredApproval (workflow : WorkflowRow) (approval : ApprovalRow) :
    Except DurableError ℕ := do
  let wait ← (if workflow.status.awaitsApproval then workflow.wait else .ok none)
  if wait = some (.approval approval.id) ∧ workflow.kind = approval.kind ∧
      workflow.version = approval.version then
    let commandSequence ← waitCommandSequence workflow
    if commandSequence = approval.commandSequence then
      return commandSequence
    else
      throw (.invalidState (.approvalCommandMismatch approval.id workflow.id))
  else
    throw (.invalidState (.approvalMismatch approval.id workflow.id))

/-- `ApprovalExpiryMaterializer::materialize_one` for a candidate that an
earlier read found. -/
def materializeApproval (externals : Externals) (approvalId : ApprovalId) (now : DbMillis) :
    Tx (Option ApprovalId) := do
  let approval ← firstRow approvalTable approvalId
  let workflow ← firstRow workflowTable approval.workflowId
  if approval.status = .pending ∧ approval.expiresAt.any (· ≤ now) then
    let commandSequence ← ofExcept (checkExpiredApproval workflow approval)
    appendDeliveryEvent externals workflow .approvalExpired (.approvalExpired commandSequence) now
    fencedUpdate approvalTable approval.id (fun r => r.status == .pending)
      fun r => { r with status := .expired, resolvedAt := some now }
    clearWait workflow now
    return some approval.id
  else
    return none

end DurableWorkflows
