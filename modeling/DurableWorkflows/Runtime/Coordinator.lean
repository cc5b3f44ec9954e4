import DurableWorkflows.Store

/-!
# Workflow coordinator

The coordinator's transactions: the claim with its recovery of an expired lease
(T-C1), the commit of a transition (T-C2) and the activation failure (T-C3).
A claim holds the row as it was read; every write that uses it is fenced by the
lease token it carries.
-/

namespace DurableWorkflows

open Transaction

/-- `CoordinatorConfig`: the bounds the transactions read, in milliseconds. -/
structure CoordinatorConfig where
  leaseDuration : ℕ
  maxActivationAttempts : ℕ
  activationRetryPolicy : RetryPolicy
  maxConsecutiveContinuations : ℕ
  continuationDelay : ℕ

/-- `ClaimedRow`. -/
structure ClaimedRow where
  row : WorkflowRow
  leaseToken : LeaseToken

namespace ClaimedRow

/-- `fenced_workflow!`: the claimed row while the claim holds its lease. -/
def fences (claim : ClaimedRow) (row : WorkflowRow) : Bool :=
  row.status == .running && row.leaseToken == some claim.leaseToken

end ClaimedRow

-- ════════════════════════════════════════════════════════════════════════
-- Claims (T-C1)
-- ════════════════════════════════════════════════════════════════════════

/-- The page size of the claim scans. -/
def claimScanLimit : ℕ := 32

/-- A running row whose lease expired. -/
def leaseExpired (now : DbMillis) (row : WorkflowRow) : Bool :=
  row.status == .running && row.leaseExpiresAt.any (· ≤ now)

/-- Whether a row comes after the cursor in the order of the expired scan. -/
def afterCursor (cursor : Option (DbMillis × WorkflowId)) (row : WorkflowRow) : Bool :=
  match cursor with
  | none => true
  | some (expiry, id) =>
    row.leaseExpiresAt.any fun e => expiry < e || (e == expiry && id < row.id)

/-- Relock candidates in order, skipping the rows other transactions hold, and
return the first that still qualifies. -/
def lockFirst (locked : WorkflowId → Bool) (qualifies : WorkflowRow → Bool) :
    List WorkflowId → Tx (Option WorkflowRow)
  | [] => return none
  | id :: ids => do
    let candidate ← findRow workflowTable id
    match candidate.filter fun row => !locked row.id && qualifies row with
    | some row => return some row
    | none => lockFirst locked qualifies ids

/-- The paged scan for a row with an expired lease. -/
def findExpired (locked : WorkflowId → Bool) (now : DbMillis) :
    ℕ → Option (DbMillis × WorkflowId) → Tx (Option WorkflowRow)
  | 0, _ => abort .outOfFuel
  | fuel + 1, cursor => do
    let expired ← selectRows workflowTable fun r => leaseExpired now r && afterCursor cursor r
    let page := (orderBy (fun r => r.leaseExpiresAt.getD 0) expired).take claimScanLimit
    match page.getLast? with
    | none => return none
    | some last =>
      match ← lockFirst locked (leaseExpired now) (page.map (·.id)) with
      | some row => return some row
      | none =>
        if page.length < claimScanLimit then
          return none
        else
          findExpired locked now fuel (some (last.leaseExpiresAt.getD 0, last.id))

/-- The recovery of an expired lease: the row is ready again. -/
def recoverLease (expired : WorkflowRow) (now : DbMillis) : Tx Unit := do
  fencedUpdate workflowTable expired.id
    (fun r => r.status == .running && r.leaseToken.isSome && r.leaseToken == expired.leaseToken)
    fun r => { r.leaseCleared with status := .ready, availableAt := now, updatedAt := now }
  appendHistory expired.id .leaseRecovered now

/-- The recovery of the row the scan found, if it found one. -/
def recoverExpired (expired : Option WorkflowRow) (now : DbMillis) : Tx Unit :=
  match expired with
  | some expired => recoverLease expired now
  | none => pure ()

/-- A ready row that is due. -/
def readyAt (now : DbMillis) (row : WorkflowRow) : Bool :=
  row.status == .ready && row.availableAt ≤ now

/-- The lease of the first due ready row of a local definition. -/
def claimReady (registry : WorkflowRegistry) (locked : WorkflowId → Bool) (workerId : String)
    (leaseToken : LeaseToken) (leaseExpiresAt now : DbMillis) : Tx (Option ClaimedRow) := do
  let candidates ← selectRows workflowTable fun r =>
    (r.kind, r.version) ∈ registry.definitionKeys && readyAt now r
  let candidates := (orderBy (fun r => r.availableAt) candidates).take claimScanLimit
  match ← lockFirst locked (readyAt now) (candidates.map (·.id)) with
  | none => return none
  | some row =>
    fencedUpdate workflowTable row.id (fun r => r.status == .ready)
      fun r => { r with
        status := .running
        leaseOwner := some workerId
        leaseToken := some leaseToken
        leaseExpiresAt := some leaseExpiresAt
        updatedAt := now }
    return some {
      row := { row with
        status := .running, leaseToken := some leaseToken, leaseExpiresAt := some leaseExpiresAt }
      leaseToken }

/-- `claim_row` (T-C1). `locked` are the rows other transactions hold, and
`leaseToken` is the token the claim draws. -/
def claimRow (config : CoordinatorConfig) (registry : WorkflowRegistry)
    (locked : WorkflowId → Bool) (workerId : String) (leaseToken : LeaseToken) (now : DbMillis) :
    Tx (Option ClaimedRow) := do
  let leaseDurationMillis ← ofExcept (durationMillis config.leaseDuration)
  let leaseExpiresAt ← orAbort (DbMillis.checkedPlusMillis now leaseDurationMillis)
    (.invalidDefinition "workflow lease timestamp overflow")
  let db ← read
  let expired ← findExpired locked now (db.workflows.next + 1) none
  recoverExpired expired now
  claimReady registry locked workerId leaseToken leaseExpiresAt now

-- ════════════════════════════════════════════════════════════════════════
-- Activation
-- ════════════════════════════════════════════════════════════════════════

/-- `decode_event`. -/
def decodeEvent (event : WorkflowEventRow) : Except DurableError WorkflowEvent :=
  match event.eventType with
  | .started => .ok .started
  | .continued => .ok .continued
  | _ =>
    match event.metadata with
    | some (.event event) => .ok event
    | some (.reattached ..) => .error (.invalidPayload "event" "unknown variant")
    | none => .error (.invalidState .eventWithoutMetadata)

/-- The part of `activate_claim_inner` before the step: the event the claim
activates, and what the step receives. -/
def activate (claim : ClaimedRow) : Tx (WorkflowEventRow × WorkflowEvent) := do
  let event ← nextDeliveryEvent claim.row.id claim.row.deliveredEventSequence
  let event ← orAbort event (.invalidState (.noDeliverableEvent claim.row.id))
  let eventInput ← ofExcept (decodeEvent event)
  return (event, eventInput)

-- ════════════════════════════════════════════════════════════════════════
-- Commits (T-C2)
-- ════════════════════════════════════════════════════════════════════════

/-- The columns every commit that leaves the workflow waiting writes. -/
def waitCommitted (claim : ClaimedRow) (stateJson : String) (status : WorkflowStatus)
    (wait : Wait) (command delivered : ℕ) (now : DbMillis) (r : WorkflowRow) : WorkflowRow :=
  { (r.waitOn wait).leaseCleared with
    stateJson
    stateVersion := I32.saturatingAdd claim.row.stateVersion 1
    status
    commandSequence := command
    deliveredEventSequence := delivered
    consecutiveContinuations := 0
    activationAttempts := 0
    errorCategory := none
    errorMessage := none
    updatedAt := now }

/-- `dialect::insert_activity`. -/
def insertActivity (row : ActivityRow) : Tx ActivityId := do
  ensure (0 < row.version) (.database (.checkViolation .activityVersion))
  ensure (0 < row.maxAttempts) (.database (.checkViolation .activityMaxAttempts))
  let duplicates ← selectRows activityTable fun r =>
    r.workflowId == row.workflowId && r.commandSequence == row.commandSequence &&
      r.replacementNumber == row.replacementNumber
  ensure duplicates.isEmpty (.database (.uniqueViolation .activityCommand))
  insertRow activityTable fun id => { row with id }

/-- `dialect::insert_approval`. -/
def insertApproval (row : ApprovalRow) : Tx ApprovalId := do
  ensure (0 < row.version) (.database (.checkViolation .approvalVersion))
  let duplicates ← selectRows approvalTable fun r =>
    r.workflowId == row.workflowId && r.commandSequence == row.commandSequence
  ensure duplicates.isEmpty (.database (.uniqueViolation .approvalCommand))
  insertRow approvalTable fun id => { row with id }

/-- The attempt limit of a command as the column holds it. -/
def attemptLimit (maxAttempts : ℕ) : Except DurableError ℕ :=
  if maxAttempts ≤ I32.max then
    .ok maxAttempts
  else
    .error (.invalidDefinition "activity attempts exceed the database integer range")

/-- The row of an activity that has not run yet; its id is generated on
insert. -/
def newActivityRow (workflowId : WorkflowId) (commandSequence replacementNumber : ℕ)
    (command : ActivityCommand) (operationKey : Option String) (availableAt : DbMillis)
    (rootActivityId replacesActivityId : Option ActivityId) (now : DbMillis) :
    Except DurableError ActivityRow := do
  let maxAttempts ← attemptLimit command.maxAttempts
  let timeoutMillis ← durationMillis command.timeoutMillis
  let leaseDurationMillis ← durationMillis command.leaseDurationMillis
  return {
    id := 0, workflowId, commandSequence, replacementNumber
    kind := command.kind, version := command.version, topic := command.topic
    payloadJson := command.payloadJson, status := .pending, availableAt
    maxAttempts, attemptCount := 0, timeoutMillis, leaseDurationMillis
    retryPolicy := command.retryPolicy.backoff, operationKey
    providerResultJson := none, lastErrorCategory := none, lastErrorMessage := none
    leaseOwner := none, leaseToken := none, leaseExpiresAt := none
    rootActivityId, replacesActivityId, createdAt := now, updatedAt := now, completedAt := none }

/-- `lock_fence`. -/
def lockFence (claim : ClaimedRow) : Tx Unit := do
  let row ← findRow workflowTable claim.row.id
  ensure (row.any claim.fences) .fencedWrite

/-- `StoredTransition::Continue` in `commit_on_connection`. -/
def commitContinue (config : CoordinatorConfig) (claim : ClaimedRow) (delivered : ℕ)
    (stateJson : String) (now : DbMillis) : Tx Unit := do
  let streak := I32.saturatingAdd claim.row.consecutiveContinuations 1
  let fairness := I32.clamp config.maxConsecutiveContinuations ≤ streak
  let delay ← ofExcept (if fairness then durationMillis config.continuationDelay else .ok 0)
  fencedUpdate workflowTable claim.row.id claim.fences
    fun r => { r.leaseCleared with
      stateJson
      stateVersion := I32.saturatingAdd claim.row.stateVersion 1
      status := .ready
      availableAt := if fairness then DbMillis.saturatingPlusMillis now delay else now
      deliveredEventSequence := delivered
      consecutiveContinuations := if fairness then 0 else streak
      activationAttempts := 0
      errorCategory := none
      errorMessage := none
      updatedAt := now }
  appendDelivery claim.row.id (I32.saturatingAdd delivered 1) .continued none .system none none now

/-- `StoredTransition::Complete` in `commit_on_connection`. -/
def commitComplete (claim : ClaimedRow) (delivered : ℕ) (outputJson : String) (now : DbMillis) :
    Tx Unit := do
  fencedUpdate workflowTable claim.row.id claim.fences
    fun r => { r.leaseCleared with
      status := .succeeded
      resultJson := some outputJson
      deliveredEventSequence := delivered
      consecutiveContinuations := 0
      activationAttempts := 0
      errorCategory := none
      errorMessage := none
      updatedAt := now
      completedAt := some now }
  appendHistory claim.row.id .workflowSucceeded now
  wakeWaitingParentsOnChildTerminal claim.row (.ok outputJson) now

/-- `WaitTransition::SleepUntil`. -/
def commitSleep (claim : ClaimedRow) (delivered command : ℕ) (stateJson : String)
    (wakeAtMillis now : DbMillis) : Tx Unit := do
  fencedUpdate workflowTable claim.row.id claim.fences
    fun r => { waitCommitted claim stateJson .sleeping (.timer command) command delivered now r with
      availableAt := wakeAtMillis }
  appendHistory claim.row.id .timerScheduled now

/-- `WaitTransition::WaitForApproval`. -/
def commitApproval (claim : ClaimedRow) (delivered command : ℕ) (stateJson approvalJson : String)
    (expiresAt : Option DbMillis) (now : DbMillis) : Tx Unit := do
  lockFence claim
  let approvalId ← insertApproval {
    id := 0, workflowId := claim.row.id, commandSequence := command, kind := claim.row.kind
    version := claim.row.version, promptMetadataJson := approvalJson
    validationSchemaJson := "\x7b\x7d", validationVersion := 1, status := .pending
    requestedAt := now, expiresAt, decisionPayloadJson := none, decidedBy := none
    operatorReason := none, resolvedAt := none }
  fencedUpdate workflowTable claim.row.id claim.fences
    (waitCommitted claim stateJson .waitingApproval (.approval approvalId) command delivered now)
  appendHistory claim.row.id .approvalRequested now

/-- `commit_activity`. -/
def commitActivity (claim : ClaimedRow) (delivered command : ℕ) (stateJson : String)
    (activity : ActivityCommand) (now : DbMillis) : Tx Unit := do
  lockFence claim
  let row ← ofExcept (newActivityRow claim.row.id command 0 activity activity.operationKey
    (if activity.continuationPriority then continuationReadyAtMillis else now) none none now)
  let activityId ← insertActivity row
  fencedUpdate workflowTable claim.row.id claim.fences
    (waitCommitted claim stateJson .waitingActivity (.activity activityId) command delivered now)
  appendHistory claim.row.id .activityScheduled now

/-- The loop of `is_caller_or_ancestor`. -/
def ancestorFrom (claim : ClaimedRow) (target : WorkflowId) : ℕ → Option WorkflowId → Tx Bool
  | _, none => return false
  | 0, some _ => abort .outOfFuel
  | fuel + 1, some id => do
    if id = target then
      return true
    else
      let row ← if id = claim.row.id then pure claim.row else firstRow workflowTable id
      ancestorFrom claim target fuel (row.parentWorkflowId.or row.restartedFromWorkflowId)

/-- `is_caller_or_ancestor`. -/
def isCallerOrAncestor (claim : ClaimedRow) (target : WorkflowId) : Tx Bool := do
  let db ← read
  ancestorFrom claim target (db.workflows.next + 1) (some claim.row.id)

/-- The outcome a child that is already terminal delivers. -/
def terminalOutcome (existing : WorkflowRow) : Option ChildOutcome :=
  match existing.status with
  | .succeeded => some (.ok (existing.resultJson.getD "null"))
  | .failed => some (.error
      (existing.errorCategory.getD "failed", existing.errorMessage.getD "child workflow failed"))
  | .cancelled => some (.error ("child_cancelled", "child workflow was cancelled"))
  | .ready | .running | .waitingActivity | .waitingChild | .sleeping | .waitingApproval | .paused
  | .blocked => none

/-- The delivery of an outcome that the child already had when the parent
attached to it. -/
def deliverExistingOutcome (outcome : ChildStart) (now : DbMillis) : Tx Unit :=
  match outcome with
  | .inserted _ => pure ()
  | .existing existing =>
    match terminalOutcome existing with
    | some terminal => wakeWaitingParentsOnChildTerminal existing terminal now
    | none => pure ()

/-- `commit_child` with `set_child_wait`. -/
def commitChild (claim : ClaimedRow) (delivered command : ℕ) (stateJson : String)
    (child : ChildWorkflowCommand) (now : DbMillis) : Tx Unit := do
  let deduplicationKey := child.deduplicationKey.getD (ownedChildKey claim.row.id command)
  let rootId := claim.row.rootWorkflowId.getD claim.row.id
  let outcome ← insertChild child deduplicationKey claim.row.id command rootId now
  let ancestor ←
    if outcome.isInserted then pure false else isCallerOrAncestor claim outcome.workflowId
  ensure (ancestor = false) (.invalidDefinition
    s!"child key {deduplicationKey} resolves to workflow {outcome.workflowId}, which is the caller or an ancestor")
  fencedUpdate workflowTable claim.row.id claim.fences
    (waitCommitted claim stateJson .waitingChild (.child outcome.workflowId) command delivered now)
  appendHistory claim.row.id .childWorkflowScheduled now
  deliverExistingOutcome outcome now

/-- `commit_on_connection` (T-C2) with `commit_wait_transition`. -/
def commitOnConnection (config : CoordinatorConfig) (claim : ClaimedRow) (event : WorkflowEventRow)
    (transition : StoredTransition) (now : DbMillis) : Tx Unit := do
  let delivered ← orAbort event.deliverySequence (.invalidState .nonDeliverableHistory)
  let command := I32.saturatingAdd claim.row.commandSequence 1
  match transition with
  | .continue stateJson => commitContinue config claim delivered stateJson now
  | .complete outputJson => commitComplete claim delivered outputJson now
  | .sleepUntil stateJson wakeAtMillis =>
    commitSleep claim delivered command stateJson wakeAtMillis now
  | .waitForApproval stateJson approvalJson expiresAtMillis =>
    commitApproval claim delivered command stateJson approvalJson expiresAtMillis now
  | .runActivity stateJson activity => commitActivity claim delivered command stateJson activity now
  | .runChild stateJson child => commitChild claim delivered command stateJson child now

-- ════════════════════════════════════════════════════════════════════════
-- Activation failures (T-C3)
-- ════════════════════════════════════════════════════════════════════════

/-- `record_activation_failure` (T-C3). -/
def recordActivationFailure (externals : Externals) (config : CoordinatorConfig)
    (claim : ClaimedRow) (message : String) (now : DbMillis) : Tx Unit := do
  let current ← findRow workflowTable claim.row.id
  let current ← orAbort (current.filter claim.fences) .fencedWrite
  let attempt := I32.saturatingAdd current.activationAttempts 1
  let maxActivation := min current.maxActivationAttempts (I32.clamp config.maxActivationAttempts)
  let exhausted := maxActivation ≤ attempt
  let jitterPercentile :=
    externals.jitterPercentile s!"workflow:{current.id}:activation:{attempt}"
  let delay ← ofExcept (config.activationRetryPolicy.delayForAttempt attempt jitterPercentile)
  let delayMillis ← ofExcept (durationMillis (delay * 1000))
  let category := truncateUtf8 "activation" 64
  let message := truncateUtf8 message maxErrorReasonBytes
  fencedUpdate workflowTable current.id claim.fences
    fun r => { r.leaseCleared with
      status := if exhausted then .failed else .ready
      activationAttempts := attempt
      availableAt := DbMillis.saturatingPlusMillis now delayMillis
      errorCategory := some category
      errorMessage := some message
      updatedAt := now
      completedAt := if exhausted then some now else none }
  appendHistory current.id (if exhausted then .activationExhausted else .activationFailed) now
  onlyIf exhausted (wakeWaitingParentsOnChildTerminal current (.error (category, message)) now)

end DurableWorkflows
