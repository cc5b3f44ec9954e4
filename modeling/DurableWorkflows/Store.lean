import DurableWorkflows.Persistence.Workflows

/-!
# Starting and cancelling workflows

The application transactions: a plain start (T-X1), a recoverable start (T-X2)
and a cancel with its cascade over owned children (T-X3), and the child insert
of a coordinator's commit.

The loops of the source that follow restart chains and cancelled descendants
take a fuel here; both callers pass one more than the number of rows, and the
transactions are shown never to run out of it.
-/

namespace DurableWorkflows

open Transaction

/-- `DEFAULT_MAX_ACTIVATION_ATTEMPTS`. -/
def defaultMaxActivationAttempts : ℕ := 8

/-- `MAX_DEDUPLICATION_KEY_CHARS`. -/
def maxDeduplicationKeyChars : ℕ := 191

/-- `StartLineage`. -/
inductive StartLineage
  | fresh
  | deduplicated (key : String)
  | restart (root source : WorkflowId)

/-- `StartOptions`. -/
structure StartOptions where
  availableAt : Option DbMillis
  scheduleRunId : Option ScheduleRunId
  lineage : StartLineage

namespace StartOptions

/-- `StartOptions::deduplication_key`. -/
def deduplicationKey (options : StartOptions) : Option String :=
  match options.lineage with
  | .deduplicated key => some key
  | .fresh | .restart .. => none

/-- `StartOptions::root_workflow_id`. -/
def rootWorkflowId (options : StartOptions) : Option WorkflowId :=
  match options.lineage with
  | .restart root _ => some root
  | .fresh | .deduplicated _ => none

/-- `StartOptions::restarted_from_workflow_id`. -/
def restartedFromWorkflowId (options : StartOptions) : Option WorkflowId :=
  match options.lineage with
  | .restart _ source => some source
  | .fresh | .deduplicated _ => none

/-- `StartOptions::restarted`. -/
def restarted (options : StartOptions) (root source : WorkflowId) : StartOptions :=
  { options with lineage := .restart root source }

end StartOptions

/-- The options an application can pass: a restart lineage is set only by the
engine. -/
structure ApplicationStartOptions where
  availableAt : Option DbMillis
  scheduleRunId : Option ScheduleRunId
  deduplicationKey : Option String

/-- The engine's form of application options. -/
def ApplicationStartOptions.toStartOptions (options : ApplicationStartOptions) : StartOptions where
  availableAt := options.availableAt
  scheduleRunId := options.scheduleRunId
  lineage := match options.deduplicationKey with
    | some key => .deduplicated key
    | none => .fresh

/-- `StartOutcome`. -/
structure StartOutcome where
  workflowId : WorkflowId
  inserted : Bool
  deriving DecidableEq, Repr

-- ════════════════════════════════════════════════════════════════════════
-- Starts
-- ════════════════════════════════════════════════════════════════════════

/-- `validate_options`. -/
def validateOptions (options : StartOptions) : Except DurableError Unit :=
  match options.deduplicationKey with
  | some key =>
    if key.length = 0 ∨ maxDeduplicationKeyChars < key.length then
      .error (.invalidDefinition
        s!"workflow deduplication key must contain 1 to {maxDeduplicationKeyChars} characters")
    else
      .ok ()
  | none => .ok ()

/-- `validate_definition`. -/
def validateDefinition (kind : String) (version : ℤ) : Except DurableError Unit :=
  if kind.length = 0 ∨ version ≤ 0 then
    .error (.invalidDefinition "workflow kind must be non-empty and version must be positive")
  else
    .ok ()

/-- `prepare_start` of a handler whose serialized input and initial state are
those of `workflow`. -/
def prepareStart (workflow : PreparedWorkflowStart) (options : StartOptions) :
    Except DurableError Unit := do
  validateDefinition workflow.kind workflow.version
  validateOptions options
  ensureSize "workflow input" workflow.inputJson maxInputStatePayloadBytes
  ensureSize "workflow state" workflow.stateJson maxInputStatePayloadBytes

/-- `check_prepared_start`. -/
def checkPreparedStart (prepared : PreparedWorkflowStart) (options : StartOptions) :
    Except DurableError Unit := do
  validateOptions options
  ensureSize "workflow input" prepared.inputJson maxInputStatePayloadBytes
  ensureSize "workflow state" prepared.stateJson maxInputStatePayloadBytes

/-- The row of a workflow that has not run yet; its id is generated on
insert. -/
def newWorkflowRow (kind : String) (version : ℤ) (inputJson stateJson : String)
    (availableAt now : DbMillis) : WorkflowRow where
  id := 0
  kind := kind
  version := version
  inputJson := inputJson
  stateJson := stateJson
  stateVersion := 1
  status := .ready
  resultJson := none
  errorCategory := none
  errorMessage := none
  waitKind := none
  waitReferenceId := none
  availableAt := availableAt
  activationAttempts := 0
  maxActivationAttempts := defaultMaxActivationAttempts
  consecutiveContinuations := 0
  leaseOwner := none
  leaseToken := none
  leaseExpiresAt := none
  deduplicationKey := none
  scheduleRunId := none
  rootWorkflowId := none
  restartedFromWorkflowId := none
  parentWorkflowId := none
  parentCommandSequence := none
  commandSequence := 0
  deliveredEventSequence := 0
  createdAt := now
  updatedAt := now
  completedAt := none

/-- The row `insert_prepared_untraced` inserts. -/
def preparedRow (workflow : PreparedWorkflowStart) (options : StartOptions) (now : DbMillis) :
    WorkflowRow :=
  { newWorkflowRow workflow.kind workflow.version workflow.inputJson workflow.stateJson
      (options.availableAt.getD now) now with
    deduplicationKey := options.deduplicationKey
    scheduleRunId := options.scheduleRunId
    rootWorkflowId := options.rootWorkflowId
    restartedFromWorkflowId := options.restartedFromWorkflowId }

/-- The row a keyed start finds before it inserts. -/
def findStarted (kind : String) (key : Option String) : Tx (Option WorkflowRow) :=
  match key with
  | some key => findByDeduplicationKey kind key
  | none => pure none

/-- `insert_prepared_untraced`. -/
def insertPrepared (workflow : PreparedWorkflowStart) (options : StartOptions) (now : DbMillis) :
    Tx StartOutcome := do
  match ← findStarted workflow.kind options.deduplicationKey with
  | some existing => return ⟨existing.id, false⟩
  | none =>
    match ← insertStarted (preparedRow workflow options now) now with
    | .inserted id => return ⟨id, true⟩
    | .existing existing => return ⟨existing.id, false⟩

/-- `start` and `start_with_conn` (T-X1). -/
def start (workflow : PreparedWorkflowStart) (options : ApplicationStartOptions)
    (now : DbMillis) : Tx StartOutcome := do
  ofExcept (prepareStart workflow options.toStartOptions)
  insertPrepared workflow options.toStartOptions now

/-- `start_prepared_with_conn`. -/
def startPrepared (prepared : PreparedWorkflowStart) (options : ApplicationStartOptions)
    (now : DbMillis) : Tx StartOutcome := do
  ofExcept (checkPreparedStart prepared options.toStartOptions)
  insertPrepared prepared options.toStartOptions now

-- ════════════════════════════════════════════════════════════════════════
-- Restart chains
-- ════════════════════════════════════════════════════════════════════════

/-- `lock_successor`. -/
def lockSuccessor (row : WorkflowRow) : Tx (Option WorkflowRow) := do
  let successors ← selectRows workflowTable fun r => r.restartedFromWorkflowId == some row.id
  return successors.head?

/-- The loop of `lock_newest_generation`. -/
def newestGenerationFrom : ℕ → WorkflowRow → Tx WorkflowRow
  | 0, _ => abort .outOfFuel
  | fuel + 1, current => do
    match ← lockSuccessor current with
    | some successor => newestGenerationFrom fuel successor
    | none => return current

/-- `lock_newest_generation`. -/
def lockNewestGeneration (row : WorkflowRow) : Tx WorkflowRow := do
  let db ← read
  newestGenerationFrom (db.workflows.next + 1) row

-- ════════════════════════════════════════════════════════════════════════
-- Children
-- ════════════════════════════════════════════════════════════════════════

/-- `ChildStart`. -/
inductive ChildStart
  | inserted (id : WorkflowId)
  | existing (row : WorkflowRow)

namespace ChildStart

/-- `ChildStart::workflow_id`. -/
def workflowId : ChildStart → WorkflowId
  | inserted id => id
  | existing row => row.id

/-- `ChildStart::inserted`. -/
def isInserted : ChildStart → Bool
  | inserted _ => true
  | existing _ => false

end ChildStart

/-- The key the engine generates for a child without a domain key. -/
def ownedChildKey (parentId : WorkflowId) (command : ℕ) : String := s!"child:{parentId}:{command}"

/-- The row `insert_new_child` inserts. -/
def newChildRow (child : ChildWorkflowCommand) (deduplicationKey : String)
    (parentId : WorkflowId) (parentCommandSequence : ℕ) (rootId : WorkflowId) (now : DbMillis) :
    WorkflowRow :=
  { newWorkflowRow child.kind child.version child.inputJson child.stateJson now now with
    deduplicationKey := some deduplicationKey
    rootWorkflowId := some rootId
    parentWorkflowId := some parentId
    parentCommandSequence := some parentCommandSequence }

/-- The newest generation of the keyed row, whose version must be the
command's. -/
def existingChild (child : ChildWorkflowCommand) (keyed : WorkflowRow) : Tx ChildStart := do
  let existing ← lockNewestGeneration keyed
  ensure (existing.version = child.version)
    (.definitionMismatch existing.kind existing.version child.kind child.version)
  return .existing existing

/-- `insert_child`. -/
def insertChild (child : ChildWorkflowCommand) (deduplicationKey : String)
    (parentId : WorkflowId) (parentCommandSequence : ℕ) (rootId : WorkflowId) (now : DbMillis) :
    Tx ChildStart := do
  ensure (0 < deduplicationKey.length ∧ deduplicationKey.length ≤ maxDeduplicationKeyChars)
    (.invalidDefinition
      s!"child workflow deduplication key must contain 1 to {maxDeduplicationKeyChars} characters")
  match ← findByDeduplicationKey child.kind deduplicationKey with
  | some keyed =>
    let keyed ← firstRow workflowTable keyed.id
    existingChild child keyed
  | none =>
    match ← insertStarted
        (newChildRow child deduplicationKey parentId parentCommandSequence rootId now) now with
    | .inserted id => return .inserted id
    | .existing keyed => existingChild child keyed

-- ════════════════════════════════════════════════════════════════════════
-- Cancels
-- ════════════════════════════════════════════════════════════════════════

/-- An update of the open attempt `number` of an activity under `leaseToken`
that must change exactly one row. -/
def updateOpenAttempt (activityId : ActivityId) (number : ℕ) (leaseToken : LeaseToken)
    (f : ActivityAttemptRow → ActivityAttemptRow) : Tx Unit := do
  let db ← read
  let attempt := (db.attempts activityId number).filter fun a =>
    a.leaseToken == leaseToken && a.finishedAt.isNone
  let attempt ← orAbort attempt .fencedWrite
  modify fun db => { db with
    attempts := fun i n => if i = activityId ∧ n = number then some (f attempt) else db.attempts i n }

/-- `close_attempt`. -/
def closeAttempt (activity : ActivityRow) (outcome : AttemptOutcome) (reason : String)
    (now : DbMillis) : Tx Unit := do
  let leaseToken ← orAbort activity.leaseToken
    (.invalidState (.noLeaseToken .running activity.id))
  updateOpenAttempt activity.id activity.attemptCount leaseToken fun a => { a with
    finishedAt := some now, outcome := some outcome
    errorCategory := some outcome.asStr, errorMessage := some reason }

/-- The cancel of one non-terminal activity. -/
def cancelActivity (activity : ActivityRow) (reason : String) (attemptOutcome : AttemptOutcome)
    (now : DbMillis) : Tx Unit := do
  match activity.status with
  | .running | .cancelling =>
    let leaseToken ← orAbort activity.leaseToken
      (.invalidState (.noLeaseToken activity.status activity.id))
    fencedUpdate activityTable activity.id
      (fun r => r.status == activity.status && r.attemptCount == activity.attemptCount &&
        r.leaseToken == some leaseToken)
      fun r => { r with
        status := .cancelling
        lastErrorCategory := some attemptOutcome.asStr
        lastErrorMessage := some reason
        updatedAt := now }
  | .pending =>
    fencedUpdate activityTable activity.id (fun r => r.status == .pending)
      fun r => { r.leaseCleared with
        status := .cancelled, updatedAt := now, completedAt := some now }
  | .succeeded | .deadLettered | .cancelled =>
    abort (.invalidState (.cancelledTerminal activity.id activity.status))

/-- `cancel_activities`. -/
def cancelActivities (workflowId : WorkflowId) (reason : String) (attemptOutcome : AttemptOutcome)
    (now : DbMillis) : Tx Unit := do
  let activities ← selectRows activityTable fun r =>
    r.workflowId == workflowId && !r.status.isTerminal
  forEach activities fun activity => cancelActivity activity reason attemptOutcome now

/-- `cancel_approvals`. -/
def cancelApprovals (workflowId : WorkflowId) (reason : String) (now : DbMillis) : Tx Unit := do
  let approvals ← selectRows approvalTable fun r =>
    r.workflowId == workflowId && r.status == .pending
  forEach approvals fun approval =>
    fencedUpdate approvalTable approval.id (fun r => r.status == .pending)
      fun r => { r with
        status := .cancelled, operatorReason := some reason, resolvedAt := some now }

/-- `cancel_one_workflow`. -/
def cancelOneWorkflow (workflow : WorkflowRow) (reason : String) (operatorId : Option String)
    (now : DbMillis) : Tx Unit := do
  let attemptOutcome : AttemptOutcome :=
    if operatorId.isSome then .operatorCancelled else .applicationCancelled
  cancelActivities workflow.id reason attemptOutcome now
  cancelApprovals workflow.id reason now
  fencedUpdate workflowTable workflow.id (fun r => r.status == workflow.status)
    fun r => { r.waitCleared.leaseCleared with
      status := .cancelled, updatedAt := now, completedAt := some now }
  appendHistoryEvent workflow.id .workflowCancelled
    (if operatorId.isSome then .operator else .system) operatorId (some reason) none now
  wakeWaitingParentsOnChildTerminal workflow (.error ("child_cancelled", reason)) now

/-- `owned_children`: the children that carry the key the engine generated for
them. The `LIKE` filter of the query is implied by the equality. -/
def ownedChildren (parentId : WorkflowId) : Tx (List WorkflowId) := do
  let rows ← selectRows workflowTable fun r =>
    r.parentWorkflowId == some parentId &&
      r.parentCommandSequence.any fun c => r.deduplicationKey == some (ownedChildKey parentId c)
  return rows.map (·.id)

/-- The inner loop of `cancel_owned_descendants`: cancel every non-terminal
generation of a child, and push each cancelled one. -/
def cancelGenerations (reason : String) (operatorId : Option String) (now : DbMillis) :
    ℕ → WorkflowRow → List (WorkflowId × String) → Tx (List (WorkflowId × String))
  | 0, _, _ => abort .outOfFuel
  | fuel + 1, generation, parents => do
    let parents ← if generation.status.isTerminal then
        pure parents
      else do
        cancelOneWorkflow generation reason operatorId now
        pure ((generation.id, reason) :: parents)
    match ← lockSuccessor generation with
    | some successor => cancelGenerations reason operatorId now fuel successor parents
    | none => return parents

/-- The cancel of one owned child and its generations. -/
def cancelOwnedChild (reason : String) (operatorId : Option String) (now : DbMillis)
    (parents : List (WorkflowId × String)) (childId : WorkflowId) :
    Tx (List (WorkflowId × String)) := do
  let generation ← firstRow workflowTable childId
  let db ← read
  cancelGenerations reason operatorId now (db.workflows.next + 1) generation parents

/-- The reason a cascade passes on. -/
def cascadeReason (parentId : WorkflowId) (parentReason : String) : String :=
  truncateUtf8 s!"parent workflow {parentId} cancelled: {parentReason}" maxErrorReasonBytes

/-- The work list of `cancel_owned_descendants`; its head is the top of the
source's stack. -/
def cancelDescendantsOf (operatorId : Option String) (now : DbMillis) :
    ℕ → List (WorkflowId × String) → Tx Unit
  | _, [] => pure ()
  | 0, _ :: _ => abort .outOfFuel
  | fuel + 1, (parentId, parentReason) :: parents => do
    let children ← ownedChildren parentId
    let parents ← foldEach children parents
      (cancelOwnedChild (cascadeReason parentId parentReason) operatorId now)
    cancelDescendantsOf operatorId now fuel parents

/-- `cancel_owned_descendants`. -/
def cancelOwnedDescendants (parentId : WorkflowId) (reason : String) (operatorId : Option String)
    (now : DbMillis) : Tx Unit := do
  let db ← read
  cancelDescendantsOf operatorId now (db.workflows.next + 1) [(parentId, reason)]

/-- `cancel_locked_workflow`. -/
def cancelLockedWorkflow (workflow : WorkflowRow) (reason : String) (operatorId : Option String)
    (now : DbMillis) : Tx Unit := do
  cancelOneWorkflow workflow reason operatorId now
  cancelOwnedDescendants workflow.id reason operatorId now

/-- `char::is_whitespace`. -/
def isWhitespace (c : Char) : Bool :=
  (9 ≤ c.val && c.val ≤ 13) || c.val == 32 || c.val == 0x85 || c.val == 0xA0 || c.val == 0x1680 ||
    (0x2000 ≤ c.val && c.val ≤ 0x200A) || c.val == 0x2028 || c.val == 0x2029 || c.val == 0x202F ||
    c.val == 0x205F || c.val == 0x3000

/-- `str::trim`. -/
def trim (value : String) : String :=
  String.ofList ((value.toList.dropWhile isWhitespace).reverse.dropWhile isWhitespace).reverse

-- what a cancel does depends on the trimmed reason only through its length
attribute [irreducible] trim

/-- `cancel_with_conn` (T-X3). -/
def cancel (workflowId : WorkflowId) (reason : String) (now : DbMillis) : Tx Unit := do
  let reason := trim reason
  ensure (reason.utf8ByteSize ≠ 0 ∧ reason.utf8ByteSize ≤ maxErrorReasonBytes)
    (.invalidDefinition s!"cancellation reason must contain 1 to {maxErrorReasonBytes} bytes")
  let workflow ← findRow workflowTable workflowId
  let workflow ← orAbort workflow (.notFound "workflow" workflowId)
  onlyIf (¬workflow.status.isTerminal) (cancelLockedWorkflow workflow reason none now)

-- ════════════════════════════════════════════════════════════════════════
-- Recoverable starts
-- ════════════════════════════════════════════════════════════════════════

/-- `SUPERSEDED_BY_RECOVERY`. -/
def supersededByRecovery : String := "a successor recovery generation was started"

/-- The move of one parent's wait to the successor. -/
def reattachParent (superseded : WorkflowRow) (successor : WorkflowId) (now : DbMillis)
    (parent : WorkflowRow) : Tx Unit := do
  fencedUpdate workflowTable parent.id
    (fun r => r.status == parent.status && r.waitKind == some .child &&
      r.waitReferenceId == some superseded.id)
    fun r => { r.waitOn (.child successor) with updatedAt := now }
  appendHistoryEvent parent.id .childWaitReattached .system none
    (some s!"child workflow {superseded.id} was superseded by recovery generation {successor}")
    (some (.reattached superseded.id successor)) now

/-- `hand_waiting_parents_to_successor`. -/
def handWaitingParentsToSuccessor (superseded : WorkflowRow) (successor : WorkflowId)
    (successorVersion : ℤ) (now : DbMillis) : Tx Unit := do
  if successorVersion = superseded.version then
    let parents ← waitingParents superseded.id
    forEach parents (reattachParent superseded successor now)
  else
    wakeWaitingParentsOnChildTerminal superseded
      (.error ("child_superseded",
        s!"child workflow {superseded.id} was superseded by recovery generation {successor} at version {successorVersion}"))
      now

/-- The supersession of a blocked newest generation. -/
def supersedeBlocked (latest : WorkflowRow) (successor : WorkflowId) (successorVersion : ℤ)
    (now : DbMillis) : Tx Unit := do
  fencedUpdate workflowTable latest.id (fun r => r.status == .blocked)
    fun r => { r.leaseCleared with
      status := .cancelled, updatedAt := now, completedAt := some now }
  appendHistoryEvent latest.id .workflowSupersededByRecovery .system none
    (some supersededByRecovery) none now
  handWaitingParentsToSuccessor latest successor successorVersion now
  cancelOwnedDescendants latest.id supersededByRecovery none now

/-- The dead letters of a superseded generation become cancelled. -/
def cancelDeadLetters (workflowId : WorkflowId) (now : DbMillis) : Tx Unit :=
  updateRows activityTable (fun r => r.workflowId == workflowId && r.status == .deadLettered)
    fun r => { r.leaseCleared with
      status := .cancelled, updatedAt := now, completedAt := some now }

/-- `recoverable_start_in` (T-X2). -/
def recoverableStartIn (workflow : PreparedWorkflowStart) (options : StartOptions)
    (now : DbMillis) : Tx StartOutcome := do
  match options.deduplicationKey with
  | none => insertPrepared workflow options now
  | some key =>
    match ← findByDeduplicationKey workflow.kind key with
    | none => insertPrepared workflow options now
    | some original =>
      let latest ← lockNewestGeneration original
      if latest.status.isStartRecoverable then
        -- The successor goes in first: a restart-key conflict rolls back
        -- before anything else is written.
        let successor ← insertPrepared workflow
          (options.restarted (original.rootWorkflowId.getD original.id) latest.id) now
        cancelDeadLetters latest.id now
        onlyIf (latest.status = .blocked)
          (supersedeBlocked latest successor.workflowId workflow.version now)
        return successor
      else
        return ⟨latest.id, false⟩

/-- `start_or_restart_recoverable` and its `_with_conn` form. -/
def startOrRestartRecoverable (workflow : PreparedWorkflowStart)
    (options : ApplicationStartOptions) (now : DbMillis) : Tx StartOutcome := do
  ofExcept (prepareStart workflow options.toStartOptions)
  recoverableStartIn workflow options.toStartOptions now

end DurableWorkflows
