import DurableWorkflows.Runtime.Coordinator

/-!
# Activity worker

The worker's transactions: the claim of activities with the reconciliation of
expired leases (T-W1), the lease renewal (T-W2), the finish of an attempt
(T-W3) and the progress report (T-W4). A revoked attempt stays `cancelling`,
with its lease and its topic slot, until its handler stops or its lease
expires; `settleRevoked` then closes it.
-/

namespace DurableWorkflows

open Transaction

/-- `ActivityClaim`. -/
structure ActivityClaim where
  row : ActivityRow
  scheduleRunId : Option ScheduleRunId
  attemptNumber : ℕ
  leaseToken : LeaseToken
  retryPolicy : RetryPolicy

namespace ActivityClaim

/-- `leased_activity!`: the claim's attempt while it holds its lease. -/
def leases (claim : ActivityClaim) (row : ActivityRow) : Bool :=
  row.status.holdsLease && row.attemptCount == claim.attemptNumber &&
    row.leaseToken == some claim.leaseToken

/-- `fenced_activity!`: the claim's attempt while it is running. -/
def fences (claim : ActivityClaim) (row : ActivityRow) : Bool :=
  row.status == .running && row.attemptCount == claim.attemptNumber &&
    row.leaseToken == some claim.leaseToken

end ActivityClaim

/-- The rows that other transactions hold while a claim runs. -/
structure HeldLocks where
  workflows : WorkflowId → Bool
  activities : ActivityId → Bool
  topics : String → Bool

/-- `TopicDefinition`. -/
structure TopicDefinition where
  key : String
  maxConcurrency : ℕ

/-- `CLAIM_CANDIDATE_SCAN_LIMIT`. -/
def claimCandidateScanLimit : ℕ := 32

/-- `INVALID_ROW_CATEGORY`. -/
def invalidRowCategory : String := "invalid_row"

/-- `append_activity_history`. -/
def appendActivityHistory (row : ActivityRow) (eventType : EventType) (reason : String)
    (now : DbMillis) : Tx Unit :=
  appendHistoryEvent row.workflowId eventType .system none (some reason) none now

/-- Whether a workflow row waits for an activity as the worker's fences see
it. -/
def waitsForActivity (activityId : ActivityId) (row : WorkflowRow) : Bool :=
  row.status == .waitingActivity && row.waitReferenceId == some activityId

-- ════════════════════════════════════════════════════════════════════════
-- The workflow of an activity
-- ════════════════════════════════════════════════════════════════════════

/-- `wake_workflow`. -/
def wakeWorkflow (claim : ActivityClaim) (output : String) (now : DbMillis) : Tx Unit := do
  let workflow ← firstRow workflowTable claim.row.workflowId
  ensure (waitsForActivity claim.row.id workflow) .fencedWrite
  let result ← ofExcept (StepResult.newActivity claim.row.kind claim.row.version output)
  appendDelivery claim.row.workflowId (I32.saturatingAdd workflow.deliveredEventSequence 1)
    .activitySucceeded (some (.event (.activitySucceeded claim.row.commandSequence result)))
    .system none none now
  fencedUpdate workflowTable claim.row.workflowId (waitsForActivity claim.row.id)
    fun r => { r.waitCleared with status := .ready, availableAt := now, updatedAt := now }

/-- `block_workflow`. -/
def blockWorkflow (row : ActivityRow) (category message : String) (now : DbMillis) : Tx Unit := do
  fencedUpdate workflowTable row.workflowId (waitsForActivity row.id)
    fun r => { r with
      status := .blocked
      errorCategory := some category
      errorMessage := some message
      updatedAt := now }
  appendHistoryEvent row.workflowId .activityDeadLettered .system none (some message) none now

-- ════════════════════════════════════════════════════════════════════════
-- Reconciliation of expired leases
-- ════════════════════════════════════════════════════════════════════════

/-- `settle_revoked`. -/
def settleRevoked (row : ActivityRow) (attemptOutcome : AttemptOutcome) (message : String)
    (now : DbMillis) : Tx Unit := do
  let leaseToken ← orAbort row.leaseToken (.invalidState (.noLeaseToken .cancelling row.id))
  let workflow ← firstRow workflowTable row.workflowId
  closeAttempt row attemptOutcome message now
  fencedUpdate activityTable row.id
    (fun r => r.status == .cancelling && r.attemptCount == row.attemptCount &&
      r.leaseToken == some leaseToken)
    fun r => { r.leaseCleared with
      status := if workflow.status.isTerminal then .cancelled else .pending
      availableAt := if workflow.status.isTerminal then row.availableAt else now
      updatedAt := now
      completedAt := if workflow.status.isTerminal then some now else none }
  appendActivityHistory row .activityRevokeSettled message now

/-- A lease holder of a topic whose lease expired. -/
def expiredHolder (topic : String) (now : DbMillis) (row : ActivityRow) : Bool :=
  row.topic == topic && row.status.holdsLease && row.leaseExpiresAt.all (· ≤ now)

/-- When a running row whose lease expired may be claimed again. -/
def recoveryAvailableAt (externals : Externals) (row : ActivityRow) (exhausted : Bool)
    (now : DbMillis) : Except DurableError DbMillis :=
  if exhausted then
    .ok now
  else
    match RetryPolicy.validated row.retryPolicy with
    | .error _ => .ok now
    | .ok retryPolicy => do
      let jitterPercentile :=
        externals.jitterPercentile s!"activity:{row.id}:lease_recovery:{row.attemptCount}"
      let delay ← retryPolicy.delayForAttempt row.attemptCount jitterPercentile
      let delayMillis ← durationMillis (delay * 1000)
      return DbMillis.saturatingPlusMillis now delayMillis

/-- The expiry transition of a running row. -/
def expireRunning (externals : Externals) (workflow : WorkflowRow) (row : ActivityRow)
    (now : DbMillis) : Tx Unit := do
  let leaseToken ← orAbort row.leaseToken (.invalidState (.noLeaseToken .running row.id))
  let exhausted : Bool := row.maxAttempts ≤ row.attemptCount
  let availableAt ← ofExcept (recoveryAvailableAt externals row exhausted now)
  fencedUpdate activityTable row.id
    (fun r => r.status == .running && r.attemptCount == row.attemptCount &&
      r.leaseToken == some leaseToken)
    fun r => { r.leaseCleared with
      status := if exhausted then .deadLettered else .pending
      availableAt
      lastErrorCategory := some "lease_expired"
      lastErrorMessage := some "activity lease expired"
      updatedAt := now
      completedAt := if exhausted then some now else none }
  updateOpenAttempt row.id row.attemptCount leaseToken fun a => { a with
    finishedAt := some now, outcome := some .leaseExpired
    errorCategory := some AttemptOutcome.leaseExpired.asStr
    errorMessage := some "activity lease expired" }
  appendActivityHistory row .activityLeaseExpired "activity lease expired" now
  onlyIf (exhausted ∧ waitsForActivity row.id workflow)
    (blockWorkflow row "lease_expired" "activity lease expired" now)

/-- One candidate of `reconcile_expired`; the result is whether it stays
unsettled because its workflow row is held. -/
def reconcileCandidate (externals : Externals) (locks : HeldLocks) (topic : String)
    (now : DbMillis) (candidate : ActivityRow) : Tx Bool := do
  let workflow ← findRow workflowTable candidate.workflowId
  match workflow.filter fun w => !locks.workflows w.id with
  | none => return true
  | some workflow =>
    let row ← findRow activityTable candidate.id
    match row.filter (expiredHolder topic now) with
    | none => return false
    | some row =>
      match row.status with
      | .running =>
        expireRunning externals workflow row now
        return false
      | .cancelling =>
        settleRevoked row .leaseExpired "activity lease expired" now
        return false
      | .pending | .succeeded | .deadLettered | .cancelled =>
        abort (.invalidState (.reconciledWithoutLease row.id row.status))

/-- `reconcile_expired`: the expired lease holders it left unsettled. -/
def reconcileExpired (externals : Externals) (locks : HeldLocks) (topic : String)
    (now : DbMillis) : Tx (List ActivityId) := do
  let candidates ← selectRows activityTable (expiredHolder topic now)
  foldEach candidates [] fun unsettled candidate => do
    let skipped ← reconcileCandidate externals locks topic now candidate
    return if skipped then unsettled ++ [candidate.id] else unsettled

/-- `TopicReconciled::in_flight`. -/
def inFlight (topic : String) (unsettled : List ActivityId) (now : DbMillis) : Tx ℕ := do
  let rows ← selectRows activityTable fun r =>
    r.topic == topic && r.status.holdsSlot &&
      (r.leaseExpiresAt.any (now < ·) || r.id ∈ unsettled)
  return rows.length

-- ════════════════════════════════════════════════════════════════════════
-- Claims (T-W1)
-- ════════════════════════════════════════════════════════════════════════

/-- `quarantine_candidate`. -/
def quarantineCandidate (row : ActivityRow) (reason message : String) (now : DbMillis) :
    Tx Unit := do
  let message := s!"{reason}: {message}"
  fencedUpdate activityTable row.id
    (fun r => r.status == .pending && r.attemptCount == row.attemptCount)
    fun r => { r with
      status := .deadLettered
      lastErrorCategory := some invalidRowCategory
      lastErrorMessage := some message
      updatedAt := now
      completedAt := some now }
  appendActivityHistory row .activityQuarantined message now
  blockWorkflow row invalidRowCategory message now

/-- The insert of a new attempt, whose key is the activity and the number. -/
def insertAttempt (attempt : ActivityAttemptRow) : Tx Unit := do
  let db ← read
  ensure (db.attempts attempt.activityId attempt.attemptNumber).isNone
    (.database (.uniqueViolation .activityAttempt))
  modify fun db => { db with
    attempts := fun i n => if i = attempt.activityId ∧ n = attempt.attemptNumber then some attempt
      else db.attempts i n }

/-- A pending row that is past its attempt cap. -/
def attemptCapReached (row : ActivityRow) : Bool := row.maxAttempts ≤ row.attemptCount

/-- A row whose timeout or lease is out of bounds. -/
def invalidBounds (row : ActivityRow) : Bool :=
  row.timeoutMillis ≤ 0 || row.leaseDurationMillis ≤ row.timeoutMillis

/-- `duration_from_millis`. -/
def durationFromMillis (millis : ℤ) : Except DurableError ℕ :=
  if 0 ≤ millis then .ok millis.toNat else .error (.invalidState .negativeDuration)

/-- `lease_deadline_from_sample`. -/
def tryLeaseDeadlineFromSample (started : Instant) (durationMillis : ℤ) :
    Except DurableError Instant := do
  let duration ← durationFromMillis durationMillis
  match Instant.checkedAddMillis started (duration - 1) with
  | some deadline => return deadline
  | none => throw (.invalidState .leaseDeadlineOverflow)

/-- The lease and the attempt of a locked candidate that passed the checks. -/
def leaseCandidate (row : ActivityRow) (scheduleRunId : Option ScheduleRunId)
    (retryPolicy : RetryPolicy) (now : DbMillis) (leaseSampleStarted : Instant)
    (workerId : String) (leaseToken : LeaseToken) : Tx ActivityClaim := do
  let attemptNumber ← orAbort (I32.checkedAdd row.attemptCount 1) (.invalidState .attemptOverflow)
  let leaseExpiresAt ← orAbort (DbMillis.checkedPlusMillis now row.leaseDurationMillis)
    (.invalidState .leaseTimestampOverflow)
  fencedUpdate activityTable row.id
    (fun r => r.status == .pending && r.attemptCount == row.attemptCount)
    fun r => { r with
      status := .running
      attemptCount := attemptNumber
      leaseOwner := some workerId
      leaseToken := some leaseToken
      leaseExpiresAt := some leaseExpiresAt
      updatedAt := now }
  insertAttempt {
    activityId := row.id, attemptNumber, workerId, leaseToken, startedAt := now
    heartbeatAt := now, finishedAt := none, outcome := none, errorCategory := none
    errorMessage := none, providerResultJson := none }
  let _ ← ofExcept (tryLeaseDeadlineFromSample leaseSampleStarted row.leaseDurationMillis)
  return {
    row := { row with
      status := .running, attemptCount := attemptNumber, leaseOwner := some workerId
      leaseToken := some leaseToken, leaseExpiresAt := some leaseExpiresAt }
    scheduleRunId, attemptNumber, leaseToken, retryPolicy }

/-- `claim_locked_candidate`. -/
def claimLockedCandidate (registry : ActivityRegistry) (locks : HeldLocks)
    (candidateId : ActivityId) (workflowId : WorkflowId) (now : DbMillis)
    (leaseSampleStarted : Instant) (workerId : String) (leaseToken : LeaseToken) :
    Tx (Option ActivityClaim) := do
  let workflow ← findRow workflowTable workflowId
  match workflow.filter fun w => !locks.workflows w.id && waitsForActivity candidateId w with
  | none => return none
  | some workflow =>
    let row ← findRow activityTable candidateId
    match row.filter fun r => !locks.activities r.id && r.workflowId == workflowId &&
        r.status == .pending && r.availableAt ≤ now with
    | none => return none
    | some row =>
      if !registry.contains row.kind row.version then
        return none
      else if attemptCapReached row then
        quarantineCandidate row "attempt_cap"
          s!"pending activity {row.id} has exhausted its attempt cap" now
        return none
      else if invalidBounds row then
        quarantineCandidate row "invalid_bounds"
          s!"activity {row.id} has invalid timeout or lease bounds" now
        return none
      else
        match RetryPolicy.validated row.retryPolicy with
        | .error error =>
          quarantineCandidate row "invalid_bounds"
            s!"activity {row.id} has an invalid retry policy: {error.message}" now
          return none
        | .ok retryPolicy =>
          let claim ← leaseCandidate row workflow.scheduleRunId retryPolicy now leaseSampleStarted
            workerId leaseToken
          return some claim

/-- The tie break of the candidate order. -/
def candidateTie (row : ActivityRow) : ℕ :=
  if row.availableAt = continuationReadyAtMillis then row.workflowId else row.id

/-- The pending activities of a topic that may be claimed now, in order. -/
def claimCandidates (registry : ActivityRegistry) (topic : String) (now : DbMillis) :
    Tx (List ActivityRow) := do
  let db ← read
  let rows ← selectRows activityTable fun r =>
    registry.contains r.kind r.version && r.topic == topic && r.status == .pending &&
      r.availableAt ≤ now && (db.workflows.find r.workflowId).any (waitsForActivity r.id)
  return (orderBy (·.availableAt) (orderBy candidateTie rows)).take claimCandidateScanLimit

/-- The claim of the first candidate that can be claimed. -/
def claimFirst (registry : ActivityRegistry) (locks : HeldLocks) (now : DbMillis)
    (leaseSampleStarted : Instant) (workerId : String) (leaseToken : LeaseToken) :
    List ActivityRow → Tx (Option ActivityClaim)
  | [] => return none
  | candidate :: candidates => do
    match ← claimLockedCandidate registry locks candidate.id candidate.workflowId now
        leaseSampleStarted workerId leaseToken with
    | some claim => return some claim
    | none => claimFirst registry locks now leaseSampleStarted workerId leaseToken candidates

/-- `claim_one` (T-W1) after the topic locks are seeded. -/
def claimOne (externals : Externals) (registry : ActivityRegistry) (topics : List TopicDefinition)
    (locks : HeldLocks) (topic workerId : String) (leaseToken : LeaseToken) (now : DbMillis)
    (leaseSampleStarted : Instant) : Tx (Option ActivityClaim) := do
  ensure (∃ t ∈ topics, t.key = topic)
    (.invalidDefinition s!"unregistered activity topic {topic}")
  let db ← read
  let lock ← orAbort (db.topicLocks topic) (.database .notFound)
  let unsettled ← reconcileExpired externals locks topic now
  let inFlight ← inFlight topic unsettled now
  if lock.maxConcurrency ≤ inFlight then
    return none
  else
    let candidates ← claimCandidates registry topic now
    claimFirst registry locks now leaseSampleStarted workerId leaseToken candidates

/-- The candidate loop of `claim_batch` for one topic. The `n`-th claim of a
batch draws the token `firstToken + n`. -/
def claimUpTo (registry : ActivityRegistry) (locks : HeldLocks) (topic : String)
    (limit wanted : ℕ) (now : DbMillis) (leaseSampleStarted : Instant) (workerId : String)
    (firstToken : LeaseToken) : List ActivityRow → List ActivityClaim → Tx (List ActivityClaim)
  | [], claims => return claims
  | candidate :: candidates, claims => do
    if limit ≤ claims.length ∨
        wanted ≤ (claims.filter fun claim => claim.row.topic == topic).length then
      return claims
    else
      let claim ← claimLockedCandidate registry locks candidate.id candidate.workflowId now
        leaseSampleStarted workerId (firstToken + claims.length)
      claimUpTo registry locks topic limit wanted now leaseSampleStarted workerId firstToken
        candidates (claims ++ claim.toList)

/-- The topic loop of `claim_batch`. -/
def claimTopics (externals : Externals) (registry : ActivityRegistry) (locks : HeldLocks)
    (limit : ℕ) (localTopicCapacity : List (String × ℕ)) (workerId : String)
    (firstToken : LeaseToken) (now : DbMillis) (leaseSampleStarted : Instant) :
    List TopicLockRow → List ActivityClaim → Tx (List ActivityClaim)
  | [], claims => return claims
  | lock :: locked, claims => do
    let unsettled ← reconcileExpired externals locks lock.topic now
    let inFlight ← inFlight lock.topic unsettled now
    let wanted := min (min (lock.maxConcurrency - inFlight)
      ((localTopicCapacity.lookup lock.topic).getD 0)) (limit - claims.length)
    if wanted = 0 then
      claimTopics externals registry locks limit localTopicCapacity workerId firstToken now
        leaseSampleStarted locked claims
    else if registry.definitions.isEmpty then
      return claims
    else
      let candidates ← claimCandidates registry lock.topic now
      let claims ← claimUpTo registry locks lock.topic limit wanted now leaseSampleStarted workerId
        firstToken candidates claims
      claimTopics externals registry locks limit localTopicCapacity workerId firstToken now
        leaseSampleStarted locked claims

/-- `claim_batch` (T-W1) after the topic locks are seeded. `topics` are the
registered topics in the order of the database. -/
def claimBatch (externals : Externals) (registry : ActivityRegistry)
    (topics : List TopicDefinition) (locks : HeldLocks) (limit : ℕ)
    (localTopicCapacity : List (String × ℕ)) (workerId : String) (firstToken : LeaseToken)
    (now : DbMillis) (leaseSampleStarted : Instant) : Tx (List ActivityClaim) := do
  let db ← read
  let locked := topics.filterMap fun t =>
    (db.topicLocks t.key).filter fun lock => !locks.topics lock.topic
  if limit = 0 ∨ (∀ c ∈ localTopicCapacity, c.2 = 0) ∨ locked.length ≠ topics.length then
    return []
  else
    claimTopics externals registry locks limit localTopicCapacity workerId firstToken now
      leaseSampleStarted locked []

/-- The inserts of `seed_locks`: a topic lock is inserted only if it is
absent. -/
def seedLocks (topics : List TopicDefinition) (now : DbMillis) : Tx Unit :=
  forEach topics fun t => do
    ensure (t.maxConcurrency ≤ I32.max) (.invalidDefinition
      s!"activity topic {t.key} concurrency limit {t.maxConcurrency} exceeds {I32.max}")
    modify fun db => { db with
      topicLocks := fun topic =>
        if topic = t.key ∧ (db.topicLocks topic).isNone then
          some { topic, maxConcurrency := t.maxConcurrency, updatedAt := now }
        else db.topicLocks topic }

-- ════════════════════════════════════════════════════════════════════════
-- Renewals (T-W2)
-- ════════════════════════════════════════════════════════════════════════

/-- `Renewed`. -/
inductive Renewed
  | held
  | revoked
  deriving DecidableEq, Repr

/-- `heartbeat_once` (T-W2). -/
def heartbeatOnce (claim : ActivityClaim) (now : DbMillis) : Tx Renewed := do
  let leaseExpiresAt ← orAbort (DbMillis.checkedPlusMillis now claim.row.leaseDurationMillis)
    (.invalidState .leaseOverflow)
  let row ← findRow activityTable claim.row.id
  let row ← orAbort (row.filter claim.leases) .fencedWrite
  fencedUpdate activityTable claim.row.id claim.leases
    fun r => { r with leaseExpiresAt := some leaseExpiresAt, updatedAt := now }
  updateOpenAttempt claim.row.id claim.attemptNumber claim.leaseToken fun a => { a with
    heartbeatAt := now }
  match row.status with
  | .running => return .held
  | .cancelling => return .revoked
  | .pending | .succeeded | .deadLettered | .cancelled =>
    abort (.invalidState (.renewalWithoutLease claim.row.id row.status))

-- ════════════════════════════════════════════════════════════════════════
-- Finishes (T-W3)
-- ════════════════════════════════════════════════════════════════════════

/-- The output of a handler: the registry's dispatch serializes it within
`MAX_OUTPUT_BYTES`. -/
abbrev ActivityOutput := { json : String // json.utf8ByteSize ≤ maxOutputBytes }

/-- `ExecutionOutcome`. -/
inductive ExecutionOutcome
  | succeeded (output : ActivityOutput)
  | retryable (category message : String)
  | permanent (category message : String)
  | revoked

/-- `finish_attempt`. -/
def finishAttempt (claim : ActivityClaim) (outcome : AttemptOutcome)
    (category message providerResult : Option String) (now : DbMillis) : Tx Unit :=
  updateOpenAttempt claim.row.id claim.attemptNumber claim.leaseToken fun a => { a with
    finishedAt := some now, outcome := some outcome, errorCategory := category
    errorMessage := message, providerResultJson := providerResult }

/-- `dead_letter`. -/
def deadLetter (claim : ActivityClaim) (row : ActivityRow) (category message : String)
    (now : DbMillis) : Tx Unit := do
  fencedUpdate activityTable claim.row.id claim.fences
    fun r => { r.leaseCleared with
      status := .deadLettered
      lastErrorCategory := some category
      lastErrorMessage := some message
      updatedAt := now
      completedAt := some now }
  finishAttempt claim .deadLettered (some category) (some message) none now
  blockWorkflow row category message now

/-- The success branch of `finish_on_connection`. -/
def finishSucceeded (claim : ActivityClaim) (output : String) (now : DbMillis) : Tx Unit := do
  fencedUpdate activityTable claim.row.id claim.fences
    fun r => { r.leaseCleared with
      status := .succeeded
      providerResultJson := some output
      lastErrorCategory := none
      lastErrorMessage := none
      updatedAt := now
      completedAt := some now }
  finishAttempt claim .succeeded none none (some output) now
  wakeWorkflow claim output now

/-- The retry branch of `finish_on_connection`. -/
def finishRetry (externals : Externals) (claim : ActivityClaim) (category message : String)
    (now : DbMillis) : Tx Unit := do
  let jitterPercentile :=
    externals.jitterPercentile s!"activity:{claim.row.id}:retry:{claim.attemptNumber}"
  let delay ← ofExcept (claim.retryPolicy.delayForAttempt claim.attemptNumber jitterPercentile)
  let delayMillis ← ofExcept (durationMillis (delay * 1000))
  fencedUpdate activityTable claim.row.id claim.fences
    fun r => { r.leaseCleared with
      status := .pending
      availableAt := DbMillis.saturatingPlusMillis now delayMillis
      lastErrorCategory := some category
      lastErrorMessage := some message
      updatedAt := now }
  finishAttempt claim .retryableFailure (some category) (some message) none now
  appendActivityHistory claim.row .activityRetryScheduled message now

/-- The outcome a revoke recorded on a cancelling row. -/
def revokeOutcome (row : ActivityRow) : Except DurableError AttemptOutcome :=
  match row.lastErrorCategory with
  | none => .error (.invalidState (.noRevokeOutcome row.id))
  | some category =>
    match AttemptOutcome.tryFrom category with
    | some outcome => .ok outcome
    | none => .error (.invalidState (.unknownOutcome category))

/-- `finish_on_connection` (T-W3). -/
def finishOnConnection (externals : Externals) (claim : ActivityClaim)
    (outcome : ExecutionOutcome) (now : DbMillis) : Tx Unit := do
  let _ ← firstRow workflowTable claim.row.workflowId
  let row ← findRow activityTable claim.row.id
  let row ← orAbort (row.filter claim.leases) .fencedWrite
  match row.status, outcome with
  | .cancelling, _ =>
    let outcome ← ofExcept (revokeOutcome row)
    settleRevoked row outcome (row.lastErrorMessage.getD "") now
  | .running, .revoked =>
    abort (.invalidState (.finishedAsRevoked row.id claim.attemptNumber))
  | .running, .succeeded output => finishSucceeded claim output.val now
  | .running, .retryable category message =>
    if claim.row.maxAttempts ≤ claim.attemptNumber then
      deadLetter claim row category message now
    else
      finishRetry externals claim category message now
  | .running, .permanent category message => deadLetter claim row category message now
  | .pending, _ | .succeeded, _ | .deadLettered, _ | .cancelled, _ =>
    abort (.invalidState (.finishWithoutLease row.id row.status))

-- ════════════════════════════════════════════════════════════════════════
-- Progress (T-W4)
-- ════════════════════════════════════════════════════════════════════════

/-- `MAX_PROGRESS_EVENTS_PER_ATTEMPT`. -/
def maxProgressEventsPerAttempt : ℕ := 100

/-- `MAX_PROGRESS_DESCRIPTION_BYTES`. -/
def maxProgressDescriptionBytes : ℕ := 2048

/-- `ProgressSeverity`. -/
inductive ProgressSeverity
  | info
  | warning
  | error
  deriving DecidableEq, Repr

/-- `ProgressSeverity::as_str`. -/
def ProgressSeverity.asStr : ProgressSeverity → String
  | info => "info"
  | warning => "warning"
  | error => "error"

/-- `ProgressEvent`. -/
structure ProgressEvent where
  code : String
  description : String
  completedUnits : Option ℤ
  totalUnits : Option ℤ
  severity : ProgressSeverity
  metadataJson : Option String

/-- `ProgressReportOutcome`. -/
inductive ProgressReportOutcome
  | persisted (sequence : ℕ)
  | limitReached
  deriving DecidableEq, Repr

/-- The metadata check of `validate_event`. -/
def validateMetadata (externals : Externals) (metadata : String) : Except DurableError Unit := do
  ensureSize "progress metadata" metadata maxEventMetadataBytes
  match externals.jsonError metadata with
  | some message => .error (.serialization message)
  | none => .ok ()

/-- `validate_event`. -/
def validateEvent (externals : Externals) (event : ProgressEvent) : Except DurableError Unit := do
  rejectIf (event.code.utf8ByteSize = 0 ∨ 64 < event.code.utf8ByteSize ∨
      event.code.toList.any (fun c => 127 < c.val))
    (.invalidDefinition "progress code must be 1-64 ASCII bytes")
  ensureSize "progress description" event.description maxProgressDescriptionBytes
  event.metadataJson.elim (.ok ()) (validateMetadata externals)
  rejectIf (event.completedUnits.any (· < 0) ∨ event.totalUnits.any (· < 0) ∨
      event.completedUnits.any (fun completed => event.totalUnits.any (· < completed)))
    (.invalidDefinition "progress units must satisfy 0 <= completed <= total")

/-- `ProgressReporter::report` (T-W4). -/
def report (externals : Externals) (claim : ActivityClaim) (event : ProgressEvent)
    (now : DbMillis) : Tx ProgressReportOutcome := do
  ofExcept (validateEvent externals event)
  let row ← findRow activityTable claim.row.id
  ensure (row.any claim.fences) .fencedWrite
  let db ← read
  let last := ((db.progress.filter fun p =>
    p.activityId == claim.row.id && p.attemptNumber == claim.attemptNumber).map
      (·.sequence)).max?.getD 0
  if maxProgressEventsPerAttempt ≤ last then
    return .limitReached
  else
    let sequence ← orAbort (I32.checkedAdd last 1) (.invalidState .progressSequenceOverflow)
    ensure (event.description.utf8ByteSize ≤ I32.max) (.invalidState .progressLengthOverflow)
    modify fun db => { db with
      progress := db.progress ++ [{
        activityId := claim.row.id, attemptNumber := claim.attemptNumber, sequence
        code := event.code, description := event.description
        descriptionBytes := event.description.utf8ByteSize
        completedUnits := event.completedUnits, totalUnits := event.totalUnits
        severity := event.severity.asStr, metadataJson := event.metadataJson
        createdAt := now }] }
    return .persisted sequence

end DurableWorkflows
