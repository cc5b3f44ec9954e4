import DurableWorkflows.Base.Versions
import DurableWorkflows.Engine.Lifecycle

/-!
# Workers as concurrent transactions

The other modules run a transaction in one step. Here the transactions of the
activity workers are split into their statements under READ COMMITTED, so that
statements of different transactions interleave in any order: a statement reads
the versions of its own transaction and what others have committed, a row or a
topic is locked until its transaction ends, and a workflow that is locked may be
skipped. Every process has a monotonic clock of its own beside the clock of the
database.

Of a workflow only its lock is kept here; what a statement reads of a workflow row
(whether it waits for the activity, whether it is terminal) is left open, and so are
the order and the number of claim candidates.

## Main definitions

- `Cluster`: the activity rows, the locks, the open transactions, the executors
  and the clocks
- `Statement`: the statements of `claim_one`, `claim_batch`, `heartbeat_once` and
  of the transactions that finish, pause or cancel
- `Cluster.Step`, `Cluster.Reachable`
-/

namespace DurableWorkflows

/-- The transactions, by the connection they run on. -/
abbrev TxId := ℕ

/-- The processes that run workers. -/
abbrev ProcessId := ℕ

/-- Time in nanoseconds (`Instant`, and the clock of the database before it is read). -/
abbrev Nanos := ℤ

def nanosPerMilli : ℤ := 1000000

/-- `database_now_millis` of a time of the database clock. -/
def millis (t : Nanos) : DbMillis := t / nanosPerMilli

/-- `lease_deadline_from_sample`. -/
def leaseDeadlineFromSample (started : Nanos) (durationMillis : ℤ) : Nanos :=
  started + max 0 (durationMillis - 1) * nanosPerMilli

-- ════════════════════════════════════════════════════════════════════════
-- Open transactions
-- ════════════════════════════════════════════════════════════════════════

/-- Where a claim transaction is. -/
inductive ClaimPhase
  /-- `claim_batch` holds the lock rows of its topics. -/
  | locked
  /-- The local clock was read. -/
  | sampled
  /-- `claim_one` has read the database clock and waits for the lock row. -/
  | timed
  /-- `reconcile_expired` of the next topic, or the commit if there is none. -/
  | scanning
  | reconciling (candidates : List (ActivityId × WorkflowId)) (unsettled : List ActivityId)
  /-- The workflow of a candidate is locked, its row is locked next. -/
  | relocking (candidate : ActivityId) (candidates : List (ActivityId × WorkflowId))
      (unsettled : List ActivityId)
  /-- The topic is counted; so many claims are wanted. -/
  | selecting (wanted : ℕ)
  | claiming (candidates : List ActivityId) (wanted : ℕ)

/-- The variables of `claim_one` and `claim_batch`. -/
structure ClaimSession where
  process : ProcessId
  leaseSampleStarted : Nanos
  now : DbMillis
  /-- The topics whose lock rows are held. -/
  lockedTopics : List String
  /-- The topics that are not done. -/
  topics : List String
  localTopicCapacity : String → ℕ
  /-- The claims that the limit of the batch still allows. -/
  limit : ℕ
  claims : List ActivityClaim
  phase : ClaimPhase

/-- Where a renewal is. -/
inductive RenewalPhase
  | sampled
  | timed (now : DbMillis)
  | renewed (now : DbMillis)
  /-- The transaction has committed, and its result is on its way to the executor. -/
  | committed (now : DbMillis)

/-- The variables of `heartbeat_once`. -/
structure RenewalSession where
  claim : ActivityClaim
  process : ProcessId
  leaseSampleStarted : Nanos
  phase : RenewalPhase

/-- An open transaction. -/
inductive Session
  | claim (c : ClaimSession)
  | renewal (h : RenewalSession)
  /-- A finish, a pause, a cancel, a resume, or a transaction of the application. -/
  | work

/-- The execution of a claim (`execute_claim`) with the deadline that `heartbeat_loop`
carries. -/
structure Executor where
  claim : ActivityClaim
  process : ProcessId
  leaseDeadline : Nanos
  /-- The handler was not dropped yet. -/
  active : Bool

/-- The database and the processes. -/
structure Cluster where
  clock : Nanos
  locals : ProcessId → Nanos
  activities : Table (Versioned TxId ActivityRow)
  topicLocks : String → Option TxId
  workflowLocks : WorkflowId → Option TxId
  sessions : TxId → Option Session
  /-- The executors, by the tokens of their claims. -/
  executors : LeaseToken → Option Executor
  /-- The lease tokens from here on were not drawn yet. -/
  nextToken : LeaseToken

namespace Cluster

/-- The cluster before the first activity, at any time of its clocks. -/
def start (clock : Nanos) (locals : ProcessId → Nanos) : Cluster where
  clock
  locals
  activities := .empty
  topicLocks _ := none
  workflowLocks _ := none
  sessions _ := none
  executors _ := none
  nextToken := 0

def setSession (s : Cluster) (tx : TxId) (session : Option Session) : Cluster :=
  { s with sessions := Function.update s.sessions tx session }

def setExecutor (s : Cluster) (x : Executor) : Cluster :=
  { s with executors := Function.update s.executors x.claim.leaseToken (some x) }

/-- A row is inserted under the next key. -/
def insertRow (s : Cluster) (row : ActivityRow) : Cluster :=
  { s with
    activities := s.activities.insert (fun i => ⟨i, { row with id := i }, none⟩) (fun _ => rfl) }

/-- The locks of a transaction are released. -/
def release (s : Cluster) (tx : TxId) : Cluster :=
  { s with
    topicLocks := fun topic => (s.topicLocks topic).filter (· ≠ tx)
    workflowLocks := fun w => (s.workflowLocks w).filter (· ≠ tx) }

/-- The versions of a transaction are published. -/
def publish (s : Cluster) (tx : TxId) : Cluster :=
  { s with
    activities := s.activities.modifyAll (fun _ => true) (Versioned.commit tx)
      (fun _ => Versioned.commit_id) }

/-- The versions of a transaction are discarded. -/
def discard (s : Cluster) (tx : TxId) : Cluster :=
  { s with
    activities := s.activities.modifyAll (fun _ => true) (Versioned.rollback tx)
      (fun _ => Versioned.rollback_id) }

/-- A transaction commits; `session` is what is left of it. -/
def commit (s : Cluster) (tx : TxId) (session : Option Session) : Cluster :=
  ((s.publish tx).release tx).setSession tx session

/-- A transaction rolls back. -/
def rollback (s : Cluster) (tx : TxId) : Cluster :=
  ((s.discard tx).release tx).setSession tx none

/-- The executors of the claims that a transaction committed. -/
def startExecutors (s : Cluster) (c : ClaimSession) : Cluster :=
  c.claims.foldl (fun s claim => s.setExecutor
    ⟨claim, c.process, leaseDeadlineFromSample c.leaseSampleStarted claim.row.leaseDurationMillis,
      true⟩) s

/-- The row that a statement of the transaction reads. -/
def row (s : Cluster) (tx : TxId) (activity : ActivityId) : Option ActivityRow :=
  (s.activities.find activity).map (·.view tx)

/-- The lock of a row is free or held by the transaction. -/
def Unlocked (s : Cluster) (tx : TxId) (activity : ActivityId) : Prop :=
  ∀ v, s.activities.find activity = some v → v.Available tx

/-- The candidates of `reconcile_expired`. -/
def expired (s : Cluster) (tx : TxId) (topic : String) (now : DbMillis) :
    List (ActivityId × WorkflowId) :=
  (s.activities.select fun v => expiredHolder topic now (v.view tx)).map fun v =>
    (v.id, (v.view tx).workflowId)

/-- `TopicReconciled::in_flight`. -/
def inFlight (s : Cluster) (tx : TxId) (topic : String) (unsettled : List ActivityId)
    (now : DbMillis) : ℕ :=
  (s.activities.select fun v => (v.view tx).topic == topic && (v.view tx).status.holdsSlot &&
    ((v.view tx).leaseExpiresAt.any (now < ·) || v.id ∈ unsettled)).length

end Cluster

-- ════════════════════════════════════════════════════════════════════════
-- Writes of a row
-- ════════════════════════════════════════════════════════════════════════

namespace ActivityRow

/-- The row after `settle_revoked`. -/
def revokeSettled (row : ActivityRow) (terminal : Bool) (now : DbMillis) : ActivityRow :=
  { row.leaseCleared with
    status := if terminal then .cancelled else .pending
    availableAt := if terminal then row.availableAt else now
    updatedAt := now
    completedAt := if terminal then some now else none }

/-- The row after `reconcile_expired` settled it. Whether the workflow of a revoked attempt
is terminal and the delay of a retry are read elsewhere. -/
def reconciled (row : ActivityRow) (terminal : Bool) (availableAt now : DbMillis) : ActivityRow :=
  if row.status = .cancelling then
    row.revokeSettled terminal now
  else
    { row.leaseCleared with
      status := if attemptCapReached row then .deadLettered else .pending
      availableAt
      lastErrorCategory := some "lease_expired"
      lastErrorMessage := some "activity lease expired"
      updatedAt := now
      completedAt := if attemptCapReached row then some now else none }

/-- The row after `claim_locked_candidate` leased it, but for `updated_at`. -/
def leased (row : ActivityRow) (workerId : String) (token : LeaseToken)
    (leaseExpiresAt : DbMillis) : ActivityRow :=
  { row with
    status := .running, attemptCount := row.attemptCount + 1, leaseOwner := some workerId
    leaseToken := some token, leaseExpiresAt := some leaseExpiresAt }

/-- The row after `quarantine_candidate`. -/
def quarantined (row : ActivityRow) (message : String) (now : DbMillis) : ActivityRow :=
  { row with
    status := .deadLettered, lastErrorCategory := some invalidRowCategory
    lastErrorMessage := some message, updatedAt := now, completedAt := some now }

end ActivityRow

/-- What the transactions of the executors, the operators and the application do to a row.
An executor finishes its claim only after its handler was dropped. -/
inductive Edits (executors : LeaseToken → Option Executor) : ActivityRow → ActivityRow → Prop
  /-- `SELECT … FOR UPDATE`, by a progress report or ahead of a write. -/
  | locked {row : ActivityRow} : Edits executors row row
  /-- `finish_on_connection` of an attempt that succeeded. -/
  | succeeded {row : ActivityRow} {claim : ActivityClaim} (hfence : claim.fences row = true)
      (hstopped : ∀ x, executors claim.leaseToken = some x → x.active = false)
      (output : String) (now : DbMillis) :
      Edits executors row { row.leaseCleared with
        status := .succeeded, providerResultJson := some output, lastErrorCategory := none
        lastErrorMessage := none, updatedAt := now, completedAt := some now }
  /-- `finish_on_connection` of an attempt to be retried. -/
  | retried {row : ActivityRow} {claim : ActivityClaim} (hfence : claim.fences row = true)
      (hstopped : ∀ x, executors claim.leaseToken = some x → x.active = false)
      (category message : String) (availableAt now : DbMillis) :
      Edits executors row { row.leaseCleared with
        status := .pending, availableAt, lastErrorCategory := some category
        lastErrorMessage := some message, updatedAt := now }
  /-- `dead_letter`. -/
  | deadLettered {row : ActivityRow} {claim : ActivityClaim} (hfence : claim.fences row = true)
      (hstopped : ∀ x, executors claim.leaseToken = some x → x.active = false)
      (category message : String) (now : DbMillis) :
      Edits executors row { row.leaseCleared with
        status := .deadLettered, lastErrorCategory := some category
        lastErrorMessage := some message, updatedAt := now, completedAt := some now }
  /-- `finish_on_connection` of a revoked attempt. -/
  | settled {row : ActivityRow} {claim : ActivityClaim} (hlease : claim.leases row = true)
      (hcancelling : row.status = .cancelling)
      (hstopped : ∀ x, executors claim.leaseToken = some x → x.active = false)
      (terminal : Bool) (now : DbMillis) : Edits executors row (row.revokeSettled terminal now)
  /-- `pause_activity`. -/
  | paused {row : ActivityRow} (hrunning : row.status = .running) (reason : String)
      (now : DbMillis) : Edits executors row { row with
        status := .cancelling, maxAttempts := row.maxAttempts + 1
        lastErrorCategory := some AttemptOutcome.operatorPaused.asStr
        lastErrorMessage := some reason, updatedAt := now }
  /-- `cancel_activities`. -/
  | cancelled {row : ActivityRow} (outcome : AttemptOutcome) (reason : String) (now : DbMillis) :
      Edits executors row (row.cancelledBy outcome reason now)
  /-- The discard of the dead letters of a workflow. -/
  | discarded {row : ActivityRow} (now : DbMillis) : Edits executors row (row.discarded now)

/-- The statements that write a row: the variables of the transaction, the row as it reads it
under its lock, the row it writes, and the variables after. -/
inductive RowStatement (s : Cluster) :
    Session → ActivityId → ActivityRow → ActivityRow → Session → Prop
  /-- The candidate of `reconcile_expired` is still an expired lease holder. -/
  | reconcile {c : ClaimSession} {topic : String} {topics : List String} {candidate : ActivityId}
      {candidates : List (ActivityId × WorkflowId)} {unsettled : List ActivityId} {row : ActivityRow}
      (hphase : c.phase = .relocking candidate candidates unsettled)
      (htopics : c.topics = topic :: topics) (hexpired : expiredHolder topic c.now row = true)
      (terminal : Bool) (availableAt : DbMillis) :
      RowStatement s (.claim c) candidate row (row.reconciled terminal availableAt c.now)
        (.claim { c with phase := .reconciling candidates unsettled })
  | quarantine {c : ClaimSession} {topic : String} {topics : List String} {candidate : ActivityId}
      {candidates : List ActivityId} {wanted : ℕ} {row : ActivityRow}
      (hphase : c.phase = .claiming (candidate :: candidates) (wanted + 1))
      (htopics : c.topics = topic :: topics)
      (hpending : row.status = .pending) (message : String) :
      RowStatement s (.claim c) candidate row (row.quarantined message c.now)
        (.claim { c with phase := .claiming candidates (wanted + 1) })
  /-- `claim_locked_candidate` of a row that passed the checks. -/
  | lease {c : ClaimSession} {topic : String} {topics : List String} {candidate : ActivityId}
      {candidates : List ActivityId} {wanted : ℕ} {row : ActivityRow} {leaseExpiresAt : DbMillis}
      (hphase : c.phase = .claiming (candidate :: candidates) (wanted + 1))
      (htopics : c.topics = topic :: topics)
      (hpending : row.status = .pending) (hdue : row.availableAt ≤ c.now)
      (hcap : attemptCapReached row = false) (hbounds : invalidBounds row = false)
      (hexpires : DbMillis.checkedPlusMillis c.now row.leaseDurationMillis = some leaseExpiresAt)
      (workerId : String) (scheduleRunId : Option ScheduleRunId) (retryPolicy : RetryPolicy) :
      RowStatement s (.claim c) candidate row
        { row.leased workerId s.nextToken leaseExpiresAt with updatedAt := c.now }
        (.claim { c with
          phase := .claiming candidates wanted, limit := c.limit - 1
          claims := c.claims ++ [{
            row := row.leased workerId s.nextToken leaseExpiresAt, scheduleRunId
            attemptNumber := row.attemptCount + 1, leaseToken := s.nextToken, retryPolicy }] })
  /-- `heartbeat_once` under its fence. -/
  | renew {h : RenewalSession} {now leaseExpiresAt : DbMillis} {row : ActivityRow}
      (hphase : h.phase = .timed now) (hlease : h.claim.leases row = true)
      (hexpires : DbMillis.checkedPlusMillis now h.claim.row.leaseDurationMillis =
        some leaseExpiresAt) :
      RowStatement s (.renewal h) h.claim.row.id row
        { row with leaseExpiresAt := some leaseExpiresAt, updatedAt := now }
        (.renewal { h with phase := .renewed now })
  | edit {activity : ActivityId} {row row' : ActivityRow} (hedits : Edits s.executors row row') :
      RowStatement s .work activity row row' .work

-- ════════════════════════════════════════════════════════════════════════
-- Statements
-- ════════════════════════════════════════════════════════════════════════

/-- What a statement changes beside the variables of its transaction. -/
inductive Effect
  | none
  | lockTopics (topics : List String)
  | lockWorkflow (workflow : WorkflowId)
  | write (activity : ActivityId) (row : ActivityRow)

namespace Cluster

/-- The state after the effect of a statement. A token that is written is not drawn again. -/
def apply (s : Cluster) (tx : TxId) : Effect → Cluster
  | .none => s
  | .lockTopics topics =>
    { s with topicLocks := fun topic => if topic ∈ topics then some tx else s.topicLocks topic }
  | .lockWorkflow w => { s with workflowLocks := Function.update s.workflowLocks w (some tx) }
  | .write activity row =>
    { s with
      activities := s.activities.modify activity (Versioned.write tx row) (fun _ => Versioned.write_id)
      nextToken := if row.leaseToken = some s.nextToken then s.nextToken + 1 else s.nextToken }

end Cluster

/-- The statements of the open transactions. `limits` are the `max_concurrency` columns of the
topic lock rows that do not change; of another topic any value may be read. -/
inductive Statement (limits : String → Option ℕ) (s : Cluster) (tx : TxId) :
    Session → Effect → Session → Prop
  | sampleClock {c : ClaimSession} (hphase : c.phase = .locked) :
      Statement limits s tx (.claim c) .none
        (.claim { c with leaseSampleStarted := s.locals c.process, phase := .sampled })
  /-- The database clock in `claim_one`, before the topic is locked. -/
  | readClockOne {c : ClaimSession} (hphase : c.phase = .sampled) (hlocked : c.lockedTopics = []) :
      Statement limits s tx (.claim c) .none (.claim { c with now := millis s.clock, phase := .timed })
  /-- The database clock in `claim_batch`, under the topic locks. -/
  | readClockBatch {c : ClaimSession} (hphase : c.phase = .sampled) (hlocked : c.lockedTopics ≠ []) :
      Statement limits s tx (.claim c) .none
        (.claim { c with now := millis s.clock, phase := .scanning })
  | lockTopic {c : ClaimSession} {topic : String} (hphase : c.phase = .timed)
      (htopics : c.topics = [topic]) (hfree : s.topicLocks topic = none) :
      Statement limits s tx (.claim c) (.lockTopics [topic])
        (.claim { c with lockedTopics := [topic], phase := .scanning })
  | scan {c : ClaimSession} {topic : String} {topics : List String} (hphase : c.phase = .scanning)
      (htopics : c.topics = topic :: topics) :
      Statement limits s tx (.claim c) .none
        (.claim { c with phase := .reconciling (s.expired tx topic c.now) [] })
  /-- The workflow of the candidate is held by another transaction. -/
  | skipWorkflow {c : ClaimSession} {candidate : ActivityId} {w : WorkflowId}
      {candidates : List (ActivityId × WorkflowId)} {unsettled : List ActivityId} {other : TxId}
      (hphase : c.phase = .reconciling ((candidate, w) :: candidates) unsettled)
      (hheld : s.workflowLocks w = some other) (hother : other ≠ tx) :
      Statement limits s tx (.claim c) .none
        (.claim { c with phase := .reconciling candidates (unsettled ++ [candidate]) })
  | lockWorkflow {c : ClaimSession} {candidate : ActivityId} {w : WorkflowId}
      {candidates : List (ActivityId × WorkflowId)} {unsettled : List ActivityId}
      (hphase : c.phase = .reconciling ((candidate, w) :: candidates) unsettled)
      (hfree : ∀ other, s.workflowLocks w = some other → other = tx) :
      Statement limits s tx (.claim c) (.lockWorkflow w)
        (.claim { c with phase := .relocking candidate candidates unsettled })
  /-- The row is no longer an expired lease holder. -/
  | relockMissed {c : ClaimSession} {topic : String} {topics : List String} {candidate : ActivityId}
      {candidates : List (ActivityId × WorkflowId)} {unsettled : List ActivityId} {row : ActivityRow}
      (hphase : c.phase = .relocking candidate candidates unsettled)
      (htopics : c.topics = topic :: topics) (hrow : s.row tx candidate = some row)
      (hmissed : expiredHolder topic c.now row = false) :
      Statement limits s tx (.claim c) .none
        (.claim { c with phase := .reconciling candidates unsettled })
  | count {c : ClaimSession} {topic : String} {topics : List String} {unsettled : List ActivityId}
      {maxConcurrency : ℕ} (hphase : c.phase = .reconciling [] unsettled)
      (htopics : c.topics = topic :: topics)
      (hlimit : ∀ limit, limits topic = some limit → maxConcurrency = limit) :
      Statement limits s tx (.claim c) .none
        (.claim { c with phase := .selecting (min (min (maxConcurrency -
          s.inFlight tx topic unsettled c.now) (c.localTopicCapacity topic)) c.limit) })
  /-- The pending activities of the topic that are due, in any order. -/
  | selectCandidates {c : ClaimSession} {topic : String} {topics : List String} {wanted : ℕ}
      {candidates : List ActivityId} (hphase : c.phase = .selecting wanted)
      (htopics : c.topics = topic :: topics)
      (hcandidates : ∀ candidate ∈ candidates, ∃ row, s.row tx candidate = some row ∧
        row.topic = topic ∧ row.status = .pending ∧ row.availableAt ≤ c.now) :
      Statement limits s tx (.claim c) .none (.claim { c with phase := .claiming candidates wanted })
  /-- The workflow of the next candidate is locked. -/
  | lockCandidate {c : ClaimSession} {candidate : ActivityId} {candidates : List ActivityId}
      {wanted : ℕ} {row : ActivityRow}
      (hphase : c.phase = .claiming (candidate :: candidates) wanted)
      (hrow : s.row tx candidate = some row)
      (hfree : ∀ other, s.workflowLocks row.workflowId = some other → other = tx) :
      Statement limits s tx (.claim c) (.lockWorkflow row.workflowId) (.claim c)
  /-- The candidate or its workflow is locked, it is not pending any more, or it has no local
  definition. -/
  | skipCandidate {c : ClaimSession} {candidate : ActivityId} {candidates : List ActivityId}
      {wanted : ℕ} (hphase : c.phase = .claiming (candidate :: candidates) wanted) :
      Statement limits s tx (.claim c) .none (.claim { c with phase := .claiming candidates wanted })
  /-- The topic is done: no claim is wanted, or no candidate is left. -/
  | nextTopic {c : ClaimSession} {topic : String} {topics : List String}
      (hphase : c.phase = .selecting 0 ∨ (∃ candidates, c.phase = .claiming candidates 0) ∨
        ∃ wanted, c.phase = .claiming [] wanted) (htopics : c.topics = topic :: topics) :
      Statement limits s tx (.claim c) .none (.claim { c with topics, phase := .scanning })
  | readClockRenewal {h : RenewalSession} (hphase : h.phase = .sampled) :
      Statement limits s tx (.renewal h) .none (.renewal { h with phase := .timed (millis s.clock) })
  | workLock {w : WorkflowId} (hfree : ∀ other, s.workflowLocks w = some other → other = tx) :
      Statement limits s tx .work (.lockWorkflow w) .work
  /-- A row is locked and written. -/
  | write {session session' : Session} {activity : ActivityId} {row row' : ActivityRow}
      (hfree : s.Unlocked tx activity) (hrow : s.row tx activity = some row)
      (hwrites : RowStatement s session activity row row' session') :
      Statement limits s tx session (.write activity row') session'

-- ════════════════════════════════════════════════════════════════════════
-- Steps
-- ════════════════════════════════════════════════════════════════════════

namespace Cluster

/-- One step of the cluster. No process clock is slower than the database clock, and the
heartbeats of a claim are sent one after another. -/
inductive Step (limits : String → Option ℕ) : Cluster → Cluster → Prop
  | tick (s : Cluster) (elapsed : ℕ) (lead : ProcessId → ℕ) :
      Step limits s { s with
        clock := s.clock + elapsed, locals := fun p => s.locals p + elapsed + lead p }
  /-- A transaction that inserted an activity has committed. -/
  | insert (s : Cluster) {row : ActivityRow} (hpending : row.status = .pending)
      (htoken : row.leaseToken = none) (hexpires : row.leaseExpiresAt = none) :
      Step limits s (s.insertRow row)
  | beginClaimOne {s : Cluster} {tx : TxId} (hclosed : s.sessions tx = none) (process : ProcessId)
      (topic : String) :
      Step limits s (s.setSession tx (some (.claim ⟨process, s.locals process, 0, [], [topic],
        fun _ => 1, 1, [], .sampled⟩)))
  | beginClaimBatch {s : Cluster} {tx : TxId} (hclosed : s.sessions tx = none) (process : ProcessId)
      (topics : List String) (hfree : ∀ topic ∈ topics, s.topicLocks topic = none)
      (localTopicCapacity : String → ℕ) (limit : ℕ) :
      Step limits s ((s.apply tx (.lockTopics topics)).setSession tx (some (.claim ⟨process, 0, 0,
        topics, topics, localTopicCapacity, limit, [], .locked⟩)))
  | beginRenewal {s : Cluster} {tx : TxId} (hclosed : s.sessions tx = none) {x : Executor}
      (hexecutor : s.executors x.claim.leaseToken = some x)
      (hone : ∀ tx' h, s.sessions tx' = some (.renewal h) →
        h.claim.leaseToken ≠ x.claim.leaseToken) :
      Step limits s (s.setSession tx (some (.renewal ⟨x.claim, x.process, s.locals x.process,
        .sampled⟩)))
  | beginWork {s : Cluster} {tx : TxId} (hclosed : s.sessions tx = none) :
      Step limits s (s.setSession tx (some .work))
  | statement {s : Cluster} {tx : TxId} {session session' : Session} {effect : Effect}
      (hopen : s.sessions tx = some session)
      (hstatement : Statement limits s tx session effect session') :
      Step limits s ((s.apply tx effect).setSession tx (some session'))
  | commitClaim {s : Cluster} {tx : TxId} {c : ClaimSession}
      (hopen : s.sessions tx = some (.claim c))
      (hdone : c.phase = .scanning ∧ c.topics = [] ∨ ∃ wanted, c.phase = .selecting wanted) :
      Step limits s ((s.commit tx none).startExecutors c)
  | commitRenewal {s : Cluster} {tx : TxId} {h : RenewalSession} {now : DbMillis}
      (hopen : s.sessions tx = some (.renewal h)) (hphase : h.phase = .renewed now) :
      Step limits s (s.commit tx (some (.renewal { h with phase := .committed now })))
  | commitWork {s : Cluster} {tx : TxId} (hopen : s.sessions tx = some .work) :
      Step limits s (s.commit tx none)
  /-- A transaction fails, misses its fence or loses its connection. -/
  | rollback {s : Cluster} {tx : TxId} {session : Session} (hopen : s.sessions tx = some session) :
      Step limits s (s.rollback tx)
  /-- The executor learns that its renewal has committed. -/
  | acknowledge {s : Cluster} {tx : TxId} {h : RenewalSession} {now : DbMillis} {x : Executor}
      (hopen : s.sessions tx = some (.renewal h)) (hphase : h.phase = .committed now)
      (hexecutor : s.executors x.claim.leaseToken = some x)
      (hclaim : x.claim.leaseToken = h.claim.leaseToken) :
      Step limits s ((s.setSession tx none).setExecutor { x with
        leaseDeadline := leaseDeadlineFromSample h.leaseSampleStarted h.claim.row.leaseDurationMillis })
  /-- The handler of an executor ends or is dropped. -/
  | stop {s : Cluster} {x : Executor} (hexecutor : s.executors x.claim.leaseToken = some x) :
      Step limits s (s.setExecutor { x with active := false })

/-- The states that the cluster can reach. -/
def Reachable (limits : String → Option ℕ) (s : Cluster) : Prop :=
  ∃ clock locals, Relation.ReflTransGen (Step limits) (start clock locals) s

end Cluster

end DurableWorkflows
