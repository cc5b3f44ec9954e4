import DurableWorkflows.Base.Machine
import DurableWorkflows.Admin.Control

/-!
# The engine as a transition system

A state holds the database and what the processes keep in memory: the claims
they drew, the events they read for a claim, and the claims whose heartbeat
found the attempt revoked. Nothing is ever taken out of that memory, so a run
may use any claim at any later moment, stale or not, and a process that crashes
is one whose claims are never used again.

An action is one transaction of any process. Its parameters are what the
environment chooses: the database time, the rows other transactions hold, the
registries and bounds of the process, and what user code returned.

## Main definitions

- `Sys`, `Sys.init`: states and the initial state
- `Action` and `exec`: the transactions; a failed one leaves the state as it
  was (`step`)
- `run`: the state after a list of actions
-/

namespace DurableWorkflows

open Transaction

/-- A state of the system. -/
structure Sys where
  db : DB
  /-- The workflow claims drawn so far. -/
  workflowClaims : List ClaimedRow
  /-- The events read for a claim (`activate_claim_inner`). -/
  activations : List (ClaimedRow × WorkflowEventRow)
  /-- The activity claims drawn so far. -/
  activityClaims : List ActivityClaim
  /-- The claims whose heartbeat returned `Revoked`. -/
  revokedClaims : List ActivityClaim
  /-- The next lease token to draw: a token is never drawn twice. -/
  nextToken : LeaseToken

/-- The state after the migrations. -/
def Sys.init : Sys where
  db := .empty
  workflowClaims := []
  activations := []
  activityClaims := []
  revokedClaims := []
  nextToken := 0

/-- The transactions of the engine with the parameters the environment
chooses. Claims are named by their position in memory. -/
inductive Action
  | start (workflow : PreparedWorkflowStart) (options : ApplicationStartOptions) (now : DbMillis)
  | startPrepared (prepared : PreparedWorkflowStart) (options : ApplicationStartOptions)
      (now : DbMillis)
  | recoverableStart (workflow : PreparedWorkflowStart) (options : ApplicationStartOptions)
      (now : DbMillis)
  | cancel (workflow : WorkflowId) (reason : String) (now : DbMillis)
  | claimWorkflow (config : CoordinatorConfig) (registry : WorkflowRegistry)
      (locked : WorkflowId → Bool) (workerId : String) (now : DbMillis)
  | activate (claim : ℕ)
  | commit (activation : ℕ) (config : CoordinatorConfig) (transition : StoredTransition)
      (now : DbMillis)
  | failActivation (claim : ℕ) (config : CoordinatorConfig) (message : String) (now : DbMillis)
  | seedLocks (topics : List TopicDefinition) (now : DbMillis)
  | claimActivity (registry : ActivityRegistry) (topics : List TopicDefinition) (locks : HeldLocks)
      (topic workerId : String) (now : DbMillis) (leaseSampleStarted : Instant)
  | claimActivities (registry : ActivityRegistry) (topics : List TopicDefinition)
      (locks : HeldLocks) (limit : ℕ) (capacity : List (String × ℕ)) (workerId : String)
      (now : DbMillis) (leaseSampleStarted : Instant)
  | heartbeat (claim : ℕ) (now : DbMillis)
  | finish (claim : ℕ) (outcome : ExecutionOutcome) (now : DbMillis)
  | reportProgress (claim : ℕ) (event : ProgressEvent) (now : DbMillis)
  | fireTimer (locked : WorkflowId → Bool) (now : DbMillis)
  | expireApproval (approval : ApprovalId) (now : DbMillis)
  | pause (workflow : WorkflowId) (operator : Operator) (now : DbMillis)
  | resume (workflow : WorkflowId) (operator : Operator) (now : DbMillis)
  | cancelWorkflow (workflow : WorkflowId) (operator : Operator) (now : DbMillis)
  | restart (registry : WorkflowRegistry) (workflow : WorkflowId) (correction : Option String)
      (operator : Operator) (now : DbMillis)
  | retry (registry : ActivityRegistry) (activity : ActivityId) (correction : Option String)
      (operator : Operator) (now : DbMillis)
  | resolveApproval (registry : WorkflowRegistry) (approval : ApprovalId) (decision : String)
      (operator : Operator) (now : DbMillis)
  | recordScheduleRunNow (workflow : WorkflowId) (operator : Operator) (now : DbMillis)
  | writeScheduleRuns (runs : Table ScheduleRunRow)

namespace Sys

/-- Run a transaction on the database, then record its result in memory. -/
def transact {α : Type} (s : Sys) (x : Tx α) (record : α → Sys → Sys) : Except DurableError Sys :=
  match x s.db with
  | .ok (a, db) => .ok (record a { s with db })
  | .error e => .error e

/-- Run a transaction whose result nobody keeps. -/
def transact' {α : Type} (s : Sys) (x : Tx α) : Except DurableError Sys :=
  s.transact x fun _ s => s

/-- A claim of the memory; a position that holds none is no action. -/
def nth {α : Type} (claims : List α) (i : ℕ) : Except DurableError α :=
  match claims[i]? with
  | some claim => .ok claim
  | none => .error (.notFound "claim" i)

/-- The claims a finish may use: an executor finishes as revoked only after a
heartbeat found its attempt revoked. -/
def finishable (s : Sys) : ExecutionOutcome → List ActivityClaim
  | .revoked => s.revokedClaims
  | .succeeded _ | .retryable .. | .permanent .. => s.activityClaims

end Sys

open Sys

/-- One action: the state after it, or the error with which it rolled back. -/
def exec (externals : Externals) (s : Sys) : Action → Except DurableError Sys
  | .start workflow options now => s.transact' (start workflow options now)
  | .startPrepared prepared options now => s.transact' (startPrepared prepared options now)
  | .recoverableStart workflow options now =>
    s.transact' (startOrRestartRecoverable workflow options now)
  | .cancel workflow reason now => s.transact' (cancel workflow reason now)
  | .claimWorkflow config registry locked workerId now =>
    s.transact (claimRow config registry locked workerId s.nextToken now) fun claim s =>
      { s with workflowClaims := s.workflowClaims ++ claim.toList, nextToken := s.nextToken + 1 }
  | .activate i => do
    let claim ← nth s.workflowClaims i
    s.transact (DurableWorkflows.activate claim) fun event s =>
      { s with activations := s.activations ++ [(claim, event.1)] }
  | .commit i config transition now => do
    let (claim, event) ← nth s.activations i
    s.transact' (commitOnConnection config claim event transition now)
  | .failActivation i config message now => do
    let claim ← nth s.workflowClaims i
    s.transact' (recordActivationFailure externals config claim message now)
  | .seedLocks topics now => s.transact' (seedLocks topics now)
  | .claimActivity registry topics locks topic workerId now leaseSampleStarted =>
    s.transact (claimOne externals registry topics locks topic workerId s.nextToken now
        leaseSampleStarted)
      fun claim s =>
        { s with activityClaims := s.activityClaims ++ claim.toList, nextToken := s.nextToken + 1 }
  | .claimActivities registry topics locks limit capacity workerId now leaseSampleStarted =>
    s.transact (claimBatch externals registry topics locks limit capacity workerId s.nextToken now
        leaseSampleStarted)
      fun claims s =>
        { s with
          activityClaims := s.activityClaims ++ claims
          nextToken := s.nextToken + claims.length }
  | .heartbeat i now => do
    let claim ← nth s.activityClaims i
    s.transact (heartbeatOnce claim now) fun renewed s =>
      if renewed = .revoked then { s with revokedClaims := s.revokedClaims ++ [claim] } else s
  | .finish i outcome now => do
    let claim ← nth (s.finishable outcome) i
    s.transact' (finishOnConnection externals claim outcome now)
  | .reportProgress i event now => do
    let claim ← nth s.activityClaims i
    s.transact' (report externals claim event now)
  | .fireTimer locked now => s.transact' (materializeTimer externals locked now)
  | .expireApproval approval now => s.transact' (materializeApproval externals approval now)
  | .pause workflow operator now => s.transact' (pauseWorkflow workflow operator now)
  | .resume workflow operator now => s.transact' (resumeWorkflow workflow operator now)
  | .cancelWorkflow workflow operator now => s.transact' (cancelWorkflow workflow operator now)
  | .restart registry workflow correction operator now =>
    s.transact' (restart registry workflow correction operator now)
  | .retry registry activity correction operator now =>
    s.transact' (retry registry activity correction operator now)
  | .resolveApproval registry approval decision operator now =>
    s.transact' (resolveApproval externals registry approval decision operator now)
  | .recordScheduleRunNow workflow operator now =>
    s.transact' (recordScheduleRunNow workflow operator now)
  | .writeScheduleRuns runs => .ok { s with db := { s.db with scheduleRuns := runs } }

/-- The state after an action; a failed action changes nothing. -/
abbrev step (externals : Externals) : Sys → Action → Sys := Machine.step (exec externals)

/-- The state after a run. -/
abbrev run (externals : Externals) : Sys → List Action → Sys := Machine.run (exec externals)

-- ════════════════════════════════════════════════════════════════════════
-- A sample process
-- ════════════════════════════════════════════════════════════════════════

namespace Sample

/-- Serializers and hashes that a run on the definitions below does not depend on. -/
def externals : Externals := ⟨fun _ => "", fun _ => none, fun _ => 0⟩

theorem retryPolicy_inBounds : BoundViolation.check (.fixed 1) = none := by decide

def retryPolicy : RetryPolicy := ⟨.fixed 1, retryPolicy_inBounds⟩

def config : CoordinatorConfig := ⟨60000, 3, retryPolicy, 10, 0⟩

def workflows : WorkflowRegistry := ⟨[⟨"w", 1, fun input => .ok (input, input), fun d => .ok d⟩]⟩

def activities : ActivityRegistry :=
  ⟨[⟨"a", 1, "t", 1, 10, 20, retryPolicy, fun payload => .ok payload⟩]⟩

def topics : List TopicDefinition := [⟨"t", 1⟩]

def activity : ActivityCommand := ⟨"a", 1, "t", "null", none, 1, 10, 20, retryPolicy, false⟩

def operator : Operator := ⟨"1", "reason"⟩

/-- A start of the sample workflow. -/
def workflow : PreparedWorkflowStart := ⟨"w", 1, "null", "null"⟩

/-- A child of the sample workflow's own kind, under a domain key. -/
def child (key : String) : ChildWorkflowCommand := ⟨"w", 1, "null", "null", some key⟩

/-- One activation: the next due workflow is claimed as claim `i`, and its step returns
`transition`. -/
def activation (i : ℕ) (transition : StoredTransition) (now : DbMillis) : List Action :=
  [.claimWorkflow config workflows (fun _ => false) "worker" now, .activate i,
    .commit i config transition now]

/-- A claim of the next activity. -/
def claimActivity (now : DbMillis) : List Action :=
  [.seedLocks topics now, .claimActivity activities topics
    ⟨fun _ => false, fun _ => false, fun _ => false⟩ "t" "worker" now 0]

end Sample

end DurableWorkflows
