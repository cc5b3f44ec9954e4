import DurableWorkflows.Engine.Aggregate
import Mathlib.Logic.Relation

/-!
# The life cycle of an aggregate

`Step` lists what a transaction can do to the rows of one workflow, each step
with the condition it needs and the columns it writes. The steps are the
abstract machine of the engine: every transaction is shown to be a sequence of
them for each workflow, and every invariant is proved of them once.

## Main definitions

- `WorkflowRow.awaited`, `WorkflowEventRow.answers`: what a row waits for, and
  the command an event answers
- `Label`, `Step`: the steps of an aggregate
- `Steps`: sequences of steps whose labels satisfy a predicate
-/

namespace DurableWorkflows

-- ════════════════════════════════════════════════════════════════════════
-- Readings of the rows
-- ════════════════════════════════════════════════════════════════════════

/-- The wait of a kind with a reference. -/
def WaitKind.toWait : WaitKind → ℕ → Wait
  | .timer, reference => .timer reference
  | .activity, reference => .activity reference
  | .child, reference => .child reference
  | .approval, reference => .approval reference

/-- What a workflow row waits for. -/
def WorkflowRow.awaited (r : WorkflowRow) : Option Wait :=
  match r.waitKind, r.waitReferenceId with
  | some kind, some reference => some (kind.toWait reference)
  | some _, none | none, _ => none

/-- The command a step-result event answers. -/
def WorkflowEventRow.answers (e : WorkflowEventRow) : Option ℕ :=
  match e.metadata with
  | some (.event event) => event.commandSequence?
  | some (.reattached ..) | none => none

/-- The kind of wait a step result answers. -/
def WorkflowEvent.waitKind : WorkflowEvent → Option WaitKind
  | .started | .continued => none
  | .activitySucceeded .. => some .activity
  | .childSucceeded .. | .childFailed .. => some .child
  | .timerFired _ => some .timer
  | .approvalResolved .. | .approvalExpired _ => some .approval

/-- The kind of wait an event answers. -/
def WorkflowEventRow.answersKind (e : WorkflowEventRow) : Option WaitKind :=
  match e.metadata with
  | some (.event event) => event.waitKind
  | some (.reattached ..) | none => none

/-- The kind of wait the events of a type answer. -/
def EventType.resultKind : EventType → Option WaitKind
  | .activitySucceeded => some .activity
  | .childSucceeded | .childFailed => some .child
  | .timerFired => some .timer
  | .approvalResolved | .approvalExpired => some .approval
  | _ => none

/-- The types of the events that are history only. -/
def EventType.isHistory : EventType → Bool
  | .started | .continued | .activitySucceeded | .childSucceeded | .childFailed | .timerFired
  | .approvalResolved | .approvalExpired => false
  | _ => true

/-- The activity result an event delivers, with the command it answers. -/
def WorkflowEventRow.activityResult (e : WorkflowEventRow) : Option (ℕ × StepResult) :=
  match e.metadata with
  | some (.event (.activitySucceeded command result)) => some (command, result)
  | _ => none

/-- The delivery numbers of a log, in the order of its events. -/
def deliveries (events : List WorkflowEventRow) : List ℕ := events.filterMap (·.deliverySequence)

/-- The event is the next one of a log, with the given delivery number. -/
structure NextEvent (events : List WorkflowEventRow) (delivery : Option ℕ) (e : WorkflowEventRow) :
    Prop where
  sequence : e.sequence = events.length + 1
  bounded : events.length + 1 ≤ I32.max
  delivers : e.deliverySequence = delivery
  decodes : delivery.isSome → ∃ event, decodeEvent e = .ok event
  typed : e.eventType.resultKind = e.answersKind
  later : e.eventType = .started → events = []

/-- A workflow row that has not run yet. -/
structure WorkflowRow.Fresh (r : WorkflowRow) : Prop where
  status : r.status = .ready
  waitKind : r.waitKind = none
  waitReferenceId : r.waitReferenceId = none
  leaseOwner : r.leaseOwner = none
  leaseToken : r.leaseToken = none
  leaseExpiresAt : r.leaseExpiresAt = none
  commandSequence : r.commandSequence = 0
  deliveredEventSequence : r.deliveredEventSequence = 0
  parent : ∀ p, r.parentWorkflowId = some p → p < r.id
  restartedFrom : ∀ p, r.restartedFromWorkflowId = some p → p < r.id
  activationAttempts : r.activationAttempts = 0
  maxActivationAttempts : r.maxActivationAttempts = defaultMaxActivationAttempts

/-- An activity row that has not run yet. -/
structure ActivityRow.Fresh (act : ActivityRow) : Prop where
  status : act.status = .pending
  attemptCount : act.attemptCount = 0
  maxAttempts : 0 < act.maxAttempts
  maxAttempts_le : act.maxAttempts ≤ I32.max
  leaseOwner : act.leaseOwner = none
  leaseToken : act.leaseToken = none
  leaseExpiresAt : act.leaseExpiresAt = none

/-- The row a commit leaves waiting. -/
def WorkflowRow.committed (r : WorkflowRow) (wait : Wait) (status : WorkflowStatus)
    (stateJson : String) (stateVersion : ℕ) (availableAt now : DbMillis) : WorkflowRow :=
  { (r.waitOn wait).leaseCleared with
    stateJson
    stateVersion
    status
    availableAt
    commandSequence := r.commandSequence + 1
    deliveredEventSequence := r.deliveredEventSequence + 1
    consecutiveContinuations := 0
    activationAttempts := 0
    errorCategory := none
    errorMessage := none
    updatedAt := now }

/-- The row after its wait was answered. -/
def WorkflowRow.woken (r : WorkflowRow) (now : DbMillis) : WorkflowRow :=
  { r.waitCleared with
    status := if r.status = .paused then .paused else .ready
    availableAt := now, updatedAt := now }

/-- The row after its awaited activity was dead-lettered. -/
def WorkflowRow.blockedBy (r : WorkflowRow) (category message : String) (now : DbMillis) :
    WorkflowRow :=
  { r with
    status := .blocked, errorCategory := some category, errorMessage := some message
    updatedAt := now }

/-- The row after a cancel, or after a successor took its place; only the
cancel clears the wait. -/
def WorkflowRow.cancelledAt (r : WorkflowRow) (clear : Bool) (now : DbMillis) : WorkflowRow :=
  { (if clear then r.waitCleared else r).leaseCleared with
    status := .cancelled, updatedAt := now, completedAt := some now }

/-- The activity after a cancel of its workflow: a lease holder is revoked, a
pending row is cancelled. -/
def ActivityRow.cancelledBy (act : ActivityRow) (outcome : AttemptOutcome) (reason : String)
    (now : DbMillis) : ActivityRow :=
  match act.status with
  | .running | .cancelling =>
    { act with
      status := .cancelling, lastErrorCategory := some outcome.asStr
      lastErrorMessage := some reason, updatedAt := now }
  | .pending =>
    { act.leaseCleared with status := .cancelled, updatedAt := now, completedAt := some now }
  | .succeeded | .deadLettered | .cancelled => act

/-- The activity after its dead letter was discarded. -/
def ActivityRow.discarded (act : ActivityRow) (now : DbMillis) : ActivityRow :=
  if act.status = .deadLettered then
    { act.leaseCleared with status := .cancelled, updatedAt := now, completedAt := some now }
  else act

/-- The approval after a cancel of its workflow. -/
def ApprovalRow.cancelledBy (approval : ApprovalRow) (reason : String) (now : DbMillis) :
    ApprovalRow :=
  if approval.status = .pending then
    { approval with
      status := .cancelled, operatorReason := some reason, resolvedAt := some now }
  else approval

/-- The attempt after it was closed. -/
def ActivityAttemptRow.closed (attempt : ActivityAttemptRow) (outcome : AttemptOutcome)
    (category message result : Option String) (now : DbMillis) : ActivityAttemptRow :=
  { attempt with
    finishedAt := some now, outcome := some outcome, errorCategory := category
    errorMessage := message, providerResultJson := result }

/-- The open attempt of an activity, under the token of its lease. -/
structure Aggregate.OpenAttempt (g : Aggregate) (a : ActivityId) (act : ActivityRow)
    (attempt : ActivityAttemptRow) : Prop where
  stored : g.activities a = some act
  number : g.attempts a act.attemptCount = some attempt
  isOpen : attempt.finishedAt = none
  token : act.leaseToken = some attempt.leaseToken

/-- The status a resume gives a paused row. -/
def Aggregate.ResumesTo (g : Aggregate) (r : WorkflowRow) (status : WorkflowStatus) : Prop :=
  match r.awaited with
  | none => status = .ready
  | some (.timer _) => status = .sleeping
  | some (.child _) => status = .waitingChild
  | some (.approval _) => status = .waitingApproval
  | some (.activity a) => ∃ act, g.activities a = some act ∧
      (act.status.isTerminal = false ∧ status = .waitingActivity ∨
        act.status = .deadLettered ∧ status = .blocked)

-- ════════════════════════════════════════════════════════════════════════
-- Steps
-- ════════════════════════════════════════════════════════════════════════

/-- What a step does. -/
inductive Label
  | inserted
  | history
  | claimed (token : LeaseToken)
  | recovered
  | continued
  | completed
  | waited (wait : Wait)
  | activationFailed
  | answered (wait : Wait)
  | reattached (source target : WorkflowId)
  | paused (revoked : Option (ActivityId × ℕ))
  | resumed
  | cancelled
  | superseded
  | discarded
  | retried (source target : ActivityId)
  | activityClaimed (activity : ActivityId) (token : LeaseToken)
  | renewed (activity : ActivityId)
  | succeeded (activity : ActivityId)
  | released (activity : ActivityId)
  | deadLettered (activity : ActivityId)
  | quarantined (activity : ActivityId)
  | settled (activity : ActivityId)
  deriving DecidableEq

namespace Label

/-- The commits of a transition. -/
def isCommit : Label → Bool
  | continued | completed | waited _ => true
  | _ => false

/-- The steps that can end a workflow. -/
def ends : Label → Bool
  | completed | activationFailed | cancelled | superseded => true
  | _ => false

/-- The steps that make a workflow wait for a child. -/
def attaches : Label → Bool
  | waited (.child _) | reattached .. => true
  | _ => false

/-- The steps of a cancel and its cascade. -/
def cancels : Label → Bool
  | cancelled | history | answered (.child _) => true
  | _ => false

/-- The steps that discard dead letters. -/
def discards : Label → Bool
  | superseded | discarded => true
  | _ => false

end Label

/-- The steps of one aggregate. -/
inductive Step : Aggregate → Label → Aggregate → Prop
  | inserted {row : WorkflowRow} {e : WorkflowEventRow} (hrow : row.Fresh)
      (he : NextEvent [] (some 1) e) (ha : e.answers = none) (hstarted : e.eventType = .started) :
      Step .empty .inserted ((Aggregate.empty.setRow row).addEvent e)
  | history {g : Aggregate} {r : WorkflowRow} {e : WorkflowEventRow} (hr : g.row = some r)
      (he : NextEvent g.events none e) (ha : e.answers = none) :
      Step g .history (g.addEvent e)
  | claimed {g : Aggregate} {r : WorkflowRow} (hr : g.row = some r) (hs : r.status = .ready)
      (owner : String) (token : LeaseToken) (expiry now : DbMillis) :
      Step g (.claimed token) (g.setRow { r with
        status := .running, leaseOwner := some owner, leaseToken := some token
        leaseExpiresAt := some expiry, updatedAt := now })
  | recovered {g : Aggregate} {r : WorkflowRow} (hr : g.row = some r) (hs : r.status = .running)
      (now : DbMillis) :
      Step g .recovered (g.setRow { r.leaseCleared with
        status := .ready, availableAt := now, updatedAt := now })
  | continued {g : Aggregate} {r : WorkflowRow} {e : WorkflowEventRow} (hr : g.row = some r)
      (hs : r.status = .running) (he : NextEvent g.events (some (r.deliveredEventSequence + 2)) e)
      (ha : e.answers = none) (stateJson : String) (stateVersion streak : ℕ)
      (availableAt now : DbMillis) :
      Step g .continued ((g.setRow { r.leaseCleared with
        stateJson, stateVersion, status := .ready, availableAt
        deliveredEventSequence := r.deliveredEventSequence + 1
        consecutiveContinuations := streak, activationAttempts := 0
        errorCategory := none, errorMessage := none, updatedAt := now }).addEvent e)
  | completed {g : Aggregate} {r : WorkflowRow} (hr : g.row = some r) (hs : r.status = .running)
      (outputJson : String) (now : DbMillis) :
      Step g .completed (g.setRow { r.leaseCleared with
        status := .succeeded, resultJson := some outputJson
        deliveredEventSequence := r.deliveredEventSequence + 1
        consecutiveContinuations := 0, activationAttempts := 0
        errorCategory := none, errorMessage := none, updatedAt := now, completedAt := some now })
  | slept {g : Aggregate} {r : WorkflowRow} (hr : g.row = some r) (hs : r.status = .running)
      (stateJson : String) (stateVersion : ℕ) (availableAt now : DbMillis) :
      Step g (.waited (.timer (r.commandSequence + 1))) (g.setRow
        (r.committed (.timer (r.commandSequence + 1)) .sleeping stateJson stateVersion availableAt
          now))
  | waitedApproval {g : Aggregate} {r : WorkflowRow} {p : ApprovalId} {approval : ApprovalRow}
      (hr : g.row = some r) (hs : r.status = .running) (hp : g.approvals p = none)
      (hstatus : approval.status = .pending) (hkind : approval.kind = r.kind)
      (hversion : approval.version = r.version)
      (hcommand : approval.commandSequence = r.commandSequence + 1)
      (stateJson : String) (stateVersion : ℕ) (now : DbMillis) :
      Step g (.waited (.approval p)) ((g.setApproval p approval).setRow
        (r.committed (.approval p) .waitingApproval stateJson stateVersion r.availableAt now))
  | waitedActivity {g : Aggregate} {r : WorkflowRow} {a : ActivityId} {act : ActivityRow}
      (hr : g.row = some r) (hs : r.status = .running) (ha : g.activities a = none)
      (hfresh : act.Fresh) (hcommand : act.commandSequence = r.commandSequence + 1)
      (stateJson : String) (stateVersion : ℕ) (now : DbMillis)
      (hfirst : act.replacementNumber = 0 ∧ act.rootActivityId = none ∧
        act.replacesActivityId = none) :
      Step g (.waited (.activity a)) ((g.setActivity a act).setRow
        (r.committed (.activity a) .waitingActivity stateJson stateVersion r.availableAt now))
  | waitedChild {g : Aggregate} {r : WorkflowRow} (hr : g.row = some r) (hs : r.status = .running)
      (c : WorkflowId) (stateJson : String) (stateVersion : ℕ) (now : DbMillis) :
      Step g (.waited (.child c)) (g.setRow
        (r.committed (.child c) .waitingChild stateJson stateVersion r.availableAt now))
  | activationFailed {g : Aggregate} {r : WorkflowRow} (hr : g.row = some r)
      (hs : r.status = .running) (exhausted : Bool) (attempt : ℕ) (availableAt : DbMillis)
      (category message : String) (now : DbMillis)
      (hattempt : attempt = I32.saturatingAdd r.activationAttempts 1)
      (hexhausted : exhausted = false → attempt < r.maxActivationAttempts) :
      Step g .activationFailed (g.setRow { r.leaseCleared with
        status := if exhausted then .failed else .ready
        activationAttempts := attempt, availableAt, errorCategory := some category
        errorMessage := some message, updatedAt := now
        completedAt := if exhausted then some now else none })
  | answered {g : Aggregate} {r : WorkflowRow} {e : WorkflowEventRow} {wait : Wait}
      (hr : g.row = some r) (hw : r.awaited = some wait)
      (hs : r.status.awaitsChild ∧ wait.kind = .child ∨
        r.status = .sleeping ∧ wait.kind = .timer)
      (he : NextEvent g.events (some (r.deliveredEventSequence + 1)) e)
      (ha : e.answers = some r.commandSequence) (hkind : e.answersKind = some wait.kind)
      (now : DbMillis) :
      Step g (.answered wait) ((g.addEvent e).setRow (r.woken now))
  | answeredApproval {g : Aggregate} {r : WorkflowRow} {e : WorkflowEventRow} {p : ApprovalId}
      {approval approval' : ApprovalRow}
      (hr : g.row = some r) (hw : r.awaited = some (.approval p))
      (hs : r.status.awaitsApproval) (hp : g.approvals p = some approval)
      (hcommand : approval'.commandSequence = approval.commandSequence)
      (hstatus : approval'.status ≠ .pending)
      (he : NextEvent g.events (some (r.deliveredEventSequence + 1)) e)
      (ha : e.answers = some r.commandSequence) (hkind : e.answersKind = some .approval)
      (now : DbMillis) :
      Step g (.answered (.approval p))
        (((g.addEvent e).setApproval p approval').setRow (r.woken now))
  | reattached {g : Aggregate} {r : WorkflowRow} {c : WorkflowId} (hr : g.row = some r)
      (hw : r.awaited = some (.child c)) (hs : r.status.awaitsChild) (c' : WorkflowId)
      (now : DbMillis) :
      Step g (.reattached c c') (g.setRow { r.waitOn (.child c') with updatedAt := now })
  | paused {g : Aggregate} {r : WorkflowRow} (hr : g.row = some r) (hs : r.status ≠ .paused)
      (ht : r.status.isTerminal = false)
      (ha : ∀ a act, r.awaited = some (.activity a) → g.activities a = some act →
        act.status ≠ .running) (now : DbMillis) :
      Step g (.paused none) (g.setRow { r.leaseCleared with status := .paused, updatedAt := now })
  | revoked {g : Aggregate} {r : WorkflowRow} {a : ActivityId} {act : ActivityRow}
      (hr : g.row = some r) (hs : r.status = .waitingActivity)
      (hw : r.awaited = some (.activity a)) (ha : g.activities a = some act)
      (hrun : act.status = .running) (reason : String) (now : DbMillis)
      (hlimit : act.maxAttempts + 1 ≤ I32.max) :
      Step g (.paused (some (a, act.attemptCount)))
        ((g.setActivity a { act with
          status := .cancelling, maxAttempts := act.maxAttempts + 1
          lastErrorCategory := some AttemptOutcome.operatorPaused.asStr
          lastErrorMessage := some reason, updatedAt := now }).setRow
          { r.leaseCleared with status := .paused, updatedAt := now })
  | resumed {g : Aggregate} {r : WorkflowRow} {status : WorkflowStatus} (hr : g.row = some r)
      (hs : r.status = .paused) (hstatus : g.ResumesTo r status) (availableAt now : DbMillis) :
      Step g .resumed (g.setRow { r.leaseCleared with status, availableAt, updatedAt := now })
  | cancelled {g : Aggregate} {r : WorkflowRow} {outcome : AttemptOutcome} (hr : g.row = some r)
      (ht : r.status.isTerminal = false) (ho : outcome.isRevoke) (clear : Bool) (reason : String)
      (now : DbMillis) :
      Step g .cancelled
        (((g.mapActivities (·.cancelledBy outcome reason now)).mapApprovals
          (·.cancelledBy reason now)).setRow (r.cancelledAt clear now))
  | superseded {g : Aggregate} {r : WorkflowRow} (hr : g.row = some r) (hs : r.status = .blocked)
      (now : DbMillis) :
      Step g .superseded ((g.mapActivities (·.discarded now)).setRow (r.cancelledAt false now))
  | discarded {g : Aggregate} {r : WorkflowRow} (hr : g.row = some r) (ht : r.status.isTerminal)
      (now : DbMillis) :
      Step g .discarded (g.mapActivities (·.discarded now))
  | retried {g : Aggregate} {r : WorkflowRow} {a a' : ActivityId} {act act' : ActivityRow}
      (hr : g.row = some r) (hs : r.status = .blocked) (hw : r.awaited = some (.activity a))
      (ha : g.activities a = some act) (ha' : g.activities a' = none) (hfresh : act'.Fresh)
      (hcommand : act'.commandSequence = act.commandSequence)
      (hreplacement : act'.replacementNumber = act.replacementNumber + 1) (now : DbMillis)
      (hkind : act'.kind = act.kind)
      (hroot : act'.rootActivityId = some (act.rootActivityId.getD a))
      (hreplaces : act'.replacesActivityId = some a) :
      Step g (.retried a a') ((g.setActivity a' act').setRow { r.waitOn (.activity a') with
        status := .waitingActivity, availableAt := now, errorCategory := none
        errorMessage := none, updatedAt := now })
  | activityClaimed {g : Aggregate} {r : WorkflowRow} {a : ActivityId} {act : ActivityRow}
      {attempt : ActivityAttemptRow} (hr : g.row = some r) (hs : r.status = .waitingActivity)
      (hw : r.awaited = some (.activity a)) (ha : g.activities a = some act)
      (hpending : act.status = .pending) (hopen : attempt.finishedAt = none)
      (houtcome : attempt.outcome = none) (owner : String) (token : LeaseToken)
      (htoken : attempt.leaseToken = token) (expiry now : DbMillis) :
      Step g (.activityClaimed a token)
        ((g.setActivity a { act with
          status := .running, attemptCount := act.attemptCount + 1, leaseOwner := some owner
          leaseToken := some token, leaseExpiresAt := some expiry, updatedAt := now }).setAttempt a
          (act.attemptCount + 1) attempt)
  | renewed {g : Aggregate} {r : WorkflowRow} {a : ActivityId} {act : ActivityRow}
      {attempt : ActivityAttemptRow} (hr : g.row = some r) (ha : g.OpenAttempt a act attempt)
      (hlease : act.status.holdsLease) (expiry now : DbMillis) :
      Step g (.renewed a)
        ((g.setActivity a { act with leaseExpiresAt := some expiry, updatedAt := now }).setAttempt a
          act.attemptCount { attempt with heartbeatAt := now })
  | succeeded {g : Aggregate} {r : WorkflowRow} {a : ActivityId} {act : ActivityRow}
      {attempt : ActivityAttemptRow} {e : WorkflowEventRow} {output : String}
      (hr : g.row = some r) (hs : r.status = .waitingActivity)
      (hw : r.awaited = some (.activity a)) (ha : g.OpenAttempt a act attempt)
      (hrun : act.status = .running)
      (he : NextEvent g.events (some (r.deliveredEventSequence + 1)) e)
      (hres : e.metadata = some (.event (.activitySucceeded act.commandSequence
        ⟨act.kind, act.version, output⟩))) (now : DbMillis) :
      Step g (.succeeded a)
        ((((g.setActivity a { act.leaseCleared with
          status := .succeeded, providerResultJson := some output, lastErrorCategory := none
          lastErrorMessage := none, updatedAt := now, completedAt := some now }).setAttempt a
          act.attemptCount (attempt.closed .succeeded none none (some output) now)).addEvent e).setRow
          (r.woken now))
  | released {g : Aggregate} {r : WorkflowRow} {a : ActivityId} {act : ActivityRow}
      {attempt : ActivityAttemptRow} (hr : g.row = some r) (ha : g.OpenAttempt a act attempt)
      (hrun : act.status = .running) (hcount : act.attemptCount < act.maxAttempts)
      (outcome : AttemptOutcome) (category message result : Option String) (availableAt : DbMillis)
      (completedAt : Option DbMillis) (now : DbMillis) :
      Step g (.released a)
        ((g.setActivity a { act.leaseCleared with
          status := .pending, availableAt, lastErrorCategory := category
          lastErrorMessage := message, updatedAt := now, completedAt }).setAttempt a
          act.attemptCount (attempt.closed outcome category message result now))
  | deadLettered {g : Aggregate} {r : WorkflowRow} {a : ActivityId} {act : ActivityRow}
      {attempt : ActivityAttemptRow} (hr : g.row = some r) (hs : r.status = .waitingActivity)
      (hw : r.awaited = some (.activity a)) (ha : g.OpenAttempt a act attempt)
      (hrun : act.status = .running) (outcome : AttemptOutcome) (category message : String)
      (result : Option String) (availableAt now : DbMillis) :
      Step g (.deadLettered a)
        (((g.setActivity a { act.leaseCleared with
          status := .deadLettered, availableAt, lastErrorCategory := some category
          lastErrorMessage := some message, updatedAt := now, completedAt := some now }).setAttempt a
          act.attemptCount (attempt.closed outcome (some category) (some message) result now)).setRow
          (r.blockedBy category message now))
  | quarantined {g : Aggregate} {r : WorkflowRow} {a : ActivityId} {act : ActivityRow}
      (hr : g.row = some r) (hs : r.status = .waitingActivity)
      (hw : r.awaited = some (.activity a)) (ha : g.activities a = some act)
      (hpending : act.status = .pending) (category message : String) (now : DbMillis) :
      Step g (.quarantined a)
        ((g.setActivity a { act with
          status := .deadLettered, lastErrorCategory := some category
          lastErrorMessage := some message, updatedAt := now, completedAt := some now }).setRow
          (r.blockedBy category message now))
  | settled {g : Aggregate} {r : WorkflowRow} {a : ActivityId} {act : ActivityRow}
      {attempt : ActivityAttemptRow} (hr : g.row = some r) (ha : g.OpenAttempt a act attempt)
      (hcancel : act.status = .cancelling) (outcome : AttemptOutcome) (message : String)
      (now : DbMillis) :
      Step g (.settled a)
        ((g.setActivity a { act.leaseCleared with
          status := if r.status.isTerminal then .cancelled else .pending
          availableAt := if r.status.isTerminal then act.availableAt else now
          updatedAt := now
          completedAt := if r.status.isTerminal then some now else none }).setAttempt a
          act.attemptCount (attempt.closed outcome (some outcome.asStr) (some message)
            attempt.providerResultJson now))

/-- Sequences of steps whose labels satisfy `P`. -/
def Steps (P : Label → Prop) : Aggregate → Aggregate → Prop :=
  Relation.ReflTransGen fun g g' => ∃ l, P l ∧ Step g l g'

namespace Steps

variable {P Q : Label → Prop} {g g' g'' : Aggregate}

theorem refl : Steps P g g := Relation.ReflTransGen.refl

theorem single {l : Label} (h : Step g l g') (hl : P l) : Steps P g g' :=
  Relation.ReflTransGen.single ⟨l, hl, h⟩

theorem trans (h : Steps P g g') (h' : Steps P g' g'') : Steps P g g'' :=
  Relation.ReflTransGen.trans h h'

/-- No step is left. -/
theorem eq_of_false (h : Steps P g g') (hP : ∀ l, ¬P l) : g' = g := by
  induction h with
  | refl => rfl
  | tail _ hs _ =>
    obtain ⟨l, hl, -⟩ := hs
    exact absurd hl (hP l)

theorem mono (h : Steps P g g') (hPQ : ∀ l, P l → Q l) : Steps Q g g' := by
  induction h with
  | refl => exact refl
  | tail _ hs ih =>
    obtain ⟨l, hl, hs⟩ := hs
    exact ih.trans (single hs (hPQ l hl))

end Steps

end DurableWorkflows
