import DurableWorkflows.Persistence.Models
import Mathlib.Data.List.Sort

/-!
# Workflow and event statements

The statements shared by every transaction: the fenced updates, the event log
of a workflow, the insert of a started workflow, and the delivery of a terminal
child outcome to the parents that wait for it.
-/

namespace DurableWorkflows

open Transaction

/-- `ORDER BY key ASC`; rows with equal keys stay in id order. -/
def orderBy {α β : Type} [LE β] [DecidableLE β] (key : α → β) (rows : List α) : List α :=
  rows.insertionSort fun r r' => key r ≤ key r'

/-- An update of one row that must change exactly one (`ensure_fenced`,
`ensure_changed`, `ensure_cancel_changed` and `ensure_single_change`). -/
def fencedUpdate {α : Type} [Keyed α] (T : TableOf DB α) (i : ℕ) (p : α → Bool) (f : α → α)
    (hf : ∀ r, Keyed.key (f r) = Keyed.key r := by intro r; rfl) : Tx Unit := do
  let changed ← updateRow T i p f hf
  ensure (changed = 1) .fencedWrite

/-- `find(id).first(connection)`: a missing row is a database error. -/
def firstRow {α : Type} [Keyed α] (T : TableOf DB α) (i : ℕ) : Tx α := do
  let row ← findRow T i
  orAbort row (.database .notFound)

-- ════════════════════════════════════════════════════════════════════════
-- The event log
-- ════════════════════════════════════════════════════════════════════════

/-- The events of one workflow, in the order they were appended. -/
def DB.eventsOf (db : DB) (workflowId : WorkflowId) : List WorkflowEventRow :=
  db.events.filter fun e => e.workflowId == workflowId

/-- `next_delivery_event`. -/
def nextDeliveryEvent (workflowId : WorkflowId) (deliveredSequence : ℕ) :
    Tx (Option WorkflowEventRow) := do
  let db ← read
  let events := (db.eventsOf workflowId).filter fun e =>
    e.deliverySequence.any fun d => deliveredSequence < d
  return (orderBy (fun e => e.deliverySequence.getD 0) events).head?

/-- `next_event_sequence`. -/
def nextEventSequence (workflowId : WorkflowId) : Tx ℕ := do
  let db ← read
  let current := ((db.eventsOf workflowId).map (·.sequence)).max?
  orAbort (I32.checkedAdd (current.getD 0) 1) (.invalidState .eventSequenceOverflow)

/-- `append_event`, with the two unique keys of the table. -/
def appendEvent (event : WorkflowEventRow) : Tx Unit := do
  let db ← read
  let events := db.eventsOf event.workflowId
  ensure (∀ e ∈ events, e.sequence ≠ event.sequence)
    (.database (.uniqueViolation .workflowEventSequence))
  ensure (∀ e ∈ events, e.deliverySequence.isSome → e.deliverySequence ≠ event.deliverySequence)
    (.database (.uniqueViolation .workflowEventDelivery))
  modify fun db => { db with events := db.events ++ [event] }

/-- A non-deliverable event. `append_history`, `append_activity_history` and
`append_operator_event` differ in the actor and the reason. -/
def appendHistoryEvent (workflowId : WorkflowId) (eventType : EventType) (actorType : ActorType)
    (actorId reason : Option String) (metadata : Option EventMetadata) (createdAt : DbMillis) :
    Tx Unit := do
  let sequence ← nextEventSequence workflowId
  appendEvent {
    workflowId, sequence, deliverySequence := none, eventType, metadata
    actorType := some actorType, actorId, reason, createdAt }

/-- `append_history` of the coordinator. -/
def appendHistory (workflowId : WorkflowId) (eventType : EventType) (createdAt : DbMillis) :
    Tx Unit :=
  appendHistoryEvent workflowId eventType .system none none none createdAt

/-- A deliverable event: the next number of the workflow's log and the given
delivery number. -/
def appendDelivery (workflowId : WorkflowId) (deliverySequence : ℕ) (eventType : EventType)
    (metadata : Option EventMetadata) (actorType : ActorType) (actorId reason : Option String)
    (createdAt : DbMillis) : Tx Unit := do
  let sequence ← nextEventSequence workflowId
  appendEvent {
    workflowId, sequence, deliverySequence := some deliverySequence, eventType, metadata
    actorType := some actorType, actorId, reason, createdAt }

-- ════════════════════════════════════════════════════════════════════════
-- Starting a workflow
-- ════════════════════════════════════════════════════════════════════════

/-- `find_by_deduplication_key`. -/
def findByDeduplicationKey (kind key : String) : Tx (Option WorkflowRow) := do
  let rows ← selectRows workflowTable fun r => r.kind == kind && r.deduplicationKey == some key
  return rows.head?

/-- `WorkflowInsert`. -/
inductive WorkflowInsert
  | inserted (id : WorkflowId)
  | deduplicationConflict

/-- `dialect::insert_workflow`. The id of `row` is replaced by a generated
one. -/
def insertWorkflow (row : WorkflowRow) : Tx WorkflowInsert := do
  ensure (0 < row.version) (.database (.checkViolation .workflowVersion))
  let keyed ← selectRows workflowTable fun r =>
    r.kind == row.kind && r.deduplicationKey.isSome && r.deduplicationKey == row.deduplicationKey
  if keyed.isEmpty then
    let successors ← selectRows workflowTable fun r =>
      r.restartedFromWorkflowId.isSome && r.restartedFromWorkflowId == row.restartedFromWorkflowId
    ensure successors.isEmpty
      (.conflict s!"workflow {row.restartedFromWorkflowId.getD 0} already has a successor")
    let id ← insertRow workflowTable fun id => { row with id }
    return .inserted id
  else
    return .deduplicationConflict

/-- `StartedInsert`. -/
inductive StartedInsert
  | inserted (id : WorkflowId)
  | existing (row : WorkflowRow)

/-- `insert_started`. -/
def insertStarted (row : WorkflowRow) (now : DbMillis) : Tx StartedInsert := do
  match ← insertWorkflow row with
  | .inserted id =>
    appendEvent {
      workflowId := id, sequence := 1, deliverySequence := some 1, eventType := .started
      metadata := none, actorType := some .system, actorId := none, reason := none
      createdAt := now }
    return .inserted id
  | .deduplicationConflict =>
    let key ← orAbort row.deduplicationKey (.invalidState .deduplicationWithoutKey)
    let existing ← findByDeduplicationKey row.kind key
    let existing ← orAbort existing
      (.conflict "duplicate start raced with an uncommitted insert outside READ COMMITTED; retry")
    return .existing existing

-- ════════════════════════════════════════════════════════════════════════
-- Terminal children
-- ════════════════════════════════════════════════════════════════════════

/-- The outcome of a terminal child: its output, or a category and a message. -/
abbrev ChildOutcome := Except (String × String) String

/-- The event that delivers a child's outcome to a parent's command. -/
def childOutcomeEvent (commandSequence : ℕ) (childKind : String) (childVersion : ℤ) :
    ChildOutcome → Except DurableError (EventType × WorkflowEvent)
  | .ok outputJson => do
    let result ← StepResult.newChild childKind childVersion outputJson
    return (.childSucceeded, .childSucceeded commandSequence result)
  | .error (category, message) =>
    return (.childFailed, .childFailed commandSequence childKind childVersion category message)

/-- The parents that wait for a child, `waiting_child` or `paused`. -/
def waitingParents (childId : WorkflowId) : Tx (List WorkflowRow) :=
  selectRows workflowTable fun r =>
    r.waitKind == some .child && r.waitReferenceId == some childId && r.status.awaitsChild

/-- `wake_loaded_parent_on_child_terminal`. -/
def wakeLoadedParentOnChildTerminal (parent : WorkflowRow) (childId : WorkflowId)
    (childKind : String) (childVersion : ℤ) (outcome : ChildOutcome) (now : DbMillis) :
    Tx Unit := do
  let wait ← if parent.status.awaitsChild then ofExcept parent.wait else pure none
  if wait = some (.child childId) then
    let (eventType, event) ←
      ofExcept (childOutcomeEvent parent.commandSequence childKind childVersion outcome)
    let deliverySequence ← orAbort (I32.checkedAdd parent.deliveredEventSequence 1)
      (.invalidState .deliverySequenceOverflow)
    appendDelivery parent.id deliverySequence eventType (some (.event event)) .system none none now
    fencedUpdate workflowTable parent.id
      (fun r => r.status == parent.status && r.waitKind == parent.waitKind &&
        r.waitReferenceId == parent.waitReferenceId)
      fun r => { r.waitCleared with
        status := if parent.status = .paused then .paused else .ready
        availableAt := now, updatedAt := now }
  else
    pure ()

/-- `wake_waiting_parents_on_child_terminal`. -/
def wakeWaitingParentsOnChildTerminal (child : WorkflowRow) (outcome : ChildOutcome)
    (now : DbMillis) : Tx Unit := do
  let parents ← waitingParents child.id
  forEach parents fun parent =>
    wakeLoadedParentOnChildTerminal parent child.id child.kind child.version outcome now

end DurableWorkflows
