import DurableWorkflows.Base.Respects
import DurableWorkflows.Engine.Delivery

/-!
# Who writes the event log

The log is only ever appended to. What a transaction appends is written by the engine, as the
actor `system`, unless an operator asked for the transaction; then the events it is there for
name the operator. No transaction but a report writes progress, and none but a start of a worker
seeds topics.

## Main definitions

- `WorkflowEventRow.BySystem`, `WorkflowEventRow.ByOperator`: the two actors
- `Logs`: events that satisfy a predicate are appended, and progress and topics are left alone

## Main results

- `logs_appendHistoryEvent`, `logs_appendDelivery`: what a statement appends
- `exec_engine`, `exec_logs`: what an action that no operator asked for appends is the engine's own
-/

namespace DurableWorkflows

open Transaction

/-- The engine wrote the event on its own. -/
structure WorkflowEventRow.BySystem (e : WorkflowEventRow) : Prop where
  actorType : e.actorType = some .system
  actorId : e.actorId = none

/-- The event names an operator. -/
structure WorkflowEventRow.ByOperator (actorId : String) (e : WorkflowEventRow) : Prop where
  actorType : e.actorType = some .operator
  actorId : e.actorId = some actorId

/-- Events that satisfy `P` are appended, and progress and topics are left alone. -/
structure Logs (P : WorkflowEventRow → Prop) (db db' : DB) : Prop where
  events : ∃ es, db'.events = db.events ++ es ∧ ∀ e ∈ es, P e
  progress : db'.progress = db.progress
  topicLocks : db'.topicLocks = db.topicLocks

namespace Logs

variable {P Q : WorkflowEventRow → Prop} {db db' db'' : DB}

theorem refl (db : DB) : Logs P db db :=
  ⟨⟨[], (List.append_nil _).symm, fun _ h => by cases h⟩, rfl, rfl⟩

theorem trans (h : Logs P db db') (h' : Logs P db' db'') : Logs P db db'' := by
  obtain ⟨es, hevents, hes⟩ := h.events
  obtain ⟨es', hevents', hes'⟩ := h'.events
  refine ⟨⟨es ++ es', ?_, List.forall_mem_append.mpr ⟨hes, hes'⟩⟩, ?_, ?_⟩
  · rw [hevents', hevents, List.append_assoc]
  · exact h'.progress.trans h.progress
  · exact h'.topicLocks.trans h.topicLocks

instance instIsPreorder : IsPreorder DB (Logs P) where
  refl := refl
  trans _ _ _ := trans

theorem mono (h : Logs P db db') (hPQ : ∀ e, P e → Q e) : Logs Q db db' := by
  obtain ⟨es, hevents, hes⟩ := h.events
  exact ⟨⟨es, hevents, fun e he => hPQ e (hes e he)⟩, h.progress, h.topicLocks⟩

/-- A write to another table. -/
theorem of_eq (hevents : db'.events = db.events) (hprogress : db'.progress = db.progress)
    (htopics : db'.topicLocks = db.topicLocks) : Logs P db db' :=
  ⟨⟨[], by rw [hevents, List.append_nil], fun _ h => by cases h⟩, hprogress, htopics⟩

end Logs

variable {α : Type} {P : WorkflowEventRow → Prop} {now : DbMillis} {externals : Externals}

/-- What the engine writes on its own is allowed by every condition that allows its events. -/
theorem logs_of_system {x : Tx α} (h : Respects (Logs WorkflowEventRow.BySystem) x)
    (hP : ∀ e : WorkflowEventRow, e.BySystem → P e) : Respects (Logs P) x :=
  h.mono fun _ _ hlogs => hlogs.mono hP

-- ════════════════════════════════════════════════════════════════════════
-- Statements
-- ════════════════════════════════════════════════════════════════════════

section Statements

variable {i : ℕ} {workflowId : WorkflowId} {eventType : EventType} {actorType : ActorType}
  {actorId reason : Option String} {metadata : Option EventMetadata}

/-- A fenced update of a table whose writes respect a preorder. -/
theorem respects_fencedUpdate {R : DB → DB → Prop} [IsPreorder DB R] [Keyed α] {T : TableOf DB α}
    {p : α → Bool} {f : α → α} {hf} (h : ∀ t db, R db (T.set t db)) :
    Respects R (fencedUpdate T i p f hf) :=
  .bind (.updateRow h) fun _ => .ensure _ _

/-- A fenced update of a table whose writes leave the log alone. -/
theorem logs_fencedUpdate [Keyed α] {T : TableOf DB α} {p : α → Bool} {f : α → α} {hf}
    (h : ∀ t db, Logs P db (T.set t db)) : Respects (Logs P) (fencedUpdate T i p f hf) :=
  respects_fencedUpdate h

theorem logs_workflowTable (t : Table WorkflowRow) (db : DB) : Logs P db (workflowTable.set t db) :=
  .of_eq rfl rfl rfl

theorem logs_activityTable (t : Table ActivityRow) (db : DB) : Logs P db (activityTable.set t db) :=
  .of_eq rfl rfl rfl

theorem logs_approvalTable (t : Table ApprovalRow) (db : DB) : Logs P db (approvalTable.set t db) :=
  .of_eq rfl rfl rfl

theorem logs_scheduleRunTable (t : Table ScheduleRunRow) (db : DB) :
    Logs P db (scheduleRunTable.set t db) :=
  .of_eq rfl rfl rfl

theorem logs_firstRow [Keyed α] {T : TableOf DB α} : Respects (Logs P) (firstRow T i) :=
  .bind (.findRow i) fun _ => .orAbort _ _

theorem logs_appendEvent {e : WorkflowEventRow} (h : P e) : Respects (Logs P) (appendEvent e) := by
  refine .bind .read fun _ => .bind (.ensure _ _) fun _ => .bind (.ensure _ _) fun _ => ?_
  exact .modify fun db => ⟨⟨[e], rfl, List.forall_mem_singleton.mpr h⟩, rfl, rfl⟩

theorem logs_nextEventSequence : Respects (Logs P) (nextEventSequence workflowId) :=
  .bind .read fun _ => .orAbort _ _

/-- A history event is one that names its actor and its reason. -/
theorem logs_appendHistoryEvent
    (h : ∀ n, P ⟨workflowId, n, none, eventType, metadata, some actorType, actorId, reason, now⟩) :
    Respects (Logs P)
      (appendHistoryEvent workflowId eventType actorType actorId reason metadata now) :=
  .bind logs_nextEventSequence fun n => logs_appendEvent (h n)

theorem logs_appendDelivery {d : ℕ}
    (h : ∀ n, P ⟨workflowId, n, some d, eventType, metadata, some actorType, actorId, reason, now⟩) :
    Respects (Logs P)
      (appendDelivery workflowId d eventType metadata actorType actorId reason now) :=
  .bind logs_nextEventSequence fun n => logs_appendEvent (h n)

/-- What the engine appends as itself. -/
theorem logs_appendHistoryEvent_system :
    Respects (Logs WorkflowEventRow.BySystem)
      (appendHistoryEvent workflowId eventType .system none reason metadata now) :=
  logs_appendHistoryEvent fun _ => ⟨rfl, rfl⟩

theorem logs_appendDelivery_system {d : ℕ} :
    Respects (Logs WorkflowEventRow.BySystem)
      (appendDelivery workflowId d eventType metadata .system none reason now) :=
  logs_appendDelivery fun _ => ⟨rfl, rfl⟩

theorem logs_updateOpenAttempt {a : ActivityId} {n : ℕ} {token : LeaseToken}
    {f : ActivityAttemptRow → ActivityAttemptRow} :
    Respects (Logs P) (updateOpenAttempt a n token f) := by
  refine .bind .read fun _ => .bind (.orAbort _ _) fun _ => ?_
  exact .modify fun _ => .of_eq rfl rfl rfl

end Statements

-- ════════════════════════════════════════════════════════════════════════
-- Starts
-- ════════════════════════════════════════════════════════════════════════

section Starts

theorem logs_insertStarted {row : WorkflowRow} :
    Respects (Logs WorkflowEventRow.BySystem) (insertStarted row now) := by
  have hinsert : Respects (Logs WorkflowEventRow.BySystem) (insertWorkflow row) := by
    refine .bind (.ensure _ _) fun _ => .bind (.selectRows _) fun _ => .ite ?_ (.pure _)
    refine .bind (.selectRows _) fun _ => .bind (.ensure _ _) fun _ => ?_
    exact .bind (.insertRow logs_workflowTable) fun _ => .pure _
  refine .bind hinsert fun outcome => ?_
  cases outcome with
  | inserted id => exact .bind (logs_appendEvent ⟨rfl, rfl⟩) fun _ => .pure _
  | deduplicationConflict =>
    refine .bind (.orAbort _ _) fun _ => .bind ?_ fun _ => .bind (.orAbort _ _) fun _ => .pure _
    exact .bind (.selectRows _) fun _ => .pure _

theorem logs_insertPrepared {workflow : PreparedWorkflowStart} {options : StartOptions} :
    Respects (Logs WorkflowEventRow.BySystem) (insertPrepared workflow options now) := by
  have hfind : ∀ key, Respects (Logs WorkflowEventRow.BySystem) (findStarted workflow.kind key) := by
    intro key
    cases key with
    | none => exact .pure _
    | some key => exact .bind (.selectRows _) fun _ => .pure _
  refine .bind (hfind _) fun found => ?_
  cases found with
  | some existing => exact .pure _
  | none =>
    refine .bind logs_insertStarted fun inserted => ?_
    cases inserted <;> exact .pure _

theorem logs_newestGenerationFrom {fuel : ℕ} {row : WorkflowRow} :
    Respects (Logs P) (newestGenerationFrom fuel row) := by
  induction fuel generalizing row with
  | zero => exact .abort _
  | succ fuel ih =>
    refine .bind (.bind (.selectRows _) fun _ => .pure _) fun successor => ?_
    cases successor with
    | none => exact .pure _
    | some successor => exact ih

theorem logs_lockNewestGeneration {row : WorkflowRow} :
    Respects (Logs P) (lockNewestGeneration row) :=
  .bind .read fun _ => logs_newestGenerationFrom

theorem logs_existingChild {child : ChildWorkflowCommand} {keyed : WorkflowRow} :
    Respects (Logs P) (existingChild child keyed) :=
  .bind logs_lockNewestGeneration fun _ => .bind (.ensure _ _) fun _ => .pure _

theorem logs_insertChild {child : ChildWorkflowCommand} {key : String} {parent root : WorkflowId}
    {command : ℕ} :
    Respects (Logs WorkflowEventRow.BySystem) (insertChild child key parent command root now) := by
  refine .bind (.ensure _ _) fun _ => .bind (.bind (.selectRows _) fun _ => .pure _) fun keyed => ?_
  cases keyed with
  | some keyed => exact .bind logs_firstRow fun _ => logs_existingChild
  | none =>
    refine .bind logs_insertStarted fun inserted => ?_
    cases inserted with
    | inserted id => exact .pure _
    | existing keyed => exact logs_existingChild

/-- The delivery of a child's outcome is the engine's. -/
theorem logs_wakeLoadedParent {parent : WorkflowRow} {c : WorkflowId} {kind : String} {version : ℤ}
    {outcome : ChildOutcome} :
    Respects (Logs WorkflowEventRow.BySystem)
      (wakeLoadedParentOnChildTerminal parent c kind version outcome now) := by
  unfold wakeLoadedParentOnChildTerminal
  dsimp only
  split
  all_goals
    refine .bind (by first | exact .ofExcept _ | exact .pure _) fun _ => .ite ?_ (.pure _)
    refine .bind (.ofExcept _) fun _ => .bind (.orAbort _ _) fun _ => ?_
    exact .bind logs_appendDelivery_system fun _ => logs_fencedUpdate logs_workflowTable

theorem logs_wakeWaitingParents {child : WorkflowRow} {outcome : ChildOutcome} :
    Respects (Logs WorkflowEventRow.BySystem)
      (wakeWaitingParentsOnChildTerminal child outcome now) :=
  .bind (.selectRows _) fun _ => .forEach fun _ => logs_wakeLoadedParent

end Starts

-- ════════════════════════════════════════════════════════════════════════
-- Cancels
-- ════════════════════════════════════════════════════════════════════════

/-- What a cancel writes: the engine's events, and for an operator the cancellations in its name. -/
def CancelledFor (operatorId : Option String) (e : WorkflowEventRow) : Prop :=
  e.BySystem ∨ e.eventType = .workflowCancelled ∧ ∃ id, operatorId = some id ∧ e.ByOperator id

/-- A cancel that no operator asked for is the engine's own. -/
theorem bySystem_of_cancelledFor_none {e : WorkflowEventRow} (h : CancelledFor none e) :
    e.BySystem := by
  rcases h with h | ⟨-, id, hid, -⟩
  · exact h
  · cases hid

section Cancels

variable {reason : String} {outcome : AttemptOutcome} {operatorId : Option String}
  {w : WorkflowId}

theorem logs_closeAttempt {activity : ActivityRow} :
    Respects (Logs P) (closeAttempt activity outcome reason now) :=
  .bind (.orAbort _ _) fun _ => logs_updateOpenAttempt

section Generic

variable {R : DB → DB → Prop} [IsPreorder DB R]

theorem respects_cancelActivity {activity : ActivityRow}
    (h : ∀ t db, R db (activityTable.set t db)) :
    Respects R (cancelActivity activity reason outcome now) := by
  unfold cancelActivity
  split
  · exact .bind (.orAbort _ _) fun _ => respects_fencedUpdate h
  · exact .bind (.orAbort _ _) fun _ => respects_fencedUpdate h
  · exact respects_fencedUpdate h
  all_goals exact .abort _

theorem respects_cancelActivities (h : ∀ t db, R db (activityTable.set t db)) :
    Respects R (cancelActivities w reason outcome now) :=
  .bind (.selectRows _) fun _ => .forEach fun _ => respects_cancelActivity h

theorem respects_cancelApprovals (h : ∀ t db, R db (approvalTable.set t db)) :
    Respects R (cancelApprovals w reason now) :=
  .bind (.selectRows _) fun _ => .forEach fun _ => respects_fencedUpdate h

end Generic

theorem logs_cancelOneWorkflow {workflow : WorkflowRow} :
    Respects (Logs (CancelledFor operatorId)) (cancelOneWorkflow workflow reason operatorId now) := by
  refine .bind (respects_cancelActivities logs_activityTable) fun _ => ?_
  refine .bind (respects_cancelApprovals logs_approvalTable) fun _ => ?_
  refine .bind (logs_fencedUpdate logs_workflowTable) fun _ => .bind ?_ fun _ => ?_
  · cases operatorId with
    | none => exact logs_appendHistoryEvent fun _ => .inl ⟨rfl, rfl⟩
    | some id => exact logs_appendHistoryEvent fun _ => .inr ⟨rfl, id, rfl, rfl, rfl⟩
  · exact logs_of_system logs_wakeWaitingParents fun _ => .inl

/-- What every cancel of an open workflow respects, its cascade respects. -/
theorem respects_cancelGenerations {R : DB → DB → Prop} [IsPreorder DB R]
    (h : ∀ (workflow : WorkflowRow) (reason : String), workflow.status.isTerminal = false →
      Respects R (cancelOneWorkflow workflow reason operatorId now))
    {fuel : ℕ} {generation : WorkflowRow} {parents : List (WorkflowId × String)} :
    Respects R (cancelGenerations reason operatorId now fuel generation parents) := by
  induction fuel generalizing generation parents with
  | zero => exact .abort _
  | succ fuel ih =>
    have hsuccessor : ∀ g : Option WorkflowRow → Tx (List (WorkflowId × String)),
        Respects R (g none) → (∀ successor, Respects R (g (some successor))) →
        Respects R (lockSuccessor generation >>= g) := by
      intro g hnone hsome
      refine .bind (.bind (.selectRows _) fun _ => .pure _) fun successor => ?_
      cases successor with
      | none => exact hnone
      | some successor => exact hsome successor
    unfold cancelGenerations
    dsimp only
    split
    · exact .bind (.pure _) fun _ => hsuccessor _ (.pure _) fun _ => ih
    next hopen =>
      refine .bind (h generation reason (Bool.eq_false_of_not_eq_true hopen)) fun _ => ?_
      exact .bind (.pure _) fun _ => hsuccessor _ (.pure _) fun _ => ih

theorem respects_cancelOwnedDescendants {R : DB → DB → Prop} [IsPreorder DB R]
    (h : ∀ (workflow : WorkflowRow) (reason : String), workflow.status.isTerminal = false →
      Respects R (cancelOneWorkflow workflow reason operatorId now)) :
    Respects R (cancelOwnedDescendants w reason operatorId now) := by
  have hloop : ∀ (fuel : ℕ) (parents : List (WorkflowId × String)),
      Respects R (cancelDescendantsOf operatorId now fuel parents) := by
    intro fuel
    induction fuel with
    | zero =>
      intro parents
      cases parents with
      | nil => exact .pure _
      | cons => exact .abort _
    | succ fuel ih =>
      intro parents
      cases parents with
      | nil => exact .pure _
      | cons parent parents =>
        refine .bind (.bind (.selectRows _) fun _ => .pure _) fun _ => ?_
        refine .bind (.foldEach fun _ _ => ?_) fun _ => ih _
        refine .bind (.bind (.findRow _) fun _ => .orAbort _ _) fun _ => .bind .read fun _ => ?_
        exact respects_cancelGenerations h
  exact .bind .read fun _ => hloop _ _

theorem logs_cancelOwnedDescendants :
    Respects (Logs (CancelledFor operatorId)) (cancelOwnedDescendants w reason operatorId now) :=
  respects_cancelOwnedDescendants fun _ _ _ => logs_cancelOneWorkflow

theorem logs_cancelLockedWorkflow {workflow : WorkflowRow} :
    Respects (Logs (CancelledFor operatorId))
      (cancelLockedWorkflow workflow reason operatorId now) :=
  .bind logs_cancelOneWorkflow fun _ => logs_cancelOwnedDescendants

theorem logs_cancel : Respects (Logs WorkflowEventRow.BySystem) (cancel w reason now) := by
  refine .bind (.ensure _ _) fun _ => .bind (.findRow _) fun _ => .bind (.orAbort _ _) fun _ => ?_
  refine .onlyIf (logs_cancelLockedWorkflow.mono fun _ _ h => h.mono fun _ => ?_)
  exact bySystem_of_cancelledFor_none

theorem logs_supersedeBlocked {latest : WorkflowRow} {successor : WorkflowId} {version : ℤ} :
    Respects (Logs WorkflowEventRow.BySystem) (supersedeBlocked latest successor version now) := by
  refine .bind (logs_fencedUpdate logs_workflowTable) fun _ => ?_
  refine .bind logs_appendHistoryEvent_system fun _ => .bind (.ite ?_ logs_wakeWaitingParents)
    fun _ => logs_cancelOwnedDescendants.mono fun _ _ h => h.mono fun _ =>
      bySystem_of_cancelledFor_none
  refine .bind (.selectRows _) fun _ => .forEach fun _ => ?_
  exact .bind (logs_fencedUpdate logs_workflowTable) fun _ => logs_appendHistoryEvent_system

theorem logs_startOrRestartRecoverable {workflow : PreparedWorkflowStart}
    {options : ApplicationStartOptions} :
    Respects (Logs WorkflowEventRow.BySystem) (startOrRestartRecoverable workflow options now) := by
  refine .bind (.ofExcept _) fun _ => ?_
  unfold recoverableStartIn
  split
  · exact logs_insertPrepared
  · refine .bind (.bind (.selectRows _) fun _ => .pure _) fun original => ?_
    cases original with
    | none => exact logs_insertPrepared
    | some original =>
      refine .bind logs_lockNewestGeneration fun _ => .ite ?_ (.pure _)
      refine .bind logs_insertPrepared fun _ => .bind (.updateRows logs_activityTable) fun _ => ?_
      exact .bind (.onlyIf logs_supersedeBlocked) fun _ => .pure _

end Cancels

-- ════════════════════════════════════════════════════════════════════════
-- The coordinator
-- ════════════════════════════════════════════════════════════════════════

section Coordinator

variable {config : CoordinatorConfig} {claim : ClaimedRow} {stateJson : String}
  {delivered command : ℕ}

theorem logs_lockFirst {locked : WorkflowId → Bool} {qualifies : WorkflowRow → Bool}
    {ids : List WorkflowId} : Respects (Logs P) (lockFirst locked qualifies ids) := by
  induction ids with
  | nil => exact .pure _
  | cons id ids ih =>
    refine .bind (.findRow _) fun candidate => ?_
    split
    · exact .pure _
    · exact ih

theorem logs_findExpired {locked : WorkflowId → Bool} {fuel : ℕ}
    {cursor : Option (DbMillis × WorkflowId)} :
    Respects (Logs P) (findExpired locked now fuel cursor) := by
  induction fuel generalizing cursor with
  | zero => exact .abort _
  | succ fuel ih =>
    refine .bind (.selectRows _) fun expired => ?_
    dsimp only
    split
    · exact .pure _
    · refine .bind logs_lockFirst fun found => ?_
      cases found with
      | some row => exact .pure _
      | none => exact .ite (.pure _) ih

theorem logs_claimRow {registry : WorkflowRegistry} {locked : WorkflowId → Bool} {workerId : String}
    {token : LeaseToken} :
    Respects (Logs WorkflowEventRow.BySystem)
      (claimRow config registry locked workerId token now) := by
  refine .bind (.ofExcept _) fun _ => .bind (.orAbort _ _) fun _ => .bind .read fun _ => ?_
  refine .bind logs_findExpired fun expired => .bind ?_ fun _ => ?_
  · cases expired with
    | none => exact .pure _
    | some row =>
      exact .bind (logs_fencedUpdate logs_workflowTable) fun _ => logs_appendHistoryEvent_system
  · refine .bind (.selectRows _) fun _ => .bind logs_lockFirst fun found => ?_
    cases found with
    | none => exact .pure _
    | some row => exact .bind (logs_fencedUpdate logs_workflowTable) fun _ => .pure _

theorem logs_activate : Respects (Logs P) (activate claim) := by
  refine .bind (.bind .read fun _ => .pure _) fun _ => .bind (.orAbort _ _) fun _ => ?_
  exact .bind (.ofExcept _) fun _ => .pure _

theorem logs_insertActivity {row : ActivityRow} : Respects (Logs P) (insertActivity row) := by
  refine .bind (.ensure _ _) fun _ => .bind (.ensure _ _) fun _ => .bind (.selectRows _) fun _ => ?_
  exact .bind (.ensure _ _) fun _ => .insertRow logs_activityTable

theorem logs_lockFence : Respects (Logs P) (lockFence claim) :=
  .bind (.findRow _) fun _ => .ensure _ _

theorem logs_commitContinue :
    Respects (Logs WorkflowEventRow.BySystem)
      (commitContinue config claim delivered stateJson now) :=
  .bind (.ofExcept _) fun _ => .bind (logs_fencedUpdate logs_workflowTable) fun _ =>
    logs_appendDelivery_system

theorem logs_commitComplete {outputJson : String} :
    Respects (Logs WorkflowEventRow.BySystem) (commitComplete claim delivered outputJson now) :=
  .bind (logs_fencedUpdate logs_workflowTable) fun _ => .bind logs_appendHistoryEvent_system fun _ =>
    logs_wakeWaitingParents

theorem logs_commitSleep {wakeAt : DbMillis} :
    Respects (Logs WorkflowEventRow.BySystem)
      (commitSleep claim delivered command stateJson wakeAt now) :=
  .bind (logs_fencedUpdate logs_workflowTable) fun _ => logs_appendHistoryEvent_system

theorem logs_commitApproval {approvalJson : String} {expiresAt : Option DbMillis} :
    Respects (Logs WorkflowEventRow.BySystem)
      (commitApproval claim delivered command stateJson approvalJson expiresAt now) := by
  refine .bind logs_lockFence fun _ => .bind ?_ fun _ => ?_
  · refine .bind (.ensure _ _) fun _ => .bind (.selectRows _) fun _ => ?_
    exact .bind (.ensure _ _) fun _ => .insertRow logs_approvalTable
  · exact .bind (logs_fencedUpdate logs_workflowTable) fun _ => logs_appendHistoryEvent_system

theorem logs_commitActivity {activity : ActivityCommand} :
    Respects (Logs WorkflowEventRow.BySystem)
      (commitActivity claim delivered command stateJson activity now) := by
  refine .bind logs_lockFence fun _ => .bind (.ofExcept _) fun _ => ?_
  refine .bind logs_insertActivity fun _ => ?_
  exact .bind (logs_fencedUpdate logs_workflowTable) fun _ => logs_appendHistoryEvent_system

theorem logs_ancestorFrom {target : WorkflowId} {fuel : ℕ} {id : Option WorkflowId} :
    Respects (Logs P) (ancestorFrom claim target fuel id) := by
  induction fuel generalizing id with
  | zero =>
    cases id with
    | none => exact .pure _
    | some id => exact .abort _
  | succ fuel ih =>
    cases id with
    | none => exact .pure _
    | some id =>
      unfold ancestorFrom
      refine .ite (.pure _) ?_
      dsimp only
      split
      · exact .bind (.pure _) fun _ => ih
      · exact .bind logs_firstRow fun _ => ih

theorem logs_commitChild {child : ChildWorkflowCommand} :
    Respects (Logs WorkflowEventRow.BySystem)
      (commitChild claim delivered command stateJson child now) := by
  have hend : ∀ outcome : ChildStart,
      Respects (Logs WorkflowEventRow.BySystem) (deliverExistingOutcome outcome now) := by
    intro outcome
    cases outcome with
    | inserted id => exact .pure _
    | existing row =>
      unfold deliverExistingOutcome
      dsimp only
      split
      · exact logs_wakeWaitingParents
      · exact .pure _
  refine .bind logs_insertChild fun outcome => ?_
  dsimp only
  split
  all_goals
    refine .bind (by first | exact .pure _ | exact .bind .read fun _ => logs_ancestorFrom)
      fun _ => ?_
    refine .bind (.ensure _ _) fun _ => .bind (logs_fencedUpdate logs_workflowTable) fun _ => ?_
    exact .bind logs_appendHistoryEvent_system fun _ => hend outcome

theorem logs_commitOnConnection {event : WorkflowEventRow} {transition : StoredTransition} :
    Respects (Logs WorkflowEventRow.BySystem)
      (commitOnConnection config claim event transition now) := by
  refine .bind (.orAbort _ _) fun delivered => ?_
  cases transition with
  | «continue» => exact logs_commitContinue
  | complete => exact logs_commitComplete
  | sleepUntil => exact logs_commitSleep
  | waitForApproval => exact logs_commitApproval
  | runActivity => exact logs_commitActivity
  | runChild => exact logs_commitChild

theorem logs_recordActivationFailure {message : String} :
    Respects (Logs WorkflowEventRow.BySystem)
      (recordActivationFailure externals config claim message now) := by
  refine .bind (.findRow _) fun _ => .bind (.orAbort _ _) fun _ => .bind (.ofExcept _) fun _ => ?_
  refine .bind (.ofExcept _) fun _ => .bind (logs_fencedUpdate logs_workflowTable) fun _ => ?_
  exact .bind logs_appendHistoryEvent_system fun _ => .onlyIf logs_wakeWaitingParents

end Coordinator

-- ════════════════════════════════════════════════════════════════════════
-- The activity worker and the materializers
-- ════════════════════════════════════════════════════════════════════════

section Worker

variable {claim : ActivityClaim} {row : ActivityRow} {reason message category : String}
  {outcome : AttemptOutcome} {registry : ActivityRegistry} {topics : List TopicDefinition}
  {locks : HeldLocks} {topic workerId : String} {started : Instant} {token : LeaseToken}

theorem logs_blockWorkflow :
    Respects (Logs WorkflowEventRow.BySystem) (blockWorkflow row category message now) :=
  .bind (logs_fencedUpdate logs_workflowTable) fun _ => logs_appendHistoryEvent_system

theorem logs_settleRevoked :
    Respects (Logs WorkflowEventRow.BySystem) (settleRevoked row outcome message now) := by
  refine .bind (.orAbort _ _) fun _ => .bind logs_firstRow fun _ => .bind logs_closeAttempt fun _ => ?_
  exact .bind (logs_fencedUpdate logs_activityTable) fun _ => logs_appendHistoryEvent_system

theorem logs_reconcileCandidate :
    Respects (Logs WorkflowEventRow.BySystem)
      (reconcileCandidate externals locks topic now row) := by
  refine .bind (.findRow _) fun workflow => ?_
  split
  · exact .pure _
  refine .bind (.findRow _) fun found => ?_
  split
  · exact .pure _
  next expired _ =>
    split
    · refine .bind ?_ fun _ => .pure _
      refine .bind (.orAbort _ _) fun _ => .bind (.ofExcept _) fun _ => ?_
      refine .bind (logs_fencedUpdate logs_activityTable) fun _ => ?_
      refine .bind logs_updateOpenAttempt fun _ => ?_
      exact .bind logs_appendHistoryEvent_system fun _ => .onlyIf logs_blockWorkflow
    · exact .bind logs_settleRevoked fun _ => .pure _
    all_goals exact .abort _

theorem logs_reconcileExpired :
    Respects (Logs WorkflowEventRow.BySystem) (reconcileExpired externals locks topic now) :=
  .bind (.selectRows _) fun _ => .foldEach fun _ _ => .bind logs_reconcileCandidate fun _ => .pure _

theorem logs_inFlight {unsettled : List ActivityId} :
    Respects (Logs P) (inFlight topic unsettled now) :=
  .bind (.selectRows _) fun _ => .pure _

theorem logs_quarantineCandidate :
    Respects (Logs WorkflowEventRow.BySystem) (quarantineCandidate row reason message now) :=
  .bind (logs_fencedUpdate logs_activityTable) fun _ => .bind logs_appendHistoryEvent_system fun _ =>
    logs_blockWorkflow

theorem logs_leaseCandidate {scheduleRunId : Option ScheduleRunId} {policy : RetryPolicy} :
    Respects (Logs P) (leaseCandidate row scheduleRunId policy now started workerId token) := by
  refine .bind (.orAbort _ _) fun _ => .bind (.orAbort _ _) fun _ => ?_
  refine .bind (logs_fencedUpdate logs_activityTable) fun _ => .bind ?_ fun _ => ?_
  · exact .bind .read fun _ => .bind (.ensure _ _) fun _ => .modify fun _ => .of_eq rfl rfl rfl
  · exact .bind (.ofExcept _) fun _ => .pure _

theorem logs_claimLockedCandidate {a : ActivityId} {w : WorkflowId} :
    Respects (Logs WorkflowEventRow.BySystem)
      (claimLockedCandidate registry locks a w now started workerId token) := by
  refine .bind (.findRow _) fun workflow => ?_
  split
  · exact .pure _
  refine .bind (.findRow _) fun found => ?_
  split
  · exact .pure _
  refine .ite (.pure _) (.ite ?_ (.ite ?_ ?_))
  · exact .bind logs_quarantineCandidate fun _ => .pure _
  · exact .bind logs_quarantineCandidate fun _ => .pure _
  · split
    · exact .bind logs_quarantineCandidate fun _ => .pure _
    · exact .bind logs_leaseCandidate fun _ => .pure _

theorem logs_claimCandidates : Respects (Logs P) (claimCandidates registry topic now) :=
  .bind .read fun _ => .bind (.selectRows _) fun _ => .pure _

theorem logs_claimFirst {candidates : List ActivityRow} :
    Respects (Logs WorkflowEventRow.BySystem)
      (claimFirst registry locks now started workerId token candidates) := by
  induction candidates with
  | nil => exact .pure _
  | cons candidate candidates ih =>
    refine .bind logs_claimLockedCandidate fun claim => ?_
    cases claim with
    | some claim => exact .pure _
    | none => exact ih

theorem logs_claimOne :
    Respects (Logs WorkflowEventRow.BySystem)
      (claimOne externals registry topics locks topic workerId token now started) := by
  refine .bind (.ensure _ _) fun _ => .bind .read fun _ => .bind (.orAbort _ _) fun _ => ?_
  refine .bind logs_reconcileExpired fun _ => .bind logs_inFlight fun _ => .ite (.pure _) ?_
  exact .bind logs_claimCandidates fun _ => logs_claimFirst

theorem logs_claimUpTo {limit wanted : ℕ} {candidates : List ActivityRow}
    {claims : List ActivityClaim} :
    Respects (Logs WorkflowEventRow.BySystem)
      (claimUpTo registry locks topic limit wanted now started workerId token candidates claims) := by
  induction candidates generalizing claims with
  | nil => exact .pure _
  | cons candidate candidates ih =>
    exact .ite (.pure _) (.bind logs_claimLockedCandidate fun _ => ih)

theorem logs_claimTopics {limit : ℕ} {capacity : List (String × ℕ)} {locked : List TopicLockRow}
    {claims : List ActivityClaim} :
    Respects (Logs WorkflowEventRow.BySystem)
      (claimTopics externals registry locks limit capacity workerId token now started locked
        claims) := by
  induction locked generalizing claims with
  | nil => exact .pure _
  | cons lock locked ih =>
    refine .bind logs_reconcileExpired fun _ => .bind logs_inFlight fun _ => .ite ih ?_
    refine .ite (.pure _) ?_
    exact .bind logs_claimCandidates fun _ => .bind logs_claimUpTo fun _ => ih

theorem logs_claimBatch {limit : ℕ} {capacity : List (String × ℕ)} :
    Respects (Logs WorkflowEventRow.BySystem)
      (claimBatch externals registry topics locks limit capacity workerId token now started) :=
  .bind .read fun _ => .ite (.pure _) logs_claimTopics

theorem logs_heartbeatOnce : Respects (Logs P) (heartbeatOnce claim now) := by
  refine .bind (.orAbort _ _) fun _ => .bind (.findRow _) fun _ => .bind (.orAbort _ _) fun row => ?_
  refine .bind (logs_fencedUpdate logs_activityTable) fun _ => .bind logs_updateOpenAttempt fun _ => ?_
  split
  · exact .pure _
  · exact .pure _
  all_goals exact .abort _

theorem logs_deadLetter :
    Respects (Logs WorkflowEventRow.BySystem) (deadLetter claim row category message now) :=
  .bind (logs_fencedUpdate logs_activityTable) fun _ => .bind logs_updateOpenAttempt fun _ =>
    logs_blockWorkflow

theorem logs_finishSucceeded {output : String} :
    Respects (Logs WorkflowEventRow.BySystem) (finishSucceeded claim output now) := by
  refine .bind (logs_fencedUpdate logs_activityTable) fun _ => .bind logs_updateOpenAttempt fun _ => ?_
  refine .bind logs_firstRow fun _ => .bind (.ensure _ _) fun _ => .bind (.ofExcept _) fun _ => ?_
  exact .bind logs_appendDelivery_system fun _ => logs_fencedUpdate logs_workflowTable

theorem logs_finishRetry :
    Respects (Logs WorkflowEventRow.BySystem)
      (finishRetry externals claim category message now) := by
  refine .bind (.ofExcept _) fun _ => .bind (.ofExcept _) fun _ => ?_
  refine .bind (logs_fencedUpdate logs_activityTable) fun _ => .bind logs_updateOpenAttempt fun _ => ?_
  exact logs_appendHistoryEvent_system

theorem logs_finishOnConnection {outcome : ExecutionOutcome} :
    Respects (Logs WorkflowEventRow.BySystem)
      (finishOnConnection externals claim outcome now) := by
  refine .bind logs_firstRow fun _ => .bind (.findRow _) fun _ => .bind (.orAbort _ _) fun row => ?_
  split
  · exact .bind (.ofExcept _) fun _ => logs_settleRevoked
  · exact .abort _
  · exact logs_finishSucceeded
  · exact .ite logs_deadLetter logs_finishRetry
  · exact logs_deadLetter
  all_goals exact .abort _

/-- The event of a timer or of an expired approval. -/
theorem logs_appendDeliveryEvent {workflow : WorkflowRow} {eventType : EventType}
    {event : WorkflowEvent} :
    Respects (Logs WorkflowEventRow.BySystem)
      (appendDeliveryEvent externals workflow eventType event now) :=
  .bind (.ofExcept _) fun _ => .bind (.orAbort _ _) fun _ => logs_appendDelivery_system

theorem logs_materializeTimer {locked : WorkflowId → Bool} :
    Respects (Logs WorkflowEventRow.BySystem) (materializeTimer externals locked now) := by
  refine .bind (.selectRows _) fun due => ?_
  split
  · exact .pure _
  · refine .bind (.ofExcept _) fun _ => .bind logs_appendDeliveryEvent fun _ => ?_
    exact .bind (logs_fencedUpdate logs_workflowTable) fun _ => .pure _

theorem logs_materializeApproval {p : ApprovalId} :
    Respects (Logs WorkflowEventRow.BySystem) (materializeApproval externals p now) := by
  refine .bind logs_firstRow fun _ => .bind logs_firstRow fun _ => .ite ?_ (.pure _)
  refine .bind (.ofExcept _) fun _ => .bind logs_appendDeliveryEvent fun _ => ?_
  refine .bind (logs_fencedUpdate logs_approvalTable) fun _ => ?_
  exact .bind (logs_fencedUpdate logs_workflowTable) fun _ => .pure _

end Worker

-- ════════════════════════════════════════════════════════════════════════
-- Actions
-- ════════════════════════════════════════════════════════════════════════

/-- The operator who asked for an action. -/
def Action.operator? : Action → Option Operator
  | pause _ operator _ | resume _ operator _ | cancelWorkflow _ operator _
  | restart _ _ _ operator _ | retry _ _ _ operator _ | resolveApproval _ _ _ operator _
  | recordScheduleRunNow _ operator _ => some operator
  | start .. | startPrepared .. | recoverableStart .. | cancel .. | claimWorkflow .. | activate ..
  | commit .. | failActivation .. | seedLocks .. | claimActivity .. | claimActivities ..
  | heartbeat .. | finish .. | reportProgress .. | fireTimer .. | expireApproval ..
  | writeScheduleRuns .. => none

section Exec

variable {s s' : Sys} {action : Action} {β : Type} {R : DB → DB → Prop}

/-- The actions that write progress and topics. -/
def Action.writesTables : Action → Bool
  | seedLocks .. | reportProgress .. => true
  | _ => false

/-- A start of a worker writes topics only. -/
theorem keeps_seedLocks {topics : List TopicDefinition} :
    Keeps (fun db : DB => (db.events, db.progress)) (seedLocks topics now) :=
  .forEach fun _ => .bind (.ensure _ _) fun _ => .modify fun _ => rfl

/-- A report writes progress only. -/
theorem keeps_report {claim : ActivityClaim} {event : ProgressEvent} :
    Keeps (fun db : DB => (db.events, db.topicLocks)) (report externals claim event now) := by
  refine .bind (.ofExcept _) fun _ => .bind (fun _ => rfl) fun _ => .bind (.ensure _ _) fun _ => ?_
  refine .bind .read fun _ => .ite (.pure _) ?_
  refine .bind (.orAbort _ _) fun _ => .bind (.ensure _ _) fun _ => ?_
  exact .bind (.modify fun _ => rfl) fun _ => .pure _

/-- What a transaction respects, the database of its state respects. -/
theorem transact_respects {x : Tx α} {record : α → Sys → Sys} (hx : Respects R x)
    (h : s.transact x record = .ok s') (hrecord : ∀ a s, (record a s).db = s.db) :
    R s.db s'.db := by
  obtain ⟨a, db', hok, rfl⟩ := transact_ok h
  rw [hrecord]
  exact hx.ok hok

theorem transact'_respects {x : Tx α} (hx : Respects R x) (h : s.transact' x = .ok s') :
    R s.db s'.db :=
  transact_respects hx h fun _ _ => rfl

/-- What the engine's own actions do to the log. -/
theorem exec_engine (hnone : action.operator? = none) (htables : action.writesTables = false)
    (h : exec externals s action = .ok s') : Logs WorkflowEventRow.BySystem s.db s'.db := by
  cases action with
  | pause | resume | cancelWorkflow | restart | retry | resolveApproval | recordScheduleRunNow =>
    cases hnone
  | seedLocks | reportProgress => cases htables
  | start =>
    exact transact'_respects (.bind (.ofExcept _) fun _ => logs_insertPrepared) h
  | startPrepared =>
    exact transact'_respects (.bind (.ofExcept _) fun _ => logs_insertPrepared) h
  | recoverableStart => exact transact'_respects logs_startOrRestartRecoverable h
  | cancel => exact transact'_respects logs_cancel h
  | claimWorkflow =>
    rw [exec] at h
    exact transact_respects logs_claimRow h fun _ _ => rfl
  | activate =>
    obtain ⟨claim, -, h⟩ := nth_bind_ok h
    exact transact_respects logs_activate h fun _ _ => rfl
  | commit =>
    obtain ⟨claim, -, h⟩ := nth_bind_ok h
    exact transact'_respects logs_commitOnConnection h
  | failActivation =>
    obtain ⟨claim, -, h⟩ := nth_bind_ok h
    exact transact'_respects logs_recordActivationFailure h
  | claimActivity =>
    rw [exec] at h
    exact transact_respects logs_claimOne h fun _ _ => rfl
  | claimActivities =>
    rw [exec] at h
    exact transact_respects logs_claimBatch h fun _ _ => rfl
  | heartbeat =>
    obtain ⟨claim, -, h⟩ := nth_bind_ok h
    exact transact_respects logs_heartbeatOnce h fun _ _ => by split <;> rfl
  | finish =>
    obtain ⟨claim, -, h⟩ := nth_bind_ok h
    exact transact'_respects logs_finishOnConnection h
  | fireTimer => exact transact'_respects logs_materializeTimer h
  | expireApproval => exact transact'_respects logs_materializeApproval h
  | writeScheduleRuns =>
    cases h
    exact .of_eq rfl rfl rfl

/-- What an action that no operator asked for appends is the engine's own. -/
theorem exec_logs (hnone : action.operator? = none) (h : exec externals s action = .ok s') :
    ∃ es, s'.db.events = s.db.events ++ es ∧ ∀ e ∈ es, e.BySystem := by
  by_cases htables : action.writesTables = false
  · exact (exec_engine hnone htables h).events
  suffices heq : s'.db.events = s.db.events from
    ⟨[], by rw [heq, List.append_nil], fun _ h => by cases h⟩
  cases action with
  | seedLocks =>
    obtain ⟨_, db', hseed, rfl⟩ := transact'_ok h
    exact congrArg Prod.fst (keeps_seedLocks.ok hseed)
  | reportProgress =>
    obtain ⟨claim, -, h⟩ := nth_bind_ok h
    obtain ⟨_, db', hreport, rfl⟩ := transact'_ok h
    exact congrArg Prod.fst (keeps_report.ok hreport)
  | _ => exact absurd rfl htables

end Exec

end DurableWorkflows
