import DurableWorkflows.Engine.Actors
import DurableWorkflows.Engine.Cascade

/-!
# The audit trail

The events that name an operator are the audit trail of a deployment. Every control that
commits leaves its own entries there, and nothing else does: not a control that fails, not the
engine, and not the application. The entries that record an end are one for each workflow that
the control ended.

## Main definitions

- `AuditEntry`, `auditTrail`: the operators' events of a log
- `Action.Audited`: the entries of a control that committed
- `Action.EndsOnce`: the entries of a control that record an end, against what it ended

## Main results

- `exec_audited`, `exec_endsOnce`: one action
- `exec_tables`: who writes progress and topics
- `run_audit`: the trail of every run
-/

namespace DurableWorkflows

open Transaction

-- ════════════════════════════════════════════════════════════════════════
-- The trail
-- ════════════════════════════════════════════════════════════════════════

/-- What an operator's event says. -/
structure AuditEntry where
  workflowId : WorkflowId
  eventType : EventType
  actorId : Option String
  reason : Option String
  deriving DecidableEq

/-- The entry of an event, if it names an operator. -/
def WorkflowEventRow.auditEntry (e : WorkflowEventRow) : Option AuditEntry :=
  if e.actorType = some .operator then some ⟨e.workflowId, e.eventType, e.actorId, e.reason⟩
  else none

/-- The operators' events of a log, in its order. -/
def auditTrail (events : List WorkflowEventRow) : List AuditEntry :=
  events.filterMap WorkflowEventRow.auditEntry

/-- The entry an operator's control is there for. -/
def Operator.entry (operator : Operator) (w : WorkflowId) (eventType : EventType) : AuditEntry :=
  ⟨w, eventType, some operator.actorId, some operator.reason⟩

/-- The entry of a workflow that a cascade cancelled in the name of an operator. -/
structure AuditEntry.CancelledBy (actorId : String) (entry : AuditEntry) : Prop where
  eventType : entry.eventType = .workflowCancelled
  actorId : entry.actorId = some actorId

/-- The entry records the end of a workflow. -/
def AuditEntry.ends (w : WorkflowId) (entry : AuditEntry) : Bool :=
  entry.workflowId == w &&
    (entry.eventType == .workflowCancelled || entry.eventType == .workflowSupersededByRestart)

/-- The event of a restart on its source. -/
def restartedEvent (correction : Option String) : EventType :=
  if correction.isSome then .workflowCorrectedAndRestarted else .workflowRestarted

/-- The entries of an action that committed. -/
inductive Action.Audited (db : DB) : Action → List AuditEntry → Prop
  | pause {w : WorkflowId} {operator : Operator} {now : DbMillis} :
      Audited db (.pause w operator now) [operator.entry w .workflowPaused]
  | resume {w : WorkflowId} {operator : Operator} {now : DbMillis} :
      Audited db (.resume w operator now) [operator.entry w .workflowResumed]
  | cancelWorkflow {w : WorkflowId} {operator : Operator} {now : DbMillis}
      {cascade : List AuditEntry} (h : ∀ entry ∈ cascade, entry.CancelledBy operator.actorId) :
      Audited db (.cancelWorkflow w operator now) (operator.entry w .workflowCancelled :: cascade)
  | restartTerminal {registry : WorkflowRegistry} {w : WorkflowId} {correction : Option String}
      {operator : Operator} {now : DbMillis} {source : WorkflowRow}
      (hsource : db.workflows.find w = some source) (ht : source.status.isTerminal = true) :
      Audited db (.restart registry w correction operator now)
        [operator.entry w (restartedEvent correction),
          operator.entry db.workflows.next .workflowRestartCreated]
  | restartOpen {registry : WorkflowRegistry} {w : WorkflowId} {correction : Option String}
      {operator : Operator} {now : DbMillis} {source : WorkflowRow} {cascade : List AuditEntry}
      (hsource : db.workflows.find w = some source) (ht : source.status.isTerminal = false)
      (h : ∀ entry ∈ cascade, entry.CancelledBy operator.actorId) :
      Audited db (.restart registry w correction operator now)
        (operator.entry w .workflowSupersededByRestart :: cascade ++
          [operator.entry w (restartedEvent correction),
            operator.entry db.workflows.next .workflowRestartCreated])
  | retry {registry : ActivityRegistry} {a : ActivityId} {correction : Option String}
      {operator : Operator} {now : DbMillis} {source : ActivityRow}
      (hsource : db.activities.find a = some source) :
      Audited db (.retry registry a correction operator now)
        [operator.entry source.workflowId
          (if correction.isSome then .activityCorrectedAndRetried else .activityRetried)]
  | resolveApproval {registry : WorkflowRegistry} {p : ApprovalId} {decision : String}
      {operator : Operator} {now : DbMillis} {approval : ApprovalRow}
      (happroval : db.approvals.find p = some approval) :
      Audited db (.resolveApproval registry p decision operator now)
        [operator.entry approval.workflowId .approvalResolved]
  | recordScheduleRunNow {w : WorkflowId} {operator : Operator} {now : DbMillis} :
      Audited db (.recordScheduleRunNow w operator now) [operator.entry w .scheduleRunNow]
  | engine {action : Action} (h : action.operator? = none) : Audited db action []

/-- The entries of a control that record the end of a workflow: one for each workflow that was
open before it and is not any more. -/
def Action.EndsOnce (action : Action) (db db' : DB) (entries : List AuditEntry) : Prop :=
  action.operator? ≠ none → ∀ w, entries.countP (AuditEntry.ends w) ≤ 1 ∧
    (entries.countP (AuditEntry.ends w) = 1 ↔
      (db.aggregate w).IsOpen ∧ ¬(db'.aggregate w).IsOpen)

section Trail

variable {events events' : List WorkflowEventRow} {e : WorkflowEventRow} {id : String}

@[simp]
theorem auditTrail_nil : auditTrail [] = [] := rfl

@[simp]
theorem auditTrail_append :
    auditTrail (events ++ events') = auditTrail events ++ auditTrail events' :=
  List.filterMap_append

theorem auditEntry_of_bySystem (h : e.BySystem) : e.auditEntry = none := by
  simp [WorkflowEventRow.auditEntry, h.actorType]

theorem auditEntry_of_byOperator (h : e.ByOperator id) :
    e.auditEntry = some ⟨e.workflowId, e.eventType, some id, e.reason⟩ := by
  simp [WorkflowEventRow.auditEntry, h.actorType, h.actorId]

/-- The engine's own events leave no entry. -/
theorem auditTrail_of_bySystem (h : ∀ e ∈ events, e.BySystem) : auditTrail events = [] :=
  List.filterMap_eq_nil_iff.mpr fun e he => auditEntry_of_bySystem (h e he)

end Trail

-- ════════════════════════════════════════════════════════════════════════
-- What a transaction adds to the trail
-- ════════════════════════════════════════════════════════════════════════

/-- Events whose entries satisfy `L` are appended, and progress and topics are left alone. -/
structure Audits (L : List AuditEntry → Prop) (db db' : DB) : Prop where
  events : ∃ es, db'.events = db.events ++ es ∧ L (auditTrail es)
  progress : db'.progress = db.progress
  topicLocks : db'.topicLocks = db.topicLocks

variable {α β : Type} {L L' : List AuditEntry → Prop} {db db' db'' : DB} {x : Tx α}
  {g : α → Tx β} {now : DbMillis} {operator : Operator} {w : WorkflowId} {entry : AuditEntry}

theorem Audits.mono (h : Audits L db db') (hL : ∀ es, L es → L' es) : Audits L' db db' := by
  obtain ⟨es, hevents, hes⟩ := h.events
  exact ⟨⟨es, hevents, hL _ hes⟩, h.progress, h.topicLocks⟩

theorem Audits.of_logs (h : Logs WorkflowEventRow.BySystem db db') : Audits (· = []) db db' := by
  obtain ⟨es, hevents, hes⟩ := h.events
  exact ⟨⟨es, hevents, auditTrail_of_bySystem hes⟩, h.progress, h.topicLocks⟩

theorem Audits.trans {L'' : List AuditEntry → Prop} (h : Audits L db db') (h' : Audits L' db' db'')
    (hL : ∀ es es', L es → L' es' → L'' (es ++ es')) : Audits L'' db db'' := by
  obtain ⟨es, hevents, hes⟩ := h.events
  obtain ⟨es', hevents', hes'⟩ := h'.events
  refine ⟨⟨es ++ es', ?_, ?_⟩, h'.progress.trans h.progress, h'.topicLocks.trans h.topicLocks⟩
  · rw [hevents', hevents, List.append_assoc]
  · rw [auditTrail_append]
    exact hL _ _ hes hes'

section Rules

/-- What the engine does first adds nothing. -/
theorem audits_after (hx : Respects (Logs WorkflowEventRow.BySystem) x)
    (hg : ∀ a, Respects (Audits L) (g a)) : Respects (Audits L) (x >>= g) := by
  refine .seq hx hg fun _ _ _ hx hg => (Audits.of_logs hx).trans hg ?_
  rintro _ es rfl hes
  exact hes

/-- What the engine does afterwards adds nothing. -/
theorem audits_before (hx : Respects (Audits L) x)
    (hg : ∀ a, Respects (Logs WorkflowEventRow.BySystem) (g a)) :
    Respects (Audits L) (x >>= g) := by
  refine .seq hx hg fun _ _ _ hx hg => hx.trans (Audits.of_logs hg) ?_
  rintro es _ hes rfl
  rwa [List.append_nil]

theorem audits_seq {es es' : List AuditEntry} (hx : Respects (Audits (· = es)) x)
    (hg : ∀ a, Respects (Audits (· = es')) (g a)) : Respects (Audits (· = es ++ es')) (x >>= g) := by
  refine .seq hx hg fun _ _ _ hx hg => hx.trans hg ?_
  rintro _ _ rfl rfl
  rfl

/-- One entry, and those of what follows. -/
theorem audits_cons (hx : Respects (Audits (· = [entry])) x)
    (hg : ∀ a, Respects (Audits L) (g a)) :
    Respects (Audits fun es => ∃ rest, es = entry :: rest ∧ L rest) (x >>= g) := by
  refine .seq hx hg fun _ _ _ hx hg => hx.trans hg ?_
  rintro _ rest rfl hrest
  exact ⟨rest, rfl, hrest⟩

theorem audits_appendEvent {e : WorkflowEventRow} (h : e.auditEntry = some entry) :
    Respects (Audits (· = [entry])) (appendEvent e) := by
  refine audits_after .read fun _ => audits_after (.ensure _ _) fun _ => ?_
  refine audits_after (.ensure _ _) fun _ => .modify fun db => ⟨⟨[e], rfl, ?_⟩, rfl, rfl⟩
  simp [auditTrail, h]

theorem audits_appendOperatorEvent {eventType : EventType} :
    Respects (Audits (· = [operator.entry w eventType]))
      (appendOperatorEvent w eventType operator now) :=
  audits_after logs_nextEventSequence fun _ => audits_appendEvent rfl

end Rules

section Controls

variable {workflow : WorkflowRow} {reason : String} {a : ActivityId} {p : ApprovalId}
  {correction : Option String} {externals : Externals} {P : WorkflowEventRow → Prop}

theorem logs_lockWorkflow : Respects (Logs P) (lockWorkflow w) :=
  .bind (.findRow _) fun _ => .orAbort _ _

/-- What is done with a locked workflow. -/
theorem respects_lockWorkflow {R : WorkflowRow → DB → DB → Prop} {g : WorkflowRow → Tx β}
    (h : ∀ workflow : WorkflowRow, workflow.id = w → Respects (R workflow) (g workflow)) :
    Respects (fun db db' => ∃ workflow, db.workflows.find w = some workflow ∧ R workflow db db')
      (lockWorkflow w >>= g) := by
  rw [lockWorkflow, bind_bind]
  refine (Respects.lookup (S := fun workflow db db' => workflow.id = w → R workflow db db')
    fun workflow db => ?_).mono ?_
  · by_cases hid : workflow.id = w
    · exact wp_imp (h workflow hid db) fun _ _ hR _ => hR
    · exact wp_imp (wp_true _ _) fun _ _ _ hid' => absurd hid' hid
  · rintro db db' ⟨workflow, hfind, hR⟩
    exact ⟨workflow, hfind, hR (Table.key_of_find hfind)⟩

/-- What is done with a locked workflow, if it does not depend on the row. -/
theorem audits_lockWorkflow {g : WorkflowRow → Tx β}
    (h : ∀ workflow : WorkflowRow, workflow.id = w → Respects (Audits L) (g workflow)) :
    Respects (Audits L) (lockWorkflow w >>= g) := by
  refine (respects_lockWorkflow h).mono ?_
  rintro db db' ⟨_, _, haudits⟩
  exact haudits

theorem logs_pauseAwaited {wait : Option Wait} : Respects (Logs P) (pauseAwaited wait operator now) := by
  have hrevoke : ∀ activity, Respects (Logs P) (revokeRunning activity operator now) := by
    intro activity
    refine .bind (.orAbort _ _) fun _ => .bind (.orAbort _ _) fun _ => ?_
    exact logs_fencedUpdate logs_activityTable
  have hpause : ∀ a, Respects (Logs P) (pauseActivity a operator now) := by
    intro a
    refine .bind (.findRow _) fun found => ?_
    cases found with
    | none => exact .pure _
    | some activity =>
      dsimp only
      split
      · exact hrevoke activity
      all_goals exact .pure _
  unfold pauseAwaited
  split
  · exact hpause _
  all_goals exact .pure _

theorem audits_pauseWorkflow :
    Respects (Audits (· = [operator.entry w .workflowPaused])) (pauseWorkflow w operator now) := by
  refine audits_after logs_lockWorkflow fun _ => audits_after (.ensure _ _) fun _ => ?_
  refine audits_after (.ofExcept _) fun _ => audits_after logs_pauseAwaited fun _ => ?_
  exact audits_after (logs_fencedUpdate logs_workflowTable) fun _ => audits_appendOperatorEvent

theorem logs_resumeStatus : Respects (Logs P) (resumeStatus workflow) := by
  refine .bind (.ofExcept _) fun wait => ?_
  cases wait with
  | none => exact .pure _
  | some wait =>
    cases wait with
    | timer => exact .pure _
    | activity a =>
      refine .bind (.findRow _) fun _ => .bind (.orAbort _ _) fun activity => ?_
      split
      all_goals first | exact .pure _ | exact .abort _
    | child c =>
      refine .bind (.findRow _) fun _ => .bind (.orAbort _ _) fun _ => ?_
      exact .bind (.ensure _ _) fun _ => .pure _
    | approval p => exact .bind (.findRow _) fun _ => .bind (.orAbort _ _) fun _ => .pure _

theorem audits_resumeWorkflow :
    Respects (Audits (· = [operator.entry w .workflowResumed])) (resumeWorkflow w operator now) := by
  refine audits_after logs_lockWorkflow fun _ => audits_after (.ensure _ _) fun _ => ?_
  refine audits_after logs_resumeStatus fun _ => ?_
  refine audits_after (logs_fencedUpdate logs_workflowTable) fun _ => ?_
  exact audits_before audits_appendOperatorEvent fun _ => .pure _

/-- The entry of one cancel in the name of an operator. -/
theorem audits_cancelOneWorkflow :
    Respects (Audits (· = [⟨workflow.id, .workflowCancelled, some operator.actorId, some reason⟩]))
      (cancelOneWorkflow workflow reason (some operator.actorId) now) := by
  refine audits_after (respects_cancelActivities logs_activityTable) fun _ => ?_
  refine audits_after (respects_cancelApprovals logs_approvalTable) fun _ => ?_
  refine audits_after (logs_fencedUpdate logs_workflowTable) fun _ => ?_
  refine audits_before (audits_after logs_nextEventSequence fun _ => ?_) fun _ => ?_
  · exact audits_appendEvent rfl
  · exact logs_wakeWaitingParents

/-- A cascade adds cancellations in the name of its operator. -/
theorem audits_cancelOwnedDescendants :
    Respects (Audits fun es => ∀ entry ∈ es, entry.CancelledBy operator.actorId)
      (cancelOwnedDescendants w reason (some operator.actorId) now) := by
  refine logs_cancelOwnedDescendants.mono fun db db' h => ?_
  obtain ⟨es, hevents, hes⟩ := h.events
  refine ⟨⟨es, hevents, fun entry hentry => ?_⟩, h.progress, h.topicLocks⟩
  obtain ⟨e, he, hentry⟩ := List.mem_filterMap.mp hentry
  obtain hsystem | ⟨htype, id, hid, hoperator⟩ := hes e he
  · rw [auditEntry_of_bySystem hsystem] at hentry
    cases hentry
  · cases hid
    rw [auditEntry_of_byOperator hoperator] at hentry
    cases hentry
    exact ⟨htype, rfl⟩

theorem audits_cancelWorkflow :
    Respects (Audits fun es => ∃ cascade, es = operator.entry w .workflowCancelled :: cascade ∧
      ∀ entry ∈ cascade, entry.CancelledBy operator.actorId) (cancelWorkflow w operator now) := by
  refine audits_lockWorkflow ?_
  rintro workflow rfl
  refine audits_after (.ensure _ _) fun _ => ?_
  exact audits_cons audits_cancelOneWorkflow fun _ => audits_cancelOwnedDescendants

theorem audits_supersedeSource :
    Respects (Audits fun es => ∃ cascade,
      es = operator.entry workflow.id .workflowSupersededByRestart :: cascade ∧
      ∀ entry ∈ cascade, entry.CancelledBy operator.actorId)
      (supersedeSource workflow operator now) := by
  refine audits_after (respects_cancelActivities logs_activityTable) fun _ => ?_
  refine audits_after (respects_cancelApprovals logs_approvalTable) fun _ => ?_
  refine audits_after (logs_fencedUpdate logs_workflowTable) fun _ => ?_
  refine audits_cons audits_appendOperatorEvent fun _ => ?_
  exact audits_after logs_wakeWaitingParents fun _ => audits_cancelOwnedDescendants

theorem logs_moveScheduleRun {successor : WorkflowId} :
    Respects (Logs P) (moveScheduleRun workflow successor) := by
  unfold moveScheduleRun
  split
  · exact .pure _
  · exact logs_fencedUpdate logs_scheduleRunTable

/-- The entries of a restart whose source is `source`. -/
def restartEntries (source : WorkflowRow) (successor : WorkflowId) (correction : Option String)
    (operator : Operator) (es : List AuditEntry) : Prop :=
  ∃ closing, es = closing ++ [operator.entry source.id (restartedEvent correction),
      operator.entry successor .workflowRestartCreated] ∧
    if source.status.isTerminal = true then closing = []
    else ∃ cascade, closing = operator.entry source.id .workflowSupersededByRestart :: cascade ∧
      ∀ entry ∈ cascade, entry.CancelledBy operator.actorId

/-- The entries of the supersession of a source that is still open. -/
theorem audits_closing {source : WorkflowRow} :
    Respects (Audits fun es => if source.status.isTerminal = true then es = []
      else ∃ cascade, es = operator.entry source.id .workflowSupersededByRestart :: cascade ∧
        ∀ entry ∈ cascade, entry.CancelledBy operator.actorId)
      (onlyIf (source.status.isTerminal = false) (supersedeSource source operator now)) := by
  refine .ite_of (fun hopen => audits_supersedeSource.mono fun _ _ h => h.mono fun _ => ?_)
    fun hclosed => ?_
  · rw [if_neg (by simp [hopen])]
    exact id
  · refine (Respects.pure (R := Logs WorkflowEventRow.BySystem) ()).mono fun _ _ h => ?_
    refine (Audits.of_logs h).mono fun es hes => ?_
    rwa [if_pos (by simpa using hclosed)]

/-- What a restart does once its checks have passed. -/
theorem wp_restart_insert {registry : WorkflowRegistry} {R : DB → DB → Prop} (hs : db.Sound)
    (h : ∀ (source : WorkflowRow) (prepared : PreparedWorkflowStart) (db₁ : DB),
      db.workflows.find source.id = some source → source.id = w →
      Started (fun _ l => l = .inserted) db (preparedRow prepared (restartOptions source) now) db₁ →
      Logs WorkflowEventRow.BySystem db db₁ →
      wp (do
        onlyIf (source.status.isTerminal = false) (supersedeSource source operator now)
        moveScheduleRun source db.workflows.next
        appendOperatorEvent source.id (restartedEvent correction) operator now
        appendOperatorEvent db.workflows.next .workflowRestartCreated operator now
        return db.workflows.next) (fun _ db' => R db db') (fun _ => True) db₁) :
    wp (restart registry w correction operator now) (fun _ db' => R db db') (fun _ => True) db := by
  rw [restart, lockWorkflow, bind_bind, wp_bind, wp_findRow, wp_bind, wp_orAbort]
  refine ⟨fun source hfind => ?_, fun _ => trivial⟩
  obtain rfl : source.id = w := Table.key_of_find hfind
  rw [wp_bind, wp_ensure]
  refine ⟨fun _ => ?_, fun _ => trivial⟩
  rw [wp_bind, wp_selectRows, wp_bind, wp_ensure]
  refine ⟨fun _ => ?_, fun _ => trivial⟩
  rw [wp_bind, wp_ofExcept]
  refine ⟨fun prepared _ => ?_, fun _ _ => trivial⟩
  rw [wp_bind, wp_ofExcept]
  refine ⟨fun _ _ => ?_, fun _ _ => trivial⟩
  rw [wp_bind]
  have hbefore : ∀ p, (restartOptions source).restartedFromWorkflowId = some p →
      p < db.workflows.next := by
    rintro _ ⟨⟩
    exact Table.lt_next_of_find hfind
  refine wp_imp (logs_insertPrepared.wp_and (wp_mono (wp_insertPrepared hs hbefore)
    (fun _ _ hQ => hQ) fun _ _ => trivial)) fun outcome db₁ hinsert => ?_
  obtain ⟨hstarts, hlogs⟩ := hinsert
  cases hstarts with
  | existing hkey => cases hkey
  | inserted hstarted =>
    rw [wp_bind, wp_ensure]
    exact ⟨fun _ => h source prepared db₁ hfind rfl hstarted hlogs, fun _ => trivial⟩

theorem wp_restart_audits {registry : WorkflowRegistry} (hs : db.Sound) :
    wp (restart registry w correction operator now) (fun _ db' => ∃ source,
      db.workflows.find w = some source ∧ source.id = w ∧
      Audits (restartEntries source db.workflows.next correction operator) db db')
      (fun _ => True) db := by
  refine wp_restart_insert (R := fun db db' => ∃ source, db.workflows.find w = some source ∧
    source.id = w ∧ Audits (restartEntries source db.workflows.next correction operator) db db') hs
    fun source prepared db₁ hfind hid _ hlogs => ?_
  have hrest : Respects (Audits (restartEntries source db.workflows.next correction operator)) (do
      onlyIf (source.status.isTerminal = false) (supersedeSource source operator now)
      moveScheduleRun source db.workflows.next
      appendOperatorEvent source.id (restartedEvent correction) operator now
      appendOperatorEvent db.workflows.next .workflowRestartCreated operator now
      return db.workflows.next) := by
    refine .seq audits_closing (fun _ => audits_after logs_moveScheduleRun fun _ =>
      audits_seq audits_appendOperatorEvent fun _ =>
        audits_before audits_appendOperatorEvent fun _ => .pure _) ?_
    rintro _ _ _ hclosing hrest
    refine hclosing.trans hrest ?_
    rintro closing _ hclosing rfl
    exact ⟨closing, rfl, hclosing⟩
  refine wp_imp (hrest db₁) fun _ db' haudits => ⟨source, hid ▸ hfind, hid, ?_⟩
  refine (Audits.of_logs hlogs).trans haudits ?_
  rintro _ es rfl hes
  exact hes

theorem audits_retry {registry : ActivityRegistry} :
    Respects (fun db db' => ∃ source, db.activities.find a = some source ∧
      Audits (· = [operator.entry source.workflowId
        (if correction.isSome then .activityCorrectedAndRetried else .activityRetried)]) db db')
      (retry registry a correction operator now) := by
  refine .lookup fun source => ?_
  refine audits_lockWorkflow fun workflow hid => ?_
  rw [← hid]
  refine audits_after (.ofExcept _) fun _ => audits_after (.ensure _ _) fun _ => ?_
  refine audits_after (.orAbort _ _) fun _ => audits_after (.ofExcept _) fun _ => ?_
  refine audits_after (.ofExcept _) fun _ => audits_after logs_insertActivity fun _ => ?_
  refine audits_after (logs_fencedUpdate logs_workflowTable) fun _ => ?_
  exact audits_before audits_appendOperatorEvent fun _ => .pure _

theorem audits_recordScheduleRunNow :
    Respects (Audits (· = [operator.entry w .scheduleRunNow]))
      (recordScheduleRunNow w operator now) := by
  refine audits_lockWorkflow ?_
  rintro workflow rfl
  exact audits_appendOperatorEvent

theorem audits_resolveApproval {registry : WorkflowRegistry} {decision : String} :
    Respects (fun db db' => ∃ approval, db.approvals.find p = some approval ∧
      Audits (· = [operator.entry approval.workflowId .approvalResolved]) db db')
      (resolveApproval externals registry p decision operator now) := by
  intro db
  rw [resolveApproval, wp_bind, wp_ofExcept]
  refine ⟨fun actorId _ => Respects.lookup (fun approval => ?_) db, fun _ _ => trivial⟩
  refine audits_lockWorkflow fun workflow hid => ?_
  rw [← hid]
  refine audits_after (.ensure _ _) fun _ => audits_after (.ensure _ _) fun _ => ?_
  refine audits_after (.ofExcept _) fun _ => audits_after (.ensure _ _) fun _ => ?_
  refine audits_after (.ofExcept _) fun _ => audits_after (.ofExcept _) fun _ => ?_
  refine audits_after (.orAbort _ _) fun _ => ?_
  refine audits_before (audits_after logs_nextEventSequence fun _ => audits_appendEvent rfl) fun _ => ?_
  exact .bind (logs_fencedUpdate logs_approvalTable) fun _ => logs_fencedUpdate logs_workflowTable

end Controls

-- ════════════════════════════════════════════════════════════════════════
-- What a transaction ends
-- ════════════════════════════════════════════════════════════════════════

/-- One for an open workflow. -/
def DB.openCount (db : DB) (w : WorkflowId) : ℕ :=
  if (db.workflows.find w).any (fun r => !r.status.isTerminal) then 1 else 0

theorem openCount_of_open (h : (db.aggregate w).IsOpen) : db.openCount w = 1 := by
  obtain ⟨r, hr, ht⟩ := h
  rw [DB.openCount, show db.workflows.find w = some r from hr]
  simp [ht]

theorem openCount_of_closed (h : ¬(db.aggregate w).IsOpen) : db.openCount w = 0 := by
  rw [DB.openCount, if_neg]
  intro hany
  obtain ⟨r, hr, ht⟩ := (Option.any_eq_true _ _).mp hany
  exact h ⟨r, hr, by simpa using ht⟩

/-- No workflow is opened, and the entries that record an end are those of the workflows that
were open and are not any more. -/
def Closes (db db' : DB) : Prop :=
  ∃ es, db'.events = db.events ++ es ∧
    ∀ w, (auditTrail es).countP (AuditEntry.ends w) + db'.openCount w = db.openCount w

theorem Closes.trans (h : Closes db db') (h' : Closes db' db'') : Closes db db'' := by
  obtain ⟨es, hevents, hes⟩ := h
  obtain ⟨es', hevents', hes'⟩ := h'
  refine ⟨es ++ es', by rw [hevents', hevents, List.append_assoc], fun w => ?_⟩
  rw [auditTrail_append, List.countP_append, ← hes w, ← hes' w, Nat.add_assoc]

/-- A write that neither appends an event nor ends a workflow. -/
theorem Closes.of_eq (hevents : db'.events = db.events)
    (hopen : ∀ w, db'.openCount w = db.openCount w) : Closes db db' := by
  refine ⟨[], by rw [hevents, List.append_nil], fun w => ?_⟩
  rw [auditTrail_nil, List.countP_nil, hopen, Nat.zero_add]

instance Closes.instIsPreorder : IsPreorder DB Closes where
  refl _ := .of_eq rfl fun _ => rfl
  trans _ _ _ := .trans

section Closing

variable {i : ℕ} {p : WorkflowRow → Bool} {f : WorkflowRow → WorkflowRow} {hf}
  {workflow parent : WorkflowRow} {reason : String}

/-- What a write to one workflow does to what is open. -/
theorem openCount_modify (r : WorkflowRow) (hr : db.workflows.find i = some r) :
    (workflowTable.set (db.workflows.modify i f hf) db).openCount w =
      if w = i then if (f r).status.isTerminal then 0 else 1 else db.openCount w := by
  show (if ((db.workflows.modify i f hf).find w).any _ then 1 else 0) = _
  rw [Table.find_modify]
  by_cases hw : w = i
  · subst hw
    cases ht : (f r).status.isTerminal <;> simp [hr, ht]
  · rw [if_neg hw, if_neg hw]
    rfl

/-- A fenced update that keeps open what is open, and closed what is closed. -/
theorem closes_fencedUpdate
    (h : ∀ r, p r = true → (f r).status.isTerminal = r.status.isTerminal) :
    Respects Closes (fencedUpdate workflowTable i p f hf) := by
  refine .bind (fun db => ?_) fun _ => .ensure _ _
  rw [wp_updateRow]
  refine ⟨fun r hr hp => .of_eq rfl fun w => ?_, fun _ => Closes.instIsPreorder.refl db⟩
  rw [show workflowTable.get db = db.workflows from rfl, openCount_modify r hr, h r hp]
  by_cases hw : w = i
  · subst hw
    rw [if_pos rfl, DB.openCount, show db.workflows.find w = some r from hr]
    cases hs : r.status.isTerminal <;> simp [hs]
  · rw [if_neg hw]

theorem closes_appendEvent {e : WorkflowEventRow}
    (h : ∀ entry, e.auditEntry = some entry → ∀ w, entry.ends w = false) :
    Respects Closes (appendEvent e) := by
  refine .bind .read fun _ => .bind (.ensure _ _) fun _ => .bind (.ensure _ _) fun _ => ?_
  refine .modify fun db => ⟨[e], rfl, fun w => ?_⟩
  show _ + db.openCount w = db.openCount w
  cases he : e.auditEntry with
  | none => simp [auditTrail, he]
  | some entry => simp [auditTrail, he, h entry he w]

/-- A wake keeps its parent open. -/
theorem closes_wakeLoadedParent {c : WorkflowId} {kind : String} {version : ℤ}
    {outcome : ChildOutcome} (hparent : parent.status.awaitsChild = true) :
    Respects Closes (wakeLoadedParentOnChildTerminal parent c kind version outcome now) := by
  unfold wakeLoadedParentOnChildTerminal
  simp only [hparent, if_true]
  refine .bind (.ofExcept _) fun _ => .ite ?_ (.pure _)
  refine .bind (.ofExcept _) fun _ => .bind (.orAbort _ _) fun _ => .bind ?_ fun _ => ?_
  · refine .bind (.bind .read fun _ => .orAbort _ _) fun _ => closes_appendEvent fun entry h => ?_
    cases h
  · refine closes_fencedUpdate fun r hr => ?_
    simp only [Bool.and_eq_true, beq_iff_eq] at hr
    rw [hr.1.1]
    cases hst : parent.status <;> simp_all [WorkflowStatus.awaitsChild, WorkflowStatus.isTerminal]

theorem closes_wakeWaitingParents {outcome : ChildOutcome} :
    Respects Closes (wakeWaitingParentsOnChildTerminal workflow outcome now) := by
  refine .selectRows_bind fun parents hparents => .forEach_of fun parent hmem => ?_
  have hparent := hparents parent hmem
  simp only [Bool.and_eq_true] at hparent
  exact closes_wakeLoadedParent hparent.2

/-- A workflow that was open is closed, and no event says so yet. -/
structure Ending (w : WorkflowId) (db db' : DB) : Prop where
  events : db'.events = db.events
  opened : db.openCount w = 1
  closed : db'.openCount w = 0
  other : ∀ v, v ≠ w → db'.openCount v = db.openCount v

/-- The update that ends a workflow. -/
theorem ending_fencedUpdate {status : WorkflowStatus} (ht : status.isTerminal = false)
    (hp : ∀ r, p r = (r.status == status)) (h : ∀ r, (f r).status.isTerminal = true) :
    Respects (Ending i) (fencedUpdate workflowTable i p f hf) := by
  intro db
  rw [fencedUpdate, wp_bind, wp_updateRow]
  refine ⟨fun r hr hstatus => ?_, fun _ => ?_⟩
  · rw [wp_ensure]
    refine ⟨fun _ => ?_, fun _ => trivial⟩
    rw [show workflowTable.get db = db.workflows from rfl] at hr ⊢
    rw [hp, beq_iff_eq] at hstatus
    refine ⟨rfl, openCount_of_open ⟨r, hr, hstatus ▸ ht⟩, ?_, fun v hv => ?_⟩
    · rw [openCount_modify r hr, if_pos rfl, h r]
      rfl
    · rw [openCount_modify r hr, if_neg hv]
  · rw [wp_ensure]
    exact ⟨fun h => absurd h Nat.zero_ne_one, fun _ => trivial⟩

/-- The event that records an end. -/
theorem closes_of_ending (entry : AuditEntry) {x : Tx Unit} {y : Unit → Tx β}
    (hx : Respects (Ending w) x) (hentry : ∀ v, entry.ends v = (w == v))
    (hy : ∀ a, Respects (Audits (· = [entry])) (y a)) (hkeeps : ∀ a, Keeps DB.workflows (y a)) :
    Respects Closes (x >>= y) := by
  refine .seq (S := fun db db' => Audits (· = [entry]) db db' ∧ db'.workflows = db.workflows) hx
    (fun a db => (hkeeps a).wp_and (hy a db)) ?_
  rintro db db₁ db₂ hending ⟨haudits, hworkflows⟩
  obtain ⟨es, hevents, hes⟩ := haudits.events
  have hopen : ∀ v, db₂.openCount v = db₁.openCount v := by
    intro v
    rw [DB.openCount, hworkflows]
    rfl
  refine ⟨es, by rw [hevents, hending.events], fun v => ?_⟩
  rw [hes, hopen, List.countP_singleton, hentry]
  by_cases hv : v = w
  · subst hv
    rw [hending.opened, hending.closed]
    simp
  · rw [hending.other v hv, if_neg (by simpa using fun h => hv h.symm), Nat.zero_add]

theorem keeps_workflows_appendEvent {e : WorkflowEventRow} : Keeps DB.workflows (appendEvent e) :=
  .bind .read fun _ => .bind (.ensure _ _) fun _ => .bind (.ensure _ _) fun _ => .modify fun _ => rfl

theorem keeps_workflows_appendHistoryEvent {eventType : EventType} {actorType : ActorType}
    {actorId reason : Option String} {metadata : Option EventMetadata} :
    Keeps DB.workflows
      (appendHistoryEvent w eventType actorType actorId reason metadata now) :=
  .bind (.bind .read fun _ => .orAbort _ _) fun _ => keeps_workflows_appendEvent

theorem closes_cancelOneWorkflow {actorId : String} (ht : workflow.status.isTerminal = false) :
    Respects Closes (cancelOneWorkflow workflow reason (some actorId) now) := by
  refine .bind (respects_cancelActivities fun _ _ => .of_eq rfl fun _ => rfl) fun _ => ?_
  refine .bind (respects_cancelApprovals fun _ _ => .of_eq rfl fun _ => rfl) fun _ => ?_
  rw [← bind_bind]
  refine .bind ?_ fun _ => closes_wakeWaitingParents
  refine closes_of_ending ⟨workflow.id, .workflowCancelled, some actorId, some reason⟩
    (ending_fencedUpdate ht (fun _ => rfl) fun _ => rfl) (fun v => ?_) (fun _ => ?_) fun _ => ?_
  · exact Bool.and_true _
  · exact audits_after logs_nextEventSequence fun _ => audits_appendEvent rfl
  · exact keeps_workflows_appendHistoryEvent

theorem closes_cancelOwnedDescendants {actorId : String} :
    Respects Closes (cancelOwnedDescendants w reason (some actorId) now) :=
  respects_cancelOwnedDescendants fun _ _ ht => closes_cancelOneWorkflow ht

theorem closes_cancelWorkflow : Respects Closes (cancelWorkflow w operator now) := by
  refine .bind (.bind (.findRow _) fun _ => .orAbort _ _) fun workflow => .ensure_bind fun ht => ?_
  exact .bind (closes_cancelOneWorkflow ht) fun _ => closes_cancelOwnedDescendants

theorem closes_supersedeSource (ht : workflow.status.isTerminal = false) :
    Respects Closes (supersedeSource workflow operator now) := by
  refine .bind (respects_cancelActivities fun _ _ => .of_eq rfl fun _ => rfl) fun _ => ?_
  refine .bind (respects_cancelApprovals fun _ _ => .of_eq rfl fun _ => rfl) fun _ => ?_
  rw [← bind_bind]
  refine .bind ?_ fun _ => .bind closes_wakeWaitingParents fun _ => closes_cancelOwnedDescendants
  refine closes_of_ending (operator.entry workflow.id .workflowSupersededByRestart)
    (ending_fencedUpdate ht (fun _ => rfl) fun _ => rfl) (fun v => ?_)
    (fun _ => audits_appendOperatorEvent) fun _ => keeps_workflows_appendHistoryEvent
  exact Bool.and_true _

/-- The successor of a restart is opened, and nothing else is. -/
theorem wp_restart_closes {registry : WorkflowRegistry} {correction : Option String}
    (hs : db.Sound) :
    wp (restart registry w correction operator now) (fun _ db' => ∃ es, db'.events = db.events ++ es ∧
      ∀ v, (auditTrail es).countP (AuditEntry.ends v) + db'.openCount v =
        db.openCount v + if v = db.workflows.next then 1 else 0) (fun _ => True) db := by
  refine wp_restart_insert (R := fun db db' => ∃ es, db'.events = db.events ++ es ∧
    ∀ v, (auditTrail es).countP (AuditEntry.ends v) + db'.openCount v =
      db.openCount v + if v = db.workflows.next then 1 else 0) hs
    fun source prepared db₁ hfind _ hstarted hlogs => ?_
  have hopen : ∀ v, db₁.openCount v = db.openCount v + if v = db.workflows.next then 1 else 0 := by
    intro v
    by_cases hv : v = db.workflows.next
    · rw [hv, if_pos rfl, openCount_of_open (.of_row hstarted.stored rfl), DB.openCount,
        Table.find_next]
      rfl
    · rw [if_neg hv, DB.openCount, show db₁.workflows.find v = db.workflows.find v from
        congrArg Aggregate.row (hstarted.other v hv)]
      rfl
  have hentry : ∀ {v : WorkflowId} {eventType : EventType}, eventType ≠ .workflowCancelled →
      eventType ≠ .workflowSupersededByRestart →
      Respects Closes (appendOperatorEvent v eventType operator now) := by
    intro v eventType hcancelled hsuperseded
    refine .bind (.bind .read fun _ => .orAbort _ _) fun _ => closes_appendEvent fun entry h u => ?_
    cases h
    simp [AuditEntry.ends, hcancelled, hsuperseded]
  have hrest : Respects Closes (do
      onlyIf (source.status.isTerminal = false) (supersedeSource source operator now)
      moveScheduleRun source db.workflows.next
      appendOperatorEvent source.id (restartedEvent correction) operator now
      appendOperatorEvent db.workflows.next .workflowRestartCreated operator now
      return db.workflows.next) := by
    refine .bind (.ite_of closes_supersedeSource fun _ => .pure _) fun _ => .bind ?_ fun _ => ?_
    · unfold moveScheduleRun
      split
      · exact .pure _
      · exact respects_fencedUpdate fun _ _ => .of_eq rfl fun _ => rfl
    · refine .bind (hentry ?_ ?_) fun _ => .bind (hentry (fun h => by cases h) fun h => by cases h)
        fun _ => .pure _
      all_goals cases correction <;> exact fun h => by cases h
  refine wp_imp (hrest db₁) fun _ db' hcloses => ?_
  obtain ⟨es₀, hevents₀, hes₀⟩ := hlogs.events
  obtain ⟨es, hevents, hes⟩ := hcloses
  refine ⟨es₀ ++ es, by rw [hevents, hevents₀, List.append_assoc], fun v => ?_⟩
  rw [auditTrail_append, auditTrail_of_bySystem hes₀, List.nil_append, hes v, hopen v]

end Closing

-- ════════════════════════════════════════════════════════════════════════
-- Actions
-- ════════════════════════════════════════════════════════════════════════

section Exec

variable {s s' : Sys} {action : Action} {externals : Externals} {es : List AuditEntry}

/-- What a transaction adds to the trail, with what it leaves alone. -/
theorem transact'_audits {x : Tx α} (hx : Respects (Audits L) x) (h : s.transact' x = .ok s') :
    Audits L s.db s'.db :=
  transact'_respects hx h

/-- The entries of an action that committed. -/
theorem exec_audited (hs : s.Inv) (h : exec externals s action = .ok s') :
    ∃ es, s'.db.events = s.db.events ++ es ∧ action.Audited s.db (auditTrail es) := by
  cases hoperator : action.operator? with
  | none =>
    obtain ⟨es, hevents, hes⟩ := exec_logs hoperator h
    refine ⟨es, hevents, ?_⟩
    rw [auditTrail_of_bySystem hes]
    exact .engine hoperator
  | some operator =>
    cases action with
    | pause =>
      obtain ⟨es, hevents, hes⟩ := (transact'_audits audits_pauseWorkflow h).events
      exact ⟨es, hevents, hes ▸ .pause⟩
    | resume =>
      obtain ⟨es, hevents, hes⟩ := (transact'_audits audits_resumeWorkflow h).events
      exact ⟨es, hevents, hes ▸ .resume⟩
    | cancelWorkflow =>
      obtain ⟨es, hevents, cascade, hes, hcascade⟩ :=
        (transact'_audits audits_cancelWorkflow h).events
      exact ⟨es, hevents, hes ▸ .cancelWorkflow hcascade⟩
    | restart =>
      obtain ⟨_, db', hrestart, rfl⟩ := transact'_ok h
      obtain ⟨source, hsource, rfl, haudits⟩ := wp_ok (wp_restart_audits hs.sound) hrestart
      obtain ⟨es, hevents, closing, hes, hclosing⟩ := haudits.events
      refine ⟨es, hevents, ?_⟩
      rw [hes]
      split at hclosing
      next ht =>
        rw [hclosing]
        exact .restartTerminal hsource ht
      next ht =>
        obtain ⟨cascade, rfl, hcascade⟩ := hclosing
        exact .restartOpen hsource (Bool.eq_false_of_not_eq_true ht) hcascade
    | retry =>
      obtain ⟨source, hsource, haudits⟩ := transact'_respects audits_retry h
      obtain ⟨es, hevents, hes⟩ := haudits.events
      exact ⟨es, hevents, hes ▸ .retry hsource⟩
    | resolveApproval =>
      obtain ⟨approval, happroval, haudits⟩ := transact'_respects audits_resolveApproval h
      obtain ⟨es, hevents, hes⟩ := haudits.events
      exact ⟨es, hevents, hes ▸ .resolveApproval happroval⟩
    | recordScheduleRunNow =>
      obtain ⟨es, hevents, hes⟩ := (transact'_audits audits_recordScheduleRunNow h).events
      exact ⟨es, hevents, hes ▸ .recordScheduleRunNow⟩
    | _ => cases hoperator

/-- Only a report writes progress, and only a start of a worker writes topics. -/
theorem exec_tables (hs : s.Inv) (htables : action.writesTables = false)
    (h : exec externals s action = .ok s') :
    s'.db.progress = s.db.progress ∧ s'.db.topicLocks = s.db.topicLocks := by
  cases hoperator : action.operator? with
  | none =>
    have hlogs := exec_engine hoperator htables h
    exact ⟨hlogs.progress, hlogs.topicLocks⟩
  | some operator =>
    have of_audits : ∀ {L : List AuditEntry → Prop}, Audits L s.db s'.db →
        s'.db.progress = s.db.progress ∧ s'.db.topicLocks = s.db.topicLocks :=
      fun haudits => ⟨haudits.progress, haudits.topicLocks⟩
    cases action with
    | pause => exact of_audits (transact'_audits audits_pauseWorkflow h)
    | resume => exact of_audits (transact'_audits audits_resumeWorkflow h)
    | cancelWorkflow => exact of_audits (transact'_audits audits_cancelWorkflow h)
    | restart =>
      obtain ⟨_, db', hrestart, rfl⟩ := transact'_ok h
      obtain ⟨_, -, -, haudits⟩ := wp_ok (wp_restart_audits hs.sound) hrestart
      exact of_audits haudits
    | retry =>
      obtain ⟨_, -, haudits⟩ := transact'_respects audits_retry h
      exact of_audits haudits
    | resolveApproval =>
      obtain ⟨_, -, haudits⟩ := transact'_respects audits_resolveApproval h
      exact of_audits haudits
    | recordScheduleRunNow => exact of_audits (transact'_audits audits_recordScheduleRunNow h)
    | _ => cases hoperator

/-- What the counts of one workflow say of its end. -/
theorem ends_of_openCount {n : ℕ} (h : n + db'.openCount w = db.openCount w) :
    n ≤ 1 ∧ (n = 1 ↔ (db.aggregate w).IsOpen ∧ ¬(db'.aggregate w).IsOpen) := by
  by_cases hopen : (db.aggregate w).IsOpen
  · rw [openCount_of_open hopen] at h
    by_cases hopen' : (db'.aggregate w).IsOpen
    · rw [openCount_of_open hopen'] at h
      simp [hopen']
      omega
    · rw [openCount_of_closed hopen'] at h
      simp [hopen, hopen']
      omega
  · rw [openCount_of_closed hopen] at h
    simp [hopen]
    omega

/-- A control whose entry records no end, and whose steps end nothing. -/
theorem endsOnce_of_steps {P : WorkflowId → Label → Prop} {v : WorkflowId} {eventType : EventType}
    (hev : Evolves P db db') (hP : ∀ w l, P w l → l.ends = false)
    (hcancelled : eventType ≠ .workflowCancelled)
    (hsuperseded : eventType ≠ .workflowSupersededByRestart) :
    action.EndsOnce db db' [operator.entry v eventType] := by
  intro _ w
  have hnone : [operator.entry v eventType].countP (AuditEntry.ends w) = 0 := by
    simp [AuditEntry.ends, Operator.entry, hcancelled, hsuperseded]
  rw [hnone]
  refine ⟨Nat.zero_le 1, fun h => absurd h Nat.zero_ne_one, ?_⟩
  rintro ⟨hopen, hclosed⟩
  exact absurd ((hev.steps w).keeps_open (hP w) hopen) hclosed

/-- The successor of a restart is open. -/
theorem Restarts.successor_open {source : WorkflowRow} (h : Restarts source now db db')
    (hs : db.Sound) : (db'.aggregate db.workflows.next).IsOpen := by
  cases h with
  | @terminal _ db₁ _ _ _ hstarted hev =>
    have hopen : (db₁.aggregate db.workflows.next).IsOpen := .of_row hstarted.stored rfl
    refine (hev.steps _).keeps_open ?_ hopen
    rintro _ ⟨-, rfl⟩
    rfl
  | @superseded _ ids db₁ _ _ hfind _ hstarted hended hev =>
    have hnot := hended.cascaded.not_successor (hstarted.evolves.sound hs)
      (source_of_find hstarted.stored) (hstarted.not_owns rfl)
    have hopen : (db₁.aggregate db.workflows.next).IsOpen := .of_row hstarted.stored rfl
    refine (hev.steps _).keeps_open ?_ ?_
    · rintro _ ⟨-, rfl⟩
      rfl
    have hout : db.workflows.next ∉ ids ++ [source.id] := by
      intro hmem
      rcases List.mem_append.mp hmem with hmem | hmem
      · exact hnot hmem
      · exact (Table.lt_next_of_find hfind).ne' (List.mem_singleton.mp hmem)
    rcases hended.swept.frame hout with heq | ⟨c, -, hstep⟩
    · rwa [heq]
    · exact hstep.keeps_open rfl hopen

/-- The entries of an action that record an end are those of the workflows it ended. -/
theorem exec_endsOnce (hs : s.Inv) (h : exec externals s action = .ok s')
    {events : List WorkflowEventRow} (hevents : s'.db.events = s.db.events ++ events) :
    action.EndsOnce s.db s'.db (auditTrail events) := by
  obtain ⟨events', hevents', haudited⟩ := exec_audited hs h
  obtain rfl := List.append_cancel_left (hevents.symm.trans hevents')
  have hev := (exec_leads hs h).evolves
  generalize hes : auditTrail events = es at haudited
  cases haudited with
  | pause | resume | retry | resolveApproval | recordScheduleRunNow =>
    refine endsOnce_of_steps hev (fun w l hl => ?_) ?_ ?_
    · obtain ⟨hl, -⟩ := hl
      cases l <;> first | rfl | cases hl
    all_goals first | decide | split <;> decide
  | cancelWorkflow =>
    obtain ⟨es, hes', hcloses⟩ := transact'_respects closes_cancelWorkflow h
    obtain rfl := List.append_cancel_left (hevents.symm.trans hes')
    intro _ w
    rw [← hes]
    exact ends_of_openCount (hcloses w)
  | restartTerminal | restartOpen =>
    obtain ⟨_, db', hrestart, rfl⟩ := transact'_ok h
    obtain ⟨es, hes', hcloses⟩ := wp_ok (wp_restart_closes hs.sound) hrestart
    obtain rfl := List.append_cancel_left (hevents.symm.trans hes')
    obtain ⟨⟨source, -, hrestarts⟩, -⟩ := wp_ok (wp_restart hs.sound hs.attached) hrestart
    intro _ w
    rw [← hes]
    have hcount := hcloses w
    by_cases hw : w = s.db.workflows.next
    · -- the successor did not exist, and is left open
      have hopen : (db'.aggregate w).IsOpen := hw ▸ hrestarts.successor_open hs.sound
      have hnew : ¬(s.db.aggregate w).IsOpen := by
        rintro ⟨r, hr, -⟩
        exact (Table.lt_next_of_find hr).ne hw
      rw [if_pos hw, openCount_of_open hopen, openCount_of_closed hnew] at hcount
      refine ⟨by omega, fun hone => by omega, fun h => absurd h.1 hnew⟩
    · rw [if_neg hw] at hcount
      exact ends_of_openCount hcount
  | engine hoperator => exact fun h => absurd hoperator h

end Exec

-- ════════════════════════════════════════════════════════════════════════
-- Runs
-- ════════════════════════════════════════════════════════════════════════

/-- The audit trail of every run is made of the entries of its controls that committed, in
their order, each in the name of its operator, with one entry for each workflow that the
control ended. A control that failed, the engine and the application leave no entry. -/
theorem run_audit (externals : Externals) (actions : List Action) :
    Machine.Traces (exec externals)
      (fun s action s' entries =>
        action.Audited s.db entries ∧ action.EndsOnce s.db s'.db entries)
      Sys.init actions (auditTrail (run externals Sys.init actions).db.events) := by
  have hstep : ∀ s action s', s.Inv → exec externals s action = .ok s' →
      ∃ entries, auditTrail s'.db.events = auditTrail s.db.events ++ entries ∧
        action.Audited s.db entries ∧ action.EndsOnce s.db s'.db entries := by
    intro s action s' hs hok
    obtain ⟨es, hevents, haudited⟩ := exec_audited hs hok
    exact ⟨auditTrail es, by rw [hevents, auditTrail_append], haudited,
      exec_endsOnce hs hok hevents⟩
  obtain ⟨entries, hentries, htraces⟩ :=
    Machine.run_traces (fun s action s' h hok => (exec_leads h hok).inv) hstep Sys.Inv.init actions
  show Machine.Traces _ _ _ _ (auditTrail (Machine.run (exec externals) Sys.init actions).db.events)
  rw [hentries]
  exact htraces

end DurableWorkflows
