import DurableWorkflows.Base.Changes
import DurableWorkflows.Engine.Actors

/-!
# What transactions write

The rows of workflows, activities and approvals are never removed, and most of their columns are
set once, at the insert. A transaction that reads a time after `t` leaves the queues of the
workers in order up to `t`: what becomes ready, pending or asleep in it is due after `t`, and
what was due before keeps its place.

## Main definitions

- `WorkflowRow.setOnce`, `ActivityRow.setOnce`, `ApprovalRow.setOnce`: the columns set once
- `WorkflowRow.Writes`, `ActivityRow.Writes`: what a statement may do to a row
- `DB.Keys`: the unique keys of the three tables
- `WritesAfter t`: what a transaction after `t` may do to the three tables
- `Action.After`: the actions whose times are after `t`

## Main results

- `exec_writes`: every action after `t` respects `WritesAfter t`
-/

namespace DurableWorkflows

open Transaction Sys

variable {t now : DbMillis}

-- ════════════════════════════════════════════════════════════════════════
-- Rows
-- ════════════════════════════════════════════════════════════════════════

/-- The columns of a workflow that are set once. -/
def WorkflowRow.setOnce (r : WorkflowRow) :=
  (r.id, r.lineage, r.inputJson, r.scheduleRunId, r.maxActivationAttempts, r.createdAt)

/-- The columns of an activity that are set once. -/
def ActivityRow.setOnce (r : ActivityRow) :=
  (r.id, r.workflowId, r.commandSequence, r.replacementNumber, r.kind, r.version, r.topic,
    r.payloadJson, r.timeoutMillis, r.leaseDurationMillis, r.retryPolicy, r.operationKey,
    r.rootActivityId, r.replacesActivityId, r.createdAt)

/-- The columns of an approval that are set once. -/
def ApprovalRow.setOnce (r : ApprovalRow) :=
  (r.id, r.workflowId, r.commandSequence, r.kind, r.version, r.promptMetadataJson,
    r.validationSchemaJson, r.validationVersion, r.requestedAt, r.expiresAt)

theorem WorkflowRow.setOnce_eq {r r' : WorkflowRow} (h : r'.setOnce = r.setOnce) :
    r'.id = r.id ∧ r'.lineage = r.lineage ∧ r'.inputJson = r.inputJson ∧
      r'.scheduleRunId = r.scheduleRunId ∧ r'.maxActivationAttempts = r.maxActivationAttempts ∧
      r'.createdAt = r.createdAt := by
  simpa only [WorkflowRow.setOnce, Prod.mk.injEq] using h

theorem ActivityRow.setOnce_eq {r r' : ActivityRow} (h : r'.setOnce = r.setOnce) :
    r'.id = r.id ∧ r'.workflowId = r.workflowId ∧ r'.commandSequence = r.commandSequence ∧
      r'.replacementNumber = r.replacementNumber ∧ r'.kind = r.kind ∧ r'.version = r.version ∧
      r'.topic = r.topic ∧ r'.createdAt = r.createdAt := by
  simp only [ActivityRow.setOnce, Prod.mk.injEq] at h
  simp only [h, and_self]

theorem ApprovalRow.setOnce_eq {r r' : ApprovalRow} (h : r'.setOnce = r.setOnce) :
    r'.id = r.id ∧ r'.workflowId = r.workflowId ∧ r'.commandSequence = r.commandSequence ∧
      r'.kind = r.kind ∧ r'.version = r.version ∧ r'.validationVersion = r.validationVersion ∧
      r'.requestedAt = r.requestedAt ∧ r'.expiresAt = r.expiresAt := by
  simp only [ApprovalRow.setOnce, Prod.mk.injEq] at h
  simp only [h, and_self]

/-- What a statement may do to a workflow row: what is ready or asleep afterwards is due after
`t` or was so before, at the same time. -/
structure WorkflowRow.Writes (t : DbMillis) (r r' : WorkflowRow) : Prop where
  setOnce : r'.setOnce = r.setOnce
  stateVersion : 0 < r.stateVersion → 0 < r'.stateVersion
  ready : r'.status = .ready → t < r'.availableAt ∨
    r.status = .ready ∧ r'.availableAt = r.availableAt
  asleep : r'.waitKind = some .timer → t < r'.availableAt ∨
    r.waitKind = some .timer ∧ r'.availableAt = r.availableAt

/-- A workflow row that was inserted after `t`. -/
structure WorkflowRow.Admitted (t : DbMillis) (r : WorkflowRow) : Prop where
  version : 0 < r.version
  stateVersion : 0 < r.stateVersion
  ready : r.status = .ready → t < r.availableAt
  asleep : r.waitKind = some .timer → t < r.availableAt

/-- What a statement may do to an activity row. -/
structure ActivityRow.Writes (t : DbMillis) (r r' : ActivityRow) : Prop where
  setOnce : r'.setOnce = r.setOnce
  maxAttempts : 0 < r.maxAttempts → 0 < r'.maxAttempts
  pending : r'.status = .pending → t < r'.availableAt ∨
    r.status = .pending ∧ r'.availableAt = r.availableAt

/-- An activity row that was inserted after `t`. -/
structure ActivityRow.Admitted (t : DbMillis) (r : ActivityRow) : Prop where
  version : 0 < r.version
  maxAttempts : 0 < r.maxAttempts
  pending : r.status = .pending → t < r.availableAt

/-- What a statement may do to an approval row. -/
def ApprovalRow.Writes (r r' : ApprovalRow) : Prop := r'.setOnce = r.setOnce

/-- An approval row that was inserted. -/
structure ApprovalRow.Admitted (r : ApprovalRow) : Prop where
  version : 0 < r.version
  validationVersion : 0 < r.validationVersion

namespace WorkflowRow

variable {r r' r'' : WorkflowRow}

theorem Writes.refl (r : WorkflowRow) : r.Writes t r :=
  ⟨rfl, fun h => h, fun h => .inr ⟨h, rfl⟩, fun h => .inr ⟨h, rfl⟩⟩

theorem Writes.trans (h : r.Writes t r') (h' : r'.Writes t r'') : r.Writes t r'' where
  setOnce := h'.setOnce.trans h.setOnce
  stateVersion := h'.stateVersion ∘ h.stateVersion
  ready hs := by
    obtain hlt | ⟨hs', heq⟩ := h'.ready hs
    · exact .inl hlt
    · rw [heq]
      exact h.ready hs'
  asleep hs := by
    obtain hlt | ⟨hs', heq⟩ := h'.asleep hs
    · exact .inl hlt
    · rw [heq]
      exact h.asleep hs'

instance instIsPreorder : IsPreorder WorkflowRow (Writes t) where
  refl := Writes.refl
  trans _ _ _ := Writes.trans

theorem Admitted.writes (h : r.Admitted t) (h' : r.Writes t r') : r'.Admitted t where
  version := by
    have hversion : r'.version = r.version :=
      congrArg Lineage.version (WorkflowRow.setOnce_eq h'.setOnce).2.1
    rw [hversion]
    exact h.version
  stateVersion := h'.stateVersion h.stateVersion
  ready hs := by
    obtain hlt | ⟨hs', heq⟩ := h'.ready hs
    · exact hlt
    · rw [heq]
      exact h.ready hs'
  asleep hs := by
    obtain hlt | ⟨hs', heq⟩ := h'.asleep hs
    · exact hlt
    · rw [heq]
      exact h.asleep hs'

/-- A row that leaves the queue of ready workflows. -/
theorem Writes.leaves (hfixed : r'.setOnce = r.setOnce)
    (hversion : 0 < r.stateVersion → 0 < r'.stateVersion) (hstatus : r'.status ≠ .ready)
    (hwait : r'.waitKind = some .timer → r.waitKind = some .timer ∧
      r'.availableAt = r.availableAt) : r.Writes t r' :=
  ⟨hfixed, hversion, fun hs => absurd hs hstatus, fun hs => .inr (hwait hs)⟩

/-- A row that is due after `t`. -/
theorem Writes.queued (hfixed : r'.setOnce = r.setOnce)
    (hversion : 0 < r.stateVersion → 0 < r'.stateVersion) (htime : t < r'.availableAt) :
    r.Writes t r' :=
  ⟨hfixed, hversion, fun _ => .inl htime, fun _ => .inl htime⟩

end WorkflowRow

namespace ActivityRow

variable {r r' r'' : ActivityRow}

theorem Writes.refl (r : ActivityRow) : r.Writes t r :=
  ⟨rfl, fun h => h, fun h => .inr ⟨h, rfl⟩⟩

theorem Writes.trans (h : r.Writes t r') (h' : r'.Writes t r'') : r.Writes t r'' where
  setOnce := h'.setOnce.trans h.setOnce
  maxAttempts := h'.maxAttempts ∘ h.maxAttempts
  pending hs := by
    obtain hlt | ⟨hs', heq⟩ := h'.pending hs
    · exact .inl hlt
    · rw [heq]
      exact h.pending hs'

instance instIsPreorder : IsPreorder ActivityRow (Writes t) where
  refl := Writes.refl
  trans _ _ _ := Writes.trans

theorem Admitted.writes (h : r.Admitted t) (h' : r.Writes t r') : r'.Admitted t where
  version := by
    rw [(ActivityRow.setOnce_eq h'.setOnce).2.2.2.2.2.1]
    exact h.version
  maxAttempts := h'.maxAttempts h.maxAttempts
  pending hs := by
    obtain hlt | ⟨hs', heq⟩ := h'.pending hs
    · exact hlt
    · rw [heq]
      exact h.pending hs'

/-- A row that leaves the queue of pending activities. -/
theorem Writes.leaves (hfixed : r'.setOnce = r.setOnce)
    (hmax : 0 < r.maxAttempts → 0 < r'.maxAttempts) (hstatus : r'.status ≠ .pending) :
    r.Writes t r' :=
  ⟨hfixed, hmax, fun hs => absurd hs hstatus⟩

/-- A row that is due after `t`. -/
theorem Writes.queued (hfixed : r'.setOnce = r.setOnce)
    (hmax : 0 < r.maxAttempts → 0 < r'.maxAttempts) (htime : t < r'.availableAt) :
    r.Writes t r' :=
  ⟨hfixed, hmax, fun _ => .inl htime⟩

end ActivityRow

namespace ApprovalRow

variable {r r' : ApprovalRow}

instance instIsPreorder : IsPreorder ApprovalRow Writes where
  refl _ := rfl
  trans _ _ _ h h' := Eq.trans h' h

theorem Admitted.writes (h : r.Admitted) (h' : r.Writes r') : r'.Admitted where
  version := by
    rw [(ApprovalRow.setOnce_eq h').2.2.2.2.1]
    exact h.version
  validationVersion := by
    rw [(ApprovalRow.setOnce_eq h').2.2.2.2.2.1]
    exact h.validationVersion

end ApprovalRow

-- ════════════════════════════════════════════════════════════════════════
-- Tables
-- ════════════════════════════════════════════════════════════════════════

/-- `uq_durable_workflow_deduplication`. -/
def WorkflowRow.deduplicationColumns (r : WorkflowRow) : Option (String × String) :=
  r.deduplicationKey.map fun key => (r.kind, key)

/-- `uq_durable_activity_command`. -/
def ActivityRow.commandColumns (r : ActivityRow) : Option (WorkflowId × ℕ × ℕ) :=
  some (r.workflowId, r.commandSequence, r.replacementNumber)

/-- `uq_durable_approval_command`. -/
def ApprovalRow.commandColumns (r : ApprovalRow) : Option (WorkflowId × ℕ) :=
  some (r.workflowId, r.commandSequence)

/-- The unique keys of workflows, activities and approvals. -/
structure DB.Keys (db : DB) : Prop where
  deduplication : db.workflows.Unique WorkflowRow.deduplicationColumns
  restart : db.workflows.Unique WorkflowRow.restartedFromWorkflowId
  activityCommand : db.activities.Unique ActivityRow.commandColumns
  approvalCommand : db.approvals.Unique ApprovalRow.commandColumns

/-- What a transaction that reads times after `t` may do to the three tables. -/
structure WritesAfter (t : DbMillis) (db db' : DB) : Prop where
  workflows : db.workflows.Changes (WorkflowRow.Writes t) (WorkflowRow.Admitted t) db'.workflows
  activities : db.activities.Changes (ActivityRow.Writes t) (ActivityRow.Admitted t) db'.activities
  approvals : db.approvals.Changes ApprovalRow.Writes ApprovalRow.Admitted db'.approvals
  keys : db.Keys → db'.Keys

namespace WritesAfter

variable {db db' db'' : DB}

theorem refl (db : DB) : WritesAfter t db db := ⟨.refl _, .refl _, .refl _, fun h => h⟩

theorem trans (h : WritesAfter t db db') (h' : WritesAfter t db' db'') : WritesAfter t db db'' where
  workflows := h.workflows.trans (fun _ _ => WorkflowRow.Admitted.writes) h'.workflows
  activities := h.activities.trans (fun _ _ => ActivityRow.Admitted.writes) h'.activities
  approvals := h.approvals.trans (fun _ _ => ApprovalRow.Admitted.writes) h'.approvals
  keys := h'.keys ∘ h.keys

instance instIsPreorder : IsPreorder DB (WritesAfter t) where
  refl := refl
  trans _ _ _ := trans

/-- A write to other tables. -/
theorem of_eq (hworkflows : db'.workflows = db.workflows)
    (hactivities : db'.activities = db.activities) (happrovals : db'.approvals = db.approvals) :
    WritesAfter t db db' := by
  refine ⟨?_, ?_, ?_, fun h => ⟨?_, ?_, ?_, ?_⟩⟩
  · rw [hworkflows]
    exact .refl _
  · rw [hactivities]
    exact .refl _
  · rw [happrovals]
    exact .refl _
  · exact hworkflows ▸ h.deduplication
  · exact hworkflows ▸ h.restart
  · exact hactivities ▸ h.activityCommand
  · exact happrovals ▸ h.approvalCommand

/-- A write to the workflows. -/
theorem set_workflows {u : Table WorkflowRow}
    (h : db.workflows.Changes (WorkflowRow.Writes t) (WorkflowRow.Admitted t) u)
    (hdeduplication : db.workflows.Unique WorkflowRow.deduplicationColumns →
      u.Unique WorkflowRow.deduplicationColumns)
    (hrestart : db.workflows.Unique WorkflowRow.restartedFromWorkflowId →
      u.Unique WorkflowRow.restartedFromWorkflowId) :
    WritesAfter t db (workflowTable.set u db) where
  workflows := h
  activities := .refl _
  approvals := .refl _
  keys hkeys :=
    ⟨hdeduplication hkeys.deduplication, hrestart hkeys.restart, hkeys.activityCommand,
      hkeys.approvalCommand⟩

/-- A write to the activities. -/
theorem set_activities {u : Table ActivityRow}
    (h : db.activities.Changes (ActivityRow.Writes t) (ActivityRow.Admitted t) u)
    (hcommand : db.activities.Unique ActivityRow.commandColumns →
      u.Unique ActivityRow.commandColumns) :
    WritesAfter t db (activityTable.set u db) where
  workflows := .refl _
  activities := h
  approvals := .refl _
  keys hkeys :=
    ⟨hkeys.deduplication, hkeys.restart, hcommand hkeys.activityCommand, hkeys.approvalCommand⟩

/-- A write to the approvals. -/
theorem set_approvals {u : Table ApprovalRow}
    (h : db.approvals.Changes ApprovalRow.Writes ApprovalRow.Admitted u)
    (hcommand : db.approvals.Unique ApprovalRow.commandColumns →
      u.Unique ApprovalRow.commandColumns) :
    WritesAfter t db (approvalTable.set u db) where
  workflows := .refl _
  activities := .refl _
  approvals := h
  keys hkeys :=
    ⟨hkeys.deduplication, hkeys.restart, hkeys.activityCommand, hcommand hkeys.approvalCommand⟩

end WritesAfter

-- ════════════════════════════════════════════════════════════════════════
-- Statements
-- ════════════════════════════════════════════════════════════════════════

section Statements

variable {i : ℕ}

theorem deduplicationColumns_congr {r r' : WorkflowRow} (h : r'.setOnce = r.setOnce) :
    r'.deduplicationColumns = r.deduplicationColumns :=
  congrArg (fun ℓ : Lineage => ℓ.deduplicationKey.map fun key => (ℓ.kind, key))
    (WorkflowRow.setOnce_eq h).2.1

theorem restartedFrom_congr {r r' : WorkflowRow} (h : r'.setOnce = r.setOnce) :
    r'.restartedFromWorkflowId = r.restartedFromWorkflowId :=
  congrArg Lineage.restartedFromWorkflowId (WorkflowRow.setOnce_eq h).2.1

theorem activityColumns_congr {r r' : ActivityRow} (h : r'.setOnce = r.setOnce) :
    r'.commandColumns = r.commandColumns := by
  obtain ⟨-, hworkflow, hcommand, hreplacement, -⟩ := ActivityRow.setOnce_eq h
  rw [ActivityRow.commandColumns, hworkflow, hcommand, hreplacement, ActivityRow.commandColumns]

theorem approvalColumns_congr {r r' : ApprovalRow} (h : r'.setOnce = r.setOnce) :
    r'.commandColumns = r.commandColumns := by
  obtain ⟨-, hworkflow, hcommand, -⟩ := ApprovalRow.setOnce_eq h
  rw [ApprovalRow.commandColumns, hworkflow, hcommand, ApprovalRow.commandColumns]

theorem writes_modify_workflow {db : DB} {f : WorkflowRow → WorkflowRow} {hf}
    (h : ∀ r, db.workflows.find i = some r → r.Writes t (f r)) :
    WritesAfter t db (workflowTable.set (db.workflows.modify i f hf) db) :=
  .set_workflows (Table.changes_modify h)
    (fun hkey => hkey.modify fun r hr => deduplicationColumns_congr (h r hr).setOnce)
    fun hkey => hkey.modify fun r hr => restartedFrom_congr (h r hr).setOnce

theorem writes_modify_activity {db : DB} {f : ActivityRow → ActivityRow} {hf}
    (h : ∀ r, db.activities.find i = some r → r.Writes t (f r)) :
    WritesAfter t db (activityTable.set (db.activities.modify i f hf) db) :=
  .set_activities (Table.changes_modify h) fun hkey =>
    hkey.modify fun r hr => activityColumns_congr (h r hr).setOnce

theorem writes_modify_approval {db : DB} {f : ApprovalRow → ApprovalRow} {hf}
    (h : ∀ r, (f r).setOnce = r.setOnce) :
    WritesAfter t db (approvalTable.set (db.approvals.modify i f hf) db) :=
  .set_approvals (Table.changes_modify fun r _ => h r) fun hkey =>
    hkey.modify fun r _ => approvalColumns_congr (h r)

/-- A fenced update of a workflow. -/
theorem writes_updateWorkflow {p : WorkflowRow → Bool} {f : WorkflowRow → WorkflowRow} {hf}
    (h : ∀ r : WorkflowRow, r.Writes t (f r)) :
    Respects (WritesAfter t) (fencedUpdate workflowTable i p f hf) :=
  .bind (.updateRow_of fun _ _ _ _ => writes_modify_workflow fun r _ => h r) fun _ => .ensure _ _

theorem writes_updateActivity {p : ActivityRow → Bool} {f : ActivityRow → ActivityRow} {hf}
    (h : ∀ r : ActivityRow, r.Writes t (f r)) :
    Respects (WritesAfter t) (fencedUpdate activityTable i p f hf) :=
  .bind (.updateRow_of fun _ _ _ _ => writes_modify_activity fun r _ => h r) fun _ => .ensure _ _

theorem writes_updateApproval {p : ApprovalRow → Bool} {f : ApprovalRow → ApprovalRow} {hf}
    (h : ∀ r, (f r).setOnce = r.setOnce) :
    Respects (WritesAfter t) (fencedUpdate approvalTable i p f hf) :=
  .bind (.updateRow_of fun _ _ _ _ => writes_modify_approval h) fun _ => .ensure _ _

theorem writes_appendEvent {e : WorkflowEventRow} : Respects (WritesAfter t) (appendEvent e) := by
  refine .bind .read fun _ => .bind (.ensure _ _) fun _ => .bind (.ensure _ _) fun _ => ?_
  exact .modify fun _ => .of_eq rfl rfl rfl

theorem writes_nextEventSequence {w : WorkflowId} : Respects (WritesAfter t) (nextEventSequence w) :=
  .bind .read fun _ => .orAbort _ _

theorem writes_appendHistoryEvent {w : WorkflowId} {eventType : EventType} {actorType : ActorType}
    {actorId reason : Option String} {metadata : Option EventMetadata} :
    Respects (WritesAfter t)
      (appendHistoryEvent w eventType actorType actorId reason metadata now) :=
  .bind writes_nextEventSequence fun _ => writes_appendEvent

theorem writes_appendDelivery {w : WorkflowId} {d : ℕ} {eventType : EventType}
    {metadata : Option EventMetadata} {actorType : ActorType} {actorId reason : Option String} :
    Respects (WritesAfter t) (appendDelivery w d eventType metadata actorType actorId reason now) :=
  .bind writes_nextEventSequence fun _ => writes_appendEvent

theorem writes_updateOpenAttempt {a : ActivityId} {n : ℕ} {token : LeaseToken}
    {f : ActivityAttemptRow → ActivityAttemptRow} :
    Respects (WritesAfter t) (updateOpenAttempt a n token f) := by
  refine .bind .read fun _ => .bind (.orAbort _ _) fun _ => ?_
  exact .modify fun _ => .of_eq rfl rfl rfl

theorem writes_firstRow {α : Type} [Keyed α] {T : TableOf DB α} : Respects (WritesAfter t) (firstRow T i) :=
  .bind (.findRow i) fun _ => .orAbort _ _

end Statements

-- ════════════════════════════════════════════════════════════════════════
-- Starts
-- ════════════════════════════════════════════════════════════════════════

section Starts

variable {w : WorkflowId}

/-- An insert that found no row with its keys. -/
theorem writes_insert_workflow {db : DB} {row : WorkflowRow}
    (hrow : ∀ id, ({ row with id } : WorkflowRow).Admitted t)
    (hkeyed : db.workflows.select (fun r => r.kind == row.kind && r.deduplicationKey.isSome &&
      r.deduplicationKey == row.deduplicationKey) = [])
    (hsuccessors : db.workflows.select (fun r => r.restartedFromWorkflowId.isSome &&
      r.restartedFromWorkflowId == row.restartedFromWorkflowId) = []) :
    WritesAfter t db (workflowTable.set (db.workflows.insert fun id => { row with id }) db) := by
  refine .set_workflows (Table.changes_insert (hrow _)) (fun hkey => hkey.insert ?_)
    fun hkey => hkey.insert ?_
  · intro i r k hr hk hk'
    have hfree := Table.not_of_select_eq_nil hkeyed hr
    obtain ⟨key, hkey, rfl⟩ := Option.map_eq_some_iff.mp hk
    obtain ⟨key', hkey', heq⟩ := Option.map_eq_some_iff.mp hk'
    obtain ⟨hkind, rfl⟩ := Prod.mk.inj heq
    change row.kind = r.kind at hkind
    change row.deduplicationKey = some key' at hkey'
    simp [hkey, hkey', hkind] at hfree
  · intro i r k hr hk hk'
    have hfree := Table.not_of_select_eq_nil hsuccessors hr
    change row.restartedFromWorkflowId = some k at hk'
    simp [hk, hk'] at hfree

theorem writes_insertWorkflow {row : WorkflowRow} (hversion : 0 < row.stateVersion)
    (hwait : row.waitKind = none) (htime : t < row.availableAt) :
    Respects (WritesAfter t) (insertWorkflow row) := by
  intro db
  simp only [insertWorkflow, wp_bind, wp_ensure, wp_selectRows, wp_ite, wp_insertRow, wp_pure]
  refine ⟨fun hpositive => ⟨fun hkeyed => ⟨fun hsuccessors => ?_, fun _ => trivial⟩,
    fun _ => .refl db⟩, fun _ => trivial⟩
  refine writes_insert_workflow (fun id => ⟨hpositive, hversion, fun _ => htime, fun h => ?_⟩)
    (List.isEmpty_iff.mp hkeyed) (List.isEmpty_iff.mp hsuccessors)
  change row.waitKind = some .timer at h
  rw [hwait] at h
  cases h

theorem writes_insertStarted {row : WorkflowRow} (hversion : 0 < row.stateVersion)
    (hwait : row.waitKind = none) (htime : t < row.availableAt) :
    Respects (WritesAfter t) (insertStarted row now) := by
  refine .bind (writes_insertWorkflow hversion hwait htime) fun outcome => ?_
  cases outcome with
  | inserted id => exact .bind writes_appendEvent fun _ => .pure _
  | deduplicationConflict =>
    refine .bind (.orAbort _ _) fun _ => .bind ?_ fun _ => .bind (.orAbort _ _) fun _ => .pure _
    exact .bind (.selectRows _) fun _ => .pure _

/-- A start is due at the time it was given, else now. -/
theorem writes_insertPrepared {workflow : PreparedWorkflowStart} {options : StartOptions}
    (htime : t < options.availableAt.getD now) :
    Respects (WritesAfter t) (insertPrepared workflow options now) := by
  have hfind : ∀ key, Respects (WritesAfter t) (findStarted workflow.kind key) := by
    intro key
    cases key with
    | none => exact .pure _
    | some key => exact .bind (.selectRows _) fun _ => .pure _
  refine .bind (hfind _) fun found => ?_
  cases found with
  | some existing => exact .pure _
  | none =>
    refine .bind (writes_insertStarted Nat.one_pos rfl htime) fun inserted => ?_
    cases inserted <;> exact .pure _

theorem writes_lockNewestGeneration {row : WorkflowRow} :
    Respects (WritesAfter t) (lockNewestGeneration row) := by
  refine .bind .read fun db => ?_
  generalize db.workflows.next + 1 = fuel
  induction fuel generalizing row with
  | zero => exact .abort _
  | succ fuel ih =>
    refine .bind (.bind (.selectRows _) fun _ => .pure _) fun successor => ?_
    cases successor with
    | none => exact .pure _
    | some successor => exact ih

theorem writes_existingChild {child : ChildWorkflowCommand} {keyed : WorkflowRow} :
    Respects (WritesAfter t) (existingChild child keyed) :=
  .bind writes_lockNewestGeneration fun _ => .bind (.ensure _ _) fun _ => .pure _

theorem writes_insertChild {child : ChildWorkflowCommand} {key : String} {parent root : WorkflowId}
    {command : ℕ} (hnow : t < now) :
    Respects (WritesAfter t) (insertChild child key parent command root now) := by
  refine .bind (.ensure _ _) fun _ => .bind (.bind (.selectRows _) fun _ => .pure _) fun keyed => ?_
  cases keyed with
  | some keyed => exact .bind writes_firstRow fun _ => writes_existingChild
  | none =>
    refine .bind (writes_insertStarted Nat.one_pos rfl hnow) fun inserted => ?_
    cases inserted with
    | inserted id => exact .pure _
    | existing keyed => exact writes_existingChild

theorem writes_wakeLoadedParent {parent : WorkflowRow} {c : WorkflowId} {kind : String}
    {version : ℤ} {outcome : ChildOutcome} (hnow : t < now) :
    Respects (WritesAfter t)
      (wakeLoadedParentOnChildTerminal parent c kind version outcome now) := by
  unfold wakeLoadedParentOnChildTerminal
  dsimp only
  split
  all_goals
    refine .bind (by first | exact .ofExcept _ | exact .pure _) fun _ => .ite ?_ (.pure _)
    refine .bind (.ofExcept _) fun _ => .bind (.orAbort _ _) fun _ => ?_
    exact .bind writes_appendDelivery fun _ =>
      writes_updateWorkflow fun _ => .queued rfl (fun h => h) hnow

theorem writes_wakeWaitingParents {child : WorkflowRow} {outcome : ChildOutcome} (hnow : t < now) :
    Respects (WritesAfter t) (wakeWaitingParentsOnChildTerminal child outcome now) :=
  .bind (.selectRows _) fun _ => .forEach fun _ => writes_wakeLoadedParent hnow

end Starts

-- ════════════════════════════════════════════════════════════════════════
-- Cancels
-- ════════════════════════════════════════════════════════════════════════

section Cancels

variable {w : WorkflowId} {reason : String} {outcome : AttemptOutcome} {operatorId : Option String}

theorem writes_closeAttempt {activity : ActivityRow} :
    Respects (WritesAfter t) (closeAttempt activity outcome reason now) :=
  .bind (.orAbort _ _) fun _ => writes_updateOpenAttempt

theorem writes_cancelActivities :
    Respects (WritesAfter t) (cancelActivities w reason outcome now) := by
  refine .bind (.selectRows _) fun _ => .forEach fun activity => ?_
  unfold cancelActivity
  split
  · refine .bind (.orAbort _ _) fun _ => writes_updateActivity fun _ => ?_
    exact .leaves rfl (fun h => h) (by simp)
  · refine .bind (.orAbort _ _) fun _ => writes_updateActivity fun _ => ?_
    exact .leaves rfl (fun h => h) (by simp)
  · exact writes_updateActivity fun _ => .leaves rfl (fun h => h) (by simp)
  all_goals exact .abort _

theorem writes_cancelApprovals : Respects (WritesAfter t) (cancelApprovals w reason now) :=
  .bind (.selectRows _) fun _ => .forEach fun _ => writes_updateApproval fun _ => rfl

theorem writes_cancelOneWorkflow {workflow : WorkflowRow} (hnow : t < now) :
    Respects (WritesAfter t) (cancelOneWorkflow workflow reason operatorId now) := by
  refine .bind writes_cancelActivities fun _ => .bind writes_cancelApprovals fun _ => ?_
  refine .bind (writes_updateWorkflow fun _ => .leaves rfl (fun h => h) (by simp) ?_) fun _ => ?_
  · rintro ⟨⟩
  · exact .bind writes_appendHistoryEvent fun _ => writes_wakeWaitingParents hnow

theorem writes_cancelOwnedDescendants (hnow : t < now) :
    Respects (WritesAfter t) (cancelOwnedDescendants w reason operatorId now) :=
  respects_cancelOwnedDescendants fun _ _ _ => writes_cancelOneWorkflow hnow

theorem writes_cancelLockedWorkflow {workflow : WorkflowRow} (hnow : t < now) :
    Respects (WritesAfter t) (cancelLockedWorkflow workflow reason operatorId now) :=
  .bind (writes_cancelOneWorkflow hnow) fun _ => writes_cancelOwnedDescendants hnow

/-- The row of a successor's source keeps its wait. -/
theorem writes_supersede {i : ℕ} {p : WorkflowRow → Bool} {hf} :
    Respects (WritesAfter t) (fencedUpdate workflowTable i p (fun r => { r.leaseCleared with
      status := .cancelled, updatedAt := now, completedAt := some now }) hf) :=
  writes_updateWorkflow fun _ => .leaves rfl (fun h => h) (by simp) fun h => ⟨h, rfl⟩

theorem writes_supersedeBlocked {latest : WorkflowRow} {successor : WorkflowId} {version : ℤ}
    (hnow : t < now) :
    Respects (WritesAfter t) (supersedeBlocked latest successor version now) := by
  refine .bind writes_supersede fun _ => .bind writes_appendHistoryEvent fun _ => ?_
  refine .bind (.ite ?_ (writes_wakeWaitingParents hnow)) fun _ =>
    writes_cancelOwnedDescendants hnow
  refine .bind (.selectRows _) fun _ => .forEach fun parent => ?_
  refine .bind (writes_updateWorkflow fun r => ⟨rfl, fun h => h, fun h => .inr ⟨h, rfl⟩, ?_⟩)
    fun _ => writes_appendHistoryEvent
  rintro ⟨⟩

theorem writes_cancelDeadLetters : Respects (WritesAfter t) (cancelDeadLetters w now) := by
  refine .updateRows_of fun db => .set_activities (Table.changes_modifyAll fun r _ => ?_)
    fun hkey => hkey.modifyAll fun _ => rfl
  exact .leaves rfl (fun h => h) (by simp)

theorem writes_recoverableStartIn {workflow : PreparedWorkflowStart} {options : StartOptions}
    (hnow : t < now) (htime : t < options.availableAt.getD now) :
    Respects (WritesAfter t) (recoverableStartIn workflow options now) := by
  unfold recoverableStartIn
  split
  · exact writes_insertPrepared htime
  · refine .bind (.bind (.selectRows _) fun _ => .pure _) fun original => ?_
    cases original with
    | none => exact writes_insertPrepared htime
    | some original =>
      refine .bind writes_lockNewestGeneration fun _ => .ite ?_ (.pure _)
      refine .bind (writes_insertPrepared htime) fun _ => .bind writes_cancelDeadLetters fun _ => ?_
      exact .bind (.onlyIf (writes_supersedeBlocked hnow)) fun _ => .pure _

end Cancels

-- ════════════════════════════════════════════════════════════════════════
-- Operators
-- ════════════════════════════════════════════════════════════════════════

section Operators

variable {w : WorkflowId} {operator : Operator}

theorem writes_lockWorkflow : Respects (WritesAfter t) (lockWorkflow w) :=
  .bind (.findRow _) fun _ => .orAbort _ _

theorem writes_pauseWorkflow : Respects (WritesAfter t) (pauseWorkflow w operator now) := by
  have hrevoke : ∀ activity : ActivityRow,
      Respects (WritesAfter t) (revokeRunning activity operator now) := by
    intro activity
    refine .bind (.orAbort _ _) fun _ => .orAbort_bind fun maxAttempts hmax => ?_
    refine writes_updateActivity fun _ => .leaves rfl (fun _ => ?_) (by simp)
    obtain ⟨-, rfl⟩ := I32.checkedAdd_eq_some.mp hmax
    exact Nat.succ_pos _
  refine .bind writes_lockWorkflow fun workflow => .bind (.ensure _ _) fun _ => ?_
  refine .bind (.ofExcept _) fun wait => .bind ?_ fun _ => ?_
  · unfold pauseAwaited
    split
    · refine .bind (.findRow _) fun found => ?_
      split
      · exact .pure _
      · split
        · exact hrevoke _
        all_goals exact .pure _
    all_goals exact .pure _
  · exact .bind (writes_updateWorkflow fun _ => .leaves rfl (fun h => h) (by simp) fun h => ⟨h, rfl⟩)
      fun _ => writes_appendHistoryEvent

/-- The status of a resume is read only. -/
theorem keeps_resumeStatus {workflow : WorkflowRow} :
    Keeps (fun db : DB => db) (resumeStatus workflow) := by
  refine .bind (.ofExcept _) fun wait => ?_
  split
  · exact .pure _
  · exact .pure _
  · refine .bind (fun _ => rfl) fun _ => .bind (.orAbort _ _) fun _ => ?_
    split
    all_goals first | exact .pure _ | exact fun _ => trivial
  · exact .bind (fun _ => rfl) fun _ => .bind (.orAbort _ _) fun _ =>
      .bind (.ensure _ _) fun _ => .pure _
  · exact .bind (fun _ => rfl) fun _ => .bind (.orAbort _ _) fun _ => .pure _

/-- A resumed workflow keeps the time it is due at, unless it is ready. -/
theorem writes_resume {db : DB} {workflow : WorkflowRow} {status : WorkflowStatus} {hf}
    (hnow : t < now) (hworkflow : db.workflows.find workflow.id = some workflow) :
    wp (fencedUpdate workflowTable workflow.id (fun r => r.status == .paused)
      (fun r => { r.leaseCleared with
        status, availableAt := if status = .ready then now else workflow.availableAt
        updatedAt := now }) hf)
      (fun _ db' => WritesAfter t db db') (fun _ => True) db := by
  have hchanged : ∀ n : ℕ,
      Respects (WritesAfter t) (Transaction.ensure (n = 1) DurableError.fencedWrite) :=
    fun _ => .ensure _ _
  unfold fencedUpdate
  rw [wp_bind, wp_updateRow]
  refine ⟨fun r hr _ => ?_, fun _ => hchanged 0 db⟩
  refine wp_imp (hchanged 1 _) fun _ db' h => ?_
  refine (writes_modify_workflow fun r' hr' => ?_).trans h
  obtain rfl : r' = workflow := Option.some_inj.mp (hr'.symm.trans hworkflow)
  by_cases hstatus : status = .ready
  · exact .queued rfl (fun h => h) (by simpa [hstatus] using hnow)
  · exact .leaves rfl (fun h => h) hstatus fun h => ⟨h, if_neg hstatus⟩

theorem writes_resumeWorkflow (hnow : t < now) :
    Respects (WritesAfter t) (resumeWorkflow w operator now) := by
  intro db
  unfold resumeWorkflow lockWorkflow
  rw [wp_bind, wp_bind, wp_findRow, wp_orAbort]
  refine ⟨fun workflow hworkflow => ?_, fun _ => trivial⟩
  rw [wp_bind, wp_ensure]
  refine ⟨fun _ => ?_, fun _ => trivial⟩
  rw [wp_bind]
  refine wp_imp (keeps_resumeStatus.wp_and (wp_true _ db)) fun status db' h => ?_
  have hid : workflow.id = w := Table.key_of_find hworkflow
  rw [h.2, wp_bind]
  refine wp_imp (writes_resume hnow (hid.symm ▸ hworkflow)) fun _ db₁ h₁ => ?_
  have hrest : Respects (WritesAfter t) (do
      appendOperatorEvent w .workflowResumed operator now
      pure status) :=
    .bind writes_appendHistoryEvent fun _ => .pure _
  exact wp_imp (hrest db₁) fun _ db₂ h₂ => h₁.trans h₂

theorem writes_cancelWorkflow (hnow : t < now) :
    Respects (WritesAfter t) (cancelWorkflow w operator now) :=
  .bind writes_lockWorkflow fun _ => .bind (.ensure _ _) fun _ => writes_cancelLockedWorkflow hnow

theorem writes_restart {registry : WorkflowRegistry} {correction : Option String} (hnow : t < now) :
    Respects (WritesAfter t) (restart registry w correction operator now) := by
  refine .bind writes_lockWorkflow fun source => .bind (.ensure _ _) fun _ => ?_
  refine .bind (.selectRows _) fun _ => .bind (.ensure _ _) fun _ => .bind (.ofExcept _) fun _ => ?_
  refine .bind (.ofExcept _) fun _ => .bind (writes_insertPrepared hnow) fun _ => ?_
  refine .bind (.ensure _ _) fun _ => .bind (.onlyIf ?_) fun _ => .bind ?_ fun _ => ?_
  · refine .bind writes_cancelActivities fun _ => .bind writes_cancelApprovals fun _ => ?_
    refine .bind writes_supersede fun _ => .bind writes_appendHistoryEvent fun _ => ?_
    exact .bind (writes_wakeWaitingParents hnow) fun _ => writes_cancelOwnedDescendants hnow
  · unfold moveScheduleRun
    split
    · exact .pure _
    · exact respects_fencedUpdate fun _ _ => .of_eq rfl rfl rfl
  · exact .bind writes_appendHistoryEvent fun _ => .bind writes_appendHistoryEvent fun _ => .pure _

/-- An insert that found no activity in its place. -/
theorem writes_insertActivity {row : ActivityRow}
    (htime : row.status = .pending → t < row.availableAt) :
    Respects (WritesAfter t) (insertActivity row) := by
  intro db
  simp only [insertActivity, wp_bind, wp_ensure, wp_selectRows, wp_insertRow]
  refine ⟨fun hversion => ⟨fun hmax => ⟨fun hfree => ?_, fun _ => trivial⟩, fun _ => trivial⟩,
    fun _ => trivial⟩
  refine .set_activities (Table.changes_insert ⟨hversion, hmax, htime⟩) fun hkey => hkey.insert ?_
  intro i r k hr hk hk'
  have hother := Table.not_of_select_eq_nil (List.isEmpty_iff.mp hfree) hr
  cases hk
  obtain ⟨hworkflow, hrest⟩ := Prod.mk.inj (Option.some_inj.mp hk')
  obtain ⟨hcommand, hreplacement⟩ := Prod.mk.inj hrest
  change row.workflowId = r.workflowId at hworkflow
  change row.commandSequence = r.commandSequence at hcommand
  change row.replacementNumber = r.replacementNumber at hreplacement
  simp [hworkflow, hcommand, hreplacement] at hother

theorem availableAt_newActivityRow {workflowId : WorkflowId} {command replacement : ℕ}
    {activity : ActivityCommand} {key : Option String} {availableAt : DbMillis}
    {root replaces : Option ActivityId} {row : ActivityRow}
    (h : newActivityRow workflowId command replacement activity key availableAt root replaces now =
      .ok row) : row.availableAt = availableAt := by
  obtain ⟨_, -, h⟩ := bind_eq_ok h
  obtain ⟨_, -, h⟩ := bind_eq_ok h
  obtain ⟨_, -, h⟩ := bind_eq_ok h
  cases h
  rfl

theorem writes_retry {registry : ActivityRegistry} {a : ActivityId} {correction : Option String}
    (hnow : t < now) : Respects (WritesAfter t) (retry registry a correction operator now) := by
  refine .bind (.findRow _) fun _ => .bind (.orAbort _ _) fun source => ?_
  refine .bind writes_lockWorkflow fun workflow => .bind (.ofExcept _) fun _ => ?_
  refine .bind (.ensure _ _) fun _ => .bind (.orAbort _ _) fun _ => .bind (.ofExcept _) fun _ => ?_
  refine .ofExcept_bind fun row hrow => .bind (writes_insertActivity fun _ => ?_) fun _ => ?_
  · rw [availableAt_newActivityRow hrow]
    exact hnow
  · refine .bind (writes_updateWorkflow fun _ => .leaves rfl (fun h => h) (by simp) ?_) fun _ =>
      .bind writes_appendHistoryEvent fun _ => .pure _
    rintro ⟨⟩

theorem writes_resolveApproval {externals : Externals} {registry : WorkflowRegistry}
    {p : ApprovalId} {decision : String} (hnow : t < now) :
    Respects (WritesAfter t) (resolveApproval externals registry p decision operator now) := by
  refine .bind (.ofExcept _) fun _ => .bind (.findRow _) fun _ => .bind (.orAbort _ _) fun _ => ?_
  refine .bind writes_lockWorkflow fun workflow => .bind (.ensure _ _) fun _ => ?_
  refine .bind (.ensure _ _) fun _ => .bind (.ofExcept _) fun _ => .bind (.ensure _ _) fun _ => ?_
  refine .bind (.ofExcept _) fun _ => .bind (.ofExcept _) fun _ => .bind (.orAbort _ _) fun _ => ?_
  refine .bind writes_appendDelivery fun _ => .bind (writes_updateApproval fun _ => rfl) fun _ => ?_
  exact writes_updateWorkflow fun _ => .queued rfl (fun h => h) hnow

end Operators

-- ════════════════════════════════════════════════════════════════════════
-- The coordinator
-- ════════════════════════════════════════════════════════════════════════

/-- A delay from a time after `t` ends after `t`. -/
theorem lt_saturatingPlusMillis {delay : ℕ} {millis : ℤ} (hmax : t < DbMillis.max) (hnow : t < now)
    (h : durationMillis delay = .ok millis) : t < DbMillis.saturatingPlusMillis now millis := by
  unfold durationMillis at h
  split at h
  · cases h
    exact lt_max_of_lt_right (lt_min hmax (Int.lt_of_lt_of_le hnow
      (Int.le_add_of_nonneg_right (Int.natCast_nonneg _))))
  · cases h

/-- The transition makes nothing due before `t`. -/
def StoredTransition.After (t : DbMillis) : StoredTransition → Prop
  | .sleepUntil _ wakeAtMillis => t < wakeAtMillis
  | .runActivity _ activity =>
    activity.continuationPriority = true → t < continuationReadyAtMillis
  | .continue _ | .complete _ | .waitForApproval .. | .runChild .. => True

section Coordinator

variable {config : CoordinatorConfig} {claim : ClaimedRow} {stateJson : String}
  {delivered command : ℕ}

theorem writes_lockFirst {locked : WorkflowId → Bool} {qualifies : WorkflowRow → Bool}
    {ids : List WorkflowId} : Respects (WritesAfter t) (lockFirst locked qualifies ids) := by
  induction ids with
  | nil => exact .pure _
  | cons id ids ih =>
    refine .bind (.findRow _) fun candidate => ?_
    split
    · exact .pure _
    · exact ih

theorem writes_findExpired {locked : WorkflowId → Bool} {fuel : ℕ}
    {cursor : Option (DbMillis × WorkflowId)} :
    Respects (WritesAfter t) (findExpired locked now fuel cursor) := by
  induction fuel generalizing cursor with
  | zero => exact .abort _
  | succ fuel ih =>
    refine .bind (.selectRows _) fun expired => ?_
    dsimp only
    split
    · exact .pure _
    · refine .bind writes_lockFirst fun found => ?_
      cases found with
      | some row => exact .pure _
      | none => exact .ite (.pure _) ih

theorem writes_recoverExpired {expired : Option WorkflowRow} (hnow : t < now) :
    Respects (WritesAfter t) (recoverExpired expired now) := by
  cases expired with
  | none => exact .pure _
  | some row =>
    exact .bind (writes_updateWorkflow fun _ => .queued rfl (fun h => h) hnow) fun _ =>
      writes_appendHistoryEvent

theorem writes_claimReady {registry : WorkflowRegistry} {locked : WorkflowId → Bool}
    {workerId : String} {token : LeaseToken} {expiry : DbMillis} :
    Respects (WritesAfter t) (claimReady registry locked workerId token expiry now) := by
  refine .bind (.selectRows _) fun _ => .bind writes_lockFirst fun found => ?_
  cases found with
  | none => exact .pure _
  | some row =>
    refine .bind (writes_updateWorkflow fun _ => ?_) fun _ => .pure _
    exact .leaves rfl (fun h => h) (by simp) fun h => ⟨h, rfl⟩

theorem writes_claimRow {registry : WorkflowRegistry} {locked : WorkflowId → Bool}
    {workerId : String} {token : LeaseToken} (hnow : t < now) :
    Respects (WritesAfter t) (claimRow config registry locked workerId token now) := by
  refine .bind (.ofExcept _) fun _ => .bind (.orAbort _ _) fun _ => .bind .read fun _ => ?_
  refine .bind writes_findExpired fun _ => .bind (writes_recoverExpired hnow) fun _ => ?_
  exact writes_claimReady

theorem writes_activate : Respects (WritesAfter t) (activate claim) := by
  refine .bind (.bind .read fun _ => .pure _) fun _ => .bind (.orAbort _ _) fun _ => ?_
  exact .bind (.ofExcept _) fun _ => .pure _

theorem stateVersion_pos {n : ℕ} : 0 < I32.saturatingAdd n 1 :=
  lt_min (Nat.succ_pos n) (by decide)

theorem writes_commitContinue (hmax : t < DbMillis.max) (hnow : t < now) :
    Respects (WritesAfter t) (commitContinue config claim delivered stateJson now) := by
  refine .ofExcept_bind fun delay hdelay => .bind (writes_updateWorkflow fun _ => ?_) fun _ =>
    writes_appendDelivery
  refine .queued rfl (fun _ => stateVersion_pos) ?_
  dsimp only
  split
  next hfair =>
    rw [if_pos hfair] at hdelay
    exact lt_saturatingPlusMillis hmax hnow hdelay
  · exact hnow

theorem writes_commitComplete {outputJson : String} (hnow : t < now) :
    Respects (WritesAfter t) (commitComplete claim delivered outputJson now) := by
  refine .bind (writes_updateWorkflow fun _ => ?_) fun _ =>
    .bind writes_appendHistoryEvent fun _ => writes_wakeWaitingParents hnow
  exact .leaves rfl (fun h => h) (by simp) fun h => ⟨h, rfl⟩

theorem writes_commitSleep {wakeAt : DbMillis} (htime : t < wakeAt) :
    Respects (WritesAfter t) (commitSleep claim delivered command stateJson wakeAt now) :=
  .bind (writes_updateWorkflow fun _ => .queued rfl (fun _ => stateVersion_pos) htime) fun _ =>
    writes_appendHistoryEvent

/-- A commit that waits for something other than a timer. -/
theorem writes_waitCommitted {i : ℕ} {p : WorkflowRow → Bool} {status : WorkflowStatus}
    {wait : Wait} {hf} (hstatus : status ≠ .ready) (hwait : wait.kind ≠ .timer) :
    Respects (WritesAfter t) (fencedUpdate workflowTable i p
      (waitCommitted claim stateJson status wait command delivered now) hf) := by
  refine writes_updateWorkflow fun _ => .leaves rfl (fun _ => stateVersion_pos) hstatus fun h => ?_
  exact absurd (Option.some_inj.mp h) hwait

theorem writes_lockFence : Respects (WritesAfter t) (lockFence claim) :=
  .bind (.findRow _) fun _ => .ensure _ _

theorem writes_insertApproval {row : ApprovalRow} (hvalidation : 0 < row.validationVersion) :
    Respects (WritesAfter t) (insertApproval row) := by
  intro db
  simp only [insertApproval, wp_bind, wp_ensure, wp_selectRows, wp_insertRow]
  refine ⟨fun hversion => ⟨fun hfree => ?_, fun _ => trivial⟩, fun _ => trivial⟩
  refine .set_approvals (Table.changes_insert ⟨hversion, hvalidation⟩) fun hkey => hkey.insert ?_
  intro i r k hr hk hk'
  have hother := Table.not_of_select_eq_nil (List.isEmpty_iff.mp hfree) hr
  cases hk
  obtain ⟨hworkflow, hcommand⟩ := Prod.mk.inj (Option.some_inj.mp hk')
  change row.workflowId = r.workflowId at hworkflow
  change row.commandSequence = r.commandSequence at hcommand
  simp [hworkflow, hcommand] at hother

theorem writes_commitApproval {approvalJson : String} {expiresAt : Option DbMillis} :
    Respects (WritesAfter t)
      (commitApproval claim delivered command stateJson approvalJson expiresAt now) := by
  refine .bind writes_lockFence fun _ => .bind (writes_insertApproval Nat.one_pos) fun _ => ?_
  exact .bind (writes_waitCommitted (by decide) (by simp [Wait.kind])) fun _ =>
    writes_appendHistoryEvent

theorem writes_commitActivity {activity : ActivityCommand} (hnow : t < now)
    (hpriority : activity.continuationPriority = true → t < continuationReadyAtMillis) :
    Respects (WritesAfter t) (commitActivity claim delivered command stateJson activity now) := by
  refine .bind writes_lockFence fun _ => .ofExcept_bind fun row hrow => ?_
  refine .bind (writes_insertActivity fun _ => ?_) fun _ => ?_
  · rw [availableAt_newActivityRow hrow]
    split
    · exact hpriority ‹_›
    · exact hnow
  · exact .bind (writes_waitCommitted (by decide) (by simp [Wait.kind])) fun _ =>
      writes_appendHistoryEvent

theorem writes_ancestorFrom {target : WorkflowId} {fuel : ℕ} {id : Option WorkflowId} :
    Respects (WritesAfter t) (ancestorFrom claim target fuel id) := by
  induction fuel generalizing id with
  | zero =>
    cases id with
    | none => exact .pure _
    | some id => exact .abort _
  | succ fuel ih =>
    cases id with
    | none => exact .pure _
    | some id =>
      unfold ancestorFrom
      refine .ite (.pure _) ?_
      dsimp only
      split
      · exact .bind (.pure _) fun _ => ih
      · exact .bind writes_firstRow fun _ => ih

theorem writes_commitChild {child : ChildWorkflowCommand} (hnow : t < now) :
    Respects (WritesAfter t) (commitChild claim delivered command stateJson child now) := by
  have hend : ∀ outcome : ChildStart,
      Respects (WritesAfter t) (deliverExistingOutcome outcome now) := by
    intro outcome
    cases outcome with
    | inserted id => exact .pure _
    | existing row =>
      unfold deliverExistingOutcome
      dsimp only
      split
      · exact writes_wakeWaitingParents hnow
      · exact .pure _
  refine .bind (writes_insertChild hnow) fun outcome => ?_
  dsimp only
  split
  all_goals
    refine .bind (by first | exact .pure _ | exact .bind .read fun _ => writes_ancestorFrom)
      fun _ => ?_
    refine .bind (.ensure _ _) fun _ => ?_
    refine .bind (writes_waitCommitted (by decide) (by simp [Wait.kind])) fun _ => ?_
    exact .bind writes_appendHistoryEvent fun _ => hend outcome

theorem writes_commitOnConnection {event : WorkflowEventRow} {transition : StoredTransition}
    (hmax : t < DbMillis.max) (hnow : t < now) (h : transition.After t) :
    Respects (WritesAfter t) (commitOnConnection config claim event transition now) := by
  refine .bind (.orAbort _ _) fun delivered => ?_
  cases transition with
  | «continue» => exact writes_commitContinue hmax hnow
  | complete => exact writes_commitComplete hnow
  | sleepUntil => exact writes_commitSleep h
  | waitForApproval => exact writes_commitApproval
  | runActivity => exact writes_commitActivity hnow h
  | runChild => exact writes_commitChild hnow

theorem writes_recordActivationFailure {externals : Externals} {message : String}
    (hmax : t < DbMillis.max) (hnow : t < now) :
    Respects (WritesAfter t) (recordActivationFailure externals config claim message now) := by
  refine .bind (.findRow _) fun _ => .bind (.orAbort _ _) fun _ => .bind (.ofExcept _) fun _ => ?_
  refine .ofExcept_bind fun millis hmillis => .bind (writes_updateWorkflow fun _ => ?_) fun _ => ?_
  · exact .queued rfl (fun h => h) (lt_saturatingPlusMillis hmax hnow hmillis)
  · exact .bind writes_appendHistoryEvent fun _ => .onlyIf (writes_wakeWaitingParents hnow)

end Coordinator

-- ════════════════════════════════════════════════════════════════════════
-- The activity worker and the materializers
-- ════════════════════════════════════════════════════════════════════════

section Worker

variable {externals : Externals} {claim : ActivityClaim} {row : ActivityRow}
  {reason message category : String} {outcome : AttemptOutcome} {registry : ActivityRegistry}
  {topics : List TopicDefinition} {locks : HeldLocks} {topic workerId : String} {started : Instant}
  {token : LeaseToken}

theorem writes_blockWorkflow : Respects (WritesAfter t) (blockWorkflow row category message now) :=
  .bind (writes_updateWorkflow fun _ => .leaves rfl (fun h => h) (by simp) fun h => ⟨h, rfl⟩)
    fun _ => writes_appendHistoryEvent

theorem writes_settleRevoked (hnow : t < now) :
    Respects (WritesAfter t) (settleRevoked row outcome message now) := by
  refine .bind (.orAbort _ _) fun _ => .bind writes_firstRow fun workflow => ?_
  refine .bind writes_closeAttempt fun _ => .bind (writes_updateActivity fun _ => ?_) fun _ =>
    writes_appendHistoryEvent
  by_cases hterminal : workflow.status.isTerminal = true
  · exact .leaves rfl (fun h => h) (by simp [hterminal])
  · exact .queued rfl (fun h => h) (by simpa [hterminal] using hnow)

theorem lt_recoveryAvailableAt {exhausted : Bool} {availableAt : DbMillis}
    (hmax : t < DbMillis.max) (hnow : t < now)
    (h : recoveryAvailableAt externals row exhausted now = .ok availableAt) : t < availableAt := by
  unfold recoveryAvailableAt at h
  split at h
  · cases h
    exact hnow
  · split at h
    · cases h
      exact hnow
    · obtain ⟨_, -, h⟩ := bind_eq_ok h
      obtain ⟨_, hmillis, h⟩ := bind_eq_ok h
      cases h
      exact lt_saturatingPlusMillis hmax hnow hmillis

theorem writes_reconcileCandidate (hmax : t < DbMillis.max) (hnow : t < now) :
    Respects (WritesAfter t) (reconcileCandidate externals locks topic now row) := by
  refine .bind (.findRow _) fun workflow => ?_
  split
  · exact .pure _
  refine .bind (.findRow _) fun found => ?_
  split
  · exact .pure _
  next expired _ =>
    split
    · refine .bind ?_ fun _ => .pure _
      refine .bind (.orAbort _ _) fun _ => .ofExcept_bind fun availableAt havailable => ?_
      refine .bind (writes_updateActivity fun _ => ?_) fun _ => ?_
      · exact .queued rfl (fun h => h) (lt_recoveryAvailableAt hmax hnow havailable)
      refine .bind writes_updateOpenAttempt fun _ => ?_
      exact .bind writes_appendHistoryEvent fun _ => .onlyIf writes_blockWorkflow
    · exact .bind (writes_settleRevoked hnow) fun _ => .pure _
    all_goals exact .abort _

theorem writes_reconcileExpired (hmax : t < DbMillis.max) (hnow : t < now) :
    Respects (WritesAfter t) (reconcileExpired externals locks topic now) :=
  .bind (.selectRows _) fun _ => .foldEach fun _ _ =>
    .bind (writes_reconcileCandidate hmax hnow) fun _ => .pure _

theorem writes_quarantineCandidate :
    Respects (WritesAfter t) (quarantineCandidate row reason message now) :=
  .bind (writes_updateActivity fun _ => .leaves rfl (fun h => h) (by simp)) fun _ =>
    .bind writes_appendHistoryEvent fun _ => writes_blockWorkflow

theorem writes_leaseCandidate {scheduleRunId : Option ScheduleRunId} {policy : RetryPolicy} :
    Respects (WritesAfter t)
      (leaseCandidate row scheduleRunId policy now started workerId token) := by
  refine .bind (.orAbort _ _) fun _ => .bind (.orAbort _ _) fun _ => ?_
  refine .bind (writes_updateActivity fun _ => .leaves rfl (fun h => h) (by simp)) fun _ => ?_
  refine .bind ?_ fun _ => .bind (.ofExcept _) fun _ => .pure _
  exact .bind .read fun _ => .bind (.ensure _ _) fun _ => .modify fun _ => .of_eq rfl rfl rfl

theorem writes_claimLockedCandidate {a : ActivityId} {w : WorkflowId} :
    Respects (WritesAfter t)
      (claimLockedCandidate registry locks a w now started workerId token) := by
  refine .bind (.findRow _) fun workflow => ?_
  split
  · exact .pure _
  refine .bind (.findRow _) fun found => ?_
  split
  · exact .pure _
  refine .ite (.pure _) (.ite ?_ (.ite ?_ ?_))
  · exact .bind writes_quarantineCandidate fun _ => .pure _
  · exact .bind writes_quarantineCandidate fun _ => .pure _
  · split
    · exact .bind writes_quarantineCandidate fun _ => .pure _
    · exact .bind writes_leaseCandidate fun _ => .pure _

theorem writes_claimCandidates :
    Respects (WritesAfter t) (claimCandidates registry topic now) :=
  .bind .read fun _ => .bind (.selectRows _) fun _ => .pure _

theorem writes_inFlight {unsettled : List ActivityId} :
    Respects (WritesAfter t) (inFlight topic unsettled now) :=
  .bind (.selectRows _) fun _ => .pure _

theorem writes_claimOne (hmax : t < DbMillis.max) (hnow : t < now) :
    Respects (WritesAfter t)
      (claimOne externals registry topics locks topic workerId token now started) := by
  refine .bind (.ensure _ _) fun _ => .bind .read fun _ => .bind (.orAbort _ _) fun _ => ?_
  refine .bind (writes_reconcileExpired hmax hnow) fun _ => ?_
  refine .bind writes_inFlight fun _ => .ite (.pure _) ?_
  refine .bind writes_claimCandidates fun candidates => ?_
  induction candidates with
  | nil => exact .pure _
  | cons candidate candidates ih =>
    refine .bind writes_claimLockedCandidate fun claim => ?_
    cases claim with
    | some claim => exact .pure _
    | none => exact ih

theorem writes_claimUpTo {limit wanted : ℕ} {candidates : List ActivityRow}
    {claims : List ActivityClaim} :
    Respects (WritesAfter t)
      (claimUpTo registry locks topic limit wanted now started workerId token candidates claims) := by
  induction candidates generalizing claims with
  | nil => exact .pure _
  | cons candidate candidates ih =>
    exact .ite (.pure _) (.bind writes_claimLockedCandidate fun _ => ih)

theorem writes_claimBatch {limit : ℕ} {capacity : List (String × ℕ)} (hmax : t < DbMillis.max)
    (hnow : t < now) :
    Respects (WritesAfter t)
      (claimBatch externals registry topics locks limit capacity workerId token now started) := by
  have htopics : ∀ (locked : List TopicLockRow) (claims : List ActivityClaim),
      Respects (WritesAfter t) (claimTopics externals registry locks limit capacity workerId token
        now started locked claims) := by
    intro locked
    induction locked with
    | nil => exact fun _ => .pure _
    | cons lock locked ih =>
      intro claims
      refine .bind (writes_reconcileExpired hmax hnow) fun _ => ?_
      refine .bind writes_inFlight fun _ => .ite (ih _) (.ite (.pure _) ?_)
      exact .bind writes_claimCandidates fun _ => .bind writes_claimUpTo fun _ => ih _
  exact .bind .read fun _ => .ite (.pure _) (htopics _ _)

theorem writes_heartbeatOnce : Respects (WritesAfter t) (heartbeatOnce claim now) := by
  refine .bind (.orAbort _ _) fun _ => .bind (.findRow _) fun _ => .bind (.orAbort _ _) fun row => ?_
  refine .bind (writes_updateActivity fun _ => ⟨rfl, fun h => h, fun h => .inr ⟨h, rfl⟩⟩)
    fun _ => .bind writes_updateOpenAttempt fun _ => ?_
  split
  · exact .pure _
  · exact .pure _
  all_goals exact .abort _

theorem writes_deadLetter :
    Respects (WritesAfter t) (deadLetter claim row category message now) :=
  .bind (writes_updateActivity fun _ => .leaves rfl (fun h => h) (by simp)) fun _ =>
    .bind writes_updateOpenAttempt fun _ => writes_blockWorkflow

theorem writes_finishSucceeded {output : String} (hnow : t < now) :
    Respects (WritesAfter t) (finishSucceeded claim output now) := by
  refine .bind (writes_updateActivity fun _ => .leaves rfl (fun h => h) (by simp)) fun _ => ?_
  refine .bind writes_updateOpenAttempt fun _ => .bind writes_firstRow fun _ => ?_
  refine .bind (.ensure _ _) fun _ => .bind (.ofExcept _) fun _ => ?_
  exact .bind writes_appendDelivery fun _ =>
    writes_updateWorkflow fun _ => .queued rfl (fun h => h) hnow

theorem writes_finishRetry (hmax : t < DbMillis.max) (hnow : t < now) :
    Respects (WritesAfter t) (finishRetry externals claim category message now) := by
  refine .bind (.ofExcept _) fun _ => .ofExcept_bind fun millis hmillis => ?_
  refine .bind (writes_updateActivity fun _ => ?_) fun _ =>
    .bind writes_updateOpenAttempt fun _ => writes_appendHistoryEvent
  exact .queued rfl (fun h => h) (lt_saturatingPlusMillis hmax hnow hmillis)

theorem writes_finishOnConnection {outcome : ExecutionOutcome} (hmax : t < DbMillis.max)
    (hnow : t < now) :
    Respects (WritesAfter t) (finishOnConnection externals claim outcome now) := by
  refine .bind writes_firstRow fun _ => .bind (.findRow _) fun _ => .bind (.orAbort _ _) fun row => ?_
  split
  · exact .bind (.ofExcept _) fun _ => writes_settleRevoked hnow
  · exact .abort _
  · exact writes_finishSucceeded hnow
  · exact .ite writes_deadLetter (writes_finishRetry hmax hnow)
  · exact writes_deadLetter
  all_goals exact .abort _

theorem writes_appendDeliveryEvent {workflow : WorkflowRow} {eventType : EventType}
    {event : WorkflowEvent} :
    Respects (WritesAfter t) (appendDeliveryEvent externals workflow eventType event now) :=
  .bind (.ofExcept _) fun _ => .bind (.orAbort _ _) fun _ => writes_appendDelivery

theorem writes_clearWait {workflow : WorkflowRow} (hnow : t < now) :
    Respects (WritesAfter t) (clearWait workflow now) :=
  writes_updateWorkflow fun _ => .queued rfl (fun h => h) hnow

theorem writes_materializeTimer {locked : WorkflowId → Bool} (hnow : t < now) :
    Respects (WritesAfter t) (materializeTimer externals locked now) := by
  refine .bind (.selectRows _) fun due => ?_
  split
  · exact .pure _
  · refine .bind (.ofExcept _) fun _ => .bind writes_appendDeliveryEvent fun _ => ?_
    exact .bind (writes_clearWait hnow) fun _ => .pure _

theorem writes_materializeApproval {p : ApprovalId} (hnow : t < now) :
    Respects (WritesAfter t) (materializeApproval externals p now) := by
  refine .bind writes_firstRow fun _ => .bind writes_firstRow fun _ => .ite ?_ (.pure _)
  refine .bind (.ofExcept _) fun _ => .bind writes_appendDeliveryEvent fun _ => ?_
  refine .bind (writes_updateApproval fun _ => rfl) fun _ => ?_
  exact .bind (writes_clearWait hnow) fun _ => .pure _

end Worker

-- ════════════════════════════════════════════════════════════════════════
-- Actions
-- ════════════════════════════════════════════════════════════════════════

/-- The times that an action reads or is given are after `t`: its clock, the time from which a
start makes its workflow available, and the time until which a committed sleep lasts. -/
def Action.After (t : DbMillis) : Action → Prop
  | start _ options now | startPrepared _ options now | recoverableStart _ options now =>
    t < now ∧ t < options.availableAt.getD now
  | commit _ _ transition now => t < now ∧ transition.After t
  | cancel _ _ now | claimWorkflow _ _ _ _ now | failActivation _ _ _ now | seedLocks _ now
  | claimActivity _ _ _ _ _ now _ | claimActivities _ _ _ _ _ _ now _ | heartbeat _ now
  | finish _ _ now | reportProgress _ _ now | fireTimer _ now | expireApproval _ now
  | pause _ _ now | resume _ _ now | cancelWorkflow _ _ now | restart _ _ _ _ now
  | retry _ _ _ _ now | resolveApproval _ _ _ _ now | recordScheduleRunNow _ _ now => t < now
  | activate _ | writeScheduleRuns _ => True

section Exec

variable {externals : Externals} {s s' : Sys} {action : Action}

/-- A start of a worker and a report write neither workflows nor activities. -/
theorem writes_seedLocks {topics : List TopicDefinition} :
    Respects (WritesAfter t) (seedLocks topics now) :=
  .forEach fun _ => .bind (.ensure _ _) fun _ => .modify fun _ => .of_eq rfl rfl rfl

theorem writes_report {claim : ActivityClaim} {event : ProgressEvent} :
    Respects (WritesAfter t) (report externals claim event now) := by
  refine .bind (.ofExcept _) fun _ => .bind (.findRow _) fun _ => .bind (.ensure _ _) fun _ => ?_
  refine .bind .read fun _ => .ite (.pure _) ?_
  refine .bind (.orAbort _ _) fun _ => .bind (.ensure _ _) fun _ => ?_
  exact .bind (.modify fun _ => .of_eq rfl rfl rfl) fun _ => .pure _

/-- **Step theorem**: an action whose times are after `t` keeps the columns that are set once,
the unique keys, and the queues up to `t`. -/
theorem exec_writes (hmax : t < DbMillis.max) (hafter : action.After t)
    (h : exec externals s action = .ok s') : WritesAfter t s.db s'.db := by
  cases action with
  | start =>
    exact transact'_respects (.bind (.ofExcept _) fun _ => writes_insertPrepared hafter.2) h
  | startPrepared =>
    exact transact'_respects (.bind (.ofExcept _) fun _ => writes_insertPrepared hafter.2) h
  | recoverableStart =>
    exact transact'_respects
      (.bind (.ofExcept _) fun _ => writes_recoverableStartIn hafter.1 hafter.2) h
  | cancel =>
    refine transact'_respects (.bind (.ensure _ _) fun _ => .bind (.findRow _) fun _ => ?_) h
    exact .bind (.orAbort _ _) fun _ => .onlyIf (writes_cancelLockedWorkflow hafter)
  | claimWorkflow =>
    rw [exec] at h
    exact transact_respects (writes_claimRow hafter) h fun _ _ => rfl
  | activate =>
    obtain ⟨claim, -, h⟩ := nth_bind_ok h
    exact transact_respects writes_activate h fun _ _ => rfl
  | commit =>
    obtain ⟨claim, -, h⟩ := nth_bind_ok h
    exact transact'_respects (writes_commitOnConnection hmax hafter.1 hafter.2) h
  | failActivation =>
    obtain ⟨claim, -, h⟩ := nth_bind_ok h
    exact transact'_respects (writes_recordActivationFailure hmax hafter) h
  | seedLocks => exact transact'_respects writes_seedLocks h
  | claimActivity =>
    rw [exec] at h
    exact transact_respects (writes_claimOne hmax hafter) h fun _ _ => rfl
  | claimActivities =>
    rw [exec] at h
    exact transact_respects (writes_claimBatch hmax hafter) h fun _ _ => rfl
  | heartbeat =>
    obtain ⟨claim, -, h⟩ := nth_bind_ok h
    exact transact_respects writes_heartbeatOnce h fun _ _ => by split <;> rfl
  | finish =>
    obtain ⟨claim, -, h⟩ := nth_bind_ok h
    exact transact'_respects (writes_finishOnConnection hmax hafter) h
  | reportProgress =>
    obtain ⟨claim, -, h⟩ := nth_bind_ok h
    exact transact'_respects writes_report h
  | fireTimer => exact transact'_respects (writes_materializeTimer hafter) h
  | expireApproval => exact transact'_respects (writes_materializeApproval hafter) h
  | pause => exact transact'_respects writes_pauseWorkflow h
  | resume => exact transact'_respects (writes_resumeWorkflow hafter) h
  | cancelWorkflow => exact transact'_respects (writes_cancelWorkflow hafter) h
  | restart => exact transact'_respects (writes_restart hafter) h
  | retry => exact transact'_respects (writes_retry hafter) h
  | resolveApproval => exact transact'_respects (writes_resolveApproval hafter) h
  | recordScheduleRunNow =>
    exact transact'_respects (.bind writes_lockWorkflow fun _ => writes_appendHistoryEvent) h
  | writeScheduleRuns =>
    cases h
    exact .of_eq rfl rfl rfl

/-- Some time is before all times of an action. -/
theorem exists_after (action : Action) : ∃ t, t < DbMillis.max ∧ action.After t := by
  have hone : ∀ now : DbMillis, ∃ t, t < DbMillis.max ∧ t < now := by
    intro now
    exact ⟨min now DbMillis.max - 1, by omega, by omega⟩
  have htwo : ∀ now at' : DbMillis, ∃ t, t < DbMillis.max ∧ t < now ∧ t < at' := by
    intro now at'
    exact ⟨min (min now at') DbMillis.max - 1, by omega, by omega, by omega⟩
  cases action with
  | start _ _ now | startPrepared _ _ now | recoverableStart _ _ now => exact htwo now _
  | commit _ _ transition now =>
    cases transition with
    | sleepUntil _ wakeAt => exact htwo now wakeAt
    | runActivity _ activity =>
      obtain ⟨t, hmax, hnow, hready⟩ := htwo now continuationReadyAtMillis
      exact ⟨t, hmax, hnow, fun _ => hready⟩
    | «continue» | complete | waitForApproval | runChild =>
      obtain ⟨t, hmax, hnow⟩ := hone now
      exact ⟨t, hmax, hnow, trivial⟩
  | activate | writeScheduleRuns => exact ⟨DbMillis.max - 1, by omega, trivial⟩
  | _ => exact hone _

end Exec

end DurableWorkflows
