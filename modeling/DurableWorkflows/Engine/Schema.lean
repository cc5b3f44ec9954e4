import DurableWorkflows.Engine.Ancestry
import DurableWorkflows.Engine.EventLog
import DurableWorkflows.Engine.Progress
import DurableWorkflows.Engine.Replacements
import DurableWorkflows.Engine.Writes

/-!
# The constraints of the tables

The migrations give the tables checks, unique keys and foreign keys. The database would abort a
transaction that breaks one of them; no transaction ever comes to that, because the tables satisfy
every constraint in every reachable state. Rows are never deleted, and the columns that identify a
row are set once.

## Main definitions

- `UniqueRows`: a unique key of a table that is only appended to
- `DB.Constraints`: the constraints of the migration

## Main results

- `run_constraints`: they hold in every reachable state
- `run_fixed`: what stays of every row
-/

namespace DurableWorkflows

open Transaction Sys Pointers

variable {externals : Externals} {s s' : Sys} {db : DB} {t : DbMillis} {action : Action}

-- ════════════════════════════════════════════════════════════════════════
-- Unique keys of lists
-- ════════════════════════════════════════════════════════════════════════

section Rows

variable {α κ ι : Type} {column : α → Option κ} {rows : List α}

/-- `UNIQUE` in a table that is only appended to. -/
def UniqueRows (column : α → Option κ) (rows : List α) : Prop :=
  rows.Pairwise fun x y => ∀ k, column x = some k → column y ≠ some k

/-- A key whose first part sorts the rows into classes is unique if it is so in every class. -/
theorem UniqueRows.of_classes [BEq ι] [LawfulBEq ι] (cls : α → ι)
    (hcls : ∀ x y k, column x = some k → column y = some k → cls x = cls y)
    (h : ∀ i, UniqueRows column (rows.filter fun x => cls x == i)) : UniqueRows column rows := by
  induction rows with
  | nil => exact .nil
  | cons x rows ih =>
    refine List.pairwise_cons.mpr ⟨fun y hy k hx hk => ?_, ih fun i => ?_⟩
    · have hfirst := h (cls x)
      rw [List.filter_cons, if_pos (beq_self_eq_true _)] at hfirst
      refine (List.pairwise_cons.mp hfirst).1 y (List.mem_filter.mpr ⟨hy, ?_⟩) k hx hk
      exact beq_iff_eq.mpr (hcls y x k hk hx)
    · exact (h i).sublist ((List.sublist_cons_self x rows).filter _)

/-- Increasing numbers are a key. -/
theorem UniqueRows.of_nodup (number : α → Option ℕ) {f : ℕ → κ} (hf : Function.Injective f)
    (hcolumn : ∀ x, x ∈ rows → column x = (number x).map f)
    (h : (rows.filterMap number).Nodup) : UniqueRows column rows := by
  induction rows with
  | nil => exact .nil
  | cons x rows ih =>
    obtain ⟨hx, hrows⟩ := List.forall_mem_cons.mp hcolumn
    have hrest : (rows.filterMap number).Nodup := by
      rw [List.filterMap_cons] at h
      split at h
      · exact h
      · exact (List.nodup_cons.mp h).2
    refine List.pairwise_cons.mpr ⟨fun y hy k hxk hyk => ?_, ih hrows hrest⟩
    rw [hx] at hxk
    rw [hrows y hy] at hyk
    obtain ⟨n, hn, rfl⟩ := Option.map_eq_some_iff.mp hxk
    obtain ⟨m, hm, heq⟩ := Option.map_eq_some_iff.mp hyk
    obtain rfl := hf heq
    rw [List.filterMap_cons, hn] at h
    exact (List.nodup_cons.mp h).1 (List.mem_filterMap.mpr ⟨y, hy, hm⟩)

end Rows

-- ════════════════════════════════════════════════════════════════════════
-- Constraints
-- ════════════════════════════════════════════════════════════════════════

/-- `uq_durable_workflow_event_sequence`. -/
def WorkflowEventRow.sequenceColumns (e : WorkflowEventRow) : Option (WorkflowId × ℕ) :=
  some (e.workflowId, e.sequence)

/-- `uq_durable_workflow_event_delivery`. -/
def WorkflowEventRow.deliveryColumns (e : WorkflowEventRow) : Option (WorkflowId × ℕ) :=
  e.deliverySequence.map fun d => (e.workflowId, d)

/-- The primary key of `durable_progress_event`. -/
def ProgressEventRow.keyColumns (p : ProgressEventRow) : Option ((ActivityId × ℕ) × ℕ) :=
  some ((p.activityId, p.attemptNumber), p.sequence)

/-- The constraints of the migration on the tables of workflows. -/
structure DB.Constraints (db : DB) : Prop where
  keys : db.Keys
  workflowVersion : db.workflows.Checks fun r => 0 < r.version
  stateVersion : db.workflows.Checks fun r => 0 < r.stateVersion
  root : db.workflows.References (·.rootWorkflowId) db.workflows
  restart : db.workflows.References (·.restartedFromWorkflowId) db.workflows
  parent : db.workflows.References (·.parentWorkflowId) db.workflows
  eventSequence : UniqueRows WorkflowEventRow.sequenceColumns db.events
  eventDelivery : UniqueRows WorkflowEventRow.deliveryColumns db.events
  eventWorkflow : ∀ e ∈ db.events, ∃ r, db.workflows.find e.workflowId = some r
  activityVersion : db.activities.Checks fun act => 0 < act.version
  maxAttempts : db.activities.Checks fun act => 0 < act.maxAttempts
  activityWorkflow : db.activities.References (fun act => some act.workflowId) db.workflows
  activityRoot : db.activities.References (·.rootActivityId) db.activities
  replacement : db.activities.References (·.replacesActivityId) db.activities
  attemptNumber : ∀ a n attempt, db.attempts a n = some attempt → 0 < n
  attemptActivity : ∀ a n attempt, db.attempts a n = some attempt →
    ∃ act, db.activities.find a = some act
  progressKey : UniqueRows ProgressEventRow.keyColumns db.progress
  progressAttempt : ∀ p ∈ db.progress, ∃ attempt,
    db.attempts p.activityId p.attemptNumber = some attempt
  progressSequence : ∀ p ∈ db.progress, 0 < p.sequence ∧ p.sequence ≤ 100
  descriptionBytes : ∀ p ∈ db.progress, p.descriptionBytes ≤ 2048
  approvalVersion : db.approvals.Checks fun p => 0 < p.version
  validationVersion : db.approvals.Checks fun p => 0 < p.validationVersion
  approvalWorkflow : db.approvals.References (fun p => some p.workflowId) db.workflows

/-- The checks and unique keys of rows, which the statements keep. -/
structure DB.RowConstraints (db : DB) : Prop where
  keys : db.Keys
  workflows : db.workflows.Checks fun r => 0 < r.version ∧ 0 < r.stateVersion
  activities : db.activities.Checks fun act => 0 < act.version ∧ 0 < act.maxAttempts
  approvals : db.approvals.Checks fun p => 0 < p.version ∧ 0 < p.validationVersion

theorem DB.RowConstraints.empty : DB.empty.RowConstraints where
  keys := ⟨Table.unique_empty, Table.unique_empty, Table.unique_empty, Table.unique_empty⟩
  workflows := Table.checks_empty
  activities := Table.checks_empty
  approvals := Table.checks_empty

theorem WritesAfter.rowConstraints {db' : DB} (h : WritesAfter t db db') (hrows : db.RowConstraints) :
    db'.RowConstraints where
  keys := h.keys hrows.keys
  workflows := by
    refine h.workflows.checks (fun r r' hr hwrites => ⟨?_, hwrites.stateVersion hr.2⟩)
      (fun r hr => ⟨hr.version, hr.stateVersion⟩) hrows.workflows
    have hversion : r'.version = r.version :=
      congrArg Lineage.version (WorkflowRow.setOnce_eq hwrites.setOnce).2.1
    exact hversion ▸ hr.1
  activities := by
    refine h.activities.checks (fun act act' hact hwrites => ⟨?_, hwrites.maxAttempts hact.2⟩)
      (fun act hact => ⟨hact.version, hact.maxAttempts⟩) hrows.activities
    rw [(ActivityRow.setOnce_eq hwrites.setOnce).2.2.2.2.2.1]
    exact hact.1
  approvals := by
    refine h.approvals.checks (fun p p' hp hwrites => ⟨?_, ?_⟩)
      (fun p hp => ⟨hp.version, hp.validationVersion⟩) hrows.approvals
    · rw [(ApprovalRow.setOnce_eq hwrites).2.2.2.2.1]
      exact hp.1
    · rw [(ApprovalRow.setOnce_eq hwrites).2.2.2.2.2.1]
      exact hp.2

theorem run_rowConstraints (externals : Externals) (actions : List Action) :
    (run externals Sys.init actions).db.RowConstraints := by
  refine Machine.run_invariant (P := fun s : Sys => s.db.RowConstraints) ?_ .empty actions
  intro s action s' h hok
  obtain ⟨t, hmax, hafter⟩ := exists_after action
  exact (exec_writes hmax hafter hok).rowConstraints h

-- ════════════════════════════════════════════════════════════════════════
-- References
-- ════════════════════════════════════════════════════════════════════════

/-- The end of a walk over stored rows is stored. -/
theorem stored_of_endsAt {α : Type} [Keyed α] {rows : Table α} {up : ℕ → Option ℕ} {i j : ℕ}
    (h : EndsAt up i j) (hstored : ∀ i j, up i = some j → ∃ r, rows.find j = some r)
    (hi : ∃ r, rows.find i = some r) : ∃ r, rows.find j = some r := by
  obtain rfl | ⟨k, -, hk⟩ := reaches_iff_tail.mp h.1
  · exact hi
  · exact hstored k j hk

theorem DB.ReplacementChains.stored (h : db.ReplacementChains) (a b : ActivityId)
    (hb : db.replaces a = some b) : ∃ act, db.activities.find b = some act := by
  obtain ⟨act, ha, hreplaces⟩ := Option.bind_eq_some_iff.mp hb
  obtain ⟨⟨old, hold, -⟩, -⟩ := h.link a act b ha hreplaces
  exact ⟨old, hold⟩

/-- Event numbers of one workflow are not repeated. -/
theorem DB.EventLogs.unique (h : db.EventLogs) :
    UniqueRows WorkflowEventRow.sequenceColumns db.events ∧
      UniqueRows WorkflowEventRow.deliveryColumns db.events := by
  have hlog : ∀ w, ((db.eventsOf w).map (·.sequence)).Nodup ∧
      ((db.eventsOf w).filterMap (·.deliverySequence)).Nodup := by
    intro w
    have hw := h w
    split at hw
    · refine ⟨hw.sequences ▸ List.nodup_range', ?_⟩
      exact (congrArg List.Nodup hw.deliveries).mpr List.nodup_range'
    · rw [hw]
      exact ⟨.nil, .nil⟩
  have hworkflow : ∀ w, ∀ e ∈ db.eventsOf w, e.workflowId = w := fun w e he =>
    beq_iff_eq.mp (List.mem_filter.mp he).2
  constructor
  · refine .of_classes WorkflowEventRow.workflowId (fun x y k hx hy => ?_) fun w => ?_
    · obtain rfl := Option.some_inj.mp hx
      exact (congrArg Prod.fst (Option.some_inj.mp hy)).symm
    · refine UniqueRows.of_nodup (fun e => some e.sequence) (Prod.mk_right_injective w)
        (fun e he => ?_) ?_
      · rw [WorkflowEventRow.sequenceColumns, hworkflow w e he]
        rfl
      · have hnodup := (hlog w).1
        rwa [← List.filterMap_eq_map] at hnodup
  · refine .of_classes WorkflowEventRow.workflowId (fun x y k hx hy => ?_) fun w => ?_
    · obtain ⟨n, -, rfl⟩ := Option.map_eq_some_iff.mp hx
      obtain ⟨m, -, hm⟩ := Option.map_eq_some_iff.mp hy
      exact (congrArg Prod.fst hm).symm
    · refine UniqueRows.of_nodup (fun e => e.deliverySequence)
        (Prod.mk_right_injective w) (fun e he => ?_) (hlog w).2
      rw [WorkflowEventRow.deliveryColumns, hworkflow w e he]

/-- Progress numbers of one attempt are not repeated. -/
theorem DB.ProgressLedger.unique (h : db.ProgressLedger externals) :
    UniqueRows ProgressEventRow.keyColumns db.progress := by
  refine .of_classes (fun p => (p.activityId, p.attemptNumber)) (fun x y k hx hy => ?_) fun key => ?_
  · obtain rfl := Option.some_inj.mp hx
    exact (congrArg Prod.fst (Option.some_inj.mp hy)).symm
  · have hfilter : (db.progress.filter fun p => (p.activityId, p.attemptNumber) == key) =
        db.progressOf key.1 key.2 := by
      refine List.filter_congr fun p _ => ?_
      rw [Bool.eq_iff_iff, beq_iff_eq, Bool.and_eq_true, beq_iff_eq, beq_iff_eq, Prod.ext_iff]
    rw [hfilter]
    refine UniqueRows.of_nodup (fun p => some p.sequence) (Prod.mk_right_injective key)
      (fun p hp => ?_) ?_
    · have hkey := (List.mem_filter.mp hp).2
      rw [Bool.and_eq_true, beq_iff_eq, beq_iff_eq] at hkey
      rw [ProgressEventRow.keyColumns, hkey.1, hkey.2]
      rfl
    · have hnodup : ((db.progressOf key.1 key.2).map (·.sequence)).Nodup :=
        h.numbered key.1 key.2 ▸ List.nodup_range'
      rwa [← List.filterMap_eq_map] at hnodup

/-- The sequence of a report is within the limit. -/
theorem DB.ProgressLedger.sequence (h : db.ProgressLedger externals) {p : ProgressEventRow}
    (hp : p ∈ db.progress) : 0 < p.sequence ∧ p.sequence ≤ 100 := by
  have hmem : p ∈ db.progressOf p.activityId p.attemptNumber :=
    List.mem_filter.mpr ⟨hp, by simp⟩
  have hsequence := List.mem_map_of_mem (f := (·.sequence)) hmem
  rw [h.numbered, List.mem_range'_1] at hsequence
  have hbound := h.bounded p.activityId p.attemptNumber
  have hlimit : maxProgressEventsPerAttempt = 100 := rfl
  omega

-- ════════════════════════════════════════════════════════════════════════
-- Runs
-- ════════════════════════════════════════════════════════════════════════

/-- **The constraints of the migration** in every reachable state: all checks, unique keys and
foreign keys of the tables of workflows hold, and no action fails with a unique violation. -/
theorem run_constraints (externals : Externals) (actions : List Action) :
    let s := run externals Sys.init actions
    s.db.Constraints ∧ ∀ action key,
      exec externals s action ≠ .error (.database (.uniqueViolation key)) := by
  intro s
  have hinv : s.Inv := run_inv externals actions
  have hs := hinv.sound
  have hrows : s.db.RowConstraints := run_rowConstraints externals actions
  have hlineal : s.db.Lineal := run_lineal externals actions
  have hlogs : s.db.EventLogs := run_eventLogs externals actions
  have hchains : s.db.ReplacementChains := (run_replacements externals actions).1
  have hledger : s.db.ProgressLedger externals := (run_progress externals actions []).1
  have hattempt : ∀ a n attempt, s.db.attempts a n = some attempt →
      ∃ act, s.db.activities.find a = some act := by
    intro a n attempt hattempt
    cases hact : s.db.activities.find a with
    | none =>
      rw [hs.closed a n hact] at hattempt
      cases hattempt
    | some act => exact ⟨act, rfl⟩
  refine ⟨⟨hrows.keys, ?_, ?_, ?_, ?_, ?_, hlogs.unique.1, hlogs.unique.2, ?_, ?_, ?_, ?_, ?_, ?_, ?_,
    hattempt, hledger.unique, hledger.attempt, fun p => hledger.sequence, ?_, ?_, ?_, ?_⟩, ?_⟩
  · exact fun i r hr => (hrows.workflows i r hr).1
  · exact fun i r hr => (hrows.workflows i r hr).2
  · -- the root is where the walk to the ancestors ends
    intro w r p hr hp
    have hends := hlineal.rooted w r.lineage (lineage_of_find hr)
    change EndsAt _ w (r.rootWorkflowId.getD w) at hends
    rw [show r.rootWorkflowId = some p from hp, Option.getD_some] at hends
    exact stored_of_endsAt hends hlineal.stored ⟨r, hr⟩
  · intro w r p hr hp
    exact hlineal.stored w p (hlineal.ancestor_of_source ((source_of_find hr).trans hp))
  · intro w r p hr hp
    refine hlineal.stored w p ?_
    rw [ancestor_of_find hr, show r.parentWorkflowId = some p from hp]
    rfl
  · intro e he
    cases hr : s.db.workflows.find e.workflowId with
    | none =>
      have hnone := hlogs e.workflowId
      rw [hr] at hnone
      have hmem : e ∈ s.db.eventsOf e.workflowId := List.mem_filter.mpr ⟨he, beq_self_eq_true _⟩
      rw [hnone] at hmem
      cases hmem
    | some r => exact ⟨r, rfl⟩
  · exact fun i act hact => (hrows.activities i act hact).1
  · exact fun i act hact => (hrows.activities i act hact).2
  · intro a act w hact hw
    obtain rfl := Option.some_inj.mp hw
    exact hs.row_of_activity hact
  · intro a act root hact hroot
    cases hreplaces : act.replacesActivityId with
    | none =>
      have hfirst := (run_aggregate .empty (fun _ _ _ hg h => Step.replaced h hg) externals actions
        act.workflowId).first a act (activity_of_find hact) hreplaces
      exact absurd (hroot.symm.trans hfirst) (Option.some_ne_none root)
    | some b =>
      obtain ⟨-, root', hroot', hends⟩ := hchains.link a act b hact hreplaces
      obtain rfl := Option.some_inj.mp (hroot.symm.trans hroot')
      exact stored_of_endsAt hends hchains.stored ⟨act, hact⟩
  · intro a act b hact hreplaces
    obtain ⟨⟨old, hold, -⟩, -⟩ := hchains.link a act b hact hreplaces
    exact ⟨old, hold⟩
  · intro a n attempt h
    obtain ⟨act, hact⟩ := hattempt a n attempt h
    obtain ⟨r, hr⟩ := hs.row_of_activity hact
    have hledger := (hs.inv hr).ledger a act (activity_of_find hact)
    refine ((hledger.numbered n).mp ?_).1
    rw [aggregate_attempts (activity_of_find hact), h]
    rfl
  · intro p hp
    have hvalid := hledger.valid p hp
    rw [hvalid.descriptionBytes]
    exact hvalid.description
  · exact fun i p hp => (hrows.approvals i p hp).1
  · exact fun i p hp => (hrows.approvals i p hp).2
  · intro i p w hp hw
    obtain rfl := Option.some_inj.mp hw
    exact hs.row_of_approval hp
  · intro action key he
    cases exec_benign hinv he

/-- **Rows stay** in every run. Whatever happens after a state, every workflow, activity and
approval of the state is still there with the columns that were set when it was inserted, and the
log of every workflow begins with the events it had. -/
theorem run_fixed (externals : Externals) (before after : List Action) :
    let s := run externals Sys.init before
    let s' := run externals s after
    s.db.workflows.Preserves WorkflowRow.setOnce s'.db.workflows ∧
    s.db.activities.Preserves ActivityRow.setOnce s'.db.activities ∧
    s.db.approvals.Preserves ApprovalRow.setOnce s'.db.approvals ∧
    ∀ w, s.db.eventsOf w <+: s'.db.eventsOf w := by
  intro s s'
  have hinv : s.Inv := run_inv externals before
  have hrows : s.db.workflows.Preserves WorkflowRow.setOnce s'.db.workflows ∧
      s.db.activities.Preserves ActivityRow.setOnce s'.db.activities ∧
      s.db.approvals.Preserves ApprovalRow.setOnce s'.db.approvals := by
    refine Machine.run_related (P := fun _ => True) (R := fun s s' : Sys =>
      s.db.workflows.Preserves WorkflowRow.setOnce s'.db.workflows ∧
      s.db.activities.Preserves ActivityRow.setOnce s'.db.activities ∧
      s.db.approvals.Preserves ApprovalRow.setOnce s'.db.approvals) (fun _ _ _ _ _ => trivial)
      (fun s => ⟨.refl _ _, .refl _ _, .refl _ _⟩) (fun _ _ _ h h' => ?_)
      (fun s action s' _ hok => ?_) trivial after
    · exact ⟨h.1.trans h'.1, h.2.1.trans h'.2.1, h.2.2.trans h'.2.2⟩
    · obtain ⟨t, hmax, hafter⟩ := exists_after action
      have hwrites := exec_writes hmax hafter hok
      exact ⟨hwrites.workflows.preserves fun _ _ h => h.setOnce,
        hwrites.activities.preserves fun _ _ h => h.setOnce,
        hwrites.approvals.preserves fun _ _ h => h⟩
  exact ⟨hrows.1, hrows.2.1, hrows.2.2, (hinv.run_evolves externals after).events_extend⟩

end DurableWorkflows
