import DurableWorkflows.Engine.Reachable
import DurableWorkflows.Schedule.System

/-!
# What the transactions of schedules do

One specification for every statement and transaction of the schedule tables:
what it writes, and with which errors it can roll back.

## Main definitions

- `DurableError.isScheduleFault`: the errors of a tick that met a broken invariant
- `OccurrenceRow.slot`: the schedule and the occurrence of a run row
- `Recorded`, `Ticked`: the effects of one occurrence and of a tick

## Main results

- `wp_materializeDue`, `wp_reconcileState`, `wp_startRunNow`
-/

namespace DurableWorkflows

open Transaction

variable {α : Type} {library : CalendarLibrary} {s s' : ScheduleStore} {E : DurableError → Prop}
  {handler : ScheduleHandler} {run : ScheduleRunId} {key : String} {now : DbMillis}

/-- The errors with which a tick reports a broken invariant of the schedule
tables: a second row for an occurrence, a due time that is not the cursor's, and
a cursor that does not move. -/
def DurableError.isScheduleFault : DurableError → Bool
  | .database (.uniqueViolation .scheduleRunOccurrence) => true
  | .invalidState (.occurrencesDisagree _) => true
  | .invalidState (.cursorMustAdvance ..) => true
  | _ => false

theorem DurableError.not_fault_of_benign {e : DurableError} (h : Benign e) :
    e.isScheduleFault = false := by
  unfold DurableError.isScheduleFault
  split
  · cases h
  · cases h
  · cases h
  · rfl

/-- The error is the handler's own, or no schedule fault. -/
def Excused (handler : ScheduleHandler) (e : DurableError) : Prop :=
  (∃ run scheduledFor, handler run scheduledFor = .error e) ∨ e.isScheduleFault = false

/-- The store after a write of a state row. -/
def ScheduleStore.setState (s : ScheduleStore) (key : String) (row : ScheduleStateRow) :
    ScheduleStore :=
  { s with states := Function.update s.states key (some row) }

section Engine

@[simp]
theorem wp_onEngine {x : Tx α} {Q : α → ScheduleStore → Prop} :
    wp (onEngine x) Q E s ↔
      wp x (fun a db => Q a { s with sys := { s.sys with db } }) E s.sys.db := by
  unfold wp onEngine
  split <;> rename_i h <;> split at h <;> simp_all

variable {db : DB}

/-- One workflow is started under a run. -/
def Begins (run : ScheduleRunId) (t t' : Table WorkflowRow) : Prop :=
  ∃ row : WorkflowRow, row.scheduleRunId = some run ∧ row.status = .ready ∧
    t'.toList = t.toList ++ [row]

/-- The number of workflows. -/
def ScheduleStore.workflowCount (s : ScheduleStore) : ℕ := s.sys.db.workflows.toList.length

theorem Begins.count (h : Begins run s.sys.db.workflows s'.sys.db.workflows) :
    s'.workflowCount = s.workflowCount + 1 := by
  obtain ⟨row, -, -, hrows⟩ := h
  rw [ScheduleStore.workflowCount, ScheduleStore.workflowCount, hrows, List.length_append]
  rfl

/-- The insert of a row without a key and a restart source. -/
theorem wp_insertWorkflow_unkeyed {row : WorkflowRow} {Q : WorkflowInsert → DB → Prop}
    (hkey : row.deduplicationKey = none) (hsource : row.restartedFromWorkflowId = none)
    (hE : ¬ 0 < row.version → E (.database (.checkViolation .workflowVersion)))
    (h : ∀ db', db'.workflows = db.workflows.insert (fun id => { row with id }) →
      Touches db db.workflows.next (fun g => g.setRow { row with id := db.workflows.next }) db' →
      Q (.inserted db.workflows.next) db') : wp (insertWorkflow row) Q E db := by
  -- without a key and a source there is no row to conflict with
  have hkeyed : db.workflows.select (fun r =>
      r.kind == row.kind && r.deduplicationKey.isSome &&
        r.deduplicationKey == row.deduplicationKey) = [] := by
    rw [hkey, Table.select_eq_filter, List.filter_eq_nil_iff]
    intro r _
    cases r.deduplicationKey <;> simp
  have hsuccessors : db.workflows.select (fun r =>
      r.restartedFromWorkflowId.isSome &&
        r.restartedFromWorkflowId == row.restartedFromWorkflowId) = [] := by
    rw [hsource, Table.select_eq_filter, List.filter_eq_nil_iff]
    intro r _
    cases r.restartedFromWorkflowId <;> simp
  unfold insertWorkflow
  simp only [wp_bind, wp_ensure, wp_selectRows, workflowTable_get, hkeyed, hsuccessors,
    List.isEmpty_nil, if_true, wp_insertRow, wp_pure]
  exact ⟨fun _ => ⟨fun _ => h _ rfl (touches_insertRow_workflow fun id => { row with id }),
    fun hfalse => absurd trivial hfalse⟩, hE⟩

/-- The start of a workflow without a key inserts it. -/
theorem wp_start_unkeyed {workflow : PreparedWorkflowStart} {availableAt : Option DbMillis}
    {Q : StartOutcome → DB → Prop} (hE : ∀ e, e.isScheduleFault = false → E e)
    (h : ∀ outcome db', Begins run db.workflows db'.workflows → Q outcome db') :
    wp (start workflow ⟨availableAt, some run, none⟩ now) Q E db := by
  rw [start, wp_bind, wp_ofExcept]
  refine ⟨fun _ _ => ?_, fun e he =>
    hE e (DurableError.not_fault_of_benign (benignErrors_prepareStart e he))⟩
  rw [insertPrepared, wp_bind]
  refine wp_imp (Q := fun found db' => found = none ∧ db' = db) ⟨rfl, rfl⟩ ?_
  rintro found db₁ ⟨rfl, hdb₁⟩
  subst db₁
  simp only [insertStarted, wp_bind]
  refine wp_insertWorkflow_unkeyed rfl rfl (fun _ => hE _ rfl) fun db' hdb' _ => ?_
  have hbegins : Begins run db.workflows db'.workflows := by
    rw [hdb']
    exact ⟨_, rfl, rfl, Table.toList_insert⟩
  simp only [appendEvent, wp_bind, wp_read, wp_ensure, wp_modify, wp_pure]
  exact ⟨fun _ => ⟨fun _ => h _ _ hbegins, fun _ => hE _ rfl⟩, fun _ => hE _ rfl⟩

end Engine

section Runs

/-- The schedule and the occurrence of a run row. -/
def OccurrenceRow.slot (r : OccurrenceRow) : String × OccurrenceKey :=
  (r.scheduleKey, r.localOccurrence)

/-- The schedules and occurrences that have a run row. -/
def ScheduleStore.slots (s : ScheduleStore) : List (String × OccurrenceKey) :=
  s.runs.toList.map OccurrenceRow.slot

theorem ScheduleStore.slots_append {rows : List OccurrenceRow}
    (h : s'.runs.toList = s.runs.toList ++ rows) :
    s'.slots = s.slots ++ rows.map OccurrenceRow.slot := by
  rw [slots, h, List.map_append]
  rfl

@[simp]
theorem occurrenceTable_get : occurrenceTable.get s = s.runs := rfl

/-- A handler's start. -/
theorem wp_startOccurrence {scheduledFor : DbMillis} {Q : WorkflowId → ScheduleStore → Prop}
    (hE : ∀ e, Excused handler e → E e)
    (h : ∀ w s', s'.states = s.states → s'.runs = s.runs →
      Begins run s.sys.db.workflows s'.sys.db.workflows → Q w s') :
    wp (startOccurrence handler run scheduledFor) Q E s := by
  rw [startOccurrence, wp_bind, wp_ofExcept]
  refine ⟨fun started _ => ?_, fun e he => hE e (.inl ⟨run, scheduledFor, he⟩)⟩
  rw [wp_bind, wp_onEngine]
  exact wp_start_unkeyed (fun e he => hE e (.inr he)) fun outcome db' hbegins =>
    h _ _ rfl rfl hbegins

/-- The insert of a run row fails only on an occurrence that has one. -/
theorem wp_insertScheduleRun {row : OccurrenceRow} {Q : ScheduleRunId → ScheduleStore → Prop}
    (hE : row.slot ∈ s.slots → E (.database (.uniqueViolation .scheduleRunOccurrence)))
    (h : ∀ s', row.slot ∉ s.slots → s'.states = s.states →
      s'.sys.db.workflows = s.sys.db.workflows →
      s'.runs = s.runs.insert (fun id => { row with id }) → Q s.runs.next s') :
    wp (insertScheduleRun row) Q E s := by
  have hslot : ∀ r : OccurrenceRow, (r.scheduleKey == row.scheduleKey &&
      r.localOccurrence == row.localOccurrence) = true ↔ r.slot = row.slot := by
    intro r
    rw [Bool.and_eq_true, beq_iff_eq, beq_iff_eq]
    exact Prod.mk_inj.symm
  have hnone : (s.runs.select fun r => r.scheduleKey == row.scheduleKey &&
      r.localOccurrence == row.localOccurrence).isEmpty = true ↔ row.slot ∉ s.slots := by
    rw [List.isEmpty_iff, Table.select_eq_filter, List.filter_eq_nil_iff, ScheduleStore.slots]
    simp only [hslot, List.mem_map, not_exists, not_and]
  simp only [insertScheduleRun, wp_bind, wp_selectRows, occurrenceTable_get, wp_ensure,
    wp_onEngine, wp_insertRow, hnone, not_not]
  exact ⟨fun hfresh => h _ hfresh rfl rfl rfl, hE⟩

/-- The row of a run whose workflow was started. -/
def OccurrenceRow.begun (r : OccurrenceRow) (reason : Option String) : OccurrenceRow :=
  { r with status := .started, reason := if reason.isSome then reason else r.reason }

theorem OccurrenceRow.key_begun (r : OccurrenceRow) (reason : Option String) :
    Keyed.key (r.begun reason) = Keyed.key r := rfl

/-- The update of a run whose workflow was started. -/
theorem wp_markStarted {expected : ScheduleRunStatus} {reason : Option String} {w : WorkflowId}
    {Q : Unit → ScheduleStore → Prop} (hE : E .fencedWrite)
    (h : ∀ s', s'.states = s.states → s'.sys.db.workflows = s.sys.db.workflows →
      s'.runs.toList = s.runs.toList.map (fun r => if r.id = run then r.begun reason else r) →
      Q () s') :
    wp (markStarted run expected reason w) Q E s := by
  rw [markStarted, wp_bind, wp_updateRow]
  refine ⟨fun r hr _ => ?_, fun _ => ?_⟩
  · have hrows : ∀ s' : ScheduleStore, s'.states = s.states →
        s'.sys.db.workflows = s.sys.db.workflows →
        s'.runs = s.runs.modify run (·.begun reason) (fun r => r.key_begun reason) → Q () s' := by
      intro s' hstates hworkflows hruns
      exact h s' hstates hworkflows (by rw [hruns, Table.toList_modify]; rfl)
    simp only [wp_bind, wp_ensure, wp_onEngine]
    refine ⟨fun _ => ?_, fun hfalse => absurd trivial hfalse⟩
    rw [wp_updateRow]
    exact ⟨fun _ _ _ => hrows _ rfl rfl rfl, fun _ => hrows _ rfl rfl rfl⟩
  · simp only [wp_bind, wp_ensure]
    exact ⟨fun hone => absurd hone Nat.zero_ne_one, fun _ => hE⟩

/-- A run row that was just inserted and started. -/
theorem toList_insert_begun {t : Table OccurrenceRow} {row : OccurrenceRow}
    {reason : Option String} :
    (t.insert fun id => { row with id }).toList.map
        (fun r => if r.id = t.next then r.begun reason else r) =
      t.toList ++ [{ row with id := t.next }.begun reason] := by
  rw [Table.toList_insert, List.map_append, List.map_singleton, if_pos rfl]
  congr 1
  refine (List.map_congr_left fun r hr => ?_).trans (List.map_id' _)
  exact if_neg (Table.lt_next_of_find (Table.mem_toList.mp hr)).ne

end Runs

section Occurrences

variable {overlap : OverlapPolicy} {p p' : Progress} {o : ScheduleOccurrence}
  {outcome : OccurrenceOutcome}

/-- What the row of a due occurrence does to the counters of its tick and to the
workflows. -/
inductive Accounts (overlap : OverlapPolicy) (row : OccurrenceRow) (p p' : Progress)
    (t t' : Table WorkflowRow) : Prop
  | started (status : row.status = .started) (free : overlap = .allow ∨ p.active = 0)
      (active : p'.active = p.active + 1) (queued : p'.queued = p.queued)
      (begins : Begins row.id t t')
  | queued (status : row.status = .queued) (policy : overlap = .queueOne)
      (room : p.queued = false) (active : p'.active = p.active) (queued : p'.queued = true)
      (workflows : t' = t)
  | passed (status : row.status = .skipped ∨ row.status = .coalesced)
      (active : p'.active = p.active) (queued : p'.queued = p.queued) (workflows : t' = t)

/-- What one due occurrence of a schedule adds to the run rows. -/
structure Recorded (key : String) (overlap : OverlapPolicy) (o : LocalOccurrence)
    (p p' : Progress) (s s' : ScheduleStore) (row : OccurrenceRow) : Prop where
  slot : row.slot = (key, .local o)
  fresh : row.slot ∉ s.slots
  runs : s'.runs.toList = s.runs.toList ++ [row]
  states : s'.states = s.states
  inspected : p'.report.inspected = p.report.inspected
  accounts : Accounts overlap row p p' s.sys.db.workflows s'.sys.db.workflows

/-- An occurrence is queued only if one is active and none is queued. -/
theorem overlapOutcome_eq_none
    (h : overlapOutcome overlap p.active p.queued outcome = none) :
    overlap = .queueOne ∧ p.queued = false := by
  unfold overlapOutcome at h
  split at h
  · cases h
  · split at h
    · split at h
      · cases h
      · rename_i hqueued
        exact ⟨rfl, Bool.not_eq_true _ ▸ hqueued⟩
    · cases h
  · cases h

/-- An occurrence is started only if the policy allows overlaps or none is active. -/
theorem overlapOutcome_eq_start
    (h : overlapOutcome overlap p.active p.queued outcome = some .start) :
    overlap = .allow ∨ p.active = 0 := by
  cases overlap with
  | allow => exact .inl rfl
  | skipIfActive | queueOne =>
    right
    by_contra hactive
    cases outcome <;> simp [overlapOutcome, Nat.pos_of_ne_zero hactive] at h

/-- The row of an occurrence that starts nothing. -/
theorem wp_insert_passed {row : OccurrenceRow} {Q : Progress → ScheduleStore → Prop}
    (h : ∀ s' row', Recorded key overlap o.localOccurrence p p' s s' row' → Q p' s')
    (hE : row.slot ∈ s.slots → E (.database (.uniqueViolation .scheduleRunOccurrence)))
    (hslot : row.slot = (key, .local o.localOccurrence))
    (hinspected : p'.report.inspected = p.report.inspected)
    (haccounts : ∀ id t, Accounts overlap { row with id } p p' t t) :
    wp (insertScheduleRun row) (fun _ s' => Q p' s') E s := by
  refine wp_insertScheduleRun hE fun s' hfresh hstates hworkflows hruns =>
    h s' { row with id := s.runs.next } ?_
  exact ⟨hslot, hfresh, by rw [hruns, Table.toList_insert], hstates, hinspected,
    hworkflows ▸ haccounts _ _⟩

/-- **One occurrence** of a tick. -/
theorem wp_materializeOccurrence {Q : Progress → ScheduleStore → Prop}
    (hE : ∀ e, Excused handler e → E e)
    (hfresh : (key, .local o.localOccurrence) ∉ s.slots)
    (h : ∀ p' s' row, Recorded key overlap o.localOccurrence p p' s s' row → Q p' s') :
    wp (materializeOccurrence key overlap handler now p o outcome) Q E s := by
  have hunused : ∀ row : OccurrenceRow, row.slot = (key, .local o.localOccurrence) →
      row.slot ∈ s.slots → E (.database (.uniqueViolation .scheduleRunOccurrence)) := by
    intro row hrow hused
    exact absurd (hrow ▸ hused) hfresh
  unfold materializeOccurrence
  split
  · rename_i hoverlap
    obtain ⟨hpolicy, hroom⟩ := overlapOutcome_eq_none hoverlap
    rw [wp_bind]
    exact wp_insert_passed (h _) (hunused _ rfl) rfl rfl
      fun _ _ => .queued rfl hpolicy hroom rfl rfl rfl
  · rename_i hoverlap
    rw [wp_bind]
    refine wp_insertScheduleRun (hunused _ rfl) fun s₁ hnew hstates₁ hworkflows₁ hruns₁ => ?_
    rw [wp_bind]
    refine wp_startOccurrence hE fun w s₂ hstates₂ hruns₂ hbegins => ?_
    rw [wp_bind]
    refine wp_markStarted (hE _ (.inr rfl)) fun s₃ hstates₃ hworkflows₃ hruns₃ => ?_
    refine h _ s₃ ({ dueRow key o .materializing none now with id := s.runs.next }.begun none) ?_
    refine ⟨rfl, hnew, ?_, by rw [hstates₃, hstates₂, hstates₁], rfl, ?_⟩
    · rw [hruns₃, hruns₂, hruns₁]
      exact toList_insert_begun
    · refine .started rfl (overlapOutcome_eq_start hoverlap) rfl rfl ?_
      rw [hworkflows₃, ← hworkflows₁]
      exact hbegins
  · rw [wp_bind]
    exact wp_insert_passed (h _) (hunused _ rfl) rfl rfl fun _ _ => .passed (.inl rfl) rfl rfl rfl
  · rw [wp_bind]
    exact wp_insert_passed (h _) (hunused _ rfl) rfl rfl fun _ _ => .passed (.inr rfl) rfl rfl rfl

end Occurrences

section Batches

variable {overlap : OverlapPolicy} {p p' p'' : Progress} {s'' : ScheduleStore}
  {due : List LocalOccurrence} {o : LocalOccurrence} {new rows : List OccurrenceRow}
  {row : OccurrenceRow}

/-- The number of runs of a list that are started. -/
def startedCount (rows : List OccurrenceRow) : ℕ := rows.countP (·.status == .started)

/-- The number of runs of a list that are queued. -/
def queuedCount (rows : List OccurrenceRow) : ℕ := rows.countP (·.status == .queued)

/-- What the due occurrences of a tick add to the run rows: one row for each, of
which at most one is started if the policy does not allow overlaps, and at most one
is queued. -/
structure Batch (key : String) (overlap : OverlapPolicy) (due : List LocalOccurrence)
    (p p' : Progress) (s s' : ScheduleStore) (new : List OccurrenceRow) : Prop where
  slots : new.map OccurrenceRow.slot = due.map fun o => (key, .local o)
  unique : s.slots.Nodup → s'.slots.Nodup
  runs : s'.runs.toList = s.runs.toList ++ new
  states : s'.states = s.states
  inspected : p'.report.inspected = p.report.inspected
  workflows : s'.workflowCount = s.workflowCount + startedCount new
  active : p'.active = p.active + startedCount new
  free : overlap ≠ .allow → 0 < startedCount new → p.active = 0 ∧ startedCount new = 1
  queue : p'.queued = true ↔ p.queued = true ∨ 0 < queuedCount new
  room : 0 < queuedCount new → p.queued = false ∧ queuedCount new = 1
  policy : overlap ≠ .queueOne → queuedCount new = 0

theorem Batch.nil : Batch key overlap [] p p s s [] where
  slots := rfl
  unique := id
  runs := (List.append_nil _).symm
  states := rfl
  inspected := rfl
  workflows := rfl
  active := rfl
  free _ h := absurd h (lt_irrefl 0)
  queue := by simp [queuedCount]
  room h := absurd h (lt_irrefl 0)
  policy _ := rfl

/-- The next occurrence of a batch. -/
theorem Batch.snoc (h : Batch key overlap due p p' s s' new)
    (hrow : Recorded key overlap o p' p'' s' s'' row) :
    Batch key overlap (due ++ [o]) p p'' s s'' (new ++ [row]) := by
  obtain ⟨hslot, hfresh, hruns, hstates, hinspected, haccounts⟩ := hrow
  have hslots : (new ++ [row]).map OccurrenceRow.slot = (due ++ [o]).map fun o => (key, .local o) := by
    rw [List.map_append, List.map_append, h.slots, List.map_singleton, List.map_singleton, hslot]
  have hunique : s.slots.Nodup → s''.slots.Nodup := by
    intro hs
    rw [ScheduleStore.slots_append hruns, List.map_singleton, ← List.concat_eq_append]
    exact (h.unique hs).concat hfresh
  have happend : s''.runs.toList = s.runs.toList ++ (new ++ [row]) := by
    rw [hruns, h.runs, List.append_assoc]
  have hworkflows := h.workflows
  have hactive := h.active
  have hqueue := h.queue
  cases haccounts with
  | started status free active queued begins =>
    have hstarted : startedCount (new ++ [row]) = startedCount new + 1 := by
      simp [startedCount, status]
    have hqueued : queuedCount (new ++ [row]) = queuedCount new := by
      simp [queuedCount, status]
    refine ⟨hslots, hunique, happend, hstates.trans h.states, hinspected.trans h.inspected, ?_, ?_,
      ?_, ?_, ?_, ?_⟩
    · rw [begins.count, hworkflows, hstarted, Nat.add_assoc]
    · rw [active, hactive, hstarted, Nat.add_assoc]
    · intro hallow _
      have hzero := free.resolve_left hallow
      omega
    · rw [queued, hqueue, hqueued]
    · rw [hqueued]
      exact h.room
    · rw [hqueued]
      exact h.policy
  | queued status policy room active queued workflows =>
    have hstarted : startedCount (new ++ [row]) = startedCount new := by
      simp [startedCount, status]
    have hqueued : queuedCount (new ++ [row]) = queuedCount new + 1 := by
      simp [queuedCount, status]
    have hempty : p.queued = false ∧ queuedCount new = 0 := by
      rw [← Bool.not_eq_true, hqueue, not_or] at room
      exact ⟨Bool.not_eq_true _ ▸ room.1, Nat.eq_zero_of_not_pos room.2⟩
    refine ⟨hslots, hunique, happend, hstates.trans h.states, hinspected.trans h.inspected, ?_, ?_,
      ?_, ?_, ?_, ?_⟩
    · rw [ScheduleStore.workflowCount, workflows, hstarted]
      exact hworkflows
    · rw [active, hactive, hstarted]
    · rw [hstarted]
      exact h.free
    · rw [queued, hqueued]
      exact iff_of_true rfl (.inr (Nat.succ_pos _))
    · rw [hqueued, hempty.2]
      exact fun _ => ⟨hempty.1, rfl⟩
    · exact fun hpolicy => absurd policy hpolicy
  | passed status active queued workflows =>
    have hstarted : startedCount (new ++ [row]) = startedCount new := by
      rcases status with hstatus | hstatus <;> simp [startedCount, hstatus]
    have hqueued : queuedCount (new ++ [row]) = queuedCount new := by
      rcases status with hstatus | hstatus <;> simp [queuedCount, hstatus]
    refine ⟨hslots, hunique, happend, hstates.trans h.states, hinspected.trans h.inspected, ?_, ?_,
      ?_, ?_, ?_, ?_⟩
    · rw [ScheduleStore.workflowCount, workflows, hstarted]
      exact hworkflows
    · rw [active, hactive, hstarted]
    · rw [hstarted]
      exact h.free
    · rw [queued, hqueue, hqueued]
    · rw [hqueued]
      exact h.room
    · rw [hqueued]
      exact h.policy

/-- **The due occurrences** of a tick. -/
theorem wp_materializeAll {due : List (ScheduleOccurrence × OccurrenceOutcome)}
    (hE : ∀ e, Excused handler e → E e)
    (hdue : due.Pairwise fun x y => x.1.localOccurrence < y.1.localOccurrence)
    (hfresh : ∀ x ∈ due, (key, .local x.1.localOccurrence) ∉ s.slots) :
    wp (materializeAll key overlap handler now p due) (fun p' s' => ∃ new,
      Batch key overlap (due.map (·.1.localOccurrence)) p p' s s' new) E s := by
  refine wp_foldEach (fun (pre : List (ScheduleOccurrence × OccurrenceOutcome)) p' s' => ∃ new,
    Batch key overlap (pre.map (·.1.localOccurrence)) p p' s s' new) ?_ ⟨[], .nil⟩
  rintro pre ⟨o, outcome⟩ post rfl p' s' ⟨new, hbatch⟩
  have hunused : (key, .local o.localOccurrence) ∉ s'.slots := by
    rw [ScheduleStore.slots_append hbatch.runs, hbatch.slots, List.map_map, List.mem_append, not_or]
    refine ⟨hfresh _ (List.mem_append_right _ List.mem_cons_self), fun hmem => ?_⟩
    -- the occurrences before this one have earlier keys
    obtain ⟨x, hx, hslot⟩ := List.mem_map.mp hmem
    have hlt := (List.pairwise_append.mp hdue).2.2 x hx (o, outcome) List.mem_cons_self
    exact hlt.ne (OccurrenceKey.local.inj (Prod.mk_inj.mp hslot).2)
  refine wp_materializeOccurrence hE hunused fun p'' s'' row hrow => ⟨new ++ [row], ?_⟩
  rw [List.map_append]
  exact hbatch.snoc hrow

end Batches

section Ticks

variable {overlap : OverlapPolicy} {active : ℕ} {p : Progress}

/-- The promotion at the start of a tick: the queued run of an idle schedule is
started, or nothing is written. -/
inductive Promotes (overlap : OverlapPolicy) (key : String) (active : ℕ) (p : Progress)
    (s s' : ScheduleStore) : Prop
  | kept (idle : ¬(overlap = .queueOne ∧ active = 0 ∧ s.queued key ≠ [])) (store : s' = s)
      (counted : p.active = active) (queued : p.queued = true ↔ s.queued key ≠ [])
  | promoted (r : OccurrenceRow) (mem : r ∈ s.queued key) (policy : overlap = .queueOne)
      (idle : active = 0)
      (runs : s'.runs.toList = s.runs.toList.map
        (fun x => if x.id = r.id then x.begun (some "queue_one_promoted") else x))
      (states : s'.states = s.states)
      (begins : Begins r.id s.sys.db.workflows s'.sys.db.workflows)
      (counted : p.active = 1) (queued : p.queued = false)

theorem wp_promoteIfIdle {Q : Progress → ScheduleStore → Prop} (hE : ∀ e, Excused handler e → E e)
    (h : ∀ p s', Promotes overlap key active p s s' → Q p s') :
    wp (promoteIfIdle overlap key handler active) Q E s := by
  have hqueued : (!(s.queued key).isEmpty) = true ↔ s.queued key ≠ [] := by
    simp
  simp only [promoteIfIdle, queuedRunExists, wp_bind, wp_read, wp_pure, wp_ite, hqueued]
  refine ⟨fun hpromotes => ?_, fun hnot => h _ s (.kept hnot rfl rfl hqueued)⟩
  obtain ⟨hpolicy, hidle, -⟩ := hpromotes
  simp only [promoteQueued, wp_bind, wp_read, wp_orAbort]
  refine ⟨fun r hr => ?_, fun _ => hE _ (.inr rfl)⟩
  have hmem : r ∈ s.queued key := mem_orderBy.mp (List.mem_of_mem_head? hr)
  refine wp_startOccurrence hE fun w s₁ hstates₁ hruns₁ hbegins => ?_
  refine wp_markStarted (hE _ (.inr rfl)) fun s₂ hstates₂ hworkflows₂ hruns₂ => ?_
  refine h _ s₂ (.promoted r hmem hpolicy hidle ?_ ?_ ?_ rfl rfl)
  · rw [hruns₂, hruns₁]
  · rw [hstates₂, hstates₁]
  · rw [hworkflows₂]
    exact hbegins

section Plans

variable {calendar : ScheduleCalendar} {o next : ScheduleOccurrence} {e : DurableError}
  {due : List ScheduleOccurrence} {outcomes : List OccurrenceOutcome} {t : NaiveDateTime}

theorem isScheduleFault_of_nextAfterLocal (h : calendar.nextAfterLocal t = .error e) :
    e.isScheduleFault = false := by
  unfold ScheduleCalendar.nextAfterLocal ScheduleCalendar.resolve at h
  split at h
  · split at h
    · cases h
    · cases h
    · split at h <;> cases h
      rfl
  · cases h
    rfl

theorem isScheduleFault_of_nextRunnableLoop {through : DbMillis} {fuel : ℕ}
    (h : calendar.nextRunnableLoop through fuel o = .error e) : e.isScheduleFault = false := by
  induction fuel generalizing o with
  | zero =>
    cases h
    rfl
  | succ fuel ih =>
    rw [ScheduleCalendar.nextRunnableLoop] at h
    split at h
    · split at h
      · cases h
      rcases bind_eq_error h with hbefore | ⟨before, hbefore, h⟩
      · unfold ScheduleCalendar.beforeGapEnd at hbefore
        split at hbefore
        · cases hbefore
          rfl
        · split at hbefore <;> cases hbefore
          rfl
      · rcases bind_eq_error h with hnext | ⟨next, -, hloop⟩
        · exact isScheduleFault_of_nextAfterLocal hnext
        · exact ih hloop
    · cases h

theorem isScheduleFault_of_countFollowing {budget : ℕ}
    (h : countFollowing calendar now budget t = .error e) : e.isScheduleFault = false := by
  induction budget generalizing t with
  | zero => cases h
  | succ budget ih =>
    rw [countFollowing] at h
    rcases bind_eq_error h with hrunnable | ⟨next, -, h⟩
    · rcases bind_eq_error hrunnable with hnext | ⟨first, -, hloop⟩
      · exact isScheduleFault_of_nextAfterLocal hnext
      · exact isScheduleFault_of_nextRunnableLoop hloop
    · cases next with
      | none => cases h
      | some next =>
        rcases bind_eq_error h with hcount | ⟨n, -, h⟩
        · exact ih hcount
        · cases h

theorem isScheduleFault_of_collectDue {room : ℕ}
    (h : collectDue calendar now room o = .error e) : e.isScheduleFault = false := by
  induction room generalizing o with
  | zero => cases h
  | succ room ih =>
    rw [collectDue] at h
    split at h
    · rcases bind_eq_error h with hnext | ⟨next, -, h⟩
      · exact isScheduleFault_of_nextAfterLocal hnext
      · rcases bind_eq_error h with hrest | ⟨rest, -, h⟩
        · exact ih hrest
        · cases h
    · cases h

/-- The due occurrences of a chunk are a walk; a chunk that is not full ends at an
occurrence that is not due. -/
theorem collectDue_walk {room : ℕ} (h : collectDue calendar now room o = .ok (due, next)) :
    calendar.Walk o due next ∧ (∀ x ∈ due, x.dueAt ≤ now) ∧ due.length ≤ room ∧
      (due.length < room → now < next.dueAt) := by
  induction room generalizing o due with
  | zero =>
    cases h
    exact ⟨.nil _, fun _ hx => absurd hx List.not_mem_nil, le_rfl, fun h => absurd h (lt_irrefl 0)⟩
  | succ room ih =>
    rw [collectDue] at h
    split at h
    · rename_i hdue
      obtain ⟨o', hnext, h⟩ := bind_eq_ok h
      obtain ⟨⟨rest, last⟩, hrest, h⟩ := bind_eq_ok h
      cases h
      obtain ⟨hwalk, hpast, hlength, hlast⟩ := ih hrest
      refine ⟨.cons hnext hwalk, List.forall_mem_cons.mpr ⟨hdue, hpast⟩, Nat.succ_le_succ hlength, ?_⟩
      exact fun hlt => hlast (Nat.lt_of_succ_lt_succ hlt)
    · rename_i hlater
      cases h
      exact ⟨.nil _, fun _ hx => absurd hx List.not_mem_nil, Nat.zero_le _, fun _ => not_le.mp hlater⟩

theorem length_spreadOutcomes : (spreadOutcomes due outcomes).length = due.length := by
  induction due generalizing outcomes with
  | nil => rfl
  | cons o due ih =>
    rw [spreadOutcomes]
    split
    · exact congrArg (· + 1) ih
    · exact congrArg (· + 1) ih

theorem planChunk_ok {policy : MisfirePolicy} {grace : ℤ} {bound : ℕ}
    (h : planChunk calendar bound o policy grace now = .ok (due, next, outcomes)) :
    collectDue calendar now bound o = .ok (due, next) ∧ outcomes.length = due.length := by
  obtain ⟨⟨due', next'⟩, hcollect, h⟩ := bind_eq_ok h
  dsimp only at h
  split at h
  · split at h
    · obtain ⟨following, -, h⟩ := bind_eq_ok h
      cases h
      exact ⟨hcollect, length_spreadOutcomes⟩
    · cases h
      exact ⟨hcollect, length_spreadOutcomes⟩
  · cases h
    exact ⟨hcollect, length_spreadOutcomes⟩

theorem isScheduleFault_of_planChunk {policy : MisfirePolicy} {grace : ℤ} {bound : ℕ}
    (h : planChunk calendar bound o policy grace now = .error e) : e.isScheduleFault = false := by
  rcases bind_eq_error h with hcollect | ⟨⟨due, next⟩, -, h⟩
  · exact isScheduleFault_of_collectDue hcollect
  · dsimp only at h
    split at h
    · split at h
      · rcases bind_eq_error h with hfollowing | ⟨following, -, h⟩
        · exact isScheduleFault_of_countFollowing hfollowing
        · cases h
      · cases h
    · cases h

end Plans

variable {definition : RegisteredSchedule library} {state : ScheduleStateRow} {report : Report}

/-- The state row of a schedule after a tick that recorded the occurrences up to
`next`. -/
def ScheduleStateRow.movedTo (state : ScheduleStateRow) (next : ScheduleOccurrence)
    (now : DbMillis) : ScheduleStateRow :=
  { state with
    nextLocalOccurrence := next.localOccurrence
    nextOccurrenceAt := next.dueAt
    lastMaterializedAt := some now
    updatedAt := now }

/-- The cursor write of a tick: none if nothing was due. -/
inductive CursorMoves (schedule : DurableSchedule) (state : ScheduleStateRow)
    (due : List ScheduleOccurrence) (next : ScheduleOccurrence) (now : DbMillis)
    (s s' : ScheduleStore) : Prop
  | stays (nothing : due = []) (store : s' = s)
  | moves (recorded : due ≠ []) (matched : state.matches schedule)
      (later : state.nextLocalOccurrence < next.localOccurrence)
      (store : s' = s.setState state.scheduleKey (state.movedTo next now))

/-- What a tick that returned has done. -/
inductive Ticked (definition : RegisteredSchedule library) (active : ℕ) (now : DbMillis)
    (report : Report) (s s' : ScheduleStore) : Prop
  | intro (state : ScheduleStateRow) (o next : ScheduleOccurrence)
      (due : List ScheduleOccurrence) (new : List OccurrenceRow) (p p' : Progress)
      (s₁ s₂ : ScheduleStore)
      (locked : s.states definition.metadata.key = some state)
      (promotes : Promotes definition.metadata.overlap definition.metadata.key active p s s₁)
      (first : definition.calendar.resolve state.nextLocalOccurrence.datetime = .ok o)
      (cursor : o.localOccurrence = state.nextLocalOccurrence)
      (planned : collectDue definition.calendar now maxDueOccurrencesPerTick o = .ok (due, next))
      (batch : Batch definition.metadata.key definition.metadata.overlap
        (due.map (·.localOccurrence)) p p' s₁ s₂ new)
      (inspected : report.inspected = due.length)
      (moves : CursorMoves definition.metadata state due next now s₂ s')

theorem Promotes.states (h : Promotes overlap key active p s s') : s'.states = s.states := by
  cases h with
  | kept _ store => rw [store]
  | promoted _ _ _ _ _ states => exact states

/-- A promotion adds no row and keeps what each is for. -/
theorem Promotes.slots (h : Promotes overlap key active p s s') :
    s'.slots = s.slots := by
  cases h with
  | kept _ store => rw [store]
  | promoted r _ _ _ runs =>
    rw [ScheduleStore.slots, ScheduleStore.slots, runs, List.map_map]
    refine List.map_congr_left fun x _ => ?_
    rw [Function.comp_apply]
    split <;> rfl

theorem Promotes.withReport (h : Promotes overlap key active p s s') (report : Report) :
    Promotes overlap key active { p with report } s s' := by
  cases h with
  | kept idle store counted queued => exact .kept idle store counted queued
  | promoted r mem policy idle runs states begins counted queued =>
    exact .promoted r mem policy idle runs states begins counted queued

theorem wp_moveCursor {Q : Unit → ScheduleStore → Prop} {schedule : DurableSchedule}
    {next : ScheduleOccurrence} (hE : ∀ e, e.isScheduleFault = false → E e)
    (hstate : s.states schedule.key = some state)
    (hlater : state.nextLocalOccurrence < next.localOccurrence)
    (h : state.matches schedule → ∀ s',
      s' = s.setState state.scheduleKey (state.movedTo next now) → Q () s') :
    wp (moveCursor schedule state next now) Q E s := by
  simp only [moveCursor, advanceTo, if_pos hlater, lockState, wp_bind, wp_ofExcept, wp_read,
    wp_orAbort, hstate, wp_ensure, writeState, wp_modify]
  refine ⟨fun _ hcursor => ?_, fun _ herror => by cases herror⟩
  cases hcursor
  refine ⟨fun row hrow => ?_, fun hnone => by cases hnone⟩
  cases hrow
  exact ⟨fun hmatches => h hmatches.1 _ rfl, fun _ => hE _ rfl⟩

/-- The rows of a tick: one for every due occurrence. -/
theorem slots_of_batch {due : List LocalOccurrence} {new : List OccurrenceRow} {p' : Progress}
    {s₁ s₂ : ScheduleStore} (hpromotes : Promotes overlap key active p s s₁)
    (hbatch : Batch key overlap due p p' s₁ s₂ new) :
    s₂.slots = s.slots ++ due.map fun o => (key, .local o) := by
  rw [ScheduleStore.slots_append hbatch.runs, hbatch.slots, hpromotes.slots]

/-- **A tick**: under the invariant of the cursor it returns with what it has
done, or fails with an error of the handler or one that no broken row causes. -/
theorem wp_materializeDue (hE : ∀ e, Excused handler e → E e)
    (hcursor : ∀ state, s.states definition.metadata.key = some state →
      (∀ o, definition.calendar.resolve state.nextLocalOccurrence.datetime = .ok o →
        o.dueAt = state.nextOccurrenceAt) ∧
      ∀ o, (definition.metadata.key, .local o) ∈ s.slots → o < state.nextLocalOccurrence) :
    wp (materializeDue definition handler active now) (Ticked definition active now · s ·) E s := by
  have hE' : ∀ e, e.isScheduleFault = false → E e := fun e he => hE e (.inr he)
  unfold materializeDue
  simp only [lockState, wp_bind, wp_read, wp_orAbort]
  refine ⟨fun state hstate => ?_, fun _ => hE' _ rfl⟩
  obtain ⟨hdueAt, hbefore⟩ := hcursor state hstate
  refine wp_promoteIfIdle hE fun p s₁ hpromotes => ?_
  rw [wp_ofExcept]
  refine ⟨fun o ho => ?_, fun e he => ?_⟩
  · obtain ⟨hresolves, hcursor⟩ := ScheduleCalendar.resolves_of_resolve ho
    rw [wp_ensure]
    refine ⟨fun _ => ?_, fun hne => absurd ⟨hcursor, hdueAt o ho⟩ hne⟩
    rw [wp_ofExcept]
    refine ⟨fun plan hplan => ?_, fun e he => hE' e (isScheduleFault_of_planChunk he)⟩
    obtain ⟨due, next, outcomes⟩ := plan
    obtain ⟨hcollect, hlength⟩ := planChunk_ok hplan
    obtain ⟨hwalk, -, -, -⟩ := collectDue_walk hcollect
    have hzip : (due.zip outcomes).map Prod.fst = due :=
      List.map_fst_zip hlength.ge
    have hsorted : (due.zip outcomes).Pairwise fun x y =>
        x.1.localOccurrence < y.1.localOccurrence := by
      have hpairwise := hwalk.pairwise hresolves
      rw [← hzip, List.pairwise_map] at hpairwise
      exact hpairwise
    have hfresh : ∀ x ∈ due.zip outcomes,
        (definition.metadata.key, .local x.1.localOccurrence) ∉ s₁.slots := by
      intro x hx hmem
      rw [hpromotes.slots] at hmem
      have hle := ((hwalk.bounds hresolves).2 x.1 (List.of_mem_zip hx).1).1
      rw [hcursor] at hle
      exact absurd hle (not_le.mpr (hbefore x.1.localOccurrence hmem))
    rw [wp_ensure]
    refine ⟨fun _ => ?_, fun _ => hE' _ rfl⟩
    refine wp_imp (wp_materializeAll hE hsorted hfresh) fun p' s₂ hpost => ?_
    obtain ⟨new, hbatch⟩ := hpost
    have hkeys : (due.zip outcomes).map (·.1.localOccurrence) = due.map (·.localOccurrence) := by
      have hmap := congrArg (List.map ScheduleOccurrence.localOccurrence) hzip
      rw [List.map_map] at hmap
      exact hmap
    rw [hkeys] at hbatch
    have hticked : ∀ s', CursorMoves definition.metadata state due next now s₂ s' →
        Ticked definition active now p'.report s s' := fun s' hmoves =>
      .intro state o next due new _ p' s₁ s₂ hstate (hpromotes.withReport _) ho hcursor hcollect hbatch
        hbatch.inspected hmoves
    rw [wp_ite]
    refine ⟨fun hempty => hticked s₂ (.stays (List.length_eq_zero_iff.mp hempty) rfl), fun hsome => ?_⟩
    have hne : due ≠ [] := fun hnil => hsome (List.length_eq_zero_iff.mpr hnil)
    obtain ⟨x, hx⟩ := List.exists_mem_of_ne_nil due hne
    have hlater : state.nextLocalOccurrence < next.localOccurrence := by
      have hbounds := (hwalk.bounds hresolves).2 x hx
      rw [← hcursor]
      exact hbounds.1.trans_lt hbounds.2
    rw [wp_bind]
    refine wp_moveCursor hE' (by rw [hbatch.states, hpromotes.states, hstate]) hlater
      fun hmatches s' hs' => hticked s' (.moves hne hmatches hlater hs')
  · unfold ScheduleCalendar.resolve at he
    split at he
    · cases he
    · cases he
    · split at he <;> cases he
      exact hE' _ rfl

end Ticks

section Definitions

variable {definition : RegisteredSchedule library} {row : ScheduleStateRow}

/-- The state row of a schedule after an upgrade. -/
def ScheduleStateRow.upgradedTo (row : ScheduleStateRow) (schedule : DurableSchedule)
    (target : ScheduleOccurrence) (deployedAt : DbMillis) : ScheduleStateRow :=
  { row with
    definitionFingerprint := schedule
    definitionVersion := schedule.version
    nextLocalOccurrence := target.localOccurrence
    nextOccurrenceAt := target.dueAt
    updatedAt := deployedAt }

/-- What a reconciliation that returned has done. -/
inductive Reconciled (definition : RegisteredSchedule library) (now : DbMillis)
    (s s' : ScheduleStore) : Prop
  | inserted (next : ScheduleOccurrence) (absent : s.states definition.metadata.key = none)
      (resolves : definition.calendar.Resolves next)
      (store : s' = s.setState definition.metadata.key
        (initialState definition.metadata next now))
  | kept (store : s' = s)
  | upgraded (row : ScheduleStateRow) (target : ScheduleOccurrence)
      (locked : s.states definition.metadata.key = some row)
      (older : row.definitionVersion < definition.metadata.version)
      (resolves : definition.calendar.Resolves target)
      (after : ∀ o, (definition.metadata.key, .local o) ∈ s.slots → o < target.localOccurrence)
      (store : s' = s.setState row.scheduleKey (row.upgradedTo definition.metadata target now))

/-- The cursor of an upgrade is after every occurrence up to the floor. -/
theorem upgradeCursor_ok {calendar : ScheduleCalendar} {floor : Option LocalOccurrence}
    {target : ScheduleOccurrence} (h : upgradeCursor calendar now floor = .ok target) :
    calendar.Resolves target ∧ ∀ o ∈ floor, o < target.localOccurrence := by
  obtain ⟨next, hnext, h⟩ := bind_eq_ok h
  obtain ⟨hwhole, hresolve, -⟩ := ScheduleCalendar.nextAfter_ok hnext
  cases floor with
  | none =>
    cases h
    exact ⟨⟨hwhole, hresolve⟩, by simp⟩
  | some floor =>
    dsimp only at h
    split at h
    · have hresolves := ScheduleCalendar.resolves_of_nextAfterLocal h
      refine ⟨hresolves, fun o ho => ?_⟩
      cases ho
      rw [LocalOccurrence.lt_iff, hresolves.datetime]
      exact (ScheduleCalendar.nextAfterLocal_ok h).1
    · rename_i hlater
      cases h
      refine ⟨⟨hwhole, hresolve⟩, fun o ho => ?_⟩
      cases ho
      exact not_le.mp hlater

/-- The floor of a schedule is not before any of its rows. -/
theorem le_materializedFloor {rows : List OccurrenceRow} {r : OccurrenceRow} {o : LocalOccurrence}
    (hr : r ∈ rows) (ho : r.localOccurrence = .local o) :
    ∃ floor, (rows.filterMap (·.localOccurrence.occurrence)).max? = some floor ∧ o ≤ floor := by
  have hmem : o ∈ rows.filterMap (·.localOccurrence.occurrence) :=
    List.mem_filterMap.mpr ⟨r, hr, by rw [ho]; rfl⟩
  cases hmax : (rows.filterMap (·.localOccurrence.occurrence)).max? with
  | none =>
    rw [List.max?_eq_none_iff] at hmax
    rw [hmax] at hmem
    cases hmem
  | some floor => exact ⟨floor, rfl, (List.max?_le_iff hmax).mp le_rfl o hmem⟩

theorem wp_upgradeState {Q : Unit → ScheduleStore → Prop} (hE : ∀ e, E e)
    (h : ∀ target s', definition.calendar.Resolves target →
      (∀ o, (definition.metadata.key, .local o) ∈ s.slots → o < target.localOccurrence) →
      s' = s.setState row.scheduleKey (row.upgradedTo definition.metadata target now) → Q () s') :
    wp (upgradeState definition row now) Q E s := by
  simp only [upgradeState, materializedFloor, wp_bind, wp_selectRows, wp_pure, wp_ofExcept,
    occurrenceTable_get, writeState, wp_modify]
  refine ⟨fun target htarget => ?_, fun e _ => hE e⟩
  obtain ⟨hresolves, hfloor⟩ := upgradeCursor_ok htarget
  refine h target _ hresolves (fun o hmem => ?_) rfl
  obtain ⟨r, hr, hslot⟩ := List.mem_map.mp hmem
  obtain ⟨hkey, ho⟩ := Prod.mk_inj.mp hslot
  have hrow : r ∈ s.runs.select fun r => r.scheduleKey == definition.metadata.key := by
    rw [Table.select_eq_filter, List.mem_filter]
    exact ⟨hr, beq_iff_eq.mpr hkey⟩
  obtain ⟨floor, hmax, hle⟩ := le_materializedFloor hrow ho
  exact hle.trans_lt (hfloor floor hmax)

/-- **A reconciliation** (T-S1). -/
theorem wp_reconcileState :
    wp (reconcileState definition now) (fun _ s' => Reconciled definition now s s') (fun _ => True) s := by
  simp only [reconcileState, insertScheduleStateIfAbsent, lockState, wp_bind, wp_orAbort, wp_ofExcept,
    wp_read]
  refine ⟨fun deployedAt _ => ⟨fun next hnext => ?_, fun _ _ => trivial⟩, fun _ => trivial⟩
  obtain ⟨hwhole, hresolve, -⟩ := ScheduleCalendar.nextAfter_ok hnext
  have hkey : (initialState definition.metadata next now).scheduleKey = definition.metadata.key := rfl
  cases hstate : s.states definition.metadata.key with
  | none =>
    simp only [hkey, hstate, wp_bind, writeState, wp_modify, wp_pure, if_true]
    refine ⟨fun row hrow => ?_, fun _ => trivial⟩
    exact .inserted next hstate ⟨hwhole, hresolve⟩ rfl
  | some row =>
    simp only [hkey, hstate, wp_pure, Bool.false_eq_true, if_false]
    refine ⟨fun row' hrow' => ?_, fun hnone => by cases hnone⟩
    cases hrow'
    simp only [wp_ite, wp_bind, wp_ensure, wp_pure]
    refine ⟨fun _ => .kept rfl, fun hnewer => ⟨fun _ => ⟨fun _ => .kept rfl, fun _ => trivial⟩,
      fun hne => ?_⟩⟩
    have holder : row.definitionVersion < definition.metadata.version :=
      lt_of_le_of_ne (not_lt.mp hnewer) hne
    refine wp_upgradeState (fun _ => trivial) fun target s' hresolves hafter hs' => ?_
    exact .upgraded row target hstate holder hresolves hafter hs'

end Definitions

section Controls

variable {definition : RegisteredSchedule library} {operator : Operator}

/-- What a pause or resume leaves alone: the definition and the cursor. -/
def ScheduleStateRow.position (row : ScheduleStateRow) :
    String × Fingerprint × ℤ × LocalOccurrence × DbMillis :=
  (row.scheduleKey, row.definitionFingerprint, row.definitionVersion, row.nextLocalOccurrence,
    row.nextOccurrenceAt)

/-- **A pause or resume** (T-A8). -/
theorem wp_setSchedulePaused {paused : Bool} :
    wp (setSchedulePaused definition paused operator now) (fun _ s' => ∃ row row',
      s.states definition.metadata.key = some row ∧ s' = s.setState row.scheduleKey row' ∧
      row'.position = row.position) (fun _ => True) s := by
  simp only [setSchedulePaused, lockScheduleState, wp_bind, wp_ofExcept, wp_read, wp_orAbort,
    wp_ensure, wp_pure]
  refine ⟨fun _ _ => ⟨fun row hrow => ⟨fun _ => ⟨fun _ => ?_, fun _ => trivial⟩,
    fun _ => trivial⟩, fun _ => trivial⟩, fun _ _ => trivial⟩
  split
  · exact ⟨row, _, hrow, rfl, rfl⟩
  · exact ⟨row, _, hrow, rfl, rfl⟩

/-- What a run-now that returned has done. -/
structure RanNow (key : String) (s s' : ScheduleStore) (row : OccurrenceRow) : Prop where
  runs : s'.runs.toList = s.runs.toList ++ [row]
  slot : ∃ t, row.slot = (key, .manual t)
  fresh : row.slot ∉ s.slots
  status : row.status = .started
  states : s'.states = s.states
  begins : Begins row.id s.sys.db.workflows s'.sys.db.workflows

/-- An event leaves the workflow rows alone. -/
theorem keeps_appendOperatorEvent {w : WorkflowId} {type : EventType} :
    Keeps DB.workflows (appendOperatorEvent w type operator now) := by
  refine .bind (.bind .read fun _ => .orAbort _ _) fun _ => ?_
  exact .bind .read fun _ => .bind (.ensure _ _) fun _ => .bind (.ensure _ _) fun _ =>
    .modify fun _ => rfl

/-- The time that a run-now of a schedule gets. -/
def ScheduleStore.nextManual (s : ScheduleStore) (key : String) (now : DbMillis) : DbMillis :=
  runNowTime ((s.runs.select fun r => r.scheduleKey == key).map (·.scheduledFor)).max? now

/-- What a run-now at `now` that returned has done: its row has the time of the run-now. -/
structure RanNowAt (key : String) (now : DbMillis) (s s' : ScheduleStore) (run : ScheduleRunId)
    (row : OccurrenceRow) : Prop extends RanNow key s s' row where
  id : row.id = run
  manual : row.localOccurrence = .manual row.scheduledFor
  scheduledFor : row.scheduledFor = s.nextManual key now
  materializedAt : row.materializedAt = now

/-- **A run-now** (T-A9) after its check of the overlap policy. -/
theorem wp_startRunNow_at :
    wp (startRunNow definition handler operator now) (fun run s' => ∃ row,
      RanNowAt definition.metadata.key now s s' run row) (fun _ => True) s := by
  rw [startRunNow, wp_bind, wp_ofExcept]
  refine ⟨fun actorId _ => ?_, fun _ _ => trivial⟩
  rw [wp_bind, wp_selectRows, wp_bind]
  refine wp_insertScheduleRun (fun _ => trivial) fun s₁ hnew hstates₁ hworkflows₁ hruns₁ => ?_
  rw [wp_bind]
  refine wp_startOccurrence (fun _ _ => trivial) fun w s₂ hstates₂ hruns₂ hbegins => ?_
  rw [wp_bind]
  refine wp_markStarted trivial fun s₃ hstates₃ hworkflows₃ hruns₃ => ?_
  rw [wp_bind, wp_onEngine]
  refine wp_imp (keeps_appendOperatorEvent s₃.sys.db) fun _ db' hworkflows₄ => ?_
  rw [hruns₂, hruns₁] at hruns₃
  refine ⟨_, ⟨hruns₃.trans toList_insert_begun, ⟨_, rfl⟩, hnew, rfl, ?_, ?_⟩, rfl, rfl, rfl, rfl⟩
  · rw [hstates₃, hstates₂, hstates₁]
  · rw [hworkflows₄, hworkflows₃, ← hworkflows₁]
    exact hbegins

theorem wp_startRunNow :
    wp (startRunNow definition handler operator now) (fun _ s' => ∃ row,
      RanNow definition.metadata.key s s' row) (fun _ => True) s :=
  wp_imp wp_startRunNow_at fun _ _ ⟨row, hran⟩ => ⟨row, hran.toRanNow⟩

end Controls

end DurableWorkflows
