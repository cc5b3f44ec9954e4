import DurableWorkflows.Engine.Absorbing
import DurableWorkflows.Schedule.Cursor

/-!
# Overlap policies

A tick or a run-now of a schedule that does not allow overlaps counts the active
workflows of the schedule under the lock of its state row, and starts one only if
it counted none. The lock keeps other ticks and run-nows out, but not the engine:
a restart of one of the schedule's workflows takes no such lock and may commit
between the count and the start.

## Main definitions

- `Sustains`: the transactions that take the engine's tables through its own steps
- `Opens`: the count with which the lock of a schedule is taken

## Main results

- `Schedules.run_overlap`: what a tick, a run-now and a promotion may start
- `Schedules.run_promotions`: when a queued run leaves the queue
-/

namespace DurableWorkflows

open Transaction

variable {α β : Type} {library : CalendarLibrary} {externals : Externals}

section Rows

variable {g g' : Aggregate} {l : Label} {r : WorkflowRow} {db db' : DB} {w : WorkflowId}
  {P : WorkflowId → Label → Prop}

/-- A workflow stays with its run. -/
theorem Step.scheduleRunId (h : Step g l g') (hr : g.row.map (·.scheduleRunId) = some r.scheduleRunId) :
    g'.row.map (·.scheduleRunId) = some r.scheduleRunId := by
  cases h with
  | inserted => cases hr
  | history | discarded | activityClaimed | renewed | released | settled => exact hr
  | cancelled hrow _ _ clear =>
    rw [hrow] at hr
    cases clear <;> exact hr
  | _ =>
    rw [‹g.row = some _›] at hr
    exact hr

theorem Evolves.scheduleRunId (h : Evolves P db db') (hr : db.workflows.find w = some r) :
    (db'.workflows.find w).map (·.scheduleRunId) = some r.scheduleRunId := by
  have hsome : ∀ g', Steps (P w) (db.aggregate w) g' →
      g'.row.map (·.scheduleRunId) = some r.scheduleRunId := by
    intro g' hg
    induction hg with
    | refl => exact congrArg (Option.map _) hr
    | tail _ hstep ih =>
      obtain ⟨l, -, hstep⟩ := hstep
      exact hstep.scheduleRunId ih
  exact hsome _ (h.steps w)

end Rows

section Engine

variable {x : ScheduleTx α} {run : ScheduleRunId} {handler : ScheduleHandler}
  {definition : RegisteredSchedule library} {now : DbMillis}

/-- The engine's tables after a transaction of a schedule. -/
def ScheduleStore.Leads (s s' : ScheduleStore) : Prop :=
  s'.sys.Inv ∧ Evolves (fun _ _ => True) s.sys.db s'.sys.db

/-- The transaction takes the engine's tables through steps of the engine. -/
def Sustains (x : ScheduleTx α) : Prop :=
  ∀ s, s.sys.Inv → wp x (fun _ s' => s.Leads s') (fun _ => True) s

theorem ScheduleStore.Leads.refl {s : ScheduleStore} (h : s.sys.Inv) : s.Leads s := ⟨h, .refl _⟩

theorem ScheduleStore.Leads.trans {s s' s'' : ScheduleStore} (h : s.Leads s') (h' : s'.Leads s'') :
    s.Leads s'' :=
  ⟨h'.1, h.2.trans h'.2⟩

/-- A change of the engine's tables by steps that only insert or record. -/
theorem ScheduleStore.Leads.of_evolves {s : ScheduleStore} {db' : DB} {P : WorkflowId → Label → Prop}
    (h : s.sys.Inv) (hev : Evolves P s.sys.db db')
    (hP : ∀ w l, P w l → l.draws = none ∧ l.ends = false ∧ l.attaches = false) :
    s.Leads { s with sys := { s.sys with db := db' } } := by
  refine ⟨h.evolves hev (fun w l hl => ?_) ?_, hev.mono fun _ _ _ => trivial⟩
  · rw [Label.drawsFrom, (hP w l hl).1]
    rfl
  · exact hev.attached h.sound (fun w l hl => (hP w l hl).2) h.attached

namespace Sustains

theorem of_keeps (h : Keeps ScheduleStore.sys x) : Sustains x := by
  intro s hs
  refine wp_imp (h s) fun _ s' hsys => ?_
  rw [ScheduleStore.Leads, hsys]
  exact ⟨hs, .refl _⟩

theorem pure (a : α) : Sustains (pure a : ScheduleTx α) := .of_keeps (.pure a)

theorem bind {f : α → ScheduleTx β} (hx : Sustains x) (hf : ∀ a, Sustains (f a)) :
    Sustains (x >>= f) := by
  intro s hs
  rw [wp_bind]
  refine wp_imp (hx s hs) fun a s' hs' => ?_
  exact wp_imp (hf a s' hs'.1) fun _ s'' hs'' => hs'.trans hs''

theorem ite {c : Prop} [Decidable c] {y : ScheduleTx α} (hx : Sustains x) (hy : Sustains y) :
    Sustains (if c then x else y) := by
  split
  · exact hx
  · exact hy

theorem foldEach {xs : List α} {b : β} {f : β → α → ScheduleTx β} (h : ∀ b x, Sustains (f b x)) :
    Sustains (foldEach xs b f) := by
  induction xs generalizing b with
  | nil => exact .pure b
  | cons x xs ih => exact .bind (h b x) fun _ => ih

/-- A write of the table behind `durable_schedule_run`. -/
theorem onEngine_scheduleRuns {x : Tx α}
    (hx : ∀ db, wp x (fun _ db' => ∃ runs, db' = { db with scheduleRuns := runs })
      (fun _ => True) db) : Sustains (onEngine x) := by
  intro s hs
  rw [wp_onEngine]
  refine wp_imp (hx s.sys.db) fun _ db' hdb' => ?_
  obtain ⟨runs, rfl⟩ := hdb'
  have hev : Evolves (fun _ _ => False) s.sys.db { s.sys.db with scheduleRuns := runs } :=
    .of_aggregate_eq (fun _ => rfl) id
  exact .of_evolves hs hev fun _ _ => False.elim

theorem insertScheduleRun (row : OccurrenceRow) : Sustains (insertScheduleRun row) := by
  refine .bind (.of_keeps fun _ => rfl) fun _ => .bind (.of_keeps (.ensure _ _)) fun _ =>
    .bind (.onEngine_scheduleRuns fun db => ⟨_, rfl⟩) fun _ => .of_keeps fun _ => rfl

theorem markStarted (run : ScheduleRunId) (expected : ScheduleRunStatus) (reason : Option String)
    (w : WorkflowId) : Sustains (markStarted run expected reason w) := by
  refine .bind (.of_keeps fun s => ?_) fun _ => .bind (.of_keeps (.ensure _ _)) fun _ =>
    .bind (.onEngine_scheduleRuns fun db => ?_) fun _ => .pure ()
  · rw [wp_updateRow]
    exact ⟨fun _ _ _ => rfl, fun _ => rfl⟩
  · rw [wp_updateRow]
    exact ⟨fun _ _ _ => ⟨_, rfl⟩, fun _ => ⟨_, rfl⟩⟩

end Sustains

/-- A handler's start, with the row of its workflow. -/
theorem wp_startOccurrence_leads {scheduledFor : DbMillis} {s : ScheduleStore} (hs : s.sys.Inv) :
    wp (startOccurrence handler run scheduledFor)
      (fun w s' => s.Leads s' ∧ ∃ r, s'.sys.db.workflows.find w = some r) (fun _ => True) s := by
  rw [startOccurrence, wp_bind, wp_ofExcept]
  refine ⟨fun started _ => ?_, fun _ _ => trivial⟩
  rw [wp_bind, wp_onEngine]
  refine wp_mono (wp_start hs.sound) (fun outcome db' hstarts => ?_) fun _ _ => trivial
  refine ⟨.of_evolves hs hstarts.evolves ?_, ?_⟩
  · rintro _ _ rfl
    exact ⟨rfl, rfl, rfl⟩
  · cases hstarts with
    | inserted h => exact ⟨_, h.stored⟩
    | existing _ hr => exact ⟨_, hr⟩

theorem Sustains.startOccurrence (handler : ScheduleHandler) (run : ScheduleRunId)
    (scheduledFor : DbMillis) : Sustains (startOccurrence handler run scheduledFor) :=
  fun _ hs => wp_imp (wp_startOccurrence_leads hs) fun _ _ h => h.1

theorem Sustains.promoteIfIdle (overlap : OverlapPolicy) (key : String) (handler : ScheduleHandler)
    (active : ℕ) : Sustains (promoteIfIdle overlap key handler active) := by
  refine .bind (.bind (.of_keeps .read) fun _ => .pure _) fun _ => .ite (.bind ?_ fun _ => .pure _)
    (.pure _)
  exact .bind (.of_keeps .read) fun _ => .bind (.of_keeps (.orAbort _ _)) fun _ =>
    .bind (.startOccurrence _ _ _) fun _ => .markStarted _ _ _ _

theorem Sustains.materializeOccurrence (key : String) (overlap : OverlapPolicy)
    (handler : ScheduleHandler) (now : DbMillis) (progress : Progress) (o : ScheduleOccurrence)
    (outcome : OccurrenceOutcome) :
    Sustains (materializeOccurrence key overlap handler now progress o outcome) := by
  unfold DurableWorkflows.materializeOccurrence
  split
  · exact .bind (.insertScheduleRun _) fun _ => .pure _
  · exact .bind (.insertScheduleRun _) fun _ => .bind (.startOccurrence _ _ _) fun _ =>
      .bind (.markStarted _ _ _ _) fun _ => .pure _
  · exact .bind (.insertScheduleRun _) fun _ => .pure _
  · exact .bind (.insertScheduleRun _) fun _ => .pure _

theorem Sustains.lockState (key : String) : Sustains (lockState key) :=
  .bind (.of_keeps .read) fun _ => .of_keeps (.orAbort _ _)

theorem Sustains.materializeDue (definition : RegisteredSchedule library)
    (handler : ScheduleHandler) (active : ℕ) (now : DbMillis) :
    Sustains (materializeDue definition handler active now) := by
  refine .bind (.lockState _) fun _ => .bind (.promoteIfIdle _ _ _ _) fun _ =>
    .bind (.of_keeps (.ofExcept _)) fun _ => .bind (.of_keeps (.ensure _ _)) fun _ =>
    .bind (.of_keeps (.ofExcept _)) fun _ => .bind (.of_keeps (.ensure _ _)) fun _ =>
    .bind (.foldEach fun _ _ => .materializeOccurrence _ _ _ _ _ _ _) fun _ => .ite (.pure _) ?_
  refine .bind (.bind (.of_keeps (.ofExcept _)) fun _ => .bind (.lockState _) fun _ =>
    .bind (.of_keeps (.ensure _ _)) fun _ => .of_keeps ?_) fun _ => .pure _
  exact .modify fun _ => rfl

theorem Sustains.startRunNow (definition : RegisteredSchedule library) (handler : ScheduleHandler)
    (operator : Operator) (now : DbMillis) : Sustains (startRunNow definition handler operator now) := by
  refine .bind (.of_keeps (.ofExcept _)) fun _ => .bind (.of_keeps fun _ => rfl) fun _ =>
    .bind (.insertScheduleRun _) fun run s hs => ?_
  rw [wp_bind]
  refine wp_imp (wp_startOccurrence_leads hs) fun w s₁ ⟨hleads₁, r, hr⟩ => ?_
  rw [wp_bind]
  refine wp_imp (Sustains.markStarted _ _ _ _ s₁ hleads₁.1) fun _ s₂ hleads₂ => ?_
  -- the workflow of the run is still there, so it can record the event
  obtain ⟨r₂, hr₂⟩ := (hleads₂.2.steps w).exists_row ⟨r, hr⟩
  rw [wp_bind, wp_onEngine]
  refine wp_history (P := fun _ l => l = .history) hleads₂.1.sound hr₂ (fun _ => trivial) rfl nofun rfl
    fun db' hev _ => ?_
  refine hleads₁.trans (hleads₂.trans (.of_evolves hleads₂.1 hev ?_))
  rintro _ _ rfl
  exact ⟨rfl, rfl, rfl⟩

end Engine

namespace Schedules

section Engine

variable {s s' : Schedules library} {action : ScheduleAction library} {x : ScheduleTx α} {key : String}
  {record : α → Schedules library → Schedules library}

theorem leads_of_transactLocked (h : s.transactLocked key x record = .ok s')
    (hs : s.store.sys.Inv) (hx : Sustains x) (hrecord : ∀ a s, (record a s).store = s.store) :
    s.store.Leads s'.store := by
  refine transactLocked_ok (P := fun s' => s.store.Leads s'.store) h (hx s.store hs)
    fun _ a store hleads => ?_
  rw [hrecord]
  exact hleads

/-- **Step lemma**: an action takes the engine's tables through steps of the engine. -/
theorem exec_leads (hs : s.store.sys.Inv) (hok : exec externals s action = .ok s') :
    s.store.Leads s'.store := by
  cases action with
  | engine action =>
    rw [exec] at hok
    split at hok
    · rename_i sys hexec
      cases hok
      have hleads := DurableWorkflows.exec_leads hs hexec
      exact ⟨hleads.inv, hleads.evolves.mono fun _ _ _ => trivial⟩
    · cases hok
  | reconcile definition now =>
    refine leads_of_transactLocked hok hs (.of_keeps fun s => ?_) fun _ _ => rfl
    refine wp_imp wp_reconcileState fun _ s' hr => ?_
    cases hr with
    | inserted _ _ _ hstore | kept hstore | upgraded _ _ _ _ _ _ hstore =>
      subst hstore
      rfl
  | openTick definition now =>
    refine leads_of_transactLocked hok hs (.of_keeps ?_) fun active s => ?_
    · refine .bind (.bind .read fun _ => .orAbort _ _) fun _ => .bind (.ensure _ _) fun _ => ?_
      exact .ite (.pure _) (.bind (.bind .read fun _ => .pure _) fun _ => .pure _)
    · cases active <;> rfl
  | openRunNow definition operator =>
    refine leads_of_transactLocked hok hs (.of_keeps ?_) fun _ _ => rfl
    refine .bind (.ofExcept _) fun _ => .bind (.bind .read fun _ => .bind (.orAbort _ _) fun _ =>
      .bind (.ensure _ _) fun _ => .pure _) fun _ => .ite ?_ (.pure _)
    exact .bind (.bind .read fun _ => .pure _) fun _ => .ensure _ _
  | close key handler now =>
    rw [exec] at hok
    split at hok
    · cases hok
    rename_i holder hheld
    cases hok
    cases hfinish : finish handler now holder s.store with
    | error e =>
      rw [close_of_error hfinish]
      exact .refl hs
    | ok r =>
      obtain ⟨⟨⟩, store⟩ := r
      rw [close_of_ok hfinish]
      have hsustains : Sustains (finish handler now holder) := by
        cases holder with
        | tick => exact .bind (.materializeDue _ _ _ _) fun _ => .pure _
        | runNow => exact .bind (.startRunNow _ _ _ _) fun _ => .pure _
      exact wp_ok (hsustains s.store hs) hfinish
  | abandon key =>
    cases hok
    exact .refl hs
  | setPaused definition paused operator now =>
    refine leads_of_transactLocked hok hs (.of_keeps fun s => ?_) fun _ _ => rfl
    refine wp_imp wp_setSchedulePaused fun _ s' hpaused => ?_
    obtain ⟨_, _, _, rfl, _⟩ := hpaused
    rfl

/-- The engine's invariant holds in every reachable state. -/
theorem run_sys_inv (externals : Externals) (actions : List (ScheduleAction library)) :
    (run externals init actions).store.sys.Inv :=
  Machine.run_invariant (P := fun s : Schedules library => s.store.sys.Inv)
    (fun _ _ _ h hok => (exec_leads h hok).1) .init actions

end Engine

section Counts

variable {s s' : Schedules library} {action : ScheduleAction library} {key : String}
  {holder : Holder library} {store : ScheduleStore}

/-- The lock of a schedule is taken, with a count of its active workflows. -/
inductive Opens (s : ScheduleStore) (key : String) : ScheduleAction library → Holder library → Prop
  | tick {definition : RegisteredSchedule library} {now : DbMillis}
      (scheduleKey : definition.metadata.key = key) :
      Opens s key (.openTick definition now) (.tick definition (s.active key).length now)
  | runNow {definition : RegisteredSchedule library} {operator : Operator}
      (scheduleKey : definition.metadata.key = key)
      (idle : definition.metadata.overlap = .allow ∨ s.active key = []) :
      Opens s key (.openRunNow definition operator) (.runNow definition operator)

/-- The runs of a schedule, read off all rows. -/
theorem runIds_eq (s : ScheduleStore) (key : String) :
    s.runIds key = (s.runs.toList.filter fun r => r.scheduleKey == key).map (·.id) := by
  rw [ScheduleStore.runIds, Table.select_eq_filter]

/-- Rows of other schedules are no runs of the schedule. -/
theorem runIds_append {s : ScheduleStore} {new : List OccurrenceRow}
    (hruns : store.runs.toList = s.runs.toList ++ new) (hnew : ∀ r ∈ new, r.scheduleKey ≠ key) :
    store.runIds key = s.runIds key := by
  have hnone : new.filter (fun r => r.scheduleKey == key) = [] := by
    rw [List.filter_eq_nil_iff]
    exact fun r hr heq => hnew r hr (beq_iff_eq.mp heq)
  rw [runIds_eq, runIds_eq, hruns, List.filter_append, hnone, List.append_nil]

/-- A change of rows that keeps what they are rows of. -/
theorem runIds_map {s : ScheduleStore} {f : OccurrenceRow → OccurrenceRow}
    (hid : ∀ r, (f r).id = r.id) (hkey : ∀ r, (f r).scheduleKey = r.scheduleKey)
    (hruns : store.runs.toList = s.runs.toList.map f) : store.runIds key = s.runIds key := by
  have hfilter : (fun r : OccurrenceRow => r.scheduleKey == key) ∘ f = fun r => r.scheduleKey == key := by
    funext r
    rw [Function.comp_apply, hkey]
  rw [runIds_eq, runIds_eq, hruns, List.filter_map, hfilter, List.map_map]
  exact List.map_congr_left fun r _ => hid r

/-- A promotion keeps the runs of every schedule. -/
theorem runIds_of_promotes {overlap : OverlapPolicy} {key' : String} {active : ℕ} {p : Progress}
    {s s' : ScheduleStore} (h : Promotes overlap key' active p s s') : s'.runIds key = s.runIds key := by
  cases h with
  | kept _ hstore => rw [hstore]
  | promoted r _ _ _ hruns =>
    refine runIds_map (fun x => ?_) (fun x => ?_) hruns
    · split <;> rfl
    · split <;> rfl

/-- A tick of another schedule keeps the runs of the schedule. -/
theorem runIds_of_ticked {definition : RegisteredSchedule library} {active : ℕ} {now : DbMillis}
    {report : Report} {s : ScheduleStore} (ht : Ticked definition active now report s store)
    (hkey : definition.metadata.key ≠ key) : store.runIds key = s.runIds key := by
  obtain ⟨state, o, next, due, new, p, p', s₁, s₂, -, hpromotes, -, -, -, hbatch, -, hmoves⟩ := ht
  have hnew : ∀ r ∈ new, r.scheduleKey ≠ key := by
    intro r hr
    have hslot : r.slot ∈ new.map OccurrenceRow.slot := List.mem_map_of_mem hr
    rw [hbatch.slots] at hslot
    obtain ⟨_, _, heq⟩ := List.mem_map.mp hslot
    rw [← (Prod.mk_inj.mp heq).1]
    exact hkey
  have hruns : store.runs = s₂.runs := by
    cases hmoves with
    | stays _ hstore => rw [hstore]
    | moves _ _ _ hstore =>
      subst hstore
      rfl
  rw [runIds_eq, hruns, ← runIds_eq, runIds_append hbatch.runs hnew, runIds_of_promotes hpromotes]

/-- The holder of a lock has just taken it, or had it before and its schedule has
the same runs. -/
theorem Transits.held_cases (hs : s.Inv) (ht : Transits externals s action s')
    (hheld : s'.held key = some holder) :
    (s.held key = none ∧ s'.store = s.store ∧ Opens s.store key action holder) ∨
      (s.held key = some holder ∧ s'.store.runIds key = s.store.runIds key) := by
  have hopens : ∀ {key' : String} {new : Holder library},
      (s.hold key' (some new)).held key = some holder →
      (key' = key ∧ new = holder) ∨ s.held key = some holder := by
    intro key' new h
    change Function.update s.held key' (some new) key = some holder at h
    by_cases hkey : key = key'
    · rw [hkey, Function.update_self] at h
      exact .inl ⟨hkey.symm, Option.some.inj h⟩
    · rw [Function.update_of_ne hkey] at h
      exact .inr h
  have hcloses : ∀ {key' : String} {store : ScheduleStore},
      ({ s with store }.hold key' none).held key = some holder → key' ≠ key ∧ s.held key = some holder := by
    intro key' store h
    change Function.update s.held key' none key = some holder at h
    by_cases hkey : key = key'
    · rw [hkey, Function.update_self] at h
      cases h
    · rw [Function.update_of_ne hkey] at h
      exact ⟨Ne.symm hkey, h⟩
  cases ht with
  | engine | tickPaused => exact .inr ⟨hheld, rfl⟩
  | reconciled _ hr =>
    cases hr with
    | inserted _ _ _ hstore | kept hstore | upgraded _ _ _ _ _ _ hstore =>
      subst hstore
      exact .inr ⟨hheld, rfl⟩
  | tickOpened free =>
    rcases hopens hheld with ⟨hkey, rfl⟩ | hold
    · subst hkey
      exact .inl ⟨free, rfl, .tick rfl⟩
    · exact .inr ⟨hold, rfl⟩
  | runNowOpened free _ _ idle =>
    rcases hopens hheld with ⟨hkey, rfl⟩ | hold
    · subst hkey
      exact .inl ⟨free, rfl, .runNow rfl idle⟩
    · exact .inr ⟨hold, rfl⟩
  | @ticked key' _ _ _ definition _ _ _ held ticked =>
    obtain ⟨hne, hold⟩ := hcloses hheld
    obtain ⟨hkey, -⟩ := hs.held _ _ held
    change definition.metadata.key = key' at hkey
    exact .inr ⟨hold, runIds_of_ticked ticked (hkey ▸ hne)⟩
  | @ranNow key' _ _ definition _ run _ held ran =>
    obtain ⟨hne, hold⟩ := hcloses hheld
    obtain ⟨hkey, -⟩ := hs.held _ _ held
    change definition.metadata.key = key' at hkey
    obtain ⟨t, hslot⟩ := ran.slot
    refine .inr ⟨hold, runIds_append ran.runs fun r hr => ?_⟩
    rw [List.mem_singleton.mp hr, (Prod.mk_inj.mp hslot).1, hkey]
    exact hne
  | rolledBack | abandoned => exact .inr ⟨(hcloses hheld).2, rfl⟩
  | paused => exact .inr ⟨hheld, rfl⟩

/-- An active workflow of a schedule was active before, or did not exist. -/
theorem active_of_leads {s s' : ScheduleStore} {w : WorkflowRow} (h : s.Leads s')
    (hruns : s'.runIds key = s.runIds key) (hw : w ∈ s'.active key) :
    w.id ∈ (s.active key).map (·.id) ∨ s.sys.db.workflows.find w.id = none := by
  obtain ⟨hfind, hactive⟩ := Table.mem_select.mp hw
  change s'.sys.db.workflows.find w.id = some w at hfind
  cases hbefore : s.sys.db.workflows.find w.id with
  | none => exact .inr rfl
  | some r =>
    have hopen : r.status.isTerminal = false := by
      by_contra hterminal
      have hsame := h.2.terminal_row hbefore (Bool.not_eq_false _ ▸ hterminal)
      cases hfind.symm.trans hsame
      simp [Bool.not_eq_false _ ▸ hterminal] at hactive
    have hrun : w.scheduleRunId = r.scheduleRunId := by
      have hsame := h.2.scheduleRunId hbefore
      rw [hfind] at hsame
      exact Option.some.inj hsame
    rw [hruns, hrun] at hactive
    refine .inl (List.mem_map.mpr ⟨r, Table.mem_select.mpr ⟨?_, ?_⟩, Table.key_of_find hbefore⟩)
    · change s.sys.db.workflows.find r.id = some r
      rw [show r.id = w.id from Table.key_of_find hbefore, hbefore]
    · simp_all

/-- The holder of a lock took it by `opening` after `before`, and has held it since. -/
def HeldSince (externals : Externals) (before : List (ScheduleAction library))
    (opening : ScheduleAction library) (between : List (ScheduleAction library)) (key : String)
    (holder : Holder library) : Prop :=
  (run externals init before).held key = none ∧ ∀ mid, mid <+: between →
    (run externals init (before ++ opening :: mid)).held key = some holder

/-- One more action that leaves the holder. -/
theorem HeldSince.concat {externals : Externals} {before between : List (ScheduleAction library)}
    {opening action : ScheduleAction library}
    (h : HeldSince externals before opening between key holder)
    (hheld : (run externals init (before ++ opening :: (between ++ [action]))).held key =
      some holder) :
    HeldSince externals before opening (between ++ [action]) key holder := by
  refine ⟨h.1, fun mid hmid => ?_⟩
  obtain rfl | hmid := List.prefix_concat_iff.mp hmid
  · exact hheld
  · exact h.2 mid hmid

/-- **Counts**: whoever holds the lock of a schedule has counted its active
workflows when it took the lock, and a workflow of the schedule that is active now
was counted, or it did not exist then. -/
theorem run_counted (externals : Externals) (actions : List (ScheduleAction library)) :
    ∀ key holder, (run externals init actions).held key = some holder →
      ∃ before action between, actions = before ++ action :: between ∧
        HeldSince externals before action between key holder ∧
        Opens (run externals init before).store key action holder ∧
        (run externals init actions).store.runIds key = (run externals init before).store.runIds key ∧
        (run externals init before).store.Leads (run externals init actions).store := by
  induction actions using List.reverseRecOn with
  | nil =>
    intro key holder hheld
    cases hheld
  | append_singleton actions action ih =>
    intro key holder hheld
    have hsnoc : run externals init (actions ++ [action]) =
        step externals (run externals init actions) action := Machine.run_append ..
    have hs := run_inv externals actions
    have hsys := run_sys_inv externals actions
    rw [hsnoc] at hheld ⊢
    cases hexec : exec externals (run externals init actions) action with
    | error stop =>
      have hend := hheld
      rw [step, Machine.step_of_error hexec] at hheld ⊢
      obtain ⟨before, opening, between, rfl, hsince, hopens, hruns, hleads⟩ := ih key holder hheld
      refine ⟨before, opening, between ++ [action], by simp, hsince.concat ?_, hopens, hruns, hleads⟩
      rwa [← List.cons_append, ← List.append_assoc, hsnoc]
    | ok s' =>
      have hend := hheld
      rw [step, Machine.step_of_ok hexec] at hheld ⊢
      have hstep := exec_leads hsys hexec
      rcases (exec_transits hs hexec).held_cases hs hheld with ⟨hfree, hstore, hopens⟩ | ⟨hold, hruns⟩
      · refine ⟨actions, action, [], rfl, ⟨hfree, fun mid hmid => ?_⟩, hopens, by rw [hstore], hstep⟩
        rw [List.prefix_nil.mp hmid, hsnoc]
        exact hend
      · obtain ⟨before, opening, between, rfl, hsince, hopens, hruns', hleads⟩ := ih key holder hold
        refine ⟨before, opening, between ++ [action], by simp, hsince.concat ?_, hopens,
          hruns.trans hruns', hleads.trans hstep⟩
        rwa [← List.cons_append, ← List.append_assoc, hsnoc]

end Counts

section Queue

variable {s s' : Schedules library} {action : ScheduleAction library} {key : String}
  {definition : RegisteredSchedule library} {active : ℕ} {now : DbMillis} {report : Report}
  {store store' : ScheduleStore} {r r' : OccurrenceRow}

/-- The queued runs of a schedule, read off all rows. -/
theorem queued_eq (store : ScheduleStore) (key : String) : store.queued key =
    store.runs.toList.filter fun r => r.scheduleKey == key && r.status == .queued :=
  Table.select_eq_filter ..

theorem mem_queued : r ∈ store.queued key ↔
    r ∈ store.runs.toList ∧ r.scheduleKey = key ∧ r.status = .queued := by
  rw [queued_eq, List.mem_filter, Bool.and_eq_true, beq_iff_eq, beq_iff_eq]

/-- The queue holds at most one run if any two of its runs are one. -/
theorem queued_le_one_iff : (store.queued key).length ≤ 1 ↔
    ∀ r ∈ store.queued key, ∀ r' ∈ store.queued key, r = r' := by
  have hsorted : (store.queued key).Pairwise fun r r' => r.id < r'.id := Table.pairwise_select
  generalize store.queued key = queue at hsorted
  match queue with
  | [] => simp
  | [r] => simp
  | r :: r' :: queue =>
    refine iff_of_false (by simp) fun h => ?_
    have hlt := (List.pairwise_cons.mp hsorted).1 r' List.mem_cons_self
    rw [h r List.mem_cons_self r' (List.mem_cons_of_mem r List.mem_cons_self)] at hlt
    exact lt_irrefl _ hlt

/-- Two rows with one id are one row. -/
theorem row_unique (hr : r ∈ store.runs.toList) (hr' : r' ∈ store.runs.toList) (hid : r.id = r'.id) :
    r = r' := by
  have hfind : store.runs.find r.id = some r := Table.mem_toList.mp hr
  have hfind' : store.runs.find r'.id = some r' := Table.mem_toList.mp hr'
  rw [hid, hfind'] at hfind
  exact (Option.some.inj hfind).symm

/-- The rows of a tick: those before it, of which a queued one may be started, and
new ones with new ids. -/
structure QueueEffect (definition : RegisteredSchedule library) (active : ℕ)
    (s s' : ScheduleStore) (old new : List OccurrenceRow) : Prop where
  runs : s'.runs.toList = old ++ new
  key : ∀ r ∈ new, r.scheduleKey = definition.metadata.key
  fresh : ∀ r ∈ old, ∀ r' ∈ new, r.id ≠ r'.id
  kept : (old = s.runs.toList ∧ (s.queued definition.metadata.key ≠ [] → queuedCount new = 0) ∧
      ¬(definition.metadata.overlap = .queueOne ∧ active = 0 ∧
        s.queued definition.metadata.key ≠ [])) ∨
    ∃ r ∈ s.queued definition.metadata.key, definition.metadata.overlap = .queueOne ∧ active = 0 ∧
      old = s.runs.toList.map
        fun x => if x.id = r.id then x.begun (some "queue_one_promoted") else x
  room : queuedCount new ≤ 1

theorem queueEffect_of_ticked (ht : Ticked definition active now report store store') :
    ∃ old new, QueueEffect definition active store store' old new := by
  obtain ⟨state, o, next, due, new, p, p', s₁, s₂, -, hpromotes, -, -, -, hbatch, -, hmoves⟩ := ht
  have hruns : store'.runs = s₂.runs := by
    cases hmoves with
    | stays _ hstore => rw [hstore]
    | moves _ _ _ hstore =>
      subst hstore
      rfl
  have hkey : ∀ r ∈ new, r.scheduleKey = definition.metadata.key := by
    intro r hr
    have hslot : r.slot ∈ new.map OccurrenceRow.slot := List.mem_map_of_mem hr
    rw [hbatch.slots] at hslot
    obtain ⟨_, _, heq⟩ := List.mem_map.mp hslot
    exact (Prod.mk_inj.mp heq).1.symm
  have hfresh : ∀ r ∈ s₁.runs.toList, ∀ r' ∈ new, r.id ≠ r'.id := by
    have hsorted : s₂.runs.toList.Pairwise fun r r' => r.id < r'.id := Table.pairwise_select
    rw [hbatch.runs] at hsorted
    exact fun r hr r' hr' => ((List.pairwise_append.mp hsorted).2.2 r hr r' hr').ne
  have hroom : queuedCount new ≤ 1 := by
    by_contra hmany
    have := (hbatch.room (by omega)).2
    omega
  refine ⟨s₁.runs.toList, new, by rw [hruns, hbatch.runs], hkey, hfresh, ?_, hroom⟩
  cases hpromotes with
  | kept idle hstore _ queued =>
    subst hstore
    refine .inl ⟨rfl, fun hne => ?_, idle⟩
    by_contra hpos
    rw [(hbatch.room (Nat.pos_of_ne_zero hpos)).1] at queued
    exact Bool.false_ne_true (queued.mpr hne)
  | promoted r mem policy idle runs => exact .inr ⟨r, mem, policy, idle, runs⟩

/-- A new row has the id of no row before the tick. -/
theorem QueueEffect.id_ne {old new : List OccurrenceRow}
    (h : QueueEffect definition active store store' old new) (hr : r ∈ store.runs.toList)
    (hr' : r' ∈ new) : r.id ≠ r'.id := by
  rcases h.kept with ⟨rfl, -⟩ | ⟨x, -, -, -, rfl⟩
  · exact h.fresh r hr r' hr'
  · have hfresh := h.fresh _ (List.mem_map.mpr ⟨r, hr, rfl⟩) r' hr'
    split at hfresh <;> exact hfresh

/-- The queue after a tick: a promotion leaves nothing of the queue before it. -/
theorem QueueEffect.queued {old new : List OccurrenceRow}
    (h : QueueEffect definition active store store' old new)
    (hone : (store.queued definition.metadata.key).length ≤ 1) :
    store'.queued definition.metadata.key =
      (if definition.metadata.overlap = .queueOne ∧ active = 0 then []
        else store.queued definition.metadata.key) ++ new.filter (·.status == .queued) := by
  rw [queued_eq, h.runs, List.filter_append]
  congr 1
  · rcases h.kept with ⟨rfl, -, hidle⟩ | ⟨r, hr, hpolicy, hactive, rfl⟩
    · rw [← queued_eq]
      split
      · rename_i hpromotes
        exact not_not.mp fun hne => hidle ⟨hpromotes.1, hpromotes.2, hne⟩
      · rfl
    · rw [if_pos ⟨hpolicy, hactive⟩, List.filter_eq_nil_iff]
      intro x hx hqueued
      obtain ⟨y, hy, rfl⟩ := List.mem_map.mp hx
      rw [Bool.and_eq_true, beq_iff_eq, beq_iff_eq] at hqueued
      split at hqueued
      · cases hqueued.2
      · -- a second row of the queue would be the first
        rename_i hne
        have hy' : y ∈ store.queued definition.metadata.key := mem_queued.mpr ⟨hy, hqueued⟩
        exact hne (congrArg OccurrenceRow.id (queued_le_one_iff.mp hone y hy' r hr))
  · refine List.filter_congr fun r hr => ?_
    rw [h.key r hr, beq_self_eq_true, Bool.true_and]

/-- A tick queues at most one run. -/
theorem QueueEffect.queued_le {old new : List OccurrenceRow}
    (h : QueueEffect definition active store store' old new)
    (hone : (store.queued definition.metadata.key).length ≤ 1) :
    (store'.queued definition.metadata.key).length ≤ 1 := by
  have hnew : (new.filter (·.status == .queued)).length = queuedCount new :=
    List.countP_eq_length_filter.symm
  have hroom := h.room
  rw [h.queued hone, List.length_append, hnew]
  split
  · simpa using hroom
  · rename_i hstays
    rcases h.kept with ⟨-, hfull, -⟩ | ⟨r, -, hpolicy, hactive, -⟩
    · by_cases hempty : store.queued definition.metadata.key = []
      · simpa [hempty] using hroom
      · rw [hfull hempty]
        exact hone
    · exact absurd ⟨hpolicy, hactive⟩ hstays

/-- What becomes of a row in a tick: only a queued run of the schedule is written, and
only if the policy is `queueOne` and no workflow was counted. -/
theorem QueueEffect.row {old new : List OccurrenceRow}
    (h : QueueEffect definition active store store' old new) (hr : r ∈ store.runs.toList) :
    r ∈ store'.runs.toList ∨ (r ∈ store.queued definition.metadata.key ∧
      definition.metadata.overlap = .queueOne ∧ active = 0 ∧
      r.begun (some "queue_one_promoted") ∈ store'.runs.toList) := by
  rw [h.runs]
  rcases h.kept with ⟨rfl, -⟩ | ⟨r', hr', hpolicy, hactive, rfl⟩
  · exact .inl (List.mem_append_left _ hr)
  · have hmap : (if r.id = r'.id then r.begun (some "queue_one_promoted") else r) ∈
        (store.runs.toList.map fun x =>
          if x.id = r'.id then x.begun (some "queue_one_promoted") else x) ++ new :=
      List.mem_append_left _ (List.mem_map.mpr ⟨r, hr, rfl⟩)
    split at hmap
    · rename_i hid
      obtain rfl := row_unique hr (mem_queued.mp hr').1 hid
      exact .inr ⟨hr', hpolicy, hactive, hmap⟩
    · exact .inl hmap

/-- A row after a tick is a row before it, the promotion of one, or a new one of the
schedule. -/
theorem QueueEffect.origin {old new : List OccurrenceRow}
    (h : QueueEffect definition active store store' old new) (hr : r ∈ store'.runs.toList) :
    r ∈ store.runs.toList ∨ r.scheduleKey = definition.metadata.key := by
  rw [h.runs, List.mem_append] at hr
  rcases hr with hr | hr
  · rcases h.kept with ⟨rfl, -⟩ | ⟨r', hr', -, -, rfl⟩
    · exact .inl hr
    · obtain ⟨x, hx, rfl⟩ := List.mem_map.mp hr
      split
      · rename_i hid
        obtain rfl := row_unique hx (mem_queued.mp hr').1 hid
        exact .inr (mem_queued.mp hr').2.1
      · exact .inl hx
  · exact .inr (h.key r hr)

/-- At most one run of a schedule is queued. -/
def OneQueued (s : ScheduleStore) : Prop := ∀ key, (s.queued key).length ≤ 1

/-- New rows that are not queued. -/
theorem queued_append {new : List OccurrenceRow} (hruns : store'.runs.toList = store.runs.toList ++ new)
    (hnew : ∀ r ∈ new, r.status ≠ .queued) : store'.queued key = store.queued key := by
  have hnone : new.filter (fun r => r.scheduleKey == key && r.status == .queued) = [] := by
    rw [List.filter_eq_nil_iff]
    intro r hr hqueued
    rw [Bool.and_eq_true, beq_iff_eq, beq_iff_eq] at hqueued
    exact hnew r hr hqueued.2
  rw [queued_eq, queued_eq, hruns, List.filter_append, hnone, List.append_nil]

theorem OneQueued.ticked (h : OneQueued store)
    (ht : Ticked definition active now report store store') : OneQueued store' := by
  intro key
  obtain ⟨old, new, heffect⟩ := queueEffect_of_ticked ht
  by_cases hkey : definition.metadata.key = key
  · subst hkey
    exact heffect.queued_le (h _)
  · -- the queue of another schedule has no new row
    have hsubset : ∀ r ∈ store'.queued key, r ∈ store.queued key := by
      intro r hr
      obtain ⟨hmem, hrkey, hqueued⟩ := mem_queued.mp hr
      rcases heffect.origin hmem with hold | hnew
      · exact mem_queued.mpr ⟨hold, hrkey, hqueued⟩
      · exact absurd (hnew.symm.trans hrkey) hkey
    rw [queued_le_one_iff]
    exact fun r hr r' hr' => queued_le_one_iff.mp (h key) r (hsubset r hr) r' (hsubset r' hr')

/-- What a step does to the run rows: nothing, a tick, or a new run that is started. -/
theorem Transits.runs (ht : Transits externals s action s') :
    s'.store.runs = s.store.runs ∨
    (∃ key handler closedAt definition active now report, action = .close key handler closedAt ∧
      s.held key = some (.tick definition active now) ∧
      Ticked definition active now report s.store s'.store) ∨
    ∃ r, s'.store.runs.toList = s.store.runs.toList ++ [r] ∧ r.status = .started := by
  cases ht with
  | engine | tickPaused | tickOpened | runNowOpened | rolledBack | abandoned | paused => exact .inl rfl
  | reconciled _ hr =>
    cases hr with
    | inserted _ _ _ hstore | kept hstore | upgraded _ _ _ _ _ _ hstore =>
      subst hstore
      exact .inl rfl
  | @ticked key handler closedAt now definition active report _ held ticked =>
    exact .inr (.inl ⟨key, handler, closedAt, definition, active, now, report, rfl, held, ticked⟩)
  | ranNow _ ran => exact .inr (.inr ⟨_, ran.runs, ran.status⟩)

theorem OneQueued.transits (h : OneQueued s.store) (ht : Transits externals s action s') :
    OneQueued s'.store := by
  rcases ht.runs with hruns | ⟨_, _, _, _, _, _, _, -, -, hticked⟩ | ⟨r, hruns, hstatus⟩
  · intro key
    rw [queued_eq, hruns, ← queued_eq]
    exact h key
  · exact h.ticked hticked
  · intro key
    rw [queued_append hruns fun x hx => ?_]
    · exact h key
    · rw [List.mem_singleton.mp hx, hstatus]
      decide

theorem run_oneQueued (externals : Externals) (actions : List (ScheduleAction library)) :
    OneQueued (run externals init actions).store := by
  have hrun : (run externals init actions).Inv ∧ OneQueued (run externals init actions).store := by
    refine Machine.run_invariant (P := fun s : Schedules library => s.Inv ∧ OneQueued s.store) ?_
      ⟨.init, fun _ => Nat.zero_le 1⟩ actions
    rintro s action s' ⟨hs, h⟩ hok
    have htransits := exec_transits hs hok
    exact ⟨hs.transits htransits, h.transits htransits⟩
  exact hrun.2

/-- What becomes of a row in a step: a run that is not queued is never written again,
and a queued one is started by a tick that counted no active workflow. -/
theorem Transits.row (hs : s.Inv) (ht : Transits externals s action s')
    (hr : r ∈ s.store.runs.toList) :
    r ∈ s'.store.runs.toList ∨ (r.status = .queued ∧
      r.begun (some "queue_one_promoted") ∈ s'.store.runs.toList ∧
      ∃ definition now handler closedAt, action = .close r.scheduleKey handler closedAt ∧
        s.held r.scheduleKey = some (.tick definition 0 now) ∧
        definition.metadata.overlap = .queueOne) := by
  rcases ht.runs with hruns | ⟨key, handler, closedAt, definition, active, now, report, rfl, hheld,
    hticked⟩ | ⟨r', hruns, -⟩
  · rw [hruns]
    exact .inl hr
  · obtain ⟨old, new, heffect⟩ := queueEffect_of_ticked hticked
    refine (heffect.row hr).imp_right fun ⟨hqueued, hpolicy, hactive, hbegun⟩ => ?_
    obtain ⟨-, hkey, hstatus⟩ := mem_queued.mp hqueued
    have hholder : definition.metadata.key = key := (hs.held key _ hheld).1
    subst hactive
    rw [hholder] at hkey
    rw [hkey]
    exact ⟨hstatus, hbegun, definition, now, handler, closedAt, rfl, hheld, hpolicy⟩
  · rw [hruns]
    exact .inl (List.mem_append_left _ hr)

end Queue

section Overlaps

variable {definition : RegisteredSchedule library} {active : ℕ} {now : DbMillis} {report : Report}
  {store store' : ScheduleStore} {key : String} {holder : Holder library}
  {actions : List (ScheduleAction library)}

/-- Under a policy that allows no overlaps a tick starts at most one workflow, and
none if it counted an active one. -/
theorem starts_of_ticked (ht : Ticked definition active now report store store')
    (hpolicy : definition.metadata.overlap ≠ .allow) :
    store'.workflowCount ≤ store.workflowCount + 1 ∧
      (store.workflowCount < store'.workflowCount → active = 0) := by
  obtain ⟨state, o, next, due, new, p, p', s₁, s₂, -, hpromotes, -, -, -, hbatch, -, hmoves⟩ := ht
  have hmoved : store'.workflowCount = s₂.workflowCount := by
    cases hmoves with
    | stays _ hstore => rw [hstore]
    | moves _ _ _ hstore =>
      subst hstore
      rfl
  have hcount := hbatch.workflows
  have hfree := hbatch.free hpolicy
  cases hpromotes with
  | kept _ hstore counted =>
    subst hstore
    omega
  | promoted _ _ _ idle _ _ begins counted =>
    have hbegun := begins.count
    omega

/-- When the holder of the schedule's lock took it, by `opening`, none of its workflows was
active, and those that are active now did not exist; no run was added since. -/
def CountedNone (externals : Externals) (actions : List (ScheduleAction library)) (key : String)
    (opening : ScheduleAction library) (holder : Holder library) : Prop :=
  ∃ before between, actions = before ++ opening :: between ∧
    HeldSince externals before opening between key holder ∧
    (run externals init actions).store.runIds key = (run externals init before).store.runIds key ∧
    (run externals init before).store.active key = [] ∧
    ∀ w ∈ (run externals init actions).store.active key,
      (run externals init before).store.sys.db.workflows.find w.id = none

theorem countedNone_of_opens {before between : List (ScheduleAction library)}
    {opening : ScheduleAction library} (hactions : actions = before ++ opening :: between)
    (hsince : HeldSince externals before opening between key holder)
    (hnone : (run externals init before).store.active key = [])
    (hruns : (run externals init actions).store.runIds key =
      (run externals init before).store.runIds key)
    (hleads : (run externals init before).store.Leads (run externals init actions).store) :
    CountedNone externals actions key opening holder := by
  refine ⟨before, between, hactions, hsince, hruns, hnone, fun w hw => ?_⟩
  refine (active_of_leads hleads hruns hw).resolve_left fun hmem => ?_
  rw [hnone] at hmem
  cases hmem

theorem countedNone_of_tick
    (hheld : (run externals init actions).held key = some (.tick definition 0 now)) :
    CountedNone externals actions key (.openTick definition now) (.tick definition 0 now) := by
  obtain ⟨before, opening, between, hactions, hsince, hopens, hruns, hleads⟩ :=
    run_counted externals actions key _ hheld
  generalize hholder : Holder.tick definition 0 now = holder at hopens
  cases hopens with
  | tick =>
    simp only [Holder.tick.injEq] at hholder
    obtain ⟨rfl, hcount, rfl⟩ := hholder
    rw [← hcount]
    exact countedNone_of_opens hactions hsince (List.length_eq_zero_iff.mp hcount.symm) hruns hleads
  | runNow => cases hholder

theorem countedNone_of_runNow {operator : Operator}
    (hheld : (run externals init actions).held key = some (.runNow definition operator))
    (hpolicy : definition.metadata.overlap ≠ .allow) :
    CountedNone externals actions key (.openRunNow definition operator)
      (.runNow definition operator) := by
  obtain ⟨before, opening, between, hactions, hsince, hopens, hruns, hleads⟩ :=
    run_counted externals actions key _ hheld
  cases hopens with
  | runNow _ idle =>
    exact countedNone_of_opens hactions hsince (idle.resolve_left hpolicy) hruns hleads

/-- **Overlaps**: under a policy that allows none, a tick or run-now starts a workflow
only if it counted no active one after it took the lock of the schedule, and a tick
starts at most one; at most one run of a schedule is queued, a queued run is started
only by such a tick under the policy `queueOne`, and a run that is not queued is never
written again. -/
theorem run_overlap (externals : Externals) (actions : List (ScheduleAction library)) :
    let s := run externals init actions
    (∀ key definition active now handler report store,
      s.held key = some (.tick definition active now) → definition.metadata.overlap ≠ .allow →
      materializeDue definition handler active now s.store = .ok (report, store) →
      store.workflowCount ≤ s.store.workflowCount + 1 ∧
        (s.store.workflowCount < store.workflowCount →
          CountedNone externals actions key (.openTick definition now)
            (.tick definition 0 now))) ∧
    (∀ key definition operator handler now id store,
      s.held key = some (.runNow definition operator) → definition.metadata.overlap ≠ .allow →
      startRunNow definition handler operator now s.store = .ok (id, store) →
      store.workflowCount = s.store.workflowCount + 1 ∧
        CountedNone externals actions key (.openRunNow definition operator)
          (.runNow definition operator)) ∧
    (∀ key, (s.store.queued key).length ≤ 1) ∧
    (∀ action, ∀ r ∈ s.store.runs.toList, r ∈ (step externals s action).store.runs.toList ∨
      (r.status = .queued ∧
        r.begun (some "queue_one_promoted") ∈ (step externals s action).store.runs.toList ∧
        ∃ definition now, s.held r.scheduleKey = some (.tick definition 0 now) ∧
          definition.metadata.overlap = .queueOne ∧
          CountedNone externals actions r.scheduleKey (.openTick definition now)
            (.tick definition 0 now))) ∧
    ∀ more, ∀ r ∈ s.store.runs.toList, r.status ≠ .queued →
      r ∈ (run externals s more).store.runs.toList := by
  intro s
  have hs : s.Inv := run_inv externals actions
  refine ⟨fun key definition active now handler report store hheld hpolicy htick => ?_,
    fun key definition operator handler now id store hheld hpolicy hstart => ?_,
    run_oneQueued externals actions, fun action r hr => ?_, fun more r hr hstatus => ?_⟩
  · obtain ⟨hle, hzero⟩ := starts_of_ticked (wp_ok (wp_tick hs hheld) htick) hpolicy
    refine ⟨hle, fun hlt => countedNone_of_tick ?_⟩
    rw [← hzero hlt]
    exact hheld
  · obtain ⟨row, hran⟩ := wp_ok wp_startRunNow hstart
    exact ⟨hran.begins.count, countedNone_of_runNow hheld hpolicy⟩
  · cases hexec : exec externals s action with
    | error stop =>
      rw [step, Machine.step_of_error hexec]
      exact .inl hr
    | ok s' =>
      rw [step, Machine.step_of_ok hexec]
      refine ((exec_transits hs hexec).row hs hr).imp_right ?_
      rintro ⟨hqueued, hbegun, definition, now, handler, closedAt, -, hheld, hpolicy⟩
      exact ⟨hqueued, hbegun, definition, now, hheld, hpolicy, countedNone_of_tick hheld⟩
  · have hrun : (run externals s more).Inv ∧ r ∈ (run externals s more).store.runs.toList := by
      refine Machine.run_invariant
        (P := fun s : Schedules library => s.Inv ∧ r ∈ s.store.runs.toList) ?_ ⟨hs, hr⟩ more
      rintro s action s' ⟨hs, hr⟩ hok
      have htransits := exec_transits hs hok
      exact ⟨hs.transits htransits, (htransits.row hs hr).resolve_right fun h => hstatus h.1⟩
    exact hrun.2

end Overlaps

end Schedules

namespace Sample

/-- The first minute of a schedule starts a workflow. -/
def firstMinute (overlap : OverlapPolicy) : List (ScheduleAction calendars) :=
  [.reconcile (schedule 1 overlap) 0, .openTick (schedule 1 overlap) 70000, .close "s" handler 70000]

/-- The workflow of the first minute completes. -/
def firstCompletes (now : DbMillis) : List (ScheduleAction calendars) :=
  (activation 0 (.complete "null") now).map .engine

/-- The tick of the second minute has counted no active workflow when the workflow
of the first one is restarted. -/
def restarted : Schedules calendars :=
  Schedules.run Sample.externals .init (firstMinute .skipIfActive ++ firstCompletes 80000 ++
    [.openTick (schedule 1 .skipIfActive) 150000, .engine (.restart workflows 1 none operator 151000)])

/-- The tick starts a workflow while the restarted one is active. -/
theorem restarted_overlaps : restarted.held "s" = some (.tick (schedule 1 .skipIfActive) 0 150000) ∧
    (restarted.store.active "s").map (·.id) = [2] ∧
    ∃ report store, materializeDue (schedule 1 .skipIfActive) handler 0 150000 restarted.store =
        .ok (report, store) ∧
      restarted.store.workflowCount = 2 ∧ store.workflowCount = 3 ∧
      (store.active "s").map (·.id) = [2, 3] := by
  have hactive : (restarted.store.active "s").map (·.id) = [2] := by decide +kernel
  have hcount : (match materializeDue (schedule 1 .skipIfActive) handler 0 150000 restarted.store with
      | .ok (_, store) => restarted.store.workflowCount == 2 && store.workflowCount == 3 &&
          (store.active "s").map (·.id) == [2, 3]
      | .error _ => false) = true := by
    decide +kernel
  refine ⟨rfl, hactive, ?_⟩
  cases htick : materializeDue (schedule 1 .skipIfActive) handler 0 150000 restarted.store with
  | error e =>
    rw [htick] at hcount
    cases hcount
  | ok r =>
    rw [htick] at hcount
    simp only [Bool.and_eq_true, beq_iff_eq] at hcount
    exact ⟨r.1, r.2, rfl, hcount.1.1, hcount.1.2, hcount.2⟩

end Sample

namespace Schedules

/-- **Promotions**: a tick that counted no active workflow leaves no run in the queue
that was there before exactly if its policy is `queueOne` or the queue was empty. -/
theorem run_promotions (externals : Externals) (actions : List (ScheduleAction library)) :
    let s := run externals init actions
    ∀ key definition now handler report store, s.held key = some (.tick definition 0 now) →
      materializeDue definition handler 0 now s.store = .ok (report, store) →
      ((∀ r ∈ s.store.queued key, ∀ r' ∈ store.queued key, r'.id ≠ r.id) ↔
        definition.metadata.overlap = .queueOne ∨ s.store.queued key = []) := by
  intro s key definition now handler report store hheld htick
  have hs : s.Inv := run_inv externals actions
  obtain ⟨old, new, heffect⟩ := queueEffect_of_ticked (wp_ok (wp_tick hs hheld) htick)
  obtain rfl : definition.metadata.key = key := (hs.held key _ hheld).1
  have hqueued := heffect.queued (run_oneQueued externals actions _)
  rw [hqueued]
  constructor
  · intro hnone
    by_contra hstays
    rw [not_or] at hstays
    rw [if_neg fun h => hstays.1 h.1] at hnone
    obtain ⟨r, hr⟩ := List.exists_mem_of_ne_nil _ hstays.2
    exact hnone r hr r (List.mem_append_left _ hr) rfl
  · rintro (hpolicy | hempty) r hr r' hr'
    · rw [if_pos ⟨hpolicy, rfl⟩, List.nil_append] at hr'
      exact (heffect.id_ne (mem_queued.mp hr).1 (List.mem_of_mem_filter hr')).symm
    · rw [hempty] at hr
      cases hr

end Schedules

namespace Sample

/-- The second minute is queued behind the workflow of the first one, which then
completes; the schedule is upgraded to another policy, and a tick counts no active
workflow. -/
def requeued : Schedules calendars :=
  Schedules.run Sample.externals .init (firstMinute .queueOne ++
    [.openTick (schedule 1 .queueOne) 130000, .close "s" handler 130000] ++ firstCompletes 135000 ++
    [.reconcile (schedule 2 .skipIfActive) 140000, .openTick (schedule 2 .skipIfActive) 150000])

/-- The queued run stays queued. -/
theorem requeued_abandoned : requeued.held "s" = some (.tick (schedule 2 .skipIfActive) 0 150000) ∧
    (requeued.store.queued "s").map (·.id) = [2] ∧
    ∃ report store, materializeDue (schedule 2 .skipIfActive) handler 0 150000 requeued.store =
        .ok (report, store) ∧ (store.queued "s").map (·.id) = [2] := by
  have hqueued : (requeued.store.queued "s").map (·.id) = [2] := by decide +kernel
  have hstays : (match materializeDue (schedule 2 .skipIfActive) handler 0 150000 requeued.store with
      | .ok (_, store) => (store.queued "s").map (·.id) == [2]
      | .error _ => false) = true := by
    decide +kernel
  refine ⟨rfl, hqueued, ?_⟩
  cases htick : materializeDue (schedule 2 .skipIfActive) handler 0 150000 requeued.store with
  | error e =>
    rw [htick] at hstays
    cases hstays
  | ok r =>
    rw [htick] at hstays
    exact ⟨r.1, r.2, rfl, beq_iff_eq.mp hstays⟩

end Sample

end DurableWorkflows
