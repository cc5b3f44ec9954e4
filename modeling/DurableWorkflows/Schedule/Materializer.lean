import DurableWorkflows.Engine.System
import DurableWorkflows.Schedule.Calendar

/-!
# Schedules

`ScheduleRegistry` and `ScheduleMaterializer` with the operator's schedule
controls: the reconciliation of the persisted definition (T-S1), the tick that
records the due occurrences and starts their workflows (T-S2), the pause and
resume of a schedule (T-A8) and the run-now (T-A9).

A tick and a run-now lock the state row of the schedule, count its active
workflows and then write. The lock keeps other ticks and run-nows out, but it
does not hold the workflows: `openTick` and `openRunNow` end with the count, and
`materializeDue` and `startRunNow` are the rest.
-/

namespace DurableWorkflows

open Transaction

-- ════════════════════════════════════════════════════════════════════════
-- Definitions
-- ════════════════════════════════════════════════════════════════════════

/-- `MisfirePolicy`. -/
inductive MisfirePolicy
  | skip
  | runLatest
  | catchUp (maxOccurrences : ℕ)
  deriving DecidableEq, Repr

/-- `OverlapPolicy`. -/
inductive OverlapPolicy
  | allow
  | skipIfActive
  | queueOne
  deriving DecidableEq, Repr

/-- The `Debug` text of an overlap policy. -/
def OverlapPolicy.debug : OverlapPolicy → String
  | allow => "Allow"
  | skipIfActive => "SkipIfActive"
  | queueOne => "QueueOne"

/-- The constants of a `DurableSchedule`. -/
structure DurableSchedule where
  key : String
  version : ℤ
  cron : String
  timezone : String
  misfire : MisfirePolicy
  overlap : OverlapPolicy
  misfireGraceMillis : ℕ
  deriving DecidableEq

/-- `definition_fingerprint`: the digest stands for the constants it is taken of. -/
abbrev Fingerprint := DurableSchedule

/-- The packages behind calendars: the cron parser and the time zone database. -/
structure CalendarLibrary where
  cron : String → Except String Cron
  timezone : String → Option TimeZone

/-- `ScheduleCalendar::new`. -/
def ScheduleCalendar.new (library : CalendarLibrary) (cron timezone : String) :
    Except DurableError ScheduleCalendar :=
  match library.cron cron, library.timezone timezone with
  | .error error, _ => .error (.invalidDefinition s!"invalid schedule cron `{cron}`: {error}")
  | .ok _, none => .error (.invalidDefinition s!"invalid schedule IANA timezone `{timezone}`")
  | .ok schedule, some timezone => .ok ⟨schedule, timezone⟩

/-- `MAX_SCHEDULE_KEY_BYTES`. -/
def maxScheduleKeyBytes : ℕ := 191

/-- The characters of a schedule key. -/
def scheduleKeyChar (c : Char) : Bool := c.isLower || c.isDigit || c == '_'

/-- A key without a leading, trailing or doubled underscore. -/
def validScheduleKey (key : String) : Bool :=
  let chars := key.toList
  !chars.isEmpty && key.utf8ByteSize ≤ maxScheduleKeyBytes && chars.head? != some '_' &&
    chars.getLast? != some '_' && (chars.zip chars.tail).all (· != ('_', '_')) &&
    chars.all scheduleKeyChar

/-- `RegisteredSchedule`: the constants with the calendar they name. -/
structure RegisteredSchedule (library : CalendarLibrary) where
  metadata : DurableSchedule
  calendar : ScheduleCalendar
  named : ScheduleCalendar.new library metadata.cron metadata.timezone = .ok calendar

-- ════════════════════════════════════════════════════════════════════════
-- Rows
-- ════════════════════════════════════════════════════════════════════════

/-- `durable_schedule_state`. -/
structure ScheduleStateRow where
  scheduleKey : String
  definitionFingerprint : Fingerprint
  definitionVersion : ℤ
  nextLocalOccurrence : LocalOccurrence
  nextOccurrenceAt : DbMillis
  lastMaterializedAt : Option DbMillis
  pausedAt : Option DbMillis
  pausedBy : Option ℤ
  pauseReason : Option String
  createdAt : DbMillis
  updatedAt : DbMillis
  deriving DecidableEq

/-- `ScheduleRunStatus`. -/
inductive ScheduleRunStatus
  | queued
  | materializing
  | started
  | skipped
  | coalesced
  deriving DecidableEq, Repr

/-- `local_occurrence`: the key of an occurrence, or `manual:{t}` of a run-now. -/
inductive OccurrenceKey
  | local (occurrence : LocalOccurrence)
  | manual (scheduledFor : DbMillis)
  deriving DecidableEq

/-- The occurrence of a row that is not a run-now. -/
def OccurrenceKey.occurrence : OccurrenceKey → Option LocalOccurrence
  | .local occurrence => some occurrence
  | .manual _ => none

/-- `durable_schedule_run` without its `workflow_id`, which is a column of the
engine's `ScheduleRunRow`. -/
structure OccurrenceRow where
  id : ScheduleRunId
  scheduleKey : String
  localOccurrence : OccurrenceKey
  scheduledFor : DbMillis
  materializedAt : DbMillis
  status : ScheduleRunStatus
  reason : Option String
  actorId : Option ℤ
  createdAt : DbMillis
  deriving DecidableEq

instance : Keyed OccurrenceRow := ⟨OccurrenceRow.id⟩

/-- The engine with the schedule tables. -/
structure ScheduleStore where
  sys : Sys
  states : String → Option ScheduleStateRow
  runs : Table OccurrenceRow

/-- The store after the migrations. -/
def ScheduleStore.init : ScheduleStore := ⟨.init, fun _ => none, .empty⟩

/-- Transactions over the engine's tables and the schedule tables. -/
abbrev ScheduleTx (α : Type) : Type := Transaction ScheduleStore DurableError α

/-- `durable_schedule_run` inside the store. -/
def occurrenceTable : TableOf ScheduleStore OccurrenceRow :=
  ⟨ScheduleStore.runs, fun t s => { s with runs := t }⟩

/-- Statements on the engine's tables. -/
def onEngine {α : Type} (x : Tx α) : ScheduleTx α := fun s =>
  match x s.sys.db with
  | .ok (a, db) => .ok (a, { s with sys := { s.sys with db } })
  | .error e => .error e

/-- A write of a state row. -/
def writeState (row : ScheduleStateRow) : ScheduleTx Unit :=
  modify fun s => { s with states := Function.update s.states row.scheduleKey (some row) }

/-- `dialect::insert_schedule_state_if_absent`. -/
def insertScheduleStateIfAbsent (row : ScheduleStateRow) : ScheduleTx Bool := do
  let s ← read
  match s.states row.scheduleKey with
  | some _ => return false
  | none =>
    writeState row
    return true

/-- The locked state row of a schedule. -/
def lockState (key : String) : ScheduleTx ScheduleStateRow := do
  let s ← read
  orAbort (s.states key) (.database .notFound)

-- ════════════════════════════════════════════════════════════════════════
-- Cursors and the reconciliation of a definition (T-S1)
-- ════════════════════════════════════════════════════════════════════════

/-- `MaterializedFloor::load`: the largest local occurrence with a run row. -/
def materializedFloor (key : String) : ScheduleTx (Option LocalOccurrence) := do
  let rows ← selectRows occurrenceTable fun r => r.scheduleKey == key
  return (rows.filterMap (·.localOccurrence.occurrence)).max?

/-- `ScheduleCursor::upgrade`. -/
def upgradeCursor (calendar : ScheduleCalendar) (now : DbMillis) (floor : Option LocalOccurrence) :
    Except DurableError ScheduleOccurrence := do
  let next ← calendar.nextAfter now
  match floor with
  | none => return next
  | some floor =>
    if next.localOccurrence ≤ floor then calendar.nextAfterLocal floor.datetime else return next

/-- `ScheduleCursor::advance_to`. -/
def advanceTo (cursor next : LocalOccurrence) : Except DurableError LocalOccurrence :=
  if cursor < next then
    .ok next
  else
    .error (.invalidState (.cursorMustAdvance next.datetime cursor.datetime))

/-- `ScheduleStateReconcileOutcome`. -/
inductive ReconcileOutcome
  | inserted
  | preserved
  | upgraded
  | newerPersisted
  deriving DecidableEq, Repr

/-- The state row of a schedule that has none. -/
def initialState (schedule : DurableSchedule) (next : ScheduleOccurrence) (now : DbMillis) :
    ScheduleStateRow where
  scheduleKey := schedule.key
  definitionFingerprint := schedule
  definitionVersion := schedule.version
  nextLocalOccurrence := next.localOccurrence
  nextOccurrenceAt := next.dueAt
  lastMaterializedAt := none
  pausedAt := none
  pausedBy := none
  pauseReason := none
  createdAt := now
  updatedAt := now

variable {library : CalendarLibrary}

/-- The upgrade of a state row to a newer definition. -/
def upgradeState (definition : RegisteredSchedule library) (row : ScheduleStateRow)
    (deployedAt : DbMillis) : ScheduleTx Unit := do
  let floor ← materializedFloor definition.metadata.key
  let target ← ofExcept (upgradeCursor definition.calendar deployedAt floor)
  writeState { row with
    definitionFingerprint := definition.metadata
    definitionVersion := definition.metadata.version
    nextLocalOccurrence := target.localOccurrence
    nextOccurrenceAt := target.dueAt
    updatedAt := deployedAt }

/-- `reconcile_state` (T-S1). -/
def reconcileState (definition : RegisteredSchedule library) (now : DbMillis) :
    ScheduleTx ReconcileOutcome := do
  let metadata := definition.metadata
  let deployedAt ← orAbort (dateTimeFromMillis now)
    (.invalidDefinition "schedule deployment timestamp is invalid")
  let next ← ofExcept (definition.calendar.nextAfter deployedAt)
  let inserted ← insertScheduleStateIfAbsent (initialState metadata next now)
  let row ← lockState metadata.key
  if inserted then
    return .inserted
  else if metadata.version < row.definitionVersion then
    return .newerPersisted
  else if row.definitionVersion = metadata.version then
    ensure (row.definitionFingerprint = metadata) (.conflict
      s!"schedule {metadata.key} v{metadata.version} metadata changed without a version bump")
    return .preserved
  else
    upgradeState definition row now
    return .upgraded

-- ════════════════════════════════════════════════════════════════════════
-- The due occurrences
-- ════════════════════════════════════════════════════════════════════════

/-- `MAX_DUE_OCCURRENCES_PER_TICK`. -/
def maxDueOccurrencesPerTick : ℕ := 10000

/-- `OccurrenceOutcome`. -/
inductive OccurrenceOutcome
  | start
  | skip (reason : String)
  | coalesce
  deriving DecidableEq, Repr

/-- The first loop of `plan_due_chunk`: up to `room` due occurrences, and the
occurrence after them. -/
def collectDue (calendar : ScheduleCalendar) (now : DbMillis) :
    ℕ → ScheduleOccurrence → Except DurableError (List ScheduleOccurrence × ScheduleOccurrence)
  | 0, occurrence => .ok ([], occurrence)
  | room + 1, occurrence =>
    if occurrence.dueAt ≤ now then do
      let next ← calendar.nextAfterLocal occurrence.localDatetime
      let (due, next) ← collectDue calendar now room next
      return (occurrence :: due, next)
    else
      .ok ([], occurrence)

/-- The runs that a misfire policy allows for one backlog. -/
def misfireBudget : MisfirePolicy → ℕ
  | .skip => 0
  | .runLatest => 1
  | .catchUp maxOccurrences => maxOccurrences

/-- The second loop of `plan_due_chunk`: the runnable occurrences behind the
chunk, up to `budget`. -/
def countFollowing (calendar : ScheduleCalendar) (now : DbMillis) :
    ℕ → NaiveDateTime → Except DurableError ℕ
  | 0, _ => .ok 0
  | budget + 1, after => do
    match ← calendar.nextRunnableThrough after now with
    | none => return 0
    | some next =>
      let following ← countFollowing calendar now budget next.localDatetime
      return following + 1

/-- The outcomes of the runnable occurrences of a chunk, in order. -/
def runnableOutcomes (runnable : List ScheduleOccurrence) (policy : MisfirePolicy)
    (graceMillis : ℤ) (now : DbMillis) (followingRunnable : ℕ) : List OccurrenceOutcome :=
  match policy with
  | .skip => runnable.map fun occurrence =>
      if DbMillis.saturatingPlusMillis occurrence.dueAt graceMillis < now then
        .skip "misfire_skip"
      else
        .start
  | .runLatest => runnable.mapIdx fun index _ =>
      if index + 1 = runnable.length ∧ followingRunnable = 0 then .start else .coalesce
  | .catchUp maxOccurrences => runnable.mapIdx fun index _ =>
      if index < runnable.length - min (maxOccurrences - followingRunnable) runnable.length then
        .skip "catch_up_limit"
      else
        .start

/-- The outcomes of a chunk: those of the runnable occurrences, and a skip for
every occurrence in a gap. -/
def spreadOutcomes : List ScheduleOccurrence → List OccurrenceOutcome → List OccurrenceOutcome
  | [], _ => []
  | occurrence :: due, outcomes =>
    if occurrence.disposition = .gap then
      .skip "dst_gap" :: spreadOutcomes due outcomes
    else
      outcomes.headD (.skip "dst_gap") :: spreadOutcomes due outcomes.tail

/-- `classify`. -/
def classify (due : List ScheduleOccurrence) (policy : MisfirePolicy) (graceMillis : ℤ)
    (now : DbMillis) (followingRunnable : ℕ) : List OccurrenceOutcome :=
  spreadOutcomes due (runnableOutcomes (due.filter fun o => o.disposition ≠ .gap) policy
    graceMillis now followingRunnable)

/-- A chunk: its occurrences, the occurrence after them, and their outcomes. -/
abbrev DueChunk := List ScheduleOccurrence × ScheduleOccurrence × List OccurrenceOutcome

/-- `plan_due_chunk`, for any bound on the length of a chunk. -/
def planChunk (calendar : ScheduleCalendar) (bound : ℕ) (occurrence : ScheduleOccurrence)
    (policy : MisfirePolicy) (graceMillis : ℤ) (now : DbMillis) :
    Except DurableError DueChunk := do
  let (due, next) ← collectDue calendar now bound occurrence
  let followingRunnable ← match due.getLast? with
    | some last =>
      if next.dueAt ≤ now then countFollowing calendar now (misfireBudget policy) last.localDatetime
      else .ok 0
    | none => .ok 0
  return (due, next, classify due policy graceMillis now followingRunnable)

/-- `plan_due_chunk`. -/
def planDueChunk (calendar : ScheduleCalendar) (occurrence : ScheduleOccurrence)
    (policy : MisfirePolicy) (graceMillis : ℤ) (now : DbMillis) : Except DurableError DueChunk :=
  planChunk calendar maxDueOccurrencesPerTick occurrence policy graceMillis now

-- ════════════════════════════════════════════════════════════════════════
-- Runs
-- ════════════════════════════════════════════════════════════════════════

/-- What a `ScheduleHandler` starts for an occurrence: one workflow, through
`start_with_conn`, under the given run. -/
structure OccurrenceStart where
  workflow : PreparedWorkflowStart
  availableAt : Option DbMillis
  now : DbMillis

/-- The answers of a `ScheduleHandler` to the starts of one transaction. -/
abbrev ScheduleHandler := ScheduleRunId → DbMillis → Except DurableError OccurrenceStart

/-- `start_occurrence`. -/
def startOccurrence (handler : ScheduleHandler) (run : ScheduleRunId) (scheduledFor : DbMillis) :
    ScheduleTx WorkflowId := do
  let start ← ofExcept (handler run scheduledFor)
  let outcome ← onEngine
    (DurableWorkflows.start start.workflow ⟨start.availableAt, some run, none⟩ start.now)
  return outcome.workflowId

/-- `dialect::insert_schedule_run`. The id of `row` is replaced by a generated
one. -/
def insertScheduleRun (row : OccurrenceRow) : ScheduleTx ScheduleRunId := do
  let duplicates ← selectRows occurrenceTable fun r =>
    r.scheduleKey == row.scheduleKey && r.localOccurrence == row.localOccurrence
  ensure duplicates.isEmpty (.database (.uniqueViolation .scheduleRunOccurrence))
  let _ ← onEngine (insertRow scheduleRunTable fun id => ⟨id, none⟩)
  insertRow occurrenceTable fun id => { row with id }

theorem key_markStarted (workflowId : WorkflowId) (r : ScheduleRunRow) :
    Keyed.key ({ r with workflowId := some workflowId } : ScheduleRunRow) = Keyed.key r := rfl

/-- The run that follows its start: the filtered update of a run row to
`started`. -/
def markStarted (run : ScheduleRunId) (expected : ScheduleRunStatus) (reason : Option String)
    (workflowId : WorkflowId) : ScheduleTx Unit := do
  let changed ← updateRow occurrenceTable run (fun r => r.status == expected)
    fun r => { r with status := .started, reason := if reason.isSome then reason else r.reason }
  ensure (changed = 1) .fencedWrite
  let _ ← onEngine (updateRow scheduleRunTable run (fun _ => true)
    (fun r => { r with workflowId := some workflowId }) (key_markStarted workflowId))

/-- The runs of a schedule. -/
def ScheduleStore.runIds (s : ScheduleStore) (key : String) : List ScheduleRunId :=
  (s.runs.select fun r => r.scheduleKey == key).map (·.id)

/-- The non-terminal workflows of a schedule's runs. -/
def ScheduleStore.active (s : ScheduleStore) (key : String) : List WorkflowRow :=
  s.sys.db.workflows.select fun w =>
    !w.status.isTerminal && w.scheduleRunId.any fun run => (s.runIds key).contains run

/-- `active_workflow_count`. -/
def activeWorkflowCount (key : String) : ScheduleTx ℕ := do
  let s ← read
  return (s.active key).length

/-- The queued runs of a schedule. -/
def ScheduleStore.queued (s : ScheduleStore) (key : String) : List OccurrenceRow :=
  s.runs.select fun r => r.scheduleKey == key && r.status == .queued

/-- `queued_run_exists`. -/
def queuedRunExists (key : String) : ScheduleTx Bool := do
  let s ← read
  return !(s.queued key).isEmpty

/-- `promote_queued`. -/
def promoteQueued (key : String) (handler : ScheduleHandler) : ScheduleTx Unit := do
  let s ← read
  let run ← orAbort (orderBy (·.scheduledFor) (s.queued key)).head? (.database .notFound)
  let workflowId ← startOccurrence handler run.id run.scheduledFor
  markStarted run.id .queued (some "queue_one_promoted") workflowId

-- ════════════════════════════════════════════════════════════════════════
-- The tick (T-S2)
-- ════════════════════════════════════════════════════════════════════════

/-- `ScheduleMaterializationReport`. -/
structure Report where
  scheduleKey : String
  inspected : ℕ
  started : ℕ
  queued : ℕ
  skipped : ℕ
  coalesced : ℕ
  paused : Bool
  deriving DecidableEq, Repr

/-- `ScheduleMaterializationReport::empty`. -/
def Report.empty (key : String) : Report := ⟨key, 0, 0, 0, 0, 0, false⟩

/-- `u32::saturating_add` of one. -/
def U32.succ (n : ℕ) : ℕ := min (n + 1) U32.max

/-- What a tick keeps while it goes through the due occurrences: the counters
`active` and `queued` and the report. -/
structure Progress where
  active : ℕ
  queued : Bool
  report : Report

/-- The row of a due occurrence. -/
def dueRow (key : String) (occurrence : ScheduleOccurrence) (status : ScheduleRunStatus)
    (reason : Option String) (now : DbMillis) : OccurrenceRow where
  id := 0
  scheduleKey := key
  localOccurrence := .local occurrence.localOccurrence
  scheduledFor := occurrence.scheduledFor
  materializedAt := now
  status := status
  reason := reason
  actorId := none
  createdAt := now

/-- What the overlap policy makes of an outcome; `none` queues the occurrence. -/
def overlapOutcome (overlap : OverlapPolicy) (active : ℕ) (queued : Bool)
    (outcome : OccurrenceOutcome) : Option OccurrenceOutcome :=
  match outcome, overlap with
  | .start, .skipIfActive => some (if 0 < active then .skip "overlap_active" else .start)
  | .start, .queueOne =>
    if 0 < active then
      if queued then some (.skip "overlap_queue_full") else none
    else
      some .start
  | outcome, _ => some outcome

/-- `materialize_occurrence`. -/
def materializeOccurrence (key : String) (overlap : OverlapPolicy) (handler : ScheduleHandler)
    (now : DbMillis) (progress : Progress) (occurrence : ScheduleOccurrence)
    (outcome : OccurrenceOutcome) : ScheduleTx Progress := do
  let report := progress.report
  match overlapOutcome overlap progress.active progress.queued outcome with
  | none =>
    let _ ← insertScheduleRun (dueRow key occurrence .queued (some "overlap_queue_one") now)
    return { progress with
      queued := true, report := { report with queued := U32.succ report.queued } }
  | some .start =>
    let run ← insertScheduleRun (dueRow key occurrence .materializing none now)
    let workflowId ← startOccurrence handler run occurrence.scheduledFor
    markStarted run .materializing none workflowId
    return { progress with
      active := progress.active + 1, report := { report with started := U32.succ report.started } }
  | some (.skip reason) =>
    let _ ← insertScheduleRun (dueRow key occurrence .skipped (some reason) now)
    return { progress with report := { report with skipped := U32.succ report.skipped } }
  | some .coalesce =>
    let _ ← insertScheduleRun (dueRow key occurrence .coalesced (some "run_latest") now)
    return { progress with report := { report with coalesced := U32.succ report.coalesced } }

/-- The state row is that of the definition. -/
def ScheduleStateRow.matches (row : ScheduleStateRow) (schedule : DurableSchedule) : Prop :=
  row.definitionVersion = schedule.version ∧ row.definitionFingerprint = schedule

instance (row : ScheduleStateRow) (schedule : DurableSchedule) : Decidable (row.matches schedule) :=
  inferInstanceAs (Decidable (_ ∧ _))

/-- `materialize_schedule` up to the count of the active workflows; nothing is
counted if the schedule is paused. -/
def openTick (definition : RegisteredSchedule library) : ScheduleTx (Option ℕ) := do
  let key := definition.metadata.key
  let state ← lockState key
  ensure (state.matches definition.metadata)
    (.conflict s!"schedule {key} definition changed while materializing")
  if state.pausedAt.isSome then
    return none
  else
    let active ← activeWorkflowCount key
    return some active

/-- The promotion of the queued run of a schedule without active workflows. -/
def promoteIfIdle (overlap : OverlapPolicy) (key : String) (handler : ScheduleHandler)
    (active : ℕ) : ScheduleTx Progress := do
  let queued ← queuedRunExists key
  if overlap = .queueOne ∧ active = 0 ∧ queued = true then
    promoteQueued key handler
    return ⟨1, false, { Report.empty key with started := 1 }⟩
  else
    return ⟨active, queued, .empty key⟩

/-- The loop over the due occurrences. -/
def materializeAll (key : String) (overlap : OverlapPolicy) (handler : ScheduleHandler)
    (now : DbMillis) (progress : Progress)
    (due : List (ScheduleOccurrence × OccurrenceOutcome)) : ScheduleTx Progress :=
  foldEach due progress fun progress (occurrence, outcome) =>
    materializeOccurrence key overlap handler now progress occurrence outcome

/-- The cursor write that ends a tick. -/
def moveCursor (schedule : DurableSchedule) (state : ScheduleStateRow)
    (next : ScheduleOccurrence) (now : DbMillis) : ScheduleTx Unit := do
  let cursor ← ofExcept (advanceTo state.nextLocalOccurrence next.localOccurrence)
  let row ← lockState schedule.key
  ensure (row.matches schedule ∧ row.nextLocalOccurrence = state.nextLocalOccurrence) .fencedWrite
  writeState { row with
    nextLocalOccurrence := cursor
    nextOccurrenceAt := next.dueAt
    lastMaterializedAt := some now
    updatedAt := now }

/-- The rest of `materialize_schedule`, after the count of `active` workflows. -/
def materializeDue (definition : RegisteredSchedule library) (handler : ScheduleHandler)
    (active : ℕ) (now : DbMillis) : ScheduleTx Report := do
  let metadata := definition.metadata
  let state ← lockState metadata.key
  let progress ← promoteIfIdle metadata.overlap metadata.key handler active
  let occurrence ← ofExcept (definition.calendar.resolve state.nextLocalOccurrence.datetime)
  ensure (occurrence.localOccurrence = state.nextLocalOccurrence ∧
      occurrence.dueAt = state.nextOccurrenceAt)
    (.invalidState (.occurrencesDisagree metadata.key))
  let (due, next, outcomes) ← ofExcept (planDueChunk definition.calendar occurrence
    metadata.misfire metadata.misfireGraceMillis now)
  ensure (due.length ≤ U32.max) (.invalidState .occurrenceCountOverflow)
  let progress := { progress with report := { progress.report with inspected := due.length } }
  let progress ← materializeAll metadata.key metadata.overlap handler now progress
    (due.zip outcomes)
  if due.length = 0 then
    return progress.report
  else
    moveCursor metadata state next now
    return progress.report

-- ════════════════════════════════════════════════════════════════════════
-- Schedule controls (T-A8, T-A9)
-- ════════════════════════════════════════════════════════════════════════

/-- `lock_schedule_state` and `validate_schedule_state`. -/
def lockScheduleState (schedule : DurableSchedule) : ScheduleTx ScheduleStateRow := do
  let s ← read
  let state ← orAbort (s.states schedule.key) (.notFoundKey "schedule state" schedule.key)
  ensure (state.matches schedule) (.conflict
    s!"schedule {state.scheduleKey} persisted definition does not match registered v{schedule.version}")
  return state

/-- `set_schedule_paused`. -/
def setSchedulePaused (definition : RegisteredSchedule library) (paused : Bool)
    (operator : Operator) (now : DbMillis) : ScheduleTx Unit := do
  let actorId ← ofExcept (operatorActorId operator)
  let state ← lockScheduleState definition.metadata
  let word := if paused then "paused" else "active"
  ensure (paused ≠ state.pausedAt.isSome)
    (.conflict s!"schedule {definition.metadata.key} is already {word}")
  if paused then
    writeState { state with
      pausedAt := some now, pausedBy := some actorId, pauseReason := some operator.reason
      updatedAt := now }
  else
    writeState { state with
      pausedAt := none, pausedBy := none, pauseReason := none, updatedAt := now }

/-- `run_schedule_now` up to its check of the overlap policy. -/
def openRunNow (definition : RegisteredSchedule library) (operator : Operator) :
    ScheduleTx Unit := do
  let metadata := definition.metadata
  let _ ← ofExcept (operatorActorId operator)
  let _ ← lockScheduleState metadata
  if metadata.overlap ≠ .allow then
    let active ← activeWorkflowCount metadata.key
    let policy := metadata.overlap.debug
    ensure (active = 0) (.conflict
      s!"schedule {metadata.key} has an active run; overlap policy {policy} rejects run-now")
  else
    pure ()

/-- The time of a run-now: after every run of the schedule, and not before `now`. -/
def runNowTime (lastScheduled : Option DbMillis) (now : DbMillis) : DbMillis :=
  match lastScheduled.bind fun last => DbMillis.checkedPlusMillis last 1 with
  | some next => max next now
  | none => now

/-- The rest of `run_schedule_now`. -/
def startRunNow (definition : RegisteredSchedule library) (handler : ScheduleHandler)
    (operator : Operator) (now : DbMillis) : ScheduleTx ScheduleRunId := do
  let key := definition.metadata.key
  let actorId ← ofExcept (operatorActorId operator)
  let rows ← selectRows occurrenceTable fun r => r.scheduleKey == key
  let scheduledFor := runNowTime (rows.map (·.scheduledFor)).max? now
  let run ← insertScheduleRun {
    id := 0, scheduleKey := key, localOccurrence := .manual scheduledFor, scheduledFor
    materializedAt := now, status := .materializing, reason := some operator.reason
    actorId := some actorId, createdAt := now }
  let workflowId ← startOccurrence handler run scheduledFor
  markStarted run .materializing none workflowId
  onEngine (appendOperatorEvent workflowId .scheduleRunNow operator now)
  return run

end DurableWorkflows
