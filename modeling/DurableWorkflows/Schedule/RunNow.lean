import DurableWorkflows.Schedule.OccurrenceKeys
import DurableWorkflows.Schedule.Overlap

/-!
# Run-nows

The key of a run-now is `manual:{t}`, where `t` is one more than the latest run of the
schedule, or the time of the database if that is later. The lock of the state row keeps
ticks and other run-nows out between the query for the latest run and the insert.

## Main definitions

- `RunStamp`: what a run row says about its key and its times
- `Dated`: the times of run-nows are after those of the runs before them

## Main results

- `Schedules.run_dated`: the invariant of the keys
- `Schedules.run_manualKeys`: the keys of run-nows, and what a run-now leaves alone
-/

namespace DurableWorkflows

open SqlText Transaction

variable {library : CalendarLibrary} {externals : Externals}

section Times

variable {last now : DbMillis}

theorem le_runNowTime (lastScheduled : Option DbMillis) (now : DbMillis) :
    now ≤ runNowTime lastScheduled now := by
  unfold runNowTime
  split
  · exact le_max_right _ _
  · exact le_rfl

/-- A run-now is after the latest run, unless that is at the last millisecond. -/
theorem lt_runNowTime (hnow : DbMillis.min ≤ now) (hlast : last < DbMillis.max) :
    last < runNowTime (some last) now := by
  rw [runNowTime, Option.bind_some, DbMillis.checkedPlusMillis]
  by_cases hlow : DbMillis.min ≤ last + 1
  · rw [if_pos ⟨hlow, hlast⟩]
    exact lt_max_of_lt_left (Int.lt_succ last)
  · rw [if_neg fun h => hlow h.1]
    exact (Int.lt_succ last).trans ((not_le.mp hlow).trans_le hnow)

/-- While the clock stands still a run-now takes the next millisecond. -/
theorem runNowTime_succ (hnow : DbMillis.min ≤ now) (hle : now ≤ last) (hlast : last < DbMillis.max) :
    runNowTime (some last) now = last + 1 := by
  have hnext : DbMillis.checkedPlusMillis last 1 = some (last + 1) :=
    if_pos ⟨hnow.trans (hle.trans (Int.lt_succ last).le), hlast⟩
  rw [runNowTime, Option.bind_some, hnext]
  exact max_eq_left (hle.trans (Int.lt_succ last).le)

/-- There is no millisecond after the last one. -/
theorem runNowTime_max (hlast : DbMillis.max ≤ last) : runNowTime (some last) now = now := by
  have hnext : DbMillis.checkedPlusMillis last 1 = none :=
    if_neg fun h => absurd (Int.lt_of_add_one_le h.2) (not_lt.mpr hlast)
  rw [runNowTime, Option.bind_some, hnext]

end Times

-- ════════════════════════════════════════════════════════════════════════
-- The keys of run-nows
-- ════════════════════════════════════════════════════════════════════════

/-- The key of a run and its times. -/
structure RunStamp where
  id : ScheduleRunId
  scheduleKey : String
  localOccurrence : OccurrenceKey
  scheduledFor : DbMillis
  materializedAt : DbMillis

def OccurrenceRow.stamp (r : OccurrenceRow) : RunStamp :=
  ⟨r.id, r.scheduleKey, r.localOccurrence, r.scheduledFor, r.materializedAt⟩

def ScheduleStore.stamps (s : ScheduleStore) : List RunStamp := s.runs.toList.map OccurrenceRow.stamp

/-- The runs of a schedule before one of its runs. -/
def RunStamp.earlier (stamps : List RunStamp) (x : RunStamp) : List RunStamp :=
  stamps.filter fun y => y.scheduleKey == x.scheduleKey && decide (y.id < x.id)

/-- The time of a run-now is that of its key, it is not before the clock, and it is
after every earlier run unless one of them is at the last millisecond. -/
structure RunStamp.Dates (stamps : List RunStamp) (x : RunStamp) (t : DbMillis) : Prop where
  time : t = x.scheduledFor
  clock : x.materializedAt ≤ t
  after : DbMillis.min ≤ x.materializedAt →
    (∀ y ∈ x.earlier stamps, y.scheduledFor < DbMillis.max) →
    ∀ y ∈ x.earlier stamps, y.scheduledFor < t

/-- The run-nows of a list of runs have the times of their keys. -/
def Dated (stamps : List RunStamp) : Prop :=
  ∀ x ∈ stamps, ∀ t, x.localOccurrence = .manual t → x.Dates stamps t

section Stamps

variable {old new : List RunStamp} {x y : RunStamp} {key : String} {now : DbMillis}
  {s s' : ScheduleStore} {rows : List OccurrenceRow} {row : OccurrenceRow} {run : ScheduleRunId}

theorem RunStamp.mem_earlier :
    y ∈ x.earlier stamps ↔ y ∈ stamps ∧ y.scheduleKey = x.scheduleKey ∧ y.id < x.id := by
  rw [earlier, List.mem_filter, Bool.and_eq_true, beq_iff_eq, decide_eq_true_iff]

/-- Later runs are not before a run. -/
theorem RunStamp.earlier_append (h : ∀ y ∈ new, x.id ≤ y.id) :
    x.earlier (old ++ new) = x.earlier old := by
  have hnone : x.earlier new = [] := by
    rw [List.eq_nil_iff_forall_not_mem]
    intro y hy
    obtain ⟨hy, -, hlt⟩ := mem_earlier.mp hy
    exact absurd hlt (not_lt.mpr (h y hy))
  show List.filter _ (old ++ new) = List.filter _ old
  rw [List.filter_append]
  exact (congrArg _ hnone).trans (List.append_nil _)

/-- Runs are added with larger ids; the new run-nows are after the others. -/
theorem Dated.append (h : Dated old) (hlater : ∀ x ∈ old, ∀ y ∈ new, x.id < y.id)
    (hnew : ∀ x ∈ new, ∀ t, x.localOccurrence = .manual t → x.Dates (old ++ new) t) :
    Dated (old ++ new) := by
  intro x hx t ht
  rcases List.mem_append.mp hx with hold | hnew'
  · obtain ⟨htime, hclock, hafter⟩ := h x hold t ht
    have hearlier : x.earlier (old ++ new) = x.earlier old :=
      RunStamp.earlier_append fun y hy => (hlater x hold y hy).le
    refine ⟨htime, hclock, ?_⟩
    rw [hearlier]
    exact hafter
  · exact hnew x hnew' t ht

/-- Rows are added with larger ids. -/
theorem ScheduleStore.stamps_later (hruns : s'.stamps = old ++ new) :
    ∀ x ∈ old, ∀ y ∈ new, x.id < y.id := by
  have hsorted : s'.stamps.Pairwise fun x y => x.id < y.id := by
    rw [ScheduleStore.stamps, List.pairwise_map]
    exact Table.pairwise_select
  rw [hruns] at hsorted
  exact (List.pairwise_append.mp hsorted).2.2

theorem ScheduleStore.stamps_append (h : s'.runs.toList = s.runs.toList ++ rows) :
    s'.stamps = s.stamps ++ rows.map OccurrenceRow.stamp := by
  rw [stamps, h, List.map_append]
  rfl

/-- A promotion keeps the keys and times of the runs. -/
theorem Promotes.stamps {overlap : OverlapPolicy} {active : ℕ} {p : Progress}
    (h : Promotes overlap key active p s s') : s'.stamps = s.stamps := by
  cases h with
  | kept _ store => rw [store]
  | promoted r _ _ _ runs =>
    rw [ScheduleStore.stamps, ScheduleStore.stamps, runs, List.map_map]
    refine List.map_congr_left fun x _ => ?_
    rw [Function.comp_apply]
    split <;> rfl

/-- A tick adds runs of local occurrences. -/
theorem Ticked.stamps {definition : RegisteredSchedule library} {active : ℕ} {report : Report}
    (h : Ticked definition active now report s s') :
    ∃ new, s'.stamps = s.stamps ++ new ∧ ∀ x ∈ new, ∃ o, x.localOccurrence = .local o := by
  obtain ⟨state, o, next, due, rows, p, p', s₁, s₂, -, hpromotes, -, -, -, hbatch, -, hmoves⟩ := h
  have hmoved : s'.stamps = s₂.stamps := by
    cases hmoves with
    | stays _ hstore => rw [hstore]
    | moves _ _ _ hstore =>
      subst hstore
      rfl
  refine ⟨rows.map OccurrenceRow.stamp, ?_, fun x hx => ?_⟩
  · rw [hmoved, ScheduleStore.stamps_append hbatch.runs, hpromotes.stamps]
  · obtain ⟨r, hr, rfl⟩ := List.mem_map.mp hx
    have hslot := List.mem_map_of_mem (f := OccurrenceRow.slot) hr
    rw [hbatch.slots] at hslot
    obtain ⟨o, -, ho⟩ := List.mem_map.mp hslot
    exact ⟨o, (Prod.mk_inj.mp ho).2.symm⟩

theorem RanNowAt.scheduleKey (h : RanNowAt key now s s' run row) : row.scheduleKey = key := by
  obtain ⟨t, hslot⟩ := h.slot
  exact (Prod.mk_inj.mp hslot).1

theorem ScheduleStore.le_nextManual (s : ScheduleStore) (key : String) (now : DbMillis) :
    now ≤ s.nextManual key now :=
  le_runNowTime _ _

/-- The time of a run-now is after every run of its schedule, unless one of them is at the
last millisecond. -/
theorem ScheduleStore.lt_nextManual (hnow : DbMillis.min ≤ now)
    (hmax : ∀ r ∈ s.runs.toList, r.scheduleKey = key → r.scheduledFor < DbMillis.max) :
    ∀ r ∈ s.runs.toList, r.scheduleKey = key → r.scheduledFor < s.nextManual key now := by
  intro r hr hkey
  have hmem : ∀ {x}, x ∈ s.runs.select (fun r => r.scheduleKey == key) ↔
      x ∈ s.runs.toList ∧ x.scheduleKey = key := by
    intro x
    rw [Table.select_eq_filter, List.mem_filter, beq_iff_eq]
  rw [nextManual]
  cases hlast : ((s.runs.select fun r => r.scheduleKey == key).map (·.scheduledFor)).max? with
  | none =>
    rw [List.max?_eq_none_iff, List.map_eq_nil_iff] at hlast
    have hnone := hmem.mpr ⟨hr, hkey⟩
    rw [hlast] at hnone
    cases hnone
  | some last =>
    obtain ⟨hlatest, hle⟩ := List.max?_eq_some_iff.mp hlast
    obtain ⟨x, hx, rfl⟩ := List.mem_map.mp hlatest
    obtain ⟨hx, hxkey⟩ := hmem.mp hx
    have hr' := hle _ (List.mem_map_of_mem (hmem.mpr ⟨hr, hkey⟩))
    exact hr'.trans_lt (lt_runNowTime hnow (hmax x hx hxkey))

/-- Once a run is at the last millisecond, a run-now takes the time of the clock. -/
theorem ScheduleStore.nextManual_max (hr : r ∈ s.runs.toList) (hkey : r.scheduleKey = key)
    (hmax : DbMillis.max ≤ r.scheduledFor) : s.nextManual key now = now := by
  have hmem : r.scheduledFor ∈
      (s.runs.select fun r => r.scheduleKey == key).map (·.scheduledFor) := by
    rw [Table.select_eq_filter]
    exact List.mem_map_of_mem (List.mem_filter.mpr ⟨hr, beq_iff_eq.mpr hkey⟩)
  rw [nextManual]
  cases hlast : ((s.runs.select fun r => r.scheduleKey == key).map (·.scheduledFor)).max? with
  | none =>
    rw [List.max?_eq_none_iff.mp hlast] at hmem
    cases hmem
  | some last => exact runNowTime_max (hmax.trans ((List.max?_eq_some_iff.mp hlast).2 _ hmem))

/-- The runs before a run-now are those that its query read. -/
theorem RanNowAt.mem_earlier (h : RanNowAt key now s s' run row) :
    y ∈ row.stamp.earlier s'.stamps ↔
      ∃ r ∈ s.runs.toList, r.scheduleKey = key ∧ r.stamp = y := by
  have hstamps : s'.stamps = s.stamps ++ [row.stamp] := ScheduleStore.stamps_append h.runs
  rw [RunStamp.mem_earlier, hstamps, List.mem_append, List.mem_singleton]
  constructor
  · rintro ⟨hy | rfl, hkey, hid⟩
    · obtain ⟨r, hr, rfl⟩ := List.mem_map.mp hy
      exact ⟨r, hr, hkey.trans h.scheduleKey, rfl⟩
    · exact absurd hid (lt_irrefl _)
  · rintro ⟨r, hr, hkey, rfl⟩
    have hmem : r.stamp ∈ s.stamps := List.mem_map_of_mem hr
    exact ⟨.inl hmem, hkey.trans h.scheduleKey.symm,
      ScheduleStore.stamps_later hstamps _ hmem _ List.mem_cons_self⟩

theorem RanNowAt.dates (h : RanNowAt key now s s' run row) {t : DbMillis}
    (ht : row.localOccurrence = .manual t) : row.stamp.Dates s'.stamps t := by
  have htime : t = row.scheduledFor := OccurrenceKey.manual.inj (ht.symm.trans h.manual)
  refine ⟨htime, ?_, fun hnow hmax y hy => ?_⟩
  · show row.materializedAt ≤ t
    rw [htime, h.materializedAt, h.scheduledFor]
    exact s.le_nextManual key now
  · obtain ⟨r, hr, hkey, rfl⟩ := h.mem_earlier.mp hy
    rw [htime, h.scheduledFor]
    refine ScheduleStore.lt_nextManual (h.materializedAt ▸ hnow) (fun x hx hxkey => ?_) r hr hkey
    exact hmax x.stamp (h.mem_earlier.mpr ⟨x, hx, hxkey, rfl⟩)

/-- The floor that the database computes is read off the rows that are no run-now's. -/
theorem loadMaterializedFloor_congr {strftime : Strftime}
    (h : (s'.runs.select fun r => r.scheduleKey == key &&
        !isManualText (r.localOccurrence.text strftime)) =
      s.runs.select fun r => r.scheduleKey == key &&
        !isManualText (r.localOccurrence.text strftime)) :
    (loadMaterializedFloor strftime key s').map Prod.fst =
      (loadMaterializedFloor strftime key s).map Prod.fst := by
  rw [loadMaterializedFloor, bind_selectRows, bind_selectRows, occurrenceTable_get,
    occurrenceTable_get, h]
  generalize maxText _ = floor
  cases floor with
  | none => rfl
  | some text =>
    dsimp only
    cases LocalOccurrence.fromStr strftime text <;> rfl

/-- **A run-now does not count** toward the floor of its schedule or of another one. -/
theorem RanNowAt.floor (h : RanNowAt key now s s' run row) (strftime : Strftime) (key' : String) :
    (loadMaterializedFloor strftime key' s').map Prod.fst =
      (loadMaterializedFloor strftime key' s).map Prod.fst := by
  apply loadMaterializedFloor_congr
  rw [Table.select_eq_filter, Table.select_eq_filter, h.runs, List.filter_append,
    List.filter_cons_of_neg, List.filter_nil, List.append_nil]
  rw [h.manual, isManualText_manual, Bool.not_true, Bool.and_false]
  exact Bool.false_ne_true

theorem RanNowAt.localKeys (h : RanNowAt key now s s' run row) (key' : String) :
    s'.localKeys key' = s.localKeys key' := by
  have hnone : ([row].filter (·.scheduleKey == key')).filterMap (·.localOccurrence.occurrence) = [] := by
    rw [List.filterMap_eq_nil_iff]
    intro r hr
    rw [List.mem_singleton.mp (List.mem_of_mem_filter hr), h.manual]
    rfl
  rw [ScheduleStore.localKeys, ScheduleStore.localKeys, h.runs, List.filter_append,
    List.filterMap_append, hnone, List.append_nil]

end Stamps

-- ════════════════════════════════════════════════════════════════════════
-- Run-nows that succeed
-- ════════════════════════════════════════════════════════════════════════

section Returns

variable {db : DB} {s : ScheduleStore} {handler : ScheduleHandler} {run : ScheduleRunId}
  {now scheduledFor : DbMillis} {workflow : PreparedWorkflowStart} {started : OccurrenceStart}

theorem version_pos_of_prepareStart {options : StartOptions}
    (h : prepareStart workflow options = .ok ()) : 0 < workflow.version := by
  obtain ⟨⟨⟩, hvalid, -⟩ := bind_eq_ok h
  unfold validateDefinition at hvalid
  split at hvalid
  · cases hvalid
  · rename_i hnot
    exact not_le.mp fun hle => hnot (.inr hle)

/-- A valid start without a key inserts a workflow with its first event. -/
theorem wp_start_fresh {availableAt : Option DbMillis} {options : ApplicationStartOptions}
    (hoptions : options = ⟨availableAt, some run, none⟩) (hs : db.Sound)
    (hprepare : prepareStart workflow options.toStartOptions = .ok ()) :
    wp (start workflow options now)
      (fun outcome db' => (db'.aggregate outcome.workflowId).events.length = 1)
      (fun _ => False) db := by
  rw [start, wp_bind, wp_ofExcept]
  refine ⟨fun _ _ => ?_, fun e he => by cases hprepare.symm.trans he⟩
  subst hoptions
  rw [insertPrepared, wp_bind]
  refine wp_imp (Q := fun found db' => found = none ∧ db' = db) ⟨rfl, rfl⟩ ?_
  rintro found db₁ ⟨rfl, hdb₁⟩
  subst db₁
  simp only [insertStarted, wp_bind]
  refine wp_insertWorkflow_unkeyed rfl rfl
    (fun hversion => hversion (version_pos_of_prepareStart hprepare)) fun db' _ hinserted => ?_
  have hevents : (db'.aggregate db.workflows.next).events = [] := by
    rw [hinserted.self, hs.aggregate_of_none Table.find_next]
    rfl
  rw [wp_bind]
  refine wp_appendEvent (d := some 1) ?_ ?_ ?_ fun db'' htouches => ?_
  · rw [hevents]
    exact .nil
  · rw [hevents]
    exact ⟨rfl, by decide, rfl, fun _ => ⟨_, rfl⟩, rfl, fun _ => rfl⟩
  · rw [hevents]
    rintro n ⟨⟩
    rfl
  · show (db''.aggregate db.workflows.next).events.length = 1
    rw [htouches.self, Aggregate.addEvent, hevents]
    rfl

theorem wp_startOccurrence_fresh (hs : s.sys.Inv) (hstarted : handler run scheduledFor = .ok started)
    (hprepare : prepareStart started.workflow
      (ApplicationStartOptions.toStartOptions ⟨started.availableAt, some run, none⟩) = .ok ()) :
    wp (startOccurrence handler run scheduledFor) (fun w s' => s'.sys.Inv ∧ s'.runs = s.runs ∧
      (s'.sys.db.aggregate w).events.length = 1) (fun _ => False) s := by
  have hfresh : wp (startOccurrence handler run scheduledFor)
      (fun w s' => (s'.sys.db.aggregate w).events.length = 1) (fun _ => False) s := by
    rw [startOccurrence, wp_bind, wp_ofExcept, hstarted]
    refine ⟨fun started' hstarted' => ?_, fun _ h => by cases h⟩
    cases hstarted'
    rw [wp_bind, wp_onEngine]
    exact wp_start_fresh rfl hs.sound hprepare
  have hruns : wp (startOccurrence handler run scheduledFor) (fun _ s' => s'.runs = s.runs)
      (fun _ => True) s :=
    wp_startOccurrence (fun _ _ => trivial) fun _ _ _ hruns _ => hruns
  refine wp_mono (wp_and (wp_startOccurrence_leads hs) (wp_and hruns hfresh)) ?_ fun _ h => h.2.2
  rintro w s' ⟨⟨hleads, -⟩, hruns, hevents⟩
  exact ⟨hleads.1, hruns, hevents⟩

theorem wp_insertScheduleRun_fresh {row : OccurrenceRow} (hs : s.sys.Inv)
    (hfree : row.slot ∉ s.slots) :
    wp (insertScheduleRun row) (fun run s' => s'.sys.Inv ∧
      ∃ r, s'.runs.find run = some r ∧ r.status = row.status) (fun _ => False) s := by
  have hfound : wp (insertScheduleRun row) (fun run s' =>
      ∃ r, s'.runs.find run = some r ∧ r.status = row.status) (fun _ => False) s := by
    refine wp_insertScheduleRun hfree fun s' _ _ _ hruns => ⟨{ row with id := s.runs.next }, ?_, rfl⟩
    rw [hruns, Table.find_insert_self]
  exact wp_mono (wp_and (Sustains.insertScheduleRun row s hs) hfound)
    (fun _ _ h => ⟨h.1.1, h.2⟩) fun _ h => h.2

/-- The start of a run that has the expected status is recorded. -/
theorem wp_markStarted_found {r : OccurrenceRow} {expected : ScheduleRunStatus}
    {reason : Option String} {w : WorkflowId} (hs : s.sys.Inv) (hr : s.runs.find run = some r)
    (hstatus : r.status = expected) :
    wp (markStarted run expected reason w) (fun _ s' => s'.sys.Inv ∧
      s'.sys.db.aggregate w = s.sys.db.aggregate w) (fun _ => False) s := by
  have hmarked : wp (markStarted run expected reason w)
      (fun _ s' => s'.sys.db.aggregate w = s.sys.db.aggregate w) (fun _ => False) s := by
    rw [markStarted, wp_bind, wp_updateRow]
    refine ⟨fun r' hr' _ => ?_, fun hnone => ?_⟩
    · simp only [wp_bind, wp_ensure, wp_onEngine]
      refine ⟨fun _ => ?_, fun hne => hne trivial⟩
      rw [wp_updateRow]
      exact ⟨fun _ _ _ => rfl, fun _ => rfl⟩
    · have hfalse := hnone r hr
      rw [hstatus, beq_self_eq_true] at hfalse
      cases hfalse
  exact wp_mono (wp_and (Sustains.markStarted _ _ _ _ s hs) hmarked)
    (fun _ _ h => ⟨h.1.1, h.2⟩) fun _ h => h.2

/-- **A run-now succeeds** if its key is free, its operator is known and its handler
starts a valid workflow. -/
theorem wp_startRunNow_returns {definition : RegisteredSchedule library} {operator : Operator}
    {actorId : ℤ} (hs : s.sys.Inv) (hactor : operatorActorId operator = .ok actorId)
    (hhandler : ∀ run t, ∃ started, handler run t = .ok started ∧ prepareStart started.workflow
      (ApplicationStartOptions.toStartOptions ⟨started.availableAt, some run, none⟩) = .ok ())
    (hfree : (definition.metadata.key, .manual (s.nextManual definition.metadata.key now)) ∉
      s.slots) :
    wp (startRunNow definition handler operator now) (fun _ _ => True) (fun _ => False) s := by
  rw [startRunNow, wp_bind, wp_ofExcept, hactor]
  refine ⟨fun actorId' _ => ?_, fun _ h => by cases h⟩
  rw [wp_bind, wp_selectRows, wp_bind]
  refine wp_imp (wp_insertScheduleRun_fresh hs hfree) fun run s₁ hpost => ?_
  obtain ⟨hs₁, r, hr, hstatus⟩ := hpost
  obtain ⟨started, hstarted, hprepare⟩ := hhandler run (s.nextManual definition.metadata.key now)
  rw [wp_bind]
  refine wp_imp (wp_startOccurrence_fresh hs₁ hstarted hprepare) fun w s₂ hpost => ?_
  obtain ⟨hs₂, hruns₂, hevents₂⟩ := hpost
  rw [← hruns₂] at hr
  rw [wp_bind]
  refine wp_imp (wp_markStarted_found hs₂ hr hstatus) fun _ s₃ hpost => ?_
  obtain ⟨hs₃, haggregate₃⟩ := hpost
  -- the log of the new workflow has room
  rw [wp_bind, wp_onEngine]
  refine wp_appendHistoryEvent (hs₃.sound.log w) (fun hfull => ?_) (fun _ h => by cases h) rfl fun _ _ _ _ _ => trivial
  rw [haggregate₃, hevents₂] at hfull
  exact absurd hfull (by decide)

end Returns

-- ════════════════════════════════════════════════════════════════════════
-- Runs
-- ════════════════════════════════════════════════════════════════════════

namespace Schedules

variable {s s' : Schedules library} {action : ScheduleAction library} {key : String}
  {handler : ScheduleHandler} {now : DbMillis} {definition : RegisteredSchedule library}
  {operator : Operator}

/-- The holder of a run-now's lock commits its run, or rolls back. -/
theorem close_runNow (externals : Externals) (handler : ScheduleHandler) (now : DbMillis)
    (hheld : s.held key = some (.runNow definition operator)) :
    (∃ run store row, startRunNow definition handler operator now s.store = .ok (run, store) ∧
      step externals s (.close key handler now) = { s with store }.hold key none ∧
      RanNowAt definition.metadata.key now s.store store run row) ∨
    ∃ e, startRunNow definition handler operator now s.store = .error e ∧
      step externals s (.close key handler now) = s.hold key none := by
  have hclose : step externals s (.close key handler now) =
      s.close key handler now (.runNow definition operator) := by
    apply Machine.step_of_ok
    rw [exec, hheld]
  rw [hclose]
  cases hstart : startRunNow definition handler operator now s.store with
  | ok r =>
    obtain ⟨run, store⟩ := r
    obtain ⟨row, hran⟩ := wp_ok wp_startRunNow_at hstart
    have hfinish : finish handler now (.runNow definition operator) s.store = .ok ((), store) :=
      bind_of_ok hstart
    exact .inl ⟨run, store, row, rfl, close_of_ok hfinish, hran⟩
  | error e =>
    have hfinish : finish handler now (.runNow definition operator) s.store = .error e :=
      bind_of_error hstart
    exact .inr ⟨e, rfl, close_of_error hfinish⟩

/-- What a step does to the keys of the runs: nothing, or it adds runs of local
occurrences, or one run-now. -/
theorem exec_stamps (hs : s.Inv) (hok : exec externals s action = .ok s') :
    s'.store.stamps = s.store.stamps ∨
    (∃ new, s'.store.stamps = s.store.stamps ++ new ∧ ∀ x ∈ new, ∃ o, x.localOccurrence = .local o) ∨
    ∃ key now run row, RanNowAt key now s.store s'.store run row := by
  have hstep : step externals s action = s' := Machine.step_of_ok hok
  cases exec_transits hs hok with
  | engine | tickPaused | tickOpened | runNowOpened | rolledBack | abandoned | paused => exact .inl rfl
  | reconciled _ hr =>
    cases hr with
    | inserted _ _ _ hstore | kept hstore | upgraded _ _ _ _ _ _ hstore =>
      subst hstore
      exact .inl rfl
  | ticked _ ticked => exact .inr (.inl ticked.stamps)
  | ranNow held =>
    rcases close_runNow externals _ _ held with
      ⟨run, store, row, -, hclose, hran⟩ | ⟨e, -, hclose⟩
    · rw [← hstep, hclose]
      exact .inr (.inr ⟨_, _, run, row, hran⟩)
    · rw [← hstep, hclose]
      exact .inl rfl

/-- **Step lemma**: the run-nows stay dated. -/
theorem exec_dated (hs : s.Inv) (h : Dated s.store.stamps) (hok : exec externals s action = .ok s') :
    Dated s'.store.stamps := by
  rcases exec_stamps hs hok with hstamps | ⟨new, hstamps, hlocal⟩ | ⟨key, now, run, row, hran⟩
  · rw [hstamps]
    exact h
  · rw [hstamps]
    refine h.append (ScheduleStore.stamps_later hstamps) fun x hx t ht => ?_
    obtain ⟨o, ho⟩ := hlocal x hx
    cases ho.symm.trans ht
  · have hstamps : s'.store.stamps = s.store.stamps ++ [row.stamp] :=
      ScheduleStore.stamps_append hran.runs
    rw [hstamps]
    refine h.append (ScheduleStore.stamps_later hstamps) fun x hx t ht => ?_
    rw [List.mem_singleton.mp hx] at ht ⊢
    rw [← hstamps]
    exact hran.dates ht

theorem run_dated (externals : Externals) (actions : List (ScheduleAction library)) :
    Dated (run externals init actions).store.stamps := by
  have hrun : (run externals init actions).Inv ∧
      Dated (run externals init actions).store.stamps := by
    refine Machine.run_invariant (P := fun s : Schedules library => s.Inv ∧ Dated s.store.stamps) ?_
      ⟨.init, fun _ hx => absurd hx List.not_mem_nil⟩ actions
    rintro s action s' ⟨hs, h⟩ hok
    exact ⟨hs.transits (exec_transits hs hok), exec_dated hs h hok⟩
  exact hrun.2

/-- What a run-now at `now` adds to the store: a run with the key `manual:{t}`, where `t`
is not before the clock and after every other run unless one of them is at the last
millisecond; then it is the clock. The cursors and the floors of all schedules are as before. -/
structure AddsManual (key : String) (now : DbMillis) (s s' : ScheduleStore) (run : ScheduleRunId)
    (row : OccurrenceRow) (t : DbMillis) : Prop where
  runs : s'.runs.toList = s.runs.toList ++ [row]
  id : row.id = run
  scheduleKey : row.scheduleKey = key
  localOccurrence : row.localOccurrence = .manual t
  scheduledFor : row.scheduledFor = t
  clock : now ≤ t
  after : DbMillis.min ≤ now →
    (∀ r ∈ s.runs.toList, r.scheduleKey = key → r.scheduledFor < DbMillis.max) →
    ∀ r ∈ s.runs.toList, r.scheduleKey = key → r.scheduledFor < t
  restarts : (∃ r ∈ s.runs.toList, r.scheduleKey = key ∧ DbMillis.max ≤ r.scheduledFor) → t = now
  cursors : s'.states = s.states
  floor : ∀ strftime key', (loadMaterializedFloor strftime key' s').map Prod.fst =
    (loadMaterializedFloor strftime key' s).map Prod.fst
  materializedFloor : ∀ key', (materializedFloor key' s').map Prod.fst =
    (materializedFloor key' s).map Prod.fst

theorem AddsManual.of_ranNowAt {s s' : ScheduleStore} {run : ScheduleRunId} {row : OccurrenceRow}
    (h : RanNowAt key now s s' run row) : AddsManual key now s s' run row row.scheduledFor where
  runs := h.runs
  id := h.id
  scheduleKey := h.scheduleKey
  localOccurrence := h.manual
  scheduledFor := rfl
  clock := h.scheduledFor ▸ s.le_nextManual key now
  after hnow hmax r hr hkey := h.scheduledFor ▸ ScheduleStore.lt_nextManual hnow hmax r hr hkey
  restarts := by
    rintro ⟨r, hr, hkey, hmax⟩
    exact h.scheduledFor.trans (ScheduleStore.nextManual_max hr hkey hmax)
  cursors := h.states
  floor strftime key' := h.floor strftime key'
  materializedFloor key' := by
    rw [materializedFloor_eq, materializedFloor_eq, h.localKeys]
    rfl

/-- **Run-now keys**: the time of a run-now's key is that of its run and is not before the
clock of the run-now, no two runs of a schedule have one key, and the time of a run-now is
after every earlier run of its schedule unless one of them is at the last millisecond, from which
on it is the time of the clock. A run-now leaves the cursors and the floors as they are, and one
that fails, or whose process fails, leaves the tables as they are. -/
theorem run_manualKeys (externals : Externals) (actions : List (ScheduleAction library)) :
    let s := run externals init actions
    (∀ r ∈ s.store.runs.toList, ∀ t, r.localOccurrence = .manual t →
      t = r.scheduledFor ∧ r.materializedAt ≤ t) ∧
    (∀ r ∈ s.store.runs.toList, ∀ r' ∈ s.store.runs.toList, r.scheduleKey = r'.scheduleKey →
      r.localOccurrence = r'.localOccurrence → r = r') ∧
    (∀ r ∈ s.store.runs.toList, ∀ r' ∈ s.store.runs.toList, ∀ t, r.scheduleKey = r'.scheduleKey →
      r'.localOccurrence = .manual t → r.id < r'.id → DbMillis.min ≤ r'.materializedAt →
      (∀ x ∈ s.store.runs.toList, x.scheduleKey = r'.scheduleKey → x.id < r'.id →
        x.scheduledFor < DbMillis.max) →
      r.scheduledFor < t) ∧
    (∀ key definition operator handler now, s.held key = some (.runNow definition operator) →
      match startRunNow definition handler operator now s.store with
      | .ok (id, store) =>
        (step externals s (.close key handler now)).store = store ∧
          ∃ row t, AddsManual key now s.store store id row t
      | .error _ => (step externals s (.close key handler now)).store = s.store) ∧
    (∀ definition operator, (step externals s (.openRunNow definition operator)).store = s.store) ∧
    ∀ key, (step externals s (.abandon key)).store = s.store := by
  intro s
  have hs : s.Inv := run_inv externals actions
  have hdated := run_dated externals actions
  refine ⟨fun r hr t ht => ?_, fun r hr r' hr' hkey hocc => ?_,
    fun r hr r' hr' t hkey ht hid hnow hmax => ?_,
    fun key definition operator handler now hheld => ?_, fun definition operator => ?_, fun key => ?_⟩
  · have hdates := hdated r.stamp (List.mem_map_of_mem hr) t ht
    exact ⟨hdates.time, hdates.clock⟩
  · exact List.inj_on_of_nodup_map hs.unique hr hr' (Prod.ext hkey hocc)
  · have hdates := hdated r'.stamp (List.mem_map_of_mem hr') t ht
    refine hdates.after hnow (fun y hy => ?_) r.stamp ?_
    · obtain ⟨hy, hykey, hyid⟩ := RunStamp.mem_earlier.mp hy
      obtain ⟨x, hx, rfl⟩ := List.mem_map.mp hy
      exact hmax x hx hykey hyid
    · exact RunStamp.mem_earlier.mpr ⟨List.mem_map_of_mem hr, hkey, hid⟩
  · have hdefinition : definition.metadata.key = key := (hs.held key _ hheld).1
    rcases close_runNow externals handler now hheld with
      ⟨run, store, row, hstart, hclose, hran⟩ | ⟨e, hstart, hclose⟩
    · rw [hstart, hclose]
      rw [hdefinition] at hran
      exact ⟨rfl, row, _, .of_ranNowAt hran⟩
    · rw [hstart, hclose]
      rfl
  · cases hexec : exec externals s (.openRunNow definition operator) with
    | error stop => rw [step, Machine.step_of_error hexec]
    | ok s' =>
      rw [step, Machine.step_of_ok hexec]
      cases exec_transits hs hexec with
      | runNowOpened => rfl
  · rfl

end Schedules

-- ════════════════════════════════════════════════════════════════════════
-- A clock that stands still
-- ════════════════════════════════════════════════════════════════════════

/-- The sample of the database clock that an action of a schedule takes. -/
def ScheduleAction.clock : ScheduleAction library → Option DbMillis
  | .reconcile _ now | .openTick _ now | .close _ _ now | .setPaused _ _ _ now => some now
  | .engine _ | .openRunNow .. | .abandon _ => none

section Allowed

variable {s : Schedules library} {definition : RegisteredSchedule library} {operator : Operator}
  {handler : ScheduleHandler} {key : String} {now : DbMillis} {actorId : ℤ} {row : ScheduleStateRow}

theorem ScheduleStore.nextManual_eq {s : ScheduleStore} {r : OccurrenceRow} (hr : r ∈ s.runs.toList)
    (hkey : r.scheduleKey = key)
    (hle : ∀ x ∈ s.runs.toList, x.scheduleKey = key → x.scheduledFor ≤ r.scheduledFor) :
    s.nextManual key now = runNowTime (some r.scheduledFor) now := by
  rw [nextManual, Table.select_eq_filter]
  congr 1
  rw [List.max?_eq_some_iff]
  refine ⟨List.mem_map_of_mem (List.mem_filter.mpr ⟨hr, beq_iff_eq.mpr hkey⟩), fun t ht => ?_⟩
  obtain ⟨x, hx, rfl⟩ := List.mem_map.mp ht
  obtain ⟨hx, hxkey⟩ := List.mem_filter.mp hx
  exact hle x hx (beq_iff_eq.mp hxkey)

/-- A schedule that allows overlaps lets a run-now take its lock. -/
theorem Schedules.exec_openRunNow (externals : Externals)
    (hfree : s.held definition.metadata.key = none)
    (hactor : operatorActorId operator = .ok actorId)
    (hstate : s.store.states definition.metadata.key = some row)
    (hmatches : row.matches definition.metadata) (hallow : definition.metadata.overlap = .allow) :
    exec externals s (.openRunNow definition operator) =
      .ok (s.hold definition.metadata.key (some (.runNow definition operator))) := by
  have hopen : wp (openRunNow definition operator) (fun _ store => store = s.store) (fun _ => False)
      s.store := by
    simp only [openRunNow, lockScheduleState, wp_bind, wp_ofExcept, wp_read, wp_orAbort, wp_ensure,
      wp_ite, wp_pure, hactor, hstate]
    refine ⟨fun _ _ => ⟨fun row' hrow' => ?_, (by intros; contradiction)⟩, (by intros; contradiction)⟩
    cases hrow'
    exact ⟨fun _ => ⟨fun hne => absurd hallow hne, fun _ => trivial⟩, fun hne => hne hmatches⟩
  obtain ⟨_, store, hok, hstore⟩ := wp_returns hopen
  rw [exec, transactLocked, hfree, transact, hok, hstore]
  rfl

/-- A run-now with a free key. -/
theorem Schedules.run_runNow (externals : Externals) (hsys : s.store.sys.Inv)
    (hfree : s.held definition.metadata.key = none)
    (hactor : operatorActorId operator = .ok actorId)
    (hstate : s.store.states definition.metadata.key = some row)
    (hmatches : row.matches definition.metadata) (hallow : definition.metadata.overlap = .allow)
    (hhandler : ∀ run t, ∃ started, handler run t = .ok started ∧ prepareStart started.workflow
      (ApplicationStartOptions.toStartOptions ⟨started.availableAt, some run, none⟩) = .ok ())
    (hunused : (definition.metadata.key,
      .manual (s.store.nextManual definition.metadata.key now)) ∉ s.store.slots) :
    let s' := run externals s
      [.openRunNow definition operator, .close definition.metadata.key handler now]
    s'.held definition.metadata.key = none ∧
      ∃ run row, RanNowAt definition.metadata.key now s.store s'.store run row := by
  have hopened := exec_openRunNow externals hfree hactor hstate hmatches hallow
  have hheld : (s.hold definition.metadata.key (some (.runNow definition operator))).held
      definition.metadata.key = some (.runNow definition operator) := Function.update_self ..
  have hstart : wp (startRunNow definition handler operator now) (fun _ _ => True) (fun _ => False)
      s.store := wp_startRunNow_returns hsys hactor hhandler hunused
  intro s'
  have hrun : s' = step externals (s.hold definition.metadata.key (some (.runNow definition operator)))
      (.close definition.metadata.key handler now) := by
    show Machine.run _ _ _ = _
    rw [Machine.run_cons, Machine.step_of_ok hopened, Machine.run_cons, Machine.run_nil, step]
  rcases close_runNow externals handler now hheld with
    ⟨run, store, row, -, hclose, hran⟩ | ⟨e, herror, -⟩
  · rw [hrun, hclose]
    exact ⟨Function.update_self .., run, row, hran⟩
  · exact (wp_error hstart herror).elim

end Allowed

namespace Sample

/-- The first minute of a schedule is materialized on time. -/
def onTime : List (ScheduleAction calendars) :=
  [.reconcile (schedule 1 .allow) 0, .openTick (schedule 1 .allow) 60000, .close "s" handler 60000]

/-- A run-now while the clock stands still. -/
def runNow : List (ScheduleAction calendars) :=
  [.openRunNow (schedule 1 .allow) operator, .close "s" handler 60000]

/-- The first minute and run-nows after it. -/
def standing : ℕ → List (ScheduleAction calendars)
  | 0 => onTime
  | n + 1 => standing n ++ runNow

/-- The row of a run-now after the first minute. -/
def manualRow (id : ScheduleRunId) (t : DbMillis) : OccurrenceRow :=
  ⟨id, "s", .manual t, t, 60000, .started, some "reason", some 1, 60000⟩

/-- The second run-now is after the first. -/
theorem manualRow_lt : (manualRow 2 60001).scheduledFor < 60002 := by
  have hrows : manualRow 2 60001 ∈
        (Schedules.run Sample.externals .init (standing 2)).store.runs.toList ∧
      manualRow 3 60002 ∈ (Schedules.run Sample.externals .init (standing 2)).store.runs.toList ∧
      ∀ r ∈ (Schedules.run Sample.externals .init (standing 2)).store.runs.toList,
        r.scheduledFor < DbMillis.max := by
    decide +kernel
  exact (Schedules.run_manualKeys Sample.externals (standing 2)).2.2.1 _ hrows.1 _ hrows.2.1 60002
    rfl rfl (by decide) (by decide) fun r hr _ _ => hrows.2.2 r hr

/-- The latest run of the schedule is at `m`, and the run-nows are after the clock. -/
structure Standing (m : DbMillis) (s : Schedules calendars) : Prop where
  free : s.held "s" = none
  state : ∃ row, s.store.states "s" = some row ∧ row.matches (schedule 1 .allow).metadata
  latest : ∃ r ∈ s.store.runs.toList, r.scheduleKey = "s" ∧ r.scheduledFor = m ∧
    (60000 < m → r.localOccurrence = .manual m)
  le : ∀ r ∈ s.store.runs.toList, r.scheduleKey = "s" → r.scheduledFor ≤ m
  later : ∀ r ∈ s.store.runs.toList, ∀ t, r.localOccurrence = .manual t → 60000 < t ∧ t ≤ m

variable {s : Schedules calendars} {m : DbMillis}

theorem standing_onTime : Standing 60000 (Schedules.run Sample.externals .init onTime) := by
  have htables : ((Schedules.run Sample.externals .init onTime).store.states "s").any
        (fun row => decide (row.matches (schedule 1 .allow).metadata)) = true ∧
      (Schedules.run Sample.externals .init onTime).store.runs.toList.map
        (fun r => (r.scheduleKey, r.localOccurrence, r.scheduledFor)) =
        [("s", .local ⟨60000, by decide⟩, 60000)] := by
    decide +kernel
  obtain ⟨hstate, hruns⟩ := htables
  obtain ⟨r, hrows, hr⟩ := List.map_eq_singleton_iff.mp hruns
  obtain ⟨hkey, hocc⟩ := Prod.mk_inj.mp hr
  obtain ⟨hocc, htime⟩ := Prod.mk_inj.mp hocc
  obtain ⟨row, hrow, hmatches⟩ := (Option.any_eq_true _ _).mp hstate
  refine ⟨rfl, ⟨row, hrow, of_decide_eq_true hmatches⟩, ⟨r, ?_, hkey, htime, fun h => absurd h (lt_irrefl _)⟩, ?_, ?_⟩
  · rw [hrows]
    exact List.mem_singleton_self r
  · intro x hx _
    rw [hrows] at hx
    rw [List.mem_singleton.mp hx, htime]
  · intro x hx t ht
    rw [hrows] at hx
    rw [List.mem_singleton.mp hx, hocc] at ht
    cases ht

theorem prepareStart_handler (run : ScheduleRunId) (t : DbMillis) :
    ∃ started, handler run t = .ok started ∧ prepareStart started.workflow
      (ApplicationStartOptions.toStartOptions ⟨started.availableAt, some run, none⟩) = .ok () := by
  have hdefinition : validateDefinition workflow.kind workflow.version = .ok () :=
    if_neg (by decide)
  have hsize : ∀ name, ensureSize name "null" maxInputStatePayloadBytes = .ok () :=
    fun _ => if_neg (by decide)
  have hinput : ensureSize "workflow input" workflow.inputJson maxInputStatePayloadBytes = .ok () :=
    hsize _
  have hstate : ensureSize "workflow state" workflow.stateJson maxInputStatePayloadBytes = .ok () :=
    hsize _
  refine ⟨_, rfl, ?_⟩
  rw [prepareStart, hdefinition, hinput, hstate]
  rfl

/-- The time of the next run-now has no key yet. -/
theorem Standing.unused {t : DbMillis} (h : Standing m s) (ht : ¬(60000 < t ∧ t ≤ m)) :
    ("s", OccurrenceKey.manual t) ∉ s.store.slots := by
  intro hmem
  obtain ⟨r, hr, hslot⟩ := List.mem_map.mp hmem
  exact ht (h.later r hr t (Prod.mk_inj.mp hslot).2)

theorem Standing.nextManual (h : Standing m s) (now : DbMillis) :
    s.store.nextManual "s" now = runNowTime (some m) now := by
  obtain ⟨r, hr, hkey, htime, -⟩ := h.latest
  rw [← htime]
  refine ScheduleStore.nextManual_eq hr hkey fun x hx hxkey => ?_
  rw [htime]
  exact h.le x hx hxkey

/-- A run-now while the clock stands still, with a key that is free. -/
theorem Standing.ranNow (h : Standing m s) (hsys : s.store.sys.Inv)
    (hunused : ("s", OccurrenceKey.manual (runNowTime (some m) 60000)) ∉ s.store.slots) :
    (Schedules.run Sample.externals s runNow).held "s" = none ∧ ∃ run row,
      RanNowAt "s" 60000 s.store (Schedules.run Sample.externals s runNow).store run row ∧
      row.scheduledFor = runNowTime (some m) 60000 := by
  obtain ⟨row, hstate, hmatches⟩ := h.state
  have hactor : operatorActorId operator = .ok 1 := by decide
  rw [← h.nextManual] at hunused ⊢
  obtain ⟨hfree, run, row, hran⟩ :=
    Schedules.run_runNow Sample.externals hsys h.free hactor hstate hmatches rfl prepareStart_handler
      hunused
  exact ⟨hfree, run, row, hran, hran.scheduledFor⟩

/-- While the clock stands still every run-now takes the next millisecond. -/
theorem Standing.next (h : Standing m s) (hsys : s.store.sys.Inv) (hm : 60000 ≤ m)
    (hmax : m < DbMillis.max) : Standing (m + 1) (Schedules.run Sample.externals s runNow) := by
  have htime : runNowTime (some m) 60000 = m + 1 := runNowTime_succ (by decide) hm hmax
  have hunused : ("s", OccurrenceKey.manual (m + 1)) ∉ s.store.slots :=
    h.unused fun hle => absurd hle.2 (not_le.mpr (Int.lt_succ m))
  rw [← htime] at hunused
  obtain ⟨hfree, run, row, hran, hrow⟩ := h.ranNow hsys hunused
  rw [htime] at hrow
  refine ⟨hfree, ?_, ⟨row, ?_, hran.scheduleKey, hrow, fun _ => ?_⟩, fun r hr hkey => ?_,
    fun r hr t ht => ?_⟩
  · rw [hran.states]
    exact h.state
  · rw [hran.runs]
    exact List.mem_append_right _ List.mem_cons_self
  · rw [hran.manual, hrow]
  · rw [hran.runs, List.mem_append, List.mem_singleton] at hr
    rcases hr with hr | rfl
    · exact (h.le r hr hkey).trans (Int.lt_succ m).le
    · exact hrow.le
  · rw [hran.runs, List.mem_append, List.mem_singleton] at hr
    rcases hr with hr | rfl
    · have hlater := h.later r hr t ht
      exact ⟨hlater.1, hlater.2.trans (Int.lt_succ m).le⟩
    · rw [hran.manual, hrow] at ht
      obtain rfl := OccurrenceKey.manual.inj ht
      exact ⟨Int.lt_add_one_of_le hm, le_rfl⟩

theorem run_standing_succ (n : ℕ) : Schedules.run Sample.externals .init (standing (n + 1)) =
    Schedules.run Sample.externals (Schedules.run Sample.externals .init (standing n)) runNow :=
  Machine.run_append _ _ _

theorem standing_latest (n : ℕ) (hn : 60000 + n ≤ DbMillis.max) :
    Standing (60000 + n) (Schedules.run Sample.externals .init (standing n)) := by
  induction n with
  | zero => exact standing_onTime
  | succ n ih =>
    rw [Int.natCast_succ] at hn ⊢
    have hle : (60000 : ℤ) ≤ 60000 + n := by omega
    have hlt : (60000 : ℤ) + n < DbMillis.max := by omega
    rw [run_standing_succ, ← Int.add_assoc]
    exact (ih hlt.le).next (Schedules.run_sys_inv Sample.externals _) hle hlt

/-- The clock stands at the minute. -/
theorem clocks_standing (n : ℕ) : (standing n).filterMap ScheduleAction.clock =
    0 :: List.replicate (n + 2) 60000 := by
  induction n with
  | zero => rfl
  | succ n ih =>
    have hlast : List.replicate (n + 3) (60000 : DbMillis) = List.replicate (n + 2) 60000 ++ [60000] :=
      List.replicate_succ'
    rw [standing, List.filterMap_append, ih, hlast]
    rfl

/-- **The last millisecond**: with a clock that stands still, run-nows reach it one
millisecond at a time, and the next one starts again at the clock. -/
theorem standing_restarts {n : ℕ} (hn : 60000 + n = DbMillis.max) :
    ∃ r ∈ (Schedules.run Sample.externals .init (standing (n + 1))).store.runs.toList,
      ∃ r' ∈ (Schedules.run Sample.externals .init (standing (n + 1))).store.runs.toList,
        r.scheduleKey = "s" ∧ r'.scheduleKey = "s" ∧ r.id < r'.id ∧
        r.localOccurrence = .manual DbMillis.max ∧ r'.localOccurrence = .manual 60000 := by
  have hstanding := standing_latest n hn.le
  have hsys := Schedules.run_sys_inv Sample.externals (standing n)
  rw [run_standing_succ]
  rw [hn] at hstanding
  generalize Schedules.run Sample.externals .init (standing n) = s at hstanding hsys ⊢
  have hunused : ("s", OccurrenceKey.manual (runNowTime (some DbMillis.max) 60000)) ∉ s.store.slots :=
    hstanding.unused fun hlt => absurd hlt.1 (lt_irrefl _)
  obtain ⟨-, run, row, hran, hrow⟩ := hstanding.ranNow hsys hunused
  obtain ⟨r, hr, hkey, -, hmanual⟩ := hstanding.latest
  have hlater := ScheduleStore.stamps_later (ScheduleStore.stamps_append hran.runs) r.stamp
    (List.mem_map_of_mem hr) row.stamp List.mem_cons_self
  refine ⟨r, ?_, row, ?_, hkey, hran.scheduleKey, hlater, hmanual (by decide), ?_⟩
  · rw [hran.runs]
    exact List.mem_append_left _ hr
  · rw [hran.runs]
    exact List.mem_append_right _ List.mem_cons_self
  · rw [hran.manual, hrow, runNowTime_max le_rfl]

/-- The run-nows from the first minute to the last millisecond. -/
def lastRunNow : ℕ := 9223372036854715807

theorem standing_startsAgain :
    let actions := standing (lastRunNow + 1)
    let s := Schedules.run Sample.externals .init actions
    (actions.filterMap ScheduleAction.clock).Pairwise (· ≤ ·) ∧
    (∀ now ∈ actions.filterMap ScheduleAction.clock, now < DbMillis.max) ∧
    ∃ r ∈ s.store.runs.toList, ∃ r' ∈ s.store.runs.toList,
      r.scheduleKey = "s" ∧ r'.scheduleKey = "s" ∧ r.id < r'.id ∧
      r.localOccurrence = .manual DbMillis.max ∧ r'.localOccurrence = .manual 60000 := by
  have hmax : 60000 + (lastRunNow : ℤ) = DbMillis.max := by decide
  dsimp only
  rw [clocks_standing]
  refine ⟨?_, fun now hnow => ?_, standing_restarts hmax⟩
  · refine List.pairwise_cons.mpr ⟨fun now hnow => ?_, List.pairwise_replicate.mpr (.inr le_rfl)⟩
    rw [List.eq_of_mem_replicate hnow]
    decide
  · rcases List.mem_cons.mp hnow with rfl | hnow
    · decide
    · rw [List.eq_of_mem_replicate hnow]
      decide

end Sample

end DurableWorkflows
