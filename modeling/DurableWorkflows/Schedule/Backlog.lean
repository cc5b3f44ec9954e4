import DurableWorkflows.Schedule.Cursor

/-!
# The backlog of a schedule

Between two upgrades the rows of a schedule are a walk through its calendar from
the cursor it was inserted with: a tick takes up the walk where the last one left
it, in chunks of `maxDueOccurrencesPerTick`. A tick that finds fewer due
occurrences than that has recorded every one of them.

## Main definitions

- `ScheduleStore.occurrences`: the occurrences of a schedule that have a run row
- `ScheduleAction.Steady`: the actions that keep the definition and the clock
- `Backlog`: the rows of a schedule are a walk that ends at its cursor

## Main results

- `Schedules.run_backlog`: after such a tick the rows are exactly the due occurrences
-/

namespace DurableWorkflows

open Transaction

variable {library : CalendarLibrary} {externals : Externals}

/-- The occurrence of a schedule that a slot is for. -/
def slotOccurrence (key : String) (slot : String × OccurrenceKey) : Option LocalOccurrence :=
  if slot.1 = key then slot.2.occurrence else none

/-- The occurrences of a schedule that have a run row, in the order of the rows. -/
def ScheduleStore.occurrences (s : ScheduleStore) (key : String) : List LocalOccurrence :=
  s.slots.filterMap (slotOccurrence key)

/-- The action does not upgrade the schedule, and no tick of it has a clock
sample after `now`. -/
def ScheduleAction.Steady (schedule : DurableSchedule) (now : DbMillis) :
    ScheduleAction library → Prop
  | .reconcile definition _ =>
    definition.metadata.key = schedule.key → definition.metadata.version ≤ schedule.version
  | .openTick definition tickedAt => definition.metadata.key = schedule.key → tickedAt ≤ now
  | _ => True

namespace Schedules

variable {s s' : Schedules library} {action : ScheduleAction library} {store : ScheduleStore}
  {definition : RegisteredSchedule library} {o : ScheduleOccurrence} {now : DbMillis}
  {row : ScheduleStateRow} {key : String}

/-- The rows of the schedule are a walk from `o` to the cursor, all of it due at
`now`, and no tick that holds the lock is after `now`. -/
structure Backlog (definition : RegisteredSchedule library) (o : ScheduleOccurrence)
    (now : DbMillis) (s : Schedules library) : Prop where
  walk : ∃ row walk next, s.store.states definition.metadata.key = some row ∧
    row.matches definition.metadata ∧ definition.calendar.Walk o walk next ∧
    next.localOccurrence = row.nextLocalOccurrence ∧
    s.store.occurrences definition.metadata.key = walk.map (·.localOccurrence) ∧
    ∀ x ∈ walk, x.dueAt ≤ now
  ticks : ∀ definition' active tickedAt,
    s.held definition.metadata.key = some (.tick definition' active tickedAt) → tickedAt ≤ now

section Slots

variable {new : List (String × OccurrenceKey)} {due : List ScheduleOccurrence}

/-- Rows of run-nows and of other schedules are for no occurrence of the schedule. -/
theorem occurrences_append_of_none (hslots : store.slots = s.store.slots ++ new)
    (hnew : ∀ slot ∈ new, slotOccurrence key slot = none) :
    store.occurrences key = s.store.occurrences key := by
  rw [ScheduleStore.occurrences, ScheduleStore.occurrences, hslots, List.filterMap_append,
    List.filterMap_eq_nil_iff.mpr hnew, List.append_nil]

/-- The rows of a tick are for its due occurrences. -/
theorem occurrences_append_due
    (hslots : store.slots = s.store.slots ++ due.map fun x => (key, .local x.localOccurrence)) :
    store.occurrences key = s.store.occurrences key ++ due.map (·.localOccurrence) := by
  rw [ScheduleStore.occurrences, ScheduleStore.occurrences, hslots, List.filterMap_append,
    List.filterMap_map]
  congr 1
  rw [← List.filterMap_eq_map]
  refine List.filterMap_congr fun x _ => ?_
  simp [slotOccurrence, OccurrenceKey.occurrence]

/-- A tick of another schedule. -/
theorem occurrences_append_other {key' : String} (hkey : key' ≠ key)
    (hslots : store.slots = s.store.slots ++ due.map fun x => (key', .local x.localOccurrence)) :
    store.occurrences key = s.store.occurrences key := by
  refine occurrences_append_of_none hslots fun slot hslot => ?_
  obtain ⟨_, _, rfl⟩ := List.mem_map.mp hslot
  exact if_neg hkey

end Slots

section Steps

/-- A step that leaves the schedule, its rows and its lock alone. -/
theorem Backlog.congr (h : Backlog definition o now s)
    (hstates : s'.store.states definition.metadata.key = s.store.states definition.metadata.key)
    (hrows : s'.store.occurrences definition.metadata.key =
      s.store.occurrences definition.metadata.key)
    (hheld : ∀ holder, s'.held definition.metadata.key = some holder →
      s.held definition.metadata.key = some holder) : Backlog definition o now s' where
  walk := by
    rw [hstates, hrows]
    exact h.walk
  ticks definition' active tickedAt hholder := h.ticks definition' active tickedAt (hheld _ hholder)

/-- A tick goes on with the walk. -/
theorem Backlog.ticked {definition' : RegisteredSchedule library} {active : ℕ} {tickedAt : DbMillis}
    {report : Report} (h : Backlog definition o now s) (hs : s.Inv) (ho : definition.calendar.Resolves o)
    (hheld : s.held definition.metadata.key = some (.tick definition' active tickedAt))
    (ht : Ticked definition' active tickedAt report s.store store) :
    ∃ row walk next, store.states definition.metadata.key = some row ∧
      row.matches definition.metadata ∧ definition.calendar.Walk o walk next ∧
      next.localOccurrence = row.nextLocalOccurrence ∧
      store.occurrences definition.metadata.key = walk.map (·.localOccurrence) ∧
      (∀ x ∈ walk, x.dueAt ≤ now) ∧
      (report.inspected < maxDueOccurrencesPerTick → tickedAt < next.dueAt) := by
  obtain ⟨state, first, next, due, heffect⟩ := tickEffect_of_ticked hs hheld ht
  obtain ⟨row, walk, cursor, hrow, hmatches, hwalk, hcursor, hrows, hdue⟩ := h.walk
  obtain ⟨-, row', hrow', hmatches'⟩ := hs.held _ _ hheld
  cases hrow.symm.trans heffect.locked
  cases hrow.symm.trans hrow'
  -- the tick has the definition of the row, and so its calendar
  have hcalendar : definition'.calendar = definition.calendar := by
    have hnamed := definition'.named
    rw [show definition'.metadata = definition.metadata from hmatches'.2.symm.trans hmatches.2,
      definition.named] at hnamed
    exact (Except.ok.inj hnamed).symm
  have hplanned := heffect.planned
  have hfirst := heffect.first
  rw [hcalendar] at hplanned hfirst
  obtain ⟨hnext, hpast, -, hlast⟩ := collectDue_walk hplanned
  have hcurrent := (hwalk.resolves ho).2
  rw [← hcursor, hcurrent.datetime] at hfirst
  cases hcurrent.2.symm.trans hfirst
  have hpast' : ∀ x ∈ walk ++ due, x.dueAt ≤ now := by
    intro x hx
    rcases List.mem_append.mp hx with hx | hx
    · exact hdue x hx
    · exact (hpast x hx).trans (h.ticks _ _ _ hheld)
  have hrows' : store.occurrences definition.metadata.key =
      (walk ++ due).map (·.localOccurrence) := by
    rw [occurrences_append_due heffect.slots, hrows, List.map_append]
  have hfew : report.inspected < maxDueOccurrencesPerTick → tickedAt < next.dueAt := by
    rw [heffect.inspected]
    exact hlast
  rcases heffect.cursor with ⟨hnone, hstates⟩ | ⟨hstates, -⟩
  · subst hnone
    cases hnext
    exact ⟨state, walk ++ [], _, by rw [hstates, hrow], hmatches, hwalk.append (.nil _), hcursor,
      hrows', hpast', hfew⟩
  · exact ⟨state.movedTo next tickedAt, walk ++ due, next, by rw [hstates, Function.update_self], hmatches, hwalk.append hnext,
      rfl, hrows', hpast', hfew⟩

theorem held_of_release {holder : Holder library} {key' : String}
    (h : (s.hold key none).held key' = some holder) : s.held key' = some holder := by
  change Function.update s.held key none key' = some holder at h
  by_cases hkey : key' = key
  · rw [hkey, Function.update_self] at h
    cases h
  · rwa [Function.update_of_ne hkey] at h

/-- The lock of a schedule is taken, for a tick that is not after `now`. -/
theorem Backlog.hold {holder : Holder library} (h : Backlog definition o now s)
    (hticks : key = definition.metadata.key → ∀ definition' active tickedAt,
      holder = .tick definition' active tickedAt → tickedAt ≤ now) :
    Backlog definition o now (s.hold key (some holder)) where
  walk := h.walk
  ticks definition' active tickedAt hheld := by
    change Function.update s.held key (some holder) definition.metadata.key = _ at hheld
    by_cases hkey : definition.metadata.key = key
    · rw [hkey, Function.update_self] at hheld
      exact hticks hkey.symm definition' active tickedAt (Option.some.inj hheld)
    · rw [Function.update_of_ne hkey] at hheld
      exact h.ticks definition' active tickedAt hheld

/-- A write of a state row that keeps the definition and the cursor of the schedule. -/
theorem Backlog.setState (h : Backlog definition o now s)
    (hrow : key = definition.metadata.key → ∀ old, s.store.states key = some old →
      row.position = old.position) :
    Backlog definition o now { s with store := s.store.setState key row } := by
  by_cases hkey : definition.metadata.key = key
  · refine ⟨?_, h.ticks⟩
    obtain ⟨old, walk, next, hold, hmatches, hwalk, hcursor, hrows, hdue⟩ := h.walk
    have hposition := hrow hkey.symm old (hkey ▸ hold)
    have hmatches' : row.matches definition.metadata :=
      ⟨(congrArg (·.2.2.1) hposition).trans hmatches.1, (congrArg (·.2.1) hposition).trans hmatches.2⟩
    refine ⟨row, walk, next, ?_, hmatches', hwalk, ?_, hrows, hdue⟩
    · change Function.update s.store.states key (some row) definition.metadata.key = some row
      rw [hkey, Function.update_self]
    · exact hcursor.trans (congrArg (·.2.2.2.1) hposition).symm
  · refine h.congr ?_ rfl fun _ => id
    exact Function.update_of_ne hkey ..

/-- A reconciliation that is no upgrade. -/
theorem Backlog.reconciled {definition' : RegisteredSchedule library} {deployedAt : DbMillis}
    (h : Backlog definition o now s) (hs : s.Inv)
    (hsteady : definition'.metadata.key = definition.metadata.key →
      definition'.metadata.version ≤ definition.metadata.version)
    (hr : Reconciled definition' deployedAt s.store store) :
    Backlog definition o now { s with store } := by
  obtain ⟨row, -, -, hrow, hmatches, -⟩ := h.walk
  cases hr with
  | inserted next absent _ hstore =>
    subst hstore
    refine h.setState fun hkey => ?_
    rw [hkey, hrow] at absent
    cases absent
  | kept hstore =>
    subst hstore
    exact h
  | upgraded old target locked older _ _ hstore =>
    rw [(hs.state _ old locked).scheduleKey] at hstore
    subst hstore
    refine h.setState fun hkey => ?_
    rw [hkey, hrow] at locked
    cases locked
    rw [hmatches.1] at older
    exact absurd (hsteady hkey) (not_le.mpr older)

/-- **Step lemma**. -/
theorem Backlog.transits (h : Backlog definition o now s) (hs : s.Inv)
    (ho : definition.calendar.Resolves o) (hsteady : action.Steady definition.metadata now)
    (ht : Transits externals s action s') : Backlog definition o now s' := by
  cases ht with
  | engine => exact h.congr rfl rfl fun _ => id
  | reconciled _ hr => exact h.reconciled hs hsteady hr
  | tickPaused => exact h
  | tickOpened =>
    refine h.hold fun hkey definition' active tickedAt hholder => ?_
    cases hholder
    exact hsteady hkey
  | runNowOpened =>
    refine h.hold fun _ definition' active tickedAt hholder => ?_
    cases hholder
  | @ticked key _ _ tickedAt definition' active report store held ticked =>
    by_cases hkey : definition.metadata.key = key
    · subst hkey
      obtain ⟨row, walk, next, hrow, hmatches, hwalk, hcursor, hrows, hdue, -⟩ :=
        h.ticked hs ho held ticked
      refine ⟨⟨row, walk, next, hrow, hmatches, hwalk, hcursor, hrows, hdue⟩, ?_⟩
      exact fun definition' active tickedAt hholder => h.ticks _ _ _ (held_of_release hholder)
    · obtain ⟨state, first, next, due, heffect⟩ := tickEffect_of_ticked hs held ticked
      refine h.congr ?_ (occurrences_append_other (Ne.symm hkey) heffect.slots)
        fun holder => held_of_release
      rcases heffect.cursor with ⟨-, hstates⟩ | ⟨hstates, -⟩
      · exact congrFun hstates _
      · exact (congrFun hstates _).trans (Function.update_of_ne hkey ..)
  | @ranNow key _ _ definition' _ run store held ran =>
    have hslots := ScheduleStore.slots_append ran.runs
    obtain ⟨t, hslot⟩ := ran.slot
    refine h.congr (congrFun ran.states _) (occurrences_append_of_none hslots fun slot hmem => ?_)
      fun holder => held_of_release
    rw [List.map_singleton, List.mem_singleton, hslot] at hmem
    subst hmem
    exact ite_self none
  | rolledBack | abandoned => exact h.congr rfl rfl fun holder => held_of_release
  | @paused definition' _ _ _ row row' _ locked position =>
    have hkey := (hs.state _ row locked).scheduleKey
    rw [hkey]
    refine h.setState fun _ old hold => ?_
    cases locked.symm.trans hold
    exact position

end Steps

section Runs

/-- A schedule that was just inserted has no rows. -/
theorem Backlog.inserted {deployedAt : DbMillis} (hs : s.Inv)
    (habsent : s.store.states definition.metadata.key = none)
    (ht : Transits externals s (.reconcile definition deployedAt) s')
    (hrow : s'.store.states definition.metadata.key = some row) :
    ∃ o, definition.calendar.resolve row.nextLocalOccurrence.datetime = .ok o ∧
      definition.calendar.Resolves o ∧ Backlog definition o now s' := by
  cases ht with
  | reconciled hfree hr =>
    cases hr with
    | inserted next _ hresolves hstore =>
      subst hstore
      change Function.update s.store.states definition.metadata.key (some _) _ = some row at hrow
      rw [Function.update_self] at hrow
      cases hrow
      have hresolve : definition.calendar.resolve next.localOccurrence.datetime = .ok next := by
        rw [hresolves.datetime]
        exact hresolves.2
      have hnone : s.store.occurrences definition.metadata.key = [] := by
        refine List.filterMap_eq_nil_iff.mpr fun slot hslot => ?_
        obtain ⟨row, hrow⟩ := hs.recorded slot hslot
        refine if_neg fun hkey => ?_
        rw [hkey, habsent] at hrow
        cases hrow
      refine ⟨next, hresolve, hresolves, ⟨_, [], next, Function.update_self .., ⟨rfl, rfl⟩, .nil _, rfl,
        hnone, fun _ hx => absurd hx List.not_mem_nil⟩, fun definition' active tickedAt hheld => ?_⟩
      cases hfree.symm.trans hheld
    | kept hstore =>
      subst hstore
      cases habsent.symm.trans hrow
    | upgraded _ _ locked => cases habsent.symm.trans locked

/-- **Run lemma**. -/
theorem Backlog.run (h : Backlog definition o now s) (externals : Externals) (hs : s.Inv)
    (ho : definition.calendar.Resolves o) {actions : List (ScheduleAction library)}
    (hsteady : ∀ action ∈ actions, action.Steady definition.metadata now) :
    (Schedules.run externals s actions).Inv ∧
      Backlog definition o now (Schedules.run externals s actions) := by
  refine Machine.run_invariant_along (I := fun s => s.Inv ∧ Backlog definition o now s) ?_ ⟨hs, h⟩
    (Machine.along_of_forall hsteady)
  rintro s action s' ⟨hs, h⟩ hsteady hok
  have htransits := exec_transits hs hok
  exact ⟨hs.transits htransits, h.transits hs ho hsteady htransits⟩

/-- The due occurrences of a walk are those before its end, if the end is not due. -/
theorem mem_walk_iff {walk passed : List ScheduleOccurrence} {next x : ScheduleOccurrence}
    (ho : definition.calendar.Resolves o) (hwalk : definition.calendar.Walk o walk next)
    (hdue : ∀ y ∈ walk, y.dueAt ≤ now) (hnext : now < next.dueAt)
    (hx : definition.calendar.Walk o passed x) : x ∈ walk ↔ x.dueAt ≤ now := by
  refine ⟨hdue x, fun hle => ?_⟩
  have hlate : ∀ rest, ¬definition.calendar.Walk next rest x := by
    intro rest hrest
    have hresolves := (hwalk.resolves ho).2
    have hbounds := (hrest.bounds hresolves).1
    have hmono := hresolves.dueAt_le (hrest.resolves hresolves).2 hbounds
    exact absurd hle (not_le.mpr (hnext.trans_le hmono))
  rcases hwalk.prefixes hx with ⟨rest, -, hrest⟩ | ⟨rest, rfl, hrest⟩
  · exact absurd hrest (hlate rest)
  · cases hrest with
    | nil => exact absurd (.nil _) (hlate [])
    | cons => exact List.mem_append_right _ List.mem_cons_self

/-- **No missed occurrence**: once a tick at `now` has found fewer due occurrences
than a chunk holds, the rows of the schedule are the walk through its calendar from
the cursor it was inserted with, and an occurrence of that walk has a row exactly if
it is due at `now`. -/
theorem run_backlog (externals : Externals) (before after : List (ScheduleAction library))
    (definition definition' : RegisteredSchedule library) (deployedAt now : DbMillis)
    (row : ScheduleStateRow) (active : ℕ) (handler : ScheduleHandler) (report : Report)
    (store : ScheduleStore)
    (habsent : (run externals init before).store.states definition.metadata.key = none)
    (hrow : (run externals init (before ++ [.reconcile definition deployedAt])).store.states
      definition.metadata.key = some row)
    (hsteady : ∀ action ∈ after, action.Steady definition.metadata now)
    (hheld : (run externals init (before ++ .reconcile definition deployedAt :: after)).held
      definition.metadata.key = some (.tick definition' active now))
    (htick : materializeDue definition' handler active now
      (run externals init (before ++ .reconcile definition deployedAt :: after)).store =
        .ok (report, store))
    (hfew : report.inspected < maxDueOccurrencesPerTick) :
    ∃ o walk next, definition.calendar.resolve row.nextLocalOccurrence.datetime = .ok o ∧
      definition.calendar.Walk o walk next ∧
      store.occurrences definition.metadata.key = walk.map (·.localOccurrence) ∧
      (store.occurrences definition.metadata.key).Pairwise (· < ·) ∧
      ∀ passed x, definition.calendar.Walk o passed x → (x ∈ walk ↔ x.dueAt ≤ now) := by
  have hs := run_inv externals before
  have hsplit : ∀ rest, run externals init (before ++ .reconcile definition deployedAt :: rest) =
      run externals (step externals (run externals init before) (.reconcile definition deployedAt))
        rest := fun rest => Machine.run_append ..
  rw [hsplit] at hrow hheld htick
  generalize run externals init before = s₀ at hs habsent hrow hheld htick
  cases hexec : exec externals s₀ (.reconcile definition deployedAt) with
  | error stop =>
    rw [step, Machine.step_of_error hexec] at hrow
    cases habsent.symm.trans hrow
  | ok s₁ =>
    rw [step, Machine.step_of_ok hexec] at hrow hheld htick
    have htransits := exec_transits hs hexec
    obtain ⟨o, hresolve, ho, hbacklog⟩ := Backlog.inserted hs habsent htransits hrow
    obtain ⟨hinv, hlater⟩ := hbacklog.run externals (hs.transits htransits) ho hsteady
    have hticked := wp_ok (wp_tick hinv hheld) htick
    obtain ⟨-, walk, next, -, -, hwalk, -, hrows, hdue, hend⟩ := hlater.ticked hinv ho hheld hticked
    refine ⟨o, walk, next, hresolve, hwalk, hrows, ?_, fun passed x hx =>
      mem_walk_iff ho hwalk hdue (hend hfew) hx⟩
    rw [hrows, List.pairwise_map]
    exact hwalk.pairwise ho

end Runs

end Schedules

namespace Sample

/-- The sample schedule under a policy that allows overlaps. -/
def minutely : RegisteredSchedule calendars := schedule 1 .allow

/-- A tick after the first full minute, and one after the second. -/
def ticks : List (ScheduleAction calendars) :=
  [.openTick minutely 70000, .close "s" handler 70000, .openTick minutely 150000]

/-- The second tick holds the lock. -/
def backlog : Schedules calendars :=
  Schedules.run Sample.externals .init ([] ++ .reconcile minutely 0 :: ticks)

/-- The second tick records the second minute. -/
theorem materializeDue_backlog : ∃ report store,
    materializeDue minutely handler 1 150000 backlog.store = .ok (report, store) ∧
      report.inspected = 1 := by
  have hcount : (match materializeDue minutely handler 1 150000 backlog.store with
      | .ok (report, _) => report.inspected == 1
      | .error _ => false) = true := by
    decide +kernel
  cases htick : materializeDue minutely handler 1 150000 backlog.store with
  | error e =>
    rw [htick] at hcount
    cases hcount
  | ok r =>
    rw [htick] at hcount
    exact ⟨r.1, r.2, rfl, beq_iff_eq.mp hcount⟩

theorem run_backlog_minutely : ∃ report store,
    materializeDue minutely handler 1 150000 backlog.store = .ok (report, store) ∧
    ∃ o walk next, minutely.calendar.resolve 60000 = .ok o ∧ minutely.calendar.Walk o walk next ∧
      store.occurrences "s" = walk.map (·.localOccurrence) ∧
      (store.occurrences "s").Pairwise (· < ·) ∧
      ∀ passed x, minutely.calendar.Walk o passed x → (x ∈ walk ↔ x.dueAt ≤ 150000) := by
  obtain ⟨report, store, htick, hcount⟩ := materializeDue_backlog
  refine ⟨report, store, htick, ?_⟩
  refine Schedules.run_backlog Sample.externals [] ticks minutely minutely 0 150000
    (initialState minutely.metadata (occurrence 60000 60000 .exact) 0) 1 handler report store rfl
    (by decide +kernel) ?_ rfl htick (by rw [hcount]; decide)
  simp [ticks, ScheduleAction.Steady]

end Sample

end DurableWorkflows
