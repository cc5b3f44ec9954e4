import DurableWorkflows.Schedule.Effects

/-!
# The cursor of a schedule

A schedule persists the key of its next occurrence. Every run row of an
occurrence has an earlier key, whoever ticks, with whichever clock sample, and
however the definition changes in between: a tick records the occurrences from
the cursor on and moves it past them, and an upgrade puts it behind every row.

## Main definitions

- `Schedules.Inv`: the invariant of the schedule tables and their locks
- `Schedules.Transits`: what an action can do

## Main results

- `Schedules.exec_transits`, `Schedules.run_inv`
- `Schedules.run_cursors`: cursors are after the rows, and no occurrence has two rows
-/

namespace DurableWorkflows

open Transaction

variable {library : CalendarLibrary} {externals : Externals}

/-- The definition of a holder. -/
def Holder.definition : Holder library → RegisteredSchedule library
  | .tick definition _ _ => definition
  | .runNow definition _ => definition

/-- What holds of the state row of a schedule: the rows of its occurrences are
before the cursor, and the due time is that of the cursor. -/
structure ScheduleStateRow.Valid (library : CalendarLibrary)
    (slots : List (String × OccurrenceKey)) (key : String) (row : ScheduleStateRow) : Prop where
  scheduleKey : row.scheduleKey = key
  after : ∀ o, (key, .local o) ∈ slots → o < row.nextLocalOccurrence
  resolved : ∃ calendar, ScheduleCalendar.new library row.definitionFingerprint.cron
    row.definitionFingerprint.timezone = .ok calendar ∧
    ∃ o, calendar.resolve row.nextLocalOccurrence.datetime = .ok o ∧ o.dueAt = row.nextOccurrenceAt

namespace Schedules

variable {s s' : Schedules library} {action : ScheduleAction library}

/-- What holds of every reachable state. -/
structure Inv (s : Schedules library) : Prop where
  state : ∀ key row, s.store.states key = some row → row.Valid library s.store.slots key
  recorded : ∀ slot ∈ s.store.slots, ∃ row, s.store.states slot.1 = some row
  unique : s.store.slots.Nodup
  held : ∀ key holder, s.held key = some holder → holder.definition.metadata.key = key ∧
    ∃ row, s.store.states key = some row ∧ row.matches holder.definition.metadata

/-- What an action can do to a state that satisfies the invariant. -/
inductive Transits (externals : Externals) (s : Schedules library) :
    ScheduleAction library → Schedules library → Prop
  | engine {action : Action} {sys : Sys}
      (moved : DurableWorkflows.exec externals s.store.sys action = .ok sys) :
      Transits externals s (.engine action) { s with store := { s.store with sys } }
  | reconciled {definition : RegisteredSchedule library} {now : DbMillis} {store : ScheduleStore}
      (free : s.held definition.metadata.key = none)
      (reconciled : Reconciled definition now s.store store) :
      Transits externals s (.reconcile definition now) { s with store }
  | tickPaused {definition : RegisteredSchedule library} {now : DbMillis} :
      Transits externals s (.openTick definition now) s
  | tickOpened {definition : RegisteredSchedule library} {now : DbMillis} {row : ScheduleStateRow}
      (free : s.held definition.metadata.key = none)
      (locked : s.store.states definition.metadata.key = some row)
      (matched : row.matches definition.metadata) :
      Transits externals s (.openTick definition now) (s.hold definition.metadata.key
        (some (.tick definition (s.store.active definition.metadata.key).length now)))
  | runNowOpened {definition : RegisteredSchedule library} {operator : Operator}
      {row : ScheduleStateRow} (free : s.held definition.metadata.key = none)
      (locked : s.store.states definition.metadata.key = some row)
      (matched : row.matches definition.metadata)
      (idle : definition.metadata.overlap = .allow ∨ s.store.active definition.metadata.key = []) :
      Transits externals s (.openRunNow definition operator)
        (s.hold definition.metadata.key (some (.runNow definition operator)))
  | ticked {key : String} {handler : ScheduleHandler} {now tickedAt : DbMillis}
      {definition : RegisteredSchedule library} {active : ℕ} {report : Report}
      {store : ScheduleStore} (held : s.held key = some (.tick definition active tickedAt))
      (ticked : Ticked definition active tickedAt report s.store store) :
      Transits externals s (.close key handler now) ({ s with store }.hold key none)
  | ranNow {key : String} {handler : ScheduleHandler} {now : DbMillis}
      {definition : RegisteredSchedule library} {operator : Operator} {row : OccurrenceRow} {store : ScheduleStore}
      (held : s.held key = some (.runNow definition operator))
      (ran : RanNow definition.metadata.key s.store store row) :
      Transits externals s (.close key handler now) ({ s with store }.hold key none)
  | rolledBack {key : String} {handler : ScheduleHandler} {now : DbMillis} :
      Transits externals s (.close key handler now) (s.hold key none)
  | abandoned {key : String} : Transits externals s (.abandon key) (s.hold key none)
  | paused {definition : RegisteredSchedule library} {paused : Bool} {operator : Operator}
      {now : DbMillis} {row row' : ScheduleStateRow}
      (free : s.held definition.metadata.key = none)
      (locked : s.store.states definition.metadata.key = some row)
      (position : row'.position = row.position) :
      Transits externals s (.setPaused definition paused operator now)
        { s with store := s.store.setState row.scheduleKey row' }

section Exec

variable {α : Type} {key : String} {x : ScheduleTx α} {Q : α → ScheduleStore → Prop}
  {record : α → Schedules library → Schedules library} {P : Schedules library → Prop}
  {definition : RegisteredSchedule library} {active : ℕ} {now : DbMillis} {handler : ScheduleHandler}

/-- A transaction behind a lock that returned had the lock to itself. -/
theorem transactLocked_ok (h : s.transactLocked key x record = .ok s')
    (hx : wp x Q (fun _ => True) s.store)
    (hQ : s.held key = none → ∀ a store, Q a store → P (record a { s with store })) : P s' := by
  unfold transactLocked transact at h
  split at h
  · cases h
  rename_i hfree
  split at h
  · cases h
    exact hQ (Option.not_isSome_iff_eq_none.mp hfree) _ _ (wp_ok hx ‹_›)
  · cases h

theorem close_of_ok {holder : Holder library} {store : ScheduleStore}
    (h : finish handler now holder s.store = .ok ((), store)) :
    s.close key handler now holder = { s with store }.hold key none := by
  simp [close, h]

theorem close_of_error {holder : Holder library} {e : DurableError}
    (h : finish handler now holder s.store = .error e) :
    s.close key handler now holder = s.hold key none := by
  simp [close, h]

/-- A tick from a state that satisfies the invariant. -/
theorem wp_tick (h : s.Inv) (hheld : s.held key = some (.tick definition active now)) :
    wp (materializeDue definition handler active now) (Ticked definition active now · s.store ·)
      (Excused handler) s.store := by
  refine wp_materializeDue (fun _ he => he) fun state hstate => ?_
  obtain ⟨hkey, row, hrow, hmatches⟩ := h.held key _ hheld
  change definition.metadata.key = key at hkey
  subst hkey
  cases hrow.symm.trans hstate
  have hvalid := h.state _ state hrow
  refine ⟨fun o ho => ?_, hvalid.after⟩
  -- the persisted definition names the calendar of the tick
  obtain ⟨calendar, hnew, o', ho', hdue⟩ := hvalid.resolved
  rw [hmatches.2] at hnew
  cases hnew.symm.trans definition.named
  cases ho'.symm.trans ho
  exact hdue

/-- **Inversion**: what an action that succeeded has done. -/
theorem exec_transits (h : s.Inv) (hok : exec externals s action = .ok s') :
    Transits externals s action s' := by
  cases action with
  | engine action =>
    rw [exec] at hok
    split at hok
    · cases hok
      exact .engine ‹_›
    · cases hok
  | reconcile definition now =>
    exact transactLocked_ok hok wp_reconcileState fun hfree _ _ hreconciled => .reconciled hfree hreconciled
  | openTick definition now =>
    refine transactLocked_ok hok (Q := fun active store => store = s.store ∧
      ((active = none) ∨ ∃ row, s.store.states definition.metadata.key = some row ∧
        row.matches definition.metadata ∧
        active = some (s.store.active definition.metadata.key).length)) ?_ ?_
    · simp only [openTick, lockState, activeWorkflowCount, wp_bind, wp_read, wp_orAbort, wp_ensure,
        wp_ite, wp_pure]
      exact ⟨fun row hrow => ⟨fun hmatches => ⟨fun _ => ⟨trivial, .inl trivial⟩,
        fun _ => ⟨trivial, .inr ⟨row, hrow, hmatches, trivial⟩⟩⟩, fun _ => trivial⟩, fun _ => trivial⟩
    · rintro hfree active store ⟨rfl, rfl | ⟨row, hrow, hmatches, rfl⟩⟩
      · exact .tickPaused
      · exact .tickOpened hfree hrow hmatches
  | openRunNow definition operator =>
    refine transactLocked_ok hok (Q := fun _ store => store = s.store ∧
      ∃ row, s.store.states definition.metadata.key = some row ∧ row.matches definition.metadata ∧
        (definition.metadata.overlap = .allow ∨ s.store.active definition.metadata.key = [])) ?_ ?_
    · simp only [openRunNow, lockScheduleState, activeWorkflowCount, wp_bind, wp_ofExcept, wp_read,
        wp_orAbort, wp_ensure, wp_ite, wp_pure]
      refine ⟨fun _ _ => ⟨fun row hrow => ⟨fun hmatches => ⟨fun _ => ⟨fun hidle => ?_,
        fun _ => trivial⟩, fun hallow => ?_⟩, fun _ => trivial⟩, fun _ => trivial⟩, fun _ _ => trivial⟩
      · exact ⟨trivial, row, hrow, hmatches, .inr (List.length_eq_zero_iff.mp hidle)⟩
      · exact ⟨trivial, row, hrow, hmatches, .inl (not_not.mp hallow)⟩
    · rintro hfree _ store ⟨rfl, row, hrow, hmatches, hidle⟩
      exact .runNowOpened hfree hrow hmatches hidle
  | close key handler now =>
    rw [exec] at hok
    split at hok
    · cases hok
    rename_i holder hheld
    cases hok
    cases hfinish : finish handler now holder s.store with
    | ok r =>
      obtain ⟨⟨⟩, store⟩ := r
      rw [close_of_ok hfinish]
      cases holder with
      | tick definition active tickedAt =>
        have htick : wp (finish handler now (.tick definition active tickedAt)) (fun _ store =>
            ∃ report, Ticked definition active tickedAt report s.store store) (Excused handler)
            s.store := by
          rw [finish, wp_bind]
          exact wp_imp (wp_tick h hheld) fun report store hticked => ⟨report, hticked⟩
        obtain ⟨report, hticked⟩ := wp_ok htick hfinish
        exact .ticked hheld hticked
      | runNow definition operator =>
        have hran : wp (finish handler now (.runNow definition operator)) (fun _ store =>
            ∃ row, RanNow definition.metadata.key s.store store row) (fun _ => True) s.store := by
          rw [finish, wp_bind]
          exact wp_imp wp_startRunNow fun _ _ hran => hran
        obtain ⟨row, hran⟩ := wp_ok hran hfinish
        exact .ranNow hheld hran
    | error e =>
      rw [close_of_error hfinish]
      exact .rolledBack
  | abandon key =>
    cases hok
    exact .abandoned
  | setPaused definition paused operator now =>
    refine transactLocked_ok hok wp_setSchedulePaused ?_
    rintro hfree _ _ ⟨row, row', hrow, rfl, hposition⟩
    exact .paused hfree hrow hposition

end Exec

section Preservation

variable {key : String} {row : ScheduleStateRow} {store : ScheduleStore}
  {slots new : List (String × OccurrenceKey)} {definition : RegisteredSchedule library}
  {active : ℕ} {now : DbMillis}

/-- New rows that are for no occurrence of the schedule. -/
theorem valid_append (h : row.Valid library slots key) (hnew : ∀ o, (key, .local o) ∉ new) :
    row.Valid library (slots ++ new) key where
  scheduleKey := h.scheduleKey
  after o ho := h.after o ((List.mem_append.mp ho).resolve_right (hnew o))
  resolved := h.resolved

/-- A state row whose cursor is an occurrence of its own calendar. -/
theorem valid_of_resolves {o : ScheduleOccurrence} (hkey : row.scheduleKey = key)
    (hfingerprint : row.definitionFingerprint = definition.metadata)
    (hlocal : row.nextLocalOccurrence = o.localOccurrence) (hdue : row.nextOccurrenceAt = o.dueAt)
    (ho : definition.calendar.Resolves o)
    (hafter : ∀ o', (key, .local o') ∈ slots → o' < o.localOccurrence) :
    row.Valid library slots key where
  scheduleKey := hkey
  after o' ho' := by
    rw [hlocal]
    exact hafter o' ho'
  resolved := by
    rw [hfingerprint, hlocal, hdue, ho.datetime]
    exact ⟨definition.calendar, definition.named, o, ho.2, rfl⟩

theorem Inv.init : (init : Schedules library).Inv where
  state _ _ h := by cases h
  recorded _ h := by cases h
  unique := List.nodup_nil
  held _ _ h := by cases h

/-- The invariant reads the state rows, the slots of the run rows and the holders. -/
theorem Inv.congr (h : s.Inv) (hstates : store.states = s.store.states)
    (hslots : store.slots = s.store.slots) : { s with store }.Inv where
  state key row hrow := by
    change store.states key = some row at hrow
    rw [hslots]
    exact h.state key row (hstates ▸ hrow)
  recorded slot hslot := by
    change slot ∈ store.slots at hslot
    rw [hslots] at hslot
    obtain ⟨row, hrow⟩ := h.recorded slot hslot
    exact ⟨row, hstates ▸ hrow⟩
  unique := by
    change store.slots.Nodup
    rw [hslots]
    exact h.unique
  held key holder hholder := by
    obtain ⟨hkey, row, hrow, hmatches⟩ := h.held key holder hholder
    exact ⟨hkey, row, hstates ▸ hrow, hmatches⟩

/-- A lock is taken with a definition that matches the state row, or released. -/
theorem Inv.hold {holder : Option (Holder library)} (h : s.Inv)
    (hholder : ∀ x ∈ holder, x.definition.metadata.key = key ∧
      ∃ row, s.store.states key = some row ∧ row.matches x.definition.metadata) :
    (s.hold key holder).Inv where
  state := h.state
  recorded := h.recorded
  unique := h.unique
  held key' x hx := by
    change Function.update s.held key holder key' = some x at hx
    by_cases hkey : key' = key
    · subst hkey
      rw [Function.update_self] at hx
      exact hholder x hx
    · rw [Function.update_of_ne hkey] at hx
      exact h.held key' x hx

theorem Inv.release (h : s.Inv) (key : String) : (s.hold key none).Inv :=
  h.hold fun _ hx => by cases hx

/-- A write of the state row of a schedule whose lock nobody else holds. -/
theorem Inv.setState (h : s.Inv) (hfree : s.held key = none)
    (hrow : row.Valid library s.store.slots key) :
    { s with store := s.store.setState key row }.Inv where
  state key' row' hrow' := by
    change Function.update s.store.states key (some row) key' = some row' at hrow'
    by_cases hkey : key' = key
    · subst hkey
      rw [Function.update_self] at hrow'
      cases hrow'
      exact hrow
    · rw [Function.update_of_ne hkey] at hrow'
      exact h.state key' row' hrow'
  recorded slot hslot := by
    change ∃ row', Function.update s.store.states key (some row) slot.1 = some row'
    by_cases hkey : slot.1 = key
    · rw [hkey, Function.update_self]
      exact ⟨row, rfl⟩
    · rw [Function.update_of_ne hkey]
      exact h.recorded slot hslot
  unique := h.unique
  held key' holder hholder := by
    have hkey : key' ≠ key := by
      rintro rfl
      cases hfree.symm.trans hholder
    obtain ⟨hdefinition, row', hrow', hmatches⟩ := h.held key' holder hholder
    refine ⟨hdefinition, row', ?_, hmatches⟩
    change Function.update s.store.states key (some row) key' = some row'
    rw [Function.update_of_ne hkey]
    exact hrow'

/-- New rows of a schedule, with the cursor behind them. -/
theorem Inv.append (h : s.Inv) (hstates : store.states = s.store.states)
    (hslots : store.slots = s.store.slots ++ new) (hunique : store.slots.Nodup)
    (hnew : ∀ slot ∈ new, slot.1 = key) (hrow : s.store.states key = some row)
    (hafter : ∀ o, (key, .local o) ∈ new → o < row.nextLocalOccurrence) : { s with store }.Inv where
  state key' row' hrow' := by
    change store.states key' = some row' at hrow'
    rw [hstates] at hrow'
    have hvalid := h.state key' row' hrow'
    change row'.Valid library store.slots key'
    rw [hslots]
    by_cases hkey : key' = key
    · subst hkey
      cases hrow.symm.trans hrow'
      refine ⟨hvalid.scheduleKey, fun o ho => ?_, hvalid.resolved⟩
      exact (List.mem_append.mp ho).elim (hvalid.after o) (hafter o)
    · exact valid_append hvalid fun o ho => hkey (hnew _ ho)
  recorded slot hslot := by
    change slot ∈ store.slots at hslot
    change ∃ row', store.states slot.1 = some row'
    rw [hslots, List.mem_append] at hslot
    rw [hstates]
    rcases hslot with hslot | hslot
    · exact h.recorded slot hslot
    · rw [hnew slot hslot]
      exact ⟨row, hrow⟩
  unique := hunique
  held key' holder hholder := by
    obtain ⟨hdefinition, row', hrow', hmatches⟩ := h.held key' holder hholder
    exact ⟨hdefinition, row', hstates ▸ hrow', hmatches⟩

/-- What a tick does to the rows of its schedule and to its cursor. -/
structure TickEffect (definition : RegisteredSchedule library) (now : DbMillis) (report : Report)
    (key : String) (s s' : ScheduleStore) (state : ScheduleStateRow) (o next : ScheduleOccurrence)
    (due : List ScheduleOccurrence) : Prop where
  locked : s.states key = some state
  first : definition.calendar.resolve state.nextLocalOccurrence.datetime = .ok o
  planned : collectDue definition.calendar now maxDueOccurrencesPerTick o = .ok (due, next)
  slots : s'.slots = s.slots ++ due.map fun x => (key, .local x.localOccurrence)
  unique : s.slots.Nodup → s'.slots.Nodup
  inspected : report.inspected = due.length
  cursor : (due = [] ∧ s'.states = s.states) ∨
    (s'.states = Function.update s.states key (some (state.movedTo next now)) ∧
      state.nextLocalOccurrence < next.localOccurrence)

theorem tickEffect_of_ticked {report : Report} (h : s.Inv)
    (hheld : s.held key = some (.tick definition active now))
    (ht : Ticked definition active now report s.store store) :
    ∃ state o next due, TickEffect definition now report key s.store store state o next due := by
  obtain ⟨state, o, next, due, new, p, p', s₁, s₂, hlocked, hpromotes, hfirst, -, hplanned,
    hbatch, hinspected, hmoves⟩ := ht
  obtain ⟨hkey, -⟩ := h.held key _ hheld
  change definition.metadata.key = key at hkey
  rw [hkey] at hlocked hpromotes hbatch
  have hslots := slots_of_batch hpromotes hbatch
  rw [List.map_map] at hslots
  have hunique : s.store.slots.Nodup → s₂.slots.Nodup := fun hs =>
    hbatch.unique (hpromotes.slots ▸ hs)
  have hstates : s₂.states = s.store.states := hbatch.states.trans hpromotes.states
  refine ⟨state, o, next, due, ?_⟩
  cases hmoves with
  | stays hnone hstore =>
    subst hstore
    exact ⟨hlocked, hfirst, hplanned, hslots, hunique, hinspected, .inl ⟨hnone, hstates⟩⟩
  | moves _ _ hlater hstore =>
    rw [(h.state key state hlocked).scheduleKey] at hstore
    subst hstore
    exact ⟨hlocked, hfirst, hplanned, hslots, hunique, hinspected,
      .inr ⟨congrArg (Function.update · key _) hstates, hlater⟩⟩

/-- A tick keeps the invariant. -/
theorem Inv.ticked {report : Report} (h : s.Inv)
    (hheld : s.held key = some (.tick definition active now))
    (ht : Ticked definition active now report s.store store) : ({ s with store }.hold key none).Inv := by
  obtain ⟨state, o, next, due, hlocked, hfirst, hplanned, hslots, hunique, -, hcursor⟩ :=
    tickEffect_of_ticked h hheld ht
  obtain ⟨-, row, hrow, hmatches⟩ := h.held key _ hheld
  cases hlocked.symm.trans hrow
  have hvalid := h.state key state hlocked
  obtain ⟨hwalk, -⟩ := collectDue_walk hplanned
  obtain ⟨hresolves, -⟩ := ScheduleCalendar.resolves_of_resolve hfirst
  rcases hcursor with ⟨hnone, hstates⟩ | ⟨hstates, hlater⟩
  · rw [hnone, List.map_nil, List.append_nil] at hslots
    exact (h.congr hstates hslots).release key
  · have hmoved : (state.movedTo next now).Valid library s.store.slots key := by
      refine valid_of_resolves hvalid.scheduleKey hmatches.2 rfl rfl (hwalk.resolves hresolves).2 ?_
      exact fun o' ho' => (hvalid.after o' ho').trans hlater
    -- the lock is released, the cursor moves and then the rows come
    refine ((h.release key).setState (Function.update_self ..) hmoved).append hstates hslots
      (hunique h.unique) ?_ (Function.update_self ..) fun o' ho' => ?_
    · intro slot hslot
      obtain ⟨_, _, rfl⟩ := List.mem_map.mp hslot
      rfl
    · obtain ⟨x, hx, hslot⟩ := List.mem_map.mp ho'
      cases hslot
      exact ((hwalk.bounds hresolves).2 x hx).2

/-- A run-now keeps the invariant. -/
theorem Inv.ranNow {run : OccurrenceRow} (h : s.Inv)
    (hrow : s.store.states key = some row) (hran : RanNow key s.store store run) :
    { s with store }.Inv := by
  obtain ⟨hruns, ⟨t, hslot⟩, hfresh, -, hstates, -⟩ := hran
  have hslots := ScheduleStore.slots_append hruns
  rw [List.map_singleton] at hslots
  refine h.append hstates hslots ?_ ?_ hrow ?_
  · rw [hslots, ← List.concat_eq_append]
    exact h.unique.concat hfresh
  · intro slot hmem
    rw [List.mem_singleton.mp hmem, hslot]
  · intro o hmem
    rw [List.mem_singleton, hslot] at hmem
    cases hmem

/-- A reconciliation keeps the invariant. -/
theorem Inv.reconciled (h : s.Inv) (hfree : s.held definition.metadata.key = none)
    (hr : Reconciled definition now s.store store) : { s with store }.Inv := by
  cases hr with
  | inserted next absent resolves hstore =>
    subst hstore
    refine h.setState hfree (valid_of_resolves rfl rfl rfl rfl resolves fun o ho => ?_)
    obtain ⟨row, hrow⟩ := h.recorded _ ho
    cases absent.symm.trans hrow
  | kept hstore =>
    subst hstore
    exact h
  | upgraded row target locked older resolves after hstore =>
    have hkey := (h.state _ row locked).scheduleKey
    rw [hkey] at hstore
    subst hstore
    exact h.setState hfree (valid_of_resolves hkey rfl rfl rfl resolves after)

/-- **Step lemma**. -/
theorem Inv.transits (h : s.Inv) (ht : Transits externals s action s') : s'.Inv := by
  cases ht with
  | engine => exact h.congr rfl rfl
  | reconciled free reconciled => exact h.reconciled free reconciled
  | tickPaused => exact h
  | @tickOpened definition _ row free locked matched =>
    refine h.hold fun x hx => ?_
    cases hx
    exact ⟨rfl, row, locked, matched⟩
  | @runNowOpened definition _ row free locked matched =>
    refine h.hold fun x hx => ?_
    cases hx
    exact ⟨rfl, row, locked, matched⟩
  | ticked held ticked => exact h.ticked held ticked
  | @ranNow key _ _ definition _ _ _ held ran =>
    obtain ⟨hkey, row, hrow, -⟩ := h.held _ _ held
    change definition.metadata.key = key at hkey
    exact (h.ranNow hrow (hkey ▸ ran)).release _
  | rolledBack | abandoned => exact h.release _
  | @paused definition _ _ _ row row' free locked position =>
    have hvalid := h.state _ row locked
    obtain ⟨hkey, hfingerprint, -, hlocal, hdue⟩ : row'.scheduleKey = row.scheduleKey ∧
        row'.definitionFingerprint = row.definitionFingerprint ∧
        row'.definitionVersion = row.definitionVersion ∧
        row'.nextLocalOccurrence = row.nextLocalOccurrence ∧
        row'.nextOccurrenceAt = row.nextOccurrenceAt := by
      simpa [ScheduleStateRow.position] using position
    rw [hvalid.scheduleKey]
    refine h.setState free ⟨hkey.trans hvalid.scheduleKey, fun o ho => ?_, ?_⟩
    · rw [hlocal]
      exact hvalid.after o ho
    · rw [hfingerprint, hlocal, hdue]
      exact hvalid.resolved

/-- The invariant holds in every reachable state. -/
theorem run_inv (externals : Externals) (actions : List (ScheduleAction library)) :
    (run externals init actions).Inv :=
  Machine.run_invariant (fun _ _ _ h hok => h.transits (exec_transits h hok)) .init actions

end Preservation

section Cursors

variable {key : String} {row : ScheduleStateRow} {store : ScheduleStore}
  {definition : RegisteredSchedule library} {active : ℕ} {now : DbMillis}

/-- The state row of every schedule stays, and its version does not decrease. -/
def VersionsGrow (s s' : Schedules library) : Prop :=
  ∀ key row, s.store.states key = some row →
    ∃ row', s'.store.states key = some row' ∧ row.definitionVersion ≤ row'.definitionVersion

theorem VersionsGrow.of_states (h : s'.store.states = s.store.states) : VersionsGrow s s' :=
  fun key row hrow => ⟨row, by rw [h, hrow], le_rfl⟩

theorem VersionsGrow.of_setState {key : String} {row' : ScheduleStateRow}
    (hstates : s'.store.states = Function.update s.store.states key (some row'))
    (hrow : ∀ row, s.store.states key = some row → row.definitionVersion ≤ row'.definitionVersion) :
    VersionsGrow s s' := by
  intro key' row hkey'
  rw [hstates]
  by_cases hkey : key' = key
  · subst hkey
    rw [Function.update_self]
    exact ⟨row', rfl, hrow row hkey'⟩
  · rw [Function.update_of_ne hkey]
    exact ⟨row, hkey', le_rfl⟩

theorem Transits.versionsGrow (h : s.Inv) (ht : Transits externals s action s') :
    VersionsGrow s s' := by
  cases ht with
  | engine | tickPaused | tickOpened | runNowOpened | rolledBack | abandoned => exact .of_states rfl
  | reconciled _ hr =>
    cases hr with
    | inserted _ absent _ hstore =>
      subst hstore
      refine .of_setState rfl fun row hrow => ?_
      cases absent.symm.trans hrow
    | kept hstore =>
      subst hstore
      exact .of_states rfl
    | upgraded row _ locked older _ _ hstore =>
      rw [(h.state _ row locked).scheduleKey] at hstore
      subst hstore
      refine .of_setState rfl fun row' hrow' => ?_
      cases locked.symm.trans hrow'
      exact older.le
  | ticked held ticked =>
    obtain ⟨state, o, next, due, heffect⟩ := tickEffect_of_ticked h held ticked
    rcases heffect.cursor with ⟨-, hstates⟩ | ⟨hstates, -⟩
    · exact .of_states hstates
    · refine .of_setState hstates fun row hrow => ?_
      cases heffect.locked.symm.trans hrow
      exact le_rfl
  | ranNow _ ran => exact .of_states ran.states
  | @paused _ _ _ _ row row' _ locked position =>
    rw [(h.state _ row locked).scheduleKey]
    refine .of_setState rfl fun row'' hrow'' => ?_
    cases locked.symm.trans hrow''
    exact (congrArg (·.2.2.1) position).ge

/-- **Versions**: a run never takes a schedule back to an older definition. -/
theorem Inv.run_versionsGrow (h : s.Inv) (externals : Externals)
    (actions : List (ScheduleAction library)) : VersionsGrow s (run externals s actions) := by
  refine Machine.run_related (P := Inv) (fun _ _ _ h hok => h.transits (exec_transits h hok))
    (fun s => .of_states rfl) ?_ (fun _ _ _ h hok => (exec_transits h hok).versionsGrow h) h actions
  intro s s' s'' hs hs' key row hrow
  obtain ⟨row', hrow', hle⟩ := hs key row hrow
  obtain ⟨row'', hrow'', hle'⟩ := hs' key row' hrow'
  exact ⟨row'', hrow'', hle.trans hle'⟩

/-- **Cursors**: in every reachable state the cursor of a schedule is after every
occurrence that has a run row, no occurrence has two rows, and the due time is
that of the cursor. So no tick violates the unique key of the occurrences, finds
that its cursor and due time disagree, or fails to move the cursor; a tick that
adds rows moves it forward, one that fails leaves the tables alone, and the
version of a definition never decreases. -/
theorem run_cursors (externals : Externals) (actions : List (ScheduleAction library)) :
    let s := run externals init actions
    (∀ r ∈ s.store.runs.toList, ∀ o, r.localOccurrence = .local o →
      ∃ row, s.store.states r.scheduleKey = some row ∧ o < row.nextLocalOccurrence) ∧
    s.store.slots.Nodup ∧
    (∀ key row, s.store.states key = some row → ∃ calendar o,
      ScheduleCalendar.new library row.definitionFingerprint.cron
        row.definitionFingerprint.timezone = .ok calendar ∧
      calendar.resolve row.nextLocalOccurrence.datetime = .ok o ∧
      o.localOccurrence = row.nextLocalOccurrence ∧ o.dueAt = row.nextOccurrenceAt) ∧
    (∀ key definition active now, s.held key = some (.tick definition active now) →
      ∀ handler, match materializeDue definition handler active now s.store with
        | .error e => e.isScheduleFault = true → ∃ run scheduledFor, handler run scheduledFor = .error e
        | .ok (_, store) => store.slots ≠ s.store.slots → ∃ row row',
            s.store.states key = some row ∧ store.states key = some row' ∧
            row.nextLocalOccurrence < row'.nextLocalOccurrence) ∧
    (∀ key holder handler now e, s.held key = some holder → finish handler now holder s.store = .error e →
      (step externals s (.close key handler now)).store = s.store) ∧
    (∀ definition now stop, exec externals s (.reconcile definition now) = .error stop →
      step externals s (.reconcile definition now) = s) ∧
    ∀ more, VersionsGrow s (run externals s more) := by
  intro s
  have h : s.Inv := run_inv externals actions
  refine ⟨fun r hr o ho => ?_, h.unique, fun key row hrow => ?_, fun key definition active now hheld
    handler => ?_, fun key holder handler now e hheld herror => ?_, fun definition now stop herror => ?_,
    fun more => h.run_versionsGrow externals more⟩
  · have hslot : (r.scheduleKey, .local o) ∈ s.store.slots :=
      List.mem_map.mpr ⟨r, hr, Prod.ext rfl ho⟩
    obtain ⟨row, hrow⟩ := h.recorded _ hslot
    exact ⟨row, hrow, (h.state _ row hrow).after o hslot⟩
  · obtain ⟨calendar, hnew, o, ho, hdue⟩ := (h.state key row hrow).resolved
    exact ⟨calendar, o, hnew, ho, (ScheduleCalendar.resolves_of_resolve ho).2, hdue⟩
  · have htick : wp (materializeDue definition handler active now)
        (Ticked definition active now · s.store ·) (Excused handler) s.store := wp_tick h hheld
    split
    · rename_i e herror
      intro hfault
      exact (wp_error htick herror).resolve_right (by simp [hfault])
    · rename_i report store hok
      intro hrows
      obtain ⟨state, o, next, due, heffect⟩ := tickEffect_of_ticked h hheld (wp_ok htick hok)
      rcases heffect.cursor with ⟨hnone, -⟩ | ⟨hstates, hlater⟩
      · exact absurd (by rw [heffect.slots, hnone, List.map_nil, List.append_nil]) hrows
      · exact ⟨state, _, heffect.locked, by rw [hstates, Function.update_self], hlater⟩
  · have hclose : exec externals s (.close key handler now) = .ok (s.close key handler now holder) := by
      rw [exec, hheld]
    rw [step, Machine.step_of_ok hclose, close_of_error herror]
    rfl
  · exact Machine.step_of_error herror

end Cursors

end Schedules

end DurableWorkflows
