import DurableWorkflows.Schedule.Materializer

/-!
# Schedules as a transition system

Any number of instances tick, upgrade, pause, resume and run a schedule, each
with a definition and a clock sample of its own, while the engine moves the
workflows. A tick or run-now holds the lock of its schedule's state row from its
count of the active workflows to its end; the engine's transactions do not take
that lock and may come in between.

## Main definitions

- `Holder`, `Schedules`: the open transactions and the state
- `ScheduleAction`, `Schedules.exec`, `Schedules.run`
-/

namespace DurableWorkflows

open Transaction

variable {library : CalendarLibrary}

/-- The transaction that holds the lock of a state row. -/
inductive Holder (library : CalendarLibrary)
  /-- A tick at `now` that counted `active` workflows. -/
  | tick (definition : RegisteredSchedule library) (active : ℕ) (now : DbMillis)
  /-- A run-now that passed its check of the overlap policy. -/
  | runNow (definition : RegisteredSchedule library) (operator : Operator)

/-- A state of the engine with its schedules and their open transactions. -/
structure Schedules (library : CalendarLibrary) where
  store : ScheduleStore
  held : String → Option (Holder library)

namespace Schedules

/-- The state after the migrations. -/
def init : Schedules library := ⟨.init, fun _ => none⟩

end Schedules

/-- The transactions of the engine and its schedules with the parameters the
environment chooses. -/
inductive ScheduleAction (library : CalendarLibrary)
  /-- A transaction of the engine. -/
  | engine (action : Action)
  /-- The reconciliation of a definition (T-S1). -/
  | reconcile (definition : RegisteredSchedule library) (now : DbMillis)
  /-- A tick (T-S2) locks its state row and counts the active workflows. -/
  | openTick (definition : RegisteredSchedule library) (now : DbMillis)
  | openRunNow (definition : RegisteredSchedule library) (operator : Operator)
  /-- The holder of a lock writes its rows and commits, or rolls back. -/
  | close (key : String) (handler : ScheduleHandler) (now : DbMillis)
  /-- The holder of a lock rolls back: its process fails. -/
  | abandon (key : String)
  | setPaused (definition : RegisteredSchedule library) (paused : Bool) (operator : Operator)
      (now : DbMillis)

/-- Why an action does not happen: it waits for a lock, or it rolls back. -/
inductive Stop
  | waits
  | fails (error : DurableError)

namespace Schedules

/-- Run a transaction on the store. -/
def transact {α : Type} (s : Schedules library) (x : ScheduleTx α)
    (record : α → Schedules library → Schedules library) : Except Stop (Schedules library) :=
  match x s.store with
  | .ok (a, store) => .ok (record a { s with store })
  | .error e => .error (.fails e)

/-- Run a transaction that takes the lock of a state row. -/
def transactLocked {α : Type} (s : Schedules library) (key : String) (x : ScheduleTx α)
    (record : α → Schedules library → Schedules library) : Except Stop (Schedules library) :=
  if (s.held key).isSome then .error .waits else s.transact x record

/-- The transaction of a holder takes or gives back the lock. -/
def hold (s : Schedules library) (key : String) (holder : Option (Holder library)) :
    Schedules library :=
  { s with held := Function.update s.held key holder }

/-- The writes of a holder. -/
def finish (handler : ScheduleHandler) (now : DbMillis) : Holder library → ScheduleTx Unit
  | .tick definition active tickedAt => do
    let _ ← materializeDue definition handler active tickedAt
  | .runNow definition operator => do
    let _ ← startRunNow definition handler operator now

/-- The end of a holder's transaction: its writes are committed if they succeed,
and its lock is released. -/
def close (s : Schedules library) (key : String) (handler : ScheduleHandler) (now : DbMillis)
    (holder : Holder library) : Schedules library :=
  match finish handler now holder s.store with
  | .ok (_, store) => { s with store }.hold key none
  | .error _ => s.hold key none

/-- One action: the state after it, or why it does not happen. -/
def exec (externals : Externals) (s : Schedules library) :
    ScheduleAction library → Except Stop (Schedules library)
  | .engine action =>
    match DurableWorkflows.exec externals s.store.sys action with
    | .ok sys => .ok { s with store := { s.store with sys } }
    | .error e => .error (.fails e)
  | .reconcile definition now =>
    s.transactLocked definition.metadata.key (reconcileState definition now) fun _ s => s
  | .openTick definition now =>
    s.transactLocked definition.metadata.key (openTick definition) fun active s =>
      match active with
      | none => s
      | some active => s.hold definition.metadata.key (some (.tick definition active now))
  | .openRunNow definition operator =>
    s.transactLocked definition.metadata.key (openRunNow definition operator) fun _ s =>
      s.hold definition.metadata.key (some (.runNow definition operator))
  | .close key handler now =>
    match s.held key with
    | none => .error .waits
    | some holder => .ok (s.close key handler now holder)
  | .abandon key => .ok (s.hold key none)
  | .setPaused definition paused operator now =>
    s.transactLocked definition.metadata.key (setSchedulePaused definition paused operator now)
      fun _ s => s

/-- The state after an action; one that does not happen leaves it as it was. -/
def step (externals : Externals) (s : Schedules library) (action : ScheduleAction library) :
    Schedules library :=
  Machine.step (exec externals) s action

/-- The state after a list of actions. -/
def run (externals : Externals) (s : Schedules library) (actions : List (ScheduleAction library)) :
    Schedules library :=
  Machine.run (exec externals) s actions

end Schedules

-- ════════════════════════════════════════════════════════════════════════
-- A sample schedule
-- ════════════════════════════════════════════════════════════════════════

namespace Sample

/-- A cron expression for every full minute. -/
def minutes : Cron where
  after t := some (t - t % 60000 + 60000)
  later := by
    intro t t' h
    have hlinear : ∀ a : ℤ, a < a - a % 60000 + 60000 := by omega
    cases h
    exact hlinear t
  whole := by
    intro t t' h
    have hlinear : ∀ a : ℤ, (a - a % 60000 + 60000) % 1000 = 0 := by omega
    cases h
    exact hlinear t

/-- The time zone whose wall clock shows UTC. -/
def utc : TimeZone where
  name := "UTC"
  fromLocalDatetime t := .single t
  naiveLocal i := i
  offset := by
    intro t i h
    have hlinear : ∀ a : ℤ, a - 86400000 ≤ a := by omega
    cases h
    exact hlinear t
  naiveLocal_offset i := by
    have hlinear : ∀ a : ℤ, a - 86400000 ≤ a := by omega
    exact hlinear i
  naiveLocal_single := by
    intro t i h
    cases h
    rfl
  mono := by
    intro t t' i i' hle h h'
    cases h
    cases h'
    exact hle
  gap_single := by
    intro t k first second hgap hpos
    cases hgap 0 hpos

def calendars : CalendarLibrary where
  cron text := if text = "0 * * * * *" then .ok minutes else .error "Invalid expression"
  timezone name := if name = "UTC" then some utc else none

/-- A schedule for every full minute. -/
def schedule (version : ℤ) (overlap : OverlapPolicy) : RegisteredSchedule calendars where
  metadata := ⟨"s", version, "0 * * * * *", "UTC", .catchUp 10, overlap, 1000⟩
  calendar := ⟨minutes, utc⟩
  named := rfl

/-- Every occurrence starts the sample workflow. -/
def handler : ScheduleHandler := fun _ scheduledFor => .ok ⟨workflow, none, scheduledFor⟩

end Sample

end DurableWorkflows
