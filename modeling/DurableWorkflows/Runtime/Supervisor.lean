import DurableWorkflows.Runtime.Collector

/-!
# The supervisor

`supervise` runs the tasks of a runtime: it restarts a task that fails as the
restart policy says, and cancels the runtime otherwise. The collector of activity
executions ends only once it is told to shut down, and the supervisor tells it so
when the dispatcher has ended for good.

The supervisor reads the cancellation once for each task that is joined; one that
arrives while that task is handled counts as arriving afterwards.

## Main definitions

- `TaskSpec`, `Supervisor`: the tasks, and the local state of `supervise`
- `Supervisor.handle`: what follows the end of a task
- `Supervisor.exec`: the events of a runtime
- `Supervisor.Inv`: who will shut the collector down

## Main results

- `Supervisor.run_shutdown`: the supervisor never waits for a collector nobody shuts down
-/

namespace DurableWorkflows

section Model

/-- `TaskSpec`. -/
inductive TaskSpec
  | activityExecutionManager
  | coordinator
  | health
  | timer
  | approvalExpiry
  | schedule (key : String)
  | activityDispatcher
  deriving DecidableEq, Repr

/-- `TaskSpec::name`. -/
def TaskSpec.name : TaskSpec → String
  | activityExecutionManager => "activity-execution-manager"
  | coordinator => "coordinator"
  | health => "health"
  | timer => "timer"
  | approvalExpiry => "approval-expiry"
  | schedule key => s!"schedule:{key}"
  | activityDispatcher => "activity-dispatcher"

/-- `SupervisedTask`: when the current run of a task began, after its restart delay. -/
structure SupervisedTask where
  spec : TaskSpec
  runsFrom : Duration
  deriving DecidableEq

/-- `RuntimeTaskError`. -/
structure RuntimeTaskError where
  task : String
  message : String
  panicked : Bool
  deriving DecidableEq

/-- `join_error`. -/
def JoinError.taskError (error : JoinError) (task : String) : RuntimeTaskError :=
  ⟨task, error.text, error.isPanic⟩

/-- The error of a task that returned a failure. -/
def RuntimeTaskFailure.taskError (failure : RuntimeTaskFailure) (task : String) :
    RuntimeTaskError :=
  ⟨task, failure.message, failure.kind.panicked⟩

/-- How a task of the supervisor ended. -/
inductive TaskResult
  | returned (result : Except RuntimeTaskFailure Unit)
  | joinError (error : JoinError)

/-- The error that is reported of a task that ended after the cancellation. -/
def TaskResult.error? (task : String) : TaskResult → Option RuntimeTaskError
  | returned (.ok ()) => none
  | returned (.error failure) => some (failure.taskError task)
  | joinError error => some (error.taskError task)

/-- The failure that a task is restarted after; a task is not meant to return. -/
def TaskResult.failure (task : String) : TaskResult → RuntimeTaskError × TaskFailureKind
  | returned (.ok ()) => (⟨task, "task stopped unexpectedly", false⟩, .fault)
  | returned (.error failure) => (failure.taskError task, failure.kind)
  | joinError error => (error.taskError task, .ofJoinError error)

/-- The local state of `supervise`, with the cancellation of the runtime, whether the collector
has ended, and how many `Shutdown` commands it was sent. -/
structure Supervisor where
  tasks : List TaskId
  taskSpecs : AList fun _ : TaskId => SupervisedTask
  restarts : TaskSpec → Option TaskRestarts
  errors : List RuntimeTaskError
  cancelled : Bool
  collectorEnded : Bool
  shutdownsSent : ℕ

/-- What happens in a runtime: it is cancelled from outside, its collector ends, or the
supervisor joins a task. A task that is restarted gets the id `restarted`; a `Shutdown` that is
sent is `answered` unless the collector ends before. -/
inductive SupervisorEvent
  | cancel
  | collectorEnds
  | joined (id : TaskId) (result : TaskResult) (now : Duration) (restarted : TaskId)
      (answered : Bool)

namespace Supervisor

variable (policy : RestartPolicy)

/-- `spawn_child`. -/
def spawnChild (s : Supervisor) (id : TaskId) (spec : TaskSpec) (now delay : Duration) :
    Supervisor := { s with
  tasks := s.tasks ++ [id]
  taskSpecs := s.taskSpecs.insert id ⟨spec, now.saturatingAdd delay⟩ }

/-- The tasks that `supervise` spawns before its loop, for the keys of the schedules. -/
def initialSpecs (keys : List String) : List TaskSpec :=
  [.activityExecutionManager, .coordinator, .health, .timer, .approvalExpiry] ++
    keys.map .schedule ++ [.activityDispatcher]

/-- The state after the tasks were spawned one after another, without a delay. -/
def spawnAll (now : Duration) (specs : List TaskSpec) : Supervisor :=
  specs.zipIdx.foldl (fun s spec => s.spawnChild spec.2 spec.1 now ⟨0, Nat.zero_le _⟩)
    ⟨[], ∅, fun _ => none, [], false, false, 0⟩

/-- The state before the loop. -/
def init (keys : List String) (now : Duration) : Supervisor :=
  spawnAll now (initialSpecs keys)

/-- `parts.activity_executions.shutdown().await`, and the error it may come to. -/
def shutdown (s : Supervisor) (answered : Bool) : Supervisor :=
  let s := if s.collectorEnded then s else { s with shutdownsSent := s.shutdownsSent + 1 }
  if s.collectorEnded ∨ answered = false then
    { s with errors := s.errors ++
        [activityExecutionManagerUnavailable.taskError TaskSpec.activityExecutionManager.name] }
  else
    s

/-- The decision on a failed task. -/
def decide (s : Supervisor) (task : SupervisedTask) (kind : TaskFailureKind) (now : Duration) :
    RestartDecision × Supervisor :=
  if task.spec = .activityExecutionManager then
    (.stop .unrestartable, s)
  else
    let restarts := (s.restarts task.spec).getD (.new policy now)
    let (decision, restarts) :=
      restarts.onFailure policy ⟨now, now.saturatingSince task.runsFrom, kind⟩
    (decision, { s with restarts := Function.update s.restarts task.spec (some restarts) })

/-- The last statement of the branches that do not restart a task. -/
def shutdownAfter (s : Supervisor) (spec : TaskSpec) (answered : Bool) : Supervisor :=
  if spec = .activityDispatcher then s.shutdown answered else s

/-- The body of the loop of `supervise`, for a task that was joined. -/
def handle (s : Supervisor) (id : TaskId) (result : TaskResult) (now : Duration)
    (restarted : TaskId) (answered : Bool) : Supervisor :=
  let s := { s with tasks := s.tasks.erase id }
  match s.taskSpecs.lookup id with
  | none => { s with
      errors := s.errors ++
        [⟨"supervisor", s!"completed task {id} had no supervision record", false⟩]
      cancelled := true }
  | some task =>
    let s := { s with taskSpecs := s.taskSpecs.erase id }
    if s.cancelled then
      let s := { s with errors := s.errors ++ (result.error? task.spec.name).toList }
      s.shutdownAfter task.spec answered
    else
      let (taskError, kind) := result.failure task.spec.name
      match s.decide policy task kind now with
      | (.restart delay, s) =>
        let s := { s with errors := s.errors ++ [taskError] }
        s.spawnChild restarted task.spec now delay
      | (.stop _, s) =>
        let s := { s with errors := s.errors ++ [taskError], cancelled := true }
        s.shutdownAfter task.spec answered

/-- The events of a runtime. A task is joined once, after it has ended, and a new task gets an
id that is not in use. -/
def exec (s : Supervisor) : SupervisorEvent → Except Impossible Supervisor
  | .cancel => .ok { s with cancelled := true }
  | .collectorEnds => .ok { s with collectorEnded := true }
  | .joined id result now restarted answered =>
    if id ∉ s.tasks ∨ restarted ∈ s.tasks then
      .error .impossible
    else if (s.taskSpecs.lookup id).any (·.spec = .activityExecutionManager) ∧
        s.collectorEnded = false then
      .error .impossible
    else
      .ok (s.handle policy id result now restarted answered)

def run (s : Supervisor) (events : List SupervisorEvent) : Supervisor :=
  Machine.run (exec policy) s events

end Supervisor

end Model

namespace Supervisor

variable {policy : RestartPolicy} {s s' : Supervisor} {id : TaskId} {task : SupervisedTask}
  {spec : TaskSpec} {event : SupervisorEvent}

section Invariant

/-- A task of a kind is running or scheduled to run. -/
def Supervises (s : Supervisor) (spec : TaskSpec) : Prop :=
  ∃ id task, id ∈ s.tasks ∧ s.taskSpecs.lookup id = some task ∧ task.spec = spec

/-- Every task has its record, there is one dispatcher at most, and whoever ended the
dispatcher for good has cancelled the runtime and told the collector to shut down. -/
structure Inv (s : Supervisor) : Prop where
  nodup : s.tasks.Nodup
  records : ∀ id, id ∈ s.tasks ↔ (s.taskSpecs.lookup id).isSome
  dispatcher : ∀ id id' task task', s.taskSpecs.lookup id = some task →
    s.taskSpecs.lookup id' = some task' → task.spec = .activityDispatcher →
    task'.spec = .activityDispatcher → id = id'
  supervised : s.Supervises .activityDispatcher → s.shutdownsSent = 0
  ended : ¬s.Supervises .activityDispatcher →
    s.cancelled = true ∧ s.shutdownsSent ≤ 1 ∧ (s.shutdownsSent = 1 ∨ s.collectorEnded = true)

end Invariant

section Steps

/-- What an event does to the tasks, the cancellation and the commands of the supervisor. -/
inductive Handles (s : Supervisor) : SupervisorEvent → Supervisor → Prop
  | cancel : Handles s .cancel { s with cancelled := true }
  | collectorEnds : Handles s .collectorEnds { s with collectorEnded := true }
  | ended {id restarted : TaskId} {task : SupervisedTask} {result : TaskResult} {now : Duration}
      {answered : Bool} {s' : Supervisor} (mem : id ∈ s.tasks)
      (record : s.taskSpecs.lookup id = some task) (tasks : s'.tasks = s.tasks.erase id)
      (specs : s'.taskSpecs = s.taskSpecs.erase id) (cancelled : s'.cancelled = true)
      (collector : s'.collectorEnded = s.collectorEnded)
      (sent : s'.shutdownsSent = s.shutdownsSent +
        if task.spec = .activityDispatcher ∧ s.collectorEnded = false then 1 else 0) :
      Handles s (.joined id result now restarted answered) s'
  | restarted {id restarted : TaskId} {task : SupervisedTask} {result : TaskResult}
      {now runsFrom : Duration} {answered : Bool} {s' : Supervisor} (up : s.cancelled = false)
      (mem : id ∈ s.tasks) (record : s.taskSpecs.lookup id = some task)
      (fresh : restarted ∉ s.tasks) (tasks : s'.tasks = s.tasks.erase id ++ [restarted])
      (specs : s'.taskSpecs = (s.taskSpecs.erase id).insert restarted ⟨task.spec, runsFrom⟩)
      (cancelled : s'.cancelled = false) (collector : s'.collectorEnded = s.collectorEnded)
      (sent : s'.shutdownsSent = s.shutdownsSent) :
      Handles s (.joined id result now restarted answered) s'

/-- The branches that do not restart a task tell the collector to shut down if the task was the
dispatcher. -/
theorem shutdownAfter_eq (s : Supervisor) (spec : TaskSpec) (answered : Bool) :
    ∃ errors, s.shutdownAfter spec answered = { s with
      errors
      shutdownsSent := s.shutdownsSent +
        if spec = .activityDispatcher ∧ s.collectorEnded = false then 1 else 0 } := by
  unfold shutdownAfter
  by_cases hspec : spec = .activityDispatcher
  · rw [if_pos hspec]
    unfold shutdown
    cases hended : s.collectorEnded with
    | true =>
      refine ⟨s.errors ++ [activityExecutionManagerUnavailable.taskError
        TaskSpec.activityExecutionManager.name], ?_⟩
      simp [hended]
    | false =>
      cases answered with
      | true => exact ⟨s.errors, by simp [hspec]⟩
      | false =>
        refine ⟨s.errors ++ [activityExecutionManagerUnavailable.taskError
          TaskSpec.activityExecutionManager.name], ?_⟩
        simp [hspec]
  · rw [if_neg hspec]
    exact ⟨s.errors, by simp [hspec]⟩

/-- A decision touches the restart states only. -/
theorem decide_eq (policy : RestartPolicy) (s : Supervisor) (task : SupervisedTask)
    (kind : TaskFailureKind) (now : Duration) :
    ∃ restarts, (s.decide policy task kind now).2 = { s with restarts } := by
  unfold decide
  split
  · exact ⟨s.restarts, rfl⟩
  · exact ⟨_, rfl⟩

/-- **Inversion of an event**. -/
theorem handles_of_exec (h : s.Inv) (hok : s.exec policy event = .ok s') : s.Handles event s' := by
  cases event with
  | cancel =>
    cases hok
    exact .cancel
  | collectorEnds =>
    cases hok
    exact .collectorEnds
  | joined id result now restarted answered =>
    simp only [exec] at hok
    split at hok
    next => cases hok
    next hids =>
      split at hok
      next => cases hok
      next =>
        have hmem : id ∈ s.tasks := by
          by_contra hnot
          exact hids (.inl hnot)
        have hfresh : restarted ∉ s.tasks := fun hmem => hids (.inr hmem)
        obtain ⟨task, hrecord⟩ := Option.isSome_iff_exists.mp ((h.records id).mp hmem)
        have heq := Except.ok.inj hok
        subst heq
        simp only [handle, hrecord]
        by_cases hcancelled : s.cancelled = true
        · simp only [if_pos hcancelled]
          obtain ⟨errors, hshutdown⟩ := shutdownAfter_eq
            { s with
              tasks := s.tasks.erase id, taskSpecs := s.taskSpecs.erase id
              errors := s.errors ++ (result.error? task.spec.name).toList } task.spec answered
          rw [hshutdown]
          exact .ended hmem hrecord rfl rfl hcancelled rfl rfl
        · simp only [if_neg hcancelled]
          obtain ⟨restarts, hdecide⟩ := decide_eq policy
            { s with tasks := s.tasks.erase id, taskSpecs := s.taskSpecs.erase id } task
            (result.failure task.spec.name).2 now
          split
          next delay s₁ hdecision =>
            rw [hdecision] at hdecide
            have hs₁ : s₁ = _ := hdecide
            subst hs₁
            exact .restarted (Bool.eq_false_iff.mpr hcancelled) hmem hrecord hfresh rfl rfl
              (Bool.eq_false_iff.mpr hcancelled) rfl rfl
          next reason s₁ hdecision =>
            rw [hdecision] at hdecide
            have hs₁ : s₁ = _ := hdecide
            subst hs₁
            obtain ⟨errors, hshutdown⟩ := shutdownAfter_eq
              { s with
                tasks := s.tasks.erase id, taskSpecs := s.taskSpecs.erase id, restarts
                errors := s.errors ++ [(result.failure task.spec.name).1]
                cancelled := true } task.spec answered
            rw [hshutdown]
            exact .ended hmem hrecord rfl rfl rfl rfl rfl

theorem supervises_iff (h : s.Inv) :
    s.Supervises spec ↔ ∃ id task, s.taskSpecs.lookup id = some task ∧ task.spec = spec := by
  constructor
  · rintro ⟨id, task, -, hrecord, hspec⟩
    exact ⟨id, task, hrecord, hspec⟩
  · rintro ⟨id, task, hrecord, hspec⟩
    exact ⟨id, task, (h.records id).mpr (by rw [hrecord]; rfl), hrecord, hspec⟩

/-- The records that are left without a task. -/
theorem lookup_erase_iff (s : Supervisor) (id id' : TaskId) (task : SupervisedTask) :
    (s.taskSpecs.erase id).lookup id' = some task ↔
      id' ≠ id ∧ s.taskSpecs.lookup id' = some task := by
  by_cases hid : id' = id
  · rw [hid, AList.lookup_erase]
    simp
  · rw [AList.lookup_erase_ne hid]
    simp [hid]

/-- The tasks and records without a task that was joined. -/
theorem records_erase (h : s.Inv) (id id' : TaskId) :
    id' ∈ s.tasks.erase id ↔ ((s.taskSpecs.erase id).lookup id').isSome := by
  rw [h.nodup.mem_erase_iff]
  by_cases hid : id' = id
  · rw [hid, AList.lookup_erase]
    simp
  · rw [AList.lookup_erase_ne hid, ← h.records id']
    simp [hid]

/-- A task that has ended for good. -/
theorem Inv.ended_task (h : s.Inv) (hrecord : s.taskSpecs.lookup id = some task)
    (htasks : s'.tasks = s.tasks.erase id) (hspecs : s'.taskSpecs = s.taskSpecs.erase id)
    (hcancelled : s'.cancelled = true) (hcollector : s'.collectorEnded = s.collectorEnded)
    (hsent : s'.shutdownsSent = s.shutdownsSent +
      if task.spec = .activityDispatcher ∧ s.collectorEnded = false then 1 else 0) : s'.Inv := by
  have hrecords : ∀ id', id' ∈ s'.tasks ↔ (s'.taskSpecs.lookup id').isSome := by
    intro id'
    rw [htasks, hspecs]
    exact records_erase h id id'
  have hsupervises : s'.Supervises .activityDispatcher ↔
      s.Supervises .activityDispatcher ∧ task.spec ≠ .activityDispatcher := by
    constructor
    · rintro ⟨id', task', -, hrecord', hspec'⟩
      rw [hspecs, lookup_erase_iff] at hrecord'
      refine ⟨(supervises_iff h).mpr ⟨id', task', hrecord'.2, hspec'⟩, fun hspec => ?_⟩
      exact hrecord'.1 (h.dispatcher _ _ _ _ hrecord'.2 hrecord hspec' hspec)
    · rintro ⟨⟨id', task', -, hrecord', hspec'⟩, hspec⟩
      have hne : id' ≠ id := by
        rintro rfl
        cases hrecord.symm.trans hrecord'
        exact hspec hspec'
      have hlookup : s'.taskSpecs.lookup id' = some task' := by
        rw [hspecs, lookup_erase_iff]
        exact ⟨hne, hrecord'⟩
      exact ⟨id', task', (hrecords id').mpr (by rw [hlookup]; rfl), hlookup, hspec'⟩
  refine ⟨?_, hrecords, ?_, ?_, ?_⟩
  · rw [htasks]
    exact h.nodup.erase id
  · intro id₁ id₂ task₁ task₂ h₁ h₂
    rw [hspecs, lookup_erase_iff] at h₁ h₂
    exact h.dispatcher _ _ _ _ h₁.2 h₂.2
  · intro hdispatcher
    obtain ⟨hbefore, hother⟩ := hsupervises.mp hdispatcher
    rw [hsent, h.supervised hbefore, if_neg fun hand => hother hand.1]
  · intro hgone
    rw [hcollector]
    refine ⟨hcancelled, ?_⟩
    by_cases hbefore : s.Supervises .activityDispatcher
    · -- the task was the dispatcher
      have hspec : task.spec = .activityDispatcher := by
        by_contra hother
        exact hgone (hsupervises.mpr ⟨hbefore, hother⟩)
      rw [hsent, h.supervised hbefore]
      cases hended : s.collectorEnded with
      | true => simp
      | false => simp [hspec]
    · have hother : task.spec ≠ .activityDispatcher := fun hspec =>
        hbefore ((supervises_iff h).mpr ⟨id, task, hrecord, hspec⟩)
      rw [hsent, if_neg fun hand => hother hand.1, Nat.add_zero]
      exact (h.ended hbefore).2

/-- A task that is restarted. -/
theorem Inv.restarted_task {restarted : TaskId} {runsFrom : Duration} (h : s.Inv)
    (hrecord : s.taskSpecs.lookup id = some task) (hup : s.cancelled = false)
    (hfresh : restarted ∉ s.tasks) (htasks : s'.tasks = s.tasks.erase id ++ [restarted])
    (hspecs : s'.taskSpecs = (s.taskSpecs.erase id).insert restarted ⟨task.spec, runsFrom⟩)
    (hsent : s'.shutdownsSent = s.shutdownsSent) : s'.Inv := by
  -- before a cancellation the dispatcher is there
  have hbefore : s.Supervises .activityDispatcher := by
    by_contra hgone
    cases hup.symm.trans (h.ended hgone).1
  have hlookup : ∀ id' task', s'.taskSpecs.lookup id' = some task' ↔
      (id' = restarted ∧ task' = ⟨task.spec, runsFrom⟩) ∨
        (id' ≠ restarted ∧ id' ≠ id ∧ s.taskSpecs.lookup id' = some task') := by
    intro id' task'
    rw [hspecs]
    by_cases hid : id' = restarted
    · subst hid
      rw [AList.lookup_insert]
      simp [eq_comm]
    · rw [AList.lookup_insert_ne hid, lookup_erase_iff]
      simp [hid]
  have hrecords : ∀ id', id' ∈ s'.tasks ↔ (s'.taskSpecs.lookup id').isSome := by
    intro id'
    rw [htasks, hspecs, List.mem_append, List.mem_singleton]
    by_cases hid : id' = restarted
    · subst hid
      rw [AList.lookup_insert]
      simp
    · rw [AList.lookup_insert_ne hid, records_erase h id id']
      simp [hid]
  have hsupervises : s'.Supervises .activityDispatcher := by
    obtain ⟨id', task', hmem', hrecord', hspec'⟩ := hbefore
    by_cases hid : id' = id
    · subst hid
      cases hrecord.symm.trans hrecord'
      have hnew : s'.taskSpecs.lookup restarted = some ⟨task.spec, runsFrom⟩ :=
        (hlookup _ _).mpr (.inl ⟨rfl, rfl⟩)
      exact ⟨restarted, _, (hrecords _).mpr (by rw [hnew]; rfl), hnew, hspec'⟩
    · have hne : id' ≠ restarted := fun heq => hfresh (heq ▸ hmem')
      have hold : s'.taskSpecs.lookup id' = some task' :=
        (hlookup _ _).mpr (.inr ⟨hne, hid, hrecord'⟩)
      exact ⟨id', task', (hrecords _).mpr (by rw [hold]; rfl), hold, hspec'⟩
  refine ⟨?_, hrecords, ?_, ?_, fun hgone => absurd hsupervises hgone⟩
  · rw [htasks]
    refine List.nodup_append.mpr ⟨h.nodup.erase id, List.nodup_singleton _, ?_⟩
    rintro a ha b hb rfl
    exact hfresh (List.mem_singleton.mp hb ▸ List.mem_of_mem_erase ha)
  · intro id₁ id₂ task₁ task₂ h₁ h₂ hspec₁ hspec₂
    rcases (hlookup _ _).mp h₁ with ⟨rfl, rfl⟩ | ⟨-, hne₁, hold₁⟩
    · rcases (hlookup _ _).mp h₂ with ⟨rfl, -⟩ | ⟨-, hne₂, hold₂⟩
      · rfl
      · exact absurd (h.dispatcher _ _ _ _ hold₂ hrecord hspec₂ hspec₁) hne₂
    · rcases (hlookup _ _).mp h₂ with ⟨rfl, rfl⟩ | ⟨-, hne₂, hold₂⟩
      · exact absurd (h.dispatcher _ _ _ _ hold₁ hrecord hspec₁ hspec₂) hne₁
      · exact h.dispatcher _ _ _ _ hold₁ hold₂ hspec₁ hspec₂
  · intro _
    rw [hsent]
    exact h.supervised hbefore

/-- **Step lemma**. -/
theorem Inv.handles (h : s.Inv) (hhandles : s.Handles event s') : s'.Inv := by
  cases hhandles with
  | cancel =>
    exact ⟨h.nodup, h.records, h.dispatcher, h.supervised, fun hgone => ⟨rfl, (h.ended hgone).2⟩⟩
  | collectorEnds =>
    refine ⟨h.nodup, h.records, h.dispatcher, h.supervised, fun hgone => ?_⟩
    obtain ⟨hcancelled, hle, -⟩ := h.ended hgone
    exact ⟨hcancelled, hle, .inr rfl⟩
  | ended mem record tasks specs cancelled collector sent =>
    exact h.ended_task record tasks specs cancelled collector sent
  | restarted up mem record fresh tasks specs cancelled collector sent =>
    exact h.restarted_task record up fresh tasks specs sent

/-- After the cancellation no task is spawned. -/
theorem Handles.tasks_subset (hhandles : s.Handles event s') (hcancelled : s.cancelled = true) :
    s'.cancelled = true ∧ s'.tasks ⊆ s.tasks := by
  cases hhandles with
  | cancel => exact ⟨rfl, fun _ h => h⟩
  | collectorEnds => exact ⟨hcancelled, fun _ h => h⟩
  | ended mem record tasks specs cancelled =>
    rw [tasks]
    exact ⟨cancelled, fun _ h => List.mem_of_mem_erase h⟩
  | restarted up => cases up.symm.trans hcancelled

end Steps

section Runs

theorem spawnAll_concat (now : Duration) (specs : List TaskSpec) (spec : TaskSpec) :
    spawnAll now (specs ++ [spec]) =
      (spawnAll now specs).spawnChild specs.length spec now ⟨0, Nat.zero_le _⟩ := by
  simp [spawnAll, List.zipIdx_append]

/-- Tasks that are spawned one after another get the ids `0, 1, …`, each with its record. -/
theorem spawnAll_tasks (now : Duration) (specs : List TaskSpec) :
    (spawnAll now specs).tasks = List.range specs.length ∧
    (spawnAll now specs).shutdownsSent = 0 ∧
    ∀ id, (spawnAll now specs).taskSpecs.lookup id =
      specs[id]?.map fun spec => ⟨spec, now.saturatingAdd ⟨0, Nat.zero_le _⟩⟩ := by
  induction specs using List.reverseRecOn with
  | nil => exact ⟨rfl, rfl, fun _ => rfl⟩
  | append_singleton specs spec ih =>
    obtain ⟨htasks, hsent, hlookup⟩ := ih
    rw [spawnAll_concat]
    refine ⟨?_, hsent, fun id => ?_⟩
    · rw [spawnChild, htasks, List.length_append, List.length_singleton, List.range_succ]
    · rw [spawnChild]
      by_cases hid : id = specs.length
      · rw [hid, AList.lookup_insert, List.getElem?_concat_length]
        rfl
      · rw [AList.lookup_insert_ne hid, hlookup, List.getElem?_append]
        split
        next => rfl
        next hge =>
          have hbeyond : 1 ≤ id - specs.length :=
            Nat.sub_pos_of_lt (lt_of_le_of_ne (Nat.le_of_not_lt hge) (Ne.symm hid))
          rw [List.getElem?_eq_none (Nat.le_of_not_lt hge), List.getElem?_eq_none hbeyond]

/-- The dispatcher is spawned last, and once. -/
theorem initialSpecs_dispatcher (keys : List String) (id : ℕ) :
    (initialSpecs keys)[id]? = some .activityDispatcher ↔ id = keys.length + 5 := by
  have hlength : ([TaskSpec.activityExecutionManager, .coordinator, .health, .timer,
      .approvalExpiry] ++ keys.map TaskSpec.schedule).length = keys.length + 5 := by
    simp
  have hothers : TaskSpec.activityDispatcher ∉
      [TaskSpec.activityExecutionManager, .coordinator, .health, .timer, .approvalExpiry] ++
        keys.map TaskSpec.schedule := by simp
  rw [initialSpecs, List.getElem?_append, hlength]
  split
  next hlt =>
    constructor
    · exact fun hget => absurd (List.mem_of_getElem? hget) hothers
    · omega
  next hge =>
    rw [List.getElem?_singleton]
    split <;> grind

/-- The tasks that are spawned before the loop: each of them has a record, and one is the
dispatcher. -/
theorem inv_init (keys : List String) (now : Duration) : (init keys now).Inv := by
  obtain ⟨htasks, hsent, hlookup⟩ := spawnAll_tasks now (initialSpecs keys)
  have hspec : ∀ {id : TaskId} {task : SupervisedTask},
      (init keys now).taskSpecs.lookup id = some task →
        (initialSpecs keys)[id]? = some task.spec := by
    intro id task hrecord
    obtain ⟨spec, hspec, rfl⟩ := Option.map_eq_some_iff.mp ((hlookup id).symm.trans hrecord)
    exact hspec
  have hrecords : ∀ id, id ∈ (init keys now).tasks ↔
      ((init keys now).taskSpecs.lookup id).isSome := by
    intro id
    unfold init
    rw [htasks, hlookup, Option.isSome_map, List.mem_range]
    simp
  refine ⟨?_, hrecords, ?_, fun _ => hsent, fun hgone => ?_⟩
  · unfold init
    rw [htasks]
    exact List.nodup_range
  · intro id id' task task' hrecord hrecord' hdispatcher hdispatcher'
    have hid := (initialSpecs_dispatcher keys id).mp (hdispatcher ▸ hspec hrecord)
    exact hid.trans ((initialSpecs_dispatcher keys id').mp (hdispatcher' ▸ hspec hrecord')).symm
  · have hlast : (init keys now).taskSpecs.lookup (keys.length + 5) =
        some ⟨.activityDispatcher, now.saturatingAdd ⟨0, Nat.zero_le _⟩⟩ := by
      unfold init
      rw [hlookup, (initialSpecs_dispatcher keys _).mpr rfl]
      rfl
    exact absurd ⟨_, _, (hrecords _).mpr (by rw [hlast]; rfl), hlast, rfl⟩ hgone

/-- **Run lemma**. -/
theorem inv_run (h : s.Inv) (events : List SupervisorEvent) : (s.run policy events).Inv :=
  Machine.run_invariant (fun _ _ _ h hok => h.handles (handles_of_exec h hok)) h events

/-- **Shutdown of the collector**: at every point of every run of a supervisor, the dispatcher
is running or scheduled to run, or exactly one `Shutdown` was sent to the collector, or the
collector has ended; two are never sent; and after the cancellation no task is spawned. So the
supervisor never waits for a collector that runs, and for nothing else, without having shut it
down. -/
theorem run_shutdown (policy : RestartPolicy) (keys : List String) (start : Duration)
    (events : List SupervisorEvent) :
    let s := (init keys start).run policy events
    (s.Supervises .activityDispatcher ∨ s.shutdownsSent = 1 ∨ s.collectorEnded = true) ∧
    s.shutdownsSent ≤ 1 ∧
    (∀ later, s.cancelled = true → (s.run policy later).cancelled = true ∧
      (s.run policy later).tasks ⊆ s.tasks) ∧
    ((∀ spec, s.Supervises spec → spec = .activityExecutionManager) → s.collectorEnded = false →
      s.shutdownsSent = 1) := by
  intro s
  have hinv : s.Inv := inv_run (inv_init keys start) events
  have hwho : s.Supervises .activityDispatcher ∨ s.shutdownsSent = 1 ∨
      s.collectorEnded = true := by
    by_cases hdispatcher : s.Supervises .activityDispatcher
    · exact .inl hdispatcher
    · exact .inr (hinv.ended hdispatcher).2.2
  refine ⟨hwho, ?_, fun later hcancelled => ?_, fun honly hrunning => ?_⟩
  · by_cases hdispatcher : s.Supervises .activityDispatcher
    · rw [hinv.supervised hdispatcher]
      exact Nat.zero_le 1
    · exact (hinv.ended hdispatcher).2.1
  · have hkeeps : ∀ (t : Supervisor), t.Inv ∧ t.cancelled = true ∧ t.tasks ⊆ s.tasks →
        ∀ (event : SupervisorEvent) (t' : Supervisor), t.exec policy event = .ok t' →
          t'.Inv ∧ t'.cancelled = true ∧ t'.tasks ⊆ s.tasks := by
      rintro t ⟨ht, hcancelled, hsubset⟩ event t' hok
      have hhandles := handles_of_exec ht hok
      obtain ⟨hstill, hfewer⟩ := hhandles.tasks_subset hcancelled
      exact ⟨ht.handles hhandles, hstill, fun _ hmem => hsubset (hfewer hmem)⟩
    exact (Machine.run_invariant (fun t event t' ht hok => hkeeps t ht event t' hok)
      ⟨hinv, hcancelled, fun _ hmem => hmem⟩ later).2
  · rcases hwho with hdispatcher | hsent | hended
    · cases honly _ hdispatcher
    · exact hsent
    · cases hrunning.symm.trans hended

end Runs

end Supervisor

end DurableWorkflows
