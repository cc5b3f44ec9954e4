import DurableWorkflows.Base.Counts
import DurableWorkflows.Base.Machine
import DurableWorkflows.Runtime.Restart

/-!
# The collector of activity executions

One task of a runtime owns all its running activities. Dispatchers send it the
executions to spawn and ask it for a snapshot and for the failure of executions;
it keeps the counts of the running executions by topic and by dispatcher, and
two queues of join failures.

## Main definitions

- `Collector`: the local state of `collect_activity_executions`
- `CollectorEvent`, `Collector.exec`: an iteration of its loop
- `Collector.Accounts`: the counts are those of the running executions

## Main results

- `Collector.Accounts.handles`: an iteration keeps the counts
- `Collector.collectResult_spec`: collecting a running execution raises no fault
-/

namespace DurableWorkflows

section Model

/-- `tokio::task::Id`. -/
abbrev TaskId := ℕ

/-- The generation of a dispatcher. -/
abbrev Generation := ℕ

/-- `RuntimeTaskFailure`. -/
structure RuntimeTaskFailure where
  message : String
  kind : TaskFailureKind
  deriving DecidableEq

/-- `RuntimeTaskFailure::fault`. -/
def RuntimeTaskFailure.fault (message : String) : RuntimeTaskFailure := ⟨message, .fault⟩

/-- `JoinError`: its text, and whether the task panicked. -/
structure JoinError where
  text : String
  isPanic : Bool
  deriving DecidableEq

/-- `TaskFailureKind::of_join_error`. -/
def TaskFailureKind.ofJoinError (error : JoinError) : TaskFailureKind :=
  if error.isPanic then .panic else .fault

/-- The failure of an execution that could not be joined. -/
def JoinError.failure (error : JoinError) : RuntimeTaskFailure where
  message := s!"activity execution task failed: {error.text}"
  kind := .ofJoinError error

/-- What an execution that is joined came to: it returned, with a `DurableError` or without
one, or it could not be joined. -/
inductive ExecutionResult
  | returned (result : Except DurableError Unit)
  | joinError (error : JoinError)

/-- `ActivityExecutionTask`. -/
structure ActivityExecutionTask where
  topic : String
  dispatcherGeneration : Generation
  deriving DecidableEq

/-- `ActivityExecutionSnapshot`. -/
structure ActivityExecutionSnapshot where
  total : ℕ
  activeByTopic : Counts String

/-- An execution of the `JoinSet`: its id, and the task that was spawned. -/
structure Execution where
  id : TaskId
  task : ActivityExecutionTask
  deriving DecidableEq

/-- The local state of `collect_activity_executions`. -/
structure Collector where
  executions : List Execution
  tasksById : AList fun _ : TaskId => ActivityExecutionTask
  activeByDispatcher : Counts Generation
  failedDispatchers : List Generation
  snapshot : ActivityExecutionSnapshot
  failures : List RuntimeTaskFailure
  supplementalFailures : List RuntimeTaskFailure
  shuttingDown : Bool

/-- `activity_execution_manager_unavailable`. -/
def activityExecutionManagerUnavailable : RuntimeTaskFailure :=
  .fault "activity execution manager is unavailable"

namespace Collector

/-- The state before the loop. -/
def init : Collector where
  executions := []
  tasksById := ∅
  activeByDispatcher := ∅
  failedDispatchers := []
  snapshot := ⟨0, ∅⟩
  failures := []
  supplementalFailures := []
  shuttingDown := false

/-- `executions.spawn` and the records of the new task. -/
def spawn (c : Collector) (id : TaskId) (task : ActivityExecutionTask) : Collector := { c with
  executions := c.executions ++ [⟨id, task⟩]
  tasksById := c.tasksById.insert id task
  activeByDispatcher := c.activeByDispatcher.increment task.dispatcherGeneration
  snapshot := ⟨c.snapshot.total + 1, c.snapshot.activeByTopic.increment task.topic⟩ }

/-- `checked_sub(1)`. -/
def checkedPred : ℕ → Except RuntimeTaskFailure ℕ
  | 0 => .error activityExecutionManagerUnavailable
  | n + 1 => .ok n

/-- The topic counts of `collect_activity_execution_result`. -/
def leaveTopic (snapshot : ActivityExecutionSnapshot) (topic : String) :
    Except RuntimeTaskFailure ActivityExecutionSnapshot := do
  let total ← checkedPred snapshot.total
  match snapshot.activeByTopic.lookup topic with
  | none => throw (.fault s!"activity execution topic {topic} had no active count")
  | some active =>
    let active ← checkedPred active
    return ⟨total, snapshot.activeByTopic.insert topic active⟩

/-- The dispatcher counts of `collect_activity_execution_result`. -/
def leaveDispatcher (counts : Counts Generation) (generation : Generation) :
    Except RuntimeTaskFailure (Counts Generation) :=
  match counts.lookup generation with
  | none => .error activityExecutionManagerUnavailable
  | some active => do
    let active ← checkedPred active
    let counts : Counts Generation := counts.insert generation active
    return if active = 0 then counts.erase generation else counts

/-- Where a join failure goes: the first one of a dispatcher is offered to it. -/
def recordFailure (c : Collector) (generation : Generation) (failure : RuntimeTaskFailure) :
    Collector :=
  if generation ∈ c.failedDispatchers then
    { c with supplementalFailures := c.supplementalFailures ++ [failure] }
  else
    { c with
      failedDispatchers := generation :: c.failedDispatchers
      failures := c.failures ++ [failure] }

/-- `collect_activity_execution_result`. -/
def collectResult (c : Collector) (id : TaskId) (result : ExecutionResult) :
    Except RuntimeTaskFailure Collector :=
  match c.tasksById.lookup id with
  | none => .error (.fault s!"activity execution task {id} had no topic record")
  | some task => do
    let snapshot ← leaveTopic c.snapshot task.topic
    let c := { c with tasksById := c.tasksById.erase id, snapshot }
    let c := match result with
      | .returned _ => c
      | .joinError error => c.recordFailure task.dispatcherGeneration error.failure
    let activeByDispatcher ← leaveDispatcher c.activeByDispatcher task.dispatcherGeneration
    return { c with activeByDispatcher }

/-- `take_activity_execution_failure`. -/
def takeFailure : List RuntimeTaskFailure → Option RuntimeTaskFailure
  | [] => none
  | failure :: additional =>
    let failure := if additional.any (·.kind.panicked) then { failure with kind := .panic }
      else failure
    if additional.length = 0 then
      some failure
    else
      let suffix := if additional.length = 1 then "task" else "tasks"
      some { failure with message := s!"{failure.message}; {additional.length} additional activity " ++
        s!"execution {suffix} failed" }

/-- `finish_activity_execution_collection`: the failure that is returned, and those that are
logged. -/
def finishCollection : List RuntimeTaskFailure →
    Except RuntimeTaskFailure Unit × List RuntimeTaskFailure
  | [] => (.ok (), [])
  | first :: additional => (.error first, additional)

end Collector

/-- What the loop of the collector takes up next. The requester of a failure may have gone
away. -/
inductive CollectorEvent
  | joined (id : TaskId) (result : ExecutionResult)
  | spawn (id : TaskId) (task : ActivityExecutionTask)
  | snapshot
  | takeFailure (receiverDropped : Bool)
  | shutdown

/-- The collector: its loop goes on, or it has returned and logged the other failures. -/
inductive Collection
  | running (collector : Collector)
  | ended (result : Except RuntimeTaskFailure Unit) (logged : List RuntimeTaskFailure)

/-- An event that cannot be: the collection has ended, the task is not in the `JoinSet`, or the
id is in use. -/
inductive Impossible
  | impossible

namespace Collector

/-- The top of the loop: the collection ends once it shuts down and nothing is running. -/
def loopTop (c : Collector) : Collection :=
  if c.shuttingDown ∧ c.executions = [] then
    let (result, logged) := finishCollection (c.failures ++ c.supplementalFailures)
    .ended result logged
  else
    .running c

/-- One iteration of the loop. -/
def handle (c : Collector) : CollectorEvent → Except Impossible Collection
  | .joined id result =>
    if c.executions.any (·.id == id) then
      match { c with executions := c.executions.eraseP (·.id == id) }.collectResult id result with
      | .ok c => .ok c.loopTop
      | .error fault => .ok (.ended (.error fault) [])
    else
      .error .impossible
  | .spawn id task =>
    if c.shuttingDown then
      .ok c.loopTop
    else if c.executions.any (·.id == id) then
      .error .impossible
    else
      .ok (c.spawn id task).loopTop
  | .snapshot => .ok c.loopTop
  | .takeFailure receiverDropped =>
    match receiverDropped, takeFailure c.failures with
    | true, some failure => .ok { c with failures := [failure] }.loopTop
    | true, none | false, _ => .ok { c with failures := [] }.loopTop
  | .shutdown => .ok { c with shuttingDown := true }.loopTop

end Collector

namespace Collection

/-- The collection before its first command. -/
def init : Collection := .running .init

/-- `collect_activity_executions`, event by event. The supervisor holds a sender of the command
channel for as long as the collector runs, so that the channel is never closed. -/
def exec : Collection → CollectorEvent → Except Impossible Collection
  | .running c, event => c.handle event
  | .ended .., _ => .error .impossible

def run (events : List CollectorEvent) : Collection := Machine.run exec init events

end Collection

end Model

namespace Collector

variable {c c' : Collector} {execution : Execution} {rest : List Execution}

section Accounts

/-- The topics of the running executions. -/
def topics (executions : List Execution) : Multiset String :=
  Multiset.ofList (executions.map fun execution => execution.task.topic)

/-- The dispatchers of the running executions. -/
def generations (executions : List Execution) : Multiset Generation :=
  Multiset.ofList (executions.map fun execution => execution.task.dispatcherGeneration)

theorem topics_of_perm (h : c.executions.Perm (execution :: rest)) :
    topics c.executions = execution.task.topic ::ₘ topics rest :=
  Multiset.coe_eq_coe.mpr (h.map fun execution => execution.task.topic)

theorem generations_of_perm (h : c.executions.Perm (execution :: rest)) :
    generations c.executions = execution.task.dispatcherGeneration ::ₘ generations rest :=
  Multiset.coe_eq_coe.mpr (h.map fun execution => execution.task.dispatcherGeneration)

/-- The records of the collector are those of the running executions. -/
structure Accounts (c : Collector) : Prop where
  ids : (c.executions.map (·.id)).Nodup
  tasks : ∀ execution ∈ c.executions, c.tasksById.lookup execution.id = some execution.task
  total : c.snapshot.total = c.executions.length
  topics : c.snapshot.activeByTopic.CountsOf (topics c.executions)
  dispatchers : c.activeByDispatcher.CountsOf (generations c.executions)
  positive : ∀ generation, c.activeByDispatcher.lookup generation ≠ some 0

theorem accounts_init : init.Accounts where
  ids := List.nodup_nil
  tasks := fun _ h => absurd h List.not_mem_nil
  total := rfl
  topics := .empty
  dispatchers := .empty
  positive generation := by
    show (∅ : Counts Generation).lookup generation ≠ some 0
    rw [AList.lookup_empty]
    exact Option.some_ne_none 0 |>.symm

/-- The queues do not matter to the records. -/
theorem Accounts.congr (h : c.Accounts) (hexecutions : c'.executions = c.executions)
    (htasks : c'.tasksById = c.tasksById) (hdispatchers : c'.activeByDispatcher = c.activeByDispatcher)
    (hsnapshot : c'.snapshot = c.snapshot) : c'.Accounts where
  ids := by rw [hexecutions]; exact h.ids
  tasks := by rw [hexecutions, htasks]; exact h.tasks
  total := by rw [hexecutions, hsnapshot]; exact h.total
  topics := by rw [hexecutions, hsnapshot]; exact h.topics
  dispatchers := by rw [hexecutions, hdispatchers]; exact h.dispatchers
  positive := by rw [hdispatchers]; exact h.positive

/-- A new execution is recorded. -/
theorem Accounts.spawn (h : c.Accounts) {id : TaskId}
    (hid : ∀ execution ∈ c.executions, execution.id ≠ id) (task : ActivityExecutionTask) :
    (c.spawn id task).Accounts := by
  have hperm : (c.executions ++ [Execution.mk id task]).Perm (⟨id, task⟩ :: c.executions) :=
    List.perm_append_singleton ..
  refine ⟨?_, fun execution hmem => ?_, ?_, ?_, ?_, fun generation => ?_⟩
  · show ((c.executions ++ [Execution.mk id task]).map (·.id)).Nodup
    refine (hperm.map _).nodup_iff.mpr (List.nodup_cons.mpr ⟨fun hmem => ?_, h.ids⟩)
    obtain ⟨execution, hexecution, heq⟩ := List.mem_map.mp hmem
    exact hid execution hexecution heq
  · show (c.tasksById.insert id task).lookup execution.id = some execution.task
    rcases List.mem_append.mp hmem with hmem | hmem
    · rw [AList.lookup_insert_ne (hid execution hmem), h.tasks execution hmem]
    · rw [List.mem_singleton.mp hmem, AList.lookup_insert]
  · show c.snapshot.total + 1 = (c.executions ++ [Execution.mk id task]).length
    rw [h.total, List.length_append, List.length_singleton]
  · have htopics := h.topics.increment task.topic
    rwa [← topics_of_perm (c := c.spawn id task) hperm] at htopics
  · have hgenerations := h.dispatchers.increment task.dispatcherGeneration
    rwa [← generations_of_perm (c := c.spawn id task) hperm] at hgenerations
  · show (c.activeByDispatcher.insert _ _).lookup generation ≠ some 0
    by_cases hgeneration : generation = task.dispatcherGeneration
    · rw [hgeneration, AList.lookup_insert]
      exact fun heq => absurd (Option.some.inj heq) (Nat.succ_ne_zero _)
    · rw [AList.lookup_insert_ne hgeneration]
      exact h.positive generation

/-- An execution of the `JoinSet`, and those that are left without it. -/
theorem exists_execution {executions : List Execution} {id : TaskId}
    (h : executions.any (·.id == id) = true) :
    ∃ execution, execution.id = id ∧
      executions.Perm (execution :: executions.eraseP (·.id == id)) := by
  obtain ⟨execution, hmem, heq⟩ := List.any_eq_true.mp h
  obtain ⟨found, before, after, -, hfound, hsplit, herase⟩ := List.exists_of_eraseP (p := fun execution => execution.id == id) hmem heq
  refine ⟨found, beq_iff_eq.mp hfound, ?_⟩
  rw [herase, hsplit]
  exact List.perm_middle

/-- The topic counts of an execution that leaves. -/
theorem leaveTopic_spec {snapshot : ActivityExecutionSnapshot} {topic : String} {n : ℕ}
    {s : Multiset String} (htotal : snapshot.total = n + 1)
    (htopics : snapshot.activeByTopic.CountsOf (topic ::ₘ s)) :
    ∃ counts, leaveTopic snapshot topic = .ok ⟨n, counts⟩ ∧ counts.CountsOf s := by
  obtain ⟨hlookup, hleft⟩ := htopics.leave
  refine ⟨_, ?_, hleft⟩
  simp only [leaveTopic, htotal, checkedPred, hlookup]
  rfl

/-- The dispatcher counts of an execution that leaves. -/
theorem leaveDispatcher_spec {counts : Counts Generation} {generation : Generation}
    {s : Multiset Generation} (h : counts.CountsOf (generation ::ₘ s))
    (hpositive : ∀ generation, counts.lookup generation ≠ some 0) :
    ∃ counts', leaveDispatcher counts generation = .ok counts' ∧ counts'.CountsOf s ∧
      ∀ generation, counts'.lookup generation ≠ some 0 := by
  obtain ⟨hlookup, hleft⟩ := h.leave
  have hok : leaveDispatcher counts generation = .ok (if s.count generation = 0 then
      AList.erase generation (AList.insert generation (s.count generation) counts)
      else AList.insert generation (s.count generation) counts) := by
    simp only [leaveDispatcher, hlookup, checkedPred]
    rfl
  refine ⟨_, hok, ?_, fun generation' => ?_⟩
  · by_cases hzero : s.count generation = 0
    · rw [if_pos hzero]
      exact hleft.erase hzero
    · rw [if_neg hzero]
      exact hleft
  · by_cases hgeneration : generation' = generation
    · subst hgeneration
      by_cases hzero : s.count generation' = 0
      · rw [if_pos hzero, AList.lookup_erase]
        exact (Option.some_ne_none 0).symm
      · rw [if_neg hzero, AList.lookup_insert]
        exact fun heq => hzero (Option.some.inj heq)
    · have hother : AList.lookup generation' (AList.insert generation (s.count generation) counts) =
          counts.lookup generation' := AList.lookup_insert_ne hgeneration
      by_cases hzero : s.count generation = 0
      · rw [if_pos hzero, AList.lookup_erase_ne hgeneration, hother]
        exact hpositive generation'
      · rw [if_neg hzero, hother]
        exact hpositive generation'

/-- **Collecting a running execution raises no fault**: its record is there, no count
underflows, and the records are those of the executions that are left. -/
theorem collectResult_spec (h : c.Accounts) (hperm : c.executions.Perm (execution :: rest))
    (result : ExecutionResult) :
    ∃ c', { c with executions := rest }.collectResult execution.id result = .ok c' ∧ c'.Accounts ∧
      c'.executions = rest ∧ c'.shuttingDown = c.shuttingDown ∧
      match result with
      | .returned _ => c'.failures = c.failures ∧
          c'.supplementalFailures = c.supplementalFailures ∧
          c'.failedDispatchers = c.failedDispatchers
      | .joinError error =>
          let recorded := c.recordFailure execution.task.dispatcherGeneration error.failure
          c'.failures = recorded.failures ∧
          c'.supplementalFailures = recorded.supplementalFailures ∧
          c'.failedDispatchers = recorded.failedDispatchers := by
  have hmem : execution ∈ c.executions := hperm.mem_iff.mpr List.mem_cons_self
  have hids := (hperm.map (·.id)).nodup_iff.mp h.ids
  obtain ⟨hfresh, hnodup⟩ := List.nodup_cons.mp hids
  have htotal : c.snapshot.total = rest.length + 1 := by
    rw [h.total, hperm.length_eq, List.length_cons]
  have htopics := h.topics
  rw [topics_of_perm hperm] at htopics
  have hgenerations := h.dispatchers
  rw [generations_of_perm hperm] at hgenerations
  obtain ⟨byTopic, hleave, hbyTopic⟩ := leaveTopic_spec htotal htopics
  obtain ⟨byDispatcher, hleave', hbyDispatcher, hpositive⟩ :=
    leaveDispatcher_spec hgenerations h.positive
  have htasks : ∀ e ∈ rest, (c.tasksById.erase execution.id).lookup e.id = some e.task := by
    intro e he
    have hne : e.id ≠ execution.id := fun heq => hfresh (List.mem_map.mpr ⟨e, he, heq⟩)
    rw [AList.lookup_erase_ne hne, h.tasks e (hperm.mem_iff.mpr (List.mem_cons_of_mem _ he))]
  have haccounts : ∀ c' : Collector, c'.executions = rest →
      c'.tasksById = c.tasksById.erase execution.id → c'.activeByDispatcher = byDispatcher →
      c'.snapshot = ⟨rest.length, byTopic⟩ → c'.Accounts := by
    intro c' hexecutions htasksById hdispatchers hsnapshot
    refine ⟨?_, ?_, ?_, ?_, ?_, ?_⟩
    · rw [hexecutions]; exact hnodup
    · rw [hexecutions, htasksById]; exact htasks
    · rw [hexecutions, hsnapshot]
    · rw [hexecutions, hsnapshot]; exact hbyTopic
    · rw [hexecutions, hdispatchers]; exact hbyDispatcher
    · rw [hdispatchers]; exact hpositive
  simp only [collectResult, h.tasks execution hmem, hleave]
  cases result with
  | returned result =>
    simp only [bind, Except.bind, hleave']
    exact ⟨_, rfl, haccounts _ rfl rfl rfl rfl, rfl, rfl, rfl, rfl, rfl⟩
  | joinError error =>
    simp only [bind, Except.bind, recordFailure]
    by_cases hfailed : execution.task.dispatcherGeneration ∈ c.failedDispatchers
    · simp only [if_pos hfailed, hleave']
      exact ⟨_, rfl, haccounts _ rfl rfl rfl rfl, rfl, rfl, rfl, rfl, rfl⟩
    · simp only [if_neg hfailed, hleave']
      exact ⟨_, rfl, haccounts _ rfl rfl rfl rfl, rfl, rfl, rfl, rfl, rfl⟩

end Accounts

section Steps

/-- What an event does to the collector at the top of its loop. -/
inductive Handles (c : Collector) : CollectorEvent → Collector → Prop
  | joined {execution : Execution} {rest : List Execution} {result : ExecutionResult}
      {c' : Collector} (running : c.executions.Perm (execution :: rest))
      (collected : { c with executions := rest }.collectResult execution.id result = .ok c') :
      Handles c (.joined execution.id result) c'
  | refused {id : TaskId} {task : ActivityExecutionTask} (down : c.shuttingDown = true) :
      Handles c (.spawn id task) c
  | spawned {id : TaskId} {task : ActivityExecutionTask} (up : c.shuttingDown = false)
      (fresh : ∀ execution ∈ c.executions, execution.id ≠ id) :
      Handles c (.spawn id task) (c.spawn id task)
  | snapshot : Handles c .snapshot c
  | delivered : Handles c (.takeFailure false) { c with failures := [] }
  | returned : Handles c (.takeFailure true)
      { c with failures := (takeFailure c.failures).toList }
  | shutdown : Handles c .shutdown { c with shuttingDown := true }

/-- **Inversion of an event**: no fault is raised. -/
theorem handles_of_handle (h : c.Accounts) {event : CollectorEvent} {next : Collection}
    (hok : c.handle event = .ok next) : ∃ c', c.Handles event c' ∧ next = c'.loopTop := by
  cases event with
  | joined id result =>
    simp only [handle] at hok
    split at hok
    next hany =>
      obtain ⟨execution, rfl, hperm⟩ := exists_execution hany
      obtain ⟨c', hcollect, -⟩ := collectResult_spec h hperm result
      rw [hcollect] at hok
      exact ⟨c', .joined hperm hcollect, (Except.ok.inj hok).symm⟩
    next => cases hok
  | spawn id task =>
    simp only [handle] at hok
    split at hok
    next hdown => exact ⟨c, .refused hdown, (Except.ok.inj hok).symm⟩
    next hup =>
      split at hok
      next => cases hok
      next hfresh =>
        refine ⟨_, .spawned (Bool.eq_false_iff.mpr hup) fun execution hmem heq => ?_,
          (Except.ok.inj hok).symm⟩
        exact hfresh (List.any_eq_true.mpr ⟨execution, hmem, beq_iff_eq.mpr heq⟩)
  | snapshot => exact ⟨c, .snapshot, (Except.ok.inj hok).symm⟩
  | takeFailure receiverDropped =>
    simp only [handle] at hok
    cases receiverDropped with
    | false => exact ⟨_, .delivered, (Except.ok.inj hok).symm⟩
    | true =>
      refine ⟨_, .returned, ?_⟩
      cases htake : takeFailure c.failures <;> rw [htake] at hok <;> exact (Except.ok.inj hok).symm
  | shutdown => exact ⟨_, .shutdown, (Except.ok.inj hok).symm⟩

/-- **Step lemma** of the records. -/
theorem Accounts.handles (h : c.Accounts) {event : CollectorEvent} (hc : c.Handles event c') :
    c'.Accounts := by
  cases hc with
  | joined running collected =>
    obtain ⟨c'', hcollect, haccounts, -⟩ := collectResult_spec h running _
    cases collected.symm.trans hcollect
    exact haccounts
  | refused | snapshot => exact h
  | spawned up fresh => exact h.spawn fresh _
  | delivered | returned | shutdown => exact h.congr rfl rfl rfl rfl

end Steps

end Collector

end DurableWorkflows
