import DurableWorkflows.Engine.Batches
import DurableWorkflows.Runtime.Collector

/-!
# The dispatcher of activities

A dispatcher asks the collector for a snapshot of the running executions, claims a
batch within the room that the snapshot leaves, and spawns the claims one by one
through the command channel of the collector. The supervisor starts a dispatcher
only once the one before has ended, wherever it was then; the executions of that
one keep running and its last command may still be in the channel.

How long a dispatcher waits between two sweeps does not matter here: it may begin
the next one at any time.

## Main definitions

- `RuntimeParts.localTopicCapacity`: the room for each topic
- `Dispatcher`, `Dispatching`: a dispatcher, and the runtime around it
- `Dispatching.exec`: the steps of the dispatcher, the collector and the supervisor
- `Dispatching.Inv`: the running executions, those on their way and those that may
  still be claimed are within the limit of their topic

## Main results

- `Dispatching.run_capacity`: in every run, for every topic and in all
-/

namespace DurableWorkflows

section Model

/-- `TopicRegistry`: the definitions by their keys. -/
structure TopicRegistry where
  definitions : List TopicDefinition
  nodup : (definitions.map (·.key)).Nodup

/-- `local_topic_limit`. -/
def localTopicLimit (topic : String) (globalLimit defaultLocalLimit : ℕ)
    (overrides : AList fun _ : String => ℕ) : ℕ :=
  min globalLimit ((overrides.lookup topic).getD defaultLocalLimit)

/-- `RuntimeParts`: what the dispatchers of a runtime share. -/
structure RuntimeParts where
  activities : ActivityRegistry
  topics : TopicRegistry
  maxWorkersPerTopic : ℕ
  topicWorkerLimits : AList fun _ : String => ℕ

namespace RuntimeParts

/-- The local limit of a registered topic. -/
def topicLimit (parts : RuntimeParts) (topic : TopicDefinition) : ℕ :=
  localTopicLimit topic.key topic.maxConcurrency parts.maxWorkersPerTopic parts.topicWorkerLimits

/-- `capacity`: the sum of the local limits. -/
def capacity (parts : RuntimeParts) : ℕ := (parts.topics.definitions.map parts.topicLimit).sum

/-- `local_topic_capacity`: what a snapshot leaves of the local limits. -/
def localTopicCapacity (parts : RuntimeParts) (snapshot : ActivityExecutionSnapshot) :
    List (String × ℕ) :=
  parts.topics.definitions.map fun topic =>
    (topic.key, parts.topicLimit topic - snapshot.activeByTopic.count topic.key)

end RuntimeParts

/-- A call of `claim_batch` in the transaction that it comes to: the registered topics in the
order of the database, whose locks are in place. -/
structure ClaimSweep (parts : RuntimeParts) where
  externals : Externals
  topics : List TopicDefinition
  locks : HeldLocks
  workerId : String
  firstToken : LeaseToken
  now : DbMillis
  leaseSampleStarted : Instant
  db : DB
  registered : topics.Perm parts.topics.definitions
  keyed : db.LocksKeyed

/-- `activity_worker.claim_batch`. -/
def ClaimSweep.claim {parts : RuntimeParts} (sweep : ClaimSweep parts) (limit : ℕ)
    (localTopicCapacity : List (String × ℕ)) : Except DurableError (List ActivityClaim × DB) :=
  claimBatch sweep.externals parts.activities sweep.topics sweep.locks limit localTopicCapacity
    sweep.workerId sweep.firstToken sweep.now sweep.leaseSampleStarted sweep.db

/-- `ActivityExecutionCommand`, with the dispatcher that awaits the response. -/
inductive ActivityExecutionCommand
  | spawn (topic : String) (dispatcherGeneration : Generation)
  | snapshot (response : Generation)
  | takeFailure (response : Generation)
  | shutdown
  deriving DecidableEq

/-- Where a dispatcher is in its loop. -/
inductive DispatcherPhase
  /-- At the top of the loop, or waiting to return there. -/
  | sweeping
  | takingFailure
  /-- No execution has failed. -/
  | healthy
  | snapshotting
  | claiming (available : ℕ) (localTopicCapacity : List (String × ℕ))
  /-- With the claims that are not spawned yet. -/
  | spawning (claims : List ActivityClaim)
  /-- A claim is being spawned; with those after it. -/
  | awaitingSpawn (claims : List ActivityClaim)

/-- A dispatcher, with the generation of `for_dispatcher`. -/
structure Dispatcher where
  generation : Generation
  phase : DispatcherPhase

/-- The runtime around its dispatcher: the collector, its command channel and the dispatcher
that is running, if any. -/
structure Dispatching where
  collection : Collection
  commands : List ActivityExecutionCommand
  dispatcher : Option Dispatcher
  nextDispatcherGeneration : Generation

/-- What happens next. -/
inductive DispatchEvent (parts : RuntimeParts)
  /-- The supervisor starts a dispatcher. -/
  | started
  /-- The dispatcher ends: it was cancelled, failed or panicked. -/
  | stopped
  /-- The dispatcher goes on to the next response that it awaits. -/
  | advanced
  | claimed (sweep : ClaimSweep parts)
  /-- `claim_batch` fails with a transient error of the database. -/
  | rolledBack
  /-- An execution is joined. -/
  | joined (id : TaskId) (result : ExecutionResult)
  /-- The collector takes the next command; an execution that it spawns gets the id. -/
  | received (id : TaskId)
  /-- The supervisor shuts the collector down. -/
  | shutdown

namespace Dispatcher

/-- The commands that a dispatcher sends, and where it goes on. -/
def advance (d : Dispatcher) : Option (List ActivityExecutionCommand × DispatcherPhase) :=
  match d.phase with
  | .sweeping => some ([.takeFailure d.generation], .takingFailure)
  | .healthy => some ([.snapshot d.generation], .snapshotting)
  | .spawning [] => some ([], .sweeping)
  | .spawning (claim :: claims) =>
    some ([.spawn claim.row.topic d.generation], .awaitingSpawn claims)
  | .takingFailure | .snapshotting | .claiming .. | .awaitingSpawn _ => none

/-- The dispatcher that awaits a response of its generation gets it; the response to one that
has ended is dropped. -/
def respond (generation : Generation) (receive : DispatcherPhase → Option DispatcherPhase)
    (d : Dispatcher) : Option Dispatcher :=
  if d.generation = generation then (receive d.phase).map fun phase => ⟨generation, phase⟩
  else some d

/-- The response to a spawn. -/
def onSpawned (accepted : Bool) : DispatcherPhase → Option DispatcherPhase
  | .awaitingSpawn claims => if accepted then some (.spawning claims) else none
  | phase => some phase

/-- The response to `take_failure`; a failure ends the dispatcher. -/
def onFailure (failure : Option RuntimeTaskFailure) : DispatcherPhase → Option DispatcherPhase
  | .takingFailure => if failure.isSome then none else some .healthy
  | phase => some phase

/-- The response to `snapshot`. -/
def onSnapshot (parts : RuntimeParts) (snapshot : ActivityExecutionSnapshot) :
    DispatcherPhase → Option DispatcherPhase
  | .snapshotting =>
    let available := parts.capacity - snapshot.total
    if available = 0 then some .sweeping
    else some (.claiming available (parts.localTopicCapacity snapshot))
  | phase => some phase

/-- Whether the dispatcher still awaits the failure that it asked for. -/
def awaitsFailure (generation : Generation) (d : Dispatcher) : Bool :=
  d.generation == generation && match d.phase with
    | .takingFailure => true
    | _ => false

end Dispatcher

namespace Dispatching

/-- The runtime before its first dispatcher. -/
def init : Dispatching := ⟨.init, [], none, 1⟩

/-- The collector takes a command off the channel. -/
def receive (parts : RuntimeParts) (s : Dispatching) (c : Collector) (id : TaskId) :
    ActivityExecutionCommand → Except Impossible Dispatching
  | .spawn topic generation => do
    let collection ← c.handle (.spawn id ⟨topic, generation⟩)
    return { s with
      collection
      dispatcher := s.dispatcher.bind
        (Dispatcher.respond generation (Dispatcher.onSpawned !c.shuttingDown)) }
  | .snapshot response => do
    let collection ← c.handle .snapshot
    return { s with
      collection
      dispatcher := s.dispatcher.bind
        (Dispatcher.respond response (Dispatcher.onSnapshot parts c.snapshot)) }
  | .takeFailure response => do
    let receiverDropped := !s.dispatcher.any (Dispatcher.awaitsFailure response)
    let collection ← c.handle (.takeFailure receiverDropped)
    return { s with
      collection
      dispatcher := s.dispatcher.bind
        (Dispatcher.respond response (Dispatcher.onFailure (Collector.takeFailure c.failures))) }
  | .shutdown => do
    let collection ← c.handle .shutdown
    return { s with collection }

/-- The events of a runtime; those that cannot be fail. -/
def exec (parts : RuntimeParts) (s : Dispatching) :
    DispatchEvent parts → Except Impossible Dispatching
  | .started =>
    match s.dispatcher with
    | none => .ok { s with
        dispatcher := some ⟨s.nextDispatcherGeneration, .sweeping⟩
        nextDispatcherGeneration := s.nextDispatcherGeneration + 1 }
    | some _ => .error .impossible
  | .stopped => .ok { s with dispatcher := none }
  | .advanced =>
    match s.dispatcher with
    | none => .error .impossible
    | some d =>
      match d.advance with
      | none => .error .impossible
      | some (commands, phase) => .ok { s with
          commands := s.commands ++ commands, dispatcher := some { d with phase } }
  | .claimed sweep =>
    match s.dispatcher with
    | some ⟨generation, .claiming available localTopicCapacity⟩ =>
      match sweep.claim available localTopicCapacity with
      | .ok (claims, _) => .ok { s with dispatcher := some ⟨generation, .spawning claims⟩ }
      | .error _ => .ok { s with dispatcher := none }
    | _ => .error .impossible
  | .rolledBack =>
    match s.dispatcher with
    | some ⟨generation, .claiming ..⟩ => .ok { s with dispatcher := some ⟨generation, .sweeping⟩ }
    | _ => .error .impossible
  | .joined id result => do
    let collection ← s.collection.exec (.joined id result)
    return { s with collection }
  | .received id =>
    match s.collection, s.commands with
    | .running c, command :: commands => receive parts { s with commands } c id command
    | _, _ => .error .impossible
  | .shutdown => .ok { s with commands := s.commands ++ [.shutdown] }

def run (parts : RuntimeParts) (events : List (DispatchEvent parts)) : Dispatching :=
  Machine.run (exec parts) init events

end Dispatching

/-- The running executions. -/
def Collection.executions : Collection → List Execution
  | .running c => c.executions
  | .ended .. => []

end Model

variable {parts : RuntimeParts} {s s' : Dispatching} {d d' : Dispatcher} {topic : String}
  {commands : List ActivityExecutionCommand} {generation : Generation}

section Limits

namespace RuntimeParts

/-- The local limit of a topic; one that is not registered has no room. -/
def limitOf (parts : RuntimeParts) (topic : String) : ℕ :=
  ((parts.topics.definitions.find? (·.key == topic)).map parts.topicLimit).getD 0

theorem limitOf_of_mem {t : TopicDefinition} (ht : t ∈ parts.topics.definitions) :
    parts.limitOf t.key = parts.topicLimit t := by
  unfold limitOf
  cases hfind : parts.topics.definitions.find? (·.key == t.key) with
  | none => exact absurd (beq_self_eq_true t.key) (List.find?_eq_none.mp hfind t ht)
  | some t' =>
    have hkey : t'.key = t.key := by simpa using List.find?_some hfind
    obtain rfl : t' = t := List.inj_on_of_nodup_map parts.topics.nodup
      (List.mem_of_find?_eq_some hfind) ht hkey
    rw [Option.map_some, Option.getD_some]

theorem limitOf_of_not_mem (h : topic ∉ parts.topics.definitions.map (·.key)) :
    parts.limitOf topic = 0 := by
  unfold limitOf
  have hfind : parts.topics.definitions.find? (·.key == topic) = none := by
    refine List.find?_eq_none.mpr fun t ht heq => h ?_
    exact List.mem_map.mpr ⟨t, ht, beq_iff_eq.mp heq⟩
  rw [hfind, Option.map_none, Option.getD_none]

theorem capacity_eq : parts.capacity = ((parts.topics.definitions.map (·.key)).map
    parts.limitOf).sum := by
  unfold capacity
  rw [List.map_map]
  exact congrArg List.sum (List.map_congr_left fun t ht => (limitOf_of_mem ht).symm)

/-- What a snapshot leaves of the limit of a topic. -/
theorem lookup_localTopicCapacity (snapshot : ActivityExecutionSnapshot) :
    ((parts.localTopicCapacity snapshot).lookup topic).getD 0 =
      parts.limitOf topic - snapshot.activeByTopic.count topic := by
  unfold localTopicCapacity limitOf
  induction parts.topics.definitions with
  | nil => simp
  | cons t definitions ih =>
    rw [List.map_cons, List.lookup_cons, List.find?_cons]
    by_cases hkey : t.key = topic
    · subst hkey
      simp
    · rw [beq_eq_false_iff_ne.mpr hkey, beq_eq_false_iff_ne.mpr (Ne.symm hkey)]
      exact ih

end RuntimeParts

/-- The bounds of a sweep. -/
theorem ClaimSweep.bounded (sweep : ClaimSweep parts) {limit : ℕ}
    {localTopicCapacity : List (String × ℕ)} {claims : List ActivityClaim} {db : DB}
    (h : sweep.claim limit localTopicCapacity = .ok (claims, db)) :
    BatchBounds sweep.externals parts.activities sweep.topics sweep.locks limit localTopicCapacity
      sweep.workerId sweep.firstToken sweep.now sweep.leaseSampleStarted sweep.db claims :=
  claimBatch_bounded ((sweep.registered.map (·.key)).nodup_iff.mpr parts.topics.nodup) sweep.keyed h

end Limits

section Load

/-- Whether a command spawns an execution of a topic. -/
def ActivityExecutionCommand.spawns (topic : String) : ActivityExecutionCommand → Bool
  | .spawn topic' _ => topic' == topic
  | .snapshot _ | .takeFailure _ | .shutdown => false

/-- The executions of a topic that a dispatcher may still spawn. -/
def DispatcherPhase.held (topic : String) : DispatcherPhase → ℕ
  | .claiming _ localTopicCapacity => (localTopicCapacity.lookup topic).getD 0
  | .spawning claims | .awaitingSpawn claims => claimsOf topic claims
  | .sweeping | .takingFailure | .healthy | .snapshotting => 0

/-- The executions of a topic that are running or in the channel. -/
def Dispatching.load (s : Dispatching) (topic : String) : ℕ :=
  (Collector.topics s.collection.executions).count topic + s.commands.countP (·.spawns topic)

/-- After the snapshot that a dispatcher asks for, no execution is in the channel. -/
def SnapshotLast (generation : Generation) (commands : List ActivityExecutionCommand) : Prop :=
  commands.Pairwise fun before after => before = .snapshot generation →
    after ≠ .snapshot generation ∧ ∀ topic, after.spawns topic = false

theorem snapshotLast_of_not_mem (h : .snapshot generation ∉ commands) :
    SnapshotLast generation commands :=
  List.pairwise_of_forall_mem_list fun _ hmem _ _ heq => absurd (heq ▸ hmem) h

/-- A command that spawns nothing may come last, and a first snapshot. -/
theorem SnapshotLast.concat (h : SnapshotLast generation commands)
    {command : ActivityExecutionCommand}
    (hcommand : .snapshot generation ∈ commands →
      command ≠ .snapshot generation ∧ ∀ topic, command.spawns topic = false) :
    SnapshotLast generation (commands ++ [command]) := by
  refine List.pairwise_append.mpr ⟨h, List.pairwise_singleton _ _, fun before hbefore after hafter => ?_⟩
  rintro rfl
  rw [List.mem_singleton.mp hafter]
  exact hcommand hbefore

namespace Dispatching

/-- What holds of the dispatcher that is running. -/
structure Serves (parts : RuntimeParts) (s : Dispatching) (d : Dispatcher) : Prop where
  generation : d.generation < s.nextDispatcherGeneration
  budget : ∀ topic, s.load topic + d.phase.held topic ≤ parts.limitOf topic
  last : SnapshotLast d.generation s.commands
  outstanding : .snapshot d.generation ∈ s.commands → d.phase = .snapshotting

/-- A dispatcher that asks for nothing has no snapshot in the channel. -/
theorem Serves.not_mem (h : s.Serves parts d) (hphase : d.phase ≠ .snapshotting) :
    .snapshot d.generation ∉ s.commands :=
  fun hmem => hphase (h.outstanding hmem)

/-- **The invariant of a runtime**: the executions of a topic that are running, in the channel or
still to be spawned are within its limit. -/
structure Inv (parts : RuntimeParts) (s : Dispatching) : Prop where
  accounts : ∀ c, s.collection = .running c → c.Accounts
  budget : ∀ topic, s.load topic ≤ parts.limitOf topic
  fresh : ∀ generation, .snapshot generation ∈ s.commands → generation < s.nextDispatcherGeneration
  serves : ∀ d ∈ s.dispatcher, s.Serves parts d

theorem Inv.init : Inv parts init where
  accounts c h := by
    cases h
    exact Collector.accounts_init
  budget _ := Nat.zero_le _
  fresh _ h := absurd h List.not_mem_nil
  serves _ h := absurd h (Option.not_mem_none _)

/-- A dispatcher that goes on sends one command at most, and spawns what it held. -/
theorem advance_spec {phase : DispatcherPhase} (h : d.advance = some (commands, phase)) :
    d.phase ≠ .snapshotting ∧
    (∀ topic, commands.countP (·.spawns topic) + phase.held topic ≤ d.phase.held topic) ∧
    (∀ generation, .snapshot generation ∈ commands →
      generation = d.generation ∧ phase = .snapshotting) ∧
    (commands = [] ∨ ∃ command, commands = [command]) := by
  unfold Dispatcher.advance at h
  cases hphase : d.phase with
  | sweeping | healthy =>
    rw [hphase] at h
    cases h
    simp [DispatcherPhase.held, ActivityExecutionCommand.spawns]
  | spawning claims =>
    rw [hphase] at h
    cases claims with
    | nil =>
      cases h
      simp [DispatcherPhase.held]
    | cons claim claims =>
      cases h
      refine ⟨by simp, fun topic => ?_, by simp, .inr ⟨_, rfl⟩⟩
      change _ + claimsOf topic claims ≤ claimsOf topic ([claim] ++ claims)
      rw [claimsOf_append]
      refine Nat.add_le_add_right (le_of_eq ?_) _
      simp [claimsOf, ActivityExecutionCommand.spawns, List.countP_cons, List.filter_cons]
      split <;> rfl
  | takingFailure | snapshotting | claiming | awaitingSpawn =>
    rw [hphase] at h
    cases h

end Dispatching

end Load

section Steps

variable {c c' : Collector}

/-- The executions of a topic that an event spawns. -/
def CollectorEvent.spawned (topic : String) : CollectorEvent → ℕ
  | .spawn _ task => if task.topic == topic then 1 else 0
  | .joined .. | .snapshot | .takeFailure _ | .shutdown => 0

theorem Collector.executions_loopTop (c : Collector) : c.loopTop.executions = c.executions := by
  unfold loopTop
  split
  next h => exact h.2.symm
  next => rfl

theorem Collector.eq_of_loopTop (h : c.loopTop = .running c') : c' = c := by
  unfold loopTop at h
  split at h
  · cases h
  · exact (Collection.running.inj h).symm

/-- An event lets no execution run but the one that it spawns. -/
theorem Collector.Handles.count_le (hc : c.Accounts) {event : CollectorEvent}
    (h : c.Handles event c') (topic : String) :
    (topics c'.executions).count topic ≤ (topics c.executions).count topic + event.spawned topic := by
  cases h with
  | @joined execution rest result c' running collected =>
    obtain ⟨c'', hcollect, -, hexecutions, -⟩ := collectResult_spec hc running result
    cases collected.symm.trans hcollect
    rw [hexecutions, topics_of_perm running]
    exact (Multiset.count_le_count_cons _ _ _).trans (Nat.le_add_right _ _)
  | @spawned id task up fresh =>
    have hperm : (c.spawn id task).executions.Perm (⟨id, task⟩ :: c.executions) :=
      List.perm_append_singleton ..
    rw [topics_of_perm hperm, Multiset.count_cons]
    refine Nat.add_le_add_left (le_of_eq ?_) _
    by_cases htopic : task.topic = topic
    · rw [if_pos htopic.symm]
      exact (if_pos (beq_iff_eq.mpr htopic)).symm
    · rw [if_neg (Ne.symm htopic)]
      exact (if_neg (mt beq_iff_eq.mp htopic)).symm
  | refused | snapshot | delivered | returned | shutdown => exact Nat.le_add_right _ _

namespace Dispatching

/-- The invariant without the dispatcher. -/
theorem Inv.stopped (h : Inv parts s) : Inv parts { s with dispatcher := none } where
  accounts := h.accounts
  budget := h.budget
  fresh := h.fresh
  serves _ hd := absurd hd (Option.not_mem_none _)

theorem Inv.started (h : Inv parts s) : Inv parts { s with
    dispatcher := some ⟨s.nextDispatcherGeneration, .sweeping⟩
    nextDispatcherGeneration := s.nextDispatcherGeneration + 1 } where
  accounts := h.accounts
  budget := h.budget
  fresh generation hmem := (h.fresh generation hmem).trans (Nat.lt_succ_self _)
  serves := by
    rintro _ ⟨⟩
    have hnot : .snapshot s.nextDispatcherGeneration ∉ s.commands :=
      fun hmem => Nat.lt_irrefl _ (h.fresh _ hmem)
    exact ⟨Nat.lt_succ_self _, h.budget, snapshotLast_of_not_mem hnot, fun hmem => absurd hmem hnot⟩

/-- A dispatcher in another phase, which holds no more. -/
theorem Inv.rephase (h : Inv parts s) (hd : d ∈ s.dispatcher) {phase : DispatcherPhase}
    (hphase : d.phase ≠ .snapshotting) (hheld : ∀ topic, phase.held topic ≤ d.phase.held topic) :
    Inv parts { s with dispatcher := some ⟨d.generation, phase⟩ } where
  accounts := h.accounts
  budget := h.budget
  fresh := h.fresh
  serves := by
    rintro _ ⟨⟩
    have hserves := h.serves d hd
    exact ⟨hserves.generation,
      fun topic => (Nat.add_le_add_left (hheld topic) _).trans (hserves.budget topic),
      hserves.last, fun hmem => absurd hmem (hserves.not_mem hphase)⟩

/-- A dispatcher that goes on. -/
theorem Inv.advanced (h : Inv parts s) (hd : d ∈ s.dispatcher) {phase : DispatcherPhase}
    (hadvance : d.advance = some (commands, phase)) :
    Inv parts { s with
      commands := s.commands ++ commands, dispatcher := some ⟨d.generation, phase⟩ } := by
  obtain ⟨hphase, hheld, hsnapshot, hone⟩ := advance_spec hadvance
  have hserves := h.serves d hd
  have hnot : .snapshot d.generation ∉ s.commands := hserves.not_mem hphase
  have hload : ∀ topic, load { s with commands := s.commands ++ commands } topic =
      s.load topic + commands.countP (·.spawns topic) := by
    intro topic
    unfold load
    rw [List.countP_append, Nat.add_assoc]
  have hbudget : ∀ topic, load { s with commands := s.commands ++ commands } topic +
      phase.held topic ≤ parts.limitOf topic := by
    intro topic
    rw [hload, Nat.add_assoc]
    exact (Nat.add_le_add_left (hheld topic) _).trans (hserves.budget topic)
  refine ⟨h.accounts, fun topic => (Nat.le_add_right _ _).trans (hbudget topic), ?_, ?_⟩
  · intro generation hmem
    rcases List.mem_append.mp hmem with hmem | hmem
    · exact h.fresh generation hmem
    · rw [(hsnapshot generation hmem).1]
      exact hserves.generation
  · rintro _ ⟨⟩
    refine ⟨hserves.generation, hbudget, ?_, fun hmem => ?_⟩
    · rcases hone with rfl | ⟨command, rfl⟩
      · rw [List.append_nil]
        exact hserves.last
      · exact hserves.last.concat fun hmem => absurd hmem hnot
    · exact (hsnapshot _ ((List.mem_append.mp hmem).resolve_left hnot)).2

/-- A collector that lets no execution run. -/
theorem Inv.joined (h : Inv parts s) (hrunning : s.collection = .running c)
    {event : CollectorEvent} (hc : c.Handles event c') (hspawned : ∀ topic, event.spawned topic = 0) :
    Inv parts { s with collection := c'.loopTop } := by
  have hload : ∀ topic, load { s with collection := c'.loopTop } topic ≤ s.load topic := by
    intro topic
    unfold load
    rw [hrunning, Collector.executions_loopTop]
    have hle := hc.count_le (h.accounts c hrunning) topic
    rw [hspawned, Nat.add_zero] at hle
    exact Nat.add_le_add_right hle _
  refine ⟨fun c'' heq => ?_, fun topic => (hload topic).trans (h.budget topic), h.fresh,
    fun d hd => ?_⟩
  · rw [Collector.eq_of_loopTop heq]
    exact (h.accounts c hrunning).handles hc
  · have hserves := h.serves d hd
    exact ⟨hserves.generation,
      fun topic => (Nat.add_le_add_right (hload topic) _).trans (hserves.budget topic),
      hserves.last, hserves.outstanding⟩

/-- A collector that took a command off the channel. -/
theorem Inv.received (h : Inv parts s) (hrunning : s.collection = .running c)
    {command : ActivityExecutionCommand} (hcommands : s.commands = command :: commands)
    {event : CollectorEvent} (hc : c.Handles event c')
    (hspawned : ∀ topic, event.spawned topic ≤ if command.spawns topic then 1 else 0) :
    Inv parts { s with collection := c'.loopTop, commands } := by
  have hload : ∀ topic, load { s with collection := c'.loopTop, commands } topic ≤ s.load topic := by
    intro topic
    unfold load
    rw [hrunning, Collector.executions_loopTop, hcommands, List.countP_cons]
    have hle := hc.count_le (h.accounts c hrunning) topic
    have hone := hspawned topic
    change (Collector.topics c'.executions).count topic + commands.countP (·.spawns topic) ≤
      (Collector.topics c.executions).count topic +
        (commands.countP (·.spawns topic) + if command.spawns topic then 1 else 0)
    omega
  refine ⟨fun c'' heq => ?_, fun topic => (hload topic).trans (h.budget topic),
    fun generation hmem => ?_, fun d hd => ?_⟩
  · rw [Collector.eq_of_loopTop heq]
    exact (h.accounts c hrunning).handles hc
  · exact h.fresh generation (hcommands ▸ List.mem_cons_of_mem _ hmem)
  · have hserves := h.serves d hd
    have hlast := hserves.last
    rw [hcommands] at hlast
    exact ⟨hserves.generation,
      fun topic => (Nat.add_le_add_right (hload topic) _).trans (hserves.budget topic),
      (List.pairwise_cons.mp hlast).2,
      fun hmem => hserves.outstanding (hcommands ▸ List.mem_cons_of_mem _ hmem)⟩

/-- The supervisor shuts the collector down. -/
theorem Inv.shutdown (h : Inv parts s) :
    Inv parts { s with commands := s.commands ++ [.shutdown] } := by
  have hload : ∀ topic, load { s with commands := s.commands ++ [.shutdown] } topic =
      s.load topic := by
    intro topic
    unfold load
    rw [List.countP_append]
    rfl
  have hmem : ∀ generation, .snapshot generation ∈ s.commands ++ [.shutdown] →
      .snapshot generation ∈ s.commands := by
    intro generation hmem
    simpa using hmem
  refine ⟨h.accounts, fun topic => (hload topic).trans_le (h.budget topic),
    fun generation hgeneration => h.fresh generation (hmem generation hgeneration), fun d hd => ?_⟩
  have hserves := h.serves d hd
  refine ⟨hserves.generation, fun topic => ?_, hserves.last.concat fun _ => ⟨nofun, fun _ => rfl⟩,
    fun hgeneration => hserves.outstanding (hmem _ hgeneration)⟩
  rw [hload]
  exact hserves.budget topic

/-- The response to a dispatcher, which it may act on. -/
theorem Inv.responds (h : Inv parts s) {generation : Generation}
    {receive : DispatcherPhase → Option DispatcherPhase}
    (hreceive : ∀ d ∈ s.dispatcher, d.generation = generation → ∀ phase, receive d.phase = some phase →
      (∀ topic, s.load topic + phase.held topic ≤ parts.limitOf topic) ∧
      (.snapshot generation ∈ s.commands → phase = .snapshotting)) :
    Inv parts { s with
      dispatcher := s.dispatcher.bind (Dispatcher.respond generation receive) } := by
  refine ⟨h.accounts, h.budget, h.fresh, fun d' hd' => ?_⟩
  obtain ⟨d, hd, hrespond⟩ := Option.bind_eq_some_iff.mp hd'
  have hserves := h.serves d hd
  unfold Dispatcher.respond at hrespond
  by_cases hgeneration : d.generation = generation
  · rw [if_pos hgeneration] at hrespond
    obtain ⟨phase, hphase, rfl⟩ := Option.map_eq_some_iff.mp hrespond
    subst hgeneration
    obtain ⟨hbudget, houtstanding⟩ := hreceive d hd rfl phase hphase
    exact ⟨hserves.generation, hbudget, hserves.last, houtstanding⟩
  · rw [if_neg hgeneration] at hrespond
    cases hrespond
    exact ⟨hserves.generation, hserves.budget, hserves.last, hserves.outstanding⟩

/-- **The collector answers a command.** A snapshot is answered when no execution is in the
channel, so that it counts all those of the topic. -/
theorem Inv.receives (h : Inv parts s) (hrunning : s.collection = .running c) {id : TaskId}
    {command : ActivityExecutionCommand} (hcommands : s.commands = command :: commands)
    (hok : receive parts { s with commands } c id command = .ok s') : Inv parts s' := by
  have haccounts := h.accounts c hrunning
  cases command with
  | spawn topic generation =>
    obtain ⟨next, hhandle, hs'⟩ := bind_eq_ok hok
    cases hs'
    obtain ⟨c', hc, rfl⟩ := Collector.handles_of_handle haccounts hhandle
    have htaken := h.received hrunning hcommands hc fun _ => le_rfl
    refine htaken.responds fun d hd hgeneration phase hphase => ?_
    have hserves := htaken.serves d hd
    subst hgeneration
    -- a dispatcher that is told of its execution holds the claims after it
    unfold Dispatcher.onSpawned at hphase
    split at hphase
    next claims hawaiting =>
      split at hphase
      · cases hphase
        refine ⟨fun topic => ?_, fun hmem => ?_⟩
        · have hbudget := hserves.budget topic
          rwa [hawaiting] at hbudget
        · exact absurd hmem (hserves.not_mem (hawaiting ▸ nofun))
      · cases hphase
    next =>
      cases hphase
      exact ⟨hserves.budget, hserves.outstanding⟩
  | takeFailure response =>
    obtain ⟨next, hhandle, hs'⟩ := bind_eq_ok hok
    cases hs'
    obtain ⟨c', hc, rfl⟩ := Collector.handles_of_handle haccounts hhandle
    have htaken := h.received hrunning hcommands hc fun _ => Nat.zero_le _
    refine htaken.responds fun d hd hgeneration phase hphase => ?_
    have hserves := htaken.serves d hd
    subst hgeneration
    unfold Dispatcher.onFailure at hphase
    split at hphase
    next hawaiting =>
      split at hphase
      · cases hphase
      · cases hphase
        exact ⟨htaken.budget, fun hmem => absurd hmem (hserves.not_mem (hawaiting ▸ nofun))⟩
    next =>
      cases hphase
      exact ⟨hserves.budget, hserves.outstanding⟩
  | shutdown =>
    obtain ⟨next, hhandle, hs'⟩ := bind_eq_ok hok
    cases hs'
    obtain ⟨c', hc, rfl⟩ := Collector.handles_of_handle haccounts hhandle
    exact h.received hrunning hcommands hc fun _ => Nat.zero_le _
  | snapshot response =>
    obtain ⟨next, hhandle, hs'⟩ := bind_eq_ok hok
    cases hs'
    obtain ⟨c', hc, rfl⟩ := Collector.handles_of_handle haccounts hhandle
    have htaken := h.received hrunning hcommands hc fun _ => Nat.zero_le _
    refine htaken.responds fun d hd hgeneration phase hphase => ?_
    subst hgeneration
    have hserves := h.serves d hd
    have hsnapshotting : d.phase = .snapshotting :=
      hserves.outstanding (hcommands ▸ List.mem_cons_self)
    have hlast := hserves.last
    rw [hcommands] at hlast
    have hafter := (List.pairwise_cons.mp hlast).1
    -- nothing is spawned after the snapshot, so that it is all there is of the topic
    have hqueued : ∀ topic, commands.countP (·.spawns topic) = 0 := fun topic =>
      List.countP_eq_zero.mpr fun after hmem => by simp [(hafter after hmem rfl).2 topic]
    have hnot : .snapshot d.generation ∉ commands := fun hmem => (hafter _ hmem rfl).1 rfl
    refine ⟨fun topic => ?_, fun hmem => absurd hmem hnot⟩
    cases hc
    rw [hsnapshotting] at hphase
    unfold Dispatcher.onSnapshot at hphase
    dsimp only at hphase
    split at hphase
    · cases hphase
      exact htaken.budget topic
    · cases hphase
      have hbudget := htaken.budget topic
      have hload : load { s with collection := c.loopTop, commands } topic =
          c.snapshot.activeByTopic.count topic := by
        unfold load
        rw [Collector.executions_loopTop, haccounts.topics topic]
        change (Collector.topics c.executions).count topic + commands.countP (·.spawns topic) = _
        rw [hqueued, Nat.add_zero]
      change load { s with collection := c.loopTop, commands } topic +
        ((parts.localTopicCapacity c.snapshot).lookup topic).getD 0 ≤ _
      rw [hload] at hbudget ⊢
      rw [RuntimeParts.lookup_localTopicCapacity]
      exact le_of_eq (Nat.add_sub_of_le hbudget)

/-- **Step lemma**. -/
theorem Inv.exec (h : Inv parts s) {event : DispatchEvent parts}
    (hok : exec parts s event = .ok s') : Inv parts s' := by
  cases event with
  | started =>
    simp only [Dispatching.exec] at hok
    split at hok
    · cases hok
      exact h.started
    · cases hok
  | stopped =>
    cases hok
    exact h.stopped
  | advanced =>
    simp only [Dispatching.exec] at hok
    split at hok
    · cases hok
    next d hd =>
      split at hok
      · cases hok
      next hadvance =>
        cases hok
        exact h.advanced hd hadvance
  | claimed sweep =>
    simp only [Dispatching.exec] at hok
    split at hok
    next generation available capacity hd =>
      split at hok
      next claims db hclaim =>
        cases hok
        exact h.rephase hd (fun heq => by cases heq) (sweep.bounded hclaim).claimsOf_le
      next =>
        cases hok
        exact h.stopped
    next => cases hok
  | rolledBack =>
    simp only [Dispatching.exec] at hok
    split at hok
    next hd =>
      cases hok
      exact h.rephase hd (fun heq => by cases heq) fun _ => Nat.zero_le _
    next => cases hok
  | joined id result =>
    obtain ⟨next, hexec, hs'⟩ := bind_eq_ok hok
    cases hs'
    cases hcollection : s.collection with
    | ended =>
      rw [hcollection] at hexec
      cases hexec
    | running c =>
      rw [hcollection] at hexec
      have hhandle : c.handle (.joined id result) = .ok next := hexec
      obtain ⟨c', hc, rfl⟩ := Collector.handles_of_handle (h.accounts c hcollection) hhandle
      exact h.joined hcollection hc fun _ => rfl
  | received id =>
    simp only [Dispatching.exec] at hok
    split at hok
    next hrunning hcommands => exact h.receives hrunning hcommands hok
    next => cases hok
  | shutdown =>
    cases hok
    exact h.shutdown

/-- **Run lemma**. -/
theorem inv_run (parts : RuntimeParts) (events : List (DispatchEvent parts)) :
    Inv parts (run parts events) :=
  Machine.run_invariant (fun _ _ _ h hok => h.exec hok) Inv.init events

/-- **Local worker capacity**: in every run of the dispatchers of a runtime, whichever of them
end, panic or are restarted and whenever the executions end, every running execution is of a
registered topic, no more executions of a topic are running than its local limit, and no more in
all than the sum of these limits; and every batch that a sweep claims is within its limit, within
what the topic of each claim leaves beside the attempts in flight, and within the local capacity
of the topic. -/
theorem run_capacity (parts : RuntimeParts) (events : List (DispatchEvent parts)) :
    let executions := (run parts events).collection.executions
    (∀ execution ∈ executions, ∃ t ∈ parts.topics.definitions, t.key = execution.task.topic) ∧
    (∀ t ∈ parts.topics.definitions,
      executions.countP (fun execution => execution.task.topic == t.key) ≤
        localTopicLimit t.key t.maxConcurrency parts.maxWorkersPerTopic parts.topicWorkerLimits) ∧
    executions.length ≤ parts.capacity ∧
    ∀ (sweep : ClaimSweep parts) (limit : ℕ) (localTopicCapacity : List (String × ℕ))
      (claims : List ActivityClaim) (db : DB),
      sweep.claim limit localTopicCapacity = .ok (claims, db) →
      BatchBounds sweep.externals parts.activities sweep.topics sweep.locks limit localTopicCapacity
        sweep.workerId sweep.firstToken sweep.now sweep.leaseSampleStarted sweep.db claims := by
  intro executions
  have hcount : ∀ topic, (Collector.topics executions).count topic ≤ parts.limitOf topic :=
    fun topic => (Nat.le_add_right _ _).trans ((inv_run parts events).budget topic)
  refine ⟨fun execution hmem => ?_, fun t ht => ?_, ?_, fun sweep limit capacity claims db hok =>
    sweep.bounded hok⟩
  · by_contra hnone
    have hzero : parts.limitOf execution.task.topic = 0 := by
      refine RuntimeParts.limitOf_of_not_mem fun hkey => hnone ?_
      obtain ⟨t, ht, heq⟩ := List.mem_map.mp hkey
      exact ⟨t, ht, heq⟩
    have hpos : 0 < (Collector.topics executions).count execution.task.topic :=
      Multiset.count_pos.mpr (List.mem_map.mpr ⟨execution, hmem, rfl⟩)
    exact absurd (hcount execution.task.topic) (by omega)
  · have hle := hcount t.key
    rw [RuntimeParts.limitOf_of_mem ht, Collector.topics, Multiset.coe_count, List.count,
      List.countP_map] at hle
    exact hle
  · have hsum := Counts.card_le_sum parts.topics.nodup hcount
      fun key hkey => RuntimeParts.limitOf_of_not_mem hkey
    rw [← RuntimeParts.capacity_eq] at hsum
    exact (List.length_map _).symm.trans_le hsum

end Dispatching

end Steps

end DurableWorkflows
