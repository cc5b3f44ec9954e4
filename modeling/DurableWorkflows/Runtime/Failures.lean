import DurableWorkflows.Runtime.Collector

/-!
# The join failures of the collector

Every join failure goes to one of two queues. The first failure of a dispatcher
is offered to the dispatchers, which take all offered ones merged into one; the
others are kept for the end of the collection. None is lost: a failure was
handed to a dispatcher, is in a queue, or is reported when the collection ends.

## Main definitions

- `Merges`, `Stands`: what a failure and a queue stand for
- `SplitFailures`: where the join failures of a history are
- `Collection.history`: the join failures and the deliveries of a run

## Main results

- `Collection.run_accounts`: the records and the failures of the collector after any run
-/

namespace DurableWorkflows

section Merging

/-- A failure stands for join failures: it panicked if one of them did, and its text starts
with that of the first. -/
structure Merges (failure : RuntimeTaskFailure) (originals : List RuntimeTaskFailure) : Prop where
  kind : failure.kind = .panic ↔ ∃ original ∈ originals, original.kind = .panic
  message : ∃ first rest suffix, originals = first :: rest ∧
    failure.message = first.message ++ suffix

/-- A queue stands for join failures, one part of them after another. -/
inductive Stands : List RuntimeTaskFailure → List RuntimeTaskFailure → Prop
  | nil : Stands [] []
  | cons {failure : RuntimeTaskFailure} {failures part originals : List RuntimeTaskFailure}
      (merges : Merges failure part) (rest : Stands failures originals) :
      Stands (failure :: failures) (part ++ originals)

variable {failure failure' : RuntimeTaskFailure}
  {failures failures' originals originals' : List RuntimeTaskFailure}

/-- A text starts with another one. -/
def StartsWith (start text : String) : Prop := ∃ suffix, text = start ++ suffix

theorem StartsWith.append {start text : String} (h : StartsWith start text) (more : String) :
    StartsWith start (text ++ more) := by
  obtain ⟨suffix, rfl⟩ := h
  exact ⟨suffix ++ more, String.append_assoc⟩

/-- A failure stands for itself. -/
theorem Merges.self (failure : RuntimeTaskFailure) : Merges failure [failure] where
  kind := by simp
  message := ⟨failure, [], "", rfl, by simp⟩

theorem Stands.append (h : Stands failures originals) (h' : Stands failures' originals') :
    Stands (failures ++ failures') (originals ++ originals') := by
  induction h with
  | nil => exact h'
  | cons merges _ ih =>
    rw [List.cons_append, List.append_assoc]
    exact .cons merges ih

theorem Stands.concat (h : Stands failures originals) (h' : Merges failure originals') :
    Stands (failures ++ [failure]) (originals ++ originals') := by
  have hone : Stands [failure] (originals' ++ []) := .cons h' .nil
  rw [List.append_nil] at hone
  exact h.append hone

/-- A queue that stands for something is not empty. -/
theorem Stands.eq_nil_iff (h : Stands failures originals) : failures = [] ↔ originals = [] := by
  cases h with
  | nil => exact ⟨fun _ => rfl, fun _ => rfl⟩
  | cons merges rest =>
    obtain ⟨first, others, -, rfl, -⟩ := merges.message
    exact ⟨fun h => absurd h (List.cons_ne_nil _ _), fun h => absurd h (List.cons_ne_nil _ _)⟩

/-- A queue holds a panic if what it stands for does. -/
theorem Stands.panic_iff (h : Stands failures originals) :
    (∃ failure ∈ failures, failure.kind = .panic) ↔
      ∃ original ∈ originals, original.kind = .panic := by
  induction h with
  | nil => simp
  | cons merges _ ih =>
    simp only [List.mem_cons, List.mem_append, or_and_right, exists_or, exists_eq_left]
    rw [merges.kind, ih]

theorem panicked_iff {kind : TaskFailureKind} : kind.panicked = true ↔ kind = .panic := by
  cases kind <;> simp [TaskFailureKind.panicked]

/-- Taking the queue merges all of it into one failure. -/
theorem Stands.takeFailure (h : Stands failures originals) :
    match Collector.takeFailure failures with
    | none => originals = []
    | some failure => Merges failure originals := by
  cases h with
  | nil => rfl
  | @cons failure failures part originals merges rest =>
    have hkind : (if failures.any (·.kind.panicked) then { failure with kind := .panic }
        else failure).kind = .panic ↔ ∃ original ∈ part ++ originals, original.kind = .panic := by
      have hany : failures.any (·.kind.panicked) = true ↔
          ∃ original ∈ originals, original.kind = .panic := by
        rw [← rest.panic_iff, List.any_eq_true]
        simp only [panicked_iff]
      have hmem : (∃ original ∈ part ++ originals, original.kind = .panic) ↔
          (∃ original ∈ part, original.kind = .panic) ∨
            ∃ original ∈ originals, original.kind = .panic := by
        simp only [List.mem_append, or_and_right, exists_or]
      rw [hmem, ← merges.kind, ← hany]
      by_cases hpanic : failures.any (·.kind.panicked) = true
      · rw [if_pos hpanic]
        simp [hpanic]
      · rw [if_neg hpanic]
        simp [hpanic]
    have hmessage : (if failures.any (·.kind.panicked) then { failure with kind := .panic }
        else failure).message = failure.message := by
      split <;> rfl
    obtain ⟨first, others, suffix, hpart, htext⟩ := merges.message
    simp only [Collector.takeFailure]
    by_cases halone : failures.length = 0
    · rw [if_pos halone]
      exact ⟨hkind, first, others ++ originals, suffix, by rw [hpart]; rfl, hmessage.trans htext⟩
    · rw [if_neg halone]
      obtain ⟨text, hsuffix⟩ : StartsWith first.message _ :=
        (((StartsWith.append ⟨suffix, hmessage.trans htext⟩ "; ").append _).append _).append _
      exact ⟨hkind, first, others ++ originals, text, by rw [hpart]; rfl, hsuffix⟩

end Merging

section History

/-- A join failure of an execution of a dispatcher, or a failure that was handed to one. -/
inductive CollectorRecord
  | failed (generation : Generation) (failure : RuntimeTaskFailure)
  | delivered (failure : RuntimeTaskFailure)
  deriving DecidableEq

/-- The join failure of a record, with its dispatcher. -/
def CollectorRecord.failed? : CollectorRecord → Option (Generation × RuntimeTaskFailure)
  | failed generation failure => some (generation, failure)
  | delivered _ => none

/-- The failure of a record that was handed to a dispatcher. -/
def CollectorRecord.delivered? : CollectorRecord → Option RuntimeTaskFailure
  | failed .. => none
  | delivered failure => some failure

/-- What an event adds to the history of the collector it meets. -/
def CollectorEvent.records : Collection → CollectorEvent → List CollectorRecord
  | .running c, .joined id (.joinError error) =>
    match c.executions.find? (·.id == id) with
    | some execution => [.failed execution.task.dispatcherGeneration error.failure]
    | none => []
  | .running c, .takeFailure false => ((Collector.takeFailure c.failures).map .delivered).toList
  | _, _ => []

/-- The history of a run. -/
def Collection.history (events : List CollectorEvent) : List CollectorRecord :=
  Machine.collect Collection.exec CollectorEvent.records .init events

end History

section SplitFailures

variable {c c' : Collector} {log : List CollectorRecord} {event : CollectorEvent}

/-- Where the join failures of a history are: those that were handed to a dispatcher, those
that are offered, and those that are kept. At most one of each dispatcher was ever offered. -/
structure SplitFailures (log : List CollectorRecord) (failures supplemental : List RuntimeTaskFailure)
    (handed offered kept : List (Generation × RuntimeTaskFailure)) : Prop where
  all : (log.filterMap CollectorRecord.failed?).Perm (handed ++ offered ++ kept)
  once : ((handed ++ offered).map (·.1)).Nodup
  delivered : Stands (log.filterMap CollectorRecord.delivered?) (handed.map (·.2))
  queued : Stands failures (offered.map (·.2))
  supplemental : supplemental = kept.map (·.2)

/-- The history of a collector that is running. -/
def Collector.Remembers (log : List CollectorRecord) (c : Collector) : Prop :=
  ∃ handed offered kept, SplitFailures log c.failures c.supplementalFailures handed offered kept ∧
    ∀ generation, generation ∈ c.failedDispatchers ↔ generation ∈ (handed ++ offered).map (·.1)

namespace Collector

theorem remembers_init : init.Remembers [] :=
  ⟨[], [], [], ⟨.nil, List.nodup_nil, .nil, .nil, rfl⟩, fun _ => Iff.rfl⟩

/-- An event that adds nothing to the history and leaves the queues. -/
theorem Remembers.congr (h : c.Remembers log) (hfailures : c'.failures = c.failures)
    (hsupplemental : c'.supplementalFailures = c.supplementalFailures)
    (hfailed : c'.failedDispatchers = c.failedDispatchers) : c'.Remembers log := by
  unfold Remembers
  rw [hfailures, hsupplemental, hfailed]
  exact h

/-- A join failure is offered if it is the first one of its dispatcher, and kept otherwise. -/
theorem Remembers.recordFailure (h : c.Remembers log) (generation : Generation)
    (failure : RuntimeTaskFailure) :
    (c.recordFailure generation failure).Remembers (log ++ [.failed generation failure]) := by
  obtain ⟨handed, offered, kept, hsettles, hfailed⟩ := h
  have hlog : (log ++ [CollectorRecord.failed generation failure]).filterMap
      CollectorRecord.failed? =
      log.filterMap CollectorRecord.failed? ++ [(generation, failure)] := List.filterMap_append
  have hdelivered : (log ++ [CollectorRecord.failed generation failure]).filterMap
      CollectorRecord.delivered? =
      log.filterMap CollectorRecord.delivered? := by
    rw [List.filterMap_append]
    exact List.append_nil _
  have hall := hsettles.all.append_right [(generation, failure)]
  unfold Collector.recordFailure
  by_cases hknown : generation ∈ c.failedDispatchers
  · rw [if_pos hknown]
    refine ⟨handed, offered, kept ++ [(generation, failure)], ⟨?_, hsettles.once, ?_,
      hsettles.queued, ?_⟩, hfailed⟩
    · rw [hlog, ← List.append_assoc]
      exact hall
    · rw [hdelivered]
      exact hsettles.delivered
    · rw [List.map_append, ← hsettles.supplemental]
      rfl
  · rw [if_neg hknown]
    have hnew := fun hmem => hknown ((hfailed generation).mpr hmem)
    have hmap : (handed ++ (offered ++ [(generation, failure)])).map (·.1) =
        (handed ++ offered).map (·.1) ++ [generation] := by
      rw [← List.append_assoc, List.map_append, List.map_singleton]
    refine ⟨handed, offered ++ [(generation, failure)], kept, ⟨?_, ?_, ?_, ?_,
      hsettles.supplemental⟩, fun g => ?_⟩
    · rw [hlog]
      refine hall.trans ?_
      rw [List.append_assoc, List.append_assoc, List.append_assoc, List.append_assoc]
      have hswap : (kept ++ [(generation, failure)]).Perm ([(generation, failure)] ++ kept) :=
        List.perm_append_comm
      exact (hswap.append_left offered).append_left handed
    · rw [hmap]
      refine List.nodup_append.mpr ⟨hsettles.once, List.nodup_singleton _, ?_⟩
      intro a ha b hb heq
      rw [List.mem_singleton.mp hb] at heq
      exact hnew (heq ▸ ha)
    · rw [hdelivered]
      exact hsettles.delivered
    · rw [List.map_append]
      exact hsettles.queued.concat (.self failure)
    · rw [hmap, List.mem_append, ← hfailed g, List.mem_singleton]
      show g ∈ generation :: c.failedDispatchers ↔ _
      rw [List.mem_cons, or_comm]

/-- What the queue stands for, merged into one failure. -/
theorem Stands.merged {failures originals : List RuntimeTaskFailure} (h : Stands failures originals) :
    Stands (takeFailure failures).toList originals := by
  have htake := h.takeFailure
  cases hfailure : takeFailure failures with
  | none =>
    rw [hfailure] at htake
    rw [htake]
    exact .nil
  | some failure =>
    rw [hfailure] at htake
    have hone : Stands [failure] (originals ++ []) := .cons htake .nil
    rwa [List.append_nil] at hone

/-- The offered failures are handed to a dispatcher. -/
theorem Remembers.delivered (h : c.Remembers log) :
    { c with failures := [] }.Remembers
      (log ++ ((takeFailure c.failures).map CollectorRecord.delivered).toList) := by
  obtain ⟨handed, offered, kept, hsettles, hfailed⟩ := h
  have hnone : (((takeFailure c.failures).map CollectorRecord.delivered).toList).filterMap
      CollectorRecord.failed? = [] := by
    cases takeFailure c.failures <;> rfl
  have hdelivered : (((takeFailure c.failures).map CollectorRecord.delivered).toList).filterMap
      CollectorRecord.delivered? = (takeFailure c.failures).toList := by
    cases takeFailure c.failures <;> rfl
  refine ⟨handed ++ offered, [], kept, ⟨?_, ?_, ?_, .nil, hsettles.supplemental⟩, ?_⟩
  · rw [List.filterMap_append, hnone, List.append_nil, List.append_nil]
    exact hsettles.all
  · rw [List.append_nil]
    exact hsettles.once
  · rw [List.filterMap_append, hdelivered, List.map_append]
    exact hsettles.delivered.append (Stands.merged hsettles.queued)
  · rw [List.append_nil]
    exact hfailed

/-- The requester has gone away, and the merged failure is offered again. -/
theorem Remembers.returned (h : c.Remembers log) :
    { c with failures := (takeFailure c.failures).toList }.Remembers log := by
  obtain ⟨handed, offered, kept, hsettles, hfailed⟩ := h
  exact ⟨handed, offered, kept, ⟨hsettles.all, hsettles.once, hsettles.delivered,
    Stands.merged hsettles.queued, hsettles.supplemental⟩, hfailed⟩

/-- The execution with an id is the one that is found. -/
theorem find_execution (h : c.Accounts) {execution : Execution} (hmem : execution ∈ c.executions) :
    c.executions.find? (·.id == execution.id) = some execution := by
  cases hfind : c.executions.find? (·.id == execution.id) with
  | none =>
    have hnot := List.find?_eq_none.mp hfind execution hmem
    exact absurd (beq_self_eq_true execution.id) hnot
  | some found =>
    have hid : found.id = execution.id := by simpa using List.find?_some hfind
    have hfound := List.mem_of_find?_eq_some hfind
    rw [List.inj_on_of_nodup_map h.ids hfound hmem hid]

/-- **Step lemma** of the history. -/
theorem Remembers.handles (h : c.Remembers log) (hc : c.Accounts) (hhandles : c.Handles event c') :
    c'.Remembers (log ++ event.records (.running c)) := by
  cases hhandles with
  | @joined execution rest result c' running collected =>
    obtain ⟨c'', hcollect, -, -, -, hqueues⟩ := collectResult_spec hc running result
    cases collected.symm.trans hcollect
    cases result with
    | returned result =>
      have hnone : (CollectorEvent.joined execution.id (.returned result)).records (.running c) = [] :=
        rfl
      rw [hnone, List.append_nil]
      exact h.congr hqueues.1 hqueues.2.1 hqueues.2.2
    | joinError error =>
      have hmem : execution ∈ c.executions := running.mem_iff.mpr List.mem_cons_self
      have hrecord : (CollectorEvent.joined execution.id (.joinError error)).records (.running c) =
          [.failed execution.task.dispatcherGeneration error.failure] := by
        simp only [CollectorEvent.records, find_execution hc hmem]
      rw [hrecord]
      exact (h.recordFailure _ _).congr hqueues.1 hqueues.2.1 hqueues.2.2
  | refused | snapshot =>
    simpa only [CollectorEvent.records, List.append_nil] using h
  | spawned | shutdown =>
    simp only [CollectorEvent.records, List.append_nil]
    exact h.congr rfl rfl rfl
  | delivered => exact h.delivered
  | returned =>
    simp only [CollectorEvent.records, List.append_nil]
    exact h.returned

end Collector

end SplitFailures

namespace Collection

variable {c c' : Collector} {log : List CollectorRecord} {event : CollectorEvent}

section Runs

/-- The collection after a history: its collector while it runs; what it returned and logged
afterwards, which is all that was offered or kept. -/
def Tells (log : List CollectorRecord) : Collection → Prop
  | .running c => c.Accounts ∧ c.Remembers log
  | .ended result logged => ∃ failures supplemental handed offered kept,
      SplitFailures log failures supplemental handed offered kept ∧
        (result, logged) = Collector.finishCollection (failures ++ supplemental)

theorem Tells.loopTop (haccounts : c.Accounts) (hremembers : c.Remembers log) :
    Tells log c.loopTop := by
  unfold Collector.loopTop
  split
  · obtain ⟨handed, offered, kept, hsettles, -⟩ := hremembers
    exact ⟨_, _, handed, offered, kept, hsettles, rfl⟩
  · exact ⟨haccounts, hremembers⟩

/-- An event that cannot be adds nothing to the history. -/
theorem records_of_impossible {collection : Collection} {e : Impossible}
    (h : exec collection event = .error e) : event.records collection = [] := by
  cases collection with
  | ended result logged => cases event <;> rfl
  | running c =>
    cases event with
    | joined id result =>
      cases result with
      | returned result => rfl
      | joinError error =>
        have habsent : c.executions.any (·.id == id) = false := by
          cases hany : c.executions.any (·.id == id) with
          | false => rfl
          | true =>
            simp only [exec, Collector.handle, hany, if_true] at h
            split at h <;> cases h
        have hfind : c.executions.find? (·.id == id) = none := by
          rw [List.find?_eq_none]
          exact List.any_eq_false.mp habsent
        simp only [CollectorEvent.records, hfind]
    | takeFailure receiverDropped =>
      simp only [exec, Collector.handle] at h
      split at h <;> cases h
    | spawn | snapshot | shutdown => rfl

/-- **Run lemma**. -/
theorem tells_run (events : List CollectorEvent) : Tells (history events) (run events) := by
  have htells : Tells ([] ++ history events) (run events) := by
    have hinit : Tells [] init := ⟨Collector.accounts_init, Collector.remembers_init⟩
    refine Machine.run_collect (P := fun collection log => Tells log collection) ?_ hinit events
    intro collection log event h
    cases hexec : exec collection event with
    | error e =>
      rw [Machine.step_of_error hexec, records_of_impossible hexec, List.append_nil]
      exact h
    | ok next =>
      rw [Machine.step_of_ok hexec]
      cases collection with
      | ended result logged => cases hexec
      | running c =>
        obtain ⟨haccounts, hremembers⟩ := h
        obtain ⟨c', hhandles, rfl⟩ := Collector.handles_of_handle haccounts hexec
        exact .loopTop (haccounts.handles hhandles) (hremembers.handles haccounts hhandles)
  rwa [List.nil_append] at htells

end Runs

/-- **Accounting of the collector**: after any run of a collection that goes on, the total of
the snapshot is the number of running executions and the sum of its topic counts, the counts
are those of the running executions by topic and by dispatcher, joining any of them raises no
fault, and every join failure was handed to a dispatcher in a merged failure, is offered, or
is kept; at most one of each dispatcher was ever offered. A collection that has ended has
reported all failures that were not handed over, and returned an error exactly if there was
one. -/
theorem run_accounts (events : List CollectorEvent) :
    match run events with
    | .running c =>
      c.snapshot.total = c.executions.length ∧
      c.snapshot.total = c.snapshot.activeByTopic.total ∧
      (∀ topic, c.snapshot.activeByTopic.count topic =
        c.executions.countP fun execution => execution.task.topic == topic) ∧
      (∀ generation, c.activeByDispatcher.count generation =
        c.executions.countP fun execution => execution.task.dispatcherGeneration == generation) ∧
      (∀ execution ∈ c.executions, ∀ result, ∃ c' : Collector,
        { c with executions := c.executions.eraseP (·.id == execution.id) }.collectResult
          execution.id result = .ok c') ∧
      ∃ handed offered kept,
        SplitFailures (history events) c.failures c.supplementalFailures handed offered kept
    | .ended result logged => ∃ failures supplemental handed offered kept,
      SplitFailures (history events) failures supplemental handed offered kept ∧
      (result, logged) = Collector.finishCollection (failures ++ supplemental) ∧
      (result = .ok () ↔ offered ++ kept = []) := by
  have htells := tells_run events
  cases hrun : run events with
  | running c =>
    rw [hrun] at htells
    obtain ⟨haccounts, handed, offered, kept, hsettles, -⟩ := htells
    refine ⟨haccounts.total, ?_, fun topic => ?_, fun generation => ?_, fun execution hmem result => ?_,
      handed, offered, kept, hsettles⟩
    · rw [haccounts.topics.total, haccounts.total]
      exact (List.length_map _).symm
    · rw [haccounts.topics topic, Collector.topics, Multiset.coe_count, List.count, List.countP_map]
      rfl
    · rw [haccounts.dispatchers generation, Collector.generations, Multiset.coe_count, List.count,
        List.countP_map]
      rfl
    · have hany : c.executions.any (·.id == execution.id) = true :=
        List.any_eq_true.mpr ⟨execution, hmem, beq_self_eq_true _⟩
      obtain ⟨found, hid, hperm⟩ := Collector.exists_execution hany
      obtain ⟨c', hcollect, -⟩ := Collector.collectResult_spec haccounts hperm result
      exact ⟨c', hid ▸ hcollect⟩
  | ended result logged =>
    rw [hrun] at htells
    obtain ⟨failures, supplemental, handed, offered, kept, hsettles, hfinish⟩ := htells
    refine ⟨failures, supplemental, handed, offered, kept, hsettles, hfinish, ?_⟩
    have hresult : result = .ok () ↔ failures ++ supplemental = [] := by
      have hfst : result = (Collector.finishCollection (failures ++ supplemental)).1 :=
        congrArg Prod.fst hfinish
      rw [hfst]
      cases failures ++ supplemental <;> simp [Collector.finishCollection]
    rw [hresult, List.append_eq_nil_iff, List.append_eq_nil_iff, hsettles.queued.eq_nil_iff,
      hsettles.supplemental, List.map_eq_nil_iff, List.map_eq_nil_iff]

end Collection

end DurableWorkflows
