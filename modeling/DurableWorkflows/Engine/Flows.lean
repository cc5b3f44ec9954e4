import Mathlib.Logic.Equiv.List
import Mathlib.Tactic.DeriveEncodable
import DurableWorkflows.Flow
import DurableWorkflows.Engine.Delays

/-!
# Flows on the engine

The engine counts the commands of a workflow in a column, and a flow counts the
entries of the journal it keeps in the state text. Every commit of a flow moves
both, and nothing else moves one of them, so a result that is delivered to a
flow always carries the number its journal expects.

## Main definitions

- `Aggregate.CountsSteps`: a workflow that commits nothing but steps
- `WorkflowRow.Journals`: the journal of a row has the length its counter says
- `Action.HandlesFlows`: an action that treats some definitions as flows

## Main results

- `run_flowSteps`: the two counts agree in every reachable state
-/

namespace DurableWorkflows

open Transaction Sys

variable {externals : Externals} {s s' : Sys} {db db' : DB} {g g' : Aggregate} {w : WorkflowId}
  {r r' : WorkflowRow} {l : Label} {action : Action} {codec : JournalCodec}
  {P : WorkflowId → Label → Prop}

-- ════════════════════════════════════════════════════════════════════════
-- Counting steps
-- ════════════════════════════════════════════════════════════════════════

/-- The log of a workflow that commits nothing but steps: its first delivery answers no
command, and every later one answers the command before it, which is no approval. -/
structure StepLog (events : List WorkflowEventRow) : Prop where
  first : ∀ e ∈ events, e.deliverySequence = some 1 → e.answers = none
  later : ∀ e ∈ events, ∀ n, 0 < n → e.deliverySequence = some (n + 1) → e.answers = some n
  noApproval : ∀ e ∈ events, e.answersKind ≠ some .approval

/-- What holds of a workflow that commits nothing but steps. -/
structure CountsSteps (g : Aggregate) (r : WorkflowRow) : Prop where
  log : StepLog g.events
  counters : r.status.isTerminal = false → r.commandSequence = r.deliveredEventSequence
  waits : ∀ wait, r.awaited = some wait → wait.kind ≠ .approval ∧ 0 < r.commandSequence

/-- The steps of a workflow that commits nothing but steps. -/
def Label.countsSteps : Label → Bool
  | .continued | .waited (.approval _) => false
  | _ => true

theorem StepLog.nil : StepLog [] := ⟨by simp, by simp, by simp⟩

/-- One more event. -/
theorem StepLog.add {events : List WorkflowEventRow} {e : WorkflowEventRow} (h : StepLog events)
    (hfirst : e.deliverySequence = some 1 → e.answers = none)
    (hlater : ∀ n, 0 < n → e.deliverySequence = some (n + 1) → e.answers = some n)
    (hkind : e.answersKind ≠ some .approval) : StepLog (events ++ [e]) where
  first := List.forall_mem_append.mpr ⟨h.first, by simpa using hfirst⟩
  later := List.forall_mem_append.mpr ⟨h.later, by simpa using hlater⟩
  noApproval := List.forall_mem_append.mpr ⟨h.noApproval, by simpa using hkind⟩

namespace CountsSteps

variable {e : WorkflowEventRow}

/-- A row that keeps its counters. -/
theorem restate (h : CountsSteps g r) (hcommand : r'.commandSequence = r.commandSequence)
    (hdelivered : r'.deliveredEventSequence = r.deliveredEventSequence)
    (hopen : r'.status.isTerminal = false → r.status.isTerminal = false)
    (hwaits : ∀ wait, r'.awaited = some wait → ∃ wait', r.awaited = some wait' ∧ wait.kind = wait'.kind)
    (hevents : g'.events = g.events) : CountsSteps g' r' where
  log := hevents ▸ h.log
  counters ht := by rw [hcommand, hdelivered, h.counters (hopen ht)]
  waits wait hwait := by
    obtain ⟨wait', hwait', hkind⟩ := hwaits wait hwait
    rw [hkind, hcommand]
    exact h.waits wait' hwait'

/-- A history event. -/
theorem history (h : CountsSteps g r) (he : NextEvent g.events none e) (ha : e.answers = none) :
    CountsSteps (g.addEvent e) r where
  log := by
    refine h.log.add (fun _ => ha) (fun n _ hn => ?_) ?_
    · rw [he.delivers] at hn
      cases hn
    · rw [WorkflowEventRow.answersKind_eq_none.mpr ha]
      exact nofun
  counters := h.counters
  waits := h.waits

/-- The answer to a wait. -/
theorem answer {wait : Wait} {now : DbMillis} (h : CountsSteps g r) (hw : r.awaited = some wait)
    (ht : r.status.isTerminal = false)
    (he : NextEvent g.events (some (r.deliveredEventSequence + 1)) e)
    (ha : e.answers = some r.commandSequence) (hkind : e.answersKind = some wait.kind)
    (hevents : g'.events = g.events ++ [e]) : CountsSteps g' (r.woken now) where
  log := by
    obtain ⟨hwait, hpos⟩ := h.waits wait hw
    have hcounters := h.counters ht
    rw [hevents]
    refine h.log.add (fun hfirst => ?_) (fun n _ hn => ?_) ?_
    · have := Option.some_inj.mp (he.delivers.symm.trans hfirst)
      omega
    · have := Option.some_inj.mp (he.delivers.symm.trans hn)
      rw [ha, hcounters]
      exact congrArg some (by omega)
    · rw [hkind]
      exact fun heq => hwait (Option.some_inj.mp heq)
  counters _ := h.counters ht
  waits wait hwait := by cases hwait

/-- The commit of a step. -/
theorem commit {wait : Wait} {status : WorkflowStatus} {stateJson : String} {stateVersion : ℕ}
    {availableAt now : DbMillis} (h : CountsSteps g r) (ht : r.status.isTerminal = false)
    (hkind : wait.kind ≠ .approval) (hevents : g'.events = g.events) :
    CountsSteps g' (r.committed wait status stateJson stateVersion availableAt now) where
  log := hevents ▸ h.log
  counters _ := congrArg (· + 1) (h.counters ht)
  waits wait' hwait := by
    have hsame : (r.waitOn wait).awaited = some wait' := hwait
    rw [awaited_waitOn] at hsame
    cases hsame
    exact ⟨hkind, Nat.succ_pos _⟩

end CountsSteps

theorem open_of_running (h : r.status = .running) : r.status.isTerminal = false := by
  rw [h]
  rfl

/-- A workflow keeps counting its steps as long as it commits nothing but steps. -/
theorem Step.countsSteps (h : Step g l g') (hl : l.countsSteps = true) (hg : g.WellFormed)
    (hcounts : ∀ r, g.row = some r → CountsSteps g r) (hr' : g'.row = some r') :
    CountsSteps g' r' := by
  cases h with
  | inserted hrow he ha =>
    cases hr'
    refine ⟨StepLog.nil.add (fun _ => ha) (fun n hn heq => ?_) ?_, fun _ => ?_, fun wait hwait => ?_⟩
    · have := Option.some_inj.mp (he.delivers.symm.trans heq)
      omega
    · rw [WorkflowEventRow.answersKind_eq_none.mpr ha]
      exact fun h => by cases h
    · rw [hrow.commandSequence, hrow.deliveredEventSequence]
    · rw [WorkflowRow.awaited, hrow.waitKind] at hwait
      cases hwait
  | history hr he ha => exact (hcounts _ hr').history he ha
  | discarded | activityClaimed | renewed | released | settled =>
    exact (hcounts _ hr').restate rfl rfl id (fun wait hwait => ⟨wait, hwait, rfl⟩) rfl
  | continued => cases hl
  | waitedApproval => cases hl
  | completed hr hs =>
    cases hr'
    exact ⟨(hcounts _ hr).log, (fun h => by cases h), (hcounts _ hr).waits⟩
  | slept hr hs =>
    cases hr'
    exact (hcounts _ hr).commit (open_of_running hs) (fun h => by cases h) rfl
  | waitedActivity hr hs =>
    cases hr'
    exact (hcounts _ hr).commit (open_of_running hs) (fun h => by cases h) rfl
  | waitedChild hr hs =>
    cases hr'
    exact (hcounts _ hr).commit (open_of_running hs) (fun h => by cases h) rfl
  | claimed hr hs =>
    cases hr'
    exact (hcounts _ hr).restate rfl rfl (fun _ => by rw [hs]; rfl)
      (fun wait hwait => ⟨wait, hwait, rfl⟩) rfl
  | recovered hr hs | activationFailed hr hs =>
    cases hr'
    exact (hcounts _ hr).restate rfl rfl (fun _ => open_of_running hs)
      (fun wait hwait => ⟨wait, hwait, rfl⟩) rfl
  | paused hr _ ht =>
    cases hr'
    exact (hcounts _ hr).restate rfl rfl (fun _ => ht) (fun wait hwait => ⟨wait, hwait, rfl⟩) rfl
  | revoked hr hs | resumed hr hs | deadLettered hr hs | quarantined hr hs =>
    cases hr'
    exact (hcounts _ hr).restate rfl rfl (fun _ => by rw [hs]; rfl)
      (fun wait hwait => ⟨wait, hwait, rfl⟩) rfl
  | superseded hr hs =>
    cases hr'
    exact (hcounts _ hr).restate rfl rfl (fun h => by cases h) (fun wait hwait => ⟨wait, hwait, rfl⟩) rfl
  | cancelled hr _ _ clear =>
    cases hr'
    refine (hcounts _ hr).restate ?_ ?_ (fun h => by cases h) (fun wait hwait => ?_) rfl
    · cases clear <;> rfl
    · cases clear <;> rfl
    · cases clear with
      | true => cases hwait
      | false => exact ⟨wait, hwait, rfl⟩
  | @reattached _ r c hr hw hs c' =>
    cases hr'
    refine (hcounts _ hr).restate rfl rfl (fun _ => open_of_awaitsChild hs) (fun wait hwait => ?_) rfl
    have hsame : (r.waitOn (.child c')).awaited = some wait := hwait
    rw [awaited_waitOn] at hsame
    cases hsame
    exact ⟨_, hw, rfl⟩
  | @retried _ r a a' _ _ hr hs hw =>
    cases hr'
    refine (hcounts _ hr).restate rfl rfl (fun _ => by rw [hs]; rfl) (fun wait hwait => ?_) rfl
    have hsame : (r.waitOn (.activity a')).awaited = some wait := hwait
    rw [awaited_waitOn] at hsame
    cases hsame
    exact ⟨_, hw, rfl⟩
  | answered hr hw hs he ha hkind =>
    cases hr'
    refine (hcounts _ hr).answer hw ?_ he ha hkind rfl
    rcases hs with ⟨hs, -⟩ | ⟨hs, -⟩
    · exact open_of_awaitsChild hs
    · rw [hs]
      rfl
  | answeredApproval hr hw =>
    exact absurd rfl ((hcounts _ hr).waits _ hw).1
  | @succeeded _ r a act _ _ _ hr hs hw ha hrun he hres =>
    cases hr'
    have ht : r.status.isTerminal = false := by rw [hs]; rfl
    obtain ⟨act', hact', hcommand, -⟩ := (hg.inv hr).awaited ht _ hw
    obtain rfl : act = act' := Option.some_inj.mp (ha.stored.symm.trans hact')
    refine (hcounts _ hr).answer hw ht he ?_ ?_ rfl
    · rw [WorkflowEventRow.answers, hres]
      exact congrArg some hcommand
    · rw [WorkflowEventRow.answersKind, hres]
      rfl

theorem Steps.countsSteps {P : Label → Prop} (h : Steps P g g')
    (hP : ∀ l, P l → l.countsSteps = true) (hg : g.WellFormed)
    (hcounts : ∀ r, g.row = some r → CountsSteps g r) :
    ∀ r, g'.row = some r → CountsSteps g' r := by
  induction h with
  | refl => exact hcounts
  | tail hsteps hstep ih =>
    obtain ⟨l, hl, hstep⟩ := hstep
    exact fun r hr => hstep.countsSteps (hP l hl) (Steps.wellFormed hsteps hg) ih hr

-- ════════════════════════════════════════════════════════════════════════
-- Journals
-- ════════════════════════════════════════════════════════════════════════

/-- The journal of a row has an entry for every command but the last. -/
def WorkflowRow.Journals (codec : JournalCodec) (r : WorkflowRow) : Prop :=
  ∃ journal, codec.decode r.stateJson = .ok journal ∧
    journal.steps.length = r.commandSequence - 1

/-- The state text of a workflow and its command counter. -/
def Aggregate.program (g : Aggregate) : Option (String × ℕ) :=
  g.row.map fun r => (r.stateJson, r.commandSequence)

/-- Only commits write the state text or the command counter of a row. -/
theorem Step.program (h : Step g l g') (hcommit : l.isCommit = false) (hrow : ∃ r, g.row = some r) :
    g'.program = g.program := by
  cases h with
  | inserted =>
    obtain ⟨r, hr⟩ := hrow
    cases hr
  | continued | completed | slept | waitedApproval | waitedActivity | waitedChild => cases hcommit
  | history | discarded | activityClaimed | renewed | released | settled => rfl
  | cancelled hr _ _ clear =>
    rw [Aggregate.program, Aggregate.program, hr]
    cases clear <;> rfl
  | _ =>
    rw [Aggregate.program, Aggregate.program, ‹g.row = some _›]
    rfl

theorem Steps.program {P : Label → Prop} (h : Steps P g g') (hP : ∀ l, P l → l.isCommit = false)
    (hrow : ∃ r, g.row = some r) : g'.program = g.program := by
  induction h with
  | refl => rfl
  | tail hsteps hstep ih =>
    obtain ⟨l, hl, hstep⟩ := hstep
    rw [hstep.program (hP l hl) (Steps.exists_row hsteps hrow), ih]

theorem Step.terminal_of_completed (h : Step g .completed g') (hr' : g'.row = some r') :
    r'.status.isTerminal = true := by
  cases h
  cases hr'
  rfl

theorem Aggregate.program_of_row (hr : g.row = some r) :
    g.program = some (r.stateJson, r.commandSequence) := by
  rw [program, hr]
  rfl

/-- Rows with the same state text and command counter have the same journal. -/
theorem WorkflowRow.Journals.of_program (h : r.Journals codec) (hr : g.row = some r)
    (hr' : g'.row = some r') (hprogram : g'.program = g.program) : r'.Journals codec := by
  rw [Aggregate.program_of_row hr, Aggregate.program_of_row hr'] at hprogram
  obtain ⟨hstate, hcommand⟩ := Prod.mk.inj (Option.some_inj.mp hprogram)
  rwa [WorkflowRow.Journals, hstate, hcommand]

-- ════════════════════════════════════════════════════════════════════════
-- Events and journals
-- ════════════════════════════════════════════════════════════════════════

/-- What an event of a log decodes to answers what the event answers. -/
theorem decodeEvent_answers {e : WorkflowEventRow} {event : WorkflowEvent}
    (h : decodeEvent e = .ok event) (htyped : e.eventType.resultKind = e.answersKind) :
    event.commandSequence? = e.answers ∧ event.waitKind = e.answersKind := by
  unfold decodeEvent at h
  split at h
  next htype =>
    cases h
    rw [htype] at htyped
    exact ⟨(WorkflowEventRow.answersKind_eq_none.mp htyped.symm).symm, htyped⟩
  next htype =>
    cases h
    rw [htype] at htyped
    exact ⟨(WorkflowEventRow.answersKind_eq_none.mp htyped.symm).symm, htyped⟩
  next =>
    split at h
    next hmetadata =>
      cases h
      simp [WorkflowEventRow.answers, WorkflowEventRow.answersKind, hmetadata]
    next => cases h
    next => cases h

/-- The entry of an event: none where it answers no command, one where it answers the
expected one and is no approval. -/
theorem WorkflowEvent.entry_ok {event : WorkflowEvent} {expected : ℕ} {entry : Option JournalEntry}
    (h : event.entry expected = .ok entry) :
    entry.isSome = event.commandSequence?.isSome := by
  cases event with
  | started | continued =>
    cases h
    rfl
  | approvalResolved | approvalExpired => cases h
  | activitySucceeded | childSucceeded | childFailed | timerFired =>
    obtain ⟨_, -, h⟩ := bind_eq_ok h
    cases h
    rfl

/-- The journal grows by one entry for an event that answers a command. -/
theorem applyEvent_length {journal journal' : FlowJournal} {event : WorkflowEvent}
    (h : applyEvent journal event = .ok journal') :
    journal'.steps.length =
      journal.steps.length + if event.commandSequence?.isSome then 1 else 0 := by
  unfold applyEvent at h
  split at h
  · cases h
  obtain ⟨entry, hentry, h⟩ := bind_eq_ok h
  cases h
  rw [← WorkflowEvent.entry_ok hentry]
  cases entry <;> simp

/-- An event that answers the next number, or none, is recorded. -/
theorem applyEvent_ok {journal : FlowJournal} {event : WorkflowEvent}
    (hlength : journal.steps.length < U32.max) (hkind : event.waitKind ≠ some .approval)
    (hsequence : ∀ n, event.commandSequence? = some n → n = journal.steps.length + 1) :
    ∃ journal', applyEvent journal event = .ok journal' := by
  have hentry : ∃ entry, event.entry (journal.steps.length + 1) = .ok entry := by
    cases event with
    | started | continued => exact ⟨none, rfl⟩
    | approvalResolved | approvalExpired => exact absurd rfl hkind
    | activitySucceeded n | childSucceeded n | childFailed n | timerFired n =>
      obtain rfl := hsequence n rfl
      simp only [WorkflowEvent.entry, ensureSequence, if_true]
      exact ⟨_, rfl⟩
  obtain ⟨entry, hentry⟩ := hentry
  rw [applyEvent, if_neg (by omega), hentry]
  exact ⟨_, rfl⟩

/-- What an activation of a flow returns: its output, or a step with the journal that the
event left. -/
theorem flowStep_ok {Output : Type} {flow : FlowBody Output} {workflowId : Option WorkflowId}
    {journal : FlowJournal} {event : WorkflowEvent}
    {transition : WorkflowTransition FlowJournal Unit Output}
    (h : flowStep flow workflowId journal event = .ok transition) :
    ∃ journal', applyEvent journal event = .ok journal' ∧
      ((∃ output, transition = .complete output) ∨
        ∃ pending : PendingStep, transition = pending.transition journal') := by
  obtain ⟨journal', hevent, h⟩ := bind_eq_ok h
  refine ⟨journal', hevent, ?_⟩
  have hkeeps := flow.keeps (.new workflowId journal')
  cases hrun : flow.run (.new workflowId journal') with
  | mk result ctx =>
    rw [hrun] at h hkeeps
    have hsteps : ctx.steps = journal'.steps := hkeeps
    cases result with
    | ok output =>
      simp only [conclude] at h
      split at h
      · cases h
      · cases h
        exact .inl ⟨output, rfl⟩
    | error e =>
      cases e with
      | suspended =>
        simp only [conclude] at h
        split at h
        · cases h
          exact .inr ⟨_, by rw [hsteps]⟩
        · cases h
      | childFailed | definition | domain => cases h

theorem mapError_eq_ok {ε δ α : Type} {x : Except ε α} {f : ε → δ} {a : α}
    (h : x.mapError f = .ok a) : x = .ok a := by
  cases x with
  | error e => cases h
  | ok b =>
    cases h
    rfl

/-- The transitions of a flow: it completes, or commits a step with the state text of a
journal. -/
inductive StepTransition (stateJson : String) : StoredTransition → Prop
  | complete (outputJson : String) : StepTransition stateJson (.complete outputJson)
  | runActivity (activity : ActivityCommand) :
      StepTransition stateJson (.runActivity stateJson activity)
  | runChild (child : ChildWorkflowCommand) : StepTransition stateJson (.runChild stateJson child)
  | sleepUntil (wakeAtMillis : DbMillis) :
      StepTransition stateJson (.sleepUntil stateJson wakeAtMillis)

/-- What a stored step of a flow returns. -/
theorem stepStored_ok {handler : FlowHandler} {workflowId : Option WorkflowId}
    {inputJson stateJson : String} {event : WorkflowEvent} {transition : StoredTransition}
    (h : handler.stepStored codec workflowId inputJson stateJson event = .ok transition) :
    ∃ journal journal', codec.decode stateJson = .ok journal ∧
      applyEvent journal event = .ok journal' ∧
      StepTransition (codec.encode journal') transition := by
  have hstate : ∀ {journal : FlowJournal} {text : String},
      storeTransition.stored (fun journal => .ok (codec.encode journal)) journal = .ok text →
      text = codec.encode journal := by
    intro journal text hstored
    obtain ⟨json, hjson, hstored⟩ := bind_eq_ok hstored
    obtain ⟨-, -, hstored⟩ := bind_eq_ok hstored
    cases hjson
    cases hstored
    rfl
  obtain ⟨flow, -, h⟩ := bind_eq_ok h
  obtain ⟨journal, hjournal, h⟩ := bind_eq_ok h
  obtain ⟨typed, htyped, h⟩ := bind_eq_ok h
  have hstored := mapError_eq_ok h
  obtain ⟨journal', hevent, hshape⟩ := flowStep_ok (mapError_eq_ok htyped)
  refine ⟨journal, journal', mapError_eq_ok hjournal, hevent, ?_⟩
  obtain ⟨output, rfl⟩ | ⟨pending, rfl⟩ := hshape
  · obtain ⟨text, -, hstored⟩ := bind_eq_ok hstored
    cases hstored
    exact .complete text
  · cases pending with
    | activity command =>
      obtain ⟨text, htext, hstored⟩ := bind_eq_ok hstored
      cases hstored
      rw [hstate htext]
      exact .runActivity command
    | child command =>
      obtain ⟨text, htext, hstored⟩ := bind_eq_ok hstored
      cases hstored
      rw [hstate htext]
      exact .runChild command
    | sleep wakeAtMillis =>
      obtain ⟨text, htext, hstored⟩ := bind_eq_ok hstored
      cases hstored
      rw [hstate htext]
      exact .sleepUntil wakeAtMillis

-- ════════════════════════════════════════════════════════════════════════
-- New workflows
-- ════════════════════════════════════════════════════════════════════════

/-- The starts an action may insert: the one it is given, one its registry prepares, or the
child of the transition it commits. -/
inductive Action.Prepares : Action → PreparedWorkflowStart → Prop
  | start (workflow : PreparedWorkflowStart) (options : ApplicationStartOptions) (now : DbMillis) :
      Prepares (.start workflow options now) workflow
  | startPrepared (workflow : PreparedWorkflowStart) (options : ApplicationStartOptions)
      (now : DbMillis) : Prepares (.startPrepared workflow options now) workflow
  | recoverableStart (workflow : PreparedWorkflowStart) (options : ApplicationStartOptions)
      (now : DbMillis) : Prepares (.recoverableStart workflow options now) workflow
  | restart {registry : WorkflowRegistry} {prepared : PreparedWorkflowStart}
      (h : registry.Prepares prepared) (workflow : WorkflowId) (correction : Option String)
      (operator : Operator) (now : DbMillis) :
      Prepares (.restart registry workflow correction operator now) prepared
  | child (i : ℕ) (config : CoordinatorConfig) (stateJson : String) (child : ChildWorkflowCommand)
      (now : DbMillis) : Prepares (.commit i config (.runChild stateJson child) now)
        ⟨child.kind, child.version, child.inputJson, child.stateJson⟩

/-- The row is a new one of a prepared start. -/
structure WorkflowRow.Initial (r : WorkflowRow) (prepared : PreparedWorkflowStart) : Prop where
  kind : r.kind = prepared.kind
  version : r.version = prepared.version
  stateJson : r.stateJson = prepared.stateJson
  commandSequence : r.commandSequence = 0

/-- A row that is there only after an insert is the inserted one. -/
theorem Started.initial {P : WorkflowId → Label → Prop} {row : WorkflowRow} {db₁ : DB}
    {prepared : PreparedWorkflowStart} (h : Started P db row db₁)
    (hlineage : db'.lineage = db₁.lineage)
    (hprogram : (db'.aggregate db.workflows.next).program =
      (db₁.aggregate db.workflows.next).program)
    (hnew : db.workflows.find w = none) (hr : db'.workflows.find w = some r)
    (hrow : row.Initial prepared) : r.Initial prepared := by
  have hℓ := lineage_of_find hr
  rw [hlineage, h.lineage] at hℓ
  by_cases hw : w = db.workflows.next
  · subst hw
    rw [Function.update_self] at hℓ
    rw [Aggregate.program_of_row hr, Aggregate.program_of_row h.stored] at hprogram
    obtain ⟨hstate, hcommand⟩ := Prod.mk.inj (Option.some_inj.mp hprogram)
    have hsame := (Option.some_inj.mp hℓ).symm
    exact ⟨(congrArg Lineage.kind hsame).trans hrow.kind,
      (congrArg Lineage.version hsame).trans hrow.version, hstate.trans hrow.stateJson,
      hcommand.trans hrow.commandSequence⟩
  · rw [Function.update_of_ne hw, DB.lineage, hnew] at hℓ
    cases hℓ

/-- The same after steps that neither insert nor commit. -/
theorem Started.initial_of_evolves {P P' : WorkflowId → Label → Prop} {row : WorkflowRow} {db₁ : DB}
    {prepared : PreparedWorkflowStart} (h : Started P db row db₁) (hev : Evolves P' db₁ db')
    (hP' : ∀ w l, P' w l → l ≠ .inserted ∧ l.isCommit = false)
    (hnew : db.workflows.find w = none) (hr : db'.workflows.find w = some r)
    (hrow : row.Initial prepared) : r.Initial prepared :=
  h.initial (hev.lineage fun w l hl => (hP' w l hl).1)
    ((hev.steps _).program (fun l hl => (hP' _ l hl).2) ⟨_, h.stored⟩) hnew hr hrow

theorem not_new_of_lineage (h : db'.lineage = db.lineage) (hnew : db.workflows.find w = none)
    (hr : db'.workflows.find w = some r) : False := by
  have hℓ := lineage_of_find hr
  rw [h, DB.lineage, hnew] at hℓ
  cases hℓ

theorem Label.isCommit_of_accompanies (h : l.accompanies = true) : l.isCommit = false := by
  cases l with
  | continued | completed | waited => cases h
  | _ => rfl

/-- The child of a commit has the state of its command. -/
theorem exec_commit_prepares {i : ℕ} {config : CoordinatorConfig} {transition : StoredTransition}
    {now : DbMillis} (h : s.Inv)
    (hok : exec externals s (.commit i config transition now) = .ok s')
    (hnew : s.db.workflows.find w = none) (hr : s'.db.workflows.find w = some r) :
    ∃ prepared, (Action.commit i config transition now).Prepares prepared ∧ r.Initial prepared := by
  by_cases hchild : ∃ stateJson child, transition = .runChild stateJson child
  · obtain ⟨stateJson, child, rfl⟩ := hchild
    refine ⟨_, .child .., ?_⟩
    rw [exec] at hok
    obtain ⟨⟨claim, event⟩, hi, hok⟩ := nth_bind_ok hok
    obtain ⟨_, db', hcommit, rfl⟩ := transact'_ok hok
    obtain ⟨hclaim, -, hdelivery⟩ := h.activations _ (List.mem_of_getElem? hi)
    have hinv := (h.claims _ hclaim).2
    simp only at hdelivery
    have hpost : wp (commitOnConnection config claim event (.runChild stateJson child) now)
        (fun _ db' => db'.workflows.find w = some r →
          r.Initial ⟨child.kind, child.version, child.inputJson, child.stateJson⟩) Benign s.db := by
      simp only [commitOnConnection, wp_bind, wp_orAbort, hdelivery]
      refine ⟨fun delivered hdelivered => ?_, fun h => by cases h⟩
      cases hdelivered
      refine wp_commitChild_of h.sound h.attached hinv (fun db₁ db' hstarted hc hlineage _ hr => ?_)
        fun db' hc hlineage _ hr => (not_new_of_lineage hlineage hnew hr).elim
      have hne : s.db.workflows.next ≠ claim.row.id := by
        obtain ⟨r₀, hr₀⟩ := hinv.stored
        exact (Table.lt_next_of_find hr₀).ne'
      refine hstarted.initial hlineage ((hc.other _ hne).program
        (fun _ => Label.isCommit_of_accompanies) ⟨_, hstarted.stored⟩) hnew hr ⟨rfl, rfl, rfl, rfl⟩
    exact wp_ok hpost hcommit hr
  · obtain ⟨claim, event, -, -, hc⟩ := exec_commit_ok h hok
    obtain ⟨l, g, rc, -, -, hwrites, -⟩ := hc.commit
    generalize hlineage : s'.db.lineage = lineage at hwrites
    cases hwrites with
    | insertedChild | existingChild => exact absurd ⟨_, _, rfl⟩ hchild
    | _ => exact (not_new_of_lineage hlineage hnew hr).elim

/-- A new workflow has the state that the action prepared for it. -/
theorem exec_prepares (h : s.Inv) (hok : exec externals s action = .ok s')
    (hnew : s.db.workflows.find w = none) (hr : s'.db.workflows.find w = some r) :
    ∃ prepared, action.Prepares prepared ∧ r.Initial prepared := by
  have hev := (exec_leads h hok).evolves
  have hrow : ∀ (workflow : PreparedWorkflowStart) (options : StartOptions) (now : DbMillis),
      (preparedRow workflow options now).Initial workflow := fun _ _ _ => ⟨rfl, rfl, rfl, rfl⟩
  have hstarts : ∀ {workflow : PreparedWorkflowStart} {options : StartOptions} {now : DbMillis}
      {o : StartOutcome} {db' : DB}, Starts workflow options now s.db o db' →
      db'.workflows.find w = some r → r.Initial workflow := by
    intro workflow options now o db' hstarts hr
    cases hstarts with
    | inserted hstarted => exact hstarted.initial rfl rfl hnew hr (hrow _ _ _)
    | existing => cases hnew.symm.trans hr
  cases action with
  | start workflow options now =>
    rw [exec] at hok
    obtain ⟨o, db', hstart, rfl⟩ := transact'_ok hok
    exact ⟨workflow, .start .., hstarts (wp_ok (wp_start h.sound) hstart) hr⟩
  | startPrepared prepared options now =>
    rw [exec] at hok
    obtain ⟨o, db', hstart, rfl⟩ := transact'_ok hok
    exact ⟨prepared, .startPrepared .., hstarts (wp_ok (wp_startPrepared h.sound) hstart) hr⟩
  | recoverableStart workflow options now =>
    rw [exec] at hok
    obtain ⟨o, db', hstart, rfl⟩ := transact'_ok hok
    obtain ⟨hrecovers, -⟩ := wp_ok (wp_startOrRestartRecoverable h.sound h.attached) hstart
    refine ⟨workflow, .recoverableStart .., ?_⟩
    cases hrecovers with
    | inserted _ hstarted => exact hstarted.initial rfl rfl hnew hr (hrow _ _ _)
    | kept => cases hnew.symm.trans hr
    | failed _ _ _ hstarted hev =>
      refine hstarted.initial_of_evolves hev ?_ hnew hr (hrow _ _ _)
      rintro _ _ ⟨-, rfl⟩
      exact ⟨(fun h => by cases h), rfl⟩
    | blocked _ _ _ hstarted hsup =>
      refine hstarted.initial_of_evolves hsup.evolves (fun w l hl => ?_) hnew hr (hrow _ _ _)
      refine ⟨Label.ne_inserted_of_supersedes hl, ?_⟩
      cases l with
      | continued | completed | waited => cases hl
      | _ => rfl
  | restart registry workflow correction operator now =>
    rw [exec] at hok
    obtain ⟨o, db', hrestart, rfl⟩ := transact'_ok hok
    have hpost : wp (restart registry workflow correction operator now) (fun _ db' =>
        db'.workflows.find w = some r → ∃ prepared, registry.Prepares prepared ∧ r.Initial prepared)
        Benign s.db := by
      refine wp_restart_of h.sound h.attached fun source prepared _ db₁ db' _ hprepares hstarted hev
        _ _ hr => ⟨prepared, hprepares, ?_⟩
      refine hstarted.initial_of_evolves hev (fun w l hl => ?_) hnew hr (hrow _ _ _)
      cases l with
      | cancelled | history | answered => exact ⟨(fun h => by cases h), rfl⟩
      | _ => cases hl
    obtain ⟨prepared, hprepares, hinitial⟩ := wp_ok hpost hrestart hr
    exact ⟨prepared, .restart hprepares .., hinitial⟩
  | commit i config transition now => exact exec_commit_prepares h hok hnew hr
  | _ =>
    refine (not_new_of_lineage (hev.lineage ?_) hnew hr).elim
    rintro _ _ ⟨hl, -⟩ rfl
    cases hl

-- ════════════════════════════════════════════════════════════════════════
-- The invariant
-- ════════════════════════════════════════════════════════════════════════

/-- The action treats the definitions of `flows` as flows: a new workflow of one starts with
the empty journal, and what is committed for one is what a flow returned for the state and the
event of the activation. -/
structure Action.HandlesFlows (codec : JournalCodec) (flows : String → ℤ → Prop) (s : Sys)
    (action : Action) : Prop where
  starts : ∀ prepared, action.Prepares prepared → flows prepared.kind prepared.version →
    prepared.stateJson = codec.encode ⟨[]⟩
  commits : ∀ i config transition now claim e, action = .commit i config transition now →
    s.activations[i]? = some (claim, e) → flows claim.row.kind claim.row.version →
    ∃ (handler : FlowHandler) (event : WorkflowEvent), decodeEvent e = .ok event ∧
      handler.stepStored codec (some claim.row.id) claim.row.inputJson claim.row.stateJson event =
        .ok transition

/-- An action that starts and commits nothing. -/
theorem Action.HandlesFlows.of_idle {flows : String → ℤ → Prop} (s : Sys)
    (hstarts : ∀ prepared, ¬action.Prepares prepared)
    (hcommits : ∀ i config transition now, action ≠ .commit i config transition now) :
    action.HandlesFlows codec flows s where
  starts prepared hprepares _ := absurd hprepares (hstarts prepared)
  commits i config transition now _ _ haction := absurd haction (hcommits i config transition now)

/-- What holds of the flows of a state, and of every claim of one that was ever drawn. -/
structure FlowInv (codec : JournalCodec) (flows : String → ℤ → Prop) (s : Sys) : Prop where
  inv : s.Inv
  counts : ∀ w r, s.db.workflows.find w = some r → flows r.kind r.version →
    CountsSteps (s.db.aggregate w) r
  journals : ∀ w r, s.db.workflows.find w = some r → flows r.kind r.version →
    r.status.isTerminal = false → r.Journals codec
  claims : ∀ claim ∈ s.workflowClaims, flows claim.row.kind claim.row.version →
    claim.row.commandSequence = claim.row.deliveredEventSequence ∧ claim.row.Journals codec

variable {flows : String → ℤ → Prop}

/-- No step inserts a row that is there. -/
theorem Steps.of_row {P : Label → Prop} (h : Steps P g g') (hrow : ∃ r, g.row = some r) :
    Steps (fun l => P l ∧ l ≠ .inserted) g g' := by
  induction h with
  | refl => exact .refl
  | tail hsteps hstep ih =>
    obtain ⟨l, hl, hstep⟩ := hstep
    refine ih.trans (.single hstep ⟨hl, ?_⟩)
    rintro rfl
    obtain ⟨r, hr⟩ := Steps.exists_row hsteps hrow
    cases hstep
    cases hr

/-- A workflow keeps its definition. -/
theorem Evolves.definition {P : WorkflowId → Label → Prop} (h : Evolves P db db')
    (hr : db.workflows.find w = some r) (hr' : db'.workflows.find w = some r') :
    r'.kind = r.kind ∧ r'.version = r.version := by
  have hℓ := h.lineage_of_some (lineage_of_find hr)
  rw [lineage_of_find hr'] at hℓ
  exact ⟨congrArg Lineage.kind (Option.some_inj.mp hℓ),
    congrArg Lineage.version (Option.some_inj.mp hℓ)⟩

theorem Label.countsSteps_of_not_commit (h : l.isCommit = false) : l.countsSteps = true := by
  cases l with
  | continued | completed | waited => cases h
  | _ => rfl

namespace FlowInv

/-- A workflow of a flow counts its steps before an action, if it was there. -/
theorem counts_before (h : FlowInv codec flows s) (hev : Evolves P s.db db')
    (hr' : db'.workflows.find w = some r') (hflow : flows r'.kind r'.version) :
    ∀ r, (s.db.aggregate w).row = some r → CountsSteps (s.db.aggregate w) r := by
  intro r hr
  obtain ⟨hkind, hversion⟩ := hev.definition hr hr'
  exact h.counts w r hr (hkind ▸ hversion ▸ hflow)

/-- A workflow that commits nothing keeps its journal; a new one has the empty journal. -/
theorem journals_of_steps {P : Label → Prop} (h : FlowInv codec flows s)
    (hhandles : action.HandlesFlows codec flows s) (hok : exec externals s action = .ok s')
    (hsteps : Steps P (s.db.aggregate w) (s'.db.aggregate w))
    (hP : ∀ l, P l → l.isCommit = false) (hr' : s'.db.workflows.find w = some r')
    (hflow : flows r'.kind r'.version) (ht : r'.status.isTerminal = false) :
    r'.Journals codec := by
  have hev := (exec_leads h.inv hok).evolves
  cases hr : s.db.workflows.find w with
  | none =>
    obtain ⟨prepared, hprepares, hinitial⟩ := exec_prepares h.inv hok hr hr'
    rw [hinitial.kind, hinitial.version] at hflow
    refine ⟨⟨[]⟩, ?_, ?_⟩
    · rw [hinitial.stateJson, hhandles.starts prepared hprepares hflow, codec.decode_encode]
    · rw [hinitial.commandSequence]
      rfl
  | some r =>
    obtain ⟨hkind, hversion⟩ := hev.definition hr hr'
    obtain ⟨r₀, hr₀, hopen⟩ := (hsteps.of_row ⟨r, hr⟩).open_of_open (fun _ hl => hl.2)
      (.of_row hr' ht)
    obtain rfl := Option.some_inj.mp (hr.symm.trans hr₀)
    have hjournals := h.journals w r hr (hkind ▸ hversion ▸ hflow) hopen
    exact hjournals.of_program (show (s.db.aggregate w).row = _ from hr)
      (show (s'.db.aggregate w).row = _ from hr') (hsteps.program hP ⟨r, hr⟩)

/-- The event that a row of a flow consumes next is recorded in its journal. -/
theorem applyEvent_of_row {e : WorkflowEventRow} {event : WorkflowEvent} {journal : FlowJournal}
    (hlog : StepLog (db.aggregate w).events) (htyped : Log (db.aggregate w).events)
    (hcounters : r.commandSequence = r.deliveredEventSequence)
    (hlength : journal.steps.length = r.commandSequence - 1) (he : e ∈ (db.aggregate w).events)
    (hdelivery : e.deliverySequence = some (r.deliveredEventSequence + 1))
    (hevent : decodeEvent e = .ok event) :
    (∀ n, event.commandSequence? = some n → n = journal.steps.length + 1) ∧
      (r.commandSequence = 0 → event.commandSequence? = none) ∧
      (0 < r.commandSequence → event.commandSequence? = some r.commandSequence) ∧
      ∃ journal', applyEvent journal event = .ok journal' := by
  obtain ⟨hanswers, hkind⟩ := decodeEvent_answers hevent (htyped.typed e he)
  have hzero : r.commandSequence = 0 → event.commandSequence? = none := by
    intro hzero
    rw [hanswers]
    refine hlog.first e he ?_
    rw [hdelivery, ← hcounters, hzero]
  have hpos : 0 < r.commandSequence → event.commandSequence? = some r.commandSequence := by
    intro hpos
    rw [hanswers]
    exact hlog.later e he _ hpos (by rw [hdelivery, hcounters])
  have hsequence : ∀ n, event.commandSequence? = some n → n = journal.steps.length + 1 := by
    intro n hn
    rcases Nat.eq_zero_or_pos r.commandSequence with h0 | h0
    · rw [hzero h0] at hn
      cases hn
    · rw [hpos h0] at hn
      have := Option.some_inj.mp hn
      omega
  refine ⟨hsequence, hzero, hpos, applyEvent_ok ?_ ?_ hsequence⟩
  · have hmem : r.deliveredEventSequence + 1 ∈ deliveries (db.aggregate w).events :=
      List.mem_filterMap.mpr ⟨e, he, hdelivery⟩
    have hle := (htyped.mem_deliveries.mp hmem).2
    have hle' := length_deliveries_le (db.aggregate w).events
    have hbounded := htyped.bounded
    simp only [I32.max, U32.max] at hbounded ⊢
    omega
  · rw [hkind]
    exact hlog.noApproval e he

/-- The commit of a flow's transition: the workflow goes on counting its steps, and the
journal it leaves has an entry for every command but the last. -/
theorem commit {claim : ClaimedRow} {e : WorkflowEventRow} {event : WorkflowEvent} {now : DbMillis}
    {transition : StoredTransition} {handler : FlowHandler} {g : Aggregate} {rc : WorkflowRow}
    {lineage : WorkflowId → Option Lineage} (h : FlowInv codec flows s)
    (hclaim : claim.Holds s.db r) (hflow : flows r.kind r.version)
    (he : e ∈ s.db.eventsOf claim.row.id)
    (hdelivery : e.deliverySequence = some (claim.row.deliveredEventSequence + 1))
    (hevent : decodeEvent e = .ok event)
    (hstep : handler.stepStored codec (some claim.row.id) claim.row.inputJson claim.row.stateJson
      event = .ok transition)
    (hwrites : Writes claim now s.db transition l rc lineage)
    (hcommit : Step (s.db.aggregate claim.row.id) l g) (hrc : g.row = some rc) :
    l.countsSteps = true ∧ (rc.status.isTerminal = false → rc.Journals codec) := by
  have hcounts := h.counts _ r hclaim.stored hflow
  have ht := open_of_running hclaim.running
  obtain ⟨journal, hjournal, hlength⟩ := h.journals _ r hclaim.stored hflow ht
  obtain ⟨owner, updatedAt, hrow⟩ := hclaim.same
  rw [hrow] at hdelivery hstep
  obtain ⟨journal₀, journal', hjournal₀, happly, htransition⟩ := stepStored_ok hstep
  obtain rfl : journal₀ = journal := Except.ok.inj (hjournal₀.symm.trans hjournal)
  obtain ⟨-, hzero, hpos, -⟩ := applyEvent_of_row hcounts.log (h.inv.sound.log _)
    (hcounts.counters ht) hlength he hdelivery hevent
  have hlength' : journal'.steps.length = r.commandSequence := by
    rw [applyEvent_length happly]
    rcases Nat.eq_zero_or_pos r.commandSequence with h0 | h0
    · simp [hzero h0, h0, hlength]
    · simp [hpos h0]
      omega
  have hjournals : ∀ {wait : Wait}, l = .waited wait → rc.stateJson = codec.encode journal' →
      rc.Journals codec := by
    rintro wait rfl hstate
    refine ⟨journal', by rw [hstate, codec.decode_encode], ?_⟩
    rw [hcommit.commandSequence_of_waited hclaim.stored hrc, hlength']
    rfl
  generalize codec.encode journal' = stateJson at *
  cases htransition with
  | complete =>
    cases hwrites
    refine ⟨rfl, fun hopen => ?_⟩
    rw [hcommit.terminal_of_completed hrc] at hopen
    cases hopen
  | runActivity =>
    cases hwrites with
    | waitedActivity hstate => exact ⟨rfl, fun _ => hjournals rfl hstate⟩
  | runChild =>
    cases hwrites with
    | insertedChild hstate => exact ⟨rfl, fun _ => hjournals rfl hstate⟩
    | existingChild hstate => exact ⟨rfl, fun _ => hjournals rfl hstate⟩
  | sleepUntil =>
    cases hwrites with
    | slept hstate => exact ⟨rfl, fun _ => hjournals rfl hstate⟩

end FlowInv

/-- A claim that an action adds to the memory read a row that runs. -/
theorem exec_claims_new {claim : ClaimedRow} (h : s.Inv) (hok : exec externals s action = .ok s')
    (hmem : claim ∈ s'.workflowClaims) (hnew : claim ∉ s.workflowClaims) :
    ∃ r, s'.db.workflows.find claim.row.id = some r ∧ r.status = .running ∧ claim.Matches r := by
  cases action with
  | claimWorkflow =>
    rw [exec] at hok
    obtain ⟨o, db', hclaim, rfl⟩ := transact_ok hok
    rcases List.mem_append.mp hmem with hmem | hmem
    · exact absurd hmem hnew
    · exact ((wp_ok (wp_claimRow h.sound) hclaim).2 claim (Option.mem_toList.mp hmem)).2.2
  | activate =>
    rw [exec] at hok
    obtain ⟨_, -, hok⟩ := nth_bind_ok hok
    obtain ⟨_, _, -, rfl⟩ := transact_ok hok
    exact absurd hmem hnew
  | claimActivity | claimActivities =>
    rw [exec] at hok
    obtain ⟨_, _, -, rfl⟩ := transact_ok hok
    exact absurd hmem hnew
  | heartbeat =>
    rw [exec] at hok
    obtain ⟨_, -, hok⟩ := nth_bind_ok hok
    obtain ⟨renewed, _, -, rfl⟩ := transact_ok hok
    refine absurd ?_ hnew
    cases renewed <;> exact hmem
  | commit | failActivation | finish | reportProgress =>
    rw [exec] at hok
    obtain ⟨_, -, hok⟩ := nth_bind_ok hok
    obtain ⟨_, _, -, rfl⟩ := transact'_ok hok
    exact absurd hmem hnew
  | writeScheduleRuns =>
    cases hok
    exact absurd hmem hnew
  | _ =>
    rw [exec] at hok
    obtain ⟨_, _, -, rfl⟩ := transact'_ok hok
    exact absurd hmem hnew

namespace FlowInv

variable {s s' : Sys}

/-- A workflow of a flow that commits nothing. -/
theorem row_of_steps {P : Label → Prop} (h : FlowInv codec flows s)
    (hhandles : action.HandlesFlows codec flows s) (hok : exec externals s action = .ok s')
    (hsteps : Steps P (s.db.aggregate w) (s'.db.aggregate w))
    (hP : ∀ l, P l → l.isCommit = false) (hr' : s'.db.workflows.find w = some r')
    (hflow : flows r'.kind r'.version) :
    CountsSteps (s'.db.aggregate w) r' ∧ (r'.status.isTerminal = false → r'.Journals codec) :=
  ⟨hsteps.countsSteps (fun l hl => Label.countsSteps_of_not_commit (hP l hl))
      (h.inv.sound.wellFormed w) (h.counts_before (exec_leads h.inv hok).evolves hr' hflow) r' hr',
    h.journals_of_steps hhandles hok hsteps hP hr' hflow⟩

/-- A workflow of a flow after a commit of any workflow. -/
theorem row_of_commit {i : ℕ} {config : CoordinatorConfig} {transition : StoredTransition}
    {now : DbMillis} (h : FlowInv codec flows s)
    (hhandles : (Action.commit i config transition now).HandlesFlows codec flows s)
    (hok : exec externals s (.commit i config transition now) = .ok s')
    (hr' : s'.db.workflows.find w = some r') (hflow : flows r'.kind r'.version) :
    CountsSteps (s'.db.aggregate w) r' ∧ (r'.status.isTerminal = false → r'.Journals codec) := by
  obtain ⟨claim, e, hi, hdelivery, hc⟩ := exec_commit_ok h.inv hok
  by_cases hw : w = claim.row.id
  · subst hw
    obtain ⟨r, hclaim⟩ := hc.held
    obtain ⟨l, g, rc, -, hrc, hwrites, hstep, hsteps⟩ := hc.commit
    obtain ⟨hkind, hversion⟩ := hc.evolves.definition hclaim.stored hr'
    rw [hkind, hversion] at hflow
    obtain ⟨owner, updatedAt, hrow⟩ := hclaim.same
    obtain ⟨handler, event, hevent, hstored⟩ :=
      hhandles.commits i config transition now claim e rfl hi (hrow ▸ hflow)
    obtain ⟨-, hmem, -⟩ := h.inv.activations _ (List.mem_of_getElem? hi)
    obtain ⟨hcounts, hjournals⟩ :=
      h.commit hclaim hflow hmem hdelivery hevent hstored hwrites hstep hrc
    have hg := h.inv.sound.wellFormed claim.row.id
    have hcounts_g : ∀ r, g.row = some r → CountsSteps g r := fun r hr =>
      hstep.countsSteps hcounts hg (h.counts_before hc.evolves hr' (hkind ▸ hversion ▸ hflow)) hr
    refine ⟨hsteps.countsSteps (fun l hl => ?_) (hstep.wellFormed hg) hcounts_g r' hr', fun ht => ?_⟩
    · exact Label.countsSteps_of_not_commit (Label.isCommit_of_accompanies hl)
    · obtain ⟨rc', hrc', hopen⟩ := (hsteps.of_row ⟨rc, hrc⟩).open_of_open (fun _ hl => hl.2)
        (.of_row hr' ht)
      obtain rfl := Option.some_inj.mp (hrc.symm.trans hrc')
      exact (hjournals hopen).of_program hrc (show (s'.db.aggregate _).row = _ from hr')
        (hsteps.program (fun _ => Label.isCommit_of_accompanies) ⟨rc, hrc⟩)
  · exact h.row_of_steps hhandles hok (hc.other w hw) (fun _ => Label.isCommit_of_accompanies) hr' hflow

end FlowInv

/-- Every action that treats the flows as flows keeps the invariant. -/
theorem exec_flowInv (h : FlowInv codec flows s) (hhandles : action.HandlesFlows codec flows s)
    (hok : exec externals s action = .ok s') : FlowInv codec flows s' := by
  have hev := (exec_leads h.inv hok).evolves
  have hrow : ∀ w r, s'.db.workflows.find w = some r → flows r.kind r.version →
      CountsSteps (s'.db.aggregate w) r ∧ (r.status.isTerminal = false → r.Journals codec) := by
    intro w r hr hflow
    by_cases hcommit : ∃ i config transition now, action = .commit i config transition now
    · obtain ⟨i, config, transition, now, rfl⟩ := hcommit
      exact h.row_of_commit hhandles hok hr hflow
    · refine h.row_of_steps hhandles hok (hev.steps w) (fun l hl => ?_) hr hflow
      cases hl' : l.isCommit with
      | true => exact absurd (Action.eq_commit hl.1 hl') hcommit
      | false => rfl
  refine ⟨(exec_leads h.inv hok).inv, fun w r hr hflow => (hrow w r hr hflow).1,
    fun w r hr hflow => (hrow w r hr hflow).2, fun claim hmem hflow => ?_⟩
  by_cases hnew : claim ∈ s.workflowClaims
  · exact h.claims claim hnew hflow
  · obtain ⟨r, hr, hrun, owner, updatedAt, hsame⟩ := exec_claims_new h.inv hok hmem hnew
    rw [hsame] at hflow
    have ht := open_of_running hrun
    obtain ⟨hcounts, hjournals⟩ := hrow _ r hr hflow
    rw [hsame]
    exact ⟨hcounts.counters ht, hjournals ht⟩

theorem FlowInv.init : FlowInv codec flows Sys.init where
  inv := .init
  counts _ _ h := by cases h
  journals _ _ h := by cases h
  claims _ h := by cases h

/-- The event that the next activation of a row delivers. -/
def DB.Undelivered (db : DB) (r : WorkflowRow) (e : WorkflowEventRow) : Prop :=
  e ∈ db.eventsOf r.id ∧ e.deliverySequence = some (r.deliveredEventSequence + 1)

/-- The workflow is at a step: it waits for its result, is blocked or paused on it, or has
the result undelivered. -/
def DB.AtStep (db : DB) (r : WorkflowRow) : Prop :=
  r.status ∈ [.waitingActivity, .waitingChild, .sleeping, .waitingApproval, .blocked] ∨
    r.status = .paused ∧ r.awaited.isSome ∨ ∃ e, db.Undelivered r e ∧ e.answers.isSome

/-- A row that is at a step has issued a command. -/
theorem CountsSteps.pos_of_atStep (h : CountsSteps (db.aggregate r.id) r)
    (hallowed : r.status.allows r.awaited = true) (ht : r.status.isTerminal = false)
    (hstep : db.AtStep r) : 0 < r.commandSequence := by
  have hawaited : r.awaited.isSome → 0 < r.commandSequence := by
    intro hsome
    obtain ⟨wait, hwait⟩ := Option.isSome_iff_exists.mp hsome
    exact (h.waits wait hwait).2
  rcases hstep with hstatus | ⟨-, hsome⟩ | ⟨e, ⟨hmem, hdelivery⟩, hanswers⟩
  · refine hawaited ?_
    cases hwait : r.awaited with
    | some => rfl
    | none =>
      rw [hwait] at hallowed
      simp only [List.mem_cons, List.not_mem_nil, or_false] at hstatus
      rcases hstatus with hs | hs | hs | hs | hs <;> rw [hs] at hallowed <;> cases hallowed
  · exact hawaited hsome
  · rw [← h.counters ht] at hdelivery
    by_contra hzero
    obtain hzero : r.commandSequence = 0 := by omega
    rw [hzero] at hdelivery
    rw [h.log.first e hmem hdelivery] at hanswers
    cases hanswers

/-- A row whose start is undelivered has issued none. -/
theorem CountsSteps.zero_of_started {e : WorkflowEventRow}
    (h : CountsSteps (db.aggregate r.id) r) (htyped : Log (db.aggregate r.id).events)
    (ht : r.status.isTerminal = false) (he : db.Undelivered r e) (hstarted : e.eventType = .started) :
    r.commandSequence = 0 := by
  obtain ⟨hmem, hdelivery⟩ := he
  have hanswers : e.answers = none := by
    have hkind := htyped.typed e hmem
    rw [hstarted] at hkind
    exact WorkflowEventRow.answersKind_eq_none.mp hkind.symm
  by_contra hpos
  rw [← h.counters ht] at hdelivery
  rw [h.log.later e hmem _ (Nat.pos_of_ne_zero hpos) hdelivery] at hanswers
  cases hanswers

/-- Step numbers in every run. Let `flows` be definitions whose handlers are flows. While a
workflow of one is at a step, its command counter is one more than the length of its journal;
while its start is undelivered, the counter is zero and the journal empty. Every result that an
activation delivers carries the number after the journal it is delivered to, so the flow
records it: it never meets a number it does not expect, nor an approval. -/
theorem run_flowSteps (externals : Externals) (codec : JournalCodec) (flows : String → ℤ → Prop)
    (actions : List Action)
    (h : Machine.Along (exec externals) (fun s action => action.HandlesFlows codec flows s) Sys.init
      actions) :
    let s := run externals Sys.init actions
    (∀ w r, s.db.workflows.find w = some r → flows r.kind r.version →
      r.status.isTerminal = false → ∃ journal, codec.decode r.stateJson = .ok journal ∧
        (s.db.AtStep r → r.commandSequence = journal.steps.length + 1) ∧
        ∀ e, s.db.Undelivered r e → e.eventType = .started →
          r.commandSequence = 0 ∧ journal.steps = []) ∧
    ∀ claim e event, (claim, e) ∈ s.activations → flows claim.row.kind claim.row.version →
      decodeEvent e = .ok event → ∃ journal, codec.decode claim.row.stateJson = .ok journal ∧
        (∀ n, event.commandSequence? = some n → n = journal.steps.length + 1) ∧
        ∃ journal', applyEvent journal event = .ok journal' := by
  intro s
  have hinv : FlowInv codec flows s :=
    Machine.run_invariant_along (fun s action s' => exec_flowInv) .init h
  refine ⟨fun w r hr hflow ht => ?_, fun claim e event hmem hflow hevent => ?_⟩
  · obtain rfl : r.id = w := Table.key_of_find hr
    have hcounts := hinv.counts _ r hr hflow
    obtain ⟨journal, hjournal, hlength⟩ := hinv.journals _ r hr hflow ht
    refine ⟨journal, hjournal, fun hstep => ?_, fun e he hstarted => ?_⟩
    · have hpos := hcounts.pos_of_atStep (hinv.inv.sound.inv hr).row.allowed ht hstep
      omega
    · have hzero := hcounts.zero_of_started (hinv.inv.sound.log _) ht he hstarted
      rw [hzero] at hlength
      exact ⟨hzero, List.eq_nil_of_length_eq_zero hlength⟩
  · obtain ⟨hclaim, he, hdelivery⟩ := hinv.inv.activations _ hmem
    obtain ⟨hcounters, journal, hjournal, hlength⟩ := hinv.claims claim hclaim hflow
    obtain ⟨r, hr, hlineage⟩ := DB.exists_row (hinv.inv.claims claim hclaim).2.lineage
    have hkind : r.kind = claim.row.kind := congrArg Lineage.kind hlineage
    have hversion : r.version = claim.row.version := congrArg Lineage.version hlineage
    have hlog := (hinv.counts _ r hr (by rwa [hkind, hversion])).log
    obtain ⟨hsequence, -, -, hrecorded⟩ := FlowInv.applyEvent_of_row hlog (hinv.inv.sound.log _)
      hcounters hlength he hdelivery hevent
    exact ⟨journal, hjournal, hsequence, hrecorded⟩

namespace Sample

instance instEncodableChar : Encodable Char := .ofLeftInverse Char.toNat Char.ofNat Char.ofNat_toNat

instance instEncodableString : Encodable String := .ofLeftInverse String.toList String.ofList fun s => s.ofList_toList

deriving instance Encodable for StepOutcome, JournalEntry, FlowJournal

/-- The text of the empty journal. -/
def emptyJournal : String := "\x7b\"steps\":[]\x7d"

/-- A codec that writes the empty journal as `serde_json` does. -/
def journalCodec : JournalCodec where
  encode journal :=
    if journal.steps = [] then emptyJournal
    else String.ofList (List.replicate (Encodable.encode journal) ' ')
  decode text :=
    if text = emptyJournal then .ok ⟨[]⟩
    else (Encodable.decode text.length).elim (.error "invalid journal") .ok
  decode_encode journal := by
    by_cases hsteps : journal.steps = []
    · obtain ⟨steps⟩ := journal
      subst hsteps
      simp
    · have hne : String.ofList (List.replicate (Encodable.encode journal) ' ') ≠ emptyJournal := by
        intro heq
        have hmem : 's' ∈ (String.ofList (List.replicate (Encodable.encode journal) ' ')).toList := by
          rw [heq]
          decide
        simp at hmem
      simp [hsteps, hne]

/-- A flow that sleeps until the time 5. -/
def sleeper : FlowHandler where
  Output := Unit
  read _ := .ok ⟨fun ctx => ctx.sleepUntil 5, fun ctx => by
    grind [WfCtx.sleepUntil, WfCtx.await, WfCtx.replay]⟩
  outputJson _ := .ok "null"

/-- The first activation of the flow. -/
def sleeperRun : List Action :=
  .start ⟨"w", 1, "null", emptyJournal⟩ ⟨none, none, none⟩ 0 ::
    activation 0 (.sleepUntil emptyJournal 5) 0

theorem sleeper_stepStored : sleeper.stepStored journalCodec (some 1) "null" emptyJournal .started =
    .ok (.sleepUntil emptyJournal 5) := by
  rfl

theorem sleeper_starts (s : Sys) :
    (Action.start ⟨"w", 1, "null", emptyJournal⟩ ⟨none, none, none⟩ 0).HandlesFlows journalCodec
      (fun _ _ => True) s where
  starts _ hprepares _ := by
    cases hprepares
    rfl
  commits := by
    rintro _ _ _ _ _ _ ⟨⟩

theorem sleeper_commits {s : Sys} (h : (s.activations[0]?).map
      (fun x => (x.1.row.id, x.1.row.inputJson, x.1.row.stateJson, x.2.eventType)) =
      some (1, "null", emptyJournal, .started)) :
    (Action.commit 0 config (.sleepUntil emptyJournal 5) 0).HandlesFlows journalCodec
      (fun _ _ => True) s where
  starts := by
    rintro _ ⟨⟩
  commits := by
    rintro i config transition now claim e ⟨⟩ hi -
    rw [hi] at h
    simp only [Option.map_some, Option.some_inj, Prod.mk.injEq] at h
    obtain ⟨hid, hinput, hstate, htype⟩ := h
    refine ⟨sleeper, .started, ?_, ?_⟩
    · rw [decodeEvent, htype]
    · rw [hid, hinput, hstate, sleeper_stepStored]

/-- The flow sleeps at its first step. -/
theorem sleeper_atStep :
    ∃ r journal, (run Sample.externals Sys.init sleeperRun).db.workflows.find 1 = some r ∧
      r.status = .sleeping ∧ journalCodec.decode r.stateJson = .ok journal ∧
      r.commandSequence = journal.steps.length + 1 := by
  have hstatus : ((run Sample.externals Sys.init sleeperRun).db.workflows.find 1).map
      (fun r => r.status) = some .sleeping := by decide +kernel
  have hactivation : ((run Sample.externals Sys.init (sleeperRun.take 3)).activations[0]?).map
      (fun x => (x.1.row.id, x.1.row.inputJson, x.1.row.stateJson, x.2.eventType)) =
      some (1, "null", emptyJournal, .started) := by decide +kernel
  have hhandles : Machine.Along (exec Sample.externals)
      (fun s action => action.HandlesFlows journalCodec (fun _ _ => True) s) Sys.init sleeperRun := by
    refine ⟨sleeper_starts _, .of_idle _ nofun nofun, .of_idle _ nofun nofun, ?_, trivial⟩
    refine sleeper_commits ?_
    exact hactivation
  obtain ⟨hrows, -⟩ := run_flowSteps Sample.externals journalCodec (fun _ _ => True) sleeperRun hhandles
  generalize run Sample.externals Sys.init sleeperRun = s at *
  obtain ⟨r, hr, hsleeping⟩ := Option.map_eq_some_iff.mp hstatus
  obtain ⟨journal, hjournal, hstep, -⟩ := hrows 1 r hr trivial (by rw [hsleeping]; rfl)
  exact ⟨r, journal, hr, hsleeping, hjournal, hstep (.inl (by simp [hsleeping]))⟩

end Sample

end DurableWorkflows
