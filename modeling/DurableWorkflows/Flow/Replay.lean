import DurableWorkflows.Flow
import DurableWorkflows.Base.Resumption

/-!
# Replay and direct execution

A program is the code of a flow, one await after another. Its direct execution
asks for each step once and goes on with the outcome; its activations run it
from the top each time. Both issue the same commands in the same order, and
come to the same result.

## Main definitions

- `Program`, `Program.exec`: a flow's code, and how it runs in a context
- `Program.direct`: its direct execution
- `activation`: the last of the activations that a list of results leads to

## Main results

- `Program.exec_eq_halt`: what a run over a journal shows is what the direct
  execution shows after the journal's outcomes
- `activation_refines`: every activation, fresh or repeated, is the direct
  execution's next step
-/

namespace DurableWorkflows

/-- A child's failure as the code of a flow sees it. -/
structure ChildFailure where
  kind : String
  category : String
  message : String

/-- The next thing the code of a flow does in a state of type `σ`. An activity without a key
is `WfCtx::run`. Only the failure of a child is an outcome that the code may go on with: a
suspension and a definition error end the run, as `?` does. -/
inductive FlowCode (σ Output : Type) : Type 1
  | ok (output : Output)
  | fail (error : WfError)
  | run {α : Type} (activity : ActivityHandler α) (operationKey : Option String) (next : α → σ)
  | child {α : Type} (workflow : ChildHandler α) (deduplicationKey : Option String)
      (next : Except ChildFailure α → σ)
  | sleepUntil (wakeAtMillis : DbMillis) (next : σ)

/-- The deterministic code of a flow. Its states are the places between awaits, so a loop may
go on for ever. -/
structure Program (Output : Type) where
  State : Type
  start : State
  code : State → FlowCode State Output

/-- How the code goes on after the await of a child. -/
def catchChildFailed {σ α : Type} (next : Except ChildFailure α → σ) :
    Except WfError α → Except WfError σ
  | .ok value => .ok (next (.ok value))
  | .error (.childFailed kind category message) => .ok (next (.error ⟨kind, category, message⟩))
  | .error e => .error e

-- ════════════════════════════════════════════════════════════════════════
-- Awaits
-- ════════════════════════════════════════════════════════════════════════

namespace WfCtx

variable {α : Type} {ctx : WfCtx} {kind : String} {version : Option ℤ}
variable {resolve : StepOutcome → Except WfError α} {command : Except DurableError PendingStep}

/-- An await inside the journal replays the entry that was recorded for it. -/
theorem await_recorded {outcome : StepOutcome} (hpending : ctx.pending = none)
    (hentry : ctx.steps[ctx.cursor]? = some ⟨kind, version, outcome⟩) :
    ctx.await kind version resolve command =
      (resolve outcome, { ctx with cursor := ctx.cursor + 1 }) := by
  simp [await, replay, hpending, hentry]

/-- The await past the journal suspends. -/
theorem await_new {pending : PendingStep} (hpending : ctx.pending = none)
    (hentry : ctx.steps.length ≤ ctx.cursor) :
    ctx.await kind version resolve (.ok pending) =
      (.error .suspended, { ctx with pending := some pending }) := by
  simp [await, replay, hpending, List.getElem?_eq_none hentry]

/-- The await past the journal fails if its command cannot be built. -/
theorem await_unbuildable {e : DurableError} (hpending : ctx.pending = none)
    (hentry : ctx.steps.length ≤ ctx.cursor) :
    ctx.await kind version resolve (.error e) = (.error (.definition e.message), ctx) := by
  simp [await, replay, hpending, List.getElem?_eq_none hentry]

/-- An await resolves an entry and moves over it, or suspends, or finds a definition error. -/
theorem await_cases (ctx : WfCtx) (kind : String) (version : Option ℤ)
    (resolve : StepOutcome → Except WfError α) (command : Except DurableError PendingStep) :
    (∃ outcome, ctx.cursor < ctx.steps.length ∧ ctx.await kind version resolve command =
        (resolve outcome, { ctx with cursor := ctx.cursor + 1 })) ∨
      (∃ pending, ctx.await kind version resolve command =
        (.error .suspended, { ctx with pending })) ∨
      ∃ message, ctx.await kind version resolve command = (.error (.definition message), ctx) := by
  unfold await replay
  by_cases hpending : ctx.pending.isSome
  · exact .inr (.inl ⟨ctx.pending, by simp [hpending]⟩)
  rw [if_neg hpending]
  cases hentry : ctx.steps[ctx.cursor]? with
  | none =>
    cases command with
    | error e => exact .inr (.inr ⟨_, rfl⟩)
    | ok pending => exact .inr (.inl ⟨some pending, rfl⟩)
  | some entry =>
    simp only
    split_ifs
    · exact .inr (.inr ⟨_, rfl⟩)
    · exact .inr (.inr ⟨_, rfl⟩)
    · exact .inl ⟨entry.outcome, (List.getElem?_eq_some_iff.mp hentry).1, rfl⟩

/-- What is done with the result of an await, except with the errors of the await itself, may
be done where its outcome is resolved. -/
theorem await_map {β : Type} {g : Except WfError α → Except WfError β}
    (hsuspended : g (.error .suspended) = .error .suspended)
    (hdefinition : ∀ message, g (.error (.definition message)) = .error (.definition message)) :
    (ctx.await kind version resolve command).map g id =
      ctx.await kind version (fun outcome => g (resolve outcome)) command := by
  unfold await replay
  by_cases hpending : ctx.pending.isSome
  · simp [hpending, hsuspended]
  simp only [if_neg hpending]
  cases ctx.steps[ctx.cursor]? with
  | none => cases command <;> simp [hsuspended, hdefinition]
  | some entry =>
    simp only
    split_ifs <;> simp [hdefinition]

end WfCtx

-- ════════════════════════════════════════════════════════════════════════
-- The requests of a program
-- ════════════════════════════════════════════════════════════════════════

/-- The kind a step is recorded under. -/
def PendingStep.stepKind : PendingStep → String
  | .activity command => s!"activity:{command.kind}"
  | .child command => s!"child:{command.kind}"
  | .sleep _ => "timer"

/-- The version a step is recorded under. -/
def PendingStep.stepVersion : PendingStep → Option ℤ
  | .activity command => some command.version
  | .child command => some command.version
  | .sleep _ => none

/-- A step the code asks for: its command at a position of the flow, and how the code goes on
with its outcome. -/
structure StepRequest (σ : Type) where
  stepKind : String
  stepVersion : Option ℤ
  command : Option WorkflowId → ℕ → Except DurableError PendingStep
  resolve : StepOutcome → Except WfError σ
  recorded : ∀ workflowId position pending, command workflowId position = .ok pending →
    pending.stepKind = stepKind ∧ pending.stepVersion = stepVersion

/-- The key of the activity at a position. -/
def operationKeyAt (workflowId : Option WorkflowId) (position : ℕ) : Option String :=
  workflowId.map fun workflowId => s!"wf:{workflowId}:step:{position}"

/-- A command carries the kind and the version of its activity, and the key it is given. -/
theorem ActivityHandler.command_ok {α : Type} {activity : ActivityHandler α} {key : Option String}
    {command : ActivityCommand} (h : activity.command key = .ok command) :
    command.kind = activity.definition.kind ∧ command.version = activity.definition.version ∧
      command.operationKey = key := by
  obtain ⟨payloadJson, -, h⟩ := bind_eq_ok h
  obtain ⟨-, -, h⟩ := bind_eq_ok h
  obtain ⟨-, -, h⟩ := bind_eq_ok h
  obtain ⟨-, -, h⟩ := bind_eq_ok h
  obtain ⟨-, -, h⟩ := bind_eq_ok h
  cases h
  exact ⟨rfl, rfl, rfl⟩

/-- A command carries the kind and the version of its child. -/
theorem ChildHandler.command_ok {α : Type} {workflow : ChildHandler α} {key : Option String}
    {command : ChildWorkflowCommand} (h : workflow.command key = .ok command) :
    command.kind = workflow.kind ∧ command.version = workflow.version := by
  obtain ⟨-, -, h⟩ := bind_eq_ok h
  obtain ⟨inputJson, -, h⟩ := bind_eq_ok h
  obtain ⟨-, -, h⟩ := bind_eq_ok h
  obtain ⟨stateJson, -, h⟩ := bind_eq_ok h
  obtain ⟨-, -, h⟩ := bind_eq_ok h
  cases h
  exact ⟨rfl, rfl⟩

theorem map_eq_ok {ε α β : Type} {x : Except ε α} {f : α → β} {b : β} (h : x.map f = .ok b) :
    ∃ a, x = .ok a ∧ f a = b := by
  cases x with
  | error e => cases h
  | ok a => exact ⟨a, rfl, Except.ok.inj h⟩

/-- What the code asks for, or the result it has come to. -/
def FlowCode.request {σ Output : Type} : FlowCode σ Output → Except WfError Output ⊕ StepRequest σ
  | .ok output => .inl (.ok output)
  | .fail error => .inl (.error error)
  | .run activity operationKey next => .inr {
      stepKind := s!"activity:{activity.definition.kind}"
      stepVersion := some activity.definition.version
      command := fun workflowId position =>
        (activity.command (operationKey.or (operationKeyAt workflowId position))).map .activity
      resolve := fun outcome => (activity.resolve outcome).map next
      recorded := by
        intro workflowId position pending h
        obtain ⟨command, hcommand, rfl⟩ := map_eq_ok h
        obtain ⟨hkind, hversion, -⟩ := ActivityHandler.command_ok hcommand
        simp [PendingStep.stepKind, PendingStep.stepVersion, hkind, hversion] }
  | .child workflow deduplicationKey next => .inr {
      stepKind := s!"child:{workflow.kind}"
      stepVersion := some workflow.version
      command := fun _ _ => (workflow.command deduplicationKey).map .child
      resolve := fun outcome => catchChildFailed next (workflow.resolve outcome)
      recorded := by
        intro workflowId position pending h
        obtain ⟨command, hcommand, rfl⟩ := map_eq_ok h
        obtain ⟨hkind, hversion⟩ := ChildHandler.command_ok hcommand
        simp [PendingStep.stepKind, PendingStep.stepVersion, hkind, hversion] }
  | .sleepUntil wakeAtMillis next => .inr {
      stepKind := "timer"
      stepVersion := none
      command := fun _ _ => .ok (.sleep wakeAtMillis)
      resolve := fun outcome => (resolveTimer outcome).map fun _ => next
      recorded := by
        rintro workflowId position pending ⟨⟩
        exact ⟨rfl, rfl⟩ }

-- ════════════════════════════════════════════════════════════════════════
-- Running a program in a context
-- ════════════════════════════════════════════════════════════════════════

namespace Program

variable {Output : Type} (p : Program Output)

/-- After an await the code goes on, or stops with an error. -/
def goOn : Except WfError p.State → Except WfError Output ⊕ p.State
  | .ok σ => .inr σ
  | .error e => .inl (.error e)

/-- The code up to the end of its next await: its result, or the state it goes on from. -/
def advance (σ : p.State) (ctx : WfCtx) : (Except WfError Output ⊕ p.State) × WfCtx :=
  match p.code σ with
  | .ok output => (.inl (.ok output), ctx)
  | .fail error => (.inl (.error error), ctx)
  | .run activity none next => (ctx.run activity).map (fun r => p.goOn (r.map next)) id
  | .run activity (some key) next =>
    (ctx.runWithKey activity key).map (fun r => p.goOn (r.map next)) id
  | .child workflow key next =>
    (ctx.childStep workflow key).map (fun r => p.goOn (catchChildFailed next r)) id
  | .sleepUntil wakeAtMillis next =>
    (ctx.sleepUntil wakeAtMillis).map (fun r => p.goOn (r.map fun _ => next)) id

variable {p} {σ σ' : p.State} {ctx ctx' : WfCtx} {result : Except WfError Output}

/-- Code that has come to a result leaves the context as it is. -/
theorem advance_of_result (h : (p.code σ).request = .inl result) :
    p.advance σ ctx = (.inl result, ctx) := by
  cases hcode : p.code σ with
  | ok output =>
    rw [hcode] at h
    cases h
    simp [advance, hcode]
  | fail error =>
    rw [hcode] at h
    cases h
    simp [advance, hcode]
  | run activity key next => simp [hcode, FlowCode.request] at h
  | child workflow key next => simp [hcode, FlowCode.request] at h
  | sleepUntil wakeAtMillis next => simp [hcode, FlowCode.request] at h

/-- Code that asks for a step awaits it, with the command of the cursor's position. -/
theorem advance_of_request {request : StepRequest p.State} (ctx : WfCtx)
    (h : (p.code σ).request = .inr request) :
    p.advance σ ctx = (ctx.await request.stepKind request.stepVersion request.resolve
      (request.command ctx.workflowId (ctx.cursor + 1))).map p.goOn id := by
  cases hcode : p.code σ with
  | ok output => simp [hcode, FlowCode.request] at h
  | fail error => simp [hcode, FlowCode.request] at h
  | run activity key next =>
    rw [hcode] at h
    cases h
    rw [← WfCtx.await_map rfl fun _ => rfl]
    cases key with
    | none =>
      simp only [advance, hcode]
      rfl
    | some key =>
      simp only [advance, hcode]
      rfl
  | child workflow key next =>
    rw [hcode] at h
    cases h
    rw [← WfCtx.await_map rfl fun _ => rfl]
    simp only [advance, hcode]
    rfl
  | sleepUntil wakeAtMillis next =>
    rw [hcode] at h
    cases h
    rw [← WfCtx.await_map rfl fun _ => rfl]
    simp only [advance, hcode]
    rfl

/-- Code that goes on after an await has moved over a recorded step. -/
theorem advance_goesOn (h : p.advance σ ctx = (.inr σ', ctx')) :
    ctx.cursor < ctx.steps.length ∧ ctx' = { ctx with cursor := ctx.cursor + 1 } := by
  cases hrequest : (p.code σ).request with
  | inl result =>
    rw [advance_of_result hrequest] at h
    cases h
  | inr request =>
    rw [advance_of_request ctx hrequest] at h
    obtain ⟨outcome, hlt, hawait⟩ | ⟨pending, hawait⟩ | ⟨message, hawait⟩ := ctx.await_cases
      request.stepKind request.stepVersion request.resolve
      (request.command ctx.workflowId (ctx.cursor + 1))
    · rw [hawait] at h
      exact ⟨hlt, (congrArg Prod.snd h).symm⟩
    · rw [hawait] at h
      cases h
    · rw [hawait] at h
      cases h

/-- Code that advances keeps the journal. -/
theorem advance_steps (σ : p.State) (ctx : WfCtx) : (p.advance σ ctx).2.steps = ctx.steps := by
  cases hrequest : (p.code σ).request with
  | inl result => rw [advance_of_result hrequest]
  | inr request =>
    rw [advance_of_request ctx hrequest]
    obtain ⟨outcome, -, hawait⟩ | ⟨pending, hawait⟩ | ⟨message, hawait⟩ := ctx.await_cases
      request.stepKind request.stepVersion request.resolve
      (request.command ctx.workflowId (ctx.cursor + 1))
    all_goals rw [hawait]; rfl

variable (p) in
/-- The run of a program in a context (`DurableFlow::run`). It ends because the journal does:
every await that is resolved uses up an entry. -/
def exec (σ : p.State) (ctx : WfCtx) : Except WfError Output × WfCtx :=
  match _h : p.advance σ ctx with
  | (.inl result, ctx') => (result, ctx')
  | (.inr σ', ctx') => exec σ' ctx'
termination_by ctx.steps.length - ctx.cursor
decreasing_by
  obtain ⟨hlt, rfl⟩ := advance_goesOn _h
  simp only
  omega

theorem exec_of_result (h : p.advance σ ctx = (.inl result, ctx')) :
    p.exec σ ctx = (result, ctx') := by
  rw [exec]
  split
  next heq => cases heq.symm.trans h; rfl
  next heq => cases heq.symm.trans h

theorem exec_goesOn (h : p.advance σ ctx = (.inr σ', ctx')) : p.exec σ ctx = p.exec σ' ctx' := by
  rw [exec]
  split
  next heq => cases heq.symm.trans h
  next heq => cases heq.symm.trans h; rfl

/-- A run keeps the journal. -/
theorem exec_steps (σ : p.State) (ctx : WfCtx) : (p.exec σ ctx).2.steps = ctx.steps := by
  fun_induction p.exec σ ctx with
  | case1 σ ctx result ctx' h =>
    have hsteps := advance_steps σ ctx
    rw [h] at hsteps
    exact hsteps
  | case2 σ ctx σ' ctx' h ih =>
    obtain ⟨-, rfl⟩ := advance_goesOn h
    exact ih

variable (p) in
/-- The program as the code of a flow. -/
def body : FlowBody Output where
  run := p.exec p.start
  keeps := exec_steps p.start

end Program

-- ════════════════════════════════════════════════════════════════════════
-- Direct execution
-- ════════════════════════════════════════════════════════════════════════

namespace Program

variable {Output : Type} (p : Program Output)

/-- What a program that has done `n` steps shows in the state `σ`: its result, or its next
step with the command of that position. -/
def view (workflowId : Option WorkflowId) (n : ℕ) (σ : p.State) :
    View (Except WfError (ℕ × p.State)) PendingStep StepOutcome (Except WfError Output) :=
  match (p.code σ).request with
  | .inl result => .done result
  | .inr request =>
    match request.command workflowId (n + 1) with
    | .error e => .done (.error (.definition e.message))
    | .ok pending => .asks pending fun outcome => (request.resolve outcome).map (n + 1, ·)

/-- The direct execution: each step is asked for once, and nothing is replayed. A state holds
the number of steps done; an outcome the code cannot use ends it with an error. -/
abbrev direct (workflowId : Option WorkflowId) :
    Resumption PendingStep StepOutcome (Except WfError Output) where
  State := Except WfError (ℕ × p.State)
  start := .ok (0, p.start)
  view
    | .error e => .done (.error e)
    | .ok (n, σ) => p.view workflowId n σ

variable {p} {workflowId : Option WorkflowId} {n : ℕ} {σ : p.State}

theorem view_of_result {result : Except WfError Output} (h : (p.code σ).request = .inl result) :
    p.view workflowId n σ = .done result := by
  simp [view, h]

theorem view_of_unbuildable {request : StepRequest p.State} {e : DurableError}
    (h : (p.code σ).request = .inr request)
    (hcommand : request.command workflowId (n + 1) = .error e) :
    p.view workflowId n σ = .done (.error (.definition e.message)) := by
  simp [view, h, hcommand]

theorem view_of_request {request : StepRequest p.State} {pending : PendingStep}
    (h : (p.code σ).request = .inr request)
    (hcommand : request.command workflowId (n + 1) = .ok pending) :
    p.view workflowId n σ =
      .asks pending fun outcome => (request.resolve outcome).map (n + 1, ·) := by
  simp [view, h, hcommand]

/-- A program that asks for a step has built its command. -/
theorem request_of_view {pending : PendingStep}
    {next : StepOutcome → Except WfError (ℕ × p.State)}
    (h : p.view workflowId n σ = .asks pending next) :
    ∃ request, (p.code σ).request = .inr request ∧
      request.command workflowId (n + 1) = .ok pending ∧
      next = fun outcome => (request.resolve outcome).map (n + 1, ·) := by
  cases hrequest : (p.code σ).request with
  | inl result =>
    rw [view_of_result hrequest] at h
    cases h
  | inr request =>
    cases hcommand : request.command workflowId (n + 1) with
    | error e =>
      rw [view_of_unbuildable hrequest hcommand] at h
      cases h
    | ok pending =>
      rw [view_of_request hrequest hcommand] at h
      cases h
      exact ⟨request, rfl, hcommand, rfl⟩

end Program

/-- The outcomes a step can have: an activity that fails for good blocks its workflow, so only
a child's failure is an outcome, and a timer has no result. -/
def PendingStep.Yields : PendingStep → StepOutcome → Prop
  | .activity _, .succeeded _ => True
  | .activity _, .failed .. => False
  | .child _, _ => True
  | .sleep _, outcome => outcome = .succeeded "null"

/-- A step with its outcome. -/
structure ResolvedStep where
  command : PendingStep
  outcome : StepOutcome
  yields : command.Yields outcome

namespace ResolvedStep

/-- The entry that records the step. -/
def entry (step : ResolvedStep) : JournalEntry :=
  ⟨step.command.stepKind, step.command.stepVersion, step.outcome⟩

/-- The event that brings the outcome of the step of a number. -/
def event (n : ℕ) : ResolvedStep → WorkflowEvent
  | ⟨.activity command, .succeeded resultJson, _⟩ =>
    .activitySucceeded n ⟨command.kind, command.version, resultJson⟩
  | ⟨.child command, .succeeded resultJson, _⟩ =>
    .childSucceeded n ⟨command.kind, command.version, resultJson⟩
  | ⟨.child command, .failed category message, _⟩ =>
    .childFailed n command.kind command.version category message
  | ⟨.sleep _, _, _⟩ => .timerFired n

/-- The request and the response of the direct execution. -/
def answer (step : ResolvedStep) : PendingStep × StepOutcome := (step.command, step.outcome)

end ResolvedStep

/-- The journal of a list of steps. -/
def journalOf (steps : List ResolvedStep) : FlowJournal := ⟨steps.map ResolvedStep.entry⟩

/-- The journal a transition persists. -/
def WorkflowTransition.state? {State Approval Output : Type} :
    WorkflowTransition State Approval Output → Option State
  | .runActivity state _ | .runChild state _ | .sleepUntil state _
  | .waitForApproval state _ _ | .continue state => some state
  | .complete _ => none

@[simp]
theorem PendingStep.state?_transition {Output : Type} (step : PendingStep) (journal : FlowJournal) :
    (step.transition journal : WorkflowTransition FlowJournal Unit Output).state? = some journal := by
  cases step <;> rfl

/-- The activation after the first `n` of the given steps: the first one delivers `Started` on
the empty journal, and each result is delivered on the journal that the activation before it
persisted. An activation that persists none is the last. -/
def activation {Output : Type} (flow : FlowBody Output) (workflowId : Option WorkflowId)
    (steps : List ResolvedStep) : ℕ →
      Except WorkflowError (WorkflowTransition FlowJournal Unit Output)
  | 0 => flowStep flow workflowId ⟨[]⟩ .started
  | n + 1 =>
    match activation flow workflowId steps n, steps[n]? with
    | .ok transition, some step =>
      match transition.state? with
      | some journal => flowStep flow workflowId journal (step.event (n + 1))
      | none => .ok transition
    | last, _ => last

/-- What an activation returns for what the direct execution shows: the command of its next
step, its output, or its error. -/
def shown {σ Output : Type} (journal : FlowJournal) :
    View σ PendingStep StepOutcome (Except WfError Output) →
      Except WorkflowError (WorkflowTransition FlowJournal Unit Output)
  | .asks command _ => .ok (command.transition journal)
  | .done (.ok output) => .ok (.complete output)
  | .done (.error e) => .error e.report

-- ════════════════════════════════════════════════════════════════════════
-- The simulation
-- ════════════════════════════════════════════════════════════════════════

/-- The result and the context of a run that ends where the direct execution stands. -/
def halt {σ Output : Type} (ctx : WfCtx) :
    View σ PendingStep StepOutcome (Except WfError Output) → Except WfError Output × WfCtx
  | .asks command _ => (.error .suspended, { ctx with pending := some command })
  | .done result => (result, ctx)

theorem conclude_halt {σ Output : Type} {ctx : WfCtx} (hpending : ctx.pending = none)
    (hcursor : ctx.cursor = ctx.steps.length)
    (view : View σ PendingStep StepOutcome (Except WfError Output)) :
    conclude (halt ctx view) = shown ⟨ctx.steps⟩ view := by
  cases view with
  | asks command next => rfl
  | done result =>
    cases result with
    | ok output => simp [halt, conclude, shown, hcursor]
    | error e => cases e <;> simp [halt, conclude, shown, hpending]

namespace Program

variable {Output : Type} {p : Program Output} {workflowId : Option WorkflowId}

/-- Past the journal a run ends where the direct execution stands. -/
theorem exec_eq_halt_nil {σ : p.State} {ctx : WfCtx} (hpending : ctx.pending = none)
    (hcursor : ctx.steps.length ≤ ctx.cursor) :
    p.exec σ ctx = halt ctx (p.view ctx.workflowId ctx.cursor σ) := by
  cases hrequest : (p.code σ).request with
  | inl result =>
    rw [view_of_result hrequest]
    exact exec_of_result (advance_of_result hrequest)
  | inr request =>
    have hadvance := advance_of_request ctx hrequest
    cases hcommand : request.command ctx.workflowId (ctx.cursor + 1) with
    | error e =>
      rw [hcommand, WfCtx.await_unbuildable hpending hcursor] at hadvance
      rw [view_of_unbuildable hrequest hcommand]
      exact exec_of_result hadvance
    | ok pending =>
      rw [hcommand, WfCtx.await_new hpending hcursor] at hadvance
      rw [view_of_request hrequest hcommand]
      exact exec_of_result hadvance

/-- A run over a journal ends where the direct execution stands after the journal's steps: an
await inside the journal takes the outcome that the direct execution was given. -/
theorem exec_eq_halt {steps : List ResolvedStep} {τ : (p.direct workflowId).State} :
    ∀ (σ : p.State) (ctx : WfCtx), ctx.pending = none → ctx.workflowId = workflowId →
      ctx.steps.drop ctx.cursor = steps.map ResolvedStep.entry →
      (p.direct workflowId).Answers (.ok (ctx.cursor, σ)) (steps.map ResolvedStep.answer) τ →
      p.exec σ ctx =
        halt { ctx with cursor := ctx.cursor + steps.length } ((p.direct workflowId).view τ) := by
  induction steps with
  | nil =>
    rintro σ ctx hpending rfl hjournal ⟨⟩
    exact exec_eq_halt_nil hpending (List.drop_eq_nil_iff.mp hjournal)
  | cons step steps ih =>
    rintro σ ctx hpending rfl hjournal h
    obtain ⟨next, hview, rest⟩ := h.uncons
    obtain ⟨request, hrequest, hcommand, rfl⟩ := request_of_view hview
    obtain ⟨hkind, hversion⟩ := request.recorded _ _ _ hcommand
    have hentry : ctx.steps[ctx.cursor]? = some step.entry := by
      rw [← List.head?_drop, hjournal]
      rfl
    have hrest : ctx.steps.drop (ctx.cursor + 1) = steps.map ResolvedStep.entry := by
      rw [← List.tail_drop, hjournal]
      rfl
    rw [ResolvedStep.entry, hkind, hversion] at hentry
    have hadvance := advance_of_request ctx hrequest
    rw [WfCtx.await_recorded hpending hentry] at hadvance
    cases hresolve : request.resolve step.outcome with
    | error e =>
      -- an outcome the code cannot use is the last one
      rw [hresolve] at hadvance
      simp only [hresolve] at rest
      obtain ⟨hnil, rfl⟩ := rest.eq_nil_of_done rfl
      rw [exec_of_result hadvance, List.map_eq_nil_iff.mp hnil]
      rfl
    | ok σ' =>
      rw [hresolve] at hadvance
      simp only [hresolve] at rest
      have hrun : p.exec σ' { ctx with cursor := ctx.cursor + 1 } =
          halt { ctx with cursor := ctx.cursor + 1 + steps.length }
            ((p.direct ctx.workflowId).view τ) :=
        ih _ { ctx with cursor := ctx.cursor + 1 } hpending rfl hrest rest
      rw [exec_goesOn hadvance]
      refine hrun.trans ?_
      simp only [List.length_cons, Nat.add_assoc, Nat.add_comm 1]

end Program

-- ════════════════════════════════════════════════════════════════════════
-- Activations
-- ════════════════════════════════════════════════════════════════════════

/-- The event of a step carries the entry of the step. -/
theorem ResolvedStep.entry_event (step : ResolvedStep) (n : ℕ) :
    (step.event n).entry n = .ok (some step.entry) := by
  obtain ⟨command, outcome, yields⟩ := step
  have hsequence : ensureSequence n n = .ok () := if_pos rfl
  cases command with
  | activity command =>
    cases outcome with
    | succeeded resultJson => simp only [event, WorkflowEvent.entry, hsequence]; rfl
    | failed category message => exact yields.elim
  | child command =>
    cases outcome with
    | succeeded resultJson => simp only [event, WorkflowEvent.entry, hsequence]; rfl
    | failed category message => simp only [event, WorkflowEvent.entry, hsequence]; rfl
  | sleep wakeAtMillis =>
    cases yields
    simp only [event, WorkflowEvent.entry, hsequence]
    rfl

/-- The event of a step records the step. -/
theorem applyEvent_event {steps : List ResolvedStep} {step : ResolvedStep}
    (hlength : steps.length < U32.max) :
    applyEvent (journalOf steps) (step.event (steps.length + 1)) =
      .ok (journalOf (steps ++ [step])) := by
  have hsteps : (journalOf steps).steps.length = steps.length := List.length_map _
  rw [applyEvent, if_neg (by omega), hsteps, step.entry_event]
  simp [journalOf, bind, Except.bind, pure, Except.pure]

/-- An event that brings no outcome leaves the journal as it is. -/
theorem applyEvent_rerun {journal : FlowJournal} {event : WorkflowEvent}
    (h : event = .started ∨ event = .continued) :
    applyEvent journal event =
      if journal.steps.length < U32.max then .ok journal
      else .error (.new "flow" "flow journal length overflow") := by
  have hentry : event.entry (journal.steps.length + 1) = .ok none := by
    rcases h with rfl | rfl <;> rfl
  by_cases hlength : journal.steps.length < U32.max
  · rw [applyEvent, if_neg (by omega), if_pos hlength, hentry]
    simp [bind, Except.bind, pure, Except.pure]
  · rw [applyEvent, if_pos (by omega), if_neg hlength]

section

variable {Output : Type} {p : Program Output} {workflowId : Option WorkflowId}

/-- One activation shows what the direct execution shows after the steps of its journal. -/
theorem flowStep_eq_shown {steps : List ResolvedStep} {τ : (p.direct workflowId).State}
    {journal : FlowJournal} {event : WorkflowEvent}
    (h : (p.direct workflowId).Answers (p.direct workflowId).start
      (steps.map ResolvedStep.answer) τ)
    (hevent : applyEvent journal event = .ok (journalOf steps)) :
    flowStep p.body workflowId journal event =
      shown (journalOf steps) ((p.direct workflowId).view τ) := by
  have hrun := Program.exec_eq_halt p.start (.new workflowId (journalOf steps)) rfl rfl rfl h
  rw [flowStep, hevent]
  change conclude (p.exec p.start _) = _
  rw [hrun, conclude_halt rfl]
  · rfl
  · simp [WfCtx.new, journalOf]

/-- The activations that the results of the steps lead to follow the direct execution. -/
theorem activation_eq_shown {steps : List ResolvedStep} (hbound : steps.length ≤ U32.max)
    (n : ℕ) (hn : n ≤ steps.length) :
    ∀ τ, (p.direct workflowId).Answers (p.direct workflowId).start
        ((steps.take n).map ResolvedStep.answer) τ →
      activation p.body workflowId steps n =
        shown (journalOf (steps.take n)) ((p.direct workflowId).view τ) := by
  induction n with
  | zero =>
    intro τ h
    exact flowStep_eq_shown h (applyEvent_rerun (.inl rfl))
  | succ n ih =>
    intro τ h
    have hstep : steps[n]? = some steps[n] := List.getElem?_eq_getElem hn
    have hanswer : ((steps.take (n + 1)).map ResolvedStep.answer)[n]? =
        some (steps[n].command, steps[n].outcome) := by
      rw [List.getElem?_map, List.getElem?_take_of_succ, hstep]
      rfl
    obtain ⟨υ, hυ, hview⟩ := h.take n
    obtain ⟨next, hview⟩ := hview _ _ hanswer
    rw [← List.map_take, List.take_take, Nat.min_eq_left (Nat.le_succ n)] at hυ
    have hprevious := ih (Nat.le_of_succ_le hn) υ hυ
    rw [hview] at hprevious
    have htake : steps.take n ++ [steps[n]] = steps.take (n + 1) := by simp
    have hlength : (steps.take n).length = n := by simp; omega
    have hevent : applyEvent (journalOf (steps.take n))
        (steps[n].event ((steps.take n).length + 1)) = .ok (journalOf (steps.take n ++ [steps[n]])) :=
      applyEvent_event (by omega)
    rw [htake, hlength] at hevent
    rw [activation, hprevious, hstep]
    simp only [shown, PendingStep.state?_transition]
    exact flowStep_eq_shown h hevent

/-- The direct execution counts its steps. -/
theorem Program.answers_position {answers : List (PendingStep × StepOutcome)}
    {υ : (p.direct workflowId).State} {n : ℕ} {τ : p.State}
    (h : (p.direct workflowId).Answers υ answers (.ok (n, τ))) :
    ∃ m σ, υ = .ok (m, σ) ∧ n = m + answers.length := by
  generalize hend : (.ok (n, τ) : Except WfError (ℕ × p.State)) = ω at h
  induction h with
  | nil υ => exact ⟨n, τ, hend.symm, rfl⟩
  | @cons υ _ command outcome next answers hview _ ih =>
    obtain ⟨m, σ, hm, rfl⟩ := ih hend
    cases υ with
    | error e => cases hview
    | ok υ =>
      obtain ⟨k, σ'⟩ := υ
      obtain ⟨request, -, -, rfl⟩ := Program.request_of_view hview
      obtain ⟨_, -, heq⟩ := map_eq_ok hm
      cases heq
      exact ⟨k, σ', rfl, by simp only [List.length_cons]; omega⟩

/-- The state of the direct execution before a step, and the step it asks for there. -/
theorem Program.step_at {steps : List ResolvedStep} {τ : (p.direct workflowId).State}
    (h : (p.direct workflowId).Answers (p.direct workflowId).start
      (steps.map ResolvedStep.answer) τ) (n : ℕ) (hn : n < steps.length) :
    ∃ σ next, (p.direct workflowId).Answers (p.direct workflowId).start
        ((steps.take n).map ResolvedStep.answer) (.ok (n, σ)) ∧
      p.view workflowId n σ = .asks steps[n].command next := by
  have hanswer : (steps.map ResolvedStep.answer)[n]? =
      some (steps[n].command, steps[n].outcome) := by
    rw [List.getElem?_map, List.getElem?_eq_getElem hn]
    rfl
  obtain ⟨υ, hυ, hview⟩ := h.take n
  obtain ⟨next, hview⟩ := hview _ _ hanswer
  rw [← List.map_take] at hυ
  cases υ with
  | error e => cases hview
  | ok υ =>
    obtain ⟨m, σ⟩ := υ
    obtain ⟨_, _, hstart, hm⟩ := answers_position hυ
    cases hstart
    obtain rfl : m = n := by
      simp only [List.length_map, List.length_take] at hm
      omega
    exact ⟨σ, next, hυ, hview⟩

end

/-- **Replay refines direct execution**: let a flow be answered step by step in its direct
execution. Fed with the results, one activation after another, it issues the command of the
next step (an activity of `WfCtx::run` under the key of its position) and persists the
outcomes so far; after the last result it issues the next command, completes with the output
of the direct execution, or reports its error. An activation that is run again on a persisted
journal returns the same, or nothing where the journal has no next number. -/
theorem activation_refines {Output : Type} (p : Program Output) (workflowId : Option WorkflowId)
    (steps : List ResolvedStep) (τ : (p.direct workflowId).State)
    (h : (p.direct workflowId).Answers (p.direct workflowId).start
      (steps.map ResolvedStep.answer) τ)
    (hbound : steps.length ≤ U32.max) :
    (∀ n (hn : n < steps.length), ∃ σ,
      (p.direct workflowId).Answers (p.direct workflowId).start
        ((steps.take n).map ResolvedStep.answer) (.ok (n, σ)) ∧
      activation p.body workflowId steps n =
        .ok (steps[n].command.transition (journalOf (steps.take n))) ∧
      ∀ (α : Type) (activity : ActivityHandler α) (next : α → p.State),
        p.code σ = .run activity none next → ∃ command, steps[n].command = .activity command ∧
          command.operationKey = workflowId.map fun id => s!"wf:{id}:step:{n + 1}") ∧
    activation p.body workflowId steps steps.length =
      shown (journalOf steps) ((p.direct workflowId).view τ) ∧
    ∀ n ≤ steps.length, ∀ event, event = .started ∨ event = .continued →
      flowStep p.body workflowId (journalOf (steps.take n)) event =
        if n < U32.max then activation p.body workflowId steps n
        else .error (.new "flow" "flow journal length overflow") := by
  have hlast : (p.direct workflowId).Answers (p.direct workflowId).start
      ((steps.take steps.length).map ResolvedStep.answer) τ := by
    rwa [List.take_length]
  refine ⟨fun n hn => ?_, ?_, fun n hn event hevent => ?_⟩
  · obtain ⟨σ, next, hσ, hview⟩ := Program.step_at h n hn
    have hshown := activation_eq_shown hbound n (Nat.le_of_lt hn) _ hσ
    refine ⟨σ, hσ, ?_, fun α activity next hcode => ?_⟩
    · rw [hshown]
      change shown _ (p.view workflowId n σ) = _
      rw [hview]
      rfl
    · obtain ⟨request, hrequest, hcommand, -⟩ := Program.request_of_view hview
      rw [hcode] at hrequest
      cases hrequest
      obtain ⟨command, hbuilt, heq⟩ := map_eq_ok hcommand
      exact ⟨command, heq.symm, (ActivityHandler.command_ok hbuilt).2.2⟩
  · rw [activation_eq_shown hbound _ le_rfl τ hlast, List.take_length]
  · have hlength : (journalOf (steps.take n)).steps.length = n := by
      simp only [journalOf, List.length_map, List.length_take]
      omega
    have happly : applyEvent (journalOf (steps.take n)) event = _ := applyEvent_rerun hevent
    rw [hlength] at happly
    split
    next hlt =>
      rw [if_pos hlt] at happly
      obtain ⟨υ, hυ, -⟩ := h.take n
      rw [← List.map_take] at hυ
      rw [flowStep_eq_shown hυ happly, activation_eq_shown hbound n hn υ hυ]
    next hlt =>
      rw [if_neg hlt] at happly
      rw [flowStep, happly]
      rfl

namespace Sample

/-- An activity whose output is a text. -/
def echo : ActivityHandler String where
  definition := ⟨"echo", 1, "t", 1, 10, 20, ⟨.fixed 1, by decide⟩, fun payload => .ok payload⟩
  payload := .ok "null"
  decode := .ok

/-- A flow that runs the activity and returns its output. -/
def echoFlow : Program String where
  State := Option String
  start := none
  code
    | none => .run echo none some
    | some output => .ok output

def echoCommand : ActivityCommand :=
  ⟨"echo", 1, "t", "null", some "wf:1:step:1", 1, 10, 20, ⟨.fixed 1, by decide⟩, false⟩

/-- The flow issues its activity once, under the key of its position, and completes with the
output. -/
theorem echoFlow_refines :
    activation echoFlow.body (some 1) [⟨.activity echoCommand, .succeeded "1", trivial⟩] 0 =
        .ok (.runActivity ⟨[]⟩ echoCommand) ∧
      activation echoFlow.body (some 1) [⟨.activity echoCommand, .succeeded "1", trivial⟩] 1 =
        .ok (.complete "1") := by
  have hview : echoFlow.view (some 1) 0 none =
      .asks (.activity echoCommand) fun outcome => ((echo.resolve outcome).map some).map (1, ·) := by
    have hkey : operationKeyAt (some 1) 1 = some "wf:1:step:1" := by decide +kernel
    have hcommand : echo.command (some "wf:1:step:1") = .ok echoCommand := by
      rfl
    have hbuilt : (echo.command (operationKeyAt (some 1) 1)).map PendingStep.activity =
        .ok (.activity echoCommand) := by
      rw [hkey, hcommand]
      rfl
    simp only [Program.view, echoFlow, FlowCode.request, Option.none_or, hbuilt]
  have hanswers : (echoFlow.direct (some 1)).Answers (echoFlow.direct (some 1)).start
      [(.activity echoCommand, .succeeded "1")] (.ok (1, some "1")) :=
    .cons hview (.nil _)
  have hrefines := activation_refines echoFlow (some 1)
    [⟨.activity echoCommand, .succeeded "1", trivial⟩] _ hanswers (by decide)
  obtain ⟨σ, -, hfirst, -⟩ := hrefines.1 0 (by decide)
  exact ⟨hfirst, hrefines.2.1⟩

end Sample

end DurableWorkflows
