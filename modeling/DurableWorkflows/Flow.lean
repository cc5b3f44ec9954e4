import DurableWorkflows.Transition

/-!
# Durable flows

A flow is code that awaits durable steps. Every activation runs it from the top
over the journal of the steps that are done: an await replays the recorded
outcome of its position, or suspends the flow at the first step that has none,
and the suspension becomes the one command of the transition.

## Main definitions

- `FlowJournal`, `WfCtx`: the recorded steps, and the context a flow runs in
- `WfCtx.runStep`, `WfCtx.childStep`, `WfCtx.sleepUntil`: the awaits
- `FlowBody`: the code of a flow, of which only the effect on its context counts
- `flowStep`: one activation
-/

namespace DurableWorkflows

/-- `StepOutcome`. -/
inductive StepOutcome
  | succeeded (resultJson : String)
  | failed (category message : String)
  deriving DecidableEq

/-- `JournalEntry`: a step that is done. -/
structure JournalEntry where
  stepKind : String
  stepVersion : Option ℤ
  outcome : StepOutcome
  deriving DecidableEq

/-- `FlowJournal`: the durable state of a flow. -/
structure FlowJournal where
  steps : List JournalEntry
  deriving DecidableEq

/-- `WfError`. -/
inductive WfError
  | suspended
  | childFailed (kind category message : String)
  | definition (message : String)
  | domain (category message : String)
  deriving DecidableEq

/-- `WorkflowError`. -/
structure WorkflowError where
  category : String
  message : String
  deriving DecidableEq

/-- `WorkflowError::new`. -/
def WorkflowError.new (category message : String) : WorkflowError :=
  ⟨truncateUtf8 category 64, truncateUtf8 message maxErrorReasonBytes⟩

/-- `PendingStep`: the command of the step a flow is suspended at. -/
inductive PendingStep
  | activity (command : ActivityCommand)
  | child (command : ChildWorkflowCommand)
  | sleep (wakeAtMillis : DbMillis)
  deriving DecidableEq

/-- `WorkflowTransition`. -/
inductive WorkflowTransition (State Approval Output : Type)
  | runActivity (state : State) (activity : ActivityCommand)
  | runChild (state : State) (child : ChildWorkflowCommand)
  | sleepUntil (state : State) (wakeAtMillis : DbMillis)
  | waitForApproval (state : State) (approval : Approval) (expiresAtMillis : Option DbMillis)
  | continue (state : State)
  | complete (output : Output)

-- ════════════════════════════════════════════════════════════════════════
-- Typed activities and children
-- ════════════════════════════════════════════════════════════════════════

/-- An activity value (`ActivityHandler`): its definition, its serialized payload, and the
decoder of its output. -/
structure ActivityHandler (α : Type) where
  definition : ActivityDefinition
  payload : Except String String
  decode : String → Except String α

/-- `ActivityCommand::new` of an activity value. -/
def ActivityHandler.command {α : Type} (activity : ActivityHandler α)
    (operationKey : Option String) : Except DurableError ActivityCommand := do
  let payloadJson ← activity.payload.mapError .serialization
  ActivityCommand.new activity.definition payloadJson operationKey

/-- A child workflow value (`WorkflowHandler`): its definition, its serialized input and
initial state, and the decoder of its output. -/
structure ChildHandler (α : Type) where
  kind : String
  version : ℤ
  input : Except String String
  initialState : Except String String
  decode : String → Except String α

/-- `ChildWorkflowCommand::new`, then `with_deduplication_key` where a key is given. -/
def ChildHandler.command {α : Type} (workflow : ChildHandler α) (deduplicationKey : Option String) :
    Except DurableError ChildWorkflowCommand := do
  rejectIf (workflow.kind = "" ∨ workflow.version ≤ 0)
    (.invalidDefinition "child workflow kind must be non-empty and version must be positive")
  let inputJson ← workflow.input.mapError .serialization
  ensureSize "child workflow input" inputJson maxInputStatePayloadBytes
  let stateJson ← workflow.initialState.mapError .serialization
  ensureSize "child workflow state" stateJson maxInputStatePayloadBytes
  return ⟨workflow.kind, workflow.version, inputJson, stateJson, deduplicationKey⟩

-- ════════════════════════════════════════════════════════════════════════
-- The context of a flow
-- ════════════════════════════════════════════════════════════════════════

/-- `WfCtx`, without the application's own context. -/
structure WfCtx where
  workflowId : Option WorkflowId
  steps : List JournalEntry
  cursor : ℕ
  pending : Option PendingStep

/-- The text of a version in a message (`{:?}` of an `Option<i32>`). -/
def debugVersion : Option ℤ → String
  | some version => s!"Some({version})"
  | none => "None"

namespace WfCtx

variable {α : Type}

/-- `WfCtx::new`. -/
def new (workflowId : Option WorkflowId) (journal : FlowJournal) : WfCtx :=
  ⟨workflowId, journal.steps, 0, none⟩

/-- `replay`: the recorded outcome at the cursor, or none past the journal. -/
def replay (ctx : WfCtx) (stepKind : String) (stepVersion : Option ℤ) :
    Except WfError (Option StepOutcome) × WfCtx :=
  if ctx.pending.isSome then
    (.error .suspended, ctx)
  else
    match ctx.steps[ctx.cursor]? with
    | none => (.ok none, ctx)
    | some entry =>
      if entry.stepKind ≠ stepKind then
        (.error (.definition (s!"nondeterministic flow: step {ctx.cursor + 1} requested " ++
          s!"{stepKind} but the journal recorded {entry.stepKind}")), ctx)
      else if entry.stepVersion ≠ stepVersion then
        (.error (.definition (s!"nondeterministic flow: step {ctx.cursor + 1} requested " ++
          s!"{stepKind} version {debugVersion stepVersion} but the journal recorded version " ++
          s!"{debugVersion entry.stepVersion}")), ctx)
      else
        (.ok (some entry.outcome), { ctx with cursor := ctx.cursor + 1 })

/-- `auto_operation_key`. -/
def autoOperationKey (ctx : WfCtx) : Option String :=
  ctx.workflowId.map fun workflowId => s!"wf:{workflowId}:step:{ctx.cursor + 1}"

/-- The shape of the three awaits: a recorded outcome is resolved; where there is none, the
flow suspends with the command of the step. -/
def await (ctx : WfCtx) (stepKind : String) (stepVersion : Option ℤ)
    (resolve : StepOutcome → Except WfError α) (command : Except DurableError PendingStep) :
    Except WfError α × WfCtx :=
  match ctx.replay stepKind stepVersion with
  | (.error e, ctx) => (.error e, ctx)
  | (.ok (some outcome), ctx) => (resolve outcome, ctx)
  | (.ok none, ctx) =>
    match command with
    | .error e => (.error (.definition e.message), ctx)
    | .ok pending => (.error .suspended, { ctx with pending := some pending })

end WfCtx

/-- The result of a recorded step, decoded. -/
def decodeRecorded {α : Type} (stepKind : String) (decode : String → Except String α)
    (resultJson : String) : Except WfError α :=
  (decode resultJson).mapError fun error =>
    .definition s!"recorded {stepKind} result no longer decodes: {error}"

/-- What `run_step` makes of a recorded outcome. -/
def ActivityHandler.resolve {α : Type} (activity : ActivityHandler α) :
    StepOutcome → Except WfError α
  | .succeeded resultJson =>
    decodeRecorded s!"activity:{activity.definition.kind}" activity.decode resultJson
  | .failed category message =>
    .error (.definition (s!"recorded activity:{activity.definition.kind} result is a failure " ++
      s!"({category}: {message}); activities never journal failures"))

/-- What `child_step` makes of a recorded outcome. -/
def ChildHandler.resolve {α : Type} (workflow : ChildHandler α) : StepOutcome → Except WfError α
  | .succeeded resultJson => decodeRecorded s!"child:{workflow.kind}" workflow.decode resultJson
  | .failed category message => .error (.childFailed workflow.kind category message)

/-- What `sleep_until` makes of a recorded outcome. -/
def resolveTimer : StepOutcome → Except WfError Unit
  | .succeeded _ => .ok ()
  | .failed category message =>
    .error (.definition s!"recorded timer result is a failure ({category}: {message})")

namespace WfCtx

variable {α : Type}

/-- `run_step`. -/
def runStep (ctx : WfCtx) (activity : ActivityHandler α) (operationKey : Option String) :
    Except WfError α × WfCtx :=
  ctx.await s!"activity:{activity.definition.kind}" (some activity.definition.version)
    activity.resolve ((activity.command operationKey).map .activity)

/-- `run`. -/
def run (ctx : WfCtx) (activity : ActivityHandler α) : Except WfError α × WfCtx :=
  ctx.runStep activity ctx.autoOperationKey

/-- `run_with_key`. -/
def runWithKey (ctx : WfCtx) (activity : ActivityHandler α) (operationKey : String) :
    Except WfError α × WfCtx :=
  ctx.runStep activity (some operationKey)

/-- `child_step`; `child` gives it no key, `child_with_key` one. -/
def childStep (ctx : WfCtx) (workflow : ChildHandler α) (deduplicationKey : Option String) :
    Except WfError α × WfCtx :=
  ctx.await s!"child:{workflow.kind}" (some workflow.version) workflow.resolve
    ((workflow.command deduplicationKey).map .child)

/-- `sleep_until`. -/
def sleepUntil (ctx : WfCtx) (wakeAtMillis : DbMillis) : Except WfError Unit × WfCtx :=
  ctx.await "timer" none resolveTimer (.ok (.sleep wakeAtMillis))

end WfCtx

-- ════════════════════════════════════════════════════════════════════════
-- Activations
-- ════════════════════════════════════════════════════════════════════════

/-- The code of a flow (`DurableFlow::run`). The steps of the context are private to it, so
no code changes them. -/
structure FlowBody (Output : Type) where
  run : WfCtx → Except WfError Output × WfCtx
  keeps : ∀ ctx, (run ctx).2.steps = ctx.steps

/-- `ensure_sequence`. -/
def ensureSequence (actual expected : ℕ) : Except WorkflowError Unit :=
  if actual = expected then
    .ok ()
  else
    .error (.new "flow"
      s!"flow received step result {actual} but the journal expects {expected}")

/-- The journal entry of an event that answers a step. -/
def WorkflowEvent.entry (expected : ℕ) : WorkflowEvent → Except WorkflowError (Option JournalEntry)
  | .started | .continued => .ok none
  | .activitySucceeded commandSequence result => do
    ensureSequence commandSequence expected
    return some ⟨s!"activity:{result.kind}", some result.version, .succeeded result.outputJson⟩
  | .childSucceeded commandSequence result => do
    ensureSequence commandSequence expected
    return some ⟨s!"child:{result.kind}", some result.version, .succeeded result.outputJson⟩
  | .childFailed commandSequence kind version category message => do
    ensureSequence commandSequence expected
    return some ⟨s!"child:{kind}", some version, .failed category message⟩
  | .timerFired commandSequence => do
    ensureSequence commandSequence expected
    return some ⟨"timer", none, .succeeded "null"⟩
  | .approvalResolved .. | .approvalExpired _ =>
    .error (.new "flow" "flows do not support approval waits")

/-- `apply_event`. -/
def applyEvent (journal : FlowJournal) (event : WorkflowEvent) : Except WorkflowError FlowJournal :=
  if U32.max < journal.steps.length + 1 then
    .error (.new "flow" "flow journal length overflow")
  else do
    let entry ← event.entry (journal.steps.length + 1)
    return ⟨journal.steps ++ entry.toList⟩

/-- The error an activation reports for an error of the flow. -/
def WfError.report : WfError → WorkflowError
  | .suspended => .new "flow" "flow suspended without a pending step"
  | .childFailed kind category message =>
    .new "child_failed" s!"child workflow {kind} failed: {category}: {message}"
  | .definition message => .new "flow_definition" message
  | .domain category message => .new category message

/-- The transition that issues a step. -/
def PendingStep.transition {Output : Type} (state : FlowJournal) :
    PendingStep → WorkflowTransition FlowJournal Unit Output
  | .activity command => .runActivity state command
  | .child command => .runChild state command
  | .sleep wakeAtMillis => .sleepUntil state wakeAtMillis

/-- What `flow_step` returns for the result of the flow and the context it left. -/
def conclude {Output : Type} :
    Except WfError Output × WfCtx → Except WorkflowError (WorkflowTransition FlowJournal Unit Output)
  | (.ok output, ctx) =>
    if ctx.cursor ≠ ctx.steps.length then
      .error (.new "flow_definition" (s!"flow completed without replaying " ++
        s!"{ctx.steps.length - ctx.cursor} recorded journal step(s)"))
    else
      .ok (.complete output)
  | (.error .suspended, ctx) =>
    match ctx.pending with
    | some pending => .ok (pending.transition ⟨ctx.steps⟩)
    | none => .error WfError.suspended.report
  | (.error e, _) => .error e.report

/-- `flow_step`. -/
def flowStep {Output : Type} (flow : FlowBody Output) (workflowId : Option WorkflowId)
    (journal : FlowJournal) (event : WorkflowEvent) :
    Except WorkflowError (WorkflowTransition FlowJournal Unit Output) := do
  let journal ← applyEvent journal event
  conclude (flow.run (.new workflowId journal))

-- ════════════════════════════════════════════════════════════════════════
-- Stored steps
-- ════════════════════════════════════════════════════════════════════════

/-- `serialize_bounded` of a text that `serde_json` returned. -/
def serializeBounded (field : String) (json : Except String String) (maxBytes : ℕ) :
    Except DurableError String := do
  let json ← json.mapError .serialization
  ensureSize field json maxBytes
  return json

/-- `store_transition`. -/
def storeTransition {State Approval Output : Type} (stateJson : State → Except String String)
    (approvalJson : Approval → Except String String) (outputJson : Output → Except String String) :
    WorkflowTransition State Approval Output → Except DurableError StoredTransition
  | .runActivity state activity => do
    return .runActivity (← stored state) activity
  | .runChild state child => do
    return .runChild (← stored state) child
  | .sleepUntil state wakeAtMillis => do
    return .sleepUntil (← stored state) wakeAtMillis
  | .waitForApproval state approval expiresAtMillis => do
    return .waitForApproval (← stored state)
      (← serializeBounded "approval request" (approvalJson approval) maxEventMetadataBytes)
      expiresAtMillis
  | .continue state => do
    return .continue (← stored state)
  | .complete output => do
    return .complete (← serializeBounded "workflow output" (outputJson output) maxOutputBytes)
where
  stored (state : State) : Except DurableError String :=
    serializeBounded "workflow state" (stateJson state) maxInputStatePayloadBytes

/-- `serde_json` on journals: what it writes it reads back. -/
structure JournalCodec where
  encode : FlowJournal → String
  decode : String → Except String FlowJournal
  decode_encode : ∀ journal, decode (encode journal) = .ok journal

/-- `WorkflowDispatchError`. -/
inductive WorkflowDispatchError
  | workflow (error : WorkflowError)
  | durable (error : DurableError)

/-- A registered flow (`WorkflowAdapter` of a `DurableFlow`): the code that an input stands
for, and the serializer of its output. -/
structure FlowHandler where
  Output : Type
  read : String → Except String (FlowBody Output)
  outputJson : Output → Except String String

/-- `step_stored` of a flow. -/
def FlowHandler.stepStored (handler : FlowHandler) (codec : JournalCodec)
    (workflowId : Option WorkflowId) (inputJson stateJson : String) (event : WorkflowEvent) :
    Except WorkflowDispatchError StoredTransition := do
  let flow ← (handler.read inputJson).mapError fun e => .durable (.serialization e)
  let journal ← (codec.decode stateJson).mapError fun e => .durable (.serialization e)
  let transition ← (flowStep flow workflowId journal event).mapError .workflow
  (storeTransition (fun journal => .ok (codec.encode journal)) (fun _ => .ok "null")
    handler.outputJson transition).mapError .durable

end DurableWorkflows
