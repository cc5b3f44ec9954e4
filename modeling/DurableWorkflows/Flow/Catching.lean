import DurableWorkflows.Base.Loop
import DurableWorkflows.Flow.Replay

/-!
# Flows that catch errors

The code of a flow may match on the error of any await and go on: it may take a
suspension for a failure, request other steps, and return a value or an error of
its own. The first step that is not in the journal stays the pending one, and it
becomes the command of the transition if the code hands the suspension on.

## Main definitions

- `CatchingCode`, `CatchingFlow`: code that may catch every error, and whose runs end
- `CatchingFlow.body`: the flow that it is
- `StepCall`: what a request asks the context for

## Main results

- `flowStep_unresolved`: what an activation returns that has come to an unresolved step
- `Sample.compensating_drops`: a suspension that the code takes for a failure is dropped
-/

namespace DurableWorkflows

section Code

/-- The next thing the code of a flow does in a state of type `σ`; what it does after an
await depends on the result of the await, which may be any error. -/
inductive CatchingCode (σ Output : Type) : Type 1
  | finish (result : Except WfError Output)
  | run {α : Type} (activity : ActivityHandler α) (operationKey : Option String)
      (next : Except WfError α → σ)
  | child {α : Type} (workflow : ChildHandler α) (deduplicationKey : Option String)
      (next : Except WfError α → σ)
  | sleepUntil (wakeAtMillis : DbMillis) (next : Except WfError Unit → σ)

/-- The code up to the end of its next await: its result, or the state it goes on from. -/
def CatchingCode.advance {σ Output : Type} (code : CatchingCode σ Output) (ctx : WfCtx) :
    (Except WfError Output ⊕ σ) × WfCtx :=
  match code with
  | .finish result => (.inl result, ctx)
  | .run activity none next => (ctx.run activity).map (fun r => .inr (next r)) id
  | .run activity (some key) next => (ctx.runWithKey activity key).map (fun r => .inr (next r)) id
  | .child workflow key next => (ctx.childStep workflow key).map (fun r => .inr (next r)) id
  | .sleepUntil wakeAtMillis next =>
    (ctx.sleepUntil wakeAtMillis).map (fun r => .inr (next r)) id

/-- What a request asks the context for: a step, and the command of that step if it is the
next one of the flow. -/
structure StepCall where
  stepKind : String
  stepVersion : Option ℤ
  command : Option WorkflowId → ℕ → Except DurableError PendingStep

/-- The step that the code asks for, if it has no result yet. -/
def CatchingCode.call {σ Output : Type} : CatchingCode σ Output → Option StepCall
  | .finish _ => none
  | .run activity operationKey _ => some {
      stepKind := s!"activity:{activity.definition.kind}"
      stepVersion := some activity.definition.version
      command := fun workflowId position =>
        (activity.command (operationKey.or (operationKeyAt workflowId position))).map .activity }
  | .child workflow deduplicationKey _ => some {
      stepKind := s!"child:{workflow.kind}"
      stepVersion := some workflow.version
      command := fun _ _ => (workflow.command deduplicationKey).map .child }
  | .sleepUntil wakeAtMillis _ => some {
      stepKind := "timer"
      stepVersion := none
      command := fun _ _ => .ok (.sleep wakeAtMillis) }

end Code

section Flows

/-- The body of a run: the code and the context go on together. -/
def catchingStep {S Output : Type} (code : S → CatchingCode S Output) :
    S × WfCtx → (Except WfError Output × WfCtx) ⊕ (S × WfCtx)
  | (σ, ctx) =>
    match (code σ).advance ctx with
    | (.inl result, ctx) => .inl (result, ctx)
    | (.inr σ, ctx) => .inr (σ, ctx)

/-- The deterministic code of a flow that may catch every error. Its states are the places
between awaits, and its runs end. -/
structure CatchingFlow (Output : Type) where
  State : Type
  start : State
  code : State → CatchingCode State Output
  halts : ∀ ctx, Loop.Halts (catchingStep code) (start, ctx)

variable {α S Output : Type} {code : S → CatchingCode S Output} {ctx ctx' : WfCtx} {σ σ' : S}

/-- An await keeps the journal and its workflow. -/
theorem WfCtx.await_keeps (ctx : WfCtx) (kind : String) (version : Option ℤ)
    (resolve : StepOutcome → Except WfError α) (command : Except DurableError PendingStep) :
    (ctx.await kind version resolve command).2.steps = ctx.steps ∧
      (ctx.cursor ≤ ctx.steps.length →
        (ctx.await kind version resolve command).2.cursor ≤ ctx.steps.length) := by
  obtain ⟨outcome, hlt, hawait⟩ | ⟨pending, hawait⟩ | ⟨message, hawait⟩ :=
    ctx.await_cases kind version resolve command
  · rw [hawait]
    exact ⟨rfl, fun _ => hlt⟩
  · rw [hawait]
    exact ⟨rfl, id⟩
  · rw [hawait]
    exact ⟨rfl, id⟩

/-- The context after an await does not depend on what the code makes of the outcome. -/
theorem WfCtx.await_context {β : Type} (kind : String) (version : Option ℤ)
    (resolve : StepOutcome → Except WfError α) (resolve' : StepOutcome → Except WfError β)
    (command : Except DurableError PendingStep) :
    (ctx.await kind version resolve command).2 = (ctx.await kind version resolve' command).2 := by
  unfold WfCtx.await
  cases ctx.replay kind version with
  | mk outcome ctx =>
    cases outcome with
    | error e => rfl
    | ok outcome =>
      cases outcome with
      | some outcome => rfl
      | none => cases command <;> rfl

/-- The context after a request. -/
def WfCtx.request (ctx : WfCtx) (call : StepCall) : WfCtx :=
  (ctx.await call.stepKind call.stepVersion (fun _ => .ok ())
    (call.command ctx.workflowId (ctx.cursor + 1))).2

/-- Code without a result makes its request and goes on. -/
theorem CatchingCode.advance_of_call {code : CatchingCode S Output} {call : StepCall}
    (h : code.call = some call) (ctx : WfCtx) :
    ∃ σ, code.advance ctx = (.inr σ, ctx.request call) := by
  cases code with
  | finish result => cases h
  | run activity operationKey next =>
    cases h
    cases operationKey with
    | none =>
      refine ⟨next (ctx.run activity).1, Prod.ext rfl ?_⟩
      exact WfCtx.await_context _ _ activity.resolve _ _
    | some key =>
      refine ⟨next (ctx.runWithKey activity key).1, Prod.ext rfl ?_⟩
      exact WfCtx.await_context _ _ activity.resolve _ _
  | child workflow deduplicationKey next =>
    cases h
    refine ⟨next (ctx.childStep workflow deduplicationKey).1, Prod.ext rfl ?_⟩
    exact WfCtx.await_context _ _ workflow.resolve _ _
  | sleepUntil wakeAtMillis next =>
    cases h
    refine ⟨next (ctx.sleepUntil wakeAtMillis).1, Prod.ext rfl ?_⟩
    exact WfCtx.await_context "timer" none resolveTimer (fun _ => .ok ()) (.ok (.sleep wakeAtMillis))

/-- Code with a result leaves the context as it is. -/
theorem CatchingCode.advance_of_result {code : CatchingCode S Output} (h : code.call = none)
    (ctx : WfCtx) : ∃ result, code.advance ctx = (.inl result, ctx) := by
  cases code with
  | finish result => exact ⟨result, rfl⟩
  | run | child | sleepUntil => cases h

/-- A run goes on exactly at a request. -/
theorem catchingStep_inr (h : catchingStep code (σ, ctx) = .inr (σ', ctx')) :
    ∃ call, (code σ).call = some call ∧ ctx' = ctx.request call := by
  cases hcall : (code σ).call with
  | none =>
    obtain ⟨result, hadvance⟩ := CatchingCode.advance_of_result hcall ctx
    simp only [catchingStep, hadvance] at h
    cases h
  | some call =>
    obtain ⟨σ₁, hadvance⟩ := CatchingCode.advance_of_call hcall ctx
    simp only [catchingStep, hadvance] at h
    cases h
    exact ⟨call, rfl, rfl⟩

/-- A run ends with the context it has. -/
theorem catchingStep_inl {result : Except WfError Output}
    (h : catchingStep code (σ, ctx) = .inl (result, ctx')) :
    ctx' = ctx ∧ (code σ).call = none := by
  cases hcall : (code σ).call with
  | none =>
    obtain ⟨result, hadvance⟩ := CatchingCode.advance_of_result hcall ctx
    simp only [catchingStep, hadvance] at h
    cases h
    exact ⟨rfl, rfl⟩
  | some call =>
    obtain ⟨σ₁, hadvance⟩ := CatchingCode.advance_of_call hcall ctx
    simp only [catchingStep, hadvance] at h
    cases h

/-- Every state of a run has the journal it started with, and a cursor inside it. -/
theorem reaches_journal {s s' : S × WfCtx} (hcursor : s.2.cursor ≤ s.2.steps.length)
    (h : Loop.Reaches (catchingStep code) s s') :
    s'.2.steps = s.2.steps ∧ s'.2.cursor ≤ s.2.steps.length := by
  refine Loop.reaches_invariant (I := fun t => t.2.steps = s.2.steps ∧
    t.2.cursor ≤ s.2.steps.length) ?_ ⟨rfl, hcursor⟩ h
  rintro ⟨σ₁, ctx₁⟩ ⟨σ₂, ctx₂⟩ ⟨hsteps, hle⟩ hstep
  obtain ⟨call, -, rfl⟩ := catchingStep_inr hstep
  obtain ⟨hkeeps, hbound⟩ := ctx₁.await_keeps call.stepKind call.stepVersion
    (fun _ => (.ok () : Except WfError Unit)) (call.command ctx₁.workflowId (ctx₁.cursor + 1))
  exact ⟨hkeeps.trans hsteps, hsteps ▸ hbound (hsteps ▸ hle)⟩

end Flows

namespace CatchingFlow

variable {Output : Type} (flow : CatchingFlow Output)

/-- The run of the code in a context (`DurableFlow::run`). -/
def exec (ctx : WfCtx) : Except WfError Output × WfCtx := Loop.result (flow.halts ctx)

/-- The code as the code of a flow. -/
def body : FlowBody Output where
  run := flow.exec
  keeps ctx := by
    obtain ⟨⟨σ, last⟩, hreach, hlast⟩ := Loop.result_spec (flow.halts ctx)
    obtain ⟨hctx, -⟩ := catchingStep_inl hlast
    have hsteps : last.steps = ctx.steps := by
      refine Loop.reaches_invariant (I := fun t => t.2.steps = ctx.steps) ?_ rfl hreach
      rintro ⟨σ₁, ctx₁⟩ ⟨σ₂, ctx₂⟩ hsteps hstep
      obtain ⟨call, -, rfl⟩ := catchingStep_inr hstep
      exact (ctx₁.await_keeps ..).1.trans hsteps
    exact (congrArg WfCtx.steps hctx).trans hsteps

end CatchingFlow

section Unresolved

variable {Output : Type} {flow : CatchingFlow Output} {ctx ctx' : WfCtx} {call : StepCall}
  {pending : PendingStep} {σ σ' : flow.State}

/-- With a pending step every request suspends and changes nothing. -/
theorem WfCtx.request_of_pending (h : ctx.pending.isSome) (call : StepCall) :
    ctx.request call = ctx ∧
      ctx.replay call.stepKind call.stepVersion = (.error .suspended, ctx) := by
  have hreplay : ctx.replay call.stepKind call.stepVersion = (.error .suspended, ctx) := by
    rw [WfCtx.replay, if_pos h]
  refine ⟨?_, hreplay⟩
  rw [WfCtx.request, WfCtx.await, hreplay]

/-- A request that finds no entry is made past the end of the journal and without a pending
step; if its command can be built, it leaves that command pending. -/
theorem WfCtx.request_unresolved
    (hunresolved : (ctx.replay call.stepKind call.stepVersion).1 = .ok none)
    (hcommand : call.command ctx.workflowId (ctx.cursor + 1) = .ok pending) :
    ctx.steps.length ≤ ctx.cursor ∧ ctx.request call = { ctx with pending := some pending } := by
  have hpending : ctx.pending = none := by
    by_contra hsome
    rw [WfCtx.replay, if_pos (Option.isSome_iff_ne_none.mpr hsome)] at hunresolved
    cases hunresolved
  have hend : ctx.steps[ctx.cursor]? = none := by
    cases hentry : ctx.steps[ctx.cursor]? with
    | none => rfl
    | some entry =>
      simp only [WfCtx.replay, hpending, hentry, Option.isSome_none, Bool.false_eq_true,
        if_false] at hunresolved
      split at hunresolved
      · cases hunresolved
      · split at hunresolved <;> cases hunresolved
  have hcursor := List.getElem?_eq_none_iff.mp hend
  refine ⟨hcursor, ?_⟩
  rw [WfCtx.request, hcommand, WfCtx.await_new hpending hcursor]

/-- A pending step stays the pending one. -/
theorem reaches_of_pending (h : ctx.pending.isSome)
    (hreach : Loop.Reaches (catchingStep flow.code) (σ, ctx) (σ', ctx')) : ctx' = ctx := by
  refine Loop.reaches_invariant (I := fun t => t.2 = ctx) ?_ rfl hreach
  rintro ⟨σ₁, ctx₁⟩ ⟨σ₂, ctx₂⟩ hctx hstep
  obtain ⟨call, -, rfl⟩ := catchingStep_inr hstep
  cases hctx
  exact (WfCtx.request_of_pending h call).1

/-- What an activation returns with a step pending at the end of the journal: the command if
the code hands a suspension on, its output or its error otherwise. -/
def returned (pending : PendingStep) (journal : FlowJournal) : Except WfError Output →
    Except WorkflowError (WorkflowTransition FlowJournal Unit Output)
  | .ok output => .ok (.complete output)
  | .error .suspended => .ok (pending.transition journal)
  | .error e => .error e.report

theorem conclude_eq_returned (result : Except WfError Output)
    (hpending : ctx.pending = some pending) (hcursor : ctx.cursor = ctx.steps.length) :
    conclude (result, ctx) = returned pending ⟨ctx.steps⟩ result := by
  cases result with
  | ok output => exact if_neg (not_not.mpr hcursor)
  | error e =>
    cases e with
    | suspended => simp only [conclude, hpending, returned]
    | childFailed | definition | domain => rfl

theorem returned_eq_transition_iff {result : Except WfError Output} {journal : FlowJournal} :
    returned pending journal result = .ok (pending.transition journal) ↔
      result = .error .suspended := by
  constructor
  · intro h
    cases result with
    | ok output => cases pending <;> cases h
    | error e =>
      cases e with
      | suspended => rfl
      | childFailed | definition | domain => cases h
  · rintro rfl
    rfl

/-- **Unresolved steps**: let a run of a flow that may catch every error come to a request
that finds no entry in the journal, with a command that can be built. The code then comes to
no state with another context: this command stays pending, and every later request suspends
and changes nothing. The activation returns the command exactly if the code hands on a
suspension; code that returns an output completes the flow instead, and any other error of
the code is reported. -/
theorem flowStep_unresolved {Output : Type} (flow : CatchingFlow Output)
    (workflowId : Option WorkflowId) (journal journal' : FlowJournal) (event : WorkflowEvent)
    (σ : flow.State) (ctx : WfCtx) (call : StepCall) (pending : PendingStep)
    (happly : applyEvent journal event = .ok journal')
    (hreach : Loop.Reaches (catchingStep flow.code)
      (flow.start, .new workflowId journal') (σ, ctx))
    (hcall : (flow.code σ).call = some call)
    (hunresolved : (ctx.replay call.stepKind call.stepVersion).1 = .ok none)
    (hcommand : call.command ctx.workflowId (ctx.cursor + 1) = .ok pending) :
    let left : WfCtx := { ctx with pending := some pending }
    let result := (flow.exec (.new workflowId journal')).1
    (∀ σ' ctx', Loop.Reaches (catchingStep flow.code) (σ, ctx) (σ', ctx') →
      (σ', ctx') = (σ, ctx) ∨ ctx' = left) ∧
    (∀ later : StepCall, left.request later = left ∧
      left.replay later.stepKind later.stepVersion = (.error .suspended, left)) ∧
    (flowStep flow.body workflowId journal event = .ok (pending.transition journal') ↔
      result = .error .suspended) ∧
    flowStep flow.body workflowId journal event = returned pending journal' result := by
  intro left result
  have hleft : left.pending.isSome := rfl
  obtain ⟨hcursor, hrequest⟩ := WfCtx.request_unresolved hunresolved hcommand
  obtain ⟨hsteps, hbound⟩ := reaches_journal (Nat.zero_le _) hreach
  -- after the request the context is `left` for the rest of the run
  have hrest : ∀ σ' ctx', Loop.Reaches (catchingStep flow.code) (σ, ctx) (σ', ctx') →
      (σ', ctx') = (σ, ctx) ∨ ctx' = left := by
    intro σ' ctx' hreach'
    rcases Relation.ReflTransGen.cases_head hreach' with heq | ⟨⟨σ₁, ctx₁⟩, hstep, htail⟩
    · exact .inl heq.symm
    · obtain ⟨call', hcall', rfl⟩ := catchingStep_inr hstep
      cases hcall.symm.trans hcall'
      rw [hrequest] at htail
      exact .inr (reaches_of_pending hleft htail)
  have hexec : flow.exec (.new workflowId journal') = (result, left) := by
    obtain ⟨⟨σ', ctx'⟩, hlast, hbody⟩ := Loop.result_of_reaches
      (flow.halts (.new workflowId journal')) hreach
    obtain ⟨hctx, hnone⟩ := catchingStep_inl hbody
    refine Prod.ext rfl ?_
    rcases hrest σ' ctx' hlast with heq | heq
    · cases heq
      cases hcall.symm.trans hnone
    · exact hctx.trans heq
  have hend : left.cursor = left.steps.length := by
    rw [show left.steps = journal'.steps from hsteps]
    rw [hsteps] at hcursor
    exact Nat.le_antisymm hbound hcursor
  have hstep : flowStep flow.body workflowId journal event = returned pending journal' result := by
    rw [flowStep, happly]
    show conclude (flow.exec (.new workflowId journal')) = _
    rw [hexec, conclude_eq_returned result rfl hend, show left.steps = journal'.steps from hsteps]
  refine ⟨hrest, WfCtx.request_of_pending hleft, ?_, hstep⟩
  rw [hstep, returned_eq_transition_iff]

end Unresolved

namespace Sample

/-- A child whose output is a text. -/
def echoChild : ChildHandler String where
  kind := "echo"
  version := 1
  input := .ok "null"
  initialState := .ok "null"
  decode := .ok

/-- Code that matches every error of a child, and has a result for it. -/
def matchingCode (failed : Except WfError Bool) : Option Bool → CatchingCode (Option Bool) Bool
  | none => .child echoChild none fun result => some result.isOk
  | some true => .finish (.ok true)
  | some false => .finish failed

def matching (failed : Except WfError Bool) : CatchingFlow Bool where
  State := Option Bool
  start := none
  code := matchingCode failed
  halts ctx := by
    have hstep : catchingStep (matchingCode failed) (none, ctx) =
        .inr (some (ctx.childStep echoChild none).1.isOk, (ctx.childStep echoChild none).2) := rfl
    refine ⟨2, ?_⟩
    rw [Loop.run_of_inr hstep]
    cases (ctx.childStep echoChild none).1 <;> rfl

def childCommand : ChildWorkflowCommand := ⟨"echo", 1, "null", "null", none⟩

/-- The request for the child. -/
def childCall : StepCall where
  stepKind := "child:echo"
  stepVersion := some 1
  command _ _ := (echoChild.command none).map .child

/-- Code that takes the suspension of a child for its failure and returns a value completes
the workflow: the child is never started. -/
theorem compensating_drops :
    ((matching (.ok false)).code none).call = some childCall ∧
    ((WfCtx.new (some 1) ⟨[]⟩).replay childCall.stepKind childCall.stepVersion).1 = .ok none ∧
    childCall.command (some 1) 1 = .ok (.child childCommand) ∧
    flowStep (matching (.ok false)).body (some 1) ⟨[]⟩ .started = .ok (.complete false) := by
  refine ⟨rfl, rfl, rfl, ?_⟩
  have hrun : Loop.run (catchingStep (matching (.ok false)).code) 2
      (none, .new (some 1) ⟨[]⟩) =
        some (.ok false, { WfCtx.new (some 1) ⟨[]⟩ with pending := some (.child childCommand) }) :=
    rfl
  have hexec : (matching (.ok false)).exec (.new (some 1) ⟨[]⟩) = _ :=
    Loop.run_unique (Loop.run_find _) hrun
  show conclude ((matching (.ok false)).exec (.new (some 1) ⟨[]⟩)) = _
  rw [hexec]
  rfl

/-- Code that hands the suspension on starts the child. -/
theorem flowStep_unresolved_child :
    flowStep (matching (.error .suspended)).body (some 1) ⟨[]⟩ .started =
      .ok (.runChild ⟨[]⟩ childCommand) := by
  have hrun : Loop.run (catchingStep (matching (.error .suspended)).code) 2
      (none, .new (some 1) ⟨[]⟩) = some (.error .suspended,
        { WfCtx.new (some 1) ⟨[]⟩ with pending := some (.child childCommand) }) :=
    rfl
  have hexec : (matching (.error .suspended)).exec (.new (some 1) ⟨[]⟩) = _ :=
    Loop.run_unique (Loop.run_find _) hrun
  have hunresolved := flowStep_unresolved (matching (.error .suspended)) (some 1) ⟨[]⟩ ⟨[]⟩
    .started none (.new (some 1) ⟨[]⟩) childCall (.child childCommand) rfl .refl rfl rfl rfl
  exact hunresolved.2.2.1.mpr (congrArg Prod.fst hexec)

end Sample

end DurableWorkflows
