import DurableWorkflows.Flow.Replay

/-!
# Journals that are traces of a program

An activation of a flow that propagates the errors of its awaits returns a
command or completes only if its journal is a trace of the code: entry after
entry the code requests the recorded kind and version, every recorded outcome
decodes, and the journal ends where the code stands. Journal and code may be of
different releases; everything else is an error.

## Main definitions

- `Program.Replays`: the code replays a list of entries from one state to another
- `Program.matched`: the calls of a run that found their entry

## Main results

- `flowStep_trace`: what an activation on a journal returns, and which entries it matched
-/

namespace DurableWorkflows

section Awaits

variable {α : Type} {ctx : WfCtx} {kind : String} {version : Option ℤ}
variable {resolve : StepOutcome → Except WfError α} {command : Except DurableError PendingStep}

/-- An await of another step than the recorded one is a definition error. -/
theorem WfCtx.await_mismatch {entry : JournalEntry} (hpending : ctx.pending = none)
    (hentry : ctx.steps[ctx.cursor]? = some entry)
    (hstep : ¬(entry.stepKind = kind ∧ entry.stepVersion = version)) :
    ∃ message, ctx.await kind version resolve command = (.error (.definition message), ctx) := by
  unfold WfCtx.await WfCtx.replay
  simp only [hpending, hentry, Option.isSome_none, Bool.false_eq_true, if_false]
  by_cases hkind : entry.stepKind = kind
  · have hversion : entry.stepVersion ≠ version := fun h => hstep ⟨hkind, h⟩
    simp only [ne_eq, hkind, not_true_eq_false, if_false, hversion, not_false_eq_true, if_true]
    exact ⟨_, rfl⟩
  · simp only [ne_eq, hkind, not_false_eq_true, if_true]
    exact ⟨_, rfl⟩

/-- Without a pending step every error of a flow is reported. -/
theorem conclude_error {Output : Type} {e : WfError} (hpending : ctx.pending = none) :
    conclude (.error e, ctx) = (.error e.report : Except WorkflowError
      (WorkflowTransition FlowJournal Unit Output)) := by
  cases e with
  | suspended => simp [conclude, hpending]
  | childFailed kind category message => rfl
  | definition message => rfl
  | domain category message => rfl

end Awaits

namespace Program

variable {Output : Type} {p : Program Output} {σ σ' τ : p.State} {ctx ctx' : WfCtx}
variable {entry : JournalEntry} {entries : List JournalEntry} {request : StepRequest p.State}

section Replays

/-- From one state to another, the code requests the entries of a list one after another,
each under its kind and version, and goes on with each recorded outcome. -/
inductive Replays (p : Program Output) : p.State → List JournalEntry → p.State → Prop
  | nil (σ : p.State) : Replays p σ [] σ
  | cons {σ σ' τ : p.State} {entry : JournalEntry} {entries : List JournalEntry}
      {request : StepRequest p.State} (hrequest : (p.code σ).request = .inr request)
      (hkind : entry.stepKind = request.stepKind) (hversion : entry.stepVersion = request.stepVersion)
      (hresolve : request.resolve entry.outcome = .ok σ') (rest : Replays p σ' entries τ) :
      Replays p σ (entry :: entries) τ

/-- The await of a recorded step. -/
theorem advance_recorded (hpending : ctx.pending = none)
    (hrequest : (p.code σ).request = .inr request) (hentry : ctx.steps[ctx.cursor]? = some entry)
    (hkind : entry.stepKind = request.stepKind)
    (hversion : entry.stepVersion = request.stepVersion) :
    p.advance σ ctx =
      (p.goOn (request.resolve entry.outcome), { ctx with cursor := ctx.cursor + 1 }) := by
  obtain ⟨kind, version, outcome⟩ := entry
  cases hkind
  cases hversion
  rw [advance_of_request ctx hrequest, WfCtx.await_recorded hpending hentry]
  rfl

/-- The await of another step than the recorded one ends the code. -/
theorem advance_mismatch (hpending : ctx.pending = none)
    (hrequest : (p.code σ).request = .inr request) (hentry : ctx.steps[ctx.cursor]? = some entry)
    (hstep : ¬(entry.stepKind = request.stepKind ∧ entry.stepVersion = request.stepVersion)) :
    ∃ message, p.advance σ ctx = (.inl (.error (.definition message)), ctx) := by
  have hadvance := advance_of_request ctx hrequest
  obtain ⟨message, hawait⟩ : ∃ message, ctx.await request.stepKind request.stepVersion
      request.resolve (request.command ctx.workflowId (ctx.cursor + 1)) =
        (.error (.definition message), ctx) := WfCtx.await_mismatch hpending hentry hstep
  rw [hawait] at hadvance
  exact ⟨message, hadvance⟩

/-- The entry at the cursor is the first of those that are left. -/
theorem entry_of_drop (hjournal : ctx.steps.drop ctx.cursor = entry :: entries) :
    ctx.steps[ctx.cursor]? = some entry ∧ ctx.steps.drop (ctx.cursor + 1) = entries := by
  constructor
  · rw [← List.head?_drop, hjournal]
    rfl
  · rw [← List.tail_drop, hjournal]
    rfl

/-- A run over a journal that the code replays ends where the direct execution stands. -/
theorem Replays.exec (h : p.Replays σ entries τ) (ctx : WfCtx) (hpending : ctx.pending = none)
    (hjournal : ctx.steps.drop ctx.cursor = entries) :
    p.exec σ ctx = halt { ctx with cursor := ctx.cursor + entries.length }
      (p.view ctx.workflowId (ctx.cursor + entries.length) τ) := by
  induction h generalizing ctx with
  | nil σ => exact exec_eq_halt_nil hpending (List.drop_eq_nil_iff.mp hjournal)
  | @cons σ σ' τ entry entries request hrequest hkind hversion hresolve _ ih =>
    obtain ⟨hentry, hrest⟩ := entry_of_drop hjournal
    have hadvance := advance_recorded hpending hrequest hentry hkind hversion
    rw [hresolve] at hadvance
    rw [exec_goesOn hadvance, ih { ctx with cursor := ctx.cursor + 1 } hpending hrest]
    simp only [List.length_cons, Nat.add_assoc, Nat.add_comm 1]

/-- A run whose activation returns something has replayed the journal. -/
theorem replays_of_conclude {transition : WorkflowTransition FlowJournal Unit Output}
    (σ : p.State) (ctx : WfCtx) (hpending : ctx.pending = none) (hjournal : ctx.steps.drop ctx.cursor = entries)
    (h : conclude (p.exec σ ctx) = .ok transition) : ∃ τ, p.Replays σ entries τ := by
  induction entries generalizing σ ctx with
  | nil => exact ⟨σ, .nil σ⟩
  | cons entry entries ih =>
    obtain ⟨hentry, hrest⟩ := entry_of_drop hjournal
    cases hrequest : (p.code σ).request with
    | inl result =>
      -- the code comes to a result before the end of the journal
      rw [exec_of_result (advance_of_result hrequest)] at h
      cases result with
      | ok output =>
        have hlt := (List.getElem?_eq_some_iff.mp hentry).1
        rw [conclude, if_pos (Nat.ne_of_lt hlt)] at h
        cases h
      | error e =>
        rw [conclude_error hpending] at h
        cases h
    | inr request =>
      by_cases hstep : entry.stepKind = request.stepKind ∧ entry.stepVersion = request.stepVersion
      · have hadvance := advance_recorded hpending hrequest hentry hstep.1 hstep.2
        cases hresolve : request.resolve entry.outcome with
        | error e =>
          rw [hresolve] at hadvance
          rw [exec_of_result hadvance, conclude_error (by exact hpending)] at h
          cases h
        | ok σ' =>
          rw [hresolve] at hadvance
          rw [exec_goesOn hadvance] at h
          obtain ⟨τ, hτ⟩ := ih σ' { ctx with cursor := ctx.cursor + 1 } hpending hrest h
          exact ⟨τ, .cons hrequest hstep.1 hstep.2 hresolve hτ⟩
      · obtain ⟨message, hadvance⟩ := advance_mismatch hpending hrequest hentry hstep
        rw [exec_of_result hadvance, conclude_error hpending] at h
        cases h

end Replays

section Matched

/-- The step that the code asks for. -/
def asked (p : Program Output) (σ : p.State) : Option (String × Option ℤ) :=
  match (p.code σ).request with
  | .inl _ => none
  | .inr request => some (request.stepKind, request.stepVersion)

variable (p) in
/-- The calls of a run that moved the cursor: the position each of them started from, and the
step it asked for. -/
def matched (σ : p.State) (ctx : WfCtx) : List (ℕ × Option (String × Option ℤ)) :=
  match _h : p.advance σ ctx with
  | (.inl _, ctx') => if ctx.cursor = ctx'.cursor then [] else [(ctx.cursor, p.asked σ)]
  | (.inr σ', ctx') =>
    (if ctx.cursor = ctx'.cursor then [] else [(ctx.cursor, p.asked σ)]) ++ matched σ' ctx'
termination_by ctx.steps.length - ctx.cursor
decreasing_by
  obtain ⟨hlt, rfl⟩ := advance_goesOn _h
  simp only
  omega

/-- The calls that match the entries from a position on, one after another. -/
def calls : ℕ → List JournalEntry → List (ℕ × Option (String × Option ℤ))
  | _, [] => []
  | cursor, entry :: entries =>
    (cursor, some (entry.stepKind, entry.stepVersion)) :: calls (cursor + 1) entries

theorem matched_of_result {result : Except WfError Output}
    (h : p.advance σ ctx = (.inl result, ctx')) :
    p.matched σ ctx = if ctx.cursor = ctx'.cursor then [] else [(ctx.cursor, p.asked σ)] := by
  rw [matched]
  split
  next heq => cases heq.symm.trans h; rfl
  next heq => cases heq.symm.trans h

theorem matched_goesOn (h : p.advance σ ctx = (.inr σ', ctx')) :
    p.matched σ ctx = (if ctx.cursor = ctx'.cursor then [] else [(ctx.cursor, p.asked σ)]) ++
      p.matched σ' ctx' := by
  rw [matched]
  split
  next heq => cases heq.symm.trans h
  next heq => cases heq.symm.trans h; rfl

/-- Past the journal nothing is matched. -/
theorem matched_nil (hpending : ctx.pending = none) (hcursor : ctx.steps.length ≤ ctx.cursor) :
    p.matched σ ctx = [] := by
  cases hrequest : (p.code σ).request with
  | inl result => rw [matched_of_result (advance_of_result hrequest), if_pos rfl]
  | inr request =>
    have hadvance := advance_of_request ctx hrequest
    cases hcommand : request.command ctx.workflowId (ctx.cursor + 1) with
    | error e =>
      rw [hcommand, WfCtx.await_unbuildable hpending hcursor] at hadvance
      rw [matched_of_result hadvance]
      exact if_pos rfl
    | ok pending =>
      rw [hcommand, WfCtx.await_new hpending hcursor] at hadvance
      rw [matched_of_result hadvance]
      exact if_pos rfl

/-- The calls of any run match the first entries of the journal, each of them once and in
order, and each with the step that it recorded. -/
theorem matched_eq_calls (σ : p.State) (ctx : WfCtx) (hpending : ctx.pending = none)
    (hjournal : ctx.steps.drop ctx.cursor = entries) :
    ∃ n, p.matched σ ctx = calls ctx.cursor (entries.take n) ∧
      ∀ τ, p.Replays σ entries τ → entries.length ≤ n := by
  induction entries generalizing σ ctx with
  | nil => exact ⟨0, matched_nil hpending (List.drop_eq_nil_iff.mp hjournal), fun _ _ => le_rfl⟩
  | cons entry entries ih =>
    obtain ⟨hentry, hrest⟩ := entry_of_drop hjournal
    cases hrequest : (p.code σ).request with
    | inl result =>
      refine ⟨0, ?_, fun τ h => ?_⟩
      · rw [matched_of_result (advance_of_result hrequest), if_pos rfl]
        rfl
      · cases h with
        | cons hrequest' => cases hrequest.symm.trans hrequest'
    | inr request =>
      by_cases hstep : entry.stepKind = request.stepKind ∧ entry.stepVersion = request.stepVersion
      · have hadvance := advance_recorded hpending hrequest hentry hstep.1 hstep.2
        have hasked : p.asked σ = some (entry.stepKind, entry.stepVersion) := by
          rw [asked, hrequest, hstep.1, hstep.2]
        have hmoved : ¬ctx.cursor = ctx.cursor + 1 := Nat.ne_of_lt (Nat.lt_succ_self _)
        cases hresolve : request.resolve entry.outcome with
        | error e =>
          rw [hresolve] at hadvance
          refine ⟨1, ?_, fun τ h => ?_⟩
          · rw [matched_of_result hadvance, if_neg hmoved, hasked]
            rfl
          · cases h with
            | cons hrequest' _ _ hresolve' =>
              cases hrequest.symm.trans hrequest'
              cases hresolve.symm.trans hresolve'
        | ok σ' =>
          rw [hresolve] at hadvance
          obtain ⟨n, hmatched, hall⟩ :=
            ih σ' { ctx with cursor := ctx.cursor + 1 } hpending hrest
          refine ⟨n + 1, ?_, fun τ h => ?_⟩
          · rw [matched_goesOn hadvance, if_neg hmoved, hasked, hmatched]
            rfl
          · cases h with
            | cons hrequest' _ _ hresolve' hreplays =>
              cases hrequest.symm.trans hrequest'
              cases hresolve.symm.trans hresolve'
              exact Nat.succ_le_succ (hall τ hreplays)
      · obtain ⟨message, hadvance⟩ := advance_mismatch hpending hrequest hentry hstep
        refine ⟨0, ?_, fun τ h => ?_⟩
        · rw [matched_of_result hadvance, if_pos rfl]
          rfl
        · cases h with
          | cons hrequest' hkind hversion =>
            cases hrequest.symm.trans hrequest'
            exact absurd ⟨hkind, hversion⟩ hstep

end Matched

end Program

/-- What an activation returns where the code of a flow stands at the end of its journal: the
command of its next step, or its output. -/
def Program.Shows {Output : Type} (p : Program Output) (workflowId : Option WorkflowId)
    (journal : FlowJournal) (τ : p.State) :
    WorkflowTransition FlowJournal Unit Output → Prop
  | .complete output => (p.code τ).request = .inl (.ok output)
  | transition => ∃ request pending, (p.code τ).request = .inr request ∧
      request.command workflowId (journal.steps.length + 1) = .ok pending ∧
      transition = pending.transition journal

section Activations

variable {Output : Type} {p : Program Output} {workflowId : Option WorkflowId}
  {journal : FlowJournal} {transition : WorkflowTransition FlowJournal Unit Output} {τ : p.State}

/-- A command is shown by code that asks for its step. -/
theorem Program.shows_transition {pending : PendingStep} {request : StepRequest p.State}
    (hrequest : (p.code τ).request = .inr request)
    (hcommand : request.command workflowId (journal.steps.length + 1) = .ok pending) :
    p.Shows workflowId journal τ (pending.transition journal) := by
  cases pending <;> exact ⟨request, _, hrequest, hcommand, rfl⟩

/-- What an activation shows at the end of its journal is what it returns. -/
theorem Program.shown_eq_ok_iff :
    shown journal (p.view workflowId journal.steps.length τ) = .ok transition ↔
      p.Shows workflowId journal τ transition := by
  constructor
  · intro h
    cases hrequest : (p.code τ).request with
    | inl result =>
      rw [view_of_result hrequest] at h
      cases result with
      | error e => cases h
      | ok output =>
        cases h
        exact hrequest
    | inr request =>
      cases hcommand : request.command workflowId (journal.steps.length + 1) with
      | error e =>
        rw [view_of_unbuildable hrequest hcommand] at h
        cases h
      | ok pending =>
        rw [view_of_request hrequest hcommand] at h
        cases h
        exact shows_transition hrequest hcommand
  · intro h
    have hcommand : ∀ transition : WorkflowTransition FlowJournal Unit Output,
        (∃ request pending, (p.code τ).request = .inr request ∧
          request.command workflowId (journal.steps.length + 1) = .ok pending ∧
          transition = pending.transition journal) →
        shown journal (p.view workflowId journal.steps.length τ) = .ok transition := by
      rintro _ ⟨request, pending, hrequest, hcommand, rfl⟩
      rw [view_of_request hrequest hcommand]
      rfl
    cases transition with
    | complete output =>
      rw [view_of_result (show (p.code τ).request = .inl (.ok output) from h)]
      rfl
    | runActivity state activity => exact hcommand _ h
    | runChild state child => exact hcommand _ h
    | sleepUntil state wakeAtMillis => exact hcommand _ h
    | waitForApproval state approval expiresAtMillis => exact hcommand _ h
    | «continue» state => exact hcommand _ h

end Activations

/-- **Replay fails closed**: an activation on a journal, fresh or repeated, returns a
transition exactly if the journal is a trace of the code: the code requests the recorded
steps one after another, every recorded outcome decodes, and at the end of the journal the
code completes with the output or issues the command. Whatever it returns, its calls
matched the first entries of the journal, each once and in order and with the recorded kind
and version; all of them where it returns a transition. -/
theorem flowStep_trace {Output : Type} (p : Program Output) (workflowId : Option WorkflowId)
    (journal : FlowJournal) :
    flowStep p.body workflowId journal .continued = flowStep p.body workflowId journal .started ∧
    (∀ transition, flowStep p.body workflowId journal .started = .ok transition ↔
      journal.steps.length < U32.max ∧ ∃ τ, p.Replays p.start journal.steps τ ∧
        p.Shows workflowId journal τ transition) ∧
    ∃ n, p.matched p.start (.new workflowId journal) = Program.calls 0 (journal.steps.take n) ∧
      ∀ transition, flowStep p.body workflowId journal .started = .ok transition →
        journal.steps.length ≤ n := by
  have hrerun : ∀ event, event = .started ∨ event = .continued →
      flowStep p.body workflowId journal event =
        if journal.steps.length < U32.max then
          conclude (p.exec p.start (.new workflowId journal))
        else .error (.new "flow" "flow journal length overflow") := by
    intro event hevent
    rw [flowStep, applyEvent_rerun hevent]
    by_cases hlength : journal.steps.length < U32.max
    · rw [if_pos hlength, if_pos hlength]
      rfl
    · rw [if_neg hlength, if_neg hlength]
      rfl
  have hreplays : ∀ τ, p.Replays p.start journal.steps τ →
      conclude (p.exec p.start (.new workflowId journal)) =
        shown journal (p.view workflowId journal.steps.length τ) := by
    intro τ h
    rw [h.exec (.new workflowId journal) rfl rfl, conclude_halt rfl]
    · simp [WfCtx.new]
    · simp [WfCtx.new]
  have hok : ∀ transition, flowStep p.body workflowId journal .started = .ok transition ↔
      journal.steps.length < U32.max ∧ ∃ τ, p.Replays p.start journal.steps τ ∧
        p.Shows workflowId journal τ transition := by
    intro transition
    rw [hrerun _ (.inl rfl)]
    by_cases hlength : journal.steps.length < U32.max
    · rw [if_pos hlength]
      constructor
      · intro h
        obtain ⟨τ, hτ⟩ := Program.replays_of_conclude p.start (.new workflowId journal) rfl rfl h
        rw [hreplays τ hτ] at h
        exact ⟨hlength, τ, hτ, Program.shown_eq_ok_iff.mp h⟩
      · rintro ⟨-, τ, hτ, hshows⟩
        rw [hreplays τ hτ]
        exact Program.shown_eq_ok_iff.mpr hshows
    · rw [if_neg hlength]
      constructor
      · intro h
        cases h
      · rintro ⟨h, -⟩
        exact absurd h hlength
  refine ⟨(hrerun _ (.inr rfl)).trans (hrerun _ (.inl rfl)).symm, hok, ?_⟩
  obtain ⟨n, hmatched, hall⟩ := Program.matched_eq_calls p.start (.new workflowId journal) rfl rfl
  refine ⟨n, hmatched, fun transition h => ?_⟩
  obtain ⟨-, τ, hτ, -⟩ := (hok transition).mp h
  exact hall τ hτ

end DurableWorkflows
