import DurableWorkflows.Base.Machine
import DurableWorkflows.Runtime.ActivityWorker
import DurableWorkflows.Runtime.Restart
import Mathlib.Data.List.TakeWhile

/-!
# The execution of a claimed activity

`execute_claim` drives the handler of one attempt beside the loop that renews its
lease, and finishes the claim with an outcome. It waits in a `select!` whose
branches are switched by six flags; a heartbeat that ends with a revoked or lost
lease makes it wait for the handler in an inner `select!`.

The branches of a `select!` may become ready in any order here. What becomes
ready is given by its event: the handler and the renewals are not modelled.

## Main definitions

- `ClaimExecution`: the local state of `execute_claim`
- `ClaimExecution.polls`: the branches of the `select!` it waits in
- `ClaimExecution.exec`: what follows when a branch is ready
- `ClaimExecution.seen`: what an execution has seen
- `claimedOutcome`: the outcome after what was seen

## Main results

- `ClaimExecution.run_finishes`: no `select!` panics, no finished future is polled,
  and the claim is finished once at most, with the outcome of what was seen
-/

namespace DurableWorkflows

section Model

/-- `ActivityError`. -/
inductive ActivityError
  | retryable (category message : String)
  | permanent (category message : String)

/-- `ActivityDispatchError`. -/
inductive ActivityDispatchError
  | handler (error : ActivityError)
  | durable (error : DurableError)

/-- `ExecutionOutcome::Retryable` of `ActivityError::retryable`. -/
def ExecutionOutcome.newRetryable (category message : String) : ExecutionOutcome :=
  .retryable (truncateUtf8 category 64) (truncateUtf8 message maxErrorReasonBytes)

/-- `ExecutionOutcome::Permanent` of `ActivityError::permanent`. -/
def ExecutionOutcome.newPermanent (category message : String) : ExecutionOutcome :=
  .permanent (truncateUtf8 category 64) (truncateUtf8 message maxErrorReasonBytes)

/-- What the future of a handler returns. -/
abbrev HandlerResult := Except ActivityDispatchError ActivityOutput

/-- `dispatch_outcome`. -/
def dispatchOutcome : HandlerResult → ExecutionOutcome
  | .ok output => .succeeded output
  | .error (.handler (.retryable category message)) => .newRetryable category message
  | .error (.handler (.permanent category message)) => .newPermanent category message
  | .error (.durable error) =>
    .newPermanent "dispatch" s!"activity dispatch serialization failed: {error.message}"

/-- The outcome of an attempt whose timeout fired. -/
def timeoutOutcome : ExecutionOutcome :=
  .newRetryable "timeout" "activity execution exceeded its configured timeout"

/-- The outcome of an attempt that a shutdown gave up on. -/
def shutdownGraceOutcome : ExecutionOutcome :=
  .newRetryable "cancelled" "activity worker shutdown grace elapsed"

/-- `HeartbeatEnd`: how a heartbeat loop that kept its lease ended. -/
inductive HeartbeatEnd
  | stopped
  | revoked (leaseDeadline : Instant)

/-- `HeartbeatFailure`: how a heartbeat loop that lost or could not confirm its lease ended. -/
inductive HeartbeatFailure
  | leaseLost (leaseDeadline : Instant)
  | unconfirmed (error : DurableError) (leaseDeadline : Instant)

/-- The last confirmed local lease deadline. -/
def HeartbeatFailure.leaseDeadline : HeartbeatFailure → Instant
  | leaseLost leaseDeadline | unconfirmed _ leaseDeadline => leaseDeadline

/-- `HeartbeatFailure::into_error`. -/
def HeartbeatFailure.intoError : HeartbeatFailure → DurableError
  | leaseLost _ => .fencedWrite
  | unconfirmed error _ => error

/-- A future that `execute_claim` owns; one that is not pending must not be polled. -/
inductive FutureState
  | pending
  | completed
  | dropped
  deriving DecidableEq

/-- `handler::Stopped`: an outcome whose handler future has been dropped. -/
structure Stopped where
  outcome : ExecutionOutcome

/-- Where an execution waits, or that it has returned. -/
inductive ExecutionControl
  | selecting
  | revoking (deadline : Instant)
  | failing (failure : HeartbeatFailure) (deadline : Instant)
  | stopping (outcome : ExecutionOutcome)
  | recording (stopped : Stopped)
  | finishing (stopped : Stopped)
  | returned (result : Except DurableError Unit)

/-- The local state of `execute_claim`, with the calls of `finish_claim` it has made. -/
structure ClaimExecution where
  shutdownGrace : ℕ
  timeout : Instant
  shutdownDeadline : Instant
  shutdownRequested : Bool
  forcedShutdownRequested : Bool
  heartbeatStopped : Bool
  executionFinished : Bool
  timeoutCleanupPending : Bool
  requestedOutcome : Option ExecutionOutcome
  heartbeatStop : Bool
  heartbeat : FutureState
  handler : FutureState
  control : ExecutionControl
  finishes : List ExecutionOutcome

/-- A branch of a `select!`, by the future it polls. -/
inductive Poll
  | forcedCancellation
  | cancellation
  | shutdownDeadline
  | timeout
  | heartbeat
  | handler
  | leaseDeadline
  deriving DecidableEq

/-- What an execution goes on with: a branch that is ready, with what its future returned, or
the end of a call that it awaits. -/
inductive ExecutionStep
  | forcedCancellation
  | cancellation
  | shutdownGraceElapsed
  | timeout
  | heartbeat (result : Except HeartbeatFailure HeartbeatEnd)
  | handler (result : HandlerResult)
  | cleanupGraceElapsed
  | stop
  | recorded
  | finished (result : Except DurableError Unit)

/-- A step, with the time that it reads. -/
structure ExecutionEvent where
  now : Instant
  step : ExecutionStep

/-- A step that cannot be. -/
inductive NotReady
  | notReady

namespace ClaimExecution

/-- The branches of the `select!` that an execution waits in. -/
def polls (s : ClaimExecution) : List Poll :=
  match s.control with
  | .selecting =>
    (if s.forcedShutdownRequested then [] else [.forcedCancellation]) ++
      (if s.shutdownRequested then [] else [.cancellation]) ++
      (if (s.shutdownRequested ∧ s.requestedOutcome.isNone) ∨ s.timeoutCleanupPending then
        [.shutdownDeadline] else []) ++
      (if s.requestedOutcome.isNone then [.timeout] else []) ++
      (if s.heartbeatStopped then [] else [.heartbeat]) ++
      (if s.executionFinished then [] else [.handler])
  | .revoking _ | .failing _ _ => [.forcedCancellation, .leaseDeadline, .handler]
  | .stopping _ | .recording _ | .finishing _ | .returned _ => []

/-- The top of the loop. -/
def loopTop (s : ClaimExecution) : ClaimExecution :=
  if s.heartbeatStopped then
    if s.forcedShutdownRequested then
      { s with control := .returned (.ok ()) }
    else
      match s.timeoutCleanupPending, s.requestedOutcome with
      | false, some outcome => { s with requestedOutcome := none, control := .stopping outcome }
      | _, _ => { s with control := .selecting }
  else
    { s with control := .selecting }

/-- The end of the branch of a revoked attempt. -/
def settleRevoke (s : ClaimExecution) : ClaimExecution :=
  { s with requestedOutcome := some .revoked }.loopTop

/-- Until when the handler of an attempt that lost its lease may clean up. -/
def cleanupDeadline (s : ClaimExecution) (now leaseDeadline : Instant) : Instant :=
  min (if s.shutdownRequested then s.shutdownDeadline else now + s.shutdownGrace) leaseDeadline

/-- The branch of a heartbeat that found its attempt revoked. -/
def onRevoked (s : ClaimExecution) (now leaseDeadline : Instant) : ClaimExecution :=
  let s := { s with heartbeatStopped := true, timeoutCleanupPending := false }
  let deadline := s.cleanupDeadline now leaseDeadline
  if s.executionFinished = false ∧ now < deadline then
    { s with control := .revoking deadline }
  else
    s.settleRevoke

/-- The branch of a heartbeat whose lease is lost, or is not confirmed in time. -/
def onLeaseFailure (s : ClaimExecution) (now : Instant) (failure : HeartbeatFailure) :
    ClaimExecution :=
  let s := { s with heartbeatStop := true }
  let deadline := s.cleanupDeadline now failure.leaseDeadline
  if s.executionFinished = false ∧ now < deadline then
    { s with control := .failing failure deadline }
  else
    { s with control := .returned (.error failure.intoError) }

/-- The branch of the heartbeat. -/
def onHeartbeat (s : ClaimExecution) (now : Instant) :
    Except HeartbeatFailure HeartbeatEnd → ClaimExecution
  | .ok (.revoked leaseDeadline) => s.onRevoked now leaseDeadline
  | .ok .stopped => { s with heartbeatStopped := true }.loopTop
  | .error (.leaseLost leaseDeadline) => s.onLeaseFailure now (.leaseLost leaseDeadline)
  | .error (.unconfirmed error leaseDeadline) =>
    if s.executionFinished ∧ now < leaseDeadline then
      { s with heartbeatStopped := true }.loopTop
    else
      s.onLeaseFailure now (.unconfirmed error leaseDeadline)

/-- The branch of the shutdown grace. -/
def onShutdownGraceElapsed (s : ClaimExecution) : ClaimExecution :=
  { s with
    heartbeatStop := true
    timeoutCleanupPending := false
    requestedOutcome := s.requestedOutcome.or (some shutdownGraceOutcome) }.loopTop

/-- The branch of the timeout. -/
def onTimeout (s : ClaimExecution) (now : Instant) : ClaimExecution :=
  { s with
    shutdownDeadline :=
      if s.shutdownRequested then s.shutdownDeadline else now + s.shutdownGrace
    shutdownRequested := true
    timeoutCleanupPending := true
    requestedOutcome := some timeoutOutcome }.loopTop

/-- The branch of the handler. -/
def onHandler (s : ClaimExecution) (result : HandlerResult) : ClaimExecution :=
  { s with
    executionFinished := true
    heartbeatStop := true
    timeoutCleanupPending := false
    requestedOutcome :=
      if s.requestedOutcome.isNone ∧ s.forcedShutdownRequested = false then
        some (dispatchOutcome result)
      else
        s.requestedOutcome }.loopTop

/-- What `finish_claim` returns for the result of its transaction: lease reconciliation may
have settled a revoked attempt. -/
def finishResult (stopped : Stopped) (result : Except DurableError Unit) :
    Except DurableError Unit :=
  match result, stopped.outcome with
  | .error .fencedWrite, .revoked => .ok ()
  | result, _ => result

/-- The heartbeat loop has not ended, and is not stopped unless it was told to. -/
def heartbeatReady (s : ClaimExecution) : Except HeartbeatFailure HeartbeatEnd → Bool
  | .ok .stopped => !s.heartbeatStopped && s.heartbeatStop
  | .ok (.revoked _) | .error _ => !s.heartbeatStopped

/-- What an execution does when a branch of its `select!` is ready, or when what it awaits
outside of one has ended. -/
def exec (s : ClaimExecution) : ExecutionEvent → Except NotReady ClaimExecution
  | ⟨now, step⟩ =>
    match s.control, step with
    | .selecting, .forcedCancellation =>
      if s.forcedShutdownRequested then
        .error .notReady
      else
        .ok { s with heartbeatStop := true, forcedShutdownRequested := true }.loopTop
    | .selecting, .cancellation =>
      if s.shutdownRequested then
        .error .notReady
      else
        .ok { s with
          shutdownDeadline := now + s.shutdownGrace, shutdownRequested := true }.loopTop
    | .selecting, .shutdownGraceElapsed =>
      if .shutdownDeadline ∈ s.polls ∧ s.shutdownDeadline ≤ now then
        .ok s.onShutdownGraceElapsed
      else
        .error .notReady
    | .selecting, .timeout =>
      if s.requestedOutcome.isNone ∧ s.timeout ≤ now then
        .ok (s.onTimeout now)
      else
        .error .notReady
    | .selecting, .heartbeat result =>
      if s.heartbeatReady result then
        .ok ({ s with heartbeat := .completed }.onHeartbeat now result)
      else
        .error .notReady
    | .selecting, .handler result =>
      if s.executionFinished then
        .error .notReady
      else
        .ok ({ s with handler := .completed }.onHandler result)
    | .revoking _, .forcedCancellation =>
      .ok { s with forcedShutdownRequested := true }.settleRevoke
    | .revoking deadline, .cleanupGraceElapsed =>
      if deadline ≤ now then .ok s.settleRevoke else .error .notReady
    | .revoking _, .handler _ =>
      .ok { s with handler := .completed, executionFinished := true }.settleRevoke
    | .failing failure _, .forcedCancellation =>
      .ok { s with control := .returned (.error failure.intoError) }
    | .failing failure deadline, .cleanupGraceElapsed =>
      if deadline ≤ now then
        .ok { s with control := .returned (.error failure.intoError) }
      else
        .error .notReady
    | .failing failure _, .handler _ =>
      .ok { s with handler := .completed, control := .returned (.error failure.intoError) }
    | .stopping outcome, .stop =>
      .ok { s with handler := .dropped, control := .recording ⟨outcome⟩ }
    | .recording stopped, .recorded =>
      .ok { s with
        control := .finishing stopped, finishes := s.finishes ++ [stopped.outcome] }
    | .finishing stopped, .finished result =>
      .ok { s with control := .returned (finishResult stopped result) }
    | _, _ => .error .notReady

/-- An execution that returned takes no step. -/
theorem exec_returned {s : ClaimExecution} {result : Except DurableError Unit}
    (h : s.control = .returned result) (event : ExecutionEvent) :
    s.exec event = .error .notReady := by
  obtain ⟨now, step⟩ := event
  cases step <;> simp only [exec, h]

/-- The execution of a claim up to its loop. -/
def start (shutdownGrace : ℕ) (claim : ActivityClaim) (leaseDeadline now : Instant) :
    ClaimExecution :=
  let s : ClaimExecution := {
    shutdownGrace
    timeout := now
    shutdownDeadline := now + shutdownGrace
    shutdownRequested := false
    forcedShutdownRequested := false
    heartbeatStopped := false
    executionFinished := false
    timeoutCleanupPending := false
    requestedOutcome := none
    heartbeatStop := false
    heartbeat := .pending
    handler := .pending
    control := .selecting
    finishes := [] }
  if leaseDeadline ≤ now then
    { s with control := .returned (.error .fencedWrite) }
  else
    match durationFromMillis claim.row.leaseDurationMillis,
        durationFromMillis claim.row.timeoutMillis with
    | .error error, _ | _, .error error => { s with control := .returned (.error error) }
    | .ok _, .ok timeout => { s with timeout := now + timeout * 1000000 }.loopTop

def run (s : ClaimExecution) (events : List ExecutionEvent) : ClaimExecution :=
  Machine.run exec s events

/-- What a step adds to what an execution has seen. -/
def seen (s : ClaimExecution) (event : ExecutionEvent) : List ExecutionStep :=
  match s.exec event with
  | .ok _ => [event.step]
  | .error _ => []

/-- What an execution has seen. -/
def history (s : ClaimExecution) (events : List ExecutionEvent) : List ExecutionStep :=
  Machine.collect exec seen s events

end ClaimExecution

end Model

section History

/-- The result of the handler, if it has returned. -/
def ExecutionStep.result? : ExecutionStep → Option HandlerResult
  | handler result => some result
  | _ => none

/-- A heartbeat that reported a revoke. -/
def ExecutionStep.isRevoke : ExecutionStep → Bool
  | heartbeat (.ok (.revoked _)) => true
  | _ => false

/-- The timeout has fired. -/
def ExecutionStep.isTimeout : ExecutionStep → Bool
  | timeout => true
  | _ => false

/-- The shutdown grace has elapsed. -/
def ExecutionStep.isShutdownGrace : ExecutionStep → Bool
  | shutdownGraceElapsed => true
  | _ => false

/-- What was seen before the handler returned. -/
def untilReturn (log : List ExecutionStep) : List ExecutionStep :=
  log.takeWhile (·.result?.isNone)

/-- The outcome of an attempt after what its execution has seen. -/
def claimedOutcome (log : List ExecutionStep) : Option ExecutionOutcome :=
  if log.any ExecutionStep.isRevoke then
    some .revoked
  else if (untilReturn log).any ExecutionStep.isTimeout then
    some timeoutOutcome
  else if (untilReturn log).any ExecutionStep.isShutdownGrace then
    some shutdownGraceOutcome
  else
    (log.findSome? ExecutionStep.result?).map dispatchOutcome

/-- What may have been seen before a claim is finished with an outcome. -/
structure MayFinish (log : List ExecutionStep) (outcome : ExecutionOutcome) : Prop where
  held : ∀ deadline, .heartbeat (.error (.leaseLost deadline)) ∉ log
  confirmed : ∀ error deadline,
    .heartbeat (.error (.unconfirmed error deadline)) ∉ untilReturn log
  unforced : .forcedCancellation ∉ log
  outcome : claimedOutcome log = some outcome

variable {log : List ExecutionStep} {step : ExecutionStep} {result : HandlerResult}

/-- The handler has returned. -/
def Returned (log : List ExecutionStep) : Prop := ∃ result, .handler result ∈ log

theorem result?_eq_some : step.result? = some result ↔ step = .handler result := by
  cases step <;> simp [ExecutionStep.result?]

theorem isNone_of_running (h : ¬Returned log) (hstep : step ∈ log) :
    step.result?.isNone = true := by
  rw [Option.isNone_iff_eq_none, Option.eq_none_iff_forall_ne_some]
  intro result hresult
  exact h ⟨result, result?_eq_some.mp hresult ▸ hstep⟩

theorem untilReturn_of_running (h : ¬Returned log) : untilReturn log = log :=
  List.takeWhile_eq_self_iff.mpr fun _ hstep => isNone_of_running h hstep

theorem untilReturn_concat_of_returned (h : Returned log) :
    untilReturn (log ++ [step]) = untilReturn log := by
  unfold untilReturn
  rw [List.takeWhile_append, if_neg]
  intro hlength
  obtain ⟨result, hmem⟩ := h
  have hall := List.takeWhile_eq_self_iff.mp ((List.takeWhile_prefix _).eq_of_length hlength)
  cases hall _ hmem

theorem findSome?_of_running (h : ¬Returned log) :
    log.findSome? ExecutionStep.result? = none := by
  rw [List.findSome?_eq_none_iff]
  exact fun step hstep => Option.isNone_iff_eq_none.mp (isNone_of_running h hstep)

theorem untilReturn_concat_of_running (h : ¬Returned log) :
    untilReturn (log ++ [step]) = log ++ untilReturn [step] := by
  have hall : log.takeWhile (·.result?.isNone) = log := untilReturn_of_running h
  unfold untilReturn
  rw [List.takeWhile_append, hall, if_pos rfl]

theorem returned_concat : Returned (log ++ [step]) ↔ Returned log ∨ step.result?.isSome := by
  constructor
  · rintro ⟨result, hmem⟩
    rcases List.mem_append.mp hmem with hold | hnew
    · exact .inl ⟨result, hold⟩
    · exact .inr (by rw [← List.mem_singleton.mp hnew]; rfl)
  · rintro (⟨result, hmem⟩ | hsome)
    · exact ⟨result, List.mem_append_left _ hmem⟩
    · obtain ⟨result, hresult⟩ := Option.isSome_iff_exists.mp hsome
      rw [result?_eq_some.mp hresult]
      exact ⟨result, List.mem_append_right _ (List.mem_singleton_self _)⟩

/-- A step that says nothing about the outcome. -/
def ExecutionStep.isNeutral : ExecutionStep → Bool
  | timeout | shutdownGraceElapsed | handler _ | heartbeat (.ok (.revoked _)) => false
  | _ => true

theorem claimedOutcome_concat_neutral (h : step.isNeutral = true) :
    claimedOutcome (log ++ [step]) = claimedOutcome log := by
  have hrevoke : step.isRevoke = false := by
    cases step with
    | heartbeat result => rcases result with _ | _ | _ <;> trivial
    | _ => rfl
  have hresult : step.result? = none := by cases step <;> trivial
  have htimeout : step.isTimeout = false := by cases step <;> trivial
  have hgrace : step.isShutdownGrace = false := by cases step <;> trivial
  have huntil : ∀ p : ExecutionStep → Bool, p step = false →
      (untilReturn (log ++ [step])).any p = (untilReturn log).any p := by
    intro p hp
    by_cases hreturned : Returned log
    · rw [untilReturn_concat_of_returned hreturned]
    · rw [untilReturn_concat_of_running hreturned, untilReturn_of_running hreturned]
      simp [untilReturn, hresult, hp]
  unfold claimedOutcome
  rw [huntil _ htimeout, huntil _ hgrace, List.any_append, List.findSome?_append]
  simp [hrevoke, hresult]

/-- Once the handler has returned, some outcome is claimed. -/
theorem claimedOutcome_ne_none (h : Returned log) : claimedOutcome log ≠ none := by
  obtain ⟨result, hmem⟩ := h
  have hfind : log.findSome? ExecutionStep.result? ≠ none := fun hnone => by
    cases List.findSome?_eq_none_iff.mp hnone _ hmem
  unfold claimedOutcome
  split
  · exact fun h => by cases h
  split
  · exact fun h => by cases h
  split
  · exact fun h => by cases h
  · rwa [Ne, Option.map_eq_none_iff]

theorem claimedOutcome_concat_revoke (h : step.isRevoke = true) :
    claimedOutcome (log ++ [step]) = some .revoked := by
  unfold claimedOutcome
  rw [if_pos]
  simp [h]

theorem claimedOutcome_concat_of_revoked (h : log.any ExecutionStep.isRevoke = true) :
    claimedOutcome (log ++ [step]) = some .revoked := by
  unfold claimedOutcome
  rw [if_pos]
  rw [List.any_append, h, Bool.true_or]

/-- The timeout sets the outcome if there is none. -/
theorem claimedOutcome_concat_timeout (h : claimedOutcome log = none) :
    claimedOutcome (log ++ [.timeout]) = some timeoutOutcome := by
  have hrunning : ¬Returned log := fun hreturned => claimedOutcome_ne_none hreturned h
  have hrevoked : log.any ExecutionStep.isRevoke = false := by
    by_contra hrevoke
    rw [claimedOutcome, if_pos (Bool.eq_true_of_not_eq_false hrevoke)] at h
    cases h
  unfold claimedOutcome
  rw [List.any_append, hrevoked, untilReturn_concat_of_running hrunning]
  simp [untilReturn, ExecutionStep.result?, ExecutionStep.isRevoke, ExecutionStep.isTimeout]

/-- The shutdown grace sets the outcome if there is none. -/
theorem claimedOutcome_concat_grace :
    claimedOutcome (log ++ [.shutdownGraceElapsed]) =
      (claimedOutcome log).or (some shutdownGraceOutcome) := by
  by_cases hreturned : Returned log
  · obtain ⟨outcome, houtcome⟩ := Option.ne_none_iff_exists'.mp (claimedOutcome_ne_none hreturned)
    rw [houtcome, Option.some_or, ← houtcome]
    unfold claimedOutcome
    rw [untilReturn_concat_of_returned hreturned, List.any_append, List.findSome?_append]
    simp [ExecutionStep.result?, ExecutionStep.isRevoke]
  · unfold claimedOutcome
    rw [untilReturn_concat_of_running hreturned, untilReturn_of_running hreturned,
      findSome?_of_running hreturned]
    simp only [List.any_append, untilReturn]
    cases log.any ExecutionStep.isRevoke with
    | true => rfl
    | false =>
      cases log.any ExecutionStep.isTimeout with
      | true => simp [ExecutionStep.isRevoke]
      | false =>
        cases log.any ExecutionStep.isShutdownGrace <;>
          simp [ExecutionStep.isRevoke, ExecutionStep.isTimeout, ExecutionStep.isShutdownGrace,
            ExecutionStep.result?]

/-- The handler sets the outcome if there is none. -/
theorem claimedOutcome_concat_handler (h : ¬Returned log) :
    claimedOutcome (log ++ [.handler result]) =
      (claimedOutcome log).or (some (dispatchOutcome result)) := by
  unfold claimedOutcome
  rw [untilReturn_concat_of_running h, untilReturn_of_running h, List.findSome?_append,
    findSome?_of_running h]
  simp only [List.any_append, untilReturn]
  cases log.any ExecutionStep.isRevoke with
  | true => rfl
  | false =>
    cases log.any ExecutionStep.isTimeout with
    | true => simp [ExecutionStep.isRevoke]
    | false =>
      cases log.any ExecutionStep.isShutdownGrace <;>
        simp [ExecutionStep.isRevoke, ExecutionStep.result?]

theorem held_concat (h : ∀ deadline, .heartbeat (.error (.leaseLost deadline)) ∉ log)
    (hstep : ∀ deadline, step ≠ .heartbeat (.error (.leaseLost deadline))) (deadline : Instant) :
    .heartbeat (.error (.leaseLost deadline)) ∉ log ++ [step] := by
  intro hmem
  rcases List.mem_append.mp hmem with hold | hnew
  · exact h deadline hold
  · exact hstep deadline (List.mem_singleton.mp hnew).symm

theorem confirmed_concat
    (h : ∀ error deadline, .heartbeat (.error (.unconfirmed error deadline)) ∉ untilReturn log)
    (hstep : ∀ error deadline, step = .heartbeat (.error (.unconfirmed error deadline)) →
      Returned log) (error : DurableError) (deadline : Instant) :
    .heartbeat (.error (.unconfirmed error deadline)) ∉ untilReturn (log ++ [step]) := by
  intro hmem
  by_cases hbefore : Returned log
  · rw [untilReturn_concat_of_returned hbefore] at hmem
    exact h error deadline hmem
  · rw [untilReturn_concat_of_running hbefore] at hmem
    rcases List.mem_append.mp hmem with hold | hnew
    · refine h error deadline ?_
      rwa [untilReturn_of_running hbefore]
    · have hnew := List.mem_singleton.mp ((List.takeWhile_prefix _).subset hnew)
      exact hbefore (hstep error deadline hnew.symm)

/-- What is seen after the loop says nothing about the outcome. -/
theorem MayFinish.concat {outcome : ExecutionOutcome} (h : MayFinish log outcome)
    (hneutral : step.isNeutral = true) (hforced : step ≠ .forcedCancellation)
    (hfailure : ∀ failure, step ≠ .heartbeat (.error failure)) :
    MayFinish (log ++ [step]) outcome where
  held := held_concat h.held fun _ => hfailure _
  confirmed := confirmed_concat h.confirmed fun _ _ hstep => absurd hstep (hfailure _)
  unforced := by
    intro hmem
    rcases List.mem_append.mp hmem with hold | hnew
    · exact h.unforced hold
    · exact hforced (List.mem_singleton.mp hnew).symm
  outcome := by
    rw [claimedOutcome_concat_neutral hneutral]
    exact h.outcome

end History

namespace ClaimExecution

variable {s s' : ClaimExecution} {log : List ExecutionStep} {event : ExecutionEvent}
  {step : ExecutionStep}

section Invariant

/-- An execution that has seen neither a lost lease nor, before its handler returned, a renewal
that was not confirmed. -/
structure Holds (log : List ExecutionStep) (s : ClaimExecution) : Prop where
  finishes : s.finishes = []
  handler : s.handler = if s.executionFinished then .completed else .pending
  returned : s.executionFinished = true ↔ Returned log
  forced : .forcedCancellation ∈ log → s.forcedShutdownRequested = true
  held : ∀ deadline, .heartbeat (.error (.leaseLost deadline)) ∉ log
  confirmed : ∀ error deadline,
    .heartbeat (.error (.unconfirmed error deadline)) ∉ untilReturn log

/-- An execution in its loop: unless it is forced to stop, it keeps the outcome of what it has
seen. -/
structure Loops (log : List ExecutionStep) (s : ClaimExecution) : Prop extends Holds log s where
  heartbeat : s.heartbeat = if s.heartbeatStopped then .completed else .pending
  outcome : s.forcedShutdownRequested = false → s.requestedOutcome = claimedOutcome log

/-- An execution after what it has seen. -/
def Tells (log : List ExecutionStep) (s : ClaimExecution) : Prop :=
  match s.control with
  | .selecting => s.Loops log ∧ (s.heartbeatStopped = true → s.forcedShutdownRequested = false)
  | .revoking _ => s.Holds log ∧ s.executionFinished = false ∧ s.heartbeatStopped = true ∧
      s.timeoutCleanupPending = false ∧ log.any ExecutionStep.isRevoke = true
  | .failing _ _ => s.finishes = [] ∧ s.handler = .pending
  | .stopping outcome => s.finishes = [] ∧ MayFinish log outcome
  | .recording stopped => s.finishes = [] ∧ s.handler = .dropped ∧ MayFinish log stopped.outcome
  | .finishing _ | .returned _ => s.finishes = [] ∨
      ∃ outcome, s.finishes = [outcome] ∧ s.handler = .dropped ∧ MayFinish log outcome

end Invariant

section Steps

/-- What a step leaves of what was seen, unless a heartbeat lost the lease or failed before the
handler returned. -/
theorem Holds.concat (h : s.Holds log)
    (hheld : ∀ deadline, step ≠ .heartbeat (.error (.leaseLost deadline)))
    (hconfirmed : ∀ error deadline, step = .heartbeat (.error (.unconfirmed error deadline)) →
      Returned log)
    (hfinishes : s'.finishes = s.finishes)
    (hhandler : s'.handler = if s'.executionFinished then .completed else .pending)
    (hreturned : s'.executionFinished = (s.executionFinished || step.result?.isSome))
    (hforced : s.forcedShutdownRequested = true ∨ step = .forcedCancellation →
      s'.forcedShutdownRequested = true) : s'.Holds (log ++ [step]) where
  finishes := hfinishes.trans h.finishes
  handler := hhandler
  returned := by
    rw [hreturned, Bool.or_eq_true, returned_concat, h.returned]
  forced := by
    intro hmem
    rcases List.mem_append.mp hmem with hold | hnew
    · exact hforced (.inl (h.forced hold))
    · exact hforced (.inr (List.mem_singleton.mp hnew).symm)
  held := held_concat h.held hheld
  confirmed := confirmed_concat h.confirmed hconfirmed

/-- What is left of a loop that goes on with an outcome: what the claim is finished with. -/
theorem Holds.mayFinish_of_unforced {outcome : ExecutionOutcome} (h : s.Holds log)
    (hforced : s.forcedShutdownRequested = false) (houtcome : claimedOutcome log = some outcome) :
    MayFinish log outcome where
  held := h.held
  confirmed := h.confirmed
  unforced := fun hmem => by cases hforced.symm.trans (h.forced hmem)
  outcome := houtcome

/-- The top of the loop. -/
theorem Loops.loopTop (h : s.Loops log) : s.loopTop.Tells log := by
  have hselecting : (s.heartbeatStopped = true → s.forcedShutdownRequested = false) →
      { s with control := .selecting }.Tells log := fun hunforced =>
    ⟨⟨⟨h.finishes, h.handler, h.returned, h.forced, h.held, h.confirmed⟩, h.heartbeat,
      h.outcome⟩, hunforced⟩
  unfold ClaimExecution.loopTop
  split
  next hstopped =>
    split
    next => exact .inl h.finishes
    next hunforced =>
      have hunforced := Bool.eq_false_iff.mpr hunforced
      split
      next outcome _ houtcome =>
        exact ⟨h.finishes, h.mayFinish_of_unforced hunforced
          ((h.outcome hunforced).symm.trans houtcome)⟩
      next => exact hselecting fun _ => hunforced
  next hgoing => exact hselecting fun hstopped => absurd hstopped hgoing

/-- The end of the branch of a revoked attempt. -/
theorem Holds.settleRevoke (h : s.Holds log) (hstopped : s.heartbeatStopped = true)
    (hpending : s.timeoutCleanupPending = false)
    (hrevoked : claimedOutcome log = some .revoked) : s.settleRevoke.Tells log := by
  unfold ClaimExecution.settleRevoke ClaimExecution.loopTop
  rw [if_pos hstopped]
  split
  next => exact .inl h.finishes
  next hunforced =>
    simp only [hpending]
    exact ⟨h.finishes, h.mayFinish_of_unforced (Bool.eq_false_iff.mpr hunforced) hrevoked⟩

/-- The handler future of an execution whose handler has not returned. -/
theorem Holds.handler_pending (h : s.Holds log) (hrunning : s.executionFinished = false) :
    s.handler = .pending := by
  rw [h.handler, hrunning]
  rfl

theorem Holds.not_returned (h : s.Holds log) (hrunning : s.executionFinished = false) :
    ¬Returned log := fun hreturned => by
  cases hrunning.symm.trans (h.returned.mpr hreturned)

/-- The branch of the forced cancellation. -/
theorem Loops.forcedCancellation (h : s.Loops log) :
    { s with heartbeatStop := true, forcedShutdownRequested := true }.loopTop.Tells
      (log ++ [ExecutionStep.forcedCancellation]) := by
  refine Loops.loopTop ⟨?_, h.heartbeat, (fun h => by cases h)⟩
  exact h.toHolds.concat (fun _ h => by cases h) (fun _ _ h => by cases h)
    rfl h.handler (Bool.or_false _).symm fun _ => rfl

/-- The branch of the cancellation. -/
theorem Loops.cancelled (h : s.Loops log) (shutdownDeadline : Instant) :
    { s with shutdownDeadline, shutdownRequested := true }.loopTop.Tells
      (log ++ [ExecutionStep.cancellation]) := by
  refine Loops.loopTop ⟨?_, h.heartbeat, fun hunforced => ?_⟩
  · exact h.toHolds.concat (fun _ h => by cases h) (fun _ _ h => by cases h)
      rfl h.handler (Bool.or_false _).symm fun hforced => hforced.elim id (fun h => by cases h)
  · rw [claimedOutcome_concat_neutral rfl]
    exact h.outcome hunforced

/-- The branch of the shutdown grace. -/
theorem Loops.onShutdownGraceElapsed (h : s.Loops log) :
    s.onShutdownGraceElapsed.Tells (log ++ [ExecutionStep.shutdownGraceElapsed]) := by
  refine Loops.loopTop ⟨?_, h.heartbeat, fun hunforced => ?_⟩
  · exact h.toHolds.concat (fun _ h => by cases h) (fun _ _ h => by cases h)
      rfl h.handler (Bool.or_false _).symm fun hforced => hforced.elim id (fun h => by cases h)
  · rw [claimedOutcome_concat_grace, ← h.outcome hunforced]

/-- The branch of the timeout. -/
theorem Loops.onTimeout (h : s.Loops log) (hnone : s.requestedOutcome.isNone = true)
    (now : Instant) : (s.onTimeout now).Tells (log ++ [ExecutionStep.timeout]) := by
  refine Loops.loopTop ⟨?_, h.heartbeat, fun hunforced => ?_⟩
  · exact h.toHolds.concat (fun _ h => by cases h) (fun _ _ h => by cases h)
      rfl h.handler (Bool.or_false _).symm fun hforced => hforced.elim id (fun h => by cases h)
  · have hclaimed : claimedOutcome log = none :=
      (h.outcome hunforced).symm.trans (Option.isNone_iff_eq_none.mp hnone)
    exact (claimedOutcome_concat_timeout hclaimed).symm

/-- The branch of the handler. -/
theorem Loops.onHandler (h : s.Loops log) (hrunning : s.executionFinished = false)
    (result : HandlerResult) :
    ({ s with handler := .completed }.onHandler result).Tells
      (log ++ [ExecutionStep.handler result]) := by
  refine Loops.loopTop ⟨?_, h.heartbeat, fun hunforced => ?_⟩
  · exact h.toHolds.concat (fun _ h => by cases h) (fun _ _ h => by cases h)
      rfl rfl (Bool.or_true _).symm fun hforced => hforced.elim id (fun h => by cases h)
  · have hunforced : s.forcedShutdownRequested = false := hunforced
    rw [claimedOutcome_concat_handler (h.not_returned hrunning), ← h.outcome hunforced]
    cases s.requestedOutcome with
    | none => simp [hunforced]
    | some outcome => simp

/-- The branch of a heartbeat that lost its lease, or whose renewal is not confirmed. -/
theorem Holds.onLeaseFailure (h : s.Holds log) (now : Instant) (failure : HeartbeatFailure)
    (log' : List ExecutionStep) : (s.onLeaseFailure now failure).Tells log' := by
  unfold ClaimExecution.onLeaseFailure
  dsimp only
  split
  next hcleanup => exact ⟨h.finishes, h.handler_pending hcleanup.1⟩
  next => exact .inl h.finishes

/-- The branch of a heartbeat whose attempt was revoked. -/
theorem Holds.onRevoked (h : s.Holds log) (now leaseDeadline : Instant) :
    (s.onRevoked now leaseDeadline).Tells
      (log ++ [ExecutionStep.heartbeat (.ok (.revoked leaseDeadline))]) := by
  have hholds : { s with heartbeatStopped := true, timeoutCleanupPending := false }.Holds
      (log ++ [ExecutionStep.heartbeat (.ok (.revoked leaseDeadline))]) :=
    h.concat (fun _ h => by cases h) (fun _ _ h => by cases h)
      rfl h.handler (Bool.or_false _).symm fun hforced => hforced.elim id (fun h => by cases h)
  unfold ClaimExecution.onRevoked
  dsimp only
  split
  next hcleanup =>
    have hrevoked : (log ++ [ExecutionStep.heartbeat (.ok (.revoked leaseDeadline))]).any
        ExecutionStep.isRevoke = true := by
      rw [List.any_append]
      exact Bool.or_true _
    exact ⟨⟨hholds.finishes, hholds.handler, hholds.returned, hholds.forced, hholds.held,
      hholds.confirmed⟩, hcleanup.1, rfl, rfl, hrevoked⟩
  next => exact hholds.settleRevoke rfl rfl (claimedOutcome_concat_revoke rfl)

/-- The branch of the heartbeat. -/
theorem Loops.onHeartbeat (h : s.Loops log) (now : Instant)
    (result : Except HeartbeatFailure HeartbeatEnd) :
    ({ s with heartbeat := .completed }.onHeartbeat now result).Tells
      (log ++ [ExecutionStep.heartbeat result]) := by
  have hcompleted : { s with heartbeat := .completed }.Holds log :=
    ⟨h.finishes, h.handler, h.returned, h.forced, h.held, h.confirmed⟩
  rcases result with (⟨leaseDeadline⟩ | ⟨error, leaseDeadline⟩) | _ | leaseDeadline
  · exact hcompleted.onLeaseFailure now _ _
  · unfold ClaimExecution.onHeartbeat
    dsimp only
    split
    next hwithin =>
      -- the handler has returned, within the last confirmed lease
      have hreturned : Returned log := h.returned.mp hwithin.1
      refine Loops.loopTop ⟨?_, rfl, fun hunforced => ?_⟩
      · exact hcompleted.concat (fun _ h => by cases h) (fun _ _ _ => hreturned) rfl h.handler
          (Bool.or_false _).symm fun hforced => hforced.elim id (fun h => by cases h)
      · rw [claimedOutcome_concat_neutral rfl]
        exact h.outcome hunforced
    next => exact hcompleted.onLeaseFailure now _ _
  · refine Loops.loopTop ⟨?_, rfl, fun hunforced => ?_⟩
    · exact hcompleted.concat (fun _ h => by cases h) (fun _ _ h => by cases h)
        rfl h.handler (Bool.or_false _).symm fun hforced => hforced.elim id (fun h => by cases h)
    · rw [claimedOutcome_concat_neutral rfl]
      exact h.outcome hunforced
  · exact hcompleted.onRevoked now leaseDeadline

/-- The inner `select!` of a revoked attempt. -/
theorem Tells.revoking {deadline : Instant} (h : s.Tells log)
    (hcontrol : s.control = .revoking deadline) (hok : s.exec event = .ok s') :
    s'.Tells (log ++ [event.step]) := by
  rw [Tells, hcontrol] at h
  obtain ⟨hholds, hrunning, hstopped, hpending, hrevoked⟩ := h
  have hclaimed : claimedOutcome (log ++ [event.step]) = some .revoked :=
    claimedOutcome_concat_of_revoked hrevoked
  obtain ⟨now, step⟩ := event
  cases step with
  | forcedCancellation =>
    simp only [exec, hcontrol] at hok
    cases hok
    refine Holds.settleRevoke ?_ hstopped hpending hclaimed
    exact hholds.concat (fun _ h => by cases h) (fun _ _ h => by cases h)
      rfl hholds.handler (Bool.or_false _).symm fun _ => rfl
  | cleanupGraceElapsed =>
    simp only [exec, hcontrol] at hok
    split at hok
    · cases hok
      refine Holds.settleRevoke ?_ hstopped hpending hclaimed
      exact hholds.concat (fun _ h => by cases h) (fun _ _ h => by cases h)
        rfl hholds.handler (Bool.or_false _).symm
        fun hforced => hforced.elim id (fun h => by cases h)
    · cases hok
  | handler result =>
    simp only [exec, hcontrol] at hok
    cases hok
    refine Holds.settleRevoke ?_ hstopped hpending hclaimed
    exact hholds.concat (fun _ h => by cases h) (fun _ _ h => by cases h)
      rfl rfl (Bool.or_true _).symm fun hforced => hforced.elim id (fun h => by cases h)
  | _ =>
    simp only [exec, hcontrol] at hok
    cases hok

/-- The inner `select!` of an attempt whose lease is lost. -/
theorem Tells.failing {failure : HeartbeatFailure} {deadline : Instant} (h : s.Tells log)
    (hcontrol : s.control = .failing failure deadline) (hok : s.exec event = .ok s') :
    s'.Tells (log ++ [event.step]) := by
  rw [Tells, hcontrol] at h
  obtain ⟨hfinishes, -⟩ := h
  obtain ⟨now, step⟩ := event
  cases step with
  | forcedCancellation | handler =>
    simp only [exec, hcontrol] at hok
    cases hok
    exact .inl hfinishes
  | cleanupGraceElapsed =>
    simp only [exec, hcontrol] at hok
    split at hok
    · cases hok
      exact .inl hfinishes
    · cases hok
  | _ =>
    simp only [exec, hcontrol] at hok
    cases hok

/-- The `select!` of the loop. -/
theorem Tells.selecting (h : s.Tells log) (hcontrol : s.control = .selecting)
    (hok : s.exec event = .ok s') : s'.Tells (log ++ [event.step]) := by
  rw [Tells, hcontrol] at h
  obtain ⟨hloops, -⟩ := h
  obtain ⟨now, step⟩ := event
  cases step with
  | forcedCancellation =>
    simp only [exec, hcontrol] at hok
    split at hok <;> cases hok
    exact hloops.forcedCancellation
  | cancellation =>
    simp only [exec, hcontrol] at hok
    split at hok <;> cases hok
    exact hloops.cancelled _
  | shutdownGraceElapsed =>
    simp only [exec, hcontrol] at hok
    split at hok <;> cases hok
    exact hloops.onShutdownGraceElapsed
  | timeout =>
    simp only [exec, hcontrol] at hok
    split at hok
    next hready =>
      cases hok
      exact hloops.onTimeout hready.1 now
    next => cases hok
  | heartbeat result =>
    simp only [exec, hcontrol] at hok
    split at hok <;> cases hok
    exact hloops.onHeartbeat now result
  | handler result =>
    simp only [exec, hcontrol] at hok
    split at hok
    next => cases hok
    next hrunning =>
      cases hok
      exact hloops.onHandler (Bool.eq_false_iff.mpr hrunning) result
  | _ =>
    simp only [exec, hcontrol] at hok
    cases hok

/-- **Step lemma**. -/
theorem Tells.exec (h : s.Tells log) (hok : s.exec event = .ok s') :
    s'.Tells (log ++ [event.step]) := by
  cases hcontrol : s.control with
  | selecting => exact h.selecting hcontrol hok
  | revoking deadline => exact h.revoking hcontrol hok
  | failing failure deadline => exact h.failing hcontrol hok
  | stopping outcome =>
    rw [Tells, hcontrol] at h
    obtain ⟨now, step⟩ := event
    cases step <;> simp only [ClaimExecution.exec, hcontrol] at hok <;> cases hok
    exact ⟨h.1, rfl, h.2.concat rfl (fun h => by cases h) (fun _ h => by cases h)⟩
  | recording stopped =>
    rw [Tells, hcontrol] at h
    obtain ⟨hfinishes, hdropped, hfinish⟩ := h
    obtain ⟨now, step⟩ := event
    cases step <;> simp only [ClaimExecution.exec, hcontrol] at hok <;> cases hok
    refine .inr ⟨stopped.outcome, ?_, hdropped,
      hfinish.concat rfl (fun h => by cases h) (fun _ h => by cases h)⟩
    exact congrArg (· ++ [stopped.outcome]) hfinishes
  | finishing stopped =>
    rw [Tells, hcontrol] at h
    obtain ⟨now, step⟩ := event
    cases step <;> simp only [ClaimExecution.exec, hcontrol] at hok <;> cases hok
    rcases h with hnone | ⟨outcome, hone, hdropped, hfinish⟩
    · exact .inl hnone
    · exact .inr ⟨outcome, hone, hdropped,
        hfinish.concat rfl (fun h => by cases h) (fun _ h => by cases h)⟩
  | returned result =>
    rw [exec_returned hcontrol] at hok
    cases hok

end Steps

section Runs

theorem tells_start (shutdownGrace : ℕ) (claim : ActivityClaim) (leaseDeadline now : Instant) :
    (start shutdownGrace claim leaseDeadline now).Tells [] := by
  unfold start
  dsimp only
  split
  · exact .inl rfl
  · split
    · exact .inl rfl
    · exact .inl rfl
    · refine Loops.loopTop ⟨⟨rfl, rfl, ?_, (fun h => by cases h),
        (fun _ h => by cases h), (fun _ _ h => by cases h)⟩, rfl, fun _ => rfl⟩
      exact ⟨(fun h => by cases h), fun ⟨_, hmem⟩ => absurd hmem List.not_mem_nil⟩

/-- **Run lemma**. -/
theorem tells_run (h : s.Tells []) (events : List ExecutionEvent) :
    (s.run events).Tells (s.history events) := by
  have htells : (s.run events).Tells ([] ++ s.history events) := by
    refine Machine.run_collect (P := fun s log => Tells log s) ?_ h events
    intro s log event h
    cases hexec : s.exec event with
    | error e =>
      rw [Machine.step_of_error hexec, seen, hexec, List.append_nil]
      exact h
    | ok s' =>
      rw [Machine.step_of_ok hexec, seen, hexec]
      exact h.exec hexec
  rwa [List.nil_append] at htells

end Runs

/-- A `select!` with no branch left, or a future that is polled after it has ended. -/
def Panics (s : ClaimExecution) : Prop :=
  (s.control = .selecting ∧ s.polls = []) ∨
    (.heartbeat ∈ s.polls ∧ s.heartbeat ≠ .pending) ∨ (.handler ∈ s.polls ∧ s.handler ≠ .pending)

theorem Tells.not_panics (h : s.Tells log) : ¬s.Panics := by
  cases hcontrol : s.control with
  | selecting =>
    rw [Tells, hcontrol] at h
    obtain ⟨hloops, hunforced⟩ := h
    rintro (⟨-, hnone⟩ | ⟨hpolls, hheartbeat⟩ | ⟨hpolls, hhandler⟩)
    · -- the forced cancellation or the heartbeat is polled
      cases hstopped : s.heartbeatStopped with
      | true => simp [polls, hcontrol, hunforced hstopped] at hnone
      | false => simp [polls, hcontrol, hstopped] at hnone
    · cases hstopped : s.heartbeatStopped with
      | true => simp [polls, hcontrol, hstopped] at hpolls
      | false => exact hheartbeat (by rw [hloops.heartbeat, hstopped]; rfl)
    · cases hfinished : s.executionFinished with
      | true => simp [polls, hcontrol, hfinished] at hpolls
      | false => exact hhandler (hloops.handler_pending hfinished)
  | revoking deadline =>
    rw [Tells, hcontrol] at h
    rintro (⟨hselecting, -⟩ | ⟨hpolls, -⟩ | ⟨-, hhandler⟩)
    · cases hcontrol.symm.trans hselecting
    · simp [polls, hcontrol] at hpolls
    · exact hhandler (h.1.handler_pending h.2.1)
  | failing failure deadline =>
    rw [Tells, hcontrol] at h
    rintro (⟨hselecting, -⟩ | ⟨hpolls, -⟩ | ⟨-, hhandler⟩)
    · cases hcontrol.symm.trans hselecting
    · simp [polls, hcontrol] at hpolls
    · exact hhandler h.2
  | stopping | recording | finishing | returned =>
    rintro (⟨hselecting, -⟩ | ⟨hpolls, -⟩ | ⟨hpolls, -⟩)
    · cases hcontrol.symm.trans hselecting
    · simp [polls, hcontrol] at hpolls
    · simp [polls, hcontrol] at hpolls

/-- The claims that were finished. -/
theorem Tells.finishes (h : s.Tells log) : s.finishes = [] ∨
    ∃ outcome, s.finishes = [outcome] ∧ s.handler = .dropped ∧ MayFinish log outcome := by
  cases hcontrol : s.control with
  | selecting =>
    rw [Tells, hcontrol] at h
    exact .inl h.1.finishes
  | revoking deadline =>
    rw [Tells, hcontrol] at h
    exact .inl h.1.finishes
  | failing | stopping | recording =>
    rw [Tells, hcontrol] at h
    exact .inl h.1
  | finishing | returned =>
    rw [Tells, hcontrol] at h
    exact h

/-- **Execution of a claim**: after any run of `execute_claim`, its `select!` has a branch, and
polls neither a heartbeat nor a handler that has ended; the claim was finished once at most,
after its handler future was dropped. It was finished only if no lease was reported lost, no
renewal was reported unconfirmed before the handler returned and no forced cancellation was
seen, and then with the outcome of what was seen. -/
theorem run_finishes (shutdownGrace : ℕ) (claim : ActivityClaim) (leaseDeadline now : Instant)
    (events : List ExecutionEvent) :
    let start := start shutdownGrace claim leaseDeadline now
    let s := start.run events
    ¬s.Panics ∧ s.finishes.length ≤ 1 ∧ (s.finishes ≠ [] → s.handler = .dropped) ∧
    ∀ outcome ∈ s.finishes,
      (∀ deadline, .heartbeat (.error (.leaseLost deadline)) ∉ start.history events) ∧
      (∀ error deadline, .heartbeat (.error (.unconfirmed error deadline)) ∉
        untilReturn (start.history events)) ∧
      .forcedCancellation ∉ start.history events ∧
      claimedOutcome (start.history events) = some outcome := by
  intro start s
  have htells := tells_run (tells_start shutdownGrace claim leaseDeadline now) events
  refine ⟨htells.not_panics, ?_⟩
  rcases htells.finishes with hnone | ⟨outcome, hone, hdropped, hfinish⟩
  · have hnone : s.finishes = [] := hnone
    rw [hnone]
    exact ⟨Nat.zero_le 1, fun hne => absurd rfl hne, fun _ hmem => absurd hmem List.not_mem_nil⟩
  · have hone : s.finishes = [outcome] := hone
    rw [hone]
    refine ⟨Nat.le_refl 1, fun _ => hdropped, fun outcome' hmem => ?_⟩
    rw [List.mem_singleton.mp hmem]
    exact ⟨hfinish.held, hfinish.confirmed, hfinish.unforced, hfinish.outcome⟩

/-- An undisturbed execution finishes with the result of its handler. -/
example (shutdownGrace : ℕ) (claim : ActivityClaim) (result : HandlerResult)
    (hlease : claim.row.leaseDurationMillis = 30000) (htimeout : claim.row.timeoutMillis = 20000) :
    ((start shutdownGrace claim 30000000000 0).run [⟨1, .handler result⟩,
      ⟨2, .heartbeat (.ok .stopped)⟩, ⟨2, .stop⟩, ⟨3, .recorded⟩]).finishes =
        [dispatchOutcome result] := by
  simp only [start, hlease, htimeout]
  rfl

end ClaimExecution

end DurableWorkflows
