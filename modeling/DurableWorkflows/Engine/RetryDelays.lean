import DurableWorkflows.Engine.Budget
import DurableWorkflows.Policy.Delays

/-!
# Retry delays

A retry policy carries the bounds that keep each of its delays, with the jitter at its
widest, in the range of a duration column. The attempt of a failure is never zero and a
percentile never above a hundred, so the three transactions that compute a delay do not
fail over it.

## Main definitions

- `DurableError.isDelayFault`: the errors of a delay computation

## Main results

- `run_retryDelays`
-/

namespace DurableWorkflows

open Transaction

variable {externals : Externals} {s : Sys} {db : DB} {now : DbMillis} {α : Type}

/-- An error of `delay_for_attempt`, or of `duration_millis`. -/
def DurableError.isDelayFault : DurableError → Bool
  | .invalidDefinition message =>
    message == "attempt numbers are one-based" || message == "jitter percentile cannot exceed 100" ||
      message == "duration exceeds the database range"
  | _ => false

/-- The errors of a transaction whose delays are in range. -/
abbrev InRange (e : DurableError) : Prop := e.isDelayFault = false

-- ════════════════════════════════════════════════════════════════════════
-- Delays
-- ════════════════════════════════════════════════════════════════════════

theorem Externals.jitterPercentile_le (externals : Externals) (seed : String) :
    externals.jitterPercentile seed ≤ 100 :=
  Nat.le_of_lt_succ (Nat.mod_lt _ (by decide))

namespace RetryPolicy

/-- The delay with the jitter of a seed, and its distance from the base. -/
theorem seededDelay (policy : RetryPolicy) (externals : Externals) (seed : String) {attempt : ℕ}
    (hattempt : 1 ≤ attempt) :
    ∃ delay : ℕ, policy.delayForAttempt attempt (externals.jitterPercentile seed) = .ok delay ∧
      |(delay : ℤ) - policy.backoff.baseDelay attempt| * 100 ≤
        policy.backoff.baseDelay attempt * policy.backoff.jitterPercent := by
  have hpercentile := externals.jitterPercentile_le seed
  refine ⟨_, policy.delayForAttempt_eq hattempt hpercentile, ?_⟩
  obtain ⟨hbase, hjitter⟩ := policy.bounds
  exact applyJitter_distance ((Nat.mul_le_mul_left 2 (hbase attempt)).trans (by decide)) hjitter
    hpercentile

/-- A jittered delay is at most twice its base, and so in the range of the column. -/
theorem durationMillis_delay (policy : RetryPolicy) {attempt delay : ℕ}
    (hdelay : |(delay : ℤ) - policy.backoff.baseDelay attempt| * 100 ≤
      policy.backoff.baseDelay attempt * policy.backoff.jitterPercent) :
    durationMillis (delay * 1000) = .ok ↑(delay * 1000) := by
  obtain ⟨hbase, hjitter⟩ := policy.bounds
  have hwidth : (policy.backoff.baseDelay attempt * policy.backoff.jitterPercent : ℤ) ≤
      policy.backoff.baseDelay attempt * 100 :=
    mul_le_mul_of_nonneg_left (by exact_mod_cast hjitter) (Int.natCast_nonneg _)
  have hle := le_abs_self ((delay : ℤ) - policy.backoff.baseDelay attempt)
  have hmax : (policy.backoff.baseDelay attempt : ℤ) ≤ 9223372036854775807 / 2000 := by
    exact_mod_cast hbase attempt
  refine if_pos ?_
  unfold DbMillis.max
  push_cast
  omega

end RetryPolicy

/-- The next attempt of a workflow is not zero. -/
theorem one_le_nextAttempt (attempts : ℕ) : 1 ≤ I32.saturatingAdd attempts 1 :=
  le_min (Nat.le_add_left 1 attempts) (by decide)

theorem recoveryAvailableAt_ok {row : ActivityRow} {exhausted : Bool}
    (hattempt : 1 ≤ row.attemptCount) :
    ∃ availableAt, recoveryAvailableAt externals row exhausted now = .ok availableAt := by
  unfold recoveryAvailableAt
  split
  · exact ⟨_, rfl⟩
  split
  · exact ⟨_, rfl⟩
  · rename_i policy _
    obtain ⟨delay, hdelay, hdistance⟩ := policy.seededDelay externals
      s!"activity:{row.id}:lease_recovery:{row.attemptCount}" hattempt
    refine ⟨DbMillis.saturatingPlusMillis now ↑(delay * 1000), ?_⟩
    simp only [hdelay, policy.durationMillis_delay hdistance, bind, Except.bind, pure, Except.pure]

-- ════════════════════════════════════════════════════════════════════════
-- The errors of the statements
-- ════════════════════════════════════════════════════════════════════════

section Statements

variable {E : DurableError → Prop} [Keyed α] {T : TableOf DB α} {i : ℕ} {w : WorkflowId}

theorem raises_fencedUpdate {p : α → Bool} {f : α → α} {hf} (h : E .fencedWrite) :
    Raises E (fencedUpdate T i p f hf) := by
  refine .bind (fun db => ?_) fun changed => .ensure _ h
  rw [wp_updateRow]
  exact ⟨fun _ _ _ => trivial, fun _ => trivial⟩

theorem raises_firstRow (h : E (.database .notFound)) : Raises E (firstRow T i) :=
  .bind (fun _ => trivial) fun _ => .orAbort _ h

theorem raises_nextEventSequence (h : E (.invalidState .eventSequenceOverflow)) :
    Raises E (nextEventSequence w) :=
  .bind .read fun _ => .orAbort _ h

theorem raises_appendEvent {e : WorkflowEventRow}
    (h : ∀ key, E (.database (.uniqueViolation key))) : Raises E (appendEvent e) :=
  .bind .read fun _ => .bind (.ensure _ (h _)) fun _ => .bind (.ensure _ (h _)) fun _ => .modify _

/-- The errors of an append. -/
structure AppendErrors (E : DurableError → Prop) : Prop where
  full : E (.invalidState .eventSequenceOverflow)
  duplicate : ∀ key, E (.database (.uniqueViolation key))

theorem raises_appendHistoryEvent {eventType : EventType} {actorType : ActorType}
    {actorId reason : Option String} {metadata : Option EventMetadata} (h : AppendErrors E) :
    Raises E (appendHistoryEvent w eventType actorType actorId reason metadata now) :=
  .bind (raises_nextEventSequence h.full) fun _ => raises_appendEvent h.duplicate

theorem raises_appendDelivery {n : ℕ} {eventType : EventType} {actorType : ActorType}
    {actorId reason : Option String} {metadata : Option EventMetadata} (h : AppendErrors E) :
    Raises E (appendDelivery w n eventType metadata actorType actorId reason now) :=
  .bind (raises_nextEventSequence h.full) fun _ => raises_appendEvent h.duplicate

theorem raises_updateOpenAttempt {a : ActivityId} {n : ℕ} {token : LeaseToken}
    {f : ActivityAttemptRow → ActivityAttemptRow} (h : E .fencedWrite) :
    Raises E (updateOpenAttempt a n token f) :=
  .bind .read fun _ => .bind (.orAbort _ h) fun _ => .modify _

end Statements

-- ════════════════════════════════════════════════════════════════════════
-- The errors of the transactions
-- ════════════════════════════════════════════════════════════════════════

theorem appendErrors_inRange : AppendErrors InRange := ⟨rfl, fun _ => rfl⟩

theorem inRange_ensureSize {field value : String} {maxBytes : ℕ} {e : DurableError}
    (h : ensureSize field value maxBytes = .error e) : InRange e := by
  unfold ensureSize at h
  split at h <;> cases h
  rfl

theorem inRange_newChild {kind : String} {version : ℤ} {output : String} {e : DurableError}
    (h : StepResult.newChild kind version output = .error e) : InRange e := by
  rcases bind_eq_error h with hsize | ⟨-, -, hok⟩
  · exact inRange_ensureSize hsize
  · cases hok

theorem inRange_newActivity {kind : String} {version : ℤ} {output : String} {e : DurableError}
    (h : StepResult.newActivity kind version output = .error e) : InRange e := by
  rcases bind_eq_error h with hsize | ⟨-, -, hok⟩
  · exact inRange_ensureSize hsize
  · cases hok

theorem inRange_wait {row : WorkflowRow} {e : DurableError} (h : row.wait = .error e) :
    InRange e := by
  unfold WorkflowRow.wait Wait.parse at h
  split at h <;> try split at h
  all_goals cases h
  all_goals rfl

theorem inRange_childOutcomeEvent {n : ℕ} {kind : String} {version : ℤ} {outcome : ChildOutcome}
    {e : DurableError} (h : childOutcomeEvent n kind version outcome = .error e) : InRange e := by
  cases outcome with
  | error failure => cases h
  | ok output =>
    rcases bind_eq_error h with hresult | ⟨_, -, hok⟩
    · exact inRange_newChild hresult
    · cases hok

theorem inRange_wakeWaitingParents {child : WorkflowRow} {outcome : ChildOutcome} :
    Raises InRange (wakeWaitingParentsOnChildTerminal child outcome now) := by
  refine .bind (fun _ => trivial) fun _ => .forEach fun parent => ?_
  unfold wakeLoadedParentOnChildTerminal
  -- the two branches of the wait go on in the same way
  refine .ite (fun _ => .bind (.ofExcept fun _ => inRange_wait) fun _ => ?_)
    fun _ => .bind (.pure none) fun _ => ?_
  all_goals
    refine .ite (fun _ => ?_) fun _ => .pure ()
    refine .bind (.ofExcept fun _ => inRange_childOutcomeEvent) fun _ => ?_
    refine .bind (.orAbort _ rfl) fun _ => ?_
    exact .bind (raises_appendDelivery appendErrors_inRange) fun _ => raises_fencedUpdate rfl

/-- The computation of a stored delay does not fail. -/
theorem inRange_delay {policy : RetryPolicy} {attempt : ℕ} {seed : String} {g : ℤ → Tx α}
    (hattempt : 1 ≤ attempt) (hg : ∀ millis, Raises InRange (g millis)) :
    Raises InRange (do
      let delay ← Transaction.ofExcept
        (policy.delayForAttempt attempt (externals.jitterPercentile seed))
      let delayMillis ← Transaction.ofExcept (durationMillis (delay * 1000))
      g delayMillis) := by
  obtain ⟨delay, hdelay, hdistance⟩ := policy.seededDelay externals seed hattempt
  rw [hdelay]
  refine .ofExcept_bind (fun e he => by cases he) fun delay' hdelay' => ?_
  cases hdelay'
  rw [policy.durationMillis_delay hdistance]
  exact .ofExcept_bind (fun e he => by cases he) fun millis _ => hg millis

/-- An activation failure is recorded whatever its delay. -/
theorem inRange_recordActivationFailure {config : CoordinatorConfig} {claim : ClaimedRow}
    {message : String} :
    Raises InRange (recordActivationFailure externals config claim message now) := by
  refine .bind (fun _ => trivial) fun _ => .bind (.orAbort _ rfl) fun current => ?_
  refine inRange_delay (one_le_nextAttempt current.activationAttempts) fun delayMillis => ?_
  refine .bind (raises_fencedUpdate rfl) fun _ => ?_
  refine .bind (raises_appendHistoryEvent appendErrors_inRange) fun _ => ?_
  exact .onlyIf inRange_wakeWaitingParents

theorem inRange_blockWorkflow {row : ActivityRow} {category message : String} :
    Raises InRange (blockWorkflow row category message now) :=
  .bind (raises_fencedUpdate rfl) fun _ => raises_appendHistoryEvent appendErrors_inRange

theorem inRange_settleRevoked {row : ActivityRow} {outcome : AttemptOutcome} {message : String} :
    Raises InRange (settleRevoked row outcome message now) := by
  refine .bind (.orAbort _ rfl) fun token => .bind (raises_firstRow rfl) fun workflow => ?_
  refine .bind (.bind (.orAbort _ rfl) fun _ => raises_updateOpenAttempt rfl) fun _ => ?_
  exact .bind (raises_fencedUpdate rfl) fun _ => raises_appendHistoryEvent appendErrors_inRange

theorem inRange_deadLetter {claim : ActivityClaim} {row : ActivityRow} {category message : String} :
    Raises InRange (deadLetter claim row category message now) :=
  .bind (raises_fencedUpdate rfl) fun _ =>
    .bind (raises_updateOpenAttempt rfl) fun _ => inRange_blockWorkflow

theorem inRange_finishSucceeded {claim : ActivityClaim} {output : String} :
    Raises InRange (finishSucceeded claim output now) := by
  refine .bind (raises_fencedUpdate rfl) fun _ => .bind (raises_updateOpenAttempt rfl) fun _ => ?_
  refine .bind (raises_firstRow rfl) fun workflow => .bind (.ensure _ rfl) fun _ => ?_
  refine .bind (.ofExcept fun _ => inRange_newActivity) fun _ => ?_
  exact .bind (raises_appendDelivery appendErrors_inRange) fun _ => raises_fencedUpdate rfl

theorem inRange_finishRetry {claim : ActivityClaim} {category message : String}
    (hattempt : 1 ≤ claim.attemptNumber) :
    Raises InRange (finishRetry externals claim category message now) := by
  refine inRange_delay hattempt fun delayMillis => .bind (raises_fencedUpdate rfl) fun _ => ?_
  exact .bind (raises_updateOpenAttempt rfl) fun _ => raises_appendHistoryEvent appendErrors_inRange

theorem inRange_revokeOutcome {row : ActivityRow} {e : DurableError}
    (h : revokeOutcome row = .error e) : InRange e := by
  unfold revokeOutcome at h
  split at h
  · cases h
    rfl
  · split at h <;> cases h
    rfl

/-- An attempt is finished whatever the delay of its retry. -/
theorem inRange_finishOnConnection {claim : ActivityClaim} {outcome : ExecutionOutcome}
    (hattempt : 1 ≤ claim.attemptNumber) :
    Raises InRange (finishOnConnection externals claim outcome now) := by
  refine .bind (raises_firstRow rfl) fun _ => .bind (fun _ => trivial) fun _ => ?_
  refine .bind (.orAbort _ rfl) fun row => ?_
  split
  · exact .bind (.ofExcept fun _ => inRange_revokeOutcome) fun _ => inRange_settleRevoked
  · exact .abort rfl
  · exact inRange_finishSucceeded
  · exact .ite (fun _ => inRange_deadLetter) fun _ => inRange_finishRetry hattempt
  · exact inRange_deadLetter
  all_goals exact .abort rfl

/-- An expired lease is reconciled whatever the delay of its recovery. -/
theorem inRange_expireRunning {workflow : WorkflowRow} {row : ActivityRow}
    (hattempt : 1 ≤ row.attemptCount) :
    Raises InRange (expireRunning externals workflow row now) := by
  refine .bind (.orAbort _ rfl) fun token => ?_
  refine .bind (.ofExcept fun e he => ?_) fun availableAt => ?_
  · obtain ⟨availableAt, hok⟩ : ∃ availableAt, recoveryAvailableAt externals row
        (decide (row.maxAttempts ≤ row.attemptCount)) now = .ok availableAt :=
      recoveryAvailableAt_ok hattempt
    rw [hok] at he
    cases he
  refine .bind (raises_fencedUpdate rfl) fun _ => .bind (raises_updateOpenAttempt rfl) fun _ => ?_
  refine .bind (raises_appendHistoryEvent appendErrors_inRange) fun _ => ?_
  exact .onlyIf inRange_blockWorkflow

theorem inRange_reconcileCandidate {locks : HeldLocks} {topic : String} {candidate : ActivityRow}
    (hs : db.Sound) :
    wp (reconcileCandidate externals locks topic now candidate) (fun _ _ => True) InRange db := by
  simp only [reconcileCandidate, wp_bind, wp_findRow, workflowTable_get]
  split
  · trivial
  rename_i workflow _
  simp only [wp_bind, wp_findRow, activityTable_get]
  split
  · trivial
  rename_i row hrow
  obtain ⟨hfind, hexpired⟩ := Option.filter_eq_some_iff.mp hrow
  simp only [expiredHolder, Bool.and_eq_true] at hexpired
  obtain ⟨attempt, r, hl⟩ := hs.leased hfind hexpired.1.2
  have hattempt : 1 ≤ row.attemptCount :=
    ((hs.inv hl.row).ledger _ row hl.attempt.stored).started hexpired.1.2
  split
  · exact Raises.bind (inRange_expireRunning hattempt) (fun _ => .pure _) db
  · exact Raises.bind inRange_settleRevoked (fun _ => .pure _) db
  all_goals exact rfl

/-- Expired leases are reconciled whatever the delays of their recovery. -/
theorem inRange_reconcileExpired {locks : HeldLocks} {topic : String} (hs : db.Sound) :
    wp (reconcileExpired externals locks topic now)
      (fun _ db' => Evolves (fun _ l => l.closes) db db') InRange db := by
  refine wp_reconcileExpired_of hs (fun {candidate db₁} hs₁ hcandidate => ?_) fun _ _ hev => hev
  have hev : wp (reconcileCandidate externals locks topic now candidate)
      (fun _ db₂ => Evolves (fun _ l => l.closes) db₁ db₂) Benign db₁ :=
    wp_reconcileCandidate hs₁ hcandidate fun _ _ hev => hev
  exact wp_mono (wp_and hev (inRange_reconcileCandidate hs₁)) (fun _ _ h => h.1) fun _ h => h.2

section Claims

variable {registry : ActivityRegistry} {locks : HeldLocks} {topic workerId : String}
  {token : LeaseToken} {started : Instant} {topics : List TopicDefinition}

theorem inRange_quarantineCandidate {row : ActivityRow} {reason message : String} :
    Raises InRange (quarantineCandidate row reason message now) :=
  .bind (raises_fencedUpdate rfl) fun _ =>
    .bind (raises_appendHistoryEvent appendErrors_inRange) fun _ => inRange_blockWorkflow

theorem inRange_tryLeaseDeadline {millis : ℤ} {e : DurableError}
    (h : tryLeaseDeadlineFromSample started millis = .error e) : InRange e := by
  rcases bind_eq_error h with hduration | ⟨duration, -, hdeadline⟩
  · unfold durationFromMillis at hduration
    split at hduration <;> cases hduration
    rfl
  · split at hdeadline <;> cases hdeadline
    rfl

theorem inRange_leaseCandidate {row : ActivityRow} {run : Option ScheduleRunId}
    {policy : RetryPolicy} :
    Raises InRange (leaseCandidate row run policy now started workerId token) := by
  refine .bind (.orAbort _ rfl) fun number => .bind (.orAbort _ rfl) fun expiry => ?_
  refine .bind (raises_fencedUpdate rfl) fun _ => ?_
  refine .bind (.bind .read fun _ => .bind (.ensure _ rfl) fun _ => .modify _) fun _ => ?_
  exact .bind (.ofExcept fun _ => inRange_tryLeaseDeadline) fun _ => .pure _

theorem inRange_claimLockedCandidate {a : ActivityId} {w : WorkflowId} :
    Raises InRange (claimLockedCandidate registry locks a w now started workerId token) := by
  have hquarantine : ∀ row reason message, Raises InRange (do
      quarantineCandidate row reason message now
      return (none : Option ActivityClaim)) := fun _ _ _ =>
    .bind inRange_quarantineCandidate fun _ => .pure _
  refine .bind (fun _ => trivial) fun workflow => ?_
  split
  · exact .pure _
  refine .bind (fun _ => trivial) fun row => ?_
  split
  · exact .pure _
  refine .ite (fun _ => .pure _) fun _ => .ite (fun _ => hquarantine _ _ _) fun _ => ?_
  refine .ite (fun _ => hquarantine _ _ _) fun _ => ?_
  split
  · exact hquarantine _ _ _
  · exact .bind inRange_leaseCandidate fun _ => .pure _

theorem inRange_claimFirst {candidates : List ActivityRow} :
    Raises InRange (claimFirst registry locks now started workerId token candidates) := by
  induction candidates with
  | nil => exact .pure _
  | cons candidate candidates ih =>
    refine .bind inRange_claimLockedCandidate fun claim => ?_
    cases claim with
    | none => exact ih
    | some claim => exact .pure _

theorem inRange_claimUpTo {limit wanted : ℕ} {candidates : List ActivityRow}
    {claims : List ActivityClaim} :
    Raises InRange (claimUpTo registry locks topic limit wanted now started workerId token candidates
      claims) := by
  induction candidates generalizing claims with
  | nil => exact .pure _
  | cons candidate candidates ih =>
    exact .ite (fun _ => .pure _) fun _ => .bind inRange_claimLockedCandidate fun _ => ih

/-- The unregistered topic is no delay. -/
theorem inRange_unregistered :
    InRange (.invalidDefinition s!"unregistered activity topic {topic}") := by
  have hhead : (s!"unregistered activity topic {topic}").toList.head? = some 'u' := by
    show ("unregistered activity topic " ++ toString topic).toList.head? = some 'u'
    rw [String.toList_append]
    rfl
  have hne : ∀ message : String, message.toList.head? ≠ some 'u' →
      (s!"unregistered activity topic {topic}" == message) = false := by
    intro message hmessage
    refine beq_eq_false_iff_ne.mpr ?_
    rintro rfl
    exact hmessage hhead
  simp only [InRange, DurableError.isDelayFault]
  rw [hne _ (by decide), hne _ (by decide), hne _ (by decide)]
  rfl

theorem inRange_claimOne (hs : db.Sound) :
    wp (claimOne externals registry topics locks topic workerId token now started)
      (fun _ _ => True) InRange db := by
  simp only [claimOne, wp_bind, wp_ensure, wp_read, wp_orAbort]
  refine ⟨fun _ => ⟨fun lock _ => ?_, fun _ => rfl⟩, fun _ => inRange_unregistered⟩
  refine wp_imp (inRange_reconcileExpired hs) fun unsettled db₁ _ => ?_
  simp only [inFlight, claimCandidates, wp_bind, wp_selectRows, wp_pure]
  refine Raises.ite (fun _ => .pure _) (fun _ => ?_) db₁
  exact .bind (.bind .read fun _ => fun _ => trivial) fun _ => inRange_claimFirst

theorem inRange_claimTopics {limit : ℕ} {capacity : List (String × ℕ)} {first : LeaseToken}
    {locked : List TopicLockRow} {claims : List ActivityClaim} {db₀ : DB} (hs : db₀.Sound)
    (h : BatchInv first db₀ claims db) :
    wp (claimTopics externals registry locks limit capacity workerId first now started locked claims)
      (fun _ _ => True) InRange db := by
  induction locked generalizing db claims with
  | nil => trivial
  | cons lock locked ih =>
    simp only [claimTopics, inFlight, claimCandidates, wp_bind]
    refine wp_imp (inRange_reconcileExpired (h.evolves.sound hs)) fun unsettled db₁ hev => ?_
    have h₁ := h.trans hs (hev.mono fun _ _ => Label.claimsFrom_of_closes)
    simp only [wp_selectRows, wp_pure]
    rw [wp_ite]
    refine ⟨fun _ => ih h₁, fun _ => ?_⟩
    rw [wp_ite]
    refine ⟨fun _ => trivial, fun _ => ?_⟩
    simp only [wp_bind, wp_read, wp_selectRows, wp_pure]
    exact wp_imp (inRange_claimUpTo.wp_and (wp_claimUpTo hs h₁)) fun claims db₂ h₂ => ih h₂

theorem inRange_claimBatch {limit : ℕ} {capacity : List (String × ℕ)} (hs : db.Sound) :
    wp (claimBatch externals registry topics locks limit capacity workerId token now started)
      (fun _ _ => True) InRange db := by
  simp only [claimBatch, wp_bind, wp_read]
  rw [wp_ite]
  exact ⟨fun _ => trivial, fun _ => inRange_claimTopics hs ⟨.refl db, by simp⟩⟩

end Claims

-- ════════════════════════════════════════════════════════════════════════
-- Runs
-- ════════════════════════════════════════════════════════════════════════

/-- The actions that compute a delay: an activation failure, a finish, and the claims with their
reconciliation of expired leases. -/
def Action.delaysRetry : Action → Bool
  | .failActivation .. | .finish .. | .claimActivity .. | .claimActivities .. => true
  | _ => false

theorem error_of_transact {x : Tx α} {record : α → Sys → Sys} {E : DurableError → Prop}
    {e : DurableError} (hx : wp x (fun _ _ => True) E s.db) (h : s.transact x record = .error e) :
    E e := by
  unfold Sys.transact at h
  cases hrun : x s.db with
  | ok r =>
    rw [hrun] at h
    cases h
  | error e' =>
    rw [hrun] at h
    cases h
    exact wp_error hx hrun

theorem error_of_nth {β : Type} {claims : List β} {i : ℕ} {f : β → Except DurableError Sys}
    {e : DurableError} (hf : ∀ claim ∈ claims, f claim = .error e → InRange e)
    (h : (Sys.nth claims i >>= f) = .error e) : InRange e := by
  rcases bind_eq_error h with hnth | ⟨claim, hnth, hf'⟩
  · unfold Sys.nth at hnth
    split at hnth <;> cases hnth
    rfl
  · unfold Sys.nth at hnth
    split at hnth
    · rename_i hclaim
      cases hnth
      exact hf _ (List.mem_of_getElem? hclaim) hf'
    · cases hnth

/-- The attempt of a claim is one that was recorded. -/
theorem ActivityClaimInv.one_le {claim : ActivityClaim} (h : ActivityClaimInv db claim)
    (hs : db.Sound) : 1 ≤ claim.attemptNumber := by
  obtain ⟨act, ha, -, -⟩ := h.stored
  obtain ⟨attempt, hattempt, -⟩ := h.attempt
  exact (((hs.attemptLedger ha).numbered _).mp (by rw [hattempt]; rfl)).1

/-- No action of a reachable state fails over the delay of a retry. -/
theorem exec_inRange {action : Action} {e : DurableError} (h : s.Inv)
    (haction : action.delaysRetry = true) (herror : exec externals s action = .error e) :
    InRange e := by
  cases action with
  | failActivation i config message now =>
    exact error_of_nth (fun claim _ =>
      error_of_transact (inRange_recordActivationFailure s.db)) herror
  | finish i outcome now =>
    refine error_of_nth (fun claim hclaim => error_of_transact ?_) herror
    have hinv := (h.activityClaims claim (h.finishable hclaim).1).2
    exact inRange_finishOnConnection (hinv.one_le h.sound) s.db
  | claimActivity =>
    rw [exec] at herror
    exact error_of_transact (inRange_claimOne h.sound) herror
  | claimActivities =>
    rw [exec] at herror
    exact error_of_transact (inRange_claimBatch h.sound) herror
  | _ => cases haction

/-- **Retry delays**. For every policy, seed and attempt from the first on, the computation of the
delay returns. Without jitter it is the initial delay doubled with each attempt up to its
maximum, which never shrinks; the jitter moves it by at most its percentage, and its
milliseconds are in the range of the column. So in every run neither an activation failure
nor a finish nor a reconciliation of expired leases ends in an error of a delay. -/
theorem run_retryDelays (externals : Externals) :
    (∀ policy : RetryPolicy,
      Monotone policy.backoff.baseDelay ∧
      (∀ initialSecs maxSecs jitterPercent attempt,
        policy.backoff = .exponential initialSecs maxSecs jitterPercent →
        policy.backoff.baseDelay attempt = min (initialSecs * 2 ^ (attempt - 1)) maxSecs) ∧
      ∀ attempt, 1 ≤ attempt →
        policy.delayForAttempt attempt 50 = .ok (policy.backoff.baseDelay attempt) ∧
        ∀ seed, ∃ delay : ℕ,
          policy.delayForAttempt attempt (externals.jitterPercentile seed) = .ok delay ∧
          |(delay : ℤ) - policy.backoff.baseDelay attempt| * 100 ≤
            policy.backoff.baseDelay attempt * policy.backoff.jitterPercent ∧
          durationMillis (delay * 1000) = .ok ↑(delay * 1000)) ∧
    ∀ actions action e, action.delaysRetry = true →
      exec externals (run externals Sys.init actions) action = .error e →
      e.isDelayFault = false := by
  refine ⟨fun policy => ⟨policy.backoff.baseDelay_mono, ?_, ?_⟩, ?_⟩
  · rintro initialSecs maxSecs jitterPercent attempt hbackoff
    rw [hbackoff]
    rfl
  · intro attempt hattempt
    refine ⟨policy.delayForAttempt_middle hattempt, fun seed => ?_⟩
    obtain ⟨delay, hdelay, hdistance⟩ := policy.seededDelay externals seed hattempt
    exact ⟨delay, hdelay, hdistance, policy.durationMillis_delay hdistance⟩
  · intro actions action e haction herror
    exact exec_inRange (run_inv externals actions) haction herror

end DurableWorkflows
