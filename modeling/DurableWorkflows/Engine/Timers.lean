import DurableWorkflows.Engine.Children
import DurableWorkflows.Engine.Waits

/-!
# Timers and approvals

A timer has no row of its own: its wake time is the `available_at` of the workflow
that sleeps. The column keeps it until the timer fires, whatever happens in between,
because every other writer of the column finds a workflow that does not wait for a
timer, or leaves it alone. An approval has a row, and while that row is pending the
workflow waits for it.

## Main definitions

- `Aggregate.SleepsUntil`: the workflow waits for a timer with a wake time
- `CommitsSleep`, `FiresTimer`: the two ends of a timer

## Main results

- `exec_sleepsUntil`: only a commit sets the wake time of a timer
- `run_timers`
-/

namespace DurableWorkflows

open Transaction Sys

variable {externals : Externals} {s s' : Sys} {db db' : DB} {g g' : Aggregate} {w : WorkflowId}
  {r : WorkflowRow} {l : Label} {n : ℕ} {t now : DbMillis} {action : Action}
  {e : WorkflowEventRow}

-- ════════════════════════════════════════════════════════════════════════
-- Wake times
-- ════════════════════════════════════════════════════════════════════════

/-- The workflow waits for the timer of its command `n`, possibly paused, and `t` is in
its `available_at`. -/
def Aggregate.SleepsUntil (g : Aggregate) (n : ℕ) (t : DbMillis) : Prop :=
  ∃ r, g.row = some r ∧ r.status.isTerminal = false ∧ r.awaited = some (.timer n) ∧
    r.availableAt = t

/-- A running workflow waits for nothing. -/
theorem RowInv.awaited_of_running (h : RowInv r) (hs : r.status = .running) : r.awaited = none := by
  have hallowed := h.allowed
  rw [hs] at hallowed
  simpa [WorkflowStatus.allows] using hallowed

/-- Only the commit of a timer and a resume write the wake time of a workflow that waits
for a timer. -/
theorem Step.sleepsUntil_of (h : Step g l g') (hg : g.WellFormed) (hl : l ≠ .resumed)
    (hs : g'.SleepsUntil n t) : g.SleepsUntil n t ∨ l = .waited (.timer n) := by
  obtain ⟨r', hr', ht, hw, htime⟩ := hs
  cases h with
  | inserted hrow =>
    cases hr'
    simp [WorkflowRow.awaited, hrow.waitKind] at hw
  | history | discarded | activityClaimed | renewed | released | settled =>
    exact .inl ⟨r', hr', ht, hw, htime⟩
  | claimed hr hs₀ =>
    cases hr'
    exact .inl ⟨_, hr, by rw [hs₀]; rfl, hw, htime⟩
  | recovered hr hs₀ | continued hr hs₀ | activationFailed hr hs₀ =>
    -- a running row waits for nothing
    cases hr'
    exact absurd (((hg.inv hr).row.awaited_of_running hs₀).symm.trans hw) fun h => by cases h
  | completed | superseded =>
    cases hr'
    cases ht
  | cancelled _ _ _ clear =>
    cases hr'
    cases clear <;> cases ht
  | slept | waitedApproval | waitedActivity | waitedChild =>
    cases hr'
    exact .inr (congrArg Label.waited (Option.some_inj.mp hw))
  | answered | answeredApproval | succeeded =>
    cases hr'
    cases hw
  | reattached | retried =>
    cases hr'
    cases hw
  | paused hr _ ht₀ =>
    cases hr'
    exact .inl ⟨_, hr, ht₀, hw, htime⟩
  | revoked _ _ hw₀ | deadLettered _ _ hw₀ | quarantined _ _ hw₀ =>
    cases hr'
    exact absurd (hw₀.symm.trans hw) fun h => by cases h
  | resumed => exact absurd rfl hl

theorem Steps.sleepsUntil_of {P : Label → Prop} (h : Steps P g g') (hg : g.WellFormed)
    (hP : ∀ l, P l → l ≠ .resumed ∧ l ≠ .waited (.timer n)) (hs : g'.SleepsUntil n t) :
    g.SleepsUntil n t := by
  induction h with
  | refl => exact hs
  | tail hsteps hstep ih =>
    obtain ⟨l, hl, hstep⟩ := hstep
    obtain ⟨hresumed, hwaited⟩ := hP l hl
    exact ih ((hstep.sleepsUntil_of (Steps.wellFormed hsteps hg) hresumed hs).resolve_right hwaited)

/-- A resume leaves the wake time of a timer alone. -/
theorem Resumed.sleepsUntil_of {status : WorkflowStatus} {w' : WorkflowId}
    (h : Resumed w' now status db db') (hs : (db'.aggregate w).SleepsUntil n t) :
    (db.aggregate w).SleepsUntil n t := by
  obtain ⟨r, e, hr, hpaused, hstatus, -, -, ht⟩ := h.resumed
  by_cases hw' : w = w'
  · subst hw'
    rw [ht.self] at hs
    obtain ⟨r', hr', -, hw, rfl⟩ := hs
    cases hr'
    have hawaited : r.awaited = some (.timer n) := hw
    have hsleeping : status = .sleeping := by
      rw [Aggregate.ResumesTo, hawaited] at hstatus
      exact hstatus
    subst hsleeping
    exact ⟨r, hr, by rw [hpaused]; rfl, hawaited, rfl⟩
  · rwa [ht.other w hw'] at hs

/-- The action is a commit of the workflow `w` that makes it sleep until `t`, under the
command `n`. -/
def CommitsSleep (w : WorkflowId) (n : ℕ) (t : DbMillis) (s : Sys) (action : Action) (s' : Sys) :
    Prop :=
  ∃ i config stateJson now claim event r, action = .commit i config (.sleepUntil stateJson t) now ∧
    s.activations[i]? = some (claim, event) ∧ claim.row.id = w ∧
    s'.db.workflows.find w = some r ∧ r.commandSequence = n

theorem Label.not_timer_of_accompanies (h : l.accompanies = true) :
    l ≠ .resumed ∧ l ≠ .waited (.timer n) := by
  refine ⟨?_, ?_⟩ <;>
  · rintro rfl
    cases h

/-- A commit that leaves a workflow asleep put it to sleep, or found it so. -/
theorem Commits.sleepsUntil_of {claim : ClaimedRow} {transition : StoredTransition}
    (h : Commits claim (Writes claim now db transition) db db') (hs : db.Sound)
    (hsleeps : (db'.aggregate w).SleepsUntil n t) :
    (db.aggregate w).SleepsUntil n t ∨
      claim.row.id = w ∧ ∃ stateJson, transition = .sleepUntil stateJson t := by
  by_cases hw : w = claim.row.id
  · subst hw
    obtain ⟨l, g, r, hl, hr, hwrites, hstep, hsteps⟩ := h.commit
    have hg := hstep.wellFormed (hs.wellFormed _)
    have hsleeps₁ := hsteps.sleepsUntil_of hg (fun _ => Label.not_timer_of_accompanies) hsleeps
    have hresumed : l ≠ .resumed := by
      rintro rfl
      cases hl
    refine (hstep.sleepsUntil_of (hs.wellFormed _) hresumed hsleeps₁).imp_right ?_
    rintro rfl
    obtain ⟨r', hr', -, -, rfl⟩ := hsleeps₁
    obtain rfl := Option.some_inj.mp (hr.symm.trans hr')
    generalize db'.lineage = lineage at hwrites
    cases hwrites with
    | slept _ hwake => exact ⟨rfl, _, by rw [hwake]⟩
  · exact .inl ((h.other w hw).sleepsUntil_of (hs.wellFormed w)
      (fun _ => Label.not_timer_of_accompanies) hsleeps)

/-- Only the commit that puts a workflow to sleep sets its wake time. -/
theorem exec_sleepsUntil (h : s.Inv) (hok : exec externals s action = .ok s')
    (hsleeps : (s'.db.aggregate w).SleepsUntil n t) :
    (s.db.aggregate w).SleepsUntil n t ∨ CommitsSleep w n t s action s' := by
  have hinv := h.sound.wellFormed w
  cases action with
  | commit i config transition now =>
    obtain ⟨claim, event, hi, -, hc⟩ := exec_commit_ok h hok
    refine (hc.sleepsUntil_of h.sound hsleeps).imp_right ?_
    rintro ⟨rfl, stateJson, rfl⟩
    obtain ⟨r, hr, ht, hw, -⟩ := hsleeps
    have hcommand : n = r.commandSequence :=
      ((exec_leads h hok).inv.sound.inv hr).awaited ht _ hw
    exact ⟨i, config, stateJson, now, claim, event, r, rfl, hi, rfl, hr, hcommand.symm⟩
  | resume workflow operator now =>
    rw [exec] at hok
    obtain ⟨status, db', hresume, rfl⟩ := transact'_ok hok
    exact .inl ((wp_ok (wp_resumeWorkflow h.sound h.attached) hresume).sleepsUntil_of hsleeps)
  | _ =>
    refine .inl (((exec_leads h hok).evolves.steps w).sleepsUntil_of hinv (fun l hl => ?_) hsleeps)
    refine ⟨?_, ?_⟩ <;>
    · rintro rfl
      cases hl.1

-- ════════════════════════════════════════════════════════════════════════
-- Firing
-- ════════════════════════════════════════════════════════════════════════

/-- The action appends the event `e` to the log of the workflow `w`, which sleeps, at a
time no earlier than `t`. -/
def FiresTimer (w : WorkflowId) (e : WorkflowEventRow) (t : DbMillis) (s : Sys) (action : Action)
    (s' : Sys) : Prop :=
  ∃ locked now r, action = .fireTimer locked now ∧ s.db.workflows.find w = some r ∧
    r.status = .sleeping ∧ t ≤ now ∧ e ∉ s.db.eventsOf w ∧ e ∈ s'.db.eventsOf w

/-- A step that appends the answer to a timer answers the timer. -/
theorem Step.mem_events_of (h : Step g l g') (hkind : e.answersKind = some .timer)
    (he : e ∈ g'.events) :
    e ∈ g.events ∨ ∃ r wait, l = .answered wait ∧ wait.kind = .timer ∧ g.row = some r ∧
      r.awaited = some wait ∧ e.answers = some r.commandSequence := by
  obtain he | ⟨-, hanswered⟩ | ⟨hactivity, -⟩ := h.appends_answer hkind he
  · exact .inl he
  · exact .inr hanswered
  · cases hactivity

/-- Steps that answer no timer append no such answer. -/
theorem Steps.mem_events_of {P : Label → Prop} (h : Steps P g g')
    (hP : ∀ l, P l → l.answersKind .timer = false) (hkind : e.answersKind = some .timer)
    (he : e ∈ g'.events) : e ∈ g.events := by
  induction h with
  | refl => exact he
  | tail _ hstep ih =>
    obtain ⟨l, hl, hstep⟩ := hstep
    refine ih ((hstep.mem_events_of hkind he).resolve_right ?_)
    rintro ⟨r, wait, rfl, hwait, -⟩
    have hnot := hP _ hl
    rw [Label.answersKind, hwait] at hnot
    cases hnot

/-- The first answer of a materializer is to the wait it found. -/
theorem Steps.answered_timer {P : Label → Prop} (h : Steps P g g')
    (hP : ∀ l, P l → l.answersKind .timer = true) (hkind : e.answersKind = some .timer)
    (he : e ∈ g'.events) :
    e ∈ g.events ∨ ∃ r wait, wait.kind = .timer ∧ g.row = some r ∧ r.awaited = some wait ∧
      e.answers = some r.commandSequence := by
  induction h using Relation.ReflTransGen.head_induction_on with
  | refl => exact .inl he
  | @head g g₁ hstep hsteps ih =>
    obtain ⟨l, hl, hstep⟩ := hstep
    rcases ih with he₁ | ⟨r, wait, -, hr, hw, -⟩
    · rcases hstep.mem_events_of hkind he₁ with he₀ | ⟨r, wait, -, hrest⟩
      · exact .inl he₀
      · exact .inr ⟨r, wait, hrest⟩
    · -- the wait is over after the first answer
      have hanswers := hP l hl
      cases hstep with
      | answered | answeredApproval =>
        cases hr
        cases hw
      | _ => cases hanswers

/-- Only the materializer appends the answer to a timer, once the timer is due. -/
theorem exec_firesTimer (h : s.Inv) (hok : exec externals s action = .ok s')
    (hkind : e.answersKind = some .timer) (he : e ∈ s'.db.eventsOf w) :
    e ∈ s.db.eventsOf w ∨ ∃ n t, e.answers = some n ∧ (s.db.aggregate w).SleepsUntil n t ∧
      FiresTimer w e t s action s' := by
  by_cases hold : e ∈ s.db.eventsOf w
  · exact .inl hold
  refine .inr ?_
  cases action with
  | fireTimer locked now =>
    rw [exec] at hok
    obtain ⟨o, db', hfire, rfl⟩ := transact'_ok hok
    have hev := wp_ok (wp_materializeTimer h.sound) hfire
    have hsteps := hev.steps w
    obtain ⟨r, wait, hwait, hr, hw, hanswers⟩ :=
      (hsteps.answered_timer (fun _ hl => hl.1) hkind he).resolve_left hold
    have hne : db'.aggregate w ≠ s.db.aggregate w := by
      intro heq
      have hevents : db'.eventsOf w = s.db.eventsOf w := congrArg Aggregate.events heq
      exact hold (hevents ▸ he)
    -- some step was taken, so the workflow was due
    have hdue : ∃ r, s.db.workflows.find w = some r ∧ r.status = .sleeping ∧ r.availableAt ≤ now := by
      by_contra hnot
      exact hne (hsteps.eq_of_false fun l hl => hnot hl.2)
    obtain ⟨r', hr', hsleeping, hle⟩ := hdue
    obtain rfl := Option.some_inj.mp (hr.symm.trans hr')
    have ht : r.status.isTerminal = false := by
      rw [hsleeping]
      rfl
    cases wait with
    | timer n =>
      obtain rfl : n = r.commandSequence := (h.sound.inv hr).awaited ht _ hw
      exact ⟨_, r.availableAt, hanswers, ⟨r, hr, ht, hw, rfl⟩, locked, now, r, rfl, hr', hsleeping,
        hle, hold, he⟩
    | _ => cases hwait
  | _ =>
    refine absurd (((exec_leads h hok).evolves.steps w).mem_events_of (fun l hl => ?_) hkind he) hold
    cases l with
    | answered wait =>
      cases wait with
      | timer n =>
        obtain ⟨hl, -⟩ := hl
        cases hl
      | _ => rfl
    | _ => rfl

-- ════════════════════════════════════════════════════════════════════════
-- Approvals
-- ════════════════════════════════════════════════════════════════════════

section Approvals

variable {p : ApprovalId} {approval : ApprovalRow} {registry : WorkflowRegistry}
  {decision : String} {operator : Operator}

/-- The error of a decision on an approval that its workflow does not wait for. -/
def approvalMismatch (p : ApprovalId) (w : WorkflowId) : DurableError :=
  .conflict s!"approval {p} no longer matches workflow {w}"

/-- The other conflicts of a decision have other texts. -/
theorem conflict_ne_approvalMismatch (status : String) :
    .conflict s!"approval {p} has expired" ≠ approvalMismatch p w ∧
      .conflict s!"approval {p} is already {status}" ≠ approvalMismatch p w := by
  refine ⟨fun h => ?_, fun h => ?_⟩
  all_goals
    have htail := congrArg String.toList (DurableError.conflict.inj h)
    simp only [String.toList_append, List.append_assoc, List.append_cancel_left_eq] at htail
  · have hchar : some 'h' = some 'n' := congrArg (·[1]?) htail
    exact absurd hchar (by decide)
  · have hchar : some 'i' = some 'n' := congrArg (·[1]?) htail
    exact absurd hchar (by decide)

theorem operatorActorId_ne_mismatch {e : DurableError} (h : operatorActorId operator = .error e) :
    e ≠ approvalMismatch p w := by
  unfold operatorActorId at h
  split at h
  · cases h
    exact nofun
  · split at h <;> cases h
    exact nofun

theorem ensureSize_ne_mismatch {e : DurableError} {field value : String} {maxBytes : ℕ}
    (h : ensureSize field value maxBytes = .error e) : e ≠ approvalMismatch p w := by
  unfold ensureSize at h
  split at h <;> cases h
  exact nofun

theorem validateApprovalExact_ne_mismatch {e : DurableError} {kind : String} {version : ℤ}
    (h : registry.validateApprovalExact kind version decision = .error e) :
    e ≠ approvalMismatch p w := by
  simp only [WorkflowRegistry.validateApprovalExact, WorkflowRegistry.workflowDefinition, codec,
    bind, Except.bind] at h
  split at h
  · rename_i hfind
    split at hfind <;> cases hfind
    cases h
    exact nofun
  · split at h
    · rename_i hcodec
      split at hcodec <;> cases hcodec <;> cases h <;> exact nofun
    · split at h
      · cases h
        exact ensureSize_ne_mismatch ‹_›
      · cases h

/-- A decision on a pending approval finds its workflow waiting for it. -/
theorem wp_resolveApproval_matches (hs : db.Sound) (hx : db.Attached ∅) :
    wp (resolveApproval externals registry p decision operator now) (fun _ _ => True)
      (fun e => ∀ w, e ≠ approvalMismatch p w) db := by
  simp only [resolveApproval, lockWorkflow, wp_bind, wp_ofExcept, wp_findRow, wp_orAbort, wp_ensure,
    approvalTable_get, workflowTable_get]
  refine ⟨fun actorId _ => ⟨fun approval hfind => ⟨fun workflow hr => ⟨fun hpending =>
    ⟨fun _ => ?_, fun _ w => (conflict_ne_approvalMismatch "").1⟩,
    fun _ w => (conflict_ne_approvalMismatch _).2⟩, fun _ w => (fun h => by cases h)⟩, fun _ w => (fun h => by cases h)⟩,
    fun e he w => operatorActorId_ne_mismatch he⟩
  obtain rfl : approval.id = p := Table.key_of_find hfind
  have hp := hfind
  obtain ⟨hstatus, hw, -, hkind, hversion⟩ := hs.pendingApproval hp hpending hr
  have ht := open_of_awaitsApproval hstatus
  have hid : workflow.id = approval.workflowId := Table.key_of_find hr
  have hinv := hs.inv hr
  rw [if_pos hstatus, hs.wait_eq hx hr ht]
  refine ⟨?_, fun _ h => by cases h⟩
  rintro wait ⟨⟩
  refine ⟨fun _ => ?_, fun hmismatch => absurd ⟨hw, hkind.symm, hversion.symm⟩ hmismatch⟩
  refine ⟨fun value _ => ⟨fun _ _ => ⟨fun n hn => ?_, fun _ w => (fun h => by cases h)⟩,
    fun e he w => ensureSize_ne_mismatch he⟩, fun e he w => validateApprovalExact_ne_mismatch he⟩
  obtain ⟨-, rfl⟩ := I32.checkedAdd_eq_some.mp hn
  rw [← hid] at hinv
  refine wp_appendDelivery hinv.delivery.log (fun _ => hinv.next_delivery ht hw)
    (.inr ⟨_, rfl, rfl⟩) (fun h => by cases h) (fun _ w => (fun h => by cases h)) fun e db₁ _ _ _ => ?_
  exact wp_fencedUpdate (fun _ w => (fun h => by cases h)) fun _ _ _ =>
    wp_fencedUpdate (fun _ w => (fun h => by cases h)) fun _ _ _ => trivial

end Approvals

-- ════════════════════════════════════════════════════════════════════════
-- Runs
-- ════════════════════════════════════════════════════════════════════════

/-- The result of a timer for the command `n`. -/
def WorkflowEventRow.isTimerResult (e : WorkflowEventRow) (n : ℕ) : Bool :=
  e.eventType == .timerFired && e.answers == some n

/-- A split of a run at the commit that put a workflow to sleep. -/
theorem run_sleepsUntil {actions : List Action}
    (h : ((run externals Sys.init actions).db.aggregate w).SleepsUntil n t) :
    ∃ pre action post s', actions = pre ++ action :: post ∧
      exec externals (run externals Sys.init pre) action = .ok s' ∧
      CommitsSleep w n t (run externals Sys.init pre) action s' := by
  refine run_origin (Q := fun s => (s.db.aggregate w).SleepsUntil n t)
    (fun s action s' h hok => exec_sleepsUntil h hok) ?_ h
  rintro ⟨r, hr, -⟩
  cases hr

/-- Timers and approvals in every run. The workflow of a pending approval waits for it,
possibly paused, so neither the expiry of an approval nor a decision on it finds a mismatch.
Every command has at most one timer event, which a materializer appended while the
workflow was asleep, at a time no earlier than the wake time that the commit of the command
asked for. -/
theorem run_timers (externals : Externals) (actions : List Action) :
    let s := run externals Sys.init actions
    (∀ p approval, s.db.approvals.find p = some approval → approval.status = .pending →
      ∃ r, s.db.workflows.find approval.workflowId = some r ∧
        (r.status = .waitingApproval ∨ r.status = .paused) ∧ r.awaited = some (.approval p)) ∧
    (∀ p now e, exec externals s (.expireApproval p now) = .error e → ∀ w,
      e ≠ .invalidState (.approvalMismatch p w) ∧
      e ≠ .invalidState (.approvalCommandMismatch p w)) ∧
    (∀ registry p decision operator now e,
      exec externals s (.resolveApproval registry p decision operator now) = .error e →
      ∀ w : WorkflowId, e ≠ .conflict s!"approval {p} no longer matches workflow {w}") ∧
    (∀ w n, ((s.db.eventsOf w).filter (·.isTimerResult n)).length ≤ 1) ∧
    ∀ w e, e ∈ s.db.eventsOf w → e.eventType = .timerFired →
      ∃ n t pre commit mid fire post s₁ s₂, e.answers = some n ∧
        actions = (pre ++ commit :: mid) ++ fire :: post ∧
        exec externals (run externals Sys.init pre) commit = .ok s₁ ∧
        CommitsSleep w n t (run externals Sys.init pre) commit s₁ ∧
        exec externals (run externals Sys.init (pre ++ commit :: mid)) fire = .ok s₂ ∧
        FiresTimer w e t (run externals Sys.init (pre ++ commit :: mid)) fire s₂ := by
  have hinv := run_inv externals actions
  refine ⟨fun p approval hp hpending => ?_, fun p now e he w => ?_,
    fun registry p decision operator now e he => ?_, fun w n => ?_, fun w e he htype => ?_⟩
  · obtain ⟨r, hr⟩ := hinv.sound.row_of_approval hp
    obtain ⟨hstatus, hw, -⟩ := hinv.sound.pendingApproval hp hpending hr
    refine ⟨r, hr, ?_, hw⟩
    cases hst : r.status <;> simp [hst, WorkflowStatus.awaitsApproval] at hstatus ⊢
  · have hbenign := exec_benign hinv he
    refine ⟨?_, ?_⟩ <;>
    · rintro rfl
      cases hbenign
  · rw [exec] at he
    exact wp_error (wp_resolveApproval_matches hinv.sound hinv.attached) (transact'_error he)
  · refine hinv.sound.length_answers_le (n := n) fun e he => ?_
    simp only [WorkflowEventRow.isTimerResult, Bool.and_eq_true, beq_iff_eq] at he
    exact he.2
  · have hkind : e.answersKind = some .timer := by
      rw [← (hinv.sound.log w).typed e he, htype]
      rfl
    obtain ⟨front, fire, post, s₂, rfl, hfire, n, t, hn, hsleeps, hfires⟩ :=
      run_origin (Q := fun s => e ∈ s.db.eventsOf w)
        (fun s action s' h hok => exec_firesTimer h hok hkind) (by simp [Sys.init, DB.empty, DB.eventsOf]) he
    obtain ⟨pre, commit, mid, s₁, rfl, hcommit, hcommits⟩ := run_sleepsUntil hsleeps
    exact ⟨n, t, pre, commit, mid, fire, post, s₁, s₂, hn, rfl, hcommit, hcommits, hfire, hfires⟩

end DurableWorkflows
