import DurableWorkflows.Engine.Absorbing
import DurableWorkflows.Engine.Budget
import DurableWorkflows.Engine.Children
import DurableWorkflows.Engine.Waits

/-!
# Stale attempts

A worker may use a claim at any later moment: after its lease was taken away,
after another worker claimed the activity again, or after a pause or a cancel
revoked the attempt. The three fences of the worker refuse every such message,
and what a revoked attempt reports only settles the revoke.

## Main definitions

- `Action.Uses`: a heartbeat, a finish or a progress report with a claim
- `AppendsResult`: the finish that appends the result of an activity

## Main results

- `run_staleAttempts`
-/

namespace DurableWorkflows

open Transaction Sys

variable {externals : Externals} {s s' : Sys} {db db' : DB} {g g' : Aggregate} {w : WorkflowId}
  {r : WorkflowRow} {l : Label} {a : ActivityId} {act act' : ActivityRow} {claim : ActivityClaim}
  {action : Action} {e : WorkflowEventRow}

-- ════════════════════════════════════════════════════════════════════════
-- Messages with a claim
-- ════════════════════════════════════════════════════════════════════════

/-- The action is a heartbeat, a finish or a progress report with the claim. -/
def Action.Uses (action : Action) (s : Sys) (claim : ActivityClaim) : Prop :=
  match action with
  | .heartbeat i _ | .reportProgress i _ _ => s.activityClaims[i]? = some claim
  | .finish i outcome _ => (s.finishable outcome)[i]? = some claim
  | _ => False

/-- A message that succeeds is one of the lease holder, and a progress report one of a
running attempt. -/
theorem exec_uses_ok (h : s.Inv) (huses : action.Uses s claim)
    (hok : exec externals s action = .ok s') :
    ∃ act attempt r, claim.Holds s.db act attempt r ∧
      ∀ i event now, action = .reportProgress i event now → act.status = .running := by
  cases action with
  | heartbeat i now =>
    rw [exec] at hok
    obtain ⟨claim', hi, hok⟩ := nth_bind_ok hok
    obtain rfl := Option.some_inj.mp (huses.symm.trans hi)
    obtain ⟨renewed, db', hrenew, -⟩ := transact_ok hok
    have hclaim := (h.activityClaims claim (List.mem_of_getElem? hi)).2
    obtain ⟨⟨act, attempt, r, hheld, -⟩, -⟩ := wp_ok (wp_heartbeatOnce h.sound hclaim) hrenew
    exact ⟨act, attempt, r, hheld, (by intros; contradiction)⟩
  | finish i outcome now =>
    obtain ⟨claim', act, hi, hfinishes⟩ := exec_finish_ok h hok
    obtain rfl := Option.some_inj.mp (huses.symm.trans hi)
    obtain ⟨attempt, r, hheld⟩ := hfinishes.held
    exact ⟨act, attempt, r, hheld, (by intros; contradiction)⟩
  | reportProgress i event now =>
    rw [exec] at hok
    obtain ⟨claim', hi, hok⟩ := nth_bind_ok hok
    obtain rfl := Option.some_inj.mp (huses.symm.trans hi)
    obtain ⟨_, db', hreport, -⟩ := transact'_ok hok
    have hclaim := (h.activityClaims claim (List.mem_of_getElem? hi)).2
    obtain ⟨⟨act, attempt, r, hheld, hrun⟩, -⟩ := wp_ok (wp_report h.sound hclaim) hreport
    exact ⟨act, attempt, r, hheld, fun _ _ _ _ => hrun⟩
  | _ => cases huses

/-- A claim that lost its lease never gets it back. -/
theorem stale_later (h : s.Inv) (hclaim : claim ∈ s.activityClaims)
    (ha : s.db.activities.find claim.row.id = some act) (hstale : claim.leases act = false)
    (later : List Action)
    (ha' : (run externals s later).db.activities.find claim.row.id = some act') :
    claim.leases act' = false := by
  have htoken := (h.activityClaims claim hclaim).1
  obtain ⟨act'', ha'', -, hfollows⟩ := (h.run_evolves externals later).follows
    (fun _ _ hl => Label.ne_activityClaimed hl htoken) ha
  obtain rfl := Option.some_inj.mp (ha'.symm.trans ha'')
  rw [Bool.eq_false_iff] at hstale ⊢
  refine fun hleases => hstale ?_
  simp only [ActivityClaim.leases, Bool.and_eq_true, beq_iff_eq] at hleases ⊢
  obtain ⟨⟨-, hcount⟩, htoken'⟩ := hleases
  obtain ⟨htoken₀, hcount₀⟩ := hfollows.token htoken'
  -- the token of a row is there exactly while the row is leased
  obtain ⟨r, hr⟩ := h.sound.row_of_activity ha
  have hledger := (h.sound.inv hr).ledger _ act (activity_of_find ha)
  have hlease := hledger.leaseToken
  rw [htoken₀] at hlease
  exact ⟨⟨hlease.symm, hcount₀ ▸ hcount⟩, htoken₀⟩

/-- A message with a claim that lost its lease fails. -/
theorem exec_uses_stale (h : s.Inv) (huses : action.Uses s claim)
    (ha : s.db.activities.find claim.row.id = some act) (hstale : claim.leases act = false) :
    ∃ e, exec externals s action = .error e := by
  cases hexec : exec externals s action with
  | error e => exact ⟨e, rfl⟩
  | ok s' =>
    obtain ⟨act', attempt, r, hheld, -⟩ := exec_uses_ok h huses hexec
    obtain rfl := Option.some_inj.mp (ha.symm.trans hheld.leased.find)
    cases hstale.symm.trans hheld.leases

-- ════════════════════════════════════════════════════════════════════════
-- Revoked attempts
-- ════════════════════════════════════════════════════════════════════════

/-- A finish of a revoked attempt: it closes the attempt with the outcome that the revoke
recorded, frees the activity, and does nothing else. -/
structure SettlesRevoke (claim : ActivityClaim) (act : ActivityRow) (db db' : DB) : Prop where
  evolves : Evolves (fun _ l => l = .settled claim.row.id ∨ l = .history) db db'
  closed : ∃ outcome attempt, revokeOutcome act = .ok outcome ∧ outcome.isRevoke = true ∧
    db'.attempts claim.row.id claim.attemptNumber = some attempt ∧ attempt.outcome = some outcome
  freed : ∃ act', db'.activities.find claim.row.id = some act' ∧
    (act'.status = .pending ∨ act'.status = .cancelled)

/-- What a settlement makes of the activity. -/
theorem Steps.settled {P : Label → Prop} (h : Steps P g g')
    (hP : ∀ l, P l → l = .settled a ∨ l = .history) (ha : g.activities a = some act) :
    ∃ act', g'.activities a = some act' ∧
      (act' = act ∨ act'.status = .pending ∨ act'.status = .cancelled) := by
  induction h with
  | refl => exact ⟨act, ha, .inl rfl⟩
  | tail _ hstep ih =>
    obtain ⟨l, hl, hstep⟩ := hstep
    obtain ⟨act', ha', hact'⟩ := ih
    rcases hP l hl with rfl | rfl
    · cases hstep with
      | settled =>
        refine ⟨_, Function.update_self .., .inr ?_⟩
        dsimp only
        split
        · exact .inr rfl
        · exact .inl rfl
    · cases hstep
      exact ⟨act', ha', hact'⟩

/-- A finish with a claim whose attempt is revoked. -/
theorem exec_finish_revoked {i : ℕ} {outcome : ExecutionOutcome} {now : DbMillis} (h : s.Inv)
    (huses : (Action.finish i outcome now).Uses s claim)
    (ha : s.db.activities.find claim.row.id = some act) (hcancel : act.status = .cancelling)
    (hok : exec externals s (.finish i outcome now) = .ok s') :
    SettlesRevoke claim act s.db s'.db := by
  obtain ⟨claim', act', hi, hfinishes⟩ := exec_finish_ok h hok
  obtain rfl := Option.some_inj.mp (huses.symm.trans hi)
  obtain ⟨attempt, r, hheld⟩ := hfinishes.held
  obtain rfl := Option.some_inj.mp (ha.symm.trans hheld.leased.find)
  obtain ⟨hev, revoke, attempt', hrevoke, hattempt', hclosed, houtcome⟩ :=
    hfinishes.cancelling hcancel
  refine ⟨hev, ⟨revoke, attempt', hrevoke, ?_, hattempt', houtcome⟩, ?_⟩
  · obtain ⟨outcome', hisRevoke, -, hok'⟩ := h.sound.revokeOutcome ha hcancel
    rwa [Except.ok.inj (hrevoke.symm.trans hok')]
  · obtain ⟨act', hact', hstatus⟩ := (hev.steps _).settled (fun _ => id) (activity_of_find ha)
    have hfind := (aggregate_activity.mp hact').1
    refine ⟨act', hfind, hstatus.resolve_left ?_⟩
    -- the attempt is closed, so the row is no longer the one that held it
    rintro rfl
    have hsound := (exec_leads h hok).inv.sound
    obtain ⟨r', hr'⟩ := hsound.row_of_activity hfind
    have hledger := (hsound.inv hr').ledger _ _ (activity_of_find hfind)
    have hopen := (hledger.isOpen act'.attemptCount attempt' ?_).mpr ⟨hheld.leased.lease, rfl⟩
    · rw [hopen] at hclosed
      cases hclosed
    · rw [aggregate_attempts (activity_of_find hfind)]
      exact hheld.number ▸ hattempt'

-- ════════════════════════════════════════════════════════════════════════
-- Results
-- ════════════════════════════════════════════════════════════════════════

/-- The steps that append the result of an activity. -/
theorem Steps.resulted {P : Label → Prop} (h : Steps P g g')
    (hkind : e.answersKind = some .activity) (he : e ∈ g'.events) :
    e ∈ g.events ∨
      ∃ a act, P (.succeeded a) ∧ g'.activities a = some act ∧ act.Resulted e := by
  induction h with
  | refl => exact .inl he
  | tail _ hstep ih =>
    obtain ⟨l, hl, hstep⟩ := hstep
    obtain he₁ | ⟨hne, -⟩ | ⟨-, a, act, rfl, ha, hres⟩ := hstep.appends_answer hkind he
    · refine (ih he₁).imp_right ?_
      rintro ⟨a, act, hP, ha, hres⟩
      refine ⟨a, act, hP, (hstep.terminal_activity ha ?_).resolve_right ?_, hres⟩
      · rw [hres.status]
        rfl
      · rintro ⟨-, hdead, -⟩
        cases hres.status.symm.trans hdead
    · exact absurd rfl hne
    · exact .inr ⟨a, act, hl, ha, hres⟩

/-- A finish by the lease holder of an attempt that runs, of an activity its workflow waits
for, ends the activity with the result in the event. -/
def AppendsResult (w : WorkflowId) (e : WorkflowEventRow) (a : ActivityId) (s : Sys) (action : Action)
    (s' : Sys) : Prop :=
  ∃ i outcome now claim act act' r, action = .finish i outcome now ∧ action.Uses s claim ∧
    claim.row.id = a ∧ s.db.activities.find a = some act ∧ act.workflowId = w ∧
    claim.fences act = true ∧ s.db.workflows.find w = some r ∧ r.status = .waitingActivity ∧
    r.awaited = some (.activity a) ∧ s'.db.activities.find a = some act' ∧ act'.workflowId = w ∧
    act'.Resulted e

/-- Only such a finish appends the result of an activity. -/
theorem exec_appendsResult (h : s.Inv) (hok : exec externals s action = .ok s')
    (hkind : e.answersKind = some .activity) (he : e ∈ s'.db.eventsOf w) :
    e ∈ s.db.eventsOf w ∨ ∃ a, AppendsResult w e a s action s' := by
  by_cases hfinish : ∃ i outcome now, action = .finish i outcome now
  · obtain ⟨i, outcome, now, rfl⟩ := hfinish
    obtain ⟨claim, act, hi, hfinishes⟩ := exec_finish_ok h hok
    by_cases hnew : e ∈ s.db.eventsOf w
    · exact .inl hnew
    refine .inr ?_
    obtain ⟨a, act', hl, ha', hres⟩ :=
      ((hfinishes.evolves.steps w).resulted hkind he).resolve_left hnew
    obtain rfl : a = claim.row.id := by simpa [Label.finishes] using hl
    obtain ⟨attempt, r, hheld⟩ := hfinishes.held
    have ha := hheld.leased.find
    obtain ⟨hfind', hw'⟩ := aggregate_activity.mp ha'
    have hrun : act.status = .running := by
      have hlease := hheld.leased.lease
      cases hs : act.status with
      | running => rfl
      | cancelling =>
        -- a settlement appends no result
        obtain ⟨b, _, hl, -⟩ := ((((hfinishes.cancelling hs).1.steps w).resulted hkind he)).resolve_left hnew
        rcases hl with hl | hl <;> cases hl
      | _ => simp [hs, ActivityStatus.holdsLease] at hlease
    obtain ⟨hstatus, hwait⟩ := hheld.leased.waits h.sound hrun
    have hw : act.workflowId = w := by
      obtain ⟨act'', hfind'', hw'', -⟩ := hfinishes.evolves.follows (t := claim.leaseToken)
        (fun _ l hl => by rintro rfl; simp [Label.finishes] at hl) ha
      obtain rfl := Option.some_inj.mp (hfind'.symm.trans hfind'')
      exact hw''.symm.trans hw'
    exact ⟨claim.row.id, i, outcome, now, claim, act, act', r, rfl, hi, rfl, ha, hw,
      hheld.fences hrun, hw ▸ hheld.leased.row, hstatus, hwait, hfind', hw', hres⟩
  · refine .inl ((((exec_leads h hok).evolves.steps w).resulted hkind he).resolve_right ?_)
    rintro ⟨a, act, ⟨hl, -⟩, -⟩
    cases action with
    | finish => exact hfinish ⟨_, _, _, rfl⟩
    | _ => cases hl

/-- The result of an activity for the command `n`. -/
def WorkflowEventRow.isActivityResult (e : WorkflowEventRow) (n : ℕ) : Bool :=
  e.eventType == .activitySucceeded && e.answers == some n

/-- Stale and revoked attempts in every run. Once the row of an activity no longer carries the
attempt and the token of a claim, or is not leased, every heartbeat, finish and progress report
with the claim fails and changes nothing, at any later moment. While the row is cancelling, a
finish only settles the revoke, whatever the handler returned, and a progress report fails.
No command has two activity results, and an activity whose result is in the log succeeded with
it, by a finish of the lease holder while its workflow waited for it. -/
theorem run_staleAttempts (externals : Externals) (actions : List Action) :
    let s := run externals Sys.init actions
    (∀ claim act later action, claim ∈ s.activityClaims →
      s.db.activities.find claim.row.id = some act → claim.leases act = false →
      action.Uses (run externals s later) claim →
      (∃ e, exec externals (run externals s later) action = .error e) ∧
        step externals (run externals s later) action = run externals s later) ∧
    (∀ claim act, claim ∈ s.activityClaims → s.db.activities.find claim.row.id = some act →
      act.status = .cancelling →
      (∀ i outcome now s', (Action.finish i outcome now).Uses s claim →
        exec externals s (.finish i outcome now) = .ok s' → SettlesRevoke claim act s.db s'.db) ∧
      ∀ i event now, (Action.reportProgress i event now).Uses s claim →
        (∃ e, exec externals s (.reportProgress i event now) = .error e) ∧
          step externals s (.reportProgress i event now) = s) ∧
    (∀ w n, ((s.db.eventsOf w).filter (·.isActivityResult n)).length ≤ 1) ∧
    ∀ w e, e ∈ s.db.eventsOf w → e.eventType = .activitySucceeded →
      ∃ a act pre finish post s', s.db.activities.find a = some act ∧ act.workflowId = w ∧
        act.Resulted e ∧ actions = pre ++ finish :: post ∧
        exec externals (run externals Sys.init pre) finish = .ok s' ∧
        AppendsResult w e a (run externals Sys.init pre) finish s' := by
  have hinv := run_inv externals actions
  refine ⟨fun claim act later action hclaim ha hstale huses => ?_, fun claim act hclaim ha hcancel =>
    ⟨fun i outcome now s' huses hok => exec_finish_revoked hinv huses ha hcancel hok,
      fun i event now huses => ?_⟩, fun w n => ?_, fun w e he htype => ?_⟩
  · have hlater := hinv.run externals later
    obtain ⟨act₀, ha₀, -⟩ := ((hinv.run_evolves externals later).follows (t := claim.leaseToken)
      (fun _ _ hl => Label.ne_activityClaimed hl (hinv.activityClaims claim hclaim).1) ha)
    have hstale₀ := stale_later hinv hclaim ha hstale later ha₀
    obtain ⟨e, he⟩ : ∃ e, exec externals (run externals _ later) action = .error e :=
      exec_uses_stale hlater huses ha₀ hstale₀
    exact ⟨⟨e, he⟩, Machine.step_of_error he⟩
  · cases hexec : exec externals (run externals Sys.init actions) (.reportProgress i event now) with
    | error e => exact ⟨⟨e, rfl⟩, Machine.step_of_error hexec⟩
    | ok s' =>
      obtain ⟨act', attempt, r, hheld, hrun⟩ := exec_uses_ok hinv huses hexec
      obtain rfl := Option.some_inj.mp (ha.symm.trans hheld.leased.find)
      cases hcancel.symm.trans (hrun i event now rfl)
  · refine hinv.sound.length_answers_le (n := n) fun e he => ?_
    simp only [WorkflowEventRow.isActivityResult, Bool.and_eq_true, beq_iff_eq] at he
    exact he.2
  · have hkind : e.answersKind = some .activity := by
      rw [← (hinv.sound.log w).typed e he, htype]
      rfl
    obtain ⟨pre, finish, post, s', rfl, hok, a, happends⟩ :=
      run_origin (Q := fun s => e ∈ s.db.eventsOf w)
        (fun s action s' h hok => exec_appendsResult h hok hkind)
        (by simp [Sys.init, DB.empty, DB.eventsOf]) he
    obtain ⟨i, outcome, now, claim, act, act', r, -, -, -, -, -, -, -, -, -, ha', hw', hres⟩ :=
      id happends
    have hinv' := (exec_leads (run_inv externals pre) hok).inv
    have hlast : run externals Sys.init (pre ++ finish :: post) = run externals s' post := by
      rw [run, Machine.run_append]
      exact congrArg (fun s => Machine.run (exec externals) s post) (Machine.step_of_ok hok)
    have hev := hinv'.run_evolves externals post
    refine ⟨a, act', pre, finish, post, s', ?_, hw', hres, rfl, hok, happends⟩
    rw [hlast]
    refine (hev.terminal_activity ha' (by rw [hres.status]; rfl)).resolve_right ?_
    rintro ⟨-, hdead, -⟩
    cases hres.status.symm.trans hdead

end DurableWorkflows
