import DurableWorkflows.Engine.Budget

/-!
# Pause and resume

The status a paused workflow had before is not stored; a resume reads it off the
wait and the row the wait refers to. In every reachable state that reading
succeeds, and a pause that is resumed at once gives back what it stopped.

## Main definitions

- `ResumesExactly`: the branches of `resume_status` that are taken
- `RoundTrip`: what a pause and a resume keep of a row

## Main results

- `run_resume`
-/

namespace DurableWorkflows

open Transaction Sys

variable {externals : Externals} {s s₁ s₂ : Sys} {db db' db'' : DB} {w : WorkflowId}
  {r r' : WorkflowRow} {status : WorkflowStatus} {now now' : DbMillis}

/-- The status a paused row resumes to, with the state of the row its wait refers
to: a workflow resumes to ready only with an event to consume. -/
def ResumesExactly (db : DB) (r : WorkflowRow) (status : WorkflowStatus) : Prop :=
  match r.awaited with
  | none => status = .ready ∧ (db.undelivered r).length = 1
  | some (.timer _) => status = .sleeping
  | some (.activity a) => ∃ act, db.activities.find a = some act ∧
      ((act.status = .pending ∨ act.status = .cancelling) ∧ status = .waitingActivity ∨
        act.status = .deadLettered ∧ status = .blocked)
  | some (.child c) => ∃ child, db.workflows.find c = some child ∧
      child.status.isTerminal = false ∧ status = .waitingChild
  | some (.approval p) => ∃ approval, db.approvals.find p = some approval ∧
      approval.status = .pending ∧ status = .waitingApproval

/-- What a pause followed by a resume gives back. -/
structure RoundTrip (db : DB) (r : WorkflowRow) (db' : DB) (r' : WorkflowRow) : Prop where
  status : r'.status = if r.status = .running then .ready else r.status
  waitKind : r'.waitKind = r.waitKind
  waitReferenceId : r'.waitReferenceId = r.waitReferenceId
  commandSequence : r'.commandSequence = r.commandSequence
  deliveredEventSequence : r'.deliveredEventSequence = r.deliveredEventSequence
  stateJson : r'.stateJson = r.stateJson
  stateVersion : r'.stateVersion = r.stateVersion
  undelivered : db'.undelivered r' = db.undelivered r
  availableAt : r'.status ≠ .ready → r'.availableAt = r.availableAt

-- ════════════════════════════════════════════════════════════════════════
-- Resume
-- ════════════════════════════════════════════════════════════════════════

/-- The row a paused workflow waits for is as the resume needs it. -/
theorem ResumesExactly.of_resumesTo (hs : db.Sound) (hx : db.Attached ∅)
    (hr : db.workflows.find r.id = some r) (hpaused : r.status = .paused)
    (h : (db.aggregate r.id).ResumesTo r status) : ResumesExactly db r status := by
  have hinv := hs.inv hr
  have ht : r.status.isTerminal = false := by rw [hpaused]; rfl
  unfold Aggregate.ResumesTo at h
  unfold ResumesExactly
  cases hw : r.awaited with
  | none =>
    rw [hw] at h
    refine ⟨h, (hinv.deliveryDiscipline.paused hpaused).mpr ?_⟩
    exact hinv.row.awaited_eq_none.mp hw
  | some wait =>
    rw [hw] at h
    cases wait with
    | timer n => exact h
    | child c =>
      have hawaits : (db.aggregate r.id).AwaitsChild c :=
        (Aggregate.awaitsChild_iff hr).mpr ⟨by rw [hpaused]; rfl, hw⟩
      obtain hin | ⟨child, hchild, hopen⟩ := hx _ c hawaits
      · exact hin.elim
      · exact ⟨child, hchild, hopen, h⟩
    | approval p =>
      obtain ⟨approval, happ, hpending, -⟩ := hinv.awaited ht _ hw
      exact ⟨approval, (aggregate_approval.mp happ).1, hpending, h⟩
    | activity a =>
      obtain ⟨act, hact, hcases⟩ := h
      refine ⟨act, (aggregate_activity.mp hact).1, hcases.imp_left fun ⟨hopen, hstatus⟩ => ?_⟩
      have hawaited := hinv.awaitedActivity_status ht hw hact
      rw [hpaused] at hawaited
      refine ⟨?_, hstatus⟩
      cases hst : act.status <;>
        simp_all [WorkflowStatus.awaitedActivity, ActivityStatus.isTerminal]

/-- `resume_status` of a paused workflow returns. -/
theorem resumeStatus_returns (hs : db.Sound) (hx : db.Attached ∅)
    (hr : db.workflows.find r.id = some r) (hpaused : r.status = .paused) :
    ∃ status, resumeStatus r db = .ok (status, db) ∧ ResumesExactly db r status := by
  have hwp : wp (resumeStatus r) (fun status db' => db' = db ∧ ResumesExactly db r status)
      (fun _ => False) db :=
    wp_resumeStatus hs hx hr hpaused fun status hto => ⟨rfl, .of_resumesTo hs hx hr hpaused hto⟩
  obtain ⟨status, db', hok, rfl, hexact⟩ := wp_returns hwp
  exact ⟨status, hok, hexact⟩

-- ════════════════════════════════════════════════════════════════════════
-- Pause, then resume
-- ════════════════════════════════════════════════════════════════════════

/-- An event that is not deliverable is never undelivered. -/
theorem undelivered_addEvent {e : WorkflowEventRow} {d : ℕ} {events : List WorkflowEventRow}
    (he : e.deliverySequence = none) :
    (events ++ [e]).filter (fun e => e.deliverySequence.any (d < ·)) =
      events.filter fun e => e.deliverySequence.any (d < ·) := by
  simp [List.filter_append, he]

/-- What a pause writes to the row and the log of its workflow. -/
theorem Paused.row (h : Paused w db db') (hr : db.workflows.find w = some r) :
    ∃ now, db'.workflows.find w =
        some { r.leaseCleared with status := .paused, updatedAt := now } ∧
      ∀ d, (db'.eventsOf w).filter (fun e => e.deliverySequence.any (d < ·)) =
        (db.eventsOf w).filter fun e => e.deliverySequence.any (d < ·) := by
  obtain ⟨o, g, hstep, hsteps⟩ := h.stopped
  have hg : ∃ now, g.row = some { r.leaseCleared with status := .paused, updatedAt := now } ∧
      g.events = (db.aggregate w).events := by
    generalize hagg : db.aggregate w = g₀ at hstep
    have hrow : g₀.row = some r := hagg ▸ hr
    cases hstep with
    | paused hr' _ _ _ now =>
      obtain rfl := Option.some_inj.mp (hrow.symm.trans hr')
      exact ⟨now, rfl, rfl⟩
    | revoked hr' _ _ _ _ _ now =>
      obtain rfl := Option.some_inj.mp (hrow.symm.trans hr')
      exact ⟨now, rfl, rfl⟩
  obtain ⟨now, hrow, hevents⟩ := hg
  have hhistory : ∀ g', Steps (fun l => l = .history) g g' → g'.row = g.row ∧
      ∀ d, g'.events.filter (fun e => e.deliverySequence.any (d < ·)) =
        g.events.filter fun e => e.deliverySequence.any (d < ·) := by
    intro g' hsteps
    induction hsteps with
    | refl => exact ⟨rfl, fun _ => rfl⟩
    | tail _ hstep ih =>
      obtain ⟨l, rfl, hstep⟩ := hstep
      cases hstep with
      | history _ he _ =>
        exact ⟨ih.1, fun d => (undelivered_addEvent he.delivers).trans (ih.2 d)⟩
  obtain ⟨hrow', hfilter⟩ := hhistory _ hsteps
  refine ⟨now, hrow'.trans hrow, fun d => (hfilter d).trans ?_⟩
  rw [hevents]
  rfl

/-- The status before a pause is the one a resume reads off the wait. -/
theorem Inv.status_eq_of_resumesTo {g g' : Aggregate} (h : Inv g r) (hne : r.status ≠ .paused)
    (ht : r.status.isTerminal = false) (hawaited : r'.awaited = r.awaited)
    (hactivity : ∀ a act, g.activities a = some act → ∀ act', g'.activities a = some act' →
      act'.status = act.status ∨ act.status = .running ∧ act'.status = .cancelling)
    (hto : g'.ResumesTo r' status) : status = if r.status = .running then .ready else r.status := by
  have hallowed := h.row.allowed
  unfold Aggregate.ResumesTo at hto
  rw [hawaited] at hto
  cases hw : r.awaited with
  | none =>
    rw [hw] at hto hallowed
    cases hst : r.status <;>
      simp_all [WorkflowStatus.allows, WorkflowStatus.isTerminal]
  | some wait =>
    rw [hw] at hto hallowed
    cases wait with
    | timer | child | approval =>
      cases hst : r.status <;>
        simp_all [WorkflowStatus.allows, WorkflowStatus.isTerminal, Wait.kind]
    | activity a =>
      obtain ⟨act', hact', hcases⟩ := hto
      obtain ⟨act, hact, -⟩ := h.awaitedActivity ht hw
      have hstatus := h.awaitedActivity_status ht hw hact
      have hsame := hactivity a act hact act' hact'
      cases hst : r.status <;>
        simp_all [WorkflowStatus.allows, WorkflowStatus.isTerminal, Wait.kind,
          WorkflowStatus.awaitedActivity]
      · rcases hcases with ⟨-, rfl⟩ | ⟨hdead, -⟩
        · rfl
        · rcases hsame with hsame | ⟨-, hsame⟩
          · simp [← hsame, hdead, ActivityStatus.isTerminal] at hstatus
          · simp [hdead] at hsame
      · rcases hcases with ⟨hopen, -⟩ | ⟨-, rfl⟩
        · simp [ActivityStatus.isTerminal] at hopen
        · rfl

/-- A pause and a resume of the workflow `w` with nothing in between. -/
theorem Paused.roundTrip (h : s.Inv) (hr : s.db.workflows.find w = some r)
    (hne : r.status ≠ .paused) (ht : r.status.isTerminal = false) (hp : Paused w s.db db')
    (hres : Resumed w now status db' db'') :
    ∃ r', db''.workflows.find w = some r' ∧ RoundTrip s.db r db'' r' := by
  obtain ⟨now₁, hrow₁, hundelivered⟩ := hp.row hr
  obtain ⟨r₁, e, hr₁, -, hto, he, -, htouch⟩ := hres.resumed
  obtain rfl := Option.some_inj.mp (hrow₁.symm.trans hr₁)
  have hid : r.id = w := Table.key_of_find hr
  have hrow₂ := congrArg Aggregate.row htouch.self
  have hstatus := (h.sound.inv hr).status_eq_of_resumesTo hne ht rfl ?_ hto
  · refine ⟨_, hrow₂, hstatus, rfl, rfl, rfl, rfl, rfl, rfl, ?_, fun hready => if_neg hready⟩
    have hevents : db''.eventsOf w = db'.eventsOf w ++ [e] := congrArg Aggregate.events htouch.self
    change (db''.eventsOf r.id).filter _ = (s.db.eventsOf r.id).filter _
    rw [hid, hevents, undelivered_addEvent he.delivers]
    exact hundelivered _
  · intro a act hact act' hact'
    obtain ⟨ha, -⟩ := aggregate_activity.mp hact
    obtain ⟨ha', -⟩ := aggregate_activity.mp hact'
    obtain hsame | ⟨act₁, ha₁, hrun, hcancel, -⟩ := hp.activity ha
    · obtain rfl := Option.some_inj.mp (hsame.symm.trans ha')
      exact .inl rfl
    · obtain rfl := Option.some_inj.mp (ha₁.symm.trans ha')
      exact .inr ⟨hrun, hcancel⟩

/-- In every reachable state `resume_status` of a paused workflow returns, by one
of the branches of `ResumesExactly`. A pause of a workflow that is neither paused
nor terminal fails only if its log is full or the attempt limit of the attempt to
revoke is at its maximum, and the resume after it only if the log is full;
together they give the workflow back. -/
theorem run_resume (externals : Externals) (actions : List Action) :
    let s := run externals Sys.init actions
    (∀ w r, s.db.workflows.find w = some r → r.status = .paused →
      ∃ status, resumeStatus r s.db = .ok (status, s.db) ∧ ResumesExactly s.db r status) ∧
    ∀ w r, s.db.workflows.find w = some r → r.status ≠ .paused → r.status.isTerminal = false →
      ∀ operator now, match exec externals s (.pause w operator now) with
        | .error e =>
          e = .invalidState .eventSequenceOverflow ∧ I32.max ≤ (s.db.eventsOf w).length ∨
            e = .invalidState .attemptLimitOverflow ∧ s.db.RevokesAtLimit r
        | .ok s₁ => ∀ operator' now', match exec externals s₁ (.resume w operator' now') with
          | .error e =>
            e = .invalidState .eventSequenceOverflow ∧ I32.max ≤ (s₁.db.eventsOf w).length
          | .ok s₂ => ∃ r', s₂.db.workflows.find w = some r' ∧ RoundTrip s.db r s₂.db r' := by
  intro s
  have hinv : s.Inv := run_inv externals actions
  refine ⟨fun w r hr hpaused => ?_, fun w r hr hne ht operator now => ?_⟩
  · obtain rfl : r.id = w := Table.key_of_find hr
    exact resumeStatus_returns hinv.sound hinv.attached hr hpaused
  · obtain rfl : r.id = w := Table.key_of_find hr
    have hpause : wp (pauseWorkflow r.id operator now) (fun _ db' => Paused r.id s.db db')
        (fun e =>
          e = .invalidState .eventSequenceOverflow ∧ I32.max ≤ (s.db.eventsOf r.id).length ∨
            e = .invalidState .attemptLimitOverflow ∧ s.db.RevokesAtLimit r) s.db :=
      wp_pauseWorkflow_of hinv.sound hinv.attached hr hne ht (fun hfull => .inl ⟨rfl, hfull⟩)
        fun hlimit => .inr ⟨rfl, hlimit⟩
    cases hok : exec externals s (.pause r.id operator now) with
    | error e =>
      rw [exec] at hok
      exact wp_error hpause (transact'_error hok)
    | ok s₁ =>
      intro operator' now'
      have hinv₁ := (exec_leads hinv hok).inv
      have hp := exec_pause_ok hinv hok
      obtain ⟨now₁, hrow₁, -⟩ := hp.row hr
      set r₁ : WorkflowRow := { r.leaseCleared with status := .paused, updatedAt := now₁ }
      have hresume : wp (resumeWorkflow r₁.id operator' now')
          (fun status db' => Resumed r₁.id now' status s₁.db db')
          (fun e => e = .invalidState .eventSequenceOverflow ∧
            I32.max ≤ (s₁.db.eventsOf r.id).length) s₁.db :=
        wp_resumeWorkflow_of hinv₁.sound hinv₁.attached hrow₁ rfl fun hfull => ⟨rfl, hfull⟩
      cases hok' : exec externals s₁ (.resume r.id operator' now') with
      | error e =>
        rw [exec] at hok'
        exact wp_error hresume (transact'_error hok')
      | ok s₂ =>
        rw [exec] at hok'
        obtain ⟨status, db₂, hx₂, rfl⟩ := transact'_ok hok'
        exact hp.roundTrip hinv hr hne ht (wp_ok hresume hx₂)

end DurableWorkflows
