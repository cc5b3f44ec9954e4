import DurableWorkflows.Engine.Deduplication

/-!
# Delayed starts

A workflow that is started with a time has it in `available_at`, and a coordinator
claims no row before that. The column is not only the start time: a resume of a paused
workflow that waits for nothing makes it due at once, also before its first claim. So
a delayed start is honoured in the runs that have no such resume before the time.

## Main definitions

- `Action.delays`: the starts with a time
- `Aggregate.Delayed`: a workflow that has not been claimed yet and is not due before a
  time

## Main results

- `run_delayedStart`
-/

namespace DurableWorkflows

open Transaction Sys

variable {externals : Externals} {s s' : Sys} {db db' : DB} {g g' : Aggregate} {w : WorkflowId}
  {r : WorkflowRow} {l : Label} {t now : DbMillis} {action : Action}

/-- The action starts a workflow no earlier than `t`. -/
def Action.delays : Action → DbMillis → Prop
  | .start _ options _, t | .startPrepared _ options _, t | .recoverableStart _ options _, t =>
    options.availableAt = some t
  | _, _ => False

/-- The workflow waits for nothing and does not run, and it is not due before `t`. -/
def Aggregate.Delayed (g : Aggregate) (t : DbMillis) : Prop :=
  ∃ r, g.row = some r ∧ r.awaited = none ∧ t ≤ r.availableAt ∧
    (r.status = .ready ∨ r.status = .paused ∨ r.status.isTerminal = true)

/-- The workflow runs. -/
def Aggregate.Runs (g : Aggregate) : Prop := ∃ r, g.row = some r ∧ r.status = .running

-- ════════════════════════════════════════════════════════════════════════
-- Steps
-- ════════════════════════════════════════════════════════════════════════

/-- A workflow that has not been claimed stays delayed until it is claimed or resumed. -/
theorem Step.delayed (h : Step g l g') (hl : l ≠ .resumed) (hg : g.Delayed t) :
    g'.Delayed t ∨ g'.Runs ∧ ∃ token r, l = .claimed token ∧ g.row = some r ∧ r.status = .ready ∧
      t ≤ r.availableAt := by
  obtain ⟨r, hr, hw, htime, hstatus⟩ := hg
  -- the statuses a delayed workflow does not have
  have hne : ∀ {r₀ : WorkflowRow} {status : WorkflowStatus}, g.row = some r₀ →
      r₀.status = status → status ≠ .ready → status ≠ .paused → status.isTerminal = false →
      g'.Delayed t := by
    rintro r₀ status hr₀ rfl hready hpaused hopen
    obtain rfl := Option.some_inj.mp (hr.symm.trans hr₀)
    rcases hstatus with hs | hs | hs
    · exact absurd hs hready
    · exact absurd hs hpaused
    · rw [hopen] at hs
      cases hs
  -- nor does it wait
  have hfree : ∀ {r₀ : WorkflowRow} {wait : Wait}, g.row = some r₀ → r₀.awaited = some wait →
      g'.Delayed t := by
    intro r₀ wait hr₀ hw₀
    obtain rfl := Option.some_inj.mp (hr.symm.trans hr₀)
    exact absurd (hw.symm.trans hw₀) nofun
  cases h with
  | inserted => cases hr
  | history | discarded | activityClaimed | renewed | released | settled =>
    exact .inl ⟨r, hr, hw, htime, hstatus⟩
  | claimed hr₀ hs₀ owner token =>
    obtain rfl := Option.some_inj.mp (hr.symm.trans hr₀)
    exact .inr ⟨⟨_, rfl, rfl⟩, token, r, rfl, hr, hs₀, htime⟩
  | recovered hr₀ hs₀ | continued hr₀ hs₀ | completed hr₀ hs₀ | slept hr₀ hs₀
  | waitedApproval hr₀ hs₀ | waitedActivity hr₀ hs₀ | waitedChild hr₀ hs₀
  | activationFailed hr₀ hs₀ | revoked hr₀ hs₀ | superseded hr₀ hs₀ | retried hr₀ hs₀
  | succeeded hr₀ hs₀ | deadLettered hr₀ hs₀ | quarantined hr₀ hs₀ =>
    exact .inl (hne hr₀ hs₀ nofun nofun rfl)
  | answered hr₀ hw₀ | answeredApproval hr₀ hw₀ | reattached hr₀ hw₀ => exact .inl (hfree hr₀ hw₀)
  | paused hr₀ =>
    obtain rfl := Option.some_inj.mp (hr.symm.trans hr₀)
    exact .inl ⟨_, rfl, hw, htime, .inr (.inl rfl)⟩
  | cancelled hr₀ _ _ clear =>
    obtain rfl := Option.some_inj.mp (hr.symm.trans hr₀)
    refine .inl ⟨_, rfl, ?_, ?_, .inr (.inr rfl)⟩
    · cases clear
      · exact hw
      · rfl
    · cases clear <;> exact htime
  | resumed => exact absurd rfl hl

/-- Steps that claim nothing keep a workflow delayed. -/
theorem Steps.delayed {P : Label → Prop} (h : Steps P g g')
    (hP : ∀ l, P l → l ≠ .resumed ∧ ∀ token, l ≠ .claimed token) (hg : g.Delayed t) :
    g'.Delayed t := by
  induction h with
  | refl => exact hg
  | tail _ hstep ih =>
    obtain ⟨l, hl, hstep⟩ := hstep
    obtain ⟨hresumed, hclaimed⟩ := hP l hl
    refine (hstep.delayed hresumed ih).resolve_right ?_
    rintro ⟨-, token, r, rfl, -⟩
    exact hclaimed token rfl

/-- A resume makes a workflow that waits for nothing due at once. -/
theorem Resumed.delayed {status : WorkflowStatus} {w' : WorkflowId}
    (h : Resumed w' now status db db') (hg : (db.aggregate w).Delayed t) (hnow : w' = w → t ≤ now) :
    (db'.aggregate w).Delayed t := by
  obtain ⟨r, e, hr, hpaused, hstatus, -, -, ht⟩ := h.resumed
  by_cases hw' : w = w'
  · subst hw'
    obtain ⟨r', hr', hw, -⟩ := hg
    obtain rfl := Option.some_inj.mp (hr.symm.trans hr')
    have hready : status = .ready := by
      rw [Aggregate.ResumesTo, hw] at hstatus
      exact hstatus
    subst hready
    rw [ht.self]
    exact ⟨_, rfl, hw, hnow rfl, .inl rfl⟩
  · rwa [ht.other w hw']

/-- A claim of a delayed workflow is due, and leaves it running. -/
theorem Steps.delayed_of_claim {token : LeaseToken}
    (h : Steps (fun l => l.ClaimsDue db token now w) (db.aggregate w) g')
    (hg : (db.aggregate w).Delayed t) : g'.Delayed t ∨ g'.Runs ∧ t ≤ now := by
  have hrow : g'.row = (db.aggregate w).row ∨ g'.Runs ∧ t ≤ now := by
    induction h with
    | refl => exact .inl rfl
    | @tail g₁ g' _ hstep ih =>
      obtain ⟨l, ⟨hclaims, hdue, hleased⟩, hstep⟩ := hstep
      obtain ⟨r, hr, -, htime, hstatus⟩ := hg
      cases hstep with
      | history => exact ih
      | claimed hr₁ hs₁ =>
        rcases ih with hsame | ⟨⟨r₂, hr₂, hrun⟩, -⟩
        · obtain rfl := beq_iff_eq.mp hclaims
          have hr₀ := hsame.symm.trans hr₁
          obtain rfl := Option.some_inj.mp (hr.symm.trans hr₀)
          exact .inr ⟨⟨_, rfl, rfl⟩, htime.trans (hdue rfl r hr hs₁)⟩
        · obtain rfl := Option.some_inj.mp (hr₁.symm.trans hr₂)
          cases hs₁.symm.trans hrun
      | recovered =>
        -- no lease of a delayed workflow is recovered
        obtain ⟨r₀, hr₀, hrun⟩ := hleased rfl
        obtain rfl := Option.some_inj.mp (hr.symm.trans hr₀)
        rw [hrun] at hstatus
        rcases hstatus with hs | hs | hs <;> cases hs
      | _ => cases hclaims
  refine hrow.imp_left fun hsame => ?_
  obtain ⟨r, hr, hrest⟩ := hg
  exact ⟨r, hsame.trans hr, hrest⟩

/-- A delayed workflow stays delayed until it is claimed, and that is not before its
time; but it must not be resumed before its time. -/
theorem exec_delayed (h : s.Inv) (hok : exec externals s action = .ok s')
    (hg : (s.db.aggregate w).Delayed t)
    (hresume : ∀ operator now, action = .resume w operator now → t ≤ now) :
    (s'.db.aggregate w).Delayed t ∨ (s'.db.aggregate w).Runs ∧
      ∃ config registry locked workerId now,
        action = .claimWorkflow config registry locked workerId now ∧ t ≤ now := by
  cases action with
  | claimWorkflow config registry locked workerId now =>
    rw [exec] at hok
    obtain ⟨o, db', hclaim, rfl⟩ := transact_ok hok
    have hev := (wp_ok (wp_claimRow h.sound) hclaim).1
    refine ((hev.steps w).delayed_of_claim hg).imp_right fun hpost => ?_
    obtain ⟨hruns, hdue⟩ := hpost
    exact ⟨hruns, config, registry, locked, workerId, now, rfl, hdue⟩
  | resume workflow operator now =>
    rw [exec] at hok
    obtain ⟨status, db', hresumed, rfl⟩ := transact'_ok hok
    refine .inl ((wp_ok (wp_resumeWorkflow h.sound h.attached) hresumed).delayed hg ?_)
    rintro rfl
    exact hresume operator now rfl
  | _ =>
    refine .inl (((exec_leads h hok).evolves.steps w).delayed (fun l hl => ?_) hg)
    refine ⟨?_, fun token => ?_⟩ <;>
    · rintro rfl
      cases hl.1

-- ════════════════════════════════════════════════════════════════════════
-- Starts
-- ════════════════════════════════════════════════════════════════════════

/-- A row that is there only after an insert is the inserted one. -/
theorem Started.delayed {P : WorkflowId → Label → Prop} {row : WorkflowRow} {db₁ : DB}
    (h : Started P db row db₁) (hsame : db'.workflows.find db.workflows.next =
      db₁.workflows.find db.workflows.next)
    (hold : ∀ w, w ≠ db.workflows.next → db.workflows.find w = none →
      db'.workflows.find w = none)
    (hnew : db.workflows.find w = none) (hr : db'.workflows.find w = some r)
    (hrow : row.awaited = none ∧ row.availableAt = t ∧ row.status = .ready) :
    (db'.aggregate w).Delayed t := by
  have hw : w = db.workflows.next := by
    by_contra hne
    rw [hold w hne hnew] at hr
    cases hr
  subst hw
  exact ⟨_, hsame.trans h.stored, hrow.1, hrow.2.1.ge, .inl hrow.2.2⟩

theorem Started.find_of_none {P : WorkflowId → Label → Prop} {row : WorkflowRow}
    (h : Started P db row db') (hne : w ≠ db.workflows.next)
    (hnone : db.workflows.find w = none) : db'.workflows.find w = none :=
  (congrArg Aggregate.row (h.other w hne)).trans hnone

/-- A start with a time leaves the new workflow delayed. -/
theorem exec_delays (h : s.Inv) (hok : exec externals s action = .ok s')
    (hdelays : action.delays t) (hnew : s.db.workflows.find w = none)
    (hr : s'.db.workflows.find w = some r) : (s'.db.aggregate w).Delayed t := by
  have hrow : ∀ {workflow : PreparedWorkflowStart} {options : StartOptions} {now : DbMillis},
      options.availableAt = some t → (preparedRow workflow options now).awaited = none ∧
        (preparedRow workflow options now).availableAt = t ∧
        (preparedRow workflow options now).status = .ready := by
    intro workflow options now ht
    refine ⟨rfl, ?_, rfl⟩
    change options.availableAt.getD now = t
    rw [ht]
    rfl
  have hstarts : ∀ {workflow : PreparedWorkflowStart} {options : StartOptions} {now : DbMillis}
      {o : StartOutcome} {db' : DB}, options.availableAt = some t →
      Starts workflow options now s.db o db' → db'.workflows.find w = some r →
      (db'.aggregate w).Delayed t := by
    intro workflow options now o db' ht hstarts hr
    cases hstarts with
    | inserted hstarted =>
      exact hstarted.delayed rfl (fun _ => hstarted.find_of_none) hnew hr (hrow ht)
    | existing =>
      rw [hnew] at hr
      cases hr
  cases action with
  | start workflow options now =>
    rw [exec] at hok
    obtain ⟨o, db', hstart, rfl⟩ := transact'_ok hok
    have ht : options.toStartOptions.availableAt = some t := hdelays
    exact hstarts ht (wp_ok (wp_start h.sound) hstart) hr
  | startPrepared prepared options now =>
    rw [exec] at hok
    obtain ⟨o, db', hstart, rfl⟩ := transact'_ok hok
    have ht : options.toStartOptions.availableAt = some t := hdelays
    exact hstarts ht (wp_ok (wp_startPrepared h.sound) hstart) hr
  | recoverableStart workflow options now =>
    rw [exec] at hok
    obtain ⟨o, db', hstart, rfl⟩ := transact'_ok hok
    obtain ⟨hrecovers, -⟩ := wp_ok (wp_startOrRestartRecoverable h.sound h.attached) hstart
    have ht : options.toStartOptions.availableAt = some t := hdelays
    cases hrecovers with
    | inserted _ hstarted =>
      exact hstarted.delayed rfl (fun _ => hstarted.find_of_none) hnew hr (hrow ht)
    | kept =>
      rw [hnew] at hr
      cases hr
    | failed _ hnewest _ hstarted hev =>
      have hne : s.db.workflows.next ≠ _ := (Table.lt_next_of_find hnewest.stored).ne'
      refine hstarted.delayed ?_ (fun w hw hnone => ?_) hnew hr (hrow ht)
      · exact congrArg Aggregate.row ((hev.steps _).eq_of_false fun _ hl => hne hl.1)
      · exact (hev.steps w).row_none (by rintro _ ⟨-, rfl⟩; exact (fun h => by cases h))
          (hstarted.find_of_none hw hnone)
    | blocked _ hnewest _ hstarted hsup =>
      have hne := (Table.lt_next_of_find hnewest.stored).ne'
      refine hstarted.delayed ?_ (fun w hw hnone => ?_) hnew hr (hrow ht)
      · exact (hsup.successor_row hne hstarted.stored rfl).trans hstarted.stored.symm
      · exact (hsup.evolves.steps w).row_none (fun _ => Label.ne_inserted_of_supersedes)
          (hstarted.find_of_none hw hnone)
  | _ => exact hdelays.elim

-- ════════════════════════════════════════════════════════════════════════
-- Runs
-- ════════════════════════════════════════════════════════════════════════

/-- The workflow does not run at any moment of a run. -/
def Unclaimed (externals : Externals) (s : Sys) (actions : List Action) (w : WorkflowId) : Prop :=
  ∀ pre post r, actions = pre ++ post →
    (run externals s pre).db.workflows.find w = some r → r.status ≠ .running

/-- No resume of the workflow commits before `t` in a run. -/
def ResumedFrom (externals : Externals) (s : Sys) (actions : List Action) (w : WorkflowId)
    (t : DbMillis) : Prop :=
  ∀ pre operator now post s', actions = pre ++ .resume w operator now :: post →
    exec externals (run externals s pre) (.resume w operator now) = .ok s' → t ≤ now

/-- A delayed workflow stays delayed in a run that neither claims it nor resumes it before
its time. -/
theorem Sys.Inv.run_delayed {actions : List Action} (h : s.Inv)
    (hg : (s.db.aggregate w).Delayed t) (hunclaimed : Unclaimed externals s actions w)
    (hresumed : ResumedFrom externals s actions w t) :
    ((DurableWorkflows.run externals s actions).db.aggregate w).Delayed t := by
  induction actions generalizing s with
  | nil => exact hg
  | cons action actions ih =>
    have hstep : (step externals s action).Inv ∧
        ((step externals s action).db.aggregate w).Delayed t := by
      cases hexec : exec externals s action with
      | error e =>
        rw [step, Machine.step_of_error hexec]
        exact ⟨h, hg⟩
      | ok s' =>
        have hs' : step externals s action = s' := Machine.step_of_ok hexec
        rw [hs']
        refine ⟨(exec_leads h hexec).inv, (exec_delayed h hexec hg ?_).resolve_right ?_⟩
        · rintro operator now rfl
          exact hresumed [] operator now actions s' rfl hexec
        · rintro ⟨⟨r, hr, hruns⟩, -⟩
          refine hunclaimed [action] actions r rfl ?_ hruns
          change (step externals s action).db.workflows.find w = some r
          rw [hs']
          exact hr
    refine ih hstep.1 hstep.2 (fun pre post r hsplit => ?_) fun pre operator now post s' hsplit => ?_
    · exact hunclaimed (action :: pre) post r (congrArg _ hsplit)
    · exact hresumed (action :: pre) operator now post s' (congrArg _ hsplit)

/-- Delayed starts in every run. A workflow that a start with the time `t` inserted goes
from ready to running for the first time by the claim of a coordinator, at a time no earlier
than `t`, if no resume of the workflow committed before `t` until then. -/
theorem run_delayedStart (externals : Externals) (pre mid : List Action) (start action : Action)
    (t : DbMillis) (w : WorkflowId) (s₁ s₂ : Sys) (r₁ r₂ : WorkflowRow) (hdelays : start.delays t)
    (hstart : exec externals (run externals Sys.init pre) start = .ok s₁)
    (hnew : (run externals Sys.init pre).db.workflows.find w = none)
    (hr₁ : s₁.db.workflows.find w = some r₁) (hunclaimed : Unclaimed externals s₁ mid w)
    (hresumed : ResumedFrom externals s₁ mid w t)
    (hok : exec externals (run externals s₁ mid) action = .ok s₂)
    (hr₂ : s₂.db.workflows.find w = some r₂) (hruns : r₂.status = .running) :
    ∃ config registry locked workerId now,
      action = .claimWorkflow config registry locked workerId now ∧ t ≤ now := by
  have hinv := run_inv externals pre
  have hinv₁ := (exec_leads hinv hstart).inv
  have hdelayed := hinv₁.run_delayed (exec_delays hinv hstart hdelays hnew hr₁) hunclaimed hresumed
  have hinv₂ := hinv₁.run externals mid
  have hnot : ¬(s₂.db.aggregate w).Delayed t := by
    rintro ⟨r, hr, -, -, hstatus⟩
    obtain rfl := Option.some_inj.mp (hr₂.symm.trans hr)
    rw [hruns] at hstatus
    rcases hstatus with hs | hs | hs <;> cases hs
  by_cases hresume : ∃ operator now, action = .resume w operator now
  · -- a resume leaves nothing running
    obtain ⟨operator, now, rfl⟩ := hresume
    rw [exec] at hok
    obtain ⟨status, db', hresume, rfl⟩ := transact'_ok hok
    obtain ⟨r, e, hr, -, hstatus, -, -, ht⟩ :=
      (wp_ok (wp_resumeWorkflow hinv₂.sound hinv₂.attached) hresume).resumed
    obtain ⟨r', hr', hw, -⟩ := hdelayed
    obtain rfl := Option.some_inj.mp (hr.symm.trans hr')
    rw [Aggregate.ResumesTo, hw] at hstatus
    subst hstatus
    have hrow := (congrArg Aggregate.row ht.self).symm.trans hr₂
    cases Option.some_inj.mp hrow
    cases hruns
  · refine ((exec_delayed hinv₂ hok hdelayed fun operator now heq => ?_).resolve_left hnot).2
    exact absurd ⟨operator, now, heq⟩ hresume

/-- Whether a workflow runs is checked at every moment of a run. -/
theorem Unclaimed.of_prefixes {actions : List Action}
    (h : ∀ k ∈ List.range (actions.length + 1),
      ((run externals s (actions.take k)).db.workflows.find w).all (·.status != .running)) :
    Unclaimed externals s actions w := by
  rintro pre post r rfl hr hruns
  have hlength : pre.length ∈ List.range ((pre ++ post).length + 1) := by
    simp only [List.mem_range, List.length_append]
    omega
  have hpre := h pre.length hlength
  rw [List.take_left, hr] at hpre
  simp [hruns] at hpre

namespace Sample

/-- A start at the time 100. -/
def delayedStart : Action := .start workflow ⟨some 100, none, none⟩ 0

/-- A pause at the time 0 that ends at a given time. -/
def pauseUntil (now : DbMillis) : List Action := [.pause 1 operator 0, .resume 1 operator now]

/-- A claim by a coordinator. -/
def claimAt (now : DbMillis) : Action := .claimWorkflow config workflows (fun _ => false) "worker" now

/-- A workflow that is paused and resumed when it is due is claimed when it is due. -/
theorem lateResume_claims :
    ∃ cfg registry locked workerId now,
      claimAt 100 = .claimWorkflow cfg registry locked workerId now ∧ 100 ≤ now := by
  have hstart : (exec Sample.externals Sys.init delayedStart).isOk = true := by decide +kernel
  have hstored : ((step Sample.externals Sys.init delayedStart).db.workflows.find 1).isSome = true :=
    by decide +kernel
  have hunclaimed : ∀ k ∈ List.range ((pauseUntil 100).length + 1),
      ((run Sample.externals (step Sample.externals Sys.init delayedStart)
        ((pauseUntil 100).take k)).db.workflows.find 1).all (·.status != .running) := by
    decide +kernel
  have hclaim : (exec Sample.externals (run Sample.externals (step Sample.externals Sys.init
      delayedStart) (pauseUntil 100)) (claimAt 100)).isOk = true := by decide +kernel
  have hruns : ((step Sample.externals (run Sample.externals (step Sample.externals Sys.init
      delayedStart) (pauseUntil 100)) (claimAt 100)).db.workflows.find 1).map (·.status) =
      some .running := by decide +kernel
  obtain ⟨r₁, hr₁⟩ := Option.isSome_iff_exists.mp hstored
  obtain ⟨r₂, hr₂, hruns⟩ := Option.map_eq_some_iff.mp hruns
  refine run_delayedStart Sample.externals [] (pauseUntil 100) delayedStart (claimAt 100) 100 1 _ _
    r₁ r₂ rfl (Machine.exec_of_isOk hstart) rfl hr₁ (.of_prefixes hunclaimed) ?_
    (Machine.exec_of_isOk hclaim) hr₂ hruns
  intro pre operator now post s' hsplit _
  have hmem : Action.resume 1 operator now ∈ pauseUntil 100 := by
    rw [hsplit]
    simp
  simp only [pauseUntil, List.mem_cons, reduceCtorEq, Action.resume.injEq, List.not_mem_nil,
    or_false, false_or] at hmem
  exact hmem.2.2.ge

/-- A workflow that is paused and resumed before it is due is claimed before it is due: it
was started for the time 100 and runs at the time 0. -/
theorem earlyResume_claims :
    delayedStart.delays 100 ∧
    ∃ s₁ s₂ r₁ r₂, exec Sample.externals Sys.init delayedStart = .ok s₁ ∧
      Sys.init.db.workflows.find 1 = none ∧ s₁.db.workflows.find 1 = some r₁ ∧
      Unclaimed Sample.externals s₁ (pauseUntil 0) 1 ∧
      exec Sample.externals (run Sample.externals s₁ (pauseUntil 0)) (claimAt 0) = .ok s₂ ∧
      s₂.db.workflows.find 1 = some r₂ ∧ r₂.status = .running := by
  have hstart : (exec Sample.externals Sys.init delayedStart).isOk = true := by decide +kernel
  have hstored : ((step Sample.externals Sys.init delayedStart).db.workflows.find 1).isSome = true :=
    by decide +kernel
  have hunclaimed : ∀ k ∈ List.range ((pauseUntil 0).length + 1),
      ((run Sample.externals (step Sample.externals Sys.init delayedStart)
        ((pauseUntil 0).take k)).db.workflows.find 1).all (·.status != .running) := by
    decide +kernel
  have hclaim : (exec Sample.externals (run Sample.externals (step Sample.externals Sys.init
      delayedStart) (pauseUntil 0)) (claimAt 0)).isOk = true := by decide +kernel
  have hruns : ((step Sample.externals (run Sample.externals (step Sample.externals Sys.init
      delayedStart) (pauseUntil 0)) (claimAt 0)).db.workflows.find 1).map (·.status) =
      some .running := by decide +kernel
  obtain ⟨r₁, hr₁⟩ := Option.isSome_iff_exists.mp hstored
  obtain ⟨r₂, hr₂, hruns⟩ := Option.map_eq_some_iff.mp hruns
  exact ⟨rfl, _, _, r₁, r₂, Machine.exec_of_isOk hstart, rfl, hr₁, .of_prefixes hunclaimed,
    Machine.exec_of_isOk hclaim, hr₂, hruns⟩

end Sample

end DurableWorkflows
