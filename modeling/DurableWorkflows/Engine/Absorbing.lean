import DurableWorkflows.Engine.Delivery

/-!
# Terminal rows

A workflow, an activity or an approval that has ended is not written again. The
one exception is a dead letter, which a recoverable start of its workflow
discards.

## Main results

- `Evolves.terminal_row`, `Evolves.terminal_activity`, `Evolves.closed_approval`
- `run_absorbing`
-/

namespace DurableWorkflows

open Transaction Sys

variable {externals : Externals} {s s' : Sys} {g g' : Aggregate} {db db' : DB} {w : WorkflowId}
  {r : WorkflowRow} {a : ActivityId} {act : ActivityRow} {p : ApprovalId} {approval : ApprovalRow}
  {l : Label} {action : Action} {P : WorkflowId → Label → Prop}

-- ════════════════════════════════════════════════════════════════════════
-- Steps
-- ════════════════════════════════════════════════════════════════════════

/-- The row of a workflow that has ended is not written. -/
theorem Step.terminal_row (h : Step g l g') (hr : g.row = some r) (ht : r.status.isTerminal = true) :
    g'.row = some r := by
  have hl : l ≠ .inserted := by
    rintro rfl
    cases h
    cases hr
  rcases h.row_eq_or_open hl with hrow | ⟨r', hr', hopen⟩
  · exact hrow.trans hr
  · obtain rfl := Option.some_inj.mp (hr.symm.trans hr')
    rw [ht] at hopen
    cases hopen

theorem setActivity_of_terminal {a' : ActivityId} {act' x : ActivityRow}
    (ha : g.activities a = some act) (ht : act.status.isTerminal = true)
    (ha' : g.activities a' = some act') (hopen : act'.status.isTerminal = false) :
    Function.update g.activities a' (some x) a = some act := by
  have hne : a ≠ a' := by
    rintro rfl
    obtain rfl := Option.some_inj.mp (ha.symm.trans ha')
    rw [ht] at hopen
    cases hopen
  rw [Function.update_of_ne hne]
  exact ha

theorem setActivity_of_new {a' : ActivityId} {x : ActivityRow} (ha : g.activities a = some act)
    (ha' : g.activities a' = none) : Function.update g.activities a' (some x) a = some act := by
  have hne : a ≠ a' := by
    rintro rfl
    rw [ha] at ha'
    cases ha'
  rw [Function.update_of_ne hne]
  exact ha

/-- An activity that has ended is not written, unless it is a dead letter that is
discarded. -/
theorem Step.terminal_activity (h : Step g l g') (ha : g.activities a = some act)
    (ht : act.status.isTerminal = true) :
    g'.activities a = some act ∨
      l.discards = true ∧ act.status = .deadLettered ∧
        ∃ now, g'.activities a = some (act.discarded now) := by
  have hdiscard : ∀ now, (g.mapActivities (·.discarded now)).activities a = some act ∨
      act.status = .deadLettered ∧
        ∃ t, (g.mapActivities (·.discarded now)).activities a = some (act.discarded t) := by
    intro now
    have hmap : (g.mapActivities (·.discarded now)).activities a = some (act.discarded now) := by
      simp [Aggregate.mapActivities, ha]
    by_cases hdead : act.status = .deadLettered
    · exact .inr ⟨hdead, now, hmap⟩
    · refine .inl (hmap.trans ?_)
      rw [ActivityRow.discarded, if_neg hdead]
  cases h with
  | inserted => cases ha
  | history | claimed | recovered | continued | completed | slept | waitedChild | waitedApproval
  | activationFailed | answered | answeredApproval | reattached | paused | resumed => exact .inl ha
  | waitedActivity _ _ ha' => exact .inl (setActivity_of_new ha ha')
  | retried _ _ _ _ ha' => exact .inl (setActivity_of_new ha ha')
  | revoked _ _ _ ha' hrun => exact .inl (setActivity_of_terminal ha ht ha' (by rw [hrun]; rfl))
  | activityClaimed _ _ _ ha' hpending | quarantined _ _ _ ha' hpending =>
    exact .inl (setActivity_of_terminal ha ht ha' (by rw [hpending]; rfl))
  | renewed _ ha' hlease =>
    refine .inl (setActivity_of_terminal ha ht ha'.stored ?_)
    revert hlease
    cases ActivityRow.status _ <;> decide
  | released _ ha' hrun | succeeded _ _ _ ha' hrun | deadLettered _ _ _ ha' hrun =>
    exact .inl (setActivity_of_terminal ha ht ha'.stored (by rw [hrun]; rfl))
  | settled _ ha' hcancel =>
    exact .inl (setActivity_of_terminal ha ht ha'.stored (by rw [hcancel]; rfl))
  | @cancelled _ r outcome _ _ _ _ reason now =>
    refine .inl ?_
    have hmap : (g.mapActivities (·.cancelledBy outcome reason now)).activities a =
        some (act.cancelledBy outcome reason now) := by
      simp [Aggregate.mapActivities, ha]
    refine hmap.trans (congrArg some ?_)
    unfold ActivityRow.cancelledBy
    cases hs : act.status <;> simp_all [ActivityStatus.isTerminal]
  | superseded _ _ now => exact (hdiscard now).imp_right fun h => ⟨rfl, h⟩
  | discarded _ _ now => exact (hdiscard now).imp_right fun h => ⟨rfl, h⟩

/-- A pending approval is written by its answer or by a cancel only, and one that is
closed is not written at all. -/
theorem Step.approval_eq_or (h : Step g l g') (hg : g.WellFormed)
    (hp : g.approvals p = some approval) :
    g'.approvals p = some approval ∨ approval.status = .pending ∧
      (l = .answered (.approval p) ∨
        ∃ approval', g'.approvals p = some approval' ∧ approval'.status = .cancelled) := by
  cases h with
  | inserted => cases hp
  | history | claimed | recovered | continued | completed | slept | waitedChild | waitedActivity
  | activationFailed | answered | reattached | paused | revoked | resumed | superseded | discarded
  | retried | activityClaimed | renewed | succeeded | released | deadLettered | quarantined
  | settled => exact .inl hp
  | @waitedApproval _ _ p' _ _ _ hp' =>
    have hne : p ≠ p' := by
      rintro rfl
      rw [hp] at hp'
      cases hp'
    exact .inl ((Function.update_of_ne hne ..).trans hp)
  | @answeredApproval _ r _ p' _ _ hr hw hs =>
    by_cases hpp : p = p'
    · subst hpp
      obtain ⟨approval₀, hp₀, hpending, -⟩ := (hg.inv hr).awaited (open_of_awaitsApproval hs) _ hw
      obtain rfl := Option.some_inj.mp (hp.symm.trans hp₀)
      exact .inr ⟨hpending, .inl rfl⟩
    · exact .inl ((Function.update_of_ne hpp ..).trans hp)
  | @cancelled _ r outcome _ _ _ _ reason now =>
    have hmap : (g.mapApprovals (·.cancelledBy reason now)).approvals p =
        some (approval.cancelledBy reason now) := by
      simp [Aggregate.mapApprovals, hp]
    by_cases hpending : approval.status = .pending
    · refine .inr ⟨hpending, .inr ⟨_, hmap, ?_⟩⟩
      rw [ApprovalRow.cancelledBy, if_pos hpending]
    · refine .inl (hmap.trans ?_)
      rw [ApprovalRow.cancelledBy, if_neg hpending]

-- ════════════════════════════════════════════════════════════════════════
-- Evolutions
-- ════════════════════════════════════════════════════════════════════════

theorem Steps.terminal_row {P : Label → Prop} (h : Steps P g g') (hr : g.row = some r)
    (ht : r.status.isTerminal = true) : g'.row = some r := by
  induction h with
  | refl => exact hr
  | tail _ hstep ih =>
    obtain ⟨l, -, hstep⟩ := hstep
    exact hstep.terminal_row ih ht

/-- An activity that has ended stays as it is, up to the discard of a dead letter. -/
theorem Steps.terminal_activity {P : Label → Prop} (h : Steps P g g')
    (ha : g.activities a = some act) (ht : act.status.isTerminal = true) :
    g'.activities a = some act ∨ (∃ l, P l ∧ l.discards = true) ∧ act.status = .deadLettered ∧
      ∃ act', g'.activities a = some act' ∧ act'.status = .cancelled := by
  induction h with
  | refl => exact .inl ha
  | tail _ hstep ih =>
    obtain ⟨l, hl, hstep⟩ := hstep
    rcases ih with ha | ⟨hdiscards, hdead, act', ha', hcancelled⟩
    · refine (hstep.terminal_activity ha ht).imp_right ?_
      rintro ⟨hdiscards, hdead, now, ha'⟩
      refine ⟨⟨l, hl, hdiscards⟩, hdead, _, ha', ?_⟩
      rw [ActivityRow.discarded, if_pos hdead]
    · refine .inr ⟨hdiscards, hdead, act', ?_, hcancelled⟩
      refine (hstep.terminal_activity ha' (by rw [hcancelled]; rfl)).resolve_right ?_
      rintro ⟨-, hdead', -⟩
      rw [hcancelled] at hdead'
      cases hdead'

theorem Steps.closed_approval {P : Label → Prop} (h : Steps P g g') (hg : g.WellFormed)
    (hp : g.approvals p = some approval) (hclosed : approval.status ≠ .pending) :
    g'.approvals p = some approval := by
  induction h with
  | refl => exact hp
  | tail hsteps hstep ih =>
    obtain ⟨l, -, hstep⟩ := hstep
    refine (hstep.approval_eq_or (Steps.wellFormed hsteps hg) ih).resolve_right ?_
    rintro ⟨hpending, -⟩
    exact hclosed hpending

/-- An approval that nothing answers stays pending or is cancelled. -/
theorem Steps.pending_approval {P : Label → Prop} (h : Steps P g g') (hg : g.WellFormed)
    (hP : ∀ l, P l → l ≠ .answered (.approval p)) (hp : g.approvals p = some approval) :
    g'.approvals p = some approval ∨
      ∃ approval', g'.approvals p = some approval' ∧ approval'.status = .cancelled := by
  induction h with
  | refl => exact .inl hp
  | tail hsteps hstep ih =>
    obtain ⟨l, hl, hstep⟩ := hstep
    have hg' := Steps.wellFormed hsteps hg
    rcases ih with hp | ⟨approval', hp', hcancelled⟩
    · refine (hstep.approval_eq_or hg' hp).imp_right ?_
      rintro ⟨-, hanswered | hcancelled⟩
      · exact absurd hanswered (hP l hl)
      · exact hcancelled
    · refine .inr ⟨approval', ?_, hcancelled⟩
      refine (Steps.single (P := fun _ => True) hstep trivial).closed_approval hg' hp' ?_
      rw [hcancelled]
      decide

namespace Evolves

theorem terminal_row (h : Evolves P db db') (hr : db.workflows.find w = some r)
    (ht : r.status.isTerminal = true) : db'.workflows.find w = some r :=
  (h.steps w).terminal_row hr ht

theorem terminal_activity (h : Evolves P db db') (ha : db.activities.find a = some act)
    (ht : act.status.isTerminal = true) :
    db'.activities.find a = some act ∨
      (∃ l, P act.workflowId l ∧ l.discards = true) ∧ act.status = .deadLettered ∧
      ∃ act', db'.activities.find a = some act' ∧ act'.status = .cancelled := by
  rcases (h.steps act.workflowId).terminal_activity (activity_of_find ha) ht with
    ha' | ⟨hl, hdead, act', ha', hcancelled⟩
  · exact .inl (aggregate_activity.mp ha').1
  · exact .inr ⟨hl, hdead, act', (aggregate_activity.mp ha').1, hcancelled⟩

theorem closed_approval (h : Evolves P db db') (hs : db.Sound)
    (hp : db.approvals.find p = some approval) (hclosed : approval.status ≠ .pending) :
    db'.approvals.find p = some approval :=
  (aggregate_approval.mp ((h.steps approval.workflowId).closed_approval (hs.wellFormed _)
    (approval_of_find hp) hclosed)).1

theorem pending_approval (h : Evolves P db db') (hs : db.Sound)
    (hP : ∀ w l, P w l → l ≠ .answered (.approval p)) (hp : db.approvals.find p = some approval) :
    db'.approvals.find p = some approval ∨
      ∃ approval', db'.approvals.find p = some approval' ∧ approval'.status = .cancelled := by
  rcases (h.steps approval.workflowId).pending_approval (hs.wellFormed _) (hP _)
    (approval_of_find hp) with hp' | ⟨approval', hp', hcancelled⟩
  · exact .inl (aggregate_approval.mp hp').1
  · exact .inr ⟨approval', (aggregate_approval.mp hp').1, hcancelled⟩

end Evolves

-- ════════════════════════════════════════════════════════════════════════
-- Actions
-- ════════════════════════════════════════════════════════════════════════

/-- The action is a recoverable start of the workflow `w`: its key leads to `w` as
the newest generation. -/
def Action.Recovers (action : Action) (db : DB) (w : WorkflowId) : Prop :=
  ∃ workflow options now key original latest, action = .recoverableStart workflow options now ∧
    options.deduplicationKey = some key ∧ db.NewestKeyed workflow.kind key original latest ∧
    latest.id = w

theorem toStartOptions_deduplicationKey (options : ApplicationStartOptions) :
    options.toStartOptions.deduplicationKey = options.deduplicationKey := by
  unfold ApplicationStartOptions.toStartOptions StartOptions.deduplicationKey
  cases options.deduplicationKey <;> rfl

/-- A dead letter is discarded by a recoverable start of its workflow only. -/
theorem exec_dead_letter (h : s.Inv) (hok : exec externals s action = .ok s')
    (ha : s.db.activities.find a = some act) (hdead : act.status = .deadLettered) :
    s'.db.activities.find a = some act ∨ action.Recovers s.db act.workflowId ∧
      ∃ act', s'.db.activities.find a = some act' ∧ act'.status = .cancelled := by
  have ht : act.status.isTerminal = true := by rw [hdead]; rfl
  have hev := (exec_leads h hok).evolves
  cases action with
  | recoverableStart workflow options now =>
    rw [exec] at hok
    obtain ⟨o, db', hstart, rfl⟩ := transact'_ok hok
    obtain ⟨hrec, -⟩ := wp_ok (wp_startOrRestartRecoverable h.sound h.attached) hstart
    have hinserted : ∀ {row : WorkflowRow} {db₁ : DB},
        Started (fun _ l => l = .inserted) s.db row db₁ → db₁.activities.find a = some act := by
      intro row db₁ hstarted
      refine (hstarted.evolves.terminal_activity ha ht).resolve_right ?_
      rintro ⟨⟨_, rfl, hl⟩, -⟩
      cases hl
    cases hrec with
    | inserted _ hstarted => exact .inl (hinserted hstarted)
    | kept => exact .inl ha
    | failed hkey hnewest _ hstarted hdiscard =>
      rw [toStartOptions_deduplicationKey] at hkey
      refine (hdiscard.terminal_activity (hinserted hstarted) ht).imp_right ?_
      rintro ⟨⟨l, ⟨hw, -⟩, -⟩, -, hcancelled⟩
      exact ⟨⟨_, _, _, _, _, _, rfl, hkey, hnewest, hw.symm⟩, hcancelled⟩
    | blocked hkey hnewest _ hstarted hsup =>
      rw [toStartOptions_deduplicationKey] at hkey
      refine (hsup.evolves.terminal_activity (hinserted hstarted) ht).imp_right ?_
      rintro ⟨⟨l, hl, hdiscards⟩, -, hcancelled⟩
      refine ⟨⟨_, _, _, _, _, _, rfl, hkey, hnewest, ?_⟩, hcancelled⟩
      cases l with
      | superseded | discarded => exact hl.symm
      | _ => cases hdiscards
  | _ =>
    refine .inl ((hev.terminal_activity ha ht).resolve_right ?_)
    rintro ⟨⟨l, ⟨hl, -⟩, hdiscards⟩, -⟩
    cases l with
    | superseded | discarded => cases hl
    | _ => cases hdiscards

/-- How an action takes an approval out of `pending`. -/
inductive ClosedBy (action : Action) (p : ApprovalId) (approval : ApprovalRow) :
    ApprovalStatus → Prop
  | resolved {registry : WorkflowRegistry} {decision : String} {operator : Operator}
      {now : DbMillis} (haction : action = .resolveApproval registry p decision operator now)
      (hearly : ∀ t, approval.expiresAt = some t → now < t) :
      ClosedBy action p approval .resolved
  | expired {now t : DbMillis} (haction : action = .expireApproval p now)
      (hexpires : approval.expiresAt = some t) (hdue : t ≤ now) :
      ClosedBy action p approval .expired
  | cancelled : ClosedBy action p approval .cancelled

/-- An approval leaves `pending` by a decision before it expires, by its expiry
afterwards, or by a cancel of its workflow. -/
theorem exec_pending_approval (h : s.Inv) (hok : exec externals s action = .ok s')
    (hp : s.db.approvals.find p = some approval) :
    s'.db.approvals.find p = some approval ∨
      ∃ approval', s'.db.approvals.find p = some approval' ∧
        ClosedBy action p approval approval'.status := by
  have hev := (exec_leads h hok).evolves
  -- the two actions that answer approvals say what they do with the one they name
  have hcloses : ∀ {q : ApprovalId} {status : ApprovalStatus} {due : ApprovalRow → Prop},
      ClosesApproval q status due s.db s'.db →
      (q = p → due approval → ClosedBy action p approval status) →
      s'.db.approvals.find p = some approval ∨
        ∃ approval', s'.db.approvals.find p = some approval' ∧
          ClosedBy action p approval approval'.status := by
    intro q status due hcloses hby
    by_cases hq : p = q
    · subst hq
      obtain ⟨approval₀, approval', hfind, -, hdue, hfind', rfl⟩ := hcloses.closed
      obtain rfl := Option.some_inj.mp (hp.symm.trans hfind)
      exact .inr ⟨approval', hfind', hby rfl hdue⟩
    · exact .inl ((hcloses.other p hq).trans hp)
  cases action with
  | resolveApproval registry q decision operator now =>
    rw [exec] at hok
    obtain ⟨o, db', hresolve, rfl⟩ := transact'_ok hok
    refine hcloses (wp_ok (wp_resolveApproval h.sound) hresolve) ?_
    rintro rfl hearly
    exact .resolved rfl hearly
  | expireApproval q now =>
    rw [exec] at hok
    obtain ⟨o, db', hexpire, rfl⟩ := transact'_ok hok
    rcases wp_ok (wp_materializeApproval h.sound) hexpire with rfl | hclosed
    · exact .inl hp
    · refine hcloses hclosed ?_
      rintro rfl ⟨t, hexpires, hdue⟩
      exact .expired rfl hexpires hdue
  | _ =>
    refine (hev.pending_approval h.sound ?_ hp).imp_right ?_
    · rintro w _ ⟨hl, -⟩ rfl
      cases hl
    · rintro ⟨approval', hp', hcancelled⟩
      exact ⟨approval', hp', hcancelled ▸ .cancelled⟩

/-- Terminal statuses are absorbing. In every state reachable later, a workflow that
has ended has the same row, an activity that succeeded or was cancelled has the same
row, a dead letter has the same row or is cancelled, and an approval that is not
pending has the same row. One action cancels a dead letter only if it is a recoverable
start of the activity's workflow, and takes an approval out of `pending` only by a
decision before the approval expires, by its expiry afterwards, or by a cancel. -/
theorem run_absorbing (externals : Externals) (actions : List Action) :
    let s := run externals Sys.init actions
    (∀ later, let s' := run externals s later
      (∀ w r, s.db.workflows.find w = some r → r.status.isTerminal = true →
        s'.db.workflows.find w = some r) ∧
      (∀ a act, s.db.activities.find a = some act →
        act.status = .succeeded ∨ act.status = .cancelled → s'.db.activities.find a = some act) ∧
      (∀ a act, s.db.activities.find a = some act → act.status = .deadLettered →
        s'.db.activities.find a = some act ∨
          ∃ act', s'.db.activities.find a = some act' ∧ act'.status = .cancelled) ∧
      ∀ p approval, s.db.approvals.find p = some approval → approval.status ≠ .pending →
        s'.db.approvals.find p = some approval) ∧
    ∀ action s', exec externals s action = .ok s' →
      (∀ a act, s.db.activities.find a = some act → act.status = .deadLettered →
        s'.db.activities.find a = some act ∨ action.Recovers s.db act.workflowId ∧
          ∃ act', s'.db.activities.find a = some act' ∧ act'.status = .cancelled) ∧
      ∀ p approval, s.db.approvals.find p = some approval → approval.status = .pending →
        s'.db.approvals.find p = some approval ∨
          ∃ approval', s'.db.approvals.find p = some approval' ∧
            ClosedBy action p approval approval'.status := by
  have hinv := run_inv externals actions
  refine ⟨fun later => ?_, fun action s' hok => ⟨fun a act ha hdead => ?_, fun p approval hp _ => ?_⟩⟩
  · have hev := hinv.run_evolves externals later
    refine ⟨fun w r hr ht => hev.terminal_row hr ht, fun a act ha hdone => ?_,
      fun a act ha hdead => ?_, fun p approval hp hclosed => hev.closed_approval hinv.sound hp hclosed⟩
    · have ht : act.status.isTerminal = true := by rcases hdone with h | h <;> rw [h] <;> rfl
      refine (hev.terminal_activity ha ht).resolve_right ?_
      rintro ⟨-, hdead, -⟩
      rcases hdone with h | h <;> rw [h] at hdead <;> cases hdead
    · exact (hev.terminal_activity ha (by rw [hdead]; rfl)).imp_right fun h => h.2.2
  · exact exec_dead_letter hinv hok ha hdead
  · exact exec_pending_approval hinv hok hp

end DurableWorkflows
