import DurableWorkflows.Engine.Invariant

/-!
# Steps preserve the invariant

Every step of an aggregate preserves `Aggregate.WellFormed`, one lemma for each
group of steps that change the same rows.

## Main results

- `Step.wellFormed`, `Steps.wellFormed`
-/

namespace DurableWorkflows

variable {g g' : Aggregate} {r r' : WorkflowRow} {e : WorkflowEventRow} {a : ActivityId}
  {act act' : ActivityRow}

/-- A lookup after a store finds the stored value or what was there. -/
theorem update_cases {β : Type} {f : ℕ → Option β} {i j : ℕ} {x y : β}
    (h : Function.update f i (some x) j = some y) : j = i ∧ x = y ∨ j ≠ i ∧ f j = some y := by
  rw [Function.update_apply] at h
  split at h
  · exact .inl ⟨‹_›, by simpa using h⟩
  · exact .inr ⟨‹_›, h⟩

/-- A store leaves no new gaps. -/
theorem update_none {β : Type} {f : ℕ → Option β} {i j : ℕ} {x : β}
    (h : Function.update f i (some x) j = none) : f j = none := by
  rw [Function.update_apply] at h
  split at h
  · cases h
  · exact h

/-- A row that gives up or keeps away from the lease. -/
theorem RowInv.unleased (h : RowInv r) (howner : r'.leaseOwner = none)
    (htoken : r'.leaseToken = none) (hexpiry : r'.leaseExpiresAt = none)
    (hstatus : r'.status ≠ .running) (hcolumns : r'.waitKind.isSome = r'.waitReferenceId.isSome)
    (hallowed : r'.status.allows r'.awaited = true) (hid : r'.id = r.id)
    (hparent : r'.parentWorkflowId = r.parentWorkflowId)
    (hsource : r'.restartedFromWorkflowId = r.restartedFromWorkflowId)
    (hcommand : r'.commandSequence ≤ r'.deliveredEventSequence) : RowInv r' where
  leaseOwner := by simp [howner, hstatus]
  leaseToken := by simp [htoken, hstatus]
  leaseExpiresAt := by simp [hexpiry, hstatus]
  columns := hcolumns
  allowed := hallowed
  parent := by rw [hid, hparent]; exact h.parent
  restartedFrom := by rw [hid, hsource]; exact h.restartedFrom
  command_le := hcommand

/-- The lease columns of a row that is not running are null. -/
theorem RowInv.lease_none (h : RowInv r) (hs : r.status ≠ .running) :
    r.leaseOwner = none ∧ r.leaseToken = none ∧ r.leaseExpiresAt = none := by
  have hrun : (r.status == .running) = false := by simpa using hs
  have howner := h.leaseOwner
  have htoken := h.leaseToken
  have hexpiry := h.leaseExpiresAt
  rw [hrun, Option.isSome_eq_false_iff, Option.isNone_iff_eq_none] at howner htoken hexpiry
  exact ⟨howner, htoken, hexpiry⟩

/-- A change of a row that is not running and stays so. -/
theorem RowInv.restate (h : RowInv r) (hs : r.status ≠ .running)
    (howner : r'.leaseOwner = r.leaseOwner) (htoken : r'.leaseToken = r.leaseToken)
    (hexpiry : r'.leaseExpiresAt = r.leaseExpiresAt)
    (hstatus : r'.status ≠ .running) (hcolumns : r'.waitKind.isSome = r'.waitReferenceId.isSome)
    (hallowed : r'.status.allows r'.awaited = true) (hid : r'.id = r.id)
    (hparent : r'.parentWorkflowId = r.parentWorkflowId)
    (hsource : r'.restartedFromWorkflowId = r.restartedFromWorkflowId)
    (hcommand : r'.commandSequence ≤ r'.deliveredEventSequence) : RowInv r' := by
  obtain ⟨h1, h2, h3⟩ := h.lease_none hs
  exact h.unleased (howner.trans h1) (htoken.trans h2) (hexpiry.trans h3) hstatus hcolumns hallowed
    hid hparent hsource hcommand

-- ════════════════════════════════════════════════════════════════════════
-- Steps of the workflow row
-- ════════════════════════════════════════════════════════════════════════

/-- The row waits for neither an activity nor an approval. -/
def WorkflowRow.Idle (r : WorkflowRow) : Prop :=
  (∀ a, r.awaited ≠ some (.activity a)) ∧ ∀ p, r.awaited ≠ some (.approval p)

/-- A step that changes only the row and the log, from a row that waits for
neither an activity nor an approval. -/
theorem Inv.of_idle (h : Inv g r) (ht : r.status.isTerminal = false) (hidle : r.Idle)
    (hact : g'.activities = g.activities) (hatt : g'.attempts = g.attempts)
    (happ : g'.approvals = g.approvals) (hrow : RowInv r')
    (hdelivery : Delivery g'.events r'.control) (hresults : Results g'.events g.activities)
    (hcommand : r.commandSequence ≤ r'.commandSequence)
    (hawaited : r'.status.isTerminal = false → ∀ wait, r'.awaited = some wait →
      Awaited g.activities g.approvals r'.control wait) : Inv g' r' where
  row := hrow
  delivery := hdelivery
  awaited := by rw [hact, happ]; exact hawaited
  ledger := by rw [hact, hatt]; exact h.ledger
  coupled a act ha := by
    rw [hact] at ha
    exact .of_terminal (h.idle ht hidle.1 ha) ((h.coupled a act ha).command_le.trans hcommand)
  orphans := by rw [hact, hatt]; exact h.orphans
  approvals p approval hp := by
    rw [happ] at hp
    refine ⟨(h.approvals p approval hp).command_le.trans hcommand, fun hs => ?_⟩
    exact absurd hs (h.noPendingApproval hidle.2 hp)
  results := by rw [hact]; exact hresults

/-- A row that is ready or running is idle. -/
theorem Inv.idle_of_not_waiting (h : Inv g r) (hs : r.status = .ready ∨ r.status = .running) :
    r.Idle := by
  simp [WorkflowRow.Idle, h.not_waiting hs]

theorem Inv.history (h : Inv g r) (he : NextEvent g.events none e) (ha : e.answers = none) :
    Inv (g.addEvent e) r where
  row := h.row
  delivery := h.delivery.history he ha
  awaited := h.awaited
  ledger := h.ledger
  coupled := h.coupled
  orphans := h.orphans
  approvals := h.approvals
  results := h.results.add (activityResult_of_answers_none ha)

theorem Inv.claimed (h : Inv g r) (hs : r.status = .ready) (owner : String) (token : LeaseToken)
    (expiry now : DbMillis) :
    Inv (g.setRow { r with
      status := .running, leaseOwner := some owner, leaseToken := some token
      leaseExpiresAt := some expiry, updatedAt := now }) { r with
      status := .running, leaseOwner := some owner, leaseToken := some token
      leaseExpiresAt := some expiry, updatedAt := now } := by
  have hwait := h.not_waiting (.inl hs)
  have ht : r.status.isTerminal = false := by rw [hs]; rfl
  refine h.of_idle ht (h.idle_of_not_waiting (.inl hs)) rfl rfl rfl ?_ ?_ h.results le_rfl ?_
  · exact ⟨rfl, rfl, rfl, h.row.columns, Option.isNone_iff_eq_none.mpr hwait, h.row.parent,
      h.row.restartedFrom, h.row.command_le⟩
  · exact h.delivery.restate rfl rfl fun _ => ⟨ht, Iff.rfl⟩
  · exact fun _ wait hw => absurd (hw.symm.trans hwait) (by simp)

/-- A running row gives up its lease and is ready or terminal. -/
theorem Inv.released (h : Inv g r) (hs : r.status = .running) (howner : r'.leaseOwner = none)
    (htoken : r'.leaseToken = none) (hexpiry : r'.leaseExpiresAt = none)
    (hstatus : r'.status = .ready ∨ r'.status.isTerminal = true)
    (hkind : r'.waitKind = r.waitKind) (href : r'.waitReferenceId = r.waitReferenceId)
    (hid : r'.id = r.id) (hparent : r'.parentWorkflowId = r.parentWorkflowId)
    (hsource : r'.restartedFromWorkflowId = r.restartedFromWorkflowId)
    (hcommand : r'.commandSequence = r.commandSequence)
    (hdelivered : r.deliveredEventSequence ≤ r'.deliveredEventSequence)
    (hrow : g'.activities = g.activities) (hatt : g'.attempts = g.attempts)
    (happ : g'.approvals = g.approvals)
    (hdelivery : Delivery g'.events r'.control) (hresults : Results g'.events g.activities) :
    Inv g' r' := by
  have hwait := h.not_waiting (.inr hs)
  have hwait' : r'.awaited = none := by
    simpa [WorkflowRow.awaited, hkind, href] using hwait
  have ht : r.status.isTerminal = false := by rw [hs]; rfl
  refine h.of_idle ht (h.idle_of_not_waiting (.inr hs)) hrow hatt happ ?_ hdelivery hresults
    hcommand.ge ?_
  · refine h.row.unleased howner htoken hexpiry ?_ (by rw [hkind, href]; exact h.row.columns) ?_ hid
      hparent hsource (hcommand ▸ h.row.command_le.trans hdelivered)
    · rcases hstatus with hs' | hs' <;> rintro hr <;> simp [hr, WorkflowStatus.isTerminal] at hs'
    · rw [hwait']
      rcases hstatus with hs' | hs'
      · rw [hs']; rfl
      · cases hst : r'.status <;> simp_all [WorkflowStatus.isTerminal, WorkflowStatus.allows]
  · exact fun _ wait hw => absurd (hw.symm.trans hwait') (by simp)

section Commits

variable {wait : Wait} {status : WorkflowStatus} {stateJson : String} {stateVersion : ℕ}
  {availableAt now : DbMillis}

@[simp]
theorem awaited_committed :
    (r.committed wait status stateJson stateVersion availableAt now).awaited = some wait :=
  awaited_waitOn (r := r)

@[simp]
theorem control_committed :
    (r.committed wait status stateJson stateVersion availableAt now).control =
      ⟨status, some wait, r.commandSequence + 1, r.deliveredEventSequence + 1, r.kind, r.version⟩ := by
  rw [WorkflowRow.control, awaited_committed]
  rfl

theorem RowInv.committed (h : RowInv r) (hallowed : status.allows (some wait) = true)
    (hrun : status ≠ .running) :
    RowInv (r.committed wait status stateJson stateVersion availableAt now) :=
  h.unleased rfl rfl rfl hrun rfl (awaited_committed (r := r) ▸ hallowed) rfl rfl rfl
    (Nat.succ_le_succ h.command_le)

theorem Inv.delivery_committed (h : Inv g r) (hs : r.status = .running) :
    Delivery g.events
      (r.committed wait status stateJson stateVersion availableAt now).control := by
  refine h.delivery.consume (by simp [WorkflowRow.control, hs, WorkflowStatus.isTerminal])
    (h.not_waiting (.inr hs)) rfl (Nat.le_succ _) fun _ => ⟨?_, Nat.lt_succ_self _⟩
  simp [WorkflowRow.control]

/-- A commit that waits for a timer or a child. -/
theorem Inv.committed (h : Inv g r) (hs : r.status = .running)
    (hallowed : status.allows (some wait) = true) (hrun : status ≠ .running)
    (hawaited : Awaited g.activities g.approvals
      (r.committed wait status stateJson stateVersion availableAt now).control wait) :
    Inv (g.setRow (r.committed wait status stateJson stateVersion availableAt now))
      (r.committed wait status stateJson stateVersion availableAt now) := by
  have ht : r.status.isTerminal = false := by rw [hs]; rfl
  refine h.of_idle ht (h.idle_of_not_waiting (.inr hs)) rfl rfl rfl (h.row.committed hallowed hrun)
    (h.delivery_committed hs) h.results (Nat.le_succ _) fun _ wait' hw => ?_
  rw [awaited_committed] at hw
  cases hw
  exact hawaited

theorem Inv.waitedApproval {p : ApprovalId} {approval : ApprovalRow} (h : Inv g r)
    (hs : r.status = .running) (hstatus : approval.status = .pending)
    (hkind : approval.kind = r.kind) (hversion : approval.version = r.version)
    (hcommand : approval.commandSequence = r.commandSequence + 1) :
    Inv ((g.setApproval p approval).setRow
      (r.committed (.approval p) .waitingApproval stateJson stateVersion availableAt now))
      (r.committed (.approval p) .waitingApproval stateJson stateVersion availableAt now) := by
  have ht : r.status.isTerminal = false := by rw [hs]; rfl
  have hidle := h.idle_of_not_waiting (.inr hs)
  refine ⟨h.row.committed rfl (by simp), h.delivery_committed hs, ?_, h.ledger, ?_, h.orphans, ?_,
    h.results⟩
  · intro _ wait hw
    rw [awaited_committed] at hw
    cases hw
    exact ⟨approval, Function.update_self .., hstatus, hcommand, hkind, hversion⟩
  · intro a act ha
    exact .of_terminal (h.idle ht hidle.1 ha) ((h.coupled a act ha).command_le.trans (Nat.le_succ _))
  · intro p' approval' hp'
    rcases update_cases hp' with ⟨rfl, rfl⟩ | ⟨-, hp'⟩
    · exact ⟨hcommand.le, fun _ => by simp [WorkflowStatus.isTerminal]⟩
    · exact ⟨(h.approvals p' approval' hp').command_le.trans (Nat.le_succ _), fun hpending =>
        absurd hpending (h.noPendingApproval hidle.2 hp')⟩

/-- The results of a log do not change when an activity is inserted. -/
theorem Results.insert {events : List WorkflowEventRow}
    {activities : ActivityId → Option ActivityRow} (h : Results events activities)
    (ha : activities a = none) (hs : act.status ≠ .succeeded) :
    Results events (Function.update activities a (some act)) := by
  refine h.restate ?_ ?_
  · intro a' act' ha' _
    rw [Function.update_of_ne _, ha']
    rintro rfl
    simp [ha] at ha'
  · intro a' act' ha' hs'
    rcases update_cases ha' with ⟨rfl, rfl⟩ | ⟨-, ha'⟩
    · exact absurd hs' hs
    · exact ha'

theorem Inv.waitedActivity (h : Inv g r) (hs : r.status = .running) (ha : g.activities a = none)
    (hfresh : act.Fresh) (hcommand : act.commandSequence = r.commandSequence + 1) :
    Inv ((g.setActivity a act).setRow
      (r.committed (.activity a) .waitingActivity stateJson stateVersion availableAt now))
      (r.committed (.activity a) .waitingActivity stateJson stateVersion availableAt now) := by
  have ht : r.status.isTerminal = false := by rw [hs]; rfl
  have hidle := h.idle_of_not_waiting (.inr hs)
  refine ⟨h.row.committed rfl (by simp), h.delivery_committed hs, ?_, ?_, ?_,
    fun a' n ha' => h.orphans a' n (update_none ha'), ?_,
    h.results.insert ha (by simp [hfresh.status])⟩
  · intro _ wait hw
    rw [awaited_committed] at hw
    cases hw
    refine ⟨act, Function.update_self .., hcommand, by rw [hfresh.status]; rfl, ?_⟩
    intro a' act' ha' hcommand'
    rcases update_cases ha' with ⟨rfl, rfl⟩ | ⟨-, ha'⟩
    · exact le_rfl
    · -- an older activity has a smaller command
      have hle : act'.commandSequence ≤ r.commandSequence := (h.coupled a' act' ha').command_le
      rw [control_committed] at hcommand'
      simp only at hcommand'
      omega
  · intro a' act' ha'
    rcases update_cases ha' with ⟨rfl, rfl⟩ | ⟨-, ha'⟩
    · exact .fresh hfresh fun n => h.orphans a' n ha
    · exact h.ledger a' act' ha'
  · intro a' act' ha'
    rcases update_cases ha' with ⟨rfl, rfl⟩ | ⟨-, ha'⟩
    · refine ⟨hcommand.le, fun _ _ => by simp, fun h' => by simp [WorkflowStatus.isTerminal] at h',
        fun h' => by simp [hfresh.status] at h'⟩
    · exact .of_terminal (h.idle ht hidle.1 ha')
        ((h.coupled a' act' ha').command_le.trans (Nat.le_succ _))
  · intro p approval hp
    exact ⟨(h.approvals p approval hp).command_le.trans (Nat.le_succ _), fun hpending =>
      absurd hpending (h.noPendingApproval hidle.2 hp)⟩

end Commits

-- ════════════════════════════════════════════════════════════════════════
-- Answers
-- ════════════════════════════════════════════════════════════════════════

/-- A row that waits is not running. -/
theorem RowInv.not_running (h : RowInv r) {wait : Wait} (hw : r.awaited = some wait) :
    r.status ≠ .running := by
  intro hs
  have := h.allowed
  simp [hs, hw, WorkflowStatus.allows] at this

@[simp]
theorem control_woken (now : DbMillis) :
    (r.woken now).control = ⟨if r.status = .paused then .paused else .ready, none,
      r.commandSequence, r.deliveredEventSequence, r.kind, r.version⟩ := rfl

theorem RowInv.woken (h : RowInv r) {wait : Wait} (hw : r.awaited = some wait) (now : DbMillis) :
    RowInv (r.woken now) := by
  refine h.restate (h.not_running hw) rfl rfl rfl ?_ rfl ?_ rfl rfl rfl h.command_le
  · simp only [WorkflowRow.woken]
    split <;> simp
  · change WorkflowStatus.allows (if r.status = .paused then .paused else .ready) none = true
    split <;> rfl

theorem woken_open (now : DbMillis) : (r.woken now).status.isTerminal = false := by
  simp only [WorkflowRow.woken]
  split <;> rfl

/-- The pending event after an answer. -/
theorem Inv.delivery_answered {wait : Wait} (h : Inv g r) (ht : r.status.isTerminal = false)
    (hw : r.awaited = some wait)
    (he : NextEvent g.events (some (r.deliveredEventSequence + 1)) e)
    (ha : e.answers = some r.commandSequence) (now : DbMillis) :
    Delivery (g.events ++ [e]) (r.woken now).control :=
  h.delivery.answer ht (by simp [WorkflowRow.control, hw]) he ha rfl rfl rfl

theorem Inv.answered {wait : Wait} (h : Inv g r) (hw : r.awaited = some wait)
    (hs : r.status.awaitsChild ∧ wait.kind = .child ∨ r.status = .sleeping ∧ wait.kind = .timer)
    (he : NextEvent g.events (some (r.deliveredEventSequence + 1)) e)
    (ha : e.answers = some r.commandSequence) (hkind : e.answersKind = some wait.kind)
    (now : DbMillis) : Inv ((g.addEvent e).setRow (r.woken now)) (r.woken now) := by
  have hres : e.activityResult = none := activityResult_of_answersKind hkind <| by
    rcases hs with ⟨-, hs⟩ | ⟨-, hs⟩ <;> simp [hs]
  have ht : r.status.isTerminal = false := by
    rcases hs with ⟨hs, -⟩ | ⟨hs, -⟩
    · cases hst : r.status <;> simp_all [WorkflowStatus.awaitsChild, WorkflowStatus.isTerminal]
    · rw [hs]; rfl
  have hidle : r.Idle := by
    constructor <;> intro _ hw' <;> rw [hw] at hw' <;> cases hw' <;> simp [Wait.kind] at hs
  exact h.of_idle ht hidle rfl rfl rfl (h.row.woken hw now) (h.delivery_answered ht hw he ha now)
    (h.results.add hres) le_rfl fun _ wait hw' => by cases hw'

theorem Inv.answeredApproval {p : ApprovalId} {approval approval' : ApprovalRow} (h : Inv g r)
    (hw : r.awaited = some (.approval p)) (hs : r.status.awaitsApproval)
    (hp : g.approvals p = some approval)
    (hcommand : approval'.commandSequence = approval.commandSequence)
    (hstatus : approval'.status ≠ .pending)
    (he : NextEvent g.events (some (r.deliveredEventSequence + 1)) e)
    (ha : e.answers = some r.commandSequence) (hkind : e.answersKind = some .approval)
    (now : DbMillis) :
    Inv (((g.addEvent e).setApproval p approval').setRow (r.woken now)) (r.woken now) := by
  have hres := activityResult_of_answersKind hkind (by simp)
  have ht : r.status.isTerminal = false := by
    cases hst : r.status <;> simp_all [WorkflowStatus.awaitsApproval, WorkflowStatus.isTerminal]
  refine ⟨h.row.woken hw now, h.delivery_answered ht hw he ha now, ?_, h.ledger, ?_, h.orphans, ?_,
    h.results.add hres⟩
  · exact fun _ wait hw' => by cases hw'
  · intro a act ha
    exact .of_terminal (h.idle ht (by simp [hw]) ha) (h.coupled a act ha).command_le
  · intro p' approval'' hp'
    rcases update_cases hp' with ⟨rfl, rfl⟩ | ⟨hne, hp'⟩
    · exact ⟨hcommand ▸ (h.approvals _ _ hp).command_le, fun hpending => absurd hpending hstatus⟩
    · refine ⟨(h.approvals p' _ hp').command_le, fun hpending => ?_⟩
      have hw' := ((h.approvals p' _ hp').live hpending).2
      exact absurd (hw.symm.trans hw') (by simp [Ne.symm hne])

theorem Inv.reattached {c : WorkflowId} (h : Inv g r) (hw : r.awaited = some (.child c))
    (hs : r.status.awaitsChild) (c' : WorkflowId) (now : DbMillis) :
    Inv (g.setRow { r.waitOn (.child c') with updatedAt := now })
      { r.waitOn (.child c') with updatedAt := now } := by
  have ht : r.status.isTerminal = false := by
    cases hst : r.status <;> simp_all [WorkflowStatus.awaitsChild, WorkflowStatus.isTerminal]
  have hw' : ({ r.waitOn (.child c') with updatedAt := now } : WorkflowRow).awaited =
      some (.child c') := awaited_waitOn (r := r)
  refine h.of_idle ht (by simp [WorkflowRow.Idle, hw]) rfl rfl rfl ?_ ?_ h.results le_rfl ?_
  · refine h.row.restate (h.row.not_running hw) rfl rfl rfl (h.row.not_running hw) rfl ?_ rfl rfl
      rfl h.row.command_le
    rw [hw']
    cases hst : r.status <;> simp_all [WorkflowStatus.awaitsChild, WorkflowRow.waitOn] <;> rfl
  · refine h.delivery.restate rfl rfl fun _ => ⟨ht, ?_⟩
    simp [WorkflowRow.control, hw, hw']
  · intro _ wait hwait
    rw [hw'] at hwait
    cases hwait
    trivial

-- ════════════════════════════════════════════════════════════════════════
-- Pauses and resumes
-- ════════════════════════════════════════════════════════════════════════

/-- A change of status of an open row that keeps its wait. -/
theorem Inv.restate (h : Inv g r) (ht : r.status.isTerminal = false) (hrow : RowInv r')
    (ht' : r'.status.isTerminal = false)
    (hcontrol : r'.control = { r.control with status := r'.status })
    (hactivity : ∀ a act, r.awaited = some (.activity a) → g.activities a = some act →
      r'.status.awaitedActivity act.status = true) : Inv (g.setRow r') r' := by
  have hwait : r'.awaited = r.awaited := congrArg Control.wait hcontrol
  refine ⟨hrow, ?_, ?_, h.ledger, ?_, h.orphans, ?_, h.results⟩
  · rw [hcontrol]
    exact h.delivery.restate rfl rfl fun _ => ⟨ht, Iff.rfl⟩
  · intro _ wait hw
    rw [hwait] at hw
    have hold := h.awaited ht wait hw
    rw [hcontrol]
    cases wait with
    | timer | child | approval => exact hold
    | activity a =>
      obtain ⟨act, ha, hcommand, -, hreplacement⟩ := hold
      exact ⟨act, ha, hcommand, hactivity a act hw ha, hreplacement⟩
  · intro a act ha
    rw [hcontrol]
    exact (h.coupled a act ha).restate ht rfl le_rfl ht'
  · intro p approval hp
    rw [hcontrol]
    exact ⟨(h.approvals p approval hp).command_le, fun hpending =>
      ⟨ht', ((h.approvals p approval hp).live hpending).2⟩⟩

theorem Inv.paused (h : Inv g r) (hs : r.status ≠ .paused) (ht : r.status.isTerminal = false)
    (ha : ∀ a act, r.awaited = some (.activity a) → g.activities a = some act →
      act.status ≠ .running) (now : DbMillis) :
    Inv (g.setRow { r.leaseCleared with status := .paused, updatedAt := now })
      { r.leaseCleared with status := .paused, updatedAt := now } := by
  refine h.restate ht (h.row.unleased rfl rfl rfl (by simp) h.row.columns rfl rfl rfl rfl
    h.row.command_le) rfl rfl fun a act hw hact => ?_
  have hstatus := h.awaitedActivity_status ht hw hact
  have hne := ha a act hw hact
  cases hr : r.status <;> cases hst : act.status <;>
    simp_all [WorkflowStatus.awaitedActivity, ActivityStatus.isTerminal]

theorem Inv.resumed {status : WorkflowStatus} (h : Inv g r) (hs : r.status = .paused)
    (hstatus : g.ResumesTo r status) (availableAt now : DbMillis) :
    Inv (g.setRow { r.leaseCleared with status, availableAt, updatedAt := now })
      { r.leaseCleared with status, availableAt, updatedAt := now } := by
  have ht : r.status.isTerminal = false := by rw [hs]; rfl
  have hallowed : status.allows r.awaited = true ∧ status ≠ .running ∧
      status.isTerminal = false := by
    unfold Aggregate.ResumesTo at hstatus
    split at hstatus <;> rename_i hw <;> rw [hw]
    · subst hstatus; simp [WorkflowStatus.allows, WorkflowStatus.isTerminal]
    · subst hstatus; simp [WorkflowStatus.allows, WorkflowStatus.isTerminal, Wait.kind]
    · subst hstatus; simp [WorkflowStatus.allows, WorkflowStatus.isTerminal, Wait.kind]
    · subst hstatus; simp [WorkflowStatus.allows, WorkflowStatus.isTerminal, Wait.kind]
    · obtain ⟨act, -, ⟨-, rfl⟩ | ⟨-, rfl⟩⟩ := hstatus <;>
        simp [WorkflowStatus.allows, WorkflowStatus.isTerminal, Wait.kind]
  refine h.restate ht (h.row.unleased rfl rfl rfl hallowed.2.1 h.row.columns hallowed.1 rfl rfl rfl
    h.row.command_le) hallowed.2.2 rfl fun a act hw hact => ?_
  unfold Aggregate.ResumesTo at hstatus
  rw [hw] at hstatus
  obtain ⟨act', hact', hcases⟩ := hstatus
  rw [hact] at hact'
  cases hact'
  rcases hcases with ⟨hterm, rfl⟩ | ⟨hdead, rfl⟩
  · simp [WorkflowStatus.awaitedActivity, hterm]
  · simp [WorkflowStatus.awaitedActivity, hdead]

-- ════════════════════════════════════════════════════════════════════════
-- Steps of an activity
-- ════════════════════════════════════════════════════════════════════════

/-- A step that changes one activity with its attempts and at most the status
of the row. -/
theorem Inv.editActivity (h : Inv g r) (ha : g.activities a = some act)
    (hact : g'.activities = Function.update g.activities a (some act'))
    (hatt : ∀ i, i ≠ a → g'.attempts i = g.attempts i) (happ : g'.approvals = g.approvals)
    (hevents : g'.events = g.events) (hledger : Ledger act' (g'.attempts a))
    (hcommand : act'.commandSequence = act.commandSequence)
    (hreplacement : act'.replacementNumber = act.replacementNumber)
    (hold : act.status ≠ .succeeded) (hnew : act'.status ≠ .succeeded)
    (hlive : act'.status.isTerminal = false → act.status.isTerminal = false)
    (hrow : RowInv r') (hcontrol : r'.control = { r.control with status := r'.status })
    (ht : r'.status.isTerminal = r.status.isTerminal)
    (hwait : r'.status = r.status ∨ r.awaited = some (.activity a))
    (hawaited : r.status.isTerminal = false → r.awaited = some (.activity a) →
      r'.status.awaitedActivity act'.status = true)
    (hrevoked : r.status.isTerminal = true → act'.status ≠ .pending ∧ act'.status ≠ .running)
    (hbudget : act'.status = .cancelling → r.status.isTerminal = false →
      act'.attemptCount < act'.maxAttempts) : Inv g' r' := by
  have hsame : r'.awaited = r.awaited := congrArg Control.wait hcontrol
  refine ⟨hrow, ?_, ?_, ?_, ?_, ?_, ?_, ?_⟩
  · rw [hevents, hcontrol]
    exact h.delivery.restate rfl rfl fun hopen => ⟨ht ▸ hopen, Iff.rfl⟩
  · intro hopen wait hw
    rw [ht] at hopen
    rw [hsame] at hw
    rw [hcontrol, happ]
    have hold' := h.awaited hopen wait hw
    cases wait with
    | timer | child | approval => exact hold'
    | activity i =>
      obtain ⟨acti, hi, hcommandi, hstatus, hnewest⟩ := hold'
      -- every activity of the command is replaced by one with the same number
      have hbound : ∀ a' act'', g'.activities a' = some act'' →
          act''.commandSequence = r.commandSequence →
          act''.replacementNumber ≤ acti.replacementNumber := by
        intro a' act'' ha' hc
        rw [hact] at ha'
        rcases update_cases ha' with ⟨rfl, rfl⟩ | ⟨-, ha'⟩
        · exact hreplacement ▸ hnewest a' act ha (hcommand ▸ hc)
        · exact hnewest a' act'' ha' hc
      by_cases hia : i = a
      · subst hia
        obtain rfl : acti = act := by simpa [hi] using ha
        exact ⟨act', by rw [hact, Function.update_self], hcommand ▸ hcommandi, hawaited hopen hw,
          fun a' act'' ha' hc => hreplacement ▸ hbound a' act'' ha' hc⟩
      · have hr : r'.status = r.status := hwait.resolve_right fun hw' =>
          hia (by simpa [hw] using hw')
        exact ⟨acti, by rw [hact, Function.update_of_ne hia, hi], hcommandi, by rw [hr]; exact hstatus,
          hbound⟩
  · intro i acti hi
    rw [hact] at hi
    rcases update_cases hi with ⟨rfl, rfl⟩ | ⟨hne, hi⟩
    · exact hledger
    · rw [hatt i hne]
      exact h.ledger i acti hi
  · intro i acti hi
    rw [hact] at hi
    rw [hcontrol]
    rcases update_cases hi with ⟨rfl, rfl⟩ | ⟨-, hi⟩
    · have hc := h.coupled i act ha
      exact ⟨hcommand ▸ hc.command_le, fun hl hopen => hc.live (hlive hl) (ht ▸ hopen),
        fun hterm => hrevoked (ht ▸ hterm), fun hs hopen => hbudget hs (ht ▸ hopen)⟩
    · have hc := h.coupled i acti hi
      exact ⟨hc.command_le, fun hl hopen => hc.live hl (ht ▸ hopen),
        fun hterm => hc.revoked (ht ▸ hterm), fun hs hopen => hc.budget hs (ht ▸ hopen)⟩
  · intro i n hi
    rw [hact] at hi
    have hia : i ≠ a := by
      rintro rfl
      simp at hi
    rw [hatt i hia]
    exact h.orphans i n (update_none hi)
  · intro p approval hp
    rw [happ] at hp
    rw [hcontrol]
    have hc := h.approvals p approval hp
    exact ⟨hc.command_le, fun hs => ⟨ht ▸ (hc.live hs).1, (hc.live hs).2⟩⟩
  · rw [hevents, hact]
    refine h.results.restate ?_ ?_
    · intro i acti hi hs
      rw [Function.update_of_ne _, hi]
      rintro rfl
      obtain rfl : acti = act := by simpa [hi] using ha
      exact hold hs
    · intro i acti hi hs
      rcases update_cases hi with ⟨rfl, rfl⟩ | ⟨-, hi⟩
      · exact absurd hs hnew
      · exact hi

theorem setAttempt_attempts_self (n : ℕ) (attempt : ActivityAttemptRow) :
    (g.setAttempt a n attempt).attempts a =
      fun m => if m = n then some attempt else g.attempts a m := by
  simp [Aggregate.setAttempt]

theorem setAttempt_attempts_of_ne {i : ActivityId} (hi : i ≠ a) (n : ℕ)
    (attempt : ActivityAttemptRow) : (g.setAttempt a n attempt).attempts i = g.attempts i := by
  simp [Aggregate.setAttempt, hi]

/-- The lease of a running or revoked activity is known. -/
theorem Ledger.lease {attempts : ℕ → Option ActivityAttemptRow} (h : Ledger act attempts)
    (hs : act.status.holdsLease = true) :
    act.leaseOwner.isSome ∧ act.leaseToken.isSome ∧ act.leaseExpiresAt.isSome := by
  rw [h.leaseOwner, h.leaseToken, h.leaseExpiresAt, hs]
  simp

/-- An open workflow has one activity that holds a lease, the awaited one. -/
theorem Inv.awaits (h : Inv g r) (ht : r.status.isTerminal = false)
    (ha : g.activities a = some act) (hs : act.status.isTerminal = false) :
    r.awaited = some (.activity a) :=
  (h.coupled a act ha).live hs ht

/-- A running or pending activity belongs to an open workflow. -/
theorem Inv.open_of_active (h : Inv g r) (ha : g.activities a = some act)
    (hs : act.status = .pending ∨ act.status = .running) : r.status.isTerminal = false := by
  by_contra hterm
  rw [Bool.not_eq_false] at hterm
  have := (h.coupled a act ha).revoked hterm
  rcases hs with hs | hs
  · exact this.1 hs
  · exact this.2 hs

theorem Inv.revoked (h : Inv g r) (hs : r.status = .waitingActivity)
    (hw : r.awaited = some (.activity a)) (ha : g.activities a = some act)
    (hrun : act.status = .running) (reason : String) (now : DbMillis) :
    Inv ((g.setActivity a { act with
      status := .cancelling, maxAttempts := act.maxAttempts + 1
      lastErrorCategory := some AttemptOutcome.operatorPaused.asStr
      lastErrorMessage := some reason, updatedAt := now }).setRow
      { r.leaseCleared with status := .paused, updatedAt := now })
      { r.leaseCleared with status := .paused, updatedAt := now } := by
  have hl := h.ledger a act ha
  have hlease := hl.lease (by rw [hrun]; rfl)
  refine h.editActivity ha rfl (fun _ _ => rfl) rfl rfl ?_ rfl rfl (by simp [hrun]) (by simp)
    (fun _ => by rw [hrun]; rfl)
    (h.row.unleased rfl rfl rfl (by simp) h.row.columns rfl rfl rfl rfl h.row.command_le) rfl
    (by rw [hs]; rfl) (.inr hw) (fun _ _ => rfl) (fun hterm => by simp [hs] at hterm; cases hterm) ?_
  · refine hl.restate hlease.1 rfl hlease.2.2 (by simp [hrun, ActivityStatus.holdsLease]) rfl
      (Nat.le_succ _) (by simp) fun _ => ⟨.operatorPaused, rfl, rfl⟩
  · exact fun _ _ => Nat.lt_succ_of_le hl.count_le

theorem Inv.activityClaimed {attempt : ActivityAttemptRow} (h : Inv g r)
    (hs : r.status = .waitingActivity) (ha : g.activities a = some act)
    (hpending : act.status = .pending) (hopen : attempt.finishedAt = none)
    (houtcome : attempt.outcome = none) (owner : String) (expiry now : DbMillis) :
    Inv ((g.setActivity a { act with
      status := .running, attemptCount := act.attemptCount + 1, leaseOwner := some owner
      leaseToken := some attempt.leaseToken, leaseExpiresAt := some expiry
      updatedAt := now }).setAttempt a (act.attemptCount + 1) attempt) r := by
  refine h.editActivity ha rfl (fun _ hi => setAttempt_attempts_of_ne hi _ _) rfl rfl ?_ rfl rfl
    (by simp [hpending]) (by simp) (fun _ => by rw [hpending]; rfl) h.row rfl rfl (.inl rfl)
    (fun _ _ => by rw [hs]; rfl) (fun hterm => by rw [hs] at hterm; cases hterm) (by simp)
  rw [setAttempt_attempts_self]
  exact (h.ledger a act ha).claim hpending rfl rfl rfl rfl rfl rfl hopen houtcome

theorem Inv.renewed {attempt : ActivityAttemptRow} (h : Inv g r) (ha : g.OpenAttempt a act attempt)
    (hlease : act.status.holdsLease) (expiry now : DbMillis) :
    Inv ((g.setActivity a { act with leaseExpiresAt := some expiry, updatedAt := now }).setAttempt a
      act.attemptCount { attempt with heartbeatAt := now }) r := by
  have hc := h.coupled a act ha.stored
  have hsucc : act.status ≠ .succeeded := by
    intro hs
    simp [hs, ActivityStatus.holdsLease] at hlease
  refine h.editActivity ha.stored rfl (fun _ hi => setAttempt_attempts_of_ne hi _ _) rfl rfl ?_ rfl
    rfl hsucc hsucc id h.row rfl rfl (.inl rfl) ?_ hc.revoked hc.budget
  · rw [setAttempt_attempts_self]
    exact (h.ledger a act ha.stored).renew hlease ha.number rfl rfl rfl rfl rfl rfl rfl rfl rfl rfl
  · intro ht hw
    have hstatus : r.status.awaitedActivity act.status = true :=
      h.awaitedActivity_status ht hw ha.stored
    exact hstatus

theorem Inv.activityReleased {attempt : ActivityAttemptRow} (h : Inv g r)
    (ha : g.OpenAttempt a act attempt) (hrun : act.status = .running)
    (hcount : act.attemptCount < act.maxAttempts) (outcome : AttemptOutcome)
    (category message result : Option String) (availableAt : DbMillis)
    (completedAt : Option DbMillis) (now : DbMillis) :
    Inv ((g.setActivity a { act.leaseCleared with
      status := .pending, availableAt, lastErrorCategory := category
      lastErrorMessage := message, updatedAt := now, completedAt }).setAttempt a
      act.attemptCount (attempt.closed outcome category message result now)) r := by
  have ht := h.open_of_active ha.stored (.inr hrun)
  refine h.editActivity ha.stored rfl (fun _ hi => setAttempt_attempts_of_ne hi _ _) rfl rfl ?_ rfl
    rfl (by simp [hrun]) (by simp) (fun _ => by rw [hrun]; rfl) h.row rfl rfl (.inl rfl)
    (fun _ hw => ?_) (fun hterm => by simp [ht] at hterm) (by simp)
  · rw [setAttempt_attempts_self]
    exact (h.ledger a act ha.stored).close ha.number rfl rfl rfl rfl rfl rfl (fun _ => hcount) rfl
      rfl
  · have hstatus := h.awaitedActivity_status ht hw ha.stored
    rw [hrun] at hstatus
    cases hst : r.status <;> simp_all [WorkflowStatus.awaitedActivity, ActivityStatus.isTerminal]

/-- The row of a blocked workflow. -/
theorem RowInv.blockedBy (h : RowInv r) (hs : r.status = .waitingActivity)
    (category message : String) (now : DbMillis) : RowInv (r.blockedBy category message now) :=
  h.restate (by simp [hs]) rfl rfl rfl (by simp [WorkflowRow.blockedBy]) h.columns
    (by have := h.allowed; rw [hs] at this; exact this) rfl rfl rfl h.command_le

theorem Inv.deadLettered {attempt : ActivityAttemptRow} (h : Inv g r)
    (hs : r.status = .waitingActivity) (hw : r.awaited = some (.activity a))
    (ha : g.OpenAttempt a act attempt) (hrun : act.status = .running) (outcome : AttemptOutcome)
    (category message : String) (result : Option String) (availableAt now : DbMillis) :
    Inv (((g.setActivity a { act.leaseCleared with
      status := .deadLettered, availableAt, lastErrorCategory := some category
      lastErrorMessage := some message, updatedAt := now, completedAt := some now }).setAttempt a
      act.attemptCount (attempt.closed outcome (some category) (some message) result now)).setRow
      (r.blockedBy category message now)) (r.blockedBy category message now) := by
  refine h.editActivity ha.stored rfl (fun _ hi => setAttempt_attempts_of_ne hi _ _) rfl rfl ?_ rfl
    rfl (by simp [hrun]) (by simp) (fun hl => nomatch hl) (h.row.blockedBy hs category message now)
    rfl (by rw [hs]; rfl) (.inr hw) (fun _ _ => rfl)
    (fun hterm => by rw [hs] at hterm; cases hterm) (by simp)
  change Ledger _ ((Aggregate.setAttempt _ a _ _).attempts a)
  rw [setAttempt_attempts_self]
  exact (h.ledger a act ha.stored).close ha.number rfl rfl rfl rfl rfl rfl (by simp) rfl rfl

theorem Inv.quarantined (h : Inv g r) (hs : r.status = .waitingActivity)
    (hw : r.awaited = some (.activity a)) (ha : g.activities a = some act)
    (hpending : act.status = .pending) (category message : String) (now : DbMillis) :
    Inv ((g.setActivity a { act with
      status := .deadLettered, lastErrorCategory := some category
      lastErrorMessage := some message, updatedAt := now, completedAt := some now }).setRow
      (r.blockedBy category message now)) (r.blockedBy category message now) := by
  have hl := h.ledger a act ha
  refine h.editActivity ha rfl (fun _ _ => rfl) rfl rfl ?_ rfl rfl (by simp [hpending]) (by simp)
    (fun hl => nomatch hl) (h.row.blockedBy hs category message now) rfl (by rw [hs]; rfl) (.inr hw)
    (fun _ _ => rfl) (fun hterm => by rw [hs] at hterm; cases hterm) (by simp)
  have hnone : act.status.holdsLease = false := by rw [hpending]; rfl
  exact hl.restate (by rw [hl.leaseOwner, hnone]; rfl) rfl (by rw [hl.leaseExpiresAt, hnone]; rfl)
    (by rw [hnone]; rfl) rfl le_rfl (by simp) (by simp)

theorem Inv.settled {attempt : ActivityAttemptRow} (h : Inv g r) (ha : g.OpenAttempt a act attempt)
    (hcancel : act.status = .cancelling) (outcome : AttemptOutcome) (message : String)
    (now : DbMillis) :
    Inv ((g.setActivity a { act.leaseCleared with
      status := if r.status.isTerminal then .cancelled else .pending
      availableAt := if r.status.isTerminal then act.availableAt else now
      updatedAt := now
      completedAt := if r.status.isTerminal then some now else none }).setAttempt a
      act.attemptCount (attempt.closed outcome (some outcome.asStr) (some message)
        attempt.providerResultJson now)) r := by
  have hc := h.coupled a act ha.stored
  refine h.editActivity ha.stored rfl (fun _ hi => setAttempt_attempts_of_ne hi _ _) rfl rfl ?_ rfl
    rfl (by simp [hcancel]) ?_ (fun _ => by rw [hcancel]; rfl) h.row rfl rfl (.inl rfl) ?_ ?_ ?_
  · rw [setAttempt_attempts_self]
    refine (h.ledger a act ha.stored).close ha.number ?_ rfl rfl rfl rfl rfl ?_ rfl rfl
    · dsimp only
      split <;> rfl
    · intro hs
      have ht : r.status.isTerminal = false := by simpa using hs
      exact hc.budget hcancel ht
  · dsimp only
    split <;> simp
  · intro ht hw
    have hstatus := h.awaitedActivity_status ht hw ha.stored
    rw [hcancel] at hstatus
    simp only [ht]
    cases hst : r.status <;> simp_all [WorkflowStatus.awaitedActivity, ActivityStatus.isTerminal]
  · intro hterm
    simp [hterm]
  · dsimp only
    split <;> simp

/-- The result of an activity is delivered. -/
theorem Inv.succeeded {attempt : ActivityAttemptRow} {output : String} (h : Inv g r)
    (hs : r.status = .waitingActivity) (hw : r.awaited = some (.activity a))
    (ha : g.OpenAttempt a act attempt) (hrun : act.status = .running)
    (he : NextEvent g.events (some (r.deliveredEventSequence + 1)) e)
    (hres : e.metadata = some (.event (.activitySucceeded act.commandSequence
      ⟨act.kind, act.version, output⟩))) (now : DbMillis) :
    Inv ((((g.setActivity a { act.leaseCleared with
      status := .succeeded, providerResultJson := some output, lastErrorCategory := none
      lastErrorMessage := none, updatedAt := now, completedAt := some now }).setAttempt a
      act.attemptCount (attempt.closed .succeeded none none (some output) now)).addEvent e).setRow
      (r.woken now)) (r.woken now) := by
  have ht : r.status.isTerminal = false := by rw [hs]; rfl
  obtain ⟨act₀, ha₀, hcommand, -, -⟩ := h.awaitedActivity ht hw
  obtain rfl : act₀ = act := by simpa [ha₀] using ha.stored
  have hanswers : e.answers = some r.commandSequence := by
    simp [WorkflowEventRow.answers, hres, WorkflowEvent.commandSequence?, hcommand]
  have hdelivery := h.delivery_answered ht hw he hanswers now
  -- no other activity can have answered the command
  have hfirst : ∀ i acti, g.activities i = some acti → acti.status = .succeeded →
      acti.commandSequence ≠ r.commandSequence := by
    intro i acti hi hsucc heq
    have hmem := h.results.answered i acti hi hsucc
    rw [heq] at hmem
    exact h.delivery.unanswered ht (by simp [WorkflowRow.control, hw]) hmem
  refine ⟨h.row.woken hw now, hdelivery, ?_, ?_, ?_, ?_, ?_, ?_⟩
  · exact fun _ wait hw' => by cases hw'
  · intro i acti hi
    rcases update_cases hi with ⟨rfl, rfl⟩ | ⟨hne, hi⟩
    · change Ledger _ ((Aggregate.setAttempt _ i _ _).attempts i)
      rw [setAttempt_attempts_self]
      exact (h.ledger i act₀ ha₀).close ha.number rfl rfl rfl rfl rfl rfl (by simp) rfl rfl
    · change Ledger _ ((Aggregate.setAttempt _ a _ _).attempts i)
      rw [setAttempt_attempts_of_ne hne]
      exact h.ledger i acti hi
  · intro i acti hi
    rcases update_cases hi with ⟨rfl, rfl⟩ | ⟨hne, hi⟩
    · exact .of_terminal rfl (h.coupled i act₀ ha₀).command_le
    · refine .of_terminal ?_ (h.coupled i acti hi).command_le
      by_contra hlive
      have := h.awaits ht hi (by simpa using hlive)
      exact hne (by simpa [hw] using this.symm)
  · intro i n hi
    have hne : i ≠ a := by
      rintro rfl
      simp at hi
    change (Aggregate.setAttempt _ a _ _).attempts i n = none
    rw [setAttempt_attempts_of_ne hne]
    exact h.orphans i n (update_none hi)
  · intro p approval hp
    refine ⟨(h.approvals p approval hp).command_le, fun hpending => ?_⟩
    exact absurd hpending (h.noPendingApproval (by simp [hw]) hp)
  · refine ⟨?_, ?_, ?_⟩
    · intro e' he' command res hres'
      rcases List.mem_append.mp he' with he' | he'
      · obtain ⟨i, acti, hi, hsucc, hrest⟩ := h.results.result e' he' command res hres'
        refine ⟨i, acti, ?_, hsucc, hrest⟩
        refine (Function.update_of_ne ?_ _ _).trans hi
        rintro rfl
        obtain rfl : acti = act₀ := by simpa [hi] using ha₀
        simp [hrun] at hsucc
      · obtain rfl := List.mem_singleton.mp he'
        simp only [WorkflowEventRow.activityResult, hres, Option.some.injEq, Prod.mk.injEq] at hres'
        obtain ⟨rfl, rfl⟩ := hres'
        exact ⟨a, _, Function.update_self .., rfl, rfl, rfl, rfl, rfl⟩
    · intro i acti hi hsucc
      rw [Aggregate.setRow_events, Aggregate.addEvent_events, answeredCommands_append, hanswers]
      rcases update_cases hi with ⟨rfl, rfl⟩ | ⟨-, hi⟩
      · exact List.mem_append_right _ (List.mem_singleton.mpr hcommand)
      · exact List.mem_append_left _ (h.results.answered i acti hi hsucc)
    · intro i acti j actj hi hj hsi hsj hij
      rcases update_cases hi with ⟨rfl, rfl⟩ | ⟨-, hi'⟩
      · rcases update_cases hj with ⟨rfl, rfl⟩ | ⟨-, hj'⟩
        · rfl
        · exact absurd (hij.symm.trans hcommand) (hfirst j actj hj' hsj)
      · rcases update_cases hj with ⟨rfl, rfl⟩ | ⟨-, hj'⟩
        · exact absurd (hij.trans hcommand) (hfirst i acti hi' hsi)
        · exact h.results.unique i acti j actj hi' hj' hsi hsj hij

theorem Inv.retried {a' : ActivityId} (h : Inv g r) (hs : r.status = .blocked)
    (hw : r.awaited = some (.activity a)) (ha : g.activities a = some act)
    (ha' : g.activities a' = none) (hfresh : act'.Fresh)
    (hcommand : act'.commandSequence = act.commandSequence)
    (hreplacement : act'.replacementNumber = act.replacementNumber + 1) (now : DbMillis) :
    Inv ((g.setActivity a' act').setRow { r.waitOn (.activity a') with
      status := .waitingActivity, availableAt := now, errorCategory := none
      errorMessage := none, updatedAt := now }) { r.waitOn (.activity a') with
      status := .waitingActivity, availableAt := now, errorCategory := none
      errorMessage := none, updatedAt := now } := by
  have ht : r.status.isTerminal = false := by rw [hs]; rfl
  obtain ⟨act₀, ha₀, hcommand₀, hstatus, hnewest⟩ := h.awaitedActivity ht hw
  obtain rfl : act₀ = act := by simpa [ha₀] using ha
  have hdead : act₀.status = .deadLettered := by
    rw [hs] at hstatus
    simpa [WorkflowStatus.awaitedActivity] using hstatus
  refine ⟨?_, ?_, ?_, ?_, ?_, fun i n hi => h.orphans i n (update_none hi), ?_,
    h.results.insert ha' (by simp [hfresh.status])⟩
  · exact h.row.restate (by simp [hs]) rfl rfl rfl (by simp) rfl
      (by simp [WorkflowStatus.allows, WorkflowRow.awaited, WorkflowRow.waitOn, Wait.kind,
        WaitKind.toWait]) rfl rfl rfl h.row.command_le
  · refine h.delivery.restate rfl rfl fun _ => ⟨ht, ?_⟩
    rw [show r.control.wait = _ from hw]
    simp [WorkflowRow.control, WorkflowRow.awaited, WorkflowRow.waitOn]
  · intro _ wait hwait
    obtain rfl : wait = .activity a' := (Option.some_inj.mp hwait).symm
    refine ⟨act', Function.update_self .., hcommand.trans hcommand₀, by rw [hfresh.status]; rfl, ?_⟩
    intro i acti hi hc
    rcases update_cases hi with ⟨rfl, rfl⟩ | ⟨-, hi⟩
    · exact le_rfl
    · have := hnewest i acti hi hc
      omega
  · intro i acti hi
    rcases update_cases hi with ⟨rfl, rfl⟩ | ⟨-, hi⟩
    · exact .fresh hfresh fun n => h.orphans i n ha'
    · exact h.ledger i acti hi
  · intro i acti hi
    rcases update_cases hi with ⟨rfl, rfl⟩ | ⟨-, hi⟩
    · exact ⟨(hcommand.trans hcommand₀).le, fun _ _ => rfl, (fun h' => by cases h'),
        fun h' => by simp [hfresh.status] at h'⟩
    · refine .of_terminal ?_ (h.coupled i acti hi).command_le
      by_contra hlive
      have hwi := h.awaits ht hi (by simpa using hlive)
      obtain rfl : i = a := by simpa [hw] using hwi.symm
      obtain rfl : acti = act₀ := by simpa [hi] using ha₀
      simp [hdead, ActivityStatus.isTerminal] at hlive
  · intro p approval hp
    refine ⟨(h.approvals p approval hp).command_le, fun hpending => ?_⟩
    exact absurd hpending (h.noPendingApproval (by simp [hw]) hp)

-- ════════════════════════════════════════════════════════════════════════
-- Cancels
-- ════════════════════════════════════════════════════════════════════════

/-- A step that ends the workflow, or that changes the activities of an ended
one. -/
theorem Inv.ended {f : ActivityRow → ActivityRow} (h : Inv g r)
    (hact : g'.activities = fun a => (g.activities a).map f) (hatt : g'.attempts = g.attempts)
    (hevents : g'.events = g.events) (hrow : RowInv r')
    (hcommand : r'.commandSequence = r.commandSequence)
    (hdelivered : r'.deliveredEventSequence = r.deliveredEventSequence)
    (ht : r'.status.isTerminal = true)
    (hledger : ∀ a act, g.activities a = some act → Ledger (f act) (g.attempts a))
    (hsequence : ∀ act, (f act).commandSequence = act.commandSequence)
    (hsucceeded : ∀ act, act.status = .succeeded → f act = act)
    (hback : ∀ act, (f act).status = .succeeded → f act = act)
    (hrevoked : ∀ a act, g.activities a = some act →
      (f act).status ≠ .pending ∧ (f act).status ≠ .running)
    (happ : ∀ p approval, g'.approvals p = some approval →
      approval.commandSequence ≤ r.commandSequence ∧ approval.status ≠ .pending) : Inv g' r' := by
  refine ⟨hrow, ?_, ?_, ?_, ?_, ?_, ?_, ?_⟩
  · rw [hevents]
    exact h.delivery.restate hcommand hdelivered fun hopen => by
      rw [show r'.control.status = r'.status from rfl, ht] at hopen
      cases hopen
  · intro hopen
    simp [ht] at hopen
  · intro a act ha
    rw [hact] at ha
    obtain ⟨act₀, ha₀, rfl⟩ := Option.map_eq_some_iff.mp ha
    rw [hatt]
    exact hledger a act₀ ha₀
  · intro a act ha
    rw [hact] at ha
    obtain ⟨act₀, ha₀, rfl⟩ := Option.map_eq_some_iff.mp ha
    refine ⟨?_, fun _ hopen => ?_, fun _ => hrevoked a act₀ ha₀, fun _ hopen => ?_⟩
    · rw [hsequence]
      exact (h.coupled a act₀ ha₀).command_le.trans hcommand.ge
    all_goals
      rw [show r'.control.status = r'.status from rfl, ht] at hopen
      cases hopen
  · intro a n ha
    rw [hact] at ha
    rw [hatt]
    exact h.orphans a n (by simpa using ha)
  · intro p approval hp
    obtain ⟨hc, hs⟩ := happ p approval hp
    exact ⟨hc.trans hcommand.ge, fun hpending => absurd hpending hs⟩
  · rw [hevents, hact]
    refine h.results.restate ?_ ?_
    · intro a act ha hs
      simp [ha, hsucceeded act hs]
    · intro a act ha hs
      obtain ⟨act₀, ha₀, rfl⟩ := Option.map_eq_some_iff.mp ha
      rw [hback act₀ hs, ha₀]

/-- The row of a workflow that was cancelled or replaced. -/
theorem RowInv.cancelledAt (h : RowInv r) (clear : Bool) (now : DbMillis) :
    RowInv (r.cancelledAt clear now) := by
  refine h.unleased rfl rfl rfl (by simp [WorkflowRow.cancelledAt]) ?_ rfl ?_ ?_ ?_ ?_ <;>
    cases clear
  · exact h.columns
  · rfl
  all_goals first | rfl | exact h.command_le

section Cancels

variable {attempts : ℕ → Option ActivityAttemptRow} {outcome : AttemptOutcome} {reason : String}
  {now : DbMillis}

theorem Ledger.cancelledBy (h : Ledger act attempts) (ho : outcome.isRevoke) :
    Ledger (act.cancelledBy outcome reason now) attempts := by
  have howner := h.leaseOwner
  have htoken := h.leaseToken
  have hexpiry := h.leaseExpiresAt
  unfold ActivityRow.cancelledBy
  split <;> rename_i hs <;> rw [hs] at howner htoken hexpiry
  · exact h.restate howner rfl hexpiry (by rw [hs]; rfl) rfl le_rfl (by simp)
      fun _ => ⟨outcome, ho, rfl⟩
  · exact h.restate howner rfl hexpiry (by rw [hs]) rfl le_rfl (by simp)
      fun _ => ⟨outcome, ho, rfl⟩
  · refine h.restate rfl ?_ rfl (by rw [hs]; rfl) rfl le_rfl (by simp) (by simp)
    exact (Option.not_isSome_iff_eq_none.mp (by simp [htoken, ActivityStatus.holdsLease])).symm
  all_goals exact h

theorem cancelledBy_revoked :
    (act.cancelledBy outcome reason now).status ≠ .pending ∧
      (act.cancelledBy outcome reason now).status ≠ .running := by
  unfold ActivityRow.cancelledBy
  split <;> simp_all

theorem Ledger.discarded (h : Ledger act attempts) : Ledger (act.discarded now) attempts := by
  unfold ActivityRow.discarded
  split
  · rename_i hs
    have htoken := h.leaseToken
    rw [hs] at htoken
    refine h.restate rfl ?_ rfl (by rw [hs]; rfl) rfl le_rfl (by simp) (by simp)
    exact (Option.not_isSome_iff_eq_none.mp (by simp [htoken, ActivityStatus.holdsLease])).symm
  · exact h

end Cancels

theorem Inv.cancelled {outcome : AttemptOutcome} (h : Inv g r) (ho : outcome.isRevoke)
    (clear : Bool) (reason : String) (now : DbMillis) :
    Inv (((g.mapActivities (·.cancelledBy outcome reason now)).mapApprovals
      (·.cancelledBy reason now)).setRow (r.cancelledAt clear now)) (r.cancelledAt clear now) := by
  refine h.ended rfl rfl rfl (h.row.cancelledAt clear now) (by cases clear <;> rfl)
    (by cases clear <;> rfl) rfl (fun a act ha => (h.ledger a act ha).cancelledBy ho) ?_ ?_ ?_
    (fun _ _ _ => cancelledBy_revoked) ?_
  · intro act
    unfold ActivityRow.cancelledBy
    split <;> rfl
  · intro act hs
    simp [ActivityRow.cancelledBy, hs]
  · intro act hs
    unfold ActivityRow.cancelledBy at hs ⊢
    split at hs <;> simp_all
  · intro p approval hp
    obtain ⟨approval₀, hp₀, rfl⟩ := Option.map_eq_some_iff.mp hp
    have hle := (h.approvals p approval₀ hp₀).command_le
    unfold ApprovalRow.cancelledBy
    split
    · exact ⟨hle, by simp⟩
    · exact ⟨hle, ‹_›⟩

theorem discarded_status (now : DbMillis) :
    (act.discarded now).status =
      if act.status = .deadLettered then .cancelled else act.status := by
  unfold ActivityRow.discarded
  split <;> rfl

theorem Inv.allDiscarded {now : DbMillis} (h : Inv g r)
    (hact : g'.activities = (g.mapActivities (·.discarded now)).activities)
    (hatt : g'.attempts = g.attempts) (hevents : g'.events = g.events)
    (happ : g'.approvals = g.approvals) (hrow : RowInv r')
    (hcommand : r'.commandSequence = r.commandSequence)
    (hdelivered : r'.deliveredEventSequence = r.deliveredEventSequence)
    (ht : r'.status.isTerminal = true)
    (hrevoked : ∀ a act, g.activities a = some act → act.status ≠ .pending ∧ act.status ≠ .running)
    (hpending : ∀ p approval, g.approvals p = some approval → approval.status ≠ .pending) :
    Inv g' r' := by
  refine h.ended hact hatt hevents hrow hcommand hdelivered ht
    (fun a act ha => (h.ledger a act ha).discarded) ?_ ?_ ?_ ?_ ?_
  · intro act
    unfold ActivityRow.discarded
    split <;> rfl
  · intro act hs
    simp [ActivityRow.discarded, hs]
  · intro act hs
    rw [discarded_status] at hs
    unfold ActivityRow.discarded
    split <;> simp_all
  · intro a act ha
    have := hrevoked a act ha
    rw [discarded_status]
    split
    · simp
    · exact this
  · intro p approval hp
    rw [happ] at hp
    exact ⟨(h.approvals p approval hp).command_le, hpending p approval hp⟩

/-- All activities of a blocked workflow are terminal. -/
theorem Inv.terminal_of_blocked (h : Inv g r) (hs : r.status = .blocked)
    (ha : g.activities a = some act) : act.status.isTerminal = true := by
  have ht : r.status.isTerminal = false := by rw [hs]; rfl
  by_contra hlive
  have hstatus := h.awaitedActivity_status ht (h.awaits ht ha (by simpa using hlive)) ha
  rw [hs] at hstatus
  simp [WorkflowStatus.awaitedActivity] at hstatus
  simp [hstatus, ActivityStatus.isTerminal] at hlive

theorem Inv.superseded (h : Inv g r) (hs : r.status = .blocked) (now : DbMillis) :
    Inv ((g.mapActivities (·.discarded now)).setRow (r.cancelledAt false now))
      (r.cancelledAt false now) := by
  refine h.allDiscarded rfl rfl rfl rfl (h.row.cancelledAt false now) rfl rfl rfl ?_ ?_
  · intro a act ha
    have hterm := h.terminal_of_blocked hs ha
    constructor <;> intro hst <;> simp [hst, ActivityStatus.isTerminal] at hterm
  · intro p approval hp
    refine h.noPendingApproval (fun p' hw => ?_) hp
    have := h.row.allowed
    simp [hs, hw, WorkflowStatus.allows, Wait.kind] at this

theorem Inv.discarded (h : Inv g r) (ht : r.status.isTerminal) (now : DbMillis) :
    Inv (g.mapActivities (·.discarded now)) r := by
  refine h.allDiscarded rfl rfl rfl rfl h.row rfl rfl ht
    (fun a act ha => (h.coupled a act ha).revoked ht) ?_
  intro p approval hp hpending
  have hopen : r.status.isTerminal = false := ((h.approvals p approval hp).live hpending).1
  simp [ht] at hopen

-- ════════════════════════════════════════════════════════════════════════
-- All steps
-- ════════════════════════════════════════════════════════════════════════

theorem Inv.inserted (hr : r.Fresh) (he : NextEvent [] (some 1) e) (ha : e.answers = none) :
    Inv ((Aggregate.empty.setRow r).addEvent e) r := by
  have hawaited : r.awaited = none := by simp [WorkflowRow.awaited, hr.waitKind]
  have hlog : Log [e] := Log.nil.add_delivery he rfl
  have hdeliveries : deliveries [e] = [1] := by simp [deliveries, he.delivers]
  have hcommands : answeredCommands [e] = [] := by simp [answeredCommands, ha]
  refine ⟨?_, ?_, ?_, by simp [Aggregate.empty], by simp [Aggregate.empty],
    by simp [Aggregate.empty], by simp [Aggregate.empty],
    Results.nil.add (activityResult_of_answers_none ha)⟩
  · exact ⟨by simp [hr.leaseOwner, hr.status], by simp [hr.leaseToken, hr.status],
      by simp [hr.leaseExpiresAt, hr.status], by simp [hr.waitKind, hr.waitReferenceId],
      by simp [hr.status, hawaited, WorkflowStatus.allows], hr.parent, hr.restartedFrom,
      by simp [hr.commandSequence]⟩
  · change Delivery [e] r.control
    refine ⟨hlog, ?_, ?_, ?_, ?_, ?_, ?_⟩ <;>
      simp [hdeliveries, hcommands, WorkflowRow.control, hr.deliveredEventSequence, hawaited]
  · intro _ wait hw
    rw [hawaited] at hw
    cases hw

/-- Every step preserves the invariant. -/
theorem Step.wellFormed {l : Label} (h : Step g l g') (hg : g.WellFormed) : g'.WellFormed := by
  cases h with
  | inserted hrow he ha => exact .of_inv rfl (.inserted hrow he ha)
  | history hr he ha => exact .of_inv hr ((hg.inv hr).history he ha)
  | claimed hr hs => exact .of_inv rfl ((hg.inv hr).claimed hs ..)
  | recovered hr hs =>
    have h := hg.inv hr
    refine .of_inv rfl (h.released hs rfl rfl rfl (.inl rfl) rfl rfl rfl rfl rfl rfl le_rfl rfl rfl
      rfl ?_ h.results)
    exact h.delivery.restate rfl rfl fun _ => ⟨by simp [WorkflowRow.control, hs,
      WorkflowStatus.isTerminal], Iff.rfl⟩
  | continued hr hs he ha =>
    have h := hg.inv hr
    refine .of_inv rfl (h.released hs rfl rfl rfl (.inl rfl) rfl rfl rfl rfl rfl rfl (Nat.le_succ _)
      rfl rfl rfl ?_ (h.results.add (activityResult_of_answers_none ha)))
    exact h.delivery.advance (by simp [WorkflowRow.control, hs, WorkflowStatus.isTerminal])
      (h.not_waiting (.inr hs)) he ha rfl rfl (h.not_waiting (.inr hs))
  | completed hr hs =>
    have h := hg.inv hr
    refine .of_inv rfl (h.released hs rfl rfl rfl (.inr rfl) rfl rfl rfl rfl rfl rfl (Nat.le_succ _)
      rfl rfl rfl ?_ h.results)
    exact h.delivery.consume (by simp [WorkflowRow.control, hs, WorkflowStatus.isTerminal])
      (h.not_waiting (.inr hs)) rfl le_rfl fun hopen => nomatch hopen
  | slept hr hs => exact .of_inv rfl ((hg.inv hr).committed hs rfl (by simp) rfl)
  | waitedApproval hr hs _ hstatus hkind hversion hcommand =>
    exact .of_inv rfl ((hg.inv hr).waitedApproval hs hstatus hkind hversion hcommand)
  | waitedActivity hr hs ha hfresh hcommand =>
    exact .of_inv rfl ((hg.inv hr).waitedActivity hs ha hfresh hcommand)
  | waitedChild hr hs => exact .of_inv rfl ((hg.inv hr).committed hs rfl (by simp) trivial)
  | activationFailed hr hs exhausted =>
    have h := hg.inv hr
    refine .of_inv rfl (h.released hs rfl rfl rfl ?_ rfl rfl rfl rfl rfl rfl le_rfl rfl rfl rfl ?_
      h.results)
    · cases exhausted
      · exact .inl rfl
      · exact .inr rfl
    · exact h.delivery.restate rfl rfl fun _ => ⟨by simp [WorkflowRow.control, hs,
        WorkflowStatus.isTerminal], Iff.rfl⟩
  | answered hr hw hs he ha hkind now => exact .of_inv rfl ((hg.inv hr).answered hw hs he ha hkind now)
  | answeredApproval hr hw hs hp hcommand hstatus he ha hkind now =>
    exact .of_inv rfl ((hg.inv hr).answeredApproval hw hs hp hcommand hstatus he ha hkind now)
  | reattached hr hw hs => exact .of_inv rfl ((hg.inv hr).reattached hw hs ..)
  | paused hr hs ht ha => exact .of_inv rfl ((hg.inv hr).paused hs ht ha ..)
  | revoked hr hs hw ha hrun => exact .of_inv rfl ((hg.inv hr).revoked hs hw ha hrun ..)
  | resumed hr hs hstatus => exact .of_inv rfl ((hg.inv hr).resumed hs hstatus ..)
  | cancelled hr _ ho => exact .of_inv rfl ((hg.inv hr).cancelled ho ..)
  | superseded hr hs => exact .of_inv rfl ((hg.inv hr).superseded hs ..)
  | discarded hr ht => exact .of_inv hr ((hg.inv hr).discarded ht ..)
  | retried hr hs hw ha ha' hfresh hcommand hreplacement =>
    exact .of_inv rfl ((hg.inv hr).retried hs hw ha ha' hfresh hcommand hreplacement ..)
  | activityClaimed hr hs _ ha hpending hopen houtcome owner token htoken =>
    subst htoken
    exact .of_inv hr ((hg.inv hr).activityClaimed hs ha hpending hopen houtcome ..)
  | renewed hr ha hlease => exact .of_inv hr ((hg.inv hr).renewed ha hlease ..)
  | succeeded hr hs hw ha hrun he hres now =>
    exact .of_inv rfl ((hg.inv hr).succeeded hs hw ha hrun he hres now)
  | released hr ha hrun hcount =>
    exact .of_inv hr ((hg.inv hr).activityReleased ha hrun hcount ..)
  | deadLettered hr hs hw ha hrun => exact .of_inv rfl ((hg.inv hr).deadLettered hs hw ha hrun ..)
  | quarantined hr hs hw ha hpending =>
    exact .of_inv rfl ((hg.inv hr).quarantined hs hw ha hpending ..)
  | settled hr ha hcancel => exact .of_inv hr ((hg.inv hr).settled ha hcancel ..)

/-- Every run of steps preserves the invariant. -/
theorem Steps.wellFormed {P : Label → Prop} (h : Steps P g g') (hg : g.WellFormed) :
    g'.WellFormed := by
  induction h with
  | refl => exact hg
  | tail _ hstep ih =>
    obtain ⟨l, -, hstep⟩ := hstep
    exact hstep.wellFormed ih

end DurableWorkflows
