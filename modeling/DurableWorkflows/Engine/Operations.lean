import DurableWorkflows.Engine.Attempts

/-!
# Materializers and operators

The transactions that answer a timer or an approval, and the controls of an
operator: pause, resume, cancel, restart, retry and the resolution of an
approval.

## Main definitions

- `Paused`: what a pause does to the workflow it stops

## Main results

- `wp_materializeTimer`, `wp_materializeApproval`, `wp_resolveApproval`
- `wp_pauseWorkflow`, `wp_resumeWorkflow`, `wp_restart`, `wp_retry`
-/

namespace DurableWorkflows

open Transaction

variable {db db' : DB} {w : WorkflowId} {workflow : WorkflowRow} {wait : Wait} {now : DbMillis}
  {X : Set WorkflowId} {externals : Externals} {operator : Operator} {p : ApprovalId}
  {E : DurableError → Prop}

-- ════════════════════════════════════════════════════════════════════════
-- Answers to timers and approvals
-- ════════════════════════════════════════════════════════════════════════

/-- The answers to waits of one kind. -/
def Label.answersKind (kind : WaitKind) : Label → Bool
  | .answered wait => wait.kind == kind
  | _ => false

/-- A timer or approval wait answers the command of its row. -/
theorem Inv.waitCommandSequence {g : Aggregate} (h : Inv g workflow)
    (ht : workflow.status.isTerminal = false) (hw : workflow.awaited = some wait)
    (hkind : wait.kind = .timer ∨ wait.kind = .approval) :
    (∀ n, waitCommandSequence workflow = .ok n → n = workflow.commandSequence) ∧
      BenignErrors (waitCommandSequence workflow) := by
  obtain ⟨hok, herror⟩ := h.row.wait_eq
  unfold DurableWorkflows.waitCommandSequence
  cases hwait : workflow.wait with
  | error e => exact ⟨nofun, .error (herror e hwait)⟩
  | ok o =>
    obtain rfl := hok o hwait
    rw [hw]
    cases wait with
    | timer n =>
      obtain rfl : n = workflow.commandSequence := h.awaited ht _ hw
      simp only [bind, Except.bind, if_true]
      exact ⟨fun n hn => (Except.ok.inj hn).symm, .ok _⟩
    | approval p => exact ⟨fun n hn => (Except.ok.inj hn).symm, .ok _⟩
    | activity | child => simp [Wait.kind] at hkind

/-- The event that answers a wait. -/
theorem wp_appendDeliveryEvent {eventType : EventType} {event : WorkflowEvent}
    {Q : Unit → DB → Prop} (hs : db.Sound) (hr : db.workflows.find workflow.id = some workflow)
    (ht : workflow.status.isTerminal = false) (hw : workflow.awaited = some wait)
    (htype : eventType.resultKind = event.waitKind) (hlater : eventType ≠ .started)
    (h : ∀ e db', NextEvent (db.aggregate workflow.id).events
        (some (workflow.deliveredEventSequence + 1)) e → e.metadata = some (.event event) →
      Touches db workflow.id (fun g => g.addEvent e) db' → Q () db') :
    wp (appendDeliveryEvent externals workflow eventType event now) Q Benign db := by
  simp only [appendDeliveryEvent, wp_bind, wp_ofExcept, wp_orAbort]
  refine ⟨fun _ _ => ⟨fun n hn => ?_, fun _ => rfl⟩, BenignErrors.ensureSize _ _ _⟩
  obtain ⟨-, rfl⟩ := I32.checkedAdd_eq_some.mp hn
  have hinv := hs.inv hr
  exact wp_appendDelivery hinv.delivery.log (fun _ => hinv.next_delivery ht hw)
    (.inr ⟨_, rfl, htype⟩) hlater (fun _ => rfl) h

/-- The steps of a timer materializer: it answers workflows that sleep and are
due. -/
def Label.firesDue (db : DB) (now : DbMillis) (w : WorkflowId) (l : Label) : Prop :=
  l.answersKind .timer = true ∧ ∃ r, db.workflows.find w = some r ∧ r.status = .sleeping ∧
    r.availableAt ≤ now

/-- A timer that is due is answered. -/
theorem wp_materializeTimer {locked : WorkflowId → Bool} (hs : db.Sound) :
    wp (materializeTimer externals locked now)
      (fun _ db' => Evolves (fun w l => l.firesDue db now w) db db') Benign db := by
  simp only [materializeTimer, wp_bind, wp_selectRows]
  split
  · exact .refl db
  rename_i workflow hhead
  obtain ⟨hr, hdue⟩ := Table.mem_select.mp (mem_orderBy.mp (List.mem_of_mem_head? hhead))
  simp only [Bool.and_eq_true, beq_iff_eq, decide_eq_true_eq] at hdue
  have hstatus : workflow.status = .sleeping := hdue.1.1.1
  have hinv := hs.inv hr
  have ht : workflow.status.isTerminal = false := by rw [hstatus]; rfl
  have hallowed := hinv.row.allowed
  simp only [hstatus, WorkflowStatus.allows] at hallowed
  cases hw : workflow.awaited with
  | none => simp [hw] at hallowed
  | some wait =>
    have hkind : wait.kind = .timer := by simpa [hw] using hallowed
    obtain ⟨hok, herror⟩ := hinv.waitCommandSequence ht hw (.inl hkind)
    simp only [wp_bind, wp_ofExcept]
    refine ⟨fun n hn => ?_, herror⟩
    obtain rfl := hok n hn
    refine wp_appendDeliveryEvent hs hr ht hw rfl (fun h => by cases h) fun e db₁ he hmeta ht₁ => ?_
    obtain ⟨hanswers, hanswersKind⟩ := answers_of_metadata hmeta
    refine wp_updateWorkflow_of ((ht₁.find_of_addEvent _).trans hr) (by simp) fun db₂ ht₂ => ?_
    refine .of_step (l := .answered wait) (ht₁.trans ht₂) ?_
      ⟨beq_iff_eq.mpr hkind, workflow, hr, hstatus, hdue.1.2⟩
    exact .answered hr hw (.inr ⟨hstatus, hkind⟩) he hanswers (by rw [hanswersKind, hkind]; rfl) now

/-- The workflow of a pending approval waits for it, with its definition and its
command. -/
theorem DB.Sound.pendingApproval {approval : ApprovalRow} (hs : db.Sound)
    (hp : db.approvals.find p = some approval) (hpending : approval.status = .pending)
    (hr : db.workflows.find approval.workflowId = some workflow) :
    workflow.status.awaitsApproval = true ∧ workflow.awaited = some (.approval p) ∧
      approval.commandSequence = workflow.commandSequence ∧ approval.kind = workflow.kind ∧
      approval.version = workflow.version := by
  have hinv := hs.inv hr
  have happ := approval_of_find hp
  obtain ⟨ht, hw⟩ := (hinv.approvals p approval happ).live hpending
  change workflow.status.isTerminal = false at ht
  change workflow.awaited = _ at hw
  obtain ⟨approval', happ', -, hcommand, hkind, hversion⟩ := hinv.awaited ht _ hw
  obtain rfl := Option.some_inj.mp (happ.symm.trans happ')
  refine ⟨?_, hw, hcommand, hkind, hversion⟩
  have hallowed := hinv.row.allowed
  rw [hw] at hallowed
  cases hst : workflow.status <;>
    simp_all [WorkflowStatus.allows, WorkflowStatus.awaitsApproval, WorkflowStatus.isTerminal,
      Wait.kind]

/-- The checks of an expired approval find nothing wrong. -/
theorem DB.Sound.checkExpiredApproval {approval : ApprovalRow} (hs : db.Sound)
    (hp : db.approvals.find approval.id = some approval) (hpending : approval.status = .pending)
    (hr : db.workflows.find approval.workflowId = some workflow) :
    (∀ n, checkExpiredApproval workflow approval = .ok n → n = workflow.commandSequence) ∧
      BenignErrors (checkExpiredApproval workflow approval) := by
  obtain ⟨hstatus, hw, hcommand, hkind, hversion⟩ := hs.pendingApproval hp hpending hr
  have hinv := hs.inv hr
  have ht := open_of_awaitsApproval hstatus
  obtain ⟨hok, herror⟩ := hinv.row.wait_eq
  obtain ⟨hcok, hcerror⟩ := hinv.waitCommandSequence ht hw (.inr rfl)
  unfold DurableWorkflows.checkExpiredApproval
  rw [if_pos hstatus]
  cases hwait : workflow.wait with
  | error e => exact ⟨nofun, .error (herror e hwait)⟩
  | ok o =>
    obtain rfl := hok o hwait
    simp only [bind, Except.bind, hw, hkind, hversion, and_self, if_true]
    cases hn : DurableWorkflows.waitCommandSequence workflow with
    | error e => exact ⟨nofun, .error (hcerror e hn)⟩
    | ok n =>
      obtain rfl := hcok n hn
      simp only [hcommand, if_true]
      exact ⟨fun n hn => (Except.ok.inj hn).symm, .ok _⟩

/-- The approval `p`, which satisfied `due`, is closed with a status; no other
approval is touched. -/
structure ClosesApproval (p : ApprovalId) (status : ApprovalStatus) (due : ApprovalRow → Prop)
    (db db' : DB) : Prop where
  evolves : Evolves (fun _ l => l.answersKind .approval) db db'
  closed : ∃ approval approval', db.approvals.find p = some approval ∧
    approval.status = .pending ∧ due approval ∧ db'.approvals.find p = some approval' ∧
    approval'.status = status
  other : ∀ q, q ≠ p → db'.approvals.find q = db.approvals.find q

/-- An approval is found through the aggregate of its workflow. -/
theorem approvals_find_congr {q : ApprovalId}
    (h : ∀ w, (db'.aggregate w).approvals q = (db.aggregate w).approvals q) :
    db'.approvals.find q = db.approvals.find q := by
  ext approval
  constructor
  · intro hq
    have happ := approval_of_find hq
    rw [h] at happ
    exact (aggregate_approval.mp happ).1
  · intro hq
    have happ := approval_of_find hq
    rw [← h] at happ
    exact (aggregate_approval.mp happ).1

/-- After its event, an approval is closed and its workflow woken. -/
theorem wp_closeApproval {approval : ApprovalRow} {f : ApprovalRow → ApprovalRow} {hf}
    {fence : WorkflowRow → Bool} {wake : WorkflowRow → WorkflowRow} {hwake} {e : WorkflowEventRow}
    {status : ApprovalStatus} {due : ApprovalRow → Prop} {Q : Unit → DB → Prop} (hs : db.Sound)
    (hp : db.approvals.find approval.id = some approval) (hpending : approval.status = .pending)
    (hdue : due approval) (hr : db.workflows.find approval.workflowId = some workflow)
    (hf' : ∀ r, (f r).workflowId = r.workflowId ∧ (f r).commandSequence = r.commandSequence ∧
      (f r).status = status) (hne : status ≠ .pending)
    (hfence : fence workflow = true) (hwoken : wake workflow = workflow.woken now)
    (he : NextEvent (db.aggregate workflow.id).events
      (some (workflow.deliveredEventSequence + 1)) e)
    (hanswers : e.answers = some workflow.commandSequence)
    (hkind : e.answersKind = some .approval)
    (ht : Touches db workflow.id (fun g => g.addEvent e) db')
    (hQ : ∀ db'', ClosesApproval approval.id status due db db'' → Q () db'') :
    wp (fencedUpdate approvalTable approval.id (fun r => r.status == .pending) f hf) (fun _ db₁ =>
      wp (fencedUpdate workflowTable workflow.id fence wake hwake) Q Benign db₁) Benign db' := by
  obtain ⟨hstatus, hw, -⟩ := hs.pendingApproval hp hpending hr
  have hid : workflow.id = approval.workflowId := Table.key_of_find hr
  have happ : (db.aggregate workflow.id).approvals approval.id = some approval :=
    aggregate_approval.mpr ⟨hp, hid.symm⟩
  have happ' : (db'.aggregate workflow.id).approvals approval.id = some approval := by
    rw [ht.self]
    exact happ
  rw [← hid] at hr
  refine wp_updateApproval (fun _ => rfl) (fun r => (hf' r).1) fun approval' db₁ ha' _ ht₁ => ?_
  obtain rfl := Option.some_inj.mp ((aggregate_approval.mp happ').1.symm.trans ha')
  rw [← hid] at ht₁
  have htouch := ht.trans ht₁
  have hrow : db₁.workflows.find workflow.id = some workflow :=
    (congrArg Aggregate.row htouch.self).trans hr
  refine wp_updateWorkflow_of hrow hfence fun db₂ ht₂ => hQ db₂ ?_
  rw [hwoken] at ht₂
  have htouch₂ := htouch.trans ht₂
  refine ⟨?_, ⟨approval, f approval, hp, hpending, hdue, ?_, (hf' _).2.2⟩, fun q hq => ?_⟩
  · exact .of_step (l := .answered (.approval approval.id)) htouch₂ (.answeredApproval hr hw hstatus
      happ (hf' _).2.1 ((hf' _).2.2 ▸ hne) he hanswers hkind now) rfl
  · have happ₂ : (db₂.aggregate workflow.id).approvals approval.id = some (f approval) := by
      rw [htouch₂.self]
      exact Function.update_self ..
    exact (aggregate_approval.mp happ₂).1
  · refine approvals_find_congr fun w => ?_
    by_cases hw : w = workflow.id
    · subst hw
      rw [htouch₂.self]
      exact Function.update_of_ne hq ..
    · rw [htouch₂.other w hw]

/-- An approval that expired is answered. -/
theorem wp_materializeApproval (hs : db.Sound) :
    wp (materializeApproval externals p now) (fun _ db' => db' = db ∨
      ClosesApproval p .expired (fun approval => ∃ t, approval.expiresAt = some t ∧ t ≤ now) db db')
      Benign db := by
  simp only [materializeApproval, wp_bind, wp_firstRow, approvalTable_get, workflowTable_get]
  refine ⟨fun approval hfind => ⟨fun workflow hr => ?_, fun _ => rfl⟩, fun _ => rfl⟩
  obtain rfl : approval.id = p := Table.key_of_find hfind
  have hp := hfind
  rw [wp_ite]
  refine ⟨fun hdue => ?_, fun _ => .inl rfl⟩
  obtain ⟨hpending, hexpired⟩ := hdue
  rw [Option.any_eq_true] at hexpired
  simp only [decide_eq_true_eq] at hexpired
  obtain ⟨hok, herror⟩ := hs.checkExpiredApproval hp hpending hr
  obtain ⟨hstatus, hw, -⟩ := hs.pendingApproval hp hpending hr
  have hid : workflow.id = approval.workflowId := Table.key_of_find hr
  simp only [wp_bind, wp_ofExcept]
  refine ⟨fun n hn => ?_, herror⟩
  obtain rfl := hok n hn
  refine wp_appendDeliveryEvent hs (hid.symm ▸ hr) (open_of_awaitsApproval hstatus) hw rfl fun h => by cases h
    fun e db₁ he hmeta ht₁ => ?_
  obtain ⟨hanswers, hkind⟩ := answers_of_metadata hmeta
  exact wp_closeApproval hs hp hpending hexpired hr (fun _ => ⟨rfl, rfl, rfl⟩) (fun h => by cases h) (by simp) rfl he
    hanswers hkind ht₁ fun db₂ hcloses => .inr hcloses

-- ════════════════════════════════════════════════════════════════════════
-- Operators
-- ════════════════════════════════════════════════════════════════════════

theorem benignErrors_codec {α : Type} {field : String} {x : Except CodecError α} :
    BenignErrors (codec field x) := by
  unfold codec
  split
  · exact .ok _
  · exact .error rfl
  · exact .error rfl

theorem benignErrors_validateApprovalExact {registry : WorkflowRegistry} {kind decision : String}
    {version : ℤ} : BenignErrors (registry.validateApprovalExact kind version decision) := by
  refine .bind ?_ fun _ _ => .bind benignErrors_codec fun _ _ =>
    .bind (.ensureSize _ _ _) fun _ _ => .ok _
  unfold WorkflowRegistry.workflowDefinition
  split
  · exact .ok _
  · exact .error rfl

theorem benignErrors_operatorActorId : BenignErrors (operatorActorId operator) := by
  unfold operatorActorId
  split
  · exact .error rfl
  · exact .ite (fun _ => .error rfl) fun _ => .ok _

/-- The wait an operator's command reads, if the status calls for it. -/
theorem RowInv.benign_wait (h : RowInv workflow) {c : Prop} [Decidable c] :
    BenignErrors (if c then workflow.wait else .ok none) :=
  .ite (fun _ => h.wait_eq.2) fun _ => .ok _

/-- The reference column of a wait. -/
theorem waitReferenceId_of_awaited (h : workflow.awaited = some wait) :
    workflow.waitReferenceId = some wait.referenceId := by
  unfold WorkflowRow.awaited at h
  split at h
  · rename_i kind reference _ href
    cases h
    rw [href]
    cases kind <;> rfl
  · cases h
  · cases h

/-- A decision answers its approval. -/
theorem wp_resolveApproval {registry : WorkflowRegistry} {decision : String} (hs : db.Sound) :
    wp (resolveApproval externals registry p decision operator now) (fun _ db' =>
      ClosesApproval p .resolved (fun approval => ∀ t, approval.expiresAt = some t → now < t) db db')
      Benign db := by
  simp only [resolveApproval, lockWorkflow, wp_bind, wp_ofExcept, wp_findRow, wp_orAbort, wp_ensure,
    approvalTable_get, workflowTable_get]
  refine ⟨fun actorId _ => ⟨fun approval hfind => ⟨fun workflow hr => ⟨fun hpending =>
    ⟨fun hearly => ?_, fun _ => rfl⟩, fun _ => rfl⟩, fun _ => rfl⟩, fun _ => rfl⟩,
    benignErrors_operatorActorId⟩
  obtain rfl : approval.id = p := Table.key_of_find hfind
  have hp := hfind
  have hdue : ∀ t, approval.expiresAt = some t → now < t := by
    intro t ht
    simpa [ht] using hearly
  obtain ⟨hstatus, hw, hcommand, -⟩ := hs.pendingApproval hp hpending hr
  have hid : workflow.id = approval.workflowId := Table.key_of_find hr
  have hinv := hs.inv hr
  refine ⟨fun wait _ => ⟨fun _ => ⟨fun value _ => ⟨fun _ _ => ⟨fun n hn => ?_, fun _ => rfl⟩,
    BenignErrors.ensureSize _ _ _⟩, benignErrors_validateApprovalExact⟩, fun _ => rfl⟩,
    hinv.row.benign_wait⟩
  obtain ⟨-, rfl⟩ := I32.checkedAdd_eq_some.mp hn
  rw [← hid] at hinv
  refine wp_appendDelivery hinv.delivery.log
    (fun _ => hinv.next_delivery (open_of_awaitsApproval hstatus) hw) (.inr ⟨_, rfl, rfl⟩)
    (fun h => by cases h) (fun _ => rfl) fun e db₁ he hmeta ht₁ => ?_
  obtain ⟨hanswers, hkind⟩ := answers_of_metadata hmeta
  refine wp_closeApproval hs hp hpending hdue hr (fun _ => ⟨rfl, rfl, rfl⟩) (fun h => by cases h) ?_ rfl he ?_ hkind
    ht₁ fun db₂ hcloses => hcloses
  · simp only [beq_self_eq_true, Bool.true_and, beq_iff_eq]
    exact waitReferenceId_of_awaited hw
  · rw [hanswers, ← hcommand]
    rfl

/-- What a pause does: it stops one workflow, and revokes the running attempt
the workflow waits for. -/
structure Paused (w : WorkflowId) (db db' : DB) : Prop where
  stopped : ∃ o g, Step (db.aggregate w) (.paused o) g ∧
    Steps (fun l => l = .history) g (db'.aggregate w)
  other : ∀ w', w' ≠ w → db'.aggregate w' = db.aggregate w'
  closed : db.Closed → db'.Closed

theorem Paused.evolves (h : Paused w db db') :
    Evolves (fun w' l => w' = w ∧ ∃ o, l = .paused o ∨ l = .history) db db' where
  steps w' := by
    by_cases hw : w' = w
    · subst hw
      obtain ⟨o, g, hstep, hsteps⟩ := h.stopped
      exact (Steps.single hstep ⟨rfl, o, .inl rfl⟩).trans (hsteps.mono fun l hl => ⟨rfl, o, .inr hl⟩)
    · rw [h.other w' hw]
      exact .refl
  closed := h.closed

/-- The row of a paused workflow, after the edit of its activity. -/
theorem wp_pauseRow {edit : Aggregate → Aggregate} {o : Option (ActivityId × ℕ)} {db₁ : DB}
    (hs : db.Sound) (hr : db.workflows.find workflow.id = some workflow)
    (hE : I32.max ≤ (db.aggregate workflow.id).events.length →
      E (.invalidState .eventSequenceOverflow))
    (ht : Touches db workflow.id edit db₁)
    (hrow : (edit (db.aggregate workflow.id)).row = (db.aggregate workflow.id).row)
    (hevents : (edit (db.aggregate workflow.id)).events = (db.aggregate workflow.id).events)
    (hstep : Step (db.aggregate workflow.id) (.paused o) ((edit (db.aggregate workflow.id)).setRow
      { workflow.leaseCleared with status := .paused, updatedAt := now })) :
    wp (fencedUpdate workflowTable workflow.id (fun r => r.status == workflow.status)
        (fun r => { r.leaseCleared with status := .paused, updatedAt := now })) (fun _ db₂ =>
      wp (appendHistoryEvent workflow.id .workflowPaused .operator (some operator.actorId)
        (some operator.reason) none now) (fun _ db' => Paused workflow.id db db') E db₂) E db₁ := by
  have hr₁ : db₁.workflows.find workflow.id = some workflow :=
    ((congrArg Aggregate.row ht.self).trans hrow).trans hr
  refine wp_updateWorkflow_of hr₁ (beq_self_eq_true _) fun db₂ ht₂ => ?_
  have htouch := ht.trans ht₂
  have hevents₂ : (db₂.aggregate workflow.id).events = (db.aggregate workflow.id).events := by
    rw [htouch.self]
    exact hevents
  refine wp_appendHistoryEvent (hevents₂ ▸ hs.log _) (fun hfull => hE (hevents₂ ▸ hfull)) nofun rfl
    fun e db₃ he hanswers ht₃ => ?_
  refine ⟨⟨o, _, hstep, ?_⟩, (htouch.trans ht₃).other, (htouch.trans ht₃).closed⟩
  rw [ht₃.self]
  rw [htouch.self] at he ⊢
  exact .single (.history rfl he hanswers) rfl

/-- The workflow waits for a running activity whose attempt limit cannot be raised. -/
def DB.RevokesAtLimit (db : DB) (r : WorkflowRow) : Prop :=
  ∃ a act, r.awaited = some (.activity a) ∧ db.activities.find a = some act ∧
    act.status = .running ∧ I32.max ≤ act.maxAttempts

/-- The activity of a paused workflow: a running attempt is revoked, anything
else is left alone. -/
theorem wp_pauseAwaited {Q : Unit → DB → Prop} (hs : db.Sound)
    (hr : db.workflows.find workflow.id = some workflow) (hne : workflow.status ≠ .paused)
    (ht : workflow.status.isTerminal = false)
    (hE : db.RevokesAtLimit workflow → E (.invalidState .attemptLimitOverflow))
    (h : ∀ edit o db₁, Touches db workflow.id edit db₁ →
      (edit (db.aggregate workflow.id)).row = (db.aggregate workflow.id).row →
      (edit (db.aggregate workflow.id)).events = (db.aggregate workflow.id).events →
      Step (db.aggregate workflow.id) (.paused o) ((edit (db.aggregate workflow.id)).setRow
        { workflow.leaseCleared with status := .paused, updatedAt := now }) → Q () db₁) :
    wp (pauseAwaited workflow.awaited operator now) Q E db := by
  have hinv := hs.inv hr
  have hplain : (∀ a act, workflow.awaited = some (.activity a) →
      (db.aggregate workflow.id).activities a = some act → act.status ≠ .running) → Q () db :=
    fun ha => h id none db (.refl db _) rfl rfl (.paused hr hne ht ha now)
  cases hw : workflow.awaited with
  | none => exact hplain (by simp [hw])
  | some wait =>
    cases wait with
    | timer n => exact hplain (by simp [hw])
    | child c => exact hplain (by simp [hw])
    | approval p => exact hplain (by simp [hw])
    | activity a =>
      obtain ⟨act, hact, -⟩ := hinv.awaitedActivity ht hw
      obtain ⟨ha, hwid⟩ := aggregate_activity.mp hact
      have hid : act.id = a := Table.key_of_find ha
      have hother : act.status ≠ .running → Q () db := by
        refine fun hstatus => hplain fun a' act' hw' hact' => ?_
        obtain rfl : a' = a := by simpa [hw] using hw'.symm
        obtain rfl := Option.some_inj.mp (hact.symm.trans hact')
        exact hstatus
      simp only [pauseAwaited, pauseActivity, wp_bind, wp_findRow, activityTable_get, ha]
      split
      · -- the running attempt is revoked, and its limit is raised by one
        rename_i hrun
        have hledger := hinv.ledger a act hact
        have hstatus : workflow.status = .waitingActivity := by
          have := hinv.awaitedActivity_status ht hw hact
          rw [hrun] at this
          cases hst : workflow.status <;> simp_all [WorkflowStatus.awaitedActivity]
        simp only [revokeRunning, wp_bind, wp_orAbort]
        refine ⟨fun token htoken => ⟨fun limit hlimit => ?_, fun hnone => hE ⟨a, act, hw, ha, hrun, ?_⟩⟩,
          fun hnone => ?_⟩
        · obtain ⟨hbound, rfl⟩ := I32.checkedAdd_eq_some.mp hlimit
          rw [hid]
          refine wp_updateActivity_of ha (by simp [hrun, htoken]) (fun _ => rfl) fun db₁ ht₁ => ?_
          exact h _ _ db₁ (ht₁.of_eq hwid) rfl rfl
            (.revoked hr hstatus hw hact hrun operator.reason now hbound)
        · by_contra hroom
          rw [I32.checkedAdd_eq_some.mpr ⟨Nat.lt_of_not_le hroom, rfl⟩] at hnone
          cases hnone
        · have := hledger.leaseToken
          simp [hnone, hrun, ActivityStatus.holdsLease] at this
      all_goals exact hother (by rw [‹act.status = _›]; simp)

/-- The pause of a workflow that can be paused fails for want of room only. -/
theorem wp_pauseWorkflow_of (hs : db.Sound) (hx : db.Attached ∅)
    (hr : db.workflows.find workflow.id = some workflow) (hne : workflow.status ≠ .paused)
    (ht : workflow.status.isTerminal = false)
    (hevent : I32.max ≤ (db.aggregate workflow.id).events.length →
      E (.invalidState .eventSequenceOverflow))
    (hlimit : db.RevokesAtLimit workflow → E (.invalidState .attemptLimitOverflow)) :
    wp (pauseWorkflow workflow.id operator now) (fun _ db' => Paused workflow.id db db') E db := by
  simp only [pauseWorkflow, lockWorkflow, appendOperatorEvent, wp_bind, wp_findRow, wp_orAbort,
    wp_ensure, wp_ofExcept, workflowTable_get, hr, hs.wait_eq hx hr ht, Option.some.injEq,
    forall_eq', Except.ok.injEq, hne, ht, ne_eq, not_false_eq_true, and_self, forall_const,
    not_true_eq_false, IsEmpty.forall_iff, and_true, reduceCtorEq, implies_true]
  refine wp_pauseAwaited hs hr hne ht hlimit fun edit o db₁ ht₁ hrow hevents hstep => ?_
  exact wp_pauseRow hs hr hevent ht₁ hrow hevents hstep

theorem wp_pauseWorkflow (hs : db.Sound) (hx : db.Attached ∅) :
    wp (pauseWorkflow w operator now) (fun _ db' => Paused w db db') Benign db := by
  cases hfind : db.workflows.find w with
  | none =>
    simp only [pauseWorkflow, lockWorkflow, wp_bind, wp_findRow, wp_orAbort, workflowTable_get, hfind]
    exact ⟨by rintro _ ⟨⟩, fun _ => rfl⟩
  | some workflow =>
    obtain rfl : workflow.id = w := Table.key_of_find hfind
    by_cases hopen : workflow.status ≠ .paused ∧ workflow.status.isTerminal = false
    · exact wp_pauseWorkflow_of hs hx hfind hopen.1 hopen.2 (fun _ => rfl) fun _ => rfl
    · simp only [pauseWorkflow, lockWorkflow, wp_bind, wp_findRow, wp_orAbort, wp_ensure,
        workflowTable_get, hfind]
      refine ⟨?_, fun h => by cases h⟩
      rintro _ ⟨⟩
      exact ⟨fun h => absurd h hopen, fun _ => rfl⟩

/-- The status a resume finds; it always finds one. -/
theorem wp_resumeStatus {Q : WorkflowStatus → DB → Prop} (hs : db.Sound) (hx : db.Attached ∅)
    (hr : db.workflows.find workflow.id = some workflow) (hpaused : workflow.status = .paused)
    (h : ∀ status, (db.aggregate workflow.id).ResumesTo workflow status → Q status db) :
    wp (resumeStatus workflow) Q E db := by
  have hinv := hs.inv hr
  have ht : workflow.status.isTerminal = false := by rw [hpaused]; rfl
  simp only [resumeStatus, wp_bind, wp_ofExcept, hs.wait_eq hx hr ht]
  refine ⟨?_, fun _ h => by cases h⟩
  rintro o ⟨⟩
  unfold Aggregate.ResumesTo at h
  cases hw : workflow.awaited with
  | none =>
    rw [hw] at h
    exact h _ rfl
  | some wait =>
    rw [hw] at h
    cases wait with
    | timer n => exact h _ rfl
    | child c =>
      have hawaits : (db.aggregate workflow.id).AwaitsChild c :=
        (Aggregate.awaitsChild_iff hr).mpr ⟨by rw [hpaused]; rfl, hw⟩
      obtain hin | ⟨child, hchild, hopen⟩ := hx _ c hawaits
      · exact hin.elim
      simp only [wp_bind, wp_findRow, wp_orAbort, wp_ensure, wp_pure, workflowTable_get,
        show db.workflows.find c = some child from hchild]
      refine ⟨?_, fun h => by cases h⟩
      rintro _ ⟨⟩
      exact ⟨fun _ => h _ rfl, fun hne => absurd hopen hne⟩
    | approval p =>
      obtain ⟨approval, happ, hpending, -⟩ := hinv.awaited ht _ hw
      simp only [wp_bind, wp_findRow, wp_orAbort, wp_pure, approvalTable_get,
        (aggregate_approval.mp happ).1]
      refine ⟨?_, fun h => by cases h⟩
      rintro _ ⟨⟩
      rw [if_pos hpending]
      exact h _ rfl
    | activity a =>
      obtain ⟨act, hact, -, hstatus, -⟩ := hinv.awaitedActivity ht hw
      simp only [wp_bind, wp_findRow, wp_orAbort, activityTable_get, (aggregate_activity.mp hact).1]
      refine ⟨?_, fun h => by cases h⟩
      rintro _ ⟨⟩
      rw [hpaused] at hstatus
      cases hst : act.status with
      | pending | running | cancelling =>
        exact h _ ⟨act, hact, .inl ⟨by rw [hst]; rfl, rfl⟩⟩
      | deadLettered => exact h _ ⟨act, hact, .inr ⟨hst, rfl⟩⟩
      | succeeded | cancelled => simp [hst, WorkflowStatus.awaitedActivity] at hstatus

/-- What a resume does: the paused row gets its status back, and a row that
becomes ready is due at once. -/
structure Resumed (w : WorkflowId) (now : DbMillis) (status : WorkflowStatus) (db db' : DB) :
    Prop where
  resumed : ∃ r e, db.workflows.find w = some r ∧ r.status = .paused ∧
    (db.aggregate w).ResumesTo r status ∧ NextEvent (db.aggregate w).events none e ∧
    e.answers = none ∧ Touches db w (fun g => (g.setRow { r.leaseCleared with
      status, availableAt := if status = .ready then now else r.availableAt
      updatedAt := now }).addEvent e) db'

theorem Resumed.evolves {status : WorkflowStatus} (h : Resumed w now status db db') :
    Evolves (fun _ l => l = .resumed ∨ l = .history) db db' := by
  obtain ⟨r, e, hr, hpaused, hstatus, he, hanswers, ht⟩ := h.resumed
  have hstep := Step.resumed (g := db.aggregate w) hr hpaused hstatus
    (if status = .ready then now else r.availableAt) now
  exact .of_touches ht ((Steps.single hstep (.inl rfl)).trans
    (.single (.history rfl he hanswers) (.inr rfl)))

/-- The resume of a paused workflow fails for want of room only. -/
theorem wp_resumeWorkflow_of (hs : db.Sound) (hx : db.Attached ∅)
    (hr : db.workflows.find workflow.id = some workflow) (hpaused : workflow.status = .paused)
    (hE : I32.max ≤ (db.aggregate workflow.id).events.length →
      E (.invalidState .eventSequenceOverflow)) :
    wp (resumeWorkflow workflow.id operator now)
      (fun status db' => Resumed workflow.id now status db db') E db := by
  simp only [resumeWorkflow, lockWorkflow, appendOperatorEvent, wp_bind, wp_findRow, wp_orAbort,
    wp_ensure, workflowTable_get, hr, Option.some.injEq, forall_eq', hpaused, forall_const,
    not_true_eq_false, IsEmpty.forall_iff, and_true, reduceCtorEq]
  refine wp_resumeStatus hs hx hr hpaused fun status hstatus => ?_
  refine wp_updateWorkflow_of hr (by simp [hpaused]) fun db₁ ht₁ => ?_
  have hevents : (db₁.aggregate workflow.id).events = (db.aggregate workflow.id).events := by
    rw [ht₁.self]
    rfl
  refine wp_appendHistoryEvent (hevents ▸ hs.log _) (fun hfull => hE (hevents ▸ hfull))
    (fun _ h => by cases h) rfl fun e db₂ he hanswers ht₂ => ?_
  rw [hevents] at he
  exact ⟨workflow, e, hr, hpaused, hstatus, he, hanswers, ht₁.trans ht₂⟩

theorem wp_resumeWorkflow (hs : db.Sound) (hx : db.Attached ∅) :
    wp (resumeWorkflow w operator now) (fun status db' => Resumed w now status db db') Benign db := by
  cases hfind : db.workflows.find w with
  | none =>
    simp only [resumeWorkflow, lockWorkflow, wp_bind, wp_findRow, wp_orAbort, workflowTable_get, hfind]
    exact ⟨by rintro _ ⟨⟩, fun _ => rfl⟩
  | some workflow =>
    obtain rfl : workflow.id = w := Table.key_of_find hfind
    by_cases hpaused : workflow.status = .paused
    · exact wp_resumeWorkflow_of hs hx hfind hpaused fun _ => rfl
    · simp only [resumeWorkflow, lockWorkflow, wp_bind, wp_findRow, wp_orAbort, wp_ensure,
        workflowTable_get, hfind]
      refine ⟨?_, fun h => by cases h⟩
      rintro _ ⟨⟩
      exact ⟨fun h => absurd h hpaused, fun _ => rfl⟩

theorem wp_cancelWorkflow (hs : db.Sound) (hx : db.Attached X) :
    wp (cancelWorkflow w operator now)
      (fun _ db' => (∃ ids, Ended w ids db db') ∧ db'.Attached X) Benign db := by
  simp only [cancelWorkflow, lockWorkflow, wp_bind, wp_findRow, wp_orAbort, wp_ensure,
    workflowTable_get]
  refine ⟨fun workflow hfind => ⟨fun ht => ?_, fun _ => rfl⟩, fun _ => rfl⟩
  obtain rfl : workflow.id = w := Table.key_of_find hfind
  exact wp_cancelLockedWorkflow hs hx hfind ht fun ids db' hended hx' => ⟨⟨ids, hended⟩, hx'⟩

/-- A source that is not terminal ends with its parents woken. -/
theorem wp_supersedeSource {Q : Unit → DB → Prop} (hs : db.Sound) (hx : db.Attached X)
    (hr : db.workflows.find workflow.id = some workflow) (ht : workflow.status.isTerminal = false)
    (h : ∀ ids db', Ended workflow.id ids db db' → db'.Attached X → Q () db') :
    wp (supersedeSource workflow operator now) Q Benign db := by
  simp only [supersedeSource, appendOperatorEvent, wp_bind]
  refine wp_endWorkflow false hs hr ht rfl hx rfl rfl fun db₁ hswept hx₁ => ?_
  refine wp_wakeParents (hswept.sound hs) hx₁ (hswept.closed _ (List.mem_singleton.mpr rfl))
    fun db₂ hev₂ hx₂ hself => ?_
  have hswept' := hswept.wakeParents hev₂ hself
  refine wp_cancelOwnedDescendants (hswept'.sound hs) hx₂ fun ids db₃ hswept₃ hcas => ?_
  exact h ids db₃ ⟨hswept'.trans hswept₃, hcas.congr hswept'.lineage⟩

theorem benignErrors_prepareStartExact {registry : WorkflowRegistry} {kind input : String}
    {version : ℤ} : BenignErrors (registry.prepareStartExact kind version input) := by
  refine .bind ?_ fun _ _ => .bind benignErrors_codec fun _ _ =>
    .bind (.ensureSize _ _ _) fun _ _ => .bind (.ensureSize _ _ _) fun _ _ => .ok _
  unfold WorkflowRegistry.workflowDefinition
  split
  · exact .ok _
  · exact .error rfl

theorem benignErrors_prepareStartCurrent {registry : WorkflowRegistry} {kind input : String} :
    BenignErrors (registry.prepareStartCurrent kind input) := by
  unfold WorkflowRegistry.prepareStartCurrent
  split
  · exact benignErrors_prepareStartExact
  · exact .error rfl

/-- The schedule run belongs to no aggregate. -/
theorem wp_moveScheduleRun {successor : WorkflowId} {Q : Unit → DB → Prop}
    (h : ∀ db', Evolves (fun _ _ => False) db db' → Q () db') :
    wp (moveScheduleRun workflow successor) Q Benign db := by
  unfold moveScheduleRun
  split
  · exact h db (.refl db)
  · exact wp_fencedUpdate (fun _ => rfl) fun _ _ _ => h _ (.of_aggregate_eq (fun _ => rfl) id)

/-- A history event of an operator. -/
theorem wp_operatorEvent {P : WorkflowId → Label → Prop} {eventType : EventType} {r : WorkflowRow}
    {Q : Unit → DB → Prop} (hs : db.Sound) (hx : db.Attached X)
    (hr : db.workflows.find w = some r) (hP : P w .history)
    (htype : eventType.isHistory = true)
    (h : ∀ db', Evolves P db db' → db'.Attached X → Q () db') :
    wp (appendOperatorEvent w eventType operator now) Q Benign db := by
  refine wp_history (P := fun w' l => w' = w ∧ l = .history) hs hr (fun _ => rfl) ⟨rfl, rfl⟩ nofun
    htype fun db' hev _ => h db' (hev.mono ?_) (hev.attached hs ?_ hx)
  · rintro _ _ ⟨rfl, rfl⟩
    exact hP
  · rintro _ _ ⟨-, rfl⟩
    exact ⟨rfl, rfl⟩

/-- What a restart records once its source has ended. -/
theorem wp_recordRestart {successor : WorkflowId} {eventType : EventType} {Q : Unit → DB → Prop}
    (hs : db.Sound) (hx : db.Attached X) (hsource : ∃ r, db.workflows.find workflow.id = some r)
    (hsuccessor : ∃ r, db.workflows.find successor = some r)
    (htype : eventType.isHistory = true)
    (h : ∀ db', Evolves (fun w l => (w = workflow.id ∨ w = successor) ∧ l = .history) db db' →
      db'.Attached X → Q () db') :
    wp (moveScheduleRun workflow successor) (fun _ db =>
      wp (appendOperatorEvent workflow.id eventType operator now) (fun _ db =>
        wp (appendOperatorEvent successor .workflowRestartCreated operator now) Q Benign db) Benign
        db) Benign db := by
  refine wp_moveScheduleRun fun db₁ hev₁ => ?_
  have hev₁' : Evolves (fun w l => (w = workflow.id ∨ w = successor) ∧ l = .history) db db₁ :=
    hev₁.mono fun _ _ => False.elim
  have hx₁ := hev₁.attached hs (fun _ _ => False.elim) hx
  obtain ⟨r₁, hr₁⟩ := (hev₁.steps workflow.id).exists_row hsource
  refine wp_operatorEvent (P := fun w l => (w = workflow.id ∨ w = successor) ∧ l = .history)
    (hev₁.sound hs) hx₁ hr₁ ⟨.inl rfl, rfl⟩ htype fun db₂ hev₂ hx₂ => ?_
  have hev₁₂ := hev₁'.trans hev₂
  obtain ⟨r₂, hr₂⟩ := (hev₁₂.steps successor).exists_row hsuccessor
  refine wp_operatorEvent (P := fun w l => (w = workflow.id ∨ w = successor) ∧ l = .history)
    (hev₁₂.sound hs) hx₂ hr₂ ⟨.inr rfl, rfl⟩ rfl fun db₃ hev₃ hx₃ => h db₃ (hev₁₂.trans hev₃) hx₃

/-- The options of the successor of a restarted row. -/
def restartOptions (source : WorkflowRow) : StartOptions where
  availableAt := none
  scheduleRunId := source.scheduleRunId
  lineage := .restart (source.rootWorkflowId.getD source.id) source.id

/-- What the restart of `source` does: it inserts a successor, ends a source that is
not terminal, and records both. -/
inductive Restarts (source : WorkflowRow) (now : DbMillis) (db : DB) : DB → Prop
  | terminal {prepared : PreparedWorkflowStart} {db₁ db' : DB}
      (hfind : db.workflows.find source.id = some source)
      (ht : source.status.isTerminal = true)
      (hstarted : Started (fun _ l => l = .inserted) db
        (preparedRow prepared (restartOptions source) now) db₁)
      (h : Evolves (fun w l => (w = source.id ∨ w = db.workflows.next) ∧ l = .history) db₁ db') :
      Restarts source now db db'
  | superseded {prepared : PreparedWorkflowStart} {ids : List WorkflowId} {db₁ db₂ db' : DB}
      (hfind : db.workflows.find source.id = some source)
      (ht : source.status.isTerminal = false)
      (hstarted : Started (fun _ l => l = .inserted) db
        (preparedRow prepared (restartOptions source) now) db₁)
      (hended : Ended source.id ids db₁ db₂)
      (h : Evolves (fun w l => (w = source.id ∨ w = db.workflows.next) ∧ l = .history) db₂ db') :
      Restarts source now db db'

theorem Restarts.evolves {source : WorkflowRow} (h : Restarts source now db db') :
    Evolves (fun _ l => l = .inserted ∨ l.cancels = true) db db' := by
  have hinserted : ∀ {row : WorkflowRow} {db₁ : DB}, Started (fun _ l => l = .inserted) db row db₁ →
      Evolves (fun _ l => l = .inserted ∨ l.cancels = true) db db₁ :=
    fun h => h.evolves.mono fun _ _ => .inl
  cases h with
  | terminal _ _ hstarted h =>
    refine (hinserted hstarted).trans (h.mono ?_)
    rintro _ _ ⟨-, rfl⟩
    exact .inr rfl
  | superseded _ _ hstarted hended h =>
    refine ((hinserted hstarted).trans (hended.swept.cancels.mono fun _ _ => .inr)).trans
      (h.mono ?_)
    rintro _ _ ⟨-, rfl⟩
    exact .inr rfl

/-- The registry prepares the start of a definition. -/
def WorkflowRegistry.Prepares (registry : WorkflowRegistry) (prepared : PreparedWorkflowStart) :
    Prop :=
  ∃ kind version input, registry.prepareStartExact kind version input = .ok prepared

theorem WorkflowRegistry.Prepares.of_restart {registry : WorkflowRegistry} {source : WorkflowRow}
    {correction : Option String} {prepared : PreparedWorkflowStart}
    (h : (match correction with
      | some input => registry.prepareStartCurrent source.kind input
      | none => registry.prepareStartExact source.kind source.version source.inputJson) =
      .ok prepared) : registry.Prepares prepared := by
  cases correction with
  | none => exact ⟨_, _, _, h⟩
  | some input =>
    simp only [prepareStartCurrent] at h
    split at h
    · exact ⟨_, _, _, h⟩
    · cases h

/-- A restart inserts what the registry prepares, then ends the source and records both. -/
theorem wp_restart_of {registry : WorkflowRegistry} {correction : Option String}
    {Q : WorkflowId → DB → Prop} (hs : db.Sound) (hx : db.Attached X)
    (h : ∀ source prepared successor db₁ db', source.id = w → registry.Prepares prepared →
      Started (fun _ l => l = .inserted) db (preparedRow prepared (restartOptions source) now) db₁ →
      Evolves (fun _ l => l.cancels = true) db₁ db' → Restarts source now db db' →
      db'.Attached X → Q successor db') :
    wp (restart registry w correction operator now) Q Benign db := by
  simp only [restart, lockWorkflow, wp_bind, wp_findRow, wp_orAbort, wp_ensure, wp_selectRows,
    wp_ofExcept, wp_onlyIf, wp_pure, workflowTable_get]
  refine ⟨fun source hfind => ⟨fun _ => ⟨fun _ => ⟨fun prepared hprepared => ⟨fun _ _ => ?_,
    benignErrors_checkPreparedStart⟩, ?_⟩, fun _ => rfl⟩, fun _ => rfl⟩, fun _ => rfl⟩
  swap
  · intro e he
    cases correction with
    | some input => exact benignErrors_prepareStartCurrent e he
    | none => exact benignErrors_prepareStartExact e he
  have hprepares : registry.Prepares prepared := .of_restart hprepared
  obtain rfl : source.id = w := Table.key_of_find hfind
  refine wp_imp (wp_insertPrepared hs ?_) fun o db₁ hstarts => ?_
  · rintro _ ⟨⟩
    exact Table.lt_next_of_find hfind
  cases hstarts with
  | existing hkey => cases hkey
  | inserted hstarted =>
    refine ⟨fun _ => ?_, fun hne => absurd rfl hne⟩
    have hs₁ := hstarted.evolves.sound hs
    have hx₁ : db₁.Attached X := by
      refine hstarted.evolves.attached hs ?_ hx
      rintro _ _ rfl
      exact ⟨rfl, rfl⟩
    have hfind₁ := hstarted.find_of_find hfind
    have hrecorded : ∀ {db₂ db₃ : DB},
        Evolves (fun w l => (w = source.id ∨ w = db.workflows.next) ∧ l = .history) db₂ db₃ →
        Evolves (fun _ l => l.cancels = true) db₂ db₃ :=
      fun h => h.mono (by rintro _ _ ⟨-, rfl⟩; rfl)
    refine ⟨fun hopen => ?_, fun hterminal => ?_⟩
    · refine wp_supersedeSource hs₁ hx₁ hfind₁ hopen fun ids db₂ hended hx₂ => ?_
      have hev₂ := hended.swept.evolves
      refine wp_recordRestart (hev₂.sound hs₁) hx₂ ((hev₂.steps _).exists_row ⟨_, hfind₁⟩)
        ((hev₂.steps _).exists_row ⟨_, hstarted.stored⟩) (by split <;> rfl) fun db₃ hev₃ hx₃ => ?_
      exact h source prepared _ db₁ db₃ rfl hprepares hstarted
        (hended.swept.cancels.trans (hrecorded hev₃)) (.superseded hfind hopen hstarted hended hev₃)
        hx₃
    · refine wp_recordRestart hs₁ hx₁ ⟨_, hfind₁⟩ ⟨_, hstarted.stored⟩ (by split <;> rfl)
        fun db₂ hev₂ hx₂ => ?_
      exact h source prepared _ db₁ db₂ rfl hprepares hstarted (hrecorded hev₂)
        (.terminal hfind (by simpa using hterminal) hstarted hev₂) hx₂

theorem wp_restart {registry : WorkflowRegistry} {correction : Option String} (hs : db.Sound)
    (hx : db.Attached X) :
    wp (restart registry w correction operator now) (fun _ db' =>
      (∃ source, source.id = w ∧ Restarts source now db db') ∧ db'.Attached X) Benign db :=
  wp_restart_of hs hx fun source _ _ _ _ hid _ _ _ hrestarts hx' => ⟨⟨source, hid, hrestarts⟩, hx'⟩

theorem benignErrors_newCommand {definition : ActivityDefinition} {payload : String}
    {key : Option String} : BenignErrors (ActivityCommand.new definition payload key) :=
  .bind (.ensureSize _ _ _) fun _ _ => .bind (.rejectIf rfl) fun _ _ =>
    .bind (.rejectIf rfl) fun _ _ => .bind (.rejectIf rfl) fun _ _ => .ok _

theorem benignErrors_prepareCommandExact {registry : ActivityRegistry} {kind payload : String}
    {version : ℤ} {key : Option String} :
    BenignErrors (registry.prepareCommandExact kind version payload key) := by
  refine .bind ?_ fun _ _ => .bind benignErrors_codec fun _ _ => benignErrors_newCommand
  unfold ActivityRegistry.activityDefinition
  split
  · exact .ok _
  · exact .error rfl

theorem benignErrors_prepareCommandCurrent {registry : ActivityRegistry} {kind payload : String}
    {key : Option String} : BenignErrors (registry.prepareCommandCurrent kind payload key) := by
  unfold ActivityRegistry.prepareCommandCurrent
  split
  · exact benignErrors_prepareCommandExact
  · exact .error rfl

/-- A prepared command is one of the definition it was prepared for. -/
theorem prepareCommandExact_ok {registry : ActivityRegistry} {kind payload : String} {version : ℤ}
    {key : Option String} {command : ActivityCommand}
    (h : registry.prepareCommandExact kind version payload key = .ok command) :
    command.kind = kind ∧ command.version = version := by
  obtain ⟨definition, hdefinition, h⟩ := bind_eq_ok h
  obtain ⟨payload', -, h⟩ := bind_eq_ok h
  obtain ⟨-, -, h⟩ := bind_eq_ok h
  obtain ⟨-, -, h⟩ := bind_eq_ok h
  obtain ⟨-, -, h⟩ := bind_eq_ok h
  obtain ⟨-, -, h⟩ := bind_eq_ok h
  obtain rfl := Except.ok.inj h
  unfold ActivityRegistry.activityDefinition at hdefinition
  split at hdefinition
  · rename_i found
    obtain rfl := Except.ok.inj hdefinition
    simpa using List.find?_some found
  · cases hdefinition

theorem prepareCommandCurrent_ok {registry : ActivityRegistry} {kind payload : String}
    {key : Option String} {command : ActivityCommand}
    (h : registry.prepareCommandCurrent kind payload key = .ok command) :
    command.kind = kind ∧ registry.currentVersion kind = some command.version := by
  unfold ActivityRegistry.prepareCommandCurrent at h
  split at h
  · rename_i version hversion
    obtain ⟨hkind, rfl⟩ := prepareCommandExact_ok h
    exact ⟨hkind, hversion⟩
  · cases h

/-- The replacement of the activity a workflow is blocked on, with the event of
the operator. -/
theorem wp_replaceActivity {a : ActivityId} {source row : ActivityRow} {eventType : EventType}
    (hs : db.Sound) (hr : db.workflows.find workflow.id = some workflow)
    (hblocked : workflow.status = .blocked) (hw : workflow.awaited = some (.activity a))
    (hact : (db.aggregate workflow.id).activities a = some source)
    {command : ActivityCommand} (hkind : command.kind = source.kind)
    (hrow : row.New workflow.id source.commandSequence (source.replacementNumber + 1) command
      (some (source.rootActivityId.getD source.id)) (some source.id))
    (htype : eventType.isHistory = true) :
    wp (insertActivity row) (fun b db₁ =>
      wp (fencedUpdate workflowTable workflow.id
        (fun r => r.status == .blocked && r.waitReferenceId == some source.id)
        (fun r => { r.waitOn (.activity b) with
          status := .waitingActivity, availableAt := now, errorCategory := none
          errorMessage := none, updatedAt := now })) (fun _ db₂ =>
        wp (appendHistoryEvent workflow.id eventType .operator (some operator.actorId)
          (some operator.reason) none now) (fun _ db' =>
          Evolves (fun _ l => l = .history ∨ ∃ b, l = .retried a b) db db') Benign db₂) Benign db₁)
      Benign db := by
  have hinv := hs.inv hr
  have hid : source.id = a := Table.key_of_find (aggregate_activity.mp hact).1
  obtain ⟨act, hact', hcurrent, -, hnewest⟩ :=
    hinv.awaitedActivity (by rw [hblocked]; rfl) hw
  obtain rfl := Option.some_inj.mp (hact.symm.trans hact')
  refine wp_insertActivity hs hrow.workflowId (fun b other hother hsame => ?_) fun b db₁ hmax hnone ht₁ => ?_
  · -- the replaced activity is the newest of its command
    have hle := hnewest b other hother (by rw [hsame.1, hrow.command, hcurrent])
    have := hrow.replacement
    omega
  have hrow₁ : db₁.workflows.find workflow.id = some workflow :=
    (congrArg Aggregate.row ht₁.self).trans hr
  refine wp_updateWorkflow_of hrow₁ ?_ fun db₂ ht₂ => ?_
  · simp [hblocked, waitReferenceId_of_awaited hw, hid, Wait.referenceId]
  have htouch := ht₁.trans ht₂
  have hev : Evolves (fun _ l => l = .history ∨ ∃ b, l = .retried a b) db db₂ :=
    .of_step htouch (.retried hr hblocked hw hact hnone (hrow.fresh b hmax) hrow.command
      hrow.replacement now (hrow.kind.trans hkind) (hid ▸ hrow.root) (hid ▸ hrow.replaces))
      (.inr ⟨b, rfl⟩)
  exact wp_history (P := fun _ l => l = .history ∨ ∃ b, l = .retried a b) (hev.sound hs)
    (congrArg Aggregate.row htouch.self) (fun _ => rfl) (.inl rfl) nofun htype fun db₃ hev₃ _ =>
      hev.trans hev₃

/-- A retry replaces the dead-lettered activity its workflow is blocked on. -/
theorem wp_retry {registry : ActivityRegistry} {a : ActivityId} {correction : Option String}
    (hs : db.Sound) :
    wp (retry registry a correction operator now)
      (fun _ db' => Evolves (fun _ l => l = .history ∨ ∃ b, l = .retried a b) db db') Benign db := by
  simp only [retry, lockWorkflow, appendOperatorEvent, wp_bind, wp_findRow, wp_orAbort, wp_ensure,
    wp_ofExcept, wp_pure, activityTable_get, workflowTable_get]
  refine ⟨fun source hsource => ⟨fun workflow hfind => ⟨fun wait hwait => ⟨fun hblocks =>
    ⟨fun number hnumber => ⟨fun command hcommand => ⟨fun row hrow => ?_, benignErrors_newActivityRow⟩, ?_⟩,
    fun _ => rfl⟩, fun _ => rfl⟩, (hs.inv hfind).row.benign_wait⟩, fun _ => rfl⟩, fun _ => rfl⟩
  swap
  · intro e he
    cases correction with
    | some payload => exact benignErrors_prepareCommandCurrent e he
    | none => exact benignErrors_prepareCommandExact e he
  obtain ⟨hwaits, -⟩ := hblocks
  have hid : workflow.id = source.workflowId := Table.key_of_find hfind
  rw [← hid] at hfind
  obtain ⟨-, rfl⟩ := I32.checkedAdd_eq_some.mp hnumber
  subst hwaits
  have hblocked : workflow.status = .blocked := by
    by_contra hne
    simp [hne] at hwait
  rw [if_pos hblocked] at hwait
  have hw := ((hs.inv hfind).row.wait_eq.1 _ hwait).symm
  have hkind : command.kind = source.kind := by
    cases correction with
    | some payload => exact (prepareCommandCurrent_ok hcommand).1
    | none => exact (prepareCommandExact_ok hcommand).1
  exact wp_replaceActivity hs hfind hblocked hw (aggregate_activity.mpr ⟨hsource, hid.symm⟩) hkind
    (hid ▸ newActivityRow_ok hrow) (by split <;> rfl)

theorem wp_recordScheduleRunNow (hs : db.Sound) :
    wp (recordScheduleRunNow w operator now)
      (fun _ db' => Evolves (fun _ l => l = .history) db db') Benign db := by
  simp only [recordScheduleRunNow, lockWorkflow, appendOperatorEvent, wp_bind, wp_findRow,
    wp_orAbort, workflowTable_get]
  refine ⟨fun workflow hfind => ?_, fun _ => rfl⟩
  obtain rfl : workflow.id = w := Table.key_of_find hfind
  exact wp_history (P := fun _ l => l = .history) hs hfind (fun _ => rfl) rfl (fun _ h => by cases h) rfl
    fun db' hev _ => hev

theorem wp_seedLocks {topics : List TopicDefinition} :
    wp (seedLocks topics now) (fun _ db' => Evolves (fun _ _ => False) db db') Benign db := by
  refine wp_forEach (fun _ db' => Evolves (fun _ _ => False) db db') ?_ (.refl db)
  intro pre topic post _ db₁ hev
  rw [wp_bind, wp_ensure]
  refine ⟨fun _ => ?_, fun _ => rfl⟩
  rw [wp_modify]
  exact hev.trans (.of_aggregate_eq (fun _ => rfl) id)

end DurableWorkflows
