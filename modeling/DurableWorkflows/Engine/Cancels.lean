import DurableWorkflows.Engine.Starts
import Mathlib.Data.Finset.Card
import Mathlib.Data.Finset.Range

/-!
# Cancels

A cancel ends a workflow with its activities and approvals, hands its outcome to
every parent that waits for it, and goes on to the children the workflow owns.

## Main definitions

- `Swept`: some open workflows are cancelled, and those who waited for them woken
- `Cascaded`: they are the open generations of owned children, all of them

## Main results

- `wp_cancelOneWorkflow`: the workflow ends and its parents are woken
- `wp_cancelOwnedDescendants`: the cascade ends, and leaves no owned child open
-/

namespace DurableWorkflows

open Transaction Pointers

variable {db db' : DB} {w : WorkflowId} {r workflow : WorkflowRow} {reason : String}
  {outcome : AttemptOutcome} {operatorId : Option String} {now : DbMillis} {X : Set WorkflowId}
  {P : WorkflowId → Label → Prop}

-- ════════════════════════════════════════════════════════════════════════
-- The work of one workflow
-- ════════════════════════════════════════════════════════════════════════

namespace Aggregate

variable {g : Aggregate} {ids : List ℕ}

/-- Change the activities with the given ids. -/
def mapActivitiesOn (g : Aggregate) (ids : List ActivityId) (f : ActivityRow → ActivityRow) :
    Aggregate :=
  { g with activities := fun a => if a ∈ ids then (g.activities a).map f else g.activities a }

/-- Change the approvals with the given ids. -/
def mapApprovalsOn (g : Aggregate) (ids : List ApprovalId) (f : ApprovalRow → ApprovalRow) :
    Aggregate :=
  { g with approvals := fun p => if p ∈ ids then (g.approvals p).map f else g.approvals p }

theorem mapActivitiesOn_nil {f : ActivityRow → ActivityRow} : g.mapActivitiesOn [] f = g := by
  simp [mapActivitiesOn]

theorem mapApprovalsOn_nil {f : ApprovalRow → ApprovalRow} : g.mapApprovalsOn [] f = g := by
  simp [mapApprovalsOn]

/-- One more activity is changed. -/
theorem setActivity_mapActivitiesOn {f : ActivityRow → ActivityRow} {a : ActivityId}
    {act : ActivityRow} (ha : g.activities a = some act) :
    (g.mapActivitiesOn ids f).setActivity a (f act) = g.mapActivitiesOn (ids ++ [a]) f := by
  ext1 <;> try rfl
  funext i
  simp only [mapActivitiesOn, setActivity, Function.update_apply, List.mem_append,
    List.mem_singleton]
  by_cases hi : i = a
  · simp [hi, ha]
  · simp [hi]

/-- One more approval is changed. -/
theorem setApproval_mapApprovalsOn {f : ApprovalRow → ApprovalRow} {p : ApprovalId}
    {approval : ApprovalRow} (hp : g.approvals p = some approval) :
    (g.mapApprovalsOn ids f).setApproval p (f approval) = g.mapApprovalsOn (ids ++ [p]) f := by
  ext1 <;> try rfl
  funext i
  simp only [mapApprovalsOn, setApproval, Function.update_apply, List.mem_append,
    List.mem_singleton]
  by_cases hi : i = p
  · simp [hi, hp]
  · simp [hi]

/-- All activities that the change concerns are changed. -/
theorem mapActivitiesOn_eq {f : ActivityRow → ActivityRow}
    (h : ∀ a act, g.activities a = some act → a ∉ ids → f act = act) :
    g.mapActivitiesOn ids f = g.mapActivities f := by
  ext1 <;> try rfl
  funext a
  simp only [mapActivitiesOn, mapActivities]
  split
  · rfl
  · cases ha : g.activities a with
    | none => rfl
    | some act => simp [h a act ha ‹_›]

/-- All approvals that the change concerns are changed. -/
theorem mapApprovalsOn_eq {f : ApprovalRow → ApprovalRow}
    (h : ∀ p approval, g.approvals p = some approval → p ∉ ids → f approval = approval) :
    g.mapApprovalsOn ids f = g.mapApprovals f := by
  ext1 <;> try rfl
  funext p
  simp only [mapApprovalsOn, mapApprovals]
  split
  · rfl
  · cases hp : g.approvals p with
    | none => rfl
    | some approval => simp [h p approval hp ‹_›]

end Aggregate

/-- An element of a selection is not among those before it. -/
theorem Table.not_mem_of_select {α : Type} [Keyed α] {t : Table α} {p : α → Bool}
    {pre post : List α} {x : α} (h : t.select p = pre ++ x :: post) :
    Keyed.key x ∉ pre.map Keyed.key := by
  intro hin
  obtain ⟨y, hy, hkey⟩ := List.mem_map.mp hin
  have hpairwise := Table.pairwise_select (t := t) (p := p)
  rw [h] at hpairwise
  have := (List.pairwise_append.mp hpairwise).2.2 y hy x (List.mem_cons_self ..)
  omega

/-- The cancel of one activity that is not terminal. -/
theorem wp_cancelActivity {act : ActivityRow} {Q : Unit → DB → Prop}
    (ha : db.activities.find act.id = some act) (ht : act.status.isTerminal = false)
    (htoken : act.leaseToken.isSome = act.status.holdsLease)
    (h : ∀ db', Touches db act.workflowId
      (fun g => g.setActivity act.id (act.cancelledBy outcome reason now)) db' → Q () db') :
    wp (cancelActivity act reason outcome now) Q Benign db := by
  unfold cancelActivity
  have hlease : act.status.holdsLease = true →
      wp (do
        let leaseToken ← orAbort act.leaseToken (.invalidState (.noLeaseToken act.status act.id))
        fencedUpdate activityTable act.id
          (fun r => r.status == act.status && r.attemptCount == act.attemptCount &&
            r.leaseToken == some leaseToken)
          fun r => { r with
            status := .cancelling, lastErrorCategory := some outcome.asStr
            lastErrorMessage := some reason, updatedAt := now }) Q Benign db := by
    intro hl
    rw [hl] at htoken
    simp only [wp_bind, wp_orAbort]
    refine ⟨fun token hsome => ?_, fun hnone => by simp [hnone] at htoken⟩
    refine wp_updateActivity (fun _ => rfl) (fun _ => rfl) fun act' db' ha' _ ht' => ?_
    obtain rfl : act' = act := by simpa [ha] using ha'.symm
    refine h db' (ht'.congr ?_)
    have hcases : act'.status = .running ∨ act'.status = .cancelling := by
      cases hs : act'.status <;> simp_all [ActivityStatus.holdsLease]
    rcases hcases with hs | hs <;> simp [ActivityRow.cancelledBy, hs]
  split
  · exact hlease (by rw [‹act.status = _›]; rfl)
  · exact hlease (by rw [‹act.status = _›]; rfl)
  · rename_i hs
    refine wp_updateActivity (fun _ => rfl) (fun _ => rfl) fun act' db' ha' _ ht' => ?_
    obtain rfl : act' = act := by simpa [ha] using ha'.symm
    refine h db' (ht'.congr ?_)
    simp [ActivityRow.cancelledBy, hs]
  all_goals
    rename_i hs
    rw [hs] at ht
    cases ht

/-- The cancel of all activities of a workflow. -/
theorem wp_cancelActivities {Q : Unit → DB → Prop} (hs : db.Sound)
    (h : ∀ db', Touches db w (fun g => g.mapActivities (·.cancelledBy outcome reason now)) db' →
      Q () db') :
    wp (cancelActivities w reason outcome now) Q Benign db := by
  simp only [cancelActivities, wp_bind, wp_selectRows, activityTable_get]
  set activities := db.activities.select fun r => r.workflowId == w && !r.status.isTerminal
    with hactivities
  have hmem : ∀ act, act ∈ activities ↔ db.activities.find act.id = some act ∧
      act.workflowId = w ∧ act.status.isTerminal = false := by
    intro act
    rw [hactivities, Table.mem_select]
    simp only [Bool.and_eq_true, beq_iff_eq, Bool.not_eq_true']
    exact Iff.rfl
  refine wp_imp (wp_forEach (fun pre db' => Touches db w (fun g =>
    g.mapActivitiesOn (pre.map (·.id)) (·.cancelledBy outcome reason now)) db') ?_ ?_) ?_
  · intro pre act post hsplit db₁ ht
    obtain ⟨hfind, hw, hterm⟩ := (hmem act).mp (by rw [hsplit]; simp)
    have hnew : act.id ∉ pre.map (·.id) := Table.not_mem_of_select (hactivities ▸ hsplit)
    have hact : (db.aggregate w).activities act.id = some act := aggregate_activity.mpr ⟨hfind, hw⟩
    have hact₁ : (db₁.aggregate w).activities act.id = some act := by
      rw [ht.self]
      simp only [Aggregate.mapActivitiesOn, hnew, if_false]
      exact hact
    obtain ⟨r, hr⟩ := hs.row_of_activity hfind
    rw [hw] at hr
    have hledger := (hs.inv hr).ledger _ _ hact
    refine wp_cancelActivity (aggregate_activity.mp hact₁).1 hterm hledger.leaseToken
      fun db₂ ht₂ => ?_
    rw [hw] at ht₂
    refine (ht.trans ht₂).congr ?_
    rw [List.map_append]
    exact Aggregate.setActivity_mapActivitiesOn hact
  · exact (Touches.refl db w).congr Aggregate.mapActivitiesOn_nil.symm
  · intro _ db' ht
    refine h db' (ht.congr (Aggregate.mapActivitiesOn_eq fun a act ha hnot => ?_))
    obtain ⟨hfind, hw⟩ := aggregate_activity.mp ha
    have hid : act.id = a := Table.key_of_find hfind
    have hterm : act.status.isTerminal = true := by
      by_contra hterm
      refine hnot (List.mem_map.mpr ⟨act, (hmem act).mpr ⟨?_, hw, by simpa using hterm⟩, hid⟩)
      rw [hid]
      exact hfind
    unfold ActivityRow.cancelledBy
    cases hst : act.status <;> simp_all [ActivityStatus.isTerminal]

/-- The cancel of all approvals of a workflow. -/
theorem wp_cancelApprovals {Q : Unit → DB → Prop}
    (h : ∀ db', Touches db w (fun g => g.mapApprovals (·.cancelledBy reason now)) db' → Q () db') :
    wp (cancelApprovals w reason now) Q Benign db := by
  simp only [cancelApprovals, wp_bind, wp_selectRows, approvalTable_get]
  set approvals := db.approvals.select fun r => r.workflowId == w && r.status == .pending
    with happrovals
  have hmem : ∀ approval, approval ∈ approvals ↔ db.approvals.find approval.id = some approval ∧
      approval.workflowId = w ∧ approval.status = .pending := by
    intro approval
    rw [happrovals, Table.mem_select]
    simp only [Bool.and_eq_true, beq_iff_eq]
    exact Iff.rfl
  refine wp_imp (wp_forEach (fun pre db' => Touches db w (fun g =>
    g.mapApprovalsOn (pre.map (·.id)) (·.cancelledBy reason now)) db') ?_ ?_) ?_
  · intro pre approval post hsplit db₁ ht
    obtain ⟨hfind, hw, hpending⟩ := (hmem approval).mp (by rw [hsplit]; simp)
    have hnew : approval.id ∉ pre.map (·.id) := Table.not_mem_of_select (happrovals ▸ hsplit)
    have happ : (db.aggregate w).approvals approval.id = some approval :=
      aggregate_approval.mpr ⟨hfind, hw⟩
    have happ₁ : (db₁.aggregate w).approvals approval.id = some approval := by
      rw [ht.self]
      simp only [Aggregate.mapApprovalsOn, hnew, if_false]
      exact happ
    refine wp_updateApproval (fun _ => rfl) (fun _ => rfl) fun approval' db₂ ha' _ ht₂ => ?_
    obtain rfl : approval' = approval := by
      simpa [(aggregate_approval.mp happ₁).1] using ha'.symm
    subst hw
    refine (ht.trans ht₂).congr ?_
    rw [List.map_append]
    refine Eq.trans ?_ (Aggregate.setApproval_mapApprovalsOn happ)
    simp [ApprovalRow.cancelledBy, hpending]
  · exact (Touches.refl db w).congr Aggregate.mapApprovalsOn_nil.symm
  · intro _ db' ht
    refine h db' (ht.congr (Aggregate.mapApprovalsOn_eq fun p approval hp hnot => ?_))
    obtain ⟨hfind, hw⟩ := aggregate_approval.mp hp
    have hid : approval.id = p := Table.key_of_find hfind
    have hne : approval.status ≠ .pending := by
      intro hpending
      refine hnot (List.mem_map.mpr ⟨approval, (hmem approval).mpr ⟨?_, hw, hpending⟩, hid⟩)
      rw [hid]
      exact hfind
    simp [ApprovalRow.cancelledBy, hne]

-- ════════════════════════════════════════════════════════════════════════
-- Sweeps
-- ════════════════════════════════════════════════════════════════════════

/-- The steps of a sweep over the workflows `ids`: each of them is cancelled, and
whoever waits for one of them is woken. -/
def Label.sweeps (ids : List WorkflowId) (w : WorkflowId) : Label → Prop
  | .cancelled | .history => w ∈ ids
  | .answered (.child c) => c ∈ ids
  | _ => False

theorem Label.sweeps_mono {ids ids' : List WorkflowId} {l : Label} (hsub : ids ⊆ ids')
    (h : l.sweeps ids w) : l.sweeps ids' w := by
  unfold Label.sweeps at h ⊢
  split at h
  · exact hsub h
  · exact hsub h
  · exact hsub h
  · exact h.elim

theorem Label.cancels_of_sweeps {ids : List WorkflowId} {l : Label} (h : l.sweeps ids w) :
    l.cancels = true := by
  unfold Label.sweeps at h
  split at h
  · rfl
  · rfl
  · rfl
  · exact h.elim

theorem ne_inserted_of_cancels {l : Label} (h : l.cancels = true) : l ≠ .inserted := by
  rintro rfl
  cases h

/-- The workflows `ids` were open and are cancelled; nothing else happened but the
wakes of those who waited for them. -/
structure Swept (ids : List WorkflowId) (db db' : DB) : Prop where
  evolves : Evolves (fun w l => l.sweeps ids w) db db'
  opened : ∀ w ∈ ids, (db.aggregate w).IsOpen
  closed : ∀ w ∈ ids, ¬(db'.aggregate w).IsOpen

namespace Swept

variable {ids ids' : List WorkflowId} {db'' : DB}

theorem nil (db : DB) : Swept [] db db := ⟨.refl db, nofun, nofun⟩

theorem cancels (h : Swept ids db db') : Evolves (fun _ l => l.cancels) db db' :=
  h.evolves.mono fun _ _ => Label.cancels_of_sweeps

theorem sound (h : Swept ids db db') (hs : db.Sound) : db'.Sound := h.evolves.sound hs

theorem lineage (h : Swept ids db db') : db'.lineage = db.lineage :=
  h.cancels.lineage fun _ _ => ne_inserted_of_cancels

/-- A sweep opens no workflow. -/
theorem open_of_open (h : Swept ids db db') (hw : (db'.aggregate w).IsOpen) :
    (db.aggregate w).IsOpen :=
  (h.cancels.steps w).open_of_open (fun _ => ne_inserted_of_cancels) hw

theorem trans (h : Swept ids db db') (h' : Swept ids' db' db'') : Swept (ids' ++ ids) db db'' where
  evolves := (h.evolves.mono fun _ _ => Label.sweeps_mono (List.subset_append_right ids' ids)).trans
    (h'.evolves.mono fun _ _ => Label.sweeps_mono (List.subset_append_left ids' ids))
  opened := List.forall_mem_append.mpr ⟨fun w hw => h.open_of_open (h'.opened w hw), h.opened⟩
  closed := List.forall_mem_append.mpr
    ⟨h'.closed, fun w hw hopen => h.closed w hw (h'.open_of_open hopen)⟩

end Swept

/-- Only a workflow that waits for a child is answered by it, and then it waits for
none. -/
theorem Step.awaitsChild_of_answered {g g' : Aggregate} {c : WorkflowId}
    (h : Step g (.answered (.child c)) g') : g.AwaitsChild c ∧ ∀ c', ¬g'.AwaitsChild c' := by
  cases h with
  | answered hr hw hs =>
    rcases hs with ⟨hs, -⟩ | ⟨-, hkind⟩
    · exact ⟨(Aggregate.awaitsChild_iff hr).mpr ⟨hs, hw⟩, fun c' =>
        not_awaitsChild rfl (.inr nofun)⟩
    · cases hkind

/-- A child's outcome is answered once: the first answer leaves no wait for
another. -/
theorem Steps.eq_or_answered {P : Label → Prop} {g g' : Aggregate} (h : Steps P g g')
    (hP : ∀ l, P l → ∃ c, l = .answered (.child c)) :
    g' = g ∨ ∃ c, P (.answered (.child c)) ∧ Step g (.answered (.child c)) g' := by
  induction h with
  | refl => exact .inl rfl
  | tail _ hstep ih =>
    obtain ⟨l, hl, hstep⟩ := hstep
    obtain ⟨c, rfl⟩ := hP l hl
    rcases ih with rfl | ⟨c', -, hstep'⟩
    · exact .inr ⟨c, hl, hstep⟩
    · exact absurd hstep.awaitsChild_of_answered.1 (hstep'.awaitsChild_of_answered.2 c)

/-- A workflow that a sweep does not cancel is as it was, or it waited for one that
is cancelled and was woken. -/
theorem Swept.frame {ids : List WorkflowId} (h : Swept ids db db') (hw : w ∉ ids) :
    db'.aggregate w = db.aggregate w ∨
      ∃ c ∈ ids, Step (db.aggregate w) (.answered (.child c)) (db'.aggregate w) := by
  refine (h.evolves.steps w).eq_or_answered fun l hl => ?_
  unfold Label.sweeps at hl
  split at hl
  · exact absurd hl hw
  · exact absurd hl hw
  · exact ⟨_, rfl⟩
  · exact hl.elim

/-- The end of a workflow by a cancel: its work, its row and its history. -/
theorem wp_endWorkflow (clear : Bool) {eventType : EventType} {actorType : ActorType}
    {actorId historyReason : Option String} {f : WorkflowRow → WorkflowRow} {hf}
    {Q : Unit → DB → Prop} (hs : db.Sound)
    (hr : db.workflows.find workflow.id = some workflow)
    (ht : workflow.status.isTerminal = false) (ho : outcome.isRevoke = true)
    (hx : db.Attached X) (hfr : f workflow = workflow.cancelledAt clear now)
    (htype : eventType.isHistory = true)
    (h : ∀ db', Swept [workflow.id] db db' → db'.Attached (insert workflow.id X) → Q () db') :
    wp (cancelActivities workflow.id reason outcome now) (fun _ db =>
      wp (cancelApprovals workflow.id reason now) (fun _ db =>
        wp (fencedUpdate workflowTable workflow.id (fun r => r.status == workflow.status) f hf)
          (fun _ db => wp (appendHistoryEvent workflow.id eventType actorType actorId historyReason
            none now) Q Benign db) Benign db) Benign db) Benign db := by
  refine wp_cancelActivities hs fun db₁ ht₁ => ?_
  refine wp_cancelApprovals fun db₂ ht₂ => ?_
  have ht₁₂ := ht₁.trans ht₂
  have hrow : db₂.workflows.find workflow.id = some workflow :=
    (congrArg Aggregate.row ht₁₂.self).trans hr
  refine wp_updateWorkflow (fun _ => rfl) fun r db₃ hr₃ _ ht₃ => ?_
  obtain rfl : r = workflow := by simpa [hrow] using hr₃.symm
  rw [hfr] at ht₃
  have htouch := ht₁₂.trans ht₃
  have hev : Evolves (fun w l => l.sweeps [r.id] w) db db₃ :=
    .of_step htouch (.cancelled hr ht ho clear reason now) (List.mem_singleton.mpr rfl)
  have hrow₃ : db₃.workflows.find r.id = some (r.cancelledAt clear now) :=
    congrArg Aggregate.row htouch.self
  have hx₃ : db₃.Attached (insert r.id X) :=
    hx.close htouch fun c => not_awaitsChild hrow₃ (.inl rfl)
  refine wp_history (P := fun w l => w = r.id ∧ l = .history) (hev.sound hs) hrow₃ (fun _ => rfl)
    ⟨rfl, rfl⟩ nofun htype fun db₄ hev₄ hsame => ?_
  have hclosed : ¬(db₄.aggregate r.id).IsOpen := by
    rw [Aggregate.isOpen_iff ((hsame r.id).trans hrow₃)]
    simp [WorkflowRow.cancelledAt, WorkflowStatus.isTerminal]
  refine h db₄ ⟨hev.trans (hev₄.mono ?_), ?_, ?_⟩ (hev₄.attached (hev.sound hs) ?_ hx₃)
  · rintro _ _ ⟨rfl, rfl⟩
    exact List.mem_singleton.mpr rfl
  · exact List.forall_mem_singleton.mpr (.of_row hr ht)
  · exact List.forall_mem_singleton.mpr hclosed
  · rintro _ _ ⟨-, rfl⟩
    exact ⟨rfl, rfl⟩

/-- The outcome of an ended workflow reaches its parents. -/
theorem wp_wakeParents {child : WorkflowRow} {outcome : ChildOutcome} {Q : Unit → DB → Prop}
    (hs : db.Sound) (hx : db.Attached (insert child.id X))
    (hclosed : ¬(db.aggregate child.id).IsOpen)
    (h : ∀ db', Evolves (fun _ l => l = .answered (.child child.id)) db db' → db'.Attached X →
      db'.aggregate child.id = db.aggregate child.id → Q () db') :
    wp (wakeWaitingParentsOnChildTerminal child outcome now) Q Benign db := by
  refine wp_wakeWaitingParentsOnChildTerminal (P := fun _ l => l = .answered (.child child.id)) hs
    (fun _ => rfl) fun db' hev hfree hsame => ?_
  refine h db' hev ((hev.attached hs ?_ hx).discharge hfree) (hsame child.id fun hc => ?_)
  · rintro _ _ rfl
    exact ⟨rfl, rfl⟩
  · obtain ⟨r, hr, hstatus, -⟩ := hc
    exact hclosed ⟨r, hr, open_of_awaitsChild hstatus⟩

/-- The parents of a swept workflow are woken. -/
theorem Swept.wakeParents {db'' : DB} (h : Swept [w] db db')
    (hev : Evolves (fun _ l => l = .answered (.child w)) db' db'')
    (hself : db''.aggregate w = db'.aggregate w) : Swept [w] db db'' where
  evolves := by
    refine h.evolves.trans (hev.mono ?_)
    rintro _ _ rfl
    exact List.mem_singleton.mpr rfl
  opened := h.opened
  closed := List.forall_mem_singleton.mpr (hself ▸ h.closed w (List.mem_singleton.mpr rfl))

theorem wp_cancelOneWorkflow {Q : Unit → DB → Prop} (hs : db.Sound) (hx : db.Attached X)
    (hr : db.workflows.find workflow.id = some workflow) (ht : workflow.status.isTerminal = false)
    (h : ∀ db', Swept [workflow.id] db db' → db'.Attached X → Q () db') :
    wp (cancelOneWorkflow workflow reason operatorId now) Q Benign db := by
  simp only [cancelOneWorkflow, wp_bind]
  refine wp_endWorkflow true hs hr ht (by split <;> rfl) hx rfl rfl fun db₁ hswept hx₁ => ?_
  refine wp_wakeParents (hswept.sound hs) hx₁ (hswept.closed _ (List.mem_singleton.mpr rfl))
    fun db₂ hev₂ hx₂ hself => ?_
  exact h db₂ (hswept.wakeParents hev₂ hself) hx₂

-- ════════════════════════════════════════════════════════════════════════
-- The cascade
-- ════════════════════════════════════════════════════════════════════════

/-- The open workflows with an id below `n`. -/
noncomputable def DB.openBelow (db : DB) (n : ℕ) : Finset WorkflowId :=
  open Classical in (Finset.range n).filter fun w => (db.aggregate w).IsOpen

theorem DB.mem_openBelow {n : ℕ} : w ∈ db.openBelow n ↔ w < n ∧ (db.aggregate w).IsOpen := by
  simp [DB.openBelow]

/-- The state of a cascade over a database whose ids lie below `n`: the workflows
it pushed are swept, and there are no more of them than it closed. -/
structure Cascade (X : Set WorkflowId) (n : ℕ) (pushed : List WorkflowId) (db db' : DB) : Prop where
  swept : Swept pushed db db'
  attached : db'.Attached X
  measure : pushed.length + (db'.openBelow n).card ≤ (db.openBelow n).card

/-- The rows of a cascade keep their ids. -/
theorem Evolves.bounded_of_cancels {n : ℕ} (h : Evolves (fun _ l => l.cancels) db db')
    (hn : ∀ w, n ≤ w → db.workflows.find w = none) (w : WorkflowId) (hw : n ≤ w) :
    db'.workflows.find w = none :=
  (h.steps w).row_none (fun _ => ne_inserted_of_cancels) (hn w hw)

namespace Cascade

variable {n : ℕ} {pushed pushed' : List WorkflowId} {db'' : DB}

theorem refl (hx : db.Attached X) : Cascade X n [] db db :=
  ⟨.nil db, hx, by simp⟩

theorem trans (h : Cascade X n pushed db db') (h' : Cascade X n pushed' db' db'') :
    Cascade X n (pushed' ++ pushed) db db'' where
  swept := h.swept.trans h'.swept
  attached := h'.attached
  measure := by
    have := h.measure
    have := h'.measure
    rw [List.length_append]
    omega

theorem bounded (h : Cascade X n pushed db db') {m : ℕ}
    (hm : ∀ w, m ≤ w → db.workflows.find w = none) (w : WorkflowId) (hw : m ≤ w) :
    db'.workflows.find w = none :=
  h.swept.cancels.bounded_of_cancels hm w hw

/-- Cancelling an open workflow pays for pushing it. -/
theorem of_swept (h : Swept [w] db db') (hx : db'.Attached X)
    (hn : ∀ w, n ≤ w → db.workflows.find w = none) : Cascade X n [w] db db' where
  swept := h
  attached := hx
  measure := by
    have hopen := h.opened w (List.mem_singleton.mpr rfl)
    have hlt : w < n := by
      obtain ⟨r, hr, -⟩ := hopen
      by_contra hge
      rw [aggregate_row, hn w (Nat.le_of_not_lt hge)] at hr
      cases hr
    have hcard : (db'.openBelow n).card < (db.openBelow n).card := by
      refine Finset.card_lt_card ⟨fun w' hw' => ?_, fun hback => ?_⟩
      · obtain ⟨hlt', hopen'⟩ := DB.mem_openBelow.mp hw'
        exact DB.mem_openBelow.mpr ⟨hlt', h.open_of_open hopen'⟩
      · refine h.closed w (List.mem_singleton.mpr rfl) ?_
        exact (DB.mem_openBelow.mp (hback (DB.mem_openBelow.mpr ⟨hlt, hopen⟩))).2
    rw [List.length_singleton]
    omega

end Cascade

/-- All generations of a child are cancelled. -/
theorem wp_cancelGenerations {n m : ℕ} {Q : List (WorkflowId × String) → DB → Prop} {fuel : ℕ}
    {generation : WorkflowRow} {parents : List (WorkflowId × String)} (hs : db.Sound)
    (hx : db.Attached X) (hn : ∀ w, n ≤ w → db.workflows.find w = none)
    (hm : ∀ w, m ≤ w → db.workflows.find w = none) (hfuel : m < fuel + generation.id)
    (hr : db.workflows.find generation.id = some generation)
    (h : ∀ pushed db', Cascade X n (pushed.map Prod.fst) db db' →
      (∀ w ∈ pushed.map Prod.fst, db.Generation generation.id w) →
      (db.UniqueSources → ∀ w, db.Generation generation.id w → ¬(db'.aggregate w).IsOpen) →
      Q (pushed ++ parents) db') :
    wp (cancelGenerations reason operatorId now fuel generation parents) Q Benign db := by
  induction fuel generalizing db generation parents Q with
  | zero =>
    rw [Nat.zero_add] at hfuel
    rw [hm _ hfuel.le] at hr
    cases hr
  | succ fuel ih =>
    rw [cancelGenerations]
    -- the walk goes on from the database after this generation, which has ended
    have hnext : ∀ (pushed₁ : List (WorkflowId × String)) (db₁ : DB)
        {next : Option WorkflowRow → Tx (List (WorkflowId × String))},
        Cascade X n (pushed₁.map Prod.fst) db db₁ →
        (∀ w ∈ pushed₁.map Prod.fst, w = generation.id) →
        ¬(db₁.aggregate generation.id).IsOpen →
        next none = pure (pushed₁ ++ parents) →
        (∀ successor, next (some successor) =
          cancelGenerations reason operatorId now fuel successor (pushed₁ ++ parents)) →
        wp (lockSuccessor generation >>= next) Q Benign db₁ := by
      intro pushed₁ db₁ next hc hpushed hclosed hnone hsome
      have hlineage := hc.swept.lineage
      rw [wp_bind]
      refine wp_lockSuccessor (fun successor hsucc hsource => ?_) fun hlast => ?_
      · rw [hsome]
        have hs₁ := hc.swept.sound hs
        have hlt : generation.id < successor.id := hs₁.source_decreasing _ _ hsource
        refine ih hs₁ hc.attached (hc.bounded hn) (hc.bounded hm) ?_ hsucc
          fun pushed₂ db₂ hc₂ hgen hdone => ?_
        · have := Nat.succ_le_of_lt hlt
          omega
        rw [← List.append_assoc]
        rw [source_congr hlineage] at hsource
        refine h (pushed₂ ++ pushed₁) db₂ (by rw [List.map_append]; exact hc.trans hc₂) ?_ ?_
        · rw [List.map_append]
          refine List.forall_mem_append.mpr ⟨fun w hw => ?_, fun w hw => ?_⟩
          · exact ((generation_congr hlineage).mp (hgen w hw)).tail hsource
          · rw [hpushed w hw]
            exact .refl
        · intro hunique w hw
          rcases reaches_iff_tail.mp hw with rfl | ⟨k, hk, hsource'⟩
          · exact fun hopen => hclosed (hc₂.swept.open_of_open hopen)
          · obtain rfl := hunique k successor.id generation.id hsource' hsource
            exact hdone ((uniqueSources_congr hlineage).mpr hunique) w
              ((generation_congr hlineage).mpr hk)
      · rw [hnone]
        rw [source_congr hlineage] at hlast
        refine h pushed₁ db₁ hc (fun w hw => hpushed w hw ▸ .refl) fun _ w hw => ?_
        rcases reaches_iff_tail.mp hw with rfl | ⟨k, -, hsource⟩
        · exact hclosed
        · exact absurd hsource (hlast k)
    rw [wp_ite]
    refine ⟨fun ht => ?_, fun ht => ?_⟩
    · rw [wp_bind, wp_pure]
      refine hnext [] db (.refl hx) (fun _ h => by cases h) ?_ ?_ fun _ => ?_
      · rw [Aggregate.isOpen_iff hr, ht]
        exact Bool.noConfusion
      · rfl
      · rfl
    rw [wp_bind]
    refine wp_cancelOneWorkflow hs hx hr (by simpa using ht) fun db₁ hswept hx₁ => ?_
    rw [wp_bind, wp_pure]
    refine hnext [(generation.id, reason)] db₁ (.of_swept hswept hx₁ hn) (by simp) ?_ ?_ fun _ => ?_
    · exact hswept.closed _ (List.mem_singleton.mpr rfl)
    · rfl
    · rfl

theorem wp_cancelOwnedChild {n : ℕ} {Q : List (WorkflowId × String) → DB → Prop}
    {parents : List (WorkflowId × String)} {child : WorkflowId} (hs : db.Sound)
    (hx : db.Attached X) (hn : ∀ w, n ≤ w → db.workflows.find w = none)
    (h : ∀ pushed db', Cascade X n (pushed.map Prod.fst) db db' →
      (∀ w ∈ pushed.map Prod.fst, db.Generation child w) →
      (db.UniqueSources → ∀ w, db.Generation child w → ¬(db'.aggregate w).IsOpen) →
      Q (pushed ++ parents) db') :
    wp (cancelOwnedChild reason operatorId now parents child) Q Benign db := by
  simp only [cancelOwnedChild, wp_bind, wp_firstRow, wp_read]
  refine ⟨fun generation hr => ?_, fun _ => rfl⟩
  obtain rfl : generation.id = child := Table.key_of_find hr
  exact wp_cancelGenerations hs hx hn (fun w hw => db.workflows.fresh w hw) (by omega) hr h

/-- The workflows a cascade from `roots` swept: generations of children owned by a
root or by another of them, and every such generation has ended. -/
structure Cascaded (roots ids : List WorkflowId) (db db' : DB) : Prop where
  owned : ∀ w ∈ ids, ∃ p c, (p ∈ roots ∨ p ∈ ids) ∧ db.Owns p c ∧ db.Generation c w
  complete : db.UniqueSources → ∀ p, p ∈ roots ∨ p ∈ ids → ∀ c, db.Owns p c →
    ∀ w, db.Generation c w → ¬(db'.aggregate w).IsOpen

/-- A workflow is older than the children it owns. -/
theorem DB.Sound.lt_of_owns {p c : WorkflowId} (hs : db.Sound) (h : db.Owns p c) : p < c := by
  obtain ⟨ℓ, n, hℓ, hparent, -⟩ := h
  obtain ⟨r, hr, rfl⟩ := DB.exists_row hℓ
  have hid : r.id = c := Table.key_of_find hr
  exact hid ▸ (hs.inv hr).row.parent p hparent

/-- A cascade sweeps workflows that are younger than its root. -/
theorem Cascaded.root_lt {root : WorkflowId} {ids : List WorkflowId} (hs : db.Sound)
    (h : Cascaded [root] ids db db') (hw : w ∈ ids) : root < w := by
  induction w using Nat.strongRecOn with
  | ind w ih =>
    obtain ⟨p, c, hp, howns, hgen⟩ := h.owned w hw
    have hlt : p < w := (hs.lt_of_owns howns).trans_le (hgen.le hs.source_decreasing)
    rcases hp with hp | hp
    · exact List.mem_singleton.mp hp ▸ hlt
    · exact (ih p hlt hp).trans hlt

/-- The owned children of a workflow are those that the scan finds. -/
theorem mem_ownedChildren {p c : WorkflowId} :
    c ∈ ((db.workflows.select fun r => r.parentWorkflowId == some p &&
        r.parentCommandSequence.any fun n => r.deduplicationKey == some (ownedChildKey p n)).map
      (·.id)) ↔ db.Owns p c := by
  simp only [List.mem_map, Table.mem_select, Bool.and_eq_true, beq_iff_eq,
    Option.any_eq_true]
  constructor
  · rintro ⟨r, ⟨hr, hparent, n, hn, hkey⟩, rfl⟩
    exact ⟨r.lineage, n, lineage_of_find hr, hparent, hn, hkey⟩
  · rintro ⟨ℓ, n, hℓ, hparent, hn, hkey⟩
    obtain ⟨r, hr, rfl⟩ := DB.exists_row hℓ
    obtain rfl : r.id = c := Table.key_of_find hr
    exact ⟨r, ⟨hr, hparent, n, hn, hkey⟩, rfl⟩

/-- One round of the work list: the children of its top. -/
theorem wp_cancelOwnedChildren {n : ℕ} {Q : List (WorkflowId × String) → DB → Prop}
    {children : List WorkflowId} {stack : List (WorkflowId × String)} (hs : db.Sound)
    (hx : db.Attached X) (hn : ∀ w, n ≤ w → db.workflows.find w = none)
    (h : ∀ pushed db', Cascade X n (pushed.map Prod.fst) db db' →
      (∀ w ∈ pushed.map Prod.fst, ∃ c ∈ children, db.Generation c w) →
      (db.UniqueSources → ∀ c ∈ children, ∀ w, db.Generation c w → ¬(db'.aggregate w).IsOpen) →
      Q (pushed ++ stack) db') :
    wp (foldEach children stack (cancelOwnedChild reason operatorId now)) Q Benign db := by
  refine wp_imp (wp_foldEach (fun pre parents db' => ∃ pushed, parents = pushed ++ stack ∧
    Cascade X n (pushed.map Prod.fst) db db' ∧
    (∀ w ∈ pushed.map Prod.fst, ∃ c ∈ children, db.Generation c w) ∧
    (db.UniqueSources → ∀ c ∈ pre, ∀ w, db.Generation c w → ¬(db'.aggregate w).IsOpen)) ?_ ?_) ?_
  · rintro pre child post hsplit _ db₁ ⟨pushed, rfl, hc, hfrom, hdone⟩
    have hlineage := hc.swept.lineage
    refine wp_cancelOwnedChild (hc.swept.sound hs) hc.attached (hc.bounded hn)
      fun pushed₂ db₂ hc₂ hgen hdone₂ => ⟨pushed₂ ++ pushed, (List.append_assoc ..).symm, ?_, ?_, ?_⟩
    · rw [List.map_append]
      exact hc.trans hc₂
    · rw [List.map_append]
      refine List.forall_mem_append.mpr ⟨fun w hw => ⟨child, ?_, ?_⟩, hfrom⟩
      · rw [hsplit]
        simp
      · exact (generation_congr hlineage).mp (hgen w hw)
    · refine fun hunique => List.forall_mem_append.mpr ⟨fun c hc' w hw hopen => ?_, ?_⟩
      · exact hdone hunique c hc' w hw (hc₂.swept.open_of_open hopen)
      · refine List.forall_mem_singleton.mpr fun w hw => ?_
        exact hdone₂ ((uniqueSources_congr hlineage).mpr hunique) w
          ((generation_congr hlineage).mpr hw)
  · exact ⟨[], rfl, .refl hx, nofun, fun _ => nofun⟩
  · rintro _ db₁ ⟨pushed, rfl, hc, hfrom, hdone⟩
    exact h pushed db₁ hc hfrom hdone

theorem wp_cancelDescendantsOf {n : ℕ} {Q : Unit → DB → Prop} {fuel : ℕ}
    {stack : List (WorkflowId × String)} (hs : db.Sound) (hx : db.Attached X)
    (hn : ∀ w, n ≤ w → db.workflows.find w = none)
    (hfuel : stack.length + (db.openBelow n).card ≤ fuel)
    (h : ∀ ids db', Swept ids db db' → Cascaded (stack.map Prod.fst) ids db db' →
      db'.Attached X → Q () db') :
    wp (cancelDescendantsOf operatorId now fuel stack) Q Benign db := by
  induction fuel generalizing db stack Q with
  | zero =>
    cases stack with
    | nil => exact h [] db (.nil db) ⟨nofun, fun _ _ hp => by simp at hp⟩ hx
    | cons => simp at hfuel
  | succ fuel ih =>
    cases stack with
    | nil => exact h [] db (.nil db) ⟨nofun, fun _ _ hp => by simp at hp⟩ hx
    | cons top stack =>
      obtain ⟨parentId, parentReason⟩ := top
      simp only [cancelDescendantsOf, ownedChildren, wp_bind, wp_selectRows]
      rw [wp_pure]
      refine wp_cancelOwnedChildren hs hx hn fun pushed db₁ hc hfrom hdone => ?_
      have hlineage := hc.swept.lineage
      have hmeasure := hc.measure
      refine ih (hc.swept.sound hs) hc.attached (hc.bounded hn) ?_ fun ids db₂ hswept hcas hx₂ => ?_
      · rw [List.length_map] at hmeasure
        rw [List.length_cons] at hfuel
        rw [List.length_append]
        omega
      rw [List.map_append] at hcas
      refine h (ids ++ pushed.map Prod.fst) db₂ (hc.swept.trans hswept) ⟨?_, ?_⟩ hx₂
      · refine List.forall_mem_append.mpr ⟨fun w hw => ?_, fun w hw => ?_⟩
        · obtain ⟨p, c, hp, howns, hgen⟩ := hcas.owned w hw
          refine ⟨p, c, ?_, (owns_congr hlineage).mp howns, (generation_congr hlineage).mp hgen⟩
          simp only [List.mem_append, List.map_cons, List.mem_cons] at hp ⊢
          tauto
        · obtain ⟨c, hmem, hgen⟩ := hfrom w hw
          exact ⟨parentId, c, .inl (List.mem_cons_self ..), mem_ownedChildren.mp hmem, hgen⟩
      · intro hunique p hp c howns w hgen
        by_cases htop : p = parentId
        · subst htop
          refine fun hopen => hdone hunique c (mem_ownedChildren.mpr howns) w hgen ?_
          exact hswept.open_of_open hopen
        · refine hcas.complete ((uniqueSources_congr hlineage).mpr hunique) p ?_ c
            ((owns_congr hlineage).mpr howns) w ((generation_congr hlineage).mpr hgen)
          simp only [List.mem_append, List.map_cons, List.mem_cons, htop, false_or] at hp ⊢
          tauto

/-- The cascade over the owned children of a workflow ends; no generation of a
child it owns is left open, and every wait is left attached. -/
theorem wp_cancelOwnedDescendants {parentId : WorkflowId} {Q : Unit → DB → Prop} (hs : db.Sound)
    (hx : db.Attached X)
    (h : ∀ ids db', Swept ids db db' → Cascaded [parentId] ids db db' → db'.Attached X →
      Q () db') :
    wp (cancelOwnedDescendants parentId reason operatorId now) Q Benign db := by
  simp only [cancelOwnedDescendants, wp_bind, wp_read]
  refine wp_cancelDescendantsOf hs hx (fun w hw => db.workflows.fresh w hw) ?_ h
  have hsub : db.openBelow db.workflows.next ⊆ Finset.range db.workflows.next := fun w hw =>
    Finset.mem_range.mpr (DB.mem_openBelow.mp hw).1
  have hcard := Finset.card_le_card hsub
  rw [Finset.card_range] at hcard
  rw [List.length_singleton]
  omega

/-- What holds of a cascade holds of the transaction it is part of. -/
theorem Cascaded.congr {roots ids : List WorkflowId} {db₁ : DB} (h : Cascaded roots ids db₁ db')
    (hlineage : db₁.lineage = db.lineage) : Cascaded roots ids db db' where
  owned w hw := by
    obtain ⟨p, c, hp, howns, hgen⟩ := h.owned w hw
    exact ⟨p, c, hp, (owns_congr hlineage).mp howns, (generation_congr hlineage).mp hgen⟩
  complete hunique p hp c howns w hgen :=
    h.complete ((uniqueSources_congr hlineage).mpr hunique) p hp c ((owns_congr hlineage).mpr howns)
      w ((generation_congr hlineage).mpr hgen)

/-- The target of a cancel ends, and so do its owned children. -/
structure Ended (w : WorkflowId) (ids : List WorkflowId) (db db' : DB) : Prop where
  swept : Swept (ids ++ [w]) db db'
  cascaded : Cascaded [w] ids db db'

theorem wp_cancelLockedWorkflow {Q : Unit → DB → Prop} (hs : db.Sound) (hx : db.Attached X)
    (hr : db.workflows.find workflow.id = some workflow) (ht : workflow.status.isTerminal = false)
    (h : ∀ ids db', Ended workflow.id ids db db' → db'.Attached X → Q () db') :
    wp (cancelLockedWorkflow workflow reason operatorId now) Q Benign db := by
  rw [cancelLockedWorkflow, wp_bind]
  refine wp_cancelOneWorkflow hs hx hr ht fun db₁ hswept hx₁ => ?_
  refine wp_cancelOwnedDescendants (hswept.sound hs) hx₁ fun ids db₂ hswept₂ hcas => ?_
  exact h ids db₂ ⟨hswept.trans hswept₂, hcas.congr hswept.lineage⟩

theorem wp_cancel (hs : db.Sound) (hx : db.Attached X) :
    wp (cancel w reason now) (fun _ db' => (∃ r, db.workflows.find w = some r ∧
      (r.status.isTerminal = true ∧ db' = db ∨
        r.status.isTerminal = false ∧ ∃ ids, Ended w ids db db')) ∧ db'.Attached X) Benign db := by
  simp only [cancel, wp_bind, wp_ensure, wp_findRow, wp_orAbort, wp_onlyIf, workflowTable_get]
  refine ⟨fun _ => ⟨fun row hr => ⟨fun ht => ?_, fun ht => ?_⟩, fun _ => rfl⟩, fun _ => rfl⟩
  · obtain rfl : row.id = w := Table.key_of_find hr
    replace ht : row.status.isTerminal = false := by simpa using ht
    exact wp_cancelLockedWorkflow hs hx hr ht fun ids _ hended hx' =>
      ⟨⟨row, hr, .inr ⟨ht, ids, hended⟩⟩, hx'⟩
  · exact ⟨⟨row, hr, .inl ⟨by simpa using ht, trivial⟩⟩, hx⟩

end DurableWorkflows
