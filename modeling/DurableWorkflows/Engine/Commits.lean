import DurableWorkflows.Engine.Claims

/-!
# Commits and activation failures

A commit is fenced by the lease token of its claim. Behind the fence the row is
the one the claim read, so the commit is one step of that workflow, followed by
its history and the wakes of waiting parents.

## Main definitions

- `Commits`: what a commit does to the database

## Main results

- `wp_commitOnConnection`, `wp_recordActivationFailure`
-/

namespace DurableWorkflows

open Transaction Pointers

variable {db db' db'' : DB} {w : WorkflowId} {r : WorkflowRow} {claim : ClaimedRow}
  {now : DbMillis} {X : Set WorkflowId} {stateJson : String}

/-- The steps that follow a commit: history, and the wakes of waiting parents. -/
def Label.trails : Label → Bool
  | .history | .answered (.child _) => true
  | _ => false

/-- The steps that accompany a commit: those that follow it, and the insert of a
child. -/
def Label.accompanies : Label → Bool
  | .inserted | .history | .answered (.child _) => true
  | _ => false

theorem Label.accompanies_of_trails {l : Label} (h : l.trails = true) : l.accompanies = true := by
  cases l with
  | history => rfl
  | answered wait => cases wait <;> first | rfl | cases h
  | _ => cases h

/-- None of them ends or attaches a workflow. -/
theorem Label.neutral_of_accompanies {l : Label} (h : l.accompanies = true) :
    l.ends = false ∧ l.attaches = false := by
  cases l with
  | inserted | history | answered => exact ⟨rfl, rfl⟩
  | _ => cases h

/-- The kind of wait a commit leaves. -/
def Label.waitKind : Label → Option WaitKind
  | .waited wait => some wait.kind
  | _ => none

/-- The kind of wait a transition asks for. -/
def StoredTransition.waitKind : StoredTransition → Option WaitKind
  | .runActivity .. => some .activity
  | .runChild .. => some .child
  | .sleepUntil .. => some .timer
  | .waitForApproval .. => some .approval
  | .continue _ | .complete _ => none

/-- The claim holds the lease of its row, which is the row it read. -/
structure ClaimedRow.Holds (claim : ClaimedRow) (db : DB) (r : WorkflowRow) : Prop where
  stored : db.workflows.find claim.row.id = some r
  running : r.status = .running
  token : r.leaseToken = some claim.leaseToken
  same : claim.Matches r

/-- The command a claim commits next. -/
def ClaimedRow.command (claim : ClaimedRow) : ℕ := I32.saturatingAdd claim.row.commandSequence 1

/-- The key under which a claim looks for a child. -/
def ClaimedRow.childKey (claim : ClaimedRow) (child : ChildWorkflowCommand) : String :=
  child.deduplicationKey.getD (ownedChildKey claim.row.id claim.command)

/-- The row of a child that a claim inserts. -/
def ClaimedRow.childRow (claim : ClaimedRow) (child : ChildWorkflowCommand) (now : DbMillis) :
    WorkflowRow :=
  newChildRow child (claim.childKey child) claim.row.id claim.command
    (claim.row.rootWorkflowId.getD claim.row.id) now

/-- What the commit of a transition writes: its step, the row it leaves, and the
lineage of the database afterwards. -/
inductive Writes (claim : ClaimedRow) (now : DbMillis) (db : DB) :
    StoredTransition → Label → WorkflowRow → (WorkflowId → Option Lineage) → Prop
  | continued {stateJson : String} {r : WorkflowRow} (hstate : r.stateJson = stateJson) :
      Writes claim now db (.continue stateJson) .continued r db.lineage
  | completed {outputJson : String} {r : WorkflowRow} :
      Writes claim now db (.complete outputJson) .completed r db.lineage
  | slept {stateJson : String} {wakeAt : DbMillis} {r : WorkflowRow} {n : ℕ}
      (hstate : r.stateJson = stateJson) (hwake : r.availableAt = wakeAt) :
      Writes claim now db (.sleepUntil stateJson wakeAt) (.waited (.timer n)) r db.lineage
  | waitedApproval {stateJson approvalJson : String} {expiresAt : Option DbMillis}
      {r : WorkflowRow} {p : ApprovalId} (hstate : r.stateJson = stateJson) :
      Writes claim now db (.waitForApproval stateJson approvalJson expiresAt)
        (.waited (.approval p)) r db.lineage
  | waitedActivity {stateJson : String} {activity : ActivityCommand} {r : WorkflowRow}
      {a : ActivityId} (hstate : r.stateJson = stateJson) :
      Writes claim now db (.runActivity stateJson activity) (.waited (.activity a)) r db.lineage
  | insertedChild {stateJson : String} {child : ChildWorkflowCommand} {r : WorkflowRow} {db₁ : DB}
      (hstate : r.stateJson = stateJson)
      (hstarted : Started (fun _ l => l.accompanies) db (claim.childRow child now) db₁) :
      Writes claim now db (.runChild stateJson child) (.waited (.child db.workflows.next)) r
        db₁.lineage
  | existingChild {stateJson : String} {child : ChildWorkflowCommand} {r keyed existing : WorkflowRow}
      (hstate : r.stateJson = stateJson)
      (hnewest : db.NewestKeyed child.kind (claim.childKey child) keyed existing)
      (hancestor : ¬Reaches db.ancestor claim.row.id existing.id) :
      Writes claim now db (.runChild stateJson child) (.waited (.child existing.id)) r db.lineage

theorem Writes.waitKind {transition : StoredTransition} {l : Label}
    {lineage : WorkflowId → Option Lineage} (h : Writes claim now db transition l r lineage) :
    l.waitKind = transition.waitKind := by
  cases h <;> rfl

/-- A commit of the claim: one committing step of its workflow, which writes what
`W` says. -/
structure Commits (claim : ClaimedRow)
    (W : Label → WorkflowRow → (WorkflowId → Option Lineage) → Prop) (db db' : DB) : Prop where
  held : ∃ r, claim.Holds db r
  commit : ∃ l g r, l.isCommit = true ∧ g.row = some r ∧ W l r db'.lineage ∧
    Step (db.aggregate claim.row.id) l g ∧
    Steps (fun l => l.accompanies) g (db'.aggregate claim.row.id)
  other : ∀ w, w ≠ claim.row.id →
    Steps (fun l => l.accompanies) (db.aggregate w) (db'.aggregate w)
  closed : db.Closed → db'.Closed

namespace Commits

variable {W : Label → WorkflowRow → (WorkflowId → Option Lineage) → Prop}

theorem evolves (h : Commits claim W db db') :
    Evolves (fun w l => l.accompanies = true ∨ w = claim.row.id ∧ l.isCommit = true) db db' where
  steps w := by
    by_cases hw : w = claim.row.id
    · subst hw
      obtain ⟨l, g, r, hl, -, -, hstep, hsteps⟩ := h.commit
      exact (Steps.single hstep (.inr ⟨rfl, hl⟩)).trans (hsteps.mono fun _ => .inl)
    · exact (h.other w hw).mono fun _ => .inl
  closed := h.closed

/-- The committing step. -/
theorem of_touches {edit : Aggregate → Aggregate} {l : Label} {r' : WorkflowRow}
    (hr : claim.Holds db r) (h : Touches db claim.row.id edit db')
    (hs : Step (db.aggregate claim.row.id) l (edit (db.aggregate claim.row.id)))
    (hl : l.isCommit = true) (hr' : (edit (db.aggregate claim.row.id)).row = some r')
    (hW : W l r' db.lineage) : Commits claim W db db' where
  held := ⟨r, hr⟩
  commit := by
    have hlineage : db'.lineage = db.lineage := by
      refine (Evolves.of_step (P := fun _ l' => l' = l) h hs rfl).lineage ?_
      rintro _ _ rfl rfl
      cases hl
    exact ⟨l, _, r', hl, hr', hlineage ▸ hW, hs, h.self ▸ .refl⟩
  other w hw := h.other w hw ▸ .refl
  closed := h.closed

/-- The steps after it. -/
theorem trans (h : Commits claim W db db')
    (h' : Evolves (fun _ l => l.trails) db' db'') : Commits claim W db db'' where
  held := h.held
  commit := by
    obtain ⟨l, g, r, hl, hr, hW, hstep, hsteps⟩ := h.commit
    have hlineage : db''.lineage = db'.lineage := by
      refine h'.lineage ?_
      rintro _ _ hl rfl
      cases hl
    exact ⟨l, g, r, hl, hr, hlineage ▸ hW, hstep,
      hsteps.trans ((h'.steps _).mono fun _ => Label.accompanies_of_trails)⟩
  other w hw := (h.other w hw).trans ((h'.steps w).mono fun _ => Label.accompanies_of_trails)
  closed hc := h'.closed (h.closed hc)

theorem mono {W' : Label → WorkflowRow → (WorkflowId → Option Lineage) → Prop}
    (h : Commits claim W db db') (hW : ∀ l r lineage, W l r lineage → W' l r lineage) :
    Commits claim W' db db' := by
  obtain ⟨l, g, r, hl, hr, hwrites, hstep, hsteps⟩ := h.commit
  exact ⟨h.held, ⟨l, g, r, hl, hr, hW _ _ _ hwrites, hstep, hsteps⟩, h.other, h.closed⟩

/-- The insert of a child before it. -/
theorem of_started {row : WorkflowRow} (h₀ : Started (fun _ l => l.accompanies) db row db')
    (hw : ∃ r, db.workflows.find claim.row.id = some r) (h : Commits claim W db' db'') :
    Commits claim W db db'' := by
  obtain ⟨r₀, hr₀⟩ := hw
  have hself : db'.aggregate claim.row.id = db.aggregate claim.row.id :=
    h₀.other _ (Table.lt_next_of_find hr₀).ne
  refine ⟨?_, hself ▸ h.commit, fun w hw => (h₀.evolves.steps w).trans (h.other w hw),
    fun hc => h.closed (h₀.evolves.closed hc)⟩
  obtain ⟨r, hr⟩ := h.held
  exact ⟨r, (congrArg Aggregate.row hself).symm.trans hr.stored, hr.running, hr.token, hr.same⟩

end Commits

/-- A row that passes the fence of a claim is held by it. -/
theorem ClaimInv.holds (h : ClaimInv db claim) (hr : db.workflows.find claim.row.id = some r)
    (hf : claim.fences r = true) : claim.Holds db r := by
  simp only [ClaimedRow.fences, Bool.and_eq_true, beq_iff_eq] at hf
  exact ⟨hr, hf.1, hf.2, h.same r hr hf.2⟩

namespace ClaimedRow.Holds

theorem delivered (h : claim.Holds db r) :
    claim.row.deliveredEventSequence = r.deliveredEventSequence := by
  obtain ⟨_, _, hrow⟩ := h.same
  rw [hrow]

theorem kind (h : claim.Holds db r) : claim.row.kind = r.kind := by
  obtain ⟨_, _, hrow⟩ := h.same
  rw [hrow]

theorem version (h : claim.Holds db r) : claim.row.version = r.version := by
  obtain ⟨_, _, hrow⟩ := h.same
  rw [hrow]

/-- The number of events of a row that is running. -/
theorem room (h : claim.Holds db r) (hs : db.Sound) :
    (deliveries (db.aggregate claim.row.id).events).length = r.deliveredEventSequence + 1 ∧
      r.deliveredEventSequence + 1 ≤ (db.aggregate claim.row.id).events.length ∧
      (db.aggregate claim.row.id).events.length ≤ I32.max := by
  have hinv := hs.inv h.stored
  have hlen : (deliveries (db.aggregate claim.row.id).events).length =
      r.deliveredEventSequence + 1 :=
    (hinv.delivery.pending (by simp [WorkflowRow.control, h.running, WorkflowStatus.isTerminal])).mpr
      (hinv.not_waiting (.inr h.running))
  exact ⟨hlen, hlen ▸ length_deliveries_le _, hinv.delivery.log.bounded⟩

/-- The command of a commit is the next one. -/
theorem command (h : claim.Holds db r) (hs : db.Sound) :
    I32.saturatingAdd claim.row.commandSequence 1 = r.commandSequence + 1 := by
  have hle := (hs.inv h.stored).row.command_le
  obtain ⟨-, h1, h2⟩ := h.room hs
  have hcommand : claim.row.commandSequence = r.commandSequence := by
    obtain ⟨_, _, hrow⟩ := h.same
    rw [hrow]
  rw [hcommand]
  exact I32.saturatingAdd_of_le (by omega)

end ClaimedRow.Holds

/-- The fenced update of a commit. -/
theorem wp_commitUpdate {f : WorkflowRow → WorkflowRow} {hf} {Q : Unit → DB → Prop}
    (hclaim : ClaimInv db claim)
    (h : ∀ r db', claim.Holds db r → Touches db claim.row.id (fun g => g.setRow (f r)) db' →
      Q () db') :
    wp (fencedUpdate workflowTable claim.row.id claim.fences f hf) Q Benign db :=
  wp_updateWorkflow (fun _ => rfl) fun r db' hr hfence ht => h r db' (hclaim.holds hr hfence) ht

/-- `lock_fence` passes only while the claim holds its row. -/
theorem wp_lockFence {Q : Unit → DB → Prop} (hclaim : ClaimInv db claim)
    (h : ∀ r, claim.Holds db r → Q () db) : wp (lockFence claim) Q Benign db := by
  simp only [lockFence, wp_bind, wp_findRow, wp_ensure, workflowTable_get]
  refine ⟨fun hany => ?_, fun _ => rfl⟩
  cases hr : db.workflows.find claim.row.id with
  | none => simp [hr] at hany
  | some r => exact h r (hclaim.holds hr (by simpa [hr] using hany))

section Commit

variable {W : Label → WorkflowRow → (WorkflowId → Option Lineage) → Prop}

/-- The history event after a commit. -/
theorem wp_commitHistory {eventType : EventType} {Q : Unit → DB → Prop}
    (hs : db.Sound) (hc : Commits claim W db db') (hx : db'.Attached X)
    (htype : eventType.isHistory = true)
    (h : ∀ db'', Commits claim W db db'' → db''.Attached X →
      (∀ w, db''.workflows.find w = db'.workflows.find w) → Q () db'') :
    wp (appendHistory claim.row.id eventType now) Q Benign db' := by
  have hs' := hc.evolves.sound hs
  obtain ⟨r, hr⟩ := hc.held
  obtain ⟨r', hr'⟩ := (hc.evolves.steps claim.row.id).exists_row ⟨r, hr.stored⟩
  refine wp_history (P := fun _ l => l = .history) hs' hr' (fun _ => rfl) rfl nofun htype
    fun db'' hev hsame => h db'' (hc.trans (hev.mono ?_)) (hev.attached hs' ?_ hx) hsame
  · rintro _ _ rfl
    rfl
  · rintro _ _ rfl
    exact ⟨rfl, rfl⟩

-- ════════════════════════════════════════════════════════════════════════
-- Commits without a child
-- ════════════════════════════════════════════════════════════════════════

/-- A committing step that neither ends the workflow nor attaches it. -/
theorem Commits.of_step {edit : Aggregate → Aggregate} {l : Label} {r' : WorkflowRow}
    (hs : db.Sound) (hx : db.Attached X) (hr : claim.Holds db r)
    (h : Touches db claim.row.id edit db')
    (hstep : Step (db.aggregate claim.row.id) l (edit (db.aggregate claim.row.id)))
    (hl : l.isCommit = true ∧ l.ends = false ∧ l.attaches = false)
    (hr' : (edit (db.aggregate claim.row.id)).row = some r') (hW : W l r' db.lineage) :
    Commits claim W db db' ∧ db'.Attached X := by
  refine ⟨.of_touches hr h hstep hl.1 hr' hW, ?_⟩
  refine (Evolves.of_step (P := fun _ l' => l' = l) h hstep rfl).attached hs ?_ hx
  rintro _ _ rfl
  exact hl.2

end Commit

theorem wp_commitContinue {config : CoordinatorConfig} (hs : db.Sound) (hx : db.Attached X)
    (hclaim : ClaimInv db claim) :
    wp (commitContinue config claim (claim.row.deliveredEventSequence + 1) stateJson now)
      (fun _ db' => Commits claim (Writes claim now db (.continue stateJson)) db db' ∧
        db'.Attached X) Benign db := by
  simp only [commitContinue, wp_bind, wp_ofExcept]
  refine ⟨fun delay _ => wp_commitUpdate hclaim fun r db₁ hr ht => ?_,
    BenignErrors.ite (fun _ => benignErrors_durationMillis _) fun _ => .ok _⟩
  rw [hr.delivered] at ht ⊢
  obtain ⟨hlen, hle, -⟩ := hr.room hs
  have hevents : (db₁.aggregate claim.row.id).events = (db.aggregate claim.row.id).events := by
    rw [ht.self]
    rfl
  have hnext : (db.aggregate claim.row.id).events.length + 1 ≤ I32.max →
      I32.saturatingAdd (r.deliveredEventSequence + 1) 1 = r.deliveredEventSequence + 2 :=
    fun hroom => I32.saturatingAdd_of_le (by omega)
  refine wp_appendDelivery (hevents ▸ hs.log claim.row.id) ?_ (.inl ⟨rfl, rfl⟩) (fun h => by cases h) (fun _ => rfl)
    fun e db₂ he hmeta ht₂ => ?_
  · rw [hevents]
    intro hroom
    rw [hnext hroom, hlen]
  · rw [hevents] at he
    rw [hnext he.bounded] at he
    refine Commits.of_step hs hx hr (ht.trans ht₂)
      (.continued hr.stored hr.running he ?_ _ _ _ _ _) ⟨rfl, rfl, rfl⟩ rfl (.continued rfl)
    simp [WorkflowEventRow.answers, hmeta]

theorem wp_commitComplete {outputJson : String} (hs : db.Sound) (hx : db.Attached X)
    (hclaim : ClaimInv db claim) :
    wp (commitComplete claim (claim.row.deliveredEventSequence + 1) outputJson now)
      (fun _ db' => Commits claim (Writes claim now db (.complete outputJson)) db db' ∧
        db'.Attached X) Benign db := by
  simp only [commitComplete, wp_bind]
  refine wp_commitUpdate hclaim fun r db₁ hr ht => ?_
  rw [hr.delivered] at ht
  have hc : Commits claim (Writes claim now db (.complete outputJson)) db db₁ :=
    .of_touches hr ht (.completed hr.stored hr.running outputJson now) rfl rfl .completed
  have hrow := congrArg Aggregate.row ht.self
  have hx₁ : db₁.Attached (insert claim.row.id X) :=
    hx.close ht fun c => not_awaitsChild hrow (.inl rfl)
  refine wp_commitHistory hs hc hx₁ rfl fun db₂ hc₂ hx₂ hsame => ?_
  refine wp_wakeParents (hc₂.evolves.sound hs) hx₂ ?_ fun db₃ hev hx₃ _ => ⟨hc₂.trans (hev.mono ?_), hx₃⟩
  · rw [Aggregate.isOpen_iff ((hsame _).trans hrow)]
    simp [WorkflowStatus.isTerminal]
  · rintro _ _ rfl
    rfl

theorem wp_commitSleep {wakeAtMillis : DbMillis} (hs : db.Sound) (hx : db.Attached X)
    (hclaim : ClaimInv db claim) :
    wp (commitSleep claim (claim.row.deliveredEventSequence + 1)
        (I32.saturatingAdd claim.row.commandSequence 1) stateJson wakeAtMillis now)
      (fun _ db' => Commits claim (Writes claim now db (.sleepUntil stateJson wakeAtMillis)) db db' ∧
        db'.Attached X) Benign db := by
  simp only [commitSleep, wp_bind]
  refine wp_commitUpdate hclaim fun r db₁ hr ht => ?_
  rw [hr.delivered, hr.command hs] at ht
  obtain ⟨hc, hx₁⟩ := Commits.of_step (W := Writes claim now db (.sleepUntil stateJson wakeAtMillis))
    hs hx hr ht
    (.slept hr.stored hr.running stateJson (I32.saturatingAdd claim.row.stateVersion 1) wakeAtMillis
      now) ⟨rfl, rfl, rfl⟩ rfl (.slept rfl rfl)
  exact wp_commitHistory hs hc hx₁ rfl fun db₂ hc₂ hx₂ _ => ⟨hc₂, hx₂⟩

/-- The insert of an approval under a command that has none. -/
theorem wp_insertApproval {row : ApprovalRow} {Q : ApprovalId → DB → Prop}
    (hnew : ∀ p approval, (db.aggregate row.workflowId).approvals p = some approval →
      approval.commandSequence ≠ row.commandSequence)
    (h : ∀ p db', (db.aggregate row.workflowId).approvals p = none →
      Touches db row.workflowId (fun g => g.setApproval p { row with id := p }) db' → Q p db') :
    wp (insertApproval row) Q Benign db := by
  simp only [insertApproval, wp_bind, wp_ensure, wp_selectRows, wp_insertRow, approvalTable_get]
  refine ⟨fun _ => ⟨fun _ => h _ _ ?_ (touches_insertRow_approval fun id => { row with id }), fun hdup => ?_⟩, fun _ => rfl⟩
  · simp [DB.aggregate, Table.find_next]
  · obtain ⟨r, hr⟩ := List.exists_mem_of_ne_nil _ fun hnil => hdup (List.isEmpty_iff.mpr hnil)
    obtain ⟨hfind, hr⟩ := Table.mem_select.mp hr
    simp only [Bool.and_eq_true, beq_iff_eq] at hr
    exact absurd hr.2 (hnew _ r (aggregate_approval.mpr ⟨hfind, hr.1⟩))

/-- The insert of an activity under a command and replacement number that have
none. -/
theorem wp_insertActivity {row : ActivityRow} {Q : ActivityId → DB → Prop} (hs : db.Sound)
    (hw : row.workflowId = w)
    (hnew : ∀ a act, (db.aggregate w).activities a = some act →
      ¬(act.commandSequence = row.commandSequence ∧
        act.replacementNumber = row.replacementNumber))
    (h : ∀ a db', 0 < row.maxAttempts → (db.aggregate w).activities a = none →
      Touches db w (fun g => g.setActivity a { row with id := a }) db' → Q a db') :
    wp (insertActivity row) Q Benign db := by
  subst hw
  simp only [insertActivity, wp_bind, wp_ensure, wp_selectRows, wp_insertRow, activityTable_get]
  refine ⟨fun _ => ⟨fun hmax => ⟨fun _ => h _ _ hmax ?_
    (touches_insertRow_activity (fun id => { row with id }) hs.closed), fun hdup => ?_⟩,
    fun _ => rfl⟩, fun _ => rfl⟩
  · simp [DB.aggregate, Table.find_next]
  · obtain ⟨r, hr⟩ := List.exists_mem_of_ne_nil _ fun hnil => hdup (List.isEmpty_iff.mpr hnil)
    obtain ⟨hfind, hr⟩ := Table.mem_select.mp hr
    simp only [Bool.and_eq_true, beq_iff_eq] at hr
    exact absurd ⟨hr.1.2, hr.2⟩ (hnew _ r (aggregate_activity.mpr ⟨hfind, hr.1.1⟩))

theorem wp_commitApproval {approvalJson : String} {expiresAt : Option DbMillis} (hs : db.Sound)
    (hx : db.Attached X) (hclaim : ClaimInv db claim) :
    wp (commitApproval claim (claim.row.deliveredEventSequence + 1)
        (I32.saturatingAdd claim.row.commandSequence 1) stateJson approvalJson expiresAt now)
      (fun _ db' => Commits claim
        (Writes claim now db (.waitForApproval stateJson approvalJson expiresAt)) db db' ∧
        db'.Attached X) Benign db := by
  simp only [commitApproval, wp_bind]
  refine wp_lockFence hclaim fun r hr => ?_
  rw [hr.command hs]
  refine wp_insertApproval (fun p approval hp hcommand => ?_) fun p db₁ hnone ht => ?_
  · have hle := ((hs.inv hr.stored).approvals p approval hp).command_le
    simp only [WorkflowRow.control] at hle hcommand
    omega
  have hrow : db₁.workflows.find claim.row.id = some r :=
    (congrArg Aggregate.row ht.self).trans hr.stored
  refine wp_updateWorkflow (fun _ => rfl) fun r' db₂ hr' _ ht₂ => ?_
  obtain rfl : r' = r := by simpa [hrow] using hr'.symm
  rw [hr.delivered] at ht₂
  obtain ⟨hc, hx₁⟩ := Commits.of_step (W := Writes claim now db (.waitForApproval stateJson approvalJson expiresAt))
    hs hx hr (ht.trans ht₂)
    (.waitedApproval hr.stored hr.running hnone rfl hr.kind hr.version rfl stateJson
      (I32.saturatingAdd claim.row.stateVersion 1) now) ⟨rfl, rfl, rfl⟩ rfl (.waitedApproval rfl)
  exact wp_commitHistory hs hc hx₁ rfl fun db₃ hc₃ hx₃ _ => ⟨hc₃, hx₃⟩

/-- A row for a new activity, whose id is still open. -/
structure ActivityRow.New (row : ActivityRow) (workflowId : WorkflowId) (command replacement : ℕ)
    (activity : ActivityCommand) (root replaces : Option ActivityId) : Prop where
  workflowId : row.workflowId = workflowId
  command : row.commandSequence = command
  replacement : row.replacementNumber = replacement
  kind : row.kind = activity.kind
  version : row.version = activity.version
  root : row.rootActivityId = root
  replaces : row.replacesActivityId = replaces
  fresh : ∀ id, 0 < row.maxAttempts → { row with id }.Fresh

theorem newActivityRow_ok {workflowId : WorkflowId} {command replacement : ℕ}
    {activity : ActivityCommand} {key : Option String} {availableAt : DbMillis}
    {root replaces : Option ActivityId} {row : ActivityRow}
    (h : newActivityRow workflowId command replacement activity key availableAt root replaces now =
      .ok row) :
    row.New workflowId command replacement activity root replaces := by
  unfold newActivityRow at h
  cases hmax : attemptLimit activity.maxAttempts with
  | error e => simp [hmax, bind, Except.bind] at h
  | ok maxAttempts =>
    cases htimeout : durationMillis activity.timeoutMillis with
    | error e => simp [hmax, htimeout, bind, Except.bind] at h
    | ok timeout =>
      cases hlease : durationMillis activity.leaseDurationMillis with
      | error e => simp [hmax, htimeout, hlease, bind, Except.bind] at h
      | ok lease =>
        simp only [hmax, htimeout, hlease, bind, Except.bind, pure, Except.pure,
          Except.ok.injEq] at h
        subst h
        have hlimit : maxAttempts ≤ I32.max := by
          unfold attemptLimit at hmax
          split at hmax
          · cases hmax
            assumption
          · cases hmax
        exact ⟨rfl, rfl, rfl, rfl, rfl, rfl, rfl,
          fun _ hpos => ⟨rfl, rfl, hpos, hlimit, rfl, rfl, rfl⟩⟩

theorem benignErrors_attemptLimit {maxAttempts : ℕ} : BenignErrors (attemptLimit maxAttempts) :=
  .ite (fun _ => .ok _) fun _ => .error rfl

theorem benignErrors_newActivityRow {workflowId : WorkflowId} {command replacement : ℕ}
    {activity : ActivityCommand} {key : Option String} {availableAt : DbMillis}
    {root replaces : Option ActivityId} :
    BenignErrors (newActivityRow workflowId command replacement activity key availableAt root
      replaces now) :=
  .bind benignErrors_attemptLimit fun _ _ => .bind (benignErrors_durationMillis _) fun _ _ =>
    .bind (benignErrors_durationMillis _) fun _ _ => .ok _

theorem wp_commitActivity {activity : ActivityCommand} (hs : db.Sound) (hx : db.Attached X)
    (hclaim : ClaimInv db claim) :
    wp (commitActivity claim (claim.row.deliveredEventSequence + 1)
        (I32.saturatingAdd claim.row.commandSequence 1) stateJson activity now)
      (fun _ db' => Commits claim (Writes claim now db (.runActivity stateJson activity)) db db' ∧
        db'.Attached X) Benign db := by
  simp only [commitActivity, wp_bind, wp_ofExcept]
  refine wp_lockFence hclaim fun r hr => ⟨fun row hrow => ?_, benignErrors_newActivityRow⟩
  have hnew := newActivityRow_ok hrow
  rw [hr.command hs] at hnew
  refine wp_insertActivity hs hnew.workflowId (fun a act ha hsame => ?_) fun a db₁ hmax hnone ht => ?_
  · have hle := ((hs.inv hr.stored).coupled a act ha).command_le
    have hcommand := hnew.command
    simp only [WorkflowRow.control] at hle
    omega
  have hfind : db₁.workflows.find claim.row.id = some r :=
    (congrArg Aggregate.row ht.self).trans hr.stored
  refine wp_updateWorkflow (fun _ => rfl) fun r' db₂ hr' _ ht₂ => ?_
  obtain rfl : r' = r := by simpa [hfind] using hr'.symm
  rw [hr.delivered, hr.command hs] at ht₂
  obtain ⟨hc, hx₁⟩ := Commits.of_step (W := Writes claim now db (.runActivity stateJson activity))
    hs hx hr (ht.trans ht₂)
    (.waitedActivity hr.stored hr.running hnone (hnew.fresh a hmax) hnew.command stateJson
      (I32.saturatingAdd claim.row.stateVersion 1) now ⟨hnew.replacement, hnew.root, hnew.replaces⟩)
    ⟨rfl, rfl, rfl⟩ rfl (.waitedActivity rfl)
  exact wp_commitHistory hs hc hx₁ rfl fun db₃ hc₃ hx₃ _ => ⟨hc₃, hx₃⟩

-- ════════════════════════════════════════════════════════════════════════
-- Commits with a child
-- ════════════════════════════════════════════════════════════════════════

/-- The walk to the ancestors ends, since ids decrease along it, and finds the
target if it is one of them. -/
theorem wp_ancestorFrom {E : DurableError → Prop} {target : WorkflowId} {Q : Bool → DB → Prop}
    (hs : db.Sound) (hclaim : ClaimInv db claim)
    (hE : ∀ w p, db.ancestor w = some p → db.workflows.find p = none → E (.database .notFound))
    {fuel : ℕ} {id : Option WorkflowId} (hfuel : ∀ i, id = some i → i < fuel)
    (hid : ∀ i, id = some i → i = claim.row.id ∨ ∃ w, db.ancestor w = some i)
    (h : ∀ b, (b = true ↔ ∃ i, id = some i ∧ Reaches db.ancestor i target) → Q b db) :
    wp (ancestorFrom claim target fuel id) Q E db := by
  induction fuel generalizing id with
  | zero =>
    cases id with
    | none => exact h false (by simp)
    | some i => exact absurd (hfuel i rfl) (Nat.not_lt_zero i)
  | succ fuel ih =>
    cases id with
    | none => exact h false (by simp)
    | some i =>
      have hi := Nat.le_of_lt_succ (hfuel i rfl)
      rw [ancestorFrom, wp_ite]
      refine ⟨fun htarget => h true ?_, fun htarget => ?_⟩
      · exact ⟨fun _ => ⟨i, rfl, htarget ▸ .refl⟩, fun _ => rfl⟩
      have hnext : ∀ row : WorkflowRow,
          db.ancestor i = row.parentWorkflowId.or row.restartedFromWorkflowId →
          wp (ancestorFrom claim target fuel
            (row.parentWorkflowId.or row.restartedFromWorkflowId)) Q E db := by
        intro row hrow
        rw [← hrow]
        refine ih (fun j hj => (hs.ancestor_decreasing i j hj).trans_le hi)
          (fun j hj => .inr ⟨i, hj⟩) fun b hb => h b (hb.trans ?_)
        constructor
        · rintro ⟨j, hj, hreach⟩
          exact ⟨i, rfl, .head hj hreach⟩
        · rintro ⟨_, ⟨⟩, hreach⟩
          exact (reaches_iff_head.mp hreach).resolve_left htarget
      rw [wp_ite]
      refine ⟨fun hself => ?_, fun hself => ?_⟩
      · rw [wp_bind, wp_pure]
        refine hnext claim.row ?_
        rw [hself, DB.ancestor, hclaim.lineage]
        rfl
      · rw [wp_bind, wp_firstRow]
        refine ⟨fun row hrow => hnext row (ancestor_of_find hrow), fun hnone => ?_⟩
        obtain ⟨w, hw⟩ := (hid i rfl).resolve_left hself
        exact hE w i hw hnone

/-- `is_caller_or_ancestor` answers whether the target is on the walk from the
caller to its ancestors. -/
theorem wp_isCallerOrAncestor {E : DurableError → Prop} {target : WorkflowId}
    {Q : Bool → DB → Prop} (hs : db.Sound) (hclaim : ClaimInv db claim)
    (hE : ∀ w p, db.ancestor w = some p → db.workflows.find p = none → E (.database .notFound))
    (h : ∀ b, (b = true ↔ Reaches db.ancestor claim.row.id target) → Q b db) :
    wp (isCallerOrAncestor claim target) Q E db := by
  obtain ⟨r, hr⟩ := hclaim.stored
  simp only [isCallerOrAncestor, wp_bind, wp_read]
  refine wp_ancestorFrom hs hclaim hE ?_ ?_ fun b hb => h b (by simpa using hb)
  · rintro _ ⟨⟩
    exact (Table.lt_next_of_find hr).trans (Nat.lt_succ_self _)
  · rintro _ ⟨⟩
    exact .inl rfl

/-- A claim is untouched by changes of other workflows. -/
theorem ClaimInv.of_aggregate_eq (h : ClaimInv db claim)
    (heq : db'.aggregate claim.row.id = db.aggregate claim.row.id) : ClaimInv db' claim where
  lineage := (congrArg (fun g : Aggregate => g.row.map WorkflowRow.lineage) heq).trans h.lineage
  same r hr := h.same r ((congrArg Aggregate.row heq).symm.trans hr)
  event := heq ▸ h.event

/-- A workflow that starts to wait for a child. -/
theorem DB.Attached.attach {c : WorkflowId} {edit : Aggregate → Aggregate} (hx : db.Attached X)
    (h : Touches db w edit db') (hopen : (db'.aggregate w).IsOpen)
    (hw : ∀ c', (db'.aggregate w).AwaitsChild c' → c' = c) : db'.Attached (insert c X) := by
  intro w' c' hc
  by_cases hww : w' = w
  · subst hww
    exact .inl (hw c' hc ▸ Set.mem_insert c X)
  · rw [h.other w' hww] at hc
    by_cases hcw : c' = w
    · exact .inr (hcw ▸ hopen)
    · rw [h.other c' hcw]
      exact (hx w' c' hc).imp_left (Set.mem_insert_of_mem c)

/-- A child that is open need not be excepted. -/
theorem DB.Attached.of_open {c : WorkflowId} (hx : db.Attached (insert c X))
    (hc : (db.aggregate c).IsOpen) : db.Attached X := by
  intro w c' hw
  rcases hx w c' hw with (rfl | h) | h
  · exact .inr hc
  · exact .inl h
  · exact .inr h

/-- Whether a child delivers its outcome at once is whether it is terminal. -/
theorem terminalOutcome_isSome {existing : WorkflowRow} :
    (terminalOutcome existing).isSome = existing.status.isTerminal := by
  unfold terminalOutcome
  cases existing.status <;> rfl

/-- What `commit_child` does once the child is there: the wait, its history and
the outcome of a child that is terminal already. -/
theorem wp_attachChild {outcome : ChildStart} {Q : Unit → DB → Prop}
    {W : Label → WorkflowRow → (WorkflowId → Option Lineage) → Prop} (hs : db.Sound)
    (hx : db.Attached X) (hclaim : ClaimInv db claim)
    (hW : ∀ r, r.stateJson = stateJson → W (.waited (.child outcome.workflowId)) r db.lineage)
    (hinserted : outcome.isInserted = true → (db.aggregate outcome.workflowId).IsOpen)
    (hexisting : ∀ existing, outcome = .existing existing →
      db.workflows.find existing.id = some existing)
    (h : ∀ db', Commits claim W db db' → db'.Attached X → Q () db') :
    wp (fencedUpdate workflowTable claim.row.id claim.fences
        (waitCommitted claim stateJson .waitingChild (.child outcome.workflowId)
          (I32.saturatingAdd claim.row.commandSequence 1)
          (claim.row.deliveredEventSequence + 1) now)) (fun _ db₁ =>
      wp (appendHistory claim.row.id .childWorkflowScheduled now) (fun _ db₂ =>
        wp (deliverExistingOutcome outcome now) Q Benign db₂) Benign db₁) Benign db := by
  refine wp_commitUpdate hclaim fun r db₁ hr ht => ?_
  rw [hr.delivered, hr.command hs] at ht
  have hc₁ : Commits claim W db db₁ :=
    .of_touches hr ht (.waitedChild hr.stored hr.running outcome.workflowId stateJson
      (I32.saturatingAdd claim.row.stateVersion 1) now) rfl rfl (hW _ rfl)
  have hrow := congrArg Aggregate.row ht.self
  have hself : (db₁.aggregate claim.row.id).IsOpen := .of_row hrow rfl
  have hx₁ : db₁.Attached (insert outcome.workflowId X) := by
    refine hx.attach ht hself fun c' hc' => ?_
    obtain ⟨-, hw⟩ := (Aggregate.awaitsChild_iff hrow).mp hc'
    exact (Wait.child.inj (Option.some_inj.mp hw)).symm
  -- a child that is open before the wait is written is open after it
  have hopen : ∀ db₂ : DB, (∀ w, db₂.workflows.find w = db₁.workflows.find w) →
      (db.aggregate outcome.workflowId).IsOpen → (db₂.aggregate outcome.workflowId).IsOpen := by
    intro db₂ hsame hopen
    have heq : (db₂.aggregate outcome.workflowId).row = (db₁.aggregate outcome.workflowId).row :=
      hsame _
    unfold Aggregate.IsOpen
    rw [heq]
    by_cases hcw : outcome.workflowId = claim.row.id
    · rw [hcw]
      exact hself
    · rw [ht.other _ hcw]
      exact hopen
  refine wp_commitHistory hs hc₁ hx₁ rfl fun db₂ hc₂ hx₂ hsame => ?_
  cases outcome with
  | inserted id => exact h db₂ hc₂ (hx₂.of_open (hopen db₂ hsame (hinserted rfl)))
  | existing existing =>
    have hfind := hexisting existing rfl
    simp only [deliverExistingOutcome]
    cases hterm : terminalOutcome existing with
    | none =>
      have hterminal : existing.status.isTerminal = false := by
        rw [← terminalOutcome_isSome, hterm]
        rfl
      exact h db₂ hc₂ (hx₂.of_open (hopen db₂ hsame (.of_row hfind hterminal)))
    | some terminal =>
      refine wp_wakeWaitingParentsOnChildTerminal (P := fun _ l => l = .answered (.child existing.id))
        (hc₂.evolves.sound hs) (fun _ => rfl) fun db₃ hev hfree _ => ?_
      refine h db₃ (hc₂.trans (hev.mono ?_)) (DB.Attached.discharge
        (hev.attached (hc₂.evolves.sound hs) ?_ hx₂) hfree)
      · rintro _ _ rfl
        rfl
      · rintro _ _ rfl
        exact ⟨rfl, rfl⟩

/-- A child is inserted before the commit, or the commit attaches to a workflow that
exists. -/
theorem wp_commitChild_of {child : ChildWorkflowCommand} {Q : Unit → DB → Prop} (hs : db.Sound)
    (hx : db.Attached X) (hclaim : ClaimInv db claim)
    (hinserted : ∀ db₁ db', Started (fun _ l => l.accompanies) db (claim.childRow child now) db₁ →
      Commits claim (Writes claim now db (.runChild stateJson child)) db₁ db' →
      db'.lineage = db₁.lineage → db'.Attached X → Q () db')
    (hexisting : ∀ db', Commits claim (Writes claim now db (.runChild stateJson child)) db db' →
      db'.lineage = db.lineage → db'.Attached X → Q () db') :
    wp (commitChild claim (claim.row.deliveredEventSequence + 1)
      (I32.saturatingAdd claim.row.commandSequence 1) stateJson child now) Q Benign db := by
  have hlineage : ∀ {db₁ db' : DB} {W : Label → WorkflowRow → (WorkflowId → Option Lineage) → Prop},
      Commits claim (fun l r lineage => W l r lineage ∧ lineage = db₁.lineage) db₁ db' →
      db'.lineage = db₁.lineage := by
    intro db₁ db' W hc
    obtain ⟨_, _, _, -, -, ⟨-, hlineage⟩, -⟩ := hc.commit
    exact hlineage
  simp only [commitChild, wp_bind]
  obtain ⟨r₀, hr₀⟩ := hclaim.stored
  refine wp_insertChild (P := fun _ l => l.accompanies) hs (Table.lt_next_of_find hr₀) rfl
    (fun db₁ _ hstarted => ?_) fun keyed existing hkeyed hkind hkey hfind hnewest _ => ?_
  · -- the child is new
    have hs₁ := hstarted.evolves.sound hs
    have hx₁ : db₁.Attached X :=
      hstarted.evolves.attached hs (fun _ _ hl => Label.neutral_of_accompanies hl) hx
    have hclaim₁ : ClaimInv db₁ claim :=
      hclaim.of_aggregate_eq (hstarted.other _ (Table.lt_next_of_find hr₀).ne)
    simp only [ChildStart.isInserted, if_true, wp_bind, wp_pure, wp_ensure]
    refine ⟨fun _ => ?_, fun hne => absurd trivial hne⟩
    have hopen : (db₁.aggregate db.workflows.next).IsOpen := .of_row hstarted.stored rfl
    refine wp_attachChild hs₁ hx₁ hclaim₁ (W := fun l r lineage =>
      Writes claim now db (.runChild stateJson child) l r lineage ∧ lineage = db₁.lineage)
      (fun r hr => ⟨.insertedChild hr hstarted, rfl⟩) (fun _ => hopen) (fun _ h => ?_)
      fun db₂ hc hx₂ => hinserted db₁ db₂ hstarted (hc.mono fun _ _ _ => And.left)
        (hlineage hc) hx₂
    cases h
  · -- the key leads to a workflow that exists
    simp only [ChildStart.isInserted, Bool.false_eq_true, if_false, wp_bind]
    refine wp_isCallerOrAncestor (E := Benign) hs hclaim (fun _ _ _ _ => rfl) fun ancestor hancestor => ?_
    rw [wp_ensure]
    refine ⟨fun hnot => ?_, fun _ => rfl⟩
    have hnewestKeyed : db.NewestKeyed child.kind (claim.childKey child) keyed existing :=
      ⟨⟨hkeyed, hkind, hkey⟩, hfind, hnewest⟩
    have hfree : ¬Reaches db.ancestor claim.row.id existing.id := fun hreach => by
      simpa [hnot] using hancestor.mpr hreach
    refine wp_attachChild hs hx hclaim (W := fun l r lineage =>
      Writes claim now db (.runChild stateJson child) l r lineage ∧ lineage = db.lineage)
      (fun r hr => ⟨.existingChild hr hnewestKeyed hfree, rfl⟩) (fun h => by cases h) ?_
      fun db' hc hx' => hexisting db' (hc.mono fun _ _ _ => And.left) (hlineage hc) hx'
    rintro _ ⟨⟩
    exact hfind

theorem wp_commitChild {child : ChildWorkflowCommand} (hs : db.Sound) (hx : db.Attached X)
    (hclaim : ClaimInv db claim) :
    wp (commitChild claim (claim.row.deliveredEventSequence + 1)
        (I32.saturatingAdd claim.row.commandSequence 1) stateJson child now)
      (fun _ db' => Commits claim (Writes claim now db (.runChild stateJson child)) db db' ∧
        db'.Attached X) Benign db :=
  wp_commitChild_of hs hx hclaim
    (fun _ _ hstarted hc _ hx' => ⟨.of_started hstarted hclaim.stored hc, hx'⟩)
    fun _ hc _ hx' => ⟨hc, hx'⟩

-- ════════════════════════════════════════════════════════════════════════
-- The transactions
-- ════════════════════════════════════════════════════════════════════════

/-- The commit of a transition is one committing step of its workflow, taken
only while the claim holds the lease. -/
theorem wp_commitOnConnection {config : CoordinatorConfig} {event : WorkflowEventRow}
    {transition : StoredTransition} (hs : db.Sound) (hx : db.Attached X) (hclaim : ClaimInv db claim)
    (hevent : event.deliverySequence = some (claim.row.deliveredEventSequence + 1)) :
    wp (commitOnConnection config claim event transition now)
      (fun _ db' => Commits claim (Writes claim now db transition) db db' ∧ db'.Attached X) Benign
      db := by
  simp only [commitOnConnection, wp_bind, wp_orAbort, hevent]
  refine ⟨fun delivered hdelivered => ?_, fun h => by cases h⟩
  cases hdelivered
  cases transition with
  | runActivity => exact wp_commitActivity hs hx hclaim
  | runChild => exact wp_commitChild hs hx hclaim
  | sleepUntil => exact wp_commitSleep hs hx hclaim
  | waitForApproval => exact wp_commitApproval hs hx hclaim
  | «continue» => exact wp_commitContinue hs hx hclaim
  | complete => exact wp_commitComplete hs hx hclaim

/-- The steps of an activation failure of workflow `w`. -/
def Label.failsActivation (w w' : WorkflowId) : Label → Bool
  | .activationFailed => w' == w
  | .history | .answered (.child _) => true
  | _ => false

theorem benignErrors_delayForAttempt {policy : RetryPolicy} {attempt percentile : ℕ} :
    BenignErrors (policy.delayForAttempt attempt percentile) := by
  unfold RetryPolicy.delayForAttempt
  refine .ite (fun _ => .error rfl) fun _ => .ite (fun _ => .error rfl) fun _ => ?_
  split <;> exact .ok _

/-- Whether the next activation failure of a row is its last. -/
def WorkflowRow.exhausts (r : WorkflowRow) (config : CoordinatorConfig) : Bool :=
  min r.maxActivationAttempts (I32.clamp config.maxActivationAttempts) ≤
    I32.saturatingAdd r.activationAttempts 1

/-- What an activation failure makes of a row. -/
structure WorkflowRow.FailsTo (config : CoordinatorConfig) (r r' : WorkflowRow) : Prop where
  status : r'.status = if r.exhausts config then .failed else .ready
  attempts : r'.activationAttempts = I32.saturatingAdd r.activationAttempts 1
  limit : r'.maxActivationAttempts = r.maxActivationAttempts
  delivered : r'.deliveredEventSequence = r.deliveredEventSequence
  command : r'.commandSequence = r.commandSequence
  stateJson : r'.stateJson = r.stateJson
  stateVersion : r'.stateVersion = r.stateVersion

/-- An activation failure of the claim: one failing step of its workflow with its
history, and the wakes of the parents if it was the last one. -/
structure FailsActivation (config : CoordinatorConfig) (claim : ClaimedRow) (db db' : DB) :
    Prop where
  failure : ∃ r r' e, claim.Holds db r ∧ r.FailsTo config r' ∧
    Step (db.aggregate claim.row.id) .activationFailed ((db.aggregate claim.row.id).setRow r') ∧
    NextEvent (db.aggregate claim.row.id).events none e ∧ e.answers = none ∧
    db'.aggregate claim.row.id = ((db.aggregate claim.row.id).setRow r').addEvent e ∧
    ∀ w, w ≠ claim.row.id →
      ¬(r.exhausts config = true ∧ (db.aggregate w).AwaitsChild claim.row.id) →
      db'.aggregate w = db.aggregate w
  parents : ∀ w, w ≠ claim.row.id →
    Steps (fun l => l = .answered (.child claim.row.id)) (db.aggregate w) (db'.aggregate w)
  closed : db.Closed → db'.Closed

namespace FailsActivation

variable {config : CoordinatorConfig}

theorem held (h : FailsActivation config claim db db') : ∃ r, claim.Holds db r := by
  obtain ⟨r, -, -, hr, -⟩ := h.failure
  exact ⟨r, hr⟩

theorem evolves (h : FailsActivation config claim db db') :
    Evolves (fun w l => l.failsActivation claim.row.id w) db db' where
  steps w := by
    by_cases hw : w = claim.row.id
    · subst hw
      obtain ⟨r, r', e, -, -, hstep, he, ha, hself, -⟩ := h.failure
      rw [hself]
      exact (Steps.single hstep (beq_self_eq_true _)).trans (.single (.history rfl he ha) rfl)
    · refine (h.parents w hw).mono ?_
      rintro _ rfl
      rfl
  closed := h.closed

end FailsActivation

/-- An activation failure, recorded only while the claim holds the lease. -/
theorem wp_recordActivationFailure {externals : Externals} {config : CoordinatorConfig}
    {message : String} (hs : db.Sound) (hx : db.Attached X) (hclaim : ClaimInv db claim) :
    wp (recordActivationFailure externals config claim message now)
      (fun _ db' => FailsActivation config claim db db' ∧ db'.Attached X) Benign db := by
  simp only [recordActivationFailure, wp_bind, wp_findRow, wp_orAbort, wp_ofExcept, wp_onlyIf]
  refine ⟨fun current hcurrent => ⟨fun delay _ => ⟨fun delayMillis _ => ?_,
    benignErrors_durationMillis _⟩, benignErrors_delayForAttempt⟩, fun _ => rfl⟩
  obtain ⟨hfind, hfences⟩ := Option.filter_eq_some_iff.mp hcurrent
  have hid : current.id = claim.row.id := Table.key_of_find hfind
  have hholds := hclaim.holds hfind hfences
  rw [hid]
  refine wp_commitUpdate hclaim fun r db₁ hr ht => ?_
  obtain rfl : r = current := Option.some_inj.mp (hr.stored.symm.trans hfind)
  have hlimit : r.exhausts config = false →
      I32.saturatingAdd r.activationAttempts 1 < r.maxActivationAttempts := fun hleft =>
    (not_le.mp (of_decide_eq_false hleft)).trans_le (min_le_left _ _)
  have hstep := Step.activationFailed (g := db.aggregate claim.row.id) hr.stored hr.running
    (r.exhausts config) (I32.saturatingAdd r.activationAttempts 1)
    (DbMillis.saturatingPlusMillis now delayMillis) (truncateUtf8 "activation" 64)
    (truncateUtf8 message maxErrorReasonBytes) now rfl hlimit
  simp only [WorkflowRow.exhausts, decide_eq_true_eq] at hstep
  have hev : Evolves (fun w l => l.failsActivation claim.row.id w) db db₁ :=
    .of_step ht hstep (beq_self_eq_true _)
  have hrow := congrArg Aggregate.row ht.self
  have hx₁ : db₁.Attached (insert claim.row.id X) := by
    refine hx.close ht fun c => not_awaitsChild hrow (.inl ?_)
    dsimp only
    split <;> rfl
  have hevents : (db₁.aggregate claim.row.id).events = (db.aggregate claim.row.id).events := by
    rw [ht.self, Aggregate.setRow_events]
  refine wp_appendHistoryEvent (hevents ▸ hs.log _) (fun _ => rfl) (fun _ h => by cases h) (by split <;> rfl)
    fun e db₂ he ha ht₂ => ?_
  rw [hevents] at he
  have htouch := ht.trans ht₂
  have hev₁₂ : Evolves (fun w l => l.failsActivation claim.row.id w) db db₂ :=
    hev.trans (.of_step ht₂ (.history hrow (hevents.symm ▸ he) ha) rfl)
  have hrow₂ := congrArg Aggregate.row htouch.self
  have hx₂ : db₂.Attached (insert claim.row.id X) := by
    refine (Evolves.of_step (P := fun _ l => l = .history) ht₂
      (.history hrow (hevents.symm ▸ he) ha) rfl).attached (hev.sound hs) ?_ hx₁
    rintro _ _ rfl
    exact ⟨rfl, rfl⟩
  have hfails : r.FailsTo config { r.leaseCleared with
      status := if min r.maxActivationAttempts (I32.clamp config.maxActivationAttempts) ≤
        I32.saturatingAdd r.activationAttempts 1 then .failed else .ready
      activationAttempts := I32.saturatingAdd r.activationAttempts 1
      availableAt := DbMillis.saturatingPlusMillis now delayMillis
      errorCategory := some (truncateUtf8 "activation" 64)
      errorMessage := some (truncateUtf8 message maxErrorReasonBytes)
      updatedAt := now
      completedAt := if min r.maxActivationAttempts (I32.clamp config.maxActivationAttempts) ≤
        I32.saturatingAdd r.activationAttempts 1 then some now else none } :=
    ⟨by simp [WorkflowRow.exhausts], rfl, rfl, rfl, rfl, rfl, rfl⟩
  refine ⟨fun hexhausted => ?_, fun hleft => ?_⟩
  · rw [← hid] at hx₂
    refine wp_wakeWaitingParentsOnChildTerminal (P := fun _ l => l = .answered (.child r.id))
      (hev₁₂.sound hs) (fun _ => rfl) fun db₃ hev₃ hfree hsame => ?_
    rw [hid] at hev₃ hfree hsame hx₂
    have hself : ¬(db₂.aggregate claim.row.id).AwaitsChild claim.row.id := by
      refine not_awaitsChild hrow₂ (.inl ?_)
      dsimp only
      split <;> rfl
    refine ⟨⟨⟨r, _, e, hr, hfails, hstep, he, ha, (hsame _ hself).trans htouch.self,
      fun w hw hnot => ?_⟩, fun w hw => htouch.other w hw ▸ hev₃.steps w,
      fun hc => hev₃.closed (htouch.closed hc)⟩, ?_⟩
    · rw [hsame w, htouch.other w hw]
      rw [htouch.other w hw]
      exact fun hawaits => hnot ⟨decide_eq_true hexhausted, hawaits⟩
    · refine (hev₃.attached (hev₁₂.sound hs) ?_ hx₂).discharge hfree
      rintro _ _ rfl
      exact ⟨rfl, rfl⟩
  · refine ⟨⟨⟨r, _, e, hr, hfails, hstep, he, ha, htouch.self, fun w hw _ => htouch.other w hw⟩,
      fun w hw => htouch.other w hw ▸ .refl, htouch.closed⟩, hx₂.of_open (.of_row hrow₂ ?_)⟩
    dsimp only
    rw [if_neg hleft]
    rfl

end DurableWorkflows
