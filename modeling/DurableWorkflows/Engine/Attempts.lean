import DurableWorkflows.Engine.Commits
import DurableWorkflows.Engine.Continuity

/-!
# Attempts

The transactions of the activity worker. The row of a lease holder has one open
attempt under its token, and a running row has a workflow that waits for it, so
the fences behind the first one always hold.

## Main definitions

- `ActivityClaimInv`: what holds of an activity claim in every later state

## Main results

- `wp_reconcileExpired`: every expired lease that is not skipped is settled
- `wp_claimOne`, `wp_claimBatch`
- `wp_heartbeatOnce`, `wp_finishOnConnection`, `wp_report`
-/

namespace DurableWorkflows

open Transaction

variable {db db' : DB} {E : DurableError → Prop} {a : ActivityId} {act : ActivityRow}
  {attempt : ActivityAttemptRow} {r : WorkflowRow} {now : DbMillis} {X : Set WorkflowId}
  {externals : Externals} {locks : HeldLocks} {topic : String} {started : Instant}

-- ════════════════════════════════════════════════════════════════════════
-- Lease holders
-- ════════════════════════════════════════════════════════════════════════

/-- An activity that holds a lease, with its workflow and its open attempt. -/
structure Leased (db : DB) (a : ActivityId) (act : ActivityRow) (attempt : ActivityAttemptRow)
    (r : WorkflowRow) : Prop where
  find : db.activities.find a = some act
  lease : act.status.holdsLease = true
  row : db.workflows.find act.workflowId = some r
  attempt : (db.aggregate act.workflowId).OpenAttempt a act attempt

/-- Every lease holder has an open attempt. -/
theorem DB.Sound.leased (hs : db.Sound) (ha : db.activities.find a = some act)
    (hl : act.status.holdsLease = true) : ∃ attempt r, Leased db a act attempt r := by
  obtain ⟨r, hr⟩ := hs.row_of_activity ha
  have hact := activity_of_find ha
  have hledger := (hs.inv hr).ledger a act hact
  obtain ⟨attempt, hattempt⟩ := Option.isSome_iff_exists.mp
    ((hledger.numbered act.attemptCount).mpr ⟨hledger.started hl, le_rfl⟩)
  exact ⟨attempt, r, ha, hl, hr, hact, hattempt,
    (hledger.isOpen _ attempt hattempt).mpr ⟨hl, rfl⟩, hledger.token attempt hattempt hl⟩

namespace Leased

theorem id_eq (h : Leased db a act attempt r) : act.id = a := Table.key_of_find h.find

theorem attempts (h : Leased db a act attempt r) :
    db.attempts a act.attemptCount = some attempt := by
  rw [← aggregate_attempts h.attempt.stored]
  exact h.attempt.number

/-- The workflow of a running activity waits for it. -/
theorem waits (h : Leased db a act attempt r) (hs : db.Sound) (hrun : act.status = .running) :
    r.status = .waitingActivity ∧ r.awaited = some (.activity a) := by
  have hinv := hs.inv h.row
  have hcoupled := hinv.coupled a act h.attempt.stored
  have hopen : r.status.isTerminal = false := by
    by_contra ht
    exact (hcoupled.revoked (Bool.eq_true_of_not_eq_false ht)).2 hrun
  have hwait : r.awaited = some (.activity a) := hcoupled.live (by rw [hrun]; rfl) hopen
  have hstatus := hinv.awaitedActivity_status hopen hwait h.attempt.stored
  refine ⟨?_, hwait⟩
  rw [hrun] at hstatus
  cases hst : r.status <;> simp_all [WorkflowStatus.awaitedActivity]

end Leased

/-- A lease holder is changed together with its open attempt. -/
theorem wp_updateLeased {fence : ActivityRow → Bool} {f : ActivityRow → ActivityRow} {hf}
    {close : ActivityAttemptRow → ActivityAttemptRow} {Q : Unit → DB → Prop}
    (hl : Leased db a act attempt r) (hfence : fence act = true)
    (hw : ∀ r, (f r).workflowId = r.workflowId)
    (h : ∀ db', Touches db act.workflowId
      (fun g => (g.setActivity a (f act)).setAttempt a act.attemptCount (close attempt)) db' →
      Q () db') :
    wp (fencedUpdate activityTable a fence f hf) (fun _ db =>
      wp (updateOpenAttempt a act.attemptCount attempt.leaseToken close) Q E db) E db := by
  refine wp_updateActivity_of hl.find hfence hw fun db₁ ht₁ => ?_
  have hact : (db₁.aggregate act.workflowId).activities a = some (f act) := by
    rw [ht₁.self]
    exact Function.update_self ..
  have hattempt : db₁.attempts a act.attemptCount = some attempt := by
    refine aggregate_attempt (w := act.workflowId) ?_
    rw [ht₁.self]
    exact hl.attempt.number
  refine wp_updateOpenAttempt_of (aggregate_activity.mp hact).1 hattempt hl.attempt.isOpen
    fun db₂ ht₂ => ?_
  rw [hw act] at ht₂
  exact h db₂ (ht₁.trans ht₂)

/-- The fence of the worker on a workflow row. -/
theorem waitsForActivity_iff (h : RowInv r) :
    waitsForActivity a r = true ↔ r.status = .waitingActivity ∧ r.awaited = some (.activity a) := by
  simp only [waitsForActivity, Bool.and_eq_true, beq_iff_eq]
  refine and_congr_right fun hs => ?_
  have hallowed := h.allowed
  simp only [hs, WorkflowStatus.allows] at hallowed
  unfold WorkflowRow.awaited at hallowed ⊢
  cases hk : r.waitKind with
  | none => simp [hk] at hallowed
  | some kind =>
    cases href : r.waitReferenceId with
    | none => simp [hk, href] at hallowed
    | some reference => cases kind <;> simp_all [WaitKind.toWait, Wait.kind]

-- ════════════════════════════════════════════════════════════════════════
-- Reconciliation
-- ════════════════════════════════════════════════════════════════════════

/-- The steps that close the attempt of a lease holder. -/
def Label.closes : Label → Bool
  | .history | .released _ | .deadLettered _ | .settled _ => true
  | _ => false

/-- The activity after the settlement of its revoked attempt. -/
def ActivityRow.settled (act : ActivityRow) (closed : Bool) (now : DbMillis) : ActivityRow :=
  { act.leaseCleared with
    status := if closed then .cancelled else .pending
    availableAt := if closed then act.availableAt else now
    updatedAt := now
    completedAt := if closed then some now else none }

/-- The settlement of a revoked attempt with its history event. -/
theorem wp_settleRevoked_touches {outcome : AttemptOutcome} {message : String}
    {Q : Unit → DB → Prop} (hs : db.Sound) (hl : Leased db act.id act attempt r)
    (hcancel : act.status = .cancelling)
    (hE : I32.max ≤ (db.aggregate act.workflowId).events.length →
      E (.invalidState .eventSequenceOverflow))
    (h : ∀ e db', NextEvent (db.aggregate act.workflowId).events none e → e.answers = none →
      Touches db act.workflowId (fun g => ((g.setAttempt act.id act.attemptCount
        (attempt.closed outcome (some outcome.asStr) (some message) attempt.providerResultJson
          now)).setActivity act.id (act.settled r.status.isTerminal now)).addEvent e) db' →
      Q () db') :
    wp (settleRevoked act outcome message now) Q E db := by
  simp only [settleRevoked, closeAttempt, appendActivityHistory, wp_bind, wp_orAbort, wp_firstRow,
    workflowTable_get, hl.attempt.token, hl.row]
  refine ⟨?_, fun h => by cases h⟩
  rintro _ ⟨⟩
  refine ⟨?_, fun h => by cases h⟩
  rintro _ ⟨⟩
  refine ⟨?_, fun h => by cases h⟩
  rintro _ ⟨⟩
  refine wp_updateOpenAttempt_of hl.find hl.attempts hl.attempt.isOpen fun db₁ ht₁ => ?_
  have hact₁ : (db₁.aggregate act.workflowId).activities act.id = some act := by
    rw [ht₁.self]
    exact hl.attempt.stored
  refine wp_updateActivity_of (aggregate_activity.mp hact₁).1 ?_ (fun _ => rfl) fun db₂ ht₂ => ?_
  · simp [hcancel, hl.attempt.token]
  have htouch := ht₁.trans ht₂
  have hevents : (db₂.aggregate act.workflowId).events = (db.aggregate act.workflowId).events := by
    rw [htouch.self]
    rfl
  refine wp_appendHistoryEvent (hevents ▸ hs.log _) (hevents ▸ hE) (fun _ h => by cases h) rfl
    fun e db₃ he hanswers ht₃ => ?_
  exact h e db₃ (hevents ▸ he) hanswers (htouch.trans ht₃)

/-- The settlement of a revoked attempt. -/
theorem wp_settleRevoked {P : WorkflowId → Label → Prop} {outcome : AttemptOutcome} {message : String}
    {Q : Unit → DB → Prop} (hs : db.Sound) (hl : Leased db act.id act attempt r)
    (hcancel : act.status = .cancelling)
    (hE : I32.max ≤ (db.aggregate act.workflowId).events.length →
      E (.invalidState .eventSequenceOverflow))
    (hP : P act.workflowId (.settled act.id)) (hP' : P act.workflowId .history)
    (h : ∀ db', Evolves P db db' →
      db'.attempts act.id act.attemptCount = some (attempt.closed outcome (some outcome.asStr)
        (some message) attempt.providerResultJson now) → Q () db') :
    wp (settleRevoked act outcome message now) Q E db := by
  refine wp_settleRevoked_touches hs hl hcancel hE fun e db' he hanswers htouch => h db' ?_ ?_
  · have hstep : Steps (P act.workflowId) (db.aggregate act.workflowId) _ :=
      .single (.settled hl.row hl.attempt hcancel outcome message now) hP
    exact .of_touches htouch (hstep.trans (.single (.history hl.row he hanswers) hP'))
  · refine aggregate_attempt (w := act.workflowId) ?_
    rw [htouch.self]
    exact if_pos ⟨rfl, rfl⟩

/-- The block of a workflow that waits for the activity. -/
theorem wp_blockWorkflow {category message : String} {Q : Unit → DB → Prop}
    (hlog : Log (db.aggregate act.workflowId).events)
    (hr : db.workflows.find act.workflowId = some r) (hwaits : waitsForActivity act.id r = true)
    (hE : I32.max ≤ (db.aggregate act.workflowId).events.length →
      E (.invalidState .eventSequenceOverflow))
    (h : ∀ e db', NextEvent (db.aggregate act.workflowId).events none e → e.answers = none →
      Touches db act.workflowId
        (fun g => (g.setRow (r.blockedBy category message now)).addEvent e) db' → Q () db') :
    wp (blockWorkflow act category message now) Q E db := by
  rw [blockWorkflow, wp_bind]
  refine wp_updateWorkflow_of hr hwaits fun db₁ ht₁ => ?_
  have hevents : (db₁.aggregate act.workflowId).events = (db.aggregate act.workflowId).events := by
    rw [ht₁.self]
    rfl
  refine wp_appendHistoryEvent (hevents ▸ hlog) (hevents ▸ hE) nofun rfl
    fun e db₂ he hanswers ht₂ => ?_
  exact h e db₂ (hevents ▸ he) hanswers (ht₁.trans ht₂)

/-- A history event after a sequence of steps. -/
theorem Steps.add_history {P : Label → Prop} {g g' : Aggregate} {e : WorkflowEventRow}
    (h : Steps P g g') (hr : g'.row = some r) (he : NextEvent g'.events none e)
    (ha : e.answers = none) (hP : P .history) : Steps P g (g'.addEvent e) :=
  h.trans (.single (.history hr he ha) hP)

/-- The dead letter of a running attempt, between two history events. -/
theorem Leased.deadLettered {outcome : AttemptOutcome} {category message : String}
    {result : Option String} {availableAt : DbMillis} {e e' : WorkflowEventRow}
    {P : Label → Prop} (hl : Leased db act.id act attempt r) (hs : db.Sound)
    (hrun : act.status = .running)
    (he : NextEvent (db.aggregate act.workflowId).events none e) (ha : e.answers = none)
    (he' : NextEvent ((db.aggregate act.workflowId).events ++ [e]) none e') (ha' : e'.answers = none)
    (hP : P (.deadLettered act.id)) (hP' : P .history) :
    Steps P (db.aggregate act.workflowId)
      ((((((db.aggregate act.workflowId).setActivity act.id { act.leaseCleared with
        status := .deadLettered, availableAt, lastErrorCategory := some category
        lastErrorMessage := some message, updatedAt := now, completedAt := some now }).setAttempt
        act.id act.attemptCount (attempt.closed outcome (some category) (some message) result
          now)).addEvent e).setRow (r.blockedBy category message now)).addEvent e') := by
  obtain ⟨hstatus, hwait⟩ := hl.waits hs hrun
  have hstep : Steps P (db.aggregate act.workflowId) _ := .single (.deadLettered hl.row hstatus hwait
    hl.attempt hrun outcome category message result availableAt now) hP
  exact (hstep.add_history rfl he ha hP').add_history rfl he' ha' hP'

theorem benignErrors_recoveryAvailableAt {exhausted : Bool} :
    BenignErrors (recoveryAvailableAt externals act exhausted now) := by
  unfold recoveryAvailableAt
  refine .ite (fun _ => .ok _) fun _ => ?_
  split
  · exact .ok _
  · exact .bind benignErrors_delayForAttempt fun _ _ =>
      .bind (benignErrors_durationMillis _) fun _ _ => .ok _

/-- The activity after its running attempt expired. -/
def ActivityRow.expired (act : ActivityRow) (exhausted : Bool) (availableAt now : DbMillis) :
    ActivityRow :=
  { act.leaseCleared with
    status := if exhausted then .deadLettered else .pending
    availableAt
    lastErrorCategory := some "lease_expired"
    lastErrorMessage := some "activity lease expired"
    updatedAt := now
    completedAt := if exhausted then some now else none }

/-- The attempt that expired. -/
def ActivityAttemptRow.expired (attempt : ActivityAttemptRow) (now : DbMillis) :
    ActivityAttemptRow :=
  attempt.closed .leaseExpired (some "lease_expired") (some "activity lease expired")
    attempt.providerResultJson now

/-- The expiry of a running attempt with its history events: the attempt is released, or it is
dead-lettered with the block of its workflow. -/
theorem wp_expireRunning_touches {Q : Unit → DB → Prop} (hs : db.Sound)
    (hl : Leased db act.id act attempt r) (hrun : act.status = .running)
    (hdelay : ∀ e, recoveryAvailableAt externals act (act.maxAttempts ≤ act.attemptCount) now =
      .error e → E e)
    (hE : I32.max < (db.aggregate act.workflowId).events.length +
      (if act.maxAttempts ≤ act.attemptCount then 2 else 1) →
        E (.invalidState .eventSequenceOverflow))
    (hrelease : ∀ availableAt e db', act.attemptCount < act.maxAttempts →
      recoveryAvailableAt externals act false now = .ok availableAt →
      NextEvent (db.aggregate act.workflowId).events none e → e.answers = none →
      Touches db act.workflowId (fun g => ((g.setActivity act.id
        (act.expired false availableAt now)).setAttempt act.id act.attemptCount
          (attempt.expired now)).addEvent e) db' → Q () db')
    (hdead : ∀ availableAt e e' db', act.maxAttempts ≤ act.attemptCount →
      recoveryAvailableAt externals act true now = .ok availableAt →
      NextEvent (db.aggregate act.workflowId).events none e → e.answers = none →
      NextEvent ((db.aggregate act.workflowId).events ++ [e]) none e' → e'.answers = none →
      Touches db act.workflowId (fun g => ((((g.setActivity act.id
        (act.expired true availableAt now)).setAttempt act.id act.attemptCount
          (attempt.expired now)).addEvent e).setRow
            (r.blockedBy "lease_expired" "activity lease expired" now)).addEvent e') db' →
      Q () db') :
    wp (expireRunning externals r act now) Q E db := by
  simp only [expireRunning, appendActivityHistory, wp_bind, wp_orAbort, wp_ofExcept, wp_onlyIf,
    hl.attempt.token]
  refine ⟨?_, fun h => by cases h⟩
  rintro _ ⟨⟩
  refine ⟨fun availableAt havailable => ?_, hdelay⟩
  refine wp_updateLeased hl (by simp [hrun, hl.attempt.token]) (fun _ => rfl) fun db₁ ht₁ => ?_
  have hevents : (db₁.aggregate act.workflowId).events = (db.aggregate act.workflowId).events := by
    rw [ht₁.self]
    rfl
  refine wp_appendHistoryEvent (hevents ▸ hs.log _) (fun hfull => hE ?_) (fun _ h => by cases h) rfl
    fun e db₂ he hanswers ht₂ => ?_
  · rw [hevents] at hfull
    split <;> omega
  rw [hevents] at he
  have htouch := ht₁.trans ht₂
  obtain ⟨hstatus, hwait⟩ := hl.waits hs hrun
  have hwaits : waitsForActivity act.id r = true :=
    (waitsForActivity_iff (hs.inv hl.row).row).mpr ⟨hstatus, hwait⟩
  have hrow : db₂.workflows.find act.workflowId = some r :=
    (congrArg Aggregate.row htouch.self).trans hl.row
  have hevents₂ : (db₂.aggregate act.workflowId).events =
      (db.aggregate act.workflowId).events ++ [e] := by
    rw [htouch.self]
    rfl
  by_cases hex : act.maxAttempts ≤ act.attemptCount
  · simp only [hex, decide_true] at htouch havailable
    refine ⟨fun _ => ?_, fun hleft => absurd ⟨decide_eq_true hex, hwaits⟩ hleft⟩
    refine wp_blockWorkflow (hevents₂ ▸ (hs.log _).add_history he) hrow hwaits
      (fun hfull => hE ?_) fun e' db₃ he' hanswers' ht₃ => ?_
    · rw [hevents₂, List.length_append, List.length_singleton] at hfull
      rw [if_pos hex]
      omega
    · exact hdead availableAt e e' db₃ hex havailable he hanswers (hevents₂ ▸ he') hanswers'
        (htouch.trans ht₃)
  · simp only [hex, decide_false] at htouch havailable
    refine ⟨fun hexhausted => absurd (of_decide_eq_true hexhausted.1) hex, fun _ => ?_⟩
    exact hrelease availableAt e db₂ (Nat.lt_of_not_le hex) havailable he hanswers htouch

/-- The expiry of a running attempt closes it. -/
theorem wp_expireRunning {Q : Unit → DB → Prop} (hs : db.Sound)
    (hl : Leased db act.id act attempt r) (hrun : act.status = .running)
    (h : ∀ db', Evolves (fun _ l => l.closes) db db' → Q () db') :
    wp (expireRunning externals r act now) Q Benign db := by
  refine wp_expireRunning_touches hs hl hrun benignErrors_recoveryAvailableAt (fun _ => rfl) ?_ ?_
  · intro availableAt e db' hcount _ he hanswers htouch
    have hstep : Steps (fun l => l.closes) (db.aggregate act.workflowId) _ :=
      .single (.released hl.row hl.attempt hrun hcount .leaseExpired
        (some "lease_expired") (some "activity lease expired") attempt.providerResultJson
        availableAt none now) rfl
    exact h db' (.of_touches htouch (hstep.add_history hl.row he hanswers rfl))
  · intro availableAt e e' db' _ _ he hanswers he' hanswers' htouch
    exact h db' (.of_touches htouch (hl.deadLettered hs hrun he hanswers he' hanswers' rfl rfl))

theorem wp_reconcileCandidate {candidate : ActivityRow} {Q : Bool → DB → Prop} (hs : db.Sound)
    (hcandidate : ∀ act, db.activities.find candidate.id = some act →
      act.workflowId = candidate.workflowId)
    (h : ∀ b db', Evolves (fun _ l => l.closes) db db' → Q b db') :
    wp (reconcileCandidate externals locks topic now candidate) Q Benign db := by
  simp only [reconcileCandidate, wp_bind, wp_findRow, workflowTable_get]
  split
  · exact h true db (.refl db)
  rename_i workflow hworkflow
  obtain ⟨hworkflow, -⟩ := Option.filter_eq_some_iff.mp hworkflow
  simp only [wp_bind, wp_findRow, activityTable_get]
  split
  · exact h false db (.refl db)
  rename_i row hrow
  obtain ⟨hfind, hexpired⟩ := Option.filter_eq_some_iff.mp hrow
  have hid : row.id = candidate.id := Table.key_of_find hfind
  simp only [expiredHolder, Bool.and_eq_true] at hexpired
  obtain ⟨attempt, r, hl⟩ := hs.leased (hid.symm ▸ hfind) hexpired.1.2
  obtain rfl : r = workflow := by
    have hr := hl.row
    rw [hcandidate row hfind, hworkflow] at hr
    exact (Option.some_inj.mp hr).symm
  split
  · rw [wp_bind]
    exact wp_expireRunning hs hl ‹_› fun db' hev => h false db' hev
  · rw [wp_bind]
    exact wp_settleRevoked (P := fun _ l => l.closes) hs hl ‹_› (fun _ => rfl) rfl rfl
      fun db' hev _ => h false db' hev
  all_goals
    rename_i hstatus
    simp [hstatus, ActivityStatus.holdsLease] at hexpired

/-- A reconciliation settles its candidates one by one, each in a sound state that still has the
candidate in its workflow. -/
theorem wp_reconcileExpired_of {Q : List ActivityId → DB → Prop} (hs : db.Sound)
    (hstep : ∀ {candidate : ActivityRow} {db₁ : DB}, db₁.Sound →
      (∀ act, db₁.activities.find candidate.id = some act →
        act.workflowId = candidate.workflowId) →
      wp (reconcileCandidate externals locks topic now candidate)
        (fun _ db₂ => Evolves (fun _ l => l.closes) db₁ db₂) E db₁)
    (h : ∀ unsettled db', Evolves (fun _ l => l.closes) db db' → Q unsettled db') :
    wp (reconcileExpired externals locks topic now) Q E db := by
  simp only [reconcileExpired, wp_bind, wp_selectRows]
  refine wp_imp (wp_foldEach (fun _ _ db' => Evolves (fun _ l => l.closes) db db') ?_ (.refl db))
    fun unsettled db' hev => h unsettled db' hev
  intro pre candidate post hsplit _ db₁ hev
  rw [wp_bind]
  refine wp_imp (hstep (hev.sound hs) fun act hact => ?_) fun _ db₂ hev₂ => hev.trans hev₂
  have hmem : candidate ∈ db.activities.select (expiredHolder topic now) := by
    rw [show db.activities.select _ = _ from hsplit]
    simp
  obtain ⟨act', hact', hw, -⟩ := hev.follows (t := 0) (fun _ l hl => by rintro rfl; cases hl)
    (Table.mem_select.mp hmem).1
  obtain rfl := Option.some_inj.mp (hact'.symm.trans hact)
  exact hw

/-- A reconciliation closes attempts and does nothing else. -/
theorem wp_reconcileExpired {Q : List ActivityId → DB → Prop} (hs : db.Sound)
    (h : ∀ unsettled db', Evolves (fun _ l => l.closes) db db' → Q unsettled db') :
    wp (reconcileExpired externals locks topic now) Q Benign db :=
  wp_reconcileExpired_of hs (fun hs₁ hcandidate =>
    wp_reconcileCandidate hs₁ hcandidate fun _ _ hev => hev) h

-- ════════════════════════════════════════════════════════════════════════
-- Claims
-- ════════════════════════════════════════════════════════════════════════

/-- What holds of an activity claim in every state from its draw on. -/
structure ActivityClaimInv (db : DB) (claim : ActivityClaim) : Prop where
  number : claim.row.attemptCount = claim.attemptNumber
  stored : ∃ act, db.activities.find claim.row.id = some act ∧
    act.workflowId = claim.row.workflowId ∧ claim.row.Follows claim.leaseToken act
  attempt : ∃ attempt, db.attempts claim.row.id claim.attemptNumber = some attempt ∧
    attempt.leaseToken = claim.leaseToken

/-- A claim outlives every step that does not draw its token again. -/
theorem ActivityClaimInv.evolves {P : WorkflowId → Label → Prop} {claim : ActivityClaim}
    (h : ActivityClaimInv db claim) (hs : db.Sound) (hev : Evolves P db db')
    (hP : ∀ w l, P w l → l ≠ .activityClaimed claim.row.id claim.leaseToken) :
    ActivityClaimInv db' claim where
  number := h.number
  stored := by
    obtain ⟨act, hact, hw, hf⟩ := h.stored
    obtain ⟨act', hact', hw', hf'⟩ := hev.follows hP hact
    exact ⟨act', hact', hw'.trans hw, hf.trans hf'⟩
  attempt := by
    obtain ⟨attempt, hattempt, htoken⟩ := h.attempt
    obtain ⟨attempt', hattempt', hf, -⟩ := hev.follows_attempt hs hattempt
    exact ⟨attempt', hattempt', hf.trans htoken⟩

/-- The steps of an activity claim that draws tokens from `first` on. -/
def Label.claimsFrom (first : LeaseToken) : Label → Bool
  | .history | .released _ | .deadLettered _ | .settled _ | .quarantined _ => true
  | .activityClaimed _ token => first ≤ token
  | _ => false

theorem Label.claimsFrom_of_closes {l : Label} {first : LeaseToken} (h : l.closes = true) :
    l.claimsFrom first = true := by
  cases l with
  | history | released | deadLettered | settled => rfl
  | _ => cases h

theorem wp_quarantineCandidate {first : LeaseToken} {reason message : String}
    {Q : Unit → DB → Prop} (hs : db.Sound) (ha : db.activities.find act.id = some act)
    (hr : db.workflows.find act.workflowId = some r) (hwaits : waitsForActivity act.id r = true)
    (hpending : act.status = .pending)
    (h : ∀ db', Evolves (fun _ l => l.claimsFrom first) db db' → Q () db') :
    wp (quarantineCandidate act reason message now) Q Benign db := by
  simp only [quarantineCandidate, appendActivityHistory, wp_bind]
  refine wp_updateActivity_of ha (by simp [hpending]) (fun _ => rfl) fun db₁ ht₁ => ?_
  have hevents : (db₁.aggregate act.workflowId).events = (db.aggregate act.workflowId).events := by
    rw [ht₁.self]
    rfl
  refine wp_appendHistoryEvent (hevents ▸ hs.log _) (fun _ => rfl) nofun rfl
    fun e db₂ he hanswers ht₂ => ?_
  rw [hevents] at he
  have htouch := ht₁.trans ht₂
  have hrow : db₂.workflows.find act.workflowId = some r :=
    (congrArg Aggregate.row htouch.self).trans hr
  have hevents₂ : (db₂.aggregate act.workflowId).events =
      (db.aggregate act.workflowId).events ++ [e] := by
    rw [htouch.self]
    rfl
  refine wp_blockWorkflow (hevents₂ ▸ (hs.log _).add_history he) hrow hwaits (fun _ => rfl)
    fun e' db₃ he' hanswers' ht₃ => h db₃ (.of_touches (htouch.trans ht₃) ?_)
  rw [hevents₂] at he'
  obtain ⟨hstatus, hwait⟩ := (waitsForActivity_iff (hs.inv hr).row).mp hwaits
  have hstep : Steps (fun l => l.claimsFrom first) (db.aggregate act.workflowId) _ :=
    .single (.quarantined hr hstatus hwait (activity_of_find ha) hpending invalidRowCategory
      s!"{reason}: {message}" now) rfl
  exact (hstep.add_history rfl he hanswers rfl).add_history rfl he' hanswers' rfl

/-- The deadline of a lease within its bounds fails only at the end of the clock. -/
theorem benign_tryLeaseDeadline {e : DurableError} (hbounds : invalidBounds act = false)
    (he : tryLeaseDeadlineFromSample started act.leaseDurationMillis = .error e) : Benign e := by
  simp only [invalidBounds, Bool.or_eq_false_iff, decide_eq_false_iff_not, not_le] at hbounds
  have hlease : 0 ≤ act.leaseDurationMillis := (hbounds.1.trans hbounds.2).le
  rw [tryLeaseDeadlineFromSample, durationFromMillis, if_pos hlease] at he
  dsimp only [bind, Except.bind] at he
  split at he
  · cases he
  · cases he
    rfl

/-- The lease of a pending activity opens its next attempt. -/
theorem wp_leaseCandidate {first token : LeaseToken} {run : Option ScheduleRunId}
    {policy : RetryPolicy} {workerId : String} {Q : ActivityClaim → DB → Prop} (hs : db.Sound)
    (hfirst : first ≤ token) (ha : db.activities.find act.id = some act)
    (hr : db.workflows.find act.workflowId = some r) (hwaits : waitsForActivity act.id r = true)
    (hpending : act.status = .pending) (hbounds : invalidBounds act = false)
    (h : ∀ claim db', Evolves (fun _ l => l.claimsFrom first) db db' → claim.leaseToken = token →
      ActivityClaimInv db' claim → Q claim db') :
    wp (leaseCandidate act run policy now started workerId token) Q Benign db := by
  simp only [leaseCandidate, wp_bind, wp_orAbort]
  refine ⟨fun number hnumber => ⟨fun expiry _ => ?_, fun _ => rfl⟩, fun _ => rfl⟩
  obtain ⟨-, rfl⟩ := I32.checkedAdd_eq_some.mp hnumber
  have hact := activity_of_find ha
  have hnew : (db.aggregate act.workflowId).attempts act.id (act.attemptCount + 1) = none := by
    have hnumbered := ((hs.inv hr).ledger act.id act hact).numbered (act.attemptCount + 1)
    rw [← Option.not_isSome_iff_eq_none, hnumbered]
    omega
  obtain ⟨hstatus, hwait⟩ := (waitsForActivity_iff (hs.inv hr).row).mp hwaits
  refine wp_updateActivity_of ha (by simp [hpending]) (fun _ => rfl) fun db₁ ht₁ => ?_
  set leased : ActivityRow := { act with
    status := .running, attemptCount := act.attemptCount + 1, leaseOwner := some workerId
    leaseToken := some token, leaseExpiresAt := some expiry, updatedAt := now } with hleased
  have hact₁ : (db₁.aggregate act.workflowId).activities act.id = some leased := by
    rw [ht₁.self]
    exact Function.update_self ..
  have hnew₁ : db₁.attempts act.id (act.attemptCount + 1) = none := by
    rw [← aggregate_attempts hact₁, ht₁.self]
    exact hnew
  refine wp_insertAttempt (aggregate_activity.mp hact₁).1 hnew₁ fun db₂ ht₂ => ?_
  rw [wp_ofExcept]
  refine ⟨fun _ _ => ?_, fun e he => benign_tryLeaseDeadline hbounds he⟩
  have htouch := ht₁.trans ht₂
  have hact₂ : (db₂.aggregate act.workflowId).activities act.id = some leased := by
    rw [htouch.self]
    exact Function.update_self ..
  refine h _ db₂ (.of_step htouch (.activityClaimed hr hstatus hwait hact hpending rfl rfl workerId
    token rfl expiry now) (decide_eq_true hfirst)) rfl ⟨rfl, ?_, ?_⟩
  · exact ⟨leased, (aggregate_activity.mp hact₂).1, rfl, rfl, rfl, rfl, le_rfl,
      fun _ => ⟨rfl, rfl⟩, fun _ _ => ⟨rfl, rfl⟩⟩
  · have hattempt := congrFun (congrFun (congrArg Aggregate.attempts htouch.self) act.id)
      (act.attemptCount + 1)
    exact ⟨_, aggregate_attempt (hattempt.trans (if_pos ⟨rfl, rfl⟩)), rfl⟩

/-- What a claim of one activity does. -/
theorem wp_claimLockedCandidate {registry : ActivityRegistry} {candidate : ActivityId}
    {w : WorkflowId} {workerId : String} {first token : LeaseToken}
    {Q : Option ActivityClaim → DB → Prop} (hs : db.Sound) (hfirst : first ≤ token)
    (hnone : ∀ db', Evolves (fun _ l => l.claimsFrom first) db db' → Q none db')
    (hsome : ∀ claim db', Evolves (fun _ l => l.claimsFrom first) db db' →
      claim.leaseToken = token → ActivityClaimInv db' claim → Q (some claim) db') :
    wp (claimLockedCandidate registry locks candidate w now started workerId token) Q Benign db := by
  simp only [claimLockedCandidate, wp_bind, wp_findRow, workflowTable_get]
  split
  · exact hnone db (.refl db)
  rename_i workflow hfound
  obtain ⟨hworkflow, hlocked⟩ := Option.filter_eq_some_iff.mp hfound
  clear hfound
  simp only [wp_bind, wp_findRow, activityTable_get]
  split
  · exact hnone db (.refl db)
  rename_i row hrow
  obtain ⟨hfind, hcandidate⟩ := Option.filter_eq_some_iff.mp hrow
  simp only [Bool.and_eq_true, beq_iff_eq] at hcandidate hlocked
  obtain ⟨⟨⟨-, rfl⟩, hpending⟩, -⟩ := hcandidate
  obtain rfl : row.id = candidate := Table.key_of_find hfind
  have hquarantine : ∀ reason message, wp (quarantineCandidate row reason message now)
      (fun _ db' => Q none db') Benign db := fun reason message =>
    wp_quarantineCandidate hs hfind hworkflow hlocked.2 hpending hnone
  rw [wp_ite]
  refine ⟨fun _ => hnone db (.refl db), fun _ => ?_⟩
  rw [wp_ite]
  refine ⟨fun _ => ?_, fun _ => ?_⟩
  · rw [wp_bind]
    exact hquarantine _ _
  rw [wp_ite]
  refine ⟨fun _ => ?_, fun hbounds => ?_⟩
  · rw [wp_bind]
    exact hquarantine _ _
  split
  · rw [wp_bind]
    exact hquarantine _ _
  · rw [wp_bind]
    exact wp_leaseCandidate hs hfirst hfind hworkflow hlocked.2 hpending
      (Bool.eq_false_of_not_eq_true hbounds) hsome

theorem wp_claimFirst {registry : ActivityRegistry} {workerId : String} {first token : LeaseToken}
    {candidates : List ActivityRow} {Q : Option ActivityClaim → DB → Prop} (hs : db.Sound)
    (hfirst : first ≤ token)
    (hnone : ∀ db', Evolves (fun _ l => l.claimsFrom first) db db' → Q none db')
    (hsome : ∀ claim db', Evolves (fun _ l => l.claimsFrom first) db db' →
      claim.leaseToken = token → ActivityClaimInv db' claim → Q (some claim) db') :
    wp (claimFirst registry locks now started workerId token candidates) Q Benign db := by
  induction candidates generalizing db with
  | nil => exact hnone db (.refl db)
  | cons candidate candidates ih =>
    rw [claimFirst, wp_bind]
    refine wp_claimLockedCandidate hs hfirst (fun db₁ hev => ?_) hsome
    exact ih (hev.sound hs) (fun db₂ hev₂ => hnone db₂ (hev.trans hev₂))
      fun claim db₂ hev₂ => hsome claim db₂ (hev.trans hev₂)

theorem wp_claimOne {registry : ActivityRegistry} {topics : List TopicDefinition}
    {workerId : String} {token : LeaseToken} (hs : db.Sound) :
    wp (claimOne externals registry topics locks topic workerId token now started) (fun o db' =>
      Evolves (fun _ l => l.claimsFrom token) db db' ∧
        ∀ claim, o = some claim → claim.leaseToken = token ∧ ActivityClaimInv db' claim)
      Benign db := by
  simp only [claimOne, inFlight, claimCandidates, wp_bind, wp_ensure, wp_read, wp_orAbort]
  refine ⟨fun _ => ⟨fun lock _ => ?_, fun _ => rfl⟩, fun _ => rfl⟩
  refine wp_reconcileExpired hs fun unsettled db₁ hev => ?_
  have hev' : Evolves (fun _ l => l.claimsFrom token) db db₁ :=
    hev.mono fun _ _ => Label.claimsFrom_of_closes
  simp only [wp_selectRows, wp_pure]
  rw [wp_ite]
  refine ⟨fun _ => ⟨hev', by simp⟩, fun _ => ?_⟩
  simp only [wp_bind, wp_read, wp_selectRows, wp_pure]
  refine wp_claimFirst (hev.sound hs) le_rfl (fun db₂ hev₂ => ⟨hev'.trans hev₂, by simp⟩)
    fun claim db₂ hev₂ htoken hclaim => ⟨hev'.trans hev₂, ?_⟩
  rintro _ ⟨⟩
  exact ⟨htoken, hclaim⟩

/-- The claims a batch has drawn so far, with the tokens from `first` on. -/
structure BatchInv (first : LeaseToken) (db : DB) (claims : List ActivityClaim) (db' : DB) :
    Prop where
  evolves : Evolves (fun _ l => l.claimsFrom first) db db'
  claims : ∀ claim ∈ claims, claim.leaseToken < first + claims.length ∧ ActivityClaimInv db' claim

namespace BatchInv

variable {first : LeaseToken} {claims : List ActivityClaim} {db₁ db₂ : DB}

/-- Steps that draw only later tokens. -/
theorem trans (h : BatchInv first db claims db₁) (hs : db.Sound)
    (hev : Evolves (fun _ l => l.claimsFrom (first + claims.length)) db₁ db₂) :
    BatchInv first db claims db₂ where
  evolves := by
    refine h.evolves.trans (hev.mono fun _ l hl => ?_)
    cases l with
    | activityClaimed a t =>
      exact decide_eq_true ((Nat.le_add_right _ _).trans (of_decide_eq_true hl))
    | _ => exact hl
  claims claim hclaim := by
    obtain ⟨htoken, hinv⟩ := h.claims claim hclaim
    refine ⟨htoken, hinv.evolves (h.evolves.sound hs) hev ?_⟩
    rintro _ _ hl rfl
    exact absurd (of_decide_eq_true hl) (Nat.not_le_of_lt htoken)

/-- One more claim. -/
theorem add (h : BatchInv first db claims db₁) {claim : ActivityClaim}
    (htoken : claim.leaseToken = first + claims.length) (hclaim : ActivityClaimInv db₁ claim) :
    BatchInv first db (claims ++ [claim]) db₁ where
  evolves := h.evolves
  claims claim' hmem := by
    rw [List.length_append, List.length_singleton]
    rcases List.mem_append.mp hmem with hmem | hmem
    · obtain ⟨hlt, hinv⟩ := h.claims claim' hmem
      exact ⟨hlt.trans (Nat.lt_succ_self _), hinv⟩
    · obtain rfl := List.mem_singleton.mp hmem
      exact ⟨htoken ▸ Nat.lt_succ_self _, hclaim⟩

end BatchInv

theorem wp_claimUpTo {registry : ActivityRegistry} {limit wanted : ℕ} {workerId : String}
    {first : LeaseToken} {candidates : List ActivityRow} {claims : List ActivityClaim} {db₀ : DB}
    (hs : db₀.Sound) (h : BatchInv first db₀ claims db) :
    wp (claimUpTo registry locks topic limit wanted now started workerId first candidates claims)
      (fun claims db' => BatchInv first db₀ claims db') Benign db := by
  induction candidates generalizing db claims with
  | nil => exact h
  | cons candidate candidates ih =>
    rw [claimUpTo, wp_ite]
    refine ⟨fun _ => h, fun _ => ?_⟩
    rw [wp_bind]
    refine wp_claimLockedCandidate (h.evolves.sound hs) le_rfl (fun db₁ hev => ?_)
      fun claim db₁ hev htoken hclaim => ih ((h.trans hs hev).add htoken hclaim)
    rw [Option.toList_none, List.append_nil]
    exact ih (h.trans hs hev)

theorem wp_claimTopics {registry : ActivityRegistry} {limit : ℕ} {capacity : List (String × ℕ)}
    {workerId : String} {first : LeaseToken} {locked : List TopicLockRow}
    {claims : List ActivityClaim} {db₀ : DB} (hs : db₀.Sound) (h : BatchInv first db₀ claims db) :
    wp (claimTopics externals registry locks limit capacity workerId first now started locked claims)
      (fun claims db' => BatchInv first db₀ claims db') Benign db := by
  induction locked generalizing db claims with
  | nil => exact h
  | cons lock locked ih =>
    simp only [claimTopics, inFlight, claimCandidates, wp_bind]
    refine wp_reconcileExpired (h.evolves.sound hs) fun unsettled db₁ hev => ?_
    have h₁ := h.trans hs (hev.mono fun _ _ => Label.claimsFrom_of_closes)
    simp only [wp_selectRows, wp_pure]
    rw [wp_ite]
    refine ⟨fun _ => ih h₁, fun _ => ?_⟩
    rw [wp_ite]
    refine ⟨fun _ => h₁, fun _ => ?_⟩
    simp only [wp_bind, wp_read, wp_selectRows, wp_pure]
    exact wp_imp (wp_claimUpTo hs h₁) fun claims db₂ h₂ => ih h₂

theorem wp_claimBatch {registry : ActivityRegistry} {topics : List TopicDefinition} {limit : ℕ}
    {capacity : List (String × ℕ)} {workerId : String} {first : LeaseToken} (hs : db.Sound) :
    wp (claimBatch externals registry topics locks limit capacity workerId first now started)
      (fun claims db' => BatchInv first db claims db') Benign db := by
  have h : BatchInv first db [] db := ⟨.refl db, by simp⟩
  simp only [claimBatch, wp_bind, wp_read]
  rw [wp_ite]
  exact ⟨fun _ => h, fun _ => wp_claimTopics hs h⟩

-- ════════════════════════════════════════════════════════════════════════
-- Renewals, finishes and progress
-- ════════════════════════════════════════════════════════════════════════

section Holders

variable {claim : ActivityClaim}

/-- The claim holds the lease of its activity. -/
structure ActivityClaim.Holds (claim : ActivityClaim) (db : DB) (act : ActivityRow)
    (attempt : ActivityAttemptRow) (r : WorkflowRow) : Prop where
  leased : Leased db claim.row.id act attempt r
  number : claim.attemptNumber = act.attemptCount
  token : claim.leaseToken = attempt.leaseToken
  follows : claim.row.Follows claim.leaseToken act
  workflow : claim.row.workflowId = act.workflowId

/-- A row that passes the lease fence of a claim is held by it. -/
theorem ActivityClaimInv.holds (h : ActivityClaimInv db claim) (hs : db.Sound)
    (ha : db.activities.find claim.row.id = some act) (hf : claim.leases act = true) :
    ∃ attempt r, claim.Holds db act attempt r := by
  simp only [ActivityClaim.leases, Bool.and_eq_true, beq_iff_eq] at hf
  obtain ⟨⟨hlease, hcount⟩, htoken⟩ := hf
  obtain ⟨attempt, r, hl⟩ := hs.leased ha hlease
  obtain ⟨act', ha', hw, hfollows⟩ := h.stored
  obtain rfl := Option.some_inj.mp (ha.symm.trans ha')
  exact ⟨attempt, r, hl, hcount.symm, Option.some_inj.mp (htoken.symm.trans hl.attempt.token),
    hfollows, hw.symm⟩

namespace ActivityClaim.Holds

/-- The running fence of the claim. -/
theorem fences (h : claim.Holds db act attempt r) (hrun : act.status = .running) :
    claim.fences act = true := by
  simp [ActivityClaim.fences, hrun, h.number, h.token, h.leased.attempt.token]

theorem leases (h : claim.Holds db act attempt r) : claim.leases act = true := by
  simp [ActivityClaim.leases, h.leased.lease, h.number, h.token, h.leased.attempt.token]

/-- The claimed copy of the attempt limit is the current one while the attempt
runs. -/
theorem maxAttempts (h : claim.Holds db act attempt r) (hrun : act.status = .running) :
    claim.row.maxAttempts = act.maxAttempts := by
  have htoken : act.leaseToken = some claim.leaseToken := by rw [h.leased.attempt.token, h.token]
  exact (h.follows.running htoken hrun).2.symm

end ActivityClaim.Holds

/-- The renewal of a lease. -/
theorem wp_heartbeatOnce (hs : db.Sound) (hclaim : ActivityClaimInv db claim) :
    wp (heartbeatOnce claim now) (fun renewed db' =>
      (∃ act attempt r, claim.Holds db act attempt r ∧
        (renewed = .revoked ↔ act.status = .cancelling)) ∧
      Evolves (fun _ l => l = .renewed claim.row.id) db db') Benign db := by
  simp only [heartbeatOnce, wp_bind, wp_orAbort, wp_findRow, activityTable_get]
  refine ⟨fun expiry _ => ⟨fun act hact => ?_, fun _ => rfl⟩, fun _ => rfl⟩
  obtain ⟨ha, hf⟩ := Option.filter_eq_some_iff.mp hact
  obtain ⟨attempt, r, h⟩ := hclaim.holds hs ha hf
  rw [h.number, h.token]
  refine wp_updateLeased h.leased hf (fun _ => rfl) fun db₁ ht => ?_
  have hev : Evolves (fun _ l => l = .renewed claim.row.id) db db₁ :=
    .of_step ht (.renewed h.leased.row h.leased.attempt h.leased.lease expiry now) rfl
  have hlease := h.leased.lease
  split
  · exact ⟨⟨act, attempt, r, h, by simp [*]⟩, hev⟩
  · exact ⟨⟨act, attempt, r, h, by simp [*]⟩, hev⟩
  all_goals
    rename_i hstatus
    simp [hstatus, ActivityStatus.holdsLease] at hlease

/-- The results a handler may return fit the output limit. -/
theorem newActivity_ok {kind : String} {version : ℤ} (output : ActivityOutput) :
    StepResult.newActivity kind version output.val = .ok ⟨kind, version, output.val⟩ := by
  unfold StepResult.newActivity ensureSize
  rw [if_neg (Nat.not_lt_of_le output.property)]
  rfl

/-- The success of a running attempt answers its workflow; only a full log
stands in the way. -/
theorem wp_finishSucceeded {output : ActivityOutput} {Q : Unit → DB → Prop} (hs : db.Sound)
    (h : claim.Holds db act attempt r) (hrun : act.status = .running)
    (hE : I32.max ≤ (db.aggregate act.workflowId).events.length →
      E (.invalidState .eventSequenceOverflow))
    (hQ : ∀ db', (db.aggregate act.workflowId).events.length < I32.max →
      Evolves (fun _ l => l = .succeeded claim.row.id) db db' → Q () db') :
    wp (finishSucceeded claim output.val now) Q E db := by
  simp only [finishSucceeded, finishAttempt, wakeWorkflow, wp_bind, wp_firstRow, wp_ensure,
    wp_ofExcept, newActivity_ok, workflowTable_get]
  rw [h.number, h.token, h.workflow, h.follows.kind.symm, h.follows.version.symm,
    h.follows.command.symm]
  refine wp_updateLeased h.leased (h.fences hrun) (fun _ => rfl) fun db₁ ht₁ => ?_
  obtain ⟨hstatus, hwait⟩ := h.leased.waits hs hrun
  have hinv := hs.inv h.leased.row
  have hwaits : waitsForActivity claim.row.id r = true :=
    (waitsForActivity_iff hinv.row).mpr ⟨hstatus, hwait⟩
  have hrow : db₁.workflows.find act.workflowId = some r :=
    (congrArg Aggregate.row ht₁.self).trans h.leased.row
  rw [hrow]
  refine ⟨?_, fun h => by cases h⟩
  rintro _ ⟨⟩
  refine ⟨fun _ => ⟨?_, fun _ h => by cases h⟩, fun hne => absurd hwaits hne⟩
  rintro _ ⟨⟩
  have hevents : (db₁.aggregate act.workflowId).events = (db.aggregate act.workflowId).events := by
    rw [ht₁.self]
    rfl
  have hopen : r.status.isTerminal = false := by rw [hstatus]; rfl
  have hnext := hinv.next_delivery hopen hwait
  have hle := length_deliveries_le (db.aggregate act.workflowId).events
  have hdelivery : (db.aggregate act.workflowId).events.length + 1 ≤ I32.max →
      I32.saturatingAdd r.deliveredEventSequence 1 = r.deliveredEventSequence + 1 :=
    fun hroom => I32.saturatingAdd_of_le (by omega)
  refine wp_appendDelivery (hevents ▸ hs.log _) ?_ (.inr ⟨_, rfl, rfl⟩) (fun h => by cases h) (hevents ▸ hE)
    fun e db₂ he hmeta ht₂ => ?_
  · rw [hevents]
    intro hroom
    rw [hdelivery hroom, hnext]
  rw [hevents] at he
  rw [hdelivery he.bounded] at he
  refine wp_updateWorkflow_of ((ht₂.find_of_addEvent _).trans hrow) hwaits fun db₃ ht₃ => ?_
  have hwoken : { r.waitCleared with status := .ready, availableAt := now, updatedAt := now } =
      r.woken now := by
    simp [WorkflowRow.woken, hstatus]
  rw [hwoken] at ht₃
  refine hQ db₃ he.bounded (.of_step ((ht₁.trans ht₂).trans ht₃) ?_ rfl)
  exact .succeeded h.leased.row hstatus hwait h.leased.attempt hrun he hmeta now

/-- The dead letter of a running attempt blocks its workflow; only a full log
stands in the way. -/
theorem wp_deadLetter {category message : String} {Q : Unit → DB → Prop} (hs : db.Sound)
    (h : claim.Holds db act attempt r) (hrun : act.status = .running)
    (hE : I32.max ≤ (db.aggregate act.workflowId).events.length →
      E (.invalidState .eventSequenceOverflow))
    (hQ : ∀ db', (db.aggregate act.workflowId).events.length < I32.max →
      Evolves (fun _ l => l = .deadLettered claim.row.id ∨ l = .history) db db' → Q () db') :
    wp (deadLetter claim act category message now) Q E db := by
  simp only [deadLetter, finishAttempt, wp_bind]
  rw [h.number, h.token]
  refine wp_updateLeased h.leased (h.fences hrun) (fun _ => rfl) fun db₁ ht₁ => ?_
  obtain ⟨hstatus, hwait⟩ := h.leased.waits hs hrun
  have hid : act.id = claim.row.id := h.leased.id_eq
  have hwaits : waitsForActivity act.id r = true :=
    (waitsForActivity_iff (hs.inv h.leased.row).row).mpr ⟨hstatus, hid ▸ hwait⟩
  have hrow : db₁.workflows.find act.workflowId = some r :=
    (congrArg Aggregate.row ht₁.self).trans h.leased.row
  have hevents : (db₁.aggregate act.workflowId).events = (db.aggregate act.workflowId).events := by
    rw [ht₁.self]
    rfl
  refine wp_blockWorkflow (hevents ▸ hs.log _) hrow hwaits (hevents ▸ hE)
    fun e db₂ he hanswers ht₂ => ?_
  rw [hevents] at he
  refine hQ db₂ he.bounded (.of_touches (ht₁.trans ht₂) ?_)
  have hstep : Steps (fun l => l = .deadLettered claim.row.id ∨ l = .history)
      (db.aggregate act.workflowId) _ :=
    .single (.deadLettered h.leased.row hstatus hwait h.leased.attempt hrun .deadLettered category
      message none act.availableAt now) (.inl rfl)
  exact hstep.add_history rfl he hanswers (.inr rfl)

/-- A retry releases the attempt. -/
theorem wp_finishRetry {category message : String} {Q : Unit → DB → Prop} (hs : db.Sound)
    (h : claim.Holds db act attempt r) (hrun : act.status = .running)
    (hleft : act.attemptCount < act.maxAttempts)
    (hQ : ∀ db', Evolves (fun _ l => l = .released claim.row.id ∨ l = .history) db db' →
      Q () db') :
    wp (finishRetry externals claim category message now) Q Benign db := by
  simp only [finishRetry, finishAttempt, appendActivityHistory, wp_bind, wp_ofExcept]
  refine ⟨fun delay _ => ⟨fun millis _ => ?_, benignErrors_durationMillis _⟩,
    benignErrors_delayForAttempt⟩
  rw [h.number, h.token, h.workflow]
  refine wp_updateLeased h.leased (h.fences hrun) (fun _ => rfl) fun db₁ ht₁ => ?_
  have hevents : (db₁.aggregate act.workflowId).events = (db.aggregate act.workflowId).events := by
    rw [ht₁.self]
    rfl
  refine wp_appendHistoryEvent (hevents ▸ hs.log _) (fun _ => rfl) (fun _ h => by cases h) rfl
    fun e db₂ he hanswers ht₂ =>
    hQ db₂ (.of_touches (ht₁.trans ht₂) ?_)
  rw [hevents] at he
  have hstep : Steps (fun l => l = .released claim.row.id ∨ l = .history)
      (db.aggregate act.workflowId) _ :=
    .single (.released h.leased.row h.leased.attempt hrun hleft .retryableFailure (some category)
      (some message) none (DbMillis.saturatingPlusMillis now millis) act.completedAt now) (.inl rfl)
  exact hstep.add_history h.leased.row he hanswers (.inr rfl)

/-- A cancelling row records the outcome its revoke has. -/
theorem DB.Sound.revokeOutcome (hs : db.Sound) (ha : db.activities.find a = some act)
    (hcancel : act.status = .cancelling) :
    ∃ outcome : AttemptOutcome, outcome.isRevoke = true ∧
      act.lastErrorCategory = some outcome.asStr ∧
      DurableWorkflows.revokeOutcome act = .ok outcome := by
  obtain ⟨r, hr⟩ := hs.row_of_activity ha
  obtain ⟨outcome, hrevoke, hcategory⟩ := ((hs.inv hr).ledger a act (activity_of_find ha)).revoke
    hcancel
  refine ⟨outcome, hrevoke, hcategory, ?_⟩
  simp [DurableWorkflows.revokeOutcome, hcategory]

/-- The steps of a finish of a running attempt of `a`. -/
def Label.finishes (a : ActivityId) : Label → Bool
  | .succeeded b | .released b | .deadLettered b => b == a
  | .history => true
  | _ => false

/-- What a finish does: it ends a running attempt, or settles a revoked one with
the outcome the revoke recorded. -/
structure Finishes (claim : ActivityClaim) (db db' : DB) (act : ActivityRow) : Prop where
  held : ∃ attempt r, claim.Holds db act attempt r
  running : act.status = .running → Evolves (fun _ l => l.finishes claim.row.id) db db'
  cancelling : act.status = .cancelling →
    Evolves (fun _ l => l = .settled claim.row.id ∨ l = .history) db db' ∧
    ∃ outcome attempt', DurableWorkflows.revokeOutcome act = .ok outcome ∧
      db'.attempts claim.row.id claim.attemptNumber = some attempt' ∧
      attempt'.finishedAt.isSome ∧ attempt'.outcome = some outcome

theorem Finishes.evolves (h : Finishes claim db db' act) :
    Evolves (fun _ l => l.finishes claim.row.id ∨ l = .settled claim.row.id) db db' := by
  obtain ⟨attempt, r, hheld⟩ := h.held
  have hlease := hheld.leased.lease
  cases hs : act.status with
  | running => exact (h.running hs).mono fun _ _ hl => .inl hl
  | cancelling =>
    refine (h.cancelling hs).1.mono fun _ l hl => ?_
    rcases hl with rfl | rfl
    · exact .inr rfl
    · exact .inl rfl
  | _ => simp [hs, ActivityStatus.holdsLease] at hlease

/-- A finish by the holder of a lease. Only a claim whose renewal found it
revoked may finish as revoked. -/
theorem wp_finishOnConnection {outcome : ExecutionOutcome} (hs : db.Sound)
    (hclaim : ActivityClaimInv db claim)
    (hrevoked : outcome = .revoked → ∀ act, db.activities.find claim.row.id = some act →
      act.leaseToken = some claim.leaseToken → act.status ≠ .running) :
    wp (finishOnConnection externals claim outcome now) (fun _ db' => ∃ act, Finishes claim db db' act)
      Benign db := by
  simp only [finishOnConnection, wp_bind, wp_firstRow, wp_findRow, wp_orAbort, activityTable_get]
  refine ⟨fun _ _ => ⟨fun act hact => ?_, fun _ => rfl⟩, fun _ => rfl⟩
  obtain ⟨ha, hf⟩ := Option.filter_eq_some_iff.mp hact
  obtain ⟨attempt, r, h⟩ := hclaim.holds hs ha hf
  have hlease := h.leased.lease
  have hran : ∀ db', act.status = .running →
      Evolves (fun _ l => l.finishes claim.row.id) db db' → ∃ act, Finishes claim db db' act :=
    fun db' hrun hev => ⟨act, ⟨attempt, r, h⟩, fun _ => hev, fun hcancel => by simp [hrun] at hcancel⟩
  split
  · -- a revoked attempt is settled, whatever the handler returned
    rename_i hcancel
    obtain ⟨outcome, -, -, hok⟩ := hs.revokeOutcome ha hcancel
    rw [wp_bind, wp_ofExcept, hok]
    refine ⟨?_, fun _ h => by cases h⟩
    rintro _ ⟨⟩
    have hid : act.id = claim.row.id := h.leased.id_eq
    refine wp_settleRevoked (P := fun _ l => l = .settled claim.row.id ∨ l = .history) hs
      (hid.symm ▸ h.leased) hcancel (fun _ => rfl) (.inl (hid ▸ rfl)) (.inr rfl)
      fun db' hev hattempt => ?_
    rw [hid, ← h.number] at hattempt
    refine ⟨act, ⟨attempt, r, h⟩, fun hrun => ?_, fun _ => ⟨hev, outcome, _, hok, hattempt, rfl, rfl⟩⟩
    simp [hcancel] at hrun
  · rename_i hrun
    exact absurd hrun (hrevoked rfl act ha (by rw [h.leased.attempt.token, h.token]))
  · rename_i hrun
    refine wp_finishSucceeded hs h hrun (fun _ => rfl) fun db' _ hev => hran db' hrun (hev.mono ?_)
    rintro _ _ rfl
    exact beq_self_eq_true _
  · rename_i hrun
    rw [wp_ite]
    refine ⟨fun _ => ?_, fun hleft => ?_⟩
    · refine wp_deadLetter hs h hrun (fun _ => rfl) fun db' _ hev => hran db' hrun (hev.mono ?_)
      rintro _ _ (rfl | rfl)
      · exact beq_self_eq_true _
      · rfl
    · rw [h.maxAttempts hrun, h.number] at hleft
      refine wp_finishRetry hs h hrun (Nat.lt_of_not_le hleft) fun db' hev =>
        hran db' hrun (hev.mono ?_)
      rintro _ _ (rfl | rfl)
      · exact beq_self_eq_true _
      · rfl
  · rename_i hrun
    refine wp_deadLetter hs h hrun (fun _ => rfl) fun db' _ hev => hran db' hrun (hev.mono ?_)
    rintro _ _ (rfl | rfl)
    · exact beq_self_eq_true _
    · rfl
  all_goals
    rename_i hstatus
    simp [hstatus, ActivityStatus.holdsLease] at hlease

/-- The finishes that end an attempt for good. -/
def ExecutionOutcome.isFinal (claim : ActivityClaim) : ExecutionOutcome → Bool
  | .succeeded _ | .permanent .. => true
  | .retryable .. => claim.row.maxAttempts ≤ claim.attemptNumber
  | .revoked => false

/-- A success or a dead letter by the holder of a running attempt fails on a
full log only. -/
theorem wp_finishOnConnection_final {outcome : ExecutionOutcome} (hs : db.Sound)
    (hclaim : ActivityClaimInv db claim) (ha : db.activities.find claim.row.id = some act)
    (hf : claim.fences act = true) (hfinal : outcome.isFinal claim = true) :
    wp (finishOnConnection externals claim outcome now)
      (fun _ _ => (db.aggregate act.workflowId).events.length < I32.max)
      (fun e => e = .invalidState .eventSequenceOverflow ∧
        I32.max ≤ (db.aggregate act.workflowId).events.length) db := by
  have hrun : act.status = .running := by
    simp only [ActivityClaim.fences, Bool.and_eq_true, beq_iff_eq] at hf
    exact hf.1.1
  have hleases : claim.leases act = true := by
    simp only [ActivityClaim.fences, ActivityClaim.leases, Bool.and_eq_true, beq_iff_eq] at hf ⊢
    exact ⟨⟨by rw [hrun]; rfl, hf.1.2⟩, hf.2⟩
  obtain ⟨attempt, r, h⟩ := hclaim.holds hs ha hleases
  simp only [finishOnConnection, wp_bind, wp_firstRow, wp_findRow, wp_orAbort, activityTable_get,
    workflowTable_get, h.workflow, h.leased.row, ha, Option.filter_some, hleases, if_true]
  refine ⟨fun _ _ => ⟨?_, fun h => by cases h⟩, fun h => by cases h⟩
  rintro _ ⟨⟩
  rw [hrun]
  cases outcome with
  | succeeded output =>
    exact wp_finishSucceeded hs h hrun (fun hfull => ⟨rfl, hfull⟩) fun _ hroom _ => hroom
  | retryable category message =>
    dsimp only
    rw [if_pos (of_decide_eq_true hfinal)]
    exact wp_deadLetter hs h hrun (fun hfull => ⟨rfl, hfull⟩) fun _ hroom _ => hroom
  | permanent category message =>
    exact wp_deadLetter hs h hrun (fun hfull => ⟨rfl, hfull⟩) fun _ hroom _ => hroom
  | revoked => cases hfinal

theorem benignErrors_validateMetadata {metadata : String} :
    BenignErrors (validateMetadata externals metadata) := by
  refine .bind (.ensureSize _ _ _) fun _ _ => ?_
  split
  · exact .error rfl
  · exact .ok ()

theorem benignErrors_validateEvent {event : ProgressEvent} :
    BenignErrors (validateEvent externals event) := by
  refine .bind (.rejectIf rfl) fun _ _ => .bind (.ensureSize _ _ _) fun _ _ =>
    .bind ?_ fun _ _ => .rejectIf rfl
  cases event.metadataJson with
  | none => exact .ok ()
  | some metadata => exact benignErrors_validateMetadata

/-- A progress report is made by a running attempt, and adds nothing but its
row. -/
theorem wp_report {event : ProgressEvent} (hs : db.Sound) (hclaim : ActivityClaimInv db claim) :
    wp (report externals claim event now) (fun _ db' =>
      (∃ act attempt r, claim.Holds db act attempt r ∧ act.status = .running) ∧
      Evolves (fun _ _ => False) db db') Benign db := by
  simp only [report, wp_bind, wp_ofExcept, wp_findRow, wp_ensure, wp_read, activityTable_get]
  refine ⟨fun _ _ => ⟨fun hany => ?_, fun _ => rfl⟩, benignErrors_validateEvent⟩
  have hheld : ∃ act attempt r, claim.Holds db act attempt r ∧ act.status = .running := by
    cases ha : db.activities.find claim.row.id with
    | none => simp [ha] at hany
    | some act =>
      rw [ha, Option.any_some] at hany
      simp only [ActivityClaim.fences, Bool.and_eq_true, beq_iff_eq] at hany
      have hleases : claim.leases act = true := by
        simp [ActivityClaim.leases, hany.1.1, hany.1.2, hany.2, ActivityStatus.holdsLease]
      obtain ⟨attempt, r, h⟩ := hclaim.holds hs ha hleases
      exact ⟨act, attempt, r, h, hany.1.1⟩
  rw [wp_ite]
  refine ⟨fun _ => ⟨hheld, .refl db⟩, fun _ => ?_⟩
  simp only [wp_bind, wp_orAbort, wp_ensure, wp_modify, wp_pure]
  refine ⟨fun _ _ => ⟨fun _ => ⟨hheld, ?_⟩, fun _ => rfl⟩, fun _ => rfl⟩
  exact .of_aggregate_eq (fun _ => rfl) id

end Holders

end DurableWorkflows
