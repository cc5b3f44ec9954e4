import DurableWorkflows.Engine.Quarantine
import DurableWorkflows.Engine.RetryDelays

/-!
# Reconciliation

A claim first takes back the expired leases of its topic. A workflow has one live activity at most,
so no two of these leases are beside each other: what the loop does to a row, and whether it fails,
is read off the rows and logs that it starts from.

## Main definitions

- `ActivityRow.takenBack`: an activity after its expired lease is taken back
- `DB.Reconciles`: the logs have room for a reconciliation
- `DB.Reconciled`: what a reconciliation comes to

## Main results

- `wp_reconcileExpired_exact`
- `DB.Reconciled.find_activity`, `DB.Reconciled.inFlight_eq`
-/

namespace DurableWorkflows

open Transaction

variable {db db' : DB} {g g' : Aggregate} {r : WorkflowRow} {act : ActivityRow}
  {a : ActivityId} {w : WorkflowId} {now : DbMillis} {locks : HeldLocks} {topic : String}
  {externals : Externals}

-- ════════════════════════════════════════════════════════════════════════
-- One lease
-- ════════════════════════════════════════════════════════════════════════

section Rows

/-- A reconciliation takes the lease back: it is expired, and its workflow is free. -/
def HeldLocks.takesBack (locks : HeldLocks) (topic : String) (now : DbMillis)
    (act : ActivityRow) : Bool :=
  expiredHolder topic now act && !locks.workflows act.workflowId

/-- The activity after its expired lease is taken back; `closed` says that its workflow has
ended. -/
def ActivityRow.takenBack (externals : Externals) (closed : Bool) (now : DbMillis)
    (act : ActivityRow) : ActivityRow :=
  match act.status with
  | .running =>
    -- the delay of a retry has no error once an attempt has run
    match recoveryAvailableAt externals act (act.maxAttempts ≤ act.attemptCount) now with
    | .ok availableAt => act.expired (act.maxAttempts ≤ act.attemptCount) availableAt now
    | .error _ => act
  | .cancelling => act.settled closed now
  | .pending | .succeeded | .deadLettered | .cancelled => act

/-- The events of taking a lease back: a dead letter also blocks its workflow. -/
def ActivityRow.expiryEvents (act : ActivityRow) : ℕ :=
  if act.status = .running ∧ act.maxAttempts ≤ act.attemptCount then 2 else 1

/-- What taking back the lease of `act` comes to in its workflow. -/
structure TakesBack (externals : Externals) (now : DbMillis) (act : ActivityRow)
    (g g' : Aggregate) : Prop where
  activities : g'.activities = Function.update g.activities act.id
    (some (act.takenBack externals (g.row.any (·.status.isTerminal)) now))
  events : g'.events.length = g.events.length + act.expiryEvents
  row : act.expiryEvents = 1 → g'.row = g.row

theorem ActivityRow.takenBack_same (closed : Bool) :
    (act.takenBack externals closed now).id = act.id ∧
      (act.takenBack externals closed now).workflowId = act.workflowId ∧
        (act.takenBack externals closed now).topic = act.topic := by
  unfold ActivityRow.takenBack
  split
  · split <;> exact ⟨rfl, rfl, rfl⟩
  all_goals exact ⟨rfl, rfl, rfl⟩

theorem ActivityRow.takenBack_id (closed : Bool) :
    (act.takenBack externals closed now).id = act.id := (takenBack_same closed).1

theorem ActivityRow.takenBack_workflowId (closed : Bool) :
    (act.takenBack externals closed now).workflowId = act.workflowId := (takenBack_same closed).2.1

theorem ActivityRow.takenBack_topic (closed : Bool) :
    (act.takenBack externals closed now).topic = act.topic := (takenBack_same closed).2.2

/-- The lease is given up. -/
theorem ActivityRow.takenBack_holdsLease (hlease : act.status.holdsLease = true)
    (hattempt : 1 ≤ act.attemptCount) (closed : Bool) :
    (act.takenBack externals closed now).status.holdsLease = false := by
  unfold ActivityRow.takenBack
  split
  · obtain ⟨availableAt, hok⟩ : ∃ availableAt, recoveryAvailableAt externals act
        (act.maxAttempts ≤ act.attemptCount) now = .ok availableAt :=
      recoveryAvailableAt_ok hattempt
    rw [hok]
    show (if _ then _ else _ : ActivityStatus).holdsLease = false
    split <;> rfl
  · show (if _ then _ else _ : ActivityStatus).holdsLease = false
    split <;> rfl
  all_goals
    rename_i hstatus
    rw [hstatus] at hlease
    cases hlease

/-- A lease whose activity is pending afterwards adds one event. -/
theorem ActivityRow.expiryEvents_of_pending {closed : Bool}
    (h : (act.takenBack externals closed now).status = .pending) : act.expiryEvents = 1 := by
  refine if_neg fun hdead => ?_
  obtain ⟨hrun, hex⟩ := hdead
  rw [ActivityRow.takenBack, hrun] at h
  simp only [hex, decide_true] at h
  cases hdelay : recoveryAvailableAt externals act true now with
  | ok availableAt =>
    rw [hdelay] at h
    cases h
  | error e =>
    rw [hdelay] at h
    exact absurd (hrun.symm.trans h) (by decide)

theorem holdsSlot_eq (status : ActivityStatus) : status.holdsSlot = status.holdsLease := by
  cases status <;> rfl

/-- A lease has expired, or it expires later. -/
theorem all_le_eq (expiresAt : Option DbMillis) :
    expiresAt.all (· ≤ now) = !expiresAt.any (now < ·) := by
  cases expiresAt with
  | none => rfl
  | some t => rw [Option.all_some, Option.any_some, ← decide_not, decide_eq_decide, not_lt]

theorem live_of_takesBack (h : locks.takesBack topic now act = true) :
    act.status.holdsLease = true ∧ act.status.isTerminal = false := by
  rw [HeldLocks.takesBack, expiredHolder, Bool.and_eq_true, Bool.and_eq_true, Bool.and_eq_true] at h
  exact ⟨h.1.1.2, live_of_holdsLease h.1.1.2⟩

theorem topic_of_takesBack (h : locks.takesBack topic now act = true) : act.topic = topic := by
  rw [HeldLocks.takesBack, expiredHolder, Bool.and_eq_true, Bool.and_eq_true, Bool.and_eq_true,
    beq_iff_eq] at h
  exact h.1.1.1

/-- The expiry of a running attempt takes its lease back, if the log has room for it. -/
theorem wp_expireRunning_exact {attempt : ActivityAttemptRow} (hs : db.Sound)
    (hl : Leased db act.id act attempt r) (hrun : act.status = .running) :
    wp (expireRunning externals r act now)
      (fun _ db' => (db.aggregate act.workflowId).events.length + act.expiryEvents ≤ I32.max ∧
        TakesBack externals now act (db.aggregate act.workflowId) (db'.aggregate act.workflowId) ∧
        ∀ w, w ≠ act.workflowId → db'.aggregate w = db.aggregate w)
      (fun _ => ¬(db.aggregate act.workflowId).events.length + act.expiryEvents ≤ I32.max) db := by
  have hattempt : 1 ≤ act.attemptCount :=
    ((hs.inv hl.row).ledger _ act hl.attempt.stored).started hl.lease
  have hevents : act.expiryEvents = if act.maxAttempts ≤ act.attemptCount then 2 else 1 := by
    rw [ActivityRow.expiryEvents, hrun]
    exact if_congr (and_iff_right rfl) rfl rfl
  refine wp_expireRunning_touches hs hl hrun ?_ ?_ ?_ ?_
  · intro e he
    obtain ⟨availableAt, hok⟩ : ∃ availableAt, recoveryAvailableAt externals act
        (act.maxAttempts ≤ act.attemptCount) now = .ok availableAt :=
      recoveryAvailableAt_ok hattempt
    rw [hok] at he
    cases he
  · intro hfull
    rw [hevents]
    exact not_le.mpr hfull
  · intro availableAt e db' hcount hok he _ ht
    have hex : ¬act.maxAttempts ≤ act.attemptCount := not_le.mpr hcount
    rw [hevents, if_neg hex]
    refine ⟨he.bounded, ⟨?_, ?_, fun _ => ?_⟩, ht.other⟩
    · rw [ht.self, ActivityRow.takenBack, hrun]
      simp only [hex, decide_false, hok]
      rfl
    · rw [ht.self, ActivityRow.expiryEvents, if_neg fun h => hex h.2]
      exact List.length_append
    · rw [ht.self]
      rfl
  · intro availableAt e e' db' hex hok he _ he' _ ht
    have hbounded := he'.bounded
    rw [List.length_append, List.length_singleton] at hbounded
    rw [hevents, if_pos hex]
    refine ⟨hbounded, ⟨?_, ?_, fun hone => ?_⟩, ht.other⟩
    · rw [ht.self, ActivityRow.takenBack, hrun]
      simp only [hex, decide_true, hok]
      rfl
    · rw [ht.self, hevents, if_pos hex]
      show ((_ ++ [e]) ++ [e']).length = _
      rw [List.length_append, List.length_append]
      rfl
    · rw [hevents, if_pos hex] at hone
      cases hone

/-- The settlement of a revoked attempt takes its lease back, if the log has room for it. -/
theorem wp_settleRevoked_exact {attempt : ActivityAttemptRow} {outcome : AttemptOutcome}
    {message : String} (hs : db.Sound) (hl : Leased db act.id act attempt r)
    (hcancel : act.status = .cancelling) :
    wp (settleRevoked act outcome message now)
      (fun _ db' => (db.aggregate act.workflowId).events.length + act.expiryEvents ≤ I32.max ∧
        TakesBack externals now act (db.aggregate act.workflowId) (db'.aggregate act.workflowId) ∧
        ∀ w, w ≠ act.workflowId → db'.aggregate w = db.aggregate w)
      (fun _ => ¬(db.aggregate act.workflowId).events.length + act.expiryEvents ≤ I32.max) db := by
  have hevents : act.expiryEvents = 1 := by
    rw [ActivityRow.expiryEvents, hcancel]
    exact if_neg fun h => by cases h.1
  rw [hevents]
  refine wp_settleRevoked_touches hs hl hcancel ?_ ?_
  · intro hfull
    omega
  · intro e db' he _ ht
    refine ⟨he.bounded, ⟨?_, ?_, fun _ => ?_⟩, ht.other⟩
    · rw [ht.self, ActivityRow.takenBack, hcancel, aggregate_row, hl.row]
      rfl
    · rw [ht.self, hevents]
      exact List.length_append
    · rw [ht.self]
      rfl

/-- A candidate whose workflow is held stays as it is. -/
theorem reconcileCandidate_held (hs : db.Sound) (hact : db.activities.find act.id = some act)
    (hheld : locks.workflows act.workflowId = true) :
    reconcileCandidate externals locks topic now act db = .ok (true, db) := by
  obtain ⟨r, hr⟩ := hs.row_of_activity hact
  have hid : r.id = act.workflowId := Table.key_of_find hr
  unfold reconcileCandidate
  refine (bind_of_ok (a := db.workflows.find act.workflowId) rfl).trans ?_
  rw [hr, Option.filter_some, hid, hheld]
  rfl

/-- A candidate whose workflow is free is taken back. -/
theorem wp_reconcileCandidate_exact (hs : db.Sound) (hact : db.activities.find act.id = some act)
    (htakes : locks.takesBack topic now act = true) :
    wp (reconcileCandidate externals locks topic now act)
      (fun skipped db' => skipped = false ∧
        (db.aggregate act.workflowId).events.length + act.expiryEvents ≤ I32.max ∧
        TakesBack externals now act (db.aggregate act.workflowId) (db'.aggregate act.workflowId) ∧
        ∀ w, w ≠ act.workflowId → db'.aggregate w = db.aggregate w)
      (fun _ => ¬(db.aggregate act.workflowId).events.length + act.expiryEvents ≤ I32.max) db := by
  obtain ⟨hlease, -⟩ := live_of_takesBack htakes
  obtain ⟨attempt, r, hl⟩ := hs.leased hact hlease
  have hid : r.id = act.workflowId := Table.key_of_find hl.row
  rw [HeldLocks.takesBack, Bool.and_eq_true] at htakes
  obtain ⟨hexpired, hfree⟩ := htakes
  simp only [reconcileCandidate, wp_bind, wp_findRow, workflowTable_get, hl.row, Option.filter_some,
    hid, hfree, if_true, activityTable_get, hact, hexpired]
  cases hstatus : act.status with
  | running =>
    simp only [wp_bind]
    exact wp_imp (wp_expireRunning_exact hs hl hstatus) fun _ db' h => ⟨rfl, h⟩
  | cancelling =>
    simp only [wp_bind]
    exact wp_imp (wp_settleRevoked_exact hs hl hstatus) fun _ db' h => ⟨rfl, h⟩
  | pending | succeeded | deadLettered | cancelled =>
    rw [hstatus] at hlease
    cases hlease

end Rows

-- ════════════════════════════════════════════════════════════════════════
-- All leases of a topic
-- ════════════════════════════════════════════════════════════════════════

section Loop

/-- The logs have room for the leases that a reconciliation takes back. -/
def DB.Reconciles (db : DB) (locks : HeldLocks) (topic : String) (now : DbMillis) : Prop :=
  ∀ act ∈ db.activities.select (locks.takesBack topic now),
    (db.aggregate act.workflowId).events.length + act.expiryEvents ≤ I32.max

/-- What a reconciliation comes to: every lease that it takes back is taken back in its workflow,
and the other workflows stay as they are. -/
structure DB.Reconciled (externals : Externals) (locks : HeldLocks) (topic : String)
    (now : DbMillis) (db db' : DB) : Prop where
  evolves : Evolves (fun _ l => l.closes) db db'
  back : ∀ act ∈ db.activities.select (locks.takesBack topic now),
    TakesBack externals now act (db.aggregate act.workflowId) (db'.aggregate act.workflowId)
  same : ∀ w, (∀ act ∈ db.activities.select (locks.takesBack topic now), act.workflowId ≠ w) →
    db'.aggregate w = db.aggregate w

/-- The expired leases of held workflows. -/
def DB.unsettled (db : DB) (locks : HeldLocks) (topic : String) (now : DbMillis) :
    List ActivityId :=
  ((db.activities.select (expiredHolder topic now)).filter fun act =>
    locks.workflows act.workflowId).map (·.id)

/-- Two live activities of one workflow are one. -/
theorem DB.Claims.eq_of_live {act' : ActivityRow} (h : db.Claims)
    (hact : db.activities.find act.id = some act) (hact' : db.activities.find act'.id = some act')
    (hlive : act.status.isTerminal = false) (hlive' : act'.status.isTerminal = false)
    (hw : act'.workflowId = act.workflowId) : act' = act := by
  have hid : act'.id = act.id := h.oneLive act.workflowId act'.id act.id act' act
    (aggregate_activity.mpr ⟨hact', hw⟩) (activity_of_find hact) hlive' hlive
  rw [hid, hact] at hact'
  exact (Option.some_inj.mp hact').symm

/-- The reconciliation of a topic, from one state to the next. -/
structure Halfway (externals : Externals) (locks : HeldLocks) (now : DbMillis) (db : DB)
    (before : List ActivityRow) (unsettled : List ActivityId) (db' : DB) : Prop where
  evolves : Evolves (fun _ l => l.closes) db db'
  unsettled_eq : unsettled =
    (before.filter fun act => locks.workflows act.workflowId).map (·.id)
  back : ∀ act ∈ before, locks.workflows act.workflowId = false →
    (db.aggregate act.workflowId).events.length + act.expiryEvents ≤ I32.max ∧
      TakesBack externals now act (db.aggregate act.workflowId) (db'.aggregate act.workflowId)
  same : ∀ w, (∀ act ∈ before, locks.workflows act.workflowId = false → act.workflowId ≠ w) →
    db'.aggregate w = db.aggregate w

namespace Halfway

variable {before : List ActivityRow} {unsettled : List ActivityId} {db₁ db₂ : DB}

theorem nil : Halfway externals locks now db [] [] db where
  evolves := .refl db
  unsettled_eq := rfl
  back _ h := by cases h
  same _ _ := rfl

/-- The lease of a held workflow stays unsettled. -/
theorem held (h : Halfway externals locks now db before unsettled db₁)
    (hheld : locks.workflows act.workflowId = true) :
    Halfway externals locks now db (before ++ [act]) (unsettled ++ [act.id]) db₁ where
  evolves := h.evolves
  unsettled_eq := by simp [h.unsettled_eq, hheld]
  back act' hact' hfree := by
    rcases List.mem_append.mp hact' with hact' | hact'
    · exact h.back act' hact' hfree
    · rw [List.mem_singleton.mp hact', hheld] at hfree
      cases hfree
  same w hw := h.same w fun act' hact' => hw act' (List.mem_append_left _ hact')

/-- The lease of a free workflow is taken back. -/
theorem free (h : Halfway externals locks now db before unsettled db₁)
    (hfresh : ∀ act' ∈ before, locks.workflows act'.workflowId = false →
      act'.workflowId ≠ act.workflowId)
    (hfree : locks.workflows act.workflowId = false)
    (hev : Evolves (fun _ l => l.closes) db₁ db₂)
    (hbounded : (db.aggregate act.workflowId).events.length + act.expiryEvents ≤ I32.max)
    (hback : TakesBack externals now act (db.aggregate act.workflowId)
      (db₂.aggregate act.workflowId))
    (hother : ∀ w, w ≠ act.workflowId → db₂.aggregate w = db₁.aggregate w) :
    Halfway externals locks now db (before ++ [act]) unsettled db₂ where
  evolves := h.evolves.trans hev
  unsettled_eq := by simp [h.unsettled_eq, hfree]
  back act' hact' hfree' := by
    rcases List.mem_append.mp hact' with hact' | hact'
    · rw [hother act'.workflowId (hfresh act' hact' hfree')]
      exact h.back act' hact' hfree'
    · rw [List.mem_singleton.mp hact']
      exact ⟨hbounded, hback⟩
  same w hw := by
    rw [hother w (hw act (by simp) hfree).symm]
    exact h.same w fun act' hact' => hw act' (List.mem_append_left _ hact')

end Halfway

/-- **The reconciliation of a topic** takes back all expired leases of free workflows, or the log
of one of them has no room for it. -/
theorem wp_reconcileExpired_exact (h : db.Claims) :
    wp (reconcileExpired externals locks topic now)
      (fun unsettled db' => unsettled = db.unsettled locks topic now ∧
        db.Reconciles locks topic now ∧ db.Reconciled externals locks topic now db')
      (fun _ => ¬db.Reconciles locks topic now) db := by
  have hmem : ∀ act, act ∈ db.activities.select (locks.takesBack topic now) ↔
      act ∈ db.activities.select (expiredHolder topic now) ∧
        locks.workflows act.workflowId = false := by
    intro act
    rw [Table.mem_select, Table.mem_select, HeldLocks.takesBack, Bool.and_eq_true, and_assoc,
      Bool.not_eq_true']
  simp only [reconcileExpired, wp_bind, wp_selectRows]
  refine wp_imp (wp_foldEach (Halfway externals locks now db) ?_ .nil) ?_
  · intro before act after hsplit unsettled db₁ hhalf
    have hall : ∀ act' ∈ before ++ [act],
        act' ∈ db.activities.select (expiredHolder topic now) := by
      intro act' hact'
      rw [show db.activities.select _ = _ from hsplit, List.append_cons]
      exact List.mem_append_left _ hact'
    obtain ⟨hfind, hexpired⟩ := Table.mem_select.mp (hall act (by simp))
    have hlease : act.status.holdsLease = true := by
      rw [expiredHolder, Bool.and_eq_true, Bool.and_eq_true] at hexpired
      exact hexpired.1.2
    -- no lease of this workflow is taken back before
    have hfresh : ∀ act' ∈ before, locks.workflows act'.workflowId = false →
        act'.workflowId ≠ act.workflowId := by
      intro act' hact' _ hw
      obtain ⟨hfind', hexpired'⟩ := Table.mem_select.mp (hall act' (List.mem_append_left _ hact'))
      rw [expiredHolder, Bool.and_eq_true, Bool.and_eq_true] at hexpired'
      obtain rfl := h.eq_of_live hfind hfind' (live_of_holdsLease hlease)
        (live_of_holdsLease hexpired'.1.2) hw
      have hsorted : (db.activities.select (expiredHolder topic now)).Pairwise
          fun r r' => r.id < r'.id := Table.pairwise_select
      rw [show db.activities.select _ = _ from hsplit, List.pairwise_append] at hsorted
      exact lt_irrefl _ (hsorted.2.2 act' hact' act' List.mem_cons_self)
    have hsame := hhalf.same act.workflowId hfresh
    have hfind₁ : db₁.activities.find act.id = some act := by
      have hact := activity_of_find hfind
      rw [← hsame] at hact
      exact (aggregate_activity.mp hact).1
    have hs₁ : db₁.Sound := hhalf.evolves.sound h.sound
    rw [wp_bind]
    cases hheld : locks.workflows act.workflowId with
    | true =>
      refine wp_eq_ok (reconcileCandidate_held hs₁ hfind₁ hheld) ?_
      exact hhalf.held hheld
    | false =>
      have htakes : locks.takesBack topic now act = true := by
        rw [HeldLocks.takesBack, hexpired, hheld]
        rfl
      have hroom : ∀ e : DurableError, ¬(db₁.aggregate act.workflowId).events.length +
          act.expiryEvents ≤ I32.max → ¬db.Reconciles locks topic now := by
        intro e hfull hfits
        rw [hsame] at hfull
        exact hfull (hfits act ((hmem act).mpr ⟨hall act (by simp), hheld⟩))
      have hev : wp (reconcileCandidate externals locks topic now act)
          (fun _ db₂ => Evolves (fun _ l => l.closes) db₁ db₂) Benign db₁ := by
        refine wp_reconcileCandidate hs₁ (fun act' hact' => ?_) fun _ _ hev => hev
        rw [hfind₁] at hact'
        cases hact'
        rfl
      refine wp_mono (wp_and hev (wp_reconcileCandidate_exact hs₁ hfind₁ htakes)) ?_
        fun e he => hroom e he.2
      rintro skipped db₂ ⟨hev, rfl, hbounded, hback, hother⟩
      rw [hsame] at hbounded hback
      exact hhalf.free hfresh hheld hev hbounded hback hother
  · rintro unsettled db' hhalf
    refine ⟨hhalf.unsettled_eq, fun act hact => ?_, hhalf.evolves, fun act hact => ?_,
      fun w hw => ?_⟩
    · obtain ⟨hmem, hfree⟩ := (hmem act).mp hact
      exact (hhalf.back act hmem hfree).1
    · obtain ⟨hmem, hfree⟩ := (hmem act).mp hact
      exact (hhalf.back act hmem hfree).2
    · exact hhalf.same w fun act hact hfree => hw act ((hmem act).mpr ⟨hact, hfree⟩)

end Loop

-- ════════════════════════════════════════════════════════════════════════
-- The rows after a reconciliation
-- ════════════════════════════════════════════════════════════════════════

section After

/-- The workflow has ended. -/
def DB.ended (db : DB) (w : WorkflowId) : Bool := (db.workflows.find w).any (·.status.isTerminal)

/-- The activities after a reconciliation, beside the other tables as they were. -/
def DB.takenBack (externals : Externals) (locks : HeldLocks) (topic : String) (now : DbMillis)
    (db : DB) : DB :=
  { db with
    activities := db.activities.modifyAll (locks.takesBack topic now)
      (fun act => act.takenBack externals (db.ended act.workflowId) now)
      fun _ => ActivityRow.takenBack_id _ }

/-- The attempts that a claim finds in flight after the reconciliation: a lease that is not taken
back keeps its slot. -/
def DB.occupied (db : DB) (locks : HeldLocks) (topic : String) (now : DbMillis) : ℕ :=
  (db.activities.select fun act => act.topic == topic && act.status.holdsSlot &&
    (act.leaseExpiresAt.any (now < ·) || locks.workflows act.workflowId)).length

/-- The events of a candidate's workflow after the reconciliation. -/
def DB.eventsAfter (db : DB) (locks : HeldLocks) (topic : String) (now : DbMillis)
    (act : ActivityRow) : ℕ :=
  (db.aggregate act.workflowId).events.length +
    if (db.activities.find act.id).any (locks.takesBack topic now) then 1 else 0

theorem find_takenBack : (db.takenBack externals locks topic now).activities.find a =
    (db.activities.find a).map fun act => if locks.takesBack topic now act then
      act.takenBack externals (db.ended act.workflowId) now else act := rfl

theorem find_of_activities {db : DB} (h : (db.aggregate w).activities a = some act) :
    db.activities.find a = some act := (aggregate_activity.mp h).1

namespace DB.Reconciled

variable (h : db.Reconciled externals locks topic now db')

include h

/-- The activities of a workflow change in the lease that is taken back, if there is one. -/
theorem activities_eq_or (w : WorkflowId) :
    (db'.aggregate w).activities = (db.aggregate w).activities ∨
      ∃ act, db.activities.find act.id = some act ∧ locks.takesBack topic now act = true ∧
        act.workflowId = w ∧ (db'.aggregate w).activities =
          Function.update (db.aggregate w).activities act.id
            (some (act.takenBack externals (db.ended w) now)) := by
  by_cases hback : ∃ act ∈ db.activities.select (locks.takesBack topic now), act.workflowId = w
  · obtain ⟨act, hact, rfl⟩ := hback
    obtain ⟨hfind, htakes⟩ := Table.mem_select.mp hact
    exact .inr ⟨act, hfind, htakes, rfl, (h.back act hact).activities⟩
  · rw [h.same w fun act hact hw => hback ⟨act, hact, hw⟩]
    exact .inl rfl

/-- The activities are those of `DB.takenBack`. -/
theorem find_activity (a : ActivityId) :
    db'.activities.find a = (db.takenBack externals locks topic now).activities.find a := by
  rw [find_takenBack]
  cases hact : db.activities.find a with
  | none =>
    cases hact' : db'.activities.find a with
    | none => rfl
    | some act' =>
      have hstored := activity_of_find hact'
      rcases h.activities_eq_or act'.workflowId with heq | ⟨act, hfind, -, -, heq⟩
      · rw [heq] at hstored
        rw [find_of_activities hstored] at hact
        cases hact
      · have hne : a ≠ act.id := by
          rintro rfl
          rw [hfind] at hact
          cases hact
        rw [heq, Function.update_of_ne hne] at hstored
        rw [find_of_activities hstored] at hact
        cases hact
  | some act =>
    obtain rfl : act.id = a := Table.key_of_find hact
    have hstored := activity_of_find hact
    rw [Option.map_some]
    by_cases htakes : locks.takesBack topic now act = true
    · rw [if_pos htakes]
      have hback := h.back act (Table.mem_select.mpr ⟨hact, htakes⟩)
      refine find_of_activities (w := act.workflowId) ?_
      rw [hback.activities, Function.update_self]
      rfl
    · rw [if_neg htakes]
      refine find_of_activities (w := act.workflowId) ?_
      rcases h.activities_eq_or act.workflowId with heq | ⟨act', hfind', htakes', hw, heq⟩
      · rw [heq]
        exact hstored
      · have hne : act.id ≠ act'.id := by
          intro hid
          rw [← hid, hact] at hfind'
          cases hfind'
          exact htakes htakes'
        rw [heq, Function.update_of_ne hne]
        exact hstored

/-- A claim finds in flight what is not taken back. -/
theorem inFlight_eq (hs : db.Sound) :
    inFlight topic (db.unsettled locks topic now) now db' =
      .ok (db.occupied locks topic now, db') := by
  have hunsettled : ∀ act, db.activities.find act.id = some act →
      (act.id ∈ db.unsettled locks topic now ↔
        expiredHolder topic now act = true ∧ locks.workflows act.workflowId = true) := by
    intro act hact
    rw [DB.unsettled, List.mem_map]
    constructor
    · rintro ⟨act', hmem, hid⟩
      obtain ⟨hselect, hheld⟩ := List.mem_filter.mp hmem
      obtain ⟨hfind, hexpired⟩ := Table.mem_select.mp hselect
      have hfind : db.activities.find act'.id = some act' := hfind
      rw [hid, hact] at hfind
      cases hfind
      exact ⟨hexpired, hheld⟩
    · rintro ⟨hexpired, hheld⟩
      exact ⟨act, List.mem_filter.mpr ⟨Table.mem_select.mpr ⟨hact, hexpired⟩, hheld⟩, rfl⟩
  unfold inFlight
  refine (bind_of_ok rfl).trans (congrArg (fun n => Except.ok (n, db')) ?_)
  refine congrArg List.length (Table.select_congr fun i => ?_)
  show (db'.activities.find i).filter _ = _
  rw [h.find_activity, find_takenBack]
  cases hact : db.activities.find i with
  | none => rfl
  | some act =>
    obtain rfl : act.id = i := Table.key_of_find hact
    rw [Option.map_some]
    by_cases htakes : locks.takesBack topic now act = true
    · obtain ⟨hlease, -⟩ := live_of_takesBack htakes
      obtain ⟨attempt, r, hl⟩ := hs.leased hact hlease
      have hattempt := ((hs.inv hl.row).ledger _ act hl.attempt.stored).started hl.lease
      rw [HeldLocks.takesBack, expiredHolder, all_le_eq] at htakes
      simp only [Bool.and_eq_true, Bool.not_eq_true'] at htakes
      rw [if_pos (by simp [HeldLocks.takesBack, expiredHolder, all_le_eq, htakes]),
        Option.filter_some, Option.filter_some, holdsSlot_eq,
        ActivityRow.takenBack_holdsLease hlease hattempt, htakes.1.2, htakes.2]
      simp
    · rw [if_neg htakes]
      refine congrArg (fun p : Bool => if p then some act else none) ?_
      rw [HeldLocks.takesBack, expiredHolder, all_le_eq] at htakes
      have hmem := hunsettled act hact
      rw [expiredHolder, all_le_eq] at hmem
      simp only [holdsSlot_eq]
      grind

/-- The workflow of a pending activity is as it was, but for the event of its lease. -/
theorem workflow_of_pending (hc : db.Claims) (hact : db'.activities.find act.id = some act)
    (hpending : act.status = .pending) :
    db'.workflows.find act.workflowId = db.workflows.find act.workflowId ∧
      (db'.aggregate act.workflowId).events.length = db.eventsAfter locks topic now act := by
  by_cases hback : ∃ act' ∈ db.activities.select (locks.takesBack topic now),
      act'.workflowId = act.workflowId
  · obtain ⟨act', hmem, hw⟩ := hback
    obtain ⟨hfind', htakes⟩ := Table.mem_select.mp hmem
    have hfind' : db.activities.find act'.id = some act' := hfind'
    have hreconciled := h.back act' hmem
    rw [hw] at hreconciled
    have hstored := activity_of_find hact
    rw [hreconciled.activities] at hstored
    by_cases hid : act.id = act'.id
    · rw [hid, Function.update_self] at hstored
      have hone : act'.expiryEvents = 1 :=
        ActivityRow.expiryEvents_of_pending ((congrArg ActivityRow.status
          (Option.some_inj.mp hstored)).trans hpending)
      refine ⟨hreconciled.row hone, ?_⟩
      rw [hreconciled.events, hone, DB.eventsAfter, hid, hfind', Option.any_some, htakes]
      rfl
    · rw [Function.update_of_ne hid] at hstored
      have heq := hc.eq_of_live hfind' (find_of_activities hstored) (live_of_takesBack htakes).2
        (by rw [hpending]; rfl) hw.symm
      exact absurd (congrArg ActivityRow.id heq) hid
  · have hsame := h.same act.workflowId fun act' hact' hw => hback ⟨act', hact', hw⟩
    refine ⟨congrArg Aggregate.row hsame, ?_⟩
    have hnone : ¬(db.activities.find act.id).any (locks.takesBack topic now) = true := by
      intro hany
      have hstored := activity_of_find hact
      rw [hsame] at hstored
      rw [find_of_activities hstored, Option.any_some] at hany
      exact hback ⟨act, Table.mem_select.mpr ⟨find_of_activities hstored, hany⟩, rfl⟩
    rw [hsame, DB.eventsAfter, if_neg hnone]
    rfl

end DB.Reconciled

end After

end DurableWorkflows
