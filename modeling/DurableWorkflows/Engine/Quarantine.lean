import DurableWorkflows.Engine.EventLog

/-!
# Poison activities

`claim_locked_candidate` skips a row that the worker has no definition for and
quarantines a row past its attempt cap, with invalid bounds or with a policy
that does not decode. What it does not catch is a lease that ends after the
last timestamp: its error aborts the whole claim transaction, as does a
quarantine whose two events no longer fit into the log.

## Main definitions

- `Aggregate.candidate`: the row that a claim finds behind its filters
- `ActivityRow.Poison`, `ActivityRow.Fits`, `Aggregate.Claimable`

## Main results

- `run_claims_iff`
-/

namespace DurableWorkflows

open Transaction

variable {db db' : DB} {g g' : Aggregate} {l : Label} {act act' : ActivityRow}
  {r : WorkflowRow}
  {a : ActivityId} {w : WorkflowId} {now : DbMillis} {started : Instant} {locks : HeldLocks}
  {registry : ActivityRegistry} {workerId : String} {token : LeaseToken}

section Condition

/-- The row that a claim of an activity finds behind its filters, if the
worker has its definition. -/
def Aggregate.candidate (g : Aggregate) (registry : ActivityRegistry) (locks : HeldLocks)
    (now : DbMillis) (a : ActivityId) : Option ActivityRow :=
  match g.row.filter fun r => !locks.workflows r.id && waitsForActivity a r with
  | none => none
  | some _ => (g.activities a).filter fun act => !locks.activities act.id &&
      act.status == .pending && act.availableAt ≤ now && registry.contains act.kind act.version

/-- A row that a claim quarantines. -/
def ActivityRow.Poison (act : ActivityRow) : Prop :=
  attemptCapReached act = true ∨ invalidBounds act = true ∨
    BoundViolation.check act.retryPolicy ≠ none

/-- The claim of a row fits into the ranges of the columns and the clock: the
two events of a quarantine into the log of `events` events, the lease of any
other row into the timestamps and the monotonic clock. -/
def ActivityRow.Fits (act : ActivityRow) (events : ℕ) (now : DbMillis) (started : Instant) :
    Prop :=
  (act.Poison → events + 2 ≤ I32.max) ∧
  (¬act.Poison → DbMillis.min ≤ now + act.leaseDurationMillis ∧
    now + act.leaseDurationMillis ≤ DbMillis.max ∧
    started + (act.leaseDurationMillis - 1) * 1000000 ≤ Instant.max)

/-- The claim of an activity fits if it finds a row at all. -/
def Aggregate.Claimable (g : Aggregate) (registry : ActivityRegistry) (locks : HeldLocks)
    (now : DbMillis) (started : Instant) (a : ActivityId) : Prop :=
  ∀ act, g.candidate registry locks now a = some act → act.Fits g.events.length now started

end Condition

section Limits

/-- The attempt limits of a workflow's activities fit their column. -/
def Aggregate.Limited (g : Aggregate) : Prop :=
  ∀ a act, g.activities a = some act → act.maxAttempts ≤ I32.max

theorem Aggregate.Limited.of_set (hg : g.Limited)
    (hset : g'.activities = Function.update g.activities a (some act))
    (hact : act.maxAttempts ≤ I32.max) : g'.Limited := by
  intro b act' hb
  rw [hset] at hb
  by_cases h : b = a
  · subst h
    rw [Function.update_self] at hb
    cases hb
    exact hact
  · rw [Function.update_of_ne h] at hb
    exact hg b act' hb

/-- A change of one activity that keeps its limit. -/
theorem Aggregate.Limited.of_kept (hg : g.Limited) (ha : g.activities a = some act)
    (hset : g'.activities = Function.update g.activities a (some act'))
    (hlimit : act'.maxAttempts = act.maxAttempts) : g'.Limited :=
  hg.of_set hset (hlimit.le.trans (hg a act ha))

theorem Aggregate.Limited.of_map {f : ActivityRow → ActivityRow} (hg : g.Limited)
    (hf : ∀ act, (f act).maxAttempts = act.maxAttempts)
    (hmap : g'.activities = fun a => (g.activities a).map f) : g'.Limited := by
  intro b act' hb
  rw [hmap] at hb
  obtain ⟨act, hact, rfl⟩ := Option.map_eq_some_iff.mp hb
  rw [hf]
  exact hg b act hact

theorem ActivityRow.cancelledBy_maxAttempts (act : ActivityRow) (outcome : AttemptOutcome)
    (reason : String) : (act.cancelledBy outcome reason now).maxAttempts = act.maxAttempts := by
  unfold ActivityRow.cancelledBy
  split <;> rfl

theorem ActivityRow.discarded_maxAttempts (act : ActivityRow) :
    (act.discarded now).maxAttempts = act.maxAttempts := by
  unfold ActivityRow.discarded
  split <;> rfl

/-- A pause raises the limit of the attempt it revokes by a checked addition;
no other step changes the limit of a row. -/
theorem Step.limited (h : Step g l g') (hg : g.Limited) : g'.Limited := by
  cases h with
  | inserted => exact fun _ _ ha => by cases ha
  | history | claimed | recovered | continued | completed | slept | waitedApproval | waitedChild
  | activationFailed | answered | answeredApproval | reattached | paused | resumed => exact hg
  | waitedActivity _ _ _ hfresh | retried _ _ _ _ _ hfresh =>
    exact hg.of_set rfl hfresh.maxAttempts_le
  | revoked _ _ _ _ _ _ _ hlimit => exact hg.of_set rfl hlimit
  | cancelled => exact hg.of_map (fun act => act.cancelledBy_maxAttempts ..) rfl
  | superseded | discarded => exact hg.of_map (fun act => act.discarded_maxAttempts) rfl
  | activityClaimed _ _ _ ha | quarantined _ _ _ ha => exact hg.of_kept ha rfl rfl
  | renewed _ ha | succeeded _ _ _ ha | released _ ha | deadLettered _ _ _ ha | settled _ ha =>
    exact hg.of_kept ha.stored rfl rfl

end Limits

section Outcome

/-- The effect of a claim that found the row `act`: a poison row is
dead-lettered and its workflow blocked, any other row runs under a lease. No
other workflow is touched. -/
structure Settles (act : ActivityRow) (db : DB) (o : Option ActivityClaim) (db' : DB) : Prop where
  quarantines : act.Poison → o = none ∧ (∃ act', db'.activities.find act.id = some act' ∧
    act'.status = .deadLettered) ∧ ∃ r, db'.workflows.find act.workflowId = some r ∧
    r.status = .blocked
  leases : ¬act.Poison → (∃ claim, o = some claim) ∧ (∃ act', db'.activities.find act.id = some act' ∧
    act'.status = .running) ∧ db'.workflows.find act.workflowId = db.workflows.find act.workflowId
  other : ∀ w, w ≠ act.workflowId → db'.aggregate w = db.aggregate w

theorem wp_quarantineCandidate_fits {reason message : String} (hs : db.Sound)
    (ha : db.activities.find act.id = some act)
    (hr : db.workflows.find act.workflowId = some r) (hwaits : waitsForActivity act.id r = true)
    (hpending : act.status = .pending) (hpoison : act.Poison) :
    wp (quarantineCandidate act reason message now)
      (fun _ db' => act.Fits (db.aggregate act.workflowId).events.length now started ∧
        Settles act db none db')
      (fun _ => ¬act.Fits (db.aggregate act.workflowId).events.length now started) db := by
  have hfull : I32.max < (db.aggregate act.workflowId).events.length + 2 →
      ¬act.Fits (db.aggregate act.workflowId).events.length now started :=
    fun hlt hfits => absurd (hfits.1 hpoison) (not_le.mpr hlt)
  simp only [quarantineCandidate, appendActivityHistory, wp_bind]
  refine wp_updateActivity_of ha (by simp [hpending]) (fun _ => rfl) fun db₁ ht₁ => ?_
  have hevents : (db₁.aggregate act.workflowId).events = (db.aggregate act.workflowId).events := by
    rw [ht₁.self]
    rfl
  refine wp_appendHistoryEvent (hevents ▸ hs.log _) (fun hmax => hfull ?_) (fun _ h => by cases h) rfl
    fun e db₂ he _ ht₂ => ?_
  · rw [hevents] at hmax
    omega
  rw [hevents] at he
  have htouch := ht₁.trans ht₂
  have hrow : db₂.workflows.find act.workflowId = some r :=
    (congrArg Aggregate.row htouch.self).trans hr
  have hevents₂ : (db₂.aggregate act.workflowId).events =
      (db.aggregate act.workflowId).events ++ [e] := by
    rw [htouch.self]
    rfl
  refine wp_blockWorkflow (hevents₂ ▸ (hs.log _).add_history he) hrow hwaits
    (fun hmax => hfull ?_) fun e' db₃ he' _ ht₃ => ?_
  · rw [hevents₂, List.length_append, List.length_singleton] at hmax
    omega
  have hbounded := he'.bounded
  rw [hevents₂, List.length_append, List.length_singleton] at hbounded
  refine ⟨⟨fun _ => hbounded, fun h => absurd hpoison h⟩, fun _ => ⟨rfl, ?_, ?_⟩,
    fun h => absurd hpoison h, fun w hw => ?_⟩
  · have hself := congrFun (congrArg Aggregate.activities (htouch.trans ht₃).self) act.id
    exact ⟨_, (aggregate_activity.mp (hself.trans (Function.update_self ..))).1, rfl⟩
  · exact ⟨_, congrArg Aggregate.row ht₃.self, rfl⟩
  · exact (htouch.trans ht₃).other w hw

/-- The deadline of a positive lease exists as long as the clock can hold it. -/
theorem tryLeaseDeadline_ok_iff {lease : ℤ} (hlease : 0 < lease) :
    (∃ deadline, tryLeaseDeadlineFromSample started lease = .ok deadline) ↔
      started + (lease - 1) * 1000000 ≤ Instant.max := by
  have hcast : ((lease.toNat - 1 : ℕ) : ℤ) = lease - 1 := by omega
  have heq : tryLeaseDeadlineFromSample started lease =
      (Instant.checkedAddMillis started (lease.toNat - 1)).elim
        (.error (.invalidState .leaseDeadlineOverflow)) .ok := by
    unfold tryLeaseDeadlineFromSample durationFromMillis
    rw [if_pos hlease.le]
    show Except.bind (.ok lease.toNat) _ = _
    rw [Except.bind]
    cases Instant.checkedAddMillis started (lease.toNat - 1) <;> rfl
  rw [heq, Instant.checkedAddMillis, hcast]
  by_cases hmax : started + (lease - 1) * 1000000 ≤ Instant.max
  · simp [hmax]
  · simp [hmax]

theorem wp_leaseCandidate_fits {run : Option ScheduleRunId} {policy : RetryPolicy} (hs : db.Sound)
    (hlimited : (db.aggregate act.workflowId).Limited)
    (ha : db.activities.find act.id = some act) (hr : db.workflows.find act.workflowId = some r)
    (hpending : act.status = .pending) (hpoison : ¬act.Poison) :
    wp (leaseCandidate act run policy now started workerId token)
      (fun claim db' => act.Fits (db.aggregate act.workflowId).events.length now started ∧
        Settles act db (some claim) db')
      (fun _ => ¬act.Fits (db.aggregate act.workflowId).events.length now started) db := by
  have hact := activity_of_find ha
  obtain ⟨hcap, hbounds⟩ : act.attemptCount < act.maxAttempts ∧ 0 < act.leaseDurationMillis := by
    simp only [ActivityRow.Poison, attemptCapReached, invalidBounds, not_or, decide_eq_true_eq,
      not_le, Bool.or_eq_true] at hpoison
    exact ⟨hpoison.1, hpoison.2.1.1.trans hpoison.2.1.2⟩
  have hdeadline : (∃ deadline, tryLeaseDeadlineFromSample started act.leaseDurationMillis =
      .ok deadline) ↔ started + (act.leaseDurationMillis - 1) * 1000000 ≤ Instant.max :=
    tryLeaseDeadline_ok_iff hbounds
  simp only [leaseCandidate, wp_bind, wp_orAbort]
  refine ⟨fun number hnumber => ⟨fun expiry hexpiry => ?_, fun hnone hfits => ?_⟩, fun hnone => ?_⟩
  · obtain ⟨-, rfl⟩ := I32.checkedAdd_eq_some.mp hnumber
    have hnew : db.attempts act.id (act.attemptCount + 1) = none := by
      have hnumbered := ((hs.inv hr).ledger act.id act hact).numbered (act.attemptCount + 1)
      rw [← aggregate_attempts hact, ← Option.not_isSome_iff_eq_none, hnumbered]
      omega
    refine wp_updateActivity_of ha (by simp [hpending]) (fun _ => rfl) fun db₁ ht₁ => ?_
    have hself := congrFun (congrArg Aggregate.activities ht₁.self) act.id
    have hact₁ := hself.trans (Function.update_self ..)
    have hnew₁ : db₁.attempts act.id (act.attemptCount + 1) = none := by
      rw [← aggregate_attempts hact₁, ht₁.self]
      exact (aggregate_attempts hact _).trans hnew
    refine wp_insertAttempt (aggregate_activity.mp hact₁).1 hnew₁ fun db₂ ht₂ => ?_
    have htouch := ht₁.trans ht₂
    rw [wp_ofExcept]
    refine ⟨fun deadline hok => ⟨⟨fun h => absurd h hpoison, fun _ => ?_⟩,
      fun h => absurd h hpoison, fun _ => ⟨⟨_, rfl⟩, ?_, ?_⟩, htouch.other⟩,
      fun e he hfits => ?_⟩
    · obtain ⟨hmin, hmax⟩ := DbMillis.checkedPlusMillis_isSome.mp ⟨expiry, hexpiry⟩
      exact ⟨hmin, hmax, hdeadline.mp ⟨deadline, hok⟩⟩
    · have hself₂ := congrFun (congrArg Aggregate.activities htouch.self) act.id
      exact ⟨_, (aggregate_activity.mp (hself₂.trans (Function.update_self ..))).1, rfl⟩
    · exact congrArg Aggregate.row htouch.self
    · obtain ⟨deadline, hok⟩ := hdeadline.mpr (hfits.2 hpoison).2.2
      rw [hok] at he
      cases he
  · obtain ⟨hmin, hmax, -⟩ := hfits.2 hpoison
    obtain ⟨expiry, hexpiry⟩ := DbMillis.checkedPlusMillis_isSome.mpr ⟨hmin, hmax⟩
    rw [hexpiry] at hnone
    cases hnone
  · -- the count is below the limit, which fits the column
    have hroom : act.attemptCount + 1 ≤ I32.max := hcap.trans_le (hlimited act.id act hact)
    rw [I32.checkedAdd_eq_some.mpr ⟨hroom, rfl⟩] at hnone
    cases hnone

/-- The result of a claim of one candidate: a skip changes nothing. -/
def ClaimOutcome (registry : ActivityRegistry) (locks : HeldLocks) (now : DbMillis)
    (w : WorkflowId) (a : ActivityId) (db : DB) (o : Option ActivityClaim) (db' : DB) : Prop :=
  match (db.aggregate w).candidate registry locks now a with
  | none => o = none ∧ db' = db
  | some act => Settles act db o db'

/-- A claim that finds no row skips it. -/
theorem claim_skips (hnone : (db.aggregate w).candidate registry locks now a = none) :
    (db.aggregate w).Claimable registry locks now started a ∧
      ClaimOutcome registry locks now w a db none db := by
  refine ⟨fun act hact => ?_, ?_⟩
  · rw [hnone] at hact
    cases hact
  · rw [ClaimOutcome, hnone]
    exact ⟨rfl, rfl⟩

/-- A claim that finds a row depends on that row alone. -/
theorem claimable_iff (hsome : (db.aggregate w).candidate registry locks now a = some act) :
    (db.aggregate w).Claimable registry locks now started a ↔
      act.Fits (db.aggregate w).events.length now started := by
  refine ⟨fun h => h act hsome, fun h act' hact' => ?_⟩
  obtain rfl := Option.some_inj.mp (hsome.symm.trans hact')
  exact h

theorem candidate_of_workflow_none
    (h : ((db.workflows.find w).filter fun r => !locks.workflows r.id && waitsForActivity a r) =
      none) : (db.aggregate w).candidate registry locks now a = none := by
  have hrow : (db.aggregate w).row = db.workflows.find w := rfl
  rw [Aggregate.candidate, hrow, h]

theorem candidate_of_workflow
    (h : ((db.workflows.find w).filter fun r => !locks.workflows r.id && waitsForActivity a r) =
      some r) :
    (db.aggregate w).candidate registry locks now a =
      ((db.activities.find a).filter fun act => !locks.activities act.id && act.workflowId == w &&
        act.status == .pending && act.availableAt ≤ now).filter fun act =>
          registry.contains act.kind act.version := by
  have hrow : (db.aggregate w).row = db.workflows.find w := rfl
  rw [Aggregate.candidate, hrow, h]
  dsimp only [DB.aggregate]
  rw [Option.filter_filter, Option.filter_filter]
  congr 1
  funext act
  cases locks.activities act.id <;> cases act.workflowId == w <;>
    cases act.status == .pending <;> cases registry.contains act.kind act.version <;> simp

/-- The claim of a candidate returns if and only if it fits. -/
theorem wp_claimLockedCandidate_fits (hs : db.Sound) (hlimited : ∀ w, (db.aggregate w).Limited) :
    wp (claimLockedCandidate registry locks a w now started workerId token)
      (fun o db' => (db.aggregate w).Claimable registry locks now started a ∧
        ClaimOutcome registry locks now w a db o db')
      (fun _ => ¬(db.aggregate w).Claimable registry locks now started a) db := by
  simp only [claimLockedCandidate, wp_bind, wp_findRow, workflowTable_get]
  split
  · rename_i hnone
    exact claim_skips (candidate_of_workflow_none hnone)
  rename_i workflow hfound
  have hcandidate : (db.aggregate w).candidate registry locks now a = _ :=
    candidate_of_workflow hfound
  obtain ⟨hworkflow, hlocked⟩ := Option.filter_eq_some_iff.mp hfound
  simp only [Bool.and_eq_true] at hlocked
  clear hfound
  simp only [wp_bind, wp_findRow, activityTable_get]
  split
  · rename_i hnone
    rw [hnone] at hcandidate
    exact claim_skips hcandidate
  rename_i row hrow
  rw [hrow] at hcandidate
  obtain ⟨hfind, hfilter⟩ := Option.filter_eq_some_iff.mp hrow
  simp only [Bool.and_eq_true, beq_iff_eq] at hfilter
  obtain ⟨⟨⟨-, rfl⟩, hpending⟩, -⟩ := hfilter
  obtain rfl : row.id = a := Table.key_of_find hfind
  rw [wp_ite]
  refine ⟨fun hmissing => ?_, fun hcontains => ?_⟩
  · refine claim_skips (hcandidate.trans ?_)
    simpa using hmissing
  have hsome : (db.aggregate row.workflowId).candidate registry locks now row.id = some row := by
    rw [hcandidate]
    simpa using hcontains
  have houtcome : ∀ o db', Settles row db o db' →
      ClaimOutcome registry locks now row.workflowId row.id db o db' := by
    intro o db' h
    rw [ClaimOutcome, hsome]
    exact h
  simp only [claimable_iff hsome]
  have hquarantine : ∀ reason message, row.Poison → wp (quarantineCandidate row reason message now)
      (fun _ db' => row.Fits (db.aggregate row.workflowId).events.length now started ∧
        ClaimOutcome registry locks now row.workflowId row.id db none db')
      (fun _ => ¬row.Fits (db.aggregate row.workflowId).events.length now started) db :=
    fun reason message hpoison => wp_imp
      (wp_quarantineCandidate_fits hs hfind hworkflow hlocked.2 hpending hpoison)
      fun _ db' h => ⟨h.1, houtcome none db' h.2⟩
  rw [wp_ite]
  refine ⟨fun hcap => ?_, fun hcap => ?_⟩
  · rw [wp_bind]
    exact hquarantine _ _ (.inl hcap)
  rw [wp_ite]
  refine ⟨fun hbounds => ?_, fun hbounds => ?_⟩
  · rw [wp_bind]
    exact hquarantine _ _ (.inr (.inl hbounds))
  split
  · rename_i hpolicy
    rw [wp_bind]
    refine hquarantine _ _ (.inr (.inr fun hnone => ?_))
    obtain ⟨policy, hok⟩ := RetryPolicy.validated_ok_iff.mpr hnone
    rw [hok] at hpolicy
    cases hpolicy
  · rename_i policy hpolicy
    rw [wp_bind]
    have hpoison : ¬row.Poison := by
      rintro (h | h | h)
      · exact hcap h
      · exact hbounds h
      · exact h (RetryPolicy.validated_ok_iff.mp ⟨policy, hpolicy⟩)
    exact wp_imp (wp_leaseCandidate_fits hs (hlimited _) hfind hworkflow hpending hpoison)
      fun claim db' h => ⟨h.1, houtcome _ db' h.2⟩

end Outcome

section Loops

/-- The rows behind a candidate. -/
theorem candidate_eq_some (h : (db.aggregate w).candidate registry locks now a = some act) :
    ∃ r, db.workflows.find w = some r ∧ waitsForActivity a r = true ∧
      db.activities.find a = some act ∧ act.workflowId = w ∧ act.id = a := by
  unfold Aggregate.candidate at h
  split at h
  · cases h
  rename_i r hr
  obtain ⟨hrow, hwaits⟩ := Option.filter_eq_some_iff.mp hr
  obtain ⟨hact, -⟩ := Option.filter_eq_some_iff.mp h
  obtain ⟨hfind, hw⟩ := aggregate_activity.mp hact
  simp only [Bool.and_eq_true] at hwaits
  exact ⟨r, hrow, hwaits.2, hfind, hw, Table.key_of_find hfind⟩

theorem status_of_candidate (h : (db.aggregate w).candidate registry locks now a = some act) :
    act.status = .pending := by
  unfold Aggregate.candidate at h
  split at h
  · cases h
  · have hfilter := (Option.filter_eq_some_iff.mp h).2
    simp only [Bool.and_eq_true, beq_iff_eq] at hfilter
    exact hfilter.1.1.2

theorem waitsForActivity_unique {b : ActivityId} (ha : waitsForActivity a r = true)
    (hb : waitsForActivity b r = true) : b = a := by
  simp only [waitsForActivity, Bool.and_eq_true, beq_iff_eq] at ha hb
  exact Option.some_inj.mp (hb.2.symm.trans ha.2)

/-- After the claim of a candidate its workflow has no other. -/
theorem Settles.no_candidate {o : Option ActivityClaim} {b : ActivityId}
    (h : Settles act db o db') (hcandidate : (db.aggregate w).candidate registry locks now a =
      some act) : (db'.aggregate w).candidate registry locks now b = none := by
  obtain ⟨r, hr, hwaits, -, rfl, rfl⟩ := candidate_eq_some hcandidate
  by_contra hsome
  obtain ⟨act', hact'⟩ := Option.ne_none_iff_exists'.mp hsome
  obtain ⟨r', hr', hwaits', hfind, -, -⟩ := candidate_eq_some hact'
  by_cases hpoison : act.Poison
  · obtain ⟨-, -, blocked, hblocked, hstatus⟩ := h.quarantines hpoison
    obtain rfl := Option.some_inj.mp (hr'.symm.trans hblocked)
    simp [waitsForActivity, hstatus] at hwaits'
  · obtain ⟨-, ⟨leased, hleased, hstatus⟩, hrow⟩ := h.leases hpoison
    obtain rfl := Option.some_inj.mp (hr'.symm.trans (hrow.trans hr))
    obtain rfl := waitsForActivity_unique hwaits hwaits'
    obtain rfl := Option.some_inj.mp (hfind.symm.trans hleased)
    unfold Aggregate.candidate at hact'
    split at hact'
    · cases hact'
    · have hpending := (Option.filter_eq_some_iff.mp hact').2
      simp [hstatus] at hpending

/-- The claim of one candidate leaves the others as they are. -/
theorem ClaimOutcome.claimable {o : Option ActivityClaim} {w' : WorkflowId} {b : ActivityId}
    (h : ClaimOutcome registry locks now w a db o db')
    (hb : (db.aggregate w').Claimable registry locks now started b) :
    (db'.aggregate w').Claimable registry locks now started b := by
  unfold ClaimOutcome at h
  split at h
  · rw [h.2]
    exact hb
  rename_i act hact
  by_cases hw : w' = w
  · subst hw
    intro act' hact'
    rw [h.no_candidate hact] at hact'
    cases hact'
  · obtain ⟨-, -, -, -, rfl, -⟩ := candidate_eq_some hact
    rw [h.other w' hw]
    exact hb

/-- The states of a claim transaction: every aggregate is well formed, its
attempt limits fit, and one of its activities is live at most. -/
structure DB.Claims (db : DB) : Prop where
  sound : db.Sound
  limited : ∀ w, (db.aggregate w).Limited
  oneLive : ∀ w, (db.aggregate w).OneLive

theorem DB.Claims.evolves {P : WorkflowId → Label → Prop} (h : db.Claims) (hev : Evolves P db db') :
    db'.Claims :=
  ⟨hev.sound h.sound,
    fun w => (hev.steps w).invariant (fun _ _ _ _ hstep => hstep.limited)
      (h.sound.wellFormed w) (h.limited w),
    fun w => (hev.steps w).invariant (fun _ _ _ hwf hstep => hstep.oneLive hwf)
      (h.sound.wellFormed w) (h.oneLive w)⟩

/-- The claim of a candidate with its outcome. -/
theorem wp_claimLockedCandidate_claims (h : db.Claims) :
    wp (claimLockedCandidate registry locks a w now started workerId token)
      (fun o db' => db'.Claims ∧ (db.aggregate w).Claimable registry locks now started a ∧
        ClaimOutcome registry locks now w a db o db')
      (fun _ => ¬(db.aggregate w).Claimable registry locks now started a) db := by
  have hevolves : wp (claimLockedCandidate registry locks a w now started workerId token)
      (fun _ db' => db'.Claims) Benign db :=
    wp_claimLockedCandidate h.sound le_rfl (fun _ hev => h.evolves hev)
      fun _ _ hev _ _ => h.evolves hev
  exact wp_mono (wp_and hevolves (wp_claimLockedCandidate_fits h.sound h.limited))
    (fun _ _ hdb' => hdb') fun _ he => he.2

/-- The claim of a candidate that fits returns, and the others still fit. -/
theorem wp_claimLockedCandidate_returns {candidates : List ActivityRow} (h : db.Claims)
    (ha : (db.aggregate w).Claimable registry locks now started a)
    (hall : ∀ c ∈ candidates, (db.aggregate c.workflowId).Claimable registry locks now started c.id) :
    wp (claimLockedCandidate registry locks a w now started workerId token)
      (fun _ db' => db'.Claims ∧ ∀ c ∈ candidates,
        (db'.aggregate c.workflowId).Claimable registry locks now started c.id)
      (fun _ => False) db := by
  refine wp_mono (wp_claimLockedCandidate_claims h) ?_ ?_
  · exact fun _ db' hdb' => ⟨hdb'.1, fun c hc => hdb'.2.2.claimable (hall c hc)⟩
  · exact fun _ he => he ha

theorem wp_claimFirst_returns {candidates : List ActivityRow} (h : db.Claims)
    (hall : ∀ c ∈ candidates, (db.aggregate c.workflowId).Claimable registry locks now started c.id) :
    wp (claimFirst registry locks now started workerId token candidates) (fun _ _ => True)
      (fun _ => False) db := by
  induction candidates generalizing db with
  | nil => trivial
  | cons c candidates ih =>
    obtain ⟨hc, hrest⟩ := List.forall_mem_cons.mp hall
    rw [claimFirst, wp_bind]
    refine wp_imp (wp_claimLockedCandidate_returns h hc hrest) fun o db' hdb' => ?_
    cases o with
    | some claim => trivial
    | none => exact ih hdb'.1 hdb'.2

theorem wp_claimUpTo_returns {topic : String} {limit wanted : ℕ} {candidates : List ActivityRow}
    {claims : List ActivityClaim} (h : db.Claims)
    (hall : ∀ c ∈ candidates, (db.aggregate c.workflowId).Claimable registry locks now started c.id) :
    wp (claimUpTo registry locks topic limit wanted now started workerId token candidates claims)
      (fun _ _ => True) (fun _ => False) db := by
  induction candidates generalizing db claims with
  | nil => trivial
  | cons c candidates ih =>
    obtain ⟨hc, hrest⟩ := List.forall_mem_cons.mp hall
    rw [claimUpTo, wp_ite]
    refine ⟨fun _ => trivial, fun _ => ?_⟩
    rw [wp_bind]
    exact wp_imp (wp_claimLockedCandidate_returns h hc hrest) fun o db' hdb' => ih hdb'.1 hdb'.2

end Loops

theorem run_claimsInv (externals : Externals) (actions : List Action) :
    (run externals Sys.init actions).db.Claims :=
  ⟨(run_inv externals actions).sound,
    run_aggregate (fun _ _ ha => by cases ha) (fun _ _ _ _ hstep => hstep.limited) externals actions,
    run_aggregate (fun _ _ _ _ ha => by cases ha) (fun _ _ _ hwf hstep => hstep.oneLive hwf)
      externals actions⟩

/-- In every reachable state the claim of a candidate returns, with a skip, a
quarantine or a lease, if and only if the candidate fits. In every state of a
claim transaction the loops of `claim_one` and `claim_batch` get through a list
of candidates that all fit. -/
theorem run_claims_iff (externals : Externals) (actions : List Action)
    (registry : ActivityRegistry) (locks : HeldLocks) (now : DbMillis) (started : Instant)
    (workerId : String) (token : LeaseToken) :
    let db := (run externals Sys.init actions).db
    (∀ w a, (∃ o db', claimLockedCandidate registry locks a w now started workerId token db =
        .ok (o, db') ∧ ClaimOutcome registry locks now w a db o db') ↔
      (db.aggregate w).Claimable registry locks now started a) ∧
    ∀ db₁, Evolves (fun _ l => l.claimsFrom 0) db db₁ → ∀ candidates : List ActivityRow,
      (∀ c ∈ candidates, (db₁.aggregate c.workflowId).Claimable registry locks now started c.id) →
      (∃ o db', claimFirst registry locks now started workerId token candidates db₁ =
        .ok (o, db')) ∧
      ∀ topic limit wanted claims, ∃ claims' db', claimUpTo registry locks topic limit wanted now
        started workerId token candidates claims db₁ = .ok (claims', db') := by
  intro db
  have hclaims : db.Claims := run_claimsInv externals actions
  refine ⟨fun w a => ⟨?_, fun hfits => ?_⟩, fun db₁ hev candidates hall => ⟨?_, ?_⟩⟩
  · rintro ⟨o, db', hok, -⟩
    exact (wp_ok (wp_claimLockedCandidate_fits hclaims.sound hclaims.limited) hok).1
  · have hreturns : wp (claimLockedCandidate registry locks a w now started workerId token)
        (fun o db' => ClaimOutcome registry locks now w a db o db') (fun _ => False) db :=
      wp_mono (wp_claimLockedCandidate_fits hclaims.sound hclaims.limited) (fun _ _ h => h.2)
        fun _ hnot => hnot hfits
    exact wp_returns hreturns
  · obtain ⟨o, db', hok, -⟩ := wp_returns (wp_claimFirst_returns (hclaims.evolves hev) hall)
    exact ⟨o, db', hok⟩
  · intro topic limit wanted claims
    obtain ⟨claims', db', hok, -⟩ := wp_returns (wp_claimUpTo_returns (hclaims.evolves hev) hall)
    exact ⟨claims', db', hok⟩

namespace Sample

/-- An activity that `commit_activity` accepts, with the longest lease there is. -/
def longLease : ActivityCommand :=
  { activity with leaseDurationMillis := 9223372036854775807 }

/-- Two workflows wait for an activity of one topic, and the lease of the first is the longest
there is. -/
def longLeaseRun : List Action :=
  [.start workflow ⟨none, none, none⟩ 0, .start workflow ⟨none, none, none⟩ 0] ++
    activation 0 (.runActivity "null" longLease) 0 ++ activation 1 (.runActivity "null" activity) 0 ++
    [.seedLocks topics 0]

/-- No row is held by another transaction. -/
def unheld : HeldLocks := ⟨fun _ => false, fun _ => false, fun _ => false⟩

/-- Whether a computation fails with an error. -/
def failsWith {α : Type} (x : Except DurableError α) (e : DurableError) : Bool :=
  match x with
  | .error e' => e' = e
  | .ok _ => false

theorem eq_error_of_failsWith {α : Type} {x : Except DurableError α} {e : DurableError}
    (h : failsWith x e = true) : x = .error e := by
  cases x with
  | error e' => exact congrArg Except.error (of_decide_eq_true h)
  | ok a => cases h

/-- The lease of the first activity overflows one millisecond after the epoch, and the error ends
the claim of the topic with the second activity, which could be claimed alone. -/
theorem longLease_aborts :
    ¬(∀ externals actions registry locks w a now started workerId token, ∃ o db',
      claimLockedCandidate registry locks a w now started workerId token
        (run externals Sys.init actions).db = .ok (o, db')) ∧
    (claimLockedCandidate activities unheld 2 2 1 0 "worker" 0
      (run Sample.externals Sys.init longLeaseRun).db).isOk = true ∧
    exec Sample.externals (run Sample.externals Sys.init longLeaseRun)
      (.claimActivity activities topics unheld "t" "worker" 1 0) =
        .error (.invalidState .leaseTimestampOverflow) := by
  refine ⟨fun hall => ?_, by decide +kernel, eq_error_of_failsWith (by decide +kernel)⟩
  have herror : claimLockedCandidate activities unheld 1 1 1 0 "worker" 0
      (run Sample.externals Sys.init longLeaseRun).db =
        .error (.invalidState .leaseTimestampOverflow) :=
    eq_error_of_failsWith (by decide +kernel)
  obtain ⟨o, db', hok⟩ := hall Sample.externals longLeaseRun activities unheld 1 1 1 0 "worker" 0
  rw [herror] at hok
  cases hok

end Sample

end DurableWorkflows
