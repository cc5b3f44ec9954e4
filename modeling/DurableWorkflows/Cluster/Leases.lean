import DurableWorkflows.Cluster.Sessions

/-!
# Leases of concurrent transactions

What a step of the cluster can do to the row versions and to the open transactions,
and the invariants that the topic cap and the exclusion of executors share: the
columns no statement changes, the tokens that were drawn, and the expiry times. A
lease never ends later than its duration from now, so that a renewal never shortens
the lease of its own claim.

## Main definitions

- `Cluster.Has`: the versions of the row of an activity
- `Cluster.Moves`: what becomes of an open transaction in a step
- `Cluster.Leases`: the invariant

## Main results

- `Cluster.Step.version`: where a row version comes from
- `Cluster.Step.sessions`: one transaction moves in a step
- `Cluster.Leases.step`, `Cluster.Reachable.leases`
-/

namespace DurableWorkflows

/-- The columns of an activity that no statement changes. -/
def ActivityRow.fixed (row : ActivityRow) : ActivityId × String × ℤ :=
  (row.id, row.topic, row.leaseDurationMillis)

section

variable {row row' : ActivityRow} (h : row.fixed = row'.fixed)

include h

theorem ActivityRow.id_of_fixed : row.id = row'.id := congrArg Prod.fst h

theorem ActivityRow.topic_of_fixed : row.topic = row'.topic := congrArg (fun f => f.2.1) h

theorem ActivityRow.duration_of_fixed : row.leaseDurationMillis = row'.leaseDurationMillis :=
  congrArg (fun f => f.2.2) h

end

/-- The row leases the claim from a time on. -/
structure ActivityClaim.LeasedAt (claim : ActivityClaim) (now : DbMillis) (row : ActivityRow) :
    Prop where
  holdsSlot : row.status.holdsSlot = true
  token : row.leaseToken = some claim.leaseToken
  expires : row.leaseExpiresAt = some (now + claim.row.leaseDurationMillis)

theorem DbMillis.eq_of_checkedPlusMillis {t e : DbMillis} {d : ℤ}
    (h : DbMillis.checkedPlusMillis t d = some e) : e = t + d := by
  unfold DbMillis.checkedPlusMillis at h
  split at h
  · cases h
    rfl
  · cases h

theorem ActivityClaim.status_of_fences {claim : ActivityClaim} {row : ActivityRow}
    (h : claim.fences row = true) :
    row.status = .running ∧ row.leaseToken = some claim.leaseToken := by
  simp only [ActivityClaim.fences, Bool.and_eq_true, beq_iff_eq] at h
  exact ⟨h.1.1, h.2⟩

theorem ActivityClaim.status_of_leases {claim : ActivityClaim} {row : ActivityRow}
    (h : claim.leases row = true) :
    row.status.holdsSlot = true ∧ row.leaseToken = some claim.leaseToken := by
  simp only [ActivityClaim.leases, Bool.and_eq_true, beq_iff_eq] at h
  exact ⟨h.1.1, h.2⟩

-- ════════════════════════════════════════════════════════════════════════
-- Open transactions
-- ════════════════════════════════════════════════════════════════════════

namespace ClaimPhase

/-- The local clock was read. -/
def isSampled : ClaimPhase → Bool
  | locked => false
  | _ => true

/-- The database clock was read. -/
def isTimed : ClaimPhase → Bool
  | locked | sampled => false
  | _ => true

end ClaimPhase

/-- The database time that a renewal has read. -/
def RenewalPhase.now : RenewalPhase → Option DbMillis
  | sampled => none
  | timed now | renewed now | committed now => some now

namespace Session

/-- The claims that a transaction carries. -/
def claims : Session → List ActivityClaim
  | claim c => c.claims
  | renewal h => [h.claim]
  | work => []

/-- The database time that a transaction has read. -/
def now : Session → Option DbMillis
  | claim c => if c.phase.isTimed then some c.now else none
  | renewal h => h.phase.now
  | work => none

/-- The local time that a transaction has sampled. -/
def sample : Session → Option (ProcessId × Nanos)
  | claim c => if c.phase.isSampled then some (c.process, c.leaseSampleStarted) else none
  | renewal h => some (h.process, h.leaseSampleStarted)
  | work => none

end Session

namespace Cluster

variable {limits : String → Option ℕ} {s s' : Cluster} {tx tx' : TxId} {i : ActivityId}
  {r r' : ActivityRow}

/-- A version of the row of an activity. -/
def Has (s : Cluster) (i : ActivityId) (r : ActivityRow) : Prop :=
  ∃ v, s.activities.find i = some v ∧ v.Has r

/-- What becomes of a transaction when a step from `s` to `s'` moves it. -/
inductive Moves (limits : String → Option ℕ) (s s' : Cluster) (tx : TxId) : Option Session → Prop
  | same : Moves limits s s' tx (s.sessions tx)
  | ended : Moves limits s s' tx none
  | beganClaimOne (hclosed : s.sessions tx = none) (process : ProcessId) (topic : String) :
      Moves limits s s' tx (some (.claim ⟨process, s.locals process, 0, [], [topic], fun _ => 1, 1, [],
        .sampled⟩))
  | beganClaimBatch (hclosed : s.sessions tx = none) (process : ProcessId) (topics : List String)
      (localTopicCapacity : String → ℕ) (limit : ℕ)
      (hstate : s' = (s.apply tx (.lockTopics topics)).setSession tx (some (.claim ⟨process, 0, 0,
        topics, topics, localTopicCapacity, limit, [], .locked⟩))) :
      Moves limits s s' tx (some (.claim ⟨process, 0, 0, topics, topics, localTopicCapacity, limit, [],
        .locked⟩))
  | beganRenewal (hclosed : s.sessions tx = none) {x : Executor}
      (hexecutor : s.executors x.claim.leaseToken = some x)
      (hone : ∀ tx' h, s.sessions tx' = some (.renewal h) →
        h.claim.leaseToken ≠ x.claim.leaseToken) :
      Moves limits s s' tx (some (.renewal ⟨x.claim, x.process, s.locals x.process, .sampled⟩))
  | beganWork (hclosed : s.sessions tx = none) : Moves limits s s' tx (some .work)
  | statement {session session' : Session} {effect : Effect} (hopen : s.sessions tx = some session)
      (hstatement : Statement limits s tx session effect session')
      (hstate : s' = (s.apply tx effect).setSession tx (some session')) :
      Moves limits s s' tx (some session')
  | committed {h : RenewalSession} {now : DbMillis} (hopen : s.sessions tx = some (.renewal h))
      (hphase : h.phase = .renewed now)
      (hstate : s' = s.commit tx (some (.renewal { h with phase := .committed now }))) :
      Moves limits s s' tx (some (.renewal { h with phase := .committed now }))

-- ════════════════════════════════════════════════════════════════════════
-- The parts of a state after a step
-- ════════════════════════════════════════════════════════════════════════

theorem find_insertRow {row : ActivityRow} :
    (s.insertRow row).activities.find i = if i = s.activities.next then
      some ⟨i, { row with id := i }, none⟩ else s.activities.find i := rfl

theorem find_publish :
    (s.publish tx).activities.find i = (s.activities.find i).map (·.commit tx) := rfl

theorem find_discard :
    (s.discard tx).activities.find i = (s.activities.find i).map (·.rollback tx) := rfl

theorem find_write {row : ActivityRow} {j : ActivityId} :
    (s.apply tx (.write i row)).activities.find j =
      if j = i then (s.activities.find j).map (·.write tx row) else s.activities.find j := rfl

/-- The row that a transaction has written is the version it holds. -/
theorem has_write {row : ActivityRow} (h : (s.activities.find i).isSome) :
    (s.apply tx (.write i row)).Has i row := by
  obtain ⟨v, hv⟩ := Option.isSome_iff_exists.mp h
  exact ⟨v.write tx row, by rw [find_write, if_pos rfl, hv]; rfl, .inr ⟨tx, rfl⟩⟩

theorem sessions_setSession {session : Option Session} :
    (s.setSession tx session).sessions tx' = if tx' = tx then session else s.sessions tx' :=
  Function.update_apply _ _ _ _

theorem sessions_commit {session : Option Session} :
    (s.commit tx session).sessions tx' = if tx' = tx then session else s.sessions tx' :=
  sessions_setSession

theorem sessions_rollback :
    (s.rollback tx).sessions tx' = if tx' = tx then none else s.sessions tx' :=
  sessions_setSession

theorem executors_setExecutor {x : Executor} {t : LeaseToken} :
    (s.setExecutor x).executors t = if t = x.claim.leaseToken then some x else s.executors t :=
  Function.update_apply _ _ _ _

/-- Only the executors change when claims are executed. -/
theorem startExecutors_eq (s : Cluster) (c : ClaimSession) :
    s.startExecutors c = { s with executors := (s.startExecutors c).executors } := by
  unfold startExecutors
  induction c.claims generalizing s with
  | nil => rfl
  | cons claim claims ih =>
    rw [List.foldl_cons, ih]
    rfl

@[simp]
theorem activities_startExecutors {c : ClaimSession} :
    (s.startExecutors c).activities = s.activities := by
  rw [startExecutors_eq]

@[simp]
theorem sessions_startExecutors {c : ClaimSession} :
    (s.startExecutors c).sessions = s.sessions := by
  rw [startExecutors_eq]

@[simp]
theorem nextToken_startExecutors {c : ClaimSession} :
    (s.startExecutors c).nextToken = s.nextToken := by
  rw [startExecutors_eq]

@[simp]
theorem clock_startExecutors {c : ClaimSession} : (s.startExecutors c).clock = s.clock := by
  rw [startExecutors_eq]

@[simp]
theorem locals_startExecutors {c : ClaimSession} : (s.startExecutors c).locals = s.locals := by
  rw [startExecutors_eq]

@[simp]
theorem topicLocks_startExecutors {c : ClaimSession} :
    (s.startExecutors c).topicLocks = s.topicLocks := by
  rw [startExecutors_eq]

/-- An executor after the start of claims is an old one or executes one of the claims. -/
theorem executors_startExecutors {c : ClaimSession} {t : LeaseToken} {x : Executor}
    (h : (s.startExecutors c).executors t = some x) :
    s.executors t = some x ∨ ∃ claim ∈ c.claims, claim.leaseToken = t ∧ x = ⟨claim, c.process,
      leaseDeadlineFromSample c.leaseSampleStarted claim.row.leaseDurationMillis, true⟩ := by
  unfold startExecutors at h
  generalize c.claims = claims at h ⊢
  induction claims generalizing s with
  | nil => exact .inl h
  | cons claim claims ih =>
    rcases ih h with hold | ⟨claim', hmem, hnew⟩
    · rw [executors_setExecutor] at hold
      split at hold
      next ht =>
        cases hold
        exact .inr ⟨claim, List.mem_cons_self, ht.symm, rfl⟩
      · exact .inl hold
    · exact .inr ⟨claim', List.mem_cons_of_mem _ hmem, hnew⟩

/-- A started claim has an executor, and an executor stays one. -/
theorem isSome_executors_startExecutors {c : ClaimSession} {t : LeaseToken}
    (h : (s.executors t).isSome) : ((s.startExecutors c).executors t).isSome := by
  unfold startExecutors
  generalize c.claims = claims
  induction claims generalizing s with
  | nil => exact h
  | cons claim claims ih =>
    refine ih ?_
    rw [executors_setExecutor]
    split
    · rfl
    · exact h

/-- What a step does to the table of the activities. -/
theorem Step.activities (h : Step limits s s') :
    s'.activities = s.activities ∨
    (∃ row : ActivityRow, row.status = .pending ∧ row.leaseToken = none ∧
      row.leaseExpiresAt = none ∧ s' = s.insertRow row) ∨
    (∃ tx session, s.sessions tx = some session ∧
      s'.activities = (s.publish tx).activities) ∨
    (∃ tx, s'.activities = (s.discard tx).activities) ∨
    ∃ tx session session' i row row', s.sessions tx = some session ∧ s.Unlocked tx i ∧
      s.row tx i = some row ∧ RowStatement s session i row row' session' ∧
      s' = (s.apply tx (.write i row')).setSession tx (some session') := by
  cases h with
  | insert hpending htoken hexpires => exact .inr (.inl ⟨_, hpending, htoken, hexpires, rfl⟩)
  | @statement tx session session' effect hopen hstatement =>
    cases hstatement with
    | write hfree hrow hwrites =>
      exact .inr (.inr (.inr (.inr ⟨tx, _, _, _, _, _, hopen, hfree, hrow, hwrites, rfl⟩)))
    | _ => exact .inl rfl
  | commitClaim hopen => exact .inr (.inr (.inl ⟨_, _, hopen, activities_startExecutors⟩))
  | commitRenewal hopen => exact .inr (.inr (.inl ⟨_, _, hopen, rfl⟩))
  | commitWork hopen => exact .inr (.inr (.inl ⟨_, _, hopen, rfl⟩))
  | @rollback tx => exact .inr (.inr (.inr (.inl ⟨tx, rfl⟩)))
  | _ => exact .inl rfl

theorem has_row (h : s.row tx i = some r) : s.Has i r := by
  obtain ⟨v, hv, rfl⟩ := Option.map_eq_some_iff.mp h
  exact ⟨v, hv, Versioned.has_view⟩

/-- A version was there before the step, or its row was inserted, or it was written. -/
theorem Step.version (h : Step limits s s') (hr : s'.Has i r) :
    s.Has i r ∨
    (s.activities.find i = none ∧ r.id = i ∧ r.leaseToken = none ∧ r.leaseExpiresAt = none ∧
      ∀ r', s'.Has i r' → r' = r) ∨
    ∃ tx session session' row, s.sessions tx = some session ∧ s.Unlocked tx i ∧
      s.row tx i = some row ∧ RowStatement s session i row r session' ∧
      s' = (s.apply tx (.write i r)).setSession tx (some session') := by
  obtain ⟨v', hv', hr⟩ := hr
  rcases h.activities with heq | ⟨row, hpending, htoken, hexpires, heq⟩ | ⟨tx, -, -, heq⟩ | ⟨tx, heq⟩ |
    ⟨tx, session, session', j, row, row', hopen, hfree, hrow, hwrites, heq⟩
  · exact .inl ⟨v', heq ▸ hv', hr⟩
  · rw [heq, find_insertRow] at hv'
    split at hv'
    next hi =>
      cases hv'
      rcases hr with rfl | ⟨t, ht⟩
      · refine .inr (.inl ⟨hi ▸ Table.find_next, rfl, htoken, hexpires, ?_⟩)
        rintro r' ⟨v, hv, rfl | ⟨t, ht⟩⟩
        · rw [heq, find_insertRow, if_pos hi] at hv
          cases hv
          rfl
        · rw [heq, find_insertRow, if_pos hi] at hv
          cases hv
          cases ht
      · cases ht
    · exact .inl ⟨v', hv', hr⟩
  · rw [heq, find_publish] at hv'
    obtain ⟨v, hv, rfl⟩ := Option.map_eq_some_iff.mp hv'
    exact .inl ⟨v, hv, Versioned.has_commit hr⟩
  · rw [heq, find_discard] at hv'
    obtain ⟨v, hv, rfl⟩ := Option.map_eq_some_iff.mp hv'
    exact .inl ⟨v, hv, Versioned.has_rollback hr⟩
  · rw [heq, setSession, find_write] at hv'
    split at hv'
    next hi =>
      subst hi
      obtain ⟨v, hv, rfl⟩ := Option.map_eq_some_iff.mp hv'
      rcases Versioned.has_write hr with hr | rfl
      · exact .inl ⟨v, hv, hr⟩
      · exact .inr (.inr ⟨tx, session, session', row, hopen, hfree, hrow, hwrites, heq⟩)
    · exact .inl ⟨v', hv', hr⟩

/-- No row is deleted. -/
theorem Step.isSome_find (h : Step limits s s') (hi : (s.activities.find i).isSome) :
    (s'.activities.find i).isSome := by
  obtain ⟨v, hv⟩ := Option.isSome_iff_exists.mp hi
  rcases h.activities with heq | ⟨row, -, -, -, heq⟩ | ⟨tx, -, -, heq⟩ | ⟨tx, heq⟩ |
    ⟨tx, session, session', j, row, row', -, -, -, -, heq⟩
  · rw [heq, hv]
    rfl
  · rw [heq, find_insertRow, if_neg (Table.lt_next_of_find hv).ne, hv]
    rfl
  · rw [heq, find_publish, hv]
    rfl
  · rw [heq, find_discard, hv]
    rfl
  · rw [heq, setSession, find_write]
    split <;> simp [hv]

theorem Step.clock_le (h : Step limits s s') : s.clock ≤ s'.clock := by
  cases h with
  | tick elapsed => exact Int.le_add_of_nonneg_right (Int.natCast_nonneg elapsed)
  | @statement tx session session' effect hopen hstatement => cases hstatement <;> exact le_rfl
  | commitClaim => exact clock_startExecutors.ge.trans' le_rfl
  | _ => exact le_rfl

theorem Step.nextToken_le (h : Step limits s s') : s.nextToken ≤ s'.nextToken := by
  cases h with
  | @statement tx session session' effect hopen hstatement =>
    cases hstatement with
    | write =>
      simp only [apply, setSession]
      split
      · exact Nat.le_succ _
      · exact le_rfl
    | _ => exact le_rfl
  | commitClaim => exact nextToken_startExecutors.ge.trans' le_rfl
  | _ => exact le_rfl

/-- One transaction moves in a step. -/
theorem Step.sessions (h : Step limits s s') :
    ∃ tx next, s'.sessions = Function.update s.sessions tx next ∧ Moves limits s s' tx next := by
  cases h with
  | tick elapsed lead => exact ⟨0, _, (Function.update_eq_self 0 _).symm, .same⟩
  | insert => exact ⟨0, _, (Function.update_eq_self 0 _).symm, .same⟩
  | stop => exact ⟨0, _, (Function.update_eq_self 0 _).symm, .same⟩
  | beginClaimOne hclosed process topic => exact ⟨_, _, rfl, .beganClaimOne hclosed process topic⟩
  | beginClaimBatch hclosed process topics hfree capacity limit =>
    exact ⟨_, _, rfl, .beganClaimBatch hclosed process topics capacity limit rfl⟩
  | beginRenewal hclosed hexecutor hone => exact ⟨_, _, rfl, .beganRenewal hclosed hexecutor hone⟩
  | beginWork hclosed => exact ⟨_, _, rfl, .beganWork hclosed⟩
  | @statement tx session session' effect hopen hstatement =>
    refine ⟨tx, _, ?_, .statement hopen hstatement rfl⟩
    cases hstatement <;> rfl
  | @commitClaim tx => exact ⟨tx, none, by rw [sessions_startExecutors]; rfl, .ended⟩
  | commitRenewal hopen hphase => exact ⟨_, _, rfl, .committed hopen hphase rfl⟩
  | commitWork => exact ⟨_, _, rfl, .ended⟩
  | rollback => exact ⟨_, _, rfl, .ended⟩
  | acknowledge => exact ⟨_, _, rfl, .ended⟩

end Cluster

-- ════════════════════════════════════════════════════════════════════════
-- What statements do
-- ════════════════════════════════════════════════════════════════════════

section Statements

variable {limits : String → Option ℕ} {s : Cluster} {tx : TxId} {i : ActivityId}
  {row row' : ActivityRow} {session session' : Session} {effect : Effect}

@[simp]
theorem ActivityRow.fixed_revokeSettled {terminal : Bool} {now : DbMillis} :
    (row.revokeSettled terminal now).fixed = row.fixed := rfl

theorem Edits.fixed {executors : LeaseToken → Option Executor} (h : Edits executors row row') :
    row'.fixed = row.fixed := by
  cases h with
  | cancelled =>
    unfold ActivityRow.cancelledBy
    split <;> rfl
  | discarded =>
    unfold ActivityRow.discarded
    split <;> rfl
  | _ => rfl

theorem RowStatement.fixed (h : RowStatement s session i row row' session') :
    row'.fixed = row.fixed := by
  cases h with
  | reconcile =>
    unfold ActivityRow.reconciled
    split <;> rfl
  | edit hedits => exact hedits.fixed
  | _ => rfl

/-- What an edit leaves of a lease: it clears it, or it keeps it and does not set a status
that holds a slot. -/
theorem Edits.lease {executors : LeaseToken → Option Executor} (h : Edits executors row row') :
    row'.leaseToken = none ∧ row'.leaseExpiresAt = none ∧ row'.status.holdsSlot = false ∨
    row'.leaseToken = row.leaseToken ∧ row'.leaseExpiresAt = row.leaseExpiresAt ∧
      row'.status.holdsSlot = row.status.holdsSlot := by
  cases h with
  | settled hlease hcancelling hstopped terminal now =>
    refine .inl ⟨rfl, rfl, ?_⟩
    cases terminal <;> rfl
  | paused hrunning => exact .inr ⟨rfl, rfl, by rw [hrunning]; rfl⟩
  | cancelled outcome reason now =>
    cases hstatus : row.status <;> simp [ActivityRow.cancelledBy, hstatus, ActivityRow.leaseCleared,
      ActivityStatus.holdsSlot]
  | discarded now =>
    unfold ActivityRow.discarded
    split
    · exact .inl ⟨rfl, rfl, rfl⟩
    · exact .inr ⟨rfl, rfl, rfl⟩
  | locked => exact .inr ⟨rfl, rfl, rfl⟩
  | _ => exact .inl ⟨rfl, rfl, rfl⟩

/-- A settled row has no lease and no slot. -/
theorem ActivityRow.lease_reconciled {terminal : Bool} {availableAt now : DbMillis} :
    (row.reconciled terminal availableAt now).leaseToken = none ∧
    (row.reconciled terminal availableAt now).leaseExpiresAt = none ∧
    (row.reconciled terminal availableAt now).status.holdsSlot = false := by
  unfold ActivityRow.reconciled
  split
  · refine ⟨rfl, rfl, ?_⟩
    cases terminal <;> rfl
  · refine ⟨rfl, rfl, ?_⟩
    show ActivityStatus.holdsSlot (if attemptCapReached row then .deadLettered else .pending) = false
    split <;> rfl

/-- What a write does to the lease of its row: it clears it, keeps it, sets it for a pending row
with the next token, or renews it. -/
theorem RowStatement.lease_cases (h : RowStatement s session i row row' session') :
    (row'.leaseToken = none ∧ row'.leaseExpiresAt = none ∧ row'.status.holdsSlot = false) ∨
    (row'.leaseToken = row.leaseToken ∧ row'.leaseExpiresAt = row.leaseExpiresAt ∧
      (row'.status.holdsSlot = true → row.status.holdsSlot = true)) ∨
    (∃ c, session = .claim c ∧ session.now = some c.now ∧ row.status = .pending ∧
      row'.leaseToken = some s.nextToken ∧
      row'.leaseExpiresAt = some (c.now + row.leaseDurationMillis)) ∨
    ∃ h now, session = .renewal h ∧ h.phase = .timed now ∧ i = h.claim.row.id ∧
      h.claim.leases row = true ∧ row'.status = row.status ∧ row'.leaseToken = row.leaseToken ∧
      row'.leaseExpiresAt = some (now + h.claim.row.leaseDurationMillis) := by
  cases h with
  | reconcile => exact .inl ActivityRow.lease_reconciled
  | quarantine => exact .inr (.inl ⟨rfl, rfl, fun h => by cases h⟩)
  | @lease c _ _ _ _ _ _ _ hphase htopics hpending hdue hcap hbounds hexpires =>
    refine .inr (.inr (.inl ⟨c, rfl, ?_, hpending, rfl, ?_⟩))
    · rw [Session.now, hphase]
      rfl
    · exact congrArg some (DbMillis.eq_of_checkedPlusMillis hexpires)
  | renew hphase hlease hexpires =>
    exact .inr (.inr (.inr ⟨_, _, rfl, hphase, rfl, hlease, rfl, rfl,
      congrArg some (DbMillis.eq_of_checkedPlusMillis hexpires)⟩))
  | edit hedits =>
    rcases hedits.lease with hcleared | ⟨htoken, hexpires, hslot⟩
    · exact .inl hcleared
    · exact .inr (.inl ⟨htoken, hexpires, fun h => hslot ▸ h⟩)

theorem RowStatement.timed_of_renewal {h : RenewalSession}
    (hwrites : RowStatement s (.renewal h) i row row' session') : ∃ now, h.phase = .timed now := by
  cases hwrites with
  | renew hphase => exact ⟨_, hphase⟩

/-- A statement reads the database clock, or keeps the time that was read. -/
theorem Statement.now (h : Statement limits s tx session effect session') :
    session'.now = session.now ∨ session'.now = some (millis s.clock) := by
  cases h with
  | readClockOne => exact .inr rfl
  | readClockBatch => exact .inr rfl
  | readClockRenewal => exact .inr rfl
  | workLock => exact .inl rfl
  | nextTopic hphase =>
    left
    rcases hphase with hphase | ⟨_, hphase⟩ | ⟨_, hphase⟩ <;>
      simp [Session.now, hphase, ClaimPhase.isTimed]
  | write hfree hrow hwrites =>
    left
    cases hwrites with
    | edit => rfl
    | renew hphase => simp [Session.now, hphase, RenewalPhase.now]
    | reconcile hphase => simp [Session.now, hphase, ClaimPhase.isTimed]
    | quarantine hphase => simp [Session.now, hphase, ClaimPhase.isTimed]
    | lease hphase => simp [Session.now, hphase, ClaimPhase.isTimed]
  | lockCandidate => exact .inl rfl
  | _ => simp_all [Session.now, ClaimPhase.isTimed]

/-- A statement samples the local clock ahead of the database clock, or keeps the sample. -/
theorem Statement.sample (h : Statement limits s tx session effect session') :
    session'.sample = session.sample ∨
      session'.now = none ∧ ∃ p, session'.sample = some (p, s.locals p) := by
  cases h with
  | sampleClock => exact .inr ⟨rfl, _, rfl⟩
  | workLock => exact .inl rfl
  | lockCandidate => exact .inl rfl
  | readClockRenewal => exact .inl rfl
  | nextTopic hphase =>
    left
    rcases hphase with hphase | ⟨_, hphase⟩ | ⟨_, hphase⟩ <;>
      simp [Session.sample, hphase, ClaimPhase.isSampled]
  | write hfree hrow hwrites =>
    left
    cases hwrites with
    | edit => rfl
    | renew hphase => rfl
    | reconcile hphase => simp [Session.sample, hphase, ClaimPhase.isSampled]
    | quarantine hphase => simp [Session.sample, hphase, ClaimPhase.isSampled]
    | lease hphase => simp [Session.sample, hphase, ClaimPhase.isSampled]
  | _ => simp_all [Session.sample, ClaimPhase.isSampled]

/-- A statement keeps the claims that its transaction carries, or adds the one it leased. -/
theorem Statement.claims (h : Statement limits s tx session effect session')
    {claim : ActivityClaim} (hmem : claim ∈ session'.claims) :
    claim ∈ session.claims ∨ claim.leaseToken = s.nextToken ∧
      0 < claim.row.leaseDurationMillis ∧ ∃ i row now row', s.row tx i = some row ∧
        claim.row.fixed = row.fixed ∧ session.now = some now ∧ effect = .write i row' ∧
        row'.fixed = row.fixed ∧ claim.LeasedAt now row' := by
  cases h with
  | write hfree hrow hwrites =>
    cases hwrites with
    | @lease c _ _ _ _ _ row _ hphase htopics hpending hdue hcap hbounds hexpires =>
      rcases List.mem_append.mp hmem with hmem | hmem
      · exact .inl hmem
      · obtain rfl := List.mem_singleton.mp hmem
        refine .inr ⟨rfl, ?_, _, _, c.now, _, hrow, rfl, ?_, rfl, rfl, rfl, rfl, ?_⟩
        · simp only [invalidBounds, Bool.or_eq_false_iff, decide_eq_false_iff_not, not_le] at hbounds
          exact hbounds.1.trans hbounds.2
        · rw [Session.now, hphase]
          rfl
        · exact congrArg some (DbMillis.eq_of_checkedPlusMillis hexpires)
    | _ => exact .inl hmem
  | _ => exact .inl hmem

end Statements

namespace Cluster

variable {limits : String → Option ℕ} {s s' : Cluster} {tx : TxId} {i : ActivityId}
  {r r' : ActivityRow} {claim : ActivityClaim}

/-- The executors after a step: those before, one that was stopped or has learnt of its renewal,
or one that a committed claim started. -/
theorem Step.executors (h : Step limits s s') {t : LeaseToken} {x : Executor}
    (hx : s'.executors t = some x) :
    s.executors t = some x ∨
    (∃ x₀, s.executors x₀.claim.leaseToken = some x₀ ∧ t = x₀.claim.leaseToken ∧
      (x = { x₀ with active := false } ∨ ∃ tx h now, s.sessions tx = some (.renewal h) ∧
        h.phase = .committed now ∧ x₀.claim.leaseToken = h.claim.leaseToken ∧
        x = { x₀ with leaseDeadline :=
          leaseDeadlineFromSample h.leaseSampleStarted h.claim.row.leaseDurationMillis })) ∨
    ∃ tx c claim, s.sessions tx = some (.claim c) ∧ claim ∈ c.claims ∧ claim.leaseToken = t ∧
      s' = (s.commit tx none).startExecutors c ∧ x = ⟨claim, c.process,
        leaseDeadlineFromSample c.leaseSampleStarted claim.row.leaseDurationMillis, true⟩ := by
  cases h with
  | @statement tx session session' effect hopen hstatement =>
    cases hstatement <;> exact .inl hx
  | @commitClaim tx c hopen hdone =>
    rcases executors_startExecutors hx with hx | ⟨claim, hmem, ht, rfl⟩
    · exact .inl hx
    · exact .inr (.inr ⟨tx, c, claim, hopen, hmem, ht, rfl, rfl⟩)
  | @acknowledge tx h now x₀ hopen hphase hexecutor hclaim =>
    rw [executors_setExecutor] at hx
    split at hx
    next ht =>
      cases hx
      exact .inr (.inl ⟨x₀, hexecutor, ht, .inr ⟨tx, h, now, hopen, hphase, hclaim, rfl⟩⟩)
    · exact .inl hx
  | @stop x₀ hexecutor =>
    rw [executors_setExecutor] at hx
    split at hx
    next ht =>
      cases hx
      exact .inr (.inl ⟨x₀, hexecutor, ht, .inl rfl⟩)
    · exact .inl hx
  | _ => exact .inl hx

/-- A renewal after a step was there before, with the time it had read or the one it reads now,
or it has begun. -/
theorem Moves.renewal {h : RenewalSession} (hmoves : Moves limits s s' tx (some (.renewal h))) :
    (∃ h₀, s.sessions tx = some (.renewal h₀) ∧ h.claim = h₀.claim ∧ h.process = h₀.process ∧
      h.leaseSampleStarted = h₀.leaseSampleStarted ∧
      (h.phase.now = h₀.phase.now ∨ h.phase.now = some (millis s.clock))) ∨
    ∃ x, s.executors x.claim.leaseToken = some x ∧
      (∀ tx' h', s.sessions tx' = some (.renewal h') →
        h'.claim.leaseToken ≠ x.claim.leaseToken) ∧
      h = ⟨x.claim, x.process, s.locals x.process, .sampled⟩ := by
  generalize hnext : some (Session.renewal h) = next at hmoves
  cases hmoves with
  | same => exact .inl ⟨h, hnext.symm, rfl, rfl, rfl, .inl rfl⟩
  | beganRenewal hclosed hexecutor hone =>
    cases hnext
    exact .inr ⟨_, hexecutor, hone, rfl⟩
  | committed hopen hphase =>
    cases hnext
    exact .inl ⟨_, hopen, rfl, rfl, rfl, .inl (by rw [hphase]; rfl)⟩
  | statement hopen hstatement =>
    cases hnext
    cases hstatement with
    | readClockRenewal hphase => exact .inl ⟨_, hopen, rfl, rfl, rfl, .inr rfl⟩
    | write hfree hrow hwrites =>
      cases hwrites with
      | renew hphase =>
        exact .inl ⟨_, hopen, rfl, rfl, rfl, .inl (by rw [hphase]; rfl)⟩
  | _ => cases hnext

/-- A claim transaction after a step is as before, or it has begun, or it has run a statement. -/
theorem Moves.claimSession {c : ClaimSession} (h : Moves limits s s' tx (some (.claim c))) :
    s.sessions tx = some (.claim c) ∨
    (s.sessions tx = none ∧ ∃ process topic, c = ⟨process, s.locals process, 0, [], [topic],
      fun _ => 1, 1, [], .sampled⟩) ∨
    (s.sessions tx = none ∧ ∃ process topics capacity limit,
      c = ⟨process, 0, 0, topics, topics, capacity, limit, [], .locked⟩ ∧
      s' = (s.apply tx (.lockTopics topics)).setSession tx (some (.claim c))) ∨
    ∃ c₀ effect, s.sessions tx = some (.claim c₀) ∧
      Statement limits s tx (.claim c₀) effect (.claim c) ∧
      s' = (s.apply tx effect).setSession tx (some (.claim c)) := by
  generalize hnext : some (Session.claim c) = next at h
  cases h with
  | same => exact .inl rfl
  | ended => cases hnext
  | beganClaimOne hclosed process topic =>
    cases hnext
    exact .inr (.inl ⟨hclosed, process, topic, rfl⟩)
  | beganClaimBatch hclosed process topics capacity limit hstate =>
    cases hnext
    exact .inr (.inr (.inl ⟨hclosed, process, topics, capacity, limit, rfl, hstate⟩))
  | beganRenewal => cases hnext
  | beganWork => cases hnext
  | committed => cases hnext
  | @statement session session' effect hopen hstatement hstate =>
    cases hnext
    obtain ⟨c₀, rfl⟩ : ∃ c₀, session = .claim c₀ := by
      cases hstatement with
      | write _ _ hwrites => cases hwrites <;> exact ⟨_, rfl⟩
      | _ => exact ⟨_, rfl⟩
    exact .inr (.inr (.inr ⟨c₀, effect, hopen, hstatement, hstate⟩))

/-- A claim transaction that is open after a step. -/
theorem Step.claimSession (h : Step limits s s') {c : ClaimSession}
    (hopen : s'.sessions tx = some (.claim c)) :
    s.sessions tx = some (.claim c) ∨
    (s.sessions tx = none ∧ ∃ process topic, c = ⟨process, s.locals process, 0, [], [topic],
      fun _ => 1, 1, [], .sampled⟩) ∨
    (s.sessions tx = none ∧ ∃ process topics capacity limit,
      c = ⟨process, 0, 0, topics, topics, capacity, limit, [], .locked⟩ ∧
      s' = (s.apply tx (.lockTopics topics)).setSession tx (some (.claim c))) ∨
    ∃ c₀ effect, s.sessions tx = some (.claim c₀) ∧
      Statement limits s tx (.claim c₀) effect (.claim c) ∧
      s' = (s.apply tx effect).setSession tx (some (.claim c)) := by
  obtain ⟨tx₀, next, hsessions, hmoves⟩ := h.sessions
  rw [hsessions, Function.update_apply] at hopen
  split at hopen
  next htx =>
    subst htx hopen
    exact hmoves.claimSession
  · exact .inl hopen

-- ════════════════════════════════════════════════════════════════════════
-- The invariant
-- ════════════════════════════════════════════════════════════════════════

/-- A claim that was made: its token was drawn, and its row is there. -/
structure Known (s : Cluster) (claim : ActivityClaim) : Prop where
  token_lt : claim.leaseToken < s.nextToken
  positive : 0 < claim.row.leaseDurationMillis
  has : ∃ r, s.Has claim.row.id r ∧ r.leaseDurationMillis = claim.row.leaseDurationMillis

/-- What holds of the leases in every state. -/
structure Leases (s : Cluster) : Prop where
  id : ∀ {i r}, s.Has i r → r.id = i
  fixed : ∀ {i r r'}, s.Has i r → s.Has i r' → r.fixed = r'.fixed
  token_lt : ∀ {i r t}, s.Has i r → r.leaseToken = some t → t < s.nextToken
  expires_le : ∀ {i r e}, s.Has i r → r.leaseExpiresAt = some e →
    e ≤ millis s.clock + r.leaseDurationMillis
  now_le : ∀ {tx session now}, s.sessions tx = some session → session.now = some now →
    now ≤ millis s.clock
  session_known : ∀ {tx session claim}, s.sessions tx = some session → claim ∈ session.claims →
    s.Known claim
  executor_known : ∀ {t x}, s.executors t = some x → x.claim.leaseToken = t ∧ s.Known x.claim
  /-- The heartbeats of a claim are sent one after another. -/
  renewal_one : ∀ {tx tx' h h'}, s.sessions tx = some (.renewal h) →
    s.sessions tx' = some (.renewal h') → h.claim.leaseToken = h'.claim.leaseToken → tx = tx'
  /-- A renewal never shortens the lease of its claim. -/
  renews : ∀ {tx h now r e}, s.sessions tx = some (.renewal h) → h.phase.now = some now →
    s.Has h.claim.row.id r → r.leaseToken = some h.claim.leaseToken → r.leaseExpiresAt = some e →
    e ≤ now + h.claim.row.leaseDurationMillis

theorem millis_mono {t t' : Nanos} (h : t ≤ t') : millis t ≤ millis t' :=
  Int.ediv_le_ediv (by decide) h

/-- Where the fixed columns of a version come from. -/
theorem Step.fixed_version (h : Step limits s s') (hr : s'.Has i r) :
    (∃ r₀, s.Has i r₀ ∧ r.fixed = r₀.fixed) ∨
      s.activities.find i = none ∧ r.id = i ∧ ∀ r', s'.Has i r' → r' = r := by
  rcases h.version hr with hold | ⟨hnone, hid, -, -, hone⟩ |
    ⟨tx, session, session', row, -, -, hrow, hwrites, -⟩
  · exact .inl ⟨r, hold, rfl⟩
  · exact .inr ⟨hnone, hid, hone⟩
  · exact .inl ⟨row, has_row hrow, hwrites.fixed⟩

namespace Leases

/-- The fixed columns of a row that was there before the step. -/
theorem fixed_step (hI : Leases s) (h : Step limits s s') (hr : s.Has i r) (hr' : s'.Has i r') :
    r'.fixed = r.fixed := by
  rcases h.fixed_version hr' with ⟨r₀, hr₀, heq⟩ | ⟨hnone, -, -⟩
  · exact heq.trans (hI.fixed hr₀ hr)
  · obtain ⟨v, hv, -⟩ := hr
    rw [hnone] at hv
    cases hv

/-- No lease ends later than its duration from now. -/
theorem expires_step (hI : Leases s) (h : Step limits s s') {e : DbMillis} (hr : s'.Has i r)
    (he : r.leaseExpiresAt = some e) : e ≤ millis s.clock + r.leaseDurationMillis := by
  rcases h.version hr with hold | ⟨-, -, -, hnone, -⟩ |
    ⟨tx, session, session', row, hopen, -, hrow, hwrites, -⟩
  · exact hI.expires_le hold he
  · rw [hnone] at he
    cases he
  · have hduration : r.leaseDurationMillis = row.leaseDurationMillis :=
      ActivityRow.duration_of_fixed hwrites.fixed
    rw [hduration]
    rcases hwrites.lease_cases with ⟨-, hnone, -⟩ | ⟨-, hkept, -⟩ | ⟨c, -, hnow, -, -, hleased⟩ |
      ⟨h, now, rfl, hphase, rfl, -, -, -, hrenewed⟩
    · rw [hnone] at he
      cases he
    · exact hI.expires_le (has_row hrow) (hkept ▸ he)
    · rw [hleased] at he
      cases he
      exact Int.add_le_add_right (hI.now_le hopen hnow) _
    · rw [hrenewed] at he
      cases he
      obtain ⟨r₀, hr₀, heq⟩ := (hI.session_known hopen (List.mem_singleton.mpr rfl)).has
      have hrow₀ : row.leaseDurationMillis = r₀.leaseDurationMillis :=
        ActivityRow.duration_of_fixed (hI.fixed (has_row hrow) hr₀)
      rw [hrow₀, heq]
      exact Int.add_le_add_right (hI.now_le hopen (by rw [Session.now, hphase]; rfl)) _

/-- A claim that was made stays one. -/
theorem known_step (hI : Leases s) (h : Step limits s s') (hclaim : s.Known claim) :
    s'.Known claim := by
  obtain ⟨r, ⟨v, hv, hr⟩, hduration⟩ := hclaim.has
  obtain ⟨v', hv'⟩ := Option.isSome_iff_exists.mp (h.isSome_find (Option.isSome_of_eq_some hv))
  have hr' : s'.Has claim.row.id v'.committed := ⟨v', hv', .inl rfl⟩
  refine ⟨hclaim.token_lt.trans_le h.nextToken_le, hclaim.positive, v'.committed, hr', ?_⟩
  have hfixed := hI.fixed_step h ⟨v, hv, hr⟩ hr'
  exact (ActivityRow.duration_of_fixed hfixed).trans hduration

/-- The tokens of the versions were drawn. -/
theorem token_step (hI : Leases s) (h : Step limits s s') {t : LeaseToken} (hr : s'.Has i r)
    (ht : r.leaseToken = some t) : t < s'.nextToken := by
  rcases h.version hr with hold | ⟨-, -, hnone, -, -⟩ |
    ⟨tx, session, session', row, hopen, -, hrow, hwrites, hstate⟩
  · exact (hI.token_lt hold ht).trans_le h.nextToken_le
  · rw [hnone] at ht
    cases ht
  · rcases hwrites.lease_cases with ⟨hnone, -, -⟩ | ⟨hkept, -, -⟩ | ⟨c, -, -, -, hleased, -⟩ |
      ⟨h', now, -, -, -, -, -, hkept, -⟩
    · rw [hnone] at ht
      cases ht
    · exact (hI.token_lt (has_row hrow) (hkept ▸ ht)).trans_le h.nextToken_le
    · rw [hleased] at ht
      cases ht
      rw [hstate, setSession, apply, if_pos hleased]
      exact Nat.lt_succ_self _
    · exact (hI.token_lt (has_row hrow) (hkept ▸ ht)).trans_le h.nextToken_le

/-- A version with the token of a renewal ends no later than the renewal lets it. -/
theorem renews_step (hI : Leases s) (h : Step limits s s') {hb : RenewalSession} {now e : DbMillis}
    (hopen : s.sessions tx = some (.renewal hb)) (hnow : hb.phase.now = some now)
    (hr : s'.Has hb.claim.row.id r) (ht : r.leaseToken = some hb.claim.leaseToken)
    (he : r.leaseExpiresAt = some e) : e ≤ now + hb.claim.row.leaseDurationMillis := by
  rcases h.version hr with hold | ⟨-, -, -, hnone, -⟩ |
    ⟨tx', session, session', row, hopen', -, hrow, hwrites, -⟩
  · exact hI.renews hopen hnow hold ht he
  · rw [hnone] at he
    cases he
  · rcases hwrites.lease_cases with ⟨-, hnone, -⟩ | ⟨htoken, hkept, -⟩ | ⟨c, -, -, -, htoken, -⟩ |
      ⟨h', now', rfl, hphase, -, hlease, -, htoken, hrenewed⟩
    · rw [hnone] at he
      cases he
    · exact hI.renews hopen hnow (has_row hrow) (htoken ▸ ht) (hkept ▸ he)
    · -- The token of a new lease was not drawn before.
      rw [ht] at htoken
      have hlt := (hI.session_known hopen (List.mem_singleton.mpr rfl)).token_lt
      exact absurd (Option.some_inj.mp htoken) hlt.ne
    · -- Another renewal of the claim is this one.
      rw [ht, (ActivityClaim.status_of_leases hlease).2, Option.some_inj] at htoken
      obtain rfl := hI.renewal_one hopen hopen' htoken
      rw [hopen] at hopen'
      cases hopen'
      rw [hphase] at hnow
      cases hnow
      rw [hrenewed] at he
      cases he
      exact le_rfl

/-- The invariant is kept by every step. -/
theorem step (hI : Leases s) (h : Step limits s s') : Leases s' := by
  obtain ⟨tx₀, next, hsessions, hmoves⟩ := h.sessions
  constructor
  case id =>
    intro i r hr
    rcases h.fixed_version hr with ⟨r₀, hr₀, heq⟩ | ⟨-, hid, -⟩
    · exact (ActivityRow.id_of_fixed heq).trans (hI.id hr₀)
    · exact hid
  case fixed =>
    intro i r r' hr hr'
    rcases h.fixed_version hr with ⟨r₀, hr₀, heq⟩ | ⟨-, -, hone⟩
    · rw [heq, hI.fixed_step h hr₀ hr']
    · rw [hone r' hr']
  case token_lt => exact hI.token_step h
  case expires_le =>
    intro i r e hr he
    exact (hI.expires_step h hr he).trans (Int.add_le_add_right (millis_mono h.clock_le) _)
  case now_le =>
    intro tx session now hopen hnow
    refine le_trans ?_ (millis_mono h.clock_le)
    rw [hsessions, Function.update_apply] at hopen
    split at hopen
    · subst hopen
      generalize hnext : some session = next at hmoves
      cases hmoves with
      | same => exact hI.now_le hnext.symm hnow
      | ended => cases hnext
      | committed hopen hphase =>
        cases hnext
        refine hI.now_le hopen ?_
        rw [Session.now, hphase]
        exact hnow
      | statement hopen hstatement =>
        cases hnext
        rcases hstatement.now with hkept | hread
        · exact hI.now_le hopen (hkept ▸ hnow)
        · rw [hread] at hnow
          cases hnow
          exact le_rfl
      | _ =>
        cases hnext
        cases hnow
    · exact hI.now_le hopen hnow
  case session_known =>
    intro tx session claim hopen hmem
    rw [hsessions, Function.update_apply] at hopen
    split at hopen
    next htx =>
      subst htx hopen
      generalize hnext : some session = next at hmoves
      cases hmoves with
      | same => exact hI.known_step h (hI.session_known hnext.symm hmem)
      | ended => cases hnext
      | committed hopen hphase =>
        cases hnext
        exact hI.known_step h (hI.session_known hopen hmem)
      | beganRenewal hclosed hexecutor hone =>
        cases hnext
        obtain rfl := List.mem_singleton.mp hmem
        exact hI.known_step h (hI.executor_known hexecutor).2
      | statement hopen hstatement hstate =>
        cases hnext
        rcases hstatement.claims hmem with hold | ⟨htoken, hpos, i, row, now, row', hrow, hfixed, -,
          rfl, hfixed', hleased⟩
        · exact hI.known_step h (hI.session_known hopen hold)
        · obtain rfl : row.id = i := hI.id (has_row hrow)
          obtain ⟨v, hv, -⟩ := Option.map_eq_some_iff.mp hrow
          have hnew : s'.Has claim.row.id row' := by
            rw [ActivityRow.id_of_fixed hfixed, hstate]
            exact has_write (Option.isSome_of_eq_some hv)
          exact ⟨hI.token_step h hnew hleased.token, hpos, row', hnew,
            ActivityRow.duration_of_fixed (hfixed'.trans hfixed.symm)⟩
      | _ =>
        cases hnext
        cases hmem
    · exact hI.known_step h (hI.session_known hopen hmem)
  case executor_known =>
    intro t x hx
    rcases h.executors hx with hx | ⟨x₀, hx₀, rfl, rfl | ⟨tx, hb, now, -, -, -, rfl⟩⟩ |
      ⟨tx, c, claim, hopen, hmem, rfl, -, rfl⟩
    · exact ⟨(hI.executor_known hx).1, hI.known_step h (hI.executor_known hx).2⟩
    · exact ⟨rfl, hI.known_step h (hI.executor_known hx₀).2⟩
    · exact ⟨rfl, hI.known_step h (hI.executor_known hx₀).2⟩
    · exact ⟨rfl, hI.known_step h (hI.session_known hopen hmem)⟩
  case renewal_one =>
    intro tx tx' hb hb' hopen hopen' heq
    rw [hsessions, Function.update_apply] at hopen hopen'
    split at hopen <;> split at hopen'
    next htx htx' => rw [htx, htx']
    next htx htx' =>
      subst hopen
      rcases hmoves.renewal with ⟨h₀, hopen₀, hclaim, -⟩ | ⟨x, -, hone, rfl⟩
      · rw [htx]
        exact hI.renewal_one hopen₀ hopen' (hclaim ▸ heq)
      · exact absurd heq.symm (hone tx' hb' hopen')
    next htx htx' =>
      subst hopen'
      rcases hmoves.renewal with ⟨h₀, hopen₀, hclaim, -⟩ | ⟨x, -, hone, rfl⟩
      · rw [htx']
        exact hI.renewal_one hopen hopen₀ (hclaim ▸ heq)
      · exact absurd heq (hone tx hb hopen)
    next htx htx' => exact hI.renewal_one hopen hopen' heq
  case renews =>
    intro tx hb now r e hopen hnow hr ht he
    rw [hsessions, Function.update_apply] at hopen
    split at hopen
    · subst hopen
      rcases hmoves.renewal with ⟨h₀, hopen₀, hclaim, -, -, hkept | hread⟩ | ⟨x, -, -, rfl⟩
      · rw [hclaim] at hr ht ⊢
        exact hI.renews_step h hopen₀ (hkept ▸ hnow) hr ht he
      · rw [hread] at hnow
        cases hnow
        obtain ⟨r₀, hr₀, hduration⟩ :=
          (hI.session_known hopen₀ (List.mem_singleton.mpr rfl)).has
        have hfixed := hI.fixed_step h hr₀ (hclaim ▸ hr)
        rw [hclaim, ← hduration, ← ActivityRow.duration_of_fixed hfixed]
        exact hI.expires_step h hr he
      · cases hnow
    · exact hI.renews_step h hopen hnow hr ht he

/-- The invariant holds of every reachable state. -/
theorem of_reachable (h : Reachable limits s) : Leases s := by
  obtain ⟨clock, locals, h⟩ := h
  induction h with
  | refl =>
    have hnone : ∀ i r, ¬ (start clock locals).Has i r := by
      rintro i r ⟨v, hv, -⟩
      cases hv
    constructor
    case id => exact fun hr => absurd hr (hnone _ _)
    case fixed => exact fun hr => absurd hr (hnone _ _)
    case token_lt => exact fun hr => absurd hr (hnone _ _)
    case expires_le => exact fun hr => absurd hr (hnone _ _)
    case now_le => exact fun hopen => by cases hopen
    case session_known => exact fun hopen => by cases hopen
    case executor_known => exact fun hx => by cases hx
    case renewal_one => exact fun hopen => by cases hopen
    case renews => exact fun hopen => by cases hopen
  | tail _ hstep ih => exact ih.step hstep

end Leases

end Cluster

namespace Sample

/-- A pending activity with a lease of two seconds. -/
def mailActivity : ActivityRow where
  id := 1
  workflowId := 1
  commandSequence := 1
  replacementNumber := 0
  kind := "send"
  version := 1
  topic := "mail"
  payloadJson := "null"
  status := .pending
  availableAt := 0
  maxAttempts := 3
  attemptCount := 0
  timeoutMillis := 1000
  leaseDurationMillis := 2000
  retryPolicy := .fixed 1
  operationKey := none
  providerResultJson := none
  lastErrorCategory := none
  lastErrorMessage := none
  leaseOwner := none
  leaseToken := none
  leaseExpiresAt := none
  rootActivityId := none
  replacesActivityId := none
  createdAt := 0
  updatedAt := 0
  completedAt := none

/-- Every topic runs one activity at a time. -/
def oneEach : String → Option ℕ := fun _ => some 1

/-- The claim of the activity by the first worker, and its executor. -/
def mailClaim : ActivityClaim :=
  ⟨mailActivity.leased "worker" 0 2000, none, 1, 0, ⟨.fixed 1, rfl⟩⟩

def mailExecutor : Executor := ⟨mailClaim, 0, leaseDeadlineFromSample 0 2000, true⟩

/-- An activity whose lease was renewed and ran out, while its workflow is locked: a second worker
counts it and claims nothing. Then the lock is gone, and the worker takes the activity over. -/
theorem mail_reachable :
    (∃ s v, Cluster.Reachable oneEach s ∧ s.activities.find 1 = some v ∧
      expiredHolder "mail" (millis s.clock) v.committed = true ∧
      (s.activities.select fun v => v.committed.topic == "mail" &&
        v.committed.status.holdsSlot).length = 1) ∧
    ∃ s x y, Cluster.Reachable oneEach s ∧ s.executors 0 = some y ∧
      y.claim.leaseToken = 0 ∧ y.active = true ∧
      s.executors 1 = some x ∧ x.claim.leaseToken = 1 ∧ x.active = true ∧
      s.locals x.process < x.leaseDeadline ∧ y.claim.row.id = x.claim.row.id := by
  have h : Relation.ReflTransGen (Cluster.Step oneEach) (Cluster.start 0 fun _ => 0) _ := .refl
  have h := h.tail (.insert _ (rfl : mailActivity.status = _) rfl rfl)
  -- worker 0 claims the activity until 2000
  have h := h.tail (@Cluster.Step.beginClaimOne _ _ 1 rfl 0 "mail")
  have h := h.tail (@Cluster.Step.statement _ _ 1 _ _ _ rfl (.readClockOne rfl rfl))
  have h := h.tail (@Cluster.Step.statement _ _ 1 _ _ _ rfl (.lockTopic rfl rfl rfl))
  have h := h.tail (@Cluster.Step.statement _ _ 1 _ _ _ rfl (.scan rfl rfl))
  have h := h.tail (@Cluster.Step.statement _ _ 1 _ _ _ rfl
    (@Statement.count _ _ _ _ _ _ _ 1 rfl rfl (by rintro _ ⟨⟩; rfl)))
  have h := h.tail (@Cluster.Step.statement _ _ 1 _ _ _ rfl
    (@Statement.selectCandidates _ _ _ _ "mail" [] 1 [1] rfl rfl (by
      intro i hi
      obtain rfl := List.mem_singleton.mp hi
      exact ⟨_, rfl, rfl, rfl, le_rfl⟩)))
  have h := h.tail (@Cluster.Step.statement _ _ 1 _ _ _ rfl (.write (by rintro v ⟨⟩ t r ⟨⟩) rfl
    (@RowStatement.lease _ _ _ _ 1 [] 0 _ 2000 rfl rfl rfl le_rfl rfl rfl rfl "worker" none
      ⟨.fixed 1, rfl⟩)))
  have h := h.tail (@Cluster.Step.statement _ _ 1 _ _ _ rfl (.nextTopic (.inr (.inl ⟨_, rfl⟩)) rfl))
  have h := h.tail (@Cluster.Step.commitClaim _ _ 1 _ rfl (.inl ⟨rfl, rfl⟩))
  -- and renews the lease until 3000
  have h := h.tail (.tick _ 1000000000 fun _ => 0)
  have h := h.tail (@Cluster.Step.beginRenewal _ _ 2 rfl mailExecutor rfl (by
    intro tx hb hopen
    by_cases ht : tx = 1
    · subst ht
      cases hopen
    · simp [Cluster.startExecutors, Cluster.commit, Cluster.setSession, Cluster.setExecutor,
        Cluster.release, Cluster.publish, Cluster.apply, Cluster.insertRow, Cluster.start] at hopen))
  have h := h.tail (@Cluster.Step.statement _ _ 2 _ _ _ rfl (.readClockRenewal rfl))
  have h := h.tail (@Cluster.Step.statement _ _ 2 _ _ _ rfl (.write (by rintro v ⟨⟩ t r ⟨⟩) rfl
    (.renew rfl rfl (show _ = some (3000 : ℤ) from rfl))))
  have h := h.tail (@Cluster.Step.commitRenewal _ _ 2 _ _ rfl rfl)
  have h := h.tail (@Cluster.Step.acknowledge _ _ 2 _ _ mailExecutor rfl rfl rfl rfl)
  have h := h.tail (.tick _ 2000000000 fun _ => 0)
  -- the application holds the workflow, so that worker 1 leaves the lease unsettled
  have h := h.tail (@Cluster.Step.beginWork _ _ 3 rfl)
  have h := h.tail (@Cluster.Step.statement _ _ 3 _ _ _ rfl
    (@Statement.workLock _ _ _ 1 (fun _ h => by cases h)))
  have h := h.tail (@Cluster.Step.beginClaimOne _ _ 4 rfl 1 "mail")
  have h := h.tail (@Cluster.Step.statement _ _ 4 _ _ _ rfl (.readClockOne rfl rfl))
  have h := h.tail (@Cluster.Step.statement _ _ 4 _ _ _ rfl (.lockTopic rfl rfl rfl))
  have h := h.tail (@Cluster.Step.statement _ _ 4 _ _ _ rfl (.scan rfl rfl))
  have h := h.tail (@Cluster.Step.statement _ _ 4 _ _ _ rfl
    (@Statement.skipWorkflow _ _ _ _ 1 1 [] [] 3 rfl rfl (by decide)))
  have h := h.tail (@Cluster.Step.statement _ _ 4 _ _ _ rfl
    (@Statement.count _ _ _ _ _ _ _ 1 rfl rfl (by rintro _ ⟨⟩; rfl)))
  have h := h.tail (@Cluster.Step.statement _ _ 4 _ _ _ rfl
    (.nextTopic (.inl (congrArg ClaimPhase.selecting (by decide +kernel))) rfl))
  have h := h.tail (@Cluster.Step.commitClaim _ _ 4 _ rfl (.inl ⟨rfl, rfl⟩))
  refine ⟨⟨_, _, ⟨_, _, h⟩, rfl, by decide +kernel, by decide +kernel⟩, ?_⟩
  -- now worker 1 settles it and claims the activity
  have h := h.tail (@Cluster.Step.commitWork _ _ 3 rfl)
  have h := h.tail (@Cluster.Step.beginClaimOne _ _ 5 rfl 1 "mail")
  have h := h.tail (@Cluster.Step.statement _ _ 5 _ _ _ rfl (.readClockOne rfl rfl))
  have h := h.tail (@Cluster.Step.statement _ _ 5 _ _ _ rfl (.lockTopic rfl rfl rfl))
  have h := h.tail (@Cluster.Step.statement _ _ 5 _ _ _ rfl (.scan rfl rfl))
  have h := h.tail (@Cluster.Step.statement _ _ 5 _ _ _ rfl
    (@Statement.lockWorkflow _ _ _ _ 1 1 [] [] rfl (fun _ h => by cases h)))
  have h := h.tail (@Cluster.Step.statement _ _ 5 _ _ _ rfl (.write (by rintro v ⟨⟩ t r ⟨⟩) rfl
    (.reconcile rfl rfl rfl false 3000)))
  have h := h.tail (@Cluster.Step.statement _ _ 5 _ _ _ rfl
    (@Statement.count _ _ _ _ _ _ _ 1 rfl rfl (by rintro _ ⟨⟩; rfl)))
  have h := h.tail (@Cluster.Step.statement _ _ 5 _ _ _ rfl
    (@Statement.selectCandidates _ _ _ _ "mail" [] 1 [1]
      (congrArg ClaimPhase.selecting (by decide +kernel)) rfl (List.forall_mem_singleton.mpr
        ⟨_, rfl, rfl, rfl, by decide +kernel⟩)))
  have h := h.tail (@Cluster.Step.statement _ _ 5 _ _ _ rfl (.write (by rintro v ⟨⟩ t r ⟨⟩; rfl) rfl
    (@RowStatement.lease _ _ _ _ 1 [] 0 _ 5000 rfl rfl rfl (by decide +kernel) rfl rfl
      (by decide +kernel) "worker" none ⟨.fixed 1, rfl⟩)))
  have h := h.tail (@Cluster.Step.statement _ _ 5 _ _ _ rfl (.nextTopic (.inr (.inl ⟨_, rfl⟩)) rfl))
  have h := h.tail (@Cluster.Step.commitClaim _ _ 5 _ rfl (.inl ⟨rfl, rfl⟩))
  exact ⟨_, _, _, ⟨_, _, h⟩, rfl, rfl, rfl, rfl, rfl, rfl, by decide +kernel, rfl⟩

end Sample

end DurableWorkflows
