import DurableWorkflows.Cluster.Leases

/-!
# Exclusion of executors

An executor runs its handler until a deadline on the clock of its own process. The
deadline is sampled before the lease is timed on the database clock, and it is one
millisecond short, so it has passed before the lease has. Until then no other claim
takes the row: it is reconciled only after its lease, finished only by its executor,
and a renewal that is dropped but still commits only makes the lease longer.

## Main definitions

- `Cluster.Executes`: an executor that is before its deadline
- `Cluster.Backs`: the lease that backs a local deadline
- `Cluster.Deadlines`: the invariant

## Main results

- `Cluster.Backs.step`: a step leaves the lease behind a deadline in place
- `reachable_exclusive`: at most one executor of an activity is before its deadline
-/

namespace DurableWorkflows

namespace Cluster

variable {limits : String → Option ℕ} {s s' : Cluster} {tx : TxId} {i : ActivityId}
  {r r' : ActivityRow} {v : Versioned TxId ActivityRow} {claim : ActivityClaim}

/-- An executor whose handler runs and that is before its local deadline. -/
structure Executes (s : Cluster) (x : Executor) : Prop where
  executor : s.executors x.claim.leaseToken = some x
  active : x.active = true
  before : s.locals x.process < x.leaseDeadline

/-- The row has the lease of a claim, at least until a time. -/
structure LeasedUntil (claim : ActivityClaim) (expires : DbMillis) (row : ActivityRow) : Prop where
  holdsSlot : row.status.holdsSlot = true
  token : row.leaseToken = some claim.leaseToken
  until_le : ∃ e, row.leaseExpiresAt = some e ∧ expires ≤ e

/-- A lease backs a deadline of a process: either it has passed, and the deadline before it, or
every version of the row still has it. -/
def Backs (s : Cluster) (claim : ActivityClaim) (p : ProcessId) (deadline : Nanos) : Prop :=
  ∃ expires : DbMillis, deadline - s.locals p ≤ expires * nanosPerMilli - s.clock ∧
    (expires * nanosPerMilli ≤ s.clock ∨
      ∀ r, s.Has claim.row.id r → LeasedUntil claim expires r)

-- ════════════════════════════════════════════════════════════════════════
-- Clocks
-- ════════════════════════════════════════════════════════════════════════

/-- No process clock is slower than the database clock. -/
theorem Step.clocks (h : Step limits s s') :
    ∃ elapsed : ℕ, s'.clock = s.clock + elapsed ∧ ∀ p, s.locals p + elapsed ≤ s'.locals p := by
  have hsame : s'.clock = s.clock → s'.locals = s.locals →
      ∃ elapsed : ℕ, s'.clock = s.clock + elapsed ∧ ∀ p, s.locals p + elapsed ≤ s'.locals p := by
    intro hclock hlocals
    refine ⟨0, by simp [hclock], fun p => by simp [hlocals]⟩
  cases h with
  | tick elapsed lead =>
    exact ⟨elapsed, rfl, fun p => Int.le_add_of_nonneg_right (Int.natCast_nonneg (lead p))⟩
  | @statement tx session session' effect hopen hstatement =>
    refine hsame ?_ ?_ <;> cases hstatement <;> rfl
  | commitClaim => exact hsame clock_startExecutors locals_startExecutors
  | _ => exact hsame rfl rfl

/-- The time of a process since a deadline bounds the time of the database. -/
theorem sub_locals_step (h : Step limits s s') {p : ProcessId} {t b : ℤ}
    (hb : t - s.locals p ≤ b - s.clock) : t - s'.locals p ≤ b - s'.clock := by
  obtain ⟨elapsed, hclock, hlocals⟩ := h.clocks
  have helapsed : ∀ l l' c : ℤ, l + elapsed ≤ l' → t - l ≤ b - c → t - l' ≤ b - (c + elapsed) := by
    omega
  rw [hclock]
  exact helapsed _ _ _ (hlocals p) hb

/-- A database time that was read after a sample bounds the deadline from the sample. -/
theorem deadline_le {started l clock now duration : ℤ} (hpos : 0 < duration)
    (hb : started - l ≤ (now + 1) * nanosPerMilli - clock) :
    leaseDeadlineFromSample started duration - l ≤ (now + duration) * nanosPerMilli - clock := by
  have hscaled : started + (duration - 1) * nanosPerMilli - l ≤
      (now + duration) * nanosPerMilli - clock := by
    unfold nanosPerMilli at *
    omega
  rwa [leaseDeadlineFromSample, max_eq_right (by omega)]

theorem lt_millis_succ (t : Nanos) : t < (millis t + 1) * nanosPerMilli :=
  Int.lt_ediv_add_one_mul_self t (by decide)

theorem millis_mul_le (t : Nanos) : millis t * nanosPerMilli ≤ t :=
  Int.ediv_mul_le t (by decide)

-- ════════════════════════════════════════════════════════════════════════
-- Row locks
-- ════════════════════════════════════════════════════════════════════════

/-- A version that an open transaction holds stays held until it writes again or commits. -/
theorem Step.held (h : Step limits s s') {session' : Session} (hv : s.activities.find i = some v)
    (hheld : v.held = some (tx, r)) (hopen : s'.sessions tx = some session') :
    (∃ v', s'.activities.find i = some v' ∧ v'.held = some (tx, r)) ∨
    (∃ session r', s.sessions tx = some session ∧ RowStatement s session i r r' session') ∨
    ∃ (h : RenewalSession) (now : DbMillis), session' = .renewal { h with phase := .committed now } := by
  have hsame : s'.activities = s.activities →
      ∃ v', s'.activities.find i = some v' ∧ v'.held = some (tx, r) :=
    fun heq => ⟨v, heq ▸ hv, hheld⟩
  -- A commit or a rollback of another transaction leaves the lock.
  have hothers : ∀ tx₀, tx ≠ tx₀ → (s'.activities = (s.publish tx₀).activities ∨
      s'.activities = (s.discard tx₀).activities) →
      ∃ v', s'.activities.find i = some v' ∧ v'.held = some (tx, r) := by
    rintro tx₀ hne (heq | heq)
    · refine ⟨v.commit tx₀, by rw [heq, find_publish, hv]; rfl, ?_⟩
      simp [Versioned.commit, hheld, hne]
    · refine ⟨v.rollback tx₀, by rw [heq, find_discard, hv]; rfl, ?_⟩
      simp [Versioned.rollback, hheld, hne]
  cases h with
  | insert => exact .inl ⟨v, (if_neg (Table.lt_next_of_find hv).ne).trans hv, hheld⟩
  | @statement tx₀ session session₁ effect hopen₀ hstatement =>
    cases hstatement with
    | @write _ _ j row row' hfree hrow hwrites =>
      by_cases hij : i = j
      · subst hij
        obtain rfl := hfree v hv tx r hheld
        rw [Cluster.row, hv, Option.map_some, Versioned.view_of_held hheld, Option.some_inj] at hrow
        subst hrow
        rw [sessions_setSession, if_pos rfl] at hopen
        cases hopen
        exact .inr (.inl ⟨session, row', hopen₀, hwrites⟩)
      · exact .inl ⟨v, (if_neg hij).trans hv, hheld⟩
    | _ => exact .inl (hsame rfl)
  | @commitClaim tx₀ =>
    rw [sessions_startExecutors, sessions_commit] at hopen
    split at hopen
    · cases hopen
    next hne => exact .inl (hothers tx₀ hne (.inl activities_startExecutors))
  | @commitRenewal tx₀ =>
    rw [sessions_commit] at hopen
    split at hopen
    · exact .inr (.inr ⟨_, _, (Option.some_inj.mp hopen).symm⟩)
    next hne => exact .inl (hothers tx₀ hne (.inl rfl))
  | @commitWork tx₀ =>
    rw [sessions_commit] at hopen
    split at hopen
    · cases hopen
    next hne => exact .inl (hothers tx₀ hne (.inl rfl))
  | @rollback tx₀ =>
    rw [sessions_rollback] at hopen
    split at hopen
    · cases hopen
    next hne => exact .inl (hothers tx₀ hne (.inr rfl))
  | _ => exact .inl (hsame rfl)

/-- Everyone sees what a transaction held once it has committed. -/
theorem has_publish_held (hv : s.activities.find i = some v) (hheld : v.held = some (tx, r))
    (hr : (s.publish tx).Has i r') : r' = r := by
  obtain ⟨v', hv', hr'⟩ := hr
  rw [find_publish, hv] at hv'
  cases hv'
  rcases hr' with rfl | ⟨t, ht⟩
  · rw [Versioned.committed_commit, Versioned.view_of_held hheld]
  · obtain ⟨ht', hne, -⟩ := Versioned.held_commit ht
    rw [hheld] at ht'
    cases ht'
    exact absurd rfl hne

/-- A lease that was timed after a sample backs the deadline from the sample once it is the only
version of its row. -/
theorem backs_of_leasedAt {p : ProcessId} {started : Nanos} {now : DbMillis}
    (hpos : 0 < claim.row.leaseDurationMillis)
    (hb : started - s.locals p ≤ (now + 1) * nanosPerMilli - s.clock)
    (hr : claim.LeasedAt now r) (hone : ∀ r', s.Has claim.row.id r' → r' = r) :
    s.Backs claim p (leaseDeadlineFromSample started claim.row.leaseDurationMillis) := by
  refine ⟨now + claim.row.leaseDurationMillis, deadline_le hpos hb, .inr fun r' hr' => ?_⟩
  rw [hone r' hr']
  exact ⟨hr.holdsSlot, hr.token, _, hr.expires, le_rfl⟩

-- ════════════════════════════════════════════════════════════════════════
-- Leases behind deadlines
-- ════════════════════════════════════════════════════════════════════════

/-- Only its executor finishes a claim, and only after the handler was dropped. -/
theorem LeasedUntil.edits {executors : LeaseToken → Option Executor} {expires : DbMillis}
    {row row' : ActivityRow} (hrow : LeasedUntil claim expires row) (h : Edits executors row row')
    {x : Executor} (hx : executors claim.leaseToken = some x) (hactive : x.active = true) :
    LeasedUntil claim expires row' := by
  -- The claim that an edit finishes is the one the row is leased to.
  have hfinish : ∀ claim' : ActivityClaim, row.leaseToken = some claim'.leaseToken →
      (∀ x, executors claim'.leaseToken = some x → x.active = false) → False := by
    intro claim' htoken hstopped
    rw [hrow.token, Option.some_inj] at htoken
    have := hstopped x (htoken ▸ hx)
    rw [hactive] at this
    cases this
  cases h with
  | locked => exact hrow
  | succeeded hfence hstopped =>
    exact (hfinish _ (ActivityClaim.status_of_fences hfence).2 hstopped).elim
  | retried hfence hstopped =>
    exact (hfinish _ (ActivityClaim.status_of_fences hfence).2 hstopped).elim
  | deadLettered hfence hstopped =>
    exact (hfinish _ (ActivityClaim.status_of_fences hfence).2 hstopped).elim
  | settled hlease hcancelling hstopped =>
    exact (hfinish _ (ActivityClaim.status_of_leases hlease).2 hstopped).elim
  | paused => exact ⟨rfl, hrow.token, hrow.until_le⟩
  | cancelled outcome reason now =>
    have hslot := hrow.holdsSlot
    unfold ActivityRow.cancelledBy
    split
    · exact ⟨rfl, hrow.token, hrow.until_le⟩
    · exact ⟨rfl, hrow.token, hrow.until_le⟩
    next hpending =>
      rw [hpending] at hslot
      cases hslot
    · exact hrow
    · exact hrow
    · exact hrow
  | discarded now =>
    have hslot := hrow.holdsSlot
    unfold ActivityRow.discarded
    split
    next hdead =>
      rw [hdead] at hslot
      cases hslot
    · exact hrow

/-- A write keeps a lease that has not passed while its executor is active. -/
theorem LeasedUntil.writes (hI : Leases s) {expires : DbMillis} {row row' : ActivityRow}
    {session session' : Session} (hopen : s.sessions tx = some session)
    (hrow : s.row tx claim.row.id = some row) (hleased : LeasedUntil claim expires row)
    (h : RowStatement s session claim.row.id row row' session')
    {x : Executor} (hx : s.executors claim.leaseToken = some x) (hactive : x.active = true)
    (hfuture : ¬ expires * nanosPerMilli ≤ s.clock) : LeasedUntil claim expires row' := by
  obtain ⟨e, he, hle⟩ := hleased.until_le
  have hslot := hleased.holdsSlot
  generalize hi : claim.row.id = i at h
  cases h with
  | @reconcile c _ _ _ _ _ _ hphase htopics hexpired =>
    -- The lease has passed at the time that the claim has read.
    have hnow : c.now ≤ millis s.clock := by
      refine hI.now_le hopen ?_
      rw [Session.now, hphase]
      rfl
    simp only [expiredHolder, Bool.and_eq_true, he, Option.all_some, decide_eq_true_eq] at hexpired
    refine absurd ?_ hfuture
    calc expires * nanosPerMilli
        ≤ millis s.clock * nanosPerMilli :=
          Int.mul_le_mul_of_nonneg_right ((hle.trans hexpired.2).trans hnow) (by decide)
      _ ≤ s.clock := millis_mul_le s.clock
  | quarantine hphase htopics hpending =>
    rw [hpending] at hslot
    cases hslot
  | lease hphase htopics hpending =>
    rw [hpending] at hslot
    cases hslot
  | @renew hb now leaseExpiresAt _ hphase hlease hexpires =>
    have htoken := (ActivityClaim.status_of_leases hlease).2
    have hrenews := hI.renews hopen (by rw [hphase]; rfl) (hi ▸ has_row hrow) htoken he
    refine ⟨hslot, hleased.token, leaseExpiresAt, rfl, ?_⟩
    rw [DbMillis.eq_of_checkedPlusMillis hexpires]
    exact hle.trans hrenews
  | edit hedits => exact hleased.edits hedits hx hactive

/-- A step leaves the lease behind a deadline in place while its executor is active. -/
theorem Backs.step (hI : Leases s) (h : Step limits s s') {p : ProcessId} {deadline : Nanos}
    (hbacks : s.Backs claim p deadline) (hknown : s.Known claim) {x : Executor}
    (hx : s.executors claim.leaseToken = some x) (hactive : x.active = true) :
    s'.Backs claim p deadline := by
  obtain ⟨expires, hdeadline, hlease⟩ := hbacks
  refine ⟨expires, sub_locals_step h hdeadline, ?_⟩
  by_cases hfuture : expires * nanosPerMilli ≤ s.clock
  · exact .inl (hfuture.trans h.clock_le)
  · right
    have hversions := hlease.resolve_left hfuture
    intro r hr
    rcases h.version hr with hold | ⟨hnone, -⟩ |
      ⟨tx, session, session', row, hopen, -, hrow, hwrites, -⟩
    · exact hversions r hold
    · obtain ⟨r₀, ⟨v, hv, -⟩, -⟩ := hknown.has
      rw [hnone] at hv
      cases hv
    · exact (hversions row (has_row hrow)).writes hI hopen hrow hwrites hx hactive hfuture

-- ════════════════════════════════════════════════════════════════════════
-- The invariant
-- ════════════════════════════════════════════════════════════════════════

/-- The row of a claim is held by a transaction, leased from a time on. -/
def Holds (s : Cluster) (tx : TxId) (claim : ActivityClaim) (now : DbMillis) : Prop :=
  ∃ v r, s.activities.find claim.row.id = some v ∧ v.held = some (tx, r) ∧ claim.LeasedAt now r

/-- What holds of the samples and of the deadlines in every state. -/
structure Deadlines (s : Cluster) : Prop where
  sampled : ∀ {tx session p t}, s.sessions tx = some session → session.sample = some (p, t) →
    t ≤ s.locals p
  /-- The database clock was read after the local clock. -/
  timed : ∀ {tx session p t now}, s.sessions tx = some session → session.sample = some (p, t) →
    session.now = some now → t - s.locals p ≤ (now + 1) * nanosPerMilli - s.clock
  claimed : ∀ {tx c claim}, s.sessions tx = some (.claim c) → claim ∈ c.claims →
    c.phase.isTimed = true ∧ s.Holds tx claim c.now
  renewed : ∀ {tx h now}, s.sessions tx = some (.renewal h) → h.phase = .renewed now →
    s.Holds tx h.claim now
  /-- A claim has no executor before it commits. -/
  fresh : ∀ {tx c claim}, s.sessions tx = some (.claim c) → claim ∈ c.claims →
    s.executors claim.leaseToken = none
  distinct : ∀ {tx tx' c c' claim claim'}, s.sessions tx = some (.claim c) →
    s.sessions tx' = some (.claim c') → claim ∈ c.claims → claim' ∈ c'.claims →
    claim.leaseToken = claim'.leaseToken → tx = tx'
  renews : ∀ {tx h}, s.sessions tx = some (.renewal h) → ∃ x,
    s.executors h.claim.leaseToken = some x ∧ x.claim = h.claim ∧ x.process = h.process
  executes : ∀ {t x}, s.executors t = some x → x.active = true →
    s.Backs x.claim x.process x.leaseDeadline
  committed : ∀ {tx h now x}, s.sessions tx = some (.renewal h) → h.phase = .committed now →
    s.executors h.claim.leaseToken = some x → x.active = true → s.Backs h.claim h.process
      (leaseDeadlineFromSample h.leaseSampleStarted h.claim.row.leaseDurationMillis)

/-- A claim transaction keeps the time it has read. -/
theorem now_of_statement {c c₀ : ClaimSession} {effect : Effect}
    (h : Statement limits s tx (.claim c₀) effect (.claim c)) (htimed : c₀.phase.isTimed = true) :
    c.phase.isTimed = true ∧ c.now = c₀.now := by
  cases h with
  | nextTopic => exact ⟨rfl, rfl⟩
  | lockCandidate => exact ⟨htimed, rfl⟩
  | sampleClock hphase =>
    rw [hphase] at htimed
    cases htimed
  | readClockOne hphase =>
    rw [hphase] at htimed
    cases htimed
  | readClockBatch hphase =>
    rw [hphase] at htimed
    cases htimed
  | write _ _ hwrites => cases hwrites <;> exact ⟨rfl, rfl⟩
  | _ => exact ⟨rfl, rfl⟩

/-- A claim transaction does not write a row that it has leased. -/
theorem Holds.step_claim (h : Step limits s s') {c c₀ : ClaimSession}
    (hopen : s.sessions tx = some (.claim c₀)) (hopen' : s'.sessions tx = some (.claim c))
    (hpos : 0 < claim.row.leaseDurationMillis) (hholds : s.Holds tx claim c₀.now) :
    s'.Holds tx claim c₀.now := by
  obtain ⟨v, r, hv, hheld, hleased⟩ := hholds
  have hslot := hleased.holdsSlot
  rcases h.held hv hheld hopen' with ⟨v', hv', hheld'⟩ | ⟨session, r', hopen₀, hwrites⟩ |
    ⟨h, now, heq⟩
  · exact ⟨v', r, hv', hheld', hleased⟩
  · rw [hopen] at hopen₀
    cases hopen₀
    cases hwrites with
    | reconcile hphase htopics hexpired =>
      simp only [expiredHolder, Bool.and_eq_true, hleased.expires, Option.all_some,
        decide_eq_true_eq] at hexpired
      exact absurd hexpired.2 (not_le.mpr (Int.lt_add_of_pos_right _ hpos))
    | quarantine hphase htopics hpending =>
      rw [hpending] at hslot
      cases hslot
    | lease hphase htopics hpending =>
      rw [hpending] at hslot
      cases hslot
  · cases heq

/-- A renewal that has written its row leaves it so until it commits. -/
theorem Holds.step_renewal {hb : RenewalSession} {now : DbMillis}
    (hholds : s.Holds tx hb.claim now) (h : Step limits s s')
    (hopen : s.sessions tx = some (.renewal hb)) (hopen' : s'.sessions tx = some (.renewal hb))
    (hphase : hb.phase = .renewed now) : s'.Holds tx hb.claim now := by
  obtain ⟨v, r, hv, hheld, hleased⟩ := hholds
  rcases h.held hv hheld hopen' with ⟨v', hv', hheld'⟩ | ⟨session, r', hopen₀, hwrites⟩ |
    ⟨h', now', heq⟩
  · exact ⟨v', r, hv', hheld', hleased⟩
  · rw [hopen] at hopen₀
    cases hopen₀
    obtain ⟨now', hphase₀⟩ := hwrites.timed_of_renewal
    rw [hphase] at hphase₀
    cases hphase₀
  · cases heq
    cases hphase

namespace Deadlines

/-- The claims of a transaction after a step: the ones it had, at the same time, or the one it
has leased. -/
theorem claim_step (hD : Deadlines s) (h : Step limits s s') {c : ClaimSession}
    (hopen : s'.sessions tx = some (.claim c)) (hmem : claim ∈ c.claims) :
    (∃ c₀, s.sessions tx = some (.claim c₀) ∧ claim ∈ c₀.claims ∧ c.phase.isTimed = true ∧
      c.now = c₀.now) ∨
    ∃ c₀, s.sessions tx = some (.claim c₀) ∧ claim.leaseToken = s.nextToken ∧
      c.phase.isTimed = true ∧
      ∃ i row row', s.row tx i = some row ∧ claim.row.fixed = row.fixed ∧
        claim.LeasedAt c.now row' ∧
        s' = (s.apply tx (.write i row')).setSession tx (some (.claim c)) := by
  rcases h.claimSession hopen with hsame | ⟨-, _, _, rfl⟩ | ⟨-, _, _, _, _, rfl, -⟩ |
    ⟨c₀, effect, hopen, hstatement, hstate⟩
  · exact .inl ⟨c, hsame, hmem, (hD.claimed hsame hmem).1, rfl⟩
  · cases hmem
  · cases hmem
  · rcases hstatement.claims hmem with hold | ⟨htoken, -, i, row, now, row', hrow, hfixed, hnow, rfl,
      -, hleased⟩
    · obtain ⟨htimed, heq⟩ := now_of_statement hstatement (hD.claimed hopen hold).1
      exact .inl ⟨c₀, hopen, hold, htimed, heq⟩
    · have htimed : c₀.phase.isTimed = true ∧ c₀.now = now := by
        rw [Session.now] at hnow
        split at hnow
        next h =>
          cases hnow
          exact ⟨h, rfl⟩
        · cases hnow
      obtain ⟨htimed', heq⟩ := now_of_statement hstatement htimed.1
      rw [← htimed.2, ← heq] at hleased
      exact .inr ⟨c₀, hopen, htoken, htimed', i, row, row', hrow, hfixed, hleased, hstate⟩

/-- The executor of a renewal or of a claim that was made is not started again. -/
theorem active_before (hD : Deadlines s) (h : Step limits s s') {t : LeaseToken}
    {x x₀ : Executor} (hx₀ : s.executors t = some x₀) (hx : s'.executors t = some x) :
    x.claim = x₀.claim ∧ x.process = x₀.process ∧ (x.active = true → x₀.active = true) := by
  rcases h.executors hx with hx | ⟨x₁, hx₁, rfl, rfl | ⟨tx, hb, now, -, -, -, rfl⟩⟩ |
    ⟨tx, c, claim, hopen, hmem, rfl, -, rfl⟩
  · rw [hx₀] at hx
    cases hx
    exact ⟨rfl, rfl, id⟩
  · rw [hx₀] at hx₁
    cases hx₁
    exact ⟨rfl, rfl, fun h => by cases h⟩
  · rw [hx₀] at hx₁
    cases hx₁
    exact ⟨rfl, rfl, id⟩
  · rw [hD.fresh hopen hmem] at hx₀
    cases hx₀

/-- An executor stays one. -/
theorem isSome_executors_step (h : Step limits s s') {t : LeaseToken}
    (hx : (s.executors t).isSome) : (s'.executors t).isSome := by
  have hset : ∀ x : Executor, ((s.setExecutor x).executors t).isSome := by
    intro x
    rw [executors_setExecutor]
    split
    · rfl
    · exact hx
  cases h with
  | @statement tx session session' effect hopen hstatement => cases hstatement <;> exact hx
  | commitClaim => exact isSome_executors_startExecutors hx
  | acknowledge => exact hset _
  | stop => exact hset _
  | _ => exact hx

/-- A lease backs the deadline of an executor after the step. -/
theorem executes_step (hI : Leases s) (hD : Deadlines s) (h : Step limits s s') {t : LeaseToken}
    {x : Executor} (hx : s'.executors t = some x) (hactive : x.active = true) :
    s'.Backs x.claim x.process x.leaseDeadline := by
  rcases h.executors hx with hx | ⟨x₀, hx₀, rfl, rfl | ⟨tx, hb, now, hopen, hphase, htoken, rfl⟩⟩ |
    ⟨tx, c, claim, hopen, hmem, rfl, hstate, rfl⟩
  · obtain ⟨rfl, hknown⟩ := hI.executor_known hx
    exact (hD.executes hx hactive).step hI h hknown hx hactive
  · cases hactive
  · -- The executor learns of its renewal.
    obtain ⟨x₁, hx₁, hclaim, hprocess⟩ := hD.renews hopen
    rw [← htoken, hx₀, Option.some_inj] at hx₁
    subst hx₁
    have hactive₀ : x₀.active = true := hactive
    have hbacks := hD.committed hopen hphase (htoken ▸ hx₀) hactive₀
    rw [← hclaim, ← hprocess] at hbacks
    rw [← hclaim]
    exact hbacks.step hI h (hI.executor_known hx₀).2 hx₀ hactive₀
  · -- A committed claim starts its executor.
    obtain ⟨htimed, v, r, hv, hheld, hleased⟩ := hD.claimed hopen hmem
    have hknown := hI.session_known hopen hmem
    have hsample : (Session.claim c).sample = some (c.process, c.leaseSampleStarted) := by
      rw [Session.sample, if_pos]
      cases hphase : c.phase <;> rw [hphase] at htimed <;> first | rfl | cases htimed
    have hb := hD.timed hopen hsample (by rw [Session.now, if_pos htimed])
    refine backs_of_leasedAt hknown.positive (sub_locals_step h hb) hleased fun r' hr' => ?_
    rw [hstate] at hr'
    obtain ⟨v', hv', hr'⟩ := hr'
    rw [activities_startExecutors] at hv'
    exact has_publish_held hv hheld ⟨v', hv', hr'⟩

/-- The invariant is kept by every step. -/
theorem step (hI : Leases s) (hD : Deadlines s) (h : Step limits s s') : Deadlines s' := by
  obtain ⟨tx₀, next, hsessions, hmoves⟩ := h.sessions
  have hsample : ∀ {tx session p t}, s.sessions tx = some session → session.sample = some (p, t) →
      t ≤ s'.locals p := by
    intro tx session p t hopen hsample
    obtain ⟨elapsed, -, hlocals⟩ := h.clocks
    have hle := hD.sampled hopen hsample
    exact (hle.trans (Int.le_add_of_nonneg_right (Int.natCast_nonneg elapsed))).trans (hlocals p)
  have htime : ∀ {tx session p t now}, s.sessions tx = some session →
      session.sample = some (p, t) → session.now = some now →
      t - s'.locals p ≤ (now + 1) * nanosPerMilli - s'.clock :=
    fun hopen hsample hnow => sub_locals_step h (hD.timed hopen hsample hnow)
  have hlocals : ∀ p, s.locals p ≤ s'.locals p := by
    intro p
    obtain ⟨elapsed, -, hlocals⟩ := h.clocks
    exact (Int.le_add_of_nonneg_right (Int.natCast_nonneg elapsed)).trans (hlocals p)
  constructor
  case sampled =>
    intro tx session p t hopen hs
    rw [hsessions, Function.update_apply] at hopen
    split at hopen
    · subst hopen
      generalize hnext : some session = next at hmoves
      cases hmoves with
      | same => exact hsample hnext.symm hs
      | committed hopen =>
        cases hnext
        exact hsample hopen hs
      | statement hopen hstatement =>
        cases hnext
        rcases hstatement.sample with hkept | ⟨-, p', hnew⟩
        · exact hsample hopen (hkept ▸ hs)
        · rw [hnew] at hs
          cases hs
          exact hlocals _
      | beganClaimOne =>
        cases hnext
        cases hs
        exact hlocals _
      | beganRenewal =>
        cases hnext
        cases hs
        exact hlocals _
      | _ =>
        cases hnext
        try cases hs
    · exact hsample hopen hs
  case timed =>
    intro tx session p t now hopen hs hnow
    rw [hsessions, Function.update_apply] at hopen
    split at hopen
    · subst hopen
      generalize hnext : some session = next at hmoves
      cases hmoves with
      | same => exact htime hnext.symm hs hnow
      | committed hopen hphase =>
        cases hnext
        refine htime hopen hs ?_
        rw [Session.now, hphase]
        exact hnow
      | statement hopen hstatement =>
        cases hnext
        rcases hstatement.sample with hkept | ⟨hnone, -⟩
        · rw [hkept] at hs
          rcases hstatement.now with hkept | hread
          · exact htime hopen hs (hkept ▸ hnow)
          · rw [hread] at hnow
            cases hnow
            have hread : ∀ a b c d : ℤ, a ≤ b → c < d → a - b ≤ d - c := by omega
            exact sub_locals_step h (hread _ _ _ _ (hD.sampled hopen hs) (lt_millis_succ s.clock))
        · rw [hnone] at hnow
          cases hnow
      | _ =>
        cases hnext
        try cases hnow
    · exact htime hopen hs hnow
  case claimed =>
    intro tx c claim hopen hmem
    rcases hD.claim_step h hopen hmem with ⟨c₀, hopen₀, hmem₀, htimed, heq⟩ |
      ⟨c₀, hopen₀, -, htimed, i, row, row', hrow, hfixed, hleased, hstate⟩
    · refine ⟨htimed, ?_⟩
      rw [heq]
      exact Holds.step_claim h hopen₀ hopen (hI.session_known hopen₀ hmem₀).positive
        (hD.claimed hopen₀ hmem₀).2
    · refine ⟨htimed, ?_⟩
      obtain rfl : row.id = i := hI.id (has_row hrow)
      obtain ⟨v, hv, -⟩ := Option.map_eq_some_iff.mp hrow
      refine ⟨v.write tx row', row', ?_, rfl, hleased⟩
      rw [ActivityRow.id_of_fixed hfixed, hstate, setSession, find_write, if_pos rfl, hv]
      rfl
  case renewed =>
    intro tx hb now hopen hphase
    have hopen' := hopen
    rw [hsessions, Function.update_apply] at hopen
    split at hopen
    next htx =>
      subst htx hopen
      generalize hnext : some (Session.renewal hb) = next at hmoves
      cases hmoves with
      | same => exact (hD.renewed hnext.symm hphase).step_renewal h hnext.symm hopen' hphase
      | statement hopen hstatement hstate =>
        cases hnext
        cases hstatement with
        | readClockRenewal => cases hphase
        | @write _ _ _ row _ hfree hrow hwrites =>
          cases hwrites with
          | @renew h₀ now₀ expires _ hphase₀ hlease hexpires =>
            cases hphase
            obtain ⟨v, hv, -⟩ := Option.map_eq_some_iff.mp hrow
            obtain ⟨hslot, htoken⟩ := ActivityClaim.status_of_leases hlease
            let renewed : ActivityRow := { row with leaseExpiresAt := some expires, updatedAt := now }
            refine ⟨v.write tx renewed, renewed, ?_, rfl, hslot, htoken,
              congrArg some (DbMillis.eq_of_checkedPlusMillis hexpires)⟩
            rw [hstate, setSession, find_write, if_pos rfl, hv]
            rfl
      | _ =>
        cases hnext
        try cases hphase
    · exact (hD.renewed hopen hphase).step_renewal h hopen hopen' hphase
  case fresh =>
    intro tx c claim hopen hmem
    have hbefore : s.executors claim.leaseToken = none := by
      rcases hD.claim_step h hopen hmem with ⟨c₀, hopen₀, hmem₀, -, -⟩ | ⟨c₀, -, htoken, -⟩
      · exact hD.fresh hopen₀ hmem₀
      · rw [Option.eq_none_iff_forall_not_mem]
        intro x hx
        obtain ⟨heq, hknown⟩ := hI.executor_known hx
        exact hknown.token_lt.ne (heq.trans htoken)
    rw [Option.eq_none_iff_forall_not_mem]
    intro x hx
    rcases h.executors hx with hx | ⟨x₀, hx₀, heq, -⟩ | ⟨tx₁, c₁, claim₁, hopen₁, hmem₁, heq, hstate, -⟩
    · rw [hbefore] at hx
      cases hx
    · rw [← heq, hbefore] at hx₀
      cases hx₀
    · rcases hD.claim_step h hopen hmem with ⟨c₀, hopen₀, hmem₀, -, -⟩ | ⟨c₀, -, htoken, -⟩
      · obtain rfl := hD.distinct hopen₀ hopen₁ hmem₀ hmem₁ heq.symm
        rw [hstate, sessions_startExecutors, sessions_commit, if_pos rfl] at hopen
        cases hopen
      · exact (hI.session_known hopen₁ hmem₁).token_lt.ne (heq.trans htoken)
  case distinct =>
    intro tx tx' c c' claim claim' hopen hopen' hmem hmem' htoken
    -- A token that is drawn in this step is not in another transaction.
    have hnew : ∀ {tx tx' c c' claim claim'}, s'.sessions tx = some (.claim c) →
        s'.sessions tx' = some (.claim c') → claim ∈ c.claims → claim' ∈ c'.claims →
        claim.leaseToken = claim'.leaseToken → claim.leaseToken = s.nextToken →
        (∃ i row', s' = (s.apply tx (.write i row')).setSession tx (some (.claim c))) →
        tx = tx' := by
      rintro tx tx' c c' claim claim' hopen hopen' hmem hmem' htoken hnext ⟨i, row', hstate⟩
      by_contra hne
      rw [hstate, sessions_setSession, if_neg (Ne.symm hne)] at hopen'
      exact (hI.session_known hopen' hmem').token_lt.ne (htoken.symm.trans hnext)
    rcases hD.claim_step h hopen hmem with ⟨c₀, hopen₀, hmem₀, -, -⟩ |
      ⟨c₀, -, hnext, -, i, row, row', -, -, -, hstate⟩
    · rcases hD.claim_step h hopen' hmem' with ⟨c₁, hopen₁, hmem₁, -, -⟩ |
        ⟨c₁, -, hnext, -, i, row, row', -, -, -, hstate⟩
      · exact hD.distinct hopen₀ hopen₁ hmem₀ hmem₁ htoken
      · exact (hnew hopen' hopen hmem' hmem htoken.symm hnext ⟨i, row', hstate⟩).symm
    · exact hnew hopen hopen' hmem hmem' htoken hnext ⟨i, row', hstate⟩
  case renews =>
    intro tx hb hopen
    have hkeeps : ∀ {t x₀}, s.executors t = some x₀ →
        ∃ x, s'.executors t = some x ∧ x.claim = x₀.claim ∧ x.process = x₀.process := by
      intro t x₀ hx₀
      obtain ⟨x, hx⟩ := Option.isSome_iff_exists.mp
        (isSome_executors_step h (Option.isSome_of_eq_some hx₀))
      obtain ⟨hclaim, hprocess, -⟩ := hD.active_before h hx₀ hx
      exact ⟨x, hx, hclaim, hprocess⟩
    rw [hsessions, Function.update_apply] at hopen
    split at hopen
    · subst hopen
      rcases hmoves.renewal with ⟨h₀, hopen₀, hclaim, hprocess, -⟩ | ⟨x₀, hx₀, -, rfl⟩
      · obtain ⟨x₀, hx₀, hclaim₀, hprocess₀⟩ := hD.renews hopen₀
        obtain ⟨x, hx, hclaim₁, hprocess₁⟩ := hkeeps hx₀
        rw [hclaim, hprocess]
        exact ⟨x, hx, hclaim₁.trans hclaim₀, hprocess₁.trans hprocess₀⟩
      · exact hkeeps hx₀
    · obtain ⟨x₀, hx₀, hclaim₀, hprocess₀⟩ := hD.renews hopen
      obtain ⟨x, hx, hclaim₁, hprocess₁⟩ := hkeeps hx₀
      exact ⟨x, hx, hclaim₁.trans hclaim₀, hprocess₁.trans hprocess₀⟩
  case executes => exact executes_step hI hD h
  case committed =>
    intro tx hb now x hopen hphase hx hactive
    have hbefore : s.sessions tx = some (.renewal hb) → s'.Backs hb.claim hb.process
        (leaseDeadlineFromSample hb.leaseSampleStarted hb.claim.row.leaseDurationMillis) := by
      intro hopen
      obtain ⟨x₀, hx₀, -, -⟩ := hD.renews hopen
      obtain ⟨-, -, hactive₀⟩ := hD.active_before h hx₀ hx
      exact (hD.committed hopen hphase hx₀ (hactive₀ hactive)).step hI h
        (hI.session_known hopen (List.mem_singleton.mpr rfl)) hx₀ (hactive₀ hactive)
    rw [hsessions, Function.update_apply] at hopen
    split at hopen
    · subst hopen
      generalize hnext : some (Session.renewal hb) = next at hmoves
      cases hmoves with
      | same => exact hbefore (‹_ = tx₀› ▸ hnext.symm)
      | statement hopen hstatement =>
        cases hnext
        cases hstatement with
        | readClockRenewal => cases hphase
        | write _ _ hwrites =>
          cases hwrites with
          | renew => cases hphase
      | committed hopen hphase₀ hstate =>
        cases hnext
        obtain ⟨v, r, hv, hheld, hleased⟩ := hD.renewed hopen hphase₀
        have hb := hD.timed hopen rfl (by rw [Session.now, hphase₀]; rfl)
        have hknown := hI.session_known hopen (List.mem_singleton.mpr rfl)
        refine backs_of_leasedAt hknown.positive (sub_locals_step h hb) hleased fun r' hr' => ?_
        rw [hstate] at hr'
        exact has_publish_held hv hheld hr'
      | _ =>
        cases hnext
        try cases hphase
    · exact hbefore hopen

/-- The invariant holds of every reachable state. -/
theorem of_reachable (h : Reachable limits s) : Deadlines s := by
  obtain ⟨clock, locals, h⟩ := h
  induction h with
  | refl =>
    constructor
    case executes => exact fun hx => by cases hx
    all_goals exact fun hopen => by cases hopen
  | tail hreach hstep ih => exact ih.step (Leases.of_reachable ⟨clock, locals, hreach⟩) hstep

end Deadlines

/-- The lease behind an executor that is before its deadline has not passed. -/
theorem Executes.leased {x : Executor} (hD : Deadlines s) (h : s.Executes x) (hr : s.Has x.claim.row.id r) :
    r.leaseToken = some x.claim.leaseToken := by
  obtain ⟨expires, hdeadline, hpassed | hlease⟩ := hD.executes h.executor h.active
  · have harith : ∀ d l e c : ℤ, d - l ≤ e - c → e ≤ c → ¬ l < d := by omega
    exact absurd h.before (harith _ _ _ _ hdeadline hpassed)
  · exact (hlease r hr).token

end Cluster

/-- At any moment at most one executor of an activity is before its local deadline. -/
theorem reachable_exclusive {limits : String → Option ℕ} {s : Cluster}
    (h : Cluster.Reachable limits s) {x y : Executor} (hx : s.Executes x) (hy : s.Executes y)
    (hsame : x.claim.row.id = y.claim.row.id) : x = y := by
  have hI := Cluster.Leases.of_reachable h
  have hD := Cluster.Deadlines.of_reachable h
  obtain ⟨r, hr, -⟩ := (hI.executor_known hx.executor).2.has
  have htoken := hx.leased hD hr
  rw [hy.leased hD (hsame ▸ hr), Option.some_inj] at htoken
  have hexecutor := hy.executor
  rw [htoken, hx.executor] at hexecutor
  exact Option.some_inj.mp hexecutor

/-- Of the two executors of an activity, the one that took it over is before its deadline. -/
theorem Sample.mail_exclusive : ∃ (s : Cluster) (x y : Executor), x ≠ y ∧
    s.executors y.claim.leaseToken = some y ∧ y.active = true ∧
    y.claim.row.id = x.claim.row.id ∧ s.Executes x ∧
    ∀ z, s.Executes z → x.claim.row.id = z.claim.row.id → x = z := by
  obtain ⟨-, s, x, y, hreachable, hy, hold, hactive, hx, hnew, hactive', hbefore, hsame⟩ :=
    Sample.mail_reachable
  have hexecutes : s.Executes x := ⟨hnew ▸ hx, hactive', hbefore⟩
  refine ⟨s, x, y, ?_, hold ▸ hy, hactive, hsame, hexecutes, fun z hz hid =>
    reachable_exclusive hreachable hexecutes hz hid⟩
  rintro rfl
  rw [hold] at hnew
  cases hnew

end DurableWorkflows
