import DurableWorkflows.Engine.Delivery

/-!
# Attempts

The attempts of an activity in every reachable state: one is open exactly while
the activity is leased, they are numbered without gaps, none is ever reopened,
and their number is bounded by the attempt limit, which grows by one with every
pause that revokes a running attempt.

## Main definitions

- `AttemptLedger`: the lease columns of an activity and its attempts
- `pauseRevokes`: the attempts that pauses revoked
- `ActivityRow.Budgeted`: how the limit and the count of an activity go on

## Main results

- `run_attemptLedger`
- `run_attemptBudget`
-/

namespace DurableWorkflows

open Transaction Sys

variable {externals : Externals} {s s' : Sys} {db db' : DB} {g g' : Aggregate} {w : WorkflowId}
  {r : WorkflowRow} {l : Label} {a : ActivityId} {act act' act'' : ActivityRow} {n : ℕ}

-- ════════════════════════════════════════════════════════════════════════
-- The ledger
-- ════════════════════════════════════════════════════════════════════════

/-- The lease columns of an activity and its attempts. -/
structure AttemptLedger (db : DB) (a : ActivityId) (act : ActivityRow) : Prop where
  owner : act.status = .running ∨ act.status = .cancelling ↔ act.leaseOwner.isSome
  token : act.status = .running ∨ act.status = .cancelling ↔ act.leaseToken.isSome
  expiry : act.status = .running ∨ act.status = .cancelling ↔ act.leaseExpiresAt.isSome
  oneOpen : act.status = .running ∨ act.status = .cancelling ↔
    ∃! n, ∃ attempt, db.attempts a n = some attempt ∧ attempt.finishedAt = none
  current : ∀ n attempt, db.attempts a n = some attempt → attempt.finishedAt = none →
    n = act.attemptCount ∧ act.leaseToken = some attempt.leaseToken
  numbered : ∀ n, (db.attempts a n).isSome ↔ 1 ≤ n ∧ n ≤ act.attemptCount
  revoke : act.status = .cancelling →
    ∃ outcome : AttemptOutcome, outcome.isRevoke = true ∧ revokeOutcome act = .ok outcome

theorem holdsLease_iff :
    act.status = .running ∨ act.status = .cancelling ↔ act.status.holdsLease = true := by
  cases act.status <;> simp [ActivityStatus.holdsLease]

/-- The invariant of an activity is its ledger. -/
theorem DB.Sound.attemptLedger (hs : db.Sound) (ha : db.activities.find a = some act) :
    AttemptLedger db a act := by
  obtain ⟨r, hr⟩ := hs.row_of_activity ha
  have hact := activity_of_find ha
  have hledger := (hs.inv hr).ledger a act hact
  have hattempts : ∀ n, (db.aggregate act.workflowId).attempts a n = db.attempts a n :=
    aggregate_attempts hact
  have hcurrent : ∀ n attempt, db.attempts a n = some attempt → attempt.finishedAt = none →
      act.status.holdsLease = true ∧ n = act.attemptCount := fun n attempt hn hopen =>
    (hledger.isOpen n attempt ((hattempts n).trans hn)).mp hopen
  refine ⟨?_, ?_, ?_, ?_, fun n attempt hn hopen => ?_, fun n => ?_, fun hcancel => ?_⟩
  · rw [holdsLease_iff, hledger.leaseOwner]
  · rw [holdsLease_iff, hledger.leaseToken]
  · rw [holdsLease_iff, hledger.leaseExpiresAt]
  · rw [holdsLease_iff]
    constructor
    · intro hlease
      obtain ⟨attempt, hattempt⟩ := Option.isSome_iff_exists.mp
        ((hledger.numbered act.attemptCount).mpr ⟨hledger.started hlease, le_rfl⟩)
      refine ⟨act.attemptCount, ⟨attempt, (hattempts _).symm.trans hattempt, ?_⟩, ?_⟩
      · exact (hledger.isOpen _ _ hattempt).mpr ⟨hlease, rfl⟩
      · rintro n ⟨attempt', hn, hopen⟩
        exact (hcurrent n attempt' hn hopen).2
    · rintro ⟨n, ⟨attempt, hn, hopen⟩, -⟩
      exact (hcurrent n attempt hn hopen).1
  · obtain ⟨hlease, rfl⟩ := hcurrent n attempt hn hopen
    exact ⟨rfl, hledger.token attempt ((hattempts _).trans hn) hlease⟩
  · rw [← hattempts]
    exact hledger.numbered n
  · obtain ⟨outcome, hrevoke, -, hok⟩ := hs.revokeOutcome ha hcancel
    exact ⟨outcome, hrevoke, hok⟩

variable {i : ℕ} {outcome : ExecutionOutcome} {now : DbMillis}

/-- A successful finish is one by the holder of the lease. -/
theorem exec_finish_ok (h : s.Inv) (hok : exec externals s (.finish i outcome now) = .ok s') :
    ∃ claim act, (s.finishable outcome)[i]? = some claim ∧ Finishes claim s.db s'.db act := by
  rw [exec] at hok
  obtain ⟨claim, hi, hok⟩ := nth_bind_ok hok
  obtain ⟨_, db', hfinish, rfl⟩ := transact'_ok hok
  obtain ⟨hclaim, hrevoked⟩ := h.finishable (List.mem_of_getElem? hi)
  obtain ⟨act, hact⟩ := wp_ok
    (wp_finishOnConnection h.sound (h.activityClaims _ hclaim).2 hrevoked) hfinish
  exact ⟨claim, act, hi, hact⟩

/-- The attempts of every activity in every reachable state: the lease columns
agree with the open attempt, a closed attempt never changes again, a finish of a
revoked attempt closes it with the outcome the revoke recorded, and the errors
that report a broken ledger do not occur. -/
theorem run_attemptLedger (externals : Externals) (actions : List Action) :
    let s := run externals Sys.init actions
    (∀ a act, s.db.activities.find a = some act → AttemptLedger s.db a act) ∧
    (∀ a n attempt later, s.db.attempts a n = some attempt → attempt.finishedAt.isSome →
      (run externals s later).db.attempts a n = some attempt) ∧
    (∀ i outcome now s' claim act, (s.finishable outcome)[i]? = some claim →
      s.db.activities.find claim.row.id = some act → act.status = .cancelling →
      exec externals s (.finish i outcome now) = .ok s' →
      ∃ revoke attempt, revokeOutcome act = .ok revoke ∧
        s'.db.attempts claim.row.id act.attemptCount = some attempt ∧
        attempt.finishedAt.isSome ∧ attempt.outcome = some revoke) ∧
    ∀ action e, exec externals s action = .error e →
      (∀ status a, e ≠ .invalidState (.noLeaseToken status a)) ∧
      (∀ a, e ≠ .invalidState (.noRevokeOutcome a)) ∧
      ∀ a n, e ≠ .invalidState (.finishedAsRevoked a n) := by
  have hinv := run_inv externals actions
  refine ⟨fun a act ha => hinv.sound.attemptLedger ha, fun a n attempt later hn hclosed => ?_,
    fun i outcome now s' claim act hi ha hcancel hok => ?_, fun action e he => ?_⟩
  · exact (hinv.run_evolves externals later).closed_attempt hinv.sound hn
      (Option.isSome_iff_ne_none.mp hclosed)
  · obtain ⟨claim', act', hi', hf⟩ := exec_finish_ok hinv hok
    obtain rfl := Option.some_inj.mp (hi.symm.trans hi')
    obtain ⟨attempt, r, hheld⟩ := hf.held
    obtain rfl := Option.some_inj.mp (ha.symm.trans hheld.leased.find)
    obtain ⟨revoke, attempt', hrevoke, hattempt', hclosed, houtcome⟩ := (hf.cancelling hcancel).2
    exact ⟨revoke, attempt', hrevoke, hheld.number ▸ hattempt', hclosed, houtcome⟩
  · have hbenign := exec_benign hinv he
    refine ⟨?_, ?_, ?_⟩
    · rintro status a rfl
      cases hbenign
    · rintro a rfl
      cases hbenign
    · rintro a n rfl
      cases hbenign

-- ════════════════════════════════════════════════════════════════════════
-- The budget
-- ════════════════════════════════════════════════════════════════════════

/-- How the limit and the count of an activity go on while no pause revokes its
attempt. -/
structure ActivityRow.Budgeted (act act' : ActivityRow) : Prop where
  limit : act'.maxAttempts = act.maxAttempts
  count_le : act.attemptCount ≤ act'.attemptCount
  running : act'.status = .running →
    act.status = .running ∧ act'.attemptCount = act.attemptCount ∨
      act.attemptCount < act'.attemptCount

namespace ActivityRow.Budgeted

theorem refl (act : ActivityRow) : act.Budgeted act := ⟨rfl, le_rfl, fun h => .inl ⟨h, rfl⟩⟩

theorem trans (h : act.Budgeted act') (h' : act'.Budgeted act'') : act.Budgeted act'' where
  limit := h'.limit.trans h.limit
  count_le := h.count_le.trans h'.count_le
  running hrun := by
    rcases h'.running hrun with ⟨hrun', hcount⟩ | hlt
    · rw [hcount]
      exact h.running hrun'
    · exact .inr (h.count_le.trans_lt hlt)

/-- A row that does not run. -/
theorem of_stopped (hlimit : act'.maxAttempts = act.maxAttempts)
    (hcount : act'.attemptCount = act.attemptCount) (hstatus : act'.status ≠ .running) :
    act.Budgeted act' :=
  ⟨hlimit, hcount.ge, fun h => absurd h hstatus⟩

theorem cancelledBy {outcome : AttemptOutcome} {reason : String} :
    act.Budgeted (act.cancelledBy outcome reason now) := by
  unfold ActivityRow.cancelledBy
  split
  · exact of_stopped rfl rfl nofun
  · exact of_stopped rfl rfl nofun
  · exact of_stopped rfl rfl nofun
  all_goals exact refl act

theorem discarded : act.Budgeted (act.discarded now) := by
  unfold ActivityRow.discarded
  split
  · exact of_stopped rfl rfl nofun
  · exact refl act

end ActivityRow.Budgeted

/-- Only a pause that revokes an activity changes its limit. -/
theorem Step.budgeted (h : Step g l g') (hl : ∀ n, l ≠ .paused (some (a, n)))
    (ha : g.activities a = some act) :
    ∃ act', g'.activities a = some act' ∧ act.Budgeted act' := by
  cases h with
  | inserted => cases ha
  | history | claimed | recovered | continued | completed | slept | waitedApproval | waitedChild
  | activationFailed | answered | answeredApproval | reattached | paused | resumed =>
    exact ⟨act, ha, .refl act⟩
  | waitedActivity _ _ hnone | retried _ _ _ _ hnone => exact related_newActivity .refl hnone ha
  | revoked _ _ _ ha₀ =>
    refine related_setActivity .refl ha₀ (fun heq => ?_) ha
    subst heq
    exact absurd rfl (hl _)
  | cancelled => exact ⟨_, congrArg (Option.map _) ha, .cancelledBy⟩
  | superseded => exact ⟨_, congrArg (Option.map _) ha, .discarded⟩
  | discarded => exact ⟨_, congrArg (Option.map _) ha, .discarded⟩
  | activityClaimed _ _ _ ha₀ =>
    exact related_setActivity .refl ha₀
      (fun _ => ⟨rfl, Nat.le_succ _, fun _ => .inr (Nat.lt_succ_self _)⟩) ha
  | renewed _ ha₀ =>
    exact related_setActivity .refl ha₀.stored (fun _ => ⟨rfl, le_rfl, fun h => .inl ⟨h, rfl⟩⟩) ha
  | succeeded _ _ _ ha₀ | released _ ha₀ | deadLettered _ _ _ ha₀ =>
    exact related_setActivity .refl ha₀.stored (fun _ => .of_stopped rfl rfl nofun) ha
  | settled _ ha₀ =>
    refine related_setActivity .refl ha₀.stored (fun _ => .of_stopped rfl rfl ?_) ha
    dsimp only
    split <;> simp
  | quarantined _ _ _ ha₀ =>
    exact related_setActivity .refl ha₀ (fun _ => .of_stopped rfl rfl nofun) ha

/-- What a pause that revokes an attempt does to its activity. -/
theorem Step.revoked_of (h : Step g (.paused (some (a, n))) g') :
    ∃ act act', g.activities a = some act ∧ g'.activities a = some act' ∧
      act.status = .running ∧ act'.status = .cancelling ∧
      act'.maxAttempts = act.maxAttempts + 1 ∧ act'.attemptCount = act.attemptCount := by
  cases h with
  | revoked _ _ _ ha hrun =>
    exact ⟨_, _, ha, Function.update_self .., hrun, rfl, rfl, rfl⟩

/-- A pause leaves the activities alone that it does not revoke. -/
theorem Step.unrevoked_of {o : Option (ActivityId × ℕ)} (h : Step g (.paused o) g')
    (ho : ∀ n, o ≠ some (a, n)) : g'.activities a = g.activities a := by
  cases h with
  | paused => rfl
  | @revoked _ _ a₀ =>
    refine Function.update_of_ne ?_ ..
    rintro rfl
    exact ho _ rfl

theorem Steps.budgeted {P : Label → Prop} (h : Steps P g g')
    (hP : ∀ l n, P l → l ≠ .paused (some (a, n))) (ha : g.activities a = some act) :
    ∃ act', g'.activities a = some act' ∧ act.Budgeted act' := by
  induction h with
  | refl => exact ⟨act, ha, .refl act⟩
  | tail _ hstep ih =>
    obtain ⟨l, hl, hstep⟩ := hstep
    obtain ⟨act₁, ha₁, hb₁⟩ := ih
    obtain ⟨act₂, ha₂, hb₂⟩ := hstep.budgeted (fun n => hP l n hl) ha₁
    exact ⟨act₂, ha₂, hb₁.trans hb₂⟩

/-- Steps of history leave the activities alone. -/
theorem Steps.activities_of_history (h : Steps (fun l => l = .history) g g') :
    g'.activities = g.activities := by
  induction h with
  | refl => rfl
  | tail _ hstep ih =>
    obtain ⟨l, rfl, hstep⟩ := hstep
    cases hstep
    exact ih

/-- Only a pause pauses. -/
theorem Action.eq_pause {action : Action} {o : Option (ActivityId × ℕ)}
    (h : action.permits (.paused o) = true) : ∃ w operator now, action = .pause w operator now := by
  cases action <;> first | exact ⟨_, _, _, rfl⟩ | cases h

theorem exec_pause_ok {operator : Operator} (h : s.Inv)
    (hok : exec externals s (.pause w operator now) = .ok s') : Paused w s.db s'.db := by
  rw [exec] at hok
  obtain ⟨_, db', hpause, rfl⟩ := transact'_ok hok
  exact wp_ok (wp_pauseWorkflow h.sound h.attached) hpause

/-- The running attempt of an activity that a successful pause revokes. -/
def pauseRevokes (externals : Externals) (a : ActivityId) (s : Sys) (action : Action) : List ℕ :=
  match action, exec externals s action, s.db.activities.find a with
  | .pause .., .ok s', some act =>
    if act.status = .running ∧ (s'.db.activities.find a).any (·.status = .cancelling) then
      [act.attemptCount]
    else []
  | _, _, _ => []

section Revokes

variable {action : Action} {operator : Operator}

theorem pauseRevokes_of_error {e : DurableError} (h : exec externals s action = .error e) :
    pauseRevokes externals a s action = [] := by
  unfold pauseRevokes
  rw [h]
  split
  · rename_i heq _
    cases heq
  · rfl

theorem pauseRevokes_of_ne (h : ¬∃ w operator now, action = .pause w operator now) :
    pauseRevokes externals a s action = [] := by
  unfold pauseRevokes
  split
  · exact absurd ⟨_, _, _, rfl⟩ h
  · rfl

theorem pauseRevokes_pause (hok : exec externals s (.pause w operator now) = .ok s')
    (ha : s.db.activities.find a = some act) (ha' : s'.db.activities.find a = some act') :
    pauseRevokes externals a s (.pause w operator now) =
      if act.status = .running ∧ act'.status = .cancelling then [act.attemptCount] else [] := by
  unfold pauseRevokes
  rw [hok, ha]
  simp only [ha', Option.any_some, decide_eq_true_eq]

end Revokes

/-- What a pause does to an activity: it revokes its running attempt, or leaves
it alone. -/
theorem Paused.activity (h : Paused w db db') (ha : db.activities.find a = some act) :
    db'.activities.find a = some act ∨ ∃ act', db'.activities.find a = some act' ∧
      act.status = .running ∧ act'.status = .cancelling ∧
      act'.maxAttempts = act.maxAttempts + 1 ∧ act'.attemptCount = act.attemptCount := by
  have hact := activity_of_find ha
  by_cases hw : act.workflowId = w
  · subst hw
    obtain ⟨o, g, hstep, hsteps⟩ := h.stopped
    have hhistory := congrFun hsteps.activities_of_history a
    by_cases ho : ∃ n, o = some (a, n)
    · obtain ⟨n, rfl⟩ := ho
      obtain ⟨act₀, act', hact₀, hact', hrest⟩ := hstep.revoked_of
      obtain rfl := Option.some_inj.mp (hact₀.symm.trans hact)
      exact .inr ⟨act', (aggregate_activity.mp (hhistory.trans hact')).1, hrest⟩
    · have hsame := hstep.unrevoked_of (a := a) fun n hn => ho ⟨n, hn⟩
      exact .inl (aggregate_activity.mp ((hhistory.trans hsame).trans hact)).1
  · rw [← h.other act.workflowId hw] at hact
    exact .inl (aggregate_activity.mp hact).1

/-- What an action does to the limit and the count of an activity. -/
theorem step_budget (externals : Externals) (h : s.Inv) (action : Action)
    (ha : s.db.activities.find a = some act) :
    ∃ act', (step externals s action).db.activities.find a = some act' ∧
      (pauseRevokes externals a s action = [] ∧ act.Budgeted act' ∨
        pauseRevokes externals a s action = [act.attemptCount] ∧ act.status = .running ∧
          act'.status = .cancelling ∧ act'.maxAttempts = act.maxAttempts + 1 ∧
          act'.attemptCount = act.attemptCount) := by
  cases hexec : exec externals s action with
  | error e =>
    rw [step, Machine.step_of_error hexec]
    exact ⟨act, ha, .inl ⟨pauseRevokes_of_error hexec, .refl act⟩⟩
  | ok s' =>
    rw [step, Machine.step_of_ok hexec]
    by_cases hpause : ∃ w operator now, action = .pause w operator now
    · obtain ⟨w, operator, now, rfl⟩ := hpause
      obtain hsame | ⟨act', ha', hrun, hcancel, hlimit, hcount⟩ :=
        (exec_pause_ok h hexec).activity ha
      · refine ⟨act, hsame, .inl ⟨?_, .refl act⟩⟩
        rw [pauseRevokes_pause hexec ha hsame, if_neg]
        rintro ⟨hrun, hcancel⟩
        cases hrun.symm.trans hcancel
      · refine ⟨act', ha', .inr ⟨?_, hrun, hcancel, hlimit, hcount⟩⟩
        rw [pauseRevokes_pause hexec ha ha', if_pos ⟨hrun, hcancel⟩]
    · have hnever : ∀ (l : Label) n, action.permits l ∧ l.drawsFrom s.nextToken →
          l ≠ .paused (some (a, n)) := by
        rintro _ n ⟨hpermits, -⟩ rfl
        exact hpause (Action.eq_pause hpermits)
      have hsteps := (exec_leads h hexec).evolves.steps act.workflowId
      obtain ⟨act', hact', hb⟩ := hsteps.budgeted hnever (activity_of_find ha)
      exact ⟨act', (aggregate_activity.mp hact').1, .inl ⟨pauseRevokes_of_ne hpause, hb⟩⟩

/-- The pauses that revoked an attempt of an activity with the limit `base`, and
its limit and count after them. -/
structure Revoked (base : ℕ) (act : ActivityRow) (revoked : List ℕ) : Prop where
  limit : act.maxAttempts = base + revoked.length
  sorted : revoked.Pairwise (· < ·)
  bounds : ∀ n ∈ revoked, 1 ≤ n ∧ n ≤ act.attemptCount
  running : act.status = .running → ∀ n ∈ revoked, n < act.attemptCount

namespace Revoked

variable {base : ℕ} {revoked : List ℕ}

theorem budgeted (h : Revoked base act revoked) (hb : act.Budgeted act') :
    Revoked base act' revoked where
  limit := hb.limit.trans h.limit
  sorted := h.sorted
  bounds n hn := ⟨(h.bounds n hn).1, (h.bounds n hn).2.trans hb.count_le⟩
  running hrun n hn := by
    rcases hb.running hrun with ⟨hrun', hcount⟩ | hlt
    · rw [hcount]
      exact h.running hrun' n hn
    · exact (h.bounds n hn).2.trans_lt hlt

/-- One more revoked attempt. -/
theorem add (h : Revoked base act revoked) (hrun : act.status = .running)
    (hone : 1 ≤ act.attemptCount) (hcancel : act'.status = .cancelling)
    (hlimit : act'.maxAttempts = act.maxAttempts + 1)
    (hcount : act'.attemptCount = act.attemptCount) :
    Revoked base act' (revoked ++ [act.attemptCount]) where
  limit := by
    rw [hlimit, h.limit, List.length_append, List.length_singleton, Nat.add_assoc]
  sorted := by
    refine List.pairwise_append.mpr ⟨h.sorted, List.pairwise_singleton _ _, fun n hn m hm => ?_⟩
    obtain rfl := List.mem_singleton.mp hm
    exact h.running hrun n hn
  bounds n hn := by
    rw [hcount]
    rcases List.mem_append.mp hn with hn | hn
    · exact h.bounds n hn
    · obtain rfl := List.mem_singleton.mp hn
      exact ⟨hone, le_rfl⟩
  running hrun' := by cases hcancel.symm.trans hrun'

/-- The attempts that no pause revoked are within the limit the activity was
inserted with. -/
theorem length_unrevoked_le (h : Revoked base act revoked) (hle : act.attemptCount ≤ act.maxAttempts)
    {p : ℕ → Bool} (hp : ∀ n, p n = true → n ∉ revoked) :
    ((List.range' 1 act.attemptCount).filter p).length ≤ base := by
  have hsub : revoked.length ≤ ((List.range' 1 act.attemptCount).filter (!p ·)).length := by
    refine (List.Nodup.subperm (h.sorted.imp Nat.ne_of_lt) fun n hn => ?_).length_le
    refine List.mem_filter.mpr ⟨List.mem_range'_1.mpr ?_, ?_⟩
    · have := h.bounds n hn
      omega
    · cases hpn : p n with
      | true => exact absurd hn (hp n hpn)
      | false => rfl
  have hsplit : (List.range' 1 act.attemptCount).length = _ := List.length_eq_length_filter_add p
  rw [List.length_range'] at hsplit
  have hlimit := h.limit
  omega

end Revoked

/-- The attempts up to a number that ended and that no pause revoked. -/
def DB.spentAttempts (db : DB) (a : ActivityId) (count : ℕ) (revoked : List ℕ) : List ℕ :=
  (List.range' 1 count).filter fun n =>
    (db.attempts a n).any (·.finishedAt.isSome) && !revoked.contains n

/-- The limit of an activity over a run: its limit at the start, and one for
every pause that revoked a running attempt. -/
theorem run_revoked (externals : Externals) (h : s.Inv) (ha : s.db.activities.find a = some act)
    (actions : List Action) :
    ∃ act', (run externals s actions).db.activities.find a = some act' ∧
      Revoked act.maxAttempts act'
        (Machine.collect (exec externals) (pauseRevokes externals a) s actions) := by
  refine run_history (P := fun s revoked => ∃ act', s.db.activities.find a = some act' ∧
    Revoked act.maxAttempts act' revoked) (fun s revoked action h hP => ?_) h ?_ actions
  · obtain ⟨act₁, ha₁, hrevoked⟩ := hP
    obtain ⟨act₂, ha₂, ⟨hnone, hb⟩ | ⟨hone, hrun, hcancel, hlimit, hcount⟩⟩ :=
      step_budget externals h action ha₁
    · rw [hnone, List.append_nil]
      exact ⟨act₂, ha₂, hrevoked.budgeted hb⟩
    · rw [hone]
      obtain ⟨r, hr⟩ := h.sound.row_of_activity ha₁
      have hstarted := ((h.sound.inv hr).ledger a act₁ (activity_of_find ha₁)).started
        (by rw [hrun]; rfl)
      exact ⟨act₂, ha₂, hrevoked.add hrun hstarted hcancel hlimit hcount⟩
  · exact ⟨act, ha, rfl, .nil, by simp, by simp⟩

/-- The bounds of the count of an activity. -/
theorem DB.Sound.attemptCount (hs : db.Sound) (ha : db.activities.find a = some act) :
    act.attemptCount ≤ act.maxAttempts ∧
      (act.status = .pending → act.attemptCount < act.maxAttempts) := by
  obtain ⟨r, hr⟩ := hs.row_of_activity ha
  have hledger := (hs.inv hr).ledger a act (activity_of_find ha)
  exact ⟨hledger.count_le, hledger.pending⟩

/-- The attempt budget in every run. In every reachable state, and in every
database that the steps of a transaction lead to from it, the count is within the
limit, and below it while the activity is pending, so that no candidate is
quarantined for its attempt cap. A claim whose attempt still runs knows the
current limit. And an activity inserted with some limit has in every later state
that limit, and one more for every pause that revoked a running attempt; the
attempts that ended otherwise are within the limit it was inserted with. -/
theorem run_attemptBudget (externals : Externals) (actions : List Action) :
    let s := run externals Sys.init actions
    (∀ db a act, Evolves (fun _ _ => True) s.db db → db.activities.find a = some act →
      act.attemptCount ≤ act.maxAttempts ∧
      (act.status = .pending → act.attemptCount < act.maxAttempts ∧
        attemptCapReached act = false)) ∧
    (∀ claim act, claim ∈ s.activityClaims → s.db.activities.find claim.row.id = some act →
      claim.fences act = true → act.maxAttempts = claim.row.maxAttempts ∧
        (claim.row.maxAttempts ≤ claim.attemptNumber ↔ act.maxAttempts ≤ act.attemptCount)) ∧
    ∀ action s₁ a act₀ later, s.db.activities.find a = none →
      exec externals s action = .ok s₁ → s₁.db.activities.find a = some act₀ →
      let s₂ := run externals s₁ later
      let revoked := Machine.collect (exec externals) (pauseRevokes externals a) s₁ later
      ∃ act, s₂.db.activities.find a = some act ∧
        act.maxAttempts = act₀.maxAttempts + revoked.length ∧
        (s₂.db.spentAttempts a act.attemptCount revoked).length ≤ act₀.maxAttempts := by
  have hinv := run_inv externals actions
  refine ⟨fun db a act hev ha => ?_, fun claim act hclaim ha hf => ?_,
    fun action s₁ a act₀ later _ hok ha₁ => ?_⟩
  · obtain ⟨hle, hpending⟩ := (hev.sound hinv.sound).attemptCount ha
    exact ⟨hle, fun hs => ⟨hpending hs, decide_eq_false (Nat.not_le_of_lt (hpending hs))⟩⟩
  · simp only [ActivityClaim.fences, Bool.and_eq_true, beq_iff_eq] at hf
    have hleases : claim.leases act = true := by
      simp [ActivityClaim.leases, hf.1.1, hf.1.2, hf.2, ActivityStatus.holdsLease]
    obtain ⟨attempt, r, hheld⟩ := (hinv.activityClaims claim hclaim).2.holds hinv.sound ha hleases
    have hlimit := hheld.maxAttempts hf.1.1
    exact ⟨hlimit.symm, by rw [hlimit, hheld.number]⟩
  · have hinv₁ := (exec_leads hinv hok).inv
    obtain ⟨act, ha₂, hrevoked⟩ := run_revoked externals hinv₁ ha₁ later
    refine ⟨act, ha₂, hrevoked.limit, hrevoked.length_unrevoked_le ?_ fun n hn => ?_⟩
    · exact ((hinv₁.run externals later).sound.attemptCount ha₂).1
    · simp only [Bool.and_eq_true, Bool.not_eq_true', List.contains_eq_mem,
        decide_eq_false_iff_not] at hn
      exact hn.2

end DurableWorkflows
