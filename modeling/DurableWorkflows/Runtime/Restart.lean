import DurableWorkflows.Error
import Mathlib.Data.List.Induction
import Mathlib.Order.MinMax

/-!
# Restarts of runtime tasks

When the supervisor restarts a failed task and when it stops the runtime
instead. A task has a budget of restarts for faults and panics, an outage that
opens with a transient failure, and a backoff that doubles; the three are reset
at different events of one history of failures.

## Main definitions

- `Duration`: spans of time, with the arithmetic that saturates
- `RestartPolicy`, `RestartBackoff`, `RestartBudget`, `TaskRestarts`
- `TaskRestarts.onFailure`: the decision after one failure
- `TaskRestarts.decisions`: the decisions along a history
- `since`: what happened since the last healthy run

## Main results

- `TaskRestarts.onFailure_history`: every decision of a history, in terms of the history
-/

namespace DurableWorkflows

/-- The nanoseconds of `Duration::MAX`, whose seconds are kept in a `u64`. -/
def Duration.maxNanos : ℕ := 18446744073709551615 * 1000000000 + 999999999

/-- `std::time::Duration`. -/
structure Duration where
  nanos : ℕ
  bounded : nanos ≤ Duration.maxNanos
  deriving DecidableEq

namespace Duration

theorem nanos_injective : Function.Injective nanos := by
  rintro ⟨a, _⟩ ⟨b, _⟩ h
  cases h
  rfl

instance : LinearOrder Duration := LinearOrder.lift' nanos nanos_injective

theorem le_iff {a b : Duration} : a ≤ b ↔ a.nanos ≤ b.nanos := Iff.rfl

theorem lt_iff {a b : Duration} : a < b ↔ a.nanos < b.nanos := Iff.rfl

theorem nanos_min (a b : Duration) : (min a b).nanos = min a.nanos b.nanos :=
  Monotone.map_min (f := nanos) fun _ _ h => h

theorem nanos_max (a b : Duration) : (max a b).nanos = max a.nanos b.nanos :=
  Monotone.map_max (f := nanos) fun _ _ h => h

/-- `saturating_add`. -/
def saturatingAdd (a b : Duration) : Duration where
  nanos := min (a.nanos + b.nanos) maxNanos
  bounded := Nat.min_le_right ..

theorem nanos_saturatingAdd (a b : Duration) :
    (a.saturatingAdd b).nanos = min (a.nanos + b.nanos) maxNanos := rfl

/-- `Instant::saturating_duration_since`, of instants that are given by the time since an
origin. -/
def saturatingSince (now earlier : Duration) : Duration where
  nanos := now.nanos - earlier.nanos
  bounded := (Nat.sub_le ..).trans now.bounded

/-- An instant is later than another by more than a span. -/
theorem lt_saturatingSince {now earlier span : Duration} :
    span < now.saturatingSince earlier ↔ earlier.nanos + span.nanos < now.nanos := by
  rw [lt_iff]
  simp only [saturatingSince]
  omega

end Duration

section Policy

/-- `Transience`. -/
inductive Transience
  | rolledBack
  | unavailable
  deriving DecidableEq, Repr

/-- `TaskFailureKind`. -/
inductive TaskFailureKind
  | transient (transience : Transience)
  | fault
  | panic
  deriving DecidableEq, Repr

/-- The failures that do not spend the restart budget. -/
def TaskFailureKind.isTransient : TaskFailureKind → Bool
  | transient _ => true
  | fault | panic => false

/-- `TaskFailureKind::panicked`. -/
def TaskFailureKind.panicked : TaskFailureKind → Bool
  | panic => true
  | transient _ | fault => false

/-- The restart bounds of `RuntimeConfig`. -/
structure RestartConfig where
  restartBackoff : Duration
  maxRestartBackoff : Duration
  taskHealthyAfter : Duration
  maxTaskRestarts : ℕ
  restartWindow : Duration
  maxTransientOutage : Duration

/-- `RestartPolicy`: the cap of the backoff is never below its start. -/
structure RestartPolicy where
  initialBackoff : Duration
  maxBackoff : Duration
  healthyAfter : Duration
  maxRestarts : ℕ
  window : Duration
  maxTransientOutage : Duration
  initial_le_max : initialBackoff ≤ maxBackoff

/-- `RestartPolicy::new`. -/
def RestartPolicy.new (config : RestartConfig) : RestartPolicy where
  initialBackoff := config.restartBackoff
  maxBackoff := max config.maxRestartBackoff config.restartBackoff
  healthyAfter := config.taskHealthyAfter
  maxRestarts := config.maxTaskRestarts
  window := config.restartWindow
  maxTransientOutage := config.maxTransientOutage
  initial_le_max := le_max_right ..

/-- `StopReason`. -/
inductive StopReason
  | budgetExhausted (maxRestarts : ℕ) (window : Duration)
  | transientOutage (lasted limit : Duration)
  | unrestartable
  deriving DecidableEq

/-- `RestartDecision`. -/
inductive RestartDecision
  | restart (delay : Duration)
  | stop (reason : StopReason)
  deriving DecidableEq

/-- The decision grants a restart. -/
def RestartDecision.isRestart : RestartDecision → Bool
  | restart _ => true
  | stop _ => false

end Policy

section Restarts

/-- `RestartBackoff`: the delay before the next restart. -/
structure RestartBackoff where
  next : Duration
  deriving DecidableEq

/-- `RestartBackoff::new`. -/
def RestartBackoff.new (initial : Duration) : RestartBackoff := ⟨initial⟩

/-- `RestartBackoff::advance`. -/
def RestartBackoff.advance (backoff : RestartBackoff) (max : Duration) :
    Duration × RestartBackoff :=
  (backoff.next, ⟨min (backoff.next.saturatingAdd backoff.next) max⟩)

/-- `RestartBudget`: the restarts of a window, counted in a `u32`. -/
structure RestartBudget where
  count : ℕ
  windowStarted : Duration
  bounded : count ≤ U32.max
  deriving DecidableEq

namespace RestartBudget

/-- `RestartBudget::new`. -/
def new (now : Duration) : RestartBudget := ⟨0, now, Nat.zero_le _⟩

/-- The window that a restart at `now` falls into. -/
def reopened (budget : RestartBudget) (now window : Duration) : RestartBudget :=
  if window < now.saturatingSince budget.windowStarted then new now else budget

/-- `count.saturating_add(1)`. -/
def counted (budget : RestartBudget) : RestartBudget where
  count := min (budget.count + 1) U32.max
  windowStarted := budget.windowStarted
  bounded := Nat.min_le_right ..

/-- `RestartBudget::record`. -/
def record (budget : RestartBudget) (now window : Duration) (maxRestarts : ℕ) :
    Bool × RestartBudget :=
  let budget := (budget.reopened now window).counted
  (budget.count ≤ maxRestarts, budget)

end RestartBudget

/-- A failure of a task: when it failed, and how long the run lasted that failed. -/
structure TaskFailure where
  now : Duration
  ranFor : Duration
  kind : TaskFailureKind
  deriving DecidableEq

/-- The run that failed was long enough to be healthy. -/
def TaskFailure.afterHealthyRun (policy : RestartPolicy) (failure : TaskFailure) : Bool :=
  policy.healthyAfter ≤ failure.ranFor

/-- `TaskRestarts`: the restart state of one task. -/
structure TaskRestarts where
  budget : RestartBudget
  backoff : RestartBackoff
  outageStarted : Option Duration
  deriving DecidableEq

namespace TaskRestarts

variable (policy : RestartPolicy)

/-- `TaskRestarts::new`. -/
def new (now : Duration) : TaskRestarts where
  budget := .new now
  backoff := .new policy.initialBackoff
  outageStarted := none

/-- A healthy run starts the backoff over and ends the outage. -/
def settled (restarts : TaskRestarts) (failure : TaskFailure) : TaskRestarts :=
  if failure.afterHealthyRun policy then
    { restarts with backoff := .new policy.initialBackoff, outageStarted := none }
  else
    restarts

/-- The last statement of `on_failure`: a restart after the current backoff. -/
def restart (restarts : TaskRestarts) : RestartDecision × TaskRestarts :=
  let (delay, backoff) := restarts.backoff.advance policy.maxBackoff
  (.restart delay, { restarts with backoff })

/-- `on_failure` of a transient failure. -/
def onTransient (restarts : TaskRestarts) (now : Duration) : RestartDecision × TaskRestarts :=
  let started := restarts.outageStarted.getD now
  let restarts := { restarts with outageStarted := some started }
  let lasted := now.saturatingSince started
  if policy.maxTransientOutage < lasted then
    (.stop (.transientOutage lasted policy.maxTransientOutage), restarts)
  else
    restarts.restart policy

/-- `on_failure` of a fault or a panic. -/
def onFatal (restarts : TaskRestarts) (now : Duration) : RestartDecision × TaskRestarts :=
  let (allowed, budget) := restarts.budget.record now policy.window policy.maxRestarts
  let restarts := { restarts with budget }
  if allowed then
    restarts.restart policy
  else
    (.stop (.budgetExhausted policy.maxRestarts policy.window), restarts)

/-- `on_failure`. -/
def onFailure (restarts : TaskRestarts) (failure : TaskFailure) : RestartDecision × TaskRestarts :=
  let restarts := restarts.settled policy failure
  match failure.kind with
  | .transient _ => restarts.onTransient policy failure.now
  | .fault | .panic => restarts.onFatal policy failure.now

/-- The restart state after a history of failures. -/
def after (restarts : TaskRestarts) (history : List TaskFailure) : TaskRestarts :=
  history.foldl (fun restarts failure => (restarts.onFailure policy failure).2) restarts

/-- The failures of a history, each with the decision that followed it. -/
def decisions : TaskRestarts → List TaskFailure → List (TaskFailure × RestartDecision)
  | _, [] => []
  | restarts, failure :: history =>
    (failure, (restarts.onFailure policy failure).1) ::
      decisions (restarts.onFailure policy failure).2 history

end TaskRestarts

end Restarts

section History

variable {α β : Type} {p : α → Bool}

/-- The part of a list from the last element with `p` on, or all of it. -/
def since (p : α → Bool) (xs : List α) : List α :=
  xs.foldl (fun segment x => if p x then [x] else segment ++ [x]) []

theorem since_concat (xs : List α) (x : α) :
    since p (xs ++ [x]) = if p x then [x] else since p xs ++ [x] := by
  simp [since]

end History

section Granted

variable (policy : RestartPolicy)

/-- The restarts granted since the last healthy run. -/
def granted (past : List (TaskFailure × RestartDecision)) : ℕ :=
  (since (fun entry => entry.1.afterHealthyRun policy) past).countP (·.2.isRestart)

/-- The restarts granted since the last healthy run when a failure is decided on. -/
def grantedBefore (past : List (TaskFailure × RestartDecision)) (failure : TaskFailure) : ℕ :=
  if failure.afterHealthyRun policy then 0 else granted policy past

/-- The first transient failure since the last healthy run. -/
def firstTransient (failures : List TaskFailure) : Option TaskFailure :=
  (since (·.afterHealthyRun policy) failures).find? (·.kind.isTransient)

theorem granted_concat (past : List (TaskFailure × RestartDecision)) (failure : TaskFailure)
    (decision : RestartDecision) :
    granted policy (past ++ [(failure, decision)]) =
      grantedBefore policy past failure + if decision.isRestart then 1 else 0 := by
  unfold granted grantedBefore
  rw [since_concat]
  by_cases h : failure.afterHealthyRun policy
  · simp [h, List.countP_cons]
  · simp [h, granted, List.countP_append, List.countP_cons]

/-- The transient failure that is first when a failure is decided on. -/
theorem firstTransient_concat (failures : List TaskFailure) (failure : TaskFailure) :
    firstTransient policy (failures ++ [failure]) =
      ((if failure.afterHealthyRun policy then none else firstTransient policy failures).or
        (if failure.kind.isTransient then some failure else none)) := by
  unfold firstTransient
  rw [since_concat]
  by_cases h : failure.afterHealthyRun policy
  · by_cases ht : failure.kind.isTransient <;> simp [h, ht]
  · by_cases ht : failure.kind.isTransient <;> simp [h, ht, List.find?_append]

end Granted

section Fatal

variable {budget : RestartBudget} {fatal : List TaskFailure} {failure : TaskFailure}
  {window : Duration} {maxRestarts : ℕ}

/-- The failures that spend the budget. -/
def fatals (failures : List TaskFailure) : List TaskFailure :=
  failures.filter fun failure => !failure.kind.isTransient

/-- The budget counts no more than the last failures, all of them in its window. -/
structure RestartBudget.Counts (budget : RestartBudget) (window : Duration)
    (fatal : List TaskFailure) : Prop where
  counted : ∃ earlier current, fatal = earlier ++ current ∧ budget.count ≤ current.length ∧
    ∀ f ∈ current, budget.windowStarted ≤ f.now ∧
      f.now.nanos ≤ budget.windowStarted.nanos + window.nanos

namespace RestartBudget

theorem Counts.new (now : Duration) : (RestartBudget.new now).Counts window fatal :=
  ⟨fatal, [], by simp, Nat.zero_le _, fun _ h => absurd h List.not_mem_nil⟩

/-- The next failure is within the window that is open when it is counted. -/
theorem reopened_within (h : budget.windowStarted ≤ failure.now) :
    (budget.reopened failure.now window).windowStarted ≤ failure.now ∧
      failure.now.nanos ≤
        (budget.reopened failure.now window).windowStarted.nanos + window.nanos := by
  unfold reopened
  by_cases hlate : window < failure.now.saturatingSince budget.windowStarted
  · rw [if_pos hlate]
    exact ⟨le_rfl, Nat.le_add_right ..⟩
  · rw [if_neg hlate]
    rw [Duration.lt_saturatingSince] at hlate
    exact ⟨h, Nat.not_lt.mp hlate⟩

theorem Counts.reopened (h : budget.Counts window fatal) (now : Duration) :
    (budget.reopened now window).Counts window fatal := by
  unfold RestartBudget.reopened
  split
  · exact .new now
  · exact h

/-- **Step lemma** of the budget. -/
theorem Counts.record (maxRestarts : ℕ) (h : budget.Counts window fatal)
    (hstarted : budget.windowStarted ≤ failure.now) :
    (budget.record failure.now window maxRestarts).2.Counts window (fatal ++ [failure]) := by
  obtain ⟨earlier, current, hfatal, hcount, hwithin⟩ := (h.reopened failure.now).counted
  refine ⟨earlier, current ++ [failure], by rw [hfatal, List.append_assoc], ?_, ?_⟩
  · have hlength : (current ++ [failure]).length = current.length + 1 := List.length_append
    have hmin := Nat.min_le_left ((budget.reopened failure.now window).count + 1) U32.max
    show min ((budget.reopened failure.now window).count + 1) U32.max ≤ _
    omega
  · intro f hf
    rcases List.mem_append.mp hf with hf | hf
    · exact hwithin f hf
    · rw [List.mem_singleton.mp hf]
      exact reopened_within hstarted

/-- A window that is exhausted holds the last failures. -/
theorem Counts.exhausted (h : budget.Counts window fatal) (hcount : maxRestarts < budget.count) :
    maxRestarts < fatal.length ∧ ∀ f ∈ fatal.drop (fatal.length - (maxRestarts + 1)),
      budget.windowStarted ≤ f.now ∧
        f.now.nanos ≤ budget.windowStarted.nanos + window.nanos := by
  obtain ⟨earlier, current, rfl, hle, hwithin⟩ := h
  rw [List.length_append]
  refine ⟨by omega, fun f hf => hwithin f ?_⟩
  have hsplit : earlier.length ≤ earlier.length + current.length - (maxRestarts + 1) := by omega
  rw [List.drop_append, List.drop_eq_nil_of_le hsplit, List.nil_append] at hf
  exact List.mem_of_mem_drop hf

end RestartBudget

end Fatal

namespace TaskRestarts

variable {policy : RestartPolicy} {restarts : TaskRestarts} {failure : TaskFailure}
  {past : List (TaskFailure × RestartDecision)} {start : Duration}

theorem after_concat (history : List TaskFailure) (failure : TaskFailure) :
    restarts.after policy (history ++ [failure]) =
      ((restarts.after policy history).onFailure policy failure).2 := by
  simp [after]

theorem decisions_concat (history : List TaskFailure) (failure : TaskFailure) :
    restarts.decisions policy (history ++ [failure]) = restarts.decisions policy history ++
      [(failure, ((restarts.after policy history).onFailure policy failure).1)] := by
  induction history generalizing restarts with
  | nil => rfl
  | cons f history ih =>
    rw [List.cons_append, decisions, ih]
    rfl

theorem decisions_failures (history : List TaskFailure) :
    (restarts.decisions policy history).map (·.1) = history := by
  induction history generalizing restarts with
  | nil => rfl
  | cons f history ih => rw [decisions, List.map_cons, ih]

section Backoff

/-- The delay after `k` restarts. -/
def delayAfter (policy : RestartPolicy) (k : ℕ) : ℕ :=
  min (policy.initialBackoff.nanos * 2 ^ k) policy.maxBackoff.nanos

theorem delayAfter_zero : delayAfter policy 0 = policy.initialBackoff.nanos := by
  rw [delayAfter, Nat.pow_zero, Nat.mul_one]
  exact Nat.min_eq_left policy.initial_le_max

theorem initial_le_delayAfter (policy : RestartPolicy) (k : ℕ) :
    policy.initialBackoff.nanos ≤ delayAfter policy k := by
  have hpow : 1 ≤ 2 ^ k := Nat.one_le_two_pow
  have hmul := Nat.le_mul_of_pos_right policy.initialBackoff.nanos hpow
  exact Nat.le_min.mpr ⟨hmul, policy.initial_le_max⟩

/-- The delay doubles up to the cap; the sum does not saturate below the cap. -/
theorem advance_next {backoff : RestartBackoff} {k : ℕ}
    (h : backoff.next.nanos = delayAfter policy k) :
    (backoff.advance policy.maxBackoff).2.next.nanos = delayAfter policy (k + 1) := by
  have hcap := policy.maxBackoff.bounded
  have hpow : policy.initialBackoff.nanos * 2 ^ (k + 1) =
      policy.initialBackoff.nanos * 2 ^ k + policy.initialBackoff.nanos * 2 ^ k := by
    rw [Nat.pow_succ, ← Nat.mul_assoc, Nat.mul_two]
  rw [delayAfter] at h ⊢
  rw [RestartBackoff.advance, Duration.nanos_min, Duration.nanos_saturatingAdd, h, hpow]
  generalize policy.initialBackoff.nanos * 2 ^ k = n
  omega

end Backoff

/-- The restart state after a history of decisions: the backoff counts the restarts granted
and the outage opened with the first transient failure, both since the last healthy run; the
budget counts failures of its window only. -/
structure Tracks (policy : RestartPolicy) (start : Duration)
    (past : List (TaskFailure × RestartDecision)) (restarts : TaskRestarts) : Prop where
  backoff : restarts.backoff.next.nanos = delayAfter policy (granted policy past)
  outage : restarts.outageStarted = (firstTransient policy (past.map (·.1))).map (·.now)
  started : restarts.budget.windowStarted ∈ start :: (past.map (·.1)).map (·.now)
  counts : restarts.budget.Counts policy.window (fatals (past.map (·.1)))

theorem tracks_new : (new policy start).Tracks policy start [] where
  backoff := delayAfter_zero.symm
  outage := rfl
  started := List.mem_cons_self
  counts := .new start

/-- A transient failure does not touch the budget. -/
theorem onFailure_budget : (restarts.onFailure policy failure).2.budget =
    if failure.kind.isTransient then restarts.budget
    else (restarts.budget.record failure.now policy.window policy.maxRestarts).2 := by
  have hsettled : (restarts.settled policy failure).budget = restarts.budget := by
    unfold settled
    split <;> rfl
  rw [← hsettled]
  unfold onFailure
  cases failure.kind with
  | transient =>
    unfold onTransient
    dsimp only
    split <;> rfl
  | fault | panic =>
    unfold onFatal
    dsimp only
    split <;> rfl

/-- What a healthy run leaves of the restart state. -/
theorem Tracks.settled (h : restarts.Tracks policy start past) (failure : TaskFailure) :
    (restarts.settled policy failure).backoff.next.nanos =
        delayAfter policy (grantedBefore policy past failure) ∧
      (restarts.settled policy failure).outageStarted =
        (if failure.afterHealthyRun policy then none
          else firstTransient policy (past.map (·.1))).map (·.now) ∧
      (restarts.settled policy failure).budget = restarts.budget := by
  unfold TaskRestarts.settled grantedBefore
  by_cases hhealthy : failure.afterHealthyRun policy
  · simp only [if_pos hhealthy]
    exact ⟨delayAfter_zero.symm, rfl, trivial⟩
  · simp only [if_neg hhealthy]
    exact ⟨h.backoff, h.outage, trivial⟩

section Steps

/-- A decision after a failure that is no restart leaves the backoff. -/
theorem Tracks.concat {restarts' : TaskRestarts} {decision : RestartDecision}
    (hbackoff : restarts'.backoff.next.nanos = delayAfter policy
      (grantedBefore policy past failure + if decision.isRestart then 1 else 0))
    (houtage : restarts'.outageStarted =
      (firstTransient policy (past.map (·.1) ++ [failure])).map (·.now))
    (hstarted : restarts'.budget.windowStarted ∈
      start :: (past.map (·.1) ++ [failure]).map (·.now))
    (hcounts : restarts'.budget.Counts policy.window (fatals (past.map (·.1) ++ [failure]))) :
    restarts'.Tracks policy start (past ++ [(failure, decision)]) where
  backoff := by rw [hbackoff, granted_concat]
  outage := by rw [houtage, List.map_append, List.map_singleton]
  started := by rwa [List.map_append, List.map_singleton]
  counts := by rwa [List.map_append, List.map_singleton]

/-- A granted restart waits the current delay and moves the backoff on. -/
theorem restart_backoff (restarts : TaskRestarts) {k : ℕ} (h : restarts.backoff.next.nanos = delayAfter policy k) :
    ∃ delay restarts', restarts.restart policy = (.restart delay, restarts') ∧
      delay.nanos = delayAfter policy k ∧
      restarts'.backoff.next.nanos = delayAfter policy (k + 1) ∧
      restarts'.outageStarted = restarts.outageStarted ∧ restarts'.budget = restarts.budget :=
  ⟨_, _, rfl, h, advance_next h, rfl, rfl⟩

/-- What `on_failure` decides after a transient failure, and the state it leaves. -/
theorem Tracks.onTransient (h : restarts.Tracks policy start past)
    (hkind : failure.kind.isTransient) :
    ∃ first, firstTransient policy (past.map (·.1) ++ [failure]) = some first ∧
      (if first.now.nanos + policy.maxTransientOutage.nanos < failure.now.nanos then
        (restarts.onFailure policy failure).1 = .stop (.transientOutage
          (failure.now.saturatingSince first.now) policy.maxTransientOutage)
      else ∃ delay, (restarts.onFailure policy failure).1 = .restart delay ∧
        delay.nanos = delayAfter policy (grantedBefore policy past failure)) ∧
      (restarts.onFailure policy failure).2.Tracks policy start
        (past ++ [(failure, (restarts.onFailure policy failure).1)]) := by
  obtain ⟨hbackoff, houtage, hbudget⟩ := h.settled failure
  have hfirst := firstTransient_concat policy (past.map (·.1)) failure
  rw [if_pos hkind] at hfirst
  obtain ⟨first, hor⟩ : ∃ first, firstTransient policy (past.map (·.1) ++ [failure]) =
      some first := by
    rw [hfirst]
    exact Option.isSome_iff_exists.mp (by simp)
  have hopen : (restarts.settled policy failure).outageStarted.getD failure.now = first.now := by
    rw [houtage]
    rw [hor] at hfirst
    cases hopened : (if failure.afterHealthyRun policy then none
        else firstTransient policy (past.map (·.1))) with
    | none =>
      rw [hopened] at hfirst
      cases hfirst
      rfl
    | some opened =>
      rw [hopened] at hfirst
      cases hfirst
      rfl
  have heq : restarts.onFailure policy failure =
      (restarts.settled policy failure).onTransient policy failure.now := by
    unfold onFailure
    cases hk : failure.kind with
    | transient => rfl
    | fault => rw [hk] at hkind; cases hkind
    | panic => rw [hk] at hkind; cases hkind
  refine ⟨first, hor, ?_⟩
  have hfatals : fatals (past.map (·.1) ++ [failure]) = fatals (past.map (·.1)) := by
    simp [fatals, hkind]
  have htracks : ∀ (restarts' : TaskRestarts) (decision : RestartDecision),
      restarts'.backoff.next.nanos = delayAfter policy
        (grantedBefore policy past failure + if decision.isRestart then 1 else 0) →
      restarts'.outageStarted = some first.now → restarts'.budget = restarts.budget →
      restarts'.Tracks policy start (past ++ [(failure, decision)]) := by
    intro restarts' decision hnext hstarted hsame
    refine .concat hnext (by rw [hstarted, hor]; rfl) ?_ (by rw [hsame, hfatals]; exact h.counts)
    rw [hsame, List.map_append, ← List.cons_append]
    exact List.mem_append_left _ h.started
  rw [heq]
  unfold TaskRestarts.onTransient
  simp only [hopen, Duration.lt_saturatingSince]
  by_cases hlong : first.now.nanos + policy.maxTransientOutage.nanos < failure.now.nanos
  · simp only [if_pos hlong]
    exact ⟨trivial, htracks _ _ hbackoff rfl hbudget⟩
  · simp only [if_neg hlong]
    obtain ⟨delay, restarts', hrestart, hdelay, hnext, hstarted, hsame⟩ := restart_backoff
      { restarts.settled policy failure with outageStarted := some first.now } hbackoff
    rw [hrestart]
    exact ⟨⟨delay, rfl, hdelay⟩, htracks _ _ hnext hstarted (hsame.trans hbudget)⟩

/-- What `on_failure` decides after a fault or a panic, and the state it leaves. -/
theorem Tracks.onFatal (h : restarts.Tracks policy start past)
    (hkind : failure.kind.isTransient = false)
    (htimes : ∀ t ∈ start :: (past.map (·.1)).map (·.now), t ≤ failure.now) :
    (if policy.maxRestarts < (restarts.onFailure policy failure).2.budget.count then
      (restarts.onFailure policy failure).1 = .stop (.budgetExhausted policy.maxRestarts policy.window)
    else ∃ delay, (restarts.onFailure policy failure).1 = .restart delay ∧
      delay.nanos = delayAfter policy (grantedBefore policy past failure)) ∧
    (restarts.onFailure policy failure).2.Tracks policy start
      (past ++ [(failure, (restarts.onFailure policy failure).1)]) := by
  obtain ⟨hbackoff, houtage, hbudget⟩ := h.settled failure
  have heq : restarts.onFailure policy failure =
      (restarts.settled policy failure).onFatal policy failure.now := by
    unfold onFailure
    cases hk : failure.kind with
    | transient => rw [hk] at hkind; cases hkind
    | fault => rfl
    | panic => rfl
  have hfirst := firstTransient_concat policy (past.map (·.1)) failure
  have hnot : ¬failure.kind.isTransient = true := by simp [hkind]
  rw [if_neg hnot, Option.or_none] at hfirst
  have hcounts := h.counts.record policy.maxRestarts (htimes _ h.started)
  have hfatals : fatals (past.map (·.1) ++ [failure]) = fatals (past.map (·.1)) ++ [failure] := by
    simp [fatals, hkind]
  have hstarted : (restarts.budget.record failure.now policy.window policy.maxRestarts).2.windowStarted ∈
      start :: (past.map (·.1) ++ [failure]).map (·.now) := by
    show (restarts.budget.reopened failure.now policy.window).windowStarted ∈ _
    unfold RestartBudget.reopened
    split
    · simp [RestartBudget.new]
    · rw [List.map_append, ← List.cons_append]
      exact List.mem_append_left _ h.started
  have htracks : ∀ (restarts' : TaskRestarts) (decision : RestartDecision),
      restarts'.backoff.next.nanos = delayAfter policy
        (grantedBefore policy past failure + if decision.isRestart then 1 else 0) →
      restarts'.outageStarted = (restarts.settled policy failure).outageStarted →
      restarts'.budget = (restarts.budget.record failure.now policy.window policy.maxRestarts).2 →
      restarts'.Tracks policy start (past ++ [(failure, decision)]) := by
    intro restarts' decision hnext houtage' hrecord
    refine .concat hnext (by rw [houtage', houtage, hfirst]) ?_ ?_
    · rw [hrecord]
      exact hstarted
    · rw [hrecord, hfatals]
      exact hcounts
  rw [heq]
  unfold TaskRestarts.onFatal
  rw [hbudget]
  by_cases hallowed : (restarts.budget.record failure.now policy.window policy.maxRestarts).1 = true
  · simp only [if_pos hallowed]
    obtain ⟨delay, restarts', hrestart, hdelay, hnext, hsame, hrecord⟩ := restart_backoff
      { restarts.settled policy failure with
        budget := (restarts.budget.record failure.now policy.window policy.maxRestarts).2 } hbackoff
    have hcount : ¬policy.maxRestarts <
        (restarts.budget.record failure.now policy.window policy.maxRestarts).2.count :=
      Nat.not_lt.mpr (of_decide_eq_true hallowed)
    rw [hrestart]
    simp only [hrecord, if_neg hcount]
    exact ⟨⟨delay, rfl, hdelay⟩, htracks _ _ hnext hsame hrecord⟩
  · simp only [if_neg hallowed]
    have hcount : policy.maxRestarts <
        (restarts.budget.record failure.now policy.window policy.maxRestarts).2.count :=
      Nat.not_le.mp fun hle => hallowed (decide_eq_true hle)
    rw [if_pos hcount]
    exact ⟨trivial, htracks _ _ hbackoff rfl rfl⟩

end Steps

section Runs

/-- The budget after a history is the one after its faults and panics. -/
theorem after_budget (history : List TaskFailure) :
    (restarts.after policy history).budget =
      (restarts.after policy (fatals history)).budget := by
  induction history using List.reverseRecOn with
  | nil => rfl
  | append_singleton history failure ih =>
    rw [after_concat, onFailure_budget, ih]
    by_cases hkind : failure.kind.isTransient
    · simp [fatals, hkind]
    · have hfatals : fatals (history ++ [failure]) = fatals history ++ [failure] := by
        simp [fatals, hkind]
      rw [if_neg hkind, hfatals, after_concat, onFailure_budget, if_neg hkind]

/-- The times of a history that is extended by a failure. -/
theorem times_concat {history : List TaskFailure}
    (h : (start :: (history ++ [failure]).map (·.now)).Pairwise (· ≤ ·)) :
    (start :: history.map (·.now)).Pairwise (· ≤ ·) ∧
      ∀ t ∈ start :: history.map (·.now), t ≤ failure.now := by
  rw [List.map_append, List.map_singleton, ← List.cons_append, List.pairwise_append] at h
  exact ⟨h.1, fun t ht => h.2.2 t ht failure.now (List.mem_singleton_self _)⟩

/-- **Run lemma**. -/
theorem tracks_after (history : List TaskFailure)
    (htimes : (start :: history.map (·.now)).Pairwise (· ≤ ·)) :
    ((new policy start).after policy history).Tracks policy start
      ((new policy start).decisions policy history) := by
  induction history using List.reverseRecOn with
  | nil => exact tracks_new
  | append_singleton history failure ih =>
    obtain ⟨hpast, hlast⟩ := times_concat htimes
    rw [after_concat, decisions_concat]
    by_cases hkind : failure.kind.isTransient
    · obtain ⟨_, _, _, htracks⟩ := (ih hpast).onTransient hkind
      exact htracks
    · refine ((ih hpast).onFatal (Bool.not_eq_true _ ▸ hkind) ?_).2
      rw [decisions_failures]
      exact hlast

end Runs

end TaskRestarts

/-- **Restart policy over a history**: after failures at non-decreasing times, a failure
exhausts the budget only if it is no transient one and the last `max_task_restarts + 1` faults
and panics lie in an interval of `restart_window`, and the budget is the one that the faults
and panics alone lead to; it ends an outage exactly if it is transient and more than
`max_transient_outage` after the first transient failure since the last healthy run; and a
restart waits the initial delay, doubled for each restart since the last healthy run, up to
the cap. -/
theorem TaskRestarts.onFailure_history (config : RestartConfig) (start : Duration)
    (history : List TaskFailure) (failure : TaskFailure)
    (htimes : (start :: (history ++ [failure]).map (·.now)).Pairwise (· ≤ ·)) :
    let policy := RestartPolicy.new config
    let restarts := (new policy start).after policy history
    let past := (new policy start).decisions policy history
    let decision := (restarts.onFailure policy failure).1
    (∀ maxRestarts window, decision = .stop (.budgetExhausted maxRestarts window) →
      maxRestarts = config.maxTaskRestarts ∧ window = config.restartWindow ∧
      failure.kind.isTransient = false ∧
      let fatal := fatals (history ++ [failure])
      maxRestarts + 1 ≤ fatal.length ∧ ∃ opened : Duration,
        ∀ f ∈ fatal.drop (fatal.length - (maxRestarts + 1)),
          opened ≤ f.now ∧ f.now.nanos ≤ opened.nanos + window.nanos) ∧
    restarts.budget = ((new policy start).after policy (fatals history)).budget ∧
    ((∃ lasted limit, decision = .stop (.transientOutage lasted limit)) ↔
      failure.kind.isTransient = true ∧
        ∃ first, firstTransient policy (history ++ [failure]) = some first ∧
          first.now.nanos + config.maxTransientOutage.nanos < failure.now.nanos) ∧
    ∀ delay, decision = .restart delay →
      delay.nanos = min (config.restartBackoff.nanos * 2 ^ grantedBefore policy past failure)
          (max config.maxRestartBackoff.nanos config.restartBackoff.nanos) ∧
        config.restartBackoff ≤ delay := by
  intro policy restarts past decision
  obtain ⟨hpast, hlast⟩ := times_concat htimes
  have htracks : restarts.Tracks policy start past := tracks_after history hpast
  have hfailures : past.map (·.1) = history := decisions_failures history
  have hdelay : ∀ delay : Duration, delay.nanos =
        delayAfter policy (grantedBefore policy past failure) →
      delay.nanos = min (config.restartBackoff.nanos * 2 ^ grantedBefore policy past failure)
          (max config.maxRestartBackoff.nanos config.restartBackoff.nanos) ∧
        config.restartBackoff ≤ delay := by
    intro delay h
    refine ⟨?_, ?_⟩
    · have hcap : policy.maxBackoff.nanos = _ := Duration.nanos_max ..
      rw [h, delayAfter, hcap]
      rfl
    · rw [Duration.le_iff, h]
      exact initial_le_delayAfter policy _
  cases hkind : failure.kind.isTransient with
  | true =>
    obtain ⟨first, hfirst, hdecision, -⟩ := htracks.onTransient hkind
    rw [hfailures] at hfirst
    by_cases hlong : first.now.nanos + policy.maxTransientOutage.nanos < failure.now.nanos
    · rw [if_pos hlong] at hdecision
      refine ⟨fun _ _ h => ?_, after_budget history, ?_, fun _ h => ?_⟩
      · cases hdecision.symm.trans h
      · exact ⟨fun _ => ⟨rfl, first, hfirst, hlong⟩, fun _ => ⟨_, _, hdecision⟩⟩
      · cases hdecision.symm.trans h
    · rw [if_neg hlong] at hdecision
      obtain ⟨delay, hrestart, hnanos⟩ := hdecision
      refine ⟨fun _ _ h => ?_, after_budget history, ⟨?_, ?_⟩, fun _ h => ?_⟩
      · cases hrestart.symm.trans h
      · rintro ⟨_, _, h⟩
        cases hrestart.symm.trans h
      · rintro ⟨-, first', hfirst', hlong'⟩
        cases hfirst.symm.trans hfirst'
        exact absurd hlong' hlong
      · cases hrestart.symm.trans h
        exact hdelay delay hnanos
  | false =>
    obtain ⟨hdecision, hnext⟩ := htracks.onFatal hkind (by rw [hfailures]; exact hlast)
    refine ⟨fun maxRestarts window h => ?_, after_budget history, ⟨?_, ?_⟩, fun delay h => ?_⟩
    · by_cases hcount : policy.maxRestarts < (restarts.onFailure policy failure).2.budget.count
      · rw [if_pos hcount] at hdecision
        cases hdecision.symm.trans h
        have hcounts := hnext.counts
        rw [List.map_append, hfailures] at hcounts
        obtain ⟨hlength, hwithin⟩ := hcounts.exhausted hcount
        exact ⟨rfl, rfl, rfl, hlength, _, hwithin⟩
      · rw [if_neg hcount] at hdecision
        obtain ⟨_, hrestart, -⟩ := hdecision
        cases hrestart.symm.trans h
    · rintro ⟨_, _, h⟩
      split at hdecision
      · cases hdecision.symm.trans h
      · obtain ⟨_, hrestart, -⟩ := hdecision
        cases hrestart.symm.trans h
    · rintro ⟨h, -⟩
      cases h
    · split at hdecision
      · cases hdecision.symm.trans h
      · obtain ⟨_, hrestart, hnanos⟩ := hdecision
        cases hrestart.symm.trans h
        exact hdelay delay hnanos

namespace Sample

/-- A span of a few seconds. -/
def seconds (n : Fin 1000) : Duration :=
  ⟨n * 1000000000, by have := n.isLt; unfold Duration.maxNanos; omega⟩

/-- One restart after a fault in ten seconds. -/
def restartConfig : RestartConfig where
  restartBackoff := seconds 1
  maxRestartBackoff := seconds 4
  taskHealthyAfter := seconds 60
  maxTaskRestarts := 1
  restartWindow := seconds 10
  maxTransientOutage := seconds 30

def faultAt (n : Fin 1000) : TaskFailure := ⟨seconds n, seconds 0, .fault⟩

/-- Two faults in ten seconds stop the runtime, whatever was transient between them. -/
theorem onFailure_history_faults :
    let history := [faultAt 1, ⟨seconds 2, seconds 0, .transient .unavailable⟩]
    let restarts := (TaskRestarts.new (.new restartConfig) (seconds 1)).after (.new restartConfig)
      history
    (restarts.onFailure (.new restartConfig) (faultAt 9)).1 =
        .stop (.budgetExhausted 1 (seconds 10)) ∧
      2 ≤ (fatals (history ++ [faultAt 9])).length := by
  have hexhausted : ((TaskRestarts.after (.new restartConfig)
      (.new (.new restartConfig) (seconds 1))
      [faultAt 1, ⟨seconds 2, seconds 0, .transient .unavailable⟩]).onFailure
        (.new restartConfig) (faultAt 9)).1 = .stop (.budgetExhausted 1 (seconds 10)) := by
    decide +kernel
  have hhistory := TaskRestarts.onFailure_history restartConfig (seconds 1)
    [faultAt 1, ⟨seconds 2, seconds 0, .transient .unavailable⟩] (faultAt 9) (by decide +kernel)
  exact ⟨hexhausted, (hhistory.1 _ _ hexhausted).2.2.2.1⟩

end Sample

end DurableWorkflows
