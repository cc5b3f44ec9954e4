import DurableWorkflows.Engine.Lifecycle
import Mathlib.Tactic.Common

/-!
# The invariant of an aggregate

What holds of the rows of one workflow between any two steps: the event log and
the delivery numbers, the lease of the row, the wait columns with the row they
refer to, and the ledger of attempts of every activity.

## Main definitions

- `Log`: the numbering of an event log
- `RowInv`: what holds of a workflow row alone
- `Ledger`: what holds of an activity and its attempts
- `Inv`: what holds of an aggregate with its row
- `Aggregate.WellFormed`: an aggregate is empty or satisfies `Inv`
-/

namespace DurableWorkflows

-- ════════════════════════════════════════════════════════════════════════
-- Event logs
-- ════════════════════════════════════════════════════════════════════════

/-- The events of a workflow are numbered from one, in the order they were
appended, and so are the deliverable ones among them. -/
structure Log (events : List WorkflowEventRow) : Prop where
  sequences : events.map (·.sequence) = List.range' 1 events.length
  numbered : deliveries events = List.range' 1 (deliveries events).length
  bounded : events.length ≤ I32.max
  decodes : ∀ e ∈ events, e.deliverySequence.isSome → ∃ event, decodeEvent e = .ok event
  typed : ∀ e ∈ events, e.eventType.resultKind = e.answersKind

/-- The commands that the step results of a log answer. -/
def answeredCommands (events : List WorkflowEventRow) : List ℕ := events.filterMap (·.answers)

section Log

variable {events : List WorkflowEventRow} {e : WorkflowEventRow} {d : Option ℕ} {n : ℕ}

theorem Log.nil : Log [] := ⟨rfl, rfl, by simp, by simp, by simp⟩

theorem deliveries_append :
    deliveries (events ++ [e]) = deliveries events ++ e.deliverySequence.toList := by
  cases h : e.deliverySequence <;> simp [deliveries, h]

theorem answeredCommands_append :
    answeredCommands (events ++ [e]) = answeredCommands events ++ e.answers.toList := by
  cases h : e.answers <;> simp [answeredCommands, h]

theorem length_deliveries_le (events : List WorkflowEventRow) :
    (deliveries events).length ≤ events.length :=
  List.length_filterMap_le _ _

/-- A history event continues a log. -/
theorem Log.add_history (h : Log events) (he : NextEvent events none e) : Log (events ++ [e]) where
  sequences := by
    simp [h.sequences, he.sequence, List.range'_concat, Nat.add_comm]
  numbered := by
    simpa [deliveries_append, he.delivers] using h.numbered
  bounded := by simpa using he.bounded
  decodes e' he' hd := by
    rcases List.mem_append.mp he' with he' | he'
    · exact h.decodes e' he' hd
    · obtain rfl := List.mem_singleton.mp he'
      simp [he.delivers] at hd
  typed := List.forall_mem_append.mpr ⟨h.typed, by simpa using he.typed⟩

/-- The next delivery continues a log. -/
theorem Log.add_delivery (h : Log events) (he : NextEvent events (some n) e)
    (hn : n = (deliveries events).length + 1) : Log (events ++ [e]) where
  sequences := by
    simp [h.sequences, he.sequence, List.range'_concat, Nat.add_comm]
  numbered := by
    rw [deliveries_append, he.delivers, Option.toList_some, List.length_append,
      List.length_singleton, List.range'_concat, ← h.numbered, hn]
    simp [Nat.add_comm]
  bounded := by simpa using he.bounded
  decodes e' he' hd := by
    rcases List.mem_append.mp he' with he' | he'
    · exact h.decodes e' he' hd
    · obtain rfl := List.mem_singleton.mp he'
      exact he.decodes rfl
  typed := List.forall_mem_append.mpr ⟨h.typed, by simpa using he.typed⟩

/-- A number is a delivery number of the log exactly if it lies in its range. -/
theorem Log.mem_deliveries (h : Log events) :
    n ∈ deliveries events ↔ 1 ≤ n ∧ n ≤ (deliveries events).length := by
  rw [h.numbered, List.mem_range'_1]
  simp
  omega

end Log

-- ════════════════════════════════════════════════════════════════════════
-- Workflow rows
-- ════════════════════════════════════════════════════════════════════════

section Awaited

variable {r : WorkflowRow} {wait : Wait}

@[simp]
theorem WaitKind.toWait_kind_referenceId (wait : Wait) :
    wait.kind.toWait wait.referenceId = wait := by
  cases wait <;> rfl

@[simp]
theorem awaited_waitOn : (r.waitOn wait).awaited = some wait := by
  simp [WorkflowRow.awaited, WorkflowRow.waitOn]

@[simp]
theorem awaited_waitCleared : r.waitCleared.awaited = none := rfl

@[simp]
theorem awaited_leaseCleared : r.leaseCleared.awaited = r.awaited := rfl

end Awaited

/-- The waits a status allows. -/
def WorkflowStatus.allows : WorkflowStatus → Option Wait → Bool
  | ready, wait | running, wait => wait.isNone
  | waitingActivity, wait | blocked, wait => wait.any (·.kind == .activity)
  | waitingChild, wait => wait.any (·.kind == .child)
  | sleeping, wait => wait.any (·.kind == .timer)
  | waitingApproval, wait => wait.any (·.kind == .approval)
  | paused, _ | succeeded, _ | failed, _ | cancelled, _ => true

/-- The statuses an awaited activity can have. -/
def WorkflowStatus.awaitedActivity : WorkflowStatus → ActivityStatus → Bool
  | waitingActivity, status => !status.isTerminal
  | blocked, status => status == .deadLettered
  | paused, status => status == .pending || status == .cancelling || status == .deadLettered
  | _, _ => false

/-- The columns of a workflow row that steer the engine. -/
structure Control where
  status : WorkflowStatus
  wait : Option Wait
  command : ℕ
  delivered : ℕ
  kind : String
  version : ℤ

/-- The control columns of a row. -/
def WorkflowRow.control (r : WorkflowRow) : Control :=
  ⟨r.status, r.awaited, r.commandSequence, r.deliveredEventSequence, r.kind, r.version⟩

/-- What holds of a workflow row alone. -/
structure RowInv (r : WorkflowRow) : Prop where
  leaseOwner : r.leaseOwner.isSome = (r.status == .running)
  leaseToken : r.leaseToken.isSome = (r.status == .running)
  leaseExpiresAt : r.leaseExpiresAt.isSome = (r.status == .running)
  columns : r.waitKind.isSome = r.waitReferenceId.isSome
  allowed : r.status.allows r.awaited = true
  parent : ∀ p, r.parentWorkflowId = some p → p < r.id
  restartedFrom : ∀ p, r.restartedFromWorkflowId = some p → p < r.id
  command_le : r.commandSequence ≤ r.deliveredEventSequence

/-- What holds of a log and the control columns of its workflow: at most one
event is undelivered, and exactly one unless the workflow waits. -/
structure Delivery (events : List WorkflowEventRow) (c : Control) : Prop where
  log : Log events
  delivered_le : c.delivered ≤ (deliveries events).length
  le_delivered : (deliveries events).length ≤ c.delivered + 1
  pending : c.status.isTerminal = false →
    ((deliveries events).length = c.delivered + 1 ↔ c.wait = none)
  sorted : (answeredCommands events).Pairwise (· < ·)
  answered_le : ∀ n ∈ answeredCommands events, n ≤ c.command
  unanswered : c.status.isTerminal = false → c.wait ≠ none → c.command ∉ answeredCommands events

-- ════════════════════════════════════════════════════════════════════════
-- Activities and approvals
-- ════════════════════════════════════════════════════════════════════════

/-- What holds of an activity and its attempts. -/
structure Ledger (act : ActivityRow) (attempts : ℕ → Option ActivityAttemptRow) : Prop where
  leaseOwner : act.leaseOwner.isSome = act.status.holdsLease
  leaseToken : act.leaseToken.isSome = act.status.holdsLease
  leaseExpiresAt : act.leaseExpiresAt.isSome = act.status.holdsLease
  numbered : ∀ n, (attempts n).isSome ↔ 1 ≤ n ∧ n ≤ act.attemptCount
  started : act.status.holdsLease = true → 1 ≤ act.attemptCount
  isOpen : ∀ n attempt, attempts n = some attempt →
    (attempt.finishedAt = none ↔ act.status.holdsLease = true ∧ n = act.attemptCount)
  token : ∀ attempt, attempts act.attemptCount = some attempt → act.status.holdsLease = true →
    act.leaseToken = some attempt.leaseToken
  outcome : ∀ n attempt, attempts n = some attempt →
    attempt.outcome.isSome = attempt.finishedAt.isSome
  count_le : act.attemptCount ≤ act.maxAttempts
  pending : act.status = .pending → act.attemptCount < act.maxAttempts
  revoke : act.status = .cancelling →
    ∃ outcome : AttemptOutcome, outcome.isRevoke ∧ act.lastErrorCategory = some outcome.asStr

/-- What an activity owes to its workflow. -/
structure Coupled (c : Control) (a : ActivityId) (act : ActivityRow) : Prop where
  command_le : act.commandSequence ≤ c.command
  live : act.status.isTerminal = false → c.status.isTerminal = false →
    c.wait = some (.activity a)
  revoked : c.status.isTerminal = true → act.status ≠ .pending ∧ act.status ≠ .running
  budget : act.status = .cancelling → c.status.isTerminal = false →
    act.attemptCount < act.maxAttempts

/-- What an approval owes to its workflow. -/
structure ApprovalCoupled (c : Control) (p : ApprovalId) (approval : ApprovalRow) : Prop where
  command_le : approval.commandSequence ≤ c.command
  live : approval.status = .pending → c.status.isTerminal = false ∧ c.wait = some (.approval p)

/-- The results a log delivers are those of the succeeded activities. -/
structure Results (events : List WorkflowEventRow) (activities : ActivityId → Option ActivityRow) :
    Prop where
  result : ∀ e ∈ events, ∀ command res, e.activityResult = some (command, res) →
    ∃ a act, activities a = some act ∧ act.status = .succeeded ∧ act.commandSequence = command ∧
      act.kind = res.kind ∧ act.version = res.version ∧
      act.providerResultJson = some res.outputJson
  answered : ∀ a act, activities a = some act → act.status = .succeeded →
    act.commandSequence ∈ answeredCommands events
  unique : ∀ a act a' act', activities a = some act → activities a' = some act' →
    act.status = .succeeded → act'.status = .succeeded →
    act.commandSequence = act'.commandSequence → a = a'

-- ════════════════════════════════════════════════════════════════════════
-- Aggregates
-- ════════════════════════════════════════════════════════════════════════

/-- The row a wait refers to is there and as the wait needs it. Whether an
awaited child is there is not a fact about one aggregate. -/
def Awaited (activities : ActivityId → Option ActivityRow)
    (approvals : ApprovalId → Option ApprovalRow) (c : Control) : Wait → Prop
  | .timer command => command = c.command
  | .child _ => True
  | .approval p => ∃ approval, approvals p = some approval ∧ approval.status = .pending ∧
      approval.commandSequence = c.command ∧ approval.kind = c.kind ∧ approval.version = c.version
  | .activity a => ∃ act, activities a = some act ∧ act.commandSequence = c.command ∧
      c.status.awaitedActivity act.status = true ∧
      ∀ a' act', activities a' = some act' → act'.commandSequence = c.command →
        act'.replacementNumber ≤ act.replacementNumber

/-- What holds of an aggregate with its row. -/
structure Inv (g : Aggregate) (r : WorkflowRow) : Prop where
  row : RowInv r
  delivery : Delivery g.events r.control
  awaited : r.status.isTerminal = false → ∀ wait, r.awaited = some wait →
    Awaited g.activities g.approvals r.control wait
  ledger : ∀ a act, g.activities a = some act → Ledger act (g.attempts a)
  coupled : ∀ a act, g.activities a = some act → Coupled r.control a act
  orphans : ∀ a n, g.activities a = none → g.attempts a n = none
  approvals : ∀ p approval, g.approvals p = some approval → ApprovalCoupled r.control p approval
  results : Results g.events g.activities

/-- An aggregate is empty or satisfies the invariant with its row. -/
def Aggregate.WellFormed (g : Aggregate) : Prop :=
  match g.row with
  | none => g = .empty
  | some r => Inv g r

theorem Aggregate.WellFormed.inv {g : Aggregate} {r : WorkflowRow} (h : g.WellFormed)
    (hr : g.row = some r) : Inv g r := by
  simpa [Aggregate.WellFormed, hr] using h

theorem Aggregate.WellFormed.of_inv {g : Aggregate} {r : WorkflowRow} (hr : g.row = some r)
    (h : Inv g r) : g.WellFormed := by
  simpa [Aggregate.WellFormed, hr] using h

theorem Aggregate.wellFormed_empty : Aggregate.empty.WellFormed := rfl

-- ════════════════════════════════════════════════════════════════════════
-- Parts of the invariant under the steps
-- ════════════════════════════════════════════════════════════════════════

namespace Delivery

variable {events : List WorkflowEventRow} {e : WorkflowEventRow} {c c' : Control}

/-- A change of status that keeps what is delivered. -/
theorem restate (h : Delivery events c) (hcommand : c'.command = c.command)
    (hdelivered : c'.delivered = c.delivered)
    (hopen : c'.status.isTerminal = false →
      c.status.isTerminal = false ∧ (c'.wait = none ↔ c.wait = none)) : Delivery events c' where
  log := h.log
  delivered_le := hdelivered ▸ h.delivered_le
  le_delivered := hdelivered ▸ h.le_delivered
  pending ht := by
    obtain ⟨ht', hwait⟩ := hopen ht
    rw [hdelivered, hwait]
    exact h.pending ht'
  sorted := h.sorted
  answered_le := hcommand ▸ h.answered_le
  unanswered ht hwait := by
    obtain ⟨ht', hiff⟩ := hopen ht
    rw [hcommand]
    exact h.unanswered ht' (mt hiff.mpr hwait)

theorem history (h : Delivery events c) (he : NextEvent events none e) (ha : e.answers = none) :
    Delivery (events ++ [e]) c where
  log := h.log.add_history he
  delivered_le := by simpa [deliveries_append, he.delivers] using h.delivered_le
  le_delivered := by simpa [deliveries_append, he.delivers] using h.le_delivered
  pending := by simpa [deliveries_append, he.delivers] using h.pending
  sorted := by simpa [answeredCommands_append, ha] using h.sorted
  answered_le := by simpa [answeredCommands_append, ha] using h.answered_le
  unanswered := by simpa [answeredCommands_append, ha] using h.unanswered

/-- A commit that consumes the pending event and leaves none. -/
theorem consume (h : Delivery events c) (ht : c.status.isTerminal = false) (hwait : c.wait = none)
    (hdelivered : c'.delivered = c.delivered + 1) (hcommand : c.command ≤ c'.command)
    (hopen : c'.status.isTerminal = false → c'.wait ≠ none ∧ c.command < c'.command) :
    Delivery events c' where
  log := h.log
  delivered_le := by rw [hdelivered, (h.pending ht).mpr hwait]
  le_delivered := by rw [hdelivered, (h.pending ht).mpr hwait]; omega
  pending ht' := by
    rw [hdelivered, (h.pending ht).mpr hwait]
    simp [(hopen ht').1]
  sorted := h.sorted
  answered_le n hn := (h.answered_le n hn).trans hcommand
  unanswered ht' _ hmem := by
    have := h.answered_le _ hmem
    have := (hopen ht').2
    omega

/-- A commit that consumes the pending event and appends the next one. -/
theorem advance (h : Delivery events c) (ht : c.status.isTerminal = false) (hwait : c.wait = none)
    (he : NextEvent events (some (c.delivered + 2)) e) (ha : e.answers = none)
    (hdelivered : c'.delivered = c.delivered + 1) (hcommand : c'.command = c.command)
    (hwait' : c'.wait = none) : Delivery (events ++ [e]) c' := by
  have hlen := (h.pending ht).mpr hwait
  refine ⟨h.log.add_delivery he (by omega), ?_, ?_, ?_, ?_, ?_, ?_⟩
  · simp [deliveries_append, he.delivers, hlen, hdelivered]
  · simp [deliveries_append, he.delivers, hlen, hdelivered]
  · simp [deliveries_append, he.delivers, hlen, hdelivered, hwait']
  · simpa [answeredCommands_append, ha] using h.sorted
  · simpa [answeredCommands_append, ha, hcommand] using h.answered_le
  · simp [hwait']

/-- The answer to a wait. -/
theorem answer (h : Delivery events c) (ht : c.status.isTerminal = false) (hwait : c.wait ≠ none)
    (he : NextEvent events (some (c.delivered + 1)) e) (ha : e.answers = some c.command)
    (hdelivered : c'.delivered = c.delivered) (hcommand : c'.command = c.command)
    (hwait' : c'.wait = none) : Delivery (events ++ [e]) c' := by
  have hlen : (deliveries events).length = c.delivered := by
    have := h.delivered_le
    have := h.le_delivered
    have := mt (h.pending ht).mp hwait
    omega
  have hlt : ∀ n ∈ answeredCommands events, n < c.command := by
    intro n hn
    have hne : n ≠ c.command := fun heq => h.unanswered ht hwait (heq ▸ hn)
    have := h.answered_le n hn
    omega
  refine ⟨h.log.add_delivery he (by omega), ?_, ?_, ?_, ?_, ?_, ?_⟩
  · simp [deliveries_append, he.delivers, hlen, hdelivered]
  · simp [deliveries_append, he.delivers, hlen, hdelivered]
  · simp [deliveries_append, he.delivers, hlen, hdelivered, hwait']
  · simpa [answeredCommands_append, ha, List.pairwise_append] using ⟨h.sorted, hlt⟩
  · intro n hn
    simp only [answeredCommands_append, ha, Option.toList_some, List.mem_append,
      List.mem_singleton] at hn
    rcases hn with hn | rfl
    · exact hcommand ▸ h.answered_le n hn
    · exact hcommand.ge
  · simp [hwait']

end Delivery

section Activities

variable {c c' : Control} {a : ActivityId} {act act' : ActivityRow}
  {attempts : ℕ → Option ActivityAttemptRow} {attempt attempt' : ActivityAttemptRow}

/-- A terminal activity owes nothing but its command. -/
theorem Coupled.of_terminal (ht : act.status.isTerminal = true)
    (hc : act.commandSequence ≤ c.command) : Coupled c a act where
  command_le := hc
  live h := by simp [ht] at h
  revoked _ := by constructor <;> rintro h <;> simp [h, ActivityStatus.isTerminal] at ht
  budget h := by simp [h, ActivityStatus.isTerminal] at ht

/-- A workflow that stays open with the same wait. -/
theorem Coupled.restate (h : Coupled c a act) (ht : c.status.isTerminal = false)
    (hwait : c'.wait = c.wait) (hcommand : c.command ≤ c'.command)
    (ht' : c'.status.isTerminal = false) : Coupled c' a act where
  command_le := h.command_le.trans hcommand
  live hact _ := hwait ▸ h.live hact ht
  revoked h' := by simp [ht'] at h'
  budget hact _ := h.budget hact ht

theorem Ledger.fresh (h : act.Fresh) (hnone : ∀ n, attempts n = none) : Ledger act attempts where
  leaseOwner := by simp [h.leaseOwner, h.status, ActivityStatus.holdsLease]
  leaseToken := by simp [h.leaseToken, h.status, ActivityStatus.holdsLease]
  leaseExpiresAt := by simp [h.leaseExpiresAt, h.status, ActivityStatus.holdsLease]
  numbered n := by
    simp [hnone, h.attemptCount]
    omega
  started hl := by simp [h.status, ActivityStatus.holdsLease] at hl
  isOpen n attempt hn := by simp [hnone] at hn
  token attempt hn := by simp [hnone] at hn
  outcome n attempt hn := by simp [hnone] at hn
  count_le := by simp [h.attemptCount]
  pending _ := h.attemptCount ▸ h.maxAttempts
  revoke hs := by simp [h.status] at hs

/-- A change of an activity that keeps its lease columns and its attempts. -/
theorem Ledger.restate (h : Ledger act attempts)
    (howner : act'.leaseOwner.isSome = act'.status.holdsLease)
    (htoken : act'.leaseToken = act.leaseToken)
    (hexpiry : act'.leaseExpiresAt.isSome = act'.status.holdsLease)
    (hstatus : act'.status.holdsLease = act.status.holdsLease)
    (hcount : act'.attemptCount = act.attemptCount) (hmax : act.maxAttempts ≤ act'.maxAttempts)
    (hpending : act'.status = .pending → act'.attemptCount < act'.maxAttempts)
    (hrevoke : act'.status = .cancelling → ∃ outcome : AttemptOutcome, outcome.isRevoke ∧
      act'.lastErrorCategory = some outcome.asStr) : Ledger act' attempts where
  leaseOwner := howner
  leaseToken := by rw [htoken, hstatus]; exact h.leaseToken
  leaseExpiresAt := hexpiry
  numbered n := by rw [hcount]; exact h.numbered n
  started hl := by rw [hcount]; exact h.started (hstatus ▸ hl)
  isOpen n attempt hn := by rw [hcount, hstatus]; exact h.isOpen n attempt hn
  token attempt hn hl := by
    rw [htoken]
    exact h.token attempt (hcount ▸ hn) (hstatus ▸ hl)
  outcome := h.outcome
  count_le := by rw [hcount]; exact h.count_le.trans hmax
  pending := hpending
  revoke := hrevoke

/-- A claim opens the next attempt. -/
theorem Ledger.claim (h : Ledger act attempts) (hstatus : act.status = .pending)
    (hstatus' : act'.status = .running) (hcount : act'.attemptCount = act.attemptCount + 1)
    (hmax : act'.maxAttempts = act.maxAttempts) (howner : act'.leaseOwner.isSome)
    (htoken : act'.leaseToken = some attempt.leaseToken) (hexpiry : act'.leaseExpiresAt.isSome)
    (hopen : attempt.finishedAt = none) (houtcome : attempt.outcome = none) :
    Ledger act' fun n => if n = act.attemptCount + 1 then some attempt else attempts n where
  leaseOwner := by simp [howner, hstatus', ActivityStatus.holdsLease]
  leaseToken := by simp [htoken, hstatus', ActivityStatus.holdsLease]
  leaseExpiresAt := by simp [hexpiry, hstatus', ActivityStatus.holdsLease]
  numbered n := by
    have := h.numbered n
    rw [hcount]
    split
    · simp_all
    · rw [this]
      omega
  started _ := by omega
  isOpen n attempt' hn := by
    split at hn
    · cases hn
      simp_all [ActivityStatus.holdsLease]
    · have := (h.isOpen n attempt' hn).not
      simp_all [ActivityStatus.holdsLease]
  token attempt' hn _ := by
    rw [if_pos hcount] at hn
    cases hn
    exact htoken
  outcome n attempt' hn := by
    split at hn
    · cases hn
      simp [hopen, houtcome]
    · exact h.outcome n attempt' hn
  count_le := by
    have := h.pending hstatus
    omega
  pending h' := by simp [hstatus'] at h'
  revoke h' := by simp [hstatus'] at h'

/-- A renewal changes the lease expiry and the open attempt's heartbeat. -/
theorem Ledger.renew (h : Ledger act attempts) (hlease : act.status.holdsLease = true)
    (hattempt : attempts act.attemptCount = some attempt)
    (hstatus : act'.status = act.status) (hcount : act'.attemptCount = act.attemptCount)
    (hmax : act'.maxAttempts = act.maxAttempts) (howner : act'.leaseOwner = act.leaseOwner)
    (htoken : act'.leaseToken = act.leaseToken) (hexpiry : act'.leaseExpiresAt.isSome)
    (hcategory : act'.lastErrorCategory = act.lastErrorCategory)
    (hfinished : attempt'.finishedAt = attempt.finishedAt)
    (houtcome : attempt'.outcome = attempt.outcome)
    (htoken' : attempt'.leaseToken = attempt.leaseToken) :
    Ledger act' fun n => if n = act.attemptCount then some attempt' else attempts n where
  leaseOwner := by rw [howner, hstatus]; exact h.leaseOwner
  leaseToken := by rw [htoken, hstatus]; exact h.leaseToken
  leaseExpiresAt := by rw [hexpiry, hstatus, hlease]
  numbered n := by
    have := h.numbered n
    split <;> simp_all
  started hl := by rw [hcount]; exact h.started (hstatus ▸ hl)
  isOpen n attempt'' hn := by
    rw [hstatus, hcount]
    split at hn
    · rename_i heq
      cases hn
      rw [hfinished, heq]
      exact h.isOpen _ _ hattempt
    · exact h.isOpen n attempt'' hn
  token attempt'' hn _ := by
    rw [if_pos hcount] at hn
    cases hn
    rw [htoken, htoken']
    exact h.token attempt hattempt hlease
  outcome n attempt'' hn := by
    split at hn
    · cases hn
      rw [hfinished, houtcome]
      exact h.outcome _ _ hattempt
    · exact h.outcome n attempt'' hn
  count_le := by rw [hcount, hmax]; exact h.count_le
  pending hs := by rw [hcount, hmax]; exact h.pending (hstatus ▸ hs)
  revoke hs := by rw [hcategory]; exact h.revoke (hstatus ▸ hs)

/-- A lease holder releases its lease and closes its attempt. -/
theorem Ledger.close (h : Ledger act attempts)
    (hattempt : attempts act.attemptCount = some attempt)
    (hstatus : act'.status.holdsLease = false) (hcount : act'.attemptCount = act.attemptCount)
    (hmax : act'.maxAttempts = act.maxAttempts) (howner : act'.leaseOwner = none)
    (htoken : act'.leaseToken = none) (hexpiry : act'.leaseExpiresAt = none)
    (hpending : act'.status = .pending → act.attemptCount < act.maxAttempts)
    (hfinished : attempt'.finishedAt.isSome) (houtcome : attempt'.outcome.isSome) :
    Ledger act' fun n => if n = act.attemptCount then some attempt' else attempts n where
  leaseOwner := by rw [howner, hstatus]; rfl
  leaseToken := by rw [htoken, hstatus]; rfl
  leaseExpiresAt := by rw [hexpiry, hstatus]; rfl
  numbered n := by
    have := h.numbered n
    split <;> simp_all
  started hl := by simp [hstatus] at hl
  isOpen n attempt'' hn := by
    simp only [hstatus, Bool.false_eq_true, false_and, iff_false]
    split at hn
    · cases hn
      exact Option.isSome_iff_ne_none.mp hfinished
    · rename_i hne
      exact fun hnone => hne ((h.isOpen n attempt'' hn).mp hnone).2
  token _ _ hl := by simp [hstatus] at hl
  outcome n attempt'' hn := by
    split at hn
    · cases hn
      rw [hfinished, houtcome]
    · exact h.outcome n attempt'' hn
  count_le := by rw [hcount, hmax]; exact h.count_le
  pending hs := by rw [hcount, hmax]; exact hpending hs
  revoke hs := by simp [hs, ActivityStatus.holdsLease] at hstatus

end Activities

section Results

variable {events : List WorkflowEventRow} {e : WorkflowEventRow}
  {activities activities' : ActivityId → Option ActivityRow}

/-- Only a step result carries an activity's result. -/
theorem activityResult_of_answers_none (h : e.answers = none) : e.activityResult = none := by
  unfold WorkflowEventRow.activityResult
  split
  · rename_i hm
    simp [WorkflowEventRow.answers, hm, WorkflowEvent.commandSequence?] at h
  · rfl

/-- Only the result of an activity answers an activity wait. -/
theorem activityResult_of_answersKind {kind : WaitKind} (h : e.answersKind = some kind)
    (hkind : kind ≠ .activity) : e.activityResult = none := by
  unfold WorkflowEventRow.activityResult
  split
  · rename_i hm
    simp [WorkflowEventRow.answersKind, hm, WorkflowEvent.waitKind] at h
    exact absurd h.symm hkind
  · rfl

theorem Results.nil : Results [] fun _ => none := ⟨by simp, by simp, by simp⟩

/-- An event that carries no activity's result. -/
theorem Results.add (h : Results events activities) (he : e.activityResult = none) :
    Results (events ++ [e]) activities where
  result e' he' := by
    rcases List.mem_append.mp he' with he' | he'
    · exact h.result e' he'
    · obtain rfl := List.mem_singleton.mp he'
      simp [he]
  answered a act ha hs := by
    rw [answeredCommands_append]
    exact List.mem_append_left _ (h.answered a act ha hs)
  unique := h.unique

/-- A change of activities that neither makes nor changes a succeeded one. -/
theorem Results.restate (h : Results events activities)
    (hkeep : ∀ a act, activities a = some act → act.status = .succeeded →
      activities' a = some act)
    (hback : ∀ a act, activities' a = some act → act.status = .succeeded →
      activities a = some act) : Results events activities' where
  result e he command res hres := by
    obtain ⟨a, act, ha, hs, hrest⟩ := h.result e he command res hres
    exact ⟨a, act, hkeep a act ha hs, hs, hrest⟩
  answered a act ha hs := h.answered a act (hback a act ha hs) hs
  unique a act a' act' ha ha' hs hs' :=
    h.unique a act a' act' (hback a act ha hs) (hback a' act' ha' hs') hs hs'

end Results

namespace Inv

variable {g : Aggregate} {r : WorkflowRow}

/-- While an open workflow waits for no activity, all its activities are
terminal. -/
theorem idle (h : Inv g r) (ht : r.status.isTerminal = false)
    (hw : ∀ a, r.awaited ≠ some (.activity a)) {a : ActivityId} {act : ActivityRow}
    (ha : g.activities a = some act) : act.status.isTerminal = true := by
  by_contra hact
  exact hw a ((h.coupled a act ha).live (by simpa using hact) ht)

/-- While an open workflow waits for no approval, none of its approvals is
pending. -/
theorem noPendingApproval (h : Inv g r) (hw : ∀ p, r.awaited ≠ some (.approval p))
    {p : ApprovalId} {approval : ApprovalRow} (hp : g.approvals p = some approval) :
    approval.status ≠ .pending :=
  fun hs => hw p ((h.approvals p approval hp).live hs).2

/-- A row that is ready or running waits for nothing. -/
theorem not_waiting (h : Inv g r) (hs : r.status = .ready ∨ r.status = .running) :
    r.awaited = none := by
  have := h.row.allowed
  rcases hs with hs | hs <;> simpa [hs, WorkflowStatus.allows] using this

/-- The activity an open row waits for. -/
theorem awaitedActivity (h : Inv g r) (ht : r.status.isTerminal = false) {a : ActivityId}
    (hw : r.awaited = some (.activity a)) :
    ∃ act, g.activities a = some act ∧ act.commandSequence = r.commandSequence ∧
      r.status.awaitedActivity act.status = true ∧
      ∀ a' act', g.activities a' = some act' → act'.commandSequence = r.commandSequence →
        act'.replacementNumber ≤ act.replacementNumber :=
  h.awaited ht _ hw

/-- The status of an activity that a row waits for. -/
theorem awaitedActivity_status (h : Inv g r) (ht : r.status.isTerminal = false) {a : ActivityId}
    {act : ActivityRow} (hw : r.awaited = some (.activity a)) (ha : g.activities a = some act) :
    r.status.awaitedActivity act.status = true := by
  obtain ⟨act', ha', -, hs, -⟩ := h.awaitedActivity ht hw
  rw [ha] at ha'
  cases ha'
  exact hs

end Inv

end DurableWorkflows
