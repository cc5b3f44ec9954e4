import DurableWorkflows.Engine.Reachable

/-!
# Delivery and workflow leases

What every run keeps of the delivery numbers of a workflow: at most one event
waits for a commit, exactly when the workflow waits for nothing, and every
successful commit consumes one. A commit whose claim lost its lease fails.

## Main definitions

- `DB.undelivered`: the events a row has still to consume
- `DeliveryDiscipline`: how many there are in each status
- `committed`: the claim and the event of a successful commit

## Main results

- `run_deliveryDiscipline`
- `run_leaseFencing`
-/

namespace DurableWorkflows

open Transaction Sys

variable {externals : Externals} {s s' : Sys} {db : DB} {g g' : Aggregate} {w : WorkflowId}
  {r : WorkflowRow} {l : Label} {action : Action}

-- ════════════════════════════════════════════════════════════════════════
-- Undelivered events
-- ════════════════════════════════════════════════════════════════════════

/-- The deliverable events of a workflow after the one its row consumed last. -/
def DB.undelivered (db : DB) (r : WorkflowRow) : List WorkflowEventRow :=
  (db.eventsOf r.id).filter fun e => e.deliverySequence.any (r.deliveredEventSequence < ·)

/-- How many events a row has to consume in each status, and which. -/
structure DeliveryDiscipline (db : DB) (r : WorkflowRow) : Prop where
  atMostOne : (db.undelivered r).length ≤ 1
  next : ∀ e ∈ db.undelivered r, e.deliverySequence = some (r.deliveredEventSequence + 1)
  active : r.status = .ready ∨ r.status = .running → (db.undelivered r).length = 1
  waiting : r.status = .waitingActivity ∨ r.status = .waitingChild ∨ r.status = .waitingApproval ∨
    r.status = .sleeping ∨ r.status = .blocked → db.undelivered r = []
  paused : r.status = .paused →
    ((db.undelivered r).length = 1 ↔ r.waitKind = none ∧ r.waitReferenceId = none)

/-- The undelivered events are counted by their delivery numbers. -/
theorem length_undelivered (events : List WorkflowEventRow) (d : ℕ) :
    (events.filter fun e => e.deliverySequence.any (d < ·)).length =
      ((deliveries events).filter (d < ·)).length := by
  induction events with
  | nil => rfl
  | cons e events ih =>
    cases he : e.deliverySequence with
    | none => simp [deliveries, he] at ih ⊢; exact ih
    | some n =>
      by_cases hn : d < n
      · simp [deliveries, he, hn] at ih ⊢
        exact ih
      · simp [deliveries, he, hn] at ih ⊢
        exact ih

/-- The numbers above `d` in an initial range. -/
theorem length_filter_range' (n d : ℕ) :
    ((List.range' 1 n).filter (d < ·)).length = n - d := by
  induction n with
  | zero => simp
  | succ n ih =>
    rw [List.range'_concat, List.filter_append, List.length_append, ih]
    by_cases h : d < n + 1
    · simp [Nat.add_comm 1 n, h]
      omega
    · simp [Nat.add_comm 1 n, h]
      omega

/-- A log with its control columns has one undelivered event, or none. -/
theorem Inv.length_undelivered (h : Inv (db.aggregate r.id) r) :
    (db.undelivered r).length =
      (deliveries (db.aggregate r.id).events).length - r.deliveredEventSequence := by
  rw [DB.undelivered, ← length_filter_range', ← h.delivery.log.numbered]
  exact DurableWorkflows.length_undelivered _ _

/-- A row without a wait has both wait columns cleared. -/
theorem RowInv.awaited_eq_none (h : RowInv r) :
    r.awaited = none ↔ r.waitKind = none ∧ r.waitReferenceId = none := by
  have hcolumns := h.columns
  unfold WorkflowRow.awaited
  cases hk : r.waitKind <;> cases href : r.waitReferenceId <;> simp [hk, href] at hcolumns ⊢

theorem Inv.deliveryDiscipline (h : Inv (db.aggregate r.id) r) : DeliveryDiscipline db r := by
  have hlen := h.length_undelivered
  have hle : r.deliveredEventSequence ≤ (deliveries (db.aggregate r.id).events).length :=
    h.delivery.delivered_le
  have hge : (deliveries (db.aggregate r.id).events).length ≤ r.deliveredEventSequence + 1 :=
    h.delivery.le_delivered
  have hpending : r.status.isTerminal = false →
      ((db.undelivered r).length = 1 ↔ r.awaited = none) := by
    intro ht
    have hp : _ ↔ r.awaited = none := h.delivery.pending ht
    rw [← hp]
    change (db.undelivered r).length = 1 ↔
      (deliveries (db.aggregate r.id).events).length = r.deliveredEventSequence + 1
    omega
  refine ⟨by omega, fun e he => ?_, fun hs => ?_, fun hs => ?_, fun hs => ?_⟩
  · obtain ⟨hmem, hany⟩ := List.mem_filter.mp he
    cases hd : e.deliverySequence with
    | none => simp [hd] at hany
    | some n =>
      have hn : n ∈ deliveries (db.aggregate r.id).events := List.mem_filterMap.mpr ⟨e, hmem, hd⟩
      have hbound := (h.delivery.log.mem_deliveries.mp hn).2
      simp only [hd, Option.any_some, decide_eq_true_eq] at hany
      rw [show n = r.deliveredEventSequence + 1 by omega]
  · refine (hpending ?_).mpr (h.not_waiting hs)
    rcases hs with hs | hs <;> rw [hs] <;> rfl
  · have hallowed := h.row.allowed
    have hne : r.awaited ≠ none := by
      rintro hnone
      rcases hs with hs | hs | hs | hs | hs <;> simp [hs, hnone, WorkflowStatus.allows] at hallowed
    have ht : r.status.isTerminal = false := by
      rcases hs with hs | hs | hs | hs | hs <;> rw [hs] <;> rfl
    have hcount := (hpending ht).not.mpr hne
    exact List.length_eq_zero_iff.mp (by omega)
  · rw [hpending (by rw [hs]; rfl)]
    exact h.row.awaited_eq_none

/-- In every reachable state every workflow obeys the delivery discipline, so no
claim is left without an event and no append meets a number that is taken. -/
theorem run_deliveryDiscipline (externals : Externals) (actions : List Action) :
    let s := run externals Sys.init actions
    (∀ w r, s.db.workflows.find w = some r → DeliveryDiscipline s.db r) ∧
    ∀ action e, exec externals s action = .error e →
      (∀ w, e ≠ .invalidState (.noDeliverableEvent w)) ∧
      e ≠ .database (.uniqueViolation .workflowEventDelivery) := by
  have hinv := run_inv externals actions
  refine ⟨fun w r hr => ?_, fun action e he => ?_⟩
  · obtain rfl : r.id = w := Table.key_of_find hr
    exact (hinv.sound.inv hr).deliveryDiscipline
  · have hbenign := exec_benign hinv he
    refine ⟨?_, ?_⟩
    · rintro w rfl
      cases hbenign
    · rintro rfl
      cases hbenign

-- ════════════════════════════════════════════════════════════════════════
-- Commits
-- ════════════════════════════════════════════════════════════════════════

section Inversion

variable {α β : Type} {x : Tx α} {claims : List β} {i : ℕ} {f : β → Except DurableError Sys}

/-- A transaction that committed. -/
theorem transact_ok {record : α → Sys → Sys} (h : s.transact x record = .ok s') :
    ∃ a db', x s.db = .ok (a, db') ∧ s' = record a { s with db := db' } := by
  unfold transact at h
  split at h
  · cases h
    exact ⟨_, _, ‹_›, rfl⟩
  · cases h

theorem transact'_ok (h : s.transact' x = .ok s') :
    ∃ a db', x s.db = .ok (a, db') ∧ s' = { s with db := db' } :=
  transact_ok h

/-- A transaction that aborted. -/
theorem transact'_error {e : DurableError} (h : s.transact' x = .error e) : x s.db = .error e := by
  unfold transact' transact at h
  split at h
  · cases h
  · cases h
    assumption

/-- An action of a claim names one of the memory. -/
theorem nth_bind_ok (h : nth claims i >>= f = .ok s') :
    ∃ claim, claims[i]? = some claim ∧ f claim = .ok s' := by
  unfold nth at h
  split at h
  · exact ⟨_, ‹_›, h⟩
  · cases h

end Inversion

variable {i : ℕ} {config : CoordinatorConfig} {transition : StoredTransition} {now : DbMillis}
  {message : String}

/-- A successful commit is a commit of its claim, and leaves the memory alone. -/
theorem exec_commit_ok (h : s.Inv) (hok : exec externals s (.commit i config transition now) = .ok s') :
    ∃ claim event, s.activations[i]? = some (claim, event) ∧
      event.deliverySequence = some (claim.row.deliveredEventSequence + 1) ∧
      Commits claim (Writes claim now s.db transition) s.db s'.db := by
  rw [exec] at hok
  obtain ⟨⟨claim, event⟩, hi, hok⟩ := nth_bind_ok hok
  obtain ⟨_, db', hcommit, rfl⟩ := transact'_ok hok
  obtain ⟨hclaim, -, hdelivery⟩ := h.activations _ (List.mem_of_getElem? hi)
  have hinv := (h.claims _ hclaim).2
  exact ⟨claim, event, hi, hdelivery,
    (wp_ok (wp_commitOnConnection h.sound h.attached hinv hdelivery) hcommit).1⟩

/-- A successful activation failure was recorded by the holder of the lease. -/
theorem exec_failActivation_ok (h : s.Inv)
    (hok : exec externals s (.failActivation i config message now) = .ok s') :
    ∃ claim, s.workflowClaims[i]? = some claim ∧ FailsActivation config claim s.db s'.db := by
  rw [exec] at hok
  obtain ⟨claim, hi, hok⟩ := nth_bind_ok hok
  obtain ⟨_, db', hfail, rfl⟩ := transact'_ok hok
  have hclaim := (h.claims _ (List.mem_of_getElem? hi)).2
  exact ⟨claim, hi, (wp_ok (wp_recordActivationFailure h.sound h.attached hclaim) hfail).1⟩

/-- The claim and the event of a successful commit. -/
def committed (externals : Externals) (s : Sys) (action : Action) :
    Option (ClaimedRow × WorkflowEventRow) :=
  match action, exec externals s action with
  | .commit i .., .ok _ => s.activations[i]?
  | _, _ => none

/-- The number of the last event a workflow consumed. -/
def Aggregate.delivered (g : Aggregate) : ℕ := g.row.elim 0 (·.deliveredEventSequence)

/-- A commit consumes one event, and no other step does. -/
theorem Step.delivered (h : Step g l g') :
    g'.delivered = g.delivered + if l.isCommit then 1 else 0 := by
  cases h with
  | inserted hrow => exact hrow.deliveredEventSequence
  | history | discarded | activityClaimed | renewed | released | settled => rfl
  | cancelled hr _ _ clear => cases clear <;> simp [Aggregate.delivered, hr, Label.isCommit] <;> rfl
  | claimed hr | recovered hr | continued hr | completed hr | slept hr | waitedApproval hr
  | waitedActivity hr | waitedChild hr | activationFailed hr | answered hr | answeredApproval hr
  | reattached hr | paused hr | revoked hr | resumed hr | superseded hr | retried hr | succeeded hr
  | deadLettered hr | quarantined hr => simp [Aggregate.delivered, hr, Label.isCommit] <;> rfl

theorem Steps.delivered {P : Label → Prop} (h : Steps P g g') (hP : ∀ l, P l → l.isCommit = false) :
    g'.delivered = g.delivered := by
  induction h with
  | refl => rfl
  | tail _ hstep ih =>
    obtain ⟨l, hl, hstep⟩ := hstep
    rw [hstep.delivered, hP l hl, ih]
    rfl

/-- Only a commit has committing steps. -/
theorem Action.eq_commit (h : action.permits l = true) (hl : l.isCommit = true) :
    ∃ i config transition now, action = .commit i config transition now := by
  cases l <;> cases hl <;> cases action <;> first | exact ⟨_, _, _, _, rfl⟩ | cases h

/-- What a commit adds to the event counter of each workflow. -/
theorem Commits.delivered {claim : ClaimedRow} {db' : DB}
    {W : Label → WorkflowRow → (WorkflowId → Option Lineage) → Prop} (h : Commits claim W db db')
    (w : WorkflowId) :
    (db'.aggregate w).delivered =
      (db.aggregate w).delivered + if w = claim.row.id then 1 else 0 := by
  have haccompanies : ∀ l : Label, l.accompanies = true → l.isCommit = false := by
    intro l hl
    cases l with
    | continued | completed | waited => cases hl
    | _ => rfl
  by_cases hw : w = claim.row.id
  · subst hw
    obtain ⟨l, g, r, hl, -, -, hstep, hsteps⟩ := h.commit
    rw [hsteps.delivered haccompanies, hstep.delivered, if_pos hl, if_pos rfl]
  · rw [(h.other w hw).delivered haccompanies, if_neg hw, Nat.add_zero]

theorem committed_of_error {e : DurableError} (h : exec externals s action = .error e) :
    committed externals s action = none := by
  unfold committed
  split
  · rename_i heq
    cases h.symm.trans heq
  · rfl

theorem committed_commit (h : exec externals s (.commit i config transition now) = .ok s') :
    committed externals s (.commit i config transition now) = s.activations[i]? := by
  unfold committed
  rw [h]

theorem committed_of_ne
    (h : ¬∃ i config transition now, action = .commit i config transition now) :
    committed externals s action = none := by
  unfold committed
  split
  · exact absurd ⟨_, _, _, _, rfl⟩ h
  · rfl

/-- A successful commit consumes the next event of its workflow; any other
action leaves the event counters alone. -/
theorem step_delivered (externals : Externals) (h : s.Inv) (action : Action) :
    (∃ claim event, committed externals s action = some (claim, event) ∧
      event.deliverySequence = some ((s.db.aggregate claim.row.id).delivered + 1) ∧
      ∀ w, ((step externals s action).db.aggregate w).delivered =
        (s.db.aggregate w).delivered + if w = claim.row.id then 1 else 0) ∨
    committed externals s action = none ∧ ∀ w,
      ((step externals s action).db.aggregate w).delivered = (s.db.aggregate w).delivered := by
  cases hexec : exec externals s action with
  | error e =>
    refine .inr ⟨committed_of_error hexec, fun w => ?_⟩
    rw [step, Machine.step_of_error hexec]
  | ok s' =>
    rw [step, Machine.step_of_ok hexec]
    by_cases hcommit : ∃ i config transition now, action = .commit i config transition now
    · obtain ⟨i, config, transition, now, rfl⟩ := hcommit
      obtain ⟨claim, event, hi, hdelivery, hc⟩ := exec_commit_ok h hexec
      obtain ⟨r, hr⟩ := hc.held
      refine .inl ⟨claim, event, (committed_commit hexec).trans hi, ?_, hc.delivered⟩
      rw [hdelivery, hr.delivered]
      exact congrArg (fun o : Option WorkflowRow => some (o.elim 0 (·.deliveredEventSequence) + 1))
        hr.stored.symm
    · refine .inr ⟨committed_of_ne hcommit, fun w => ?_⟩
      refine ((exec_leads h hexec).evolves.steps w).delivered fun l hl => ?_
      by_contra hl'
      exact hcommit (Action.eq_commit hl.1 (by simpa using hl'))

/-- What a successful commit consumes: the workflow and the delivery number of
its event. -/
def consumed (externals : Externals) (s : Sys) (action : Action) :
    List (WorkflowId × Option ℕ) :=
  ((committed externals s action).map fun x => (x.1.row.id, x.2.deliverySequence)).toList

/-- The events that the successful commits of a run consumed, in their order. -/
def consumptions (externals : Externals) (actions : List Action) : List (WorkflowId × Option ℕ) :=
  Machine.collect (exec externals) (consumed externals) Sys.init actions

/-- The consumptions of a workflow. -/
def consumptionsOf (w : WorkflowId) (history : List (WorkflowId × Option ℕ)) : List (Option ℕ) :=
  (history.filter (·.1 == w)).map (·.2)

/-- The successful commits of a workflow consume its events one after the
other. -/
theorem run_consumptions (externals : Externals) (actions : List Action) (w : WorkflowId) :
    consumptionsOf w (consumptions externals actions) =
      (List.range' 1 ((run externals Sys.init actions).db.aggregate w).delivered).map some := by
  refine run_history (P := fun s history => consumptionsOf w history =
    (List.range' 1 (s.db.aggregate w).delivered).map some) (fun s history action h hP => ?_) .init
    rfl actions
  obtain ⟨claim, event, hc, hnext, hd⟩ | ⟨hc, hd⟩ := step_delivered externals h action
  · have hcons : consumed externals s action = [(claim.row.id, event.deliverySequence)] := by
      rw [consumed, hc]
      rfl
    rw [hcons, consumptionsOf, List.filter_append, List.map_append, hd w]
    by_cases hw : w = claim.row.id
    · subst hw
      rw [if_pos rfl, List.range'_concat, List.map_append, ← hP, hnext]
      simp [consumptionsOf, Nat.add_comm]
    · simp [hw, Ne.symm hw, ← hP, consumptionsOf]
  · have hcons : consumed externals s action = [] := by
      rw [consumed, hc]
      rfl
    rw [hcons, List.append_nil, hP, hd w]

theorem count_consumptionsOf {w : WorkflowId} {d : Option ℕ}
    {history : List (WorkflowId × Option ℕ)} :
    (consumptionsOf w history).count d = history.count (w, d) := by
  induction history with
  | nil => rfl
  | cons x history ih =>
    obtain ⟨w', d'⟩ := x
    by_cases hw : w' = w
    · subst hw
      simp_all [consumptionsOf, List.count_cons]
    · simp_all [consumptionsOf]

/-- Workflow leases in every reachable state: a row is leased exactly while it
runs; a commit or an activation failure under another token than the row's fails
and changes nothing; and the successful commits of a workflow consume its events
one by one, each of them once. -/
theorem run_leaseFencing (externals : Externals) (actions : List Action) :
    let s := run externals Sys.init actions
    (∀ w r, s.db.workflows.find w = some r →
      (r.status = .running ↔ r.leaseToken.isSome) ∧
      (r.status = .running ↔ r.leaseExpiresAt.isSome)) ∧
    (∀ i claim event r config transition now, s.activations[i]? = some (claim, event) →
      s.db.workflows.find claim.row.id = some r → r.leaseToken ≠ some claim.leaseToken →
      (∃ e, exec externals s (.commit i config transition now) = .error e) ∧
      step externals s (.commit i config transition now) = s) ∧
    (∀ i claim r config message now, s.workflowClaims[i]? = some claim →
      s.db.workflows.find claim.row.id = some r → r.leaseToken ≠ some claim.leaseToken →
      (∃ e, exec externals s (.failActivation i config message now) = .error e) ∧
      step externals s (.failActivation i config message now) = s) ∧
    (∀ w d, (consumptions externals actions).count (w, d) ≤ 1) ∧
    ∀ w r, s.db.workflows.find w = some r →
      r.deliveredEventSequence = (consumptionsOf w (consumptions externals actions)).length := by
  have hinv := run_inv externals actions
  refine ⟨fun w r hr => ?_, fun i claim event r config transition now hi hr hstale => ?_,
    fun i claim r config message now hi hr hstale => ?_, fun w d => ?_, fun w r hr => ?_⟩
  · have hrow := (hinv.sound.inv hr).row
    simp [hrow.leaseToken, hrow.leaseExpiresAt]
  · cases hexec : exec externals (run externals Sys.init actions)
        (.commit i config transition now) with
    | error e => exact ⟨⟨e, rfl⟩, Machine.step_of_error hexec⟩
    | ok s' =>
      obtain ⟨claim', event', hi', -, hc⟩ := exec_commit_ok hinv hexec
      obtain ⟨rfl, rfl⟩ := Prod.mk.inj (Option.some_inj.mp (hi.symm.trans hi'))
      obtain ⟨r', hr'⟩ := hc.held
      obtain rfl := Option.some_inj.mp (hr.symm.trans hr'.stored)
      exact absurd hr'.token hstale
  · cases hexec : exec externals (run externals Sys.init actions)
        (.failActivation i config message now) with
    | error e => exact ⟨⟨e, rfl⟩, Machine.step_of_error hexec⟩
    | ok s' =>
      obtain ⟨claim', hi', hfails⟩ := exec_failActivation_ok hinv hexec
      obtain ⟨r', hr'⟩ := hfails.held
      obtain rfl := Option.some_inj.mp (hi.symm.trans hi')
      obtain rfl := Option.some_inj.mp (hr.symm.trans hr'.stored)
      exact absurd hr'.token hstale
  · rw [← count_consumptionsOf, run_consumptions]
    refine List.nodup_iff_count_le_one.mp ?_ d
    exact (List.nodup_range').map (Option.some_injective ℕ)
  · rw [run_consumptions, List.length_map, List.length_range']
    exact congrArg (fun o : Option WorkflowRow => o.elim 0 (·.deliveredEventSequence)) hr.symm

end DurableWorkflows
