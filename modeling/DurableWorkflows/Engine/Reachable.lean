import DurableWorkflows.Engine.Operations
import DurableWorkflows.Engine.System

/-!
# Reachable states

The invariant of a whole state: the database is sound, no wait is left on a
child that ended, and everything a process remembers about a claim is still
true. Every action keeps it, and a failed action fails for a benign reason.

## Main definitions

- `Sys.Inv`: the invariant of a state
- `Action.permits`: the steps each action consists of

## Main results

- `exec_spec`: an action from a state that satisfies the invariant
- `run_inv`: the invariant holds in every reachable state
-/

namespace DurableWorkflows

open Transaction Sys

variable {externals : Externals} {s s' : Sys} {db db' : DB} {action : Action}
  {P : WorkflowId → Label → Prop}

-- ════════════════════════════════════════════════════════════════════════
-- The invariant
-- ════════════════════════════════════════════════════════════════════════

/-- The token a step draws. -/
def Label.draws : Label → Option LeaseToken
  | .claimed t | .activityClaimed _ t => some t
  | _ => none

/-- The step draws no token before `first`. -/
def Label.drawsFrom (first : LeaseToken) (l : Label) : Bool := l.draws.all (first ≤ ·)

theorem Label.drawsFrom_mono {l : Label} {first first' : LeaseToken} (hle : first ≤ first')
    (h : l.drawsFrom first' = true) : l.drawsFrom first = true := by
  cases l with
  | claimed | activityClaimed => exact decide_eq_true (hle.trans (of_decide_eq_true h))
  | _ => rfl

theorem Label.ne_claimed {l : Label} {first t : LeaseToken} (h : l.drawsFrom first = true)
    (ht : t < first) : l ≠ .claimed t := by
  rintro rfl
  exact absurd (of_decide_eq_true h) (Nat.not_le_of_lt ht)

theorem Label.ne_activityClaimed {l : Label} {first t : LeaseToken} {a : ActivityId}
    (h : l.drawsFrom first = true) (ht : t < first) : l ≠ .activityClaimed a t := by
  rintro rfl
  exact absurd (of_decide_eq_true h) (Nat.not_le_of_lt ht)

/-- The claim found its attempt revoked. -/
def ActivityClaim.Revoked (claim : ActivityClaim) (db : DB) : Prop :=
  ∀ act, db.activities.find claim.row.id = some act →
    act.leaseToken = some claim.leaseToken → act.status ≠ .running

/-- What holds of every reachable state. -/
structure Sys.Inv (s : Sys) : Prop where
  sound : s.db.Sound
  attached : s.db.Attached ∅
  claims : ∀ claim ∈ s.workflowClaims, claim.leaseToken < s.nextToken ∧ ClaimInv s.db claim
  activations : ∀ x ∈ s.activations, x.1 ∈ s.workflowClaims ∧
    x.2 ∈ s.db.eventsOf x.1.row.id ∧
    x.2.deliverySequence = some (x.1.row.deliveredEventSequence + 1)
  activityClaims : ∀ claim ∈ s.activityClaims,
    claim.leaseToken < s.nextToken ∧ ActivityClaimInv s.db claim
  revoked : ∀ claim ∈ s.revokedClaims, claim ∈ s.activityClaims ∧ claim.Revoked s.db

theorem Sys.Inv.init : Sys.init.Inv where
  sound := .empty
  attached := .empty
  claims _ h := by cases h
  activations _ h := by cases h
  activityClaims _ h := by cases h
  revoked _ h := by cases h

/-- A claim outlives every step that does not draw its token again. -/
theorem ClaimInv.evolves {claim : ClaimedRow} (h : ClaimInv db claim) (hs : db.Sound)
    (hev : Evolves P db db') (hP : ∀ w l, P w l → l ≠ .claimed claim.leaseToken) :
    ClaimInv db' claim where
  lineage := hev.lineage_of_some h.lineage
  same r hr ht := h.same r (hev.row_of_token hs (hP _) hr ht) ht
  event := by
    refine h.event.trans ?_
    obtain ⟨events, hevents⟩ := hev.events_extend claim.row.id
    rw [← hevents, deliveries, deliveries, List.filterMap_append, List.length_append]
    exact Nat.le_add_right _ _

/-- A revoked attempt does not run again under its token. -/
theorem ActivityClaim.Revoked.evolves {claim : ActivityClaim} (h : claim.Revoked db)
    (hstored : ∃ act, db.activities.find claim.row.id = some act) (hev : Evolves P db db')
    (hP : ∀ w l, P w l → l ≠ .activityClaimed claim.row.id claim.leaseToken) :
    claim.Revoked db' := by
  intro act' hact' ht hrun
  obtain ⟨act, hact⟩ := hstored
  obtain ⟨act'', hact'', -, hf⟩ := hev.follows hP hact
  obtain rfl := Option.some_inj.mp (hact'.symm.trans hact'')
  exact h act hact (hf.token ht).1 (hf.running ht hrun).1

/-- The memory of a state outlives every evolution that draws new tokens
only. -/
theorem Sys.Inv.evolves (h : s.Inv) (hev : Evolves P s.db db')
    (hP : ∀ w l, P w l → l.drawsFrom s.nextToken = true) (hx : db'.Attached ∅) :
    { s with db := db' }.Inv where
  sound := hev.sound h.sound
  attached := hx
  claims claim hmem := by
    obtain ⟨ht, hclaim⟩ := h.claims claim hmem
    exact ⟨ht, hclaim.evolves h.sound hev fun w l hl => Label.ne_claimed (hP w l hl) ht⟩
  activations x hmem := by
    obtain ⟨hclaim, hevent, hdelivery⟩ := h.activations x hmem
    exact ⟨hclaim, (hev.events_extend x.1.row.id).subset hevent, hdelivery⟩
  activityClaims claim hmem := by
    obtain ⟨ht, hclaim⟩ := h.activityClaims claim hmem
    exact ⟨ht, hclaim.evolves h.sound hev fun w l hl => Label.ne_activityClaimed (hP w l hl) ht⟩
  revoked claim hmem := by
    obtain ⟨hclaim, hrevoked⟩ := h.revoked claim hmem
    obtain ⟨ht, hinv⟩ := h.activityClaims claim hclaim
    obtain ⟨act, hact, -⟩ := hinv.stored
    exact ⟨hclaim, hrevoked.evolves ⟨act, hact⟩ hev fun w l hl =>
      Label.ne_activityClaimed (hP w l hl) ht⟩

/-- New workflow claims. -/
theorem Sys.Inv.addClaims (h : s.Inv) {new : List ClaimedRow} {next : LeaseToken}
    (hnext : s.nextToken ≤ next)
    (hnew : ∀ claim ∈ new, claim.leaseToken < next ∧ ClaimInv s.db claim) :
    { s with workflowClaims := s.workflowClaims ++ new, nextToken := next }.Inv where
  sound := h.sound
  attached := h.attached
  claims := by
    refine List.forall_mem_append.mpr ⟨fun claim hmem => ?_, hnew⟩
    obtain ⟨ht, hclaim⟩ := h.claims claim hmem
    exact ⟨ht.trans_le hnext, hclaim⟩
  activations x hmem := by
    obtain ⟨hclaim, hrest⟩ := h.activations x hmem
    exact ⟨List.mem_append_left _ hclaim, hrest⟩
  activityClaims claim hmem := by
    obtain ⟨ht, hclaim⟩ := h.activityClaims claim hmem
    exact ⟨ht.trans_le hnext, hclaim⟩
  revoked := h.revoked

/-- New activity claims. -/
theorem Sys.Inv.addActivityClaims (h : s.Inv) {new : List ActivityClaim} {next : LeaseToken}
    (hnext : s.nextToken ≤ next)
    (hnew : ∀ claim ∈ new, claim.leaseToken < next ∧ ActivityClaimInv s.db claim) :
    { s with activityClaims := s.activityClaims ++ new, nextToken := next }.Inv where
  sound := h.sound
  attached := h.attached
  claims claim hmem := by
    obtain ⟨ht, hclaim⟩ := h.claims claim hmem
    exact ⟨ht.trans_le hnext, hclaim⟩
  activations := h.activations
  activityClaims := by
    refine List.forall_mem_append.mpr ⟨fun claim hmem => ?_, hnew⟩
    obtain ⟨ht, hclaim⟩ := h.activityClaims claim hmem
    exact ⟨ht.trans_le hnext, hclaim⟩
  revoked claim hmem := by
    obtain ⟨hclaim, hrevoked⟩ := h.revoked claim hmem
    exact ⟨List.mem_append_left _ hclaim, hrevoked⟩

-- ════════════════════════════════════════════════════════════════════════
-- Actions
-- ════════════════════════════════════════════════════════════════════════

/-- The steps an action consists of. -/
def Action.permits : Action → Label → Bool
  | start .., l | startPrepared .., l => l == .inserted
  | recoverableStart .., l => l.recovers
  | restart .., l => l == .inserted || l.cancels
  | cancel .., l | cancelWorkflow .., l => l.cancels
  | claimWorkflow .., l => l == .recovered || l == .history || l.draws.any (fun t => l == .claimed t)
  | commit .., l => l.accompanies || l.isCommit
  | failActivation .., l => l == .activationFailed || l.trails
  | claimActivity .., l | claimActivities .., l => l.claimsFrom 0
  | heartbeat .., .renewed _ => true
  | finish .., .succeeded _ | finish .., .released _ | finish .., .deadLettered _
  | finish .., .settled _ | finish .., .history => true
  | fireTimer .., l => l.answersKind .timer
  | expireApproval .., l | resolveApproval .., l => l.answersKind .approval
  | pause .., .paused _ | pause .., .history => true
  | resume .., .resumed | resume .., .history => true
  | retry .., .retried .. | retry .., .history => true
  | recordScheduleRunNow .., .history => true
  | activate _, _ | seedLocks .., _ | reportProgress .., _ | writeScheduleRuns _, _ => false
  | heartbeat .., _ | finish .., _ | pause .., _ | resume .., _ | retry .., _
  | recordScheduleRunNow .., _ => false

/-- What an action leads to: a state that satisfies `P`, or a benign error. -/
inductive Outcome (P : Sys → Prop) : Except DurableError Sys → Prop
  | ok {s' : Sys} (h : P s') : Outcome P (.ok s')
  | error {e : DurableError} (h : Benign e) : Outcome P (.error e)

/-- The state after an action: its steps, and the invariant. -/
structure Action.Leads (action : Action) (s s' : Sys) : Prop where
  evolves : Evolves (fun _ l => action.permits l ∧ l.drawsFrom s.nextToken) s.db s'.db
  tokens : s.nextToken ≤ s'.nextToken
  inv : s'.Inv

section Transact

variable {α : Type} {x : Tx α} {Q : α → DB → Prop} {R : Sys → Prop}

theorem outcome_transact {record : α → Sys → Sys} (hx : wp x Q Benign s.db)
    (h : ∀ a db', Q a db' → R (record a { s with db := db' })) :
    Outcome R (s.transact x record) := by
  unfold transact
  split
  · exact .ok (h _ _ (wp_ok hx ‹_›))
  · exact .error (wp_error hx ‹_›)

/-- A transaction that keeps every wait attached, and whose result nobody
keeps. -/
theorem outcome_attached (h : s.Inv)
    (hx : wp x (fun _ db' => Evolves P s.db db' ∧ db'.Attached ∅) Benign s.db)
    (hP : ∀ w l, P w l → action.permits l = true ∧ l.draws = none) :
    Outcome (action.Leads s) (s.transact' x) := by
  have hP' : ∀ w l, P w l → action.permits l = true ∧ l.drawsFrom s.nextToken = true := by
    intro w l hl
    obtain ⟨hpermits, hdraws⟩ := hP w l hl
    exact ⟨hpermits, by simp [Label.drawsFrom, hdraws]⟩
  refine outcome_transact hx fun _ db' ⟨hev, hattached⟩ => ⟨hev.mono hP', le_rfl, ?_⟩
  exact h.evolves hev (fun w l hl => (hP' w l hl).2) hattached

/-- A transaction that neither ends nor attaches a workflow. -/
theorem outcome_neutral (h : s.Inv) (hx : wp x (fun _ db' => Evolves P s.db db') Benign s.db)
    (hP : ∀ w l, P w l →
      (action.permits l = true ∧ l.draws = none) ∧ l.ends = false ∧ l.attaches = false) :
    Outcome (action.Leads s) (s.transact' x) :=
  outcome_attached h
    (wp_imp hx fun _ _ hev => ⟨hev, hev.attached h.sound (fun w l hl => (hP w l hl).2) h.attached⟩)
    fun w l hl => (hP w l hl).1

/-- A claim of the memory, if there is one. -/
theorem outcome_nth {β : Type} {claims : List β} {i : ℕ} {f : β → Except DurableError Sys}
    (h : ∀ claim ∈ claims, Outcome R (f claim)) : Outcome R (nth claims i >>= f) := by
  unfold nth
  split
  · exact h _ (List.mem_of_getElem? ‹_›)
  · exact .error rfl

end Transact

section Exec

variable {i : ℕ} {now : DbMillis} {started : Instant}

theorem Label.draws_of_cancels {l : Label} (h : l.cancels = true) : l.draws = none := by
  cases l with
  | claimed | activityClaimed => cases h
  | _ => rfl

theorem Label.draws_of_recovers {l : Label} (h : l.recovers = true) : l.draws = none := by
  cases l with
  | claimed | activityClaimed => cases h
  | _ => rfl

/-- A claim of a workflow. -/
theorem exec_claimWorkflow {config : CoordinatorConfig} {registry : WorkflowRegistry}
    {locked : WorkflowId → Bool} {workerId : String} (h : s.Inv) :
    Outcome ((Action.claimWorkflow config registry locked workerId now).Leads s)
      (exec externals s (.claimWorkflow config registry locked workerId now)) := by
  rw [exec]
  refine outcome_transact (wp_claimRow h.sound) fun o db' ⟨hev, hclaim⟩ => ?_
  have hP : ∀ w (l : Label), l.ClaimsDue s.db s.nextToken now w → (Action.claimWorkflow config
      registry locked workerId now).permits l = true ∧ l.drawsFrom s.nextToken = true := by
    rintro w l ⟨hl, -, -⟩
    cases l with
    | recovered | history => exact ⟨rfl, rfl⟩
    | claimed t =>
      obtain rfl := beq_iff_eq.mp hl
      simp [Action.permits, Label.draws, Label.drawsFrom]
    | _ => cases hl
  have hx : db'.Attached ∅ := by
    refine hev.attached h.sound (fun _ l ⟨hl, _, _⟩ => ?_) h.attached
    cases l with
    | recovered | history | claimed => exact ⟨rfl, rfl⟩
    | _ => cases hl
  refine ⟨hev.mono hP, Nat.le_succ _, ?_⟩
  refine (h.evolves hev (fun w l hl => (hP w l hl).2) hx).addClaims (Nat.le_succ _) fun claim hmem => ?_
  obtain ⟨ht, hinv, -⟩ := hclaim claim (Option.mem_toList.mp hmem)
  exact ⟨ht ▸ Nat.lt_succ_self _, hinv⟩

/-- The activity claims drawn by an action. -/
theorem Sys.Inv.claimActivities {new : List ActivityClaim} {next : LeaseToken} (h : s.Inv)
    (hev : Evolves (fun _ l => l.claimsFrom s.nextToken) s.db db') (hnext : s.nextToken ≤ next)
    (hnew : ∀ claim ∈ new, claim.leaseToken < next ∧ ActivityClaimInv db' claim) :
    Evolves (fun _ l => l.claimsFrom 0 ∧ l.drawsFrom s.nextToken) s.db db' ∧
    { s with
      db := db', activityClaims := s.activityClaims ++ new, nextToken := next }.Inv := by
  have hP : ∀ l : Label, l.claimsFrom s.nextToken = true →
      l.claimsFrom 0 = true ∧ l.drawsFrom s.nextToken = true := by
    intro l hl
    cases l with
    | history | released | deadLettered | settled | quarantined => exact ⟨rfl, rfl⟩
    | activityClaimed a t => exact ⟨decide_eq_true (Nat.zero_le t), hl⟩
    | _ => cases hl
  have hx : db'.Attached ∅ := by
    refine hev.attached h.sound (fun _ l hl => ?_) h.attached
    cases l with
    | history | released | deadLettered | settled | quarantined | activityClaimed =>
      exact ⟨rfl, rfl⟩
    | _ => cases hl
  exact ⟨hev.mono fun _ l hl => hP l hl,
    (h.evolves hev (fun _ l hl => (hP l hl).2) hx).addActivityClaims hnext hnew⟩

theorem exec_claimActivity {registry : ActivityRegistry} {topics : List TopicDefinition}
    {locks : HeldLocks} {topic workerId : String} (h : s.Inv) :
    Outcome ((Action.claimActivity registry topics locks topic workerId now started).Leads s)
      (exec externals s (.claimActivity registry topics locks topic workerId now started)) := by
  rw [exec]
  refine outcome_transact (wp_claimOne h.sound) fun o db' ⟨hev, hclaim⟩ => ?_
  have hnew : ∀ claim ∈ o.toList,
      claim.leaseToken < s.nextToken + 1 ∧ ActivityClaimInv db' claim := by
    intro claim hmem
    obtain ⟨ht, hinv⟩ := hclaim claim (Option.mem_toList.mp hmem)
    exact ⟨ht ▸ Nat.lt_succ_self _, hinv⟩
  obtain ⟨hev', hinv⟩ := h.claimActivities hev (Nat.le_succ _) hnew
  exact ⟨hev', Nat.le_succ _, hinv⟩

theorem exec_claimActivities {registry : ActivityRegistry} {topics : List TopicDefinition}
    {locks : HeldLocks} {limit : ℕ} {capacity : List (String × ℕ)} {workerId : String}
    (h : s.Inv) :
    Outcome ((Action.claimActivities registry topics locks limit capacity workerId now started).Leads s)
      (exec externals s (.claimActivities registry topics locks limit capacity workerId now started)) := by
  rw [exec]
  refine outcome_transact (wp_claimBatch h.sound) fun claims db' hbatch => ?_
  obtain ⟨hev, hinv⟩ := h.claimActivities hbatch.evolves (Nat.le_add_right _ _) hbatch.claims
  exact ⟨hev, Nat.le_add_right _ _, hinv⟩

theorem exec_activate (h : s.Inv) :
    Outcome ((Action.activate i).Leads s) (exec externals s (.activate i)) := by
  rw [exec]
  refine outcome_nth fun claim hmem => ?_
  refine outcome_transact (wp_activate h.sound (h.claims claim hmem).2) fun o db' hread => ?_
  obtain ⟨rfl, hevent, hdelivery⟩ := hread
  refine ⟨.refl _, le_rfl, h.sound, h.attached, h.claims, ?_, h.activityClaims, h.revoked⟩
  refine List.forall_mem_append.mpr ⟨h.activations, fun x hx => ?_⟩
  obtain rfl := List.mem_singleton.mp hx
  exact ⟨hmem, hevent, hdelivery⟩

theorem exec_commit {config : CoordinatorConfig} {transition : StoredTransition} (h : s.Inv) :
    Outcome ((Action.commit i config transition now).Leads s)
      (exec externals s (.commit i config transition now)) := by
  rw [exec]
  refine outcome_nth fun x hmem => ?_
  obtain ⟨hclaim, -, hdelivery⟩ := h.activations x hmem
  refine outcome_attached h (wp_imp (wp_commitOnConnection h.sound h.attached
    (h.claims _ hclaim).2 hdelivery) fun _ _ hc => ⟨hc.1.evolves, hc.2⟩) fun w l hl => ?_
  rcases hl with hl | ⟨-, hl⟩
  · refine ⟨by simp [Action.permits, hl], ?_⟩
    cases l with
    | claimed | activityClaimed => cases hl
    | _ => rfl
  · refine ⟨by simp [Action.permits, hl], ?_⟩
    cases l with
    | claimed | activityClaimed => cases hl
    | _ => rfl

theorem exec_failActivation {config : CoordinatorConfig} {message : String} (h : s.Inv) :
    Outcome ((Action.failActivation i config message now).Leads s)
      (exec externals s (.failActivation i config message now)) := by
  rw [exec]
  refine outcome_nth fun claim hmem => ?_
  refine outcome_attached h (wp_imp (wp_recordActivationFailure h.sound h.attached
    (h.claims claim hmem).2) fun _ _ hc => ⟨hc.1.evolves, hc.2⟩) fun w l hl => ?_
  cases l with
  | activationFailed | history => exact ⟨rfl, rfl⟩
  | answered wait =>
    cases wait with
    | child => exact ⟨rfl, rfl⟩
    | _ => cases hl
  | _ => cases hl

theorem exec_heartbeat (h : s.Inv) :
    Outcome ((Action.heartbeat i now).Leads s) (exec externals s (.heartbeat i now)) := by
  rw [exec]
  refine outcome_nth fun claim hmem => ?_
  obtain ⟨ht, hclaim⟩ := h.activityClaims claim hmem
  refine outcome_transact (wp_heartbeatOnce h.sound hclaim) fun renewed db' hrenewed => ?_
  obtain ⟨⟨act, attempt, r, hholds, hrevoked⟩, hev⟩ := hrenewed
  have hP : ∀ l, l = Label.renewed claim.row.id →
      (Action.heartbeat i now).permits l = true ∧ l.drawsFrom s.nextToken = true := by
    rintro _ rfl
    exact ⟨rfl, rfl⟩
  have hx : db'.Attached ∅ := by
    refine hev.attached h.sound ?_ h.attached
    rintro _ _ rfl
    exact ⟨rfl, rfl⟩
  have hinv := h.evolves hev (fun _ l hl => (hP l hl).2) hx
  refine ⟨?_, ?_, ?_⟩
  · split <;> exact hev.mono fun _ l hl => hP l hl
  · split <;> exact le_rfl
  · split
    · rename_i hr
      refine ⟨hinv.sound, hinv.attached, hinv.claims, hinv.activations, hinv.activityClaims, ?_⟩
      refine List.forall_mem_append.mpr ⟨hinv.revoked, fun claim' hmem' => ?_⟩
      obtain rfl := List.mem_singleton.mp hmem'
      refine ⟨hmem, ActivityClaim.Revoked.evolves (fun act' hact' _ => ?_) ⟨act, hholds.leased.find⟩
        hev fun _ l hl => Label.ne_activityClaimed (hP l hl).2 ht⟩
      obtain rfl := Option.some_inj.mp (hholds.leased.find.symm.trans hact')
      simp [hrevoked.mp hr]
    · exact hinv

/-- The claims a finish may use are drawn claims; those that finish as revoked
were revoked. -/
theorem Sys.Inv.finishable {outcome : ExecutionOutcome} {claim : ActivityClaim} (h : s.Inv)
    (hmem : claim ∈ s.finishable outcome) :
    claim ∈ s.activityClaims ∧ (outcome = .revoked → claim.Revoked s.db) := by
  cases outcome with
  | revoked =>
    obtain ⟨hclaim, hrevoked⟩ := h.revoked claim hmem
    exact ⟨hclaim, fun _ => hrevoked⟩
  | _ => exact ⟨hmem, nofun⟩

theorem exec_finish {outcome : ExecutionOutcome} (h : s.Inv) :
    Outcome ((Action.finish i outcome now).Leads s) (exec externals s (.finish i outcome now)) := by
  rw [exec]
  refine outcome_nth fun claim hmem => ?_
  obtain ⟨hclaim, hrevoked⟩ := h.finishable hmem
  refine outcome_neutral h (wp_imp (wp_finishOnConnection h.sound (h.activityClaims _ hclaim).2
    hrevoked) fun _ _ ⟨_, hf⟩ => hf.evolves) fun _ l hl => ?_
  rcases hl with hl | rfl
  · cases l with
    | succeeded | released | deadLettered | history => exact ⟨⟨rfl, rfl⟩, rfl, rfl⟩
    | _ => cases hl
  · exact ⟨⟨rfl, rfl⟩, rfl, rfl⟩

theorem exec_reportProgress {event : ProgressEvent} (h : s.Inv) :
    Outcome ((Action.reportProgress i event now).Leads s)
      (exec externals s (.reportProgress i event now)) := by
  rw [exec]
  refine outcome_nth fun claim hmem => ?_
  exact outcome_neutral h (wp_imp (wp_report h.sound (h.activityClaims _ hmem).2)
    fun _ _ hr => hr.2) fun _ _ => False.elim

/-- **Step theorem**: an action from a state that satisfies the invariant takes
every workflow through its own steps and keeps the invariant, or it fails with a
benign error. -/
theorem exec_spec (h : s.Inv) (action : Action) :
    Outcome (action.Leads s) (exec externals s action) := by
  cases action with
  | start =>
    refine outcome_neutral h (wp_imp (wp_start h.sound) fun _ _ hst => hst.evolves) ?_
    rintro _ _ rfl
    exact ⟨⟨rfl, rfl⟩, rfl, rfl⟩
  | startPrepared =>
    refine outcome_neutral h (wp_imp (wp_startPrepared h.sound) fun _ _ hst => hst.evolves) ?_
    rintro _ _ rfl
    exact ⟨⟨rfl, rfl⟩, rfl, rfl⟩
  | recoverableStart =>
    rw [exec]
    exact outcome_attached h (wp_imp (wp_startOrRestartRecoverable h.sound h.attached)
      fun _ _ ⟨hrec, hx⟩ => ⟨hrec.evolves, hx⟩) fun _ _ hl => ⟨hl, Label.draws_of_recovers hl⟩
  | restart =>
    rw [exec]
    refine outcome_attached h (wp_imp (wp_restart h.sound h.attached)
      fun _ _ ⟨⟨_, _, hrestarts⟩, hx⟩ => ⟨hrestarts.evolves, hx⟩) ?_
    rintro _ l (rfl | hl)
    · exact ⟨rfl, rfl⟩
    · exact ⟨by simp [Action.permits, hl], Label.draws_of_cancels hl⟩
  | cancel =>
    rw [exec]
    refine outcome_attached h (wp_imp (wp_cancel h.sound h.attached) fun _ _ ⟨hcancel, hx⟩ =>
      ⟨?_, hx⟩) fun _ _ hl => ⟨hl, Label.draws_of_cancels hl⟩
    obtain ⟨_, _, ⟨-, rfl⟩ | ⟨-, ids, hended⟩⟩ := hcancel
    · exact .refl _
    · exact hended.swept.cancels
  | cancelWorkflow =>
    rw [exec]
    exact outcome_attached h (wp_imp (wp_cancelWorkflow h.sound h.attached)
      fun _ _ ⟨⟨_, hended⟩, hx⟩ => ⟨hended.swept.cancels, hx⟩) fun _ _ hl =>
        ⟨hl, Label.draws_of_cancels hl⟩
  | claimWorkflow => exact exec_claimWorkflow h
  | activate => exact exec_activate h
  | commit => exact exec_commit h
  | failActivation => exact exec_failActivation h
  | seedLocks => exact outcome_neutral h wp_seedLocks fun _ _ => False.elim
  | claimActivity => exact exec_claimActivity h
  | claimActivities => exact exec_claimActivities h
  | heartbeat => exact exec_heartbeat h
  | finish => exact exec_finish h
  | reportProgress => exact exec_reportProgress h
  | fireTimer =>
    refine outcome_neutral h (wp_materializeTimer h.sound) fun _ l ⟨hl, _⟩ => ?_
    cases l with
    | answered => exact ⟨⟨hl, rfl⟩, rfl, rfl⟩
    | _ => cases hl
  | expireApproval =>
    refine outcome_neutral h (wp_imp (wp_materializeApproval h.sound) fun _ _ hcloses => ?_)
      (P := fun _ l => l.answersKind .approval) fun _ l hl => ?_
    · rcases hcloses with rfl | hcloses
      · exact .refl _
      · exact hcloses.evolves
    cases l with
    | answered => exact ⟨⟨hl, rfl⟩, rfl, rfl⟩
    | _ => cases hl
  | resolveApproval =>
    refine outcome_neutral h (wp_imp (wp_resolveApproval h.sound) fun _ _ hcloses =>
      hcloses.evolves) fun _ l hl => ?_
    cases l with
    | answered => exact ⟨⟨hl, rfl⟩, rfl, rfl⟩
    | _ => cases hl
  | pause =>
    refine outcome_neutral h (wp_imp (wp_pauseWorkflow h.sound h.attached) fun _ _ hp => hp.evolves) ?_
    rintro _ _ ⟨-, o, rfl | rfl⟩
    · exact ⟨⟨rfl, rfl⟩, rfl, rfl⟩
    · exact ⟨⟨rfl, rfl⟩, rfl, rfl⟩
  | resume =>
    refine outcome_neutral h (wp_imp (wp_resumeWorkflow h.sound h.attached) fun _ _ hr => hr.evolves) ?_
    rintro _ _ (rfl | rfl)
    · exact ⟨⟨rfl, rfl⟩, rfl, rfl⟩
    · exact ⟨⟨rfl, rfl⟩, rfl, rfl⟩
  | retry =>
    refine outcome_neutral h (wp_retry h.sound) ?_
    rintro _ _ (rfl | ⟨b, rfl⟩)
    · exact ⟨⟨rfl, rfl⟩, rfl, rfl⟩
    · exact ⟨⟨rfl, rfl⟩, rfl, rfl⟩
  | recordScheduleRunNow =>
    refine outcome_neutral h (wp_recordScheduleRunNow h.sound) ?_
    rintro _ _ rfl
    exact ⟨⟨rfl, rfl⟩, rfl, rfl⟩
  | writeScheduleRuns runs =>
    have hev : ∀ {P : WorkflowId → Label → Prop},
        Evolves P s.db { s.db with scheduleRuns := runs } :=
      .of_aggregate_eq (fun _ => rfl) id
    exact .ok ⟨hev, le_rfl, h.evolves (P := fun _ _ => False) hev (fun _ _ => False.elim)
      (hev.attached (P := fun _ _ => False) h.sound (fun _ _ => False.elim) h.attached)⟩

end Exec

-- ════════════════════════════════════════════════════════════════════════
-- Runs
-- ════════════════════════════════════════════════════════════════════════

theorem exec_leads (h : s.Inv) (hok : exec externals s action = .ok s') : action.Leads s s' := by
  have hspec : Outcome (action.Leads s) (exec externals s action) := exec_spec h action
  rw [hok] at hspec
  cases hspec
  assumption

/-- No action meets a broken invariant. -/
theorem exec_benign {e : DurableError} (h : s.Inv) (herror : exec externals s action = .error e) :
    Benign e := by
  have hspec : Outcome (action.Leads s) (exec externals s action) := exec_spec h action
  rw [herror] at hspec
  cases hspec
  assumption

/-- The invariant holds in every reachable state. -/
theorem run_inv (externals : Externals) (actions : List Action) :
    (run externals Sys.init actions).Inv :=
  Machine.run_invariant (fun _ _ _ h hok => (exec_leads h hok).inv) .init actions

/-- The invariant holds later on. -/
theorem Sys.Inv.run (h : s.Inv) (externals : Externals) (actions : List Action) :
    (DurableWorkflows.run externals s actions).Inv :=
  Machine.run_invariant (fun _ _ _ h hok => (exec_leads h hok).inv) h actions

/-- A run takes every workflow through steps, none of which draws a token of
the past. -/
theorem Sys.Inv.run_evolves (h : s.Inv) (externals : Externals) (actions : List Action) :
    Evolves (fun _ l => l.drawsFrom s.nextToken) s.db
      (DurableWorkflows.run externals s actions).db := by
  have hrun : s.nextToken ≤ (DurableWorkflows.run externals s actions).nextToken ∧
      Evolves (fun _ l => l.drawsFrom s.nextToken) s.db
        (DurableWorkflows.run externals s actions).db := by
    refine Machine.run_related (P := Sys.Inv) (fun _ _ _ h hok => (exec_leads h hok).inv)
      (R := fun s s' => s.nextToken ≤ s'.nextToken ∧
        Evolves (fun _ l => l.drawsFrom s.nextToken) s.db s'.db)
      (fun s => ⟨le_rfl, .refl s.db⟩) ?_ (fun s action s' h hok => ?_) h actions
    · rintro s s' s'' ⟨hle, hev⟩ ⟨hle', hev'⟩
      refine ⟨hle.trans hle', hev.trans (hev'.mono fun _ l hl => ?_)⟩
      exact Label.drawsFrom_mono hle hl
    · obtain ⟨hev, hle, -⟩ := exec_leads h hok
      exact ⟨hle, hev.mono fun _ _ hl => hl.2⟩
  exact hrun.2

/-- What every action keeps of a state and the history of a run. -/
theorem run_history {β : Type} {f : Sys → Action → List β} {P : Sys → List β → Prop}
    (hstep : ∀ s acc action, s.Inv → P s acc → P (step externals s action) (acc ++ f s action))
    (hs : s.Inv) (h : P s []) (actions : List Action) :
    P (run externals s actions) (Machine.collect (exec externals) f s actions) := by
  have h₀ : s.Inv ∧ P s [] := ⟨hs, h⟩
  refine (Machine.run_collect (P := fun s acc => s.Inv ∧ P s acc) (fun s acc action hP => ?_) h₀
    actions).2
  exact ⟨Machine.step_invariant (fun _ _ _ h hok => (exec_leads h hok).inv) hP.1 action,
    hstep s acc action hP.1 hP.2⟩

/-- What holds in a reachable state and not initially was brought about by an
action. -/
theorem run_origin {Q : Sys → Prop} {O : Sys → Action → Sys → Prop}
    (hstep : ∀ s action s', s.Inv → exec externals s action = .ok s' → Q s' →
      Q s ∨ O s action s')
    (hinit : ¬Q Sys.init) {actions : List Action} (hQ : Q (run externals Sys.init actions)) :
    ∃ pre action post s', actions = pre ++ action :: post ∧
      exec externals (run externals Sys.init pre) action = .ok s' ∧
      O (run externals Sys.init pre) action s' :=
  (Machine.run_origin (fun _ _ _ h hok => (exec_leads h hok).inv) hstep .init actions hQ).resolve_left
    hinit

end DurableWorkflows
