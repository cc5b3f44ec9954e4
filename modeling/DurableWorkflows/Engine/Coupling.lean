import DurableWorkflows.Engine.Budget
import DurableWorkflows.Engine.ErrorTexts
import DurableWorkflows.Engine.FullLogs

/-!
# Activities and their workflows

No constraint of the schema ties an activity to the wait of its workflow; the
transactions do. An activity that is not terminal is the one its workflow waits
for, and a workflow is blocked on a dead-lettered activity of its own.

## Main definitions

- `ActivityCoupling`: what the status of an activity says about its workflow
- `Aggregate.BlockedOn`: the workflow is blocked on an activity

## Main results

- `Step.deadLetters`: a dead letter blocks its workflow
- `run_coupling`
-/

namespace DurableWorkflows

open Transaction Sys

variable {externals : Externals} {s s' : Sys} {db db' : DB} {g g' : Aggregate} {w : WorkflowId}
  {r : WorkflowRow} {l : Label} {a : ActivityId} {act act' : ActivityRow}

/-- What the status of an activity says about the row of its workflow. -/
structure ActivityCoupling (a : ActivityId) (act : ActivityRow) (r : WorkflowRow) : Prop where
  running : act.status = .running → r.status = .waitingActivity ∧ r.awaited = some (.activity a)
  pending : act.status = .pending →
    (r.status = .waitingActivity ∨ r.status = .paused) ∧ r.awaited = some (.activity a)
  cancelling : act.status = .cancelling → r.status.isTerminal = true ∨
    (r.status = .waitingActivity ∨ r.status = .paused) ∧ r.awaited = some (.activity a)

/-- The invariant of a workflow couples its activities. -/
theorem Inv.activityCoupling (h : Inv g r) (ha : g.activities a = some act) :
    ActivityCoupling a act r := by
  have hcoupled := h.coupled a act ha
  have hlive : act.status.isTerminal = false → r.status.isTerminal = false →
      r.awaited = some (.activity a) ∧ r.status.awaitedActivity act.status = true := by
    intro hact ht
    have hw : r.awaited = some (.activity a) := hcoupled.live hact ht
    exact ⟨hw, h.awaitedActivity_status ht hw ha⟩
  have hopen : act.status = .pending ∨ act.status = .running → r.status.isTerminal = false := by
    intro hs
    by_contra ht
    have ht' : r.status.isTerminal = true := by simpa using ht
    obtain ⟨hp, hr⟩ := hcoupled.revoked ht'
    exact hs.elim hp hr
  refine ⟨fun hs => ?_, fun hs => ?_, fun hs => ?_⟩
  · obtain ⟨hw, hstatus⟩ := hlive (by rw [hs]; rfl) (hopen (.inr hs))
    refine ⟨?_, hw⟩
    rw [hs] at hstatus
    cases hr : r.status <;> simp [hr, WorkflowStatus.awaitedActivity, ActivityStatus.isTerminal]
      at hstatus ⊢
  · obtain ⟨hw, hstatus⟩ := hlive (by rw [hs]; rfl) (hopen (.inl hs))
    refine ⟨?_, hw⟩
    rw [hs] at hstatus
    cases hr : r.status <;> simp [hr, WorkflowStatus.awaitedActivity, ActivityStatus.isTerminal]
      at hstatus ⊢
  · cases ht : r.status.isTerminal with
    | true => exact .inl rfl
    | false =>
      obtain ⟨hw, hstatus⟩ := hlive (by rw [hs]; rfl) ht
      refine .inr ⟨?_, hw⟩
      rw [hs] at hstatus
      cases hr : r.status <;> simp [hr, WorkflowStatus.awaitedActivity, ActivityStatus.isTerminal]
        at hstatus ⊢

/-- A blocked row waits for an activity. -/
theorem RowInv.blocked_awaits (h : RowInv r) (hs : r.status = .blocked) :
    ∃ a, r.awaited = some (.activity a) := by
  have hallowed := h.allowed
  rw [hs] at hallowed
  cases hw : r.awaited with
  | none => simp [hw, WorkflowStatus.allows] at hallowed
  | some wait =>
    cases wait with
    | activity a => exact ⟨a, rfl⟩
    | _ => simp [hw, WorkflowStatus.allows, Wait.kind] at hallowed

-- ════════════════════════════════════════════════════════════════════════
-- Dead letters
-- ════════════════════════════════════════════════════════════════════════

/-- The workflow is blocked on the activity. -/
def Aggregate.BlockedOn (g : Aggregate) (a : ActivityId) : Prop :=
  ∃ r, g.row = some r ∧ r.status = .blocked ∧ r.awaited = some (.activity a)

/-- The activity is dead-lettered. -/
def Aggregate.DeadLettered (g : Aggregate) (a : ActivityId) : Prop :=
  ∃ act, g.activities a = some act ∧ act.status = .deadLettered

/-- The steps of claims and finishes of activities. -/
def Label.works : Label → Bool
  | .history | .activityClaimed .. | .succeeded _ | .released _ | .deadLettered _ | .settled _
  | .quarantined _ => true
  | _ => false

/-- A change of one activity. -/
theorem deadLettered_of_setActivity {a₀ : ActivityId} {x : ActivityRow}
    (h : (g.setActivity a₀ x).DeadLettered a) :
    g.DeadLettered a ∨ a = a₀ ∧ x.status = .deadLettered := by
  obtain ⟨act, hact, hdead⟩ := h
  by_cases heq : a = a₀
  · subst heq
    simp only [Aggregate.setActivity_activities, Function.update_self, Option.some.injEq] at hact
    subst hact
    exact .inr ⟨rfl, hdead⟩
  · simp only [Aggregate.setActivity_activities, Function.update_of_ne heq] at hact
    exact .inl ⟨act, hact, hdead⟩

/-- A change of all activities that makes no dead letter. -/
theorem deadLettered_of_map {f : ActivityRow → ActivityRow}
    (hf : ∀ act, (f act).status = .deadLettered → act.status = .deadLettered)
    (h : (g.mapActivities f).DeadLettered a) : g.DeadLettered a := by
  obtain ⟨act', hact', hdead⟩ := h
  obtain ⟨act, hact, rfl⟩ := Option.map_eq_some_iff.mp hact'
  exact ⟨act, hact, hf act hdead⟩

/-- An activity becomes a dead letter only in a step that blocks its workflow on
it. -/
theorem Step.deadLetters (h : Step g l g') (hd : g'.DeadLettered a) :
    g.DeadLettered a ∨ (l = .deadLettered a ∨ l = .quarantined a) ∧ g'.BlockedOn a := by
  cases h with
  | inserted =>
    obtain ⟨act, hact, -⟩ := hd
    cases hact
  | history | claimed | recovered | continued | completed | slept | waitedApproval | waitedChild
  | activationFailed | answered | answeredApproval | reattached | paused | resumed => exact .inl hd
  | waitedActivity _ _ _ hfresh | retried _ _ _ _ _ hfresh =>
    refine .inl ((deadLettered_of_setActivity (g := g) hd).resolve_right fun hdead => ?_)
    cases hfresh.status.symm.trans hdead.2
  | revoked | activityClaimed | succeeded | released =>
    exact .inl ((deadLettered_of_setActivity (g := g) hd).resolve_right (fun h => by simp at h))
  | cancelled =>
    refine .inl (deadLettered_of_map (g := g) (fun act hdead => ?_) hd)
    unfold ActivityRow.cancelledBy at hdead
    split at hdead <;> simp_all
  | superseded | discarded =>
    refine .inl (deadLettered_of_map (g := g) (fun act hdead => ?_) hd)
    unfold ActivityRow.discarded at hdead
    split at hdead <;> simp_all
  | @renewed _ _ a₀ act₀ _ _ _ hlease =>
    refine .inl ((deadLettered_of_setActivity (g := g) hd).resolve_right fun hpost => ?_)
    obtain ⟨_, hdead⟩ := hpost
    simp [show act₀.status = .deadLettered from hdead, ActivityStatus.holdsLease] at hlease
  | settled =>
    refine .inl ((deadLettered_of_setActivity (g := g) hd).resolve_right fun hpost => ?_)
    obtain ⟨_, hdead⟩ := hpost
    dsimp only at hdead
    split at hdead <;> cases hdead
  | deadLettered _ _ hw =>
    refine (deadLettered_of_setActivity (g := g) hd).imp_right fun hpost => ?_
    obtain ⟨heq, _⟩ := hpost
    subst heq
    exact ⟨.inl rfl, _, rfl, rfl, hw⟩
  | quarantined _ _ hw =>
    refine (deadLettered_of_setActivity (g := g) hd).imp_right fun hpost => ?_
    obtain ⟨heq, _⟩ := hpost
    subst heq
    exact ⟨.inr rfl, _, rfl, rfl, hw⟩

/-- The work on activities leaves a blocked workflow blocked. -/
theorem Step.keeps_blocked (h : Step g l g') (hl : l.works = true) (hb : g.BlockedOn a) :
    g'.BlockedOn a := by
  obtain ⟨r, hr, hblocked, hw⟩ := hb
  cases h with
  | history | released | settled => exact ⟨r, hr, hblocked, hw⟩
  | activityClaimed hr₀ hs | succeeded hr₀ hs | deadLettered hr₀ hs | quarantined hr₀ hs =>
    obtain rfl := Option.some_inj.mp (hr₀.symm.trans hr)
    cases hs.symm.trans hblocked
  | _ => cases hl

/-- A dead letter made by the work on activities blocks its workflow. -/
theorem Steps.deadLetters {P : Label → Prop} (h : Steps P g g') (hP : ∀ l, P l → l.works = true)
    (hd : g'.DeadLettered a) : g.DeadLettered a ∨ g'.BlockedOn a := by
  induction h with
  | refl => exact .inl hd
  | tail _ hstep ih =>
    obtain ⟨l, hl, hstep⟩ := hstep
    obtain hd₁ | ⟨-, hb⟩ := hstep.deadLetters hd
    · exact (ih hd₁).imp_right (hstep.keeps_blocked (hP l hl))
    · exact .inr hb

/-- Other steps make no dead letter. -/
theorem Steps.deadLettered_of {P : Label → Prop} (h : Steps P g g')
    (hP : ¬P (.deadLettered a) ∧ ¬P (.quarantined a)) (hd : g'.DeadLettered a) :
    g.DeadLettered a := by
  induction h with
  | refl => exact hd
  | tail _ hstep ih =>
    obtain ⟨l, hl, hstep⟩ := hstep
    obtain hd₁ | ⟨rfl | rfl, -⟩ := hstep.deadLetters hd
    · exact ih hd₁
    · exact absurd hl hP.1
    · exact absurd hl hP.2

/-- Only claims and finishes make dead letters, and they only work on
activities. -/
theorem Action.deadLetters (action : Action) (a : ActivityId) :
    (∀ l, action.permits l = true → l.works = true) ∨
      action.permits (.deadLettered a) = false ∧ action.permits (.quarantined a) = false := by
  cases action with
  | claimActivity | claimActivities | finish =>
    refine .inl fun l hl => ?_
    cases l <;> first | rfl | cases hl
  | _ => exact .inr ⟨rfl, rfl⟩

theorem exec_deadLetters {action : Action} (h : s.Inv) (hok : exec externals s action = .ok s')
    (hd : (s'.db.aggregate w).DeadLettered a) :
    (s.db.aggregate w).DeadLettered a ∨ (s'.db.aggregate w).BlockedOn a := by
  have hsteps := (exec_leads h hok).evolves.steps w
  obtain hworks | ⟨hdead, hquarantine⟩ := action.deadLetters a
  · exact hsteps.deadLetters (fun l hl => hworks l hl.1) hd
  · refine .inl (hsteps.deadLettered_of ⟨fun hl => ?_, fun hl => ?_⟩ hd)
    · cases hdead.symm.trans hl.1
    · cases hquarantine.symm.trans hl.1

-- ════════════════════════════════════════════════════════════════════════
-- Runs
-- ════════════════════════════════════════════════════════════════════════

/-- A final finish of a running attempt by its lease holder fails on a full log
only, or because the backend rejects the texts of a dead letter. -/
theorem exec_finish_final {i : ℕ} {outcome : ExecutionOutcome} {now : DbMillis}
    {claim : ActivityClaim} (h : s.Inv) (hi : s.activityClaims[i]? = some claim)
    (ha : s.db.activities.find claim.row.id = some act) (hf : claim.fences act = true)
    (hfinal : outcome.isFinal claim = true) :
    ((∃ s', exec externals s (.finish i outcome now) = .ok s') ∧
        ∀ dialect, s.db.TextsFit dialect →
          (dialect.Commits (finishOnConnection externals claim outcome now) s.db ↔
            outcome.TextFits dialect)) ∧
        (s.db.eventsOf act.workflowId).length < I32.max ∨
      exec externals s (.finish i outcome now) = .error (.invalidState .eventSequenceOverflow) ∧
        I32.max ≤ (s.db.eventsOf act.workflowId).length := by
  have hrun : act.status = .running := by
    simp only [ActivityClaim.fences, Bool.and_eq_true, beq_iff_eq] at hf
    exact hf.1.1
  have hfinishable : s.finishable outcome = s.activityClaims := by
    cases outcome <;> first | rfl | cases hfinal
  have hclaim := (h.activityClaims claim (List.mem_of_getElem? hi)).2
  have hexec : exec externals s (.finish i outcome now) =
      s.transact' (finishOnConnection externals claim outcome now) := by
    rw [exec, hfinishable, nth, hi]
    rfl
  have hfinish : wp (finishOnConnection externals claim outcome now)
      (fun _ _ => (s.db.eventsOf act.workflowId).length < I32.max)
      (fun e => e = .invalidState .eventSequenceOverflow ∧
        I32.max ≤ (s.db.eventsOf act.workflowId).length) s.db :=
    wp_finishOnConnection_final h.sound hclaim ha hf hfinal
  rw [hexec, transact', transact]
  split
  · rename_i hok
    refine .inl ⟨⟨⟨_, rfl⟩, fun dialect hdb => ?_⟩, wp_ok hfinish hok⟩
    have hfits := wp_ok (wp_finishOnConnection_textsFit hdb ha hrun hfinal) hok
    refine ⟨?_, fun h => ⟨_, _, hok, hfits.mpr h⟩⟩
    rintro ⟨a, db', hok', hdb'⟩
    cases hok.symm.trans hok'
    exact hfits.mp hdb'
  · obtain ⟨rfl, hfull⟩ := wp_error hfinish ‹_›
    exact .inr ⟨rfl, hfull⟩

/-- Activities and their workflows in every reachable state. The workflow of an
activity that is not terminal waits for it, as far as the workflow is open; an
open workflow has at most one such activity; and a workflow that is blocked, or
paused on a dead letter, waits for a dead-lettered activity of its own. A success
or a dead letter reported by the lease holder of a running attempt is committed,
unless the event log is at the end of its numbers, or the backend rejects a text
of the dead letter, as Postgres does a U+0000; and an action that dead-letters an
activity leaves its workflow blocked on it. -/
theorem run_coupling (externals : Externals) (actions : List Action) :
    let s := run externals Sys.init actions
    (∀ a act, s.db.activities.find a = some act →
      ∃ r, s.db.workflows.find act.workflowId = some r ∧ ActivityCoupling a act r) ∧
    (∀ w r, s.db.workflows.find w = some r → r.status.isTerminal = false →
      ∀ a act a' act', s.db.activities.find a = some act → s.db.activities.find a' = some act' →
        act.workflowId = w → act'.workflowId = w → act.status.isTerminal = false →
        act'.status.isTerminal = false → a = a') ∧
    (∀ w r, s.db.workflows.find w = some r → r.status = .blocked →
      ∃ a act, r.awaited = some (.activity a) ∧ s.db.activities.find a = some act ∧
        act.workflowId = w ∧ act.status = .deadLettered) ∧
    (∀ w r a act, s.db.workflows.find w = some r → r.status = .paused →
      r.awaited = some (.activity a) → s.db.activities.find a = some act →
      act.status = .deadLettered → act.workflowId = w) ∧
    (∀ i outcome now claim act, s.activityClaims[i]? = some claim →
      s.db.activities.find claim.row.id = some act → claim.fences act = true →
      outcome.isFinal claim = true →
      (∃ s', exec externals s (.finish i outcome now) = .ok s') ∧
          (∀ dialect, s.db.TextsFit dialect →
            (dialect.Commits (finishOnConnection externals claim outcome now) s.db ↔
              outcome.TextFits dialect)) ∨
        exec externals s (.finish i outcome now) = .error (.invalidState .eventSequenceOverflow) ∧
          I32.max ≤ (s.db.eventsOf act.workflowId).length) ∧
    ∀ action s' a act', exec externals s action = .ok s' → s'.db.activities.find a = some act' →
      act'.status = .deadLettered →
      (∃ act, s.db.activities.find a = some act ∧ act.status = .deadLettered) ∨
        ∃ r, s'.db.workflows.find act'.workflowId = some r ∧ r.status = .blocked ∧
          r.awaited = some (.activity a) := by
  have hinv := run_inv externals actions
  have hawaited : ∀ {w r a}, (run externals Sys.init actions).db.workflows.find w = some r →
      r.status.isTerminal = false → r.awaited = some (.activity a) →
      ∃ act, (run externals Sys.init actions).db.activities.find a = some act ∧
        act.workflowId = w ∧ r.status.awaitedActivity act.status = true := by
    intro w r a hr ht hw
    obtain ⟨act, hact, -, hstatus, -⟩ := (hinv.sound.inv hr).awaitedActivity ht hw
    obtain ⟨hfind, hwid⟩ := aggregate_activity.mp hact
    exact ⟨act, hfind, hwid, hstatus⟩
  refine ⟨fun a act ha => ?_, fun w r hr ht a act a' act' ha ha' hw hw' hs hs' => ?_,
    fun w r hr hs => ?_, fun w r a act hr hs hw ha _ => ?_,
    fun i outcome now claim act hi ha hf hfinal =>
      (exec_finish_final hinv hi ha hf hfinal).imp_left And.left,
    fun action s' a act' hok ha' hdead => ?_⟩
  · obtain ⟨r, hr⟩ := hinv.sound.row_of_activity ha
    exact ⟨r, hr, (hinv.sound.inv hr).activityCoupling (activity_of_find ha)⟩
  · -- both are the activity that the workflow waits for
    subst hw
    have hwait := ((hinv.sound.inv hr).coupled a act (activity_of_find ha)).live hs ht
    have hwait' := ((hinv.sound.inv hr).coupled a' act' (hw' ▸ activity_of_find ha')).live hs' ht
    simpa using hwait.symm.trans hwait'
  · obtain ⟨a, hw⟩ := (hinv.sound.inv hr).row.blocked_awaits hs
    obtain ⟨act, ha, hwid, hstatus⟩ := hawaited hr (by rw [hs]; rfl) hw
    rw [hs] at hstatus
    exact ⟨a, act, hw, ha, hwid, beq_iff_eq.mp hstatus⟩
  · obtain ⟨act', ha', hwid, -⟩ := hawaited hr (by rw [hs]; rfl) hw
    obtain rfl := Option.some_inj.mp (ha.symm.trans ha')
    exact hwid
  · obtain ⟨act, hact, hd⟩ | ⟨r, hr, hb⟩ :=
      exec_deadLetters hinv hok ⟨act', activity_of_find ha', hdead⟩
    · exact .inl ⟨act, (aggregate_activity.mp hact).1, hd⟩
    · exact .inr ⟨r, hr, hb⟩

-- ════════════════════════════════════════════════════════════════════════
-- Full logs
-- ════════════════════════════════════════════════════════════════════════

namespace Sample

/-- A run that leaves claim 0 with a running attempt of the workflow 1. -/
def claimedRun : List Action :=
  .start workflow ⟨none, none, none⟩ 0 ::
    (activation 0 (.runActivity "null" activity) 0 ++ claimActivity 0)

/-- The same with as many runs of a schedule as fill the log of the workflow. -/
def fullLogRun : List Action :=
  claimedRun ++ List.replicate (I32.max - 2) (.recordScheduleRunNow 1 operator 0)

theorem claimedRun_holds :
    ∃ claim act, (run Sample.externals Sys.init claimedRun).activityClaims[0]? = some claim ∧
      (run Sample.externals Sys.init claimedRun).db.activities.find claim.row.id = some act ∧
      claim.fences act = true ∧ act.workflowId = 1 := by
  have hclaim : ((run Sample.externals Sys.init claimedRun).activityClaims[0]?).all fun claim =>
      ((run Sample.externals Sys.init claimedRun).db.activities.find claim.row.id).any fun act =>
        claim.fences act && act.workflowId == 1 := by decide +kernel
  have hdrawn : ((run Sample.externals Sys.init claimedRun).activityClaims[0]?).isSome := by
    decide +kernel
  generalize run Sample.externals Sys.init claimedRun = s at *
  obtain ⟨claim, hi⟩ := Option.isSome_iff_exists.mp hdrawn
  rw [hi, Option.all_some, Option.any_eq_true] at hclaim
  obtain ⟨act, ha, hf⟩ := hclaim
  rw [Bool.and_eq_true, beq_iff_eq] at hf
  exact ⟨claim, act, hi, ha, hf.1, hf.2⟩

/-- The runs of the schedule leave the attempt as it is. -/
theorem fullLogRun_records :
    (run Sample.externals Sys.init claimedRun).Records 1 (I32.max - 2)
      (run Sample.externals Sys.init fullLogRun) ∧
    ((run Sample.externals Sys.init fullLogRun).db.eventsOf 1).length = I32.max := by
  have hlength : ((run Sample.externals Sys.init claimedRun).db.eventsOf 1).length = 2 := by
    decide +kernel
  have hrow : ((run Sample.externals Sys.init claimedRun).db.workflows.find 1).isSome := by
    decide +kernel
  have hrecords : (run Sample.externals Sys.init claimedRun).Records 1 (I32.max - 2)
      (run Sample.externals Sys.init fullLogRun) := by
    rw [fullLogRun, run, Machine.run_append]
    refine run_records (run_inv Sample.externals claimedRun) hrow ?_
    rw [hlength]
    decide
  refine ⟨hrecords, ?_⟩
  rw [hrecords.length, hlength]
  rfl

/-- The success that the holder of a running attempt reports rolls back on a full log. -/
theorem fullLog_rollsBack :
    ∃ claim act, (run Sample.externals Sys.init fullLogRun).activityClaims[0]? = some claim ∧
      (run Sample.externals Sys.init fullLogRun).db.activities.find claim.row.id = some act ∧
      claim.fences act = true ∧
      exec Sample.externals (run Sample.externals Sys.init fullLogRun)
        (.finish 0 (.succeeded ⟨"null", by decide⟩) 0) =
          .error (.invalidState .eventSequenceOverflow) := by
  obtain ⟨claim, act, hdrawn, hstored, hfences, hworkflow⟩ := claimedRun_holds
  obtain ⟨hrecords, hfull⟩ := fullLogRun_records
  rw [← hrecords.activityClaims] at hdrawn
  rw [← hrecords.activities] at hstored
  refine ⟨claim, act, hdrawn, hstored, hfences, ?_⟩
  have hfinal : (ExecutionOutcome.succeeded ⟨"null", by decide⟩).isFinal claim = true := rfl
  obtain ⟨-, hroom⟩ | ⟨herror, -⟩ := exec_finish_final hrecords.inv hdrawn hstored hfences hfinal
  · rw [hworkflow, hfull] at hroom
    exact absurd hroom (lt_irrefl _)
  · exact herror

end Sample

end DurableWorkflows
