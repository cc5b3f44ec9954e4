import DurableWorkflows.Engine.Delivery
import DurableWorkflows.Engine.EventLog

/-!
# Activation attempts

The activation counter of a workflow counts the activation failures since its
last commit, whichever processes recorded them and with whichever maxima. It
stays within the limit of its row, nothing but a failure or a commit changes
it, and a failure changes nothing else that the workflow owns.

## Main definitions

- `Activation`, `Aggregate.activation`: the counter of a row with its limit
- `Action.effect`, `Activation.after`: what an action does to it
- `failuresSince`: the failures since the last commit
- `ActivationFailureFrame`: what a failure leaves alone

## Main results

- `exec_activation`: the step theorem
- `run_activationAttempts`
-/

namespace DurableWorkflows

open Transaction Sys

variable {externals : Externals} {s s' : Sys} {db db' : DB} {g g' : Aggregate} {w : WorkflowId}
  {r r' : WorkflowRow} {l : Label} {action : Action} {P : Label → Prop} {α : Type}

/-- The activation counter of a row, its limit, and whether the row failed. -/
@[ext]
structure Activation where
  attempts : ℕ
  limit : ℕ
  failed : Bool

/-- The counter of a new row. -/
def Activation.fresh : Activation := ⟨0, defaultMaxActivationAttempts, false⟩

def WorkflowRow.activation (r : WorkflowRow) : Activation :=
  ⟨r.activationAttempts, r.maxActivationAttempts, r.status == .failed⟩

def Aggregate.activation (g : Aggregate) : Option Activation := g.row.map (·.activation)

/-- What an action does to the counter of a workflow. -/
inductive ActivationEffect
  | failed (configured : ℕ)
  | committed
  | untouched

/-- The effect of an action on workflow `w`, if it succeeds. -/
def Action.effect (s : Sys) (w : WorkflowId) : Action → ActivationEffect
  | .failActivation i config .. =>
    if s.workflowClaims[i]?.any (·.row.id == w) then .failed config.maxActivationAttempts
    else .untouched
  | .commit i .. => if s.activations[i]?.any (·.1.row.id == w) then .committed else .untouched
  | _ => .untouched

/-- The counter after an action. -/
def Activation.after (a : Activation) : ActivationEffect → Activation
  | .failed configured =>
    ⟨I32.saturatingAdd a.attempts 1, a.limit,
      min a.limit (I32.clamp configured) ≤ I32.saturatingAdd a.attempts 1⟩
  | .committed => ⟨0, a.limit, false⟩
  | .untouched => a

section Steps

theorem activation_of_row (hr : g.row = some r) : g.activation = some r.activation := by
  rw [Aggregate.activation, hr]
  rfl

/-- A row that did not fail. -/
theorem WorkflowRow.activation_of_ne (hs : r.status ≠ .failed) :
    r.activation = ⟨r.activationAttempts, r.maxActivationAttempts, false⟩ := by
  ext1
  · rfl
  · rfl
  · exact beq_false_of_ne hs

/-- A change of a row that did not fail and does not fail. -/
theorem activation_of_rows (hr : g.row = some r) (hr' : g'.row = some r')
    (hs : r.status ≠ .failed) (hs' : r'.status ≠ .failed)
    (hattempts : r'.activationAttempts = r.activationAttempts)
    (hlimit : r'.maxActivationAttempts = r.maxActivationAttempts) :
    g'.activation = g.activation := by
  rw [activation_of_row hr, activation_of_row hr', WorkflowRow.activation_of_ne hs,
    WorkflowRow.activation_of_ne hs', hattempts, hlimit]

theorem WorkflowStatus.ne_failed_of_open {status : WorkflowStatus}
    (h : status.isTerminal = false) : status ≠ .failed := by
  rintro rfl
  cases h

/-- A step that neither commits nor fails an activation leaves the counter
alone, or it inserts the workflow. -/
theorem Step.activation (h : Step g l g') (hl : l.isCommit = false)
    (hl' : l ≠ .activationFailed) :
    g'.activation = g.activation ∨ g.activation = none ∧ g'.activation = some .fresh := by
  cases h with
  | inserted hrow =>
    refine .inr ⟨rfl, (activation_of_row rfl).trans (congrArg some ?_)⟩
    rw [WorkflowRow.activation_of_ne (by rw [hrow.status]; nofun), hrow.activationAttempts,
      hrow.maxActivationAttempts]
    rfl
  | history | discarded | activityClaimed | renewed | released | settled => exact .inl rfl
  | continued | completed | slept | waitedApproval | waitedActivity | waitedChild => cases hl
  | activationFailed => exact absurd rfl hl'
  | claimed hr hs | recovered hr hs | revoked hr hs | superseded hr hs | retried hr hs
  | deadLettered hr hs | quarantined hr hs =>
    exact .inl (activation_of_rows hr rfl (by rw [hs]; nofun) nofun rfl rfl)
  | succeeded hr hs =>
    refine .inl (activation_of_rows hr rfl (by rw [hs]; nofun) ?_ rfl rfl)
    exact WorkflowStatus.ne_failed_of_open (woken_open _)
  | @answered _ r _ _ hr _ hs =>
    have hopen : r.status.isTerminal = false := by
      rcases hs with ⟨hs, -⟩ | ⟨hs, -⟩
      · exact open_of_awaitsChild hs
      · rw [hs]
        rfl
    refine .inl (activation_of_rows hr rfl (WorkflowStatus.ne_failed_of_open hopen) ?_ rfl rfl)
    exact WorkflowStatus.ne_failed_of_open (woken_open _)
  | answeredApproval hr _ hs =>
    refine .inl (activation_of_rows hr rfl
      (WorkflowStatus.ne_failed_of_open (open_of_awaitsApproval hs)) ?_ rfl rfl)
    exact WorkflowStatus.ne_failed_of_open (woken_open _)
  | reattached hr _ hs =>
    have hopen := WorkflowStatus.ne_failed_of_open (open_of_awaitsChild hs)
    exact .inl (activation_of_rows hr rfl hopen hopen rfl rfl)
  | paused hr _ ht =>
    exact .inl (activation_of_rows hr rfl (WorkflowStatus.ne_failed_of_open ht) nofun rfl rfl)
  | cancelled hr ht _ clear =>
    refine .inl (activation_of_rows hr rfl (WorkflowStatus.ne_failed_of_open ht) nofun ?_ ?_)
    · cases clear <;> rfl
    · cases clear <;> rfl
  | @resumed _ r status hr hs hstatus =>
    refine .inl (activation_of_rows hr rfl (by rw [hs]; nofun) ?_ rfl rfl)
    change status ≠ .failed
    unfold Aggregate.ResumesTo at hstatus
    split at hstatus
    all_goals first | (subst hstatus; nofun) | skip
    obtain ⟨act, -, ⟨-, rfl⟩ | ⟨-, rfl⟩⟩ := hstatus <;> nofun

theorem Steps.activation (h : Steps P g g')
    (hP : ∀ l, P l → l.isCommit = false ∧ l ≠ .activationFailed) :
    g'.activation = g.activation ∨ g.activation = none ∧ g'.activation = some .fresh := by
  induction h with
  | refl => exact .inl rfl
  | tail _ hlast ih =>
    obtain ⟨l, hl, hlast⟩ := hlast
    rcases hlast.activation (hP l hl).1 (hP l hl).2 with hsame | ⟨hnone, hnew⟩
    · rw [hsame]
      exact ih
    · rcases ih with ih | ⟨-, ih⟩
      · exact .inr ⟨ih ▸ hnone, hnew⟩
      · rw [ih] at hnone
        cases hnone

/-- A commit resets the counter. -/
theorem Step.commits_activation (h : Step g l g') (hl : l.isCommit = true) :
    ∃ a, g.activation = some a ∧ g'.activation = some ⟨0, a.limit, false⟩ := by
  cases h with
  | continued hr | completed hr | slept hr | waitedApproval hr | waitedActivity hr
  | waitedChild hr =>
    exact ⟨_, activation_of_row hr, rfl⟩
  | _ => cases hl

end Steps

section Actions

theorem Label.accompanies_neutral {l : Label} (h : l.accompanies = true) :
    l.isCommit = false ∧ l ≠ .activationFailed := by
  cases l with
  | inserted | history | answered => exact ⟨rfl, nofun⟩
  | _ => cases h

/-- Only a failure of an activation has failing steps. -/
theorem Action.eq_failActivation (h : action.permits .activationFailed = true) :
    ∃ i config message now, action = .failActivation i config message now := by
  cases action <;> first | exact ⟨_, _, _, _, rfl⟩ | cases h

/-- An action that is neither a commit nor an activation failure has no
effect on any counter. -/
theorem Action.effect_of_ne
    (hcommit : ¬∃ i config transition now, action = .commit i config transition now)
    (hfail : ¬∃ i config message now, action = .failActivation i config message now) :
    action.effect s w = .untouched := by
  cases action with
  | commit => exact absurd ⟨_, _, _, _, rfl⟩ hcommit
  | failActivation => exact absurd ⟨_, _, _, _, rfl⟩ hfail
  | _ => rfl

/-- What an action makes of the counter of one workflow: the effect is that of
the action, and a workflow it inserts starts with a fresh counter. -/
inductive Moves (effect : ActivationEffect) : Option Activation → Option Activation → Prop
  | some (a : Activation) (h : ∀ m, effect = .failed m → a.failed = false) :
      Moves effect (some a) (some (a.after effect))
  | none (h : effect = .untouched) : Moves effect none none
  | inserted (h : effect = .untouched) : Moves effect none (some .fresh)

/-- Steps that neither commit nor fail an activation. -/
theorem Steps.moves (h : Steps P g g')
    (hP : ∀ l, P l → l.isCommit = false ∧ l ≠ .activationFailed) :
    Moves .untouched g.activation g'.activation := by
  rcases h.activation hP with hsame | ⟨hnone, hnew⟩
  · rw [hsame]
    cases g.activation with
    | none => exact .none rfl
    | some a => exact .some a nofun
  · rw [hnone, hnew]
    exact .inserted rfl

theorem Commits.moves {claim : ClaimedRow}
    {W : Label → WorkflowRow → (WorkflowId → Option Lineage) → Prop} (h : Commits claim W db db')
    (w : WorkflowId) :
    Moves (if claim.row.id = w then .committed else .untouched) (db.aggregate w).activation
      (db'.aggregate w).activation := by
  by_cases hw : claim.row.id = w
  · subst hw
    rw [if_pos rfl]
    obtain ⟨l, g, r, hl, -, -, hstep, hsteps⟩ := h.commit
    obtain ⟨a, ha, hcommitted⟩ := hstep.commits_activation hl
    have hafter : (db'.aggregate claim.row.id).activation = some ⟨0, a.limit, false⟩ := by
      rcases hsteps.activation fun _ => Label.accompanies_neutral with hsame | ⟨hnone, -⟩
      · exact hsame.trans hcommitted
      · rw [hcommitted] at hnone
        cases hnone
    rw [ha, hafter]
    exact .some a nofun
  · rw [if_neg hw]
    exact (h.other w (Ne.symm hw)).moves fun _ => Label.accompanies_neutral

theorem FailsActivation.moves {claim : ClaimedRow} {config : CoordinatorConfig}
    (h : FailsActivation config claim db db') (w : WorkflowId) :
    Moves (if claim.row.id = w then .failed config.maxActivationAttempts else .untouched)
      (db.aggregate w).activation (db'.aggregate w).activation := by
  by_cases hw : claim.row.id = w
  · subst hw
    rw [if_pos rfl]
    obtain ⟨r, r', e, hr, hfails, -, -, -, hself, -⟩ := h.failure
    have hrunning : r.status ≠ .failed := by
      rw [hr.running]
      nofun
    have hafter : r'.activation = r.activation.after (.failed config.maxActivationAttempts) := by
      ext1
      · exact hfails.attempts
      · exact hfails.limit
      · change (r'.status == .failed) = r.exhausts config
        rw [hfails.status]
        cases r.exhausts config <;> rfl
    rw [activation_of_row hr.stored, hself, activation_of_row rfl, hafter]
    refine .some _ fun _ _ => ?_
    rw [WorkflowRow.activation_of_ne hrunning]
  · rw [if_neg hw]
    refine (h.parents w (Ne.symm hw)).moves ?_
    rintro _ rfl
    exact ⟨rfl, nofun⟩

/-- **Step theorem**: what a successful action does to the counter of every
workflow. -/
theorem exec_activation (h : s.Inv) (hok : exec externals s action = .ok s') (w : WorkflowId) :
    Moves (action.effect s w) (s.db.aggregate w).activation (s'.db.aggregate w).activation := by
  by_cases hcommit : ∃ i config transition now, action = .commit i config transition now
  · obtain ⟨i, config, transition, now, rfl⟩ := hcommit
    obtain ⟨claim, event, hi, -, hc⟩ := exec_commit_ok h hok
    simpa [Action.effect, hi] using hc.moves w
  by_cases hfail : ∃ i config message now, action = .failActivation i config message now
  · obtain ⟨i, config, message, now, rfl⟩ := hfail
    obtain ⟨claim, hi, hf⟩ := exec_failActivation_ok h hok
    simpa [Action.effect, hi] using hf.moves w
  rw [Action.effect_of_ne hcommit hfail]
  refine ((exec_leads h hok).evolves.steps w).moves fun l hl => ⟨?_, ?_⟩
  · by_contra hl'
    exact hcommit (Action.eq_commit hl.1 (by simpa using hl'))
  · rintro rfl
    exact hfail (Action.eq_failActivation hl.1)

end Actions

section Frame

/-- The tables beside those of the workflows and their events. -/
def DB.beside (db : DB) : Table ActivityRow × (ActivityId → ℕ → Option ActivityAttemptRow) ×
    Table ApprovalRow × Table ScheduleRunRow × (String → Option TopicLockRow) ×
    List ProgressEventRow :=
  (db.activities, db.attempts, db.approvals, db.scheduleRuns, db.topicLocks, db.progress)

theorem keeps_selectRows {f : DB → α} {p : WorkflowRow → Bool} :
    Keeps f (selectRows workflowTable p : Tx (List WorkflowRow)) := fun _ => rfl

theorem keeps_findRow {f : DB → α} {i : ℕ} :
    Keeps f (findRow workflowTable i : Tx (Option WorkflowRow)) := fun _ => rfl

theorem keeps_fencedUpdate {f : DB → α} {i : ℕ} {p : WorkflowRow → Bool}
    {g : WorkflowRow → WorkflowRow} {hg} (h : ∀ t db, f (workflowTable.set t db) = f db) :
    Keeps f (fencedUpdate workflowTable i p g hg) := by
  refine .bind (fun db => ?_) fun _ => .ensure _ _
  rw [wp_updateRow]
  exact ⟨fun _ _ _ => h _ _, fun _ => rfl⟩

theorem keeps_appendEvent {f : DB → α} (h : ∀ events db, f { db with events := events } = f db)
    (e : WorkflowEventRow) : Keeps f (appendEvent e) :=
  .bind .read fun _ => .bind (.ensure _ _) fun _ => .bind (.ensure _ _) fun _ =>
    .modify fun db => h _ db

theorem keeps_nextEventSequence {f : DB → α} (w : WorkflowId) : Keeps f (nextEventSequence w) :=
  .bind .read fun _ => .orAbort _ _

theorem beside_fencedUpdate {i : ℕ} {p : WorkflowRow → Bool} {f : WorkflowRow → WorkflowRow} {hf} :
    Keeps DB.beside (fencedUpdate workflowTable i p f hf) :=
  keeps_fencedUpdate fun _ _ => rfl

theorem beside_appendEvent (e : WorkflowEventRow) : Keeps DB.beside (appendEvent e) :=
  keeps_appendEvent (fun _ _ => rfl) e

/-- What a woken parent leaves alone: its event and an update that keeps the error texts do. -/
theorem keeps_wakeLoadedParentOnChildTerminal {f : DB → α} {parent : WorkflowRow} {c : WorkflowId}
    {kind : String} {version : ℤ} {outcome : ChildOutcome} {now : DbMillis}
    (hdelivers : ∀ n eventType event,
      Keeps f (appendDelivery parent.id n eventType event .system none none now))
    (hupdates : ∀ (p : WorkflowRow → Bool) (g : WorkflowRow → WorkflowRow) (hg),
      (∀ r, (g r).errorCategory = r.errorCategory ∧ (g r).errorMessage = r.errorMessage) →
        Keeps f (fencedUpdate workflowTable parent.id p g hg)) :
    Keeps f (wakeLoadedParentOnChildTerminal parent c kind version outcome now) := by
  unfold wakeLoadedParentOnChildTerminal
  dsimp only
  split
  all_goals
    refine .bind (by first | exact .ofExcept _ | exact .pure _) fun wait => .ite ?_ (.pure _)
    exact .bind (.ofExcept _) fun _ => .bind (.orAbort _ _) fun _ =>
      .bind (hdelivers _ _ _) fun _ => hupdates _ _ _ fun _ => ⟨rfl, rfl⟩

theorem beside_wakeLoadedParentOnChildTerminal {parent : WorkflowRow} {c : WorkflowId}
    {kind : String} {version : ℤ} {outcome : ChildOutcome} {now : DbMillis} :
    Keeps DB.beside (wakeLoadedParentOnChildTerminal parent c kind version outcome now) :=
  keeps_wakeLoadedParentOnChildTerminal (fun _ _ _ =>
    .bind (keeps_nextEventSequence _) fun _ => beside_appendEvent _) fun _ _ _ _ =>
      beside_fencedUpdate

theorem beside_recordActivationFailure {config : CoordinatorConfig} {claim : ClaimedRow}
    {message : String} {now : DbMillis} :
    Keeps DB.beside (recordActivationFailure externals config claim message now) := by
  refine .bind keeps_findRow fun _ => .bind (.orAbort _ _) fun current => .bind (.ofExcept _)
    fun _ => .bind (.ofExcept _) fun _ => .bind beside_fencedUpdate fun _ => .bind ?_ fun _ =>
    .onlyIf ?_
  · exact .bind (keeps_nextEventSequence _) fun _ => beside_appendEvent _
  · exact .bind keeps_selectRows fun _ => .forEach fun _ => beside_wakeLoadedParentOnChildTerminal

/-- What an activation failure of `w` leaves alone: everything but the columns
that record it, its history, and the parents that wait for `w` if it was the
last failure. -/
structure ActivationFailureFrame (w : WorkflowId) (db db' : DB) : Prop where
  row : ∀ r r', db.workflows.find w = some r → db'.workflows.find w = some r' →
    r'.deliveredEventSequence = r.deliveredEventSequence ∧
    r'.commandSequence = r.commandSequence ∧ r'.stateJson = r.stateJson ∧
    r'.stateVersion = r.stateVersion
  events : ∃ e, e.deliverySequence = none ∧ db'.eventsOf w = db.eventsOf w ++ [e]
  other : ∀ w', w' ≠ w →
    ¬((∃ r', db'.workflows.find w = some r' ∧ r'.status = .failed) ∧
      (db.aggregate w').AwaitsChild w) →
    db'.workflows.find w' = db.workflows.find w' ∧ db'.eventsOf w' = db.eventsOf w'
  beside : db'.beside = db.beside

theorem FailsActivation.frame {claim : ClaimedRow} {config : CoordinatorConfig}
    (h : FailsActivation config claim db db') (hbeside : db'.beside = db.beside) :
    ActivationFailureFrame claim.row.id db db' := by
  obtain ⟨r, r', e, hr, hfails, -, he, -, hself, hother⟩ := h.failure
  have hrow : db'.workflows.find claim.row.id = some r' := congrArg Aggregate.row hself
  refine ⟨fun r₁ r₂ hr₁ hr₂ => ?_, ⟨e, he.delivers, congrArg Aggregate.events hself⟩,
    fun w hw hnot => ?_, hbeside⟩
  · obtain rfl := Option.some_inj.mp (hr.stored.symm.trans hr₁)
    obtain rfl := Option.some_inj.mp (hrow.symm.trans hr₂)
    exact ⟨hfails.delivered, hfails.command, hfails.stateJson, hfails.stateVersion⟩
  · have hsame : db'.aggregate w = db.aggregate w := by
      refine hother w hw fun ⟨hexhausts, hawaits⟩ => hnot ⟨⟨r', hrow, ?_⟩, hawaits⟩
      rw [hfails.status, if_pos hexhausts]
    exact ⟨congrArg Aggregate.row hsame, congrArg Aggregate.events hsame⟩

end Frame

section Runs

/-- The effects of a run on the counter of `w`; a failed action has none. -/
def effects (externals : Externals) (w : WorkflowId) (actions : List Action) :
    List ActivationEffect :=
  Machine.collect (exec externals)
    (fun s action => [if (exec externals s action).isOk then action.effect s w else .untouched])
    Sys.init actions

/-- The configured maxima of the failures since the last commit. -/
def failuresSince (history : List ActivationEffect) : List ℕ :=
  history.foldl (fun failures effect => match effect with
    | .failed configured => failures ++ [configured]
    | .committed => []
    | .untouched => failures) []

/-- What the counter of a workflow says about the failures since its last
commit. -/
structure Activation.Counts (a : Activation) (failures : List ℕ) : Prop where
  limit : a.limit = defaultMaxActivationAttempts
  attempts : a.attempts = failures.length
  bounded : a.attempts ≤ a.limit
  left : a.failed = false → a.attempts < a.limit
  exact : ∀ m, 0 < m → (∀ m' ∈ failures, m' = m) →
    failures.length ≤ min a.limit m ∧ (a.failed = true ↔ failures.length = min a.limit m)

/-- A workflow that does not exist has no failures. -/
def Counts : Option Activation → List ℕ → Prop
  | some a, failures => a.Counts failures
  | none, failures => failures = []

theorem Activation.Counts.fresh : Activation.fresh.Counts [] where
  limit := rfl
  attempts := rfl
  bounded := Nat.zero_le _
  left _ := by decide
  exact m hm _ := by
    refine ⟨Nat.zero_le _, nofun, fun h => ?_⟩
    have : 0 < min Activation.fresh.limit m := lt_min (by decide) hm
    exact absurd h this.ne

theorem Activation.Counts.committed {a : Activation} {failures : List ℕ} (h : a.Counts failures) :
    (a.after .committed).Counts [] := by
  have hfresh : a.after .committed = .fresh := congrArg (Activation.mk 0 · false) h.limit
  rw [hfresh]
  exact .fresh

/-- One more failure of a row that did not fail. -/
theorem Activation.Counts.failed {a : Activation} {failures : List ℕ} {configured : ℕ}
    (h : a.Counts failures) (hopen : a.failed = false) :
    (a.after (.failed configured)).Counts (failures ++ [configured]) := by
  have hlt := h.left hopen
  have hlimit := h.limit
  have hroom : a.limit ≤ I32.max := by
    rw [hlimit]
    decide
  have hattempts : I32.saturatingAdd a.attempts 1 = a.attempts + 1 :=
    I32.saturatingAdd_of_le (by omega)
  have hclamp : min a.limit (I32.clamp configured) = min a.limit configured := by
    unfold I32.clamp
    omega
  have hafter : a.after (.failed configured) =
      ⟨a.attempts + 1, a.limit, decide (min a.limit configured ≤ a.attempts + 1)⟩ := by
    rw [Activation.after, hattempts, hclamp]
  rw [hafter]
  refine ⟨hlimit, ?_, hlt, fun hleft => ?_, fun m hm hall => ?_⟩
  · rw [List.length_append, List.length_singleton, ← h.attempts]
  · have := of_decide_eq_false hleft
    dsimp only
    omega
  · obtain ⟨hbefore, hlast⟩ := List.forall_mem_append.mp hall
    obtain rfl := hlast configured (List.mem_singleton.mpr rfl)
    obtain ⟨hle, hiff⟩ := h.exact configured hm hbefore
    have hne : failures.length ≠ min a.limit configured := fun heq => by
      rw [hiff.mpr heq] at hopen
      cases hopen
    have hcount := h.attempts
    rw [List.length_append, List.length_singleton, decide_eq_true_eq]
    dsimp only
    omega

/-- The counter goes on counting. -/
theorem Moves.counts {effect : ActivationEffect} {o o' : Option Activation}
    {history : List ActivationEffect} (h : Moves effect o o')
    (hcounts : Counts o (failuresSince history)) :
    Counts o' (failuresSince (history ++ [effect])) := by
  unfold failuresSince at hcounts ⊢
  rw [List.foldl_append, List.foldl_cons, List.foldl_nil]
  cases h with
  | some a hopen =>
    cases effect with
    | failed configured => exact Activation.Counts.failed hcounts (hopen configured rfl)
    | committed => exact Activation.Counts.committed hcounts
    | untouched => exact hcounts
  | none heffect =>
    subst heffect
    exact hcounts
  | inserted heffect =>
    subst heffect
    change Activation.fresh.Counts _
    rw [show List.foldl _ [] history = [] from hcounts]
    exact .fresh

theorem run_counts (externals : Externals) (actions : List Action) (w : WorkflowId) :
    Counts ((run externals Sys.init actions).db.aggregate w).activation
      (failuresSince (effects externals w actions)) := by
  refine run_history (P := fun s history =>
    Counts (s.db.aggregate w).activation (failuresSince history)) (fun s history action h hP => ?_)
    .init rfl actions
  cases hexec : exec externals s action with
  | error e =>
    rw [step, Machine.step_of_error hexec]
    change Counts _ (failuresSince (history ++ [.untouched]))
    simpa [failuresSince] using hP
  | ok s' =>
    rw [step, Machine.step_of_ok hexec]
    exact (exec_activation h hexec w).counts hP

/-- **Activation attempts** in every run. The counter of a workflow never
exceeds its limit. A successful action adds one to it exactly if it records an
activation failure of the workflow, resets it exactly if it commits a
transition of the workflow, and otherwise leaves it alone. A failure leaves
everything else alone. While every failure since the last commit was recorded
under the maximum `m`, the workflow has failed exactly if there were
`min limit m` of them. -/
theorem run_activationAttempts (externals : Externals) (actions : List Action) (w : WorkflowId) :
    let s := run externals Sys.init actions
    (∀ r, s.db.workflows.find w = some r → r.activationAttempts ≤ r.maxActivationAttempts) ∧
    (∀ action s' r r', exec externals s action = .ok s' → s.db.workflows.find w = some r →
      s'.db.workflows.find w = some r' →
      r'.activationAttempts = match action.effect s w with
        | .failed _ => r.activationAttempts + 1
        | .committed => 0
        | .untouched => r.activationAttempts) ∧
    (∀ i config message now s' claim, s.workflowClaims[i]? = some claim → claim.row.id = w →
      exec externals s (.failActivation i config message now) = .ok s' →
      ActivationFailureFrame w s.db s'.db) ∧
    ∀ r m, s.db.workflows.find w = some r → 0 < m →
      (∀ m' ∈ failuresSince (effects externals w actions), m' = m) →
      r.activationAttempts = (failuresSince (effects externals w actions)).length ∧
      r.activationAttempts ≤ min r.maxActivationAttempts m ∧
      (r.status = .failed ↔ r.activationAttempts = min r.maxActivationAttempts m) := by
  intro s
  have hinv : s.Inv := run_inv externals actions
  have hcounts : Counts (s.db.aggregate w).activation (failuresSince (effects externals w actions)) :=
    run_counts externals actions w
  have hrow : ∀ r, s.db.workflows.find w = some r →
      r.activation.Counts (failuresSince (effects externals w actions)) := by
    intro r hr
    rwa [activation_of_row (g := s.db.aggregate w) hr] at hcounts
  refine ⟨fun r hr => (hrow r hr).bounded, fun action s' r r' hok hr hr' => ?_,
    fun i config message now s' claim hi hid hok => ?_, fun r m hr hm hall => ?_⟩
  · have hmoves := exec_activation hinv hok w
    rw [activation_of_row (g := s.db.aggregate w) hr,
      activation_of_row (g := s'.db.aggregate w) hr'] at hmoves
    have hc := hrow r hr
    generalize heffect : action.effect s w = effect at hmoves
    generalize hafter : some r'.activation = after at hmoves
    cases hmoves with
    | some _ hopen =>
      have hattempts := congrArg Activation.attempts (Option.some_inj.mp hafter)
      cases effect with
      | failed m =>
        have hlt : r.activationAttempts < r.maxActivationAttempts := hc.left (hopen m rfl)
        have hlimit : r.maxActivationAttempts = 8 := hc.limit
        refine hattempts.trans (I32.saturatingAdd_of_le (hlt.trans_le ?_))
        rw [hlimit]
        decide
      | committed => exact hattempts
      | untouched => exact hattempts
  · subst hid
    have hok' := hok
    rw [exec] at hok'
    obtain ⟨claim', hi', hfail⟩ := nth_bind_ok hok'
    obtain rfl := Option.some_inj.mp (hi.symm.trans hi')
    obtain ⟨_, db', hrecord, rfl⟩ := transact'_ok hfail
    obtain ⟨claim'', hi'', hfails⟩ := exec_failActivation_ok hinv hok
    obtain rfl := Option.some_inj.mp (hi.symm.trans hi'')
    exact hfails.frame (beside_recordActivationFailure.ok hrecord)
  · have hc := hrow r hr
    obtain ⟨hle, hiff⟩ := hc.exact m hm hall
    have hattempts : r.activationAttempts = _ := hc.attempts
    refine ⟨hattempts, hattempts ▸ hle, ?_⟩
    rw [hattempts]
    exact beq_iff_eq.symm.trans hiff

end Runs

end DurableWorkflows
