import DurableWorkflows.Engine.Activations
import DurableWorkflows.Engine.Flows
import DurableWorkflows.Engine.Reports

/-!
# Results and the steps they answer

A commit issues a step: an activity or a child, of a kind and a version. The result
that is delivered for it later names both again. They agree, except that an operator
can correct an activity, whose replacement has the version that is current then.

## Main definitions

- `IssuedStep`, `StepRecord`: the steps of a run, and the corrections of them
- `WorkflowEvent.step`: the step that a result names
- `DB.Traced`: the steps in a database are those on record

## Main results

- `run_stepResults`
-/

namespace DurableWorkflows

open Transaction Sys

variable {externals : Externals} {s s' : Sys} {db db' : DB} {g g' : Aggregate} {w : WorkflowId}
  {l : Label} {r r' : WorkflowRow} {action : Action} {now : DbMillis}

/-- The two steps whose results name a definition. -/
inductive StepKind
  | activity
  | child
  deriving DecidableEq

/-- A step of a workflow: its command, and the definition it names. -/
structure IssuedStep where
  workflowId : WorkflowId
  command : ℕ
  stepKind : StepKind
  kind : String
  version : ℤ
  deriving DecidableEq

/-- The step that a transition issues. -/
def StoredTransition.issues (w : WorkflowId) (n : ℕ) : StoredTransition → Option IssuedStep
  | .runActivity _ activity => some ⟨w, n, .activity, activity.kind, activity.version⟩
  | .runChild _ child => some ⟨w, n, .child, child.kind, child.version⟩
  | .sleepUntil .. | .waitForApproval .. | .continue _ | .complete _ => none

/-- What an action puts on record: the step that a commit issues, or the step that an operator
puts in the place of one. -/
inductive StepRecord
  | issued (step : IssuedStep)
  | corrected (step : IssuedStep)
  deriving DecidableEq

/-- The step of an activity. -/
def ActivityRow.step (act : ActivityRow) : IssuedStep :=
  ⟨act.workflowId, act.commandSequence, .activity, act.kind, act.version⟩

/-- The step that a correction puts in the place of an activity. -/
def ActivityRow.correctedStep (registry : ActivityRegistry) (source : ActivityRow) :
    Option IssuedStep :=
  (registry.currentVersion source.kind).map fun version => { source.step with version }

/-- What a successful action puts on record. -/
def stepRecord (externals : Externals) (s : Sys) (action : Action) : List StepRecord :=
  match action, exec externals s action with
  | .commit i _ transition _, .ok _ =>
    (s.activations[i]?.bind fun x => transition.issues x.1.row.id x.1.command).toList.map .issued
  | .retry registry a (some _) _ _, .ok _ =>
    ((s.db.activities.find a).bind (·.correctedStep registry)).toList.map .corrected
  | _, _ => []

/-- The record of a run. -/
def stepRecords (externals : Externals) (actions : List Action) : List StepRecord :=
  Machine.collect (exec externals) (stepRecord externals) Sys.init actions

/-- The step that an event of `w` answers, with the definition that it names. -/
def WorkflowEvent.step (w : WorkflowId) : WorkflowEvent → Option IssuedStep
  | .activitySucceeded n result => some ⟨w, n, .activity, result.kind, result.version⟩
  | .childSucceeded n result => some ⟨w, n, .child, result.kind, result.version⟩
  | .childFailed n kind version _ _ => some ⟨w, n, .child, kind, version⟩
  | .started | .timerFired _ | .approvalResolved .. | .approvalExpired _ | .continued => none

/-- The name under which a flow asks for a step. -/
def IssuedStep.journalKind (step : IssuedStep) : String :=
  match step.stepKind with
  | .activity => s!"activity:{step.kind}"
  | .child => s!"child:{step.kind}"

/-- The steps of a database are those on record. -/
structure DB.Traced (records : List StepRecord) (db : DB) : Prop where
  /-- A command issues one step. -/
  unique : ∀ x y, .issued x ∈ records → .issued y ∈ records → x.workflowId = y.workflowId →
    x.command = y.command → x = y
  /-- The commands on record are those that a workflow counts. -/
  counted : ∀ x, .issued x ∈ records →
    ∃ r, db.workflows.find x.workflowId = some r ∧ x.command ≤ r.commandSequence
  /-- An activity is of the kind that was issued, and of its version unless it was corrected. -/
  activities : ∀ a act, db.activities.find a = some act → .issued act.step ∈ records ∨
    .corrected act.step ∈ records ∧ ∃ version, .issued { act.step with version } ∈ records
  /-- A child is of the definition that was issued. -/
  reported : db.Reported fun w n _ kind version => .issued ⟨w, n, .child, kind, version⟩ ∈ records

-- ════════════════════════════════════════════════════════════════════════
-- Activities
-- ════════════════════════════════════════════════════════════════════════

section Activities

variable {a : ActivityId} {act act' : ActivityRow}

/-- Every activity was there before, with the same step. -/
def Aggregate.KeepsSteps (g g' : Aggregate) : Prop :=
  ∀ a act', g'.activities a = some act' → ∃ act, g.activities a = some act ∧ act'.step = act.step

namespace Aggregate.KeepsSteps

theorem of_eq (h : g'.activities = g.activities) : g.KeepsSteps g' := fun _ act' ha' =>
  ⟨act', h ▸ ha', rfl⟩

theorem of_set (ha : g.activities a = some act)
    (hset : g'.activities = Function.update g.activities a (some act')) (h : act'.step = act.step) :
    g.KeepsSteps g' := by
  intro b act₁ hb
  rw [hset] at hb
  by_cases hba : b = a
  · subst hba
    rw [Function.update_self] at hb
    obtain rfl := Option.some_inj.mp hb
    exact ⟨act, ha, h⟩
  · rw [Function.update_of_ne hba] at hb
    exact ⟨act₁, hb, rfl⟩

theorem of_map {f : ActivityRow → ActivityRow} (h : ∀ act : ActivityRow, (f act).step = act.step)
    (hmap : g'.activities = fun a => (g.activities a).map f) : g.KeepsSteps g' := by
  intro a act' ha'
  rw [hmap] at ha'
  obtain ⟨act, ha, rfl⟩ := Option.map_eq_some_iff.mp ha'
  exact ⟨act, ha, h act⟩

theorem trans {g'' : Aggregate} (h : g.KeepsSteps g') (h' : g'.KeepsSteps g'') :
    g.KeepsSteps g'' := by
  intro a act'' ha''
  obtain ⟨act', ha', hstep'⟩ := h' a act'' ha''
  obtain ⟨act, ha, hstep⟩ := h a act' ha'
  exact ⟨act, ha, hstep'.trans hstep⟩

end Aggregate.KeepsSteps

/-- The steps that add no activity. -/
def Label.addsNoActivity : Label → Bool
  | .waited (.activity _) | .retried .. => false
  | _ => true

theorem ActivityRow.step_cancelledBy {outcome : AttemptOutcome} {reason : String} :
    (act.cancelledBy outcome reason now).step = act.step := by
  unfold ActivityRow.cancelledBy
  split <;> rfl

theorem ActivityRow.step_discarded : (act.discarded now).step = act.step := by
  unfold ActivityRow.discarded
  split <;> rfl

theorem Step.keepsSteps (h : Step g l g') (hl : l.addsNoActivity = true) : g.KeepsSteps g' := by
  cases h with
  | inserted | history | claimed | recovered | continued | completed | slept | waitedApproval
  | waitedChild | activationFailed | answered | answeredApproval | reattached | paused
  | resumed => exact .of_eq rfl
  | waitedActivity | retried => cases hl
  | revoked _ _ _ ha | activityClaimed _ _ _ ha | quarantined _ _ _ ha =>
    exact .of_set ha rfl rfl
  | cancelled => exact .of_map (fun _ => ActivityRow.step_cancelledBy) rfl
  | superseded | discarded => exact .of_map (fun _ => ActivityRow.step_discarded) rfl
  | renewed _ ha | succeeded _ _ _ ha | released _ ha | deadLettered _ _ _ ha | settled _ ha =>
    exact .of_set ha.stored rfl rfl

theorem Steps.keepsSteps {P : Label → Prop} (h : Steps P g g')
    (hP : ∀ l, P l → l.addsNoActivity = true) : g.KeepsSteps g' := by
  induction h with
  | refl => exact .of_eq rfl
  | tail _ hstep ih =>
    obtain ⟨l, hl, hstep⟩ := hstep
    exact ih.trans (hstep.keepsSteps (hP l hl))

/-- The activities are those that were there, and new ones of the step. -/
def DB.AddsActivities (db db' : DB) (step : IssuedStep) : Prop :=
  ∀ a act, db'.activities.find a = some act → db.activities.find a = some act ∨ act.step = step

/-- A statement on the workflows and their events adds none. -/
theorem DB.AddsActivities.frame {β : Type} {x : Tx β} {step : IssuedStep}
    (h : db.AddsActivities db' step) (hx : Keeps DB.beside x) :
    wp x (fun _ db'' => db.AddsActivities db'' step) (fun _ => True) db' := by
  refine wp_imp (hx db') fun _ db'' hbeside a act ha => h a act ?_
  rwa [show db''.activities = db'.activities from congrArg Prod.fst hbeside] at ha

theorem wp_insertActivity_adds {row : ActivityRow} :
    wp (insertActivity row) (fun _ db' => db.AddsActivities db' row.step) (fun _ => True) db := by
  simp only [insertActivity, wp_bind, wp_ensure, wp_selectRows, wp_insertRow]
  refine ⟨fun _ => ⟨fun _ => ⟨fun _ a act ha => ?_, fun _ => trivial⟩, fun _ => trivial⟩,
    fun _ => trivial⟩
  have hfind : (db.activities.insert (fun id => { row with id }) fun _ => rfl).find a = some act := ha
  rw [Table.find_insert] at hfind
  split at hfind
  · obtain rfl := Option.some_inj.mp hfind
    exact .inr rfl
  · exact .inl hfind

theorem beside_appendHistoryEvent {eventType : EventType} {actorType : ActorType}
    {actorId reason : Option String} {metadata : Option EventMetadata} :
    Keeps DB.beside (appendHistoryEvent w eventType actorType actorId reason metadata now) :=
  .bind (keeps_nextEventSequence _) fun _ => beside_appendEvent _

/-- A commit adds the activity of its command. -/
theorem wp_commitActivity_adds {claim : ClaimedRow} {delivered command : ℕ} {stateJson : String}
    {activity : ActivityCommand} :
    wp (commitActivity claim delivered command stateJson activity now)
      (fun _ db' => db.AddsActivities db'
        ⟨claim.row.id, command, .activity, activity.kind, activity.version⟩) (fun _ => True) db := by
  simp only [commitActivity, lockFence, wp_bind, wp_findRow, wp_ensure, wp_ofExcept]
  refine ⟨fun _ => ⟨fun row hrow => ?_, fun _ _ => trivial⟩, fun _ => trivial⟩
  have hnew := newActivityRow_ok hrow
  have hstep : row.step = ⟨claim.row.id, command, .activity, activity.kind, activity.version⟩ := by
    rw [ActivityRow.step, hnew.workflowId, hnew.command, hnew.kind, hnew.version]
  rw [← hstep]
  refine wp_imp wp_insertActivity_adds fun _ db₁ h₁ => ?_
  exact wp_imp (h₁.frame beside_fencedUpdate) fun _ db₂ h₂ => h₂.frame beside_appendHistoryEvent

/-- The step of the activity that a retry adds. -/
def ActivityRow.retriedStep (registry : ActivityRegistry) (source : ActivityRow) :
    Option String → Option IssuedStep
  | some _ => source.correctedStep registry
  | none => some source.step

/-- A retry adds an activity of the step it replaces, or of its correction. -/
theorem wp_retry_adds {registry : ActivityRegistry} {a : ActivityId} {correction : Option String}
    {operator : Operator} :
    wp (retry registry a correction operator now) (fun _ db' => ∃ source step,
      db.activities.find a = some source ∧ db.AddsActivities db' step ∧
        source.retriedStep registry correction = some step) (fun _ => True) db := by
  simp only [retry, lockWorkflow, wp_bind, wp_findRow, wp_orAbort, wp_ensure, wp_ofExcept]
  refine ⟨fun source hsource => ⟨fun workflow _ => ⟨fun _ _ => ⟨fun _ => ⟨fun _ _ =>
    ⟨fun command hcommand => ⟨fun row hrow => ?_, fun _ _ => trivial⟩, fun _ _ => trivial⟩,
    fun _ => trivial⟩, fun _ => trivial⟩, fun _ _ => trivial⟩, fun _ => trivial⟩, fun _ => trivial⟩
  have hnew := newActivityRow_ok hrow
  have hstep : source.retriedStep registry correction = some row.step := by
    cases correction with
    | some payload =>
      obtain ⟨hkind, hversion⟩ := prepareCommandCurrent_ok hcommand
      simp [ActivityRow.retriedStep, ActivityRow.correctedStep, ActivityRow.step, hversion,
        hnew.workflowId, hnew.command, hnew.kind, hnew.version, hkind]
    | none =>
      obtain ⟨hkind, hversion⟩ := prepareCommandExact_ok hcommand
      simp [ActivityRow.retriedStep, ActivityRow.step, hversion, hnew.workflowId, hnew.command,
        hnew.kind, hnew.version, hkind]
  refine wp_imp wp_insertActivity_adds fun _ db₁ h₁ => ?_
  refine wp_imp (h₁.frame beside_fencedUpdate) fun _ db₂ h₂ => ?_
  exact wp_imp (h₂.frame beside_appendHistoryEvent) fun _ db₃ h₃ =>
    ⟨source, row.step, hsource, h₃, hstep⟩

end Activities

-- ════════════════════════════════════════════════════════════════════════
-- Commands
-- ════════════════════════════════════════════════════════════════════════

theorem stepRecord_of_error {e : DurableError} (h : exec externals s action = .error e) :
    stepRecord externals s action = [] := by
  unfold stepRecord
  split
  · rename_i heq
    cases h.symm.trans heq
  · rename_i heq
    cases h.symm.trans heq
  · rfl

theorem stepRecord_commit {i : ℕ} {config : CoordinatorConfig} {transition : StoredTransition}
    (h : exec externals s (.commit i config transition now) = .ok s') :
    stepRecord externals s (.commit i config transition now) =
      (s.activations[i]?.bind fun x =>
        transition.issues x.1.row.id x.1.command).toList.map .issued := by
  unfold stepRecord
  rw [h]

theorem stepRecord_correction {registry : ActivityRegistry} {a : ActivityId} {payload : String}
    {operator : Operator}
    (h : exec externals s (.retry registry a (some payload) operator now) = .ok s') :
    stepRecord externals s (.retry registry a (some payload) operator now) =
      ((s.db.activities.find a).bind (·.correctedStep registry)).toList.map .corrected := by
  unfold stepRecord
  rw [h]

/-- A step on record was issued by a commit. -/
theorem commit_of_issued {x : IssuedStep} (hx : .issued x ∈ stepRecord externals s action) :
    ∃ i config transition now claim event, action = .commit i config transition now ∧
      s.activations[i]? = some (claim, event) ∧
      transition.issues claim.row.id claim.command = some x := by
  unfold stepRecord at hx
  split at hx
  · rename_i i config transition now _ _
    obtain ⟨y, hy, heq⟩ := List.mem_map.mp hx
    cases heq
    obtain ⟨⟨claim, event⟩, hi, hissues⟩ := Option.bind_eq_some_iff.mp (Option.mem_toList.mp hy)
    exact ⟨i, config, transition, now, claim, event, rfl, hi, hissues⟩
  · obtain ⟨y, -, heq⟩ := List.mem_map.mp hx
    cases heq
  · cases hx

/-- A step that is issued belongs to the command after those that its workflow counted. -/
theorem exec_issues {x : IssuedStep} (h : s.Inv) (hok : exec externals s action = .ok s')
    (hx : .issued x ∈ stepRecord externals s action) :
    ∃ r r', s.db.workflows.find x.workflowId = some r ∧
      s'.db.workflows.find x.workflowId = some r' ∧
      x.command = r.commandSequence + 1 ∧ x.command ≤ r'.commandSequence := by
  obtain ⟨i, config, transition, now, claim, event, rfl, hi, hissues⟩ := commit_of_issued hx
  obtain ⟨claim', event', hi', -, hc⟩ := exec_commit_ok h hok
  obtain ⟨rfl, rfl⟩ := Prod.mk.inj (Option.some_inj.mp (hi.symm.trans hi'))
  obtain ⟨r, hr⟩ := hc.held
  obtain ⟨l, g, r₁, -, hr₁, hwrites, hstep, hsteps⟩ := hc.commit
  have hx : x.workflowId = claim.row.id ∧ x.command = claim.command ∧ ∃ wait, l = .waited wait := by
    have hkind := hwrites.waitKind
    cases transition with
    | runActivity | runChild =>
      cases hissues
      cases l with
      | waited wait => exact ⟨rfl, rfl, wait, rfl⟩
      | _ => cases hkind
    | _ => cases hissues
  obtain ⟨hworkflow, hcommand, wait, rfl⟩ := hx
  obtain ⟨r', hr', hle⟩ := hsteps.command_le hr₁
  have hnext : claim.command = r.commandSequence + 1 := hr.command h.sound
  have hwaited : r₁.commandSequence = r.commandSequence + 1 :=
    hstep.commandSequence_of_waited hr.stored hr₁
  rw [hworkflow, hcommand]
  exact ⟨r, r', hr.stored, hr', hnext, by omega⟩

-- ════════════════════════════════════════════════════════════════════════
-- Actions
-- ════════════════════════════════════════════════════════════════════════

/-- Where the step of a stored activity comes from: from an activity that was there, from a
commit, or from the correction of an activity that was there. -/
inductive ActivityRow.Origin (records : List StepRecord) (db : DB) (act' : ActivityRow) : Prop
  | kept {b : ActivityId} {act : ActivityRow} (hb : db.activities.find b = some act)
      (hstep : act'.step = act.step)
  | issued (h : .issued act'.step ∈ records)
  | corrected {b : ActivityId} {act : ActivityRow} (hb : db.activities.find b = some act)
      (h : .corrected act'.step ∈ records)
      (hstep : act'.step = { act.step with version := act'.version })

section Origin

variable {records : List StepRecord} {a : ActivityId} {act' : ActivityRow}

theorem ActivityRow.Origin.of_steps (h : ∀ w, (db.aggregate w).KeepsSteps (db'.aggregate w))
    (ha : db'.activities.find a = some act') : act'.Origin records db := by
  obtain ⟨act, hact, hstep⟩ := h act'.workflowId a act' (activity_of_find ha)
  exact .kept (aggregate_activity.mp hact).1 hstep

theorem ActivityRow.Origin.of_adds {step : IssuedStep} (h : db.AddsActivities db' step)
    (ha : db'.activities.find a = some act') (hnew : act'.step = step → act'.Origin records db) :
    act'.Origin records db := by
  rcases h a act' ha with hold | hstep
  · exact .kept hold rfl
  · exact hnew hstep

/-- The activities after a commit. -/
theorem exec_commit_origin {i : ℕ} {config : CoordinatorConfig} {transition : StoredTransition}
    (h : s.Inv) (hok : exec externals s (.commit i config transition now) = .ok s')
    (ha : s'.db.activities.find a = some act') :
    act'.Origin (stepRecord externals s (.commit i config transition now)) s.db := by
  obtain ⟨claim, event, hi, hdelivery, hc⟩ := exec_commit_ok h hok
  cases htransition : transition with
  | runActivity stateJson activity =>
    subst htransition
    have hrecord : .issued ⟨claim.row.id, claim.command, .activity, activity.kind, activity.version⟩ ∈
        stepRecord externals s (.commit i config (.runActivity stateJson activity) now) := by
      rw [stepRecord_commit hok, hi]
      exact List.mem_singleton.mpr rfl
    rw [exec] at hok
    obtain ⟨⟨claim', event'⟩, hi', hok⟩ := nth_bind_ok hok
    obtain ⟨rfl, rfl⟩ := Prod.mk.inj (Option.some_inj.mp (hi.symm.trans hi'))
    obtain ⟨_, db', hcommit, rfl⟩ := transact'_ok hok
    have hadds : wp (commitOnConnection config claim event (.runActivity stateJson activity) now)
        (fun _ db' => s.db.AddsActivities db'
          ⟨claim.row.id, claim.command, .activity, activity.kind, activity.version⟩)
        (fun _ => True) s.db := by
      simp only [commitOnConnection, wp_bind, wp_orAbort]
      exact ⟨fun _ _ => wp_commitActivity_adds, fun _ => trivial⟩
    exact .of_adds (wp_ok hadds hcommit) ha fun hstep => .issued (hstep ▸ hrecord)
  | _ =>
    refine .of_steps (fun w => ?_) ha
    have haccompanies : ∀ l : Label, l.accompanies = true → l.addsNoActivity = true := by
      intro l hl
      cases l with
      | waited | retried => cases hl
      | _ => rfl
    by_cases hw : w = claim.row.id
    · subst hw
      obtain ⟨l, g, r, hcommits, -, hwrites, hstep, hsteps⟩ := hc.commit
      have hkind := hwrites.waitKind
      rw [htransition] at hkind
      refine .trans (hstep.keepsSteps ?_) (hsteps.keepsSteps haccompanies)
      cases l with
      | waited wait =>
        cases wait with
        | activity => cases hkind
        | _ => rfl
      | retried => cases hcommits
      | _ => rfl
    · exact (hc.other w hw).keepsSteps haccompanies

/-- The activities after a successful action. -/
theorem exec_origin (h : s.Inv) (hok : exec externals s action = .ok s')
    (ha : s'.db.activities.find a = some act') :
    act'.Origin (stepRecord externals s action) s.db := by
  have hleads := exec_leads h hok
  cases action with
  | commit => exact exec_commit_origin h hok ha
  | retry registry b correction operator now =>
    have htransact := hok
    rw [exec] at htransact
    obtain ⟨_, db', hretry, rfl⟩ := transact'_ok htransact
    obtain ⟨source, step, hsource, hadds, hretried⟩ := wp_ok wp_retry_adds hretry
    refine .of_adds hadds ha fun hstep => ?_
    cases correction with
    | none => exact .kept hsource (hstep.trans (Option.some_inj.mp hretried).symm)
    | some payload =>
      have hcorrected : source.correctedStep registry = some step := hretried
      refine .corrected hsource ?_ ?_
      · rw [stepRecord_correction hok, hsource, Option.bind_some, hcorrected, hstep]
        exact List.mem_singleton.mpr rfl
      · obtain ⟨version, -, hversion⟩ := Option.map_eq_some_iff.mp hcorrected
        rw [← hstep] at hversion
        have heq : act'.version = version := (congrArg IssuedStep.version hversion).symm
        rw [heq, ← hversion]
  | _ =>
    refine .of_steps (fun w => (hleads.evolves.steps w).keepsSteps fun l hl => ?_) ha
    have hpermits := hl.1
    cases l with
    | waited | retried => cases hpermits
    | _ => rfl

end Origin

-- ════════════════════════════════════════════════════════════════════════
-- Runs
-- ════════════════════════════════════════════════════════════════════════

namespace DB.Traced

variable {records : List StepRecord}

theorem empty : DB.empty.Traced [] where
  unique _ _ h := by cases h
  counted _ h := by cases h
  activities _ _ h := by cases h
  reported := .empty

/-- What an action adds to the record is the next command of its workflow, and so no other. -/
theorem issued_unique (h : s.db.Traced records) (hs : s.Inv) (hok : exec externals s action = .ok s')
    {x y : IssuedStep} (hx : .issued x ∈ records ++ stepRecord externals s action)
    (hy : .issued y ∈ records ++ stepRecord externals s action)
    (hworkflow : x.workflowId = y.workflowId) (hcommand : x.command = y.command) : x = y := by
  have hnew : ∀ {x y : IssuedStep}, .issued x ∈ records → .issued y ∈ stepRecord externals s action →
      x.workflowId = y.workflowId → x.command ≠ y.command := by
    intro x y hx hy hworkflow heq
    obtain ⟨r, hr, hle⟩ := h.counted x hx
    obtain ⟨r', -, hr', -, hnext, -⟩ := exec_issues hs hok hy
    rw [hworkflow] at hr
    obtain rfl := Option.some_inj.mp (hr.symm.trans hr')
    omega
  rcases List.mem_append.mp hx with hx | hx <;> rcases List.mem_append.mp hy with hy | hy
  · exact h.unique x y hx hy hworkflow hcommand
  · exact absurd hcommand (hnew hx hy hworkflow)
  · exact absurd hcommand.symm (hnew hy hx hworkflow.symm)
  · obtain ⟨i, config, transition, now, claim, event, rfl, hi, hissues⟩ := commit_of_issued hx
    obtain ⟨_, _, _, _, claim', event', heq, hi', hissues'⟩ := commit_of_issued hy
    cases heq
    obtain ⟨rfl, rfl⟩ := Prod.mk.inj (Option.some_inj.mp (hi.symm.trans hi'))
    exact Option.some_inj.mp (hissues.symm.trans hissues')

/-- Every successful action keeps the steps on record. -/
theorem after_exec (h : s.db.Traced records) (hs : s.Inv) (hok : exec externals s action = .ok s') :
    s'.db.Traced (records ++ stepRecord externals s action) where
  unique _ _ hx hy := h.issued_unique hs hok hx hy
  counted x hx := by
    rcases List.mem_append.mp hx with hx | hx
    · obtain ⟨r, hr, hle⟩ := h.counted x hx
      obtain ⟨r', hr', hle'⟩ := ((exec_leads hs hok).evolves.steps _).command_le hr
      exact ⟨r', hr', hle.trans hle'⟩
    · obtain ⟨-, r', -, hr', -, hle⟩ := exec_issues hs hok hx
      exact ⟨r', hr', hle⟩
  activities a act' ha := by
    cases exec_origin hs hok ha with
    | kept hb hstep =>
      rw [hstep]
      rcases h.activities _ _ hb with hissued | ⟨hcorrected, version, hissued⟩
      · exact .inl (List.mem_append_left _ hissued)
      · exact .inr ⟨List.mem_append_left _ hcorrected, version, List.mem_append_left _ hissued⟩
    | issued hissued => exact .inl (List.mem_append_right _ hissued)
    | @corrected b act hb hcorrected hstep =>
      refine .inr ⟨List.mem_append_right _ hcorrected, ?_⟩
      have hsame : ∀ version : ℤ, { act'.step with version } = { act.step with version } :=
        fun version => congrArg (fun x : IssuedStep => { x with version }) hstep
      rcases h.activities _ _ hb with hissued | ⟨-, version, hissued⟩
      · exact ⟨act.version, hsame act.version ▸ List.mem_append_left _ hissued⟩
      · exact ⟨version, hsame version ▸ List.mem_append_left _ hissued⟩
  reported := by
    refine (exec_reports hs hok ?_ (h.reported.mono fun _ _ _ _ _ => List.mem_append_left _)).reported
    rintro i config stateJson child now claim event c rfl hi -
    refine List.mem_append_right _ ?_
    rw [stepRecord_commit hok, hi]
    exact List.mem_singleton.mpr rfl

end DB.Traced

theorem run_traced (externals : Externals) (actions : List Action) :
    (run externals Sys.init actions).db.Traced (stepRecords externals actions) := by
  refine run_history (P := fun s records => s.db.Traced records) (fun s records action hs h => ?_)
    .init .empty actions
  cases hexec : exec externals s action with
  | error e =>
    rw [step, Machine.step_of_error hexec, stepRecord_of_error hexec, List.append_nil]
    exact h
  | ok s' =>
    rw [step, Machine.step_of_ok hexec]
    exact h.after_exec hs hexec

section Events

variable {e : WorkflowEventRow} {event : WorkflowEvent} {x : IssuedStep}

/-- An event that answers a step is the one that was stored. -/
theorem metadata_of_step (hevent : decodeEvent e = .ok event) (hx : event.step w = some x) :
    e.metadata = some (.event event) := by
  unfold decodeEvent at hevent
  split at hevent
  · cases hevent
    cases hx
  · cases hevent
    cases hx
  · split at hevent
    · rename_i hmetadata
      cases hevent
      exact hmetadata
    · cases hevent
    · cases hevent

/-- A flow that asks for the step again gets the outcome that the event recorded. -/
theorem replay_of_step (hx : event.step w = some x) : ∃ entry,
    event.entry x.command = .ok (some entry) ∧
    ∀ ctx : WfCtx, ctx.pending = none → ctx.steps[ctx.cursor]? = some entry →
      ctx.replay x.journalKind (some x.version) =
        (.ok (some entry.outcome), { ctx with cursor := ctx.cursor + 1 }) := by
  have hreplay : ∀ entry : JournalEntry, entry.stepKind = x.journalKind →
      entry.stepVersion = some x.version → ∀ ctx : WfCtx, ctx.pending = none →
      ctx.steps[ctx.cursor]? = some entry → ctx.replay x.journalKind (some x.version) =
        (.ok (some entry.outcome), { ctx with cursor := ctx.cursor + 1 }) := by
    intro entry hkind hversion ctx hpending hentry
    simp [WfCtx.replay, hpending, hentry, hkind, hversion]
  cases event with
  | activitySucceeded n result | childSucceeded n result =>
    cases hx
    exact ⟨_, by simp [WorkflowEvent.entry, ensureSequence]; rfl, hreplay _ rfl rfl⟩
  | childFailed n kind version category message =>
    cases hx
    exact ⟨_, by simp [WorkflowEvent.entry, ensureSequence]; rfl, hreplay _ rfl rfl⟩
  | _ => cases hx

/-- The step that a result in the log answers is on record. -/
theorem DB.Traced.answered {records : List StepRecord} (h : db.Traced records) (hs : db.Sound)
    (he : e ∈ db.events) (hevent : decodeEvent e = .ok event)
    (hx : event.step e.workflowId = some x) :
    .issued x ∈ records ∨ x.stepKind = .activity ∧ .corrected x ∈ records ∧
      ∃ version, .issued { x with version } ∈ records := by
  have hmetadata := metadata_of_step hevent hx
  cases event with
  | activitySucceeded n result =>
    cases hx
    have hmem : e ∈ (db.aggregate e.workflowId).events := List.mem_filter.mpr ⟨he, beq_self_eq_true _⟩
    have hresult : e.activityResult = some (n, result) := by
      rw [WorkflowEventRow.activityResult, hmetadata]
    cases hr : db.workflows.find e.workflowId with
    | none =>
      rw [hs.aggregate_of_none hr] at hmem
      cases hmem
    | some r =>
      obtain ⟨a, act, ha, -, rfl, hkind, hversion, -⟩ :=
        (hs.inv hr).results.result e hmem n result hresult
      obtain ⟨hfind, hworkflow⟩ := aggregate_activity.mp ha
      have hstep : act.step =
          ⟨e.workflowId, act.commandSequence, .activity, result.kind, result.version⟩ := by
        rw [ActivityRow.step, hworkflow, hkind, hversion]
      have hactivity := h.activities a act hfind
      rw [hstep] at hactivity
      exact hactivity.imp_right fun hcorrected => ⟨rfl, hcorrected⟩
  | childSucceeded n result =>
    cases hx
    obtain ⟨-, -, hissued, -⟩ :=
      h.reported.results e he n _ _ (by rw [WorkflowEventRow.childStep, hmetadata])
    exact .inl hissued
  | childFailed n kind version =>
    cases hx
    obtain ⟨-, -, hissued, -⟩ :=
      h.reported.results e he n _ _ (by rw [WorkflowEventRow.childStep, hmetadata])
    exact .inl hissued
  | _ => cases hx

end Events

/-- **Step results** in every run. A command issues one step. A result in the log of a workflow
names the step that its command issued, or an operator corrected that step, an activity: then it
has the kind of the step, and the version of the correction. A flow that asks again for the step
that the result names gets its outcome. -/
theorem run_stepResults (externals : Externals) (actions : List Action) :
    let s := run externals Sys.init actions
    let records := stepRecords externals actions
    (∀ x y, .issued x ∈ records → .issued y ∈ records → x.workflowId = y.workflowId →
      x.command = y.command → x = y) ∧
    ∀ e ∈ s.db.events, ∀ event x, decodeEvent e = .ok event →
      event.step e.workflowId = some x →
      (.issued x ∈ records ∨ x.stepKind = .activity ∧ .corrected x ∈ records ∧
        ∃ version, .issued { x with version } ∈ records) ∧
      ∃ entry, event.entry x.command = .ok (some entry) ∧
        ∀ ctx : WfCtx, ctx.pending = none → ctx.steps[ctx.cursor]? = some entry →
          ctx.replay x.journalKind (some x.version) =
            (.ok (some entry.outcome), { ctx with cursor := ctx.cursor + 1 }) := by
  intro s records
  have htraced : s.db.Traced records := run_traced externals actions
  have hsound : s.db.Sound := (run_inv externals actions).sound
  exact ⟨htraced.unique, fun e he event x hevent hx =>
    ⟨htraced.answered hsound he hevent hx, replay_of_step hx⟩⟩

namespace Sample

/-- A registry with a second version of the sample activity. -/
def newActivities : ActivityRegistry :=
  ⟨[⟨"a", 1, "t", 1, 10, 20, retryPolicy, fun payload => .ok payload⟩,
    ⟨"a", 2, "t", 1, 10, 20, retryPolicy, fun payload => .ok payload⟩]⟩

/-- An activity fails for good, is corrected, and then succeeds. -/
def correctedRun : List Action :=
  .start workflow ⟨none, none, none⟩ 0 :: activation 0 (.runActivity "null" activity) 0 ++
    claimActivity 0 ++ [.finish 0 (.permanent "error" "message") 0,
      .retry newActivities 1 (some "null") operator 0,
      .claimActivity newActivities topics ⟨fun _ => false, fun _ => false, fun _ => false⟩ "t"
        "worker" 0 0,
      .finish 1 (.succeeded ⟨"null", by decide⟩) 0]

/-- The command issued version 1 and the result names version 2, so a flow that asks for
version 1 again is rejected. -/
theorem correctedRun_differs :
    (¬∀ e ∈ (run Sample.externals Sys.init correctedRun).db.events, ∀ event x,
      decodeEvent e = .ok event → event.step e.workflowId = some x →
      .issued x ∈ stepRecords Sample.externals correctedRun) ∧
    ∃ message, ((⟨some 1, [⟨"activity:a", some 2, .succeeded "null"⟩], 0, none⟩ : WfCtx).replay
      "activity:a" (some 1)).1 = .error (.definition message) := by
  refine ⟨fun hall => ?_, _, rfl⟩
  have hrecords : stepRecords Sample.externals correctedRun =
      [.issued ⟨1, 1, .activity, "a", 1⟩, .corrected ⟨1, 1, .activity, "a", 2⟩] := by
    decide +kernel
  have hresults : (run Sample.externals Sys.init correctedRun).db.events.filterMap (fun e =>
      (decodeEvent e).toOption.bind (·.step e.workflowId)) = [⟨1, 1, .activity, "a", 2⟩] := by
    decide +kernel
  obtain ⟨e, he, hstep⟩ := List.mem_filterMap.mp (hresults ▸ List.mem_singleton_self _)
  obtain ⟨event, hevent, hx⟩ := Option.bind_eq_some_iff.mp hstep
  have hdecoded : decodeEvent e = .ok event := by
    cases hok : decodeEvent e with
    | error error =>
      rw [hok] at hevent
      cases hevent
    | ok event' =>
      rw [hok] at hevent
      cases hevent
      rfl
  have hissued := hall e he event _ hdecoded hx
  rw [hrecords] at hissued
  simp at hissued

end Sample

end DurableWorkflows
