import DurableWorkflows.Base.Pointers
import DurableWorkflows.Engine.EventLog

/-!
# Replaced activities

An operator's retry puts a new activity in the place of the dead-lettered one
its workflow is blocked on. The activities of one command form a chain: each
replaces the one before it, which stays dead, and only the last of them can
succeed.

## Main definitions

- `ActivityRow.Line`: a change of an activity that keeps its place in a chain
- `Aggregate.Replaced`: the chains of one workflow
- `DB.replaces`, `DB.ReplacementChains`: the chains of a database

## Main results

- `Step.lines`: a step keeps every activity in its place or adds one
- `run_replacements`
-/

namespace DurableWorkflows

open Pointers

variable {externals : Externals} {s s' : Sys} {db : DB} {g g' : Aggregate} {l : Label}
  {r : WorkflowRow} {a a' b : ActivityId} {act act' : ActivityRow} {action : Action}

/-- The statuses of an activity that can have been replaced. -/
def ActivityStatus.isDead : ActivityStatus → Bool
  | deadLettered | cancelled => true
  | pending | running | cancelling | succeeded => false

/-- A change of an activity that keeps its place in its chain. A dead one stays
as it is, unless its dead letter is discarded. -/
structure ActivityRow.Line (discards : Bool) (act act' : ActivityRow) : Prop where
  command : act'.commandSequence = act.commandSequence
  number : act'.replacementNumber = act.replacementNumber
  root : act'.rootActivityId = act.rootActivityId
  replaces : act'.replacesActivityId = act.replacesActivityId
  dead : act.status.isDead = true → act'.status = act.status ∨
    discards = true ∧ act'.status = .cancelled

section Line

variable {discards : Bool}

theorem ActivityRow.Line.refl (act : ActivityRow) : act.Line discards act :=
  ⟨rfl, rfl, rfl, rfl, fun _ => .inl rfl⟩

/-- A change of an activity that is not dead. -/
theorem ActivityRow.Line.of_live (hcommand : act'.commandSequence = act.commandSequence)
    (hnumber : act'.replacementNumber = act.replacementNumber)
    (hroot : act'.rootActivityId = act.rootActivityId)
    (hreplaces : act'.replacesActivityId = act.replacesActivityId)
    (hlive : act.status.isDead = false) : act.Line discards act' :=
  ⟨hcommand, hnumber, hroot, hreplaces, fun hdead => by simp [hlive] at hdead⟩

theorem ActivityRow.Line.cancelledBy {outcome : AttemptOutcome} {reason : String}
    {now : DbMillis} : act.Line discards (act.cancelledBy outcome reason now) := by
  unfold ActivityRow.cancelledBy
  split
  case h_1 hs | h_2 hs | h_3 hs => exact .of_live rfl rfl rfl rfl (by rw [hs]; rfl)
  all_goals exact .refl act

theorem ActivityRow.Line.discarded {now : DbMillis} : act.Line true (act.discarded now) := by
  unfold ActivityRow.discarded
  split
  · exact ⟨rfl, rfl, rfl, rfl, fun _ => .inr ⟨rfl, rfl⟩⟩
  · exact .refl act

/-- Every activity keeps its place, and there is no other. -/
def Aggregate.Lines (discards : Bool) (g g' : Aggregate) : Prop :=
  ∀ a, Option.Rel (ActivityRow.Line discards) (g.activities a) (g'.activities a)

theorem Aggregate.Lines.of_eq (h : g'.activities = g.activities) : g.Lines discards g' := by
  intro a
  rw [h]
  cases g.activities a with
  | none => exact .none
  | some act => exact .some (.refl act)

theorem Aggregate.Lines.of_set (ha : g.activities a = some act)
    (hset : g'.activities = Function.update g.activities a (some act'))
    (h : act.Line discards act') : g.Lines discards g' := by
  intro b
  rw [hset]
  by_cases hb : b = a
  · subst hb
    rw [ha, Function.update_self]
    exact .some h
  · rw [Function.update_of_ne hb]
    cases g.activities b with
    | none => exact .none
    | some act => exact .some (.refl act)

theorem Aggregate.Lines.of_map {f : ActivityRow → ActivityRow}
    (h : ∀ act : ActivityRow, act.Line discards (f act))
    (hmap : g'.activities = fun a => (g.activities a).map f) : g.Lines discards g' := by
  intro a
  rw [hmap]
  dsimp only
  cases g.activities a with
  | none => exact .none
  | some act => exact .some (h act)

theorem Aggregate.Lines.forward (h : g.Lines discards g') (ha : g.activities a = some act) :
    ∃ act', g'.activities a = some act' ∧ act.Line discards act' := by
  have hrel := h a
  rw [ha] at hrel
  generalize g'.activities a = o at hrel ⊢
  cases hrel with
  | some hline => exact ⟨_, rfl, hline⟩

theorem Aggregate.Lines.backward (h : g.Lines discards g') (ha : g'.activities a = some act') :
    ∃ act, g.activities a = some act ∧ act.Line discards act' := by
  have hrel := h a
  rw [ha] at hrel
  generalize g.activities a = o at hrel ⊢
  cases hrel with
  | some hline => exact ⟨_, rfl, hline⟩

end Line

/-- The first activity of a command. -/
structure Aggregate.AddsFirst (g g' : Aggregate) (a : ActivityId) (act : ActivityRow) : Prop where
  command : ∃ r, g.row = some r ∧ act.commandSequence = r.commandSequence + 1
  number : act.replacementNumber = 0
  root : act.rootActivityId = none
  replaces : act.replacesActivityId = none
  new : g.activities a = none
  set : g'.activities = Function.update g.activities a (some act)

/-- The replacement `a'` of the activity a workflow is blocked on. -/
structure Aggregate.AddsReplacement (g g' : Aggregate) (a : ActivityId) (act : ActivityRow)
    (a' : ActivityId) (act' : ActivityRow) : Prop where
  blocked : ∃ r, g.row = some r ∧ r.status = .blocked ∧ r.awaited = some (.activity a)
  stored : g.activities a = some act
  command : act'.commandSequence = act.commandSequence
  number : act'.replacementNumber = act.replacementNumber + 1
  root : act'.rootActivityId = some (act.rootActivityId.getD a)
  replaces : act'.replacesActivityId = some a
  new : g.activities a' = none
  set : g'.activities = Function.update g.activities a' (some act')

/-- A step keeps every activity in its place, or it adds the first activity of
a command or a replacement. -/
theorem Step.lines (h : Step g l g') :
    g.Lines l.discards g' ∨ (∃ a act, g.AddsFirst g' a act) ∨
      ∃ a act a' act', g.AddsReplacement g' a act a' act' := by
  cases h with
  | inserted | history | claimed | recovered | continued | completed | slept | waitedApproval
  | waitedChild | activationFailed | answered | answeredApproval | reattached | paused
  | resumed => exact .inl (.of_eq rfl)
  | waitedActivity hr _ hnone _ hcommand _ _ _ hfirst =>
    obtain ⟨hnumber, hroot, hreplaces⟩ := hfirst
    exact .inr (.inl ⟨_, _, ⟨_, hr, hcommand⟩, hnumber, hroot, hreplaces, hnone, rfl⟩)
  | retried hr hs hw ha hnone _ hcommand hnumber _ _ hroot hreplaces =>
    exact .inr (.inr ⟨_, _, _, _, ⟨_, hr, hs, hw⟩, ha, hcommand, hnumber, hroot, hreplaces, hnone,
      rfl⟩)
  | revoked _ _ _ ha hs | activityClaimed _ _ _ ha hs | quarantined _ _ _ ha hs =>
    exact .inl (.of_set ha rfl (.of_live rfl rfl rfl rfl (by rw [hs]; rfl)))
  | cancelled => exact .inl (.of_map (fun _ => .cancelledBy) rfl)
  | superseded | discarded => exact .inl (.of_map (fun _ => .discarded) rfl)
  | renewed _ ha hlease =>
    refine .inl (.of_set ha.stored rfl (.of_live rfl rfl rfl rfl ?_))
    generalize ActivityRow.status _ = status at hlease ⊢
    cases status <;> first | rfl | cases hlease
  | succeeded _ _ _ ha hs | released _ ha hs | deadLettered _ _ _ ha hs | settled _ ha hs =>
    exact .inl (.of_set ha.stored rfl (.of_live rfl rfl rfl rfl (by rw [hs]; rfl)))

/-- The chains of one workflow. -/
structure Aggregate.Replaced (g : Aggregate) : Prop where
  first : ∀ a act, g.activities a = some act → act.replacesActivityId = none →
    act.rootActivityId = none
  link : ∀ a act b, g.activities a = some act → act.replacesActivityId = some b →
    ∃ old, g.activities b = some old ∧ act.commandSequence = old.commandSequence ∧
      act.replacementNumber = old.replacementNumber + 1 ∧
      act.rootActivityId = some (old.rootActivityId.getD b) ∧ old.status.isDead = true
  key : ∀ a act a' act', g.activities a = some act → g.activities a' = some act' →
    act.commandSequence = act'.commandSequence → act.replacementNumber = act'.replacementNumber →
    a = a'

namespace Aggregate.Replaced

theorem empty : Aggregate.empty.Replaced where
  first _ _ h := by cases h
  link _ _ _ h := by cases h
  key _ _ _ _ h := by cases h

theorem lines {discards : Bool} (h : g.Replaced) (hlines : g.Lines discards g') : g'.Replaced where
  first a act' ha' hnone := by
    obtain ⟨act, ha, hline⟩ := hlines.backward ha'
    rw [hline.root]
    exact h.first a act ha (hline.replaces ▸ hnone)
  link a act' b ha' hb := by
    obtain ⟨act, ha, hline⟩ := hlines.backward ha'
    obtain ⟨old, hold, hcommand, hnumber, hroot, hdead⟩ := h.link a act b ha (hline.replaces ▸ hb)
    obtain ⟨old', hold', hline'⟩ := hlines.forward hold
    refine ⟨old', hold', ?_, ?_, ?_, ?_⟩
    · rw [hline.command, hline'.command, hcommand]
    · rw [hline.number, hline'.number, hnumber]
    · rw [hline.root, hline'.root, hroot]
    · rcases hline'.dead hdead with hsame | ⟨-, hcancelled⟩
      · rw [hsame, hdead]
      · rw [hcancelled]
        rfl
  key a act a' act' ha ha' hcommand hnumber := by
    obtain ⟨act₁, ha₁, hline⟩ := hlines.backward ha
    obtain ⟨act₂, ha₂, hline'⟩ := hlines.backward ha'
    rw [hline.command, hline'.command] at hcommand
    rw [hline.number, hline'.number] at hnumber
    exact h.key a act₁ a' act₂ ha₁ ha₂ hcommand hnumber

/-- A new activity whose key is free, and that replaces a dead one if any. -/
theorem add (h : g.Replaced) (hnew : g.activities a = none)
    (hset : g'.activities = Function.update g.activities a (some act))
    (hfree : ∀ b other, g.activities b = some other →
      other.commandSequence = act.commandSequence →
      other.replacementNumber ≠ act.replacementNumber)
    (hfirst : act.replacesActivityId = none → act.rootActivityId = none)
    (hlink : ∀ b, act.replacesActivityId = some b →
      ∃ old, g.activities b = some old ∧ act.commandSequence = old.commandSequence ∧
        act.replacementNumber = old.replacementNumber + 1 ∧
        act.rootActivityId = some (old.rootActivityId.getD b) ∧ old.status.isDead = true) :
    g'.Replaced := by
  have hself : g'.activities a = some act := by rw [hset, Function.update_self]
  have hother : ∀ b, b ≠ a → g'.activities b = g.activities b := fun b hb => by
    rw [hset, Function.update_of_ne hb]
  have hkept : ∀ b old, g.activities b = some old → g'.activities b = some old := by
    intro b old hb
    rw [hother b, hb]
    rintro rfl
    rw [hnew] at hb
    cases hb
  refine ⟨fun b other hb hnone => ?_, fun b other c hb hc => ?_, fun b x c y hb hc hcmd hnum => ?_⟩
  · by_cases hba : b = a
    · subst hba
      obtain rfl := Option.some_inj.mp (hself.symm.trans hb)
      exact hfirst hnone
    · exact h.first b other (hother b hba ▸ hb) hnone
  · have hold : ∃ old, g.activities c = some old ∧ other.commandSequence = old.commandSequence ∧
        other.replacementNumber = old.replacementNumber + 1 ∧
        other.rootActivityId = some (old.rootActivityId.getD c) ∧ old.status.isDead = true := by
      by_cases hba : b = a
      · subst hba
        obtain rfl := Option.some_inj.mp (hself.symm.trans hb)
        exact hlink c hc
      · exact h.link b other c (hother b hba ▸ hb) hc
    obtain ⟨old, hold, hrest⟩ := hold
    exact ⟨old, hkept c old hold, hrest⟩
  · by_cases hba : b = a
    · subst hba
      obtain rfl := Option.some_inj.mp (hself.symm.trans hb)
      by_contra hne
      exact hfree c y (hother c (Ne.symm hne) ▸ hc) hcmd.symm hnum.symm
    · by_cases hca : c = a
      · subst hca
        obtain rfl := Option.some_inj.mp (hself.symm.trans hc)
        exact absurd hnum (hfree b x (hother b hba ▸ hb) hcmd)
      · exact h.key b x c y (hother b hba ▸ hb) (hother c hca ▸ hc) hcmd hnum

end Aggregate.Replaced

/-- The activity a workflow is blocked on is dead-lettered, and the newest of
its command. -/
theorem Aggregate.AddsReplacement.source (h : g.AddsReplacement g' a act a' act')
    (hg : g.WellFormed) : act.status = .deadLettered ∧
      ∀ b other, g.activities b = some other → other.commandSequence = act.commandSequence →
        other.replacementNumber ≤ act.replacementNumber := by
  obtain ⟨r, hr, hs, hw⟩ := h.blocked
  obtain ⟨act₁, ha₁, hcommand, hstatus, hnewest⟩ :=
    (hg.inv hr).awaitedActivity (by rw [hs]; rfl) hw
  obtain rfl := Option.some_inj.mp (h.stored.symm.trans ha₁)
  rw [hs] at hstatus
  refine ⟨beq_iff_eq.mp hstatus, fun b other hb hsame => ?_⟩
  exact hnewest b other hb (hsame.trans hcommand)

theorem Step.replaced (h : Step g l g') (hg : g.WellFormed) (hI : g.Replaced) : g'.Replaced := by
  rcases h.lines with hlines | ⟨a, act, hadds⟩ | ⟨a, act, a', act', hadds⟩
  · exact hI.lines hlines
  · obtain ⟨r, hr, hcommand⟩ := hadds.command
    refine hI.add hadds.new hadds.set (fun b other hb hsame _ => ?_) (fun _ => hadds.root)
      fun b hb => ?_
    · -- the commands so far are smaller
      have hle : other.commandSequence ≤ r.commandSequence :=
        ((hg.inv hr).coupled b other hb).command_le
      omega
    · rw [hadds.replaces] at hb
      cases hb
  · obtain ⟨hdead, hnewest⟩ := hadds.source hg
    refine hI.add hadds.new hadds.set (fun b other hb hsame hnumber => ?_) (fun hnone => ?_)
      fun b hb => ?_
    · have hle := hnewest b other hb (hsame.trans hadds.command)
      have hnext := hadds.number
      omega
    · rw [hadds.replaces] at hnone
      cases hnone
    · rw [hadds.replaces] at hb
      obtain rfl := Option.some_inj.mp hb
      exact ⟨act, hadds.stored, hadds.command, hadds.number, hadds.root, by rw [hdead]; rfl⟩

/-- An activity that another one of the workflow replaces. -/
def Aggregate.IsReplaced (g : Aggregate) (b : ActivityId) : Prop :=
  ∃ a act, g.activities a = some act ∧ act.replacesActivityId = some b

/-- Without a discard of dead letters, a replaced activity is cancelled only if
it was replaced and cancelled before. -/
theorem Step.cancelled_replaced (h : Step g l g') (hg : g.WellFormed) (hI : g.Replaced)
    (hl : l.discards = false) (hb : g'.IsReplaced b) (hact' : g'.activities b = some act')
    (hcancelled : act'.status = .cancelled) :
    g.IsReplaced b ∧ ∃ act, g.activities b = some act ∧ act.status = .cancelled := by
  obtain ⟨a, replacing, ha, hreplaces⟩ := hb
  rcases h.lines with hlines | ⟨n, new, hadds⟩ | ⟨o, old, n, new, hadds⟩
  · obtain ⟨replacing₁, ha₁, hline⟩ := hlines.backward ha
    obtain ⟨act, hact, hline'⟩ := hlines.backward hact'
    have hreplaces₁ := hline.replaces ▸ hreplaces
    obtain ⟨old, hold, -, -, -, hdead⟩ := hI.link a replacing₁ b ha₁ hreplaces₁
    obtain rfl := Option.some_inj.mp (hact.symm.trans hold)
    refine ⟨⟨a, replacing₁, ha₁, hreplaces₁⟩, act, hact, ?_⟩
    rcases hline'.dead hdead with hsame | ⟨hdiscards, -⟩
    · exact hsame.symm.trans hcancelled
    · rw [hl] at hdiscards
      cases hdiscards
  · have hne : a ≠ n := by
      rintro rfl
      rw [hadds.set, Function.update_self] at ha
      obtain rfl := Option.some_inj.mp ha
      rw [hadds.replaces] at hreplaces
      cases hreplaces
    rw [hadds.set, Function.update_of_ne hne] at ha
    obtain ⟨act, hact, -⟩ := hI.link a replacing b ha hreplaces
    have hbn : b ≠ n := by
      rintro rfl
      rw [hadds.new] at hact
      cases hact
    rw [hadds.set, Function.update_of_ne hbn] at hact'
    exact ⟨⟨a, replacing, ha, hreplaces⟩, act', hact', hcancelled⟩
  · have hbn : b ≠ n ∧ (a = n → b = o) := by
      refine ⟨?_, ?_⟩
      · rintro rfl
        rw [hadds.set] at ha hact'
        by_cases han : a = b
        · subst han
          rw [Function.update_self] at ha
          obtain rfl := Option.some_inj.mp ha
          rw [hadds.replaces] at hreplaces
          obtain rfl := Option.some_inj.mp hreplaces
          have := hadds.stored
          rw [hadds.new] at this
          cases this
        · rw [Function.update_of_ne han] at ha
          obtain ⟨old', hold', -⟩ := hI.link a replacing b ha hreplaces
          rw [hadds.new] at hold'
          cases hold'
      · rintro rfl
        rw [hadds.set, Function.update_self] at ha
        obtain rfl := Option.some_inj.mp ha
        rw [hadds.replaces] at hreplaces
        exact (Option.some_inj.mp hreplaces).symm
    rw [hadds.set, Function.update_of_ne hbn.1] at hact'
    by_cases han : a = n
    · -- the activity that was just replaced is dead-lettered
      obtain rfl := hbn.2 han
      obtain rfl := Option.some_inj.mp (hadds.stored.symm.trans hact')
      rw [(hadds.source hg).1] at hcancelled
      cases hcancelled
    · rw [hadds.set, Function.update_of_ne han] at ha
      exact ⟨⟨a, replacing, ha, hreplaces⟩, act', hact', hcancelled⟩

theorem Steps.cancelled_replaced {P : Label → Prop} (h : Steps P g g') (hg : g.WellFormed)
    (hI : g.Replaced) (hP : ∀ l, P l → l.discards = false) (hb : g'.IsReplaced b)
    (hact' : g'.activities b = some act') (hcancelled : act'.status = .cancelled) :
    g.IsReplaced b ∧ ∃ act, g.activities b = some act ∧ act.status = .cancelled := by
  induction h generalizing act' with
  | refl => exact ⟨hb, act', hact', hcancelled⟩
  | tail hsteps hlast ih =>
    obtain ⟨l, hl, hlast⟩ := hlast
    have hwell := Steps.wellFormed hsteps hg
    have hI' := Steps.invariant (fun _ _ _ hg h => h.replaced hg) hsteps hg hI
    obtain ⟨hb₁, act₁, hact₁, hcancelled₁⟩ :=
      hlast.cancelled_replaced hwell hI' (hP l hl) hb hact' hcancelled
    exact ih hb₁ hact₁ hcancelled₁

/-- The activity that an activity replaces. -/
def DB.replaces (db : DB) (a : ActivityId) : Option ActivityId :=
  (db.activities.find a).bind (·.replacesActivityId)

/-- The chains of replaced activities. -/
structure DB.ReplacementChains (db : DB) : Prop where
  /-- A replacement follows the activity it replaces in the same command of the
  same workflow, which is dead; its root is the first activity of the chain. -/
  link : ∀ a act b, db.activities.find a = some act → act.replacesActivityId = some b →
    (∃ old, db.activities.find b = some old ∧ old.workflowId = act.workflowId ∧
      old.commandSequence = act.commandSequence ∧
      act.replacementNumber = old.replacementNumber + 1 ∧
      (old.status = .deadLettered ∨ old.status = .cancelled)) ∧
    ∃ root, act.rootActivityId = some root ∧ EndsAt db.replaces a root
  /-- An activity is replaced at most once. -/
  once : ∀ a a' b, db.replaces a = some b → db.replaces a' = some b → a = a'
  /-- At most one activity of a chain succeeded, and it is the last. -/
  succeeded : ∀ a act, db.activities.find a = some act → act.status = .succeeded →
    (∀ b, db.replaces b ≠ some a) ∧
    ∀ a' act' first, db.activities.find a' = some act' → act'.status = .succeeded →
      EndsAt db.replaces a first → EndsAt db.replaces a' first → a = a'
  /-- The unique key. -/
  key : ∀ a act a' act', db.activities.find a = some act → db.activities.find a' = some act' →
    act.workflowId = act'.workflowId → act.commandSequence = act'.commandSequence →
    act.replacementNumber = act'.replacementNumber → a = a'

section Chains

variable (hI : ∀ w, (db.aggregate w).Replaced)

include hI

/-- The activity that a stored one replaces. -/
theorem replaced_link (ha : db.activities.find a = some act)
    (hb : act.replacesActivityId = some b) :
    ∃ old, db.activities.find b = some old ∧ old.workflowId = act.workflowId ∧
      act.commandSequence = old.commandSequence ∧
      act.replacementNumber = old.replacementNumber + 1 ∧
      act.rootActivityId = some (old.rootActivityId.getD b) ∧ old.status.isDead = true := by
  obtain ⟨old, hold, hrest⟩ := (hI act.workflowId).link a act b (activity_of_find ha) hb
  obtain ⟨hfind, hw⟩ := aggregate_activity.mp hold
  exact ⟨old, hfind, hw, hrest⟩

/-- The root of a replacement is where its chain begins. -/
theorem replaced_root (n : ℕ) (ha : db.activities.find a = some act)
    (hn : act.replacementNumber = n) (hb : act.replacesActivityId = some b) :
    ∃ root, act.rootActivityId = some root ∧ EndsAt db.replaces a root := by
  induction n generalizing a act b with
  | zero =>
    obtain ⟨old, -, -, -, hnumber, -⟩ := replaced_link hI ha hb
    omega
  | succ n ih =>
    obtain ⟨old, hold, -, -, hnumber, hroot, -⟩ := replaced_link hI ha hb
    have hstep : db.replaces a = some b := by rw [DB.replaces, ha, Option.bind_some, hb]
    cases hfirst : old.replacesActivityId with
    | none =>
      have hnone := (hI old.workflowId).first b old (activity_of_find hold) hfirst
      refine ⟨b, by rw [hroot, hnone, Option.getD_none], .head hstep .refl, ?_⟩
      rw [DB.replaces, hold, Option.bind_some, hfirst]
    | some c =>
      obtain ⟨root, hroot', hends⟩ := ih hold (by omega) hfirst
      exact ⟨root, by rw [hroot, hroot', Option.getD_some], .of_reaches (.head hstep .refl) hends⟩

/-- The activities of a chain belong to one command of one workflow. -/
theorem same_command_of_reaches (h : Reaches db.replaces a b)
    (ha : db.activities.find a = some act) :
    ∃ first, db.activities.find b = some first ∧ first.workflowId = act.workflowId ∧
      first.commandSequence = act.commandSequence := by
  induction h with
  | refl => exact ⟨act, ha, rfl, rfl⟩
  | tail _ hstep ih =>
    obtain ⟨mid, hmid, hworkflow, hcommand⟩ := ih
    rw [DB.replaces, hmid, Option.bind_some] at hstep
    obtain ⟨old, hold, hworkflow', hcommand', -⟩ := replaced_link hI hmid hstep
    exact ⟨old, hold, hworkflow'.trans hworkflow, hcommand'.symm.trans hcommand⟩

theorem replacementChains (hs : db.Sound) : db.ReplacementChains := by
  have hkey : ∀ a act a' act', db.activities.find a = some act →
      db.activities.find a' = some act' → act.workflowId = act'.workflowId →
      act.commandSequence = act'.commandSequence →
      act.replacementNumber = act'.replacementNumber → a = a' := by
    intro a act a' act' ha ha' hworkflow hcommand hnumber
    refine (hI act.workflowId).key a act a' act' (activity_of_find ha) ?_ hcommand hnumber
    exact aggregate_activity.mpr ⟨ha', hworkflow.symm⟩
  have hstored : ∀ a b, db.replaces a = some b →
      ∃ act, db.activities.find a = some act ∧ act.replacesActivityId = some b :=
    fun a b h => Option.bind_eq_some_iff.mp h
  refine ⟨fun a act b ha hb => ⟨?_, replaced_root hI _ ha rfl hb⟩, fun a a' b hb hb' => ?_,
    fun a act ha hs' => ⟨fun b hb => ?_, fun a' act' first ha' hs'' hends hends' => ?_⟩, hkey⟩
  · obtain ⟨old, hold, hworkflow, hcommand, hnumber, -, hdead⟩ := replaced_link hI ha hb
    refine ⟨old, hold, hworkflow, hcommand.symm, hnumber, ?_⟩
    revert hdead
    cases old.status <;> simp [ActivityStatus.isDead]
  · obtain ⟨act, ha, hb⟩ := hstored a b hb
    obtain ⟨act', ha', hb'⟩ := hstored a' b hb'
    obtain ⟨old, hold, hworkflow, hcommand, hnumber, -⟩ := replaced_link hI ha hb
    obtain ⟨old', hold', hworkflow', hcommand', hnumber', -⟩ := replaced_link hI ha' hb'
    obtain rfl := Option.some_inj.mp (hold.symm.trans hold')
    exact hkey a act a' act' ha ha' (hworkflow.symm.trans hworkflow')
      (hcommand.trans hcommand'.symm) (hnumber.trans hnumber'.symm)
  · obtain ⟨other, hother, hreplaces⟩ := hstored b a hb
    obtain ⟨old, hold, -, -, -, -, hdead⟩ := replaced_link hI hother hreplaces
    obtain rfl := Option.some_inj.mp (ha.symm.trans hold)
    rw [hs'] at hdead
    cases hdead
  · obtain ⟨x, hx, hworkflow, hcommand⟩ := same_command_of_reaches hI hends.1 ha
    obtain ⟨y, hy, hworkflow', hcommand'⟩ := same_command_of_reaches hI hends'.1 ha'
    obtain rfl := Option.some_inj.mp (hx.symm.trans hy)
    obtain ⟨r, hr⟩ := hs.row_of_activity ha
    have hact' := aggregate_activity.mpr ⟨ha', hworkflow'.symm.trans hworkflow⟩
    exact (hs.inv hr).results.unique a act a' act' (activity_of_find ha) hact' hs' hs''
      (hcommand.symm.trans hcommand')

end Chains

/-- Only a recoverable start discards dead letters. -/
theorem Action.eq_recoverableStart (h : action.permits l = true) (hl : l.discards = true) :
    ∃ workflow options now, action = .recoverableStart workflow options now := by
  cases l <;> cases hl <;> cases action <;> first | exact ⟨_, _, _, rfl⟩ | cases h

/-- **Replacement chains** in every run. In every reachable state the replaced
activities form chains; an action that leaves a replaced activity cancelled
which was not so before is a recoverable start; and no action meets the unique
key of an activity's place. -/
theorem run_replacements (externals : Externals) (actions : List Action) :
    let s := run externals Sys.init actions
    s.db.ReplacementChains ∧
    (∀ action s' a b old, exec externals s action = .ok s' → s'.db.replaces a = some b →
      s'.db.activities.find b = some old → old.status = .cancelled →
      (∃ workflow options now, action = .recoverableStart workflow options now) ∨
      (∃ a', s.db.replaces a' = some b) ∧
        ∃ old', s.db.activities.find b = some old' ∧ old'.status = .cancelled) ∧
    ∀ action e, exec externals s action = .error e →
      e ≠ .database (.uniqueViolation .activityCommand) := by
  intro s
  have hinv : s.Inv := run_inv externals actions
  have hI : ∀ w, (s.db.aggregate w).Replaced := fun w =>
    run_aggregate .empty (fun _ _ _ hg h => h.replaced hg) externals actions w
  refine ⟨replacementChains hI hinv.sound, fun action s' a b old hok hb hold hcancelled => ?_,
    fun action e he heq => ?_⟩
  · by_cases hstart : ∃ workflow options now, action = .recoverableStart workflow options now
    · exact .inl hstart
    refine .inr ?_
    have hleads := exec_leads hinv hok
    have hI' : ∀ w, (s'.db.aggregate w).Replaced := fun w =>
      (hleads.evolves.steps w).invariant (fun _ _ _ hg h => h.replaced hg)
        (hinv.sound.wellFormed w) (hI w)
    obtain ⟨act, ha, hreplaces⟩ := Option.bind_eq_some_iff.mp hb
    obtain ⟨old₁, hold₁, hworkflow, -⟩ := replaced_link hI' ha hreplaces
    obtain rfl := Option.some_inj.mp (hold.symm.trans hold₁)
    have hreplaced : (s'.db.aggregate old.workflowId).IsReplaced b :=
      ⟨a, act, aggregate_activity.mpr ⟨ha, hworkflow.symm⟩, hreplaces⟩
    obtain ⟨⟨a', act', ha', hreplaces'⟩, old', hold', hcancelled'⟩ :=
      (hleads.evolves.steps old.workflowId).cancelled_replaced (hinv.sound.wellFormed _) (hI _)
        (fun l hl => by
          by_contra hdiscards
          exact hstart (Action.eq_recoverableStart hl.1 (by simpa using hdiscards)))
        hreplaced (activity_of_find hold) hcancelled
    refine ⟨⟨a', ?_⟩, old', (aggregate_activity.mp hold').1, hcancelled'⟩
    rw [DB.replaces, (aggregate_activity.mp ha').1, Option.bind_some, hreplaces']
  · subst heq
    cases exec_benign hinv he

end DurableWorkflows
