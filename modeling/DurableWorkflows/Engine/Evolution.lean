import DurableWorkflows.Engine.Preservation
import Mathlib.Data.Set.Insert

/-!
# Evolution of the database

A transaction takes every aggregate through a sequence of steps. `Evolves`
says so for a whole database, with the labels the steps may have, and what it
keeps is read off the labels: the invariant of the aggregates, and, across
aggregates, that no workflow waits for a terminal child.

## Main definitions

- `Evolves`: the aggregates of two databases are related by steps
- `DB.Sound`: all aggregates are well formed
- `DB.Attached`: no workflow waits for a terminal or missing child
- `Aggregate.OneLive`: at most one activity of a workflow is live

## Main results

- `Evolves.sound`, `Evolves.attached`
- `Step.oneLive`
-/

namespace DurableWorkflows

variable {g g' : Aggregate} {db db' db'' : DB} {w c : WorkflowId} {r : WorkflowRow}
  {P Q : WorkflowId → Label → Prop} {X : Set WorkflowId}

/-- Every aggregate evolves by steps whose labels satisfy `P`. -/
structure Evolves (P : WorkflowId → Label → Prop) (db db' : DB) : Prop where
  steps : ∀ w, Steps (P w) (db.aggregate w) (db'.aggregate w)
  closed : db.Closed → db'.Closed

/-- All aggregates are well formed. -/
structure DB.Sound (db : DB) : Prop where
  wellFormed : ∀ w, (db.aggregate w).WellFormed
  closed : db.Closed

namespace Evolves

theorem refl (db : DB) : Evolves P db db := ⟨fun _ => .refl, id⟩

theorem trans (h : Evolves P db db') (h' : Evolves P db' db'') : Evolves P db db'' :=
  ⟨fun w => (h.steps w).trans (h'.steps w), fun hc => h'.closed (h.closed hc)⟩

theorem mono (h : Evolves P db db') (hPQ : ∀ w l, P w l → Q w l) : Evolves Q db db' :=
  ⟨fun w => (h.steps w).mono (hPQ w), h.closed⟩

/-- A local edit that is a sequence of steps. -/
theorem of_touches {edit : Aggregate → Aggregate} (h : Touches db w edit db')
    (hs : Steps (P w) (db.aggregate w) (edit (db.aggregate w))) : Evolves P db db' where
  steps w' := by
    by_cases hw : w' = w
    · subst hw
      rw [h.self]
      exact hs
    · rw [h.other w' hw]
      exact .refl
  closed := h.closed

/-- A local edit that is one step. -/
theorem of_step {edit : Aggregate → Aggregate} {l : Label} (h : Touches db w edit db')
    (hs : Step (db.aggregate w) l (edit (db.aggregate w))) (hl : P w l) : Evolves P db db' :=
  of_touches h (.single hs hl)

/-- A change outside the aggregates. -/
theorem of_aggregate_eq (h : ∀ w, db'.aggregate w = db.aggregate w) (hc : db.Closed → db'.Closed) :
    Evolves P db db' :=
  ⟨fun w => h w ▸ .refl, hc⟩

theorem sound (h : Evolves P db db') (hs : db.Sound) : db'.Sound :=
  ⟨fun w => (h.steps w).wellFormed (hs.wellFormed w), h.closed hs.closed⟩

end Evolves

namespace DB.Sound

theorem inv (hs : db.Sound) (hr : db.workflows.find w = some r) : Inv (db.aggregate w) r :=
  (hs.wellFormed w).inv hr

theorem log (hs : db.Sound) (w : WorkflowId) : Log (db.aggregate w).events := by
  have h := hs.wellFormed w
  cases hr : (db.aggregate w).row with
  | none =>
    simp only [Aggregate.WellFormed, hr] at h
    rw [h]
    exact .nil
  | some r => exact (h.inv hr).delivery.log

/-- A workflow that does not exist has no other rows. -/
theorem aggregate_of_none (hs : db.Sound) (hr : db.workflows.find w = none) :
    db.aggregate w = .empty := by
  have h := hs.wellFormed w
  rwa [Aggregate.WellFormed, show (db.aggregate w).row = none from hr] at h

/-- The workflow of an activity exists. -/
theorem row_of_activity (hs : db.Sound) {a : ActivityId} {act : ActivityRow}
    (ha : db.activities.find a = some act) : ∃ r, db.workflows.find act.workflowId = some r := by
  cases hr : db.workflows.find act.workflowId with
  | none =>
    have hact := activity_of_find ha
    rw [hs.aggregate_of_none hr] at hact
    cases hact
  | some r => exact ⟨r, rfl⟩

/-- The workflow of an approval exists. -/
theorem row_of_approval (hs : db.Sound) {p : ApprovalId} {approval : ApprovalRow}
    (hp : db.approvals.find p = some approval) :
    ∃ r, db.workflows.find approval.workflowId = some r := by
  cases hr : db.workflows.find approval.workflowId with
  | none =>
    have happ := approval_of_find hp
    rw [hs.aggregate_of_none hr] at happ
    cases happ
  | some r => exact ⟨r, rfl⟩

theorem empty : DB.empty.Sound where
  wellFormed _ := Aggregate.wellFormed_empty
  closed _ _ _ := rfl

end DB.Sound

-- ════════════════════════════════════════════════════════════════════════
-- Children
-- ════════════════════════════════════════════════════════════════════════

/-- The workflow is there and not terminal. -/
def Aggregate.IsOpen (g : Aggregate) : Prop := ∃ r, g.row = some r ∧ r.status.isTerminal = false

/-- The workflow waits for the child `c`, possibly paused. -/
def Aggregate.AwaitsChild (g : Aggregate) (c : WorkflowId) : Prop :=
  ∃ r, g.row = some r ∧ r.status.awaitsChild = true ∧ r.awaited = some (.child c)

/-- Every child that is waited for is open, those in `X` excepted. -/
def DB.Attached (X : Set WorkflowId) (db : DB) : Prop :=
  ∀ w c, (db.aggregate w).AwaitsChild c → c ∈ X ∨ (db.aggregate c).IsOpen

theorem Aggregate.IsOpen.of_row (hr : g.row = some r) (ht : r.status.isTerminal = false) :
    g.IsOpen := ⟨r, hr, ht⟩

/-- A row that awaits a child is open. -/
theorem open_of_awaitsChild (h : r.status.awaitsChild = true) : r.status.isTerminal = false := by
  cases hs : r.status <;> simp_all [WorkflowStatus.awaitsChild, WorkflowStatus.isTerminal]

/-- A row that awaits an approval is open. -/
theorem open_of_awaitsApproval (h : r.status.awaitsApproval = true) :
    r.status.isTerminal = false := by
  cases hs : r.status <;> simp_all [WorkflowStatus.awaitsApproval, WorkflowStatus.isTerminal]

/-- Whether a workflow waits for a child is read off its row. -/
theorem Aggregate.awaitsChild_iff (hr : g.row = some r) :
    g.AwaitsChild c ↔ r.status.awaitsChild = true ∧ r.awaited = some (.child c) := by
  simp [Aggregate.AwaitsChild, hr]

theorem Aggregate.isOpen_iff (hr : g.row = some r) :
    g.IsOpen ↔ r.status.isTerminal = false := by
  simp [Aggregate.IsOpen, hr]

/-- An open row with a child wait is waiting or paused. -/
theorem RowInv.awaitsChild (h : RowInv r) (ht : r.status.isTerminal = false)
    (hw : r.awaited = some (.child c)) : r.status.awaitsChild = true := by
  have hallowed := h.allowed
  rw [hw] at hallowed
  cases hs : r.status <;>
    simp_all [WorkflowStatus.allows, WorkflowStatus.awaitsChild, WorkflowStatus.isTerminal, Wait.kind]

/-- A row that waits for no child. -/
theorem not_awaitsChild (hr : g.row = some r)
    (h : r.status.awaitsChild = false ∨ ∀ c, r.awaited ≠ some (.child c)) : ¬g.AwaitsChild c := by
  rw [Aggregate.awaitsChild_iff hr]
  rintro ⟨hs, hw⟩
  rcases h with h | h
  · simp [h] at hs
  · exact h c hw

/-- A step that does not end a workflow keeps it open. -/
theorem Step.keeps_open {l : Label} (h : Step g l g') (hl : l.ends = false) (hg : g.IsOpen) :
    g'.IsOpen := by
  cases h with
  | inserted hrow => exact .of_row rfl (by rw [hrow.status]; rfl)
  | history | discarded | activityClaimed | renewed | released | settled => exact hg
  | claimed | recovered | continued | slept | waitedApproval | waitedActivity | waitedChild
  | paused | revoked | retried | deadLettered | quarantined => exact .of_row rfl rfl
  | completed | activationFailed | cancelled | superseded => cases hl
  | answered | answeredApproval | succeeded => exact .of_row rfl (woken_open _)
  | reattached _ _ hs => exact .of_row rfl (open_of_awaitsChild hs)
  | resumed _ _ hstatus =>
    refine .of_row rfl ?_
    unfold Aggregate.ResumesTo at hstatus
    split at hstatus
    all_goals first | (subst hstatus; rfl) | skip
    obtain ⟨act, -, ⟨-, rfl⟩ | ⟨-, rfl⟩⟩ := hstatus <;> rfl

/-- Only the row of an open workflow is written. -/
theorem Step.row_eq_or_open {l : Label} (h : Step g l g') (hl : l ≠ .inserted) :
    g'.row = g.row ∨ g.IsOpen := by
  cases h with
  | inserted => exact absurd rfl hl
  | history | discarded | activityClaimed | renewed | released | settled => exact .inl rfl
  | claimed hr hs | recovered hr hs | continued hr hs | completed hr hs | slept hr hs
  | waitedApproval hr hs | waitedActivity hr hs | waitedChild hr hs | activationFailed hr hs
  | revoked hr hs | resumed hr hs | superseded hr hs | retried hr hs | succeeded hr hs
  | deadLettered hr hs | quarantined hr hs =>
    exact .inr (.of_row hr (by rw [hs]; rfl))
  | answered hr _ hs =>
    rcases hs with ⟨hs, -⟩ | ⟨hs, -⟩
    · exact .inr (.of_row hr (open_of_awaitsChild hs))
    · exact .inr (.of_row hr (by rw [hs]; rfl))
  | answeredApproval hr _ hs => exact .inr (.of_row hr (open_of_awaitsApproval hs))
  | reattached hr _ hs => exact .inr (.of_row hr (open_of_awaitsChild hs))
  | paused hr _ ht | cancelled hr ht => exact .inr (.of_row hr ht)

/-- Only an insert opens a workflow. -/
theorem Step.open_of_open {l : Label} (h : Step g l g') (hl : l ≠ .inserted) (hg : g'.IsOpen) :
    g.IsOpen := by
  rcases h.row_eq_or_open hl with hrow | hopen
  · obtain ⟨r, hr, ht⟩ := hg
    exact ⟨r, hrow ▸ hr, ht⟩
  · exact hopen

/-- A step that attaches nothing makes no workflow wait for a child. -/
theorem Step.awaitsChild_of {l : Label} (h : Step g l g') (hg : g.WellFormed)
    (hl : l.attaches = false) (hc : g'.AwaitsChild c) : g.AwaitsChild c := by
  cases h with
  | inserted hrow => exact absurd hc (not_awaitsChild rfl (.inl (by rw [hrow.status]; rfl)))
  | history | discarded | activityClaimed | renewed | released | settled => exact hc
  | claimed | recovered | continued | completed | slept | waitedApproval | waitedActivity
  | retried | deadLettered | quarantined | cancelled | superseded =>
    exact absurd hc (not_awaitsChild rfl (.inl rfl))
  | waitedChild | reattached => cases hl
  | activationFailed _ _ exhausted =>
    refine absurd hc (not_awaitsChild rfl (.inl ?_))
    cases exhausted <;> rfl
  | answered | answeredApproval | succeeded => exact absurd hc (not_awaitsChild rfl (.inr nofun))
  | @paused _ r hr _ ht =>
    obtain ⟨-, hw⟩ := (Aggregate.awaitsChild_iff rfl).mp hc
    change r.awaited = _ at hw
    exact (Aggregate.awaitsChild_iff hr).mpr ⟨(hg.inv hr).row.awaitsChild ht hw, hw⟩
  | revoked _ _ hw =>
    refine absurd hc (not_awaitsChild rfl (.inr fun c h => ?_))
    exact absurd (hw.symm.trans h) (by simp)
  | @resumed _ r _ hr hs =>
    obtain ⟨-, hw⟩ := (Aggregate.awaitsChild_iff rfl).mp hc
    change r.awaited = _ at hw
    exact (Aggregate.awaitsChild_iff hr).mpr ⟨by rw [hs]; rfl, hw⟩

/-- A workflow that exists stays. -/
theorem Step.exists_row {l : Label} (h : Step g l g') (hg : ∃ r, g.row = some r) :
    ∃ r, g'.row = some r := by
  cases h
  all_goals first | exact ⟨_, rfl⟩ | exact hg

section Steps

variable {P : Label → Prop}

theorem Steps.keeps_open (h : Steps P g g') (hP : ∀ l, P l → l.ends = false) (hg : g.IsOpen) :
    g'.IsOpen := by
  induction h with
  | refl => exact hg
  | tail _ hstep ih =>
    obtain ⟨l, hl, hstep⟩ := hstep
    exact hstep.keeps_open (hP l hl) ih

theorem Steps.open_of_open (h : Steps P g g') (hP : ∀ l, P l → l ≠ .inserted) (hg : g'.IsOpen) :
    g.IsOpen := by
  induction h with
  | refl => exact hg
  | tail _ hstep ih =>
    obtain ⟨l, hl, hstep⟩ := hstep
    exact ih (hstep.open_of_open (hP l hl) hg)

theorem Steps.awaitsChild_of (h : Steps P g g') (hg : g.WellFormed)
    (hP : ∀ l, P l → l.attaches = false) (hc : g'.AwaitsChild c) : g.AwaitsChild c := by
  induction h with
  | refl => exact hc
  | tail hsteps hstep ih =>
    obtain ⟨l, hl, hstep⟩ := hstep
    exact ih (hstep.awaitsChild_of (Steps.wellFormed hsteps hg) (hP l hl) hc)

/-- A workflow that exists stays. -/
theorem Steps.exists_row (h : Steps P g g') (hg : ∃ r, g.row = some r) : ∃ r, g'.row = some r := by
  induction h with
  | refl => exact hg
  | tail _ hstep ih =>
    obtain ⟨l, -, hstep⟩ := hstep
    exact hstep.exists_row ih

/-- A workflow that does not exist comes into being by an insert only. -/
theorem Steps.row_none (h : Steps P g g') (hP : ∀ l, P l → l ≠ .inserted) (hg : g.row = none) :
    g'.row = none := by
  induction h with
  | refl => exact hg
  | tail _ hstep ih =>
    obtain ⟨l, hl, hstep⟩ := hstep
    have hne := hP l hl
    cases hstep with
    | inserted => exact absurd rfl hne
    | _ => simp_all

end Steps

/-- An evolution that neither ends nor attaches workflows keeps every wait
attached. -/
theorem Evolves.attached (h : Evolves P db db') (hs : db.Sound)
    (hP : ∀ w l, P w l → l.ends = false ∧ l.attaches = false) (hx : db.Attached X) :
    db'.Attached X := by
  intro w c hw
  have hback := (h.steps w).awaitsChild_of (hs.wellFormed w) (fun l hl => (hP w l hl).2) hw
  exact (hx w c hback).imp_right ((h.steps c).keeps_open fun l hl => (hP c l hl).1)

namespace DB.Attached

theorem empty : DB.empty.Attached ∅ := by
  rintro w c ⟨r, hr, -⟩
  cases hr

/-- An edit of one workflow that leaves it without a child wait may end it. -/
theorem close {edit : Aggregate → Aggregate} (hx : db.Attached X) (h : Touches db w edit db')
    (hw : ∀ c, ¬(db'.aggregate w).AwaitsChild c) : db'.Attached (insert w X) := by
  intro w' c hc
  have hne : w' ≠ w := by
    rintro rfl
    exact hw c hc
  rw [h.other w' hne] at hc
  by_cases hcw : c = w
  · exact .inl (Set.mem_insert_iff.mpr (.inl hcw))
  · rw [h.other c hcw]
    exact (hx w' c hc).imp_left (Set.mem_insert_of_mem w)

/-- Once nobody waits for a child, it need not be open. -/
theorem discharge (hx : db.Attached (insert c X)) (hc : ∀ w, ¬(db.aggregate w).AwaitsChild c) :
    db.Attached X := by
  intro w c' hw
  rcases hx w c' hw with (rfl | h) | h
  · exact absurd hw (hc w)
  · exact .inl h
  · exact .inr h

end DB.Attached

-- ════════════════════════════════════════════════════════════════════════
-- Live activities
-- ════════════════════════════════════════════════════════════════════════

section Live

variable {l : Label} {act act' : ActivityRow} {a : ActivityId} {now : DbMillis}

/-- At most one activity is live. -/
def Aggregate.OneLive (g : Aggregate) : Prop :=
  ∀ a b act act', g.activities a = some act → g.activities b = some act' →
    act.status.isTerminal = false → act'.status.isTerminal = false → a = b

/-- The workflow waits for its live activity, if it is open. -/
theorem Inv.oneLive (h : Inv g r) (hopen : r.status.isTerminal = false) : g.OneLive := by
  intro a b act act' ha hb hlive hlive'
  have hwait := (h.coupled a act ha).live hlive hopen
  rw [(h.coupled b act' hb).live hlive' hopen] at hwait
  cases hwait
  rfl

/-- An activity that is live after the change of one was live before. -/
theorem live_of_set (hset : g'.activities = Function.update g.activities a (some act'))
    (ha : g.activities a = some act) (hlive : act.status.isTerminal = false) :
    ∀ b actb, g'.activities b = some actb → actb.status.isTerminal = false →
      ∃ act, g.activities b = some act ∧ act.status.isTerminal = false := by
  intro b actb hb hliveb
  by_cases h : b = a
  · subst h
    exact ⟨act, ha, hlive⟩
  · rw [hset, Function.update_of_ne h] at hb
    exact ⟨actb, hb, hliveb⟩

theorem live_of_map {f : ActivityRow → ActivityRow}
    (hf : ∀ act, (f act).status.isTerminal = false → act.status.isTerminal = false)
    (hmap : g'.activities = fun a => (g.activities a).map f) :
    ∀ b actb, g'.activities b = some actb → actb.status.isTerminal = false →
      ∃ act, g.activities b = some act ∧ act.status.isTerminal = false := by
  intro b actb hb hliveb
  rw [hmap] at hb
  obtain ⟨act, hact, rfl⟩ := Option.map_eq_some_iff.mp hb
  exact ⟨act, hact, hf act hliveb⟩

theorem ActivityRow.live_of_cancelledBy {outcome : AttemptOutcome} {reason : String}
    (h : (act.cancelledBy outcome reason now).status.isTerminal = false) :
    act.status.isTerminal = false := by
  cases hs : act.status <;> simp_all [ActivityRow.cancelledBy, ActivityStatus.isTerminal]

theorem ActivityRow.live_of_discarded (h : (act.discarded now).status.isTerminal = false) :
    act.status.isTerminal = false := by
  cases hs : act.status <;> simp_all [ActivityRow.discarded, ActivityStatus.isTerminal]

theorem live_of_holdsLease (h : act.status.holdsLease = true) : act.status.isTerminal = false := by
  cases hs : act.status <;> simp_all [ActivityStatus.holdsLease, ActivityStatus.isTerminal]

/-- Only an open workflow gets a live activity. -/
theorem Step.live_of (h : Step g l g') :
    g'.IsOpen ∨ ∀ b act', g'.activities b = some act' → act'.status.isTerminal = false →
      ∃ act, g.activities b = some act ∧ act.status.isTerminal = false := by
  cases h with
  | inserted hrow => exact .inl (.of_row rfl (by rw [hrow.status]; rfl))
  | waitedActivity | retried => exact .inl (.of_row rfl rfl)
  | history | claimed | recovered | continued | completed | slept | waitedApproval | waitedChild
  | activationFailed | answered | answeredApproval | reattached | paused | resumed =>
    exact .inr fun b act' hb hlive => ⟨act', hb, hlive⟩
  | cancelled => exact .inr (live_of_map (fun _ => ActivityRow.live_of_cancelledBy) rfl)
  | superseded | discarded => exact .inr (live_of_map (fun _ => ActivityRow.live_of_discarded) rfl)
  | revoked _ _ _ ha hrun => exact .inr (live_of_set rfl ha (by rw [hrun]; rfl))
  | activityClaimed _ _ _ ha hpending | quarantined _ _ _ ha hpending =>
    exact .inr (live_of_set rfl ha (by rw [hpending]; rfl))
  | renewed _ ha hlease => exact .inr (live_of_set rfl ha.stored (live_of_holdsLease hlease))
  | succeeded _ _ _ ha hrun | released _ ha hrun | deadLettered _ _ _ ha hrun =>
    exact .inr (live_of_set rfl ha.stored (by rw [hrun]; rfl))
  | settled _ ha hcancel => exact .inr (live_of_set rfl ha.stored (by rw [hcancel]; rfl))

theorem Step.oneLive (h : Step g l g') (hg : g.WellFormed) (hone : g.OneLive) : g'.OneLive := by
  rcases h.live_of with ⟨r, hr, hopen⟩ | hlive
  · exact ((h.wellFormed hg).inv hr).oneLive hopen
  · intro a b act act' ha hb halive hblive
    obtain ⟨act₀, ha₀, halive₀⟩ := hlive a act ha halive
    obtain ⟨act₀', hb₀, hblive₀⟩ := hlive b act' hb hblive
    exact hone a b act₀ act₀' ha₀ hb₀ halive₀ hblive₀

end Live

end DurableWorkflows
