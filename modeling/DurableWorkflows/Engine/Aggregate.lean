import DurableWorkflows.Engine.System
import Mathlib.Logic.Function.Basic

/-!
# The aggregate of a workflow

Every row the engine writes belongs to one workflow. The aggregate of a
workflow is its row with its events, its activities and their attempts, and its
approvals; a statement of a transaction edits one aggregate and leaves the
others alone.

## Main definitions

- `Aggregate`, `DB.aggregate`: the rows that belong to a workflow
- `Touches`: a change of the database that edits one aggregate

## Main results

- `Touches.trans`: consecutive edits of one aggregate compose
- `touches_updateRow_workflow` and the lemmas after it: the edit each statement
  makes
-/

namespace DurableWorkflows

/-- The rows that belong to one workflow; a workflow that does not exist has
none. -/
@[ext]
structure Aggregate where
  row : Option WorkflowRow
  events : List WorkflowEventRow
  activities : ActivityId → Option ActivityRow
  attempts : ActivityId → ℕ → Option ActivityAttemptRow
  approvals : ApprovalId → Option ApprovalRow

namespace Aggregate

/-- The aggregate of a workflow that does not exist. -/
def empty : Aggregate := ⟨none, [], fun _ => none, fun _ _ => none, fun _ => none⟩

/-- Replace the workflow row. -/
@[simps]
def setRow (g : Aggregate) (row : WorkflowRow) : Aggregate := { g with row := some row }

/-- Append an event. -/
@[simps]
def addEvent (g : Aggregate) (event : WorkflowEventRow) : Aggregate :=
  { g with events := g.events ++ [event] }

/-- Store an activity. -/
@[simps]
def setActivity (g : Aggregate) (a : ActivityId) (act : ActivityRow) : Aggregate :=
  { g with activities := Function.update g.activities a (some act) }

/-- Store an attempt. -/
@[simps]
def setAttempt (g : Aggregate) (a : ActivityId) (n : ℕ) (attempt : ActivityAttemptRow) :
    Aggregate :=
  { g with attempts := fun i m => if i = a ∧ m = n then some attempt else g.attempts i m }

/-- Store an approval. -/
@[simps]
def setApproval (g : Aggregate) (p : ApprovalId) (approval : ApprovalRow) : Aggregate :=
  { g with approvals := Function.update g.approvals p (some approval) }

/-- Change every activity. -/
@[simps]
def mapActivities (g : Aggregate) (f : ActivityRow → ActivityRow) : Aggregate :=
  { g with activities := fun a => (g.activities a).map f }

/-- Change every approval. -/
@[simps]
def mapApprovals (g : Aggregate) (f : ApprovalRow → ApprovalRow) : Aggregate :=
  { g with approvals := fun p => (g.approvals p).map f }

end Aggregate

/-- The aggregate of workflow `w` in a database. -/
def DB.aggregate (db : DB) (w : WorkflowId) : Aggregate where
  row := db.workflows.find w
  events := db.eventsOf w
  activities a := (db.activities.find a).filter fun r => r.workflowId == w
  attempts a n :=
    if (db.activities.find a).any fun r => r.workflowId == w then db.attempts a n else none
  approvals p := (db.approvals.find p).filter fun r => r.workflowId == w

/-- Every attempt belongs to an activity. -/
def DB.Closed (db : DB) : Prop := ∀ a n, db.activities.find a = none → db.attempts a n = none

section Reads

variable {db : DB} {w : WorkflowId} {a : ActivityId} {p : ApprovalId} {act : ActivityRow}
  {approval : ApprovalRow}

theorem aggregate_row : (db.aggregate w).row = db.workflows.find w := rfl

theorem aggregate_events : (db.aggregate w).events = db.eventsOf w := rfl

theorem aggregate_activity :
    (db.aggregate w).activities a = some act ↔
      db.activities.find a = some act ∧ act.workflowId = w := by
  simp [DB.aggregate, Option.filter_eq_some_iff]

theorem aggregate_approval :
    (db.aggregate w).approvals p = some approval ↔
      db.approvals.find p = some approval ∧ approval.workflowId = w := by
  simp [DB.aggregate, Option.filter_eq_some_iff]

/-- An activity is in the aggregate of its workflow. -/
theorem activity_of_find (h : db.activities.find a = some act) :
    (db.aggregate act.workflowId).activities a = some act :=
  aggregate_activity.mpr ⟨h, rfl⟩

theorem approval_of_find (h : db.approvals.find p = some approval) :
    (db.aggregate approval.workflowId).approvals p = some approval :=
  aggregate_approval.mpr ⟨h, rfl⟩

theorem aggregate_attempts (h : (db.aggregate w).activities a = some act) (n : ℕ) :
    (db.aggregate w).attempts a n = db.attempts a n := by
  obtain ⟨hfind, rfl⟩ := aggregate_activity.mp h
  simp [DB.aggregate, hfind]

/-- An attempt of an aggregate is stored. -/
theorem aggregate_attempt {n : ℕ} {attempt : ActivityAttemptRow}
    (h : (db.aggregate w).attempts a n = some attempt) : db.attempts a n = some attempt := by
  simp only [DB.aggregate] at h
  split at h
  · exact h
  · cases h

end Reads

-- ════════════════════════════════════════════════════════════════════════
-- Local edits
-- ════════════════════════════════════════════════════════════════════════

/-- `db'` differs from `db` by an edit of the aggregate of `w`. -/
structure Touches (db : DB) (w : WorkflowId) (edit : Aggregate → Aggregate) (db' : DB) : Prop where
  self : db'.aggregate w = edit (db.aggregate w)
  other : ∀ w', w' ≠ w → db'.aggregate w' = db.aggregate w'
  closed : db.Closed → db'.Closed

namespace Touches

variable {db db' db'' : DB} {w : WorkflowId} {edit edit' : Aggregate → Aggregate}

theorem refl (db : DB) (w : WorkflowId) : Touches db w id db := ⟨rfl, fun _ _ => rfl, id⟩

/-- Consecutive edits of one aggregate compose. -/
theorem trans (h : Touches db w edit db') (h' : Touches db' w edit' db'') :
    Touches db w (fun g => edit' (edit g)) db'' where
  self := by rw [h'.self, h.self]
  other w' hw := by rw [h'.other w' hw, h.other w' hw]
  closed hc := h'.closed (h.closed hc)

/-- The same edit, of the same workflow. -/
theorem of_eq {w' : WorkflowId} (h : Touches db w edit db') (heq : w = w') :
    Touches db w' edit db' :=
  heq ▸ h

/-- An edit may be replaced by one with the same effect. -/
theorem congr (h : Touches db w edit db') (heq : edit (db.aggregate w) = edit' (db.aggregate w)) :
    Touches db w edit' db' :=
  ⟨h.self.trans heq, h.other, h.closed⟩

end Touches

section Statements

variable {db : DB} {w : WorkflowId} {a : ActivityId} {p : ApprovalId}

theorem touches_updateRow_workflow {r : WorkflowRow} {f : WorkflowRow → WorkflowRow} {hf}
    (hr : db.workflows.find w = some r) :
    Touches db w (fun g => g.setRow (f r))
      (workflowTable.set ((workflowTable.get db).modify w f hf) db) where
  self := by
    ext1 <;> try rfl
    simp [DB.aggregate, workflowTable, Aggregate.setRow, hr]
  other w' hw := by
    ext1 <;> try rfl
    simp [DB.aggregate, workflowTable, Table.find_modify_of_ne hw]
  closed := id

theorem touches_addEvent {e : WorkflowEventRow} :
    Touches db e.workflowId (fun g => g.addEvent e) { db with events := db.events ++ [e] } where
  self := by simp [DB.aggregate, DB.eventsOf, Aggregate.addEvent]
  other w' hw := by
    have : (e.workflowId == w') = false := by simpa using Ne.symm hw
    simp [DB.aggregate, DB.eventsOf, this]
  closed := id

theorem touches_updateRow_activity {act : ActivityRow} {f : ActivityRow → ActivityRow} {hf}
    (ha : db.activities.find a = some act) (hw : (f act).workflowId = act.workflowId) :
    Touches db act.workflowId (fun g => g.setActivity a (f act))
      (activityTable.set ((activityTable.get db).modify a f hf) db) where
  self := by
    ext1
    · rfl
    · rfl
    · funext i
      simp only [DB.aggregate, activityTable, Aggregate.setActivity, Table.find_modify,
        Function.update_apply]
      split
      · simp_all
      · rfl
    · funext i n
      simp only [DB.aggregate, activityTable, Aggregate.setActivity, Table.find_modify]
      split
      · simp_all
      · rfl
    · rfl
  other w' hne := by
    have hne' : act.workflowId ≠ w' := hne.symm
    ext1
    · rfl
    · rfl
    · funext i
      simp only [DB.aggregate, activityTable, Table.find_modify]
      split
      · simp_all [Option.filter_some]
      · rfl
    · funext i n
      simp only [DB.aggregate, activityTable, Table.find_modify]
      split
      · simp_all
      · rfl
    · rfl
  closed hc i n hi := by
    refine hc i n ?_
    simp only [activityTable, Table.find_modify] at hi
    split at hi
    · simpa using hi
    · exact hi

theorem touches_updateRow_approval {approval : ApprovalRow} {f : ApprovalRow → ApprovalRow} {hf}
    (ha : db.approvals.find p = some approval) (hw : (f approval).workflowId = approval.workflowId) :
    Touches db approval.workflowId (fun g => g.setApproval p (f approval))
      (approvalTable.set ((approvalTable.get db).modify p f hf) db) where
  self := by
    ext1 <;> try rfl
    funext i
    simp only [DB.aggregate, approvalTable, Aggregate.setApproval, Table.find_modify,
      Function.update_apply]
    split
    · simp_all
    · rfl
  other w' hne := by
    have hne' : approval.workflowId ≠ w' := hne.symm
    ext1 <;> try rfl
    funext i
    simp only [DB.aggregate, approvalTable, Table.find_modify]
    split
    · simp_all [Option.filter_some]
    · rfl
  closed := id

theorem touches_setAttempt {act : ActivityRow} {n : ℕ} {attempt : ActivityAttemptRow}
    (ha : db.activities.find a = some act) :
    Touches db act.workflowId (fun g => g.setAttempt a n attempt)
      { db with attempts := fun i m => if i = a ∧ m = n then some attempt else db.attempts i m }
    where
  self := by
    ext1 <;> try rfl
    funext i m
    simp only [DB.aggregate, Aggregate.setAttempt]
    by_cases him : i = a ∧ m = n
    · obtain ⟨rfl, rfl⟩ := him
      simp [ha]
    · simp [him]
  other w' hne := by
    have hne' : act.workflowId ≠ w' := hne.symm
    ext1 <;> try rfl
    funext i m
    simp only [DB.aggregate]
    by_cases him : i = a ∧ m = n
    · obtain ⟨rfl, rfl⟩ := him
      simp [ha, hne']
    · simp [him]
  closed hc i m hi := by
    have hia : i ≠ a := by
      rintro rfl
      rw [ha] at hi
      cases hi
    simpa [hia] using hc i m hi

/-- An update of the activities of one workflow. -/
theorem touches_updateRows_activity {select : ActivityRow → Bool} {f f' : ActivityRow → ActivityRow}
    {hf} (hmap : ∀ act, (if select act then f act else act) =
      if act.workflowId = w then f' act else act)
    (hw : ∀ act, (f' act).workflowId = act.workflowId) :
    Touches db w (fun g => g.mapActivities f')
      (activityTable.set ((activityTable.get db).modifyAll select f hf) db) := by
  have hfind : ∀ a, (activityTable.set ((activityTable.get db).modifyAll select f hf)
      db).activities.find a =
        (db.activities.find a).map fun act => if act.workflowId = w then f' act else act := by
    intro a
    simp only [activityTable, Table.find_modifyAll, hmap]
  refine ⟨?_, fun w' hne => ?_, fun hc a n ha => hc a n ?_⟩
  · ext1 <;> try rfl
    · funext a
      simp only [DB.aggregate, hfind, Aggregate.mapActivities]
      cases db.activities.find a with
      | none => rfl
      | some act => by_cases h : act.workflowId = w <;> simp [h, hw, Option.filter_some]
    · funext a n
      simp only [DB.aggregate, hfind, Aggregate.mapActivities]
      cases db.activities.find a with
      | none => rfl
      | some act => by_cases h : act.workflowId = w <;> simp [h, hw, activityTable]
  · ext1 <;> try rfl
    · funext a
      simp only [DB.aggregate, hfind]
      cases db.activities.find a with
      | none => rfl
      | some act =>
        by_cases h : act.workflowId = w <;> simp [h, hw, Option.filter_some, Ne.symm hne]
    · funext a n
      simp only [DB.aggregate, hfind]
      cases db.activities.find a with
      | none => rfl
      | some act => by_cases h : act.workflowId = w <;> simp [h, hw, activityTable]
  · rw [hfind] at ha
    simpa using ha

/-- A new activity has no attempts yet. -/
theorem touches_insertRow_activity (mk : ℕ → ActivityRow) {hmk} (hc : db.Closed) :
    Touches db (mk db.activities.next).workflowId
      (fun g => g.setActivity db.activities.next (mk db.activities.next))
      (activityTable.set ((activityTable.get db).insert mk hmk) db) where
  self := by
    ext1
    · rfl
    · rfl
    · funext i
      simp only [DB.aggregate, activityTable, Aggregate.setActivity, Table.find_insert,
        Function.update_apply]
      split
      · simp_all
      · rfl
    · funext i n
      simp only [DB.aggregate, activityTable, Aggregate.setActivity, Table.find_insert]
      split
      · rename_i hi
        simp [hi, hc _ n Table.find_next]
      · rfl
    · rfl
  other w' hne := by
    have hne' : (mk db.activities.next).workflowId ≠ w' := hne.symm
    ext1
    · rfl
    · rfl
    · funext i
      simp only [DB.aggregate, activityTable, Table.find_insert]
      split
      · simp_all [Option.filter_some]
      · rfl
    · funext i n
      simp only [DB.aggregate, activityTable, Table.find_insert]
      split
      · simp_all
      · rfl
    · rfl
  closed _ i n hi := by
    simp only [activityTable, Table.find_insert] at hi
    split at hi
    · cases hi
    · exact hc i n hi

theorem touches_insertRow_approval (mk : ℕ → ApprovalRow) {hmk} :
    Touches db (mk db.approvals.next).workflowId
      (fun g => g.setApproval db.approvals.next (mk db.approvals.next))
      (approvalTable.set ((approvalTable.get db).insert mk hmk) db) where
  self := by
    ext1 <;> try rfl
    funext i
    simp only [DB.aggregate, approvalTable, Aggregate.setApproval, Table.find_insert,
      Function.update_apply]
    split
    · simp_all
    · rfl
  other w' hne := by
    have hne' : (mk db.approvals.next).workflowId ≠ w' := hne.symm
    ext1 <;> try rfl
    funext i
    simp only [DB.aggregate, approvalTable, Table.find_insert]
    split
    · simp_all [Option.filter_some]
    · rfl
  closed := id

theorem touches_insertRow_workflow (mk : ℕ → WorkflowRow) {hmk} :
    Touches db db.workflows.next (fun g => g.setRow (mk db.workflows.next))
      (workflowTable.set ((workflowTable.get db).insert mk hmk) db) where
  self := by
    ext1 <;> try rfl
    simp [DB.aggregate, workflowTable, Aggregate.setRow, Table.find_insert]
  other w' hw := by
    ext1 <;> try rfl
    simp [DB.aggregate, workflowTable, Table.find_insert, hw]
  closed := id

end Statements

end DurableWorkflows
