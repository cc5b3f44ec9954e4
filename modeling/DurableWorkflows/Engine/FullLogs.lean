import DurableWorkflows.Engine.Activations

/-!
# Full logs

The number of an event is a 32-bit integer, so the log of a workflow takes
`I32.max` events. The run of a schedule is recorded in the log of its workflow
whatever the status of the workflow is, so that a log can fill up before the
workflow goes on.

## Main definitions

- `Sys.Records`: some events were added to the log of a workflow

## Main results

- `run_records`: the runs of a schedule add as many events as there is room for
-/

namespace DurableWorkflows

open Transaction Sys

variable {externals : Externals} {s s' s'' : Sys} {w : WorkflowId} {j k : ℕ} {operator : Operator}
  {now : DbMillis}

/-- The log of `w` has `k` events more, and nothing changed but logs. -/
structure Sys.Records (w : WorkflowId) (k : ℕ) (s s' : Sys) : Prop where
  inv : s'.Inv
  workflows : s'.db.workflows = s.db.workflows
  activities : s'.db.activities = s.db.activities
  activityClaims : s'.activityClaims = s.activityClaims
  length : (s'.db.eventsOf w).length = (s.db.eventsOf w).length + k

namespace Sys.Records

theorem refl (h : s.Inv) : s.Records w 0 s := ⟨h, rfl, rfl, rfl, rfl⟩

theorem trans (h : s.Records w j s') (h' : s'.Records w k s'') : s.Records w (j + k) s'' where
  inv := h'.inv
  workflows := h'.workflows.trans h.workflows
  activities := h'.activities.trans h.activities
  activityClaims := h'.activityClaims.trans h.activityClaims
  length := by rw [h'.length, h.length, Nat.add_assoc]

end Sys.Records

theorem keeps_recordScheduleRunNow {f : DB → α}
    (h : ∀ events db, f { db with events := events } = f db) :
    Keeps f (recordScheduleRunNow w operator now) :=
  .bind (.bind keeps_findRow fun _ => .orAbort _ _) fun _ => .bind (keeps_nextEventSequence _)
    fun _ => keeps_appendEvent h _

/-- The run of a schedule adds an event to a log with room. -/
theorem step_records (h : s.Inv) (hw : (s.db.workflows.find w).isSome)
    (hroom : (s.db.eventsOf w).length < I32.max) :
    s.Records w 1 (step externals s (.recordScheduleRunNow w operator now)) := by
  obtain ⟨r, hr⟩ := Option.isSome_iff_exists.mp hw
  obtain rfl : r.id = w := Table.key_of_find hr
  have hwp : wp (recordScheduleRunNow r.id operator now)
      (fun _ db' => ∃ e, Touches s.db r.id (fun g => g.addEvent e) db') (fun _ => False) s.db := by
    simp only [recordScheduleRunNow, lockWorkflow, appendOperatorEvent, wp_bind, wp_findRow,
      wp_orAbort, workflowTable_get, hr]
    refine ⟨?_, fun h => by cases h⟩
    rintro _ ⟨⟩
    exact wp_appendHistoryEvent (h.sound.log r.id) (fun hfull => Nat.not_lt_of_le hfull hroom)
      (fun _ h => by cases h) rfl fun e db' _ _ ht => ⟨e, ht⟩
  obtain ⟨_, db', hok, e, ht⟩ := wp_returns hwp
  have hexec : exec externals s (.recordScheduleRunNow r.id operator now) =
      .ok { s with db := db' } := by
    rw [exec, transact', transact, hok]
  rw [step, Machine.step_of_ok hexec]
  refine ⟨(exec_leads h hexec).inv, ?_, ?_, rfl, ?_⟩
  · exact (keeps_recordScheduleRunNow fun _ _ => rfl).ok (f := DB.workflows) hok
  · exact (keeps_recordScheduleRunNow fun _ _ => rfl).ok (f := DB.activities) hok
  · show (db'.aggregate r.id).events.length = _
    rw [ht.self]
    exact List.length_append

/-- Runs of a schedule add as many events as there is room for. -/
theorem run_records (h : s.Inv) (hw : (s.db.workflows.find w).isSome)
    (hroom : (s.db.eventsOf w).length + k ≤ I32.max) :
    s.Records w k
      (run externals s (List.replicate k (.recordScheduleRunNow w operator now))) := by
  induction k generalizing s with
  | zero => exact .refl h
  | succ k ih =>
    have hstep : s.Records w 1 (step externals s (.recordScheduleRunNow w operator now)) :=
      step_records h hw (by omega)
    have hrest := ih hstep.inv (by rwa [hstep.workflows]) (by rw [hstep.length]; omega)
    have hrun := hstep.trans hrest
    rwa [Nat.add_comm 1 k] at hrun

end DurableWorkflows
