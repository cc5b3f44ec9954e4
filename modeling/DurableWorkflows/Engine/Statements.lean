import DurableWorkflows.Engine.Evolution

/-!
# Statements

One rule for every statement the transactions are made of. A rule takes the
statement from `db` to an arbitrary `db'` that differs by a local edit, so that
a proof about a transaction never looks at the tables.

## Main results

- `wp_updateWorkflow`, `wp_updateActivity`, `wp_updateApproval`,
  `wp_updateOpenAttempt`: the fenced updates
- `wp_appendHistoryEvent`, `wp_appendDelivery`: the event log
- `wp_wakeWaitingParentsOnChildTerminal`: the delivery of a child's outcome
-/

namespace DurableWorkflows

open Transaction

variable {db : DB} {E : DurableError → Prop} {w : WorkflowId} {a : ActivityId} {p : ApprovalId}
  {now : DbMillis}

/-- The errors that report no broken invariant. -/
abbrev Benign (e : DurableError) : Prop := e.isBenign = true

/-- Every error of a computation is benign. -/
def BenignErrors {α : Type} (x : Except DurableError α) : Prop := ∀ e, x = .error e → Benign e

namespace BenignErrors

variable {α β : Type}

theorem ok (x : α) : BenignErrors (.ok x) := nofun

theorem error {e : DurableError} (h : Benign e) : BenignErrors (.error e : Except DurableError α) := by
  rintro _ ⟨⟩
  exact h

theorem bind {x : Except DurableError α} {f : α → Except DurableError β} (hx : BenignErrors x)
    (hf : ∀ y, x = .ok y → BenignErrors (f y)) : BenignErrors (x >>= f) := by
  cases x with
  | ok y => exact hf y rfl
  | error e => exact error (hx e rfl)

theorem ite {c : Prop} [Decidable c] {x y : Except DurableError α} (hx : c → BenignErrors x)
    (hy : ¬c → BenignErrors y) : BenignErrors (if c then x else y) := by
  split
  · exact hx ‹_›
  · exact hy ‹_›

theorem rejectIf {c : Prop} [Decidable c] {e : DurableError} (he : Benign e) :
    BenignErrors (DurableWorkflows.rejectIf c e) :=
  .ite (fun _ => .error he) fun _ => .ok ()

theorem ensureSize (field value : String) (maxBytes : ℕ) :
    BenignErrors (DurableWorkflows.ensureSize field value maxBytes) :=
  .ite (fun _ => .error rfl) fun _ => .ok ()

end BenignErrors

theorem benignErrors_durationMillis (millis : ℕ) : BenignErrors (durationMillis millis) :=
  .ite (fun _ => .ok _) fun _ => .error rfl

@[simp]
theorem workflowTable_get : workflowTable.get db = db.workflows := rfl

@[simp]
theorem activityTable_get : activityTable.get db = db.activities := rfl

@[simp]
theorem approvalTable_get : approvalTable.get db = db.approvals := rfl

@[simp]
theorem scheduleRunTable_get : scheduleRunTable.get db = db.scheduleRuns := rfl

-- ════════════════════════════════════════════════════════════════════════
-- Reads and fenced updates
-- ════════════════════════════════════════════════════════════════════════

@[simp]
theorem wp_firstRow {α : Type} [Keyed α] {T : TableOf DB α} {i : ℕ} {Q : α → DB → Prop} :
    wp (firstRow T i) Q E db ↔ (∀ r, (T.get db).find i = some r → Q r db) ∧
      ((T.get db).find i = none → E (.database .notFound)) := by
  simp [firstRow]

/-- A fenced update changes its row, or aborts if the fence does not hold. -/
theorem wp_fencedUpdate {α : Type} [Keyed α] {T : TableOf DB α} {i : ℕ} {fence : α → Bool}
    {f : α → α} {hf} {Q : Unit → DB → Prop}
    (hE : (∀ r, (T.get db).find i = some r → fence r = false) → E .fencedWrite)
    (h : ∀ r, (T.get db).find i = some r → fence r = true →
      Q () (T.set ((T.get db).modify i f hf) db)) :
    wp (fencedUpdate T i fence f hf) Q E db := by
  unfold fencedUpdate
  rw [wp_bind, wp_updateRow]
  refine ⟨fun r hr hfence => ?_, fun hmiss => ?_⟩
  · simpa using h r hr hfence
  · simpa using hE hmiss

theorem wp_updateWorkflow {fence : WorkflowRow → Bool} {f : WorkflowRow → WorkflowRow} {hf}
    {Q : Unit → DB → Prop}
    (hE : (∀ r, db.workflows.find w = some r → fence r = false) → E .fencedWrite)
    (h : ∀ r db', db.workflows.find w = some r → fence r = true →
      Touches db w (fun g => g.setRow (f r)) db' → Q () db') :
    wp (fencedUpdate workflowTable w fence f hf) Q E db :=
  wp_fencedUpdate hE fun r hr hfence => h r _ hr hfence (touches_updateRow_workflow hr)

theorem wp_updateActivity {fence : ActivityRow → Bool} {f : ActivityRow → ActivityRow} {hf}
    {Q : Unit → DB → Prop}
    (hE : (∀ r, db.activities.find a = some r → fence r = false) → E .fencedWrite)
    (hw : ∀ r, (f r).workflowId = r.workflowId)
    (h : ∀ act db', db.activities.find a = some act → fence act = true →
      Touches db act.workflowId (fun g => g.setActivity a (f act)) db' → Q () db') :
    wp (fencedUpdate activityTable a fence f hf) Q E db :=
  wp_fencedUpdate hE fun act ha hfence => h act _ ha hfence (touches_updateRow_activity ha (hw act))

theorem wp_updateApproval {fence : ApprovalRow → Bool} {f : ApprovalRow → ApprovalRow} {hf}
    {Q : Unit → DB → Prop}
    (hE : (∀ r, db.approvals.find p = some r → fence r = false) → E .fencedWrite)
    (hw : ∀ r, (f r).workflowId = r.workflowId)
    (h : ∀ approval db', db.approvals.find p = some approval → fence approval = true →
      Touches db approval.workflowId (fun g => g.setApproval p (f approval)) db' → Q () db') :
    wp (fencedUpdate approvalTable p fence f hf) Q E db :=
  wp_fencedUpdate hE fun approval hp hfence =>
    h approval _ hp hfence (touches_updateRow_approval hp (hw approval))

/-- An update whose fence holds. -/
theorem wp_updateWorkflow_of {fence : WorkflowRow → Bool} {f : WorkflowRow → WorkflowRow} {hf}
    {r : WorkflowRow} {Q : Unit → DB → Prop} (hr : db.workflows.find w = some r)
    (hfence : fence r = true)
    (h : ∀ db', Touches db w (fun g => g.setRow (f r)) db' → Q () db') :
    wp (fencedUpdate workflowTable w fence f hf) Q E db := by
  refine wp_updateWorkflow (fun hmiss => ?_) fun r' db' hr' _ ht => ?_
  · exact absurd hfence (by simp [hmiss r hr])
  · obtain rfl : r' = r := by simpa [hr] using hr'.symm
    exact h db' ht

theorem wp_updateActivity_of {fence : ActivityRow → Bool} {f : ActivityRow → ActivityRow} {hf}
    {act : ActivityRow} {Q : Unit → DB → Prop} (ha : db.activities.find a = some act)
    (hfence : fence act = true) (hw : ∀ r, (f r).workflowId = r.workflowId)
    (h : ∀ db', Touches db act.workflowId (fun g => g.setActivity a (f act)) db' → Q () db') :
    wp (fencedUpdate activityTable a fence f hf) Q E db := by
  refine wp_updateActivity (fun hmiss => ?_) hw fun act' db' ha' _ ht => ?_
  · exact absurd hfence (by simp [hmiss act ha])
  · obtain rfl : act' = act := by simpa [ha] using ha'.symm
    exact h db' ht

/-- An update of the open attempt of an activity that exists. -/
theorem wp_updateOpenAttempt {act : ActivityRow} {n : ℕ} {token : LeaseToken}
    {f : ActivityAttemptRow → ActivityAttemptRow} {Q : Unit → DB → Prop}
    (ha : db.activities.find a = some act)
    (hE : (∀ attempt, db.attempts a n = some attempt → attempt.leaseToken = token →
      attempt.finishedAt ≠ none) → E .fencedWrite)
    (h : ∀ attempt db', db.attempts a n = some attempt → attempt.leaseToken = token →
      attempt.finishedAt = none →
      Touches db act.workflowId (fun g => g.setAttempt a n (f attempt)) db' → Q () db') :
    wp (updateOpenAttempt a n token f) Q E db := by
  unfold updateOpenAttempt
  simp only [wp_bind, wp_read, wp_orAbort, wp_modify]
  refine ⟨fun attempt hattempt => ?_, fun hnone => ?_⟩
  · simp only [Option.filter_eq_some_iff, Bool.and_eq_true, beq_iff_eq,
      Option.isNone_iff_eq_none] at hattempt
    exact h attempt _ hattempt.1 hattempt.2.1 hattempt.2.2 (touches_setAttempt ha)
  · refine hE fun attempt hattempt htoken hopen => ?_
    simp [hattempt, htoken, hopen] at hnone

theorem wp_updateOpenAttempt_of {act : ActivityRow} {n : ℕ} {attempt : ActivityAttemptRow}
    {f : ActivityAttemptRow → ActivityAttemptRow} {Q : Unit → DB → Prop}
    (ha : db.activities.find a = some act) (hattempt : db.attempts a n = some attempt)
    (hopen : attempt.finishedAt = none)
    (h : ∀ db', Touches db act.workflowId (fun g => g.setAttempt a n (f attempt)) db' → Q () db') :
    wp (updateOpenAttempt a n attempt.leaseToken f) Q E db := by
  refine wp_updateOpenAttempt ha (fun hmiss => ?_) fun attempt' db' hattempt' _ _ ht => ?_
  · exact absurd hopen (hmiss attempt hattempt rfl)
  · obtain rfl : attempt' = attempt := by simpa [hattempt] using hattempt'.symm
    exact h db' ht

/-- The insert of an attempt whose number is new. -/
theorem wp_insertAttempt {act : ActivityRow} {attempt : ActivityAttemptRow} {Q : Unit → DB → Prop}
    (ha : db.activities.find attempt.activityId = some act)
    (hnew : db.attempts attempt.activityId attempt.attemptNumber = none)
    (h : ∀ db', Touches db act.workflowId (fun g =>
      g.setAttempt attempt.activityId attempt.attemptNumber attempt) db' → Q () db') :
    wp (insertAttempt attempt) Q E db := by
  unfold insertAttempt
  simp only [wp_bind, wp_read, wp_ensure, wp_modify, hnew, Option.isNone_none, forall_const,
    not_true_eq_false, IsEmpty.forall_iff, and_true]
  exact h _ (touches_setAttempt ha)

-- ════════════════════════════════════════════════════════════════════════
-- The event log
-- ════════════════════════════════════════════════════════════════════════

/-- The last number of a log. -/
theorem Log.max_sequence {events : List WorkflowEventRow} (h : Log events) :
    (events.map (·.sequence)).max?.getD 0 = events.length := by
  rw [h.sequences]
  cases events.length with
  | zero => rfl
  | succ n =>
    have hmax : (List.range' 1 (n + 1)).max? = some (n + 1) := by
      rw [List.max?_eq_some_iff]
      refine ⟨List.mem_range'_1.mpr (by omega), fun m hm => ?_⟩
      have := List.mem_range'_1.mp hm
      omega
    rw [hmax]
    rfl

theorem wp_nextEventSequence {Q : ℕ → DB → Prop} (hlog : Log (db.aggregate w).events)
    (hE : I32.max ≤ (db.aggregate w).events.length → E (.invalidState .eventSequenceOverflow))
    (h : (db.aggregate w).events.length + 1 ≤ I32.max →
      Q ((db.aggregate w).events.length + 1) db) :
    wp (nextEventSequence w) Q E db := by
  unfold nextEventSequence
  simp only [wp_bind, wp_read, wp_orAbort, I32.checkedAdd]
  rw [← aggregate_events, hlog.max_sequence]
  split
  · rename_i hle
    exact ⟨fun n hn => by cases hn; exact h hle, fun h => by cases h⟩
  · exact ⟨(fun _ h => by cases h), fun _ => hE (by omega)⟩

/-- An append of the next event of a log meets no other event. -/
theorem wp_appendEvent {e : WorkflowEventRow} {d : Option ℕ} {Q : Unit → DB → Prop}
    (hlog : Log (db.aggregate e.workflowId).events)
    (he : NextEvent (db.aggregate e.workflowId).events d e)
    (hd : ∀ n, d = some n → n = (deliveries (db.aggregate e.workflowId).events).length + 1)
    (h : ∀ db', Touches db e.workflowId (fun g => g.addEvent e) db' → Q () db') :
    wp (appendEvent e) Q E db := by
  unfold appendEvent
  simp only [wp_bind, wp_read, wp_ensure, wp_modify]
  have hsequence : ∀ e' ∈ db.eventsOf e.workflowId, e'.sequence ≠ e.sequence := by
    intro e' he' heq
    have hmem := List.mem_map_of_mem (f := (·.sequence)) he'
    rw [← aggregate_events, hlog.sequences, List.mem_range'_1, heq, he.sequence] at hmem
    omega
  have hdelivery : ∀ e' ∈ db.eventsOf e.workflowId, e'.deliverySequence.isSome →
      e'.deliverySequence ≠ e.deliverySequence := by
    intro e' he' hsome heq
    obtain ⟨n, hn⟩ := Option.isSome_iff_exists.mp hsome
    rw [hn, he.delivers] at heq
    have hmem : n ∈ deliveries (db.aggregate e.workflowId).events :=
      List.mem_filterMap.mpr ⟨e', he', hn⟩
    have := hlog.mem_deliveries.mp hmem
    have := hd n heq.symm
    omega
  exact ⟨fun _ => ⟨fun _ => h _ touches_addEvent, fun hn => absurd hdelivery hn⟩,
    fun hn => absurd hsequence hn⟩

theorem EventType.resultKind_of_isHistory {t : EventType} (h : t.isHistory = true) :
    t.resultKind = none := by
  cases t <;> first | rfl | cases h

theorem EventType.ne_started_of_isHistory {t : EventType} {p : Prop} (h : t.isHistory = true)
    (hstarted : t = .started) : p := by
  subst hstarted
  cases h

/-- A history event. -/
theorem wp_appendHistoryEvent {eventType : EventType} {actorType : ActorType}
    {actorId reason : Option String} {metadata : Option EventMetadata} {Q : Unit → DB → Prop}
    (hlog : Log (db.aggregate w).events)
    (hE : I32.max ≤ (db.aggregate w).events.length → E (.invalidState .eventSequenceOverflow))
    (hm : ∀ event, metadata ≠ some (.event event)) (htype : eventType.isHistory = true)
    (h : ∀ e db', NextEvent (db.aggregate w).events none e → e.answers = none →
      Touches db w (fun g => g.addEvent e) db' → Q () db') :
    wp (appendHistoryEvent w eventType actorType actorId reason metadata now) Q E db := by
  unfold appendHistoryEvent
  rw [wp_bind]
  refine wp_nextEventSequence hlog hE fun hbound => ?_
  have hanswers : ∀ e : WorkflowEventRow, e.metadata = metadata →
      e.answers = none ∧ e.answersKind = none := by
    intro e hmeta
    unfold WorkflowEventRow.answers WorkflowEventRow.answersKind
    rw [hmeta]
    split
    · exact absurd rfl (hm _)
    · exact ⟨rfl, rfl⟩
    · exact ⟨rfl, rfl⟩
  have he : NextEvent (db.aggregate w).events none
      ⟨w, (db.aggregate w).events.length + 1, none, eventType, metadata, some actorType, actorId,
        reason, now⟩ := by
    refine ⟨rfl, hbound, rfl, nofun, ?_, EventType.ne_started_of_isHistory htype⟩
    exact (EventType.resultKind_of_isHistory htype).trans (hanswers _ rfl).2.symm
  exact wp_appendEvent hlog he nofun fun db' => h _ db' he (hanswers _ rfl).1

/-- A deliverable event. Its number need only be right while the log has
room. -/
theorem wp_appendDelivery {n : ℕ} {eventType : EventType} {metadata : Option EventMetadata}
    {actorType : ActorType} {actorId reason : Option String} {Q : Unit → DB → Prop}
    (hlog : Log (db.aggregate w).events)
    (hn : (db.aggregate w).events.length + 1 ≤ I32.max →
      n = (deliveries (db.aggregate w).events).length + 1)
    (hmeta : eventType = .continued ∧ metadata = none ∨
      ∃ event, metadata = some (.event event) ∧ eventType.resultKind = event.waitKind)
    (hlater : eventType ≠ .started)
    (hE : I32.max ≤ (db.aggregate w).events.length → E (.invalidState .eventSequenceOverflow))
    (h : ∀ e db', NextEvent (db.aggregate w).events (some n) e → e.metadata = metadata →
      Touches db w (fun g => g.addEvent e) db' → Q () db') :
    wp (appendDelivery w n eventType metadata actorType actorId reason now) Q E db := by
  unfold appendDelivery
  rw [wp_bind]
  refine wp_nextEventSequence hlog hE fun hbound => ?_
  have he : NextEvent (db.aggregate w).events (some n)
      ⟨w, (db.aggregate w).events.length + 1, some n, eventType, metadata, some actorType, actorId,
        reason, now⟩ := by
    rcases hmeta with ⟨rfl, rfl⟩ | ⟨event, rfl, htype⟩
    · exact ⟨rfl, hbound, rfl, fun _ => ⟨_, rfl⟩, rfl, nofun⟩
    · refine ⟨rfl, hbound, rfl, fun _ => ?_, htype, fun hstarted => absurd hstarted hlater⟩
      unfold decodeEvent
      split <;> exact ⟨_, rfl⟩
  exact wp_appendEvent hlog he (fun m hm => by cases hm; exact hn hbound) fun db' => h _ db' he rfl

/-- The rows a history event leaves alone. -/
theorem Touches.find_of_addEvent {db' : DB} {e : WorkflowEventRow}
    (h : Touches db w (fun g => g.addEvent e) db') (w' : WorkflowId) :
    db'.workflows.find w' = db.workflows.find w' := by
  by_cases hw : w' = w
  · subst hw
    exact congrArg Aggregate.row h.self
  · exact congrArg Aggregate.row (h.other w' hw)

/-- A history event is a step of a workflow that exists. -/
theorem wp_history {r : WorkflowRow} {eventType : EventType} {actorType : ActorType}
    {actorId reason : Option String} {metadata : Option EventMetadata}
    {P : WorkflowId → Label → Prop} {Q : Unit → DB → Prop} (hs : db.Sound)
    (hr : db.workflows.find w = some r)
    (hE : I32.max ≤ (db.aggregate w).events.length → E (.invalidState .eventSequenceOverflow))
    (hP : P w .history) (hm : ∀ event, metadata ≠ some (.event event))
    (htype : eventType.isHistory = true)
    (h : ∀ db', Evolves P db db' → (∀ w', db'.workflows.find w' = db.workflows.find w') →
      Q () db') :
    wp (appendHistoryEvent w eventType actorType actorId reason metadata now) Q E db := by
  refine wp_appendHistoryEvent (hs.log w) hE hm htype fun e db' he hanswers ht => ?_
  exact h db' (.of_step ht (.history hr he hanswers) hP) ht.find_of_addEvent

-- ════════════════════════════════════════════════════════════════════════
-- Waits
-- ════════════════════════════════════════════════════════════════════════

section Waits

variable {g : Aggregate} {r : WorkflowRow} {wait : Wait}

/-- The parsed wait is the awaited one; the only failure is an id that no row
has. -/
theorem RowInv.wait_eq (h : RowInv r) :
    (∀ o, r.wait = .ok o → o = r.awaited) ∧ ∀ e, r.wait = .error e → Benign e := by
  have hcolumns := h.columns
  unfold WorkflowRow.wait WorkflowRow.awaited
  generalize r.waitKind = kind at hcolumns ⊢
  generalize r.waitReferenceId = reference at hcolumns ⊢
  cases kind with
  | none =>
    cases reference with
    | none => exact ⟨fun o ho => by cases ho; rfl, nofun⟩
    | some _ => cases hcolumns
  | some kind =>
    cases reference with
    | none => cases hcolumns
    | some reference =>
      cases kind <;> simp only [Wait.parse]
      · exact ⟨fun o ho => by cases ho; rfl, nofun⟩
      all_goals
        split
        · exact ⟨nofun, fun e he => by cases he; rfl⟩
        · exact ⟨fun o ho => by cases ho; rfl, nofun⟩

/-- The wait columns of a row that has not ended always parse: what they refer to
is stored, so its id is positive. -/
theorem DB.Sound.wait_eq (hs : db.Sound) (hx : db.Attached ∅) (hr : db.workflows.find w = some r)
    (ht : r.status.isTerminal = false) : r.wait = .ok r.awaited := by
  have hinv := hs.inv hr
  have hpos : ∀ wait, r.awaited = some wait → wait.kind ≠ .timer → wait.referenceId ≠ 0 := by
    intro wait hw hkind
    cases wait with
    | timer => exact absurd rfl hkind
    | activity a =>
      obtain ⟨act, hact, -⟩ := hinv.awaited ht _ hw
      exact (Table.pos_of_find (aggregate_activity.mp hact).1).ne'
    | approval p =>
      obtain ⟨approval, happ, -⟩ := hinv.awaited ht _ hw
      exact (Table.pos_of_find (aggregate_approval.mp happ).1).ne'
    | child c =>
      have hc : (db.aggregate w).AwaitsChild c :=
        (Aggregate.awaitsChild_iff hr).mpr ⟨hinv.row.awaitsChild ht hw, hw⟩
      obtain hin | ⟨child, hchild, -⟩ := hx w c hc
      · exact hin.elim
      · exact (Table.pos_of_find hchild).ne'
  have hcolumns := hinv.row.columns
  unfold WorkflowRow.awaited at hpos
  unfold WorkflowRow.wait WorkflowRow.awaited
  generalize r.waitKind = kind at hcolumns hpos ⊢
  generalize r.waitReferenceId = reference at hcolumns hpos ⊢
  cases kind with
  | none =>
    cases reference with
    | none => rfl
    | some _ => cases hcolumns
  | some kind =>
    cases reference with
    | none => cases hcolumns
    | some reference =>
      have hne := hpos _ rfl
      cases kind with
      | timer => rfl
      | activity | child | approval => exact if_neg (hne (by simp [WaitKind.toWait, Wait.kind]))

/-- The delivery number of the answer to a wait. -/
theorem Inv.next_delivery (h : Inv g r) (ht : r.status.isTerminal = false)
    (hw : r.awaited = some wait) :
    r.deliveredEventSequence + 1 = (deliveries g.events).length + 1 := by
  have hne : ¬(deliveries g.events).length = r.deliveredEventSequence + 1 := fun hlen => by
    have hnone : r.awaited = none := (h.delivery.pending ht).mp hlen
    simp [hw] at hnone
  have hle : r.deliveredEventSequence ≤ (deliveries g.events).length := h.delivery.delivered_le
  have hge : (deliveries g.events).length ≤ r.deliveredEventSequence + 1 := h.delivery.le_delivered
  omega

end Waits

-- ════════════════════════════════════════════════════════════════════════
-- Terminal children
-- ════════════════════════════════════════════════════════════════════════

section Children

variable {c : WorkflowId} {kind : String} {version : ℤ} {outcome : ChildOutcome}
  {parent : WorkflowRow} {P : WorkflowId → Label → Prop}

/-- The event of a child's outcome answers the parent's command. -/
theorem childOutcomeEvent_ok {n : ℕ} {eventType : EventType} {event : WorkflowEvent}
    (h : childOutcomeEvent n kind version outcome = .ok (eventType, event)) :
    event.commandSequence? = some n ∧ event.waitKind = some .child ∧
      eventType.resultKind = event.waitKind := by
  unfold childOutcomeEvent StepResult.newChild at h
  cases outcome with
  | ok outputJson =>
    simp only [bind, Except.bind, pure, Except.pure, ensureSize] at h
    split at h
    · cases h
    · rename_i hok
      split at hok
      · cases hok
      · cases h
        exact ⟨rfl, rfl, rfl⟩
  | error reason =>
    cases h
    exact ⟨rfl, rfl, rfl⟩

theorem childOutcomeEvent_ne_started {n : ℕ} {eventType : EventType} {event : WorkflowEvent}
    (h : childOutcomeEvent n kind version outcome = .ok (eventType, event)) :
    eventType ≠ .started := by
  have hkind := childOutcomeEvent_ok h
  rintro rfl
  rw [hkind.2.1] at hkind
  exact absurd hkind.2.2 nofun

theorem benignErrors_childOutcomeEvent (n : ℕ) :
    BenignErrors (childOutcomeEvent n kind version outcome) := by
  unfold childOutcomeEvent
  cases outcome with
  | ok outputJson => exact .bind (.bind (.ensureSize _ _ _) fun _ _ => .ok _) fun _ _ => .ok _
  | error reason => exact .ok _

/-- What an answered event carries. -/
theorem answers_of_metadata {e : WorkflowEventRow} {event : WorkflowEvent}
    (h : e.metadata = some (.event event)) :
    e.answers = event.commandSequence? ∧ e.answersKind = event.waitKind := by
  simp [WorkflowEventRow.answers, WorkflowEventRow.answersKind, h]

/-- An event that answers no command answers no kind of wait. -/
theorem WorkflowEventRow.answersKind_eq_none {e : WorkflowEventRow} :
    e.answersKind = none ↔ e.answers = none := by
  unfold answersKind answers
  split
  next event _ => cases event <;> simp [WorkflowEvent.waitKind, WorkflowEvent.commandSequence?]
  · simp
  · simp

/-- A result of a kind answers a command. -/
theorem answers_of_answersKind {e : WorkflowEventRow} {kind : WaitKind}
    (h : e.answersKind = some kind) : ∃ n, e.answers = some n := by
  refine Option.ne_none_iff_exists'.mp fun hnone => ?_
  rw [WorkflowEventRow.answersKind_eq_none.mpr hnone] at h
  cases h

/-- One parent is woken: its wait is answered and no other workflow changes. -/
theorem wp_wakeLoadedParentOnChildTerminal {Q : Unit → DB → Prop} (hs : db.Sound)
    (hparent : db.workflows.find parent.id = some parent)
    (hstatus : parent.status.awaitsChild = true) (hwait : parent.awaited = some (.child c))
    (hP : P parent.id (.answered (.child c)))
    (h : ∀ db', (∀ w, w ≠ parent.id → db'.aggregate w = db.aggregate w) → Evolves P db db' →
      (∀ c', ¬(db'.aggregate parent.id).AwaitsChild c') → Q () db') :
    wp (wakeLoadedParentOnChildTerminal parent c kind version outcome now) Q Benign db := by
  have hinv := hs.inv hparent
  have ht := open_of_awaitsChild hstatus
  unfold wakeLoadedParentOnChildTerminal
  simp only [hstatus, if_true, wp_bind, wp_ofExcept, wp_ite]
  refine ⟨fun o ho => ?_, hinv.row.wait_eq.2⟩
  obtain rfl := hinv.row.wait_eq.1 o ho
  refine ⟨fun _ => ⟨?_, benignErrors_childOutcomeEvent _⟩, fun hne => absurd hwait hne⟩
  rintro ⟨eventType, event⟩ hevent
  obtain ⟨hcommand, hkind, htype⟩ := childOutcomeEvent_ok hevent
  rw [wp_orAbort]
  refine ⟨fun n hn => ?_, fun _ => rfl⟩
  obtain ⟨-, rfl⟩ := I32.checkedAdd_eq_some.mp hn
  refine wp_appendDelivery hinv.delivery.log (fun _ => hinv.next_delivery ht hwait)
    (.inr ⟨_, rfl, htype⟩) (childOutcomeEvent_ne_started hevent) (fun _ => rfl)
    fun e db₁ he hmeta ht₁ => ?_
  obtain ⟨hanswers, hanswersKind⟩ := answers_of_metadata hmeta
  refine wp_updateWorkflow (fun _ => rfl) fun r db₂ hr _ ht₂ => ?_
  obtain rfl : r = parent := by
    rw [ht₁.find_of_addEvent, hparent] at hr
    exact (Option.some_inj.mp hr).symm
  have htouch := ht₁.trans ht₂
  refine h db₂ htouch.other (.of_step htouch ?_ hP) fun c' => ?_
  · exact .answered hparent hwait (.inl ⟨hstatus, rfl⟩) he (hanswers.trans hcommand)
      (hanswersKind.trans hkind) now
  · rw [htouch.self]
    exact not_awaitsChild rfl (.inr (fun _ h => by cases h))

/-- The parents of a child are those that the scan finds. -/
theorem mem_waitingParents {r : WorkflowRow} :
    r ∈ db.workflows.select (fun r => r.waitKind == some .child && r.waitReferenceId == some c &&
        r.status.awaitsChild) ↔
      db.workflows.find r.id = some r ∧ r.status.awaitsChild = true ∧
        r.awaited = some (.child c) := by
  rw [Table.mem_select]
  simp only [Bool.and_eq_true, beq_iff_eq]
  constructor
  · rintro ⟨hr, ⟨hk, href⟩, hstatus⟩
    exact ⟨hr, hstatus, by simp [WorkflowRow.awaited, hk, href, WaitKind.toWait]⟩
  · rintro ⟨hr, hstatus, hw⟩
    unfold WorkflowRow.awaited at hw
    split at hw
    · rename_i kind reference hk href
      cases kind <;> simp [WaitKind.toWait] at hw
      exact ⟨hr, ⟨hk, by rw [href, hw]⟩, hstatus⟩
    all_goals cases hw

/-- A loop over the parents of a child, with what it makes of each of them. -/
theorem wp_forEach_parents {f : WorkflowRow → Tx Unit} {R : WorkflowRow → Aggregate → Prop}
    {Q : Unit → DB → Prop} (hs : db.Sound)
    (hf : ∀ (parent : WorkflowRow) (db₁ : DB), db₁.Sound → (db.aggregate parent.id).AwaitsChild c →
      db₁.workflows.find parent.id = some parent → parent.status.awaitsChild = true →
      parent.awaited = some (.child c) →
      wp (f parent) (fun _ db' => (∀ w, w ≠ parent.id → db'.aggregate w = db₁.aggregate w) ∧
        Evolves P db₁ db' ∧ R parent (db'.aggregate parent.id)) Benign db₁)
    (h : ∀ db', Evolves P db db' →
      (∀ w r, db.workflows.find w = some r → (db.aggregate w).AwaitsChild c →
        R r (db'.aggregate w)) →
      (∀ w, ¬(db.aggregate w).AwaitsChild c → db'.aggregate w = db.aggregate w) → Q () db') :
    wp (do let parents ← waitingParents c; forEach parents f) Q Benign db := by
  simp only [waitingParents, wp_bind, wp_selectRows, workflowTable_get]
  set parents := db.workflows.select fun r =>
    r.waitKind == some .child && r.waitReferenceId == some c && r.status.awaitsChild with hparents
  have hmem : ∀ r, r ∈ parents ↔ db.workflows.find r.id = some r ∧ r.status.awaitsChild = true ∧
      r.awaited = some (.child c) := fun r => mem_waitingParents
  -- the parents already visited satisfy `R`, all other aggregates are as they were
  refine wp_imp (wp_forEach (fun pre db' => Evolves P db db' ∧
      (∀ w, w ∉ pre.map (·.id) → db'.aggregate w = db.aggregate w) ∧
      ∀ r ∈ pre, R r (db'.aggregate r.id)) ?_ ?_) ?_
  · rintro pre parent post hsplit db₁ ⟨hev, hsame, hdone⟩
    have hnew : parent.id ∉ pre.map (·.id) := by
      intro hin
      obtain ⟨r, hr, hid⟩ := List.mem_map.mp hin
      have hpairwise := Table.pairwise_select (t := db.workflows) (p := fun r =>
        r.waitKind == some .child && r.waitReferenceId == some c && r.status.awaitsChild)
      rw [← hparents, hsplit] at hpairwise
      have hlt : r.id < parent.id :=
        (List.pairwise_append.mp hpairwise).2.2 r hr parent (List.mem_cons_self ..)
      exact hlt.ne hid
    obtain ⟨hfind, hstatus, hwait⟩ := (hmem parent).mp (by rw [hsplit]; simp)
    have hfind₁ : db₁.workflows.find parent.id = some parent :=
      (congrArg Aggregate.row (hsame parent.id hnew)).trans hfind
    refine wp_imp (hf parent db₁ (hev.sound hs) ⟨parent, hfind, hstatus, hwait⟩ hfind₁ hstatus
      hwait) ?_
    rintro - db₂ ⟨hother, hev₂, hR⟩
    refine ⟨hev.trans hev₂, fun w hw => ?_, List.forall_mem_append.mpr ⟨fun r hr => ?_, ?_⟩⟩
    · simp only [List.map_append, List.map_cons, List.map_nil, List.mem_append,
        List.mem_singleton, not_or] at hw
      rw [hother w hw.2, hsame w hw.1]
    · rw [hother r.id fun hid => hnew (hid ▸ List.mem_map_of_mem hr)]
      exact hdone r hr
    · exact List.forall_mem_singleton.mpr hR
  · exact ⟨.refl db, fun _ _ => rfl, by simp⟩
  · rintro - db' ⟨hev, hsame, hdone⟩
    refine h db' hev (fun w r hr hw => ?_) fun w hw => hsame w fun hin => ?_
    · obtain ⟨hstatus, hwait⟩ := (Aggregate.awaitsChild_iff hr).mp hw
      obtain rfl : r.id = w := Table.key_of_find hr
      exact hdone r ((hmem r).mpr ⟨hr, hstatus, hwait⟩)
    · obtain ⟨r, hr, rfl⟩ := List.mem_map.mp hin
      obtain ⟨hfind, hstatus, hwait⟩ := (hmem r).mp hr
      exact hw ⟨r, hfind, hstatus, hwait⟩

/-- Every parent of a child is woken. -/
theorem wp_wakeWaitingParentsOnChildTerminal {child : WorkflowRow} {Q : Unit → DB → Prop}
    (hs : db.Sound) (hP : ∀ w, P w (.answered (.child child.id)))
    (h : ∀ db', Evolves P db db' → (∀ w, ¬(db'.aggregate w).AwaitsChild child.id) →
      (∀ w, ¬(db.aggregate w).AwaitsChild child.id → db'.aggregate w = db.aggregate w) →
      Q () db') :
    wp (wakeWaitingParentsOnChildTerminal child outcome now) Q Benign db := by
  refine wp_forEach_parents (P := P) (R := fun _ g => ∀ c, ¬g.AwaitsChild c) hs
    (fun parent db hs _ hparent hstatus hwait => ?_) fun db' hev hwoken hsame => ?_
  · exact wp_wakeLoadedParentOnChildTerminal hs hparent hstatus hwait (hP parent.id)
      fun db' hother hev hfree => ⟨hother, hev, hfree⟩
  · refine h db' hev (fun w => ?_) hsame
    by_cases hw : (db.aggregate w).AwaitsChild child.id
    · obtain ⟨r, hr, -⟩ := id hw
      exact hwoken w r hr hw child.id
    · rw [hsame w hw]
      exact hw

end Children

end DurableWorkflows
