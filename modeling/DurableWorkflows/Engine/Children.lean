import DurableWorkflows.Engine.Deduplication
import DurableWorkflows.Engine.Reports

/-!
# Child waits

A commit that runs a child makes its workflow wait until the child's outcome is
delivered to it. From that commit on the workflow waits under the same command,
or it was told one outcome, or it was itself cancelled while it waited. It waits for
the child that the commit ran, or for the recoveries that took its place, and is told
how the last of them ended.

## Main definitions

- `DB.childResults`: the child outcomes delivered for a command
- `ChildWait`: the three states of a child wait
- `AsksFor`: what one command asks for

## Main results

- `Step.childWait`: every step keeps a child wait in one of its states
- `run_childOutcomes`: what follows a commit is what it asked for
- `run_childWaits`
-/

namespace DurableWorkflows

open Transaction Sys

variable {externals : Externals} {s s' : Sys} {db : DB} {g g' : Aggregate} {w : WorkflowId}
  {r : WorkflowRow} {e : WorkflowEventRow} {l : Label} {n : ℕ} {c c' : WorkflowId}
  {claim : ClaimedRow} {child : ChildWorkflowCommand}

/-- The event is a child outcome, delivered for the command `n`. -/
def WorkflowEventRow.isChildResult (e : WorkflowEventRow) (n : ℕ) : Bool :=
  (e.eventType == .childSucceeded || e.eventType == .childFailed) && e.deliverySequence.isSome &&
    e.answers == some n

/-- The child outcomes delivered to a workflow for the command `n`. -/
def DB.childResults (db : DB) (w : WorkflowId) (n : ℕ) : List WorkflowEventRow :=
  (db.eventsOf w).filter (·.isChildResult n)

/-- The child outcomes in a log for the command `n`. -/
def Aggregate.childResults (g : Aggregate) (n : ℕ) : List WorkflowEventRow :=
  g.events.filter (·.isChildResult n)

-- ════════════════════════════════════════════════════════════════════════
-- Results in a log
-- ════════════════════════════════════════════════════════════════════════

theorem childResults_addEvent (g : Aggregate) (e : WorkflowEventRow) (n : ℕ) :
    (g.addEvent e).childResults n =
      g.childResults n ++ if e.isChildResult n then [e] else [] := by
  simp only [Aggregate.childResults, Aggregate.addEvent, List.filter_append, List.filter_singleton]
  cases e.isChildResult n <;> rfl

/-- A child result answers its command. -/
theorem answers_of_isChildResult (h : e.isChildResult n = true) : e.answers = some n := by
  simp only [WorkflowEventRow.isChildResult, Bool.and_eq_true, beq_iff_eq] at h
  exact h.2

/-- An event that answers nothing is no child result. -/
theorem isChildResult_of_answers_none (h : e.answers = none) : e.isChildResult n = false := by
  simp [WorkflowEventRow.isChildResult, h]

/-- The delivered answer to a child wait is a child result. -/
theorem isChildResult_of_kind {d : ℕ} {events : List WorkflowEventRow}
    (he : NextEvent events (some d) e) (ha : e.answers = some n)
    (hkind : e.answersKind = some .child) : e.isChildResult n = true := by
  have htyped := he.typed
  rw [hkind] at htyped
  have htype : e.eventType = .childSucceeded ∨ e.eventType = .childFailed := by
    cases ht : e.eventType <;> simp [ht, EventType.resultKind] at htyped ⊢
  rcases htype with ht | ht <;> simp [WorkflowEventRow.isChildResult, ht, ha, he.delivers]

/-- No command is answered twice. -/
theorem Delivery.length_answers_le {events : List WorkflowEventRow} {c : Control}
    {q : WorkflowEventRow → Bool} (h : Delivery events c)
    (hq : ∀ e, q e = true → e.answers = some n) : (events.filter q).length ≤ 1 := by
  have hcount : (answeredCommands events).count n ≤ 1 :=
    List.nodup_iff_count_le_one.mp (h.sorted.imp Nat.ne_of_lt) n
  rw [answeredCommands, List.count_filterMap] at hcount
  rw [← List.countP_eq_length_filter]
  exact (List.countP_mono_left fun e _ he => beq_iff_eq.mpr (hq e he)).trans hcount

theorem DB.Sound.length_answers_le {db : DB} {w : WorkflowId} {q : WorkflowEventRow → Bool}
    (h : db.Sound) (hq : ∀ e, q e = true → e.answers = some n) :
    ((db.eventsOf w).filter q).length ≤ 1 := by
  cases hr : db.workflows.find w with
  | none =>
    have hnil : db.eventsOf w = [] := congrArg Aggregate.events (h.aggregate_of_none hr)
    simp [hnil]
  | some r => exact (h.inv hr).delivery.length_answers_le hq

/-- A command that no event answers has no child result. -/
theorem childResults_eq_nil (h : n ∉ answeredCommands g.events) : g.childResults n = [] := by
  refine List.filter_eq_nil_iff.mpr fun e he hresult => h ?_
  exact List.mem_filterMap.mpr ⟨e, he, answers_of_isChildResult hresult⟩

-- ════════════════════════════════════════════════════════════════════════
-- The three states of a child wait
-- ════════════════════════════════════════════════════════════════════════

/-- A child wait of the command `n`: it is open, or its outcome was delivered,
or the workflow was cancelled while it was open. -/
inductive ChildWait (r : WorkflowRow) (results : List WorkflowEventRow) (n : ℕ) : Prop
  | waits {c : WorkflowId} (hs : r.status = .waitingChild ∨ r.status = .paused)
      (hw : r.awaited = some (.child c)) (hn : r.commandSequence = n) (hnone : results = [])
  | delivered (hone : results.length = 1)
  | cancelled (hs : r.status = .cancelled) (hn : r.commandSequence = n) (hnone : results = [])

/-- The child wait of an aggregate. -/
def Aggregate.ChildWait (g : Aggregate) (n : ℕ) : Prop :=
  ∃ r, g.row = some r ∧ DurableWorkflows.ChildWait r (g.childResults n) n

/-- A delivered outcome stays the only one. -/
theorem Step.childWait_delivered (h : Step g l g') (hg : g.WellFormed)
    (hone : (g.childResults n).length = 1) (hr : g.row = some r) : g'.ChildWait n := by
  obtain ⟨r', hr'⟩ := h.exists_row ⟨r, hr⟩
  refine ⟨r', hr', .delivered ?_⟩
  have hle : (g'.childResults n).length ≤ 1 :=
    ((h.wellFormed hg).inv hr').delivery.length_answers_le fun _ => answers_of_isChildResult
  have hge : (g.childResults n).length ≤ (g'.childResults n).length :=
    (List.IsPrefix.filter _ h.events_extend).length_le
  omega

/-- An event that answers nothing adds no child result. -/
theorem childResults_of_answers_none (ha : e.answers = none) :
    (g.addEvent e).childResults n = g.childResults n := by
  rw [childResults_addEvent, isChildResult_of_answers_none ha]
  exact List.append_nil _

/-- An open child wait stays open until its outcome is delivered or its workflow
is cancelled. -/
theorem Step.childWait_waits {c : WorkflowId} (h : Step g l g') (hr : g.row = some r)
    (hs : r.status = .waitingChild ∨ r.status = .paused) (hc : r.awaited = some (.child c))
    (hn : r.commandSequence = n) (hnone : g.childResults n = []) : g'.ChildWait n := by
  have hrow : ∀ {r₀}, g.row = some r₀ → r₀ = r := fun hr₀ =>
    Option.some_inj.mp (hr₀.symm.trans hr)
  cases h with
  | inserted => cases hr
  | history _ _ ha =>
    exact ⟨r, hr, .waits hs hc hn ((childResults_of_answers_none ha).trans hnone)⟩
  | discarded | activityClaimed | renewed | released | settled =>
    exact ⟨r, hr, .waits hs hc hn hnone⟩
  | claimed hr₀ hs₀ | recovered hr₀ hs₀ | continued hr₀ hs₀ | completed hr₀ hs₀ | slept hr₀ hs₀
  | waitedApproval hr₀ hs₀ | waitedActivity hr₀ hs₀ | waitedChild hr₀ hs₀
  | activationFailed hr₀ hs₀ | revoked hr₀ hs₀ | superseded hr₀ hs₀ | retried hr₀ hs₀
  | succeeded hr₀ hs₀ | deadLettered hr₀ hs₀ | quarantined hr₀ hs₀ =>
    obtain rfl := hrow hr₀
    simp [hs₀] at hs
  | @answered _ r₀ e _ hr₀ hw₀ _ he ha hkind now =>
    obtain rfl := hrow hr₀
    obtain rfl := Option.some_inj.mp (hw₀.symm.trans hc)
    have hresult := isChildResult_of_kind he (ha.trans (congrArg some hn)) hkind
    have hresults : (g.addEvent e).childResults n = [e] := by
      rw [childResults_addEvent, hnone, if_pos hresult]
      rfl
    exact ⟨_, rfl, .delivered (congrArg List.length hresults)⟩
  | answeredApproval hr₀ hw₀ =>
    obtain rfl := hrow hr₀
    simp [hc] at hw₀
  | reattached hr₀ =>
    obtain rfl := hrow hr₀
    exact ⟨_, rfl, .waits hs rfl hn hnone⟩
  | paused hr₀ =>
    obtain rfl := hrow hr₀
    exact ⟨_, rfl, .waits (.inr rfl) hc hn hnone⟩
  | resumed hr₀ _ hstatus =>
    obtain rfl := hrow hr₀
    rw [Aggregate.ResumesTo, hc] at hstatus
    exact ⟨_, rfl, .waits (.inl hstatus) hc hn hnone⟩
  | cancelled hr₀ _ _ clear =>
    obtain rfl := hrow hr₀
    exact ⟨_, rfl, .cancelled rfl (by cases clear <;> exact hn) hnone⟩

/-- A cancelled workflow gets no child outcome any more. -/
theorem Step.childWait_cancelled (h : Step g l g') (hr : g.row = some r)
    (hs : r.status = .cancelled) (hn : r.commandSequence = n) (hnone : g.childResults n = []) :
    g'.ChildWait n := by
  have hrow : ∀ {r₀}, g.row = some r₀ → r₀ = r := fun hr₀ =>
    Option.some_inj.mp (hr₀.symm.trans hr)
  cases h with
  | inserted => cases hr
  | history _ _ ha =>
    exact ⟨r, hr, .cancelled hs hn ((childResults_of_answers_none ha).trans hnone)⟩
  | discarded | activityClaimed | renewed | released | settled =>
    exact ⟨r, hr, .cancelled hs hn hnone⟩
  | claimed hr₀ hs₀ | recovered hr₀ hs₀ | continued hr₀ hs₀ | completed hr₀ hs₀ | slept hr₀ hs₀
  | waitedApproval hr₀ hs₀ | waitedActivity hr₀ hs₀ | waitedChild hr₀ hs₀
  | activationFailed hr₀ hs₀ | revoked hr₀ hs₀ | superseded hr₀ hs₀ | retried hr₀ hs₀
  | succeeded hr₀ hs₀ | deadLettered hr₀ hs₀ | quarantined hr₀ hs₀ | resumed hr₀ hs₀ =>
    obtain rfl := hrow hr₀
    simp [hs₀] at hs
  | answered hr₀ _ hs₀ | answeredApproval hr₀ _ hs₀ | reattached hr₀ _ hs₀ =>
    obtain rfl := hrow hr₀
    simp [hs, WorkflowStatus.awaitsChild, WorkflowStatus.awaitsApproval] at hs₀
  | paused hr₀ _ ht | cancelled hr₀ ht =>
    obtain rfl := hrow hr₀
    simp [hs, WorkflowStatus.isTerminal] at ht

/-- Every step keeps a child wait in one of its three states. -/
theorem Step.childWait (h : Step g l g') (hg : g.WellFormed) (hw : g.ChildWait n) :
    g'.ChildWait n := by
  obtain ⟨r, hr, hwait⟩ := hw
  cases hwait with
  | waits hs hc hn hnone => exact h.childWait_waits hr hs hc hn hnone
  | delivered hone => exact h.childWait_delivered hg hone hr
  | cancelled hs hn hnone => exact h.childWait_cancelled hr hs hn hnone

theorem Steps.childWait {P : Label → Prop} (h : Steps P g g') (hg : g.WellFormed)
    (hw : g.ChildWait n) : g'.ChildWait n := by
  induction h with
  | refl => exact hw
  | tail hsteps hstep ih =>
    obtain ⟨l, -, hstep⟩ := hstep
    exact hstep.childWait (Steps.wellFormed hsteps hg) ih

-- ════════════════════════════════════════════════════════════════════════
-- Runs
-- ════════════════════════════════════════════════════════════════════════

/-- A committing step that waits for a child opens a child wait. -/
theorem Step.opens_childWait (h : Step g l g') (hkind : l.waitKind = some .child)
    (hg : g.WellFormed) (hr : g.row = some r) : g'.ChildWait (r.commandSequence + 1) := by
  cases h with
  | waitedChild hr₀ =>
    obtain rfl := Option.some_inj.mp (hr₀.symm.trans hr)
    refine ⟨_, rfl, .waits (.inl rfl) rfl rfl (childResults_eq_nil fun hmem => ?_)⟩
    exact Nat.not_succ_le_self _ ((hg.inv hr₀).delivery.answered_le _ hmem)
  | _ => cases hkind

/-- A commit that runs a child opens a child wait. -/
theorem Commits.childWait {claim : ClaimedRow} {db' : DB} {now : DbMillis} {stateJson : String}
    {child : ChildWorkflowCommand}
    (h : Commits claim (Writes claim now db (.runChild stateJson child)) db db') (hs : db.Sound) :
    (db'.aggregate claim.row.id).ChildWait (claim.row.commandSequence + 1) := by
  obtain ⟨l, g, _, -, -, hwrites, hstep, hsteps⟩ := h.commit
  obtain ⟨r, hr⟩ := h.held
  have hcommand : claim.row.commandSequence = r.commandSequence := by
    obtain ⟨_, _, hrow⟩ := hr.same
    rw [hrow]
  rw [hcommand]
  exact hsteps.childWait (hstep.wellFormed (hs.wellFormed _))
    (hstep.opens_childWait hwrites.waitKind (hs.wellFormed _) hr.stored)

/-- A claim runs one child. -/
theorem ClaimedRow.Runs.unique (hl : db.Lineal) (h : claim.Runs child db c)
    (h' : claim.Runs child db c') : c = c' := by
  cases h with
  | inserted hfree =>
    cases h' with
    | inserted => rfl
    | existing hnewest => exact absurd hnewest.keyed (hfree _)
  | existing hnewest =>
    cases h' with
    | inserted hfree => exact absurd hnewest.keyed (hfree _)
    | existing hnewest' =>
      obtain rfl := hl.newestKeyed_unique hnewest hnewest'
      rfl

/-- The definition in the result of a child is that of the child. -/
theorem DB.Told.defines {kind : String} {version : ℤ} {m : ℕ} (h : db.Told c n e)
    (hstep : e.childStep = some (m, kind, version)) : db.Defines c kind version := by
  obtain ⟨r, event, hr, hmetadata, htells⟩ := h
  rw [WorkflowEventRow.childStep, hmetadata] at hstep
  generalize e.eventType = eventType at htells
  cases htells <;> cases hstep <;> exact ⟨r, hr, rfl, rfl⟩

/-- The result of a child names the command that it answers, and a definition. -/
theorem childStep_of_isChildResult (htyped : e.eventType.resultKind = e.answersKind)
    (h : e.isChildResult n = true) : ∃ kind version, e.childStep = some (n, kind, version) := by
  simp only [WorkflowEventRow.isChildResult, Bool.and_eq_true, Bool.or_eq_true, beq_iff_eq] at h
  obtain ⟨⟨htype, -⟩, hanswers⟩ := h
  have hkind : e.answersKind = some .child := by
    rcases htype with htype | htype <;> rw [← htyped, htype] <;> rfl
  unfold WorkflowEventRow.answersKind at hkind
  unfold WorkflowEventRow.answers at hanswers
  unfold WorkflowEventRow.childStep
  split at hkind
  · rename_i event hmetadata
    rw [hmetadata] at hanswers ⊢
    cases event with
    | childSucceeded m result =>
      cases hanswers
      exact ⟨_, _, rfl⟩
    | childFailed m kind version =>
      cases hanswers
      exact ⟨_, _, rfl⟩
    | _ => cases hkind
  all_goals cases hkind

/-- What the command `n` of `p` runs: the child `c₀`. -/
def AsksFor (p : WorkflowId) (n : ℕ) (child : ChildWorkflowCommand) (c₀ : WorkflowId) :
    WorkflowId → ℕ → WorkflowId → String → ℤ → Prop :=
  fun w m c kind version =>
    w = p → m = n → c = c₀ ∧ kind = child.kind ∧ version = child.version

/-- Before the command `n` of a workflow nothing is asked for by it. -/
theorem DB.Reported.before {asked : WorkflowId → ℕ → WorkflowId → String → ℤ → Prop}
    (h : db.Reported asked) (hs : db.Sound) (hr : db.workflows.find w = some r)
    (hn : r.commandSequence < n) : db.Reported (AsksFor w n child c) where
  waits w' c' m hwaits := by
    obtain ⟨c₀, kind, version, -, hc⟩ := h.waits w' c' m hwaits
    refine ⟨c₀, kind, version, ?_, hc⟩
    rintro rfl rfl
    obtain ⟨r', hr', -, hm⟩ := hwaits
    obtain rfl := Option.some_inj.mp (hr.symm.trans hr')
    omega
  results e he m kind version hstep := by
    obtain ⟨c₀, c', -, hc⟩ := h.results e he m kind version hstep
    refine ⟨c₀, c', ?_, hc⟩
    rintro hw rfl
    have hmem : m ∈ answeredCommands (db.eventsOf w) := List.mem_filterMap.mpr
      ⟨e, List.mem_filter.mpr ⟨he, beq_iff_eq.mpr hw⟩, (answers_of_childStep hstep).1⟩
    have hle := (hs.inv hr).delivery.answered_le m hmem
    have hcommand : r.control.command = r.commandSequence := rfl
    omega
  sources := h.sources

/-- After the command `n` of a workflow nothing more is asked for by it. -/
theorem run_reported_after (h : s.Inv) (hr : s.db.workflows.find w = some r)
    (hn : n ≤ r.commandSequence) (hdb : s.db.Reported (AsksFor w n child c)) (later : List Action) :
    (run externals s later).db.Reported (AsksFor w n child c) := by
  have hrun : (run externals s later).Inv ∧
      (∃ r, (run externals s later).db.workflows.find w = some r ∧ n ≤ r.commandSequence) ∧
      (run externals s later).db.Reported (AsksFor w n child c) := by
    refine Machine.run_invariant (P := fun s : Sys => s.Inv ∧
      (∃ r, s.db.workflows.find w = some r ∧ n ≤ r.commandSequence) ∧
      s.db.Reported (AsksFor w n child c)) ?_ ⟨h, ⟨r, hr, hn⟩, hdb⟩ later
    rintro s action s' ⟨hinv, ⟨r, hr, hn⟩, hdb⟩ hok
    have hleads := exec_leads hinv hok
    obtain ⟨r', hr', hle⟩ := (hleads.evolves.steps w).command_le hr
    refine ⟨hleads.inv, ⟨r', hr', hn.trans hle⟩, (exec_reports hinv hok ?_ hdb).reported⟩
    rintro i config stateJson child' now claim event c' rfl hi - rfl hcommand
    obtain ⟨claim', event', hi', -, hc⟩ := exec_commit_ok hinv hok
    obtain ⟨rfl, rfl⟩ := Prod.mk.inj (Option.some_inj.mp (hi.symm.trans hi'))
    obtain ⟨r₀, hheld⟩ := hc.held
    obtain rfl := Option.some_inj.mp (hr.symm.trans hheld.stored)
    have hnext : claim.command = r.commandSequence + 1 := hheld.command hinv.sound
    omega
  exact hrun.2.2

/-- Every wait for a child, and every result of one, is what some commit asked for. -/
theorem run_reported (externals : Externals) (actions : List Action) :
    (run externals Sys.init actions).db.Reported fun _ _ _ _ _ => True := by
  have hrun : (run externals Sys.init actions).Inv ∧
      (run externals Sys.init actions).db.Reported fun _ _ _ _ _ => True := by
    refine Machine.run_invariant (P := fun s : Sys => s.Inv ∧ s.db.Reported fun _ _ _ _ _ => True)
      ?_ ⟨.init, .empty⟩ actions
    rintro s action s' ⟨hinv, hdb⟩ hok
    refine ⟨(exec_leads hinv hok).inv, (exec_reports hinv hok ?_ hdb).reported⟩
    intros
    trivial
  exact hrun.2

/-- A commit that runs a child runs one. -/
theorem exec_commit_runs {i : ℕ} {config : CoordinatorConfig} {stateJson : String} {now : DbMillis}
    {event : WorkflowEventRow} (h : s.Inv) (hi : s.activations[i]? = some (claim, event))
    (hok : exec externals s (.commit i config (.runChild stateJson child) now) = .ok s') :
    ∃ c, claim.Runs child s.db c := by
  rw [exec] at hok
  obtain ⟨⟨claim', event'⟩, hi', hok⟩ := nth_bind_ok hok
  obtain ⟨rfl, rfl⟩ := Prod.mk.inj (Option.some_inj.mp (hi.symm.trans hi'))
  obtain ⟨a, db', hreturns, rfl⟩ := transact'_ok hok
  obtain ⟨hclaim, -⟩ := h.activations _ (List.mem_of_getElem? hi)
  obtain ⟨r, hr, -⟩ := DB.exists_row (h.claims _ hclaim).2.lineage
  refine wp_ok (E := fun _ => True) (Q := fun _ _ => ∃ c, claim.Runs child s.db c) ?_ hreturns
  simp only [commitOnConnection, wp_bind, wp_orAbort, commitChild]
  refine ⟨fun delivered _ => ?_, fun _ => trivial⟩
  refine wp_imp (wp_insertChild_runs h.sound (Table.lt_next_of_find hr)) fun o _ hruns => ?_
  exact wp_mono (wp_true _ _) (fun _ _ _ => ⟨_, hruns⟩) fun _ _ => trivial

/-- The wait of a commit in every later state: it is for the child that the commit ran, or for a
recovery that took its place, and what was delivered tells how that child ended. -/
theorem run_childOutcomes {i : ℕ} {config : CoordinatorConfig} {stateJson : String} {now : DbMillis}
    {event : WorkflowEventRow} (h : s.Inv) (hl : s.db.Lineal)
    (hdb : s.db.Reported fun _ _ _ _ _ => True) (hi : s.activations[i]? = some (claim, event))
    (hok : exec externals s (.commit i config (.runChild stateJson child) now) = .ok s')
    (hruns : claim.Runs child s.db c) (later : List Action) :
    (run externals s' later).db.Reported
      (AsksFor claim.row.id (claim.row.commandSequence + 1) child c) := by
  obtain ⟨claim', event', hi', -, hc⟩ := exec_commit_ok h hok
  obtain ⟨rfl, rfl⟩ := Prod.mk.inj (Option.some_inj.mp (hi.symm.trans hi'))
  obtain ⟨r, hheld⟩ := hc.held
  have hcommand : claim.row.commandSequence = r.commandSequence := by
    obtain ⟨_, _, hrow⟩ := hheld.same
    rw [hrow]
  have hbefore : s.db.Reported (AsksFor claim.row.id (r.commandSequence + 1) child c) :=
    hdb.before h.sound hheld.stored (Nat.lt_succ_self r.commandSequence)
  rw [← hcommand] at hbefore
  have hreports := exec_reports h hok (fun i' config' stateJson' child' now' claim' event' c' heq
    hi' hruns' => by
      cases heq
      obtain ⟨rfl, rfl⟩ := Prod.mk.inj (Option.some_inj.mp (hi.symm.trans hi'))
      exact fun _ _ => ⟨hruns'.unique hl hruns, rfl, rfl⟩) hbefore
  have hleads := exec_leads h hok
  obtain ⟨l, g, r₁, -, hr₁, hwrites, hstep, hsteps⟩ := hc.commit
  have hkind := hwrites.waitKind
  obtain ⟨wait, rfl⟩ : ∃ wait, l = .waited wait := by
    cases l with
    | waited wait => exact ⟨wait, rfl⟩
    | _ => cases hkind
  have hwaited := hstep.commandSequence_of_waited hheld.stored hr₁
  obtain ⟨r', hr', hle⟩ := hsteps.command_le hr₁
  exact run_reported_after hleads.inv hr' (by omega) hreports.reported later

end DurableWorkflows
