import DurableWorkflows.Engine.Delivery

/-!
# Waits

The two wait columns of an open workflow always refer to the row the status of
the workflow speaks of, and every result delivered to a workflow answers a wait
that it committed, under the command of that commit.

## Main definitions

- `WaitMatches`: the wait that each status stands for
- `CommitsWait`, `AppendsAnswer`: where a wait starts and where it is answered

## Main results

- `Step.waiting_of`: only a commit opens a wait
- `Step.appended_of`: a result answers an open wait
- `run_waitReferences`
-/

namespace DurableWorkflows

open Transaction Sys

variable {externals : Externals} {s s' : Sys} {db db' : DB} {g g' : Aggregate} {w : WorkflowId}
  {r : WorkflowRow} {l : Label} {kind : WaitKind} {n : ℕ}

-- ════════════════════════════════════════════════════════════════════════
-- References
-- ════════════════════════════════════════════════════════════════════════

/-- The wait a row has in a status, and the row it refers to. -/
def WaitMatches (db : DB) (r : WorkflowRow) : WorkflowStatus → Prop
  | .ready | .running => r.waitKind = none ∧ r.waitReferenceId = none
  | .waitingActivity | .blocked => ∃ a act, r.awaited = some (.activity a) ∧
      db.activities.find a = some act ∧ act.workflowId = r.id ∧
      act.commandSequence = r.commandSequence
  | .waitingChild => ∃ c child, r.awaited = some (.child c) ∧ db.workflows.find c = some child
  | .waitingApproval => ∃ p approval, r.awaited = some (.approval p) ∧
      db.approvals.find p = some approval ∧ approval.workflowId = r.id ∧
      approval.status = .pending ∧ approval.kind = r.kind ∧ approval.version = r.version ∧
      approval.commandSequence = r.commandSequence
  | .sleeping => r.awaited = some (.timer r.commandSequence)
  | .paused | .succeeded | .failed | .cancelled => False

/-- The status whose wait a row has. -/
def Wait.status : Option Wait → WorkflowStatus
  | none => .ready
  | some (.timer _) => .sleeping
  | some (.activity _) => .waitingActivity
  | some (.child _) => .waitingChild
  | some (.approval _) => .waitingApproval

/-- The wait of an open row refers to what it should. -/
theorem DB.Sound.waitMatches (hs : db.Sound) (hx : db.Attached ∅)
    (hr : db.workflows.find r.id = some r) (ht : r.status.isTerminal = false) :
    WaitMatches db r (Wait.status r.awaited) := by
  have hinv := hs.inv hr
  cases hw : r.awaited with
  | none => exact hinv.row.awaited_eq_none.mp hw
  | some wait =>
    have hawaited := hinv.awaited ht wait hw
    cases wait with
    | timer command =>
      obtain rfl : command = r.commandSequence := hawaited
      exact hw
    | activity a =>
      obtain ⟨act, hact, hcommand, -⟩ := hawaited
      obtain ⟨hfind, hwid⟩ := aggregate_activity.mp hact
      exact ⟨a, act, hw, hfind, hwid, hcommand⟩
    | child c =>
      have hawaits := (Aggregate.awaitsChild_iff (g := db.aggregate r.id) hr).mpr ⟨hinv.row.awaitsChild ht hw, hw⟩
      obtain ⟨child, hchild, -⟩ := (hx r.id c hawaits).resolve_left (Set.notMem_empty c)
      exact ⟨c, child, hw, hchild⟩
    | approval p =>
      obtain ⟨approval, happ, hpending, hcommand, hkind, hversion⟩ := hawaited
      obtain ⟨hfind, hwid⟩ := aggregate_approval.mp happ
      exact ⟨p, approval, hw, hfind, hwid, hpending, hkind, hversion, hcommand⟩

/-- Outside a pause the wait is that of the row's own status. -/
theorem RowInv.waitMatches_status (h : RowInv r) (ht : r.status.isTerminal = false)
    (hs : r.status ≠ .paused) (hmatches : WaitMatches db r (Wait.status r.awaited)) :
    WaitMatches db r r.status := by
  have hallowed := h.allowed
  cases hw : r.awaited with
  | none =>
    cases hstatus : r.status <;> simp_all [WorkflowStatus.allows, WorkflowStatus.isTerminal,
      Wait.status, WaitMatches]
  | some wait =>
    cases wait <;> cases hstatus : r.status <;> simp_all [WorkflowStatus.allows,
      WorkflowStatus.isTerminal, Wait.status, WaitMatches, Wait.kind]

-- ════════════════════════════════════════════════════════════════════════
-- Commands
-- ════════════════════════════════════════════════════════════════════════

/-- The workflow waits for something of the given kind under the command `n`. -/
def Aggregate.Waiting (g : Aggregate) (kind : WaitKind) (n : ℕ) : Prop :=
  ∃ r wait, g.row = some r ∧ r.status.isTerminal = false ∧ r.awaited = some wait ∧
    wait.kind = kind ∧ r.commandSequence = n

/-- A result answers the wait that is open when it is appended. -/
theorem Step.appended_of {e : WorkflowEventRow} (h : Step g l g') (hg : g.WellFormed)
    (hkind : e.answersKind = some kind) (hn : e.answers = some n) (he : e ∈ g'.events) :
    e ∈ g.events ∨ g.Waiting kind n := by
  have hnew : ∀ {e₀}, e ∈ g.events ++ [e₀] → e ∈ g.events ∨ e = e₀ := fun he =>
    (List.mem_append.mp he).imp_right List.mem_singleton.mp
  have hnone : ∀ {e₀}, e₀.answers = none → e ∈ g.events ++ [e₀] → e ∈ g.events := by
    intro e₀ hnone he
    refine (hnew he).resolve_right ?_
    rintro rfl
    cases hnone.symm.trans hn
  cases h with
  | inserted _ _ ha => exact .inl (hnone ha he)
  | history _ _ ha | continued _ _ _ ha => exact .inl (hnone ha he)
  | answered hr hw hs _ ha hkind₀ =>
    rcases hnew he with he | rfl
    · exact .inl he
    · refine .inr ⟨_, _, hr, ?_, hw, Option.some_inj.mp (hkind₀.symm.trans hkind),
        Option.some_inj.mp (ha.symm.trans hn)⟩
      rcases hs with ⟨hs, -⟩ | ⟨hs, -⟩
      · exact open_of_awaitsChild hs
      · rw [hs]
        rfl
  | answeredApproval hr hw hs _ _ _ _ ha hkind₀ =>
    rcases hnew he with he | rfl
    · exact .inl he
    · exact .inr ⟨_, _, hr, open_of_awaitsApproval hs, hw,
        Option.some_inj.mp (hkind₀.symm.trans hkind), Option.some_inj.mp (ha.symm.trans hn)⟩
  | @succeeded _ r a act _ _ _ hr hs hw hact _ _ hres =>
    rcases hnew he with he | rfl
    · exact .inl he
    · have ht : r.status.isTerminal = false := by
        rw [hs]
        rfl
      obtain ⟨hanswers, hanswersKind⟩ := answers_of_metadata hres
      obtain ⟨act', hact', hcommand, -⟩ := (hg.inv hr).awaitedActivity ht hw
      obtain rfl := Option.some_inj.mp (hact.stored.symm.trans hact')
      refine .inr ⟨r, _, hr, ht, hw, Option.some_inj.mp (hanswersKind.symm.trans hkind), ?_⟩
      exact hcommand.symm.trans (Option.some_inj.mp (hanswers.symm.trans hn))
  | _ => exact .inl he

/-- Only a commit opens a wait, under the command after the last. -/
theorem Step.waiting_of (h : Step g l g') (hw : g'.Waiting kind n) :
    g.Waiting kind n ∨
      l.waitKind = some kind ∧ ∃ r, g.row = some r ∧ n = r.commandSequence + 1 := by
  obtain ⟨r', wait, hr', ht, hw, rfl, rfl⟩ := hw
  cases h with
  | inserted hrow =>
    cases hr'
    simp [WorkflowRow.awaited, hrow.waitKind] at hw
  | history | discarded | activityClaimed | renewed | released | settled =>
    exact .inl ⟨r', wait, hr', ht, hw, rfl, rfl⟩
  | claimed hr hs | recovered hr hs | continued hr hs | deadLettered hr hs | quarantined hr hs
  | activationFailed hr hs | resumed hr hs | revoked hr hs =>
    cases hr'
    exact .inl ⟨_, wait, hr, by rw [hs]; rfl, hw, rfl, rfl⟩
  | paused hr _ ht₀ =>
    cases hr'
    exact .inl ⟨_, wait, hr, ht₀, hw, rfl, rfl⟩
  | completed | superseded =>
    cases hr'
    cases ht
  | cancelled _ _ _ clear =>
    cases hr'
    cases clear <;> cases ht
  | slept hr | waitedApproval hr | waitedActivity hr | waitedChild hr =>
    cases hr'
    obtain rfl := Option.some_inj.mp hw
    exact .inr ⟨rfl, _, hr, rfl⟩
  | answered | answeredApproval | succeeded =>
    cases hr'
    cases hw
  | reattached hr hw₀ hs =>
    cases hr'
    obtain rfl := Option.some_inj.mp hw
    exact .inl ⟨_, _, hr, open_of_awaitsChild hs, hw₀, rfl, rfl⟩
  | retried hr hs hw₀ =>
    cases hr'
    obtain rfl := Option.some_inj.mp hw
    exact .inl ⟨_, _, hr, by rw [hs]; rfl, hw₀, rfl, rfl⟩

/-- Steps that commit no wait open none. -/
theorem Steps.waiting_of (h : Steps (fun l => l.waitKind = none) g g') (hw : g'.Waiting kind n) :
    g.Waiting kind n := by
  induction h with
  | refl => exact hw
  | tail _ hstep ih =>
    obtain ⟨l, hl, hstep⟩ := hstep
    refine ih ((hstep.waiting_of hw).resolve_right fun hwait => ?_)
    cases hl.symm.trans hwait.1

/-- What such steps append answers the wait that was open before them. -/
theorem Steps.appended_of {e : WorkflowEventRow} (h : Steps (fun l => l.waitKind = none) g g')
    (hg : g.WellFormed) (hkind : e.answersKind = some kind) (hn : e.answers = some n)
    (he : e ∈ g'.events) : e ∈ g.events ∨ g.Waiting kind n := by
  induction h with
  | refl => exact .inl he
  | tail hsteps hstep ih =>
    obtain ⟨l, -, hstep⟩ := hstep
    rcases hstep.appended_of (Steps.wellFormed hsteps hg) hkind hn he with he | hw
    · exact ih he
    · exact .inr (Steps.waiting_of hsteps hw)

/-- The number of the last command of a workflow. -/
def Aggregate.command (g : Aggregate) : ℕ := g.row.elim 0 (·.commandSequence)

/-- A commit of a wait takes the next command, and no other step does. -/
theorem Step.command (h : Step g l g') :
    g'.command = g.command + if l.waitKind.isSome then 1 else 0 := by
  cases h with
  | inserted hrow => exact hrow.commandSequence
  | history | discarded | activityClaimed | renewed | released | settled => rfl
  | cancelled hr _ _ clear => cases clear <;> simp [Aggregate.command, hr, Label.waitKind] <;> rfl
  | claimed hr | recovered hr | continued hr | completed hr | slept hr | waitedApproval hr
  | waitedActivity hr | waitedChild hr | activationFailed hr | answered hr | answeredApproval hr
  | reattached hr | paused hr | revoked hr | resumed hr | superseded hr | retried hr | succeeded hr
  | deadLettered hr | quarantined hr => simp [Aggregate.command, hr, Label.waitKind] <;> rfl

theorem Steps.command (h : Steps (fun l => l.waitKind = none) g g') : g'.command = g.command := by
  induction h with
  | refl => rfl
  | tail _ hstep ih =>
    obtain ⟨l, hl, hstep⟩ := hstep
    rw [hstep.command, hl, ih]
    rfl

-- ════════════════════════════════════════════════════════════════════════
-- Runs
-- ════════════════════════════════════════════════════════════════════════

/-- The action is a commit of the workflow `w` that makes it wait for something
of the given kind, and leaves it at the command `n`. -/
def CommitsWait (w : WorkflowId) (kind : WaitKind) (n : ℕ) (s : Sys) (action : Action) (s' : Sys) :
    Prop :=
  ∃ i config transition now claim event r, action = .commit i config transition now ∧
    s.activations[i]? = some (claim, event) ∧ claim.row.id = w ∧
    transition.waitKind = some kind ∧ s'.db.workflows.find w = some r ∧ r.commandSequence = n

theorem Label.waitKind_of_accompanies {l : Label} (h : l.accompanies = true) : l.waitKind = none := by
  cases l with
  | waited => cases h
  | _ => rfl

/-- An action opens no wait of a workflow, or it is the commit of one. -/
theorem exec_opens {action : Action} (h : s.Inv) (hok : exec externals s action = .ok s')
    (w : WorkflowId) :
    Steps (fun l => l.waitKind = none) (s.db.aggregate w) (s'.db.aggregate w) ∨
      ∃ l kind g, Step (s.db.aggregate w) l g ∧ l.waitKind = some kind ∧
        Steps (fun l => l.waitKind = none) g (s'.db.aggregate w) ∧
        CommitsWait w kind g.command s action s' := by
  have haccompanies : ∀ l : Label, l.accompanies = true → l.waitKind = none :=
    fun _ => Label.waitKind_of_accompanies
  by_cases hcommit : ∃ i config transition now, action = .commit i config transition now
  · obtain ⟨i, config, transition, now, rfl⟩ := hcommit
    obtain ⟨claim, event, hi, -, hc⟩ := exec_commit_ok h hok
    by_cases hid : w = claim.row.id
    · subst hid
      obtain ⟨l, g, _, -, -, hwrites, hstep, hsteps⟩ := hc.commit
      have htrail := hsteps.mono haccompanies
      cases hkind : l.waitKind with
      | none => exact .inl ((Steps.single hstep hkind).trans htrail)
      | some kind =>
        obtain ⟨r, hr⟩ := hc.held
        obtain ⟨r', hr'⟩ := (hc.evolves.steps claim.row.id).exists_row ⟨r, hr.stored⟩
        refine .inr ⟨l, kind, g, hstep, hkind, htrail, i, config, transition, now, claim, event, r',
          rfl, hi, rfl, hwrites.waitKind.symm.trans hkind, hr', ?_⟩
        rw [← Steps.command htrail, Aggregate.command, hr']
        rfl
    · exact .inl ((hc.other w hid).mono haccompanies)
  · refine .inl (((exec_leads h hok).evolves.steps w).mono fun l hl => ?_)
    cases hl' : l.isCommit with
    | true => exact absurd (Action.eq_commit hl.1 hl') hcommit
    | false =>
      cases l with
      | waited => cases hl'
      | _ => rfl

/-- Every wait is opened by a commit. -/
theorem exec_waiting_of {action : Action} (h : s.Inv) (hok : exec externals s action = .ok s')
    (hw : (s'.db.aggregate w).Waiting kind n) :
    (s.db.aggregate w).Waiting kind n ∨ CommitsWait w kind n s action s' := by
  obtain hsteps | ⟨l, kind', g, hstep, hkind', htrail, hcommit⟩ := exec_opens h hok w
  · exact .inl (hsteps.waiting_of hw)
  · refine (hstep.waiting_of (htrail.waiting_of hw)).imp_right ?_
    rintro ⟨hkind, r, hr, rfl⟩
    obtain rfl := Option.some_inj.mp (hkind'.symm.trans hkind)
    rwa [hstep.command, hkind', Aggregate.command, hr] at hcommit

/-- The action appends the event to a workflow that waits for something of the given kind under
the command `n`, be it since the commit that this action is. -/
def AppendsAnswer (w : WorkflowId) (e : WorkflowEventRow) (kind : WaitKind) (n : ℕ) (s : Sys)
    (action : Action) (s' : Sys) : Prop :=
  e ∉ s.db.eventsOf w ∧ e ∈ s'.db.eventsOf w ∧
    ((s.db.aggregate w).Waiting kind n ∨ CommitsWait w kind n s action s')

/-- Every result answers a wait that is open. -/
theorem exec_appendsAnswer {action : Action} {e : WorkflowEventRow} (h : s.Inv)
    (hok : exec externals s action = .ok s') (hkind : e.answersKind = some kind)
    (hn : e.answers = some n) (he : e ∈ s'.db.eventsOf w) :
    e ∈ s.db.eventsOf w ∨ AppendsAnswer w e kind n s action s' := by
  by_cases hold : e ∈ s.db.eventsOf w
  · exact .inl hold
  refine .inr ⟨hold, he, ?_⟩
  have hg := h.sound.wellFormed w
  obtain hsteps | ⟨l, kind', g, hstep, hkind', htrail, hcommit⟩ := exec_opens h hok w
  · exact .inl ((hsteps.appended_of hg hkind hn he).resolve_left hold)
  · rcases htrail.appended_of (hstep.wellFormed hg) hkind hn he with he | hw
    · exact .inl ((hstep.appended_of hg hkind hn he).resolve_left hold)
    · refine (hstep.waiting_of hw).imp_right ?_
      rintro ⟨hkind₀, r, hr, rfl⟩
      obtain rfl := Option.some_inj.mp (hkind'.symm.trans hkind₀)
      rwa [hstep.command, hkind', Aggregate.command, hr] at hcommit

/-- The activity succeeded with the result that the event carries. -/
structure ActivityRow.Resulted (act : ActivityRow) (e : WorkflowEventRow) : Prop where
  status : act.status = .succeeded
  result : ∃ output, act.providerResultJson = some output ∧ e.metadata = some (.event
    (.activitySucceeded act.commandSequence ⟨act.kind, act.version, output⟩))

/-- A step that appends an answer: it answers the wait of the workflow, or it is the success
of an activity. -/
theorem Step.appends_answer {e : WorkflowEventRow} (h : Step g l g')
    (hkind : e.answersKind = some kind) (he : e ∈ g'.events) :
    e ∈ g.events ∨
      (kind ≠ .activity ∧ ∃ r wait, l = .answered wait ∧ wait.kind = kind ∧ g.row = some r ∧
        r.awaited = some wait ∧ e.answers = some r.commandSequence) ∨
      kind = .activity ∧ ∃ a act, l = .succeeded a ∧ g'.activities a = some act ∧ act.Resulted e := by
  have hnew : ∀ {e₀}, e ∈ g.events ++ [e₀] → e ∈ g.events ∨ e = e₀ := fun he =>
    (List.mem_append.mp he).imp_right List.mem_singleton.mp
  have hnone : ∀ {e₀ : WorkflowEventRow}, e₀.answers = none → e ∈ g.events ++ [e₀] →
      e ∈ g.events := by
    intro e₀ hnone he
    refine (hnew he).resolve_right ?_
    rintro rfl
    rw [WorkflowEventRow.answersKind_eq_none.mpr hnone] at hkind
    cases hkind
  cases h with
  | inserted _ _ ha => exact .inl (hnone ha he)
  | history _ _ ha | continued _ _ _ ha => exact .inl (hnone ha he)
  | answered hr hw hs _ ha hkind₀ =>
    rcases hnew he with he | rfl
    · exact .inl he
    · obtain rfl := Option.some_inj.mp (hkind₀.symm.trans hkind)
      refine .inr (.inl ⟨?_, _, _, rfl, rfl, hr, hw, ha⟩)
      rcases hs with ⟨-, hwait⟩ | ⟨-, hwait⟩ <;> rw [hwait] <;> exact nofun
  | answeredApproval hr hw _ _ _ _ _ ha hkind₀ =>
    rcases hnew he with he | rfl
    · exact .inl he
    · obtain rfl := Option.some_inj.mp (hkind₀.symm.trans hkind)
      exact .inr (.inl ⟨nofun, _, _, rfl, rfl, hr, hw, ha⟩)
  | succeeded _ _ _ _ _ _ hres =>
    rcases hnew he with he | rfl
    · exact .inl he
    · obtain rfl := Option.some_inj.mp (((answers_of_metadata hres).2).symm.trans hkind)
      exact .inr (.inr ⟨rfl, _, _, rfl, Function.update_self .., rfl, _, rfl, hres⟩)
  | _ => exact .inl he

/-- Initially there is no wait. -/
theorem not_waiting_init : ¬(Sys.init.db.aggregate w).Waiting kind n := by
  rintro ⟨r, wait, hr, -⟩
  cases hr

/-- A workflow that waits once committed that wait. -/
theorem run_commitsWait (actions : List Action)
    (hw : ((run externals Sys.init actions).db.aggregate w).Waiting kind n) :
    ∃ pre action post s', actions = pre ++ action :: post ∧
      exec externals (run externals Sys.init pre) action = .ok s' ∧
      CommitsWait w kind n (run externals Sys.init pre) action s' :=
  run_origin (Q := fun s => (s.db.aggregate w).Waiting kind n)
    (fun _ _ _ h hok => exec_waiting_of h hok) not_waiting_init hw

/-- Waits in every reachable state. An open workflow has the wait of its status,
or while it is paused the wait of a status it could resume to, and the wait
refers to the row it should, of the workflow's own command. Every step result
carries the command the workflow had after a commit that made it wait, and was
appended while the workflow waited so under this command. -/
theorem run_waitReferences (externals : Externals) (actions : List Action) :
    let s := run externals Sys.init actions
    (∀ w r, s.db.workflows.find w = some r → r.status.isTerminal = false →
      (r.status ≠ .paused → WaitMatches s.db r r.status) ∧
      (r.status = .paused → ∃ status, WaitMatches s.db r status)) ∧
    ∀ w e kind, e ∈ s.db.eventsOf w → e.eventType.resultKind = some kind →
      ∃ n, e.answers = some n ∧
        (∃ pre action post s', actions = pre ++ action :: post ∧
          exec externals (run externals Sys.init pre) action = .ok s' ∧
          CommitsWait w kind n (run externals Sys.init pre) action s') ∧
        ∃ pre action post s', actions = pre ++ action :: post ∧
          exec externals (run externals Sys.init pre) action = .ok s' ∧
          AppendsAnswer w e kind n (run externals Sys.init pre) action s' := by
  have hinv := run_inv externals actions
  refine ⟨fun w r hr ht => ?_, fun w e kind he hkind => ?_⟩
  · obtain rfl : r.id = w := Table.key_of_find hr
    have hmatches := hinv.sound.waitMatches hinv.attached hr ht
    exact ⟨fun hs => (hinv.sound.inv hr).row.waitMatches_status ht hs hmatches,
      fun _ => ⟨_, hmatches⟩⟩
  · have hanswersKind : e.answersKind = some kind :=
      ((hinv.sound.log w).typed e he).symm.trans hkind
    obtain ⟨n, hn⟩ := answers_of_answersKind hanswersKind
    obtain ⟨pre, action, post, s', hsplit, hok, happends⟩ :=
      run_origin (Q := fun s => e ∈ s.db.eventsOf w)
        (fun _ _ _ h hok => exec_appendsAnswer h hok hanswersKind hn) List.not_mem_nil he
    refine ⟨n, hn, ?_, pre, action, post, s', hsplit, hok, happends⟩
    rcases happends.2.2 with hw | hcommit
    · obtain ⟨pre', action', post', s'', hsplit', hok', hcommit⟩ := run_commitsWait pre hw
      refine ⟨pre', action', post' ++ action :: post, s'', ?_, hok', hcommit⟩
      rw [hsplit, hsplit', List.append_assoc, List.cons_append]
    · exact ⟨pre, action, post, s', hsplit, hok, hcommit⟩

end DurableWorkflows
