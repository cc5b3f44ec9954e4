import DurableWorkflows.Base.Overtaking
import DurableWorkflows.Engine.Absorbing
import DurableWorkflows.Engine.LockedRows
import DurableWorkflows.Engine.Operations
import DurableWorkflows.Engine.Writes
import Mathlib.Data.Prod.Lex

/-!
# Turns of ready and sleeping workflows

The coordinators claim ready workflows, and the timer task wakes sleeping ones, in the order of
`available_at` and of the ids. No transaction after `t` puts a workflow ahead of one that is due
at `t`, and every claim that could serve it serves it or one ahead of it, as long as fewer than 32
rows ahead of it are held by other transactions. So a workflow waits no more turns than workflows
are ahead of it, and only its claim or wake, a pause and a cancel end its wait.

## Main definitions

- `WorkflowRow.place`: the place of a workflow in the order of the scans
- `DB.Queued`, `DB.Asleep`: a workflow that is ready or asleep until `t`
- `Sys.servesReady`, `Sys.servesAsleep`: the turns of the servers

## Main results

- `run_claimed_in_turn`, `run_fired_in_turn`
-/

namespace DurableWorkflows

open Transaction Sys

variable {externals : Externals} {s s' : Sys} {db db' db₁ : DB} {g g' : Aggregate}
  {w i : WorkflowId} {r r' : WorkflowRow} {l : Label} {t now : DbMillis} {action : Action}

-- ════════════════════════════════════════════════════════════════════════
-- Places
-- ════════════════════════════════════════════════════════════════════════

/-- The place of a workflow in the order of the scans. -/
def WorkflowRow.place (r : WorkflowRow) : DbMillis ×ₗ WorkflowId := toLex (r.availableAt, r.id)

/-- The workflow comes before the workflow `w`, which is due at `t`. -/
def WorkflowRow.before (t : DbMillis) (w : WorkflowId) (r : WorkflowRow) : Bool :=
  r.place < toLex (t, w)

/-- A ready workflow ahead of `w`. -/
def WorkflowRow.readyAhead (t : DbMillis) (w : WorkflowId) (r : WorkflowRow) : Bool :=
  r.status == .ready && r.before t w

/-- A workflow ahead of `w` that waits for a timer, possibly paused. -/
def WorkflowRow.asleepAhead (t : DbMillis) (w : WorkflowId) (r : WorkflowRow) : Bool :=
  r.waitKind == some .timer && !r.status.isTerminal && r.before t w

theorem WorkflowRow.le_of_before (h : r.before t w = true) : r.availableAt ≤ t := by
  have hlt := of_decide_eq_true h
  obtain hlt | ⟨heq, -⟩ := Prod.Lex.lt_iff.mp hlt
  · exact le_of_lt hlt
  · exact le_of_eq heq

/-- The order by a column leaves rows with one value in the order of their ids. -/
theorem pairwise_orderBy {p : WorkflowRow → Bool} {rows : Table WorkflowRow} :
    (orderBy (fun r => r.availableAt) (rows.select p)).Pairwise fun r r' => r.place < r'.place := by
  have hstable : orderBy (fun r : WorkflowRow => r.availableAt) (rows.select p) =
      Keyset.sort WorkflowRow.place (rows.select p) := by
    refine Keyset.insertionSort_congr (Table.pairwise_select.imp fun {r r'} hid => ?_)
    rw [Prod.Lex.le_iff]
    exact le_iff_lt_or_eq.trans (or_congr_right (and_iff_left (le_of_lt hid)).symm)
  have hne : (Keyset.sort WorkflowRow.place (rows.select p)).Pairwise fun r r' => r.id ≠ r'.id := by
    refine ((Keyset.perm_sort _ _).pairwise_iff fun h => Ne.symm h).mpr ?_
    exact Table.pairwise_select.imp fun hlt => Nat.ne_of_lt hlt
  rw [hstable]
  refine ((Keyset.ordered_sort _ _).and hne).imp fun h => lt_of_le_of_ne h.1 fun heq => h.2 ?_
  exact congrArg (fun place => (ofLex place).2) heq

/-- A transaction after `t` puts no ready workflow ahead of one that is due at `t`. -/
theorem WritesAfter.readyAhead (h : WritesAfter t db db') {q : WorkflowId → Bool}
    (hr' : db'.workflows.find i = some r') (hahead : (r'.readyAhead t w && q r'.id) = true) :
    ∃ r, db.workflows.find i = some r ∧ (r.readyAhead t w && q r.id) = true := by
  rw [Bool.and_eq_true, WorkflowRow.readyAhead, Bool.and_eq_true, beq_iff_eq] at hahead
  obtain ⟨⟨hready, hbefore⟩, hq⟩ := hahead
  have hle := WorkflowRow.le_of_before hbefore
  obtain ⟨r, hr, hwrites⟩ | ⟨-, hnew⟩ := h.workflows.origin hr'
  · obtain hlt | ⟨hready₀, htime⟩ := hwrites.ready hready
    · exact absurd hle (not_le.mpr hlt)
    · have hid : r'.id = r.id := (WorkflowRow.setOnce_eq hwrites.setOnce).1
      have hplace : r'.place = r.place := by rw [WorkflowRow.place, htime, hid, WorkflowRow.place]
      rw [WorkflowRow.before, hplace] at hbefore
      rw [hid] at hq
      refine ⟨r, hr, ?_⟩
      rw [Bool.and_eq_true, WorkflowRow.readyAhead, Bool.and_eq_true, beq_iff_eq]
      exact ⟨⟨hready₀, hbefore⟩, hq⟩
  · exact absurd hle (not_le.mpr (hnew.ready hready))

/-- Nor does it put a sleeping one ahead. -/
theorem WritesAfter.asleepAhead {P : WorkflowId → Label → Prop} (h : WritesAfter t db db')
    (hev : Evolves P db db') (hr' : db'.workflows.find i = some r')
    (hahead : r'.asleepAhead t w = true) :
    ∃ r, db.workflows.find i = some r ∧ r.asleepAhead t w = true := by
  rw [WorkflowRow.asleepAhead, Bool.and_eq_true, Bool.and_eq_true, beq_iff_eq,
    Bool.not_eq_true'] at hahead
  obtain ⟨⟨hwait, hopen⟩, hbefore⟩ := hahead
  have hle := WorkflowRow.le_of_before hbefore
  obtain ⟨r, hr, hwrites⟩ | ⟨-, hnew⟩ := h.workflows.origin hr'
  · obtain hlt | ⟨hwait₀, htime⟩ := hwrites.asleep hwait
    · exact absurd hle (not_le.mpr hlt)
    · have hid : r'.id = r.id := (WorkflowRow.setOnce_eq hwrites.setOnce).1
      have hplace : r'.place = r.place := by rw [WorkflowRow.place, htime, hid, WorkflowRow.place]
      rw [WorkflowRow.before, hplace] at hbefore
      refine ⟨r, hr, ?_⟩
      rw [WorkflowRow.asleepAhead, Bool.and_eq_true, Bool.and_eq_true, beq_iff_eq,
        Bool.not_eq_true']
      refine ⟨⟨hwait₀, ?_⟩, hbefore⟩
      by_contra hended
      obtain rfl := Option.some_inj.mp
        (hr'.symm.trans (hev.terminal_row hr (eq_true_of_ne_false hended)))
      exact hended hopen
  · exact absurd hle (not_le.mpr (hnew.asleep hwait))

-- ════════════════════════════════════════════════════════════════════════
-- The end of a wait
-- ════════════════════════════════════════════════════════════════════════

/-- The status in which a server leaves a workflow that waits for it. -/
def WorkflowStatus.served : WorkflowStatus → WorkflowStatus
  | .ready => .running
  | .sleeping => .ready
  | status => status

/-- The status in which a step leaves a workflow that was ready or asleep. -/
def Label.leavesTo : Label → WorkflowStatus → Option WorkflowStatus
  | .claimed _, .ready => some .running
  | .answered (.timer _), .sleeping => some .ready
  | .paused none, _ => some .paused
  | .cancelled, _ => some .cancelled
  | _, _ => none

/-- What a step does to a workflow that is ready or asleep. -/
theorem Step.leaves (h : Step g l g') (hr : g.row = some r)
    (hs : r.status = .ready ∨ r.status = .sleeping) :
    g'.row = some r ∨ ∃ r', g'.row = some r' ∧ l.leavesTo r.status = some r'.status := by
  -- the statuses it does not have
  have hne : ∀ {r₀ : WorkflowRow} {status : WorkflowStatus}, g.row = some r₀ →
      r₀.status = status → status ≠ .ready → status ≠ .sleeping → g'.row = some r := by
    rintro r₀ status hr₀ rfl hready hsleeping
    obtain rfl := Option.some_inj.mp (hr.symm.trans hr₀)
    obtain hs | hs := hs
    · exact absurd hs hready
    · exact absurd hs hsleeping
  cases h with
  | inserted => cases hr
  | history | discarded | activityClaimed | renewed | released | settled => exact .inl hr
  | claimed hr₀ hs₀ =>
    obtain rfl := Option.some_inj.mp (hr.symm.trans hr₀)
    exact .inr ⟨_, rfl, by rw [hs₀]; rfl⟩
  | recovered hr₀ hs₀ | continued hr₀ hs₀ | completed hr₀ hs₀ | slept hr₀ hs₀
  | waitedApproval hr₀ hs₀ | waitedActivity hr₀ hs₀ | waitedChild hr₀ hs₀
  | activationFailed hr₀ hs₀ | revoked hr₀ hs₀ | superseded hr₀ hs₀ | retried hr₀ hs₀
  | succeeded hr₀ hs₀ | deadLettered hr₀ hs₀ | quarantined hr₀ hs₀ | resumed hr₀ hs₀ =>
    exact .inl (hne hr₀ hs₀ (by decide) (by decide))
  | @answered _ _ _ wait hr₀ _ hs₀ =>
    obtain rfl := Option.some_inj.mp (hr.symm.trans hr₀)
    obtain ⟨hchild, -⟩ | ⟨hsleeping, hkind⟩ := hs₀
    · obtain hs | hs := hs <;>
      · rw [hs] at hchild
        cases hchild
    · refine .inr ⟨_, rfl, ?_⟩
      cases wait with
      | timer =>
        show _ = some (if r.status = .paused then WorkflowStatus.paused else .ready)
        rw [hsleeping]
        rfl
      | _ => cases hkind
  | answeredApproval hr₀ _ hs₀ | reattached hr₀ _ hs₀ =>
    obtain rfl := Option.some_inj.mp (hr.symm.trans hr₀)
    obtain hs | hs := hs <;>
    · rw [hs] at hs₀
      cases hs₀
  | paused => exact .inr ⟨_, rfl, rfl⟩
  | cancelled _ _ _ clear =>
    refine .inr ⟨_, rfl, ?_⟩
    cases clear <;> rfl

/-- Steps that keep what they leave a workflow in. -/
theorem Steps.leaves {P : Label → Prop} {D : WorkflowStatus → Prop} (h : Steps P g g')
    (hr : g.row = some r) (hs : r.status = .ready ∨ r.status = .sleeping)
    (hleaves : ∀ l status, P l → l.leavesTo r.status = some status → D status)
    (hkept : ∀ g l g' r, P l → Step g l g' → g.row = some r → D r.status →
      ∃ r', g'.row = some r' ∧ D r'.status) :
    g'.row = some r ∨ ∃ r', g'.row = some r' ∧ D r'.status := by
  induction h with
  | refl => exact .inl hr
  | tail _ hstep ih =>
    obtain ⟨l, hl, hstep⟩ := hstep
    obtain hsame | ⟨r', hr', hD⟩ := ih
    · refine (hstep.leaves hsame hs).imp_right fun hleft => ?_
      obtain ⟨r', hr', hstatus⟩ := hleft
      exact ⟨r', hr', hleaves l _ hl hstatus⟩
    · exact .inr (hkept _ l _ r' hl hstep hr' hD)

/-- Steps that neither claim nor pause a workflow nor fire its timer. -/
theorem Steps.cancels {P : Label → Prop} (h : Steps P g g') (hr : g.row = some r)
    (hs : r.status = .ready ∨ r.status = .sleeping)
    (hP : ∀ l status, P l → l.leavesTo r.status = some status → status = .cancelled) :
    g'.row = some r ∨ ∃ r', g'.row = some r' ∧ r'.status = .cancelled := by
  refine h.leaves hr hs hP fun g l g' r _ hstep hr hcancelled => ⟨r, ?_, hcancelled⟩
  exact hstep.terminal_row hr (by rw [hcancelled]; rfl)

/-- Steps of a pause. -/
theorem Steps.pauses {P : Label → Prop} (h : Steps P g g') (hr : g.row = some r)
    (hs : r.status = .ready ∨ r.status = .sleeping)
    (hP : ∀ l, P l → l = .history ∨ ∃ revoked, l = .paused revoked) :
    g'.row = some r ∨ ∃ r', g'.row = some r' ∧ r'.status = .paused := by
  refine h.leaves (D := fun status => status = .paused) hr hs (fun l status hl hstatus => ?_)
    fun g l g' r hl hstep hr hpaused => ?_
  · obtain rfl | ⟨revoked, rfl⟩ := hP l hl
    · cases hstatus
    · cases revoked <;> cases hstatus
      rfl
  · obtain rfl | ⟨revoked, rfl⟩ := hP l hl
    · cases hstep
      exact ⟨r, hr, hpaused⟩
    · cases hstep <;> exact ⟨_, rfl, rfl⟩

/-- Steps of the timer task. -/
theorem Steps.wakes {P : Label → Prop} (h : Steps P g g') (hr : g.row = some r)
    (hs : r.status = .ready ∨ r.status = .sleeping)
    (hP : ∀ l, P l → l.answersKind .timer = true) :
    g'.row = some r ∨ ∃ r', g'.row = some r' ∧ r'.status = r.status.served := by
  refine (h.leaves (D := fun status => r.status = .sleeping ∧ status = .ready) hr hs
    (fun l status hl hstatus => ?_) fun g l g' r' hl hstep hr' hready => ?_).imp_right fun hleft => ?_
  · have hanswers := hP l hl
    cases l with
    | answered wait =>
      cases wait with
      | timer =>
        obtain hs | hs := hs <;> rw [hs] at hstatus <;> cases hstatus
        exact ⟨hs, rfl⟩
      | _ => cases hanswers
    | _ => cases hanswers
  · obtain ⟨hsleeping, hready⟩ := hready
    obtain hsame | ⟨r'', -, hstatus⟩ := hstep.leaves hr' (.inl hready)
    · exact ⟨r', hsame, hsleeping, hready⟩
    · have hanswers := hP l hl
      rw [hready] at hstatus
      cases l with
      | answered wait => cases wait <;> cases hstatus
      | _ => cases hanswers
  · obtain ⟨r', hr', hsleeping, hready⟩ := hleft
    exact ⟨r', hr', by rw [hsleeping, hready]; rfl⟩

/-- A claim of a workflow that was ready leaves it running. -/
theorem Steps.claims {token : LeaseToken} {now : DbMillis}
    (h : Steps (fun l => l.ClaimsDue db token now w) (db.aggregate w) g')
    (hr : db.workflows.find w = some r) (hs : r.status = .ready ∨ r.status = .sleeping) :
    g'.row = some r ∨ ∃ r', g'.row = some r' ∧ r'.status = r.status.served := by
  -- no lease of the workflow is recovered
  have hrecovered : ∀ l : Label, l.ClaimsDue db token now w → l ≠ .recovered := by
    intro l hl heq
    obtain ⟨r₀, hr₀, hrunning⟩ := hl.leased heq
    obtain rfl := Option.some_inj.mp (hr.symm.trans hr₀)
    rw [hrunning] at hs
    obtain hs | hs := hs <;> cases hs
  refine (Steps.leaves (D := fun status => r.status = .ready ∧ status = .running) h hr hs
    (fun l status hl hstatus => ?_) fun g l g' r' hl hstep hr' hruns => ?_).imp_right fun hleft => ?_
  · have hclaims := hl.claims
    cases l with
    | claimed =>
      obtain hs | hs := hs <;> rw [hs] at hstatus <;> cases hstatus
      exact ⟨hs, rfl⟩
    | history | recovered => cases hstatus
    | _ => cases hclaims
  · have hclaims := hl.claims
    cases hstep with
    | history => exact ⟨r', hr', hruns⟩
    | claimed => exact ⟨_, rfl, hruns.1, rfl⟩
    | recovered => exact absurd rfl (hrecovered _ hl)
    | _ => cases hclaims
  · obtain ⟨r', hr', hready, hruns⟩ := hleft
    exact ⟨r', hr', by rw [hready, hruns]; rfl⟩

/-- **What ends a wait**: an action leaves a workflow that is ready or asleep as it is, unless it
serves, pauses or cancels it. -/
theorem exec_ends_wait (h : s.Inv) (hok : exec externals s action = .ok s')
    (hr : s.db.workflows.find w = some r) (hs : r.status = .ready ∨ r.status = .sleeping) :
    s'.db.workflows.find w = some r ∨ ∃ r', s'.db.workflows.find w = some r' ∧
      r'.status ∈ [r.status.served, .paused, .cancelled] := by
  have hsteps := (exec_leads h hok).evolves.steps w
  cases action with
  | claimWorkflow =>
    rw [exec] at hok
    obtain ⟨o, db', hclaim, rfl⟩ := transact_ok hok
    have hev := (wp_ok (wp_claimRow h.sound) hclaim).1
    refine ((hev.steps w).claims hr hs).imp_right fun hleft => ?_
    obtain ⟨r', hr', hstatus⟩ := hleft
    exact ⟨r', hr', by simp [hstatus]⟩
  | pause =>
    refine (hsteps.pauses hr hs fun l hl => ?_).imp_right fun hleft => ?_
    · have hpermits := hl.1
      cases l with
      | history => exact .inl rfl
      | paused revoked => exact .inr ⟨revoked, rfl⟩
      | _ => cases hpermits
    · obtain ⟨r', hr', hstatus⟩ := hleft
      exact ⟨r', hr', by simp [hstatus]⟩
  | fireTimer =>
    refine (hsteps.wakes hr hs fun l hl => hl.1).imp_right fun hleft => ?_
    obtain ⟨r', hr', hstatus⟩ := hleft
    exact ⟨r', hr', by simp [hstatus]⟩
  | _ =>
    refine (hsteps.cancels hr hs fun l status hl hstatus => ?_).imp_right fun hleft => ?_
    · have hpermits := hl.1
      cases l with
      | cancelled => exact (Option.some_inj.mp hstatus).symm
      | claimed | paused => cases hpermits
      | answered wait =>
        cases wait with
        | timer => cases hpermits
        | _ => cases hstatus
      | _ => cases hstatus
    · obtain ⟨r', hr', hstatus⟩ := hleft
      exact ⟨r', hr', by simp [hstatus]⟩

-- ════════════════════════════════════════════════════════════════════════
-- Turns
-- ════════════════════════════════════════════════════════════════════════

/-- The workflow is ready, and due at `t`. -/
def DB.Queued (db : DB) (t : DbMillis) (w : WorkflowId) : Prop :=
  ∃ r, db.workflows.find w = some r ∧ r.status = .ready ∧ r.availableAt = t

/-- The workflow sleeps until `t`. -/
def DB.Asleep (db : DB) (t : DbMillis) (w : WorkflowId) : Prop :=
  ∃ r, db.workflows.find w = some r ∧ r.status = .sleeping ∧ r.waitKind = some .timer ∧
    r.availableAt = t

/-- The number of the ready workflows ahead of `w`. -/
def DB.queueAhead (db : DB) (t : DbMillis) (w : WorkflowId) : ℕ :=
  (db.workflows.keys fun r => r.readyAhead t w).card

/-- The number of the sleeping workflows ahead of `w`. -/
def DB.timersAhead (db : DB) (t : DbMillis) (w : WorkflowId) : ℕ :=
  (db.workflows.keys fun r => r.asleepAhead t w).card

/-- A claim that could serve the ready workflow `w`: its definition is local, its row is free, and
fewer rows ahead of it are held than the scan reads. -/
def Sys.servesReady (t : DbMillis) (w : WorkflowId) (s : Sys) : Action → Bool
  | .claimWorkflow _ registry locked _ _ =>
    (s.db.workflows.find w).any (fun r => (r.kind, r.version) ∈ registry.definitionKeys) &&
      !locked w &&
      (s.db.workflows.keys fun r => r.readyAhead t w && locked r.id).card < claimScanLimit
  | _ => false

/-- A pass of the timer task that could wake `w`: its row is free. -/
def servesAsleep (w : WorkflowId) : Action → Bool
  | .fireTimer locked _ => !locked w
  | _ => false

/-- A claim takes the first free candidate. -/
theorem wp_claimReady_first {registry : WorkflowRegistry} {locked : WorkflowId → Bool}
    {workerId : String} {token : LeaseToken} {expiry : DbMillis} {row : WorkflowRow}
    (hfirst : ((readyWorkflows registry now db).take claimScanLimit).find?
      (fun row => !locked row.id) = some row) :
    wp (claimReady registry locked workerId token expiry now)
      (fun _ db' => ∃ r', db'.workflows.find row.id = some r' ∧ r'.status = .running) Benign db := by
  have hstored : ∀ r ∈ (readyWorkflows registry now db).take claimScanLimit,
      db.workflows.find r.id = some r ∧ readyAt now r = true := by
    intro r hr
    obtain ⟨hfind, -, hready⟩ := mem_readyWorkflows.mp (List.mem_of_mem_take hr)
    exact ⟨hfind, hready⟩
  have hlock : lockFirst locked (readyAt now)
      (((readyWorkflows registry now db).take claimScanLimit).map fun r => r.id) db = _ :=
    lockFirst_stored hstored
  rw [hfirst] at hlock
  rw [claimReady, wp_bind, wp_selectRows]
  refine (wp_bind _ _).mpr (wp_eq_ok hlock ?_)
  obtain ⟨hfind, hready⟩ := hstored row (List.mem_of_find?_eq_some hfirst)
  rw [readyAt, Bool.and_eq_true] at hready
  refine (wp_bind _ _).mpr (wp_updateWorkflow_of hfind hready.1 fun db' ht => ?_)
  exact ⟨_, congrArg Aggregate.row ht.self, rfl⟩

/-- Behind fewer held rows than the scan reads, the first free candidate is the workflow or one
ahead of it. -/
theorem readyWorkflows_first {registry : WorkflowRegistry} {locked : WorkflowId → Bool}
    (hr : db.workflows.find w = some r) (hready : r.status = .ready) (htime : r.availableAt = t)
    (hnow : t < now) (hkey : (r.kind, r.version) ∈ registry.definitionKeys)
    (hfree : locked w = false)
    (hheld : (db.workflows.keys fun r => r.readyAhead t w && locked r.id).card < claimScanLimit) :
    ∃ row, ((readyWorkflows registry now db).take claimScanLimit).find?
        (fun row => !locked row.id) = some row ∧
      db.workflows.find row.id = some row ∧ row.status = .ready ∧ row.place ≤ toLex (t, w) := by
  have hid : r.id = w := Table.key_of_find hr
  have hplace : r.place = toLex (t, w) := by rw [WorkflowRow.place, htime, hid]
  have hmem : r ∈ readyWorkflows registry now db := by
    rw [mem_readyWorkflows, hid]
    refine ⟨hr, hkey, ?_⟩
    simp only [readyAt, hready, htime, beq_self_eq_true, Bool.true_and, decide_eq_true_eq]
    exact le_of_lt hnow
  have hcount : ((readyWorkflows registry now db).filter fun row =>
      locked row.id && decide (row.place < r.place)).length < claimScanLimit := by
    refine lt_of_le_of_lt ?_ hheld
    have hperm : ((readyWorkflows registry now db).filter fun row =>
        locked row.id && decide (row.place < r.place)).Perm _ :=
      (List.perm_insertionSort _ _).filter _
    rw [hperm.length_eq, ← Table.select_and, ← Table.card_keys]
    apply Finset.card_le_card
    intro i hi
    obtain ⟨row, hrow, hp⟩ := Table.mem_keys.mp hi
    simp only [readyAt, Bool.and_eq_true, decide_eq_true_eq, beq_iff_eq] at hp
    refine Table.mem_keys.mpr ⟨row, hrow, ?_⟩
    simp only [WorkflowRow.readyAhead, WorkflowRow.before, Bool.and_eq_true, decide_eq_true_eq,
      beq_iff_eq]
    exact ⟨⟨hp.1.2.1, hplace ▸ hp.2.2⟩, hp.2.1⟩
  have hsorted : (readyWorkflows registry now db).Pairwise fun r r' => r.place < r'.place :=
    pairwise_orderBy
  have hfreeRow : (fun row : WorkflowRow => locked row.id) r = false := by
    rw [← hid] at hfree
    exact hfree
  obtain ⟨row, hfirst, hle⟩ := Keyset.find_take_le hsorted hmem hfreeRow hcount
  have hrow := List.mem_of_mem_take (List.mem_of_find?_eq_some hfirst)
  obtain ⟨hfind, -, hreadyAt⟩ := mem_readyWorkflows.mp hrow
  simp only [readyAt, Bool.and_eq_true, beq_iff_eq] at hreadyAt
  exact ⟨row, hfirst, hfind, hreadyAt.1, hplace ▸ hle⟩

/-- A claim that could serve a workflow serves it or one ahead of it. -/
theorem wp_claimRow_serves {config : CoordinatorConfig} {registry : WorkflowRegistry}
    {locked : WorkflowId → Bool} {workerId : String} {token : LeaseToken} (hs : db.Sound)
    (hr : db.workflows.find w = some r) (hready : r.status = .ready) (htime : r.availableAt = t)
    (hnow : t < now) (hkey : (r.kind, r.version) ∈ registry.definitionKeys)
    (hfree : locked w = false)
    (hheld : (db.workflows.keys fun r => r.readyAhead t w && locked r.id).card < claimScanLimit) :
    wp (claimRow config registry locked workerId token now)
      (fun _ db' => ∃ i row r', db.workflows.find i = some row ∧ row.status = .ready ∧
        row.place ≤ toLex (t, w) ∧ db'.workflows.find i = some r' ∧ r'.status = .running)
      Benign db := by
  simp only [claimRow, wp_bind, wp_ofExcept, wp_orAbort, wp_read]
  refine ⟨fun _ _ => ⟨fun expiry _ => ?_, fun _ => rfl⟩, benignErrors_durationMillis _⟩
  have hclaim : ∀ db₁, WritesAfter t db db₁ →
      (∀ w r, db.workflows.find w = some r → r.status = .ready → db₁.workflows.find w = some r) →
      wp (claimReady registry locked workerId token expiry now)
        (fun _ db' => ∃ i row r', db.workflows.find i = some row ∧ row.status = .ready ∧
          row.place ≤ toLex (t, w) ∧ db'.workflows.find i = some r' ∧ r'.status = .running)
        Benign db₁ := by
    intro db₁ hwrites hkept
    have hheld₁ := lt_of_le_of_lt (Table.card_keys_le fun _ _ => hwrites.readyAhead) hheld
    have hr₁ := hkept w r hr hready
    obtain ⟨row, hfirst, hfind, hrowReady, hle⟩ :=
      readyWorkflows_first hr₁ hready htime hnow hkey hfree hheld₁
    refine wp_imp (wp_claimReady_first hfirst) fun _ db' hruns => ?_
    obtain ⟨r', hr', hstatus⟩ := hruns
    -- the row it takes was ready before the recovery
    obtain heq | hlt := eq_or_lt_of_le hle
    · have hw : row.id = w := congrArg (fun place => (ofLex place).2) heq
      rw [hw] at hfind hr'
      obtain rfl := Option.some_inj.mp (hr₁.symm.trans hfind)
      exact ⟨w, r, r', hr, hready, hle, hr', hstatus⟩
    · have hahead : (row.readyAhead t w && true) = true := by
        simp [WorkflowRow.readyAhead, WorkflowRow.before, hrowReady, hlt]
      obtain ⟨row₀, hrow₀, hahead₀⟩ := hwrites.readyAhead (q := fun _ => true) hfind hahead
      rw [Bool.and_true, WorkflowRow.readyAhead, Bool.and_eq_true, beq_iff_eq] at hahead₀
      exact ⟨row.id, row₀, r', hrow₀, hahead₀.1, le_of_lt (of_decide_eq_true hahead₀.2), hr', hstatus⟩
  refine wp_findExpired ?_ (fun row hrow hexpired => ?_) ?_
  · have := Table.length_select_le (t := db.workflows) (p := fun r =>
      leaseExpired now r && afterCursor none r)
    omega
  · have hrecover : Respects (WritesAfter t) (recoverExpired (some row) now) :=
      writes_recoverExpired hnow
    have hwrites := hrecover db
    have hkept : wp (recoverLease row now) (fun _ db₁ => ∀ w r, db.workflows.find w = some r →
        r.status = .ready → db₁.workflows.find w = some r) Benign db :=
      wp_recoverLease hs hrow hexpired fun _ _ hkept => hkept
    exact wp_mono (wp_and hwrites hkept) (fun _ db₁ h => hclaim db₁ h.1 h.2) fun _ h => h.2
  · exact hclaim db (.refl db) fun _ _ hr _ => hr

/-- The first of the due workflows that are free is the workflow or one ahead of it. -/
theorem dueTimers_first {locked : WorkflowId → Bool} (hr : db.workflows.find w = some r)
    (hsleeping : r.status = .sleeping) (hwait : r.waitKind = some .timer)
    (htime : r.availableAt = t) (hnow : t < now) (hfree : locked w = false) :
    ∃ row, (orderBy (fun r => r.availableAt) (db.workflows.select fun r =>
        r.status == .sleeping && r.waitKind == some .timer && r.availableAt ≤ now &&
          !locked r.id)).head? = some row ∧ row.place ≤ toLex (t, w) := by
  have hid : r.id = w := Table.key_of_find hr
  have hplace : r.place = toLex (t, w) := by rw [WorkflowRow.place, htime, hid]
  have hmem : r ∈ orderBy (fun r => r.availableAt) (db.workflows.select fun r =>
      r.status == .sleeping && r.waitKind == some .timer && r.availableAt ≤ now &&
        !locked r.id) := by
    have hstored : db.workflows.find r.id = some r := by rwa [hid]
    rw [mem_orderBy, Table.mem_select]
    refine ⟨hstored, ?_⟩
    simp [hsleeping, hwait, htime, hfree, hid, le_of_lt hnow]
  have hsorted : (orderBy (fun r => r.availableAt) (db.workflows.select fun r =>
      r.status == .sleeping && r.waitKind == some .timer && r.availableAt ≤ now &&
        !locked r.id)).Pairwise fun r r' => r.place < r'.place := pairwise_orderBy
  cases hdue : orderBy (fun r => r.availableAt) (db.workflows.select fun r =>
      r.status == .sleeping && r.waitKind == some .timer && r.availableAt ≤ now &&
        !locked r.id) with
  | nil =>
    rw [hdue] at hmem
    cases hmem
  | cons row rows =>
    rw [hdue] at hmem hsorted
    refine ⟨row, rfl, ?_⟩
    rw [← hplace]
    obtain rfl | hrest := List.mem_cons.mp hmem
    · exact le_rfl
    · exact (List.rel_of_pairwise_cons hsorted hrest).le

/-- A pass of the timer task that could wake a workflow wakes it or one ahead of it. -/
theorem wp_materializeTimer_serves {locked : WorkflowId → Bool} (hs : db.Sound)
    (hr : db.workflows.find w = some r) (hsleeping : r.status = .sleeping)
    (hwait : r.waitKind = some .timer) (htime : r.availableAt = t) (hnow : t < now)
    (hfree : locked w = false) :
    wp (materializeTimer externals locked now)
      (fun _ db' => ∃ i row r', db.workflows.find i = some row ∧ row.status = .sleeping ∧
        row.waitKind = some .timer ∧ row.place ≤ toLex (t, w) ∧
        db'.workflows.find i = some r' ∧ r'.waitKind = none ∧ r'.status = .ready) Benign db := by
  obtain ⟨workflow, hhead, hle⟩ := dueTimers_first hr hsleeping hwait htime hnow hfree
  obtain ⟨hfind, hdue⟩ := Table.mem_select.mp (mem_orderBy.mp (List.mem_of_mem_head? hhead))
  simp only [Bool.and_eq_true, beq_iff_eq, decide_eq_true_eq] at hdue
  obtain ⟨⟨⟨hstatus, hkind⟩, -⟩, -⟩ := hdue
  have hinv := hs.inv hfind
  have ht : workflow.status.isTerminal = false := by
    rw [hstatus]
    rfl
  rw [materializeTimer, wp_bind, wp_selectRows, workflowTable_get, hhead]
  have hallowed := hinv.row.allowed
  simp only [hstatus, WorkflowStatus.allows] at hallowed
  cases hw : workflow.awaited with
  | none => simp [hw] at hallowed
  | some wait =>
    have htimer : wait.kind = .timer := by simpa [hw] using hallowed
    obtain ⟨-, herror⟩ := hinv.waitCommandSequence ht hw (.inl htimer)
    simp only [wp_bind, wp_ofExcept]
    refine ⟨fun n _ => ?_, herror⟩
    refine wp_appendDeliveryEvent hs hfind ht hw rfl (fun h => by cases h) fun e db₁ _ _ ht₁ => ?_
    refine wp_updateWorkflow_of ((ht₁.find_of_addEvent _).trans hfind) (by simp) fun db₂ ht₂ => ?_
    refine ⟨workflow.id, workflow, _, hfind, hstatus, hkind, hle, congrArg Aggregate.row ht₂.self,
      rfl, ?_⟩
    show (if workflow.status = .paused then WorkflowStatus.paused else .ready) = .ready
    rw [hstatus]
    rfl

-- ════════════════════════════════════════════════════════════════════════
-- Runs
-- ════════════════════════════════════════════════════════════════════════

/-- **Bounded overtaking of ready workflows** in every run. While a workflow that is due at `t`
waits to be claimed, no transaction is as early as `t` and none is given a time as early, the
claims that could serve it succeed at most as often as workflows are ahead of it; then it runs, or
an operator or a restart has paused or cancelled it. -/
theorem run_claimed_in_turn (externals : Externals) (earlier later : List Action) (w : WorkflowId)
    (t : DbMillis) (hmax : t < DbMillis.max)
    (hqueued : (run externals Sys.init earlier).db.Queued t w)
    (hlater : ∀ action ∈ later, action.After t) :
    let s := run externals Sys.init earlier
    Machine.turns (exec externals) (Sys.servesReady t w) s later ≤ s.db.queueAhead t w ∨
      ∃ pre action post s' r', later = pre ++ action :: post ∧
        exec externals (run externals s pre) action = .ok s' ∧
        (run externals s pre).db.Queued t w ∧
        Machine.turns (exec externals) (Sys.servesReady t w) s pre ≤ s.db.queueAhead t w ∧
        s'.db.workflows.find w = some r' ∧ r'.status ∈ [.running, .paused, .cancelled] := by
  intro s
  have hrank : ∀ s action s', s.Inv → action.After t → exec externals s action = .ok s' →
      s.db.Queued t w → s'.db.Queued t w → s'.db.queueAhead t w ≤ s.db.queueAhead t w := by
    intro s action s' _ hafter hok _ _
    refine Table.card_keys_le fun i r' hr' hahead => ?_
    simpa using (exec_writes hmax hafter hok).readyAhead (q := fun _ => true) hr' (by simp [hahead])
  have hturn : ∀ s action s', s.Inv → action.After t → exec externals s action = .ok s' →
      s.db.Queued t w → s'.db.Queued t w → s.servesReady t w action = true →
      s'.db.queueAhead t w < s.db.queueAhead t w := by
    intro s action s' hinv hafter hok hwaits hwaits' hserves
    have hwrites := exec_writes hmax hafter hok
    cases action with
    | claimWorkflow config registry locked workerId now =>
      obtain ⟨r, hr, hready, htime⟩ := hwaits
      simp only [Sys.servesReady, hr, Option.any_some, Bool.and_eq_true, decide_eq_true_eq,
        Bool.not_eq_true'] at hserves
      obtain ⟨⟨hkey, hfree⟩, hheld⟩ := hserves
      rw [exec] at hok
      obtain ⟨o, db', hclaim, rfl⟩ := transact_ok hok
      obtain ⟨i, row, r', hrow, hrowReady, hle, hr', hruns⟩ :=
        wp_ok (wp_claimRow_serves hinv.sound hr hready htime hafter hkey hfree hheld) hclaim
      have hlt : row.place < toLex (t, w) := by
        refine lt_of_le_of_ne hle fun heq => ?_
        have hid : i = w := (Table.key_of_find hrow).symm.trans
          (congrArg (fun place => (ofLex place).2) heq)
        obtain ⟨r₁, hr₁, hready₁, -⟩ := hwaits'
        rw [← hid] at hr₁
        obtain rfl := Option.some_inj.mp (hr'.symm.trans hr₁)
        rw [hruns] at hready₁
        cases hready₁
      refine Table.card_keys_lt (fun i r' hr' hahead => ?_) hrow ?_ fun r₁ hr₁ => ?_
      · simpa using hwrites.readyAhead (q := fun _ => true) hr' (by simp [hahead])
      · simp [WorkflowRow.readyAhead, WorkflowRow.before, hrowReady, hlt]
      · obtain rfl := Option.some_inj.mp (hr'.symm.trans hr₁)
        simp [WorkflowRow.readyAhead, hruns]
    | _ => cases hserves
  obtain hbound | ⟨pre, action, post, s', hsplit, hok, hwaits, hleft, hbound⟩ :=
    Machine.run_overtaken (fun _ _ _ h hok => (exec_leads h hok).inv) hrank hturn
      (run_inv externals earlier) hqueued hlater
  · exact .inl hbound
  · obtain ⟨r, hr, hready, htime⟩ := hwaits
    have hinv := (run_inv externals earlier).run externals pre
    obtain hsame | ⟨r', hr', hstatus⟩ := exec_ends_wait hinv hok hr (.inl hready)
    · exact absurd ⟨r, hsame, hready, htime⟩ hleft
    · rw [hready] at hstatus
      exact .inr ⟨pre, action, post, s', r', hsplit, hok, ⟨r, hr, hready, htime⟩, hbound, hr',
        hstatus⟩

/-- **Bounded overtaking of timers** in every run. While a workflow sleeps until `t`, no
transaction is as early as `t` and none is given a time as early, the passes of the timer task that
find its row free succeed at most as often as sleeping workflows are ahead of it; then it is ready,
or it was paused or cancelled. -/
theorem run_fired_in_turn (externals : Externals) (earlier later : List Action) (w : WorkflowId)
    (t : DbMillis) (hmax : t < DbMillis.max)
    (hasleep : (run externals Sys.init earlier).db.Asleep t w)
    (hlater : ∀ action ∈ later, action.After t) :
    let s := run externals Sys.init earlier
    Machine.turns (exec externals) (fun _ => servesAsleep w) s later ≤ s.db.timersAhead t w ∨
      ∃ pre action post s' r', later = pre ++ action :: post ∧
        exec externals (run externals s pre) action = .ok s' ∧
        (run externals s pre).db.Asleep t w ∧
        Machine.turns (exec externals) (fun _ => servesAsleep w) s pre ≤ s.db.timersAhead t w ∧
        s'.db.workflows.find w = some r' ∧ r'.status ∈ [.ready, .paused, .cancelled] := by
  intro s
  have hrank : ∀ s action s', s.Inv → action.After t → exec externals s action = .ok s' →
      s.db.Asleep t w → s'.db.Asleep t w → s'.db.timersAhead t w ≤ s.db.timersAhead t w := by
    intro s action s' hinv hafter hok _ _
    refine Table.card_keys_le fun i r' hr' hahead => ?_
    exact (exec_writes hmax hafter hok).asleepAhead (exec_leads hinv hok).evolves hr' hahead
  have hturn : ∀ s action s', s.Inv → action.After t → exec externals s action = .ok s' →
      s.db.Asleep t w → s'.db.Asleep t w → servesAsleep w action = true →
      s'.db.timersAhead t w < s.db.timersAhead t w := by
    intro s action s' hinv hafter hok hwaits hwaits' hserves
    have hwrites := exec_writes hmax hafter hok
    have hev := (exec_leads hinv hok).evolves
    cases action with
    | fireTimer locked now =>
      obtain ⟨r, hr, hsleeping, hwait, htime⟩ := hwaits
      have hfree : locked w = false := by simpa [servesAsleep] using hserves
      rw [exec] at hok
      obtain ⟨o, db', hfire, rfl⟩ := transact'_ok hok
      obtain ⟨i, row, r', hrow, hrowSleeping, hrowWait, hle, hr', hnone, -⟩ := wp_ok
        (wp_materializeTimer_serves hinv.sound hr hsleeping hwait htime hafter hfree) hfire
      have hlt : row.place < toLex (t, w) := by
        refine lt_of_le_of_ne hle fun heq => ?_
        have hid : i = w := (Table.key_of_find hrow).symm.trans
          (congrArg (fun place => (ofLex place).2) heq)
        obtain ⟨r₁, hr₁, -, hwait₁, -⟩ := hwaits'
        rw [← hid] at hr₁
        obtain rfl := Option.some_inj.mp (hr'.symm.trans hr₁)
        rw [hnone] at hwait₁
        cases hwait₁
      refine Table.card_keys_lt (fun i r' hr' hahead => ?_) hrow ?_ fun r₁ hr₁ => ?_
      · exact hwrites.asleepAhead hev hr' hahead
      · simp [WorkflowRow.asleepAhead, WorkflowRow.before, hrowSleeping, hrowWait, hlt,
          WorkflowStatus.isTerminal]
      · obtain rfl := Option.some_inj.mp (hr'.symm.trans hr₁)
        simp [WorkflowRow.asleepAhead, hnone]
    | _ => cases hserves
  obtain hbound | ⟨pre, action, post, s', hsplit, hok, hwaits, hleft, hbound⟩ :=
    Machine.run_overtaken (fun _ _ _ h hok => (exec_leads h hok).inv) hrank hturn
      (run_inv externals earlier) hasleep hlater
  · exact .inl hbound
  · have hwaits₀ := hwaits
    obtain ⟨r, hr, hsleeping, hwait, htime⟩ := hwaits
    have hinv := (run_inv externals earlier).run externals pre
    obtain hsame | ⟨r', hr', hstatus⟩ := exec_ends_wait hinv hok hr (.inr hsleeping)
    · exact absurd ⟨r, hsame, hsleeping, hwait, htime⟩ hleft
    · rw [hsleeping] at hstatus
      exact .inr ⟨pre, action, post, s', r', hsplit, hok, hwaits₀, hbound, hr', hstatus⟩

namespace Sample

/-- Two starts at the time 5. -/
def twoStarts : List Action := List.replicate 2 (.start workflow ⟨none, none, none⟩ 5)

/-- Two claims at the time 6. -/
def twoClaims : List Action :=
  List.replicate 2 (.claimWorkflow config workflows (fun _ => false) "worker" 6)

/-- A workflow that sleeps until 7, of two that were started. -/
def oneTimer : List Action := twoStarts ++ activation 0 (.sleepUntil "null" 7) 6

/-- The second of two claims takes the second of two workflows. -/
theorem twoClaims_claimed :
    ∃ pre action post s' r', twoClaims = pre ++ action :: post ∧
      exec Sample.externals (run Sample.externals (run Sample.externals Sys.init twoStarts) pre)
        action = .ok s' ∧
      s'.db.workflows.find 2 = some r' ∧ r'.status ∈ [.running, .paused, .cancelled] := by
  have hrow : ((run Sample.externals Sys.init twoStarts).db.workflows.find 2).map
      (fun r => (r.status, r.availableAt)) = some (.ready, 5) := by decide +kernel
  have hturns : ¬Machine.turns (exec Sample.externals) (Sys.servesReady 5 2)
      (run Sample.externals Sys.init twoStarts) twoClaims ≤
        (run Sample.externals Sys.init twoStarts).db.queueAhead 5 2 := by decide +kernel
  obtain ⟨r, hr, hcolumns⟩ := Option.map_eq_some_iff.mp hrow
  obtain ⟨hready, htime⟩ := Prod.mk.inj hcolumns
  have hlater : ∀ action ∈ twoClaims, action.After 5 := by
    intro action haction
    rw [List.eq_of_mem_replicate haction]
    show (5 : ℤ) < 6
    decide
  obtain hle | ⟨pre, action, post, s', r', hsplit, hok, -, -, hr', hstatus⟩ :=
    run_claimed_in_turn Sample.externals twoStarts twoClaims 2 5 (by decide)
      ⟨r, hr, hready, htime⟩ hlater
  · exact absurd hle hturns
  · exact ⟨pre, action, post, s', r', hsplit, hok, hr', hstatus⟩

/-- The first pass of the timer task wakes the only sleeper. -/
theorem sleeper_fired :
    ∃ pre action post s' r',
      [Action.fireTimer (fun _ => false) 8] = pre ++ action :: post ∧
      exec Sample.externals (run Sample.externals (run Sample.externals Sys.init oneTimer) pre)
        action = .ok s' ∧
      s'.db.workflows.find 1 = some r' ∧ r'.status ∈ [.ready, .paused, .cancelled] := by
  have hrow : ((run Sample.externals Sys.init oneTimer).db.workflows.find 1).map
      (fun r => (r.status, r.waitKind, r.availableAt)) = some (.sleeping, some .timer, 7) := by
    decide +kernel
  have hturns : ¬Machine.turns (exec Sample.externals) (fun _ => servesAsleep 1)
      (run Sample.externals Sys.init oneTimer) [.fireTimer (fun _ => false) 8] ≤
        (run Sample.externals Sys.init oneTimer).db.timersAhead 7 1 := by decide +kernel
  obtain ⟨r, hr, hcolumns⟩ := Option.map_eq_some_iff.mp hrow
  simp only [Prod.mk.injEq] at hcolumns
  obtain ⟨hsleeping, hwait, htime⟩ := hcolumns
  have hlater : ∀ action ∈ [Action.fireTimer (fun _ => false) 8], action.After 7 := by
    intro action haction
    rw [List.mem_singleton.mp haction]
    show (7 : ℤ) < 8
    decide
  obtain hle | ⟨pre, action, post, s', r', hsplit, hok, -, -, hr', hstatus⟩ :=
    run_fired_in_turn Sample.externals oneTimer _ 1 7 (by decide)
      ⟨r, hr, hsleeping, hwait, htime⟩ hlater
  · exact absurd hle hturns
  · exact ⟨pre, action, post, s', r', hsplit, hok, hr', hstatus⟩

end Sample

end DurableWorkflows
