import DurableWorkflows.Engine.Evolution

/-!
# Continuity

What a step never takes back: events are only appended, a row under a token is
the row as it was claimed, an activity keeps its identity and its attempts are
numbered upwards, and a closed attempt never changes.

## Main definitions

- `ActivityRow.Follows`: how an activity goes on, as seen by the holder of a
  token

## Main results

- `Evolves.row_of_token`: only a claim gives a row its token
- `Evolves.follows`, `Evolves.follows_attempt`
-/

namespace DurableWorkflows

variable {g g' : Aggregate} {db db' : DB} {w : WorkflowId} {r r' : WorkflowRow} {a : ActivityId}
  {act act' act'' : ActivityRow} {attempt : ActivityAttemptRow} {l : Label} {t : LeaseToken} {n : ℕ}

-- ════════════════════════════════════════════════════════════════════════
-- Events and workflow rows
-- ════════════════════════════════════════════════════════════════════════

/-- Events are only appended. -/
theorem Step.events_extend (h : Step g l g') : g.events <+: g'.events := by
  cases h
  all_goals first | exact List.prefix_rfl | exact List.prefix_append _ _

/-- A workflow never counts fewer commands. -/
theorem Step.command_le (h : Step g l g') (hr : g.row = some r) :
    ∃ r', g'.row = some r' ∧ r.commandSequence ≤ r'.commandSequence := by
  have hrow : ∀ {r₀}, g.row = some r₀ → r₀ = r := fun hr₀ =>
    Option.some_inj.mp (hr₀.symm.trans hr)
  cases h with
  | inserted => cases hr
  | history | discarded | activityClaimed | renewed | released | settled => exact ⟨r, hr, le_rfl⟩
  | slept hr₀ | waitedApproval hr₀ | waitedActivity hr₀ | waitedChild hr₀ =>
    obtain rfl := hrow hr₀
    exact ⟨_, rfl, Nat.le_succ _⟩
  | cancelled hr₀ _ _ clear =>
    obtain rfl := hrow hr₀
    cases clear <;> exact ⟨_, rfl, le_rfl⟩
  | claimed hr₀ | recovered hr₀ | continued hr₀ | completed hr₀ | activationFailed hr₀ | answered hr₀
  | answeredApproval hr₀ | reattached hr₀ | paused hr₀ | revoked hr₀ | resumed hr₀ | superseded hr₀
  | retried hr₀ | succeeded hr₀ | deadLettered hr₀ | quarantined hr₀ =>
    obtain rfl := hrow hr₀
    exact ⟨_, rfl, le_rfl⟩

/-- A wait is for the next command. -/
theorem Step.commandSequence_of_waited {wait : Wait} (h : Step g (.waited wait) g')
    (hr : g.row = some r) (hr' : g'.row = some r') :
    r'.commandSequence = r.commandSequence + 1 := by
  cases h with
  | slept hr₀ | waitedApproval hr₀ | waitedActivity hr₀ | waitedChild hr₀ =>
    cases hr'
    rw [Option.some_inj.mp (hr.symm.trans hr₀)]
    rfl

/-- A row that is not running has no token. -/
theorem RowInv.leaseToken_ne (h : RowInv r) (hs : r.status ≠ .running) : r.leaseToken ≠ some t := by
  intro ht
  have := h.leaseToken
  rw [ht] at this
  exact hs (beq_iff_eq.mp this.symm)

/-- A row under a token that no claim just drew is as it was. -/
theorem Step.row_of_token (h : Step g l g') (hg : g.WellFormed) (hl : l ≠ .claimed t)
    (hr : g'.row = some r') (ht : r'.leaseToken = some t) : g.row = some r' := by
  have hkept : ∀ r, g.row = some r → r.status ≠ .running → r.leaseToken ≠ some t :=
    fun r hr => (hg.inv hr).row.leaseToken_ne
  cases h with
  | history | discarded | activityClaimed | renewed | released | settled => exact hr
  | inserted hrow =>
    cases hr
    simp [hrow.leaseToken] at ht
  | claimed =>
    cases hr
    exact absurd (congrArg Label.claimed (Option.some_inj.mp ht)) hl
  | recovered | continued | completed | slept | waitedApproval | waitedActivity | waitedChild
  | activationFailed | paused | revoked | resumed | superseded =>
    cases hr
    cases ht
  | cancelled _ _ _ clear =>
    cases hr
    cases clear <;> cases ht
  | answered hr₀ _ hs =>
    cases hr
    refine (hkept _ hr₀ (fun h => ?_) ht).elim
    simp [h, WorkflowStatus.awaitsChild] at hs
  | answeredApproval hr₀ _ hs =>
    cases hr
    refine (hkept _ hr₀ (fun h => ?_) ht).elim
    simp [h, WorkflowStatus.awaitsApproval] at hs
  | reattached hr₀ _ hs =>
    cases hr
    refine (hkept _ hr₀ (fun h => ?_) ht).elim
    simp [h, WorkflowStatus.awaitsChild] at hs
  | retried hr₀ hs | succeeded hr₀ hs | deadLettered hr₀ hs | quarantined hr₀ hs =>
    cases hr
    exact (hkept _ hr₀ (by simp [hs]) ht).elim

-- ════════════════════════════════════════════════════════════════════════
-- Activities
-- ════════════════════════════════════════════════════════════════════════

/-- How an activity goes on, as seen by the holder of the token `t`: the row
keeps its identity and counts upwards, and it carries `t` later only if it
carried it before, for the same attempt. -/
structure ActivityRow.Follows (t : LeaseToken) (act act' : ActivityRow) : Prop where
  kind : act'.kind = act.kind
  version : act'.version = act.version
  command : act'.commandSequence = act.commandSequence
  count_le : act.attemptCount ≤ act'.attemptCount
  token : act'.leaseToken = some t →
    act.leaseToken = some t ∧ act'.attemptCount = act.attemptCount
  running : act'.leaseToken = some t → act'.status = .running →
    act.status = .running ∧ act'.maxAttempts = act.maxAttempts

namespace ActivityRow.Follows

theorem refl (act : ActivityRow) : act.Follows t act :=
  ⟨rfl, rfl, rfl, le_rfl, fun h => ⟨h, rfl⟩, fun _ h => ⟨h, rfl⟩⟩

theorem trans (h : act.Follows t act') (h' : act'.Follows t act'') : act.Follows t act'' where
  kind := h'.kind.trans h.kind
  version := h'.version.trans h.version
  command := h'.command.trans h.command
  count_le := h.count_le.trans h'.count_le
  token ht := by
    obtain ⟨ht', hcount⟩ := h'.token ht
    exact ⟨(h.token ht').1, hcount.trans (h.token ht').2⟩
  running ht hs := by
    obtain ⟨hs', hmax⟩ := h'.running ht hs
    obtain ⟨hs'', hmax'⟩ := h.running (h'.token ht).1 hs'
    exact ⟨hs'', hmax.trans hmax'⟩

/-- A row that lost its lease. -/
theorem of_cleared (hkind : act'.kind = act.kind) (hversion : act'.version = act.version)
    (hcommand : act'.commandSequence = act.commandSequence)
    (hcount : act'.attemptCount = act.attemptCount) (htoken : act'.leaseToken = none) :
    act.Follows t act' where
  kind := hkind
  version := hversion
  command := hcommand
  count_le := hcount.ge
  token h := by simp [htoken] at h
  running h := by simp [htoken] at h

/-- A row that kept its lease and is no longer running. -/
theorem of_stopped (hkind : act'.kind = act.kind) (hversion : act'.version = act.version)
    (hcommand : act'.commandSequence = act.commandSequence)
    (hcount : act'.attemptCount = act.attemptCount) (htoken : act'.leaseToken = act.leaseToken)
    (hstatus : act'.status ≠ .running) : act.Follows t act' where
  kind := hkind
  version := hversion
  command := hcommand
  count_le := hcount.ge
  token h := ⟨htoken ▸ h, hcount⟩
  running _ h := absurd h hstatus

theorem cancelledBy {outcome : AttemptOutcome} {reason : String} {now : DbMillis} :
    act.Follows t (act.cancelledBy outcome reason now) := by
  unfold ActivityRow.cancelledBy
  split
  · exact of_stopped rfl rfl rfl rfl rfl nofun
  · exact of_stopped rfl rfl rfl rfl rfl nofun
  · exact of_cleared rfl rfl rfl rfl rfl
  all_goals exact refl act

theorem discarded {now : DbMillis} : act.Follows t (act.discarded now) := by
  unfold ActivityRow.discarded
  split
  · exact of_cleared rfl rfl rfl rfl rfl
  · exact refl act

end ActivityRow.Follows

section Related

variable {R : ActivityRow → ActivityRow → Prop} (hrefl : ∀ act, R act act)

include hrefl

/-- A change of one activity. -/
theorem related_setActivity {a₀ : ActivityId} {act₀ x : ActivityRow}
    (ha₀ : g.activities a₀ = some act₀) (hx : a = a₀ → R act₀ x) (ha : g.activities a = some act) :
    ∃ act', (g.setActivity a₀ x).activities a = some act' ∧ R act act' := by
  by_cases h : a = a₀
  · subst h
    obtain rfl := Option.some_inj.mp (ha₀.symm.trans ha)
    exact ⟨x, Function.update_self .., hx rfl⟩
  · exact ⟨act, (Function.update_of_ne h ..).trans ha, hrefl act⟩

/-- A new activity. -/
theorem related_newActivity {a₀ : ActivityId} {x : ActivityRow} (ha₀ : g.activities a₀ = none)
    (ha : g.activities a = some act) :
    ∃ act', (g.setActivity a₀ x).activities a = some act' ∧ R act act' := by
  have h : a ≠ a₀ := by
    rintro rfl
    simp [ha₀] at ha
  exact ⟨act, (Function.update_of_ne h ..).trans ha, hrefl act⟩

end Related

/-- How a step takes an activity on. -/
theorem Step.follows (h : Step g l g') (hl : l ≠ .activityClaimed a t)
    (ha : g.activities a = some act) :
    ∃ act', g'.activities a = some act' ∧ act.Follows t act' := by
  cases h with
  | inserted => cases ha
  | history | claimed | recovered | continued | completed | slept | waitedApproval | waitedChild
  | activationFailed | answered | answeredApproval | reattached | paused | resumed =>
    exact ⟨act, ha, .refl act⟩
  | waitedActivity _ _ hnone | retried _ _ _ _ hnone => exact related_newActivity .refl hnone ha
  | revoked _ _ _ ha₀ =>
    exact related_setActivity .refl ha₀ (fun _ => .of_stopped rfl rfl rfl rfl rfl nofun) ha
  | cancelled => exact ⟨_, congrArg (Option.map _) ha, .cancelledBy⟩
  | superseded => exact ⟨_, congrArg (Option.map _) ha, .discarded⟩
  | discarded => exact ⟨_, congrArg (Option.map _) ha, .discarded⟩
  | activityClaimed _ _ _ ha₀ =>
    refine related_setActivity .refl ha₀
      (fun h => ⟨rfl, rfl, rfl, Nat.le_succ _, fun ht => ?_, fun ht => ?_⟩) ha
    all_goals
      subst h
      exact absurd (congrArg (Label.activityClaimed _) (Option.some_inj.mp ht)) hl
  | renewed _ ha₀ =>
    exact related_setActivity .refl ha₀.stored
      (fun _ => ⟨rfl, rfl, rfl, le_rfl, fun h => ⟨h, rfl⟩, fun _ h => ⟨h, rfl⟩⟩) ha
  | succeeded _ _ _ ha₀ | released _ ha₀ | deadLettered _ _ _ ha₀ | settled _ ha₀ =>
    exact related_setActivity .refl ha₀.stored (fun _ => .of_cleared rfl rfl rfl rfl rfl) ha
  | quarantined _ _ _ ha₀ =>
    exact related_setActivity .refl ha₀ (fun _ => .of_stopped rfl rfl rfl rfl rfl nofun) ha

/-- No step drops an activity. -/
theorem Step.stored (h : Step g l g') (ha : g.activities a = some act) :
    ∃ act', g'.activities a = some act' := by
  obtain ⟨t, ht⟩ : ∃ t, l ≠ .activityClaimed a t := by
    by_cases hl : l = .activityClaimed a 0
    · refine ⟨1, fun h => ?_⟩
      rw [hl] at h
      cases h
    · exact ⟨0, hl⟩
  obtain ⟨act', ha', -⟩ := h.follows ht ha
  exact ⟨act', ha'⟩

-- ════════════════════════════════════════════════════════════════════════
-- Attempts
-- ════════════════════════════════════════════════════════════════════════

/-- How an attempt goes on: it keeps its token, and once it is closed it never
changes. -/
def ActivityAttemptRow.Follows (attempt attempt' : ActivityAttemptRow) : Prop :=
  attempt'.leaseToken = attempt.leaseToken ∧ (attempt.finishedAt ≠ none → attempt' = attempt)

/-- A change of an open attempt. -/
theorem follows_setAttempt {a₀ : ActivityId} {act₀ : ActivityRow}
    {attempt₀ x : ActivityAttemptRow} (ha₀ : g.OpenAttempt a₀ act₀ attempt₀)
    (hx : x.leaseToken = attempt₀.leaseToken) (hattempt : g.attempts a n = some attempt) :
    ∃ attempt', (if a = a₀ ∧ n = act₀.attemptCount then some x else g.attempts a n) =
      some attempt' ∧ attempt.Follows attempt' := by
  by_cases h : a = a₀ ∧ n = act₀.attemptCount
  · obtain ⟨rfl, rfl⟩ := h
    obtain rfl := Option.some_inj.mp (ha₀.number.symm.trans hattempt)
    exact ⟨x, if_pos ⟨rfl, rfl⟩, hx, fun hne => absurd ha₀.isOpen hne⟩
  · exact ⟨attempt, (if_neg h).trans hattempt, rfl, fun _ => rfl⟩

/-- How a step takes an attempt on. -/
theorem Step.follows_attempt (h : Step g l g') (hg : g.WellFormed)
    (hattempt : g.attempts a n = some attempt) :
    ∃ attempt', g'.attempts a n = some attempt' ∧ attempt.Follows attempt' := by
  cases h with
  | inserted => cases hattempt
  | history | claimed | recovered | continued | completed | slept | waitedApproval | waitedActivity
  | waitedChild | activationFailed | answered | answeredApproval | reattached | paused | revoked
  | resumed | cancelled | superseded | discarded | retried | quarantined =>
    exact ⟨attempt, hattempt, rfl, fun _ => rfl⟩
  | @activityClaimed _ r a₀ act₀ _ hr _ _ ha₀ =>
    -- no attempt has the next number yet
    have hne : ¬(a = a₀ ∧ n = act₀.attemptCount + 1) := by
      rintro ⟨rfl, rfl⟩
      have := ((hg.inv hr).ledger a act₀ ha₀).numbered (act₀.attemptCount + 1)
      rw [hattempt] at this
      exact absurd (this.mp rfl).2 (Nat.not_succ_le_self _)
    exact ⟨attempt, (if_neg hne).trans hattempt, rfl, fun _ => rfl⟩
  | renewed _ ha₀ | succeeded _ _ _ ha₀ | released _ ha₀ | deadLettered _ _ _ ha₀
  | settled _ ha₀ => exact follows_setAttempt (g := g) ha₀ rfl hattempt

-- ════════════════════════════════════════════════════════════════════════
-- Sequences of steps
-- ════════════════════════════════════════════════════════════════════════

namespace Steps

variable {P : Label → Prop}

theorem events_extend (h : Steps P g g') : g.events <+: g'.events := by
  induction h with
  | refl => exact List.prefix_rfl
  | tail _ hstep ih =>
    obtain ⟨l, -, hstep⟩ := hstep
    exact ih.trans hstep.events_extend

theorem command_le (h : Steps P g g') (hr : g.row = some r) :
    ∃ r', g'.row = some r' ∧ r.commandSequence ≤ r'.commandSequence := by
  induction h with
  | refl => exact ⟨r, hr, le_rfl⟩
  | tail _ hstep ih =>
    obtain ⟨l, -, hstep⟩ := hstep
    obtain ⟨r₁, hr₁, hle⟩ := ih
    obtain ⟨r₂, hr₂, hle'⟩ := hstep.command_le hr₁
    exact ⟨r₂, hr₂, hle.trans hle'⟩

theorem row_of_token (h : Steps P g g') (hg : g.WellFormed) (hP : ∀ l, P l → l ≠ .claimed t)
    (hr : g'.row = some r') (ht : r'.leaseToken = some t) : g.row = some r' := by
  induction h with
  | refl => exact hr
  | tail hsteps hstep ih =>
    obtain ⟨l, hl, hstep⟩ := hstep
    exact ih (hstep.row_of_token (Steps.wellFormed hsteps hg) (hP l hl) hr ht)

theorem follows (h : Steps P g g') (hP : ∀ l, P l → l ≠ .activityClaimed a t)
    (ha : g.activities a = some act) :
    ∃ act', g'.activities a = some act' ∧ act.Follows t act' := by
  induction h with
  | refl => exact ⟨act, ha, .refl act⟩
  | tail _ hstep ih =>
    obtain ⟨l, hl, hstep⟩ := hstep
    obtain ⟨act₁, ha₁, hf₁⟩ := ih
    obtain ⟨act₂, ha₂, hf₂⟩ := hstep.follows (hP l hl) ha₁
    exact ⟨act₂, ha₂, hf₁.trans hf₂⟩

theorem stored (h : Steps P g g') (ha : g.activities a = some act) :
    ∃ act', g'.activities a = some act' := by
  induction h with
  | refl => exact ⟨act, ha⟩
  | tail _ hstep ih =>
    obtain ⟨l, -, hstep⟩ := hstep
    obtain ⟨act₁, ha₁⟩ := ih
    exact hstep.stored ha₁

theorem follows_attempt (h : Steps P g g') (hg : g.WellFormed)
    (hattempt : g.attempts a n = some attempt) :
    ∃ attempt', g'.attempts a n = some attempt' ∧ attempt.Follows attempt' := by
  induction h with
  | refl => exact ⟨attempt, hattempt, rfl, fun _ => rfl⟩
  | tail hsteps hstep ih =>
    obtain ⟨l, -, hstep⟩ := hstep
    obtain ⟨attempt₁, hattempt₁, htoken₁, hclosed₁⟩ := ih
    obtain ⟨attempt₂, hattempt₂, htoken₂, hclosed₂⟩ :=
      hstep.follows_attempt (Steps.wellFormed hsteps hg) hattempt₁
    refine ⟨attempt₂, hattempt₂, htoken₂.trans htoken₁, fun hne => ?_⟩
    have heq := hclosed₁ hne
    subst heq
    exact hclosed₂ hne

end Steps

namespace Evolves

variable {P : WorkflowId → Label → Prop}

theorem events_extend (h : Evolves P db db') (w : WorkflowId) :
    (db.aggregate w).events <+: (db'.aggregate w).events :=
  (h.steps w).events_extend

/-- Only a claim gives a row its token. -/
theorem row_of_token (h : Evolves P db db') (hs : db.Sound) (hP : ∀ l, P w l → l ≠ .claimed t)
    (hr : db'.workflows.find w = some r') (ht : r'.leaseToken = some t) :
    db.workflows.find w = some r' :=
  (h.steps w).row_of_token (hs.wellFormed w) hP hr ht

/-- How an activity goes on. -/
theorem follows (h : Evolves P db db') (hP : ∀ w l, P w l → l ≠ .activityClaimed a t)
    (ha : db.activities.find a = some act) :
    ∃ act', db'.activities.find a = some act' ∧ act'.workflowId = act.workflowId ∧
      act.Follows t act' := by
  obtain ⟨act', ha', hf⟩ := (h.steps act.workflowId).follows (hP _) (activity_of_find ha)
  obtain ⟨hfind, hw⟩ := aggregate_activity.mp ha'
  exact ⟨act', hfind, hw, hf⟩

/-- An activity stays in its workflow. -/
theorem stored (h : Evolves P db db') (ha : db.activities.find a = some act) :
    ∃ act', db'.activities.find a = some act' ∧ act'.workflowId = act.workflowId := by
  obtain ⟨act', ha'⟩ := (h.steps act.workflowId).stored (activity_of_find ha)
  exact ⟨act', aggregate_activity.mp ha'⟩

/-- How an attempt goes on. -/
theorem follows_attempt (h : Evolves P db db') (hs : db.Sound)
    (hattempt : db.attempts a n = some attempt) :
    ∃ attempt', db'.attempts a n = some attempt' ∧ attempt.Follows attempt' := by
  cases ha : db.activities.find a with
  | none =>
    rw [hs.closed a n ha] at hattempt
    cases hattempt
  | some act =>
    have hact := activity_of_find ha
    obtain ⟨attempt', hattempt', hf⟩ := (h.steps act.workflowId).follows_attempt
      (hs.wellFormed _) ((aggregate_attempts hact n).trans hattempt)
    exact ⟨attempt', aggregate_attempt hattempt', hf⟩

/-- A closed attempt never changes. -/
theorem closed_attempt (h : Evolves P db db') (hs : db.Sound)
    (hattempt : db.attempts a n = some attempt) (hclosed : attempt.finishedAt ≠ none) :
    db'.attempts a n = some attempt := by
  obtain ⟨attempt', hattempt', -, heq⟩ := h.follows_attempt hs hattempt
  rw [hattempt', heq hclosed]

end Evolves

end DurableWorkflows
