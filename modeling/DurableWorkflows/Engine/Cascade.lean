import DurableWorkflows.Engine.Acyclic
import DurableWorkflows.Engine.Deduplication

/-!
# The cancel cascade

A cancel, the restart of a workflow that has not ended and the supersession of a
blocked one end their target together with every open generation of the children it
owns, of the children those own, and so on. Everybody else is left alone, but for
those who waited for a workflow that ended.

## Main definitions

- `Spared`: what a cascade does to a workflow that it does not end
- `Cascades`: what a cascade does
- `Action.Ends`: the actions that end a workflow with a cascade

## Main results

- `exec_cascades`, `run_cascade`
-/

namespace DurableWorkflows

open Transaction Sys Pointers

variable {externals : Externals} {s s' : Sys} {db db' : DB} {g g' : Aggregate}
  {w c p target : WorkflowId} {r : WorkflowRow} {ids : List WorkflowId} {action : Action}
  {successor : Option WorkflowId} {P : WorkflowId → Label → Prop}

-- ════════════════════════════════════════════════════════════════════════
-- Workflows that end
-- ════════════════════════════════════════════════════════════════════════

/-- The steps that end a workflow without cancelling it. -/
def Label.settles : Label → Bool
  | .completed | .activationFailed => true
  | _ => false

/-- A step that ends a workflow cancels it, unless the workflow completes or fails. -/
theorem Step.open_or_cancelled {l : Label} (h : Step g l g') (hl : l.settles = false)
    (hopen : g.IsOpen) : g'.IsOpen ∨ ∃ r, g'.row = some r ∧ r.status = .cancelled := by
  cases hends : l.ends with
  | false => exact .inl (h.keeps_open hends hopen)
  | true =>
    cases h with
    | cancelled | superseded => exact .inr ⟨_, rfl, rfl⟩
    | completed | activationFailed => cases hl
    | _ => cases hends

/-- A workflow that steps end was cancelled. -/
theorem Steps.cancelled_of_closed {P : Label → Prop} (h : Steps P g g')
    (hP : ∀ l, P l → l ≠ .inserted ∧ l.settles = false) (hopen : g.IsOpen) (hclosed : ¬g'.IsOpen) :
    ∃ r, g'.row = some r ∧ r.status = .cancelled := by
  refine Or.resolve_left ?_ hclosed
  clear hclosed
  induction h with
  | refl => exact .inl hopen
  | tail _ hstep ih =>
    obtain ⟨l, hl, hstep⟩ := hstep
    obtain ⟨hinserted, hsettles⟩ := hP l hl
    rcases ih with ih | ⟨r, hr, hcancelled⟩
    · exact hstep.open_or_cancelled hsettles ih
    · rcases hstep.row_eq_or_open hinserted with hrow | ⟨r', hr', ht⟩
      · exact .inr ⟨r, hrow.trans hr, hcancelled⟩
      · obtain rfl := Option.some_inj.mp (hr.symm.trans hr')
        rw [hcancelled] at ht
        cases ht

/-- The work of a workflow that ended. -/
theorem DB.Sound.work_of_ended (hs : db.Sound) (hr : db.workflows.find w = some r)
    (ht : r.status.isTerminal = true) :
    (∀ a act, db.activities.find a = some act → act.workflowId = w →
      act.status ≠ .pending ∧ act.status ≠ .running) ∧
    ∀ p approval, db.approvals.find p = some approval → approval.workflowId = w →
      approval.status ≠ .pending := by
  have hinv := hs.inv hr
  refine ⟨fun a act ha hw => ?_, fun p approval hp hw hpending => ?_⟩
  · exact (hinv.coupled a act (aggregate_activity.mpr ⟨ha, hw⟩)).revoked ht
  · have hopen := ((hinv.approvals p approval (aggregate_approval.mpr ⟨hp, hw⟩)).live hpending).1
    exact absurd (ht.symm.trans hopen) Bool.noConfusion

-- ════════════════════════════════════════════════════════════════════════
-- Workflows that are spared
-- ════════════════════════════════════════════════════════════════════════

/-- The activities with their attempts and the approvals are the same. -/
structure Aggregate.SameWork (g g' : Aggregate) : Prop where
  activities : g'.activities = g.activities
  attempts : g'.attempts = g.attempts
  approvals : g'.approvals = g.approvals

/-- What a cascade from `target` over `ids` does to a workflow that it does not end:
nothing, or the workflow waited for one of those that ended and was woken, or it waited
for the target and now waits for its successor. -/
inductive Spared (target : WorkflowId) (ids : List WorkflowId) (successor : Option WorkflowId)
    (g g' : Aggregate) : Prop
  | untouched (h : g' = g)
  | woken {c : WorkflowId} {r : WorkflowRow} {now : DbMillis} (hc : c ∈ target :: ids)
      (hwait : g.AwaitsChild c) (hr : g.row = some r) (hr' : g'.row = some (r.woken now))
      (hwork : g.SameWork g')
  | reattached {n : WorkflowId} {r : WorkflowRow} {now : DbMillis} (hn : successor = some n)
      (hwait : g.AwaitsChild target) (hr : g.row = some r)
      (hr' : g'.row = some { r.waitOn (.child n) with updatedAt := now })
      (hwork : g.SameWork g')

/-- A workflow that is answered is woken. -/
theorem Spared.of_answered (h : Step g (.answered (.child c)) g') (hc : c ∈ target :: ids) :
    Spared target ids successor g g' := by
  have hwait := h.awaitsChild_of_answered.1
  cases h with
  | answered hr hw hs he ha hkind now => exact .woken hc hwait hr rfl ⟨rfl, rfl, rfl⟩

/-- A workflow that follows a successor keeps its work. -/
theorem Steps.sameWork {source n : WorkflowId} (h : Steps (Label.follows source n) g g') :
    g.SameWork g' := by
  induction h with
  | refl => exact ⟨rfl, rfl, rfl⟩
  | tail _ hstep ih =>
    obtain ⟨l, rfl | rfl, hstep⟩ := hstep <;> cases hstep <;> exact ⟨ih.1, ih.2, ih.3⟩

theorem Spared.of_handedOver {n : WorkflowId} (h : HandedOver target n g g') :
    Spared target ids (some n) g g' := by
  cases h with
  | woken h => exact .of_answered h (List.mem_cons_self ..)
  | reattached hwait h hr hr' => exact .reattached rfl hwait hr hr' h.sameWork

-- ════════════════════════════════════════════════════════════════════════
-- Cascades
-- ════════════════════════════════════════════════════════════════════════

/-- What a cascade from `target` over the workflows `ids` does, where those who waited
for the target may follow `successor`. -/
structure Cascades (target : WorkflowId) (successor : Option WorkflowId) (ids : List WorkflowId)
    (db db' : DB) : Prop where
  cancelled : ∀ w ∈ target :: ids, (db.aggregate w).IsOpen ∧
    ∃ r, db'.workflows.find w = some r ∧ r.status = .cancelled
  owned : ∀ w ∈ ids, ∃ p ∈ target :: ids, ∃ c, db'.Owns p c ∧ db'.Generation c w
  complete : ∀ p ∈ target :: ids, ∀ c, db'.Owns p c → ∀ w, db'.Generation c w →
    ¬(db'.aggregate w).IsOpen
  work : ∀ w ∈ target :: ids,
    (∀ a act, db'.activities.find a = some act → act.workflowId = w →
      act.status ≠ .pending ∧ act.status ≠ .running) ∧
    ∀ p approval, db'.approvals.find p = some approval → approval.workflowId = w →
      approval.status ≠ .pending
  spared : ∀ w r, db.workflows.find w = some r → w ∉ target :: ids →
    Spared target ids successor (db.aggregate w) (db'.aggregate w)
  domain : ∀ c r p, db.workflows.find c = some r → r.parentWorkflowId = some p →
    ¬db.Owns p c → c ≠ target → c ∉ ids ∧
      (p ∈ target :: ids → Spared target ids none (db.aggregate c) (db'.aggregate c))

section Cascaded

/-- The children a workflow owns have it for an ancestor. -/
theorem ancestor_of_owns (h : db.Owns p c) : db.ancestor c = some p := by
  obtain ⟨ℓ, n, hℓ, hparent, -⟩ := h
  rw [DB.ancestor, hℓ, Option.bind_some, Lineage.ancestor, hparent]
  rfl

/-- The target is an ancestor of whatever a cascade ends. -/
theorem Cascaded.reaches (h : Cascaded [target] ids db db') (hs : db.Sound) (hl : db.Lineal)
    (hw : w ∈ target :: ids) : Reaches db.ancestor w target := by
  induction w using Nat.strongRecOn with
  | ind w ih =>
    rcases List.mem_cons.mp hw with rfl | hids
    · exact .refl
    obtain ⟨p, c, hp, howns, hgen⟩ := h.owned w hids
    have hlt : p < w := (hs.lt_of_owns howns).trans_le (hgen.le hs.source_decreasing)
    have hp' : p ∈ target :: ids := by simpa using hp
    exact (hl.reaches_of_generation hgen).trans ((ih p hlt hp').head (ancestor_of_owns howns))

/-- A cascade ends no child with a domain key but its target. -/
theorem Cascaded.not_domain (h : Cascaded [target] ids db db') (hl : db.Lineal)
    (hr : db.workflows.find c = some r) (hparent : r.parentWorkflowId = some p)
    (hdomain : ¬db.Owns p c) : c ∉ ids := by
  intro hc
  obtain ⟨q, c', -, howns, hgen⟩ := h.owned c hc
  rcases reaches_iff_head.mp hgen with rfl | ⟨k, hk, -⟩
  · have hq := (ancestor_of_owns howns).symm.trans (ancestor_of_find hr)
    rw [hparent] at hq
    exact hdomain (Option.some_inj.mp hq ▸ howns)
  · have hsource := hk
    rw [source_of_find hr] at hsource
    have hnone := hl.exclusive c r.lineage k (lineage_of_find hr) hsource
    exact absurd (hnone.symm.trans hparent) nofun

end Cascaded

-- ════════════════════════════════════════════════════════════════════════
-- Actions
-- ════════════════════════════════════════════════════════════════════════

/-- The actions that end `target` with a cascade, with the row that those who waited
for the target may follow. -/
inductive Action.Ends (db : DB) : Action → WorkflowId → Option WorkflowId → Prop
  | cancel {w : WorkflowId} {reason : String} {now : DbMillis} :
      Ends db (.cancel w reason now) w none
  | cancelWorkflow {w : WorkflowId} {operator : Operator} {now : DbMillis} :
      Ends db (.cancelWorkflow w operator now) w none
  | restart {registry : WorkflowRegistry} {w : WorkflowId} {correction : Option String}
      {operator : Operator} {now : DbMillis} :
      Ends db (.restart registry w correction operator now) w none
  | recoverableStart {workflow : PreparedWorkflowStart} {options : ApplicationStartOptions}
      {now : DbMillis} {key : String} {original latest : WorkflowRow}
      (hkey : options.deduplicationKey = some key)
      (hnewest : db.NewestKeyed workflow.kind key original latest)
      (hblocked : latest.status = .blocked) :
      Ends db (.recoverableStart workflow options now) latest.id (some db.workflows.next)

/-- The parts of a cascade that are left when it is known what ended and who was
spared. -/
theorem exec_cascades_of (h : s.Inv) (hl : s.db.Lineal) (hacyclic : s.db.Acyclic)
    (hok : exec externals s action = .ok s') (hcas : Cascaded [target] ids s'.db s'.db)
    (hcancelled : ∀ w ∈ target :: ids, (s.db.aggregate w).IsOpen ∧
      ∃ r, s'.db.workflows.find w = some r ∧ r.status = .cancelled)
    (hspared : ∀ w r, s.db.workflows.find w = some r → w ∉ target :: ids →
      Spared target ids successor (s.db.aggregate w) (s'.db.aggregate w)) :
    Cascades target successor ids s.db s'.db := by
  obtain ⟨hev, -, hinv'⟩ := exec_leads h hok
  have hgrows := exec_grows h hok
  have hl' := hl.grows h.sound hev hgrows
  refine ⟨hcancelled, fun w hw => ?_, fun p hp => ?_, fun w hw => ?_, hspared,
    fun c r p hr hparent hdomain hne => ?_⟩
  · obtain ⟨p, c, hp, howns, hgen⟩ := hcas.owned w hw
    exact ⟨p, by simpa using hp, c, howns, hgen⟩
  · exact hcas.complete hl'.uniqueSources p (by simpa using hp)
  · obtain ⟨-, r, hr, hcancelled⟩ := hcancelled w hw
    exact hinv'.sound.work_of_ended hr (by rw [hcancelled]; rfl)
  · -- the lineage of a row that was there is the same after the cascade
    obtain ⟨r', hr', hsame⟩ := DB.exists_row (hev.lineage_of_some (lineage_of_find hr))
    have hparent' : r'.parentWorkflowId = some p := (congrArg Lineage.parentWorkflowId hsame).trans hparent
    have hdomain' : ¬s'.db.Owns p c := by
      rintro ⟨ℓ, n, hℓ, howns⟩
      obtain rfl := Option.some_inj.mp ((lineage_of_find hr').symm.trans hℓ)
      exact hdomain ⟨_, n, lineage_of_find hr, hsame ▸ howns⟩
    have hids : c ∉ ids := hcas.not_domain hl' hr' hparent' hdomain'
    refine ⟨hids, fun hp => ?_⟩
    have hnot : c ∉ target :: ids := by simp [hne, hids]
    cases hspared c r hr hnot with
    | untouched h => exact .untouched h
    | woken hc hwait hr hr' hwork => exact .woken hc hwait hr hr' hwork
    | reattached _ hwait =>
      -- a child does not wait for an ancestor
      have hancestor : s'.db.ancestor c = some p := by
        rw [ancestor_of_find hr', hparent']
        rfl
      have hreach := (hcas.reaches hinv'.sound hl' hp).head hancestor
      exact absurd (hgrows.reaches h.sound ⟨r, hr⟩ hreach) (hacyclic c target hwait)

theorem Label.settles_of_cancels {l : Label} (h : l.cancels = true) :
    l ≠ .inserted ∧ l.settles = false := by
  cases l with
  | cancelled | history | answered => exact ⟨nofun, rfl⟩
  | _ => cases h

theorem Label.settles_of_supersedes {latest n : WorkflowId} {l : Label}
    (h : l.supersedes latest n w) : l ≠ .inserted ∧ l.settles = false := by
  cases l with
  | inserted | completed | activationFailed => cases h
  | _ => exact ⟨nofun, rfl⟩

/-- A cascade whose generations stay ended. -/
theorem Cascaded.later {db'' : DB} (h : Cascaded [target] ids db db')
    (hlineage : db''.lineage = db.lineage)
    (hopen : ∀ w, (db''.aggregate w).IsOpen → (db'.aggregate w).IsOpen) :
    Cascaded [target] ids db'' db'' := by
  have hcas := h.congr hlineage.symm
  exact ⟨hcas.owned, fun hunique p hp c howns w hgen hw =>
    hcas.complete hunique p hp c howns w hgen (hopen w hw)⟩

/-- The workflows a sweep and its target name. -/
theorem mem_swept : w ∈ ids ++ [target] ↔ w ∈ target :: ids := by
  simp [or_comm]

/-- A cascade that ends its target after an insert, and adds to the history of some
workflows. -/
theorem exec_cascades_of_ended {db₁ db₂ : DB} {R : WorkflowId → Prop} (h : s.Inv)
    (hl : s.db.Lineal) (hacyclic : s.db.Acyclic) (hok : exec externals s action = .ok s')
    (hsame : ∀ w r, s.db.workflows.find w = some r → db₁.aggregate w = s.db.aggregate w)
    (hstored : ∀ w ∈ target :: ids, ∃ r, s.db.workflows.find w = some r)
    (hended : Ended target ids db₁ db₂)
    (hev : Evolves (fun w l => R w ∧ l = .history) db₂ s'.db)
    (hR : ∀ w r, s.db.workflows.find w = some r → R w → w = target) :
    Cascades target none ids s.db s'.db := by
  have hhistory : ∀ w (l : Label), R w ∧ l = .history → l ≠ .inserted := by
    rintro _ _ ⟨-, rfl⟩
    exact nofun
  have hback : ∀ w, (s'.db.aggregate w).IsOpen → (db₂.aggregate w).IsOpen := fun w =>
    (hev.steps w).open_of_open (hhistory w)
  have hlineage : s'.db.lineage = db₁.lineage :=
    (hev.lineage hhistory).trans hended.swept.lineage
  have hall : Evolves (fun _ l => l.cancels) db₁ s'.db :=
    hended.swept.cancels.trans (hev.mono (by rintro _ _ ⟨-, rfl⟩; rfl))
  refine exec_cascades_of h hl hacyclic hok (hended.cascaded.later hlineage hback)
    (fun w hw => ?_) fun w r hr hw => ?_
  · obtain ⟨r, hr⟩ := hstored w hw
    have hopen := hended.swept.opened w (mem_swept.mpr hw)
    refine ⟨hsame w r hr ▸ hopen, (hall.steps w).cancelled_of_closed
      (fun _ => Label.settles_of_cancels) hopen fun hopen' => ?_⟩
    exact hended.swept.closed w (mem_swept.mpr hw) (hback w hopen')
  · have hlast : s'.db.aggregate w = db₂.aggregate w := by
      refine (hev.steps w).eq_of_false fun l hl => hw ?_
      exact hR w r hr hl.1 ▸ List.mem_cons_self ..
    rw [hlast, ← hsame w r hr]
    rcases hended.swept.frame (mt mem_swept.mp hw) with hframe | ⟨c, hc, hstep⟩
    · exact .untouched hframe
    · exact .of_answered hstep (mem_swept.mp hc)

/-- A cascade that only ends its target. -/
theorem exec_cascades_of_cancel (h : s.Inv) (hl : s.db.Lineal) (hacyclic : s.db.Acyclic)
    (hok : exec externals s action = .ok s') (hended : Ended target ids s.db s'.db) :
    Cascades target none ids s.db s'.db := by
  refine exec_cascades_of_ended (R := fun _ => False) h hl hacyclic hok (fun _ _ _ => rfl)
    (fun w hw => ?_) hended (.refl _) fun _ _ _ => False.elim
  obtain ⟨r, hr, -⟩ := hended.swept.opened w (mem_swept.mpr hw)
  exact ⟨r, hr⟩

/-- A row that was there before an insert, or the new one. -/
theorem Started.find_or_eq {row : WorkflowRow} {db₁ : DB} (h : Started P db row db₁)
    (hopen : (db₁.aggregate w).IsOpen) (hne : w ≠ db.workflows.next) :
    ∃ r, db.workflows.find w = some r := by
  obtain ⟨r, hr, -⟩ := hopen
  rw [h.other w hne] at hr
  exact ⟨r, hr⟩

/-- A restarted workflow owns no successor of its own. -/
theorem Started.not_owns {row : WorkflowRow} {db₁ : DB} (h : Started P db row db₁)
    (hparent : row.parentWorkflowId = none) (p : WorkflowId) :
    ¬db₁.Owns p db.workflows.next := by
  rintro ⟨ℓ, n, hℓ, hp, -⟩
  obtain rfl := Option.some_inj.mp ((lineage_of_find h.stored).symm.trans hℓ)
  exact absurd (hparent.symm.trans hp) nofun

theorem exec_cascades_of_restart {source : WorkflowRow} {now : DbMillis} (h : s.Inv)
    (hl : s.db.Lineal) (hacyclic : s.db.Acyclic) (hok : exec externals s action = .ok s')
    (hrestarts : Restarts source now s.db s'.db)
    (hopen : (s.db.aggregate source.id).IsOpen) :
    ∃ ids, Cascades source.id none ids s.db s'.db := by
  cases hrestarts with
  | terminal hfind ht => exact absurd hopen (not_open_of_terminal hfind ht)
  | @superseded _ ids db₁ _ _ hfind _ hstarted hended hev =>
    have hs₁ := hstarted.evolves.sound h.sound
    have hnot : s.db.workflows.next ∉ ids := hended.cascaded.not_successor hs₁
      (source_of_find hstarted.stored) (hstarted.not_owns rfl)
    refine ⟨ids, exec_cascades_of_ended h hl hacyclic hok (fun w r hr => ?_) (fun w hw => ?_) hended
      hev fun w r hr hw => ?_⟩
    · exact hstarted.other w (Table.lt_next_of_find hr).ne
    · rcases List.mem_cons.mp hw with rfl | hids
      · exact ⟨source, hfind⟩
      · refine hstarted.find_or_eq (hended.swept.opened w (mem_swept.mpr hw)) ?_
        rintro rfl
        exact hnot hids
    · exact hw.resolve_right (Table.lt_next_of_find hr).ne

theorem exec_cascades_of_superseded {latest row : WorkflowRow} {db₁ : DB} (h : s.Inv)
    (hl : s.db.Lineal) (hacyclic : s.db.Acyclic) (hok : exec externals s action = .ok s')
    (hlatest : s.db.workflows.find latest.id = some latest)
    (hstarted : Started (fun _ l => l = .inserted) s.db row db₁)
    (hsup : Superseded latest.id s.db.workflows.next ids db₁ s'.db) :
    Cascades latest.id (some s.db.workflows.next) ids s.db s'.db := by
  have hlineage : s'.db.lineage = db₁.lineage :=
    hsup.evolves.lineage fun _ _ => Label.ne_inserted_of_supersedes
  have hopened : ∀ w ∈ latest.id :: ids, (db₁.aggregate w).IsOpen :=
    List.forall_mem_cons.mpr ⟨hsup.target.1, hsup.opened⟩
  have hclosed : ∀ w ∈ latest.id :: ids, ¬(s'.db.aggregate w).IsOpen :=
    List.forall_mem_cons.mpr ⟨hsup.target.2, hsup.closed⟩
  have hne : ∀ w ∈ latest.id :: ids, w ≠ s.db.workflows.next := by
    refine List.forall_mem_cons.mpr ⟨(Table.lt_next_of_find hlatest).ne, fun w hw heq => ?_⟩
    exact hsup.spared (heq ▸ hw)
  refine exec_cascades_of h hl hacyclic hok (hsup.cascaded.later hlineage fun _ => id)
    (fun w hw => ⟨?_, ?_⟩) fun w r hr hw => ?_
  · exact hstarted.other w (hne w hw) ▸ hopened w hw
  · exact (hsup.evolves.steps w).cancelled_of_closed (fun _ => Label.settles_of_supersedes)
      (hopened w hw) (hclosed w hw)
  · obtain ⟨hlast, hids⟩ := not_or.mp (mt List.mem_cons.mpr hw)
    rw [← hstarted.other w (Table.lt_next_of_find hr).ne]
    rcases hsup.frame w hlast hids with hframe | ⟨c, hc, hstep⟩ | hhanded
    · exact .untouched hframe
    · exact .of_answered hstep (List.mem_cons_of_mem _ hc)
    · exact .of_handedOver hhanded

/-- An action that ends a workflow ends it with a cascade. -/
theorem exec_cascades (h : s.Inv) (hl : s.db.Lineal) (hacyclic : s.db.Acyclic)
    (hends : action.Ends s.db target successor) (hopen : (s.db.aggregate target).IsOpen)
    (hok : exec externals s action = .ok s') :
    ∃ ids, Cascades target successor ids s.db s'.db := by
  have hexec := hok
  cases hends with
  | cancel =>
    rw [exec] at hok
    obtain ⟨o, db', hcancel, rfl⟩ := transact'_ok hok
    obtain ⟨⟨r, hr, ⟨ht, -⟩ | ⟨-, ids, hended⟩⟩, -⟩ := wp_ok (wp_cancel h.sound h.attached) hcancel
    · exact absurd hopen (not_open_of_terminal hr ht)
    · exact ⟨ids, exec_cascades_of_cancel h hl hacyclic hexec hended⟩
  | cancelWorkflow =>
    rw [exec] at hok
    obtain ⟨o, db', hcancel, rfl⟩ := transact'_ok hok
    obtain ⟨⟨ids, hended⟩, -⟩ := wp_ok (wp_cancelWorkflow h.sound h.attached) hcancel
    exact ⟨ids, exec_cascades_of_cancel h hl hacyclic hexec hended⟩
  | restart =>
    rw [exec] at hok
    obtain ⟨o, db', hrestart, rfl⟩ := transact'_ok hok
    obtain ⟨⟨source, rfl, hrestarts⟩, -⟩ := wp_ok (wp_restart h.sound h.attached) hrestart
    exact exec_cascades_of_restart h hl hacyclic hexec hrestarts hopen
  | @recoverableStart workflow options now key original latest hkey hnewest hblocked =>
    rw [exec] at hok
    obtain ⟨o, db', hstart, rfl⟩ := transact'_ok hok
    obtain ⟨hrecovers, -⟩ := wp_ok (wp_startOrRestartRecoverable h.sound h.attached) hstart
    rw [← toStartOptions_deduplicationKey] at hkey
    cases hrecovers with
    | inserted hfree => exact absurd hnewest.keyed (hfree key original hkey)
    | kept hkey' hnewest' hstatus =>
      obtain rfl := Option.some_inj.mp (hkey.symm.trans hkey')
      obtain rfl := hl.newestKeyed_unique hnewest hnewest'
      rw [hblocked] at hstatus
      cases hstatus
    | failed hkey' hnewest' hstatus =>
      obtain rfl := Option.some_inj.mp (hkey.symm.trans hkey')
      obtain rfl := hl.newestKeyed_unique hnewest hnewest'
      rw [hblocked] at hstatus
      cases hstatus
    | blocked hkey' hnewest' _ hstarted hsup =>
      obtain rfl := Option.some_inj.mp (hkey.symm.trans hkey')
      obtain rfl := hl.newestKeyed_unique hnewest hnewest'
      exact ⟨_, exec_cascades_of_superseded h hl hacyclic hexec hnewest.stored hstarted hsup⟩

-- ════════════════════════════════════════════════════════════════════════
-- Runs
-- ════════════════════════════════════════════════════════════════════════

/-- The cancel cascade in every reachable state. A cancel, the restart of a workflow
that is not terminal and the supersession of a blocked one either commit or fail
for a benign reason. If they commit, the target and some generations of owned children
are cancelled; no generation of a child that one of them owns is left open, and none of
them has a pending or running activity or a pending approval. Every other workflow
is untouched, or it waited for one of them and was woken, or it waited for the superseded
target and is re-attached to its successor, with its work untouched; and children of those
that ended that carry a domain key are untouched or woken. -/
theorem run_cascade (externals : Externals) (actions : List Action) :
    let s := run externals Sys.init actions
    ∀ action target successor, action.Ends s.db target successor →
      (s.db.aggregate target).IsOpen →
      match exec externals s action with
      | .ok s' => ∃ ids, Cascades target successor ids s.db s'.db
      | .error e => Benign e := by
  intro s action target successor hends hopen
  have hinv : s.Inv := run_inv externals actions
  split
  · exact exec_cascades hinv (run_lineal externals actions) (run_acyclic externals actions) hends
      hopen ‹_›
  · exact exec_benign hinv ‹_›

namespace Sample

/-- Workflow 1 waits for its child 2, child 2 for its child 3, both under domain keys, and
child 3 is blocked on a dead letter. -/
def blockedGrandchild : List Action :=
  .start workflow ⟨none, none, none⟩ 0 :: activation 0 (.runChild "null" (child "middle")) 0 ++
    activation 1 (.runChild "null" (child "last")) 0 ++
    activation 2 (.runActivity "null" activity) 0 ++ claimActivity 0 ++
    [.finish 0 (.permanent "error" "message") 0]

/-- A recoverable start on the key of child 3. -/
def recoverLast : Action := .recoverableStart workflow ⟨none, none, some "last"⟩ 0

/-- The recoverable start supersedes child 3. -/
theorem recoverLast_ends :
    let db := (run Sample.externals Sys.init blockedGrandchild).db
    recoverLast.Ends db 3 (some 4) ∧ (db.aggregate 3).IsOpen := by
  have hl := run_lineal Sample.externals blockedGrandchild
  have hnext : (run Sample.externals Sys.init blockedGrandchild).db.workflows.next = 4 := by
    decide +kernel
  have hlast : ((run Sample.externals Sys.init blockedGrandchild).db.workflows.find 3).map
      (fun r => (r.kind, r.deduplicationKey, r.status)) = some ("w", some "last", .blocked) := by
    decide +kernel
  generalize (run Sample.externals Sys.init blockedGrandchild).db = db at *
  obtain ⟨last, hfind, hlast⟩ := Option.map_eq_some_iff.mp hlast
  obtain ⟨hkind, hkey, hblocked⟩ : last.kind = "w" ∧ last.deduplicationKey = some "last" ∧
      last.status = .blocked := by simpa using hlast
  have hid : last.id = 3 := Table.key_of_find hfind
  have hopen : (db.aggregate 3).IsOpen := .of_row hfind (by rw [hblocked]; rfl)
  have hnewest : db.NewestKeyed "w" "last" last last :=
    ⟨⟨hid ▸ hfind, hkind, hkey⟩, hid ▸ hfind, hl.newest_of_open .refl (hid ▸ hopen)⟩
  refine ⟨?_, hopen⟩
  rw [← hnext, ← hid]
  exact .recoverableStart rfl hnewest hblocked

/-- The supersession of child 3 is a cascade. -/
theorem recoverLast_cascades :
    let s := run Sample.externals Sys.init blockedGrandchild
    match exec Sample.externals s recoverLast with
    | .ok s' => ∃ ids, Cascades 3 (some 4) ids s.db s'.db
    | .error e => Benign e := by
  have hcascade := run_cascade Sample.externals blockedGrandchild
  have hends := recoverLast_ends
  generalize run Sample.externals Sys.init blockedGrandchild = s at *
  exact hcascade recoverLast 3 (some 4) hends.1 hends.2

/-- A child that carries a domain key and waits for a superseded workflow is neither
untouched nor woken: its wait moves to the successor. -/
theorem domainChild_reattached :
    let s := run Sample.externals Sys.init blockedGrandchild
    recoverLast.Ends s.db 3 (some 4) ∧ (s.db.aggregate 3).IsOpen ∧
    ∃ s' r r', exec Sample.externals s recoverLast = .ok s' ∧ s.db.workflows.find 2 = some r ∧
      r.parentWorkflowId = some 1 ∧ ¬s.db.Owns 1 2 ∧ s'.db.workflows.find 2 = some r' ∧
      r' ≠ r ∧ ∀ now, r' ≠ r.woken now := by
  have hends := recoverLast_ends
  have hmiddle : ((run Sample.externals Sys.init blockedGrandchild).db.workflows.find 2).map
      (fun r => (r.parentWorkflowId, r.parentCommandSequence, r.deduplicationKey,
        r.waitReferenceId)) = some (some 1, some 1, some "middle", some 3) := by decide +kernel
  have hmoved : (exec Sample.externals (run Sample.externals Sys.init blockedGrandchild)
      recoverLast).toOption.bind (fun s' => (s'.db.workflows.find 2).map (·.waitReferenceId)) =
      some (some 4) := by decide +kernel
  generalize run Sample.externals Sys.init blockedGrandchild = s at *
  obtain ⟨r, hr, hmiddle⟩ := Option.map_eq_some_iff.mp hmiddle
  obtain ⟨hparent, hcommand, hkey, hwait⟩ : r.parentWorkflowId = some 1 ∧
      r.parentCommandSequence = some 1 ∧ r.deduplicationKey = some "middle" ∧
      r.waitReferenceId = some 3 := by simpa using hmiddle
  obtain ⟨s', hexec, hmoved⟩ := Option.bind_eq_some_iff.mp hmoved
  obtain ⟨r', hr', hwait'⟩ := Option.map_eq_some_iff.mp hmoved
  refine ⟨hends.1, hends.2, s', r, r', ?_, hr, hparent, ?_, hr', ?_, fun now => ?_⟩
  · cases hresult : exec Sample.externals s recoverLast with
    | error e =>
      rw [hresult] at hexec
      cases hexec
    | ok s'' =>
      rw [hresult] at hexec
      exact congrArg _ (Option.some_inj.mp hexec)
  · rintro ⟨ℓ, n, hℓ, -, hn, howned⟩
    obtain rfl := Option.some_inj.mp ((lineage_of_find hr).symm.trans hℓ)
    obtain rfl : 1 = n := Option.some_inj.mp (hcommand.symm.trans hn)
    have heq : "middle" = ownedChildKey 1 1 := Option.some_inj.mp (hkey.symm.trans howned)
    exact absurd heq (by decide)
  · rintro rfl
    exact absurd (hwait.symm.trans hwait') (by decide)
  · rintro rfl
    cases hwait'

end Sample

end DurableWorkflows
