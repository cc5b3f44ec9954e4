import DurableWorkflows.Engine.Cancels

/-!
# Recoverable starts

A recoverable start gives a failed or blocked newest generation a successor. The
dead letters of the old generation are discarded; a blocked one is superseded
besides: its parents follow the successor, and the children it owns are cancelled.

## Main definitions

- `Superseded`: what the supersession of a blocked generation does
- `Recovers`: what a recoverable start does

## Main results

- `wp_supersedeBlocked`, `wp_startOrRestartRecoverable`
-/

namespace DurableWorkflows

open Transaction Pointers

variable {db db' : DB} {w : WorkflowId} {latest : WorkflowRow} {successor : WorkflowId}
  {version : ℤ} {now : DbMillis} {X : Set WorkflowId} {ids : List WorkflowId}

-- ════════════════════════════════════════════════════════════════════════
-- The parents of a superseded generation
-- ════════════════════════════════════════════════════════════════════════

/-- The steps of a recoverable start. -/
def Label.recovers : Label → Bool
  | .inserted | .superseded | .discarded | .reattached .. => true
  | l => l.cancels

/-- The steps with which the generation `latest` gives way to `successor`. -/
def Label.supersedes (latest successor w : WorkflowId) : Label → Prop
  | .superseded | .discarded => w = latest
  | .reattached source target => source = latest ∧ target = successor
  | l => l.cancels

theorem Label.supersedes_of_cancels {latest : WorkflowId} {l : Label} (h : l.cancels = true) :
    l.supersedes latest successor w := by
  cases l with
  | cancelled | history | answered => exact h
  | _ => cases h

theorem Label.recovers_of_supersedes {latest : WorkflowId} {l : Label}
    (h : l.supersedes latest successor w) : l.recovers = true := by
  cases l with
  | superseded | discarded | reattached => rfl
  | inserted => rfl
  | _ => exact h

theorem Label.ne_inserted_of_supersedes {latest : WorkflowId} {l : Label}
    (h : l.supersedes latest successor w) : l ≠ .inserted := by
  rintro rfl
  cases h

/-- The steps of a parent that follows the successor. -/
def Label.follows (latest successor : WorkflowId) (l : Label) : Prop :=
  l = .reattached latest successor ∨ l = .history

/-- One parent is handed to the successor. -/
theorem wp_reattachParent {superseded parent : WorkflowRow} (hs : db.Sound)
    (hparent : db.workflows.find parent.id = some parent)
    (hstatus : parent.status.awaitsChild = true)
    (hwait : parent.awaited = some (.child superseded.id)) :
    wp (reattachParent superseded successor now parent) (fun _ db' =>
      (∀ w, w ≠ parent.id → db'.aggregate w = db.aggregate w) ∧
      Evolves (fun _ l => l.follows superseded.id successor) db db' ∧
      (db'.aggregate parent.id).row =
        some { parent.waitOn (.child successor) with updatedAt := now }) Benign db := by
  rw [reattachParent, wp_bind]
  refine wp_updateWorkflow (fun _ => rfl) fun r db₁ hr _ ht₁ => ?_
  obtain rfl : r = parent := by simpa [hparent] using hr.symm
  have hev₁ : Evolves (fun _ l => l.follows superseded.id successor) db db₁ :=
    .of_step ht₁ (.reattached hparent hwait hstatus successor now) (.inl rfl)
  have hs₁ := hev₁.sound hs
  refine wp_appendHistoryEvent (hs₁.log _) (fun _ => rfl) nofun rfl
    fun e db₂ he hanswers ht₂ => ?_
  have hrow₁ := congrArg Aggregate.row ht₁.self
  exact ⟨(ht₁.trans ht₂).other, hev₁.trans (.of_step ht₂ (.history hrow₁ he hanswers) (.inr rfl)),
    (ht₂.find_of_addEvent _).trans hrow₁⟩

/-- How a workflow that waited for a superseded generation goes on: it is woken, or
it follows the successor. -/
inductive HandedOver (latest successor : WorkflowId) (g g' : Aggregate) : Prop
  | woken (h : Step g (.answered (.child latest)) g')
  | reattached {r : WorkflowRow} {now : DbMillis} (hwait : g.AwaitsChild latest)
      (h : Steps (Label.follows latest successor) g g') (hr : g.row = some r)
      (hr' : g'.row = some { r.waitOn (.child successor) with updatedAt := now })

/-- A workflow whose row waits for the successor waits for nothing else. -/
theorem eq_of_reattached {g : Aggregate} {r : WorkflowRow} {c : WorkflowId}
    (hr : g.row = some { r.waitOn (.child successor) with updatedAt := now })
    (hc : g.AwaitsChild c) : c = successor := by
  obtain ⟨-, hw⟩ := (Aggregate.awaitsChild_iff hr).mp hc
  have hw' : some (Wait.child successor) = some (.child c) := hw
  simpa using hw'.symm

/-- The parents of a superseded generation follow its successor, or learn that
it was superseded. -/
theorem wp_handWaitingParentsToSuccessor {superseded : WorkflowRow} {Q : Unit → DB → Prop}
    (hs : db.Sound) (hx : db.Attached (insert superseded.id X))
    (hclosed : ¬(db.aggregate superseded.id).IsOpen) (hopen : (db.aggregate successor).IsOpen)
    (h : ∀ db', Evolves (fun w l => l.supersedes superseded.id successor w) db db' →
      db'.Attached X → db'.aggregate superseded.id = db.aggregate superseded.id →
      (∀ w, db'.aggregate w = db.aggregate w ∨
        HandedOver superseded.id successor (db.aggregate w) (db'.aggregate w)) → Q () db') :
    wp (handWaitingParentsToSuccessor superseded successor version now) Q Benign db := by
  have hself : ¬(db.aggregate superseded.id).AwaitsChild superseded.id := by
    rintro ⟨r, hr, hstatus, -⟩
    exact hclosed ⟨r, hr, open_of_awaitsChild hstatus⟩
  rw [handWaitingParentsToSuccessor, wp_ite]
  refine ⟨fun _ => ?_, fun _ => ?_⟩
  · refine wp_forEach_parents (R := fun r g =>
      g.row = some { r.waitOn (.child successor) with updatedAt := now }) hs
      (fun parent db hs _ hparent hstatus hwait => wp_reattachParent hs hparent hstatus hwait)
      fun db' hev hmoved hsame => h db' (hev.mono ?_) ?_ (hsame _ hself) fun w => ?_
    · rintro _ _ (rfl | rfl)
      · exact ⟨rfl, rfl⟩
      · rfl
    · have hkeep : ∀ w, (db.aggregate w).IsOpen → (db'.aggregate w).IsOpen := fun w =>
        (hev.steps w).keeps_open (by rintro _ (rfl | rfl) <;> rfl)
      intro w c hc
      by_cases hw : (db.aggregate w).AwaitsChild superseded.id
      · obtain ⟨r, hr, -⟩ := id hw
        obtain rfl := eq_of_reattached (hmoved w r hr hw) hc
        exact .inr (hkeep c hopen)
      · rw [hsame w hw] at hc
        rcases hx w c hc with (rfl | hcx) | hco
        · exact absurd hc hw
        · exact .inl hcx
        · exact .inr (hkeep c hco)
    · by_cases hw : (db.aggregate w).AwaitsChild superseded.id
      · obtain ⟨r, hr, -⟩ := id hw
        exact .inr (.reattached hw (hev.steps w) hr (hmoved w r hr hw))
      · exact .inl (hsame w hw)
  · refine wp_wakeParents hs hx hclosed fun db' hev hx' hsame => h db' (hev.mono ?_) hx' hsame
      fun w => ?_
    · rintro _ _ rfl
      rfl
    · rcases (hev.steps w).eq_or_answered (by rintro _ rfl; exact ⟨_, rfl⟩) with hw | ⟨c, hc, hw⟩
      · exact .inl hw
      · obtain rfl : c = superseded.id := by simpa using hc
        exact .inr (.woken hw)

-- ════════════════════════════════════════════════════════════════════════
-- Supersession
-- ════════════════════════════════════════════════════════════════════════

/-- The dead letters of a workflow are discarded. -/
theorem wp_cancelDeadLetters {E : DurableError → Prop} {Q : Unit → DB → Prop}
    (h : ∀ db', Touches db w (fun g => g.mapActivities (·.discarded now)) db' → Q () db') :
    wp (cancelDeadLetters w now) Q E db := by
  refine wp_updateRows.mpr (h _ (touches_updateRows_activity (fun act => ?_) fun act => ?_))
  · unfold ActivityRow.discarded
    by_cases hw : act.workflowId = w <;> by_cases hs : act.status = .deadLettered <;> simp [hw, hs]
  · unfold ActivityRow.discarded
    split <;> rfl

/-- What the supersession of the blocked workflow `latest` does: it ends with the
generations `ids` of the children it owns, and every other workflow is as it was,
was woken by one of those that ended, or follows the successor. -/
structure Superseded (latest successor : WorkflowId) (ids : List WorkflowId) (db db' : DB) :
    Prop where
  evolves : Evolves (fun w l => l.supersedes latest successor w) db db'
  target : (db.aggregate latest).IsOpen ∧ ¬(db'.aggregate latest).IsOpen
  opened : ∀ w ∈ ids, (db.aggregate w).IsOpen
  closed : ∀ w ∈ ids, ¬(db'.aggregate w).IsOpen
  cascaded : Cascaded [latest] ids db db'
  spared : successor ∉ ids
  frame : ∀ w, w ≠ latest → w ∉ ids → db'.aggregate w = db.aggregate w ∨
    (∃ c ∈ ids, Step (db.aggregate w) (.answered (.child c)) (db'.aggregate w)) ∨
    HandedOver latest successor (db.aggregate w) (db'.aggregate w)

/-- The successor of a workflow is no generation of a child the workflow or one of
its descendants owns. -/
theorem Cascaded.not_successor (hs : db.Sound) {latest : WorkflowId}
    (h : Cascaded [latest] ids db db') (hsource : db.source successor = some latest)
    (hfree : ∀ p, ¬db.Owns p successor) : successor ∉ ids := by
  intro hmem
  obtain ⟨p, c, hp, howns, hgen⟩ := h.owned successor hmem
  have hle : latest ≤ p := by
    rcases hp with hp | hp
    · exact (List.mem_singleton.mp hp).ge
    · exact (h.root_lt hs hp).le
  rcases reaches_iff_head.mp hgen with rfl | ⟨k, hk, hreach⟩
  · exact hfree p howns
  · obtain rfl : latest = k := Option.some_inj.mp (hsource.symm.trans hk)
    have hlt : p < c := hs.lt_of_owns howns
    exact absurd (hreach.le hs.source_decreasing) (Nat.not_le_of_lt (hle.trans_lt hlt))

/-- A blocked generation gives way to its successor. -/
theorem wp_supersedeBlocked {Q : Unit → DB → Prop} (hs : db.Sound) (hx : db.Attached X)
    (hr : db.workflows.find latest.id = some latest) (hblocked : latest.status = .blocked)
    (hopen : (db.aggregate successor).IsOpen) (hsource : db.source successor = some latest.id)
    (hfree : ∀ p, ¬db.Owns p successor)
    (h : ∀ ids db', Superseded latest.id successor ids db db' → db'.Attached X → Q () db') :
    wp (cancelDeadLetters latest.id now) (fun _ db =>
      wp (supersedeBlocked latest successor version now) Q Benign db) Benign db := by
  have hne : successor ≠ latest.id := (hs.source_decreasing _ _ hsource).ne'
  refine wp_cancelDeadLetters fun db₁ ht₁ => ?_
  have hr₁ : db₁.workflows.find latest.id = some latest :=
    (congrArg Aggregate.row ht₁.self).trans hr
  simp only [supersedeBlocked, wp_bind]
  refine wp_updateWorkflow (fun _ => rfl) fun r db₂ hr₂ _ ht₂ => ?_
  obtain rfl : r = latest := by simpa [hr₁] using hr₂.symm
  have htouch := ht₁.trans ht₂
  have hev : Evolves (fun w l => l.supersedes r.id successor w) db db₂ :=
    .of_step htouch (.superseded hr hblocked now) rfl
  have hs₂ := hev.sound hs
  have hrow₂ : db₂.workflows.find r.id = some (r.cancelledAt false now) :=
    congrArg Aggregate.row htouch.self
  have hx₂ : db₂.Attached (insert r.id X) :=
    hx.close htouch fun c => not_awaitsChild hrow₂ (.inl rfl)
  refine wp_appendHistoryEvent (hs₂.log _) (fun _ => rfl) nofun rfl fun e db₃ he hanswers ht₃ => ?_
  have hev₃ : Evolves (fun _ l => l = .history) db₂ db₃ :=
    .of_step ht₃ (.history hrow₂ he hanswers) rfl
  have hs₃ := hev₃.sound hs₂
  have hx₃ := hev₃.attached hs₂ (by rintro _ _ rfl; exact ⟨rfl, rfl⟩) hx₂
  have hev₃' : Evolves (fun w l => l.supersedes r.id successor w) db db₃ :=
    hev.trans (hev₃.mono (by rintro _ _ rfl; rfl))
  have hother : ∀ w, w ≠ r.id → db₃.aggregate w = db.aggregate w := (htouch.trans ht₃).other
  have hrow₃ : db₃.workflows.find r.id = some (r.cancelledAt false now) :=
    (ht₃.find_of_addEvent _).trans hrow₂
  have hclosed₃ : ¬(db₃.aggregate r.id).IsOpen := by
    rw [Aggregate.isOpen_iff hrow₃]
    simp [WorkflowRow.cancelledAt, WorkflowStatus.isTerminal]
  refine wp_handWaitingParentsToSuccessor hs₃ hx₃ hclosed₃ (hother _ hne ▸ hopen)
    fun db₄ hev₄ hx₄ hself₄ hhanded => ?_
  have hs₄ := hev₄.sound hs₃
  have hev₀₄ := hev₃'.trans hev₄
  have hlineage : db₄.lineage = db.lineage :=
    hev₀₄.lineage fun _ _ => Label.ne_inserted_of_supersedes
  refine wp_cancelOwnedDescendants hs₄ hx₄ fun ids db₅ hswept hcas hx₅ => ?_
  have hcas' := hcas.congr hlineage
  have hnot : successor ∉ ids := hcas'.not_successor hs hsource hfree
  refine h ids db₅ ⟨?_, ?_, fun w hw => ?_, hswept.closed, hcas', hnot, fun w hw hids => ?_⟩ hx₅
  · exact hev₀₄.trans (hswept.cancels.mono fun _ _ => Label.supersedes_of_cancels)
  · refine ⟨.of_row hr (by rw [hblocked]; rfl), fun hopen₅ => hclosed₃ ?_⟩
    rw [← hself₄]
    exact hswept.open_of_open hopen₅
  · have hopen₄ := hswept.opened w hw
    exact (hev₀₄.steps w).open_of_open (fun _ => Label.ne_inserted_of_supersedes) hopen₄
  · -- a workflow is woken at most once, and nobody who follows the successor is
    have hsame := hother w hw
    rcases hhanded w with h₄ | h₄
    · rw [← hsame, ← h₄]
      exact (hswept.frame hids).imp_right .inl
    · refine .inr (.inr ?_)
      rcases hswept.frame hids with h₅ | ⟨c, hc, hstep⟩
      · rw [h₅, ← hsame]
        exact h₄
      · have hawaits := hstep.awaitsChild_of_answered.1
        cases h₄ with
        | woken h₄ => exact absurd hawaits (h₄.awaitsChild_of_answered.2 c)
        | reattached _ _ _ hr' => exact absurd (eq_of_reattached hr' hawaits ▸ hc) hnot

-- ════════════════════════════════════════════════════════════════════════
-- The transaction
-- ════════════════════════════════════════════════════════════════════════

section Transaction

variable {workflow : PreparedWorkflowStart} {options : StartOptions} {key : String}

/-- The row of a kind with a deduplication key. -/
structure DB.Keyed (db : DB) (kind key : String) (r : WorkflowRow) : Prop where
  stored : db.workflows.find r.id = some r
  kind : r.kind = kind
  key : r.deduplicationKey = some key

/-- The row with which a recoverable start continues the chain of `original` after
`latest`. -/
def successorRow (workflow : PreparedWorkflowStart) (options : StartOptions)
    (original latest : WorkflowRow) (now : DbMillis) : WorkflowRow :=
  preparedRow workflow
    (options.restarted (original.rootWorkflowId.getD original.id) latest.id) now

/-- The newest generation `latest` of a key's row. -/
structure DB.NewestKeyed (db : DB) (kind key : String) (original latest : WorkflowRow) :
    Prop where
  keyed : db.Keyed kind key original
  stored : db.workflows.find latest.id = some latest
  newest : db.Newest original.id latest.id

/-- What a recoverable start does: it inserts the first row of its key, keeps the
newest generation, or gives a failed or blocked one a successor. -/
inductive Recovers (workflow : PreparedWorkflowStart) (options : StartOptions) (now : DbMillis)
    (db : DB) : StartOutcome → DB → Prop
  | inserted {db' : DB}
      (hfree : ∀ key r, options.deduplicationKey = some key → ¬db.Keyed workflow.kind key r)
      (h : Started (fun _ l => l = .inserted) db (preparedRow workflow options now) db') :
      Recovers workflow options now db ⟨db.workflows.next, true⟩ db'
  | kept {key : String} {original latest : WorkflowRow}
      (hkey : options.deduplicationKey = some key)
      (hnewest : db.NewestKeyed workflow.kind key original latest)
      (hstatus : latest.status.isStartRecoverable = false) :
      Recovers workflow options now db ⟨latest.id, false⟩ db
  | failed {key : String} {original latest : WorkflowRow} {db₁ db' : DB}
      (hkey : options.deduplicationKey = some key)
      (hnewest : db.NewestKeyed workflow.kind key original latest)
      (hstatus : latest.status = .failed)
      (hstarted : Started (fun _ l => l = .inserted) db
        (successorRow workflow options original latest now) db₁)
      (h : Evolves (fun w l => w = latest.id ∧ l = .discarded) db₁ db') :
      Recovers workflow options now db ⟨db.workflows.next, true⟩ db'
  | blocked {key : String} {original latest : WorkflowRow} {ids : List WorkflowId} {db₁ db' : DB}
      (hkey : options.deduplicationKey = some key)
      (hnewest : db.NewestKeyed workflow.kind key original latest)
      (hstatus : latest.status = .blocked)
      (hstarted : Started (fun _ l => l = .inserted) db
        (successorRow workflow options original latest now) db₁)
      (h : Superseded latest.id db.workflows.next ids db₁ db') :
      Recovers workflow options now db ⟨db.workflows.next, true⟩ db'

theorem Recovers.evolves {o : StartOutcome} (h : Recovers workflow options now db o db') :
    Evolves (fun _ l => l.recovers) db db' := by
  have hinserted : ∀ {row : WorkflowRow} {db₁ : DB},
      Started (fun _ l => l = .inserted) db row db₁ → Evolves (fun _ l => l.recovers) db db₁ :=
    fun h => h.evolves.mono (by rintro _ _ rfl; rfl)
  cases h with
  | inserted _ h => exact hinserted h
  | kept => exact .refl db
  | failed _ _ _ hstarted h =>
    exact (hinserted hstarted).trans (h.mono (by rintro _ _ ⟨-, rfl⟩; rfl))
  | blocked _ _ _ hstarted h =>
    exact (hinserted hstarted).trans (h.evolves.mono fun _ _ => Label.recovers_of_supersedes)

/-- A failed or blocked generation gets a successor. -/
theorem wp_recover {original : WorkflowRow} (hs : db.Sound) (hx : db.Attached X)
    (hkey : options.deduplicationKey = some key)
    (hnewest : db.NewestKeyed workflow.kind key original latest)
    (hstatus : latest.status.isStartRecoverable = true) :
    wp (do
      let successor ← insertPrepared workflow
        (options.restarted (original.rootWorkflowId.getD original.id) latest.id) now
      cancelDeadLetters latest.id now
      onlyIf (latest.status = .blocked)
        (supersedeBlocked latest successor.workflowId workflow.version now)
      return successor)
      (fun o db' => Recovers workflow options now db o db' ∧ db'.Attached X) Benign db := by
  simp only [wp_bind]
  refine wp_imp (wp_insertPrepared hs ?_) fun o db₁ hstarts => ?_
  · rintro p ⟨⟩
    exact Table.lt_next_of_find hnewest.stored
  cases hstarts with
  | existing hkey => cases hkey
  | inserted hstarted =>
    have hs₁ := hstarted.evolves.sound hs
    have hx₁ := hstarted.evolves.attached hs (by rintro _ _ rfl; exact ⟨rfl, rfl⟩) hx
    have hlatest := hstarted.find_of_find hnewest.stored
    by_cases hblocked : latest.status = .blocked
    · have hfree : ∀ p, ¬db₁.Owns p db.workflows.next := by
        rintro p ⟨ℓ, n, hℓ, hparent, -⟩
        obtain rfl := Option.some_inj.mp ((lineage_of_find hstarted.stored).symm.trans hℓ)
        cases hparent
      have hsupersede : wp (cancelDeadLetters latest.id now) (fun _ db₂ =>
          wp (supersedeBlocked latest db.workflows.next workflow.version now) (fun _ db' =>
            Recovers workflow options now db ⟨db.workflows.next, true⟩ db' ∧ db'.Attached X)
            Benign db₂) Benign db₁ :=
        wp_supersedeBlocked hs₁ hx₁ hlatest hblocked (.of_row hstarted.stored rfl)
          (source_of_find hstarted.stored) hfree fun ids db' hsup hx' =>
            ⟨.blocked hkey hnewest hblocked hstarted hsup, hx'⟩
      refine wp_imp hsupersede fun _ _ h => ?_
      rw [wp_onlyIf]
      exact ⟨fun _ => wp_imp h fun _ _ h => h, fun hne => absurd hblocked hne⟩
    · refine wp_cancelDeadLetters fun db' ht => ?_
      rw [wp_onlyIf]
      refine ⟨fun h => absurd h hblocked, fun _ => ?_⟩
      have hfailed : latest.status = .failed := by
        cases hst : latest.status <;> simp_all [WorkflowStatus.isStartRecoverable]
      have hev : Evolves (fun w l => w = latest.id ∧ l = .discarded) db₁ db' :=
        .of_step ht (.discarded hlatest (by rw [hfailed]; rfl) now) ⟨rfl, rfl⟩
      exact ⟨.failed hkey hnewest hfailed hstarted hev,
        hev.attached hs₁ (by rintro _ _ ⟨-, rfl⟩; exact ⟨rfl, rfl⟩) hx₁⟩

theorem wp_recoverableStartIn (hs : db.Sound) (hx : db.Attached X)
    (hsource : options.restartedFromWorkflowId = none) :
    wp (recoverableStartIn workflow options now)
      (fun o db' => Recovers workflow options now db o db' ∧ db'.Attached X) Benign db := by
  have hinsert : (∀ key r, options.deduplicationKey = some key → ¬db.Keyed workflow.kind key r) →
      wp (insertPrepared workflow options now)
        (fun o db' => Recovers workflow options now db o db' ∧ db'.Attached X) Benign db := by
    intro hfree
    refine wp_imp (wp_insertPrepared hs (by simp [hsource])) fun o db' hstarts => ?_
    have hx' := hstarts.evolves.attached hs (by rintro _ _ rfl; exact ⟨rfl, rfl⟩) hx
    cases hstarts with
    | inserted h => exact ⟨.inserted hfree h, hx'⟩
    | existing hkey hr hkind hrkey => exact absurd ⟨hr, hkind, hrkey⟩ (hfree _ _ hkey)
  unfold recoverableStartIn
  cases hkey : options.deduplicationKey with
  | none => exact hinsert (by simp [hkey])
  | some key =>
    simp only [findByDeduplicationKey, wp_bind, wp_selectRows]
    rw [wp_pure]
    split
    · rename_i hnone
      refine hinsert fun key' r hkey' hkeyed => ?_
      obtain rfl : key = key' := Option.some_inj.mp (hkey.symm.trans hkey')
      have hnot := Table.not_of_select_eq_nil (List.head?_eq_none_iff.mp hnone) hkeyed.stored
      simp [hkeyed.kind, hkeyed.key] at hnot
    · rename_i original hhead
      obtain ⟨horiginal, hsel⟩ := Table.mem_select.mp (List.mem_of_mem_head? hhead)
      simp only [Bool.and_eq_true, beq_iff_eq] at hsel
      rw [wp_bind]
      refine wp_lockNewestGeneration hs horiginal fun latest hlatest hnewest => ?_
      have hnewestKeyed : db.NewestKeyed workflow.kind key original latest :=
        ⟨⟨horiginal, hsel.1, hsel.2⟩, hlatest, hnewest⟩
      rw [wp_ite]
      refine ⟨fun hstatus => wp_recover hs hx hkey hnewestKeyed hstatus, fun hstatus => ?_⟩
      exact ⟨.kept hkey hnewestKeyed (by simpa using hstatus), hx⟩

theorem wp_startOrRestartRecoverable {options : ApplicationStartOptions} (hs : db.Sound)
    (hx : db.Attached X) :
    wp (startOrRestartRecoverable workflow options now)
      (fun o db' => Recovers workflow options.toStartOptions now db o db' ∧ db'.Attached X) Benign
      db := by
  simp only [startOrRestartRecoverable, wp_bind, wp_ofExcept]
  exact ⟨fun _ _ => wp_recoverableStartIn hs hx (toStartOptions_fresh options),
    benignErrors_prepareStart⟩

end Transaction

end DurableWorkflows
