import DurableWorkflows.Engine.Ancestry

/-!
# Deduplicated and recoverable starts

A key names at most one row of a kind. A plain start that finds it returns it, and
a recoverable start returns the newest generation of its chain, after it has given a
failed or blocked one a successor.

## Main definitions

- `RecoveredTo`: what a recoverable start returns and leaves

## Main results

- `run_deduplication`
-/

namespace DurableWorkflows

open Transaction Sys Pointers

variable {externals : Externals} {db db' : DB} {w : WorkflowId} {r : WorkflowRow}
  {workflow : PreparedWorkflowStart} {now : DbMillis} {kind key : String} {ℓ : Lineage}
  {o : StartOutcome}

/-- A key names one row of a kind. -/
theorem DB.Lineal.keyed_unique {r' : WorkflowRow} (hl : db.Lineal) (h : db.Keyed kind key r)
    (h' : db.Keyed kind key r') : r = r' := by
  have hid : r.id = r'.id := hl.uniqueKeys r.id r'.id r.lineage r'.lineage key
    (lineage_of_find h.stored) (lineage_of_find h'.stored) (h.kind.trans h'.kind.symm) h.key h'.key
  exact Option.some_inj.mp (h.stored.symm.trans (hid ▸ h'.stored))

/-- The newest generation of a key is one row. -/
theorem DB.Lineal.newestKeyed_unique {original original' latest latest' : WorkflowRow}
    (hl : db.Lineal) (h : db.NewestKeyed kind key original latest)
    (h' : db.NewestKeyed kind key original' latest') : latest = latest' := by
  obtain rfl := hl.keyed_unique h.keyed h'.keyed
  have hid : latest.id = latest'.id := hl.newest_unique h.newest h'.newest
  exact Option.some_inj.mp (h.stored.symm.trans (hid ▸ h'.stored))

-- ════════════════════════════════════════════════════════════════════════
-- Plain starts
-- ════════════════════════════════════════════════════════════════════════

/-- A keyed insert that finds its key returns the row and writes nothing. -/
theorem wp_insertPrepared_keyed {options : StartOptions} (hl : db.Lineal)
    (hkey : options.deduplicationKey = some key) (hr : db.Keyed workflow.kind key r) :
    wp (insertPrepared workflow options now) (fun o db' => o = ⟨r.id, false⟩ ∧ db' = db)
      (fun _ => False) db := by
  unfold insertPrepared findStarted
  simp only [hkey, findByDeduplicationKey, wp_bind, wp_selectRows]
  rw [wp_pure]
  split
  · rename_i existing hexisting
    obtain ⟨hstored, hsel⟩ := Table.mem_select.mp (List.mem_of_mem_head? hexisting)
    simp only [Bool.and_eq_true, beq_iff_eq] at hsel
    obtain rfl := hl.keyed_unique hr ⟨hstored, hsel.1, hsel.2⟩
    exact ⟨rfl, rfl⟩
  · rename_i hnone
    have hnot := Table.not_of_select_eq_nil (List.head?_eq_none_iff.mp hnone) hr.stored
    simp [hr.kind, hr.key] at hnot

/-- An insert under a restart key that is taken rolls back. -/
theorem insertPrepared_conflict {options : StartOptions} {root p : WorkflowId} (hs : db.Sound)
    (hl : db.Lineal) (hw : db.source w = some p) :
    ∃ e, insertPrepared workflow (options.restarted root p) now db = .error e := by
  have hwp : wp (insertPrepared workflow (options.restarted root p) now) (fun _ _ => False) Benign
      db := by
    refine wp_imp (wp_insertPrepared hs ?_) fun o db' hstarts => ?_
    · rintro _ ⟨⟩
      obtain ⟨r, hr⟩ := hl.stored w p (hl.ancestor_of_source hw)
      exact Table.lt_next_of_find hr
    · cases hstarts with
      | inserted hstarted => exact hstarted.sourceFree w p rfl hw
      | existing hkey => cases hkey
  cases hins : insertPrepared workflow (options.restarted root p) now db with
  | ok x => exact (wp_ok hwp hins).elim
  | error e => exact ⟨e, rfl⟩

-- ════════════════════════════════════════════════════════════════════════
-- Recoverable starts
-- ════════════════════════════════════════════════════════════════════════

/-- What a recoverable start on a key returns and leaves: the newest generation of
the key, which has neither failed nor is it blocked; a row is new exactly when the key
was free or its newest generation had failed or was blocked. -/
structure RecoveredTo (kind key : String) (db : DB) (o : StartOutcome) (db' : DB) : Prop where
  newest : ∃ original latest, db'.NewestKeyed kind key original latest ∧
    latest.id = o.workflowId ∧ latest.status ≠ .failed ∧ latest.status ≠ .blocked
  inserted : o.inserted = true ↔ (∀ r, ¬db.Keyed kind key r) ∨
    ∃ original latest, db.NewestKeyed kind key original latest ∧
      (latest.status = .failed ∨ latest.status = .blocked)
  rows : o.inserted = true ↔ ∃ w r, db.workflows.find w = none ∧ db'.workflows.find w = some r

/-- A new row has no successor. -/
theorem DB.Lineal.no_successor (hl : db.Lineal)
    (h : db'.lineage = Function.update db.lineage db.workflows.next (some ℓ))
    (hsource : ℓ.restartedFromWorkflowId ≠ some db.workflows.next) :
    db'.source w ≠ some db.workflows.next := by
  intro hw
  rcases source_cases h hw with ⟨-, hp⟩ | hp
  · exact hsource hp
  · obtain ⟨r, hr⟩ := hl.stored w _ (hl.ancestor_of_source hp)
    rw [Table.find_next] at hr
    cases hr

/-- The chain of a key after its newest generation got a successor. -/
theorem DB.NewestKeyed.successor {original latest row : WorkflowRow} {options : StartOptions}
    (h : db.NewestKeyed kind key original latest) (hs : db.Sound) (hl : db.Lineal)
    (hlineage : db'.lineage = Function.update db.lineage db.workflows.next
      (some (successorRow workflow options original latest now).lineage))
    (hrow : db'.workflows.find db.workflows.next = some row) :
    ∃ original', db'.NewestKeyed kind key original' row := by
  have hlt : latest.id < db.workflows.next := Table.lt_next_of_find h.stored
  have hid : row.id = db.workflows.next := Table.key_of_find hrow
  have hold : db'.lineage original.id = some original.lineage := by
    rw [hlineage, Function.update_of_ne (Table.lt_next_of_find h.keyed.stored).ne]
    exact lineage_of_find h.keyed.stored
  obtain ⟨original', horiginal, hsame⟩ := DB.exists_row hold
  have hid' : original'.id = original.id := Table.key_of_find horiginal
  have hsource : db'.source = Function.update db.source db.workflows.next (some latest.id) :=
    DB.Lineal.bind_update db.workflows.next hlineage
  refine ⟨original', ⟨hid' ▸ horiginal, ?_, ?_⟩, hid.symm ▸ hrow, ?_, fun w => ?_⟩
  · exact (congrArg Lineage.kind hsame).trans h.keyed.kind
  · exact (congrArg Lineage.deduplicationKey hsame).trans h.keyed.key
  · rw [DB.Generation, hid, hid', hsource]
    refine .head (Function.update_self ..) ?_
    refine (reaches_update hs.source_decreasing (fun j hj => ?_) hlt).mpr h.newest.1
    exact Option.some_inj.mp hj ▸ hlt
  · rw [hid]
    refine hl.no_successor hlineage fun hself => ?_
    exact hlt.ne (Option.some_inj.mp hself)

/-- The successor is as it was inserted when the transaction ends. -/
theorem Superseded.successor_row {latest : WorkflowId} {ids : List WorkflowId} {db₁ : DB}
    (h : Superseded latest w ids db₁ db') (hne : w ≠ latest) (hr : db₁.workflows.find w = some r)
    (hready : r.status = .ready) : db'.workflows.find w = some r := by
  have hfree : ∀ c, ¬(db₁.aggregate w).AwaitsChild c := fun c =>
    not_awaitsChild hr (.inl (by rw [hready]; rfl))
  rcases h.frame w hne h.spared with hsame | ⟨c, -, hstep⟩ | hhanded
  · exact (congrArg Aggregate.row hsame).trans hr
  · exact absurd hstep.awaitsChild_of_answered.1 (hfree c)
  · cases hhanded with
    | woken hstep => exact absurd hstep.awaitsChild_of_answered.1 (hfree latest)
    | reattached hwait => exact absurd hwait (hfree latest)

theorem Recovers.recoveredTo {options : StartOptions} (h : Recovers workflow options now db o db')
    (hs : db.Sound) (hl : db.Lineal) (hkey : options.deduplicationKey = some key) :
    RecoveredTo workflow.kind key db o db' := by
  -- a successor that is ready in the end is the newest generation
  have hsuccessor : ∀ {original latest row : WorkflowRow},
      db.NewestKeyed workflow.kind key original latest →
      latest.status = .failed ∨ latest.status = .blocked →
      db'.lineage = Function.update db.lineage db.workflows.next
        (some (successorRow workflow options original latest now).lineage) →
      db'.workflows.find db.workflows.next = some row → row.status = .ready →
      RecoveredTo workflow.kind key db ⟨db.workflows.next, true⟩ db' := by
    intro original latest row hnewest hstatus hlineage hrow hready
    obtain ⟨original', hnewest'⟩ := hnewest.successor hs hl hlineage hrow
    refine ⟨⟨original', row, hnewest', Table.key_of_find hrow, ?_, ?_⟩, ?_, ?_⟩
    · rw [hready]
      exact nofun
    · rw [hready]
      exact nofun
    · exact ⟨fun _ => .inr ⟨original, latest, hnewest, hstatus⟩, fun _ => rfl⟩
    · exact ⟨fun _ => ⟨_, row, Table.find_next, hrow⟩, fun _ => rfl⟩
  cases h with
  | inserted hfree hstarted =>
    have hrow := hstarted.stored
    set row : WorkflowRow := { preparedRow workflow options now with id := db.workflows.next }
    have hkeyed : db'.Keyed workflow.kind key row := ⟨hrow, rfl, hkey⟩
    refine ⟨⟨row, row, ⟨hkeyed, hrow, .refl, fun w => ?_⟩, rfl, nofun, nofun⟩,
      ⟨fun _ => .inl fun r => hfree key r hkey, fun _ => rfl⟩,
      ⟨fun _ => ⟨_, row, Table.find_next, hrow⟩, fun _ => rfl⟩⟩
    refine hl.no_successor hstarted.lineage ?_
    have hnone : options.restartedFromWorkflowId = none := by
      cases hlin : options.lineage <;>
        simp_all [StartOptions.deduplicationKey, StartOptions.restartedFromWorkflowId]
    exact fun hsome => absurd (hnone.symm.trans hsome) nofun
  | @kept key' original latest hkey' hnewest hstatus =>
    obtain rfl := Option.some_inj.mp (hkey.symm.trans hkey')
    have hnot : ¬(latest.status = .failed ∨ latest.status = .blocked) := by
      rintro (h | h) <;> rw [h] at hstatus <;> cases hstatus
    refine ⟨⟨original, latest, hnewest, rfl, fun h => hnot (.inl h), fun h => hnot (.inr h)⟩,
      ⟨nofun, ?_⟩, ⟨nofun, ?_⟩⟩
    · rintro (hfree | ⟨original', latest', hnewest', hstatus'⟩)
      · exact absurd hnewest.keyed (hfree original)
      · obtain rfl := hl.newestKeyed_unique hnewest hnewest'
        exact absurd hstatus' hnot
    · rintro ⟨w, r, hnone, hsome⟩
      rw [hnone] at hsome
      cases hsome
  | @failed key' original latest db₁ _ hkey' hnewest hstatus hstarted h =>
    obtain rfl := Option.some_inj.mp (hkey.symm.trans hkey')
    have hne : db.workflows.next ≠ latest.id := (Table.lt_next_of_find hnewest.stored).ne'
    have hlineage : db'.lineage = db₁.lineage :=
      h.lineage (by rintro _ _ ⟨-, rfl⟩; exact nofun)
    have hsame : db'.aggregate db.workflows.next = db₁.aggregate db.workflows.next :=
      (h.steps _).eq_of_false fun _ hl => hne hl.1
    exact hsuccessor hnewest (.inl hstatus) (hlineage.trans hstarted.lineage)
      ((congrArg Aggregate.row hsame).trans hstarted.stored) rfl
  | @blocked key' original latest ids db₁ _ hkey' hnewest hstatus hstarted h =>
    obtain rfl := Option.some_inj.mp (hkey.symm.trans hkey')
    have hne : db.workflows.next ≠ latest.id := (Table.lt_next_of_find hnewest.stored).ne'
    have hlineage : db'.lineage = db₁.lineage :=
      h.evolves.lineage fun _ _ => Label.ne_inserted_of_supersedes
    exact hsuccessor hnewest (.inr hstatus) (hlineage.trans hstarted.lineage)
      (h.successor_row hne hstarted.stored rfl) rfl

-- ════════════════════════════════════════════════════════════════════════
-- Runs
-- ════════════════════════════════════════════════════════════════════════

/-- Deduplicated and recoverable starts in every reachable state. A key names at most
one row of a kind; a plain start that finds its key returns that row and writes
nothing; a recoverable start returns the newest generation of its key, which has
neither failed nor is it blocked, and inserts a row exactly when the key was free or its
newest generation had failed or was blocked; an insert under a restart key that is taken
fails, and a failed action changes nothing. -/
theorem run_deduplication (externals : Externals) (actions : List Action) :
    let s := run externals Sys.init actions
    (∀ kind key r r', s.db.Keyed kind key r → s.db.Keyed kind key r' → r = r') ∧
    (∀ workflow (options : ApplicationStartOptions) now key r,
      options.deduplicationKey = some key → s.db.Keyed workflow.kind key r →
      (prepareStart workflow options.toStartOptions = .ok () →
        start workflow options now s.db = .ok (⟨r.id, false⟩, s.db)) ∧
      (checkPreparedStart workflow options.toStartOptions = .ok () →
        startPrepared workflow options now s.db = .ok (⟨r.id, false⟩, s.db))) ∧
    (∀ workflow (options : ApplicationStartOptions) now key,
      options.deduplicationKey = some key →
      match startOrRestartRecoverable workflow options now s.db with
      | .ok (o, db') => RecoveredTo workflow.kind key s.db o db'
      | .error e => Benign e) ∧
    (∀ workflow (options : StartOptions) now root p w, s.db.source w = some p →
      ∃ e, insertPrepared workflow (options.restarted root p) now s.db = .error e) ∧
    ∀ action e, exec externals s action = .error e → step externals s action = s := by
  have hinv := run_inv externals actions
  have hl := run_lineal externals actions
  generalize run externals Sys.init actions = s at hinv hl
  refine ⟨fun kind key r r' hr hr' => hl.keyed_unique hr hr',
    fun workflow options now key r hkey hr => ?_, fun workflow options now key hkey => ?_,
    fun workflow options now root p w hw => insertPrepared_conflict hinv.sound hl hw,
    fun action e he => Machine.step_of_error he⟩
  · rw [← toStartOptions_deduplicationKey] at hkey
    have hreturns : insertPrepared workflow options.toStartOptions now s.db =
        .ok (⟨r.id, false⟩, s.db) := by
      obtain ⟨o, db', hok, rfl, rfl⟩ := wp_returns (wp_insertPrepared_keyed hl hkey hr)
      exact hok
    refine ⟨fun hprepare => ?_, fun hcheck => ?_⟩
    · rw [start, hprepare]
      exact hreturns
    · rw [startPrepared, hcheck]
      exact hreturns
  · have hwp : wp (startOrRestartRecoverable workflow options now) _ Benign s.db :=
      wp_startOrRestartRecoverable hinv.sound hinv.attached
    split
    · rename_i o db' hok
      rw [← toStartOptions_deduplicationKey] at hkey
      exact (wp_ok hwp hok).1.recoveredTo hinv.sound hl hkey
    · exact wp_error hwp ‹_›

end DurableWorkflows
