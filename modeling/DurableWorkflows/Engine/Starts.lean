import DurableWorkflows.Engine.Lineage
import DurableWorkflows.Engine.Statements

/-!
# Starts

The transactions that insert a workflow: a plain start, the insert of a child,
and the walk along a restart chain to its newest generation.

## Main definitions

- `Started`: one workflow was inserted
- `Starts`: what a plain start does

## Main results

- `wp_insertStarted`, `wp_insertPrepared`, `wp_insertChild`
- `wp_lockNewestGeneration`: the walk ends at the newest generation
-/

namespace DurableWorkflows

open Transaction Pointers

variable {db : DB} {row : WorkflowRow} {workflow : PreparedWorkflowStart} {options : StartOptions}
  {now : DbMillis} {P : WorkflowId → Label → Prop} {E : DurableError → Prop}

/-- `db'` is `db` with the new workflow `row` and its first event; no row had its
key, and none was restarted from the same row. -/
structure Started (P : WorkflowId → Label → Prop) (db : DB) (row : WorkflowRow) (db' : DB) :
    Prop where
  evolves : Evolves P db db'
  other : ∀ w, w ≠ db.workflows.next → db'.aggregate w = db.aggregate w
  stored : db'.workflows.find db.workflows.next = some { row with id := db.workflows.next }
  keyFree : ∀ w r, db.workflows.find w = some r → r.kind = row.kind →
    r.deduplicationKey.isSome → r.deduplicationKey ≠ row.deduplicationKey
  sourceFree : ∀ w p, row.restartedFromWorkflowId = some p → db.source w ≠ some p

namespace Started

variable {db' : DB}

/-- A workflow that existed before is as it was. -/
theorem find_of_find (h : Started P db row db') {w : WorkflowId} {r : WorkflowRow}
    (hr : db.workflows.find w = some r) : db'.workflows.find w = some r :=
  (congrArg Aggregate.row (h.other w (Table.lt_next_of_find hr).ne)).trans hr

/-- The lineage of the new workflow is that of its row. -/
theorem lineage (h : Started P db row db') :
    db'.lineage = Function.update db.lineage db.workflows.next (some row.lineage) := by
  funext w
  by_cases hw : w = db.workflows.next
  · subst hw
    rw [Function.update_self, lineage_of_find h.stored]
    rfl
  · rw [Function.update_of_ne hw]
    exact congrArg (fun g : Aggregate => g.row.map WorkflowRow.lineage) (h.other w hw)

end Started

/-- A row that is fresh under every id that is larger than its ancestors'. -/
def WorkflowRow.New (row : WorkflowRow) : Prop :=
  ∀ id, (∀ p, row.parentWorkflowId = some p → p < id) →
    (∀ p, row.restartedFromWorkflowId = some p → p < id) → { row with id }.Fresh

theorem preparedRow_new : (preparedRow workflow options now).New :=
  fun _ hp hs => ⟨rfl, rfl, rfl, rfl, rfl, rfl, rfl, rfl, hp, hs, rfl, rfl⟩

theorem newChildRow_new (child : ChildWorkflowCommand) (key : String) (parentId : WorkflowId)
    (command : ℕ) (rootId : WorkflowId) : (newChildRow child key parentId command rootId now).New :=
  fun _ hp hs => ⟨rfl, rfl, rfl, rfl, rfl, rfl, rfl, rfl, hp, hs, rfl, rfl⟩

/-- The insert of a workflow that no key refers to yet. -/
theorem wp_insertStarted {Q : StartedInsert → DB → Prop} (hs : db.Sound) (hnew : row.New)
    (hparent : ∀ p, row.parentWorkflowId = some p → p < db.workflows.next)
    (hsource : ∀ p, row.restartedFromWorkflowId = some p → p < db.workflows.next)
    (hP : P db.workflows.next .inserted)
    (hins : ∀ db', Started P db row db' → Q (.inserted db.workflows.next) db')
    (hex : ∀ r key, row.deduplicationKey = some key → db.workflows.find r.id = some r →
      r.kind = row.kind → r.deduplicationKey = some key → Q (.existing r) db) :
    wp (insertStarted row now) Q Benign db := by
  unfold insertStarted insertWorkflow
  simp only [wp_bind, wp_ensure, wp_selectRows]
  refine ⟨fun _ => ?_, fun _ => rfl⟩
  rw [wp_ite]
  refine ⟨fun hfree => ?_, fun hkeyed => ?_⟩
  · -- the key is free
    simp only [wp_bind, wp_selectRows, wp_ensure, wp_insertRow, wp_pure, workflowTable_get]
    refine ⟨fun hsuccessors => ?_, fun _ => rfl⟩
    have hkeyFree : ∀ w r, db.workflows.find w = some r → r.kind = row.kind →
        r.deduplicationKey.isSome → r.deduplicationKey ≠ row.deduplicationKey := by
      intro w r hr hkind hsome heq
      have hnone := Table.not_of_select_eq_nil (List.isEmpty_iff.mp hfree) hr
      rw [hkind, hsome, heq] at hnone
      simp at hnone
    have hsourceFree : ∀ w p, row.restartedFromWorkflowId = some p → db.source w ≠ some p := by
      intro w p hp hsource
      obtain ⟨ℓ, hℓ, hp'⟩ := Option.bind_eq_some_iff.mp hsource
      obtain ⟨r, hr, rfl⟩ := DB.exists_row hℓ
      change r.restartedFromWorkflowId = some p at hp'
      have hnone := Table.not_of_select_eq_nil (List.isEmpty_iff.mp hsuccessors) hr
      simp [hp, hp'] at hnone
    set db₁ := workflowTable.set (db.workflows.insert (fun id => { row with id }) fun _ => rfl) db
      with hdb₁
    have ht : Touches db _ _ db₁ := touches_insertRow_workflow fun id => { row with id }
    have hempty : db.aggregate db.workflows.next = .empty := hs.aggregate_of_none Table.find_next
    have hevents : (db₁.aggregate db.workflows.next).events = [] := by
      rw [show db₁.aggregate _ = _ from ht.self, hempty]
      rfl
    have he : NextEvent [] (some 1)
        ⟨db.workflows.next, 1, some 1, .started, none, some .system, none, none, now⟩ :=
      ⟨rfl, by decide, rfl, fun _ => ⟨_, rfl⟩, rfl, fun _ => rfl⟩
    refine wp_appendEvent (d := some 1) (by rw [hevents]; exact .nil) (by rw [hevents]; exact he) ?_
      fun db₂ ht₂ => ?_
    · rw [hevents]
      rintro n ⟨⟩
      rfl
    have htouch := ht.trans ht₂
    refine hins db₂ ⟨.of_step htouch ?_ hP, htouch.other, ?_, hkeyFree, hsourceFree⟩
    · rw [hempty]
      exact .inserted (hnew _ hparent hsource) he rfl rfl
    · exact (ht₂.find_of_addEvent _).trans (by simp [hdb₁, workflowTable])
  · -- another workflow has the key
    obtain ⟨r, hr⟩ := List.exists_mem_of_ne_nil _ fun h => hkeyed (List.isEmpty_iff.mpr h)
    obtain ⟨-, hr⟩ := Table.mem_select.mp hr
    simp only [Bool.and_eq_true, beq_iff_eq] at hr
    obtain ⟨⟨hkind, hsome⟩, hkey⟩ := hr
    obtain ⟨key, hkey'⟩ := Option.isSome_iff_exists.mp hsome
    rw [hkey'] at hkey
    simp only [wp_pure, wp_bind, wp_orAbort, findByDeduplicationKey, wp_selectRows,
      workflowTable_get, ← hkey]
    refine ⟨fun key₂ hkey₂ => ⟨fun existing hexisting => ?_, fun _ => rfl⟩, fun h => by cases h⟩
    obtain ⟨hfound, hsel⟩ := Table.mem_select.mp (List.mem_of_mem_head? hexisting)
    simp only [Bool.and_eq_true, beq_iff_eq] at hsel
    exact hex existing key₂ (hkey.symm.trans hkey₂) hfound hsel.1 hsel.2

/-- What a plain start does: it inserts a row, or finds the row that has its
key. -/
inductive Starts (workflow : PreparedWorkflowStart) (options : StartOptions) (now : DbMillis)
    (db : DB) : StartOutcome → DB → Prop
  | inserted {db' : DB}
      (h : Started (fun _ l => l = .inserted) db (preparedRow workflow options now) db') :
      Starts workflow options now db ⟨db.workflows.next, true⟩ db'
  | existing {r : WorkflowRow} {key : String} (hkey : options.deduplicationKey = some key)
      (hr : db.workflows.find r.id = some r) (hkind : r.kind = workflow.kind)
      (hrkey : r.deduplicationKey = some key) :
      Starts workflow options now db ⟨r.id, false⟩ db

theorem Starts.evolves {o : StartOutcome} {db' : DB} (h : Starts workflow options now db o db') :
    Evolves (fun _ l => l = .inserted) db db' := by
  cases h with
  | inserted h => exact h.evolves
  | existing => exact .refl db

theorem wp_insertPrepared (hs : db.Sound)
    (hsource : ∀ p, options.restartedFromWorkflowId = some p → p < db.workflows.next) :
    wp (insertPrepared workflow options now) (Starts workflow options now db) Benign db := by
  have hinsert : wp (insertStarted (preparedRow workflow options now) now) (fun o db' =>
      (∀ id, o = .inserted id → Starts workflow options now db ⟨id, true⟩ db') ∧
        ∀ r, o = .existing r → Starts workflow options now db ⟨r.id, false⟩ db')
      Benign db := by
    refine wp_insertStarted (P := fun _ l => l = .inserted) hs preparedRow_new (fun _ h => by cases h) hsource rfl
      (fun db' h => ?_) fun r key hkey hr hkind hrkey => ?_
    · refine ⟨fun id hid => ?_, fun r hr => by cases hr⟩
      cases hid
      exact .inserted h
    · refine ⟨fun id hid => (by cases hid), fun r' hr' => ?_⟩
      cases hr'
      exact .existing hkey hr hkind hrkey
  unfold insertPrepared findStarted
  rw [wp_bind]
  cases hkey : options.deduplicationKey with
  | none =>
    simp only [wp_pure, wp_bind]
    refine wp_imp hinsert fun o db' ho => ?_
    cases o with
    | inserted id => exact ho.1 id rfl
    | existing r => exact ho.2 r rfl
  | some key =>
    simp only [findByDeduplicationKey, wp_bind, wp_selectRows]
    rw [wp_pure]
    split
    · rename_i existing hexisting
      obtain ⟨hr, hsel⟩ := Table.mem_select.mp (List.mem_of_mem_head? hexisting)
      simp only [Bool.and_eq_true, beq_iff_eq] at hsel
      exact .existing hkey hr hsel.1 hsel.2
    · rw [wp_bind]
      refine wp_imp hinsert fun o db' ho => ?_
      cases o with
      | inserted id => exact ho.1 id rfl
      | existing r => exact ho.2 r rfl

-- ════════════════════════════════════════════════════════════════════════
-- Restart chains
-- ════════════════════════════════════════════════════════════════════════

/-- The successor of a row, if there is one. -/
theorem wp_lockSuccessor {current : WorkflowRow} {Q : Option WorkflowRow → DB → Prop}
    (hsome : ∀ r, db.workflows.find r.id = some r → db.source r.id = some current.id →
      Q (some r) db)
    (hnone : (∀ w, db.source w ≠ some current.id) → Q none db) :
    wp (lockSuccessor current) Q E db := by
  simp only [lockSuccessor, wp_bind, wp_selectRows, wp_pure, workflowTable_get]
  cases hhead : (db.workflows.select fun r =>
      r.restartedFromWorkflowId == some current.id).head? with
  | none =>
    refine hnone fun w hsource => ?_
    obtain ⟨ℓ, hℓ, hp⟩ := Option.bind_eq_some_iff.mp hsource
    obtain ⟨r, hr, rfl⟩ := DB.exists_row hℓ
    change r.restartedFromWorkflowId = some current.id at hp
    have hnone := Table.not_of_select_eq_nil (List.head?_eq_none_iff.mp hhead) hr
    simp [hp] at hnone
  | some r =>
    obtain ⟨hfind, hr⟩ := Table.mem_select.mp (List.mem_of_mem_head? hhead)
    exact hsome r hfind ((source_of_find hfind).trans (beq_iff_eq.mp hr))

/-- The rest of a restart chain, with fuel for every row above the current
one. -/
theorem wp_newestGenerationFrom {Q : WorkflowRow → DB → Prop} (hs : db.Sound) {fuel : ℕ}
    {current : WorkflowRow} (hfuel : db.workflows.next < fuel + current.id)
    (hcurrent : db.workflows.find current.id = some current)
    (h : ∀ r, db.workflows.find r.id = some r → db.Newest current.id r.id → Q r db) :
    wp (newestGenerationFrom fuel current) Q E db := by
  induction fuel generalizing current with
  | zero =>
    have := Table.lt_next_of_find hcurrent
    omega
  | succ fuel ih =>
    rw [newestGenerationFrom, wp_bind]
    refine wp_lockSuccessor (fun r hr hsource => ?_) fun hlast => h current hcurrent ⟨.refl, hlast⟩
    have hlt : current.id < r.id := hs.source_decreasing _ _ hsource
    apply ih
    · have := Nat.succ_le_of_lt hlt
      omega
    · exact hr
    · exact fun r' hr' hnewest => h r' hr' ⟨hnewest.1.tail hsource, hnewest.2⟩

/-- The walk along a restart chain ends at the newest generation. -/
theorem wp_lockNewestGeneration {Q : WorkflowRow → DB → Prop} (hs : db.Sound)
    (hrow : db.workflows.find row.id = some row)
    (h : ∀ r, db.workflows.find r.id = some r → db.Newest row.id r.id → Q r db) :
    wp (lockNewestGeneration row) Q E db := by
  simp only [lockNewestGeneration, wp_bind, wp_read]
  exact wp_newestGenerationFrom hs (by omega) hrow h

-- ════════════════════════════════════════════════════════════════════════
-- Children
-- ════════════════════════════════════════════════════════════════════════

theorem wp_existingChild {child : ChildWorkflowCommand} {Q : ChildStart → DB → Prop} (hs : db.Sound)
    (hrow : db.workflows.find row.id = some row)
    (h : ∀ r, db.workflows.find r.id = some r → db.Newest row.id r.id → r.version = child.version →
      Q (.existing r) db) :
    wp (existingChild child row) Q Benign db := by
  simp only [existingChild, wp_bind]
  refine wp_lockNewestGeneration hs hrow fun r hr hnewest => ?_
  rw [wp_ensure, wp_pure]
  exact ⟨fun hversion => h r hr hnewest hversion, fun _ => rfl⟩

/-- A child is inserted, or the newest generation of its key is found. -/
theorem wp_insertChild {child : ChildWorkflowCommand} {key : String} {parentId : WorkflowId}
    {command : ℕ} {rootId : WorkflowId} {Q : ChildStart → DB → Prop} (hs : db.Sound)
    (hparent : parentId < db.workflows.next) (hP : P db.workflows.next .inserted)
    (hins : ∀ db', (∀ r, db.workflows.find r.id = some r → r.kind = child.kind →
      r.deduplicationKey ≠ some key) →
      Started P db (newChildRow child key parentId command rootId now) db' →
      Q (.inserted db.workflows.next) db')
    (hex : ∀ keyed r, db.workflows.find keyed.id = some keyed → keyed.kind = child.kind →
      keyed.deduplicationKey = some key → db.workflows.find r.id = some r →
      db.Newest keyed.id r.id → r.version = child.version → Q (.existing r) db) :
    wp (insertChild child key parentId command rootId now) Q Benign db := by
  unfold insertChild
  simp only [wp_bind, wp_ensure, findByDeduplicationKey, wp_selectRows, workflowTable_get]
  refine ⟨fun _ => ?_, fun _ => rfl⟩
  rw [wp_pure]
  split
  · rename_i keyed hkeyed
    obtain ⟨hfind, hsel⟩ := Table.mem_select.mp (List.mem_of_mem_head? hkeyed)
    simp only [Bool.and_eq_true, beq_iff_eq] at hsel
    rw [wp_bind, wp_firstRow]
    refine ⟨fun r hr => ?_, fun _ => rfl⟩
    obtain rfl : keyed = r := Option.some_inj.mp (hfind.symm.trans hr)
    exact wp_existingChild hs hfind fun r' => hex keyed r' hfind hsel.1 hsel.2
  · rename_i hnone
    have hfree : ∀ r, db.workflows.find r.id = some r → r.kind = child.kind →
        r.deduplicationKey ≠ some key := by
      intro r hr hkind hkey
      have hnot := Table.not_of_select_eq_nil (List.head?_eq_none_iff.mp hnone) hr
      simp [hkind, hkey] at hnot
    rw [wp_bind]
    refine wp_insertStarted hs (newChildRow_new child key parentId command rootId) ?_
      (fun _ h => by cases h) hP (fun db' => hins db' hfree)
      fun keyed key' hkey hr hkind hkeyed => ?_
    · rintro p ⟨⟩
      exact hparent
    · obtain rfl : key = key' := Option.some_inj.mp hkey
      exact wp_existingChild hs hr fun r' => hex keyed r' hr hkind hkeyed

-- ════════════════════════════════════════════════════════════════════════
-- The start transactions
-- ════════════════════════════════════════════════════════════════════════

theorem benignErrors_validateOptions : BenignErrors (validateOptions options) := by
  unfold validateOptions
  split
  · exact .ite (fun _ => .error rfl) fun _ => .ok ()
  · exact .ok ()

theorem benignErrors_checkPreparedStart : BenignErrors (checkPreparedStart workflow options) :=
  .bind benignErrors_validateOptions fun _ _ => .bind (.ensureSize _ _ _) fun _ _ =>
    .ensureSize _ _ _

theorem benignErrors_prepareStart : BenignErrors (prepareStart workflow options) :=
  .bind (.ite (fun _ => .error rfl) fun _ => .ok ()) fun _ _ => benignErrors_checkPreparedStart

/-- Application options never name a predecessor. -/
theorem toStartOptions_fresh (options : ApplicationStartOptions) :
    options.toStartOptions.restartedFromWorkflowId = none := by
  unfold ApplicationStartOptions.toStartOptions StartOptions.restartedFromWorkflowId
  cases options.deduplicationKey <;> rfl

theorem toStartOptions_root (options : ApplicationStartOptions) :
    options.toStartOptions.rootWorkflowId = none := by
  unfold ApplicationStartOptions.toStartOptions StartOptions.rootWorkflowId
  cases options.deduplicationKey <;> rfl

theorem wp_start {options : ApplicationStartOptions} (hs : db.Sound) :
    wp (start workflow options now) (Starts workflow options.toStartOptions now db) Benign db := by
  simp only [start, wp_bind, wp_ofExcept]
  refine ⟨fun _ _ => wp_insertPrepared hs ?_, benignErrors_prepareStart⟩
  simp [toStartOptions_fresh]

theorem wp_startPrepared {options : ApplicationStartOptions} (hs : db.Sound) :
    wp (startPrepared workflow options now) (Starts workflow options.toStartOptions now db) Benign
      db := by
  simp only [startPrepared, wp_bind, wp_ofExcept]
  refine ⟨fun _ _ => wp_insertPrepared hs ?_, benignErrors_checkPreparedStart⟩
  simp [toStartOptions_fresh]

end DurableWorkflows
