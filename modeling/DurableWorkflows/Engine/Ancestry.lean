import DurableWorkflows.Engine.Absorbing

/-!
# Restart chains and ancestors

Every action adds at most one row to the lineage of the database: a start, a child
of the row that commits it, or the successor of the last row of a restart chain,
which has ended. So restart chains do not branch, their earlier generations have
ended, and the root column of a row names the end of the walk to its ancestors.

## Main definitions

- `Grows`: what an action adds to the lineage
- `DB.Lineal`: the restart chains and roots of a database

## Main results

- `exec_grows`, `run_lineal`
- `run_lineage`
-/

namespace DurableWorkflows

open Transaction Sys Pointers

variable {externals : Externals} {s s' : Sys} {db db' : DB} {w p : WorkflowId} {r : WorkflowRow}
  {ℓ : Lineage} {action : Action} {P : WorkflowId → Label → Prop}

-- ════════════════════════════════════════════════════════════════════════
-- Growth of the lineage
-- ════════════════════════════════════════════════════════════════════════

/-- Where a new row comes from. -/
inductive Origin (db db' : DB) (ℓ : Lineage) : Prop
  | start (hparent : ℓ.parentWorkflowId = none) (hsource : ℓ.restartedFromWorkflowId = none)
      (hroot : ℓ.rootWorkflowId = none)
  | child {p : WorkflowId} {ℓp : Lineage} (hparent : ℓ.parentWorkflowId = some p)
      (hsource : ℓ.restartedFromWorkflowId = none) (hp : db.lineage p = some ℓp)
      (hroot : ℓ.rootWorkflowId = some (ℓp.rootWorkflowId.getD p))
  | successor {p q : WorkflowId} {ℓq : Lineage} (hparent : ℓ.parentWorkflowId = none)
      (hsource : ℓ.restartedFromWorkflowId = some p) (hp : ∃ r, db.workflows.find p = some r)
      (hgen : db.Generation q p) (hq : db.lineage q = some ℓq)
      (hroot : ℓ.rootWorkflowId = some (ℓq.rootWorkflowId.getD q))
      (hended : ¬(db'.aggregate p).IsOpen)

/-- What an action adds to the lineage: nothing, or one row whose key and whose
predecessor no other row has. -/
inductive Grows (db db' : DB) : Prop
  | same (h : db'.lineage = db.lineage)
  | inserted {ℓ : Lineage} (h : db'.lineage = Function.update db.lineage db.workflows.next (some ℓ))
      (hkey : ∀ w ℓ' key, db.lineage w = some ℓ' → ℓ'.kind = ℓ.kind →
        ℓ'.deduplicationKey = some key → ℓ.deduplicationKey ≠ some key)
      (hfree : ∀ w p, ℓ.restartedFromWorkflowId = some p → db.source w ≠ some p)
      (horigin : Origin db db' ℓ)

theorem Started.grows {row : WorkflowRow} {db₁ : DB} (h : Started P db row db₁)
    (hlineage : db'.lineage = db₁.lineage) (horigin : Origin db db' row.lineage) :
    Grows db db' := by
  refine .inserted (hlineage.trans h.lineage) (fun w ℓ' key hℓ' hkind hkey hnew => ?_)
    h.sourceFree horigin
  obtain ⟨r, hr, rfl⟩ := DB.exists_row hℓ'
  change r.deduplicationKey = some key at hkey
  refine h.keyFree w r hr hkind (by rw [hkey]; rfl) ?_
  rw [hkey]
  exact hnew.symm

/-- A workflow that has ended stays so. -/
theorem Evolves.ended (h : Evolves P db db') (hstored : ∃ r, db.workflows.find w = some r)
    (hw : ¬(db.aggregate w).IsOpen) : ¬(db'.aggregate w).IsOpen := by
  obtain ⟨r, hr⟩ := hstored
  have ht : r.status.isTerminal = true := by
    by_contra ht
    exact hw (.of_row hr (by simpa using ht))
  rw [Aggregate.isOpen_iff (h.terminal_row hr ht), ht]
  exact Bool.noConfusion

theorem not_open_of_terminal (hr : db.workflows.find w = some r)
    (ht : r.status.isTerminal = true) : ¬(db.aggregate w).IsOpen := by
  rw [Aggregate.isOpen_iff hr, ht]
  exact Bool.noConfusion

section Exec

theorem Starts.grows {workflow : PreparedWorkflowStart} {options : ApplicationStartOptions}
    {now : DbMillis} {o : StartOutcome} (h : Starts workflow options.toStartOptions now db o db') :
    Grows db db' := by
  cases h with
  | inserted h =>
    exact h.grows rfl (.start rfl (toStartOptions_fresh options) (toStartOptions_root options))
  | existing => exact .same rfl

/-- The successor of the newest generation of a key. -/
theorem DB.NewestKeyed.origin {kind key : String} {original latest : WorkflowRow}
    {workflow : PreparedWorkflowStart} {options : StartOptions} {now : DbMillis}
    (h : db.NewestKeyed kind key original latest) (hended : ¬(db'.aggregate latest.id).IsOpen) :
    Origin db db' (successorRow workflow options original latest now).lineage :=
  .successor rfl rfl ⟨_, h.stored⟩ h.newest.1 (lineage_of_find h.keyed.stored) rfl hended

theorem Recovers.grows {workflow : PreparedWorkflowStart} {options : ApplicationStartOptions}
    {now : DbMillis} {o : StartOutcome}
    (h : Recovers workflow options.toStartOptions now db o db') : Grows db db' := by
  cases h with
  | inserted _ h =>
    exact h.grows rfl (.start rfl (toStartOptions_fresh options) (toStartOptions_root options))
  | kept => exact .same rfl
  | failed _ hnewest hstatus hstarted h =>
    have hlatest := hstarted.find_of_find hnewest.stored
    refine hstarted.grows (h.lineage (by rintro _ _ ⟨-, rfl⟩; exact nofun)) (hnewest.origin ?_)
    exact h.ended ⟨_, hlatest⟩ (not_open_of_terminal hlatest (by rw [hstatus]; rfl))
  | blocked _ hnewest _ hstarted h =>
    exact hstarted.grows (h.evolves.lineage fun _ _ => Label.ne_inserted_of_supersedes)
      (hnewest.origin h.target.2)

theorem Restarts.grows {source : WorkflowRow} {now : DbMillis} (h : Restarts source now db db') :
    Grows db db' := by
  have horigin : ∀ {prepared : PreparedWorkflowStart}, db.workflows.find source.id = some source →
      ¬(db'.aggregate source.id).IsOpen →
      Origin db db' (preparedRow prepared (restartOptions source) now).lineage := by
    intro prepared hfind hended
    exact .successor rfl rfl ⟨_, hfind⟩ .refl (lineage_of_find hfind) rfl hended
  cases h with
  | terminal hfind ht hstarted h =>
    have hsource := hstarted.find_of_find hfind
    refine hstarted.grows (h.lineage (by rintro _ _ ⟨-, rfl⟩; exact nofun)) (horigin hfind ?_)
    exact h.ended ⟨_, hsource⟩ (not_open_of_terminal hsource ht)
  | superseded hfind _ hstarted hended h =>
    refine hstarted.grows ?_ (horigin hfind ?_)
    · exact (h.lineage (by rintro _ _ ⟨-, rfl⟩; exact nofun)).trans hended.swept.lineage
    · obtain ⟨r, hr⟩ := (hended.swept.evolves.steps source.id).exists_row
        ⟨_, hstarted.find_of_find hfind⟩
      refine h.ended ⟨r, hr⟩ (hended.swept.closed source.id ?_)
      exact List.mem_append_right _ (List.mem_singleton.mpr rfl)

theorem Commits.grows {claim : ClaimedRow} {now : DbMillis} {transition : StoredTransition}
    (h : Commits claim (Writes claim now db transition) db db') (hclaim : ClaimInv db claim) :
    Grows db db' := by
  obtain ⟨l, g, r, -, -, hwrites, -⟩ := h.commit
  generalize hlineage : db'.lineage = lineage at hwrites
  cases hwrites with
  | insertedChild _ hstarted =>
    exact hstarted.grows hlineage (.child rfl rfl hclaim.lineage rfl)
  | _ => exact .same hlineage

/-- Every action adds at most one row to the lineage. -/
theorem exec_grows (h : s.Inv) (hok : exec externals s action = .ok s') : Grows s.db s'.db := by
  have hev := (exec_leads h hok).evolves
  cases action with
  | start workflow options now =>
    rw [exec] at hok
    obtain ⟨o, db', hstart, rfl⟩ := transact'_ok hok
    exact (wp_ok (wp_start h.sound) hstart).grows
  | startPrepared prepared options now =>
    rw [exec] at hok
    obtain ⟨o, db', hstart, rfl⟩ := transact'_ok hok
    exact (wp_ok (wp_startPrepared h.sound) hstart).grows
  | recoverableStart workflow options now =>
    rw [exec] at hok
    obtain ⟨o, db', hstart, rfl⟩ := transact'_ok hok
    exact (wp_ok (wp_startOrRestartRecoverable h.sound h.attached) hstart).1.grows
  | restart registry workflow correction operator now =>
    rw [exec] at hok
    obtain ⟨o, db', hrestart, rfl⟩ := transact'_ok hok
    obtain ⟨⟨source, -, hrestarts⟩, -⟩ := wp_ok (wp_restart h.sound h.attached) hrestart
    exact hrestarts.grows
  | commit i config transition now =>
    obtain ⟨claim, event, hi, -, hc⟩ := exec_commit_ok h hok
    obtain ⟨hclaim, -⟩ := h.activations _ (List.mem_of_getElem? hi)
    exact hc.grows (h.claims _ hclaim).2
  | _ =>
    refine .same (hev.lineage ?_)
    rintro _ _ ⟨hl, -⟩ rfl
    cases hl

end Exec

-- ════════════════════════════════════════════════════════════════════════
-- The invariant
-- ════════════════════════════════════════════════════════════════════════

/-- The restart chains and the roots of a database. -/
structure DB.Lineal (db : DB) : Prop where
  uniqueSources : db.UniqueSources
  uniqueKeys : ∀ w w' ℓ ℓ' key, db.lineage w = some ℓ → db.lineage w' = some ℓ' →
    ℓ.kind = ℓ'.kind → ℓ.deduplicationKey = some key → ℓ'.deduplicationKey = some key → w = w'
  stored : ∀ w p, db.ancestor w = some p → ∃ r, db.workflows.find p = some r
  exclusive : ∀ w ℓ p, db.lineage w = some ℓ → ℓ.restartedFromWorkflowId = some p →
    ℓ.parentWorkflowId = none
  ended : ∀ w p, db.source w = some p → ¬(db.aggregate p).IsOpen
  rooted : ∀ w ℓ, db.lineage w = some ℓ → EndsAt db.ancestor w (ℓ.rootWorkflowId.getD w)

namespace DB.Lineal

theorem empty : DB.empty.Lineal where
  uniqueSources _ _ _ h := by cases h
  uniqueKeys _ _ _ _ _ h := by cases h
  stored _ _ h := by cases h
  exclusive _ _ _ h := by cases h
  ended _ _ h := by cases h
  rooted _ _ h := by cases h

/-- The ancestor of a row that was restarted is the row it was restarted from. -/
theorem ancestor_of_source (h : db.Lineal) (hsource : db.source w = some p) :
    db.ancestor w = some p := by
  obtain ⟨ℓ, hℓ, hp⟩ := Option.bind_eq_some_iff.mp hsource
  rw [DB.ancestor, hℓ, Option.bind_some, Lineage.ancestor, h.exclusive w ℓ p hℓ hp, Option.none_or,
    hp]

/-- The earlier generations of a row are ancestors. -/
theorem reaches_of_generation (h : db.Lineal) (hgen : db.Generation p w) :
    Reaches db.ancestor w p := by
  induction hgen with
  | refl => exact .refl
  | tail _ hsource ih => exact ih.tail (h.ancestor_of_source hsource)

section Insert

variable {o : Lineage → Option WorkflowId}

/-- A pointer column of the lineage after an insert. -/
theorem bind_update (n : WorkflowId)
    (h : db'.lineage = Function.update db.lineage n (some ℓ)) :
    (fun w => (db'.lineage w).bind o) = Function.update (fun w => (db.lineage w).bind o) n (o ℓ) := by
  funext w
  rw [h]
  by_cases hw : w = n
  · subst hw
    simp
  · simp [Function.update_of_ne hw]

end Insert

/-- A row that was there before an insert. -/
theorem lt_next {ℓ' : Lineage} (hw : db.lineage w = some ℓ') : w < db.workflows.next := by
  obtain ⟨r, hr, -⟩ := DB.exists_row hw
  exact Table.lt_next_of_find hr

/-- The lineage after an insert: the new row, or one that was there. -/
theorem lineage_cases (h : db'.lineage = Function.update db.lineage db.workflows.next (some ℓ))
    {ℓ' : Lineage} (hw : db'.lineage w = some ℓ') :
    w = db.workflows.next ∧ ℓ' = ℓ ∨ w < db.workflows.next ∧ db.lineage w = some ℓ' := by
  rw [h] at hw
  by_cases hn : w = db.workflows.next
  · subst hn
    rw [Function.update_self] at hw
    exact .inl ⟨rfl, (Option.some_inj.mp hw).symm⟩
  · rw [Function.update_of_ne hn] at hw
    exact .inr ⟨lt_next hw, hw⟩

/-- The pointer to the restarted row after an insert. -/
theorem source_cases (h : db'.lineage = Function.update db.lineage db.workflows.next (some ℓ))
    (hw : db'.source w = some p) :
    w = db.workflows.next ∧ ℓ.restartedFromWorkflowId = some p ∨ db.source w = some p := by
  obtain ⟨ℓ', hℓ', hp⟩ := Option.bind_eq_some_iff.mp hw
  rcases lineage_cases h hℓ' with ⟨rfl, rfl⟩ | ⟨-, hold⟩
  · exact .inl ⟨rfl, hp⟩
  · exact .inr (by rw [DB.source, hold]; exact hp)

theorem origin_ancestor (horigin : Origin db db' ℓ) (hp : ℓ.ancestor = some p) :
    ∃ r, db.workflows.find p = some r := by
  cases horigin with
  | start hparent hsource =>
    rw [Lineage.ancestor, hparent, hsource] at hp
    cases hp
  | child hparent _ hstored =>
    rw [Lineage.ancestor, hparent] at hp
    obtain rfl := Option.some_inj.mp hp
    obtain ⟨r, hr, -⟩ := DB.exists_row hstored
    exact ⟨r, hr⟩
  | successor hparent hsource hstored =>
    rw [Lineage.ancestor, hparent, hsource] at hp
    obtain rfl := Option.some_inj.mp hp
    exact hstored

/-- The walk from a new row ends at its root. -/
theorem origin_rooted (hl : db.Lineal) (hs : db.Sound)
    (h : db'.lineage = Function.update db.lineage db.workflows.next (some ℓ))
    (horigin : Origin db db' ℓ) :
    EndsAt db'.ancestor db.workflows.next (ℓ.rootWorkflowId.getD db.workflows.next) := by
  have hanc : db'.ancestor = Function.update db.ancestor db.workflows.next ℓ.ancestor :=
    bind_update db.workflows.next h
  have hlt : ∀ j, ℓ.ancestor = some j → j < db.workflows.next := fun j hj => by
    obtain ⟨r, hr⟩ := origin_ancestor horigin hj
    exact Table.lt_next_of_find hr
  -- from the row before it the walk ends where it ended
  have hstep : ∀ j k, ℓ.ancestor = some j → EndsAt db.ancestor j k →
      EndsAt db'.ancestor db.workflows.next k := by
    intro j k hj hend
    rw [hanc]
    refine .of_reaches (.head ?_ .refl)
      ((endsAt_update hs.ancestor_decreasing hlt (hlt j hj)).mpr hend)
    rw [Function.update_self, hj]
  cases horigin with
  | start hparent hsource hroot =>
    have hnone : ℓ.ancestor = none := by rw [Lineage.ancestor, hparent, hsource]; rfl
    rw [hroot, Option.getD_none]
    refine ⟨.refl, ?_⟩
    rw [hanc, Function.update_self, hnone]
  | @child p ℓp hparent _ hp hroot =>
    rw [hroot]
    refine hstep p _ ?_ (hl.rooted p ℓp hp)
    rw [Lineage.ancestor, hparent]
    rfl
  | @successor p q ℓq hparent hsource _ hgen hq hroot =>
    rw [hroot]
    refine hstep p _ ?_ ((hl.rooted q ℓq hq).of_reaches (hl.reaches_of_generation hgen))
    rw [Lineage.ancestor, hparent, hsource]
    rfl

/-- The invariant after an insert. -/
theorem insert (hl : db.Lineal) (hs : db.Sound) (hev : Evolves P db db')
    (h : db'.lineage = Function.update db.lineage db.workflows.next (some ℓ))
    (hkey : ∀ w ℓ' key, db.lineage w = some ℓ' → ℓ'.kind = ℓ.kind →
      ℓ'.deduplicationKey = some key → ℓ.deduplicationKey ≠ some key)
    (hfree : ∀ w p, ℓ.restartedFromWorkflowId = some p → db.source w ≠ some p)
    (horigin : Origin db db' ℓ) : db'.Lineal where
  uniqueSources w w' p hw hw' := by
    rcases source_cases h hw with ⟨rfl, hp⟩ | hp <;> rcases source_cases h hw' with ⟨rfl, hp'⟩ | hp'
    · rfl
    · exact absurd hp' (hfree w' p hp)
    · exact absurd hp (hfree w p hp')
    · exact hl.uniqueSources w w' p hp hp'
  uniqueKeys w w' ℓ₁ ℓ₂ key hw hw' hkind hk hk' := by
    rcases lineage_cases h hw with ⟨rfl, rfl⟩ | ⟨-, hold⟩ <;>
      rcases lineage_cases h hw' with ⟨rfl, rfl⟩ | ⟨-, hold'⟩
    · rfl
    · exact absurd hk (hkey w' ℓ₂ key hold' hkind.symm hk')
    · exact absurd hk' (hkey w ℓ₁ key hold hkind hk)
    · exact hl.uniqueKeys w w' ℓ₁ ℓ₂ key hold hold' hkind hk hk'
  stored w p hw := by
    obtain ⟨ℓ', hℓ', hp⟩ := Option.bind_eq_some_iff.mp hw
    refine (hev.steps p).exists_row ?_
    rcases lineage_cases h hℓ' with ⟨rfl, rfl⟩ | ⟨-, hold⟩
    · exact origin_ancestor horigin hp
    · exact hl.stored w p (by rw [DB.ancestor, hold]; exact hp)
  exclusive w ℓ' p hw hp := by
    rcases lineage_cases h hw with ⟨rfl, rfl⟩ | ⟨-, hold⟩
    · cases horigin with
      | start hparent | successor hparent => exact hparent
      | child _ hsource =>
        rw [hsource] at hp
        cases hp
    · exact hl.exclusive w ℓ' p hold hp
  ended w p hw := by
    rcases source_cases h hw with ⟨rfl, hp⟩ | hp
    · cases horigin with
      | start _ hsource | child _ hsource =>
        rw [hsource] at hp
        cases hp
      | successor _ hsource _ _ _ _ hended =>
        rw [hsource] at hp
        exact Option.some_inj.mp hp ▸ hended
    · exact hev.ended (hl.stored w p (hl.ancestor_of_source hp)) (hl.ended w p hp)
  rooted w ℓ' hw := by
    rcases lineage_cases h hw with ⟨rfl, rfl⟩ | ⟨hlt, hold⟩
    · exact origin_rooted hl hs h horigin
    · rw [show db'.ancestor = _ from bind_update db.workflows.next h]
      refine (endsAt_update hs.ancestor_decreasing (fun j hj => ?_) hlt).mpr (hl.rooted w ℓ' hold)
      obtain ⟨r, hr⟩ := origin_ancestor horigin hj
      exact Table.lt_next_of_find hr

theorem grows (hl : db.Lineal) (hs : db.Sound) (hev : Evolves P db db') (h : Grows db db') :
    db'.Lineal := by
  cases h with
  | inserted h hkey hfree horigin => exact hl.insert hs hev h hkey hfree horigin
  | same h =>
    exact
      { uniqueSources := (uniqueSources_congr h).mpr hl.uniqueSources
        uniqueKeys := h ▸ hl.uniqueKeys
        stored := fun w p hw => (hev.steps p).exists_row (hl.stored w p (ancestor_congr h ▸ hw))
        exclusive := h ▸ hl.exclusive
        ended := fun w p hw => by
          rw [source_congr h] at hw
          exact hev.ended (hl.stored w p (hl.ancestor_of_source hw)) (hl.ended w p hw)
        rooted := by
          rw [ancestor_congr h, h]
          exact hl.rooted }

end DB.Lineal

section Chains

variable {w₁ w₂ : WorkflowId}

/-- A generation that is open is the newest one. -/
theorem DB.Lineal.newest_of_open (hl : db.Lineal) (hgen : db.Generation w w₁)
    (hopen : (db.aggregate w₁).IsOpen) : db.Newest w w₁ :=
  ⟨hgen, fun w' hw' => hl.ended w' w₁ hw' hopen⟩

/-- A restart chain has one end. -/
theorem DB.Lineal.newest_unique (hl : db.Lineal) (h₁ : db.Newest w w₁) (h₂ : db.Newest w w₂) :
    w₁ = w₂ := by
  rcases h₁.1.total_of_injective hl.uniqueSources h₂.1 with h | h
  · rcases reaches_iff_tail.mp h with rfl | ⟨k, -, hk⟩
    · rfl
    · exact absurd hk (h₂.2 k)
  · rcases reaches_iff_tail.mp h with rfl | ⟨k, -, hk⟩
    · rfl
    · exact absurd hk (h₁.2 k)

end Chains

/-- The lineage invariant holds in every reachable state. -/
theorem run_lineal (externals : Externals) (actions : List Action) :
    (run externals Sys.init actions).db.Lineal := by
  have hrun : (run externals Sys.init actions).Inv ∧ (run externals Sys.init actions).db.Lineal := by
    refine Machine.run_invariant (P := fun s : Sys => s.Inv ∧ s.db.Lineal) ?_ ⟨.init, .empty⟩ actions
    rintro s action s' ⟨hinv, hl⟩ hok
    have hleads := exec_leads hinv hok
    exact ⟨hleads.inv, hl.grows hinv.sound hleads.evolves (exec_grows hinv hok)⟩
  exact hrun.2

/-- Restart lineage in every reachable state. No two rows have one predecessor;
parents and predecessors are rows with smaller ids, and predecessors have ended; a
generation that is not terminal is the only such one of its chain, and the last;
`lock_newest_generation` returns the end of the chain; and the root column of a row
names the row at which the walk to its ancestors ends. -/
theorem run_lineage (externals : Externals) (actions : List Action) :
    let db := (run externals Sys.init actions).db
    (∀ w w' r r' p, db.workflows.find w = some r → db.workflows.find w' = some r' →
      r.restartedFromWorkflowId = some p → r'.restartedFromWorkflowId = some p → w = w') ∧
    (∀ w r p, db.workflows.find w = some r →
      r.parentWorkflowId = some p ∨ r.restartedFromWorkflowId = some p →
      p < w ∧ ∃ r', db.workflows.find p = some r') ∧
    (∀ w r p, db.workflows.find w = some r → r.restartedFromWorkflowId = some p →
      ∃ r', db.workflows.find p = some r' ∧ r'.status.isTerminal = true) ∧
    (∀ w w₁ r₁, db.Generation w w₁ → db.workflows.find w₁ = some r₁ →
      r₁.status.isTerminal = false → db.Newest w w₁ ∧
        ∀ w₂ r₂, db.Generation w w₂ → db.workflows.find w₂ = some r₂ →
          r₂.status.isTerminal = false → w₂ = w₁) ∧
    (∀ w r, db.workflows.find w = some r → ∃ r', lockNewestGeneration r db = .ok (r', db) ∧
      db.workflows.find r'.id = some r' ∧ db.Newest w r'.id) ∧
    ∀ w r, db.workflows.find w = some r → EndsAt db.ancestor w (r.rootWorkflowId.getD w) := by
  have hs := (run_inv externals actions).sound
  have hl := run_lineal externals actions
  generalize (run externals Sys.init actions).db = db at hs hl
  refine ⟨fun w w' r r' p hr hr' hp hp' => ?_, fun w r p hr hp => ?_, fun w r p hr hp => ?_,
    fun w w₁ r₁ hgen hr ht => ⟨?_, fun w₂ r₂ hgen₂ hr₂ ht₂ => ?_⟩, fun w r hr => ?_,
    fun w r hr => ?_⟩
  · exact hl.uniqueSources w w' p ((source_of_find hr).trans hp) ((source_of_find hr').trans hp')
  · have hanc : db.ancestor w = some p := by
      rcases hp with hp | hp
      · rw [ancestor_of_find hr, hp]
        rfl
      · exact hl.ancestor_of_source ((source_of_find hr).trans hp)
    exact ⟨hs.ancestor_decreasing w p hanc, hl.stored w p hanc⟩
  · have hsource : db.source w = some p := (source_of_find hr).trans hp
    obtain ⟨r', hr'⟩ := hl.stored w p (hl.ancestor_of_source hsource)
    refine ⟨r', hr', ?_⟩
    by_contra ht
    exact hl.ended w p hsource (.of_row hr' (by simpa using ht))
  · exact hl.newest_of_open hgen (.of_row hr ht)
  · exact hl.newest_unique (hl.newest_of_open hgen₂ (.of_row hr₂ ht₂))
      (hl.newest_of_open hgen (.of_row hr ht))
  · obtain rfl : r.id = w := Table.key_of_find hr
    have hreturns : wp (lockNewestGeneration r) (fun r' db' => db' = db ∧
        db.workflows.find r'.id = some r' ∧ db.Newest r.id r'.id) (fun _ => False) db :=
      wp_lockNewestGeneration hs hr fun r' hr' hnewest => ⟨rfl, hr', hnewest⟩
    obtain ⟨r', db', hok, rfl, hr', hnewest⟩ := wp_returns hreturns
    exact ⟨r', hok, hr', hnewest⟩
  · exact hl.rooted w _ (lineage_of_find hr)

end DurableWorkflows
