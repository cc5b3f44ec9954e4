import DurableWorkflows.Engine.Ancestry

/-!
# Waits on ancestors

A commit checks that the child it attaches to is neither the caller nor one of its
ancestors. A wait that moves to a successor later needs no check: the successor is
younger than every row that waits, and ancestors are older.

## Main definitions

- `DB.Acyclic`: no workflow waits for itself or an ancestor

## Main results

- `run_acyclicWaits`
-/

namespace DurableWorkflows

open Transaction Sys Pointers

variable {externals : Externals} {s s' : Sys} {g g' : Aggregate} {db db' : DB} {w c : WorkflowId}
  {l : Label} {action : Action} {P : WorkflowId → Label → Prop}

/-- No workflow waits for itself or an ancestor. -/
def DB.Acyclic (db : DB) : Prop := ∀ w c, (db.aggregate w).AwaitsChild c → ¬Reaches db.ancestor w c

-- ════════════════════════════════════════════════════════════════════════
-- New waits
-- ════════════════════════════════════════════════════════════════════════

/-- The wait a committing step leaves is the one it is labelled with. -/
theorem Step.awaitsChild_of_commit (h : Step g l g') (hg : g.WellFormed) (hl : l.isCommit = true)
    (hc : g'.AwaitsChild c) : g.AwaitsChild c ∨ l = .waited (.child c) := by
  cases hattaches : l.attaches with
  | false => exact .inl (h.awaitsChild_of hg hattaches hc)
  | true =>
    cases h with
    | waitedChild hr hs c' =>
      obtain ⟨-, hw⟩ := (Aggregate.awaitsChild_iff rfl).mp hc
      obtain rfl : c' = c := Wait.child.inj (Option.some_inj.mp hw)
      exact .inr rfl
    | reattached => cases hl
    | _ => cases hattaches

/-- Under steps that only move waits to `target`, a workflow that waits for a child
waited for one before. -/
theorem Steps.awaitsChild_or_reattached {P : Label → Prop} {target : WorkflowId} (h : Steps P g g')
    (hg : g.WellFormed)
    (hP : ∀ l, P l → l.attaches = false ∨ ∃ source, l = .reattached source target)
    (hc : g'.AwaitsChild c) : ∃ c₀, g.AwaitsChild c₀ ∧ (c = c₀ ∨ c = target) := by
  induction h generalizing c with
  | refl => exact ⟨c, hc, .inl rfl⟩
  | tail hsteps hstep ih =>
    obtain ⟨l, hl, hstep⟩ := hstep
    rcases hP l hl with hattaches | ⟨source, rfl⟩
    · exact ih (hstep.awaitsChild_of (Steps.wellFormed hsteps hg) hattaches hc)
    · cases hstep with
      | reattached hr hw hs =>
        obtain ⟨-, hw'⟩ := (Aggregate.awaitsChild_iff rfl).mp hc
        obtain rfl : target = c := Wait.child.inj (Option.some_inj.mp hw')
        obtain ⟨c₀, hc₀, -⟩ := ih ((Aggregate.awaitsChild_iff hr).mpr ⟨hs, hw⟩)
        exact ⟨c₀, hc₀, .inr rfl⟩

/-- A row that is not there yet is no ancestor. -/
theorem DB.Sound.not_reaches_of_lt (hs : db.Sound) (h : w < c) : ¬Reaches db.ancestor w c :=
  fun hreach => absurd (hreach.le hs.ancestor_decreasing) (Nat.not_le_of_lt h)

/-- A supersession only moves waits to the successor. -/
theorem Label.moves_of_supersedes {latest successor : WorkflowId}
    (h : l.supersedes latest successor w) :
    l.attaches = false ∨ ∃ source, l = .reattached source successor := by
  cases l with
  | reattached source target => exact .inr ⟨source, by rw [h.2]⟩
  | waited => cases h
  | _ => exact .inl rfl

/-- The waits after a recoverable start. -/
theorem Recovers.awaitsChild {workflow : PreparedWorkflowStart} {options : StartOptions}
    {now : DbMillis} {o : StartOutcome} (h : Recovers workflow options now db o db')
    (hs : db.Sound) (hc : (db'.aggregate w).AwaitsChild c) :
    (db.aggregate w).AwaitsChild c ∨ ¬Reaches db'.ancestor w c := by
  have hs' := h.evolves.sound hs
  have hinserted : ∀ {row : WorkflowRow} {db₁ : DB},
      Started (fun _ l => l = .inserted) db row db₁ → (db₁.aggregate w).AwaitsChild c →
      (db.aggregate w).AwaitsChild c := by
    intro row db₁ hstarted
    exact (hstarted.evolves.steps w).awaitsChild_of (hs.wellFormed w) (by rintro _ rfl; rfl)
  cases h with
  | inserted _ hstarted => exact .inl (hinserted hstarted hc)
  | kept => exact .inl hc
  | failed _ _ _ hstarted h =>
    refine .inl (hinserted hstarted ?_)
    exact (h.steps w).awaitsChild_of ((hstarted.evolves.sound hs).wellFormed w)
      (by rintro _ ⟨-, rfl⟩; rfl) hc
  | blocked _ _ _ hstarted h =>
    obtain ⟨c₀, hc₀, rfl | rfl⟩ := (h.evolves.steps w).awaitsChild_or_reattached
      ((hstarted.evolves.sound hs).wellFormed w) (fun _ => Label.moves_of_supersedes) hc
    · exact .inl (hinserted hstarted hc₀)
    · -- the new row itself waits for nothing
      have hne : w ≠ db.workflows.next := by
        rintro rfl
        exact absurd hc₀ (not_awaitsChild hstarted.stored (.inl rfl))
      rw [hstarted.other w hne] at hc₀
      obtain ⟨r, hr, -⟩ := hc₀
      exact .inr (hs'.not_reaches_of_lt (Table.lt_next_of_find hr))

/-- The waits after a commit. -/
theorem Commits.awaitsChild {claim : ClaimedRow} {now : DbMillis} {transition : StoredTransition}
    (h : Commits claim (Writes claim now db transition) db db') (hs : db.Sound)
    (hc : (db'.aggregate w).AwaitsChild c) :
    (db.aggregate w).AwaitsChild c ∨ ¬Reaches db'.ancestor w c := by
  have hs' := h.evolves.sound hs
  by_cases hw : w = claim.row.id
  · subst hw
    obtain ⟨l, g, r, hl, hr, hwrites, hstep, hsteps⟩ := h.commit
    have hc₁ := hsteps.awaitsChild_of (hstep.wellFormed (hs.wellFormed _))
      (fun _ hl => (Label.neutral_of_accompanies hl).2) hc
    refine (hstep.awaitsChild_of_commit (hs.wellFormed _) hl hc₁).imp_right ?_
    rintro rfl
    generalize hlineage : db'.lineage = lineage at hwrites
    cases hwrites with
    | insertedChild _ hstarted =>
      obtain ⟨r₀, hr₀⟩ := h.held
      exact hs'.not_reaches_of_lt (Table.lt_next_of_find hr₀.stored)
    | existingChild _ _ hancestor =>
      rw [ancestor_congr hlineage]
      exact hancestor
  · exact .inl ((h.other w hw).awaitsChild_of (hs.wellFormed w)
      (fun _ hl => (Label.neutral_of_accompanies hl).2) hc)

/-- A wait that an action makes is not on an ancestor. -/
theorem exec_awaitsChild (h : s.Inv) (hok : exec externals s action = .ok s')
    (hc : (s'.db.aggregate w).AwaitsChild c) :
    (s.db.aggregate w).AwaitsChild c ∨ ¬Reaches s'.db.ancestor w c := by
  have hev := (exec_leads h hok).evolves
  cases action with
  | recoverableStart workflow options now =>
    rw [exec] at hok
    obtain ⟨o, db', hstart, rfl⟩ := transact'_ok hok
    exact (wp_ok (wp_startOrRestartRecoverable h.sound h.attached) hstart).1.awaitsChild h.sound hc
  | commit i config transition now =>
    obtain ⟨claim, event, -, -, hcommits⟩ := exec_commit_ok h hok
    exact hcommits.awaitsChild h.sound hc
  | _ =>
    refine .inl ((hev.steps w).awaitsChild_of (h.sound.wellFormed w) (fun l hl => ?_) hc)
    cases l with
    | waited wait =>
      obtain ⟨hl, -⟩ := hl
      cases hl
    | reattached =>
      obtain ⟨hl, -⟩ := hl
      cases hl
    | _ => rfl

-- ════════════════════════════════════════════════════════════════════════
-- Runs
-- ════════════════════════════════════════════════════════════════════════

/-- An insert adds no ancestor to a row that was there. -/
theorem Grows.reaches (h : Grows db db') (hs : db.Sound)
    (hstored : ∃ r, db.workflows.find w = some r) (hreach : Reaches db'.ancestor w c) :
    Reaches db.ancestor w c := by
  cases h with
  | same h => exact ancestor_congr h ▸ hreach
  | inserted h _ _ horigin =>
    obtain ⟨r, hr⟩ := hstored
    rw [show db'.ancestor = _ from DB.Lineal.bind_update db.workflows.next h] at hreach
    refine (reaches_update hs.ancestor_decreasing (fun j hj => ?_)
      (Table.lt_next_of_find hr)).mp hreach
    obtain ⟨r', hr'⟩ := DB.Lineal.origin_ancestor horigin hj
    exact Table.lt_next_of_find hr'

theorem exec_acyclic (h : s.Inv) (hacyclic : s.db.Acyclic)
    (hok : exec externals s action = .ok s') : s'.db.Acyclic := by
  intro w c hc
  rcases exec_awaitsChild h hok hc with hold | hnew
  · obtain ⟨r, hr, -⟩ := id hold
    exact fun hreach => hacyclic w c hold ((exec_grows h hok).reaches h.sound ⟨r, hr⟩ hreach)
  · exact hnew

/-- Waits are acyclic in every reachable state. -/
theorem run_acyclic (externals : Externals) (actions : List Action) :
    (run externals Sys.init actions).db.Acyclic := by
  have hrun : (run externals Sys.init actions).Inv ∧ (run externals Sys.init actions).db.Acyclic := by
    refine Machine.run_invariant (P := fun s : Sys => s.Inv ∧ s.db.Acyclic) ?_ ⟨.init, ?_⟩ actions
    · rintro s action s' ⟨hinv, hacyclic⟩ hok
      exact ⟨(exec_leads hinv hok).inv, exec_acyclic hinv hacyclic hok⟩
    · rintro w c ⟨r, hr, -⟩
      cases hr
  exact hrun.2

/-- No workflow waits for itself or an ancestor, in any reachable state, and
`is_caller_or_ancestor` answers whether a row is the caller or one of its
ancestors. -/
theorem run_acyclicWaits (externals : Externals) (actions : List Action) :
    let s := run externals Sys.init actions
    (∀ w r c, s.db.workflows.find w = some r → r.status = .waitingChild ∨ r.status = .paused →
      r.awaited = some (.child c) → ¬Reaches s.db.ancestor w c) ∧
    ∀ claim ∈ s.workflowClaims, ∀ target, ∃ b,
      isCallerOrAncestor claim target s.db = .ok (b, s.db) ∧
        (b = true ↔ Reaches s.db.ancestor claim.row.id target) := by
  have hinv := run_inv externals actions
  have hacyclic := run_acyclic externals actions
  have hl := run_lineal externals actions
  refine ⟨fun w r c hr hs hw => hacyclic w c ⟨r, hr, ?_, hw⟩, fun claim hmem target => ?_⟩
  · rcases hs with hs | hs <;> rw [hs] <;> rfl
  · have hreturns : wp (isCallerOrAncestor claim target) (fun b db' =>
        db' = (run externals Sys.init actions).db ∧
        (b = true ↔ Reaches (run externals Sys.init actions).db.ancestor claim.row.id target))
        (fun _ => False) (run externals Sys.init actions).db := by
      refine wp_isCallerOrAncestor hinv.sound (hinv.claims claim hmem).2 (fun w p hp hnone => ?_)
        fun b hb => ⟨rfl, hb⟩
      obtain ⟨r, hr⟩ := hl.stored w p hp
      rw [hr] at hnone
      cases hnone
    obtain ⟨b, db', hok, rfl, hb⟩ := wp_returns hreturns
    exact ⟨b, hok, hb⟩

end DurableWorkflows
