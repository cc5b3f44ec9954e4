import DurableWorkflows.Base.Pointers
import DurableWorkflows.Engine.Evolution

/-!
# Lineage

The columns of a workflow row that say where it comes from are written once, by
its insert. The generations of a workflow are the rows on its restart chain, and
its ancestors are the rows on the walk to the parent or, where there is none, to
the row it was restarted from.

## Main definitions

- `Lineage`, `DB.lineage`: the columns that never change
- `DB.source`, `DB.ancestor`: the pointers to the restarted row and to the next
  ancestor
- `DB.Generation`, `DB.Newest`, `DB.Owns`: restart chains and owned children

## Main results

- `Evolves.lineage`: only an insert changes the lineage of a database
-/

namespace DurableWorkflows

open Pointers

variable {g g' : Aggregate} {db db' : DB} {w : WorkflowId} {r : WorkflowRow} {l : Label}
  {P : WorkflowId → Label → Prop}

/-- The columns of a workflow row that only its insert writes. -/
structure Lineage where
  kind : String
  version : ℤ
  deduplicationKey : Option String
  rootWorkflowId : Option WorkflowId
  restartedFromWorkflowId : Option WorkflowId
  parentWorkflowId : Option WorkflowId
  parentCommandSequence : Option ℕ
  deriving DecidableEq

/-- The lineage of a row. -/
def WorkflowRow.lineage (r : WorkflowRow) : Lineage where
  kind := r.kind
  version := r.version
  deduplicationKey := r.deduplicationKey
  rootWorkflowId := r.rootWorkflowId
  restartedFromWorkflowId := r.restartedFromWorkflowId
  parentWorkflowId := r.parentWorkflowId
  parentCommandSequence := r.parentCommandSequence

/-- The row before a row on the way to its root. -/
def Lineage.ancestor (ℓ : Lineage) : Option WorkflowId :=
  ℓ.parentWorkflowId.or ℓ.restartedFromWorkflowId

/-- The lineage of a stored workflow. -/
def DB.lineage (db : DB) (w : WorkflowId) : Option Lineage :=
  (db.workflows.find w).map WorkflowRow.lineage

/-- The row a workflow was restarted from. -/
def DB.source (db : DB) (w : WorkflowId) : Option WorkflowId :=
  (db.lineage w).bind Lineage.restartedFromWorkflowId

/-- The next ancestor of a workflow. -/
def DB.ancestor (db : DB) (w : WorkflowId) : Option WorkflowId :=
  (db.lineage w).bind Lineage.ancestor

/-- `w'` is on the restart chain of `w`. -/
def DB.Generation (db : DB) (w w' : WorkflowId) : Prop := Reaches db.source w' w

/-- `w'` is the end of the restart chain of `w`. -/
def DB.Newest (db : DB) (w w' : WorkflowId) : Prop :=
  db.Generation w w' ∧ ∀ w'', db.source w'' ≠ some w'

/-- `c` is a child of `p` that carries the key the engine generated for it. -/
def DB.Owns (db : DB) (p c : WorkflowId) : Prop :=
  ∃ ℓ n, db.lineage c = some ℓ ∧ ℓ.parentWorkflowId = some p ∧
    ℓ.parentCommandSequence = some n ∧ ℓ.deduplicationKey = some (ownedChildKey p n)

/-- No two workflows were restarted from one. -/
def DB.UniqueSources (db : DB) : Prop :=
  ∀ w w' p, db.source w = some p → db.source w' = some p → w = w'

section Congr

variable (h : db'.lineage = db.lineage)

include h

theorem source_congr : db'.source = db.source :=
  funext fun w => by rw [DB.source, DB.source, h]

theorem ancestor_congr : db'.ancestor = db.ancestor :=
  funext fun w => by rw [DB.ancestor, DB.ancestor, h]

theorem generation_congr {w w' : WorkflowId} : db'.Generation w w' ↔ db.Generation w w' := by
  rw [DB.Generation, DB.Generation, source_congr h]

theorem owns_congr {p c : WorkflowId} : db'.Owns p c ↔ db.Owns p c := by
  rw [DB.Owns, DB.Owns, h]

theorem uniqueSources_congr : db'.UniqueSources ↔ db.UniqueSources := by
  rw [DB.UniqueSources, DB.UniqueSources, source_congr h]

end Congr

theorem lineage_of_find (hr : db.workflows.find w = some r) : db.lineage w = some r.lineage := by
  simp [DB.lineage, hr]

theorem DB.exists_row {ℓ : Lineage} (h : db.lineage w = some ℓ) :
    ∃ r, db.workflows.find w = some r ∧ r.lineage = ℓ :=
  Option.map_eq_some_iff.mp h

theorem source_of_find (hr : db.workflows.find w = some r) :
    db.source w = r.restartedFromWorkflowId := by
  simp [DB.source, lineage_of_find hr, WorkflowRow.lineage]

theorem ancestor_of_find (hr : db.workflows.find w = some r) :
    db.ancestor w = r.parentWorkflowId.or r.restartedFromWorkflowId := by
  simp [DB.ancestor, lineage_of_find hr, WorkflowRow.lineage, Lineage.ancestor]

/-- Only an insert writes the lineage of a row. -/
theorem Step.lineage (h : Step g l g') (hl : l ≠ .inserted) :
    g'.row.map WorkflowRow.lineage = g.row.map WorkflowRow.lineage := by
  cases h with
  | inserted => exact absurd rfl hl
  | history | discarded | activityClaimed | renewed | released | settled => rfl
  | cancelled hr _ _ clear =>
    rw [hr]
    cases clear <;> rfl
  | _ =>
    rw [‹g.row = some _›]
    rfl

theorem Steps.lineage {P : Label → Prop} (h : Steps P g g') (hP : ∀ l, P l → l ≠ .inserted) :
    g'.row.map WorkflowRow.lineage = g.row.map WorkflowRow.lineage := by
  induction h with
  | refl => rfl
  | tail _ hstep ih =>
    obtain ⟨l, hl, hstep⟩ := hstep
    exact (hstep.lineage (hP l hl)).trans ih

/-- The lineage of a database under steps that insert nothing. -/
theorem Evolves.lineage (h : Evolves P db db') (hP : ∀ w l, P w l → l ≠ .inserted) :
    db'.lineage = db.lineage :=
  funext fun w => (h.steps w).lineage (hP w)

/-- The lineage of one workflow that exists already. -/
theorem Evolves.lineage_of_some (h : Evolves P db db') {ℓ : Lineage} (hw : db.lineage w = some ℓ) :
    db'.lineage w = some ℓ := by
  have hsteps := h.steps w
  obtain ⟨r, hr, rfl⟩ := DB.exists_row hw
  have hsome : ∀ g', Steps (P w) (db.aggregate w) g' → g'.row.map WorkflowRow.lineage = some r.lineage := by
    intro g' hg
    induction hg with
    | refl => exact hw
    | tail _ hstep ih =>
      obtain ⟨l, -, hstep⟩ := hstep
      refine (hstep.lineage ?_).trans ih
      rintro rfl
      cases hstep
      cases ih
  exact hsome _ hsteps

section Sound

variable (hs : db.Sound)

include hs

theorem DB.Sound.source_decreasing : Decreasing db.source := by
  intro i j h
  obtain ⟨ℓ, hℓ, hsource⟩ := Option.bind_eq_some_iff.mp h
  obtain ⟨r, hr, rfl⟩ := DB.exists_row hℓ
  have hid : r.id = i := Table.key_of_find hr
  exact hid ▸ (hs.inv hr).row.restartedFrom j hsource

theorem DB.Sound.ancestor_decreasing : Decreasing db.ancestor := by
  intro i j h
  obtain ⟨ℓ, hℓ, hnext⟩ := Option.bind_eq_some_iff.mp h
  obtain ⟨r, hr, rfl⟩ := DB.exists_row hℓ
  have hid : r.id = i := Table.key_of_find hr
  rcases Option.or_eq_some_iff.mp hnext with hparent | ⟨-, hsource⟩
  · exact hid ▸ (hs.inv hr).row.parent j hparent
  · exact hid ▸ (hs.inv hr).row.restartedFrom j hsource

end Sound

end DurableWorkflows
