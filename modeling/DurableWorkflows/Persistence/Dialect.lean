import DurableWorkflows.Persistence.Workflows
import Mathlib.Data.List.Range

/-!
# Statements with a list of parameters

A statement that filters by `eq_any` binds every element of the list on MySQL and the list
as one array on Postgres, and a prepared statement binds at most 65,535 parameters. The
lookup of the resolved replacement roots binds its list twice.

## Main definitions

- `Dialect.eqAny`: the parameters of one `eq_any`
- `resolvedRoots`: the lookup of the health scanner and of the topic metrics
- `chunks`: a list in pieces

## Main results

- `mem_chunks`, `length_le_of_mem_chunks`
-/

namespace DurableWorkflows

open Transaction

/-- The backends of `dialect`. -/
inductive Dialect
  | mysql
  | postgres
  deriving DecidableEq, Repr

/-- The placeholders of a prepared statement (`u16::MAX`). -/
def maxStatementParameters : ℕ := 65535

/-- The parameters that `eq_any` of a list binds. -/
def Dialect.eqAny : Dialect → ℕ → ℕ
  | mysql, length => length
  | postgres, _ => 1

/-- `RESOLVED_ROOT_IN_CHUNK`. -/
def resolvedRootInChunk : ℕ := 10000

/-- `slice::chunks`. -/
def chunks {α : Type} (size : ℕ) (xs : List α) : List (List α) :=
  (List.range ((xs.length + size - 1) / size)).map fun i => (xs.drop (i * size)).take size

/-- `root_activity_id.unwrap_or(id)`. -/
def ActivityRow.effectiveRoot (row : ActivityRow) : ActivityId := row.rootActivityId.getD row.id

/-- The parameters of a lookup of resolved roots: the status, and the list twice. -/
def rootParameters (dialect : Dialect) (roots : List ActivityId) : ℕ :=
  1 + dialect.eqAny roots.length + dialect.eqAny roots.length

/-- A succeeded activity of one of the chains. -/
def succeededIn (roots : List ActivityId) (row : ActivityRow) : Bool :=
  row.status == .succeeded && (row.rootActivityId.any (· ∈ roots) || row.id ∈ roots)

/-- One lookup of the roots, of a list, whose chain has a succeeded activity. -/
def resolvedRoots (dialect : Dialect) (roots : List ActivityId) : Tx (List ActivityId) := do
  ensure (rootParameters dialect roots ≤ maxStatementParameters) (.database .tooManyParameters)
  let rows ← selectRows activityTable (succeededIn roots)
  return rows.map (·.effectiveRoot)

-- ════════════════════════════════════════════════════════════════════════
-- Chunks
-- ════════════════════════════════════════════════════════════════════════

section Chunks

variable {α : Type} {size : ℕ} {xs chunk : List α} {x : α}

theorem length_le_of_mem_chunks (h : chunk ∈ chunks size xs) : chunk.length ≤ size := by
  obtain ⟨i, -, rfl⟩ := List.mem_map.mp h
  exact List.length_take_le _ _

/-- Every element is in a chunk, and a chunk has no other elements. -/
theorem mem_chunks (hsize : 0 < size) : (∃ chunk ∈ chunks size xs, x ∈ chunk) ↔ x ∈ xs := by
  refine ⟨?_, fun h => ?_⟩
  · rintro ⟨chunk, hchunk, hx⟩
    obtain ⟨i, -, rfl⟩ := List.mem_map.mp hchunk
    exact List.mem_of_mem_drop (List.mem_of_mem_take hx)
  · obtain ⟨i, hi, rfl⟩ := List.mem_iff_getElem.mp h
    have hlt : i / size < (xs.length + size - 1) / size := by
      apply Nat.lt_of_succ_le
      apply (Nat.le_div_iff_mul_le hsize).mpr
      have := Nat.div_mul_le_self i size
      rw [Nat.succ_mul]
      omega
    refine ⟨_, List.mem_map.mpr ⟨i / size, List.mem_range.mpr hlt, rfl⟩, ?_⟩
    refine List.mem_iff_getElem.mpr ⟨i % size, ?_, ?_⟩
    · rw [List.length_take, List.length_drop]
      have := Nat.mod_lt i hsize
      have := Nat.div_add_mod' i size
      omega
    · rw [List.getElem_take, List.getElem_drop]
      congr 1
      exact Nat.div_add_mod' i size

end Chunks

-- ════════════════════════════════════════════════════════════════════════
-- The lookup
-- ════════════════════════════════════════════════════════════════════════

section Lookup

variable {dialect : Dialect} {roots : List ActivityId} {db : DB} {root : ActivityId}

/-- The chain of the root has a succeeded activity. -/
def DB.Resolved (db : DB) (root : ActivityId) : Prop :=
  ∃ a act, db.activities.find a = some act ∧ act.status = .succeeded ∧ act.effectiveRoot = root

/-- A root of the list is found if its chain has a succeeded activity. -/
theorem mem_resolved (hroot : root ∈ roots) :
    root ∈ (db.activities.select (succeededIn roots)).map (·.effectiveRoot) ↔ db.Resolved root := by
  refine ⟨fun h => ?_, ?_⟩
  · obtain ⟨act, hact, hroot⟩ := List.mem_map.mp h
    obtain ⟨hfind, hsucceeded⟩ := Table.mem_select.mp hact
    rw [succeededIn, Bool.and_eq_true, beq_iff_eq] at hsucceeded
    exact ⟨_, act, hfind, hsucceeded.1, hroot⟩
  · rintro ⟨a, act, hfind, hstatus, rfl⟩
    obtain rfl := Table.key_of_find hfind
    refine List.mem_map.mpr ⟨act, Table.mem_select.mpr ⟨hfind, ?_⟩, rfl⟩
    unfold ActivityRow.effectiveRoot at hroot
    rw [succeededIn, hstatus]
    cases hr : act.rootActivityId with
    | none =>
      rw [hr, Option.getD_none] at hroot
      show (false || decide (act.id ∈ roots)) = true
      rw [Bool.false_or]
      exact decide_eq_true hroot
    | some r =>
      rw [hr, Option.getD_some] at hroot
      show (decide (r ∈ roots) || decide (act.id ∈ roots)) = true
      rw [decide_eq_true hroot, Bool.true_or]

end Lookup

end DurableWorkflows
