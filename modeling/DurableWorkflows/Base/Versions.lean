import DurableWorkflows.Base.Table
import Mathlib.Data.Finset.Card
import Mathlib.Data.Finset.Range

/-!
# Rows under READ COMMITTED

A row has the version that was committed last, and while a transaction holds its
lock, the version that this transaction sees. A statement reads the versions of
its own transaction and the committed versions of all other rows; a commit
publishes the versions of a transaction and releases its locks.

## Main definitions

- `Versioned τ ρ`: rows `ρ` with locks of transactions `τ`
- `Versioned.view`: what a statement reads
- `Versioned.write`, `Versioned.commit`, `Versioned.rollback`
- `Versioned.Has`: the versions of a row
- `Table.keys`: the keys of the rows that satisfy a predicate, to be counted

## Main results

- `Versioned.committed_commit`: a commit publishes what the transaction saw
- `Table.card_keys`: a selection has as many rows as there are keys
-/

variable {τ ρ : Type}

/-- A row: the version committed last, and the lock holder with the version it sees. -/
structure Versioned (τ ρ : Type) where
  id : ℕ
  committed : ρ
  held : Option (τ × ρ)

instance : Keyed (Versioned τ ρ) := ⟨Versioned.id⟩

namespace Versioned

/-- The lock is free or held by the transaction. -/
def Available (v : Versioned τ ρ) (t : τ) : Prop := ∀ t' r, v.held = some (t', r) → t' = t

/-- A version of the row: the committed one, or the one of the lock holder. -/
def Has (v : Versioned τ ρ) (r : ρ) : Prop := r = v.committed ∨ ∃ t, v.held = some (t, r)

/-- The transaction locks the row and writes a version. -/
def write (t : τ) (r : ρ) (v : Versioned τ ρ) : Versioned τ ρ := { v with held := some (t, r) }

variable {t t' : τ} {r r' : ρ} {v : Versioned τ ρ}

@[simp]
theorem write_id : (v.write t r).id = v.id := rfl

theorem has_write (h : (v.write t r).Has r') : v.Has r' ∨ r' = r := by
  rcases h with rfl | ⟨t', h⟩
  · exact .inl (.inl rfl)
  · cases h
    exact .inr rfl

variable [DecidableEq τ]

/-- What a statement of the transaction reads. -/
def view (t : τ) (v : Versioned τ ρ) : ρ :=
  match v.held with
  | some (t', r) => if t' = t then r else v.committed
  | none => v.committed

/-- The row after a commit of the transaction. -/
def commit (t : τ) (v : Versioned τ ρ) : Versioned τ ρ :=
  match v.held with
  | some (t', r) => if t' = t then { v with committed := r, held := none } else v
  | none => v

/-- The row after a rollback of the transaction. -/
def rollback (t : τ) (v : Versioned τ ρ) : Versioned τ ρ :=
  match v.held with
  | some (t', _) => if t' = t then { v with held := none } else v
  | none => v

@[simp]
theorem commit_id : (v.commit t).id = v.id := by
  unfold commit
  split
  · split <;> rfl
  · rfl

@[simp]
theorem rollback_id : (v.rollback t).id = v.id := by
  unfold rollback
  split
  · split <;> rfl
  · rfl

@[simp]
theorem view_write_self : (v.write t r).view t = r := by
  simp [view, write]

theorem view_of_held (h : v.held = some (t, r)) : v.view t = r := by
  simp [view, h]

theorem view_of_held_ne (h : v.held = some (t', r)) (hne : t' ≠ t) : v.view t = v.committed := by
  simp [view, h, hne]

theorem view_of_free (h : v.held = none) : v.view t = v.committed := by
  simp [view, h]

/-- A lock that is available to one transaction hides nothing from the others. -/
theorem Available.view_eq (h : v.Available t) (hne : t' ≠ t) : v.view t' = v.committed := by
  cases hheld : v.held with
  | none => exact view_of_free hheld
  | some x =>
    obtain ⟨t'', r⟩ := x
    obtain rfl := h t'' r hheld
    exact view_of_held_ne hheld hne.symm

theorem view_write_of_ne (hne : t' ≠ t) : (v.write t r).view t' = v.committed :=
  view_of_held_ne rfl hne.symm

theorem has_view : v.Has (v.view t) := by
  unfold view
  split
  next t' r h =>
    split
    · exact .inr ⟨t', h⟩
    · exact .inl rfl
  next => exact .inl rfl

/-- A commit publishes what the transaction saw. -/
theorem committed_commit : (v.commit t).committed = v.view t := by
  unfold commit view
  split
  · split <;> rfl
  · rfl

theorem has_commit (h : (v.commit t).Has r) : v.Has r := by
  unfold commit at h
  split at h
  next t' r' hheld =>
    split at h
    · rcases h with rfl | ⟨t'', h⟩
      · exact .inr ⟨t', hheld⟩
      · cases h
    · exact h
  next => exact h

theorem has_rollback (h : (v.rollback t).Has r) : v.Has r := by
  unfold rollback at h
  split at h
  next t' r' hheld =>
    split at h
    · rcases h with rfl | ⟨t'', h⟩
      · exact .inl rfl
      · cases h
    · exact h
  next => exact h

@[simp]
theorem committed_rollback : (v.rollback t).committed = v.committed := by
  unfold rollback
  split
  · split <;> rfl
  · rfl

/-- The lock that is left after a commit. -/
theorem held_commit (h : (v.commit t).held = some (t', r)) :
    v.held = some (t', r) ∧ t' ≠ t ∧ (v.commit t).committed = v.committed := by
  unfold commit at h ⊢
  split at h
  next t'' r' hheld =>
    split at h
    · cases h
    next hne =>
      rw [hheld] at h
      cases h
      simp [hheld, hne]
  next hheld =>
    rw [hheld] at h
    cases h

/-- The lock that is left after a rollback. -/
theorem held_rollback (h : (v.rollback t).held = some (t', r)) :
    v.held = some (t', r) ∧ t' ≠ t := by
  unfold rollback at h
  split at h
  next t'' r' hheld =>
    split at h
    · cases h
    next hne =>
      rw [hheld] at h
      cases h
      exact ⟨hheld, hne⟩
  next hheld =>
    rw [hheld] at h
    cases h

/-- What another transaction sees after a commit: the published version, or what it saw. -/
theorem view_commit (hne : t' ≠ t) :
    (v.commit t).view t' = v.view t' ∨
      (∃ r, v.held = some (t, r)) ∧ (v.commit t).view t' = v.view t := by
  cases hheld : v.held with
  | none => exact .inl (by simp [commit, hheld])
  | some x =>
    obtain ⟨t'', r⟩ := x
    by_cases ht : t'' = t
    · subst ht
      exact .inr ⟨⟨r, rfl⟩, by simp [commit, view, hheld]⟩
    · exact .inl (by simp [commit, hheld, ht])

theorem view_rollback (hne : t' ≠ t) : (v.rollback t).view t' = v.view t' := by
  cases hheld : v.held with
  | none => simp [rollback, hheld]
  | some x =>
    obtain ⟨t'', r⟩ := x
    by_cases ht : t'' = t
    · subst ht
      simp [rollback, view, hheld, hne.symm]
    · simp [rollback, hheld, ht]

end Versioned

-- ════════════════════════════════════════════════════════════════════════
-- Counting rows
-- ════════════════════════════════════════════════════════════════════════

namespace Table

variable {α : Type} [Keyed α] {t t' : Table α} {p q : α → Bool} {i : ℕ}

/-- The keys of the rows that satisfy `p`. -/
def keys (t : Table α) (p : α → Bool) : Finset ℕ := {i ∈ Finset.range t.next | (t.find i).any p}

theorem mem_keys : i ∈ t.keys p ↔ ∃ r, t.find i = some r ∧ p r = true := by
  simp only [keys, Finset.mem_filter, Finset.mem_range, Option.any_eq_true]
  refine ⟨fun h => h.2, fun ⟨r, hr, hp⟩ => ⟨lt_next_of_find hr, r, hr, hp⟩⟩

/-- A selection has as many rows as there are keys. -/
theorem card_keys : (t.keys p).card = (t.select p).length := by
  have hkeys : t.keys p = ((t.select p).map Keyed.key).toFinset := by
    ext i
    simp only [mem_keys, List.mem_toFinset, List.mem_map, mem_select]
    constructor
    · rintro ⟨r, hr, hp⟩
      have hkey := key_of_find hr
      exact ⟨r, ⟨hkey ▸ hr, hp⟩, hkey⟩
    · rintro ⟨r, ⟨hr, hp⟩, rfl⟩
      exact ⟨r, hr, hp⟩
  have hnodup : ((t.select p).map Keyed.key).Nodup := by
    rw [List.nodup_iff_pairwise_ne, List.pairwise_map]
    exact pairwise_select.imp Nat.ne_of_lt
  rw [hkeys, List.toFinset_card_of_nodup hnodup, List.length_map]

end Table
