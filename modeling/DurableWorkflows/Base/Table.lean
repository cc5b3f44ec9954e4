import DurableWorkflows.Base.Transaction
import Mathlib.Data.List.Range
import Mathlib.Data.List.Pairwise

/-!
# Tables with a generated key

A `Table` holds rows under a key that the database generates: keys are positive,
issued in increasing order, never reused, and rows are never deleted. Each row carries
its own key, so a table whose rows disagree with their position cannot be
built.

## Main definitions

- `Table α`: tables of rows `α`
- `Table.find`, `Table.select`: reads by key and by predicate (in key order)
- `Table.insert`, `Table.modify`, `Table.modifyAll`: the writes
- `TableOf σ α`: a table inside a store, with the transactions
  `findRow`, `selectRows`, `insertRow`, `updateRow` and `updateRows` over it
-/

/-- Rows that carry the key they are stored under. -/
class Keyed (α : Type) where
  key : α → ℕ

open Keyed

/-- A table of rows `α` with keys generated in increasing order. -/
structure Table (α : Type) [Keyed α] where
  /-- The row stored under a key. -/
  rows : ℕ → Option α
  /-- The next key to issue. -/
  next : ℕ
  positive : 0 < next
  zero : rows 0 = none
  fresh : ∀ i, next ≤ i → rows i = none
  keyed : ∀ i r, rows i = some r → key r = i

namespace Table

variable {α : Type} [Keyed α] {t : Table α} {i j : ℕ} {r : α}

/-- The empty table; the first key is `1`. -/
def empty : Table α where
  rows _ := none
  next := 1
  positive := Nat.one_pos
  zero := rfl
  fresh _ _ := rfl
  keyed _ _ h := nomatch h

/-- The row with key `i`. -/
def find (t : Table α) (i : ℕ) : Option α := t.rows i

/-- The rows that satisfy `p`, in key order. -/
def select (t : Table α) (p : α → Bool) : List α :=
  (List.range t.next).filterMap fun i => (t.rows i).filter p

/-- Store a new row under the next key. -/
def insert (t : Table α) (mk : ℕ → α) (hmk : ∀ i, key (mk i) = i := by intro i; rfl) :
    Table α where
  rows i := if i = t.next then some (mk i) else t.rows i
  next := t.next + 1
  positive := Nat.succ_pos _
  zero := by
    rw [if_neg t.positive.ne]
    exact t.zero
  fresh i hi := by
    rw [if_neg (by omega)]
    exact t.fresh i (by omega)
  keyed i r h := by
    split at h
    · cases h; exact hmk i
    · exact t.keyed i r h

/-- Change the row with key `i`, if there is one. -/
def modify (t : Table α) (i : ℕ) (f : α → α)
    (hf : ∀ r, key (f r) = key r := by intro r; rfl) : Table α where
  rows j := if j = i then (t.rows j).map f else t.rows j
  next := t.next
  positive := t.positive
  zero := by simp [t.zero]
  fresh j hj := by simp [t.fresh j hj]
  keyed j r h := by
    split at h
    · obtain ⟨r', hr', rfl⟩ := Option.map_eq_some_iff.mp h
      exact (hf r').trans (t.keyed j r' hr')
    · exact t.keyed j r h

/-- Change every row that satisfies `p`. -/
def modifyAll (t : Table α) (p : α → Bool) (f : α → α)
    (hf : ∀ r, key (f r) = key r := by intro r; rfl) : Table α where
  rows j := (t.rows j).map fun r => if p r then f r else r
  next := t.next
  positive := t.positive
  zero := by simp [t.zero]
  fresh j hj := by simp [t.fresh j hj]
  keyed j r h := by
    obtain ⟨r', hr', rfl⟩ := Option.map_eq_some_iff.mp h
    split
    · exact (hf r').trans (t.keyed j r' hr')
    · exact t.keyed j r' hr'

@[simp]
theorem find_empty : (empty : Table α).find i = none := rfl

theorem key_of_find (h : t.find i = some r) : key r = i := t.keyed i r h

/-- Keys are positive. -/
theorem pos_of_find (h : t.find i = some r) : 0 < i := by
  rcases Nat.eq_zero_or_pos i with rfl | hi
  · rw [find, t.zero] at h
    cases h
  · exact hi

theorem lt_next_of_find (h : t.find i = some r) : i < t.next := by
  by_contra hi
  simp [find, t.fresh i (by omega)] at h

@[simp]
theorem find_next : t.find t.next = none := t.fresh _ le_rfl

theorem find_insert {mk : ℕ → α} {hmk} :
    (t.insert mk hmk).find i = if i = t.next then some (mk i) else t.find i := rfl

@[simp]
theorem next_insert {mk : ℕ → α} {hmk} : (t.insert mk hmk).next = t.next + 1 := rfl

@[simp]
theorem find_insert_self {mk : ℕ → α} {hmk} :
    (t.insert mk hmk).find t.next = some (mk t.next) := by
  simp [find_insert]

theorem find_modify {f : α → α} {hf} :
    (t.modify i f hf).find j = if j = i then (t.find j).map f else t.find j := rfl

@[simp]
theorem next_modify {f : α → α} {hf} : (t.modify i f hf).next = t.next := rfl

@[simp]
theorem find_modify_self {f : α → α} {hf} : (t.modify i f hf).find i = (t.find i).map f := by
  simp [find_modify]

theorem find_modify_of_ne {f : α → α} {hf} (h : j ≠ i) :
    (t.modify i f hf).find j = t.find j := by
  simp [find_modify, h]

/-- A row of a modified table was there before, or is the modified one. -/
theorem find_modify_cases {f : α → α} {hf} (h : (t.modify i f hf).find j = some r) :
    t.find j = some r ∨ ∃ r₀, t.find j = some r₀ ∧ r = f r₀ := by
  by_cases hj : j = i
  · subst hj
    rw [find_modify_self] at h
    obtain ⟨r₀, hr₀, hr⟩ := Option.map_eq_some_iff.mp h
    exact .inr ⟨r₀, hr₀, hr.symm⟩
  · rw [find_modify_of_ne hj] at h
    exact .inl h

theorem find_modifyAll {p : α → Bool} {f : α → α} {hf} :
    (t.modifyAll p f hf).find j = (t.find j).map fun r => if p r then f r else r := rfl

@[simp]
theorem next_modifyAll {p : α → Bool} {f : α → α} {hf} : (t.modifyAll p f hf).next = t.next :=
  rfl

theorem mem_select {p : α → Bool} : r ∈ t.select p ↔ t.find (key r) = some r ∧ p r = true := by
  simp only [select, List.mem_filterMap, List.mem_range, Option.filter_eq_some_iff]
  constructor
  · rintro ⟨i, -, hi, hp⟩
    obtain rfl : key r = i := key_of_find hi
    exact ⟨hi, hp⟩
  · rintro ⟨hi, hp⟩
    exact ⟨key r, lt_next_of_find hi, hi, hp⟩

/-- No row satisfies the predicate of an empty selection. -/
theorem not_of_select_eq_nil {p : α → Bool} (h : t.select p = []) (hr : t.find i = some r) :
    p r = false := by
  by_contra hp
  have hmem : r ∈ t.select p := by
    rw [mem_select, key_of_find hr]
    exact ⟨hr, by simpa using hp⟩
  rw [h] at hmem
  cases hmem

/-- `select` returns its rows in key order. -/
theorem pairwise_select {p : α → Bool} : (t.select p).Pairwise fun r r' => key r < key r' := by
  unfold select
  rw [List.pairwise_filterMap]
  refine List.pairwise_lt_range.imp ?_
  intro i j hij r hr r' hr'
  rw [Option.filter_eq_some_iff] at hr hr'
  rwa [key_of_find hr.1, key_of_find hr'.1]

/-- A selection depends on the rows that it finds alone. -/
theorem select_congr {t' : Table α} {p p' : α → Bool}
    (h : ∀ i, (t.find i).filter p = (t'.find i).filter p') : t.select p = t'.select p' := by
  have hmem : ∀ r, r ∈ t.select p ↔ r ∈ t'.select p' := by
    intro r
    rw [mem_select, mem_select, ← Option.filter_eq_some_iff, ← Option.filter_eq_some_iff, h]
  have hsorted : ∀ {t : Table α} {p : α → Bool},
      (t.select p).Pairwise fun r r' => key r < key r' := pairwise_select
  have hperm : (t.select p).Perm (t'.select p') := by
    refine (List.perm_ext_iff_of_nodup ?_ ?_).mpr hmem
    · exact hsorted.imp fun hlt heq => absurd (heq ▸ hlt) (lt_irrefl _)
    · exact hsorted.imp fun hlt heq => absurd (heq ▸ hlt) (lt_irrefl _)
  exact hperm.eq_of_pairwise (fun r r' _ _ hlt hgt => absurd hgt (lt_asymm hlt)) hsorted hsorted

/-- The rows of a table, in key order. -/
def toList (t : Table α) : List α := t.select fun _ => true

theorem mem_toList : r ∈ t.toList ↔ t.find (key r) = some r := by
  rw [toList, mem_select]
  exact and_iff_left rfl

theorem select_eq_filter (t : Table α) (p : α → Bool) : t.select p = t.toList.filter p := by
  unfold toList select
  rw [List.filter_filterMap]
  refine List.filterMap_congr fun i _ => ?_
  cases t.rows i with
  | none => rfl
  | some r => cases p r <;> simp

theorem toList_insert {mk : ℕ → α} {hmk} :
    (t.insert mk hmk).toList = t.toList ++ [mk t.next] := by
  unfold toList select
  have hold : ∀ i ∈ List.range t.next, (t.insert mk hmk).rows i = t.rows i := by
    intro i hi
    exact if_neg (List.mem_range.mp hi).ne
  have hnew : (t.insert mk hmk).rows t.next = some (mk t.next) := if_pos rfl
  rw [next_insert, List.range_succ, List.filterMap_append]
  congr 1
  · exact List.filterMap_congr fun i hi => by rw [hold i hi]
  · simp [hnew]

theorem toList_modify {f : α → α} {hf} :
    (t.modify i f hf).toList = t.toList.map fun r => if key r = i then f r else r := by
  unfold toList select
  rw [next_modify, List.map_filterMap]
  refine List.filterMap_congr fun j _ => ?_
  change Option.filter _ (if j = i then (t.rows j).map f else t.rows j) = _
  cases hj : t.rows j with
  | none => split <;> rfl
  | some r =>
    have hkey := t.keyed j r hj
    change _ = some (if key r = i then f r else r)
    rw [hkey]
    split <;> rfl

end Table

-- ════════════════════════════════════════════════════════════════════════
-- Tables inside a store
-- ════════════════════════════════════════════════════════════════════════

/-- A table inside a store. -/
structure TableOf (σ α : Type) [Keyed α] where
  get : σ → Table α
  set : Table α → σ → σ

namespace Transaction

variable {σ ε α : Type} [Keyed α] {E : ε → Prop} {s : σ}

/-- `SELECT … WHERE id = i`. -/
def findRow (T : TableOf σ α) (i : ℕ) : Transaction σ ε (Option α) :=
  fun s => .ok ((T.get s).find i, s)

/-- `SELECT … WHERE p ORDER BY id`. -/
def selectRows (T : TableOf σ α) (p : α → Bool) : Transaction σ ε (List α) :=
  fun s => .ok ((T.get s).select p, s)

/-- `INSERT`, returning the generated key. -/
def insertRow (T : TableOf σ α) (mk : ℕ → α) (hmk : ∀ i, key (mk i) = i := by intro i; rfl) :
    Transaction σ ε ℕ :=
  fun s => .ok ((T.get s).next, T.set ((T.get s).insert mk hmk) s)

/-- `UPDATE … SET f WHERE id = i AND p`, returning the number of changed rows. -/
def updateRow (T : TableOf σ α) (i : ℕ) (p : α → Bool) (f : α → α)
    (hf : ∀ r, key (f r) = key r := by intro r; rfl) : Transaction σ ε ℕ :=
  fun s => match (T.get s).find i with
    | some r => if p r then .ok (1, T.set ((T.get s).modify i f hf) s) else .ok (0, s)
    | none => .ok (0, s)

/-- `UPDATE … SET f WHERE p`. -/
def updateRows (T : TableOf σ α) (p : α → Bool) (f : α → α)
    (hf : ∀ r, key (f r) = key r := by intro r; rfl) : Transaction σ ε Unit :=
  fun s => .ok ((), T.set ((T.get s).modifyAll p f hf) s)

@[simp]
theorem wp_findRow {T : TableOf σ α} {i : ℕ} {Q : Option α → σ → Prop} :
    wp (findRow T i : Transaction σ ε _) Q E s ↔ Q ((T.get s).find i) s := Iff.rfl

@[simp]
theorem wp_selectRows {T : TableOf σ α} {p : α → Bool} {Q : List α → σ → Prop} :
    wp (selectRows T p : Transaction σ ε _) Q E s ↔ Q ((T.get s).select p) s := Iff.rfl

theorem bind_selectRows {β : Type} {T : TableOf σ α} {p : α → Bool}
    {f : List α → Transaction σ ε β} :
    (selectRows T p >>= f) s = f ((T.get s).select p) s := rfl

@[simp]
theorem wp_insertRow {T : TableOf σ α} {mk : ℕ → α} {hmk} {Q : ℕ → σ → Prop} :
    wp (insertRow T mk hmk : Transaction σ ε _) Q E s ↔
      Q (T.get s).next (T.set ((T.get s).insert mk hmk) s) := Iff.rfl

@[simp]
theorem wp_updateRows {T : TableOf σ α} {p : α → Bool} {f : α → α} {hf} {Q : Unit → σ → Prop} :
    wp (updateRows T p f hf : Transaction σ ε _) Q E s ↔
      Q () (T.set ((T.get s).modifyAll p f hf) s) := Iff.rfl

/-- A fenced update either finds its row and changes it, or changes nothing. -/
theorem wp_updateRow {T : TableOf σ α} {i : ℕ} {p : α → Bool} {f : α → α} {hf}
    {Q : ℕ → σ → Prop} :
    wp (updateRow T i p f hf : Transaction σ ε _) Q E s ↔
      (∀ r, (T.get s).find i = some r → p r = true → Q 1 (T.set ((T.get s).modify i f hf) s)) ∧
      ((∀ r, (T.get s).find i = some r → p r = false) → Q 0 s) := by
  unfold wp updateRow
  cases h : (T.get s).find i with
  | none => simp
  | some r => cases hp : p r <;> simp [hp]

end Transaction
