import DurableWorkflows.Base.Respects

/-!
# Changes of a table

Between two states of a table every row is kept, changed in a way that a preorder `K` allows,
and every new row satisfies `N`, also after it was changed again. A unique key is a column that
no two rows share unless it is null; a table keeps its unique keys as long as no column of a key
is changed and every insert has looked for duplicates.

## Main definitions

- `Table.Changes K N`: what happens to the rows of a table
- `Table.Preserves f`: no row goes away or changes in some columns
- `Table.Checks`, `Table.Unique`, `Table.References`: the constraints of a table

## Main results

- `Table.changes_insert`, `Table.changes_modify`, `Table.changes_modifyAll`: the three writes
- `Table.Changes.checks`, `Table.Unique.insert`, `Table.Unique.modify`: the constraints after a
  change
- `Transaction.Respects.updateRow_of`, `Transaction.Respects.updateRows_of`: statements whose
  writes respect a preorder
-/

open Keyed

namespace Table

variable {α β κ : Type} [Keyed α] [Keyed β] {K : α → α → Prop} {N : α → Prop}
  {t t' t'' : Table α} {i : ℕ} {r r' : α}

/-- Every row is kept and changed as `K` allows, and the new rows satisfy `N`. -/
structure Changes (K : α → α → Prop) (N : α → Prop) (t t' : Table α) : Prop where
  kept : ∀ i r, t.find i = some r → ∃ r', t'.find i = some r' ∧ K r r'
  added : ∀ i r', t.find i = none → t'.find i = some r' → N r'

namespace Changes

theorem refl [Std.Refl K] (t : Table α) : Changes K N t t where
  kept _ r hr := ⟨r, hr, Std.Refl.refl r⟩
  added _ _ hnone hr := by
    rw [hnone] at hr
    cases hr

theorem trans [IsTrans α K] (hN : ∀ r r', N r → K r r' → N r') (h : Changes K N t t')
    (h' : Changes K N t' t'') : Changes K N t t'' where
  kept i r hr := by
    obtain ⟨r', hr', hK⟩ := h.kept i r hr
    obtain ⟨r'', hr'', hK'⟩ := h'.kept i r' hr'
    exact ⟨r'', hr'', IsTrans.trans _ _ _ hK hK'⟩
  added i r'' hnone hr'' := by
    cases hr' : t'.find i with
    | none => exact h'.added i r'' hr' hr''
    | some r' =>
      obtain ⟨r₂, hr₂, hK⟩ := h'.kept i r' hr'
      obtain rfl := Option.some_inj.mp (hr₂.symm.trans hr'')
      exact hN r' r₂ (h.added i r' hnone hr') hK

/-- Where a row comes from. -/
theorem origin (h : Changes K N t t') (hr' : t'.find i = some r') :
    (∃ r, t.find i = some r ∧ K r r') ∨ t.find i = none ∧ N r' := by
  cases hr : t.find i with
  | none => exact .inr ⟨rfl, h.added i r' hr hr'⟩
  | some r =>
    obtain ⟨r₁, hr₁, hK⟩ := h.kept i r hr
    obtain rfl := Option.some_inj.mp (hr₁.symm.trans hr')
    exact .inl ⟨r, rfl, hK⟩

/-- What became of a row. -/
theorem of_find (h : Changes K N t t') (hr : t.find i = some r) (hr' : t'.find i = some r') :
    K r r' := by
  obtain ⟨r₁, hr₁, hK⟩ := h.kept i r hr
  obtain rfl := Option.some_inj.mp (hr₁.symm.trans hr')
  exact hK

end Changes

/-- Every row is there and has what it had in the columns `f`. -/
def Preserves {γ : Type} (f : α → γ) (t t' : Table α) : Prop :=
  ∀ i r, t.find i = some r → ∃ r', t'.find i = some r' ∧ f r' = f r

theorem Preserves.refl {γ : Type} (f : α → γ) (t : Table α) : Preserves f t t :=
  fun _ r hr => ⟨r, hr, rfl⟩

theorem Preserves.trans {γ : Type} {f : α → γ} (h : Preserves f t t') (h' : Preserves f t' t'') :
    Preserves f t t'' := by
  intro i r hr
  obtain ⟨r', hr', hf⟩ := h i r hr
  obtain ⟨r'', hr'', hf'⟩ := h' i r' hr'
  exact ⟨r'', hr'', hf'.trans hf⟩

theorem Changes.preserves {γ : Type} {f : α → γ} (h : Changes K N t t')
    (hK : ∀ r r', K r r' → f r' = f r) : Preserves f t t' := by
  intro i r hr
  obtain ⟨r', hr', hrow⟩ := h.kept i r hr
  exact ⟨r', hr', hK r r' hrow⟩

theorem changes_insert [Std.Refl K] {mk : ℕ → α} {hmk} (h : N (mk t.next)) :
    Changes K N t (t.insert mk hmk) where
  kept i r hr := by
    have hne : i ≠ t.next := (lt_next_of_find hr).ne
    exact ⟨r, by rw [find_insert, if_neg hne, hr], Std.Refl.refl r⟩
  added i r' hnone hr' := by
    rw [find_insert, hnone] at hr'
    split at hr'
    next hi =>
      cases hr'
      rwa [hi]
    · cases hr'

theorem changes_modify [Std.Refl K] {f : α → α} {hf}
    (h : ∀ r, t.find i = some r → K r (f r)) : Changes K N t (t.modify i f hf) where
  kept j r hr := by
    rw [find_modify, hr]
    by_cases hj : j = i
    · subst hj
      exact ⟨f r, if_pos rfl, h r hr⟩
    · exact ⟨r, if_neg hj, Std.Refl.refl r⟩
  added j r' hnone hr' := by
    rw [find_modify, hnone] at hr'
    split at hr' <;> cases hr'

theorem changes_modifyAll [Std.Refl K] {p : α → Bool} {f : α → α} {hf}
    (h : ∀ r, p r = true → K r (f r)) : Changes K N t (t.modifyAll p f hf) where
  kept j r hr := by
    rw [find_modifyAll, hr]
    by_cases hp : p r = true
    · exact ⟨f r, congrArg some (if_pos hp), h r hp⟩
    · exact ⟨r, congrArg some (if_neg hp), Std.Refl.refl r⟩
  added j r' hnone hr' := by
    rw [find_modifyAll, hnone] at hr'
    cases hr'

-- ════════════════════════════════════════════════════════════════════════
-- Constraints
-- ════════════════════════════════════════════════════════════════════════

/-- `CHECK`: every row satisfies a condition. -/
def Checks (P : α → Prop) (t : Table α) : Prop := ∀ i r, t.find i = some r → P r

/-- `UNIQUE`: no two rows share a key; a null is shared by any number of rows. -/
def Unique (column : α → Option κ) (t : Table α) : Prop :=
  ∀ i j r r' k, t.find i = some r → t.find j = some r' → column r = some k →
    column r' = some k → i = j

/-- `FOREIGN KEY`: a reference that is not null names a row of the other table. -/
def References (column : α → Option ℕ) (t : Table α) (u : Table β) : Prop :=
  ∀ i r j, t.find i = some r → column r = some j → ∃ r', u.find j = some r'

section Constraints

variable {P : α → Prop} {column : α → Option κ}

theorem checks_empty : Checks P (empty : Table α) := fun _ _ h => by cases h

theorem unique_empty : Unique column (empty : Table α) := fun _ _ _ _ _ h => by cases h

/-- A condition that the changes keep and that new rows satisfy. -/
theorem Changes.checks (h : Changes K N t t') (hK : ∀ r r', P r → K r r' → P r')
    (hN : ∀ r, N r → P r) (ht : Checks P t) : Checks P t' := by
  intro i r' hr'
  obtain ⟨r, hr, hrow⟩ | ⟨-, hrow⟩ := h.origin hr'
  · exact hK r r' (ht i r hr) hrow
  · exact hN r' hrow

/-- A write that leaves the column alone keeps it unique. -/
theorem Unique.map (h : Unique column t)
    (hrow : ∀ i r', t'.find i = some r' → ∃ r, t.find i = some r ∧ column r' = column r) :
    Unique column t' := by
  intro i j r₁ r₂ k hr₁ hr₂ hk₁ hk₂
  obtain ⟨r, hr, hcolumn⟩ := hrow i r₁ hr₁
  obtain ⟨r', hr', hcolumn'⟩ := hrow j r₂ hr₂
  exact h i j r r' k hr hr' (hcolumn ▸ hk₁) (hcolumn' ▸ hk₂)

theorem Unique.modify {f : α → α} {hf} (h : Unique column t)
    (hf' : ∀ r, t.find i = some r → column (f r) = column r) :
    Unique column (t.modify i f hf) := by
  refine h.map fun j r' hr' => ?_
  rw [find_modify] at hr'
  split at hr'
  next hj =>
    obtain ⟨r, hr, rfl⟩ := Option.map_eq_some_iff.mp hr'
    exact ⟨r, hr, hf' r (hj ▸ hr)⟩
  · exact ⟨r', hr', rfl⟩

theorem Unique.modifyAll {p : α → Bool} {f : α → α} {hf} (h : Unique column t)
    (hf' : ∀ r, column (f r) = column r) : Unique column (t.modifyAll p f hf) := by
  refine h.map fun j r' hr' => ?_
  rw [find_modifyAll] at hr'
  obtain ⟨r, hr, rfl⟩ := Option.map_eq_some_iff.mp hr'
  refine ⟨r, hr, ?_⟩
  split
  · exact hf' r
  · rfl

/-- An insert that has found no duplicate keeps a column unique. -/
theorem Unique.insert {mk : ℕ → α} {hmk} (h : Unique column t)
    (hnew : ∀ i r k, t.find i = some r → column r = some k → column (mk t.next) ≠ some k) :
    Unique column (t.insert mk hmk) := by
  intro i j r r' k hr hr' hk hk'
  rw [find_insert] at hr hr'
  by_cases hi : i = t.next <;> by_cases hj : j = t.next
  · rw [hi, hj]
  · rw [if_pos hi] at hr
    rw [if_neg hj] at hr'
    cases hr
    rw [hi] at hk
    exact absurd hk (hnew j r' k hr' hk')
  · rw [if_neg hi] at hr
    rw [if_pos hj] at hr'
    cases hr'
    rw [hj] at hk'
    exact absurd hk' (hnew i r k hr hk)
  · rw [if_neg hi] at hr
    rw [if_neg hj] at hr'
    exact h i j r r' k hr hr' hk hk'

end Constraints

end Table

namespace Transaction.Respects

variable {σ ε α : Type} {R : σ → σ → Prop}

section Tables

variable [Keyed α] {T : TableOf σ α}

/-- An update that respects a preorder on every row that it changes. -/
theorem updateRow_of [IsPreorder σ R] {i : ℕ} {p : α → Bool} {f : α → α} {hf}
    (h : ∀ s r, (T.get s).find i = some r → p r = true → R s (T.set ((T.get s).modify i f hf) s)) :
    Respects R (Transaction.updateRow T i p f hf : Transaction σ ε ℕ) := by
  intro s
  rw [wp_updateRow]
  exact ⟨h s, fun _ => Std.Refl.refl s⟩

theorem updateRows_of {p : α → Bool} {f : α → α} {hf}
    (h : ∀ s, R s (T.set ((T.get s).modifyAll p f hf) s)) :
    Respects R (Transaction.updateRows T p f hf : Transaction σ ε Unit) := h

end Tables

/-- What a computation returned may be used in what follows it. -/
theorem ofExcept_bind {β : Type} {x : Except ε β} {g : β → Transaction σ ε α}
    (h : ∀ a, x = .ok a → Respects R (g a)) : Respects R (Transaction.ofExcept x >>= g) := by
  cases x with
  | error e => exact .abort e
  | ok a => exact h a rfl

theorem orAbort_bind {β : Type} {o : Option β} {e : ε} {g : β → Transaction σ ε α}
    (h : ∀ a, o = some a → Respects R (g a)) : Respects R (Transaction.orAbort o e >>= g) := by
  cases o with
  | none => exact .abort e
  | some a => exact h a rfl

end Transaction.Respects
