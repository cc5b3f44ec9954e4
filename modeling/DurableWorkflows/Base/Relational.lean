import DurableWorkflows.Base.Table
import Mathlib.Data.List.Forall2

/-!
# Two runs side by side

Relational rules for transactions: two transactions, from two stores, abort together or
return in a relation. Reads of related tables return related rows, and updates that keep the
relation of two rows keep the relation of their tables.

## Main definitions

- `Transaction.wp₂`: the relational weakest precondition
- `Table.Related`: two tables with related rows under the same keys

## Main results

- `Transaction.wp₂_bind`, `Transaction.wp₂_forEach`: the sequencing and loop rules
- `Table.Related.select`, `Table.Related.modify`
- `Transaction.wp₂_updateRow`
-/

namespace Transaction

variable {σ ε α β γ δ : Type}

/-- From `s` and `t`, the transactions `x` and `y` both abort or both return with `Q`. -/
def wp₂ (x : Transaction σ ε α) (y : Transaction σ ε β) (Q : α → σ → β → σ → Prop) (s t : σ) :
    Prop :=
  match x s, y t with
  | .ok (a, s'), .ok (b, t') => Q a s' b t'
  | .error _, .error _ => True
  | _, _ => False

variable {x : Transaction σ ε α} {y : Transaction σ ε β} {s t : σ}

/-- If the first returns, so does the second. -/
theorem wp₂_ok {Q : α → σ → β → σ → Prop} (h : wp₂ x y Q s t) {a : α} {s' : σ}
    (hx : x s = .ok (a, s')) : ∃ b t', y t = .ok (b, t') ∧ Q a s' b t' := by
  unfold wp₂ at h
  rw [hx] at h
  cases hy : y t with
  | error e => rw [hy] at h; exact h.elim
  | ok r => rw [hy] at h; exact ⟨r.1, r.2, rfl, h⟩

/-- **Consequence rule**. -/
theorem wp₂_imp {Q Q' : α → σ → β → σ → Prop} (h : wp₂ x y Q s t)
    (hQ : ∀ a s' b t', Q a s' b t' → Q' a s' b t') : wp₂ x y Q' s t := by
  unfold wp₂ at h ⊢
  split at h
  · exact hQ _ _ _ _ h
  · trivial
  · exact h.elim

/-- One transaction on both sides, from the same store. -/
theorem wp₂_self {Q : α → σ → α → σ → Prop} (h : ∀ a s', x s = .ok (a, s') → Q a s' a s') :
    wp₂ x x Q s s := by
  unfold wp₂
  cases hx : x s with
  | error e => trivial
  | ok r => exact h r.1 r.2 hx

@[simp]
theorem wp₂_pure {Q : α → σ → β → σ → Prop} (a : α) (b : β) :
    wp₂ (pure a : Transaction σ ε α) (pure b : Transaction σ ε β) Q s t ↔ Q a s b t := Iff.rfl

@[simp]
theorem wp₂_read {Q : σ → σ → σ → σ → Prop} :
    wp₂ (read : Transaction σ ε σ) (read : Transaction σ ε σ) Q s t ↔ Q s s t t := Iff.rfl

@[simp]
theorem wp₂_modify {Q : Unit → σ → Unit → σ → Prop} (f g : σ → σ) :
    wp₂ (modify f : Transaction σ ε Unit) (modify g : Transaction σ ε Unit) Q s t ↔
      Q () (f s) () (g t) := Iff.rfl

/-- **Sequencing rule**. -/
theorem wp₂_bind {f : α → Transaction σ ε γ} {g : β → Transaction σ ε δ}
    {Q : γ → σ → δ → σ → Prop}
    (h : wp₂ x y (fun a s' b t' => wp₂ (f a) (g b) Q s' t') s t) :
    wp₂ (x >>= f) (y >>= g) Q s t := by
  change (match Transaction.bind x f s, Transaction.bind y g t with
    | .ok (a, s'), .ok (b, t') => Q a s' b t'
    | .error _, .error _ => True
    | _, _ => False)
  unfold wp₂ at h
  unfold Transaction.bind
  cases hx : x s <;> cases hy : y t <;> rw [hx, hy] at h
  · trivial
  · exact h.elim
  · exact h.elim
  · exact h

/-- A common first part, from the same store. -/
theorem wp₂_bind_self {f : α → Transaction σ ε γ} {g : α → Transaction σ ε δ}
    {Q : γ → σ → δ → σ → Prop}
    (h : ∀ a s', x s = .ok (a, s') → wp₂ (f a) (g a) Q s' s') :
    wp₂ (x >>= f) (x >>= g) Q s s :=
  wp₂_bind (wp₂_self h)

theorem wp₂_ensure {c c' : Prop} [Decidable c] [Decidable c'] {e e' : ε}
    {Q : Unit → σ → Unit → σ → Prop} (hc : c ↔ c') (h : c → Q () s () t) :
    wp₂ (ensure c e) (ensure c' e') Q s t := by
  unfold ensure
  by_cases hc' : c
  · rw [if_pos hc', if_pos (hc.mp hc')]
    exact h hc'
  · rw [if_neg hc', if_neg fun hd => hc' (hc.mpr hd)]
    trivial

theorem wp₂_orAbort {V : α → β → Prop} {o : Option α} {o' : Option β} {e e' : ε}
    {Q : α → σ → β → σ → Prop} (ho : Option.Rel V o o') (h : ∀ a b, V a b → Q a s b t) :
    wp₂ (orAbort o e) (orAbort o' e') Q s t := by
  cases ho with
  | none => trivial
  | some hV => exact h _ _ hV

/-- The same option on both sides. -/
theorem wp₂_orAbort_self (o : Option α) {e e' : ε} {Q : α → σ → α → σ → Prop}
    (h : ∀ a, o = some a → Q a s a t) : wp₂ (orAbort o e) (orAbort o e') Q s t := by
  cases o with
  | none => trivial
  | some a => exact h a rfl

theorem wp₂_ofExcept (r : Except ε α) {Q : α → σ → α → σ → Prop}
    (h : ∀ a, r = .ok a → Q a s a t) : wp₂ (ofExcept r) (ofExcept r) Q s t := by
  cases r with
  | error e => trivial
  | ok a => exact h a rfl

theorem wp₂_ite {c : Prop} [Decidable c] {x x' : Transaction σ ε α} {y y' : Transaction σ ε β}
    {Q : α → σ → β → σ → Prop} (h : c → wp₂ x y Q s t) (hn : ¬c → wp₂ x' y' Q s t) :
    wp₂ (if c then x else x') (if c then y else y') Q s t := by
  by_cases hc : c
  · rw [if_pos hc, if_pos hc]
    exact h hc
  · rw [if_neg hc, if_neg hc]
    exact hn hc

theorem wp₂_onlyIf {c : Prop} [Decidable c] {x y : Transaction σ ε Unit}
    {Q : Unit → σ → Unit → σ → Prop} (h : c → wp₂ x y Q s t) (hn : ¬c → Q () s () t) :
    wp₂ (onlyIf c x) (onlyIf c y) Q s t :=
  wp₂_ite h hn

/-- **Loop rule**: an invariant of the two stores, over two lists of related elements. -/
theorem wp₂_forEach {V : α → β → Prop} {R : σ → σ → Prop} {xs : List α} {ys : List β}
    {f : α → Transaction σ ε Unit} {g : β → Transaction σ ε Unit} (hxs : List.Forall₂ V xs ys)
    (hstep : ∀ x y s t, V x y → R s t → wp₂ (f x) (g y) (fun _ s' _ t' => R s' t') s t)
    (h : R s t) : wp₂ (forEach xs f) (forEach ys g) (fun _ s' _ t' => R s' t') s t := by
  induction hxs generalizing s t with
  | nil => exact h
  | cons hxy _ ih => exact wp₂_bind (wp₂_imp (hstep _ _ s t hxy h) fun _ _ _ _ hR => ih hR)

end Transaction

-- ════════════════════════════════════════════════════════════════════════
-- Related tables
-- ════════════════════════════════════════════════════════════════════════

namespace Table

variable {α : Type} [Keyed α] {V : α → α → Prop} {t u : Table α} {i : ℕ}

/-- The same keys, and related rows under each. -/
structure Related (V : α → α → Prop) (t u : Table α) : Prop where
  next : t.next = u.next
  rows : ∀ i, Option.Rel V (t.find i) (u.find i)

namespace Related

theorem refl (hV : ∀ r, V r r) (t : Table α) : Related V t t := by
  refine ⟨rfl, fun i => ?_⟩
  cases t.find i with
  | none => exact .none
  | some r => exact .some (hV r)

/-- Related rows are selected together. -/
theorem select (h : Related V t u) {p q : α → Bool} (hp : ∀ r r', V r r' → p r = q r') :
    List.Forall₂ V (t.select p) (u.select q) := by
  have hfilter : ∀ i, Option.Rel V ((t.rows i).filter p) ((u.rows i).filter q) := by
    intro i
    have hi : Option.Rel V (t.rows i) (u.rows i) := h.rows i
    cases ht : t.rows i <;> cases hu : u.rows i <;> rw [ht, hu] at hi <;> cases hi
    · exact .none
    · rename_i r r' hV
      rw [Option.filter_some, Option.filter_some, hp r r' hV]
      split
      · exact .some hV
      · exact .none
  unfold Table.select
  rw [h.next]
  refine List.rel_filterMap (R := Eq) ?_ (List.forall₂_same.mpr fun _ _ => rfl)
  rintro i _ rfl
  exact hfilter i

/-- One row changes on each side. -/
theorem modify (h : Related V t u) {f g : α → α} {hf hg}
    (hV : ∀ r r', t.find i = some r → u.find i = some r' → V r r' → V (f r) (g r')) :
    Related V (t.modify i f hf) (u.modify i g hg) := by
  refine ⟨h.next, fun j => ?_⟩
  by_cases hj : j = i
  · subst hj
    rw [find_modify_self, find_modify_self]
    have hrow := h.rows j
    cases ht : t.find j <;> cases hu : u.find j <;> rw [ht, hu] at hrow <;> cases hrow
    · exact .none
    · rename_i r r' hrr'
      exact .some (hV r r' ht hu hrr')
  · rw [find_modify_of_ne hj, find_modify_of_ne hj]
    exact h.rows j

end Related

end Table

namespace Transaction

variable {σ ε α : Type} [Keyed α] {V : α → α → Prop} {s t : σ} {T : TableOf σ α}

/-- Selections by predicates that agree on related rows. -/
theorem wp₂_selectRows {p q : α → Bool} {Q : List α → σ → List α → σ → Prop}
    (h : Table.Related V (T.get s) (T.get t)) (hp : ∀ r r', V r r' → p r = q r')
    (hQ : ∀ rows rows', List.Forall₂ V rows rows' → Q rows s rows' t) :
    wp₂ (selectRows T p : Transaction σ ε (List α)) (selectRows T q) Q s t :=
  hQ _ _ (h.select hp)

/-- Updates of the row under one key, with fences that agree on related rows, change the same
number of rows. -/
theorem wp₂_updateRow {i : ℕ} {p q : α → Bool} {f g : α → α} {hf hg}
    {Q : ℕ → σ → ℕ → σ → Prop} (h : Table.Related V (T.get s) (T.get t))
    (hp : ∀ r r', V r r' → p r = q r')
    (hV : ∀ r r', p r = true → V r r' → V (f r) (g r'))
    (hchanged : Table.Related V ((T.get s).modify i f hf) ((T.get t).modify i g hg) →
      Q 1 (T.set ((T.get s).modify i f hf) s) 1 (T.set ((T.get t).modify i g hg) t))
    (hkept : Q 0 s 0 t) :
    wp₂ (updateRow T i p f hf : Transaction σ ε ℕ) (updateRow T i q g hg) Q s t := by
  have hrow := h.rows i
  unfold wp₂ updateRow
  cases hs : (T.get s).find i <;> cases ht : (T.get t).find i <;> rw [hs, ht] at hrow <;>
    cases hrow
  · exact hkept
  · rename_i r r' hrr'
    have hpq := hp r r' hrr'
    cases hq : q r' with
    | false =>
      simp only [hpq, hq, Bool.false_eq_true, if_false]
      exact hkept
    | true =>
      simp only [hpq, hq, if_true]
      refine hchanged (h.modify fun r₁ r₁' h₁ _ hrr₁ => ?_)
      rw [hs] at h₁
      cases h₁
      exact hV r r₁' (hpq.trans hq) hrr₁

end Transaction
