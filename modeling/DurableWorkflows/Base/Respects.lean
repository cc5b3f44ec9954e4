import DurableWorkflows.Base.Table
import Mathlib.Order.Defs.Unbundled

/-!
# Relations that transactions respect

A transaction respects a relation on the store if it relates the store it met to the one it
leaves, whenever it returns. A preorder is respected by the transactions that are composed of
those that respect it, so that what a program may do to the store is read off its statements.

## Main definitions

- `Transaction.Respects`

## Main results

- `Transaction.Respects.seq`, `Transaction.Respects.bind`, `Transaction.Respects.forEach`, `Transaction.Respects.foldEach`: the
  rules for sequences and loops
- `Transaction.Respects.updateRow` and the rules after it: statements on one table
-/

namespace Transaction

variable {σ ε α β : Type}

/-- Whenever it returns, the transaction relates the store it met to the one it leaves. -/
def Respects (R : σ → σ → Prop) (x : Transaction σ ε α) : Prop :=
  ∀ s, wp x (fun _ s' => R s s') (fun _ => True) s

namespace Respects

variable {R : σ → σ → Prop} {s s' : σ}

theorem ok {x : Transaction σ ε α} {a : α} (h : Respects R x) (hx : x s = .ok (a, s')) : R s s' :=
  wp_ok (h s) hx

theorem mono {R' : σ → σ → Prop} {x : Transaction σ ε α} (h : Respects R x)
    (hR : ∀ s s', R s s' → R' s s') : Respects R' x :=
  fun s => wp_imp (h s) fun _ s' => hR s s'

/-- A specification of a transaction, with the relation it respects. -/
theorem wp_and {x : Transaction σ ε α} {Q : α → σ → Prop} {E : ε → Prop} (h : Respects R x)
    (hx : wp x Q E s) : wp x (fun a s' => Q a s' ∧ R s s') E s :=
  wp_mono (Transaction.wp_and hx (h s)) (fun _ _ hQ => hQ) fun _ hE => hE.1

theorem abort (e : ε) : Respects R (abort e : Transaction σ ε α) := fun _ => trivial

theorem modify {g : σ → σ} (h : ∀ s, R s (g s)) :
    Respects R (modify g : Transaction σ ε Unit) := h

theorem ite_of {c : Prop} [Decidable c] {x y : Transaction σ ε α} (hx : c → Respects R x)
    (hy : ¬c → Respects R y) : Respects R (if c then x else y) := by
  split
  · exact hx ‹_›
  · exact hy ‹_›

theorem ite {c : Prop} [Decidable c] {x y : Transaction σ ε α} (hx : Respects R x)
    (hy : Respects R y) : Respects R (if c then x else y) :=
  ite_of (fun _ => hx) fun _ => hy

/-- Two parts that respect relations of their own. -/
theorem seq {S T : σ → σ → Prop} {x : Transaction σ ε α} {g : α → Transaction σ ε β}
    (hx : Respects R x) (hg : ∀ a, Respects S (g a))
    (h : ∀ s s' s'', R s s' → S s' s'' → T s s'') : Respects T (x >>= g) := by
  intro s
  rw [wp_bind]
  refine wp_imp (hx s) fun a s' hs' => ?_
  exact wp_imp (hg a s') fun _ s'' hs'' => h s s' s'' hs' hs''

/-- A row that has to be there, with what is done with it. -/
theorem lookup [Keyed α] {T : TableOf σ α} {i : ℕ} {e : ε} {S : α → σ → σ → Prop}
    {g : α → Transaction σ ε β} (h : ∀ r, Respects (S r) (g r)) :
    Respects (fun s s' => ∃ r, (T.get s).find i = some r ∧ S r s s')
      (findRow T i >>= fun o => Transaction.orAbort o e >>= g) := by
  intro s
  rw [wp_bind, wp_findRow, wp_bind, wp_orAbort]
  refine ⟨fun r hr => wp_imp (h r s) fun _ s' hs' => ⟨r, hr, hs'⟩, fun _ => trivial⟩

/-- What follows a check may rely on it. -/
theorem ensure_bind {c : Prop} [Decidable c] {e : ε} {g : Unit → Transaction σ ε β}
    (h : c → Respects R (g ())) : Respects R (Transaction.ensure c e >>= g) := by
  intro s
  rw [wp_bind, wp_ensure]
  exact ⟨fun hc => h hc s, fun _ => trivial⟩

/-- What was read satisfies what it was selected by. -/
theorem selectRows_bind [Keyed α] {T : TableOf σ α} {p : α → Bool}
    {g : List α → Transaction σ ε β} (h : ∀ rows, (∀ r ∈ rows, p r = true) → Respects R (g rows)) :
    Respects R (selectRows T p >>= g) := by
  intro s
  exact h ((T.get s).select p) (fun r hr => (Table.mem_select.mp hr).2) s

-- ════════════════════════════════════════════════════════════════════════
-- Statements on one table
-- ════════════════════════════════════════════════════════════════════════

section Tables

variable [Keyed α] {T : TableOf σ α}

theorem insertRow {mk : ℕ → α} {hmk} (h : ∀ t s, R s (T.set t s)) :
    Respects R (insertRow T mk hmk : Transaction σ ε ℕ) := fun s => h _ s

theorem updateRows {p : α → Bool} {f : α → α} {hf} (h : ∀ t s, R s (T.set t s)) :
    Respects R (updateRows T p f hf : Transaction σ ε Unit) := fun s => h _ s

end Tables

variable [IsPreorder σ R]

theorem pure (a : α) : Respects R (pure a : Transaction σ ε α) := fun s => Std.Refl.refl s

theorem read : Respects R (read : Transaction σ ε σ) := fun s => Std.Refl.refl s

theorem bind {x : Transaction σ ε α} {g : α → Transaction σ ε β} (hx : Respects R x)
    (hg : ∀ a, Respects R (g a)) : Respects R (x >>= g) :=
  seq hx hg fun s s' s'' => IsTrans.trans s s' s''

theorem orAbort (o : Option α) (e : ε) : Respects R (orAbort o e : Transaction σ ε α) := by
  cases o with
  | none => exact .abort e
  | some a => exact .pure a

theorem ofExcept (r : Except ε α) : Respects R (ofExcept r : Transaction σ ε α) := by
  cases r with
  | error e => exact .abort e
  | ok a => exact .pure a

theorem ensure (c : Prop) [Decidable c] (e : ε) :
    Respects R (ensure c e : Transaction σ ε Unit) :=
  .ite (.pure ()) (.abort e)

theorem onlyIf {c : Prop} [Decidable c] {x : Transaction σ ε Unit} (hx : Respects R x) :
    Respects R (onlyIf c x) :=
  .ite hx (.pure ())

theorem forEach_of {xs : List α} {g : α → Transaction σ ε Unit} (h : ∀ x ∈ xs, Respects R (g x)) :
    Respects R (forEach xs g) := by
  induction xs with
  | nil => exact .pure ()
  | cons x xs ih =>
    obtain ⟨hx, hxs⟩ := List.forall_mem_cons.mp h
    exact .bind hx fun _ => ih hxs

theorem forEach {xs : List α} {g : α → Transaction σ ε Unit} (h : ∀ x, Respects R (g x)) :
    Respects R (forEach xs g) :=
  forEach_of fun x _ => h x

theorem foldEach {xs : List α} {b : β} {g : β → α → Transaction σ ε β}
    (h : ∀ b x, Respects R (g b x)) : Respects R (foldEach xs b g) := by
  induction xs generalizing b with
  | nil => exact .pure b
  | cons x xs ih => exact .bind (h b x) fun _ => ih

section Tables

variable [Keyed α] {T : TableOf σ α}

theorem findRow (i : ℕ) : Respects R (findRow T i : Transaction σ ε (Option α)) :=
  fun s => Std.Refl.refl s

theorem selectRows (p : α → Bool) : Respects R (selectRows T p : Transaction σ ε (List α)) :=
  fun s => Std.Refl.refl s

theorem updateRow {i : ℕ} {p : α → Bool} {f : α → α} {hf} (h : ∀ t s, R s (T.set t s)) :
    Respects R (updateRow T i p f hf : Transaction σ ε ℕ) := by
  intro s
  rw [wp_updateRow]
  exact ⟨fun _ _ _ => h _ s, fun _ => Std.Refl.refl s⟩

end Tables

end Respects

end Transaction
