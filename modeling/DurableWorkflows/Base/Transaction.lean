import Mathlib.Data.List.Basic
import Mathlib.Data.Nat.Find

/-!
# Atomic transactions with rollback

A transaction reads and writes a store of type `σ` and either returns a value
together with the new store or aborts with an error. An aborted transaction
returns no store: it rolls back to the one it started from.

## Main definitions

- `Transaction σ ε α`: transactions over the store `σ` with errors `ε`
- `Transaction.wp`: the weakest precondition of a transaction for a
  postcondition on results and a postcondition on errors
- `Transaction.Keeps`: a part of the store that a transaction never changes
- `Transaction.Raises`: what holds of every error a transaction aborts with

## Main results

- `Transaction.wp_bind`, `Transaction.wp_foldEach`: the sequencing and loop rules
- `Transaction.wp_mono`, `Transaction.wp_imp`: the consequence rules
- `Transaction.Keeps.bind`, `Transaction.Keeps.forEach`: the frame rules
- `Transaction.Raises.bind`, `Transaction.Raises.forEach`: the rules for errors
-/

/-- A transaction over the store `σ`: it aborts with an error or returns a
value and the changed store. -/
def Transaction (σ ε α : Type) : Type := σ → Except ε (α × σ)

namespace Transaction

variable {σ ε α β : Type}

/-- The transaction that changes nothing and returns `a`. -/
protected def pure (a : α) : Transaction σ ε α := fun s => .ok (a, s)

/-- Sequencing: an abort of the first part aborts the whole. -/
protected def bind (x : Transaction σ ε α) (f : α → Transaction σ ε β) : Transaction σ ε β :=
  fun s => match x s with
    | .ok (a, s') => f a s'
    | .error e => .error e

instance : Monad (Transaction σ ε) where
  pure := Transaction.pure
  bind := Transaction.bind

/-- Sequencing is associative. -/
theorem bind_bind {γ : Type} (x : Transaction σ ε α) (f : α → Transaction σ ε β)
    (g : β → Transaction σ ε γ) : (x >>= f) >>= g = x >>= fun a => f a >>= g := by
  funext s
  change Transaction.bind (Transaction.bind x f) g s =
    Transaction.bind x (fun a => Transaction.bind (f a) g) s
  unfold Transaction.bind
  cases x s <;> rfl

/-- Sequencing after a part that returns. -/
theorem bind_of_ok {x : Transaction σ ε α} {f : α → Transaction σ ε β} {s s' : σ} {a : α}
    (h : x s = .ok (a, s')) : (x >>= f) s = f a s' := by
  show Transaction.bind x f s = f a s'
  rw [Transaction.bind, h]

/-- Sequencing after a part that aborts. -/
theorem bind_of_error {x : Transaction σ ε α} {f : α → Transaction σ ε β} {s : σ} {e : ε}
    (h : x s = .error e) : (x >>= f) s = .error e := by
  show Transaction.bind x f s = .error e
  rw [Transaction.bind, h]

/-- Abort with `e`. -/
def abort (e : ε) : Transaction σ ε α := fun _ => .error e

/-- Read the whole store. -/
def read : Transaction σ ε σ := fun s => .ok (s, s)

/-- Replace the store by its image under `f`. -/
def modify (f : σ → σ) : Transaction σ ε Unit := fun s => .ok ((), f s)

/-- Abort with `e` unless `c` holds. -/
def ensure (c : Prop) [Decidable c] (e : ε) : Transaction σ ε Unit :=
  if c then pure () else abort e

/-- Run `x` only if `c` holds. -/
def onlyIf (c : Prop) [Decidable c] (x : Transaction σ ε Unit) : Transaction σ ε Unit :=
  if c then x else pure ()

/-- The value of an option, or an abort with `e`. -/
def orAbort (o : Option α) (e : ε) : Transaction σ ε α :=
  match o with
  | some a => pure a
  | none => abort e

/-- A computation that does not touch the store. -/
def ofExcept (r : Except ε α) : Transaction σ ε α :=
  match r with
  | .ok a => pure a
  | .error e => abort e

/-- Run `f` on the elements of a list in order. -/
def forEach : List α → (α → Transaction σ ε Unit) → Transaction σ ε Unit
  | [], _ => pure ()
  | x :: xs, f => do
    f x
    forEach xs f

/-- Run `f` on the elements of a list in order, threading an accumulator. -/
def foldEach : List α → β → (β → α → Transaction σ ε β) → Transaction σ ε β
  | [], b, _ => pure b
  | x :: xs, b, f => do
    let b' ← f b x
    foldEach xs b' f

-- ════════════════════════════════════════════════════════════════════════
-- Weakest preconditions
-- ════════════════════════════════════════════════════════════════════════

/-- From `s` the transaction `x` returns with `Q` or aborts with `E`. -/
def wp (x : Transaction σ ε α) (Q : α → σ → Prop) (E : ε → Prop) (s : σ) : Prop :=
  match x s with
  | .ok (a, s') => Q a s'
  | .error e => E e

variable {Q Q' : α → σ → Prop} {E E' : ε → Prop} {s : σ}

@[simp]
theorem wp_pure (a : α) : wp (pure a : Transaction σ ε α) Q E s ↔ Q a s := Iff.rfl

@[simp]
theorem wp_abort (e : ε) : wp (abort e : Transaction σ ε α) Q E s ↔ E e := Iff.rfl

@[simp]
theorem wp_read {Q : σ → σ → Prop} : wp (read : Transaction σ ε σ) Q E s ↔ Q s s := Iff.rfl

@[simp]
theorem wp_modify {Q : Unit → σ → Prop} (f : σ → σ) :
    wp (modify f : Transaction σ ε Unit) Q E s ↔ Q () (f s) := Iff.rfl

/-- **Sequencing rule**. -/
@[simp]
theorem wp_bind (x : Transaction σ ε α) (f : α → Transaction σ ε β) {R : β → σ → Prop} :
    wp (x >>= f) R E s ↔ wp x (fun a s' => wp (f a) R E s') E s := by
  change (match Transaction.bind x f s with | .ok (a, s') => R a s' | .error e => E e) ↔ _
  unfold Transaction.bind wp
  split <;> rename_i h <;> split at h <;> simp_all

@[simp]
theorem wp_map (x : Transaction σ ε α) (g : α → β) {R : β → σ → Prop} :
    wp (g <$> x) R E s ↔ wp x (fun a s' => R (g a) s') E s := by
  change wp (x >>= fun a => pure (g a)) R E s ↔ _
  simp

@[simp]
theorem wp_ensure {Q : Unit → σ → Prop} (c : Prop) [Decidable c] (e : ε) :
    wp (ensure c e) Q E s ↔ (c → Q () s) ∧ (¬c → E e) := by
  unfold ensure
  split <;> simp_all

@[simp]
theorem wp_onlyIf {Q : Unit → σ → Prop} (c : Prop) [Decidable c] (x : Transaction σ ε Unit) :
    wp (onlyIf c x) Q E s ↔ (c → wp x Q E s) ∧ (¬c → Q () s) := by
  unfold onlyIf
  split <;> simp_all

@[simp]
theorem wp_orAbort (o : Option α) (e : ε) :
    wp (orAbort o e) Q E s ↔ (∀ a, o = some a → Q a s) ∧ (o = none → E e) := by
  cases o <;> simp [orAbort]

@[simp]
theorem wp_ofExcept (r : Except ε α) :
    wp (ofExcept r) Q E s ↔ (∀ a, r = .ok a → Q a s) ∧ (∀ e, r = .error e → E e) := by
  cases r <;> simp [ofExcept]

theorem wp_ite (c : Prop) [Decidable c] (x y : Transaction σ ε α) :
    wp (if c then x else y) Q E s ↔ (c → wp x Q E s) ∧ (¬c → wp y Q E s) := by
  split <;> simp_all

/-- **Consequence rule**. -/
theorem wp_mono {x : Transaction σ ε α} (h : wp x Q E s) (hQ : ∀ a s', Q a s' → Q' a s')
    (hE : ∀ e, E e → E' e) : wp x Q' E' s := by
  unfold wp at h ⊢
  split at h
  · exact hQ _ _ h
  · exact hE _ h

/-- Two specifications of one transaction hold together. -/
theorem wp_and {x : Transaction σ ε α} (h : wp x Q E s) (h' : wp x Q' E' s) :
    wp x (fun a s' => Q a s' ∧ Q' a s') (fun e => E e ∧ E' e) s := by
  unfold wp at h h' ⊢
  cases hx : x s with
  | ok => simp only [hx] at h h' ⊢; exact ⟨h, h'⟩
  | error => simp only [hx] at h h' ⊢; exact ⟨h, h'⟩

/-- What holds whenever a transaction returns. -/
theorem wp_of_ok {x : Transaction σ ε α} (h : ∀ a s', x s = .ok (a, s') → Q a s') :
    wp x Q (fun _ => True) s := by
  unfold wp
  cases hx : x s with
  | ok r => exact h r.1 r.2 hx
  | error => trivial

theorem wp_true (x : Transaction σ ε α) (s : σ) : wp x (fun _ _ => True) (fun _ => True) s :=
  wp_of_ok fun _ _ _ => trivial

/-- The consequence rule for a fixed error postcondition. -/
theorem wp_imp {x : Transaction σ ε α} (h : wp x Q E s) (hQ : ∀ a s', Q a s' → Q' a s') :
    wp x Q' E s :=
  wp_mono h hQ fun _ he => he

/-- What `wp` says of a transaction that returned. -/
theorem wp_ok {x : Transaction σ ε α} (h : wp x Q E s) {a : α} {s' : σ} (hx : x s = .ok (a, s')) :
    Q a s' := by
  simpa [wp, hx] using h

/-- What `wp` says of a transaction that aborted. -/
theorem wp_error {x : Transaction σ ε α} (h : wp x Q E s) {e : ε} (hx : x s = .error e) : E e := by
  simpa [wp, hx] using h

/-- A transaction that is known to return. -/
theorem wp_eq_ok {x : Transaction σ ε α} {a : α} {s' : σ} (hx : x s = .ok (a, s')) (h : Q a s') :
    wp x Q E s := by
  rw [wp, hx]
  exact h

/-- A transaction that returns a result with `Q` exactly if `P` holds. -/
theorem wp_exists_iff {x : Transaction σ ε α} {Q : α → Prop} {P : Prop}
    (h : wp x (fun a _ => Q a ↔ P) (fun _ => ¬P) s) : (∃ a s', x s = .ok (a, s') ∧ Q a) ↔ P := by
  unfold wp at h
  split at h
  · rename_i a s' hx
    rw [hx, ← h]
    constructor
    · rintro ⟨a', _, hok, hq⟩
      cases hok
      exact hq
    · intro hq
      exact ⟨a, s', rfl, hq⟩
  · rename_i e hx
    rw [hx]
    refine iff_of_false ?_ h
    rintro ⟨_, _, hok, -⟩
    cases hok

/-- A transaction that returns a value exactly if `P` holds. -/
theorem wp_some_iff {x : Transaction σ ε (Option α)} {P : Prop}
    (h : wp x (fun o _ => o.isSome = true ↔ P) (fun _ => ¬P) s) :
    (∃ a s', x s = .ok (some a, s')) ↔ P := by
  rw [← wp_exists_iff h]
  constructor
  · rintro ⟨a, s', hok⟩
    exact ⟨some a, s', hok, rfl⟩
  · rintro ⟨o, s', hok, hsome⟩
    obtain ⟨a, rfl⟩ := Option.isSome_iff_exists.mp hsome
    exact ⟨a, s', hok⟩

/-- A transaction that cannot abort returns. -/
theorem wp_returns {x : Transaction σ ε α} (h : wp x Q (fun _ => False) s) :
    ∃ a s', x s = .ok (a, s') ∧ Q a s' := by
  unfold wp at h
  split at h
  · exact ⟨_, _, ‹_›, h⟩
  · exact h.elim

/-- **Loop rule**: an invariant of the processed prefix and the accumulator. -/
theorem wp_foldEach {xs : List α} {b : β} {f : β → α → Transaction σ ε β}
    (I : List α → β → σ → Prop)
    (hstep : ∀ pre x post, xs = pre ++ x :: post → ∀ b s, I pre b s →
      wp (f b x) (fun b' s' => I (pre ++ [x]) b' s') E s)
    (h0 : I [] b s) : wp (foldEach xs b f) (fun b' s' => I xs b' s') E s := by
  suffices H : ∀ pre post, xs = pre ++ post → ∀ b s, I pre b s →
      wp (foldEach post b f) (fun b' s' => I xs b' s') E s from H [] xs rfl b s h0
  intro pre post
  induction post generalizing pre with
  | nil =>
    intro hxs b s hs
    rw [foldEach, wp_pure, hxs, List.append_nil]
    exact hs
  | cons x post ih =>
    intro hxs b s hs
    rw [foldEach, wp_bind]
    refine wp_imp (hstep pre x post hxs b s hs) fun b' s' hs' => ?_
    exact ih (pre ++ [x]) (by simp [hxs]) b' s' hs'

/-- The loop rule without an accumulator. -/
theorem wp_forEach {xs : List α} {f : α → Transaction σ ε Unit} (I : List α → σ → Prop)
    (hstep : ∀ pre x post, xs = pre ++ x :: post → ∀ s, I pre s →
      wp (f x) (fun _ s' => I (pre ++ [x]) s') E s)
    (h0 : I [] s) : wp (forEach xs f) (fun _ s' => I xs s') E s := by
  have hfold : ∀ ys : List α, forEach ys f = foldEach ys () fun _ x => f x := by
    intro ys
    induction ys with
    | nil => rfl
    | cons x ys ih => rw [forEach, foldEach, ih]
  rw [hfold]
  exact wp_foldEach (fun pre _ s => I pre s) (fun pre x post h _ s => hstep pre x post h s) h0

-- ════════════════════════════════════════════════════════════════════════
-- Frames
-- ════════════════════════════════════════════════════════════════════════

/-- Whenever it returns, the transaction leaves what `f` reads alone. -/
def Keeps {γ : Type} (f : σ → γ) (x : Transaction σ ε α) : Prop :=
  ∀ s, wp x (fun _ s' => f s' = f s) (fun _ => True) s

namespace Keeps

variable {γ : Type} {f : σ → γ}

theorem ok {x : Transaction σ ε α} (h : Keeps f x) {a : α} {s' : σ} (hx : x s = .ok (a, s')) :
    f s' = f s :=
  wp_ok (h s) hx

/-- A specification of a transaction, with its frame. -/
theorem wp_and {x : Transaction σ ε α} (h : Keeps f x) {Q : α → σ → Prop}
    (hx : wp x Q (fun _ => True) s) :
    wp x (fun a s' => Q a s' ∧ f s' = f s) (fun _ => True) s :=
  wp_mono (Transaction.wp_and hx (h s)) (fun _ _ hQ => hQ) fun _ _ => trivial

theorem pure (a : α) : Keeps f (pure a : Transaction σ ε α) := fun _ => rfl

theorem bind {x : Transaction σ ε α} {g : α → Transaction σ ε β} (hx : Keeps f x)
    (hg : ∀ a, Keeps f (g a)) : Keeps f (x >>= g) := by
  intro s
  rw [wp_bind]
  refine wp_imp (hx s) fun a s' hs' => ?_
  exact wp_imp (hg a s') fun _ s'' hs'' => hs''.trans hs'

theorem read : Keeps f (read : Transaction σ ε σ) := fun _ => rfl

theorem modify {g : σ → σ} (h : ∀ s, f (g s) = f s) :
    Keeps f (modify g : Transaction σ ε Unit) := h

theorem orAbort (o : Option α) (e : ε) : Keeps f (orAbort o e : Transaction σ ε α) := by
  intro s
  rw [wp_orAbort]
  exact ⟨fun _ _ => rfl, fun _ => trivial⟩

theorem ofExcept (r : Except ε α) : Keeps f (ofExcept r : Transaction σ ε α) := by
  intro s
  rw [wp_ofExcept]
  exact ⟨fun _ _ => rfl, fun _ _ => trivial⟩

theorem ite {c : Prop} [Decidable c] {x y : Transaction σ ε α} (hx : Keeps f x) (hy : Keeps f y) :
    Keeps f (if c then x else y) := by
  split
  · exact hx
  · exact hy

theorem ensure (c : Prop) [Decidable c] (e : ε) : Keeps f (ensure c e : Transaction σ ε Unit) :=
  .ite (.pure ()) fun _ => trivial

theorem onlyIf {c : Prop} [Decidable c] {x : Transaction σ ε Unit} (hx : Keeps f x) :
    Keeps f (onlyIf c x) :=
  .ite hx (.pure ())

theorem forEach {xs : List α} {g : α → Transaction σ ε Unit} (h : ∀ x, Keeps f (g x)) :
    Keeps f (forEach xs g) := by
  induction xs with
  | nil => exact .pure ()
  | cons x xs ih => exact .bind (h x) fun _ => ih

end Keeps

-- ════════════════════════════════════════════════════════════════════════
-- Errors
-- ════════════════════════════════════════════════════════════════════════

/-- Whenever it aborts, the transaction does so with an error of `E`. -/
def Raises (E : ε → Prop) (x : Transaction σ ε α) : Prop := ∀ s, wp x (fun _ _ => True) E s

namespace Raises

/-- A specification of a transaction, with its errors. -/
theorem wp_and {x : Transaction σ ε α} (h : Raises E x) {Q : α → σ → Prop}
    (hx : wp x Q E' s) : wp x Q E s :=
  wp_mono (Transaction.wp_and hx (h s)) (fun _ _ hQ => hQ.1) fun _ hE => hE.2

theorem pure (a : α) : Raises E (pure a : Transaction σ ε α) := fun _ => trivial

theorem abort {e : ε} (h : E e) : Raises E (abort e : Transaction σ ε α) := fun _ => h

theorem read : Raises E (read : Transaction σ ε σ) := fun _ => trivial

theorem modify (g : σ → σ) : Raises E (modify g : Transaction σ ε Unit) := fun _ => trivial

theorem bind {x : Transaction σ ε α} {g : α → Transaction σ ε β} (hx : Raises E x)
    (hg : ∀ a, Raises E (g a)) : Raises E (x >>= g) := by
  intro s
  rw [wp_bind]
  exact wp_imp (hx s) fun a s' _ => hg a s'

theorem orAbort (o : Option α) {e : ε} (h : E e) :
    Raises E (orAbort o e : Transaction σ ε α) := by
  cases o with
  | none => exact .abort h
  | some a => exact .pure a

theorem ofExcept {r : Except ε α} (h : ∀ e, r = .error e → E e) :
    Raises E (ofExcept r : Transaction σ ε α) := by
  cases r with
  | ok a => exact .pure a
  | error e => exact .abort (h e rfl)

/-- A computation whose result the rest depends on. -/
theorem ofExcept_bind {r : Except ε α} {g : α → Transaction σ ε β}
    (h : ∀ e, r = .error e → E e) (hg : ∀ a, r = .ok a → Raises E (g a)) :
    Raises E (Transaction.ofExcept r >>= g) := by
  intro s
  rw [wp_bind, wp_ofExcept]
  exact ⟨fun a ha => hg a ha s, h⟩

theorem ite {c : Prop} [Decidable c] {x y : Transaction σ ε α} (hx : c → Raises E x)
    (hy : ¬c → Raises E y) : Raises E (if c then x else y) := by
  by_cases hc : c
  · rw [if_pos hc]
    exact hx hc
  · rw [if_neg hc]
    exact hy hc

theorem ensure (c : Prop) [Decidable c] {e : ε} (h : E e) :
    Raises E (ensure c e : Transaction σ ε Unit) :=
  .ite (fun _ => .pure ()) fun _ => .abort h

theorem onlyIf {c : Prop} [Decidable c] {x : Transaction σ ε Unit} (hx : Raises E x) :
    Raises E (onlyIf c x) :=
  .ite (fun _ => hx) fun _ => .pure ()

theorem forEach {xs : List α} {g : α → Transaction σ ε Unit} (h : ∀ x, Raises E (g x)) :
    Raises E (forEach xs g) := by
  induction xs with
  | nil => exact .pure ()
  | cons x xs ih => exact .bind (h x) fun _ => ih

end Raises

end Transaction
