import Mathlib.Data.Nat.Find
import Mathlib.Logic.Relation

/-!
# Loops

A loop is a body that in each state ends with a result or goes on to the next
state. It may go on for ever: `run` gives it fuel, and `Halts` says that some
fuel is enough.

## Main definitions

- `Loop.run`: the loop with fuel
- `Loop.Reaches`: the states a loop comes to
- `Loop.Halts`, `Loop.result`: the loops that end, and what they end with

## Main results

- `Loop.run_eq_some_iff`: a loop ends with a result exactly if it comes to a state whose body does
- `Loop.reaches_invariant`: what the body keeps holds in every state a loop comes to
-/

namespace Loop

variable {σ ρ : Type} (body : σ → ρ ⊕ σ)

/-- The loop with fuel. -/
def run : ℕ → σ → Option ρ
  | 0, _ => none
  | fuel + 1, s =>
    match body s with
    | .inl r => some r
    | .inr s' => run fuel s'

/-- The states a loop comes to. -/
def Reaches : σ → σ → Prop := Relation.ReflTransGen fun s s' => body s = .inr s'

/-- The loop ends. -/
def Halts (s : σ) : Prop := ∃ fuel, (run body fuel s).isSome

variable {body} {s s' : σ} {r : ρ}

theorem run_of_inl (h : body s = .inl r) (fuel : ℕ) : run body (fuel + 1) s = some r := by
  rw [run, h]

theorem run_of_inr (h : body s = .inr s') (fuel : ℕ) :
    run body (fuel + 1) s = run body fuel s' := by
  rw [run, h]

/-- More fuel does not change the result. -/
theorem run_succ {fuel : ℕ} (h : run body fuel s = some r) : run body (fuel + 1) s = some r := by
  induction fuel generalizing s with
  | zero => cases h
  | succ fuel ih =>
    cases hbody : body s with
    | inl r' =>
      rw [run_of_inl hbody] at h ⊢
      exact h
    | inr s' =>
      rw [run_of_inr hbody] at h ⊢
      exact ih h

theorem run_of_le {fuel fuel' : ℕ} (hle : fuel ≤ fuel') (h : run body fuel s = some r) :
    run body fuel' s = some r := by
  induction hle with
  | refl => exact h
  | step _ ih => exact run_succ ih

/-- Two runs that end have the same result. -/
theorem run_unique {fuel fuel' : ℕ} {r' : ρ} (h : run body fuel s = some r)
    (h' : run body fuel' s = some r') : r = r' := by
  rcases Nat.le_total fuel fuel' with hle | hle
  · exact Option.some.inj ((run_of_le hle h).symm.trans h')
  · exact Option.some.inj (h.symm.trans (run_of_le hle h'))

/-- A loop ends with a result exactly if it comes to a state whose body does. -/
theorem run_eq_some_iff :
    (∃ fuel, run body fuel s = some r) ↔ ∃ s', Reaches body s s' ∧ body s' = .inl r := by
  constructor
  · rintro ⟨fuel, h⟩
    induction fuel generalizing s with
    | zero => cases h
    | succ fuel ih =>
      cases hbody : body s with
      | inl r' =>
        rw [run_of_inl hbody] at h
        cases h
        exact ⟨s, .refl, hbody⟩
      | inr s' =>
        rw [run_of_inr hbody] at h
        obtain ⟨last, hreach, hlast⟩ := ih h
        exact ⟨last, .head hbody hreach, hlast⟩
  · rintro ⟨last, hreach, hlast⟩
    induction hreach using Relation.ReflTransGen.head_induction_on with
    | refl => exact ⟨1, run_of_inl hlast 0⟩
    | head hbody _ ih =>
      obtain ⟨fuel, h⟩ := ih
      exact ⟨fuel + 1, (run_of_inr hbody fuel).trans h⟩

/-- **Invariant rule**. -/
theorem reaches_invariant {I : σ → Prop} (hbody : ∀ s s', I s → body s = .inr s' → I s')
    (h : I s) (hreach : Reaches body s s') : I s' := by
  induction hreach with
  | refl => exact h
  | tail _ hstep ih => exact hbody _ _ ih hstep

/-- What a loop that ends ends with. -/
def result (h : Halts body s) : ρ := (run body (Nat.find h) s).get (Nat.find_spec h)

theorem run_find (h : Halts body s) : run body (Nat.find h) s = some (result h) :=
  (Option.some_get _).symm

/-- The result is that of a state the loop comes to. -/
theorem result_spec (h : Halts body s) : ∃ s', Reaches body s s' ∧ body s' = .inl (result h) :=
  run_eq_some_iff.mp ⟨_, run_find h⟩

/-- A loop that ends comes to its last state from every state it comes to. -/
theorem result_of_reaches (h : Halts body s) (hreach : Reaches body s s') :
    ∃ last, Reaches body s' last ∧ body last = .inl (result h) := by
  induction hreach with
  | refl => exact result_spec h
  | @tail s₁ s₂ _ hstep ih =>
    obtain ⟨last, hlast, hbody⟩ := ih
    rcases Relation.ReflTransGen.cases_head hlast with rfl | ⟨next, hnext, hrest⟩
    · cases hstep.symm.trans hbody
    · cases hstep.symm.trans hnext
      exact ⟨last, hrest, hbody⟩

end Loop
