import Mathlib.Data.Nat.Notation

/-!
# Programs that ask one thing at a time

A resumption is a program seen from outside: in each of its states it has a
result, or it makes a request and says how it goes on with the response. It may
go on for ever. `Answers` is one straight execution against an environment that
answers every request once.

## Main definitions

- `View`, `Resumption`: a program and what it shows
- `Resumption.Answers`: the executions with the requests and responses in order

## Main results

- `Resumption.Answers.take`: an execution has all its prefixes
-/

/-- What a program in a state shows. -/
inductive View (σ Request Response Result : Type)
  | done (result : Result)
  | asks (request : Request) (next : Response → σ)

/-- A program that asks for one thing at a time. -/
structure Resumption (Request Response Result : Type) where
  State : Type
  start : State
  view : State → View State Request Response Result

namespace Resumption

variable {Request Response Result : Type} {p : Resumption Request Response Result}
variable {σ τ : p.State} {answers : List (Request × Response)} {q : Request} {r : Response}

/-- An execution from one state to another, with the requests the program makes and the
responses it gets, in order. -/
inductive Answers (p : Resumption Request Response Result) :
    p.State → List (Request × Response) → p.State → Prop
  | nil (σ : p.State) : Answers p σ [] σ
  | cons {σ τ : p.State} {q : Request} {r : Response} {next : Response → p.State}
      {answers : List (Request × Response)} (h : p.view σ = .asks q next)
      (rest : Answers p (next r) answers τ) : Answers p σ ((q, r) :: answers) τ

/-- The first answer of an execution. -/
theorem Answers.uncons (h : p.Answers σ ((q, r) :: answers) τ) :
    ∃ next, p.view σ = .asks q next ∧ p.Answers (next r) answers τ := by
  cases h with
  | cons h rest => exact ⟨_, h, rest⟩

/-- A program that has a result is given no answers. -/
theorem Answers.eq_nil_of_done {result : Result} (h : p.Answers σ answers τ)
    (hview : p.view σ = .done result) : answers = [] ∧ τ = σ := by
  cases h with
  | nil => exact ⟨rfl, rfl⟩
  | cons h rest => cases hview.symm.trans h

/-- The state after the first answers shows the request that is answered next. -/
theorem Answers.take (h : p.Answers σ answers τ) (n : ℕ) :
    ∃ υ, p.Answers σ (answers.take n) υ ∧
      ∀ q r, answers[n]? = some (q, r) → ∃ next, p.view υ = .asks q next := by
  induction h generalizing n with
  | nil σ => exact ⟨σ, by simpa using .nil σ, by simp⟩
  | cons h rest ih =>
    cases n with
    | zero =>
      refine ⟨_, .nil _, fun q r hq => ?_⟩
      cases Option.some_inj.mp hq
      exact ⟨_, h⟩
    | succ n =>
      obtain ⟨υ, hυ, hview⟩ := ih n
      exact ⟨υ, .cons h hυ, hview⟩

end Resumption
