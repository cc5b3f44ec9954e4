import Mathlib.Data.List.Basic
import Mathlib.Data.Nat.Notation

/-!
# Machines that run fallible actions

A machine executes actions on a state; an action either produces the next state
or fails, and a failed action leaves the state as it was.

## Main definitions

- `Machine.step`, `Machine.run`: one action and a list of actions
- `Machine.collect`: what the actions of a run contribute to a history
- `Machine.Along`: a condition on every action of a run
- `Machine.Traces`: a log made of what the successful actions of a run contribute

## Main results

- `Machine.run_invariant`: what every successful action keeps, every run keeps
- `Machine.run_invariant_along`: the same for the runs along a condition
- `Machine.run_related`: a preorder between the states before and after every
  successful action relates the ends of every run
- `Machine.run_collect`: what every action keeps of a state and a history
- `Machine.run_traces`: a log that every successful action extends
- `Machine.run_origin`: what holds after a run and not before it was brought
  about by one of its actions
-/

namespace Machine

variable {σ α ε : Type} (exec : σ → α → Except ε σ)

/-- The state after an action; a failed action changes nothing. -/
def step (s : σ) (a : α) : σ :=
  match exec s a with
  | .ok s' => s'
  | .error _ => s

/-- The state after a list of actions. -/
def run (s : σ) (as : List α) : σ := as.foldl (step exec) s

/-- The contributions of the actions of a run, each taken in the state it met. -/
def collect {β : Type} (f : σ → α → List β) : σ → List α → List β
  | _, [] => []
  | s, a :: as => f s a ++ collect f (step exec s a) as

/-- Every action of a run satisfies `P` in the state it meets. -/
def Along (P : σ → α → Prop) : σ → List α → Prop
  | _, [] => True
  | s, a :: as => P s a ∧ Along P (step exec s a) as

/-- A log made of what the successful actions of a run contribute to it, in their order. -/
inductive Traces {β : Type} (R : σ → α → σ → List β → Prop) : σ → List α → List β → Prop
  | nil {s : σ} : Traces R s [] []
  | ok {s s' : σ} {a : α} {as : List α} {out rest : List β} (h : exec s a = .ok s')
      (hout : R s a s' out) (hrest : Traces R s' as rest) : Traces R s (a :: as) (out ++ rest)
  | error {s : σ} {a : α} {as : List α} {e : ε} {rest : List β} (h : exec s a = .error e)
      (hrest : Traces R s as rest) : Traces R s (a :: as) rest

variable {exec} {s s' : σ} {a : α}

theorem step_of_ok (h : exec s a = .ok s') : step exec s a = s' := by
  simp [step, h]

theorem step_of_error {e : ε} (h : exec s a = .error e) : step exec s a = s := by
  simp [step, h]

/-- An action that succeeds leads to the next state. -/
theorem exec_of_isOk (h : (exec s a).isOk = true) : exec s a = .ok (step exec s a) := by
  cases hexec : exec s a with
  | ok s' => rw [step_of_ok hexec]
  | error e =>
    rw [hexec] at h
    cases h

@[simp]
theorem run_nil (s : σ) : run exec s [] = s := rfl

@[simp]
theorem run_cons (s : σ) (a : α) (as : List α) :
    run exec s (a :: as) = run exec (step exec s a) as := rfl

@[simp]
theorem run_append (s : σ) (as bs : List α) :
    run exec s (as ++ bs) = run exec (run exec s as) bs :=
  List.foldl_append

/-- A property kept by successful actions is kept by `step`. -/
theorem step_invariant {P : σ → Prop} (hstep : ∀ s a s', P s → exec s a = .ok s' → P s')
    (h : P s) (a : α) : P (step exec s a) := by
  unfold step
  split
  · exact hstep _ _ _ h ‹_›
  · exact h

/-- **Invariant rule**. -/
theorem run_invariant {P : σ → Prop} (hstep : ∀ s a s', P s → exec s a = .ok s' → P s')
    (h : P s) (as : List α) : P (run exec s as) := by
  induction as generalizing s with
  | nil => exact h
  | cons a as ih => exact ih (step_invariant hstep h a)

/-- A condition on the actions of a run that does not depend on the states they meet. -/
theorem along_of_forall {P : α → Prop} {as : List α} (h : ∀ a ∈ as, P a) :
    Along exec (fun _ a => P a) s as := by
  induction as generalizing s with
  | nil => trivial
  | cons a as ih =>
    obtain ⟨ha, has⟩ := List.forall_mem_cons.mp h
    exact ⟨ha, ih has⟩

/-- **Guarded invariant rule**: what every successful action that satisfies `P` keeps, every
run along `P` keeps. -/
theorem run_invariant_along {P : σ → α → Prop} {I : σ → Prop}
    (hstep : ∀ s a s', I s → P s a → exec s a = .ok s' → I s') (h : I s) {as : List α}
    (has : Along exec P s as) : I (run exec s as) := by
  induction as generalizing s with
  | nil => exact h
  | cons a as ih =>
    obtain ⟨ha, has⟩ := has
    refine ih ?_ has
    unfold step
    split
    · exact hstep _ _ _ h ha ‹_›
    · exact h

/-- **Preorder rule**: under an invariant `P`, a preorder that every successful
action respects relates the two ends of a run. -/
theorem run_related {P : σ → Prop} {R : σ → σ → Prop}
    (hP : ∀ s a s', P s → exec s a = .ok s' → P s') (hrefl : ∀ s, R s s)
    (htrans : ∀ s s' s'', R s s' → R s' s'' → R s s'')
    (hstep : ∀ s a s', P s → exec s a = .ok s' → R s s')
    (h : P s) (as : List α) : R s (run exec s as) := by
  induction as generalizing s with
  | nil => exact hrefl s
  | cons a as ih =>
    refine htrans _ _ _ ?_ (ih (step_invariant hP h a))
    unfold step
    split
    · exact hstep _ _ _ h ‹_›
    · exact hrefl s

/-- **History rule**: a relation between the state and what was collected so
far that every action keeps, every run keeps. -/
theorem run_collect {β : Type} {f : σ → α → List β} {P : σ → List β → Prop}
    (hstep : ∀ s acc a, P s acc → P (step exec s a) (acc ++ f s a)) {acc : List β} (h : P s acc)
    (as : List α) : P (run exec s as) (acc ++ collect exec f s as) := by
  induction as generalizing s acc with
  | nil => simpa [collect] using h
  | cons a as ih => simpa [collect] using ih (hstep s acc a h)

/-- **Log rule**: a log that every successful action extends is made of what the actions of a
run contribute. -/
theorem run_traces {β : Type} {P : σ → Prop} {f : σ → List β} {R : σ → α → σ → List β → Prop}
    (hP : ∀ s a s', P s → exec s a = .ok s' → P s')
    (hstep : ∀ s a s', P s → exec s a = .ok s' → ∃ out, f s' = f s ++ out ∧ R s a s' out)
    (h : P s) (as : List α) : ∃ out, f (run exec s as) = f s ++ out ∧ Traces exec R s as out := by
  induction as generalizing s with
  | nil => exact ⟨[], (List.append_nil _).symm, .nil⟩
  | cons a as ih =>
    cases hexec : exec s a with
    | ok s' =>
      obtain ⟨out, hout, hR⟩ := hstep s a s' h hexec
      obtain ⟨rest, hrest, htraces⟩ := ih (hP s a s' h hexec)
      refine ⟨out ++ rest, ?_, .ok hexec hR htraces⟩
      rw [run_cons, step_of_ok hexec, hrest, hout, List.append_assoc]
    | error e =>
      obtain ⟨rest, hrest, htraces⟩ := ih h
      refine ⟨rest, ?_, .error hexec htraces⟩
      rw [run_cons, step_of_error hexec, hrest]

/-- **Origin rule**: a property that only actions satisfying `O` bring about
holds at the start of a run or was brought about by one of its actions. -/
theorem run_origin {P Q : σ → Prop} {O : σ → α → σ → Prop}
    (hP : ∀ s a s', P s → exec s a = .ok s' → P s')
    (hstep : ∀ s a s', P s → exec s a = .ok s' → Q s' → Q s ∨ O s a s')
    (h : P s) (as : List α) (hQ : Q (run exec s as)) :
    Q s ∨ ∃ pre a post s', as = pre ++ a :: post ∧ exec (run exec s pre) a = .ok s' ∧
      O (run exec s pre) a s' := by
  induction as generalizing s with
  | nil => exact .inl hQ
  | cons a as ih =>
    obtain hstep' | ⟨pre, b, post, s', rfl, hok, hO⟩ := ih (step_invariant hP h a) hQ
    · cases hexec : exec s a with
      | error e => exact .inl (step_of_error hexec ▸ hstep')
      | ok s' =>
        rw [step_of_ok hexec] at hstep'
        exact (hstep s a s' h hexec hstep').imp_right fun hO => ⟨[], a, as, s', rfl, hexec, hO⟩
    · exact .inr ⟨a :: pre, b, post, s', rfl, hok, hO⟩

end Machine
