import Mathlib.Data.Nat.Notation
import Mathlib.Logic.Function.Basic
import Mathlib.Logic.Relation
import Mathlib.Order.Nat

/-!
# Decreasing pointers

A partial function on the natural numbers whose values are smaller than their
arguments: from every index the walk along the pointers ends, and it ends at one
index only. Rows with generated keys that point to older rows are of this form.

## Main definitions

- `Pointers.Decreasing`: every pointer leads to a smaller index
- `Pointers.Reaches`, `Pointers.EndsAt`: the walk from an index, and its end

## Main results

- `Pointers.EndsAt.unique`: the walk ends at one index at most
- `Pointers.reaches_update`: a new largest index changes no other walk
-/

namespace Pointers

variable {up : ℕ → Option ℕ} {i j k n : ℕ} {o : Option ℕ}

/-- Every pointer leads to a smaller index. -/
def Decreasing (up : ℕ → Option ℕ) : Prop := ∀ i j, up i = some j → j < i

/-- The walk from `i` comes to `j`. -/
def Reaches (up : ℕ → Option ℕ) : ℕ → ℕ → Prop := Relation.ReflTransGen fun i j => up i = some j

/-- The walk from `i` ends at `j`. -/
def EndsAt (up : ℕ → Option ℕ) (i j : ℕ) : Prop := Reaches up i j ∧ up j = none

theorem Reaches.refl : Reaches up i i := Relation.ReflTransGen.refl

theorem Reaches.trans (h : Reaches up i j) (h' : Reaches up j k) : Reaches up i k :=
  Relation.ReflTransGen.trans h h'

theorem Reaches.head (h : up i = some j) (h' : Reaches up j k) : Reaches up i k :=
  Relation.ReflTransGen.head h h'

theorem Reaches.tail (h : Reaches up i j) (h' : up j = some k) : Reaches up i k :=
  Relation.ReflTransGen.tail h h'

/-- The first step of a walk. -/
theorem reaches_iff_head : Reaches up i j ↔ i = j ∨ ∃ k, up i = some k ∧ Reaches up k j :=
  Relation.ReflTransGen.cases_head_iff

/-- The last step of a walk. -/
theorem reaches_iff_tail : Reaches up i j ↔ i = j ∨ ∃ k, Reaches up i k ∧ up k = some j := by
  rw [Reaches, Relation.ReflTransGen.cases_tail_iff]
  exact or_congr_left eq_comm

theorem Reaches.le (hdec : Decreasing up) (h : Reaches up i j) : j ≤ i := by
  induction h with
  | refl => exact le_rfl
  | tail _ hstep ih => exact (hdec _ _ hstep).le.trans ih

/-- Two indices on one walk are in order. -/
theorem Reaches.total (h : Reaches up i j) (h' : Reaches up i k) :
    Reaches up j k ∨ Reaches up k j := by
  refine Relation.ReflTransGen.total_of_right_unique (fun a b c hb hc => ?_) h h'
  rw [hb] at hc
  exact Option.some_inj.mp hc

/-- Two indices whose walks meet are in order, if no two pointers lead to one
index. -/
theorem Reaches.total_of_injective (hinj : ∀ i j k, up i = some k → up j = some k → i = j)
    (h : Reaches up i k) (h' : Reaches up j k) : Reaches up i j ∨ Reaches up j i := by
  have hback := Relation.ReflTransGen.total_of_right_unique
    (r := Function.swap fun i j => up i = some j) (fun a b c hb hc => hinj b c a hb hc)
    (Relation.reflTransGen_swap.mpr h) (Relation.reflTransGen_swap.mpr h')
  rcases hback with hij | hji
  · exact .inr (Relation.reflTransGen_swap.mp hij)
  · exact .inl (Relation.reflTransGen_swap.mp hji)

/-- Nothing is reached from the end of a walk but the end itself. -/
theorem Reaches.eq_of_none (h : Reaches up i j) (hi : up i = none) : i = j := by
  rcases reaches_iff_head.mp h with rfl | ⟨k, hk, -⟩
  · rfl
  · rw [hi] at hk
    cases hk

/-- A walk ends at one index only. -/
theorem EndsAt.unique (h : EndsAt up i j) (h' : EndsAt up i k) : j = k := by
  rcases h.1.total h'.1 with hjk | hkj
  · exact hjk.eq_of_none h.2
  · exact (hkj.eq_of_none h'.2).symm

/-- A walk ends where the walk from any index on it ends. -/
theorem EndsAt.of_reaches (h : Reaches up i j) (h' : EndsAt up j k) : EndsAt up i k :=
  ⟨h.trans h'.1, h'.2⟩

theorem Reaches.congr {up' : ℕ → Option ℕ} (hdec : Decreasing up)
    (hsame : ∀ k, k ≤ i → up' k = up k) (h : Reaches up i j) : Reaches up' i j := by
  induction h with
  | refl => exact .refl
  | tail hreach hstep ih => exact ih.tail ((hsame _ (Reaches.le hdec hreach)).trans hstep)

section Update

variable (hdec : Decreasing up) (hn : ∀ j, o = some j → j < n)

include hdec hn

theorem decreasing_update : Decreasing (Function.update up n o) := by
  intro i j h
  by_cases hi : i = n
  · subst hi
    rw [Function.update_self] at h
    exact hn j h
  · rw [Function.update_of_ne hi] at h
    exact hdec i j h

/-- A new pointer from `n` changes no walk from a smaller index. -/
theorem reaches_update (hi : i < n) :
    Reaches (Function.update up n o) i j ↔ Reaches up i j := by
  have hsame : ∀ k, k ≤ i → Function.update up n o k = up k := fun k hk =>
    Function.update_of_ne (hk.trans_lt hi).ne _ _
  constructor
  · exact Reaches.congr (decreasing_update hdec hn) fun k hk => (hsame k hk).symm
  · exact Reaches.congr hdec hsame

theorem endsAt_update (hi : i < n) :
    EndsAt (Function.update up n o) i j ↔ EndsAt up i j := by
  unfold EndsAt
  rw [reaches_update hdec hn hi]
  refine and_congr_right fun h => ?_
  rw [Function.update_of_ne ((Reaches.le hdec h).trans_lt hi).ne]

end Update

end Pointers
