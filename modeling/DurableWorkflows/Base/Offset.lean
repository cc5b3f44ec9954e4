import Mathlib.Algebra.Order.Ring.Int
import Mathlib.Data.Int.Init
import Mathlib.Tactic.Ring

/-!
# Clocks with an offset that changes

A clock shows at every instant that instant with an offset. Where the offset
grows the clock skips the times of a gap, where it drops it shows the times of a
fold again. The changes are sparse: further apart than a span, and than the fold
at the later one takes.

## Main definitions

- `Offset.shown`, `Offset.Change`, `Offset.Sparse`

## Main results

- `Offset.Sparse.shown_le_of_change`: after a change the clock never goes back behind it
- `Offset.shown_or_skipped`: a time between two shown times is shown or skipped between them
- `Offset.Sparse.first_le`: a later time is not shown for the first time earlier
- `Offset.Sparse.unique_after_skipped`: the time at the end of a gap is shown once
-/

namespace Offset

variable {offset : ℤ → ℤ} {span : ℤ} {a b c i j t : ℤ}

/-- The time that is shown at an instant. -/
def shown (offset : ℤ → ℤ) (i : ℤ) : ℤ := i + offset i

/-- The offset changes at an instant. -/
def Change (offset : ℤ → ℤ) (i : ℤ) : Prop := offset (i - 1) ≠ offset i

/-- Offsets that are smaller than a span, whose changes are more than the span apart; a fold
longer than the span is shorter than the time since the change before it. -/
structure Sparse (span : ℤ) (offset : ℤ → ℤ) : Prop where
  lower : ∀ i, -span < offset i
  upper : ∀ i, offset i < span
  apart : ∀ {i j}, i < j → Change offset i → Change offset j → span < j - i
  fold : ∀ {i j}, i < j → Change offset i → span < offset (j - 1) - offset j →
    offset (j - 1) - offset j < j - i

/-- Without a change the offset stays. -/
theorem eq_of_no_change (hle : a ≤ b) (h : ∀ c, a < c → c ≤ b → ¬Change offset c) :
    offset a = offset b := by
  induction b, hle using Int.leInduction with
  | base => rfl
  | succ b hab ih =>
    have hlast : offset b = offset (b + 1) := by
      have hstay := h (b + 1) (by omega) le_rfl
      rwa [Change, not_not, add_sub_cancel_right] at hstay
    rw [ih fun c hac hcb => h c hac (by omega), hlast]

/-- A time between two shown times is shown between them, or skipped by a gap between them. -/
theorem shown_or_skipped (hle : a ≤ b) (ha : shown offset a ≤ t) (hb : t ≤ shown offset b) :
    (∃ i, a ≤ i ∧ i ≤ b ∧ shown offset i = t) ∨
      ∃ c, a < c ∧ c ≤ b ∧ shown offset (c - 1) < t ∧ t < shown offset c := by
  induction b, hle using Int.leInduction with
  | base => exact .inl ⟨a, le_rfl, le_rfl, le_antisymm ha hb⟩
  | succ b hab ih =>
    rcases le_or_gt t (shown offset b) with hbefore | hafter
    · rcases ih hbefore with ⟨i, hai, hib, hi⟩ | ⟨c, hac, hcb, hc⟩
      · exact .inl ⟨i, hai, by omega, hi⟩
      · exact .inr ⟨c, hac, by omega, hc⟩
    · rcases eq_or_lt_of_le hb with heq | hlt
      · exact .inl ⟨b + 1, by omega, le_rfl, heq.symm⟩
      · refine .inr ⟨b + 1, by omega, le_rfl, ?_, hlt⟩
        rwa [add_sub_cancel_right]

/-- A gap is a change. -/
theorem change_of_skipped (hbefore : shown offset (c - 1) < t) (hafter : t < shown offset c) :
    Change offset c := by
  unfold shown at hbefore hafter
  intro heq
  omega

namespace Sparse

variable (h : Sparse span offset)
include h

/-- A fold is shorter than the time since the change before it. -/
theorem fold_lt (hlt : i < j) (hi : Change offset i) (hfold : offset j < offset (j - 1)) :
    offset (j - 1) - offset j < j - i := by
  by_cases hlong : span < offset (j - 1) - offset j
  · exact h.fold hlt hi hlong
  · have hapart := h.apart hlt hi fun heq => by omega
    omega

/-- A fold returns to a time since the change before it. -/
theorem shown_fold (hlt : i < j) (hi : Change offset i) (hfold : offset j < offset (j - 1)) :
    i < j - (offset (j - 1) - offset j) ∧
      shown offset (j - (offset (j - 1) - offset j)) = shown offset j := by
  have hsize := h.fold_lt hlt hi hfold
  refine ⟨by omega, ?_⟩
  have hstay : offset (j - (offset (j - 1) - offset j)) = offset (j - 1) := by
    refine eq_of_no_change (by omega) fun c hc hcj hchange => ?_
    have := h.fold_lt (by omega) hchange hfold
    omega
  unfold shown
  omega

/-- After a change the clock never goes back behind it. -/
theorem shown_le_of_change (hc : Change offset c) (hle : c ≤ b) :
    shown offset c ≤ shown offset b := by
  obtain ⟨n, rfl⟩ := Int.le.dest hle
  induction n using Nat.strong_induction_on with
  | _ n ih =>
    by_contra hback
    have hpos : 0 < n := by
      by_contra hzero
      rw [Nat.eq_zero_of_not_pos hzero, Nat.cast_zero, add_zero] at hback
      exact hback le_rfl
    have hbefore := ih (n - 1) (by omega) (by omega)
    rw [show c + ((n - 1 : ℕ) : ℤ) = c + n - 1 by omega] at hbefore
    -- the last instant before is still past the change, so that the fold reaches back behind it
    have hfold : offset (c + n) < offset (c + n - 1) := by
      unfold shown at hbefore hback
      omega
    obtain ⟨hlt, hshown⟩ := h.shown_fold (by omega) hc hfold
    set size := offset (c + n - 1) - offset (c + n) with hsize
    have hsame := ih (n - size.toNat) (by omega) (by omega)
    rw [show c + ((n - size.toNat : ℕ) : ℤ) = c + n - size by omega, hshown] at hsame
    exact hback hsame

/-- A span before a time is shown it has not been reached, a span after it has passed. -/
theorem shown_bounds (t : ℤ) : shown offset (t - span) < t ∧ t < shown offset (t + span) := by
  have hlower := h.lower (t + span)
  have hupper := h.upper (t - span)
  unfold shown
  omega

/-- A time that was passed was shown before, or a gap before skipped it. -/
theorem shown_or_skipped_before (hle : t ≤ shown offset i) :
    (∃ j, j ≤ i ∧ shown offset j = t) ∨
      ∃ c, c ≤ i ∧ shown offset (c - 1) < t ∧ t < shown offset c := by
  have hstart : t - span ≤ i := by
    have hupper := h.upper i
    unfold shown at hle
    omega
  rcases shown_or_skipped hstart (h.shown_bounds t).1.le hle with ⟨j, -, hji, hj⟩ | ⟨c, -, hci, hc⟩
  · exact .inl ⟨j, hji, hj⟩
  · exact .inr ⟨c, hci, hc⟩

/-- A time that a gap skips is not shown after it. -/
theorem lt_shown_of_skipped (hbefore : shown offset (c - 1) < t) (hafter : t < shown offset c)
    (hle : c ≤ i) : t < shown offset i :=
  hafter.trans_le (h.shown_le_of_change (change_of_skipped hbefore hafter) hle)

/-- A later time is not shown for the first time earlier. -/
theorem first_le {t' : ℤ} (hle : t ≤ t') (hi : shown offset i = t)
    (hfirst : ∀ k, shown offset k = t → i ≤ k) (hj : shown offset j = t') : i ≤ j := by
  by_contra hlt
  rcases h.shown_or_skipped_before (hle.trans hj.ge) with ⟨k, hkj, hk⟩ | ⟨c, hcj, hc, hc'⟩
  · have := hfirst k hk
    omega
  · have := h.lt_shown_of_skipped hc hc' (show c ≤ i by omega)
    omega

/-- The times that are never shown are skipped by a gap. -/
theorem skipped (hnever : ∀ i, shown offset i ≠ t) :
    ∃ c, shown offset (c - 1) < t ∧ t < shown offset c := by
  rcases h.shown_or_skipped_before (h.shown_bounds t).2.le with ⟨j, -, hj⟩ | ⟨c, -, hc⟩
  · exact absurd hj (hnever j)
  · exact ⟨c, hc⟩

/-- With offsets and changes in whole units, the unit of time after one that is never shown is
shown once at most. -/
theorem unique_after_skipped {unit : ℤ} (hunit : 0 < unit) (hwhole : ∀ i, unit ∣ offset i)
    (hchange : ∀ c, Change offset c → unit ∣ c) (hnever : ∀ i, shown offset i ≠ t)
    (hi : shown offset i = t + unit) (hj : shown offset j = t + unit) : i = j := by
  wlog hlt : i < j generalizing i j
  · rcases lt_trichotomy i j with hij | hij | hji
    · exact this hi hj hij
    · exact hij
    · exact (this hj hi hji).symm
  exfalso
  have hdvd : ∀ c, Change offset c → unit ∣ shown offset c := fun c hc =>
    Int.dvd_add (hchange c hc) (hwhole c)
  -- the gap over the time, and the first change after it
  obtain ⟨k, hki, hk⟩ | ⟨g, hgi, hg, hg'⟩ := h.shown_or_skipped_before (t := t) (i := i) (by omega)
  · exact hnever k hk
  have hgap := change_of_skipped hg hg'
  obtain ⟨c, hgc, hcj, hc, hstay⟩ : ∃ c, g < c ∧ c ≤ j ∧ Change offset c ∧
      ∀ d, g < d → d < c → ¬Change offset d := by
    by_contra hnone
    have hconst : ∀ n : ℕ, ∀ d, g < d → d ≤ j → d ≤ g + n → ¬Change offset d := by
      intro n
      induction n with
      | zero => intro d hgd _ hdn; omega
      | succ n ih =>
        intro d hgd hdj hdn hd
        exact hnone ⟨d, hgd, hdj, hd, fun e hge hed => ih e hge (by omega) (by omega)⟩
    have hsame : offset i = offset j := eq_of_no_change hlt.le fun d hid hdj =>
      hconst (j - g).toNat d (by omega) hdj (by omega)
    unfold shown at hi hj
    omega
  -- the clock shows the same at both, since both are whole and within one unit
  have hgle := h.shown_le_of_change hgap hgc.le
  have hcle := h.shown_le_of_change hc hcj
  obtain ⟨m, hm⟩ := hdvd g hgap
  obtain ⟨n, hn⟩ := hdvd c hc
  have hmn : m = n := by
    have hlt₁ : unit * n < unit * (m + 1) := by rw [mul_add, mul_one]; omega
    have hlt₂ : unit * m < unit * (n + 1) := by rw [mul_add, mul_one]; omega
    have h₁ := lt_of_mul_lt_mul_left hlt₁ hunit.le
    have h₂ := lt_of_mul_lt_mul_left hlt₂ hunit.le
    omega
  have hshown : shown offset g = shown offset c := by rw [hm, hn, hmn]
  have hbefore : offset g = offset (c - 1) := eq_of_no_change (by omega) fun d hgd hdc =>
    hstay d hgd (by omega)
  have hfold : offset c < offset (c - 1) := by
    unfold shown at hshown
    omega
  have hsize := h.fold_lt hgc hgap hfold
  unfold shown at hshown
  omega

end Sparse

end Offset
