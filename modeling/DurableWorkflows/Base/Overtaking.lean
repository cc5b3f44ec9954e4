import DurableWorkflows.Base.Keyset
import DurableWorkflows.Base.Machine
import DurableWorkflows.Base.Versions

/-!
# Bounded overtaking

Entries wait in a queue and are served in the order of their places. While an entry keeps its
place, nothing that arrives comes before it, and every turn of a server serves it or an entry
ahead of it. Then the number of the turns it waits is at most the number of the entries ahead
of it when it started to wait.

## Main definitions

- `Machine.turns`: the turns of a run

## Main results

- `Machine.run_overtaken`: the rank of an entry bounds the turns it waits
- `Table.card_keys_le`, `Table.card_keys_lt`: the number of the entries ahead as a rank
- `Keyset.find_take_le`: a server that skips held entries serves no entry behind a free one
-/

namespace Machine

variable {σ α ε : Type} (exec : σ → α → Except ε σ)

/-- The number of the turns of a run: the actions that satisfy `T` in the state they meet, and
succeed. -/
def turns (T : σ → α → Bool) : σ → List α → ℕ
  | _, [] => 0
  | s, a :: as => (if T s a && (exec s a).isOk then 1 else 0) + turns T (step exec s a) as

variable {exec} {T : σ → α → Bool} {I Waits : σ → Prop} {P : α → Prop} {rank : σ → ℕ} {s s' : σ}
  {a : α} {as : List α}

theorem turns_cons_of_ok (h : exec s a = .ok s') :
    turns exec T s (a :: as) = (if T s a then 1 else 0) + turns exec T s' as := by
  rw [turns, step_of_ok h, h]
  show (if (T s a && true) = true then 1 else 0) + _ = _
  rw [Bool.and_true]

theorem turns_cons_of_error {e : ε} (h : exec s a = .error e) :
    turns exec T s (a :: as) = turns exec T s as := by
  rw [turns, step_of_error h, h]
  show (if (T s a && false) = true then 1 else 0) + _ = _
  rw [Bool.and_false]
  exact Nat.zero_add _

/-- **Overtaking rule**: if no action raises the rank of an entry and every turn lowers it while
the entry waits, then the rank bounds the turns until an action ends the wait. -/
theorem run_overtaken (hI : ∀ s a s', I s → exec s a = .ok s' → I s')
    (hrank : ∀ s a s', I s → P a → exec s a = .ok s' → Waits s → Waits s' → rank s' ≤ rank s)
    (hturn : ∀ s a s', I s → P a → exec s a = .ok s' → Waits s → Waits s' → T s a = true →
      rank s' < rank s)
    (hs : I s) (hwaits : Waits s) (has : ∀ a ∈ as, P a) :
    turns exec T s as ≤ rank s ∨ ∃ pre a post s', as = pre ++ a :: post ∧
      exec (run exec s pre) a = .ok s' ∧ Waits (run exec s pre) ∧ ¬Waits s' ∧
      turns exec T s pre ≤ rank s := by
  induction as generalizing s with
  | nil => exact .inl (Nat.zero_le _)
  | cons a as ih =>
    obtain ⟨ha, has⟩ := List.forall_mem_cons.mp has
    cases hexec : exec s a with
    | error e =>
      -- a failed action is no turn
      obtain hbound | ⟨pre, b, post, s', rfl, hok, hpre, hleft, hbound⟩ := ih hs hwaits has
      · exact .inl ((turns_cons_of_error hexec).trans_le hbound)
      · refine .inr ⟨a :: pre, b, post, s', rfl, ?_, ?_, hleft,
          (turns_cons_of_error hexec).trans_le hbound⟩
        · rwa [run_cons, step_of_error hexec]
        · rwa [run_cons, step_of_error hexec]
    | ok s₁ =>
      by_cases hleft : Waits s₁
      · have hrest : ∀ n, n ≤ rank s₁ → (if T s a then 1 else 0) + n ≤ rank s := by
          intro n hn
          have hle := hrank s a s₁ hs ha hexec hwaits hleft
          split
          next hT =>
            have hlt := hturn s a s₁ hs ha hexec hwaits hleft hT
            omega
          · omega
        obtain hbound | ⟨pre, b, post, s', rfl, hok, hpre, hleft, hbound⟩ :=
          ih (hI s a s₁ hs hexec) hleft has
        · exact .inl ((turns_cons_of_ok hexec).trans_le (hrest _ hbound))
        · refine .inr ⟨a :: pre, b, post, s', rfl, ?_, ?_, hleft,
            (turns_cons_of_ok hexec).trans_le (hrest _ hbound)⟩
          · rwa [run_cons, step_of_ok hexec]
          · rwa [run_cons, step_of_ok hexec]
      · exact .inr ⟨[], a, as, s₁, rfl, hexec, hwaits, hleft, Nat.zero_le _⟩

end Machine

-- ════════════════════════════════════════════════════════════════════════
-- The entries ahead
-- ════════════════════════════════════════════════════════════════════════

namespace Table

variable {α : Type} [Keyed α] {t t' : Table α} {p : α → Bool} {i : ℕ} {r : α}

/-- Nothing joins. -/
theorem card_keys_le
    (h : ∀ i r', t'.find i = some r' → p r' = true → ∃ r, t.find i = some r ∧ p r = true) :
    (t'.keys p).card ≤ (t.keys p).card := by
  apply Finset.card_le_card
  intro i hi
  obtain ⟨r', hr', hp⟩ := mem_keys.mp hi
  exact mem_keys.mpr (h i r' hr' hp)

/-- Nothing joins, and a row leaves. -/
theorem card_keys_lt
    (h : ∀ i r', t'.find i = some r' → p r' = true → ∃ r, t.find i = some r ∧ p r = true)
    (hr : t.find i = some r) (hp : p r = true)
    (hleaves : ∀ r', t'.find i = some r' → p r' = false) :
    (t'.keys p).card < (t.keys p).card := by
  apply Finset.card_lt_card
  refine ⟨fun j hj => ?_, fun hsub => ?_⟩
  · obtain ⟨r', hr', hp'⟩ := mem_keys.mp hj
    exact mem_keys.mpr (h j r' hr' hp')
  · obtain ⟨r', hr', hp'⟩ := mem_keys.mp (hsub (mem_keys.mpr ⟨r, hr, hp⟩))
    rw [hleaves r' hr'] at hp'
    cases hp'

end Table

-- ════════════════════════════════════════════════════════════════════════
-- Turns
-- ════════════════════════════════════════════════════════════════════════

namespace Keyset

variable {α K : Type} [LinearOrder K] {key : α → K} {xs : List α} {x : α} {held : α → Bool} {n : ℕ}

/-- A server that tries the first `n` entries and skips those that are held serves an entry no
later than a free one that fewer than `n` held entries come before. -/
theorem find_take_le (hsorted : xs.Pairwise fun x y => key x < key y) (hx : x ∈ xs)
    (hfree : held x = false)
    (hn : (xs.filter fun y => held y && decide (key y < key x)).length < n) :
    ∃ y, (xs.take n).find? (fun y => !held y) = some y ∧ key y ≤ key x := by
  induction xs generalizing n with
  | nil => cases hx
  | cons y ys ih =>
    obtain ⟨hfirst, hsorted⟩ := List.pairwise_cons.mp hsorted
    obtain ⟨m, rfl⟩ := Nat.exists_eq_succ_of_ne_zero (Nat.ne_of_gt (Nat.zero_lt_of_lt hn))
    rw [List.take_succ_cons, List.find?_cons]
    cases hy : held y with
    | false =>
      refine ⟨y, rfl, ?_⟩
      obtain rfl | hmem := List.mem_cons.mp hx
      · exact le_rfl
      · exact (hfirst x hmem).le
    | true =>
      have hmem : x ∈ ys := by
        refine (List.mem_cons.mp hx).resolve_left ?_
        rintro rfl
        rw [hfree] at hy
        cases hy
      refine ih hsorted hmem ?_
      rw [List.filter_cons, if_pos (by simp [hy, hfirst x hmem]), List.length_cons] at hn
      exact Nat.lt_of_succ_lt_succ hn

end Keyset
