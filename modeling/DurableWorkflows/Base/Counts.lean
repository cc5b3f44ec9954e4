import Mathlib.Algebra.Order.BigOperators.Group.Finset
import Mathlib.Algebra.BigOperators.Group.Finset.Basic
import Mathlib.Algebra.Ring.Nat
import Mathlib.Data.List.AList

/-!
# Counts by key

A hash map of counters, and what it means that it counts the elements of a
multiset: an absent key counts none. Counting and discounting one element keep
that, and the counters then add up to the size of the multiset.

## Main definitions

- `Counts`: a map of counters
- `Counts.count`, `Counts.increment`, `Counts.total`: one counter, one more, and their sum
- `Counts.CountsOf`: the counters are those of a multiset

## Main results

- `Counts.CountsOf.increment`, `Counts.CountsOf.decrement`
- `Counts.CountsOf.total`: the counters add up to the size of the multiset
- `Counts.card_le_sum`: a multiset within the limits of its elements
-/

/-- A map of counters. -/
abbrev Counts (κ : Type) [DecidableEq κ] : Type := AList fun _ : κ => ℕ

namespace Counts

variable {κ : Type} [DecidableEq κ] {counts : Counts κ} {s : Multiset κ} {key key' : κ} {n : ℕ}

/-- The counter of a key, which counts none where it is absent. -/
def count (counts : Counts κ) (key : κ) : ℕ := (counts.lookup key).getD 0

/-- One more for a key, whose counter is created where it is absent. -/
def increment (counts : Counts κ) (key : κ) : Counts κ := counts.insert key (counts.count key + 1)

/-- The sum of the counters. -/
def total (counts : Counts κ) : ℕ := (counts.entries.map Sigma.snd).sum

/-- The counters are those of a multiset. -/
def CountsOf (counts : Counts κ) (s : Multiset κ) : Prop := ∀ key, counts.count key = s.count key

@[simp]
theorem count_empty : count (∅ : Counts κ) key = 0 := by
  rw [count, AList.lookup_empty, Option.getD_none]

@[simp]
theorem count_insert_self : count (counts.insert key n) key = n := by
  rw [count, AList.lookup_insert, Option.getD_some]

theorem count_insert_of_ne (h : key' ≠ key) : count (counts.insert key n) key' = counts.count key' := by
  rw [count, AList.lookup_insert_ne h, count]

@[simp]
theorem count_erase_self : count (counts.erase key) key = 0 := by
  rw [count, AList.lookup_erase, Option.getD_none]

theorem count_erase_of_ne (h : key' ≠ key) : count (counts.erase key) key' = counts.count key' := by
  rw [count, AList.lookup_erase_ne h, count]

namespace CountsOf

theorem empty : CountsOf (∅ : Counts κ) 0 := fun key => by simp

/-- An element that is counted has a counter, and it is not zero. -/
theorem lookup_of_mem (h : counts.CountsOf s) (hmem : key ∈ s) :
    counts.lookup key = some (s.count key) ∧ 0 < s.count key := by
  have hpos := Multiset.count_pos.mpr hmem
  refine ⟨?_, hpos⟩
  have hcount := h key
  rw [count] at hcount
  cases hlookup : counts.lookup key with
  | none =>
    rw [hlookup, Option.getD_none] at hcount
    exact absurd hcount.symm (Nat.ne_of_gt hpos)
  | some n =>
    rw [hlookup, Option.getD_some] at hcount
    rw [hcount]

theorem increment (h : counts.CountsOf s) (key : κ) : (counts.increment key).CountsOf (key ::ₘ s) := by
  intro key'
  by_cases hkey : key' = key
  · subst hkey
    rw [Counts.increment, count_insert_self, h, Multiset.count_cons_self]
  · rw [Counts.increment, count_insert_of_ne hkey, h, Multiset.count_cons_of_ne hkey]

/-- The counter of one element fewer. -/
theorem decrement (h : counts.CountsOf s) (hn : n = s.count key - 1) :
    CountsOf (counts.insert key n) (s.erase key) := by
  intro key'
  by_cases hkey : key' = key
  · subst hkey
    rw [count_insert_self, hn, Multiset.count_erase_self]
  · rw [count_insert_of_ne hkey, h, Multiset.count_erase_of_ne hkey]

/-- The counter of an element, and the counters after it has left. -/
theorem leave (h : counts.CountsOf (key ::ₘ s)) :
    counts.lookup key = some (s.count key + 1) ∧ CountsOf (counts.insert key (s.count key)) s := by
  have hcount := Multiset.count_cons_self key s
  constructor
  · rw [(h.lookup_of_mem (Multiset.mem_cons_self key s)).1, hcount]
  · rw [← Multiset.erase_cons_head key s]
    exact h.decrement (by rw [Multiset.erase_cons_head, hcount, Nat.add_sub_cancel])

/-- A counter that is zero may be dropped. -/
theorem erase (h : counts.CountsOf s) (hzero : s.count key = 0) : CountsOf (counts.erase key) s := by
  intro key'
  by_cases hkey : key' = key
  · subst hkey
    rw [count_erase_self, hzero]
  · rw [count_erase_of_ne hkey, h]

/-- The counters add up to the size of the multiset. -/
theorem total (h : counts.CountsOf s) : counts.total = Multiset.card s := by
  have hentries : counts.entries.map Sigma.snd = counts.keys.map s.count := by
    rw [AList.keys, List.keys, List.map_map]
    refine List.map_congr_left fun entry hentry => ?_
    have hlookup := AList.mem_lookup_iff.mpr hentry
    rw [Function.comp_apply, ← h, count, Option.mem_def.mp hlookup, Option.getD_some]
  have hkeys : ∀ key ∈ s, key ∈ counts.keys.toFinset := by
    intro key hmem
    rw [List.mem_toFinset, ← AList.mem_keys, ← AList.lookup_isSome, (h.lookup_of_mem hmem).1]
    rfl
  rw [Counts.total, hentries, ← List.sum_toFinset _ counts.keys_nodup]
  exact Multiset.sum_count_eq_card hkeys

end CountsOf

/-- A multiset whose counts are bounded by a limit of each key, which is zero but for the keys of
a list. -/
theorem card_le_sum {keys : List κ} {limit : κ → ℕ} (hkeys : keys.Nodup)
    (hcount : ∀ key, s.count key ≤ limit key) (hother : ∀ key, key ∉ keys → limit key = 0) :
    Multiset.card s ≤ (keys.map limit).sum := by
  have hmem : ∀ key ∈ s, key ∈ keys.toFinset := by
    intro key hkey
    rw [List.mem_toFinset]
    by_contra hnot
    have hle := hcount key
    rw [hother key hnot] at hle
    exact absurd (Multiset.count_pos.mpr hkey) (Nat.not_lt_of_le hle)
  rw [← Multiset.sum_count_eq_card hmem, ← List.sum_toFinset _ hkeys]
  exact Finset.sum_le_sum fun key _ => hcount key

end Counts
