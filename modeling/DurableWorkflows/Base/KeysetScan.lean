import DurableWorkflows.Base.Keyset
import Mathlib.Data.Finset.Card

/-!
# Keyset scans

A scan reads a list in pages while the list changes: a page is the first keys after the cursor as
its statement finds them, its keys are tried one by one, and the scan ends with the first key that
a try takes or with a page that is not full.

## Main definitions

- `Keyset.Tries`, `Keyset.Scans`: the tries of a page, and a scan with its statements

## Main results

- `Keyset.Scans.of_some`: what a scan takes
- `Keyset.Scans.of_none`, `Keyset.Scans.complete`: no key is passed over
- `Keyset.Scans.of_still`: what a scan of a still list takes
- `Keyset.card_above_lt`: a cursor that a full page moves
-/

namespace Keyset

variable {β K : Type}

-- ════════════════════════════════════════════════════════════════════════
-- Tries
-- ════════════════════════════════════════════════════════════════════════

/-- The tries of the keys of a page from the statement `t` on, each with its statement, and what
the last of them took. -/
inductive Tries (answer : ℕ → K → Option β) : ℕ → List K → List (ℕ × K) → Option β → Prop
  | nil {t} : Tries answer t [] [] none
  | taken {t k ks y} (h : answer t k = some y) : Tries answer t (k :: ks) [(t, k)] (some y)
  | skipped {t k ks tries found} (h : answer t k = none)
    (hrest : Tries answer (t + 1) ks tries found) :
    Tries answer t (k :: ks) ((t, k) :: tries) found

variable {answer : ℕ → K → Option β} {t : ℕ} {k last : K} {ks : List K} {tries : List (ℕ × K)}
  {y : β}

/-- Tries that take nothing try every key. -/
theorem Tries.of_none (h : Tries answer t ks tries none) :
    (∀ p ∈ tries, answer p.1 p.2 = none) ∧ ∀ k ∈ ks, ∃ s, (s, k) ∈ tries := by
  generalize hfound : (none : Option β) = found at h
  induction h with
  | nil => exact ⟨fun _ h => (nomatch h), fun _ h => nomatch h⟩
  | taken => cases hfound
  | @skipped t k ks tries _ hanswer _ ih =>
    subst hfound
    obtain ⟨hnone, hall⟩ := ih rfl
    refine ⟨List.forall_mem_cons.mpr ⟨hanswer, hnone⟩, List.forall_mem_cons.mpr ⟨?_, ?_⟩⟩
    · exact ⟨t, List.mem_cons_self⟩
    · exact fun j hj => (hall j hj).imp fun s hs => List.mem_cons_of_mem _ hs

/-- The last of the tries took what was found, and those before it took nothing. -/
theorem Tries.of_some (h : Tries answer t ks tries (some y)) :
    ∃ before p, tries = before ++ [p] ∧ p.2 ∈ ks ∧ answer p.1 p.2 = some y ∧
      ∀ q ∈ before, answer q.1 q.2 = none := by
  generalize hfound : some y = found at h
  induction h with
  | nil => cases hfound
  | @taken t k _ _ hanswer =>
    exact ⟨[], (t, k), rfl, List.mem_cons_self, hfound ▸ hanswer, fun _ h => nomatch h⟩
  | @skipped t k _ _ _ hanswer _ ih =>
    obtain ⟨before, p, rfl, hp, htaken, hnone⟩ := ih hfound
    exact ⟨(t, k) :: before, p, rfl, List.mem_cons_of_mem _ hp, htaken,
      List.forall_mem_cons.mpr ⟨hanswer, hnone⟩⟩

/-- The tries of a page are determined. -/
theorem Tries.unique {tries' : List (ℕ × K)} {found found' : Option β}
    (h : Tries answer t ks tries found) (h' : Tries answer t ks tries' found') :
    tries = tries' ∧ found = found' := by
  induction h generalizing tries' with
  | nil =>
    cases h'
    exact ⟨rfl, rfl⟩
  | taken hanswer =>
    cases h' with
    | taken hanswer' =>
      rw [hanswer] at hanswer'
      exact ⟨rfl, hanswer'⟩
    | skipped hanswer' =>
      rw [hanswer] at hanswer'
      cases hanswer'
  | skipped hanswer _ ih =>
    cases h' with
    | taken hanswer' =>
      rw [hanswer] at hanswer'
      cases hanswer'
    | skipped _ hrest' =>
      obtain ⟨rfl, rfl⟩ := ih hrest'
      exact ⟨rfl, rfl⟩

/-- Tries whose answers do not depend on the statement take the first key that is taken. -/
theorem Tries.of_still {f : K → Option β} {found : Option β}
    (h : Tries (fun _ => f) t ks tries found) : found = ks.findSome? f := by
  induction h with
  | nil => rfl
  | @taken t k ks y hanswer =>
    have hanswer : f k = some y := hanswer
    rw [List.findSome?_cons, hanswer]
  | @skipped t k ks tries found hanswer _ ih =>
    have hanswer : f k = none := hanswer
    rw [List.findSome?_cons, hanswer, ih]

-- ════════════════════════════════════════════════════════════════════════
-- Pages
-- ════════════════════════════════════════════════════════════════════════

variable [LinearOrder K] {keys : ℕ → List K} {size : ℕ} {mark : Option K}

/-- The page that a statement reads. -/
def page (size : ℕ) (mark : Option K) (keys : List K) : List K :=
  (sort id (after id mark keys)).take size

theorem mem_of_mem_page {xs : List K} (h : k ∈ page size mark xs) : k ∈ xs ∧ mark.all (· < k) :=
  List.mem_filter.mp ((perm_sort id _).mem_iff.mp (List.mem_of_mem_take h))

/-- A key after the cursor is on the page, or it lies behind the last key of the page. -/
theorem mem_page_or {xs : List K} (hk : k ∈ xs) (hmark : mark.all (· < k) = true) :
    k ∈ page size mark xs ∨
      size ≤ (page size mark xs).length ∧ ∀ j ∈ page size mark xs, j ≤ k := by
  let rest := sort id (after id mark xs)
  have hmem : k ∈ rest := (perm_sort id _).mem_iff.mpr (List.mem_filter.mpr ⟨hk, hmark⟩)
  have hordered : Ordered id rest := ordered_sort id _
  rw [← List.take_append_drop size rest] at hmem hordered
  refine (List.mem_append.mp hmem).imp_right fun hdrop => ⟨?_, fun j hj => ?_⟩
  · show size ≤ (rest.take size).length
    have hpos := List.length_pos_of_mem hdrop
    rw [List.length_drop] at hpos
    rw [List.length_take]
    omega
  · exact (List.pairwise_append.mp hordered).2.2 j hj k hdrop

/-- Fewer keys of a finite set are above the last key of a page than above its cursor. -/
theorem card_above_lt {all : Finset K} {xs : List K} (hall : ∀ j ∈ xs, j ∈ all)
    (hlast : (page size mark xs).getLast? = some last) :
    (all.filter fun j => last < j).card < (all.filter fun j => mark.all (· < j) = true).card := by
  obtain ⟨hmem, hmark⟩ := mem_of_mem_page (List.mem_of_getLast? hlast)
  have hsubset : (all.filter fun j => last < j) ⊆ all.filter fun j => mark.all (· < j) = true := by
    intro j hj
    obtain ⟨hj, hlt⟩ := Finset.mem_filter.mp hj
    refine Finset.mem_filter.mpr ⟨hj, ?_⟩
    cases mark with
    | none => rfl
    | some m => exact decide_eq_true ((of_decide_eq_true hmark).trans hlt)
  apply Finset.card_lt_card
  rw [Finset.ssubset_iff_of_subset hsubset]
  exact ⟨last, Finset.mem_filter.mpr ⟨hall last hmem, hmark⟩,
    fun h => lt_irrefl last (Finset.mem_filter.mp h).2⟩

-- ════════════════════════════════════════════════════════════════════════
-- Scans
-- ════════════════════════════════════════════════════════════════════════

/-- What a scan did: the statements of its pages, its tries, and what it took. -/
structure Scan (K β : Type) where
  pages : List ℕ
  tries : List (ℕ × K)
  found : Option β

/-- A scan from the statement `t` on. -/
inductive Scans (keys : ℕ → List K) (answer : ℕ → K → Option β) (size : ℕ) :
    ℕ → Option K → Scan K β → Prop
  | stops {t mark tries found} (htries : Tries answer (t + 1) (page size mark (keys t)) tries found)
    (hstops : found.isSome = true ∨ (page size mark (keys t)).length < size) :
    Scans keys answer size t mark ⟨[t], tries, found⟩
  | next {t mark tries last scan}
    (htries : Tries answer (t + 1) (page size mark (keys t)) tries none)
    (hlast : (page size mark (keys t)).getLast? = some last)
    (hfull : size ≤ (page size mark (keys t)).length)
    (hrest : Scans keys answer size (t + 1 + (page size mark (keys t)).length) (some last) scan) :
    Scans keys answer size t mark ⟨t :: scan.pages, tries ++ scan.tries, scan.found⟩

/-- A full page that takes nothing goes on; any other page ends the scan. -/
theorem Scans.unique {scan scan' : Scan K β} (h : Scans keys answer size t mark scan)
    (h' : Scans keys answer size t mark scan') : scan = scan' := by
  induction h generalizing scan' with
  | stops htries hstops =>
    cases h' with
    | stops htries' =>
      obtain ⟨rfl, rfl⟩ := htries.unique htries'
      rfl
    | next htries' _ hfull' =>
      obtain ⟨rfl, rfl⟩ := htries.unique htries'
      exact absurd (hstops.resolve_left Bool.false_ne_true) (not_lt.mpr hfull')
  | next htries hlast hfull _ ih =>
    cases h' with
    | stops htries' hstops' =>
      obtain ⟨rfl, rfl⟩ := htries.unique htries'
      exact absurd (hstops'.resolve_left Bool.false_ne_true) (not_lt.mpr hfull)
    | next htries' hlast' _ hrest' =>
      obtain ⟨rfl, -⟩ := htries.unique htries'
      obtain rfl := Option.some_inj.mp (hlast.symm.trans hlast')
      rw [ih hrest']

/-- The last try of a scan took what the scan found, and all tries before it took nothing. -/
theorem Scans.of_some {scan : Scan K β} (h : Scans keys answer size t mark scan)
    (hfound : scan.found = some y) :
    ∃ before p, scan.tries = before ++ [p] ∧ answer p.1 p.2 = some y ∧
      ∀ q ∈ before, answer q.1 q.2 = none := by
  induction h with
  | stops htries =>
    obtain rfl : _ = some y := hfound
    obtain ⟨before, p, heq, -, htaken, hnone⟩ := htries.of_some
    exact ⟨before, p, heq, htaken, hnone⟩
  | @next _ _ tries _ scan htries _ _ _ ih =>
    obtain ⟨before, p, heq, htaken, hnone⟩ := ih hfound
    refine ⟨tries ++ before, p, ?_, htaken, List.forall_mem_append.mpr ⟨htries.of_none.1, hnone⟩⟩
    show tries ++ scan.tries = _
    rw [heq, List.append_assoc]

/-- A scan that finds nothing took nothing with any of its tries. -/
theorem Scans.of_none {scan : Scan K β} (h : Scans keys answer size t mark scan)
    (hfound : scan.found = none) : ∀ p ∈ scan.tries, answer p.1 p.2 = none := by
  induction h with
  | stops htries =>
    obtain rfl : _ = none := hfound
    exact htries.of_none.1
  | next htries _ _ _ ih => exact List.forall_mem_append.mpr ⟨htries.of_none.1, ih hfound⟩

/-- A scan that finds nothing tries every key after its cursor, unless the statement of a page
does not find the key. -/
theorem Scans.complete {scan : Scan K β} (h : Scans keys answer size t mark scan)
    (hfound : scan.found = none) (hmark : mark.all (· < k) = true) :
    (∃ s, (s, k) ∈ scan.tries) ∨ ∃ s ∈ scan.pages, k ∉ keys s := by
  induction h with
  | @stops t mark tries _ htries hstops =>
    obtain rfl : _ = none := hfound
    by_cases hk : k ∈ keys t
    · have hshort := hstops.resolve_left Bool.false_ne_true
      refine .inl (htries.of_none.2 k ((mem_page_or hk hmark).resolve_right fun hbehind => ?_))
      exact absurd hbehind.1 (not_le.mpr hshort)
    · exact .inr ⟨t, List.mem_cons_self, hk⟩
  | @next t mark tries last scan htries hlast _ _ ih =>
    by_cases hk : k ∈ keys t
    · rcases mem_page_or hk hmark with hpage | ⟨-, hbehind⟩
      · exact .inl ((htries.of_none.2 k hpage).imp fun s hs => List.mem_append_left _ hs)
      · have hle := hbehind last (List.mem_of_getLast? hlast)
        rcases hle.eq_or_lt with rfl | hlt
        · exact .inl ((htries.of_none.2 last (List.mem_of_getLast? hlast)).imp
            fun s hs => List.mem_append_left _ hs)
        · exact (ih hfound (decide_eq_true hlt)).imp
            (fun ⟨s, hs⟩ => ⟨s, List.mem_append_right _ hs⟩)
            fun ⟨s, hs, hk⟩ => ⟨s, List.mem_cons_of_mem _ hs, hk⟩
    · exact .inr ⟨t, List.mem_cons_self, hk⟩

/-- A scan of a list that stays as it is takes the first key after its cursor that is taken. -/
theorem Scans.of_still {xs : List K} {f : K → Option β} {scan : Scan K β} (hnodup : xs.Nodup)
    (h : Scans (fun _ => xs) (fun _ => f) size t mark scan) :
    scan.found = (sort id (after id mark xs)).findSome? f := by
  have hnodup : (xs.map id).Nodup := by rwa [List.map_id]
  induction h with
  | @stops t mark tries found htries hstops =>
    have hfound : found = ((sort id (after id mark xs)).take size).findSome? f := htries.of_still
    show found = _
    rw [← List.take_append_drop size (sort id (after id mark xs)), List.findSome?_append, ← hfound]
    cases found with
    | some y => rfl
    | none =>
      have hshort := hstops.resolve_left Bool.false_ne_true
      rw [page, List.length_take, inf_lt_left, not_le] at hshort
      rw [List.drop_eq_nil_of_le hshort.le]
      rfl
  | @next t mark tries last scan htries hlast _ _ ih =>
    have hnone : none = ((sort id (after id mark xs)).take size).findSome? f := htries.of_still
    show scan.found = _
    rw [← List.take_append_drop size (sort id (after id mark xs)), List.findSome?_append, ← hnone,
      Option.none_or, ih]
    refine congrArg (List.findSome? f) ?_
    rw [← after_sort mark hnodup, ← after_sort _ hnodup]
    refine after_getLast ((ordered_sort id xs).strict ?_) ?_
    · exact ((perm_sort id xs).map id).nodup_iff.mpr hnodup
    · rw [after_sort mark hnodup]
      exact hlast

end Keyset
