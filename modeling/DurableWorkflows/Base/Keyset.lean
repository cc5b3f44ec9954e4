import Mathlib.Data.List.Sort
import Mathlib.Data.Nat.Notation

/-!
# Keyset pagination

A list is shown in pages: a page is the first entries after the mark of its cursor, and its
cursor is the last of them, if there are more. Where a list is merged from several sources, the
first entries of each source are enough for a page.

## Main definitions

- `Keyset.Page`, `Keyset.Follows`: a page, and the entries of the pages that a client reads
- `Keyset.sort`, `Keyset.after`: the order of the entries, and the entries after a mark

## Main results

- `Keyset.follows_after`: the pages are the whole list, each entry once
- `Keyset.Follows.unique`: what a client reads is determined
- `Keyset.take_sort_flatten`: a page of merged sources
-/

namespace Keyset

variable {α C L E K : Type}

/-- What a page shows, and the cursor of the next page. -/
structure Page (α C : Type) where
  items : List α
  nextCursor : Option C
  deriving DecidableEq, Repr

/-- Reading page after page from a cursor until a page has no next one: the entries that are
shown. A derivation is a finite run without an error. -/
inductive Follows (page : Option C → L → Except E (Page α C)) :
    Option C → (ℕ → L) → List α → Prop
  | last {cursor limits items} (h : page cursor (limits 0) = .ok ⟨items, none⟩) :
    Follows page cursor limits items
  | next {cursor limits items c rest} (h : page cursor (limits 0) = .ok ⟨items, some c⟩)
    (hrest : Follows page (some c) (fun i => limits (i + 1)) rest) :
    Follows page cursor limits (items ++ rest)

/-- What a client reads is determined. -/
theorem Follows.unique {page : Option C → L → Except E (Page α C)} {cursor : Option C}
    {limits : ℕ → L} {items items' : List α} (h : Follows page cursor limits items)
    (h' : Follows page cursor limits items') : items = items' := by
  induction h generalizing items' with
  | last hpage =>
    cases h' with
    | last hpage' =>
      rw [hpage] at hpage'
      cases hpage'
      rfl
    | next hpage' =>
      rw [hpage] at hpage'
      cases hpage'
  | next hpage _ ih =>
    cases h' with
    | last hpage' =>
      rw [hpage] at hpage'
      cases hpage'
    | next hpage' hrest' =>
      rw [hpage] at hpage'
      cases hpage'
      rw [ih hrest']

/-- What a client reads after a page that is not the last. -/
theorem Follows.rest {page : Option C → L → Except E (Page α C)} {cursor : Option C}
    {limits : ℕ → L} {items shown : List α} {c : C} (h : Follows page cursor limits items)
    (hpage : page cursor (limits 0) = .ok ⟨shown, some c⟩) :
    ∃ rest, items = shown ++ rest ∧ Follows page (some c) (fun i => limits (i + 1)) rest := by
  cases h with
  | last hpage' =>
    rw [hpage] at hpage'
    cases hpage'
  | next hpage' hrest =>
    rw [hpage] at hpage'
    cases hpage'
    exact ⟨_, rfl, hrest⟩

/-- A client that keeps a part of every entry. -/
theorem Follows.map {β : Type} {page : Option C → L → Except E (Page α C)} {f : α → β}
    {page' : Option C → L → Except E (Page β C)}
    (hpage : ∀ cursor limit, page' cursor limit =
      (page cursor limit).map fun p => ⟨p.items.map f, p.nextCursor⟩)
    {cursor : Option C} {limits : ℕ → L} {items : List α} (h : Follows page cursor limits items) :
    Follows page' cursor limits (items.map f) := by
  induction h with
  | last hok =>
    refine .last ?_
    rw [hpage, hok]
    rfl
  | next hok _ ih =>
    rw [List.map_append]
    refine .next ?_ ih
    rw [hpage, hok]
    rfl

variable [LinearOrder K] {key : α → K} {all xs ys : List α} {mark : Option K} {n m : ℕ}

-- ════════════════════════════════════════════════════════════════════════
-- Order
-- ════════════════════════════════════════════════════════════════════════

/-- In the order of the keys. -/
def Ordered (key : α → K) (xs : List α) : Prop := xs.Pairwise fun x y => key x ≤ key y

/-- The entries in the order of their keys. -/
def sort (key : α → K) (xs : List α) : List α := xs.insertionSort fun x y => key x ≤ key y

theorem ordered_sort (key : α → K) (xs : List α) : Ordered key (sort key xs) := by
  have : Std.Total fun x y : α => key x ≤ key y := ⟨fun x y => le_total (key x) (key y)⟩
  have : IsTrans α fun x y : α => key x ≤ key y := ⟨fun _ _ _ => le_trans⟩
  exact List.pairwise_insertionSort _ _

theorem perm_sort (key : α → K) (xs : List α) : (sort key xs).Perm xs :=
  List.perm_insertionSort _ _

/-- A sort by another relation that is the order of the keys on the entries. -/
theorem insertionSort_eq_sort {r : α → α → Prop} [DecidableRel r]
    (hr : ∀ x ∈ xs, ∀ y ∈ xs, r x y ↔ key x ≤ key y) : xs.insertionSort r = sort key xs := by
  have hmap := List.map_insertionSort r (fun x y => key x ≤ key y) id xs hr
  rwa [List.map_id, List.map_id] at hmap

theorem orderedInsert_congr {r r' : α → α → Prop} [DecidableRel r] [DecidableRel r'] {x : α}
    (h : ∀ y ∈ xs, r x y ↔ r' x y) : xs.orderedInsert r x = xs.orderedInsert r' x := by
  induction xs with
  | nil => rfl
  | cons y ys ih =>
    obtain ⟨hy, hys⟩ := List.forall_mem_cons.mp h
    rw [List.orderedInsert_cons, List.orderedInsert_cons, ih hys, if_congr hy rfl rfl]

/-- The order of entries with one key is the order they had before. -/
theorem insertionSort_congr {r r' : α → α → Prop} [DecidableRel r] [DecidableRel r']
    (h : xs.Pairwise fun x y => r x y ↔ r' x y) : xs.insertionSort r = xs.insertionSort r' := by
  induction xs with
  | nil => rfl
  | cons x xs ih =>
    obtain ⟨hx, hxs⟩ := List.pairwise_cons.mp h
    rw [List.insertionSort_cons, List.insertionSort_cons, ih hxs]
    exact orderedInsert_congr fun y hy => hx y ((List.perm_insertionSort r' xs).mem_iff.mp hy)

/-- There is one order only, if no two entries have one key. -/
theorem eq_of_perm (hnodup : (xs.map key).Nodup) (hxs : Ordered key xs) (hys : Ordered key ys)
    (h : xs.Perm ys) : xs = ys := by
  refine List.Perm.eq_of_pairwise (fun x y hx hy hle hge => ?_) hxs hys h
  exact List.inj_on_of_nodup_map hnodup hx (h.mem_iff.mpr hy) (le_antisymm hle hge)

/-- Entries in order are in strict order, if no two have one key. -/
theorem Ordered.strict (h : Ordered key xs) (hnodup : (xs.map key).Nodup) :
    xs.Pairwise fun x y => key x < key y :=
  (h.and (List.pairwise_map.mp hnodup)).imp fun hand => lt_of_le_of_ne hand.1 hand.2

-- ════════════════════════════════════════════════════════════════════════
-- Pages
-- ════════════════════════════════════════════════════════════════════════

/-- The entries after a mark. -/
def after (key : α → K) (mark : Option K) (xs : List α) : List α :=
  xs.filter fun x => mark.all (· < key x)

theorem after_none (xs : List α) : after key none xs = xs :=
  List.filter_eq_self.mpr fun _ _ => rfl

theorem after_flatten (mark : Option K) (sources : List (List α)) :
    after key mark sources.flatten = (sources.map (after key mark)).flatten := List.filter_flatten

/-- The entries after a mark are in order if all are. -/
theorem after_sort (mark : Option K) (hnodup : (xs.map key).Nodup) :
    after key mark (sort key xs) = sort key (after key mark xs) := by
  have hnodup_after : ((after key mark (sort key xs)).map key).Nodup := by
    refine List.Nodup.sublist ((List.filter_sublist).map key) ?_
    exact ((perm_sort key xs).map key).nodup_iff.mpr hnodup
  refine eq_of_perm hnodup_after ((ordered_sort key xs).filter _) (ordered_sort key _) ?_
  exact ((perm_sort key xs).filter _).trans (perm_sort key _).symm

/-- The entries after the last entry of a page are those the page leaves. -/
theorem after_getLast (hall : all.Pairwise fun x y => key x < key y) {x : α}
    (hlast : ((after key mark all).take n).getLast? = some x) :
    after key (some (key x)) all = (after key mark all).drop n := by
  have hx : x ∈ after key mark all := List.mem_of_mem_take (List.mem_of_getLast? hlast)
  have hmark : ∀ y, key x < key y → mark.all (· < key y) = true := by
    intro y hy
    have hbelow := (List.mem_filter.mp hx).2
    cases mark with
    | none => rfl
    | some k =>
      rw [Option.all_some, decide_eq_true_eq] at hbelow ⊢
      exact hbelow.trans hy
  have hafter : after key (some (key x)) all = after key (some (key x)) (after key mark all) := by
    rw [after, after, after, List.filter_filter]
    refine List.filter_congr fun y _ => ?_
    rw [Option.all_some, Bool.eq_iff_iff, Bool.and_eq_true, decide_eq_true_eq]
    exact ⟨fun h => ⟨h, hmark y h⟩, And.left⟩
  have hsorted : ((after key mark all).take n ++ (after key mark all).drop n).Pairwise
      fun x y => key x < key y := by
    rw [List.take_append_drop]
    exact hall.filter _
  obtain ⟨htake, -, hcross⟩ := List.pairwise_append.mp hsorted
  obtain ⟨before, hbefore⟩ := List.getLast?_eq_some_iff.mp hlast
  have hnone : after key (some (key x)) ((after key mark all).take n) = [] := by
    refine List.filter_eq_nil_iff.mpr fun y hy => ?_
    rw [Option.all_some, decide_eq_true_eq, not_lt]
    rw [hbefore] at hy htake
    rcases List.mem_append.mp hy with hy | hy
    · exact ((List.pairwise_append.mp htake).2.2 y hy x List.mem_cons_self).le
    · rw [List.mem_singleton.mp hy]
  have hrest : after key (some (key x)) ((after key mark all).drop n) =
      (after key mark all).drop n := by
    refine List.filter_eq_self.mpr fun y hy => ?_
    rw [Option.all_some, decide_eq_true_eq]
    exact hcross x (List.mem_of_getLast? hlast) y hy
  rw [hafter]
  nth_rewrite 1 [← List.take_append_drop n (after key mark all)]
  rw [after, List.filter_append]
  exact (congrArg₂ (· ++ ·) hnone hrest).trans (List.nil_append _)

/-- A page of the entries after a mark, whose cursor stands for its last entry. -/
def IsPage (key : α → K) (Marks : Option C → Option K → Prop) (rest : List α) (size : ℕ)
    (result : Page α C) : Prop :=
  result.items = rest.take size ∧
    (rest.length ≤ size ∧ result.nextCursor = none ∨
      size < rest.length ∧ ∃ c x, result.nextCursor = some c ∧
        (rest.take size).getLast? = some x ∧ Marks (some c) (some (key x)))

/-- The pages are the whole list, for all limits that are accepted. -/
theorem follows_after {page : Option C → L → Except E (Page α C)} {size : L → ℕ}
    {Accepts : L → Prop} {Marks : Option C → Option K → Prop}
    (hall : all.Pairwise fun x y => key x < key y) (hsize : ∀ limit, Accepts limit → 0 < size limit)
    (hpage : ∀ cursor mark limit, Accepts limit → Marks cursor mark →
      ∃ result, page cursor limit = .ok result ∧
        IsPage key Marks (after key mark all) (size limit) result)
    {cursor : Option C} (hmarks : Marks cursor mark) {limits : ℕ → L}
    (hlimits : ∀ i, Accepts (limits i)) :
    Follows page cursor limits (after key mark all) := by
  -- induction on the entries that are left
  induction hlength : (after key mark all).length using Nat.strong_induction_on
    generalizing cursor mark limits with
  | _ left ih =>
    obtain ⟨⟨items, nextCursor⟩, hok, hitems, hnext⟩ :=
      hpage cursor mark (limits 0) (hlimits 0) hmarks
    rcases hnext with ⟨hshort, hnone⟩ | ⟨hlong, c, x, hsome, hlast, hmarks'⟩
    · obtain rfl : nextCursor = none := hnone
      rw [← List.take_of_length_le hshort, ← hitems]
      exact .last hok
    · obtain rfl : nextCursor = some c := hsome
      have hdrop := after_getLast hall hlast
      have hless : (after key (some (key x)) all).length < left := by
        rw [hdrop, List.length_drop]
        have := hsize _ (hlimits 0)
        omega
      rw [← List.take_append_drop (size (limits 0)) (after key mark all), ← hitems, ← hdrop]
      exact .next hok (ih _ hless hmarks' (fun i => hlimits (i + 1)) rfl)

-- ════════════════════════════════════════════════════════════════════════
-- Sources
-- ════════════════════════════════════════════════════════════════════════

/-- The order of the keys, as a test. -/
def below (key : α → K) (x y : α) : Bool := decide (key x ≤ key y)

theorem take_of_take_succ (h : xs.take (n + 1) = ys.take (n + 1)) : xs.take n = ys.take n := by
  have := congrArg (List.take n) h
  rwa [List.take_take, List.take_take, Nat.min_eq_left (Nat.le_succ n)] at this

/-- The first entries of a merge are merged from the first entries. -/
theorem take_merge {xs' ys' : List α} (hxs : xs.take n = xs'.take n)
    (hys : ys.take n = ys'.take n) :
    (xs.merge ys (below key)).take n = (xs'.merge ys' (below key)).take n := by
  induction n generalizing xs ys xs' ys' with
  | zero => rfl
  | succ n ih =>
    match xs, xs', hxs with
    | [], [], _ =>
      rw [List.nil_merge, List.nil_merge]
      exact hys
    | x :: xs, x' :: xs', hxs =>
      obtain ⟨rfl, hxs'⟩ := List.cons_eq_cons.mp hxs
      match ys, ys', hys with
      | [], [], _ =>
        rw [List.merge_right, List.merge_right]
        exact hxs
      | y :: ys, y' :: ys', hys =>
        obtain ⟨rfl, hys'⟩ := List.cons_eq_cons.mp hys
        by_cases hle : below key x y
        · rw [List.cons_merge_cons_pos _ _ _ hle, List.cons_merge_cons_pos _ _ _ hle,
            List.take_succ_cons, List.take_succ_cons, ih hxs' (take_of_take_succ hys)]
        · rw [List.cons_merge_cons_neg _ _ _ hle, List.cons_merge_cons_neg _ _ _ hle,
            List.take_succ_cons, List.take_succ_cons, ih (take_of_take_succ hxs) hys']

/-- The merge of ordered sources. -/
def mergeAll (key : α → K) (sources : List (List α)) : List α :=
  sources.foldr (fun xs ys => xs.merge ys (below key)) []

theorem ordered_mergeAll {sources : List (List α)} (h : ∀ xs ∈ sources, Ordered key xs) :
    Ordered key (mergeAll key sources) := by
  induction sources with
  | nil => exact List.Pairwise.nil
  | cons xs sources ih =>
    have hbelow : ∀ zs : List α, Ordered key zs ↔ zs.Pairwise fun x y => below key x y := by
      intro zs
      refine List.Pairwise.iff ?_
      intro x y
      exact decide_eq_true_iff.symm
    refine (hbelow _).mpr (List.pairwise_merge ?_ ?_ _ _ ?_ ?_)
    · intro x y z hxy hyz
      exact decide_eq_true ((of_decide_eq_true hxy).trans (of_decide_eq_true hyz))
    · intro x y
      rw [Bool.or_eq_true]
      exact (le_total (key x) (key y)).imp (fun h => decide_eq_true h) fun h => decide_eq_true h
    · exact (hbelow _).mp (h xs List.mem_cons_self)
    · exact (hbelow _).mp (ih fun ys hys => h ys (List.mem_cons_of_mem _ hys))

theorem perm_mergeAll (key : α → K) (sources : List (List α)) :
    (mergeAll key sources).Perm sources.flatten := by
  induction sources with
  | nil => exact List.Perm.nil
  | cons xs sources ih => exact List.Perm.trans (List.merge_perm_append _) (ih.append_left xs)

/-- The first entries of a merge of all sources are merged from their first entries. -/
theorem take_mergeAll (sources : List (List α)) (hle : n ≤ m) :
    (mergeAll key (sources.map (List.take m))).take n = (mergeAll key sources).take n := by
  induction sources with
  | nil => rfl
  | cons xs sources ih =>
    refine take_merge ?_ ih
    rw [List.take_take, Nat.min_eq_left hle]

theorem perm_flatten_map {f : List α → List α} (h : ∀ xs, (f xs).Perm xs)
    {sources : List (List α)} : (sources.map f).flatten.Perm sources.flatten := by
  induction sources with
  | nil => exact List.Perm.nil
  | cons xs sources ih => exact (h xs).append ih

theorem sublist_flatten_map {f : List α → List α} (h : ∀ xs, (f xs).Sublist xs)
    {sources : List (List α)} : (sources.map f).flatten.Sublist sources.flatten := by
  induction sources with
  | nil => exact List.Sublist.slnil
  | cons xs sources ih => exact (h xs).append ih

/-- A page of merged sources is found among the first entries of each source. -/
theorem take_sort_flatten (sources : List (List α)) (hnodup : (sources.flatten.map key).Nodup)
    (hle : n ≤ m) :
    (sort key (sources.map fun xs => (sort key xs).take m).flatten).take n =
      (sort key sources.flatten).take n := by
  have hsorted : ∀ xs ∈ sources.map (sort key), Ordered key xs := by
    intro xs hxs
    obtain ⟨ys, -, rfl⟩ := List.mem_map.mp hxs
    exact ordered_sort key ys
  have htops_sorted : ∀ xs ∈ (sources.map (sort key)).map (List.take m), Ordered key xs := by
    intro xs hxs
    obtain ⟨ys, hys, rfl⟩ := List.mem_map.mp hxs
    exact (hsorted ys hys).sublist (List.take_sublist _ _)
  have hperm : (sources.map (sort key)).flatten.Perm sources.flatten :=
    perm_flatten_map fun xs => perm_sort key xs
  have hnodup_sorted : ((sources.map (sort key)).flatten.map key).Nodup :=
    (hperm.map key).nodup_iff.mpr hnodup
  have hnodup_tops : ((((sources.map (sort key)).map (List.take m)).flatten).map key).Nodup :=
    hnodup_sorted.sublist ((sublist_flatten_map fun xs => List.take_sublist m xs).map key)
  have hfull : sort key sources.flatten = mergeAll key (sources.map (sort key)) := by
    refine eq_of_perm ?_ (ordered_sort _ _) (ordered_mergeAll hsorted) ?_
    · exact ((perm_sort key _).map key).nodup_iff.mpr hnodup
    · exact (perm_sort key _).trans (hperm.symm.trans (perm_mergeAll key _).symm)
  have htops : sort key ((sources.map (sort key)).map (List.take m)).flatten =
      mergeAll key ((sources.map (sort key)).map (List.take m)) := by
    refine eq_of_perm ?_ (ordered_sort _ _) (ordered_mergeAll htops_sorted) ?_
    · exact ((perm_sort key _).map key).nodup_iff.mpr hnodup_tops
    · exact (perm_sort key _).trans (perm_mergeAll key _).symm
  rw [List.map_map] at htops
  rw [hfull, ← take_mergeAll _ hle, List.map_map]
  exact congrArg (List.take n) htops

/-- The first entries of each source are as many as all, up to their limit. -/
theorem length_tops (sources : List (List α)) :
    (sources.map fun xs => (sort key xs).take m).flatten.length ≤ sources.flatten.length ∧
      min sources.flatten.length m ≤
        (sources.map fun xs => (sort key xs).take m).flatten.length := by
  induction sources with
  | nil => exact ⟨le_rfl, Nat.min_le_left _ _⟩
  | cons xs sources ih =>
    rw [List.map_cons, List.flatten_cons, List.flatten_cons, List.length_append,
      List.length_append, List.length_take, (perm_sort key xs).length_eq]
    omega

/-- A filter that keeps the first entries, and one behind them if there is one. -/
theorem filter_take {p : α → Bool} (hfirst : ∀ x ∈ xs.take n, p x = true)
    (hmore : n < xs.length → ∃ x ∈ xs.drop n, p x = true) :
    (xs.filter p).take n = xs.take n ∧ (n < (xs.filter p).length ↔ n < xs.length) := by
  have hfront : (xs.take n).filter p = xs.take n := List.filter_eq_self.mpr hfirst
  have hsplit : xs.filter p = xs.take n ++ (xs.drop n).filter p := by
    nth_rewrite 1 [← List.take_append_drop n xs]
    rw [List.filter_append, hfront]
  by_cases hlong : n < xs.length
  · obtain ⟨x, hx, hpx⟩ := hmore hlong
    have hlength : (xs.take n).length = n := List.length_take_of_le hlong.le
    have hpos := List.length_pos_of_mem (List.mem_filter.mpr ⟨hx, hpx⟩)
    rw [hsplit, List.take_left' hlength, List.length_append, hlength]
    exact ⟨rfl, fun _ => hlong, fun _ => by omega⟩
  · have hnil : xs.drop n = [] := List.drop_of_length_le (not_lt.mp hlong)
    rw [hsplit, hnil, List.filter_nil, List.append_nil, List.take_take, min_self,
      List.take_of_length_le (not_lt.mp hlong)]
    exact ⟨rfl, Iff.rfl⟩

/-- Leaving out entries behind the first ones changes no page and not whether there are more. -/
theorem filter_first {p : α → Bool} (hxs : xs.Pairwise fun x y => key x < key y)
    (hbehind : ∀ y ∈ xs, p y = false →
      n < (xs.filter fun x => p x && decide (key x < key y)).length) :
    (xs.filter p).take n = xs.take n ∧ (n < (xs.filter p).length ↔ n < xs.length) := by
  have hsplit : xs = xs.takeWhile p ++ xs.dropWhile p := List.takeWhile_append_dropWhile.symm
  have hfront : (xs.takeWhile p).filter p = xs.takeWhile p :=
    List.filter_eq_self.mpr (List.all_eq_true.mp List.all_takeWhile)
  cases hdrop : xs.dropWhile p with
  | nil =>
    rw [hdrop, List.append_nil] at hsplit
    rw [hsplit, hfront]
    exact ⟨rfl, Iff.rfl⟩
  | cons y ys =>
    rw [hdrop] at hsplit
    have hy : p y = false := by
      have hhead := List.head?_dropWhile_not p xs
      rw [hdrop] at hhead
      exact hhead
    have hnone : (y :: ys).filter (fun x => p x && decide (key x < key y)) = [] := by
      rw [hsplit] at hxs
      refine List.filter_eq_nil_iff.mpr fun x hx => ?_
      have hle : ¬ key x < key y := by
        rcases List.mem_cons.mp hx with rfl | hx
        · exact lt_irrefl _
        · exact not_lt.mpr (List.rel_of_pairwise_cons (List.pairwise_append.mp hxs).2.1 hx).le
      rw [decide_eq_false hle, Bool.and_false]
      exact Bool.false_ne_true
    have hlong : n < (xs.takeWhile p).length := by
      have hcount := hbehind y (hsplit ▸ List.mem_append_right _ List.mem_cons_self) hy
      rw [hsplit, List.filter_append, hnone, List.append_nil] at hcount
      exact hcount.trans_le (List.length_filter_le _ _)
    rw [hsplit, List.filter_append, hfront, List.take_append_of_le_length hlong.le,
      List.take_append_of_le_length hlong.le, List.length_append, List.length_append]
    exact ⟨rfl, by omega⟩

end Keyset
