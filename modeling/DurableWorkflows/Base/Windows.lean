import Mathlib.Data.List.TakeWhile

/-!
# Windows of a sequence

A sequence is cut into windows: each window starts at the first element that
does not belong to the previous one. Counting the elements one by one, from 1
again when a window is left, gives the position of each in its window.

## Main definitions

- `windows`: the windows of a sequence
- `positions`: the position of each element in its window
- `Open`: the window that is open after a sequence

## Main results

- `windows_flatten`: the windows are a partition
- `Open.inside`, `Open.beyond`: one more element
-/

namespace Windows

variable {α : Type*} (within : α → α → Bool)

/-- The windows of a sequence; `within start x` says that `x` belongs to the window that starts
at `start`. -/
def windows : List α → List (List α)
  | [] => []
  | start :: xs =>
    (start :: xs.takeWhile (within start)) :: windows (xs.dropWhile (within start))
termination_by xs => xs.length
decreasing_by
  have := (List.dropWhile_sublist (l := xs) (within start)).length_le
  exact Nat.lt_succ_of_le this

/-- The position of each element in its window, from 1. -/
def positions (xs : List α) : List ℕ :=
  (windows within xs).flatMap fun window => List.range' 1 window.length

/-- The counts of the elements that follow, when a window is open that started at `start` and
has `count` elements. -/
def countFrom : α → ℕ → List α → List ℕ
  | _, _, [] => []
  | start, count, x :: xs =>
    if within start x then
      (count + 1) :: countFrom start (count + 1) xs
    else
      1 :: countFrom x 1 xs

variable {within} {start x : α} {count : ℕ} {xs : List α}

theorem windows_cons : windows within (start :: xs) =
    (start :: xs.takeWhile (within start)) :: windows within (xs.dropWhile (within start)) := by
  rw [windows]

theorem positions_nil : positions within [] = [] := by
  rw [positions, windows, List.flatMap_nil]

/-- The windows are a partition of the sequence. -/
theorem windows_flatten (xs : List α) : (windows within xs).flatten = xs := by
  fun_induction windows within xs with
  | case1 => rfl
  | case2 start xs ih =>
    rw [List.flatten_cons, ih, List.cons_append, List.takeWhile_append_dropWhile]

theorem length_positions (xs : List α) : (positions within xs).length = xs.length := by
  have hlength : (windows within xs).flatten.length = xs.length := by rw [windows_flatten]
  rw [positions, List.length_flatMap, ← hlength, List.length_flatten]
  simp only [List.length_range']

theorem positions_cons : positions within (start :: xs) =
    1 :: (List.range' 2 (xs.takeWhile (within start)).length ++
      positions within (xs.dropWhile (within start))) := by
  rw [positions, windows_cons, List.flatMap_cons, List.length_cons, List.range'_succ]
  rfl

theorem positions_singleton (x : α) : positions within [x] = [1] := by
  rw [positions_cons, List.takeWhile_nil, List.dropWhile_nil, positions_nil]
  rfl

/-- Elements that all belong to the first window. -/
theorem positions_of_within (h : ∀ x ∈ xs, within start x) :
    positions within (start :: xs) = List.range' 1 (xs.length + 1) := by
  rw [positions_cons, List.takeWhile_eq_self_iff.mpr h, List.dropWhile_eq_nil_iff.mpr h,
    positions_nil, List.append_nil, List.range'_succ]

/-- Counting one by one gives the positions in the windows. -/
theorem countFrom_eq (start : α) (count : ℕ) (xs : List α) : countFrom within start count xs =
    List.range' (count + 1) (xs.takeWhile (within start)).length ++
      positions within (xs.dropWhile (within start)) := by
  induction xs generalizing start count with
  | nil => exact positions_nil.symm
  | cons x xs ih =>
    unfold countFrom
    by_cases hx : within start x
    · rw [if_pos hx, ih, List.takeWhile_cons_of_pos hx, List.dropWhile_cons_of_pos hx,
        List.length_cons, List.range'_succ]
      rfl
    · rw [if_neg hx, ih, List.takeWhile_cons_of_neg hx, List.dropWhile_cons_of_neg hx,
        positions_cons]
      rfl

/-- After `xs` a window is open that started at `start` and has `count` elements. -/
def Open (within : α → α → Bool) (xs : List α) (start : α) (count : ℕ) : Prop :=
  ∀ ys, positions within (xs ++ ys) = positions within xs ++ countFrom within start count ys

namespace Open

theorem first (within : α → α → Bool) (x : α) : Open within [x] x 1 := by
  intro ys
  rw [List.singleton_append, positions_singleton, positions_cons, countFrom_eq]
  rfl

theorem positions_concat (h : Open within xs start count) : positions within (xs ++ [x]) =
    positions within xs ++ [if within start x then count + 1 else 1] := by
  rw [h, countFrom]
  by_cases hx : within start x
  · rw [if_pos hx, if_pos hx, countFrom]
  · rw [if_neg hx, if_neg hx, countFrom]

/-- The next element is in the open window. -/
theorem inside (h : Open within xs start count) (hx : within start x) :
    Open within (xs ++ [x]) start (count + 1) := by
  intro ys
  rw [List.append_assoc, h, h.positions_concat, List.append_assoc, List.singleton_append, countFrom,
    if_pos hx, if_pos hx]
  rfl

/-- The next element starts a window. -/
theorem beyond (h : Open within xs start count) (hx : ¬within start x) :
    Open within (xs ++ [x]) x 1 := by
  intro ys
  rw [List.append_assoc, h, h.positions_concat, List.append_assoc, List.singleton_append, countFrom,
    if_neg hx, if_neg hx]
  rfl

end Open

end Windows
