import DurableWorkflows.Base.Windows
import DurableWorkflows.Observability

/-!
# Alerts of transient errors

Activations that roll back on a transient database error are counted in windows.
A window that holds more than the limit latches an alert until a health scan
takes it. The count of a window survives a take and the latch does not.

## Main definitions

- `TransientErrorWindow`: `new`, `record`, `takeAlert`
- `TransientErrorWindow.run`: a history of calls
- `sinceTake`: the positions of the errors since the last take

## Main results

- `TransientErrorWindow.run_tracks`: the state in terms of the history
- `takeAlert_reports`: what a take returns after any history
-/

namespace DurableWorkflows

open Windows

/-- `TransientErrorWindow`: the errors of a window, counted in a `u32`. -/
structure TransientErrorWindow where
  maxErrors : ℕ
  window : Duration
  count : ℕ
  windowStarted : Option Duration
  peakOverLimit : Option ℕ
  bounded : count ≤ U32.max

namespace TransientErrorWindow

/-- `TransientErrorWindow::new`. -/
def new (maxErrors : ℕ) (window : Duration) : Except DurableError TransientErrorWindow := do
  rejectIf (maxErrors = 0 ∨ window.nanos = 0) (.invalidDefinition
    "transient activation error alerts require a non-zero error limit and window")
  return ⟨maxErrors, window, 0, none, none, Nat.zero_le _⟩

/-- The window that an error at `now` falls into. -/
def reopened (w : TransientErrorWindow) (now : Duration) : TransientErrorWindow :=
  if w.windowStarted.all fun started => w.window < now.saturatingSince started then
    { w with count := 0, windowStarted := some now, bounded := Nat.zero_le _ }
  else
    w

/-- `count.saturating_add(1)`. -/
def counted (w : TransientErrorWindow) : TransientErrorWindow :=
  { w with count := min (w.count + 1) U32.max, bounded := Nat.min_le_right .. }

/-- A count above the limit is latched, the largest of them. -/
def latched (w : TransientErrorWindow) : TransientErrorWindow :=
  if w.maxErrors < w.count then
    { w with peakOverLimit := some (w.peakOverLimit.elim w.count (max · w.count)) }
  else
    w

/-- `TransientErrorWindow::record`. -/
def record (w : TransientErrorWindow) (now : Duration) : TransientErrorWindow :=
  (w.reopened now).counted.latched

/-- `TransientErrorWindow::take_alert`. -/
def takeAlert (w : TransientErrorWindow) : Option HealthAlert × TransientErrorWindow :=
  (w.peakOverLimit.map fun errors => .transientActivationErrors errors w.maxErrors w.window,
    { w with peakOverLimit := none })

/-- The calls of a window. -/
inductive Call
  | record (now : Duration)
  | takeAlert
  deriving DecidableEq

/-- The state after one call. -/
def call (w : TransientErrorWindow) : Call → TransientErrorWindow
  | .record now => w.record now
  | .takeAlert => w.takeAlert.2

/-- The state after a history of calls. -/
def run (w : TransientErrorWindow) (calls : List Call) : TransientErrorWindow :=
  calls.foldl call w

theorem run_concat (w : TransientErrorWindow) (calls : List Call) (c : Call) :
    w.run (calls ++ [c]) = (w.run calls).call c := by
  simp [run]

end TransientErrorWindow

-- ════════════════════════════════════════════════════════════════════════
-- Histories
-- ════════════════════════════════════════════════════════════════════════

section History

open TransientErrorWindow

/-- An error is no more than the window after the start of the window. -/
def inWindow (window started now : Duration) : Bool :=
  now.nanos ≤ started.nanos + window.nanos

/-- The call is a take. -/
def TransientErrorWindow.Call.isTake : Call → Bool
  | record _ => false
  | takeAlert => true

/-- The times of the errors recorded. -/
def recorded (calls : List Call) : List Duration :=
  calls.filterMap fun
    | .record now => some now
    | .takeAlert => none

/-- The position in its window of each error recorded since the last take. -/
def sinceTake (window : Duration) (calls : List Call) : List ℕ :=
  (positions (inWindow window) (recorded calls)).drop
    ((recorded calls).length - (recorded (since (·.isTake) calls)).length)

theorem recorded_record (calls : List Call) (now : Duration) :
    recorded (calls ++ [.record now]) = recorded calls ++ [now] := by
  simp [recorded]

theorem recorded_takeAlert (calls : List Call) :
    recorded (calls ++ [.takeAlert]) = recorded calls := by
  simp [recorded]

theorem since_record (calls : List Call) (now : Duration) :
    since (·.isTake) (calls ++ [.record now]) = since (·.isTake) calls ++ [.record now] := by
  rw [since_concat]
  rfl

theorem since_takeAlert (calls : List Call) :
    since (·.isTake) (calls ++ [.takeAlert]) = [.takeAlert] := by
  rw [since_concat]
  rfl

theorem length_recorded_since_le (calls : List Call) :
    (recorded (since (·.isTake) calls)).length ≤ (recorded calls).length := by
  induction calls using List.reverseRecOn with
  | nil => exact le_rfl
  | append_singleton calls c ih =>
    cases c with
    | record now =>
      rw [since_record, recorded_record, recorded_record, List.length_append, List.length_append]
      exact Nat.add_le_add_right ih _
    | takeAlert =>
      rw [since_takeAlert]
      exact Nat.zero_le _

/-- A take starts over. -/
theorem sinceTake_takeAlert (window : Duration) (calls : List Call) :
    sinceTake window (calls ++ [.takeAlert]) = [] := by
  have hsince : recorded (since (·.isTake) (calls ++ [.takeAlert])) = [] := by
    rw [since_takeAlert]
    rfl
  rw [sinceTake, hsince, recorded_takeAlert]
  apply List.drop_eq_nil_of_le
  rw [length_positions]
  exact le_rfl

theorem recorded_errors (times : List Duration) : recorded (times.map .record) = times := by
  induction times with
  | nil => rfl
  | cons now times ih => exact congrArg (now :: ·) ih

/-- The positions when nothing was taken. -/
theorem sinceTake_errors (window : Duration) (times : List Duration) :
    sinceTake window (times.map .record) = positions (inWindow window) times := by
  have hsince : since (·.isTake) (times.map Call.record) = times.map .record := by
    induction times using List.reverseRecOn with
    | nil => rfl
    | append_singleton times now ih =>
      rw [List.map_append, List.map_singleton, since_record, ih]
  rw [sinceTake, hsince, recorded_errors, Nat.sub_self, List.drop_zero]

/-- One more error adds its position. -/
theorem sinceTake_record {window now : Duration} {calls : List Call} {p : ℕ}
    (h : positions (inWindow window) (recorded calls ++ [now]) =
      positions (inWindow window) (recorded calls) ++ [p]) :
    sinceTake window (calls ++ [.record now]) = sinceTake window calls ++ [p] := by
  have hle := length_recorded_since_le calls
  have hsince : (recorded (since (·.isTake) (calls ++ [.record now]))).length =
      (recorded (since (·.isTake) calls)).length + 1 := by
    rw [since_record, recorded_record, List.length_append]
    rfl
  rw [sinceTake, sinceTake, hsince, recorded_record, h, List.length_append, List.length_singleton,
    Nat.add_sub_add_right, List.drop_append_of_le_length]
  rw [length_positions]
  omega

/-- The largest position above the limit. -/
def overLimit (maxErrors : ℕ) (counts : List ℕ) : Option ℕ :=
  (counts.filter (maxErrors < ·)).max?

theorem overLimit_concat (maxErrors : ℕ) (counts : List ℕ) (n : ℕ) :
    overLimit maxErrors (counts ++ [n]) =
      if maxErrors < n then some ((overLimit maxErrors counts).elim n (max · n))
      else overLimit maxErrors counts := by
  unfold overLimit
  rw [List.filter_append]
  by_cases hn : maxErrors < n
  · rw [if_pos hn, List.filter_cons_of_pos (by simpa using hn), List.filter_nil]
    cases counts.filter (maxErrors < ·) with
    | nil => rfl
    | cons m counts =>
      rw [List.cons_append, List.max?_cons', List.max?_cons', List.foldl_append]
      rfl
  · rw [if_neg hn, List.filter_cons_of_neg (by simpa using hn), List.filter_nil, List.append_nil]

end History

-- ════════════════════════════════════════════════════════════════════════
-- The state after a history
-- ════════════════════════════════════════════════════════════════════════

namespace TransientErrorWindow

variable {maxErrors : ℕ} {window : Duration} {calls : List Call} {w : TransientErrorWindow}

/-- The positions of the errors since the last take, as a `u32` counts them. -/
def countsSinceTake (window : Duration) (calls : List Call) : List ℕ :=
  (sinceTake window calls).map (min · U32.max)

/-- The state after a history of calls: the count is the position of the last error in its
window, and the latch is the largest position above the limit since the last take. -/
structure Tracks (maxErrors : ℕ) (window : Duration) (calls : List Call)
    (w : TransientErrorWindow) : Prop where
  limit : w.maxErrors = maxErrors
  span : w.window = window
  unopened : w.windowStarted = none → recorded calls = []
  opened : ∀ {started}, w.windowStarted = some started →
    ∃ n, Open (inWindow window) (recorded calls) started n ∧ w.count = min n U32.max
  peak : w.peakOverLimit = overLimit maxErrors (countsSinceTake window calls)

theorem tracks_new (h : new maxErrors window = .ok w) : w.Tracks maxErrors window [] := by
  obtain ⟨_, -, hw⟩ := bind_eq_ok h
  cases hw
  refine ⟨rfl, rfl, fun _ => rfl, nofun, ?_⟩
  have hpositions : positions (inWindow window) (recorded []) = [] := positions_nil
  have hcounts : countsSinceTake window [] = [] := by
    rw [countsSinceTake, sinceTake, hpositions]
    rfl
  rw [hcounts]
  rfl

/-- The window and the count of one more error. -/
theorem Tracks.counted (h : w.Tracks maxErrors window calls) (now : Duration) :
    ∃ started n, ((w.reopened now).counted).windowStarted = some started ∧
      Open (inWindow window) (recorded calls ++ [now]) started n ∧
      ((w.reopened now).counted).count = min n U32.max ∧
      positions (inWindow window) (recorded calls ++ [now]) =
        positions (inWindow window) (recorded calls) ++ [n] := by
  unfold reopened
  cases hstarted : w.windowStarted with
  | none =>
    rw [if_pos (show Option.all _ none from rfl), h.unopened hstarted, List.nil_append]
    refine ⟨now, 1, rfl, .first _ now, rfl, ?_⟩
    rw [positions_singleton, positions_nil]
    rfl
  | some started =>
    obtain ⟨n, hopen, hcount⟩ := h.opened hstarted
    by_cases hlate : w.window < now.saturatingSince started
    · have hbeyond : ¬inWindow window started now := by
        rw [h.span, Duration.lt_saturatingSince] at hlate
        simp only [inWindow, decide_eq_true_eq]
        omega
      rw [if_pos (by simpa using hlate)]
      refine ⟨now, 1, rfl, hopen.beyond hbeyond, rfl, ?_⟩
      rw [hopen.positions_concat, if_neg hbeyond]
    · have hinside : inWindow window started now := by
        rw [h.span, Duration.lt_saturatingSince] at hlate
        simp only [inWindow, decide_eq_true_eq]
        omega
      rw [if_neg (by simpa using hlate)]
      refine ⟨started, n + 1, hstarted, hopen.inside hinside, ?_, ?_⟩
      · show min (w.count + 1) U32.max = min (n + 1) U32.max
        omega
      · rw [hopen.positions_concat, if_pos hinside]

/-- What one more error keeps of the state. -/
theorem reopened_counted (w : TransientErrorWindow) (now : Duration) :
    ((w.reopened now).counted).maxErrors = w.maxErrors ∧
      ((w.reopened now).counted).window = w.window ∧
      ((w.reopened now).counted).peakOverLimit = w.peakOverLimit := by
  unfold reopened
  split <;> exact ⟨rfl, rfl, rfl⟩

theorem latched_eq (w : TransientErrorWindow) :
    w.latched = { w with peakOverLimit := (if w.maxErrors < w.count
      then some (w.peakOverLimit.elim w.count (max · w.count)) else w.peakOverLimit) } := by
  unfold latched
  split <;> rfl

/-- **Step lemma** for an error. -/
theorem Tracks.record (h : w.Tracks maxErrors window calls) (now : Duration) :
    (w.record now).Tracks maxErrors window (calls ++ [.record now]) := by
  obtain ⟨started, n, hstarted, hopen, hcount, hpositions⟩ := h.counted now
  obtain ⟨hmax, hwindow, hpeak⟩ := w.reopened_counted now
  have hcounts : countsSinceTake window (calls ++ [.record now]) =
      countsSinceTake window calls ++ [min n U32.max] := by
    rw [countsSinceTake, sinceTake_record hpositions, List.map_append]
    rfl
  rw [TransientErrorWindow.record, latched_eq]
  refine ⟨hmax.trans h.limit, hwindow.trans h.span, ?_, ?_, ?_⟩
  · intro hnone
    rw [hstarted] at hnone
    cases hnone
  · intro started' hstarted'
    rw [hstarted] at hstarted'
    cases hstarted'
    rw [recorded_record]
    exact ⟨n, hopen, hcount⟩
  · rw [hcounts, overLimit_concat, ← h.peak, ← hpeak, ← hcount, ← h.limit, ← hmax]

/-- **Step lemma** for a take. -/
theorem Tracks.takeAlert (h : w.Tracks maxErrors window calls) :
    w.takeAlert.2.Tracks maxErrors window (calls ++ [.takeAlert]) where
  limit := h.limit
  span := h.span
  unopened := by
    rw [recorded_takeAlert]
    exact h.unopened
  opened := by
    rw [recorded_takeAlert]
    exact h.opened
  peak := by
    rw [countsSinceTake, sinceTake_takeAlert]
    rfl

/-- The alert that a take returns. -/
theorem Tracks.alert_eq (h : w.Tracks maxErrors window calls) :
    w.takeAlert.1 = (overLimit maxErrors (countsSinceTake window calls)).map fun errors =>
      .transientActivationErrors errors maxErrors window := by
  rw [TransientErrorWindow.takeAlert, h.limit, h.span, h.peak]

/-- **Run lemma.** -/
theorem run_tracks (h : new maxErrors window = .ok w) (calls : List Call) :
    (w.run calls).Tracks maxErrors window calls := by
  induction calls using List.reverseRecOn with
  | nil => exact tracks_new h
  | append_singleton calls c ih =>
    rw [run_concat]
    cases c with
    | record now => exact ih.record now
    | takeAlert => exact ih.takeAlert

/-- **The alert of a take.** After any history of errors and takes, a take returns an alert
exactly if an error since the last take was more than the limit allows in its window, and it
reports the largest position that such an error had. The positions stop at the largest `u32`. -/
theorem takeAlert_reports {maxErrors : ℕ} {window : Duration} {w : TransientErrorWindow}
    (hnew : new maxErrors window = .ok w) (calls : List Call) :
    ((∃ alert, (w.run calls).takeAlert.1 = some alert) ↔
      ∃ n ∈ countsSinceTake window calls, maxErrors + 1 ≤ n) ∧
    ∀ alert, (w.run calls).takeAlert.1 = some alert →
      ∃ errors, alert = .transientActivationErrors errors maxErrors window ∧
        errors ∈ countsSinceTake window calls ∧ ∀ n ∈ countsSinceTake window calls, n ≤ errors := by
  rw [(run_tracks hnew calls).alert_eq]
  constructor
  · rw [← Option.isSome_iff_exists, Option.isSome_map, overLimit, List.isSome_max?_iff, ne_eq,
      List.filter_eq_nil_iff]
    simp [Nat.succ_le_iff]
  · intro alert halert
    obtain ⟨errors, hpeak, rfl⟩ := Option.map_eq_some_iff.mp halert
    obtain ⟨hmem, hmax⟩ := List.max?_eq_some_iff.mp hpeak
    obtain ⟨hmem, hover⟩ := List.mem_filter.mp hmem
    refine ⟨errors, rfl, hmem, fun n hn => ?_⟩
    by_cases hn' : maxErrors < n
    · exact hmax n (List.mem_filter.mpr ⟨hn, decide_eq_true hn'⟩)
    · have : maxErrors < errors := of_decide_eq_true hover
      omega

namespace Sample

/-- A second. -/
def second : Duration := ⟨1000000000, by decide⟩

/-- A window with a limit of one. -/
def limitOne : TransientErrorWindow := ⟨1, second, 0, none, none, Nat.zero_le _⟩

/-- Two errors in one window, with a take between them. -/
def straddled : List Call := [.record second, .takeAlert, .record second]

/-- The second error is reported, with the first in its count. -/
theorem straddled_reported : countsSinceTake second straddled = [2] ∧
    ∃ alert, (limitOne.run straddled).takeAlert.1 = some alert := by
  have hcounts : countsSinceTake second straddled = [2] := by
    have hsame : ∀ now ∈ [second], inWindow second second now := by decide
    have hpositions : positions (inWindow second) (recorded straddled) = [1, 2] :=
      positions_of_within hsame
    rw [countsSinceTake, sinceTake, hpositions]
    rfl
  have hnew : new 1 second = .ok limitOne := rfl
  refine ⟨hcounts, (takeAlert_reports hnew straddled).1.mpr ?_⟩
  rw [hcounts]
  exact ⟨2, List.mem_singleton_self 2, le_rfl⟩

/-- The count stops at the largest `u32`: of one error more in a window, the position is not
reported. -/
theorem count_saturates : ¬∀ (maxErrors : ℕ) (window : Duration) (w : TransientErrorWindow)
    (calls : List Call), 1 ≤ maxErrors → maxErrors ≤ U32.max → new maxErrors window = .ok w →
    (recorded calls).Pairwise (· ≤ ·) →
    ((∃ alert, (w.run calls).takeAlert.1 = some alert) ↔
      ∃ n ∈ sinceTake window calls, maxErrors + 1 ≤ n) ∧
    ∀ alert, (w.run calls).takeAlert.1 = some alert →
      ∃ errors, alert = .transientActivationErrors errors maxErrors window ∧
        errors ∈ sinceTake window calls ∧ ∀ n ∈ sinceTake window calls, n ≤ errors := by
  intro hclaim
  let times := second :: List.replicate U32.max second
  have hsame : ∀ now ∈ List.replicate U32.max second, inWindow second second now := by
    intro now hnow
    rw [List.eq_of_mem_replicate hnow]
    decide
  have hsince : sinceTake second (times.map .record) = List.range' 1 (U32.max + 1) := by
    rw [sinceTake_errors, positions_of_within hsame, List.length_replicate]
  have hsorted : (recorded (times.map .record)).Pairwise (· ≤ ·) := by
    rw [recorded_errors]
    exact List.pairwise_cons.mpr ⟨fun now hnow => (List.eq_of_mem_replicate hnow).ge,
      List.pairwise_replicate.mpr (.inr (le_refl second))⟩
  have hmax : 1 ≤ U32.max := by decide
  have hnew : new 1 second = .ok limitOne := rfl
  obtain ⟨halerts, hlargest⟩ := hclaim 1 second limitOne (times.map .record) le_rfl hmax hnew hsorted
  have hlast : U32.max + 1 ∈ sinceTake second (times.map .record) := by
    rw [hsince, List.mem_range'_1]
    omega
  have hover : ∃ n ∈ sinceTake second (times.map .record), 1 + 1 ≤ n :=
    Exists.intro (U32.max + 1) ⟨hlast, by omega⟩
  obtain ⟨alert, halert⟩ := halerts.mpr hover
  obtain ⟨errors, rfl, -, hle⟩ := hlargest alert halert
  have h := run_tracks hnew (times.map .record)
  rw [h.alert_eq] at halert
  obtain ⟨peak, hpeak, heq⟩ := Option.map_eq_some_iff.mp halert
  have hmem := (List.mem_filter.mp (List.max?_mem hpeak)).1
  obtain ⟨n, -, hn⟩ := List.mem_map.mp hmem
  have herrors : peak = errors := by
    injection heq
  have := hle _ hlast
  omega

end Sample

end TransientErrorWindow

end DurableWorkflows
