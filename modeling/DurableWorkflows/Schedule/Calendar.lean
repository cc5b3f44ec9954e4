import DurableWorkflows.Error
import Mathlib.Order.Basic

/-!
# Schedule calendars

A calendar is a cron expression read on the wall clock of a time zone. Both come
from other packages (`cron`, `chrono-tz`): a `Cron` and a `TimeZone` carry what
the calendar relies on. A wall-clock time resolves to the instant of its only
pass, to the earlier pass of a repeated hour, or to the end of the gap that it
falls into.

## Main definitions

- `NaiveDateTime`, `LocalOccurrence`: wall-clock times and the keys of occurrences
- `Cron`, `TimeZone`, `ScheduleCalendar`
- `ScheduleCalendar.resolve`, `nextAfterLocal`, `nextAfter`, `nextRunnableThrough`
- `ScheduleCalendar.Walk`: the occurrences from one on

## Main results

- `ScheduleCalendar.resolve_mono`: a later wall-clock time is not an earlier instant
- `ScheduleCalendar.nextAfter_ne_outOfFuel`, `nextRunnableThrough_ne_outOfFuel`
-/

namespace DurableWorkflows

/-- `NaiveDateTime`: a time on the wall clock, in milliseconds. -/
abbrev NaiveDateTime := ℤ

namespace NaiveDateTime

/-- The start of the year -262143. -/
def min : ℤ := -8334601228800000

/-- The last millisecond of the year 262142. -/
def max : ℤ := 8210266876799999

/-- `trunc_subsecs(0)`. -/
def truncSubsecs (t : NaiveDateTime) : NaiveDateTime := t - t % 1000

theorem truncSubsecs_emod (t : ℤ) : truncSubsecs t % 1000 = 0 := by
  have h : (t - t % 1000) % 1000 = 0 := by omega
  exact h

theorem truncSubsecs_of_whole {t : ℤ} (h : t % 1000 = 0) : truncSubsecs t = t := by
  have h' : t - t % 1000 = t := by omega
  exact h'

end NaiveDateTime

/-- `DateTime::from_timestamp_millis`. -/
def dateTimeFromMillis (millis : ℤ) : Option DbMillis :=
  if NaiveDateTime.min ≤ millis ∧ millis ≤ NaiveDateTime.max then some millis else none

/-- `LocalOccurrence`: the key of an occurrence, in whole seconds. Its text has a
fixed width, so the keys are ordered as their texts are. -/
structure LocalOccurrence where
  datetime : NaiveDateTime
  whole : datetime % 1000 = 0
  deriving DecidableEq

namespace LocalOccurrence

/-- `LocalOccurrence::new`. -/
def new (t : NaiveDateTime) : LocalOccurrence where
  datetime := t.truncSubsecs
  whole := NaiveDateTime.truncSubsecs_emod t

theorem datetime_injective : Function.Injective datetime := by
  intro a b h
  cases a
  cases b
  cases h
  rfl

instance : LinearOrder LocalOccurrence := LinearOrder.lift' datetime datetime_injective

theorem lt_iff {a b : LocalOccurrence} : a < b ↔ a.datetime < b.datetime := Iff.rfl

theorem le_iff {a b : LocalOccurrence} : a ≤ b ↔ a.datetime ≤ b.datetime := Iff.rfl

theorem new_datetime_of_whole {t : NaiveDateTime} (h : t % 1000 = 0) : (new t).datetime = t :=
  NaiveDateTime.truncSubsecs_of_whole h

end LocalOccurrence

-- ════════════════════════════════════════════════════════════════════════
-- Cron expressions and time zones
-- ════════════════════════════════════════════════════════════════════════

/-- `cron::Schedule`: the next match strictly after a time, in whole seconds. -/
structure Cron where
  after : NaiveDateTime → Option NaiveDateTime
  later : ∀ {t t'}, after t = some t' → t < t'
  whole : ∀ {t t'}, after t = some t' → t' % 1000 = 0

/-- `LocalResult`: the instants of a time on the wall clock. -/
inductive LocalResult
  | single (instant : DbMillis)
  | ambiguous (first second : DbMillis)
  | none
  deriving DecidableEq

/-- The instant of the first pass of a time on the wall clock. -/
def LocalResult.earliest : LocalResult → Option DbMillis
  | single instant => some instant
  | ambiguous first second => some (min first second)
  | none => Option.none

/-- The milliseconds of a day. -/
def dayMillis : ℤ := 86400000

/-- `Tz`: a time zone of the time zone database. The offset from UTC is less than
a day, the instant of a time that has one pass shows that time, a later time has
no earlier first pass, and a gap ends at a time that has one pass. -/
structure TimeZone where
  name : String
  fromLocalDatetime : NaiveDateTime → LocalResult
  naiveLocal : DbMillis → NaiveDateTime
  offset : ∀ {t i}, (fromLocalDatetime t).earliest = some i → t - dayMillis ≤ i
  naiveLocal_offset : ∀ i, i - dayMillis ≤ naiveLocal i
  naiveLocal_single : ∀ {t i}, fromLocalDatetime t = .single i → naiveLocal i = t
  mono : ∀ {t t' i i'}, t ≤ t' → (fromLocalDatetime t).earliest = some i →
    (fromLocalDatetime t').earliest = some i' → i ≤ i'
  gap_single : ∀ {t} {k : ℕ} {first second}, (∀ j < k, fromLocalDatetime (t + j * 1000) = .none) →
    0 < k → fromLocalDatetime (t + k * 1000) ≠ .ambiguous first second

-- ════════════════════════════════════════════════════════════════════════
-- Calendars
-- ════════════════════════════════════════════════════════════════════════

/-- `LocalTimeDisposition`. -/
inductive LocalTimeDisposition
  | exact
  | gap
  | ambiguousEarlier
  deriving DecidableEq, Repr

/-- `ScheduleOccurrence`. -/
structure ScheduleOccurrence where
  localDatetime : NaiveDateTime
  localOccurrence : LocalOccurrence
  scheduledFor : DbMillis
  dueAt : DbMillis
  disposition : LocalTimeDisposition
  deriving DecidableEq

/-- `MAX_GAP_SCAN_SECONDS`. -/
def maxGapScanSeconds : ℕ := 86400

/-- `occurrence`. -/
def occurrence (localDatetime : NaiveDateTime) (scheduledFor : DbMillis)
    (disposition : LocalTimeDisposition) : ScheduleOccurrence where
  localDatetime := localDatetime
  localOccurrence := .new localDatetime
  scheduledFor := scheduledFor
  dueAt := scheduledFor
  disposition := disposition

/-- `ScheduleCalendar`. -/
structure ScheduleCalendar where
  schedule : Cron
  timezone : TimeZone

namespace ScheduleCalendar

variable (calendar : ScheduleCalendar)

/-- The scan for the end of a gap: up to `remaining` probes, the first of them
`offset` seconds after the time in the gap. -/
def probeGap (localDatetime : NaiveDateTime) : ℕ → ℕ → Option DbMillis
  | 0, _ => none
  | remaining + 1, offset =>
    if NaiveDateTime.max < localDatetime + offset * 1000 then
      none
    else
      match calendar.timezone.fromLocalDatetime (localDatetime + offset * 1000) with
      | .single instant => some instant
      | .ambiguous .. | .none => probeGap localDatetime remaining (offset + 1)

/-- `resolve`, which is `occurrence_at_local` too. -/
def resolve (localDatetime : NaiveDateTime) : Except DurableError ScheduleOccurrence :=
  match calendar.timezone.fromLocalDatetime localDatetime with
  | .single instant => .ok (occurrence localDatetime instant .exact)
  | .ambiguous first second => .ok (occurrence localDatetime (min first second) .ambiguousEarlier)
  | .none =>
    match calendar.probeGap localDatetime maxGapScanSeconds 1 with
    | some instant => .ok (occurrence localDatetime instant .gap)
    | none => .error (.invalidDefinition
        s!"timezone {calendar.timezone.name} has a local-time gap longer than the supported bound")

/-- `next_after_local`. -/
def nextAfterLocal (after : NaiveDateTime) : Except DurableError ScheduleOccurrence :=
  match calendar.schedule.after after with
  | some candidate => calendar.resolve candidate
  | none => .error (.invalidDefinition "schedule has no next occurrence")

/-- The loop of `next_after`. -/
def nextAfterLoop (after : DbMillis) : ℕ → ScheduleOccurrence → Except DurableError ScheduleOccurrence
  | 0, _ => .error .outOfFuel
  | fuel + 1, next =>
    if next.scheduledFor ≤ after then do
      let next ← calendar.nextAfterLocal next.localDatetime
      nextAfterLoop after fuel next
    else
      .ok next

/-- The most steps between a wall-clock time a day before an instant and one a
day after it. -/
def nextAfterSteps : ℕ := 172802

/-- `next_after`. -/
def nextAfter (after : DbMillis) : Except DurableError ScheduleOccurrence := do
  let next ← calendar.nextAfterLocal (calendar.timezone.naiveLocal after)
  calendar.nextAfterLoop after nextAfterSteps next

/-- The last second before the end of a gap, on the wall clock. -/
def beforeGapEnd (dueAt : DbMillis) : Except DurableError NaiveDateTime :=
  match dateTimeFromMillis dueAt with
  | none => .error (.invalidState .invalidGapTimestamp)
  | some instant =>
    if calendar.timezone.naiveLocal instant - 1000 < NaiveDateTime.min then
      .error (.invalidState .gapTimestampUnderflow)
    else
      .ok (calendar.timezone.naiveLocal instant - 1000)

/-- The loop of `next_runnable_through`. -/
def nextRunnableLoop (through : DbMillis) :
    ℕ → ScheduleOccurrence → Except DurableError (Option ScheduleOccurrence)
  | 0, _ => .error .outOfFuel
  | fuel + 1, next =>
    if next.dueAt ≤ through then
      if next.disposition ≠ .gap then
        .ok (some next)
      else do
        let before ← calendar.beforeGapEnd next.dueAt
        let next ← calendar.nextAfterLocal before
        nextRunnableLoop through fuel next
    else
      .ok none

/-- `next_runnable_through`. -/
def nextRunnableThrough (after : NaiveDateTime) (through : DbMillis) :
    Except DurableError (Option ScheduleOccurrence) := do
  let next ← calendar.nextAfterLocal after
  calendar.nextRunnableLoop through (((through + dayMillis - after) / 1000).toNat + 2) next

variable {calendar} {t t' : NaiveDateTime} {o o' : ScheduleOccurrence} {i : DbMillis}

section Resolve

/-- What a resolved time keeps. -/
theorem resolve_ok (h : calendar.resolve t = .ok o) :
    o.localDatetime = t ∧ o.localOccurrence = .new t ∧ o.scheduledFor = o.dueAt := by
  unfold resolve at h
  split at h
  · cases h
    exact ⟨rfl, rfl, rfl⟩
  · cases h
    exact ⟨rfl, rfl, rfl⟩
  · split at h
    · cases h
      exact ⟨rfl, rfl, rfl⟩
    · cases h

theorem seconds_mono (t : ℤ) {n j : ℕ} (h : n ≤ j) :
    t + (n : ℤ) * 1000 ≤ t + (j : ℤ) * 1000 := by
  omega

theorem probeGap_succ_of_skipped {remaining offset : ℕ}
    (hskipped : ∀ i', calendar.timezone.fromLocalDatetime (t + offset * 1000) ≠ .single i') :
    calendar.probeGap t (remaining + 1) offset = some i ↔
      t + (offset : ℤ) * 1000 ≤ NaiveDateTime.max ∧
        calendar.probeGap t remaining (offset + 1) = some i := by
  rw [probeGap]
  split
  next hover => exact ⟨nofun, fun hprobe => absurd hprobe.1 (not_le.mpr hover)⟩
  next hmax =>
    split
    next instant hsingle => exact absurd hsingle (hskipped instant)
    all_goals exact ⟨fun hprobe => ⟨not_lt.mp hmax, hprobe⟩, And.right⟩

/-- The scan of a gap finds the first probe with one pass. -/
theorem probeGap_iff {remaining offset : ℕ} : calendar.probeGap t remaining offset = some i ↔
    ∃ k : ℕ, offset ≤ k ∧ k < offset + remaining ∧ t + (k : ℤ) * 1000 ≤ NaiveDateTime.max ∧
      calendar.timezone.fromLocalDatetime (t + k * 1000) = .single i ∧
      ∀ j : ℕ, offset ≤ j → j < k → ∀ i',
        calendar.timezone.fromLocalDatetime (t + j * 1000) ≠ .single i' := by
  induction remaining generalizing offset with
  | zero =>
    refine ⟨nofun, ?_⟩
    rintro ⟨k, hle, hlt, -⟩
    omega
  | succ remaining ih =>
    by_cases hsingle : ∃ i', calendar.timezone.fromLocalDatetime (t + offset * 1000) = .single i'
    · obtain ⟨instant, hsingle⟩ := hsingle
      rw [probeGap, hsingle]
      constructor
      · intro hprobe
        split at hprobe
        next => cases hprobe
        next hmax =>
          cases hprobe
          exact ⟨offset, le_rfl, by omega, not_lt.mp hmax, hsingle, fun j hoj hjk => by omega⟩
      · rintro ⟨k, hle, -, hmax, hfound, hnot⟩
        rcases Nat.eq_or_lt_of_le hle with rfl | hlt
        · rw [if_neg (not_lt.mpr hmax)]
          cases hsingle.symm.trans hfound
          rfl
        · exact absurd hsingle (hnot offset le_rfl hlt instant)
    · have hskipped := not_exists.mp hsingle
      rw [probeGap_succ_of_skipped hskipped, ih]
      constructor
      · rintro ⟨-, k, hle, hlt, hmax, hfound, hnot⟩
        refine ⟨k, by omega, by omega, hmax, hfound, fun j hoj hjk => ?_⟩
        rcases Nat.eq_or_lt_of_le hoj with rfl | hlt
        · exact hskipped
        · exact hnot j hlt hjk
      · rintro ⟨k, hle, hlt, hmax, hfound, hnot⟩
        have hne : offset ≠ k := by
          rintro rfl
          exact hskipped i hfound
        refine ⟨(seconds_mono t hle).trans hmax, k, by omega, by omega, hmax, hfound, ?_⟩
        exact fun j hoj hjk => hnot j (by omega) hjk

/-- The scan of a gap stops at the first time after it. -/
theorem probeGap_eq_some {remaining offset : ℕ}
    (h : calendar.probeGap t remaining offset = some i) (hoffset : 0 < offset)
    (hgap : ∀ j < offset, calendar.timezone.fromLocalDatetime (t + j * 1000) = .none) :
    ∃ k : ℕ, 0 < k ∧ (∀ j < k, calendar.timezone.fromLocalDatetime (t + j * 1000) = .none) ∧
      calendar.timezone.fromLocalDatetime (t + k * 1000) = .single i := by
  induction remaining generalizing offset with
  | zero => cases h
  | succ remaining ih =>
    rw [probeGap] at h
    split at h
    · cases h
    split at h
    · rename_i instant hsingle
      cases h
      exact ⟨offset, hoffset, hgap, hsingle⟩
    · rename_i hambiguous
      exact absurd hambiguous (calendar.timezone.gap_single hgap hoffset)
    · rename_i hnone
      refine ih h (Nat.succ_pos _) fun j hj => ?_
      rcases Nat.lt_succ_iff_lt_or_eq.mp hj with hlt | rfl
      · exact hgap j hlt
      · exact hnone

/-- A time resolves to the first pass of the first time from it on that exists. -/
theorem resolve_first (h : calendar.resolve t = .ok o) :
    ∃ k : ℕ, (∀ j < k, calendar.timezone.fromLocalDatetime (t + j * 1000) = .none) ∧
      (calendar.timezone.fromLocalDatetime (t + k * 1000)).earliest = some o.dueAt ∧
      (o.disposition = .gap → 0 < k ∧ calendar.timezone.naiveLocal o.dueAt = t + k * 1000) := by
  have hzero : t + (0 : ℕ) * 1000 = t := by simp
  unfold resolve at h
  split at h
  · rename_i instant hsingle
    cases h
    exact ⟨0, by simp, by rw [hzero, hsingle]; rfl, nofun⟩
  · rename_i first second hambiguous
    cases h
    exact ⟨0, by simp, by rw [hzero, hambiguous]; rfl, nofun⟩
  · rename_i hnone
    split at h
    · rename_i instant hprobe
      cases h
      obtain ⟨k, hpos, hgap, hsingle⟩ := probeGap_eq_some hprobe Nat.one_pos fun j hj => by
        rw [Nat.lt_one_iff.mp hj, hzero]
        exact hnone
      exact ⟨k, hgap, by rw [hsingle]; rfl, fun _ => ⟨hpos, calendar.timezone.naiveLocal_single hsingle⟩⟩
    · cases h

/-- A whole number of seconds apart. -/
theorem exists_seconds {t t' : ℤ} (hle : t ≤ t') (ht : t % 1000 = 0) (ht' : t' % 1000 = 0) :
    ∃ n : ℕ, t' = t + n * 1000 :=
  ⟨((t' - t) / 1000).toNat, by omega⟩

theorem add_seconds (t : ℤ) (n j : ℕ) :
    t + (n : ℤ) * 1000 + (j : ℤ) * 1000 = t + ((n + j : ℕ) : ℤ) * 1000 := by
  omega

/-- A later time on the wall clock is not an earlier instant. -/
theorem resolve_mono (hle : t ≤ t') (ht : t % 1000 = 0) (ht' : t' % 1000 = 0)
    (h : calendar.resolve t = .ok o) (h' : calendar.resolve t' = .ok o') : o.dueAt ≤ o'.dueAt := by
  obtain ⟨k, hgap, hfirst, -⟩ := resolve_first h
  obtain ⟨k', hgap', hfirst', -⟩ := resolve_first h'
  obtain ⟨n, rfl⟩ := exists_seconds hle ht ht'
  rw [add_seconds] at hfirst'
  have hsum : k ≤ n + k' := by
    -- the first time that exists cannot lie before one that does not
    by_contra hlt
    rw [hgap (n + k') (not_le.mp hlt)] at hfirst'
    cases hfirst'
  refine calendar.timezone.mono ?_ hfirst hfirst'
  exact seconds_mono t hsum

/-- The instant of a time is less than a day before it. -/
theorem resolve_offset (h : calendar.resolve t = .ok o) : t - dayMillis ≤ o.dueAt := by
  obtain ⟨k, -, hfirst, -⟩ := resolve_first h
  have hoffset := calendar.timezone.offset hfirst
  have hlinear : ∀ a d due : ℤ, a + (k : ℤ) * 1000 - d ≤ due → a - d ≤ due := by
    intro a d due
    omega
  exact hlinear t dayMillis o.dueAt hoffset

end Resolve

section Next

theorem nextAfterLocal_ok (h : calendar.nextAfterLocal t = .ok o) :
    t < o.localDatetime ∧ o.localDatetime % 1000 = 0 ∧
      calendar.resolve o.localDatetime = .ok o := by
  unfold nextAfterLocal at h
  split at h
  · rename_i candidate hafter
    have hlocal := (resolve_ok h).1
    rw [hlocal]
    exact ⟨calendar.schedule.later hafter, calendar.schedule.whole hafter, h⟩
  · cases h

theorem nextAfterLocal_ne_outOfFuel : calendar.nextAfterLocal t ≠ .error .outOfFuel := by
  unfold nextAfterLocal resolve
  split
  · split
    · nofun
    · nofun
    · split <;> nofun
  · nofun

theorem nextAfterLoop_ok {after : DbMillis} {fuel : ℕ} (h : calendar.nextAfterLoop after fuel o = .ok o')
    (hwhole : o.localDatetime % 1000 = 0) (hresolve : calendar.resolve o.localDatetime = .ok o) :
    o.localDatetime ≤ o'.localDatetime ∧ o'.localDatetime % 1000 = 0 ∧
      calendar.resolve o'.localDatetime = .ok o' ∧ after < o'.scheduledFor := by
  induction fuel generalizing o with
  | zero => cases h
  | succ fuel ih =>
    rw [nextAfterLoop] at h
    split at h
    · obtain ⟨next, hnext, hloop⟩ := bind_eq_ok h
      obtain ⟨hlt, hwhole', hresolve'⟩ := nextAfterLocal_ok hnext
      obtain ⟨hle, hrest⟩ := ih hloop hwhole' hresolve'
      exact ⟨hlt.le.trans hle, hrest⟩
    · rename_i hlater
      cases h
      exact ⟨le_rfl, hwhole, hresolve, not_le.mp hlater⟩

/-- `next_after` returns an occurrence of the calendar after the instant. -/
theorem nextAfter_ok {after : DbMillis} (h : calendar.nextAfter after = .ok o) :
    o.localDatetime % 1000 = 0 ∧ calendar.resolve o.localDatetime = .ok o ∧
      after < o.scheduledFor := by
  obtain ⟨next, hnext, hloop⟩ := bind_eq_ok h
  obtain ⟨-, hwhole, hresolve⟩ := nextAfterLocal_ok hnext
  exact (nextAfterLoop_ok hloop hwhole hresolve).2

end Next

section Fuel

/-- The loop of `next_after` ends once the wall clock is a day past the instant. -/
theorem nextAfterLoop_ne_outOfFuel {after : DbMillis} {fuel : ℕ}
    (hfuel : after + dayMillis < o.localDatetime + (fuel : ℤ) * 1000)
    (hwhole : o.localDatetime % 1000 = 0) (hresolve : calendar.resolve o.localDatetime = .ok o) :
    calendar.nextAfterLoop after (fuel + 1) o ≠ .error .outOfFuel := by
  induction fuel generalizing o with
  | zero =>
    have hoffset := resolve_offset hresolve
    have hscheduled := (resolve_ok hresolve).2.2
    have hlinear : ∀ a l d due : ℤ, a + d < l + (0 : ℕ) * 1000 → l - d ≤ due → ¬due ≤ a := by
      intro a l d due
      omega
    rw [nextAfterLoop, if_neg]
    · nofun
    · rw [hscheduled]
      exact hlinear after o.localDatetime dayMillis o.dueAt hfuel hoffset
  | succ fuel ih =>
    rw [nextAfterLoop]
    split
    · cases hnext : calendar.nextAfterLocal o.localDatetime with
      | error e =>
        intro h
        rw [show e = .outOfFuel by cases h; rfl] at hnext
        exact nextAfterLocal_ne_outOfFuel hnext
      | ok next =>
        obtain ⟨hlt, hwhole', hresolve'⟩ := nextAfterLocal_ok hnext
        obtain ⟨n, hn⟩ := exists_seconds hlt.le hwhole hwhole'
        refine ih ?_ hwhole' hresolve'
        have hlinear : ∀ a d l l' : ℤ, a + d < l + ((fuel + 1 : ℕ) : ℤ) * 1000 → l < l' →
            l' = l + (n : ℤ) * 1000 → a + d < l' + (fuel : ℤ) * 1000 := by
          intro a d l l'
          omega
        exact hlinear after dayMillis o.localDatetime next.localDatetime hfuel hlt hn
    · nofun

/-- `next_after` ends. -/
theorem nextAfter_ne_outOfFuel {after : DbMillis} :
    calendar.nextAfter after ≠ .error .outOfFuel := by
  unfold nextAfter
  cases hnext : calendar.nextAfterLocal (calendar.timezone.naiveLocal after) with
  | error e =>
    intro h
    rw [show e = .outOfFuel by cases h; rfl] at hnext
    exact nextAfterLocal_ne_outOfFuel hnext
  | ok next =>
    obtain ⟨hlt, hwhole, hresolve⟩ := nextAfterLocal_ok hnext
    refine nextAfterLoop_ne_outOfFuel ?_ hwhole hresolve
    have hoffset := calendar.timezone.naiveLocal_offset after
    have hlinear : ∀ a start l : ℤ, a - 86400000 ≤ start → start < l →
        a + 86400000 < l + (172801 : ℕ) * 1000 := by
      intro a start l
      omega
    exact hlinear after _ next.localDatetime hoffset hlt

/-- The second before the end of a gap is not before the time in the gap. -/
theorem beforeGapEnd_ok {before : NaiveDateTime} (hgap : o.disposition = .gap)
    (hresolve : calendar.resolve t = .ok o) (h : calendar.beforeGapEnd o.dueAt = .ok before) :
    t ≤ before := by
  obtain ⟨k, -, -, hend⟩ := resolve_first hresolve
  obtain ⟨hpos, hlocal⟩ := hend hgap
  unfold beforeGapEnd dateTimeFromMillis at h
  split at h
  · cases h
  rename_i instant hinstant
  split at hinstant
  · cases hinstant
    split at h
    · cases h
    · cases h
      rw [hlocal]
      have hlinear : ∀ a : ℤ, a ≤ a + (k : ℤ) * 1000 - 1000 := by
        intro a
        omega
      exact hlinear t
  · cases hinstant

theorem beforeGapEnd_ne_outOfFuel : calendar.beforeGapEnd i ≠ .error .outOfFuel := by
  unfold beforeGapEnd
  split
  · nofun
  · split <;> nofun

theorem nextRunnableLoop_ne_outOfFuel {through : DbMillis} {fuel : ℕ}
    (hfuel : through + dayMillis < o.localDatetime + (fuel : ℤ) * 1000)
    (hwhole : o.localDatetime % 1000 = 0) (hresolve : calendar.resolve o.localDatetime = .ok o) :
    calendar.nextRunnableLoop through (fuel + 1) o ≠ .error .outOfFuel := by
  induction fuel generalizing o with
  | zero =>
    have hoffset := resolve_offset hresolve
    have hlinear : ∀ a l d due : ℤ, a + d < l + (0 : ℕ) * 1000 → l - d ≤ due → ¬due ≤ a := by
      intro a l d due
      omega
    rw [nextRunnableLoop, if_neg]
    · nofun
    · exact hlinear through o.localDatetime dayMillis o.dueAt hfuel hoffset
  | succ fuel ih =>
    rw [nextRunnableLoop]
    split
    · split
      · nofun
      rename_i hgap
      cases hbefore : calendar.beforeGapEnd o.dueAt with
      | error e =>
        intro h
        rw [show e = .outOfFuel by cases h; rfl] at hbefore
        exact beforeGapEnd_ne_outOfFuel hbefore
      | ok before =>
        have hle := beforeGapEnd_ok (not_not.mp hgap) hresolve hbefore
        cases hnext : calendar.nextAfterLocal before with
        | error e =>
          intro h
          rw [show e = .outOfFuel by
            simp only [bind, Except.bind, hnext] at h
            cases h
            rfl] at hnext
          exact nextAfterLocal_ne_outOfFuel hnext
        | ok next =>
          obtain ⟨hlt, hwhole', hresolve'⟩ := nextAfterLocal_ok hnext
          obtain ⟨n, hn⟩ := exists_seconds (hle.trans hlt.le) hwhole hwhole'
          have hlinear : ∀ a d l b l' : ℤ, a + d < l + ((fuel + 1 : ℕ) : ℤ) * 1000 → l ≤ b →
              b < l' → l' = l + (n : ℤ) * 1000 → a + d < l' + (fuel : ℤ) * 1000 := by
            intro a d l b l'
            omega
          simp only [bind, Except.bind, hnext]
          exact ih (hlinear through dayMillis o.localDatetime before next.localDatetime hfuel hle
            hlt hn) hwhole' hresolve'
    · nofun

/-- `next_runnable_through` ends. -/
theorem nextRunnableThrough_ne_outOfFuel {after : NaiveDateTime} {through : DbMillis} :
    calendar.nextRunnableThrough after through ≠ .error .outOfFuel := by
  unfold nextRunnableThrough
  cases hnext : calendar.nextAfterLocal after with
  | error e =>
    intro h
    rw [show e = .outOfFuel by cases h; rfl] at hnext
    exact nextAfterLocal_ne_outOfFuel hnext
  | ok next =>
    obtain ⟨hlt, hwhole, hresolve⟩ := nextAfterLocal_ok hnext
    refine nextRunnableLoop_ne_outOfFuel ?_ hwhole hresolve
    have hlinear : ∀ a b l : ℤ, b < l → a < l + (((a - b) / 1000).toNat + 1 : ℕ) * 1000 := by
      intro a b l
      omega
    exact hlinear (through + dayMillis) after next.localDatetime hlt

end Fuel

section Walk

variable {os os' : List ScheduleOccurrence} {o₀ next : ScheduleOccurrence}

/-- An occurrence that the calendar resolves a wall-clock time to. -/
def Resolves (calendar : ScheduleCalendar) (o : ScheduleOccurrence) : Prop :=
  o.localDatetime % 1000 = 0 ∧ calendar.resolve o.localDatetime = .ok o

/-- The occurrences from `o` on up to one before `next`, each `next_after_local` of
the one before it. -/
inductive Walk (calendar : ScheduleCalendar) :
    ScheduleOccurrence → List ScheduleOccurrence → ScheduleOccurrence → Prop
  | nil (o : ScheduleOccurrence) : Walk calendar o [] o
  | cons {o o' next : ScheduleOccurrence} {os : List ScheduleOccurrence}
      (hnext : calendar.nextAfterLocal o.localDatetime = .ok o') (hwalk : Walk calendar o' os next) :
      Walk calendar o (o :: os) next

/-- The key of an occurrence of the calendar shows its wall-clock time. -/
theorem Resolves.datetime (h : calendar.Resolves o) : o.localOccurrence.datetime = o.localDatetime := by
  rw [(resolve_ok h.2).2.1]
  exact LocalOccurrence.new_datetime_of_whole h.1

/-- The key of an occurrence resolves to that occurrence. -/
theorem resolves_of_resolve {key : LocalOccurrence} (h : calendar.resolve key.datetime = .ok o) :
    calendar.Resolves o ∧ o.localOccurrence = key := by
  have hdatetime := (resolve_ok h).1
  have hresolves : calendar.Resolves o := by
    refine ⟨?_, by rw [hdatetime]; exact h⟩
    rw [hdatetime]
    exact key.whole
  refine ⟨hresolves, LocalOccurrence.datetime_injective ?_⟩
  rw [hresolves.datetime, hdatetime]

theorem resolves_of_nextAfterLocal (h : calendar.nextAfterLocal t = .ok o) :
    calendar.Resolves o :=
  (nextAfterLocal_ok h).2

/-- The next occurrence has a later key. -/
theorem lt_of_nextAfterLocal (ho : calendar.Resolves o)
    (h : calendar.nextAfterLocal o.localDatetime = .ok o') : o.localOccurrence < o'.localOccurrence := by
  rw [LocalOccurrence.lt_iff, ho.datetime, (resolves_of_nextAfterLocal h).datetime]
  exact (nextAfterLocal_ok h).1

namespace Walk

theorem append (h : calendar.Walk o₀ os o) (h' : calendar.Walk o os' next) :
    calendar.Walk o₀ (os ++ os') next := by
  induction h with
  | nil => exact h'
  | cons hnext _ ih => exact .cons hnext (ih h')

/-- The occurrences of a walk from an occurrence of the calendar. -/
theorem resolves (h : calendar.Walk o₀ os next) (h₀ : calendar.Resolves o₀) :
    (∀ o ∈ os, calendar.Resolves o) ∧ calendar.Resolves next := by
  induction h with
  | nil => exact ⟨fun _ h => absurd h List.not_mem_nil, h₀⟩
  | cons hnext _ ih =>
    obtain ⟨hos, hlast⟩ := ih (resolves_of_nextAfterLocal hnext)
    exact ⟨List.forall_mem_cons.mpr ⟨h₀, hos⟩, hlast⟩

/-- A walk goes forward: its keys come after the first one and before the next. -/
theorem bounds (h : calendar.Walk o₀ os next) (h₀ : calendar.Resolves o₀) :
    o₀.localOccurrence ≤ next.localOccurrence ∧ ∀ o ∈ os,
      o₀.localOccurrence ≤ o.localOccurrence ∧ o.localOccurrence < next.localOccurrence := by
  induction h with
  | nil => exact ⟨le_rfl, fun _ h => absurd h List.not_mem_nil⟩
  | cons hnext _ ih =>
    obtain ⟨hle, hos⟩ := ih (resolves_of_nextAfterLocal hnext)
    have hlt := lt_of_nextAfterLocal h₀ hnext
    refine ⟨hlt.le.trans hle, List.forall_mem_cons.mpr ⟨⟨le_rfl, hlt.trans_le hle⟩, fun o ho => ?_⟩⟩
    exact ⟨hlt.le.trans (hos o ho).1, (hos o ho).2⟩

/-- The keys of a walk are strictly increasing. -/
theorem pairwise (h : calendar.Walk o₀ os next) (h₀ : calendar.Resolves o₀) :
    os.Pairwise fun o o' => o.localOccurrence < o'.localOccurrence := by
  induction h with
  | nil => exact .nil
  | cons hnext hwalk ih =>
    have hresolves := resolves_of_nextAfterLocal hnext
    refine List.pairwise_cons.mpr ⟨fun o ho => ?_, ih hresolves⟩
    exact (lt_of_nextAfterLocal h₀ hnext).trans_le ((hwalk.bounds hresolves).2 o ho).1

/-- Two walks from one occurrence: one of them is the start of the other. -/
theorem prefixes (h : calendar.Walk o₀ os o) (h' : calendar.Walk o₀ os' o') :
    (∃ rest, os' = os ++ rest ∧ calendar.Walk o rest o') ∨
      ∃ rest, os = os' ++ rest ∧ calendar.Walk o' rest o := by
  induction h generalizing os' with
  | nil => exact .inl ⟨os', rfl, h'⟩
  | cons hnext hwalk ih =>
    cases h' with
    | nil => exact .inr ⟨_, rfl, .cons hnext hwalk⟩
    | cons hnext' hwalk' =>
      cases hnext.symm.trans hnext'
      rcases ih hwalk' with ⟨rest, rfl, hrest⟩ | ⟨rest, rfl, hrest⟩
      · exact .inl ⟨rest, rfl, hrest⟩
      · exact .inr ⟨rest, rfl, hrest⟩

end Walk

/-- A later occurrence of the calendar is not due earlier. -/
theorem Resolves.dueAt_le (h : calendar.Resolves o) (h' : calendar.Resolves o')
    (hle : o.localOccurrence ≤ o'.localOccurrence) : o.dueAt ≤ o'.dueAt := by
  rw [LocalOccurrence.le_iff, h.datetime, h'.datetime] at hle
  exact resolve_mono hle h.1 h'.1 h.2 h'.2

end Walk

end ScheduleCalendar

end DurableWorkflows
