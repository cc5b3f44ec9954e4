import DurableWorkflows.Base.Offset
import DurableWorkflows.Schedule.Calendar

/-!
# Time zones with an offset

A time zone whose wall clock shows every instant with an offset from UTC. The
offset is a whole number of seconds and changes on whole seconds; the changes are
more than a day apart, and each is a gap shorter than a day or a fold. A
wall-clock time stands for the instants that show it. Such a zone is a `TimeZone`,
and it resolves every wall-clock time.

## Main definitions

- `OffsetZone`: a zone with its offset
- `OffsetZone.timeZone`: what the calendars use of it
- `OffsetZone.oneSummer`: a zone with one gap and one fold

## Main results

- `OffsetZone.earliest_eq_some`: the first pass of a time
- `OffsetZone.resolve_total`: every time of a supported year resolves
-/

namespace DurableWorkflows

open Offset

/-- A time zone with its offset from UTC at every instant. The instants of a wall-clock time
are those that show it; there are two of them at most. -/
structure OffsetZone where
  name : String
  offset : DbMillis → ℤ
  fromLocalDatetime : NaiveDateTime → LocalResult
  sparse : Sparse dayMillis offset
  whole : ∀ i, (1000 : ℤ) ∣ offset i
  changes : ∀ i, Change offset i → (1000 : ℤ) ∣ i
  gap : ∀ i, offset i - offset (i - 1) < dayMillis
  single : ∀ {t i}, fromLocalDatetime t = .single i → ∀ j, Offset.shown offset j = t ↔ j = i
  ambiguous : ∀ {t first second}, fromLocalDatetime t = .ambiguous first second →
    first ≠ second ∧ ∀ j, Offset.shown offset j = t ↔ j = first ∨ j = second
  none : ∀ {t}, fromLocalDatetime t = .none → ∀ j, Offset.shown offset j ≠ t

namespace OffsetZone

variable (zone : OffsetZone) {t t' : NaiveDateTime} {i j : DbMillis}

/-- The first pass of a time is the first instant that shows it. -/
theorem earliest_eq_some (hfirst : (zone.fromLocalDatetime t).earliest = some i) :
    Offset.shown zone.offset i = t ∧ ∀ j, Offset.shown zone.offset j = t → i ≤ j := by
  cases hresult : zone.fromLocalDatetime t with
  | single instant =>
    rw [hresult] at hfirst
    cases hfirst
    have hpasses := zone.single hresult
    exact ⟨(hpasses i).mpr rfl, fun j hj => ((hpasses j).mp hj).ge⟩
  | ambiguous first second =>
    rw [hresult] at hfirst
    cases hfirst
    obtain ⟨-, hpasses⟩ := zone.ambiguous hresult
    refine ⟨(hpasses _).mpr (min_choice first second), fun j hj => ?_⟩
    rcases (hpasses j).mp hj with rfl | rfl
    · exact min_le_left ..
    · exact min_le_right ..
  | none =>
    rw [hresult] at hfirst
    cases hfirst

/-- The second after one that is skipped has one pass at most. -/
theorem not_ambiguous_after_none (hnone : zone.fromLocalDatetime t = .none)
    (first second : DbMillis) : zone.fromLocalDatetime (t + 1000) ≠ .ambiguous first second := by
  intro hambiguous
  obtain ⟨hne, hpasses⟩ := zone.ambiguous hambiguous
  exact hne (zone.sparse.unique_after_skipped (by decide) zone.whole zone.changes
    (zone.none hnone) ((hpasses first).mpr (.inl rfl)) ((hpasses second).mpr (.inr rfl)))

/-- What the calendars use of a zone. -/
def timeZone : TimeZone where
  name := zone.name
  fromLocalDatetime := zone.fromLocalDatetime
  naiveLocal := Offset.shown zone.offset
  offset := by
    intro t i hfirst
    have hshown := (zone.earliest_eq_some hfirst).1
    have hupper := zone.sparse.upper i
    unfold Offset.shown at hshown
    have hlinear : ∀ a o d s : ℤ, a + o = s → o < d → s - d ≤ a := by omega
    exact hlinear _ _ _ _ hshown hupper
  naiveLocal_offset := by
    intro i
    have hlower := zone.sparse.lower i
    have hlinear : ∀ a o d : ℤ, -d < o → a - d ≤ a + o := by omega
    exact hlinear _ _ _ hlower
  naiveLocal_single := fun hsingle => (zone.single hsingle _).mpr rfl
  mono := by
    intro t t' i i' hle hfirst hfirst'
    obtain ⟨hshown, hleast⟩ := zone.earliest_eq_some hfirst
    exact zone.sparse.first_le hle hshown hleast (zone.earliest_eq_some hfirst').1
  gap_single := by
    intro t k first second hgap hpos
    obtain ⟨n, rfl⟩ := Nat.exists_eq_succ_of_ne_zero hpos.ne'
    have hnone := zone.not_ambiguous_after_none (hgap n n.lt_succ_self) first second
    have hnext : t + (n.succ : ℤ) * 1000 = t + (n : ℤ) * 1000 + 1000 := by
      rw [Nat.cast_succ, add_mul, one_mul, add_assoc]
    rwa [hnext]

/-- A skipped time is less than a day before a time that is shown. -/
theorem exists_shown_after (hnone : zone.fromLocalDatetime t = .none) (hwhole : t % 1000 = 0) :
    ∃ k : ℕ, 0 < k ∧ (k : ℤ) * 1000 < dayMillis ∧ ∃ i, Offset.shown zone.offset i = t + k * 1000 := by
  obtain ⟨c, hbefore, hafter⟩ := zone.sparse.skipped (zone.none hnone)
  have hchange := change_of_skipped hbefore hafter
  obtain ⟨m, hm⟩ := zone.changes c hchange
  obtain ⟨n, hn⟩ := zone.whole c
  have hgap := zone.gap c
  unfold Offset.shown at hbefore hafter
  have hsize : ∀ c t o o' m n d : ℤ, c - 1 + o' < t → t < c + o → c = 1000 * m → o = 1000 * n →
      o - o' < d → t % 1000 = 0 →
      0 < ((c + o - t) / 1000).toNat ∧ (((c + o - t) / 1000).toNat : ℤ) * 1000 < d ∧
        c + o = t + (((c + o - t) / 1000).toNat : ℤ) * 1000 := by omega
  obtain ⟨hpos, hday, hshown⟩ := hsize c t _ _ m n _ hbefore hafter hm hn hgap hwhole
  exact ⟨_, hpos, hday, c, hshown⟩

/-- Every time of a supported year resolves. -/
theorem resolve_total (schedule : Cron) (hwhole : t % 1000 = 0)
    (hmax : t + dayMillis ≤ NaiveDateTime.max) :
    ∃ o, (⟨schedule, zone.timeZone⟩ : ScheduleCalendar).resolve t = .ok o := by
  unfold ScheduleCalendar.resolve
  split
  next => exact ⟨_, rfl⟩
  next => exact ⟨_, rfl⟩
  next hnone =>
    -- the first time that is shown after it has one pass, and is within the scan
    obtain ⟨k, hpos, hday, i, hi⟩ := zone.exists_shown_after hnone hwhole
    have hexists : ∃ k : ℕ, zone.fromLocalDatetime (t + k * 1000) ≠ .none :=
      ⟨k, fun hk => zone.none hk i hi⟩
    classical
    have hleast := Nat.find_spec hexists
    have hbefore := fun (j : ℕ) (hj : j < Nat.find hexists) =>
      not_not.mp (Nat.find_min hexists hj)
    have hle := Nat.find_min' hexists fun hk => zone.none hk i hi
    set k₀ := Nat.find hexists
    have hpos₀ : 0 < k₀ := by
      rw [Nat.pos_iff_ne_zero]
      intro hzero
      rw [hzero, Nat.cast_zero, zero_mul, add_zero] at hleast
      exact hleast hnone
    cases hresult : zone.fromLocalDatetime (t + k₀ * 1000) with
    | none => exact absurd hresult hleast
    | ambiguous first second =>
      exact absurd hresult (zone.timeZone.gap_single hbefore hpos₀)
    | single instant =>
      have hscan : k₀ < 1 + maxGapScanSeconds ∧ t + (k₀ : ℤ) * 1000 ≤ NaiveDateTime.max := by
        have hbound : ∀ t max : ℤ, t + 86400000 ≤ max → (k : ℤ) * 1000 < 86400000 →
            k₀ < 1 + 86400 ∧ t + (k₀ : ℤ) * 1000 ≤ max := by omega
        exact hbound t _ hmax hday
      have hprobe : (⟨schedule, zone.timeZone⟩ : ScheduleCalendar).probeGap t maxGapScanSeconds 1 =
          some instant := by
        refine ScheduleCalendar.probeGap_iff.mpr
          ⟨k₀, hpos₀, hscan.1, hscan.2, hresult, fun j _ hj i' hsingle => ?_⟩
        cases (hbefore j hj).symm.trans hsingle
      rw [hprobe]
      exact ⟨_, rfl⟩

/-- The offset of `oneSummer`: an hour for the first 180 days. -/
def summerOffset (i : ℤ) : ℤ := if 0 ≤ i ∧ i < 15552000000 then 3600000 else 0

theorem summerOffset_cases (i : ℤ) : (0 ≤ i ∧ i < 15552000000 ∧ summerOffset i = 3600000) ∨
    ((i < 0 ∨ 15552000000 ≤ i) ∧ summerOffset i = 0) := by
  unfold summerOffset
  split <;> omega

/-- When the clock of `oneSummer` shows a time. -/
theorem shown_summerOffset (t j : ℤ) : Offset.shown summerOffset j = t ↔
    (j < 0 ∧ j = t) ∨ (0 ≤ j ∧ j < 15552000000 ∧ j = t - 3600000) ∨
      (15552000000 ≤ j ∧ j = t) := by
  unfold Offset.shown
  have := summerOffset_cases j
  omega

/-- The passes of a time in `oneSummer`. -/
def summerLocal (t : ℤ) : LocalResult :=
  if t < 0 then .single t
  else if t < 3600000 then .none
  else if t < 15552000000 then .single (t - 3600000)
  else if t < 15555600000 then .ambiguous (t - 3600000) t
  else .single t

theorem summerLocal_single {t i : ℤ} (h : summerLocal t = .single i) (j : ℤ) :
    Offset.shown summerOffset j = t ↔ j = i := by
  rw [shown_summerOffset]
  unfold summerLocal at h
  split at h
  · cases h
    omega
  split at h
  · cases h
  split at h
  · cases h
    omega
  split at h
  · cases h
  · cases h
    omega

theorem summerLocal_ambiguous {t first second : ℤ} (h : summerLocal t = .ambiguous first second) :
    first ≠ second ∧ ∀ j, Offset.shown summerOffset j = t ↔ j = first ∨ j = second := by
  unfold summerLocal at h
  split at h
  · cases h
  split at h
  · cases h
  split at h
  · cases h
  split at h
  · cases h
    refine ⟨by omega, fun j => ?_⟩
    rw [shown_summerOffset]
    omega
  · cases h

theorem summerLocal_none {t : ℤ} (h : summerLocal t = .none) (j : ℤ) :
    Offset.shown summerOffset j ≠ t := by
  rw [Ne, shown_summerOffset]
  unfold summerLocal at h
  split at h
  · cases h
  split at h
  · omega
  split at h
  · cases h
  split at h <;> cases h

theorem summerOffset_sparse : Sparse dayMillis summerOffset where
  lower i := by
    unfold dayMillis
    have := summerOffset_cases i
    omega
  upper i := by
    unfold dayMillis
    have := summerOffset_cases i
    omega
  apart {i j} hlt hi hj := by
    unfold dayMillis
    unfold Change at hi hj
    have := summerOffset_cases i
    have := summerOffset_cases (i - 1)
    have := summerOffset_cases j
    have := summerOffset_cases (j - 1)
    omega
  fold {i j} hlt hi hlong := by
    unfold dayMillis at hlong
    have := summerOffset_cases j
    have := summerOffset_cases (j - 1)
    omega

/-- A zone with one gap and one fold. -/
def oneSummer : OffsetZone where
  name := "summer"
  offset := summerOffset
  fromLocalDatetime := summerLocal
  sparse := summerOffset_sparse
  whole i := by
    have := summerOffset_cases i
    omega
  changes i hi := by
    unfold Change at hi
    have := summerOffset_cases i
    have := summerOffset_cases (i - 1)
    omega
  gap i := by
    unfold dayMillis
    have := summerOffset_cases i
    have := summerOffset_cases (i - 1)
    omega
  single := summerLocal_single
  ambiguous := summerLocal_ambiguous
  none := summerLocal_none

/-- A time in the gap of `oneSummer` moves to its end. -/
theorem resolve_summer (schedule : Cron) :
    (⟨schedule, oneSummer.timeZone⟩ : ScheduleCalendar).resolve 0 = .ok (occurrence 0 0 .gap) := by
  have hnone : (⟨schedule, oneSummer.timeZone⟩ : ScheduleCalendar).timezone.fromLocalDatetime 0 =
      .none := rfl
  have hprobe : (⟨schedule, oneSummer.timeZone⟩ : ScheduleCalendar).probeGap 0
      maxGapScanSeconds 1 = some 0 := by
    have hscan : 3600 < 1 + 86400 := by omega
    apply ScheduleCalendar.probeGap_iff.mpr
    refine ⟨3600, by omega, hscan, by decide, rfl, fun j _ hj i hsingle => ?_⟩
    rw [show oneSummer.timeZone.fromLocalDatetime = summerLocal from rfl] at hsingle
    have hshown := (summerLocal_single hsingle i).mpr rfl
    rw [shown_summerOffset] at hshown
    omega
  rw [ScheduleCalendar.resolve, hnone]
  dsimp only
  rw [hprobe]

instance : Inhabited OffsetZone := ⟨oneSummer⟩

/-- The zone whose clock shows the instants. -/
def utc : OffsetZone where
  name := "UTC"
  offset _ := 0
  fromLocalDatetime := .single
  sparse :=
    { lower := fun _ => by decide
      upper := fun _ => by decide
      apart := fun _ hi => absurd rfl hi
      fold := fun _ hi => absurd rfl hi }
  whole _ := dvd_zero 1000
  changes _ hi := absurd rfl hi
  gap _ := by decide
  single hsingle j := by
    cases hsingle
    rw [Offset.shown, add_zero]
  ambiguous hambiguous := by cases hambiguous
  none hnone := by cases hnone

end OffsetZone

end DurableWorkflows
