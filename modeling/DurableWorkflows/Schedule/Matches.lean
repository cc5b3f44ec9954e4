import DurableWorkflows.Schedule.Materializer
import DurableWorkflows.Schedule.Offsets

/-!
# The occurrences of a calendar

The occurrences of a cron expression are the times that it matches. Around a fold
or a gap the wall clock and the instants order them differently; the searches of a
calendar find the first occurrence that their callers ask for.

## Main definitions

- `MatchingCron`: a cron expression with the times it matches
- `MatchingCalendar`, `MatchingCalendar.Occurs`: a calendar and its occurrences
- `MatchingCalendar.RunnableFrom`: the first runnable occurrence of a walk

## Main results

- `MatchingCalendar.nextAfter_first`: `next_after` finds the first occurrence after an instant
- `MatchingCalendar.nextRunnableThrough_iff`: the jump over a gap equals the walk through it
- `MatchingCalendar.upgradeCursor_first`: an upgrade finds the first occurrence that is after
  the instant and after the floor
-/

namespace DurableWorkflows

open Offset

section Model

/-- A cron expression with the times it matches, in whole seconds. Its iterator returns the
least match after a time. The years of an expression stay away from the ends of the calendar. -/
structure MatchingCron where
  Matches : NaiveDateTime → Prop
  after : NaiveDateTime → Option NaiveDateTime
  whole : ∀ {t}, Matches t → t % 1000 = 0
  supported : ∀ {t}, Matches t →
    NaiveDateTime.min + 2 * dayMillis ≤ t ∧ t + 2 * dayMillis ≤ NaiveDateTime.max
  after_some : ∀ {t t'}, after t = some t' →
    Matches t' ∧ t < t' ∧ ∀ s, Matches s → t < s → t' ≤ s
  after_none : ∀ {t}, after t = none → ∀ s, Matches s → ¬t < s

/-- What a calendar uses of an expression. -/
def MatchingCron.cron (schedule : MatchingCron) : Cron where
  after := schedule.after
  later := fun hafter => (schedule.after_some hafter).2.1
  whole := fun hafter => schedule.whole (schedule.after_some hafter).1

/-- An expression that matches the hours of a year. -/
def MatchingCron.hourly : MatchingCron where
  Matches t := t % 3600000 = 0 ∧ 0 ≤ t ∧ t ≤ 31532400000
  after t :=
    if t < 0 then some 0
    else if t < 31532400000 then some ((t / 3600000 + 1) * 3600000)
    else none
  whole := by
    have hlinear : ∀ t : ℤ, t % 3600000 = 0 → t % 1000 = 0 := by omega
    exact fun {t} h => hlinear t h.1
  supported := by
    have hlinear : ∀ t : ℤ, 0 ≤ t → t ≤ 31532400000 →
        -8334601228800000 + 2 * 86400000 ≤ t ∧ t + 2 * 86400000 ≤ 8210266876799999 := by omega
    exact fun {t} h => hlinear t h.2.1 h.2.2
  after_some := by
    intro t t' hafter
    split at hafter
    · cases hafter
      exact ⟨by decide, ‹_›, fun s hs _ => hs.2.1⟩
    split at hafter
    · cases hafter
      have hnext : ∀ t : ℤ, ¬t < 0 → t < 31532400000 →
          ((t / 3600000 + 1) * 3600000 % 3600000 = 0 ∧ 0 ≤ (t / 3600000 + 1) * 3600000 ∧
            (t / 3600000 + 1) * 3600000 ≤ 31532400000) ∧ t < (t / 3600000 + 1) * 3600000 ∧
          ∀ s, s % 3600000 = 0 ∧ 0 ≤ s ∧ s ≤ 31532400000 → t < s →
            (t / 3600000 + 1) * 3600000 ≤ s := by
        intro t hpos hlt
        refine ⟨by omega, by omega, fun s hs hts => by omega⟩
      exact hnext t ‹_› ‹_›
    · cases hafter
  after_none := by
    intro t hafter s hs
    split at hafter
    · cases hafter
    split at hafter
    · cases hafter
    · exact not_lt.mpr (hs.2.2.trans (not_lt.mp ‹_›))

instance : Inhabited MatchingCron := ⟨.hourly⟩

/-- A calendar whose expression is given by the times it matches. -/
structure MatchingCalendar where
  schedule : MatchingCron
  timezone : TimeZone

namespace MatchingCalendar

/-- The calendar of the source. -/
def calendar (c : MatchingCalendar) : ScheduleCalendar := ⟨c.schedule.cron, c.timezone⟩

/-- The occurrences of a calendar: its matches, resolved. -/
def Occurs (c : MatchingCalendar) (o : ScheduleOccurrence) : Prop :=
  c.schedule.Matches o.localDatetime ∧ c.calendar.resolve o.localDatetime = .ok o

/-- The first occurrence after an instant: all that are earlier on the wall clock are not. -/
def First (c : MatchingCalendar) (after : DbMillis) (o : ScheduleOccurrence) : Prop :=
  c.Occurs o ∧ after < o.scheduledFor ∧
    ∀ o', c.Occurs o' → o'.localDatetime < o.localDatetime → o'.scheduledFor ≤ after

/-- An occurrence that an upgrade may move the cursor to. -/
def Upgrades (c : MatchingCalendar) (now : DbMillis) (floor : Option LocalOccurrence)
    (o : ScheduleOccurrence) : Prop :=
  c.Occurs o ∧ now < o.scheduledFor ∧ ∀ key ∈ floor, key < o.localOccurrence

/-- The first runnable occurrence of the walk from an occurrence on, if it is due, or none if
the walk reaches an occurrence that is not due before. -/
def RunnableFrom (c : MatchingCalendar) (o₀ : ScheduleOccurrence) (through : DbMillis)
    (runnable : Option ScheduleOccurrence) : Prop :=
  ∃ os o, c.calendar.Walk o₀ os o ∧ (∀ o' ∈ os, o'.disposition = .gap ∧ o'.dueAt ≤ through) ∧
    ((o.dueAt ≤ through ∧ o.disposition ≠ .gap ∧ runnable = some o) ∨
      (through < o.dueAt ∧ runnable = none))

end MatchingCalendar

end Model

namespace MatchingCalendar

variable {c : MatchingCalendar} {o o' : ScheduleOccurrence} {t s : NaiveDateTime}
  {after through : DbMillis}

section Occurs

theorem Occurs.resolves (h : c.Occurs o) : c.calendar.Resolves o :=
  ⟨c.schedule.whole h.1, h.2⟩

theorem Occurs.unique (h : c.Occurs o) (h' : c.Occurs o')
    (heq : o.localDatetime = o'.localDatetime) : o = o' := by
  have hresolve := h.2
  rw [heq, h'.2] at hresolve
  cases hresolve
  rfl

theorem Occurs.dueAt_le (h : c.Occurs o) (h' : c.Occurs o')
    (hle : o.localDatetime ≤ o'.localDatetime) : o.dueAt ≤ o'.dueAt :=
  ScheduleCalendar.resolve_mono hle h.resolves.1 h'.resolves.1 h.2 h'.2

theorem Occurs.scheduledFor_eq (h : c.Occurs o) : o.scheduledFor = o.dueAt :=
  (ScheduleCalendar.resolve_ok h.2).2.2

theorem Occurs.scheduledFor_le (h : c.Occurs o) (h' : c.Occurs o')
    (hle : o.localDatetime ≤ o'.localDatetime) : o.scheduledFor ≤ o'.scheduledFor := by
  rw [h.scheduledFor_eq, h'.scheduledFor_eq]
  exact h.dueAt_le h' hle

/-- `next_after_local` finds the next occurrence on the wall clock. -/
theorem nextAfterLocal_iff : c.calendar.nextAfterLocal t = .ok o ↔
    c.Occurs o ∧ t < o.localDatetime ∧
      ∀ s, c.schedule.Matches s → t < s → o.localDatetime ≤ s := by
  constructor
  · intro hnext
    unfold ScheduleCalendar.nextAfterLocal at hnext
    split at hnext
    next candidate hafter =>
      have hlocal := (ScheduleCalendar.resolve_ok hnext).1
      obtain ⟨hmatches, hlt, hleast⟩ := c.schedule.after_some hafter
      rw [← hlocal] at hmatches hlt hleast hnext
      exact ⟨⟨hmatches, hnext⟩, hlt, hleast⟩
    next => cases hnext
  · rintro ⟨⟨hmatches, hresolve⟩, hlt, hleast⟩
    cases hafter : c.schedule.after t with
    | none => exact absurd hlt (c.schedule.after_none hafter _ hmatches)
    | some candidate =>
      obtain ⟨hmatches', hlt', hleast'⟩ := c.schedule.after_some hafter
      have heq : candidate = o.localDatetime :=
        le_antisymm (hleast' _ hmatches hlt) (hleast _ hmatches' hlt')
      have hafter : c.calendar.schedule.after t = some candidate := hafter
      rw [ScheduleCalendar.nextAfterLocal, hafter, heq]
      exact hresolve

/-- The error of `next_after_local` where a later match resolves: its first match does not. -/
theorem exists_nextAfterLocal
    (htotal : ∀ s, c.schedule.Matches s → ∃ o, c.calendar.resolve s = .ok o)
    (hmatches : c.schedule.Matches s) (hlt : t < s) :
    ∃ o, c.calendar.nextAfterLocal t = .ok o := by
  cases hafter : c.schedule.after t with
  | none => exact absurd hlt (c.schedule.after_none hafter _ hmatches)
  | some candidate =>
    have hafter' : c.calendar.schedule.after t = some candidate := hafter
    rw [ScheduleCalendar.nextAfterLocal, hafter']
    exact htotal _ (c.schedule.after_some hafter).1

/-- The occurrences of a walk from an occurrence on. -/
theorem occurs_of_walk {o₀ next : ScheduleOccurrence} {os : List ScheduleOccurrence}
    (h : c.calendar.Walk o₀ os next) (h₀ : c.Occurs o₀) :
    (∀ o ∈ os, c.Occurs o) ∧ c.Occurs next := by
  induction h with
  | nil => exact ⟨fun _ hmem => absurd hmem List.not_mem_nil, h₀⟩
  | cons hnext _ ih =>
    obtain ⟨hos, hlast⟩ := ih (nextAfterLocal_iff.mp hnext).1
    exact ⟨List.forall_mem_cons.mpr ⟨h₀, hos⟩, hlast⟩

end Occurs

section NextAfter

variable {zone : OffsetZone} {schedule : MatchingCron}

/-- In a zone with an offset every match is an occurrence. -/
theorem exists_occurs (hmatches : schedule.Matches t) :
    ∃ o, (⟨schedule, zone.timeZone⟩ : MatchingCalendar).calendar.resolve t = .ok o := by
  refine zone.resolve_total schedule.cron (schedule.whole hmatches) ?_
  have hsupported := (schedule.supported hmatches).2
  have hlinear : ∀ t d max : ℤ, 0 ≤ d → t + 2 * d ≤ max → t + d ≤ max := by omega
  exact hlinear _ _ _ (by decide) hsupported

/-- The first instant of a second. -/
theorem shown_second (zone : OffsetZone) (i : DbMillis) :
    Offset.shown zone.offset (i - i % 1000) = Offset.shown zone.offset i - i % 1000 := by
  have hsecond : ∀ c : ℤ, i - i % 1000 < c → c ≤ i → ¬(1000 : ℤ) ∣ c := by
    have hlinear : ∀ i c : ℤ, i - i % 1000 < c → c ≤ i → ¬(1000 : ℤ) ∣ c := by omega
    exact hlinear i
  have hstay : zone.offset (i - i % 1000) = zone.offset i :=
    eq_of_no_change (sub_le_self _ (Int.emod_nonneg _ (by decide))) fun c hlt hle hchange =>
      hsecond c hlt hle (zone.changes c hchange)
  unfold Offset.shown
  rw [hstay]
  ring

/-- An occurrence that the wall clock has shown at an instant is not after it. -/
theorem scheduledFor_le_of_shown (h : (⟨schedule, zone.timeZone⟩ : MatchingCalendar).Occurs o)
    (hle : o.localDatetime ≤ Offset.shown zone.offset after) : o.scheduledFor ≤ after := by
  rw [h.scheduledFor_eq]
  have hwhole := h.resolves.1
  have hsecond := shown_second zone after
  have hshown : Offset.shown zone.offset (after - after % 1000) % 1000 = 0 := by
    obtain ⟨n, hn⟩ := zone.whole (after - after % 1000)
    unfold Offset.shown
    rw [hn]
    have hlinear : ∀ i n : ℤ, (i - i % 1000 + 1000 * n) % 1000 = 0 := by omega
    exact hlinear after n
  have hle' : o.localDatetime ≤ Offset.shown zone.offset (after - after % 1000) := by
    have hlinear : ∀ l s r : ℤ, l % 1000 = 0 → (s - r) % 1000 = 0 → l ≤ s → 0 ≤ r → r < 1000 →
        l ≤ s - r := by omega
    rw [hsecond] at hshown ⊢
    exact hlinear _ _ _ hwhole hshown hle (Int.emod_nonneg _ (by decide))
      (Int.emod_lt_of_pos _ (by decide))
  -- the second has been shown, so that the first pass of the occurrence was not later
  obtain ⟨n, hn⟩ := ScheduleCalendar.exists_seconds hle' hwhole hshown
  obtain ⟨k, hgap, hfirst, -⟩ := ScheduleCalendar.resolve_first h.2
  obtain ⟨hpass, hleast⟩ := zone.earliest_eq_some hfirst
  have hkn : k ≤ n := by
    by_contra hlt
    exact zone.none (hgap n (not_le.mp hlt)) _ hn
  have hdue : o.dueAt ≤ after - after % 1000 :=
    zone.sparse.first_le (ScheduleCalendar.seconds_mono o.localDatetime hkn) hpass hleast hn
  exact hdue.trans (sub_le_self _ (Int.emod_nonneg _ (by decide)))

/-- One iteration of `next_after`: what is behind the occurrence is behind the instant. -/
theorem behind_next {next : ScheduleOccurrence} (h : c.Occurs o)
    (hbehind : o.scheduledFor ≤ after)
    (hnext : c.calendar.nextAfterLocal o.localDatetime = .ok next)
    (h' : c.Occurs o') (hlt : o'.localDatetime < next.localDatetime) :
    o'.scheduledFor ≤ after := by
  have hleast := (nextAfterLocal_iff.mp hnext).2.2
  have hle : o'.localDatetime ≤ o.localDatetime := by
    by_contra hpast
    exact absurd hlt (not_lt.mpr (hleast _ h'.1 (not_le.mp hpast)))
  exact (h'.scheduledFor_le h hle).trans hbehind

/-- The loop of `next_after` stops at the first occurrence after the instant. -/
theorem nextAfterLoop_first {fuel : ℕ} {next : ScheduleOccurrence} (h : c.Occurs next)
    (hbehind : ∀ o', c.Occurs o' → o'.localDatetime < next.localDatetime →
      o'.scheduledFor ≤ after)
    (hloop : c.calendar.nextAfterLoop after fuel next = .ok o) : c.First after o := by
  induction fuel generalizing next with
  | zero => cases hloop
  | succ fuel ih =>
    rw [ScheduleCalendar.nextAfterLoop] at hloop
    split at hloop
    next hle =>
      obtain ⟨next', hnext, hloop⟩ := bind_eq_ok hloop
      exact ih (nextAfterLocal_iff.mp hnext).1
        (fun o' h' hlt => behind_next h hle hnext h' hlt) hloop
    next hlater =>
      cases hloop
      exact ⟨h, not_le.mp hlater, hbehind⟩

/-- The loop of `next_after` does not fail while there is an occurrence after the instant. -/
theorem exists_nextAfterLoop {fuel : ℕ} {next : ScheduleOccurrence}
    (htotal : ∀ s, c.schedule.Matches s → ∃ o, c.calendar.resolve s = .ok o)
    (h : c.Occurs next) (hlater : c.Occurs o) (hafter : after < o.scheduledFor)
    (hfuel : c.calendar.nextAfterLoop after fuel next ≠ .error .outOfFuel) :
    ∃ o, c.calendar.nextAfterLoop after fuel next = .ok o := by
  induction fuel generalizing next with
  | zero => exact absurd rfl hfuel
  | succ fuel ih =>
    rw [ScheduleCalendar.nextAfterLoop] at hfuel ⊢
    split
    next hle =>
      have hlt : next.localDatetime < o.localDatetime := by
        by_contra hpast
        have hback := hlater.scheduledFor_le h (not_lt.mp hpast)
        exact absurd (hafter.trans_le hback) (not_lt.mpr hle)
      obtain ⟨next', hnext⟩ := exists_nextAfterLocal htotal hlater.1 hlt
      rw [if_pos hle, hnext] at hfuel
      rw [hnext]
      exact ih (nextAfterLocal_iff.mp hnext).1 hfuel
    next => exact ⟨next, rfl⟩

theorem First.unique (h : c.First after o) (h' : c.First after o') : o = o' := by
  rcases lt_trichotomy o.localDatetime o'.localDatetime with hlt | heq | hlt
  · exact absurd h.2.1 (not_lt.mpr (h'.2.2 o h.1 hlt))
  · exact h.1.unique h'.1 heq
  · exact absurd h'.2.1 (not_lt.mpr (h.2.2 o' h'.1 hlt))

/-- `next_after` returns the first occurrence after an instant. -/
theorem first_of_nextAfter
    (hnext : (⟨schedule, zone.timeZone⟩ : MatchingCalendar).calendar.nextAfter after = .ok o) :
    (⟨schedule, zone.timeZone⟩ : MatchingCalendar).First after o := by
  obtain ⟨next, hstart, hloop⟩ := bind_eq_ok hnext
  obtain ⟨hoccurs, -, hleast⟩ := nextAfterLocal_iff.mp hstart
  refine nextAfterLoop_first hoccurs (fun o' h' hlt => ?_) hloop
  refine scheduledFor_le_of_shown h' ?_
  by_contra hpast
  exact absurd hlt (not_lt.mpr (hleast _ h'.1 (not_le.mp hpast)))

/-- `next_after` returns while there is an occurrence after the instant. -/
theorem exists_nextAfter (h : (⟨schedule, zone.timeZone⟩ : MatchingCalendar).Occurs o)
    (hafter : after < o.scheduledFor) :
    ∃ o, (⟨schedule, zone.timeZone⟩ : MatchingCalendar).calendar.nextAfter after = .ok o := by
  have hlt : Offset.shown zone.offset after < o.localDatetime := by
    by_contra hshown
    exact absurd hafter (not_lt.mpr (scheduledFor_le_of_shown h (not_lt.mp hshown)))
  have htotal : ∀ s, schedule.Matches s →
      ∃ o, (⟨schedule, zone.timeZone⟩ : MatchingCalendar).calendar.resolve s = .ok o :=
    fun _ => exists_occurs
  obtain ⟨next, hstart⟩ := exists_nextAfterLocal htotal h.1 hlt
  have hfuel : (⟨schedule, zone.timeZone⟩ : MatchingCalendar).calendar.nextAfter after ≠
      .error .outOfFuel := ScheduleCalendar.nextAfter_ne_outOfFuel
  have hstart' : (⟨schedule, zone.timeZone⟩ : MatchingCalendar).calendar.nextAfterLocal
      ((⟨schedule, zone.timeZone⟩ : MatchingCalendar).calendar.timezone.naiveLocal after) =
        .ok next := hstart
  rw [ScheduleCalendar.nextAfter, hstart'] at hfuel ⊢
  exact exists_nextAfterLoop htotal (nextAfterLocal_iff.mp hstart).1 h hafter hfuel

/-- Two runnable occurrences have different instants. -/
theorem scheduledFor_lt {o o' : ScheduleOccurrence}
    (h : (⟨schedule, zone.timeZone⟩ : MatchingCalendar).Occurs o)
    (h' : (⟨schedule, zone.timeZone⟩ : MatchingCalendar).Occurs o')
    (hlt : o.localDatetime < o'.localDatetime) (hexact : o.disposition ≠ .gap)
    (hexact' : o'.disposition ≠ .gap) : o.scheduledFor < o'.scheduledFor := by
  have hshown : ∀ {o : ScheduleOccurrence},
      (⟨schedule, zone.timeZone⟩ : MatchingCalendar).Occurs o → o.disposition ≠ .gap →
        Offset.shown zone.offset o.scheduledFor = o.localDatetime := by
    intro o h hexact
    have hresolve := h.2
    unfold ScheduleCalendar.resolve at hresolve
    split at hresolve
    next instant hsingle =>
      rw [← Except.ok.inj hresolve]
      exact (zone.single hsingle _).mpr rfl
    next first second hambiguous =>
      rw [← Except.ok.inj hresolve]
      exact ((zone.ambiguous hambiguous).2 _).mpr (min_choice first second)
    next =>
      split at hresolve
      next => exact absurd (by rw [← Except.ok.inj hresolve]; rfl) hexact
      next => cases hresolve
  refine lt_of_le_of_ne (h.scheduledFor_le h' hlt.le) fun heq => ?_
  have hsame := hshown h' hexact'
  rw [← heq, hshown h hexact] at hsame
  exact absurd hsame hlt.ne

/-- The order of a walk. -/
theorem walk_pairwise {o₀ next : ScheduleOccurrence} {os : List ScheduleOccurrence}
    (h : (⟨schedule, zone.timeZone⟩ : MatchingCalendar).calendar.Walk o₀ os next)
    (h₀ : (⟨schedule, zone.timeZone⟩ : MatchingCalendar).Occurs o₀) :
    (os ++ [next]).Pairwise fun o o' => o.localDatetime < o'.localDatetime ∧
      o.scheduledFor ≤ o'.scheduledFor ∧
      (o.disposition ≠ .gap → o'.disposition ≠ .gap → o.scheduledFor < o'.scheduledFor) := by
  obtain ⟨hos, hnext⟩ := occurs_of_walk h h₀
  have hkeys : (os ++ [next]).Pairwise fun o o' => o.localOccurrence < o'.localOccurrence := by
    refine List.pairwise_append.mpr ⟨h.pairwise h₀.resolves, List.pairwise_singleton _ _, ?_⟩
    intro o ho o' ho'
    rw [List.mem_singleton.mp ho']
    exact ((h.bounds h₀.resolves).2 o ho).2
  have hall : ∀ o ∈ os ++ [next], (⟨schedule, zone.timeZone⟩ : MatchingCalendar).Occurs o := by
    intro o ho
    rcases List.mem_append.mp ho with ho | ho
    · exact hos o ho
    · rw [List.mem_singleton.mp ho]
      exact hnext
  refine hkeys.imp_of_mem fun {o o'} ho ho' hlt => ?_
  have h₁ := hall o ho
  have h₂ := hall o' ho'
  rw [LocalOccurrence.lt_iff, h₁.resolves.datetime, h₂.resolves.datetime] at hlt
  exact ⟨hlt, h₁.scheduledFor_le h₂ hlt.le, scheduledFor_lt h₁ h₂ hlt⟩

/-- **`next_after`**: it returns exactly the first occurrence after an instant, and returns if
there is one. Along `next_after_local` the wall clock strictly advances, the instants do not go
back, and those of occurrences that no gap moves strictly advance. -/
theorem nextAfter_first (schedule : MatchingCron) (zone : OffsetZone) (after : DbMillis) :
    let c : MatchingCalendar := ⟨schedule, zone.timeZone⟩
    (∀ o, c.calendar.nextAfter after = .ok o ↔ c.Occurs o ∧ after < o.scheduledFor ∧
      ∀ o', c.Occurs o' → o'.localDatetime < o.localDatetime → o'.scheduledFor ≤ after) ∧
    ((∃ o, c.Occurs o ∧ after < o.scheduledFor) → ∃ o, c.calendar.nextAfter after = .ok o) ∧
    ∀ start o₀ os next, c.calendar.nextAfterLocal start = .ok o₀ → c.calendar.Walk o₀ os next →
      (os ++ [next]).Pairwise fun o o' => o.localDatetime < o'.localDatetime ∧
        o.scheduledFor ≤ o'.scheduledFor ∧
        (o.disposition ≠ .gap → o'.disposition ≠ .gap → o.scheduledFor < o'.scheduledFor) := by
  intro c
  refine ⟨fun o => ⟨first_of_nextAfter, fun hfirst => ?_⟩, ?_, ?_⟩
  · obtain ⟨o', hnext⟩ := exists_nextAfter hfirst.1 hfirst.2.1
    rw [hnext, (first_of_nextAfter hnext).unique hfirst]
  · rintro ⟨o, hoccurs, hafter⟩
    exact exists_nextAfter hoccurs hafter
  · intro start o₀ os next hstart hwalk
    exact walk_pairwise hwalk (nextAfterLocal_iff.mp hstart).1

/-- The first hour of `oneSummer`, which the gap skips. -/
theorem occurs_summer :
    (⟨.hourly, OffsetZone.oneSummer.timeZone⟩ : MatchingCalendar).Occurs (occurrence 0 0 .gap) :=
  ⟨⟨rfl, by decide, by decide⟩, OffsetZone.resolve_summer _⟩

/-- The hour at which the gap of `oneSummer` ends. -/
theorem occurs_summer_end :
    (⟨.hourly, OffsetZone.oneSummer.timeZone⟩ : MatchingCalendar).Occurs
      (occurrence 3600000 0 .exact) :=
  ⟨⟨rfl, by decide, by decide⟩, rfl⟩

/-- The hour after the gap of `oneSummer`. -/
theorem occurs_summer_later :
    (⟨.hourly, OffsetZone.oneSummer.timeZone⟩ : MatchingCalendar).Occurs
      (occurrence 7200000 3600000 .exact) :=
  ⟨⟨rfl, by decide, by decide⟩, rfl⟩

/-- The search goes behind the gap at its end. -/
theorem nextAfter_first_summer :
    let c : MatchingCalendar := ⟨.hourly, OffsetZone.oneSummer.timeZone⟩
    c.calendar.nextAfter (-1) = .ok (occurrence 0 0 .gap) ∧
      ∃ o, c.calendar.nextAfter 0 = .ok o := by
  intro c
  have hfirst := nextAfter_first .hourly .oneSummer
  refine ⟨((hfirst (-1)).1 _).mpr ⟨occurs_summer, by decide, fun o h hlt => ?_⟩,
    (hfirst 0).2.1 ⟨_, occurs_summer_later, by decide⟩⟩
  exact absurd h.1.2.1 (not_le.mpr hlt)

end NextAfter

section Runnable

variable {runnable : Option ScheduleOccurrence} {next : ScheduleOccurrence}
  {os : List ScheduleOccurrence}

/-- The times of a gap from an occurrence on, up to its end: they are moved to the instant of
the end, which is the time that instant shows. -/
theorem gap_span (h : c.Occurs o) (hgap : o.disposition = .gap) :
    ∃ k : ℕ, 0 < k ∧ k ≤ maxGapScanSeconds ∧
      c.timezone.naiveLocal o.dueAt = o.localDatetime + k * 1000 ∧
      ∀ j : ℕ, j < k → c.calendar.resolve (o.localDatetime + j * 1000) =
        .ok (occurrence (o.localDatetime + j * 1000) o.dueAt .gap) := by
  have hresolve := h.2
  unfold ScheduleCalendar.resolve at hresolve
  split at hresolve
  next => rw [← Except.ok.inj hresolve] at hgap; cases hgap
  next => rw [← Except.ok.inj hresolve] at hgap; cases hgap
  next hnone =>
    split at hresolve
    next instant hprobe =>
      have hdue : instant = o.dueAt := by rw [← Except.ok.inj hresolve]; rfl
      rw [hdue] at hprobe
      obtain ⟨k, hpos, hbefore, hsingle⟩ := ScheduleCalendar.probeGap_eq_some hprobe Nat.one_pos
        fun j hj => by
          rw [Nat.lt_one_iff.mp hj, Nat.cast_zero, zero_mul, add_zero]
          exact hnone
      obtain ⟨k', hpos', hscan, hmax, hsingle', -⟩ := ScheduleCalendar.probeGap_iff.mp hprobe
      -- both scans stop at the end of the gap
      have hle : k ≤ k' := by
        by_contra hlt
        rw [hbefore k' (not_le.mp hlt)] at hsingle'
        cases hsingle'
      refine ⟨k, hpos, by omega, c.timezone.naiveLocal_single hsingle, fun j hj => ?_⟩
      rw [ScheduleCalendar.resolve, hbefore j hj]
      have hrest : c.calendar.probeGap (o.localDatetime + (j : ℤ) * 1000) maxGapScanSeconds 1 =
          some o.dueAt := by
        refine ScheduleCalendar.probeGap_iff.mpr
          ⟨k - j, by omega, by omega, ?_, ?_, fun i hi hik i' hfound => ?_⟩
        · rw [ScheduleCalendar.add_seconds]
          exact (ScheduleCalendar.seconds_mono _ (by omega)).trans hmax
        · rw [ScheduleCalendar.add_seconds, Nat.add_sub_cancel' hj.le]
          exact hsingle
        · rw [ScheduleCalendar.add_seconds, hbefore (j + i) (by omega)] at hfound
          cases hfound
      rw [hrest]
    next => cases hresolve

/-- The second before the end of a gap. -/
theorem beforeGapEnd_eq {k : ℕ} (h : c.Occurs o) (hscan : k ≤ maxGapScanSeconds)
    (hend : c.timezone.naiveLocal o.dueAt = o.localDatetime + k * 1000) :
    c.calendar.beforeGapEnd o.dueAt = .ok (o.localDatetime + k * 1000 - 1000) := by
  have hend' : c.calendar.timezone.naiveLocal o.dueAt = o.localDatetime + k * 1000 := hend
  have hlower := ScheduleCalendar.resolve_offset h.2
  have hupper := c.timezone.naiveLocal_offset o.dueAt
  rw [hend] at hupper
  obtain ⟨hmin, hmax⟩ := c.schedule.supported h.1
  have hrange : ∀ l due min max : ℤ, min + 2 * 86400000 ≤ l → l + 2 * 86400000 ≤ max →
      l - 86400000 ≤ due → due - 86400000 ≤ l + (k : ℤ) * 1000 → k ≤ 86400 →
      (min ≤ due ∧ due ≤ max) ∧ ¬l + (k : ℤ) * 1000 - 1000 < min := by omega
  obtain ⟨hdue, hunder⟩ := hrange _ _ _ _ hmin hmax hlower hupper hscan
  rw [ScheduleCalendar.beforeGapEnd, dateTimeFromMillis, if_pos hdue]
  dsimp only
  rw [hend', if_neg hunder]

/-- The walk through a gap: its occurrences up to the first one from the end on. -/
theorem walk_over_gap {k : ℕ} (h : c.Occurs o) (hpos : 0 < k) {due : DbMillis}
    (hgap : ∀ j : ℕ, j < k → c.calendar.resolve (o.localDatetime + j * 1000) =
      .ok (occurrence (o.localDatetime + j * 1000) due .gap))
    (hnext : c.calendar.nextAfterLocal (o.localDatetime + k * 1000 - 1000) = .ok next) :
    ∃ os, c.calendar.Walk o os next ∧ ∀ o' ∈ os, o'.disposition = .gap ∧ o'.dueAt = due := by
  induction k using Nat.strong_induction_on generalizing o with
  | _ k ih =>
    obtain ⟨hoccurs, hlt, hleast⟩ := nextAfterLocal_iff.mp hnext
    -- the occurrence itself is in the gap
    have hself : o.disposition = .gap ∧ o.dueAt = due := by
      have hresolve := hgap 0 hpos
      rw [Nat.cast_zero, zero_mul, add_zero, h.2] at hresolve
      rw [Except.ok.inj hresolve]
      exact ⟨rfl, rfl⟩
    have hpast : o.localDatetime < next.localDatetime := by
      have hlinear : ∀ l : ℤ, l ≤ l + (k : ℤ) * 1000 - 1000 := by omega
      exact (hlinear _).trans_lt hlt
    cases hafter : c.schedule.after o.localDatetime with
    | none => exact absurd hpast (c.schedule.after_none hafter _ hoccurs.1)
    | some s =>
      obtain ⟨hmatches, hos, hfirst⟩ := c.schedule.after_some hafter
      obtain ⟨n, hn⟩ := ScheduleCalendar.exists_seconds hos.le h.resolves.1
        (c.schedule.whole hmatches)
      have hnpos : 0 < n := by
        rw [Nat.pos_iff_ne_zero]
        rintro rfl
        rw [Nat.cast_zero, zero_mul, add_zero] at hn
        exact hos.ne' hn
      by_cases hin : n < k
      · -- the next match is in the gap too
        have hresolve := hgap n hin
        rw [← hn] at hresolve
        have hoccurs₁ : c.Occurs (occurrence s due .gap) := ⟨hmatches, hresolve⟩
        have hstep : c.calendar.nextAfterLocal o.localDatetime = .ok (occurrence s due .gap) :=
          nextAfterLocal_iff.mpr ⟨hoccurs₁, hos, hfirst⟩
        have hshift : ∀ j : ℕ, s + (j : ℤ) * 1000 =
            o.localDatetime + ((n + j : ℕ) : ℤ) * 1000 := fun j => by
          rw [hn, ScheduleCalendar.add_seconds]
        obtain ⟨os, hwalk, hall⟩ := ih (k - n) (by omega) hoccurs₁ (by omega)
          (fun j hj => by
            rw [show (occurrence s due .gap).localDatetime = s from rfl, hshift]
            exact hgap (n + j) (by omega))
          (by
            rw [show (occurrence s due .gap).localDatetime = s from rfl, hshift,
              Nat.add_sub_cancel' hin.le]
            exact hnext)
        exact ⟨o :: os, .cons hstep hwalk, List.forall_mem_cons.mpr ⟨hself, hall⟩⟩
      · -- the next match is the one after the gap
        have hbeyond : o.localDatetime + (k : ℤ) * 1000 - 1000 < s := by
          rw [hn]
          have hlinear : ∀ l : ℤ, l + (k : ℤ) * 1000 - 1000 < l + (n : ℤ) * 1000 := by omega
          exact hlinear _
        have heq : s = next.localDatetime :=
          le_antisymm (hfirst _ hoccurs.1 hpast) (hleast _ hmatches hbeyond)
        have hstep : c.calendar.nextAfterLocal o.localDatetime = .ok next :=
          nextAfterLocal_iff.mpr ⟨hoccurs, hpast, heq ▸ hfirst⟩
        exact ⟨[o], .cons hstep (.nil next), List.forall_mem_singleton.mpr hself⟩

/-- A walk passes the matches between its ends. -/
theorem walk_reaches (h : c.calendar.Walk o os next) (h₀ : c.Occurs o)
    (hmatches : c.schedule.Matches s) (hle : o.localDatetime ≤ s)
    (hle' : s ≤ next.localDatetime) :
    ∃ o' os', c.Occurs o' ∧ o'.localDatetime = s ∧ c.calendar.Walk o' os' next ∧ os' ⊆ os := by
  induction h with
  | nil o => exact ⟨o, [], h₀, le_antisymm hle hle', .nil o, fun _ hmem => hmem⟩
  | @cons o o₁ next os hnext hwalk ih =>
    rcases eq_or_lt_of_le hle with heq | hlt
    · exact ⟨o, o :: os, h₀, heq, .cons hnext hwalk, fun _ hmem => hmem⟩
    · obtain ⟨hoccurs, -, hleast⟩ := nextAfterLocal_iff.mp hnext
      obtain ⟨o', os', hoccurs', hlocal, hwalk', hsub⟩ := ih hoccurs (hleast s hmatches hlt) hle'
      exact ⟨o', os', hoccurs', hlocal, hwalk', fun _ hmem => List.mem_cons_of_mem o (hsub hmem)⟩

/-- The loop of `next_runnable_through` ends as the walk does. -/
theorem runnable_of_loop {fuel : ℕ} (h : c.Occurs next)
    (hloop : c.calendar.nextRunnableLoop through fuel next = .ok runnable) :
    c.RunnableFrom next through runnable := by
  induction fuel generalizing next with
  | zero => cases hloop
  | succ fuel ih =>
    rw [ScheduleCalendar.nextRunnableLoop] at hloop
    split at hloop
    next hdue =>
      split at hloop
      next hexact =>
        cases hloop
        exact ⟨[], next, .nil next, fun _ hmem => absurd hmem List.not_mem_nil,
          .inl ⟨hdue, hexact, rfl⟩⟩
      next hgap =>
        obtain ⟨k, hpos, hscan, hend, hspan⟩ := gap_span h (not_not.mp hgap)
        rw [beforeGapEnd_eq h hscan hend] at hloop
        obtain ⟨before, hbefore, hloop⟩ := bind_eq_ok hloop
        cases hbefore
        obtain ⟨next', hnext, hloop⟩ := bind_eq_ok hloop
        obtain ⟨os, hwalk, hall⟩ := walk_over_gap h hpos hspan hnext
        obtain ⟨os', o, hwalk', hall', hends⟩ := ih (nextAfterLocal_iff.mp hnext).1 hloop
        refine ⟨os ++ os', o, hwalk.append hwalk', fun o' hmem => ?_, hends⟩
        rcases List.mem_append.mp hmem with hmem | hmem
        · obtain ⟨hdisposition, hdue'⟩ := hall o' hmem
          exact ⟨hdisposition, hdue' ▸ hdue⟩
        · exact hall' o' hmem
    next hlater =>
      cases hloop
      exact ⟨[], next, .nil next, fun _ hmem => absurd hmem List.not_mem_nil,
        .inr ⟨not_le.mp hlater, rfl⟩⟩

/-- The loop of `next_runnable_through` finds what the walk finds. -/
theorem loop_of_runnable {fuel : ℕ} (h : c.Occurs next)
    (hrunnable : c.RunnableFrom next through runnable)
    (hfuel : c.calendar.nextRunnableLoop through fuel next ≠ .error .outOfFuel) :
    c.calendar.nextRunnableLoop through fuel next = .ok runnable := by
  induction fuel generalizing next with
  | zero => exact absurd rfl hfuel
  | succ fuel ih =>
    obtain ⟨os, o, hwalk, hall, hends⟩ := hrunnable
    cases hwalk with
    | nil =>
      rw [ScheduleCalendar.nextRunnableLoop]
      rcases hends with ⟨hdue, hexact, rfl⟩ | ⟨hlater, rfl⟩
      · rw [if_pos hdue, if_pos hexact]
      · rw [if_neg (not_le.mpr hlater)]
    | @cons _ o₁ _ os hstep hwalk =>
      obtain ⟨⟨hgap, hdue⟩, hrest⟩ := List.forall_mem_cons.mp hall
      obtain ⟨k, hpos, hscan, hend, hspan⟩ := gap_span h hgap
      have hwalk' : c.calendar.Walk next (next :: os) o := .cons hstep hwalk
      obtain ⟨-, hlast⟩ := occurs_of_walk hwalk' h
      have hforward : next.localDatetime ≤ o.localDatetime := by
        have hbounds := (hwalk'.bounds h.resolves).1
        rwa [LocalOccurrence.le_iff, h.resolves.datetime, hlast.resolves.datetime] at hbounds
      -- the walk ends behind the gap
      obtain ⟨n, hn⟩ := ScheduleCalendar.exists_seconds hforward h.resolves.1 hlast.resolves.1
      have hbeyond : k ≤ n := by
        by_contra hin
        have hresolve := hspan n (not_le.mp hin)
        rw [← hn, hlast.2] at hresolve
        have heq := Except.ok.inj hresolve
        rcases hends with ⟨-, hexact, -⟩ | ⟨hlater, -⟩
        · exact hexact (by rw [heq]; rfl)
        · rw [heq] at hlater
          exact absurd hdue (not_le.mpr hlater)
      have hlt : next.localDatetime + (k : ℤ) * 1000 - 1000 < o.localDatetime := by
        rw [hn]
        have hlinear : ∀ l : ℤ, l + (k : ℤ) * 1000 - 1000 < l + (n : ℤ) * 1000 := by omega
        exact hlinear _
      rw [ScheduleCalendar.nextRunnableLoop, if_pos hdue, if_neg (not_not.mpr hgap),
        beforeGapEnd_eq h hscan hend] at hfuel ⊢
      cases hafter : c.schedule.after (next.localDatetime + (k : ℤ) * 1000 - 1000) with
      | none => exact absurd hlt (c.schedule.after_none hafter _ hlast.1)
      | some s =>
        obtain ⟨hmatches, hs, hleast⟩ := c.schedule.after_some hafter
        have hns : next.localDatetime ≤ s := by
          have hlinear : ∀ l : ℤ, l ≤ l + (k : ℤ) * 1000 - 1000 := by omega
          exact (hlinear _).trans hs.le
        obtain ⟨o', os', hoccurs', rfl, hwalk₂, hsub⟩ :=
          walk_reaches hwalk' h hmatches hns (hleast _ hlast.1 hlt)
        have hnext : c.calendar.nextAfterLocal (next.localDatetime + (k : ℤ) * 1000 - 1000) =
            .ok o' := nextAfterLocal_iff.mpr ⟨hoccurs', hs, hleast⟩
        simp only [bind, Except.bind, hnext] at hfuel ⊢
        exact ih hoccurs' ⟨os', o, hwalk₂, fun o' hmem => hall o' (hsub hmem), hends⟩ hfuel

/-- The search of `next_runnable_through`, for any time zone. -/
theorem nextRunnableThrough_eq_ok : c.calendar.nextRunnableThrough t through = .ok runnable ↔
    ∃ o₀, c.calendar.nextAfterLocal t = .ok o₀ ∧ c.RunnableFrom o₀ through runnable := by
  constructor
  · intro hok
    obtain ⟨o₀, hstart, hloop⟩ := bind_eq_ok hok
    exact ⟨o₀, hstart, runnable_of_loop (nextAfterLocal_iff.mp hstart).1 hloop⟩
  · rintro ⟨o₀, hstart, hrunnable⟩
    have hfuel : c.calendar.nextRunnableThrough t through ≠ .error .outOfFuel :=
      ScheduleCalendar.nextRunnableThrough_ne_outOfFuel
    rw [ScheduleCalendar.nextRunnableThrough, hstart] at hfuel ⊢
    exact loop_of_runnable (nextAfterLocal_iff.mp hstart).1 hrunnable hfuel

/-- **The gap jump**: `next_runnable_through` ends, and returns exactly the first runnable
occurrence of the walk of `next_after_local` if that is due, and none if the walk reaches an
occurrence that is not due before. -/
theorem nextRunnableThrough_iff (schedule : MatchingCron) (zone : OffsetZone)
    (after : NaiveDateTime) (through : DbMillis) :
    let c : MatchingCalendar := ⟨schedule, zone.timeZone⟩
    c.calendar.nextRunnableThrough after through ≠ .error .outOfFuel ∧
    ∀ runnable, c.calendar.nextRunnableThrough after through = .ok runnable ↔
      ∃ o₀ os o, c.calendar.nextAfterLocal after = .ok o₀ ∧ c.calendar.Walk o₀ os o ∧
        (∀ o' ∈ os, o'.disposition = .gap ∧ o'.dueAt ≤ through) ∧
        ((o.dueAt ≤ through ∧ o.disposition ≠ .gap ∧ runnable = some o) ∨
          (through < o.dueAt ∧ runnable = none)) := by
  intro c
  refine ⟨ScheduleCalendar.nextRunnableThrough_ne_outOfFuel, fun runnable => ?_⟩
  rw [nextRunnableThrough_eq_ok]
  constructor
  · rintro ⟨o₀, hstart, os, o, hwalk, hall, hends⟩
    exact ⟨o₀, os, o, hstart, hwalk, hall, hends⟩
  · rintro ⟨o₀, os, o, hstart, hwalk, hall, hends⟩
    exact ⟨o₀, hstart, os, o, hwalk, hall, hends⟩

/-- A gap whose end is due with it. -/
theorem nextRunnableThrough_iff_summer :
    (⟨.hourly, OffsetZone.oneSummer.timeZone⟩ : MatchingCalendar).calendar.nextRunnableThrough
      (-1000) 0 = .ok (some (occurrence 3600000 0 .exact)) := by
  have hwalk := (nextRunnableThrough_iff .hourly .oneSummer (-1000) 0).2
  refine (hwalk _).mpr ⟨occurrence 0 0 .gap, [occurrence 0 0 .gap],
    occurrence 3600000 0 .exact, ?_, .cons ?_ (.nil _), ?_, .inl ?_⟩
  · exact nextAfterLocal_iff.mpr ⟨occurs_summer, by decide, fun s hs _ => hs.2.1⟩
  · refine nextAfterLocal_iff.mpr ⟨occurs_summer_end, by decide, fun s hs hlt => ?_⟩
    have hlinear : ∀ s : ℤ, s % 3600000 = 0 → 0 < s → 3600000 ≤ s := by omega
    exact hlinear s hs.1 hlt
  · exact fun o ho => by cases List.mem_singleton.mp ho; decide
  · exact ⟨by decide, by decide, rfl⟩

end Runnable

section Upgrade

variable {zone : OffsetZone} {schedule : MatchingCron} {now : DbMillis}
  {floor : Option LocalOccurrence}

/-- What an upgrade returns can be moved to, and is the first such occurrence. -/
theorem upgrades_of_upgradeCursor
    (hupgrade : upgradeCursor (⟨schedule, zone.timeZone⟩ : MatchingCalendar).calendar now floor =
      .ok o) :
    (⟨schedule, zone.timeZone⟩ : MatchingCalendar).Upgrades now floor o ∧
      ∀ o', (⟨schedule, zone.timeZone⟩ : MatchingCalendar).Upgrades now floor o' →
        o.localDatetime ≤ o'.localDatetime := by
  obtain ⟨next, hnext, hrest⟩ := bind_eq_ok hupgrade
  have hfirst := first_of_nextAfter hnext
  have hleast : ∀ o', (⟨schedule, zone.timeZone⟩ : MatchingCalendar).Upgrades now floor o' →
      next.localDatetime ≤ o'.localDatetime := by
    intro o' h'
    by_contra hlt
    exact absurd h'.2.1 (not_lt.mpr (hfirst.2.2 o' h'.1 (not_le.mp hlt)))
  cases floor with
  | none =>
    cases hrest
    exact ⟨⟨hfirst.1, hfirst.2.1, fun _ hkey => absurd hkey (Option.not_mem_none _)⟩, hleast⟩
  | some key =>
    dsimp only at hrest
    split at hrest
    next hle =>
      -- the floor is ahead: what follows it on the wall clock is after the instant too
      obtain ⟨hoccurs, hlt, hnearest⟩ := nextAfterLocal_iff.mp hrest
      rw [LocalOccurrence.le_iff, hfirst.1.resolves.datetime] at hle
      have hlater := hfirst.1.scheduledFor_le hoccurs (hle.trans hlt.le)
      refine ⟨⟨hoccurs, hfirst.2.1.trans_le hlater, fun key' hkey => ?_⟩, fun o' h' => ?_⟩
      · cases hkey
        rw [LocalOccurrence.lt_iff, hoccurs.resolves.datetime]
        exact hlt
      · have hpast := h'.2.2 key rfl
        rw [LocalOccurrence.lt_iff, h'.1.resolves.datetime] at hpast
        exact hnearest _ h'.1.1 hpast
    next hpast =>
      cases hrest
      refine ⟨⟨hfirst.1, hfirst.2.1, fun key' hkey => ?_⟩, hleast⟩
      cases hkey
      exact not_le.mp hpast

/-- An upgrade returns while there is an occurrence that it may move to. -/
theorem exists_upgradeCursor
    (h : (⟨schedule, zone.timeZone⟩ : MatchingCalendar).Upgrades now floor o) :
    ∃ o, upgradeCursor (⟨schedule, zone.timeZone⟩ : MatchingCalendar).calendar now floor =
      .ok o := by
  obtain ⟨next, hnext⟩ := exists_nextAfter h.1 h.2.1
  rw [upgradeCursor, hnext]
  cases floor with
  | none => exact ⟨next, rfl⟩
  | some key =>
    by_cases hle : next.localOccurrence ≤ key
    · have hpast := h.2.2 key rfl
      rw [LocalOccurrence.lt_iff, h.1.resolves.datetime] at hpast
      obtain ⟨o', hnext'⟩ := exists_nextAfterLocal (fun _ => exists_occurs) h.1.1 hpast
      refine ⟨o', ?_⟩
      simp only [bind, Except.bind, if_pos hle]
      exact hnext'
    · refine ⟨next, ?_⟩
      simp only [bind, Except.bind, if_neg hle]
      rfl

/-- **Cursor upgrade**: it returns exactly the first occurrence on the wall clock that is after
the instant and after the floor, and returns if there is one; the cursor is not due. -/
theorem upgradeCursor_first (schedule : MatchingCron) (zone : OffsetZone) (now : DbMillis)
    (floor : Option LocalOccurrence) :
    let c : MatchingCalendar := ⟨schedule, zone.timeZone⟩
    (∀ o, upgradeCursor c.calendar now floor = .ok o ↔ c.Upgrades now floor o ∧
      ∀ o', c.Upgrades now floor o' → o.localDatetime ≤ o'.localDatetime) ∧
    ((∃ o, c.Upgrades now floor o) → ∃ o, upgradeCursor c.calendar now floor = .ok o) ∧
    ∀ o, upgradeCursor c.calendar now floor = .ok o → now < o.dueAt := by
  intro c
  refine ⟨fun o => ⟨upgrades_of_upgradeCursor, fun ⟨hupgrades, hleast⟩ => ?_⟩, ?_, ?_⟩
  · obtain ⟨o', hupgrade⟩ := exists_upgradeCursor hupgrades
    obtain ⟨hupgrades', hleast'⟩ := upgrades_of_upgradeCursor hupgrade
    rw [hupgrade, hupgrades'.1.unique hupgrades.1 (le_antisymm (hleast' o hupgrades)
      (hleast o' hupgrades'))]
  · rintro ⟨o, hupgrades⟩
    exact exists_upgradeCursor hupgrades
  · intro o hupgrade
    obtain ⟨⟨hoccurs, hafter, -⟩, -⟩ := upgrades_of_upgradeCursor hupgrade
    rwa [← hoccurs.scheduledFor_eq]

/-- A floor at the end of a gap. -/
theorem upgradeCursor_first_summer :
    upgradeCursor (⟨.hourly, OffsetZone.oneSummer.timeZone⟩ : MatchingCalendar).calendar (-1)
      (some (.new 3600000)) = .ok (occurrence 7200000 3600000 .exact) := by
  refine ((upgradeCursor_first .hourly .oneSummer (-1) _).1 _).mpr
    ⟨⟨occurs_summer_later, by decide, fun key hkey => ?_⟩, fun o h => ?_⟩
  · cases hkey
    decide
  · have hlt := h.2.2 _ rfl
    rw [LocalOccurrence.lt_iff, h.1.resolves.datetime] at hlt
    have hlinear : ∀ s : ℤ, s % 3600000 = 0 → 3600000 < s → 7200000 ≤ s := by omega
    exact hlinear _ h.1.1.1 hlt

end Upgrade

end MatchingCalendar

end DurableWorkflows
