import DurableWorkflows.Base.Civil
import DurableWorkflows.Base.FixedWidth
import DurableWorkflows.Base.SqlText
import DurableWorkflows.Schedule.Materializer

/-!
# The texts of occurrence keys

A local occurrence is stored as a text, and the floor of a schedule is the
largest text that is no run-now's. The text of a date and time is written and
read by `chrono`: a `Strftime` carries what the keys rely on. The floor of the
texts is the floor of the values, for years of four digits.

## Main definitions

- `Strftime`: `chrono`'s formatter and parser
- `LocalOccurrence.display`, `fromStr`, `OccurrenceKey.text`
- `loadMaterializedFloor`: what is read back from the table

## Main results

- `LocalOccurrence.fromStr_display`, `bytes_display_lt`
- `loadMaterializedFloor_eq`: the floor of the texts
-/

namespace DurableWorkflows

open Civil FixedWidth SqlText Transaction

-- ════════════════════════════════════════════════════════════════════════
-- Dates and times
-- ════════════════════════════════════════════════════════════════════════

namespace NaiveDateTime

/-- The seconds from the start of the year 0 to 1970-01-01T00:00:00. -/
def epochSeconds : ℤ := 86400 * daysBeforeYear 1970

/-- The first millisecond of a year. -/
def startOfYear (year : ℕ) : ℤ := (86400 * daysBeforeYear year - epochSeconds) * 1000

/-- The year has four digits: it is one of 0000 to 9999. -/
def FourDigitYear (t : NaiveDateTime) : Prop := startOfYear 0 ≤ t ∧ t < startOfYear 10000

instance (t : NaiveDateTime) : Decidable t.FourDigitYear := inferInstanceAs (Decidable (_ ∧ _))

/-- The date and the time of the calendar. -/
def civil (t : NaiveDateTime) : DateTime := .ofSeconds (t / 1000 + epochSeconds).toNat

/-- The date and time with some fields. -/
def ofCivil (a : DateTime) : ℤ := (a.seconds - epochSeconds) * 1000

theorem epochSeconds_eq : epochSeconds = 62167219200 := by decide

variable {t t' : ℤ}

theorem FourDigitYear.bounds (h : FourDigitYear t) :
    -62167219200000 ≤ t ∧ t < 253402300800000 := by
  have hzero : startOfYear 0 = -62167219200000 := by decide
  have htenThousand : startOfYear 10000 = 253402300800000 := by decide
  exact ⟨hzero ▸ h.1, htenThousand ▸ h.2⟩

theorem seconds_civil (h : FourDigitYear t) :
    ((civil t).seconds : ℤ) = t / 1000 + 62167219200 := by
  have := h.bounds
  rw [civil, DateTime.seconds_ofSeconds, epochSeconds_eq, Int.toNat_of_nonneg (by omega)]

/-- A date and time is the one with its fields. -/
theorem ofCivil_civil (h : FourDigitYear t) (hwhole : t % 1000 = 0) : ofCivil (civil t) = t := by
  rw [ofCivil, seconds_civil h, epochSeconds_eq]
  omega

theorem year_civil (h : FourDigitYear t) : (civil t).year < 10000 := by
  by_contra hge
  have hyear := daysBeforeYear_mono (not_lt.mp hge)
  have hdays : daysBeforeYear 10000 = 3652425 := by decide
  have hseconds := seconds_civil h
  have := h.bounds
  rw [DateTime.seconds, DateTime.days] at hseconds
  omega

/-- Earlier dates and times have smaller fields. -/
theorem numbers_civil_lt (ht : FourDigitYear t) (ht' : FourDigitYear t') (hwhole : t % 1000 = 0)
    (hwhole' : t' % 1000 = 0) : (civil t).numbers < (civil t').numbers ↔ t < t' := by
  rw [← DateTime.seconds_lt_iff, ← Int.ofNat_lt, seconds_civil ht, seconds_civil ht']
  omega

end NaiveDateTime

-- ════════════════════════════════════════════════════════════════════════
-- The formatter and the parser
-- ════════════════════════════════════════════════════════════════════════

/-- The fields of a date and a time. -/
inductive TimeField
  | year
  | month
  | day
  | hour
  | minute
  | second
  deriving DecidableEq

/-- The number of a field. -/
def TimeField.of (a : DateTime) : TimeField → ℕ
  | year => a.year
  | month => a.month
  | day => a.day
  | hour => a.hour
  | minute => a.minute
  | second => a.second

/-- `LocalOccurrence::FORMAT`: the items of `%Y-%m-%dT%H:%M:%S`. -/
def LocalOccurrence.format : List (Item TimeField) :=
  [.numeric 4 .year, .literal '-', .numeric 2 .month, .literal '-', .numeric 2 .day, .literal 'T',
    .numeric 2 .hour, .literal ':', .numeric 2 .minute, .literal ':', .numeric 2 .second]

/-- `NaiveDateTime::format` and `NaiveDateTime::parse_from_str` of `chrono`, with the format of the
keys. The fields are those of the Gregorian calendar, a year from 0000 to 9999 is shown with four
digits and every other field with two. A text with these digits is read as the date and time that
has the numbers, if there is one, and what is read has no fraction of a second. -/
structure Strftime where
  format : NaiveDateTime → String
  parseFromStr : String → Except String NaiveDateTime
  format_civil : ∀ {t : NaiveDateTime}, t.FourDigitYear →
    (format t).toList = FixedWidth.text LocalOccurrence.format (TimeField.of t.civil)
  parse_civil : ∀ {text : String} {a : DateTime},
    read LocalOccurrence.format text.toList = some a.numbers →
    parseFromStr text = .ok (NaiveDateTime.ofCivil a)
  parse_whole : ∀ {text : String} {t : NaiveDateTime}, parseFromStr text = .ok t → t % 1000 = 0

theorem LocalOccurrence.numbers_format (a : DateTime) :
    FixedWidth.numbers LocalOccurrence.format (TimeField.of a) = a.numbers := rfl

theorem LocalOccurrence.fits_format {a : DateTime} (hyear : a.year < 10000) :
    Fits LocalOccurrence.format (TimeField.of a) := by
  have hday := a.day_le.trans (daysInMonth_le a.year a.month)
  have hmonth := a.month_le
  have hhour := a.hour_lt
  have hminute := a.minute_lt
  have hsecond := a.second_lt
  intro width field h
  simp only [LocalOccurrence.format, List.mem_cons, Item.numeric.injEq, reduceCtorEq, false_or,
    List.not_mem_nil, or_false] at h
  rcases h with ⟨rfl, rfl⟩ | ⟨rfl, rfl⟩ | ⟨rfl, rfl⟩ | ⟨rfl, rfl⟩ | ⟨rfl, rfl⟩ | ⟨rfl, rfl⟩ <;>
    simp only [TimeField.of] <;> omega

-- ════════════════════════════════════════════════════════════════════════
-- Local occurrences
-- ════════════════════════════════════════════════════════════════════════

namespace LocalOccurrence

variable {strftime : Strftime} {a b : LocalOccurrence}

/-- The text of a local occurrence. -/
def display (strftime : Strftime) (occurrence : LocalOccurrence) : String :=
  strftime.format occurrence.datetime

/-- `LocalOccurrence::from_str`. -/
def fromStr (strftime : Strftime) (text : String) : Except String LocalOccurrence :=
  match h : strftime.parseFromStr text with
  | .ok t => .ok ⟨t, strftime.parse_whole h⟩
  | .error e => .error e

theorem fromStr_eq_ok {text : String} (h : strftime.parseFromStr text = .ok a.datetime) :
    fromStr strftime text = .ok a := by
  unfold fromStr
  split
  · rename_i t ht
    rw [h] at ht
    cases ht
    rfl
  · rename_i e he
    rw [h] at he
    cases he

/-- A local occurrence is read back from its text. -/
theorem fromStr_display (h : a.datetime.FourDigitYear) :
    fromStr strftime (a.display strftime) = .ok a := by
  have hread : read format (a.display strftime).toList = some a.datetime.civil.numbers := by
    rw [display, strftime.format_civil h, read_text (fits_format (NaiveDateTime.year_civil h)),
      numbers_format]
  apply fromStr_eq_ok
  rw [strftime.parse_civil hread, NaiveDateTime.ofCivil_civil h a.whole]

/-- The characters of the text are digits and separators. -/
theorem mem_display {c : Char} (h : a.datetime.FourDigitYear)
    (hc : c ∈ (a.display strftime).toList) : c.isDigit = true ∨ c = '-' ∨ c = 'T' ∨ c = ':' := by
  rw [display, strftime.format_civil h] at hc
  refine (mem_text hc).imp_right fun hitem => ?_
  simp only [format, List.mem_cons, Item.literal.injEq, reduceCtorEq, false_or, List.not_mem_nil,
    or_false] at hitem
  tauto

theorem ascii_display (h : a.datetime.FourDigitYear) :
    ∀ c ∈ (a.display strftime).toList, Ascii c := by
  intro c hc
  rcases mem_display h hc with hdigit | rfl | rfl | rfl
  · have := (Decimal.isDigit_bounds hdigit).2
    have hnine : '9'.toNat = 57 := rfl
    show c.toNat < 128
    omega
  · show '-'.toNat < 128
    decide
  · show 'T'.toNat < 128
    decide
  · show ':'.toNat < 128
    decide

/-- **The byte order** of the texts is the order of the local occurrences. -/
theorem bytes_display_lt (ha : a.datetime.FourDigitYear) (hb : b.datetime.FourDigitYear) :
    bytes (a.display strftime).toList < bytes (b.display strftime).toList ↔ a < b := by
  rw [bytes_lt_bytes (ascii_display ha) (ascii_display hb), display, display,
    strftime.format_civil ha, strftime.format_civil hb,
    text_lt_text (fits_format (NaiveDateTime.year_civil ha))
      (fits_format (NaiveDateTime.year_civil hb)),
    numbers_format, numbers_format, NaiveDateTime.numbers_civil_lt ha hb a.whole b.whole, lt_iff]

end LocalOccurrence

-- ════════════════════════════════════════════════════════════════════════
-- The tables
-- ════════════════════════════════════════════════════════════════════════

/-- `MANUAL_OCCURRENCE_PREFIX`. -/
def manualOccurrencePrefix : String := "manual:"

/-- The text of `local_occurrence`. -/
def OccurrenceKey.text (strftime : Strftime) : OccurrenceKey → String
  | .local occurrence => occurrence.display strftime
  | .manual scheduledFor => s!"{manualOccurrencePrefix}{scheduledFor}"

/-- The text is that of a run-now: `LIKE 'manual:%'`. -/
def isManualText (text : String) : Bool :=
  like (manualOccurrencePrefix ++ "%").toList text.toList

/-- `MaterializedFloor::load`, on the texts of the keys. -/
def loadMaterializedFloor (strftime : Strftime) (key : String) :
    ScheduleTx (Option LocalOccurrence) := do
  let rows ← selectRows occurrenceTable fun r =>
    r.scheduleKey == key && !isManualText (r.localOccurrence.text strftime)
  match maxText (rows.map (·.localOccurrence.text strftime)) with
  | none => return none
  | some text =>
    let floor ← ofExcept ((LocalOccurrence.fromStr strftime text).mapError fun error =>
      .invalidState (.invalidRunOccurrence key text error))
    return some floor

section Tables

variable {strftime : Strftime} {key : String} {rows : List OccurrenceRow} {s : ScheduleStore}

theorem isManualText_eq (text : String) :
    isManualText text = manualOccurrencePrefix.toList.isPrefixOf text.toList := by
  have hpattern : (manualOccurrencePrefix ++ "%").toList =
      manualOccurrencePrefix.toList ++ ['%'] := by
    rw [String.toList_append]
    rfl
  have hplain : manualOccurrencePrefix.toList.all (fun c => decide (c ≠ '%' ∧ c ≠ '_')) = true := by
    decide
  rw [isManualText, hpattern,
    like_prefix fun c hc => of_decide_eq_true (List.all_eq_true.mp hplain c hc)]

theorem isManualText_manual (t : DbMillis) :
    isManualText (OccurrenceKey.text strftime (.manual t)) = true := by
  rw [isManualText_eq, List.isPrefixOf_iff_prefix]
  show _ <+: (manualOccurrencePrefix ++ toString t).toList
  rw [String.toList_append]
  exact List.prefix_append _ _

theorem isManualText_local {o : LocalOccurrence} (h : o.datetime.FourDigitYear) :
    isManualText (OccurrenceKey.text strftime (.local o)) = false := by
  rw [isManualText_eq, Bool.eq_false_iff, ne_eq, List.isPrefixOf_iff_prefix]
  intro hprefix
  have hmem : 'm' ∈ (o.display strftime).toList := hprefix.subset (by decide)
  exact absurd (LocalOccurrence.mem_display h hmem) (by decide)

/-- The local occurrences of rows have years of four digits. -/
def FourDigitYears (rows : List OccurrenceRow) : Prop :=
  ∀ r ∈ rows, ∀ o, r.localOccurrence = .local o → o.datetime.FourDigitYear

/-- The texts that are no run-now's are those of the local occurrences. -/
theorem map_text_filter (h : FourDigitYears rows) :
    (rows.filter fun r => !isManualText (r.localOccurrence.text strftime)).map
        (·.localOccurrence.text strftime) =
      (rows.filterMap (·.localOccurrence.occurrence)).map (·.display strftime) := by
  induction rows with
  | nil => rfl
  | cons r rows ih =>
    have hrest := ih fun r' hr' => h r' (List.mem_cons_of_mem _ hr')
    cases ho : r.localOccurrence with
    | manual t =>
      rw [List.filter_cons_of_neg (by rw [ho, isManualText_manual]; decide),
        List.filterMap_cons_none (by rw [ho]; rfl), hrest]
    | «local» o =>
      have hyear := h r List.mem_cons_self o ho
      rw [List.filter_cons_of_pos (by rw [ho, isManualText_local hyear]; decide),
        List.filterMap_cons_some (by rw [ho]; rfl), List.map_cons, List.map_cons, hrest, ho]
      rfl

/-- The local occurrences of a schedule with a row. -/
def ScheduleStore.localKeys (s : ScheduleStore) (key : String) : List LocalOccurrence :=
  (s.runs.toList.filter (·.scheduleKey == key)).filterMap (·.localOccurrence.occurrence)

theorem ScheduleStore.mem_localKeys {o : LocalOccurrence} : o ∈ s.localKeys key ↔
    ∃ r ∈ s.runs.toList, r.scheduleKey = key ∧ r.localOccurrence = .local o := by
  rw [localKeys, List.mem_filterMap]
  constructor
  · rintro ⟨r, hr, ho⟩
    obtain ⟨hr, hkey⟩ := List.mem_filter.mp hr
    refine ⟨r, hr, beq_iff_eq.mp hkey, ?_⟩
    cases hocc : r.localOccurrence with
    | manual t =>
      rw [hocc] at ho
      cases ho
    | «local» o' =>
      rw [hocc] at ho
      exact congrArg OccurrenceKey.local (Option.some.inj ho)
  · rintro ⟨r, hr, hkey, ho⟩
    exact ⟨r, List.mem_filter.mpr ⟨hr, beq_iff_eq.mpr hkey⟩, by rw [ho]; rfl⟩

theorem materializedFloor_eq (key : String) (s : ScheduleStore) :
    materializedFloor key s = .ok ((s.localKeys key).max?, s) := by
  rw [ScheduleStore.localKeys, ← Table.select_eq_filter]
  rfl

/-- **The floor of the texts** is the latest local occurrence with a row. -/
theorem loadMaterializedFloor_eq
    (h : ∀ o ∈ s.localKeys key, o.datetime.FourDigitYear) :
    loadMaterializedFloor strftime key s = .ok ((s.localKeys key).max?, s) := by
  have hyears : FourDigitYears (s.runs.toList.filter (·.scheduleKey == key)) := by
    intro r hr o ho
    obtain ⟨hr, hkey⟩ := List.mem_filter.mp hr
    exact h o (ScheduleStore.mem_localKeys.mpr ⟨r, hr, beq_iff_eq.mp hkey, ho⟩)
  have hmax : maxText ((s.localKeys key).map (LocalOccurrence.display strftime)) =
      (s.localKeys key).max?.map (LocalOccurrence.display strftime) :=
    maxText_map fun a ha b hb => LocalOccurrence.bytes_display_lt (h a ha) (h b hb)
  have hselect : s.runs.select (fun r => r.scheduleKey == key &&
      !isManualText (r.localOccurrence.text strftime)) =
      (s.runs.toList.filter (·.scheduleKey == key)).filter
        fun r => !isManualText (r.localOccurrence.text strftime) := by
    rw [Table.select_eq_filter, List.filter_filter]
    exact List.filter_congr fun r _ => Bool.and_comm _ _
  have hload : loadMaterializedFloor strftime key s =
      (match maxText ((s.localKeys key).map (LocalOccurrence.display strftime)) with
        | none => (pure none : ScheduleTx _)
        | some text => do
          let floor ← ofExcept ((LocalOccurrence.fromStr strftime text).mapError fun error =>
            .invalidState (.invalidRunOccurrence key text error))
          return some floor) s := by
    rw [ScheduleStore.localKeys, ← map_text_filter hyears, ← hselect]
    rfl
  rw [hload, hmax]
  cases hfloor : (s.localKeys key).max? with
  | none => rfl
  | some floor =>
    have hread : LocalOccurrence.fromStr strftime (floor.display strftime) = .ok floor :=
      LocalOccurrence.fromStr_display (h floor (List.max?_mem hfloor))
    rw [Option.map_some]
    dsimp only
    rw [hread]
    rfl

end Tables

/-- **Local occurrence keys.** For years of four digits a key is read back from its text, the byte
order of two texts is the order of the keys, and the floor that the database computes from the
texts is the latest local occurrence with a row of the schedule; the run-nows do not count. -/
theorem floor_of_texts (strftime : Strftime) :
    (∀ o : LocalOccurrence, o.datetime.FourDigitYear →
      LocalOccurrence.fromStr strftime (o.display strftime) = .ok o) ∧
    (∀ a b : LocalOccurrence, a.datetime.FourDigitYear → b.datetime.FourDigitYear →
      (bytes (a.display strftime).toList < bytes (b.display strftime).toList ↔ a < b)) ∧
    ∀ (key : String) (s : ScheduleStore),
      (∀ r ∈ s.runs.toList, r.scheduleKey = key → ∀ o, r.localOccurrence = .local o →
        o.datetime.FourDigitYear) →
      ∃ floor, loadMaterializedFloor strftime key s = .ok (floor, s) ∧
        materializedFloor key s = .ok (floor, s) ∧
        match floor with
        | none => ∀ r ∈ s.runs.toList, r.scheduleKey = key → ∃ t, r.localOccurrence = .manual t
        | some o => (∃ r ∈ s.runs.toList, r.scheduleKey = key ∧ r.localOccurrence = .local o) ∧
          ∀ r ∈ s.runs.toList, r.scheduleKey = key → ∀ o', r.localOccurrence = .local o' →
            o' ≤ o := by
  refine ⟨fun o h => LocalOccurrence.fromStr_display h, fun a b ha hb =>
    LocalOccurrence.bytes_display_lt ha hb, fun key s hyears => ?_⟩
  have hfour : ∀ o ∈ s.localKeys key, o.datetime.FourDigitYear := by
    intro o ho
    obtain ⟨r, hr, hkey, ho⟩ := ScheduleStore.mem_localKeys.mp ho
    exact hyears r hr hkey o ho
  refine ⟨_, loadMaterializedFloor_eq hfour, materializedFloor_eq key s, ?_⟩
  cases hfloor : (s.localKeys key).max? with
  | none =>
    intro r hr hkey
    cases ho : r.localOccurrence with
    | manual t => exact ⟨t, rfl⟩
    | «local» o =>
      have hmem := ScheduleStore.mem_localKeys.mpr ⟨r, hr, hkey, ho⟩
      rw [List.max?_eq_none_iff.mp hfloor] at hmem
      cases hmem
  | some o =>
    obtain ⟨hmem, hle⟩ := List.max?_eq_some_iff.mp hfloor
    refine ⟨ScheduleStore.mem_localKeys.mp hmem, fun r hr hkey o' ho' => ?_⟩
    exact hle o' (ScheduleStore.mem_localKeys.mpr ⟨r, hr, hkey, ho'⟩)

namespace Sample

/-- A formatter and a parser of the format. -/
def strftime : Strftime where
  format t := String.ofList (FixedWidth.text LocalOccurrence.format (TimeField.of t.civil))
  parseFromStr text :=
    match (read LocalOccurrence.format text.toList).bind DateTime.ofNumbers? with
    | some a => .ok (NaiveDateTime.ofCivil a)
    | none => .error "input contains invalid characters"
  format_civil _ := String.toList_ofList
  parse_civil h := by rw [h, Option.bind_some, DateTime.ofNumbers?_numbers]
  parse_whole h := by
    split at h
    · cases h
      exact Int.mul_emod_left _ _
    · cases h

/-- 2026-11-01T01:30:00. -/
def november : LocalOccurrence := ⟨1793496600000, by decide⟩

/-- A key, its text, and the key that is read back. -/
theorem november_reads_back : (november.display strftime).toList = "2026-11-01T01:30:00".toList ∧
    LocalOccurrence.fromStr strftime (november.display strftime) = .ok november := by
  refine ⟨?_, (floor_of_texts strftime).1 november (by decide)⟩
  rw [LocalOccurrence.display, strftime, String.toList_ofList]
  decide

end Sample

end DurableWorkflows
