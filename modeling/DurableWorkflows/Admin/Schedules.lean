import DurableWorkflows.Admin.Cursor
import DurableWorkflows.Admin.Types
import DurableWorkflows.Schedule.System
import Mathlib.Data.List.Dedup
import Mathlib.Data.Prod.Lex

/-!
# The list of schedules

A page merges the registered schedules, which the process keeps in the order of their bytes, with
the persisted ones, which the database orders and filters by its collation. The schemas of MySQL
name a binary collation; those of Postgres name none.

## Main definitions

- `Collation`: the order that the database gives to key text
- `listSchedules`: a page
- `BoundariesAgree`: the database agrees with the order of the bytes wherever a page begins

## Main results

- `listSchedules_complete`: when the pages are complete
- `listsEveryKey_iff`: the collations for which the pages are always complete
-/

namespace DurableWorkflows

open Keyset

/-- `MAX_RECENT_SCHEDULE_RUNS`. -/
def maxRecentScheduleRuns : ℕ := 20

/-- The order that a database gives to text. -/
structure Collation where
  le : String → String → Bool
  total : ∀ a b, le a b || le b a
  trans : ∀ a b c, le a b → le b c → le a c
  antisymm : ∀ a b, le a b → le b a → a = b

/-- `column.gt(value)`. -/
def Collation.gt (collation : Collation) (column value : String) : Bool :=
  !collation.le column value

/-- The order of the bytes, which is the order of the characters. -/
def Collation.binary : Collation where
  le a b := decide (a ≤ b)
  total a b := by
    rw [Bool.or_eq_true, decide_eq_true_eq, decide_eq_true_eq]
    exact le_total a b
  trans a b c hab hbc := decide_eq_true ((of_decide_eq_true hab).trans (of_decide_eq_true hbc))
  antisymm a b hab hba := le_antisymm (of_decide_eq_true hab) (of_decide_eq_true hba)

/-- The registered schedules (`ScheduleRegistry`): their keys are valid and not shared. -/
structure ScheduleRegistry (library : CalendarLibrary) where
  schedules : List (RegisteredSchedule library)
  valid : ∀ s ∈ schedules, validScheduleKey s.metadata.key = true
  key : (schedules.map (·.metadata.key)).Nodup

/-- The schedule tables with the list of the state rows, which are inserted for registered
schedules only. -/
structure ScheduleTables where
  store : ScheduleStore
  rows : List ScheduleStateRow
  mem_rows : ∀ key row, store.states key = some row ↔ row ∈ rows ∧ row.scheduleKey = key
  key : (rows.map (·.scheduleKey)).Nodup
  valid : ∀ row ∈ rows, validScheduleKey row.scheduleKey = true

/-- `ScheduleStateSummary`. -/
structure ScheduleStateSummary where
  definitionFingerprint : Fingerprint
  definitionVersion : ℤ
  nextLocalOccurrence : LocalOccurrence
  nextOccurrenceAt : DbMillis
  lastMaterializedAt : Option DbMillis
  pausedAt : Option DbMillis
  pausedBy : Option ℤ
  pauseReason : Option String
  createdAt : DbMillis
  updatedAt : DbMillis
  deriving DecidableEq

/-- `ScheduleHealthIssue`. -/
inductive ScheduleHealthIssue
  | missingState
  | unregisteredState
  | definitionMismatch (registeredVersion persistedVersion : ℤ)
  deriving DecidableEq, Repr

/-- `ScheduleRunSummary`. -/
structure ScheduleRunSummary where
  id : ScheduleRunId
  scheduleKey : String
  localOccurrence : OccurrenceKey
  scheduledFor : DbMillis
  materializedAt : DbMillis
  status : ScheduleRunStatus
  reason : Option String
  actorId : Option ℤ
  workflowId : Option WorkflowId
  workflowStatus : Option String
  workflowCompletedAt : Option DbMillis
  createdAt : DbMillis
  deriving DecidableEq

/-- `ScheduleSummary`. -/
structure ScheduleSummary where
  key : String
  registeredVersion : Option ℤ
  registeredFingerprint : Option Fingerprint
  cron : Option String
  timezone : Option String
  misfire : Option MisfirePolicy
  overlap : Option OverlapPolicy
  misfireGraceMillis : Option ℕ
  state : Option ScheduleStateSummary
  activeOverlapCount : ℕ
  skippedCount : ℕ
  coalescedCount : ℕ
  lastRun : Option ScheduleRunSummary
  recentRuns : List ScheduleRunSummary
  healthIssues : List ScheduleHealthIssue
  deriving DecidableEq

/-- `schedule_state_summary`. -/
def scheduleStateSummary (row : ScheduleStateRow) : ScheduleStateSummary where
  definitionFingerprint := row.definitionFingerprint
  definitionVersion := row.definitionVersion
  nextLocalOccurrence := row.nextLocalOccurrence
  nextOccurrenceAt := row.nextOccurrenceAt
  lastMaterializedAt := row.lastMaterializedAt
  pausedAt := row.pausedAt
  pausedBy := row.pausedBy
  pauseReason := row.pauseReason
  createdAt := row.createdAt
  updatedAt := row.updatedAt

variable {library : CalendarLibrary} (codec : CursorCodec) (collation : Collation)
  (registry : ScheduleRegistry library) (tables : ScheduleTables)

/-- `schedule_run_summary` of a run joined with its workflow. -/
def scheduleRunSummary (row : OccurrenceRow) : ScheduleRunSummary :=
  let workflowId := (tables.store.sys.db.scheduleRuns.find row.id).bind (·.workflowId)
  let workflow := workflowId.bind tables.store.sys.db.workflows.find
  { id := row.id
    scheduleKey := row.scheduleKey
    localOccurrence := row.localOccurrence
    scheduledFor := row.scheduledFor
    materializedAt := row.materializedAt
    status := row.status
    reason := row.reason
    actorId := row.actorId
    workflowId := workflowId
    workflowStatus := workflow.map (·.status.asStr)
    workflowCompletedAt := workflow.bind (·.completedAt)
    createdAt := row.createdAt }

/-- `load_schedule_runs` without a cursor: the newest runs of a schedule. -/
def loadScheduleRuns (key : String) (limit : ℕ) : List ScheduleRunSummary :=
  let rows := (tables.store.runs.select fun r => r.scheduleKey == key).insertionSort fun r r' =>
    toLex (r'.scheduledFor, r'.id) ≤ toLex (r.scheduledFor, r.id)
  (rows.take limit).map (scheduleRunSummary tables)

/-- The runs of a schedule with a status. -/
def scheduleRunCount (key : String) (status : ScheduleRunStatus) : ℕ :=
  (tables.store.runs.select fun r => r.scheduleKey == key && r.status == status).length

/-- The health issues of a schedule. -/
def scheduleHealthIssues : Option DurableSchedule → Option ScheduleStateRow →
    List ScheduleHealthIssue
  | some _, none => [.missingState]
  | none, some _ => [.unregisteredState]
  | some definition, some state =>
    if definition.version ≠ state.definitionVersion ∨
        definition ≠ state.definitionFingerprint then
      [.definitionMismatch definition.version state.definitionVersion]
    else
      []
  | none, none => []

/-- The summary of a key, with `schedule_counts`. -/
def scheduleSummary (recentRunLimit : ℕ) (key : String) : ScheduleSummary :=
  let definition := (registry.schedules.find? (·.metadata.key == key)).map (·.metadata)
  let state := tables.store.states key
  let recentRuns := loadScheduleRuns tables key recentRunLimit
  { key := key
    registeredVersion := definition.map (·.version)
    registeredFingerprint := definition
    cron := definition.map (·.cron)
    timezone := definition.map (·.timezone)
    misfire := definition.map (·.misfire)
    overlap := definition.map (·.overlap)
    misfireGraceMillis := definition.map (·.misfireGraceMillis)
    state := state.map scheduleStateSummary
    activeOverlapCount := (tables.store.active key).length
    skippedCount := scheduleRunCount tables key .skipped
    coalescedCount := scheduleRunCount tables key .coalesced
    lastRun := recentRuns.head?
    recentRuns := recentRuns
    healthIssues := scheduleHealthIssues definition state }

-- ════════════════════════════════════════════════════════════════════════
-- Pages of keys
-- ════════════════════════════════════════════════════════════════════════

/-- `decode_string_cursor`. -/
def decodeStringCursor (scope cursor : String) : Except DurableError String := do
  let position ← decodeCursor codec scope cursor
  rejectIf (position.timestamp ≠ 0 ∨ position.tieBreaker.utf8ByteSize = 0)
    (.invalidCursor "string cursor position is invalid")
  return position.tieBreaker

/-- `encode_string_cursor`. -/
def encodeStringCursor (scope value : String) : Except DurableError String :=
  encodeCursor codec scope ⟨0, value⟩

/-- The key that a request goes on after. -/
def requestKey : Option String → Except DurableError (Option String)
  | some cursor => do
    let key ← decodeStringCursor codec "schedules" cursor
    return some key
  | none => return none

/-- The registered keys after a key, compared by their bytes. -/
def registeredKeys (after : Option String) : List String :=
  (registry.schedules.map (·.metadata.key)).filter fun key => after.all (· < key)

/-- The persisted keys after a key, filtered, ordered and limited by the database. -/
def persistedKeys (after : Option String) (limit : ℕ) : List String :=
  let keys := (tables.rows.map (·.scheduleKey)).filter fun key => after.all (collation.gt key)
  (keys.insertionSort fun a b => collation.le a b = true).take limit

/-- A `BTreeSet` of keys, in its order. -/
def keySet (keys : List String) : List String := sort id keys.dedup

/-- The cursor after the last key of a page. -/
def scheduleNextCursor (shown : List String) : Except DurableError (Option String) :=
  match shown.getLast? with
  | some key => do
    let cursor ← encodeStringCursor codec "schedules" key
    return some cursor
  | none => return none

/-- The keys that a page shows of those after its cursor. -/
def truncateKeys (limit : ℕ) (keys : List String) : Except DurableError (AdminPage String) := do
  let shown := keys.take limit
  let nextCursor ← if limit < keys.length then scheduleNextCursor codec shown else pure none
  return ⟨shown, nextCursor⟩

/-- The keys of a page of `list_schedules`, and its cursor. -/
def scheduleKeysPage (page : PageRequest) : Except DurableError (AdminPage String) := do
  let limit ← page.boundedLimit maxAdminPageSize
  let after ← requestKey codec page.cursor
  truncateKeys codec limit (keySet (registeredKeys registry after ++
    persistedKeys collation tables after (limit + 1)))

/-- `list_schedules`. -/
def listSchedules (page : PageRequest) (recentRunLimit : ℕ) :
    Except DurableError (AdminPage ScheduleSummary) := do
  rejectIf (recentRunLimit = 0 ∨ maxRecentScheduleRuns < recentRunLimit)
    (.invalidDefinition
      s!"recent schedule run limit must contain 1 to {maxRecentScheduleRuns} entries")
  let keys ← scheduleKeysPage codec collation registry tables page
  return ⟨keys.items.map (scheduleSummary registry tables recentRunLimit), keys.nextCursor⟩

/-- The keys of all schedules, registered or persisted, each once. -/
def scheduleKeys : List String :=
  (registry.schedules.map (·.metadata.key) ++ tables.rows.map (·.scheduleKey)).dedup

-- ════════════════════════════════════════════════════════════════════════
-- The cursor of a key
-- ════════════════════════════════════════════════════════════════════════

variable {codec collation registry tables} {key : String} {mark : Option String} {limit : ℕ}

theorem plain_of_scheduleKeyChar {c : Char} (h : scheduleKeyChar c = true) :
    JsonText.Plain c := by
  rw [scheduleKeyChar, Bool.or_eq_true, Bool.or_eq_true, beq_iff_eq] at h
  rcases h with (hlower | hdigit) | rfl
  · have hshort : (JsonText.shortEscapes.map Prod.fst).all (fun d => !d.isLower) = true := by decide
    have hunfold : c.isLower = (decide ('a'.val ≤ c.val) && decide (c.val ≤ 'z'.val)) := rfl
    rw [hunfold, Bool.and_eq_true, decide_eq_true_eq, decide_eq_true_eq] at hlower
    have hlow : 'a'.toNat ≤ c.toNat := UInt32.le_iff_toNat_le.mp hlower.1
    have hhigh : c.toNat ≤ 'z'.toNat := UInt32.le_iff_toNat_le.mp hlower.2
    have ha : 'a'.toNat = 97 := rfl
    have hz : 'z'.toNat = 122 := rfl
    refine ⟨by omega, by omega, fun hmem => ?_⟩
    have hfalse := List.all_eq_true.mp hshort c hmem
    rw [hunfold, decide_eq_true hlower.1, decide_eq_true hlower.2] at hfalse
    cases hfalse
  · exact JsonText.plain_of_isDigit hdigit
  · decide

/-- A valid key is short and plain. -/
theorem validScheduleKey_plain (h : validScheduleKey key = true) :
    (∀ c ∈ key.toList, JsonText.Plain c) ∧ 0 < key.utf8ByteSize ∧
      key.utf8ByteSize ≤ maxScheduleKeyBytes := by
  simp only [validScheduleKey, Bool.and_eq_true, decide_eq_true_eq] at h
  obtain ⟨⟨⟨⟨⟨hne, hle⟩, -⟩, -⟩, -⟩, hchars⟩ := h
  have hplain : ∀ c ∈ key.toList, JsonText.Plain c := fun c hc =>
    plain_of_scheduleKeyChar (List.all_eq_true.mp hchars c hc)
  refine ⟨hplain, ?_, hle⟩
  rw [(JsonText.bytes_of_plain hplain).1]
  apply List.length_pos_iff.mpr
  intro hnil
  rw [hnil] at hne
  cases hne

/-- The cursor of a valid key leads back to it. -/
theorem stringCursor_ok (codec : CursorCodec) (h : validScheduleKey key = true) :
    ∃ cursor, encodeStringCursor codec "schedules" key = .ok cursor ∧
      requestKey codec (some cursor) = .ok (some key) := by
  obtain ⟨hplain, hpos, hle⟩ := validScheduleKey_plain h
  obtain ⟨hbytes, hescaped⟩ := JsonText.bytes_of_plain hplain
  rw [maxScheduleKeyBytes] at hle
  have haccepted : CursorPosition.Accepted "schedules" ⟨0, key⟩ := by
    refine ⟨by decide, ?_⟩
    show validateTieBreaker key = _
    rw [validateTieBreaker, rejectIf, if_neg]
    omega
  have hfits : fieldBytes "schedules" ⟨0, key⟩ ≤ maxFieldBytes := by
    have hscope : JsonText.escapedBytes "schedules" = 9 := by decide
    have htime : (toString (0 : ℤ)).utf8ByteSize = 1 := by decide
    rw [fieldBytes, maxFieldBytes, hscope, htime, hescaped, ← hbytes]
    omega
  have hrange : I64.InRange 0 := by decide
  have hdecode : decodeCursor codec _ _ = _ := decodeCursor_eq hrange haccepted.1 haccepted
  rw [if_neg (not_lt.mpr hfits), if_pos rfl] at hdecode
  refine ⟨_, encodeCursor_ok haccepted, ?_⟩
  rw [requestKey, decodeStringCursor, hdecode]
  show (rejectIf _ _ >>= _ >>= _) = _
  rw [rejectIf, if_neg]
  · rfl
  · exact not_or.mpr ⟨fun h => h rfl, hpos.ne'⟩

-- ════════════════════════════════════════════════════════════════════════
-- The keys of a page
-- ════════════════════════════════════════════════════════════════════════

/-- The collation orders the keys of a set as their bytes are ordered. -/
def Collation.AgreesOn (collation : Collation) (keys : Set String) : Prop :=
  ∀ a ∈ keys, ∀ b ∈ keys, (collation.le a b = true ↔ a ≤ b)

/-- The keys of a registry and of the state rows. -/
def scheduleKeySet (registry : ScheduleRegistry library) (tables : ScheduleTables) : Set String :=
  {key | key ∈ scheduleKeys registry tables}

/-- All keys in the order of their bytes. -/
def orderedKeys (registry : ScheduleRegistry library) (tables : ScheduleTables) : List String :=
  sort id (scheduleKeys registry tables)

/-- The keys of which a page shows the first. -/
def pageKeys (collation : Collation) (registry : ScheduleRegistry library)
    (tables : ScheduleTables) (mark : Option String) (limit : ℕ) : List String :=
  keySet (registeredKeys registry mark ++ persistedKeys collation tables mark (limit + 1))

/-- What a page needs of the database after a mark, where `rest` are the keys behind the mark in
the order of their bytes. -/
structure PageAgrees (collation : Collation) (registry : ScheduleRegistry library)
    (tables : ScheduleTables) (mark : Option String) (rest : List String) (limit : ℕ) : Prop where
  behind : ∀ k ∈ persistedKeys collation tables mark (limit + 1), mark.all (· < k) = true
  next : ∀ k ∈ rest.take limit, k ∈ registry.schedules.map (·.metadata.key) ∨
    k ∈ persistedKeys collation tables mark (limit + 1)
  more : limit < rest.length → ∃ k ∈ rest.drop limit,
    k ∈ registry.schedules.map (·.metadata.key) ∨
      k ∈ persistedKeys collation tables mark (limit + 1)

/-- The number of entries before a page, if the pages before it are full. -/
def pageStart (limits : ℕ → Option ℕ) : ℕ → ℕ
  | 0 => 0
  | i + 1 => pageStart limits i + limitOrDefault (limits i)

/-- What the page of a number needs of the database, if the pages before it are full. -/
def BoundaryAgrees (collation : Collation) (registry : ScheduleRegistry library)
    (tables : ScheduleTables) (limits : ℕ → Option ℕ) (i : ℕ) : Prop :=
  PageAgrees collation registry tables
    ((orderedKeys registry tables).take (pageStart limits i)).getLast?
    ((orderedKeys registry tables).drop (pageStart limits i)) (limitOrDefault (limits i))

/-- The database agrees with the order of the bytes wherever a page begins. -/
def BoundariesAgree (collation : Collation) (registry : ScheduleRegistry library)
    (tables : ScheduleTables) (limits : ℕ → Option ℕ) : Prop :=
  ∀ i, i = 0 ∨ pageStart limits i < (orderedKeys registry tables).length →
    BoundaryAgrees collation registry tables limits i

theorem mem_scheduleKeys : key ∈ scheduleKeys registry tables ↔
    key ∈ registry.schedules.map (·.metadata.key) ∨ key ∈ tables.rows.map (·.scheduleKey) := by
  rw [scheduleKeys, List.mem_dedup, List.mem_append]

theorem nodup_orderedKeys : ((orderedKeys registry tables).map id).Nodup := by
  rw [List.map_id]
  exact (perm_sort id _).nodup_iff.mpr (List.nodup_dedup _)

theorem mem_rest : key ∈ after id mark (orderedKeys registry tables) ↔
    key ∈ scheduleKeys registry tables ∧ mark.all (· < key) = true := by
  rw [after, List.mem_filter, orderedKeys, (perm_sort id _).mem_iff]
  rfl

theorem mem_keySet {keys : List String} : key ∈ keySet keys ↔ key ∈ keys := by
  rw [keySet, (perm_sort id _).mem_iff, List.mem_dedup]

-- ════════════════════════════════════════════════════════════════════════
-- A page in the order of the bytes
-- ════════════════════════════════════════════════════════════════════════

theorem mem_pageKeys : key ∈ pageKeys collation registry tables mark limit ↔
    (key ∈ registry.schedules.map (·.metadata.key) ∧ mark.all (· < key) = true) ∨
      key ∈ persistedKeys collation tables mark (limit + 1) := by
  rw [pageKeys, mem_keySet, List.mem_append]
  exact or_congr_left List.mem_filter

theorem pageKeys_subset (h : key ∈ pageKeys collation registry tables mark limit) :
    key ∈ scheduleKeys registry tables := by
  rcases mem_pageKeys.mp h with ⟨hregistered, -⟩ | hpersisted
  · exact mem_scheduleKeys.mpr (.inl hregistered)
  · have hmem := (List.perm_insertionSort _ _).mem_iff.mp (List.mem_of_mem_take hpersisted)
    exact mem_scheduleKeys.mpr (.inr (List.mem_of_mem_filter hmem))

theorem pairwise_pageKeys :
    (pageKeys collation registry tables mark limit).Pairwise fun a b => a < b := by
  refine (ordered_sort id _).strict ?_
  rw [List.map_id]
  exact (perm_sort id _).nodup_iff.mpr (List.nodup_dedup _)

theorem pairwise_orderedKeys :
    (orderedKeys registry tables).Pairwise fun a b => id a < id b :=
  (ordered_sort id _).strict nodup_orderedKeys

/-- The keys of a page that are all behind the mark are some of those behind it. -/
theorem pageKeys_eq
    (hbehind : ∀ k ∈ pageKeys collation registry tables mark limit, mark.all (· < k) = true) :
    pageKeys collation registry tables mark limit =
      (after id mark (orderedKeys registry tables)).filter
        fun k => decide (k ∈ pageKeys collation registry tables mark limit) := by
  have hrest : (after id mark (orderedKeys registry tables)).Pairwise fun a b => a < b :=
    pairwise_orderedKeys.filter _
  have hnodup : (pageKeys collation registry tables mark limit).Nodup :=
    pairwise_pageKeys.imp fun h => h.ne
  have hordered : Ordered id (pageKeys collation registry tables mark limit) :=
    ordered_sort id _
  refine eq_of_perm ?_ hordered ((hrest.filter _).imp fun h => h.le)
    ((List.perm_ext_iff_of_nodup hnodup ?_).mpr fun k => ?_)
  · rw [List.map_id]
    exact hnodup
  · exact (hrest.imp fun h => h.ne).filter _
  · rw [List.mem_filter, decide_eq_true_eq]
    exact ⟨fun h => ⟨mem_rest.mpr ⟨pageKeys_subset h, hbehind k h⟩, h⟩, And.right⟩

/-- What is behind a key that is behind the mark is so too. -/
theorem behind_of_le {a b : String} (h : mark.all (· < a) = true) (hle : a ≤ b) :
    mark.all (· < b) = true := by
  cases mark with
  | none => rfl
  | some m =>
    rw [Option.all_some, decide_eq_true_eq] at h ⊢
    exact h.trans_le hle

/-- No key of a page is before all that it shows. -/
theorem exists_shown_le (hlimit : 0 < limit)
    (h : key ∈ pageKeys collation registry tables mark limit) :
    ∃ k ∈ (pageKeys collation registry tables mark limit).take limit, k ≤ key := by
  obtain ⟨least, keys, hkeys⟩ := List.exists_cons_of_ne_nil (List.ne_nil_of_mem h)
  obtain ⟨n, rfl⟩ := Nat.exists_eq_succ_of_ne_zero hlimit.ne'
  have hsorted : (least :: keys).Pairwise fun a b => a < b := hkeys ▸ pairwise_pageKeys
  refine ⟨least, ?_, ?_⟩
  · rw [hkeys, List.take_succ_cons]
    exact List.mem_cons_self
  · rcases List.mem_cons.mp (hkeys ▸ h) with rfl | hbehind
    · exact le_rfl
    · exact (List.rel_of_pairwise_cons hsorted hbehind).le

/-- A page that shows the next keys leaves keys that are behind them. -/
theorem drop_pageKeys_subset (hlimit : 0 < limit)
    (htake : (pageKeys collation registry tables mark limit).take limit =
      (after id mark (orderedKeys registry tables)).take limit) :
    (pageKeys collation registry tables mark limit).drop limit ⊆
      (after id mark (orderedKeys registry tables)).drop limit := by
  intro b hb
  have hsorted : ((pageKeys collation registry tables mark limit).take limit ++
      (pageKeys collation registry tables mark limit).drop limit).Pairwise fun a b => a < b := by
    rw [List.take_append_drop]
    exact pairwise_pageKeys
  have hcross := (List.pairwise_append.mp hsorted).2.2
  -- a key that is left is behind one that is shown, and that one is behind the mark
  obtain ⟨a, ha, hle⟩ := exists_shown_le hlimit (List.mem_of_mem_drop hb)
  have hafter := (mem_rest.mp (List.mem_of_mem_take (htake ▸ ha))).2
  have hrest : b ∈ after id mark (orderedKeys registry tables) :=
    mem_rest.mpr ⟨pageKeys_subset (List.mem_of_mem_drop hb), behind_of_le hafter hle⟩
  rw [← List.take_append_drop limit (after id mark _), List.mem_append, ← htake] at hrest
  exact hrest.resolve_left fun h => absurd (hcross b h b hb) (lt_irrefl b)

/-- If a page that shows the next keys has more, there are more. -/
theorem lt_length_of_pageKeys (hlimit : 0 < limit)
    (htake : (pageKeys collation registry tables mark limit).take limit =
      (after id mark (orderedKeys registry tables)).take limit)
    (hlong : limit < (pageKeys collation registry tables mark limit).length) :
    limit < (after id mark (orderedKeys registry tables)).length := by
  have hleft : 0 < ((pageKeys collation registry tables mark limit).drop limit).length := by
    rw [List.length_drop]
    omega
  obtain ⟨b, hb⟩ := List.exists_mem_of_length_pos hleft
  have hmore := List.length_pos_of_mem (drop_pageKeys_subset hlimit htake hb)
  rw [List.length_drop] at hmore
  omega

namespace PageAgrees

variable (h : PageAgrees collation registry tables mark
  (after id mark (orderedKeys registry tables)) limit)

include h

/-- The page shows the next keys, and knows whether there are more. -/
theorem shows : (pageKeys collation registry tables mark limit).take limit =
      (after id mark (orderedKeys registry tables)).take limit ∧
    (limit < (pageKeys collation registry tables mark limit).length ↔
      limit < (after id mark (orderedKeys registry tables)).length) := by
  have hshown : ∀ k ∈ after id mark (orderedKeys registry tables),
      k ∈ registry.schedules.map (·.metadata.key) ∨
        k ∈ persistedKeys collation tables mark (limit + 1) →
      decide (k ∈ pageKeys collation registry tables mark limit) = true := by
    intro k hk hsource
    refine decide_eq_true (mem_pageKeys.mpr (hsource.imp_left fun h => ⟨h, ?_⟩))
    exact (mem_rest.mp hk).2
  rw [pageKeys_eq fun k hk => (mem_pageKeys.mp hk).elim And.right (h.behind k)]
  refine filter_take (fun k hk => ?_) fun hmore => ?_
  · exact hshown k (List.mem_of_mem_take hk) (h.next k hk)
  · obtain ⟨k, hk, hsource⟩ := h.more hmore
    exact ⟨k, hk, hshown k (List.mem_of_mem_drop hk) hsource⟩

end PageAgrees

/-- When a page shows the next keys, and knows whether there are more. -/
theorem pageAgrees_iff (hlimit : 0 < limit) :
    PageAgrees collation registry tables mark (after id mark (orderedKeys registry tables)) limit ↔
      (pageKeys collation registry tables mark limit).take limit =
          (after id mark (orderedKeys registry tables)).take limit ∧
        (limit < (pageKeys collation registry tables mark limit).length ↔
          limit < (after id mark (orderedKeys registry tables)).length) := by
  refine ⟨PageAgrees.shows, ?_⟩
  rintro ⟨htake, hmore⟩
  have hsource : ∀ k ∈ pageKeys collation registry tables mark limit,
      k ∈ registry.schedules.map (·.metadata.key) ∨
        k ∈ persistedKeys collation tables mark (limit + 1) :=
    fun k hk => (mem_pageKeys.mp hk).imp_left And.left
  refine ⟨fun k hk => ?_, fun k hk => ?_, fun hlong => ?_⟩
  · -- a key that is shown is not behind it, but behind the mark
    obtain ⟨least, hfirst, hle⟩ := exists_shown_le hlimit (mem_pageKeys.mpr (.inr hk))
    exact behind_of_le (mem_rest.mp (List.mem_of_mem_take (htake ▸ hfirst))).2 hle
  · exact hsource k (List.mem_of_mem_take (htake ▸ hk))
  · have hleft : 0 < ((pageKeys collation registry tables mark limit).drop limit).length := by
      rw [List.length_drop]
      have := hmore.mpr hlong
      omega
    obtain ⟨k, hk⟩ := List.exists_mem_of_length_pos hleft
    exact ⟨k, drop_pageKeys_subset hlimit htake hk, hsource k (List.mem_of_mem_drop hk)⟩

-- ════════════════════════════════════════════════════════════════════════
-- A page of an agreeing collation
-- ════════════════════════════════════════════════════════════════════════

/-- The persisted keys behind a mark in the order of their bytes. -/
def rowsAfter (tables : ScheduleTables) (mark : Option String) : List String :=
  sort id (after id mark (tables.rows.map (·.scheduleKey)))

theorem mem_rowsAfter : key ∈ rowsAfter tables mark ↔
    key ∈ tables.rows.map (·.scheduleKey) ∧ mark.all (· < key) = true := by
  rw [rowsAfter, (perm_sort id _).mem_iff]
  exact List.mem_filter

theorem pairwise_rowsAfter : (rowsAfter tables mark).Pairwise fun a b => a < b := by
  refine (ordered_sort id _).strict ?_
  rw [List.map_id]
  exact (perm_sort id _).nodup_iff.mpr (tables.key.filter _)

/-- The persisted keys of a page are the first in the order of the bytes. -/
theorem persistedKeys_eq (hagrees : collation.AgreesOn (scheduleKeySet registry tables))
    (hmark : ∀ k ∈ mark, k ∈ scheduleKeys registry tables) :
    persistedKeys collation tables mark limit = (rowsAfter tables mark).take limit := by
  have hmem : ∀ k ∈ tables.rows.map (·.scheduleKey), k ∈ scheduleKeys registry tables :=
    fun k hk => mem_scheduleKeys.mpr (.inr hk)
  have hfilter : (tables.rows.map (·.scheduleKey)).filter (fun k => mark.all (collation.gt k)) =
      after id mark (tables.rows.map (·.scheduleKey)) := by
    refine List.filter_congr fun k hk => ?_
    cases mark with
    | none => rfl
    | some m =>
      rw [Option.all_some, Option.all_some, Collation.gt, Bool.eq_iff_iff, Bool.not_eq_true',
        decide_eq_true_eq, ← Bool.not_eq_true, hagrees k (hmem k hk) m (hmark m rfl), not_le]
      rfl
  rw [persistedKeys, hfilter]
  refine congrArg _ (insertionSort_eq_sort fun a ha b hb => ?_)
  exact hagrees a (hmem a (List.mem_of_mem_filter ha)) b (hmem b (List.mem_of_mem_filter hb))

/-- A key that a page leaves out is behind a full page of persisted keys. -/
theorem lt_length_before
    (hpersisted : persistedKeys collation tables mark (limit + 1) =
      (rowsAfter tables mark).take (limit + 1))
    (hkey : key ∈ after id mark (orderedKeys registry tables))
    (hleft : key ∉ pageKeys collation registry tables mark limit) :
    limit < ((after id mark (orderedKeys registry tables)).filter fun k =>
      decide (k ∈ pageKeys collation registry tables mark limit) &&
        decide (id k < id key)).length := by
  obtain ⟨hkey, hafter⟩ := mem_rest.mp hkey
  rw [mem_pageKeys, hpersisted, not_or] at hleft
  obtain ⟨hunregistered, hbeyond⟩ := hleft
  have hrow : key ∈ rowsAfter tables mark := by
    refine mem_rowsAfter.mpr ⟨(mem_scheduleKeys.mp hkey).resolve_left fun h => ?_, hafter⟩
    exact hunregistered ⟨h, hafter⟩
  have hrows := @pairwise_rowsAfter tables mark
  rw [← List.take_append_drop (limit + 1) (rowsAfter tables mark)] at hrow hrows
  have hdrop := (List.mem_append.mp hrow).resolve_left hbeyond
  have hsubset : (rowsAfter tables mark).take (limit + 1) ⊆
      (after id mark (orderedKeys registry tables)).filter fun k =>
        decide (k ∈ pageKeys collation registry tables mark limit) && decide (id k < id key) := by
    intro k hk
    obtain ⟨hstored, hbehind⟩ := mem_rowsAfter.mp (List.mem_of_mem_take hk)
    have hshown : k ∈ pageKeys collation registry tables mark limit :=
      mem_pageKeys.mpr (.inr (hpersisted ▸ hk))
    have hlt : id k < id key := (List.pairwise_append.mp hrows).2.2 k hk key hdrop
    rw [List.mem_filter, decide_eq_true hshown, decide_eq_true hlt]
    exact ⟨mem_rest.mpr ⟨mem_scheduleKeys.mpr (.inr hstored), hbehind⟩, rfl⟩
  have hnodup : ((rowsAfter tables mark).take (limit + 1)).Nodup :=
    (List.pairwise_append.mp hrows).1.imp fun h => h.ne
  have hle := (List.subperm_of_subset hnodup hsubset).length_le
  have hlong := List.length_pos_of_mem hdrop
  rw [List.length_drop] at hlong
  rw [List.length_take] at hle
  omega

/-- A page of keys is a page of all keys in the order of their bytes. -/
theorem take_keySet (hagrees : collation.AgreesOn (scheduleKeySet registry tables))
    (hmark : ∀ k ∈ mark, k ∈ scheduleKeys registry tables) (limit : ℕ) :
    let keys := pageKeys collation registry tables mark limit
    let rest := after id mark (orderedKeys registry tables)
    keys.take limit = rest.take limit ∧ (limit < keys.length ↔ limit < rest.length) := by
  have hpersisted := @persistedKeys_eq _ collation registry tables mark (limit + 1) hagrees hmark
  intro keys rest
  have hkeys : keys = rest.filter fun k => decide (k ∈ keys) := by
    refine pageKeys_eq fun k hk => ?_
    rw [mem_pageKeys, hpersisted] at hk
    exact hk.elim And.right fun h => (mem_rowsAfter.mp (List.mem_of_mem_take h)).2
  rw [hkeys]
  refine filter_first (pairwise_orderedKeys.filter _) fun y hy hleft => ?_
  exact lt_length_before hpersisted hy (of_decide_eq_false hleft)

-- ════════════════════════════════════════════════════════════════════════
-- All pages
-- ════════════════════════════════════════════════════════════════════════

theorem valid_of_mem_scheduleKeys (h : key ∈ scheduleKeys registry tables) :
    validScheduleKey key = true := by
  rcases mem_scheduleKeys.mp h with h | h
  · obtain ⟨s, hs, rfl⟩ := List.mem_map.mp h
    exact registry.valid s hs
  · obtain ⟨row, hrow, rfl⟩ := List.mem_map.mp h
    exact tables.valid row hrow

/-- A cursor of a request stands for the key it was written for. -/
def MarksKey (codec : CursorCodec) (registry : ScheduleRegistry library) (tables : ScheduleTables)
    (cursor mark : Option String) : Prop :=
  requestKey codec cursor = .ok mark ∧ ∀ k ∈ mark, k ∈ scheduleKeys registry tables

/-- The cursor after the last key of a page stands for it. -/
theorem scheduleNextCursor_ok (codec : CursorCodec) {shown : List String}
    (hlast : shown.getLast? = some key) (hkey : key ∈ scheduleKeys registry tables) :
    ∃ cursor, scheduleNextCursor codec shown = .ok (some cursor) ∧
      MarksKey codec registry tables (some cursor) (some key) := by
  obtain ⟨cursor, hencode, hdecode⟩ := stringCursor_ok codec (valid_of_mem_scheduleKeys hkey)
  refine ⟨cursor, ?_, hdecode, fun k hk => Option.some_inj.mp hk ▸ hkey⟩
  rw [scheduleNextCursor, hlast]
  show (encodeStringCursor codec "schedules" key >>= _) = _
  rw [hencode]
  rfl

/-- A page shows all its keys, or the first ones with a cursor after the last of them. -/
theorem scheduleKeysPage_cases {cursor : Option String} {limit : Option ℕ}
    (hlimit : LimitAccepted maxAdminPageSize limit)
    (hmark : MarksKey codec registry tables cursor mark) :
    let keys := pageKeys collation registry tables mark (limitOrDefault limit)
    (keys.length ≤ limitOrDefault limit ∧
      scheduleKeysPage codec collation registry tables ⟨cursor, limit⟩ = .ok ⟨keys, none⟩) ∨
    (limitOrDefault limit < keys.length ∧ ∃ text k,
      (keys.take (limitOrDefault limit)).getLast? = some k ∧
      MarksKey codec registry tables (some text) (some k) ∧
      scheduleKeysPage codec collation registry tables ⟨cursor, limit⟩ =
        .ok ⟨keys.take (limitOrDefault limit), some text⟩) := by
  intro keys
  have hbounded := (PageRequest.boundedLimit_ok_iff ⟨cursor, limit⟩ _).mpr hlimit
  have hpage : scheduleKeysPage codec collation registry tables ⟨cursor, limit⟩ =
      truncateKeys codec (limitOrDefault limit) keys := by
    rw [scheduleKeysPage, hbounded]
    show (requestKey codec cursor >>= _) = _
    rw [hmark.1]
    rfl
  rw [hpage, truncateKeys]
  by_cases hlong : limitOrDefault limit < keys.length
  · have hne : keys.take (limitOrDefault limit) ≠ [] := by
      apply List.ne_nil_of_length_pos
      rw [List.length_take]
      have := hlimit.1
      omega
    obtain ⟨k, hk⟩ := Option.ne_none_iff_exists'.mp (mt List.getLast?_eq_none_iff.mp hne)
    have hkey := pageKeys_subset (List.mem_of_mem_take (List.mem_of_getLast? hk))
    obtain ⟨text, hnext, hmarks⟩ := scheduleNextCursor_ok codec hk hkey
    rw [if_pos hlong, hnext]
    exact .inr ⟨hlong, text, k, hk, hmarks, rfl⟩
  · rw [if_neg hlong, List.take_of_length_le (not_lt.mp hlong)]
    exact .inl ⟨not_lt.mp hlong, rfl⟩

/-- The keys behind the first ones. -/
theorem after_take (n : ℕ) : after id ((orderedKeys registry tables).take n).getLast?
    (orderedKeys registry tables) = (orderedKeys registry tables).drop n := by
  cases hlast : ((orderedKeys registry tables).take n).getLast? with
  | none =>
    rw [after_none]
    rcases List.take_eq_nil_iff.mp (List.getLast?_eq_none_iff.mp hlast) with rfl | hnil
    · rfl
    · rw [hnil, List.drop_nil]
  | some k =>
    have hdrop : after id (some (id k)) (orderedKeys registry tables) =
        (after id none (orderedKeys registry tables)).drop n := by
      refine after_getLast pairwise_orderedKeys ?_
      rwa [after_none]
    rwa [after_none] at hdrop

theorem pageStart_mono {limits : ℕ → Option ℕ} {i j : ℕ} (h : i ≤ j) :
    pageStart limits i ≤ pageStart limits j := by
  induction h with
  | refl => exact le_rfl
  | step _ ih => exact ih.trans (Nat.le_add_right _ _)

section Pages

variable {limits : ℕ → Option ℕ} {i : ℕ} {cursor : Option String}

/-- Where a page ends, the next one begins. -/
theorem lt_length_drop_pageStart (keys : List String) :
    limitOrDefault (limits i) < (keys.drop (pageStart limits i)).length ↔
      pageStart limits (i + 1) < keys.length := by
  have hsucc : pageStart limits (i + 1) = pageStart limits i + limitOrDefault (limits i) := rfl
  rw [List.length_drop]
  omega

theorem boundaryAgrees_iff (hlimit : 0 < limitOrDefault (limits i)) :
    BoundaryAgrees collation registry tables limits i ↔
      (pageKeys collation registry tables
          ((orderedKeys registry tables).take (pageStart limits i)).getLast?
          (limitOrDefault (limits i))).take (limitOrDefault (limits i)) =
        ((orderedKeys registry tables).drop (pageStart limits i)).take
          (limitOrDefault (limits i)) ∧
      (limitOrDefault (limits i) < (pageKeys collation registry tables
          ((orderedKeys registry tables).take (pageStart limits i)).getLast?
          (limitOrDefault (limits i))).length ↔
        limitOrDefault (limits i) <
          ((orderedKeys registry tables).drop (pageStart limits i)).length) := by
  rw [BoundaryAgrees, ← after_take]
  exact pageAgrees_iff hlimit

/-- The last page is right if and only if it shows all keys that are left. -/
theorem follows_last_iff (hlimit : 0 < limitOrDefault (limits i))
    (hshort : (pageKeys collation registry tables
      ((orderedKeys registry tables).take (pageStart limits i)).getLast?
      (limitOrDefault (limits i))).length ≤ limitOrDefault (limits i))
    (hpage : scheduleKeysPage codec collation registry tables ⟨cursor, limits i⟩ =
      .ok ⟨pageKeys collation registry tables
        ((orderedKeys registry tables).take (pageStart limits i)).getLast?
        (limitOrDefault (limits i)), none⟩) :
    Follows (fun cursor limit => scheduleKeysPage codec collation registry tables ⟨cursor, limit⟩)
        cursor (fun j => limits (i + j)) ((orderedKeys registry tables).drop (pageStart limits i)) ↔
      ∀ j, i ≤ j → j = i ∨ pageStart limits j < (orderedKeys registry tables).length →
        BoundaryAgrees collation registry tables limits j := by
  have hboundary := @boundaryAgrees_iff _ collation registry tables limits i hlimit
  constructor
  · intro hfollows j hij hj
    have hitems := (Follows.last hpage).unique hfollows
    have hend : ¬pageStart limits (i + 1) < (orderedKeys registry tables).length := by
      rw [← lt_length_drop_pageStart, ← hitems]
      exact not_lt.mpr hshort
    have hfirst : j = i := by
      rcases hj with rfl | hj
      · rfl
      · by_contra hne
        have hle : pageStart limits (i + 1) ≤ pageStart limits j := pageStart_mono (by omega)
        exact hend (hle.trans_lt hj)
    rw [hfirst, hboundary, hitems]
    exact ⟨rfl, Iff.rfl⟩
  · intro hagrees
    obtain ⟨htake, hmore⟩ := hboundary.mp (hagrees i le_rfl (.inl rfl))
    have hend := not_lt.mp fun h => absurd (hmore.mpr h) (not_lt.mpr hshort)
    rw [List.take_of_length_le hshort, List.take_of_length_le hend] at htake
    rw [← htake]
    exact .last hpage

/-- A page before others is right if and only if it shows the next keys, and the others are
right. -/
theorem follows_next_iff {text : String} (hlimit : 0 < limitOrDefault (limits i))
    (hlong : limitOrDefault (limits i) < (pageKeys collation registry tables
      ((orderedKeys registry tables).take (pageStart limits i)).getLast?
      (limitOrDefault (limits i))).length)
    (hpage : scheduleKeysPage codec collation registry tables ⟨cursor, limits i⟩ =
      .ok ⟨(pageKeys collation registry tables
        ((orderedKeys registry tables).take (pageStart limits i)).getLast?
        (limitOrDefault (limits i))).take (limitOrDefault (limits i)), some text⟩)
    (hnext : (pageKeys collation registry tables
          ((orderedKeys registry tables).take (pageStart limits i)).getLast?
          (limitOrDefault (limits i))).take (limitOrDefault (limits i)) =
        ((orderedKeys registry tables).drop (pageStart limits i)).take
          (limitOrDefault (limits i)) →
      pageStart limits (i + 1) < (orderedKeys registry tables).length →
      (Follows (fun cursor limit => scheduleKeysPage codec collation registry tables ⟨cursor, limit⟩)
          (some text) (fun j => limits (i + 1 + j))
          ((orderedKeys registry tables).drop (pageStart limits (i + 1))) ↔
        ∀ j, i + 1 ≤ j → j = i + 1 ∨ pageStart limits j < (orderedKeys registry tables).length →
          BoundaryAgrees collation registry tables limits j)) :
    Follows (fun cursor limit => scheduleKeysPage codec collation registry tables ⟨cursor, limit⟩)
        cursor (fun j => limits (i + j)) ((orderedKeys registry tables).drop (pageStart limits i)) ↔
      ∀ j, i ≤ j → j = i ∨ pageStart limits j < (orderedKeys registry tables).length →
        BoundaryAgrees collation registry tables limits j := by
  have hboundary := @boundaryAgrees_iff _ collation registry tables limits i hlimit
  have hmore := @lt_length_of_pageKeys _ collation registry tables
    ((orderedKeys registry tables).take (pageStart limits i)).getLast? _ hlimit
  rw [after_take, lt_length_drop_pageStart] at hmore
  have hdrop : (orderedKeys registry tables).drop (pageStart limits (i + 1)) =
      ((orderedKeys registry tables).drop (pageStart limits i)).drop (limitOrDefault (limits i)) :=
    List.drop_drop.symm
  have hshift : (fun j => limits (i + (j + 1))) = fun j => limits (i + 1 + j) :=
    funext fun j => congrArg limits (by omega)
  rw [hdrop, ← hshift] at hnext
  constructor
  · intro hfollows
    obtain ⟨tail, hsplit, htail⟩ := hfollows.rest hpage
    have hcount := List.length_take_of_le hlong.le
    have htake := (congrArg (List.take (limitOrDefault (limits i))) hsplit).trans
      (List.take_left' hcount)
    have hbehind := (congrArg (List.drop (limitOrDefault (limits i))) hsplit).trans
      (List.drop_left' hcount)
    have hlater := hmore htake.symm hlong
    rw [← hbehind] at htail
    intro j hij hj
    rcases Nat.eq_or_lt_of_le hij with rfl | hlt
    · exact hboundary.mpr ⟨htake.symm, fun _ => lt_length_drop_pageStart _ |>.mpr hlater,
        fun _ => hlong⟩
    · exact (hnext htake.symm hlater).mp htail j hlt (hj.imp_left fun h => by omega)
  · intro hagrees
    obtain ⟨htake, -⟩ := hboundary.mp (hagrees i le_rfl (.inl rfl))
    have hlater := hmore htake hlong
    rw [← List.take_append_drop (limitOrDefault (limits i))
      ((orderedKeys registry tables).drop (pageStart limits i)), ← htake]
    refine .next hpage ((hnext htake hlater).mpr fun j hij hj => hagrees j (by omega) (.inr ?_))
    rcases hj with rfl | hj
    · exact hlater
    · exact hj

/-- The pages from one on show the keys in the order of their bytes. -/
theorem follows_drop_iff (hlimits : ∀ i, LimitAccepted maxAdminPageSize (limits i)) (i : ℕ)
    {cursor : Option String} (hmark : MarksKey codec registry tables cursor
      ((orderedKeys registry tables).take (pageStart limits i)).getLast?) :
    Follows (fun cursor limit => scheduleKeysPage codec collation registry tables ⟨cursor, limit⟩)
        cursor (fun j => limits (i + j)) ((orderedKeys registry tables).drop (pageStart limits i)) ↔
      ∀ j, i ≤ j → j = i ∨ pageStart limits j < (orderedKeys registry tables).length →
        BoundaryAgrees collation registry tables limits j := by
  -- induction on the keys that are left
  induction hlength : ((orderedKeys registry tables).drop (pageStart limits i)).length using
    Nat.strong_induction_on generalizing i cursor with
  | _ left ih =>
    have hpos : 0 < limitOrDefault (limits i) := (hlimits i).1
    rcases scheduleKeysPage_cases (hlimits i) hmark with
      ⟨hshort, hpage⟩ | ⟨hlong, text, k, hlast, hmarks, hpage⟩
    · exact follows_last_iff hpos hshort hpage
    · refine follows_next_iff hpos hlong hpage fun htake hmore => ?_
      have hsucc : pageStart limits (i + 1) = pageStart limits i + limitOrDefault (limits i) := rfl
      have hseen : ((orderedKeys registry tables).take (pageStart limits (i + 1))).getLast? =
          some k := by
        rw [hsucc, List.take_add, List.getLast?_append, ← htake, hlast, Option.some_or]
      refine ih _ ?_ (i + 1) (hseen ▸ hmarks) rfl
      rw [List.length_drop] at hlength ⊢
      omega

end Pages

/-- The summaries are those of the keys of the page. -/
theorem listSchedules_eq {recentRunLimit : ℕ} (hpos : 0 < recentRunLimit)
    (hle : recentRunLimit ≤ maxRecentScheduleRuns) (page : PageRequest) :
    listSchedules codec collation registry tables page recentRunLimit =
      (scheduleKeysPage codec collation registry tables page).map fun p =>
        ⟨p.items.map (scheduleSummary registry tables recentRunLimit), p.nextCursor⟩ := by
  rw [listSchedules, rejectIf, if_neg (by omega)]
  cases scheduleKeysPage codec collation registry tables page <;> rfl

/-- Reading page after page, with any accepted limits, ends and shows every key exactly once. -/
def ListsEveryKey (codec : CursorCodec) (collation : Collation)
    (registry : ScheduleRegistry library) (tables : ScheduleTables) : Prop :=
  ∀ limits : ℕ → Option ℕ, (∀ i, LimitAccepted maxAdminPageSize (limits i)) →
    ∀ recentRunLimit, 0 < recentRunLimit → recentRunLimit ≤ maxRecentScheduleRuns →
      ∃ items, Follows (fun cursor limit =>
          listSchedules codec collation registry tables ⟨cursor, limit⟩ recentRunLimit)
        none limits items ∧ (items.map (·.key)).Perm (scheduleKeys registry tables)

theorem map_key_scheduleSummary {recentRunLimit : ℕ} (keys : List String) :
    (keys.map (scheduleSummary registry tables recentRunLimit)).map (·.key) = keys := by
  rw [List.map_map]
  exact List.map_id keys

/-- Reading page after page ends and shows the keys in the order of their bytes, each once. -/
def ListsInOrder (codec : CursorCodec) (collation : Collation)
    (registry : ScheduleRegistry library) (tables : ScheduleTables) (limits : ℕ → Option ℕ)
    (recentRunLimit : ℕ) : Prop :=
  ∃ items, Follows (fun cursor limit =>
      listSchedules codec collation registry tables ⟨cursor, limit⟩ recentRunLimit)
    none limits items ∧ items.map (·.key) = orderedKeys registry tables

/-- The keys of a page are those of its summaries. -/
theorem scheduleKeysPage_eq {recentRunLimit : ℕ} (hpos : 0 < recentRunLimit)
    (hle : recentRunLimit ≤ maxRecentScheduleRuns) (page : PageRequest) :
    scheduleKeysPage codec collation registry tables page =
      (listSchedules codec collation registry tables page recentRunLimit).map fun p =>
        ⟨p.items.map (·.key), p.nextCursor⟩ := by
  rw [listSchedules_eq hpos hle]
  cases scheduleKeysPage codec collation registry tables page with
  | error e => rfl
  | ok p =>
    show Except.ok p = Except.ok
      ⟨(p.items.map (scheduleSummary registry tables recentRunLimit)).map (·.key), p.nextCursor⟩
    rw [map_key_scheduleSummary]

/-- The keys are listed in order exactly if the database agrees wherever a page begins. -/
theorem listsInOrder_iff (codec : CursorCodec) {limits : ℕ → Option ℕ}
    (hlimits : ∀ i, LimitAccepted maxAdminPageSize (limits i)) {recentRunLimit : ℕ}
    (hpos : 0 < recentRunLimit) (hle : recentRunLimit ≤ maxRecentScheduleRuns) :
    ListsInOrder codec collation registry tables limits recentRunLimit ↔
      BoundariesAgree collation registry tables limits := by
  have hmark : MarksKey codec registry tables none
      ((orderedKeys registry tables).take (pageStart limits 0)).getLast? :=
    ⟨rfl, fun _ h => by cases h⟩
  have hfollows : Follows (fun cursor limit =>
        scheduleKeysPage codec collation registry tables ⟨cursor, limit⟩) none limits
      (orderedKeys registry tables) ↔ BoundariesAgree collation registry tables limits := by
    have hiff : Follows (fun cursor limit =>
          scheduleKeysPage codec collation registry tables ⟨cursor, limit⟩) none
        (fun j => limits (0 + j)) (orderedKeys registry tables) ↔ _ :=
      follows_drop_iff hlimits 0 hmark
    simp only [Nat.zero_add, Nat.zero_le, forall_const] at hiff
    exact hiff
  rw [← hfollows]
  constructor
  · rintro ⟨items, hitems, hkeys⟩
    rw [← hkeys]
    exact hitems.map fun cursor limit => scheduleKeysPage_eq hpos hle ⟨cursor, limit⟩
  · intro hkeys
    refine ⟨_, hkeys.map fun cursor limit => listSchedules_eq hpos hle ⟨cursor, limit⟩, ?_⟩
    exact map_key_scheduleSummary _

/-- An agreeing collation. -/
theorem boundariesAgree_of_agrees {limits : ℕ → Option ℕ}
    (hlimits : ∀ i, LimitAccepted maxAdminPageSize (limits i))
    (hagrees : collation.AgreesOn (scheduleKeySet registry tables)) :
    BoundariesAgree collation registry tables limits := by
  intro i _
  rw [BoundaryAgrees, ← after_take]
  refine (pageAgrees_iff (hlimits i).1).mpr (take_keySet hagrees (fun k hk => ?_) _)
  exact (perm_sort id _).mem_iff.mp (List.mem_of_mem_take (List.mem_of_getLast? hk))

theorem listsEveryKey_of_agrees (codec : CursorCodec)
    (hagrees : collation.AgreesOn (scheduleKeySet registry tables)) :
    ListsEveryKey codec collation registry tables := by
  intro limits hlimits recentRunLimit hpos hle
  have hboundaries := boundariesAgree_of_agrees hlimits hagrees
  obtain ⟨items, hfollows, hitems⟩ := (listsInOrder_iff codec hlimits hpos hle).mpr hboundaries
  exact ⟨items, hfollows, hitems ▸ perm_sort id _⟩

-- ════════════════════════════════════════════════════════════════════════
-- A collation that disagrees
-- ════════════════════════════════════════════════════════════════════════

/-- A state row of a schedule that runs every minute. -/
def bareRow (key : String) : ScheduleStateRow where
  scheduleKey := key
  definitionFingerprint := ⟨key, 1, "0 * * * * *", "UTC", .skip, .allow, 1⟩
  definitionVersion := 1
  nextLocalOccurrence := .new 0
  nextOccurrenceAt := 0
  lastMaterializedAt := none
  pausedAt := none
  pausedBy := none
  pauseReason := none
  createdAt := 0
  updatedAt := 0

theorem map_scheduleKey_bareRow (keys : List String) :
    (keys.map bareRow).map (·.scheduleKey) = keys := by
  rw [List.map_map]
  exact List.map_id keys

/-- State rows without runs. -/
def bareTables (keys : List String) (hnodup : keys.Nodup)
    (hvalid : ∀ key ∈ keys, validScheduleKey key = true) : ScheduleTables where
  store := { ScheduleStore.init with
    states := fun key => if key ∈ keys then some (bareRow key) else none }
  rows := keys.map bareRow
  mem_rows key row := by
    constructor
    · intro h
      obtain ⟨hmem, hrow⟩ := Option.ite_none_right_eq_some.mp h
      cases hrow
      exact ⟨List.mem_map_of_mem hmem, rfl⟩
    · rintro ⟨h, rfl⟩
      obtain ⟨key, hkey, rfl⟩ := List.mem_map.mp h
      exact if_pos hkey
  key := by
    rw [map_scheduleKey_bareRow]
    exact hnodup
  valid row h := by
    obtain ⟨key, hkey, rfl⟩ := List.mem_map.mp h
    exact hvalid key hkey

/-- A process without schedules. -/
def noSchedules (library : CalendarLibrary) : ScheduleRegistry library where
  schedules := []
  valid _ h := nomatch h
  key := List.nodup_nil

theorem keySet_pair {a b : String} (h : a < b) {keys : List String} (hperm : keys.Perm [a, b]) :
    keySet keys = [a, b] := by
  have hordered : Ordered id [a, b] := List.pairwise_pair.mpr h.le
  have hnodup : [a, b].Nodup := List.nodup_cons.mpr
    ⟨fun hmem => h.ne (List.mem_singleton.mp hmem), List.nodup_singleton b⟩
  have hdedup : keys.dedup = keys := (hperm.nodup_iff.mpr hnodup).dedup
  refine (eq_of_perm ?_ hordered (ordered_sort id _) ?_).symm
  · rw [List.map_id]
    exact hnodup
  · rw [hdedup]
    exact hperm.symm.trans (perm_sort id keys).symm

/-- The pages of two keys that the collation has in the other order: one of them is lost. -/
theorem follows_disagreeing (codec : CursorCodec) (library : CalendarLibrary) {a b : String}
    (hlt : a < b) (hge : collation.le b a = true) (hnodup : [a, b].Nodup)
    (hvalid : ∀ key ∈ [a, b], validScheduleKey key = true) :
    Follows (fun cursor limit => scheduleKeysPage codec collation (noSchedules library)
      (bareTables [a, b] hnodup hvalid) ⟨cursor, limit⟩) none (fun _ => some 1) [a] := by
  let tables := bareTables [a, b] hnodup hvalid
  have hrows : tables.rows.map (·.scheduleKey) = [a, b] := map_scheduleKey_bareRow [a, b]
  obtain ⟨cursor, hencode, hdecode⟩ := stringCursor_ok codec (hvalid a List.mem_cons_self)
  have hfirst : persistedKeys collation tables none 2 |>.Perm [a, b] := by
    have hall : [a, b].filter (fun key => Option.all (collation.gt key) none) = [a, b] :=
      List.filter_eq_self.mpr fun _ _ => rfl
    have hperm := List.perm_insertionSort (fun a b => collation.le a b = true) [a, b]
    rw [persistedKeys, hrows, hall]
    have hlength : _ ≤ 2 := hperm.length_eq.le
    rw [List.take_of_length_le hlength]
    exact hperm
  have hrest : persistedKeys collation tables (some a) 2 = [] := by
    have hself : collation.le a a = true := by
      have htotal := collation.total a a
      rwa [Bool.or_self] at htotal
    rw [persistedKeys, hrows, List.filter_eq_nil_iff.mpr]
    · rfl
    · intro k hk
      rw [Option.all_some, Collation.gt, Bool.not_eq_true', Bool.not_eq_false]
      rcases List.mem_pair.mp hk with rfl | rfl
      · exact hself
      · exact hge
  have hpage : scheduleKeysPage codec collation (noSchedules library) tables ⟨none, some 1⟩ =
      .ok ⟨[a], some cursor⟩ := by
    show truncateKeys codec 1 (keySet (persistedKeys collation tables none 2)) = _
    rw [keySet_pair hlt hfirst]
    show (encodeStringCursor codec "schedules" a >>= _) >>= _ = _
    rw [hencode]
    rfl
  have hlast : scheduleKeysPage codec collation (noSchedules library) tables ⟨cursor, some 1⟩ =
      .ok ⟨[], none⟩ := by
    show (requestKey codec (some cursor) >>= _) = _
    rw [hdecode]
    show truncateKeys codec 1 (keySet (persistedKeys collation tables (some a) 2)) = _
    rw [hrest]
    rfl
  have hfollows : Follows (fun cursor limit => scheduleKeysPage codec collation
      (noSchedules library) tables ⟨cursor, limit⟩) (some cursor) (fun _ => some 1) [] := .last hlast
  show Follows _ none (fun _ => some 1) ([a] ++ [])
  exact .next hpage hfollows

/-- A collation that lists every key orders any two keys as their bytes are ordered. -/
theorem le_of_listsEveryKey (codec : CursorCodec) (library : CalendarLibrary) {a b : String}
    (hlt : a < b) (hnodup : [a, b].Nodup) (hvalid : ∀ key ∈ [a, b], validScheduleKey key = true)
    (h : ListsEveryKey codec collation (noSchedules library) (bareTables [a, b] hnodup hvalid)) :
    collation.le b a = false := by
  apply Bool.eq_false_iff.mpr
  intro hge
  let tables := bareTables [a, b] hnodup hvalid
  obtain ⟨items, hitems, hperm⟩ := h (fun _ => some 1) (fun _ => by decide) 1 (by decide) (by decide)
  have hfollows := (follows_disagreeing codec library hlt hge hnodup hvalid).map
    fun cursor limit => listSchedules_eq Nat.one_pos (by decide) ⟨cursor, limit⟩
  rw [hitems.unique hfollows, map_key_scheduleSummary] at hperm
  have hmem : b ∈ scheduleKeys (noSchedules library) tables := by
    refine mem_scheduleKeys.mpr (.inr ?_)
    rw [show tables.rows.map (·.scheduleKey) = [a, b] from map_scheduleKey_bareRow [a, b]]
    exact List.mem_cons_of_mem _ List.mem_cons_self
  exact hlt.ne' (List.mem_singleton.mp (hperm.mem_iff.mpr hmem))

/-- A collation lists every key of every registry and of all state rows exactly once, whatever the
limits, if and only if it orders the keys as their bytes are ordered. -/
theorem listsEveryKey_iff (codec : CursorCodec) (library : CalendarLibrary)
    (collation : Collation) (keys : Set String) :
    (∀ (registry : ScheduleRegistry library) (tables : ScheduleTables),
        scheduleKeySet registry tables ⊆ keys → ListsEveryKey codec collation registry tables) ↔
      collation.AgreesOn {key ∈ keys | validScheduleKey key = true} := by
  constructor
  · intro hlists
    have hlt : ∀ a ∈ keys, ∀ b ∈ keys, validScheduleKey a = true → validScheduleKey b = true →
        a < b → collation.le b a = false := by
      intro a ha b hb hvalida hvalidb hab
      have hnodup : [a, b].Nodup := List.nodup_cons.mpr
        ⟨fun hmem => hab.ne (List.mem_singleton.mp hmem), List.nodup_singleton b⟩
      have hvalid : ∀ key ∈ [a, b], validScheduleKey key = true := by
        intro key hkey
        rcases List.mem_pair.mp hkey with rfl | rfl
        · exact hvalida
        · exact hvalidb
      refine le_of_listsEveryKey codec library hab hnodup hvalid (hlists _ _ ?_)
      intro key hkey
      have hmem := (mem_scheduleKeys.mp hkey).resolve_left fun h => nomatch h
      rw [show (bareTables [a, b] hnodup hvalid).rows.map (·.scheduleKey) = [a, b] from
        map_scheduleKey_bareRow [a, b]] at hmem
      rcases List.mem_pair.mp hmem with rfl | rfl
      · exact ha
      · exact hb
    rintro a ⟨ha, hvalida⟩ b ⟨hb, hvalidb⟩
    rcases lt_trichotomy a b with hab | rfl | hab
    · have hfalse := hlt a ha b hb hvalida hvalidb hab
      have htotal := collation.total a b
      rw [hfalse, Bool.or_false] at htotal
      exact ⟨fun _ => hab.le, fun _ => htotal⟩
    · have htotal := collation.total a a
      rw [Bool.or_self] at htotal
      exact ⟨fun _ => le_rfl, fun _ => htotal⟩
    · have hfalse := hlt b hb a ha hvalidb hvalida hab
      rw [hfalse]
      exact ⟨fun h => (nomatch h), fun h => absurd h (not_le.mpr hab)⟩
  · intro hagrees registry tables hkeys
    have hvalid : ∀ key ∈ scheduleKeySet registry tables,
        key ∈ {key ∈ keys | validScheduleKey key = true} := fun key hkey =>
      ⟨hkeys hkey, valid_of_mem_scheduleKeys hkey⟩
    exact listsEveryKey_of_agrees codec fun a ha b hb => hagrees a (hvalid a ha) b (hvalid b hb)

namespace Sample

/-- The weight of a character in a collation that sorts the underscore first. -/
def weight (c : Char) : ℕ := if c = '_' then 0 else c.toNat + 1

theorem weight_injective : Function.Injective weight := by
  intro c d h
  rw [weight, weight] at h
  by_cases hc : c = '_' <;> by_cases hd : d = '_'
  · rw [hc, hd]
  · rw [if_pos hc, if_neg hd] at h
    cases h
  · rw [if_neg hc, if_pos hd] at h
    cases h
  · rw [if_neg hc, if_neg hd] at h
    exact Char.toNat_inj.mp (Nat.succ_inj.mp h)

/-- A collation that sorts the underscore before the digits and letters. -/
def underscoreFirst : Collation where
  le a b := decide (a.toList.map weight ≤ b.toList.map weight)
  total a b := by
    rw [Bool.or_eq_true, decide_eq_true_eq, decide_eq_true_eq]
    exact le_total _ _
  trans a b c hab hbc := decide_eq_true ((of_decide_eq_true hab).trans (of_decide_eq_true hbc))
  antisymm a b hab hba := by
    have h := le_antisymm (of_decide_eq_true hab) (of_decide_eq_true hba)
    exact String.toList_inj.mp (List.map_injective_iff.mpr weight_injective h)

/-- State rows of two schedules, of which none is registered. -/
def underscoreTables : ScheduleTables := bareTables ["a1", "a_b"] (by decide) (by decide)

theorem orderedKeys_underscoreTables :
    orderedKeys (noSchedules calendars) underscoreTables = ["a1", "a_b"] := by decide

end Sample

end DurableWorkflows
