import DurableWorkflows.Admin.Cursor
import DurableWorkflows.Admin.Types
import DurableWorkflows.Persistence.Workflows
import DurableWorkflows.Transition
import Mathlib.Data.Prod.Lex
import Mathlib.Data.String.Basic

/-!
# Admin queries

A page of the timeline is merged from five tables. Each is read after the cursor and up to the
limit, with one entry more; the cursor is compared with the rank of the table first, and the
merged entries are ordered by their time and by a text of the rank and the numbers of the row.
-/

namespace DurableWorkflows

/-- `required_json_summary` of a text's octet length. -/
def requiredJsonSummary (json : String) : JsonFieldSummary := ⟨true, json.utf8ByteSize⟩

/-- `optional_json_summary`. -/
def optionalJsonSummary : Option String → JsonFieldSummary
  | some json => requiredJsonSummary json
  | none => ⟨false, 0⟩

/-- `activity_summary`. -/
def activitySummary (row : ActivityRow) : ActivitySummary where
  id := row.id
  workflowId := row.workflowId
  kind := row.kind
  version := row.version
  topic := row.topic
  status := row.status.asStr
  replacementNumber := row.replacementNumber
  attemptCount := row.attemptCount
  maxAttempts := row.maxAttempts
  operationKey := row.operationKey
  rootActivityId := row.rootActivityId
  replacesActivityId := row.replacesActivityId
  payload := requiredJsonSummary row.payloadJson
  providerResult := optionalJsonSummary row.providerResultJson
  errorCategory := row.lastErrorCategory
  errorMessage := row.lastErrorMessage
  availableAt := if row.availableAt = continuationReadyAtMillis then row.createdAt
    else row.availableAt
  createdAt := row.createdAt
  updatedAt := row.updatedAt
  completedAt := row.completedAt

/-- `attempt_summary`. -/
def attemptSummary (row : ActivityAttemptRow) : ActivityAttemptSummary where
  activityId := row.activityId
  attemptNumber := row.attemptNumber
  workerId := row.workerId
  startedAt := row.startedAt
  heartbeatAt := row.heartbeatAt
  finishedAt := row.finishedAt
  outcome := row.outcome.map AttemptOutcome.asStr
  errorCategory := row.errorCategory
  errorMessage := row.errorMessage
  providerResult := optionalJsonSummary row.providerResultJson

/-- `progress_summary`. -/
def progressSummary (row : ProgressEventRow) : ProgressSummary where
  activityId := row.activityId
  attemptNumber := row.attemptNumber
  sequence := row.sequence
  code := row.code
  description := row.description
  completedUnits := row.completedUnits
  totalUnits := row.totalUnits
  severity := row.severity
  createdAt := row.createdAt

/-- `approval_summary`. -/
def approvalSummary (row : ApprovalRow) : ApprovalSummary where
  id := row.id
  workflowId := row.workflowId
  kind := row.kind
  version := row.version
  status := row.status.asStr
  decision := optionalJsonSummary row.decisionPayloadJson
  decidedBy := row.decidedBy
  operatorReason := row.operatorReason
  requestedAt := row.requestedAt
  expiresAt := row.expiresAt
  resolvedAt := row.resolvedAt

-- ════════════════════════════════════════════════════════════════════════
-- Keys and cursors
-- ════════════════════════════════════════════════════════════════════════

/-- `timeline_key`: the rank, and the numbers with 20 digits each. -/
def timelineKey (rank : ℕ) (components : List ℕ) : String :=
  String.ofList (Nat.toDigits 10 rank ++
    ':' :: [':'].intercalate (components.map (Decimal.padded 20)))

/-- `TimelineEnvelope`; the tie breaker is the `timeline_key` of the rank and the components. -/
structure TimelineEnvelope where
  occurredAt : DbMillis
  rank : ℕ
  components : List ℕ
  entry : TimelineEntry
  deriving DecidableEq, Repr

/-- `TimelineEnvelope::tie_breaker`. -/
def TimelineEnvelope.tieBreaker (envelope : TimelineEnvelope) : String :=
  timelineKey envelope.rank envelope.components

/-- `TimelineCursor`. -/
structure TimelineCursor where
  timestamp : DbMillis
  rank : ℕ
  id : ℕ
  attemptNumber : ℕ
  sequence : ℕ
  deriving DecidableEq, Repr

/-- `parse::<u8>` of the rank. -/
def parseRank (part : List Char) : Except DurableError ℕ :=
  match (Decimal.parseUnsigned part).filter (· < 256) with
  | some rank => .ok rank
  | none => .error (.invalidCursor "timeline cursor rank is invalid")

/-- `parse::<i64>` of a component. -/
def parseComponent (part : List Char) : Except DurableError ℤ :=
  match (Decimal.parseInt part).filter (fun n => decide (I64.InRange n)) with
  | some component => .ok component
  | none => .error (.invalidCursor "timeline cursor component is not numeric")

/-- The number of components of a rank. -/
def expectedComponents : ℕ → Except DurableError ℕ
  | 0 | 1 | 4 => .ok 1
  | 2 => .ok 2
  | 3 => .ok 3
  | _ => .error (.invalidCursor "timeline cursor rank is outside the supported range")

/-- An optional component that is an `i32`; `0` if there is none. -/
def optionalComponent (components : List ℤ) (index : ℕ) (message : String) :
    Except DurableError ℕ :=
  match components[index]? with
  | some value => if value ≤ I32.max then .ok value.toNat else .error (.invalidCursor message)
  | none => .ok 0

/-- The cursor of a rank and its components, which are checked. -/
def checkTimelineCursor (timestamp : DbMillis) (rank : ℕ) (components : List ℤ) :
    Except DurableError TimelineCursor := do
  let expected ← expectedComponents rank
  rejectIf (components.length ≠ expected ∨ components.any (· ≤ 0))
    (.invalidCursor "timeline cursor has invalid components")
  let attemptNumber ← optionalComponent components 1
    "timeline cursor attempt number is outside the supported range"
  let sequence ← optionalComponent components 2
    "timeline cursor sequence is outside the supported range"
  return ⟨timestamp, rank, (components.headD 0).toNat, attemptNumber, sequence⟩

/-- `decode_timeline_cursor`. -/
def decodeTimelineCursor (codec : CursorCodec) (scope cursor : String) :
    Except DurableError TimelineCursor := do
  let position ← decodeCursor codec scope cursor
  match position.tieBreaker.toList.splitOn ':' with
  | [] => .error (.invalidCursor "timeline cursor has no rank")
  | first :: parts =>
    let rank ← parseRank first
    let components ← parts.mapM parseComponent
    checkTimelineCursor position.timestamp rank components

/-- The filter of a table by a cursor: its rank decides what is left of the cursor's time. -/
def applyTimelineCursor {Row : Type} (sourceRank : ℕ) (time : Row → DbMillis)
    (beyond : TimelineCursor → Row → Bool) (cursor : TimelineCursor) (row : Row) : Bool :=
  if sourceRank < cursor.rank then
    cursor.timestamp < time row
  else if cursor.rank < sourceRank then
    cursor.timestamp ≤ time row
  else
    cursor.timestamp < time row || time row == cursor.timestamp && beyond cursor row

/-- `apply_numeric_timeline_cursor!`. -/
def applyNumericTimelineCursor {Row : Type} (time : Row → DbMillis) (id : Row → ℕ) (rank : ℕ) :
    TimelineCursor → Row → Bool :=
  applyTimelineCursor rank time fun cursor row => cursor.id < id row

/-- `apply_attempt_timeline_cursor!`. -/
def applyAttemptTimelineCursor : TimelineCursor → ActivityAttemptRow → Bool :=
  applyTimelineCursor 2 (·.startedAt) fun cursor row =>
    cursor.id < row.activityId ||
      row.activityId == cursor.id && cursor.attemptNumber < row.attemptNumber

/-- `apply_progress_timeline_cursor!`. -/
def applyProgressTimelineCursor : TimelineCursor → ProgressEventRow → Bool :=
  applyTimelineCursor 3 (·.createdAt) fun cursor row =>
    cursor.id < row.activityId ||
      row.activityId == cursor.id &&
        (cursor.attemptNumber < row.attemptNumber ||
          row.attemptNumber == cursor.attemptNumber && cursor.sequence < row.sequence)

-- ════════════════════════════════════════════════════════════════════════
-- The tables
-- ════════════════════════════════════════════════════════════════════════

/-- A positive `i64`. -/
def I64.IsId (n : ℕ) : Prop := 0 < n ∧ (n : ℤ) ≤ DbMillis.max

/-- A positive `i32`. -/
def I32.IsNumber (n : ℕ) : Prop := 0 < n ∧ n ≤ I32.max

instance (n : ℕ) : Decidable (I64.IsId n) := inferInstanceAs (Decidable (_ ∧ _))

instance (n : ℕ) : Decidable (I32.IsNumber n) := inferInstanceAs (Decidable (_ ∧ _))

/-- The tables that a timeline is read from, with their primary keys and the ranges of their
columns. An event carries the id it is stored under. -/
structure TimelineTables where
  workflows : List WorkflowId
  events : List (ℕ × WorkflowEventRow)
  activities : List ActivityRow
  attempts : List ActivityAttemptRow
  progress : List ProgressEventRow
  approvals : List ApprovalRow
  eventKey : (events.map Prod.fst).Nodup
  activityKey : (activities.map (·.id)).Nodup
  attemptKey : (attempts.map fun r => (r.activityId, r.attemptNumber)).Nodup
  progressKey : (progress.map fun r => (r.activityId, r.attemptNumber, r.sequence)).Nodup
  approvalKey : (approvals.map (·.id)).Nodup
  workflowRange : ∀ w ∈ workflows, I64.IsId w
  eventRange : ∀ r ∈ events, I64.IsId r.1 ∧ I64.InRange r.2.createdAt
  activityRange : ∀ r ∈ activities, I64.IsId r.id ∧ I64.InRange r.createdAt
  attemptRange : ∀ r ∈ attempts,
    I64.IsId r.activityId ∧ I32.IsNumber r.attemptNumber ∧ I64.InRange r.startedAt
  progressRange : ∀ r ∈ progress, I64.IsId r.activityId ∧ I32.IsNumber r.attemptNumber ∧
    I32.IsNumber r.sequence ∧ I64.InRange r.createdAt
  approvalRange : ∀ r ∈ approvals, I64.IsId r.id ∧ I64.InRange r.requestedAt

namespace TimelineTables

variable (tables : TimelineTables) (workflowId : WorkflowId)

/-- The join of a row with the activity it belongs to, of the workflow. -/
def ofActivity (activityId : ActivityId) : Bool :=
  tables.activities.any fun a => a.id == activityId && a.workflowId == workflowId

/-- The rows of the workflow. -/
def workflowEvents : List (ℕ × WorkflowEventRow) :=
  tables.events.filter (·.2.workflowId == workflowId)

def workflowActivities : List ActivityRow := tables.activities.filter (·.workflowId == workflowId)

def workflowAttempts : List ActivityAttemptRow :=
  tables.attempts.filter fun r => tables.ofActivity workflowId r.activityId

def workflowProgress : List ProgressEventRow :=
  tables.progress.filter fun r => tables.ofActivity workflowId r.activityId

def workflowApprovals : List ApprovalRow := tables.approvals.filter (·.workflowId == workflowId)

end TimelineTables

/-- The entry of an event. -/
def eventEnvelope (row : ℕ × WorkflowEventRow) : TimelineEnvelope where
  occurredAt := row.2.createdAt
  rank := 0
  components := [row.1]
  entry := .workflowEvent row.2.eventType row.2.actorType row.2.actorId row.2.reason row.2.createdAt

/-- The entry of an activity. -/
def activityEnvelope (row : ActivityRow) : TimelineEnvelope where
  occurredAt := row.createdAt
  rank := 1
  components := [row.id]
  entry := .activity (activitySummary row)

/-- The entry of an attempt. -/
def attemptEnvelope (row : ActivityAttemptRow) : TimelineEnvelope where
  occurredAt := row.startedAt
  rank := 2
  components := [row.activityId, row.attemptNumber]
  entry := .activityAttempt (attemptSummary row)

/-- The entry of a progress event. -/
def progressEnvelope (row : ProgressEventRow) : TimelineEnvelope where
  occurredAt := row.createdAt
  rank := 3
  components := [row.activityId, row.attemptNumber, row.sequence]
  entry := .progress (progressSummary row)

/-- The entry of an approval. -/
def approvalEnvelope (row : ApprovalRow) : TimelineEnvelope where
  occurredAt := row.requestedAt
  rank := 4
  components := [row.id]
  entry := .approval (approvalSummary row)

/-- One of the five queries: the rows of a table that pass the cursor, in the order of their
columns, up to a limit. -/
def sourcePage {Row Order : Type} [LE Order] [DecidableLE Order] (rows : List Row)
    (passes : TimelineCursor → Row → Bool) (order : Row → Order) (envelope : Row → TimelineEnvelope)
    (cursor : Option TimelineCursor) (limit : ℕ) : List TimelineEnvelope :=
  ((orderBy order (rows.filter fun row => cursor.all (passes · row))).take limit).map envelope

/-- The entries that `workflow_timeline` loads, table after table. -/
def loadTimeline (tables : TimelineTables) (workflowId : WorkflowId)
    (cursor : Option TimelineCursor) (perSourceLimit : ℕ) : List TimelineEnvelope :=
  sourcePage (tables.workflowEvents workflowId)
      (applyNumericTimelineCursor (·.2.createdAt) (·.1) 0)
      (fun r => toLex (r.2.createdAt, r.1)) eventEnvelope cursor perSourceLimit ++
    sourcePage (tables.workflowActivities workflowId)
      (applyNumericTimelineCursor (·.createdAt) (·.id) 1)
      (fun r => toLex (r.createdAt, r.id)) activityEnvelope cursor perSourceLimit ++
    sourcePage (tables.workflowAttempts workflowId) applyAttemptTimelineCursor
      (fun r => toLex (r.startedAt, toLex (r.activityId, r.attemptNumber)))
      attemptEnvelope cursor perSourceLimit ++
    sourcePage (tables.workflowProgress workflowId) applyProgressTimelineCursor
      (fun r => toLex (r.createdAt, toLex (r.activityId, toLex (r.attemptNumber, r.sequence))))
      progressEnvelope cursor perSourceLimit ++
    sourcePage (tables.workflowApprovals workflowId)
      (applyNumericTimelineCursor (·.requestedAt) (·.id) 4)
      (fun r => toLex (r.requestedAt, r.id)) approvalEnvelope cursor perSourceLimit

/-- The scope of the cursors of a workflow's timeline. -/
def timelineScope (workflowId : WorkflowId) : String :=
  "workflow_timeline:" ++ toString workflowId

/-- The cursor of a request, decoded. -/
def requestCursor (codec : CursorCodec) (workflowId : WorkflowId) :
    Option String → Except DurableError (Option TimelineCursor)
  | some cursor => do
    let cursor ← decodeTimelineCursor codec (timelineScope workflowId) cursor
    return some cursor
  | none => return none

/-- The cursor of the next page, after the last entry that is shown. -/
def timelineNextCursor (codec : CursorCodec) (workflowId : WorkflowId)
    (shown : List TimelineEnvelope) : Except DurableError (Option String) :=
  match shown.getLast? with
  | some entry => do
    let cursor ← encodeCursor codec (timelineScope workflowId)
      ⟨entry.occurredAt, entry.tieBreaker⟩
    return some cursor
  | none => return none

/-- The entries of a page: up to the limit, with a cursor if there are more. -/
def truncateTimeline (codec : CursorCodec) (workflowId : WorkflowId) (limit : ℕ)
    (timeline : List TimelineEnvelope) : Except DurableError (AdminPage TimelineEnvelope) := do
  let shown := timeline.take limit
  let nextCursor ← if limit < timeline.length then
      timelineNextCursor codec workflowId shown
    else
      pure none
  return ⟨shown, nextCursor⟩

/-- `workflow_timeline` up to its last line, which keeps the entries of the envelopes. -/
def timelinePage (codec : CursorCodec) (tables : TimelineTables) (workflowId : WorkflowId)
    (page : PageRequest) : Except DurableError (AdminPage TimelineEnvelope) := do
  let limit ← page.boundedLimit maxTimelinePageSize
  let cursor ← requestCursor codec workflowId page.cursor
  rejectIf (workflowId ∉ tables.workflows) (.notFound "workflow" workflowId)
  truncateTimeline codec workflowId limit
    (orderBy (fun e : TimelineEnvelope => toLex (e.occurredAt, e.tieBreaker))
      (loadTimeline tables workflowId cursor (limit + 1)))

/-- `workflow_timeline`. -/
def workflowTimeline (codec : CursorCodec) (tables : TimelineTables) (workflowId : WorkflowId)
    (page : PageRequest) : Except DurableError (AdminPage TimelineEntry) := do
  let page ← timelinePage codec tables workflowId page
  return ⟨page.items.map (·.entry), page.nextCursor⟩

end DurableWorkflows
