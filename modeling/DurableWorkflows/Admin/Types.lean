import DurableWorkflows.Base.Keyset
import DurableWorkflows.Persistence.Models

/-!
# Types of the admin interface

A request names the cursor to go on from and a limit, which is bounded by the kind of list; the
summaries are what the entries of a timeline show.
-/

namespace DurableWorkflows

/-- `MAX_ADMIN_PAGE_SIZE`. -/
def maxAdminPageSize : ℕ := 100

/-- `MAX_TIMELINE_PAGE_SIZE`. -/
def maxTimelinePageSize : ℕ := 200

/-- `DEFAULT_ADMIN_PAGE_SIZE`. -/
def defaultAdminPageSize : ℕ := 50

/-- `PageRequest`. -/
structure PageRequest where
  cursor : Option String
  limit : Option ℕ
  deriving DecidableEq, Repr

/-- `AdminPage`. -/
abbrev AdminPage (α : Type) := Keyset.Page α String

/-- The limit that a request without one has. -/
def limitOrDefault (limit : Option ℕ) : ℕ := limit.getD defaultAdminPageSize

/-- `PageRequest::bounded_limit`. -/
def PageRequest.boundedLimit (page : PageRequest) (maximum : ℕ) : Except DurableError ℕ := do
  rejectIf (limitOrDefault page.limit = 0 ∨ maximum < limitOrDefault page.limit)
    (.invalidDefinition s!"page limit must contain 1 to {maximum} entries")
  return limitOrDefault page.limit

/-- A limit that the lists with a maximum accept. -/
def LimitAccepted (maximum : ℕ) (limit : Option ℕ) : Prop :=
  1 ≤ limitOrDefault limit ∧ limitOrDefault limit ≤ maximum

instance (maximum : ℕ) (limit : Option ℕ) : Decidable (LimitAccepted maximum limit) :=
  inferInstanceAs (Decidable (_ ∧ _))

/-- A limit is accepted exactly if it is within its bounds. -/
theorem PageRequest.boundedLimit_ok_iff (page : PageRequest) (maximum : ℕ) :
    page.boundedLimit maximum = .ok (limitOrDefault page.limit) ↔
      LimitAccepted maximum page.limit := by
  rw [boundedLimit, rejectIf, LimitAccepted]
  by_cases h : limitOrDefault page.limit = 0 ∨ maximum < limitOrDefault page.limit
  · rw [if_pos h]
    refine ⟨fun hok => (nomatch hok), fun haccepted => ?_⟩
    omega
  · rw [if_neg h]
    exact ⟨fun _ => ⟨by omega, by omega⟩, fun _ => rfl⟩

-- ════════════════════════════════════════════════════════════════════════
-- Entries of a timeline
-- ════════════════════════════════════════════════════════════════════════

/-- `JsonFieldSummary` without the value, which a timeline does not show. -/
structure JsonFieldSummary where
  present : Bool
  bytes : ℕ
  deriving DecidableEq, Repr

/-- `ActivitySummary`. -/
structure ActivitySummary where
  id : ActivityId
  workflowId : WorkflowId
  kind : String
  version : ℤ
  topic : String
  status : String
  replacementNumber : ℕ
  attemptCount : ℕ
  maxAttempts : ℕ
  operationKey : Option String
  rootActivityId : Option ActivityId
  replacesActivityId : Option ActivityId
  payload : JsonFieldSummary
  providerResult : JsonFieldSummary
  errorCategory : Option String
  errorMessage : Option String
  availableAt : DbMillis
  createdAt : DbMillis
  updatedAt : DbMillis
  completedAt : Option DbMillis
  deriving DecidableEq, Repr

/-- `ActivityAttemptSummary`. -/
structure ActivityAttemptSummary where
  activityId : ActivityId
  attemptNumber : ℕ
  workerId : String
  startedAt : DbMillis
  heartbeatAt : DbMillis
  finishedAt : Option DbMillis
  outcome : Option String
  errorCategory : Option String
  errorMessage : Option String
  providerResult : JsonFieldSummary
  deriving DecidableEq, Repr

/-- `ProgressSummary`. -/
structure ProgressSummary where
  activityId : ActivityId
  attemptNumber : ℕ
  sequence : ℕ
  code : String
  description : String
  completedUnits : Option ℤ
  totalUnits : Option ℤ
  severity : String
  createdAt : DbMillis
  deriving DecidableEq, Repr

/-- `ApprovalSummary`. -/
structure ApprovalSummary where
  id : ApprovalId
  workflowId : WorkflowId
  kind : String
  version : ℤ
  status : String
  decision : JsonFieldSummary
  decidedBy : Option ℤ
  operatorReason : Option String
  requestedAt : DbMillis
  expiresAt : Option DbMillis
  resolvedAt : Option DbMillis
  deriving DecidableEq, Repr

/-- `TimelineEntry`; the text of an event's type is its value here. -/
inductive TimelineEntry
  | workflowEvent (eventType : EventType) (actorType : Option ActorType) (actorId : Option String)
      (reason : Option String) (occurredAt : DbMillis)
  | activity (summary : ActivitySummary)
  | activityAttempt (summary : ActivityAttemptSummary)
  | progress (summary : ProgressSummary)
  | approval (summary : ApprovalSummary)
  deriving DecidableEq, Repr

end DurableWorkflows
