import DurableWorkflows.Runtime.ActivityWorker
import Mathlib.Data.List.Dedup
import Mathlib.Data.String.Basic

/-!
# Readiness

The definitions and topics that the stored work needs and a process has not registered.
-/

namespace DurableWorkflows

open Transaction

/-- Statuses in which a workflow may wait for a dead-lettered activity. -/
def WorkflowStatus.awaitsDeadLetter : WorkflowStatus → Bool
  | .blocked | .paused => true
  | .ready | .running | .waitingActivity | .waitingChild | .sleeping | .waitingApproval
  | .succeeded | .failed | .cancelled => false

/-- `WorkflowRegistry::contains`. -/
def WorkflowRegistry.contains (registry : WorkflowRegistry) (kind : String) (version : ℤ) : Bool :=
  (kind, version) ∈ registry.definitionKeys

/-- `ActivityRegistry::required_topics`. -/
def ActivityRegistry.requiredTopics (registry : ActivityRegistry) : List String :=
  registry.definitions.map (·.topic)

/-- The order of a definition's kind and version. -/
def definitionLe (d d' : String × ℤ) : Bool := d.1 < d'.1 || (d.1 == d'.1 && d.2 ≤ d'.2)

/-- `sort` and `dedup` of definitions. -/
def sortedDefinitions (definitions : List (String × ℤ)) : List (String × ℤ) :=
  (definitions.insertionSort fun d d' => definitionLe d d' = true).dedup

/-- `sort` and `dedup` of texts. -/
def sortedTexts (texts : List String) : List String :=
  (texts.insertionSort fun t t' => t ≤ t').dedup

/-- `ReadinessReport`. -/
structure ReadinessReport where
  missingWorkflows : List (String × ℤ)
  missingActivities : List (String × ℤ)
  missingTopics : List String

namespace ReadinessReport

/-- `ReadinessReport::compare`. -/
def compare (workflows : WorkflowRegistry) (activities : ActivityRegistry)
    (requiredWorkflows requiredActivities : List (String × ℤ)) : ReadinessReport where
  missingWorkflows :=
    sortedDefinitions (requiredWorkflows.filter fun d => !workflows.contains d.1 d.2)
  missingActivities :=
    sortedDefinitions (requiredActivities.filter fun d => !activities.contains d.1 d.2)
  missingTopics := []

/-- A dead-lettered activity its workflow still waits for. -/
def recoverableDeadLetter (db : DB) (row : ActivityRow) : Bool :=
  row.status == .deadLettered && (db.workflows.find row.workflowId).any fun w =>
    w.waitReferenceId == some row.id && w.status.awaitsDeadLetter && w.waitKind == some .activity

/-- `ReadinessReport::query`. -/
def query (workflows : WorkflowRegistry) (activities : ActivityRegistry)
    (topics : List TopicDefinition) : Tx ReadinessReport := do
  let db ← read
  let open_ ← selectRows workflowTable fun r => !r.status.isTerminal
  let pending ← selectRows activityTable fun r => !r.status.isTerminal
  let recoverable ← selectRows activityTable (recoverableDeadLetter db)
  let report := compare workflows activities (open_.map fun r => (r.kind, r.version))
    ((pending ++ recoverable).map fun r => (r.kind, r.version))
  let requiredTopics := activities.requiredTopics ++ (pending ++ recoverable).map (·.topic)
  return { report with
    missingTopics := sortedTexts (requiredTopics.filter fun topic =>
      !topics.any fun t => t.key == topic) }

end ReadinessReport

end DurableWorkflows
