import DurableWorkflows.Persistence.Dialect
import DurableWorkflows.Readiness
import DurableWorkflows.Runtime.Restart

/-!
# Health scans

The scan of the stored state for what an operator has to look at. A dead-lettered activity
keeps its status for ever; the scan leaves it out once an activity of its replacement chain
succeeded.
-/

namespace DurableWorkflows

open Transaction

/-- `MAX_HEALTH_ALERTS_PER_KIND`. -/
def maxHealthAlertsPerKind : ℕ := 100

/-- `HealthScannerConfig`; the duration in milliseconds. -/
structure HealthScannerConfig where
  staleAfter : ℕ
  maxAlertsPerKind : ℕ

/-- `HealthScannerConfig::validate`. -/
def HealthScannerConfig.validate (config : HealthScannerConfig) : Except DurableError Unit :=
  rejectIf (config.staleAfter = 0 ∨ config.maxAlertsPerKind = 0 ∨
      maxHealthAlertsPerKind < config.maxAlertsPerKind)
    (.invalidDefinition
      s!"health scanner bounds require a non-zero stale duration and 1 to {maxHealthAlertsPerKind} alerts per kind")

/-- `HealthAlert`. -/
inductive HealthAlert
  | missingWorkflowDefinition (kind : String) (version : ℤ)
  | missingActivityDefinition (kind : String) (version : ℤ)
  | missingTopic (topic : String)
  | activationExhausted (workflowId : WorkflowId) (kind : String) (version : ℤ)
  | activityDeadLettered (activityId : ActivityId) (workflowId : WorkflowId) (kind : String)
      (version : ℤ) (topic : String)
  | staleWorkflow (workflowId : WorkflowId) (kind : String) (version : ℤ)
  | staleActivity (activityId : ActivityId) (workflowId : WorkflowId) (kind : String)
      (version : ℤ) (topic : String)
  | transientActivationErrors (errors maxErrors : ℕ) (window : Duration)
  deriving DecidableEq

/-- `HealthScanReport`. -/
structure HealthScanReport where
  capturedAt : DbMillis
  alerts : List HealthAlert

/-- `readiness_alerts`. -/
def readinessAlerts (readiness : ReadinessReport) (limit : ℕ) : List HealthAlert :=
  (readiness.missingWorkflows.take limit).map
      (fun d => .missingWorkflowDefinition d.1 d.2) ++
    (readiness.missingActivities.take limit).map
      (fun d => .missingActivityDefinition d.1 d.2) ++
    (readiness.missingTopics.take limit).map .missingTopic

/-- `DbMillis::saturating_minus_millis`. -/
def DbMillis.saturatingMinusMillis (t : DbMillis) (millis : ℤ) : DbMillis :=
  Max.max min (Min.min max (t - millis))

/-- The lookup of a scan: none for an empty list. -/
def scannedRoots (dialect : Dialect) (candidateRoots : List ActivityId) : Tx (List ActivityId) :=
  if candidateRoots.isEmpty then pure [] else resolvedRoots dialect candidateRoots

/-- The dead-lettered activities that a scan takes for unresolved, in the order of their ids. -/
def unresolvedDeadLetters (dialect : Dialect) : Tx (List ActivityRow) := do
  let deadLetters ← selectRows activityTable fun r => r.status == .deadLettered
  let candidateRoots := deadLetters.map (·.effectiveRoot)
  let resolvedRoots ← scannedRoots dialect candidateRoots
  return deadLetters.filter fun r => r.effectiveRoot ∉ resolvedRoots

/-- `HealthScanner::scan_once`. -/
def scanOnce (dialect : Dialect) (workflows : WorkflowRegistry) (activities : ActivityRegistry)
    (topics : List TopicDefinition) (config : HealthScannerConfig) (capturedAt : DbMillis) :
    Tx HealthScanReport := do
  let readiness ← ReadinessReport.query workflows activities topics
  let limit := config.maxAlertsPerKind
  ensure ((config.staleAfter : ℤ) ≤ DbMillis.max) (.invalidDefinition
    "health scanner stale duration exceeds the database range")
  let staleBefore := capturedAt.saturatingMinusMillis config.staleAfter
  let exhausted ← selectRows workflowTable fun r =>
    r.status == .failed && r.errorCategory == some "activation"
  let deadLetters ← unresolvedDeadLetters dialect
  let staleWorkflows ← selectRows workflowTable fun r =>
    r.status == .running && r.leaseExpiresAt.all (· ≤ staleBefore)
  let staleActivities ← selectRows activityTable fun r =>
    r.status.holdsLease && r.leaseExpiresAt.all (· ≤ staleBefore)
  return {
    capturedAt
    alerts := readinessAlerts readiness limit ++
      (exhausted.take limit).map (fun r => .activationExhausted r.id r.kind r.version) ++
      (deadLetters.take limit).map
        (fun r => .activityDeadLettered r.id r.workflowId r.kind r.version r.topic) ++
      (staleWorkflows.take limit).map (fun r => .staleWorkflow r.id r.kind r.version) ++
      (staleActivities.take limit).map
        (fun r => .staleActivity r.id r.workflowId r.kind r.version r.topic) }

end DurableWorkflows
