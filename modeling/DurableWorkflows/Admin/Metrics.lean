import DurableWorkflows.Persistence.Dialect
import DurableWorkflows.Runtime.ActivityWorker

/-!
# Topic metrics

The counts of the activities of each registered topic. An open dead letter is one whose
workflow is not over and whose replacement chain has no success; the roots of the chains
are looked up in chunks.
-/

namespace DurableWorkflows

open Transaction

/-- `HOUR_MILLIS`. -/
def hourMillis : ℤ := 3600000

/-- `HOURLY_BUCKET_COUNT`. -/
def hourlyBucketCount : ℕ := 24

/-- `HourlyThroughputBucket`. -/
structure HourlyThroughputBucket where
  startsAt : ℤ
  completedCount : ℕ
  deriving DecidableEq, Repr

/-- `TopicMetrics`. -/
structure TopicMetrics where
  topic : String
  maxConcurrency : ℕ
  configuredMaxConcurrency : ℕ
  configurationMismatch : Bool
  activeCount : ℕ
  availableCapacity : ℕ
  readyCount : ℕ
  retryScheduledCount : ℕ
  deadLetterCount : ℕ
  oldestReadyAgeMillis : Option ℕ
  oldestActiveAgeMillis : Option ℕ
  hourlyThroughput : List HourlyThroughputBucket
  capturedAt : ℤ
  deriving DecidableEq, Repr

/-- `age`. -/
def age (now : DbMillis) (timestamp : Option DbMillis) : Option ℕ :=
  timestamp.map fun timestamp => (DbMillis.saturatingPlusMillis now (-timestamp)).toNat

/-- `hour_bucket_start`. -/
def hourBucketStart (timestamp : DbMillis) : ℤ := timestamp / hourMillis * hourMillis

/-- The bounds of a bucket of `hourly_window` (`hour_bucket_bounds`). -/
def hourBucketBounds (now : DbMillis) (index : ℕ) : ℤ × ℤ :=
  let firstHour := hourBucketStart now - (hourlyBucketCount - 1) * hourMillis
  let startsAt := firstHour + index * hourMillis
  (startsAt, min (DbMillis.saturatingPlusMillis startsAt hourMillis)
    (DbMillis.saturatingPlusMillis now 1))

/-- The rows of a topic that the grouped queries count. -/
def ofTopic (topic : String) (rows : List ActivityRow) : List ActivityRow :=
  rows.filter fun r => r.topic == topic

/-- `load_resolved_activity_roots`. -/
def loadResolvedActivityRoots (dialect : Dialect) (candidateRoots : List ActivityId) :
    Tx (List ActivityId) :=
  foldEach (chunks resolvedRootInChunk candidateRoots) [] fun resolved chunk => do
    let roots ← resolvedRoots dialect chunk
    return resolved ++ roots

/-- The dead letters of the topics whose workflow is not over, in the order of the query. -/
def deadLetterCandidate (db : DB) (keys : List String) (row : ActivityRow) : Bool :=
  row.topic ∈ keys && row.status == .deadLettered &&
    (db.workflows.find row.workflowId).any fun w => !w.status.isTerminal

/-- The lookup of the candidates' roots, sorted and without duplicates; none if there is no
candidate. -/
def candidateResolvedRoots (dialect : Dialect) (candidates : List ActivityRow) :
    Tx (List ActivityId) :=
  if candidates.isEmpty then
    pure []
  else
    loadResolvedActivityRoots dialect
      ((candidates.map (·.effectiveRoot)).insertionSort (· ≤ ·)).dedup

/-- The open dead letters of the topics, which the metrics count. -/
def openDeadLetters (dialect : Dialect) (keys : List String) : Tx (List ActivityRow) := do
  let db ← read
  let candidates ← selectRows activityTable (deadLetterCandidate db keys)
  let resolved ← candidateResolvedRoots dialect candidates
  return candidates.filter fun r => r.effectiveRoot ∉ resolved

/-- A pending activity that its workflow waits for. -/
def awaitedPending (db : DB) (row : ActivityRow) : Bool :=
  row.status == .pending && (db.workflows.find row.workflowId).any (waitsForActivity row.id)

/-- When a pending activity became ready: a continuation has no time of its own. -/
def readySince (row : ActivityRow) : DbMillis :=
  if row.availableAt = continuationReadyAtMillis then row.createdAt else row.availableAt

/-- `load_topic_metrics`. -/
def loadTopicMetrics (dialect : Dialect) (definitions : List TopicDefinition) (now : DbMillis) :
    Tx (List TopicMetrics) := do
  let keys := definitions.map (·.key)
  let db ← read
  let active ← selectRows activityTable fun r =>
    r.topic ∈ keys && r.status.holdsSlot && r.leaseExpiresAt.any (now < ·)
  let deadLetters ← openDeadLetters dialect keys
  let ready ← selectRows activityTable fun r =>
    r.topic ∈ keys && awaitedPending db r && r.availableAt ≤ now
  let retries ← selectRows activityTable fun r =>
    r.topic ∈ keys && awaitedPending db r && now < r.availableAt && 0 < r.attemptCount
  let completed ← selectRows activityTable fun r => r.topic ∈ keys && r.completedAt.isSome
  return definitions.map fun definition =>
    let persisted := (db.topicLocks definition.key).map (·.maxConcurrency)
    let maxConcurrency := persisted.getD definition.maxConcurrency
    let activeCount := (ofTopic definition.key active).length
    { topic := definition.key
      maxConcurrency
      configuredMaxConcurrency := definition.maxConcurrency
      configurationMismatch := persisted != some definition.maxConcurrency
      activeCount
      availableCapacity := maxConcurrency - min activeCount U32.max
      readyCount := (ofTopic definition.key ready).length
      retryScheduledCount := (ofTopic definition.key retries).length
      deadLetterCount := (ofTopic definition.key deadLetters).length
      oldestReadyAgeMillis := age now ((ofTopic definition.key ready).map readySince).min?
      oldestActiveAgeMillis := age now ((ofTopic definition.key active).filterMap fun r =>
        (db.attempts r.id r.attemptCount).map (·.startedAt)).min?
      hourlyThroughput := (List.range hourlyBucketCount).map fun index =>
        let (startsAt, endsAt) := hourBucketBounds now index
        { startsAt
          completedCount := ((ofTopic definition.key completed).filter fun r =>
            r.completedAt.any fun t => startsAt ≤ t && t < endsAt).length }
      capturedAt := now }

end DurableWorkflows
