import DurableWorkflows.Policy

/-!
# Commands, events and registries

What a workflow step returns (`StoredTransition` with its commands), what is
delivered to it (`WorkflowEvent`), and the two registries that prepare starts
and commands. A registered definition is user code: its payload codec is a
field of the definition, the constants are those of the derive macro.
-/

namespace DurableWorkflows

/-- `MAX_OPERATION_KEY_CHARS`. -/
def maxOperationKeyChars : ℕ := 191

/-- `CONTINUATION_READY_AT_MILLIS`. -/
def continuationReadyAtMillis : DbMillis := 0

/-- `ActivityCommand`. -/
structure ActivityCommand where
  kind : String
  version : ℤ
  topic : String
  payloadJson : String
  operationKey : Option String
  maxAttempts : ℕ
  timeoutMillis : ℕ
  leaseDurationMillis : ℕ
  retryPolicy : RetryPolicy
  continuationPriority : Bool
  deriving DecidableEq

/-- `ChildWorkflowCommand`. -/
structure ChildWorkflowCommand where
  kind : String
  version : ℤ
  inputJson : String
  stateJson : String
  deduplicationKey : Option String
  deriving DecidableEq

/-- `StoredTransition`: the transition a step returned. -/
inductive StoredTransition
  | runActivity (stateJson : String) (activity : ActivityCommand)
  | runChild (stateJson : String) (child : ChildWorkflowCommand)
  | sleepUntil (stateJson : String) (wakeAtMillis : DbMillis)
  | waitForApproval (stateJson approvalJson : String) (expiresAtMillis : Option DbMillis)
  | continue (stateJson : String)
  | complete (outputJson : String)
  deriving DecidableEq

/-- `ActivityResult`, `ChildResult` and `ApprovalResult`: a payload with the
definition that produced it. -/
structure StepResult where
  kind : String
  version : ℤ
  outputJson : String
  deriving DecidableEq

/-- `ActivityResult::new`. -/
def StepResult.newActivity (kind : String) (version : ℤ) (outputJson : String) :
    Except DurableError StepResult := do
  ensureSize "activity output" outputJson maxOutputBytes
  return ⟨kind, version, outputJson⟩

/-- `ChildResult::new`. -/
def StepResult.newChild (kind : String) (version : ℤ) (outputJson : String) :
    Except DurableError StepResult := do
  ensureSize "child workflow output" outputJson maxOutputBytes
  return ⟨kind, version, outputJson⟩

/-- `WorkflowEvent`: what a step receives. -/
inductive WorkflowEvent
  | started
  | activitySucceeded (commandSequence : ℕ) (result : StepResult)
  | childSucceeded (commandSequence : ℕ) (result : StepResult)
  | childFailed (commandSequence : ℕ) (kind : String) (version : ℤ) (category message : String)
  | timerFired (commandSequence : ℕ)
  | approvalResolved (commandSequence : ℕ) (result : StepResult)
  | approvalExpired (commandSequence : ℕ)
  | continued
  deriving DecidableEq

/-- The command a step result answers. -/
def WorkflowEvent.commandSequence? : WorkflowEvent → Option ℕ
  | .started | .continued => none
  | .activitySucceeded c _ | .childSucceeded c _ | .childFailed c _ _ _ _ | .timerFired c
  | .approvalResolved c _ | .approvalExpired c => some c

-- ════════════════════════════════════════════════════════════════════════
-- Registries
-- ════════════════════════════════════════════════════════════════════════

/-- `serde_json::Error`: a text that does not decode, or a value that does not
encode. -/
inductive CodecError
  | decode (message : String)
  | encode (message : String)

/-- `deserialize_request` and `serialize_bounded`: the error of a codec, for the
field it read. -/
def codec {α : Type} (field : String) : Except CodecError α → Except DurableError α
  | .ok value => .ok value
  | .error (.decode message) => .error (.invalidPayload field message)
  | .error (.encode message) => .error (.serialization message)

/-- `PreparedWorkflowStart`. -/
structure PreparedWorkflowStart where
  kind : String
  version : ℤ
  inputJson : String
  stateJson : String

/-- A registered workflow definition: `prepareStart` decodes an input and
returns it re-encoded with its initial state, `validateApproval` re-encodes a
decision. -/
structure WorkflowDefinition where
  kind : String
  version : ℤ
  prepareStart : String → Except CodecError (String × String)
  validateApproval : String → Except CodecError String

/-- `WorkflowRegistry` of one process. -/
structure WorkflowRegistry where
  definitions : List WorkflowDefinition

namespace WorkflowRegistry

/-- `workflow_definition`. -/
def workflowDefinition (registry : WorkflowRegistry) (kind : String) (version : ℤ) :
    Except DurableError WorkflowDefinition :=
  match registry.definitions.find? fun d => d.kind == kind && d.version == version with
  | some definition => .ok definition
  | none => .error (.missingDefinition kind version)

/-- Definitions with equal kinds and versions are one definition. -/
instance instLawfulBEqDefinitionKey : LawfulBEq (String × ℤ) := inferInstance

/-- `definition_keys`. -/
def definitionKeys (registry : WorkflowRegistry) : List (String × ℤ) :=
  registry.definitions.map fun d => (d.kind, d.version)

/-- `current_version`: the largest registered version of a kind. -/
def currentVersion (registry : WorkflowRegistry) (kind : String) : Option ℤ :=
  ((registry.definitions.filter fun d => d.kind == kind).map (·.version)).max?

/-- `prepare_start_exact`. -/
def prepareStartExact (registry : WorkflowRegistry) (kind : String) (version : ℤ)
    (inputJson : String) : Except DurableError PreparedWorkflowStart := do
  let definition ← registry.workflowDefinition kind version
  let (inputJson, stateJson) ← codec "workflow input" (definition.prepareStart inputJson)
  ensureSize "workflow input" inputJson maxInputStatePayloadBytes
  ensureSize "workflow state" stateJson maxInputStatePayloadBytes
  return ⟨kind, version, inputJson, stateJson⟩

/-- `prepare_start_current`. -/
def prepareStartCurrent (registry : WorkflowRegistry) (kind inputJson : String) :
    Except DurableError PreparedWorkflowStart :=
  match registry.currentVersion kind with
  | some version => registry.prepareStartExact kind version inputJson
  | none => .error (.missingCurrentDefinition kind)

/-- `validate_approval_exact`. -/
def validateApprovalExact (registry : WorkflowRegistry) (kind : String) (version : ℤ)
    (decisionJson : String) : Except DurableError String := do
  let definition ← registry.workflowDefinition kind version
  let decision ← codec "approval decision" (definition.validateApproval decisionJson)
  ensureSize "approval decision" decision maxEventMetadataBytes
  return decision

end WorkflowRegistry

/-- A registered activity definition; `encode` decodes a payload and
re-encodes it. -/
structure ActivityDefinition where
  kind : String
  version : ℤ
  topic : String
  maxAttempts : ℕ
  timeoutMillis : ℕ
  leaseDurationMillis : ℕ
  retryPolicy : RetryPolicy
  encode : String → Except CodecError String

/-- `ActivityCommand::new`. -/
def ActivityCommand.new (definition : ActivityDefinition) (payloadJson : String)
    (operationKey : Option String) : Except DurableError ActivityCommand := do
  ensureSize "activity payload" payloadJson maxInputStatePayloadBytes
  rejectIf (definition.leaseDurationMillis ≤ definition.timeoutMillis)
    (.invalidDefinition "activity lease duration must be greater than its timeout")
  rejectIf (definition.maxAttempts = 0)
    (.invalidDefinition "activity max attempts must be greater than zero")
  rejectIf (operationKey.any fun key => key.length == 0 || maxOperationKeyChars < key.length)
    (.invalidDefinition
      s!"activity operation key must contain 1 to {maxOperationKeyChars} characters")
  return {
    kind := definition.kind, version := definition.version, topic := definition.topic
    payloadJson, operationKey, maxAttempts := definition.maxAttempts
    timeoutMillis := definition.timeoutMillis
    leaseDurationMillis := definition.leaseDurationMillis
    retryPolicy := definition.retryPolicy, continuationPriority := false }

/-- `ActivityRegistry` of one process. -/
structure ActivityRegistry where
  definitions : List ActivityDefinition

namespace ActivityRegistry

/-- `activity_definition`. -/
def activityDefinition (registry : ActivityRegistry) (kind : String) (version : ℤ) :
    Except DurableError ActivityDefinition :=
  match registry.definitions.find? fun d => d.kind == kind && d.version == version with
  | some definition => .ok definition
  | none => .error (.missingDefinition kind version)

/-- `contains`. -/
def contains (registry : ActivityRegistry) (kind : String) (version : ℤ) : Bool :=
  registry.definitions.any fun d => d.kind == kind && d.version == version

/-- `current_version`: the largest registered version of a kind. -/
def currentVersion (registry : ActivityRegistry) (kind : String) : Option ℤ :=
  ((registry.definitions.filter fun d => d.kind == kind).map (·.version)).max?

/-- `prepare_command_exact`. -/
def prepareCommandExact (registry : ActivityRegistry) (kind : String) (version : ℤ)
    (payloadJson : String) (operationKey : Option String) :
    Except DurableError ActivityCommand := do
  let definition ← registry.activityDefinition kind version
  let payloadJson ← codec "activity payload" (definition.encode payloadJson)
  ActivityCommand.new definition payloadJson operationKey

/-- `prepare_command_current`. -/
def prepareCommandCurrent (registry : ActivityRegistry) (kind payloadJson : String)
    (operationKey : Option String) : Except DurableError ActivityCommand :=
  match registry.currentVersion kind with
  | some version => registry.prepareCommandExact kind version payloadJson operationKey
  | none => .error (.missingCurrentDefinition kind)

end ActivityRegistry

/-- What the engine takes from other packages: the JSON text of an event
(`serde_json`), of which only the size is read, the error of a text that is not
JSON, and the hash behind `deterministic_jitter_percentile` (`sha2`). -/
structure Externals where
  eventJson : WorkflowEvent → String
  jsonError : String → Option String
  seedHash : String → ℕ

/-- `deterministic_jitter_percentile`. -/
def Externals.jitterPercentile (externals : Externals) (seed : String) : ℕ :=
  externals.seedHash seed % 101

end DurableWorkflows
