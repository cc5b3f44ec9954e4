import DurableWorkflows.Base.Respects
import DurableWorkflows.Engine.Activations
import DurableWorkflows.Flow
import DurableWorkflows.Persistence.Columns
import DurableWorkflows.Runtime.Execution

/-!
# The texts of handler errors

A step that fails is recorded with its error as the message, and an attempt whose handler
fails with the category and the message of its error. All of them are truncated in bytes
before they are stored in columns of as many characters, so their length always fits. Nothing
removes a U+0000: on Postgres an error that keeps one cannot be recorded.

## Main definitions

- `recordStepError`, `finishHandlerError`: the two recordings
- `ActivityClaim.Cancelling`: an attempt whose finish writes nothing of its handler

## Main results

- `commits_recordActivationFailure`, `commits_finishHandlerError`
- `wp_finishOnConnection_textsFit`: the texts that a final finish leaves
- `commits_iff_of_handler`
-/

namespace DurableWorkflows

open Transaction

variable {externals : Externals} {dialect : Dialect} {db db' : DB} {now : DbMillis}

/-- `WorkflowError` as a text. -/
def WorkflowError.display (error : WorkflowError) : String :=
  s!"{error.category}: {error.message}"

/-- `WorkflowDispatchError` as a text. -/
def WorkflowDispatchError.display : WorkflowDispatchError → String
  | .workflow error => s!"workflow handler failed: {error.display}"
  | .durable error => s!"workflow dispatch serialization failed: {error.message}"

/-- What the coordinator does with the error of a step. -/
def recordStepError (externals : Externals) (config : CoordinatorConfig) (claim : ClaimedRow)
    (error : WorkflowDispatchError) (now : DbMillis) : Tx Unit :=
  recordActivationFailure externals config claim error.display now

/-- What the worker does with the error of a handler. -/
def finishHandlerError (externals : Externals) (claim : ActivityClaim) (error : ActivityError)
    (now : DbMillis) : Tx Unit :=
  finishOnConnection externals claim (dispatchOutcome (.error (.handler error))) now

namespace ActivityError

def category : ActivityError → String
  | retryable category _ | permanent category _ => category

def message : ActivityError → String
  | retryable _ message | permanent _ message => message

/-- The same kind of error with other texts. -/
def restate (category message : String) : ActivityError → ActivityError
  | retryable .. => retryable category message
  | permanent .. => permanent category message

end ActivityError

/-- The attempt was revoked: its finish records the revoke, not what the handler said. -/
def ActivityClaim.Cancelling (claim : ActivityClaim) (db : DB) : Prop :=
  ∃ row, db.activities.find claim.row.id = some row ∧ row.status = .cancelling

/-- Two recordings that differ in their texts only, of which the second commits if its texts
fit whenever those of the first do. -/
theorem commits_of_restates {x y : Tx Unit}
    (h : wp₂ x y (fun _ s _ t => s.Restates dialect t) db db) (hx : dialect.Commits x db) :
    dialect.Commits y db := by
  obtain ⟨a, db', hok, hfits⟩ := hx
  obtain ⟨b, db'', hok', hrestates⟩ := wp₂_ok h hok
  exact ⟨b, db'', hok', hrestates.textsFit hfits⟩

-- ════════════════════════════════════════════════════════════════════════
-- Activation failures
-- ════════════════════════════════════════════════════════════════════════

section Activations

variable {config : CoordinatorConfig} {claim : ClaimedRow} {message message' : String}

theorem restates_recordActivationFailure
    (hm : dialect.fits errorMessageWidth (some (truncateUtf8 message maxErrorReasonBytes)) →
      dialect.fits errorMessageWidth (some (truncateUtf8 message' maxErrorReasonBytes))) :
    wp₂ (recordActivationFailure externals config claim message now)
      (recordActivationFailure externals config claim message' now)
      (fun _ s _ t => s.Restates dialect t) db db := by
  unfold recordActivationFailure
  refine wp₂_bind_self fun row db₁ _ => wp₂_bind_self fun current db₂ _ => ?_
  dsimp only
  refine wp₂_bind_self fun delay db₃ _ => wp₂_bind_self fun delayMillis db₄ _ => wp₂_bind ?_
  refine wp₂_imp (restates_updateWorkflow (.refl dialect db₄) (fun _ => rfl)
    fun r r' hrr' => ⟨?_, fun hfits => ⟨hfits.1, hm hfits.2⟩⟩) fun _ s _ t hst => ?_
  · obtain ⟨category, message, rfl⟩ := WorkflowRow.exists_of_bare hrr'.bare
    rfl
  · refine wp₂_bind (wp₂_imp (restates_appendHistoryEvent hst id) fun _ s _ t hst => ?_)
    exact wp₂_onlyIf (fun _ => restates_wakeWaitingParents hst) fun _ => hst

/-- The error texts of a workflow. -/
def DB.errorOf (w : WorkflowId) (db : DB) : Option (Option String × Option String) :=
  (db.workflows.find w).map fun r => (r.errorCategory, r.errorMessage)

theorem errorOf_modify {w i : WorkflowId} {f : WorkflowRow → WorkflowRow} {hf} :
    (workflowTable.set (db.workflows.modify i f hf) db).errorOf w = if w = i then
      (db.workflows.find w).map fun r => ((f r).errorCategory, (f r).errorMessage)
    else db.errorOf w := by
  show ((db.workflows.modify i f hf).find w).map _ = _
  rw [Table.find_modify]
  split
  · rw [Option.map_map]
    rfl
  · rfl

theorem keeps_errorOf_fencedUpdate {w i : WorkflowId} {p : WorkflowRow → Bool}
    {f : WorkflowRow → WorkflowRow} {hf}
    (h : ∀ r, (f r).errorCategory = r.errorCategory ∧ (f r).errorMessage = r.errorMessage) :
    Keeps (DB.errorOf w) (fencedUpdate workflowTable i p f hf) := by
  refine .bind (fun db => ?_) fun _ => .ensure _ _
  rw [wp_updateRow]
  refine ⟨fun r _ _ => ?_, fun _ => rfl⟩
  rw [workflowTable_get, errorOf_modify]
  split
  · exact congrArg (Option.map · _) (funext fun r => Prod.ext (h r).1 (h r).2)
  · rfl

/-- The parents of a failed child keep their own errors, and so does the child. -/
theorem keeps_errorOf_wakeWaitingParents {w : WorkflowId} {child : WorkflowRow}
    {outcome : ChildOutcome} :
    Keeps (DB.errorOf w) (wakeWaitingParentsOnChildTerminal child outcome now) :=
  .bind keeps_selectRows fun _ => .forEach fun _ =>
    keeps_wakeLoadedParentOnChildTerminal (fun _ _ _ =>
      .bind (keeps_nextEventSequence _) fun _ => keeps_appendEvent (fun _ _ => rfl) _) fun _ _ _ =>
        keeps_errorOf_fencedUpdate

/-- The message that a recording leaves in its row. -/
theorem wp_recordActivationFailure_errorOf :
    wp (recordActivationFailure externals config claim message now)
      (fun _ db' => db'.errorOf claim.row.id =
        some (some (truncateUtf8 "activation" 64), some (truncateUtf8 message maxErrorReasonBytes)))
      (fun _ => True) db := by
  simp only [recordActivationFailure, wp_bind, wp_findRow, wp_orAbort, wp_ofExcept]
  refine ⟨fun current hcurrent => ⟨fun delay _ => ⟨fun delayMillis _ => ?_, fun _ _ => trivial⟩,
    fun _ _ => trivial⟩, fun _ => trivial⟩
  have hrow : db.workflows.find claim.row.id = some current :=
    (Option.filter_eq_some_iff.mp hcurrent).1
  have hid : current.id = claim.row.id := Table.key_of_find hrow
  refine wp_fencedUpdate (fun _ => trivial) fun r hr _ => ?_
  rw [hid] at hr ⊢
  rw [← wp_bind]
  refine wp_imp (Keeps.bind (f := DB.errorOf claim.row.id) (.bind (keeps_nextEventSequence _)
    fun _ => keeps_appendEvent (fun _ _ => rfl) _)
    (fun _ => .onlyIf keeps_errorOf_wakeWaitingParents) _) fun _ db' hdb' => hdb'.trans ?_
  rw [workflowTable_get] at hr
  refine errorOf_modify.trans ?_
  rw [if_pos rfl, hr]
  rfl

/-- A failure is recorded whatever its message is, but for a U+0000 that Postgres rejects. -/
theorem commits_recordActivationFailure :
    dialect.Commits (recordActivationFailure externals config claim message now) db ↔
      dialect.Commits (recordActivationFailure externals config claim "" now) db ∧
        (dialect = .mysql ∨ ¬NulBefore maxErrorReasonBytes message) := by
  have hempty : dialect.fits errorMessageWidth (some (truncateUtf8 "" maxErrorReasonBytes)) :=
    fits_truncateUtf8.mpr (.inr not_nulBefore_empty)
  constructor
  · intro h
    refine ⟨commits_of_restates (restates_recordActivationFailure fun _ => hempty) h, ?_⟩
    obtain ⟨a, db', hok, hfits⟩ := h
    have herror := wp_ok wp_recordActivationFailure_errorOf hok
    obtain ⟨r, hr, hpair⟩ := Option.map_eq_some_iff.mp herror
    have hmessage : r.errorMessage = some (truncateUtf8 message maxErrorReasonBytes) :=
      congrArg Prod.snd hpair
    exact fits_truncateUtf8.mp (hmessage ▸ (hfits.workflows _ r hr).2)
  · rintro ⟨h, hcondition⟩
    exact commits_of_restates
      (restates_recordActivationFailure fun _ => fits_truncateUtf8.mpr hcondition) h

end Activations

-- ════════════════════════════════════════════════════════════════════════
-- Finished attempts
-- ════════════════════════════════════════════════════════════════════════

section Attempts

variable {claim : ActivityClaim} {row : ActivityRow} {category category' message message' : String}

theorem restates_finishAttempt {outcome : AttemptOutcome} (h : db.Restates dialect db')
    (hc : dialect.fits errorCategoryWidth (some category) →
      dialect.fits errorCategoryWidth (some category'))
    (hm : dialect.fits errorMessageWidth (some message) →
      dialect.fits errorMessageWidth (some message')) :
    wp₂ (finishAttempt claim outcome (some category) (some message) none now)
      (finishAttempt claim outcome (some category') (some message') none now)
      (fun _ s _ t => s.Restates dialect t) db db' := by
  refine restates_updateOpenAttempt h fun r r' hrr' =>
    ⟨?_, fun hfits => ⟨hc hfits.1, hm hfits.2⟩⟩
  obtain ⟨_, _, rfl⟩ := ActivityAttemptRow.exists_of_bare hrr'.bare
  rfl

theorem restates_blockWorkflow (h : db.Restates dialect db')
    (hc : dialect.fits errorCategoryWidth (some category) →
      dialect.fits errorCategoryWidth (some category'))
    (hm : dialect.fits errorMessageWidth (some message) →
      dialect.fits errorMessageWidth (some message')) :
    wp₂ (blockWorkflow row category message now) (blockWorkflow row category' message' now)
      (fun _ s _ t => s.Restates dialect t) db db' := by
  refine wp₂_bind (wp₂_imp (restates_updateWorkflow h (fun _ => rfl)
    fun r r' hrr' => ⟨?_, fun hfits => ⟨hc hfits.1, hm hfits.2⟩⟩) fun _ s _ t hst =>
      restates_appendHistoryEvent hst hm)
  obtain ⟨_, _, rfl⟩ := WorkflowRow.exists_of_bare hrr'.bare
  rfl

theorem restates_deadLetter (h : db.Restates dialect db')
    (hc : dialect.fits errorCategoryWidth (some category) →
      dialect.fits errorCategoryWidth (some category'))
    (hm : dialect.fits errorMessageWidth (some message) →
      dialect.fits errorMessageWidth (some message')) :
    wp₂ (deadLetter claim row category message now) (deadLetter claim row category' message' now)
      (fun _ s _ t => s.Restates dialect t) db db' := by
  refine wp₂_bind (wp₂_imp (restates_updateActivity h (fun _ => rfl)
    fun r r' hrr' => ⟨?_, fun hfits => ⟨hc hfits.1, hm hfits.2⟩⟩) fun _ s _ t hst =>
      wp₂_bind (wp₂_imp (restates_finishAttempt hst hc hm) fun _ s _ t hst =>
        restates_blockWorkflow hst hc hm))
  obtain ⟨_, _, rfl⟩ := ActivityRow.exists_of_bare hrr'.bare
  rfl

theorem restates_finishRetry
    (hc : dialect.fits errorCategoryWidth (some category) →
      dialect.fits errorCategoryWidth (some category'))
    (hm : dialect.fits errorMessageWidth (some message) →
      dialect.fits errorMessageWidth (some message')) :
    wp₂ (finishRetry externals claim category message now)
      (finishRetry externals claim category' message' now)
      (fun _ s _ t => s.Restates dialect t) db db := by
  unfold finishRetry
  dsimp only
  refine wp₂_bind_self fun delay db₁ _ => wp₂_bind_self fun delayMillis db₂ _ => ?_
  refine wp₂_bind (wp₂_imp (restates_updateActivity (.refl dialect db₂) (fun _ => rfl)
    fun r r' hrr' => ⟨?_, fun hfits => ⟨hc hfits.1, hm hfits.2⟩⟩) fun _ s _ t hst =>
      wp₂_bind (wp₂_imp (restates_finishAttempt hst hc hm) fun _ s _ t hst =>
        restates_appendHistoryEvent hst hm))
  obtain ⟨_, _, rfl⟩ := ActivityRow.exists_of_bare hrr'.bare
  rfl

/-- The row that a finish settles. -/
theorem find_of_claimed {o : Option ActivityRow} {db₁ db₂ db₃ : DB} {w : WorkflowRow}
    (hw : firstRow workflowTable claim.row.workflowId db = .ok (w, db₁))
    (ho : (findRow activityTable claim.row.id : Tx _) db₁ = .ok (o, db₂))
    (hrow : (orAbort (o.filter claim.leases) .fencedWrite : Tx _) db₂ = .ok (row, db₃)) :
    db.activities.find claim.row.id = some row := by
  have hdb : db₁ = db :=
    wp_ok (Q := fun _ s => s = db) (E := fun _ => True) (wp_firstRow.mpr
      ⟨fun _ _ => rfl, fun _ => trivial⟩) hw
  cases ho
  have hfound : ((db₁.activities.find claim.row.id).filter claim.leases) = some row :=
    wp_ok (Q := fun r _ => ((db₁.activities.find claim.row.id).filter claim.leases) = some r)
      (E := fun _ => True) ((wp_orAbort _ _).mpr ⟨fun _ h => h, fun _ => trivial⟩) hrow
  rw [← hdb]
  exact (Option.filter_eq_some_iff.mp hfound).1

/-- The finishes of two failed handlers, of which a revoked attempt reads neither. -/
theorem restates_finishHandlerError {error : ActivityError}
    (he : ¬claim.Cancelling db →
      (dialect.fits errorCategoryWidth (some (truncateUtf8 error.category 64)) →
        dialect.fits errorCategoryWidth (some (truncateUtf8 category' 64))) ∧
      (dialect.fits errorMessageWidth (some (truncateUtf8 error.message maxErrorReasonBytes)) →
        dialect.fits errorMessageWidth (some (truncateUtf8 message' maxErrorReasonBytes)))) :
    wp₂ (finishHandlerError externals claim error now)
      (finishHandlerError externals claim (error.restate category' message') now)
      (fun _ s _ t => s.Restates dialect t) db db := by
  unfold finishHandlerError finishOnConnection
  refine wp₂_bind_self fun _ db₁ hw => wp₂_bind_self fun _ db₂ ho =>
    wp₂_bind_self fun row db₃ hrow => ?_
  have hstored := find_of_claimed hw ho hrow
  have hcancelling : row.status = .running → ¬claim.Cancelling db := by
    rintro hstatus ⟨row', hrow', hstatus'⟩
    rw [hstored] at hrow'
    cases hrow'
    rw [hstatus] at hstatus'
    cases hstatus'
  cases error with
  | retryable category message =>
    cases hstatus : row.status with
    | running =>
      obtain ⟨hc, hm⟩ := he (hcancelling hstatus)
      exact wp₂_ite (fun _ => restates_deadLetter (.refl dialect db₃) hc hm) fun _ =>
        restates_finishRetry hc hm
    | cancelling => exact wp₂_self fun _ db₄ _ => .refl dialect db₄
    | _ => trivial
  | permanent category message =>
    cases hstatus : row.status with
    | running =>
      obtain ⟨hc, hm⟩ := he (hcancelling hstatus)
      exact restates_deadLetter (.refl dialect db₃) hc hm
    | cancelling => exact wp₂_self fun _ db₄ _ => .refl dialect db₄
    | _ => trivial

/-- What the update of the claim's row writes stays written. -/
theorem wp_record_lastError {x : Tx Unit} {f : ActivityRow → ActivityRow} {hf}
    (hf' : ∀ r, (f r).lastErrorCategory = some category ∧ (f r).lastErrorMessage = some message)
    (hx : Keeps DB.activities x) :
    wp (do fencedUpdate activityTable claim.row.id claim.fences f hf; x)
      (fun _ db' => ∃ r, db'.activities.find claim.row.id = some r ∧
        r.lastErrorCategory = some category ∧ r.lastErrorMessage = some message)
      (fun _ => True) db := by
  rw [wp_bind]
  refine wp_fencedUpdate (fun _ => trivial) fun r hr _ => wp_imp (hx _) fun _ db' hdb' => ?_
  refine ⟨f r, ?_, hf' r⟩
  rw [hdb']
  show (db.activities.modify claim.row.id f hf).find claim.row.id = _
  rw [Table.find_modify_self, show db.activities.find claim.row.id = some r from hr]
  rfl

theorem activities_finishAttempt {outcome : AttemptOutcome} {providerResult : Option String} :
    Keeps DB.activities
      (finishAttempt claim outcome (some category) (some message) providerResult now) :=
  .bind .read fun _ => .bind (.orAbort _ _) fun _ => .modify fun _ => rfl

theorem activities_appendHistoryEvent {w : WorkflowId} {eventType : EventType}
    {actorType : ActorType} {actorId reason : Option String} {metadata : Option EventMetadata} :
    Keeps DB.activities
      (appendHistoryEvent w eventType actorType actorId reason metadata now) :=
  .bind (keeps_nextEventSequence _) fun _ => keeps_appendEvent (fun _ _ => rfl) _

/-- The texts that a dead letter leaves in its row. -/
theorem wp_deadLetter_lastError : wp (deadLetter claim row category message now)
    (fun _ db' => ∃ r, db'.activities.find claim.row.id = some r ∧
      r.lastErrorCategory = some category ∧ r.lastErrorMessage = some message)
    (fun _ => True) db :=
  wp_record_lastError (fun _ => ⟨rfl, rfl⟩) (.bind activities_finishAttempt fun _ =>
    .bind (keeps_fencedUpdate fun _ _ => rfl) fun _ => activities_appendHistoryEvent)

/-- The texts that a finish leaves in its row, unless it found its attempt revoked. -/
theorem wp_finishHandlerError_lastError {error : ActivityError} (hrun : ¬claim.Cancelling db) :
    wp (finishHandlerError externals claim error now)
      (fun _ db' => ∃ r, db'.activities.find claim.row.id = some r ∧
        r.lastErrorCategory = some (truncateUtf8 error.category 64) ∧
        r.lastErrorMessage = some (truncateUtf8 error.message maxErrorReasonBytes))
      (fun _ => True) db := by
  have hretry : ∀ category message, wp (finishRetry externals claim category message now)
      (fun _ db' => ∃ r, db'.activities.find claim.row.id = some r ∧
        r.lastErrorCategory = some category ∧ r.lastErrorMessage = some message)
      (fun _ => True) db := by
    intro category message
    unfold finishRetry
    dsimp only
    rw [wp_bind, wp_ofExcept]
    refine ⟨fun delay _ => ?_, fun _ _ => trivial⟩
    rw [wp_bind, wp_ofExcept]
    refine ⟨fun delayMillis _ => ?_, fun _ _ => trivial⟩
    exact wp_record_lastError (fun _ => ⟨rfl, rfl⟩)
      (.bind activities_finishAttempt fun _ => activities_appendHistoryEvent)
  unfold finishHandlerError finishOnConnection
  simp only [wp_bind, wp_firstRow, wp_findRow, wp_orAbort]
  refine ⟨fun _ _ => ⟨fun row hrow => ?_, fun _ => trivial⟩, fun _ => trivial⟩
  have hstored := (Option.filter_eq_some_iff.mp hrow).1
  cases error with
  | retryable category message =>
    cases hstatus : row.status with
    | running => exact (wp_ite _ _ _).mpr ⟨fun _ => wp_deadLetter_lastError, fun _ => hretry _ _⟩
    | cancelling => exact absurd ⟨row, hstored, hstatus⟩ hrun
    | _ => trivial
  | permanent category message =>
    cases hstatus : row.status with
    | running => exact wp_deadLetter_lastError
    | cancelling => exact absurd ⟨row, hstored, hstatus⟩ hrun
    | _ => trivial

/-- A failed handler is recorded whatever it said, but for a U+0000 that Postgres rejects. -/
theorem commits_finishHandlerError {error : ActivityError} :
    dialect.Commits (finishHandlerError externals claim error now) db ↔
      dialect.Commits (finishHandlerError externals claim (error.restate "" "") now) db ∧
        (claim.Cancelling db ∨ dialect = .mysql ∨
          ¬NulBefore 64 error.category ∧ ¬NulBefore maxErrorReasonBytes error.message) := by
  constructor
  · intro h
    refine ⟨commits_of_restates (restates_finishHandlerError fun _ =>
      ⟨fun _ => fits_truncateUtf8.mpr (.inr not_nulBefore_empty), fun _ =>
        fits_truncateUtf8.mpr (.inr not_nulBefore_empty)⟩) h, ?_⟩
    by_cases hcancelling : claim.Cancelling db
    · exact .inl hcancelling
    obtain ⟨_, db', hok, hfits⟩ := h
    obtain ⟨r, hr, hcategory, hmessage⟩ :=
      wp_ok (wp_finishHandlerError_lastError hcancelling) hok
    obtain ⟨hc, hm⟩ := hfits.activities _ r hr
    rw [hcategory] at hc
    rw [hmessage] at hm
    rcases fits_truncateUtf8.mp hc with hmysql | hc
    · exact .inr (.inl hmysql)
    rcases fits_truncateUtf8.mp hm with hmysql | hm
    · exact .inr (.inl hmysql)
    exact .inr (.inr ⟨hc, hm⟩)
  · rintro ⟨h, hcondition⟩
    have herror : (error.restate "" "").restate error.category error.message = error := by
      cases error <;> rfl
    rw [← herror]
    refine commits_of_restates (restates_finishHandlerError fun hcancelling => ?_) h
    rcases hcondition.resolve_left hcancelling with hmysql | ⟨hc, hm⟩
    · exact ⟨fun _ => fits_truncateUtf8.mpr (.inl hmysql), fun _ =>
        fits_truncateUtf8.mpr (.inl hmysql)⟩
    · exact ⟨fun _ => fits_truncateUtf8.mpr (.inr hc), fun _ => fits_truncateUtf8.mpr (.inr hm)⟩

end Attempts

-- ════════════════════════════════════════════════════════════════════════
-- Final finishes
-- ════════════════════════════════════════════════════════════════════════

section Final

/-- The columns take the texts of the outcome. -/
def ExecutionOutcome.TextFits (dialect : Dialect) : ExecutionOutcome → Prop
  | .succeeded _ | .revoked => True
  | .retryable category message | .permanent category message =>
    dialect.fits errorCategoryWidth (some category) ∧ dialect.fits errorMessageWidth (some message)

/-- What a handler said is cut to its columns, so only a U+0000 does not fit. -/
theorem textFits_dispatchOutcome {error : ActivityError} :
    (dispatchOutcome (.error (.handler error))).TextFits dialect ↔
      dialect = .mysql ∨ ¬NulBefore 64 error.category ∧
        ¬NulBefore maxErrorReasonBytes error.message := by
  have hfits : (dispatchOutcome (.error (.handler error))).TextFits dialect ↔
      dialect.fits errorCategoryWidth (some (truncateUtf8 error.category 64)) ∧
        dialect.fits errorMessageWidth (some (truncateUtf8 error.message maxErrorReasonBytes)) := by
    cases error <;> rfl
  rw [hfits]
  refine (and_congr fits_truncateUtf8 fits_truncateUtf8).trans ?_
  tauto

/-- No text is written that its column rejects. -/
def Stores (dialect : Dialect) (db db' : DB) : Prop := db.TextsFit dialect → db'.TextsFit dialect

instance Stores.instIsPreorder : IsPreorder DB (Stores dialect) where
  refl _ h := h
  trans _ _ _ h h' hfits := h' (h hfits)

theorem stores_updateWorkflow {i : ℕ} {p : WorkflowRow → Bool} {f : WorkflowRow → WorkflowRow} {hf}
    (hfits : ∀ r, r.TextFits dialect → (f r).TextFits dialect) :
    Respects (Stores dialect) (fencedUpdate workflowTable i p f hf) := by
  intro db
  refine wp_fencedUpdate (fun _ => trivial) fun r hr _ h => { h with workflows := fun j r' hr' => ?_ }
  have hr' : (db.workflows.modify i f hf).find j = some r' := hr'
  rcases Table.find_modify_cases hr' with hr' | ⟨r₀, hr₀, rfl⟩
  · exact h.workflows j r' hr'
  · exact hfits r₀ (h.workflows j r₀ hr₀)

theorem stores_updateActivity {i : ℕ} {p : ActivityRow → Bool} {f : ActivityRow → ActivityRow} {hf}
    (hfits : ∀ r, r.TextFits dialect → (f r).TextFits dialect) :
    Respects (Stores dialect) (fencedUpdate activityTable i p f hf) := by
  intro db
  refine wp_fencedUpdate (fun _ => trivial) fun r hr _ h => { h with activities := fun j r' hr' => ?_ }
  have hr' : (db.activities.modify i f hf).find j = some r' := hr'
  rcases Table.find_modify_cases hr' with hr' | ⟨r₀, hr₀, rfl⟩
  · exact h.activities j r' hr'
  · exact hfits r₀ (h.activities j r₀ hr₀)

theorem stores_updateOpenAttempt {i : ActivityId} {n : ℕ} {token : LeaseToken}
    {f : ActivityAttemptRow → ActivityAttemptRow}
    (hfits : ∀ r, r.TextFits dialect → (f r).TextFits dialect) :
    Respects (Stores dialect) (updateOpenAttempt i n token f) := by
  intro db
  simp only [updateOpenAttempt, wp_bind, wp_read, wp_orAbort, wp_modify]
  refine ⟨fun attempt hattempt h => { h with attempts := fun j m r hr => ?_ }, fun _ => trivial⟩
  have hstored := (Option.filter_eq_some_iff.mp hattempt).1
  have hr : (if j = i ∧ m = n then some (f attempt) else db.attempts j m) = some r := hr
  by_cases hjm : j = i ∧ m = n
  · rw [if_pos hjm] at hr
    cases hr
    exact hfits attempt (h.attempts i n attempt hstored)
  · rw [if_neg hjm] at hr
    exact h.attempts j m r hr

theorem stores_appendEvent {e : WorkflowEventRow} (he : e.TextFits dialect) :
    Respects (Stores dialect) (appendEvent e) := by
  intro db
  simp only [appendEvent, wp_bind, wp_read, wp_ensure, wp_modify]
  refine ⟨fun _ => ⟨fun _ h => { h with events := ?_ }, fun _ => trivial⟩, fun _ => trivial⟩
  exact List.forall_mem_append.mpr ⟨h.events, List.forall_mem_singleton.mpr he⟩

theorem stores_appendHistoryEvent {w : WorkflowId} {eventType : EventType} {actorType : ActorType}
    {actorId reason : Option String} (hreason : dialect.fits errorMessageWidth reason) :
    Respects (Stores dialect) (appendHistoryEvent w eventType actorType actorId reason none now) := by
  have hsequence : Respects (Stores dialect) (nextEventSequence w) :=
    .bind .read fun _ => .orAbort _ _
  refine .bind hsequence fun sequence => stores_appendEvent ⟨hreason, ?_⟩
  intro _ _ _ _ _ hmetadata
  cases hmetadata

variable {claim : ActivityClaim} {row : ActivityRow} {category message output : String}

theorem stores_deadLetter (hc : dialect.fits errorCategoryWidth (some category))
    (hm : dialect.fits errorMessageWidth (some message)) :
    Respects (Stores dialect) (deadLetter claim row category message now) := by
  refine .bind (stores_updateActivity fun _ _ => ⟨hc, hm⟩) fun _ => ?_
  refine .bind (stores_updateOpenAttempt fun _ _ => ⟨hc, hm⟩) fun _ => ?_
  exact .bind (stores_updateWorkflow fun _ _ => ⟨hc, hm⟩) fun _ => stores_appendHistoryEvent hm

theorem stores_finishSucceeded : Respects (Stores dialect) (finishSucceeded claim output now) := by
  have hnone : ∀ width, dialect.fits width none := fun width => dialect.fits_none width
  have hrow : Respects (Stores dialect) (firstRow workflowTable claim.row.workflowId) :=
    .bind (.findRow _) fun _ => .orAbort _ _
  have hsequence : Respects (Stores dialect) (nextEventSequence claim.row.workflowId) :=
    .bind .read fun _ => .orAbort _ _
  refine .bind (stores_updateActivity fun _ _ => ⟨hnone _, hnone _⟩) fun _ => ?_
  refine .bind (stores_updateOpenAttempt fun _ _ => ⟨hnone _, hnone _⟩) fun _ => ?_
  refine .bind hrow fun workflow => .bind (.ensure _ _) fun _ => .bind (.ofExcept _) fun result => ?_
  refine .bind (.bind hsequence fun sequence => stores_appendEvent ⟨hnone _, ?_⟩) fun _ => ?_
  · intro _ _ _ _ _ hmetadata
    cases hmetadata
  · exact stores_updateWorkflow fun _ h => h

/-- A dead letter leaves only texts that fit exactly if its own do. -/
theorem wp_deadLetter_textsFit (hdb : db.TextsFit dialect) :
    wp (deadLetter claim row category message now)
      (fun _ db' => db'.TextsFit dialect ↔ dialect.fits errorCategoryWidth (some category) ∧
        dialect.fits errorMessageWidth (some message)) (fun _ => True) db := by
  by_cases hfits : dialect.fits errorCategoryWidth (some category) ∧
      dialect.fits errorMessageWidth (some message)
  · exact wp_imp (stores_deadLetter hfits.1 hfits.2 db) fun _ _ h =>
      ⟨fun _ => hfits, fun _ => h hdb⟩
  · refine wp_imp wp_deadLetter_lastError fun _ db' h => ⟨fun hdb' => ?_, fun h => absurd h hfits⟩
    obtain ⟨r, hr, hcategory, hmessage⟩ := h
    obtain ⟨hc, hm⟩ := hdb'.activities _ r hr
    exact ⟨hcategory ▸ hc, hmessage ▸ hm⟩

/-- A finish of a running attempt for good leaves only texts that fit exactly if the texts of its
outcome do. -/
theorem wp_finishOnConnection_textsFit {outcome : ExecutionOutcome} (hdb : db.TextsFit dialect)
    (hrow : db.activities.find claim.row.id = some row) (hrun : row.status = .running)
    (hfinal : outcome.isFinal claim = true) :
    wp (finishOnConnection externals claim outcome now)
      (fun _ db' => db'.TextsFit dialect ↔ outcome.TextFits dialect) (fun _ => True) db := by
  simp only [finishOnConnection, wp_bind, wp_firstRow, wp_findRow, wp_orAbort]
  refine ⟨fun _ _ => ⟨fun row' hrow' => ?_, fun _ => trivial⟩, fun _ => trivial⟩
  obtain rfl := Option.some_inj.mp (hrow.symm.trans (Option.filter_eq_some_iff.mp hrow').1)
  rw [hrun]
  cases outcome with
  | succeeded output =>
    exact wp_imp (stores_finishSucceeded db) fun _ _ h => iff_of_true (h hdb) trivial
  | retryable category message =>
    dsimp only
    rw [if_pos (of_decide_eq_true hfinal)]
    exact wp_deadLetter_textsFit hdb
  | permanent category message => exact wp_deadLetter_textsFit hdb
  | revoked => cases hfinal

end Final

-- ════════════════════════════════════════════════════════════════════════
-- Both recordings
-- ════════════════════════════════════════════════════════════════════════

/-- **What a handler said**: in any state of either backend, a failure is recorded exactly if
one of the same kind without a text is, and the backend is MySQL, or what is kept of the texts
has no U+0000, or the attempt was revoked. -/
theorem commits_iff_of_handler (dialect : Dialect) (externals : Externals) (db : DB)
    (now : DbMillis) :
    (∀ (config : CoordinatorConfig) (claim : ClaimedRow) (error : WorkflowError),
      dialect.Commits (recordStepError externals config claim (.workflow error) now) db ↔
        dialect.Commits (recordActivationFailure externals config claim "" now) db ∧
          (dialect = .mysql ∨ ¬NulBefore maxErrorReasonBytes
            (WorkflowDispatchError.workflow error).display)) ∧
    ∀ (claim : ActivityClaim) (error : ActivityError),
      dialect.Commits (finishHandlerError externals claim error now) db ↔
        dialect.Commits (finishHandlerError externals claim (error.restate "" "") now) db ∧
          (claim.Cancelling db ∨ dialect = .mysql ∨
            ¬NulBefore 64 error.category ∧ ¬NulBefore maxErrorReasonBytes error.message) :=
  ⟨fun _ _ _ => commits_recordActivationFailure, fun _ _ => commits_finishHandlerError⟩

namespace Sample

/-- A workflow is claimed and its step runs. -/
def steppingRun : List Action :=
  [.start workflow ⟨none, none, none⟩ 0,
    .claimWorkflow config workflows (fun _ => false) "worker" 0, .activate 0]

/-- An activity is claimed and its handler runs. -/
def handlingRun : List Action :=
  .start workflow ⟨none, none, none⟩ 0 ::
    (activation 0 (.runActivity "null" activity) 0 ++ claimActivity 0)

/-- A message of one character, which Postgres rejects. -/
def nul : String := "\x00"

/-- Whether a transaction returns with a database that satisfies `p`. -/
def leaves (x : Except DurableError (Unit × DB)) (p : DB → Bool) : Bool :=
  match x with
  | .ok (_, db) => p db
  | .error _ => false

theorem exists_of_leaves {x : Except DurableError (Unit × DB)} {p : DB → Bool}
    (h : leaves x p = true) : ∃ db, x = .ok ((), db) ∧ p db = true := by
  unfold leaves at h
  split at h
  · rename_i db
    exact ⟨db, rfl, h⟩
  · cases h

/-- A step and a handler whose error is a U+0000 leave texts that Postgres rejects. -/
theorem nul_rejected :
    (¬∀ dialect externals actions config claim error now db',
      claim ∈ (run externals Sys.init actions).workflowClaims →
      recordStepError externals config claim (.workflow error) now
        (run externals Sys.init actions).db = .ok ((), db') → db'.TextsFit dialect) ∧
    ¬∀ dialect externals actions claim error now db',
      claim ∈ (run externals Sys.init actions).activityClaims →
      finishHandlerError externals claim error now
        (run externals Sys.init actions).db = .ok ((), db') → db'.TextsFit dialect := by
  constructor
  · intro hall
    have hrejected : ((run Sample.externals Sys.init steppingRun).workflowClaims[0]?).any
        fun claim => leaves (recordStepError Sample.externals config claim
          (.workflow ⟨"c", nul⟩) 0 (run Sample.externals Sys.init steppingRun).db) fun db =>
            (db.workflows.find 1).any fun r =>
              r.errorMessage == some "workflow handler failed: c: \x00" := by decide +kernel
    obtain ⟨claim, hclaim, hleaves⟩ := Option.any_eq_true _ _ |>.mp hrejected
    obtain ⟨db', hok, hrow⟩ := exists_of_leaves hleaves
    obtain ⟨r, hr, hmessage⟩ := Option.any_eq_true _ _ |>.mp hrow
    have hfits := hall .postgres Sample.externals steppingRun config claim ⟨"c", nul⟩ 0 db'
      (List.mem_of_getElem? hclaim) hok
    have := (hfits.workflows 1 r hr).2 _ (eq_of_beq hmessage)
    exact this.2 rfl (by decide)
  · intro hall
    have hrejected : ((run Sample.externals Sys.init handlingRun).activityClaims[0]?).any
        fun claim => leaves (finishHandlerError Sample.externals claim
          (.permanent "c" nul) 0 (run Sample.externals Sys.init handlingRun).db) fun db =>
            (db.activities.find 1).any fun r => r.lastErrorMessage == some nul := by decide +kernel
    obtain ⟨claim, hclaim, hleaves⟩ := Option.any_eq_true _ _ |>.mp hrejected
    obtain ⟨db', hok, hrow⟩ := exists_of_leaves hleaves
    obtain ⟨r, hr, hmessage⟩ := Option.any_eq_true _ _ |>.mp hrow
    have hfits := hall .postgres Sample.externals handlingRun claim (.permanent "c" nul) 0 db'
      (List.mem_of_getElem? hclaim) hok
    have := (hfits.activities 1 r hr).2 _ (eq_of_beq hmessage)
    exact this.2 rfl (by decide)

end Sample

end DurableWorkflows
