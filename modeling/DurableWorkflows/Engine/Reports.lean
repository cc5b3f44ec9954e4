import DurableWorkflows.Engine.Absorbing

/-!
# What the results of children say

The result of a child tells how it ended, under the definition of its row. A workflow waits
for the child that its command runs, and then for the recoveries of the same definition that
take its place, so the result names what the workflow asked for.

## Main definitions

- `DB.Defines`, `DB.WaitsFor`: the definition of a row, and the child that a row waits for
- `DB.Handed`: a child and the recoveries that took its place
- `DB.Told`: an event that tells how a child ended
- `ClaimedRow.Runs`: the child that a commit runs
- `DB.Reported`: every wait for a child and every result of one is what was asked for
- `Preserves`: what no transaction changes
- `Reports`, `Reporting`: a transaction that keeps everything reported

## Main results

- `wp_wakeWaitingParents_reports`: the delivery of an outcome
- `reporting_cancelOwnedDescendants`, `reporting_recoverableStartIn`, `reporting_restart`
- `exec_reports`
-/

namespace DurableWorkflows

open Transaction

variable {db db' db'' : DB} {w c c₀ : WorkflowId} {n : ℕ} {kind : String} {version : ℤ}
  {now : DbMillis} {α β : Type} {asked : WorkflowId → ℕ → WorkflowId → String → ℤ → Prop}
  {r : WorkflowRow} {e : WorkflowEventRow} {eventType : EventType} {event : WorkflowEvent}

/-- A row of the definition is stored. -/
def DB.Defines (db : DB) (c : WorkflowId) (kind : String) (version : ℤ) : Prop :=
  ∃ r, db.workflows.find c = some r ∧ r.kind = kind ∧ r.version = version

/-- `w` waits for the child `c` with its command `n`. -/
def DB.WaitsFor (db : DB) (w c : WorkflowId) (n : ℕ) : Prop :=
  ∃ r, db.workflows.find w = some r ∧ r.awaited = some (.child c) ∧ r.commandSequence = n

/-- The command that the result of a child answers, and the definition it names. -/
def WorkflowEventRow.childStep (e : WorkflowEventRow) : Option (ℕ × String × ℤ) :=
  match e.metadata with
  | some (.event (.childSucceeded n result)) => some (n, result.kind, result.version)
  | some (.event (.childFailed n kind version _ _)) => some (n, kind, version)
  | _ => none

/-- The log of `c` has an event of a type, with a reason. -/
def DB.Notes (db : DB) (c : WorkflowId) (eventType : EventType) (reason : String) : Prop :=
  ∃ e ∈ db.events, e.workflowId = c ∧ e.eventType = eventType ∧ e.reason = some reason

/-- `c` was started in the place of `p`. -/
def DB.Replaces (db : DB) (c p : WorkflowId) (kind : String) (version : ℤ) : Prop :=
  ∃ r, db.workflows.find c = some r ∧ r.restartedFromWorkflowId = some p ∧ r.kind = kind ∧
    r.version = version

/-- `c` was superseded by the recovery `c₁`, which runs the same definition. -/
def DB.HandsOver (db : DB) (c c₁ : WorkflowId) : Prop :=
  ∃ r, db.workflows.find c = some r ∧ r.status = .cancelled ∧
    db.Notes c .workflowSupersededByRecovery supersededByRecovery ∧
    db.Replaces c₁ c r.kind r.version

/-- A child and the recoveries that took its place, one after the other. -/
def DB.Handed (db : DB) : WorkflowId → WorkflowId → Prop := Relation.ReflTransGen db.HandsOver

/-- What a parent is told of the ended child `r` for its command `n`: the result or the error of
the row, the reason of the cancel, or what superseded the child. -/
inductive DB.Tells (db : DB) (r : WorkflowRow) (n : ℕ) : EventType → WorkflowEvent → Prop
  | succeeded (hs : r.status = .succeeded) : Tells db r n .childSucceeded
      (.childSucceeded n ⟨r.kind, r.version, r.resultJson.getD "null"⟩)
  | failed (hs : r.status = .failed) : Tells db r n .childFailed
      (.childFailed n r.kind r.version (r.errorCategory.getD "failed")
        (r.errorMessage.getD "child workflow failed"))
  | cancelled {reason : String} (hs : r.status = .cancelled)
      (hreason : db.Notes r.id .workflowCancelled reason ∨
        reason = "child workflow was cancelled") :
      Tells db r n .childFailed (.childFailed n r.kind r.version "child_cancelled" reason)
  | restarted {reason : String} (hs : r.status = .cancelled)
      (hreason : db.Notes r.id .workflowSupersededByRestart reason) :
      Tells db r n .childFailed (.childFailed n r.kind r.version "child_superseded" reason)
  | recovered {successor : WorkflowId} {version : ℤ} (hs : r.status = .cancelled)
      (hnotes : db.Notes r.id .workflowSupersededByRecovery supersededByRecovery)
      (hsuccessor : db.Replaces successor r.id r.kind version) (hversion : version ≠ r.version) :
      Tells db r n .childFailed (.childFailed n r.kind r.version "child_superseded"
        s!"child workflow {r.id} was superseded by recovery generation {successor} at version {version}")

/-- The event tells how the child `c` ended. -/
def DB.Told (db : DB) (c : WorkflowId) (n : ℕ) (e : WorkflowEventRow) : Prop :=
  ∃ r event, db.workflows.find c = some r ∧ e.metadata = some (.event event) ∧
    db.Tells r n e.eventType event

/-- Every child that a workflow waits for took the place of one that it asked for, and so did the
child of a result. A row that was restarted has the kind of its successor. -/
structure DB.Reported (asked : WorkflowId → ℕ → WorkflowId → String → ℤ → Prop) (db : DB) :
    Prop where
  waits : ∀ w c n, db.WaitsFor w c n → ∃ c₀ kind version, asked w n c₀ kind version ∧
    db.Handed c₀ c ∧ db.Defines c kind version
  results : ∀ e ∈ db.events, ∀ n kind version, e.childStep = some (n, kind, version) →
    ∃ c₀ c, asked e.workflowId n c₀ kind version ∧ db.Handed c₀ c ∧ db.Told c n e
  sources : ∀ w r p, db.workflows.find w = some r → r.restartedFromWorkflowId = some p →
    ∃ version, db.Defines p r.kind version

/-- What a transaction keeps: the ended workflows, the lineage of all, and the events. -/
structure Preserves (db db' : DB) : Prop where
  ended : ∀ c r, db.workflows.find c = some r → r.status.isTerminal = true →
    db'.workflows.find c = some r
  lineage : ∀ c r, db.workflows.find c = some r →
    ∃ r', db'.workflows.find c = some r' ∧ r'.lineage = r.lineage
  events : ∀ e ∈ db.events, e ∈ db'.events

/-- What a transaction keeps, and what it leaves reported. -/
structure Reports (asked : WorkflowId → ℕ → WorkflowId → String → ℤ → Prop) (db db' : DB) :
    Prop where
  preserves : Preserves db db'
  reported : db'.Reported asked

/-- From a database where everything is reported, the transaction leaves it so. -/
def Reporting (asked : WorkflowId → ℕ → WorkflowId → String → ℤ → Prop) (x : Tx α) : Prop :=
  ∀ db, db.Reported asked → wp x (fun _ db' => Reports asked db db') (fun _ => True) db

section Rules

theorem DB.Defines.unique {kind' : String} {version' : ℤ} (h : db.Defines c kind version)
    (h' : db.Defines c kind' version') : kind = kind' ∧ version = version' := by
  obtain ⟨r, hr, rfl, rfl⟩ := h
  obtain ⟨r', hr', rfl, rfl⟩ := h'
  obtain rfl := Option.some_inj.mp (hr.symm.trans hr')
  exact ⟨rfl, rfl⟩

theorem DB.Reported.mono {asked' : WorkflowId → ℕ → WorkflowId → String → ℤ → Prop}
    (h : db.Reported asked) (hasked : ∀ w n c₀ kind version, asked w n c₀ kind version →
      asked' w n c₀ kind version) : db.Reported asked' where
  waits w c n hwaits := by
    obtain ⟨c₀, kind, version, hc₀, hc⟩ := h.waits w c n hwaits
    exact ⟨c₀, kind, version, hasked w n c₀ kind version hc₀, hc⟩
  results e he n kind version hstep := by
    obtain ⟨c₀, c, hc₀, hc⟩ := h.results e he n kind version hstep
    exact ⟨c₀, c, hasked _ n c₀ kind version hc₀, hc⟩
  sources := h.sources

theorem DB.Reported.empty : DB.empty.Reported asked where
  waits := by
    rintro w c n ⟨r, hr, -⟩
    cases hr
  results _ h := by cases h
  sources _ _ _ h := by cases h

/-- A child that a parent is told of has ended. -/
theorem DB.Tells.ended (h : db.Tells r n eventType event) : r.status.isTerminal = true := by
  cases h with
  | succeeded hs | failed hs | cancelled hs | restarted hs | recovered hs => rw [hs]; rfl

namespace Preserves

theorem refl (db : DB) : Preserves db db := ⟨fun _ _ hr _ => hr, fun _ r hr => ⟨r, hr, rfl⟩,
  fun _ he => he⟩

theorem trans (h : Preserves db db') (h' : Preserves db' db'') : Preserves db db'' where
  ended c r hr ht := h'.ended c r (h.ended c r hr ht) ht
  lineage c r hr := by
    obtain ⟨r', hr', hsame⟩ := h.lineage c r hr
    obtain ⟨r'', hr'', hsame'⟩ := h'.lineage c r' hr'
    exact ⟨r'', hr'', hsame'.trans hsame⟩
  events e he := h'.events e (h.events e he)

theorem of_eq (hworkflows : db'.workflows = db.workflows) (hevents : db'.events = db.events) :
    Preserves db db' := by
  refine ⟨fun c r hr _ => ?_, fun c r hr => ⟨r, ?_, rfl⟩, fun e he => ?_⟩
  · rwa [hworkflows]
  · rwa [hworkflows]
  · rwa [hevents]

theorem defines (h : Preserves db db') (hc : db.Defines c kind version) :
    db'.Defines c kind version := by
  obtain ⟨r, hr, rfl, rfl⟩ := hc
  obtain ⟨r', hr', hsame⟩ := h.lineage c r hr
  exact ⟨r', hr', congrArg Lineage.kind hsame, congrArg Lineage.version hsame⟩

theorem notes {reason : String} (h : Preserves db db') (hc : db.Notes c eventType reason) :
    db'.Notes c eventType reason := by
  obtain ⟨e, he, hnotes⟩ := hc
  exact ⟨e, h.events e he, hnotes⟩

theorem replaces {p : WorkflowId} (h : Preserves db db') (hc : db.Replaces c p kind version) :
    db'.Replaces c p kind version := by
  obtain ⟨r, hr, hp, rfl, rfl⟩ := hc
  obtain ⟨r', hr', hsame⟩ := h.lineage c r hr
  exact ⟨r', hr', (congrArg Lineage.restartedFromWorkflowId hsame).trans hp,
    congrArg Lineage.kind hsame, congrArg Lineage.version hsame⟩

theorem handsOver (h : Preserves db db') (hc : db.HandsOver c₀ c) : db'.HandsOver c₀ c := by
  obtain ⟨r, hr, hs, hnotes, hreplaces⟩ := hc
  exact ⟨r, h.ended _ r hr (by rw [hs]; rfl), hs, h.notes hnotes, h.replaces hreplaces⟩

theorem handed (h : Preserves db db') (hc : db.Handed c₀ c) : db'.Handed c₀ c :=
  hc.lift id fun _ _ => h.handsOver

theorem tells (h : Preserves db db') (hr : db.Tells r n eventType event) :
    db'.Tells r n eventType event := by
  cases hr with
  | succeeded hs => exact .succeeded hs
  | failed hs => exact .failed hs
  | cancelled hs hreason => exact .cancelled hs (hreason.imp_left h.notes)
  | restarted hs hreason => exact .restarted hs (h.notes hreason)
  | recovered hs hnotes hsuccessor hversion =>
    exact .recovered hs (h.notes hnotes) (h.replaces hsuccessor) hversion

theorem told (h : Preserves db db') (hc : db.Told c n e) : db'.Told c n e := by
  obtain ⟨r, event, hr, hmetadata, htells⟩ := hc
  exact ⟨r, event, h.ended c r hr htells.ended, hmetadata, h.tells htells⟩

end Preserves

namespace Reports

theorem defines (h : Reports asked db db') (hc : db.Defines c kind version) :
    db'.Defines c kind version := h.preserves.defines hc

theorem refl (h : db.Reported asked) : Reports asked db db := ⟨.refl db, h⟩

theorem trans (h : Reports asked db db') (h' : Reports asked db' db'') : Reports asked db db'' :=
  ⟨h.preserves.trans h'.preserves, h'.reported⟩

/-- What is new of the waits, the events and the restarts is reported. -/
theorem of_preserves (h : db.Reported asked) (hdb : Preserves db db')
    (hwaits : ∀ w c n, db'.WaitsFor w c n → db.WaitsFor w c n ∨ ∃ c₀ kind version,
      asked w n c₀ kind version ∧ db'.Handed c₀ c ∧ db'.Defines c kind version)
    (hresults : ∀ e ∈ db'.events, e ∈ db.events ∨
      ∀ n kind version, e.childStep = some (n, kind, version) →
        ∃ c₀ c, asked e.workflowId n c₀ kind version ∧ db'.Handed c₀ c ∧ db'.Told c n e)
    (hsources : ∀ w r p, db'.workflows.find w = some r → r.restartedFromWorkflowId = some p →
      (∃ r₀, db.workflows.find w = some r₀ ∧ r₀.lineage = r.lineage) ∨
        ∃ version, db'.Defines p r.kind version) : Reports asked db db' := by
  refine ⟨hdb, fun w c n hw => ?_, fun e he n kind version hstep => ?_, fun w r p hr hp => ?_⟩
  · rcases hwaits w c n hw with hw | hnew
    · obtain ⟨c₀, kind, version, hasked, hhanded, hc⟩ := h.waits w c n hw
      exact ⟨c₀, kind, version, hasked, hdb.handed hhanded, hdb.defines hc⟩
    · exact hnew
  · rcases hresults e he with he | hnew
    · obtain ⟨c₀, c, hasked, hhanded, htold⟩ := h.results e he n kind version hstep
      exact ⟨c₀, c, hasked, hdb.handed hhanded, hdb.told htold⟩
    · exact hnew n kind version hstep
  · rcases hsources w r p hr hp with ⟨r₀, hr₀, hsame⟩ | hnew
    · have hp₀ : r₀.restartedFromWorkflowId = some p :=
        (congrArg Lineage.restartedFromWorkflowId hsame).trans hp
      have hkind : r₀.kind = r.kind := congrArg Lineage.kind hsame
      obtain ⟨version, hsource⟩ := h.sources w r₀ p hr₀ hp₀
      exact ⟨version, hkind ▸ hdb.defines hsource⟩
    · exact hnew

/-- Neither a workflow nor an event changed. -/
theorem of_eq (hworkflows : db'.workflows = db.workflows) (hevents : db'.events = db.events)
    (h : db.Reported asked) : Reports asked db db' := by
  refine .of_preserves h (.of_eq hworkflows hevents) (fun w c n hw => .inl ?_)
    (fun e he => .inl (hevents ▸ he)) fun w r p hr _ => .inl ⟨r, hworkflows ▸ hr, rfl⟩
  rwa [DB.WaitsFor, hworkflows] at hw

end Reports

namespace Reporting

theorem of_keeps {x : Tx α} (h : Keeps (fun db : DB => (db.workflows, db.events)) x) :
    Reporting asked x := fun db hdb =>
  wp_imp (h db) fun _ _ heq => .of_eq (congrArg Prod.fst heq) (congrArg Prod.snd heq) hdb

theorem pure (a : α) : Reporting asked (pure a : Tx α) := .of_keeps (.pure a)

theorem read : Reporting asked (read : Tx DB) := .of_keeps .read

theorem orAbort (o : Option α) (e : DurableError) : Reporting asked (orAbort o e : Tx α) :=
  .of_keeps (.orAbort o e)

theorem ofExcept (x : Except DurableError α) : Reporting asked (ofExcept x : Tx α) :=
  .of_keeps (.ofExcept x)

theorem ensure (p : Prop) [Decidable p] (e : DurableError) :
    Reporting asked (ensure p e : Tx Unit) :=
  .of_keeps (.ensure p e)

theorem selectRows {γ : Type} [Keyed γ] (T : TableOf DB γ) (p : γ → Bool) :
    Reporting asked (selectRows T p) := .of_keeps fun _ => rfl

theorem findRow {γ : Type} [Keyed γ] (T : TableOf DB γ) (i : ℕ) :
    Reporting asked (findRow T i) := .of_keeps fun _ => rfl

/-- What was reported before, and what `x` reports. -/
theorem after {x : Tx α} (hx : Reporting asked x) (h : Reports asked db db') :
    wp x (fun _ db'' => Reports asked db db'') (fun _ => True) db' :=
  wp_imp (hx db' h.reported) fun _ _ h' => h.trans h'

theorem bind {x : Tx α} {f : α → Tx β} (hx : Reporting asked x)
    (hf : ∀ a, Reporting asked (f a)) : Reporting asked (x >>= f) := by
  intro db hdb
  rw [wp_bind]
  exact wp_imp (hx db hdb) fun a _ h => (hf a).after h

theorem ite {p : Prop} [Decidable p] {x y : Tx α} (hx : Reporting asked x)
    (hy : Reporting asked y) : Reporting asked (if p then x else y) := by
  split
  · exact hx
  · exact hy

theorem onlyIf {p : Prop} [Decidable p] {x : Tx Unit} (hx : Reporting asked x) :
    Reporting asked (onlyIf p x) :=
  .ite hx (.pure ())

theorem foldEach {xs : List α} {b : β} {f : β → α → Tx β} (h : ∀ b x, Reporting asked (f b x)) :
    Reporting asked (foldEach xs b f) := by
  induction xs generalizing b with
  | nil => exact .pure b
  | cons x xs ih => exact .bind (h b x) fun _ => ih

theorem forEach {xs : List α} {f : α → Tx Unit} (h : ∀ x, Reporting asked (f x)) :
    Reporting asked (forEach xs f) := by
  induction xs with
  | nil => exact .pure ()
  | cons x xs ih => exact .bind (h x) fun _ => ih

end Reporting

end Rules

section Statements

/-- A statement on another table. -/
theorem reporting_fencedUpdate [Keyed α] {T : TableOf DB α} {i : ℕ} {p : α → Bool} {f : α → α} {hf}
    (hT : ∀ table db, (T.set table db).workflows = db.workflows ∧ (T.set table db).events = db.events) :
    Reporting asked (fencedUpdate T i p f hf) := by
  refine .of_keeps (.bind (fun db => ?_) fun _ => .ensure _ _)
  rw [wp_updateRow]
  exact ⟨fun _ _ _ => Prod.ext (hT _ db).1 (hT _ db).2, fun _ => rfl⟩

/-- The update of an open workflow row that keeps its lineage; a child that the row waits for
afterwards is the one it waited for, or one it asked for. -/
theorem wp_updateWorkflow_reports (h : db.Reported asked) {p : WorkflowRow → Bool}
    {f : WorkflowRow → WorkflowRow} {hf}
    (hopen : ∀ r, db.workflows.find w = some r → p r = true → r.status.isTerminal = false)
    (hsame : ∀ r, (f r).lineage = r.lineage)
    (hwait : ∀ r c, db.workflows.find w = some r → p r = true → (f r).awaited = some (.child c) →
      r.awaited = some (.child c) ∧ (f r).commandSequence = r.commandSequence ∨
        ∃ c₀ kind version, asked w (f r).commandSequence c₀ kind version ∧ db.Handed c₀ c ∧
          db.Defines c kind version) :
    wp (fencedUpdate workflowTable w p f hf) (fun _ db' => Reports asked db db' ∧
      ∃ r, db.workflows.find w = some r ∧ p r = true ∧ db'.workflows.find w = some (f r))
      (fun _ => True) db := by
  refine wp_fencedUpdate (fun _ => trivial) fun r hr hp => ?_
  have hr : db.workflows.find w = some r := hr
  have hself : (db.workflows.modify w f hf).find w = some (f r) := by
    rw [Table.find_modify_self, hr, Option.map_some]
  have hother : ∀ {c}, c ≠ w → (db.workflows.modify w f hf).find c = db.workflows.find c :=
    fun hc => Table.find_modify_of_ne hc
  have hpreserves : Preserves db (workflowTable.set (db.workflows.modify w f hf) db) := by
    refine ⟨fun c r' hr' ht => ?_, fun c r' hr' => ?_, fun e he => he⟩
    · have hc : c ≠ w := by
        rintro rfl
        obtain rfl := Option.some_inj.mp (hr.symm.trans hr')
        rw [hopen r hr hp] at ht
        cases ht
      exact (hother hc).trans hr'
    · by_cases hc : c = w
      · subst hc
        obtain rfl := Option.some_inj.mp (hr.symm.trans hr')
        exact ⟨f r, hself, hsame r⟩
      · exact ⟨r', (hother hc).trans hr', rfl⟩
  refine ⟨.of_preserves h hpreserves (fun w' c n hw => ?_) (fun e he => .inl he)
    fun w' r' p' hr' _ => .inl ?_, r, hr, hp, hself⟩
  · obtain ⟨r', hr', hawaited, rfl⟩ := hw
    have hr' : (db.workflows.modify w f hf).find w' = some r' := hr'
    by_cases hw' : w' = w
    · subst hw'
      obtain rfl := Option.some_inj.mp (hself.symm.trans hr')
      rcases hwait r c hr hp hawaited with ⟨hawaited, hn⟩ | ⟨c₀, kind, version, hasked, hhanded, hc⟩
      · exact .inl ⟨r, hr, hawaited, hn.symm⟩
      · exact .inr ⟨c₀, kind, version, hasked, hpreserves.handed hhanded, hpreserves.defines hc⟩
    · exact .inl ⟨r', (hother hw').symm.trans hr', hawaited, rfl⟩
  · have hr' : (db.workflows.modify w f hf).find w' = some r' := hr'
    by_cases hw' : w' = w
    · subst hw'
      obtain rfl := Option.some_inj.mp (hself.symm.trans hr')
      exact ⟨r, hr, (hsame r).symm⟩
    · exact ⟨r', (hother hw').symm.trans hr', rfl⟩

/-- An update that makes an open row wait for no other child. -/
theorem reporting_updateWorkflow {p : WorkflowRow → Bool} {f : WorkflowRow → WorkflowRow} {hf}
    (hopen : ∀ r, p r = true → r.status.isTerminal = false)
    (hsame : ∀ r, (f r).lineage = r.lineage)
    (hwait : ∀ r c, (f r).awaited = some (.child c) →
      r.awaited = some (.child c) ∧ (f r).commandSequence = r.commandSequence)
    (h : db.Reported asked) :
    wp (fencedUpdate workflowTable w p f hf) (fun _ db' => Reports asked db db' ∧
      ∃ r, db.workflows.find w = some r ∧ p r = true ∧ db'.workflows.find w = some (f r))
      (fun _ => True) db :=
  wp_updateWorkflow_reports h (fun r _ => hopen r) hsame fun r c _ _ hawaited =>
    .inl (hwait r c hawaited)

theorem Reporting.update {p : WorkflowRow → Bool} {f : WorkflowRow → WorkflowRow} {hf}
    (hopen : ∀ r, p r = true → r.status.isTerminal = false)
    (hsame : ∀ r, (f r).lineage = r.lineage)
    (hwait : ∀ r c, (f r).awaited = some (.child c) →
      r.awaited = some (.child c) ∧ (f r).commandSequence = r.commandSequence) :
    Reporting asked (fencedUpdate workflowTable w p f hf) :=
  fun _ h => wp_imp (reporting_updateWorkflow hopen hsame hwait h) fun _ _ => And.left

/-- A workflow ends, and keeps the lineage that a transaction read of it. -/
theorem wp_endWorkflow_reports {workflow : WorkflowRow} {p : WorkflowRow → Bool}
    {f : WorkflowRow → WorkflowRow} {hf}
    (hopen : ∀ r, p r = true → r.status.isTerminal = false)
    (hsame : ∀ r, (f r).lineage = r.lineage)
    (hwait : ∀ r c, (f r).awaited = some (.child c) →
      r.awaited = some (.child c) ∧ (f r).commandSequence = r.commandSequence)
    (hstored : ∃ r, db.workflows.find workflow.id = some r ∧ r.lineage = workflow.lineage)
    (h : db.Reported asked) :
    wp (fencedUpdate workflowTable workflow.id p f hf) (fun _ db' => Reports asked db db' ∧
      ∃ r ended, ended = f r ∧ db'.workflows.find ended.id = some ended ∧
        workflow.id = ended.id ∧ workflow.lineage = ended.lineage) (fun _ => True) db := by
  refine wp_imp (reporting_updateWorkflow hopen hsame hwait h) fun _ db' hpost => ?_
  obtain ⟨h', r, hr, hp, hr'⟩ := hpost
  obtain ⟨r₀, hr₀, hlineage⟩ := hstored
  obtain rfl := Option.some_inj.mp (hr.symm.trans hr₀)
  have hid : (f r).id = workflow.id := Table.key_of_find hr'
  exact ⟨h', r, f r, rfl, hid ▸ hr', hid.symm, ((hsame r).trans hlineage).symm⟩

theorem reporting_nextEventSequence : Reporting asked (nextEventSequence w) :=
  .bind .read fun _ => .orAbort _ _

/-- An event is appended; if it is the result of a child, it tells how one that was asked for
ended. -/
theorem wp_appendEvent_reports (h : db.Reported asked)
    (he : ∀ n kind version, e.childStep = some (n, kind, version) →
      ∃ c₀ c, asked e.workflowId n c₀ kind version ∧ db.Handed c₀ c ∧ db.Told c n e) :
    wp (appendEvent e) (fun _ db' => Reports asked db db' ∧ e ∈ db'.events) (fun _ => True) db := by
  simp only [appendEvent, wp_bind, wp_read, wp_ensure, wp_modify]
  refine ⟨fun _ => ⟨fun _ => ?_, fun _ => trivial⟩, fun _ => trivial⟩
  have hpreserves : Preserves db { db with events := db.events ++ [e] } :=
    ⟨fun _ _ hr _ => hr, fun _ r hr => ⟨r, hr, rfl⟩, fun _ => List.mem_append_left _⟩
  refine ⟨.of_preserves h hpreserves (fun _ _ _ => .inl) (fun e' he' => ?_)
    fun _ r _ hr _ => .inl ⟨r, hr, rfl⟩, List.mem_append_right _ (List.mem_singleton_self e)⟩
  rcases List.mem_append.mp he' with hold | hnew
  · exact .inl hold
  · obtain rfl := List.mem_singleton.mp hnew
    refine .inr fun n kind version hstep => ?_
    obtain ⟨c₀, c, hasked, hhanded, htold⟩ := he n kind version hstep
    exact ⟨c₀, c, hasked, hpreserves.handed hhanded, hpreserves.told htold⟩

theorem reporting_appendEvent (he : e.childStep = none) : Reporting asked (appendEvent e) :=
  fun _ h => wp_imp (wp_appendEvent_reports h fun _ _ _ hstep => by rw [he] at hstep; cases hstep)
    fun _ _ => And.left

/-- An event that is no result is noted in the log. -/
theorem wp_appendHistoryEvent_reports (h : db.Reported asked) {actorType : ActorType}
    {actorId reason : Option String} {metadata : Option EventMetadata}
    (hmetadata : ∀ event, metadata ≠ some (.event event)) :
    wp (appendHistoryEvent w eventType actorType actorId reason metadata now)
      (fun _ db' => Reports asked db db' ∧
        ∃ e ∈ db'.events, e.workflowId = w ∧ e.eventType = eventType ∧ e.reason = reason)
      (fun _ => True) db := by
  rw [appendHistoryEvent, wp_bind]
  refine wp_imp (reporting_nextEventSequence db h) fun sequence db₁ h₁ => ?_
  refine wp_imp (wp_appendEvent_reports h₁.reported fun n kind version hstep => ?_)
    fun _ db₂ h₂ => ⟨h₁.trans h₂.1, _, h₂.2, rfl, rfl, rfl⟩
  unfold WorkflowEventRow.childStep at hstep
  cases metadata with
  | none => cases hstep
  | some metadata =>
    cases metadata with
    | event event => exact absurd rfl (hmetadata event)
    | reattached => cases hstep

theorem reporting_appendHistoryEvent {actorType : ActorType}
    {actorId reason : Option String} {metadata : Option EventMetadata}
    (hmetadata : ∀ event, metadata ≠ some (.event event)) :
    Reporting asked (appendHistoryEvent w eventType actorType actorId reason metadata now) :=
  fun _ h => wp_imp (wp_appendHistoryEvent_reports h hmetadata) fun _ _ => And.left

/-- A workflow ends, its end is noted in the log, and the transaction goes on. -/
theorem wp_endNoted_reports {workflow : WorkflowRow} {p : WorkflowRow → Bool}
    {f : WorkflowRow → WorkflowRow} {hf} {actorType : ActorType} {actorId reason : Option String}
    {metadata : Option EventMetadata} {Q : Unit → DB → Prop}
    (hopen : ∀ r, p r = true → r.status.isTerminal = false)
    (hended : ∀ r, (f r).status.isTerminal = true)
    (hsame : ∀ r, (f r).lineage = r.lineage)
    (hwait : ∀ r c, (f r).awaited = some (.child c) →
      r.awaited = some (.child c) ∧ (f r).commandSequence = r.commandSequence)
    (hmetadata : ∀ event, metadata ≠ some (.event event))
    (hstored : ∃ r, db.workflows.find workflow.id = some r ∧ r.lineage = workflow.lineage)
    (h : db.Reported asked)
    (hQ : ∀ db' r ended, Reports asked db db' → ended = f r →
      db'.workflows.find ended.id = some ended → workflow.id = ended.id →
      workflow.lineage = ended.lineage →
      (∃ e ∈ db'.events, e.workflowId = ended.id ∧ e.eventType = eventType ∧ e.reason = reason) →
      Q () db') :
    wp (fencedUpdate workflowTable workflow.id p f hf) (fun _ =>
      wp (appendHistoryEvent workflow.id eventType actorType actorId reason metadata now) Q
        fun _ => True) (fun _ => True) db := by
  refine wp_imp (wp_endWorkflow_reports hopen hsame hwait hstored h) ?_
  rintro _ db₁ ⟨h₁, r, ended, hr, hfind, hid, hlineage⟩
  have ht : ended.status.isTerminal = true := by
    rw [hr]
    exact hended r
  refine wp_imp (wp_appendHistoryEvent_reports h₁.reported hmetadata) ?_
  rintro _ db₂ ⟨h₂, hnotes⟩
  exact hQ db₂ r ended (h₁.trans h₂) hr (h₂.preserves.ended _ _ hfind ht) hid hlineage
    (hid ▸ hnotes)

theorem reporting_appendHistory : Reporting asked (appendHistory w eventType now) :=
  reporting_appendHistoryEvent fun _ => nofun

theorem reporting_appendOperatorEvent {operator : Operator} :
    Reporting asked (appendOperatorEvent w eventType operator now) :=
  reporting_appendHistoryEvent fun _ => nofun

end Statements

section Inserts

variable {row : WorkflowRow}

/-- A new row waits for nothing, and has the kind of the row it was restarted from. -/
theorem DB.Reported.insert {mk : ℕ → WorkflowRow} {hmk} (h : db.Reported asked)
    (hwait : ∀ i, (mk i).awaited = none)
    (hsource : ∀ i p, (mk i).restartedFromWorkflowId = some p →
      ∃ version, db.Defines p (mk i).kind version) :
    Reports asked db { db with workflows := db.workflows.insert mk hmk } := by
  have hfind : ∀ c r, (db.workflows.insert mk hmk).find c = some r →
      (∃ i, r = mk i) ∨ db.workflows.find c = some r := by
    intro c r hr
    rw [Table.find_insert] at hr
    by_cases hc : c = db.workflows.next
    · rw [if_pos hc] at hr
      exact .inl ⟨c, (Option.some_inj.mp hr).symm⟩
    · rw [if_neg hc] at hr
      exact .inr hr
  have hkept : ∀ c r, db.workflows.find c = some r →
      (db.workflows.insert mk hmk).find c = some r := by
    intro c r hr
    rw [Table.find_insert, if_neg (Table.lt_next_of_find hr).ne, hr]
  have hpreserves : Preserves db { db with workflows := db.workflows.insert mk hmk } :=
    ⟨fun c r hr _ => hkept c r hr, fun c r hr => ⟨r, hkept c r hr, rfl⟩, fun _ he => he⟩
  refine .of_preserves h hpreserves (fun w c n hw => .inl ?_) (fun _ he => .inl he)
    fun w r p hr hp => ?_
  · obtain ⟨r, hr, hawaited, hn⟩ := hw
    rcases hfind w r hr with ⟨i, rfl⟩ | hr
    · rw [hwait] at hawaited
      cases hawaited
    · exact ⟨r, hr, hawaited, hn⟩
  · rcases hfind w r hr with ⟨i, rfl⟩ | hr
    · obtain ⟨version, hsource⟩ := hsource i p hp
      exact .inr ⟨version, hpreserves.defines hsource⟩
    · exact .inl ⟨r, hr, rfl⟩

/-- A start inserts its row, or finds one of its kind. -/
theorem wp_insertStarted_reports (h : db.Reported asked) (hwait : row.waitKind = none)
    (hsource : ∀ p, row.restartedFromWorkflowId = some p → ∃ version, db.Defines p row.kind version) :
    wp (insertStarted row now) (fun o db' => Reports asked db db' ∧ match o with
        | .inserted id => ∃ r, db'.workflows.find id = some r ∧ r.lineage = row.lineage
        | .existing r => db'.workflows.find r.id = some r ∧ r.kind = row.kind ∧
            row.deduplicationKey ≠ none)
      (fun _ => True) db := by
  have hnone : ∀ id, WorkflowRow.awaited { row with id } = none := by
    intro id
    unfold WorkflowRow.awaited
    rw [hwait]
  simp only [insertStarted, insertWorkflow, wp_bind, wp_ensure, wp_selectRows]
  refine ⟨fun _ => ?_, fun _ => trivial⟩
  rw [wp_ite]
  refine ⟨fun _ => ?_, fun _ => ?_⟩
  · simp only [wp_bind, wp_selectRows, wp_ensure, wp_insertRow, wp_pure]
    refine ⟨fun _ => ?_, fun _ => trivial⟩
    have hinsert := @DB.Reported.insert _ _ _ (fun _ => rfl) h hnone fun _ p hp => hsource p hp
    refine wp_imp (reporting_appendEvent rfl _ hinsert.reported) fun _ db' happended => ?_
    refine ⟨hinsert.trans happended, ?_⟩
    have hself : (db.workflows.insert (fun id => { row with id }) fun _ => rfl).find
        db.workflows.next = some { row with id := db.workflows.next } := Table.find_insert_self
    obtain ⟨r, hr, hsame⟩ := happended.preserves.lineage _ _ hself
    exact ⟨r, hr, hsame⟩
  · simp only [wp_pure, wp_bind, wp_orAbort, findByDeduplicationKey, wp_selectRows]
    refine ⟨fun key hkey => ⟨fun r hr => ⟨.refl h, ?_⟩, fun _ => trivial⟩, fun _ => trivial⟩
    obtain ⟨hstored, hselected⟩ := Table.mem_select.mp (List.mem_of_mem_head? hr)
    simp only [Bool.and_eq_true, beq_iff_eq] at hselected
    exact ⟨hstored, hselected.1, by simp [hkey]⟩

/-- A start without a key inserts a row of the workflow's definition. -/
theorem wp_insertPrepared_reports (h : db.Reported asked) {workflow : PreparedWorkflowStart}
    {options : StartOptions} (hsource : ∀ p, options.restartedFromWorkflowId = some p →
      ∃ version, db.Defines p workflow.kind version) :
    wp (insertPrepared workflow options now) (fun o db' => Reports asked db db' ∧
      (options.deduplicationKey = none → ∀ p, options.restartedFromWorkflowId = some p →
        db'.Replaces o.workflowId p workflow.kind workflow.version))
      (fun _ => True) db := by
  have hinsert : wp (do
      match ← insertStarted (preparedRow workflow options now) now with
      | .inserted id => return ⟨id, true⟩
      | .existing existing => return ⟨existing.id, false⟩)
      (fun (o : StartOutcome) db' => Reports asked db db' ∧ (options.deduplicationKey = none →
        ∀ p, options.restartedFromWorkflowId = some p →
          db'.Replaces o.workflowId p workflow.kind workflow.version)) (fun _ => True) db := by
    rw [wp_bind]
    refine wp_imp (wp_insertStarted_reports h rfl hsource) fun o db' hstarted => ?_
    cases o with
    | inserted id =>
      obtain ⟨hreports, r, hr, hsame⟩ := hstarted
      refine ⟨hreports, fun _ p hp => ⟨r, hr, ?_, congrArg Lineage.kind hsame,
        congrArg Lineage.version hsame⟩⟩
      exact (congrArg Lineage.restartedFromWorkflowId hsame).trans hp
    | existing r => exact ⟨hstarted.1, fun hnone => absurd hnone hstarted.2.2.2⟩
  unfold insertPrepared findStarted
  rw [wp_bind]
  cases hkey : options.deduplicationKey with
  | none =>
    rw [hkey] at hinsert
    exact hinsert
  | some key =>
    rw [hkey] at hinsert
    simp only [findByDeduplicationKey, wp_bind, wp_selectRows, wp_pure]
    split
    · exact ⟨.refl h, fun hnone => by cases hnone⟩
    · exact hinsert

/-- The successor of a row has its kind. -/
theorem wp_lockSuccessor_kind (h : db.Reported asked) {r : WorkflowRow}
    (hr : db.workflows.find r.id = some r) :
    wp (lockSuccessor r) (fun o db' => db' = db ∧ ∀ r', o = some r' →
      db.workflows.find r'.id = some r' ∧ r'.kind = r.kind) (fun _ => True) db := by
  simp only [lockSuccessor, wp_bind, wp_selectRows, wp_pure]
  refine ⟨trivial, fun r' hr' => ?_⟩
  obtain ⟨hstored, hselected⟩ := Table.mem_select.mp (List.mem_of_mem_head? hr')
  obtain ⟨version, hsource⟩ := h.sources r'.id r' r.id hstored (beq_iff_eq.mp hselected)
  exact ⟨hstored, (hsource.unique ⟨r, hr, rfl, rfl⟩).1⟩

/-- The newest generation has the kind of the first. -/
theorem wp_lockNewestGeneration_kind (h : db.Reported asked) {r : WorkflowRow}
    (hr : db.workflows.find r.id = some r) :
    wp (lockNewestGeneration r) (fun r' db' => db' = db ∧ db.workflows.find r'.id = some r' ∧
      r'.kind = r.kind) (fun _ => True) db := by
  have hloop : ∀ fuel (current : WorkflowRow), db.workflows.find current.id = some current →
      wp (newestGenerationFrom fuel current) (fun r' db' => db' = db ∧
        db.workflows.find r'.id = some r' ∧ r'.kind = current.kind) (fun _ => True) db := by
    intro fuel
    induction fuel with
    | zero => exact fun _ _ => trivial
    | succ fuel ih =>
      intro current hcurrent
      rw [newestGenerationFrom, wp_bind]
      refine wp_imp (wp_lockSuccessor_kind h hcurrent) fun o db' hpost => ?_
      obtain ⟨hdb, hsome⟩ := hpost
      subst hdb
      cases o with
      | none => exact ⟨rfl, hcurrent, rfl⟩
      | some successor =>
        obtain ⟨hstored, hkind⟩ := hsome successor rfl
        exact wp_imp (ih successor hstored) fun r' db'' hnewest =>
          ⟨hnewest.1, hnewest.2.1, hnewest.2.2.trans hkind⟩
  rw [lockNewestGeneration, wp_bind, wp_read]
  exact hloop _ r hr

/-- The child of a command has the definition that the command names. -/
theorem wp_insertChild_reports (h : db.Reported asked) {child : ChildWorkflowCommand}
    {key : String} {root : WorkflowId} :
    wp (insertChild child key w n root now) (fun o db' => Reports asked db db' ∧
      db'.Defines o.workflowId child.kind child.version ∧ ∀ r, o = .existing r →
        db'.workflows.find r.id = some r) (fun _ => True) db := by
  have hexisting : ∀ {db₁ : DB} {keyed : WorkflowRow}, Reports asked db db₁ →
      db₁.workflows.find keyed.id = some keyed → keyed.kind = child.kind →
      wp (existingChild child keyed) (fun o db' => Reports asked db db' ∧
        db'.Defines o.workflowId child.kind child.version ∧ ∀ r, o = .existing r →
          db'.workflows.find r.id = some r) (fun _ => True) db₁ := by
    intro db₁ keyed h₁ hkeyed hkind
    rw [existingChild, wp_bind]
    refine wp_imp (wp_lockNewestGeneration_kind h₁.reported hkeyed) ?_
    rintro existing db' ⟨rfl, hstored, hkind'⟩
    simp only [wp_bind, wp_ensure, wp_pure]
    refine ⟨fun hversion => ⟨h₁, ⟨existing, hstored, hkind'.trans hkind, hversion⟩, ?_⟩,
      fun _ => trivial⟩
    rintro _ ⟨⟩
    exact hstored
  simp only [insertChild, findByDeduplicationKey, wp_bind, wp_ensure, wp_selectRows, wp_pure]
  refine ⟨fun _ => ?_, fun _ => trivial⟩
  split
  · rename_i keyed hhead
    obtain ⟨hstored, hselected⟩ := Table.mem_select.mp (List.mem_of_mem_head? hhead)
    simp only [Bool.and_eq_true, beq_iff_eq] at hselected
    simp only [wp_bind, wp_firstRow]
    refine ⟨fun keyed' hkeyed' => ?_, fun _ => trivial⟩
    obtain rfl := Option.some_inj.mp (hstored.symm.trans hkeyed')
    exact hexisting (.refl h) hstored hselected.1
  · rw [wp_bind]
    refine wp_imp (wp_insertStarted_reports h rfl fun p hp => by cases hp) fun o db₁ hstarted => ?_
    cases o with
    | inserted id =>
      obtain ⟨hreports, r, hr, hsame⟩ := hstarted
      refine ⟨hreports, ⟨r, hr, congrArg Lineage.kind hsame, congrArg Lineage.version hsame⟩, ?_⟩
      rintro _ ⟨⟩
    | existing keyed => exact hexisting hstarted.1 hstarted.2.1 hstarted.2.2.1

end Inserts

section Outcomes

variable {child parent : WorkflowRow} {outcome : ChildOutcome}

/-- The event of an outcome names the definition of the child. -/
theorem childStep_childOutcomeEvent
    (hevent : childOutcomeEvent n kind version outcome = .ok (eventType, event))
    (he : e.metadata = some (.event event)) : e.childStep = some (n, kind, version) := by
  unfold WorkflowEventRow.childStep
  rw [he]
  cases outcome with
  | ok outputJson =>
    obtain ⟨result, hresult, hevent⟩ := bind_eq_ok hevent
    obtain ⟨-, -, hresult⟩ := bind_eq_ok hresult
    cases hevent
    cases hresult
    rfl
  | error e =>
    cases hevent
    rfl

/-- The outcome is how the ended child `r` is to be told of. -/
def DB.TellsOutcome (db : DB) (r : WorkflowRow) (outcome : ChildOutcome) : Prop :=
  ∀ n eventType event, childOutcomeEvent n r.kind r.version outcome = .ok (eventType, event) →
    db.Tells r n eventType event

theorem DB.TellsOutcome.mono (h : db.TellsOutcome r outcome) (hdb : Preserves db db') :
    db'.TellsOutcome r outcome :=
  fun n eventType event hevent => hdb.tells (h n eventType event hevent)

theorem tellsOutcome_succeeded {outputJson : String} (hs : r.status = .succeeded)
    (hresult : r.resultJson.getD "null" = outputJson) : db.TellsOutcome r (.ok outputJson) := by
  intro n eventType event hevent
  obtain ⟨result, hok, hevent⟩ := bind_eq_ok hevent
  obtain ⟨-, -, hok⟩ := bind_eq_ok hok
  cases hevent
  cases hok
  rw [← hresult]
  exact .succeeded hs

theorem tellsOutcome_error {category message : String}
    (h : ∀ n, db.Tells r n .childFailed (.childFailed n r.kind r.version category message)) :
    db.TellsOutcome r (.error (category, message)) := by
  intro n eventType event hevent
  cases hevent
  exact h n

theorem tellsOutcome_failed {category message : String} (hs : r.status = .failed)
    (hcategory : r.errorCategory = some category) (hmessage : r.errorMessage = some message) :
    db.TellsOutcome r (.error (category, message)) := by
  refine tellsOutcome_error fun n => ?_
  have htells : db.Tells r n .childFailed _ := DB.Tells.failed hs
  rw [hcategory, hmessage] at htells
  exact htells

/-- A parent is told the outcome of the child that it waits for. -/
theorem reporting_wakeLoadedParent (hstatus : parent.status.awaitsChild = true)
    (hasked : asked parent.id parent.commandSequence c₀ child.kind child.version)
    (hhanded : db.Handed c₀ child.id) (hchild : db.workflows.find child.id = some child)
    (htells : db.TellsOutcome child outcome) (h : db.Reported asked) :
    wp (wakeLoadedParentOnChildTerminal parent child.id child.kind child.version outcome now)
      (fun _ db' => Reports asked db db') (fun _ => True) db := by
  unfold wakeLoadedParentOnChildTerminal
  simp only [hstatus, if_true, wp_bind, wp_ofExcept, wp_ite]
  refine ⟨fun wait _ => ⟨fun _ => ⟨?_, fun _ _ => trivial⟩, fun _ => .refl h⟩, fun _ _ => trivial⟩
  rintro ⟨eventType, event⟩ hevent
  simp only [appendDelivery, nextEventSequence, wp_bind, wp_orAbort, wp_read]
  refine ⟨fun _ _ => ⟨fun _ _ => ?_, fun _ => trivial⟩, fun _ => trivial⟩
  refine wp_imp (wp_appendEvent_reports h fun n' kind' version' hstep => ?_) fun _ db₁ h₁ => ?_
  · cases (childStep_childOutcomeEvent hevent rfl).symm.trans hstep
    exact ⟨c₀, child.id, hasked, hhanded, child, event, hchild, rfl,
      htells _ eventType event hevent⟩
  · refine wp_imp (reporting_updateWorkflow (fun r hp => ?_) (fun _ => rfl) (fun _ _ h => by cases h)
      h₁.1.reported) fun _ _ h₂ => h₁.1.trans h₂.1
    simp only [Bool.and_eq_true, beq_iff_eq] at hp
    rw [hp.1.1]
    exact open_of_awaitsChild hstatus

/-- The outcome of an ended child is delivered to its parents. -/
theorem wp_wakeWaitingParents_reports {row : WorkflowRow} (h : db.Reported asked)
    (hchild : db.workflows.find child.id = some child) (hlineage : row.lineage = child.lineage)
    (hid : row.id = child.id) (hended : child.status.isTerminal = true)
    (htells : db.TellsOutcome child outcome) :
    wp (wakeWaitingParentsOnChildTerminal row outcome now) (fun _ db' => Reports asked db db')
      (fun _ => True) db := by
  have hkind : row.kind = child.kind := congrArg Lineage.kind hlineage
  have hversion : row.version = child.version := congrArg Lineage.version hlineage
  simp only [wakeWaitingParentsOnChildTerminal, waitingParents, wp_bind, wp_selectRows]
  rw [hid, hkind, hversion]
  refine wp_forEach (fun _ db' => Reports asked db db') (fun pre parent post hsplit db₁ h₁ => ?_)
    (.refl h)
  obtain ⟨hparent, hstatus, hwait⟩ := mem_waitingParents.mp
    (hsplit ▸ List.mem_append_right pre (List.mem_cons_self ..))
  obtain ⟨c₀, kind, version, hasked, hhanded, hdefines⟩ :=
    h.waits parent.id child.id _ ⟨parent, hparent, hwait, rfl⟩
  obtain ⟨rfl, rfl⟩ := hdefines.unique ⟨child, hchild, rfl, rfl⟩
  exact wp_imp (reporting_wakeLoadedParent hstatus hasked (h₁.preserves.handed hhanded)
    (h₁.preserves.ended _ _ hchild hended) (htells.mono h₁.preserves) h₁.reported)
    fun _ _ h₂ => h₁.trans h₂

end Outcomes

section Cancels

variable {workflow generation : WorkflowRow} {reason : String} {operatorId : Option String}

theorem reporting_cancelActivity {activity : ActivityRow} {outcome : AttemptOutcome} :
    Reporting asked (cancelActivity activity reason outcome now) := by
  unfold cancelActivity
  split
  case h_1 | h_2 =>
    exact .bind (.orAbort _ _) fun _ => reporting_fencedUpdate (T := activityTable) fun _ _ => ⟨rfl, rfl⟩
  case h_3 => exact reporting_fencedUpdate (T := activityTable) fun _ _ => ⟨rfl, rfl⟩
  all_goals exact fun _ _ => trivial

theorem reporting_cancelActivities {outcome : AttemptOutcome} :
    Reporting asked (cancelActivities w reason outcome now) :=
  .bind (.selectRows _ _) fun _ => .forEach fun _ => reporting_cancelActivity

theorem reporting_cancelApprovals : Reporting asked (cancelApprovals w reason now) :=
  .bind (.selectRows _ _) fun _ => .forEach fun _ =>
    reporting_fencedUpdate (T := approvalTable) fun _ _ => ⟨rfl, rfl⟩

/-- A cancel tells the waiting parents of the workflow. -/
theorem wp_cancelOneWorkflow_reports (h : db.Reported asked)
    (hstored : db.workflows.find workflow.id = some workflow)
    (hopen : workflow.status.isTerminal = false) :
    wp (cancelOneWorkflow workflow reason operatorId now) (fun _ db' => Reports asked db db')
      (fun _ => True) db := by
  simp only [cancelOneWorkflow, wp_bind]
  refine wp_imp (reporting_cancelActivities db h) fun _ db₁ h₁ => ?_
  refine wp_imp (reporting_cancelApprovals.after h₁) fun _ db₂ h₂ => ?_
  refine wp_endNoted_reports (fun r hp => ?_) (fun _ => rfl) (fun _ => rfl)
    (fun _ _ hawaited => by cases hawaited) (fun _ h => by cases h)
    (h₂.preserves.lineage _ _ hstored) h₂.reported
    fun db₃ r ended h₃ hended hr hid hlineage hnotes => ?_
  · rw [beq_iff_eq.mp hp]
    exact hopen
  · have hs : ended.status = .cancelled := congrArg WorkflowRow.status hended
    have ht : ended.status.isTerminal = true := by rw [hs]; rfl
    exact wp_imp (wp_wakeWaitingParents_reports h₃.reported hr hlineage hid ht
      (tellsOutcome_error fun n => .cancelled hs (.inl hnotes)))
      fun _ _ h₄ => (h₂.trans h₃).trans h₄

/-- The generations of a child are cancelled one after the other. -/
theorem wp_cancelGenerations_reports (fuel : ℕ) {parents : List (WorkflowId × String)}
    (h : db.Reported asked) (hstored : db.workflows.find generation.id = some generation) :
    wp (cancelGenerations reason operatorId now fuel generation parents)
      (fun _ db' => Reports asked db db') (fun _ => True) db := by
  induction fuel generalizing db generation parents with
  | zero => trivial
  | succ fuel ih =>
    have hnext : ∀ parents {db₁} {next : Option WorkflowRow → Tx (List (WorkflowId × String))},
        Reports asked db db₁ → next none = pure parents →
        (∀ successor, next (some successor) =
          cancelGenerations reason operatorId now fuel successor parents) →
        wp (lockSuccessor generation >>= next) (fun _ db' => Reports asked db db')
          (fun _ => True) db₁ := by
      intro parents db₁ next h₁ hnone hsome
      simp only [lockSuccessor, wp_bind, wp_selectRows, wp_pure]
      cases hhead : List.head? _ with
      | none =>
        rw [hnone]
        exact h₁
      | some successor =>
        rw [hsome]
        have hmem := (Table.mem_select.mp (List.mem_of_mem_head? hhead)).1
        exact wp_imp (ih h₁.reported hmem) fun _ _ h₂ => h₁.trans h₂
    rw [cancelGenerations]
    split
    · rw [wp_bind, wp_pure]
      refine hnext parents (.refl h) ?_ fun _ => ?_
      · rfl
      · rfl
    · rename_i hopen
      rw [wp_bind]
      refine wp_imp (wp_cancelOneWorkflow_reports h hstored (by simpa using hopen))
        fun _ db₁ h₁ => ?_
      rw [wp_bind, wp_pure]
      refine hnext ((generation.id, reason) :: parents) h₁ ?_ fun _ => ?_
      · rfl
      · rfl

theorem reporting_cancelOwnedChild {parents : List (WorkflowId × String)} :
    Reporting asked (cancelOwnedChild reason operatorId now parents c) := by
  intro db h
  simp only [cancelOwnedChild, wp_bind, wp_firstRow, wp_read]
  refine ⟨fun generation hgeneration => ?_, fun _ => trivial⟩
  obtain rfl : generation.id = c := Table.key_of_find hgeneration
  exact wp_cancelGenerations_reports _ h hgeneration

theorem reporting_cancelOwnedDescendants :
    Reporting asked (cancelOwnedDescendants w reason operatorId now) := by
  have hloop : ∀ fuel parents, Reporting asked (cancelDescendantsOf operatorId now fuel parents) := by
    intro fuel
    induction fuel with
    | zero =>
      intro parents
      cases parents with
      | nil => exact .pure ()
      | cons parent parents => exact fun _ _ => trivial
    | succ fuel ih =>
      intro parents
      cases parents with
      | nil => exact .pure ()
      | cons parent parents =>
        refine .bind (.bind (.selectRows _ _) fun _ => .pure _) fun children => ?_
        exact .bind (.foldEach fun _ _ => reporting_cancelOwnedChild) fun _ => ih _
  exact .bind .read fun _ => hloop _ _

theorem wp_cancelLockedWorkflow_reports (h : db.Reported asked)
    (hstored : db.workflows.find workflow.id = some workflow)
    (hopen : workflow.status.isTerminal = false) :
    wp (cancelLockedWorkflow workflow reason operatorId now) (fun _ db' => Reports asked db db')
      (fun _ => True) db := by
  rw [cancelLockedWorkflow, wp_bind]
  exact wp_imp (wp_cancelOneWorkflow_reports h hstored hopen) fun _ _ h₁ =>
    reporting_cancelOwnedDescendants.after h₁

theorem reporting_cancel : Reporting asked (cancel w reason now) := by
  intro db h
  simp only [cancel, wp_bind, wp_ensure, wp_findRow, wp_orAbort, wp_onlyIf]
  refine ⟨fun _ => ⟨fun workflow hworkflow => ⟨fun hopen => ?_, fun _ => .refl h⟩,
    fun _ => trivial⟩, fun _ => trivial⟩
  obtain rfl : workflow.id = w := Table.key_of_find hworkflow
  exact wp_cancelLockedWorkflow_reports h hworkflow (by simpa using hopen)

theorem reporting_cancelWorkflow {operator : Operator} :
    Reporting asked (cancelWorkflow w operator now) := by
  intro db h
  simp only [cancelWorkflow, lockWorkflow, wp_bind, wp_ensure, wp_findRow, wp_orAbort]
  refine ⟨fun workflow hworkflow => ⟨fun hopen => ?_, fun _ => trivial⟩, fun _ => trivial⟩
  obtain rfl : workflow.id = w := Table.key_of_find hworkflow
  exact wp_cancelLockedWorkflow_reports h hworkflow hopen

end Cancels

section Successors

variable {superseded : WorkflowRow} {successor : WorkflowId} {workflow : PreparedWorkflowStart}

/-- A wait is handed to a successor of the definition of the row it replaces. -/
theorem wp_reattachParent_reports (h : db.Reported asked) {parent : WorkflowRow}
    (hparent : parent.status.awaitsChild = true) (hhands : db.HandsOver superseded.id successor) :
    wp (reattachParent superseded successor now parent) (fun _ db' => Reports asked db db')
      (fun _ => True) db := by
  rw [reattachParent, wp_bind]
  refine wp_imp (wp_updateWorkflow_reports h (fun r _ hp => ?_) (fun _ => rfl)
    fun r c hr hp hawaited => .inr ?_) fun _ db₁ h₁ => ?_
  · simp only [Bool.and_eq_true, beq_iff_eq] at hp
    rw [hp.1.1]
    exact open_of_awaitsChild hparent
  · simp only [Bool.and_eq_true, beq_iff_eq] at hp
    have hwait : r.awaited = some (.child superseded.id) := by
      simp [WorkflowRow.awaited, hp.1.2, hp.2, WaitKind.toWait]
    obtain ⟨c₀, kind, version, hasked, hhanded, hdefines⟩ := h.waits _ _ _ ⟨r, hr, hwait, rfl⟩
    obtain ⟨child, hchild, -, -, r', hr', -, hkind, hversion⟩ := id hhands
    obtain ⟨rfl, rfl⟩ := hdefines.unique ⟨child, hchild, rfl, rfl⟩
    have hc : some (Wait.child successor) = some (.child c) := hawaited
    cases hc
    exact ⟨c₀, _, _, hasked, hhanded.tail hhands, r', hr', hkind, hversion⟩
  · exact Reporting.after (reporting_appendHistoryEvent fun _ h => by cases h) h₁.1

/-- The parents of a superseded generation follow a successor of its version, and learn the
outcome otherwise. -/
theorem wp_handWaitingParents_reports (h : db.Reported asked) {child : WorkflowRow}
    (hchild : db.workflows.find child.id = some child)
    (hlineage : superseded.lineage = child.lineage) (hid : superseded.id = child.id)
    (hs : child.status = .cancelled)
    (hnotes : db.Notes child.id .workflowSupersededByRecovery supersededByRecovery)
    (hnew : db.Replaces successor child.id child.kind version) :
    wp (handWaitingParentsToSuccessor superseded successor version now)
      (fun _ db' => Reports asked db db') (fun _ => True) db := by
  have ht : child.status.isTerminal = true := by rw [hs]; rfl
  have hversion : superseded.version = child.version := congrArg Lineage.version hlineage
  unfold handWaitingParentsToSuccessor
  by_cases hsame : version = superseded.version
  · rw [if_pos hsame]
    have hhands : db.HandsOver superseded.id successor := by
      rw [hid]
      exact ⟨child, hchild, hs, hnotes, hversion ▸ hsame ▸ hnew⟩
    simp only [waitingParents, wp_bind, wp_selectRows]
    refine wp_forEach (fun _ db' => Reports asked db db') (fun pre parent post hsplit db₁ h₁ => ?_)
      (.refl h)
    obtain ⟨-, hstatus, -⟩ := mem_waitingParents.mp
      (hsplit ▸ List.mem_append_right pre (List.mem_cons_self ..))
    exact wp_imp (wp_reattachParent_reports h₁.reported hstatus (h₁.preserves.handsOver hhands))
      fun _ _ h₂ => h₁.trans h₂
  · rw [if_neg hsame, hid]
    rw [hversion] at hsame
    exact wp_wakeWaitingParents_reports h hchild hlineage hid ht
      (tellsOutcome_error fun n => .recovered hs hnotes hnew hsame)

theorem wp_supersedeBlocked_reports (h : db.Reported asked)
    (hstored : ∃ r, db.workflows.find superseded.id = some r ∧ r.lineage = superseded.lineage)
    (hnew : db.Replaces successor superseded.id superseded.kind version) :
    wp (supersedeBlocked superseded successor version now) (fun _ db' => Reports asked db db')
      (fun _ => True) db := by
  simp only [supersedeBlocked, wp_bind]
  refine wp_endNoted_reports (fun r hp => ?_) (fun _ => rfl) (fun _ => rfl)
    (fun _ _ hawaited => ⟨hawaited, rfl⟩) (fun _ h => by cases h) hstored h
    fun db₁ r ended h₁ hended hr hid hlineage hnotes => ?_
  · rw [beq_iff_eq.mp hp]
    rfl
  · have hs : ended.status = .cancelled := congrArg WorkflowRow.status hended
    have hkind : superseded.kind = ended.kind := congrArg Lineage.kind hlineage
    have hnew₁ := h₁.preserves.replaces hnew
    rw [hid, hkind] at hnew₁
    exact wp_imp (wp_handWaitingParents_reports h₁.reported hr hlineage hid hs hnotes hnew₁)
      fun _ _ h₂ => reporting_cancelOwnedDescendants.after (h₁.trans h₂)

theorem reporting_recoverableStartIn {options : StartOptions}
    (hfresh : options.restartedFromWorkflowId = none) :
    Reporting asked (recoverableStartIn workflow options now) := by
  have hinsert : Reporting asked (insertPrepared workflow options now) := fun db h =>
    wp_imp (wp_insertPrepared_reports h (by simp [hfresh])) fun _ _ h₁ => h₁.1
  unfold recoverableStartIn
  split
  · exact hinsert
  · intro db h
    simp only [findByDeduplicationKey, wp_bind, wp_selectRows, wp_pure]
    split
    · exact hinsert db h
    · rename_i original horiginal
      obtain ⟨hstored, hselected⟩ := Table.mem_select.mp (List.mem_of_mem_head? horiginal)
      simp only [Bool.and_eq_true, beq_iff_eq] at hselected
      rw [wp_bind]
      refine wp_imp (wp_lockNewestGeneration_kind h hstored) ?_
      rintro latest db₁ ⟨rfl, hlatest, hkind⟩
      have hkind := hkind.trans hselected.1
      split
      · simp only [wp_bind, wp_onlyIf, wp_pure]
        refine wp_imp (wp_insertPrepared_reports h ?_) fun o db₂ hpost => ?_
        · rintro _ ⟨⟩
          exact ⟨latest.version, latest, hlatest, hkind, rfl⟩
        obtain ⟨h₂, hinserted⟩ := hpost
        have hdead : Reporting asked (cancelDeadLetters latest.id now) := .of_keeps fun _ => rfl
        refine wp_imp (hdead db₂ h₂.reported) fun _ db₃ h₃ => ⟨fun _ => ?_, fun _ => h₂.trans h₃⟩
        have h₃' := h₂.trans h₃
        have hnew := h₃.preserves.replaces (hinserted rfl _ rfl)
        rw [← hkind] at hnew
        exact wp_imp (wp_supersedeBlocked_reports h₃.reported
          (h₃'.preserves.lineage _ _ hlatest) hnew) fun _ _ h₄ => h₃'.trans h₄
      · exact .refl h

end Successors

section Restarts

variable {source : WorkflowRow} {operator : Operator}

theorem wp_supersedeSource_reports (h : db.Reported asked)
    (hstored : ∃ r, db.workflows.find source.id = some r ∧ r.lineage = source.lineage)
    (hopen : source.status.isTerminal = false) :
    wp (supersedeSource source operator now) (fun _ db' => Reports asked db db') (fun _ => True)
      db := by
  simp only [supersedeSource, wp_bind]
  refine wp_imp (reporting_cancelActivities db h) fun _ db₁ h₁ => ?_
  refine wp_imp (reporting_cancelApprovals.after h₁) fun _ db₂ h₂ => ?_
  obtain ⟨r₀, hr₀, hsame₀⟩ := hstored
  obtain ⟨r₂, hr₂, hsame₂⟩ := h₂.preserves.lineage _ _ hr₀
  refine wp_endNoted_reports (fun r hp => ?_) (fun _ => rfl) (fun _ => rfl)
    (fun _ _ hawaited => ⟨hawaited, rfl⟩) (fun _ h => by cases h)
    ⟨r₂, hr₂, hsame₂.trans hsame₀⟩ h₂.reported
    fun db₃ r ended h₃ hended hr hid hlineage hnotes => ?_
  · rw [beq_iff_eq.mp hp]
    exact hopen
  · have hs : ended.status = .cancelled := congrArg WorkflowRow.status hended
    have ht : ended.status.isTerminal = true := by rw [hs]; rfl
    exact wp_imp (wp_wakeWaitingParents_reports h₃.reported hr hlineage hid ht
      (tellsOutcome_error fun n => .restarted hs hnotes))
      fun _ _ h₄ => reporting_cancelOwnedDescendants.after ((h₂.trans h₃).trans h₄)

theorem reporting_moveScheduleRun {successor : WorkflowId} :
    Reporting asked (moveScheduleRun source successor) := by
  unfold moveScheduleRun
  split
  · exact .pure ()
  · exact reporting_fencedUpdate (T := scheduleRunTable) fun _ _ => ⟨rfl, rfl⟩

/-- A prepared start is one of the definition it was prepared for. -/
theorem prepareStartExact_ok {registry : WorkflowRegistry} {inputJson : String}
    {prepared : PreparedWorkflowStart}
    (h : registry.prepareStartExact kind version inputJson = .ok prepared) :
    prepared.kind = kind ∧ prepared.version = version := by
  obtain ⟨definition, -, h⟩ := bind_eq_ok h
  obtain ⟨⟨inputJson', stateJson⟩, -, h⟩ := bind_eq_ok h
  obtain ⟨-, -, h⟩ := bind_eq_ok h
  obtain ⟨-, -, h⟩ := bind_eq_ok h
  cases h
  exact ⟨rfl, rfl⟩

theorem prepareStartCurrent_kind {registry : WorkflowRegistry} {inputJson : String}
    {prepared : PreparedWorkflowStart} (h : registry.prepareStartCurrent kind inputJson = .ok prepared) :
    prepared.kind = kind := by
  unfold WorkflowRegistry.prepareStartCurrent at h
  split at h
  · exact (prepareStartExact_ok h).1
  · cases h

/-- A restart keeps the kind, and tells the parents of its source. -/
theorem reporting_restart {registry : WorkflowRegistry} {correction : Option String} :
    Reporting asked (restart registry w correction operator now) := by
  intro db h
  simp only [restart, lockWorkflow, wp_bind, wp_findRow, wp_orAbort, wp_ensure, wp_selectRows,
    wp_ofExcept, wp_onlyIf, wp_pure]
  refine ⟨fun source hsource => ⟨fun _ => ⟨fun _ => ⟨fun prepared hprepared => ⟨fun _ _ => ?_,
    fun _ _ => trivial⟩, fun _ _ => trivial⟩, fun _ => trivial⟩, fun _ => trivial⟩, fun _ => trivial⟩
  obtain rfl : source.id = w := Table.key_of_find hsource
  have hkind : prepared.kind = source.kind := by
    cases correction with
    | some input => exact prepareStartCurrent_kind hprepared
    | none => exact (prepareStartExact_ok hprepared).1
  refine wp_imp (wp_insertPrepared_reports h ?_) ?_
  · rintro _ ⟨⟩
    exact ⟨source.version, source, hsource, hkind.symm, rfl⟩
  rintro o db₁ ⟨h₁, -⟩
  refine ⟨fun _ => ?_, fun _ => trivial⟩
  have hrecord : ∀ {db₂}, Reports asked db db₂ → wp (do
      moveScheduleRun source o.workflowId
      appendOperatorEvent source.id (if correction.isSome then .workflowCorrectedAndRestarted
        else .workflowRestarted) operator now
      appendOperatorEvent o.workflowId .workflowRestartCreated operator now
      return o.workflowId) (fun _ db' => Reports asked db db') (fun _ => True) db₂ := fun h₂ =>
    Reporting.after (.bind reporting_moveScheduleRun fun _ => .bind reporting_appendOperatorEvent
      fun _ => .bind reporting_appendOperatorEvent fun _ => .pure _) h₂
  simp only [wp_bind, wp_pure] at hrecord
  refine ⟨fun hopen => ?_, fun _ => hrecord h₁⟩
  exact wp_imp (wp_supersedeSource_reports h₁.reported (h₁.preserves.lineage _ _ hsource) hopen)
    fun _ _ h₂ => hrecord (h₁.trans h₂)

end Restarts

section Commits

variable {claim : ClaimedRow} {stateJson : String} {delivered command : ℕ}

/-- A row that a claim fences is open. -/
theorem open_of_fences (h : claim.fences r = true) : r.status.isTerminal = false := by
  simp only [ClaimedRow.fences, Bool.and_eq_true, beq_iff_eq] at h
  rw [h.1]
  rfl

theorem reporting_lockFence : Reporting asked (lockFence claim) :=
  .bind (.findRow _ _) fun _ => .ensure _ _

/-- The wait of a commit for something else than a child. -/
theorem reporting_waitCommitted {status : WorkflowStatus} {wait : Wait}
    (hkind : wait.kind ≠ .child) :
    Reporting asked (fencedUpdate workflowTable claim.row.id claim.fences
      (waitCommitted claim stateJson status wait command delivered now)) := by
  refine .update (fun _ => open_of_fences) (fun _ => rfl) fun r c hawaited => ?_
  have hc : (r.waitOn wait).awaited = some (.child c) := hawaited
  rw [awaited_waitOn] at hc
  cases hc
  exact absurd rfl hkind

theorem reporting_commitContinue {config : CoordinatorConfig} :
    Reporting asked (commitContinue config claim delivered stateJson now) := by
  refine .bind (.ofExcept _) fun _ => .bind (.update (fun _ => open_of_fences) (fun _ => rfl)
    fun _ _ h => ⟨h, rfl⟩) fun _ => .bind reporting_nextEventSequence fun _ => ?_
  exact reporting_appendEvent rfl

/-- A workflow that completes tells its waiting parents. -/
theorem wp_commitComplete_reports {outputJson : String} (h : db.Reported asked)
    (hclaim : ∃ r, db.workflows.find claim.row.id = some r ∧ r.lineage = claim.row.lineage) :
    wp (commitComplete claim delivered outputJson now) (fun _ db' => Reports asked db db')
      (fun _ => True) db := by
  simp only [commitComplete, wp_bind]
  refine wp_imp (wp_endWorkflow_reports (fun _ => open_of_fences) (fun _ => rfl)
    (fun _ _ hawaited => ⟨hawaited, rfl⟩) hclaim h) ?_
  rintro _ db₁ ⟨h₁, r, ended, hended, hr, hid, hlineage⟩
  have hs : ended.status = .succeeded := congrArg WorkflowRow.status hended
  have ht : ended.status.isTerminal = true := by rw [hs]; rfl
  have hresult : ended.resultJson = some outputJson := congrArg WorkflowRow.resultJson hended
  refine wp_imp (reporting_appendHistory db₁ h₁.reported) fun _ db₂ h₂ => ?_
  exact wp_imp (wp_wakeWaitingParents_reports h₂.reported (h₂.preserves.ended _ _ hr ht) hlineage
    hid ht (tellsOutcome_succeeded hs (by rw [hresult]; rfl))) fun _ _ h₃ => (h₁.trans h₂).trans h₃

theorem reporting_commitSleep {wakeAtMillis : DbMillis} :
    Reporting asked (commitSleep claim delivered command stateJson wakeAtMillis now) := by
  refine .bind (.update (fun _ => open_of_fences) (fun _ => rfl) fun r c hawaited => ?_)
    fun _ => reporting_appendHistory
  cases hawaited

theorem reporting_commitApproval {approvalJson : String} {expiresAt : Option DbMillis} :
    Reporting asked (commitApproval claim delivered command stateJson approvalJson expiresAt now) := by
  have hinsert : ∀ row, Reporting asked (insertApproval row) := fun row =>
    .bind (.ensure _ _) fun _ => .bind (.selectRows _ _) fun _ => .bind (.ensure _ _) fun _ =>
      .of_keeps fun _ => rfl
  exact .bind reporting_lockFence fun _ => .bind (hinsert _) fun _ =>
    .bind (reporting_waitCommitted nofun) fun _ => reporting_appendHistory

theorem reporting_insertActivity {row : ActivityRow} : Reporting asked (insertActivity row) :=
  .bind (.ensure _ _) fun _ => .bind (.ensure _ _) fun _ => .bind (.selectRows _ _) fun _ =>
    .bind (.ensure _ _) fun _ => .of_keeps fun _ => rfl

theorem reporting_commitActivity {activity : ActivityCommand} :
    Reporting asked (commitActivity claim delivered command stateJson activity now) :=
  .bind reporting_lockFence fun _ => .bind (.ofExcept _) fun _ =>
    .bind reporting_insertActivity fun _ => .bind (reporting_waitCommitted nofun) fun _ =>
      reporting_appendHistory

theorem reporting_isCallerOrAncestor : Reporting asked (isCallerOrAncestor claim c) := by
  have hloop : ∀ fuel next, Reporting asked (ancestorFrom claim c fuel next) := by
    intro fuel
    induction fuel with
    | zero =>
      intro next
      cases next with
      | none => exact .pure _
      | some id => exact fun _ _ => trivial
    | succ fuel ih =>
      intro next
      cases next with
      | none => exact .pure _
      | some id =>
        rw [ancestorFrom]
        have hrow : Reporting asked (firstRow workflowTable id) :=
          .bind (.findRow _ _) fun _ => .orAbort _ _
        refine .ite (.pure _) ?_
        split
        · exact ih _
        · exact .bind hrow fun _ => ih _
  exact .bind .read fun _ => hloop _ _

/-- The outcome of a child that had ended before is told as its row has it. -/
theorem tellsOutcome_terminalOutcome {outcome : ChildOutcome}
    (h : terminalOutcome r = some outcome) :
    r.status.isTerminal = true ∧ db.TellsOutcome r outcome := by
  unfold terminalOutcome at h
  split at h
  case h_1 hs =>
    cases h
    exact ⟨by rw [hs]; rfl, tellsOutcome_succeeded hs rfl⟩
  case h_2 hs =>
    cases h
    exact ⟨by rw [hs]; rfl, tellsOutcome_error fun _ => .failed hs⟩
  case h_3 hs =>
    cases h
    exact ⟨by rw [hs]; rfl, tellsOutcome_error fun _ => .cancelled hs (.inr rfl)⟩
  all_goals cases h

/-- A commit asked for the child that it runs. -/
theorem wp_commitChild_reports {child : ChildWorkflowCommand} (h : db.Reported asked)
    (hasked : wp (insertChild child (child.deduplicationKey.getD (ownedChildKey claim.row.id command))
        claim.row.id command (claim.row.rootWorkflowId.getD claim.row.id) now)
      (fun o _ => asked claim.row.id command o.workflowId child.kind child.version)
      (fun _ => True) db) :
    wp (commitChild claim delivered command stateJson child now) (fun _ db' => Reports asked db db')
      (fun _ => True) db := by
  simp only [commitChild, wp_bind]
  refine wp_mono (wp_and (wp_insertChild_reports h) hasked) ?_ fun _ _ => trivial
  rintro o db₁ ⟨⟨h₁, hdefines, hexisting⟩, hasked⟩
  have hrest : ∀ {db₂}, Reports asked db₁ db₂ → wp (do
      fencedUpdate workflowTable claim.row.id claim.fences
        (waitCommitted claim stateJson .waitingChild (.child o.workflowId) command delivered now)
      appendHistory claim.row.id .childWorkflowScheduled now
      deliverExistingOutcome o now) (fun _ db' => Reports asked db db') (fun _ => True) db₂ := by
    intro db₂ h₂
    simp only [wp_bind]
    refine wp_imp (wp_updateWorkflow_reports h₂.reported (fun _ _ => open_of_fences)
      (fun _ => rfl) fun r c _ _ hawaited => .inr ?_) ?_
    · have hc : some (Wait.child o.workflowId) = some (.child c) := hawaited
      cases hc
      exact ⟨_, child.kind, child.version, hasked, .refl, h₂.defines hdefines⟩
    rintro _ db₃ ⟨h₃, hfenced⟩
    have h₃' := h₂.trans h₃
    refine wp_imp (reporting_appendHistory.after h₃') fun _ db₄ h₄ => ?_
    cases o with
    | inserted id => exact h₁.trans h₄
    | existing existing =>
      simp only [deliverExistingOutcome]
      split
      · rename_i outcome houtcome
        obtain ⟨ht, htells⟩ := tellsOutcome_terminalOutcome houtcome
        exact wp_imp (wp_wakeWaitingParents_reports h₄.reported
          (h₄.preserves.ended _ _ (hexisting existing rfl) ht) rfl rfl ht htells)
          fun _ _ h₅ => h₁.trans (h₄.trans h₅)
      · exact h₁.trans h₄
  simp only [wp_bind] at hrest
  cases o with
  | inserted id =>
    simp only [ChildStart.isInserted, if_true, wp_bind, wp_pure, wp_ensure]
    exact ⟨fun _ => hrest (.refl h₁.reported), fun _ => trivial⟩
  | existing r =>
    simp only [ChildStart.isInserted, Bool.false_eq_true, if_false, wp_bind]
    refine wp_imp (reporting_isCallerOrAncestor db₁ h₁.reported) fun _ db₂ h₂ => ?_
    rw [wp_ensure]
    exact ⟨fun _ => hrest h₂, fun _ => trivial⟩

/-- The child that a claim runs with its command: the newest generation of its key, or a new
workflow if the key is free. -/
inductive ClaimedRow.Runs (claim : ClaimedRow) (child : ChildWorkflowCommand) (db : DB) :
    WorkflowId → Prop
  | inserted (hfree : ∀ r, ¬db.Keyed child.kind (claim.childKey child) r) :
      Runs claim child db db.workflows.next
  | existing {keyed existing : WorkflowRow}
      (hnewest : db.NewestKeyed child.kind (claim.childKey child) keyed existing)
      (hversion : existing.version = child.version) : Runs claim child db existing.id

/-- The child of a command is the one that the claim runs. -/
theorem wp_insertChild_runs {child : ChildWorkflowCommand} {root : WorkflowId} (hs : db.Sound)
    (hclaim : claim.row.id < db.workflows.next) :
    wp (insertChild child (claim.childKey child) claim.row.id claim.command root now)
      (fun o _ => claim.Runs child db o.workflowId) (fun _ => True) db := by
  refine wp_mono (wp_insertChild (P := fun _ _ => True) hs hclaim trivial (fun _ hfree _ => ?_) ?_)
    (fun _ _ hruns => hruns) fun _ _ => trivial
  · exact .inserted fun r hr => hfree r hr.stored hr.kind hr.key
  · intro keyed r hkeyed hkind hkey hr hnewest hversion
    exact .existing ⟨⟨hkeyed, hkind, hkey⟩, hr, hnewest⟩ hversion

/-- A commit asked for the child that it runs, if any. -/
theorem wp_commit_reports {config : CoordinatorConfig} {event : WorkflowEventRow}
    {transition : StoredTransition} (hs : db.Sound) (h : db.Reported asked)
    (hclaim : ∃ r, db.workflows.find claim.row.id = some r ∧ r.lineage = claim.row.lineage)
    (hasked : ∀ stateJson child c, transition = .runChild stateJson child →
      claim.Runs child db c → asked claim.row.id claim.command c child.kind child.version) :
    wp (commitOnConnection config claim event transition now) (fun _ db' => Reports asked db db')
      (fun _ => True) db := by
  simp only [commitOnConnection, wp_bind, wp_orAbort]
  refine ⟨fun delivered _ => ?_, fun _ => trivial⟩
  cases transition with
  | «continue» => exact reporting_commitContinue db h
  | complete => exact wp_commitComplete_reports h hclaim
  | sleepUntil => exact reporting_commitSleep db h
  | waitForApproval => exact reporting_commitApproval db h
  | runActivity => exact reporting_commitActivity db h
  | runChild stateJson child =>
    obtain ⟨r, hr, -⟩ := hclaim
    exact wp_commitChild_reports h (wp_imp (wp_insertChild_runs hs (Table.lt_next_of_find hr))
      fun o _ hruns => hasked stateJson child _ rfl hruns)

theorem reporting_recordActivationFailure {externals : Externals} {config : CoordinatorConfig}
    {message : String} :
    Reporting asked (recordActivationFailure externals config claim message now) := by
  intro db h
  simp only [recordActivationFailure, wp_bind, wp_findRow, wp_orAbort, wp_ofExcept, wp_onlyIf]
  refine ⟨fun current hcurrent => ⟨fun _ _ => ⟨fun _ _ => ?_, fun _ _ => trivial⟩,
    fun _ _ => trivial⟩, fun _ => trivial⟩
  obtain ⟨hstored, -⟩ := Option.filter_eq_some_iff.mp hcurrent
  have hid : current.id = claim.row.id := Table.key_of_find hstored
  refine wp_imp (wp_endWorkflow_reports (fun _ => open_of_fences) (fun _ => rfl)
    (fun _ _ hawaited => ⟨hawaited, rfl⟩) ⟨current, hid ▸ hstored, rfl⟩ h) ?_
  rintro _ db₁ ⟨h₁, r, ended, hended, hr, hid, hlineage⟩
  refine wp_imp (reporting_appendHistory db₁ h₁.reported) fun _ db₂ h₂ =>
    ⟨fun hexhausted => ?_, fun _ => h₁.trans h₂⟩
  have hs : ended.status = .failed := (congrArg WorkflowRow.status hended).trans (if_pos hexhausted)
  have ht : ended.status.isTerminal = true := by rw [hs]; rfl
  refine wp_imp (wp_wakeWaitingParents_reports h₂.reported (h₂.preserves.ended _ _ hr ht) hlineage
    hid ht (tellsOutcome_failed hs (congrArg WorkflowRow.errorCategory hended)
      (congrArg WorkflowRow.errorMessage hended))) fun _ _ h₃ => (h₁.trans h₂).trans h₃

end Commits

-- ════════════════════════════════════════════════════════════════════════
-- Actions
-- ════════════════════════════════════════════════════════════════════════

section Steps

variable {g g' : Aggregate} {l : Label} {r r' : WorkflowRow} {e : WorkflowEventRow}
  {P : WorkflowId → Label → Prop}

/-- The steps that neither make a workflow wait for a child nor tell it of one. -/
def Label.leavesChildren : Label → Bool
  | .inserted | .waited (.child _) | .reattached .. | .answered (.child _) => false
  | _ => true

/-- The result of a child answers the command that it names. -/
theorem answers_of_childStep (h : e.childStep = some (n, kind, version)) :
    e.answers = some n ∧ e.answersKind = some .child := by
  unfold WorkflowEventRow.childStep at h
  unfold WorkflowEventRow.answers WorkflowEventRow.answersKind
  split at h
  · rename_i hmetadata
    cases h
    rw [hmetadata]
    exact ⟨rfl, rfl⟩
  · rename_i hmetadata
    cases h
    rw [hmetadata]
    exact ⟨rfl, rfl⟩
  · cases h

/-- An event that answers no child wait is no result of a child. -/
theorem childStep_of_answersKind (h : e.answersKind ≠ some .child) : e.childStep = none := by
  cases hstep : e.childStep with
  | none => rfl
  | some step => exact absurd (answers_of_childStep (n := step.1) hstep).2 h

theorem childStep_of_answers_none (h : e.answers = none) : e.childStep = none := by
  cases hstep : e.childStep with
  | none => rfl
  | some step =>
    have hanswers := (answers_of_childStep (n := step.1) hstep).1
    rw [h] at hanswers
    cases hanswers

theorem Step.events_of_leavesChildren (h : Step g l g') (hl : l.leavesChildren = true)
    (he : e ∈ g'.events) : e ∈ g.events ∨ e.childStep = none := by
  have hadd : ∀ {g₁ : Aggregate} {e₁ : WorkflowEventRow}, e ∈ (g₁.addEvent e₁).events →
      g₁.events = g.events → e₁.childStep = none → e ∈ g.events ∨ e.childStep = none := by
    intro g₁ e₁ hmem hevents hnone
    rcases List.mem_append.mp hmem with hmem | hmem
    · exact .inl (hevents ▸ hmem)
    · rw [List.mem_singleton.mp hmem]
      exact .inr hnone
  cases h with
  | inserted => cases hl
  | history _ _ ha | continued _ _ _ ha => exact hadd he rfl (childStep_of_answers_none ha)
  | @answered _ _ _ wait _ _ _ _ _ hkind =>
    refine hadd he rfl (childStep_of_answersKind ?_)
    rw [hkind]
    cases wait with
    | child => cases hl
    | _ => exact nofun
  | answeredApproval _ _ _ _ _ _ _ _ hkind =>
    refine hadd he rfl (childStep_of_answersKind ?_)
    rw [hkind]
    exact nofun
  | succeeded _ _ _ _ _ _ hres =>
    refine hadd he rfl ?_
    rw [WorkflowEventRow.childStep, hres]
  | _ => exact .inl he

/-- A step that leaves the children alone keeps the child that a row waits for. -/
theorem Step.waits_of_leavesChildren (h : Step g l g') (hl : l.leavesChildren = true)
    (hr' : g'.row = some r') (hw : r'.awaited = some (.child c)) :
    ∃ r, g.row = some r ∧ r.awaited = some (.child c) ∧ r.commandSequence = r'.commandSequence := by
  cases h with
  | inserted => cases hl
  | history | discarded | activityClaimed | renewed | released | settled => exact ⟨r', hr', hw, rfl⟩
  | claimed hr | recovered hr | continued hr | completed hr | activationFailed hr | paused hr
  | revoked hr | resumed hr | superseded hr | deadLettered hr | quarantined hr =>
    obtain rfl := Option.some_inj.mp hr'
    exact ⟨_, hr, hw, rfl⟩
  | slept | waitedApproval | waitedActivity | answered | answeredApproval | retried | succeeded =>
    obtain rfl := Option.some_inj.mp hr'
    cases hw
  | waitedChild | reattached => cases hl
  | cancelled hr _ _ clear =>
    obtain rfl := Option.some_inj.mp hr'
    cases clear with
    | true => cases hw
    | false => exact ⟨_, hr, hw, rfl⟩

section Run

variable {P : Label → Prop} (hP : ∀ l, P l → l.leavesChildren = true)

include hP

theorem Steps.events_of_leavesChildren (h : Steps P g g') (he : e ∈ g'.events) :
    e ∈ g.events ∨ e.childStep = none := by
  induction h with
  | refl => exact .inl he
  | tail _ hstep ih =>
    obtain ⟨l, hl, hstep⟩ := hstep
    rcases hstep.events_of_leavesChildren (hP l hl) he with he | hnone
    · exact ih he
    · exact .inr hnone

theorem Steps.waits_of_leavesChildren (h : Steps P g g') (hr' : g'.row = some r')
    (hw : r'.awaited = some (.child c)) :
    ∃ r, g.row = some r ∧ r.awaited = some (.child c) ∧ r.commandSequence = r'.commandSequence := by
  induction h generalizing r' with
  | refl => exact ⟨r', hr', hw, rfl⟩
  | tail _ hstep ih =>
    obtain ⟨l, hl, hstep⟩ := hstep
    obtain ⟨r₁, hr₁, hw₁, hn₁⟩ := hstep.waits_of_leavesChildren (hP l hl) hr' hw
    obtain ⟨r, hr, hw, hn⟩ := ih hr₁ hw₁
    exact ⟨r, hr, hw, hn.trans hn₁⟩

end Run

theorem Label.ne_inserted_of_leavesChildren (h : l.leavesChildren = true) : l ≠ .inserted := by
  rintro rfl
  cases h

/-- Steps that leave the children alone report nothing new. -/
theorem Evolves.reports (h : Evolves P db db') (hP : ∀ w l, P w l → l.leavesChildren = true)
    (hdb : db.Reported asked) : Reports asked db db' := by
  have hlineage : db'.lineage = db.lineage :=
    h.lineage fun w l hl => Label.ne_inserted_of_leavesChildren (hP w l hl)
  have hpreserves : Preserves db db' := by
    refine ⟨fun c r => h.terminal_row, fun c r hr => ?_, fun e he => ?_⟩
    · exact DB.exists_row ((congrFun hlineage c).trans (lineage_of_find hr))
    · have hmem : e ∈ (db.aggregate e.workflowId).events :=
        List.mem_filter.mpr ⟨he, beq_self_eq_true _⟩
      exact List.mem_of_mem_filter ((h.events_extend e.workflowId).subset hmem)
  refine .of_preserves hdb hpreserves (fun w c n hw => .inl ?_) (fun e he => ?_)
    fun w r p hr _ => .inl ?_
  · obtain ⟨r', hr', hawaited, hn⟩ := hw
    obtain ⟨r, hr, hawaited, hn'⟩ := (h.steps w).waits_of_leavesChildren (hP w) hr' hawaited
    exact ⟨r, hr, hawaited, hn'.trans hn⟩
  · have hmem : e ∈ (db'.aggregate e.workflowId).events :=
      List.mem_filter.mpr ⟨he, beq_self_eq_true _⟩
    rcases (h.steps e.workflowId).events_of_leavesChildren (hP _) hmem with hold | hnone
    · exact .inl (List.mem_of_mem_filter hold)
    · refine .inr fun n kind version hstep => ?_
      rw [hnone] at hstep
      cases hstep
  · exact DB.exists_row ((congrFun hlineage w).symm.trans (lineage_of_find hr))

end Steps

section Exec

variable {externals : Externals} {s s' : Sys} {action : Action}

theorem reporting_start {workflow : PreparedWorkflowStart} {options : ApplicationStartOptions} :
    Reporting asked (start workflow options now) :=
  .bind (.ofExcept _) fun _ _ h => wp_imp (wp_insertPrepared_reports h
    (by simp [toStartOptions_fresh])) fun _ _ h₁ => h₁.1

theorem reporting_startPrepared {prepared : PreparedWorkflowStart}
    {options : ApplicationStartOptions} : Reporting asked (startPrepared prepared options now) :=
  .bind (.ofExcept _) fun _ _ h => wp_imp (wp_insertPrepared_reports h
    (by simp [toStartOptions_fresh])) fun _ _ h₁ => h₁.1

theorem reporting_startOrRestartRecoverable {workflow : PreparedWorkflowStart}
    {options : ApplicationStartOptions} :
    Reporting asked (startOrRestartRecoverable workflow options now) :=
  .bind (.ofExcept _) fun _ => reporting_recoverableStartIn (toStartOptions_fresh options)

theorem Reporting.transact {x : Tx α} (hx : Reporting asked x) (h : s.db.Reported asked)
    (hok : s.transact' x = .ok s') : Reports asked s.db s'.db := by
  obtain ⟨a, db', hreturns, rfl⟩ := transact'_ok hok
  exact wp_ok (hx s.db h) hreturns

/-- An action reports what happened, if a commit asked for the child that it runs. -/
theorem exec_reports (h : s.Inv) (hok : exec externals s action = .ok s')
    (hasked : ∀ i config stateJson child now claim event c,
      action = .commit i config (.runChild stateJson child) now →
      s.activations[i]? = some (claim, event) → claim.Runs child s.db c →
      asked claim.row.id claim.command c child.kind child.version)
    (hdb : s.db.Reported asked) : Reports asked s.db s'.db := by
  have hleads := exec_leads h hok
  cases action with
  | start => exact reporting_start.transact hdb hok
  | startPrepared => exact reporting_startPrepared.transact hdb hok
  | recoverableStart => exact reporting_startOrRestartRecoverable.transact hdb hok
  | restart => exact reporting_restart.transact hdb hok
  | cancel => exact reporting_cancel.transact hdb hok
  | cancelWorkflow => exact reporting_cancelWorkflow.transact hdb hok
  | commit i config transition now =>
    rw [exec] at hok
    obtain ⟨⟨claim, event⟩, hi, hok⟩ := nth_bind_ok hok
    obtain ⟨hclaim, -⟩ := h.activations _ (List.mem_of_getElem? hi)
    obtain ⟨a, db', hreturns, rfl⟩ := transact'_ok hok
    refine wp_ok (wp_commit_reports h.sound hdb (DB.exists_row (h.claims _ hclaim).2.lineage) ?_)
      hreturns
    rintro stateJson child c rfl
    exact hasked i config stateJson child now claim event c rfl hi
  | failActivation =>
    rw [exec] at hok
    obtain ⟨claim, -, hok⟩ := nth_bind_ok hok
    exact reporting_recordActivationFailure.transact hdb hok
  | _ =>
    refine hleads.evolves.reports (fun w l hl => ?_) hdb
    have hpermits := hl.1
    cases l with
    | inserted | reattached | waited => cases hpermits
    | answered wait =>
      cases wait with
      | child => cases hpermits
      | _ => rfl
    | _ => rfl

end Exec

end DurableWorkflows
