import DurableWorkflows.Base.JsonText
import DurableWorkflows.Base.Relational
import DurableWorkflows.Error.Truncation
import DurableWorkflows.Persistence.Dialect
import DurableWorkflows.Store

/-!
# Error texts and their columns

The categories, messages and reasons of the durable tables are columns of 64 and of 2,048
characters on both backends. Postgres rejects a text with a U+0000; MySQL stores it.

Two databases that differ in these texts only answer every statement alike, so that what a
statement does never depends on the text of an error.

## Main definitions

- `Dialect.fits`: the texts that a column takes
- `DB.TextsFit`: a database whose error texts their columns took
- `Dialect.Commits`: a transaction that returns, with every text in its column
- `DB.Restates`: a database whose error texts are other ones
- `NulBefore`: a U+0000 in the first bytes of a text

## Main results

- `fits_truncateUtf8`: a truncated text and the columns
- `restates_updateWorkflow`, `restates_updateActivity`, `restates_updateOpenAttempt`,
  `restates_appendHistoryEvent`, `restates_wakeWaitingParents`: what is common to two runs
-/

namespace DurableWorkflows

open Transaction

-- ════════════════════════════════════════════════════════════════════════
-- Columns
-- ════════════════════════════════════════════════════════════════════════

/-- `VARCHAR(64)`: the categories. -/
def errorCategoryWidth : ℕ := 64

/-- `VARCHAR(2048)`: the messages and the reasons. -/
def errorMessageWidth : ℕ := 2048

/-- The texts of a backend: none of Postgres has a U+0000. -/
def Dialect.stores (dialect : Dialect) (text : List Char) : Prop :=
  dialect = .postgres → '\x00' ∉ text

/-- The values of a nullable column of `width` characters. -/
def Dialect.fits (dialect : Dialect) (width : ℕ) (text : Option String) : Prop :=
  ∀ t ∈ text, t.length ≤ width ∧ dialect.stores t.toList

/-- `serde_json::to_string` of `WorkflowEvent::ChildFailed`. -/
def childFailedJson (commandSequence : ℕ) (kind : String) (version : ℤ)
    (category message : String) : List Char :=
  "\x7b\"type\":\"childFailed\",\"data\":\x7b\"command_sequence\":".toList ++
    ((toString (commandSequence : ℤ)).toList ++ (",\"kind\":".toList ++
    (JsonText.quote kind.toList ++ (",\"version\":".toList ++
    ((toString version).toList ++ (",\"category\":".toList ++
    (JsonText.quote category.toList ++ (",\"message\":".toList ++
    (JsonText.quote message.toList ++ ['\x7d', '\x7d'])))))))))

def WorkflowRow.TextFits (dialect : Dialect) (row : WorkflowRow) : Prop :=
  dialect.fits errorCategoryWidth row.errorCategory ∧
    dialect.fits errorMessageWidth row.errorMessage

def ActivityRow.TextFits (dialect : Dialect) (row : ActivityRow) : Prop :=
  dialect.fits errorCategoryWidth row.lastErrorCategory ∧
    dialect.fits errorMessageWidth row.lastErrorMessage

def ActivityAttemptRow.TextFits (dialect : Dialect) (row : ActivityAttemptRow) : Prop :=
  dialect.fits errorCategoryWidth row.errorCategory ∧
    dialect.fits errorMessageWidth row.errorMessage

/-- The reason of an event, and the failure of a child that it delivers. -/
def WorkflowEventRow.TextFits (dialect : Dialect) (row : WorkflowEventRow) : Prop :=
  dialect.fits errorMessageWidth row.reason ∧
    ∀ commandSequence kind version category message,
      row.metadata = some (.event (.childFailed commandSequence kind version category message)) →
        dialect.stores (childFailedJson commandSequence kind version category message)

/-- Every error text is one that its column takes. -/
structure DB.TextsFit (dialect : Dialect) (db : DB) : Prop where
  workflows : ∀ i r, db.workflows.find i = some r → r.TextFits dialect
  activities : ∀ i r, db.activities.find i = some r → r.TextFits dialect
  attempts : ∀ i n r, db.attempts i n = some r → r.TextFits dialect
  events : ∀ e ∈ db.events, e.TextFits dialect

/-- The transaction returns, and the backend took every text it wrote. No statement writes a
text over one that an earlier statement of its transaction wrote. -/
def Dialect.Commits {α : Type} (dialect : Dialect) (x : Tx α) (db : DB) : Prop :=
  ∃ a db', x db = .ok (a, db') ∧ db'.TextsFit dialect

theorem Dialect.fits_none (dialect : Dialect) (width : ℕ) : dialect.fits width none := nofun

theorem Dialect.fits_some {dialect : Dialect} {width : ℕ} {text : String} :
    dialect.fits width (some text) ↔ text.length ≤ width ∧ dialect.stores text.toList := by
  refine ⟨fun h => h text rfl, fun h t ht => ?_⟩
  cases ht
  exact h

/-- The text of a child's failure has no U+0000, whatever the child said. -/
theorem nul_notMem_childFailedJson (commandSequence : ℕ) (kind : String) (version : ℤ)
    (category message : String) :
    '\x00' ∉ childFailedJson commandSequence kind version category message := by
  have hint : ∀ n : ℤ, '\x00' ∉ (toString n).toList := by
    intro n hn
    rcases Decimal.mem_toList hn with h | h
    · exact absurd h (by decide)
    · exact absurd h (by decide)
  unfold childFailedJson
  simp only [List.mem_append, not_or]
  exact ⟨by decide, hint _, by decide, JsonText.nul_notMem_quote _, by decide, hint _, by decide,
    JsonText.nul_notMem_quote _, by decide, JsonText.nul_notMem_quote _, by decide⟩

-- ════════════════════════════════════════════════════════════════════════
-- Truncated texts
-- ════════════════════════════════════════════════════════════════════════

/-- The text has a U+0000 with fewer than `limit` bytes before it. -/
def NulBefore (limit : ℕ) (text : String) : Prop :=
  ∃ pre post, text.toList = pre ++ '\x00' :: post ∧ String.utf8Len pre < limit

theorem not_nulBefore_empty {limit : ℕ} : ¬NulBefore limit "" := by
  rintro ⟨pre, post, hsplit, -⟩
  cases pre <;> cases hsplit

/-- A character is taken exactly if it ends within the limit. -/
theorem mem_takeBytes {c : Char} (chars : List Char) (maxBytes : ℕ) :
    c ∈ takeBytes chars maxBytes ↔
      ∃ pre post, chars = pre ++ c :: post ∧ String.utf8Len pre + c.utf8Size ≤ maxBytes := by
  fun_induction takeBytes chars maxBytes with
  | case1 => simp
  | case2 d chars maxBytes hle ih =>
    rw [List.mem_cons, ih]
    constructor
    · rintro (rfl | ⟨pre, post, rfl, hbytes⟩)
      · exact ⟨[], chars, rfl, by simpa using hle⟩
      · refine ⟨d :: pre, post, rfl, ?_⟩
        rw [String.utf8Len_cons]
        omega
    · rintro ⟨pre, post, hsplit, hbytes⟩
      cases pre with
      | nil =>
        cases hsplit
        exact .inl rfl
      | cons p pre =>
        cases hsplit
        rw [String.utf8Len_cons] at hbytes
        exact .inr ⟨pre, post, rfl, by omega⟩
  | case3 d chars maxBytes hlt =>
    refine ⟨(fun h => by cases h), ?_⟩
    rintro ⟨pre, post, hsplit, hbytes⟩
    cases pre with
    | nil =>
      cases hsplit
      exact absurd hbytes (by simpa using hlt)
    | cons p pre =>
      cases hsplit
      rw [String.utf8Len_cons] at hbytes
      omega

/-- Bytes bound characters. -/
theorem length_le_utf8Len (chars : List Char) : chars.length ≤ String.utf8Len chars := by
  induction chars with
  | nil => exact le_rfl
  | cons c chars ih =>
    have := c.utf8Size_pos
    rw [List.length_cons, String.utf8Len_cons]
    omega

theorem length_truncateUtf8_le (text : String) (limit : ℕ) :
    (truncateUtf8 text limit).length ≤ limit := by
  have hbytes : String.utf8Len (truncateUtf8 text limit).toList ≤ limit := by
    unfold truncateUtf8
    by_cases hfits : text.utf8ByteSize ≤ limit
    · rw [if_pos hfits, String.utf8Len_toList]
      exact hfits
    · rw [if_neg hfits, String.toList_ofList]
      exact utf8Len_takeBytes_le _ _
  rw [← String.length_toList]
  exact (length_le_utf8Len _).trans hbytes

/-- A U+0000 stays exactly if fewer than `limit` bytes stand before it. -/
theorem nul_mem_truncateUtf8 (text : String) (limit : ℕ) :
    '\x00' ∈ (truncateUtf8 text limit).toList ↔ NulBefore limit text := by
  unfold truncateUtf8 NulBefore
  by_cases hfits : text.utf8ByteSize ≤ limit
  · rw [if_pos hfits]
    refine ⟨fun h => ?_, fun ⟨pre, post, hsplit, _⟩ => ?_⟩
    · obtain ⟨pre, post, hsplit⟩ := List.append_of_mem h
      refine ⟨pre, post, hsplit, ?_⟩
      have htotal := String.utf8Len_toList text
      rw [hsplit, String.utf8Len_append, String.utf8Len_cons] at htotal
      have : Char.utf8Size '\x00' = 1 := rfl
      omega
    · rw [hsplit]
      exact List.mem_append_right _ List.mem_cons_self
  · rw [if_neg hfits, String.toList_ofList, mem_takeBytes]
    exact Iff.rfl

/-- **Truncated texts**: their length always fits, and on Postgres a U+0000 that is kept does
not. -/
theorem fits_truncateUtf8 {dialect : Dialect} {limit : ℕ} {text : String} :
    dialect.fits limit (some (truncateUtf8 text limit)) ↔
      dialect = .mysql ∨ ¬NulBefore limit text := by
  rw [Dialect.fits_some, Dialect.stores, nul_mem_truncateUtf8]
  cases dialect with
  | mysql => exact ⟨fun _ => .inl rfl, fun _ => ⟨length_truncateUtf8_le _ _, nofun⟩⟩
  | postgres =>
    refine ⟨fun h => .inr (h.2 rfl), fun h => ⟨length_truncateUtf8_le _ _, fun _ => ?_⟩⟩
    exact h.resolve_left nofun

-- ════════════════════════════════════════════════════════════════════════
-- Other texts
-- ════════════════════════════════════════════════════════════════════════

/-- Rows that agree but for what `bare` leaves out, the second of which fits if the first does. -/
structure Restated {α : Type} (bare : α → α) (Fits : α → Prop) (r r' : α) : Prop where
  bare : bare r = bare r'
  fits : Fits r → Fits r'

theorem Restated.refl {α : Type} {bare : α → α} {Fits : α → Prop} (r : α) :
    Restated bare Fits r r := ⟨rfl, id⟩

/-- A workflow without its error texts. -/
def WorkflowRow.bare (row : WorkflowRow) : WorkflowRow :=
  { row with errorCategory := none, errorMessage := none }

def ActivityRow.bare (row : ActivityRow) : ActivityRow :=
  { row with lastErrorCategory := none, lastErrorMessage := none }

def ActivityAttemptRow.bare (row : ActivityAttemptRow) : ActivityAttemptRow :=
  { row with errorCategory := none, errorMessage := none }

def WorkflowEventRow.bare (row : WorkflowEventRow) : WorkflowEventRow :=
  { row with metadata := none, reason := none }

theorem WorkflowRow.exists_of_bare {r r' : WorkflowRow} (h : r.bare = r'.bare) :
    ∃ category message, r' = { r with errorCategory := category, errorMessage := message } := by
  refine ⟨r'.errorCategory, r'.errorMessage, ?_⟩
  calc r' = { r'.bare with
        errorCategory := r'.errorCategory, errorMessage := r'.errorMessage } := rfl
    _ = { r.bare with errorCategory := r'.errorCategory, errorMessage := r'.errorMessage } := by
      rw [h]
    _ = { r with errorCategory := r'.errorCategory, errorMessage := r'.errorMessage } := rfl

theorem ActivityRow.exists_of_bare {r r' : ActivityRow} (h : r.bare = r'.bare) :
    ∃ category message,
      r' = { r with lastErrorCategory := category, lastErrorMessage := message } := by
  refine ⟨r'.lastErrorCategory, r'.lastErrorMessage, ?_⟩
  calc r' = { r'.bare with
        lastErrorCategory := r'.lastErrorCategory, lastErrorMessage := r'.lastErrorMessage } := rfl
    _ = { r.bare with
        lastErrorCategory := r'.lastErrorCategory, lastErrorMessage := r'.lastErrorMessage } := by
      rw [h]
    _ = { r with
        lastErrorCategory := r'.lastErrorCategory, lastErrorMessage := r'.lastErrorMessage } := rfl

theorem ActivityAttemptRow.exists_of_bare {r r' : ActivityAttemptRow} (h : r.bare = r'.bare) :
    ∃ category message, r' = { r with errorCategory := category, errorMessage := message } := by
  refine ⟨r'.errorCategory, r'.errorMessage, ?_⟩
  calc r' = { r'.bare with
        errorCategory := r'.errorCategory, errorMessage := r'.errorMessage } := rfl
    _ = { r.bare with errorCategory := r'.errorCategory, errorMessage := r'.errorMessage } := by
      rw [h]
    _ = { r with errorCategory := r'.errorCategory, errorMessage := r'.errorMessage } := rfl

abbrev WorkflowRow.Restated (dialect : Dialect) : WorkflowRow → WorkflowRow → Prop :=
  DurableWorkflows.Restated WorkflowRow.bare (WorkflowRow.TextFits dialect)

abbrev ActivityRow.Restated (dialect : Dialect) : ActivityRow → ActivityRow → Prop :=
  DurableWorkflows.Restated ActivityRow.bare (ActivityRow.TextFits dialect)

abbrev ActivityAttemptRow.Restated (dialect : Dialect) :
    ActivityAttemptRow → ActivityAttemptRow → Prop :=
  DurableWorkflows.Restated ActivityAttemptRow.bare (ActivityAttemptRow.TextFits dialect)

abbrev WorkflowEventRow.Restated (dialect : Dialect) :
    WorkflowEventRow → WorkflowEventRow → Prop :=
  DurableWorkflows.Restated WorkflowEventRow.bare (WorkflowEventRow.TextFits dialect)

/-- The same rows but for their error texts, which fit if those of the first database do. -/
structure DB.Restates (dialect : Dialect) (db db' : DB) : Prop where
  workflows : Table.Related (WorkflowRow.Restated dialect) db.workflows db'.workflows
  activities : Table.Related (ActivityRow.Restated dialect) db.activities db'.activities
  attempts : ∀ i n, Option.Rel (ActivityAttemptRow.Restated dialect) (db.attempts i n)
    (db'.attempts i n)
  events : List.Forall₂ (WorkflowEventRow.Restated dialect) db.events db'.events

namespace DB.Restates

variable {dialect : Dialect} {db db' : DB}

theorem refl (dialect : Dialect) (db : DB) : db.Restates dialect db where
  workflows := .refl Restated.refl _
  activities := .refl Restated.refl _
  attempts i n := by
    cases db.attempts i n with
    | none => exact .none
    | some r => exact .some (.refl r)
  events := List.forall₂_same.mpr fun e _ => .refl e

/-- A database with the texts of one that fits, or with others that fit, fits. -/
theorem textsFit (h : db.Restates dialect db') (hdb : db.TextsFit dialect) :
    db'.TextsFit dialect := by
  refine ⟨fun i r' hr' => ?_, fun i r' hr' => ?_, fun i n r' hr' => ?_, fun e' he' => ?_⟩
  · have hrow := h.workflows.rows i
    rw [hr'] at hrow
    cases hr : db.workflows.find i <;> rw [hr] at hrow <;> cases hrow
    rename_i r hrr'
    exact hrr'.fits (hdb.workflows i r hr)
  · have hrow := h.activities.rows i
    rw [hr'] at hrow
    cases hr : db.activities.find i <;> rw [hr] at hrow <;> cases hrow
    rename_i r hrr'
    exact hrr'.fits (hdb.activities i r hr)
  · have hrow := h.attempts i n
    rw [hr'] at hrow
    cases hr : db.attempts i n <;> rw [hr] at hrow <;> cases hrow
    rename_i r hrr'
    exact hrr'.fits (hdb.attempts i n r hr)
  · obtain ⟨n, hn, rfl⟩ := List.getElem_of_mem he'
    have hlength := h.events.length_eq
    have hpair := (List.forall₂_iff_get.mp h.events).2 n (by omega) hn
    exact hpair.fits (hdb.events _ (List.getElem_mem _))

end DB.Restates

section Statements

variable {dialect : Dialect} {db db' : DB} {now : DbMillis}

/-- Fenced updates of one row, whose fences do not read the error texts. -/
theorem wp₂_fencedUpdate {α : Type} [Keyed α] {V : α → α → Prop} {T : TableOf DB α} {i : ℕ}
    {p q : α → Bool} {f g : α → α} {hf hg} {Q : Unit → DB → Unit → DB → Prop}
    (h : Table.Related V (T.get db) (T.get db')) (hp : ∀ r r', V r r' → p r = q r')
    (hV : ∀ r r', V r r' → V (f r) (g r'))
    (hQ : ∀ t u, Table.Related V t u → Q () (T.set t db) () (T.set u db')) :
    wp₂ (fencedUpdate T i p f hf) (fencedUpdate T i q g hg) Q db db' := by
  unfold fencedUpdate
  refine wp₂_bind (wp₂_updateRow h hp (fun r r' _ => hV r r') (fun hchanged => ?_) ?_)
  · exact wp₂_ensure Iff.rfl fun _ => hQ _ _ hchanged
  · exact wp₂_ensure Iff.rfl fun hzero => absurd hzero Nat.zero_ne_one

theorem restates_updateWorkflow {i : ℕ} {p : WorkflowRow → Bool}
    {f g : WorkflowRow → WorkflowRow} {hf hg} (h : db.Restates dialect db')
    (hp : ∀ r, p r = p r.bare)
    (hV : ∀ r r', r.Restated dialect r' → (f r).Restated dialect (g r')) :
    wp₂ (fencedUpdate workflowTable i p f hf) (fencedUpdate workflowTable i p g hg)
      (fun _ s _ t => s.Restates dialect t) db db' := by
  refine wp₂_fencedUpdate h.workflows (fun r r' hrr' => ?_) hV
    fun t u htu => { h with workflows := htu }
  rw [hp r, hrr'.bare, ← hp r']

theorem restates_updateActivity {i : ℕ} {p : ActivityRow → Bool}
    {f g : ActivityRow → ActivityRow} {hf hg} (h : db.Restates dialect db')
    (hp : ∀ r, p r = p r.bare)
    (hV : ∀ r r', r.Restated dialect r' → (f r).Restated dialect (g r')) :
    wp₂ (fencedUpdate activityTable i p f hf) (fencedUpdate activityTable i p g hg)
      (fun _ s _ t => s.Restates dialect t) db db' := by
  refine wp₂_fencedUpdate h.activities (fun r r' hrr' => ?_) hV
    fun t u htu => { h with activities := htu }
  rw [hp r, hrr'.bare, ← hp r']

theorem restates_updateOpenAttempt {i : ActivityId} {n : ℕ} {token : LeaseToken}
    {f g : ActivityAttemptRow → ActivityAttemptRow} (h : db.Restates dialect db')
    (hV : ∀ r r', r.Restated dialect r' → (f r).Restated dialect (g r')) :
    wp₂ (updateOpenAttempt i n token f) (updateOpenAttempt i n token g)
      (fun _ s _ t => s.Restates dialect t) db db' := by
  unfold updateOpenAttempt
  refine wp₂_bind (wp₂_read.mpr (wp₂_bind (wp₂_orAbort
    (V := ActivityAttemptRow.Restated dialect) ?_ fun r r' hrr' => (wp₂_modify _ _).mpr ?_)))
  · have hrow := h.attempts i n
    cases hr : db.attempts i n <;> cases hr' : db'.attempts i n <;> rw [hr, hr'] at hrow <;>
      cases hrow
    · exact .none
    · rename_i r r' hrr'
      obtain ⟨category, message, rfl⟩ := ActivityAttemptRow.exists_of_bare hrr'.bare
      rw [Option.filter_some, Option.filter_some]
      dsimp only
      split
      · exact .some hrr'
      · exact .none
  · refine { h with attempts := fun j m => ?_ }
    show Option.Rel _ (if j = i ∧ m = n then some (f r) else db.attempts j m)
      (if j = i ∧ m = n then some (g r') else db'.attempts j m)
    by_cases hjm : j = i ∧ m = n
    · rw [if_pos hjm, if_pos hjm]
      exact .some (hV r r' hrr')
    · rw [if_neg hjm, if_neg hjm]
      exact h.attempts j m

-- ════════════════════════════════════════════════════════════════════════
-- The event log
-- ════════════════════════════════════════════════════════════════════════

theorem bare_eventsOf (h : db.Restates dialect db') (w : WorkflowId) :
    (db.eventsOf w).map WorkflowEventRow.bare = (db'.eventsOf w).map WorkflowEventRow.bare := by
  have hfilter : ∀ events : List WorkflowEventRow,
      (events.filter fun e => e.workflowId == w).map WorkflowEventRow.bare =
        (events.map WorkflowEventRow.bare).filter fun e => e.workflowId == w := by
    intro events
    rw [List.filter_map]
    rfl
  have hevents : db.events.map WorkflowEventRow.bare = db'.events.map WorkflowEventRow.bare := by
    rw [← List.forall₂_eq_eq_eq, List.forall₂_map_left_iff, List.forall₂_map_right_iff]
    exact h.events.imp fun _ _ he => he.bare
  unfold DB.eventsOf
  rw [hfilter, hfilter, hevents]

theorem restates_nextEventSequence {w : WorkflowId} {Q : ℕ → DB → ℕ → DB → Prop}
    (h : db.Restates dialect db') (hQ : ∀ n, Q n db n db') :
    wp₂ (nextEventSequence w) (nextEventSequence w) Q db db' := by
  have hsequences : (db.eventsOf w).map (·.sequence) = (db'.eventsOf w).map (·.sequence) := by
    have := congrArg (List.map WorkflowEventRow.sequence) (bare_eventsOf h w)
    rw [List.map_map, List.map_map] at this
    exact this
  unfold nextEventSequence
  refine wp₂_bind (wp₂_read.mpr ?_)
  rw [hsequences]
  exact wp₂_orAbort_self _ fun n _ => hQ n

/-- Events that agree but for their texts. -/
theorem restates_appendEvent {e e' : WorkflowEventRow} (h : db.Restates dialect db')
    (he : e.Restated dialect e') :
    wp₂ (appendEvent e) (appendEvent e') (fun _ s _ t => s.Restates dialect t) db db' := by
  have hworkflow : e.workflowId = e'.workflowId := (congrArg WorkflowEventRow.workflowId he.bare :)
  have hsequence : e.sequence = e'.sequence := (congrArg WorkflowEventRow.sequence he.bare :)
  have hdelivery : e.deliverySequence = e'.deliverySequence :=
    (congrArg WorkflowEventRow.deliverySequence he.bare :)
  -- what the unique keys read of an event, its texts left out or not
  have hall : ∀ P : WorkflowEventRow → Prop, (∀ x, P x ↔ P x.bare) →
      ((∀ x ∈ db.eventsOf e.workflowId, P x) ↔ ∀ x ∈ db'.eventsOf e'.workflowId, P x) := by
    intro P hP
    have hmap : ∀ events : List WorkflowEventRow,
        (∀ x ∈ events, P x) ↔ ∀ x ∈ events.map WorkflowEventRow.bare, P x := by
      intro events
      rw [List.forall_mem_map]
      exact forall₂_congr fun x _ => hP x
    rw [hmap, hmap (db'.eventsOf e'.workflowId), bare_eventsOf h, hworkflow]
  unfold appendEvent
  refine wp₂_bind (wp₂_read.mpr (wp₂_bind (wp₂_ensure ?_ fun _ => wp₂_bind (wp₂_ensure ?_
    fun _ => (wp₂_modify _ _).mpr ?_))))
  · rw [hsequence]
    exact hall _ fun _ => Iff.rfl
  · rw [hdelivery]
    exact hall _ fun _ => Iff.rfl
  · exact { h with events := List.rel_append h.events (.cons he .nil) }

theorem restates_appendHistoryEvent {w : WorkflowId} {eventType : EventType}
    {actorType : ActorType} {actorId reason reason' : Option String}
    (h : db.Restates dialect db')
    (hreason : dialect.fits errorMessageWidth reason → dialect.fits errorMessageWidth reason') :
    wp₂ (appendHistoryEvent w eventType actorType actorId reason none now)
      (appendHistoryEvent w eventType actorType actorId reason' none now)
      (fun _ s _ t => s.Restates dialect t) db db' := by
  unfold appendHistoryEvent
  refine wp₂_bind (restates_nextEventSequence h fun n => restates_appendEvent h ⟨rfl, ?_⟩)
  exact fun hfits => ⟨hreason hfits.1, nofun⟩

/-- The event that tells a parent what its child failed with always fits. -/
theorem restates_appendChildFailed {w : WorkflowId} {n command : ℕ} {kind : String} {version : ℤ}
    {category category' message message' : String} (h : db.Restates dialect db') :
    wp₂ (appendDelivery w n .childFailed
        (some (.event (.childFailed command kind version category message))) .system none none now)
      (appendDelivery w n .childFailed
        (some (.event (.childFailed command kind version category' message'))) .system none none
        now)
      (fun _ s _ t => s.Restates dialect t) db db' := by
  unfold appendDelivery
  refine wp₂_bind (restates_nextEventSequence h fun n => restates_appendEvent h ⟨rfl, ?_⟩)
  refine fun _ => ⟨dialect.fits_none _, fun _ _ _ _ _ heq _ => ?_⟩
  cases heq
  exact nul_notMem_childFailedJson _ _ _ _ _

-- ════════════════════════════════════════════════════════════════════════
-- The parents of a failed child
-- ════════════════════════════════════════════════════════════════════════

theorem restates_wakeLoadedParent {parent parent' : WorkflowRow} {childId : WorkflowId}
    {kind : String} {version : ℤ} {error error' : String × String}
    (h : db.Restates dialect db')
    (hparent : parent.Restated dialect parent') :
    wp₂ (wakeLoadedParentOnChildTerminal parent childId kind version (.error error) now)
      (wakeLoadedParentOnChildTerminal parent' childId kind version (.error error') now)
      (fun _ s _ t => s.Restates dialect t) db db' := by
  obtain ⟨category, message, rfl⟩ := WorkflowRow.exists_of_bare hparent.bare
  have hevent : ∀ error : String × String, (Transaction.ofExcept
      (childOutcomeEvent parent.commandSequence kind version (.error error)) :
        Tx (EventType × WorkflowEvent)) = pure (.childFailed,
          .childFailed parent.commandSequence kind version error.1 error.2) := fun _ => rfl
  unfold wakeLoadedParentOnChildTerminal
  dsimp only
  refine wp₂_ite (fun _ => wp₂_bind (wp₂_ofExcept _ fun wait _ => ?_)) fun _ =>
    wp₂_bind ((wp₂_pure _ _).mpr h)
  refine wp₂_ite (fun _ => wp₂_bind ?_) fun _ => h
  rw [hevent, hevent]
  refine (wp₂_pure _ _).mpr (wp₂_bind (wp₂_orAbort_self _ fun n _ => wp₂_bind ?_))
  refine wp₂_imp (restates_appendChildFailed h) fun _ s _ t hst => ?_
  refine restates_updateWorkflow hst (fun _ => rfl) fun r r' hrr' => ⟨?_, hrr'.fits⟩
  obtain ⟨category, message, rfl⟩ := WorkflowRow.exists_of_bare hrr'.bare
  rfl

theorem restates_wakeWaitingParents {child : WorkflowRow} {error error' : String × String}
    (h : db.Restates dialect db') :
    wp₂ (wakeWaitingParentsOnChildTerminal child (.error error) now)
      (wakeWaitingParentsOnChildTerminal child (.error error') now)
      (fun _ s _ t => s.Restates dialect t) db db' := by
  have hparents : ∀ r r' : WorkflowRow, r.Restated dialect r' →
      (r.waitKind == some .child && r.waitReferenceId == some child.id &&
        r.status.awaitsChild) = (r'.waitKind == some .child &&
          r'.waitReferenceId == some child.id && r'.status.awaitsChild) := by
    intro r r' hrr'
    obtain ⟨category, message, rfl⟩ := WorkflowRow.exists_of_bare hrr'.bare
    rfl
  unfold wakeWaitingParentsOnChildTerminal
  refine wp₂_bind (wp₂_selectRows (T := workflowTable) h.workflows hparents fun rows rows' hrows => ?_)
  exact wp₂_forEach hrows (fun _ _ _ _ hrr' hst => restates_wakeLoadedParent hst hrr') h

end Statements

end DurableWorkflows
