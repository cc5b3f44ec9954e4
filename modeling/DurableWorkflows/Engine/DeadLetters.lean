import DurableWorkflows.Admin.Metrics
import DurableWorkflows.Engine.Quarantine
import DurableWorkflows.Engine.Replacements
import DurableWorkflows.Observability
import Mathlib.Data.Set.Card

/-!
# Open dead letters

The health scan and the topic metrics both look for the dead-lettered activities that an
operator still has to act on. They look up the same roots, the metrics in chunks and the
scan in one statement; and the metrics leave out the workflows that are over, which the
scan does not. So the scan reports a dead letter of a finished workflow for ever, and it
stops altogether when too many dead letters have gathered.

## Main definitions

- `DB.ChainSucceeded`, `DB.OpenDeadLetter`: what both of them are after

## Main results

- `run_deadLetters`: the metrics count the open dead letters, and when the scan agrees
- `rootLookups_fit`: when the lookups fit their statements
-/

namespace DurableWorkflows

open Transaction Pointers

variable {db : DB} {dialect : Dialect} {roots : List ActivityId} {keys : List String}
  {a b root : ActivityId} {act : ActivityRow} {topic : String} {now : DbMillis}

/-- An activity of the same replacement chain succeeded. -/
def DB.ChainSucceeded (db : DB) (a : ActivityId) : Prop :=
  ∃ b act, db.activities.find b = some act ∧ act.status = .succeeded ∧
    (Reaches db.replaces b a ∨ Reaches db.replaces a b)

/-- A dead-lettered activity of the topic whose workflow is not over and whose chain has no
success. -/
structure DB.OpenDeadLetter (db : DB) (topic : String) (a : ActivityId) : Prop where
  stored : ∃ act r, db.activities.find a = some act ∧ act.status = .deadLettered ∧
    act.topic = topic ∧ db.workflows.find act.workflowId = some r ∧ r.status.isTerminal = false
  unresolved : ¬db.ChainSucceeded a

-- ════════════════════════════════════════════════════════════════════════
-- Roots
-- ════════════════════════════════════════════════════════════════════════

section Roots

variable (hI : ∀ w, (db.aggregate w).Replaced)

include hI

/-- The effective root of an activity is where its chain begins. -/
theorem endsAt_effectiveRoot (ha : db.activities.find a = some act) :
    EndsAt db.replaces a act.effectiveRoot := by
  cases hb : act.replacesActivityId with
  | none =>
    have hnone := (hI act.workflowId).first a act (activity_of_find ha) hb
    obtain rfl := Table.key_of_find ha
    rw [ActivityRow.effectiveRoot, hnone, Option.getD_none]
    refine ⟨.refl, ?_⟩
    show (db.activities.find (Keyed.key act)).bind _ = none
    rw [ha, Option.bind_some, hb]
  | some b =>
    obtain ⟨root, hroot, hends⟩ := replaced_root hI _ ha rfl hb
    rw [ActivityRow.effectiveRoot, hroot, Option.getD_some]
    exact hends

/-- The chain of an activity has a success if its root is resolved. -/
theorem chainSucceeded_iff (hs : db.Sound) (ha : db.activities.find a = some act) :
    db.ChainSucceeded a ↔ db.Resolved act.effectiveRoot := by
  have hends := endsAt_effectiveRoot hI ha
  refine ⟨?_, ?_⟩
  · rintro ⟨b, act', hb, hsucceeded, hchain⟩
    refine ⟨b, act', hb, hsucceeded, ?_⟩
    have hends' := endsAt_effectiveRoot hI hb
    rcases hchain with hreach | hreach
    · exact hends'.unique (.of_reaches hreach hends)
    · exact (hends.unique (.of_reaches hreach hends')).symm
  · rintro ⟨b, act', hb, hsucceeded, hroot⟩
    have hends' := endsAt_effectiveRoot hI hb
    refine ⟨b, act', hb, hsucceeded, ?_⟩
    exact Reaches.total_of_injective (fun i j k hi hj => (replacementChains hI hs).once i j k hi hj)
      hends'.1 (hroot ▸ hends.1)

end Roots

-- ════════════════════════════════════════════════════════════════════════
-- Lookups
-- ════════════════════════════════════════════════════════════════════════

/-- A chunk fits the statement on either backend. -/
theorem rootParameters_chunk (hlength : roots.length ≤ resolvedRootInChunk) :
    rootParameters dialect roots ≤ maxStatementParameters := by
  unfold resolvedRootInChunk at hlength
  unfold rootParameters maxStatementParameters
  cases dialect with
  | mysql =>
    show 1 + roots.length + roots.length ≤ 65535
    omega
  | postgres => exact of_decide_eq_true rfl

/-- A list fits the statement if it is short, or bound as one array. -/
theorem rootParameters_le_iff : rootParameters dialect roots ≤ maxStatementParameters ↔
    dialect = .postgres ∨ roots.length ≤ 32767 := by
  unfold rootParameters maxStatementParameters
  cases dialect with
  | mysql =>
    show 1 + roots.length + roots.length ≤ 65535 ↔ _
    simp only [reduceCtorEq, false_or]
    omega
  | postgres => exact iff_of_true (of_decide_eq_true rfl) (.inl rfl)

/-- The roots of one lookup. -/
abbrev DB.foundRoots (db : DB) (roots : List ActivityId) : List ActivityId :=
  (db.activities.select (succeededIn roots)).map (·.effectiveRoot)

/-- A found root is that of a succeeded activity whose root or id is listed. -/
theorem mem_foundRoots : root ∈ db.foundRoots roots ↔
    ∃ a act r, db.activities.find a = some act ∧ act.status = .succeeded ∧
      act.effectiveRoot = root ∧ (act.rootActivityId = some r ∨ act.id = r) ∧ r ∈ roots := by
  have hlisted : ∀ act : ActivityRow, succeededIn roots act = true ↔ act.status = .succeeded ∧
      ∃ r, (act.rootActivityId = some r ∨ act.id = r) ∧ r ∈ roots := by
    intro act
    simp only [succeededIn, Bool.and_eq_true, beq_iff_eq, Bool.or_eq_true, decide_eq_true_eq,
      Option.any_eq_true, or_and_right, exists_or, exists_eq_left']
  rw [DB.foundRoots, List.mem_map]
  refine ⟨?_, ?_⟩
  · rintro ⟨act, hact, rfl⟩
    obtain ⟨hfind, hsucceeded⟩ := Table.mem_select.mp hact
    obtain ⟨hstatus, r, hr⟩ := (hlisted act).mp hsucceeded
    exact ⟨_, act, r, hfind, hstatus, rfl, hr⟩
  · rintro ⟨a, act, r, hfind, hstatus, rfl, hr⟩
    obtain rfl := Table.key_of_find hfind
    exact ⟨act, Table.mem_select.mpr ⟨hfind, (hlisted act).mpr ⟨hstatus, r, hr⟩⟩, rfl⟩

/-- The lookup of a list that fits. -/
theorem wp_resolvedRoots {E : DurableError → Prop} {Q : List ActivityId → DB → Prop}
    (hfits : rootParameters dialect roots ≤ maxStatementParameters)
    (h : Q (db.foundRoots roots) db) : wp (resolvedRoots dialect roots) Q E db := by
  simp only [resolvedRoots, wp_bind, wp_ensure, wp_selectRows, wp_pure]
  exact ⟨fun _ => h, fun hlong => absurd hfits hlong⟩

/-- The chunked lookup always returns, with the set of one lookup of the whole list. -/
theorem wp_loadResolvedActivityRoots {E : DurableError → Prop} :
    wp (loadResolvedActivityRoots dialect roots) (fun found db' => db' = db ∧
      ∀ root, root ∈ found ↔ root ∈ db.foundRoots roots) E db := by
  have hsize : 0 < resolvedRootInChunk := by decide
  refine wp_imp (wp_foldEach (fun pre found db' => found = pre.flatMap db.foundRoots ∧ db' = db)
    ?_ ⟨rfl, rfl⟩) ?_
  · rintro pre piece post hsplit _ _ ⟨rfl, rfl⟩
    have hmem : piece ∈ chunks resolvedRootInChunk roots := by
      rw [hsplit]
      exact List.mem_append_right pre (List.mem_cons_self ..)
    rw [wp_bind]
    refine wp_resolvedRoots (rootParameters_chunk (length_le_of_mem_chunks hmem)) ?_
    refine ⟨?_, rfl⟩
    rw [List.flatMap_append, List.flatMap_singleton]
  · rintro _ db ⟨rfl, rfl⟩
    refine ⟨rfl, fun root => ?_⟩
    rw [List.mem_flatMap]
    simp only [mem_foundRoots]
    refine ⟨?_, ?_⟩
    · rintro ⟨piece, hpiece, a, act, r, hfind, hstatus, hroot, hr, hmem⟩
      exact ⟨a, act, r, hfind, hstatus, hroot, hr, (mem_chunks hsize).mp ⟨piece, hpiece, hmem⟩⟩
    · rintro ⟨a, act, r, hfind, hstatus, hroot, hr, hmem⟩
      obtain ⟨piece, hpiece, hmem⟩ := (mem_chunks hsize).mpr hmem
      exact ⟨piece, hpiece, a, act, r, hfind, hstatus, hroot, hr, hmem⟩

-- ════════════════════════════════════════════════════════════════════════
-- The metrics
-- ════════════════════════════════════════════════════════════════════════

/-- A candidate of the metrics is a dead letter of a topic whose workflow is not over. -/
theorem deadLetterCandidate_iff : deadLetterCandidate db keys act = true ↔ act.topic ∈ keys ∧
    act.status = .deadLettered ∧ ∃ r, db.workflows.find act.workflowId = some r ∧
      r.status.isTerminal = false := by
  simp only [deadLetterCandidate, Bool.and_eq_true, decide_eq_true_eq, beq_iff_eq,
    Option.any_eq_true, Bool.not_eq_true', and_assoc]

/-- The rows of a lookup without those whose root was found. -/
theorem mem_unresolved {rows : List ActivityRow} {found : List ActivityId}
    (hfound : ∀ act ∈ rows, act.effectiveRoot ∈ found ↔ db.Resolved act.effectiveRoot) :
    act ∈ rows.filter (fun r => r.effectiveRoot ∉ found) ↔
      act ∈ rows ∧ ¬db.Resolved act.effectiveRoot := by
  rw [List.mem_filter, decide_eq_true_eq]
  exact and_congr_right fun hmem => not_congr (hfound act hmem)

/-- The metrics list the candidates whose root is not resolved. -/
theorem wp_openDeadLetters {E : DurableError → Prop} :
    wp (openDeadLetters dialect keys) (fun rows db' => db' = db ∧
      rows.Pairwise (fun r r' => r.id < r'.id) ∧
      ∀ act, act ∈ rows ↔ db.activities.find act.id = some act ∧
        deadLetterCandidate db keys act = true ∧ ¬db.Resolved act.effectiveRoot) E db := by
  have hlookup : ∀ candidates : List ActivityRow, wp (candidateResolvedRoots dialect candidates)
      (fun found db' => db' = db ∧
        ∀ act ∈ candidates, act.effectiveRoot ∈ found ↔ db.Resolved act.effectiveRoot) E db := by
    intro candidates
    unfold candidateResolvedRoots
    rw [wp_ite]
    refine ⟨fun hempty => ⟨rfl, fun act hact => ?_⟩, fun _ => ?_⟩
    · rw [List.isEmpty_iff.mp hempty] at hact
      cases hact
    · refine wp_imp wp_loadResolvedActivityRoots ?_
      rintro found _ ⟨rfl, hfound⟩
      refine ⟨rfl, fun act hact => (hfound _).trans (mem_resolved ?_)⟩
      rw [List.mem_dedup, List.mem_insertionSort]
      exact List.mem_map_of_mem hact
  simp only [openDeadLetters, wp_bind, wp_read, wp_selectRows, wp_pure, activityTable_get]
  refine wp_imp (hlookup _) ?_
  rintro found _ ⟨rfl, hfound⟩
  refine ⟨rfl, Table.pairwise_select.filter _, fun act => (mem_unresolved hfound).trans ?_⟩
  rw [Table.mem_select, and_assoc]
  rfl

/-- The rows a topic's metrics count are its open dead letters. -/
theorem openDeadLetter_iff (hI : ∀ w, (db.aggregate w).Replaced) (hs : db.Sound)
    (htopic : topic ∈ keys) : db.OpenDeadLetter topic a ↔ ∃ act, act.id = a ∧ act.topic = topic ∧
      db.activities.find act.id = some act ∧ deadLetterCandidate db keys act = true ∧
      ¬db.Resolved act.effectiveRoot := by
  refine ⟨?_, ?_⟩
  · rintro ⟨⟨act, r, ha, hstatus, rfl, hr, hopen⟩, hunresolved⟩
    obtain rfl : act.id = a := Table.key_of_find ha
    rw [chainSucceeded_iff hI hs ha] at hunresolved
    exact ⟨act, rfl, rfl, ha, deadLetterCandidate_iff.mpr ⟨htopic, hstatus, r, hr, hopen⟩,
      hunresolved⟩
  · rintro ⟨act, rfl, rfl, ha, hcandidate, hunresolved⟩
    obtain ⟨-, hstatus, r, hr, hopen⟩ := deadLetterCandidate_iff.mp hcandidate
    refine ⟨⟨act, r, ha, hstatus, rfl, hr, hopen⟩, ?_⟩
    rwa [chainSucceeded_iff hI hs ha]

/-- The metrics of a request: one for each topic, with the number of its open dead letters. -/
theorem wp_loadTopicMetrics {E : DurableError → Prop} (hI : ∀ w, (db.aggregate w).Replaced)
    (hs : db.Sound) (topics : List TopicDefinition) :
    wp (loadTopicMetrics dialect topics now) (fun metrics db' => db' = db ∧
      metrics.map (·.topic) = topics.map (·.key) ∧
      ∀ m ∈ metrics, m.deadLetterCount = Set.ncard {a | db.OpenDeadLetter m.topic a}) E db := by
  simp only [loadTopicMetrics, wp_bind, wp_read, wp_selectRows]
  refine wp_imp wp_openDeadLetters ?_
  rintro rows db ⟨rfl, hsorted, hrows⟩
  simp only [wp_pure]
  refine ⟨trivial, by rw [List.map_map]; rfl, fun m hm => ?_⟩
  obtain ⟨d, hd, rfl⟩ := List.mem_map.mp hm
  have htopic : d.key ∈ topics.map (·.key) := List.mem_map_of_mem hd
  show (ofTopic d.key rows).length = _
  have hset : {a | db.OpenDeadLetter d.key a} =
      ↑((ofTopic d.key rows).map (·.id)).toFinset := by
    ext a
    rw [Set.mem_ofPred_eq, openDeadLetter_iff hI hs htopic, List.coe_toFinset, Set.mem_ofPred_eq,
      List.mem_map]
    unfold ofTopic
    simp only [List.mem_filter, beq_iff_eq, hrows]
    grind
  have hnodup : ((ofTopic d.key rows).map (·.id)).Nodup := by
    refine List.pairwise_map.mpr ((hsorted.filter _).imp ?_)
    intro r r' hlt
    exact ne_of_lt hlt
  rw [hset, Set.ncard_coe_finset, List.toFinset_card_of_nodup hnodup, List.length_map]

-- ════════════════════════════════════════════════════════════════════════
-- The scan
-- ════════════════════════════════════════════════════════════════════════

/-- The dead letters of a database. -/
abbrev DB.deadLetters (db : DB) : List ActivityRow :=
  db.activities.select fun r => r.status == .deadLettered

/-- The scan lists the dead letters whose root is not resolved, and fails if they are too many
for one statement. -/
theorem wp_unresolvedDeadLetters {E : DurableError → Prop} {Q : List ActivityRow → DB → Prop}
    (hE : ¬(dialect = .postgres ∨ db.deadLetters.length ≤ 32767) → E (.database .tooManyParameters))
    (h : dialect = .postgres ∨ db.deadLetters.length ≤ 32767 → ∀ rows : List ActivityRow,
      (∀ act, act ∈ rows ↔ act ∈ db.deadLetters ∧ ¬db.Resolved act.effectiveRoot) → Q rows db) :
    wp (unresolvedDeadLetters dialect) Q E db := by
  have hfits : rootParameters dialect (db.deadLetters.map (·.effectiveRoot)) ≤
      maxStatementParameters ↔ dialect = .postgres ∨ db.deadLetters.length ≤ 32767 := by
    rw [rootParameters_le_iff, List.length_map]
  simp only [unresolvedDeadLetters, scannedRoots, wp_bind, wp_selectRows, wp_pure, wp_ite,
    activityTable_get]
  refine ⟨fun hempty => ?_, fun hempty => ?_⟩
  · have hnil : db.deadLetters = [] := by
      rwa [List.isEmpty_iff, List.map_eq_nil_iff] at hempty
    refine h (.inr (by rw [hnil]; exact Nat.zero_le _)) _ fun act => ?_
    show act ∈ db.deadLetters.filter _ ↔ _
    rw [hnil, List.filter_nil]
    refine ⟨(fun h => by cases h), fun hact => ?_⟩
    cases hact.1
  · by_cases hle : dialect = .postgres ∨ db.deadLetters.length ≤ 32767
    · refine wp_resolvedRoots (hfits.mpr hle) (h hle _ fun act => mem_unresolved ?_)
      intro act hact
      exact mem_resolved (List.mem_map_of_mem hact)
    · simp only [resolvedRoots, wp_bind, wp_ensure]
      exact ⟨fun hle' => absurd (hfits.mp hle') hle, fun _ => hE hle⟩

/-- A scan whose lookup fits its statement lists the dead letters whose root is not resolved. -/
theorem scan_returns (hfits : dialect = .postgres ∨ db.deadLetters.length ≤ 32767) :
    ∃ rows, unresolvedDeadLetters dialect db = .ok (rows, db) ∧
      ∀ act, act ∈ rows ↔ act ∈ db.deadLetters ∧ ¬db.Resolved act.effectiveRoot := by
  have hwp : wp (unresolvedDeadLetters dialect) (fun rows db' => db' = db ∧
      ∀ act, act ∈ rows ↔ act ∈ db.deadLetters ∧ ¬db.Resolved act.effectiveRoot)
      (fun _ => False) db :=
    wp_unresolvedDeadLetters (fun hmany => hmany hfits) fun _ _ hrows => ⟨rfl, hrows⟩
  obtain ⟨rows, _, hok, rfl, hrows⟩ := wp_returns hwp
  exact ⟨rows, hok, hrows⟩

/-- A scan returns if and only if its lookup fits its statement. -/
theorem scan_returns_iff : (∃ rows, unresolvedDeadLetters dialect db = .ok (rows, db)) ↔
    dialect = .postgres ∨ db.deadLetters.length ≤ 32767 := by
  constructor
  · rintro ⟨rows, hok⟩
    by_contra hmany
    have hwp : wp (unresolvedDeadLetters dialect) (fun _ _ => False) (fun _ => True) db :=
      wp_unresolvedDeadLetters (fun _ => trivial) fun hfits => absurd hfits hmany
    exact wp_ok hwp hok
  · intro hfits
    obtain ⟨rows, hok, -⟩ := scan_returns hfits
    exact ⟨rows, hok⟩

/-- Reads that do not fail come before the lookup and after it. -/
theorem wp_readiness {workflows : WorkflowRegistry} {activities : ActivityRegistry}
    {topics : List TopicDefinition} {E : DurableError → Prop} :
    wp (ReadinessReport.query workflows activities topics) (fun _ db' => db' = db) E db := by
  simp only [ReadinessReport.query, wp_bind, wp_read, wp_selectRows, wp_pure]

section Scan

variable {workflows : WorkflowRegistry} {activities : ActivityRegistry}
  {topics : List TopicDefinition} {config : HealthScannerConfig} {capturedAt : DbMillis}

/-- A scan fails over its lookup if the dead letters are too many for one statement. -/
theorem scanOnce_error_iff :
    scanOnce dialect workflows activities topics config capturedAt db =
        .error (.database .tooManyParameters) ↔
      (config.staleAfter : ℤ) ≤ DbMillis.max ∧
        ¬(dialect = .postgres ∨ db.deadLetters.length ≤ 32767) := by
  by_cases hstale : (config.staleAfter : ℤ) ≤ DbMillis.max
  · by_cases hfits : dialect = .postgres ∨ db.deadLetters.length ≤ 32767
    · have hwp : wp (scanOnce dialect workflows activities topics config capturedAt)
          (fun _ _ => True) (fun _ => False) db := by
        simp only [scanOnce, wp_bind, wp_ensure]
        refine wp_imp wp_readiness ?_
        rintro readiness db ⟨rfl⟩
        refine ⟨fun _ => ?_, fun hlong => hlong hstale⟩
        rw [wp_selectRows]
        exact wp_unresolvedDeadLetters (fun hmany => hmany hfits) fun _ _ _ => trivial
      obtain ⟨report, db', hok, -⟩ := wp_returns hwp
      rw [hok]
      simp [hfits]
    · have hwp : wp (scanOnce dialect workflows activities topics config capturedAt)
          (fun _ _ => False) (fun e => e = .database .tooManyParameters) db := by
        simp only [scanOnce, wp_bind, wp_ensure]
        refine wp_imp wp_readiness ?_
        rintro readiness db ⟨rfl⟩
        refine ⟨fun _ => ?_, fun hlong => absurd hstale hlong⟩
        rw [wp_selectRows]
        exact wp_unresolvedDeadLetters (fun _ => rfl) fun hfits' => absurd hfits' hfits
      refine iff_of_true ?_ ⟨hstale, hfits⟩
      cases hrun : scanOnce dialect workflows activities topics config capturedAt db with
      | ok r => exact (wp_ok hwp hrun).elim
      | error e => rw [wp_error hwp hrun]
  · refine iff_of_false ?_ fun h => hstale h.1
    have hwp : wp (scanOnce dialect workflows activities topics config capturedAt)
        (fun _ _ => True) (fun e => e ≠ .database .tooManyParameters) db := by
      simp only [scanOnce, wp_bind, wp_ensure]
      refine wp_imp wp_readiness fun _ _ _ => ?_
      exact ⟨fun h => absurd h hstale, fun _ => (fun h => by cases h)⟩
    exact fun herror => wp_error hwp herror rfl

end Scan

-- ════════════════════════════════════════════════════════════════════════
-- Runs
-- ════════════════════════════════════════════════════════════════════════

/-- The unresolved dead letters of a topic are its open ones if and only if no dead letter of a
workflow that is over is unresolved. -/
theorem unresolved_eq_open_iff (hI : ∀ w, (db.aggregate w).Replaced) (hs : db.Sound)
    {rows : List ActivityRow}
    (hrows : ∀ act, act ∈ rows ↔ act ∈ db.deadLetters ∧ ¬db.Resolved act.effectiveRoot) :
    {a | ∃ act ∈ rows, act.topic = topic ∧ act.id = a} = {a | db.OpenDeadLetter topic a} ↔
      ∀ a act r, db.activities.find a = some act → act.status = .deadLettered →
        act.topic = topic → db.workflows.find act.workflowId = some r →
        r.status.isTerminal = true → db.ChainSucceeded a := by
  have hmem : ∀ act, act ∈ rows ↔ db.activities.find act.id = some act ∧
      act.status = .deadLettered ∧ ¬db.Resolved act.effectiveRoot := by
    intro act
    rw [hrows, Table.mem_select, beq_iff_eq, and_assoc]
    rfl
  refine ⟨fun heq a act r ha hstatus htopic hr hover => ?_, fun hall => ?_⟩
  · by_contra hunresolved
    obtain rfl : act.id = a := Table.key_of_find ha
    have hscanned : act.id ∈ {a | ∃ act ∈ rows, act.topic = topic ∧ act.id = a} := by
      refine ⟨act, (hmem act).mpr ⟨ha, hstatus, ?_⟩, htopic, rfl⟩
      rwa [← chainSucceeded_iff hI hs ha]
    rw [heq] at hscanned
    obtain ⟨⟨act', r', ha', -, -, hr', hopen⟩, -⟩ := hscanned
    obtain rfl := Option.some_inj.mp (ha.symm.trans ha')
    obtain rfl := Option.some_inj.mp (hr.symm.trans hr')
    rw [hover] at hopen
    cases hopen
  · ext a
    refine ⟨?_, ?_⟩
    · rintro ⟨act, hact, rfl, rfl⟩
      obtain ⟨ha, hstatus, hunresolved⟩ := (hmem act).mp hact
      rw [← chainSucceeded_iff hI hs ha] at hunresolved
      obtain ⟨r, hr⟩ := hs.row_of_activity ha
      refine ⟨⟨act, r, ha, hstatus, rfl, hr, ?_⟩, hunresolved⟩
      by_contra hover
      exact hunresolved (hall act.id act r ha hstatus rfl hr (Bool.eq_true_of_not_eq_false hover))
    · rintro ⟨⟨act, r, ha, hstatus, rfl, -, -⟩, hunresolved⟩
      obtain rfl : act.id = a := Table.key_of_find ha
      refine ⟨act, (hmem act).mpr ⟨ha, hstatus, ?_⟩, rfl, rfl⟩
      rwa [← chainSucceeded_iff hI hs ha]

theorem run_replaced (externals : Externals) (actions : List Action) (w : WorkflowId) :
    ((run externals Sys.init actions).db.aggregate w).Replaced :=
  run_aggregate .empty (fun _ _ _ hg h => h.replaced hg) externals actions w

/-- **Open dead letters** in every run. In every reachable state the metrics of a topic count its
open dead letters, and the lookup in chunks finds what one lookup finds, for any number of
roots. A scan returns if and only if its lookup fits one statement, and takes exactly the open dead
letters of a topic for unresolved if and only if, besides, every dead letter of the topic whose
workflow is over has a success in its chain. -/
theorem run_deadLetters (externals : Externals) (actions : List Action) (dialect : Dialect)
    (topics : List TopicDefinition) (now : DbMillis) :
    let db := (run externals Sys.init actions).db
    (∃ metrics, loadTopicMetrics dialect topics now db = .ok (metrics, db) ∧
      metrics.map (·.topic) = topics.map (·.key) ∧
      ∀ m ∈ metrics, m.deadLetterCount = Set.ncard {a | db.OpenDeadLetter m.topic a}) ∧
    (∀ roots, ∃ found, loadResolvedActivityRoots dialect roots db = .ok (found, db) ∧
      ∀ root, root ∈ found ↔ root ∈ db.foundRoots roots) ∧
    ((∃ rows, unresolvedDeadLetters dialect db = .ok (rows, db)) ↔
      dialect = .postgres ∨ db.deadLetters.length ≤ 32767) ∧
    ∀ topic, (∃ rows, unresolvedDeadLetters dialect db = .ok (rows, db) ∧
        {a | ∃ act ∈ rows, act.topic = topic ∧ act.id = a} = {a | db.OpenDeadLetter topic a}) ↔
      (dialect = .postgres ∨ db.deadLetters.length ≤ 32767) ∧
        ∀ a act r, db.activities.find a = some act → act.status = .deadLettered →
          act.topic = topic → db.workflows.find act.workflowId = some r →
          r.status.isTerminal = true → db.ChainSucceeded a := by
  intro db
  have hs : db.Sound := (run_inv externals actions).sound
  have hI := run_replaced externals actions
  refine ⟨?_, fun roots => ?_, scan_returns_iff, fun topic => ?_⟩
  · have hwp : wp (loadTopicMetrics dialect topics now) _ (fun _ => False) db :=
      wp_loadTopicMetrics hI hs topics
    obtain ⟨metrics, _, hok, rfl, hmetrics⟩ := wp_returns hwp
    exact ⟨metrics, hok, hmetrics⟩
  · have hwp : wp (loadResolvedActivityRoots dialect roots) _ (fun _ => False) db :=
      wp_loadResolvedActivityRoots
    obtain ⟨found, _, hok, rfl, hfound⟩ := wp_returns hwp
    exact ⟨found, hok, hfound⟩
  · constructor
    · rintro ⟨rows, hok, heq⟩
      have hfits := scan_returns_iff.mp ⟨rows, hok⟩
      obtain ⟨rows', hok', hrows⟩ := scan_returns hfits
      rw [hok] at hok'
      cases hok'
      exact ⟨hfits, (unresolved_eq_open_iff hI hs hrows).mp heq⟩
    · rintro ⟨hfits, hresolved⟩
      obtain ⟨rows, hok, hrows⟩ := scan_returns hfits
      exact ⟨rows, hok, (unresolved_eq_open_iff hI hs hrows).mpr hresolved⟩

namespace Sample

/-- The activity of a workflow is dead-lettered, and the workflow is cancelled. -/
def deadLetterRun : List Action :=
  .start workflow ⟨none, none, none⟩ 0 :: activation 0 (.runActivity "null" activity) 0 ++
    claimActivity 0 ++ [.finish 0 (.permanent "category" "message") 0,
      .cancelWorkflow 1 operator 0]

/-- A computation returns a value of which a property holds. -/
def returnsWith {α : Type} (x : Except DurableError (α × DB)) (p : α → Bool) : Bool :=
  match x with
  | .ok (a, _) => p a
  | .error _ => false

theorem exists_of_returnsWith {α : Type} {x : Except DurableError (α × DB)} {p : α → Bool}
    (h : returnsWith x p = true) : ∃ a db, x = .ok (a, db) ∧ p a = true := by
  cases x with
  | ok r => exact ⟨r.1, r.2, rfl, h⟩
  | error e => cases h

/-- The dead letter of the cancelled workflow is unresolved for the scan and not counted by the
metrics of its topic. -/
theorem deadLetter_of_cancelled :
    ¬∀ externals actions dialect topics now rows metrics db' db'',
      unresolvedDeadLetters dialect (run externals Sys.init actions).db = .ok (rows, db') →
      loadTopicMetrics dialect topics now (run externals Sys.init actions).db =
        .ok (metrics, db'') →
      ∀ m ∈ metrics, (rows.filter fun act => act.topic == m.topic).length = m.deadLetterCount := by
  intro hall
  obtain ⟨rows, db', hscan, hrows⟩ := exists_of_returnsWith
    (x := unresolvedDeadLetters .postgres (run Sample.externals Sys.init deadLetterRun).db)
    (p := fun rows => (rows.filter fun act => act.topic == "t").length == 1) (by decide +kernel)
  obtain ⟨metrics, db'', hmetrics, hcounts⟩ := exists_of_returnsWith
    (x := loadTopicMetrics .postgres topics 0 (run Sample.externals Sys.init deadLetterRun).db)
    (p := fun metrics => metrics.any fun m => m.topic == "t" && m.deadLetterCount == 0)
    (by decide +kernel)
  obtain ⟨m, hm, hcount⟩ := List.any_eq_true.mp hcounts
  rw [Bool.and_eq_true, beq_iff_eq, beq_iff_eq] at hcount
  have hlength := hall _ _ _ _ _ rows metrics db' db'' hscan hmetrics m hm
  rw [hcount.1, hcount.2, beq_iff_eq.mp hrows] at hlength
  cases hlength

end Sample

-- ════════════════════════════════════════════════════════════════════════
-- The limit
-- ════════════════════════════════════════════════════════════════════════

/-- **Lookups and their statements**. The metrics' lookups always fit: no chunk of any list binds
more than a statement takes, and the metrics are returned. The scan's one lookup fits, and
the scan is not failed by it, if and only if the list is bound as an array or the dead
letters are at most 32,767. -/
theorem rootLookups_fit (dialect : Dialect) (db : DB) (workflows : WorkflowRegistry)
    (activities : ActivityRegistry) (topics : List TopicDefinition) (config : HealthScannerConfig)
    (now : DbMillis) :
    (∀ roots, ∀ chunk ∈ chunks resolvedRootInChunk roots,
      rootParameters dialect chunk ≤ maxStatementParameters) ∧
    (∃ metrics, loadTopicMetrics dialect topics now db = .ok (metrics, db)) ∧
    (rootParameters dialect (db.deadLetters.map (·.effectiveRoot)) ≤ maxStatementParameters ↔
      dialect = .postgres ∨ db.deadLetters.length ≤ 32767) ∧
    ((config.staleAfter : ℤ) ≤ DbMillis.max →
      (scanOnce dialect workflows activities topics config now db ≠
          .error (.database .tooManyParameters) ↔
        dialect = .postgres ∨ db.deadLetters.length ≤ 32767)) := by
  refine ⟨fun roots chunk hchunk => rootParameters_chunk (length_le_of_mem_chunks hchunk), ?_, ?_, ?_⟩
  · have hwp : wp (loadTopicMetrics dialect topics now) (fun _ db' => db' = db) (fun _ => False)
        db := by
      simp only [loadTopicMetrics, wp_bind, wp_read, wp_selectRows]
      refine wp_imp wp_openDeadLetters ?_
      rintro rows db ⟨rfl, -⟩
      simp only [wp_pure]
    obtain ⟨metrics, _, hok, rfl⟩ := wp_returns hwp
    exact ⟨metrics, hok⟩
  · rw [rootParameters_le_iff, List.length_map]
  · intro hstale
    rw [Ne, scanOnce_error_iff, and_iff_right hstale, not_not]

namespace Sample

/-- One activity of a command that was retried again and again, each time to a dead letter. -/
def deadLetterRow (id : ActivityId) : ActivityRow where
  id
  workflowId := 1
  commandSequence := 1
  replacementNumber := id - 1
  kind := "a"
  version := 1
  topic := "t"
  payloadJson := "null"
  status := .deadLettered
  availableAt := 0
  maxAttempts := 1
  attemptCount := 1
  timeoutMillis := 10
  leaseDurationMillis := 20
  retryPolicy := retryPolicy.backoff
  operationKey := none
  providerResultJson := none
  lastErrorCategory := some "category"
  lastErrorMessage := some "message"
  leaseOwner := none
  leaseToken := none
  leaseExpiresAt := none
  rootActivityId := if id = 1 then none else some 1
  replacesActivityId := if id = 1 then none else some (id - 1)
  createdAt := 0
  updatedAt := 0
  completedAt := some 0

theorem key_deadLetterRow (id : ActivityId) : Keyed.key (deadLetterRow id) = id := rfl

/-- A command with `n` dead letters. -/
def deadLetterTable : ℕ → Table ActivityRow
  | 0 => .empty
  | n + 1 => (deadLetterTable n).insert deadLetterRow key_deadLetterRow

theorem deadLetterTable_length (n : ℕ) :
    ((deadLetterTable n).select fun r => r.status == .deadLettered).length = n := by
  induction n with
  | zero => rfl
  | succ n ih =>
    rw [Table.select_eq_filter] at ih ⊢
    rw [deadLetterTable, Table.toList_insert, List.filter_append, List.length_append, ih]
    rfl

/-- A command that was retried 32,767 times: its dead letters are one too many for the scan. -/
theorem deadLetters_exceed :
    ¬(∀ dialect (db : DB),
      rootParameters dialect (db.deadLetters.map (·.effectiveRoot)) ≤ maxStatementParameters) ∧
    scanOnce .mysql workflows activities topics ⟨300000, 25⟩ 0
        { DB.empty with activities := deadLetterTable 32768 } =
      .error (.database .tooManyParameters) := by
  have hmany : ¬(Dialect.mysql = .postgres ∨ (DB.deadLetters
      { DB.empty with activities := deadLetterTable 32768 }).length ≤ 32767) := by
    show ¬(_ ∨ ((deadLetterTable 32768).select _).length ≤ 32767)
    rw [deadLetterTable_length]
    decide
  refine ⟨fun hall => hmany ?_, scanOnce_error_iff.mpr ⟨by decide, hmany⟩⟩
  have hfits := hall .mysql { DB.empty with activities := deadLetterTable 32768 }
  rwa [rootParameters_le_iff, List.length_map] at hfits

end Sample

end DurableWorkflows
