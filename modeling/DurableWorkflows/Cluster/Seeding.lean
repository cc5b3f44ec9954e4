import DurableWorkflows.Engine.Audit
import DurableWorkflows.Engine.DeadLetters
import DurableWorkflows.Runtime.Dispatcher

/-!
# The concurrency limits of a deployment

Every process seeds the lock rows of its topics before it claims: an insert that leaves the
rows that are there alone, and a read that compares what is persisted with what the process
registered. The two are statements of their own, so the processes of a deployment and its
engine may come in between. The first insert of a topic decides its limit for good, and a
process that registered another limit never gets past the read.

## Main definitions

- `TopicRegistry.checkPersisted`: the comparison
- `Deployment`, `Deployment.exec`: the processes of a deployment with its engine
- `Deployment.Limits`: the invariant

## Main results

- `wp_seedLocks_rows`: what the insert does
- `Deployment.run_limits`: the limits of every run
-/

namespace DurableWorkflows

open Transaction

section Model

/-- Why the read of a start fails: an invalid state, or an invalid definition. -/
inductive SeedError
  | unregistered (topic : String)
  | conflictingLimit (topic : String) (persisted registered : ℕ)

/-- The text of the error. -/
def SeedError.message : SeedError → String
  | unregistered topic => s!"persisted topic {topic} was not registered"
  | conflictingLimit topic persisted registered =>
    s!"activity topic {topic} persisted concurrency limit {persisted} does not match registered limit {registered}"

namespace TopicRegistry

/-- `TopicRegistry::get`. -/
def get (registry : TopicRegistry) (key : String) : Option TopicDefinition :=
  registry.definitions.find? fun d => d.key == key

/-- The lock rows of the registered topics. -/
def persisted (registry : TopicRegistry) (topicLocks : String → Option TopicLockRow) :
    List TopicLockRow :=
  registry.definitions.filterMap fun d => topicLocks d.key

/-- The loop of `seed_locks_once` over the rows it has read. A limit is positive in the
database, so its conversion does not fail. -/
def checkPersisted (registry : TopicRegistry) : List TopicLockRow → Except SeedError Unit
  | [] => .ok ()
  | row :: rows =>
    match registry.get row.topic with
    | none => .error (.unregistered row.topic)
    | some definition =>
      if row.maxConcurrency ≠ definition.maxConcurrency then
        .error (.conflictingLimit row.topic row.maxConcurrency definition.maxConcurrency)
      else
        registry.checkPersisted rows

end TopicRegistry

/-- How far the `OnceCell` of a process is. -/
inductive SeedPhase
  | unseeded
  | inserted
  | seeded
  deriving DecidableEq

/-- The engine with the processes that run it. -/
structure Deployment where
  sys : Sys
  phase : ℕ → SeedPhase

/-- The action is the insert of a start. -/
def Action.seeds : Action → Bool
  | seedLocks .. => true
  | _ => false

/-- A step of the engine, or one of the two statements of `seed_locks_once`, whose read
returns its rows in some order. -/
inductive DeploymentAction
  | engine (action : Action) (h : action.seeds = false)
  | insert (process : ℕ) (now : DbMillis)
  | check (process : ℕ) (rows : List TopicLockRow)

namespace Deployment

def init : Deployment := ⟨.init, fun _ => .unseeded⟩

/-- One step of a deployment. -/
def exec (externals : Externals) (registries : ℕ → TopicRegistry) (d : Deployment) :
    DeploymentAction → Except DurableError Deployment
  | .engine action _ => do
    let sys ← DurableWorkflows.exec externals d.sys action
    return { d with sys }
  | .insert process now =>
    if d.phase process = .unseeded then do
      let sys ← DurableWorkflows.exec externals d.sys
        (.seedLocks (registries process).definitions now)
      return ⟨sys, Function.update d.phase process .inserted⟩
    else
      .ok d
  | .check process rows =>
    if d.phase process = .inserted ∧ rows.Perm ((registries process).persisted d.sys.db.topicLocks)
    then
      .ok { d with
        phase := Function.update d.phase process
          (if ((registries process).checkPersisted rows).isOk then .seeded else .unseeded) }
    else
      .error (.notFound "topic locks" process)

/-- The state after a run. -/
abbrev run (externals : Externals) (registries : ℕ → TopicRegistry) :
    Deployment → List DeploymentAction → Deployment :=
  Machine.run (exec externals registries)

end Deployment

end Model

-- ════════════════════════════════════════════════════════════════════════
-- The two statements
-- ════════════════════════════════════════════════════════════════════════

section Statements

variable {registry : TopicRegistry} {topics : List TopicDefinition} {db : DB} {now : DbMillis}
  {rows : List TopicLockRow} {row : TopicLockRow} {d : TopicDefinition}

/-- What the insert does: the rows that were there stay, a new row is that of a registered
topic, and every registered topic has a row. -/
structure SeedsRows (topics : List TopicDefinition) (now : DbMillis) (db db' : DB) : Prop where
  kept : ∀ topic row, db.topicLocks topic = some row → db'.topicLocks topic = some row
  new : ∀ topic row, db'.topicLocks topic = some row → db.topicLocks topic = some row ∨
    ∃ t ∈ topics, t.key = topic ∧ row = ⟨topic, t.maxConcurrency, now⟩
  covered : ∀ t ∈ topics, ∃ row, db'.topicLocks t.key = some row

theorem wp_seedLocks_rows :
    wp (seedLocks topics now) (fun _ db' => SeedsRows topics now db db') (fun _ => True) db := by
  refine wp_forEach (fun pre db' => SeedsRows pre now db db') ?_ ?_
  · intro pre t post _ db₁ h
    rw [wp_bind, wp_ensure]
    refine ⟨fun _ => ?_, fun _ => trivial⟩
    rw [wp_modify]
    have hnew : ∀ topic, (if topic = t.key ∧ (db₁.topicLocks topic).isNone then
        some (⟨topic, t.maxConcurrency, now⟩ : TopicLockRow) else db₁.topicLocks topic) =
        (db₁.topicLocks topic).or
          (if topic = t.key then some ⟨topic, t.maxConcurrency, now⟩ else none) := by
      intro topic
      by_cases htopic : topic = t.key
      · cases db₁.topicLocks topic <;> simp [htopic]
      · simp [htopic]
    refine ⟨fun topic row hrow => ?_, fun topic row hrow => ?_, ?_⟩
    · show ite _ _ _ = _
      rw [hnew, h.kept topic row hrow]
      rfl
    · replace hrow : ite _ _ _ = some row := hrow
      rw [hnew, Option.or_eq_some_iff] at hrow
      rcases hrow with hrow | ⟨-, hrow⟩
      · refine (h.new topic row hrow).imp_right ?_
        rintro ⟨t', ht', hkey⟩
        exact ⟨t', List.mem_append_left _ ht', hkey⟩
      · by_cases htopic : topic = t.key
        · rw [if_pos htopic] at hrow
          exact .inr ⟨t, by simp, htopic.symm, (Option.some_inj.mp hrow).symm⟩
        · rw [if_neg htopic] at hrow
          cases hrow
    · refine List.forall_mem_append.mpr ⟨fun t' ht' => ?_, ?_⟩
      · obtain ⟨row, hrow⟩ := h.covered t' ht'
        refine ⟨row, ?_⟩
        show ite _ _ _ = _
        rw [hnew, hrow]
        rfl
      · refine List.forall_mem_singleton.mpr ?_
        show ∃ row, ite _ _ _ = some row
        rw [hnew]
        cases db₁.topicLocks t.key <;> simp
  · exact ⟨fun _ _ h => h, fun _ _ h => .inl h, fun _ h => by cases h⟩

theorem get_of_mem (h : d ∈ registry.definitions) : registry.get d.key = some d := by
  cases hget : registry.get d.key with
  | none =>
    have hnone := List.find?_eq_none.mp hget d h
    simp at hnone
  | some d' =>
    have hkey : d'.key = d.key := by simpa using List.find?_some hget
    rw [List.inj_on_of_nodup_map registry.nodup (List.mem_of_find?_eq_some hget) h hkey]

/-- The read of a start succeeds exactly if every row has its registered limit. -/
theorem checkPersisted_isOk :
    (registry.checkPersisted rows).isOk = true ↔
      ∀ row ∈ rows, ∃ d, registry.get row.topic = some d ∧ row.maxConcurrency = d.maxConcurrency := by
  induction rows with
  | nil => exact ⟨fun _ _ h => (by cases h), fun _ => rfl⟩
  | cons row rows ih =>
    rw [List.forall_mem_cons, ← ih, TopicRegistry.checkPersisted]
    cases hget : registry.get row.topic with
    | none => simp [Except.isOk, Except.toBool]
    | some definition =>
      by_cases hlimit : row.maxConcurrency = definition.maxConcurrency
      · simp [hlimit]
      · simp [hlimit, Except.isOk, Except.toBool]

/-- The read finds the rows of the registered topics. -/
theorem checkPersisted_persisted {topicLocks : String → Option TopicLockRow}
    (hkeyed : ∀ topic row, topicLocks topic = some row → row.topic = topic)
    (hrows : rows.Perm (registry.persisted topicLocks)) :
    (registry.checkPersisted rows).isOk = true ↔ ∀ t ∈ registry.definitions, ∀ row,
      topicLocks t.key = some row → row.maxConcurrency = t.maxConcurrency := by
  rw [checkPersisted_isOk]
  constructor
  · intro h t ht row hrow
    obtain ⟨d, hd, hlimit⟩ := h row (hrows.mem_iff.mpr (List.mem_filterMap.mpr ⟨t, ht, hrow⟩))
    rw [hkeyed _ _ hrow, get_of_mem ht, Option.some_inj] at hd
    rw [hlimit, hd]
  · intro h row hmem
    obtain ⟨t, ht, hrow⟩ := List.mem_filterMap.mp (hrows.mem_iff.mp hmem)
    refine ⟨t, ?_, h t ht row hrow⟩
    rw [hkeyed _ _ hrow]
    exact get_of_mem ht

end Statements

-- ════════════════════════════════════════════════════════════════════════
-- Runs
-- ════════════════════════════════════════════════════════════════════════

namespace Deployment

variable {externals : Externals} {registries : ℕ → TopicRegistry} {d d' d'' : Deployment}
  {action : DeploymentAction}

/-- What holds of the limits in every state of a deployment. -/
structure Limits (registries : ℕ → TopicRegistry) (d : Deployment) : Prop where
  inv : d.sys.Inv
  keyed : ∀ topic row, d.sys.db.topicLocks topic = some row → row.topic = topic
  origin : ∀ topic row, d.sys.db.topicLocks topic = some row → ∃ p, ∃ t ∈ (registries p).definitions,
    t.key = topic ∧ t.maxConcurrency = row.maxConcurrency
  covered : ∀ p, d.phase p ≠ .unseeded → ∀ t ∈ (registries p).definitions,
    ∃ row, d.sys.db.topicLocks t.key = some row
  seeded : ∀ p, d.phase p = .seeded → ∀ t ∈ (registries p).definitions, ∀ row,
    d.sys.db.topicLocks t.key = some row → row.maxConcurrency = t.maxConcurrency

/-- The lock rows stay as they are, and a process that got past its read stays past it. -/
structure Keeps (d d' : Deployment) : Prop where
  rows : ∀ topic row, d.sys.db.topicLocks topic = some row → d'.sys.db.topicLocks topic = some row
  seeded : ∀ p, d.phase p = .seeded → d'.phase p = .seeded

theorem Keeps.refl (d : Deployment) : Keeps d d := ⟨fun _ _ h => h, fun _ h => h⟩

theorem Keeps.trans (h : Keeps d d') (h' : Keeps d' d'') : Keeps d d'' where
  rows topic row hrow := h'.rows topic row (h.rows topic row hrow)
  seeded p hp := h'.seeded p (h.seeded p hp)

theorem Limits.init : Limits registries init where
  inv := .init
  keyed _ _ h := by cases h
  origin _ _ h := by cases h
  covered _ h := absurd rfl h
  seeded _ h := by cases h

/-- The rows of the topics a process covers, in a later state. -/
theorem Limits.of_rows (h : Limits registries d) (hinv : d'.sys.Inv) (hphase : d'.phase = d.phase)
    (hrows : d'.sys.db.topicLocks = d.sys.db.topicLocks) : Limits registries d' where
  inv := hinv
  keyed := by rw [hrows]; exact h.keyed
  origin := by rw [hrows]; exact h.origin
  covered := by rw [hrows, hphase]; exact h.covered
  seeded := by rw [hrows, hphase]; exact h.seeded

theorem exec_engine {action : Action} (h : Limits registries d) (hseeds : action.seeds = false)
    {sys : Sys} (hok : DurableWorkflows.exec externals d.sys action = .ok sys) :
    Limits registries { d with sys } ∧ Keeps d { d with sys } := by
  have hrows : sys.db.topicLocks = d.sys.db.topicLocks := by
    by_cases htables : action.writesTables = false
    · exact (exec_tables h.inv htables hok).2
    · cases action with
      | seedLocks => cases hseeds
      | reportProgress =>
        obtain ⟨claim, -, hok⟩ := nth_bind_ok hok
        obtain ⟨_, db', hreport, rfl⟩ := transact'_ok hok
        exact congrArg Prod.snd (keeps_report.ok hreport)
      | _ => exact absurd rfl htables
  refine ⟨h.of_rows (exec_leads h.inv hok).inv rfl hrows, fun topic row hrow => ?_, fun _ hp => hp⟩
  show sys.db.topicLocks topic = some row
  rw [hrows]
  exact hrow

/-- The insert of one process. -/
theorem exec_insert {process : ℕ} {now : DbMillis} (h : Limits registries d)
    (hphase : d.phase process = .unseeded) {sys : Sys}
    (hok : DurableWorkflows.exec externals d.sys
      (.seedLocks (registries process).definitions now) = .ok sys) :
    Limits registries ⟨sys, Function.update d.phase process .inserted⟩ ∧
      Keeps d ⟨sys, Function.update d.phase process .inserted⟩ := by
  have hinv := (exec_leads h.inv hok).inv
  obtain ⟨_, db', hseed, rfl⟩ := transact'_ok hok
  have hrows : SeedsRows (registries process).definitions now d.sys.db db' :=
    wp_ok wp_seedLocks_rows hseed
  have hseeded : ∀ p, Function.update d.phase process .inserted p = .seeded →
      d.phase p = .seeded := by
    intro p hp
    by_cases hpp : p = process
    · rw [hpp, Function.update_self] at hp
      cases hp
    · rwa [Function.update_of_ne hpp] at hp
  refine ⟨⟨hinv, fun topic row hrow => ?_, fun topic row hrow => ?_, fun p hp t ht => ?_,
    fun p hp t ht row hrow => ?_⟩, hrows.kept, fun p hp => ?_⟩
  · obtain hold | ⟨t, -, -, rfl⟩ := hrows.new topic row hrow
    · exact h.keyed topic row hold
    · rfl
  · obtain hold | ⟨t, ht, hkey, rfl⟩ := hrows.new topic row hrow
    · exact h.origin topic row hold
    · exact ⟨process, t, ht, hkey, rfl⟩
  · by_cases hpp : p = process
    · exact hrows.covered t (hpp ▸ ht)
    · replace hp : Function.update d.phase process .inserted p ≠ .unseeded := hp
      rw [Function.update_of_ne hpp] at hp
      obtain ⟨row, hrow⟩ := h.covered p hp t ht
      exact ⟨row, hrows.kept _ _ hrow⟩
  · -- the rows of a process that got past its read were there before
    have hp' := hseeded p hp
    obtain ⟨row', hrow'⟩ := h.covered p (by rw [hp']; exact fun h => by cases h) t ht
    have hsame := hrows.kept _ _ hrow'
    rw [show db'.topicLocks t.key = some row from hrow, Option.some_inj] at hsame
    rw [hsame]
    exact h.seeded p hp' t ht row' hrow'
  · show Function.update d.phase process .inserted p = .seeded
    rw [Function.update_of_ne, hp]
    rintro rfl
    rw [hphase] at hp
    cases hp

/-- The read of one process. -/
theorem exec_check {process : ℕ} {rows : List TopicLockRow} (h : Limits registries d)
    (hphase : d.phase process = .inserted)
    (hrows : rows.Perm ((registries process).persisted d.sys.db.topicLocks)) {phase : SeedPhase}
    (hok : phase = if ((registries process).checkPersisted rows).isOk then .seeded
      else .unseeded) :
    Limits registries { d with phase := Function.update d.phase process phase } ∧
      Keeps d { d with phase := Function.update d.phase process phase } := by
  have hother : ∀ p, p ≠ process → Function.update d.phase process phase p = d.phase p :=
    fun p hp => Function.update_of_ne hp ..
  refine ⟨⟨h.inv, h.keyed, h.origin, fun p hp t ht => ?_, fun p hp t ht row hrow => ?_⟩,
    fun _ _ hrow => hrow, fun p hp => ?_⟩
  · by_cases hpp : p = process
    · exact h.covered p (by rw [hpp, hphase]; exact fun h => by cases h) t ht
    · exact h.covered p (hother p hpp ▸ hp) t ht
  · by_cases hpp : p = process
    · subst hpp
      replace hp : Function.update d.phase p phase p = .seeded := hp
      rw [Function.update_self, hok] at hp
      split at hp
      · exact (checkPersisted_persisted h.keyed hrows).mp ‹_› t ht row hrow
      · cases hp
    · exact h.seeded p (hother p hpp ▸ hp) t ht row hrow
  · show Function.update d.phase process phase p = .seeded
    rw [hother p, hp]
    rintro rfl
    rw [hphase] at hp
    cases hp

/-- **Step lemma**. -/
theorem exec_limits (h : Limits registries d) (hok : exec externals registries d action = .ok d') :
    Limits registries d' ∧ Keeps d d' := by
  cases action with
  | engine action hseeds =>
    obtain ⟨sys, hsys, hok⟩ := bind_eq_ok hok
    obtain rfl := Except.ok.inj hok
    exact exec_engine h hseeds hsys
  | insert process now =>
    rw [exec] at hok
    by_cases hphase : d.phase process = .unseeded
    · rw [if_pos hphase] at hok
      obtain ⟨sys, hsys, hok⟩ := bind_eq_ok hok
      obtain rfl := Except.ok.inj hok
      exact exec_insert h hphase hsys
    · rw [if_neg hphase] at hok
      obtain rfl := Except.ok.inj hok
      exact ⟨h, .refl d⟩
  | check process rows =>
    rw [exec] at hok
    by_cases hread : d.phase process = .inserted ∧
        rows.Perm ((registries process).persisted d.sys.db.topicLocks)
    · rw [if_pos hread] at hok
      obtain rfl := Except.ok.inj hok
      exact exec_check h hread.1 hread.2 rfl
    · rw [if_neg hread] at hok
      cases hok

/-- The invariant of every run. -/
theorem Limits.run (h : Limits registries d) (actions : List DeploymentAction) :
    Limits registries (Deployment.run externals registries d actions) :=
  Machine.run_invariant (fun _ _ _ h hok => (exec_limits h hok).1) h actions

/-- What every run keeps. -/
theorem Limits.run_keeps (h : Limits registries d) (actions : List DeploymentAction) :
    Keeps d (Deployment.run externals registries d actions) :=
  Machine.run_related (P := Limits registries) (fun _ _ _ h hok => (exec_limits h hok).1) .refl
    (fun _ _ _ => .trans) (fun _ _ _ h hok => (exec_limits h hok).2) h actions

/-- The limits of a deployment between two moments of a run: `d` and, later, `d'`. -/
structure FixesLimits (externals : Externals) (registries : ℕ → TopicRegistry)
    (d d' : Deployment) : Prop where
  /-- A row that is written stays as it is. -/
  rows : ∀ topic row, d.sys.db.topicLocks topic = some row → d'.sys.db.topicLocks topic = some row
  /-- Its limit is one that a process registered. -/
  origin : ∀ topic row, d.sys.db.topicLocks topic = some row →
    ∃ p, ∃ t ∈ (registries p).definitions, t.key = topic ∧ t.maxConcurrency = row.maxConcurrency
  /-- What a process that got past its read registered is what is persisted, from then on. -/
  seeded : ∀ p, d.phase p = .seeded → d'.phase p = .seeded ∧
    ∀ t ∈ (registries p).definitions, ∃ row, d'.sys.db.topicLocks t.key = some row ∧
      row.maxConcurrency = t.maxConcurrency
  /-- Such processes agree on the topics they share. -/
  agree : ∀ p q, d.phase p = .seeded → d'.phase q = .seeded →
    ∀ t ∈ (registries p).definitions, ∀ u ∈ (registries q).definitions, t.key = u.key → t = u
  /-- A process that registered another limit than the persisted one never gets past it. -/
  refused : ∀ p, ∀ t ∈ (registries p).definitions, ∀ row, d.sys.db.topicLocks t.key = some row →
    row.maxConcurrency ≠ t.maxConcurrency → d'.phase p ≠ .seeded
  /-- A process that reads after its insert gets past it exactly if it registered what is
  persisted. -/
  check : ∀ p rows, d.phase p = .inserted →
    rows.Perm ((registries p).persisted d.sys.db.topicLocks) →
    ∃ d'', exec externals registries d (.check p rows) = .ok d'' ∧ (d''.phase p = .seeded ↔
      ∀ t ∈ (registries p).definitions, ∃ row, d.sys.db.topicLocks t.key = some row ∧
        row.maxConcurrency = t.maxConcurrency)
  /-- The metrics of a process that got past its read are returned, and show no mismatch. -/
  metrics : ∀ p, d.phase p = .seeded → ∀ dialect now, ∃ metrics,
    loadTopicMetrics dialect (registries p).definitions now d'.sys.db = .ok (metrics, d'.sys.db) ∧
      ∀ m ∈ metrics, m.configurationMismatch = false ∧
        m.maxConcurrency = m.configuredMaxConcurrency

theorem Limits.row_of_seeded (h : Limits registries d) {p : ℕ} (hp : d.phase p = .seeded)
    {t : TopicDefinition} (ht : t ∈ (registries p).definitions) :
    ∃ row, d.sys.db.topicLocks t.key = some row ∧ row.maxConcurrency = t.maxConcurrency := by
  obtain ⟨row, hrow⟩ := h.covered p (by rw [hp]; exact fun h => by cases h) t ht
  exact ⟨row, hrow, h.seeded p hp t ht row hrow⟩

theorem Limits.check (h : Limits registries d) {p : ℕ} {rows : List TopicLockRow}
    (hp : d.phase p = .inserted)
    (hrows : rows.Perm ((registries p).persisted d.sys.db.topicLocks)) :
    ∃ d'', exec externals registries d (.check p rows) = .ok d'' ∧ (d''.phase p = .seeded ↔
      ∀ t ∈ (registries p).definitions, ∃ row, d.sys.db.topicLocks t.key = some row ∧
        row.maxConcurrency = t.maxConcurrency) := by
  refine ⟨_, if_pos ⟨hp, hrows⟩, ?_⟩
  show Function.update d.phase p _ p = .seeded ↔ _
  rw [Function.update_self]
  have hread := checkPersisted_persisted h.keyed hrows
  constructor
  · intro hphase t ht
    obtain ⟨row, hrow⟩ := h.covered p (by rw [hp]; exact fun h => by cases h) t ht
    refine ⟨row, hrow, hread.mp ?_ t ht row hrow⟩
    by_contra hnot
    rw [if_neg hnot] at hphase
    cases hphase
  · intro hlimits
    rw [if_pos (hread.mpr fun t ht row hrow => ?_)]
    obtain ⟨row', hrow', hlimit⟩ := hlimits t ht
    rw [hrow, Option.some_inj] at hrow'
    rw [hrow', hlimit]

/-- The metrics of topics whose persisted limits are the registered ones. -/
theorem loadTopicMetrics_limits {dialect : Dialect} {definitions : List TopicDefinition}
    {now : DbMillis} {db : DB} (h : ∀ t ∈ definitions, ∃ row, db.topicLocks t.key = some row ∧
      row.maxConcurrency = t.maxConcurrency) :
    ∃ metrics, loadTopicMetrics dialect definitions now db = .ok (metrics, db) ∧ ∀ m ∈ metrics,
      m.configurationMismatch = false ∧ m.maxConcurrency = m.configuredMaxConcurrency := by
  have hpersisted : ∀ t ∈ definitions,
      (db.topicLocks t.key).map (·.maxConcurrency) = some t.maxConcurrency := by
    intro t ht
    obtain ⟨row, hrow, hlimit⟩ := h t ht
    rw [hrow, Option.map_some, hlimit]
  have hwp : wp (loadTopicMetrics dialect definitions now) (fun metrics db' => db' = db ∧
      ∀ m ∈ metrics, m.configurationMismatch = false ∧
        m.maxConcurrency = m.configuredMaxConcurrency) (fun _ => False) db := by
    simp only [loadTopicMetrics, wp_bind, wp_read, wp_selectRows]
    refine wp_imp wp_openDeadLetters ?_
    rintro rows db ⟨rfl, -⟩
    simp only [wp_pure, List.forall_mem_map]
    refine ⟨trivial, fun t ht => ?_⟩
    rw [hpersisted t ht]
    simp
  obtain ⟨metrics, _, hok, rfl, hlimits⟩ := wp_returns hwp
  exact ⟨metrics, hok, hlimits⟩

/-- The limits of a deployment. Whatever its processes register and however their starts and
the engine interleave, the first insert of a topic fixes its limit, the processes that got past
their read agree with it and with each other from then on, and a process that registered
another limit never gets past its read. -/
theorem run_limits (externals : Externals) (registries : ℕ → TopicRegistry)
    (before after : List DeploymentAction) :
    let d := Deployment.run externals registries init before
    FixesLimits externals registries d (Deployment.run externals registries d after) := by
  intro d
  have h : Limits registries d := .run .init before
  have h' : Limits registries (Deployment.run externals registries d after) := h.run after
  have hkeeps : Keeps d (Deployment.run externals registries d after) := h.run_keeps after
  have hrow : ∀ p, d.phase p = .seeded → ∀ t ∈ (registries p).definitions, ∃ row,
      (Deployment.run externals registries d after).sys.db.topicLocks t.key = some row ∧
        row.maxConcurrency = t.maxConcurrency :=
    fun p hp t ht => h'.row_of_seeded (hkeeps.seeded p hp) ht
  refine ⟨hkeeps.rows, h.origin, fun p hp => ⟨hkeeps.seeded p hp, hrow p hp⟩, ?_, ?_,
    fun p rows hp hrows => h.check hp hrows, fun p hp dialect now =>
      loadTopicMetrics_limits (hrow p hp)⟩
  · intro p q hp hq t ht u hu hkey
    obtain ⟨row, hrowt, hlimit⟩ := hrow p hp t ht
    obtain ⟨row', hrowu, hlimit'⟩ := h'.row_of_seeded hq hu
    rw [← hkey, hrowt, Option.some_inj] at hrowu
    obtain ⟨key, limit⟩ := t
    obtain ⟨key', limit'⟩ := u
    simp_all
  · intro p t ht row hrow hne hp
    obtain ⟨row', hrow', hlimit⟩ := h'.row_of_seeded hp ht
    rw [hkeeps.rows _ _ hrow, Option.some_inj] at hrow'
    exact hne (hrow' ▸ hlimit)

end Deployment

end DurableWorkflows
