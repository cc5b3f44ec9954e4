import DurableWorkflows.Engine.ExpiredScan
import DurableWorkflows.Engine.Visits

/-!
# Claims beside locked rows

The claims of workflows and activities read their first 32 candidates without a lock and relock
them one by one, skipping the rows that other transactions hold. Unlike the scan for expired
leases they do not go on to a second page, so 32 held rows hide the candidates behind them.

## Main definitions

- `readyWorkflows`: the candidates of `claim_row` without their limit
- `DB.Recovers`, `DB.recovered`: the recovery of an expired lease, read off the rows
- `ClaimBatch.Visits`: a batch gets through its topics

## Main results

- `claimRow_iff`, `claimOne_iff`, `claimBatch_iff`: when the claims claim
- `run_lockedRows`
-/

namespace DurableWorkflows

open Transaction

variable {db db' db₁ : DB} {now : DbMillis} {token : LeaseToken} {workerId topic : String}

-- ════════════════════════════════════════════════════════════════════════
-- Workflows
-- ════════════════════════════════════════════════════════════════════════

section Workflows

variable {config : CoordinatorConfig} {registry : WorkflowRegistry} {locked : WorkflowId → Bool}
  {row : WorkflowRow}

/-- The due ready rows of local definitions in the order of the claims. -/
def readyWorkflows (registry : WorkflowRegistry) (now : DbMillis) (db : DB) : List WorkflowRow :=
  orderBy (fun r => r.availableAt) (db.workflows.select fun r =>
    (r.kind, r.version) ∈ registry.definitionKeys && readyAt now r)

/-- The end of a lease that is drawn now. -/
def CoordinatorConfig.leaseEnd (config : CoordinatorConfig) (now : DbMillis) : Option DbMillis :=
  match durationMillis config.leaseDuration with
  | .ok millis => DbMillis.checkedPlusMillis now millis
  | .error _ => none

theorem mem_readyWorkflows : row ∈ readyWorkflows registry now db ↔
    db.workflows.find row.id = some row ∧ (row.kind, row.version) ∈ registry.definitionKeys ∧
      readyAt now row = true := by
  rw [readyWorkflows, mem_orderBy, Table.mem_select, Bool.and_eq_true, decide_eq_true_eq]
  rfl

/-- The relocks of candidates find the first that is free. -/
theorem lockFirst_stored {qualifies : WorkflowRow → Bool} {rows : List WorkflowRow}
    (hstored : ∀ row ∈ rows, db.workflows.find row.id = some row ∧ qualifies row = true) :
    lockFirst locked qualifies (rows.map (·.id)) db =
      .ok (rows.find? fun row => !locked row.id, db) := by
  induction rows with
  | nil => rfl
  | cons row rows ih =>
    obtain ⟨⟨hfind, hqualifies⟩, hrest⟩ := List.forall_mem_cons.mp hstored
    rw [List.map_cons, lockFirst_cons, hfind, Option.filter_some, hqualifies, Bool.and_true,
      List.find?_cons]
    cases locked row.id with
    | false => rfl
    | true => exact ih hrest

/-- The claim of a ready row takes the first candidate that is free, and it does not fail. -/
theorem wp_claimReady_takes {expiry : DbMillis} :
    wp (claimReady registry locked workerId token expiry now)
      (fun o _ => o.isSome = true ↔
        ∃ row ∈ (readyWorkflows registry now db).take claimScanLimit, locked row.id = false)
      (fun _ => False) db := by
  let candidates := (readyWorkflows registry now db).take claimScanLimit
  have hstored : ∀ row ∈ candidates, db.workflows.find row.id = some row ∧ readyAt now row = true :=
    fun row hrow =>
      have hmem := mem_readyWorkflows.mp (List.mem_of_mem_take hrow)
      ⟨hmem.1, hmem.2.2⟩
  have hlock : lockFirst locked (readyAt now) (candidates.map fun r => r.id) db = _ :=
    lockFirst_stored hstored
  rw [claimReady, wp_bind, wp_selectRows]
  refine (wp_bind _ _).mpr (wp_eq_ok hlock ?_)
  cases hfree : candidates.find? fun row => !locked row.id with
  | none =>
    refine ⟨fun h => (by cases h), fun htaken => ?_⟩
    obtain ⟨row, hrow, hunlocked⟩ := htaken
    have hheld := List.find?_eq_none.mp hfree row hrow
    rw [hunlocked] at hheld
    exact absurd rfl hheld
  | some row =>
    have hrow := List.mem_of_find?_eq_some hfree
    obtain ⟨hfind, hready⟩ := hstored row hrow
    rw [readyAt, Bool.and_eq_true] at hready
    refine (wp_bind _ _).mpr (wp_updateWorkflow_of hfind hready.1 fun db' _ => ?_)
    have hunlocked := List.find?_some hfree
    rw [Bool.not_eq_true'] at hunlocked
    exact ⟨fun _ => ⟨row, hrow, hunlocked⟩, fun _ => rfl⟩

/-- The log of the workflow whose lease is recovered has room for the event. -/
def DB.Recovers (db : DB) (locked : WorkflowId → Bool) (now : DbMillis) : Prop :=
  ∀ row, db.expiredLease locked now = some row → (db.eventsOf row.id).length < I32.max

/-- A row after the recovery of its lease. -/
def WorkflowRow.recovered (row : WorkflowRow) (now : DbMillis) : WorkflowRow :=
  { row.leaseCleared with status := .ready, availableAt := now, updatedAt := now }

/-- The workflows after the recovery, beside the other tables as they were. -/
def DB.recovered (db : DB) (locked : WorkflowId → Bool) (now : DbMillis) : DB :=
  match db.expiredLease locked now with
  | some row => { db with workflows := db.workflows.modify row.id (·.recovered now) }
  | none => db

theorem find_recovered {w : WorkflowId} (h : db.expiredLease locked now = some row) :
    (db.recovered locked now).workflows.find w =
      if w = row.id then (db.workflows.find w).map (·.recovered now) else db.workflows.find w := by
  rw [DB.recovered, h]
  rfl

/-- The recovery of a lease goes through if the log has room. -/
theorem wp_recoverExpired_exact (hs : db.Sound) :
    wp (recoverExpired (db.expiredLease locked now) now)
      (fun _ db₁ => db.Recovers locked now ∧
        ∀ w, db₁.workflows.find w = (db.recovered locked now).workflows.find w)
      (fun _ => ¬db.Recovers locked now) db := by
  cases hfound : db.expiredLease locked now with
  | none =>
    refine ⟨fun row hrow => ?_, fun w => ?_⟩
    · rw [hfound] at hrow
      cases hrow
    · rw [DB.recovered, hfound]
  | some row =>
    obtain ⟨hrow, hexpired⟩ := stored_of_expiredLease hfound
    have hroom : db.Recovers locked now ↔ (db.eventsOf row.id).length < I32.max := by
      rw [DB.Recovers, hfound]
      constructor
      · exact fun h => h row rfl
      · rintro h row' ⟨⟩
        exact h
    rw [hroom]
    refine wp_mono (wp_recoverLease_exact hs hrow hexpired) ?_ fun e he => not_lt.mpr he.2
    rintro - db₁ ⟨hlt, hself, hother⟩
    refine ⟨hlt, fun w => ?_⟩
    rw [find_recovered hfound]
    by_cases hw : w = row.id
    · rw [if_pos hw, hw, hrow]
      exact hself
    · rw [if_neg hw]
      exact hother w hw

/-- `claim_row` claims a workflow exactly if the recovery before it goes through, the new lease
has an end, and one of the first 32 ready rows is free. -/
theorem claimRow_iff (hs : db.Sound) :
    (∃ claim db', claimRow config registry locked workerId token now db = .ok (some claim, db')) ↔
      (config.leaseEnd now).isSome = true ∧ db.Recovers locked now ∧
        ∃ row ∈ (readyWorkflows registry now (db.recovered locked now)).take claimScanLimit,
          locked row.id = false := by
  apply wp_some_iff
  rw [claimRow, wp_bind, wp_ofExcept, CoordinatorConfig.leaseEnd]
  refine ⟨fun millis hmillis => ?_, fun error herror => ?_⟩
  · rw [hmillis, wp_bind, wp_orAbort]
    refine ⟨fun expiry hexpiry => ?_, fun hnone h => ?_⟩
    · rw [wp_bind, wp_read, wp_bind]
      refine wp_eq_ok (findExpired_first now db locked) ?_
      rw [wp_bind]
      refine wp_mono (wp_recoverExpired_exact hs) ?_ fun e hfull h => hfull h.2.1
      rintro - db₁ ⟨hrecovers, hrows⟩
      have hready : readyWorkflows registry now db₁ =
          readyWorkflows registry now (db.recovered locked now) := by
        refine congrArg (orderBy fun r : WorkflowRow => r.availableAt)
          (Table.select_congr fun w => ?_)
        exact congrArg (Option.filter _) (hrows w)
      rw [and_iff_right (Option.isSome_iff_exists.mpr ⟨expiry, hexpiry⟩), and_iff_right hrecovers,
        ← hready]
      exact wp_mono wp_claimReady_takes (fun o db' ho => ho) fun _ h => h.elim
    · have hsome : (DbMillis.checkedPlusMillis now millis).isSome = true := h.1
      rw [hnone] at hsome
      cases hsome
  · rw [herror]
    rintro ⟨hnone, -⟩
    cases hnone

end Workflows

-- ════════════════════════════════════════════════════════════════════════
-- Activities
-- ════════════════════════════════════════════════════════════════════════

section Activities

variable {externals : Externals} {registry : ActivityRegistry} {topics : List TopicDefinition}
  {locks : HeldLocks} {started : Instant} {first : LeaseToken}

/-- A registered topic with a free slot. -/
structure DB.FreeSlot (db : DB) (topics : List TopicDefinition) (locks : HeldLocks)
    (topic : String) (now : DbMillis) : Prop where
  registered : ∃ t ∈ topics, t.key = topic
  slot : ∃ lock, db.topicLocks topic = some lock ∧
    db.occupied locks topic now < lock.maxConcurrency

/-- `claim_one` claims an activity exactly if the reconciliation before it goes through, one of the
first 32 candidates can be leased, and it gets past those before. -/
theorem claimOne_iff (hc : db.Claims) (hslot : db.FreeSlot topics locks topic now) :
    (∃ claim db', claimOne externals registry topics locks topic workerId token now started db =
        .ok (some claim, db')) ↔
      db.Reconciles locks topic now ∧
        Tried (fun act => act.Leasable locks now started) (db.Passes locks topic now started) 1
          (db.candidates externals registry locks topic now) ∧
        ∃ act ∈ db.candidates externals registry locks topic now,
          act.Leasable locks now started := by
  obtain ⟨hregistered, lock, hlock, hfree⟩ := hslot
  apply wp_some_iff
  rw [claimOne, wp_bind, wp_ensure]
  refine ⟨fun _ => ?_, fun h => absurd hregistered h⟩
  rw [wp_bind, wp_read, wp_bind, hlock, wp_orAbort]
  refine ⟨fun lock' hlock' => ?_, fun hnone => by cases hnone⟩
  obtain rfl := Option.some_inj.mp hlock'
  rw [wp_bind]
  refine wp_mono (wp_reconcileExpired_exact hc) ?_ fun e hfull h => hfull h.1
  rintro _ db₁ ⟨rfl, hreconciles, hreconciled⟩
  rw [wp_bind]
  refine wp_eq_ok (hreconciled.inFlight_eq hc.sound) ?_
  rw [wp_ite]
  refine ⟨fun hfull => absurd hfull (not_le.mpr hfree), fun _ => ?_⟩
  rw [wp_bind]
  refine wp_eq_ok (hreconciled.claimCandidates_eq hc) ?_
  refine wp_mono (wp_claimFirst_exact (hreconciled.shows hc)) ?_ fun e hfails h => hfails h.2.1
  rintro o db₂ ⟨htried, hiff⟩
  rw [and_iff_right hreconciles, and_iff_right htried, hiff]
  simp only [decide_eq_true_eq]

end Activities

-- ════════════════════════════════════════════════════════════════════════
-- Batches
-- ════════════════════════════════════════════════════════════════════════

section Batches

/-- What a batch of claims is made with. -/
structure ClaimBatch where
  externals : Externals
  registry : ActivityRegistry
  locks : HeldLocks
  limit : ℕ
  capacity : List (String × ℕ)
  now : DbMillis
  started : Instant

namespace ClaimBatch

/-- The candidates of a topic. -/
def candidates (b : ClaimBatch) (db : DB) (topic : String) : List ActivityRow :=
  db.candidates b.externals b.registry b.locks topic b.now

/-- The batch leases the candidate. -/
def leasable (b : ClaimBatch) (act : ActivityRow) : Bool := act.Leasable b.locks b.now b.started

/-- The batch gets past the candidate. -/
def Passes (b : ClaimBatch) (db : DB) (topic : String) (act : ActivityRow) : Prop :=
  db.Passes b.locks topic b.now b.started act

/-- The room for a topic after `n` claims: the free slots of the topic and of the worker, and what
is left of the limit. -/
def wanted (b : ClaimBatch) (db : DB) (lock : TopicLockRow) (n : ℕ) : ℕ :=
  min (min (lock.maxConcurrency - db.occupied b.locks lock.topic b.now)
    ((b.capacity.lookup lock.topic).getD 0)) (b.limit - n)

/-- The claims of a topic after `n` claims. -/
def leased (b : ClaimBatch) (db : DB) (lock : TopicLockRow) (n : ℕ) : ℕ :=
  min (b.wanted db lock n) ((b.candidates db lock.topic).countP b.leasable)

/-- The number of claims after the visits of the topics. -/
def claimed (b : ClaimBatch) (db : DB) : List TopicLockRow → ℕ → ℕ
  | [], n => n
  | lock :: locked, n => b.claimed db locked (n + b.leased db lock n)

/-- The batch gets through the topics: it takes back the leases of each, and past the candidates
that it tries. -/
def Visits (b : ClaimBatch) (db : DB) : List TopicLockRow → ℕ → Prop
  | [], _ => True
  | lock :: locked, n =>
    db.Reconciles b.locks lock.topic b.now ∧
    Tried b.leasable (b.Passes db lock.topic) (b.wanted db lock n) (b.candidates db lock.topic) ∧
    b.Visits db locked (n + b.leased db lock n)

/-- The batch has the locks of all topics, and room for a claim of `topic` when it comes to it. -/
structure Room (b : ClaimBatch) (db : DB) (topics : List TopicDefinition) (topic : String) : Prop where
  nodup : (topics.map (·.key)).Nodup
  keyed : db.LocksKeyed
  locked : (lockedTopics topics b.locks db).length = topics.length
  slot : ∃ before lock after, lockedTopics topics b.locks db = before ++ lock :: after ∧
    lock.topic = topic ∧ 0 < b.wanted db lock (b.claimed db before 0)

variable {b : ClaimBatch} {locked : List TopicLockRow} {lock : TopicLockRow}
  {claims : List ActivityClaim} {first : LeaseToken} {db₀ : DB}

/-- The visit of a topic, in a state that is the same for it as `db`. -/
theorem wp_visit (hregistry : b.registry.definitions.isEmpty = false) (hc : db₀.Claims)
    (hsame : SameTopic lock.topic db db₀)
    (hclaims : ∀ claim ∈ claims, claim.row.topic ≠ lock.topic) :
    wp (claimTopics b.externals b.registry b.locks b.limit b.capacity workerId first b.now b.started
        [lock] claims)
      (fun claims' db' => db.Reconciles b.locks lock.topic b.now ∧
        Tried b.leasable (b.Passes db lock.topic) (b.wanted db lock claims.length)
          (b.candidates db lock.topic) ∧
        claims'.length = claims.length + b.leased db lock claims.length ∧
        Visit lock.topic db₀ db')
      (fun _ => ¬(db.Reconciles b.locks lock.topic b.now ∧
        Tried b.leasable (b.Passes db lock.topic) (b.wanted db lock claims.length)
          (b.candidates db lock.topic))) db₀ := by
  have hzero : claimsOf lock.topic claims = 0 := claimsOf_eq_zero hclaims
  rw [claimTopics, wp_bind]
  refine wp_mono (wp_reconcileExpired_exact hc) ?_
    fun e hfull h => hfull (hsame.reconciles_iff.mpr h.1)
  rintro _ db₁ ⟨rfl, hreconciles, hreconciled⟩
  have hreconciles : db.Reconciles b.locks lock.topic b.now := hsame.reconciles_iff.mp hreconciles
  have hvisit : Visit lock.topic db₀ db₁ := hreconciled.visit
  have hcandidates : db₀.candidates b.externals b.registry b.locks lock.topic b.now =
      b.candidates db lock.topic := hsame.candidates_eq
  have hshows : Shows b.registry b.locks b.now b.started b.leasable (b.Passes db lock.topic) db₁
      (b.candidates db lock.topic) := by
    have hshows₀ : Shows b.registry b.locks b.now b.started _ _ db₁ _ := hreconciled.shows hc
    rw [hcandidates] at hshows₀
    exact ⟨hshows₀.claims, hshows₀.nodup, hshows₀.takes, fun c hmem =>
      (hshows₀.claimable c hmem).trans (hsame.passes_iff hmem)⟩
  rw [wp_bind]
  refine wp_eq_ok (hreconciled.inFlight_eq hc.sound) ?_
  rw [hsame.occupied_eq, and_iff_right hreconciles, wp_ite]
  refine ⟨fun hfull => ?_, fun hroom => ?_⟩
  · have hfull : b.wanted db lock claims.length = 0 := hfull
    have hleased : b.leased db lock claims.length = 0 := by
      rw [leased, hfull, Nat.zero_min]
    rw [hfull, hleased]
    exact ⟨hreconciles, tried_zero, rfl, hvisit⟩
  rw [hregistry, if_neg Bool.false_ne_true, wp_bind]
  refine wp_eq_ok (hreconciled.claimCandidates_eq hc) ?_
  rw [hcandidates, wp_bind]
  have htopics : ∀ c ∈ b.candidates db lock.topic, db₁.activityTopics c.id = some lock.topic := by
    intro c hmem
    rw [← hcandidates] at hmem
    obtain ⟨hfind, -, htopic, -⟩ := mem_pendingActivities.mp (List.mem_of_mem_take hmem)
    rw [DB.activityTopics, hreconciled.find_activity, hfind, Option.map_some, htopic]
  have hwanted : min (b.limit - claims.length)
      (b.wanted db lock claims.length - claimsOf lock.topic claims) =
        b.wanted db lock claims.length := by
    rw [hzero, Nat.sub_zero]
    exact min_eq_right (min_le_right _ _)
  refine wp_mono (wp_claimUpTo_exact hshows htopics hwanted) ?_ fun e hfails h => hfails h
  rintro claims' db₂ ⟨htried, hlength, hvisit₂⟩
  exact ⟨hreconciles, htried, hlength, hvisit.trans hvisit₂⟩

/-- A topic is among the claims if its own turn claimed something. -/
theorem exists_claim_iff {topic : String} {new later : List ActivityClaim}
    (hclaims : ∀ claim ∈ claims, claim.row.topic ≠ topic)
    (hnew : ∀ claim ∈ new, claim.row.topic = topic)
    (hlater : ∀ claim ∈ later, claim.row.topic ≠ topic) :
    (∃ claim ∈ claims ++ new ++ later, claim.row.topic = topic) ↔ 0 < new.length := by
  rw [List.length_pos_iff_exists_mem]
  constructor
  · rintro ⟨claim, hclaim, htopic⟩
    rcases List.mem_append.mp hclaim with hclaim | hclaim
    · rcases List.mem_append.mp hclaim with hclaim | hclaim
      · exact absurd htopic (hclaims claim hclaim)
      · exact ⟨claim, hclaim⟩
    · exact absurd htopic (hlater claim hclaim)
  · rintro ⟨claim, hclaim⟩
    exact ⟨claim, List.mem_append_left _ (List.mem_append_right _ hclaim), hnew claim hclaim⟩

/-- The loop over the topics, from a state that is the same for them as `db`. -/
theorem wp_claimTopics_exact (hregistry : b.registry.definitions.isEmpty = false)
    (hc : db₀.Claims) (hsame : ∀ lock ∈ locked, SameTopic lock.topic db db₀)
    (hnodup : (locked.map (·.topic)).Nodup)
    (hclaims : ∀ claim ∈ claims, claim.row.topic ∉ locked.map (·.topic)) :
    wp (claimTopics b.externals b.registry b.locks b.limit b.capacity workerId first b.now b.started
        locked claims)
      (fun claims' _ => b.Visits db locked claims.length ∧
        ∀ before lock after, locked = before ++ lock :: after →
          ((∃ claim ∈ claims', claim.row.topic = lock.topic) ↔
            0 < b.leased db lock (b.claimed db before claims.length)))
      (fun _ => ¬b.Visits db locked claims.length) db₀ := by
  induction locked generalizing claims db₀ with
  | nil =>
    refine ⟨trivial, fun before lock after heq => ?_⟩
    cases before <;> cases heq
  | cons lock locked ih =>
    obtain ⟨hlock, hrest⟩ := List.forall_mem_cons.mp hsame
    obtain ⟨hfresh, hnodup⟩ := List.nodup_cons.mp (List.map_cons ▸ hnodup)
    have hother : ∀ claim ∈ claims, claim.row.topic ≠ lock.topic := fun claim hclaim heq =>
      hclaims claim hclaim (heq ▸ List.mem_cons_self)
    rw [← List.singleton_append, claimTopics_append hregistry, wp_bind]
    refine wp_mono (wp_and wp_claimTopics_adds (wp_visit hregistry hc hlock hother)) ?_
      fun e hfails h => hfails.2 ⟨h.1, h.2.1⟩
    rintro _ db₁ ⟨⟨new, rfl, hnew⟩, hreconciles, htried, hlength, hvisit⟩
    have hnew : ∀ claim ∈ new, claim.row.topic = lock.topic := fun claim hclaim =>
      List.mem_singleton.mp (hnew claim hclaim)
    have hrest₁ : ∀ lock' ∈ locked, SameTopic lock'.topic db db₁ := by
      intro lock' hlock'
      refine (hrest lock' hlock').trans (hvisit.same hc fun heq => hfresh ?_)
      exact heq ▸ List.mem_map_of_mem hlock'
    have hclaims₁ : ∀ claim ∈ claims ++ new, claim.row.topic ∉ locked.map (·.topic) := by
      intro claim hclaim hmem
      rcases List.mem_append.mp hclaim with hclaim | hclaim
      · exact hclaims claim hclaim (List.mem_cons_of_mem _ hmem)
      · exact hfresh (hnew claim hclaim ▸ hmem)
    have hvisits : b.Visits db (lock :: locked) claims.length ↔
        b.Visits db locked (claims ++ new).length := by
      rw [hlength]
      exact ⟨fun h => h.2.2, fun h => ⟨hreconciles, htried, h⟩⟩
    refine wp_mono (wp_and wp_claimTopics_adds (ih (hc.evolves hvisit.evolves) hrest₁ hnodup
      hclaims₁)) ?_ fun e hfails h => hfails.2 (hvisits.mp h)
    rintro _ db₂ ⟨⟨new', rfl, hnew'⟩, hvisited, hiff⟩
    refine ⟨hvisits.mpr hvisited, fun before lock' after heq => ?_⟩
    cases before with
    | nil =>
      obtain ⟨rfl, rfl⟩ := List.cons_eq_cons.mp heq
      rw [List.length_append, Nat.add_left_cancel_iff] at hlength
      show _ ↔ 0 < b.leased db lock claims.length
      rw [← hlength]
      exact exists_claim_iff hother hnew fun claim hclaim htopic =>
        hfresh (htopic ▸ hnew' claim hclaim)
    | cons lock'' before =>
      obtain ⟨rfl, rfl⟩ := List.cons_eq_cons.mp heq
      rw [hiff before lock' after rfl, hlength]
      rfl

theorem lookup_eq_zero {capacity : List (String × ℕ)} (h : ∀ c ∈ capacity, c.2 = 0) :
    (capacity.lookup topic).getD 0 = 0 := by
  induction capacity with
  | nil => rfl
  | cons c capacity ih =>
    obtain ⟨hc, hrest⟩ := List.forall_mem_cons.mp h
    rw [List.lookup_cons]
    cases topic == c.1 with
    | true => exact hc
    | false => exact ih hrest

/-- `claim_batch` claims an activity of a topic that it has room for exactly if it gets through all
topics and one of the first 32 candidates of this topic can be leased. -/
theorem claimBatch_iff {topics : List TopicDefinition} (hc : db.Claims)
    (hregistry : b.registry.definitions.isEmpty = false) (hroom : b.Room db topics topic) :
    (∃ claims db', claimBatch b.externals b.registry topics b.locks b.limit b.capacity workerId
        first b.now b.started db = .ok (claims, db') ∧ ∃ claim ∈ claims, claim.row.topic = topic) ↔
      b.Visits db (lockedTopics topics b.locks db) 0 ∧
        ∃ act ∈ b.candidates db topic, act.Leasable b.locks b.now b.started := by
  obtain ⟨hkeys, hkeyed, hcomplete, before, lock, after, hsplit, rfl, hslot⟩ := hroom
  have hguard : ¬(b.limit = 0 ∨ (∀ c ∈ b.capacity, c.2 = 0) ∨
      (lockedTopics topics b.locks db).length ≠ topics.length) := by
    rintro (hzero | hnone | hmissing)
    · rw [wanted, hzero] at hslot
      omega
    · rw [wanted, lookup_eq_zero hnone] at hslot
      omega
    · exact hmissing hcomplete
  have hwhole : claimBatch b.externals b.registry topics b.locks b.limit b.capacity workerId first
      b.now b.started db = claimTopics b.externals b.registry b.locks b.limit b.capacity workerId
        first b.now b.started (lockedTopics topics b.locks db) [] db :=
    congrFun (if_neg hguard) db
  have hleased : 0 < b.leased db lock (b.claimed db before 0) ↔
      ∃ act ∈ b.candidates db lock.topic, act.Leasable b.locks b.now b.started := by
    rw [leased, lt_min_iff, and_iff_right hslot, List.countP_pos_iff]
    simp only [leasable, decide_eq_true_eq]
  rw [hwhole, ← hleased]
  apply wp_exists_iff
  refine wp_mono (wp_claimTopics_exact hregistry hc (fun _ _ => .refl _ db)
    (nodup_lockedTopics hkeys hkeyed) fun _ h => by cases h) ?_ fun e hfails h => hfails h.1
  rintro claims db' ⟨hvisits, hiff⟩
  rw [hiff before lock after hsplit]
  exact (and_iff_right hvisits).symm

end ClaimBatch

end Batches

/-- The workflow of an activity is free, and the row of the activity is valid. -/
def HeldLocks.Frees (locks : HeldLocks) (act : ActivityRow) : Prop :=
  locks.workflows act.workflowId = false ∧ ¬act.Poison

instance (locks : HeldLocks) (act : ActivityRow) : Decidable (locks.Frees act) :=
  inferInstanceAs (Decidable (_ ∧ _))

/-- A worker with a candidate has a definition. -/
theorem definitions_of_mem_pendingActivities {registry : ActivityRegistry} {act : ActivityRow}
    (h : act ∈ pendingActivities registry topic now db) : registry.definitions.isEmpty = false := by
  obtain ⟨definition, hdefinition, -⟩ := List.any_eq_true.mp (mem_pendingActivities.mp h).2.1
  exact List.isEmpty_eq_false_iff.mpr (List.ne_nil_of_mem hdefinition)

/-- **Claims beside locked rows.** Whenever a due ready row is free, `claim_row` claims a workflow,
if and only if the recovery before it goes through, the new lease has an end, and one of the first
32 rows is free that are ready then; whenever a slot of a topic is free and a valid activity pending
whose workflow is free, `claim_one` claims an activity, if and only if the reconciliation before it
goes through, one of the first 32 candidates can be leased, and it gets past those before; and
`claim_batch` claims one of the topic, if and only if it gets through all topics and one of the
first 32 candidates of this topic can be leased. -/
theorem run_lockedRows (externals : Externals) (actions : List Action) :
    let db := (run externals Sys.init actions).db
    (∀ config registry locked workerId token now,
      ((∃ row ∈ readyWorkflows registry now db, locked row.id = false) →
          ∃ claim db', claimRow config registry locked workerId token now db =
            .ok (some claim, db')) ↔
        ((∃ row ∈ readyWorkflows registry now db, locked row.id = false) →
          (config.leaseEnd now).isSome = true ∧ db.Recovers locked now ∧
            ∃ row ∈ (readyWorkflows registry now (db.recovered locked now)).take claimScanLimit,
              locked row.id = false)) ∧
    (∀ registry topics locks topic workerId token now started,
      db.FreeSlot topics locks topic now →
      (((∃ act ∈ pendingActivities registry topic now db, locks.Frees act) →
          ∃ claim db',
            claimOne externals registry topics locks topic workerId token now started db =
              .ok (some claim, db')) ↔
        ((∃ act ∈ pendingActivities registry topic now db, locks.Frees act) →
          db.Reconciles locks topic now ∧
          Tried (fun act => act.Leasable locks now started) (db.Passes locks topic now started) 1
            (db.candidates externals registry locks topic now) ∧
          ∃ act ∈ db.candidates externals registry locks topic now,
            act.Leasable locks now started))) ∧
    ∀ (b : ClaimBatch) topics topic workerId first, b.Room db topics topic →
      (((∃ act ∈ pendingActivities b.registry topic b.now db, b.locks.Frees act) →
          ∃ claims db', claimBatch b.externals b.registry topics b.locks b.limit b.capacity workerId
            first b.now b.started db = .ok (claims, db') ∧
              ∃ claim ∈ claims, claim.row.topic = topic) ↔
        ((∃ act ∈ pendingActivities b.registry topic b.now db, b.locks.Frees act) →
          b.Visits db (lockedTopics topics b.locks db) 0 ∧
          ∃ act ∈ b.candidates db topic, act.Leasable b.locks b.now b.started)) := by
  intro db
  have hc : db.Claims := run_claimsInv externals actions
  refine ⟨?_, ?_, ?_⟩
  · intro config registry locked workerId token now
    exact imp_congr_right fun _ => claimRow_iff hc.sound
  · intro registry topics locks topic workerId token now started hslot
    exact imp_congr_right fun _ => claimOne_iff hc hslot
  · intro b topics topic workerId first hroom
    refine imp_congr_right fun hfree => ?_
    obtain ⟨act, hact, -⟩ := hfree
    exact ClaimBatch.claimBatch_iff hc (definitions_of_mem_pendingActivities hact) hroom

namespace Sample

/-- 33 workflows are ready. -/
def readyRun : List Action := List.replicate 33 (.start workflow ⟨none, none, none⟩ 0)

/-- 33 workflows wait for an activity of one topic. -/
def waitingRun : List Action :=
  readyRun ++ (List.range 33).flatMap (fun i => activation i (.runActivity "null" activity) 0) ++
    [.seedLocks topics 0]

/-- An application transaction holds the first 32 workflows. -/
def heldWorkflows (w : WorkflowId) : Bool := w ≤ 32

/-- Whether a claim returns none. -/
def claimsNone {α : Type} (x : Except DurableError (Option α × DB)) : Bool :=
  match x with
  | .ok (o, _) => o.isNone
  | .error _ => false

theorem not_some_of_claimsNone {α : Type} {x : Except DurableError (Option α × DB)}
    (h : claimsNone x = true) : ¬∃ claim db', x = .ok (some claim, db') := by
  rintro ⟨claim, db', rfl⟩
  cases h

/-- The last workflow is free, and nobody claims it or its activity. -/
theorem last_hidden :
    (¬∀ externals actions config registry locked workerId token now,
      (∃ row ∈ readyWorkflows registry now (run externals Sys.init actions).db,
        locked row.id = false) →
      ∃ claim db', claimRow config registry locked workerId token now
        (run externals Sys.init actions).db = .ok (some claim, db')) ∧
    ¬∀ externals actions registry topics locks topic workerId token now started,
      (run externals Sys.init actions).db.FreeSlot topics locks topic now →
      (∃ act ∈ pendingActivities registry topic now (run externals Sys.init actions).db,
        locks.Frees act) →
      ∃ claim db', claimOne externals registry topics locks topic workerId token now started
        (run externals Sys.init actions).db = .ok (some claim, db') := by
  constructor
  · intro hall
    have hnone : claimsNone (claimRow config workflows heldWorkflows "worker" 0 0
        (run Sample.externals Sys.init readyRun).db) = true := by decide +kernel
    exact not_some_of_claimsNone hnone (hall Sample.externals readyRun config workflows
      heldWorkflows "worker" 0 0 (by decide +kernel))
  · intro hall
    have hnone : claimsNone (claimOne Sample.externals activities topics
        ⟨heldWorkflows, fun _ => false, fun _ => false⟩ "t" "worker" 0 0 0
        (run Sample.externals Sys.init waitingRun).db) = true := by decide +kernel
    have hany : ((run Sample.externals Sys.init waitingRun).db.topicLocks "t").any (fun lock =>
        (run Sample.externals Sys.init waitingRun).db.occupied
          ⟨heldWorkflows, fun _ => false, fun _ => false⟩ "t" 0 < lock.maxConcurrency) = true := by
      decide +kernel
    obtain ⟨lock, hlock, hfree⟩ := (Option.any_eq_true _ _).mp hany
    have hslot : (run Sample.externals Sys.init waitingRun).db.FreeSlot topics
        ⟨heldWorkflows, fun _ => false, fun _ => false⟩ "t" 0 :=
      ⟨by decide +kernel, lock, hlock, of_decide_eq_true hfree⟩
    exact not_some_of_claimsNone hnone (hall Sample.externals waitingRun activities topics
      ⟨heldWorkflows, fun _ => false, fun _ => false⟩ "t" "worker" 0 0 0 hslot (by decide +kernel))

end Sample

end DurableWorkflows
