import DurableWorkflows.Engine.Activations

/-!
# The bounds of a batch of claims

A batch visits the topics one after another. It claims no more activities of a
topic than its limit leaves beside those in flight and than the worker has room
for, and no more than its own limit in all. This holds on any database, also one
whose rows are malformed: a candidate stays in the topic that it was selected for.

## Main definitions

- `DB.activityTopics`: what a claim never changes
- `claimsOf`: the claims of a topic
- `inFlightAt`: what a batch finds in flight when it comes to a topic
- `BatchBounds`: what a batch may return

## Main results

- `wp_claimLockedCandidate_topic`: the topic of a claim is that of its candidate
- `wp_claimUpTo_bounded`: the loop over the candidates of a topic
- `claimBatch_bounded`
-/

namespace DurableWorkflows

open Transaction

variable {externals : Externals} {registry : ActivityRegistry} {locks : HeldLocks} {limit : ℕ}
  {capacity : List (String × ℕ)} {workerId topic : String} {first token : LeaseToken}
  {now : DbMillis} {started : Instant} {db db' : DB} {a : ActivityId} {w : WorkflowId}
  {claims : List ActivityClaim} {E : DurableError → Prop}

section Topics

/-- The topics of the activities. -/
def DB.activityTopics (db : DB) : ActivityId → Option String := fun a =>
  (db.activities.find a).map (·.topic)

theorem topics_fencedUpdate {p : ActivityRow → Bool} {f : ActivityRow → ActivityRow} {hf}
    (htopic : ∀ r, (f r).topic = r.topic) :
    Keeps DB.activityTopics (fencedUpdate activityTable a p f hf) := by
  refine .bind (fun db => ?_) fun _ => .ensure _ _
  rw [wp_updateRow]
  refine ⟨fun r hr _ => funext fun a' => ?_, fun _ => rfl⟩
  show ((db.activities.modify a f hf).find a').map (·.topic) = _
  rw [Table.find_modify]
  by_cases h : a' = a
  · subst h
    rw [if_pos rfl, Option.map_map]
    exact Option.map_congr fun r _ => htopic r
  · rw [if_neg h]
    rfl

/-- The topics are beside the workflows and their events. -/
theorem topics_of_beside {α : Type} {x : Tx α} (h : Keeps DB.beside x) :
    Keeps DB.activityTopics x :=
  fun db => wp_imp (h db) fun _ _ heq => funext fun a =>
    congrArg (fun tables => (tables.1.find a).map (·.topic)) heq

theorem topics_appendHistoryEvent {eventType : EventType} {actorType : ActorType}
    {actorId reason : Option String} {metadata : Option EventMetadata} :
    Keeps DB.activityTopics
      (appendHistoryEvent w eventType actorType actorId reason metadata now) :=
  topics_of_beside (.bind (keeps_nextEventSequence _) fun _ => beside_appendEvent _)

theorem topics_quarantineCandidate {row : ActivityRow} {reason message : String} :
    Keeps DB.activityTopics (quarantineCandidate row reason message now) :=
  .bind (topics_fencedUpdate fun _ => rfl) fun _ => .bind topics_appendHistoryEvent fun _ =>
    .bind (topics_of_beside beside_fencedUpdate) fun _ => topics_appendHistoryEvent

theorem topics_leaseCandidate {row : ActivityRow} {scheduleRunId : Option ScheduleRunId}
    {retryPolicy : RetryPolicy} :
    Keeps DB.activityTopics
      (leaseCandidate row scheduleRunId retryPolicy now started workerId token) :=
  .bind (.orAbort _ _) fun _ => .bind (.orAbort _ _) fun _ =>
    .bind (topics_fencedUpdate fun _ => rfl) fun _ =>
      .bind (.bind .read fun _ => .bind (.ensure _ _) fun _ => .modify fun _ => rfl) fun _ =>
        .bind (.ofExcept _) fun _ => .pure _

/-- The claim of a leased candidate is in its topic. -/
theorem wp_leaseCandidate_topic {row : ActivityRow} {scheduleRunId : Option ScheduleRunId}
    {retryPolicy : RetryPolicy} :
    wp (leaseCandidate row scheduleRunId retryPolicy now started workerId token)
      (fun claim db' => claim.row.topic = row.topic ∧ db'.activityTopics = db.activityTopics)
      (fun _ => True) db := by
  refine topics_leaseCandidate.wp_and ?_
  simp only [leaseCandidate, wp_bind, wp_orAbort, wp_ofExcept, wp_pure]
  refine ⟨fun attemptNumber _ => ⟨fun leaseExpiresAt _ => ?_, fun _ => trivial⟩, fun _ => trivial⟩
  refine wp_imp (wp_true _ _) fun _ db₁ _ => wp_imp (wp_true _ _) fun _ db₂ _ => ?_
  exact ⟨fun _ _ => trivial, fun _ _ => trivial⟩

theorem topics_claimLockedCandidate :
    Keeps DB.activityTopics (claimLockedCandidate registry locks a w now started workerId token) := by
  refine .bind (topics_of_beside keeps_findRow) fun workflow => ?_
  split
  · exact .pure _
  refine .bind (fun _ => rfl) fun row => ?_
  split
  · exact .pure _
  refine .ite (.pure _) (.ite ?_ (.ite ?_ ?_))
  · exact .bind topics_quarantineCandidate fun _ => .pure _
  · exact .bind topics_quarantineCandidate fun _ => .pure _
  · split
    · exact .bind topics_quarantineCandidate fun _ => .pure _
    · exact .bind topics_leaseCandidate fun _ => .pure _

/-- **The topic of a claim is that of its candidate**, whatever the database holds. -/
theorem wp_claimLockedCandidate_topic :
    wp (claimLockedCandidate registry locks a w now started workerId token)
      (fun o db' => (∀ claim, o = some claim → db.activityTopics a = some claim.row.topic) ∧
        db'.activityTopics = db.activityTopics) (fun _ => True) db := by
  refine topics_claimLockedCandidate.wp_and ?_
  have hnone : ∀ claim : ActivityClaim, none = some claim →
      db.activityTopics a = some claim.row.topic := fun _ h => by cases h
  have hquarantine : ∀ {x : Tx Unit}, wp (do x; return none) (fun (o : Option ActivityClaim) _ =>
      ∀ claim, o = some claim → db.activityTopics a = some claim.row.topic) (fun _ => True) db := by
    intro x
    rw [wp_bind]
    exact wp_imp (wp_true _ _) fun _ _ _ => hnone
  simp only [claimLockedCandidate, wp_bind, wp_findRow, workflowTable_get]
  split
  · exact hnone
  simp only [wp_bind, wp_findRow, activityTable_get]
  split
  · exact hnone
  rename_i row hrow
  obtain ⟨hfind, -⟩ := Option.filter_eq_some_iff.mp hrow
  have htopic : db.activityTopics a = some row.topic := by
    unfold DB.activityTopics
    rw [hfind, Option.map_some]
  rw [wp_ite]
  refine ⟨fun _ => hnone, fun _ => ?_⟩
  rw [wp_ite]
  refine ⟨fun _ => hquarantine, fun _ => ?_⟩
  rw [wp_ite]
  refine ⟨fun _ => hquarantine, fun _ => ?_⟩
  split
  · exact hquarantine
  · rw [wp_bind]
    refine wp_imp wp_leaseCandidate_topic fun claim db₁ h => ?_
    rintro _ ⟨⟩
    rw [htopic, h.1]

end Topics

section Bounds

/-- The number of claims of a topic. -/
def claimsOf (topic : String) (claims : List ActivityClaim) : ℕ :=
  (claims.filter fun claim => claim.row.topic == topic).length

/-- The attempts that a batch finds in flight when it comes to a topic, after those of
`before`. -/
def inFlightAt (externals : Externals) (registry : ActivityRegistry) (locks : HeldLocks)
    (limit : ℕ) (capacity : List (String × ℕ)) (workerId : String) (first : LeaseToken)
    (now : DbMillis) (started : Instant) (before : List TopicLockRow) (topic : String) : Tx ℕ := do
  let _ ← claimTopics externals registry locks limit capacity workerId first now started before []
  let unsettled ← reconcileExpired externals locks topic now
  inFlight topic unsettled now

theorem claimsOf_append (topic : String) (claims new : List ActivityClaim) :
    claimsOf topic (claims ++ new) = claimsOf topic claims + claimsOf topic new := by
  unfold claimsOf
  rw [List.filter_append, List.length_append]

theorem claimsOf_eq_zero (h : ∀ claim ∈ claims, claim.row.topic ≠ topic) :
    claimsOf topic claims = 0 := by
  unfold claimsOf
  rw [List.length_eq_zero_iff, List.filter_eq_nil_iff]
  exact fun claim hclaim heq => h claim hclaim (beq_iff_eq.mp heq)

/-- The loop over the candidates of a topic adds claims of this topic. -/
theorem wp_claimUpTo_adds {wanted : ℕ} {candidates : List ActivityRow}
    (hcandidates : ∀ c ∈ candidates, db.activityTopics c.id = some topic) :
    wp (claimUpTo registry locks topic limit wanted now started workerId first candidates claims)
      (fun claims' _ => ∃ new, claims' = claims ++ new ∧ ∀ claim ∈ new, claim.row.topic = topic)
      (fun _ => True) db := by
  induction candidates generalizing db claims with
  | nil => exact ⟨[], (List.append_nil _).symm, fun _ h => by cases h⟩
  | cons candidate candidates ih =>
    rw [claimUpTo, wp_ite]
    refine ⟨fun _ => ⟨[], (List.append_nil _).symm, fun _ h => by cases h⟩, fun _ => ?_⟩
    rw [wp_bind]
    refine wp_imp wp_claimLockedCandidate_topic fun o db₁ hpost => ?_
    obtain ⟨hclaim, htopics⟩ := hpost
    have hrest : ∀ c ∈ candidates, db₁.activityTopics c.id = some topic := by
      intro c hc
      rw [htopics]
      exact hcandidates c (List.mem_cons_of_mem _ hc)
    refine wp_imp (ih hrest) ?_
    rintro claims' - ⟨new, rfl, hnew⟩
    refine ⟨o.toList ++ new, List.append_assoc .., fun claim hmem => ?_⟩
    rcases List.mem_append.mp hmem with hmem | hmem
    · have h := hcandidates candidate List.mem_cons_self
      rw [hclaim claim (Option.mem_toList.mp hmem)] at h
      exact Option.some.inj h
    · exact hnew claim hmem

/-- **The loop over the candidates of a topic** claims from this topic, and within both of its
bounds. -/
theorem wp_claimUpTo_bounded {wanted : ℕ} {candidates : List ActivityRow}
    (hcandidates : ∀ c ∈ candidates, db.activityTopics c.id = some topic)
    (hlimit : claims.length ≤ limit) (hwanted : claimsOf topic claims ≤ wanted) :
    wp (claimUpTo registry locks topic limit wanted now started workerId first candidates claims)
      (fun claims' _ => claims'.length ≤ limit ∧ claimsOf topic claims' ≤ wanted)
      (fun _ => True) db := by
  induction candidates generalizing db claims with
  | nil => exact ⟨hlimit, hwanted⟩
  | cons candidate candidates ih =>
    rw [claimUpTo, wp_ite]
    refine ⟨fun _ => ⟨hlimit, hwanted⟩, fun hroom => ?_⟩
    obtain ⟨hlt, hlt'⟩ := not_or.mp hroom
    rw [wp_bind]
    refine wp_imp wp_claimLockedCandidate_topic fun o db₁ hpost => ?_
    obtain ⟨hclaim, htopics⟩ := hpost
    have hrest : ∀ c ∈ candidates, db₁.activityTopics c.id = some topic := by
      intro c hc
      rw [htopics]
      exact hcandidates c (List.mem_cons_of_mem _ hc)
    cases o with
    | none =>
      rw [Option.toList_none, List.append_nil]
      exact ih hrest hlimit hwanted
    | some claim =>
      have htopic : claim.row.topic = topic := by
        have h := hcandidates candidate List.mem_cons_self
        rw [hclaim claim rfl] at h
        exact Option.some.inj h
      have hone : claimsOf topic [claim] = 1 := by simp [claimsOf, htopic]
      refine ih hrest ?_ ?_
      · rw [Option.toList_some, List.length_append, List.length_singleton]
        exact Nat.lt_of_not_le hlt
      · rw [Option.toList_some, claimsOf_append, hone]
        exact Nat.lt_of_not_le hlt'

/-- The candidates of a topic are of this topic. -/
theorem topic_of_mem_claimCandidates {candidates : List ActivityRow}
    (hok : claimCandidates registry topic now db = .ok (candidates, db')) :
    db' = db ∧ ∀ c ∈ candidates, db.activityTopics c.id = some topic := by
  cases hok
  refine ⟨rfl, fun c hc => ?_⟩
  have hmem := mem_orderBy.mp (mem_orderBy.mp (List.mem_of_mem_take hc))
  obtain ⟨hfind, hp⟩ := Table.mem_select.mp hmem
  simp only [Bool.and_eq_true, beq_iff_eq] at hp
  unfold DB.activityTopics
  rw [show db.activities.find c.id = some c from hfind, Option.map_some, hp.1.1.1.2]

/-- The loop over the topics adds claims of these topics. -/
theorem wp_claimTopics_adds {locked : List TopicLockRow} :
    wp (claimTopics externals registry locks limit capacity workerId first now started locked claims)
      (fun claims' _ => ∃ new, claims' = claims ++ new ∧
        ∀ claim ∈ new, claim.row.topic ∈ locked.map (·.topic)) (fun _ => True) db := by
  induction locked generalizing db claims with
  | nil => exact ⟨[], (List.append_nil _).symm, fun _ h => by cases h⟩
  | cons lock locked ih =>
    have hrest : ∀ {claims₁ : List ActivityClaim} {db₁ : DB},
        (∃ new, claims₁ = claims ++ new ∧ ∀ claim ∈ new, claim.row.topic = lock.topic) →
        wp (claimTopics externals registry locks limit capacity workerId first now started locked
          claims₁) (fun claims' _ => ∃ new, claims' = claims ++ new ∧
            ∀ claim ∈ new, claim.row.topic ∈ (lock :: locked).map (·.topic)) (fun _ => True) db₁ := by
      rintro _ db₁ ⟨new, rfl, hnew⟩
      refine wp_imp ih ?_
      rintro claims' - ⟨new', rfl, hnew'⟩
      refine ⟨new ++ new', List.append_assoc .., fun claim hmem => ?_⟩
      rcases List.mem_append.mp hmem with hmem | hmem
      · exact hnew claim hmem ▸ List.mem_cons_self
      · exact List.mem_cons_of_mem _ (hnew' claim hmem)
    rw [claimTopics, wp_bind]
    refine wp_imp (wp_true _ _) fun unsettled db₁ _ => ?_
    rw [wp_bind]
    refine wp_imp (wp_true _ _) fun n db₂ _ => ?_
    rw [wp_ite]
    refine ⟨fun _ => hrest ⟨[], (List.append_nil _).symm, fun _ h => by cases h⟩, fun _ => ?_⟩
    rw [wp_ite]
    refine ⟨fun _ => ⟨[], (List.append_nil _).symm, fun _ h => by cases h⟩, fun _ => ?_⟩
    rw [wp_bind]
    refine wp_of_ok fun candidates db₃ hcandidates => ?_
    obtain ⟨rfl, htopics⟩ := topic_of_mem_claimCandidates hcandidates
    rw [wp_bind]
    exact wp_imp (wp_claimUpTo_adds htopics) fun claims₁ db₄ hnew => hrest hnew

/-- What the visit of a topic adds to the claims of a batch. -/
theorem wp_claimTopics_visit {lock : TopicLockRow} (hlimit : claims.length ≤ limit)
    (hclaims : ∀ claim ∈ claims, claim.row.topic ≠ lock.topic) :
    wp (claimTopics externals registry locks limit capacity workerId first now started [lock] claims)
      (fun claims' _ => claims'.length ≤ limit ∧
        (∃ new, claims' = claims ++ new ∧ ∀ claim ∈ new, claim.row.topic = lock.topic) ∧
        ∃ n db₁, (do
            let unsettled ← reconcileExpired externals locks lock.topic now
            inFlight lock.topic unsettled now) db = .ok (n, db₁) ∧
          claimsOf lock.topic claims' ≤
            min (lock.maxConcurrency - n) ((capacity.lookup lock.topic).getD 0))
      (fun _ => True) db := by
  have hzero : claimsOf lock.topic claims = 0 := claimsOf_eq_zero hclaims
  have hnothing : ∃ new, claims = claims ++ new ∧ ∀ claim ∈ new, claim.row.topic = lock.topic :=
    ⟨[], (List.append_nil _).symm, fun _ h => by cases h⟩
  rw [claimTopics, wp_bind]
  refine wp_of_ok fun unsettled db₁ hreconcile => ?_
  rw [wp_bind]
  refine wp_of_ok fun n db₂ hseen => ?_
  have hinFlight : (do
      let unsettled ← reconcileExpired externals locks lock.topic now
      inFlight lock.topic unsettled now) db = .ok (n, db₂) := by
    change Transaction.bind _ _ db = _
    unfold Transaction.bind
    rw [hreconcile]
    exact hseen
  rw [wp_ite]
  refine ⟨fun _ => ⟨hlimit, hnothing, n, db₂, hinFlight, hzero.le.trans (Nat.zero_le _)⟩, fun _ => ?_⟩
  rw [wp_ite]
  refine ⟨fun _ => ⟨hlimit, hnothing, n, db₂, hinFlight, hzero.le.trans (Nat.zero_le _)⟩, fun _ => ?_⟩
  rw [wp_bind]
  refine wp_of_ok fun candidates db₃ hcandidates => ?_
  obtain ⟨rfl, htopics⟩ := topic_of_mem_claimCandidates hcandidates
  rw [wp_bind]
  refine wp_mono (wp_and (wp_claimUpTo_adds htopics)
    (wp_claimUpTo_bounded htopics hlimit (hzero.le.trans (Nat.zero_le _)))) ?_ fun _ _ => trivial
  rintro claims' db₄ ⟨hnew, hlimit', hwanted⟩
  exact ⟨hlimit', hnew, n, db₃, hinFlight, hwanted.trans (min_le_left _ _)⟩

/-- A worker with a definition visits the topics one after another. -/
theorem claimTopics_append (hregistry : registry.definitions.isEmpty = false)
    (before after : List TopicLockRow) (claims : List ActivityClaim) :
    claimTopics externals registry locks limit capacity workerId first now started
        (before ++ after) claims =
      claimTopics externals registry locks limit capacity workerId first now started before claims
        >>= claimTopics externals registry locks limit capacity workerId first now started after := by
  induction before generalizing claims with
  | nil => rfl
  | cons lock before ih =>
    rw [List.cons_append, claimTopics, claimTopics, bind_bind]
    refine congrArg _ (funext fun unsettled => ?_)
    rw [bind_bind]
    refine congrArg _ (funext fun n => ?_)
    simp only [hregistry, Bool.false_eq_true, if_false]
    split
    · exact ih claims
    · rw [bind_bind]
      refine congrArg _ (funext fun candidates => ?_)
      rw [bind_bind]
      exact congrArg _ (funext fun claims => ih claims)

/-- Every claim of a batch is within the bounds of its topic. -/
theorem wp_claimTopics_bounded (hregistry : registry.definitions.isEmpty = false)
    {locked : List TopicLockRow} (hlocked : (locked.map (·.topic)).Nodup) :
    wp (claimTopics externals registry locks limit capacity workerId first now started locked [])
      (fun claims _ => claims.length ≤ limit ∧
        ∀ claim ∈ claims, ∃ before lock after n db₁, locked = before ++ lock :: after ∧
          lock.topic = claim.row.topic ∧
          inFlightAt externals registry locks limit capacity workerId first now started before
            lock.topic db = .ok (n, db₁) ∧
          claimsOf lock.topic claims ≤
            min (lock.maxConcurrency - n) ((capacity.lookup lock.topic).getD 0))
      (fun _ => True) db := by
  -- the claims of the topics before are of other topics than that of the next lock
  induction locked using List.reverseRecOn with
  | nil => exact ⟨Nat.zero_le _, fun _ h => by cases h⟩
  | append_singleton before lock ih =>
    rw [List.map_append, List.nodup_append] at hlocked
    obtain ⟨hbefore, -, hdisjoint⟩ := hlocked
    rw [claimTopics_append hregistry, wp_bind]
    refine wp_of_ok fun claims db₁ hok => ?_
    obtain ⟨hlimit, hbounds⟩ := wp_ok (ih hbefore) hok
    have htopics : ∀ claim ∈ claims, claim.row.topic ≠ lock.topic := by
      intro claim hclaim heq
      obtain ⟨before', lock', after', -, -, rfl, htopic, -⟩ := hbounds claim hclaim
      refine hdisjoint lock'.topic ?_ lock.topic (by simp) (htopic.trans heq)
      exact List.mem_map.mpr ⟨lock', by simp, rfl⟩
    refine wp_imp (wp_claimTopics_visit hlimit htopics) ?_
    rintro claims' db₂ ⟨hlimit', ⟨new, rfl, hnew⟩, n, db₃, hinFlight, hbound⟩
    refine ⟨hlimit', fun claim hclaim => ?_⟩
    rcases List.mem_append.mp hclaim with hold | hadded
    · obtain ⟨before', lock', after', n', db', rfl, htopic, hseen, hbound'⟩ := hbounds claim hold
      refine ⟨before', lock', after' ++ [lock], n', db', by simp, htopic, hseen, ?_⟩
      have hother : claimsOf lock'.topic new = 0 := by
        refine claimsOf_eq_zero fun claim' hclaim' heq => ?_
        exact htopics claim hold (htopic.symm.trans (heq.symm.trans (hnew claim' hclaim')))
      rw [claimsOf_append, hother]
      exact hbound'
    · refine ⟨before, lock, [], n, db₃, rfl, (hnew claim hadded).symm, ?_, hbound⟩
      change Transaction.bind _ _ db = _
      unfold Transaction.bind
      rw [hok]
      exact hinFlight

/-- A worker without definitions claims nothing. -/
theorem wp_claimTopics_none (hregistry : registry.definitions.isEmpty = true)
    {locked : List TopicLockRow} :
    wp (claimTopics externals registry locks limit capacity workerId first now started locked claims)
      (fun claims' _ => claims' = claims) (fun _ => True) db := by
  induction locked generalizing db with
  | nil => rfl
  | cons lock locked ih =>
    rw [claimTopics, wp_bind]
    refine wp_imp (wp_true _ _) fun unsettled db₁ _ => ?_
    rw [wp_bind]
    refine wp_imp (wp_true _ _) fun n db₂ _ => ?_
    rw [wp_ite]
    refine ⟨fun _ => ih, fun _ => ?_⟩
    rw [if_pos hregistry]
    rfl

/-- The rows of the registered topics that a batch can lock. -/
def lockedTopics (topics : List TopicDefinition) (locks : HeldLocks) (db : DB) :
    List TopicLockRow :=
  topics.filterMap fun t => (db.topicLocks t.key).filter fun lock => !locks.topics lock.topic

/-- The row of every topic lock names its topic, which is the key of the table. -/
def DB.LocksKeyed (db : DB) : Prop :=
  ∀ topic lock, db.topicLocks topic = some lock → lock.topic = topic

theorem nodup_lockedTopics {topics : List TopicDefinition}
    (htopics : (topics.map (·.key)).Nodup) (hkeyed : db.LocksKeyed) :
    ((lockedTopics topics locks db).map (·.topic)).Nodup := by
  have hmem : ∀ t lock, lock ∈ (db.topicLocks t).filter (fun lock => !locks.topics lock.topic) →
      lock.topic = t :=
    fun t lock h => hkeyed t lock (Option.filter_eq_some_iff.mp h).1
  unfold lockedTopics
  rw [List.Nodup, List.pairwise_map, List.pairwise_filterMap]
  rw [List.Nodup, List.pairwise_map] at htopics
  refine htopics.imp fun {t t'} hne lock hlock lock' hlock' heq => hne ?_
  rw [← hmem _ _ hlock, ← hmem _ _ hlock', heq]

/-- The bounds of a batch: its limit, and for the topic of each claim those of the lock that the
batch visited. -/
structure BatchBounds (externals : Externals) (registry : ActivityRegistry)
    (topics : List TopicDefinition) (locks : HeldLocks) (limit : ℕ)
    (capacity : List (String × ℕ)) (workerId : String) (first : LeaseToken) (now : DbMillis)
    (started : Instant) (db : DB) (claims : List ActivityClaim) : Prop where
  length : claims.length ≤ limit
  perTopic : ∀ claim ∈ claims, ∃ before lock after n db₁,
    lockedTopics topics locks db = before ++ lock :: after ∧ lock.topic = claim.row.topic ∧
    inFlightAt externals registry locks limit capacity workerId first now started before lock.topic
      db = .ok (n, db₁) ∧
    claimsOf lock.topic claims ≤
      min (lock.maxConcurrency - n) ((capacity.lookup lock.topic).getD 0)

/-- **A batch is within its bounds.** -/
theorem claimBatch_bounded {topics : List TopicDefinition} (htopics : (topics.map (·.key)).Nodup)
    (hkeyed : db.LocksKeyed)
    (hok : claimBatch externals registry topics locks limit capacity workerId first now started db =
      .ok (claims, db')) :
    BatchBounds externals registry topics locks limit capacity workerId first now started db
      claims := by
  have hempty : BatchBounds externals registry topics locks limit capacity workerId first now started
      db [] := ⟨Nat.zero_le _, fun _ h => by cases h⟩
  suffices hwp : wp (claimBatch externals registry topics locks limit capacity workerId first now
      started) (fun claims _ => BatchBounds externals registry topics locks limit capacity workerId
        first now started db claims) (fun _ => True) db from wp_ok hwp hok
  simp only [claimBatch, wp_bind, wp_read]
  rw [wp_ite]
  refine ⟨fun _ => hempty, fun _ => ?_⟩
  cases hregistry : registry.definitions.isEmpty with
  | false =>
    refine wp_imp (wp_claimTopics_bounded hregistry (nodup_lockedTopics htopics hkeyed)) ?_
    exact fun claims' _ h => ⟨h.1, h.2⟩
  | true => exact wp_imp (wp_claimTopics_none hregistry) fun claims' _ h => h ▸ hempty

/-- A batch is within the local capacity of every topic. -/
theorem BatchBounds.claimsOf_le {topics : List TopicDefinition}
    (h : BatchBounds externals registry topics locks limit capacity workerId first now started db
      claims) (topic : String) : claimsOf topic claims ≤ (capacity.lookup topic).getD 0 := by
  by_cases hany : ∃ claim ∈ claims, claim.row.topic = topic
  · obtain ⟨claim, hclaim, rfl⟩ := hany
    obtain ⟨before, lock, after, n, db₁, -, htopic, -, hbound⟩ := h.perTopic claim hclaim
    rw [htopic] at hbound
    exact hbound.trans (min_le_right _ _)
  · rw [claimsOf_eq_zero fun claim hclaim heq => hany ⟨claim, hclaim, heq⟩]
    exact Nat.zero_le _

end Bounds

end DurableWorkflows
