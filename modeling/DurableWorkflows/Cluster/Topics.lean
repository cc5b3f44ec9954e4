import DurableWorkflows.Cluster.Leases

/-!
# The concurrency cap of a topic

A claim counts the slots of a topic after it has swept the expired leases, under the
lock row of the topic. Whoever holds a slot is counted: its lease is live at the time
the claim has read, or the sweep left it unsettled. A renewal that lands in between
only makes a lease longer, every other transaction only frees slots, and only claims,
which exclude each other on the lock row, take new ones.

## Main definitions

- `ActivityRow.Keeps`: a version that takes no slot and shortens no lease
- `Cluster.slots`: the activities that hold a slot of a topic
- `Cluster.Topics`: the invariant

## Main results

- `Cluster.Topics.step`: one step keeps the invariant
- `reachable_topicCap`: no reachable state is over the cap of a topic
-/

namespace DurableWorkflows

/-- The second version takes no slot and does not shorten the lease. -/
def ActivityRow.Keeps (row row' : ActivityRow) : Prop :=
  row'.status.holdsSlot = true → row.status.holdsSlot = true ∧
    ∀ now, row.leaseExpiresAt.any (now < ·) = true → row'.leaseExpiresAt.any (now < ·) = true

theorem ActivityRow.Keeps.refl (row : ActivityRow) : row.Keeps row := fun h => ⟨h, fun _ h => h⟩

theorem ActivityRow.Keeps.trans {row row' row'' : ActivityRow} (h : row.Keeps row')
    (h' : row'.Keeps row'') : row.Keeps row'' := by
  intro hslot
  obtain ⟨hslot', hexpires'⟩ := h' hslot
  obtain ⟨hslot, hexpires⟩ := h hslot'
  exact ⟨hslot, fun now hlive => hexpires' now (hexpires now hlive)⟩

theorem ActivityRow.keeps_of_not_holdsSlot {row row' : ActivityRow}
    (h : row'.status.holdsSlot = false) : row.Keeps row' := by
  intro hslot
  rw [h] at hslot
  cases hslot

/-- The candidates that the sweep of a topic has still to look at, and the unsettled ones. -/
def ClaimPhase.sweep : ClaimPhase → Option (List ActivityId × List ActivityId)
  | reconciling candidates unsettled => some (candidates.map Prod.fst, unsettled)
  | relocking candidate candidates unsettled =>
    some (candidate :: candidates.map Prod.fst, unsettled)
  | _ => none

namespace ClaimSession

/-- The claims of a topic that the count has allowed and that are not made yet. -/
def wanted (c : ClaimSession) (topic : String) : ℕ :=
  match c.phase, c.topics with
  | .selecting wanted, head :: _ | .claiming _ wanted, head :: _ =>
    if head = topic then wanted else 0
  | _, _ => 0

/-- The topics are locked, or the lock of the one topic is next. -/
def Ordered (c : ClaimSession) : Prop :=
  c.topics ⊆ c.lockedTopics ∧ c.phase ≠ .timed ∨
    c.lockedTopics = [] ∧ (c.phase = .sampled ∨ c.phase = .timed)

end ClaimSession

namespace Cluster

variable {limits : String → Option ℕ} {s s' : Cluster} {tx tx' : TxId} {i : ActivityId}
  {r r' : ActivityRow} {v v' : Versioned TxId ActivityRow} {topic : String}

/-- The activities that hold a slot of a topic in the versions that `look` selects. -/
def slots (s : Cluster) (look : Versioned TxId ActivityRow → ActivityRow) (topic : String) :
    Finset ActivityId :=
  s.activities.keys fun v => (look v).topic == topic && (look v).status.holdsSlot

theorem mem_slots {look : Versioned TxId ActivityRow → ActivityRow} :
    i ∈ s.slots look topic ↔ ∃ v, s.activities.find i = some v ∧ (look v).topic = topic ∧
      (look v).status.holdsSlot = true := by
  simp [slots, Table.mem_keys]

/-- What a transaction holds: a claim only rows of its topics, another one versions that take no
slot. -/
def Guards (s : Cluster) (tx : TxId) (committed r : ActivityRow) : Prop :=
  (∃ c, s.sessions tx = some (.claim c) ∧ r.topic ∈ c.lockedTopics) ∨
  (∃ h, s.sessions tx = some (.renewal h) ∧ (∀ now, h.phase ≠ .committed now) ∧
    committed.Keeps r) ∨
  s.sessions tx = some .work ∧ committed.Keeps r

/-- The invariant of the claims. -/
structure Topics (limits : String → Option ℕ) (s : Cluster) : Prop where
  locked : ∀ {tx c topic}, s.sessions tx = some (.claim c) → topic ∈ c.lockedTopics →
    s.topicLocks topic = some tx
  held : ∀ {i v tx r}, s.activities.find i = some v → v.held = some (tx, r) →
    s.Guards tx v.committed r
  ordered : ∀ {tx c}, s.sessions tx = some (.claim c) → c.Ordered
  /-- The candidates of a claim are activities of its topic. -/
  candidates : ∀ {tx c topic topics candidates wanted i}, s.sessions tx = some (.claim c) →
    c.phase = .claiming candidates wanted → c.topics = topic :: topics → i ∈ candidates →
    ∃ r, s.Has i r ∧ r.topic = topic
  /-- A slot that is not live at the time of the sweep is still to be looked at, or unsettled. -/
  swept : ∀ {tx c topic topics todo unsettled i v}, s.sessions tx = some (.claim c) →
    c.phase.sweep = some (todo, unsettled) → c.topics = topic :: topics →
    s.activities.find i = some v → (v.view tx).topic = topic →
    (v.view tx).status.holdsSlot = true →
    (v.view tx).leaseExpiresAt.any (c.now < ·) = true ∨ i ∈ unsettled ∨ i ∈ todo
  committed : ∀ {topic limit}, limits topic = some limit →
    (s.slots (·.committed) topic).card ≤ limit
  /-- The slots that a claim sees and those it wants are within the cap. -/
  viewed : ∀ {tx c topic limit}, s.sessions tx = some (.claim c) → topic ∈ c.lockedTopics →
    limits topic = some limit → (s.slots (·.view tx) topic).card + c.wanted topic ≤ limit

-- ════════════════════════════════════════════════════════════════════════
-- Rows of other transactions
-- ════════════════════════════════════════════════════════════════════════

/-- What a transaction sees of a topic after a step takes no slots and shortens no lease. -/
def Follows (s s' : Cluster) (tx : TxId) (topic : String) : Prop :=
  ∀ i v', s'.activities.find i = some v' → (v'.view tx).topic = topic →
    (v'.view tx).status.holdsSlot = true →
    ∃ v, s.activities.find i = some v ∧ (v.view tx).topic = topic ∧ (v.view tx).Keeps (v'.view tx)

theorem Follows.of_view
    (h : ∀ i v', s'.activities.find i = some v' →
      ∃ v, s.activities.find i = some v ∧ v'.view tx = v.view tx) : Follows s s' tx topic := by
  intro i v' hv' htopic hslot
  obtain ⟨v, hv, heq⟩ := h i v' hv'
  rw [heq] at htopic ⊢
  exact ⟨v, hv, htopic, .refl _⟩

theorem Follows.of_activities (h : s'.activities = s.activities) : Follows s s' tx topic :=
  .of_view fun _ v' hv' => ⟨v', h ▸ hv', rfl⟩

theorem Follows.slots_subset (h : Follows s s' tx topic) :
    s'.slots (·.view tx) topic ⊆ s.slots (·.view tx) topic := by
  intro i hi
  obtain ⟨v', hv', htopic, hslot⟩ := mem_slots.mp hi
  obtain ⟨v, hv, htopic', hkeeps⟩ := h i v' hv' htopic hslot
  exact mem_slots.mpr ⟨v, hv, htopic', (hkeeps hslot).1⟩

/-- A commit of another transaction takes no slots of a locked topic. -/
theorem Topics.follows_publish (hI : Leases s) (hT : Topics limits s) {c : ClaimSession}
    (hopen : s.sessions tx = some (.claim c)) (htopic : topic ∈ c.lockedTopics) (hne : tx ≠ tx') :
    Follows s (s.publish tx') tx topic := by
  intro i v' hv' htopic' hslot
  rw [find_publish] at hv'
  obtain ⟨v, hv, rfl⟩ := Option.map_eq_some_iff.mp hv'
  refine ⟨v, hv, ?_⟩
  rcases Versioned.view_commit hne with heq | ⟨⟨r, hheld⟩, heq⟩
  · rw [heq] at htopic' hslot ⊢
    exact ⟨htopic', .refl _⟩
  · rw [heq, Versioned.view_of_held hheld] at htopic' hslot ⊢
    have hcommitted : v.view tx = v.committed := Versioned.view_of_held_ne hheld hne.symm
    have hfixed : r.fixed = v.committed.fixed := hI.fixed ⟨v, hv, .inr ⟨tx', hheld⟩⟩ ⟨v, hv, .inl rfl⟩
    rw [hcommitted]
    refine ⟨(ActivityRow.topic_of_fixed hfixed).symm.trans htopic', ?_⟩
    rcases hT.held hv hheld with ⟨c', hopen', hlocked⟩ | ⟨h, -, -, hkeeps⟩ | ⟨-, hkeeps⟩
    · -- Two claims do not hold the lock row of one topic.
      rw [htopic'] at hlocked
      have heq := (hT.locked hopen htopic).symm.trans (hT.locked hopen' hlocked)
      exact absurd (Option.some_inj.mp heq) hne
    · exact hkeeps
    · exact hkeeps

/-- A step takes no slots of a locked topic, unless it is a write of the claim itself. -/
theorem Topics.follows (hI : Leases s) (hT : Topics limits s) (h : Step limits s s')
    {c : ClaimSession} {session' : Session} (hopen : s.sessions tx = some (.claim c))
    (hopen' : s'.sessions tx = some session') (htopic : topic ∈ c.lockedTopics) :
    Follows s s' tx topic ∨ ∃ i row r, s.Unlocked tx i ∧ s.row tx i = some row ∧
      RowStatement s (.claim c) i row r session' ∧
      s' = (s.apply tx (.write i r)).setSession tx (some session') := by
  cases h with
  | insert hpending =>
    left
    intro i v' hv' htopic' hslot
    rw [find_insertRow] at hv'
    split at hv'
    · cases hv'
      rw [Versioned.view_of_free rfl, hpending] at hslot
      cases hslot
    · exact ⟨v', hv', htopic', .refl _⟩
  | @statement tx₀ session session₁ effect hopen₀ hstatement =>
    cases hstatement with
    | @write _ _ j row row' hfree hrow hwrites =>
      by_cases htx : tx = tx₀
      · subst htx
        rw [hopen] at hopen₀
        cases hopen₀
        rw [sessions_setSession, if_pos rfl] at hopen'
        cases hopen'
        exact .inr ⟨j, row, row', hfree, hrow, hwrites, rfl⟩
      · refine .inl (.of_view fun i v' hv' => ?_)
        rw [setSession, find_write] at hv'
        split at hv'
        next hij =>
          subst hij
          obtain ⟨v, hv, rfl⟩ := Option.map_eq_some_iff.mp hv'
          exact ⟨v, hv, (Versioned.view_write_of_ne htx).trans ((hfree v hv).view_eq htx).symm⟩
        · exact ⟨v', hv', rfl⟩
    | _ => exact .inl (.of_activities rfl)
  | @commitClaim tx₀ =>
    rw [sessions_startExecutors, sessions_commit] at hopen'
    split at hopen'
    · cases hopen'
    next hne =>
      left
      intro i v' hv'
      rw [activities_startExecutors] at hv'
      exact hT.follows_publish hI hopen htopic hne i v' hv'
  | @commitRenewal tx₀ _ _ hopen₀ =>
    have hne : tx ≠ tx₀ := by
      rintro rfl
      rw [hopen] at hopen₀
      cases hopen₀
    exact .inl (hT.follows_publish hI hopen htopic hne)
  | @commitWork tx₀ hopen₀ =>
    have hne : tx ≠ tx₀ := by
      rintro rfl
      rw [hopen] at hopen₀
      cases hopen₀
    exact .inl (hT.follows_publish hI hopen htopic hne)
  | @rollback tx₀ =>
    rw [sessions_rollback] at hopen'
    split at hopen'
    · cases hopen'
    next hne =>
      refine .inl (.of_view fun i v' hv' => ?_)
      obtain ⟨v, hv, rfl⟩ := Option.map_eq_some_iff.mp hv'
      exact ⟨v, hv, Versioned.view_rollback hne⟩
  | _ => exact .inl (.of_activities rfl)

-- ════════════════════════════════════════════════════════════════════════
-- Rows that a transaction holds
-- ════════════════════════════════════════════════════════════════════════

/-- A renewal does not shorten the lease of its claim. -/
theorem Leases.keeps_renew (hI : Leases s) {h : RenewalSession} {now : DbMillis}
    (hopen : s.sessions tx = some (.renewal h)) (hphase : h.phase = .timed now)
    (hr : s.Has h.claim.row.id r) (htoken : r.leaseToken = some h.claim.leaseToken)
    (hstatus : r'.status = r.status)
    (hexpires : r'.leaseExpiresAt = some (now + h.claim.row.leaseDurationMillis)) : r.Keeps r' := by
  intro hslot
  refine ⟨hstatus ▸ hslot, fun t hlive => ?_⟩
  obtain ⟨e, he, hlt⟩ := Option.any_eq_true _ _ |>.mp hlive
  have hle := hI.renews hopen (by rw [hphase]; rfl) hr htoken he
  rw [hexpires, Option.any_some, decide_eq_true_eq]
  exact (of_decide_eq_true hlt).trans_le hle

end Cluster

/-- A write of a claim moves it to another phase. -/
theorem RowStatement.phase_ne {s : Cluster} {c c' : ClaimSession} {i : ActivityId}
    {row row' : ActivityRow} (h : RowStatement s (.claim c) i row row' (.claim c'))
    (heq : c'.phase = c.phase) : False := by
  cases h with
  | reconcile hphase => cases heq.trans hphase
  | quarantine hphase => simpa using heq.trans hphase
  | lease hphase => simpa using heq.trans hphase

/-- An edit takes no slot and keeps the lease. -/
theorem Edits.keeps {executors : LeaseToken → Option Executor} {row row' : ActivityRow}
    (h : Edits executors row row') : row.Keeps row' := by
  rcases h.lease with ⟨-, -, hfree⟩ | ⟨-, hexpires, hslot⟩
  · exact ActivityRow.keeps_of_not_holdsSlot hfree
  · intro h
    refine ⟨hslot ▸ h, fun now hlive => ?_⟩
    rwa [hexpires]

namespace Cluster

variable {limits : String → Option ℕ} {s s' : Cluster} {tx tx' : TxId} {i : ActivityId}
  {r r' : ActivityRow} {v v' : Versioned TxId ActivityRow} {topic : String}

/-- What a transaction sees outside the topics that it has locked takes no slot. -/
theorem Topics.keeps_view (hT : Topics limits s) (hv : s.activities.find i = some v)
    (hopen : ∀ c, s.sessions tx = some (.claim c) → (v.view tx).topic ∉ c.lockedTopics) :
    v.committed.Keeps (v.view tx) := by
  cases hheld : v.held with
  | none =>
    rw [Versioned.view_of_free hheld]
    exact .refl _
  | some x =>
    obtain ⟨tx₀, r⟩ := x
    by_cases htx : tx₀ = tx
    · subst htx
      rw [Versioned.view_of_held hheld] at hopen ⊢
      rcases hT.held hv hheld with ⟨c, hopen₀, hlocked⟩ | ⟨h, -, -, hkeeps⟩ | ⟨-, hkeeps⟩
      · exact absurd hlocked (hopen c hopen₀)
      · exact hkeeps
      · exact hkeeps
    · rw [Versioned.view_of_held_ne hheld htx]
      exact .refl _

-- ════════════════════════════════════════════════════════════════════════
-- Topic locks
-- ════════════════════════════════════════════════════════════════════════

/-- The lock row of a topic is held as long as its claim is open. -/
theorem Step.topicLocks (h : Step limits s s') {c : ClaimSession}
    (hopen : s'.sessions tx = some (.claim c)) (hlock : s.topicLocks topic = some tx) :
    s'.topicLocks topic = some tx := by
  -- The release of the locks of another transaction.
  have hrelease : ∀ tx₀, tx ≠ tx₀ → (s.topicLocks topic).filter (· ≠ tx₀) = some tx := by
    intro tx₀ hne
    simp [hlock, Option.filter, hne]
  cases h with
  | beginClaimBatch hclosed process topics hfree =>
    show (if topic ∈ topics then _ else s.topicLocks topic) = some tx
    split
    next hmem =>
      rw [hfree topic hmem] at hlock
      cases hlock
    · exact hlock
  | @statement tx₀ session session₁ effect hopen₀ hstatement =>
    cases hstatement with
    | @lockTopic c₀ topic₀ _ _ hfree =>
      show (if topic ∈ [topic₀] then _ else s.topicLocks topic) = some tx
      split
      next hmem =>
        rw [List.mem_singleton.mp hmem, hfree] at hlock
        cases hlock
      · exact hlock
    | _ => exact hlock
  | @commitClaim tx₀ =>
    rw [sessions_startExecutors, sessions_commit] at hopen
    split at hopen
    · cases hopen
    next hne =>
      rw [topicLocks_startExecutors]
      exact hrelease tx₀ hne
  | @commitRenewal tx₀ =>
    rw [sessions_commit] at hopen
    split at hopen
    · cases hopen
    next hne => exact hrelease tx₀ hne
  | @commitWork tx₀ =>
    rw [sessions_commit] at hopen
    split at hopen
    · cases hopen
    next hne => exact hrelease tx₀ hne
  | @rollback tx₀ =>
    rw [sessions_rollback] at hopen
    split at hopen
    · cases hopen
    next hne => exact hrelease tx₀ hne
  | _ => exact hlock

/-- A statement keeps the locked topics of a claim, or locks the first one. -/
theorem lockedTopics_of_statement {c c₀ : ClaimSession} {effect : Effect}
    (h : Statement limits s tx (.claim c₀) effect (.claim c)) :
    c.lockedTopics = c₀.lockedTopics ∨ ∃ topic, c₀.phase = .timed ∧ c.lockedTopics = [topic] ∧
      effect = .lockTopics [topic] ∧ c.phase = .scanning := by
  cases h with
  | lockTopic hphase => exact .inr ⟨_, hphase, rfl, rfl, rfl⟩
  | write _ _ hwrites => cases hwrites <;> exact .inl rfl
  | _ => exact .inl rfl

/-- A statement keeps the order of a claim. -/
theorem ordered_of_statement {c c₀ : ClaimSession} {effect : Effect}
    (h : Statement limits s tx (.claim c₀) effect (.claim c)) (hordered : c₀.Ordered) :
    c.Ordered := by
  -- In every later phase the topics are locked.
  have hlater : c₀.phase ≠ .sampled → c₀.phase ≠ .timed → c₀.topics ⊆ c₀.lockedTopics := by
    intro hsampled htimed
    rcases hordered with ⟨hsub, -⟩ | ⟨-, hphase | hphase⟩
    · exact hsub
    · exact absurd hphase hsampled
    · exact absurd hphase htimed
  cases h with
  | sampleClock hphase =>
    exact .inl ⟨hlater (by simp [hphase]) (by simp [hphase]), by simp⟩
  | readClockOne hphase hlocked => exact .inr ⟨hlocked, .inr rfl⟩
  | readClockBatch hphase hlocked =>
    rcases hordered with ⟨hsub, -⟩ | ⟨hnil, -⟩
    · exact .inl ⟨hsub, by simp⟩
    · exact absurd hnil hlocked
  | lockTopic hphase htopics =>
    exact .inl ⟨by simp [htopics], by simp⟩
  | nextTopic hphase htopics =>
    refine .inl ⟨?_, by simp⟩
    have hsub := hlater (by rintro h; simp [h] at hphase) (by rintro h; simp [h] at hphase)
    rw [htopics] at hsub
    exact fun topic hmem => hsub (List.mem_cons_of_mem _ hmem)
  | lockCandidate => exact hordered
  | write _ _ hwrites =>
    cases hwrites with
    | reconcile hphase => exact .inl ⟨hlater (by simp [hphase]) (by simp [hphase]), by simp⟩
    | quarantine hphase => exact .inl ⟨hlater (by simp [hphase]) (by simp [hphase]), by simp⟩
    | lease hphase => exact .inl ⟨hlater (by simp [hphase]) (by simp [hphase]), by simp⟩
  | scan hphase => exact .inl ⟨hlater (by simp [hphase]) (by simp [hphase]), by simp⟩
  | skipWorkflow hphase => exact .inl ⟨hlater (by simp [hphase]) (by simp [hphase]), by simp⟩
  | lockWorkflow hphase => exact .inl ⟨hlater (by simp [hphase]) (by simp [hphase]), by simp⟩
  | relockMissed hphase => exact .inl ⟨hlater (by simp [hphase]) (by simp [hphase]), by simp⟩
  | count hphase => exact .inl ⟨hlater (by simp [hphase]) (by simp [hphase]), by simp⟩
  | selectCandidates hphase => exact .inl ⟨hlater (by simp [hphase]) (by simp [hphase]), by simp⟩
  | skipCandidate hphase => exact .inl ⟨hlater (by simp [hphase]) (by simp [hphase]), by simp⟩

-- ════════════════════════════════════════════════════════════════════════
-- What one step preserves
-- ════════════════════════════════════════════════════════════════════════

theorem Guards.of_sessions {committed : ActivityRow} (h : s.Guards tx committed r)
    (heq : s'.sessions tx = s.sessions tx) : s'.Guards tx committed r := by
  unfold Guards at h ⊢
  rwa [heq]

/-- A statement of the holder keeps the guard. -/
theorem Guards.statement (hT : Topics limits s) {committed : ActivityRow} {session session' : Session}
    {effect : Effect} (h : s.Guards tx committed r) (hopen : s.sessions tx = some session)
    (hstatement : Statement limits s tx session effect session')
    (hopen' : s'.sessions tx = some session') : s'.Guards tx committed r := by
  rcases h with ⟨c, hopen₀, hlocked⟩ | ⟨hb, hopen₀, hphase, hkeeps⟩ | ⟨hopen₀, hkeeps⟩
  · rw [hopen] at hopen₀
    cases hopen₀
    obtain ⟨c', rfl⟩ : ∃ c', session' = .claim c' := by
      cases hstatement with
      | write _ _ hwrites => cases hwrites <;> exact ⟨_, rfl⟩
      | _ => exact ⟨_, rfl⟩
    rcases lockedTopics_of_statement hstatement with heq | ⟨topic, htimed, -⟩
    · exact .inl ⟨c', hopen', heq ▸ hlocked⟩
    · -- A claim that waits for its topic holds no rows.
      rcases hT.ordered hopen with ⟨-, hphase⟩ | ⟨hnil, -⟩
      · exact absurd htimed hphase
      · rw [hnil] at hlocked
        cases hlocked
  · rw [hopen] at hopen₀
    cases hopen₀
    cases hstatement with
    | readClockRenewal => exact .inr (.inl ⟨_, hopen', by rintro now ⟨⟩, hkeeps⟩)
    | write _ _ hwrites =>
      cases hwrites with
      | renew => exact .inr (.inl ⟨_, hopen', by rintro now ⟨⟩, hkeeps⟩)
  · rw [hopen] at hopen₀
    cases hopen₀
    cases hstatement with
    | workLock => exact .inr (.inr ⟨hopen', hkeeps⟩)
    | write _ _ hwrites =>
      cases hwrites with
      | edit => exact .inr (.inr ⟨hopen', hkeeps⟩)

/-- The topic of a candidate that a claim writes is locked. -/
theorem Topics.mem_lockedTopics (hI : Leases s) (hT : Topics limits s) {c : ClaimSession}
    {session' : Session} {row : ActivityRow} (hopen : s.sessions tx = some (.claim c))
    (hrow : s.row tx i = some row) (h : RowStatement s (.claim c) i row r session') :
    row.topic ∈ c.lockedTopics ∧ ∃ topics, c.topics = row.topic :: topics := by
  have hlocked : c.phase ≠ .sampled → c.phase ≠ .timed → ∀ {topics},
      c.topics = row.topic :: topics → row.topic ∈ c.lockedTopics := by
    intro hsampled htimed topics htopics
    rcases hT.ordered hopen with ⟨hsub, -⟩ | ⟨-, hphase | hphase⟩
    · exact hsub (htopics ▸ List.mem_cons_self)
    · exact absurd hphase hsampled
    · exact absurd hphase htimed
  have hcandidate : ∀ {topic topics candidates wanted},
      c.phase = .claiming (i :: candidates) wanted → c.topics = topic :: topics →
      row.topic = topic := by
    intro topic topics candidates wanted hphase htopics
    obtain ⟨r₀, hr₀, htopic⟩ := hT.candidates hopen hphase htopics List.mem_cons_self
    exact (ActivityRow.topic_of_fixed (hI.fixed (has_row hrow) hr₀)).trans htopic
  cases h with
  | reconcile hphase htopics hexpired =>
    simp only [expiredHolder, Bool.and_eq_true, beq_iff_eq] at hexpired
    rw [← hexpired.1.1] at htopics
    exact ⟨hlocked (by simp [hphase]) (by simp [hphase]) htopics, _, htopics⟩
  | quarantine hphase htopics =>
    rw [← hcandidate hphase htopics] at htopics
    exact ⟨hlocked (by simp [hphase]) (by simp [hphase]) htopics, _, htopics⟩
  | lease hphase htopics =>
    rw [← hcandidate hphase htopics] at htopics
    exact ⟨hlocked (by simp [hphase]) (by simp [hphase]) htopics, _, htopics⟩

/-- The guards of the held rows after a step. -/
theorem Topics.held_step (hI : Leases s) (hT : Topics limits s) (h : Step limits s s')
    (hv' : s'.activities.find i = some v') (hheld : v'.held = some (tx, r)) :
    s'.Guards tx v'.committed r := by
  have hopen : ∀ {v tx r}, s.activities.find i = some v → v.held = some (tx, r) →
      ∃ session, s.sessions tx = some session := by
    intro v tx r hv hheld
    rcases hT.held hv hheld with ⟨c, hopen, -⟩ | ⟨hb, hopen, -⟩ | ⟨hopen, -⟩
    · exact ⟨_, hopen⟩
    · exact ⟨_, hopen⟩
    · exact ⟨_, hopen⟩
  -- A step that leaves the rows alone and opens a transaction.
  have hbegins : ∀ tx₀ session, s.sessions tx₀ = none → s.activities.find i = some v' →
      s'.sessions = Function.update s.sessions tx₀ session → s'.Guards tx v'.committed r := by
    intro tx₀ session hclosed hv hsessions
    refine (hT.held hv hheld).of_sessions ?_
    rw [hsessions, Function.update_of_ne]
    rintro rfl
    obtain ⟨session', hopen⟩ := hopen hv hheld
    rw [hclosed] at hopen
    cases hopen
  -- A commit of another transaction.
  have hcommits : ∀ tx₀ session, s'.activities = (s.publish tx₀).activities →
      s'.sessions = Function.update s.sessions tx₀ session → s'.Guards tx v'.committed r := by
    intro tx₀ session hactivities hsessions
    rw [hactivities, find_publish] at hv'
    obtain ⟨v, hv, rfl⟩ := Option.map_eq_some_iff.mp hv'
    obtain ⟨hheld₀, hne, hcommitted⟩ := Versioned.held_commit hheld
    rw [hcommitted]
    refine (hT.held hv hheld₀).of_sessions ?_
    rw [hsessions, Function.update_of_ne hne]
  cases h with
  | tick => exact (hT.held hv' hheld).of_sessions rfl
  | stop => exact (hT.held hv' hheld).of_sessions rfl
  | insert =>
    rw [find_insertRow] at hv'
    split at hv'
    · cases hv'
      cases hheld
    · exact (hT.held hv' hheld).of_sessions rfl
  | beginClaimOne hclosed => exact hbegins _ _ hclosed hv' rfl
  | beginClaimBatch hclosed => exact hbegins _ _ hclosed hv' rfl
  | beginRenewal hclosed => exact hbegins _ _ hclosed hv' rfl
  | beginWork hclosed => exact hbegins _ _ hclosed hv' rfl
  | commitClaim => exact hcommits _ _ activities_startExecutors sessions_startExecutors
  | commitRenewal => exact hcommits _ _ rfl rfl
  | commitWork => exact hcommits _ _ rfl rfl
  | @rollback tx₀ =>
    have hdiscard : (s.activities.find i).map (·.rollback tx₀) = some v' := hv'
    obtain ⟨v, hv, rfl⟩ := Option.map_eq_some_iff.mp hdiscard
    obtain ⟨hheld₀, hne⟩ := Versioned.held_rollback hheld
    rw [Versioned.committed_rollback]
    refine (hT.held hv hheld₀).of_sessions ?_
    rw [sessions_rollback, if_neg hne]
  | @acknowledge tx₀ hb now x hopen₀ hphase =>
    by_cases htx : tx = tx₀
    · subst htx
      rcases hT.held hv' hheld with ⟨c, hopen, -⟩ | ⟨h, hopen, hnot, -⟩ | ⟨hopen, -⟩ <;>
        rw [hopen₀] at hopen <;> cases hopen
      exact absurd hphase (hnot now)
    · refine (hT.held hv' hheld).of_sessions ?_
      exact Function.update_of_ne htx _ _
  | @statement tx₀ session session' effect hopen₀ hstatement =>
    -- A row that the statement does not write.
    have hkept : s.activities.find i = some v' →
        ((s.apply tx₀ effect).setSession tx₀ (some session')).Guards tx v'.committed r := by
      intro hv
      by_cases htx : tx = tx₀
      · subst htx
        exact (hT.held hv hheld).statement hT hopen₀ hstatement (by rw [sessions_setSession, if_pos rfl])
      · refine (hT.held hv hheld).of_sessions ?_
        rw [sessions_setSession, if_neg htx]
        cases hstatement <;> rfl
    cases hstatement with
    | @write _ _ j row row' hfree hrow hwrites =>
      rw [setSession, find_write] at hv'
      split at hv'
      next hij =>
        subst hij
        obtain ⟨v, hv, rfl⟩ := Option.map_eq_some_iff.mp hv'
        cases hheld
        have hsession : ((s.apply tx (.write i r)).setSession tx (some session')).sessions tx =
            some session' := by
          rw [sessions_setSession, if_pos rfl]
        have hview : row = v.view tx := by
          rw [Cluster.row, hv] at hrow
          exact (Option.some_inj.mp hrow).symm
        cases session with
        | claim c =>
          obtain ⟨hlocked, -⟩ := hT.mem_lockedTopics hI hopen₀ hrow hwrites
          rw [← ActivityRow.topic_of_fixed hwrites.fixed] at hlocked
          cases hwrites <;> exact .inl ⟨_, hsession, hlocked⟩
        | renewal hb =>
          have hkeeps : v.committed.Keeps row := by
            rw [hview]
            exact hT.keeps_view hv (by rintro c hc; rw [hopen₀] at hc; cases hc)
          have hrow' := has_row hrow
          cases hwrites with
          | renew hphase hlease hexpires =>
            refine .inr (.inl ⟨_, hsession, by rintro now ⟨⟩, hkeeps.trans ?_⟩)
            exact hI.keeps_renew hopen₀ hphase hrow' (ActivityClaim.status_of_leases hlease).2 rfl
              (congrArg some (DbMillis.eq_of_checkedPlusMillis hexpires))
        | work =>
          have hkeeps : v.committed.Keeps row := by
            rw [hview]
            exact hT.keeps_view hv (by rintro c hc; rw [hopen₀] at hc; cases hc)
          cases hwrites with
          | edit hedits => exact .inr (.inr ⟨hsession, hkeeps.trans hedits.keeps⟩)
      · exact hkept hv'
    | _ => exact hkept hv'

/-- The topic of a row that is there does not change. -/
theorem Leases.has_topic_step (hI : Leases s) (h : Step limits s s')
    (hi : ∃ r, s.Has i r ∧ r.topic = topic) : ∃ r, s'.Has i r ∧ r.topic = topic := by
  obtain ⟨r, ⟨v, hv, hr⟩, htopic⟩ := hi
  obtain ⟨v', hv'⟩ := Option.isSome_iff_exists.mp (h.isSome_find (Option.isSome_of_eq_some hv))
  have hfixed := hI.fixed_step h ⟨v, hv, hr⟩ ⟨v', hv', .inl rfl⟩
  exact ⟨v'.committed, ⟨v', hv', .inl rfl⟩, (ActivityRow.topic_of_fixed hfixed).trans htopic⟩

/-- A transaction that holds nothing sees the committed rows. -/
theorem Topics.view_eq_committed (hT : Topics limits s) (hv : s.activities.find i = some v)
    (hopen : s.sessions tx = none ∨ ∃ c, s.sessions tx = some (.claim c) ∧ c.lockedTopics = []) :
    v.view tx = v.committed := by
  cases hheld : v.held with
  | none => exact Versioned.view_of_free hheld
  | some x =>
    obtain ⟨tx₀, r⟩ := x
    refine Versioned.view_of_held_ne hheld ?_
    rintro rfl
    rcases hT.held hv hheld with ⟨c, hopen₀, hlocked⟩ | ⟨hb, hopen₀, -⟩ | ⟨hopen₀, -⟩
    · rcases hopen with hopen | ⟨c', hopen, hnil⟩
      · rw [hopen] at hopen₀
        cases hopen₀
      · rw [hopen] at hopen₀
        cases hopen₀
        rw [hnil] at hlocked
        cases hlocked
    · rcases hopen with hopen | ⟨c', hopen, -⟩ <;> rw [hopen] at hopen₀ <;> cases hopen₀
    · rcases hopen with hopen | ⟨c', hopen, -⟩ <;> rw [hopen] at hopen₀ <;> cases hopen₀

/-- The committed slots after a step. -/
theorem Topics.committed_step (hI : Leases s) (hT : Topics limits s) (h : Step limits s s')
    {limit : ℕ} (hlimit : limits topic = some limit) :
    (s'.slots (·.committed) topic).card ≤ limit := by
  have hcap := hT.committed hlimit
  -- A step that takes no committed slot.
  have hfewer : (∀ i v', s'.activities.find i = some v' → v'.committed.topic = topic →
      v'.committed.status.holdsSlot = true → ∃ v, s.activities.find i = some v ∧
        v.committed.topic = topic ∧ v.committed.status.holdsSlot = true) →
      (s'.slots (·.committed) topic).card ≤ limit := by
    intro hsub
    refine (Finset.card_le_card fun i hi => ?_).trans hcap
    obtain ⟨v', hv', htopic, hslot⟩ := mem_slots.mp hi
    exact mem_slots.mpr (hsub i v' hv' htopic hslot)
  rcases h.activities with heq | ⟨row, hpending, -, -, rfl⟩ | ⟨tx, session, hopen, heq⟩ | ⟨tx, heq⟩ |
    ⟨tx, session, session', j, row, row', -, -, -, -, heq⟩
  · exact hfewer fun i v' hv' htopic hslot => ⟨v', heq ▸ hv', htopic, hslot⟩
  · refine hfewer fun i v' hv' htopic hslot => ?_
    rw [find_insertRow] at hv'
    split at hv'
    · cases hv'
      rw [hpending] at hslot
      cases hslot
    · exact ⟨v', hv', htopic, hslot⟩
  · by_cases hclaim : ∃ c, session = .claim c ∧ topic ∈ c.lockedTopics
    · -- The claim publishes what it has seen.
      obtain ⟨c, rfl, hlocked⟩ := hclaim
      have hviewed := hT.viewed hopen hlocked hlimit
      refine (Finset.card_le_card fun i hi => ?_).trans (Nat.le_of_add_right_le hviewed)
      obtain ⟨v', hv', htopic, hslot⟩ := mem_slots.mp hi
      rw [heq, find_publish] at hv'
      obtain ⟨v, hv, rfl⟩ := Option.map_eq_some_iff.mp hv'
      rw [Versioned.committed_commit] at htopic hslot
      exact mem_slots.mpr ⟨v, hv, htopic, hslot⟩
    · refine hfewer fun i v' hv' htopic hslot => ?_
      rw [heq, find_publish] at hv'
      obtain ⟨v, hv, rfl⟩ := Option.map_eq_some_iff.mp hv'
      rw [Versioned.committed_commit] at htopic hslot
      have hfixed : (v.view tx).fixed = v.committed.fixed :=
        hI.fixed ⟨v, hv, Versioned.has_view⟩ ⟨v, hv, .inl rfl⟩
      refine ⟨v, hv, (ActivityRow.topic_of_fixed hfixed).symm.trans htopic, ?_⟩
      refine (hT.keeps_view hv ?_ hslot).1
      intro c hopen' hlocked
      rw [hopen] at hopen'
      cases hopen'
      exact hclaim ⟨c, rfl, htopic ▸ hlocked⟩
  · refine hfewer fun i v' hv' htopic hslot => ?_
    rw [heq, find_discard] at hv'
    obtain ⟨v, hv, rfl⟩ := Option.map_eq_some_iff.mp hv'
    rw [Versioned.committed_rollback] at htopic hslot
    exact ⟨v, hv, htopic, hslot⟩
  · refine hfewer fun i v' hv' htopic hslot => ?_
    rw [heq, setSession, find_write] at hv'
    split at hv'
    · obtain ⟨v, hv, rfl⟩ := Option.map_eq_some_iff.mp hv'
      exact ⟨v, hv, htopic, hslot⟩
    · exact ⟨v', hv', htopic, hslot⟩

/-- A row version that the claim has written itself. -/
theorem view_write {row : ActivityRow} {j : ActivityId} {session : Option Session}
    (hv' : ((s.apply tx (.write j row)).setSession tx session).activities.find i = some v') :
    ∃ v, s.activities.find i = some v ∧ (i = j ∧ v'.view tx = row ∨ i ≠ j ∧ v'.view tx = v.view tx) := by
  rw [setSession, find_write] at hv'
  split at hv'
  next hij =>
    obtain ⟨v, hv, rfl⟩ := Option.map_eq_some_iff.mp hv'
    exact ⟨v, hv, .inl ⟨hij, Versioned.view_write_self⟩⟩
  next hij => exact ⟨v', hv', .inr ⟨hij, rfl⟩⟩

/-- A slot that is not live is what the sweep looks for. -/
theorem expiredHolder_of_not_live {now : DbMillis} (htopic : r.topic = topic)
    (hslot : r.status.holdsSlot = true) (hlive : ¬ r.leaseExpiresAt.any (now < ·) = true) :
    expiredHolder topic now r = true := by
  simp only [expiredHolder, Bool.and_eq_true, beq_iff_eq]
  refine ⟨⟨htopic, hslot⟩, ?_⟩
  cases hexpires : r.leaseExpiresAt with
  | none => rfl
  | some e =>
    rw [hexpires, Option.any_some, decide_eq_true_eq, not_lt] at hlive
    exact decide_eq_true hlive

theorem Topics.mem_lockedTopics_of_sweep (hT : Topics limits s) {c : ClaimSession}
    {topics : List String} {todo unsettled : List ActivityId}
    (hopen : s.sessions tx = some (.claim c)) (hsweep : c.phase.sweep = some (todo, unsettled))
    (htopics : c.topics = topic :: topics) : topic ∈ c.lockedTopics := by
  rcases hT.ordered hopen with ⟨hsub, -⟩ | ⟨-, hphase | hphase⟩
  · exact hsub (htopics ▸ List.mem_cons_self)
  · rw [hphase] at hsweep
    cases hsweep
  · rw [hphase] at hsweep
    cases hsweep

/-- The sweep of a topic after a step. -/
theorem Topics.swept_step (hI : Leases s) (hT : Topics limits s) (h : Step limits s s')
    {c : ClaimSession} {topics : List String} {todo unsettled : List ActivityId}
    (hopen : s'.sessions tx = some (.claim c)) (hsweep : c.phase.sweep = some (todo, unsettled))
    (htopics : c.topics = topic :: topics) (hv' : s'.activities.find i = some v')
    (htopic : (v'.view tx).topic = topic) (hslot : (v'.view tx).status.holdsSlot = true) :
    (v'.view tx).leaseExpiresAt.any (c.now < ·) = true ∨ i ∈ unsettled ∨ i ∈ todo := by
  rcases h.claimSession hopen with hsame | ⟨-, _, _, rfl⟩ | ⟨-, _, _, _, _, rfl, -⟩ |
    ⟨c₀, effect, hopen₀, hstatement, hstate⟩
  · -- Another transaction takes no slot and shortens no lease.
    rcases hT.follows hI h hsame hopen (hT.mem_lockedTopics_of_sweep hsame hsweep htopics) with
      hfollows | ⟨j, row, r, -, -, hwrites, -⟩
    · obtain ⟨v, hv, htopic₀, hkeeps⟩ := hfollows i v' hv' htopic hslot
      obtain ⟨hslot₀, hlive⟩ := hkeeps hslot
      exact (hT.swept hsame hsweep htopics hv htopic₀ hslot₀).imp_left (hlive _)
    · exact (hwrites.phase_ne rfl).elim
  · cases hsweep
  · cases hsweep
  · cases hstatement with
    | @scan _ topic₀ _ hphase htopics₀ =>
      -- The scan finds every slot that is not live.
      cases hsweep
      rw [htopics₀] at htopics
      cases htopics
      rw [hstate] at hv'
      by_cases hlive : (v'.view tx).leaseExpiresAt.any (c₀.now < ·) = true
      · exact .inl hlive
      · refine .inr (.inr (List.mem_map.mpr ⟨(v'.id, (v'.view tx).workflowId), ?_, ?_⟩))
        · refine List.mem_map.mpr ⟨v', Table.mem_select.mpr ⟨?_, ?_⟩, rfl⟩
          · rw [Table.key_of_find hv']
            exact hv'
          · exact expiredHolder_of_not_live htopic hslot hlive
        · exact Table.key_of_find hv'
    | skipWorkflow hphase =>
      cases hsweep
      rw [hstate] at hv'
      have hsweep₀ := congrArg ClaimPhase.sweep hphase
      have := hT.swept hopen₀ hsweep₀ htopics hv' htopic hslot
      rw [List.map_cons, List.mem_cons] at this
      rw [List.mem_append, List.mem_singleton]
      tauto
    | lockWorkflow hphase =>
      cases hsweep
      rw [hstate] at hv'
      have hsweep₀ := congrArg ClaimPhase.sweep hphase
      have hbefore := hT.swept hopen₀ hsweep₀ htopics hv' htopic hslot
      exact hbefore
    | relockMissed hphase htopics₀ hrow hmissed =>
      cases hsweep
      rw [htopics₀] at htopics
      cases htopics
      rw [hstate] at hv'
      have hsweep₀ := congrArg ClaimPhase.sweep hphase
      rcases hT.swept hopen₀ hsweep₀ htopics₀ hv' htopic hslot with hlive | hmem | hmem
      · exact .inl hlive
      · exact .inr (.inl hmem)
      · rcases List.mem_cons.mp hmem with rfl | hmem
        · left
          by_contra hlive
          have hview : s.row tx i = some (v'.view tx) := congrArg (Option.map _) hv'
          rw [hrow, Option.some_inj] at hview
          rw [hview, expiredHolder_of_not_live htopic hslot hlive] at hmissed
          cases hmissed
        · exact .inr (.inr hmem)
    | lockCandidate hphase =>
      rw [hphase] at hsweep
      cases hsweep
    | write hfree hrow hwrites =>
      cases hwrites with
      | reconcile hphase htopics₀ =>
        cases hsweep
        subst hstate
        obtain ⟨v, hv, ⟨-, heq⟩ | ⟨hne, heq⟩⟩ := view_write hv'
        · rw [heq, ActivityRow.lease_reconciled.2.2] at hslot
          cases hslot
        · rw [heq] at htopic hslot ⊢
          have hsweep₀ := congrArg ClaimPhase.sweep hphase
          have := hT.swept hopen₀ hsweep₀ htopics hv htopic hslot
          rw [List.mem_cons] at this
          tauto
      | quarantine => cases hsweep
      | lease => cases hsweep
    | _ => cases hsweep

/-- When the sweep is done, every slot that the claim sees is counted. -/
theorem Topics.card_slots_le_inFlight (hT : Topics limits s) {c : ClaimSession}
    {topics : List String} {unsettled : List ActivityId}
    (hopen : s.sessions tx = some (.claim c)) (hphase : c.phase = .reconciling [] unsettled)
    (htopics : c.topics = topic :: topics) :
    (s.slots (·.view tx) topic).card ≤ s.inFlight tx topic unsettled c.now := by
  rw [inFlight, ← Table.card_keys]
  refine Finset.card_le_card fun i hi => ?_
  obtain ⟨v, hv, htopic, hslot⟩ := mem_slots.mp hi
  have hsweep := congrArg ClaimPhase.sweep hphase
  rw [Table.mem_keys]
  refine ⟨v, hv, ?_⟩
  obtain rfl : v.id = i := Table.key_of_find hv
  rcases hT.swept hopen hsweep htopics hv htopic hslot with hlive | hmem | hmem
  · simp [htopic, hslot, hlive]
  · simp [htopic, hslot, hmem]
  · cases hmem

/-- The slots that a claim sees after a step. -/
theorem Topics.viewed_step (hI : Leases s) (hT : Topics limits s) (h : Step limits s s')
    {c : ClaimSession} {limit : ℕ} (hopen : s'.sessions tx = some (.claim c))
    (hlocked : topic ∈ c.lockedTopics) (hlimit : limits topic = some limit) :
    (s'.slots (·.view tx) topic).card + c.wanted topic ≤ limit := by
  -- A claim that holds no rows sees the committed slots.
  have hfirst : (s.sessions tx = none ∨ ∃ c, s.sessions tx = some (.claim c) ∧ c.lockedTopics = []) →
      s'.activities = s.activities → c.wanted topic = 0 →
      (s'.slots (·.view tx) topic).card + c.wanted topic ≤ limit := by
    intro hnone hactivities hwanted
    rw [hwanted, Nat.add_zero]
    refine (Finset.card_le_card fun i hi => ?_).trans (hT.committed hlimit)
    obtain ⟨v, hv, htopic, hslot⟩ := mem_slots.mp hi
    rw [hactivities] at hv
    rw [hT.view_eq_committed hv hnone] at htopic hslot
    exact mem_slots.mpr ⟨v, hv, htopic, hslot⟩
  rcases h.claimSession hopen with hsame | ⟨-, _, _, rfl⟩ | ⟨hclosed, _, _, _, _, rfl, hstate⟩ |
    ⟨c₀, effect, hopen₀, hstatement, hstate⟩
  · rcases hT.follows hI h hsame hopen hlocked with hfollows | ⟨j, row, r, -, -, hwrites, -⟩
    · have hcard := Finset.card_le_card hfollows.slots_subset
      have hviewed := hT.viewed hsame hlocked hlimit
      omega
    · exact (hwrites.phase_ne rfl).elim
  · cases hlocked
  · exact hfirst (.inl hclosed) (by rw [hstate]; rfl) rfl
  · rcases lockedTopics_of_statement hstatement with heq | ⟨topic₀, htimed, -, heffect, hphase⟩
    · rw [heq] at hlocked
      have hviewed := hT.viewed hopen₀ hlocked hlimit
      -- A statement that writes no row and wants no more claims.
      have hquiet : s'.activities = s.activities → c.wanted topic ≤ c₀.wanted topic →
          (s'.slots (·.view tx) topic).card + c.wanted topic ≤ limit := by
        intro hactivities hwanted
        rw [slots, hactivities]
        exact (Nat.add_le_add_left hwanted _).trans hviewed
      -- A write of the claim that takes no slot.
      have hfrees : ∀ {j row}, s' = (s.apply tx (.write j row)).setSession tx (some (.claim c)) →
          row.status.holdsSlot = false → c.wanted topic ≤ c₀.wanted topic →
          (s'.slots (·.view tx) topic).card + c.wanted topic ≤ limit := by
        intro j row hstate hfree hwanted
        refine (Nat.add_le_add (Finset.card_le_card fun i hi => ?_) hwanted).trans hviewed
        obtain ⟨v', hv', htopic, hslot⟩ := mem_slots.mp hi
        subst hstate
        obtain ⟨v, hv, ⟨-, hview⟩ | ⟨-, hview⟩⟩ := view_write hv'
        · rw [hview, hfree] at hslot
          cases hslot
        · rw [hview] at htopic hslot
          exact mem_slots.mpr ⟨v, hv, htopic, hslot⟩
      cases hstatement with
      | @count _ topic₀ topics unsettled maxConcurrency hphase htopics hmax =>
        by_cases htopic : topic₀ = topic
        · -- Every slot is live or unsettled, so it is counted.
          subst htopic
          obtain rfl := hmax limit hlimit
          have hcounted := hT.card_slots_le_inFlight hopen₀ hphase htopics
          have hactivities : s'.slots (·.view tx) topic₀ = s.slots (·.view tx) topic₀ := by
            rw [hstate]
            rfl
          rw [hactivities]
          simp only [ClaimSession.wanted, htopics, if_true]
          omega
        · refine hquiet (by rw [hstate]; rfl) ?_
          simp [ClaimSession.wanted, htopics, htopic]
      | @write _ _ candidate row _ hfree hrow hwrites =>
        obtain ⟨-, rest, hhead⟩ := hT.mem_lockedTopics hI hopen₀ hrow hwrites
        cases hwrites with
        | reconcile hphase => exact hfrees hstate ActivityRow.lease_reconciled.2.2 (Nat.zero_le _)
        | quarantine hphase htopics =>
          refine hfrees hstate rfl (le_of_eq ?_)
          simp [ClaimSession.wanted, hphase, htopics]
        | lease hphase htopics =>
          -- The new slot is one of those wanted in the topic of the claim.
          rw [hhead] at htopics
          cases htopics
          have hslots : s'.slots (·.view tx) topic ⊆
              if row.topic = topic then insert candidate (s.slots (·.view tx) topic)
              else s.slots (·.view tx) topic := by
            intro i hi
            obtain ⟨v', hv', htopic, hslot⟩ := mem_slots.mp hi
            subst hstate
            obtain ⟨v, hv, ⟨rfl, hview⟩ | ⟨-, hview⟩⟩ := view_write hv'
            · rw [hview] at htopic
              have hrow : row.topic = topic := htopic
              rw [if_pos hrow]
              exact Finset.mem_insert_self _ _
            · rw [hview] at htopic hslot
              have hold := mem_slots.mpr ⟨v, hv, htopic, hslot⟩
              split
              · exact Finset.mem_insert_of_mem hold
              · exact hold
          have hcard := Finset.card_le_card hslots
          simp only [ClaimSession.wanted, hphase, hhead] at hviewed ⊢
          split at hcard
          next htopic =>
            rw [if_pos htopic] at hviewed ⊢
            have hinsert := Finset.card_insert_le candidate (s.slots (·.view tx) topic)
            omega
          next htopic =>
            rw [if_neg htopic] at hviewed ⊢
            omega
      | selectCandidates hphase htopics =>
        refine hquiet (by rw [hstate]; rfl) (le_of_eq ?_)
        simp [ClaimSession.wanted, hphase, htopics]
      | skipCandidate hphase =>
        refine hquiet (by rw [hstate]; rfl) (le_of_eq ?_)
        cases htopics : c₀.topics <;> simp [ClaimSession.wanted, hphase, htopics]
      | lockCandidate => exact hquiet (by rw [hstate]; rfl) le_rfl
      | _ => exact hquiet (by rw [hstate]; rfl) (Nat.zero_le _)
    · -- The lock of the topic: the claim holds no rows yet.
      refine hfirst (.inr ⟨c₀, hopen₀, ?_⟩) (by rw [hstate, heffect]; rfl) ?_
      · rcases hT.ordered hopen₀ with ⟨-, hphase⟩ | ⟨hnil, -⟩
        · exact absurd htimed hphase
        · exact hnil
      · simp [ClaimSession.wanted, hphase]

/-- The invariant is kept by every step. -/
theorem Topics.step (hI : Leases s) (hT : Topics limits s) (h : Step limits s s') :
    Topics limits s' := by
  constructor
  case held => exact hT.held_step hI h
  case committed => exact hT.committed_step hI h
  case swept => exact hT.swept_step hI h
  case viewed => exact hT.viewed_step hI h
  case locked =>
    intro tx c topic hopen hlocked
    rcases h.claimSession hopen with hsame | ⟨-, _, _, rfl⟩ | ⟨-, _, topics, _, _, rfl, hstate⟩ |
      ⟨c₀, effect, hopen₀, hstatement, hstate⟩
    · exact h.topicLocks hopen (hT.locked hsame hlocked)
    · cases hlocked
    · rw [hstate]
      exact if_pos hlocked
    · rcases lockedTopics_of_statement hstatement with heq | ⟨topic₀, -, heq, rfl, -⟩
      · exact h.topicLocks hopen (hT.locked hopen₀ (heq ▸ hlocked))
      · rw [hstate]
        exact if_pos (heq ▸ hlocked)
  case ordered =>
    intro tx c hopen
    rcases h.claimSession hopen with hsame | ⟨-, _, _, rfl⟩ | ⟨-, _, _, _, _, rfl, -⟩ |
      ⟨c₀, effect, hopen₀, hstatement, -⟩
    · exact hT.ordered hsame
    · exact .inr ⟨rfl, .inl rfl⟩
    · exact .inl ⟨fun _ h => h, by simp⟩
    · exact ordered_of_statement hstatement (hT.ordered hopen₀)
  case candidates =>
    intro tx c topic topics candidates wanted i hopen hphase htopics hi
    refine hI.has_topic_step h ?_
    rcases h.claimSession hopen with hsame | ⟨-, _, _, rfl⟩ | ⟨-, _, _, _, _, rfl, -⟩ |
      ⟨c₀, effect, hopen₀, hstatement, -⟩
    · exact hT.candidates hsame hphase htopics hi
    · cases hphase
    · cases hphase
    · cases hstatement with
      | selectCandidates hphase₀ htopics₀ hcandidates =>
        cases hphase
        obtain ⟨row, hrow, htopic, -⟩ := hcandidates i hi
        rw [htopics₀] at htopics
        cases htopics
        exact ⟨row, has_row hrow, htopic⟩
      | skipCandidate hphase₀ =>
        cases hphase
        exact hT.candidates hopen₀ hphase₀ htopics (List.mem_cons_of_mem _ hi)
      | lockCandidate => exact hT.candidates hopen₀ hphase htopics hi
      | write _ _ hwrites =>
        cases hwrites with
        | reconcile => cases hphase
        | quarantine hphase₀ =>
          cases hphase
          exact hT.candidates hopen₀ hphase₀ htopics (List.mem_cons_of_mem _ hi)
        | lease hphase₀ =>
          cases hphase
          exact hT.candidates hopen₀ hphase₀ htopics (List.mem_cons_of_mem _ hi)
      | _ => cases hphase

/-- The invariant holds of every reachable state. -/
theorem Topics.of_reachable (h : Reachable limits s) : Topics limits s := by
  obtain ⟨clock, locals, h⟩ := h
  induction h with
  | refl =>
    constructor
    case held => exact fun hv => by cases hv
    case committed =>
      intro topic limit _
      rw [Finset.card_eq_zero.mpr]
      · exact Nat.zero_le _
      · refine Finset.eq_empty_of_forall_notMem fun i hi => ?_
        obtain ⟨v, hv, -⟩ := mem_slots.mp hi
        cases hv
    all_goals exact fun hopen => by cases hopen
  | tail hreach hstep ih => exact ih.step (Leases.of_reachable ⟨clock, locals, hreach⟩) hstep

end Cluster

/-- In every reachable state the activities of a topic that are running or cancelling, with an
expired lease or not, are at most as many as its `max_concurrency`. -/
theorem reachable_topicCap {limits : String → Option ℕ} {s : Cluster}
    (h : Cluster.Reachable limits s) {topic : String} {maxConcurrency : ℕ}
    (hlimit : limits topic = some maxConcurrency) :
    (s.activities.select fun v => v.committed.topic == topic &&
      v.committed.status.holdsSlot).length ≤ maxConcurrency := by
  rw [← Table.card_keys]
  exact (Cluster.Topics.of_reachable h).committed hlimit

/-- The one slot of a topic is held by an expired lease that a second worker could not settle. -/
theorem Sample.mail_topicCap : ∃ (s : Cluster) (v : Versioned TxId ActivityRow),
    s.activities.find 1 = some v ∧ expiredHolder "mail" (millis s.clock) v.committed = true ∧
    (s.activities.select fun v => v.committed.topic == "mail" &&
      v.committed.status.holdsSlot).length = 1 ∧
    (s.activities.select fun v => v.committed.topic == "mail" &&
      v.committed.status.holdsSlot).length ≤ 1 := by
  obtain ⟨⟨s, v, hreachable, hv, hexpired, hslots⟩, -⟩ := Sample.mail_reachable
  exact ⟨s, v, hv, hexpired, hslots, reachable_topicCap hreachable rfl⟩

end DurableWorkflows
