import DurableWorkflows.Engine.Absorbing
import DurableWorkflows.Engine.Batches
import DurableWorkflows.Engine.Reconciliation

/-!
# Visits of a topic

A claim comes to a topic, takes back its expired leases and tries the first 32 candidates one by
one. Which of them it leases, and whether it fails, is read off the state in which it begins: the
visit of one topic leaves the workflows of the others as they are.

## Main definitions

- `DB.candidates`: the candidates of a topic after its reconciliation
- `ActivityRow.Leasable`, `DB.Passes`: the candidates that a claim leases and gets past
- `Tried`: a loop gets past all candidates that it tries
- `Visit`, `SameTopic`: what a visit changes, and for which topics nothing changes

## Main results

- `wp_claimFirst_takes`, `wp_claimUpTo_exact`: the loops over the candidates
- `Visit.same`: the topics beside a visit
-/

namespace DurableWorkflows

open Transaction

variable {db db' db₁ : DB} {now : DbMillis} {token : LeaseToken} {workerId topic : String}
  {externals : Externals} {registry : ActivityRegistry} {locks : HeldLocks} {started : Instant}
  {a b : ActivityId} {w : WorkflowId} {o : Option ActivityClaim} {cs : List ActivityRow}
  {act c : ActivityRow} {claims : List ActivityClaim}

-- ════════════════════════════════════════════════════════════════════════
-- Candidates
-- ════════════════════════════════════════════════════════════════════════

section Candidates

/-- The due pending activities of a topic whose workflow waits for them, in the order of the
claims. -/
def pendingActivities (registry : ActivityRegistry) (topic : String) (now : DbMillis) (db : DB) :
    List ActivityRow :=
  orderBy (·.availableAt) (orderBy candidateTie (db.activities.select fun r =>
    registry.contains r.kind r.version && r.topic == topic && r.status == .pending &&
      r.availableAt ≤ now && (db.workflows.find r.workflowId).any (waitsForActivity r.id)))

/-- The candidates of a claim, once the expired leases of the topic are taken back. -/
def DB.candidates (db : DB) (externals : Externals) (registry : ActivityRegistry)
    (locks : HeldLocks) (topic : String) (now : DbMillis) : List ActivityRow :=
  (pendingActivities registry topic now (db.takenBack externals locks topic now)).take
    claimCandidateScanLimit

instance (act : ActivityRow) : Decidable act.Poison := inferInstanceAs (Decidable (_ ∨ _ ∨ _))

instance (act : ActivityRow) (events : ℕ) (now : DbMillis) (started : Instant) :
    Decidable (act.Fits events now started) := inferInstanceAs (Decidable (_ ∧ _))

/-- The other transactions leave the rows of a candidate to the claim. -/
def HeldLocks.leaves (locks : HeldLocks) (act : ActivityRow) : Bool :=
  !locks.workflows act.workflowId && !locks.activities act.id

/-- A claim leases the candidate: its rows are free, it is valid, and its lease has an end. -/
def ActivityRow.Leasable (act : ActivityRow) (locks : HeldLocks) (now : DbMillis)
    (started : Instant) : Prop :=
  locks.leaves act = true ∧ ¬act.Poison ∧ act.Fits 0 now started

instance : DecidablePred fun act : ActivityRow => act.Leasable locks now started :=
  fun _ => inferInstanceAs (Decidable (_ ∧ _))

/-- A claim gets past the candidate: the rows are held, or it fits. -/
def DB.Passes (db : DB) (locks : HeldLocks) (topic : String) (now : DbMillis) (started : Instant)
    (act : ActivityRow) : Prop :=
  locks.leaves act = true → act.Fits (db.eventsAfter locks topic now act) now started

/-- In a state of a claim transaction the claim takes the candidate: its rows are free, valid and
fit. -/
def DB.Takes (db : DB) (registry : ActivityRegistry) (locks : HeldLocks) (now : DbMillis)
    (started : Instant) (c : ActivityRow) : Prop :=
  ∃ act, (db.aggregate c.workflowId).candidate registry locks now c.id = some act ∧
    ¬act.Poison ∧ act.Fits (db.aggregate c.workflowId).events.length now started

/-- The events of a log do not matter to a valid row. -/
theorem fits_of_valid {n m : ℕ} (hvalid : ¬act.Poison) :
    act.Fits n now started ↔ act.Fits m now started :=
  ⟨fun h => ⟨fun hpoison => absurd hpoison hvalid, h.2⟩,
    fun h => ⟨fun hpoison => absurd hpoison hvalid, h.2⟩⟩

theorem mem_pendingActivities : c ∈ pendingActivities registry topic now db ↔
    db.activities.find c.id = some c ∧ registry.contains c.kind c.version = true ∧
      c.topic = topic ∧ c.status = .pending ∧ c.availableAt ≤ now ∧
      (db.workflows.find c.workflowId).any (waitsForActivity c.id) = true := by
  rw [pendingActivities, mem_orderBy, mem_orderBy, Table.mem_select]
  refine and_congr_right fun _ => ?_
  simp only [Bool.and_eq_true, beq_iff_eq, decide_eq_true_eq, and_assoc]

theorem nodup_pendingActivities :
    ((pendingActivities registry topic now db).map (·.id)).Nodup := by
  have hperm : (pendingActivities registry topic now db).Perm _ :=
    (List.perm_insertionSort _ _).trans (List.perm_insertionSort _ _)
  refine (hperm.map _).nodup_iff.mpr (List.pairwise_map.mpr ?_)
  exact Table.pairwise_select.imp fun hlt => Nat.ne_of_lt hlt

theorem nodup_candidates :
    ((db.candidates externals registry locks topic now).map (·.id)).Nodup :=
  nodup_pendingActivities.sublist ((List.take_sublist _ _).map _)

namespace DB.Reconciled

variable (h : db.Reconciled externals locks topic now db₁) (hc : db.Claims)

include h hc

/-- A claim finds the candidates after the reconciliation. -/
theorem claimCandidates_eq : claimCandidates registry topic now db₁ =
    .ok (db.candidates externals registry locks topic now, db₁) := by
  refine congrArg (fun rows : List ActivityRow => Except.ok
    ((orderBy (·.availableAt) (orderBy candidateTie rows)).take claimCandidateScanLimit, db₁)) ?_
  refine Table.select_congr fun i => ?_
  show (db₁.activities.find i).filter _ = _
  rw [← h.find_activity]
  cases hact : db₁.activities.find i with
  | none => rfl
  | some act =>
    obtain rfl : act.id = i := Table.key_of_find hact
    refine congrArg (fun p : Bool => if p then some act else none) ?_
    by_cases hpending : act.status = .pending
    · have hrow := (h.workflow_of_pending hc hact hpending).1
      simp only [hrow]
      rfl
    · have hfalse : (act.status == .pending) = false := beq_eq_false_iff_ne.mpr hpending
      simp only [hfalse, Bool.and_false, Bool.false_and]

/-- The rows of a candidate are what a claim finds behind its filters, if they are free. -/
theorem candidate_eq (hmem : c ∈ db.candidates externals registry locks topic now) :
    (db₁.aggregate c.workflowId).candidate registry locks now c.id =
      if locks.leaves c then some c else none := by
  obtain ⟨hfind, hknown, -, hpending, havailable, hwaits⟩ :=
    mem_pendingActivities.mp (List.mem_of_mem_take hmem)
  rw [← h.find_activity] at hfind
  obtain ⟨r, hr, hwaits⟩ := (Option.any_eq_true _ _).mp hwaits
  have hid : r.id = c.workflowId := Table.key_of_find hr
  have hrow : (db₁.aggregate c.workflowId).row = some r :=
    (h.workflow_of_pending hc hfind hpending).1.trans hr
  rw [Aggregate.candidate, hrow, activity_of_find hfind, Option.filter_some, Option.filter_some,
    hid, hwaits, hpending, hknown, HeldLocks.leaves]
  cases locks.workflows c.workflowId <;> cases locks.activities c.id <;> simp [havailable]

/-- A claim takes a candidate exactly if it can lease it. -/
theorem takes_iff (hmem : c ∈ db.candidates externals registry locks topic now) :
    db₁.Takes registry locks now started c ↔ c.Leasable locks now started := by
  rw [DB.Takes, h.candidate_eq hc hmem, ActivityRow.Leasable]
  cases locks.leaves c with
  | false =>
    constructor
    · rintro ⟨act, hact, -⟩
      cases hact
    · rintro ⟨hfree, -⟩
      cases hfree
  | true =>
    constructor
    · rintro ⟨act, hact, hvalid, hfits⟩
      obtain rfl := Option.some_inj.mp hact
      exact ⟨rfl, hvalid, (fits_of_valid hvalid).mp hfits⟩
    · rintro ⟨-, hvalid, hfits⟩
      exact ⟨c, rfl, hvalid, (fits_of_valid hvalid).mp hfits⟩

/-- The claim of a candidate returns exactly if it gets past it. -/
theorem claimable_iff (hmem : c ∈ db.candidates externals registry locks topic now) :
    (db₁.aggregate c.workflowId).Claimable registry locks now started c.id ↔
      db.Passes locks topic now started c := by
  obtain ⟨hfind, -, -, hpending, -⟩ := mem_pendingActivities.mp (List.mem_of_mem_take hmem)
  rw [← h.find_activity] at hfind
  rw [DB.Passes, ← (h.workflow_of_pending hc hfind hpending).2]
  have hcandidate : (db₁.aggregate c.workflowId).candidate registry locks now c.id = _ :=
    h.candidate_eq hc hmem
  cases hleaves : locks.leaves c with
  | false =>
    rw [hleaves] at hcandidate
    refine ⟨fun _ hfree => (by cases hfree), fun _ act hact => ?_⟩
    rw [hcandidate] at hact
    cases hact
  | true =>
    rw [hleaves] at hcandidate
    rw [DurableWorkflows.claimable_iff hcandidate]
    exact ⟨fun hfits _ => hfits, fun hpasses => hpasses rfl⟩

end DB.Reconciled

end Candidates

-- ════════════════════════════════════════════════════════════════════════
-- The topics beside a visit
-- ════════════════════════════════════════════════════════════════════════

section Frames

variable {topic' : String} {db'' : DB}

/-- The workflow has a live activity of the topic. -/
def Aggregate.Concerns (g : Aggregate) (topic : String) : Prop :=
  ∃ a act, g.activities a = some act ∧ act.topic = topic ∧ act.status.isTerminal = false

/-- What a visit of a topic changes. -/
structure Visit (topic : String) (db db' : DB) : Prop where
  evolves : Evolves (fun _ _ => True) db db'
  topics : db'.activityTopics = db.activityTopics
  touched : ∀ w, db'.aggregate w ≠ db.aggregate w → (db.aggregate w).Concerns topic

/-- Nothing changes for a topic. -/
def SameTopic (topic : String) (db db' : DB) : Prop :=
  ∀ w, (db.aggregate w).Concerns topic ∨ (db'.aggregate w).Concerns topic →
    db'.aggregate w = db.aggregate w

theorem Visit.refl (topic : String) (db : DB) : Visit topic db db :=
  ⟨.refl db, rfl, fun _ h => absurd rfl h⟩

theorem Visit.trans (h : Visit topic db db') (h' : Visit topic db' db'') :
    Visit topic db db'' where
  evolves := h.evolves.trans h'.evolves
  topics := h'.topics.trans h.topics
  touched w hne := by
    by_cases heq : db'.aggregate w = db.aggregate w
    · have hconcerns := h'.touched w (heq.symm ▸ hne)
      rwa [heq] at hconcerns
    · exact h.touched w heq

theorem SameTopic.refl (topic : String) (db : DB) : SameTopic topic db db := fun _ _ => rfl

theorem SameTopic.trans (h : SameTopic topic db db') (h' : SameTopic topic db' db'') :
    SameTopic topic db db'' := by
  rintro w (hconcerns | hconcerns)
  · have heq := h w (.inl hconcerns)
    rw [← heq] at hconcerns ⊢
    exact h' w (.inl hconcerns)
  · have heq := h' w (.inr hconcerns)
    rw [heq] at hconcerns ⊢
    exact h w (.inr hconcerns)

/-- **A visit of a topic** changes nothing for the others: a workflow that it touches has one live
activity, which is of its topic. -/
theorem Visit.same (h : Visit topic db db') (hc : db.Claims) (hne : topic' ≠ topic) :
    SameTopic topic' db db' := by
  intro w hconcerns
  by_contra hdiffers
  obtain ⟨a, act, ha, htopic, hlive⟩ := h.touched w hdiffers
  rcases hconcerns with ⟨b, act', hb, htopic', hlive'⟩ | ⟨b, act', hb, htopic', hlive'⟩
  · obtain rfl := hc.oneLive w a b act act' ha hb hlive hlive'
    obtain rfl := Option.some_inj.mp (ha.symm.trans hb)
    exact hne (htopic'.symm.trans htopic)
  · obtain ⟨hfind', hw⟩ := aggregate_activity.mp hb
    have hbefore : db.activityTopics b = some topic' := by
      rw [← h.topics, DB.activityTopics, hfind', Option.map_some, htopic']
    obtain ⟨act₀, hfind₀, htopic₀⟩ := Option.map_eq_some_iff.mp hbefore
    obtain ⟨act'', hfind'', hw'⟩ := h.evolves.stored hfind₀
    obtain rfl := Option.some_inj.mp (hfind''.symm.trans hfind')
    have hb₀ : (db.aggregate w).activities b = some act₀ :=
      aggregate_activity.mpr ⟨hfind₀, hw'.symm.trans hw⟩
    by_cases hlive₀ : act₀.status.isTerminal = false
    · obtain rfl := hc.oneLive w a b act act₀ ha hb₀ hlive hlive₀
      obtain rfl := Option.some_inj.mp (ha.symm.trans hb₀)
      exact hne (htopic₀.symm.trans htopic)
    · rcases h.evolves.terminal_activity hfind₀ (Bool.eq_true_of_not_eq_false hlive₀) with
        hstays | ⟨-, -, act', hcancelled, hstatus⟩
      · obtain rfl := Option.some_inj.mp (hfind'.symm.trans hstays)
        exact hlive₀ hlive'
      · obtain rfl := Option.some_inj.mp (hfind'.symm.trans hcancelled)
        rw [hstatus] at hlive'
        cases hlive'

/-- The reconciliation of a topic visits it. -/
theorem DB.Reconciled.visit (h : db.Reconciled externals locks topic now db') :
    Visit topic db db' where
  evolves := h.evolves.mono fun _ _ _ => trivial
  topics := by
    funext a
    unfold DB.activityTopics
    rw [h.find_activity, find_takenBack, Option.map_map]
    refine Option.map_congr fun act _ => ?_
    show (if _ then _ else _ : ActivityRow).topic = act.topic
    split
    · exact ActivityRow.takenBack_topic _
    · rfl
  touched w hne := by
    by_contra hnone
    refine hne (h.same w fun act hact hw => hnone ?_)
    obtain ⟨hfind, htakes⟩ := Table.mem_select.mp hact
    refine ⟨act.id, act, aggregate_activity.mpr ⟨hfind, hw⟩, ?_, (live_of_takesBack htakes).2⟩
    rw [HeldLocks.takesBack, expiredHolder, Bool.and_eq_true, Bool.and_eq_true,
      Bool.and_eq_true, beq_iff_eq] at htakes
    exact htakes.1.1.1

/-- The row behind a pending activity of the topic. -/
theorem live_of_find_takenBack
    (h : (db.takenBack externals locks topic now).activities.find a = some c)
    (htopic : c.topic = topic) (hpending : c.status = .pending) :
    ∃ act, db.activities.find a = some act ∧ act.topic = topic ∧ act.status.isTerminal = false ∧
      act.workflowId = c.workflowId ∧ c = if locks.takesBack topic now act then
        act.takenBack externals (db.ended act.workflowId) now else act := by
  rw [find_takenBack, Option.map_eq_some_iff] at h
  obtain ⟨act, hfind, rfl⟩ := h
  by_cases htakes : locks.takesBack topic now act = true
  · rw [if_pos htakes]
    exact ⟨act, hfind, topic_of_takesBack htakes, (live_of_takesBack htakes).2,
      (ActivityRow.takenBack_workflowId _).symm, (if_pos htakes).symm⟩
  · rw [if_neg htakes] at htopic hpending ⊢
    exact ⟨act, hfind, htopic, by rw [hpending]; rfl, rfl, (if_neg htakes).symm⟩

namespace SameTopic

variable (h : SameTopic topic db db')

include h

theorem symm : SameTopic topic db' db := fun w hw => (h w hw.symm).symm

/-- The live activities of the topic are the same, and so are their workflows. -/
theorem find_activity (hact : db.activities.find a = some act) (htopic : act.topic = topic)
    (hlive : act.status.isTerminal = false) :
    db'.activities.find a = some act ∧
      db'.aggregate act.workflowId = db.aggregate act.workflowId := by
  have hstored := activity_of_find hact
  have heq := h act.workflowId (.inl ⟨a, act, hstored, htopic, hlive⟩)
  rw [← heq] at hstored
  exact ⟨(aggregate_activity.mp hstored).1, heq⟩

/-- A selection of live activities of the topic is the same. -/
theorem select_eq {p p' : ActivityRow → Bool}
    (hp : ∀ act, p act = true → act.topic = topic ∧ act.status.isTerminal = false)
    (hp' : ∀ act, p' act = true → act.topic = topic ∧ act.status.isTerminal = false)
    (heq : ∀ act, db'.aggregate act.workflowId = db.aggregate act.workflowId → p act = p' act) :
    db.activities.select p = db'.activities.select p' := by
  refine Table.select_congr fun i => ?_
  apply Option.ext
  intro act
  rw [Option.filter_eq_some_iff, Option.filter_eq_some_iff]
  constructor
  · rintro ⟨hact, hpact⟩
    obtain ⟨htopic, hlive⟩ := hp act hpact
    obtain ⟨hact', hsame⟩ := h.find_activity hact htopic hlive
    exact ⟨hact', heq act hsame ▸ hpact⟩
  · rintro ⟨hact', hpact'⟩
    obtain ⟨htopic, hlive⟩ := hp' act hpact'
    obtain ⟨hact, hsame⟩ := h.symm.find_activity hact' htopic hlive
    exact ⟨hact, heq act hsame.symm ▸ hpact'⟩

/-- The leases that are taken back are the same. -/
theorem takesBack_eq : db.activities.select (locks.takesBack topic now) =
    db'.activities.select (locks.takesBack topic now) := by
  have hlive : ∀ act, locks.takesBack topic now act = true →
      act.topic = topic ∧ act.status.isTerminal = false :=
    fun act htakes => ⟨topic_of_takesBack htakes, (live_of_takesBack htakes).2⟩
  exact h.select_eq hlive hlive fun _ _ => rfl

theorem reconciles_iff : db'.Reconciles locks topic now ↔ db.Reconciles locks topic now := by
  unfold DB.Reconciles
  rw [h.takesBack_eq]
  refine forall₂_congr fun act hact => ?_
  obtain ⟨hfind, htakes⟩ := Table.mem_select.mp hact
  rw [(h.symm.find_activity hfind (topic_of_takesBack htakes) (live_of_takesBack htakes).2).2]

theorem occupied_eq : db'.occupied locks topic now = db.occupied locks topic now := by
  have hlive : ∀ act : ActivityRow, (act.topic == topic && act.status.holdsSlot &&
      (act.leaseExpiresAt.any (now < ·) || locks.workflows act.workflowId)) = true →
        act.topic = topic ∧ act.status.isTerminal = false := by
    intro act hact
    rw [Bool.and_eq_true, Bool.and_eq_true, beq_iff_eq, holdsSlot_eq] at hact
    exact ⟨hact.1.1, live_of_holdsLease hact.1.2⟩
  exact congrArg List.length (h.symm.select_eq hlive hlive fun _ _ => rfl)

/-- The candidates of the topic are the same. -/
theorem candidates_eq : db'.candidates externals registry locks topic now =
    db.candidates externals registry locks topic now := by
  have hfind : ∀ {db db' : DB}, SameTopic topic db db' → ∀ i act,
      ((db.takenBack externals locks topic now).activities.find i).filter (fun r =>
        registry.contains r.kind r.version && r.topic == topic && r.status == .pending &&
          r.availableAt ≤ now && (db.workflows.find r.workflowId).any (waitsForActivity r.id)) =
        some act →
      ((db'.takenBack externals locks topic now).activities.find i).filter (fun r =>
        registry.contains r.kind r.version && r.topic == topic && r.status == .pending &&
          r.availableAt ≤ now && (db'.workflows.find r.workflowId).any (waitsForActivity r.id)) =
        some act := by
    intro db db' h i act hact
    rw [Option.filter_eq_some_iff] at hact ⊢
    obtain ⟨hfind, hp⟩ := hact
    have hpending := hp
    simp only [Bool.and_eq_true, beq_iff_eq] at hpending
    obtain ⟨act₀, hfind₀, htopic, hlive, hw, hc⟩ :=
      live_of_find_takenBack hfind hpending.1.1.1.2 hpending.1.1.2
    obtain ⟨hfind', hsame⟩ := h.find_activity hfind₀ htopic hlive
    have hrow : db'.workflows.find act₀.workflowId = db.workflows.find act₀.workflowId :=
      congrArg Aggregate.row hsame
    rw [← hw] at hp ⊢
    rw [hrow, find_takenBack, hfind', Option.map_some, DB.ended, hrow]
    exact ⟨congrArg some hc.symm, hp⟩
  refine congrArg (fun rows : List ActivityRow =>
    (orderBy (·.availableAt) (orderBy candidateTie rows)).take claimCandidateScanLimit) ?_
  refine Table.select_congr fun i => Option.ext fun act => ?_
  exact ⟨hfind h.symm i act, hfind h i act⟩

theorem passes_iff (hmem : c ∈ db.candidates externals registry locks topic now) :
    db'.Passes locks topic now started c ↔ db.Passes locks topic now started c := by
  obtain ⟨hfind, -, htopic, hpending, -⟩ := mem_pendingActivities.mp (List.mem_of_mem_take hmem)
  obtain ⟨act, hfind₀, htopic₀, hlive, hw, -⟩ := live_of_find_takenBack hfind htopic hpending
  obtain ⟨hfind', hsame⟩ := h.find_activity hfind₀ htopic₀ hlive
  rw [hw] at hsame
  rw [DB.Passes, DB.Passes, DB.eventsAfter, DB.eventsAfter, hsame, hfind', hfind₀]

end SameTopic

end Frames

-- ════════════════════════════════════════════════════════════════════════
-- The loops over the candidates
-- ════════════════════════════════════════════════════════════════════════

section Loops

/-- The claim of a candidate changes nothing for the others: their workflow is untouched, or no
claim finds them before or after. -/
theorem ClaimOutcome.other (h : ClaimOutcome registry locks now w a db o db') (hne : b ≠ a)
    (w' : WorkflowId) :
    db'.aggregate w' = db.aggregate w' ∨
      (db'.aggregate w').candidate registry locks now b = none ∧
        (db.aggregate w').candidate registry locks now b = none := by
  unfold ClaimOutcome at h
  split at h
  · exact .inl (congrArg (·.aggregate w') h.2)
  rename_i act hact
  obtain ⟨r, hr, hwaits, -, hworkflow, -⟩ := candidate_eq_some hact
  by_cases hw : w' = w
  · subst hw
    refine .inr ⟨h.no_candidate hact, ?_⟩
    by_contra hsome
    obtain ⟨act', hact'⟩ := Option.ne_none_iff_exists'.mp hsome
    obtain ⟨r', hr', hwaits', -⟩ := candidate_eq_some hact'
    obtain rfl := Option.some_inj.mp (hr.symm.trans hr')
    exact hne (waitsForActivity_unique hwaits hwaits')
  · exact .inl (h.other w' (hworkflow ▸ hw))

theorem ClaimOutcome.takes_iff (h : ClaimOutcome registry locks now w a db o db')
    (hne : c.id ≠ a) :
    db'.Takes registry locks now started c ↔ db.Takes registry locks now started c := by
  unfold DB.Takes
  rcases h.other hne c.workflowId with heq | ⟨hafter, hbefore⟩
  · rw [heq]
  · rw [hafter, hbefore]
    constructor
    · rintro ⟨_, hact, -⟩
      cases hact
    · rintro ⟨_, hact, -⟩
      cases hact

theorem ClaimOutcome.claimable_iff (h : ClaimOutcome registry locks now w a db o db')
    (hne : c.id ≠ a) :
    (db'.aggregate c.workflowId).Claimable registry locks now started c.id ↔
      (db.aggregate c.workflowId).Claimable registry locks now started c.id := by
  unfold Aggregate.Claimable
  rcases h.other hne c.workflowId with heq | ⟨hafter, hbefore⟩
  · rw [heq]
  · rw [hafter, hbefore]
    exact ⟨fun _ _ hact => (by cases hact), fun _ _ hact => (by cases hact)⟩

/-- A claim takes a candidate exactly if it returns a claim. -/
theorem ClaimOutcome.isSome_iff
    (h : ClaimOutcome registry locks now c.workflowId c.id db o db')
    (hfits : (db.aggregate c.workflowId).Claimable registry locks now started c.id) :
    o.isSome = true ↔ db.Takes registry locks now started c := by
  unfold ClaimOutcome at h
  unfold DB.Takes
  split at h
  · rename_i hnone
    rw [hnone, h.1]
    constructor
    · intro hsome
      cases hsome
    · rintro ⟨_, hact, -⟩
      cases hact
  rename_i act hact
  by_cases hpoison : act.Poison
  · rw [(h.quarantines hpoison).1]
    constructor
    · intro hsome
      cases hsome
    · rintro ⟨act', hact', hvalid, -⟩
      obtain rfl := Option.some_inj.mp (hact.symm.trans hact')
      exact absurd hpoison hvalid
  · obtain ⟨claim, rfl⟩ := (h.leases hpoison).1
    exact ⟨fun _ => ⟨act, hact, hpoison, hfits act hact⟩, fun _ => rfl⟩

/-- The claim of a candidate visits its topic. -/
theorem ClaimOutcome.touched (h : ClaimOutcome registry locks now w a db o db')
    (htopic : db.activityTopics a = some topic) (w' : WorkflowId)
    (hne : db'.aggregate w' ≠ db.aggregate w') : (db.aggregate w').Concerns topic := by
  unfold ClaimOutcome at h
  split at h
  · exact absurd (congrArg (·.aggregate w') h.2) hne
  rename_i act hact
  have hpending := status_of_candidate hact
  obtain ⟨-, -, -, hfind, rfl, rfl⟩ := candidate_eq_some hact
  by_cases hw : w' = act.workflowId
  · subst hw
    refine ⟨act.id, act, activity_of_find hfind, ?_, by rw [hpending]; rfl⟩
    rw [DB.activityTopics, hfind] at htopic
    exact Option.some_inj.mp htopic
  · exact absurd (h.other w' hw) hne

/-- A loop that stops after `wanted` leases gets past all candidates that it tries. -/
def Tried (leasable : ActivityRow → Bool) (passes : ActivityRow → Prop) (wanted : ℕ)
    (cs : List ActivityRow) : Prop :=
  ∀ before c after, cs = before ++ c :: after → before.countP leasable < wanted → passes c

section Tried

variable {leasable : ActivityRow → Bool} {passes : ActivityRow → Prop} {wanted : ℕ}

theorem tried_zero : Tried leasable passes 0 cs := fun _ _ _ _ h => absurd h (Nat.not_lt_zero _)

theorem tried_cons : Tried leasable passes (wanted + 1) (c :: cs) ↔
    passes c ∧ Tried leasable passes (if leasable c then wanted else wanted + 1) cs := by
  constructor
  · intro h
    refine ⟨h [] c cs rfl (Nat.succ_pos _), fun before c' after heq hlt => ?_⟩
    refine h (c :: before) c' after (by rw [heq]; rfl) ?_
    rw [List.countP_cons]
    split at hlt <;> simp_all
  · rintro ⟨hc, hrest⟩ before c' after heq hlt
    cases before with
    | nil =>
      obtain ⟨rfl, -⟩ := List.cons_eq_cons.mp heq
      exact hc
    | cons c'' before =>
      obtain ⟨rfl, rfl⟩ := List.cons_eq_cons.mp heq
      refine hrest before c' after rfl ?_
      rw [List.countP_cons] at hlt
      split at hlt <;> simp_all

end Tried

/-- A state of a claim transaction shows which candidates a claim leases and gets past. -/
structure Shows (registry : ActivityRegistry) (locks : HeldLocks) (now : DbMillis)
    (started : Instant) (leasable : ActivityRow → Bool) (passes : ActivityRow → Prop) (db : DB)
    (cs : List ActivityRow) : Prop where
  claims : db.Claims
  nodup : (cs.map (·.id)).Nodup
  takes : ∀ c ∈ cs, db.Takes registry locks now started c ↔ leasable c = true
  claimable : ∀ c ∈ cs, (db.aggregate c.workflowId).Claimable registry locks now started c.id ↔
    passes c

variable {leasable : ActivityRow → Bool} {passes : ActivityRow → Prop}

/-- The state after the reconciliation shows the candidates of its topic. -/
theorem DB.Reconciled.shows (h : db.Reconciled externals locks topic now db₁) (hc : db.Claims) :
    Shows registry locks now started (fun act => act.Leasable locks now started)
      (db.Passes locks topic now started) db₁
      (db.candidates externals registry locks topic now) where
  claims := hc.evolves h.evolves
  nodup := nodup_candidates
  takes _ hmem := (h.takes_iff hc hmem).trans decide_eq_true_iff.symm
  claimable _ hmem := h.claimable_iff hc hmem

/-- The claim of the next candidate. -/
theorem Shows.claim (h : Shows registry locks now started leasable passes db (c :: cs)) :
    wp (claimLockedCandidate registry locks c.id c.workflowId now started workerId token)
      (fun o db' => passes c ∧ (o.isSome = true ↔ leasable c = true) ∧
        Shows registry locks now started leasable passes db' cs ∧
        Evolves (fun _ _ => True) db db' ∧
        ClaimOutcome registry locks now c.workflowId c.id db o db')
      (fun _ => ¬passes c) db := by
  obtain ⟨hfresh, hnodup⟩ := List.nodup_cons.mp (List.map_cons ▸ h.nodup)
  obtain ⟨htakes, hrest⟩ := List.forall_mem_cons.mp h.takes
  obtain ⟨hpasses, hrest'⟩ := List.forall_mem_cons.mp h.claimable
  have hne : ∀ c' ∈ cs, c'.id ≠ c.id := fun c' hc' heq =>
    hfresh (heq ▸ List.mem_map_of_mem hc')
  have hev : wp (claimLockedCandidate registry locks c.id c.workflowId now started workerId token)
      (fun _ db' => Evolves (fun _ _ => True) db db') Benign db :=
    wp_claimLockedCandidate h.claims.sound le_rfl (fun _ hev => hev.mono fun _ _ _ => trivial)
      fun _ _ hev _ _ => hev.mono fun _ _ _ => trivial
  refine wp_mono (wp_and hev (wp_claimLockedCandidate_claims h.claims)) ?_
    fun e he hc => he.2 (hpasses.mpr hc)
  rintro o db' ⟨hev, hclaims, hfits, houtcome⟩
  refine ⟨hpasses.mp hfits, (houtcome.isSome_iff hfits).trans htakes, ⟨hclaims, hnodup, ?_, ?_⟩,
    hev, houtcome⟩
  · exact fun c' hc' => (houtcome.takes_iff (hne c' hc')).trans (hrest c' hc')
  · exact fun c' hc' => (houtcome.claimable_iff (hne c' hc')).trans (hrest' c' hc')

/-- **The loop of `claim_one`** leases the first candidate that can be leased, unless it does not
get past one before it. -/
theorem wp_claimFirst_exact (h : Shows registry locks now started leasable passes db cs) :
    wp (claimFirst registry locks now started workerId token cs)
      (fun o _ => Tried leasable passes 1 cs ∧ (o.isSome = true ↔ ∃ c ∈ cs, leasable c = true))
      (fun _ => ¬Tried leasable passes 1 cs) db := by
  induction cs generalizing db with
  | nil =>
    refine ⟨fun before c after heq => ?_, fun hnone => (by cases hnone), ?_⟩
    · cases before <;> cases heq
    · rintro ⟨c, hc, -⟩
      cases hc
  | cons c cs ih =>
    rw [claimFirst, wp_bind]
    refine wp_mono h.claim ?_ fun e hfails htried => hfails (tried_cons.mp htried).1
    rintro o db' ⟨hpasses, hleases, hshows, -, -⟩
    cases o with
    | some claim =>
      have hc := hleases.mp rfl
      refine ⟨tried_cons.mpr ⟨hpasses, ?_⟩, fun _ => ⟨c, List.mem_cons_self, hc⟩, fun _ => rfl⟩
      rw [if_pos hc]
      exact tried_zero
    | none =>
      have hc : ¬leasable c = true := fun hc => by cases hleases.mpr hc
      have htried : Tried leasable passes 1 (c :: cs) ↔ Tried leasable passes 1 cs := by
        rw [tried_cons, if_neg hc]
        exact and_iff_right hpasses
      have hany : (∃ c' ∈ c :: cs, leasable c' = true) ↔ ∃ c' ∈ cs, leasable c' = true := by
        rw [List.exists_mem_cons_iff]
        exact or_iff_right hc
      rw [htried, hany]
      exact ih hshows

/-- **The loop of `claim_batch`** leases as many candidates as it wants and can, and it visits
their topic. -/
theorem wp_claimUpTo_exact {limit wanted room : ℕ} {first : LeaseToken}
    (h : Shows registry locks now started leasable passes db cs)
    (htopics : ∀ c ∈ cs, db.activityTopics c.id = some topic)
    (hroom : min (limit - claims.length) (wanted - claimsOf topic claims) = room) :
    wp (claimUpTo registry locks topic limit wanted now started workerId first cs claims)
      (fun claims' db' => Tried leasable passes room cs ∧
        claims'.length = claims.length + min room (cs.countP leasable) ∧ Visit topic db db')
      (fun _ => ¬Tried leasable passes room cs) db := by
  induction cs generalizing db claims room with
  | nil =>
    refine ⟨fun before c after heq => ?_, by simp, .refl topic db⟩
    cases before <;> cases heq
  | cons c cs ih =>
    rw [claimUpTo, wp_ite]
    refine ⟨fun hfull => ?_, fun hleft => ?_⟩
    · have hfull : limit ≤ claims.length ∨ wanted ≤ claimsOf topic claims := hfull
      obtain rfl : room = 0 := by omega
      exact ⟨tried_zero, by simp, .refl topic db⟩
    have hleft : ¬(limit ≤ claims.length ∨ wanted ≤ claimsOf topic claims) := hleft
    obtain ⟨room, rfl⟩ : ∃ n, room = n + 1 := ⟨room - 1, by omega⟩
    obtain ⟨htopic, hrest⟩ := List.forall_mem_cons.mp htopics
    rw [wp_bind]
    refine wp_mono (wp_and wp_claimLockedCandidate_topic h.claim) ?_
      fun e hfails htried => hfails.2 (tried_cons.mp htried).1
    rintro o db₁ ⟨⟨hclaim, hsame⟩, hpasses, hleases, hshows, hev, houtcome⟩
    have hvisit : Visit topic db db₁ := ⟨hev, hsame, fun w' => houtcome.touched htopic w'⟩
    have hrest₁ : ∀ c' ∈ cs, db₁.activityTopics c'.id = some topic := fun c' hc' =>
      hsame ▸ hrest c' hc'
    rw [tried_cons, List.countP_cons, and_iff_right hpasses]
    cases o with
    | some claim =>
      have hc := hleases.mp rfl
      have hone : claimsOf topic [claim] = 1 := by
        have hin := hclaim claim rfl
        rw [htopic, Option.some_inj] at hin
        simp [claimsOf, hin]
      rw [if_pos hc, if_pos hc]
      refine wp_imp (ih hshows hrest₁ ?_) ?_
      · rw [Option.toList_some, List.length_append, List.length_singleton, claimsOf_append, hone]
        omega
      · rintro claims' db₂ ⟨htried, hlength, hvisit₂⟩
        rw [Option.toList_some, List.length_append, List.length_singleton] at hlength
        exact ⟨htried, by omega, hvisit.trans hvisit₂⟩
    | none =>
      have hc : ¬leasable c = true := fun hc => by cases hleases.mpr hc
      rw [if_neg hc, if_neg hc, Option.toList_none, List.append_nil]
      refine wp_imp (ih hshows hrest₁ hroom) ?_
      rintro claims' db₂ ⟨htried, hlength, hvisit₂⟩
      exact ⟨htried, hlength, hvisit.trans hvisit₂⟩

end Loops

end DurableWorkflows
