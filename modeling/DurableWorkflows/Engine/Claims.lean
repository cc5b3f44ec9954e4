import DurableWorkflows.Engine.Recovery

/-!
# Workflow claims

The claim of a workflow with the recovery of an expired lease, what a claim
knows about its row for as long as it lives, and the event a claim activates.

## Main definitions

- `ClaimedRow.Matches`: the row is the one the claim read
- `ClaimInv`: what holds of a claim in every later state

## Main results

- `wp_claimRow`: the scan ends, and the claim matches the row it leased
- `wp_activate`: every claim finds its event
-/

namespace DurableWorkflows

open Transaction

variable {db db' : DB} {w : WorkflowId} {r : WorkflowRow} {claim : ClaimedRow}
  {locked : WorkflowId → Bool} {now : DbMillis} {token : LeaseToken}

-- ════════════════════════════════════════════════════════════════════════
-- Scans
-- ════════════════════════════════════════════════════════════════════════

section OrderBy

variable {α β : Type} [LinearOrder β] {key : α → β} {rows : List α} {x : α}

theorem mem_orderBy : x ∈ orderBy key rows ↔ x ∈ rows := List.mem_insertionSort _

/-- The first row of an ordered scan has the least key. -/
theorem orderBy_head_le (h : (orderBy key rows).head? = some x) {y : α} (hy : y ∈ rows) :
    key x ≤ key y := by
  have hsorted : (orderBy key rows).Pairwise fun r r' => key r ≤ key r' := by
    have : Std.Total fun r r' : α => key r ≤ key r' := ⟨fun r r' => le_total (key r) (key r')⟩
    have : IsTrans α fun r r' : α => key r ≤ key r' := ⟨fun _ _ _ => le_trans⟩
    exact List.pairwise_insertionSort _ _
  have hmem : y ∈ orderBy key rows := mem_orderBy.mpr hy
  cases hl : orderBy key rows with
  | nil => simp [hl] at h
  | cons z zs =>
    obtain rfl : z = x := by simpa [hl] using h
    rw [hl] at hmem hsorted
    rcases List.mem_cons.mp hmem with rfl | hin
    · exact le_rfl
    · exact List.rel_of_pairwise_cons hsorted hin

end OrderBy

/-- The relock of a candidate ends the relocks if it is free and still qualifies. -/
theorem lockFirst_cons {qualifies : WorkflowRow → Bool} {id : WorkflowId} {ids : List WorkflowId} :
    lockFirst locked qualifies (id :: ids) db =
      ((db.workflows.find id).filter fun row => !locked row.id && qualifies row).elim
        (lockFirst locked qualifies ids db) fun row => .ok (some row, db) := by
  rw [lockFirst]
  refine (bind_of_ok (a := db.workflows.find id) rfl).trans ?_
  cases Option.filter (fun row => !locked row.id && qualifies row) (db.workflows.find id) <;> rfl

/-- A relocked candidate is stored and still qualifies. -/
theorem wp_lockFirst {E : DurableError → Prop} {qualifies : WorkflowRow → Bool}
    {ids : List WorkflowId} {Q : Option WorkflowRow → DB → Prop}
    (hsome : ∀ r, db.workflows.find r.id = some r → qualifies r = true → Q (some r) db)
    (hnone : Q none db) : wp (lockFirst locked qualifies ids) Q E db := by
  induction ids with
  | nil => exact hnone
  | cons id ids ih =>
    simp only [lockFirst, wp_bind, wp_findRow, workflowTable_get]
    split
    · rename_i row hrow
      simp only [Option.filter_eq_some_iff, Bool.and_eq_true] at hrow
      have hid : row.id = id := Table.key_of_find hrow.1
      exact hsome row (hid ▸ hrow.1) hrow.2.2
    · exact ih

section Expired

variable {cursor : Option (DbMillis × WorkflowId)} {last : WorkflowRow}

/-- What comes after a row that comes after the cursor comes after the
cursor. -/
theorem afterCursor_trans {expiry : DbMillis} (hlast : afterCursor cursor last = true)
    (hexpiry : last.leaseExpiresAt = some expiry)
    (h : afterCursor (some (expiry, last.id)) r = true) : afterCursor cursor r = true := by
  cases cursor with
  | none => rfl
  | some c =>
    simp only [afterCursor, hexpiry, Option.any_some, Option.any_eq_true_iff_get, Bool.or_eq_true,
      decide_eq_true_eq, Bool.and_eq_true, beq_iff_eq] at hlast h ⊢
    obtain ⟨hsome, h⟩ := h
    refine ⟨hsome, ?_⟩
    rcases hlast with hlast | ⟨hlast, hid⟩ <;> rcases h with h | ⟨h, hid'⟩
    · exact .inl (lt_trans hlast h)
    · exact .inl (h ▸ hlast)
    · exact .inl (hlast ▸ h)
    · exact .inr ⟨h.trans hlast, lt_trans hid hid'⟩

/-- A row does not come after itself. -/
theorem afterCursor_self {expiry : DbMillis} (hexpiry : last.leaseExpiresAt = some expiry) :
    afterCursor (some (expiry, last.id)) last = false := by
  simp [afterCursor, hexpiry]

theorem Table.length_select_le {α : Type} [Keyed α] {t : Table α} {p : α → Bool} :
    (t.select p).length ≤ t.next :=
  (List.length_filterMap_le _ _).trans (List.length_range).le

/-- A narrower selection. -/
theorem Table.select_and {α : Type} [Keyed α] {t : Table α} {p q : α → Bool} :
    t.select (fun r => p r && q r) = (t.select p).filter q := by
  simp only [Table.select, List.filter_filterMap]
  refine List.filterMap_congr fun i _ => ?_
  cases t.rows i with
  | none => rfl
  | some r => cases hp : p r <;> cases hq : q r <;> simp [Option.filter_some, hp, hq]

/-- Every page moves the cursor past its last row. -/
theorem length_select_afterCursor_lt {expiry : DbMillis}
    (hmem : last ∈ db.workflows.select fun r => leaseExpired now r && afterCursor cursor r)
    (hexpiry : last.leaseExpiresAt = some expiry) :
    (db.workflows.select fun r =>
      leaseExpired now r && afterCursor (some (expiry, last.id)) r).length <
    (db.workflows.select fun r => leaseExpired now r && afterCursor cursor r).length := by
  obtain ⟨-, hlast⟩ := Table.mem_select.mp hmem
  rw [Bool.and_eq_true] at hlast
  have heq : (fun r => leaseExpired now r && afterCursor (some (expiry, last.id)) r) =
      fun r => (leaseExpired now r && afterCursor cursor r) &&
        afterCursor (some (expiry, last.id)) r := by
    funext r
    cases h : afterCursor (some (expiry, last.id)) r
    · simp
    · simp [afterCursor_trans hlast.2 hexpiry h]
  rw [heq, Table.select_and]
  refine List.length_filter_lt_length_iff_exists.mpr ⟨last, hmem, ?_⟩
  simp [afterCursor_self hexpiry]

/-- The paged scan ends; the row it finds has an expired lease. -/
theorem wp_findExpired {Q : Option WorkflowRow → DB → Prop} {fuel : ℕ}
    (hfuel : (db.workflows.select fun r => leaseExpired now r && afterCursor cursor r).length < fuel)
    (hsome : ∀ r, db.workflows.find r.id = some r → leaseExpired now r = true → Q (some r) db)
    (hnone : Q none db) : wp (findExpired locked now fuel cursor) Q Benign db := by
  induction fuel generalizing cursor with
  | zero => cases hfuel
  | succ fuel ih =>
    simp only [findExpired, wp_bind, wp_selectRows]
    split
    · exact hnone
    · rename_i last hlast
      have hmem : last ∈ db.workflows.select fun r => leaseExpired now r && afterCursor cursor r :=
        mem_orderBy.mp (List.mem_of_mem_take (List.mem_of_getLast? hlast))
      obtain ⟨-, hexpired⟩ := Table.mem_select.mp hmem
      simp only [leaseExpired, Bool.and_eq_true, Option.any_eq_true_iff_get] at hexpired
      obtain ⟨expiry, hexpiry⟩ := Option.isSome_iff_exists.mp hexpired.1.2.1
      rw [wp_bind]
      refine wp_lockFirst hsome ?_
      rw [wp_ite]
      refine ⟨fun _ => hnone, fun _ => ih ?_⟩
      rw [hexpiry, Option.getD_some]
      have := length_select_afterCursor_lt hmem hexpiry
      omega

end Expired

-- ════════════════════════════════════════════════════════════════════════
-- Claims
-- ════════════════════════════════════════════════════════════════════════

/-- The row is the one the claim read. -/
def ClaimedRow.Matches (claim : ClaimedRow) (r : WorkflowRow) : Prop :=
  ∃ owner updatedAt, claim.row = { r with leaseOwner := owner, updatedAt }

/-- What holds of a claim in every state from its draw on. -/
structure ClaimInv (db : DB) (claim : ClaimedRow) : Prop where
  lineage : db.lineage claim.row.id = some claim.row.lineage
  same : ∀ r, db.workflows.find claim.row.id = some r → r.leaseToken = some claim.leaseToken →
    claim.Matches r
  event : claim.row.deliveredEventSequence + 1 ≤
    (deliveries (db.aggregate claim.row.id).events).length

/-- The claimed row is stored. -/
theorem ClaimInv.stored (h : ClaimInv db claim) :
    ∃ r, db.workflows.find claim.row.id = some r := by
  obtain ⟨r, hr, -⟩ := DB.exists_row h.lineage
  exact ⟨r, hr⟩

/-- The steps of a claim that draws `token`. -/
def Label.claims (token : LeaseToken) : Label → Bool
  | .recovered | .history => true
  | .claimed t => t == token
  | _ => false

/-- The steps of a claim at a time: a workflow that was ready is claimed only when
it is due, and the lease of a workflow that was running may be recovered. -/
structure Label.ClaimsDue (db : DB) (token : LeaseToken) (now : DbMillis) (w : WorkflowId)
    (l : Label) : Prop where
  claims : l.claims token = true
  due : l = .claimed token → ∀ r, db.workflows.find w = some r → r.status = .ready →
    r.availableAt ≤ now
  leased : l = .recovered → ∃ r, db.workflows.find w = some r ∧ r.status = .running

theorem running_of_leaseExpired (h : leaseExpired now r = true) : r.status = .running := by
  simp only [leaseExpired, Bool.and_eq_true, beq_iff_eq] at h
  exact h.1

theorem wp_recoverLease {Q : Unit → DB → Prop} (hs : db.Sound)
    (hr : db.workflows.find r.id = some r) (hexpired : leaseExpired now r = true)
    (h : ∀ db', Evolves (fun w l => (w = r.id ∧ l = .recovered) ∨ l = .history) db db' →
      (∀ w r, db.workflows.find w = some r → r.status = .ready → db'.workflows.find w = some r) →
      Q () db') :
    wp (recoverLease r now) Q Benign db := by
  rw [recoverLease, wp_bind]
  refine wp_updateWorkflow (fun _ => rfl) fun r' db₁ hr' _ ht => ?_
  obtain rfl : r' = r := by simpa [hr] using hr'.symm
  have hrunning := running_of_leaseExpired hexpired
  have hev : Evolves (fun w l => (w = r'.id ∧ l = .recovered) ∨ l = .history) db db₁ :=
    .of_step ht (.recovered hr hrunning now) (.inl ⟨rfl, rfl⟩)
  refine wp_history (hev.sound hs) (congrArg Aggregate.row ht.self) (fun _ => rfl)
    (P := fun w l => (w = r'.id ∧ l = .recovered) ∨ l = .history) (.inr rfl) nofun rfl
    fun db₂ hev₂ hsame => ?_
  refine h db₂ (hev.trans hev₂) fun w r hw hready => (hsame w).trans ?_
  have hne : w ≠ r'.id := by
    rintro rfl
    obtain rfl := Option.some_inj.mp (hr.symm.trans hw)
    rw [hrunning] at hready
    cases hready
  exact (congrArg Aggregate.row (ht.other w hne)).trans hw

theorem wp_claimReady {registry : WorkflowRegistry} {workerId : String} {expiry : DbMillis}
    {Q : Option ClaimedRow → DB → Prop} (hs : db.Sound)
    (hnone : Q none db)
    (hsome : ∀ claim db', Evolves (fun w l => l = .claimed token ∧
        ∀ r, db.workflows.find w = some r → r.availableAt ≤ now) db db' →
      claim.leaseToken = token → ClaimInv db' claim →
      (∃ r, db'.workflows.find claim.row.id = some r ∧ r.status = .running ∧ claim.Matches r) →
      Q (some claim) db') :
    wp (claimReady registry locked workerId token expiry now) Q Benign db := by
  simp only [claimReady, wp_bind, wp_selectRows]
  refine wp_lockFirst (fun row hrow hready => ?_) hnone
  simp only [readyAt, Bool.and_eq_true, beq_iff_eq, decide_eq_true_eq] at hready
  simp only [wp_bind]
  refine wp_updateWorkflow (fun _ => rfl) fun r db₁ hr _ ht => ?_
  obtain rfl : r = row := by simpa [hrow] using hr.symm
  have hinv := hs.inv hrow
  have hrow₁ := congrArg Aggregate.row ht.self
  refine hsome _ db₁ (.of_step ht (.claimed hrow hready.1 workerId token expiry now)
    ⟨rfl, fun r' hr' => ?_⟩) rfl ?_ ⟨_, hrow₁, rfl, r.leaseOwner, r.updatedAt, rfl⟩
  · obtain rfl := Option.some_inj.mp (hrow.symm.trans hr')
    exact hready.2
  refine ⟨(lineage_of_find hrow₁).trans rfl, ?_, ?_⟩
  · intro r' hr' _
    obtain rfl := Option.some_inj.mp (hrow₁.symm.trans hr')
    exact ⟨r.leaseOwner, r.updatedAt, rfl⟩
  · have hlen : (deliveries (db.aggregate r.id).events).length = r.deliveredEventSequence + 1 :=
      (hinv.delivery.pending (by simp [WorkflowRow.control, hready.1, WorkflowStatus.isTerminal])).mpr
        (hinv.not_waiting (.inl hready.1))
    rw [ht.self]
    exact hlen.ge

/-- The claim transaction recovers at most one lease and draws at most one
claim. -/
theorem wp_claimRow {config : CoordinatorConfig} {registry : WorkflowRegistry} {workerId : String}
    (hs : db.Sound) :
    wp (claimRow config registry locked workerId token now) (fun o db' =>
      Evolves (fun w l => l.ClaimsDue db token now w) db db' ∧
        ∀ claim, o = some claim → claim.leaseToken = token ∧ ClaimInv db' claim ∧
          ∃ r, db'.workflows.find claim.row.id = some r ∧ r.status = .running ∧ claim.Matches r)
      Benign db := by
  simp only [claimRow, wp_bind, wp_ofExcept, wp_orAbort, wp_read]
  refine ⟨fun _ _ => ⟨fun expiry _ => ?_, fun _ => rfl⟩, benignErrors_durationMillis _⟩
  have hclaim : ∀ db₁, Evolves (fun w l => l.ClaimsDue db token now w) db db₁ →
      (∀ w r, db.workflows.find w = some r → r.status = .ready → db₁.workflows.find w = some r) →
      wp (claimReady registry locked workerId token expiry now) (fun o db' =>
        Evolves (fun w l => l.ClaimsDue db token now w) db db' ∧
          ∀ claim, o = some claim → claim.leaseToken = token ∧ ClaimInv db' claim ∧
            ∃ r, db'.workflows.find claim.row.id = some r ∧ r.status = .running ∧ claim.Matches r)
        Benign db₁ := by
    intro db₁ hev hready
    refine wp_claimReady (hev.sound hs) ⟨hev, by simp⟩ fun claim db₂ hev₂ htoken hinv hstored => ?_
    refine ⟨hev.trans (hev₂.mono ?_), fun claim' hc => ?_⟩
    · rintro w _ ⟨rfl, hdue⟩
      exact ⟨beq_self_eq_true token, fun _ r hr hstatus => hdue r (hready w r hr hstatus), fun h => by cases h⟩
    · obtain rfl := Option.some_inj.mp hc
      exact ⟨htoken, hinv, hstored⟩
  refine wp_findExpired ?_ (fun row hrow hexpired => ?_) ?_
  · have := Table.length_select_le (t := db.workflows) (p := fun r =>
      leaseExpired now r && afterCursor none r)
    omega
  · refine wp_recoverLease hs hrow hexpired fun db₁ hev => hclaim db₁ (hev.mono ?_)
    rintro _ _ (⟨rfl, rfl⟩ | rfl)
    · exact ⟨rfl, (fun h => by cases h), fun _ => ⟨row, hrow, running_of_leaseExpired hexpired⟩⟩
    · exact ⟨rfl, (fun h => by cases h), fun h => by cases h⟩
  · exact hclaim db (.refl db) fun _ _ hr _ => hr

-- ════════════════════════════════════════════════════════════════════════
-- Activation
-- ════════════════════════════════════════════════════════════════════════

/-- Every claim finds the event after the one its row had consumed, stale or
not. -/
theorem wp_activate (hs : db.Sound) (hclaim : ClaimInv db claim) :
    wp (activate claim) (fun o db' => db' = db ∧ o.1 ∈ db.eventsOf claim.row.id ∧
      o.1.deliverySequence = some (claim.row.deliveredEventSequence + 1)) Benign db := by
  have hlog := hs.log claim.row.id
  have hnext : claim.row.deliveredEventSequence + 1 ∈
      deliveries (db.aggregate claim.row.id).events := by
    rw [hlog.mem_deliveries]
    exact ⟨Nat.le_add_left .., hclaim.event⟩
  obtain ⟨e, he, hdelivery⟩ := List.mem_filterMap.mp hnext
  simp only [activate, nextDeliveryEvent, wp_bind, wp_read, wp_pure, wp_orAbort, wp_ofExcept]
  set undelivered := (db.eventsOf claim.row.id).filter fun e =>
    e.deliverySequence.any fun d => claim.row.deliveredEventSequence < d with hundelivered
  have hmem : e ∈ undelivered := by
    refine List.mem_filter.mpr ⟨he, ?_⟩
    simp [hdelivery]
  refine ⟨fun first hfirst => ⟨fun _ _ => ?_, ?_⟩, fun hnone => ?_⟩
  · obtain ⟨hin, hany⟩ := List.mem_filter.mp (mem_orderBy.mp (List.mem_of_mem_head? hfirst))
    have hle := orderBy_head_le hfirst hmem
    refine ⟨trivial, hin, ?_⟩
    cases hd : first.deliverySequence with
    | none => simp [hd] at hany
    | some d =>
      simp only [hd, hdelivery, Option.getD_some, Option.any_some, decide_eq_true_eq] at hle hany
      exact congrArg some (by omega)
  · intro error herror
    obtain ⟨hin, hany⟩ := List.mem_filter.mp (mem_orderBy.mp (List.mem_of_mem_head? hfirst))
    obtain ⟨event, hevent⟩ := hlog.decodes first hin (by
      cases hd : first.deliverySequence <;> simp_all)
    rw [hevent] at herror
    cases herror
  · rw [List.head?_eq_none_iff] at hnone
    have : e ∈ ([] : List WorkflowEventRow) := hnone ▸ mem_orderBy.mpr hmem
    cases this

end DurableWorkflows
