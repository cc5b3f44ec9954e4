import DurableWorkflows.Base.KeysetScan
import DurableWorkflows.Engine.FullLogs
import Mathlib.Data.Prod.Lex

/-!
# The scan for expired leases

`claim_row` reads the expired leases in pages and relocks their rows one by one. At READ COMMITTED
every statement sees the rows that are committed by then, so rows change between the read of a page
and a relock, and between two pages.

## Main definitions

- `StatementView`: what one statement sees
- `scanExpired`: the scan over the views of its statements
- `ChangingRows`: the views of a scan
- `DB.expiredLease`: the first expired lease that is free

## Main results

- `scanExpired_recovers`: the scan is complete, and what it recovers
- `findExpired_first`: what the scan of a still table finds
-/

namespace DurableWorkflows

open Transaction Keyset

-- ════════════════════════════════════════════════════════════════════════
-- The scan
-- ════════════════════════════════════════════════════════════════════════

/-- What one statement sees: the committed rows, and the rows that other transactions hold. -/
structure StatementView where
  workflows : Table WorkflowRow
  locked : WorkflowId → Bool

/-- The columns that a page selects, in the order of the scan. -/
def WorkflowRow.expiredKey (row : WorkflowRow) : DbMillis ×ₗ WorkflowId :=
  toLex (row.leaseExpiresAt.getD 0, row.id)

/-- The id of a candidate. -/
def expiredId (candidate : DbMillis ×ₗ WorkflowId) : WorkflowId := (ofLex candidate).2

/-- The page of the expired leases after the cursor. -/
def expiredPage (now : DbMillis) (view : StatementView)
    (cursor : Option (DbMillis ×ₗ WorkflowId)) : List (DbMillis ×ₗ WorkflowId) :=
  let candidates := view.workflows.select fun r =>
    leaseExpired now r && afterCursor (cursor.map ofLex) r
  (orderBy id (candidates.map (·.expiredKey))).take claimScanLimit

/-- The relock of a row, which skips the row if it is held, and its check. -/
def relockExpired (now : DbMillis) (view : StatementView) (id : WorkflowId) :
    Option WorkflowRow :=
  ((view.workflows.find id).filter fun row => !view.locked row.id).filter (leaseExpired now)

/-- The relocks of a page from the statement `t` on. -/
def relockPage (now : DbMillis) (views : ℕ → StatementView) :
    ℕ → List (DbMillis ×ₗ WorkflowId) → Option WorkflowRow
  | _, [] => none
  | t, candidate :: page =>
    match relockExpired now (views t) (expiredId candidate) with
    | some row => some row
    | none => relockPage now views (t + 1) page

/-- The loop over the pages from the statement `t` on; it has no result if the fuel is spent. -/
def scanExpired (now : DbMillis) (views : ℕ → StatementView) :
    ℕ → ℕ → Option (DbMillis ×ₗ WorkflowId) → Option (Option WorkflowRow)
  | 0, _, _ => none
  | fuel + 1, t, cursor =>
    let page := expiredPage now (views t) cursor
    match page.getLast? with
    | none => some none
    | some lastCandidate =>
      match relockPage now views (t + 1) page with
      | some row => some (some row)
      | none =>
        if page.length < claimScanLimit then
          some none
        else
          scanExpired now views fuel (t + 1 + page.length) (some lastCandidate)

/-- All expired leases that a statement sees. -/
def StatementView.expiredKeys (now : DbMillis) (view : StatementView) :
    List (DbMillis ×ₗ WorkflowId) :=
  (view.workflows.select (leaseExpired now)).map (·.expiredKey)

/-- The views of the statements of a scan: rows may change in any way, but only finitely many
leases are ever seen expired. -/
structure ChangingRows (now : DbMillis) where
  view : ℕ → StatementView
  keys : Finset (DbMillis ×ₗ WorkflowId)
  mem_keys : ∀ t, ∀ key ∈ (view t).expiredKeys now, key ∈ keys

/-- What a scan of expired leases did. -/
abbrev ExpiredScan := Scan (DbMillis ×ₗ WorkflowId) WorkflowRow

/-- A scan over the views of its statements, which are counted from 0. -/
def ChangingRows.Scans {now : DbMillis} (rows : ChangingRows now) (scan : ExpiredScan) : Prop :=
  Keyset.Scans (fun t => (rows.view t).expiredKeys now)
    (fun t key => relockExpired now (rows.view t) (expiredId key)) claimScanLimit 0 none scan

variable {db db' : DB} {row : WorkflowRow} {now : DbMillis} {view : StatementView}
  {views : ℕ → StatementView} {cursor : Option (DbMillis ×ₗ WorkflowId)} {t : ℕ}

-- ════════════════════════════════════════════════════════════════════════
-- Pages
-- ════════════════════════════════════════════════════════════════════════

/-- The cursor's filter compares the position of a row. -/
theorem afterCursor_eq (h : leaseExpired now row = true) :
    afterCursor (cursor.map ofLex) row = cursor.all (· < row.expiredKey) := by
  rw [leaseExpired, Bool.and_eq_true, Option.any_eq_true_iff_get] at h
  obtain ⟨expiry, hexpiry⟩ := Option.isSome_iff_exists.mp h.2.1
  cases cursor with
  | none => rfl
  | some c =>
    rw [Option.all_some, Option.map_some, afterCursor, hexpiry, Option.any_some, Bool.eq_iff_iff,
      decide_eq_true_eq, Bool.or_eq_true, Bool.and_eq_true, decide_eq_true_eq, decide_eq_true_eq,
      beq_iff_eq, Prod.Lex.lt_iff, WorkflowRow.expiredKey, hexpiry]
    exact or_congr_right (and_congr_left fun _ => eq_comm)

theorem expiredPage_eq :
    expiredPage now view cursor = page claimScanLimit cursor (view.expiredKeys now) := by
  rw [expiredPage, page, StatementView.expiredKeys, after, List.filter_map, Table.select_and]
  refine congrArg (fun rows => (sort id (List.map _ rows)).take _) (List.filter_congr ?_)
  exact fun r hr => afterCursor_eq (Table.mem_select.mp hr).2

/-- The relocks of a page are its tries. -/
theorem relockPage_tries (now : DbMillis) (views : ℕ → StatementView) (t : ℕ)
    (page : List (DbMillis ×ₗ WorkflowId)) :
    ∃ tries, Tries (fun t key => relockExpired now (views t) (expiredId key)) t page tries
      (relockPage now views t page) := by
  induction page generalizing t with
  | nil => exact ⟨[], .nil⟩
  | cons key page ih =>
    rw [relockPage]
    cases hrow : relockExpired now (views t) (expiredId key) with
    | some row => exact ⟨_, .taken hrow⟩
    | none => exact (ih (t + 1)).imp' _ fun tries htries => .skipped hrow htries

/-- With enough fuel the loop ends, and it is a scan. -/
theorem scanExpired_scans (now : DbMillis) (views : ℕ → StatementView)
    {keys : Finset (DbMillis ×ₗ WorkflowId)}
    (hkeys : ∀ t, ∀ key ∈ (views t).expiredKeys now, key ∈ keys) {fuel : ℕ}
    (hfuel : (keys.filter fun key => cursor.all (· < key) = true).card < fuel) :
    ∃ scan, Keyset.Scans (fun t => (views t).expiredKeys now)
        (fun t key => relockExpired now (views t) (expiredId key)) claimScanLimit t cursor scan ∧
      scanExpired now views fuel t cursor = some scan.found := by
  induction fuel generalizing t cursor with
  | zero => cases hfuel
  | succ fuel ih =>
    obtain ⟨tries, htries⟩ := relockPage_tries now views (t + 1) (expiredPage now (views t) cursor)
    rw [scanExpired]
    cases hlast : (expiredPage now (views t) cursor).getLast? with
    | none =>
      have hnil := List.getLast?_eq_none_iff.mp hlast
      rw [hnil] at htries
      rw [expiredPage_eq] at hnil
      refine ⟨⟨[t], [], none⟩, .stops ?_ (.inr ?_), rfl⟩
      · rw [hnil]
        exact .nil
      · rw [hnil]
        decide
    | some last =>
      cases hfound : relockPage now views (t + 1) (expiredPage now (views t) cursor) with
      | some row =>
        rw [hfound, expiredPage_eq] at htries
        exact ⟨_, .stops htries (.inl rfl), rfl⟩
      | none =>
        rw [hfound] at htries
        rw [expiredPage_eq] at htries hlast ⊢
        by_cases hshort : (page claimScanLimit cursor ((views t).expiredKeys now)).length <
            claimScanLimit
        · exact ⟨_, .stops htries (.inr hshort), if_pos hshort⟩
        · have hless := card_above_lt (hkeys t) hlast
          have hrest : (keys.filter fun key => (some last).all (· < key) = true).card < fuel := by
            simp only [Option.all_some, decide_eq_true_eq]
            omega
          obtain ⟨scan, hscan, heq⟩ := ih hrest
          exact ⟨_, .next htries hlast (not_lt.mp hshort) hscan, (if_neg hshort).trans heq⟩

-- ════════════════════════════════════════════════════════════════════════
-- One view
-- ════════════════════════════════════════════════════════════════════════

variable {locked : WorkflowId → Bool}

theorem lockFirst_eq (locked : WorkflowId → Bool) (now : DbMillis) (db : DB) (t : ℕ)
    (page : List (DbMillis ×ₗ WorkflowId)) :
    lockFirst locked (leaseExpired now) (page.map expiredId) db =
      .ok (relockPage now (fun _ => ⟨db.workflows, locked⟩) t page, db) := by
  induction page generalizing t with
  | nil => rfl
  | cons key page ih =>
    rw [relockPage, relockExpired, Option.filter_filter, List.map_cons, lockFirst_cons]
    show Option.elim (Option.filter _ (db.workflows.find (expiredId key))) _ _ = _
    cases Option.filter (fun row => !locked row.id && leaseExpired now row)
        (db.workflows.find (expiredId key)) with
    | some row => rfl
    | none => exact ih (t + 1)

/-- The rows of a page without a change between its statements. -/
theorem map_orderBy_expiredKey (now : DbMillis) (rows : Table WorkflowRow)
    (cursor : Option (DbMillis × WorkflowId)) :
    (orderBy (fun r => r.leaseExpiresAt.getD 0) (rows.select fun r =>
      leaseExpired now r && afterCursor cursor r)).map (·.expiredKey) =
    orderBy id ((rows.select fun r =>
      leaseExpired now r && afterCursor cursor r).map (·.expiredKey)) := by
  have hstable : orderBy (fun r : WorkflowRow => r.leaseExpiresAt.getD 0) (rows.select fun r =>
      leaseExpired now r && afterCursor cursor r) = orderBy (·.expiredKey) (rows.select fun r =>
      leaseExpired now r && afterCursor cursor r) := by
    refine insertionSort_congr (Table.pairwise_select.imp fun {r r'} hid => ?_)
    rw [Prod.Lex.le_iff]
    exact le_iff_lt_or_eq.trans (or_congr_right (and_iff_left (le_of_lt hid)).symm)
  rw [hstable]
  exact List.map_insertionSort _ _ _ _ fun _ _ _ _ => Iff.rfl

/-- The scan of a claim that sees one state throughout. -/
theorem findExpired_eq (now : DbMillis) (db : DB) (fuel t : ℕ)
    (cursor : Option (DbMillis × WorkflowId)) :
    findExpired locked now fuel cursor db =
      (scanExpired now (fun _ => ⟨db.workflows, locked⟩) fuel t (cursor.map toLex)).elim
        (.error .outOfFuel) fun found => .ok (found, db) := by
  induction fuel generalizing t cursor with
  | zero => rfl
  | succ fuel ih =>
    let rows := (orderBy (fun r : WorkflowRow => r.leaseExpiresAt.getD 0)
      (db.workflows.select fun r => leaseExpired now r && afterCursor cursor r)).take claimScanLimit
    have hpage : expiredPage now ⟨db.workflows, locked⟩ (cursor.map toLex) =
        rows.map (·.expiredKey) := by
      rw [List.map_take, map_orderBy_expiredKey]
      cases cursor <;> rfl
    have hids : rows.map WorkflowRow.id = (rows.map (·.expiredKey)).map expiredId := by
      rw [List.map_map]
      rfl
    have hlock := lockFirst_eq locked now db (t + 1) (rows.map (·.expiredKey))
    rw [← hids] at hlock
    rw [scanExpired, hpage, List.getLast?_map, List.length_map, findExpired]
    refine (bind_of_ok (a := db.workflows.select fun r =>
      leaseExpired now r && afterCursor cursor r) rfl).trans ?_
    cases rows.getLast? with
    | none => rfl
    | some last =>
      refine (bind_of_ok hlock).trans ?_
      rw [Option.map_some]
      cases relockPage now (fun _ => ⟨db.workflows, locked⟩) (t + 1) (rows.map (·.expiredKey)) with
      | some row => rfl
      | none =>
        show (if rows.length < claimScanLimit then pure none
          else findExpired locked now fuel (some (last.leaseExpiresAt.getD 0, last.id))) db =
            Option.elim (if rows.length < claimScanLimit then some none
              else scanExpired now (fun _ => ⟨db.workflows, locked⟩) fuel (t + 1 + rows.length)
                (some last.expiredKey)) (.error .outOfFuel) fun found => .ok (found, db)
        by_cases hshort : rows.length < claimScanLimit
        · rw [if_pos hshort, if_pos hshort]
          rfl
        · rw [if_neg hshort, if_neg hshort]
          exact ih _ _

-- ════════════════════════════════════════════════════════════════════════
-- The recovery
-- ════════════════════════════════════════════════════════════════════════

/-- The row is ready again, and no other row changes. -/
def RecoversLease (row : WorkflowRow) (now : DbMillis) (db db' : DB) : Prop :=
  db'.workflows.find row.id = some { row.leaseCleared with
    status := .ready, availableAt := now, updatedAt := now } ∧
  ∀ w, w ≠ row.id → db'.workflows.find w = db.workflows.find w

/-- The recovery of a row that is stored as the scan found it. It fails exactly if the log of the
workflow is full. -/
theorem wp_recoverLease_exact (hs : db.Sound) (hrow : db.workflows.find row.id = some row)
    (hexpired : leaseExpired now row = true) :
    wp (recoverLease row now)
      (fun _ db' => (db.aggregate row.id).events.length < I32.max ∧ RecoversLease row now db db')
      (fun e => e = .invalidState .eventSequenceOverflow ∧
        I32.max ≤ (db.aggregate row.id).events.length) db := by
  have hrunning : row.status = .running := running_of_leaseExpired hexpired
  have htoken : row.leaseToken.isSome = true := by
    rw [(hs.inv hrow).row.leaseToken, hrunning]
    rfl
  have hfence : (row.status == .running && row.leaseToken.isSome &&
      row.leaseToken == row.leaseToken) = true := by
    rw [hrunning, htoken, beq_self_eq_true, beq_self_eq_true]
    rfl
  rw [recoverLease, wp_bind]
  refine wp_updateWorkflow_of hrow hfence fun db₁ ht => ?_
  have hevents : (db₁.aggregate row.id).events = (db.aggregate row.id).events := by
    rw [ht.self]
    rfl
  have hrow₁ : db₁.workflows.find row.id = some { row.leaseCleared with
      status := .ready, availableAt := now, updatedAt := now } := congrArg Aggregate.row ht.self
  refine wp_appendHistoryEvent (hevents ▸ hs.log row.id) (fun hfull => ⟨rfl, hevents ▸ hfull⟩)
    (fun _ h => by cases h) rfl fun e db₂ he _ ht₂ => ⟨?_, ?_, fun w hw => ?_⟩
  · have hbounded := he.bounded
    rw [hevents] at hbounded
    exact hbounded
  · exact (congrArg Aggregate.row ht₂.self).trans hrow₁
  · exact congrArg Aggregate.row ((ht₂.other w hw).trans (ht.other w hw))

/-- A recovery that succeeds found the row running under the lease that the scan read. -/
theorem leased_of_recoverLease (hok : recoverLease row now db = .ok ((), db')) :
    ∃ r, db.workflows.find row.id = some r ∧ r.status = .running ∧ r.leaseToken = row.leaseToken := by
  have hwp : wp (recoverLease row now) (fun _ _ => ∃ r, db.workflows.find row.id = some r ∧
      r.status = .running ∧ r.leaseToken = row.leaseToken) (fun _ => True) db := by
    rw [recoverLease, wp_bind]
    refine wp_updateWorkflow (fun _ => trivial) fun r db₁ hr hfence _ => ?_
    rw [Bool.and_eq_true, Bool.and_eq_true, beq_iff_eq, beq_iff_eq] at hfence
    exact wp_of_ok fun _ _ _ => ⟨r, hr, hfence.1.1, hfence.2⟩
  exact wp_ok hwp hok

theorem relockExpired_eq_some {w : WorkflowId}
    (h : relockExpired now view w = some row) :
    view.workflows.find row.id = some row ∧ row.id = w ∧ view.locked row.id = false ∧
      leaseExpired now row = true := by
  obtain ⟨hrow, hexpired⟩ := Option.filter_eq_some_iff.mp h
  obtain ⟨hfind, hunlocked⟩ := Option.filter_eq_some_iff.mp hrow
  obtain rfl : row.id = w := Table.key_of_find hfind
  exact ⟨hfind, rfl, (Bool.not_eq_true' _).mp hunlocked, hexpired⟩

theorem relockExpired_eq_none {w : WorkflowId}
    (h : relockExpired now view w = none) (hfind : view.workflows.find w = some row) :
    view.locked w = true ∨ leaseExpired now row = false := by
  obtain rfl : row.id = w := Table.key_of_find hfind
  rw [relockExpired, hfind] at h
  cases hlocked : view.locked row.id with
  | true => exact .inl rfl
  | false =>
    refine .inr (Bool.eq_false_iff.mpr fun hexpired => ?_)
    have hsome : (Option.filter (leaseExpired now)
        (Option.filter (fun row => !view.locked row.id) (some row))) = some row :=
      Option.filter_eq_some_iff.mpr
        ⟨Option.filter_eq_some_iff.mpr ⟨rfl, (Bool.not_eq_true' _).mpr hlocked⟩, hexpired⟩
    rw [hsome] at h
    cases h

/-- A lease that is seen expired belongs to a row. -/
theorem exists_of_mem_expiredKeys {key : DbMillis ×ₗ WorkflowId}
    (h : key ∈ view.expiredKeys now) :
    ∃ row, view.workflows.find (expiredId key) = some row ∧ leaseExpired now row = true := by
  obtain ⟨row, hrow, rfl⟩ := List.mem_map.mp h
  obtain ⟨hfind, hexpired⟩ := Table.mem_select.mp hrow
  exact ⟨row, hfind, hexpired⟩

variable {rows : ChangingRows now} {scan : ExpiredScan}

/-- The row that a scan found was relocked by its last try, and all tries before it failed. -/
theorem ChangingRows.Scans.found_row (h : rows.Scans scan) (hfound : scan.found = some row) :
    ∃ before t key, scan.tries = before ++ [(t, key)] ∧ expiredId key = row.id ∧
      (rows.view t).workflows.find row.id = some row ∧ (rows.view t).locked row.id = false ∧
      row.status = .running ∧ leaseExpired now row = true ∧
      ∀ p ∈ before, relockExpired now (rows.view p.1) (expiredId p.2) = none := by
  obtain ⟨before, ⟨t, key⟩, htries, htaken, hnone⟩ := Keyset.Scans.of_some h hfound
  obtain ⟨hfind, hid, hunlocked, hexpired⟩ := relockExpired_eq_some htaken
  exact ⟨before, t, key, htries, hid.symm, hfind, hunlocked, running_of_leaseExpired hexpired,
    hexpired, hnone⟩

/-- A lease that every page and relock of a scan sees expired and free is enough. -/
theorem ChangingRows.Scans.finds (h : rows.Scans scan) {key : DbMillis ×ₗ WorkflowId}
    (hkey : ∀ t, key ∈ (rows.view t).expiredKeys now)
    (hfree : ∀ t, (rows.view t).locked (expiredId key) = false) : scan.found.isSome = true := by
  by_contra hnone
  rw [Bool.not_eq_true, Option.isSome_eq_false_iff, Option.isNone_iff_eq_none] at hnone
  rcases Keyset.Scans.complete h hnone (k := key) rfl with ⟨t, htried⟩ | ⟨t, -, hmissed⟩
  · obtain ⟨row, hfind, hexpired⟩ := exists_of_mem_expiredKeys (hkey t)
    rcases relockExpired_eq_none (Keyset.Scans.of_none h hnone _ htried) hfind with hheld | hchanged
    · rw [hfree t] at hheld
      cases hheld
    · rw [hexpired] at hchanged
      cases hchanged
  · exact hmissed (hkey t)

/-- What a scan of expired leases and the recovery after it come to. -/
structure ChangingRows.Recovery (rows : ChangingRows now) (scan : ExpiredScan) : Prop where
  /-- The loop ends, after at most one page for each lease that is ever seen expired. -/
  ends : ∀ fuel, rows.keys.card < fuel → scanExpired now rows.view fuel 0 none = some scan.found
  /-- A row is found exactly if a relock finds one. -/
  found_iff : scan.found.isSome = true ↔
    ∃ p ∈ scan.tries, relockExpired now (rows.view p.1) (expiredId p.2) ≠ none
  /-- A lease that all statements see expired and free is enough. -/
  finds : ∀ key, (∀ t, key ∈ (rows.view t).expiredKeys now) →
    (∀ t, (rows.view t).locked (expiredId key) = false) → scan.found.isSome = true
  /-- The found row is running under an expired lease and free when it is relocked. -/
  found_row : ∀ row, scan.found = some row →
    ∃ before t key, scan.tries = before ++ [(t, key)] ∧ expiredId key = row.id ∧
      (rows.view t).workflows.find row.id = some row ∧ (rows.view t).locked row.id = false ∧
      row.status = .running ∧ leaseExpired now row = true ∧
      ∀ p ∈ before, relockExpired now (rows.view p.1) (expiredId p.2) = none
  /-- The recovery makes the found row ready, which the relock holds, and touches no other; it
  fails only if the log of the workflow is full. -/
  recovers : ∀ row, scan.found = some row → ∀ externals actions,
    let db := (run externals Sys.init actions).db
    db.workflows.find row.id = some row →
      wp (recoverExpired scan.found now) (fun _ db' => RecoversLease row now db db')
        (fun e => e = .invalidState .eventSequenceOverflow ∧
          I32.max ≤ (db.aggregate row.id).events.length) db
  /-- In any state, a recovery that succeeds finds the row running under the lease that was read. -/
  leased : ∀ row, scan.found = some row → ∀ db db', recoverExpired scan.found now db = .ok ((), db') →
    ∃ r, db.workflows.find row.id = some r ∧ r.status = .running ∧ r.leaseToken = row.leaseToken
  /-- Without a found row nothing is recovered, -/
  idle : scan.found = none → ∀ db, recoverExpired scan.found now db = .ok ((), db)
  /-- every row that was relocked was held or no longer expired, -/
  skipped : scan.found = none → ∀ p ∈ scan.tries, ∀ row,
    (rows.view p.1).workflows.find (expiredId p.2) = some row →
      (rows.view p.1).locked (expiredId p.2) = true ∨ leaseExpired now row = false
  /-- and every lease was relocked that the pages saw expired. -/
  complete : scan.found = none → ∀ key, (∃ t, (t, key) ∈ scan.tries) ∨
    ∃ t ∈ scan.pages, key ∉ (rows.view t).expiredKeys now

/-- **The recovery scan.** Whatever other transactions hold and change between its statements, the
scan ends, passes over no lease that stays expired and free, and recovers at most the row that its
last relock found. -/
theorem scanExpired_recovers {now : DbMillis} (rows : ChangingRows now) :
    ∃ scan, rows.Scans scan ∧ rows.Recovery scan := by
  have hscans : ∀ fuel, rows.keys.card < fuel →
      ∃ scan, rows.Scans scan ∧ scanExpired now rows.view fuel 0 none = some scan.found :=
    fun fuel hfuel => scanExpired_scans now rows.view rows.mem_keys
      ((Finset.card_filter_le _ _).trans_lt hfuel)
  obtain ⟨scan, hscan, -⟩ := hscans (rows.keys.card + 1) (Nat.lt_succ_self _)
  refine ⟨scan, hscan, ?_, ?_, fun _ => hscan.finds, fun _ => hscan.found_row, ?_, ?_, ?_, ?_, ?_⟩
  · intro fuel hfuel
    obtain ⟨scan', hscan', hok⟩ := hscans fuel hfuel
    rw [Keyset.Scans.unique hscan hscan', hok]
  · constructor
    · intro hsome
      obtain ⟨row, hfound⟩ := Option.isSome_iff_exists.mp hsome
      obtain ⟨before, p, htries, htaken, -⟩ := Keyset.Scans.of_some hscan hfound
      refine ⟨p, htries ▸ List.mem_append_right _ List.mem_cons_self, ?_⟩
      exact Option.ne_none_iff_exists'.mpr ⟨row, htaken⟩
    · rintro ⟨p, hp, hsome⟩
      by_contra hnone
      rw [Bool.not_eq_true, Option.isSome_eq_false_iff, Option.isNone_iff_eq_none] at hnone
      exact hsome (Keyset.Scans.of_none hscan hnone p hp)
  · intro row hfound externals actions db hrow
    obtain ⟨-, -, -, -, -, -, -, -, hexpired, -⟩ := hscan.found_row hfound
    rw [hfound]
    exact wp_imp (wp_recoverLease_exact (run_inv externals actions).sound hrow hexpired)
      fun _ db' h => h.2
  · intro row hfound db db' hok
    rw [hfound] at hok
    exact leased_of_recoverLease hok
  · intro hnone db
    rw [hnone]
    rfl
  · exact fun hnone p hp row hfind =>
      relockExpired_eq_none (Keyset.Scans.of_none hscan hnone p hp) hfind
  · exact fun hnone key => Keyset.Scans.complete hscan hnone rfl

/-- Rows that do not change between the statements. -/
def ChangingRows.still (now : DbMillis) (db : DB) (locked : WorkflowId → Bool) :
    ChangingRows now where
  view _ := ⟨db.workflows, locked⟩
  keys := (StatementView.expiredKeys now ⟨db.workflows, locked⟩).toFinset
  mem_keys _ _ h := List.mem_toFinset.mpr h

/-- The scan of a claim that sees one state throughout is such a scan. -/
theorem findExpired_recovers (now : DbMillis) (db : DB) (locked : WorkflowId → Bool) :
    ∃ scan, (ChangingRows.still now db locked).Recovery scan ∧
      ∀ fuel, (ChangingRows.still now db locked).keys.card < fuel →
        findExpired locked now fuel none db = .ok (scan.found, db) := by
  obtain ⟨scan, -, hrecovery⟩ := scanExpired_recovers (ChangingRows.still now db locked)
  refine ⟨scan, hrecovery, fun fuel hfuel => ?_⟩
  have hends : scanExpired now (fun _ => ⟨db.workflows, locked⟩) fuel 0 none = some scan.found :=
    hrecovery.ends fuel hfuel
  rw [findExpired_eq now db fuel 0 none, Option.map_none, hends, Option.elim_some]

/-- The first expired lease whose row is free. -/
def DB.expiredLease (db : DB) (locked : WorkflowId → Bool) (now : DbMillis) : Option WorkflowRow :=
  (orderBy (·.expiredKey) (db.workflows.select (leaseExpired now))).find? fun row => !locked row.id

theorem stored_of_expiredLease {locked : WorkflowId → Bool}
    (h : db.expiredLease locked now = some row) :
    db.workflows.find row.id = some row ∧ leaseExpired now row = true :=
  Table.mem_select.mp (mem_orderBy.mp (List.mem_of_find?_eq_some h))

/-- The relocks of stored rows find the first that is free. -/
theorem findSome?_relockExpired {rows : List WorkflowRow}
    (hrows : ∀ row ∈ rows, view.workflows.find row.id = some row ∧ leaseExpired now row = true) :
    rows.findSome? (fun row => relockExpired now view row.id) =
      rows.find? fun row => !view.locked row.id := by
  induction rows with
  | nil => rfl
  | cons row rows ih =>
    obtain ⟨⟨hfind, hexpired⟩, hrest⟩ := List.forall_mem_cons.mp hrows
    rw [List.findSome?_cons, List.find?_cons, relockExpired, hfind, Option.filter_some]
    cases view.locked row.id with
    | true => exact ih hrest
    | false =>
      rw [Bool.not_false, if_pos rfl, Option.filter_some, hexpired]
      rfl

/-- The scan of a claim that sees one state throughout finds the first expired lease that is
free. -/
theorem findExpired_first (now : DbMillis) (db : DB) (locked : WorkflowId → Bool) :
    findExpired locked now (db.workflows.next + 1) none db =
      .ok (db.expiredLease locked now, db) := by
  let rows := db.workflows.select (leaseExpired now)
  let relock := fun key => relockExpired now ⟨db.workflows, locked⟩ (expiredId key)
  have hkeys : (rows.map (·.expiredKey)).Nodup := by
    refine List.pairwise_map.mpr (Table.pairwise_select.imp fun {row row'} hid heq => ?_)
    exact hid.ne (congrArg expiredId heq)
  obtain ⟨scan, hscan, hrecovery⟩ := scanExpired_recovers (ChangingRows.still now db locked)
  have hscan : Keyset.Scans (fun _ => rows.map (·.expiredKey)) (fun _ => relock) claimScanLimit 0
      none scan := hscan
  have hends : scanExpired now (fun _ => ⟨db.workflows, locked⟩) (db.workflows.next + 1) 0 none =
      some scan.found := by
    refine hrecovery.ends _ (Nat.lt_succ_of_le ?_)
    refine (List.toFinset_card_le _).trans ?_
    rw [StatementView.expiredKeys, List.length_map]
    exact (List.length_filterMap_le _ _).trans List.length_range.le
  have hfound : scan.found = (sort id (rows.map (·.expiredKey))).findSome? relock := by
    have hstill := Keyset.Scans.of_still hkeys hscan
    rwa [after_none] at hstill
  have hsort : sort id (rows.map (·.expiredKey)) = (orderBy (·.expiredKey) rows).map (·.expiredKey) :=
    (List.map_insertionSort (fun row row' : WorkflowRow => row.expiredKey ≤ row'.expiredKey)
      _ _ _ fun _ _ _ _ => Iff.rfl).symm
  have hrelock : (orderBy (·.expiredKey) rows).findSome? (fun row => relock row.expiredKey) =
      db.expiredLease locked now :=
    findSome?_relockExpired fun row hrow => Table.mem_select.mp (mem_orderBy.mp hrow)
  rw [findExpired_eq now db _ 0 none, Option.map_none, hends, Option.elim_some, hfound, hsort,
    List.findSome?_map, ← hrelock]
  rfl

-- ════════════════════════════════════════════════════════════════════════
-- A full log
-- ════════════════════════════════════════════════════════════════════════

/-- A claim that finds an expired lease of a workflow with a full log fails. -/
theorem claimRow_full {config : CoordinatorConfig} {registry : WorkflowRegistry} {workerId : String}
    {token : LeaseToken} {locked : WorkflowId → Bool} {millis : ℤ} {expiry : DbMillis}
    (hs : db.Sound) (hmillis : durationMillis config.leaseDuration = .ok millis)
    (hexpiry : DbMillis.checkedPlusMillis now millis = some expiry)
    (hlease : db.expiredLease locked now = some row)
    (hfull : I32.max ≤ (db.eventsOf row.id).length) :
    claimRow config registry locked workerId token now db =
      .error (.invalidState .eventSequenceOverflow) := by
  obtain ⟨hrow, hexpired⟩ := stored_of_expiredLease hlease
  have hwp : wp (claimRow config registry locked workerId token now) (fun _ _ => False)
      (fun e => e = .invalidState .eventSequenceOverflow) db := by
    rw [claimRow, hmillis, wp_bind, wp_ofExcept]
    refine ⟨?_, fun _ h => by cases h⟩
    rintro _ ⟨⟩
    rw [hexpiry, wp_bind, wp_orAbort]
    refine ⟨?_, fun h => by cases h⟩
    rintro _ ⟨⟩
    rw [wp_bind, wp_read, wp_bind]
    refine wp_eq_ok (findExpired_first now db locked) ?_
    rw [hlease, wp_bind]
    refine wp_mono (wp_recoverLease_exact hs hrow hexpired) ?_ fun e he => he.1
    rintro - db' ⟨hroom, -⟩
    exact absurd hroom (Nat.not_lt_of_le hfull)
  cases hclaim : claimRow config registry locked workerId token now db with
  | ok r => exact (wp_ok hwp hclaim).elim
  | error e => rw [wp_error hwp hclaim]

namespace Sample

/-- A run that leaves the workflow 1 running under a lease of a minute. -/
def leasedRun : List Action :=
  [.start workflow ⟨none, none, none⟩ 0,
    .claimWorkflow config workflows (fun _ => false) "worker" 0]

/-- The same with as many runs of a schedule as fill the log of the workflow. -/
def fullLeaseRun : List Action :=
  leasedRun ++ List.replicate (I32.max - 1) (.recordScheduleRunNow 1 operator 0)

theorem fullLeaseRun_records :
    (run Sample.externals Sys.init leasedRun).Records 1 (I32.max - 1)
      (run Sample.externals Sys.init fullLeaseRun) ∧
    ((run Sample.externals Sys.init fullLeaseRun).db.eventsOf 1).length = I32.max := by
  have hlength : ((run Sample.externals Sys.init leasedRun).db.eventsOf 1).length = 1 := by
    decide +kernel
  have hrow : ((run Sample.externals Sys.init leasedRun).db.workflows.find 1).isSome := by
    decide +kernel
  have hrecords : (run Sample.externals Sys.init leasedRun).Records 1 (I32.max - 1)
      (run Sample.externals Sys.init fullLeaseRun) := by
    rw [fullLeaseRun, run, Machine.run_append]
    refine run_records (run_inv Sample.externals leasedRun) hrow ?_
    rw [hlength]
    decide
  refine ⟨hrecords, ?_⟩
  rw [hrecords.length, hlength]
  rfl

/-- Its lease is the one that a scan after a minute finds. -/
theorem expiredLease_fullLeaseRun :
    ∃ row, row.id = 1 ∧ (run Sample.externals Sys.init fullLeaseRun).db.expiredLease
      (fun _ => false) 60000 = some row := by
  have hfound : ((run Sample.externals Sys.init leasedRun).db.expiredLease (fun _ => false)
      60000).any fun row => row.id == 1 := by decide +kernel
  obtain ⟨row, hrow, hid⟩ := (Option.any_eq_true _ _).mp hfound
  refine ⟨row, beq_iff_eq.mp hid, ?_⟩
  rw [← hrow, DB.expiredLease, DB.expiredLease, fullLeaseRun_records.1.workflows]

/-- An expired lease of a free row is not recovered from a full log: the claim that finds it
fails. -/
theorem fullLease_stays :
    let db := (run Sample.externals Sys.init fullLeaseRun).db
    (∃ row, db.workflows.find 1 = some row ∧ row.status = .running ∧
      leaseExpired 60000 row = true) ∧
    ∀ token, claimRow config workflows (fun _ => false) "worker" token 60000 db =
      .error (.invalidState .eventSequenceOverflow) := by
  obtain ⟨row, hid, hlease⟩ := expiredLease_fullLeaseRun
  obtain ⟨hrecords, hfull⟩ := fullLeaseRun_records
  obtain ⟨hrow, hexpired⟩ := stored_of_expiredLease hlease
  rw [← hid] at hfull
  exact ⟨⟨row, hid ▸ hrow, running_of_leaseExpired hexpired, hexpired⟩, fun token =>
    claimRow_full hrecords.inv.sound rfl rfl hlease hfull.ge⟩

end Sample

end DurableWorkflows
