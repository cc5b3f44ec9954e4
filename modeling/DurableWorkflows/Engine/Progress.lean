import DurableWorkflows.Engine.Audit
import DurableWorkflows.Engine.Continuity

/-!
# The progress of an attempt

An attempt reports its progress under its lease. What it reports is numbered from one on
without a gap, up to a limit past which a report is dropped, and is never written again: not
while the attempt runs, and not after it has ended.

## Main definitions

- `ProgressEventRow.Valid`: what the validation of a report leaves
- `DB.ProgressLedger`: the progress of all attempts

## Main results

- `wp_report_appends`: what a report does
- `run_progress`: the progress of every run
-/

namespace DurableWorkflows

open Transaction Sys

-- ════════════════════════════════════════════════════════════════════════
-- Rows
-- ════════════════════════════════════════════════════════════════════════

/-- What the validation of a report leaves. -/
structure ProgressEventRow.Valid (externals : Externals) (row : ProgressEventRow) : Prop where
  code : 1 ≤ row.code.utf8ByteSize ∧ row.code.utf8ByteSize ≤ 64 ∧ ∀ c ∈ row.code.toList, c.val ≤ 127
  description : row.description.utf8ByteSize ≤ maxProgressDescriptionBytes
  descriptionBytes : row.descriptionBytes = row.description.utf8ByteSize
  metadata : ∀ json, row.metadataJson = some json →
    json.utf8ByteSize ≤ maxEventMetadataBytes ∧ externals.jsonError json = none
  completed : ∀ n, row.completedUnits = some n → 0 ≤ n ∧ ∀ m, row.totalUnits = some m → n ≤ m
  total : ∀ m, row.totalUnits = some m → 0 ≤ m
  severity : ∃ severity : ProgressSeverity, row.severity = severity.asStr

/-- The row of a report. -/
def ProgressEvent.row (event : ProgressEvent) (claim : ActivityClaim) (sequence : ℕ)
    (now : DbMillis) : ProgressEventRow where
  activityId := claim.row.id
  attemptNumber := claim.attemptNumber
  sequence
  code := event.code
  description := event.description
  descriptionBytes := event.description.utf8ByteSize
  completedUnits := event.completedUnits
  totalUnits := event.totalUnits
  severity := event.severity.asStr
  metadataJson := event.metadataJson
  createdAt := now

section Validation

variable {externals : Externals} {event : ProgressEvent} {claim : ActivityClaim} {now : DbMillis}

theorem rejectIf_ok {c : Prop} [Decidable c] {e : DurableError} {u : Unit}
    (h : rejectIf c e = .ok u) : ¬c := by
  unfold rejectIf at h
  split at h
  · cases h
  · assumption

theorem ensureSize_ok {field value : String} {maxBytes : ℕ} {u : Unit}
    (h : ensureSize field value maxBytes = .ok u) : value.utf8ByteSize ≤ maxBytes := by
  unfold ensureSize at h
  split at h
  · cases h
  · omega

/-- A report that passes the validation writes a valid row. -/
theorem valid_of_validateEvent (h : validateEvent externals event = .ok ()) (sequence : ℕ) :
    (event.row claim sequence now).Valid externals := by
  obtain ⟨_, hcode, h⟩ := bind_eq_ok h
  obtain ⟨_, hdescription, h⟩ := bind_eq_ok h
  obtain ⟨_, hmetadata, hunits⟩ := bind_eq_ok h
  have hcode := rejectIf_ok hcode
  have hunits := rejectIf_ok hunits
  simp only [not_or] at hcode hunits
  obtain ⟨hempty, hlong, hascii⟩ := hcode
  obtain ⟨hcompleted, htotal, hle⟩ := hunits
  refine ⟨⟨Nat.pos_of_ne_zero hempty, Nat.le_of_not_lt hlong, fun c hc => ?_⟩, ensureSize_ok hdescription, rfl,
    fun json hjson => ?_, fun n hn => ⟨?_, fun m hm => ?_⟩, fun m hm => ?_, event.severity, rfl⟩
  · by_contra hbig
    refine hascii (List.any_eq_true.mpr ⟨c, hc, ?_⟩)
    simpa using hbig
  · replace hjson : event.metadataJson = some json := hjson
    rw [hjson] at hmetadata
    obtain ⟨_, hsize, hparse⟩ := bind_eq_ok hmetadata
    refine ⟨ensureSize_ok hsize, ?_⟩
    cases herror : externals.jsonError json with
    | none => rfl
    | some message =>
      rw [herror] at hparse
      cases hparse
  · replace hn : event.completedUnits = some n := hn
    rw [hn] at hcompleted
    simpa using hcompleted
  · replace hn : event.completedUnits = some n := hn
    replace hm : event.totalUnits = some m := hm
    rw [hn, hm] at hle
    simpa using hle
  · replace hm : event.totalUnits = some m := hm
    rw [hm] at htotal
    simpa using htotal

end Validation

-- ════════════════════════════════════════════════════════════════════════
-- The ledger
-- ════════════════════════════════════════════════════════════════════════

/-- What an attempt has reported, in its order. -/
def DB.progressOf (db : DB) (a : ActivityId) (n : ℕ) : List ProgressEventRow :=
  db.progress.filter fun p => p.activityId == a && p.attemptNumber == n

/-- The progress of all attempts. -/
structure DB.ProgressLedger (externals : Externals) (db : DB) : Prop where
  numbered : ∀ a n,
    (db.progressOf a n).map (·.sequence) = List.range' 1 (db.progressOf a n).length
  bounded : ∀ a n, (db.progressOf a n).length ≤ maxProgressEventsPerAttempt
  valid : ∀ row ∈ db.progress, row.Valid externals
  attempt : ∀ row ∈ db.progress, ∃ attempt,
    db.attempts row.activityId row.attemptNumber = some attempt

theorem max?_range' (n : ℕ) : ((List.range' 1 n).max?).getD 0 = n := by
  cases n with
  | zero => rfl
  | succ n =>
    have hmax : (List.range' 1 (n + 1)).max? = some (n + 1) := by
      refine List.max?_eq_some_iff.mpr ⟨by simp, fun b hb => ?_⟩
      simp only [List.mem_range'_1] at hb
      omega
    rw [hmax]
    rfl

section Report

variable {externals : Externals} {event : ProgressEvent} {claim : ActivityClaim} {now : DbMillis}
  {db db' : DB}

/-- What a report does: it is dropped once its attempt has reported the limit, and else it is
the next one of its attempt. -/
inductive Reported (externals : Externals) (claim : ActivityClaim) (event : ProgressEvent)
    (now : DbMillis) (db : DB) : ProgressReportOutcome → DB → Prop
  | limitReached
      (h : (db.progressOf claim.row.id claim.attemptNumber).length = maxProgressEventsPerAttempt) :
      Reported externals claim event now db .limitReached db
  | persisted {sequence : ℕ}
      (hnext : sequence = (db.progressOf claim.row.id claim.attemptNumber).length + 1)
      (hle : sequence ≤ maxProgressEventsPerAttempt) :
      Reported externals claim event now db (.persisted sequence)
        { db with progress := db.progress ++ [event.row claim sequence now] }

/-- A report is refused if it is invalid or its attempt is not the running one of its claim, and
for no other reason. -/
theorem wp_report_appends (h : db.ProgressLedger externals) :
    wp (report externals claim event now)
      (fun outcome db' => validateEvent externals event = .ok () ∧
        (db.activities.find claim.row.id).any claim.fences = true ∧
        Reported externals claim event now db outcome db')
      (fun e => validateEvent externals event = .error e ∨
        e = .fencedWrite ∧ (db.activities.find claim.row.id).any claim.fences = false) db := by
  rw [report, wp_bind, wp_ofExcept]
  refine ⟨fun _ hvalid => ?_, fun _ herror => .inl herror⟩
  rw [wp_bind, wp_findRow, wp_bind, wp_ensure]
  refine ⟨fun hfences => ?_, fun hfences => .inr ⟨rfl, Bool.eq_false_of_not_eq_true hfences⟩⟩
  rw [wp_bind, wp_read]
  have hlast : (((db.progress.filter fun p => p.activityId == claim.row.id &&
      p.attemptNumber == claim.attemptNumber).map (·.sequence)).max?).getD 0 =
      (db.progressOf claim.row.id claim.attemptNumber).length := by
    show ((db.progressOf claim.row.id claim.attemptNumber).map (·.sequence)).max?.getD 0 = _
    rw [h.numbered, max?_range']
  dsimp only
  rw [hlast]
  have hbounded := h.bounded claim.row.id claim.attemptNumber
  by_cases hfull : maxProgressEventsPerAttempt ≤
      (db.progressOf claim.row.id claim.attemptNumber).length
  · rw [if_pos hfull]
    exact ⟨hvalid, hfences, .limitReached (le_antisymm hbounded hfull)⟩
  · rw [if_neg hfull]
    have hrow : (event.row claim 0 now).Valid externals := valid_of_validateEvent hvalid 0
    have hdescription : event.description.utf8ByteSize ≤ maxProgressDescriptionBytes :=
      hrow.description
    have hsmall : (db.progressOf claim.row.id claim.attemptNumber).length + 1 ≤
        maxProgressEventsPerAttempt := by omega
    simp only [wp_bind, wp_orAbort, wp_ensure, wp_modify, wp_pure]
    refine ⟨fun sequence hsequence => ⟨fun _ => ?_, fun hlong => ?_⟩, fun hnone => ?_⟩
    · obtain ⟨-, rfl⟩ := I32.checkedAdd_eq_some.mp hsequence
      exact ⟨hvalid, hfences, .persisted rfl hsmall⟩
    · exact absurd (hdescription.trans (by decide)) hlong
    · exact absurd (I32.checkedAdd_eq_some.mpr ⟨hsmall.trans (by decide), rfl⟩) (by simp [hnone])

/-- A report keeps the ledger. -/
theorem Reported.ledger {outcome : ProgressReportOutcome}
    (h : Reported externals claim event now db outcome db') (hledger : db.ProgressLedger externals)
    (hvalid : validateEvent externals event = .ok ())
    (hattempt : ∃ attempt, db.attempts claim.row.id claim.attemptNumber = some attempt) :
    db'.ProgressLedger externals := by
  cases h with
  | limitReached => exact hledger
  | @persisted sequence hnext hle =>
    have happend : ∀ a n, (DB.progressOf
        { db with progress := db.progress ++ [event.row claim sequence now] } a n) =
        if a = claim.row.id ∧ n = claim.attemptNumber then
          db.progressOf a n ++ [event.row claim sequence now]
        else db.progressOf a n := by
      intro a n
      show List.filter _ (db.progress ++ [event.row claim sequence now]) = _
      rw [List.filter_append, List.filter_singleton]
      simp only [ProgressEvent.row, Bool.cond_eq_ite, Bool.and_eq_true, beq_iff_eq,
        @eq_comm _ claim.row.id, @eq_comm _ claim.attemptNumber]
      by_cases hkey : a = claim.row.id ∧ n = claim.attemptNumber
      · rw [if_pos hkey, if_pos hkey]
        rfl
      · rw [if_neg hkey, if_neg hkey, List.append_nil]
        rfl
    refine ⟨fun a n => ?_, fun a n => ?_, ?_, ?_⟩
    · rw [happend]
      by_cases hkey : a = claim.row.id ∧ n = claim.attemptNumber
      · obtain ⟨rfl, rfl⟩ := hkey
        rw [if_pos ⟨rfl, rfl⟩, List.map_append, hledger.numbered, List.length_append,
          List.length_singleton, List.range'_concat, List.map_singleton]
        show _ ++ [sequence] = _
        rw [hnext, Nat.one_mul, Nat.add_comm]
      · rw [if_neg hkey]
        exact hledger.numbered a n
    · rw [happend]
      by_cases hkey : a = claim.row.id ∧ n = claim.attemptNumber
      · obtain ⟨rfl, rfl⟩ := hkey
        rw [if_pos ⟨rfl, rfl⟩, List.length_append, List.length_singleton, ← hnext]
        exact hle
      · rw [if_neg hkey]
        exact hledger.bounded a n
    · refine List.forall_mem_append.mpr ⟨hledger.valid, List.forall_mem_singleton.mpr ?_⟩
      exact valid_of_validateEvent hvalid sequence
    · exact List.forall_mem_append.mpr ⟨hledger.attempt, List.forall_mem_singleton.mpr hattempt⟩

theorem Reported.attempts {outcome : ProgressReportOutcome}
    (h : Reported externals claim event now db outcome db') : db'.attempts = db.attempts := by
  cases h <;> rfl

end Report

-- ════════════════════════════════════════════════════════════════════════
-- Runs
-- ════════════════════════════════════════════════════════════════════════

section Runs

variable {externals : Externals} {s s' s'' : Sys} {action : Action} {db db' db'' : DB}

/-- Progress is only added, and only to attempts that are open or have not begun; an attempt
that is closed stays as it is. -/
structure ExtendsProgress (db db' : DB) : Prop where
  rows : ∃ rows, db'.progress = db.progress ++ rows ∧ ∀ row ∈ rows, ∀ attempt,
    db.attempts row.activityId row.attemptNumber = some attempt → attempt.finishedAt = none
  closed : ∀ a n attempt, db.attempts a n = some attempt → attempt.finishedAt ≠ none →
    db'.attempts a n = some attempt

theorem ExtendsProgress.refl (db : DB) : ExtendsProgress db db :=
  ⟨⟨[], (List.append_nil _).symm, fun _ h => by cases h⟩, fun _ _ _ h _ => h⟩

theorem ExtendsProgress.trans (h : ExtendsProgress db db') (h' : ExtendsProgress db' db'') :
    ExtendsProgress db db'' := by
  obtain ⟨rows, hprogress, hopen⟩ := h.rows
  obtain ⟨rows', hprogress', hopen'⟩ := h'.rows
  refine ⟨⟨rows ++ rows', by rw [hprogress', hprogress, List.append_assoc], ?_⟩,
    fun a n attempt hattempt hclosed =>
      h'.closed a n attempt (h.closed a n attempt hattempt hclosed) hclosed⟩
  refine List.forall_mem_append.mpr ⟨hopen, fun row hrow attempt hattempt => ?_⟩
  by_contra hclosed
  exact hclosed (hopen' row hrow attempt (h.closed _ _ attempt hattempt hclosed))

/-- What a report that did not fail found. -/
theorem exec_report_ok {i : ℕ} {event : ProgressEvent} {now : DbMillis} (hs : s.Inv)
    (hledger : s.db.ProgressLedger externals)
    (hok : exec externals s (.reportProgress i event now) = .ok s') :
    ∃ claim outcome attempt, s.activityClaims[i]? = some claim ∧
      validateEvent externals event = .ok () ∧
      (s.db.activities.find claim.row.id).any claim.fences = true ∧
      Reported externals claim event now s.db outcome s'.db ∧
      s.db.attempts claim.row.id claim.attemptNumber = some attempt ∧
      attempt.finishedAt = none := by
  obtain ⟨claim, hi, hok⟩ := nth_bind_ok hok
  obtain ⟨outcome, db', hreport, rfl⟩ := transact'_ok hok
  obtain ⟨-, hclaim⟩ := hs.activityClaims claim (List.mem_of_getElem? hi)
  obtain ⟨⟨act, attempt, r, hholds, -⟩, -⟩ := wp_ok (wp_report hs.sound hclaim) hreport
  obtain ⟨hvalid, hfences, hreported⟩ := wp_ok (wp_report_appends hledger) hreport
  refine ⟨claim, outcome, attempt, hi, hvalid, hfences, hreported, ?_,
    hholds.leased.attempt.isOpen⟩
  rw [hholds.number]
  exact aggregate_attempt hholds.leased.attempt.number

/-- Only a report writes progress. -/
theorem exec_progress_eq (hs : s.Inv) (hreport : ∀ i event now, action ≠ .reportProgress i event now)
    (hok : exec externals s action = .ok s') : s'.db.progress = s.db.progress := by
  by_cases htables : action.writesTables = false
  · exact (exec_tables hs htables hok).1
  cases action with
  | seedLocks =>
    obtain ⟨_, db', hseed, rfl⟩ := transact'_ok hok
    exact congrArg Prod.snd (keeps_seedLocks.ok hseed)
  | reportProgress i event now => exact absurd rfl (hreport i event now)
  | _ => exact absurd rfl htables

/-- **Step lemma**. -/
theorem exec_progress (hs : s.Inv) (hledger : s.db.ProgressLedger externals)
    (hok : exec externals s action = .ok s') :
    s'.db.ProgressLedger externals ∧ ExtendsProgress s.db s'.db := by
  have hev := (exec_leads hs hok).evolves
  have hclosed : ∀ a n attempt, s.db.attempts a n = some attempt → attempt.finishedAt ≠ none →
      s'.db.attempts a n = some attempt := fun _ _ _ => hev.closed_attempt hs.sound
  have of_eq : s'.db.progress = s.db.progress →
      s'.db.ProgressLedger externals ∧ ExtendsProgress s.db s'.db := by
    intro heq
    have hprogressOf : ∀ a n, s'.db.progressOf a n = s.db.progressOf a n := by
      intro a n
      rw [DB.progressOf, heq]
      rfl
    refine ⟨⟨fun a n => ?_, fun a n => ?_, heq ▸ hledger.valid, fun row hrow => ?_⟩,
      ⟨[], by rw [heq, List.append_nil], fun _ h => by cases h⟩, hclosed⟩
    · rw [hprogressOf]
      exact hledger.numbered a n
    · rw [hprogressOf]
      exact hledger.bounded a n
    · obtain ⟨attempt, hattempt⟩ := hledger.attempt row (heq ▸ hrow)
      obtain ⟨attempt', hattempt', -⟩ := hev.follows_attempt hs.sound hattempt
      exact ⟨attempt', hattempt'⟩
  by_cases hreport : ∀ i event now, action ≠ .reportProgress i event now
  · exact of_eq (exec_progress_eq hs hreport hok)
  push Not at hreport
  obtain ⟨i, event, now, rfl⟩ := hreport
  obtain ⟨claim, outcome, attempt, -, hvalid, -, hreported, hattempt, hopen⟩ :=
    exec_report_ok hs hledger hok
  refine ⟨hreported.ledger hledger hvalid ⟨attempt, hattempt⟩, ?_, hclosed⟩
  generalize s'.db = db' at hreported
  cases hreported with
  | limitReached => exact ⟨[], (List.append_nil _).symm, fun _ h => by cases h⟩
  | persisted =>
    refine ⟨_, rfl, List.forall_mem_singleton.mpr fun attempt' hattempt' => ?_⟩
    rw [show s.db.attempts claim.row.id claim.attemptNumber = some attempt' from hattempt',
      Option.some_inj] at hattempt
    rw [hattempt]
    exact hopen

theorem DB.ProgressLedger.empty : DB.empty.ProgressLedger externals where
  numbered _ _ := rfl
  bounded _ _ := Nat.zero_le _
  valid _ h := by cases h
  attempt _ h := by cases h

/-- The progress of every run. In every reachable state each attempt has reported at most the
limit, its reports are valid and numbered from one on; whatever happens afterwards, they stay as
they are, and only an attempt that is not closed gets more. A report that is valid and comes from
the attempt its claim runs is the next one or, past the limit, dropped; every other report fails
and writes nothing. No other action adds, changes or removes progress. -/
theorem run_progress (externals : Externals) (before after : List Action) :
    let s := run externals Sys.init before
    s.db.ProgressLedger externals ∧
    ExtendsProgress s.db (run externals s after).db ∧
    (∀ claim event now, wp (report externals claim event now)
      (fun outcome db' => validateEvent externals event = .ok () ∧
        (s.db.activities.find claim.row.id).any claim.fences = true ∧
        Reported externals claim event now s.db outcome db')
      (fun e => validateEvent externals event = .error e ∨
        e = .fencedWrite ∧ (s.db.activities.find claim.row.id).any claim.fences = false)
      s.db) ∧
    ∀ action s', exec externals s action = .ok s' → s'.db.progress = s.db.progress ∨
      ∃ i event now claim outcome, action = .reportProgress i event now ∧
        s.activityClaims[i]? = some claim ∧ validateEvent externals event = .ok () ∧
        (s.db.activities.find claim.row.id).any claim.fences = true ∧
        Reported externals claim event now s.db outcome s'.db := by
  intro s
  have hstep : ∀ s action s', s.Inv ∧ s.db.ProgressLedger externals →
      exec externals s action = .ok s' → s'.Inv ∧ s'.db.ProgressLedger externals :=
    fun s action s' h hok => ⟨(exec_leads h.1 hok).inv, (exec_progress h.1 h.2 hok).1⟩
  have h : s.Inv ∧ s.db.ProgressLedger externals :=
    Machine.run_invariant hstep ⟨.init, .empty⟩ before
  refine ⟨h.2, ?_, fun claim event now => wp_report_appends h.2, fun action s' hok => ?_⟩
  · exact Machine.run_related (R := fun s s' => ExtendsProgress s.db s'.db) hstep
      (fun s => .refl s.db) (fun _ _ _ => .trans)
      (fun s action s' h hok => (exec_progress h.1 h.2 hok).2) h after
  · by_cases hreport : ∀ i event now, action ≠ .reportProgress i event now
    · exact .inl (exec_progress_eq h.1 hreport hok)
    · push Not at hreport
      obtain ⟨i, event, now, rfl⟩ := hreport
      obtain ⟨claim, outcome, -, hi, hvalid, hfences, hreported, -⟩ := exec_report_ok h.1 h.2 hok
      exact .inr ⟨i, event, now, claim, outcome, rfl, hi, hvalid, hfences, hreported⟩

end Runs

end DurableWorkflows
