import DurableWorkflows.Schedule.Effects
import DurableWorkflows.Schedule.Matches

/-!
# Planning a backlog in chunks

A tick plans at most one chunk of the due occurrences, and the next tick goes on
behind it. What a misfire policy starts depends on how many runnable occurrences
follow, so that a chunk counts those behind its end.

## Main definitions

- `planChunks`: the plan of one chunk after another
- `Backlog`: the due occurrences of a calendar
- `MisfirePolicy.outcome`, `misfireOutcomes`: what a policy does with a backlog
- `MatchingCalendar.PlansBacklog`: the chunks are the plan of the whole backlog

## Main results

- `misfireOutcomes_append`: the outcomes of a backlog that is cut in two
- `MatchingCalendar.planChunks_iff`: when the chunks are the plan of the whole backlog
-/

namespace DurableWorkflows

section Model

/-- One chunk after another, until nothing is due. -/
def planChunks (calendar : ScheduleCalendar) (bound : ℕ) (policy : MisfirePolicy)
    (graceMillis : ℤ) (now : DbMillis) :
    ℕ → ScheduleOccurrence → Except DurableError (List DueChunk)
  | 0, _ => .error .outOfFuel
  | fuel + 1, occurrence =>
    if occurrence.dueAt ≤ now then do
      let chunk ← planChunk calendar bound occurrence policy graceMillis now
      let chunks ← planChunks calendar bound policy graceMillis now fuel chunk.2.1
      return chunk :: chunks
    else
      .ok []

end Model

section Outcomes

/-- What a misfire policy does with a due occurrence that a number of runnable occurrences
follow. An occurrence in a gap never runs. -/
def MisfirePolicy.outcome (policy : MisfirePolicy) (graceMillis : ℤ) (now : DbMillis)
    (later : ℕ) (o : ScheduleOccurrence) : OccurrenceOutcome :=
  if o.disposition = .gap then
    .skip "dst_gap"
  else
    match policy with
    | .skip => if now ≤ o.dueAt + graceMillis then .start else .skip "misfire_skip"
    | .runLatest => if later = 0 then .start else .coalesce
    | .catchUp maxOccurrences => if later < maxOccurrences then .start else .skip "catch_up_limit"

/-- The runnable occurrences. -/
def runnables (os : List ScheduleOccurrence) : List ScheduleOccurrence :=
  os.filter fun o => o.disposition ≠ .gap

/-- The outcomes of a list of due occurrences that `later` runnable ones follow. -/
def misfireOutcomes (policy : MisfirePolicy) (graceMillis : ℤ) (now : DbMillis) (later : ℕ) :
    List ScheduleOccurrence → List OccurrenceOutcome
  | [] => []
  | o :: os =>
    policy.outcome graceMillis now ((runnables os).length + later) o ::
      misfireOutcomes policy graceMillis now later os

variable {policy : MisfirePolicy} {graceMillis : ℤ} {now : DbMillis} {later : ℕ}
  {o : ScheduleOccurrence} {os : List ScheduleOccurrence}

theorem length_misfireOutcomes :
    (misfireOutcomes policy graceMillis now later os).length = os.length := by
  induction os with
  | nil => rfl
  | cons o os ih => exact congrArg (· + 1) ih

theorem runnables_cons_of_gap (h : o.disposition = .gap) :
    runnables (o :: os) = runnables os := by
  rw [runnables, List.filter_cons_of_neg (by simpa using h)]
  rfl

theorem runnables_cons_of_exact (h : o.disposition ≠ .gap) :
    runnables (o :: os) = o :: runnables os := by
  rw [runnables, List.filter_cons_of_pos (by simpa using h)]
  rfl

/-- The outcomes of a backlog that is cut in two. -/
theorem misfireOutcomes_append (os' : List ScheduleOccurrence) :
    misfireOutcomes policy graceMillis now later (os ++ os') =
      misfireOutcomes policy graceMillis now ((runnables os').length + later) os ++
        misfireOutcomes policy graceMillis now later os' := by
  induction os with
  | nil => rfl
  | cons o os ih =>
    rw [List.cons_append, misfireOutcomes, ih, misfireOutcomes, List.cons_append, runnables,
      List.filter_append, List.length_append, add_assoc]
    rfl

/-- A policy does not look further than its budget. -/
theorem outcome_min {later₁ : ℕ} (h : later₁ = min (misfireBudget policy) later) (n : ℕ) :
    policy.outcome graceMillis now (n + later₁) o =
      policy.outcome graceMillis now (n + later) o := by
  unfold MisfirePolicy.outcome misfireBudget at *
  cases policy with
  | skip => rfl
  | runLatest =>
    dsimp only at h ⊢
    have hzero : n + later₁ = 0 ↔ n + later = 0 := by omega
    rw [if_congr hzero rfl rfl]
  | catchUp maxOccurrences =>
    dsimp only at h ⊢
    have hlt : n + later₁ < maxOccurrences ↔ n + later < maxOccurrences := by omega
    rw [if_congr hlt rfl rfl]

theorem misfireOutcomes_min :
    misfireOutcomes policy graceMillis now (min (misfireBudget policy) later) os =
      misfireOutcomes policy graceMillis now later os := by
  induction os with
  | nil => rfl
  | cons o os ih => rw [misfireOutcomes, misfireOutcomes, ih, outcome_min rfl]

/-- The outcomes of runnable occurrences, from the first on. -/
theorem runnableOutcomes_cons :
    runnableOutcomes (o :: os) policy graceMillis now later =
      (match policy with
        | .skip =>
          if DbMillis.saturatingPlusMillis o.dueAt graceMillis < now then .skip "misfire_skip"
          else .start
        | .runLatest => if os.length + later = 0 then .start else .coalesce
        | .catchUp maxOccurrences =>
          if os.length + later < maxOccurrences then .start else .skip "catch_up_limit") ::
        runnableOutcomes os policy graceMillis now later := by
  cases policy with
  | skip => rfl
  | runLatest =>
    simp only [runnableOutcomes, List.mapIdx_cons, List.length_cons]
    have hhead : 0 + 1 = os.length + 1 ∧ later = 0 ↔ os.length + later = 0 := by omega
    have htail : ∀ index, index + 1 + 1 = os.length + 1 ∧ later = 0 ↔
        index + 1 = os.length ∧ later = 0 := by omega
    simp only [if_congr hhead rfl rfl, htail]
  | catchUp maxOccurrences =>
    simp only [runnableOutcomes, List.mapIdx_cons, List.length_cons]
    have hhead : 0 < os.length + 1 - min (maxOccurrences - later) (os.length + 1) ↔
        ¬os.length + later < maxOccurrences := by omega
    have htail : ∀ index, index + 1 < os.length + 1 - min (maxOccurrences - later)
        (os.length + 1) ↔ index < os.length - min (maxOccurrences - later) os.length := by omega
    simp only [if_congr hhead rfl rfl, ite_not, htail]

/-- A due occurrence is out of its grace as the saturating sum says. -/
theorem saturatingPlusMillis_lt (hmin : DbMillis.min ≤ o.dueAt) (hgrace : 0 ≤ graceMillis)
    (hnow : now ≤ DbMillis.max) :
    DbMillis.saturatingPlusMillis o.dueAt graceMillis < now ↔ ¬now ≤ o.dueAt + graceMillis := by
  have hlinear : ∀ due grace now low high : ℤ, low ≤ due → 0 ≤ grace → now ≤ high →
      (max low (min high (due + grace)) < now ↔ ¬now ≤ due + grace) := by omega
  exact hlinear _ _ _ _ _ hmin hgrace hnow

theorem runnableOutcomes_eq (hexact : ∀ o ∈ os, o.disposition ≠ .gap)
    (hmin : ∀ o ∈ os, DbMillis.min ≤ o.dueAt) (hgrace : 0 ≤ graceMillis)
    (hnow : now ≤ DbMillis.max) :
    runnableOutcomes os policy graceMillis now later =
      misfireOutcomes policy graceMillis now later os := by
  induction os with
  | nil => cases policy <;> rfl
  | cons o os ih =>
    obtain ⟨hfirst, hexact⟩ := List.forall_mem_cons.mp hexact
    obtain ⟨hlow, hmin⟩ := List.forall_mem_cons.mp hmin
    have hall : runnables os = os := List.filter_eq_self.mpr fun o ho => by
      simpa using hexact o ho
    rw [runnableOutcomes_cons, ih hexact hmin, misfireOutcomes, hall]
    unfold MisfirePolicy.outcome
    rw [if_neg hfirst]
    cases policy with
    | skip =>
      dsimp only
      rw [if_congr (saturatingPlusMillis_lt hlow hgrace hnow) rfl rfl, ite_not]
    | runLatest => rfl
    | catchUp maxOccurrences => rfl

/-- A chunk is classified as its policy says. -/
theorem classify_eq (hmin : ∀ o ∈ os, DbMillis.min ≤ o.dueAt) (hgrace : 0 ≤ graceMillis)
    (hnow : now ≤ DbMillis.max) :
    classify os policy graceMillis now later =
      misfireOutcomes policy graceMillis now later os := by
  have hrunnable : runnableOutcomes (runnables os) policy graceMillis now later =
      misfireOutcomes policy graceMillis now later (runnables os) := by
    refine runnableOutcomes_eq (fun o ho => ?_) (fun o ho => hmin o (List.mem_of_mem_filter ho))
      hgrace hnow
    simpa using List.of_mem_filter ho
  rw [classify, show os.filter (fun o => o.disposition ≠ .gap) = runnables os from rfl, hrunnable]
  clear hmin hrunnable
  induction os with
  | nil => rfl
  | cons o os ih =>
    rw [spreadOutcomes]
    split
    next hgap =>
      have hskip : ∀ n, policy.outcome graceMillis now n o = .skip "dst_gap" := fun _ => if_pos hgap
      rw [runnables_cons_of_gap hgap, ih, misfireOutcomes, hskip]
    next hexact =>
      have hsame : (runnables (runnables os)).length = (runnables os).length := by
        rw [runnables, runnables, List.filter_filter]
        simp
      rw [runnables_cons_of_exact hexact, misfireOutcomes, misfireOutcomes, hsame]
      exact congrArg _ ih

end Outcomes

/-- The due occurrences of a calendar from one on, and the first occurrence that is not due; the
time is an `i64`. -/
structure Backlog (c : MatchingCalendar) (now : DbMillis) where
  first : ScheduleOccurrence
  due : List ScheduleOccurrence
  next : ScheduleOccurrence
  occurs : c.Occurs first
  walk : c.calendar.Walk first due next
  isDue : ∀ o ∈ due, o.dueAt ≤ now
  notDue : now < next.dueAt
  bounded : now ≤ DbMillis.max

namespace Backlog

variable {c : MatchingCalendar} {now : DbMillis} {o next : ScheduleOccurrence}
  {due : List ScheduleOccurrence}

section Chunk

/-- A backlog begins with its first occurrence, if that is due. -/
theorem due_cases (b : Backlog c now) :
    (b.first.dueAt ≤ now ∧ ∃ behind, b.due = b.first :: behind) ∨
      (now < b.first.dueAt ∧ b.due = []) := by
  obtain ⟨first, due, next, hoccurs, hwalk, hdue, hlater, hbounded⟩ := b
  cases hwalk with
  | nil => exact .inr ⟨hlater, rfl⟩
  | @cons _ second _ due => exact .inl ⟨hdue _ List.mem_cons_self, due, rfl⟩

theorem due_eq_cons (b : Backlog c now) (hdue : b.first.dueAt ≤ now) :
    ∃ behind, b.due = b.first :: behind :=
  b.due_cases.elim And.right fun hlater => absurd hdue (not_le.mpr hlater.1)

theorem due_eq_nil (b : Backlog c now) (hlater : ¬b.first.dueAt ≤ now) : b.due = [] :=
  b.due_cases.elim (fun hdue => absurd hdue.1 hlater) And.right

/-- The first loop of a chunk cuts the backlog. -/
theorem collectDue_eq (b : Backlog c now) (bound : ℕ) : ∃ rest : Backlog c now,
    collectDue c.calendar now bound b.first = .ok (b.due.take bound, rest.first) ∧
    c.calendar.Walk b.first (b.due.take bound) rest.first ∧ rest.due = b.due.drop bound := by
  induction bound generalizing b with
  | zero => exact ⟨b, rfl, .nil _, rfl⟩
  | succ bound ih =>
    obtain ⟨first, due, next, hoccurs, hwalk, hdue, hlater, hbounded⟩ := b
    cases hwalk with
    | nil =>
      refine ⟨⟨first, [], first, hoccurs, .nil _, hdue, hlater, hbounded⟩, ?_, .nil _, rfl⟩
      rw [collectDue, if_neg (not_le.mpr hlater)]
      rfl
    | @cons _ second _ due hnext hwalk =>
      obtain ⟨hfirst, hdue⟩ := List.forall_mem_cons.mp hdue
      obtain ⟨rest, hcollect, hwalk', hrest⟩ := ih
        ⟨second, due, next, (MatchingCalendar.nextAfterLocal_iff.mp hnext).1, hwalk, hdue, hlater,
          hbounded⟩
      refine ⟨rest, ?_, .cons hnext hwalk', hrest⟩
      rw [collectDue, if_pos hfirst, hnext]
      simp only [bind, Except.bind, hcollect]
      rfl

/-- The occurrence after the last one of a walk. -/
theorem nextAfterLocal_getLast {last : ScheduleOccurrence} (h : c.calendar.Walk o due next)
    (hlast : due.getLast? = some last) :
    c.calendar.nextAfterLocal last.localDatetime = .ok next := by
  induction h with
  | nil => cases hlast
  | @cons o o₁ next due hnext hwalk ih =>
    cases hwalk with
    | nil =>
      cases hlast
      exact hnext
    | cons hnext' hwalk' =>
      rw [List.getLast?_cons_cons] at hlast
      exact ih hlast

/-- The first runnable occurrence of a backlog. -/
theorem runnable_cases (b : Backlog c now) :
    (runnables b.due = [] ∧ c.RunnableFrom b.first now none) ∨
      ∃ o, ∃ rest : Backlog c now, c.RunnableFrom b.first now (some o) ∧
        c.calendar.nextAfterLocal o.localDatetime = .ok rest.first ∧
        runnables b.due = o :: runnables rest.due := by
  obtain ⟨first, due, next, hoccurs, hwalk, hdue, hlater, hbounded⟩ := b
  dsimp only
  induction hwalk with
  | nil first =>
    exact .inl ⟨rfl, [], first, .nil _, fun _ hmem => absurd hmem List.not_mem_nil,
      .inr ⟨hlater, rfl⟩⟩
  | @cons first second next due hnext hwalk ih =>
    have hoccurs' := (MatchingCalendar.nextAfterLocal_iff.mp hnext).1
    obtain ⟨hfirst, hdue⟩ := List.forall_mem_cons.mp hdue
    by_cases hgap : first.disposition = .gap
    · have hcons : ∀ {runnable}, c.RunnableFrom second now runnable →
          c.RunnableFrom first now runnable := by
        rintro runnable ⟨os, o, hwalk', hall, hends⟩
        exact ⟨first :: os, o, .cons hnext hwalk',
          List.forall_mem_cons.mpr ⟨⟨hgap, hfirst⟩, hall⟩, hends⟩
      rw [runnables_cons_of_gap hgap]
      rcases ih hoccurs' hdue hlater with ⟨hnone, hrunnable⟩ | ⟨o, rest, hrunnable, hrest⟩
      · exact .inl ⟨hnone, hcons hrunnable⟩
      · exact .inr ⟨o, rest, hcons hrunnable, hrest⟩
    · refine .inr ⟨first, ⟨second, due, next, hoccurs', hwalk, hdue, hlater, hbounded⟩, ?_, hnext,
        runnables_cons_of_exact hgap⟩
      exact ⟨[], first, .nil _, fun _ hmem => absurd hmem List.not_mem_nil,
        .inl ⟨hfirst, hgap, rfl⟩⟩

/-- The second loop of a chunk counts the runnable occurrences behind it, up to its budget. -/
theorem countFollowing_eq (b : Backlog c now) (budget : ℕ) {after : NaiveDateTime}
    (hafter : c.calendar.nextAfterLocal after = .ok b.first) :
    countFollowing c.calendar now budget after = .ok (min budget (runnables b.due).length) := by
  induction budget generalizing b after with
  | zero => rw [countFollowing, Nat.zero_min]
  | succ budget ih =>
    rw [countFollowing]
    rcases b.runnable_cases with ⟨hnone, hrunnable⟩ | ⟨o, rest, hrunnable, hnext, hcons⟩
    · rw [MatchingCalendar.nextRunnableThrough_eq_ok.mpr ⟨_, hafter, hrunnable⟩, hnone]
      rfl
    · rw [MatchingCalendar.nextRunnableThrough_eq_ok.mpr ⟨_, hafter, hrunnable⟩, hcons]
      simp only [bind, Except.bind, ih rest hnext, pure, Except.pure, List.length_cons,
        Nat.add_min_add_right]

/-- The instants of a backlog are within the range of an `i64`. -/
theorem le_dueAt (b : Backlog c now) : ∀ o ∈ b.due, DbMillis.min ≤ o.dueAt := by
  intro o ho
  have hoccurs := (MatchingCalendar.occurs_of_walk b.walk b.occurs).1 o ho
  have hoffset := ScheduleCalendar.resolve_offset hoccurs.2
  have hmin := (c.schedule.supported hoccurs.1).1
  have hlinear : ∀ l due : ℤ, -8334601228800000 + 2 * 86400000 ≤ l → l - 86400000 ≤ due →
      -9223372036854775808 ≤ due := by omega
  exact hlinear _ _ hmin hoffset

/-- The plan of one chunk: its occurrences are the first of the backlog, and their outcomes
those that the whole backlog gives them. -/
theorem planChunk_eq (b : Backlog c now) (bound : ℕ) (policy : MisfirePolicy) (grace : ℕ)
    (hdue : b.first.dueAt ≤ now) : ∃ rest : Backlog c now,
    planChunk c.calendar (bound + 1) b.first policy grace now = .ok (b.due.take (bound + 1),
      rest.first, misfireOutcomes policy grace now (runnables rest.due).length
        (b.due.take (bound + 1))) ∧
    b.due.take (bound + 1) ≠ [] ∧ b.first.localDatetime < rest.first.localDatetime ∧
    b.due = b.due.take (bound + 1) ++ rest.due := by
  obtain ⟨rest, hcollect, hwalk, hrest⟩ := b.collectDue_eq (bound + 1)
  obtain ⟨behind, hbehind⟩ := b.due_eq_cons hdue
  have htake : b.due.take (bound + 1) = b.first :: behind.take bound := by
    rw [hbehind, List.take_succ_cons]
  have hne : b.due.take (bound + 1) ≠ [] := by
    rw [htake]
    exact List.cons_ne_nil _ _
  have hmin : ∀ o ∈ b.due.take (bound + 1), DbMillis.min ≤ o.dueAt := fun o ho =>
    b.le_dueAt o (List.mem_of_mem_take ho)
  refine ⟨rest, ?_, hne, ?_, ?_⟩
  · obtain ⟨last, hlast⟩ := Option.isSome_iff_exists.mp (List.getLast?_isSome.mpr hne)
    rw [planChunk, hcollect]
    simp only [bind, Except.bind, hlast]
    by_cases hmore : rest.first.dueAt ≤ now
    · rw [if_pos hmore, rest.countFollowing_eq _ (nextAfterLocal_getLast hwalk hlast)]
      dsimp only
      rw [classify_eq hmin (Int.natCast_nonneg grace) b.bounded, misfireOutcomes_min]
      rfl
    · -- the backlog ends with the chunk
      rw [if_neg hmore, rest.due_eq_nil hmore]
      rw [classify_eq hmin (Int.natCast_nonneg grace) b.bounded]
      rfl
  · have hresolves := (MatchingCalendar.occurs_of_walk hwalk b.occurs).2.resolves
    have hmem : b.first ∈ b.due.take (bound + 1) := by
      rw [htake]
      exact List.mem_cons_self
    have hlt := ((hwalk.bounds b.occurs.resolves).2 _ hmem).2
    rwa [LocalOccurrence.lt_iff, b.occurs.resolves.datetime, hresolves.datetime] at hlt
  · rw [hrest, List.take_append_drop]

end Chunk

section Chunks

/-- The pairs of a plan. -/
def pairs (chunks : List DueChunk) : List (ScheduleOccurrence × OccurrenceOutcome) :=
  chunks.flatMap fun chunk => chunk.1.zip chunk.2.2

/-- A chunk makes progress: it is not empty, not longer than the bound, and ends behind its
first occurrence. -/
def Advances (bound : ℕ) (chunk : DueChunk) : Prop :=
  chunk.1 ≠ [] ∧ chunk.1.length ≤ bound ∧
    ∀ first ∈ chunk.1.head?, first.localDatetime < chunk.2.1.localDatetime

/-- The chunks of a backlog: the first one, and those of the rest. -/
theorem planChunks_ok (b : Backlog c now) (bound : ℕ) (policy : MisfirePolicy) (grace : ℕ) :
    ∃ chunks,
    (∀ fuel, b.due.length < fuel →
      planChunks c.calendar (bound + 1) policy grace now fuel b.first = .ok chunks) ∧
    (∀ chunk ∈ chunks, Advances (bound + 1) chunk) ∧
    pairs chunks = b.due.zip (misfireOutcomes policy grace now 0 b.due) := by
  induction hlength : b.due.length using Nat.strong_induction_on generalizing b with
  | _ n ih =>
    by_cases hdue : b.first.dueAt ≤ now
    · obtain ⟨rest, hplan, hne, hlt, hcut⟩ := b.planChunk_eq bound policy grace hdue
      have hshorter : rest.due.length < n := by
        have hsum := congrArg List.length hcut
        rw [List.length_append] at hsum
        have hpos := List.length_pos_iff.mpr hne
        omega
      obtain ⟨chunks, hchunks, hadvance, hpairs⟩ := ih _ hshorter rest rfl
      refine ⟨(b.due.take (bound + 1), rest.first, misfireOutcomes policy grace now
        (runnables rest.due).length (b.due.take (bound + 1))) :: chunks, fun fuel hfuel => ?_,
        List.forall_mem_cons.mpr ⟨⟨hne, ?_, fun first hfirst => ?_⟩, hadvance⟩, ?_⟩
      · cases fuel with
        | zero => cases hfuel
        | succ fuel =>
          rw [planChunks, if_pos hdue, hplan]
          simp only [bind, Except.bind, hchunks fuel (by omega)]
          rfl
      · rw [List.length_take]
        exact Nat.min_le_left ..
      · -- the chunk begins with the backlog
        obtain ⟨behind, hbehind⟩ := b.due_eq_cons hdue
        rw [hbehind] at hfirst
        cases hfirst
        exact hlt
      · rw [pairs, List.flatMap_cons]
        conv_rhs => rw [hcut, misfireOutcomes_append, Nat.add_zero]
        rw [List.zip_append length_misfireOutcomes.symm]
        exact congrArg _ hpairs
    · refine ⟨[], fun fuel hfuel => ?_, fun _ hmem => absurd hmem List.not_mem_nil, ?_⟩
      · cases fuel with
        | zero => cases hfuel
        | succ fuel => rw [planChunks, if_neg hdue]
      · rw [b.due_eq_nil hdue]
        rfl

/-- Planning a backlog chunk by chunk ends, every chunk makes progress, and the chunks together
are the plan of the whole backlog. -/
theorem planChunks_eq (c : MatchingCalendar) (now : DbMillis) (b : Backlog c now)
    (policy : MisfirePolicy) (grace bound : ℕ) : ∃ chunks,
    (∀ fuel, b.due.length < fuel →
      planChunks c.calendar (bound + 1) policy grace now fuel b.first = .ok chunks) ∧
    (∀ chunk ∈ chunks, Advances (bound + 1) chunk) ∧
    pairs chunks = b.due.zip (classify b.due policy grace now 0) ∧
    ∀ before o behind, b.due = before ++ o :: behind →
      (pairs chunks)[before.length]? =
        some (o, policy.outcome grace now (runnables behind).length o) := by
  obtain ⟨chunks, hchunks, hadvance, hpairs⟩ := b.planChunks_ok bound policy grace
  refine ⟨chunks, hchunks, hadvance, ?_, fun before o behind hdue => ?_⟩
  · rw [hpairs, classify_eq b.le_dueAt (Int.natCast_nonneg grace) b.bounded]
  · rw [hpairs, hdue, misfireOutcomes_append, List.zip_append length_misfireOutcomes.symm]
    rw [List.getElem?_append_right (by simp [length_misfireOutcomes])]
    simp [length_misfireOutcomes, misfireOutcomes]

end Chunks

section Exists

variable {zone : OffsetZone} {schedule : MatchingCron}

/-- In a zone with an offset, every occurrence before one that is not due begins a backlog. -/
theorem exists_backlog (hbounded : now ≤ DbMillis.max)
    {first o : ScheduleOccurrence} (h : (⟨schedule, zone.timeZone⟩ : MatchingCalendar).Occurs first)
    (h' : (⟨schedule, zone.timeZone⟩ : MatchingCalendar).Occurs o) (hlater : now < o.dueAt) :
    ∃ b : Backlog (⟨schedule, zone.timeZone⟩ : MatchingCalendar) now, b.first = first := by
  obtain ⟨n, hn⟩ : ∃ n : ℕ, o.localDatetime - first.localDatetime ≤ n :=
    ⟨_, Int.self_le_toNat _⟩
  induction n generalizing first with
  | zero =>
    have hle : o.localDatetime ≤ first.localDatetime := sub_nonpos.mp hn
    have hdue := h'.dueAt_le h hle
    exact ⟨⟨first, [], first, h, .nil _, fun _ hmem => absurd hmem List.not_mem_nil,
      hlater.trans_le hdue, hbounded⟩, rfl⟩
  | succ n ih =>
    by_cases hdue : first.dueAt ≤ now
    · have hlt : first.localDatetime < o.localDatetime := by
        by_contra hpast
        exact absurd (hlater.trans_le (h'.dueAt_le h (not_lt.mp hpast))) (not_lt.mpr hdue)
      obtain ⟨second, hnext⟩ := MatchingCalendar.exists_nextAfterLocal
        (fun _ => MatchingCalendar.exists_occurs) h'.1 hlt
      obtain ⟨hoccurs, hforward, -⟩ := MatchingCalendar.nextAfterLocal_iff.mp hnext
      have hcloser : ∀ a b d : ℤ, a < b → d - a ≤ ((n + 1 : ℕ) : ℤ) → d - b ≤ n := by omega
      obtain ⟨b, rfl⟩ := ih hoccurs (hcloser _ _ _ hforward hn)
      exact ⟨⟨first, first :: b.due, b.next, h, .cons hnext b.walk,
        List.forall_mem_cons.mpr ⟨hdue, b.isDue⟩, b.notDue, hbounded⟩, rfl⟩
    · exact ⟨⟨first, [], first, h, .nil _, fun _ hmem => absurd hmem List.not_mem_nil,
        not_le.mp hdue, hbounded⟩, rfl⟩

/-- What is due is what the chunks plan. -/
theorem mem_due (b : Backlog c now) : o ∈ b.due ↔
    c.Occurs o ∧ b.first.localDatetime ≤ o.localDatetime ∧ o.dueAt ≤ now := by
  obtain ⟨hoccurs, hnext⟩ := MatchingCalendar.occurs_of_walk b.walk b.occurs
  constructor
  · intro ho
    have hle := ((b.walk.bounds b.occurs.resolves).2 o ho).1
    rw [LocalOccurrence.le_iff, b.occurs.resolves.datetime, (hoccurs o ho).resolves.datetime] at hle
    exact ⟨hoccurs o ho, hle, b.isDue o ho⟩
  · rintro ⟨ho, hle, hdue⟩
    have hlt : o.localDatetime < b.next.localDatetime := by
      by_contra hpast
      have hlater := hnext.dueAt_le ho (not_lt.mp hpast)
      exact absurd (b.notDue.trans_le hlater) (not_lt.mpr hdue)
    obtain ⟨o', os, ho', heq, hwalk, hsub⟩ :=
      MatchingCalendar.walk_reaches b.walk b.occurs ho.1 hle hlt.le
    rw [ho'.unique ho heq] at hwalk
    cases hwalk with
    | nil => exact absurd hlt (lt_irrefl _)
    | cons => exact hsub List.mem_cons_self

theorem pairwise_due (b : Backlog c now) :
    b.due.Pairwise fun o o' => o.localDatetime < o'.localDatetime := by
  have hoccurs := (MatchingCalendar.occurs_of_walk b.walk b.occurs).1
  refine (b.walk.pairwise b.occurs.resolves).imp_of_mem fun {o o'} ho ho' hlt => ?_
  rwa [LocalOccurrence.lt_iff, (hoccurs o ho).resolves.datetime,
    (hoccurs o' ho').resolves.datetime] at hlt

/-- A walk that reaches an occurrence that is not due begins with a backlog. -/
theorem exists_of_walk {first : ScheduleOccurrence} (hbounded : now ≤ DbMillis.max)
    (h : c.Occurs first) (hwalk : c.calendar.Walk first due next) (hlater : now < next.dueAt) :
    ∃ b : Backlog c now, b.first = first := by
  induction hwalk with
  | nil first =>
    exact ⟨⟨first, [], first, h, .nil _, fun _ hmem => absurd hmem List.not_mem_nil, hlater,
      hbounded⟩, rfl⟩
  | @cons first second next due hnext hwalk ih =>
    by_cases hdue : first.dueAt ≤ now
    · obtain ⟨b, rfl⟩ := ih (MatchingCalendar.nextAfterLocal_iff.mp hnext).1 hlater
      exact ⟨⟨first, first :: b.due, b.next, h, .cons hnext b.walk,
        List.forall_mem_cons.mpr ⟨hdue, b.isDue⟩, b.notDue, hbounded⟩, rfl⟩
    · exact ⟨⟨first, [], first, h, .nil _, fun _ hmem => absurd hmem List.not_mem_nil,
        not_le.mp hdue, hbounded⟩, rfl⟩

/-- The chunks end at an occurrence that is not due. -/
theorem walk_of_planChunks {policy : MisfirePolicy} {graceMillis : ℤ} {bound fuel : ℕ}
    {first : ScheduleOccurrence} {chunks : List DueChunk}
    (h : planChunks c.calendar bound policy graceMillis now fuel first = .ok chunks) :
    ∃ passed next, c.calendar.Walk first passed next ∧ now < next.dueAt := by
  induction fuel generalizing first chunks with
  | zero => cases h
  | succ fuel ih =>
    rw [planChunks] at h
    by_cases hdue : first.dueAt ≤ now
    · rw [if_pos hdue] at h
      obtain ⟨chunk, hchunk, h⟩ := bind_eq_ok h
      obtain ⟨chunks, hchunks, -⟩ := bind_eq_ok h
      obtain ⟨passed, last, hwalk, hlater⟩ := ih hchunks
      exact ⟨_, last, (collectDue_walk (planChunk_ok hchunk).1).1.append hwalk, hlater⟩
    · exact ⟨[], first, .nil _, not_le.mp hdue⟩

end Exists

end Backlog

namespace MatchingCalendar

/-- Planning chunk after chunk is planning the whole backlog: the due occurrences from the first
on, each with what its policy says for the number of runnable occurrences behind it. The plan is
found, and every chunk of it makes progress. -/
structure PlansBacklog (c : MatchingCalendar) (now : DbMillis) (first : ScheduleOccurrence)
    (policy : MisfirePolicy) (grace bound : ℕ) (due : List ScheduleOccurrence)
    (chunks : List DueChunk) : Prop where
  sorted : due.Pairwise fun o o' => o.localDatetime < o'.localDatetime
  complete : ∀ o, o ∈ due ↔
    c.Occurs o ∧ first.localDatetime ≤ o.localDatetime ∧ o.dueAt ≤ now
  ends : ∃ n, ∀ fuel, n ≤ fuel →
    planChunks c.calendar bound policy grace now fuel first = .ok chunks
  advances : ∀ chunk ∈ chunks, Backlog.Advances bound chunk
  whole : Backlog.pairs chunks = due.zip (classify due policy grace now 0)
  outcome : ∀ before o behind, due = before ++ o :: behind →
    (Backlog.pairs chunks)[before.length]? =
      some (o, policy.outcome grace now (runnables behind).length o)

variable {c : MatchingCalendar} {now : DbMillis} {first : ScheduleOccurrence}

/-- A walk to an occurrence that is not due, in a zone with an offset. -/
theorem exists_walk_iff {schedule : MatchingCron} {zone : OffsetZone} (hnow : now ≤ DbMillis.max)
    (hfirst : (⟨schedule, zone.timeZone⟩ : MatchingCalendar).Occurs first) :
    (∃ passed next, (⟨schedule, zone.timeZone⟩ : MatchingCalendar).calendar.Walk first passed next ∧
      now < next.dueAt) ↔
    ∃ o, (⟨schedule, zone.timeZone⟩ : MatchingCalendar).Occurs o ∧ now < o.dueAt := by
  constructor
  · rintro ⟨passed, next, hwalk, hlater⟩
    exact ⟨next, (occurs_of_walk hwalk hfirst).2, hlater⟩
  · rintro ⟨o, hoccurs, hlater⟩
    obtain ⟨b, rfl⟩ := Backlog.exists_backlog hnow hfirst hoccurs hlater
    exact ⟨b.due, b.next, b.walk, b.notDue⟩

/-- **Chunked planning**: it is planning the whole backlog exactly if `next_after_local` reaches
an occurrence that is not due; in a zone with an offset, exactly if the calendar has one. -/
theorem planChunks_iff (c : MatchingCalendar) (now : DbMillis) (hnow : now ≤ DbMillis.max)
    (first : ScheduleOccurrence) (hfirst : c.Occurs first) (policy : MisfirePolicy)
    (grace bound : ℕ) :
    ((∃ due chunks, c.PlansBacklog now first policy grace (bound + 1) due chunks) ↔
      ∃ passed next, c.calendar.Walk first passed next ∧ now < next.dueAt) ∧
    ∀ zone : OffsetZone, c.timezone = zone.timeZone →
      ((∃ passed next, c.calendar.Walk first passed next ∧ now < next.dueAt) ↔
        ∃ o, c.Occurs o ∧ now < o.dueAt) := by
  refine ⟨⟨?_, ?_⟩, fun zone hzone => ?_⟩
  · rintro ⟨due, chunks, hplan⟩
    obtain ⟨n, hends⟩ := hplan.ends
    exact Backlog.walk_of_planChunks (hends n le_rfl)
  · rintro ⟨passed, next, hwalk, hlater⟩
    obtain ⟨b, rfl⟩ := Backlog.exists_of_walk hnow hfirst hwalk hlater
    obtain ⟨chunks, hends, hadvances, hwhole, houtcome⟩ :=
      Backlog.planChunks_eq c now b policy grace bound
    exact ⟨b.due, chunks, b.pairwise_due, fun o => b.mem_due, ⟨_, hends⟩, hadvances, hwhole,
      houtcome⟩
  · obtain ⟨schedule, timezone⟩ := c
    cases hzone
    exact exists_walk_iff hnow hfirst

/-- The backlog of three hours, with a gap in it. -/
theorem planChunks_iff_summer : ∃ due chunks,
    PlansBacklog ⟨.hourly, OffsetZone.oneSummer.timeZone⟩ 7200000 (occurrence 0 0 .gap) .runLatest
      60000 1 due chunks := by
  have hplan := planChunks_iff ⟨.hourly, OffsetZone.oneSummer.timeZone⟩ 7200000 (by decide)
    (occurrence 0 0 .gap) occurs_summer .runLatest 60000 0
  refine hplan.1.mpr ((hplan.2 _ rfl).mpr ⟨occurrence 14400000 10800000 .exact, ?_, by decide⟩)
  exact ⟨⟨rfl, by decide, by decide⟩, rfl⟩

/-- An expression that matches one time, which is nine o'clock on the first day of 2030. -/
def newYear : MatchingCron where
  Matches t := t = 1893488400000
  after t := if t < 1893488400000 then some 1893488400000 else none
  whole := fun h => by
    cases h
    rfl
  supported := fun h => by
    cases h
    decide
  after_some := by
    intro t t' hafter
    split at hafter
    next hlt =>
      cases hafter
      exact ⟨rfl, hlt, fun s hs _ => hs.ge⟩
    next => cases hafter
  after_none := by
    intro t hafter s hs
    split at hafter
    next => cases hafter
    next hpast =>
      cases hs
      exact hpast

/-- The only occurrence of `newYear`. -/
theorem occurs_newYear : (⟨newYear, OffsetZone.utc.timeZone⟩ : MatchingCalendar).Occurs
    (occurrence 1893488400000 1893488400000 .exact) := ⟨rfl, rfl⟩

/-- The last occurrence of a calendar is never planned. -/
theorem planChunks_last :
    planDueChunk (⟨newYear, OffsetZone.utc.timeZone⟩ : MatchingCalendar).calendar
        (occurrence 1893488400000 1893488400000 .exact) .runLatest 60000 1893488400000 =
      .error (.invalidDefinition "schedule has no next occurrence") ∧
    ¬∀ (c : MatchingCalendar) (now : DbMillis) (first : ScheduleOccurrence)
        (policy : MisfirePolicy) (grace bound : ℕ), now ≤ DbMillis.max → c.Occurs first →
      ∃ due chunks, c.PlansBacklog now first policy grace (bound + 1) due chunks := by
  refine ⟨rfl, fun hall => ?_⟩
  obtain ⟨due, chunks, hplan⟩ := hall _ 1893488400000 _ .runLatest 60000 9999 (by decide)
    occurs_newYear
  obtain ⟨n, hends⟩ := hplan.ends
  obtain ⟨passed, next, hwalk, hlater⟩ := Backlog.walk_of_planChunks (hends n le_rfl)
  -- every occurrence is the one that is due
  have hnext := (occurs_of_walk hwalk occurs_newYear).2
  rw [hnext.unique occurs_newYear hnext.1] at hlater
  exact absurd hlater (by decide)

end MatchingCalendar

end DurableWorkflows
