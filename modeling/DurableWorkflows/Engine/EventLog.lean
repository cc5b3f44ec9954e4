import DurableWorkflows.Engine.Reachable

/-!
# Event logs

Some twenty transactions append history, several of them to more than one
workflow. In every reachable state the events of a workflow are numbered
without gaps from its started event on, its deliverable events are numbered
likewise, and at most the last of them is undelivered.

## Main definitions

- `Aggregate.Opens`: the log of a workflow opens with its only started event
- `EventLog`, `DB.EventLogs`: the shape of a log with its delivery counter

## Main results

- `run_aggregate`: what every step keeps holds of every workflow of a run
- `run_eventLogs`
-/

namespace DurableWorkflows

variable {g g' : Aggregate} {l : Label} {db : DB}

/-- What every step of a well-formed aggregate keeps. -/
theorem Steps.invariant {P : Label → Prop} {I : Aggregate → Prop}
    (hstep : ∀ g l g', g.WellFormed → Step g l g' → I g → I g') (h : Steps P g g')
    (hg : g.WellFormed) (hI : I g) : I g' := by
  induction h with
  | refl => exact hI
  | tail hsteps hlast ih =>
    obtain ⟨l, -, hlast⟩ := hlast
    exact hstep _ l _ (Steps.wellFormed hsteps hg) hlast ih

/-- What every step keeps holds of every workflow of a reachable state. -/
theorem run_aggregate {I : Aggregate → Prop} (hempty : I .empty)
    (hstep : ∀ g l g', g.WellFormed → Step g l g' → I g → I g') (externals : Externals)
    (actions : List Action) (w : WorkflowId) :
    I ((run externals Sys.init actions).db.aggregate w) :=
  ((Sys.Inv.init.run_evolves externals actions).steps w).invariant hstep
    (DB.Sound.empty.wellFormed w) hempty

/-- The log of a workflow that exists opens with its started event, and no
later event is one. -/
def Aggregate.Opens (g : Aggregate) : Prop :=
  g.row.isSome → ∃ e later, g.events = e :: later ∧ e.eventType = .started ∧
    e.deliverySequence = some 1 ∧ ∀ e' ∈ later, e'.eventType ≠ .started

/-- A step appends at most one event, and the event of an insert is the first
one. -/
theorem Step.appends (h : Step g l g') :
    (∃ row e, g = .empty ∧ NextEvent [] (some 1) e ∧ e.eventType = .started ∧
      g' = (Aggregate.empty.setRow row).addEvent e) ∨
    g.row.isSome ∧ (g'.events = g.events ∨
      ∃ e d, NextEvent g.events d e ∧ g'.events = g.events ++ [e]) := by
  cases h with
  | inserted _ he _ hstarted => exact .inl ⟨_, _, rfl, he, hstarted, rfl⟩
  | history hr he | continued hr _ he | answered hr _ _ he | answeredApproval hr _ _ _ _ _ he
  | succeeded hr _ _ _ _ he =>
    exact .inr ⟨by rw [hr]; rfl, .inr ⟨_, _, he, rfl⟩⟩
  | claimed hr | recovered hr | completed hr | slept hr | waitedApproval hr | waitedActivity hr
  | waitedChild hr | activationFailed hr | reattached hr | paused hr | revoked hr | resumed hr
  | cancelled hr | superseded hr | discarded hr | retried hr | activityClaimed hr | renewed hr
  | released hr | deadLettered hr | quarantined hr | settled hr =>
    exact .inr ⟨by rw [hr]; rfl, .inl rfl⟩

theorem Step.opens (h : Step g l g') (hg : g.Opens) : g'.Opens := by
  intro _
  rcases h.appends with ⟨row, e, rfl, he, hstarted, rfl⟩ | ⟨hrow, hevents⟩
  · exact ⟨e, [], rfl, hstarted, he.delivers, by simp⟩
  · obtain ⟨first, later, heq, hstarted, hdelivery, hlater⟩ := hg hrow
    rcases hevents with hsame | ⟨e, d, he, happend⟩
    · exact ⟨first, later, hsame.trans heq, hstarted, hdelivery, hlater⟩
    · refine ⟨first, later ++ [e], by rw [happend, heq, List.cons_append], hstarted, hdelivery, ?_⟩
      have hne : e.eventType ≠ .started := by
        intro hagain
        have hnil := he.later hagain
        rw [heq] at hnil
        cases hnil
      exact List.forall_mem_append.mpr ⟨hlater, List.forall_mem_singleton.mpr hne⟩

/-- The shape of a log whose workflow was given `delivered` of its events. -/
structure EventLog (events : List WorkflowEventRow) (delivered : ℕ) : Prop where
  /-- The sequence numbers are `1, …, n`, in the order of the log. -/
  sequences : events.map (·.sequence) = List.range' 1 events.length
  /-- Event 1 is the started event, with delivery number 1. -/
  first : ∃ e ∈ events, e.sequence = 1 ∧ e.eventType = .started ∧ e.deliverySequence = some 1
  /-- There is no other started event. -/
  started : ∀ e ∈ events, e.eventType = .started → e.sequence = 1
  /-- The delivery numbers of the deliverable events are `1, …, m`, in the order of the log. -/
  deliveries : deliveries events = List.range' 1 (deliveries events).length
  /-- All deliverable events are delivered, or all but the last. -/
  delivered : delivered = (DurableWorkflows.deliveries events).length ∨
    delivered + 1 = (DurableWorkflows.deliveries events).length

/-- Every workflow has an event log, and nothing else has events. -/
def DB.EventLogs (db : DB) : Prop :=
  ∀ w, match db.workflows.find w with
    | some r => EventLog (db.eventsOf w) r.deliveredEventSequence
    | none => db.eventsOf w = []

/-- The log of a workflow that satisfies the invariant. -/
theorem Inv.eventLog {r : WorkflowRow} (h : Inv g r) (hr : g.row = some r) (hopens : g.Opens) :
    EventLog g.events r.deliveredEventSequence := by
  have hdelivery := h.delivery
  obtain ⟨first, later, heq, hstarted, hdelivers, hlater⟩ := hopens (by rw [hr]; rfl)
  have hfirst : first.sequence = 1 := by
    have hsequences := hdelivery.log.sequences
    rw [heq, List.map_cons, List.length_cons, List.range'_succ] at hsequences
    exact (List.cons.inj hsequences).1
  have hle : r.deliveredEventSequence ≤ (deliveries g.events).length := hdelivery.delivered_le
  have hge : (deliveries g.events).length ≤ r.deliveredEventSequence + 1 := hdelivery.le_delivered
  refine ⟨hdelivery.log.sequences, ⟨first, ?_, hfirst, hstarted, hdelivers⟩, fun e he hagain => ?_,
    hdelivery.log.numbered, by omega⟩
  · rw [heq]
    exact List.mem_cons_self
  · rw [heq] at he
    rcases List.mem_cons.mp he with rfl | he
    · exact hfirst
    · exact absurd hagain (hlater e he)

/-- In every reachable state every workflow has a gapless event log. -/
theorem run_eventLogs (externals : Externals) (actions : List Action) :
    (run externals Sys.init actions).db.EventLogs := by
  intro w
  have hsound := (run_inv externals actions).sound
  have hopens := run_aggregate (I := Aggregate.Opens) nofun (fun _ _ _ _ h => h.opens) externals
    actions w
  split
  · rename_i r hr
    exact (hsound.inv hr).eventLog hr hopens
  · rename_i hr
    exact congrArg Aggregate.events (hsound.aggregate_of_none hr)

end DurableWorkflows
