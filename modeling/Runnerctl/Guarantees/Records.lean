import Runnerctl.Guarantees.Exits
import Runnerctl.Metatheory.Client

/-!
# Records of runs

A run is recorded before anything is created for it, and forgotten after everything that was
created for it is gone.  In between, its record is in the store.
-/

namespace Runnerctl

open Std Program Journal

/-- The run is recorded. -/
def State.Records (s : State) (id : String) : Prop := ∃ run, s.runs[id]? = some run

/-- The store records the run. -/
def StoreRecords (store : Option State) (id : String) : Prop :=
  ∃ t, store = some t ∧ t.Records id

/-- The run was dropped. -/
def Dropped (moments : List Moment) (id : String) : Prop :=
  ∃ m ∈ moments, ∃ run interrupted, m.event = .droppedRun run interrupted ∧ run.id = id

section Records

variable {host : Host} {w w' : World} {s t : State} {id : String}

theorem State.records_of_roster (same : s.roster = t.roster) : s.Records id ↔ t.Records id := by
  constructor
  · rintro ⟨run, found⟩
    obtain ⟨run', there, -⟩ := State.run_of_roster same found
    exact ⟨run', there⟩
  · rintro ⟨run, found⟩
    obtain ⟨run', there, -⟩ := State.run_of_roster same.symm found
    exact ⟨run', there⟩

theorem State.records_insert {run : Run} (recorded : s.Records id) (other : String) :
    (s.setRun other run).Records id := by
  rw [State.Records, State.setRun_runs, TreeMap.get_insert]
  split
  · exact ⟨_, rfl⟩
  · exact recorded

theorem Dropped.append {moments new : List Moment} (dropped : Dropped moments id) :
    Dropped (moments ++ new) id := by
  obtain ⟨m, member, event⟩ := dropped
  exact ⟨m, List.mem_append_left _ member, event⟩

/-- Between turns the store records what memory does. -/
theorem Ready.storeRecords (ready : Ready host w) :
    StoreRecords w.store id ↔ w.engine.state.Records id := by
  obtain ⟨t, stored, backs⟩ := ready.stored
  constructor
  · rintro ⟨t', stored', recorded⟩
    cases stored.symm.trans stored'
    exact (State.records_of_roster backs.roster).mp recorded
  · intro recorded
    exact ⟨t, stored, (State.records_of_roster backs.roster).mpr recorded⟩

/-- While a request is handled, the store records what memory did. -/
theorem Storable.records {request : Request} {n : Nat} {store : Option State}
    (storable : Storable host request w n store) (ready : Ready host w) :
    StoreRecords store id ↔ w.engine.state.Records id := by
  rcases storable.marks with same | ⟨s, same, marks⟩
  · rw [same]
    exact ready.storeRecords
  · rw [same]
    constructor
    · rintro ⟨t, stored, recorded⟩
      cases stored
      exact (State.records_of_roster marks.roster).mp recorded
    · intro recorded
      exact ⟨s, rfl, (State.records_of_roster marks.roster).mpr recorded⟩

/-- How a step changes what is recorded. -/
structure Retains (w w' : World) : Prop where
  memory : ∀ id, w.engine.state.Records id → w'.engine.state.Records id ∨
    Dropped w'.history id
  store : w'.store = w.store ∨ ∀ id, StoreRecords w'.store id ↔ w'.engine.state.Records id
  moments : ∀ m ∈ w'.history, m ∈ w.history ∨
    ∀ id, StoreRecords m.store id → StoreRecords w'.store id

theorem Served.retains {polled : Bool} {request : Request}
    (served : Served host polled request w w') (ready : Ready host w) : Retains w w' := by
  have same {id : String} : w'.engine.state.Records id ↔ w.engine.state.Records id :=
    State.records_of_roster (served.roster ready)
  have stored {id : String} : StoreRecords w'.store id ↔ w.engine.state.Records id :=
    served.store.records ready
  refine ⟨fun id recorded => .inl (same.mpr recorded), .inr fun id => stored.trans same.symm,
    fun m member => ?_⟩
  rcases served.history.mem_or member with old | ⟨-, explained⟩
  · exact .inl old
  · exact .inr fun id recorded =>
      stored.mpr ((explained.storable.records ready).mp recorded)

theorem Step.retains (step : Step host w w') : Retains w w' := by
  have moments (known : ∀ polled request, Ready host w → ¬ Served host polled request w w') :
      ∀ m ∈ w'.history, m ∈ w.history ∨
        ∀ id, StoreRecords m.store id → StoreRecords w'.store id := by
    intro m member
    rcases step.moments with same | ⟨m', history, store⟩ | ⟨polled, request, ready, served⟩
    · exact .inl (same ▸ member)
    · rw [history] at member
      rcases List.mem_append.mp member with old | new
      · exact .inl old
      · rw [List.mem_singleton.mp new, store]
        exact .inr fun _ => id
    · exact absurd served (known polled request ready)
  by_cases serves : ∃ polled request, Ready host w ∧ Served host polled request w w'
  · obtain ⟨_, _, ready, served⟩ := serves
    exact served.retains ready
  replace moments := moments fun polled request ready served =>
    serves ⟨polled, request, ready, served⟩
  have kept (memory : ∀ id, w.engine.state.Records id → w'.engine.state.Records id)
      (store : w'.store = w.store ∨ w'.store = some w'.engine.state) : Retains w w' := by
    refine ⟨fun id recorded => .inl (memory id recorded), store.imp_right fun saved id => ?_,
      moments⟩
    rw [saved]
    exact ⟨fun ⟨_, same, recorded⟩ => Option.some.inj same ▸ recorded,
      fun recorded => ⟨_, rfl, recorded⟩⟩
  cases step with
  | serve ready served => exact absurd ⟨_, _, ready, served⟩ serves
  | silent state store => exact kept (fun id recorded => state ▸ recorded) (.inl store)
  | enter | leave | log | edit | begin | note | fail | delete | write =>
      exact kept (fun _ recorded => recorded) (.inl rfl)
  | save => exact kept (fun _ recorded => recorded) (.inr rfl)
  | commit _ _ _ committed =>
      obtain ⟨-, text, -, rfl⟩ := committed
      exact kept (fun _ recorded => recorded) (.inr rfl)
  | observe | record => exact kept (fun _ recorded => State.records_insert recorded _) (.inl rfl)
  | forget poolId =>
      refine kept (fun id recorded => ?_) (.inl rfl)
      have same := State.roster_of_intent (State.forgetPhases_intent w.engine.state poolId)
      exact (State.records_of_roster same).mpr recorded
  | drain _ drained =>
      exact kept (fun id recorded => (State.records_of_roster drained.roster).mpr recorded)
        (.inl rfl)
  | @drop name run recorded interrupted p =>
      refine ⟨fun id known => ?_, .inl rfl, moments⟩
      by_cases same : run.id = id
      · refine .inr ⟨_, List.mem_append_right _ (List.mem_singleton_self _), run, interrupted,
          rfl, same⟩
      · refine .inl ?_
        change ∃ run', (w.engine.state.runs.erase run.id)[id]? = some run'
        rw [TreeMap.get_erase, if_neg same]
        exact known

/-- What the store ever recorded is recorded in memory and in the store, or was dropped. -/
structure Remembers (w : World) : Prop where
  memory : ∀ id, StoreRecords w.store id ∨ (∃ m ∈ w.history, StoreRecords m.store id) →
    w.engine.state.Records id ∨ Dropped w.history id
  stored : ∀ m ∈ w.history, ∀ id, StoreRecords m.store id →
    StoreRecords w.store id ∨ Dropped w.history id

theorem Remembers.step (remembers : Remembers w) (step : Step host w w') : Remembers w' := by
  obtain ⟨new, history⟩ := step.advances.history
  have retains := step.retains
  have later {id : String} (dropped : Dropped w.history id) : Dropped w'.history id :=
    history ▸ dropped.append
  have memory {id : String}
      (known : StoreRecords w.store id ∨ ∃ m ∈ w.history, StoreRecords m.store id) :
      w'.engine.state.Records id ∨ Dropped w'.history id :=
    (remembers.memory id known).elim (retains.memory id) fun dropped => .inr (later dropped)
  have stored {id : String} (recorded : StoreRecords w'.store id) :
      w'.engine.state.Records id ∨ Dropped w'.history id := by
    rcases retains.store with same | saved
    · exact memory (.inl (same ▸ recorded))
    · exact .inl ((saved id).mp recorded)
  constructor
  · rintro id (recorded | ⟨m, member, recorded⟩)
    · exact stored recorded
    · rcases retains.moments m member with old | new
      · exact memory (.inr ⟨m, old, recorded⟩)
      · exact stored (new id recorded)
  · intro m member id recorded
    rcases retains.moments m member with old | new
    · rcases retains.store with same | saved
      · exact (remembers.stored m old id recorded).imp (same ▸ ·) later
      · exact (memory (.inr ⟨m, old, recorded⟩)).imp_left (saved id).mpr
    · exact .inl (new id recorded)

/-- The pass has what it takes to record the run in the state `s`: its pool runs and is not
paused, and neither the pool nor the manager is given more runs than it should have. -/
def Provisioned (first : List Moment) (s : State) (run : Run) : Prop :=
  (∃ name at_ retryAt p, passHead first = some (name, at_, retryAt) ∧ retryAt ≤ at_ ∧
    s.pools[name]? = some p ∧ p.running = true ∧ p.deleting = false ∧ run.poolId = p.id ∧
    run.generation = p.generation ∧ s.config.pool? name = some run.pool ∧
    (s.runsOf p.id).length ≤ run.pool.replicas) ∧
  ∃ listed containers, (listings (currentPass first)).head? = some (listed, containers) ∧
    s.runs.size + unknownContainers listed containers ≤ s.config.manager.maxRunners

theorem Provisions.provisioned {run : Run} (provisions : Provisions w run) :
    Provisioned w.history (w.engine.state.setRun run.id run) run := by
  constructor
  · obtain ⟨name, at_, retryAt, p, head, due, found, owner, running, kept, generation, entry,
      lacking⟩ := provisions.pass
    refine ⟨name, at_, retryAt, p, head, due, found, running, kept, owner.symm, generation.symm,
      entry, ?_⟩
    have grown := TreeMap.length_filter_values_insert_le w.engine.state.runs run.id run
      (·.poolId == p.id)
    exact grown.trans lacking
  · obtain ⟨listed, containers, first, lacking⟩ := provisions.capacity
    refine ⟨listed, containers, first, ?_⟩
    have grown : (w.engine.state.runs.insert run.id run).size ≤ w.engine.state.runs.size + 1 :=
      ExtTreeMap.size_insert_le
    change (w.engine.state.runs.insert run.id run).size + unknownContainers listed containers ≤
      w.engine.state.config.manager.maxRunners
    omega

/-- A pass records at most one run, and only within what its pool and the manager are asked
to keep at this moment, whatever requests were handled while it waited. -/
theorem runs_provisioned_within_limits (executed : Executed host w) :
    Recorded (fun first m => ∀ run, m.event = .newRun run → Restored first →
      (∀ m' ∈ currentPass first, m'.births = false) ∧ Provisioned first m.state run)
      w.history := by
  intro first m rest history run event restored
  obtain ⟨w₀, -, -, -, -, -, rfl, -, guarded⟩ :=
    ((storing_invariant host).caused executed first m rest history).guarded
      (by rw [event]; rfl)
  rw [Moment.Guarded, event] at guarded
  obtain ⟨state, -, unborn, provisions⟩ := guarded
  exact ⟨unborn, state ▸ (provisions restored).provisioned⟩

/-- The pool is scaled down to one run while the image of the second one is pulled. -/
def Host.scaledDown : Host :=
  .scripted [.sample [.sample "a" 2], .sample [.sample "a" 1]] fun n answers =>
    if n = 28 then { answers with during := [.request (.scale "a" 1)] } else answers

/-- The pass that was interrupted records no second run. -/
theorem runs_provisioned_within_limits_sample : ∃ (w : World) (first : List Moment) (m : Moment)
    (run : Run), Reachable .scaledDown w ∧ first ++ [m] <+: w.history ∧
      m.event = .newRun run ∧ Provisioned first m.state run ∧ w.engine.state.runs.size = 1 := by
  obtain ⟨w, reachable, holds⟩ := @Host.reaches .scaledDown "" .blank
    [.request (.start (some "a") false), .tick, .tick]
    (fun w => decide (Restored (w.history.take 15)) && w.engine.state.runs.size == 1 &&
      w.history[15]?.any fun m => m.births) (by decide +kernel)
  simp only [Bool.and_eq_true, decide_eq_true_eq, Option.any_eq_true, beq_iff_eq] at holds
  obtain ⟨⟨restored, single⟩, m, found, births⟩ := holds
  rw [Moment.births] at births
  split at births
  · next run event =>
      have provisioned := (runs_provisioned_within_limits (.reached reachable) _ m _
        (split_at_moment found) run event restored).2
      refine ⟨w, _, m, run, reachable, ?_, event, provisioned, single⟩
      exact ⟨_, (List.append_cons ..).symm.trans (split_at_moment found).symm⟩
  · exact absurd births Bool.false_ne_true

/-- While a pass lists the registrations, the pool is stopped.  The request is rejected, since
neither the save nor the read-back succeeds; memory has the pool stopped from then on, but the
pass goes on and records a run. -/
theorem stopped_pool_provisioned : ∃ (host : Host) (w : World) (first : List Moment)
    (m : Moment) (run : Run), Reachable host w ∧ Fresh host w.asked ∧
      first ++ [m] <+: w.history ∧ m.event = .newRun run ∧
      ¬ Provisioned first m.state run := by
  let host : Host := .scripted [.sample [.sample "a" 1]] fun n answers =>
    { answers with
      succeeds := !(n == 9 || n == 10)
      during := if n = 8 then [.request (.stop (some "a") false false)] else [] }
  obtain ⟨w, reachable, holds⟩ := @Host.reaches host "" .blank
    [.request (.start (some "a") false), .tick]
    (fun w => decide (w.asked ≤ 10 ^ 32) &&
      (passHead (w.history.take 19)).any (·.1 == "a") &&
        w.history[19]?.any fun m => m.births && m.state.pools["a"]?.any (!·.running))
    (by decide +kernel)
  simp only [Bool.and_eq_true, decide_eq_true_eq, Option.any_eq_true, beq_iff_eq,
    Bool.not_eq_true'] at holds
  obtain ⟨⟨fresh, ⟨_, at_, retryAt⟩, head, rfl⟩, m, found, births, p, there, stopped⟩ :=
    holds
  replace fresh := fresh_of_scripted host (fun _ => rfl) fresh
  rw [Moment.births] at births
  split at births
  · next run event =>
      refine ⟨host, w, w.history.take 19, m, run, reachable, fresh, ?_, event, ?_⟩
      · exact ⟨_, (List.append_cons ..).symm.trans (split_at_moment found).symm⟩
      · rintro ⟨⟨name, at_', retryAt', p', head', -, there', running, -⟩, -⟩
        cases head.symm.trans head'
        cases there.symm.trans there'
        exact Bool.false_ne_true (stopped.symm.trans running)
  · exact absurd births Bool.false_ne_true

end Records

end Runnerctl
