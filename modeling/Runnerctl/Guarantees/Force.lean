import Runnerctl.Guarantees.Exits

/-!
# Live work and force

A container that may be at work is removed only for a run that somebody forced, and a run is
forced only by a `Stop` or `Remove` with force for its pool.  Whatever else goes wrong, the
other removals concern containers that the pass itself saw stopped.
-/

namespace Runnerctl

open Std Program Journal

/-- A request that forces the runs of the pool was accepted, or the process died while it was
handled and the store had a forced run of the pool. -/
inductive Granted (poolId : String) (history : List Moment) : Prop where
  | accepted {m : Moment} {polled : Bool} {request : Request} {before : State}
      {response : Response} :
      m ∈ history → m.event = .handled polled request before (.ok response) →
      request.forces before poolId → Granted poolId history
  | cut {first inner rest : List Moment} {m m' : Moment} {request : Request} {effect : Bool}
      {t : State} {id : String} {run : Run} :
      history = first ++ m :: inner ++ m' :: rest → m.event = .received request →
      request.forces m.state poolId → (∀ m ∈ inner, m.event.between = true) →
      m'.event = .crashed effect → m'.store = some t → t.runs[id]? = some run →
      run.force = true → run.poolId = poolId → Granted poolId history

/-- A request that forces the runs of the pool is being handled. -/
def Pleads (poolId : String) (history : List Moment) : Prop :=
  ∃ first m inner request, history = first ++ m :: inner ∧ m.event = .received request ∧
    request.forces m.state poolId ∧ ∀ m ∈ inner, m.event.between = true

/-- There is a reason for every forced run of the state. -/
def State.Justified (s : State) (reason : String → Prop) : Prop :=
  ∀ (id : String) (run : Run), s.runs[id]? = some run → run.force = true → reason run.poolId

section Force

variable {host : Host} {w w' : World} {s t : State} {poolId : String}
  {reason r : String → Prop}

theorem Granted.append {earlier new : List Moment} (granted : Granted poolId earlier) :
    Granted poolId (earlier ++ new) := by
  cases granted with
  | accepted member event forces =>
      exact .accepted (List.mem_append_left _ member) event forces
  | @cut first inner rest m m' _ _ _ _ _ history arrived forces between crashed stored found
      forced owner =>
      have history : earlier ++ new = first ++ m :: inner ++ m' :: (rest ++ new) := by
        rw [history, List.append_assoc, List.cons_append]
      exact .cut history arrived forces between crashed stored found forced owner

theorem Granted.mono {first second : List Moment} (granted : Granted poolId first)
    (continues : first <+: second) : Granted poolId second := by
  obtain ⟨new, rfl⟩ := continues
  exact granted.append

namespace State.Justified

theorem mono (justified : s.Justified reason) (weaker : ∀ poolId, reason poolId → r poolId) :
    s.Justified r :=
  fun id run found forced => weaker _ (justified id run found forced)

theorem of_runs (justified : s.Justified reason) (same : t.runs = s.runs) :
    t.Justified reason :=
  fun id run found => justified id run (same ▸ found)

theorem setRun (justified : s.Justified reason) (id : String) {run : Run}
    (forced : run.force = true → reason run.poolId) : (s.setRun id run).Justified reason := by
  intro other run' found
  rw [State.setRun_runs, TreeMap.get_insert] at found
  split at found
  · cases found
    exact forced
  · exact justified other run' found

/-- Forced runs come from forced runs of the same pool. -/
theorem back (justified : s.Justified reason)
    (origin : ∀ (id : String) (run' : Run), t.runs[id]? = some run' → run'.force = true →
      ∃ run, s.runs[id]? = some run ∧ run.poolId = run'.poolId ∧
        (run.force = true ∨ reason run.poolId)) : t.Justified reason := by
  intro id run' found forced
  obtain ⟨run, there, same, old | new⟩ := origin id run' found forced
  · exact same ▸ justified id run there old
  · exact same ▸ new

end State.Justified

/-- Forced runs were forced by requests, in memory and in the store. -/
structure Warranted (w : World) : Prop where
  memory : Restored w.history → w.engine.state.Justified (Granted · w.history)
  stored : Restored w.history → ∀ t, w.store = some t → t.Justified (Granted · w.history)

theorem Warranted.serve (warranted : Warranted w) {polled : Bool} {request : Request}
    (served : Served host polled request w w') : Warranted w' := by
  obtain ⟨inner, result, history, -, outcome⟩ := served.outcome
  have before (restored : Restored w'.history) := restored_of_grows served.grows restored
  have later (poolId : String) (granted : Granted poolId w.history) : Granted poolId w'.history :=
    granted.mono served.history.isPrefix
  have memory (restored : Restored w'.history) :=
    (warranted.memory (before restored)).mono later
  have stored (restored : Restored w'.history) (t : State) (there : w.store = some t) :=
    (warranted.stored (before restored) t there).mono later
  cases outcome with
  | @accepted response _ accepts saved _ _ =>
      have justified (restored : Restored w'.history) :
          w'.engine.state.Justified (Granted · w'.history) := by
        refine (memory restored).back fun id run' found forced => ?_
        obtain ⟨run, there, same, reason⟩ := accepts.forced found forced
        refine ⟨run, there, same, reason.imp_right fun forces => ?_⟩
        have event : (w'.moment (.handled polled request w.engine.state (.ok response))).event =
          .handled polled request w.engine.state (.ok response) := rfl
        exact .accepted (history ▸ List.mem_append_right _ (List.mem_singleton_self _)) event
          forces
      refine ⟨justified, fun restored t there => ?_⟩
      rw [saved] at there
      split at there
      · cases there
        exact justified restored
      · exact stored restored t there
  | rejected same origin _ _ =>
      have justified (restored : Restored w'.history) :
          w'.engine.state.Justified (Granted · w'.history) := by
        rcases origin with kept | ⟨commits, -⟩
        · exact stored restored _ (kept.symm.trans same)
        · exact (memory restored).of_runs commits.runs
      refine ⟨justified, fun restored t there => ?_⟩
      cases same.symm.trans there
      exact justified restored
  | unread failed =>
      have unread (restored : Restored w'.history) : False :=
        Served.unrestored history failed restored
      exact ⟨fun restored => (unread restored).elim, fun restored => (unread restored).elim⟩

theorem Warranted.step (warranted : Warranted w) (step : Step host w w') : Warranted w' := by
  have continues := step.advances.history
  have before (restored : Restored w'.history) : Restored w.history :=
    fun m member => restored m (continues.subset member)
  have later (poolId : String) (granted : Granted poolId w.history) : Granted poolId w'.history :=
    granted.mono continues
  have kept (memory : Restored w.history → w.engine.state.Justified (Granted · w.history) →
        w'.engine.state.Justified (Granted · w.history))
      (store : w'.store = w.store ∨ w'.store = some w'.engine.state) : Warranted w' := by
    have justified (restored : Restored w'.history) :
        w'.engine.state.Justified (Granted · w'.history) :=
      (memory (before restored) (warranted.memory (before restored))).mono later
    refine ⟨justified, fun restored t there => ?_⟩
    rcases store with same | saved
    · exact (warranted.stored (before restored) t (same ▸ there)).mono later
    · cases saved.symm.trans there
      exact justified restored
  cases step with
  | serve _ served => exact warranted.serve served
  | silent state store => exact kept (fun _ justified => state ▸ justified) (.inl store)
  | enter | leave | log | edit | begin | note | fail | delete | write =>
      exact kept (fun _ justified => justified) (.inl rfl)
  | save => exact kept (fun _ justified => justified) (.inr rfl)
  | commit _ _ _ committed =>
      obtain ⟨-, text, -, rfl⟩ := committed
      exact kept (fun _ justified => justified.of_runs rfl) (.inr rfl)
  | @observe id run recorded found _ forget =>
      refine kept (fun restored justified => justified.setRun id fun forced => ?_) (.inl rfl)
      obtain ⟨-, poolId, -, -, -, -, force⟩ := Run.forget_eq_iff.mp (forget restored)
      exact poolId ▸ justified id recorded found (force ▸ forced)
  | forget poolId =>
      refine kept (fun _ justified => justified.back fun id run' found forced => ?_) (.inl rfl)
      obtain ⟨run, there, rfl⟩ :=
        Option.map_eq_some_iff.mp ((State.forgetPhases_run ..).symm.trans found)
      refine ⟨run, there, ?_, .inl ?_⟩
      · split <;> rfl
      · split at forced <;> exact forced
  | drain _ drained =>
      refine kept (fun _ justified => justified.back fun id run' found forced => ?_) (.inl rfl)
      obtain ⟨run, there, rfl | rfl⟩ := drained.run found
      · exact ⟨run', there, rfl, .inl forced⟩
      · exact ⟨run, there, rfl, .inl forced⟩
  | drop =>
      refine kept (fun _ justified => justified.back fun id run' found forced => ?_) (.inl rfl)
      change (w.engine.state.runs.erase _)[id]? = some run' at found
      rw [TreeMap.get_erase] at found
      split at found
      · cases found
      · exact ⟨run', found, rfl, .inl forced⟩
  | record _ _ _ unforced =>
      refine kept (fun _ justified => justified.setRun _ fun forced => ?_) (.inl rfl)
      cases unforced.symm.trans forced

theorem warranted_invariant (host : Host) : Invariant host Warranted
    (fun _ history store => Restored history → ∀ t, store = some t →
      t.Justified fun poolId => Granted poolId history ∨ Pleads poolId history) where
  start {text after} installed := by
    have justified {reason : String → Prop} : after.engine.state.Justified reason := by
      intro id run found
      simp [installed.runs] at found
    refine ⟨fun _ => justified, fun _ t stored => ?_⟩
    cases installed.store.symm.trans stored
    exact justified
  step warranted step := warranted.step step
  survives warranted restored t stored :=
    (warranted.stored restored t stored).mono fun _ => .inl
  served {w request n new store} warranted _ handling := by
    intro restored t stored
    obtain ⟨inner, rfl, between⟩ := handling.arrived
    have before := (restored_append.mp restored).1
    have memory := (warranted.memory before).mono
      (r := fun poolId => Granted poolId (w.history ++ w.moment (.received request) :: inner) ∨
        Pleads poolId (w.history ++ w.moment (.received request) :: inner))
      fun _ granted => .inl granted.append
    rcases handling.storable with same | ⟨s, same, commits | ⟨response, accepts⟩⟩
    · exact (warranted.stored before t (same ▸ stored)).mono fun _ granted => .inl granted.append
    · cases stored.symm.trans same
      exact memory.of_runs commits.runs
    · cases stored.symm.trans same
      refine memory.back fun id run' found forced => ?_
      obtain ⟨run, there, owner, reason⟩ := accepts.forced found forced
      refine ⟨run, there, owner, reason.imp_right fun forces => .inr ?_⟩
      exact ⟨_, _, inner, request, rfl, rfl, forces, between⟩
  mono justified _ := justified
  reopen {w t} effect justified stored := by
    have memory (restored : Restored (w.reopened host effect t).history) :
        t.Justified (Granted · (w.reopened host effect t).history) := by
      simp only [World.reopened, World.log_history, World.advance_history] at restored ⊢
      rw [List.append_assoc] at restored ⊢
      intro id run found forced
      rcases justified (restored_append.mp restored).1 t stored id run found forced with
        granted | ⟨first, m, inner, request, history, arrived, forces, between⟩
      · exact granted.append
      · rw [history]
        exact .cut rfl arrived forces between rfl stored found forced rfl
    refine ⟨memory, fun restored t' stored' => ?_⟩
    cases stored.symm.trans stored'
    exact memory restored

/-- A container is removed by force only for a run that a request forced, and otherwise only
if the pass saw it stopped.  No other run is forced, in memory or in the store. -/
theorem removals_licensed (executed : Executed host w) :
    Recorded (fun first m => ∀ id force, m.event = .began (.dockerRemove id force) →
      ∃ run, m.state.runs[id]? = some run ∧
        (force = true → Restored first → run.force = true ∧ Granted run.poolId first) ∧
        (force = false → ∃ containers container,
          lastListing (currentPass first) = some containers ∧ container ∈ containers ∧
            container.owned m.state.managerId.text run = true ∧ container.live = false))
      w.history ∧
    (Reachable host w → Restored w.history →
      w.engine.state.Justified (Granted · w.history) ∧
        ∀ t, w.store = some t → t.Justified (Granted · w.history)) := by
  refine ⟨?_, fun reachable restored => ?_⟩
  · intro first m rest history id force event
    obtain ⟨w₀, -, warranted, -, -, -, rfl, -, guarded⟩ :=
      ((warranted_invariant host).caused executed first m rest history).guarded
        (by rw [event]; rfl)
    rw [Moment.Guarded, event] at guarded
    obtain ⟨state, -, licensed, -⟩ := guarded
    rw [state]
    cases force with
    | true =>
        obtain ⟨-, run, found, forced⟩ := licensed
        refine ⟨run, found, fun _ restored => ⟨forced restored, ?_⟩,
          (fun same => by cases same)⟩
        exact warranted.memory restored id run found (forced restored)
    | false =>
        obtain ⟨-, run, containers, container, found, listed, member, owned, dead⟩ := licensed
        exact ⟨run, found, (fun same => by cases same),
          fun _ => ⟨containers, container, listed, member, owned, dead⟩⟩
  · have warranted := (warranted_invariant host).reachable reachable
    exact ⟨warranted.memory restored, warranted.stored restored⟩

/-- The container of the only run is at work once it was started. -/
def Host.working : Host :=
  .scripted [.sample [.sample "a" 1]] fun n answers =>
    { answers with
      reply := fun op => match op with
        | .dockerList managerId =>
            if 28 < n then
              .ok [⟨some managerId, some (runId (.scripted 3) (.scripted 11)),
                some (Uuid.scripted 2).text, some "running", some "start"⟩]
            else .ok []
        | op => op.smooth }

/-- The removal of the run's container begins. -/
def Moment.removes (id : String) (force : Bool) (m : Moment) : Bool :=
  match m.event with
  | .began (.dockerRemove other force') => other == id && force == force'
  | _ => false

/-- Somebody stops the pool by force while a job is running. -/
theorem removals_licensed_sample : ∃ (w : World) (first : List Moment) (m : Moment)
    (id : String) (run : Run), Reachable .working w ∧ first ++ [m] <+: w.history ∧
      m.event = .began (.dockerRemove id true) ∧ m.state.runs[id]? = some run ∧
        run.force = true ∧ Granted run.poolId first := by
  obtain ⟨w, reachable, holds⟩ := @Host.reaches .working "" .blank
    [.request (.start (some "a") false), .tick, .tick, .request (.stop (some "a") false true),
      .tick]
    (fun w => decide (Restored (w.history.take 49)) &&
      w.history[49]?.any (Moment.removes (runId (.scripted 3) (.scripted 11)) true))
    (by decide +kernel)
  simp only [Bool.and_eq_true, decide_eq_true_eq, Option.any_eq_true] at holds
  obtain ⟨restored, m, found, removes⟩ := holds
  unfold Moment.removes at removes
  split at removes
  · next id force event =>
      simp only [Bool.and_eq_true, beq_iff_eq] at removes
      rw [← removes.2] at event
      obtain ⟨run, recorded, licensed, -⟩ :=
        (removals_licensed (.reached reachable)).1 _ m _ (split_at_moment found) id true event
      obtain ⟨forced, granted⟩ := licensed rfl restored
      refine ⟨w, _, m, id, run, reachable, ?_, event, recorded, forced, granted⟩
      exact ⟨_, (List.append_cons ..).symm.trans (split_at_moment found).symm⟩
  · exact absurd removes Bool.false_ne_true

/-- No request with force was accepted, and the process lives on. -/
def Event.forceless : Event → Bool
  | .handled _ (.stop _ _ true) _ (.ok _) | .handled _ (.remove _ true) _ (.ok _)
  | .crashed _ => false
  | _ => true

theorem not_granted_of_forceless {history : List Moment}
    (forceless : history.all (·.event.forceless) = true) : ¬ Granted poolId history := by
  rw [List.all_eq_true] at forceless
  intro granted
  cases granted with
  | @accepted m polled request before response member event forces =>
      have none := forceless m member
      rw [event] at none
      cases request with
      | stop pool all force =>
          cases force with
          | true => exact Bool.false_ne_true none
          | false => exact forces
      | remove pool force =>
          cases force with
          | true => exact Bool.false_ne_true none
          | false => exact forces
      | _ => exact forces
  | @cut first inner rest m m' request effect t id run history arrived forces between crashed =>
      have none := forceless m' (history ▸ List.mem_append_right _ List.mem_cons_self)
      rw [crashed] at none
      exact Bool.false_ne_true none

/-- A stop by force is rejected, since neither the save nor the read-back succeeds.  The next
pass removes the container all the same, while its job is running. -/
theorem container_removed_unforced : ∃ (host : Host) (w : World) (first : List Moment)
    (m : Moment) (id : String), Reachable host w ∧ Fresh host w.asked ∧
      first ++ [m] <+: w.history ∧ m.event = .began (.dockerRemove id true) ∧
        ∀ poolId, ¬ Granted poolId first := by
  let host : Host := { Host.working with
    answers := fun n =>
      { Host.working.answers n with succeeds := !(n == 31 || n == 32) } }
  obtain ⟨w, reachable, holds⟩ := @Host.reaches host "" .blank
    [.request (.start (some "a") false), .tick, .tick, .request (.stop (some "a") false true),
      .tick]
    (fun w => (decide (w.asked ≤ 10 ^ 32) && (w.history.take 50).all (·.event.forceless)) &&
      w.history[50]?.any (Moment.removes (runId (.scripted 3) (.scripted 11)) true))
    (by decide +kernel)
  simp only [Bool.and_eq_true, decide_eq_true_eq, Option.any_eq_true] at holds
  obtain ⟨⟨fresh, forceless⟩, m, found, removes⟩ := holds
  replace fresh := fresh_of_scripted host (fun _ => rfl) fresh
  unfold Moment.removes at removes
  split at removes
  · next id force event =>
      simp only [Bool.and_eq_true, beq_iff_eq] at removes
      rw [← removes.2] at event
      refine ⟨host, w, _, m, id, reachable, fresh, ?_, event,
        fun poolId => not_granted_of_forceless forceless⟩
      exact ⟨_, (List.append_cons ..).symm.trans (split_at_moment found).symm⟩
  · exact absurd removes Bool.false_ne_true

end Force

end Runnerctl
