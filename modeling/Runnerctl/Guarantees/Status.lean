import Runnerctl.Metatheory.Oblivious
import Runnerctl.Metatheory.Scripts

/-!
# Status requests

A status request shares its path with the mutations.  One that is answered leaves no trace
but in the history, so a pass in flight goes on as if it had not been there.  One that is
rejected is rolled back like a mutation.
-/

namespace Runnerctl

open Std Program

/-- Memory, channel, epoch and store are as before. -/
structure Unaltered (w w' : World) : Prop where
  engine : w'.engine = w.engine
  store : w'.store = w.store

/-- The pool that a status request names, if it names one, is known. -/
def Answerable (pool : Option String) (w : World) : Prop :=
  ∀ name, pool = some name → w.engine.state.pools.contains name = true

/-- A rollback finds nothing to take back: it cannot read the store, or the store and the
channel hold what memory holds. -/
def RollsBackNothing (host : Host) (w : World) : Prop :=
  (host.answers w.asked).succeeds = false ∨ w.store = none ∨
    w.store = some w.engine.state ∧ ∀ snapshot, w.engine.snapshot = some snapshot →
      snapshot = w.engine.state

section Status

variable {host : Host} {polled : Bool} {pool : Option String} {w : World}

/-- Reading the status changes nothing; it fails if the pool is unknown. -/
theorem handleStatus_inert (host : Host) (pool : Option String) (w : World) :
    Meets host (handleStatus pool) w (fun _ w' => w' = w ∧ Answerable pool w)
      (fun fault w' => w' = w ∧ (fault = .panic ∧ Answerable pool w ∨
        (∃ error, fault = .error error) ∧ ¬ Answerable pool w)) := by
  unfold handleStatus
  have listed (answerable : Answerable pool w) : Meets host (do
      let state ← getState
      let pools ← (state.config.pools.filter fun p => pool.all (· == p.name)).mapM fun p => do
        let ps ← poolOf p.name
        return poolStatus p ps (state.runsOf ps.id)
      return Response.status state.revision pools) w (fun _ w' => w' = w ∧ Answerable pool w)
      (fun fault w' => w' = w ∧ (fault = .panic ∧ Answerable pool w ∨
        (∃ error, fault = .error error) ∧ ¬ Answerable pool w)) := by
    refine meets_bind.mpr (meets_getState.mpr ?_)
    refine (Meets.mapM (fun w' => w' = w) (fun p _ w' same => ?_) rfl).bind
      fun _ _ same => ⟨same, answerable⟩
    subst same
    refine meets_bind.mpr (meets_poolOf.mpr ?_)
    split
    · exact rfl
    · exact ⟨rfl, .inl ⟨rfl, answerable⟩⟩
  cases pool with
  | none => exact listed fun _ unnamed => by cases unnamed
  | some name =>
      refine meets_bind.mpr (meets_getState.mpr (meets_bind.mpr (meets_require.mpr ?_)))
      split
      · next known =>
          exact listed fun _ equal => by
            cases equal
            exact known
      · next unknown =>
          exact ⟨rfl, .inr ⟨⟨_, rfl⟩, fun answerable => unknown (answerable name rfl)⟩⟩

/-- An answered status request leaves a trace in the history only. -/
theorem status_answered (host : Host) (polled : Bool) (answerable : Answerable pool w) :
    ∃ new, (serveRequest polled (.status pool) host w).2 =
      { w with history := w.history ++ new } := by
  have inert : Meets host (serveRequest polled (.status pool)) w
      (fun _ w' => ∃ new, w' = { w with history := w.history ++ new })
      (fun _ w' => ∃ new, w' = { w with history := w.history ++ new }) := by
    unfold serveRequest handleLocal
    refine meets_bind.mpr (meets_getState.mpr (meets_bind.mpr (meets_record.mpr
      (meets_bind.mpr (meets_attempt.mpr (meets_bind.mpr (meets_attempt.mpr ?_)))))))
    refine (handleStatus_inert host pool (w.log (.received (.status pool)))).mono
      (fun response w' kept => ?_) fun fault w' stopped => ?_
    · obtain ⟨rfl, -⟩ := kept
      exact ⟨_, by simp only [World.log, List.append_assoc]; rfl⟩
    · obtain ⟨rfl, ⟨rfl, -⟩ | ⟨-, unknown⟩⟩ := stopped
      · exact ⟨_, rfl⟩
      · exact absurd answerable unknown
  generalize run : serveRequest polled (.status pool) host w = outcome
  obtain ⟨_ | _, w'⟩ := outcome
  · exact inert.stopped run
  · exact inert.returned run

/-- A rejected status request is rolled back. -/
theorem status_rejected (host : Host) (polled : Bool) (unknown : ¬ Answerable pool w) :
    Unaltered w (serveRequest polled (.status pool) host w).2 ↔ RollsBackNothing host w := by
  have rolled : Meets host (serveRequest polled (.status pool)) w
      (fun _ w' => Unaltered w w' ↔ RollsBackNothing host w)
      (fun _ w' => Unaltered w w' ↔ RollsBackNothing host w) := by
    unfold serveRequest handleLocal
    refine meets_bind.mpr (meets_getState.mpr (meets_bind.mpr (meets_record.mpr
      (meets_bind.mpr (meets_attempt.mpr (meets_bind.mpr (meets_attempt.mpr ?_)))))))
    refine (handleStatus_inert host pool (w.log (.received (.status pool)))).mono
      (fun response w' ⟨_, answerable⟩ => absurd answerable unknown)
      fun fault w' ⟨same, stopped⟩ => ?_
    subst same
    rcases stopped with ⟨-, answerable⟩ | ⟨⟨error, rfl⟩, -⟩
    · exact absurd answerable unknown
    · dsimp only
      refine meets_bind.mpr (meets_readBack.mpr ?_)
      split
      · next state succeeds stored =>
          have restored {w' : World} (store : w'.store = w.store)
              (engine : w'.engine = { w.engine with
                state := state, snapshot := w.engine.snapshot.map fun _ => state }) :
              Unaltered w w' ↔ RollsBackNothing host w := by
            constructor
            · intro unaltered
              have same := engine.symm.trans unaltered.engine
              have memory : state = w.engine.state := congrArg Engine.state same
              refine .inr (.inr ⟨stored.trans (congrArg some memory), fun snapshot sent => ?_⟩)
              have channel := congrArg Engine.snapshot same
              rw [sent, Option.map_some, Option.some.injEq] at channel
              exact channel.symm.trans memory
            · rintro (fails | missing | ⟨held, sent⟩)
              · exact absurd succeeds (by simp [fails])
              · exact nomatch stored.symm.trans missing
              · cases stored.symm.trans held
                refine ⟨engine.trans ?_, store⟩
                have channel : (w.engine.snapshot.map fun _ => w.engine.state) =
                    w.engine.snapshot := by
                  cases snapshot : w.engine.snapshot with
                  | none => rfl
                  | some snapshot' => rw [sent snapshot' snapshot, Option.map_some]
                rw [channel]
          exact restored rfl rfl
      · next succeeds missing =>
          exact iff_of_true ⟨rfl, rfl⟩ (.inr (.inl missing))
      · next fails =>
          exact iff_of_true ⟨rfl, rfl⟩ (.inl fails)
  generalize run : serveRequest polled (.status pool) host w = outcome
  match outcome with
  | (.ok _, w') => exact rolled.returned run
  | (.error _, w') => exact rolled.stopped run

/-- Handling a status request changes neither memory nor store, epoch and channel if and only
if it is answered or its rollback takes nothing back.  Whatever was under way ends as it
would have ended without an answered one. -/
theorem status_read_only (host : Host) (polled : Bool) (pool : Option String) (w : World) :
    (Unaltered w (serveRequest polled (.status pool) host w).2 ↔
      Answerable pool w ∨ RollsBackNothing host w) ∧
    (Answerable pool w → ∀ {α : Type} (rest : EngineM α), Oblivious rest →
      (rest host (serveRequest polled (.status pool) host w).2).1 = (rest host w).1 ∧
      Unaltered (rest host w).2 (rest host (serveRequest polled (.status pool) host w).2).2) := by
  refine ⟨?_, fun answerable α rest oblivious => ?_⟩
  · by_cases answerable : Answerable pool w
    · obtain ⟨new, final⟩ := status_answered host polled answerable
      refine iff_of_true ?_ (.inl answerable)
      rw [final]
      exact ⟨rfl, rfl⟩
    · rw [status_rejected host polled answerable, or_iff_right answerable]
  · obtain ⟨new, final⟩ := status_answered host polled answerable
    have respects := oblivious w.history (w.history ++ new)
    have twins := Twins.refl w (w.history ++ new)
    rw [final]
    refine ⟨(respects.result host twins).symm, ?_⟩
    obtain ⟨later, -, same⟩ := respects.final host twins
    rw [same]
    exact ⟨rfl, rfl⟩

/-- Two runs of a pool: the first one is seen busy, and perhaps, before this is saved, somebody
asks for the status of an unknown pool. -/
def Host.curious (asks : Bool) : Host :=
  .scripted [.sample [.sample "a" 2]] fun n answers =>
    let id := runId (.scripted 3) (.scripted 11)
    { answers with
      during := if asks ∧ n = 40 then [.request (.status (some "b"))] else []
      reply := fun op => match op with
        | .dockerList managerId =>
            if n = 36 then
              .ok [⟨some managerId, some id, some (Uuid.scripted 2).text, some "running", none⟩]
            else .ok []
        | .githubList _ _ _ _ => if n = 37 then .ok [⟨7, id, "online", true⟩] else .ok []
        | op => op.smooth }

/-- The phase of the first run. -/
def State.firstPhase (s : State) : Option Phase :=
  (s.runs[runId (.scripted 3) (.scripted 11)]?).map (·.phase)

/-- A pass over the pool that has listed both, the container of the first run and its
registration, which is busy. -/
def Pass.curious (p : PoolState) : Pass where
  name := "a"
  allowReplenish := true
  pool := .sample "a" 2
  ps := p
  managerId := .scripted 3
  auth := ⟨"env:TOKEN", none⟩
  containers := [⟨some (Uuid.scripted 3).text, some (runId (.scripted 3) (.scripted 11)),
    some (Uuid.scripted 2).text, some "running", none⟩]
  remotes := [⟨7, runId (.scripted 3) (.scripted 11), "online", true⟩]

/-- The pass after its visit of the first run. -/
def World.visited (w : World) (p : PoolState) : World :=
  (visitRun (.curious p) ⟨.empty, none⟩ (runId (.scripted 3) (.scripted 11)) (.curious false)
    { w with engine := { w.engine with reconcileEpoch := some w.engine.epoch } }).2

/-- The first run was seen busy, which is not saved yet.  The status of the pool is asked for
before the image for the second run is looked for; the visit of that run goes on as it would
have gone on without the request. -/
theorem status_read_only_sample : ∃ (w₀ w : World) (p : PoolState) (second : String),
    Reachable (.curious false) w₀ ∧ w₀.engine.state.pools["a"]? = some p ∧
      w = w₀.visited p ∧
      w.engine.state.firstPhase = some .busy ∧
      w.store.map State.firstPhase ≠ some w.engine.state.firstPhase ∧
      let w' := (serveRequest false (.status (some "a")) (.curious false) w).2
      let visit := visitRun (.curious p) ⟨.empty, none⟩ second
      (visit (.curious false) w).1.isOk = true ∧
        (visit (.curious false) w').1 = (visit (.curious false) w).1 ∧
        Unaltered (visit (.curious false) w).2 (visit (.curious false) w').2 := by
  obtain ⟨w₀, reachable, holds⟩ := @Host.reaches (.curious false) "" .blank
    [.request (.start (some "a") false), .tick, .tick]
    (fun w₀ => w₀.engine.state.pools["a"]?.any fun p =>
      let w := w₀.visited p
      (w.engine.state.pools.contains "a" && decide (w.engine.state.firstPhase = some .busy)) &&
        (decide (w.store.map State.firstPhase ≠ some w.engine.state.firstPhase) &&
        (visitRun (.curious p) ⟨.empty, none⟩ (runId (.scripted 3) (.scripted 29))
          (.curious false) w).1.isOk)) (by decide +kernel)
  obtain ⟨p, found, holds⟩ := (Option.any_eq_true ..).mp holds
  simp only [Bool.and_eq_true, decide_eq_true_eq] at holds
  obtain ⟨⟨known, busy⟩, unsaved, visits⟩ := holds
  have same := (status_read_only (.curious false) false (some "a") (w₀.visited p)).2
    (fun name asked => by cases asked; exact known)
    (visitRun (.curious p) ⟨.empty, none⟩ (runId (.scripted 3) (.scripted 29)))
    fun _ _ => inferInstance
  exact ⟨w₀, _, p, _, reachable, found, rfl, busy, unsaved, visits, same⟩

/-- A moment answered a request for the status of `name` with an error, the pool's phase changed. -/
def Moment.answersOtherPhase (name : String) (m : Moment) : Bool :=
  match m.event with
  | .handled true (.status (some asked)) before (.error _) =>
      asked == name && decide (m.state.firstPhase ≠ before.firstPhase)
  | _ => false

/-- The rollback of a rejected status request takes back what the pass has observed, and the
pass ends in another state than without the request. -/
theorem status_forgets : ∃ w : World, Reachable (.curious true) w ∧
    Restored (tick (.curious true) w).2.history ∧
    (∃ m ∈ (tick (.curious true) w).2.history, ∃ before error,
      m.event = .handled true (.status (some "b")) before (.error error) ∧ m.state ≠ before) ∧
    (tick (.curious true) w).2.engine.state ≠ (tick (.curious false) w).2.engine.state := by
  obtain ⟨w, reachable, holds⟩ := @Host.reaches (.curious true) "" .blank
    [.request (.start (some "a") false), .tick, .tick]
    (fun w =>
      let w' := (tick (.curious true) w).2
      decide (Restored w'.history) &&
        (w'.history.any (Moment.answersOtherPhase "b") &&
        decide (w'.engine.state.firstPhase ≠
          (tick (.curious false) w).2.engine.state.firstPhase))) (by decide +kernel)
  simp only [Bool.and_eq_true, decide_eq_true_eq, List.any_eq_true] at holds
  obtain ⟨restored, ⟨m, member, lost⟩, other⟩ := holds
  refine ⟨w, reachable, restored, ⟨m, member, ?_⟩,
    fun same => other (congrArg State.firstPhase same)⟩
  unfold Moment.answersOtherPhase at lost
  split at lost
  · next asked before error event =>
      simp only [Bool.and_eq_true, beq_iff_eq] at lost
      obtain ⟨rfl, lost⟩ := lost
      exact ⟨before, error, event, fun same =>
        of_decide_eq_true lost (congrArg State.firstPhase same)⟩
  · exact absurd lost Bool.false_ne_true

end Status

end Runnerctl
