import Runnerctl.Metatheory.Readiness
import Runnerctl.Model.Manager

/-!
# The steps of a tick

`Step` says what the manager can do from one moment to the next, with everything that
guards it.  A tick is a run of such steps; what every tick preserves is proved by cases
on `Step`.
-/

namespace Runnerctl

open Std Program Journal

namespace Event

/-- Events that concern neither the recorded runs nor the order of a pass, and leave the
store and `config.toml` as they are. -/
def plain : Event → Bool
  | .ended _ _ | .file _ _ | .looked _ _ | .readConfig _ | .wroteConfig _ false | .cleared
  | .saved false => true
  | _ => false

/-- A request was handled at an await that had been polled. -/
def polled : Event → Bool
  | .handled polled _ _ _ => polled
  | _ => false

end Event

/-- No mutation was handled in the current pass, if failed requests are read back. -/
def Undisturbed (moments : List Moment) : Prop :=
  Restored moments → ∀ m ∈ moments, m.mutation = false

/-- What an operation relies on when it begins. -/
def Licensed (w : World) : Op → Prop
  | .dockerList manager => manager = w.engine.state.managerId.text
  | .dockerRemove id true => Begun w id ∧ ∃ run, w.engine.state.runs[id]? = some run ∧
      (Restored w.history → run.force = true)
  | .dockerRemove id false => Begun w id ∧ ∃ run containers container,
      w.engine.state.runs[id]? = some run ∧
        lastListing (currentPass w.history) = some containers ∧ container ∈ containers ∧
          container.owned w.engine.state.managerId.text run = true ∧ container.live = false
  | .dockerCreate managerId run => managerId = w.engine.state.managerId.text ∧
      (∀ m ∈ currentPass w.history, m.raises run.id = false) ∧
        (∃ containers, lastListing (currentPass w.history) = some containers ∧
          ∀ container ∈ containers, container.owned managerId run = false) ∧
          ∃ recorded, w.engine.state.runs[run.id]? = some recorded ∧
            recorded.key = run.key ∧ recorded.phase = .creating
  | .dockerStart id => (∀ m ∈ currentPass w.history, m.launches id = false) ∧
      ∃ run, w.engine.state.runs[id]? = some run ∧
        ((∃ containers container, lastListing (currentPass w.history) = some containers ∧
            container ∈ containers ∧
            container.owned w.engine.state.managerId.text run = true ∧
            container.status = some "created") ∨
          ∃ m ∈ currentPass w.history, ∃ managerId created,
            m.event = .ended (.dockerCreate managerId created) (.ok ()) ∧ created.id = id)
  | _ => True

/-- What `replenish` has checked when it records a run. -/
structure Provisions (w : World) (run : Run) : Prop where
  pass : ∃ name at_ retryAt p, passHead w.history = some (name, at_, retryAt) ∧
    retryAt ≤ at_ ∧ w.engine.state.pools[name]? = some p ∧ p.id = run.poolId ∧
    p.running = true ∧ p.deleting = false ∧ p.generation = run.generation ∧
    w.engine.state.config.pool? name = some run.pool ∧
    (w.engine.state.runsOf p.id).length < run.pool.replicas
  capacity : ∃ s containers,
    (listings (currentPass w.history)).head? = some (s, containers) ∧
    w.engine.state.runs.size + unknownContainers s containers <
      w.engine.state.config.manager.maxRunners

/-- The last thing that happened, but for the commit of a deletion, was a look at
`config.toml` that found no unapplied changes. -/
def Checked (host : Host) (w : World) : Prop :=
  ∃ before m between, currentPass w.history = before ++ m :: between ∧
    m.event = .readConfig true ∧ m.file = w.file ∧ Clean host m.file m.state ∧
    ∀ m' ∈ between, m'.deletes = true ∨ m'.event = .saved true

/-- The last pass is over the pool. -/
def World.TurnedTo (w : World) (name : String) : Prop :=
  ∃ at_ retryAt, passHead w.history = some (name, at_, retryAt)

/-- What `record_failure` notes about a pool. -/
def PoolState.failed (p : PoolState) (scope : RetryScope) (error : String) (at_ jitter : Nat) :
    PoolState :=
  let failures := min (p.failures + 1) (2 ^ 32 - 1)
  { p with
    failures := failures
    retryAt := at_ + retryDelay failures jitter
    retryScope := scope
    error := some error }

/-- What a tick notes about a pool, apart from failures. -/
inductive Noted (w : World) (name : String) (p : PoolState) : PoolState → Prop where
  | observed (at_ : Nat) : Noted w name p { p with observedAt := at_ }
  /-- The pass succeeded, and the pool was not paused. -/
  | cleared {at_ retryAt : Nat} : passHead w.history = some (name, at_, retryAt) →
      retryAt ≤ at_ → (Restored w.history → p.retryAt ≤ at_) →
      Noted w name p { p with error := none, retryAt := 0 }

theorem Noted.wish {w : World} {name : String} {p p' : PoolState} (noted : Noted w name p p') :
    p'.wish = p.wish := by
  cases noted <;> rfl

/-- The state without a run.  A completed job resets the failures of its pool. -/
def State.dropRun (s : State) (name : String) (p : PoolState) (run : Run) : State where
  managerId := s.managerId
  revision := s.revision
  config := s.config
  fileHash := s.fileHash
  pools := if run.completedJob then s.pools.insert name { p with failures := 0 } else s.pools
  runs := s.runs.erase run.id

/-- A request at an await ended with a panic. -/
def Panicked (host : Host) (w w' : World) : Prop :=
  Ready host w ∧ ∃ request, Pending host request w w' ∧ ¬ w.engine.state.Indexed

/-- One step of a tick. -/
inductive Step (host : Host) (w : World) : World → Prop where
  | silent {w' : World} :
      w'.engine.state = w.engine.state → w'.store = w.store → w'.file = w.file →
      w'.history = w.history → w'.engine.reconcileEpoch = w.engine.reconcileEpoch →
      w.asked ≤ w'.asked → w.clock ≤ w'.clock → Step host w w'
  /-- A pass over a pool begins. -/
  | enter {name : String} {p : PoolState} :
      Ready host w → w.engine.state.pools[name]? = some p →
      Step host w { w.log (.passStarted name w.clock p.retryAt) with
        engine := { w.engine with reconcileEpoch := some w.engine.epoch } }
  | leave : Step host w { w with engine := { w.engine with reconcileEpoch := none } }
  | log {event : Event} : event.plain = true → Step host w (w.log event)
  /-- A request is handled at an await. -/
  | serve {polled : Bool} {request : Request} {w' : World} :
      Ready host w → Served host polled request w w' → Step host w w'
  /-- Somebody edits `config.toml`. -/
  | edit (text : Option String) : Step host w ((w.withFile text).log .edited)
  /-- An operation begins.  Since the manager checked that nothing disturbed the pass,
  only requests were handled that found the operation not polled yet. -/
  | begin {op : Op} {before queued : List Moment} :
      Ready host w → Licensed w op → currentPass w.history = before ++ queued →
      Undisturbed before → (∀ m ∈ queued, m.event.polled = false) →
      Step host w (w.log (.began op))
  /-- A run is written back with what was observed. -/
  | observe {id : String} {run recorded : Run} :
      w.engine.state.runs[id]? = some recorded → run.key = recorded.key →
      (Restored w.history → run.forget = recorded.forget) →
      (¬ Undisturbed (currentPass w.history) → run.forget = recorded.forget) →
      (run.phase = .creating → recorded.phase = .creating) →
      Step host w (w.setState (w.engine.state.setRun id run))
  /-- A failed observation invalidates the phases. -/
  | forget (poolId : String) : Step host w (w.setState (w.engine.state.forgetPhases poolId))
  | drain {s : State} :
      Undisturbed (currentPass w.history) → w.engine.state.Drained s →
      Step host w (w.setState s)
  /-- The outcome of the pass is noted. -/
  | note {name : String} {p p' : PoolState} :
      w.engine.reconcileEpoch = none → Undisturbed (currentPass w.history) →
      w.engine.state.pools[name]? = some p → Noted w name p p' →
      Step host w (w.setState (w.engine.state.setPool name p'))
  /-- A failure is recorded, after looks at the clock and at the dice. -/
  | fail {name error : String} {scope : RetryScope} {p : PoolState} {jitter : Nat} :
      w.engine.reconcileEpoch = none → Undisturbed (currentPass w.history) →
      w.TurnedTo name → w.engine.state.pools[name]? = some p → jitter ≤ 6 →
      ¬ ((w.advance host).clock < p.retryAt ∧ p.retryScope = scope) →
      (scope = .provisioning → 0 < exits (currentPass w.history) ∧
        (Restored w.history → Fresh host w.asked → p.running = true ∧ p.deleting = false)) →
      Step host w ((((w.advance host).advance host).setState (w.engine.state.setPool name
        (p.failed scope error (w.advance host).clock jitter))).log (.failed name scope))
  | save : Savable host w w.engine.state → halfDeleted (currentPass w.history) = false →
      Step host w ((w.withStore w.engine.state).log (.saved true))
  | drop {name : String} {run recorded : Run} {interrupted : Bool} {p : PoolState} :
      Undisturbed (currentPass w.history) →
      (∀ m ∈ currentPass w.history, m.births = false) →
      w.engine.state.runs[run.id]? = some recorded → run.key = recorded.key →
      Forgotten w.engine.state.managerId run (currentPass w.history) →
      Judged host w.engine.state.managerId run interrupted (currentPass w.history) →
      (run.completedJob = true → w.TurnedTo name ∧ w.engine.state.pools[name]? = some p ∧
        (Restored w.history → p.id = run.poolId)) →
      Step host w ((w.setState (w.engine.state.dropRun name p run)).log
        (.droppedRun run interrupted))
  /-- A run is recorded under a fresh id, after a look at the clock. -/
  | record {run : Run} :
      Undisturbed (currentPass w.history) →
      (∀ m ∈ currentPass w.history, m.births = false) →
      run.id = runId w.engine.state.managerId (host.answers w.asked).uuid →
      run.force = false → run.retiring = false →
      (Restored w.history → Provisions w run) →
      Step host w ((((w.advance host).advance host).setState
        (w.engine.state.setRun run.id run)).log (.newRun run))
  /-- A pool is deleted in memory, before its deletion is committed. -/
  | delete {name : String} :
      Undisturbed (currentPass w.history) → Clean host w.file w.engine.state →
      (Restored w.history → Fresh host w.asked → ∃ p,
        w.engine.state.pools[name]? = some p ∧ p.deleting = true ∧
          w.engine.state.hasRuns p.id = false) →
      Step host w ((w.log (.finalising name)).setState
        { w.engine.state with pools := w.engine.state.pools.erase name })
  | commit {name : String} {c : State} :
      Undisturbed (currentPass w.history) → Checked host w →
      (∃ before m, w.history = before ++ [m] ∧ m.event = .finalising name) →
      Committed host w.engine.state (w.engine.state.config.without name) c →
      Savable host w c → Step host w (((w.withStore c).log (.saved true)).setState c)
  | write (text : String) :
      Checked host w → Step host w ((w.withFile (some text)).log (.wroteConfig w.file true))

/-- A run of steps. -/
abbrev Steps (host : Host) : World → World → Prop := Relation.ReflTransGen (Step host)

section Steps

variable {host : Host} {w w' : World}

/-- Questions, clock and history only grow. -/
structure Advances (w w' : World) : Prop where
  asked : w.asked ≤ w'.asked
  clock : w.clock ≤ w'.clock
  history : w.history <+: w'.history

theorem Advances.refl (w : World) : Advances w w := ⟨le_rfl, le_rfl, List.prefix_refl _⟩

theorem Advances.trans {w'' : World} (first : Advances w w') (second : Advances w' w'') :
    Advances w w'' :=
  ⟨first.asked.trans second.asked, first.clock.trans second.clock,
    first.history.trans second.history⟩

theorem Step.advances (step : Step host w w') : Advances w w' := by
  cases step with
  | silent _ _ _ history _ asked clock => exact ⟨asked, clock, history ▸ List.prefix_refl _⟩
  | serve _ served => exact ⟨served.asked, served.clock, served.history.isPrefix⟩
  | fail | record => exact ⟨Nat.le_add_right _ 2,
      Nat.le_add_right_of_le (Nat.le_add_right _ _), List.prefix_append _ _⟩
  | leave | observe | forget | drain | note => exact ⟨le_rfl, le_rfl, List.prefix_refl _⟩
  | enter | edit | log | begin | save | drop | delete | commit | write =>
      exact ⟨le_rfl, le_rfl, List.prefix_append _ _⟩

/-- Memory and the store stay those of the manager. -/
theorem Step.belongs (step : Step host w w') {managerId : Uuid} (belongs : w.Belongs managerId) :
    w'.Belongs managerId := by
  cases step with
  | silent state store => exact ⟨state ▸ belongs.1, store ▸ belongs.2⟩
  | serve _ served => exact served.belongs belongs
  | drain _ drained => exact ⟨drained.managerId.trans belongs.1, belongs.2⟩
  | save => exact ⟨belongs.1, fun t stored => by cases stored; exact belongs.1⟩
  | commit _ _ _ committed =>
      obtain ⟨-, text, -, rfl⟩ := committed
      exact ⟨belongs.1, fun t stored => by cases stored; exact belongs.1⟩
  | enter | leave | log | edit | begin | observe | forget | note | fail | drop | record | delete
  | write => exact belongs

theorem Steps.advances (steps : Steps host w w') : Advances w w' := by
  induction steps with
  | refl => exact .refl w
  | tail _ step inductionHypothesis => exact inductionHypothesis.trans step.advances

end Steps

end Runnerctl
