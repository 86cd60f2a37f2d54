import Runnerctl.Model.Reconcile

/-!
# The manager

`Engine::tick`, and the executions of `serve`: requests between ticks, ticks, edits
of `config.toml`, and restarts after a crash at any point.
-/

namespace Runnerctl

open Std Program

def unexpectedExitError : String :=
  "runner exited before completing a job; inspect archived diagnostics"

def maxRetrySeconds : Nat := 600

/-- `retry_delay`. -/
def retryDelay (failures jitter : Nat) : Nat :=
  let base := min (5 * 2 ^ min failures 7) maxRetrySeconds
  min (base + min jitter 6) maxRetrySeconds

/-- `replenishment_allowed`. -/
def replenishmentAllowed (retryAt at_ : Nat) : Bool := decide (retryAt ≤ at_)

/-- `Engine::record_failure`. -/
def recordFailure (name : String) (error : String) (scope : RetryScope) :
    EngineM Unit := do
  let at_ ← now
  let p ← context (← getState).pools[name]? (.msg "pool disappeared")
  if decide (at_ < p.retryAt) && p.retryScope == scope then pure ()
  else do
    let failures := min (p.failures + 1) (2 ^ 32 - 1)
    let answers ← consult
    let jitter := answers.byte.val % 7
    setState ((← getState).setPool name
      { p with
        failures := failures
        retryAt := at_ + retryDelay failures jitter
        retryScope := scope
        error := some error })
    record (.failed name scope)

/-- After an observation failure the last known phase is not evidence. -/
def State.forgetPhases (state : State) (poolId : String) : State :=
  { state with
    runs := state.runs.map fun _ r =>
      if r.poolId == poolId &&
          (r.phase == .idle || r.phase == .busy || r.phase == .starting) then
        { r with phase := .unknown }
      else r }

/-- The end of a tick: set `observed_at` and save. -/
def finishTick (name : String) : EngineM Unit := do
  match (← getState).pools[name]? with
  | some p => do
      let at_ ← now
      setState ((← getState).setPool name { p with observedAt := at_ })
  | none => pure ()
  save

/-- What `tick` does with the outcome of a pass that no request interrupted. -/
def settle (name : String) (retrying : Bool) (result : Except Error ReconcileReport) :
    EngineM Unit := do
  match result with
  | .ok report => do
      if 0 < report.unexpectedExits then
        recordFailure name unexpectedExitError .provisioning
      else if retrying then pure ()
      else match (← getState).pools[name]? with
        | some p =>
            setState ((← getState).setPool name { p with error := none, retryAt := 0 })
        | none => pure ()
      finishTick name
  | .error .interrupted => save
  | .error error => do
      recordFailure name error.text .observation
      match (← getState).pools[name]? with
      | some p => setState ((← getState).forgetPhases p.id)
      | none => pure ()
      finishTick name

/-- `Engine::tick` from the choice of a pool on. -/
def tickPool (name : String) : EngineM Unit := do
  let at_ ← now
  let p ← poolOf name
  let retrying := decide (at_ < p.retryAt)
  if retrying && p.retryScope == .observation then pure ()
  else do
    record (.passStarted name at_ p.retryAt)
    -- unexpected exits delay provisioning, not observation or cleanup
    modify fun w =>
      { w with engine := { w.engine with reconcileEpoch := some w.engine.epoch } }
    let result ← attempt (reconcile name (replenishmentAllowed p.retryAt at_))
    let interrupted := (← engine).interrupted
    modify fun w => { w with engine := { w.engine with reconcileEpoch := none } }
    if interrupted then save else settle name retrying result

/-- `Engine::tick`. -/
def tick : EngineM Unit := do
  let names := (← getState).pools.keys
  match names[(← engine).cursor % names.length]? with
  | none => pure ()  -- there is no pool
  | some name => do
      modify fun w => { w with engine := { w.engine with cursor := w.engine.cursor + 1 } }
      tickPool name

/-! ## Executions -/

/-- The world in which a manager is started for the first time. -/
def World.install (text : String) (blank : Engine) : World where
  engine := blank
  store := none
  file := some text
  clock := 0
  asked := 0
  history := []

/-- What the manager does between two turns of the loop of `serve`. -/
inductive Turn (host : Host) (before : World) : World → Prop where
  | request (request : Request) :
      Turn host before (serveRequest true request host before).2
  | tick : Turn host before (Runnerctl.tick host before).2

/-- What is left of `before` when the process dies during a turn, at one of its
moments `m`, or before the first one. -/
inductive Crash (before after : World) : World → Prop where
  | early (effect : Bool) :
      Crash before after
        (World.log { before with asked := after.asked } (.crashed effect))
  | late (first : List Moment) (m : Moment) (rest : List Moment) (effect : Bool)
      (cut : after.history = before.history ++ first ++ m :: rest) :
      Crash before after
        (World.log
          { after with
            store := m.store
            file := m.file
            clock := m.clock
            history := before.history ++ first ++ [m] }
          (.crashed effect))

/-- The worlds in which a request or a tick begins. -/
inductive Reachable (host : Host) : World → Prop where
  | start {text : String} {blank : Engine} {after : World} :
      openEngine host (.install text blank) = (.ok (), after) → Reachable host after
  | request {before after : World} (request : Request) :
      Reachable host before → serveRequest true request host before = (.ok (), after) →
      Reachable host after
  | tick {before after : World} :
      Reachable host before → tick host before = (.ok (), after) → Reachable host after
  | edit {before : World} (text : Option String) :
      Reachable host before →
      Reachable host (World.log { before with file := text } .edited)
  | restart {before after dead opened : World} :
      Reachable host before → Turn host before after → Crash before after dead →
      openEngine host dead = (.ok (), opened) → Reachable host opened

end Runnerctl
