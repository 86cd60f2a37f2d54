import Runnerctl.Model.Engine

/-!
# Control requests

`Engine::handle_inner`, one definition for each kind of request, and
`Engine::handle_local` with its rollback.
-/

namespace Runnerctl

open Std Program

/-- `Engine::targets`. -/
def targets (pool : Option String) (all : Bool) : EngineM (List String) := do
  require (pool.isSome != all) "specify a pool or --all"
  match pool with
  | some pool => do
      require ((← getState).pools.contains pool) ("unknown pool: " ++ pool)
      return [pool]
  | none => return (← getState).pools.keys

/-- `self.state.pools[name]`, or `get_mut(name).unwrap()`. -/
def poolOf (name : String) : EngineM PoolState := do
  unwrap (← getState).pools[name]?

/-- `Engine::mark_retiring`. -/
def markRetiring (name : String) : EngineM Unit := do
  setState (← unwrap ((← getState).markRetiring name))

def handleStatus (pool : Option String) : EngineM Response := do
  match pool with
  | some p => require ((← getState).pools.contains p) ("unknown pool: " ++ p)
  | none => pure ()
  let state ← getState
  let pools ← (state.config.pools.filter fun p => pool.all (· == p.name)).mapM
    fun p => do
      let ps ← poolOf p.name
      return poolStatus p ps (state.runsOf ps.id)
  return .status state.revision pools

def handleAdd (pool : Pool) : EngineM Response := do
  let state ← getState
  require (!state.pools.contains pool.name) "pool already exists"
  let next : Config := { state.config with pools := state.config.pools ++ [pool] }
  liftExcept next.validate
  let answers ← consult
  setState (state.setPool pool.name (PoolState.default answers.uuid))
  commitConfig next
  return .added pool.name

/-- What `Start` does to one target. -/
def startPool (name : String) : EngineM Unit := do
  let p ← poolOf name
  setState ((← getState).setPool name
    { p with running := true, retryAt := 0, failures := 0, error := none })

def handleStart (pool : Option String) (all : Bool) : EngineM Response := do
  let names ← targets pool all
  names.forM fun n => do
    require (!(← poolOf n).deleting) "a target pool is being deleted"
  names.forM startPool
  clearGithub
  save
  return .started names

/-- What `Stop` does to one target. -/
def stopPool (force : Bool) (name : String) : EngineM Unit := do
  let p ← poolOf name
  let state := (← getState).setPool name
    { p with running := false, retryAt := if force then 0 else p.retryAt }
  setState (state.retireRuns p.id force)

def handleStop (pool : Option String) (all force : Bool) : EngineM Response := do
  let names ← targets pool all
  names.forM (stopPool force)
  save
  let state ← getState
  -- every target was found above, so no index fails here
  let pending := names.any fun n => state.pools[n]?.any fun p => state.hasRuns p.id
  return .stopped names pending force

/-- Update the first entry of a pool: `pools.iter_mut().find(..)`. -/
def updateFirst (name : String) (update : Pool → Pool) : List Pool → List Pool
  | [] => []
  | p :: rest =>
      if p.name == name then update p :: rest else p :: updateFirst name update rest

def handleScale (pool : String) (replicas : Nat) : EngineM Response := do
  let state ← getState
  let _ ← context (state.config.pool? pool) (.msg "unknown pool")
  require (!(← poolOf pool).deleting) "pool is being deleted"
  commitConfig { state.config with
    pools := updateFirst pool (fun p => { p with replicas }) state.config.pools }
  markRetiring pool
  save
  return .scaled pool replicas

def handleUpgrade (pool image : String) : EngineM Response := do
  let state ← getState
  let _ ← context (state.config.pool? pool) (.msg "unknown pool")
  require (!(← poolOf pool).deleting) "pool is being deleted"
  let next : Config := { state.config with
    pools := updateFirst pool (fun p => { p with image }) state.config.pools }
  liftExcept next.validate
  let ps ← poolOf pool
  setState (state.setPool pool { ps with generation := ps.generation + 1 })
  commitConfig next
  markRetiring pool
  save
  return .upgrading pool

def handleRemove (pool : String) (force : Bool) : EngineM Response := do
  let state ← getState
  let p ← context state.pools[pool]? (.msg "unknown pool")
  let state := state.setPool pool
    { p with running := false, deleting := true, retryAt := if force then 0 else p.retryAt }
  setState (state.retireRuns p.id force)
  save
  return .removing pool force

/-- Reset the retry state of the pools that use a profile. -/
def State.resetProfile (state : State) (profile : String) : State :=
  { state with
    pools := state.pools.map fun name p =>
      if state.config.pools.any (fun c => c.name == name && c.auth == profile) then
        { p with retryAt := 0, error := none, failures := 0 }
      else p }

def handleAuth (profile credential : String) (app : Option AppAuth) :
    EngineM Response := do
  require (validName profile) "invalid profile"
  let state ← getState
  commitConfig { state.config with
    auth := state.config.auth.insert profile { credential, app } }
  setState ((← getState).resetProfile profile)
  save
  return .authenticated profile

/-- The fields of a pool whose change starts a new generation. -/
def Pool.sameRunner (old new : Pool) : Bool :=
  old.image == new.image && old.labels == new.labels &&
    old.runnerGroup == new.runnerGroup && old.dockerSocket == new.dockerSocket &&
    old.allowPrivilegeEscalation == new.allowPrivilegeEscalation &&
    old.cpus == new.cpus && old.memory == new.memory

/-- The guards of `Apply` for one entry of the new configuration, and its effect on
the pool states. -/
def applyPool (state : State) (pools : ExtTreeMap String PoolState) (new : Pool) :
    EngineM (ExtTreeMap String PoolState) := do
  match state.config.pool? new.name with
  | some old => do
      let ps ← unwrap pools[new.name]?
      require (!ps.deleting) "cannot edit a deleting pool"
      if old.apiScope != new.apiScope || old.auth != new.auth then
        require (!ps.running && !state.hasRuns ps.id)
          "stop and fully clean pool before changing scope/auth"
      else pure ()
      if old.sameRunner new then return pools
      else return pools.insert new.name { ps with generation := ps.generation + 1 }
  | none => do
      let answers ← consult
      return pools.insert new.name (PoolState.default answers.uuid)

def handleApply (text : String) (revision : Nat) : EngineM Response := do
  let state ← getState
  require (state.revision == revision) "stale revision; read status and retry"
  require ((← readConfig) == text) "config changed while applying; retry"
  let next ← parseConfig text
  require (state.config.pools.all fun p => next.pools.any (·.name == p.name))
    "use pool remove to drain and delete pools before removing configuration"
  let pools ← next.pools.foldlM (applyPool state) state.pools
  require ((TreeMap.values state.runs).all fun run => next.auth.contains run.pool.auth)
    "auth profile still required for cleanup"
  setState { state with pools }
  commitConfig next
  (← getState).pools.keys.forM markRetiring
  save
  return .applied (← getState).revision

/-- `Engine::handle_inner`. -/
def handleInner (request : Request) : EngineM Response := do
  if request.changesConfig then cleanFile else pure ()
  match request with
  | .status pool => handleStatus pool
  | .add pool => handleAdd pool
  | .start pool all => handleStart pool all
  | .stop pool all force => handleStop pool all force
  | .scale pool replicas => handleScale pool replicas
  | .upgrade pool image => handleUpgrade pool image
  | .remove pool force => handleRemove pool force
  | .auth profile credential app => handleAuth profile credential app
  | .apply text revision => handleApply text revision
  | .logs _ _ | .doctor => fail "external request must use the query handler"

/-- `Engine::handle_local`.  A read-back that fails ends the function before the
epoch is advanced.  The epoch is a `u64` that wraps; it would take 2^64 requests
within one pass to matter. -/
def handleLocal (request : Request) : EngineM Response := do
  let result ← attempt (handleInner request)
  match result with
  | .ok _ => pure ()
  | .error _ => do
      -- a failed mutation must not leave uncommitted changes in memory
      setState (← readBack)
      publish
  if request.mutating then
    -- even a failed file write can follow a successful SQLite commit
    modify fun w => { w with engine := { w.engine with epoch := w.engine.epoch + 1 } }
  else pure ()
  liftExcept result

/-- Handle the request of an envelope and send its reply. -/
def serveRequest (polled : Bool) (request : Request) : EngineM Unit := do
  let before ← getState
  record (.received request)
  let result ← attempt (handleLocal request)
  record (.handled polled request before result)

/-- What happens at an await. -/
def happen (polled : Bool) : Happening → EngineM Unit
  | .request request => serveRequest polled request
  | .edit text => do
      modify fun w => { w with file := text }
      record .edited

/-- Whether a mutation was handled since the pass began:
`reconcile_epoch.is_some_and(|e| e != epoch)`. -/
def Engine.interrupted (engine : Engine) : Bool :=
  engine.reconcileEpoch.any (· != engine.epoch)

/-- `Engine::external`.  The future is lazy and `select!` picks the branch it polls
first at random, so queued requests may be handled before the operation starts. -/
def external (op : Op) : EngineM op.Reply := do
  if (← engine).interrupted then throw .interrupted
  else do
    let answers ← consult
    answers.early.forM (happen false)
    record (.began op)
    answers.during.forM (happen true)
    let reply := answers.reply op
    record (.ended op reply)
    if (← engine).interrupted then throw .interrupted
    else match reply with
      | .ok value => return value
      | .error failure => fail failure

end Runnerctl
