import Runnerctl.Model.Requests

/-!
# Reconciliation

`Engine::reconcile`: one pass over one pool.  The body is cut at the loops of the
source; `Pass` holds the local variables that the per-run loop reads.
-/

namespace Runnerctl

open Std Program

/-- `ReconcileReport`. -/
structure ReconcileReport where
  unexpectedExits : Nat
  deriving DecidableEq

def ReconcileReport.empty : ReconcileReport := ⟨0⟩

/-- A host reboot stops every runner at once; that is not evidence of a broken
image. -/
def ReconcileReport.noteExit (report : ReconcileReport) (run : Run)
    (interrupted : Bool) : ReconcileReport :=
  if unexpectedExit run && !interrupted then ⟨report.unexpectedExits + 1⟩ else report

/-- `self.state.runs.insert(id, run)`. -/
def insertRun (id : String) (run : Run) : EngineM Unit := do
  setState ((← getState).setRun id run)

/-- `started_at`. -/
def startedAt (container : Container) : EngineM (Option Nat) := do
  return container.startedAt.bind (← ask).parseRfc3339

/-- `started_before_boot`. -/
def startedBeforeBoot (container : Container) (bootTime : Option Nat) : EngineM Bool := do
  let started ← startedAt container
  return bootTime.any fun bootTime => started.any (· < bootTime)

/-- `Engine::stopped_by_reboot`. -/
def stoppedByReboot (container : Container) (image : String) : EngineM Bool := do
  if (← startedAt container).isSome &&
      !(← startedBeforeBoot container (← engine).bootTime) then
    match ← attempt (external (.dockerBootTime image)) with
    | .ok bootTime =>
        modify fun w => { w with engine := { w.engine with bootTime := some bootTime } }
    | .error .interrupted => throw .interrupted
    -- without a boot time the exit counts as a failure
    | .error (.msg _) => pure ()
  else pure ()
  startedBeforeBoot container (← engine).bootTime

/-- The container was started at least once. -/
def Container.everStarted (container : Container) : Bool :=
  container.startedAt.any fun s => !"0001-".toList.isPrefixOf s.toList

/-- `Engine::archive`; the updated run is returned. -/
def archive (run : Run) (container : Container) : EngineM Run := do
  if run.logSaved then return run
  else do
    let _ ← external (.dockerLogs run.id)
    fileOp (.writeLog run.id)
    if container.everStarted then external (.dockerArchive run.id) else pure ()
    let run := { run with logSaved := true }
    insertRun run.id run
    save
    return run

/-- The retention check of `expire_logs` for one file. -/
def expireLog (age : Nat) (entry : LogEntry) : EngineM Unit := do
  if !entry.readable then fail (← consult).failure
  else if entry.isFile && decide (age * 10 ^ 9 < entry.age) then
    if (← getState).runs.keys.any fun id => id.toList.isPrefixOf entry.name.toList then
      pure ()
    else fileOp (.removeLog entry.name)
  else pure ()

/-- `Engine::expire_logs`. -/
def expireLogs : EngineM Unit := do
  let days := (← getState).config.manager.logRetentionDays
  let answers ← consult
  if answers.succeeds then
    answers.logs.forM (expireLog (min (days * 86400) (2 ^ 64 - 1)))
  else fail answers.failure

/-- The deletion of a pool without runs. -/
def finaliseDeletion (name : String) : EngineM Unit := do
  cleanFile
  let state ← getState
  let next := state.config.without name
  record (.finalising name)
  setState { state with pools := state.pools.erase name }
  commitConfig next

/-- One turn of the loop over forced runs. -/
def forceRun (containers : List Container) (run : Run) : EngineM Unit := do
  let managerId := (← getState).managerId
  match containers.find? (·.owned managerId.text run) with
  | none => pure ()
  | some container => do
      let run := { run with phase := .cleanup }
      insertRun run.id run
      save
      let _ ← archive run container
      external (.dockerRemove run.id true)

/-- Local variables of a pass that the per-run loop reads. -/
structure Pass where
  name : String
  allowReplenish : Bool
  pool : Pool
  ps : PoolState
  managerId : Uuid
  auth : Auth
  containers : List Container
  remotes : List RemoteRunner

/-- `report` and `cleanup_error`. -/
structure Progress where
  report : ReconcileReport
  cleanupError : Option Error

/-- `cleanup_error.get_or_insert(error)`. -/
def Progress.collect (progress : Progress) (error : Error) : Progress :=
  { progress with cleanupError := some (progress.cleanupError.getD error) }

/-- The container of a created runner is started. -/
def startCreated (pass : Pass) (id : String) (run : Run) : EngineM Unit := do
  -- the token might have expired during manager downtime
  let _ ← external (.githubToken pass.pool.auth pass.auth pass.pool.apiScope)
  fileOp (.writeToken id)
  external (.dockerStart id)
  insertRun id { run with phase := .starting }
  save

/-- The container of a recorded run is created and started. -/
def createRecorded (pass : Pass) (id : String) (run : Run) : EngineM Unit := do
  -- the run was saved before; the deterministic name recovers retries
  external (.dockerImage run.pool.image)
  fileOp (.secureDir id)
  let _ ← external (.githubToken pass.pool.auth pass.auth pass.pool.apiScope)
  fileOp (.writeToken id)
  external (.dockerCreate pass.managerId.text run)
  external (.dockerStart id)
  insertRun id { run with phase := .starting }
  save

/-- Archive and remove a stopped container. -/
def removeStopped (id : String) (run : Run) (container : Container) : EngineM Run := do
  let run ← archive run container
  external (.dockerRemove id false)
  return run

/-- Remove the registration that is left of a run without a container. -/
def deregister (pass : Pass) (id : String) : EngineM Unit := do
  let fresh ← external (.githubList pass.pool.auth pass.auth pass.pool.apiScope 0)
  match fresh.find? (·.name == id) with
  | some remote =>
      external (.githubRemove pass.pool.auth pass.auth pass.pool.apiScope remote.id)
  | none => pure ()

/-- Remove the directory of a run, repairing its permissions once. -/
def removeDirectory (id : String) (run : Run) : EngineM Unit := do
  if ← pathExists (.directory id) then
    match ← attempt (fileOp (.removeDir id)) with
    | .ok _ => pure ()
    | .error error =>
        if run.pool.dockerSocket then do
          external (.dockerRepair run)
          fileOp (.removeDir id)
        else throw error
  else pure ()

/-- A completed job resets the failures of its pool. -/
def resetFailures (name : String) : EngineM Unit := do
  let p ← poolOf name
  setState ((← getState).setPool name { p with failures := 0 })

/-- Forget a run whose container, registration and directory are gone. -/
def dropRun (pass : Pass) (id : String) (run : Run) (interrupted : Bool)
    (progress : Progress) : EngineM Progress := do
  if run.completedJob then resetFailures pass.name else pure ()
  let state ← getState
  setState { state with runs := state.runs.erase id }
  record (.droppedRun run interrupted)
  save
  return { progress with report := progress.report.noteExit run interrupted }

/-- The end of the loop body: no live container remains. -/
def finishRun (pass : Pass) (id : String) (run : Run) (interrupted : Bool)
    (progress : Progress) : EngineM Progress := do
  match ← attempt (do deregister pass id; removeDirectory id run) with
  | .error error => return progress.collect error
  | .ok _ => dropRun pass id run interrupted progress

/-- A run whose container has stopped. -/
def cleanStopped (pass : Pass) (id : String) (run : Run) (container : Container)
    (progress : Progress) : EngineM Progress := do
  let completed ← pathExists (.completed id)
  let run := { run with completedJob := completed }
  let interrupted ←
    if unexpectedExit run then stoppedByReboot container run.pool.image else pure false
  let run := { run with phase := .cleanup }
  insertRun id run
  save
  match ← attempt (removeStopped id run container) with
  | .error error => return progress.collect error
  | .ok run => finishRun pass id run interrupted progress

/-- The body of the loop over the runs of the pool from the look for a container on.
`run` is the clone of the record with the id of its registration. -/
def visitClone (pass : Pass) (progress : Progress) (managerId : Uuid) (id : String)
    (run : Run) (remote : Option RemoteRunner) : EngineM Progress := do
  match pass.containers.find? (·.owned managerId.text run) with
  | some container =>
      if container.live then do
        let run := { run with phase := observedPhase remote }
        if remote.isSome then discard (attempt (fileOp (.removeToken id))) else pure ()
        insertRun id run
        return progress
      else if container.status == some "created" && !run.retiring then do
        if pass.allowReplenish then startCreated pass id run else insertRun id run
        return progress
      else cleanStopped pass id run container progress
  | none =>
      if run.phase == .creating && !run.retiring then do
        if pass.allowReplenish then createRecorded pass id run else insertRun id run
        return progress
      else finishRun pass id run false progress

/-- The body of the loop over the runs of the pool. -/
def visitRun (pass : Pass) (progress : Progress) (id : String) : EngineM Progress := do
  let state ← getState
  let run ← unwrap state.runs[id]?
  let remote := pass.remotes.find? (·.name == id)
  let run := { run with remoteId := (remote.map (·.id)).or run.remoteId }
  visitClone pass progress state.managerId id run remote

/-- Record a new run; its container is created by a later pass. -/
def replenish (pool : Pool) (ps : PoolState) : EngineM Unit := do
  external (.dockerImage pool.image)
  let answers ← consult
  let state ← getState
  let id := "rc-" ++ state.managerId.short ++ "-" ++ answers.uuid.text
  let run : Run := {
    id := id
    poolId := ps.id
    pool := pool
    generation := ps.generation
    createdAt := ← now
    phase := .creating
    remoteId := none
    retiring := false
    force := false
    completedJob := false
    logSaved := false }
  insertRun id run
  record (.newRun run)
  save

/-- The end of a pass whose cleanup succeeded. -/
def finishPass (name : String) (allowReplenish : Bool) (pool : Pool) (ps : PoolState)
    (unknownContainers : Nat) (report : ReconcileReport) : EngineM ReconcileReport := do
  let state ← getState
  let active := (state.runsOf ps.id).length
  if ps.deleting && active == 0 then do
    finaliseDeletion name
    return report
  else do
    let total := state.runs.size + unknownContainers
    if allowReplenish && report.unexpectedExits == 0 &&
        decide (active < State.keep ps pool) &&
        decide (total < state.config.manager.maxRunners) then
      replenish pool ps
    else pure ()
    expireLogs
    return report

/-- The pass from the second listing on. -/
def reconcileRuns (name : String) (allowReplenish : Bool) (pool : Pool)
    (ps : PoolState) (managerId : Uuid) (unknownContainers : Nat)
    (listed : List Container) : EngineM ReconcileReport := do
  let containers ←
    if ((← getState).runsOf ps.id).any (·.force) then
      external (.dockerList managerId.text)
    else pure listed
  let auth ← unwrap (← getState).config.auth[pool.auth]?
  let ttl := (← getState).config.manager.pollIntervalSeconds
  let remotes ← external (.githubList pool.auth auth pool.apiScope ttl)
  let ids := ((← getState).runsOf ps.id).map (·.id)
  -- use the same stable selection as scale and apply
  markRetiring name
  save
  let pass : Pass :=
    { name, allowReplenish, pool, ps, managerId, auth, containers, remotes }
  let progress ← ids.foldlM (visitRun pass) ⟨.empty, none⟩
  match progress.cleanupError with
  | some error => throw error
  | none => finishPass name allowReplenish pool ps unknownContainers progress.report

/-- Owned containers without a run record; they count against capacity. -/
def unknownContainers (state : State) (containers : List Container) : Nat :=
  containers.countP fun c => c.run.all fun id => !state.runs.contains id

/-- `Engine::reconcile`. -/
def reconcile (name : String) (allowReplenish : Bool) : EngineM ReconcileReport := do
  let state ← getState
  let pool ← context (state.config.pool? name) (.msg "missing pool config")
  let ps ← poolOf name
  let managerId := state.managerId
  let containers ← external (.dockerList managerId.text)
  let state ← getState
  let unknown := unknownContainers state containers
  if !state.hasRuns ps.id && !ps.running then do
    if ps.deleting then finaliseDeletion name else pure ()
    return .empty
  else do
    -- explicit force can stop local work even when the credential is revoked
    ((state.runsOf ps.id).filter (·.force)).forM (forceRun containers)
    reconcileRuns name allowReplenish pool ps managerId unknown containers

end Runnerctl
