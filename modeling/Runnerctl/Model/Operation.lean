import Runnerctl.Model.State

/-!
# Docker and GitHub operations

The asynchronous operations that a reconcile pass awaits (`src/docker.rs`,
`src/github.rs`), with the type of value each returns.  What an operation does
outside the manager is not modelled here; its reply is an answer of the host.
-/

namespace Runnerctl

/-- What the manager reads of a `docker inspect` entry: the labels
`io.runnerctl.{manager,run,pool}`, `State.Status` and `State.StartedAt`. -/
structure Container where
  manager : Option String
  run : Option String
  pool : Option String
  status : Option String
  startedAt : Option String
  deriving DecidableEq

/-- `Docker::owned`. -/
def Container.owned (container : Container) (manager : String) (run : Run) : Bool :=
  container.manager == some manager && container.run == some run.id &&
    container.pool == some run.poolId

/-- A container in which a job may be running. -/
def Container.live (container : Container) : Bool :=
  container.status == some "running" || container.status == some "restarting" ||
    container.status == some "paused"

structure RemoteRunner where
  id : Nat
  name : String
  status : String
  busy : Bool
  deriving DecidableEq

inductive Op where
  | dockerList (manager : String)
  | dockerImage (image : String)
  | dockerCreate (manager : String) (run : Run)
  | dockerStart (id : String)
  | dockerRemove (id : String) (force : Bool)
  | dockerLogs (id : String)
  | dockerArchive (id : String)
  | dockerBootTime (image : String)
  | dockerRepair (run : Run)
  | githubList (profile : String) (auth : Auth) (scope : String) (ttl : Nat)
  | githubToken (profile : String) (auth : Auth) (scope : String)
  | githubRemove (profile : String) (auth : Auth) (scope : String) (id : Nat)
  deriving DecidableEq

/-- The value of an operation that succeeds. -/
@[reducible] def Op.Reply : Op → Type
  | .dockerList _ => List Container
  | .dockerLogs _ | .githubToken _ _ _ => String
  | .dockerBootTime _ => Nat
  | .githubList _ _ _ _ => List RemoteRunner
  | _ => Unit

/-- `observed_phase`. -/
def observedPhase : Option RemoteRunner → Phase
  | some r => if r.busy then .busy else if r.status == "online" then .idle else .unknown
  | none => .unknown

/-- `unexpected_exit`. -/
def unexpectedExit (run : Run) : Bool :=
  !run.completedJob && !run.retiring && !run.force

end Runnerctl
