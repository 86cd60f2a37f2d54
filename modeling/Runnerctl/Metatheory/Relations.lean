import Runnerctl.Lib.Congruence
import Runnerctl.Metatheory.Effects
import Runnerctl.Model.Manager

/-!
# Relations between worlds

What the primitive effects of the engine respect, everything the manager does respects.
The state is published only by `save`, `commit_config` and the rollback of a failed request;
these are taken as a whole.
-/

namespace Runnerctl

open Std Program

/-- The relation is respected by the primitive effects. -/
class Admits (related : World → World → Prop) : Prop where
  consult : Respects related consult
  record : ∀ event, Respects related (record event)
  engine : Respects related engine
  getState : Respects related getState
  now : Respects related now
  readConfig : Respects related readConfig
  setState : ∀ state, Respects related (setState state)
  save : Respects related save
  commitConfig : ∀ next, Respects related (commitConfig next)
  rollBack : Respects related (do Runnerctl.setState (← readBack); publish : EngineM Unit)
  /-- Changes of the engine that concern neither memory nor the channel nor the boot time. -/
  adjust : ∀ (update : World → World) (change : Engine → Engine),
    (∀ w, update w = { w with engine := change w.engine }) →
    (∀ engine, (change engine).state = engine.state ∧
      (change engine).snapshot = engine.snapshot ∧ (change engine).bootTime = engine.bootTime) →
    Respects related (modify update : EngineM Unit)
  edit : ∀ text : Option String,
    Respects related (modify fun w => { w with file := text } : EngineM Unit)

attribute [instance] Admits.consult Admits.record Admits.engine Admits.getState Admits.now
  Admits.readConfig Admits.setState Admits.save Admits.commitConfig

/-- The relation is respected by the only program that changes the boot time. -/
class Reboots (related : World → World → Prop) : Prop where
  stoppedByReboot : ∀ container image, Respects related (stoppedByReboot container image)

attribute [instance] Reboots.stoppedByReboot

/-- A program keeps a property if it does so however it ends. -/
theorem respects_of_meets {α : Type} {property : World → Prop} {program : EngineM α}
    (keeps : ∀ (host : Host) (w : World), property w →
      Meets host program w (fun _ => property) (fun _ => property)) :
    Respects (Respects.Equally property) program := by
  refine .of_keeps fun host w holds => ?_
  have meets := keeps host w holds
  generalize run : program host w = result
  match result with
  | (.ok _, _) => exact meets.returned run
  | (.error _, _) => exact meets.stopped run

section Relations

variable {related : World → World → Prop} [Admits related]

instance {α : Type} (text : String) : Respects related (fail text : EngineM α) :=
  .throw _

instance (condition : Bool) (text : String) : Respects related (require condition text) :=
  .ensure condition _

instance (op : FileOp) : Respects related (fileOp op) := by
  unfold fileOp
  infer_instance

instance (path : RunPath) : Respects related (pathExists path) := by
  unfold pathExists
  infer_instance

instance (text : String) : Respects related (hash text) := by
  unfold hash
  infer_instance

instance : Respects related cleanFile := by
  unfold cleanFile
  infer_instance

instance (text : String) : Respects related (parseConfig text) := by
  unfold parseConfig
  infer_instance

instance : Respects related clearGithub := by
  unfold clearGithub
  infer_instance

/-! ## Requests -/

instance (pool : Option String) (all : Bool) :
    Respects related (targets pool all) :=
  .seq inferInstance fun _ => by cases pool <;> infer_instance

instance (name : String) : Respects related (poolOf name) := by
  unfold poolOf
  infer_instance

instance (name : String) : Respects related (markRetiring name) := by
  unfold markRetiring
  infer_instance

instance (state : State) (pools : ExtTreeMap String PoolState) (new : Pool) :
    Respects related (applyPool state pools new) := by
  unfold applyPool
  cases state.config.pool? new.name <;> infer_instance

instance (name : String) : Respects related (startPool name) := by
  unfold startPool
  infer_instance

instance (force : Bool) (name : String) : Respects related (stopPool force name) := by
  unfold stopPool
  infer_instance

instance (pool : Option String) : Respects related (handleStatus pool) := by
  unfold handleStatus
  cases pool <;> infer_instance

instance (pool : Pool) : Respects related (handleAdd pool) := by
  unfold handleAdd
  infer_instance

instance (pool : Option String) (all : Bool) :
    Respects related (handleStart pool all) := by
  unfold handleStart
  infer_instance

instance (pool : Option String) (all force : Bool) :
    Respects related (handleStop pool all force) := by
  unfold handleStop
  infer_instance

instance (pool : String) (replicas : Nat) :
    Respects related (handleScale pool replicas) := by
  unfold handleScale
  repeat' first | infer_instance | refine .seq ?_ fun _ => ?_

instance (pool image : String) : Respects related (handleUpgrade pool image) := by
  unfold handleUpgrade
  repeat' first | infer_instance | refine .seq ?_ fun _ => ?_

instance (pool : String) (force : Bool) :
    Respects related (handleRemove pool force) := by
  unfold handleRemove
  infer_instance

instance (profile credential : String) (app : Option AppAuth) :
    Respects related (handleAuth profile credential app) := by
  unfold handleAuth
  infer_instance

instance (text : String) (revision : Nat) :
    Respects related (handleApply text revision) := by
  unfold handleApply
  repeat' first | infer_instance | refine .seq ?_ fun _ => ?_

instance (request : Request) : Respects related (handleInner request) := by
  unfold handleInner
  cases request <;> infer_instance

instance (request : Request) : Respects related (handleLocal request) := by
  have : Respects related (modify fun w =>
      { w with engine := { w.engine with epoch := w.engine.epoch + 1 } } : EngineM Unit) :=
    Admits.adjust _ (fun engine => { engine with epoch := engine.epoch + 1 }) (fun _ => rfl)
      fun _ => ⟨rfl, rfl, rfl⟩
  refine .seq inferInstance fun result => ?_
  cases result with
  | ok => infer_instance
  | error error =>
      have tail : Respects related (do
          if request.mutating then
            modify fun w => { w with engine := { w.engine with epoch := w.engine.epoch + 1 } }
          else pure ()
          liftExcept (.error error : Except Error Response) : EngineM Response) := by
        split <;> infer_instance
      simpa only [bind_assoc] using Respects.seq Admits.rollBack fun _ => tail

instance (polled : Bool) (request : Request) :
    Respects related (serveRequest polled request) := by
  unfold serveRequest
  infer_instance

instance (polled : Bool) (happening : Happening) :
    Respects related (happen polled happening) := by
  cases happening with
  | request request => exact inferInstanceAs (Respects _ (serveRequest polled request))
  | edit text =>
      exact .seq (Admits.edit text) fun _ => inferInstance

instance respects_external (op : Op) : Respects related (external op) := by
  unfold external
  repeat' first | infer_instance | refine .seq ?_ fun _ => ?_ | split

/-! ## Operations

Instance search does not find out which operation has a given type of reply. -/

instance (manager : String) : Respects related (external (.dockerList manager)) :=
  respects_external _

instance (image : String) : Respects related (external (.dockerImage image)) :=
  respects_external _

instance (manager : String) (run : Run) :
    Respects related (external (.dockerCreate manager run)) :=
  respects_external _

instance (id : String) : Respects related (external (.dockerStart id)) :=
  respects_external _

instance (id : String) (force : Bool) : Respects related (external (.dockerRemove id force)) :=
  respects_external _

instance (id : String) : Respects related (external (.dockerLogs id)) :=
  respects_external _

instance (id : String) : Respects related (external (.dockerArchive id)) :=
  respects_external _

instance (image : String) : Respects related (external (.dockerBootTime image)) :=
  respects_external _

instance (run : Run) : Respects related (external (.dockerRepair run)) :=
  respects_external _

instance (profile : String) (auth : Auth) (scope : String) (ttl : Nat) :
    Respects related (external (.githubList profile auth scope ttl)) :=
  respects_external _

instance (profile : String) (auth : Auth) (scope : String) :
    Respects related (external (.githubToken profile auth scope)) :=
  respects_external _

instance (profile : String) (auth : Auth) (scope : String) (id : Nat) :
    Respects related (external (.githubRemove profile auth scope id)) :=
  respects_external _

/-! ## Passes -/

instance (id : String) (run : Run) : Respects related (insertRun id run) := by
  unfold insertRun
  infer_instance

instance (container : Container) : Respects related (startedAt container) := by
  unfold startedAt
  infer_instance

instance (container : Container) (bootTime : Option Nat) :
    Respects related (startedBeforeBoot container bootTime) := by
  unfold startedBeforeBoot
  infer_instance

theorem Reboots.of_assign (assign : ∀ bootTime, Respects related
      (modify fun w => { w with engine := { w.engine with bootTime := some bootTime } } :
        EngineM Unit)) : Reboots related := by
  refine ⟨fun container image => ?_⟩
  unfold Runnerctl.stoppedByReboot
  repeat' first | infer_instance | exact assign _ | refine .seq ?_ fun _ => ?_ | split

instance (run : Run) (container : Container) :
    Respects related (archive run container) := by
  unfold archive
  infer_instance

instance (age : Nat) (entry : LogEntry) :
    Respects related (expireLog age entry) := by
  unfold expireLog
  infer_instance

instance : Respects related expireLogs := by
  unfold expireLogs
  infer_instance

instance (name : String) : Respects related (finaliseDeletion name) := by
  unfold finaliseDeletion
  infer_instance

instance (containers : List Container) (run : Run) :
    Respects related (forceRun containers run) := by
  unfold forceRun
  repeat' first | infer_instance | refine .seq ?_ fun _ => ?_ | split | dsimp only

instance (pass : Pass) (id : String) (run : Run) :
    Respects related (startCreated pass id run) := by
  unfold startCreated
  infer_instance

instance (pass : Pass) (id : String) (run : Run) :
    Respects related (createRecorded pass id run) := by
  unfold createRecorded
  repeat' first | infer_instance | refine .seq ?_ fun _ => ?_

instance (id : String) (run : Run) (container : Container) :
    Respects related (removeStopped id run container) := by
  unfold removeStopped
  infer_instance

instance (pass : Pass) (id : String) : Respects related (deregister pass id) := by
  unfold deregister
  repeat' first | infer_instance | refine .seq ?_ fun _ => ?_ | split

instance (id : String) (run : Run) : Respects related (removeDirectory id run) := by
  unfold removeDirectory
  repeat' first | infer_instance | refine .seq ?_ fun _ => ?_ | split

instance (name : String) : Respects related (resetFailures name) := by
  unfold resetFailures
  infer_instance

instance (pass : Pass) (id : String) (run : Run) (interrupted : Bool) (progress : Progress) :
    Respects related (dropRun pass id run interrupted progress) := by
  unfold dropRun
  infer_instance

instance (pass : Pass) (id : String) (run : Run) (interrupted : Bool) (progress : Progress) :
    Respects related (finishRun pass id run interrupted progress) := by
  unfold finishRun
  repeat' first | infer_instance | refine .seq ?_ fun _ => ?_ | split

instance (pool : Pool) (ps : PoolState) : Respects related (replenish pool ps) := by
  unfold replenish
  infer_instance

instance (name : String) (allowReplenish : Bool) (pool : Pool) (ps : PoolState)
    (unknownContainers : Nat) (report : ReconcileReport) : Respects related
      (finishPass name allowReplenish pool ps unknownContainers report) := by
  unfold finishPass
  infer_instance

instance (name error : String) (scope : RetryScope) :
    Respects related (recordFailure name error scope) := by
  unfold recordFailure
  infer_instance

instance (name : String) : Respects related (finishTick name) := by
  unfold finishTick
  repeat' first | infer_instance | refine .seq ?_ fun _ => ?_ | split

instance (name : String) (retrying : Bool) (result : Except Error ReconcileReport) :
    Respects related (settle name retrying result) := by
  unfold settle
  repeat' first | infer_instance | refine .seq ?_ fun _ => ?_ | split

section Whole

variable [Reboots related]

instance (pass : Pass) (id : String) (run : Run) (container : Container) (progress : Progress) :
    Respects related (cleanStopped pass id run container progress) := by
  unfold cleanStopped
  repeat' first | infer_instance | refine .seq ?_ fun _ => ?_ | split | dsimp only

instance (pass : Pass) (progress : Progress) (managerId : Uuid) (id : String) (run : Run)
    (remote : Option RemoteRunner) :
    Respects related (visitClone pass progress managerId id run remote) := by
  unfold visitClone
  repeat' first | infer_instance | refine .seq ?_ fun _ => ?_ | split

instance (pass : Pass) (progress : Progress) (id : String) :
    Respects related (visitRun pass progress id) := by
  unfold visitRun
  infer_instance

instance (name : String) (allowReplenish : Bool) (pool : Pool) (ps : PoolState)
    (managerId : Uuid) (unknownContainers : Nat) (listed : List Container) :
    Respects related
      (reconcileRuns name allowReplenish pool ps managerId unknownContainers listed) := by
  unfold reconcileRuns
  repeat' first | infer_instance | refine .seq ?_ fun _ => ?_ | split

instance (name : String) (allowReplenish : Bool) :
    Respects related (reconcile name allowReplenish) := by
  unfold reconcile
  infer_instance

instance (name : String) : Respects related (tickPool name) := by
  unfold tickPool
  repeat' first
    | infer_instance
    | exact Admits.adjust _ (fun engine => { engine with reconcileEpoch := some engine.epoch })
        (fun _ => rfl) fun _ => ⟨rfl, rfl, rfl⟩
    | exact Admits.adjust _ (fun engine => { engine with reconcileEpoch := none })
        (fun _ => rfl) fun _ => ⟨rfl, rfl, rfl⟩
    | refine .seq ?_ fun _ => ?_
    | split
    | dsimp only

instance : Respects related tick := by
  unfold tick
  repeat' first
    | infer_instance
    | exact Admits.adjust _ (fun engine => { engine with cursor := engine.cursor + 1 })
        (fun _ => rfl) fun _ => ⟨rfl, rfl, rfl⟩
    | refine .seq ?_ fun _ => ?_
    | split

end Whole

end Relations

end Runnerctl
