import Runnerctl.Model.State

/-!
# Requests and responses

The control protocol of the manager (`src/protocol.rs`).  A response carries the
fields of the JSON object that `handle_inner` builds; its `message` strings are a
function of the other fields.
-/

namespace Runnerctl

inductive Request where
  | status (pool : Option String)
  | add (pool : Pool)
  | start (pool : Option String) (all : Bool)
  | stop (pool : Option String) (all : Bool) (force : Bool)
  | scale (pool : String) (replicas : Nat)
  | remove (pool : String) (force : Bool)
  | upgrade (pool : String) (image : String)
  | apply (text : String) (revision : Nat)
  | auth (profile : String) (credential : String) (app : Option AppAuth)
  | logs (pool : String) (id : String)
  | doctor
  deriving DecidableEq

namespace Request

def changesConfig : Request → Bool
  | .add _ | .scale _ _ | .upgrade _ _ | .auth _ _ _ => true
  | _ => false

/-- Every request but `Status` may change the state. -/
def mutating : Request → Bool
  | .status _ => false
  | _ => true

end Request

/-- One entry of `runners` in a status response. -/
structure RunStatus where
  id : String
  phase : Phase
  retiring : Bool
  generation : Nat
  drainReason : Option String
  deriving DecidableEq

/-- One entry of `pools` in a status response. -/
structure PoolStatus where
  name : String
  organization : String
  repository : Option String
  target : String
  replicas : Nat
  intent : String
  active : Nat
  starting : Nat
  idle : Nat
  busy : Nat
  unknown : Nat
  draining : Nat
  generation : Nat
  error : Option String
  retryAt : Nat
  observedAt : Nat
  config : Pool
  runners : List RunStatus
  deriving DecidableEq

inductive Response where
  | status (revision : Nat) (pools : List PoolStatus)
  | added (pool : String)
  | started (targets : List String)
  | stopped (targets : List String) (pending : Bool) (force : Bool)
  | scaled (pool : String) (replicas : Nat)
  | upgrading (pool : String)
  | removing (pool : String) (force : Bool)
  | authenticated (profile : String)
  | applied (revision : Nat)
  deriving DecidableEq

/-- The `message` field of a response, where it has one. -/
def Response.message : Response → Option String
  | .stopped _ _ true =>
      some ("Termination requested; running jobs may be interrupted. " ++
        "Registration cleanup waits for GitHub connectivity.")
  | .stopped _ _ false =>
      some ("Replacements disabled. Existing idle runners can still accept one job before " ++
        "removal; busy jobs finish naturally. Use --wait to watch cleanup, or --force to " ++
        "terminate work.")
  | .scaled _ _ =>
      some ("Capacity updated. Excess runners drain after their next job; " ++
        "stopped pools remain stopped.")
  | .upgrading _ =>
      some ("Image updated. Existing runners drain after their next job; " ++
        "replacements use the new image.")
  | .removing _ true =>
      some ("Removal and termination requested; running jobs may be interrupted. " ++
        "Registration cleanup waits for GitHub connectivity.")
  | .removing _ false =>
      some ("Removal requested. Idle runners can accept one final job; " ++
        "cleanup completes after all runners exit.")
  | _ => none

/-- `drain_reason` of a run. -/
def Run.drainReason (run : Run) : Option String :=
  if !run.retiring then none
  else match run.phase with
    | .idle => some "waiting_for_next_job"
    | .busy => some "job_in_progress"
    | _ => some "awaiting_observation_or_cleanup"

/-- The status of a pool with its entry, its state and its runs. -/
def poolStatus (p : Pool) (state : PoolState) (runs : List Run) : PoolStatus :=
  let count := fun phase => (runs.filter (·.phase == phase)).length
  { name := p.name
    organization := p.organization
    repository := p.repository
    target := p.target
    replicas := p.replicas
    intent :=
      if state.deleting then "deleting" else if state.running then "running" else "stopped"
    active := runs.length
    starting := count .creating + count .starting
    idle := count .idle
    busy := count .busy
    unknown := count .unknown
    draining := (runs.filter (·.retiring)).length
    generation := state.generation
    error := state.error
    retryAt := state.retryAt
    observedAt := state.observedAt
    config := p
    runners := runs.map fun r =>
      { id := r.id, phase := r.phase, retiring := r.retiring,
        generation := r.generation, drainReason := r.drainReason } }

end Runnerctl
