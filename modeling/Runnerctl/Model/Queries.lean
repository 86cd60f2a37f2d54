import Runnerctl.Model.Engine

/-!
# Queries

`diagnose` and `runner_logs`, which run beside the manager on a snapshot of its state.
What Docker and GitHub tell them, and the checks of `image.rs`, are given by a `Probe`.
-/

namespace Runnerctl

open Std Program

/-- One element of `checks`. -/
structure Check where
  check : String
  ok : Bool
  error : Option String
  details : List String
  deriving DecidableEq

structure Diagnosis where
  healthy : Bool
  revision : Nat
  checks : List Check

/-- The outcomes of the calls of a query. -/
structure Probe where
  at_ : Nat
  warnings : Config → List String
  info : Except String String
  latest : Except String String
  github : (profile : String) → Auth → (scope : String) → Except String (List RemoteRunner)
  imageVersion : String → Except String (Option String)
  versionCheck : (image : String) → (installed latest : Option String) → Check
  shares : (image : String) → Except String Unit
  list : Except String (List Container)
  logs : String → Except String String

/-- `e.err()`. -/
def failureOf {α : Type} : Except String α → Option String
  | .ok _ => none
  | .error failure => some failure

/-- A check that reports the outcome of a call. -/
def Check.of {α : Type} (check : String) (outcome : Except String α)
    (details : List String) : Check :=
  ⟨check, outcome.isOk, failureOf outcome, details⟩

/-- `map[key]`, which panics without an entry. -/
def index {α : Type} (entry : Option α) : Except (Fault Error) α :=
  match entry with
  | some value => .ok value
  | none => .error .panic

/-- `PoolHealth`. -/
structure PoolHealth where
  ok : Bool
  available : Nat
  unknown : Nat
  reasons : List String

/-- `pool_health`. -/
def poolHealth (pool : Pool) (state : PoolState) (runs : List Run) (at_ : Nat) : PoolHealth :=
  let available := runs.countP fun r => r.phase == .idle || r.phase == .busy
  let unknown := runs.countP (·.phase == .unknown)
  let managed := state.running && !state.deleting && decide (0 < pool.replicas)
  let reasons :=
    if managed then
      (match state.error with
        | some error => ["error: " ++ error]
        | none => []) ++
      (if at_ < state.retryAt then ["retry scheduled at " ++ toString state.retryAt] else []) ++
      (if 0 < unknown then [toString unknown ++ " unknown runner(s)"] else []) ++
      (if available < pool.replicas then
        ["available capacity " ++ toString available ++ "/" ++ toString pool.replicas] else [])
    else []
  ⟨reasons.isEmpty, available, unknown, reasons⟩

/-- The checks so far, and `checked_images`. -/
abbrev Findings := List Check × ExtTreeMap String (Except String (Option String))

/-- The checks of the image of a pool, once for each image. -/
def checkImage (probe : Probe) (latest : Option String) (image : String)
    (findings : Findings) : Findings :=
  let (checks, images) := findings
  if images.contains image then findings
  else
    let version := probe.imageVersion image
    (match version with
      | .ok installed => checks ++ [probe.versionCheck image installed latest]
      | .error _ => checks, images.insert image version)

/-- The body of the loop of `diagnose`. -/
def diagnosePool (probe : Probe) (state : State) (latest : Option String)
    (findings : Findings) (p : Pool) : Except (Fault Error) Findings := do
  let auth ← index state.config.auth[p.auth]?
  let gh := probe.github p.auth auth p.apiScope
  let findings :=
    checkImage probe latest p.image (findings.1 ++ [.of ("github:" ++ p.name) gh []], findings.2)
  let image ← index findings.2[p.image]?
  let ps ← index state.pools[p.name]?
  let health := poolHealth p ps (state.runsOf ps.id) probe.at_
  return (findings.1 ++
    [.of ("image:" ++ p.name) image [],
      ⟨"pool:" ++ p.name, health.ok, ps.error, health.reasons⟩], findings.2)

/-- `diagnose`. -/
def diagnose (probe : Probe) (state : State) : Except (Fault Error) Diagnosis := do
  let first : List Check :=
    [⟨"config", true, none, probe.warnings state.config⟩, .of "docker" probe.info []]
  let latest := if state.config.pools.isEmpty then none else probe.latest.toOption
  let (checks, images) ←
    state.config.pools.foldlM (diagnosePool probe state latest) (first, ∅)
  let checks :=
    match images.toList.find? fun (_, version) => version.isOk with
    | some (image, _) => checks ++ [.of "docker:bind" (probe.shares image) []]
    | none => checks
  return ⟨checks.all (·.ok), state.revision, checks⟩

/-- `runner_logs`. -/
def runnerLogs (probe : Probe) (state : State) (pool id : String) :
    Except (Fault Error) String := do
  let reject (text : String) : Except (Fault Error) String := .error (.error (.msg text))
  match state.pools[pool]?, state.runs[id]? with
  | none, _ => reject "unknown pool"
  | some _, none => reject "runner not active; archived logs are in the logs directory"
  | some ps, some run =>
      if run.poolId == ps.id then
        match probe.list with
        | .error failure => reject failure
        | .ok containers =>
            if containers.any (·.owned state.managerId.text run) then
              match probe.logs id with
              | .error failure => reject failure
              | .ok logs => return logs
            else reject "owned container not found"
      else reject "runner does not belong to pool"

end Runnerctl
