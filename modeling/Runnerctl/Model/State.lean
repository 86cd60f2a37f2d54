import Runnerctl.Lib.TreeMap
import Runnerctl.Model.Config

/-!
# The manager's state

The record that the manager keeps in memory and writes to its only SQLite row
(`src/state.rs`).
-/

namespace Runnerctl

open Std

/-- A version 4 UUID in its simple format: 32 hexadecimal digits. -/
structure Uuid where
  text : String
  simple : text.length = 32
  deriving DecidableEq

/-- `&uuid[..8]`. -/
def Uuid.short (uuid : Uuid) : String := String.ofList (uuid.text.toList.take 8)

inductive RetryScope where
  | observation
  | provisioning
  deriving DecidableEq, Repr

structure PoolState where
  id : String
  running : Bool
  deleting : Bool
  generation : Nat
  failures : Nat
  retryAt : Nat
  retryScope : RetryScope
  error : Option String
  observedAt : Nat
  deriving DecidableEq

/-- `impl Default for PoolState`, which draws a fresh id. -/
def PoolState.default (id : Uuid) : PoolState where
  id := id.text
  running := false
  deleting := false
  generation := 1
  failures := 0
  retryAt := 0
  retryScope := .observation
  error := none
  observedAt := 0

/-- The strings that `Run::phase` takes. -/
inductive Phase where
  | creating
  | starting
  | idle
  | busy
  | unknown
  | cleanup
  deriving DecidableEq, Repr

structure Run where
  id : String
  poolId : String
  pool : Pool
  generation : Nat
  createdAt : Nat
  phase : Phase
  remoteId : Option Nat
  retiring : Bool
  force : Bool
  completedJob : Bool
  logSaved : Bool
  deriving DecidableEq

structure State where
  managerId : Uuid
  revision : Nat
  config : Config
  fileHash : String
  pools : ExtTreeMap String PoolState
  runs : ExtTreeMap String Run
  deriving DecidableEq

namespace State

/-- The runs of a pool, in the order of their ids. -/
def runsOf (state : State) (poolId : String) : List Run :=
  (TreeMap.values state.runs).filter (·.poolId == poolId)

/-- `runs.values().any(|r| r.pool_id == pool_id)`. -/
def hasRuns (state : State) (poolId : String) : Bool :=
  (TreeMap.values state.runs).any (·.poolId == poolId)

/-- The number of runs a pool keeps: its replicas while it is running. -/
def keep (ps : PoolState) (pool : Pool) : Nat :=
  if ps.running && !ps.deleting then pool.replicas else 0

/-- `a > b` on the sort key of `mark_retiring`. -/
def rankedAbove (a b : Nat × Nat × String) : Bool :=
  decide (b.1 < a.1) || (a.1 == b.1 &&
    (decide (b.2.1 < a.2.1) || (a.2.1 == b.2.1 && decide (b.2.2 < a.2.2))))

/-- Insertion into a list sorted in descending order. -/
def insertRanked (entry : Nat × Nat × String) :
    List (Nat × Nat × String) → List (Nat × Nat × String)
  | [] => [entry]
  | head :: rest =>
      if rankedAbove head entry then head :: insertRanked entry rest
      else entry :: head :: rest

/-- The runs of a pool in descending order of generation, creation time and id. -/
def drainOrder (state : State) (poolId : String) : List (Nat × Nat × String) :=
  ((state.runsOf poolId).map fun r => (r.generation, r.createdAt, r.id)).foldr
    insertRanked []

/-- The loop of `mark_retiring` from position `index` on. -/
def drain (keep generation : Nat) :
    Nat → List (Nat × Nat × String) → ExtTreeMap String Run →
      Option (ExtTreeMap String Run)
  | _, [], runs => some runs
  | index, (_, _, id) :: rest, runs =>
      match runs[id]? with
      | none => none
      | some run =>
          drain keep generation (index + 1) rest
            (if decide (keep ≤ index) || run.generation != generation then
              runs.insert id { run with retiring := true }
            else runs)

/-- `mark_retiring`.  `none` stands for a failed index or `unwrap`. -/
def markRetiring (state : State) (name : String) : Option State := do
  let ps ← state.pools[name]?
  let pool ← state.config.pool? name
  let runs ← drain (keep ps pool) ps.generation 0 (state.drainOrder ps.id) state.runs
  return { state with runs }

/-- Replace the state of a pool. -/
def setPool (state : State) (name : String) (ps : PoolState) : State :=
  { state with pools := state.pools.insert name ps }

/-- Replace the record of a run: `runs.insert(id, run)`. -/
def setRun (state : State) (id : String) (run : Run) : State :=
  { state with runs := state.runs.insert id run }

/-- Mark the runs of a pool as draining, and as forced if `force` is set. -/
def retireRuns (state : State) (poolId : String) (force : Bool) : State :=
  { state with
    runs := state.runs.map fun _ r =>
      if r.poolId == poolId then { r with retiring := true, force := r.force || force }
      else r }

end State

end Runnerctl
