import Runnerctl.Lib.Program
import Runnerctl.Model.Operation
import Runnerctl.Model.Protocol
import Runnerctl.Model.Serde

/-!
# The engine and its surroundings

The manager's memory, what it can lose in a crash and what survives one, and the
effects on which `src/manager.rs` is built.  Everything the manager does not decide
itself is an answer of the host: the `n`-th question it asks gets the `n`-th answer,
so a statement about every host is a statement about every outcome and every
interleaving.

Each effect appends a moment to the history of the world.  The history is not part
of the manager; statements about the order of events read it.
-/

namespace Runnerctl

open Std Program

/-! ## The host -/

/-- What can happen while the manager awaits an operation: a control request
arrives, or somebody edits `config.toml`. -/
inductive Happening where
  | request (request : Request)
  | edit (text : Option String)

/-- One file of the logs directory: its name, its kind and its age in nanoseconds.
`readable` is false if any of these cannot be read. -/
structure LogEntry where
  name : String
  isFile : Bool
  age : Nat
  readable : Bool

/-- The answer to one question of the manager.  Each kind of question reads the
fields it needs. -/
structure Answers where
  /-- Seconds that pass before the answer; the clock does not run backwards. -/
  elapsed : Nat
  /-- Whether a local operation (SQLite, files) succeeds, and the error if not. -/
  succeeds : Bool
  failure : String
  /-- Whether a file or directory exists, or is in place after a write that failed. -/
  present : Bool
  logs : List LogEntry
  uuid : Uuid
  /-- First byte of a fresh UUID. -/
  byte : Fin 256
  /-- What `select!` takes from the queue before it first polls the operation,
  and while the operation is in flight. -/
  early : List Happening
  during : List Happening
  reply : (op : Op) → Except String op.Reply

/-- The libraries and the outside world of a manager. -/
structure Host where
  sha256 : String → String
  readToml : String → Option Document
  writeToml : Document → Except String String
  parseRfc3339 : String → Option Nat
  answers : Nat → Answers

namespace Host

/-- `toml::from_str`. -/
def parseToml (host : Host) (text : String) : Option Config :=
  (host.readToml text).bind Config.decode

/-- `toml::to_string_pretty`. -/
def printToml (host : Host) (config : Config) : Except String String :=
  host.writeToml config.encode

end Host

/-! ## The world -/

/-- The fields of `Engine` that change.  `snapshot` is the value last sent on the
watch channel, if there is one. -/
structure Engine where
  state : State
  cursor : Nat
  bootTime : Option Nat
  snapshot : Option State
  epoch : Nat
  reconcileEpoch : Option Nat

/-- Local operations on the files of a run. -/
inductive FileOp where
  | secureDir (id : String)
  | writeToken (id : String)
  | removeToken (id : String)
  | writeLog (id : String)
  | removeDir (id : String)
  | removeLog (name : String)
  deriving DecidableEq

/-- Paths below `runs/<id>` whose existence the manager asks for. -/
inductive RunPath where
  | directory (id : String)
  | completed (id : String)
  deriving DecidableEq

inductive Event where
  /-- The process opened the store and serves. -/
  | opened
  /-- The process died.  `effect` tells whether a Docker command in flight still
  took effect. -/
  | crashed (effect : Bool)
  /-- `tick` turned to a pool: its name, the time and the pool's `retry_at`. -/
  | passStarted (name : String) (at_ : Nat) (retryAt : Nat)
  /-- An operation was polled for the first time. -/
  | began (op : Op)
  | ended (op : Op) (reply : Except String op.Reply)
  /-- The manager turned to a request. -/
  | received (request : Request)
  /-- A request was handled.  `polled` is false if the operation awaited at that
  moment had not been polled yet. -/
  | handled (polled : Bool) (request : Request) (before : State)
      (result : Except Error Response)
  | saved (ok : Bool)
  | readBack (ok : Bool)
  | readConfig (ok : Bool)
  /-- `config.toml` was to be written over what it held.  `done` tells whether the new
  text took its place. -/
  | wroteConfig (replaced : Option String) (done : Bool)
  | cleared
  | file (op : FileOp) (ok : Bool)
  | looked (path : RunPath) (present : Bool)
  | newRun (run : Run)
  /-- Somebody edited `config.toml`. -/
  | edited
  /-- A run was removed from the state.  `interrupted` tells whether a reboot had
  stopped it. -/
  | droppedRun (run : Run) (interrupted : Bool)
  /-- A pass commits the configuration without a deleted pool. -/
  | finalising (name : String)
  | failed (name : String) (scope : RetryScope)

/-- An event, with memory, store, file and clock just after it. -/
structure Moment where
  event : Event
  state : State
  store : Option State
  file : Option String
  clock : Nat

/-- The engine, the SQLite row, the text of `config.toml` (`none` if it cannot be
read), the clock, the number of questions asked and the history. -/
structure World where
  engine : Engine
  store : Option State
  file : Option String
  clock : Nat
  asked : Nat
  history : List Moment

/-- Programs of the manager. -/
abbrev EngineM (α : Type) : Type := Prog Host World Error α

namespace World

/-- The present as a moment. -/
def moment (w : World) (event : Event) : Moment where
  event := event
  state := w.engine.state
  store := w.store
  file := w.file
  clock := w.clock

def log (w : World) (event : Event) : World :=
  { w with history := w.history ++ [w.moment event] }

def setState (w : World) (state : State) : World :=
  { w with engine := { w.engine with state } }

/-- The moments that were added to the history between two worlds. -/
def since (before after : World) : List Moment :=
  after.history.drop before.history.length

end World

/-! ## Primitive effects -/

def record (event : Event) : EngineM Unit := modify (World.log · event)

/-- Ask the host the next question. -/
def consult : EngineM Answers := fun host w =>
  let answers := host.answers w.asked
  (.ok answers, { w with asked := w.asked + 1, clock := w.clock + answers.elapsed })

def engine : EngineM Engine := fun _ w => (.ok w.engine, w)

/-- `self.state`. -/
def getState : EngineM State := fun _ w => (.ok w.engine.state, w)

def setState (state : State) : EngineM Unit := modify (World.setState · state)

def fail {α : Type} (text : String) : EngineM α := throw (.msg text)

/-- `ensure!`. -/
def require (condition : Bool) (text : String) : EngineM Unit :=
  ensure condition (.msg text)

/-- `state::now`. -/
def now : EngineM Nat := do
  let _ ← consult
  return (← get).clock

/-- A local operation that the host lets succeed or fail. -/
def fileOp (op : FileOp) : EngineM Unit := do
  let answers ← consult
  record (.file op answers.succeeds)
  if answers.succeeds then pure () else fail answers.failure

/-- `Path::exists`. -/
def pathExists (path : RunPath) : EngineM Bool := do
  let answers ← consult
  record (.looked path answers.present)
  return answers.present

/-- `fs::read_to_string` of `config.toml`. -/
def readConfig : EngineM String := do
  let answers ← consult
  let file := (← get).file
  match answers.succeeds, file with
  | true, some text => do
      record (.readConfig true)
      return text
  | _, _ => do
      record (.readConfig false)
      fail answers.failure

/-- `config::atomic_write` of `config.toml`. -/
def writeConfig (text : String) : EngineM Unit := do
  let answers ← consult
  let replaced := (← get).file
  -- the directory is synchronized after the new file took the place of the old one
  if answers.succeeds || answers.present then do
    modify fun w => { w with file := some text }
    record (.wroteConfig replaced true)
  else record (.wroteConfig replaced false)
  if answers.succeeds then pure () else fail answers.failure

/-- `Store::save`. -/
def storeSave (state : State) : EngineM Unit := do
  let answers ← consult
  if answers.succeeds then do
    modify fun w => { w with store := some state }
    record (.saved true)
  else do
    record (.saved false)
    fail answers.failure

/-- `Store::load`. -/
def storeLoad : EngineM (Option State) := do
  let answers ← consult
  if answers.succeeds then return (← get).store else fail answers.failure

/-- `self.store.load()?.context("state disappeared")?`. -/
def readBack : EngineM State := do
  match ← attempt storeLoad with
  | .ok (some state) => do
      record (.readBack true)
      return state
  | .ok none => do
      record (.readBack false)
      fail "state disappeared"
  | .error error => do
      record (.readBack false)
      throw error

/-- `snapshots.send_replace(self.state.clone())`, if there is a channel. -/
def publish : EngineM Unit :=
  modify fun w =>
    { w with engine := { w.engine with
      snapshot := w.engine.snapshot.map fun _ => w.engine.state } }

/-! ## `Engine` -/

/-- `Engine::save`. -/
def save : EngineM Unit := do
  storeSave (← getState)
  publish

/-- `hash`. -/
def hash (text : String) : EngineM String := do
  return (← ask).sha256 text

/-- `Engine::clean_file`. -/
def cleanFile : EngineM Unit := do
  let digest ← hash (← readConfig)
  require (digest == (← getState).fileHash)
    "config.toml has unapplied changes; run config apply first"

/-- `toml::to_string_pretty`. -/
def printToml (config : Config) : EngineM String := do
  match (← ask).printToml config with
  | .ok text => return text
  | .error failure => fail failure

/-- `Config::parse`. -/
def parseConfig (text : String) : EngineM Config := do
  let config ← context ((← ask).parseToml text) (.msg "invalid config TOML")
  liftExcept config.validate
  return config

/-- `github.clear()`. -/
def clearGithub : EngineM Unit := record .cleared

/-- `Engine::commit_config`. -/
def commitConfig (next : Config) : EngineM Unit := do
  liftExcept next.validate
  let text ← printToml next
  let digest ← hash text
  let current ← getState
  let state : State :=
    { current with config := next, revision := current.revision + 1, fileHash := digest }
  -- SQLite is authoritative: the row is written before the file
  storeSave state
  setState state
  writeConfig text
  clearGithub
  publish

/-- `State::new`. -/
def State.new (config : Config) (fileHash : String) : EngineM State := do
  let pools ← config.pools.foldlM (fun (pools : ExtTreeMap String PoolState) p => do
    let answers ← consult
    return pools.insert p.name (PoolState.default answers.uuid)) ∅
  let answers ← consult
  return {
    managerId := answers.uuid
    revision := 1
    config := config
    fileHash := fileHash
    pools := pools
    runs := ∅ }

/-- An engine that has just been opened, with the channel that `serve` attaches. -/
def Engine.fresh (state : State) : Engine where
  state := state
  cursor := 0
  bootTime := none
  snapshot := some state
  epoch := 0
  reconcileEpoch := none

/-- `Engine::open`, and the start of `serve`.  The engine of the world before is
that of a dead process and is not read. -/
def openEngine : EngineM Unit := do
  let state ← match ← storeLoad with
    | some state => pure state
    | none => do
        let text ← readConfig
        let state ← State.new (← parseConfig text) (← hash text)
        storeSave state
        pure state
  modify fun w => { w with engine := Engine.fresh state }
  record .opened

end Runnerctl
