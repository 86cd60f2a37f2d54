import Runnerctl.Model.Manager

/-!
# Specifications of the primitive effects

One lemma for each effect, which says into which world it leads.  Later proofs step
through programs with these lemmas and never unfold an effect.
-/

namespace Runnerctl

open Std Program

namespace World

/-- The world after one more question was answered. -/
def advance (host : Host) (w : World) : World :=
  { w with asked := w.asked + 1, clock := w.clock + (host.answers w.asked).elapsed }

def withStore (w : World) (state : State) : World := { w with store := some state }

def withFile (w : World) (file : Option String) : World := { w with file }

def published (w : World) : World :=
  { w with engine := { w.engine with
    snapshot := w.engine.snapshot.map fun _ => w.engine.state } }

section Projections

variable (host : Host) (w : World) (event : Event) (state : State) (file : Option String)

@[simp] theorem advance_engine : (w.advance host).engine = w.engine := rfl
@[simp] theorem advance_store : (w.advance host).store = w.store := rfl
@[simp] theorem advance_file : (w.advance host).file = w.file := rfl
@[simp] theorem advance_history : (w.advance host).history = w.history := rfl
@[simp] theorem advance_asked : (w.advance host).asked = w.asked + 1 := rfl

@[simp] theorem log_engine : (w.log event).engine = w.engine := rfl
@[simp] theorem log_store : (w.log event).store = w.store := rfl
@[simp] theorem log_file : (w.log event).file = w.file := rfl
@[simp] theorem log_clock : (w.log event).clock = w.clock := rfl
@[simp] theorem log_asked : (w.log event).asked = w.asked := rfl
@[simp] theorem log_history : (w.log event).history = w.history ++ [w.moment event] := rfl

@[simp] theorem moment_event : (w.moment event).event = event := rfl
@[simp] theorem moment_state : (w.moment event).state = w.engine.state := rfl
@[simp] theorem moment_store : (w.moment event).store = w.store := rfl
@[simp] theorem moment_file : (w.moment event).file = w.file := rfl
@[simp] theorem moment_clock : (w.moment event).clock = w.clock := rfl

@[simp] theorem setState_state : (w.setState state).engine.state = state := rfl
@[simp] theorem setState_store : (w.setState state).store = w.store := rfl
@[simp] theorem setState_file : (w.setState state).file = w.file := rfl
@[simp] theorem setState_clock : (w.setState state).clock = w.clock := rfl
@[simp] theorem setState_asked : (w.setState state).asked = w.asked := rfl
@[simp] theorem setState_history : (w.setState state).history = w.history := rfl
@[simp] theorem setState_epoch : (w.setState state).engine.epoch = w.engine.epoch := rfl
@[simp] theorem setState_reconcileEpoch :
    (w.setState state).engine.reconcileEpoch = w.engine.reconcileEpoch := rfl
@[simp] theorem setState_snapshot :
    (w.setState state).engine.snapshot = w.engine.snapshot := rfl

@[simp] theorem withStore_engine : (w.withStore state).engine = w.engine := rfl
@[simp] theorem withStore_store : (w.withStore state).store = some state := rfl
@[simp] theorem withStore_file : (w.withStore state).file = w.file := rfl
@[simp] theorem withStore_clock : (w.withStore state).clock = w.clock := rfl
@[simp] theorem withStore_asked : (w.withStore state).asked = w.asked := rfl
@[simp] theorem withStore_history : (w.withStore state).history = w.history := rfl

@[simp] theorem withFile_engine : (w.withFile file).engine = w.engine := rfl
@[simp] theorem withFile_store : (w.withFile file).store = w.store := rfl
@[simp] theorem withFile_file : (w.withFile file).file = file := rfl
@[simp] theorem withFile_clock : (w.withFile file).clock = w.clock := rfl
@[simp] theorem withFile_asked : (w.withFile file).asked = w.asked := rfl
@[simp] theorem withFile_history : (w.withFile file).history = w.history := rfl

@[simp] theorem published_state : w.published.engine.state = w.engine.state := rfl
@[simp] theorem published_store : w.published.store = w.store := rfl
@[simp] theorem published_file : w.published.file = w.file := rfl
@[simp] theorem published_clock : w.published.clock = w.clock := rfl
@[simp] theorem published_asked : w.published.asked = w.asked := rfl
@[simp] theorem published_history : w.published.history = w.history := rfl
@[simp] theorem published_epoch : w.published.engine.epoch = w.engine.epoch := rfl
@[simp] theorem published_reconcileEpoch :
    w.published.engine.reconcileEpoch = w.engine.reconcileEpoch := rfl

end Projections

end World

section Specifications

variable {host : Host} {w : World} {fault : Fault Error → World → Prop}

theorem meets_consult {post : Answers → World → Prop} :
    Meets host consult w post fault ↔ post (host.answers w.asked) (w.advance host) :=
  Iff.rfl

theorem meets_record {event : Event} {post : Unit → World → Prop} :
    Meets host (record event) w post fault ↔ post () (w.log event) := Iff.rfl

theorem meets_engine {post : Engine → World → Prop} :
    Meets host engine w post fault ↔ post w.engine w := Iff.rfl

theorem meets_getState {post : State → World → Prop} :
    Meets host getState w post fault ↔ post w.engine.state w := Iff.rfl

theorem meets_setState {state : State} {post : Unit → World → Prop} :
    Meets host (setState state) w post fault ↔ post () (w.setState state) := Iff.rfl

theorem meets_require {condition : Bool} {text : String} {post : Unit → World → Prop} :
    Meets host (require condition text) w post fault ↔
      if condition then post () w else fault (.error (.msg text)) w :=
  meets_ensure

theorem meets_now {post : Nat → World → Prop} :
    Meets host now w post fault ↔ post (w.advance host).clock (w.advance host) := Iff.rfl

theorem meets_pathExists {path : RunPath} {post : Bool → World → Prop} :
    Meets host (pathExists path) w post fault ↔
      post (host.answers w.asked).present
        ((w.advance host).log (.looked path (host.answers w.asked).present)) := Iff.rfl

theorem meets_publish {post : Unit → World → Prop} :
    Meets host publish w post fault ↔ post () w.published := Iff.rfl

theorem meets_hash {text : String} {post : String → World → Prop} :
    Meets host (hash text) w post fault ↔ post (host.sha256 text) w := Iff.rfl

theorem meets_clearGithub {post : Unit → World → Prop} :
    Meets host clearGithub w post fault ↔ post () (w.log .cleared) := Iff.rfl

theorem meets_fileOp {op : FileOp} {post : Unit → World → Prop} :
    Meets host (fileOp op) w post fault ↔
      if (host.answers w.asked).succeeds then
        post () ((w.advance host).log (.file op true))
      else
        fault (.error (.msg (host.answers w.asked).failure))
          ((w.advance host).log (.file op false)) := by
  simp only [fileOp, meets_bind, meets_consult, meets_record]
  cases (host.answers w.asked).succeeds <;> rfl

theorem meets_storeSave {state : State} {post : Unit → World → Prop} :
    Meets host (storeSave state) w post fault ↔
      if (host.answers w.asked).succeeds then
        post () (((w.advance host).withStore state).log (.saved true))
      else
        fault (.error (.msg (host.answers w.asked).failure))
          ((w.advance host).log (.saved false)) := by
  simp only [storeSave, meets_bind, meets_consult]
  cases (host.answers w.asked).succeeds <;> rfl

theorem meets_save {post : Unit → World → Prop} :
    Meets host save w post fault ↔
      if (host.answers w.asked).succeeds then
        post () (((w.advance host).withStore w.engine.state).log (.saved true)).published
      else
        fault (.error (.msg (host.answers w.asked).failure))
          ((w.advance host).log (.saved false)) := by
  simp only [save, meets_bind, meets_getState, meets_storeSave, meets_publish]

theorem meets_writeConfig {text : String} {post : Unit → World → Prop} :
    Meets host (writeConfig text) w post fault ↔
      if (host.answers w.asked).succeeds then
        post () (((w.advance host).withFile (some text)).log (.wroteConfig w.file true))
      else if (host.answers w.asked).present then
        fault (.error (.msg (host.answers w.asked).failure))
          (((w.advance host).withFile (some text)).log (.wroteConfig w.file true))
      else
        fault (.error (.msg (host.answers w.asked).failure))
          ((w.advance host).log (.wroteConfig w.file false)) := by
  simp only [writeConfig, meets_bind, meets_consult]
  cases (host.answers w.asked).succeeds <;> cases (host.answers w.asked).present <;> rfl

/-- Reading `config.toml` returns its text or fails; it changes nothing. -/
theorem meets_readConfig {post : String → World → Prop} :
    Meets host readConfig w post fault ↔
      match (host.answers w.asked).succeeds, w.file with
      | true, some text => post text ((w.advance host).log (.readConfig true))
      | _, _ =>
          fault (.error (.msg (host.answers w.asked).failure))
            ((w.advance host).log (.readConfig false)) := by
  simp only [readConfig, meets_bind, meets_consult, meets_get, World.advance_file]
  cases (host.answers w.asked).succeeds <;> cases w.file <;> rfl

theorem meets_readBack {post : State → World → Prop} :
    Meets host readBack w post fault ↔
      match (host.answers w.asked).succeeds, w.store with
      | true, some state => post state ((w.advance host).log (.readBack true))
      | true, none =>
          fault (.error (.msg "state disappeared")) ((w.advance host).log (.readBack false))
      | false, _ =>
          fault (.error (.msg (host.answers w.asked).failure))
            ((w.advance host).log (.readBack false)) := by
  simp only [readBack, storeLoad, meets_bind, meets_attempt, meets_consult]
  cases (host.answers w.asked).succeeds
  · rfl
  · simp only [if_true, meets_bind, meets_get, meets_pure, World.advance_store]
    cases w.store <;> rfl

theorem meets_cleanFile {post : Unit → World → Prop} :
    Meets host cleanFile w post fault ↔
      match (host.answers w.asked).succeeds, w.file with
      | true, some text =>
          if host.sha256 text == w.engine.state.fileHash then
            post () ((w.advance host).log (.readConfig true))
          else
            fault (.error (.msg "config.toml has unapplied changes; run config apply first"))
              ((w.advance host).log (.readConfig true))
      | _, _ =>
          fault (.error (.msg (host.answers w.asked).failure))
            ((w.advance host).log (.readConfig false)) := by
  simp only [cleanFile, meets_bind, meets_readConfig, meets_hash, meets_getState,
    meets_require]
  cases (host.answers w.asked).succeeds <;> cases w.file <;> rfl

theorem meets_printToml {config : Config} {post : String → World → Prop} :
    Meets host (printToml config) w post fault ↔
      match host.printToml config with
      | .ok text => post text w
      | .error failure => fault (.error (.msg failure)) w := by
  simp only [printToml, meets_bind, meets_ask]
  cases host.printToml config <;> rfl

theorem meets_parseConfig {text : String} {post : Config → World → Prop} :
    Meets host (parseConfig text) w post fault ↔
      match host.parseToml text with
      | some config =>
          (match config.validate with
          | .ok _ => post config w
          | .error error => fault (.error error) w)
      | none => fault (.error (.msg "invalid config TOML")) w := by
  simp only [parseConfig, meets_bind, meets_ask, meets_context]
  cases host.parseToml text with
  | none => rfl
  | some config =>
      simp only [meets_liftExcept, meets_pure]
      cases config.validate <;> rfl

theorem meets_poolOf {name : String} {post : PoolState → World → Prop} :
    Meets host (poolOf name) w post fault ↔
      match w.engine.state.pools[name]? with
      | some p => post p w
      | none => fault .panic w := by
  simp only [poolOf, meets_bind, meets_getState, meets_unwrap]
  cases w.engine.state.pools[name]? <;> rfl

theorem meets_markRetiring {name : String} {post : Unit → World → Prop} :
    Meets host (markRetiring name) w post fault ↔
      match w.engine.state.markRetiring name with
      | some state => post () (w.setState state)
      | none => fault .panic w := by
  simp only [markRetiring, meets_bind, meets_getState, meets_unwrap]
  cases w.engine.state.markRetiring name <;> rfl

theorem meets_insertRun {id : String} {run : Run} {post : Unit → World → Prop} :
    Meets host (insertRun id run) w post fault ↔
      post () (w.setState (w.engine.state.setRun id run)) := Iff.rfl

theorem meets_startedAt {container : Container} {post : Option Nat → World → Prop} :
    Meets host (startedAt container) w post fault ↔
      post (container.startedAt.bind host.parseRfc3339) w := Iff.rfl

theorem meets_startedBeforeBoot {container : Container} {bootTime : Option Nat}
    {post : Bool → World → Prop} :
    Meets host (startedBeforeBoot container bootTime) w post fault ↔
      post (bootTime.any fun bootTime =>
        (container.startedAt.bind host.parseRfc3339).any (· < bootTime)) w := Iff.rfl

end Specifications

end Runnerctl
