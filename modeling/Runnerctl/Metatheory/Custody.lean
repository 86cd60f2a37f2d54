import Runnerctl.Metatheory.Steps

/-!
# The protocol of a pass

A pass works on clones of the recorded runs.  `Custody` is what it keeps besides memory,
and `Act` is the protocol it follows: which clone is taken when, what has to be done for a
clone before the next step is taken for it, and when it is written back or dropped.  Operations
are awaited one at a time, between acts.  A tick is a run of moves of this protocol; what
every move preserves, every tick preserves.
-/

namespace Runnerctl

open Std Program Journal

/-! ## Events of a visit -/

namespace Event

/-- Events that a pass adds whatever it holds. -/
def routine : Event → Bool
  | .readConfig _ | .wroteConfig _ false | .cleared | .saved false => true
  | _ => false

/-- A step of the manager failed. -/
def fails : Event → Bool
  | .ended _ (.error _) | .file _ false | .saved false => true
  | _ => false

/-- Events between the await of an operation and its first poll. -/
def queued : Event → Bool
  | .handled polled _ _ _ => !polled
  | .edited => true
  | event => event.ofRequest

/-- A step failed whose failure ends the loop over the runs. -/
def aborts : Event → Bool
  | .ended (.dockerImage _) (.error _) | .ended (.githubToken _ _ _) (.error _)
  | .ended (.dockerCreate _ _) (.error _) | .ended (.dockerStart _) (.error _)
  | .file (.secureDir _) false | .file (.writeToken _) false | .saved false => true
  | _ => false

end Event

/-- The run whose directory or token an operation on files touches. -/
def FileOp.run? : FileOp → Option String
  | .removeLog _ => none
  | .secureDir id | .writeToken id | .removeToken id | .writeLog id | .removeDir id => some id

/-! ## Clones -/

/-- What a visit is for. -/
inductive Errand where
  /-- The container of a forced run is removed. -/
  | force
  /-- The run has a live container; its phase is observed. -/
  | observe
  /-- The run has a container that was created and is to be started. -/
  | start
  /-- The run has no container yet. -/
  | create
  /-- What is left of the run is removed. -/
  | clean
  /-- The run was dropped. -/
  | dropped
  deriving DecidableEq

/-- What the loop over the runs decides from the container that was listed for a run. -/
def Run.errand (run : Run) : Option Container → Errand
  | some container =>
      if container.live then .observe
      else if container.status == some "created" && !run.retiring then .start
      else .clean
  | none => if run.phase == .creating && !run.retiring then .create else .clean

/-- A record that the manager works on outside its memory, with the container that the last
listing shows for it.  `done` are the events that were added for it since it was taken. -/
structure Clone where
  run : Run
  errand : Errand
  container : Option Container
  done : List Event

namespace Clone

def note (clone : Clone) (event : Event) : Clone :=
  { clone with done := clone.done ++ [event] }

/-- The logs were written, and what else there is of the container was archived. -/
def Archived (clone : Clone) : Prop :=
  ∃ before text rest, clone.done = before ++
      .ended (.dockerLogs clone.run.id) (.ok text) ::
      .file (.writeLog clone.run.id) true :: rest ∧
    ∃ container, clone.container = some container ∧ (container.everStarted = true →
      .ended (.dockerArchive clone.run.id) (.ok ()) ∈ rest)

/-- The container is gone, then the registration, then the directory. -/
def Finished (clone : Clone) : Prop :=
  ∃ first profile auth scope fresh second third, clone.done = first ++
      .ended (.githubList profile auth scope 0) (.ok fresh) :: second ++ third ∧
    (clone.container = none ∨
      .ended (.dockerRemove clone.run.id false) (.ok ()) ∈ first) ∧
    (∀ remote, fresh.find? (·.name == clone.run.id) = some remote →
      .ended (.githubRemove profile auth scope remote.id) (.ok ()) ∈ second) ∧
    (.looked (.directory clone.run.id) false ∈ third ∨
      .file (.removeDir clone.run.id) true ∈ third)

/-- The container was started, and the run is recorded so in `s`. -/
def Started (clone : Clone) (s : State) : Prop :=
  s.runs[clone.run.id]? = some clone.run ∧ clone.run.phase = .starting ∧
    .ended (.dockerStart clone.run.id) (.ok ()) ∈ clone.done

/-- The visit stopped with an error: it was interrupted, or its last step failed. -/
def Failing (fails : Event → Bool) (clone : Clone) (w : World) : Prop :=
  w.engine.interrupted = true ∨
    ∃ before event, clone.done = before ++ [event] ∧ fails event = true

end Clone

/-! ## Custody -/

/-- What a pass keeps: memory as it was when the pass began, the containers that were listed
last, the forced runs and the ids that wait to be visited, the listed registrations, the
clone that is visited, the number of unexpected exits, and the result when it is over. -/
structure Custody where
  name : String
  at_ : Nat
  retryAt : Nat
  origin : State
  listed : Option (List Container)
  waiting : List Run
  ids : Option (List String)
  remotes : List RemoteRunner
  clone : Option Clone
  exits : Nat
  result : Option (Except Error ReconcileReport)

namespace Custody

/-- The custody of a pass that begins. -/
def opened (name : String) (at_ retryAt : Nat) (origin : State) : Custody where
  name := name
  at_ := at_
  retryAt := retryAt
  origin := origin
  listed := none
  waiting := []
  ids := none
  remotes := []
  clone := none
  exits := 0
  result := none

/-- Provisioning is not paused. -/
def allowed (c : Custody) : Bool := replenishmentAllowed c.retryAt c.at_

/-- An event is added for the clone that is visited. -/
def note (c : Custody) (event : Event) : Custody :=
  { c with clone := c.clone.map (·.note event) }

def hold (c : Custody) (clone : Clone) : Custody := { c with clone := some clone }

/-- The operations that the pass may begin. -/
def Permits (c : Custody) : Op → Prop
  | .dockerList _ => c.clone = none ∧ c.waiting = [] ∧ c.ids = none
  | .githubList _ _ _ ttl => c.clone = none ∧ c.waiting = [] ∧ c.ids = none ∨
      ttl = 0 ∧ ∃ clone, c.clone = some clone ∧ clone.errand = .clean
  | .dockerImage _ => c.allowed = true
  | .githubToken _ _ _ => c.allowed = true ∧ ∃ clone, c.clone = some clone ∧
      (clone.errand = .start ∨ clone.errand = .create)
  | .dockerCreate _ run => c.allowed = true ∧ ∃ clone, c.clone = some clone ∧
      clone.errand = .create ∧ clone.run = run
  | .dockerStart id => c.allowed = true ∧ ∃ clone, c.clone = some clone ∧
      clone.run.id = id ∧ (clone.errand = .start ∨ clone.errand = .create)
  | .dockerLogs id | .dockerArchive id => ∃ clone, c.clone = some clone ∧
      clone.run.id = id ∧ (clone.errand = .force ∨ clone.errand = .clean)
  | .dockerRemove id force => ∃ clone, c.clone = some clone ∧ clone.run.id = id ∧
      clone.run.logSaved = true ∧ clone.container.isSome = true ∧
      clone.errand = if force then .force else .clean
  | .dockerBootTime _ => ∃ clone, c.clone = some clone ∧ clone.errand = .clean
  | .dockerRepair run => ∃ clone, c.clone = some clone ∧ clone.errand = .clean ∧
      clone.run = run
  | .githubRemove profile auth scope remoteId => ∃ clone fresh remote, c.clone = some clone ∧
      clone.errand = .clean ∧
      .ended (.githubList profile auth scope 0) (.ok fresh) ∈ clone.done ∧ remote ∈ fresh ∧
      remote.name = clone.run.id ∧ remote.id = remoteId

/-- The event may be added to the history, and tells of nothing but itself. -/
def Allows (c : Custody) : Event → Prop
  | .file (.removeLog _) _ => c.clone = none
  | .file (.writeLog id) ok => ok = false ∧ ∃ clone, c.clone = some clone ∧ clone.run.id = id
  | .file op _ => ∃ clone, c.clone = some clone ∧ op.run? = some clone.run.id
  | .looked (.directory id) _ => ∃ clone, c.clone = some clone ∧ clone.run.id = id
  | event => event.routine = true

/-- The reply is noted for the clone that is visited, and tells of nothing else. -/
def Notes (c : Custody) : Event → Prop
  | .ended (.dockerList _) (.ok _) => False
  | .ended (.githubList _ _ _ ttl) (.ok _) => ttl = 0 ∧ ∃ clone, c.clone = some clone ∧
      clone.errand = .clean
  | .ended op _ => c.Permits op
  | _ => False

/-- The phase that is written back for a clone. -/
def Writes (c : Custody) (clone : Clone) (phase : Phase) : Prop :=
  match clone.errand with
  | .force | .clean => phase = .cleanup ∧ clone.container.isSome = true
  | .observe => phase = observedPhase (c.remotes.find? (·.name == clone.run.id))
  | .start | .create => c.allowed = false ∧ phase = clone.run.phase ∨
      c.allowed = true ∧ phase = .starting ∧
        .ended (.dockerStart clone.run.id) (.ok ()) ∈ clone.done
  | .dropped => False

/-- The visit of the clone is over. -/
def Closes (c : Custody) (clone : Clone) (w : World) : Prop :=
  match clone.errand with
  | .observe => w.engine.state.runs[clone.run.id]? = some clone.run ∧
      clone.run.phase = observedPhase (c.remotes.find? (·.name == clone.run.id))
  | .start | .create => c.allowed = true → clone.Started w.engine.state
  | .clean => clone.Failing Event.fails w
  | .force | .dropped => True

/-- The pass can end with this result. -/
def Ends (c : Custody) (w : World) : Except Error ReconcileReport → Prop
  | .ok report => report.unexpectedExits = c.exits ∧ c.clone = none ∧
      (c.ids = none ∨ c.ids = some [])
  | .error _ => c.ids = none ∨
      c.clone = none ∧ (c.ids = some [] ∨ w.engine.interrupted = true ∨
        ∃ before m, w.history = before ++ [m] ∧ m.event = .saved false) ∨
      ∃ clone, c.clone = some clone ∧ clone.Failing Event.aborts w

/-- The run that a pass records. -/
def newRun (managerId uuid : Uuid) (ps : PoolState) (pool : Pool) (createdAt : Nat) : Run where
  id := runId managerId uuid
  poolId := ps.id
  pool := pool
  generation := ps.generation
  createdAt := createdAt
  phase := .creating
  remoteId := none
  retiring := false
  force := false
  completedJob := false
  logSaved := false

/-- What a pass that is in the state `s` keeps once an operation has ended. -/
inductive Answers (c : Custody) (s : State) :
    (op : Op) → Except String op.Reply → Custody → Prop where
  | noted {op : Op} {reply : Except String op.Reply} :
      c.Notes (.ended op reply) → Answers c s op reply (c.note (.ended op reply))
  /-- The containers were listed. -/
  | list {managerId : String} {containers : List Container} :
      c.clone = none → c.waiting = [] → c.ids = none →
      Answers c s (.dockerList managerId) (.ok containers) { c with listed := some containers }
  /-- The registrations were listed.  All runs of the pool are going to be visited. -/
  | survey {ps : PoolState} {profile scope : String} {auth : Auth} {ttl : Nat}
      {remotes : List RemoteRunner} :
      c.result = none → c.origin.pools[c.name]? = some ps → c.waiting = [] → c.ids = none →
      c.clone = none →
      Answers c s (.githubList profile auth scope ttl) (.ok remotes)
        { c with
          remotes := remotes
          ids := some ((s.runsOf ps.id).map (·.id)) }

end Custody

/-- The operation that began last, if it has not ended. -/
def awaited (history : List Moment) : Option Op :=
  history.foldl (fun op m => match m.event with
    | .began op => some op
    | .ended _ _ | .crashed _ => none
    | _ => op) none

/-- The pass was not disturbed when it awaited an operation that has not been polled yet. -/
def Prompt (history : List Moment) : Prop :=
  ∃ before queued, history = before ++ queued ∧ Undisturbed (currentPass before) ∧
    ∀ m ∈ queued, m.event.queued = true

/-! ## The protocol -/

/-- One step of the protocol, while no operation is awaited. -/
inductive Act (host : Host) : Option Custody → World → Option Custody → World → Prop where
  | silent {c : Option Custody} {w w' : World} :
      w'.engine.state = w.engine.state → w'.store = w.store → w'.file = w.file →
      w'.history = w.history → w'.engine.epoch = w.engine.epoch →
      w'.engine.reconcileEpoch = w.engine.reconcileEpoch →
      w.asked ≤ w'.asked → w.clock ≤ w'.clock → Act host c w c w'
  | serve {c : Option Custody} {polled : Bool} {request : Request} {w w' : World} :
      Served host polled request w w' → Act host c w c w'
  | edit {c : Option Custody} {w : World} (text : Option String) :
      Act host c w c ((w.withFile text).log .edited)
  /-- A pass over a pool begins. -/
  | enter {w : World} {name : String} {p : PoolState} :
      w.engine.state.pools[name]? = some p →
      ¬ (w.clock < p.retryAt ∧ p.retryScope = .observation) →
      Act host none w (some (.opened name w.clock p.retryAt w.engine.state))
        { w.log (.passStarted name w.clock p.retryAt) with
          engine := { w.engine with reconcileEpoch := some w.engine.epoch } }
  | log {c : Custody} {w : World} {event : Event} :
      c.Allows event → Act host (some c) w (some (c.note event)) (w.log event)
  | save {c : Custody} {w : World} :
      Act host (some c) w (some c) ((w.withStore w.engine.state).log (.saved true))
  /-- The forced runs are cloned. -/
  | force {c : Custody} {w : World} {ps : PoolState} :
      c.result = none → c.origin.pools[c.name]? = some ps → c.ids = none → c.clone = none →
      Act host (some c) w
        (some { c with waiting := (w.engine.state.runsOf ps.id).filter (·.force) }) w
  /-- The next forced run is visited. -/
  | pick {c : Custody} {w : World} {run : Run} {rest : List Run}
      {containers : List Container} {container : Option Container} :
      c.waiting = run :: rest → c.ids = none → c.clone = none →
      c.listed = some containers →
      containers.find? (·.owned w.engine.state.managerId.text run) = container →
      Act host (some c) w
        (some ({ c with waiting := rest }.hold ⟨run, .force, container, []⟩)) w
  /-- The runs to be drained are marked. -/
  | drain {c : Custody} {w : World} {s : State} :
      c.result = none → c.clone = none → w.engine.state.markRetiring c.name = some s →
      Act host (some c) w (some c) (w.setState s)
  /-- The next run is visited. -/
  | visit {c : Custody} {w : World} {recorded run : Run} {rest : List String}
      {containers : List Container} {container : Option Container} :
      c.result = none → c.ids = some (recorded.id :: rest) → c.waiting = [] →
      c.clone = none →
      w.engine.state.runs[recorded.id]? = some recorded →
      c.listed = some containers →
      run = { recorded with
        remoteId := ((c.remotes.find? (·.name == recorded.id)).map (·.id)).or
          recorded.remoteId } →
      containers.find? (·.owned w.engine.state.managerId.text run) = container →
      Act host (some c) w
        (some ({ c with ids := some rest }.hold ⟨run, run.errand container, container, []⟩)) w
  /-- The mark of a completed job is looked for. -/
  | look {c : Custody} {w : World} {clone : Clone} {present : Bool} :
      c.clone = some clone → clone.errand = .clean → clone.container.isSome = true →
      Act host (some c) w
        (some (c.hold ({ clone with
          run := { clone.run with completedJob := present } }.note
            (.looked (.completed clone.run.id) present))))
        (w.log (.looked (.completed clone.run.id) present))
  /-- The logs of the container are written right after they were read. -/
  | wrote {c : Custody} {w : World} {clone : Clone} {before : List Moment} {m : Moment}
      {text : String} :
      c.clone = some clone → clone.run.logSaved = false → w.history = before ++ [m] →
      m.event = .ended (.dockerLogs clone.run.id) (.ok text) →
      Act host (some c) w (some (c.hold (clone.note (.file (.writeLog clone.run.id) true))))
        (w.log (.file (.writeLog clone.run.id) true))
  /-- The clone is written back with another phase. -/
  | write {c : Custody} {w : World} {clone : Clone} {phase : Phase} :
      c.clone = some clone → c.Writes clone phase →
      Act host (some c) w
        (some (c.hold { clone with run := { clone.run with phase } }))
        (w.setState (w.engine.state.setRun clone.run.id { clone.run with phase }))
  /-- The clone is written back as archived. -/
  | flag {c : Custody} {w : World} {clone : Clone} :
      c.clone = some clone → clone.run.logSaved = false → clone.Archived →
      Act host (some c) w
        (some (c.hold { clone with run := { clone.run with logSaved := true } }))
        (w.setState (w.engine.state.setRun clone.run.id { clone.run with logSaved := true }))
  | release {c : Custody} {w : World} {clone : Clone} :
      c.clone = some clone → c.Closes clone w →
      Act host (some c) w (some { c with clone := none }) w
  | drop {c : Custody} {w : World} {clone : Clone} {interrupted : Bool} {p : PoolState} :
      c.clone = some clone → clone.errand = .clean → clone.Finished →
      (clone.container = none → interrupted = false) →
      (clone.run.completedJob = true → w.engine.state.pools[c.name]? = some p) →
      Act host (some c) w
        (some ({ c with
          exits := c.exits + if unexpectedExit clone.run && !interrupted then 1 else 0 }.hold
            { clone with errand := .dropped }))
        ((w.setState (w.engine.state.dropRun c.name p clone.run)).log
          (.droppedRun clone.run interrupted))
  /-- A run is recorded under a fresh id, after a look at the clock. -/
  | record {c : Custody} {w : World} {ps : PoolState} {pool : Pool} {run : Run} :
      c.result = none → c.allowed = true → c.exits = 0 → c.ids = some [] →
        c.clone = none →
      c.origin.pools[c.name]? = some ps → c.origin.config.pool? c.name = some pool →
      run = Custody.newRun w.engine.state.managerId (host.answers w.asked).uuid ps pool
        ((w.advance host).advance host).clock →
      Act host (some c) w (some c) ((((w.advance host).advance host).setState
        (w.engine.state.setRun run.id run)).log (.newRun run))
  /-- The pool is deleted in memory, before its deletion is committed. -/
  | delete {c : Custody} {w : World} {ps : PoolState} :
      c.result = none → c.origin.pools[c.name]? = some ps → ps.deleting = true →
      c.clone = none →
      Act host (some c) w (some c) ((w.log (.finalising c.name)).setState
        { w.engine.state with pools := w.engine.state.pools.erase c.name })
  | commit {c : Custody} {w : World} {s : State} :
      c.clone = none →
      Committed host w.engine.state (w.engine.state.config.without c.name) s →
      Act host (some c) w (some c) (((w.withStore s).log (.saved true)).setState s)
  | rewrite {c : Custody} {w : World} (text : String) : c.clone = none →
      Act host (some c) w (some c) ((w.withFile (some text)).log (.wroteConfig w.file true))
  /-- The pass is over. -/
  | leave {c : Custody} {w : World} {result : Except Error ReconcileReport} :
      c.result = none → c.Ends w result →
      Act host (some c) w
        (some { c with waiting := [], clone := none, result := some result })
        { w with engine := { w.engine with reconcileEpoch := none } }
  /-- The time of the observation is noted. -/
  | observed {c : Custody} {w : World} {p : PoolState} {at_ : Nat} :
      c.result.isSome = true → w.engine.state.pools[c.name]? = some p →
      Act host (some c) w (some c)
        (w.setState (w.engine.state.setPool c.name { p with observedAt := at_ }))
  /-- The pass succeeded, and the pool was not paused. -/
  | clear {c : Custody} {w : World} {p : PoolState} {report : ReconcileReport} :
      c.result = some (.ok report) → report.unexpectedExits = 0 → c.retryAt ≤ c.at_ →
      w.engine.state.pools[c.name]? = some p →
      Act host (some c) w (some c)
        (w.setState (w.engine.state.setPool c.name { p with error := none, retryAt := 0 }))
  /-- A failure is recorded, after looks at the clock and at the dice. -/
  | fail {c : Custody} {w : World} {result : Except Error ReconcileReport} {p : PoolState}
      {error : String} {scope : RetryScope} {jitter : Nat} :
      c.result = some result →
      (match result with
        | .ok report => 0 < report.unexpectedExits ∧ scope = .provisioning
        | .error _ => scope = .observation) →
      w.engine.state.pools[c.name]? = some p → jitter ≤ 6 →
      ¬ ((w.advance host).clock < p.retryAt ∧ p.retryScope = scope) →
      Act host (some c) w (some c)
        ((((w.advance host).advance host).setState (w.engine.state.setPool c.name
          (p.failed scope error (w.advance host).clock jitter))).log (.failed c.name scope))
  /-- A failed observation invalidates the phases. -/
  | forget {c : Custody} {w : World} {error : Error} {p : PoolState} :
      c.result = some (.error error) → w.engine.state.pools[c.name]? = some p →
      Act host (some c) w (some c) (w.setState (w.engine.state.forgetPhases p.id))
  | close {c : Custody} {w : World} :
      c.result.isSome = true → Act host (some c) w none w

/-- One move of the protocol.  One operation is awaited at a time; requests and edits come
in between. -/
inductive Move (host : Host) : Option Custody → World → Option Custody → World → Prop where
  | act {c c' : Option Custody} {w w' : World} : Act host c w c' w' → Move host c w c' w'
  | begin {c : Custody} {w : World} {op : Op} :
      awaited w.history = none → Prompt w.history → c.Permits op →
      Move host (some c) w (some c) (w.log (.began op))
  | reply {c c' : Custody} {w : World} {op : Op} {reply : Except String op.Reply} :
      awaited w.history = some op → c.Answers w.engine.state op reply c' →
      Move host (some c) w (some c') (w.log (.ended op reply))

/-- A run of the protocol. -/
abbrev Course (host : Host) : Option Custody × World → Option Custody × World → Prop :=
  Relation.ReflTransGen fun before after => Move host before.1 before.2 after.1 after.2

/-! ## Operations in flight -/

/-- Events that concern no operation. -/
def Event.local : Event → Bool
  | .began _ | .ended _ _ | .crashed _ => false
  | _ => true

theorem Event.local_of_ofRequest {event : Event} (ofRequest : event.ofRequest = true) :
    event.local = true := by
  cases event <;> simp_all [Event.local, Event.ofRequest, Event.between, Event.inner]

theorem awaited_concat {history : List Moment} {m : Moment} :
    awaited (history ++ [m]) = match m.event with
      | .began op => some op
      | .ended _ _ | .crashed _ => none
      | _ => awaited history := by
  rw [awaited, List.foldl_append, List.foldl_cons, List.foldl_nil]
  rfl

theorem awaited_local {history : List Moment} {m : Moment} (quiet : m.event.local = true) :
    awaited (history ++ [m]) = awaited history := by
  rw [awaited_concat]
  split <;> simp_all [Event.local]

theorem awaited_append {history new : List Moment} (quiet : ∀ m ∈ new, m.event.local = true) :
    awaited (history ++ new) = awaited history := by
  induction new generalizing history with
  | nil => rw [List.append_nil]
  | cons m rest inductionHypothesis =>
      rw [List.forall_mem_cons] at quiet
      rw [List.append_cons, inductionHypothesis quiet.2, awaited_local quiet.1]

/-- A request that is handled meanwhile leaves the operation in flight. -/
theorem awaited_of_grows {first second : List Moment}
    (grows : Grows (fun m => m.event.ofRequest = true) first second) :
    awaited second = awaited first := by
  obtain ⟨new, rfl, added⟩ := grows
  exact awaited_append fun m member => Event.local_of_ofRequest (added m member)

/-- An act leaves the operation in flight. -/
theorem Act.awaited_eq {host : Host} {c c' : Option Custody} {w w' : World}
    (act : Act host c w c' w') : awaited w'.history = awaited w.history := by
  cases act with
  | silent _ _ _ same => rw [same]
  | serve served => exact awaited_of_grows served.grows
  | force | pick | visit | write | flag | release | drain | leave | observed | clear | forget
  | close => rfl
  | log allows =>
      rename_i event
      refine awaited_local ?_
      change event.local = true
      cases event <;> first | rfl | exact absurd allows Bool.false_ne_true
  | edit | enter | save | look | wrote | drop | fail | record | delete | commit | rewrite =>
      exact awaited_local rfl

/-! ## Interruptions -/

/-- The epoch tells whether a mutation was handled in the current pass. -/
def World.Aware (w : World) : Prop :=
  ∀ epoch, w.engine.reconcileEpoch = some epoch → epoch ≤ w.engine.epoch ∧
    (Restored (currentPass w.history) → (∃ m ∈ currentPass w.history, m.mutation = true) →
      epoch < w.engine.epoch)

namespace World.Aware

variable {host : Host} {w w' : World}

/-- A pass that was not interrupted was not disturbed. -/
theorem undisturbed (aware : w.Aware) {epoch : Nat}
    (reconciling : w.engine.reconcileEpoch = some epoch)
    (uninterrupted : w.engine.interrupted = false) : Undisturbed (currentPass w.history) := by
  intro restored m member
  by_contra mutation
  have later := (aware epoch reconciling).2 restored ⟨m, member, by simpa using mutation⟩
  rw [Engine.interrupted, reconciling, Option.any_some] at uninterrupted
  simp at uninterrupted
  omega

theorem of_idle (idle : w.engine.reconcileEpoch = none) : w.Aware := by
  intro epoch reconciling
  cases idle.symm.trans reconciling

/-- Moments that begin no pass and mutate nothing. -/
theorem append (aware : w.Aware) (epoch : w'.engine.epoch = w.engine.epoch)
    (reconcileEpoch : w'.engine.reconcileEpoch = w.engine.reconcileEpoch) {new : List Moment}
    (history : w'.history = w.history ++ new)
    (calm : ∀ m ∈ new, m.starts = false ∧ m.mutation = false) : w'.Aware := by
  rw [World.Aware, epoch, reconcileEpoch, history,
    currentPass_append fun m member => (calm m member).1]
  intro epoch reconciling
  obtain ⟨le, noticed⟩ := aware epoch reconciling
  refine ⟨le, fun restored disturbed => ?_⟩
  obtain ⟨m, member, mutation⟩ := disturbed
  refine noticed (restored_append.mp restored).1 ⟨m, ?_, mutation⟩
  rcases List.mem_append.mp member with member | member
  · exact member
  · cases mutation.symm.trans (calm m member).2

theorem concat (aware : w.Aware) (epoch : w'.engine.epoch = w.engine.epoch)
    (reconcileEpoch : w'.engine.reconcileEpoch = w.engine.reconcileEpoch) {m : Moment}
    (history : w'.history = w.history ++ [m]) (starts : m.starts = false)
    (mutation : m.mutation = false) : w'.Aware := by
  apply aware.append epoch reconcileEpoch history
  intro m' member
  cases List.mem_singleton.mp member
  exact ⟨starts, mutation⟩

theorem same (aware : w.Aware) (epoch : w'.engine.epoch = w.engine.epoch)
    (reconcileEpoch : w'.engine.reconcileEpoch = w.engine.reconcileEpoch)
    (history : w'.history = w.history) : w'.Aware := by
  apply aware.append epoch reconcileEpoch (history.trans (List.append_nil _).symm)
  intro m member
  exact absurd member List.not_mem_nil

/-- Mutations advance the epoch, unless the store cannot be read back. -/
theorem served (aware : w.Aware) {polled : Bool} {request : Request}
    (served : Served host polled request w w') : w'.Aware := by
  intro epoch reconciling
  obtain ⟨le, noticed⟩ := aware epoch (served.reconcileEpoch.symm.trans reconciling)
  refine ⟨le.trans served.epoch, ?_⟩
  obtain ⟨inner, result, history, between, outcome⟩ := served.outcome
  have quiet : ∀ m ∈ w.moment (.received request) :: inner ++
      [w'.moment (.handled polled request w.engine.state result)], m.starts = false := by
    intro m member
    simp only [List.mem_append, List.mem_cons, List.not_mem_nil, or_false] at member
    rcases member with (rfl | member) | rfl
    · rfl
    · have between := between m member
      rw [Moment.starts]
      split <;> simp_all [Event.between, Event.inner]
    · rfl
  rw [history, List.append_assoc, currentPass_append quiet]
  rintro restored ⟨m, member, mutation⟩
  obtain ⟨restored, added⟩ := restored_append.mp restored
  have raised : w'.engine.epoch = w.engine.epoch + (if request.mutating then 1 else 0) := by
    cases outcome with
    | accepted _ _ raised => exact raised
    | rejected _ _ raised => exact raised
    | unread failed =>
        refine absurd (fun m member => added m ?_) failed
        simp [member]
  simp only [List.mem_append, List.mem_cons, List.not_mem_nil, or_false] at member
  rcases member with member | (rfl | member) | rfl
  · exact (noticed restored ⟨m, member, mutation⟩).trans_le (raised ▸ Nat.le_add_right _ _)
  · cases mutation
  · have between := between m member
    rw [Moment.mutation] at mutation
    split at mutation <;> simp_all [Event.between, Event.inner]
  · change request.mutating = true at mutation
    rw [raised, mutation, if_pos rfl]
    exact Nat.lt_succ_of_le le

end World.Aware

/-- An act keeps track of interruptions. -/
theorem Act.aware {host : Host} {c c' : Option Custody} {w w' : World}
    (act : Act host c w c' w') (aware : w.Aware) : w'.Aware := by
  cases act with
  | silent _ _ _ history epoch reconcileEpoch => exact aware.same epoch reconcileEpoch history
  | serve served => exact aware.served served
  | enter =>
      intro epoch reconciling
      cases reconciling
      refine ⟨le_rfl, ?_⟩
      rintro - ⟨m, member, -⟩
      rw [World.log_history, currentPass_start rfl] at member
      exact absurd member List.not_mem_nil
  | leave => exact .of_idle rfl
  | force | pick | visit | write | flag | release | drain | observed | clear | forget | close =>
      exact aware.same rfl rfl rfl
  | log allows =>
      rename_i event
      cases event <;>
        first | exact aware.concat rfl rfl rfl rfl rfl | exact absurd allows Bool.false_ne_true
  | edit | save | look | wrote | drop | fail | record | delete | commit | rewrite =>
      exact aware.concat rfl rfl rfl rfl rfl

/-- A pass without a result is under way, and no other pass visits clones. -/
structure Undertaken (c : Option Custody) (w : World) : Prop where
  reconciling : ∀ custody, c = some custody → custody.result = none →
    ∃ epoch, w.engine.reconcileEpoch = some epoch
  visiting : ∀ custody, c = some custody →
    custody.waiting ≠ [] ∨ (∃ clone, custody.clone = some clone) → custody.result = none

namespace Undertaken

variable {host : Host} {c c' : Custody} {w w' : World} {clone : Clone}

theorem none (w : World) : Undertaken none w where
  reconciling _ same := nomatch same
  visiting _ same := nomatch same

theorem ongoing (underway : Undertaken (some c) w) (held : c.clone = some clone) :
    c.result = .none :=
  underway.visiting c rfl (.inr ⟨clone, held⟩)

/-- A pass that has no result yet goes on. -/
theorem of_ongoing (underway : Undertaken (some c) w) (ongoing : c.result = .none)
    (reconcileEpoch : w'.engine.reconcileEpoch = w.engine.reconcileEpoch)
    (result : c'.result = c.result) : Undertaken (some c') w' := by
  constructor
  · intro custody held _
    cases held
    rw [reconcileEpoch]
    exact underway.reconciling c rfl ongoing
  · intro custody held _
    cases held
    exact result.trans ongoing

theorem next (underway : Undertaken (some c) w)
    (reconcileEpoch : w'.engine.reconcileEpoch = w.engine.reconcileEpoch)
    (result : c'.result = c.result) (waiting : c'.waiting = c.waiting)
    (clone : c'.clone.isSome = true → c.clone.isSome = true) : Undertaken (some c') w' := by
  constructor
  · intro custody held ongoing
    cases held
    rw [reconcileEpoch]
    exact underway.reconciling c rfl (result.symm.trans ongoing)
  · intro custody held visits
    cases held
    rw [result]
    refine underway.visiting c rfl (visits.imp (waiting ▸ ·) ?_)
    rintro ⟨clone', held⟩
    exact Option.isSome_iff_exists.mp (clone (by rw [held]; rfl))

theorem answered (underway : Undertaken (some c) w) (ongoing : c.result = .none) {s : State}
    {op : Op} {reply : Except String op.Reply} (answers : c.Answers s op reply c')
    (reconcileEpoch : w'.engine.reconcileEpoch = w.engine.reconcileEpoch) :
    Undertaken (some c') w' := by
  cases answers with
  | noted | list | survey => exact underway.of_ongoing ongoing reconcileEpoch rfl

end Undertaken

theorem Act.underway {host : Host} {c c' : Option Custody} {w w' : World}
    (act : Act host c w c' w') (underway : Undertaken c w) : Undertaken c' w' := by
  have moved {w' : World} (same : w'.engine.reconcileEpoch = w.engine.reconcileEpoch) :
      Undertaken c w' :=
    ⟨fun custody held ongoing => same ▸ underway.reconciling custody held ongoing,
      underway.visiting⟩
  cases act with
  | silent _ _ _ _ _ reconcileEpoch => exact moved reconcileEpoch
  | serve served => exact moved served.reconcileEpoch
  | edit | save | drain | record | delete | commit | rewrite | observed | clear | fail
  | forget => exact moved rfl
  | enter =>
      constructor
      · intro custody held _
        cases held
        exact ⟨_, rfl⟩
      · intro custody held _
        cases held
        rfl
  | log =>
      refine underway.next rfl rfl rfl fun held => ?_
      simpa [Custody.note] using held
  | force ongoing | visit ongoing => exact underway.of_ongoing ongoing rfl rfl
  | pick waits =>
      exact underway.of_ongoing
        (underway.visiting _ rfl (.inl (waits ▸ List.cons_ne_nil _ _))) rfl rfl
  | look held | wrote held | write held | flag held | drop held =>
      exact underway.of_ongoing (underway.ongoing held) rfl rfl
  | release => exact underway.next rfl rfl rfl fun held => absurd held Bool.false_ne_true
  | leave =>
      constructor
      · intro custody held ongoing
        cases held
        cases ongoing
      · intro custody same visits
        cases same
        rcases visits with waits | ⟨_, held⟩
        · exact absurd rfl waits
        · cases held
  | close => exact .none _

/-! ## Records under their own ids -/

/-- Memory and the store record runs under their own ids. -/
def World.Keyed (w : World) : Prop :=
  w.engine.state.Keyed ∧ ∀ t, w.store = some t → t.Keyed

namespace State.Keyed

variable {s t : State}

theorem of_runs (keyed : s.Keyed) (same : t.runs = s.runs) : t.Keyed := by
  intro id run found
  exact keyed id run (same ▸ found)

theorem setRun (keyed : s.Keyed) {id : String} {run : Run} (same : run.id = id) :
    (s.setRun id run).Keyed := by
  intro other run' found
  rw [State.setRun_runs, TreeMap.get_insert] at found
  split at found
  · next equal =>
      cases found
      exact same.trans equal
  · exact keyed other run' found

theorem marks (keyed : s.Keyed) (marks : s.Marks t) : t.Keyed := by
  intro id run found
  rcases marks.flags id with ⟨-, missing⟩ | ⟨recorded, _, _, found', marked⟩
  · simp [found] at missing
  · cases found.symm.trans marked
    exact keyed id recorded found'

theorem dropRun (keyed : s.Keyed) (name : String) (p : PoolState) (run : Run) :
    (s.dropRun name p run).Keyed := by
  intro id other found
  rw [State.dropRun, TreeMap.get_erase] at found
  split at found
  · simp at found
  · exact keyed id other found

theorem forgetPhases (keyed : s.Keyed) (poolId : String) : (s.forgetPhases poolId).Keyed := by
  intro id run found
  obtain ⟨recorded, found', rfl⟩ := Option.map_eq_some_iff.mp
    ((ExtTreeMap.getElem?_map).symm.trans found)
  have same := keyed id recorded found'
  split <;> exact same

end State.Keyed

/-- An act keeps runs recorded under their own ids. -/
theorem Act.keyed {host : Host} {c c' : Option Custody} {w w' : World}
    (act : Act host c w c' w') (keyed : w.Keyed) : w'.Keyed := by
  have memory {s : State} (kept : s.Keyed) : (w.setState s).Keyed := ⟨kept, keyed.2⟩
  cases act with
  | silent state store =>
      rw [World.Keyed, state, store]
      exact keyed
  | serve served =>
      constructor
      · rcases served.memory with marks | same
        · exact keyed.1.marks marks
        · exact keyed.2 _ same
      · intro t stored
        rcases served.store.marks with same | ⟨s, stored', marks⟩
        · exact keyed.2 t (same ▸ stored)
        · cases stored.symm.trans stored'
          exact keyed.1.marks marks
  | edit | enter | log | force | pick | visit | look | wrote | release | rewrite | leave
  | close => exact keyed
  | save => exact ⟨keyed.1, fun t stored => Option.some.inj stored ▸ keyed.1⟩
  | drain _ _ marked =>
      exact memory (keyed.1.marks (.of_drained (State.drained_of_markRetiring marked)))
  | write => exact memory (keyed.1.setRun rfl)
  | flag => exact memory (keyed.1.setRun rfl)
  | drop => exact ⟨keyed.1.dropRun _ _ _, keyed.2⟩
  | record => exact ⟨keyed.1.setRun rfl, keyed.2⟩
  | delete => exact ⟨keyed.1.of_runs rfl, keyed.2⟩
  | commit _ committed =>
      obtain ⟨-, _, -, rfl⟩ := committed
      exact ⟨keyed.1.of_runs rfl, fun t stored =>
        Option.some.inj stored ▸ keyed.1.of_runs rfl⟩
  | observed | clear => exact memory (keyed.1.of_runs rfl)
  | fail => exact ⟨keyed.1.of_runs rfl, keyed.2⟩
  | forget => exact memory (keyed.1.forgetPhases _)

end Runnerctl
