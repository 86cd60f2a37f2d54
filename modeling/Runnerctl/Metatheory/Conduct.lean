import Runnerctl.Metatheory.Custody

/-!
# A tick follows the protocol

The programs of a tick are followed once, from effect to effect.  Their specifications say
in which custody they end; what is true of the world is left to the invariants of `Act`.
-/

namespace Runnerctl

open Std Program Journal

/-- The protocol leads from `start` to this custody and this world, in which `op` is awaited. -/
structure Arrives (host : Host) (start : Option Custody × World) (c : Option Custody)
    (op : Option Op) (w : World) : Prop where
  moves : Course host start (c, w)
  keyed : w.Keyed
  aware : w.Aware
  underway : Undertaken c w
  flight : awaited w.history = op

/-- The protocol leads from `start` to this custody and this world, in which no operation is
awaited. -/
abbrev Reaches (host : Host) (start : Option Custody × World) (c : Option Custody)
    (w : World) : Prop :=
  Arrives host start c none w

/-- The protocol leads to a visit of this clone. -/
abbrev Holding (host : Host) (start : Option Custody × World) (c : Custody) (clone : Clone)
    (w : World) : Prop :=
  Reaches host start (some (c.hold clone)) w

/-- A panic ended the tick, perhaps while a request was handled. -/
def Wrecks (host : Host) (start : Option Custody × World) (w : World) : Prop :=
  ∃ c mid, Course host start (c, mid) ∧ (w = mid ∨ ∃ request, Pending host request mid w)

/-- A part of a tick stopped: with a panic, or with an error that satisfies `Q`. -/
def Halted (host : Host) (start : Option Custody × World) (Q : Error → World → Prop) :
    Fault Error → World → Prop
  | .panic, w => Wrecks host start w
  | .error error, w => Q error w

/-- A part of a visit stopped with an error that it has a reason for. -/
def Breaks (host : Host) (start : Option Custody × World) (fails : Event → Bool)
    (c : Custody) (errand : Errand) : Fault Error → World → Prop :=
  Halted host start fun error w => ∃ clone, clone.errand = errand ∧
    (w.engine.interrupted = true ∨ error ≠ .interrupted ∧
      ∃ before event, clone.done = before ++ [event] ∧ fails event = true) ∧
    Holding host start c clone w

section Effects

variable {host : Host} {start : Option Custody × World} {w w' : World}

theorem Halted.mono {Q Q' : Error → World → Prop} {fault : Fault Error}
    (halted : Halted host start Q fault w) (weaker : ∀ error, Q error w → Q' error w) :
    Halted host start Q' fault w := by
  cases fault with
  | panic => exact halted
  | error error => exact weaker error halted

namespace Arrives

variable {c c' : Option Custody} {op : Option Op}

theorem act (arrives : Arrives host start c op w) (act : Act host c w c' w') :
    Arrives host start c' op w' :=
  ⟨arrives.moves.tail (.act act), act.keyed arrives.keyed, act.aware arrives.aware,
    act.underway arrives.underway, act.awaited_eq.trans arrives.flight⟩

theorem silent (arrives : Arrives host start c op w)
    (state : w'.engine.state = w.engine.state) (store : w'.store = w.store)
    (file : w'.file = w.file) (history : w'.history = w.history)
    (epoch : w'.engine.epoch = w.engine.epoch)
    (reconcileEpoch : w'.engine.reconcileEpoch = w.engine.reconcileEpoch)
    (asked : w.asked ≤ w'.asked) (clock : w.clock ≤ w'.clock) : Arrives host start c op w' :=
  arrives.act (.silent state store file history epoch reconcileEpoch asked clock)

theorem advance (arrives : Arrives host start c op w) :
    Arrives host start c op (w.advance host) :=
  arrives.silent rfl rfl rfl rfl rfl rfl (Nat.le_succ _) (Nat.le_add_right ..)

theorem published (arrives : Arrives host start c op w) : Arrives host start c op w.published :=
  arrives.silent rfl rfl rfl rfl rfl rfl le_rfl le_rfl

theorem wrecks (arrives : Arrives host start c op w) : Wrecks host start w :=
  ⟨c, w, arrives.moves, .inl rfl⟩

end Arrives

/-- What happens at an await leaves the custody and the operation in flight as they are. -/
theorem happen_arrives {c : Option Custody} {op : Option Op} (arrives : Arrives host start c op w)
    (polled : Bool) (happening : Happening) :
    Meets host (happen polled happening) w (fun _ => Arrives host start c op)
      (fun fault w' => fault = .panic ∧ Wrecks host start w') := by
  cases happening with
  | edit text =>
      exact meets_bind.mpr (meets_modify.mpr (meets_record.mpr (arrives.act (.edit text))))
  | request request =>
      exact (serveRequest_meets host polled request w).mono
        (fun _ _ served => arrives.act (.serve served))
        fun _ _ stopped => ⟨stopped.2.1, c, w, arrives.moves, .inr ⟨request, stopped.1⟩⟩

theorem happenings_arrive {c : Option Custody} {op : Option Op}
    (arrives : Arrives host start c op w) (polled : Bool) (happenings : List Happening) :
    Meets host (happenings.forM (happen polled)) w (fun _ => Arrives host start c op)
      (fun fault w' => fault = .panic ∧ Wrecks host start w') :=
  Meets.forM (fun _ => Arrives host start c op)
    (fun happening _ _ arrives => happen_arrives arrives polled happening) arrives

theorem happenings_queue (happenings : List Happening) (w : World) :
    Meets host (happenings.forM (happen false)) w
      (fun _ w' => Grows (fun m => m.event.queued = true) w.history w'.history)
      (fun _ _ => True) := by
  let invariant (_ : List Happening) (w' : World) : Prop :=
    Grows (fun m => m.event.queued = true) w.history w'.history
  refine Meets.forM invariant (fun happening _ w₁ grows => ?_) (.refl _)
  cases happening with
  | edit text =>
      exact meets_bind.mpr (meets_modify.mpr (meets_record.mpr (grows.trans (.concat rfl))))
  | request request =>
      refine (serveRequest_meets host false request w₁).mono (fun _ w₂ served => ?_)
        fun _ _ _ => trivial
      obtain ⟨inner, result, history, between, -⟩ := served.outcome
      refine grows.trans ⟨_, history.trans (List.append_assoc ..), fun m member => ?_⟩
      simp only [List.mem_append, List.mem_cons, List.not_mem_nil, or_false] at member
      rcases member with (rfl | member) | rfl
      · rfl
      · have between := between m member
        cases event : m.event <;>
          simp_all [Event.between, Event.inner, Event.queued, Event.ofRequest]
      · rfl

/-- An operation is awaited.  `after` is the custody after its reply. -/
theorem external_reaches {c : Custody} (reaches : Reaches host start (some c) w)
    (ongoing : c.result = none) (op : Op) (permits : c.Permits op)
    (after : State → Except String op.Reply → Custody)
    (answers : ∀ s reply, c.Answers s op reply (after s reply)) :
    Meets host (external op) w
      (fun reply w' => Reaches host start (some (after w'.engine.state (.ok reply))) w' ∧
        ∃ before m, w'.history = before ++ [m] ∧ m.event = .ended op (.ok reply))
      (Halted host start fun error w' =>
        (w'.engine.interrupted = true ∧ (Reaches host start (some c) w' ∨
          ∃ reply, Reaches host start (some (after w'.engine.state reply)) w')) ∨
        error ≠ .interrupted ∧
          ∃ failure, Reaches host start (some (after w'.engine.state (.error failure))) w') := by
  refine meets_bind.mpr (meets_engine.mpr ?_)
  split
  · next interrupted => exact .inl ⟨interrupted, .inl reaches⟩
  · next uninterrupted =>
    refine meets_bind.mpr (meets_consult.mpr ?_)
    refine ((happenings_arrive reaches.advance false _).and (happenings_queue _ _)).seq
      (fun fault w₁ stopped => ?_) fun _ w₁ early => ?_
    · rw [stopped.1.1]
      exact stopped.1.2
    obtain ⟨early, queue⟩ := early
    have prompt : Prompt w₁.history := by
      obtain ⟨queued, history, added⟩ := queue
      obtain ⟨epoch, reconciling⟩ := reaches.underway.reconciling c rfl ongoing
      exact ⟨w.history, queued, history,
        reaches.aware.undisturbed reconciling (by simpa using uninterrupted), added⟩
    have begun : Arrives host start (some c) (some op) (w₁.log (.began op)) :=
      ⟨early.moves.tail (.begin early.flight prompt permits), early.keyed,
        early.aware.concat rfl rfl rfl rfl rfl, early.underway.next rfl rfl rfl id, by
          rw [World.log_history, awaited_concat]
          rfl⟩
    refine meets_bind.mpr (meets_record.mpr ?_)
    refine (happenings_arrive begun true _).seq (fun fault w₂ stopped => ?_) fun _ w₂ late => ?_
    · rw [stopped.1]
      exact stopped.2
    generalize (host.answers w.asked).reply op = reply
    refine meets_bind.mpr (meets_record.mpr (meets_bind.mpr (meets_engine.mpr ?_)))
    have replied : Reaches host start (some (after w₂.engine.state reply))
        (w₂.log (.ended op reply)) :=
      ⟨late.moves.tail (.reply late.flight (answers _ reply)), late.keyed,
        late.aware.concat rfl rfl rfl rfl rfl,
        late.underway.answered ongoing (answers _ reply) rfl, by
          rw [World.log_history, awaited_concat]
          rfl⟩
    split
    · next interrupted => exact .inl ⟨interrupted, .inr ⟨reply, replied⟩⟩
    · cases reply with
      | ok value => exact ⟨replied, _, _, rfl, rfl⟩
      | error failure => exact .inr ⟨fun same => (by cases same), failure, replied⟩

end Effects

/-! ## Effects of a visit -/

section Visit

variable {host : Host} {start : Option Custody × World} {w w' : World} {c : Custody}
  {clone : Clone} {fails : Event → Bool}

/-- An operation is awaited for a clone. -/
theorem external_holding (holding : Holding host start c clone w) (op : Op)
    (permits : (c.hold clone).Permits op)
    (notes : ∀ reply, (c.hold clone).Notes (.ended op reply))
    (failing : ∀ failure, fails (.ended op (.error failure)) = true) :
    Meets host (external op) w
      (fun reply w' => Holding host start c (clone.note (.ended op (.ok reply))) w' ∧
        ∃ before m, w'.history = before ++ [m] ∧ m.event = .ended op (.ok reply))
      (Breaks host start fails c clone.errand) := by
  refine (external_reaches holding (holding.underway.ongoing rfl) op permits
    (fun _ reply => (c.hold clone).note (.ended op reply))
    fun _ reply => .noted (notes reply)).mono (fun _ _ => id) fun fault w₁ halted =>
      halted.mono fun error stopped => ?_
  rcases stopped with
    ⟨interrupted, reached | ⟨reply, reached⟩⟩ | ⟨genuine, failure, reached⟩
  · exact ⟨clone, rfl, .inl interrupted, reached⟩
  · exact ⟨clone.note (.ended op reply), rfl, .inl interrupted, reached⟩
  · exact ⟨clone.note (.ended op (.error failure)), rfl,
      .inr ⟨genuine, _, _, rfl, failing failure⟩, reached⟩

/-- A local operation touches the files of the clone. -/
theorem fileOp_holding (holding : Holding host start c clone w) (op : FileOp)
    (allows : ∀ ok, (c.hold clone).Allows (.file op ok))
    (failing : fails (.file op false) = true) :
    Meets host (fileOp op) w
      (fun _ => Holding host start c (clone.note (.file op true)))
      (Breaks host start fails c clone.errand) := by
  have logs (ok : Bool) : Holding host start c (clone.note (.file op ok))
      ((w.advance host).log (.file op ok)) :=
    holding.advance.act (.log (allows ok))
  refine meets_fileOp.mpr ?_
  split
  · exact logs true
  · exact ⟨clone.note (.file op false), rfl, .inr ⟨nofun, _, _, rfl, failing⟩, logs false⟩

theorem save_holding (holding : Holding host start c clone w)
    (failing : fails (.saved false) = true) :
    Meets host save w
      (fun _ w' => Holding host start c clone w' ∧ w'.engine.state = w.engine.state)
      (Breaks host start fails c clone.errand) := by
  refine meets_save.mpr ?_
  split
  · exact ⟨(holding.advance.act .save).published, rfl⟩
  · exact ⟨clone.note (.saved false), rfl, .inr ⟨nofun, _, _, rfl, failing⟩,
      holding.advance.act (.log rfl)⟩

/-- The clone after some more events were added for it. -/
def Clone.noted (clone : Clone) (new : List Event) : Clone :=
  { clone with done := clone.done ++ new }

theorem Clone.noted_nil (clone : Clone) : clone.noted [] = clone := by
  simp [Clone.noted]

theorem Clone.noted_noted (clone : Clone) (first second : List Event) :
    (clone.noted first).noted second = clone.noted (first ++ second) := by
  simp [Clone.noted]

/-- The clone after its logs were saved. -/
def Clone.flagged (clone : Clone) : Clone :=
  { clone with run := { clone.run with logSaved := true } }

/-! ## Archiving -/

theorem archive_holding (holding : Holding host start c clone w) {container : Container}
    (found : clone.container = some container)
    (errand : clone.errand = .force ∨ clone.errand = .clean) :
    Meets host (archive clone.run container) w
      (fun run w' => run = clone.flagged.run ∧
        ∃ new, Holding host start c (clone.flagged.noted new) w')
      (Breaks host start Event.fails c clone.errand) := by
  unfold archive
  split
  · next saved =>
      have same : clone.flagged = clone := by
        rw [Clone.flagged, ← saved]
      refine ⟨by rw [same], [], ?_⟩
      rw [same, Clone.noted_nil]
      exact holding
  · next unsaved =>
      replace unsaved : clone.run.logSaved = false := by simpa using unsaved
      refine (external_holding holding (.dockerLogs clone.run.id) ⟨clone, rfl, rfl, errand⟩
        (fun _ => ⟨clone, rfl, rfl, errand⟩) fun _ => rfl).bind
          fun text w₁ ⟨read, before, m, history, event⟩ => ?_
      -- the write follows the read at once
      have writes : Meets host (fileOp (.writeLog clone.run.id)) w₁
          (fun _ => Holding host start c ((clone.note
            (.ended (.dockerLogs clone.run.id) (.ok text))).note
              (.file (.writeLog clone.run.id) true)))
          (Breaks host start Event.fails c clone.errand) := by
        refine meets_fileOp.mpr ?_
        split
        · exact read.advance.act (.wrote rfl unsaved history event)
        · exact ⟨(clone.note _).note (.file (.writeLog clone.run.id) false), rfl,
            .inr ⟨nofun, _, _, rfl, rfl⟩, read.advance.act (.log ⟨rfl, _, rfl, rfl⟩)⟩
      refine writes.bind fun _ w₂ written => ?_
      have archived : Meets host
          (if container.everStarted then external (.dockerArchive clone.run.id) else pure ()) w₂
          (fun _ w' => ∃ rest, Holding host start c (clone.noted
            (.ended (.dockerLogs clone.run.id) (.ok text) ::
              .file (.writeLog clone.run.id) true :: rest)) w' ∧
            (container.everStarted = true →
              .ended (.dockerArchive clone.run.id) (.ok ()) ∈ rest))
          (Breaks host start Event.fails c clone.errand) := by
        have same (rest : List Event) : clone.noted (.ended (.dockerLogs clone.run.id) (.ok text) ::
            .file (.writeLog clone.run.id) true :: rest) = ((clone.note
              (.ended (.dockerLogs clone.run.id) (.ok text))).note
                (.file (.writeLog clone.run.id) true)).noted rest := by
          simp [Clone.noted, Clone.note]
        split
        · refine (external_holding written (.dockerArchive clone.run.id) ⟨_, rfl, rfl, errand⟩
            (fun _ => ⟨_, rfl, rfl, errand⟩) fun _ => rfl).mono (fun _ w₃ ⟨done, _⟩ => ?_)
              fun _ _ => id
          refine ⟨[.ended (.dockerArchive clone.run.id) (.ok ())], ?_, fun _ => by simp⟩
          rw [same]
          exact done
        · next unstarted =>
            refine ⟨[], ?_, fun started => absurd started unstarted⟩
            rw [same, Clone.noted_nil]
            exact written
      refine archived.when_bind fun _ w₃ ⟨rest, archived, complete⟩ => ?_
      refine meets_bind.mpr (meets_insertRun.mpr ?_)
      let new := .ended (.dockerLogs clone.run.id) (.ok text) ::
        .file (.writeLog clone.run.id) true :: rest
      have flag := archived.act (.flag rfl unsaved
        ⟨clone.done, text, rest, rfl, container, found, complete⟩)
      have flagged : Holding host start c (clone.flagged.noted new) _ := flag
      exact (save_holding flagged rfl).bind
        fun _ w₄ saved => ⟨rfl, _, saved.1⟩

theorem removeStopped_holding (holding : Holding host start c clone w) {container : Container}
    (found : clone.container = some container) (errand : clone.errand = .clean) :
    Meets host (removeStopped clone.run.id clone.run container) w
      (fun run w' => run = clone.flagged.run ∧ ∃ new,
        Holding host start c (clone.flagged.noted new) w' ∧
        .ended (.dockerRemove clone.run.id false) (.ok ()) ∈ new)
      (Breaks host start Event.fails c clone.errand) := by
  unfold removeStopped
  refine (archive_holding holding found (.inr errand)).bind
    fun run w₁ ⟨same, new, archived⟩ => ?_
  have permits : (c.hold (clone.flagged.noted new)).Permits (.dockerRemove clone.run.id false) :=
    ⟨_, rfl, rfl, rfl, by simp [Clone.flagged, Clone.noted, found], errand⟩
  refine (external_holding archived (.dockerRemove clone.run.id false) permits
    (fun _ => permits) fun _ => rfl).bind fun _ w₂ ⟨removed, _⟩ => ?_
  refine ⟨same, new ++ [.ended (.dockerRemove clone.run.id false) (.ok ())], ?_, by simp⟩
  rw [← Clone.noted_noted]
  exact removed

/-! ## Starting containers -/

theorem recordStart_holding (new : List Event)
    (holding : Holding host start c (clone.noted new) w)
    (errand : clone.errand = .start ∨ clone.errand = .create) (allowed : c.allowed = true)
    (started : .ended (.dockerStart clone.run.id) (.ok ()) ∈ new) :
    Meets host (do
      insertRun clone.run.id { clone.run with phase := .starting }
      save) w
      (fun _ w' => ∃ clone', clone'.errand = clone.errand ∧ Holding host start c clone' w' ∧
        clone'.Started w'.engine.state)
      (Breaks host start Event.aborts c clone.errand) := by
  refine meets_bind.mpr (meets_insertRun.mpr ?_)
  have writes : (c.hold (clone.noted new)).Writes (clone.noted new) .starting := by
    rw [Custody.Writes]
    rcases errand with same | same <;> rw [Clone.noted, same] <;>
      exact .inr ⟨allowed, rfl, List.mem_append_right _ started⟩
  refine (save_holding (holding.act (.write rfl writes)) rfl).mono (fun _ _ saved => ?_)
    fun _ _ => id
  refine ⟨{ clone.noted new with run := { clone.run with phase := .starting } }, rfl,
    saved.1, ?_⟩
  rw [saved.2]
  exact ⟨TreeMap.get_insert_self .., rfl, List.mem_append_right _ started⟩

theorem startCreated_holding (holding : Holding host start c clone w)
    (errand : clone.errand = .start) (allowed : c.allowed = true) (pass : Pass) :
    Meets host (startCreated pass clone.run.id clone.run) w
      (fun _ w' => ∃ clone', clone'.errand = clone.errand ∧ Holding host start c clone' w' ∧
        clone'.Started w'.engine.state)
      (Breaks host start Event.aborts c clone.errand) := by
  unfold startCreated
  refine (external_holding holding (.githubToken _ _ _) ⟨allowed, clone, rfl, .inl errand⟩
    (fun _ => ⟨allowed, clone, rfl, .inl errand⟩)
      fun _ => rfl).bind fun _ w₁ ⟨token, _⟩ => ?_
  refine (fileOp_holding token (.writeToken clone.run.id) (fun _ => ⟨_, rfl, rfl⟩)
    rfl).bind fun _ w₂ written => ?_
  refine (external_holding written (.dockerStart clone.run.id)
    ⟨allowed, _, rfl, rfl, .inl errand⟩ (fun _ => ⟨allowed, _, rfl, rfl, .inl errand⟩)
      fun _ => rfl).bind fun _ w₃ ⟨started, _⟩ => ?_
  exact recordStart_holding [_, _, .ended (.dockerStart clone.run.id) (.ok ())]
    (by simpa [Clone.note, Clone.noted] using started) (.inl errand) allowed (by simp)

theorem createRecorded_holding (holding : Holding host start c clone w)
    (errand : clone.errand = .create) (allowed : c.allowed = true) (pass : Pass) :
    Meets host (createRecorded pass clone.run.id clone.run) w
      (fun _ w' => ∃ clone', clone'.errand = clone.errand ∧ Holding host start c clone' w' ∧
        clone'.Started w'.engine.state)
      (Breaks host start Event.aborts c clone.errand) := by
  unfold createRecorded
  refine (external_holding holding (.dockerImage clone.run.pool.image) allowed
    (fun _ => allowed) fun _ => rfl).bind fun _ w₁ ⟨image, _⟩ => ?_
  refine (fileOp_holding image (.secureDir clone.run.id) (fun _ => ⟨_, rfl, rfl⟩)
    rfl).bind fun _ w₂ secured => ?_
  refine (external_holding secured (.githubToken _ _ _) ⟨allowed, _, rfl, .inr errand⟩
    (fun _ => ⟨allowed, _, rfl, .inr errand⟩) fun _ => rfl).bind fun _ w₃ ⟨token, _⟩ => ?_
  refine (fileOp_holding token (.writeToken clone.run.id) (fun _ => ⟨_, rfl, rfl⟩)
    rfl).bind fun _ w₄ written => ?_
  refine (external_holding written (.dockerCreate pass.managerId.text clone.run)
    ⟨allowed, _, rfl, errand, rfl⟩ (fun _ => ⟨allowed, _, rfl, errand, rfl⟩)
      fun _ => rfl).bind fun _ w₅ ⟨created, _⟩ => ?_
  refine (external_holding created (.dockerStart clone.run.id)
    ⟨allowed, _, rfl, rfl, .inr errand⟩ (fun _ => ⟨allowed, _, rfl, rfl, .inr errand⟩)
      fun _ => rfl).bind fun _ w₆ ⟨started, _⟩ => ?_
  exact recordStart_holding [_, _, _, _, _, .ended (.dockerStart clone.run.id) (.ok ())]
    (by simpa [Clone.note, Clone.noted] using started) (.inr errand) allowed (by simp)

/-! ## Cleaning up -/

/-- The registration that is listed under the name of the run is removed. -/
theorem deregister_holding (holding : Holding host start c clone w)
    (errand : clone.errand = .clean) (pass : Pass) :
    Meets host (deregister pass clone.run.id) w
      (fun _ w' => ∃ profile auth scope fresh second, Holding host start c
          (clone.noted (.ended (.githubList profile auth scope 0) (.ok fresh) :: second)) w' ∧
        ∀ remote, fresh.find? (·.name == clone.run.id) = some remote →
          .ended (.githubRemove profile auth scope remote.id) (.ok ()) ∈ second)
      (Breaks host start Event.fails c clone.errand) := by
  unfold deregister
  have notes (reply : Except String (List RemoteRunner)) : (c.hold clone).Notes
      (.ended (.githubList pass.pool.auth pass.auth pass.pool.apiScope 0) reply) := by
    cases reply with
    | ok _ => exact ⟨rfl, clone, rfl, errand⟩
    | error _ => exact .inr ⟨rfl, clone, rfl, errand⟩
  refine (external_holding holding (.githubList pass.pool.auth pass.auth pass.pool.apiScope 0)
    (.inr ⟨rfl, clone, rfl, errand⟩) notes fun _ => rfl).bind fun fresh w₁ answered => ?_
  have listed := answered.1
  split
  · next remote there =>
      have permits : (c.hold (clone.note (.ended
          (.githubList pass.pool.auth pass.auth pass.pool.apiScope 0) (.ok fresh)))).Permits
          (.githubRemove pass.pool.auth pass.auth pass.pool.apiScope remote.id) := by
        refine ⟨_, fresh, remote, rfl, errand, by simp [Clone.note],
          List.mem_of_find?_eq_some there, ?_, rfl⟩
        exact beq_iff_eq.mp
          (List.find?_some (p := fun r : RemoteRunner => r.name == clone.run.id) there)
      refine (external_holding listed _ permits (fun _ => permits) fun _ => rfl).mono
        (fun _ w₂ answered => ?_) fun _ _ => id
      have removed := answered.1
      refine ⟨pass.pool.auth, pass.auth, pass.pool.apiScope, fresh,
        [.ended (.githubRemove pass.pool.auth pass.auth pass.pool.apiScope remote.id) (.ok ())],
        ?_, ?_⟩
      · simpa [Clone.note, Clone.noted] using removed
      · intro other same
        obtain rfl : remote = other := Option.some.inj (there.symm.trans same)
        exact List.mem_singleton_self _
  · next missing =>
      refine ⟨pass.pool.auth, pass.auth, pass.pool.apiScope, fresh, [], ?_, ?_⟩
      · simpa [Clone.note, Clone.noted] using listed
      · intro other same
        cases missing.symm.trans same

theorem removeDirectory_holding (holding : Holding host start c clone w)
    (errand : clone.errand = .clean) :
    Meets host (removeDirectory clone.run.id clone.run) w
      (fun _ w' => ∃ third, Holding host start c (clone.noted third) w' ∧
        (.looked (.directory clone.run.id) false ∈ third ∨
          .file (.removeDir clone.run.id) true ∈ third))
      (Breaks host start Event.fails c clone.errand) := by
  unfold removeDirectory
  refine meets_bind.mpr (meets_pathExists.mpr ?_)
  have looked : Holding host start c (clone.note
      (.looked (.directory clone.run.id) (host.answers w.asked).present)) _ :=
    holding.advance.act (.log ⟨clone, rfl, rfl⟩)
  generalize (host.answers w.asked).present = present at looked ⊢
  cases present with
  | false =>
      exact ⟨[.looked (.directory clone.run.id) false], looked, .inl (by simp)⟩
  | true =>
      let looker := clone.note (.looked (.directory clone.run.id) true)
      have again (ok : Bool) {w : World} (holding : Holding host start c looker w) :
          Holding host start c (looker.note (.file (.removeDir clone.run.id) ok))
            ((w.advance host).log (.file (.removeDir clone.run.id) ok)) :=
        holding.advance.act (.log ⟨looker, rfl, rfl⟩)
      refine meets_bind.mpr (meets_attempt.mpr (meets_fileOp.mpr ?_))
      split
      · refine ⟨[.looked (.directory clone.run.id) true, .file (.removeDir clone.run.id) true],
          ?_, .inr (by simp)⟩
        simpa [looker, Clone.note, Clone.noted] using again true looked
      · have failed := again false looked
        dsimp only
        split
        · have permits : (c.hold (looker.note (.file (.removeDir clone.run.id) false))).Permits
              (.dockerRepair clone.run) := ⟨_, rfl, errand, rfl⟩
          refine (external_holding failed (.dockerRepair clone.run) permits (fun _ => permits)
            fun _ => rfl).bind fun _ w₂ ⟨repaired, _⟩ => ?_
          refine (fileOp_holding repaired (.removeDir clone.run.id) (fun _ => ⟨_, rfl, rfl⟩)
            rfl).mono
            (fun _ w₃ removed => ?_) fun _ _ => id
          refine ⟨[.looked (.directory clone.run.id) true, .file (.removeDir clone.run.id) false,
            .ended (.dockerRepair clone.run) (.ok ()), .file (.removeDir clone.run.id) true],
            ?_, .inr (by simp)⟩
          simpa [looker, Clone.note, Clone.noted] using removed
        · exact ⟨looker.note (.file (.removeDir clone.run.id) false), rfl,
            .inr ⟨nofun, _, _, rfl, rfl⟩, failed⟩

/-! ## Dropping a run -/

/-- A visit ended, and changed the number of exits at most. -/
def Visited (host : Host) (start : Option Custody × World) (c : Custody) (progress : Progress)
    (w : World) : Prop :=
  Reaches host start (some { c with
    clone := none
    exits := progress.report.unexpectedExits }) w

/-- The loop over the runs is left with an error. -/
def Abandons (host : Host) (start : Option Custody × World) (c : Custody) :
    Fault Error → World → Prop :=
  Halted host start fun _ w => ∃ clone exits, clone.Failing Event.aborts w ∧
    Holding host start { c with exits } clone w

theorem Breaks.abandons {exits : Nat} {errand : Errand} {fault : Fault Error}
    (breaks : Breaks host start Event.aborts { c with exits } errand fault w) :
    Abandons host start c fault w :=
  Halted.mono breaks fun _ ⟨clone, _, reason, holding⟩ =>
    ⟨clone, exits, reason.imp_right And.right, holding⟩

/-- An error of the cleanup is collected. -/
theorem collected (holding : Holding host start c clone w) (errand : clone.errand = .clean)
    (failing : clone.Failing Event.fails w) {progress : Progress}
    (counts : progress.report.unexpectedExits = c.exits) (error : Error) :
    Visited host start c (progress.collect error) w := by
  have closes : (c.hold clone).Closes clone w := by
    rw [Custody.Closes, errand]
    exact failing
  have released := holding.act (.release rfl closes)
  have total : (progress.collect error).report.unexpectedExits = c.exits := counts
  unfold Visited
  rw [total]
  exact released

theorem dropRun_holding (holding : Holding host start c clone w) (errand : clone.errand = .clean)
    (finished : clone.Finished) {interrupted : Bool}
    (excused : clone.container = none → interrupted = false) {pass : Pass}
    (name : pass.name = c.name) {progress : Progress}
    (counts : progress.report.unexpectedExits = c.exits) :
    Meets host (dropRun pass clone.run.id clone.run interrupted progress) w
      (Visited host start c) (Abandons host start c) := by
  unfold dropRun
  have reset : Meets host (if clone.run.completedJob then resetFailures pass.name else pure ()) w
      (fun _ w' => ∃ p, (clone.run.completedJob = true →
        w.engine.state.pools[c.name]? = some p) ∧
        w' = w.setState { w.engine.state with
          pools := if clone.run.completedJob then
            w.engine.state.pools.insert c.name { p with failures := 0 }
          else w.engine.state.pools })
      (Abandons host start c) := by
    split
    · rw [name]
      refine meets_bind.mpr (meets_poolOf.mpr ?_)
      split
      · next p found =>
          exact meets_bind.mpr (meets_getState.mpr
            (meets_setState.mpr ⟨p, fun _ => found, rfl⟩))
      · exact holding.wrecks
    · exact ⟨⟨"", false, false, 0, 0, 0, .observation, none, 0⟩,
        fun completed => absurd completed ‹_›, rfl⟩
  refine reset.when_bind fun _ w₁ counted => ?_
  obtain ⟨p, found, rfl⟩ := counted
  refine meets_bind.mpr (meets_getState.mpr (meets_bind.mpr (meets_setState.mpr
    (meets_bind.mpr (meets_record.mpr ?_)))))
  have dropped : Holding host start { c with
      exits := c.exits + if unexpectedExit clone.run && !interrupted then 1 else 0 }
      { clone with errand := .dropped } _ :=
    holding.act (.drop rfl errand finished excused found)
  refine Meets.seq (save_holding dropped rfl)
    (fun fault _ breaks => breaks.abandons) fun _ w₂ saved => ?_
  have released := saved.1.act (.release rfl trivial)
  have total : (progress.report.noteExit clone.run interrupted).unexpectedExits =
      c.exits + if unexpectedExit clone.run && !interrupted then 1 else 0 := by
    rw [ReconcileReport.noteExit, ← counts]
    split <;> rfl
  refine meets_pure.mpr ?_
  unfold Visited
  dsimp only
  rw [total]
  exact released

theorem finishRun_holding (holding : Holding host start c clone w) (errand : clone.errand = .clean)
    (removed : clone.container = none ∨
      .ended (.dockerRemove clone.run.id false) (.ok ()) ∈ clone.done)
    {interrupted : Bool} (excused : clone.container = none → interrupted = false) {pass : Pass}
    (name : pass.name = c.name) {progress : Progress}
    (counts : progress.report.unexpectedExits = c.exits) :
    Meets host (finishRun pass clone.run.id clone.run interrupted progress) w
      (Visited host start c) (Abandons host start c) := by
  unfold finishRun
  refine meets_bind.mpr (meets_attempt.mpr ?_)
  have gone : Meets host (do
        deregister pass clone.run.id
        removeDirectory clone.run.id clone.run) w
      (fun _ w' => ∃ new, Holding host start c (clone.noted new) w' ∧
        (clone.noted new).Finished) (Breaks host start Event.fails c clone.errand) := by
    refine (deregister_holding holding errand pass).bind
      fun _ w₁ ⟨profile, auth, scope, fresh, second, listed, unregistered⟩ => ?_
    refine (removeDirectory_holding listed errand).mono
      (fun _ w₂ ⟨third, directory, vanished⟩ => ?_)
      fun _ _ => id
    rw [Clone.noted_noted] at directory
    exact ⟨_, directory, clone.done, profile, auth, scope, fresh, second, third,
      by simp [Clone.noted], removed, unregistered, vanished⟩
  refine gone.mono (fun _ w₁ ⟨new, done, finished⟩ => ?_) fun fault w₁ breaks => ?_
  · exact dropRun_holding done errand finished excused name counts
  · cases fault with
    | panic => exact breaks
    | error error =>
        obtain ⟨clone', same, reason, stopped⟩ := breaks
        exact collected stopped (same.trans errand) (reason.imp_right And.right) counts error

theorem stoppedByReboot_holding (holding : Holding host start c clone w)
    (errand : clone.errand = .clean) (container : Container) (image : String) :
    Meets host (stoppedByReboot container image) w
      (fun _ w' => ∃ new, Holding host start c (clone.noted new) w')
      (Breaks host start Event.aborts c clone.errand) := by
  unfold stoppedByReboot
  refine meets_bind.mpr (meets_startedAt.mpr (meets_bind.mpr (meets_engine.mpr
    (meets_bind.mpr (meets_startedBeforeBoot.mpr ?_)))))
  have answer (new : List Event) {w : World} (holding : Holding host start c (clone.noted new) w) :
      Meets host (do startedBeforeBoot container (← engine).bootTime) w
        (fun _ w' => ∃ new, Holding host start c (clone.noted new) w')
        (Breaks host start Event.aborts c clone.errand) :=
    meets_bind.mpr (meets_engine.mpr (meets_startedBeforeBoot.mpr ⟨new, holding⟩))
  have unasked := clone.noted_nil.symm ▸ holding
  split
  · refine meets_bind.mpr (meets_attempt.mpr ?_)
    refine (external_reaches holding (holding.underway.ongoing rfl) (.dockerBootTime image)
      ⟨clone, rfl, errand⟩
      (fun _ reply => (c.hold clone).note (.ended (.dockerBootTime image) reply))
      fun _ reply => .noted ⟨clone, rfl, errand⟩).mono
        (fun bootTime w₁ ⟨replied, _⟩ => ?_)
        fun fault w₁ halted => ?_
    · exact meets_bind.mpr (meets_modify.mpr (answer
        [.ended (.dockerBootTime image) (.ok bootTime)]
        (replied.silent rfl rfl rfl rfl rfl rfl le_rfl le_rfl)))
    · cases fault with
      | panic => exact halted
      | error error =>
          rcases halted with ⟨interrupted, reached⟩ | ⟨genuine, failure, reached⟩
          · have stopped : ∃ new, Holding host start c (clone.noted new) w₁ := by
              rcases reached with reached | ⟨reply, reached⟩
              · exact ⟨[], clone.noted_nil.symm ▸ reached⟩
              · exact ⟨[.ended (.dockerBootTime image) reply], reached⟩
            obtain ⟨new, stopped⟩ := stopped
            cases error with
            | interrupted => exact ⟨clone.noted new, rfl, .inl interrupted, stopped⟩
            | msg _ => exact answer new stopped
          · cases error with
            | interrupted => exact absurd rfl genuine
            | msg _ =>
                exact answer [.ended (.dockerBootTime image) (.error failure)] reached
  · exact answer [] unasked

theorem cleanStopped_holding (holding : Holding host start c clone w)
    (errand : clone.errand = .clean) {container : Container}
    (found : clone.container = some container) {pass : Pass} (name : pass.name = c.name)
    {progress : Progress} (counts : progress.report.unexpectedExits = c.exits) :
    Meets host (cleanStopped pass clone.run.id clone.run container progress) w
      (Visited host start c) (Abandons host start c) := by
  unfold cleanStopped
  refine meets_bind.mpr (meets_pathExists.mpr ?_)
  generalize (host.answers w.asked).present = present
  let looker : Clone := { clone with run := { clone.run with completedJob := present } }.note
    (.looked (.completed clone.run.id) present)
  have looked : Holding host start c looker
      ((w.advance host).log (.looked (.completed clone.run.id) present)) :=
    holding.advance.act (.look rfl errand (by rw [found]; rfl))
  have judged : Meets host (if unexpectedExit looker.run then
        stoppedByReboot container looker.run.pool.image else pure false)
      ((w.advance host).log (.looked (.completed clone.run.id) present))
      (fun _ w' => ∃ new, Holding host start c (looker.noted new) w')
      (Breaks host start Event.aborts c clone.errand) := by
    split
    · exact stoppedByReboot_holding looked errand container _
    · exact ⟨[], looker.noted_nil.symm ▸ looked⟩
  refine Meets.when_bind (judged.mono (fun _ _ => id) fun _ _ breaks => breaks.abandons)
    fun interrupted w₁ ⟨new, held⟩ => ?_
  refine meets_bind.mpr (meets_insertRun.mpr ?_)
  have writes : (c.hold (looker.noted new)).Writes (looker.noted new) .cleanup := by
    rw [Custody.Writes, show (looker.noted new).errand = .clean from errand]
    exact ⟨rfl, by rw [show (looker.noted new).container = some container from found]; rfl⟩
  let cleaner : Clone := { looker.noted new with run := { looker.run with phase := .cleanup } }
  have written : Holding host start c cleaner _ := held.act (.write rfl writes)
  refine Meets.seq (save_holding written rfl) (fun _ _ breaks => breaks.abandons)
    fun _ w₂ saved => ?_
  refine meets_bind.mpr (meets_attempt.mpr ?_)
  refine (removeStopped_holding saved.1 found errand).mono (fun run w₃ stopped => ?_)
    fun fault w₃ breaks => ?_
  · obtain ⟨rfl, new', done, removed⟩ := stopped
    exact finishRun_holding done errand (.inr (List.mem_append_right _ removed))
      (fun missing => by
        simp [found, cleaner, looker, Clone.noted, Clone.note, Clone.flagged] at missing)
      name counts
  · cases fault with
    | panic => exact breaks
    | error error =>
        obtain ⟨clone', same, reason, stopped⟩ := breaks
        exact collected stopped (same.trans errand) (reason.imp_right And.right) counts error

/-! ## Visiting a run -/

theorem visitClone_holding {run : Run} {container : Option Container} {pass : Pass}
    {managerId : Uuid} {remote : Option RemoteRunner} {progress : Progress}
    (holding : Holding host start c ⟨run, run.errand container, container, []⟩ w)
    (found : pass.containers.find? (·.owned managerId.text run) = container)
    (shown : c.remotes.find? (·.name == run.id) = remote)
    (allowed : pass.allowReplenish = c.allowed) (name : pass.name = c.name)
    (counts : progress.report.unexpectedExits = c.exits) :
    Meets host (visitClone pass progress managerId run.id run remote) w
      (Visited host start c) (Abandons host start c) := by
  unfold visitClone
  have release (clone : Clone) {w₁ : World} (held : Holding host start c clone w₁)
      (closes : (c.hold clone).Closes clone w₁) :
      Visited host start c progress w₁ := by
    unfold Visited
    rw [counts]
    exact held.act (.release rfl closes)
  -- while provisioning is paused, the record is only written back
  have provide {errand : Errand} {container : Option Container} (program : EngineM Unit)
      (starts : errand = .start ∨ errand = .create)
      (held : Holding host start c ⟨run, errand, container, []⟩ w)
      (provides : c.allowed = true → Meets host program w
        (fun _ w' => ∃ clone, clone.errand = errand ∧ Holding host start c clone w' ∧
          clone.Started w'.engine.state)
        (Breaks host start Event.aborts c errand)) :
      Meets host (do
        if pass.allowReplenish then program else insertRun run.id run
        return progress) w (Visited host start c) (Abandons host start c) := by
    have closes {clone : Clone} (same : clone.errand = errand) {w₁ : World}
        (started : c.allowed = true → clone.Started w₁.engine.state) :
        (c.hold clone).Closes clone w₁ := by
      rw [Custody.Closes, same]
      rcases starts with rfl | rfl <;> exact started
    split
    · next replenish =>
        refine Meets.seq (provides (allowed ▸ replenish)) (fun _ _ breaks => breaks.abandons)
          fun _ w₁ provided => ?_
        obtain ⟨clone, same, provided, started⟩ := provided
        exact release clone provided (closes same fun _ => started)
    · next paused =>
        have refused : c.allowed = false := by simpa [allowed] using paused
        have writes : (c.hold ⟨run, errand, container, []⟩).Writes
            ⟨run, errand, container, []⟩ run.phase := by
          rw [Custody.Writes]
          rcases starts with rfl | rfl <;> exact .inl ⟨refused, rfl⟩
        exact meets_bind.mpr (meets_insertRun.mpr
          (release ⟨run, errand, container, []⟩ (held.act (.write rfl writes))
            (closes rfl fun allows => by simp [refused] at allows)))
  rw [found]
  cases container with
  | some container =>
      dsimp only
      rw [Run.errand] at holding
      split
      · next live =>
          rw [if_pos live] at holding
          let clone : Clone := ⟨run, .observe, some container, []⟩
          have token : Meets host (if remote.isSome then
                discard (attempt (fileOp (.removeToken run.id))) else pure ()) w
              (fun _ w' => ∃ new, Holding host start c (clone.noted new) w')
              (Abandons host start c) := by
            split
            · have logs (ok : Bool) : Holding host start c
                  (clone.noted [.file (.removeToken run.id) ok])
                  ((w.advance host).log (.file (.removeToken run.id) ok)) :=
                holding.advance.act (.log ⟨clone, rfl, rfl⟩)
              refine meets_discard.mpr (meets_attempt.mpr (meets_fileOp.mpr ?_))
              split
              · exact ⟨_, logs true⟩
              · exact ⟨_, logs false⟩
            · exact ⟨[], clone.noted_nil.symm ▸ holding⟩
          refine token.when_bind fun _ w₁ removed => ?_
          obtain ⟨new, held⟩ := removed
          have phase : observedPhase remote =
              observedPhase (c.remotes.find? (·.name == run.id)) := by rw [shown]
          have writes : (c.hold (clone.noted new)).Writes (clone.noted new)
            (observedPhase remote) := phase
          refine meets_bind.mpr (meets_insertRun.mpr (release _ (held.act (.write rfl writes)) ?_))
          exact And.intro (TreeMap.get_insert_self ..) phase
      · next stopped =>
          rw [if_neg stopped] at holding
          split
          · next created =>
              rw [if_pos created] at holding
              exact provide (startCreated pass run.id run) (.inl rfl) holding
                fun allowed => startCreated_holding holding rfl allowed pass
          · next ended =>
              rw [if_neg ended] at holding
              exact cleanStopped_holding holding rfl rfl name counts
  | none =>
      dsimp only
      rw [Run.errand] at holding
      split
      · next creating =>
          rw [if_pos creating] at holding
          exact provide (createRecorded pass run.id run) (.inr rfl) holding
            fun allowed => createRecorded_holding holding rfl allowed pass
      · next begun =>
          rw [if_neg begun] at holding
          exact finishRun_holding holding rfl (.inl rfl) (fun _ => rfl) name counts

theorem visitRun_reaches {pass : Pass} {progress : Progress} {id : String} {rest : List String}
    (reaches : Reaches host start (some { c with
      ids := some (id :: rest)
      clone := none
      exits := progress.report.unexpectedExits }) w)
    (running : c.result = none) (waiting : c.waiting = [])
    (listed : c.listed = some pass.containers) (remotes : c.remotes = pass.remotes)
    (allowed : pass.allowReplenish = c.allowed) (name : pass.name = c.name) :
    Meets host (visitRun pass progress id) w
      (Visited host start { c with ids := some rest })
      (Abandons host start { c with ids := some rest }) := by
  unfold visitRun
  refine meets_bind.mpr (meets_getState.mpr (meets_bind.mpr (meets_unwrap.mpr ?_)))
  split
  · next recorded found =>
      have same := reaches.keyed.1 id recorded found
      subst same
      dsimp only
      generalize shown : pass.remotes.find? (·.name == recorded.id) = remote
      rw [← remotes] at shown
      let run : Run := { recorded with remoteId := (remote.map (·.id)).or recorded.remoteId }
      let c' : Custody := { c with
        ids := some rest
        exits := progress.report.unexpectedExits }
      have visited : Holding host start c' ⟨run, run.errand _, _, []⟩ w :=
        reaches.act (.visit running rfl waiting rfl found listed (by rw [shown]) rfl)
      have counts : progress.report.unexpectedExits = c'.exits := rfl
      have meets := visitClone_holding visited rfl shown allowed name counts
      exact meets
  · exact reaches.wrecks

end Visit

/-! ## A whole pass -/

section Pass

variable {host : Host} {start : Option Custody × World} {w w' : World} {c : Custody}

/-- The custody is still that of the pass. -/
structure Custody.Same (c c' : Custody) : Prop where
  name : c'.name = c.name
  at_ : c'.at_ = c.at_
  retryAt : c'.retryAt = c.retryAt
  result : c'.result = c.result

/-- The pass returned its report. -/
def Returns (host : Host) (start : Option Custody × World) (c : Custody)
    (report : ReconcileReport) (w : World) : Prop :=
  ∃ c', c.Same c' ∧ c'.Ends w (.ok report) ∧ Reaches host start (some c') w

/-- The pass failed. -/
def Gives (host : Host) (start : Option Custody × World) (c : Custody) :
    Fault Error → World → Prop :=
  Halted host start fun error w =>
    ∃ c', c.Same c' ∧ c'.Ends w (.error error) ∧ Reaches host start (some c') w

section Same

variable {c₁ : Custody} (same : c.Same c₁)
include same

theorem Custody.Same.trans {c₂ : Custody} (later : c₁.Same c₂) : c.Same c₂ :=
  ⟨later.name.trans same.name, later.at_.trans same.at_, later.retryAt.trans same.retryAt,
    later.result.trans same.result⟩

theorem Custody.Same.returns {report : ReconcileReport}
    (returns : Returns host start c₁ report w) : Returns host start c report w := by
  obtain ⟨c₂, later, ended⟩ := returns
  exact ⟨c₂, same.trans later, ended⟩

theorem Custody.Same.gives {fault : Fault Error} (gives : Gives host start c₁ fault w) :
    Gives host start c fault w :=
  Halted.mono gives fun _ ⟨c₂, later, ended⟩ => ⟨c₂, same.trans later, ended⟩

end Same

theorem Custody.note_unheld (unheld : c.clone = none) (event : Event) : c.note event = c := by
  rw [Custody.note, unheld, Option.map_none, ← unheld]

/-- What is in hand once an operation was answered. -/
def Op.answered (op : Op) (c : Custody) (after : State → op.Reply → Custody) (s : State) :
    Except String op.Reply → Custody
  | .ok reply => after s reply
  | .error _ => c

/-- An operation is awaited while no clone is held. -/
theorem external_unheld (reaches : Reaches host start (some c) w) (unheld : c.clone = none)
    (ongoing : c.result = none) (op : Op) (permits : c.Permits op)
    (ends : ∀ (error : Error) (w : World), c.Ends w (.error error))
    (after : State → op.Reply → Custody)
    (answers : ∀ s reply, c.Answers s op (.ok reply) (after s reply))
    (same : ∀ s reply, c.Same (after s reply))
    (goes : ∀ (s : State) (reply : op.Reply) (error : Error) (w : World),
      w.engine.interrupted = true → (after s reply).Ends w (.error error)) :
    Meets host (external op) w
      (fun reply w' => Reaches host start (some (after w'.engine.state reply)) w')
      (Gives host start c) := by
  refine (external_reaches reaches ongoing op permits (op.answered c after) fun s reply => ?_).mono
    (fun _ _ => And.left) fun fault w₁ halted => halted.mono fun error stopped => ?_
  · cases reply with
    | ok reply => exact answers s reply
    | error failure =>
        have notes : c.Notes (.ended op (.error failure)) := by
          cases op <;> exact permits
        have noted : c.Answers s op (.error failure) _ := .noted notes
        rw [Custody.note_unheld unheld] at noted
        exact noted
  · have still : c.Same c := ⟨rfl, rfl, rfl, rfl⟩
    rcases stopped with
      ⟨interrupted, reached | ⟨reply, reached⟩⟩ | ⟨-, failure, reached⟩
    · exact ⟨c, still, ends error w₁, reached⟩
    · cases reply with
      | ok reply => exact ⟨_, same _ reply, goes _ reply error w₁ interrupted, reached⟩
      | error failure => exact ⟨c, still, ends error w₁, reached⟩
    · exact ⟨c, still, ends error w₁, reached⟩

/-- An event is added while no clone is held. -/
theorem Arrives.plain (reaches : Reaches host start (some c) w) (unheld : c.clone = none)
    (event : Event) (allows : c.Allows event) : Reaches host start (some c) (w.log event) := by
  have logged := reaches.act (.log allows)
  rwa [Custody.note_unheld unheld] at logged

theorem fileOp_unheld (reaches : Reaches host start (some c) w) (unheld : c.clone = none)
    (op : FileOp) (allows : ∀ ok, c.Allows (.file op ok)) :
    Meets host (fileOp op) w (fun _ => Reaches host start (some c))
      (Halted host start fun _ => Reaches host start (some c)) := by
  have logs (ok : Bool) : Reaches host start (some c)
      ((w.advance host).log (.file op ok)) :=
    reaches.advance.plain unheld _ (allows ok)
  refine meets_fileOp.mpr ?_
  split
  · exact logs true
  · exact logs false

/-- The last thing that happened is that a save failed. -/
def World.Unsaved (w : World) : Prop :=
  ∃ before m, w.history = before ++ [m] ∧ m.event = .saved false

theorem save_unheld (reaches : Reaches host start (some c) w) (unheld : c.clone = none) :
    Meets host save w
      (fun _ w' => Reaches host start (some c) w' ∧ w'.engine.state = w.engine.state)
      (Halted host start fun _ w' => Reaches host start (some c) w' ∧ w'.Unsaved) := by
  refine meets_save.mpr ?_
  split
  · exact ⟨(reaches.advance.act .save).published, rfl⟩
  · exact ⟨reaches.advance.plain unheld (.saved false) rfl, _, _, rfl, rfl⟩

/-- A local effect at the end of a pass failed. -/
theorem Halted.gives {fault : Fault Error}
    (halted : Halted host start (fun _ => Reaches host start (some c)) fault w)
    (ends : ∀ (error : Error) (w : World), c.Ends w (.error error)) :
    Gives host start c fault w :=
  halted.mono fun error reaches => ⟨c, ⟨rfl, rfl, rfl, rfl⟩, ends error w, reaches⟩

theorem forceRun_reaches {containers : List Container} {run : Run} {rest : List Run}
    (reaches : Reaches host start (some { c with waiting := run :: rest, clone := none }) w)
    (listed : c.listed = some containers) (unvisited : c.ids = none) :
    Meets host (forceRun containers run) w
      (fun _ => Reaches host start (some { c with waiting := rest, clone := none }))
      (Gives host start c) := by
  unfold forceRun
  refine meets_bind.mpr (meets_getState.mpr ?_)
  have picked {container : Option Container}
      (found : containers.find? (·.owned w.engine.state.managerId.text run) = container) :
      Holding host start { c with waiting := rest } ⟨run, .force, container, []⟩ w :=
    reaches.act (.pick rfl unvisited rfl listed found)
  have release {clone : Clone} {w : World} (errand : clone.errand = .force)
      (held : Holding host start { c with waiting := rest } clone w) :
      Reaches host start (some { c with waiting := rest, clone := none }) w :=
    held.act (.release rfl (by rw [Custody.Closes, errand]; trivial))
  have gives (fault : Fault Error) (w : World)
      (breaks : Breaks host start Event.fails { c with waiting := rest } .force fault w) :
      Gives host start c fault w :=
    Halted.mono breaks fun _ broken => by
      obtain ⟨clone, _, _, held⟩ := broken
      exact ⟨{ c with waiting := rest }.hold clone, ⟨rfl, rfl, rfl, rfl⟩,
        .inl unvisited, held⟩
  dsimp only
  split
  · next missing => exact release rfl (picked missing)
  · next container found =>
      refine meets_bind.mpr (meets_insertRun.mpr ?_)
      let clone : Clone := ⟨{ run with phase := .cleanup }, .force, some container, []⟩
      have written : Holding host start { c with waiting := rest } clone _ :=
        (picked found).act (.write rfl
          (show Custody.Writes _ ⟨run, .force, some container, []⟩ .cleanup from
            ⟨rfl, rfl⟩))
      have saved : Event.fails (.saved false) = true := rfl
      refine Meets.seq (save_holding written saved) gives
        fun _ w₁ saved => ?_
      refine Meets.seq (archive_holding saved.1 rfl (.inl rfl)) gives
        fun _ w₂ kept => ?_
      obtain ⟨_, new, archived⟩ := kept
      have permits : ({ c with waiting := rest }.hold (clone.flagged.noted new)).Permits
          (.dockerRemove run.id true) := ⟨_, rfl, rfl, rfl, rfl, rfl⟩
      have failed (failure : String) :
        Event.fails (.ended (.dockerRemove run.id true) (.error failure)) = true := rfl
      exact (external_holding archived (.dockerRemove run.id true) permits (fun _ => permits)
        failed).mono (fun _ w₃ removed => release rfl removed.1) gives

theorem expireLogs_reaches (reaches : Reaches host start (some c) w) (unheld : c.clone = none) :
    Meets host expireLogs w (fun _ => Reaches host start (some c))
      (Halted host start fun _ => Reaches host start (some c)) := by
  unfold expireLogs
  refine meets_bind.mpr (meets_getState.mpr (meets_bind.mpr (meets_consult.mpr ?_)))
  split
  · refine Meets.forM (fun _ => Reaches host start (some c)) (fun entry _ w' reaches => ?_)
      reaches.advance
    unfold expireLog
    split
    · exact reaches.advance
    · split
      · refine meets_bind.mpr (meets_getState.mpr ?_)
        split
        · exact reaches
        · exact fileOp_unheld reaches unheld _ fun _ => unheld
      · exact reaches
  · exact reaches.advance

theorem replenish_reaches {pool : Pool} {ps : PoolState}
    (reaches : Reaches host start (some c) w) (unheld : c.clone = none)
    (running : c.result = none) (allowed : c.allowed = true) (uncounted : c.exits = 0)
    (visited : c.ids = some []) (found : c.origin.pools[c.name]? = some ps)
    (entry : c.origin.config.pool? c.name = some pool) :
    Meets host (replenish pool ps) w (fun _ => Reaches host start (some c))
      (Gives host start c) := by
  have ends (error : Error) (w : World) : c.Ends w (.error error) :=
    .inr (.inl ⟨unheld, .inl visited⟩)
  unfold replenish
  have pull (s : State) (reply : Unit) : c.Answers s (.dockerImage pool.image) (.ok reply) c := by
    have notes : c.Notes (.ended (.dockerImage pool.image) (.ok reply)) := allowed
    have noted : c.Answers s (.dockerImage pool.image) (.ok reply) _ := .noted notes
    rwa [Custody.note_unheld unheld] at noted
  refine (external_unheld reaches unheld running (.dockerImage pool.image) allowed ends
    (fun _ _ => c)
    pull (fun _ _ => ⟨rfl, rfl, rfl, rfl⟩) fun _ _ error w _ => ends error w).bind
      fun _ w₁ pulled => ?_
  refine meets_bind.mpr (meets_consult.mpr (meets_bind.mpr (meets_getState.mpr
    (meets_bind.mpr (meets_now.mpr ?_)))))
  refine meets_bind.mpr (meets_insertRun.mpr (meets_bind.mpr (meets_record.mpr ?_)))
  have recorded := pulled.act (.record running allowed uncounted visited unheld found entry rfl)
  exact (save_unheld recorded unheld).mono (fun _ _ => And.left) fun _ _ halted =>
    (halted.mono fun _ => And.left).gives ends

/-- The pool is deleted and the configuration without it is committed. -/
theorem finaliseDeletion_reaches {ps : PoolState} (reaches : Reaches host start (some c) w)
    (unheld : c.clone = none) (running : c.result = none)
    (found : c.origin.pools[c.name]? = some ps) (deleting : ps.deleting = true) :
    Meets host (finaliseDeletion c.name) w (fun _ => Reaches host start (some c))
      (Halted host start fun _ => Reaches host start (some c)) := by
  unfold finaliseDeletion
  have looked (ok : Bool) : Reaches host start (some c)
      ((w.advance host).log (.readConfig ok)) :=
    reaches.advance.plain unheld (.readConfig ok) rfl
  refine meets_bind.mpr (meets_cleanFile.mpr ?_)
  split
  · split
    · refine meets_bind.mpr (meets_getState.mpr (meets_bind.mpr (meets_record.mpr
        (meets_bind.mpr (meets_setState.mpr ?_)))))
      have deleted := (looked true).act (.delete running found deleting unheld)
      unfold commitConfig
      refine Meets.liftExcept_bind (fun _ _ => deleted) fun _ validated => ?_
      refine meets_bind.mpr (meets_printToml.mpr ?_)
      split
      · next text printed =>
          refine meets_bind.mpr (meets_hash.mpr (meets_bind.mpr (meets_getState.mpr
            (meets_bind.mpr (meets_storeSave.mpr ?_)))))
          split
          · refine meets_bind.mpr (meets_setState.mpr (meets_bind.mpr (meets_writeConfig.mpr ?_)))
            have stored := deleted.advance.act (.commit unheld ⟨validated, text, printed, rfl⟩)
            have written := stored.advance.act (.rewrite text unheld)
            split
            · exact (written.plain unheld .cleared rfl).published
            · split
              · exact written
              · exact stored.advance.plain unheld (.wroteConfig _ false) rfl
          · exact deleted.advance.plain unheld (.saved false) rfl
      · exact deleted
    · exact looked true
  · exact looked false

/-- A pass that visited all runs returns its report. -/
theorem Reaches.returns (reaches : Reaches host start (some c) w) (unheld : c.clone = none)
    (visited : c.ids = none ∨ c.ids = some []) {report : ReconcileReport}
    (counts : report.unexpectedExits = c.exits) : Returns host start c report w :=
  ⟨c, ⟨rfl, rfl, rfl, rfl⟩, ⟨counts, unheld, visited⟩, reaches⟩

theorem finishPass_reaches {allowReplenish : Bool} {pool : Pool} {ps : PoolState}
    {unknown : Nat} {report : ReconcileReport} (reaches : Reaches host start (some c) w)
    (unheld : c.clone = none) (running : c.result = none) (visited : c.ids = some [])
    (counts : report.unexpectedExits = c.exits) (allowed : allowReplenish = c.allowed)
    (found : c.origin.pools[c.name]? = some ps)
    (entry : c.origin.config.pool? c.name = some pool) :
    Meets host (finishPass c.name allowReplenish pool ps unknown report) w
      (Returns host start c) (Gives host start c) := by
  unfold finishPass
  have ends (error : Error) (w : World) : c.Ends w (.error error) :=
    .inr (.inl ⟨unheld, .inl visited⟩)
  refine meets_bind.mpr (meets_getState.mpr ?_)
  dsimp only
  split
  · next deleting =>
      have deleting := (Bool.and_eq_true_iff.mp deleting).1
      refine Meets.seq (finaliseDeletion_reaches reaches unheld running found deleting)
        (fun _ _ halted => halted.gives ends) fun _ w₁ finalised => ?_
      exact finalised.returns unheld (.inr visited) counts
  · have replenished : Meets host
        (if (allowReplenish && report.unexpectedExits == 0 &&
            decide ((w.engine.state.runsOf ps.id).length < State.keep ps pool) &&
            decide (w.engine.state.runs.size + unknown <
              w.engine.state.config.manager.maxRunners)) = true
          then replenish pool ps else pure ()) w
        (fun _ => Reaches host start (some c)) (Gives host start c) := by
      split
      · next lacking =>
          simp only [Bool.and_eq_true, beq_iff_eq] at lacking
          exact replenish_reaches reaches unheld running (allowed ▸ lacking.1.1.1)
            (counts ▸ lacking.1.1.2) visited found entry
      · exact reaches
    refine replenished.when_bind fun _ w₁ filled => ?_
    refine Meets.seq (expireLogs_reaches filled unheld) (fun _ _ halted => halted.gives ends)
      fun _ w₂ expired => ?_
    exact expired.returns unheld (.inr visited) counts

/-- The custody while the runs are visited: `rest` wait, and `exits` were unexpected. -/
def Custody.visiting (c : Custody) (rest : List String) (exits : Nat) : Custody :=
  { c with ids := some rest, waiting := [], clone := none, exits := exits }

/-- The loop over the runs, and the end of the pass. -/
theorem visitRuns_reaches {pass : Pass} {ids : List String} {unknown : Nat}
    (reaches : Reaches host start (some (c.visiting ids 0)) w) (running : c.result = none)
    (listed : c.listed = some pass.containers) (remotes : c.remotes = pass.remotes)
    (allowed : pass.allowReplenish = c.allowed) (name : pass.name = c.name)
    (found : c.origin.pools[c.name]? = some pass.ps)
    (entry : c.origin.config.pool? c.name = some pass.pool) :
    Meets host (do
      let progress ← ids.foldlM (visitRun pass) ⟨.empty, none⟩
      match progress.cleanupError with
      | some error => throw error
      | none => finishPass c.name pass.allowReplenish pass.pool pass.ps unknown progress.report) w
      (Returns host start c) (Gives host start c) := by
  have same (rest : List String) (exits : Nat) : c.Same (c.visiting rest exits) :=
    ⟨rfl, rfl, rfl, rfl⟩
  have abandoned (rest : List String) {fault : Fault Error} {w : World}
      (abandons : Abandons host start (c.visiting rest 0) fault w) : Gives host start c fault w :=
    Halted.mono abandons fun _ ⟨clone, exits, failing, holding⟩ =>
      ⟨(c.visiting rest exits).hold clone, ⟨rfl, rfl, rfl, rfl⟩,
        .inr (.inr ⟨clone, rfl, failing⟩), holding⟩
  let invariant (rest : List String) (progress : Progress) : World → Prop :=
    Reaches host start (some (c.visiting rest progress.report.unexpectedExits))
  have loop : Meets host (ids.foldlM (visitRun pass) ⟨.empty, none⟩) w (invariant [])
      (Gives host start c) := by
    refine Meets.foldlM invariant (fun _ rest progress w₁ reached => ?_) reaches
    exact (visitRun_reaches (c := c.visiting rest 0) reached running rfl listed remotes allowed
      name).mono (fun _ _ => id) fun _ _ => abandoned rest
  refine loop.bind fun progress w₁ visited => ?_
  split
  · next error _ =>
      exact ⟨_, same [] _, .inr (.inl ⟨rfl, .inl rfl⟩), visited⟩
  · exact (finishPass_reaches visited rfl running rfl rfl allowed found entry).mono
      (fun _ _ => (same [] _).returns) fun _ _ => (same [] _).gives

theorem reconcileRuns_reaches {allowReplenish : Bool} {pool : Pool} {ps : PoolState}
    {managerId : Uuid} {unknown : Nat} {listed : List Container}
    (reaches : Reaches host start (some c) w) (unheld : c.clone = none)
    (running : c.result = none) (unvisited : c.ids = none) (waiting : c.waiting = [])
    (shown : c.listed = some listed) (uncounted : c.exits = 0)
    (allowed : allowReplenish = c.allowed) (found : c.origin.pools[c.name]? = some ps)
    (entry : c.origin.config.pool? c.name = some pool) :
    Meets host (reconcileRuns c.name allowReplenish pool ps managerId unknown listed) w
      (Returns host start c) (Gives host start c) := by
  unfold reconcileRuns
  have relisted : Meets host
      (if ((w.engine.state.runsOf ps.id).any (·.force)) = true then
        external (.dockerList managerId.text) else pure listed) w
      (fun containers => Reaches host start (some { c with listed := some containers }))
      (Gives host start c) := by
    split
    · exact external_unheld reaches unheld running (.dockerList managerId.text)
        ⟨unheld, waiting, unvisited⟩ (fun _ _ => .inl unvisited)
        (fun _ containers => { c with listed := some containers })
        (fun _ _ => .list unheld waiting unvisited) (fun _ _ => ⟨rfl, rfl, rfl, rfl⟩)
        fun _ _ _ _ _ => .inl unvisited
    · have same : ({ c with listed := some listed } : Custody) = c := by rw [← shown]
      refine meets_pure.mpr ?_
      rw [same]
      exact reaches
  refine meets_bind.mpr (meets_getState.mpr (relisted.when_bind fun containers w₁ relisted => ?_))
  refine meets_bind.mpr (meets_getState.mpr (meets_bind.mpr (meets_unwrap.mpr ?_)))
  split
  · next auth known =>
      let seen (remotes : List RemoteRunner) : Custody :=
        { c with listed := some containers, remotes := remotes }
      let due (s : State) (remotes : List RemoteRunner) : Custody :=
        { seen remotes with ids := some ((s.runsOf ps.id).map (·.id)) }
      have listed : c.Same { c with listed := some containers } := ⟨rfl, rfl, rfl, rfl⟩
      refine meets_bind.mpr (meets_getState.mpr ?_)
      refine Meets.seq (external_unheld relisted unheld running (.githubList _ _ _ _)
        (.inl ⟨unheld, waiting, unvisited⟩) (fun _ _ => .inl unvisited) due
        (fun _ _ => .survey running found waiting unvisited unheld)
        (fun _ _ => ⟨rfl, rfl, rfl, rfl⟩)
        fun _ _ _ _ interrupted => .inr (.inl ⟨unheld, .inr (.inl interrupted)⟩))
        (fun _ _ => listed.gives) fun remotes w₂ surveyed => ?_
      refine meets_bind.mpr (meets_getState.mpr (meets_bind.mpr (meets_markRetiring.mpr ?_)))
      split
      · next marked drained =>
          have drains := surveyed.act (.drain running unheld drained)
          have same : c.Same (seen remotes) := ⟨rfl, rfl, rfl, rfl⟩
          have same' : c.Same (due w₂.engine.state remotes) := ⟨rfl, rfl, rfl, rfl⟩
          refine Meets.seq (save_unheld drains unheld) (fun _ _ halted => ?_) fun _ w₃ saved => ?_
          · exact halted.mono fun error unsaved => ⟨_, same',
              .inr (.inl ⟨unheld, .inr (.inr unsaved.2)⟩), unsaved.1⟩
          have visiting : (seen remotes).visiting
              ((w₂.engine.state.runsOf ps.id).map (·.id)) 0 = due w₂.engine.state remotes := by
            rw [Custody.visiting, ← uncounted, ← waiting, ← unheld]
          exact (visitRuns_reaches (c := seen remotes)
            (visiting ▸ saved.1) running rfl rfl allowed
            rfl found entry).mono (fun _ _ => same.returns) fun _ _ => same.gives
      · exact surveyed.wrecks
  · exact relisted.wrecks

/-- The forced runs are cloned and visited. -/
theorem forceRuns_reaches {containers : List Container} {ps : PoolState}
    (reaches : Reaches host start (some c) w) (unheld : c.clone = none)
    (running : c.result = none) (unvisited : c.ids = none) (waiting : c.waiting = [])
    (listed : c.listed = some containers) (found : c.origin.pools[c.name]? = some ps) :
    Meets host (((w.engine.state.runsOf ps.id).filter (·.force)).forM (forceRun containers)) w
      (fun _ => Reaches host start (some c)) (Gives host start c) := by
  have cloned := reaches.act (.force running found unvisited unheld)
  let invariant (rest : List Run) : World → Prop :=
    Reaches host start (some { c with waiting := rest, clone := none })
  have loop : Meets host
      (((w.engine.state.runsOf ps.id).filter (·.force)).forM (forceRun containers)) w
      (fun _ => invariant []) (Gives host start c) := by
    refine Meets.forM invariant (fun run rest w₁ reached =>
      forceRun_reaches reached listed unvisited) ?_
    simpa only [invariant, ← unheld] using cloned
  refine loop.mono (fun _ w₁ visited => ?_) fun _ _ => id
  have same : { c with waiting := [], clone := none } = c := by rw [← waiting, ← unheld]
  rw [← same]
  exact visited

/-- A pass that has begun follows the protocol. -/
theorem reconcile_reaches {allowReplenish : Bool} (reaches : Reaches host start (some c) w)
    (origin : c.origin = w.engine.state) (unheld : c.clone = none) (running : c.result = none)
    (unvisited : c.ids = none) (waiting : c.waiting = []) (uncounted : c.exits = 0)
    (allowed : allowReplenish = c.allowed) :
    Meets host (reconcile c.name allowReplenish) w (Returns host start c) (Gives host start c) := by
  unfold reconcile
  have ends (error : Error) (w : World) : c.Ends w (.error error) := .inl unvisited
  refine meets_bind.mpr (meets_getState.mpr (.context_bind (fun _ => ?_) fun pool entry => ?_))
  · exact ⟨c, ⟨rfl, rfl, rfl, rfl⟩, ends _ w, reaches⟩
  rw [← origin] at entry
  refine meets_bind.mpr (meets_poolOf.mpr ?_)
  split
  · next ps found =>
      rw [← origin] at found
      let shown (containers : List Container) : Custody := { c with listed := some containers }
      have same (containers : List Container) : c.Same (shown containers) :=
        ⟨rfl, rfl, rfl, rfl⟩
      refine (external_unheld reaches unheld running (.dockerList w.engine.state.managerId.text)
        ⟨unheld, waiting, unvisited⟩ ends (fun _ => shown)
        (fun _ _ => .list unheld waiting unvisited) (fun _ => same)
        fun _ _ error w _ => ends error w).bind fun containers w₁ listed => ?_
      refine meets_bind.mpr (meets_getState.mpr ?_)
      dsimp only
      have release {w : World} (reached : Reaches host start (some (shown containers)) w) :
          Returns host start c .empty w :=
        (same containers).returns (reached.returns unheld (.inl unvisited) uncounted.symm)
      split
      · split
        · next deleting =>
            refine Meets.seq
              (finaliseDeletion_reaches (c := shown containers) listed unheld running found
                deleting)
              (fun _ _ halted => (same containers).gives (halted.gives ends))
              fun _ w₂ finalised => release finalised
        · exact release listed
      · refine Meets.seq (forceRuns_reaches listed unheld running unvisited waiting rfl found)
          (fun _ _ => (same containers).gives) fun _ w₂ forced => ?_
        exact (reconcileRuns_reaches forced unheld running unvisited waiting rfl uncounted
          allowed found entry).mono (fun _ _ => (same containers).returns)
            fun _ _ => (same containers).gives
  · exact reaches.wrecks

end Pass

/-! ## A whole tick -/

section Tick

variable {host : Host} {start : Option Custody × World} {w : World} {c : Custody}

/-- After its pass, a tick keeps the custody. -/
abbrev Halted.After (host : Host) (start : Option Custody × World) (c : Custody) :
    Fault Error → World → Prop :=
  Halted host start fun _ => Reaches host start (some c)

theorem recordFailure_reaches (result : Except Error ReconcileReport) {error : String}
    {scope : RetryScope} (reaches : Reaches host start (some c) w)
    (reason : match result with
      | .ok report => 0 < report.unexpectedExits ∧ scope = .provisioning
      | .error _ => scope = .observation) (outcome : c.result = some result) :
    Meets host (recordFailure c.name error scope) w (fun _ => Reaches host start (some c))
      (Halted.After host start c) := by
  unfold recordFailure
  refine meets_bind.mpr (meets_now.mpr (meets_bind.mpr (meets_getState.mpr ?_)))
  refine .context_bind (fun _ => reaches.advance) fun p found => ?_
  split
  · exact reaches.advance
  · next late =>
      simp only [Bool.and_eq_true, decide_eq_true_eq, beq_iff_eq] at late
      refine meets_bind.mpr (meets_consult.mpr (meets_bind.mpr (meets_getState.mpr
        (meets_bind.mpr (meets_setState.mpr (meets_record.mpr ?_))))))
      exact reaches.act (.fail outcome reason found
        (Nat.le_of_lt_succ (Nat.mod_lt _ (by decide))) late)

theorem finishTick_reaches (reaches : Reaches host start (some c) w) (unheld : c.clone = none)
    (outcome : c.result.isSome = true) :
    Meets host (finishTick c.name) w (fun _ => Reaches host start (some c))
      (Halted.After host start c) := by
  unfold finishTick
  have saves {w : World} (reached : Reaches host start (some c) w) :
      Meets host save w (fun _ => Reaches host start (some c)) (Halted.After host start c) :=
    (save_unheld reached unheld).mono (fun _ _ => And.left)
      fun _ _ halted => halted.mono fun _ => And.left
  refine meets_bind.mpr (meets_getState.mpr ?_)
  split
  · next p found =>
      refine meets_bind.mpr (meets_now.mpr (meets_bind.mpr (meets_getState.mpr
        (meets_bind.mpr (meets_setState.mpr ?_)))))
      exact saves (reaches.advance.act (.observed outcome found))
  · exact saves reaches

theorem settle_reaches (reaches : Reaches host start (some c) w) (unheld : c.clone = none)
    {result : Except Error ReconcileReport} (outcome : c.result = some result) {retrying : Bool}
    (timely : retrying = false → c.retryAt ≤ c.at_) :
    Meets host (settle c.name retrying result) w (fun _ => Reaches host start (some c))
      (Halted.After host start c) := by
  have ended : c.result.isSome = true := by rw [outcome, Option.isSome_some]
  have finish {w : World} (reached : Reaches host start (some c) w) :
      Meets host (finishTick c.name) w (fun _ => Reaches host start (some c))
        (Halted.After host start c) := finishTick_reaches reached unheld ended
  unfold settle
  match result, outcome with
  | .ok report, outcome =>
      dsimp only
      split
      · next some =>
          refine (recordFailure_reaches (.ok report) reaches ⟨some, rfl⟩ outcome).bind
            fun _ w₁ recorded => ?_
          exact finish recorded
      · next none =>
          split
          · exact finish reaches
          · next late =>
              refine meets_bind.mpr (meets_getState.mpr ?_)
              split
              · next p found =>
                  refine meets_bind.mpr (meets_getState.mpr (meets_bind.mpr
                    (meets_setState.mpr ?_)))
                  exact finish (reaches.act (.clear outcome (Nat.eq_zero_of_not_pos none)
                    (timely (by simpa using late)) found))
              · exact finish reaches
  | .error .interrupted, outcome =>
      exact (save_unheld reaches unheld).mono (fun _ _ => And.left)
        fun _ _ halted => halted.mono fun _ => And.left
  | .error (.msg text), outcome =>
      refine (recordFailure_reaches (.error (.msg text)) reaches rfl outcome).bind
        fun _ w₁ recorded => ?_
      refine meets_bind.mpr (meets_getState.mpr ?_)
      split
      · next p found =>
          refine meets_bind.mpr (meets_getState.mpr (meets_bind.mpr (meets_setState.mpr ?_)))
          exact finish (recorded.act (.forget outcome found))
      · exact finish recorded

/-- The result of a pass is settled, unless a request interrupted it. -/
theorem settles_reaches {result : Except Error ReconcileReport} {retrying : Bool}
    (reaches : Reaches host start (some c) w) (running : c.result = none)
    (ends : c.Ends w result) (timely : retrying = false → c.retryAt ≤ c.at_) :
    Meets host (do
      let interrupted := (← engine).interrupted
      modify fun w => { w with engine := { w.engine with reconcileEpoch := none } }
      if interrupted then save else settle c.name retrying result) w
      (fun _ => Reaches host start none) (Halted host start fun _ => Reaches host start none) := by
  have left := reaches.act (.leave running ends)
  have close {c' : Custody} {w : World} (outcome : c'.result.isSome = true)
      (reached : Reaches host start (some c') w) : Reaches host start none w :=
    reached.act (.close outcome)
  refine meets_bind.mpr (meets_engine.mpr (meets_bind.mpr (meets_modify.mpr ?_)))
  split
  · exact (save_unheld left rfl).mono (fun _ _ saved => close rfl saved.1)
      fun _ _ halted => halted.mono fun _ unsaved => close rfl unsaved.1
  · exact (settle_reaches left rfl rfl timely).mono (fun _ _ => close rfl)
      fun _ _ halted => halted.mono fun _ => close rfl

theorem tickPool_reaches {name : String} (reaches : Reaches host start none w) :
    Meets host (tickPool name) w (fun _ => Reaches host start none)
      (Halted host start fun _ => Reaches host start none) := by
  unfold tickPool
  refine meets_bind.mpr (meets_now.mpr (meets_bind.mpr (meets_poolOf.mpr ?_)))
  split
  · next p found =>
      dsimp only
      split
      · exact reaches.advance
      · next due =>
          simp only [Bool.and_eq_true, decide_eq_true_eq, beq_iff_eq] at due
          refine meets_bind.mpr (meets_record.mpr (meets_bind.mpr (meets_modify.mpr ?_)))
          have entered := reaches.advance.act (.enter found due)
          refine meets_bind.mpr (meets_attempt.mpr ?_)
          have settles {c : Custody} {w₁ : World} (result : Except Error ReconcileReport)
              (same : Custody.Same (.opened name (w.advance host).clock p.retryAt
                w.engine.state) c) (ends : c.Ends w₁ result)
              (reached : Reaches host start (some c) w₁) :
              Meets host (do
                let interrupted := (← engine).interrupted
                modify fun w => { w with engine := { w.engine with reconcileEpoch := none } }
                if interrupted then save
                else settle name (decide ((w.advance host).clock < p.retryAt)) result) w₁
                (fun _ => Reaches host start none)
                (Halted host start fun _ => Reaches host start none) := by
            have timely (late : decide ((w.advance host).clock < p.retryAt) = false) :
                c.retryAt ≤ c.at_ := by
              rw [same.retryAt, same.at_]
              exact Nat.le_of_not_lt (of_decide_eq_false late)
            have settled := settles_reaches reached same.result ends timely
            rw [same.name] at settled
            exact settled
          refine (reconcile_reaches entered rfl rfl rfl rfl rfl rfl rfl).mono
            (fun report w₁ returned => ?_) fun fault w₁ halted => ?_
          · obtain ⟨c, same, ends, reached⟩ := returned
            exact settles (.ok report) same ends reached
          · cases fault with
            | panic => exact halted
            | error error =>
                obtain ⟨c, same, ends, reached⟩ := halted
                exact settles (.error error) same ends reached
  · exact reaches.advance.wrecks

/-- A tick is a run of the protocol. -/
theorem tick_reaches (reaches : Reaches host start none w) :
    Meets host tick w (fun _ => Reaches host start none)
      (Halted host start fun _ => Reaches host start none) := by
  unfold tick
  refine meets_bind.mpr (meets_getState.mpr (meets_bind.mpr (meets_engine.mpr ?_)))
  split
  · exact reaches
  · refine meets_bind.mpr (meets_modify.mpr ?_)
    exact tickPool_reaches (reaches.silent rfl rfl rfl rfl rfl rfl le_rfl le_rfl)

end Tick

end Runnerctl
