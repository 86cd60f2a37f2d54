import Runnerctl.Metatheory.Copies

/-!
# The loop over the runs of a pool

Each turn visits one run.  Errors of the cleanup are collected, so the loop goes on
after an interruption; the invariant says what an interrupted turn can still do.
-/

namespace Runnerctl

open Std Program Journal

/-- A pass stopped with an error, and its pool is still there. -/
structure Faltered (host : Host) (origin : Origin) (error : Error) (w : World) : Prop
    extends Working host origin w where
  interrupted : error = .interrupted → w.engine.interrupted = true

/-- A moment that is quiet but for the creation of a container of one run. -/
structure Moment.QuietBut (id : String) (m : Moment) : Prop where
  starts : m.starts = false
  counted : m.counted = false
  listing : m.listing = none
  raises : ∀ other, other ≠ id → m.raises other = false

/-- A part of a pass that decides nothing but may create the container of one run. -/
structure Raises (host : Host) (origin : Origin) (id : String) (w w' : World) : Prop where
  steady : Steady host origin w'
  kept : Kept w w'
  history : Grows (Moment.QuietBut id) w.history w'.history

/-- The invariant of the loop.  `rest` are the runs that remain to be visited and `first`
is the first listing of the pass. -/
structure Visiting (host : Host) (origin : Origin) (pass : Pass)
    (first : State × List Container) (rest : List String) (progress : Progress) (w : World) :
    Prop extends Steady host origin w where
  managerId : w.engine.state.managerId = pass.managerId
  listed : lastListing (currentPass w.history) = some pass.containers
  first : (listings (currentPass w.history)).head? = some first
  distinct : rest.Nodup
  unraised : ∀ id ∈ rest, ∀ m ∈ currentPass w.history, m.raises id = false
  present : ∀ id ∈ rest, ∃ run, w.engine.state.runs[id]? = some run ∧
    run.poolId = origin.ps.id
  counts : progress.report.unexpectedExits = exits (currentPass w.history)
  /-- An interruption is among the collected errors. -/
  caught : w.engine.interrupted = true → progress.cleanupError.isSome = true
  honest : progress.cleanupError = some .interrupted → w.engine.interrupted = true

section Visits

variable {host : Host} {origin : Origin} {w w' w'' : World} {run : Run} {error : Error}

theorem Stopped.faltered (stopped : Stopped host origin w error w') :
    Faltered host origin error w' :=
  ⟨stopped.steady.toWorking, stopped.interrupted⟩

theorem Halts.faltered {fault : Fault Error}
    (halts : Halts host origin (Stopped host origin w) fault w') :
    Halts host origin (Faltered host origin) fault w' :=
  halts.mono fun _ => Stopped.faltered

theorem Moment.Quiet.but {m : Moment} (quiet : m.Quiet) (id : String) : m.QuietBut id :=
  ⟨quiet.starts, quiet.counted, quiet.listing, fun other _ => quiet.raises other⟩

theorem Carries.raises (carries : Carries host origin w w') (id : String) :
    Raises host origin id w w' :=
  ⟨carries.steady, carries.kept, carries.history.mono fun _ quiet => quiet.but id⟩

theorem Raises.trans {id : String} (first : Raises host origin id w w')
    (second : Raises host origin id w' w'') : Raises host origin id w w'' :=
  ⟨second.steady, first.kept.trans second.kept, first.history.trans second.history⟩

theorem Carries.pass (carries : Carries host origin w w') :
    ∃ new, currentPass w'.history = currentPass w.history ++ new ∧ ∀ m ∈ new, m.Quiet := by
  obtain ⟨new, history, quiet⟩ := carries.history
  exact ⟨new, by rw [history, currentPass_append fun m member => (quiet m member).starts],
    quiet⟩

theorem Carries.lastListing (carries : Carries host origin w w') :
    lastListing (currentPass w'.history) = lastListing (currentPass w.history) := by
  obtain ⟨new, pass, quiet⟩ := carries.pass
  rw [pass, Runnerctl.lastListing, listings_append,
    listings_eq_nil fun m member => (quiet m member).listing, List.append_nil,
    Runnerctl.lastListing]

theorem Carries.unraised (carries : Carries host origin w w') {id : String}
    (unraised : ∀ m ∈ currentPass w.history, m.raises id = false) :
    ∀ m ∈ currentPass w'.history, m.raises id = false := by
  obtain ⟨new, pass, quiet⟩ := carries.pass
  rw [pass]
  exact List.forall_mem_append.mpr ⟨unraised, fun m member => (quiet m member).raises id⟩

theorem Carries.managerId (carries : Carries host origin w w') :
    w'.engine.state.managerId = w.engine.state.managerId :=
  (State.roster_eq_iff.mp carries.kept.roster).1

theorem Carries.judged (carries : Carries host origin w w') {managerId : Uuid}
    {interrupted : Bool}
    (judged : Judged host managerId run interrupted (currentPass w.history)) :
    Judged host managerId run interrupted (currentPass w'.history) := by
  obtain ⟨new, pass, quiet⟩ := carries.pass
  rw [pass]
  exact judged.append fun m member => (quiet m member).listing

theorem observedPhase_ne_creating (remote : Option RemoteRunner) :
    observedPhase remote ≠ .creating := by
  unfold observedPhase
  split
  · split
    · decide
    · split <;> decide
  · decide

/-! ## Starting containers -/

theorem Event.awaits_quietBut {op : Op} {id : String} {m : Moment}
    (awaits : m.event.awaits op) (unlisted : ∀ managerId, op ≠ .dockerList managerId)
    (only : ∀ other, other ≠ id → op.raises other = false) : m.QuietBut id := by
  have listing := Event.awaits_listing awaits unlisted
  have raises (other : String) (different : other ≠ id) : m.raises other = false :=
    Event.awaits_raises awaits (only other different)
  cases event : m.event with
  | began _ | ended _ _ =>
      exact ⟨by simp [Moment.starts, event], by simp [Moment.counted, event], listing, raises⟩
  | _ =>
      refine (Event.occurs_quiet ?_).but id
      simpa [event, Event.awaits] using awaits

/-- A container is started. -/
theorem dockerStart_raises (steady : Steady host origin w) (id : String)
    (licensed : w.engine.interrupted = false → Licensed w (.dockerStart id)) :
    Meets host (external (.dockerStart id)) w
      (fun _ w' => Raises host origin id w w' ∧ w'.engine.interrupted = false)
      (Halts host origin (Faltered host origin)) :=
  (external_meets steady (.dockerStart id) licensed).mono
    (fun _ _ replied => ⟨⟨replied.steady, replied.kept, replied.history.mono
      fun _ awaits => Event.awaits_quietBut awaits nofun fun _ different => by
        simpa [Op.raises] using different.symm⟩,
      replied.uninterrupted⟩)
    fun _ _ halts => halts.mono fun _ ⟨awaited, interrupted, _⟩ =>
      ⟨awaited.steady.toWorking, interrupted.mpr⟩

/-- The phase of a run whose container was started is recorded. -/
theorem recordStart_meets {id : String} (raised : Raises host origin id w w')
    (uninterrupted : w'.engine.interrupted = false) (copy : Copy run w) :
    Meets host (do insertRun run.id { run with phase := .starting }; save) w'
      (fun _ w'' => Raises host origin id w w'' ∧ w''.engine.interrupted = false)
      (Halts host origin (Faltered host origin)) := by
  have copied := (copy.kept raised.kept).of_forget
    (show ({ run with phase := .starting } : Run).forget = run.forget from rfl)
  refine (insertRun_moves raised.steady copied uninterrupted nofun).bind
    fun _ w₁ ⟨inserted, _⟩ => ?_
  replace inserted := inserted.proceeds uninterrupted
  refine (save_moves inserted.steady).mono (fun _ w₂ saved => ?_)
    fun _ _ fails => (inserted.toCarries.fails fails).faltered
  have saved := inserted.moves saved.toMoves
  exact ⟨raised.trans (saved.toCarries.raises id), saved.uninterrupted⟩

theorem startCreated_meets (steady : Steady host origin w) (copy : Copy run w) (pass : Pass)
    (unraised : ∀ m ∈ currentPass w.history, m.raises run.id = false)
    {containers : List Container} {container : Container}
    (listed : lastListing (currentPass w.history) = some containers)
    (member : container ∈ containers)
    (owned : container.owned w.engine.state.managerId.text run = true)
    (status : container.status = some "created") :
    Meets host (startCreated pass run.id run) w
      (fun _ w' => Raises host origin run.id w w' ∧ w'.engine.interrupted = false)
      (Halts host origin (Faltered host origin)) := by
  unfold startCreated
  refine (external_proceeds steady (.githubToken _ _ _) rfl fun _ => trivial).seq
    (fun _ _ halts => halts.mono fun _ stopped => stopped.1.faltered) fun _ w₁ token => ?_
  refine (fileOp_moves token.steady _).seq
    (fun _ _ fails => (token.toCarries.fails fails).faltered) fun _ w₂ written => ?_
  replace written := token.moves written
  have licensed : Licensed w₂ (.dockerStart run.id) := by
    obtain ⟨recorded, found, key, -⟩ := copy.kept written.kept
    obtain ⟨sameId, samePool⟩ := Prod.ext_iff.mp key
    refine ⟨fun m inPass => launches_of_raises (written.toCarries.unraised unraised m inPass),
      recorded, found, .inl ⟨containers, container, written.toCarries.lastListing.trans listed,
        member, ?_, status⟩⟩
    rw [Container.owned, written.toCarries.managerId, ← show run.id = recorded.id from sameId,
      ← show run.poolId = recorded.poolId from samePool]
    exact owned
  refine (dockerStart_raises written.steady run.id fun _ => licensed).bind
    fun _ w₃ started => ?_
  exact recordStart_meets ((written.toCarries.raises run.id).trans started.1) started.2 copy

/-- A part of a pass that leaves memory to the requests handled at its awaits. -/
structure Prepares (host : Host) (origin : Origin) (w w' : World) : Prop
    extends Carries host origin w w' where
  uncreated : Uncreated w w'

theorem Prepares.trans (first : Prepares host origin w w')
    (second : Prepares host origin w' w'') : Prepares host origin w w'' :=
  ⟨first.toCarries.trans second.toCarries, first.uncreated.trans second.uncreated⟩

theorem external_prepares (led : Prepares host origin w w') (op : Op) (quiet : op.quiet = true)
    (licensed : Licensed w' op) :
    Meets host (external op) w' (fun _ => Prepares host origin w)
      (Halts host origin (Faltered host origin)) :=
  (external_meets led.steady op fun _ => licensed).mono
    (fun _ _ replied => led.trans ⟨replied.toAwaited.carries quiet, replied.uncreated⟩)
    fun _ _ halts => halts.mono fun _ ⟨awaited, interrupted, _⟩ =>
      ⟨awaited.steady.toWorking, interrupted.mpr⟩

theorem fileOp_prepares (led : Prepares host origin w w') (op : FileOp) :
    Meets host (fileOp op) w' (fun _ => Prepares host origin w)
      (Halts host origin (Faltered host origin)) := by
  refine meets_fileOp.mpr ?_
  split
  · exact led.trans ⟨(led.steady.moves_file op true).toCarries, .of_eq rfl⟩
  · exact ⟨(led.steady.moves_file op false).steady.toWorking, nofun⟩

theorem createRecorded_meets (steady : Steady host origin w) {recorded : Run}
    (found : w.engine.state.runs[run.id]? = some recorded)
    (same : run.forget = recorded.forget) (creating : recorded.phase = .creating)
    (pass : Pass) (managerId : w.engine.state.managerId = pass.managerId)
    (unraised : ∀ m ∈ currentPass w.history, m.raises run.id = false)
    (listed : lastListing (currentPass w.history) = some pass.containers)
    (missing : ∀ container ∈ pass.containers,
      container.owned w.engine.state.managerId.text run = false) :
    Meets host (createRecorded pass run.id run) w
      (fun _ w' => Raises host origin run.id w w' ∧ w'.engine.interrupted = false)
      (Halts host origin (Faltered host origin)) := by
  have copy : Copy run w :=
    ⟨recorded, found, Run.key_eq_of_forget_eq same, fun _ _ => same⟩
  unfold createRecorded
  have begun : Prepares host origin w w := ⟨.refl steady, .of_eq rfl⟩
  refine (external_prepares begun (.dockerImage run.pool.image) rfl trivial).bind
    fun _ w₁ image => ?_
  refine (fileOp_prepares image _).bind fun _ w₂ secured => ?_
  refine (external_prepares secured (.githubToken _ _ _) rfl trivial).bind
    fun _ w₃ token => ?_
  refine (fileOp_prepares token _).bind fun _ w₄ written => ?_
  have quiet := written.toCarries.unraised unraised
  have licensed : Licensed w₄ (.dockerCreate pass.managerId.text run) := by
    obtain ⟨recorded', found', creating'⟩ := written.uncreated _ _ found creating
    obtain ⟨other, there, key, -⟩ := copy.kept written.kept
    cases found'.symm.trans there
    refine ⟨by rw [written.toCarries.managerId, managerId], quiet,
      ⟨_, written.toCarries.lastListing.trans listed, ?_⟩, recorded', found', key.symm,
      creating'⟩
    rw [← managerId]
    exact missing
  refine (external_meets written.steady (.dockerCreate pass.managerId.text run)
    fun _ => licensed).seq (fun _ _ halts => halts.mono fun _ stopped =>
      ⟨stopped.1.steady.toWorking, stopped.2.1.mpr⟩) fun _ w₅ replied => ?_
  have quietBut {m : Moment}
      (awaits : m.event.awaits (.dockerCreate pass.managerId.text run)) : m.QuietBut run.id :=
    Event.awaits_quietBut awaits (by simp) fun _ different => by
      simpa [Op.raises] using different.symm
  have created : Raises host origin run.id w w₅ := (written.toCarries.raises run.id).trans
    ⟨replied.steady, replied.kept, replied.history.mono fun _ awaits => quietBut awaits⟩
  obtain ⟨new, m, history, moments, event, -⟩ := replied.last
  have pass₅ : currentPass w₅.history = currentPass w₄.history ++ (new ++ [m]) := by
    obtain ⟨new', history', quiet'⟩ := replied.history
    cases List.append_cancel_left (history.symm.trans history')
    rw [history', currentPass_append fun m member => (quietBut (quiet' m member)).starts]
  have launches : ∀ m' ∈ new ++ [m], m'.launches run.id = false := by
    refine List.forall_mem_append.mpr ⟨fun m' member => ?_, by simp [Moment.launches, event]⟩
    have awaits := (moments m' member).1
    cases event' : m'.event with
    | began other =>
        rw [event'] at awaits
        cases awaits
        simp [Moment.launches, event']
    | _ => simp [Moment.launches, event']
  have licensed' : Licensed w₅ (.dockerStart run.id) := by
    obtain ⟨other, there, -⟩ := copy.kept created.kept
    refine ⟨?_, other, there, .inr ⟨m, ?_, _, run, event, rfl⟩⟩
    · rw [pass₅]
      exact List.forall_mem_append.mpr
        ⟨fun m member => launches_of_raises (quiet m member), launches⟩
    · simp [pass₅]
  refine (dockerStart_raises created.steady run.id fun _ => licensed').bind
    fun _ w₆ started => ?_
  exact recordStart_meets (created.trans started.1) started.2 copy

/-! ## Cleaning up -/

theorem removeStopped_meets (steady : Steady host origin w) (copy : Copy run w)
    (begun : Begun w run.id) (phase : run.phase ≠ .creating)
    {containers : List Container} {container : Container}
    (listed : lastListing (currentPass w.history) = some containers)
    (member : container ∈ containers)
    (owned : container.owned w.engine.state.managerId.text run = true)
    (stopped : container.live = false) :
    Meets host (removeStopped run.id run container) w
      (fun run' w' => Proceeds host origin w w' ∧
        (run' = run ∨ run' = { run with logSaved := true }) ∧
        ∃ m ∈ currentPass w'.history, m.event = .ended (.dockerRemove run.id false) (.ok ()))
      (Halts host origin (Stopped host origin w)) := by
  unfold removeStopped
  refine (archive_meets steady copy phase container).bind fun run' w₁ outcome => ?_
  obtain ⟨archived, same⟩ := outcome
  have licensed : Licensed w₁ (.dockerRemove run.id false) := by
    obtain ⟨recorded, found, key, -⟩ := copy.kept archived.kept
    obtain ⟨sameId, samePool⟩ := Prod.ext_iff.mp key
    refine ⟨archived.kept.begun begun, recorded, containers, container, found,
      archived.lastListing.trans listed, member, ?_, stopped⟩
    rw [Container.owned, archived.managerId, ← show run.id = recorded.id from sameId,
      ← show run.poolId = recorded.poolId from samePool]
    exact owned
  refine (external_meets archived.steady (.dockerRemove run.id false) fun _ => licensed).seq
    (fun _ _ halts => halts.mono fun _ stopped =>
      archived.stopped ⟨stopped.1.carries rfl, stopped.2.1.mpr⟩) fun _ w₂ replied => ?_
  obtain ⟨new, m, history, moments, event, -⟩ := replied.last
  refine ⟨archived.proceeds ⟨replied.toAwaited.carries rfl, replied.uninterrupted⟩, same, m,
    ?_, event⟩
  rw [history, ← List.append_assoc, currentPass_concat (by simp [Moment.starts, event])]
  exact List.mem_append_right _ (List.mem_singleton_self m)

/-- A part of a pass proceeded with moments of which `P` holds. -/
structure Shows (host : Host) (origin : Origin) (P : List Moment → Prop) (w w' : World) : Prop
    extends Proceeds host origin w w' where
  shown : ∃ new, w'.history = w.history ++ new ∧ (∀ m ∈ new, m.Quiet) ∧ P new

theorem deregister_meets (steady : Steady host origin w) (pass : Pass) (id : String) :
    Meets host (deregister pass id) w
      (fun _ => Shows host origin (Unregistered id) w)
      (Halts host origin (Stopped host origin w)) := by
  unfold deregister
  refine (external_meets steady (.githubList _ _ _ _) fun _ => trivial).seq
    (fun _ _ halts => halts.mono fun _ stopped =>
      ⟨stopped.1.carries rfl, stopped.2.1.mpr⟩) fun fresh w₁ replied => ?_
  have listed : Proceeds host origin w w₁ :=
    ⟨replied.toAwaited.carries rfl, replied.uninterrupted⟩
  obtain ⟨new, m, history, -, event, -⟩ := replied.last
  obtain ⟨_, history', quiet⟩ := listed.history
  cases List.append_cancel_left (history.symm.trans history')
  split
  · next remote there =>
      refine (external_meets listed.steady (.githubRemove _ _ _ _) fun _ => trivial).mono
        (fun _ w₂ replied' => ?_) fun _ _ halts => halts.mono fun _ stopped =>
          listed.toCarries.stopped ⟨stopped.1.carries rfl, stopped.2.1.mpr⟩
      have removed : Proceeds host origin w₁ w₂ :=
        ⟨replied'.toAwaited.carries rfl, replied'.uninterrupted⟩
      obtain ⟨new₂, m₂, history₂, -, event₂, -⟩ := replied'.last
      obtain ⟨_, history₂', quiet₂⟩ := removed.history
      cases List.append_cancel_left (history₂.symm.trans history₂')
      have name : remote.name = id := by
        simpa using List.find?_some (p := fun r : RemoteRunner => r.name == id) there
      refine ⟨listed.toCarries.proceeds removed, new ++ m :: (new₂ ++ [m₂]), ?_, ?_, ?_⟩
      · rw [history₂, history]
        simp
      · rw [List.append_cons]
        exact List.forall_mem_append.mpr ⟨quiet, quiet₂⟩
      · exact ⟨new, m, new₂ ++ [m₂], _, _, _, fresh, rfl, event, .inr ⟨remote,
          List.mem_of_find?_eq_some there, name, m₂, by simp, event₂⟩⟩
  · next missing =>
      refine ⟨listed, new ++ [m], history, quiet, new, m, [], _, _, _, fresh, rfl, event,
        .inl ?_⟩
      simpa using missing

theorem Steady.moves_look (steady : Steady host origin w) (path : RunPath) (present : Bool) :
    Moves host origin w ((w.advance host).log (.looked path present)) :=
  steady.moves.trans (steady.advance.moves_log rfl ⟨rfl, rfl, rfl, rfl, rfl, fun _ => rfl⟩)

/-- The last moment of a part that proceeded shows that the directory is gone. -/
theorem Proceeds.vanished {id : String} {event : Event} (led : Proceeds host origin w w')
    (moves : Moves host origin w' ((w'.advance host).log event))
    (gone : event = .looked (.directory id) false ∨ event = .file (.removeDir id) true) :
    Shows host origin (Vanished id) w ((w'.advance host).log event) := by
  have moved := led.moves moves
  obtain ⟨new, history, quiet⟩ := moved.history
  refine ⟨moved, new, history, quiet, (w'.advance host).moment event, ?_, gone⟩
  obtain ⟨before, history', -⟩ := led.history
  rw [World.log_history, World.advance_history, history', List.append_assoc] at history
  rw [← List.append_cancel_left history]
  exact List.mem_append_right _ (List.mem_singleton_self _)

theorem removeDirectory_meets (steady : Steady host origin w)
    (uninterrupted : w.engine.interrupted = false) (id : String) (run : Run) :
    Meets host (removeDirectory id run) w
      (fun _ => Shows host origin (Vanished id) w)
      (Halts host origin (Stopped host origin w)) := by
  unfold removeDirectory
  have start : Proceeds host origin w w := ⟨.refl steady, uninterrupted⟩
  refine meets_bind.mpr (meets_pathExists.mpr ?_)
  cases present : (host.answers w.asked).present with
  | true =>
      have looked := start.moves (steady.moves_look (.directory id) true)
      refine meets_bind.mpr (meets_attempt.mpr (meets_fileOp.mpr ?_))
      split
      · exact looked.vanished (looked.steady.moves_file _ true) (.inr rfl)
      · have failed := looked.moves (looked.steady.moves_file (.removeDir id) false)
        dsimp only
        split
        · refine (external_proceeds failed.steady (.dockerRepair run) rfl
            fun _ => trivial).seq (fun _ _ halts => halts.mono fun _ stopped =>
              failed.toCarries.stopped stopped.1) fun _ w₂ repaired => ?_
          replace repaired := failed.toCarries.proceeds repaired
          refine meets_fileOp.mpr ?_
          split
          · exact repaired.vanished (repaired.steady.moves_file _ true) (.inr rfl)
          · exact ⟨(repaired.moves (repaired.steady.moves_file _ false)).toCarries, nofun⟩
        · exact ⟨failed.toCarries, nofun⟩
  | false => exact start.vanished (steady.moves_look _ false) (.inl rfl)

/-! ## The loop invariant -/

section Loop

variable {pass : Pass} {first : State × List Container} {id : String} {rest : List String}
  {progress progress' : Progress}

namespace Visiting

/-- A turn that visited `id` is over. -/
theorem next (visiting : Visiting host origin pass first (id :: rest) progress w)
    (steady : Steady host origin w')
    (managerId : w'.engine.state.managerId = w.engine.state.managerId)
    (present : ∀ other run, other ≠ id → w.engine.state.runs[other]? = some run →
      ∃ run', w'.engine.state.runs[other]? = some run' ∧ run'.poolId = run.poolId)
    {new : List Moment} (history : w'.history = w.history ++ new)
    (starts : ∀ m ∈ new, m.starts = false) (listing : ∀ m ∈ new, m.listing = none)
    (raises : ∀ m ∈ new, ∀ other, other ≠ id → m.raises other = false)
    (counts : progress'.report.unexpectedExits =
      progress.report.unexpectedExits + exits new)
    (caught : w'.engine.interrupted = true → progress'.cleanupError.isSome = true)
    (honest : progress'.cleanupError = some .interrupted → w'.engine.interrupted = true) :
    Visiting host origin pass first rest progress' w' := by
  have distinct := List.nodup_cons.mp visiting.distinct
  have moments : currentPass w'.history = currentPass w.history ++ new := by
    rw [history, currentPass_append starts]
  have listings : listings (currentPass w'.history) = listings (currentPass w.history) := by
    rw [moments, listings_append, listings_eq_nil listing, List.append_nil]
  have other {id' : String} (member : id' ∈ rest) : id' ≠ id := by
    rintro rfl
    exact distinct.1 member
  refine ⟨steady, managerId.trans visiting.managerId, ?_, ?_, distinct.2, ?_, ?_, ?_,
    caught, honest⟩
  · rw [lastListing, listings]
    exact visiting.listed
  · rw [listings]
    exact visiting.first
  · intro id' member
    rw [moments]
    exact List.forall_mem_append.mpr
      ⟨visiting.unraised id' (List.mem_cons_of_mem _ member),
        fun m added => raises m added id' (other member)⟩
  · intro id' member
    obtain ⟨run, found, ofPool⟩ := visiting.present id' (List.mem_cons_of_mem _ member)
    obtain ⟨run', found', samePool⟩ := present id' run (other member) found
    exact ⟨run', found', samePool.trans ofPool⟩
  · rw [counts, visiting.counts, moments, exits_append]

/-- A turn that dropped nothing is over. -/
theorem created (visiting : Visiting host origin pass first (id :: rest) progress w)
    (raises : Raises host origin id w w')
    (counts : progress'.report = progress.report)
    (caught : w'.engine.interrupted = true → progress'.cleanupError.isSome = true)
    (honest : progress'.cleanupError = some .interrupted → w'.engine.interrupted = true) :
    Visiting host origin pass first rest progress' w' := by
  obtain ⟨new, history, quiet⟩ := raises.history
  refine visiting.next raises.steady (State.roster_eq_iff.mp raises.kept.roster).1 ?_
    history (fun m member => (quiet m member).starts)
    (fun m member => (quiet m member).listing) (fun m member => (quiet m member).raises) ?_
    caught honest
  · intro other run _ found
    obtain ⟨run', found', -, ofPool⟩ :=
      State.run_of_roster raises.kept.roster.symm found
    exact ⟨run', found', ofPool⟩
  · rw [counts, exits_eq_zero fun m member => (quiet m member).counted, Nat.add_zero]

/-- An error that was collected before the turn is still there after it. -/
theorem still (visiting : Visiting host origin pass first (id :: rest) progress w)
    (kept : Kept w w') (collected : progress.cleanupError = some .interrupted) :
    w'.engine.interrupted = true := by
  by_contra uninterrupted
  have before := kept.interrupted (by simpa using uninterrupted)
  simp [visiting.honest collected] at before

theorem raised (visiting : Visiting host origin pass first (id :: rest) progress w)
    (raised : Raises host origin id w w') (uninterrupted : w'.engine.interrupted = false) :
    Visiting host origin pass first rest progress w' :=
  visiting.created raised rfl (by simp [uninterrupted]) (visiting.still raised.kept)

theorem moves (visiting : Visiting host origin pass first (id :: rest) progress w)
    (moves : Moves host origin w w') : Visiting host origin pass first rest progress w' :=
  visiting.created (moves.toCarries.raises id) rfl
    (fun interrupted => visiting.caught (moves.same ▸ interrupted))
    (visiting.still moves.kept)

/-- A turn of the cleanup failed. -/
theorem collect (visiting : Visiting host origin pass first (id :: rest) progress w)
    (stopped : Stopped host origin w error w') :
    Visiting host origin pass first rest (progress.collect error) w' := by
  refine visiting.created (stopped.toCarries.raises id) rfl (fun _ => rfl)
    fun collected => ?_
  cases before : progress.cleanupError with
  | none =>
      simp only [Progress.collect, before, Option.getD_none, Option.some.injEq] at collected
      exact stopped.interrupted collected
  | some other =>
      simp only [Progress.collect, before, Option.getD_some] at collected
      exact visiting.still stopped.kept (before.trans collected)

end Visiting

/-! ## One turn of the loop -/

theorem State.Sound.dropRun {s : State} (sound : s.Sound) {name : String} {p : PoolState}
    (found : run.completedJob = true → s.pools[name]? = some p) :
    (s.dropRun name p run).Sound := by
  unfold State.dropRun
  split
  · next completed =>
      have reset : (s.setPool name { p with failures := 0 }).Sound :=
        sound.note (found completed) rfl fun late => sound.noted (p := p) (found completed) late
      exact reset.eraseRun run.id
  · exact sound.eraseRun run.id

/-- The pools of a state without a run. -/
theorem State.dropRun_pool {s : State} {name : String} {p : PoolState}
    (found : run.completedJob = true → s.pools[name]? = some p) {other : String}
    {q : PoolState} (there : s.pools[other]? = some q) :
    ∃ failures, (s.dropRun name p run).pools[other]? = some { q with failures } := by
  rw [State.dropRun]
  dsimp only
  split
  · next completed =>
      rw [TreeMap.get_insert]
      split
      · next equal =>
          subst equal
          cases (found completed).symm.trans there
          exact ⟨0, rfl⟩
      · exact ⟨q.failures, there⟩
  · exact ⟨q.failures, there⟩

theorem State.dropRun_ids {s : State} {name : String} {p : PoolState}
    (found : run.completedJob = true → s.pools[name]? = some p) {other : String}
    {q' : PoolState} (there : (s.dropRun name p run).pools[other]? = some q') :
    ∃ q, s.pools[other]? = some q ∧ q.id = q'.id := by
  rw [State.dropRun] at there
  dsimp only at there
  split at there
  · next completed =>
      rw [TreeMap.get_insert] at there
      split at there
      · next equal =>
          cases there
          exact ⟨p, equal ▸ found completed, rfl⟩
      · exact ⟨q', there, rfl⟩
  · exact ⟨q', there, rfl⟩

/-- A completed job resets the failures of the pool, if it is there. -/
theorem resetFailures_meets (working : Working host origin w)
    (uninterrupted : w.engine.interrupted = false) (completed : Bool) :
    Meets host (if completed = true then resetFailures origin.name else pure ()) w
      (fun _ w' => ∃ p, (completed = true → w.engine.state.pools[origin.name]? = some p) ∧
        w' = w.setState { w.engine.state with
          pools := if completed then
            w.engine.state.pools.insert origin.name { p with failures := 0 }
            else w.engine.state.pools })
      (Halts host origin (Faltered host origin)) := by
  split
  · next completed =>
      refine meets_bind.mpr (meets_poolOf.mpr ?_)
      split
      · next p found => exact ⟨p, fun _ => found, rfl⟩
      · next missing =>
          refine ⟨⟨w, working.steps, .inl rfl⟩, fun restored _ => ?_⟩
          obtain ⟨-, _, found⟩ := working.view uninterrupted restored
          simp [found] at missing
  · next incomplete => exact ⟨origin.ps, (absurd · incomplete), rfl⟩

theorem noteExit_exits (report : ReconcileReport) {m : Moment} {interrupted : Bool}
    (event : m.event = .droppedRun run interrupted) :
    (report.noteExit run interrupted).unexpectedExits =
      report.unexpectedExits + exits [m] := by
  rw [exits_singleton, Moment.counted, event, ReconcileReport.noteExit, unexpectedExit]
  dsimp only
  split <;> rfl

theorem dropRun_meets
    (visiting : Visiting host origin pass first (run.id :: rest) progress w)
    (led : Proceeds host origin w w') (copy : Copy run w')
    (ofPool : run.poolId = origin.ps.id)
    (forgotten : Forgotten w'.engine.state.managerId run (currentPass w'.history))
    {interrupted : Bool} (judged : Judged host w'.engine.state.managerId run interrupted
      (currentPass w'.history)) (name : pass.name = origin.name) :
    Meets host (dropRun pass run.id run interrupted progress) w'
      (Visiting host origin pass first rest) (Halts host origin (Faltered host origin)) := by
  have working := led.steady.toWorking
  have uninterrupted := led.uninterrupted
  have unborn := led.steady.unborn
  unfold dropRun
  rw [name]
  obtain ⟨recorded, found, key, same⟩ := copy
  refine (resetFailures_meets working uninterrupted run.completedJob).when_bind
    fun _ w₁ known => ?_
  obtain ⟨p, pool, reset⟩ := known
  refine meets_bind.mpr (meets_getState.mpr (meets_bind.mpr (meets_setState.mpr
    (meets_bind.mpr (meets_record.mpr ?_)))))
  have state : w₁.setState { w₁.engine.state with
      runs := w₁.engine.state.runs.erase run.id } =
        w'.setState (w'.engine.state.dropRun origin.name p run) := by
    rw [reset]
    rfl
  rw [state]
  have dropped : Step host w' ((w'.setState (w'.engine.state.dropRun origin.name p run)).log
      (.droppedRun run interrupted)) := by
    refine .drop (working.undisturbed uninterrupted) unborn found key forgotten judged
      fun completed => ⟨⟨_, _, working.head⟩, pool completed, fun restored => ?_⟩
    obtain ⟨-, _, view⟩ := working.view uninterrupted restored
    cases (pool completed).symm.trans view
    exact ofPool.symm
  have running (restored : Restored w'.history) (fresh : Fresh host w'.asked)
      (unexpected : run.retiring = false) : origin.ps.running = true := by
    obtain ⟨sound, -⟩ := working.savable.sound restored fresh
    obtain ⟨-, _, view⟩ := working.view uninterrupted restored
    have forget := Run.forget_eq_iff.mp (same restored led.uninterrupted)
    by_contra stopped
    have retiring := sound.draining view (by simpa using stopped) found (forget.2.1 ▸ ofPool)
    simp [← forget.2.2.2.2.2.1, unexpected] at retiring
  have working' := working.next dropped
    (working.savable.map le_rfl (fun restored => (restored_append.mp restored).1)
      (working.savable.named.erase run.id) (·.dropRun pool) (State.dropRun_ids pool))
    rfl rfl le_rfl rfl (by simpa using ⟨rfl, rfl, rfl⟩) rfl
    (fun _ => State.dropRun_pool pool) fun restored fresh some => by
      refine running restored fresh ?_
      rw [exits_singleton] at some
      by_contra retiring
      simp [Moment.counted, retiring] at some
  refine (save_settles working' ?_).seq (fun fault w₂ stopped => ?_) fun _ w₂ settles => ?_
  · rw [World.log_history, currentPass_concat rfl]
    exact List.forall_mem_append.mpr ⟨unborn, by simp [Moment.births]⟩
  · obtain ⟨text, failed, working⟩ := stopped
    cases failed
    exact ⟨working, by simp⟩
  · obtain ⟨m, history₂, quiet⟩ := settles.history
    obtain ⟨new, history', moments⟩ := led.history
    rw [World.log_history, World.setState_history, history',
      List.append_assoc, List.append_assoc] at history₂
    generalize event : (w'.setState _).moment (.droppedRun run interrupted) = d at history₂
    replace event : d.event = .droppedRun run interrupted := by rw [← event]; rfl
    have ended : w₂.engine.interrupted = false := settles.same.trans uninterrupted
    have every {P : Moment → Prop} (quiet' : ∀ m, m.Quiet → P m) (dropped : P d) :
        ∀ m' ∈ new ++ ([d] ++ [m]), P m' :=
      List.forall_mem_append.mpr ⟨fun m' member => quiet' m' (moments m' member),
        List.forall_mem_append.mpr ⟨by simpa using dropped, by simpa using quiet' m quiet⟩⟩
    refine visiting.next settles.steady ?_ ?_ history₂
      (every (P := (·.starts = false)) (fun _ quiet => quiet.starts)
        (by simp [Moment.starts, event]))
      (every (P := (·.listing = none)) (fun _ quiet => quiet.listing)
        (by simp [Moment.listing, event]))
      (every (P := fun m => ∀ other, other ≠ run.id → m.raises other = false)
        (fun _ quiet other _ => quiet.raises other) (by simp [Moment.raises, event]))
      ?_ (by simp [ended]) fun collected => ?_
    · rw [settles.state]
      exact led.managerId
    · intro other run' different there
      obtain ⟨run'', there', -, samePool⟩ := State.run_of_roster led.kept.roster.symm there
      refine ⟨run'', ?_, samePool⟩
      rw [settles.state]
      refine (TreeMap.get_erase _ _ _).trans ?_
      rw [if_neg different.symm]
      exact there'
    · rw [exits_append, exits_append, exits_eq_zero fun m member => (moments m member).counted,
        noteExit_exits _ event, exits_singleton (m := m), quiet.counted, Nat.zero_add,
        if_neg Bool.false_ne_true, Nat.add_zero]
    · have before := visiting.still led.kept collected
      simp [led.uninterrupted] at before

theorem finishRun_meets
    (visiting : Visiting host origin pass first (run.id :: rest) progress w)
    (led : Carries host origin w w') (copy : Copy run w') (ofPool : run.poolId = origin.ps.id)
    (gone : Gone w'.engine.state.managerId run (currentPass w'.history)) {interrupted : Bool}
    (judged : Judged host w'.engine.state.managerId run interrupted (currentPass w'.history))
    (name : pass.name = origin.name) :
    Meets host (finishRun pass run.id run interrupted progress) w'
      (Visiting host origin pass first rest) (Halts host origin (Faltered host origin)) := by
  unfold finishRun
  have removed : Meets host (do deregister pass run.id; removeDirectory run.id run) w'
      (fun _ => Shows host origin (fun new => ∃ second third, new = second ++ third ∧
        Unregistered run.id second ∧ Vanished run.id third) w')
      (Halts host origin (Stopped host origin w')) := by
    refine (deregister_meets led.steady pass run.id).bind fun _ w₁ deregistered => ?_
    refine (removeDirectory_meets deregistered.steady deregistered.uninterrupted run.id run).mono
      (fun _ w₂ vanished => ?_) fun _ _ => deregistered.toCarries.halts
    obtain ⟨second, history₁, quiet₁, unregistered⟩ := deregistered.shown
    obtain ⟨third, history₂, quiet₂, gone⟩ := vanished.shown
    exact ⟨deregistered.toCarries.proceeds vanished.toProceeds, second ++ third,
      by rw [history₂, history₁, List.append_assoc],
      List.forall_mem_append.mpr ⟨quiet₁, quiet₂⟩, second, third, rfl, unregistered, gone⟩
  refine meets_bind.mpr (meets_attempt.mpr (removed.mono (fun _ w₁ removed => ?_)
    fun fault w₁ halts => ?_))
  · refine dropRun_meets visiting (led.proceeds removed.toProceeds) (copy.kept removed.kept)
      ofPool ?_ (removed.managerId ▸ removed.toCarries.judged judged) name
    obtain ⟨_, history, quiet, second, third, rfl, unregistered, vanished⟩ := removed.shown
    refine ⟨currentPass w'.history, second, third, ?_, removed.managerId ▸ gone,
      unregistered, vanished, fun m member => (quiet m member).raises run.id⟩
    rw [history, currentPass_append fun m member => (quiet m member).starts,
      List.append_assoc]
  · cases fault with
    | panic => exact halts
    | error error => exact visiting.collect (led.stopped halts)

theorem cleanStopped_meets
    (visiting : Visiting host origin pass first (run.id :: rest) progress w) {recorded : Run}
    (found : w.engine.state.runs[run.id]? = some recorded)
    (same : run.forget = recorded.forget) (ofPool : run.poolId = origin.ps.id)
    (name : pass.name = origin.name) {container : Container}
    (member : container ∈ pass.containers)
    (owned : container.owned w.engine.state.managerId.text run = true)
    (stopped : container.live = false) :
    Meets host (cleanStopped pass run.id run container progress) w
      (Visiting host origin pass first rest) (Halts host origin (Faltered host origin)) := by
  unfold cleanStopped
  refine meets_bind.mpr (meets_pathExists.mpr ?_)
  generalize (host.answers w.asked).present = completed
  have looked := visiting.toSteady.moves_look (.completed run.id) completed
  generalize seen : (w.advance host).log (.looked (.completed run.id) completed) = w₀ at looked
  have state : w₀.engine.state = w.engine.state := by rw [← seen]; rfl
  have checked : Meets host
      (if unexpectedExit { run with completedJob := completed } = true then
        stoppedByReboot container run.pool.image else pure false) w₀
      (fun interrupted w₁ => (w₁ = w₀ ∨ Proceeds host origin w₀ w₁) ∧
        (unexpectedExit { run with completedJob := completed } = true → interrupted = false →
          Blamed host container (currentPass w₁.history)))
      (Halts host origin (Faltered host origin)) := by
    split
    · exact (stoppedByReboot_meets looked.steady container run.pool.image).mono
        (fun _ _ ⟨led, blamed⟩ => ⟨led, fun _ => blamed⟩) fun _ _ => Halts.faltered
    · next expected => exact ⟨.inl rfl, fun unexpected => absurd unexpected expected⟩
  refine checked.when_bind fun interrupted w₁ ⟨led, blamed⟩ => ?_
  dsimp only
  -- the copy is written back only if it is fresh or nothing interrupted the pass
  have copied : Copy { run with completedJob := completed, phase := .cleanup } w :=
    ⟨recorded, found, Run.key_eq_of_forget_eq same, fun _ _ => same⟩
  have carried : Carries host origin w w₁ := by
    rcases led with rfl | proceeds
    · exact looked.toCarries
    · exact looked.toCarries.trans proceeds.toCarries
  have judged : Judged host w₁.engine.state.managerId { run with completedJob := completed }
      interrupted (currentPass w₁.history) := by
    refine ⟨pass.containers, carried.lastListing.trans visiting.listed,
      .inr ⟨container, member, carried.managerId ▸ owned, ?_, blamed⟩⟩
    have here : ∃ m ∈ currentPass w₀.history,
        m.event = .looked (.completed run.id) completed := by
      rw [← seen, World.log_history, currentPass_concat rfl]
      exact ⟨_, List.mem_append_right _ (List.mem_singleton_self _), rfl⟩
    rcases led with rfl | proceeds
    · exact here
    · obtain ⟨new, grown, -⟩ := proceeds.toCarries.pass
      obtain ⟨m, inPass, event⟩ := here
      exact ⟨m, grown ▸ List.mem_append_left _ inPass, event⟩
  have inserted : Meets host
      (insertRun run.id { run with completedJob := completed, phase := .cleanup }) w₁
      (fun _ w₂ => Moves host origin w₁ w₂ ∧ w₂.engine.state.runs[run.id]? =
        some { run with completedJob := completed, phase := .cleanup })
      (Halts host origin (Faltered host origin)) := by
    rcases led with rfl | proceeds
    · refine meets_insertRun.mpr ⟨looked.steady.observe
        { run with completedJob := completed, phase := .cleanup } (state ▸ found)
        (Run.key_eq_of_forget_eq same) (fun _ => same) (fun _ => same) nofun,
        TreeMap.get_insert_self _ _ _⟩
    · exact insertRun_moves proceeds.steady (copied.kept carried.kept)
        proceeds.uninterrupted nofun
  refine inserted.bind fun _ w₂ ⟨inserted, written⟩ => ?_
  refine (save_moves inserted.steady).seq
    (fun _ _ fails => (inserted.toCarries.fails fails).faltered) fun _ w₃ saves => ?_
  have begun : Begun w₃ run.id := saves.begun fun other there => by
    cases written.symm.trans there
    exact nofun
  have written' := inserted.toCarries.trans saves.toCarries
  replace judged := written'.managerId ▸ written'.judged judged
  replace carried := carried.trans written'
  replace copied := copied.kept carried.kept
  have listed := carried.lastListing.trans visiting.listed
  rw [← carried.managerId] at owned
  refine meets_bind.mpr (meets_attempt.mpr
    ((removeStopped_meets carried.steady copied begun nofun listed member owned stopped).mono
      (fun run' w₄ ⟨removed, same', m, inPass, event⟩ => ?_) fun fault w₄ halts => ?_))
  · have carried' := carried.trans removed.toCarries
    have keys : run'.id = run.id ∧ run'.poolId = run.poolId ∧
        run'.forget = ({ run with completedJob := completed, phase := .cleanup } :
          Run).forget ∧ Judged host w₄.engine.state.managerId run' interrupted
            (currentPass w₄.history) := by
      have judged' := removed.managerId ▸ removed.toCarries.judged judged
      rcases same' with rfl | rfl <;> exact ⟨rfl, rfl, rfl, judged'⟩
    obtain ⟨sameId, samePool, forget, judged'⟩ := keys
    rw [← sameId] at visiting ⊢
    exact finishRun_meets visiting carried' ((copied.kept removed.kept).of_forget forget)
      (samePool.trans ofPool)
      ⟨carried'.unraised (visiting.unraised run'.id List.mem_cons_self), m, inPass,
        .inr ⟨false, by rw [event, sameId]⟩⟩ judged' name
  · cases fault with
    | panic => exact halts
    | error error => exact visiting.collect (carried.stopped halts)

theorem visitClone_meets
    (visiting : Visiting host origin pass first (run.id :: rest) progress w) {recorded : Run}
    (found : w.engine.state.runs[run.id]? = some recorded)
    (same : run.forget = recorded.forget) (phase : run.phase = recorded.phase)
    (ofPool : run.poolId = origin.ps.id)
    (name : pass.name = origin.name) (remote : Option RemoteRunner) :
    Meets host (visitClone pass progress w.engine.state.managerId run.id run remote) w
      (Visiting host origin pass first rest) (Halts host origin (Faltered host origin)) := by
  have key := Run.key_eq_of_forget_eq same
  have fresh : Copy run w := ⟨recorded, found, key, fun _ _ => same⟩
  -- a record that was read in this turn may be written back in any case
  have writes {w₁ : World} (led : Moves host origin w w₁)
      (state : w₁.engine.state = w.engine.state) (next : Phase)
      (creating : next = .creating → recorded.phase = .creating) :
      Meets host (insertRun run.id { run with phase := next }) w₁
        (fun _ => Moves host origin w) (Halts host origin (Faltered host origin)) :=
    led.trans (led.steady.observe { run with phase := next } (state ▸ found) key
      (fun _ => same) (fun _ => same) creating)
  have still : Moves host origin w w := ⟨.refl visiting.toSteady, rfl⟩
  have unraised := visiting.unraised run.id List.mem_cons_self
  unfold visitClone
  split
  · next container there =>
      have member := List.mem_of_find?_eq_some there
      have owned : container.owned w.engine.state.managerId.text run = true :=
        List.find?_some (p := (Container.owned · w.engine.state.managerId.text run)) there
      split
      · have removed : Meets host
            (if remote.isSome = true then discard (attempt (fileOp (.removeToken run.id)))
              else pure ()) w
            (fun _ w₁ => Moves host origin w w₁ ∧ w₁.engine.state = w.engine.state)
            (Halts host origin (Faltered host origin)) := by
          split
          · refine meets_discard.mpr (meets_attempt.mpr (meets_fileOp.mpr ?_))
            split
            · exact ⟨visiting.toSteady.moves_file _ true, rfl⟩
            · exact ⟨visiting.toSteady.moves_file _ false, rfl⟩
          · exact ⟨still, rfl⟩
        exact removed.when_bind fun _ w₁ observed =>
          (writes observed.1 observed.2 (observedPhase remote) fun creating =>
            absurd creating (observedPhase_ne_creating remote)).bind
              fun _ w₂ inserted => visiting.moves inserted
      · next stopped =>
          split
          · next created =>
              simp only [Bool.and_eq_true, beq_iff_eq] at created
              split
              · exact (startCreated_meets visiting.toSteady fresh pass unraised visiting.listed
                  member owned created.1).bind fun _ w₁ started =>
                    visiting.raised started.1 started.2
              · exact (writes still rfl run.phase (phase ▸ id)).bind fun _ w₁ inserted =>
                  visiting.moves inserted
          · exact cleanStopped_meets visiting found same ofPool name member owned
              (by simpa using stopped)
  · next missing =>
      have missing : ∀ container ∈ pass.containers,
          container.owned w.engine.state.managerId.text run = false := by
        simpa using missing
      split
      · next creating =>
          simp only [Bool.and_eq_true, beq_iff_eq] at creating
          split
          · exact (createRecorded_meets visiting.toSteady found same
              (phase.symm.trans creating.1) pass visiting.managerId unraised visiting.listed
              missing).bind fun _ w₁ started => visiting.raised started.1 started.2
          · exact (writes still rfl run.phase (phase ▸ id)).bind fun _ w₁ inserted =>
              visiting.moves inserted
      · obtain ⟨m, member, shown⟩ := mem_of_lastListing visiting.listed
        exact finishRun_meets visiting (.refl visiting.toSteady) fresh ofPool
          ⟨unraised, m, member, .inl ⟨_, shown, missing⟩⟩
          ⟨_, visiting.listed, .inl ⟨missing, rfl⟩⟩ name

/-- One turn of the loop keeps its invariant. -/
theorem visitRun_meets (visiting : Visiting host origin pass first (id :: rest) progress w)
    (name : pass.name = origin.name) :
    Meets host (visitRun pass progress id) w (Visiting host origin pass first rest)
      (Halts host origin (Faltered host origin)) := by
  obtain ⟨recorded, found, ofPool⟩ := visiting.present id List.mem_cons_self
  obtain rfl := visiting.ready.keyed found
  unfold visitRun
  refine meets_bind.mpr (meets_getState.mpr (meets_bind.mpr (meets_unwrap.mpr ?_)))
  rw [found]
  let remote := pass.remotes.find? (·.name == recorded.id)
  let run : Run := { recorded with remoteId := (remote.map (·.id)).or recorded.remoteId }
  have visiting : Visiting host origin pass first (run.id :: rest) progress w := visiting
  exact visitClone_meets visiting found rfl rfl ofPool name remote

end Loop

end Visits

end Runnerctl
