import Runnerctl.Metatheory.Steady

/-!
# Copies of runs

A pass clones the records of runs, awaits operations, and writes the clones back.  A
write-back is harmless because it happens only while the pass is uninterrupted: until
then nobody but the pass changes the intent of a run.
-/

namespace Runnerctl

open Std Program Journal

/-- A part of a pass that decides nothing led from `w` to `w'`. -/
structure Carries (host : Host) (origin : Origin) (w w' : World) : Prop where
  steady : Steady host origin w'
  kept : Kept w w'
  history : Grows Moment.Quiet w.history w'.history

/-- A part of a pass that decides nothing, and awaits nothing. -/
structure Moves (host : Host) (origin : Origin) (w w' : World) : Prop
    extends Carries host origin w w' where
  same : w'.engine.interrupted = w.engine.interrupted

/-- A part of a pass succeeded, and nothing interrupted the pass. -/
structure Proceeds (host : Host) (origin : Origin) (w w' : World) : Prop
    extends Carries host origin w w' where
  uninterrupted : w'.engine.interrupted = false

/-- A part of a pass stopped with an error. -/
structure Stopped (host : Host) (origin : Origin) (w : World) (error : Error) (w' : World) :
    Prop extends Carries host origin w w' where
  interrupted : error = .interrupted → w'.engine.interrupted = true

/-- The run is a copy of a recorded one.  Until the pass is interrupted the two differ in
observations only. -/
def Copy (run : Run) (w : World) : Prop :=
  ∃ recorded, w.engine.state.runs[run.id]? = some recorded ∧ run.key = recorded.key ∧
    (Restored w.history → w.engine.interrupted = false → run.forget = recorded.forget)

/-- Operations that neither list nor create nor start containers. -/
def Op.quiet : Op → Bool
  | .dockerList _ | .dockerCreate _ _ | .dockerStart _ => false
  | _ => true

theorem Event.awaits_quiet {op : Op} {m : Moment} (awaits : m.event.awaits op)
    (listing : m.listing = none) (raises : ∀ id, m.raises id = false) : m.Quiet := by
  cases event : m.event with
  | began other | ended other reply =>
      exact ⟨by simp [Moment.starts, event], by simp [Moment.births, event],
        by simp [Moment.deletes, event], by simp [Moment.counted, event], listing, raises⟩
  | _ =>
      refine Event.occurs_quiet ?_
      simpa [event, Event.awaits] using awaits

theorem Event.awaits_raises {op : Op} {m : Moment} (awaits : m.event.awaits op) {id : String}
    (unraised : op.raises id = false) : m.raises id = false := by
  cases event : m.event with
  | began op' =>
      rw [event] at awaits
      cases awaits
      simpa [Moment.raises, event] using unraised
  | _ => simp [Moment.raises, event]

theorem Event.awaits_listing {op : Op} {m : Moment} (awaits : m.event.awaits op)
    (other : ∀ managerId, op ≠ .dockerList managerId) : m.listing = none := by
  cases event : m.event with
  | ended op' reply =>
      rw [event] at awaits
      cases awaits
      cases op <;> simp_all [Moment.listing]
  | _ => simp [Moment.listing, event]

theorem Op.awaits_quiet {op : Op} (quiet : op.quiet = true) {m : Moment}
    (awaits : m.event.awaits op) : m.Quiet := by
  refine Event.awaits_quiet awaits (Event.awaits_listing awaits ?_)
    fun id => Event.awaits_raises awaits ?_
  · rintro _ rfl
    simp [Op.quiet] at quiet
  · cases op <;> simp_all [Op.quiet, Op.raises]

section Copies

variable {host : Host} {origin : Origin} {w w' w'' : World} {run : Run}

theorem Carries.refl (steady : Steady host origin w) : Carries host origin w w :=
  ⟨steady, .refl w, .refl _⟩

theorem Carries.trans (first : Carries host origin w w') (second : Carries host origin w' w'') :
    Carries host origin w w'' :=
  ⟨second.steady, first.kept.trans second.kept, first.history.trans second.history⟩

theorem Carries.proceeds (first : Carries host origin w w')
    (second : Proceeds host origin w' w'') : Proceeds host origin w w'' :=
  ⟨first.trans second.toCarries, second.uninterrupted⟩

theorem Carries.stopped {error : Error} (first : Carries host origin w w')
    (second : Stopped host origin w' error w'') : Stopped host origin w error w'' :=
  ⟨first.trans second.toCarries, second.interrupted⟩

theorem Carries.halts {fault : Fault Error} (first : Carries host origin w w')
    (second : Halts host origin (Stopped host origin w') fault w'') :
    Halts host origin (Stopped host origin w) fault w'' :=
  second.mono fun _ => first.stopped

theorem Moves.trans (first : Moves host origin w w') (second : Moves host origin w' w'') :
    Moves host origin w w'' :=
  ⟨first.toCarries.trans second.toCarries, second.same.trans first.same⟩

theorem Moves.proceeds (moves : Moves host origin w w')
    (uninterrupted : w.engine.interrupted = false) : Proceeds host origin w w' :=
  ⟨moves.toCarries, moves.same.trans uninterrupted⟩

theorem Awaited.carries {op : Op} (awaited : Awaited host origin op w w')
    (quiet : op.quiet = true) : Carries host origin w w' :=
  ⟨awaited.steady, awaited.kept,
    awaited.history.mono fun _ => Op.awaits_quiet quiet⟩

/-- An operation that neither lists nor raises containers is awaited. -/
theorem external_proceeds (steady : Steady host origin w) (op : Op) (quiet : op.quiet = true)
    (licensed : w.engine.interrupted = false → Licensed w op) :
    Meets host (external op) w (fun _ => Proceeds host origin w)
      (Halts host origin fun error w' => Stopped host origin w error w' ∧
        (error ≠ .interrupted → w'.engine.interrupted = false)) :=
  (external_meets steady op licensed).mono
    (fun _ _ replied => ⟨replied.toAwaited.carries quiet, replied.uninterrupted⟩)
    fun _ _ halts => halts.mono fun _ ⟨awaited, interrupted, _⟩ =>
      ⟨⟨awaited.carries quiet, interrupted.mpr⟩, fun other => by
        simpa using fun holds => other (interrupted.mp holds)⟩

/-! ## Local effects -/

theorem Steady.moves (steady : Steady host origin w) : Moves host origin w (w.advance host) :=
  ⟨⟨steady.advance, .of_eq rfl rfl rfl rfl id, .refl _⟩, rfl⟩

theorem Steady.moves_log (steady : Steady host origin w) {event : Event}
    (plain : event.plain = true) (quiet : (w.moment event).Quiet) :
    Moves host origin w (w.log event) :=
  ⟨⟨steady.plain plain, .log w event, .concat quiet⟩, rfl⟩

theorem Steady.moves_file (steady : Steady host origin w) (op : FileOp) (ok : Bool) :
    Moves host origin w ((w.advance host).log (.file op ok)) :=
  steady.moves.trans (steady.advance.moves_log rfl ⟨rfl, rfl, rfl, rfl, rfl, fun _ => rfl⟩)

theorem fileOp_moves (steady : Steady host origin w) (op : FileOp) :
    Meets host (fileOp op) w (fun _ => Moves host origin w)
      (fun fault w' => ∃ text, fault = .error (.msg text) ∧ Moves host origin w w') := by
  refine meets_fileOp.mpr ?_
  split
  · exact steady.moves_file op true
  · exact ⟨_, rfl, steady.moves_file op false⟩

/-- Memory was saved at once. -/
structure Saves (host : Host) (origin : Origin) (w w' : World) : Prop
    extends Moves host origin w w' where
  state : w'.engine.state = w.engine.state
  store : w'.store = some w.engine.state

theorem Saves.begun (saves : Saves host origin w w') {id : String}
    (begun : ∀ run, w.engine.state.runs[id]? = some run → run.phase ≠ .creating) :
    Begun w' id := by
  refine ⟨saves.state ▸ begun, fun t stored => ?_⟩
  cases stored.symm.trans saves.store
  exact begun

theorem save_moves (steady : Steady host origin w) :
    Meets host save w (fun _ => Saves host origin w)
      (fun fault w' => ∃ text, fault = .error (.msg text) ∧ Moves host origin w w') := by
  refine meets_save.mpr ?_
  split
  · have saved := Steady.of_saved steady.toWorking.advance steady.unborn
    have kept : Kept w (((w.advance host).withStore w.engine.state).log (.saved true)).published :=
      ⟨rfl, id, fun _ _ => rfl, fun _ _ run found forced => ⟨run, found, forced⟩,
        fun restored => (restored_append.mp restored).1, fun begun => ⟨begun.1, by
          rintro _ ⟨⟩
          exact begun.1⟩⟩
    exact ⟨⟨⟨saved.published, kept, .concat ⟨rfl, rfl, rfl, rfl, rfl, fun _ => rfl⟩⟩,
      rfl⟩,
      rfl, rfl⟩
  · exact ⟨_, rfl, steady.moves.trans
      (steady.advance.moves_log rfl ⟨rfl, rfl, rfl, rfl, rfl, fun _ => rfl⟩)⟩

/-- Memory was saved. -/
structure Settles (host : Host) (origin : Origin) (w w' : World) : Prop where
  steady : Steady host origin w'
  state : w'.engine.state = w.engine.state
  same : w'.engine.interrupted = w.engine.interrupted
  history : ∃ m, w'.history = w.history ++ [m] ∧ m.Quiet

/-- A save makes a working pass steady. -/
theorem save_settles (working : Working host origin w)
    (unborn : ∀ m ∈ currentPass w.history, m.births = false) :
    Meets host save w (fun _ => Settles host origin w)
      (fun fault w' => ∃ text, fault = .error (.msg text) ∧ Working host origin w') := by
  refine meets_save.mpr ?_
  split
  · exact ⟨(Steady.of_saved working.advance unborn).published, rfl, rfl, _, rfl,
      rfl, rfl, rfl, rfl, rfl, fun _ => rfl⟩
  · exact ⟨_, rfl, working.advance.plain rfl⟩

/-- A copy is written back. -/
theorem Steady.observe (steady : Steady host origin w) (run : Run) {recorded : Run}
    (found : w.engine.state.runs[run.id]? = some recorded) (key : run.key = recorded.key)
    (same : Restored w.history → run.forget = recorded.forget)
    (late : w.engine.interrupted = true → run.forget = recorded.forget)
    (phase : run.phase = .creating → recorded.phase = .creating) :
    Moves host origin w (w.setState (w.engine.state.setRun run.id run)) := by
  have roster := State.setRun_roster found key
  have intent (restored : Restored w.history) :
      (w.engine.state.setRun run.id run).intent = w.engine.state.intent :=
    State.setRun_intent found (same restored)
  have creating {id : String} {run' : Run}
      (there : (w.engine.state.setRun run.id run).runs[id]? = some run')
      (creating : run'.phase = .creating) :
      ∃ before, w.engine.state.runs[id]? = some before ∧ before.phase = .creating := by
    rw [State.setRun_runs, TreeMap.get_insert] at there
    split at there
    · next equal =>
        cases there
        exact ⟨recorded, equal ▸ found, phase creating⟩
    · exact ⟨run', there, creating⟩
  refine ⟨⟨?_, ⟨roster, id, fun restored _ => intent restored, fun restored => ?_, id,
    fun {other} begun => ⟨fun run' there phase => ?_, begun.2⟩⟩, .refl _⟩, rfl⟩
  · have ready : Ready host (w.setState (w.engine.state.setRun run.id run)) :=
      steady.ready.keep rfl roster rfl creating (fun restored => ⟨restored, intent restored⟩)
        le_rfl
    refine .of_working (steady.toWorking.next (.observe found key same ?_ phase)
      ready.toSavable rfl rfl le_rfl (List.append_nil _).symm (by simp) rfl
      (fun p there => ⟨p.failures, there⟩) (by simp [exits])) ready steady.unborn
    intro disturbed
    refine late ?_
    by_contra uninterrupted
    exact disturbed (steady.undisturbed (by simpa using uninterrupted))
  · intro id run' there forced
    rw [World.setState_state, State.setRun_runs, TreeMap.get_insert]
    split
    · next equal =>
        cases equal
        cases found.symm.trans there
        refine ⟨run, rfl, ?_⟩
        rw [(Run.forget_eq_iff.mp (same restored)).2.2.2.2.2.2, forced]
    · exact ⟨run', there, forced⟩
  · obtain ⟨before, there', phase'⟩ := creating there phase
    exact begun.1 before there' phase'

/-! ## Copies -/

theorem Copy.kept (copy : Copy run w) (kept : Kept w w') : Copy run w' := by
  obtain ⟨recorded, found, key, same⟩ := copy
  obtain ⟨other, there, sameId, samePool⟩ := State.run_of_roster kept.roster.symm found
  refine ⟨other, there, key.trans (Prod.ext sameId.symm samePool.symm),
    fun restored uninterrupted => ?_⟩
  obtain ⟨other', there', forget⟩ :=
    State.run_of_intent (kept.intent restored uninterrupted).symm found
  cases there.symm.trans there'
  exact (same (kept.restored restored) (kept.interrupted uninterrupted)).trans forget.symm

theorem Copy.of_forget (copy : Copy run w) {run' : Run} (same : run'.forget = run.forget) :
    Copy run' w := by
  obtain ⟨recorded, found, key, agree⟩ := copy
  have sameId := (Run.forget_eq_iff.mp same).1
  exact ⟨recorded, sameId ▸ found, (Run.key_eq_of_forget_eq same).trans key,
    fun restored uninterrupted => same.trans (agree restored uninterrupted)⟩

theorem Copy.of_found (found : w.engine.state.runs[run.id]? = some run) : Copy run w :=
  ⟨run, found, rfl, fun _ _ => rfl⟩

/-- A copy of a run that has a container can be written back as long as nothing
interrupted the pass. -/
theorem Copy.moves (copy : Copy run w) (steady : Steady host origin w)
    (uninterrupted : w.engine.interrupted = false) (begun : run.phase ≠ .creating) :
    Moves host origin w (w.setState (w.engine.state.setRun run.id run)) := by
  obtain ⟨recorded, found, key, same⟩ := copy
  refine steady.observe run found key (same · uninterrupted) ?_
    fun creating => absurd creating begun
  simp [uninterrupted]

theorem insertRun_moves (steady : Steady host origin w) (copy : Copy run w)
    (uninterrupted : w.engine.interrupted = false) (begun : run.phase ≠ .creating)
    {fault : Fault Error → World → Prop} :
    Meets host (insertRun run.id run) w (fun _ w' => Moves host origin w w' ∧
      w'.engine.state.runs[run.id]? = some run) fault :=
  meets_insertRun.mpr
    ⟨copy.moves steady uninterrupted begun, TreeMap.get_insert_self _ _ _⟩

/-- A local effect of a part that began in `w` fails. -/
theorem Carries.fails {fault : Fault Error} (carries : Carries host origin w w')
    (fails : ∃ text, fault = .error (.msg text) ∧ Moves host origin w' w'') :
    Halts host origin (Stopped host origin w) fault w'' := by
  obtain ⟨text, rfl, moves⟩ := fails
  exact ⟨carries.trans moves.toCarries, nofun⟩

theorem Proceeds.moves (first : Proceeds host origin w w') (second : Moves host origin w' w'') :
    Proceeds host origin w w'' :=
  first.toCarries.proceeds (second.proceeds first.uninterrupted)

/-! ## Parts of a pass -/

theorem archive_meets (steady : Steady host origin w) (copy : Copy run w)
    (begun : run.phase ≠ .creating) (container : Container) :
    Meets host (archive run container) w
      (fun run' w' => Carries host origin w w' ∧
        (run' = run ∨ run' = { run with logSaved := true }))
      (Halts host origin (Stopped host origin w)) := by
  unfold archive
  split
  · exact ⟨.refl steady, .inl rfl⟩
  · refine (external_proceeds steady (.dockerLogs run.id) rfl fun _ => trivial).seq
      (fun _ _ halts => halts.mono fun _ => And.left) fun _ w₁ listed => ?_
    refine (fileOp_moves listed.steady _).seq (fun _ _ => listed.toCarries.fails)
      fun _ w₂ written => ?_
    replace written := listed.moves written
    have archived : Meets host
        (if container.everStarted = true then external (.dockerArchive run.id) else pure ())
        w₂ (fun _ => Proceeds host origin w) (Halts host origin (Stopped host origin w)) := by
      split
      · exact (external_proceeds written.steady (.dockerArchive run.id) rfl
          fun _ => trivial).mono (fun _ _ => written.toCarries.proceeds)
          fun _ _ halts => halts.mono fun _ stopped =>
            written.toCarries.stopped stopped.1
      · exact written
    refine archived.when_bind fun _ w₃ archived => ?_
    have copied := (copy.kept archived.kept).of_forget
      (show ({ run with logSaved := true } : Run).forget = run.forget from rfl)
    refine (insertRun_moves archived.steady copied archived.uninterrupted begun).bind
      fun _ w₄ ⟨inserted, _⟩ => ?_
    replace inserted := archived.moves inserted
    refine (save_moves inserted.steady).seq (fun _ _ => inserted.toCarries.fails)
      fun _ w₅ saved => ?_
    exact ⟨(inserted.moves saved.toMoves).toCarries, .inr rfl⟩

theorem stoppedByReboot_meets (steady : Steady host origin w) (container : Container)
    (image : String) :
    Meets host (stoppedByReboot container image) w
      (fun interrupted w' => (w' = w ∨ Proceeds host origin w w') ∧
        (interrupted = false → Blamed host container (currentPass w'.history)))
      (Halts host origin (Stopped host origin w)) := by
  unfold stoppedByReboot
  refine meets_bind.mpr (meets_startedAt.mpr (meets_bind.mpr (meets_engine.mpr
    (meets_bind.mpr (meets_startedBeforeBoot.mpr ?_)))))
  have answer {w₁ : World} (led : w₁ = w ∨ Proceeds host origin w w₁)
      (blamed : ∀ started, container.startedAt.bind host.parseRfc3339 = some started →
        (w₁.engine.bootTime.any fun bootTime => decide (started < bootTime)) = false →
          ∃ m ∈ currentPass w₁.history, ∃ image reply,
            m.event = .ended (.dockerBootTime image) reply ∧
              ∀ bootTime, reply = .ok bootTime → bootTime ≤ started) :
      Meets host (do startedBeforeBoot container (← engine).bootTime) w₁
        (fun interrupted w' => (w' = w ∨ Proceeds host origin w w') ∧
          (interrupted = false → Blamed host container (currentPass w'.history)))
        (Halts host origin (Stopped host origin w)) := by
    refine meets_bind.mpr (meets_engine.mpr (meets_startedBeforeBoot.mpr ⟨led, ?_⟩))
    intro verdict started parsed
    refine blamed started parsed ?_
    simpa [parsed] using verdict
  split
  · refine meets_bind.mpr (meets_attempt.mpr ?_)
    refine (external_meets steady (.dockerBootTime image) fun _ => trivial).mono
      (fun bootTime w₁ replied => ?_) fun fault w₁ halts => ?_
    · have proceeds : Proceeds host origin w w₁ :=
        ⟨replied.toAwaited.carries rfl, replied.uninterrupted⟩
      obtain ⟨new, m, history, -, event, -⟩ := replied.last
      refine answer (.inr ⟨⟨?_, proceeds.kept.trans (.of_eq rfl rfl rfl rfl id),
        proceeds.history⟩, proceeds.uninterrupted⟩) fun started _ late => ?_
      · exact proceeds.steady.silent rfl rfl rfl rfl rfl rfl le_rfl le_rfl
      · refine ⟨m, ?_, image, .ok bootTime, event, ?_⟩
        · change m ∈ currentPass w₁.history
          rw [history, ← List.append_assoc, currentPass_concat (by simp [Moment.starts, event])]
          exact List.mem_append_right _ (List.mem_singleton_self m)
        · rintro _ ⟨⟩
          simpa using late
    · cases fault with
      | panic => exact halts
      | error error =>
          obtain ⟨awaited, interrupted, replied⟩ := halts
          have carries := @Awaited.carries _ _ _ _ (.dockerBootTime image) awaited rfl
          cases error with
          | interrupted => exact ⟨carries, interrupted.mpr⟩
          | msg text =>
              obtain ⟨m, member, failure, event⟩ := replied (by simp)
              refine answer (.inr ⟨carries, by simpa using interrupted⟩) fun started _ _ => ?_
              exact ⟨m, member, image, .error failure, event, by simp⟩
  · next known =>
      refine answer (.inl rfl) fun started parsed late => ?_
      rw [parsed] at known
      simp [late] at known

theorem forceRun_meets (steady : Steady host origin w)
    (uninterrupted : w.engine.interrupted = false) (copy : Copy run w)
    (forced : run.force = true) (containers : List Container) :
    Meets host (forceRun containers run) w (fun _ => Proceeds host origin w)
      (Halts host origin (Stopped host origin w)) := by
  unfold forceRun
  refine meets_bind.mpr (meets_getState.mpr ?_)
  dsimp only
  split
  · exact ⟨.refl steady, uninterrupted⟩
  · next container _ =>
      have copied := copy.of_forget
        (show ({ run with phase := .cleanup } : Run).forget = run.forget from rfl)
      refine (insertRun_moves steady copied uninterrupted (by simp)).bind fun _ w₁ moved => ?_
      obtain ⟨inserted, written⟩ := moved
      replace inserted := inserted.proceeds uninterrupted
      refine (save_moves inserted.steady).seq (fun _ _ => inserted.toCarries.fails)
        fun _ w₂ saves => ?_
      have begun : Begun w₂ run.id := saves.begun fun other there => by
        cases written.symm.trans there
        simp
      have saved := inserted.moves saves.toMoves
      refine (archive_meets saved.steady (copied.kept saved.kept) (by simp) container).seq
        (fun _ _ => saved.toCarries.halts) fun run' w₃ outcome => ?_
      obtain ⟨archived, same⟩ := outcome
      replace begun := archived.kept.begun begun
      replace archived := saved.toCarries.trans archived
      refine (external_proceeds archived.steady (.dockerRemove run.id true) rfl
        fun uninterrupted => ?_).mono (fun _ _ => archived.proceeds)
        fun _ _ halts => halts.mono fun _ stopped => archived.stopped stopped.1
      obtain ⟨recorded, found, -, agree⟩ := copy.kept archived.kept
      refine ⟨begun, recorded, found, fun restored => ?_⟩
      rw [← (Run.forget_eq_iff.mp (agree restored uninterrupted)).2.2.2.2.2.2, forced]

end Copies

end Runnerctl
