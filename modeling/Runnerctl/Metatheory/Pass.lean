import Runnerctl.Metatheory.Visits

/-!
# A whole pass

`reconcile` from its first listing to its report.  A pass ends with its pool still there,
or with the pool deleted; a deletion that fails halfway leaves memory without the pool
although its configuration still has it.
-/

namespace Runnerctl

open Std Program Journal

/-- The pass deleted its pool in memory. -/
structure Deleted (host : Host) (origin : Origin) (w : World) : Prop where
  steps : Steps host origin.world w
  named : w.engine.state.roster.Named host w.asked
  reconcileEpoch : w.engine.reconcileEpoch = some origin.epoch
  uninterrupted : w.engine.interrupted = false
  head : passHead w.history = some (origin.name, origin.at_, origin.ps.retryAt)
  span : w.history = origin.world.history ++ currentPass w.history
  missing : w.engine.state.pools[origin.name]? = none
  undisturbed : Undisturbed (currentPass w.history)
  uncounted : Restored w.history → Fresh host w.asked → exits (currentPass w.history) = 0

/-- A pass failed. -/
inductive Fails (host : Host) (origin : Origin) (error : Error) (w : World) : Prop where
  | faltered : Faltered host origin error w → Fails host origin error w
  | halfway : Deleted host origin w → halfDeleted (currentPass w.history) = true →
      error ≠ .interrupted →
      Fails host origin error w

/-- A pass returned its report. -/
inductive Reports (host : Host) (origin : Origin) (report : ReconcileReport) (w : World) :
    Prop where
  | worked : Working host origin w → w.engine.interrupted = false →
      report.unexpectedExits = exits (currentPass w.history) → Reports host origin report w
  | finished : Deleted host origin w → halfDeleted (currentPass w.history) = false →
      Savable host w w.engine.state →
      report.unexpectedExits = exits (currentPass w.history) → Reports host origin report w

section Pass

variable {host : Host} {origin : Origin} {w w' : World}

theorem Halts.fails {fault : Fault Error}
    (halts : Halts host origin (Faltered host origin) fault w) :
    Halts host origin (Fails host origin) fault w :=
  halts.mono fun _ => .faltered

/-! ## Deleting the pool -/

/-- After the deletion in memory only the configuration is still to be committed. -/
theorem Deleted.next (deleted : Deleted host origin w) (step : Step host w w')
    (roster : w'.engine.state.roster = w.engine.state.roster)
    (pools : w'.engine.state.pools = w.engine.state.pools)
    (epoch : w'.engine.epoch = w.engine.epoch)
    (reconcileEpoch : w'.engine.reconcileEpoch = w.engine.reconcileEpoch)
    (asked : w.asked ≤ w'.asked) {new : List Moment} (history : w'.history = w.history ++ new)
    (calm : ∀ m ∈ new, m.starts = false ∧ m.mutation = false ∧ m.counted = false) :
    Deleted host origin w' where
  steps := deleted.steps.tail step
  named := roster ▸ deleted.named.mono asked
  reconcileEpoch := reconcileEpoch.trans deleted.reconcileEpoch
  uninterrupted := by
    rw [Engine.interrupted, epoch, reconcileEpoch]
    exact deleted.uninterrupted
  head := by
    rw [history, passHead_append fun m member => (calm m member).1]
    exact deleted.head
  span := by
    rw [history, currentPass_append fun m member => (calm m member).1, ← List.append_assoc,
      ← deleted.span]
  missing := pools ▸ deleted.missing
  undisturbed := by
    rw [history, currentPass_append fun m member => (calm m member).1]
    intro restored
    exact List.forall_mem_append.mpr ⟨deleted.undisturbed (restored_append.mp restored).1,
      fun m member => (calm m member).2.1⟩
  uncounted := by
    rw [history, currentPass_append fun m member => (calm m member).1, exits_append,
      exits_eq_zero fun m member => (calm m member).2.2]
    exact fun restored fresh =>
      deleted.uncounted (restored_append.mp restored).1 (fresh.mono asked)

theorem Deleted.advance (deleted : Deleted host origin w) :
    Deleted host origin (w.advance host) :=
  deleted.next
    (.silent rfl rfl rfl rfl rfl (Nat.le_succ _) (Nat.le_add_right ..)) rfl rfl rfl rfl
    (Nat.le_succ _) (List.append_nil _).symm (by simp)

theorem Deleted.published (deleted : Deleted host origin w) :
    Deleted host origin w.published :=
  deleted.next (.silent rfl rfl rfl rfl rfl le_rfl le_rfl) rfl rfl rfl rfl le_rfl
    (List.append_nil _).symm (by simp)

theorem Deleted.plain (deleted : Deleted host origin w) {event : Event}
    (plain : event.plain = true) : Deleted host origin (w.log event) := by
  refine deleted.next (.log plain) rfl rfl rfl rfl le_rfl rfl ?_
  cases event <;> simp_all [Event.plain, Moment.starts, Moment.mutation, Moment.counted]

theorem Deleted.written (deleted : Deleted host origin w) (checked : Checked host w)
    (text : String) :
    Deleted host origin ((w.withFile (some text)).log (.wroteConfig w.file true)) :=
  deleted.next (.write text checked) rfl rfl rfl rfl le_rfl rfl
    (by simp [Moment.starts, Moment.mutation, Moment.counted])

/-- `config.toml` was looked at, and only the deletion was stored since. -/
theorem Checked.next (checked : Checked host w) (file : w'.file = w.file) {new : List Moment}
    (pass : currentPass w'.history = currentPass w.history ++ new)
    (every : ∀ m ∈ new, m.deletes = true ∨ m.event = .saved true) : Checked host w' := by
  obtain ⟨before, m, between, history, event, same, clean, since⟩ := checked
  refine ⟨before, m, between ++ new, ?_, event, same.trans file.symm, clean,
    List.forall_mem_append.mpr ⟨since, every⟩⟩
  rw [pass, history, List.append_assoc, List.cons_append]

/-- The pool of the pass was deleted, and its deletion is complete. -/
structure Completes (host : Host) (origin : Origin) (w w' : World) : Prop
    extends Deleted host origin w' where
  written : halfDeleted (currentPass w'.history) = false
  savable : Savable host w' w'.engine.state
  counts : exits (currentPass w'.history) = exits (currentPass w.history)

/-- The configuration without the deleted pool is committed. -/
theorem commitDeletion_meets (deleted : Deleted host origin w)
    (halfway : halfDeleted (currentPass w.history) = true)
    (announced : ∃ before m, w.history = before ++ [m] ∧ m.event = .finalising origin.name)
    (checked : Checked host w)
    (savable : ∀ digest, Savable host w
      (w.engine.state.commit (w.engine.state.config.without origin.name) digest)) :
    Meets host (commitConfig (w.engine.state.config.without origin.name)) w
      (fun _ => Completes host origin w) (Halts host origin (Fails host origin)) := by
  generalize same : w.engine.state.config.without origin.name = next at savable ⊢
  unfold commitConfig
  refine Meets.liftExcept_bind (fun error rejected => ?_) fun _ validated => ?_
  · exact .halfway deleted halfway fun same => next.validate_ne_interrupted (same ▸ rejected)
  refine meets_bind.mpr (meets_printToml.mpr ?_)
  split
  · next text printed =>
      refine meets_bind.mpr (meets_hash.mpr (meets_bind.mpr (meets_getState.mpr ?_)))
      refine meets_bind.mpr (meets_storeSave.mpr ?_)
      have savable := savable (host.sha256 text)
      have committed : Committed host w.engine.state
          (w.engine.state.config.without origin.name)
          (w.engine.state.commit next (host.sha256 text)) := by
        rw [same]
        exact ⟨validated, text, printed, rfl⟩
      split
      · have step := @Step.commit host (w.advance host) origin.name _ deleted.undisturbed checked
          announced committed
          (savable.map (Nat.le_succ _) id (savable.named.mono (Nat.le_succ _)) id
            fun {_ p} found => ⟨p, found, rfl⟩)
        have stored := deleted.advance.next step rfl rfl rfl rfl le_rfl rfl
          (by simp [Moment.starts, Moment.mutation, Moment.counted])
        refine meets_bind.mpr (meets_setState.mpr (meets_bind.mpr (meets_writeConfig.mpr ?_)))
        split
        · have written := (stored.advance.written
            (checked.next rfl (currentPass_concat rfl) (by simp)) text).plain
              (show Event.plain .cleared = true from rfl)
          refine ⟨written.published, ?_, ?_, ?_⟩
          · change halfDeleted (currentPass (w.history ++ [_] ++ [_] ++ [_])) = false
            rw [currentPass_concat rfl, halfDeleted_concat, currentPass_concat rfl,
              halfDeleted_concat]
            rfl
          · refine savable.map (Nat.le_add_right _ 2) ?_
              (savable.named.mono (Nat.le_add_right _ 2)) id fun {_ p} found => ⟨p, found, rfl⟩
            change Restored (w.history ++ [_] ++ [_] ++ [_]) → _
            simp only [List.append_assoc]
            exact fun restored => (restored_append.mp restored).1
          · change exits (currentPass (w.history ++ [_] ++ [_] ++ [_])) = _
            rw [currentPass_concat rfl, currentPass_concat rfl, currentPass_concat rfl]
            simp only [exits_append, exits_singleton]
            rfl
        · -- the file may be in place or not
          have pending {first second : Moment}
              (starts : first.starts = false ∧ second.starts = false)
              (kept : (first.event ≠ .cleared ∧ first.deletes = false) ∧
                second.event ≠ .cleared ∧ second.deletes = false) :
              halfDeleted (currentPass (w.history ++ [first] ++ [second])) = true := by
            rw [List.append_assoc, currentPass_append (by simpa using starts),
              halfDeleted_append (by simpa using kept)]
            exact halfway
          split
          · exact .halfway (stored.advance.written
              (checked.next rfl (currentPass_concat rfl) (by simp)) text)
              (pending ⟨rfl, rfl⟩ ⟨⟨by simp, rfl⟩, by simp, rfl⟩) (by simp)
          · exact .halfway (stored.advance.plain rfl)
              (pending ⟨rfl, rfl⟩ ⟨⟨by simp, rfl⟩, by simp, rfl⟩) (by simp)
      · refine .halfway (deleted.advance.plain rfl) ?_ (by simp)
        rw [World.log_history, World.advance_history, currentPass_concat rfl,
          halfDeleted_concat]
        exact halfway
  · exact .halfway deleted halfway (by simp)

theorem Working.deleted (working : Working host origin w)
    (uninterrupted : w.engine.interrupted = false) (deleting : origin.ps.deleting = true)
    (clean : Clean host w.file w.engine.state)
    (gone : w.engine.state.hasRuns origin.ps.id = false) :
    Deleted host origin ((w.log (.finalising origin.name)).setState
      { w.engine.state with pools := w.engine.state.pools.erase origin.name }) where
  steps := by
    refine working.steps.tail (.delete (working.undisturbed uninterrupted) clean
      fun restored _ => ?_)
    obtain ⟨-, _, found⟩ := working.view uninterrupted restored
    exact ⟨_, found, deleting, gone⟩
  named := working.savable.named
  reconcileEpoch := working.reconcileEpoch
  uninterrupted := uninterrupted
  head := (passHead_append (by simp [Moment.starts])).trans working.head
  span := by
    rw [World.setState_history, World.log_history, currentPass_concat rfl, ← List.append_assoc,
      ← working.span]
  missing := TreeMap.get_erase_self _ _
  undisturbed := by
    rw [World.setState_history, World.log_history, currentPass_concat rfl]
    intro restored
    exact List.forall_mem_append.mpr
      ⟨working.undisturbed uninterrupted (restored_append.mp restored).1,
        by simp [Moment.mutation]⟩
  uncounted := by
    rw [World.setState_history, World.log_history, currentPass_concat rfl, exits_append,
      exits_singleton]
    intro restored fresh
    replace restored : Restored w.history := (restored_append.mp restored).1
    rcases Nat.eq_zero_or_pos (exits (currentPass w.history)) with none | some
    · rw [none]
      rfl
    · have running := working.counted restored fresh some
      obtain ⟨-, _, found⟩ := working.view uninterrupted restored
      have stopped := (working.savable.sound restored fresh).1.halted found deleting
      simp [running] at stopped

theorem finaliseDeletion_meets (steady : Steady host origin w)
    (uninterrupted : w.engine.interrupted = false) (deleting : origin.ps.deleting = true)
    (gone : w.engine.state.hasRuns origin.ps.id = false) :
    Meets host (finaliseDeletion origin.name) w (fun _ => Completes host origin w)
      (Halts host origin (Fails host origin)) := by
  unfold finaliseDeletion
  have looked (ok : Bool) : Moves host origin w ((w.advance host).log (.readConfig ok)) :=
    steady.moves.trans
      (steady.advance.moves_log rfl ⟨rfl, rfl, rfl, rfl, rfl, fun _ => rfl⟩)
  have fails (ok : Bool) (text : String) : Halts host origin (Fails host origin)
      (.error (.msg text)) ((w.advance host).log (.readConfig ok)) :=
    Fails.faltered ⟨(looked ok).steady.toWorking, nofun⟩
  refine meets_bind.mpr (meets_cleanFile.mpr ?_)
  split
  · next text _ file =>
      split
      · next digest =>
          have clean : Clean host w.file w.engine.state := ⟨text, file, beq_iff_eq.mp digest⟩
          have working := (looked true).steady.toWorking
          have uninterrupted := (looked true).same.trans uninterrupted
          have deleted := working.deleted uninterrupted deleting clean gone
          refine meets_bind.mpr (meets_getState.mpr (meets_bind.mpr (meets_record.mpr
            (meets_bind.mpr (meets_setState.mpr ?_)))))
          have sound (restored : Restored w.history) (fresh : Fresh host (w.asked + 1)) :=
            steady.savable.sound restored (fresh.mono (Nat.le_succ _))
          have before (restored : Restored
              (((w.advance host).log (.readConfig true)).log
                (.finalising origin.name)).history) : Restored w.history ∧
              Restored ((w.advance host).log (.readConfig true)).history :=
            ⟨(restored_append.mp (restored_append.mp restored).1).1,
              (restored_append.mp restored).1⟩
          refine (commitDeletion_meets deleted ?_ ⟨_, _, rfl, rfl⟩ ?_ ?_).mono
            (fun _ w' completes => ?_) fun _ _ fails => fails
          · change halfDeleted (currentPass (_ ++ [_])) = true
            rw [currentPass_concat rfl, halfDeleted_concat]
            rfl
          · have shown : Checked host ((w.advance host).log (.readConfig true)) :=
              ⟨_, _, [], currentPass_concat rfl, rfl, rfl, clean, by simp⟩
            exact shown.next rfl (currentPass_concat rfl) (by simp [Moment.deletes])
          · refine fun digest => ⟨working.savable.named, fun restored fresh => ?_⟩
            obtain ⟨sound, drawn⟩ := sound (before restored).1 fresh
            obtain ⟨-, _, found⟩ := working.view uninterrupted (before restored).2
            refine ⟨sound.erasePool found gone _ _, (drawn.mono (Nat.le_succ _)).of_ids
              fun {name p} there => ?_⟩
            refine ⟨p, ?_, rfl⟩
            change (w.engine.state.pools.erase origin.name)[name]? = some p at there
            rw [TreeMap.get_erase] at there
            split at there
            · simp at there
            · exact there
          · refine { completes with counts := completes.counts.trans ?_ }
            change exits (currentPass (w.history ++ [_] ++ [_])) = _
            rw [currentPass_concat rfl, currentPass_concat rfl]
            simp only [exits_append, exits_singleton]
            rfl
      · exact fails true _
  · exact fails false _

/-! ## Effects that decide nothing -/

/-- Local effects after the last decision of a pass. -/
structure Idles (host : Host) (origin : Origin) (w w' : World) : Prop where
  working : Working host origin w'
  same : w'.engine.interrupted = w.engine.interrupted
  counts : exits (currentPass w'.history) = exits (currentPass w.history)

theorem Idles.trans {w'' : World} (first : Idles host origin w w')
    (second : Idles host origin w' w'') : Idles host origin w w'' :=
  ⟨second.working, second.same.trans first.same, second.counts.trans first.counts⟩

/-- A local effect fails. -/
theorem Idles.fails {fault : Fault Error}
    (fails : ∃ text, fault = .error (.msg text) ∧ Idles host origin w w') :
    Halts host origin (Faltered host origin) fault w' := by
  obtain ⟨text, rfl, idles⟩ := fails
  exact ⟨idles.working, nofun⟩

theorem Working.idles_advance (working : Working host origin w) :
    Idles host origin w (w.advance host) :=
  ⟨working.advance, rfl, rfl⟩

theorem Working.idles_plain (working : Working host origin w) {event : Event}
    (plain : event.plain = true) : Idles host origin w (w.log event) := by
  refine ⟨working.plain plain, rfl, ?_⟩
  cases event with
  | ended | file | looked | readConfig | wroteConfig | cleared | saved =>
      rw [World.log_history, currentPass_concat rfl, exits_append, exits_singleton]
      rfl
  | _ => simp [Event.plain] at plain

theorem save_idles (working : Working host origin w) :
    Meets host save w (fun _ => Idles host origin w)
      (fun fault w' => ∃ text, fault = .error (.msg text) ∧ Idles host origin w w') := by
  refine meets_save.mpr ?_
  split
  · refine ⟨working.advance.saved.silent rfl rfl rfl rfl rfl rfl le_rfl le_rfl, rfl, ?_⟩
    change exits (currentPass (w.history ++ [_])) = _
    rw [currentPass_concat rfl, exits_append, exits_singleton]
    rfl
  · exact ⟨_, rfl, working.idles_advance.trans (working.advance.idles_plain rfl)⟩

theorem fileOp_idles (working : Working host origin w) (op : FileOp) :
    Meets host (fileOp op) w (fun _ => Idles host origin w)
      (fun fault w' => ∃ text, fault = .error (.msg text) ∧ Idles host origin w w') := by
  refine meets_fileOp.mpr ?_
  split
  · exact working.idles_advance.trans (working.advance.idles_plain rfl)
  · exact ⟨_, rfl, working.idles_advance.trans (working.advance.idles_plain rfl)⟩

theorem expireLogs_meets (working : Working host origin w) :
    Meets host expireLogs w (fun _ => Idles host origin w)
      (Halts host origin (Faltered host origin)) := by
  unfold expireLogs
  refine meets_bind.mpr (meets_getState.mpr (meets_bind.mpr (meets_consult.mpr ?_)))
  have looked := working.idles_advance
  split
  · refine Meets.forM (fun _ => Idles host origin w) (fun entry _ w' idles => ?_) looked
    unfold expireLog
    split
    · exact ⟨idles.working.advance, nofun⟩
    · split
      · refine meets_bind.mpr (meets_getState.mpr ?_)
        split
        · exact idles
        · exact (fileOp_idles idles.working _).mono (fun _ _ => idles.trans)
            fun _ _ => Idles.fails
      · exact idles
  · exact ⟨looked.working, nofun⟩

/-! ## A new run -/

/-- A pass before its loop, with its first and its last listing. -/
structure Surveyed (host : Host) (origin : Origin) (first : State × List Container)
    (listed : List Container) (w : World) : Prop extends Steady host origin w where
  uninterrupted : w.engine.interrupted = false
  first : (listings (currentPass w.history)).head? = some first
  listed : lastListing (currentPass w.history) = some listed
  unraised : ∀ m ∈ currentPass w.history, ∀ id, m.raises id = false
  uncounted : exits (currentPass w.history) = 0

theorem Carries.listings (carries : Carries host origin w w') :
    listings (currentPass w'.history) = listings (currentPass w.history) := by
  obtain ⟨new, pass, quiet⟩ := carries.pass
  rw [pass, listings_append, listings_eq_nil fun m member => (quiet m member).listing,
    List.append_nil]

/-- The containers were listed. -/
theorem Replied.survey {managerId : String} {containers : List Container}
    (replied : Replied host origin (.dockerList managerId) w containers w')
    (unraised : ∀ m ∈ currentPass w.history, ∀ id, m.raises id = false)
    (uncounted : exits (currentPass w.history) = 0) {first : State × List Container}
    (head : (listings (currentPass w.history) ++ [(w'.engine.state, containers)]).head? =
      some first) : Surveyed host origin first containers w' := by
  obtain ⟨new, m, history, moments, event, state⟩ := replied.last
  have shown : m.listing = some containers := by rw [Moment.listing, event]
  have starts : m.starts = false := by rw [Moment.starts, event]
  have counted : m.counted = false := by rw [Moment.counted, event]
  have raises : ∀ m ∈ new, ∀ id, m.raises id = false := fun m member id =>
    Event.awaits_raises (moments m member).1 rfl
  have quiet : ∀ m ∈ new, m.Quiet := fun m member =>
    Event.awaits_quiet (moments m member).1 (moments m member).2 (raises m member)
  have pass : currentPass w'.history = currentPass w.history ++ new ++ [m] := by
    rw [history, ← List.append_assoc, currentPass_concat starts,
      currentPass_append fun m member => (quiet m member).starts]
  have listed : listings (currentPass w'.history) =
      listings (currentPass w.history) ++ [(w'.engine.state, containers)] := by
    rw [pass, listings_append, listings_append,
      listings_eq_nil fun m member => (quiet m member).listing, List.append_nil,
      listings_singleton shown, state]
  refine ⟨replied.steady, replied.uninterrupted, by rw [listed, head], ?_, ?_, ?_⟩
  · rw [lastListing, listed, List.getLast?_concat, Option.map_some]
  · rw [pass]
    refine List.forall_mem_append.mpr ⟨List.forall_mem_append.mpr ⟨unraised, raises⟩, ?_⟩
    rw [List.forall_mem_singleton]
    intro id
    rw [Moment.raises, event]
  · rw [pass, exits_append, exits_append, uncounted,
      exits_eq_zero fun m member => (quiet m member).counted, exits_singleton, counted]
    rfl

theorem Surveyed.proceeds {first : State × List Container} {listed : List Container}
    (surveyed : Surveyed host origin first listed w) (proceeds : Proceeds host origin w w') :
    Surveyed host origin first listed w' := by
  obtain ⟨new, pass, quiet⟩ := proceeds.pass
  refine ⟨proceeds.steady, proceeds.uninterrupted, ?_, ?_, ?_, ?_⟩
  · rw [proceeds.listings]
    exact surveyed.first
  · exact proceeds.lastListing.trans surveyed.listed
  · rw [pass]
    exact List.forall_mem_append.mpr
      ⟨surveyed.unraised, fun m member => (quiet m member).raises⟩
  · rw [pass, exits_append, surveyed.uncounted,
      exits_eq_zero fun m member => (quiet m member).counted]

/-- What `replenish` relies on. -/
structure Replenishes (origin : Origin) (w : World) (pool : Pool) : Prop where
  timely : origin.ps.retryAt ≤ origin.at_
  entry : origin.world.engine.state.config.pool? origin.name = some pool
  missing : (w.engine.state.runsOf origin.ps.id).length < State.keep origin.ps pool
  capacity : ∃ s containers,
    (listings (currentPass w.history)).head? = some (s, containers) ∧
    w.engine.state.runs.size + unknownContainers s containers <
      w.engine.state.config.manager.maxRunners

theorem Replenishes.kept {pool : Pool} (replenishes : Replenishes origin w pool)
    (proceeds : Proceeds host origin w w')
    (restored : Restored w'.history) : Replenishes origin w' pool where
  timely := replenishes.timely
  entry := replenishes.entry
  missing := by
    rw [State.length_runsOf, proceeds.kept.roster, ← State.length_runsOf]
    exact replenishes.missing
  capacity := by
    have before := proceeds.kept.intent restored proceeds.uninterrupted
    obtain ⟨-, -, config, -⟩ := State.intent_eq_iff.mp before
    obtain ⟨s, containers, first, total⟩ := replenishes.capacity
    refine ⟨s, containers, by rw [proceeds.listings, first], ?_⟩
    rw [State.size_runs, proceeds.kept.roster, ← State.size_runs, config]
    exact total

theorem Replenishes.running {pool : Pool} (replenishes : Replenishes origin w pool) :
    origin.ps.running = true ∧ origin.ps.deleting = false ∧
      (w.engine.state.runsOf origin.ps.id).length < pool.replicas := by
  have missing := replenishes.missing
  rw [State.keep] at missing
  split at missing
  · next both =>
      obtain ⟨running, kept⟩ := Bool.and_eq_true_iff.mp both
      exact ⟨running, by simpa using kept, missing⟩
  · omega

theorem replenish_meets (steady : Steady host origin w) {pool : Pool}
    (replenishes : Replenishes origin w pool) :
    Meets host (replenish pool origin.ps) w
      (fun _ w' => Working host origin w' ∧ w'.engine.interrupted = false ∧
        exits (currentPass w'.history) = exits (currentPass w.history))
      (Halts host origin (Faltered host origin)) := by
  unfold replenish
  refine (external_proceeds steady (.dockerImage pool.image) rfl fun _ => trivial).seq
    (fun _ _ halts => halts.mono fun _ stopped => stopped.1.faltered) fun _ w₁ pulled => ?_
  refine meets_bind.mpr (meets_consult.mpr (meets_bind.mpr (meets_getState.mpr
    (meets_bind.mpr (meets_now.mpr ?_)))))
  generalize created : ((w₁.advance host).advance host).clock = now
  let run : Run := {
    id := runId w₁.engine.state.managerId (host.answers w₁.asked).uuid
    poolId := origin.ps.id
    pool := pool
    generation := origin.ps.generation
    createdAt := now
    phase := .creating
    remoteId := none
    retiring := false
    force := false
    completedJob := false
    logSaved := false }
  have two := pulled.steady.advance.advance
  have kept (restored : Restored w₁.history) := replenishes.kept pulled restored
  have view (restored : Restored w₁.history) : ∃ p,
      w₁.engine.state.pools[origin.name]? = some p ∧ p.id = origin.ps.id ∧
        p.running = true ∧ p.deleting = false ∧ p.generation = origin.ps.generation ∧
        w₁.engine.state.config.pool? origin.name = some pool := by
    obtain ⟨config, failures, found⟩ := pulled.steady.view pulled.uninterrupted restored
    obtain ⟨running, undeleted, -⟩ := replenishes.running
    exact ⟨_, found, rfl, running, undeleted, rfl, by rw [config]; exact replenishes.entry⟩
  have provisions (restored : Restored w₁.history) : Provisions w₁ run := by
    obtain ⟨p, found, id, running, undeleted, generation, entry⟩ := view restored
    refine ⟨⟨origin.name, origin.at_, origin.ps.retryAt, p, pulled.steady.head,
      replenishes.timely, found, id, running, undeleted, generation, entry, ?_⟩,
      (kept restored).capacity⟩
    rw [id]
    exact (kept restored).running.2.2
  have step : Step host w₁ ((((w₁.advance host).advance host).setState
      (w₁.engine.state.setRun run.id run)).log (.newRun run)) :=
    .record (pulled.steady.undisturbed pulled.uninterrupted) pulled.steady.unborn rfl rfl rfl
      provisions
  have working := pulled.steady.toWorking.next step ⟨?_, ?_⟩ rfl rfl (Nat.le_add_right _ 2)
    rfl (by simpa using ⟨rfl, rfl, rfl⟩) rfl (fun p found => ⟨p.failures, found⟩) ?_
  · refine meets_bind.mpr (meets_insertRun.mpr (meets_bind.mpr (meets_record.mpr ?_)))
    refine (save_idles working).mono (fun _ w' idles => ?_) fun _ _ => Idles.fails
    refine ⟨idles.working, idles.same.trans pulled.uninterrupted, idles.counts.trans ?_⟩
    obtain ⟨new, pass, quiet⟩ := pulled.pass
    change exits (currentPass (w₁.history ++ [_])) = _
    rw [currentPass_concat rfl, exits_append, exits_singleton, pass, exits_append,
      exits_eq_zero fun m member => (quiet m member).counted]
    rfl
  · exact (two.ready.named).insert (Nat.lt_succ_of_lt (Nat.lt_succ_self w₁.asked)) rfl
  · intro restored fresh
    replace restored : Restored w₁.history := (restored_append.mp restored).1
    obtain ⟨sound, drawn⟩ := two.savable.sound restored fresh
    obtain ⟨p, found, id, running, -, generation, entry⟩ := view restored
    exact ⟨sound.insertRun found running id.symm entry generation.symm rfl, drawn⟩
  · intro _ _ some
    rw [exits_singleton] at some
    exact absurd some (Nat.lt_irrefl 0)

/-! ## The pass -/

theorem markRetiring_works (steady : Steady host origin w)
    (uninterrupted : w.engine.interrupted = false) :
    Meets host (markRetiring origin.name) w
      (fun _ w' => Working host origin w' ∧ w'.history = w.history ∧
        w'.engine.interrupted = false ∧ w'.engine.state.roster = w.engine.state.roster)
      (Halts host origin (Faltered host origin)) := by
  refine meets_markRetiring.mpr ?_
  split
  · next s marked =>
      have drained := State.drained_of_markRetiring marked
      refine ⟨?_, rfl, uninterrupted, drained.roster⟩
      have step := @Step.drain host w s (steady.undisturbed uninterrupted) drained
      refine steady.toWorking.next step
        (steady.savable.map le_rfl id ?_ (·.drained drained) fun {_ p} found => ?_)
        rfl rfl le_rfl (List.append_nil _).symm (by simp) drained.config (fun p found => ?_)
        (by simp [exits])
      · exact drained.roster.symm ▸ steady.savable.named
      · exact ⟨p, drained.pools ▸ found, rfl⟩
      · exact ⟨p.failures, drained.pools ▸ found⟩
  · next stuck =>
      refine ⟨⟨w, steady.steps, .inl rfl⟩, fun restored fresh => ?_⟩
      obtain ⟨sound, -⟩ := steady.savable.sound restored fresh
      obtain ⟨-, _, found⟩ := steady.view uninterrupted restored
      obtain ⟨s, marked⟩ := sound.toIndexed.markRetiring_isSome found
      simp [marked] at stuck

theorem finishPass_meets {pass : Pass} {first : State × List Container} {progress : Progress}
    (visited : Visiting host origin pass first [] progress w)
    (uninterrupted : w.engine.interrupted = false) {allowReplenish : Bool} {pool : Pool}
    (timely : allowReplenish = true → origin.ps.retryAt ≤ origin.at_)
    (entry : origin.world.engine.state.config.pool? origin.name = some pool) :
    Meets host (finishPass origin.name allowReplenish pool origin.ps
        (unknownContainers first.1 first.2) progress.report) w
      (Reports host origin) (Halts host origin (Fails host origin)) := by
  unfold finishPass
  refine meets_bind.mpr (meets_getState.mpr ?_)
  dsimp only
  split
  · next last =>
      obtain ⟨deleting, none⟩ := Bool.and_eq_true_iff.mp last
      refine (finaliseDeletion_meets visited.toSteady uninterrupted deleting ?_).bind
        fun _ w' completes => ?_
      · rw [State.hasRuns_eq_false]
        intro id run found ofPool
        have member := (State.mem_runsOf w.engine.state).mpr ⟨⟨id, found⟩, ofPool⟩
        rw [List.length_eq_zero_iff.mp (beq_iff_eq.mp none)] at member
        exact absurd member List.not_mem_nil
      · exact .finished completes.toDeleted completes.written completes.savable
          (visited.counts.trans completes.counts.symm)
  · have replenished : Meets host
        (if (allowReplenish && progress.report.unexpectedExits == 0 &&
            decide ((w.engine.state.runsOf origin.ps.id).length < State.keep origin.ps pool) &&
            decide (w.engine.state.runs.size + unknownContainers first.1 first.2 <
              w.engine.state.config.manager.maxRunners)) = true then
          replenish pool origin.ps
        else pure ()) w
        (fun _ w' => Working host origin w' ∧ w'.engine.interrupted = false ∧
          exits (currentPass w'.history) = exits (currentPass w.history))
        (Halts host origin (Fails host origin)) := by
      split
      · next may =>
          simp only [Bool.and_eq_true, decide_eq_true_eq] at may
          obtain ⟨⟨⟨allowed, -⟩, missing⟩, capacity⟩ := may
          exact (replenish_meets visited.toSteady
            ⟨timely allowed, entry, missing, first.1, first.2, visited.first, capacity⟩).mono
            (fun _ _ done => done) fun _ _ => Halts.fails
      · exact ⟨visited.toWorking, uninterrupted, rfl⟩
    refine replenished.when_bind fun _ w₁ ⟨working, uninterrupted, counts⟩ => ?_
    refine (expireLogs_meets working).seq (fun _ _ => Halts.fails) fun _ w₂ idles => ?_
    exact .worked idles.working (idles.same.trans uninterrupted)
      (visited.counts.trans (idles.counts.trans counts).symm)

/-- The loop begins after the runs were marked and memory was saved. -/
theorem Surveyed.visiting {first : State × List Container} {listed : List Container}
    {pass : Pass} (surveyed : Surveyed host origin first listed w) {marked : World}
    (settles : Settles host origin marked w') (history : marked.history = w.history)
    (roster : marked.engine.state.roster = w.engine.state.roster)
    (uninterrupted : marked.engine.interrupted = false) (containers : pass.containers = listed)
    (managerId : w.engine.state.managerId = pass.managerId) :
    Visiting host origin pass first ((w.engine.state.runsOf origin.ps.id).map (·.id))
      ⟨.empty, none⟩ w' := by
  obtain ⟨m, history', quiet⟩ := settles.history
  rw [history] at history'
  have moments : currentPass w'.history = currentPass w.history ++ [m] := by
    rw [history', currentPass_concat quiet.starts]
  have same : w'.engine.state.roster = w.engine.state.roster := by
    rw [settles.state, roster]
  have listings : listings (currentPass w'.history) = listings (currentPass w.history) := by
    have none : Runnerctl.listings [m] = [] := listings_eq_nil (by simpa using quiet.listing)
    rw [moments, listings_append, none, List.append_nil]
  refine ⟨settles.steady, (State.roster_eq_iff.mp same).1.trans managerId, ?_, ?_,
    State.nodup_runsOf _ surveyed.ready.keyed _, fun id _ => ?_, fun id member => ?_, ?_, ?_,
    by simp⟩
  · rw [lastListing, listings, containers]
    exact surveyed.listed
  · rw [listings]
    exact surveyed.first
  · rw [moments]
    exact List.forall_mem_append.mpr ⟨fun m member => surveyed.unraised m member id,
      by simpa using quiet.raises id⟩
  · obtain ⟨run, ofPool, rfl⟩ := List.mem_map.mp member
    obtain ⟨⟨id, found⟩, ofPool⟩ := (State.mem_runsOf _).mp ofPool
    rw [surveyed.ready.keyed found]
    obtain ⟨run', found', -, samePool⟩ := State.run_of_roster same.symm found
    exact ⟨run', found', samePool.trans ofPool⟩
  · rw [moments, exits_append, surveyed.uncounted, exits_singleton, quiet.counted]
    rfl
  · rw [settles.same, uninterrupted]
    simp

theorem reconcileRuns_meets {first : State × List Container} {listed : List Container}
    (surveyed : Surveyed host origin first listed w) {managerId : Uuid}
    (sameId : w.engine.state.managerId = managerId) {allowReplenish : Bool} {pool : Pool}
    (timely : allowReplenish = true → origin.ps.retryAt ≤ origin.at_)
    (entry : origin.world.engine.state.config.pool? origin.name = some pool) :
    Meets host
      (reconcileRuns origin.name allowReplenish pool origin.ps managerId
        (unknownContainers first.1 first.2) listed) w
      (Reports host origin) (Halts host origin (Fails host origin)) := by
  unfold reconcileRuns
  have relisted : Meets host
      (if ((w.engine.state.runsOf origin.ps.id).any (·.force)) = true then
        external (.dockerList managerId.text) else pure listed) w
      (fun containers w₁ => Surveyed host origin first containers w₁ ∧
        w₁.engine.state.managerId = managerId)
      (Halts host origin (Fails host origin)) := by
    split
    · refine (external_meets surveyed.toSteady (.dockerList managerId.text)
        fun _ => congrArg Uuid.text sameId.symm).mono (fun containers w₁ replied => ⟨?_, ?_⟩)
        fun _ _ halts => halts.mono fun _ ⟨awaited, interrupted, _⟩ =>
          .faltered ⟨awaited.steady.toWorking, interrupted.mpr⟩
      · refine replied.survey surveyed.unraised surveyed.uncounted ?_
        rw [List.head?_append, surveyed.first, Option.some_or]
      · exact (State.roster_eq_iff.mp replied.kept.roster).1.trans sameId
    · exact ⟨surveyed, sameId⟩
  refine meets_bind.mpr (meets_getState.mpr ?_)
  refine relisted.when_bind fun containers w₁ ⟨surveyed₁, sameId₁⟩ => ?_
  refine meets_bind.mpr (meets_getState.mpr (meets_bind.mpr (meets_unwrap.mpr ?_)))
  split
  · next auth found =>
      refine meets_bind.mpr (meets_getState.mpr ?_)
      refine (external_proceeds surveyed₁.toSteady (.githubList _ _ _ _) rfl
        fun _ => trivial).seq (fun _ _ halts => halts.mono fun _ stopped =>
          .faltered stopped.1.faltered) fun remotes w₂ proceeds => ?_
      have surveyed₂ := surveyed₁.proceeds proceeds
      have sameId₂ := proceeds.managerId.trans sameId₁
      refine meets_bind.mpr (meets_getState.mpr ?_)
      refine (markRetiring_works surveyed₂.toSteady surveyed₂.uninterrupted).seq
        (fun _ _ => Halts.fails) fun _ w₃ ⟨working, history, uninterrupted, roster⟩ => ?_
      refine (save_settles working (history ▸ surveyed₂.unborn)).seq
        (fun _ _ ⟨_, failed, working⟩ => failed ▸ Fails.faltered ⟨working, nofun⟩)
        fun _ w₄ settles => ?_
      have begins : Visiting host origin ⟨origin.name, allowReplenish, pool, origin.ps,
          managerId, auth, containers, remotes⟩ first
          ((w₂.engine.state.runsOf origin.ps.id).map (·.id)) ⟨.empty, none⟩ w₄ :=
        surveyed₂.visiting settles history roster uninterrupted rfl sameId₂
      refine (Meets.foldlM (Visiting host origin _ first)
        (fun id rest progress w' visiting => visitRun_meets visiting rfl) begins).seq
        (fun _ _ => Halts.fails) fun progress w₅ visited => ?_
      split
      · next error collected =>
          exact Fails.faltered ⟨visited.toWorking, fun same =>
            visited.honest (same ▸ collected)⟩
      · next none =>
          refine finishPass_meets visited ?_ timely entry
          by_contra interrupted
          have caught := visited.caught (by simpa using interrupted)
          simp [none] at caught
  · next missing =>
      refine ⟨⟨w₁, surveyed₁.steps, .inl rfl⟩, fun restored fresh => ?_⟩
      obtain ⟨sound, -⟩ := surveyed₁.savable.sound restored fresh
      obtain ⟨config, -⟩ := surveyed₁.view surveyed₁.uninterrupted restored
      rw [← config] at entry
      have known := sound.valid.authenticated (Config.pool?_some entry).1
      rw [TreeMap.contains_iff, missing] at known
      simp at known

/-- A pass meets its specification. -/
theorem reconcile_meets (steady : Steady host origin w) (start : currentPass w.history = [])
    (world : origin.world.engine.state = w.engine.state)
    (found : w.engine.state.pools[origin.name]? = some origin.ps) {allowReplenish : Bool}
    (timely : allowReplenish = true → origin.ps.retryAt ≤ origin.at_) :
    Meets host (reconcile origin.name allowReplenish) w (Reports host origin)
      (Halts host origin (Fails host origin)) := by
  unfold reconcile
  refine meets_bind.mpr (meets_getState.mpr (.context_bind (fun _ => ?_)
    fun pool entry => ?_))
  · exact Fails.faltered ⟨steady.toWorking, nofun⟩
  rw [← world] at entry
  refine meets_bind.mpr (meets_poolOf.mpr ?_)
  rw [found]
  refine (external_meets steady (.dockerList w.engine.state.managerId.text)
    fun _ => rfl).seq (fun _ _ halts => halts.mono fun _ ⟨awaited, interrupted, _⟩ =>
      .faltered ⟨awaited.steady.toWorking, interrupted.mpr⟩) fun containers w₁ replied => ?_
  have surveyed : Surveyed host origin (w₁.engine.state, containers) containers w₁ :=
    replied.survey (by simp [start]) (by rw [start]; rfl) (by rw [start]; rfl)
  have sameId := (State.roster_eq_iff.mp replied.kept.roster).1
  refine meets_bind.mpr (meets_getState.mpr ?_)
  dsimp only
  split
  · next idle =>
      obtain ⟨none, -⟩ := Bool.and_eq_true_iff.mp idle
      split
      · next deleting =>
          refine (finaliseDeletion_meets surveyed.toSteady surveyed.uninterrupted deleting
            (by simpa using none)).bind fun _ w₂ completes => ?_
          exact .finished completes.toDeleted completes.written completes.savable
            (surveyed.uncounted.symm.trans completes.counts.symm)
      · exact .worked surveyed.toWorking surveyed.uninterrupted surveyed.uncounted.symm
  · have forced : Meets host
        (((w₁.engine.state.runsOf origin.ps.id).filter (·.force)).forM (forceRun containers))
        w₁ (fun _ w₂ => Surveyed host origin (w₁.engine.state, containers) containers w₂ ∧
          w₂.engine.state.managerId = w.engine.state.managerId)
        (Halts host origin (Fails host origin)) := by
      refine (Meets.forM
        (fun rest w₂ => Surveyed host origin (w₁.engine.state, containers) containers w₂ ∧
          w₂.engine.state.managerId = w.engine.state.managerId ∧
          ∀ run ∈ rest, Copy run w₂ ∧ run.force = true)
        (fun run rest w₂ ⟨surveyed₂, same, copies⟩ => ?_)
        ⟨surveyed, sameId, fun run member => ?_⟩).mono
        (fun _ w₂ ⟨surveyed₂, same, _⟩ => ⟨surveyed₂, same⟩) fun _ _ fails => fails
      · rw [List.forall_mem_cons] at copies
        obtain ⟨⟨copy, forced⟩, others⟩ := copies
        refine (forceRun_meets surveyed₂.toSteady surveyed₂.uninterrupted copy forced
          containers).mono (fun _ w₃ proceeds => ?_)
          fun _ _ halts => halts.faltered.fails
        exact ⟨surveyed₂.proceeds proceeds, proceeds.managerId.trans same,
          fun other member => (others other member).imp_left (·.kept proceeds.kept)⟩
      · obtain ⟨ofPool, forced⟩ := List.mem_filter.mp member
        obtain ⟨⟨id, there⟩, -⟩ := (State.mem_runsOf _).mp ofPool
        refine ⟨.of_found ?_, forced⟩
        rw [surveyed.ready.keyed there]
        exact there
    exact forced.bind fun _ w₂ ⟨surveyed₂, same⟩ =>
      reconcileRuns_meets surveyed₂ same timely entry

end Pass

end Runnerctl
