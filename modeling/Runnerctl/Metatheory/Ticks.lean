import Runnerctl.Metatheory.Pass

/-!
# Ticks

A tick turns to one pool, runs a pass over it and notes the outcome.  It is a run of
steps that ends ready for the next request; it stops early only if a save fails or a
deletion is left half done.
-/

namespace Runnerctl

open Std Program Journal

/-- Events after the pass of a tick. -/
def Event.aside : Event → Bool
  | .failed _ _ | .saved _ => true
  | _ => false

/-- The pool is paused beyond the time at which its pass began. -/
def Paused (origin : Origin) (w : World) : Prop :=
  ∃ p, w.engine.state.pools[origin.name]? = some p ∧ p.error.isSome = true ∧
    origin.at_ < p.retryAt

/-- The deadline of the pool is the one it had, or a request reset it. -/
def Unmoved (origin : Origin) (w : World) : Prop :=
  ∃ p, w.engine.state.pools[origin.name]? = some p ∧ (p.retryAt = origin.ps.retryAt ∨
    p.retryAt = 0 ∧ ∃ m ∈ currentPass w.history, m.Resets origin.name)

/-- The last thing that happened is a save. -/
def EndsSaving (ok : Bool) (w : World) : Prop :=
  ∃ first m, w.history = first ++ [m] ∧ m.event = .saved ok

/-- The end of a tick whose pass ended in `start`. -/
structure Closing (host : Host) (origin : Origin) (start w : World) : Prop where
  steps : Steps host origin.world w
  savable : Savable host w w.engine.state
  reconcileEpoch : w.engine.reconcileEpoch = none
  history : Grows (fun m => m.event.aside = true) start.history w.history

/-- A tick that ran a pass is over. -/
structure Concludes (host : Host) (origin : Origin) (w : World) : Prop where
  steps : Steps host origin.world w
  ready : Ready host w
  reconcileEpoch : w.engine.reconcileEpoch = none
  head : passHead w.history = some (origin.name, origin.at_, origin.ps.retryAt)
  span : w.history = origin.world.history ++ currentPass w.history
  stored : w.store = some w.engine.state
  saving : EndsSaving true w
  /-- Unexpected exits pause the pool, unless a request interrupted the pass. -/
  paused : Restored w.history → Fresh host w.asked → 0 < exits (currentPass w.history) →
    (∀ m ∈ currentPass w.history, m.mutation = false) → Paused origin w
  unmoved : Restored w.history → Fresh host w.asked →
    (∃ m ∈ currentPass w.history, m.mutation = true) → Unmoved origin w
  whole : Restored w.history → Fresh host w.asked →
    halfDeleted (currentPass w.history) = false

/-- A tick stopped with an error after its pass began. -/
structure Aborts (host : Host) (origin : Origin) (w : World) : Prop where
  steps : Steps host origin.world w
  head : passHead w.history = some (origin.name, origin.at_, origin.ps.retryAt)
  span : w.history = origin.world.history ++ currentPass w.history
  cause : Restored w.history → Fresh host w.asked →
    (∃ m ∈ currentPass w.history, m.event = .saved false) ∨
      halfDeleted (currentPass w.history) = true
  saving : Restored w.history → Fresh host w.asked →
    (∃ m ∈ currentPass w.history, m.mutation = true) → EndsSaving false w

section Ticks

variable {host : Host} {origin : Origin} {start w w' : World}

/-! ## After the pass -/

theorem aside_quiet {m : Moment} (aside : m.event.aside = true) :
    m.starts = false ∧ m.mutation = false ∧ m.counted = false ∧ m.deletes = false ∧
      m.event ≠ .cleared ∧
        ∀ name, ¬ m.Resets name := by
  cases event : m.event <;>
    simp_all [Event.aside, Moment.starts, Moment.mutation, Moment.counted, Moment.deletes,
      Moment.Resets]

/-- What is read off the pass does not change after its end. -/
structure SamePass (start w : World) : Prop where
  pass : ∃ new, currentPass w.history = currentPass start.history ++ new ∧
    ∀ m ∈ new, m.event.aside = true
  span {first : List Moment} : start.history = first ++ currentPass start.history →
    w.history = first ++ currentPass w.history
  head : passHead w.history = passHead start.history
  exits : exits (currentPass w.history) = exits (currentPass start.history)
  halfDeleted : halfDeleted (currentPass w.history) = halfDeleted (currentPass start.history)

theorem samePass (history : Grows (fun m => m.event.aside = true) start.history w.history) :
    SamePass start w := by
  obtain ⟨new, history, aside⟩ := history
  have pass : currentPass w.history = currentPass start.history ++ new := by
    rw [history, currentPass_append fun m member => (aside_quiet (aside m member)).1]
  refine ⟨⟨new, pass, aside⟩, fun span => ?_, ?_, ?_, ?_⟩
  · rw [pass, ← List.append_assoc, ← span]
    exact history
  · rw [history, passHead_append fun m member => (aside_quiet (aside m member)).1]
  · rw [pass, exits_append, exits_eq_zero fun m member => (aside_quiet (aside m member)).2.2.1,
      Nat.add_zero]
  · rw [pass, halfDeleted_append fun m member =>
      ⟨(aside_quiet (aside m member)).2.2.2.2.1, (aside_quiet (aside m member)).2.2.2.1⟩]

theorem SamePass.mutation (same : SamePass start w) :
    (∃ m ∈ currentPass w.history, m.mutation = true) ↔
      ∃ m ∈ currentPass start.history, m.mutation = true := by
  obtain ⟨new, pass, aside⟩ := same.pass
  rw [pass]
  constructor
  · rintro ⟨m, member, mutation⟩
    rcases List.mem_append.mp member with member | member
    · exact ⟨m, member, mutation⟩
    · simp [(aside_quiet (aside m member)).2.1] at mutation
  · rintro ⟨m, member, mutation⟩
    exact ⟨m, List.mem_append_left _ member, mutation⟩

theorem SamePass.undisturbed (same : SamePass start w)
    (undisturbed : Undisturbed (currentPass start.history)) :
    Undisturbed (currentPass w.history) := by
  obtain ⟨new, pass, aside⟩ := same.pass
  rw [pass]
  intro restored
  exact List.forall_mem_append.mpr ⟨undisturbed (restored_append.mp restored).1,
    fun m member => (aside_quiet (aside m member)).2.1⟩

/-- The beginning of a pass. -/
def World.entered (w : World) (name : String) (p : PoolState) : World :=
  { w.log (.passStarted name w.clock p.retryAt) with
    engine := { w.engine with reconcileEpoch := some w.engine.epoch } }

/-- The end of a pass. -/
def World.left (w : World) : World :=
  { w with engine := { w.engine with reconcileEpoch := none } }

theorem State.forgetPhases_run (s : State) (poolId id : String) :
    (s.forgetPhases poolId).runs[id]? = s.runs[id]?.map fun r =>
      if r.poolId == poolId &&
          (r.phase == .idle || r.phase == .busy || r.phase == .starting) then
        { r with phase := .unknown }
      else r :=
  TreeMap.get_image _ _ _

theorem State.forgetPhases_intent (s : State) (poolId : String) :
    (s.forgetPhases poolId).intent = s.intent := by
  refine State.intent_eq_iff.mpr ⟨rfl, rfl, rfl, rfl, rfl, ?_⟩
  refine TreeMap.image_eq_image_iff.mpr fun id => ?_
  rw [State.forgetPhases_run, Option.map_map]
  congr 1
  funext run
  dsimp only [Function.comp]
  split <;> rfl

namespace Closing

theorem same (closing : Closing host origin start w) : SamePass start w :=
  samePass closing.history

theorem restored (closing : Closing host origin start w) (restored : Restored w.history) :
    Restored start.history :=
  restored_of_grows closing.history restored

/-- A step after the pass. -/
theorem next (closing : Closing host origin start w) (step : Step host w w')
    (savable : Savable host w' w'.engine.state)
    (reconcileEpoch : w'.engine.reconcileEpoch = w.engine.reconcileEpoch)
    (history : Grows (fun m => m.event.aside = true) w.history w'.history) :
    Closing host origin start w' :=
  ⟨closing.steps.tail step, savable, reconcileEpoch.trans closing.reconcileEpoch,
    closing.history.trans history⟩

theorem advance (closing : Closing host origin start w) :
    Closing host origin start (w.advance host) :=
  closing.next (.silent rfl rfl rfl rfl rfl (Nat.le_succ _) (Nat.le_add_right ..))
    (closing.savable.map (Nat.le_succ _) id (closing.savable.named.mono (Nat.le_succ _)) id
      fun {_ p} found => ⟨p, found, rfl⟩) rfl (.refl _)

theorem setPool (closing : Closing host origin start w) {name : String} {p p' : PoolState}
    (found : w.engine.state.pools[name]? = some p) (wish : p'.wish = p.wish)
    (noted : w.engine.state.Sound → 0 < p'.retryAt → p'.error.isSome = true) :
    Savable host (w.setState (w.engine.state.setPool name p'))
      (w.engine.state.setPool name p') := by
  refine closing.savable.map le_rfl id closing.savable.named
    (fun sound => sound.note found wish (noted sound)) fun {other q} there => ?_
  rw [State.setPool_pools, TreeMap.get_insert] at there
  split at there
  · next equal =>
      cases there
      exact ⟨p, equal ▸ found, (congrArg PoolWish.id wish).symm⟩
  · exact ⟨q, there, rfl⟩

/-- The outcome of the pass is noted. -/
theorem note (closing : Closing host origin start w)
    (undisturbed : Undisturbed (currentPass start.history)) {name : String}
    {p p' : PoolState} (found : w.engine.state.pools[name]? = some p)
    (noted : Noted w name p p')
    (error : w.engine.state.Sound → 0 < p'.retryAt → p'.error.isSome = true) :
    Closing host origin start (w.setState (w.engine.state.setPool name p')) :=
  closing.next (.note closing.reconcileEpoch (closing.same.undisturbed undisturbed) found noted)
    (closing.setPool found noted.wish error) rfl (.refl _)

/-- A failure is recorded. -/
theorem fail (closing : Closing host origin start w)
    (undisturbed : Undisturbed (currentPass start.history))
    (head : passHead start.history = some (origin.name, origin.at_, origin.ps.retryAt))
    {error : String} {scope : RetryScope} {p : PoolState} {jitter : Nat}
    (found : w.engine.state.pools[origin.name]? = some p) (small : jitter ≤ 6)
    (pending : ¬ ((w.advance host).clock < p.retryAt ∧ p.retryScope = scope))
    (licensed : scope = .provisioning → 0 < exits (currentPass start.history) ∧
      (Restored w.history → Fresh host w.asked → p.running = true ∧ p.deleting = false)) :
    Closing host origin start ((((w.advance host).advance host).setState
      (w.engine.state.setPool origin.name
        (p.failed scope error (w.advance host).clock jitter))).log
          (.failed origin.name scope)) := by
  refine closing.next (.fail closing.reconcileEpoch (closing.same.undisturbed undisturbed)
    ⟨_, _, closing.same.head.trans head⟩ found small pending ?_) ?_ rfl (.concat rfl)
  · rw [closing.same.exits]
    exact licensed
  · have savable := closing.advance.advance.setPool found
      (show (p.failed scope error (w.advance host).clock jitter).wish = p.wish from rfl)
      fun _ _ => rfl
    exact ⟨savable.named, fun restored => savable.sound (restored_append.mp restored).1⟩

/-- The phases of the pool's runs are forgotten. -/
theorem forget (closing : Closing host origin start w) (poolId : String) :
    Closing host origin start (w.setState (w.engine.state.forgetPhases poolId)) := by
  have same := w.engine.state.forgetPhases_intent poolId
  refine closing.next (.forget poolId) (closing.savable.map le_rfl id ?_
    (·.of_intent same.symm) fun {_ p} found => ⟨p, found, rfl⟩) rfl (.refl _)
  rw [World.setState_state, State.roster_of_intent same]
  exact closing.savable.named

end Closing

theorem retryDelay_pos (failures jitter : Nat) : 0 < retryDelay failures jitter := by
  have power : 0 < 2 ^ min failures 7 := Nat.pow_pos (by decide)
  rw [retryDelay, maxRetrySeconds]
  omega

/-- `record_failure` pauses the pool. -/
theorem recordFailure_meets (closing : Closing host origin start w)
    (undisturbed : Undisturbed (currentPass start.history))
    (head : passHead start.history = some (origin.name, origin.at_, origin.ps.retryAt))
    (clock : origin.at_ ≤ w.clock) (error : String) {scope : RetryScope}
    (licensed : scope = .provisioning → 0 < exits (currentPass start.history) ∧
      (Restored w.history → Fresh host w.asked →
        ∃ p, w.engine.state.pools[origin.name]? = some p ∧ p.running = true ∧
          p.deleting = false)) :
    Meets host (recordFailure origin.name error scope) w
      (fun _ w' => Closing host origin start w' ∧
        (Restored w'.history → Fresh host w'.asked → Paused origin w'))
      (fun fault w' => fault = .error (.msg "pool disappeared") ∧
        Closing host origin start w' ∧ w.engine.state.pools[origin.name]? = none) := by
  unfold recordFailure
  refine meets_bind.mpr (meets_now.mpr (meets_bind.mpr (meets_getState.mpr
    (.context_bind (fun missing => ⟨rfl, closing.advance, missing⟩) fun p found => ?_))))
  have later : origin.at_ ≤ (w.advance host).clock := Nat.le_add_right_of_le clock
  split
  · next paused =>
      simp only [Bool.and_eq_true, decide_eq_true_eq] at paused
      refine ⟨closing.advance, fun restored fresh =>
        ⟨p, found, ?_, later.trans_lt paused.1⟩⟩
      exact (closing.advance.savable.sound restored fresh).1.noted found (by omega)
  · next unpaused =>
      refine meets_bind.mpr (meets_consult.mpr (meets_bind.mpr (meets_getState.mpr
        (meets_bind.mpr (meets_setState.mpr (meets_record.mpr ?_))))))
      have small : (host.answers (w.advance host).asked).byte.val % 7 ≤ 6 := by omega
      have failed := @Closing.fail _ _ _ _ closing undisturbed head error _ _ _ found small
        (by simpa using unpaused) fun provisioning => (licensed provisioning).imp_right
          fun pool restored fresh => by
            obtain ⟨q, there, usable⟩ := pool restored fresh
            cases found.symm.trans there
            exact usable
      refine ⟨failed, fun _ _ => ⟨_, TreeMap.get_insert_self _ _ _, rfl, ?_⟩⟩
      exact later.trans_lt (Nat.lt_add_of_pos_right (retryDelay_pos _ _))

/-- `record_failure` fails if the pool is gone. -/
theorem recordFailure_missing {name error : String} {scope : RetryScope}
    {post : Unit → World → Prop} {fault : Fault Error → World → Prop}
    (missing : w.engine.state.pools[name]? = none)
    (stops : fault (.error (.msg "pool disappeared")) (w.advance host)) :
    Meets host (recordFailure name error scope) w post fault :=
  meets_bind.mpr (meets_now.mpr (meets_bind.mpr (meets_getState.mpr
    (.context_bind (fun _ => stops) fun _ found => absurd (missing.symm.trans found) nofun))))

/-- Memory is saved at the end of a tick. -/
structure Finishes (host : Host) (origin : Origin) (start w w' : World) : Prop
    extends Closing host origin start w' where
  ready : Ready host w'
  stored : w'.store = some w'.engine.state
  saving : EndsSaving true w'
  before : Restored w'.history → Restored w.history
  questions : w.asked ≤ w'.asked
  pool : ∀ p, w.engine.state.pools[origin.name]? = some p →
    ∃ p', w'.engine.state.pools[origin.name]? = some p' ∧ p'.error = p.error ∧
      p'.retryAt = p.retryAt

/-- A save at the end of a tick failed. -/
structure Unsaved (host : Host) (origin : Origin) (start w' : World) : Prop
    extends Closing host origin start w' where
  failed : ∃ m ∈ currentPass w'.history, m.event = .saved false
  saving : EndsSaving false w'

theorem save_finishes (closing : Closing host origin start w)
    (whole : halfDeleted (currentPass start.history) = false) :
    Meets host save w (fun _ => Finishes host origin start w)
      (fun fault w' => (∃ text, fault = .error (.msg text)) ∧
        Unsaved host origin start w') := by
  refine meets_save.mpr ?_
  have opened := closing.advance
  have restores {event : Event} (restored : Restored (w.history ++
      [(w.advance host).moment event])) : Restored w.history := (restored_append.mp restored).1
  split
  · have savable : Savable host
        (((w.advance host).withStore w.engine.state).log (.saved true)).published
        w.engine.state :=
      opened.savable.map le_rfl (fun restored => (restored_append.mp restored).1)
        opened.savable.named id fun {_ p} found => ⟨p, found, rfl⟩
    have saved := opened.next (.save opened.savable (opened.same.halfDeleted.trans whole))
      (opened.savable.map le_rfl (fun restored => (restored_append.mp restored).1)
        opened.savable.named id fun {_ p} found => ⟨p, found, rfl⟩) rfl (.concat rfl)
    exact ⟨saved.next (.silent rfl rfl rfl rfl rfl le_rfl le_rfl) savable rfl (.refl _),
      .saved rfl savable, rfl, ⟨_, _, rfl, rfl⟩,
      fun restored => (restored_append.mp restored).1, Nat.le_succ _,
      fun p found => ⟨p, found, rfl, rfl⟩⟩
  · refine ⟨⟨_, rfl⟩, opened.next (.log rfl) (opened.savable.map le_rfl restores
      opened.savable.named id fun {_ p} found => ⟨p, found, rfl⟩) rfl (.concat rfl), ?_,
      ⟨_, _, rfl, rfl⟩⟩
    rw [World.log_history, currentPass_concat rfl]
    exact ⟨_, List.mem_append_right _ (List.mem_singleton_self _), rfl⟩

theorem finishTick_meets (closing : Closing host origin start w)
    (undisturbed : Undisturbed (currentPass start.history))
    (whole : halfDeleted (currentPass start.history) = false) :
    Meets host (finishTick origin.name) w (fun _ => Finishes host origin start w)
      (fun fault w' => (∃ text, fault = .error (.msg text)) ∧
        Unsaved host origin start w') := by
  unfold finishTick
  refine meets_bind.mpr (meets_getState.mpr ?_)
  split
  · next p found =>
      refine meets_bind.mpr (meets_now.mpr (meets_bind.mpr (meets_getState.mpr
        (meets_bind.mpr (meets_setState.mpr ?_)))))
      have noted := closing.advance.note undisturbed found
        (.observed (w.advance host).clock) fun sound late => sound.noted (p := p) found late
      refine (save_finishes noted whole).mono (fun _ w' finishes => ?_) fun _ _ failed => failed
      refine ⟨finishes.toClosing, finishes.ready, finishes.stored, finishes.saving,
        finishes.before,
        (Nat.le_succ _).trans finishes.questions, fun q there => ?_⟩
      cases found.symm.trans there
      obtain ⟨p', found', error, retryAt⟩ := finishes.pool _ (TreeMap.get_insert_self _ _ _)
      exact ⟨p', found', error, retryAt⟩
  · exact (save_finishes closing whole).mono (fun _ _ finishes => finishes)
      fun _ _ failed => failed

/-! ## The outcome of the pass -/

theorem Working.closing (working : Working host origin w) : Closing host origin w w.left :=
  ⟨working.steps.tail .leave, ⟨working.savable.named, working.savable.sound⟩, rfl, .refl _⟩

theorem Working.clock (working : Working host origin w) :
    origin.world.clock ≤ w.clock := (Steps.advances working.steps).clock

theorem Finishes.paused (finishes : Finishes host origin start w w') (paused : Paused origin w) :
    Paused origin w' := by
  obtain ⟨p, found, error, late⟩ := paused
  obtain ⟨p', found', sameError, sameDeadline⟩ := finishes.pool p found
  exact ⟨p', found', by rw [sameError, error], by rwa [sameDeadline]⟩

/-- The tick ends as its pass did. -/
theorem Finishes.concludes (finishes : Finishes host origin start w w')
    (head : passHead start.history = some (origin.name, origin.at_, origin.ps.retryAt))
    (span : start.history = origin.world.history ++ currentPass start.history)
    (paused : Restored w'.history → Fresh host w'.asked →
      0 < exits (currentPass start.history) →
      (∀ m ∈ currentPass start.history, m.mutation = false) → Paused origin w')
    (unmoved : Restored w'.history → Fresh host w'.asked →
      (∃ m ∈ currentPass start.history, m.mutation = true) → Unmoved origin w')
    (whole : Restored w'.history → Fresh host w'.asked →
      halfDeleted (currentPass start.history) = false) : Concludes host origin w' where
  steps := finishes.steps
  ready := finishes.ready
  reconcileEpoch := finishes.reconcileEpoch
  head := finishes.same.head.trans head
  span := finishes.same.span span
  stored := finishes.stored
  saving := finishes.saving
  paused restored fresh some calm := by
    refine paused restored fresh (finishes.same.exits ▸ some) fun m member => ?_
    obtain ⟨new, pass, -⟩ := finishes.same.pass
    exact calm m (pass ▸ List.mem_append_left _ member)
  unmoved restored fresh mutated :=
    unmoved restored fresh (finishes.same.mutation.mp mutated)
  whole restored fresh := finishes.same.halfDeleted.trans (whole restored fresh)

theorem Unsaved.aborts (unsaved : Unsaved host origin start w)
    (head : passHead start.history = some (origin.name, origin.at_, origin.ps.retryAt))
    (span : start.history = origin.world.history ++ currentPass start.history) :
    Aborts host origin w :=
  ⟨unsaved.steps, unsaved.same.head.trans head, unsaved.same.span span,
    fun _ _ => .inl unsaved.failed, fun _ _ _ => unsaved.saving⟩

/-- A tick whose pass began in `origin` stopped. -/
def Collapses (host : Host) (origin : Origin) : Fault Error → World → Prop
  | .panic, w => Broken host origin w
  | .error _, w => Aborts host origin w

theorem collapses_of_unsaved {fault : Fault Error}
    (head : passHead start.history = some (origin.name, origin.at_, origin.ps.retryAt))
    (span : start.history = origin.world.history ++ currentPass start.history)
    (failed : (∃ text, fault = .error (.msg text)) ∧ Unsaved host origin start w) :
    Collapses host origin fault w := by
  obtain ⟨⟨_, rfl⟩, unsaved⟩ := failed
  exact unsaved.aborts head span

/-- No mutation was handled in a pass that was not disturbed. -/
theorem absurd_mutation {P : Prop} (undisturbed : Undisturbed (currentPass start.history))
    (restored : Restored start.history)
    (mutated : ∃ m ∈ currentPass start.history, m.mutation = true) : P := by
  obtain ⟨m, member, mutation⟩ := mutated
  have still := undisturbed (restored_currentPass restored) m member
  simp [mutation] at still

/-- The pool of a pass that was not interrupted is there, unless the store was not read back. -/
theorem Working.vanished (working : Working host origin w)
    (uninterrupted : w.engine.interrupted = false) (closing : Closing host origin w w')
    (missing : w.left.engine.state.pools[origin.name]? = none) : Aborts host origin w' := by
  have there (restored : Restored w'.history) : False := by
    obtain ⟨-, _, found⟩ := working.view uninterrupted (closing.restored restored)
    exact absurd (found.symm.trans missing) nofun
  exact ⟨closing.steps, closing.same.head.trans working.head, closing.same.span working.span,
    fun restored _ => (there restored).elim, fun restored _ _ => (there restored).elim⟩

/-- A pass that was not interrupted returned its report. -/
theorem Working.reported (working : Working host origin w) (clock : origin.at_ ≤ w.clock)
    (uninterrupted : w.engine.interrupted = false) {report : ReconcileReport}
    (counts : report.unexpectedExits = exits (currentPass w.history)) {retrying : Bool}
    (timely : retrying = false → origin.ps.retryAt ≤ origin.at_) :
    Meets host (settle origin.name retrying (.ok report)) w.left
      (fun _ => Concludes host origin) (Collapses host origin) := by
  have undisturbed := working.undisturbed uninterrupted
  have whole := halfDeleted_eq_false working.undeleted
  have calm {w' : World} (closing : Closing host origin w w')
      (restored : Restored w'.history)
      (mutated : ∃ m ∈ currentPass w.history, m.mutation = true) : Unmoved origin w' :=
    absurd_mutation undisturbed (closing.restored restored) mutated
  have finish {w₁ : World} (closing : Closing host origin w w₁)
      (paused : Restored w₁.history → Fresh host w₁.asked →
        0 < exits (currentPass w.history) → Paused origin w₁) :
      Meets host (finishTick origin.name) w₁ (fun _ => Concludes host origin)
        (Collapses host origin) := by
    refine (finishTick_meets closing undisturbed whole).mono (fun _ w₂ finishes => ?_)
      fun _ _ failed => collapses_of_unsaved working.head working.span failed
    refine finishes.concludes working.head working.span (fun restored fresh some _ => ?_)
      (fun restored _ => calm finishes.toClosing restored) fun _ _ => whole
    exact finishes.paused (paused (finishes.before restored)
      (fresh.mono finishes.questions) some)
  unfold settle
  dsimp only
  split
  · next some =>
      refine (recordFailure_meets working.closing undisturbed working.head clock _
        fun _ => ⟨counts ▸ some, fun restored fresh => ?_⟩).seq
        (fun _ w₁ ⟨failed, closing, missing⟩ => ?_)
        fun _ w₁ ⟨closing, paused⟩ => finish closing fun restored fresh _ =>
          paused restored fresh
      · obtain ⟨-, _, found⟩ := working.view uninterrupted restored
        have running := working.counted restored fresh (counts ▸ some)
        refine ⟨_, found, running, ?_⟩
        by_contra deleting
        have stopped := (working.savable.sound restored fresh).1.halted found
          (by simpa using deleting)
        simp [running] at stopped
      · subst failed
        exact working.vanished uninterrupted closing missing
  · next none =>
      have unpaused {w₁ : World} (closing : Closing host origin w w₁) :
          Meets host (finishTick origin.name) w₁ (fun _ => Concludes host origin)
            (Collapses host origin) :=
        finish closing fun _ _ some => absurd (counts ▸ some) none
      split
      · exact unpaused working.closing
      · next due =>
          refine meets_bind.mpr (meets_getState.mpr ?_)
          split
          · next p found =>
              refine meets_bind.mpr (meets_getState.mpr (meets_bind.mpr (meets_setState.mpr ?_)))
              refine unpaused (working.closing.note undisturbed found
                (.cleared working.head (timely (by simpa using due)) fun restored => ?_)
                fun _ late => absurd late (Nat.lt_irrefl 0))
              obtain ⟨-, _, view⟩ := working.view uninterrupted restored
              cases found.symm.trans view
              exact timely (by simpa using due)
          · exact unpaused working.closing

/-- A pass that deleted its pool returned its report. -/
theorem Deleted.reported (deleted : Deleted host origin w)
    (savable : Savable host w w.engine.state)
    (written : halfDeleted (currentPass w.history) = false)
    {report : ReconcileReport}
    (counts : report.unexpectedExits = exits (currentPass w.history)) (retrying : Bool) :
    Meets host (settle origin.name retrying (.ok report)) w.left
      (fun _ => Concludes host origin) (Collapses host origin) := by
  have closing : Closing host origin w w.left :=
    ⟨deleted.steps.tail .leave, ⟨savable.named, savable.sound⟩, rfl, .refl _⟩
  have missing : w.left.engine.state.pools[origin.name]? = none := deleted.missing
  have finish : Meets host (finishTick origin.name) w.left (fun _ => Concludes host origin)
      (Collapses host origin) := by
    refine (finishTick_meets closing deleted.undisturbed written).mono (fun _ w₂ finishes => ?_)
      fun _ _ failed => collapses_of_unsaved deleted.head deleted.span failed
    refine finishes.concludes deleted.head deleted.span (fun restored fresh some _ => ?_)
      (fun restored _ => absurd_mutation deleted.undisturbed
        (finishes.toClosing.restored restored)) fun _ _ => written
    have none := deleted.uncounted (finishes.toClosing.restored restored)
      (fresh.mono finishes.questions)
    omega
  unfold settle
  dsimp only
  split
  · next some =>
      refine meets_bind.mpr (recordFailure_missing missing ⟨closing.advance.steps,
        closing.advance.same.head.trans deleted.head, closing.advance.same.span deleted.span,
        fun restored fresh => ?_, fun restored fresh _ => ?_⟩)
      all_goals
        have none := deleted.uncounted restored (fresh.mono (Nat.le_succ _))
        omega
  · split
    · exact finish
    · refine meets_bind.mpr (meets_getState.mpr ?_)
      rw [missing]
      exact finish

/-- The deletion of the pool was left half done. -/
theorem Deleted.halfway (deleted : Deleted host origin w)
    (half : halfDeleted (currentPass w.history) = true) {error : Error}
    (genuine : error ≠ .interrupted) (retrying : Bool) :
    Meets host (settle origin.name retrying (.error error)) w.left
      (fun _ => Concludes host origin) (Collapses host origin) := by
  have missing : w.left.engine.state.pools[origin.name]? = none := deleted.missing
  unfold settle
  cases error with
  | interrupted => exact absurd rfl genuine
  | msg text =>
      refine meets_bind.mpr (recordFailure_missing missing ⟨?_, deleted.head,
        deleted.span, fun _ _ => .inr half,
        fun restored _ => absurd_mutation deleted.undisturbed restored⟩)
      exact (deleted.steps.tail .leave).tail
        (.silent rfl rfl rfl rfl rfl (Nat.le_succ _) (Nat.le_add_right ..))

/-- A request interrupted the pass. -/
theorem Working.abandoned (working : Working host origin w)
    (interrupted : w.engine.interrupted = true) :
    Meets host save w.left (fun _ => Concludes host origin) (Collapses host origin) := by
  refine (save_finishes working.closing (halfDeleted_eq_false working.undeleted)).mono
    (fun _ w₂ finishes => ?_)
    fun _ _ failed => collapses_of_unsaved working.head working.span failed
  refine finishes.concludes working.head working.span (fun _ _ _ calm => ?_)
    (fun restored fresh _ => ?_)
    fun _ _ => halfDeleted_eq_false working.undeleted
  · rw [interrupted_eq working.reconcileEpoch, bne_iff_ne] at interrupted
    obtain ⟨m, member, mutation⟩ :=
      working.advanced (Nat.lt_of_le_of_ne working.later interrupted)
    simp [calm m member] at mutation
  · obtain ⟨p, found, retry⟩ :=
      working.deadline (finishes.before restored) (fresh.mono finishes.questions)
    obtain ⟨p', found', -, deadline⟩ := finishes.pool p found
    obtain ⟨new, pass, -⟩ := finishes.same.pass
    rw [Unmoved, pass]
    refine ⟨p', found', ?_⟩
    rw [deadline]
    exact retry.imp_right fun ⟨reset, m, member, resets⟩ =>
      ⟨reset, m, List.mem_append_left _ member, resets⟩

/-- A pass that was not interrupted failed. -/
theorem Faltered.settled {error : Error} (faltered : Faltered host origin error w)
    (clock : origin.at_ ≤ w.clock) (uninterrupted : w.engine.interrupted = false)
    (retrying : Bool) :
    Meets host (settle origin.name retrying (.error error)) w.left
      (fun _ => Concludes host origin) (Collapses host origin) := by
  have working := faltered.toWorking
  have undisturbed := working.undisturbed uninterrupted
  unfold settle
  cases error with
  | interrupted =>
      have interrupted := faltered.interrupted rfl
      simp [uninterrupted] at interrupted
  | msg text =>
      refine (recordFailure_meets working.closing undisturbed working.head clock _
        fun provisioning : RetryScope.observation = .provisioning => nomatch provisioning).seq
        (fun _ w₁ ⟨failed, closing, missing⟩ => ?_) fun _ w₁ ⟨closing, paused⟩ => ?_
      · subst failed
        exact working.vanished uninterrupted closing missing
      have finish {w₂ : World} (closing : Closing host origin w w₂)
          (paused : Restored w₂.history → Fresh host w₂.asked → Paused origin w₂) :
          Meets host (finishTick origin.name) w₂ (fun _ => Concludes host origin)
            (Collapses host origin) := by
        refine (finishTick_meets closing undisturbed
          (halfDeleted_eq_false working.undeleted)).mono (fun _ w₃ finishes => ?_)
          fun _ _ failed => collapses_of_unsaved working.head working.span failed
        refine finishes.concludes working.head working.span (fun restored fresh _ _ => ?_)
          (fun restored _ => absurd_mutation undisturbed
            (finishes.toClosing.restored restored))
          fun _ _ => halfDeleted_eq_false working.undeleted
        exact finishes.paused (paused (finishes.before restored)
          (fresh.mono finishes.questions))
      refine meets_bind.mpr (meets_getState.mpr ?_)
      split
      · next p _ =>
          refine meets_bind.mpr (meets_getState.mpr (meets_bind.mpr (meets_setState.mpr ?_)))
          exact finish (closing.forget p.id) paused
      · exact finish closing paused

/-! ## The tick -/

/-- A pass over a pool begins. -/
structure Begins (host : Host) (w : World) (origin : Origin) : Prop where
  steps : Steps host w origin.world
  state : origin.world.engine.state = w.engine.state
  found : w.engine.state.pools[origin.name]? = some origin.ps
  store : origin.world.store = w.store
  clock : origin.world.clock = origin.at_
  early : origin.at_ = (w.advance host).clock
  history : ∃ m, origin.world.history = w.history ++ [m] ∧
    m.event = .passStarted origin.name origin.at_ origin.ps.retryAt

/-- The current pass of a tick lies within the tick. -/
theorem Begins.history_eq (begins : Begins host w origin)
    (steps : Steps host origin.world w') : ∃ m rest, w'.history = w.history ++ m :: rest ∧
      m.event = .passStarted origin.name origin.at_ origin.ps.retryAt ∧
      currentPass w'.history = currentPass rest := by
  obtain ⟨m, started, event⟩ := begins.history
  obtain ⟨rest, continues⟩ := (Steps.advances steps).history
  rw [started, List.append_assoc, List.singleton_append] at continues
  refine ⟨m, rest, continues.symm, event, ?_⟩
  rw [← continues]
  exact currentPass_cons (by rw [Moment.starts, event])

/-- The pass of a tick is the same at every step of the tick. -/
theorem Begins.head (begins : Begins host w origin) {mid : World}
    (before : origin.world.history <+: mid.history) (after : mid.history <+: w'.history)
    (span : w'.history = origin.world.history ++ currentPass w'.history) :
    passHead mid.history = some (origin.name, origin.at_, origin.ps.retryAt) := by
  obtain ⟨new, continues⟩ := before
  rw [span, ← continues, List.prefix_append_right_inj] at after
  obtain ⟨m, started, event⟩ := begins.history
  rw [← continues, passHead_append fun m member => currentPass_quiet _ m (after.subset member),
    started, passHead, List.foldl_append]
  simp only [List.foldl_cons, List.foldl_nil, event]

/-- A tick is over. -/
inductive Ticked (host : Host) (w w' : World) : Prop where
  /-- There was no pool, or its observation is delayed. -/
  | idle : Steps host w w' → Ready host w' → w'.engine.reconcileEpoch = none →
      w'.history = w.history → w'.engine.state = w.engine.state → w'.store = w.store →
      Ticked host w w'
  | passed {origin : Origin} : Begins host w origin → Concludes host origin w' →
      Ticked host w w'

/-- A tick stopped. -/
def Dies (host : Host) (w : World) (fault : Fault Error) (w' : World) : Prop :=
  ∃ origin, Begins host w origin ∧ Collapses host origin fault w'

theorem tickPool_meets (ready : Ready host w) (idle : w.engine.reconcileEpoch = none)
    {name : String} {p : PoolState} (found : w.engine.state.pools[name]? = some p) :
    Meets host (tickPool name) w (fun _ => Ticked host w) (Dies host w) := by
  unfold tickPool
  refine meets_bind.mpr (meets_now.mpr (meets_bind.mpr (meets_poolOf.mpr ?_)))
  rw [show (w.advance host).engine.state.pools[name]? = some p from found]
  have silent : Step host w (w.advance host) :=
    .silent rfl rfl rfl rfl rfl (Nat.le_succ _) (Nat.le_add_right ..)
  have opened : Ready host (w.advance host) := ready.frame rfl rfl id (Nat.le_succ _)
  dsimp only
  split
  · exact .idle (.single silent) opened idle rfl rfl rfl
  · refine meets_bind.mpr (meets_record.mpr (meets_bind.mpr (meets_modify.mpr ?_)))
    change Meets host _ ((w.advance host).entered name p) _ _
    generalize world : (w.advance host).entered name p = w₁
    have entered : Step host (w.advance host) w₁ := world ▸ .enter opened found
    have state : w₁.engine.state = w.engine.state := world ▸ rfl
    have history : w₁.history = w.history ++ [(w.advance host).moment
        (.passStarted name (w.advance host).clock p.retryAt)] := world ▸ rfl
    have store : w₁.store = w.store := world ▸ rfl
    have clock : w₁.clock = (w.advance host).clock := world ▸ rfl
    have epoch : w₁.engine.reconcileEpoch = some w₁.engine.epoch := world ▸ rfl
    let origin : Origin := ⟨w₁, name, (w.advance host).clock, p, w₁.engine.epoch⟩
    have begins : Begins host w origin :=
      ⟨.tail (.single silent) entered, state, found, store, clock, rfl, _, history, rfl⟩
    have ready₁ : Ready host w₁ := by
      refine opened.frame state (world ▸ rfl) ?_ (world ▸ le_rfl)
      rw [history]
      exact fun restored => (restored_append.mp restored).1
    have start : currentPass w₁.history = [] := by rw [history, currentPass_start rfl]
    have steady : Steady host origin w₁ := by
      refine .of_working ⟨.refl, ready₁.toSavable, epoch, le_rfl, ?_, ?_, ?_, ?_, ?_,
        ?_, ?_, ?_⟩
        ready₁ ?_
      · simp [start]
      · exact fun later => absurd later (Nat.lt_irrefl _)
      · rw [history, passHead, List.foldl_append]
        rfl
      · exact (by rw [start, List.append_nil] :
          w₁.history = w₁.history ++ currentPass w₁.history)
      · simp [start]
      · exact fun _ _ => ⟨rfl, p.failures, state ▸ found⟩
      · exact fun _ _ => ⟨p, state ▸ found, .inl rfl⟩
      · rw [start]
        exact fun _ _ some => absurd some (Nat.lt_irrefl 0)
      · simp [start]
    have timely : replenishmentAllowed p.retryAt (w.advance host).clock = true →
        origin.ps.retryAt ≤ origin.at_ := by
      rw [replenishmentAllowed, decide_eq_true_eq]
      exact id
    refine meets_bind.mpr (meets_attempt.mpr ?_)
    have passes {w₂ : World} (working : Working host origin w₂) : origin.at_ ≤ w₂.clock :=
      clock.symm.trans_le working.clock
    refine (reconcile_meets steady start rfl (state ▸ found) timely).mono
      (fun report w₂ reports => ?_) fun fault w₂ halts => ?_
    · refine meets_bind.mpr (meets_engine.mpr (meets_bind.mpr (meets_modify.mpr ?_)))
      refine Meets.mono (?_ : Meets host _ w₂.left (fun _ => Concludes host origin)
        (Collapses host origin)) (fun _ _ done => .passed begins done)
        fun _ _ stopped => ⟨origin, begins, stopped⟩
      cases reports with
      | worked working uninterrupted counts =>
          rw [if_neg (by simp [uninterrupted])]
          exact working.reported (passes working) uninterrupted counts (by simp [origin])
      | finished deleted written savable counts =>
          rw [if_neg (by simp [deleted.uninterrupted])]
          exact deleted.reported savable written counts _
    · cases fault with
      | panic => exact ⟨origin, begins, halts⟩
      | error error =>
          refine meets_bind.mpr (meets_engine.mpr (meets_bind.mpr (meets_modify.mpr ?_)))
          refine Meets.mono (?_ : Meets host _ w₂.left (fun _ => Concludes host origin)
            (Collapses host origin)) (fun _ _ done => .passed begins done)
            fun _ _ stopped => ⟨origin, begins, stopped⟩
          cases halts with
          | faltered faltered =>
              cases interrupted : w₂.engine.interrupted with
              | true => exact faltered.toWorking.abandoned interrupted
              | false =>
                  exact faltered.settled (passes faltered.toWorking) interrupted _
          | halfway deleted half genuine =>
              rw [if_neg (by simp [deleted.uninterrupted])]
              exact deleted.halfway half genuine _

/-- `tick` meets its specification. -/
theorem tick_meets (ready : Ready host w) (idle : w.engine.reconcileEpoch = none) :
    Meets host tick w (fun _ => Ticked host w) (Dies host w) := by
  unfold tick
  refine meets_bind.mpr (meets_getState.mpr (meets_bind.mpr (meets_engine.mpr ?_)))
  split
  · exact .idle .refl ready idle rfl rfl rfl
  · next name chosen =>
      obtain ⟨p, found⟩ := TreeMap.mem_keys.mp (List.mem_of_getElem? chosen)
      refine meets_bind.mpr (meets_modify.mpr ?_)
      generalize turned : ({ w with engine := { w.engine with cursor := w.engine.cursor + 1 } } :
        World) = w₁
      have step : Step host w w₁ := by
        rw [← turned]
        exact .silent rfl rfl rfl rfl rfl le_rfl le_rfl
      have ready₁ : Ready host w₁ := by
        rw [← turned]
        exact ready.frame rfl rfl id le_rfl
      have begins {origin : Origin} (begins : Begins host w₁ origin) : Begins host w origin := by
        subst turned
        exact { begins with steps := .head step begins.steps }
      refine (tickPool_meets ready₁ (by rw [← turned]; exact idle)
        (p := p) (by rw [← turned]; exact found)).mono (fun _ w₂ ticked => ?_)
        fun _ w₂ dies => dies.imp fun _ => And.imp_left begins
      cases ticked with
      | idle steps ready idle history state store =>
          exact .idle (.head step steps) ready idle (history.trans (by rw [← turned]))
            (state.trans (by rw [← turned])) (store.trans (by rw [← turned]))
      | passed begun concludes => exact .passed (begins begun) concludes

/-! ## The pass of a tick -/

/-- The cursor of the pools was advanced, and the clock read. -/
def World.turned (w : World) (host : Host) : World :=
  ({ w with engine := { w.engine with cursor := w.engine.cursor + 1 } } : World).advance host

/-- A tick turned to a pool, and its pass ended in `after` with `result`. -/
structure Passed (host : Host) (w : World) (name : String) (p : PoolState)
    (result : Except Error ReconcileReport) (after : World) : Prop where
  chosen : w.engine.state.pools.keys[w.engine.cursor % w.engine.state.pools.keys.length]? =
    some name
  found : w.engine.state.pools[name]? = some p
  due : ¬ ((w.turned host).clock < p.retryAt ∧ p.retryScope = .observation)
  ran : attempt (reconcile name (replenishmentAllowed p.retryAt (w.turned host).clock)) host
    ((w.turned host).entered name p) = (.ok result, after)

/-- A tick settles the result of its pass. -/
theorem Passed.tick_eq {name : String} {p : PoolState}
    {result : Except Error ReconcileReport} {after : World}
    (passed : Passed host w name p result after) :
    tick host w = (if after.engine.interrupted then save
      else settle name (decide ((w.turned host).clock < p.retryAt)) result) host after.left := by
  obtain ⟨chosen, found, due, ran⟩ := passed
  generalize settled : (if after.engine.interrupted then save
    else settle name (decide ((w.turned host).clock < p.retryAt)) result) host after.left = ended
  refine Meets.run_eq ?_
  unfold tick
  refine meets_bind.mpr (meets_getState.mpr (meets_bind.mpr (meets_engine.mpr ?_)))
  rw [chosen]
  refine meets_bind.mpr (meets_modify.mpr ?_)
  unfold tickPool
  refine meets_bind.mpr (meets_now.mpr (meets_bind.mpr (meets_poolOf.mpr ?_)))
  split
  · next other held =>
    obtain rfl : p = other := Option.some.inj (found.symm.trans held)
    dsimp only
    split
    · next delayed => exact absurd (by simpa [World.turned] using delayed) due
    · refine meets_bind.mpr (meets_record.mpr (meets_bind.mpr (meets_modify.mpr ?_)))
      change Meets host _ ((w.turned host).entered name p) _ _
      have reached : Meets host
          (attempt (reconcile name (replenishmentAllowed p.retryAt (w.turned host).clock)))
          ((w.turned host).entered name p) (fun value w₁ => value = result ∧ w₁ = after)
          (fun _ _ => False) := by
        unfold Meets
        rw [ran]
        exact ⟨rfl, rfl⟩
      refine reached.seq (fun _ _ => False.elim) fun _ _ same => ?_
      obtain ⟨rfl, rfl⟩ := same
      refine meets_bind.mpr (meets_engine.mpr (meets_bind.mpr (meets_modify.mpr ?_)))
      exact .intro (fun _ _ run => settled.symm.trans run) fun _ _ run => settled.symm.trans run
  · next missing => exact absurd (found.symm.trans missing) (by simp)

end Ticks

end Runnerctl
