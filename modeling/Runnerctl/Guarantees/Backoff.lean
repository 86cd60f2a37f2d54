import Runnerctl.Metatheory.Scripts

/-!
# What a failed pass leaves

A tick survives its pass, unless the pass leaves a deletion half done; a pass that failed
delays the next one of its pool.  Unexpected exits pause a pool, unless a request interrupts
the pass that counted them.
-/

namespace Runnerctl

open Std Program Journal

/-- A tick made a pass that took a pool out of memory, but did not get to write the
configuration without it. -/
def Halfway (w w' : World) : Prop :=
  w'.history ≠ w.history ∧ halfDeleted (currentPass w'.history) = true

/-- Observations of a pool are delayed beyond the clock of `w`. -/
def BackedOff (name : String) (w w' : World) : Prop :=
  ∃ p, w'.engine.state.pools[name]? = some p ∧ w.clock < p.retryAt ∧
    p.retryScope = .observation

section Backoff

variable {host : Host} {w w' after : World} {origin : Origin}

/-- The end of a tick leaves the deadlines. -/
theorem finishTick_backedOff (name : String) {w₀ : World} (delayed : BackedOff name w₀ w) :
    Meets host (finishTick name) w (fun _ => BackedOff name w₀) (fun _ _ => True) := by
  obtain ⟨p, found, late, scope⟩ := delayed
  have saves {w : World} (delayed : BackedOff name w₀ w) :
      Meets host save w (fun _ => BackedOff name w₀) (fun _ _ => True) := by
    refine meets_save.mpr ?_
    split
    · exact delayed
    · trivial
  unfold finishTick
  refine meets_bind.mpr (meets_getState.mpr ?_)
  rw [found]
  refine meets_bind.mpr (meets_now.mpr (meets_bind.mpr (meets_getState.mpr
    (meets_bind.mpr (meets_setState.mpr (saves
      ⟨_, TreeMap.get_insert_self _ _ _, late, scope⟩))))))

/-- A pass that failed delays the next one, if its pool is there. -/
theorem settle_backedOff (name : String) (retrying : Bool) (text : String) (w : World) :
    Meets host (settle name retrying (.error (.msg text))) w (fun _ => BackedOff name w)
      (fun _ _ => True) := by
  have record : Meets host (recordFailure name (Error.msg text).text .observation) w
      (fun _ => BackedOff name w) (fun _ _ => True) := by
    unfold recordFailure
    refine meets_bind.mpr (meets_now.mpr (meets_bind.mpr (meets_getState.mpr ?_)))
    refine Meets.context_bind (fun _ => trivial) fun p found => ?_
    have later : w.clock ≤ (w.advance host).clock := Nat.le_add_right ..
    split
    · next pending =>
        simp only [Bool.and_eq_true, decide_eq_true_eq, beq_iff_eq] at pending
        exact ⟨p, found, later.trans_lt pending.1, pending.2⟩
    · refine meets_bind.mpr (meets_consult.mpr (meets_bind.mpr (meets_getState.mpr
        (meets_bind.mpr (meets_setState.mpr (meets_record.mpr ?_))))))
      refine ⟨_, TreeMap.get_insert_self _ _ _, ?_, rfl⟩
      exact later.trans_lt (Nat.lt_add_of_pos_right (retryDelay_pos _ _))
  unfold settle
  refine record.bind fun _ w₁ delayed => meets_bind.mpr (meets_getState.mpr ?_)
  split
  · exact meets_bind.mpr (meets_getState.mpr (meets_bind.mpr (meets_setState.mpr
      (finishTick_backedOff name delayed))))
  · exact finishTick_backedOff name delayed

/-- A tick in which SQLite works returns, unless it leaves a deletion half done; and a pass
that failed without an interruption delays the next pass of its pool. -/
theorem tick_survives {outcome : Except (Fault Error) Unit} (reachable : Reachable host w)
    (run : tick host w = (outcome, w')) (restored : Restored w'.history)
    (fresh : Fresh host w'.asked) (saved : ∀ m ∈ w.since w', m.event ≠ .saved false) :
    (outcome = .ok () ↔ ¬ Halfway w w') ∧
      ∀ (name : String) (p : PoolState) (text : String) (after : World),
        Passed host w name p (.error (.msg text)) after → after.engine.interrupted = false →
          outcome = .ok () → BackedOff name after w' := by
  obtain ⟨ready, idle⟩ := reachable.ready
  refine ⟨?_, fun name p text after passed uninterrupted returned => ?_⟩
  · match outcome with
    | .ok () =>
        refine ⟨fun _ ⟨changed, halfway⟩ => ?_, fun _ => rfl⟩
        cases (tick_meets ready idle).returned run with
        | idle _ _ _ same => exact changed same
        | passed _ concludes => simp [concludes.whole restored fresh] at halfway
    | .error fault =>
        refine ⟨nofun, fun whole => (whole ?_).elim⟩
        obtain ⟨origin, begins, collapses⟩ := (tick_meets ready idle).stopped run
        cases fault with
        | panic => exact absurd fresh (collapses.unsound restored)
        | error error =>
            obtain ⟨m, rest, history, event, pass⟩ := begins.history_eq collapses.steps
            refine ⟨fun same => by simp [history] at same, ?_⟩
            refine (collapses.cause restored fresh).resolve_left fun ⟨m', member, failed⟩ => ?_
            refine saved m' ?_ failed
            rw [World.since, history, List.drop_left]
            exact List.mem_cons_of_mem _ (mem_of_currentPass (pass ▸ member))
  · subst returned
    have settled := passed.tick_eq.symm.trans run
    rw [uninterrupted, if_neg Bool.false_ne_true] at settled
    exact (settle_backedOff name _ text after.left).returned settled

/-- A moment is no save of the state that failed. -/
def Moment.savedWell (m : Moment) : Bool :=
  m.event matches .saved true || !(m.event matches .saved _)

/-- A tick that cannot list the containers returns, and delays the next pass. -/
theorem tick_survives_sample : ∃ (host : Host) (w : World),
    (tick host w).1 = .ok () ∧ ¬ Halfway w (tick host w).2 ∧
      ∃ p, (tick host w).2.engine.state.pools["a"]? = some p ∧ p.failures = 1 := by
  let host : Host := .scripted [.sample [.sample "a" 1]] fun n answers =>
    if n = 7 then { answers with reply := fun _ => .error "failure" } else answers
  obtain ⟨w, reachable, holds⟩ := @Host.reaches host "" .blank
    [.request (.start (some "a") false)]
    (fun w => (tick host w).1.isOk &&
      (tick host w).2.engine.state.pools["a"]?.any (·.failures == 1) &&
        (decide (Restored (tick host w).2.history) && decide ((tick host w).2.asked ≤ 10 ^ 32) &&
          (w.since (tick host w).2).all (·.savedWell))) (by decide +kernel)
  simp only [Bool.and_eq_true, beq_iff_eq, decide_eq_true_eq, Option.any_eq_true,
    List.all_eq_true] at holds
  obtain ⟨⟨returned, failed⟩, ⟨restored, fresh⟩, saved⟩ := holds
  replace fresh := fresh_of_scripted host
    (fun n => by dsimp only [host, Host.scripted]; split <;> rfl) fresh
  have run := returned_of_isOk returned
  have survives := tick_survives reachable run restored fresh fun m member event => by
    have := saved m member
    simp [Moment.savedWell, event] at this
  exact ⟨host, w, congrArg Prod.fst run, survives.1.mp rfl, failed⟩

/-- Deleting a pool fails to write `config.toml`, and the manager stops. -/
theorem tick_fails_on_deletion : ∃ (host : Host) (w w' : World) (error : Error),
    Reachable host w ∧ tick host w = (.error (.error error), w') ∧ Restored w'.history ∧
      Fresh host w'.asked ∧ ∀ m ∈ w.since w', m.event ≠ .saved false := by
  let host : Host := .scripted [.sample [.sample "a" 1], .sample []] fun n answers =>
    if n = 10 then { answers with succeeds := false } else answers
  obtain ⟨w, reachable, holds⟩ := @Host.reaches host "" .blank
    [.request (.remove "a" false)]
    (fun w => errs (tick host w).1 &&
      (decide (Restored (tick host w).2.history) && decide ((tick host w).2.asked ≤ 10 ^ 32) &&
        (w.since (tick host w).2).all (·.savedWell))) (by decide +kernel)
  simp only [Bool.and_eq_true, decide_eq_true_eq, List.all_eq_true] at holds
  obtain ⟨fails, ⟨restored, fresh⟩, saved⟩ := holds
  replace fresh := fresh_of_scripted host
    (fun n => by dsimp only [host, Host.scripted]; split <;> rfl) fresh
  obtain ⟨error, run⟩ := failed_of_errs fails
  refine ⟨host, w, _, error, reachable, run, restored, fresh, fun m member event => ?_⟩
  have := saved m member
  simp [Moment.savedWell, event] at this

/-! ## Unexpected exits -/

/-- The pool has an error, and is not provisioned before a time after `at_`. -/
def PausedAfter (name : String) (at_ : Nat) (w : World) : Prop :=
  ∃ p, w.engine.state.pools[name]? = some p ∧ p.error.isSome = true ∧ at_ < p.retryAt

/-- A tick that counted an unexpected exit leaves its pool paused, unless a request
interrupted the pass and the pool was not paused before. -/
theorem exits_recorded {name : String} {at_ retryAt : Nat} (reachable : Reachable host w)
    (run : tick host w = (.ok (), w')) (restored : Restored w'.history)
    (fresh : Fresh host w'.asked) (passed : w'.history ≠ w.history)
    (head : passHead w'.history = some (name, at_, retryAt))
    (exited : ∃ m ∈ currentPass w'.history, m.counted = true)
    (kept : ∀ m ∈ currentPass w'.history, ¬ m.Resets name) :
    PausedAfter name at_ w' ↔
      (∀ m ∈ currentPass w'.history, m.mutation = false) ∨ at_ < retryAt := by
  obtain ⟨ready, idle⟩ := reachable.ready
  cases (tick_meets ready idle).returned run with
  | idle _ _ _ same => exact absurd same passed
  | @passed origin _ concludes =>
      cases concludes.head.symm.trans head
      have counted : 0 < exits (currentPass w'.history) := List.countP_pos_iff.mpr exited
      by_cases calm : ∀ m ∈ currentPass w'.history, m.mutation = false
      · exact iff_of_true (concludes.paused restored fresh counted calm) (.inl calm)
      · rw [or_iff_right calm]
        simp only [not_forall, Bool.not_eq_false] at calm
        obtain ⟨m, member, mutation⟩ := calm
        obtain ⟨p, found, deadline⟩ := concludes.unmoved restored fresh
          ⟨m, member, mutation⟩
        have same : p.retryAt = origin.ps.retryAt :=
          deadline.resolve_right fun ⟨_, m', member', resets⟩ => kept m' member' resets
        constructor
        · rintro ⟨q, there, -, late⟩
          cases found.symm.trans there
          rwa [same] at late
        · intro late
          have sound := (concludes.ready.sound restored fresh).1
          exact ⟨p, found, sound.noted found (by omega), by rwa [same]⟩

/-- No request was handled that could reset a retry state. -/
def Event.resetless : Event → Bool
  | .handled _ (.start _ _) _ _ | .handled _ (.stop _ _ _) _ _ | .handled _ (.remove _ _) _ _
  | .handled _ (.auth _ _ _) _ _ => false
  | _ => true

theorem Event.not_resets {m : Moment} {name : String} (resetless : m.event.resetless = true) :
    ¬ m.Resets name := by
  rintro ⟨_, request, _, _, event, resets⟩
  rw [event] at resetless
  cases request <;> simp_all [Event.resetless, Request.resets]

/-- A run exits, and nothing interrupts the pass that finds out. -/
theorem exits_recorded_sample : ∃ (host : Host) (w : World),
    (∃ m ∈ currentPass (tick host w).2.history, m.counted = true) ∧
      PausedAfter "a" 36 (tick host w).2 := by
  let host : Host := .scripted [.sample [.sample "a" 2]] fun _ => id
  obtain ⟨w, reachable, holds⟩ := @Host.reaches host "" .blank
    [.request (.start (some "a") false), .tick, .tick]
    (fun w =>
      let w' := (tick host w).2
      (tick host w).1.isOk && (passHead w'.history == some ("a", 36, 0) &&
        ((currentPass w'.history).any (·.counted) &&
          ((currentPass w'.history).all fun m => !m.mutation && m.event.resetless) &&
            (decide (Restored w'.history) && decide (w'.asked ≤ 10 ^ 32) &&
              decide (w.history.length < w'.history.length))))) (by decide +kernel)
  simp only [Bool.and_eq_true, beq_iff_eq, decide_eq_true_eq, List.any_eq_true,
    List.all_eq_true, Bool.not_eq_true'] at holds
  obtain ⟨returned, head, ⟨exited, calm⟩, ⟨restored, fresh⟩, longer⟩ := holds
  replace fresh := fresh_of_scripted host (fun _ => rfl) fresh
  refine ⟨host, w, exited, (exits_recorded reachable (returned_of_isOk returned) restored fresh
    (fun same => ?_) head exited fun m member => Event.not_resets (calm m member).2).mpr
      (.inl fun m member => (calm m member).1)⟩
  rw [same] at longer
  exact Nat.lt_irrefl _ longer

/-- A pass counts an exit, and is then interrupted while it awaits an image. -/
theorem exit_forgotten : ∃ (host : Host) (w : World), Reachable host w ∧
    tick host w = (.ok (), (tick host w).2) ∧ Restored (tick host w).2.history ∧
    Fresh host (tick host w).2.asked ∧ (tick host w).2.history ≠ w.history ∧
    passHead (tick host w).2.history = some ("a", 36, 0) ∧
    (∃ m ∈ currentPass (tick host w).2.history, m.counted = true) ∧
    (∀ m ∈ currentPass (tick host w).2.history, ¬ m.Resets "a") ∧
    ¬ PausedAfter "a" 36 (tick host w).2 := by
  let host : Host := .scripted [.sample [.sample "a" 2], .sample [.sample "a" 3]]
    fun n answers =>
      if n = 42 then { answers with during := [.request (.scale "a" 3)] } else answers
  obtain ⟨w, reachable, holds⟩ := @Host.reaches host "" .blank
    [.request (.start (some "a") false), .tick, .tick]
    (fun w =>
      let w' := (tick host w).2
      (tick host w).1.isOk && (passHead w'.history == some ("a", 36, 0) &&
        ((currentPass w'.history).any (·.counted) &&
          ((currentPass w'.history).all fun m => m.event.resetless) &&
            (w'.engine.state.pools["a"]?.all (fun p => p.retryAt == 0) &&
              decide (Restored w'.history) && decide (w'.asked ≤ 10 ^ 32) &&
                decide (w.history.length < w'.history.length))))) (by decide +kernel)
  simp only [Bool.and_eq_true, beq_iff_eq, decide_eq_true_eq, List.any_eq_true,
    List.all_eq_true, Option.all_eq_true] at holds
  obtain ⟨returned, head, ⟨exited, calm⟩, ⟨⟨unpaused, restored⟩, fresh⟩, longer⟩ :=
    holds
  replace fresh := fresh_of_scripted host
    (fun n => by dsimp only [host, Host.scripted]; split <;> rfl) fresh
  refine ⟨host, w, reachable, returned_of_isOk returned, restored, fresh, fun same => ?_, head,
    exited, fun m member => Event.not_resets (calm m member), ?_⟩
  · rw [same] at longer
    exact Nat.lt_irrefl _ longer
  · rintro ⟨p, found, -, late⟩
    rw [unpaused p found] at late
    exact absurd late (by decide)

end Backoff

end Runnerctl
