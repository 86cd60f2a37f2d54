import Runnerctl.Metatheory.Relations
import Runnerctl.Metatheory.Scripts

/-!
# Memory, store and snapshot

Queries read the state that was last published.  Whatever is published was stored, and
between turns it is what memory and the store hold.
-/

namespace Runnerctl

open Std Program

/-! ## What is published was stored -/

/-- The published state was stored at some moment. -/
def Published (w : World) : Prop :=
  ∃ t, w.engine.snapshot = some t ∧ ∃ m ∈ w.history, m.store = some t

section Published

variable {host : Host} {w w' : World}

theorem Published.later (published : Published w)
    (snapshot : w'.engine.snapshot = w.engine.snapshot) (history : w.history <+: w'.history) :
    Published w' := by
  obtain ⟨t, sent, m, member, stored⟩ := published
  exact ⟨t, snapshot.trans sent, m, history.subset member, stored⟩

/-- What the store held at the last moment is published. -/
theorem Published.publish (published : Published w) {m : Moment} (member : m ∈ w.history)
    (stored : m.store = some w.engine.state) : Published w.published := by
  obtain ⟨t, sent, -⟩ := published
  refine ⟨w.engine.state, ?_, m, member, stored⟩
  rw [World.published, sent, Option.map_some]

theorem published_save (published : Published w) :
    Meets host save w (fun _ => Published) (fun _ => Published) := by
  refine meets_save.mpr ?_
  split
  · have saved : Published (((w.advance host).withStore w.engine.state).log (.saved true)) :=
      published.later rfl (List.prefix_append _ _)
    exact saved.publish (List.mem_append_right _ (List.mem_singleton_self _)) rfl
  · exact published.later rfl (List.prefix_append _ _)

theorem published_commitConfig (published : Published w) (next : Config) :
    Meets host (commitConfig next) w (fun _ => Published) (fun _ => Published) := by
  unfold commitConfig
  refine .liftExcept_bind (fun _ _ => published) fun _ _ => meets_bind.mpr (meets_printToml.mpr ?_)
  split
  · refine meets_bind.mpr (meets_hash.mpr (meets_bind.mpr (meets_getState.mpr
      (meets_bind.mpr (meets_storeSave.mpr ?_)))))
    split
    · refine meets_bind.mpr (meets_setState.mpr (meets_bind.mpr (meets_writeConfig.mpr ?_)))
      have saved {w' : World} (snapshot : w'.engine.snapshot = w.engine.snapshot)
          {new : List Moment} (history : w'.history = w.history ++ new) : Published w' :=
        published.later snapshot (history ▸ List.prefix_append _ _)
      split
      · refine meets_bind.mpr (meets_clearGithub.mpr (meets_publish.mpr ?_))
        refine Published.publish (published.later rfl ?_) (List.mem_append_left _
          (List.mem_append_left _ (List.mem_append_right _ (List.mem_singleton_self _)))) rfl
        exact ((List.prefix_append _ _).trans (List.prefix_append _ _)).trans
          (List.prefix_append _ _)
      · split
        · exact published.later rfl ((List.prefix_append _ _).trans (List.prefix_append _ _))
        · exact published.later rfl ((List.prefix_append _ _).trans (List.prefix_append _ _))
    · exact published.later rfl (List.prefix_append _ _)
  · exact published

theorem published_rollBack (published : Published w) :
    Meets host (do setState (← readBack); publish : EngineM Unit) w (fun _ => Published)
      (fun _ => Published) := by
  refine meets_bind.mpr (meets_readBack.mpr ?_)
  split
  · next state _ stored =>
      refine meets_bind.mpr (meets_setState.mpr (meets_publish.mpr ?_))
      have restored : Published (((w.advance host).log (.readBack true)).setState state) :=
        published.later rfl (List.prefix_append _ _)
      exact restored.publish (List.mem_append_right _ (List.mem_singleton_self _)) stored
  · exact published.later rfl (List.prefix_append _ _)
  · exact published.later rfl (List.prefix_append _ _)

/-- Everything that the manager does leaves a stored state published. -/
instance : Admits (Respects.Equally Published) where
  consult := respects_of_meets fun _ _ published => published.later rfl (List.prefix_refl _)
  record _ := respects_of_meets fun _ _ published => published.later rfl (List.prefix_append _ _)
  engine := respects_of_meets fun _ _ published => published
  getState := respects_of_meets fun _ _ published => published
  now := respects_of_meets fun _ _ published => published.later rfl (List.prefix_refl _)
  readConfig := respects_of_meets fun _ _ published => meets_readConfig.mpr <| by
    split <;> exact published.later rfl (List.prefix_append _ _)
  setState _ := respects_of_meets fun _ _ published => published.later rfl (List.prefix_refl _)
  save := respects_of_meets fun _ _ => published_save
  commitConfig next := respects_of_meets fun _ _ published => published_commitConfig published next
  rollBack := respects_of_meets fun _ _ => published_rollBack
  adjust _ change same kept := respects_of_meets fun _ w published => by
    rw [meets_modify, same w]
    exact published.later (kept w.engine).2.1 (List.prefix_refl _)
  edit _ := respects_of_meets fun _ _ published => published.later rfl (List.prefix_refl _)

instance : Reboots (Respects.Equally Published) :=
  .of_assign fun _ => respects_of_meets fun _ _ published =>
    published.later rfl (List.prefix_refl _)

/-- Between turns the published state is one that was stored. -/
theorem Reachable.published (reachable : Reachable host w) : Published w := by
  have opened {w : World} {t : State} (engine : w.engine = Engine.fresh t)
      (history : ∃ m ∈ w.history, m.store = some t) : Published w :=
    ⟨t, by rw [engine]; rfl, history⟩
  induction reachable with
  | start run =>
      have installed := openEngine_of_install run
      obtain ⟨read, saved, history, -⟩ := installed.history
      refine opened installed.engine ⟨World.moment _ .opened, ?_, installed.store⟩
      rw [history]
      exact List.mem_append_right [read, saved] (List.mem_singleton_self _)
  | request request _ run inductionHypothesis =>
      have respects : Respects (Respects.Equally Published) (serveRequest true request) :=
        inferInstance
      have kept := respects.preserves host inductionHypothesis
      rwa [run] at kept
  | tick _ run inductionHypothesis =>
      have respects : Respects (Respects.Equally Published) Runnerctl.tick := inferInstance
      have kept := respects.preserves host inductionHypothesis
      rwa [run] at kept
  | edit text _ inductionHypothesis =>
      exact inductionHypothesis.later rfl (List.prefix_append _ _)
  | restart reachable turn crash run _ =>
      obtain ⟨ready, idle⟩ := reachable.ready
      obtain ⟨left, effect, rfl, t, stored, -⟩ :=
        (storing_invariant host).crash ready.storing ready idle turn crash
      cases openEngine_of_store (w := left.log (.crashed effect)) stored run
      exact opened rfl ⟨_, List.mem_append_right _ (List.mem_singleton_self _), stored⟩

end Published

/-! ## The three copies -/

/-- Memory was stored, and then published. -/
def Announced (w : World) : Prop :=
  w.store = some w.engine.state ∧
    w.engine.snapshot = w.engine.snapshot.map fun _ => w.engine.state

/-- Memory, store and snapshot are as they were. -/
def Untouched (w w' : World) : Prop :=
  w'.engine.state = w.engine.state ∧ w'.store = w.store ∧
    w'.engine.snapshot = w.engine.snapshot

section Copies

variable {host : Host} {w w' : World}

theorem save_announces (w : World) :
    Meets host save w (fun _ => Announced) (fun _ _ => True) := by
  refine meets_save.mpr ?_
  split
  · refine ⟨rfl, ?_⟩
    simp only [World.published, Option.map_map]
    rfl
  · trivial

theorem commitConfig_announces (next : Config) (w : World) :
    Meets host (commitConfig next) w (fun _ => Announced) (fun _ _ => True) := by
  unfold commitConfig
  refine .last fun _ w₁ => .last fun text w₂ => .last fun digest w₃ => meets_bind.mpr
    (meets_getState.mpr (meets_bind.mpr (meets_storeSave.mpr ?_)))
  split
  · refine meets_bind.mpr (meets_setState.mpr (meets_bind.mpr (meets_writeConfig.mpr ?_)))
    split
    · refine meets_bind.mpr (meets_clearGithub.mpr (meets_publish.mpr ⟨rfl, ?_⟩))
      simp only [World.published, Option.map_map]
      rfl
    · split <;> trivial
  · trivial

/-- Every mutation ends with a save or a commit. -/
theorem handleInner_announces {request : Request} (mutating : request.mutating = true)
    (w : World) :
    Meets host (handleInner request) w (fun _ => Announced) (fun _ _ => True) := by
  have saves {α : Type} (value : α) (w : World) :
      Meets host (save >>= fun _ => pure value) w (fun _ => Announced) (fun _ _ => True) :=
    (save_announces w).bind fun _ _ announced => announced
  unfold handleInner
  refine .when_bind (meets_trivial (if request.changesConfig then cleanFile else pure ()))
    fun _ w _ => ?_
  cases request with
  | status pool => exact absurd mutating Bool.false_ne_true
  | add pool =>
      unfold handleAdd
      refine .last fun _ _ => .last fun _ _ => .last fun _ _ => .last fun _ _ =>
        .last fun _ w => ?_
      exact (commitConfig_announces _ w).bind fun _ _ announced => announced
  | start pool all =>
      unfold handleStart
      exact .last fun _ _ => .last fun _ _ => .last fun _ _ => .last fun _ w => saves _ w
  | stop pool all force =>
      unfold handleStop
      refine .last fun _ _ => .last fun _ w => (save_announces w).bind fun _ _ announced => ?_
      exact announced
  | scale pool replicas =>
      unfold handleScale
      exact .last fun _ _ => .last fun _ _ => .last fun _ _ => .last fun _ _ =>
        .last fun _ _ => .last fun _ w => saves _ w
  | upgrade pool image =>
      unfold handleUpgrade
      exact .last fun _ _ => .last fun _ _ => .last fun _ _ => .last fun _ _ =>
        .last fun _ _ => .last fun _ _ => .last fun _ _ => .last fun _ _ =>
        .last fun _ w => saves _ w
  | remove pool force =>
      unfold handleRemove
      exact .last fun _ _ => .last fun _ _ => .last fun _ w => saves _ w
  | auth profile credential app =>
      unfold handleAuth
      exact .last fun _ _ => .last fun _ _ => .last fun _ _ => .last fun _ _ =>
        .last fun _ w => saves _ w
  | apply text revision =>
      unfold handleApply
      refine .last fun _ _ => .last fun _ _ => .last fun _ _ => .last fun _ _ =>
        .last fun _ _ => .last fun _ _ => .last fun _ _ => .last fun _ _ => .last fun _ _ =>
        .last fun _ _ => .last fun _ _ => .last fun _ w => ?_
      exact (save_announces w).bind fun _ _ announced => announced
  | logs pool id => exact trivial
  | doctor => exact trivial

/-- Memory was stored and published, or a failed request could not be read back. -/
def Settled (w w' : World) : Prop :=
  Announced w' ∨ Untouched w w' ∨ ¬ Restored w'.history

theorem Announced.advanceEpoch (announced : Announced w) : Announced { w with
    engine := { w.engine with epoch := w.engine.epoch + 1 } } := announced

theorem announced_of_readBack {state : State} (stored : w.store = some state) :
    Announced (w.setState state).published := by
  refine ⟨stored, ?_⟩
  simp only [World.published, Option.map_map]
  rfl

/-- A request that is rejected leaves what was read back. -/
theorem rollBack_settles (w w₁ : World) (request : Request) (error : Error) :
    Meets host (do
        setState (← readBack)
        publish
        if request.mutating then
          modify fun w => { w with engine := { w.engine with epoch := w.engine.epoch + 1 } }
        else pure ()
        liftExcept (.error error) : EngineM Response) w₁
      (fun _ => Settled w) (fun _ => Settled w) := by
  refine meets_bind.mpr (meets_readBack.mpr ?_)
  split
  · next state _ stored =>
      refine meets_bind.mpr (meets_setState.mpr (meets_bind.mpr (meets_publish.mpr ?_)))
      have announced : Announced
          ((((w₁.advance host).log (.readBack true)).setState state).published) :=
        announced_of_readBack stored
      split
      · exact .inl announced.advanceEpoch
      · exact .inl announced
  · exact .inr (.inr (by simp [Restored]))
  · exact .inr (.inr (by simp [Restored]))

theorem handleStatus_untouched (pool : Option String) (w : World) :
    Meets host (handleStatus pool) w (fun _ => Untouched w) (fun _ _ => True) := by
  have look : Meets host (do
      let state ← getState
      let pools ← (state.config.pools.filter fun p => pool.all (· == p.name)).mapM
        fun p => do
          let ps ← poolOf p.name
          return poolStatus p ps (state.runsOf ps.id)
      return Response.status state.revision pools) w (fun _ => Untouched w) (fun _ _ => True) := by
    refine meets_bind.mpr (meets_getState.mpr ((Meets.mapM (· = w) (fun entry _ w' same => ?_)
      rfl).bind fun pools w' same => ?_))
    · refine meets_bind.mpr (meets_poolOf.mpr ?_)
      split
      · exact same
      · trivial
    · subst same
      exact ⟨rfl, rfl, rfl⟩
  unfold handleStatus
  cases pool with
  | none => exact look
  | some name =>
      refine meets_bind.mpr (meets_getState.mpr (.ensure_bind (fun _ => trivial) fun _ => ?_))
      exact look

theorem handleInner_settles (request : Request) (w : World) :
    Meets host (handleInner request) w
      (fun _ w' => if request.mutating then Announced w' else Untouched w w')
      (fun _ _ => True) := by
  cases mutating : request.mutating with
  | true => exact handleInner_announces mutating w
  | false =>
      cases request with
      | status pool => exact handleStatus_untouched pool w
      | _ => exact nomatch mutating

/-- A request that is accepted announces what it did; a rejected one is rolled back. -/
theorem handleLocal_settles (request : Request) (w : World) :
    Meets host (handleLocal request) w (fun _ => Settled w)
      (fun fault w' => fault = .panic ∨ Settled w w') := by
  unfold handleLocal
  refine meets_bind.mpr (meets_attempt.mpr ((handleInner_settles request w).mono
    (fun response w₁ done => ?_) fun fault w₁ _ => ?_))
  · cases mutating : request.mutating with
    | true =>
        rw [mutating, if_pos rfl] at done
        exact .inl done.advanceEpoch
    | false =>
        rw [mutating, if_neg Bool.false_ne_true] at done
        exact .inr (.inl done)
  · cases fault with
    | error error =>
        exact (rollBack_settles w w₁ request error).mono (fun _ _ => id) fun _ _ => .inr
    | panic => exact .inl rfl

/-- Every request between turns settles. -/
theorem serveRequest_settles (polled : Bool) (request : Request) (w : World) :
    Meets host (serveRequest polled request) w (fun _ => Settled w)
      (fun fault w' => fault = .panic ∨ Settled w w') := by
  have logged {w' : World} {event : Event} (settled : Settled (w.log (.received request)) w')
      : Settled w (w'.log event) := by
    refine settled.imp id (Or.imp id fun unrestored restored => unrestored ?_)
    exact (restored_append.mp restored).1
  unfold serveRequest
  refine meets_bind.mpr (meets_getState.mpr (meets_bind.mpr (meets_record.mpr
    (meets_bind.mpr (meets_attempt.mpr ((handleLocal_settles request _).mono
      (fun response w₁ settled => ?_) fun fault w₁ stopped => ?_))))))
  · exact logged settled
  · cases fault with
    | error error => exact logged (stopped.resolve_left nofun)
    | panic => exact .inl rfl

/-- A tick that returns has saved, or has done nothing. -/
theorem tick_settles (w : World) :
    Meets host tick w (fun _ => Settled w) (fun _ _ => True) := by
  have saves (w₁ : World) : Meets host save w₁ (fun _ => Settled w) (fun _ _ => True) :=
    (save_announces w₁).mono (fun _ _ announced => .inl announced) fun _ _ => id
  have finishes (name : String) (w₁ : World) :
      Meets host (finishTick name) w₁ (fun _ => Settled w) (fun _ _ => True) := by
    unfold finishTick
    refine meets_bind.mpr (meets_getState.mpr ?_)
    split
    · exact .last fun _ _ => .last fun _ _ => .last fun _ w₂ => saves w₂
    · exact saves w₁
  have settles (name : String) (retrying : Bool) (result : Except Error ReconcileReport)
      (w₁ : World) :
      Meets host (settle name retrying result) w₁ (fun _ => Settled w) (fun _ _ => True) := by
    unfold settle
    split
    · dsimp only
      split
      · exact .last fun _ w₂ => finishes name w₂
      · split
        · exact finishes name w₁
        · refine .last fun _ w₂ => ?_
          split
          · exact .last fun _ _ => .last fun _ w₃ => finishes name w₃
          · exact finishes name w₂
    · exact saves w₁
    · refine .last fun _ w₂ => .last fun _ w₃ => ?_
      split
      · exact .last fun _ _ => .last fun _ w₄ => finishes name w₄
      · exact finishes name w₃
  unfold tick
  refine meets_bind.mpr (meets_getState.mpr (meets_bind.mpr (meets_engine.mpr ?_)))
  split
  · exact .inr (.inl ⟨rfl, rfl, rfl⟩)
  · next name _ =>
      refine meets_bind.mpr (meets_modify.mpr ?_)
      unfold tickPool
      refine meets_bind.mpr (meets_now.mpr (meets_bind.mpr (meets_poolOf.mpr ?_)))
      split
      · dsimp only
        split
        · exact .inr (.inl ⟨rfl, rfl, rfl⟩)
        · refine .last fun _ _ => .last fun _ _ => .last fun result _ => .last fun _ _ =>
            .last fun _ w₂ => ?_
          split
          · exact saves w₂
          · exact settles name _ result w₂
      · trivial

theorem Ticked.advances (ticked : Ticked host w w') : Advances w w' := by
  cases ticked with
  | idle steps => exact Steps.advances steps
  | passed begins concludes => exact Steps.advances (begins.steps.trans concludes.steps)

/-- Between turns memory, store and snapshot are the same state. -/
theorem copies_agree (reachable : Reachable host w) (restored : Restored w.history) :
    w.store = some w.engine.state ∧ w.engine.snapshot = some w.engine.state := by
  have settled {w w' : World} (before : w.store = some w.engine.state ∧
      w.engine.snapshot = some w.engine.state) (published : Published w')
      (restored : Restored w'.history) (settled : Settled w w') :
      w'.store = some w'.engine.state ∧ w'.engine.snapshot = some w'.engine.state := by
    obtain ⟨t, sent, -⟩ := published
    rcases settled with ⟨stored, same⟩ | ⟨state, store, snapshot⟩ | unrestored
    · rw [sent, Option.map_some] at same
      exact ⟨stored, sent.trans same⟩
    · rw [state, store, snapshot]
      exact before
    · exact absurd restored unrestored
  have published := reachable.published
  induction reachable with
  | start run =>
      have installed := openEngine_of_install run
      refine ⟨installed.store, ?_⟩
      rw [installed.engine]
      rfl
  | request request earlier run inductionHypothesis =>
      have settles := (serveRequest_settles true request _).returned run
      have grows := (serveRequest_meets host true request _).returned run
      exact settled (inductionHypothesis (restored_of_grows grows.grows restored)
        earlier.published) published restored settles
  | tick earlier run inductionHypothesis =>
      obtain ⟨ready, idle⟩ := earlier.ready
      have settles := (tick_settles _).returned run
      have continues := ((tick_meets ready idle).returned run).advances.history
      exact settled (inductionHypothesis (fun m member => restored m (continues.subset member))
        earlier.published) published restored settles
  | edit text earlier inductionHypothesis =>
      exact inductionHypothesis (restored_append.mp restored).1 earlier.published
  | restart earlier turn crash run _ =>
      obtain ⟨ready, idle⟩ := earlier.ready
      obtain ⟨left, effect, rfl, t, stored, -⟩ :=
        (storing_invariant host).crash ready.storing ready idle turn crash
      cases openEngine_of_store (w := left.log (.crashed effect)) stored run
      exact ⟨stored, rfl⟩

/-- A pool is scaled although `config.toml` cannot be written, and the state is read back. -/
theorem copies_agree_sample : ∃ w : World, w.engine.state.revision = 2 ∧ w.file = some "" ∧
    w.store = some w.engine.state ∧ w.engine.snapshot = some w.engine.state := by
  let host : Host := .scripted [.sample [.sample "a" 1], .sample [.sample "a" 2]]
    fun n answers => if n = 7 then { answers with succeeds := false } else answers
  obtain ⟨w, reachable, holds⟩ := @Host.reaches host "" .blank [.request (.scale "a" 2), .tick]
    (fun w => w.engine.state.revision == 2 && w.file == some "" && decide (Restored w.history))
    (by decide +kernel)
  simp only [Bool.and_eq_true, beq_iff_eq, decide_eq_true_eq] at holds
  obtain ⟨⟨revision, unwritten⟩, restored⟩ := holds
  exact ⟨w, revision, unwritten, copies_agree reachable restored⟩

end Copies

end Runnerctl
