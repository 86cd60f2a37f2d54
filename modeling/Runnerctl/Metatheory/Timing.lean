import Runnerctl.Metatheory.Reachability
import Runnerctl.Metatheory.Relations

/-!
# Time

The clock does not run backwards: not while the manager works, and not across a crash.  So
the moments of an execution are ordered in time, and all of them lie in the past.
-/

namespace Runnerctl

open Std Program

/-- The moments are ordered in time, and lie in the past. -/
structure Timely (w : World) : Prop where
  ordered : w.history.Pairwise (·.clock ≤ ·.clock)
  past : ∀ m ∈ w.history, m.clock ≤ w.clock

section Timing

variable {host : Host} {w w' : World}

theorem Timely.later (timely : Timely w) (history : w'.history = w.history)
    (clock : w.clock ≤ w'.clock) : Timely w' :=
  ⟨history ▸ timely.ordered, fun m member => (timely.past m (history ▸ member)).trans clock⟩

theorem Timely.log (timely : Timely w) (event : Event) : Timely (w.log event) where
  ordered := by
    refine List.pairwise_append.mpr ⟨timely.ordered, List.pairwise_singleton _ _, ?_⟩
    rintro m member _ (_ | ⟨_, ⟨⟩⟩)
    exact timely.past m member
  past := List.forall_mem_append.mpr ⟨timely.past, by simp [World.moment, World.log]⟩

theorem Timely.advance (timely : Timely w) : Timely (w.advance host) :=
  timely.later rfl (Nat.le_add_right ..)

theorem Timely.withStore (timely : Timely w) (s : State) : Timely (w.withStore s) :=
  timely.later rfl le_rfl

theorem Timely.withFile (timely : Timely w) (text : Option String) : Timely (w.withFile text) :=
  timely.later rfl le_rfl

theorem Timely.setState (timely : Timely w) (s : State) : Timely (w.setState s) :=
  timely.later rfl le_rfl

theorem timely_storeSave (timely : Timely w) (s : State) :
    Meets host (storeSave s) w (fun _ => Timely) (fun _ => Timely) := by
  refine meets_storeSave.mpr ?_
  split
  · exact (timely.advance.withStore s).log _
  · exact timely.advance.log _

theorem timely_save (timely : Timely w) :
    Meets host save w (fun _ => Timely) (fun _ => Timely) :=
  (timely_storeSave timely _).bind fun _ _ timely => timely.later rfl le_rfl

theorem timely_commitConfig (timely : Timely w) (next : Config) :
    Meets host (commitConfig next) w (fun _ => Timely) (fun _ => Timely) := by
  unfold commitConfig
  refine Meets.liftExcept_bind (fun _ _ => timely) fun _ _ => ?_
  refine meets_bind.mpr (meets_printToml.mpr ?_)
  split
  · refine meets_bind.mpr (meets_hash.mpr (meets_bind.mpr (meets_getState.mpr ?_)))
    refine (timely_storeSave timely _).bind fun _ w₁ stored => ?_
    refine meets_bind.mpr (meets_setState.mpr (meets_bind.mpr (meets_writeConfig.mpr ?_)))
    have written {text : Option String} {s : State} :
        Timely (((w₁.setState s).advance host).withFile text) :=
      (stored.setState s).advance.withFile text
    split
    · exact Timely.later ((written.log _).log .cleared) rfl le_rfl
    · split
      · exact written.log _
      · exact (stored.setState _).advance.log _
  · exact timely

theorem timely_rollBack (timely : Timely w) :
    Meets host (do setState (← readBack); publish) w (fun _ => Timely) (fun _ => Timely) := by
  refine meets_bind.mpr (meets_readBack.mpr ?_)
  split
  · exact (timely.advance.log _).later rfl le_rfl
  · exact timely.advance.log _
  · exact timely.advance.log _

/-- Nothing that the manager does turns back the clock. -/
instance : Admits (Respects.Equally Timely) where
  consult := respects_of_meets fun _ _ timely => timely.advance
  record _ := respects_of_meets fun _ _ timely => timely.log _
  engine := respects_of_meets fun _ _ timely => timely
  getState := respects_of_meets fun _ _ timely => timely
  now := respects_of_meets fun _ _ timely => timely.advance
  readConfig := respects_of_meets fun _ _ timely => meets_readConfig.mpr <| by
    split <;> exact timely.advance.log _
  setState _ := respects_of_meets fun _ _ timely => timely.later rfl le_rfl
  save := respects_of_meets fun _ _ => timely_save
  commitConfig next := respects_of_meets fun _ _ timely => timely_commitConfig timely next
  rollBack := respects_of_meets fun _ _ => timely_rollBack
  adjust _ _ same _ := respects_of_meets fun _ w timely => by
    rw [meets_modify, same w]
    exact timely.later rfl le_rfl
  edit _ := respects_of_meets fun _ _ timely => timely.later rfl le_rfl

instance : Reboots (Respects.Equally Timely) :=
  .of_assign fun _ => respects_of_meets fun _ _ timely => timely.later rfl le_rfl

theorem Step.timely (step : Step host w w') (timely : Timely w) : Timely w' := by
  cases step with
  | silent _ _ _ history _ _ clock => exact timely.later history clock
  | leave | observe | forget | drain | note => exact timely.later rfl le_rfl
  | @serve polled request _ _ served =>
      have respects : Respects (Respects.Equally Timely) (serveRequest polled request) :=
        inferInstance
      have kept := respects.preserves host timely
      rwa [served.run] at kept
  | enter => exact (timely.log (.passStarted _ _ _)).later rfl le_rfl
  | log | begin => exact timely.log _
  | edit text => exact (timely.withFile text).log _
  | fail | record => exact (timely.advance.advance.setState _).log _
  | save => exact (timely.withStore w.engine.state).log _
  | @drop name run _ _ p =>
      exact (timely.setState (w.engine.state.dropRun name p run)).log _
  | delete => exact (timely.log (.finalising _)).later rfl le_rfl
  | @commit _ c => exact ((timely.withStore c).log _).later rfl le_rfl
  | write text => exact (timely.withFile (some text)).log _

theorem Steps.timely (steps : Steps host w w') (timely : Timely w) : Timely w' := by
  induction steps with
  | refl => exact timely
  | tail _ step inductionHypothesis => exact step.timely inductionHypothesis

/-- A turn leaves its moments in the past. -/
theorem Turn.timely (turn : Turn host w w') (timely : Timely w) : Timely w' := by
  cases turn with
  | request request =>
      have respects : Respects (Respects.Equally Timely) (serveRequest true request) :=
        inferInstance
      exact respects.preserves host timely
  | tick =>
      have respects : Respects (Respects.Equally Timely) Runnerctl.tick := inferInstance
      exact respects.preserves host timely

/-- The clock of a dead process is that of its last moment. -/
theorem Crash.timely {dead : World} (crash : Crash w w' dead) (timely : Timely w)
    (timely' : Timely w') : Timely dead := by
  cases crash with
  | early effect =>
      have later : Timely { w with asked := w'.asked } := timely.later rfl le_rfl
      exact later.log (.crashed effect)
  | late first m rest effect cut =>
      have whole := timely'.ordered
      rw [cut, List.append_cons, List.pairwise_append] at whole
      have ordered := whole.1
      refine Timely.log (w := { w' with
        store := m.store, file := m.file, clock := m.clock, history := w.history ++ first ++ [m] })
        ⟨ordered, List.forall_mem_append.mpr ⟨fun m' member => ?_, by simp⟩⟩
          (.crashed effect)
      exact (List.pairwise_append.mp ordered).2.2 m' member m (List.mem_singleton_self m)

theorem openEngine_timely (timely : Timely w) : Timely (openEngine host w).2 := by
  have loads : Respects (Respects.Equally Timely) storeLoad :=
    respects_of_meets fun _ _ timely => meets_storeLoad.mpr <| by
      split <;> exact timely.advance
  have saves (s : State) : Respects (Respects.Equally Timely) (storeSave s) :=
    respects_of_meets fun _ _ timely => timely_storeSave timely s
  have attaches (s : State) : Respects (Respects.Equally Timely)
      (modify fun w => { w with engine := Engine.fresh s } : EngineM Unit) :=
    respects_of_meets fun _ _ timely => timely.later rfl le_rfl
  have news (config : Config) (digest : String) :
      Respects (Respects.Equally Timely) (State.new config digest) := by
    unfold State.new
    infer_instance
  have respects : Respects (Respects.Equally Timely) openEngine := by
    unfold openEngine
    repeat' first | infer_instance | refine .seq ?_ fun _ => ?_ | split
  exact respects.preserves host timely

/-- The moments of an execution are ordered in time. -/
theorem Reachable.timely (reachable : Reachable host w) : Timely w := by
  induction reachable with
  | @start text blank after opened =>
      have timely := @openEngine_timely host (.install text blank)
        ⟨.nil, by simp [World.install]⟩
      rwa [opened] at timely
  | request request _ run inductionHypothesis =>
      have timely := Turn.timely (@Turn.request host _ request) inductionHypothesis
      rwa [run] at timely
  | tick _ run inductionHypothesis =>
      have timely := Turn.timely (@Turn.tick host _) inductionHypothesis
      rwa [run] at timely
  | @edit before text _ inductionHypothesis =>
      exact (inductionHypothesis.withFile text).log .edited
  | restart _ turn crash opened inductionHypothesis =>
      have timely := @openEngine_timely host _
        (crash.timely inductionHypothesis (turn.timely inductionHypothesis))
      rwa [opened] at timely

theorem Executed.timely (executed : Executed host w) : Timely w := by
  cases executed with
  | reached reachable => exact reachable.timely
  | ended reachable turn => exact turn.timely reachable.timely

end Timing

end Runnerctl
