import Runnerctl.Metatheory.Reachability

/-!
# The causes of moments

Every moment of an execution was added by a step, by the handling of a request, or by an
installation or a restart.  What an execution does at its moments is read off the cause.
-/

namespace Runnerctl

open Std Program Journal

/-- What added a moment to the history `first`, when at most `n` questions were asked. -/
inductive Caused (host : Host) (holds : World → Prop) (n : Nat) (first : List Moment)
    (m : Moment) : Prop where
  | installed {text : String} {w : World} {rest : List Moment} :
      Installed host text w → holds w → w.asked ≤ n → w.history = first ++ m :: rest →
      Caused host holds n first m
  | stepped {w w' : World} :
      holds w → Step host w w' → holds w' → w'.asked ≤ n → first = w.history →
      w'.history = w.history ++ [m] → m.store = w'.store → Caused host holds n first m
  /-- A request is being handled. -/
  | handling {w : World} {request : Request} {hi : Nat} {new : List Moment} :
      holds w → Ready host w → Handling host request w hi (new ++ [m]) m.store → hi ≤ n →
      first = w.history ++ new → Caused host holds n first m
  /-- A request was handled. -/
  | handled {w w' : World} {polled : Bool} {request : Request} {new : List Moment}
      {result : Except Error Response} :
      holds w → Ready host w → Served host polled request w w' → holds w' →
        w'.asked ≤ n →
      first = w.history ++ new → w'.history = w.history ++ new ++ [m] →
      m = w'.moment (.handled polled request w.engine.state result) →
      Caused host holds n first m
  | crashed {effect : Bool} :
      m.event = .crashed effect → Storing host n first m.store → Caused host holds n first m
  | reopened {w : World} {t : State} :
      holds w → w.asked ≤ n → w.engine = Engine.fresh t → w.store = some t →
      w.history = first ++ [m] → m = w.moment .opened → Caused host holds n first m

/-- Events that only the steps of a tick add. -/
def Event.ofStep : Event → Bool
  | .began _ | .newRun _ | .droppedRun _ _ | .finalising _ | .failed _ _ => true
  | _ => false

/-- What the manager has checked in `w` when it adds the moment. -/
def Moment.Guarded (host : Host) (w : World) (m : Moment) : Prop :=
  match m.event with
  | .began op => m.state = w.engine.state ∧ Ready host w ∧ Licensed w op ∧
      ∃ before queued, currentPass w.history = before ++ queued ∧ Undisturbed before ∧
        ∀ m ∈ queued, m.event.polled = false
  | .newRun run => m.state = w.engine.state.setRun run.id run ∧
      Undisturbed (currentPass w.history) ∧
        (∀ m ∈ currentPass w.history, m.births = false) ∧
        (Restored w.history → Provisions w run)
  | .droppedRun run interrupted => ∃ name p recorded,
      m.state = w.engine.state.dropRun name p run ∧ Undisturbed (currentPass w.history) ∧
        (∀ m ∈ currentPass w.history, m.births = false) ∧
        w.engine.state.runs[run.id]? = some recorded ∧ run.key = recorded.key ∧
        Forgotten w.engine.state.managerId run (currentPass w.history) ∧
        Judged host w.engine.state.managerId run interrupted (currentPass w.history) ∧
        (run.completedJob = true → w.TurnedTo name ∧ w.engine.state.pools[name]? = some p ∧
          (Restored w.history → p.id = run.poolId))
  | .finalising _ => Undisturbed (currentPass w.history) ∧ Clean host w.file w.engine.state
  | .failed name scope => ∃ p error at_ jitter,
      m.state = w.engine.state.setPool name (p.failed scope error at_ jitter) ∧
        Undisturbed (currentPass w.history) ∧ w.engine.state.pools[name]? = some p ∧
        (scope = .provisioning → 0 < exits (currentPass w.history) ∧
          (Restored w.history → Fresh host w.asked → p.running = true ∧ p.deleting = false))
  | .handled _ _ _ _ => False
  | _ => True

section Causes

variable {host : Host} {w w' : World} {holds : World → Prop}
  {durable : Nat → List Moment → Option State → Prop}

theorem Caused.mono {n n' : Nat} {first : List Moment} {m : Moment}
    (caused : Caused host holds n first m) (le : n ≤ n') : Caused host holds n' first m := by
  cases caused with
  | installed installed holding asked history =>
      exact .installed installed holding (asked.trans le) history
  | stepped holding step held asked before history store =>
      exact .stepped holding step held (asked.trans le) before history store
  | handling holding ready handling asked before =>
      exact .handling holding ready handling (asked.trans le) before
  | handled holding ready served held asked before history same =>
      exact .handled holding ready served held (asked.trans le) before history same
  | crashed event storing => exact .crashed event (storing.mono le id)
  | reopened holding asked engine store history same =>
      exact .reopened holding (asked.trans le) engine store history same

/-- The moments of a request that is being handled. -/
theorem caused_handling {request : Request} {n : Nat} {new : List Moment}
    {store : Option State} (holding : holds w) (ready : Ready host w)
    (handling : Handling host request w n new store) :
    Recorded (fun first m => Caused host holds n (w.history ++ first) m) new := by
  rintro first m rest rfl
  exact .handling holding ready handling.cut le_rfl rfl

/-- A step adds moments that it causes. -/
theorem Step.caused (holding : holds w) (step : Step host w w') (held : holds w')
    (recorded : Recorded (Caused host holds w.asked) w.history) :
    Recorded (Caused host holds w'.asked) w'.history := by
  have before := recorded.mono fun _ _ caused => caused.mono step.advances.asked
  rcases step.moments with same | ⟨m, history, store⟩ | ⟨polled, request, ready, served⟩
  · rwa [same]
  · rw [history, recorded_concat]
    exact ⟨before, .stepped holding step held le_rfl rfl history store⟩
  · obtain ⟨w₁, result, pending, last⟩ := served.pending
    obtain ⟨new, history, handling⟩ := pending.handling
    have asked : w₁.asked = w'.asked := by rw [last, World.log_asked]
    have whole : w'.history = w.history ++ new ++
        [w'.moment (.handled polled request w.engine.state result)] := by
      rw [last, World.log_history, history]
      rfl
    rw [whole, recorded_concat, recorded_append]
    refine ⟨⟨before, asked ▸ caused_handling holding ready handling⟩, ?_⟩
    exact .handled holding ready served held le_rfl rfl whole rfl

/-- A step has checked what guards its moment. -/
theorem Step.guarded (step : Step host w w') {m : Moment}
    (history : w'.history = w.history ++ [m]) : m.Guarded host w := by
  have added {event : Event} (same : w'.history = w.history ++ [w'.moment event]) :
      m = w'.moment event :=
    (List.cons.inj (List.append_cancel_left (history.symm.trans same))).1
  have unmoved {P : Prop} (same : w'.history = w.history) : P := by
    simp [same] at history
  cases step with
  | silent _ _ _ same => exact unmoved same
  | leave | observe | forget | drain | note => exact unmoved rfl
  | serve _ served =>
      obtain ⟨inner, result, moments, -⟩ := served.outcome
      rw [history, List.append_assoc] at moments
      simp at moments
  | log plain =>
      cases added rfl
      unfold Moment.Guarded
      split <;> simp_all [Event.plain]
  | begin ready licensed pass undisturbed queued =>
      cases added rfl
      exact ⟨rfl, ready, licensed, _, _, pass, undisturbed, queued⟩
  | fail _ undisturbed _ found _ _ licensed =>
      cases added rfl
      exact ⟨_, _, _, _, rfl, undisturbed, found, licensed⟩
  | drop undisturbed unborn found same forgotten judged completed =>
      cases added rfl
      exact ⟨_, _, _, rfl, undisturbed, unborn, found, same, forgotten, judged, completed⟩
  | record undisturbed unborn _ _ _ provisions =>
      cases added rfl
      exact ⟨rfl, undisturbed, unborn, provisions⟩
  | delete undisturbed clean =>
      cases (List.cons.inj (List.append_cancel_left history)).1
      exact ⟨undisturbed, clean⟩
  | commit =>
      cases (List.cons.inj (List.append_cancel_left history)).1
      trivial
  | enter | edit | save | write =>
      cases added rfl
      trivial

/-- Only the end of a request is recorded as such. -/
theorem Caused.served {n : Nat} {first : List Moment} {m : Moment}
    (caused : Caused host holds n first m) {polled : Bool} {request : Request} {before : State}
    {result : Except Error Response} (event : m.event = .handled polled request before result) :
    ∃ w w' new, holds w ∧ Ready host w ∧ Served host polled request w w' ∧
      w'.asked ≤ n ∧
      before = w.engine.state ∧ first = w.history ++ new ∧
        w'.history = w.history ++ new ++ [m] ∧ m = w'.moment m.event := by
  cases caused with
  | @installed _ _ rest installed _ _ history =>
      obtain ⟨read, saved, moments, readEvent, -, -, savedEvent, -⟩ := installed.history
      have member : m ∈ first ++ m :: rest := by simp
      rw [← history, moments] at member
      simp only [List.mem_cons, List.not_mem_nil, or_false] at member
      rcases member with rfl | rfl | rfl
      · cases readEvent.symm.trans event
      · cases savedEvent.symm.trans event
      · cases event
  | stepped _ step _ _ _ history _ =>
      have guarded := step.guarded history
      rw [Moment.Guarded, event] at guarded
      exact guarded.elim
  | handling _ _ handling =>
      obtain ⟨inner, arrived, between⟩ := handling.arrived
      cases List.mem_cons.mp (arrived ▸ List.mem_append_right _ (List.mem_singleton_self m)) with
      | inl same =>
          subst same
          cases event
      | inr member =>
          have inside := between m member
          simp [event, Event.between, Event.inner] at inside
  | handled holding ready served _ asked same history last =>
      subst last
      cases event
      exact ⟨_, _, _, holding, ready, served, asked, rfl, same, history, rfl⟩
  | crashed same => cases same.symm.trans event
  | reopened _ _ _ _ _ same =>
      subst same
      cases event

/-- What only a step adds was added by one, and is guarded. -/
theorem Caused.guarded {n : Nat} {first : List Moment} {m : Moment}
    (caused : Caused host holds n first m) (ofStep : m.event.ofStep = true) :
    ∃ w w', holds w ∧ Step host w w' ∧ holds w' ∧ w'.asked ≤ n ∧ first = w.history ∧
      w'.history = w.history ++ [m] ∧ m.Guarded host w := by
  cases caused with
  | @installed _ _ rest installed _ _ history =>
      obtain ⟨read, saved, moments, readEvent, -, -, savedEvent, -⟩ := installed.history
      have member : m ∈ first ++ m :: rest := by simp
      rw [← history, moments] at member
      simp only [List.mem_cons, List.not_mem_nil, or_false] at member
      rcases member with rfl | rfl | rfl
      · simp [readEvent, Event.ofStep] at ofStep
      · simp [savedEvent, Event.ofStep] at ofStep
      · cases ofStep
  | stepped holding step held asked before history _ =>
      exact ⟨_, _, holding, step, held, asked, before, history, step.guarded history⟩
  | handling _ _ handling =>
      obtain ⟨inner, arrived, between⟩ := handling.arrived
      cases List.mem_cons.mp (arrived ▸ List.mem_append_right _ (List.mem_singleton_self m)) with
      | inl same =>
          subst same
          cases ofStep
      | inr member =>
          have inside := between m member
          cases event : m.event <;>
            simp_all [Event.ofStep, Event.between, Event.inner]
  | handled _ _ _ _ _ _ _ same =>
      subst same
      cases ofStep
  | crashed event => simp [event, Event.ofStep] at ofStep
  | reopened _ _ _ _ _ same =>
      subst same
      cases ofStep

namespace Invariant

/-- Along with an invariant the causes of all moments are known. -/
theorem causes (invariant : Invariant host holds durable) :
    Invariant host
      (fun w => holds w ∧ Storing host w.asked w.history w.store ∧
        Recorded (Caused host holds w.asked) w.history)
      (fun n history store => durable n history store ∧ Storing host n history store ∧
        Recorded (Caused host holds n) history) where
  start {_ after} installed := by
    have holding := invariant.start installed
    refine ⟨holding, installed.storing, fun first m rest history => ?_⟩
    exact .installed installed holding le_rfl history
  step := fun ⟨holding, storing, recorded⟩ step =>
    have held := invariant.step holding step
    ⟨held, (storing_invariant host).step storing step, step.caused holding held recorded⟩
  survives := fun ⟨holding, storing, recorded⟩ =>
    ⟨invariant.survives holding, storing, recorded⟩
  served := fun ⟨holding, storing, recorded⟩ ready handling =>
    ⟨invariant.served holding ready handling,
      (storing_invariant host).served storing ready handling,
      recorded_append.mpr ⟨recorded.mono fun _ _ caused => caused.mono handling.asked,
        caused_handling holding ready handling⟩⟩
  mono := fun ⟨durable, storing, recorded⟩ le =>
    ⟨invariant.mono durable le, storing.mono le id,
      recorded.mono fun _ _ caused => caused.mono le⟩
  reopen {w t} effect := fun ⟨durable, storing, recorded⟩ stored => by
    have holding := invariant.reopen effect durable stored
    refine ⟨holding, (storing_invariant host).reopen effect storing stored, ?_⟩
    simp only [World.reopened, World.log_history, World.advance_history]
    rw [recorded_concat, recorded_concat]
    refine ⟨⟨recorded.mono fun _ _ caused => caused.mono (Nat.le_succ _), ?_⟩, ?_⟩
    · exact .crashed rfl (storing.mono (Nat.le_succ _) id)
    · exact .reopened holding le_rfl rfl stored rfl rfl

/-- Every moment of an execution has a cause. -/
theorem caused (invariant : Invariant host holds durable) (executed : Executed host w) :
    Recorded (Caused host holds w.asked) w.history :=
  (invariant.causes.executed executed).2.2

end Invariant

end Causes

end Runnerctl
