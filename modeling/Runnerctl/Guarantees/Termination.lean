import Runnerctl.Guarantees.Force

/-!
# Forced runs

A pass first ends the runs that are to be ended by force.  It takes them in the order of
their ids, and stops at the first one whose container it cannot archive or remove.
-/

namespace Runnerctl

open Std Program Journal

namespace Moment

/-- A step of ending the run by force failed. -/
def fails (id : String) (m : Moment) : Bool :=
  match m.event with
  | .ended (.dockerLogs other) (.error _) | .ended (.dockerArchive other) (.error _)
  | .ended (.dockerRemove other true) (.error _) | .file (.writeLog other) false => other == id
  | _ => false

/-- The container of the run was removed by force. -/
def removed (id : String) (m : Moment) : Bool :=
  match m.event with
  | .ended (.dockerRemove other true) (.ok _) => other == id
  | _ => false

/-- If the moment is about ending a run by force, it is about this one. -/
def Only (id : String) (m : Moment) : Prop :=
  ∀ other, m.fails other = true ∨ m.removes other true = true ∨ m.removed other = true →
    other = id

/-- The moment is not about ending a run by force, unless a step goes well. -/
def Fine (m : Moment) : Prop :=
  ∀ other, m.fails other = false ∧ m.removes other true = false ∧ m.removed other = false

end Moment

/-- What happened since the world `w` ends with a save that failed. -/
def World.SaveFailed (w w' : World) : Prop :=
  ∃ m, (w.since w').getLast? = some m ∧ m.event = .saved false

/-- The container of the run is listed. -/
def HasContainer (managerId : Uuid) (containers : List Container) (run : Run) : Prop :=
  ∃ container ∈ containers, container.owned managerId.text run = true

section Termination

variable {host : Host} {w w' w'' : World} {id : String} {managerId : Uuid}

/-! ## Operations -/

/-- What happens at an await. -/
structure Happens (host : Host) (w w' : World) : Prop where
  history : Grows (fun m => m.event.occurs = true) w.history w'.history
  ready : Ready host w → Ready host w'
  belongs : ∀ managerId, w.Belongs managerId → w'.Belongs managerId

theorem Happens.trans (first : Happens host w w') (second : Happens host w' w'') :
    Happens host w w'' :=
  ⟨first.history.trans second.history, fun ready => second.ready (first.ready ready),
    fun managerId belongs => second.belongs managerId (first.belongs managerId belongs)⟩

theorem happen_happens (polled : Bool) (happening : Happening) :
    Meets host (happen polled happening) w (fun _ => Happens host w)
      (fun fault _ => fault = .panic) := by
  cases happening with
  | request request =>
      refine (serveRequest_meets host polled request w).mono (fun _ _ served => ?_)
        fun _ _ stopped => stopped.2.1
      refine ⟨served.history.mono fun m allowed => ?_, served.ready, fun _ => served.belongs⟩
      have request := allowed.1
      cases event : m.event <;> simp_all [Event.occurs, Event.ofRequest]
  | edit text =>
      refine meets_bind.mpr (meets_modify.mpr (meets_record.mpr
        ⟨.concat rfl, fun ready => ?_, fun _ belongs => belongs⟩))
      exact ready.frame rfl rfl (fun restored => (restored_append.mp restored).1) le_rfl

/-- An operation was awaited until its reply came. -/
structure Replies (host : Host) (op : Op) (reply : Except String op.Reply) (w w' : World) :
    Prop where
  history : Grows (fun m => m.event = .began op ∨ m.event = .ended op reply ∨
    m.event.occurs = true) w.history w'.history
  began : ∃ m ∈ w.since w', m.event = .began op
  ended : ∃ m ∈ w.since w', m.event = .ended op reply
  ready : Ready host w → Ready host w'
  belongs : ∀ managerId, w.Belongs managerId → w'.Belongs managerId

theorem external_replies (op : Op) :
    Meets host (external op) w (fun value => Replies host op (.ok value) w)
      (fun fault w' => ∀ text, fault = .error (.msg text) →
        Replies host op (.error text) w w') := by
  have happenings (polled : Bool) (happenings : List Happening) (w : World) :
      Meets host (happenings.forM (happen polled)) w (fun _ => Happens host w)
        (fun fault _ => fault = .panic) := by
    refine Meets.forM (fun _ => Happens host w) (fun happening _ w' happens => ?_)
      ⟨.refl _, id, fun _ => id⟩
    exact (happen_happens polled happening).mono (fun _ _ => happens.trans) fun _ _ => id
  unfold external
  refine meets_bind.mpr (meets_engine.mpr ?_)
  split
  · exact fun _ => nofun
  · refine meets_bind.mpr (meets_consult.mpr ?_)
    refine (happenings false _ _).seq (fun _ _ panicked _ => by simp [panicked])
      fun _ w₁ early => ?_
    refine meets_bind.mpr (meets_record.mpr ?_)
    refine (happenings true _ _).seq (fun _ _ panicked _ => by simp [panicked])
      fun _ w₂ late => ?_
    refine meets_bind.mpr (meets_record.mpr (meets_bind.mpr (meets_engine.mpr ?_)))
    have replies (reply : Except String op.Reply) :
        Replies host op reply w (w₂.log (.ended op reply)) := by
      have logged {w : World} {event : Event} (ready : Ready host w) :
          Ready host (w.log event) :=
        ready.frame rfl rfl (fun restored => (restored_append.mp restored).1) le_rfl
      have whole : Grows (fun m => m.event = .began op ∨ m.event = .ended op reply ∨
          m.event.occurs = true) w.history w₂.history := by
        refine (early.history.mono fun _ occurs => .inr (.inr occurs)).trans (.trans (.concat ?_)
          (late.history.mono fun _ occurs => .inr (.inr occurs)))
        exact .inl rfl
      have since := World.since_log whole.isPrefix (.ended op reply)
      refine ⟨whole.trans (.concat (.inr (.inl rfl))), ⟨w₁.moment (.began op), ?_, rfl⟩,
        ⟨w₂.moment (.ended op reply), ?_, rfl⟩,
        fun ready => logged (late.ready (logged (early.ready ?_))),
        fun managerId belongs => late.belongs managerId (early.belongs managerId belongs)⟩
      · have begun : w.history <+: (w₁.log (.began op)).history :=
          early.history.isPrefix.trans (List.prefix_append _ _)
        rw [since, World.since_trans begun late.history.isPrefix,
          World.since_log (w := w) early.history.isPrefix (.began op)]
        simp
      · rw [since]
        exact List.mem_append_right _ (List.mem_singleton_self _)
      · exact ready.frame rfl rfl id (Nat.le_succ _)
    split
    · exact fun _ => nofun
    · generalize (host.answers w.asked).reply op = reply at replies
      cases reply with
      | ok value => exact replies _
      | error failure =>
          rintro text ⟨⟩
          exact replies _

/-! ## One run -/

/-- A part of ending a run by force went well, before the removal. -/
structure Deals (w w' : World) : Prop where
  history : w.history <+: w'.history
  fine : ∀ m ∈ w.since w', m.Fine
  belongs : ∀ managerId, w.Belongs managerId → w'.Belongs managerId

/-- Ending the run by force came to nothing. -/
structure Stalls (id : String) (w w' : World) : Prop where
  history : w.history <+: w'.history
  cause : (∃ m ∈ w.since w', m.fails id = true) ∨ w.SaveFailed w' ∧ ∀ m ∈ w.since w', m.Fine
  only : ∀ m ∈ w.since w', m.Only id

/-- Unless a request interrupted it, a part of ending the run came to nothing. -/
def Ending (id : String) (w : World) (fault : Fault Error) (w' : World) : Prop :=
  ∀ text, fault = .error (.msg text) → Stalls id w w'

/-- The run was ended by force, if its container is among these. -/
structure Forces (containers : List Container) (run : Run) (w w' : World) : Prop where
  history : w.history <+: w'.history
  succeeds : ∀ m ∈ w.since w', ∀ other, m.fails other = false
  only : ∀ m ∈ w.since w', m.Only run.id
  belongs : ∀ managerId, w.Belongs managerId → w'.Belongs managerId
  removed : HasContainer w.engine.state.managerId containers run →
    (∃ m ∈ w.since w', m.removes run.id true = true) ∧
      ∃ m ∈ w.since w', m.removed run.id = true

theorem Moment.Fine.only {m : Moment} (fine : m.Fine) : m.Only id := by
  intro other concerned
  obtain ⟨succeeds, idle, kept⟩ := fine other
  simp [succeeds, idle, kept] at concerned

theorem World.SaveFailed.of_trans (first : w.history <+: w'.history)
    (second : w'.history <+: w''.history) (unsaved : w'.SaveFailed w'') : w.SaveFailed w'' := by
  obtain ⟨m, last, event⟩ := unsaved
  refine ⟨m, ?_, event⟩
  rw [World.since_trans first second, List.getLast?_append, last, Option.some_or]

theorem World.mem_since_of_grows {added : Moment → Prop} {m : Moment}
    (grows : Grows added w.history w'.history) (member : m ∈ w.since w') : added m := by
  obtain ⟨new, history, allowed⟩ := grows
  rw [World.since, history, List.drop_left] at member
  exact allowed m member

namespace Deals

theorem of_grows (grows : Grows Moment.Fine w.history w'.history)
    (belongs : ∀ managerId, w.Belongs managerId → w'.Belongs managerId) : Deals w w' where
  history := grows.isPrefix
  fine _ := World.mem_since_of_grows grows
  belongs := belongs

theorem setRun (w : World) (other : String) (run : Run) :
    Deals w (w.setState (w.engine.state.setRun other run)) :=
  .of_grows (.refl _) fun _ belongs => belongs

theorem trans (first : Deals w w') (second : Deals w' w'') : Deals w w'' where
  history := first.history.trans second.history
  fine := by
    rw [World.since_trans first.history second.history]
    exact List.forall_mem_append.mpr ⟨first.fine, second.fine⟩
  belongs managerId belongs := second.belongs managerId (first.belongs managerId belongs)

theorem stalls (first : Deals w w') (second : Stalls id w' w'') : Stalls id w w'' where
  history := first.history.trans second.history
  cause := by
    rcases second.cause with ⟨m, member, fails⟩ | ⟨unsaved, fine⟩
    · refine .inl ⟨m, ?_, fails⟩
      rw [World.since_trans first.history second.history]
      exact List.mem_append_right _ member
    · refine .inr ⟨unsaved.of_trans first.history second.history, ?_⟩
      rw [World.since_trans first.history second.history]
      exact List.forall_mem_append.mpr ⟨first.fine, fine⟩
  only := by
    rw [World.since_trans first.history second.history]
    exact List.forall_mem_append.mpr ⟨fun m member => (first.fine m member).only, second.only⟩

theorem ending (first : Deals w w') {fault : Fault Error} (second : Ending id w' fault w'') :
    Ending id w fault w'' :=
  fun text same => first.stalls (second text same)

/-- A part that goes well, and then another one. -/
theorem seq (first : Deals w w') {α : Type} {program : EngineM α}
    (second : Meets host program w' (fun _ => Deals w') (Ending id w')) :
    Meets host program w' (fun _ => Deals w) (Ending id w) :=
  second.mono (fun _ _ => first.trans) fun _ _ => first.ending

end Deals

theorem fine_of_occurs {m : Moment} (occurs : m.event.occurs = true) : m.Fine := by
  intro other
  cases event : m.event <;>
    simp_all [Event.occurs, Event.ofRequest, Event.between, Event.inner, Moment.fails,
      Moment.removes, Moment.removed]

theorem Replies.deals {op : Op} (saves : op = .dockerLogs id ∨ op = .dockerArchive id)
    {value : op.Reply} (replies : Replies host op (.ok value) w w') : Deals w w' := by
  refine .of_grows (replies.history.mono fun m added => ?_) replies.belongs
  rcases added with event | event | occurs
  · rcases saves with rfl | rfl <;> simp [Moment.Fine, Moment.fails, Moment.removes,
      Moment.removed, event]
  · rcases saves with rfl | rfl <;> simp [Moment.Fine, Moment.fails, Moment.removes,
      Moment.removed, event]
  · exact fine_of_occurs occurs

theorem Replies.only {op : Op}
    (ends : op = .dockerLogs id ∨ op = .dockerArchive id ∨ op = .dockerRemove id true)
    {reply : Except String op.Reply} (replies : Replies host op reply w w') :
    ∀ m ∈ w.since w', m.Only id := by
  intro m member
  rcases World.mem_since_of_grows replies.history member with event | event | occurs
  · rcases ends with rfl | rfl | rfl <;> intro other <;>
      simp [Moment.fails, Moment.removes, Moment.removed, event]
    exact Eq.symm
  · rcases ends with rfl | rfl | rfl <;> intro other <;> cases reply <;>
      simp [Moment.fails, Moment.removes, Moment.removed, event]
    all_goals exact Eq.symm
  · exact (fine_of_occurs occurs).only

theorem Replies.stalls {op : Op}
    (ends : op = .dockerLogs id ∨ op = .dockerArchive id ∨ op = .dockerRemove id true)
    {text : String} (replies : Replies host op (.error text) w w') : Stalls id w w' where
  history := replies.history.isPrefix
  cause := by
    obtain ⟨m, member, event⟩ := replies.ended
    refine .inl ⟨m, member, ?_⟩
    rcases ends with rfl | rfl | rfl <;> simp [Moment.fails, event]
  only := replies.only ends

theorem external_ends {op : Op} (saves : op = .dockerLogs id ∨ op = .dockerArchive id) :
    Meets host (external op) w (fun _ => Deals w) (Ending id w) := by
  refine (external_replies op).mono (fun _ _ replies => replies.deals saves)
    fun _ _ stopped text same => (stopped text same).stalls ?_
  exact saves.imp_right .inl

theorem save_ends : Meets host save w (fun _ => Deals w) (Ending id w) := by
  refine meets_save.mpr ?_
  split
  · refine .of_grows (.concat fun other => by
      simp [Moment.fails, Moment.removes, Moment.removed]) fun managerId belongs =>
        ⟨belongs.1, ?_⟩
    rintro t ⟨⟩
    exact belongs.1
  · intro text _
    have fine : ((w.advance host).moment (.saved false)).Fine := fun other => by
      simp [Moment.fails, Moment.removes, Moment.removed]
    refine ⟨List.prefix_append _ _, .inr ⟨⟨(w.advance host).moment (.saved false), ?_, rfl⟩, ?_⟩,
      ?_⟩
    · simp [World.since]
    · simpa [World.since] using fine
    · simpa [World.since] using fine.only

theorem writeLog_ends :
    Meets host (fileOp (.writeLog id)) w (fun _ => Deals w) (Ending id w) := by
  refine meets_fileOp.mpr ?_
  split
  · exact .of_grows (.concat fun other => by
      simp [Moment.fails, Moment.removes, Moment.removed]) fun _ belongs => belongs
  · intro text _
    refine ⟨List.prefix_append _ _,
      .inl ⟨(w.advance host).moment (.file (.writeLog id) false), ?_, ?_⟩, ?_⟩
    · simp [World.since]
    · simp [Moment.fails]
    · simp only [World.since, World.log_history, World.advance_history, List.drop_left,
        List.mem_singleton]
      rintro m rfl other concerned
      have fails : (id == other) = true := by
        simpa [Moment.fails, Moment.removes, Moment.removed] using concerned
      exact (beq_iff_eq.mp fails).symm

theorem archive_ends {run : Run} {container : Container} :
    Meets host (archive run container) w (fun _ => Deals w) (Ending run.id w) := by
  unfold archive
  split
  · exact .of_grows (.refl _) fun _ => id
  · refine (external_ends (.inl rfl)).seq (fun _ _ stopped => stopped) fun _ w₁ logs => ?_
    refine (logs.seq writeLog_ends).seq (fun _ _ stopped => stopped) fun _ w₂ written => ?_
    have archived : Meets host
        (if container.everStarted = true then external (.dockerArchive run.id) else pure ()) w₂
        (fun _ => Deals w) (Ending run.id w) := by
      split
      · exact written.seq (external_ends (.inr rfl))
      · exact written
    refine archived.when_bind fun _ w₃ archived => ?_
    refine meets_bind.mpr (meets_insertRun.mpr ?_)
    exact ((archived.trans (.setRun w₃ _ _)).seq save_ends).bind fun _ _ saved => saved

theorem Replies.forces {containers : List Container} {run : Run} (archived : Deals w w')
    {value : Unit} (replies : Replies host (.dockerRemove run.id true) (.ok value) w' w'') :
    Forces containers run w w'' := by
  have since := World.since_trans archived.history replies.history.isPrefix
  refine ⟨archived.history.trans replies.history.isPrefix, ?_, ?_, fun managerId belongs =>
    replies.belongs managerId (archived.belongs managerId belongs), fun _ => ⟨?_, ?_⟩⟩
  · rw [since]
    refine List.forall_mem_append.mpr ⟨fun m member other => (archived.fine m member other).1,
      fun m member other => ?_⟩
    rcases World.mem_since_of_grows replies.history member with event | event | occurs
    · simp [Moment.fails, event]
    · simp [Moment.fails, event]
    · exact (fine_of_occurs occurs other).1
  · rw [since]
    exact List.forall_mem_append.mpr ⟨fun m member => (archived.fine m member).only,
      replies.only (.inr (.inr rfl))⟩
  · obtain ⟨m, member, event⟩ := replies.began
    exact ⟨m, since ▸ List.mem_append_right _ member, by simp [Moment.removes, event]⟩
  · obtain ⟨m, member, event⟩ := replies.ended
    exact ⟨m, since ▸ List.mem_append_right _ member, by simp [Moment.removed, event]⟩

theorem forceRun_ends {run : Run} {containers : List Container} :
    Meets host (forceRun containers run) w (fun _ => Forces containers run w)
      (Ending run.id w) := by
  unfold forceRun
  refine meets_bind.mpr (meets_getState.mpr ?_)
  dsimp only
  split
  · next missing =>
      refine ⟨List.prefix_refl _, by simp [World.since], by simp [World.since],
        fun _ belongs => belongs, ?_⟩
      rintro ⟨container, member, owned⟩
      exact absurd owned (List.find?_eq_none.mp missing container member)
  · next container found =>
      refine meets_bind.mpr (meets_insertRun.mpr ?_)
      refine ((Deals.setRun w _ _).seq save_ends).seq (fun _ _ stopped => stopped)
        fun _ w₁ saved => ?_
      have archives := saved.seq (@archive_ends host w₁ { run with phase := .cleanup } container)
      refine archives.seq (fun _ _ stopped => stopped) fun _ w₂ archived => ?_
      exact (external_replies _).mono (fun _ _ replies => replies.forces archived)
        fun _ _ stopped text same => archived.stalls ((stopped text same).stalls (.inr (.inr rfl)))

/-! ## All runs -/

/-- These runs were ended by force, one after the other. -/
structure Ended (managerId : Uuid) (containers : List Container) (runs : List Run)
    (w w' : World) : Prop where
  history : w.history <+: w'.history
  belongs : w'.Belongs managerId
  succeeds : ∀ m ∈ w.since w', ∀ other, m.fails other = false
  only : ∀ m ∈ w.since w', ∀ other, m.removes other true = true ∨ m.removed other = true →
    ∃ run ∈ runs, run.id = other
  removed : ∀ run ∈ runs, HasContainer managerId containers run →
    (∃ m ∈ w.since w', m.removes run.id true = true) ∧
      ∃ m ∈ w.since w', m.removed run.id = true

theorem Ended.cons {containers : List Container} {head : Run} {rest : List Run}
    (first : Forces containers head w w') (belongs : w.Belongs managerId)
    (ended : Ended managerId containers rest w' w'') :
    Ended managerId containers (head :: rest) w w'' := by
  have since := World.since_trans first.history ended.history
  refine ⟨first.history.trans ended.history, ended.belongs, ?_, ?_, ?_⟩
  · rw [since]
    exact List.forall_mem_append.mpr ⟨first.succeeds, ended.succeeds⟩
  · rw [since]
    refine List.forall_mem_append.mpr ⟨fun m member other removes =>
      ⟨head, List.mem_cons_self, (first.only m member other (.inr removes)).symm⟩,
      fun m member other removes => ?_⟩
    obtain ⟨run, member, same⟩ := ended.only m member other removes
    exact ⟨run, List.mem_cons_of_mem _ member, same⟩
  · rw [since]
    refine List.forall_mem_cons.mpr ⟨fun listed => ?_, fun run member listed => ?_⟩
    · obtain ⟨⟨m, member, begins⟩, m', member', removed⟩ := first.removed (belongs.1 ▸ listed)
      exact ⟨⟨m, List.mem_append_left _ member, begins⟩,
        m', List.mem_append_left _ member', removed⟩
    · obtain ⟨⟨m, member, begins⟩, m', member', removed⟩ := ended.removed run member listed
      exact ⟨⟨m, List.mem_append_right _ member, begins⟩,
        m', List.mem_append_right _ member', removed⟩

theorem forceRuns_end {containers : List Container} {runs : List Run}
    (belongs : w.Belongs managerId) (run : runs.forM (forceRun containers) host w = (.ok ⟨⟩, w')) :
    Ended managerId containers runs w w' := by
  induction runs generalizing w with
  | nil =>
      cases run
      exact ⟨List.prefix_refl _, belongs, by simp [World.since], by simp [World.since], by simp⟩
  | cons head rest inductionHypothesis =>
      change (forceRun containers head >>= fun _ => rest.forM (forceRun containers)) host w = _
        at run
      rcases first : forceRun containers head host w with ⟨stopped | _, w₁⟩
      · rw [bind_run_fault first] at run
        cases run
      rw [bind_run_ok first] at run
      have forces := (@forceRun_ends host _ _ _).returned first
      exact .cons forces belongs (inductionHypothesis (forces.belongs _ belongs) run)

/-- Nothing but the runs before the one that stalls was ended. -/
theorem not_removed {containers : List Container} {first : List Run} {run stalled : Run}
    (ended : Ended managerId containers first w w') (stalls : Stalls stalled.id w' w'')
    (other : ∀ before ∈ first, before.id ≠ run.id)
    (own : ∀ m ∈ w'.since w'', m.fails run.id = false) :
    (∀ m ∈ w.since w'', m.removed run.id = false) ∧
      ((∃ m ∈ w'.since w'', m.fails stalled.id = true ∧ stalled.id ≠ run.id) ∨
        w.SaveFailed w'' ∧ ∀ m ∈ w.since w'', m.removes run.id true = false) := by
  have since := World.since_trans ended.history stalls.history
  have early : ∀ m ∈ w.since w', ¬ (m.removes run.id true = true ∨ m.removed run.id = true) :=
    fun m member removes => by
      obtain ⟨before, there, same⟩ := ended.only m member run.id removes
      exact other before there same
  simp only [not_or, Bool.not_eq_true] at early
  rcases stalls.cause with ⟨m, member, fails⟩ | ⟨unsaved, fine⟩
  · have distinct : stalled.id ≠ run.id := fun same => by
      rw [same, own m member] at fails
      cases fails
    refine ⟨?_, .inl ⟨m, member, fails, distinct⟩⟩
    rw [since]
    refine List.forall_mem_append.mpr ⟨fun m member => (early m member).2, fun m member => ?_⟩
    by_contra removed
    exact distinct (stalls.only m member run.id (.inr (.inr (by simpa using removed)))).symm
  · refine ⟨?_, .inr ⟨unsaved.of_trans ended.history stalls.history, ?_⟩⟩
    · rw [since]
      exact List.forall_mem_append.mpr ⟨fun m member => (early m member).2,
        fun m member => (fine m member run.id).2.2⟩
    · rw [since]
      exact List.forall_mem_append.mpr ⟨fun m member => (early m member).1,
        fun m member => (fine m member run.id).2.1⟩

theorem distinct_before {runs before after : List Run} {run : Run}
    (distinct : (runs.map Run.id).Nodup) (split : runs = before ++ run :: after) :
    ∀ other ∈ before, other.id ≠ run.id := by
  intro other member
  rw [split, List.map_append, List.map_cons] at distinct
  exact (List.nodup_append.mp distinct).2.2 _ (List.mem_map_of_mem member) _ List.mem_cons_self

/-- In a loop over forced runs that no request interrupts, a run whose own steps do not fail is
ended if and only if no step of an earlier one fails, and no save before its removal. -/
theorem forceRuns_remove {containers : List Container} {runs before after : List Run} {run : Run}
    (belongs : w.Belongs managerId) (distinct : (runs.map Run.id).Nodup)
    {outcome : Except (Fault Error) PUnit}
    (ran : runs.forM (forceRun containers) host w = (outcome, w'))
    (uninterrupted : ∀ fault, outcome = .error fault → ∃ text, fault = .error (.msg text))
    (split : runs = before ++ run :: after) (listed : HasContainer managerId containers run)
    (own : ∀ m ∈ w.since w', m.fails run.id = false) :
    (∃ m ∈ w.since w', m.removed run.id = true) ↔
      (∀ other ∈ before, ∀ m ∈ w.since w', m.fails other.id = false) ∧
        (w.SaveFailed w' → ∃ m ∈ w.since w', m.removes run.id true = true) := by
  cases outcome with
  | ok _ =>
      have ended := forceRuns_end belongs ran
      obtain ⟨begins, removed⟩ := ended.removed run (split ▸ by simp) listed
      exact iff_of_true removed
        ⟨fun other _ m member => ended.succeeds m member other.id, fun _ => begins⟩
  | error fault =>
      obtain ⟨text, rfl⟩ := uninterrupted fault rfl
      obtain ⟨first, stalled, rest, mid, split', ran', stops⟩ := forM_stopped ran
      have ended := forceRuns_end belongs ran'
      have stalls := (@forceRun_ends host _ _ _).stopped stops text rfl
      have since := World.since_trans ended.history stalls.history
      rcases split_append (split'.symm.trans split) with ⟨tail, rfl, -⟩ | ⟨tail, rfl, later⟩
      · -- the run was ended before another one stalled
        obtain ⟨⟨m, member, begins⟩, m', member', removed⟩ := ended.removed run (by simp) listed
        rw [since]
        refine iff_of_true ⟨m', List.mem_append_left _ member', removed⟩
          ⟨fun other earlier => ?_, fun _ => ⟨m, List.mem_append_left _ member, begins⟩⟩
        refine List.forall_mem_append.mpr ⟨fun m member => ended.succeeds m member other.id,
          fun m member => ?_⟩
        by_contra failed
        refine distinct_before distinct split' other (List.mem_append_left _ earlier) ?_
        exact stalls.only m member other.id (.inl (by simpa using failed))
      · -- the run itself or one before it stalled
        have others : ∀ before ∈ first, before.id ≠ run.id := by
          intro other member
          cases tail with
          | nil =>
              cases later
              exact distinct_before distinct split' other member
          | cons => exact distinct_before distinct split other (List.mem_append_left _ member)
        obtain ⟨kept, cause⟩ := not_removed ended stalls others fun m member =>
          own m (since ▸ List.mem_append_right _ member)
        refine iff_of_false (fun removed => ?_) fun fine => ?_
        · obtain ⟨m, member, removed⟩ := removed
          exact Bool.false_ne_true ((kept m member).symm.trans removed)
        · rcases cause with ⟨m, member, fails, distinct⟩ | ⟨unsaved, idle⟩
          · have earlier : stalled ∈ first ++ tail := by
              cases tail with
              | nil =>
                  cases later
                  exact absurd rfl distinct
              | cons =>
                  cases later
                  simp
            have := fine.1 stalled earlier m (since ▸ List.mem_append_right _ member)
            exact Bool.false_ne_true (this.symm.trans fails)
          · obtain ⟨m, member, begins⟩ := fine.2 unsaved
            exact Bool.false_ne_true ((idle m member).symm.trans begins)

/-! ## The pass -/

/-- A pass over the pool began, listed the containers, and ran its loop over the forced runs
from `w₁` to `w₂`. -/
structure Forcing (host : Host) (w : World) (name : String) (p : PoolState)
    (containers : List Container) (w₁ : World) (outcome : Except (Fault Error) PUnit)
    (w₂ : World) : Prop where
  found : w.engine.state.pools[name]? = some p
  listed : external (.dockerList w.engine.state.managerId.text) host
    ((w.turned host).entered name p) = (.ok containers, w₁)
  ran : ((w₁.engine.state.runsOf p.id).filter (·.force)).forM (forceRun containers) host w₁ =
    (outcome, w₂)

/-- If the loop stops, the pass does. -/
theorem Forcing.stops {name : String} {p : PoolState} {containers : List Container}
    {w₁ w₂ : World} {fault : Fault Error}
    (forcing : Forcing host w name p containers w₁ (.error fault) w₂) {entry : Pool}
    (known : w.engine.state.config.pool? name = some entry) (allowReplenish : Bool) :
    reconcile name allowReplenish host ((w.turned host).entered name p) =
      (.error fault, w₂) := by
  obtain ⟨first, run, rest, mid, split, -, -⟩ := forM_stopped forcing.ran
  have member : run ∈ (w₁.engine.state.runsOf p.id).filter (·.force) := by simp [split]
  have kept : w₁.engine.state.hasRuns p.id = true := by
    obtain ⟨⟨id, there⟩, owner⟩ := (State.mem_runsOf _).mp (List.mem_filter.mp member).1
    exact State.hasRuns_of_run _ there owner
  refine Meets.run_eq ?_
  unfold reconcile
  refine meets_bind.mpr (meets_getState.mpr (meets_bind.mpr (meets_context.mpr ?_)))
  rw [show ((w.turned host).entered name p).engine.state.config.pool? name = some entry from
    known]
  refine meets_bind.mpr (meets_poolOf.mpr ?_)
  rw [show ((w.turned host).entered name p).engine.state.pools[name]? = some p from
    forcing.found]
  have listed : Meets host (external (.dockerList w.engine.state.managerId.text))
      ((w.turned host).entered name p) (fun value w' => value = containers ∧ w' = w₁)
      (fun _ _ => False) := by
    unfold Meets
    rw [forcing.listed]
    exact ⟨rfl, rfl⟩
  have stopped : Meets host
      (((w₁.engine.state.runsOf p.id).filter (·.force)).forM (forceRun containers)) w₁
      (fun _ _ => False) (fun stopped w' => stopped = fault ∧ w' = w₂) := by
    unfold Meets
    rw [forcing.ran]
    exact ⟨rfl, rfl⟩
  refine listed.seq (fun _ _ => False.elim) fun _ _ same => ?_
  obtain ⟨rfl, rfl⟩ := same
  refine meets_bind.mpr (meets_getState.mpr ?_)
  dsimp only
  rw [if_neg (by simp [kept])]
  refine stopped.seq (fun _ _ same => ?_) fun _ _ => False.elim
  obtain ⟨rfl, rfl⟩ := same
  rfl

/-- A forced run whose container is listed and whose own steps do not fail is ended in a pass
that is not interrupted, if and only if no step of a forced run with a smaller id fails. -/
theorem forced_runs_ended {name : String} {p : PoolState} {containers : List Container}
    {w₁ w₂ : World} {outcome : Except (Fault Error) PUnit} {before after : List Run} {run : Run}
    (reachable : Reachable host w) (forcing : Forcing host w name p containers w₁ outcome w₂)
    (uninterrupted : ∀ fault, outcome = .error fault → ∃ text, fault = .error (.msg text))
    (split : (w₁.engine.state.runsOf p.id).filter (·.force) = before ++ run :: after)
    (listed : HasContainer w.engine.state.managerId containers run)
    (own : ∀ m ∈ w₁.since w₂, m.fails run.id = false) :
    ((∃ m ∈ w₁.since w₂, m.removed run.id = true) ↔
      (∀ other ∈ before, ∀ m ∈ w₁.since w₂, m.fails other.id = false) ∧
        (w₁.SaveFailed w₂ → ∃ m ∈ w₁.since w₂, m.removes run.id true = true)) ∧
    ∀ fault entry allowReplenish, outcome = .error fault →
      w.engine.state.config.pool? name = some entry →
        reconcile name allowReplenish host ((w.turned host).entered name p) =
          (.error fault, w₂) := by
  obtain ⟨ready, -⟩ := reachable.ready
  obtain ⟨t, stored, backs⟩ := ready.stored
  have entered : Ready host ((w.turned host).entered name p) :=
    (ready.frame rfl rfl id (Nat.le_succ _) : Ready host (w.turned host)).frame rfl rfl
      (fun restored => (restored_append.mp restored).1) le_rfl
  have replies := (@external_replies host _ _).returned forcing.listed
  have belongs : w₁.Belongs w.engine.state.managerId := by
    refine replies.belongs _ ⟨rfl, fun t' stored' => ?_⟩
    cases stored.symm.trans stored'
    exact (State.roster_eq_iff.mp backs.roster).1
  refine ⟨forceRuns_remove belongs ?_ forcing.ran uninterrupted split listed own, ?_⟩
  · have distinct := State.nodup_runsOf w₁.engine.state
      (fun there => (replies.ready entered).keyed there) p.id
    exact distinct.sublist (List.filter_sublist.map _)
  · rintro fault entry allowReplenish rfl known
    exact forcing.stops known allowReplenish

/-! ## Samples -/

/-- Three runs are at work, with one container each.  One of them cannot be archived. -/
def Host.crowded (blocked : Nat) : Host :=
  .scripted [.sample [.sample "a" 3]] fun n answers =>
    { answers with
      reply := fun op => match op with
        | .dockerList managerId =>
            .ok (([11, 29, 47].filter (· + 17 ≤ n)).map fun uuid =>
              ⟨some managerId, some (runId (.scripted 3) (.scripted uuid)),
                some (Uuid.scripted 2).text, some "running", some "start"⟩)
        | .dockerArchive id =>
            if id == runId (.scripted 3) (.scripted blocked) then .error "failure" else .ok ()
        | op => op.smooth }

/-- An error message ended the program. -/
def stoppedBy : Except (Fault Error) PUnit → Option String
  | .error (.error (.msg text)) => some text
  | _ => none

theorem eq_of_stoppedBy {outcome : Except (Fault Error) PUnit} {text : String}
    (stopped : stoppedBy outcome = some text) : outcome = .error (.error (.msg text)) := by
  unfold stoppedBy at stopped
  split at stopped <;> cases stopped
  rfl

/-- In a pass over the pool, the loop over the forced runs satisfies `holds`. -/
def World.forces (w : World) (host : Host) (name : String)
    (holds : List Run → List Container → World → Except (Fault Error) PUnit × World → Bool) :
    Bool :=
  match w.engine.state.pools[name]? with
  | some p =>
      match external (.dockerList w.engine.state.managerId.text) host
          ((w.turned host).entered name p) with
      | (.ok containers, w₁) =>
          let runs := (w₁.engine.state.runsOf p.id).filter (·.force)
          holds runs containers w₁ (runs.forM (forceRun containers) host w₁)
      | _ => false
  | none => false

theorem World.forced {name : String}
    {holds : List Run → List Container → World → Except (Fault Error) PUnit × World → Bool}
    (forces : w.forces host name holds = true) :
    ∃ p containers w₁ outcome w₂, Forcing host w name p containers w₁ outcome w₂ ∧
      holds ((w₁.engine.state.runsOf p.id).filter (·.force)) containers w₁ (outcome, w₂) =
        true := by
  unfold World.forces at forces
  split at forces
  · next p found =>
      split at forces
      · next containers w₁ listed => exact ⟨p, containers, w₁, _, _, ⟨found, listed, rfl⟩, forces⟩
      · exact absurd forces Bool.false_ne_true
  · exact absurd forces Bool.false_ne_true

/-- The run between the other two is ended, although the last one cannot be archived. -/
theorem forced_runs_ended_sample : ∃ (host : Host) (w : World) (p : PoolState)
    (containers : List Container) (w₁ w₂ : World) (text : String), Reachable host w ∧
      Forcing host w "a" p containers w₁ (.error (.error (.msg text))) w₂ ∧
        ∃ m ∈ w₁.since w₂, m.removed (runId (.scripted 3) (.scripted 47)) = true := by
  let id (uuid : Nat) : String := runId (.scripted 3) (.scripted uuid)
  obtain ⟨w, reachable, holds⟩ := @Host.reaches (.crowded 29) "" .blank
    [.request (.start (some "a") false), .tick, .tick, .tick, .tick,
      .request (.stop (some "a") false true)]
    (fun w => w.forces (.crowded 29) "a" fun runs containers w₁ ended =>
      (runs.map Run.id == [id 11, id 47, id 29] && (stoppedBy ended.1).isSome) &&
        (runs.all fun run => containers.any (·.owned w.engine.state.managerId.text run)) &&
          (((w₁.since ended.2).all fun m => !m.fails (id 11) && !m.fails (id 47)) &&
            (w₁.since ended.2).any (·.removes (id 47) true)))
    (by decide +kernel)
  obtain ⟨p, containers, w₁, outcome, w₂, forcing, holds⟩ := World.forced holds
  simp only [Bool.and_eq_true, beq_iff_eq, Option.isSome_iff_exists, List.all_eq_true,
    List.any_eq_true, Bool.not_eq_true'] at holds
  obtain ⟨⟨⟨ids, text, stopped⟩, listed⟩, fine, begins⟩ := holds
  cases eq_of_stoppedBy stopped
  obtain ⟨first, _, split, first_id, ids⟩ := List.map_eq_cons_iff.mp ids
  obtain ⟨run, after, rfl, run_id, -⟩ := List.map_eq_cons_iff.mp ids
  refine ⟨_, w, p, containers, w₁, w₂, text, reachable, forcing, ?_⟩
  replace split : (w₁.engine.state.runsOf p.id).filter (·.force) = [first] ++ run :: after :=
    split
  have ended := (forced_runs_ended reachable forcing
    (fun _ same => ⟨text, (Except.error.inj same).symm⟩) split (listed run (split ▸ by simp))
    (run_id ▸ fun m member => (fine m member).2)).1
  rw [run_id] at ended
  refine ended.mpr ⟨List.forall_mem_singleton.mpr ?_, fun _ => begins⟩
  exact first_id ▸ fun m member => (fine m member).1

/-- A run whose own steps do not fail keeps its container in a pass that is not interrupted,
because the one before it cannot be archived. -/
theorem forced_run_held_up : ∃ (host : Host) (w : World) (p : PoolState)
    (containers : List Container) (w₁ w₂ : World) (text : String) (run : Run), Reachable host w ∧
      Forcing host w "a" p containers w₁ (.error (.error (.msg text))) w₂ ∧
        reconcile "a" true host ((w.turned host).entered "a" p) =
          (.error (.error (.msg text)), w₂) ∧
        run ∈ w₁.engine.state.runsOf p.id ∧ run.force = true ∧
          HasContainer w.engine.state.managerId containers run ∧
            (∀ m ∈ w₁.since w₂, m.fails run.id = false ∧ m.removed run.id = false) ∧
              ∃ m ∈ w₁.since w₂, m.fails (runId (.scripted 3) (.scripted 47)) = true := by
  obtain ⟨w, reachable, holds⟩ := @Host.reaches (.crowded 47) "" .blank
    [.request (.start (some "a") false), .tick, .tick, .tick, .tick,
      .request (.stop (some "a") false true)]
    (fun w => (w.engine.state.config.pool? "a").isSome && w.forces (.crowded 47) "a"
      fun runs containers w₁ ended =>
        ((stoppedBy ended.1).isSome &&
          (w₁.since ended.2).any (·.fails (runId (.scripted 3) (.scripted 47)))) &&
            runs.any fun run => containers.any (·.owned w.engine.state.managerId.text run) &&
              (w₁.since ended.2).all fun m => !m.fails run.id && !m.removed run.id)
    (by decide +kernel)
  rw [Bool.and_eq_true, Option.isSome_iff_exists] at holds
  obtain ⟨⟨entry, known⟩, forces⟩ := holds
  obtain ⟨p, containers, w₁, outcome, w₂, forcing, holds⟩ := World.forced forces
  simp only [Bool.and_eq_true, Option.isSome_iff_exists, List.all_eq_true, List.any_eq_true,
    Bool.not_eq_true'] at holds
  obtain ⟨⟨⟨text, stopped⟩, failed⟩, run, member, listed, fine⟩ := holds
  cases eq_of_stoppedBy stopped
  obtain ⟨member, force⟩ := List.mem_filter.mp member
  exact ⟨_, w, p, containers, w₁, w₂, text, run, reachable, forcing, forcing.stops known true,
    member, force, listed, fine, failed⟩

end Termination

end Runnerctl
