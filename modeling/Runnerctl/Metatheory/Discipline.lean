import Runnerctl.Metatheory.Causes
import Runnerctl.Metatheory.Conduct

/-!
# Executions as courses of the protocol

Every turn of `serve` is a course of the protocol of a pass, unless a panic ends it in the
middle of one.  What every move keeps therefore holds between any two turns, whatever
happened in them, and a crash leaves of it what can be said of the history and the store.
-/

namespace Runnerctl

open Std Program Journal

/-! ## Moves -/

section Moves

variable {host : Host} {c c' : Option Custody} {w w' : World}

/-- What a move adds to the history. -/
theorem Move.moments (move : Move host c w c' w') :
    w'.history = w.history ∨ (∃ m, w'.history = w.history ++ [m] ∧ m.store = w'.store) ∨
      ∃ polled request, Served host polled request w w' := by
  cases move with
  | begin | reply => exact .inr (.inl ⟨_, rfl, rfl⟩)
  | act act =>
      cases act with
      | silent _ _ _ history => exact .inl history
      | force | pick | visit | write | flag | release | drain | leave | observed | clear | forget
      | close => exact .inl rfl
      | serve served => exact .inr (.inr ⟨_, _, served⟩)
      | edit | enter | log | save | look | wrote | drop | fail | record | delete | commit
      | rewrite => exact .inr (.inl ⟨_, rfl, rfl⟩)

theorem Move.asked (move : Move host c w c' w') : w.asked ≤ w'.asked := by
  cases move with
  | begin | reply => exact le_rfl
  | act act =>
      cases act with
      | silent _ _ _ _ _ _ asked => exact asked
      | serve served => exact served.asked
      | fail | record => exact Nat.le_add_right _ 2
      | force | pick | visit | write | flag | release | drain | leave | observed | clear | forget
      | close | edit | enter | log | save | look | wrote | drop | delete | commit | rewrite =>
          exact le_rfl

theorem Course.asked (course : Course host (c, w) (c', w')) : w.asked ≤ w'.asked := by
  generalize ended : (c', w') = after at course
  induction course generalizing c' w' with
  | refl => exact (congrArg (World.asked ∘ Prod.snd) ended).ge
  | tail _ move inductionHypothesis =>
      obtain ⟨-, rfl⟩ := Prod.mk.inj ended
      exact (inductionHypothesis rfl).trans move.asked

end Moves

/-! ## What moves add -/

/-- Events that only a move adds. -/
def Event.ofMove : Event → Bool
  | .passStarted _ _ _ | .began _ | .ended _ _ | .file _ _ | .looked _ _ | .newRun _
  | .droppedRun _ _ | .finalising _ | .failed _ _ => true
  | _ => false

theorem Event.ofMove_of_ofRequest {event : Event} (ofRequest : event.ofRequest = true) :
    event.ofMove = false := by
  cases event <;> simp_all [Event.ofMove, Event.ofRequest, Event.between, Event.inner]

section Adds

variable {host : Host} {c c' : Option Custody} {w w' : World} {m : Moment}

/-- An act adds an event that concerns no operation. -/
theorem Act.adds_local (act : Act host c w c' w') (history : w'.history = w.history ++ [m]) :
    m.event.local = true := by
  have unmoved {P : Prop} (same : w'.history = w.history) : P := by
    simp [same] at history
  cases act with
  | silent _ _ _ same => exact unmoved same
  | force | pick | visit | write | flag | release | drain | leave | observed | clear | forget
  | close => exact unmoved rfl
  | serve served =>
      obtain ⟨inner, result, moments, -⟩ := served.outcome
      rw [history, List.append_assoc] at moments
      simp at moments
  | log allows =>
      rename_i event
      cases List.append_cancel_left history
      change event.local = true
      cases event <;> first | rfl | exact absurd allows Bool.false_ne_true
  | edit | enter | save | look | wrote | drop | fail | record | delete | commit | rewrite =>
      cases List.append_cancel_left history
      rfl

/-- How a move adds its moment. -/
inductive Adds (host : Host) (c : Option Custody) (w : World) (c' : Option Custody) (w' : World) :
    Event → Prop where
  | began {custody : Custody} {op : Op} :
      c = some custody → c' = some custody → awaited w.history = none → Prompt w.history →
      custody.Permits op →
      w' = w.log (.began op) → Adds host c w c' w' (.began op)
  | ended {custody custody' : Custody} {op : Op} {reply : Except String op.Reply} :
      c = some custody → c' = some custody' → awaited w.history = some op →
      custody.Answers w.engine.state op reply custody' → w' = w.log (.ended op reply) →
      Adds host c w c' w' (.ended op reply)
  | act {event : Event} :
      Act host c w c' w' → event.local = true → Adds host c w c' w' event

theorem Move.adds (move : Move host c w c' w') (history : w'.history = w.history ++ [m]) :
    Adds host c w c' w' m.event := by
  cases move with
  | begin unawaited prompt permits =>
      cases List.append_cancel_left history
      exact .began rfl rfl unawaited prompt permits rfl
  | reply awaits answers =>
      cases List.append_cancel_left history
      exact .ended rfl rfl awaits answers rfl
  | act act => exact .act act (act.adds_local history)

end Adds

/-! ## Turns -/

section Turns

variable {host : Host} {w w' : World}

theorem Ready.world_keyed (ready : Ready host w) : w.Keyed := by
  refine ⟨fun _ _ => ready.keyed, fun t stored id run found => ?_⟩
  obtain ⟨t', stored', backs⟩ := ready.stored
  obtain rfl : t' = t := Option.some.inj (stored'.symm.trans stored)
  exact State.keyed_of_named (backs.roster ▸ ready.named) found

/-- A turn begins outside a pass. -/
theorem Ready.reaches (ready : Ready host w) (idle : w.engine.reconcileEpoch = none)
    (unawaited : awaited w.history = none) : Reaches host (none, w) none w :=
  ⟨.refl, ready.world_keyed, .of_idle idle, .none w, unawaited⟩

/-- Between turns no operation is in flight. -/
theorem Reachable.unawaited (reachable : Reachable host w) : awaited w.history = none := by
  induction reachable with
  | start opened =>
      obtain ⟨read, saved, history, readEvent, -, -, savedEvent, -⟩ :=
        (openEngine_of_install opened).history
      rw [history, awaited, List.foldl_cons, List.foldl_cons, readEvent, savedEvent]
      rfl
  | request request _ run inductionHypothesis =>
      have served := (serveRequest_meets host true request _).returned run
      exact (awaited_of_grows served.grows).trans inductionHypothesis
  | @tick before _ reachable run inductionHypothesis =>
      obtain ⟨ready, idle⟩ := reachable.ready
      exact ((tick_reaches (ready.reaches idle inductionHypothesis)).returned run).flight
  | edit text _ inductionHypothesis => exact (awaited_local rfl).trans inductionHypothesis
  | restart reachable turn crash opened _ =>
      obtain ⟨ready, idle⟩ := reachable.ready
      obtain ⟨left, effect, rfl, t, stored, -⟩ :=
        (storing_invariant host).crash ready.storing ready idle turn crash
      cases openEngine_of_store (w := left.log (.crashed effect)) stored opened
      rw [World.log_history, awaited_local rfl]
      exact awaited_concat

theorem Reachable.reaches (reachable : Reachable host w) : Reaches host (none, w) none w :=
  reachable.ready.1.reaches reachable.ready.2 reachable.unawaited

/-- A turn is a course of the protocol, unless a panic ended it. -/
theorem Turn.course (turn : Turn host w w') (reachable : Reachable host w) :
    ∃ c mid, Course host (none, w) (c, mid) ∧
      (w' = mid ∨ ∃ request, Pending host request mid w') := by
  cases turn with
  | request request =>
      generalize run : serveRequest true request host w = outcome
      obtain ⟨result, after⟩ := outcome
      cases result with
      | ok value =>
          have served := (serveRequest_meets host true request w).returned run
          exact ⟨none, after, .single (.act (.serve served)), .inl rfl⟩
      | error fault =>
          have stopped := (serveRequest_meets host true request w).stopped run
          exact ⟨none, w, .refl, .inr ⟨request, stopped.1⟩⟩
  | tick =>
      generalize run : Runnerctl.tick host w = outcome
      obtain ⟨result, after⟩ := outcome
      cases result with
      | ok value =>
          exact ⟨none, after, ((tick_reaches reachable.reaches).returned run).moves, .inl rfl⟩
      | error fault =>
          have halted := (tick_reaches reachable.reaches).stopped run
          cases fault with
          | error error => exact ⟨none, after, Arrives.moves halted, .inl rfl⟩
          | panic => exact halted

end Turns

/-! ## Disciplines -/

/-- `holds` is kept by every move and reestablished by a restart.  A crash leaves of it what
`durable` says of the questions asked, the history and the store. -/
structure Discipline (host : Host) (holds : Option Custody → World → Prop)
    (durable : Nat → List Moment → Option State → Prop) : Prop where
  start : ∀ {text : String} {after : World}, Installed host text after → holds none after
  move : ∀ {c c' : Option Custody} {w w' : World},
    holds c w → Move host c w c' w' → holds c' w'
  survives : ∀ {c : Option Custody} {w : World}, holds c w → durable w.asked w.history w.store
  /-- The handling of a request can be cut short. -/
  served : ∀ {c : Option Custody} {w : World} {request : Request} {n : Nat} {new : List Moment}
    {store : Option State}, holds c w → Handling host request w n new store →
      durable n (w.history ++ new) store
  mono : ∀ {n n' : Nat} {history : List Moment} {store : Option State},
    durable n history store → n ≤ n' → durable n' history store
  reopen : ∀ {w : World} {t : State} (effect : Bool), durable w.asked w.history w.store →
    w.store = some t → holds none (w.reopened host effect t)

namespace Lasts

variable {durable : Nat → List Moment → Option State → Prop} {n n' : Nat}
  {first second third : List Moment}

theorem mono (lasts : Lasts durable n first second)
    (later : ∀ {history store}, durable n history store → durable n' history store) :
    Lasts durable n' first second := by
  obtain ⟨new, continues, recorded⟩ := lasts
  exact ⟨new, continues, recorded.mono fun _ _ => later⟩

theorem trans (left : Lasts durable n first second) (right : Lasts durable n second third) :
    Lasts durable n first third := by
  obtain ⟨new, rfl, recorded⟩ := left
  obtain ⟨new', rfl, recorded'⟩ := right
  refine ⟨new ++ new', List.append_assoc .., recorded_append.mpr ⟨recorded, ?_⟩⟩
  exact recorded'.mono fun earlier m held => by simpa only [List.append_assoc] using held

end Lasts

namespace Discipline

variable {host : Host} {holds : Option Custody → World → Prop}
  {durable : Nat → List Moment → Option State → Prop} {c c' : Option Custody} {w w' : World}

theorem lasts_pending (discipline : Discipline host holds durable) {request : Request}
    (holding : holds c w) (pending : Pending host request w w') :
    Lasts durable w'.asked w.history w'.history := by
  obtain ⟨new, history, handling⟩ := pending.handling
  refine ⟨new, history, ?_⟩
  rintro first m rest rfl
  have cut := discipline.served holding handling.cut
  simpa only [List.append_assoc] using cut

/-- A moment at which the discipline holds. -/
theorem lasts_moment (discipline : Discipline host holds durable) (holding : holds c w')
    {m : Moment} (history : w'.history = w.history ++ [m]) (store : m.store = w'.store) :
    Lasts durable w'.asked w.history w'.history := by
  refine ⟨[m], history, List.nil_append [m] ▸ recorded_concat.mpr ⟨recorded_nil, ?_⟩⟩
  have survives := discipline.survives holding
  rw [history, ← store] at survives
  simpa using survives

/-- A course keeps the discipline, and would leave its durable part at any moment. -/
theorem course (discipline : Discipline host holds durable) (holding : holds c w)
    (course : Course host (c, w) (c', w')) :
    holds c' w' ∧ Lasts durable w'.asked w.history w'.history := by
  generalize ended : (c', w') = after at course
  induction course generalizing c' w' with
  | refl =>
      obtain ⟨rfl, rfl⟩ := Prod.mk.inj ended
      exact ⟨holding, [], by simp, recorded_nil⟩
  | @tail mid _ _ last inductionHypothesis =>
      subst ended
      change Move host mid.1 mid.2 c' w' at last
      obtain ⟨held, lasts⟩ := inductionHypothesis rfl
      have kept := discipline.move held last
      have lasts := lasts.mono fun durable => discipline.mono durable last.asked
      refine ⟨kept, lasts.trans ?_⟩
      rcases last.moments with same | ⟨m, history, store⟩ | ⟨_, _, served⟩
      · exact ⟨[], by simp [same], recorded_nil⟩
      · exact discipline.lasts_moment kept history store
      · obtain ⟨w₁, result, pending, log⟩ := served.pending
        subst log
        exact (discipline.lasts_pending held pending).trans (discipline.lasts_moment kept rfl rfl)

/-- What a turn leaves at each of its moments, and at its end. -/
theorem turn (discipline : Discipline host holds durable) (holding : holds none w)
    (reachable : Reachable host w) (turn : Turn host w w') :
    Lasts durable w'.asked w.history w'.history ∧ durable w'.asked w'.history w'.store := by
  obtain ⟨c, mid, course, ends⟩ := turn.course reachable
  obtain ⟨held, lasts⟩ := discipline.course holding course
  rcases ends with rfl | ⟨request, pending⟩
  · exact ⟨lasts, discipline.survives held⟩
  · have lasts := lasts.mono fun durable => discipline.mono durable pending.asked
    refine ⟨lasts.trans (discipline.lasts_pending held pending), ?_⟩
    obtain ⟨new, history, handling⟩ := pending.handling
    rw [history]
    exact discipline.served held handling

/-- What a crash during a turn leaves. -/
theorem crash (discipline : Discipline host holds durable) (holding : holds none w)
    (reachable : Reachable host w) (turn : Turn host w w') {dead : World}
    (crash : Crash w w' dead) :
    ∃ (left : World) (effect : Bool), dead = left.log (.crashed effect) ∧
      durable left.asked left.history left.store := by
  obtain ⟨⟨new, history, recorded⟩, -⟩ := discipline.turn holding reachable turn
  obtain ⟨c, mid, course, ends⟩ := turn.course reachable
  have asked : w.asked ≤ w'.asked := by
    rcases ends with rfl | ⟨_, pending⟩
    · exact Course.asked course
    · exact (Course.asked course).trans pending.asked
  cases crash with
  | early effect =>
      have kept : durable w'.asked w.history w.store :=
        discipline.mono (discipline.survives holding) asked
      exact ⟨{ w with asked := w'.asked }, effect, rfl, kept⟩
  | late first m rest effect cut =>
      refine ⟨_, effect, rfl, recorded first m rest ?_⟩
      exact List.append_cancel_left (history.symm.trans (cut.trans (List.append_assoc ..)))

/-- What the protocol keeps holds in every world in which a turn begins. -/
theorem reachable (discipline : Discipline host holds durable) (reachable : Reachable host w) :
    holds none w := by
  induction reachable with
  | start opened => exact discipline.start (openEngine_of_install opened)
  | request request _ run inductionHypothesis =>
      have served := (serveRequest_meets host true request _).returned run
      exact discipline.move inductionHypothesis (.act (.serve served))
  | tick reachable run inductionHypothesis =>
      have reaches := (tick_reaches reachable.reaches).returned run
      exact (discipline.course inductionHypothesis reaches.moves).1
  | edit text _ inductionHypothesis =>
      exact discipline.move inductionHypothesis (.act (.edit text))
  | restart reachable turn crash opened inductionHypothesis =>
      obtain ⟨ready, idle⟩ := reachable.ready
      obtain ⟨left, effect, rfl, durable⟩ :=
        discipline.crash inductionHypothesis reachable turn crash
      obtain ⟨left', effect', same, t, stored, -⟩ :=
        (storing_invariant host).crash ready.storing ready idle turn crash
      have stored : left.store = some t := by
        rw [← World.log_store left (.crashed effect), same]
        exact stored
      have same := openEngine_of_store (w := left.log (.crashed effect)) stored opened
      subst same
      exact discipline.reopen effect durable stored

/-- What is durable holds at the end of every turn. -/
theorem executed (discipline : Discipline host holds durable) (executed : Executed host w) :
    durable w.asked w.history w.store := by
  cases executed with
  | reached reachable => exact discipline.survives (discipline.reachable reachable)
  | ended reachable turn =>
      exact (discipline.turn (discipline.reachable reachable) reachable turn).2

end Discipline

/-! ## Moves in the history -/

/-- A move added the moment, if only moves add such moments. -/
def Moved (host : Host) (holds : Option Custody → World → Prop) (first : List Moment)
    (m : Moment) : Prop :=
  m.event.ofMove = true → ∃ c w c' w', holds c w ∧ Move host c w c' w' ∧ holds c' w' ∧
    first = w.history ∧ w'.history = w.history ++ [m]

section Moved

variable {host : Host} {holds : Option Custody → World → Prop}
  {durable : Nat → List Moment → Option State → Prop} {w : World}

theorem moved_of_ofRequest {new : List Moment} {history : List Moment}
    (ofRequest : ∀ m ∈ new, m.event.ofRequest = true) :
    Recorded (fun first m => Moved host holds (history ++ first) m) new := by
  rintro first m rest rfl ofMove
  rw [Event.ofMove_of_ofRequest (ofRequest m (by simp))] at ofMove
  exact absurd ofMove Bool.false_ne_true

theorem Handling.ofRequest {request : Request} {n : Nat} {new : List Moment}
    {store : Option State} (handling : Handling host request w n new store) :
    ∀ m ∈ new, m.event.ofRequest = true := by
  obtain ⟨inner, rfl, between⟩ := handling.arrived
  rw [List.forall_mem_cons]
  refine ⟨rfl, fun m member => ?_⟩
  have between := between m member
  cases event : m.event <;> simp_all [Event.between, Event.inner, Event.ofRequest]

/-- Along with a discipline the moves of the history are known. -/
theorem Discipline.moved (discipline : Discipline host holds durable) :
    Discipline host
      (fun c w => holds c w ∧ Recorded (Moved host holds) w.history)
      (fun n history store => durable n history store ∧ Recorded (Moved host holds) history) where
  start {_ after} installed := by
    refine ⟨discipline.start installed, ?_⟩
    obtain ⟨read, saved, moments, readEvent, -, -, savedEvent, -⟩ := installed.history
    rintro first m rest history ofMove
    have member : m ∈ first ++ m :: rest := by simp
    rw [← history, moments] at member
    simp only [List.mem_cons, List.not_mem_nil, or_false] at member
    rcases member with rfl | rfl | rfl
    · simp [readEvent, Event.ofMove] at ofMove
    · simp [savedEvent, Event.ofMove] at ofMove
    · cases ofMove
  move {c c' w w'} held move := by
    obtain ⟨holding, recorded⟩ := held
    have kept := discipline.move holding move
    refine ⟨kept, ?_⟩
    rcases move.moments with same | ⟨m, history, -⟩ | ⟨_, _, served⟩
    · rwa [same]
    · rw [history, recorded_concat]
      exact ⟨recorded, fun _ => ⟨c, w, c', w', holding, move, kept, rfl, history⟩⟩
    · obtain ⟨new, history, ofRequest⟩ := served.grows
      rw [history, recorded_append]
      exact ⟨recorded, moved_of_ofRequest ofRequest⟩
  survives held := ⟨discipline.survives held.1, held.2⟩
  served held handling :=
    ⟨discipline.served held.1 handling,
      recorded_append.mpr ⟨held.2, moved_of_ofRequest handling.ofRequest⟩⟩
  mono held le := ⟨discipline.mono held.1 le, held.2⟩
  reopen {w t} effect held stored := by
    refine ⟨discipline.reopen effect held.1 stored, ?_⟩
    simp only [World.reopened, World.log_history, World.advance_history]
    rw [recorded_concat, recorded_concat]
    exact ⟨⟨held.2, fun ofMove => by cases ofMove⟩, fun ofMove => by cases ofMove⟩

/-- Every moment of an execution that only a move adds was added by one. -/
theorem Discipline.explained (discipline : Discipline host holds durable)
    (executed : Executed host w) : Recorded (Moved host holds) w.history :=
  (discipline.moved.executed executed).2

theorem trivial_discipline (host : Host) :
    Discipline host (fun _ _ => True) (fun _ _ _ => True) where
  start _ := trivial
  move _ _ := trivial
  survives _ := trivial
  served _ _ := trivial
  mono _ _ := trivial
  reopen _ _ _ := trivial

end Moved

end Runnerctl
