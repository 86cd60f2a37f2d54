import Runnerctl.Metatheory.Handlers

/-!
# Serving a request

`handle_local` with its rollback: a request is accepted, or it is rejected and memory is
read back from the store, or the read-back fails and memory keeps what the handler left.
-/

namespace Runnerctl

open Std Program Journal

/-- Every request that failed was followed by a read-back of the store. -/
def Restored (moments : List Moment) : Prop := ∀ m ∈ moments, m.event ≠ .readBack false

theorem restored_append {first second : List Moment} :
    Restored (first ++ second) ↔ Restored first ∧ Restored second :=
  List.forall_mem_append

/-- The read-back of the store failed. -/
def Moment.unread (m : Moment) : Bool :=
  match m.event with
  | .readBack ok => !ok
  | _ => false

instance (moments : List Moment) : Decidable (Restored moments) :=
  decidable_of_iff (∀ m ∈ moments, m.unread = false) <| by
    refine forall₂_congr fun m _ => ?_
    rw [Moment.unread]
    split
    · next ok event => cases ok <;> simp [event]
    · next other => exact ⟨fun _ => other false, fun _ => rfl⟩

/-- The events between the arrival of a request and its answer. -/
def Event.between : Event → Bool
  | .readBack _ => true
  | event => event.inner

/-- The events that handling a request adds to the history. -/
def Event.ofRequest : Event → Bool
  | .received _ | .handled _ _ _ _ => true
  | event => event.between

/-- What holds while a request is handled, and when a panic ended it. -/
structure Handles (host : Host) (request : Request) (w w' : World) : Prop where
  epoch : w.engine.epoch ≤ w'.engine.epoch
  reconcileEpoch : w'.engine.reconcileEpoch = w.engine.reconcileEpoch
  cursor : w'.engine.cursor = w.engine.cursor
  bootTime : w'.engine.bootTime = w.engine.bootTime
  asked : w.asked ≤ w'.asked
  clock : w.clock ≤ w'.clock
  store : Storable host request w w'.asked w'.store
  file : Keeps host request w w'
  history : Grows (fun m => m.event.ofRequest = true ∧ Explained host request w w'.asked m)
    w.history w'.history
  ordered : HeaderBacked w → Ordered w w'
  traced : Traced w w'

/-- What holds before a request is answered. -/
structure Pending (host : Host) (request : Request) (w w' : World) : Prop
    extends Handles host request w w' where
  arrived : ∃ inner, w'.history = w.history ++ w.moment (.received request) :: inner ∧
    ∀ m ∈ inner, m.event.between = true

/-- How the handling of a request ended.  `inner` are the moments of its handler. -/
inductive Outcome (host : Host) (request : Request) (w w' : World) :
    Except Error Response → List Moment → Prop where
  | accepted {response : Response} {inner : List Moment} :
      Accepts host w.file w.asked w'.asked w.engine.state request response
        w'.engine.state →
      (w'.store = if request.mutating then some w'.engine.state else w.store) →
      w'.engine.epoch = w.engine.epoch + (if request.mutating then 1 else 0) →
      Restored inner → Outcome host request w w' (.ok response) inner
  | rejected {error : Error} {inner : List Moment} :
      w'.store = some w'.engine.state →
      (w'.store = w.store ∨
        Commits host w.file w.asked w'.asked w.engine.state request w'.engine.state ∧
          ∃ m ∈ inner, m.event = .saved true ∧ m.store = some w'.engine.state) →
      w'.engine.epoch = w.engine.epoch + (if request.mutating then 1 else 0) →
      Restored inner → Outcome host request w w' (.error error) inner
  /-- The read-back failed: memory keeps the changes of the handler. -/
  | unread {error : Error} {inner : List Moment} :
      ¬ Restored inner → w.engine.state.Marks w'.engine.state →
      Punctual host w.asked w'.asked request.pardons w.engine.state.pools
        w'.engine.state.pools →
      Unanswered host request w w' inner → w'.engine.epoch = w.engine.epoch →
      Outcome host request w w' (.error error) inner

/-- The handling of a request ended with `result` after the moments `inner`. -/
structure Ends (host : Host) (request : Request) (w : World)
    (result : Except Error Response) (inner : List Moment) (w' : World) : Prop
    extends Handles host request w w' where
  continues : w'.history = w.history ++ inner
  between : ∀ m ∈ inner, m.event.between = true
  outcome : Outcome host request w w' result inner

section Local

variable {host : Host} {request : Request} {w w' : World}

theorem Inside.handles (inside : Inside host request w w') : Handles host request w w' where
  epoch := inside.epoch.ge
  reconcileEpoch := inside.reconcileEpoch
  cursor := inside.cursor
  bootTime := inside.bootTime
  asked := inside.asked
  clock := inside.clock
  store := inside.store
  file := inside.file
  history := inside.history.mono fun m ⟨inner, explained⟩ =>
    ⟨by cases event : m.event <;> simp_all [Event.inner, Event.ofRequest, Event.between],
      explained⟩
  ordered := inside.ordered
  traced := inside.traced

theorem Inside.moments (inside : Inside host request w w') :
    ∃ inner, w'.history = w.history ++ inner ∧ ∀ m ∈ inner, m.event.inner = true := by
  obtain ⟨inner, continues, every⟩ := inside.history
  exact ⟨inner, continues, fun m member => (every m member).1⟩

theorem between_of_inner {inner : List Moment} (every : ∀ m ∈ inner, m.event.inner = true) :
    ∀ m ∈ inner, m.event.between = true := by
  intro m member
  have inside := every m member
  cases event : m.event <;> simp_all [Event.inner, Event.between]

theorem restored_of_inner {inner : List Moment}
    (every : ∀ m ∈ inner, m.event.inner = true) : Restored inner := by
  intro m member event
  have inside := every m member
  simp [event, Event.inner] at inside

theorem Handles.readBack (handles : Handles host request w w') (ok : Bool) :
    Handles host request w ((w'.advance host).log (.readBack ok)) where
  epoch := handles.epoch
  reconcileEpoch := handles.reconcileEpoch
  cursor := handles.cursor
  bootTime := handles.bootTime
  asked := Nat.le_succ_of_le handles.asked
  clock := Nat.le_add_right_of_le handles.clock
  store := handles.store.mono (Nat.le_succ _)
  file := handles.file.later rfl (Nat.le_succ _) (List.prefix_append ..)
  history := (handles.history.mono fun _ => .imp_right (·.mono (Nat.le_succ _))).trans
    (.concat ⟨rfl, handles.store.mono (Nat.le_succ _), fun _ => nofun⟩)
  ordered backed := (handles.ordered backed).concat handles.history.isPrefix rfl rfl (.refl _)
  traced := handles.traced.concat handles.history.isPrefix rfl rfl (.inl rfl)

theorem Handles.setState (handles : Handles host request w w') (s : State) :
    Handles host request w (w'.setState s).published :=
  { handles with }

theorem Handles.advanceEpoch (handles : Handles host request w w') :
    Handles host request w { w' with
      engine := { w'.engine with epoch := w'.engine.epoch + 1 } } :=
  { handles with epoch := Nat.le_succ_of_le handles.epoch }

/-- `handle_local` meets its specification. -/
theorem handleLocal_meets (host : Host) (request : Request) (w : World) :
    Meets host (handleLocal request) w
      (fun response w' => ∃ inner, Ends host request w (.ok response) inner w')
      (fun fault w' => match fault with
        | .panic => Inside host request w w' ∧ ¬ w.engine.state.Indexed
        | .error error => ∃ inner, Ends host request w (.error error) inner w') := by
  unfold handleLocal
  refine meets_bind.mpr (meets_attempt.mpr ((handleInner_meets host request w).mono
    (fun response w₁ answered => ?_) fun fault w₁ stops => ?_))
  · obtain ⟨inner, continues, every⟩ := answered.moments
    have handles := answered.toInside.handles
    cases mutating : request.mutating with
    | true =>
        exact ⟨inner, handles.advanceEpoch, continues, between_of_inner every,
          .accepted answered.accepts answered.saved (by simp [mutating, answered.epoch])
            (restored_of_inner every)⟩
    | false =>
        exact ⟨inner, handles, continues, between_of_inner every,
          .accepted answered.accepts answered.saved (by simp [mutating, answered.epoch])
            (restored_of_inner every)⟩
  · cases fault with
    | panic => exact ⟨stops.toInside, stops.panics rfl⟩
    | error error =>
        obtain ⟨inner, continues, every⟩ := stops.moments
        have handles := stops.toInside.handles
        have unanswered := stops.unanswered
        rw [World.since, continues, List.drop_left] at unanswered
        have failed (error : Error) : Ends host request w (.error error)
            (inner ++ [((w₁.advance host).moment (.readBack false))])
            ((w₁.advance host).log (.readBack false)) := {
          handles.readBack false with
          continues := by simp [continues]
          between := List.forall_mem_append.mpr
            ⟨between_of_inner every, by simp [Event.between]⟩
          outcome := .unread (by simp [Restored]) stops.marks
            (stops.punctual.mono (Nat.le_succ _))
            (by
              refine unanswered.imp_right ?_
              rintro ⟨c, stored, header, commits, m, member, saved⟩
              exact ⟨c, stored, header, commits.mono (Nat.le_succ _), m,
                List.mem_append_left _ member, saved⟩) stops.epoch }
        refine meets_bind.mpr (meets_readBack.mpr ?_)
        split
        · next s succeeds stored =>
            have back := (handles.readBack true).setState s
            have outcome (w' : World) (asked : w'.asked = w₁.asked + 1)
                (store : w'.store = w₁.store) (state : w'.engine.state = s)
                (epoch : w'.engine.epoch =
                  w.engine.epoch + (if request.mutating then 1 else 0)) :
                Outcome host request w w' (.error error)
                  (inner ++ [(w₁.advance host).moment (.readBack true)]) := by
              refine .rejected (by rw [store, stored, state]) ?_ epoch
                (restored_append.mpr ⟨restored_of_inner every, by simp [Restored]⟩)
              rw [store, state, asked]
              refine unanswered.imp (·.1) ?_
              rintro ⟨c, stored', _, commits, m, member, saved⟩
              cases stored.symm.trans stored'
              exact ⟨commits.mono (Nat.le_succ _), m, List.mem_append_left _ member, saved⟩
            have between : ∀ m ∈ inner ++ [(w₁.advance host).moment (.readBack true)],
                m.event.between = true :=
              List.forall_mem_append.mpr ⟨between_of_inner every, by simp [Event.between]⟩
            have continues' : w₁.history ++ [(w₁.advance host).moment (.readBack true)] =
                w.history ++ (inner ++ [(w₁.advance host).moment (.readBack true)]) := by
              rw [continues, List.append_assoc]
            cases mutating : request.mutating with
            | true =>
                exact ⟨_, back.advanceEpoch, continues', between,
                  outcome _ rfl rfl rfl (by simp [mutating, stops.epoch])⟩
            | false =>
                exact ⟨_, back, continues', between,
                  outcome _ rfl rfl rfl (by simp [mutating, stops.epoch])⟩
        · exact ⟨_, failed _⟩
        · exact ⟨_, failed _⟩

end Local

/-! ## Requests in the history -/

/-- A request was handled. -/
structure Served (host : Host) (polled : Bool) (request : Request) (w w' : World) : Prop
    extends Handles host request w w' where
  outcome : ∃ inner result,
    w'.history = w.history ++ w.moment (.received request) :: inner ++
      [w'.moment (.handled polled request w.engine.state result)] ∧
    (∀ m ∈ inner, m.event.between = true) ∧ Outcome host request w w' result inner
  pending : ∃ w₁ result, Pending host request w w₁ ∧
    w' = w₁.log (.handled polled request w.engine.state result)
  run : serveRequest polled request host w = (.ok (), w')

theorem Handles.record {host : Host} {request : Request} {w w' : World}
    (handles : Handles host request w w') (polled : Bool) (other : Request) (before : State)
    (result : Except Error Response) :
    Handles host request w (w'.log (.handled polled other before result)) :=
  { handles with
    file := handles.file.later rfl le_rfl (List.prefix_append ..)
    history := handles.history.trans (.concat ⟨rfl, handles.store, fun _ => nofun⟩)
    ordered := fun backed => (handles.ordered backed).log handles.history.isPrefix _
    traced := handles.traced.log handles.history.isPrefix _ }

/-- The outcome does not depend on what was recorded before, or is recorded after. -/
theorem Outcome.of_log {host : Host} {request : Request} {w w' : World} {event event' : Event}
    {result : Except Error Response} {inner : List Moment}
    (outcome : Outcome host request (w.log event) w' result inner) :
    Outcome host request w (w'.log event') result inner := by
  cases outcome with
  | accepted accepts saved epoch restored => exact .accepted accepts saved epoch restored
  | rejected stored commits epoch restored => exact .rejected stored commits epoch restored
  | unread failed marks punctual unanswered epoch =>
      exact .unread failed marks punctual unanswered epoch

/-- `serveRequest` meets its specification: it panics only if the state is not
indexed. -/
theorem serveRequest_meets (host : Host) (polled : Bool) (request : Request) (w : World) :
    Meets host (serveRequest polled request) w
      (fun _ w' => Served host polled request w w')
      (fun fault w' => Pending host request w w' ∧ fault = .panic ∧
        ¬ w.engine.state.Indexed) := by
  suffices meets : Meets host (serveRequest polled request) w
      (fun _ w' => serveRequest polled request host w = (.ok (), w') →
        Served host polled request w w')
      (fun fault w' => Pending host request w w' ∧ fault = .panic ∧
        ¬ w.engine.state.Indexed) from
    .intro (fun _ _ run => meets.returned run run) fun _ _ => meets.stopped
  unfold serveRequest
  refine meets_bind.mpr (meets_getState.mpr (meets_bind.mpr (meets_record.mpr ?_)))
  have back {w' : World} {inner : List Moment}
      (handles : Handles host request (w.log (.received request)) w')
      (continues : w'.history = (w.log (.received request)).history ++ inner)
      (between : ∀ m ∈ inner, m.event.between = true) : Pending host request w w' := by
    have since : w.since w' = w.moment (.received request) ::
        (w.log (.received request)).since w' := by
      simp [World.since, continues]
    refine ⟨{ handles with file := ?_, history := ?_, ordered := fun backed => ?_, traced := ?_ },
      inner, by simp [continues], between⟩
    · rcases handles.file with same | ⟨c, commits, m, member, saved⟩
      · exact .inl same
      · exact .inr ⟨c, commits, m, since ▸ List.mem_cons_of_mem _ member, saved⟩
    · exact (Grows.concat ⟨rfl, .inl rfl, by simp⟩).trans
        (handles.history.mono fun _ explains =>
          ⟨explains.1, explains.2.storable, explains.2.overwrites⟩)
    · have inner := handles.ordered backed
      rw [Ordered, since]
      exact ⟨⟨.refl _, inner.1⟩, inner.2⟩
    · rw [Traced, since, ← List.singleton_append]
      refine ⟨recorded_append.mpr ⟨?_, handles.traced.1⟩, handles.traced.2⟩
      exact List.nil_append [w.moment (.received request)] ▸
        recorded_concat.mpr ⟨recorded_nil, .inl rfl⟩
  refine meets_bind.mpr (meets_attempt.mpr ((handleLocal_meets host request _).mono
    (fun response w₁ answered => ?_) fun fault w₁ stops => ?_))
  · obtain ⟨inner, ends⟩ := answered
    have pending := back ends.toHandles ends.continues ends.between
    exact fun run => ⟨pending.toHandles.record _ _ _ _,
      ⟨inner, _, by simp [ends.continues]; rfl, ends.between, ends.outcome.of_log⟩,
      ⟨w₁, _, pending, rfl⟩, run⟩
  · cases fault with
    | panic =>
        obtain ⟨inside, unindexed⟩ := stops
        obtain ⟨inner, continues, every⟩ := inside.moments
        exact ⟨back inside.handles continues (between_of_inner every), rfl, unindexed⟩
    | error error =>
        obtain ⟨inner, ends⟩ := stops
        have pending := back ends.toHandles ends.continues ends.between
        exact fun run => ⟨pending.toHandles.record _ _ _ _,
          ⟨inner, _, by simp [ends.continues]; rfl, ends.between, ends.outcome.of_log⟩,
          ⟨w₁, _, pending, rfl⟩, run⟩

/-! ## A request that is cut short -/

/-- What is there after some moments of handling a request. -/
structure Handling (host : Host) (request : Request) (w : World) (n : Nat)
    (new : List Moment) (store : Option State) : Prop where
  asked : w.asked ≤ n
  arrived : ∃ inner, new = w.moment (.received request) :: inner ∧
    ∀ m ∈ inner, m.event.between = true
  explained : ∀ m ∈ new, Explained host request w n m
  storable : Storable host request w n store
  ordered : HeaderBacked w →
    Chained Succeeds Moment.store w.store new ∧ final Moment.store w.store new = store
  traced : Recorded (fun first m => Touches (final Moment.file w.file first) m) new

section Handling

variable {host : Host} {request : Request} {w w' : World}

theorem Pending.handling (pending : Pending host request w w') :
    ∃ new, w'.history = w.history ++ new ∧
      Handling host request w w'.asked new w'.store := by
  obtain ⟨inner, history, between⟩ := pending.arrived
  obtain ⟨new, history', moments⟩ := pending.history
  have same : new = w.moment (.received request) :: inner :=
    List.append_cancel_left (history'.symm.trans history)
  have since : w.since w' = new := by rw [World.since, history', List.drop_left]
  exact ⟨new, history', pending.asked, ⟨inner, same, between⟩,
    fun m member => (moments m member).2, pending.store, since ▸ pending.ordered,
    since ▸ pending.traced.1⟩

/-- The handling can be cut short after any of its moments. -/
theorem Handling.cut {n : Nat} {first rest : List Moment} {m : Moment} {store : Option State}
    (handling : Handling host request w n (first ++ m :: rest) store) :
    Handling host request w n (first ++ [m]) m.store := by
  have explained := handling.explained
  rw [List.append_cons] at explained
  refine ⟨handling.asked, ?_, fun other member => explained other (List.mem_append_left _ member),
    (handling.explained m (by simp)).storable, fun backed => ⟨?_, final_concat⟩,
    handling.traced.of_prefix ⟨rest, (List.append_cons ..).symm⟩⟩
  · obtain ⟨inner, arrived, between⟩ := handling.arrived
    cases first with
    | nil =>
        obtain ⟨rfl, -⟩ := List.cons.inj arrived
        exact ⟨[], rfl, by simp⟩
    | cons head first =>
        obtain ⟨rfl, rfl⟩ := List.cons.inj arrived
        refine ⟨first ++ [m], rfl, fun other member => between other ?_⟩
        change other ∈ first ++ m :: rest
        rw [List.append_cons]
        exact List.mem_append_left _ member
  · have chained := (handling.ordered backed).1
    rw [List.append_cons, chained_append] at chained
    exact chained.1

end Handling

end Runnerctl
