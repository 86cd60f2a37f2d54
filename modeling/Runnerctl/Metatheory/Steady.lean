import Runnerctl.Metatheory.Steps

/-!
# Steady worlds

The invariant of a pass.  A pass works with copies of its pool and of the state of its
pool; as long as it was not interrupted they agree with memory.
-/

namespace Runnerctl

open Std Program Journal

/-- What a pass copied when it began. -/
structure Origin where
  world : World
  name : String
  at_ : Nat
  ps : PoolState
  epoch : Nat

/-- A pass is under way.  Memory may be ahead of the store. -/
structure Working (host : Host) (origin : Origin) (w : World) : Prop where
  steps : Steps host origin.world w
  savable : Savable host w w.engine.state
  reconcileEpoch : w.engine.reconcileEpoch = some origin.epoch
  later : origin.epoch ≤ w.engine.epoch
  /-- Mutations advance the epoch, and nothing else does. -/
  noticed : Restored (currentPass w.history) →
    (∃ m ∈ currentPass w.history, m.mutation = true) → origin.epoch < w.engine.epoch
  advanced : origin.epoch < w.engine.epoch →
    ∃ m ∈ currentPass w.history, m.mutation = true
  head : passHead w.history = some (origin.name, origin.at_, origin.ps.retryAt)
  span : w.history = origin.world.history ++ currentPass w.history
  undeleted : ∀ m ∈ currentPass w.history, m.deletes = false
  /-- The copies agree with memory. -/
  view : w.engine.interrupted = false → Restored w.history →
    w.engine.state.config = origin.world.engine.state.config ∧
      ∃ failures, w.engine.state.pools[origin.name]? = some { origin.ps with failures }
  /-- The deadline of the pool changes only through requests that reset it. -/
  deadline : Restored w.history → Fresh host w.asked →
    ∃ p, w.engine.state.pools[origin.name]? = some p ∧ (p.retryAt = origin.ps.retryAt ∨
      p.retryAt = 0 ∧ ∃ m ∈ currentPass w.history, m.Resets origin.name)
  /-- The runs of a stopped pool are retiring; their exits do not count. -/
  counted : Restored w.history → Fresh host w.asked → 0 < exits (currentPass w.history) →
    origin.ps.running = true

/-- The invariant of a pass at its awaits. -/
structure Steady (host : Host) (origin : Origin) (w : World) : Prop
    extends Working host origin w where
  stored : ∃ t, w.store = some t ∧ Backs w t
  unborn : ∀ m ∈ currentPass w.history, m.births = false

/-- A moment that neither begins a pass nor mutates nor deletes a pool. -/
structure Moment.Calm (m : Moment) : Prop where
  starts : m.starts = false
  mutation : m.mutation = false
  deletes : m.deletes = false

section Steady

variable {host : Host} {origin : Origin} {w w' : World}

theorem interrupted_eq (epoch : w.engine.reconcileEpoch = some origin.epoch) :
    w.engine.interrupted = (origin.epoch != w.engine.epoch) := by
  rw [Engine.interrupted, epoch, Option.any_some]

namespace Working

/-- A pass that was not interrupted was not disturbed. -/
theorem undisturbed (working : Working host origin w)
    (uninterrupted : w.engine.interrupted = false) :
    Undisturbed (currentPass w.history) := by
  intro restored m member
  by_contra mutation
  have later := working.noticed restored ⟨m, member, by simpa using mutation⟩
  rw [interrupted_eq working.reconcileEpoch] at uninterrupted
  simp at uninterrupted
  omega

/-- A step that adds calm moments and leaves the pool and the configuration alone. -/
theorem next (working : Working host origin w) (step : Step host w w')
    (savable : Savable host w' w'.engine.state)
    (epoch : w'.engine.epoch = w.engine.epoch)
    (reconcileEpoch : w'.engine.reconcileEpoch = w.engine.reconcileEpoch)
    (asked : w.asked ≤ w'.asked) {new : List Moment}
    (history : w'.history = w.history ++ new) (calm : ∀ m ∈ new, m.Calm)
    (config : w'.engine.state.config = w.engine.state.config)
    (pool : ∀ p, w.engine.state.pools[origin.name]? = some p →
      ∃ failures, w'.engine.state.pools[origin.name]? = some { p with failures })
    (counted : Restored w.history → Fresh host w'.asked → 0 < exits new →
      origin.ps.running = true) : Working host origin w' := by
  have pass : currentPass w'.history = currentPass w.history ++ new := by
    rw [history, currentPass_append fun m member => (calm m member).starts]
  have restored (restored : Restored w'.history) : Restored w.history := by
    rw [history] at restored
    exact (restored_append.mp restored).1
  have interrupted : w'.engine.interrupted = w.engine.interrupted := by
    rw [Engine.interrupted, Engine.interrupted, epoch, reconcileEpoch]
  refine ⟨working.steps.tail step, savable, reconcileEpoch.trans working.reconcileEpoch,
    epoch ▸ working.later, ?_, ?_, ?_, ?_, ?_, ?_, ?_, ?_⟩
  · rw [pass, epoch]
    rintro restored ⟨m, member, mutation⟩
    refine working.noticed (restored_append.mp restored).1 ⟨m, ?_, mutation⟩
    rcases List.mem_append.mp member with member | member
    · exact member
    · simp [(calm m member).mutation] at mutation
  · rw [pass, epoch]
    intro later
    obtain ⟨m, member, mutation⟩ := working.advanced later
    exact ⟨m, List.mem_append_left _ member, mutation⟩
  · rw [history, passHead_append fun m member => (calm m member).starts]
    exact working.head
  · rw [pass, ← List.append_assoc, ← working.span]
    exact history
  · rw [pass]
    exact List.forall_mem_append.mpr
      ⟨working.undeleted, fun m member => (calm m member).deletes⟩
  · rw [interrupted]
    intro uninterrupted restored'
    obtain ⟨config', _, found⟩ := working.view uninterrupted (restored restored')
    obtain ⟨failures, found'⟩ := pool _ found
    exact ⟨config.trans config', failures, found'⟩
  · rw [pass]
    intro restored' fresh
    obtain ⟨p, found, retry⟩ := working.deadline (restored restored') (fresh.mono asked)
    obtain ⟨_, found'⟩ := pool p found
    refine ⟨_, found', retry.imp_right fun ⟨reset, m, member, resets⟩ => ?_⟩
    exact ⟨reset, m, List.mem_append_left _ member, resets⟩
  · rw [pass, exits_append]
    intro restored' fresh some
    rcases Nat.eq_zero_or_pos (exits new) with none | some'
    · exact working.counted (restored restored') (fresh.mono asked) (by omega)
    · exact counted (restored restored') fresh some'

/-- A calm moment is recorded. -/
theorem log (working : Working host origin w) {event : Event}
    (step : Step host w (w.log event)) (calm : (w.moment event).Calm)
    (uncounted : (w.moment event).counted = false) : Working host origin (w.log event) := by
  refine working.next step ⟨working.savable.named, fun restored =>
    working.savable.sound (restored_append.mp restored).1⟩ rfl rfl le_rfl rfl
    (by simpa using calm) rfl (fun p found => ⟨p.failures, found⟩) fun _ _ some => ?_
  simp [exits, uncounted] at some

/-- A step changes nothing that the pass reads but the questions asked. -/
theorem still (working : Working host origin w) (step : Step host w w')
    (state : w'.engine.state = w.engine.state)
    (history : w'.history = w.history) (epoch : w'.engine.epoch = w.engine.epoch)
    (reconcileEpoch : w'.engine.reconcileEpoch = w.engine.reconcileEpoch)
    (asked : w.asked ≤ w'.asked) : Working host origin w' := by
  refine working.next step ?_ epoch reconcileEpoch asked
    (history.trans (List.append_nil _).symm)
    (by simp) (by rw [state]) (fun p found => ⟨p.failures, state ▸ found⟩) (by simp [exits])
  rw [state]
  exact ⟨working.savable.named.mono asked, fun restored fresh =>
    (working.savable.sound (history ▸ restored) (fresh.mono asked)).imp_right
      (·.mono asked)⟩

/-- Nothing changes but the clock and the questions asked. -/
theorem silent (working : Working host origin w)
    (state : w'.engine.state = w.engine.state) (store : w'.store = w.store)
    (file : w'.file = w.file) (history : w'.history = w.history)
    (epoch : w'.engine.epoch = w.engine.epoch)
    (reconcileEpoch : w'.engine.reconcileEpoch = w.engine.reconcileEpoch)
    (asked : w.asked ≤ w'.asked) (clock : w.clock ≤ w'.clock) : Working host origin w' :=
  working.still (.silent state store file history reconcileEpoch asked clock) state history
    epoch reconcileEpoch asked

theorem advance (working : Working host origin w) : Working host origin (w.advance host) :=
  working.silent rfl rfl rfl rfl rfl rfl (Nat.le_succ _) (Nat.le_add_right ..)

theorem plain (working : Working host origin w) {event : Event} (plain : event.plain = true) :
    Working host origin (w.log event) := by
  cases event with
  | ended | file | looked | readConfig | wroteConfig | cleared | saved =>
      exact working.log (.log plain) ⟨rfl, rfl, rfl⟩ rfl
  | _ => simp [Event.plain] at plain

/-- Memory is saved. -/
theorem saved (working : Working host origin w) :
    Working host origin ((w.withStore w.engine.state).log (.saved true)) := by
  refine working.next (.save working.savable (halfDeleted_eq_false working.undeleted))
    ⟨working.savable.named, fun restored =>
      working.savable.sound (restored_append.mp restored).1⟩ rfl rfl le_rfl rfl
    (by simpa using ⟨rfl, rfl, rfl⟩) rfl (fun p found => ⟨p.failures, found⟩) ?_
  intro _ _ some
  simp [exits, Moment.counted] at some

end Working

namespace Steady

theorem ready (steady : Steady host origin w) : Ready host w :=
  ⟨steady.savable, steady.stored⟩

theorem of_working (working : Working host origin w') (ready : Ready host w')
    (unborn : ∀ m ∈ currentPass w'.history, m.births = false) : Steady host origin w' :=
  ⟨working, ready.stored, unborn⟩

theorem silent (steady : Steady host origin w) (state : w'.engine.state = w.engine.state)
    (store : w'.store = w.store) (file : w'.file = w.file) (history : w'.history = w.history)
    (epoch : w'.engine.epoch = w.engine.epoch)
    (reconcileEpoch : w'.engine.reconcileEpoch = w.engine.reconcileEpoch)
    (asked : w.asked ≤ w'.asked) (clock : w.clock ≤ w'.clock) : Steady host origin w' :=
  .of_working
    (steady.toWorking.silent state store file history epoch reconcileEpoch asked clock)
    (steady.ready.frame state store (history ▸ id) asked) (history ▸ steady.unborn)

theorem advance (steady : Steady host origin w) : Steady host origin (w.advance host) :=
  steady.silent rfl rfl rfl rfl rfl rfl (Nat.le_succ _) (Nat.le_add_right ..)

theorem published (steady : Steady host origin w) : Steady host origin w.published :=
  steady.silent rfl rfl rfl rfl rfl rfl le_rfl le_rfl

/-- A save makes a pass steady again. -/
theorem of_saved (working : Working host origin w)
    (unborn : ∀ m ∈ currentPass w.history, m.births = false) :
    Steady host origin ((w.withStore w.engine.state).log (.saved true)) := by
  refine .of_working working.saved (.saved rfl working.saved.savable) ?_
  rw [World.log_history, World.withStore_history, currentPass_concat rfl]
  exact List.forall_mem_append.mpr ⟨unborn, by simp [Moment.births]⟩

theorem log (steady : Steady host origin w) {event : Event} (step : Step host w (w.log event))
    (calm : (w.moment event).Calm) (births : (w.moment event).births = false)
    (uncounted : (w.moment event).counted = false) : Steady host origin (w.log event) := by
  refine .of_working (steady.toWorking.log step calm uncounted)
    (steady.ready.frame rfl rfl (fun restored => (restored_append.mp restored).1) le_rfl) ?_
  · rw [World.log_history, currentPass_concat calm.starts]
    exact List.forall_mem_append.mpr ⟨steady.unborn, by simpa using births⟩

theorem plain (steady : Steady host origin w) {event : Event} (plain : event.plain = true) :
    Steady host origin (w.log event) := by
  cases event with
  | ended | file | looked | readConfig | wroteConfig | cleared | saved =>
      exact steady.log (.log plain) ⟨rfl, rfl, rfl⟩ rfl rfl
  | _ => simp [Event.plain] at plain

theorem edited (steady : Steady host origin w) (text : Option String) :
    Steady host origin ((w.withFile text).log .edited) := by
  refine .of_working (steady.toWorking.next (.edit text) (steady.savable.map le_rfl
    (fun restored => (restored_append.mp restored).1) steady.savable.named id
      fun {_ p} found => ⟨p, found, rfl⟩) rfl rfl le_rfl rfl
        (by simpa using ⟨rfl, rfl, rfl⟩) rfl
      (fun p found => ⟨p.failures, found⟩) fun _ _ some => by
        simp [exits, Moment.counted] at some)
    (steady.ready.frame rfl rfl (fun restored => (restored_append.mp restored).1) le_rfl) ?_
  rw [World.log_history, World.withFile_history, currentPass_concat rfl]
  exact List.forall_mem_append.mpr ⟨steady.unborn, by simp [Moment.births]⟩

end Steady

/-! ## Requests during a pass -/

/-- A panic ended the pass; nothing is known about memory. -/
structure Broken (host : Host) (origin : Origin) (w : World) : Prop where
  steps : ∃ w₀, Steps host origin.world w₀ ∧ (w = w₀ ∨ Panicked host w₀ w)
  unsound : Restored w.history → ¬ Fresh host w.asked

/-- A part of a pass stopped: with a panic, or with an error that satisfies `Q`. -/
def Halts (host : Host) (origin : Origin) (Q : Error → World → Prop) :
    Fault Error → World → Prop
  | .panic, w => Broken host origin w
  | .error error, w => Q error w

theorem Halts.mono {Q Q' : Error → World → Prop} {fault : Fault Error}
    (halts : Halts host origin Q fault w) (weaker : ∀ error, Q error w → Q' error w) :
    Halts host origin Q' fault w := by
  cases fault with
  | panic => exact halts
  | error error => exact weaker error halts

/-- What a pass can rely on across an await. -/
structure Kept (w w' : World) : Prop where
  roster : w'.engine.state.roster = w.engine.state.roster
  interrupted : w'.engine.interrupted = false → w.engine.interrupted = false
  intent : Restored w'.history → w'.engine.interrupted = false →
    w'.engine.state.intent = w.engine.state.intent
  forced : Restored w'.history → ∀ {id : String} {run : Run},
    w.engine.state.runs[id]? = some run → run.force = true →
      ∃ run', w'.engine.state.runs[id]? = some run' ∧ run'.force = true
  restored : Restored w'.history → Restored w.history
  begun : ∀ {id : String}, Begun w id → Begun w' id

theorem Kept.refl (w : World) : Kept w w :=
  ⟨rfl, id, fun _ _ => rfl, fun _ _ run found forced => ⟨run, found, forced⟩, id, id⟩

theorem Kept.trans {w'' : World} (first : Kept w w') (second : Kept w' w'') :
    Kept w w'' where
  roster := second.roster.trans first.roster
  interrupted uninterrupted := first.interrupted (second.interrupted uninterrupted)
  intent restored uninterrupted := (second.intent restored uninterrupted).trans
    (first.intent (second.restored restored) (second.interrupted uninterrupted))
  forced restored id run found forced := by
    obtain ⟨run', found', forced'⟩ := first.forced (second.restored restored) found forced
    exact second.forced restored found' forced'
  restored restored := first.restored (second.restored restored)
  begun begun := second.begun (first.begun begun)

theorem Kept.of_eq (state : w'.engine.state = w.engine.state) (store : w'.store = w.store)
    (epoch : w'.engine.epoch = w.engine.epoch)
    (reconcileEpoch : w'.engine.reconcileEpoch = w.engine.reconcileEpoch)
    (restored : Restored w'.history → Restored w.history) : Kept w w' where
  roster := by rw [state]
  interrupted := by
    rw [Engine.interrupted, Engine.interrupted, epoch, reconcileEpoch]
    exact id
  intent _ _ := by rw [state]
  forced _ _ run found forced := ⟨run, state ▸ found, forced⟩
  restored := restored
  begun := fun ⟨memory, stored⟩ => ⟨state ▸ memory, store ▸ stored⟩

theorem Kept.log (w : World) (event : Event) : Kept w (w.log event) :=
  .of_eq rfl rfl rfl rfl fun restored => (restored_append.mp restored).1

/-- A moment that tells nothing about containers and decides nothing. -/
structure Moment.Quiet (m : Moment) : Prop where
  starts : m.starts = false
  births : m.births = false
  deletes : m.deletes = false
  counted : m.counted = false
  listing : m.listing = none
  raises : ∀ id, m.raises id = false

/-- The events of what happens at an await. -/
def Event.occurs : Event → Bool
  | .edited => true
  | event => event.ofRequest

theorem Event.occurs_quiet {m : Moment} (occurs : m.event.occurs = true) : m.Quiet := by
  constructor <;> cases event : m.event <;>
    simp_all [Event.occurs, Event.ofRequest, Event.between, Event.inner, Moment.starts,
      Moment.births,
      Moment.deletes, Moment.counted, Moment.listing, Moment.raises]

/-- Requests were handled at an await of a pass. -/
structure Occurred (host : Host) (origin : Origin) (polled : Bool) (w w' : World) : Prop where
  steady : Steady host origin w'
  kept : Kept w w'
  uncreated : Uncreated w w'
  history : Grows (fun m => m.event.occurs = true ∧
    (m.event.polled = true → polled = true)) w.history w'.history

theorem Occurred.trans {polled : Bool} {w'' : World} (first : Occurred host origin polled w w')
    (second : Occurred host origin polled w' w'') : Occurred host origin polled w w'' :=
  ⟨second.steady, first.kept.trans second.kept, first.uncreated.trans second.uncreated,
    first.history.trans second.history⟩

theorem Steady.served (steady : Steady host origin w) {polled : Bool} {request : Request}
    (served : Served host polled request w w') : Occurred host origin polled w w' := by
  obtain ⟨inner, result, history, between, -⟩ := served.outcome
  rw [List.append_assoc] at history
  have moments : ∀ m ∈ w.moment (.received request) :: inner ++
        [w'.moment (.handled polled request w.engine.state result)],
      m.event.occurs = true ∧ (m.event.polled = true → polled = true) ∧
        (m.mutation = true → request.mutating = true) := by
    simp only [List.cons_append, List.forall_mem_cons, List.forall_mem_append]
    refine ⟨⟨rfl, by simp [Event.polled], by simp [Moment.mutation]⟩, fun m member => ?_,
      ⟨rfl, id, id⟩, by simp⟩
    have inside := between m member
    cases event : m.event <;> simp_all [Event.between, Event.inner, Event.occurs, Event.ofRequest,
      Event.polled, Moment.mutation]
  have last : w'.moment (.handled polled request w.engine.state result) ∈
      w.moment (.received request) :: inner ++
        [w'.moment (.handled polled request w.engine.state result)] :=
    List.mem_append_right _ (List.mem_singleton_self _)
  generalize w.moment (.received request) :: inner ++
    [w'.moment (.handled polled request w.engine.state result)] = new
    at history moments last
  have pass : currentPass w'.history = currentPass w.history ++ new := by
    rw [history]
    exact currentPass_append fun m member =>
      (Event.occurs_quiet (moments m member).1).starts
  have restored (restored : Restored w'.history) : Restored w.history :=
    restored_of_grows served.grows restored
  have reconcileEpoch := served.reconcileEpoch.trans steady.reconcileEpoch
  have same_epoch (uninterrupted : w'.engine.interrupted = false) :
      w'.engine.epoch = w.engine.epoch := by
    have later := steady.later
    have epoch := served.epoch
    rw [interrupted_eq reconcileEpoch] at uninterrupted
    simp at uninterrupted
    omega
  have intent (restored' : Restored w'.history)
      (uninterrupted : w'.engine.interrupted = false) :
      w'.engine.state.intent = w.engine.state.intent :=
    served.intent steady.ready restored' (same_epoch uninterrupted)
  have interrupted (uninterrupted : w'.engine.interrupted = false) :
      w.engine.interrupted = false := by
    rwa [Engine.interrupted, ← same_epoch uninterrupted, ← served.reconcileEpoch]
  refine ⟨?_, ⟨served.roster steady.ready, interrupted, intent,
    served.forced steady.ready, restored, served.begun⟩, served.uncreated steady.ready,
    new, history, fun m member => ⟨(moments m member).1, (moments m member).2.1⟩⟩
  have ready := served.ready steady.ready
  refine .of_working ⟨steady.steps.tail (.serve steady.ready served), ready.toSavable,
    reconcileEpoch,
    steady.later.trans served.epoch, ?_, ?_, ?_, ?_, ?_, ?_, ?_, ?_⟩ ready ?_
  · rw [pass]
    rintro restored ⟨m, member, mutation⟩
    rcases List.mem_append.mp member with member | member
    · exact (steady.noticed (restored_append.mp restored).1 ⟨m, member, mutation⟩).trans_le
        served.epoch
    · have advanced := served.epoch_eq fun new' history' => by
        rw [history] at history'
        exact List.append_cancel_left history' ▸ (restored_append.mp restored).2
      rw [if_pos ((moments m member).2.2 mutation)] at advanced
      have := steady.later
      omega
  · rw [pass]
    intro later
    rcases Nat.lt_or_ge origin.epoch w.engine.epoch with earlier | same
    · obtain ⟨m, member, mutation⟩ := steady.advanced earlier
      exact ⟨m, List.mem_append_left _ member, mutation⟩
    · exact ⟨_, List.mem_append_right _ last, served.mutating (same.trans_lt later)⟩
  · rw [history, passHead_append fun m member =>
      (Event.occurs_quiet (moments m member).1).starts]
    exact steady.head
  · rw [pass, ← List.append_assoc, ← steady.span]
    exact history
  · rw [pass]
    exact List.forall_mem_append.mpr ⟨steady.undeleted, fun m member =>
      (Event.occurs_quiet (moments m member).1).deletes⟩
  · intro uninterrupted restored'
    obtain ⟨-, -, config, -, pools, -⟩ :=
      State.intent_eq_iff.mp (intent restored' uninterrupted)
    rw [config, pools]
    exact steady.view (interrupted uninterrupted) (restored restored')
  · rw [pass]
    intro restored' fresh
    obtain ⟨p, found, retry⟩ :=
      steady.deadline (restored restored') (fresh.mono served.asked)
    obtain ⟨p', found', same | ⟨reset, m, member, resets⟩⟩ :=
      served.retry steady.ready restored' fresh history found
    · refine ⟨p', found', ?_⟩
      rw [same]
      refine retry.imp_right (And.imp_right (Exists.imp fun m => And.imp_left ?_))
      exact List.mem_append_left _
    · exact ⟨p', found', .inr ⟨reset, m, List.mem_append_right _ member, resets⟩⟩
  · rw [pass, exits_append, exits_eq_zero fun m member =>
      (Event.occurs_quiet (moments m member).1).counted]
    exact fun restored' fresh => steady.counted (restored restored')
      (fresh.mono served.asked)
  · rw [pass]
    exact List.forall_mem_append.mpr ⟨steady.unborn, fun m member =>
      (Event.occurs_quiet (moments m member).1).births⟩

/-- What happens at an await of a pass keeps it steady. -/
theorem happen_meets (steady : Steady host origin w) (polled : Bool)
    (happening : Happening) :
    Meets host (happen polled happening) w
      (fun _ => Occurred host origin polled w)
      (fun fault w' => fault = .panic ∧ Broken host origin w') := by
  match happening with
  | .edit text =>
      exact meets_bind.mpr (meets_modify.mpr (meets_record.mpr
        ⟨steady.edited text, .of_eq rfl rfl rfl rfl fun restored =>
          (restored_append.mp restored).1, .of_eq rfl, .concat ⟨rfl, nofun⟩⟩))
  | .request request =>
      refine (serveRequest_meets host polled request w).mono
        (fun _ w' served => steady.served served)
          fun fault w' ⟨pending, stopped, unindexed⟩ => ?_
      refine ⟨stopped, ⟨w, steady.steps,
        .inr ⟨steady.ready, request, pending, unindexed⟩⟩,
        fun restored fresh => unindexed ?_⟩
      exact (steady.ready.sound (restored_of_grows pending.history restored)
        (fresh.mono pending.asked)).1.toIndexed

/-! ## Awaiting an operation -/

/-- The moments that awaiting an operation adds to the history. -/
def Event.awaits (op : Op) : Event → Prop
  | .began other => other = op
  | .ended other _ => other = op
  | event => event.occurs = true

theorem Event.awaits_of_occurs {op : Op} {event : Event} (occurs : event.occurs = true) :
    event.awaits op := by
  cases event <;> simp_all [Event.awaits, Event.occurs, Event.ofRequest, Event.between,
    Event.inner]

/-- An operation was awaited. -/
structure Awaited (host : Host) (origin : Origin) (op : Op) (w w' : World) : Prop where
  steady : Steady host origin w'
  kept : Kept w w'
  uncreated : Uncreated w w'
  history : Grows (fun m => m.event.awaits op) w.history w'.history

/-- An operation succeeded, and nothing interrupted the pass. -/
structure Replied (host : Host) (origin : Origin) (op : Op) (w : World) (reply : op.Reply)
    (w' : World) : Prop extends Awaited host origin op w w' where
  uninterrupted : w'.engine.interrupted = false
  last : ∃ new m, w'.history = w.history ++ (new ++ [m]) ∧
    (∀ m' ∈ new, m'.event.awaits op ∧ m'.listing = none) ∧
    m.event = .ended op (.ok reply) ∧ m.state = w'.engine.state

/-- A loop over what happens at an await. -/
theorem happenings_meet (steady : Steady host origin w) (polled : Bool)
    (happenings : List Happening) :
    Meets host (happenings.forM (happen polled)) w
      (fun _ => Occurred host origin polled w)
      (fun fault w' => fault = .panic ∧ Broken host origin w') := by
  refine Meets.forM (fun _ => Occurred host origin polled w)
    (fun happening _ _ occurred => ?_) ⟨steady, .refl w, .of_eq rfl, .refl _⟩
  exact (happen_meets occurred.steady polled happening).mono
    (fun _ _ occurred' => occurred.trans occurred') fun _ _ broken => broken

/-- What licenses an operation survives the requests handled before its first poll. -/
theorem Licensed.kept {op : Op} (licensed : Licensed w op) (kept : Kept w w')
    (uncreated : Uncreated w w') {new : List Moment}
    (pass : currentPass w'.history = currentPass w.history ++ new)
    (requests : ∀ m ∈ new, m.event.occurs = true) : Licensed w' op := by
  obtain ⟨managerId, -⟩ := State.roster_eq_iff.mp kept.roster
  have last : lastListing (currentPass w'.history) = lastListing (currentPass w.history) := by
    rw [pass, lastListing, listings_append, listings_eq_nil fun m member =>
      (Event.occurs_quiet (requests m member)).listing, List.append_nil, lastListing]
  have raises {id : String} : ∀ m ∈ new, m.raises id = false := fun m member =>
    (Event.occurs_quiet (requests m member)).raises id
  cases op with
  | dockerRemove id force =>
      cases force with
      | true =>
          obtain ⟨begun, run, found, forced⟩ := licensed
          obtain ⟨other, there, -⟩ := State.run_of_roster kept.roster.symm found
          refine ⟨kept.begun begun, other, there, fun restored => ?_⟩
          obtain ⟨run', found', forced'⟩ :=
            kept.forced restored found (forced (kept.restored restored))
          cases there.symm.trans found'
          exact forced'
      | false =>
          obtain ⟨begun, run, containers, container, found, listed, member, owned, stopped⟩ :=
            licensed
          obtain ⟨other, there, sameId, samePool⟩ :=
            State.run_of_roster kept.roster.symm found
          refine ⟨kept.begun begun, other, containers, container, there, last.trans listed,
            member, ?_, stopped⟩
          rw [Container.owned, managerId, sameId, samePool]
          exact owned
  | dockerCreate _ run =>
      obtain ⟨same, unraised, listed, recorded, found, key, creating⟩ := licensed
      obtain ⟨other, there, sameId, samePool⟩ :=
        State.run_of_roster kept.roster.symm found
      obtain ⟨run', there', creating'⟩ := uncreated _ _ found creating
      cases there.symm.trans there'
      rw [← last] at listed
      refine ⟨managerId ▸ same, ?_, listed, other, there,
        (Prod.ext sameId samePool).trans key, creating'⟩
      rw [pass]
      exact List.forall_mem_append.mpr ⟨unraised, raises⟩
  | dockerStart id =>
      obtain ⟨unlaunched, run, found, evidence⟩ := licensed
      obtain ⟨other, there, sameId, samePool⟩ :=
        State.run_of_roster kept.roster.symm found
      refine ⟨?_, other, there, evidence.imp ?_ ?_⟩
      · rw [pass]
        exact List.forall_mem_append.mpr
          ⟨unlaunched, fun m member => launches_of_raises (raises m member)⟩
      · rw [last, managerId]
        simp only [Container.owned, sameId, samePool]
        exact fun listed => listed
      · rintro ⟨m, member, created⟩
        rw [pass]
        exact ⟨m, List.mem_append_left _ member, created⟩
  | dockerList => exact licensed.trans (congrArg Uuid.text managerId).symm
  | dockerImage | dockerLogs | dockerArchive | dockerBootTime | dockerRepair | githubList
  | githubToken | githubRemove => trivial

/-- `external` meets its specification. -/
theorem external_meets (steady : Steady host origin w) (op : Op)
    (licensed : w.engine.interrupted = false → Licensed w op) :
    Meets host (external op) w (Replied host origin op w)
      (Halts host origin fun error w' => Awaited host origin op w w' ∧
        (w'.engine.interrupted = true ↔ error = .interrupted) ∧
          (error ≠ .interrupted → ∃ m ∈ currentPass w'.history, ∃ failure,
            m.event = .ended op (.error failure))) := by
  refine meets_bind.mpr (meets_engine.mpr ?_)
  split
  · next interrupted =>
      exact ⟨⟨steady, .refl w, .of_eq rfl, .refl _⟩, by simp [interrupted], by simp⟩
  · next running =>
      replace running : w.engine.interrupted = false := by simpa using running
      refine meets_bind.mpr (meets_consult.mpr ?_)
      have broken {fault : Fault Error} {w' : World}
          (stops : fault = .panic ∧ Broken host origin w') :
          Halts host origin (fun error w' => Awaited host origin op w w' ∧
            (w'.engine.interrupted = true ↔ error = .interrupted) ∧
              (error ≠ .interrupted → ∃ m ∈ currentPass w'.history, ∃ failure,
                m.event = .ended op (.error failure))) fault w' := by
        obtain ⟨rfl, broken⟩ := stops
        exact broken
      refine (happenings_meet steady.advance false _).seq (fun _ _ => broken)
        fun _ w₁ early => ?_
      have kept₁ : Kept w w₁ :=
        (Kept.of_eq rfl rfl rfl rfl id : Kept w (w.advance host)).trans early.kept
      have uncreated₁ : Uncreated w w₁ :=
        (Uncreated.of_eq rfl : Uncreated w (w.advance host)).trans early.uncreated
      obtain ⟨queued, history₁, queuedOnly⟩ := early.history
      have pass₁ : currentPass w₁.history = currentPass w.history ++ queued := by
        rw [history₁]
        exact currentPass_append fun m member =>
          (Event.occurs_quiet (queuedOnly m member).1).starts
      have begin_ : Step host w₁ (w₁.log (.began op)) :=
        .begin early.steady.ready
          ((licensed running).kept kept₁ uncreated₁ pass₁ fun m member =>
            (queuedOnly m member).1) pass₁
          (steady.undisturbed running) fun m member => by
            simpa using (queuedOnly m member).2
      have began := early.steady.log begin_ ⟨rfl, rfl, rfl⟩ rfl rfl
      refine meets_bind.mpr (meets_record.mpr ((happenings_meet began true _).seq
        (fun _ _ => broken) fun _ w₃ late => ?_))
      obtain ⟨served, history₃, servedOnly⟩ := late.history
      have history (reply : Except String op.Reply) : (w₃.log (.ended op reply)).history =
          w.history ++ (queued ++ w₁.moment (.began op) :: served ++
            [w₃.moment (.ended op reply)]) := by
        rw [World.log_history, history₃, World.log_history, history₁]
        simp
      have moments : ∀ m ∈ queued ++ w₁.moment (.began op) :: served,
          m.event.awaits op ∧ m.listing = none := by
        simp only [List.forall_mem_append, List.forall_mem_cons]
        exact ⟨fun m member => ⟨Event.awaits_of_occurs (queuedOnly m member).1,
            (Event.occurs_quiet (queuedOnly m member).1).listing⟩, ⟨rfl, rfl⟩,
          fun m member => ⟨Event.awaits_of_occurs (servedOnly m member).1,
            (Event.occurs_quiet (servedOnly m member).1).listing⟩⟩
      refine meets_bind.mpr (meets_record.mpr (meets_bind.mpr (meets_engine.mpr ?_)))
      generalize replied : (host.answers w.asked).reply op = reply
      have ended : Awaited host origin op w (w₃.log (.ended op reply)) := {
        steady := late.steady.plain rfl
        kept := (kept₁.trans (.log w₁ _)).trans (late.kept.trans (.log w₃ _))
        uncreated := uncreated₁.trans (late.uncreated.trans (.of_eq rfl))
        history := ⟨_, history reply, List.forall_mem_append.mpr
          ⟨fun m member => (moments m member).1, by simp [Event.awaits]⟩⟩ }
      split
      · next interrupted => exact ⟨ended, by simpa using interrupted, by simp⟩
      · next running' =>
          cases reply with
          | error failure =>
              refine ⟨ended, by simpa using running', fun _ =>
                ⟨w₃.moment (.ended op (.error failure)), ?_, failure, rfl⟩⟩
              rw [World.log_history, currentPass_concat rfl]
              exact List.mem_append_right _ (List.mem_singleton_self _)
          | ok value =>
              exact ⟨ended, by simpa using running', _, _, history _, moments, rfl, rfl⟩

end Steady

end Runnerctl
