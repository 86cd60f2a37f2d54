import Runnerctl.Guarantees.Revisions
import Runnerctl.Metatheory.Oblivious

/-!
# Failed requests

A request that fails leaves either the state it found or the state that its commit
stored.  If nothing was committed and the read-back succeeds, then nothing of the request
is left that a later save could write.
-/

namespace Runnerctl

open Std Program Journal

/-! ## Atomicity -/

section Atomicity

variable {host : Host} {request : Request} {w w' : World}

/-- A request that failed and was rolled back leaves in memory what the store holds: the
state it found, or the state that its commit stored. -/
theorem failed_requests_atomic {error : Error} (memory : w.store = some w.engine.state)
    (run : handleLocal request host w = (.error (.error error), w'))
    (restored : Restored (w.since w')) :
    w'.store = some w'.engine.state ∧
      (w'.engine.state = w.engine.state ∨
        Commits host w.file w.asked w'.asked w.engine.state request w'.engine.state ∧
          ∃ m ∈ w.since w', m.event = .saved true ∧ m.store = some w'.engine.state) ∧
      (request.commits = false → w'.engine.state = w.engine.state) := by
  obtain ⟨inner, ends⟩ := (handleLocal_meets host request w).stopped run
  have since : w.since w' = inner := by rw [World.since, ends.continues, List.drop_left]
  rw [since] at restored ⊢
  cases ends.outcome with
  | rejected stored origin _ _ =>
      refine ⟨stored, ?_⟩
      rcases origin with kept | ⟨commits, saved⟩
      · have same : w'.engine.state = w.engine.state :=
          Option.some.inj (stored.symm.trans (kept.trans memory))
        exact ⟨.inl same, fun _ => same⟩
      · exact ⟨.inr ⟨commits, saved⟩, fun none => by simp [commits.commits] at none⟩
  | unread failed => exact absurd restored failed

/-- Scaling a pool stores the new configuration and then cannot write the file. -/
theorem failed_requests_atomic_sample : ∃ (host : Host) (w w' : World) (error : Error),
    handleLocal (.scale "a" 2) host w = (.error (.error error), w') ∧
      w'.engine.state.config = .sample [.sample "a" 2] ∧ w'.store = some w'.engine.state := by
  let host : Host := .scripted [.sample [.sample "a" 1], .sample [.sample "a" 2]]
    fun n answers => if n = 7 then { answers with succeeds := false } else answers
  obtain ⟨w, -, holds⟩ := @Host.reaches host "" .blank []
    (fun w => w.store == some w.engine.state && errs (handleLocal (.scale "a" 2) host w).1 &&
      decide (Restored (w.since (handleLocal (.scale "a" 2) host w).2)) &&
      (handleLocal (.scale "a" 2) host w).2.engine.state.config == .sample [.sample "a" 2])
    (by decide +kernel)
  simp only [Bool.and_eq_true, beq_iff_eq, decide_eq_true_eq] at holds
  obtain ⟨⟨⟨memory, fails⟩, restored⟩, config⟩ := holds
  obtain ⟨error, run⟩ := failed_of_errs fails
  exact ⟨host, w, _, error, run, config, (failed_requests_atomic memory run restored).1⟩

/-! ## Nothing is persisted later -/

/-- Something was saved. -/
def Moment.saves (m : Moment) : Bool :=
  match m.event with
  | .saved ok => ok
  | _ => false

/-- A save failed. -/
def Event.unsaved : Event → Bool
  | .saved ok => !ok
  | _ => false

/-- A request was rejected, and nothing of it was committed. -/
structure Rejects (host : Host) (polled : Bool) (request : Request) (w w' : World) : Prop where
  run : serveRequest polled request host w = (.ok (), w')
  failed : ∃ error w₁,
    handleLocal request host (w.log (.received request)) = (.error (.error error), w₁)
  uncommitted : ∀ m ∈ w.since w', m.event ≠ .saved true

/-- The world `w` at the time of `w'`, with memory loaded from the store. -/
def World.reloaded (w w' : World) (t : State) : World :=
  { w with
    engine := { w.engine with
      state := t
      snapshot := w'.engine.snapshot
      epoch := w'.engine.epoch }
    clock := w'.clock
    asked := w'.asked }

def Command.run : Command → EngineM Unit
  | .request request => serveRequest true request
  | .tick => Runnerctl.tick
  | .edit text => happen true (.edit text)

/-- Follow some commands, until the manager stops. -/
def follow (commands : List Command) : EngineM Unit := commands.forM Command.run

/-- From both worlds the program ends alike, and adds the same moments: the same states
are saved. -/
def Alike {α : Type} (host : Host) (program : EngineM α) (w v : World) : Prop :=
  (program host w).1 = (program host v).1 ∧
    Twins w.history v.history (program host w).2 (program host v).2

/-- What happens after `w'` is what would have happened, had memory been loaded from the
store of `w` and nothing else been done: between turns, and in the rest of a pass. -/
def Untraced (host : Host) (w w' : World) : Prop :=
  ∃ t, w.store = some t ∧
    (∀ commands, Alike host (follow commands) w' (w.reloaded w' t)) ∧
    ∀ {α : Type} (rest : EngineM α), Oblivious rest → Alike host rest w' (w.reloaded w' t)

theorem follow_oblivious (commands : List Command) : Oblivious (follow commands) := by
  intro first second
  have (command : Command) : Respects (Twins first second) command.run := by
    cases command with
    | request request => exact inferInstanceAs (Respects _ (serveRequest true request))
    | tick => exact inferInstanceAs (Respects _ Runnerctl.tick)
    | edit text => exact inferInstanceAs (Respects _ (happen true (.edit text)))
  exact .forM commands Command.run

/-- Programs cannot tell worlds apart that differ only in their histories. -/
theorem alike_of_oblivious {α : Type} {program : EngineM α} (oblivious : Oblivious program)
    (w : World) (history : List Moment) : Alike host program w { w with history } :=
  have respects := oblivious w.history history
  ⟨respects.result host (.refl w history), respects.final host (.refl w history)⟩

theorem serveRequest_of_error {polled : Bool} {error : Error} {w₁ : World}
    (failed : handleLocal request host (w.log (.received request)) =
      (.error (.error error), w₁)) :
    serveRequest polled request host w =
      (.ok (), w₁.log (.handled polled request w.engine.state (.error error))) := by
  have caught : attempt (handleLocal request) host (w.log (.received request)) =
      (.ok (.error error), w₁) := by
    rw [attempt, failed]
  exact bind_run_ok caught

/-- After a rejected request that committed nothing the world is the one before, with
memory loaded from the store. -/
theorem Rejects.reloaded {polled : Bool} (rejects : Rejects host polled request w w')
    (restored : Restored (w.since w')) :
    ∃ t, w.store = some t ∧ w.reloaded w' t = { w' with history := w.history } := by
  have served := (serveRequest_meets host polled request w).returned rejects.run
  obtain ⟨inner, result, history, -, outcome⟩ := served.outcome
  have since : w.since w' = w.moment (.received request) :: inner ++
      [w'.moment (.handled polled request w.engine.state result)] := by
    rw [World.since, history, List.append_assoc, List.drop_left]
  have file : w'.file = w.file := by
    rcases served.file with same | ⟨_, -, m, member, saved⟩
    · exact same
    · exact absurd saved (rejects.uncommitted m member)
  have state : w'.store = some w'.engine.state ∧ w'.store = w.store := by
    cases outcome with
    | accepted =>
        obtain ⟨error, w₁, failed⟩ := rejects.failed
        have answer : w' = w₁.log (.handled polled request w.engine.state (.error error)) :=
          congrArg Prod.snd (rejects.run.symm.trans (serveRequest_of_error failed))
        have last := congrArg World.history answer
        rw [history] at last
        obtain ⟨-, same⟩ := List.append_singleton_inj.mp last
        cases congrArg Moment.event same
    | rejected stored origin _ _ =>
        refine ⟨stored, origin.elim id fun committed => ?_⟩
        obtain ⟨_, m, member, saved, _⟩ := committed
        exact absurd saved (rejects.uncommitted m (by simp [since, member]))
    | unread failed =>
        refine absurd (fun m member => restored m ?_) failed
        simp [since, member]
  refine ⟨w'.engine.state, state.2.symm.trans state.1, ?_⟩
  have engine : w'.engine = ⟨w'.engine.state, w.engine.cursor, w.engine.bootTime,
      w'.engine.snapshot, w'.engine.epoch, w.engine.reconcileEpoch⟩ := by
    rw [← served.cursor, ← served.bootTime, ← served.reconcileEpoch]
  change (⟨⟨_, _, _, _, _, _⟩, w.store, w.file, _, _, _⟩ : World) = ⟨_, _, _, _, _, _⟩
  rw [← engine, ← state.2, ← file]

/-- A rejected request of which nothing was committed leaves no trace, if the store is
read back. -/
theorem rejected_mutations_untraced {polled : Bool}
    (rejects : Rejects host polled request w w') (restored : Restored (w.since w')) :
    Untraced host w w' := by
  obtain ⟨t, stored, same⟩ := rejects.reloaded restored
  refine ⟨t, stored, ?_⟩
  rw [same]
  exact ⟨fun commands => alike_of_oblivious (follow_oblivious commands) w' _,
    fun rest oblivious => alike_of_oblivious oblivious w' _⟩

theorem Rejects.of_errs
    (fails : errs (handleLocal request host (w.log (.received request))).1 = true)
    (uncommitted : ((w.since (serveRequest true request host w).2).all
      fun m => !m.saves) = true) :
    Rejects host true request w (serveRequest true request host w).2 := by
  obtain ⟨error, failed⟩ := failed_of_errs fails
  refine ⟨by rw [serveRequest_of_error failed], ⟨error, _, failed⟩,
    fun m member saved => ?_⟩
  have none := List.all_eq_true.mp uncommitted m member
  simp [Moment.saves, saved] at none

/-- `Start` is rejected, since the save fails; the state is read back. -/
theorem rejected_mutations_untraced_sample : ∃ (host : Host) (w w' : World),
    Rejects host true (.start (some "a") false) w w' ∧ Untraced host w w' := by
  let host : Host := .scripted [.sample [.sample "a" 1]]
    fun n answers => if n = 5 then { answers with succeeds := false } else answers
  let request : Request := .start (some "a") false
  obtain ⟨w, -, holds⟩ := @Host.reaches host "" .blank []
    (fun w =>
      let w' := (serveRequest true request host w).2
      errs (handleLocal request host (w.log (.received request))).1 &&
        ((w.since w').all fun m => !m.saves) && decide (Restored (w.since w')))
    (by decide +kernel)
  simp only [Bool.and_eq_true, decide_eq_true_eq] at holds
  obtain ⟨⟨fails, uncommitted⟩, restored⟩ := holds
  have rejects := Rejects.of_errs fails uncommitted
  exact ⟨host, w, _, rejects, rejected_mutations_untraced rejects restored⟩

/-- `Start` is rejected, since neither the save nor the read-back succeeds.  The next tick
stores that the pool runs. -/
theorem rejected_start_persisted : ∃ (host : Host) (w w' : World), Reachable host w ∧
    Rejects host true (.start (some "a") false) w w' ∧
    (∃ m ∈ w.since w', m.event = .saved false) ∧ ¬ Untraced host w w' := by
  let host : Host := .scripted [.sample [.sample "a" 1]]
    fun n answers => if n = 5 ∨ n = 6 then { answers with succeeds := false } else answers
  let request : Request := .start (some "a") false
  obtain ⟨w, reachable, holds⟩ := @Host.reaches host "" .blank []
    (fun w =>
      let w' := (serveRequest true request host w).2
      errs (handleLocal request host (w.log (.received request))).1 &&
        ((w.since w').all fun m => !m.saves) &&
        ((w.since w').any fun m => m.event.unsaved) &&
        w.store.any fun t => (follow [.tick] host w').2.store !=
          (follow [.tick] host (w.reloaded w' t)).2.store)
    (by decide +kernel)
  simp only [Bool.and_eq_true] at holds
  obtain ⟨⟨⟨fails, uncommitted⟩, failed⟩, differs⟩ := holds
  refine ⟨host, w, _, reachable, .of_errs fails uncommitted, ?_, ?_⟩
  · obtain ⟨m, member, unsaved⟩ := List.any_eq_true.mp failed
    refine ⟨m, member, ?_⟩
    cases event : m.event with
    | saved ok => cases ok <;> simp_all [Event.unsaved]
    | _ => simp [event, Event.unsaved] at unsaved
  · rintro ⟨t, stored, turns, -⟩
    rw [stored, Option.any_some, bne_iff_ne] at differs
    obtain ⟨-, new, -, same⟩ := turns [.tick]
    exact differs (by rw [same])

end Atomicity

end Runnerctl
