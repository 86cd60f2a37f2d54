import Runnerctl.Metatheory.History
import Runnerctl.Metatheory.Serving

/-!
# Readiness

The invariant at the points where a request can be handled: between ticks and at the
awaits of a pass.  Which runs are recorded never differs between memory and store, even
after a read-back failed; the rest needs that every read-back succeeded.
-/

namespace Runnerctl

open Std Program Journal

/-- The id that `replenish` gives to a run. -/
def runId (managerId uuid : Uuid) : String :=
  "rc-" ++ managerId.short ++ "-" ++ uuid.text

/-- The ids of runs tell which answer they were built from. -/
theorem runId_injective {managerId uuid uuid' : Uuid}
    (same : runId managerId uuid = runId managerId uuid') : uuid = uuid' := by
  rw [runId, runId] at same
  exact Uuid.eq_of_text ((String.append_right_inj _).mp same)

/-- Runs are recorded under their own id, which was built from one of the first `n`
answers. -/
def Roster.Named (host : Host) (n : Nat) (roster : Roster) : Prop :=
  ∀ (id : String) (key : String × String), roster.runs[id]? = some key →
    key.1 = id ∧ ∃ k < n, id = runId roster.managerId (host.answers k).uuid

theorem Roster.Named.mono {host : Host} {n m : Nat} {roster : Roster}
    (named : roster.Named host n) (le : n ≤ m) : roster.Named host m :=
  fun id key found =>
    let ⟨same, k, small, built⟩ := named id key found
    ⟨same, k, small.trans_le le, built⟩

/-- The runs that are recorded under other ids. -/
theorem Roster.Named.erase {host : Host} {n : Nat} {s : State} (named : s.roster.Named host n)
    (id : String) : ({ s with runs := s.runs.erase id } : State).roster.Named host n := by
  intro other key found
  refine named other key ?_
  simp only [State.roster, TreeMap.get_image, TreeMap.get_erase] at found ⊢
  split at found
  · simp at found
  · exact found

theorem Roster.Named.insert {host : Host} {n : Nat} {s : State}
    (named : s.roster.Named host n) {run : Run} {k : Nat} (small : k < n)
    (id : run.id = runId s.managerId (host.answers k).uuid) :
    (s.setRun run.id run).roster.Named host n := by
  intro other key found
  simp only [State.roster, State.setRun_runs, TreeMap.get_image, TreeMap.get_insert] at found
  split at found
  · next equal =>
      cases found
      exact ⟨equal, k, small, equal ▸ id⟩
  · refine named other key ?_
    simp only [State.roster, TreeMap.get_image]
    exact found

/-- The state may be saved. -/
structure Savable (host : Host) (w : World) (s : State) : Prop where
  named : s.roster.Named host w.asked
  sound : Restored w.history → Fresh host w.asked → s.Sound ∧ s.Drawn host w.asked

/-- The stored state `t` differs from memory in what was observed, at most.  Every run
that memory takes for one without a container was stored as such. -/
structure Backs (w : World) (t : State) : Prop where
  roster : t.roster = w.engine.state.roster
  header : t.header = w.engine.state.header
  creating : ∀ {id : String} {run : Run}, w.engine.state.runs[id]? = some run →
    run.phase = .creating → ∃ run', t.runs[id]? = some run' ∧ run'.phase = .creating
  intent : Restored w.history → t.intent = w.engine.state.intent

theorem Backs.refl (w : World) : Backs w w.engine.state where
  roster := rfl
  header := rfl
  creating found creating := ⟨_, found, creating⟩
  intent _ := rfl

/-- Requests can be handled. -/
structure Ready (host : Host) (w : World) : Prop
    extends Savable host w w.engine.state where
  stored : ∃ t, w.store = some t ∧ Backs w t

theorem State.keyed_of_named {host : Host} {n : Nat} {s : State}
    (named : s.roster.Named host n) {id : String} {run : Run}
    (found : s.runs[id]? = some run) : run.id = id := by
  refine (named id run.key ?_).1
  rw [State.roster, TreeMap.get_image, found, Option.map_some]

section Ready

variable {host : Host} {w w' : World}

theorem restored_of_grows {added : Moment → Prop} {first second : List Moment}
    (grows : Grows added first second) (restored : Restored second) : Restored first :=
  fun m member => restored m (grows.mem member)

theorem restored_currentPass {history : List Moment} (restored : Restored history) :
    Restored (currentPass history) :=
  fun m member => restored m (mem_of_currentPass member)

/-- A state whose pools have the same ids may be saved, too. -/
theorem Savable.map {s t : State} (savable : Savable host w s) (asked : w.asked ≤ w'.asked)
    (restored : Restored w'.history → Restored w.history)
    (named : t.roster.Named host w'.asked) (sound : s.Sound → t.Sound)
    (ids : ∀ {name : String} {p' : PoolState}, t.pools[name]? = some p' →
      ∃ p, s.pools[name]? = some p ∧ p.id = p'.id) : Savable host w' t :=
  ⟨named, fun restored' fresh =>
    (savable.sound (restored restored') (fresh.mono asked)).imp sound
      fun drawn => (drawn.mono asked).of_ids ids⟩

namespace Ready

theorem keyed (ready : Ready host w) {id : String} {run : Run}
    (found : w.engine.state.runs[id]? = some run) : run.id = id :=
  State.keyed_of_named ready.named found

/-- Memory may change in what was observed, and in nothing else. -/
theorem keep (ready : Ready host w) (store : w'.store = w.store)
    (roster : w'.engine.state.roster = w.engine.state.roster)
    (header : w'.engine.state.header = w.engine.state.header)
    (creating : ∀ {id : String} {run' : Run}, w'.engine.state.runs[id]? = some run' →
      run'.phase = .creating →
        ∃ run, w.engine.state.runs[id]? = some run ∧ run.phase = .creating)
    (intent : Restored w'.history →
      Restored w.history ∧ w'.engine.state.intent = w.engine.state.intent)
    (asked : w.asked ≤ w'.asked) : Ready host w' where
  stored := by
    obtain ⟨t, stored, backs⟩ := ready.stored
    refine ⟨t, store.trans stored, backs.roster.trans roster.symm,
      backs.header.trans header.symm, fun found phase => ?_, fun restored => ?_⟩
    · obtain ⟨run, there, phase⟩ := creating found phase
      exact backs.creating there phase
    · obtain ⟨restored, kept⟩ := intent restored
      exact (backs.intent restored).trans kept.symm
  named := roster ▸ ready.named.mono asked
  sound := by
    intro restored fresh
    obtain ⟨restored, kept⟩ := intent restored
    obtain ⟨sound, drawn⟩ := ready.sound restored (fresh.mono asked)
    obtain ⟨-, -, -, -, pools, -⟩ := State.intent_eq_iff.mp kept
    exact ⟨sound.of_intent kept.symm, fun name p found =>
      drawn.mono asked name p (pools ▸ found)⟩

/-- Nothing changes but the history, the clock and the questions asked. -/
theorem frame (ready : Ready host w) (state : w'.engine.state = w.engine.state)
    (store : w'.store = w.store) (history : Restored w'.history → Restored w.history)
    (asked : w.asked ≤ w'.asked) : Ready host w' :=
  ready.keep store (by rw [state]) (by rw [state])
    (fun {_ run} found phase => ⟨run, state ▸ found, phase⟩)
    (fun restored => ⟨history restored, by rw [state]⟩) asked

/-- After a save. -/
theorem saved (store : w'.store = some w'.engine.state)
    (savable : Savable host w' w'.engine.state) : Ready host w' :=
  ⟨savable, _, store, .refl w'⟩

end Ready

/-! ## Runs without a container -/

/-- Neither memory nor the store takes the run for one without a container. -/
def Begun (w : World) (id : String) : Prop :=
  (∀ run, w.engine.state.runs[id]? = some run → run.phase ≠ .creating) ∧
    ∀ t, w.store = some t → ∀ run, t.runs[id]? = some run → run.phase ≠ .creating

/-- Memory and the store are those of the manager. -/
def World.Belongs (w : World) (managerId : Uuid) : Prop :=
  w.engine.state.managerId = managerId ∧ ∀ t, w.store = some t → t.managerId = managerId

/-- A run without a container stays one. -/
def Uncreated (w w' : World) : Prop :=
  ∀ (id : String) (run : Run), w.engine.state.runs[id]? = some run → run.phase = .creating →
    ∃ run', w'.engine.state.runs[id]? = some run' ∧ run'.phase = .creating

theorem Uncreated.of_eq (state : w'.engine.state = w.engine.state) : Uncreated w w' :=
  fun _ run found creating => ⟨run, state ▸ found, creating⟩

theorem Uncreated.trans {w'' : World} (first : Uncreated w w') (second : Uncreated w' w'') :
    Uncreated w w'' := fun id run found creating =>
  let ⟨run', found', creating'⟩ := first id run found creating
  second id run' found' creating'

/-! ## Requests keep a world ready -/

variable {polled : Bool} {request : Request}

theorem Served.grows (served : Served host polled request w w') :
    Grows (fun m => m.event.ofRequest = true) w.history w'.history :=
  served.history.mono fun _ allowed => allowed.1

/-- A read-back failed. -/
theorem Served.unrestored {inner : List Moment} {result : Except Error Response}
    (history : w'.history = w.history ++ w.moment (.received request) :: inner ++
      [w'.moment (.handled polled request w.engine.state result)])
    (failed : ¬ Restored inner) : ¬ Restored w'.history := by
  rw [history]
  intro restored
  obtain ⟨restored, -⟩ := restored_append.mp restored
  exact failed (List.forall_mem_cons.mp (restored_append.mp restored).2).2

/-- Memory is what it was, up to marks, or what the store held. -/
theorem Served.memory (served : Served host polled request w w') :
    w.engine.state.Marks w'.engine.state ∨ w.store = some w'.engine.state := by
  obtain ⟨inner, result, -, -, outcome⟩ := served.outcome
  cases outcome with
  | accepted accepts _ _ _ => exact .inl accepts.marks
  | rejected stored origin _ _ =>
      rcases origin with kept | ⟨commits, -⟩
      · exact .inr (kept.symm.trans stored)
      · exact .inl commits.marks
  | unread _ marks _ _ _ => exact .inl marks

/-- The store holds what it did, or what memory held up to marks. -/
theorem Storable.marks {hi : Nat} {store : Option State}
    (storable : Storable host request w hi store) :
    store = w.store ∨ ∃ s, store = some s ∧ w.engine.state.Marks s :=
  storable.imp_right fun ⟨s, stored, origin⟩ => ⟨s, stored,
    origin.elim (·.marks) fun ⟨_, accepts⟩ => accepts.marks⟩

theorem Begun.of_marks {id : String} (begun : Begun w id) {s : State}
    (marks : w.engine.state.Marks s) (run : Run) (found : s.runs[id]? = some run) :
    run.phase ≠ .creating := by
  obtain ⟨before, there, same⟩ := marks.back found
  exact same ▸ begun.1 before there

/-- A run that had a container keeps its phase. -/
theorem Served.begun (served : Served host polled request w w') {id : String}
    (begun : Begun w id) : Begun w' id := by
  constructor
  · rcases served.memory with marks | stored
    · exact begun.of_marks marks
    · exact begun.2 _ stored
  · intro t stored
    rcases served.store.marks with kept | ⟨s, stored', marks⟩
    · exact begun.2 t (kept ▸ stored)
    · cases stored.symm.trans stored'
      exact begun.of_marks marks

/-- Memory and the store stay those of the manager. -/
theorem Served.belongs (served : Served host polled request w w') {managerId : Uuid}
    (belongs : w.Belongs managerId) : w'.Belongs managerId := by
  constructor
  · rcases served.memory with marks | stored
    · exact marks.managerId.trans belongs.1
    · exact belongs.2 _ stored
  · intro t stored
    rcases served.store.marks with kept | ⟨s, stored', marks⟩
    · exact belongs.2 t (kept ▸ stored)
    · cases stored.symm.trans stored'
      exact marks.managerId.trans belongs.1

theorem Served.uncreated (served : Served host polled request w w') (ready : Ready host w) :
    Uncreated w w' := by
  intro id run found creating
  rcases served.memory with marks | stored
  · obtain ⟨_, _, found'⟩ := marks.run found
    exact ⟨_, found', creating⟩
  · obtain ⟨t, stored', backs⟩ := ready.stored
    cases stored.symm.trans stored'
    exact backs.creating found creating

/-- The recorded runs stay the same. -/
theorem Served.roster (served : Served host polled request w w') (ready : Ready host w) :
    w'.engine.state.roster = w.engine.state.roster := by
  obtain ⟨inner, result, -, -, outcome⟩ := served.outcome
  cases outcome with
  | accepted accepts _ _ _ => exact accepts.roster
  | rejected stored origin _ _ =>
      rcases origin with kept | ⟨commits, -⟩
      · obtain ⟨t, stored', backs⟩ := ready.stored
        cases stored.symm.trans (kept.trans stored')
        exact backs.roster
      · exact commits.roster
  | unread _ marks _ _ _ => exact marks.roster

theorem Served.ready (served : Served host polled request w w') (ready : Ready host w) :
    Ready host w' := by
  have named : w'.engine.state.roster.Named host w'.asked :=
    served.roster ready ▸ ready.named.mono served.asked
  obtain ⟨inner, result, history, -, outcome⟩ := served.outcome
  have restored (restored : Restored w'.history) : Restored w.history :=
    restored_of_grows served.grows restored
  cases outcome with
  | accepted accepts saved _ _ =>
      have sound : Restored w'.history → Fresh host w'.asked →
          w'.engine.state.Sound ∧ w'.engine.state.Drawn host w'.asked := by
        intro restored' fresh
        obtain ⟨sound, drawn⟩ := ready.sound (restored restored') (fresh.mono served.asked)
        exact accepts.sound served.asked sound drawn fresh
      cases mutating : request.mutating with
      | true => exact .saved (by rw [saved, if_pos mutating]) ⟨named, sound⟩
      | false =>
          refine ready.frame (accepts.readonly mutating) ?_ restored served.asked
          rw [saved, mutating, if_neg Bool.false_ne_true]
  | rejected stored origin _ _ =>
      refine .saved stored ⟨named, fun restored' fresh => ?_⟩
      obtain ⟨sound, drawn⟩ := ready.sound (restored restored') (fresh.mono served.asked)
      rcases origin with kept | ⟨commits, -⟩
      · obtain ⟨t, stored', backs⟩ := ready.stored
        cases stored.symm.trans (kept.trans stored')
        have same := backs.intent (restored restored')
        obtain ⟨-, -, -, -, pools, -⟩ := State.intent_eq_iff.mp same
        exact ⟨sound.of_intent same.symm, fun name p found =>
          drawn.mono served.asked name p (pools ▸ found)⟩
      · exact commits.sound served.asked sound drawn fresh
  | unread failed marks _ unanswered _ =>
      have unrestored := Served.unrestored history failed
      refine ⟨⟨named, fun restored => absurd restored unrestored⟩, ?_⟩
      -- the phases of the runs are those that memory had
      have phase {id : String} {run' : Run} (found : w'.engine.state.runs[id]? = some run')
          (creating : run'.phase = .creating) :
          ∃ run, w.engine.state.runs[id]? = some run ∧ run.phase = .creating := by
        obtain ⟨run, there, same⟩ := marks.back found
        exact ⟨run, there, same.trans creating⟩
      rcases unanswered with ⟨kept, header⟩ | ⟨c, stored, header, commits, -⟩
      · obtain ⟨t, stored, backs⟩ := ready.stored
        refine ⟨t, kept.trans stored, backs.roster.trans marks.roster.symm,
          backs.header.trans header.symm, fun found creating => ?_,
          fun restored => absurd restored unrestored⟩
        obtain ⟨run, there, creating⟩ := phase found creating
        exact backs.creating there creating
      · exact ⟨c, stored, commits.roster.trans marks.roster.symm, header.symm,
          fun found creating => commits.runs ▸ phase found creating,
          fun restored => absurd restored unrestored⟩

/-- Without a mutation the intent stays the same. -/
theorem Served.intent (served : Served host polled request w w') (ready : Ready host w)
    (restored : Restored w'.history) (same : w'.engine.epoch = w.engine.epoch) :
    w'.engine.state.intent = w.engine.state.intent := by
  obtain ⟨inner, result, history, -, outcome⟩ := served.outcome
  have readonly (epoch : w'.engine.epoch =
      w.engine.epoch + (if request.mutating then 1 else 0)) : request.mutating = false := by
    cases mutating : request.mutating with
    | false => rfl
    | true =>
        rw [mutating, if_pos rfl] at epoch
        omega
  cases outcome with
  | accepted accepts _ epoch _ => rw [accepts.readonly (readonly epoch)]
  | rejected stored origin epoch _ =>
      rcases origin with kept | ⟨commits, -⟩
      · obtain ⟨t, stored', backs⟩ := ready.stored
        cases stored.symm.trans (kept.trans stored')
        exact backs.intent (restored_of_grows served.grows restored)
      · exact absurd (readonly epoch) (by simp [commits.mutating])
  | unread failed => exact absurd restored (Served.unrestored history failed)

/-- A forced run stays forced. -/
theorem Served.forced (served : Served host polled request w w') (ready : Ready host w)
    (restored : Restored w'.history) {id : String} {run : Run}
    (found : w.engine.state.runs[id]? = some run) (forced : run.force = true) :
    ∃ run', w'.engine.state.runs[id]? = some run' ∧ run'.force = true := by
  obtain ⟨inner, result, history, -, outcome⟩ := served.outcome
  cases outcome with
  | accepted accepts _ _ _ =>
      rcases accepts.flags id with ⟨none, -⟩ | ⟨run', _, force, there, here⟩
      · simp [none] at found
      · cases found.symm.trans there
        exact ⟨_, here, by simp [forced]⟩
  | rejected stored origin _ _ =>
      rcases origin with kept | ⟨commits, -⟩
      · obtain ⟨t, stored', backs⟩ := ready.stored
        cases stored.symm.trans (kept.trans stored')
        have same := backs.intent (restored_of_grows served.grows restored)
        obtain ⟨run', there, forget⟩ := State.run_of_intent same.symm found
        refine ⟨run', there, ?_⟩
        rw [(Run.forget_eq_iff.mp forget).2.2.2.2.2.2, forced]
      · exact ⟨run, commits.runs ▸ found, forced⟩
  | unread failed => exact absurd restored (Served.unrestored history failed)

/-- A mutation that was handled advances the epoch, if failed requests are read back. -/
theorem Served.epoch_eq (served : Served host polled request w w')
    (restored : ∀ new, w'.history = w.history ++ new → Restored new) :
    w'.engine.epoch = w.engine.epoch + (if request.mutating then 1 else 0) := by
  obtain ⟨inner, result, history, -, outcome⟩ := served.outcome
  cases outcome with
  | accepted _ _ epoch _ => exact epoch
  | rejected _ _ epoch _ => exact epoch
  | unread failed =>
      have restored := restored _ (history.trans (List.append_assoc ..))
      obtain ⟨restored, -⟩ := restored_append.mp restored
      exact absurd (List.forall_mem_cons.mp restored).2 failed

/-- Only a mutation advances the epoch. -/
theorem Served.mutating (served : Served host polled request w w')
    (advanced : w.engine.epoch < w'.engine.epoch) : request.mutating = true := by
  obtain ⟨inner, result, -, -, outcome⟩ := served.outcome
  have mutating (epoch : w'.engine.epoch =
      w.engine.epoch + (if request.mutating then 1 else 0)) : request.mutating = true := by
    by_contra readonly
    rw [if_neg readonly] at epoch
    omega
  cases outcome with
  | accepted _ _ epoch _ => exact mutating epoch
  | rejected _ _ epoch _ => exact mutating epoch
  | unread _ _ _ _ epoch => omega

/-- The deadline of a pool changes only through an accepted request that resets it. -/
theorem Served.retry (served : Served host polled request w w') (ready : Ready host w)
    (restored : Restored w'.history) (fresh : Fresh host w'.asked) {new : List Moment}
    (continues : w'.history = w.history ++ new) {name : String} {p : PoolState}
    (found : w.engine.state.pools[name]? = some p) :
    ∃ p', w'.engine.state.pools[name]? = some p' ∧
      (p'.retryAt = p.retryAt ∨ p'.retryAt = 0 ∧ ∃ m ∈ new, m.Resets name) := by
  obtain ⟨inner, result, history, -, outcome⟩ := served.outcome
  have before := restored_of_grows served.grows restored
  have indexed := (ready.sound before (fresh.mono served.asked)).1.toIndexed
  cases outcome with
  | accepted accepts _ _ _ =>
      obtain ⟨p', there, same | ⟨reset, resets⟩⟩ :=
        accepts.schedule served.asked indexed found
      · exact ⟨p', there, .inl (congrArg Prod.fst same)⟩
      · rw [history, List.append_assoc] at continues
        rw [← List.append_cancel_left continues]
        refine ⟨p', there, .inr ⟨reset, _, List.mem_append_right _
          (List.mem_singleton_self _), polled, request, w.engine.state, _, rfl, resets⟩⟩
  | rejected stored origin _ _ =>
      rcases origin with kept | ⟨commits, -⟩
      · obtain ⟨t, stored', backs⟩ := ready.stored
        cases stored.symm.trans (kept.trans stored')
        obtain ⟨-, -, -, -, pools, -⟩ := State.intent_eq_iff.mp (backs.intent before)
        exact ⟨p, pools ▸ found, .inl rfl⟩
      · obtain ⟨generation, kept⟩ :=
          (commits.reconfigures served.asked indexed).extends_.kept found
        exact ⟨_, kept, .inl rfl⟩
  | unread failed => exact absurd restored (Served.unrestored history failed)

end Ready

end Runnerctl
