import Runnerctl.Guarantees.Intent

/-!
# Changes during a pass

What a mutation left while a pass was awaiting something is there when the tick ends, in
memory and in the store, unless another mutation changed it: the pass writes nothing back
over it, and its last save stores it.
-/

namespace Runnerctl

open Std Program Journal

section Changes

variable {α : Type} {host : Host} {w₀ w w' : World} {part : State → α}
  {moments new more : List Moment} {s t : State} {m : Moment}

/-- The mutation that was handled last changed a part of the intent.  It was accepted, or it
failed after its commit. -/
def Moment.Alters (part : State → α) (inner : List Moment) (m : Moment) : Prop :=
  ∃ polled request found result, m.event = .handled polled request found result ∧
    request.mutating = true ∧ part m.state.intent ≠ part found.intent ∧
      (result.isOk = true ∨ ∃ m' ∈ inner, m'.event = .saved true)

/-- A mutation arrived, and changed a part of the intent. -/
def Altered (part : State → α) (moments : List Moment) : Prop :=
  ∃ before arrival inner m after, moments = before ++ arrival :: inner ++ m :: after ∧
    arrival.arrives = true ∧ (∀ m' ∈ inner, m'.event.between = true) ∧
      m.Alters part inner

theorem Altered.append (altered : Altered part moments) (more : List Moment) :
    Altered part (moments ++ more) := by
  obtain ⟨before, arrival, inner, m, after, rfl, received⟩ := altered
  exact ⟨before, arrival, inner, m, after ++ more, by simp, received⟩

theorem Altered.prepend (altered : Altered part moments) (earlier : List Moment) :
    Altered part (earlier ++ moments) := by
  obtain ⟨before, arrival, inner, m, after, rfl, received⟩ := altered
  exact ⟨earlier ++ before, arrival, inner, m, after, by simp, received⟩

theorem not_altered (quiet : ∀ m ∈ moments, m.arrives = false) : ¬ Altered part moments := by
  rintro ⟨before, arrival, inner, m, after, rfl, arrives, -⟩
  cases arrives.symm.trans (quiet arrival (by simp))

/-- What a mutation left of a part is what `s` has of it, unless it was altered. -/
def Remains (part : State → α) (new : List Moment) (s : State) : Prop :=
  ∀ first m rest, new = first ++ m :: rest → m.mutation = true →
    part s.intent = part m.state.intent ∨ Altered part rest

namespace Remains

theorem append (remains : Remains part new s) (calm : ∀ m ∈ more, m.mutation = false) :
    Remains part (new ++ more) s := by
  intro first m rest split mutation
  rcases split_append split with ⟨tail, equal, rfl⟩ | ⟨tail, -, rfl⟩
  · exact (remains first m tail equal mutation).imp_right (·.append more)
  · cases mutation.symm.trans (calm m (by simp))

/-- A state with the same intent, if there was a mutation at all. -/
theorem congr (remains : Remains part new s)
    (same : ∀ first m rest, new = first ++ m :: rest → m.mutation = true →
      t.intent = s.intent) : Remains part new t := by
  intro first m rest split mutation
  rw [same first m rest split mutation]
  exact remains first m rest split mutation

/-- Another mutation was handled. -/
theorem serve (remains : Remains part new s) (calm : ∀ m ∈ more, m.mutation = false)
    (state : m.state = t)
    (alters : part t.intent ≠ part s.intent → Altered part (more ++ [m])) :
    Remains part (new ++ (more ++ [m])) t := by
  intro first m' rest split mutation
  rcases split_append split with ⟨tail, equal, rfl⟩ | ⟨tail, -, equal⟩
  · by_cases same : part t.intent = part s.intent
    · rw [same]
      exact (remains first m' tail equal mutation).imp_right (·.append _)
    · exact .inr ((alters same).prepend tail)
  · rcases split_append equal with ⟨tail', rfl, -⟩ | ⟨tail', -, last⟩
    · cases mutation.symm.trans (calm m' (by simp))
    · rcases List.append_eq_singleton_iff.mp last.symm with ⟨-, same⟩ | ⟨-, none⟩
      · obtain ⟨rfl, rfl⟩ := List.cons.inj same
        exact .inl (by rw [state])
      · cases none

end Remains

theorem Served.altered (part : State → α) {polled : Bool} {request : Request}
    (served : Served host polled request w w') (ready : Ready host w)
    (restored : Restored w'.history) (mutating : request.mutating = true) :
    w'.store = some w'.engine.state ∧ ∃ more m, w'.history = w.history ++ (more ++ [m]) ∧
      (∀ m ∈ more, m.mutation = false) ∧ m.state = w'.engine.state ∧
        (part w'.engine.state.intent ≠ part w.engine.state.intent →
          Altered part (more ++ [m])) := by
  obtain ⟨inner, result, history, between, outcome⟩ := served.outcome
  have alters (changed : part w'.engine.state.intent ≠ part w.engine.state.intent)
      (effective : result.isOk = true ∨ ∃ m ∈ inner, m.event = .saved true) :
      Altered part (w.moment (.received request) :: inner ++
        [w'.moment (.handled polled request w.engine.state result)]) :=
    ⟨[], _, inner, _, [], rfl, mutating, between, polled, request, w.engine.state, result,
      rfl, mutating, changed, effective⟩
  have handled (store : w'.store = some w'.engine.state)
      (effective : part w'.engine.state.intent ≠ part w.engine.state.intent →
        result.isOk = true ∨ ∃ m ∈ inner, m.event = .saved true) :
      w'.store = some w'.engine.state ∧ ∃ more m, w'.history = w.history ++ (more ++ [m]) ∧
        (∀ m ∈ more, m.mutation = false) ∧ m.state = w'.engine.state ∧
          (part w'.engine.state.intent ≠ part w.engine.state.intent →
            Altered part (more ++ [m])) := by
    refine ⟨store, _, _, history.trans (List.append_assoc ..), ?_, rfl,
      fun changed => alters changed (effective changed)⟩
    exact List.forall_mem_cons.mpr ⟨rfl, fun m member => mutation_of_between (between m member)⟩
  cases outcome with
  | accepted _ store =>
      rw [if_pos mutating] at store
      exact handled store fun _ => .inl rfl
  | rejected store origin =>
      refine handled store fun changed => ?_
      rcases origin with kept | ⟨-, m, member, saved, -⟩
      · -- nothing was committed, and the store had the intent that memory had
        obtain ⟨t, stored, backs⟩ := ready.stored
        cases store.symm.trans (kept.trans stored)
        exact absurd (congrArg part (backs.intent (restored_of_grows served.grows restored)))
          changed
      · exact .inr ⟨m, member, saved⟩
  | unread failed => exact absurd restored (Served.unrestored history failed)

theorem Steps.finalised (steps : Steps host w w') (finalised : w.Finalised) :
    w'.Finalised := by
  induction steps with
  | refl => exact finalised
  | tail _ step inductionHypothesis => exact step.finalised inductionHypothesis

/-- While no pass begins, memory and the store keep what mutations left. -/
theorem Steps.remains (part : State → α) (steps : Steps host w₀ w) (finalised : w₀.Finalised)
    (stored : ∃ t, w₀.store = some t) (quiet : ∀ m ∈ w₀.since w, m.starts = false)
    (restored : Restored w.history) (fresh : Fresh host w.asked) :
    Remains part (w₀.since w) w.engine.state ∧
      ∃ t, w.store = some t ∧ Remains part (w₀.since w) t := by
  induction steps with
  | refl =>
      obtain ⟨t, stored⟩ := stored
      have none (s : State) : Remains part (w₀.since w₀) s := by
        intro first m rest split
        simp [World.since] at split
      exact ⟨none _, t, stored, none t⟩
  | @tail w w' steps step inductionHypothesis =>
      have advances := step.advances
      have earlier := (Steps.advances steps).history
      obtain ⟨new, history⟩ := advances.history
      have since : w₀.since w' = w₀.since w ++ new := by
        rw [World.since_trans earlier advances.history]
        simp [World.since, ← history]
      rw [since] at quiet
      have before := (restored_append.mp (history ▸ restored)).1
      obtain ⟨memory, t, store, stored⟩ := inductionHypothesis
        (fun m member => quiet m (List.mem_append_left _ member)) before
        (fresh.mono advances.asked)
      by_cases mutates : ∃ polled request, Ready host w ∧ Served host polled request w w' ∧
          request.mutating = true
      · obtain ⟨polled, request, ready, served, mutating⟩ := mutates
        obtain ⟨store', more, m, history', calm, state, alters⟩ :=
          served.altered part ready restored mutating
        obtain rfl := List.append_cancel_left (history.trans history')
        have memory' := memory.serve calm state alters
        rw [since]
        exact ⟨memory', _, store', memory'⟩
      · obtain ⟨new', history', calm⟩ := step.calm mutates
        obtain rfl := List.append_cancel_left (history.trans history')
        obtain ⟨-, still, kept⟩ :=
          (step.develops (Steps.finalised steps finalised) restored fresh).resolve_left mutates
        have memory' := (memory.congr (t := w'.engine.state)
          fun first m rest split mutation => still ?_).append calm
        · rw [since]
          refine ⟨memory', ?_⟩
          rcases kept with same | saved
          · exact ⟨t, same.trans store, stored.append calm⟩
          · exact ⟨_, saved, memory'⟩
        · have grown : w.history = (w₀.history ++ first) ++ m :: rest := by
            rw [List.append_assoc, ← split]
            exact (List.prefix_iff_eq_append.mp earlier).symm
          rw [grown]
          refine disturbed_of_mutation mutation fun m' member => quiet m' ?_
          rw [split]
          simp [member]

/-- When a tick ends, memory and the store have what each mutation of its pass left of any
part of the intent, unless a later mutation that was accepted or committed changed it. -/
theorem changes_remain {outcome : Except (Fault Error) Unit} (reachable : Reachable host w)
    (run : tick host w = (outcome, w')) (restored : Restored w'.history)
    (fresh : Fresh host w'.asked) :
    ∃ t, w'.store = some t ∧ ∀ first m rest, w.since w' = first ++ m :: rest →
      m.mutation = true → ∀ {α : Type} (part : State → α),
        (part w'.engine.state.intent = part m.state.intent ∧
          part t.intent = part m.state.intent) ∨ Altered part rest := by
  obtain ⟨ready, idle⟩ := reachable.ready
  obtain ⟨t₀, stored₀, -⟩ := ready.stored
  have passed {origin : Origin} (begins : Begins host w origin)
      (steps : Steps host origin.world w')
      (span : w'.history = origin.world.history ++ currentPass w'.history) :
      ∃ t, w'.store = some t ∧ ∀ first m rest, w.since w' = first ++ m :: rest →
        m.mutation = true → ∀ {α : Type} (part : State → α),
          (part w'.engine.state.intent = part m.state.intent ∧
            part t.intent = part m.state.intent) ∨ Altered part rest := by
    have during : origin.world.since w' = currentPass w'.history :=
      (congrArg (List.drop origin.world.history.length) span).trans List.drop_left
    obtain ⟨m₀, history, event⟩ := begins.history
    have whole : w'.history = w.history ++ m₀ :: currentPass w'.history :=
      span.trans (by rw [history, List.append_assoc, List.singleton_append])
    have since : w.since w' = m₀ :: origin.world.since w' := by
      rw [during]
      exact (congrArg (List.drop w.history.length) whole).trans List.drop_left
    have remains {α : Type} (part : State → α) := Steps.remains part steps
      (Steps.finalised begins.steps ((standing_invariant host).reachable reachable).finalised)
      ⟨t₀, begins.store.trans stored₀⟩ (during ▸ currentPass_quiet _) restored fresh
    obtain ⟨-, t, stored, -⟩ := remains id
    refine ⟨t, stored, fun first m rest split mutation α part => ?_⟩
    obtain ⟨memory, t', stored', kept⟩ := remains part
    cases stored.symm.trans stored'
    rw [since] at split
    cases first with
    | nil =>
        obtain ⟨rfl, -⟩ := List.cons.inj split
        simp [Moment.mutation, event] at mutation
    | cons _ first =>
        obtain ⟨-, split⟩ := List.cons.inj split
        rcases memory first m rest split mutation with same | altered
        · exact (kept first m rest split mutation).imp_left fun same' => ⟨same, same'⟩
        · exact .inr altered
  cases outcome with
  | ok _ =>
      cases (tick_meets ready idle).returned run with
      | idle _ _ _ history _ store =>
          refine ⟨t₀, store.trans stored₀, fun first m rest split => ?_⟩
          simp [World.since, history] at split
      | passed begins concludes => exact passed begins concludes.steps concludes.span
  | error fault =>
      obtain ⟨origin, begins, collapses⟩ := (tick_meets ready idle).stopped run
      cases fault with
      | panic => exact absurd fresh (collapses.unsound restored)
      | error error => exact passed begins collapses.steps collapses.span

/-- The marks on the runs, in the order of their ids. -/
def State.retiringRuns (s : State) : List Bool := (TreeMap.values s.runs).map (·.retiring)

/-- The pool is stopped while the container of its run is created, with the clone of a run in
hand that is not retiring.  The run is retiring when the tick ends. -/
theorem changes_remain_sample : ∃ (w w' : World) (t : State) (m : Moment),
    Reachable .halted w ∧ tick .halted w = (.ok (), w') ∧ m ∈ w.since w' ∧
      m.mutation = true ∧ w.engine.state.retiringRuns = [false] ∧ w'.store = some t ∧
        w'.engine.state.intent.retiringRuns = [true] ∧ t.intent.retiringRuns = [true] := by
  obtain ⟨w, reachable, holds⟩ := @Host.reaches .halted "" .blank
    [.request (.start (some "a") false), .tick]
    (fun w => w.ticksTo .halted fun w' => (decide (Restored w'.history) &&
      decide (w'.asked ≤ 10 ^ 32)) && (((w.since w').drop 16).all (!·.arrives) &&
        (w.engine.state.retiringRuns == [false] && (w.since w')[15]?.any fun m =>
          m.mutation && m.state.intent.retiringRuns == [true])))
    (by decide +kernel)
  obtain ⟨w', run, holds⟩ := World.ticked holds
  simp only [Bool.and_eq_true, decide_eq_true_eq, Option.any_eq_true, List.all_eq_true,
    Bool.not_eq_true', beq_iff_eq] at holds
  obtain ⟨⟨restored, fresh⟩, quiet, before, m, found, mutation, retiring⟩ := holds
  replace fresh := fresh_of_scripted .halted
    (fun n => by dsimp only [Host.halted, Host.scripted]; split <;> rfl) fresh
  obtain ⟨t, stored, remains⟩ := changes_remain reachable run restored fresh
  obtain ⟨memory, store⟩ := (remains _ m _ (split_at_moment found) mutation
    State.retiringRuns).resolve_right (not_altered quiet)
  exact ⟨w, w', t, m, reachable, run, List.mem_of_getElem? found, mutation, before, stored,
    memory.trans retiring, store.trans retiring⟩

/-- The state that an accepted mutation found. -/
def Moment.acceptedFrom (m : Moment) : Option State :=
  match m.event with
  | .handled _ request found (.ok _) => if request.mutating then some found else none
  | _ => none

/-- The pool is scaled to three while a pass lists the registrations, and then to five; the
second request has committed when it fails to write the configuration. -/
theorem accepted_scale_replaced : ∃ (host : Host) (w w' : World) (first rest : List Moment)
    (m : Moment) (found : State), Reachable host w ∧ tick host w = (.ok (), w') ∧
      Restored w'.history ∧ Fresh host w'.asked ∧ w.since w' = first ++ m :: rest ∧
      m.acceptedFrom = some found ∧ (∀ m' ∈ rest, m'.acceptedFrom = none) ∧
      (found.config.pool? "a").map (·.replicas) = some 1 ∧
      (m.state.config.pool? "a").map (·.replicas) = some 3 ∧
      (w'.engine.state.config.pool? "a").map (·.replicas) = some 5 := by
  let host : Host := .scripted
    [.sample [.sample "a" 1], .sample [.sample "a" 3], .sample [.sample "a" 5]]
    fun n answers => { answers with
      succeeds := n != 15
      during := if n = 8 then [.request (.scale "a" 3), .request (.scale "a" 5)] else [] }
  obtain ⟨w, reachable, holds⟩ := @Host.reaches host "" .blank
    [.request (.start (some "a") false)]
    (fun w => w.ticksTo host fun w' => (decide (Restored w'.history) &&
      decide (w'.asked ≤ 10 ^ 32)) && (((w.since w').drop 11).all (·.acceptedFrom.isNone) &&
        ((w'.engine.state.config.pool? "a").map (·.replicas) == some 5 &&
          (w.since w')[10]?.any fun m =>
            (m.state.config.pool? "a").map (·.replicas) == some 3 &&
              m.acceptedFrom.any fun found =>
                (found.config.pool? "a").map (·.replicas) == some 1)))
    (by decide +kernel)
  obtain ⟨w', run, holds⟩ := World.ticked holds
  simp only [Bool.and_eq_true, decide_eq_true_eq, Option.any_eq_true, List.all_eq_true,
    Option.isNone_iff_eq_none, beq_iff_eq] at holds
  obtain ⟨⟨restored, fresh⟩, none, last, m, there, changed, found, accepted, before⟩ :=
    holds
  replace fresh := fresh_of_scripted host (fun _ => rfl) fresh
  exact ⟨host, w, w', _, _, m, found, reachable, run, restored, fresh, split_at_moment there,
    accepted, none, before, changed, last⟩

end Changes

end Runnerctl
