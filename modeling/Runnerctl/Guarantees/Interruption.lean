import Runnerctl.Metatheory.Discipline
import Runnerctl.Metatheory.Scripts

/-!
# Interrupted passes

A mutation that is handled at an await interrupts the pass.  The operation that was awaited
may still run, even if it had not been polled yet; after that, the pass does nothing any more
that relies on what it knew before.
-/

namespace Runnerctl

open Std Program Journal

/-- A mutation was handled in the current pass. -/
def Disturbed (history : List Moment) : Prop :=
  ∃ m ∈ currentPass history, m.mutation = true

instance (history : List Moment) : Decidable (Disturbed history) :=
  inferInstanceAs (Decidable (∃ m ∈ currentPass history, m.mutation = true))

section Interruption

variable {host : Host} {w w' : World}

theorem Undisturbed.not_disturbed {history : List Moment}
    (undisturbed : Undisturbed (currentPass history)) (restored : Restored (currentPass history)) :
    ¬ Disturbed history := by
  rintro ⟨m, member, mutation⟩
  rw [undisturbed restored m member] at mutation
  exact Bool.false_ne_true mutation

/-- What a pass does besides operations, it does undisturbed. -/
theorem Moment.Guarded.undisturbed {m : Moment} (guarded : m.Guarded host w)
    (ofStep : m.event.ofStep = true) (acts : ∀ op, m.event ≠ .began op) :
    Undisturbed (currentPass w.history) := by
  cases event : m.event with
  | began op => exact absurd event (acts op)
  | newRun =>
      rw [Moment.Guarded, event] at guarded
      exact guarded.2.1
  | droppedRun =>
      rw [Moment.Guarded, event] at guarded
      obtain ⟨_, _, _, -, undisturbed, -⟩ := guarded
      exact undisturbed
  | finalising =>
      rw [Moment.Guarded, event] at guarded
      exact guarded.1
  | failed =>
      rw [Moment.Guarded, event] at guarded
      obtain ⟨_, _, _, _, -, undisturbed, -⟩ := guarded
      exact undisturbed
  | _ =>
      rw [event] at ofStep
      cases ofStep

/-- An operation that begins was awaited before anything disturbed the pass. -/
theorem began_prompt (executed : Executed host w) :
    Recorded (fun first m => ∀ op, m.event = .began op → Prompt first) w.history := by
  intro first m rest history op event
  obtain ⟨c, w₁, c', w₂, -, move, -, rfl, added⟩ :=
    (trivial_discipline host).explained executed first m rest history (by rw [event]; rfl)
  have adds := move.adds added
  rw [event] at adds
  cases adds with
  | began _ _ _ prompt => exact prompt
  | act _ quiet => cases quiet

/-- Requests and edits begin no pass. -/
theorem currentPass_queued {before queued : List Moment}
    (queue : ∀ m ∈ queued, m.event.queued = true) :
    currentPass (before ++ queued) = currentPass before ++ queued := by
  apply currentPass_append
  intro m member
  have queued := queue m member
  rw [Moment.starts]
  split <;> simp_all [Event.queued, Event.ofRequest, Event.between, Event.inner]

/-- Once a mutation was handled, the pass begins no operation but the one that was awaited
then; it records and drops no run, commits no configuration and notes no failure. -/
theorem nothing_after (executed : Executed host w) :
    Recorded (fun first m => Restored (currentPass first) → Disturbed first →
      m.event.ofStep = true → ∃ op before queued, m.event = .began op ∧
        first = before ++ queued ∧ ¬ Disturbed before ∧
          ∀ m' ∈ queued, m'.event.queued = true) w.history := by
  intro first m rest history restored disturbed ofStep
  by_cases acts : ∃ op, m.event = .began op
  · obtain ⟨op, event⟩ := acts
    obtain ⟨before, queued, rfl, undisturbed, queue⟩ :=
      began_prompt executed first m rest history op event
    rw [currentPass_queued queue] at restored
    exact ⟨op, before, queued, event, rfl,
      undisturbed.not_disturbed (restored_append.mp restored).1, queue⟩
  · obtain ⟨w₁, -, -, -, -, -, rfl, -, guarded⟩ :=
      ((storing_invariant host).caused executed first m rest history).guarded ofStep
    have undisturbed := guarded.undisturbed ofStep fun op event => acts ⟨op, event⟩
    exact absurd disturbed (undisturbed.not_disturbed restored)

/-- A tick whose pass was disturbed ends with a save, and returns what the save returned. -/
theorem saved_last {outcome : Except (Fault Error) Unit} (reachable : Reachable host w)
    (run : tick host w = (outcome, w')) (restored : Restored w'.history)
    (fresh : Fresh host w'.asked) (passed : w'.history ≠ w.history)
    (disturbed : Disturbed w'.history) :
    (outcome = .ok () ∧ EndsSaving true w') ∨
      ∃ error, outcome = .error (.error error) ∧ EndsSaving false w' := by
  obtain ⟨ready, idle⟩ := reachable.ready
  cases outcome with
  | ok _ =>
      cases (tick_meets ready idle).returned run with
      | idle _ _ _ same => exact absurd same passed
      | passed _ concludes => exact .inl ⟨rfl, concludes.saving⟩
  | error fault =>
      obtain ⟨origin, -, collapses⟩ := (tick_meets ready idle).stopped run
      cases fault with
      | panic => exact absurd fresh (collapses.unsound restored)
      | error error => exact .inr ⟨error, rfl, collapses.saving restored fresh disturbed⟩

/-- After a mutation a pass does nothing but finish what it awaits, and its tick saves. -/
theorem interruption_final (executed : Executed host w) :
    Recorded (fun first m => Restored (currentPass first) → Disturbed first →
      m.event.ofStep = true → ∃ op before queued, m.event = .began op ∧
        first = before ++ queued ∧ ¬ Disturbed before ∧
          ∀ m' ∈ queued, m'.event.queued = true) w.history ∧
    (Reachable host w → ∀ outcome w', tick host w = (outcome, w') → Restored w'.history →
      Fresh host w'.asked → w'.history ≠ w.history → Disturbed w'.history →
        (outcome = .ok () ∧ EndsSaving true w') ∨
          ∃ error, outcome = .error (.error error) ∧ EndsSaving false w') :=
  ⟨nothing_after executed, fun reachable _ _ => saved_last reachable⟩

/-- The pool is started again while the registrations are about to be listed. -/
def Host.hurried : Host :=
  .scripted [.sample [.sample "a" 1]] fun n answers =>
    { answers with early := if n = 8 then [.request (.start (some "a") false)] else [] }

/-- The listing that was awaited begins, although the pass was interrupted before; it is the
last operation of its pass, and the tick saves. -/
theorem interruption_final_sample : ∃ (w w' : World) (first queued : List Moment) (m : Moment)
    (op : Op), tick .hurried w = (.ok (), w') ∧ m ∈ w'.history ∧ m.event = .began op ∧
      Disturbed (first ++ queued) ∧ ¬ Disturbed first ∧
        (∀ m' ∈ queued, m'.event.queued = true) ∧ EndsSaving true w' := by
  obtain ⟨w, reachable, holds⟩ := @Host.reaches .hurried "" .blank
    [.request (.start (some "a") false)]
    (fun w => w.ticksTo .hurried fun w' => (decide (Restored w'.history) &&
      decide (w'.asked ≤ 10 ^ 32) && decide (w.history.length < w'.history.length)) &&
        (decide (Disturbed w'.history) && decide (Disturbed (w'.history.take 14)) &&
          w'.history[14]?.any (·.event.ofStep)))
    (by decide +kernel)
  obtain ⟨w', run, holds⟩ := World.ticked holds
  simp only [Bool.and_eq_true, decide_eq_true_eq, Option.any_eq_true] at holds
  obtain ⟨⟨⟨restored, fresh⟩, longer⟩, ⟨late, disturbed⟩, m, found, ofStep⟩ := holds
  replace fresh := fresh_of_scripted .hurried (fun _ => rfl) fresh
  have split := split_at_moment found
  obtain ⟨op, before, queued, event, same, undisturbed, queue⟩ :=
    (interruption_final (.reached (.tick reachable run))).1 _ m _ split
      (restored_currentPass (restored_append.mp (split ▸ restored)).1) disturbed ofStep
  have saved := (interruption_final (.reached reachable)).2 reachable _ w' run restored fresh
    (fun same => Nat.lt_irrefl _ (same ▸ longer)) late
  refine ⟨w, w', before, queued, m, op, run, List.mem_of_getElem? found, event,
    same ▸ disturbed, undisturbed, queue, ?_⟩
  rcases saved with ⟨-, saving⟩ | ⟨_, failed, -⟩
  · exact saving
  · cases failed

/-- An operation begins although a mutation was handled in the pass. -/
theorem operation_begun_late : ∃ (w : World) (first : List Moment) (m : Moment) (op : Op),
    Reachable .hurried w ∧ Fresh .hurried w.asked ∧ Restored w.history ∧
      first ++ [m] <+: w.history ∧ Disturbed first ∧ m.event = .began op := by
  obtain ⟨w, reachable, holds⟩ := @Host.reaches .hurried "" .blank
    [.request (.start (some "a") false), .tick]
    (fun w => (decide (Restored w.history) && decide (w.asked ≤ 10 ^ 32)) &&
      (decide (Disturbed (w.history.take 14)) && w.history[14]?.any (·.event.ofStep)))
    (by decide +kernel)
  simp only [Bool.and_eq_true, decide_eq_true_eq, Option.any_eq_true] at holds
  obtain ⟨⟨restored, fresh⟩, disturbed, m, found, ofStep⟩ := holds
  replace fresh := fresh_of_scripted .hurried (fun _ => rfl) fresh
  have split := split_at_moment found
  obtain ⟨op, -, -, event, -⟩ := nothing_after (.reached reachable) _ m _ split
    (restored_currentPass (restored_append.mp (split ▸ restored)).1) disturbed ofStep
  refine ⟨w, _, m, op, reachable, fresh, restored, ?_, disturbed, event⟩
  exact ⟨_, (List.append_cons ..).symm.trans split.symm⟩

end Interruption

end Runnerctl
