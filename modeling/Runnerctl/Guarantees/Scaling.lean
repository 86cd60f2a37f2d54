import Runnerctl.Guarantees.Draining
import Runnerctl.Metatheory.Causes

/-!
# Scaling down

`Scale` spares the first runs in the order of the drain.  A run that drains already keeps
its place in this order, so it can cost a healthy run its place.
-/

namespace Runnerctl

open Std Program

/-- Of `kept` places one goes to a run that is not healthy, while a healthy one gets none. -/
def State.Wastes (s : State) (p : PoolState) (kept : Nat) : Prop :=
  ∃ r ∈ s.runsOf p.id, ∃ u ∈ s.runsOf p.id, (r.healthy p = false ∧ s.rank r < kept) ∧
    u.healthy p = true ∧ kept ≤ s.rank u

section Scaling

variable {host : Host} {name : String} {s t : State} {p : PoolState}

namespace State

/-- As many healthy runs are spared as can be, if and only if no place is wasted. -/
theorem Keyed.spared (keyed : s.Keyed) (p : PoolState) (kept : Nat) :
    (((s.retireExcess p kept).runsOf p.id).filter fun run => !run.retiring).length =
        min kept ((s.runsOf p.id).countP (Run.healthy p)) ↔ ¬ s.Wastes p kept := by
  rw [retireExcess_spared, Ranking.countP_selected (keyed.countP_rank p.id kept)]
  simp only [Wastes, decide_eq_true_eq, decide_eq_false_iff_not, Nat.not_lt]

end State

/-- An accepted `Scale` of a running pool leaves as many healthy runs as there are, up to the
new number of replicas, if and only if it wastes no place. -/
theorem scale_spares {w : World} {first rest : List Moment} {m : Moment} {polled : Bool}
    {replicas : Nat} {response : Response} (executed : Executed host w)
    (history : w.history = first ++ m :: rest)
    (accepted : m.event = .handled polled (.scale name replicas) s (.ok response))
    (found : s.pools[name]? = some p) (running : p.running = true) :
    ((m.state.runsOf p.id).filter fun run => !run.retiring).length =
        min replicas ((s.runsOf p.id).countP (Run.healthy p)) ↔ ¬ s.Wastes p replicas := by
  obtain ⟨w₀, w₁, new, storing, ready, served, asked, rfl, same, history', last⟩ :=
    ((storing_invariant host).caused executed first m rest history).served accepted
  have keyed : w₀.engine.state.Keyed := fun _ _ => ready.keyed
  obtain ⟨inner, result, moments, -, outcome⟩ := served.outcome
  obtain rfl := List.singleton_inj.mp (List.append_inj' (history'.symm.trans moments) rfl).2
  cases accepted
  cases outcome with
  | accepted accepts _ _ _ =>
      obtain ⟨-, kept, runs⟩ := accepts.retires keyed found
      have keep : State.keepAt p replicas = replicas := by
        simp [State.keepAt, running, kept]
      rw [World.moment_state, State.runsOf, runs, keep]
      exact keyed.spared p replicas

/-- A running pool whose only run lives on, in no time. -/
def Host.lasting : Host :=
  .scripted [.sample [.sample "a" 1], .sample [.sample "a" 2]] fun n answers =>
    { answers with
      elapsed := 0
      reply := fun op => match op with
        | .dockerList managerId =>
            if 20 < n then
              .ok [⟨some managerId, some (runId (.scripted 3) (.scripted 11)),
                some (Uuid.scripted 2).text, some "running", none⟩]
            else .ok []
        | op => op.smooth }

/-- The last moment is the end of an accepted `Scale` to one replica, and spares `spared`
runs of the pool; of its two runs one was healthy before. -/
def World.scaledLast (w : World) (spared : Nat) : Bool :=
  w.history.getLast?.any fun m => match m.event with
    | .handled _ (.scale "a" 1) s (.ok _) => s.pools["a"]?.any fun p =>
        p.running && (((s.runsOf p.id).length == 2 &&
          (s.runsOf p.id).countP (Run.healthy p) == 1) &&
          ((m.state.runsOf p.id).filter fun run => !run.retiring).length == spared)
    | _ => false

theorem World.scaled_last {w : World} {spared : Nat} (scaled : w.scaledLast spared = true) :
    ∃ before m polled s response p, w.history = before ++ [m] ∧
      m.event = .handled polled (.scale "a" 1) s (.ok response) ∧ s.pools["a"]? = some p ∧
        p.running = true ∧ ((s.runsOf p.id).length = 2 ∧
          (s.runsOf p.id).countP (Run.healthy p) = 1) ∧
          ((m.state.runsOf p.id).filter fun run => !run.retiring).length = spared := by
  obtain ⟨m, last, scaled⟩ := (Option.any_eq_true ..).mp scaled
  split at scaled
  · next polled s response event =>
      obtain ⟨p, found, scaled⟩ := (Option.any_eq_true ..).mp scaled
      simp only [Bool.and_eq_true, beq_iff_eq] at scaled
      exact ⟨_, m, polled, s, response, p,
        (List.dropLast_append_getLast? m last).symm, event, found, scaled⟩
  · exact absurd scaled Bool.false_ne_true

/-- The newer of two runs is spared. -/
theorem scale_spares_sample : ∃ (s : State) (p : PoolState),
    (s.runsOf p.id).length = 2 ∧ ¬ s.Wastes p 1 := by
  obtain ⟨w, reachable, holds⟩ := @Host.reaches .lasting "" .blank
    [.request (.start (some "a") false), .tick, .tick, .request (.stop (some "a") false false),
      .request (.start (some "a") false), .request (.scale "a" 2), .tick,
      .request (.scale "a" 1)]
    (fun w => w.scaledLast 1) (by decide +kernel)
  obtain ⟨before, m, polled, s, response, p, history, event, found, running, ⟨two, healthy⟩,
    spared⟩ := World.scaled_last holds
  refine ⟨s, p, two, (scale_spares (.reached reachable) history event found running).mp ?_⟩
  rw [spared, healthy]
  rfl

/-- A run that drains since a stop, and a new run of the same second: if the id of the older
one is greater, it takes the only place. -/
theorem healthy_run_drained : ∃ (host : Host) (w : World) (before : List Moment) (m : Moment)
    (polled : Bool) (s : State) (response : Response) (p : PoolState),
    Reachable host w ∧ Restored w.history ∧ Fresh host w.asked ∧ w.history = before ++ [m] ∧
      m.event = .handled polled (.scale "a" 1) s (.ok response) ∧ s.pools["a"]? = some p ∧
      p.running = true ∧ ((s.runsOf p.id).length = 2 ∧
        (s.runsOf p.id).countP (Run.healthy p) = 1) ∧
      ((m.state.runsOf p.id).filter fun run => !run.retiring).length = 0 := by
  obtain ⟨w, reachable, holds⟩ := @Host.reaches .lasting "" .blank
    [.request (.start (some "a") false), .tick, .tick, .tick, .tick, .tick, .tick,
      .request (.stop (some "a") false false), .request (.start (some "a") false),
      .request (.scale "a" 2), .tick, .request (.scale "a" 1)]
    (fun w => (decide (Restored w.history) && decide (w.asked ≤ 10 ^ 32)) && w.scaledLast 0)
    (by decide +kernel)
  simp only [Bool.and_eq_true, decide_eq_true_eq] at holds
  obtain ⟨⟨restored, fresh⟩, scaled⟩ := holds
  obtain ⟨before, m, polled, s, response, p, scaled⟩ := World.scaled_last scaled
  exact ⟨_, w, before, m, polled, s, response, p, reachable, restored,
    fresh_of_scripted .lasting (fun _ => rfl) fresh, scaled⟩

end Scaling

end Runnerctl
