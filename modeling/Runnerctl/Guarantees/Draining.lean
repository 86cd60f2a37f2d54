import Runnerctl.Metatheory.Scripts
import Runnerctl.Metatheory.Selection

/-!
# Which runs drain

`mark_retiring` keeps exactly the newest runs of the current generation, as many as the
pool keeps, and it is stable: doing it again, or on the way to fewer replicas, makes no
difference.
-/

namespace Runnerctl

open Std Program

/-- `t` is `s` after the excess runs of a pool that keeps `kept` of them were marked. -/
structure Selected (s : State) (p : PoolState) (kept : Nat) (t : State) : Prop where
  frame : ∃ runs : ExtTreeMap String Run, t = { s with runs } ∧ ∀ id : String,
    runs[id]? = s.runs[id]? ∨ ∃ run, s.runs[id]? = some run ∧ run.poolId = p.id ∧
      runs[id]? = some { run with retiring := true }
  exact : ∀ (id : String) (run' : Run), t.runs[id]? = some run' → run'.poolId = p.id →
    (run'.retiring = false ↔ ∃ run, s.runs[id]? = some run ∧ run.retiring = false ∧
      run.generation = p.generation ∧ s.rank run < kept)
  bounded : ((t.runsOf p.id).filter fun run => !run.retiring).length ≤ kept

/-- The run does not drain, and is of the current generation of its pool. -/
def Run.healthy (p : PoolState) (run : Run) : Bool :=
  !run.retiring && run.generation == p.generation

/-- `Scale` requests for a pool are accepted one after the other. -/
inductive Scales (host : Host) (name : String) : State → List Nat → State → Prop where
  | done {s : State} : Scales host name s [] s
  | step {s t : State} {w w' : World} {replicas : Nat} {response : Response}
      {rest : List Nat} :
      w.engine.state = s → handleInner (.scale name replicas) host w = (.ok response, w') →
      Scales host name w'.engine.state rest t → Scales host name s (replicas :: rest) t

section Draining

variable {host : Host} {name : String} {s t u : State} {p : PoolState} {pool : Pool}

namespace State

theorem excess_eq_false {kept : Nat} {run : Run} (ofPool : run.poolId = p.id) :
    s.excess p kept run = false ↔ run.generation = p.generation ∧ s.rank run < kept := by
  rw [excess, ofPool, beq_self_eq_true, Bool.true_and, Bool.or_eq_false_iff,
    decide_eq_false_iff_not, Nat.not_le, bne_eq_false_iff_eq, and_comm]

theorem retireExcess_exact {kept : Nat} {id : String} {run' : Run}
    (found : (s.retireExcess p kept).runs[id]? = some run') (ofPool : run'.poolId = p.id) :
    run'.retiring = false ↔ ∃ run, s.runs[id]? = some run ∧ run.retiring = false ∧
      run.generation = p.generation ∧ s.rank run < kept := by
  rw [retireExcess_run] at found
  obtain ⟨run, there, rfl⟩ := Option.map_eq_some_iff.mp found
  have ofPool : run.poolId = p.id := by
    split at ofPool <;> exact ofPool
  simp only [there, Option.some.injEq, exists_eq_left', ← excess_eq_false ofPool]
  cases drains : s.excess p kept run <;> simp

/-- The runs of a pool that a drain spares. -/
theorem retireExcess_spared (s : State) (p : PoolState) (kept : Nat) :
    (((s.retireExcess p kept).runsOf p.id).filter fun run => !run.retiring).length =
      (s.runsOf p.id).countP fun run => run.healthy p && decide (s.rank run < kept) := by
  let mark : Run → Run := fun run =>
    if s.excess p kept run then { run with retiring := true } else run
  have poolId : (fun run : Run => run.poolId == p.id) ∘ mark =
      fun run => run.poolId == p.id := by
    funext run
    simp only [mark, Function.comp_apply]
    split <;> rfl
  have marked : (s.retireExcess p kept).runsOf p.id = (s.runsOf p.id).map mark := by
    rw [runsOf, retireExcess, TreeMap.values_image, List.filter_map, poolId]
    rfl
  rw [← List.countP_eq_length_filter, marked, List.countP_map]
  refine List.countP_congr fun run member => ?_
  have ofPool := ((mem_runsOf s).mp member).2
  have spared := @excess_eq_false s p kept run ofPool
  simp only [mark, Function.comp_apply, Run.healthy, Bool.and_eq_true, Bool.not_eq_true',
    beq_iff_eq, decide_eq_true_eq]
  by_cases drains : s.excess p kept run = true
  · have high : ¬ (run.generation = p.generation ∧ s.rank run < kept) := fun low => by
      simp [spared.mpr low] at drains
    simp only [drains, if_true]
    refine iff_of_false (fun spared => Bool.false_ne_true spared.symm) fun kept => ?_
    exact high ⟨kept.1.2, kept.2⟩
  · rw [if_neg drains, and_assoc, ← spared, Bool.not_eq_true _ |>.mp drains]
    simp

/-- Exactly so many runs of a pool have a low rank, if there are as many. -/
theorem Keyed.countP_rank (keyed : s.Keyed) (poolId : String) (kept : Nat) :
    (s.runsOf poolId).countP (fun run => decide (s.rank run < kept)) =
      min kept (s.runsOf poolId).length := by
  have ranked : ∀ run ∈ s.runsOf poolId, s.rank run =
      Ranking.rank rankedAbove ((s.runsOf poolId).map Run.seniority) run.seniority := by
    intro run member
    rw [rank, ((mem_runsOf s).mp member).2]
  have counted := orders_rankedAbove.length_filter_rank (keyed.distinct poolId).2 kept
  rw [← List.countP_eq_length_filter, List.countP_map, List.length_map] at counted
  rw [← counted]
  exact List.countP_congr fun run member => by rw [ranked run member]; rfl

/-- No more runs than the pool keeps are spared. -/
theorem Indexed.retireExcess_bounded (indexed : s.Indexed) (p : PoolState) (kept : Nat) :
    (((s.retireExcess p kept).runsOf p.id).filter fun run => !run.retiring).length ≤ kept := by
  rw [retireExcess_spared]
  refine Nat.le_trans (List.countP_mono_left fun run _ stays => ?_)
    ((indexed.toKeyed.countP_rank p.id kept).trans_le (Nat.min_le_left _ _))
  exact (Bool.and_eq_true_iff.mp stays).2

theorem Indexed.selected (indexed : s.Indexed) (p : PoolState) (kept : Nat) :
    Selected s p kept (s.retireExcess p kept) where
  frame := by
    refine ⟨_, rfl, fun id => ?_⟩
    rw [TreeMap.get_image]
    match found : s.runs[id]? with
    | none => exact .inl rfl
    | some run =>
        rw [Option.map_some]
        split
        · next drains =>
            refine .inr ⟨run, rfl, ?_, rfl⟩
            simp only [excess, Bool.and_eq_true, beq_iff_eq] at drains
            exact drains.1
        · exact .inl rfl
  exact _ _ := retireExcess_exact
  bounded := indexed.retireExcess_bounded p kept

theorem Indexed.retireExcess (indexed : s.Indexed) (p : PoolState) (kept : Nat) :
    (s.retireExcess p kept).Indexed where
  entries := indexed.entries
  keyed := by
    intro id run' found
    rw [retireExcess_run] at found
    obtain ⟨run, there, rfl⟩ := Option.map_eq_some_iff.mp found
    have keyed : run.id = id := indexed.keyed there
    split <;> exact keyed

theorem retireExcess_of_runs (same : s.runs = t.runs) (p : PoolState) (kept : Nat) :
    (s.retireExcess p kept).runs = (t.retireExcess p kept).runs := by
  have ranked : s.rank = t.rank := funext fun run => rank_congr (by rw [same]) run
  unfold State.retireExcess excess
  rw [same, ranked]

/-- The number of runs that a pool keeps once it was scaled. -/
def keepAt (p : PoolState) (replicas : Nat) : Nat :=
  if p.running && !p.deleting then replicas else 0

theorem keepAt_mono (p : PoolState) {replicas replicas' : Nat} (le : replicas' ≤ replicas) :
    keepAt p replicas' ≤ keepAt p replicas := by
  unfold keepAt
  split
  · exact le
  · exact le_rfl

end State

/-- An accepted `Scale` retires the excess runs of the pool. -/
theorem Accepts.retires {file : Option String} {lo hi replicas : Nat} {response : Response}
    (accepts : Accepts host file lo hi s (.scale name replicas) response t) (keyed : s.Keyed)
    (found : s.pools[name]? = some p) :
    t.pools[name]? = some p ∧ p.deleting = false ∧
      t.runs = (s.retireExcess p (State.keepAt p replicas)).runs := by
  cases accepts with
  | scale commits marked =>
      cases commits with
      | scale _ known there kept committed =>
          cases found.symm.trans there
          obtain ⟨-, text, -, rfl⟩ := committed
          have scaled := @find?_updateFirst name name (fun p : Pool => { p with replicas })
            (fun _ => rfl) _ _ known
          rw [if_pos rfl] at scaled
          have committed (c : Config) : (s.commit c (host.sha256 text)).Keyed := keyed
          obtain rfl := (committed _).markRetiring_eq marked found scaled
          exact ⟨found, kept, State.retireExcess_of_runs rfl _ _⟩

/-- What an accepted `Scale` does to the runs. -/
theorem Accepts.scaled {file : Option String} {lo hi replicas : Nat} {response : Response}
    (accepts : Accepts host file lo hi s (.scale name replicas) response t) (le : lo ≤ hi)
    (indexed : s.Indexed) (found : s.pools[name]? = some p) :
    t.Indexed ∧ t.pools[name]? = some p ∧ p.deleting = false ∧
      t.runs = (s.retireExcess p (State.keepAt p replicas)).runs := by
  refine ⟨?_, accepts.retires indexed.toKeyed found⟩
  cases accepts with
  | scale commits marked =>
      exact (commits.indexed le indexed).drained (State.drained_of_markRetiring marked)

theorem scale_runs {w w' : World} {replicas : Nat} {response : Response}
    (run : handleInner (.scale name replicas) host w = (.ok response, w'))
    (indexed : w.engine.state.Indexed) (found : w.engine.state.pools[name]? = some p) :
    w'.engine.state.Indexed ∧ w'.engine.state.pools[name]? = some p ∧
      w'.engine.state.runs =
        (w.engine.state.retireExcess p (State.keepAt p replicas)).runs := by
  have answered := (handleInner_meets host _ w).returned run
  obtain ⟨indexed', found', -, runs⟩ := answered.accepts.scaled answered.asked indexed found
  exact ⟨indexed', found', runs⟩

/-- Of several decreasing `Scale` steps the last one decides. -/
theorem Scales.decides {replicas : List Nat} {last : Nat}
    (scales : Scales host name s (replicas ++ [last]) t) (indexed : s.Indexed)
    (found : s.pools[name]? = some p)
    (decreasing : (replicas ++ [last]).Pairwise (· ≥ ·)) :
    t.runs = (s.retireExcess p (State.keepAt p last)).runs := by
  induction replicas generalizing s with
  | nil =>
      cases scales with
      | step same run rest =>
          cases same
          cases rest
          exact (scale_runs run indexed found).2.2
  | cons first replicas inductionHypothesis =>
      cases scales with
      | step same run rest =>
          cases same
          obtain ⟨indexed', found', runs⟩ := scale_runs run indexed found
          obtain ⟨every, decreasing⟩ := List.pairwise_cons.mp decreasing
          have le := State.keepAt_mono p (every last (by simp))
          rw [inductionHypothesis rest indexed' found' decreasing,
            State.retireExcess_of_runs runs, State.retireExcess_retireExcess p le]

/-- The drain selects exactly the runs to keep, touches nothing else, is stable, and does
not depend on the steps in which a pool is scaled down. -/
theorem drain_selection_exact (indexed : s.Indexed) (found : s.pools[name]? = some p)
    (entry : s.config.pool? name = some pool) :
    ∃ t, s.markRetiring name = some t ∧ Selected s p (State.keep p pool) t ∧
      t.markRetiring name = some t ∧
      ∀ (host : Host) (replicas : List Nat) (last : Nat) (u u' : State),
        (replicas ++ [last]).Pairwise (· ≥ ·) → Scales host name s (replicas ++ [last]) u →
          Scales host name s [last] u' → u.runs = u'.runs := by
  refine ⟨s.retireExcess p (State.keep p pool), indexed.markRetiring_eq found entry,
    indexed.selected p _, ?_, fun host replicas last u u' decreasing several one => ?_⟩
  · rw [(indexed.retireExcess p _).markRetiring_eq found entry,
      State.retireExcess_retireExcess p le_rfl]
  · rw [several.decides indexed found decreasing,
      @Scales.decides _ _ _ _ _ [] _ one indexed found (List.pairwise_singleton _ _)]

/-- One of two runs is kept once the pool is scaled down. -/
theorem drain_selection_exact_sample : ∃ (s t : State) (p : PoolState),
    s.pools["a"]? = some p ∧ (s.runsOf p.id).length = 2 ∧ s.markRetiring "a" = some t ∧
      Selected s p 1 t := by
  let host : Host := .scripted [.sample [.sample "a" 2]] fun _ => id
  obtain ⟨w, reachable, holds⟩ := @Host.reaches host "" .blank
    [.request (.start (some "a") false), .tick, .tick]
    (fun w => decide (Restored w.history) && decide (w.asked ≤ 10 ^ 32) &&
      w.engine.state.pools["a"]?.any fun p => p.running && !p.deleting &&
        (w.engine.state.runsOf p.id).length == 2 &&
          w.engine.state.config == .sample [.sample "a" 2]) (by decide +kernel)
  simp only [Bool.and_eq_true, beq_iff_eq, decide_eq_true_eq, Option.any_eq_true,
    Bool.not_eq_true'] at holds
  obtain ⟨⟨restored, fresh⟩, p, found, ⟨⟨running, kept⟩, runs⟩, config⟩ := holds
  replace fresh := fresh_of_scripted host (fun _ => rfl) fresh
  obtain ⟨entries, keyed⟩ := (reachable.ready.1.sound restored fresh).1.toIndexed
  rw [config] at entries
  let s : State := { w.engine.state with config := .sample [.sample "a" 1] }
  have indexed : s.Indexed := by
    refine ⟨fun name => (entries name).trans ?_, keyed⟩
    simp [s, Config.sample, Pool.sample]
  obtain ⟨t, marked, selected, -⟩ :=
    @drain_selection_exact "a" s p (.sample "a" 1) indexed found rfl
  have keep : State.keep p (.sample "a" 1) = 1 := by
    simp [State.keep, running, kept, Pool.sample]
  exact ⟨s, t, p, found, runs, marked, keep ▸ selected⟩

end Draining

end Runnerctl
