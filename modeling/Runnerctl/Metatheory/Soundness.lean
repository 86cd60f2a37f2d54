import Runnerctl.Metatheory.Configuration
import Runnerctl.Metatheory.Views
import Runnerctl.Model.Engine

/-!
# Sound states

The structural invariant of the manager's state.  Soundness depends on the intent of a
state only, so observations keep it; every other update has its own lemma here.
-/

namespace Runnerctl

open Std

namespace State

/-- What indexing by pool names and run ids relies on. -/
structure Indexed (s : State) : Prop where
  entries : ∀ name : String, (∃ p, s.pools[name]? = some p) ↔
    ∃ entry ∈ s.config.pools, entry.name = name
  keyed : ∀ {id : String} {run : Run}, s.runs[id]? = some run → run.id = id

/-- Runs are recorded under their own ids. -/
def Keyed (s : State) : Prop :=
  ∀ (id : String) (run : Run), s.runs[id]? = some run → run.id = id

theorem Indexed.toKeyed {s : State} (indexed : s.Indexed) : s.Keyed := by
  intro _ _ found
  exact indexed.keyed found

structure Sound (s : State) : Prop extends Indexed s where
  valid : s.config.Valid
  ids : ∀ {name name' : String} {p p' : PoolState}, s.pools[name]? = some p →
    s.pools[name']? = some p' → p.id = p'.id → name = name'
  owned : ∀ {id : String} {run : Run}, s.runs[id]? = some run →
    ∃ (name : String) (p : PoolState), s.pools[name]? = some p ∧ p.id = run.poolId
  profiles : ∀ {id : String} {run : Run}, s.runs[id]? = some run →
    s.config.auth.contains run.pool.auth = true
  /-- A deleting pool does not run. -/
  halted : ∀ {name : String} {p : PoolState}, s.pools[name]? = some p →
    p.deleting = true → p.running = false
  /-- The runs of a pool that does not run are retiring. -/
  draining : ∀ {name id : String} {p : PoolState} {run : Run}, s.pools[name]? = some p →
    p.running = false → s.runs[id]? = some run → run.poolId = p.id → run.retiring = true
  /-- A forced run is retiring. -/
  forced : ∀ {id : String} {run : Run}, s.runs[id]? = some run →
    run.force = true → run.retiring = true
  /-- A deadline comes with an error. -/
  noted : ∀ {name : String} {p : PoolState}, s.pools[name]? = some p →
    0 < p.retryAt → p.error.isSome = true
  /-- The runs of a pool were built from its entry or from an earlier one. -/
  built : ∀ {name id : String} {p : PoolState} {entry : Pool} {run : Run},
    s.pools[name]? = some p → s.config.pool? name = some entry → s.runs[id]? = some run →
      run.poolId = p.id →
        Build.Precedes ⟨run.generation, run.pool⟩ ⟨p.generation, entry⟩

variable {s t : State}

/-! ## Marking runs as retiring -/

theorem mem_insertRanked {entry other : Nat × Nat × String}
    {entries : List (Nat × Nat × String)} :
    other ∈ insertRanked entry entries ↔ other = entry ∨ other ∈ entries := by
  induction entries with
  | nil => simp [insertRanked]
  | cons head rest inductionHypothesis =>
      simp only [insertRanked]
      split
      · rw [List.mem_cons, inductionHypothesis, List.mem_cons]
        tauto
      · exact List.mem_cons

theorem mem_drainOrder {poolId : String} {entry : Nat × Nat × String} :
    entry ∈ s.drainOrder poolId ↔
      ∃ run ∈ s.runsOf poolId, entry = (run.generation, run.createdAt, run.id) := by
  rw [drainOrder]
  induction s.runsOf poolId with
  | nil => simp
  | cons run rest inductionHypothesis =>
      rw [List.map_cons, List.foldr_cons, mem_insertRanked, inductionHypothesis]
      simp

theorem drain_isSome {keep generation index : Nat} {order : List (Nat × Nat × String)}
    {runs : ExtTreeMap String Run}
    (present : ∀ entry ∈ order, ∃ run, runs[entry.2.2]? = some run) :
    ∃ runs', drain keep generation index order runs = some runs' := by
  induction order generalizing index runs with
  | nil => exact ⟨runs, rfl⟩
  | cons entry rest inductionHypothesis =>
      obtain ⟨run, found⟩ := present entry List.mem_cons_self
      obtain ⟨_, _, target⟩ := entry
      simp only [drain, found]
      refine inductionHypothesis fun other member => ?_
      obtain ⟨run', found'⟩ := present other (List.mem_cons_of_mem _ member)
      split
      · rw [TreeMap.get_insert]
        split
        · exact ⟨_, rfl⟩
        · exact ⟨run', found'⟩
      · exact ⟨run', found'⟩

/-- `mark_retiring` does not panic on a pool of an indexed state. -/
theorem Indexed.markRetiring_isSome (indexed : s.Indexed) {name : String} {p : PoolState}
    (found : s.pools[name]? = some p) : ∃ t, s.markRetiring name = some t := by
  obtain ⟨entry, member, rfl⟩ := (indexed.entries name).mp ⟨p, found⟩
  obtain ⟨pool, entryFound⟩ := Config.pool?_isSome member
  have present : ∀ other ∈ s.drainOrder p.id, ∃ run, s.runs[other.2.2]? = some run := by
    intro other member
    obtain ⟨run, ofPool, rfl⟩ := mem_drainOrder.mp member
    obtain ⟨⟨id, there⟩, -⟩ := (mem_runsOf s).mp ofPool
    exact ⟨run, by rw [indexed.keyed there]; exact there⟩
  obtain ⟨runs, drained⟩ : ∃ runs, drain (keep p pool) p.generation 0 (s.drainOrder p.id)
      s.runs = some runs := drain_isSome present
  refine ⟨{ s with runs }, ?_⟩
  simp only [markRetiring, found, entryFound, Option.bind_eq_bind, Option.bind_some, drained,
    Option.pure_def]

theorem Indexed.drained (indexed : s.Indexed) (drained : s.Drained t) : t.Indexed where
  entries := by
    rw [drained.pools, drained.config]
    exact indexed.entries
  keyed := by
    intro id run' found
    obtain ⟨run, there, rfl | rfl⟩ := drained.run found
    · exact indexed.keyed there
    · exact (indexed.keyed there : run.id = id)

/-! ## What keeps a state sound -/

namespace Sound

/-- Soundness depends on the wish, apart from the notes about deadlines. -/
theorem of_wish (sound : s.Sound) (same : s.wish = t.wish)
    (noted : ∀ {name : String} {p : PoolState}, t.pools[name]? = some p →
      0 < p.retryAt → p.error.isSome = true) : t.Sound := by
  obtain ⟨-, -, config, -, pools, runs⟩ := wish_eq_iff.mp same
  have run {id : String} {run : Run} (found : t.runs[id]? = some run) :
      ∃ run', s.runs[id]? = some run' ∧ run'.forget = run.forget :=
    TreeMap.get_of_image_eq runs.symm found
  have pool {name : String} {p : PoolState} (found : t.pools[name]? = some p) :
      ∃ p', s.pools[name]? = some p' ∧ p'.id = p.id ∧ p'.running = p.running ∧
        p'.deleting = p.deleting ∧ p'.generation = p.generation := by
    obtain ⟨p', there, wish⟩ := TreeMap.get_of_image_eq pools.symm found
    simp only [PoolState.wish, PoolWish.mk.injEq] at wish
    exact ⟨p', there, wish.1, wish.2.1, wish.2.2.1, wish.2.2.2⟩
  constructor
  · constructor
    · intro name
      rw [← config, ← sound.entries name]
      constructor
      · rintro ⟨p, found⟩
        obtain ⟨p', there, -⟩ := pool found
        exact ⟨p', there⟩
      · rintro ⟨p, found⟩
        obtain ⟨p', there, -⟩ := TreeMap.get_of_image_eq pools found
        exact ⟨p', there⟩
    · intro id run' found
      obtain ⟨run, there, forget⟩ := run found
      rw [← sound.keyed there, (Run.forget_eq_iff.mp forget).1]
  · rw [← config]
    exact sound.valid
  · intro name name' p p' found found' ids
    obtain ⟨q, there, id, -⟩ := pool found
    obtain ⟨q', there', id', -⟩ := pool found'
    exact sound.ids there there' (id.trans (ids.trans id'.symm))
  · intro id run' found
    obtain ⟨run, there, forget⟩ := run found
    obtain ⟨name, p, owner, owned⟩ := sound.owned there
    obtain ⟨p', here, wish⟩ := TreeMap.get_of_image_eq pools owner
    refine ⟨name, p', here, ?_⟩
    rw [← (Run.forget_eq_iff.mp forget).2.1, ← owned]
    exact congrArg PoolWish.id wish
  · intro id run' found
    obtain ⟨run, there, forget⟩ := run found
    rw [← config, ← (Run.forget_eq_iff.mp forget).2.2.1]
    exact sound.profiles there
  · intro name p found deleting
    obtain ⟨p', there, -, running, same_deleting, -⟩ := pool found
    rw [← running]
    exact sound.halted there (same_deleting.trans deleting)
  · intro name id p run' found stopped recorded ofPool
    obtain ⟨p', there, id', running, -⟩ := pool found
    obtain ⟨run, before, forget⟩ := run recorded
    obtain ⟨-, poolId, -, -, -, retiring, -⟩ := Run.forget_eq_iff.mp forget
    rw [← retiring]
    exact sound.draining there (running.trans stopped) before
      (poolId.trans (ofPool.trans id'.symm))
  · intro id run' found forced
    obtain ⟨run, there, forget⟩ := run found
    obtain ⟨-, -, -, -, -, retiring, force⟩ := Run.forget_eq_iff.mp forget
    rw [← retiring]
    exact sound.forced there (force.trans forced)
  · exact noted
  · intro name id p entry run' found known recorded ofPool
    obtain ⟨p', there, id', -, -, generation⟩ := pool found
    obtain ⟨run, before, forget⟩ := run recorded
    obtain ⟨-, poolId, same, age, -⟩ := Run.forget_eq_iff.mp forget
    rw [← same, ← age, ← generation]
    exact sound.built there (config ▸ known) before (poolId.trans (ofPool.trans id'.symm))

/-- Soundness depends on the intent only. -/
theorem of_intent (sound : s.Sound) (same : s.intent = t.intent) : t.Sound := by
  obtain ⟨-, -, -, -, pools, -⟩ := intent_eq_iff.mp same
  refine sound.of_wish (wish_of_intent same) ?_
  rw [← pools]
  exact sound.noted

/-- Changes of runs that only ever retire or force them; who is forced is retiring. -/
theorem of_runs (sound : s.Sound) {runs : ExtTreeMap String Run}
    (change : ∀ {id : String} {run' : Run}, runs[id]? = some run' →
      ∃ run retiring force, s.runs[id]? = some run ∧
        run' = { run with retiring, force } ∧ (run.retiring = true → retiring = true) ∧
        (force = true → run.force = true ∨ retiring = true)) :
    ({ s with runs } : State).Sound where
  entries := sound.entries
  keyed found := by
    obtain ⟨run, _, _, there, rfl, -, -⟩ := change found
    exact (sound.keyed there : run.id = _)
  valid := sound.valid
  ids := sound.ids
  owned found := by
    obtain ⟨run, _, _, there, rfl, -, -⟩ := change found
    have owner := sound.owned there
    exact owner
  profiles found := by
    obtain ⟨run, _, _, there, rfl, -, -⟩ := change found
    have profile := sound.profiles there
    exact profile
  halted := sound.halted
  draining pool stopped found ofPool := by
    obtain ⟨_, _, _, there, rfl, retires, -⟩ := change found
    exact retires (sound.draining pool stopped there ofPool)
  forced found forced := by
    obtain ⟨_, _, _, there, rfl, retires, forces⟩ := change found
    exact (forces forced).elim (fun was => retires (sound.forced there was)) fun now => now
  noted := sound.noted
  built pool known found ofPool := by
    obtain ⟨run, _, _, there, rfl, -, -⟩ := change found
    have built := sound.built pool known there ofPool
    exact built

theorem drained (sound : s.Sound) (drained : s.Drained t) : t.Sound := by
  obtain ⟨runs, rfl, change⟩ := drained
  refine sound.of_runs fun {id run'} found => ?_
  rcases change id with same | ⟨run, there, now⟩
  · exact ⟨run', _, _, same.symm.trans found, rfl, fun retiring => retiring, .inl⟩
  · cases now.symm.trans found
    exact ⟨run, true, _, there, rfl, fun _ => rfl, fun _ => .inr rfl⟩

theorem retireRuns (sound : s.Sound) (poolId : String) (force : Bool) :
    (s.retireRuns poolId force).Sound := by
  change ({ s with runs := (s.retireRuns poolId force).runs } : State).Sound
  refine sound.of_runs fun {id run'} found => ?_
  rw [retireRuns_run] at found
  obtain ⟨run, there, rfl⟩ := Option.map_eq_some_iff.mp found
  split
  · exact ⟨run, true, _, there, rfl, fun _ => rfl, fun _ => .inr rfl⟩
  · exact ⟨run, _, _, there, rfl, fun retiring => retiring, .inl⟩

/-- Replace the state of a pool. -/
theorem setPool (sound : s.Sound) {name : String} {p p' : PoolState}
    (found : s.pools[name]? = some p) (id : p'.id = p.id)
    (generation : p'.generation = p.generation)
    (halted : p'.deleting = true → p'.running = false)
    (draining : p'.running = false → ∀ {id : String} {run : Run},
      s.runs[id]? = some run → run.poolId = p.id → run.retiring = true)
    (noted : 0 < p'.retryAt → p'.error.isSome = true) :
    (s.setPool name p').Sound := by
  have lookup {other : String} {q : PoolState}
      (there : (s.setPool name p').pools[other]? = some q) :
      (other = name ∧ q = p') ∨ (other ≠ name ∧ s.pools[other]? = some q) := by
    rw [setPool_pools, TreeMap.get_insert] at there
    split at there
    · next equal => exact .inl ⟨equal.symm, (Option.some.inj there).symm⟩
    · next different => exact .inr ⟨fun equal => different equal.symm, there⟩
  have before {other : String} {q : PoolState}
      (there : (s.setPool name p').pools[other]? = some q) :
      ∃ q', s.pools[other]? = some q' ∧ q'.id = q.id := by
    rcases lookup there with ⟨rfl, rfl⟩ | ⟨-, there⟩
    · exact ⟨p, found, id.symm⟩
    · exact ⟨q, there, rfl⟩
  have after {other : String} {q : PoolState} (there : s.pools[other]? = some q) :
      ∃ q', (s.setPool name p').pools[other]? = some q' ∧ q'.id = q.id := by
    rw [setPool_pools, TreeMap.get_insert]
    split
    · next equal =>
        cases equal
        cases found.symm.trans there
        exact ⟨p', rfl, id⟩
    · exact ⟨q, there, rfl⟩
  constructor
  · constructor
    · intro other
      rw [setPool_config, ← sound.entries other]
      constructor
      · rintro ⟨q, there⟩
        obtain ⟨q', there', -⟩ := before there
        exact ⟨q', there'⟩
      · rintro ⟨q, there⟩
        obtain ⟨q', there', -⟩ := after there
        exact ⟨q', there'⟩
    · exact sound.keyed
  · exact sound.valid
  · intro other other' q q' there there' same
    obtain ⟨r, was, was_id⟩ := before there
    obtain ⟨r', was', was_id'⟩ := before there'
    exact sound.ids was was' (was_id.trans (same.trans was_id'.symm))
  · intro runId run recorded
    obtain ⟨other, q, there, owner⟩ := sound.owned recorded
    obtain ⟨q', there', same⟩ := after there
    exact ⟨other, q', there', same.trans owner⟩
  · exact sound.profiles
  · intro other q there
    rcases lookup there with ⟨rfl, rfl⟩ | ⟨-, there⟩
    · exact halted
    · exact sound.halted there
  · intro other runId q run there stopped recorded ofPool
    rcases lookup there with ⟨rfl, rfl⟩ | ⟨-, there⟩
    · exact draining stopped recorded (ofPool.trans id)
    · exact sound.draining there stopped recorded ofPool
  · exact sound.forced
  · intro other q there
    rcases lookup there with ⟨rfl, rfl⟩ | ⟨-, there⟩
    · exact noted
    · exact sound.noted there
  · intro other runId q entry run there known recorded ofPool
    rcases lookup there with ⟨rfl, rfl⟩ | ⟨-, there⟩
    · rw [generation]
      exact sound.built found known recorded (ofPool.trans id)
    · exact sound.built there known recorded ofPool

/-- Replace the state of a pool by one that differs in its retry data only. -/
theorem note (sound : s.Sound) {name : String} {p p' : PoolState}
    (found : s.pools[name]? = some p) (same : p'.wish = p.wish)
    (noted : 0 < p'.retryAt → p'.error.isSome = true) :
    (s.setPool name p').Sound := by
  refine sound.of_wish (setPool_wish found same).symm fun {other q} there => ?_
  rw [setPool_pools, TreeMap.get_insert] at there
  split at there
  · cases there
    exact noted
  · exact sound.noted there

theorem start (sound : s.Sound) {name : String} {p : PoolState}
    (found : s.pools[name]? = some p) (kept : p.deleting = false) :
    (s.setPool name
      { p with running := true, retryAt := 0, failures := 0, error := none }).Sound :=
  sound.setPool found rfl rfl (fun deleting => by simp [kept] at deleting) nofun
    (fun late => absurd late (Nat.lt_irrefl 0))

/-- Stop a pool and retire its runs. -/
theorem stop (sound : s.Sound) {name : String} {p : PoolState} (p' : PoolState)
    (found : s.pools[name]? = some p) (id : p'.id = p.id)
    (generation : p'.generation = p.generation) (stopped : p'.running = false)
    (noted : 0 < p'.retryAt → p'.error.isSome = true) (force : Bool) :
    ((s.setPool name p').retireRuns p.id force).Sound := by
  change ((s.retireRuns p.id force).setPool name p').Sound
  refine (sound.retireRuns p.id force).setPool found id generation (fun _ => stopped) ?_
    noted
  intro _ id run there ofPool
  rw [retireRuns_run] at there
  obtain ⟨before, -, rfl⟩ := Option.map_eq_some_iff.mp there
  split at ofPool
  · next same => rw [if_pos same]
  · next different => exact absurd ofPool (by simpa using different)

/-- Record a run of a running pool. -/
theorem insertRun (sound : s.Sound) {name : String} {p : PoolState} {run : Run}
    (found : s.pools[name]? = some p) (running : p.running = true)
    (ofPool : run.poolId = p.id) (entry : s.config.pool? name = some run.pool)
    (generation : run.generation = p.generation) (unforced : run.force = false) :
    (s.setRun run.id run).Sound := by
  have lookup {id : String} {other : Run}
      (there : (s.setRun run.id run).runs[id]? = some other) :
      (run.id = id ∧ other = run) ∨ s.runs[id]? = some other := by
    rw [setRun_runs, TreeMap.get_insert] at there
    split at there
    · next equal => exact .inl ⟨equal, (Option.some.inj there).symm⟩
    · exact .inr there
  constructor
  · constructor
    · exact sound.entries
    · intro id other there
      rcases lookup there with ⟨equal, rfl⟩ | there
      · exact equal
      · exact sound.keyed there
  · exact sound.valid
  · exact sound.ids
  · intro id other there
    rcases lookup there with ⟨-, rfl⟩ | there
    · exact ⟨name, p, found, ofPool.symm⟩
    · exact sound.owned there
  · intro id other there
    rcases lookup there with ⟨-, rfl⟩ | there
    · exact sound.valid.authenticated (Config.pool?_some entry).1
    · exact sound.profiles there
  · exact sound.halted
  · intro name' id p' other pool stopped there ofPool'
    rcases lookup there with ⟨-, rfl⟩ | there
    · cases sound.ids found pool (ofPool.symm.trans ofPool')
      cases found.symm.trans pool
      simp [running] at stopped
    · exact sound.draining pool stopped there ofPool'
  · intro id other there forced
    rcases lookup there with ⟨-, rfl⟩ | there
    · simp [unforced] at forced
    · exact sound.forced there forced
  · exact sound.noted
  · intro name' id p' entry' other pool known there ofPool'
    rcases lookup there with ⟨-, rfl⟩ | there
    · cases sound.ids found pool (ofPool.symm.trans ofPool')
      cases found.symm.trans pool
      cases entry.symm.trans known
      rw [generation]
      exact .refl _
    · exact sound.built pool known there ofPool'

theorem eraseRun (sound : s.Sound) (id : String) :
    ({ s with runs := s.runs.erase id } : State).Sound := by
  refine sound.of_runs fun {id' run} found => ?_
  rw [TreeMap.get_erase] at found
  split at found
  · simp at found
  · exact ⟨run, _, _, found, rfl, fun retiring => retiring, .inl⟩

/-- Delete a pool without runs. -/
theorem erasePool (sound : s.Sound) {name : String} {p : PoolState}
    (found : s.pools[name]? = some p) (gone : s.hasRuns p.id = false) (revision : Nat)
    (fileHash : String) :
    ({ s with
      pools := s.pools.erase name
      config := s.config.without name
      revision
      fileHash } : State).Sound := by
  have lookup {other : String} {q : PoolState}
      (there : (s.pools.erase name)[other]? = some q) :
      other ≠ name ∧ s.pools[other]? = some q := by
    rw [TreeMap.get_erase] at there
    split at there
    · simp at there
    · next different => exact ⟨fun equal => different equal.symm, there⟩
  have kept {other : String} {q : PoolState} (different : other ≠ name)
      (there : s.pools[other]? = some q) : (s.pools.erase name)[other]? = some q := by
    rw [TreeMap.get_erase, if_neg fun equal => different equal.symm]
    exact there
  constructor
  · constructor
    · intro other
      constructor
      · rintro ⟨q, there⟩
        obtain ⟨different, there⟩ := lookup there
        obtain ⟨entry, member, rfl⟩ := (sound.entries other).mp ⟨q, there⟩
        exact ⟨entry, List.mem_filter.mpr ⟨member, by simpa using different⟩, rfl⟩
      · rintro ⟨entry, member, rfl⟩
        obtain ⟨member, different⟩ := List.mem_filter.mp member
        obtain ⟨q, there⟩ := (sound.entries entry.name).mpr ⟨entry, member, rfl⟩
        exact ⟨q, kept (by simpa using different) there⟩
    · exact sound.keyed
  · exact sound.valid.without name
  · intro other other' q q' there there'
    exact sound.ids (lookup there).2 (lookup there').2
  · intro id run recorded
    obtain ⟨other, q, there, owner⟩ := sound.owned recorded
    refine ⟨other, q, kept ?_ there, owner⟩
    rintro rfl
    cases found.symm.trans there
    exact (s.hasRuns_eq_false).mp gone id run recorded owner.symm
  · exact sound.profiles
  · intro other q there
    exact sound.halted (lookup there).2
  · intro other id q run there
    exact sound.draining (lookup there).2
  · exact sound.forced
  · intro other q there
    exact sound.noted (lookup there).2
  · intro other id q entry run there known
    obtain ⟨different, there⟩ := lookup there
    exact sound.built there ((Config.pool?_without different).symm.trans known)

end Sound

end State

/-! ## Fresh ids -/

theorem Uuid.eq_of_text {u v : Uuid} (same : u.text = v.text) : u = v := by
  cases u
  cases v
  simpa using same

/-- The UUIDs of the first `n` answers differ. -/
def Fresh (host : Host) (n : Nat) : Prop :=
  ∀ i < n, ∀ j < n, (host.answers i).uuid = (host.answers j).uuid → i = j

theorem Fresh.mono {host : Host} {n m : Nat} (fresh : Fresh host m) (le : n ≤ m) :
    Fresh host n :=
  fun i small j small' => fresh i (small.trans_le le) j (small'.trans_le le)

namespace State

/-- The ids of the pools were drawn from the first `n` answers. -/
def Drawn (host : Host) (n : Nat) (s : State) : Prop :=
  ∀ (name : String) (p : PoolState), s.pools[name]? = some p →
    ∃ k < n, p.id = (host.answers k).uuid.text

theorem Drawn.mono {host : Host} {n m : Nat} {s : State} (drawn : s.Drawn host n)
    (le : n ≤ m) : s.Drawn host m := fun name p found =>
  let ⟨k, small, id⟩ := drawn name p found
  ⟨k, small.trans_le le, id⟩

/-- Pools were added with ids drawn from the answers `lo` to `hi`; of the others only
the generation changed. -/
structure Extends (host : Host) (lo hi : Nat) (pools pools' : ExtTreeMap String PoolState) :
    Prop where
  ordered : lo ≤ hi
  kept : ∀ {name : String} {p : PoolState}, pools[name]? = some p →
    ∃ generation, pools'[name]? = some { p with generation }
  added : ∀ {name : String} {p' : PoolState}, pools'[name]? = some p' → pools[name]? = none →
    ∃ k generation, lo ≤ k ∧ k < hi ∧
      p' = { PoolState.default (host.answers k).uuid with generation }
  apart : Fresh host hi → ∀ {name name' : String} {p p' : PoolState},
    pools[name]? = none → pools[name']? = none → pools'[name]? = some p →
      pools'[name']? = some p' → p.id = p'.id → name = name'

namespace Extends

variable {host : Host} {lo mid hi : Nat} {pools pools' pools'' : ExtTreeMap String PoolState}

theorem refl (host : Host) (lo : Nat) (pools : ExtTreeMap String PoolState) :
    Extends host lo lo pools pools where
  ordered := le_rfl
  kept {_ p} found := ⟨p.generation, found⟩
  added found missing := by simp [missing] at found
  apart _ _ _ _ _ missing _ found := by simp [missing] at found

theorem widen (extends_ : Extends host lo hi pools pools') {hi' : Nat} (le : hi ≤ hi') :
    Extends host lo hi' pools pools' where
  ordered := extends_.ordered.trans le
  kept := extends_.kept
  added found missing := by
    obtain ⟨k, generation, after, before, rfl⟩ := extends_.added found missing
    exact ⟨k, generation, after, before.trans_le le, rfl⟩
  apart fresh := extends_.apart (fresh.mono le)

/-- Bump the generation of one pool. -/
theorem bump (lo : Nat) {name : String} {p : PoolState} (found : pools[name]? = some p)
    (generation : Nat) :
    Extends host lo lo pools (pools.insert name { p with generation }) where
  ordered := le_rfl
  kept {other q} there := by
    rw [TreeMap.get_insert]
    split
    · next equal =>
        cases equal
        cases found.symm.trans there
        exact ⟨generation, rfl⟩
    · exact ⟨q.generation, there⟩
  added {other q} there missing := by
    rw [TreeMap.get_insert] at there
    split at there
    · next equal => simp [← equal, found] at missing
    · simp [missing] at there
  apart _ {other _ q _} missing _ there _ _ := by
    rw [TreeMap.get_insert] at there
    split at there
    · next equal => simp [← equal, found] at missing
    · simp [missing] at there

/-- Add one pool. -/
theorem insert {lo k : Nat} {name : String} (missing : pools[name]? = none)
    (after : lo ≤ k) :
    Extends host lo (k + 1) pools
      (pools.insert name (.default (host.answers k).uuid)) where
  ordered := Nat.le_succ_of_le after
  kept {other q} there := by
    rw [TreeMap.get_insert]
    split
    · next equal => simp [← equal, missing] at there
    · exact ⟨q.generation, there⟩
  added {other q} there missing' := by
    rw [TreeMap.get_insert] at there
    split at there
    · exact ⟨k, 1, after, Nat.lt_succ_self k, (Option.some.inj there).symm⟩
    · simp [missing'] at there
  apart _ {other other' q q'} none none' there there' _ := by
    rw [TreeMap.get_insert] at there there'
    split at there
    · split at there'
      · next equal equal' => exact equal.symm.trans equal'
      · simp [none'] at there'
    · simp [none] at there

theorem trans (first : Extends host lo mid pools pools')
    (second : Extends host mid hi pools' pools'') : Extends host lo hi pools pools'' where
  ordered := first.ordered.trans second.ordered
  kept found := by
    obtain ⟨_, between⟩ := first.kept found
    obtain ⟨generation, kept⟩ := second.kept between
    exact ⟨generation, kept⟩
  added {name p''} found missing := by
    match between : pools'[name]? with
    | none =>
        obtain ⟨k, generation, after, before, rfl⟩ := second.added found between
        exact ⟨k, generation, first.ordered.trans after, before, rfl⟩
    | some p' =>
        obtain ⟨k, generation, after, before, rfl⟩ := first.added between missing
        obtain ⟨generation', found'⟩ := second.kept between
        cases found.symm.trans found'
        exact ⟨k, generation', after, before.trans_le second.ordered, rfl⟩
  apart fresh {name name' p q} none none' found found' same := by
    -- two pools added in different halves have ids from different answers
    have halves {name name' : String} {p q r : PoolState} (none : pools[name]? = .none)
        (earlier : pools'[name]? = some r) (later : pools'[name']? = .none)
        (found : pools''[name]? = some p) (found' : pools''[name']? = some q) :
        p.id ≠ q.id := by
      obtain ⟨k, _, -, before, rfl⟩ := first.added earlier none
      obtain ⟨_, kept⟩ := second.kept earlier
      obtain ⟨k', _, after, before', rfl⟩ := second.added found' later
      cases found.symm.trans kept
      intro same
      have := fresh k (before.trans_le second.ordered) k' before' (Uuid.eq_of_text same)
      omega
    match between : pools'[name]?, between' : pools'[name']? with
    | .none, .none => exact second.apart fresh between between' found found' same
    | some r, .none => exact absurd same (halves none between between' found found')
    | .none, some r => exact absurd same.symm (halves none' between' between found' found)
    | some r, some r' =>
        obtain ⟨_, kept⟩ := second.kept between
        obtain ⟨_, kept'⟩ := second.kept between'
        cases found.symm.trans kept
        cases found'.symm.trans kept'
        exact first.apart (fresh.mono second.ordered) none none' between between' same

theorem drawn {s : State} (extends_ : Extends host lo hi s.pools pools')
    (drawn : s.Drawn host lo) {config : Config} {revision : Nat} {fileHash : String} :
    ({ s with pools := pools', config, revision, fileHash } : State).Drawn host hi := by
  intro name p' found
  match before : s.pools[name]? with
  | none =>
      obtain ⟨k, _, -, small, rfl⟩ := extends_.added found before
      exact ⟨k, small, rfl⟩
  | some p =>
      obtain ⟨_, kept⟩ := extends_.kept before
      cases found.symm.trans kept
      obtain ⟨k, small, id⟩ := drawn name p before
      exact ⟨k, small.trans_le extends_.ordered, id⟩

end Extends

/-- Commit a configuration together with the pool states it needs. -/
theorem Sound.extend {host : Host} {lo hi : Nat} {s : State} (sound : s.Sound)
    (drawn : s.Drawn host lo) (fresh : Fresh host hi)
    {pools : ExtTreeMap String PoolState} (extends_ : Extends host lo hi s.pools pools)
    {config : Config} (valid : config.Valid)
    (entries : ∀ name : String, (∃ p, pools[name]? = some p) ↔
      ∃ entry ∈ config.pools, entry.name = name)
    (profiles : ∀ {id : String} {run : Run}, s.runs[id]? = some run →
      config.auth.contains run.pool.auth = true)
    (built : ∀ {name id : String} {p p' : PoolState} {entry' : Pool} {run : Run},
      s.pools[name]? = some p → pools[name]? = some p' → config.pool? name = some entry' →
        s.runs[id]? = some run → run.poolId = p.id →
          Build.Precedes ⟨run.generation, run.pool⟩ ⟨p'.generation, entry'⟩)
    (revision : Nat) (fileHash : String) :
    ({ s with pools, config, revision, fileHash } : State).Sound := by
  have later {name name' : String} {p q : PoolState} (old : s.pools[name]? = some p)
      (missing : s.pools[name']? = none) (found : pools[name']? = some q) : p.id ≠ q.id := by
    obtain ⟨k, small, id⟩ := drawn name p old
    obtain ⟨k', _, after, small', rfl⟩ := extends_.added found missing
    rw [id]
    intro same
    have := fresh k (small.trans_le extends_.ordered) k' small' (Uuid.eq_of_text same)
    omega
  constructor
  · exact ⟨entries, sound.keyed⟩
  · exact valid
  · intro name name' p q found found' same
    match before : s.pools[name]?, before' : s.pools[name']? with
    | none, none => exact extends_.apart fresh before before' found found' same
    | some r, none =>
        obtain ⟨_, kept⟩ := extends_.kept before
        cases found.symm.trans kept
        exact (later before before' found' same).elim
    | none, some r =>
        obtain ⟨_, kept⟩ := extends_.kept before'
        cases found'.symm.trans kept
        exact (later before' before found same.symm).elim
    | some r, some r' =>
        obtain ⟨_, kept⟩ := extends_.kept before
        obtain ⟨_, kept'⟩ := extends_.kept before'
        cases found.symm.trans kept
        cases found'.symm.trans kept'
        exact sound.ids before before' same
  · intro id run recorded
    obtain ⟨name, p, found, owner⟩ := sound.owned recorded
    obtain ⟨_, kept⟩ := extends_.kept found
    exact ⟨name, _, kept, owner⟩
  · exact profiles
  · intro name p found deleting
    match before : s.pools[name]? with
    | none =>
        obtain ⟨_, _, -, -, rfl⟩ := extends_.added found before
        rfl
    | some r =>
        obtain ⟨_, kept⟩ := extends_.kept before
        cases found.symm.trans kept
        exact (sound.halted before : r.deleting = true → _) deleting
  · intro name id p run found stopped recorded ofPool
    match before : s.pools[name]? with
    | none =>
        obtain ⟨name', p', owner, same⟩ := sound.owned recorded
        exact absurd (same.trans ofPool) (later owner before found)
    | some r =>
        obtain ⟨_, kept⟩ := extends_.kept before
        cases found.symm.trans kept
        exact sound.draining before stopped recorded ofPool
  · exact sound.forced
  · intro name p found late
    match before : s.pools[name]? with
    | none =>
        obtain ⟨_, _, -, -, rfl⟩ := extends_.added found before
        exact absurd late (Nat.lt_irrefl 0)
    | some r =>
        obtain ⟨_, kept⟩ := extends_.kept before
        cases found.symm.trans kept
        exact (sound.noted before : 0 < r.retryAt → _) late
  · intro name id p' entry' run found known recorded ofPool
    match before : s.pools[name]? with
    | none =>
        obtain ⟨name', p, owner, same⟩ := sound.owned recorded
        exact absurd (same.trans ofPool) (later owner before found)
    | some p =>
        obtain ⟨_, kept⟩ := extends_.kept before
        cases found.symm.trans kept
        exact built before found known recorded ofPool

end State

end Runnerctl
