import Runnerctl.Model.State

/-!
# Views of a state

Memory, the store and the local variables of a pass agree only up to what a pass has
observed since the last save.  A view forgets part of a state: `State.intent` forgets
the observations of runs, `State.wish` also what the manager notes about pools, and
`State.roster` keeps only which runs are recorded.
-/

namespace Runnerctl

open Std

/-- A run without what Docker, GitHub and the file system tell about it. -/
def Run.forget (run : Run) : Run :=
  { run with phase := .unknown, remoteId := none, completedJob := false, logSaved := false }

theorem Run.forget_eq_iff {run other : Run} :
    run.forget = other.forget ↔
      run.id = other.id ∧ run.poolId = other.poolId ∧ run.pool = other.pool ∧
        run.generation = other.generation ∧ run.createdAt = other.createdAt ∧
        run.retiring = other.retiring ∧ run.force = other.force := by
  simp [Run.forget]

/-- The identity of a run: its id and its pool. -/
def Run.key (run : Run) : String × String := (run.id, run.poolId)

theorem Run.key_eq_of_forget_eq {run other : Run} (same : run.forget = other.forget) :
    run.key = other.key := by
  obtain ⟨id, poolId, -⟩ := Run.forget_eq_iff.mp same
  rw [Run.key, Run.key, id, poolId]

/-- What the user decides about a pool. -/
structure PoolWish where
  id : String
  running : Bool
  deleting : Bool
  generation : Nat
  deriving DecidableEq

def PoolState.wish (p : PoolState) : PoolWish := ⟨p.id, p.running, p.deleting, p.generation⟩

/-- When a pool is due again, and after how many failures. -/
def PoolState.schedule (p : PoolState) : Nat × Nat := (p.retryAt, p.failures)

/-- Everything an accepted request can change, apart from retry deadlines. -/
structure Wish where
  managerId : Uuid
  revision : Nat
  config : Config
  fileHash : String
  pools : ExtTreeMap String PoolWish
  runs : ExtTreeMap String Run

/-- The configuration with its revision and the hash of its text. -/
structure Header where
  revision : Nat
  config : Config
  fileHash : String

/-- The ids that are recorded. -/
structure Roster where
  managerId : Uuid
  runs : ExtTreeMap String (String × String)

namespace State

def intent (s : State) : State := { s with runs := TreeMap.image Run.forget s.runs }

def wish (s : State) : Wish where
  managerId := s.managerId
  revision := s.revision
  config := s.config
  fileHash := s.fileHash
  pools := TreeMap.image PoolState.wish s.pools
  runs := TreeMap.image Run.forget s.runs

def header (s : State) : Header := ⟨s.revision, s.config, s.fileHash⟩

def roster (s : State) : Roster := ⟨s.managerId, TreeMap.image Run.key s.runs⟩

/-! ## Between the views -/

section Relations

variable {s t : State}

theorem intent_eq_iff :
    s.intent = t.intent ↔
      s.managerId = t.managerId ∧ s.revision = t.revision ∧ s.config = t.config ∧
        s.fileHash = t.fileHash ∧ s.pools = t.pools ∧
        TreeMap.image Run.forget s.runs = TreeMap.image Run.forget t.runs := by
  simp [intent]

theorem wish_eq_iff :
    s.wish = t.wish ↔
      s.managerId = t.managerId ∧ s.revision = t.revision ∧ s.config = t.config ∧
        s.fileHash = t.fileHash ∧
        TreeMap.image PoolState.wish s.pools = TreeMap.image PoolState.wish t.pools ∧
        TreeMap.image Run.forget s.runs = TreeMap.image Run.forget t.runs := by
  simp [wish]

theorem roster_eq_iff :
    s.roster = t.roster ↔
      s.managerId = t.managerId ∧
        TreeMap.image Run.key s.runs = TreeMap.image Run.key t.runs := by
  simp [roster]

theorem wish_of_intent (same : s.intent = t.intent) : s.wish = t.wish := by
  obtain ⟨manager, revision, config, hash, pools, runs⟩ := intent_eq_iff.mp same
  exact wish_eq_iff.mpr ⟨manager, revision, config, hash, by rw [pools], runs⟩

theorem keys_of_forgets
    (same : TreeMap.image Run.forget s.runs = TreeMap.image Run.forget t.runs) :
    TreeMap.image Run.key s.runs = TreeMap.image Run.key t.runs := by
  have keys : Run.key = Run.key ∘ Run.forget := rfl
  rw [keys, ← TreeMap.image_image, same, TreeMap.image_image]

theorem roster_of_wish (same : s.wish = t.wish) : s.roster = t.roster := by
  obtain ⟨manager, -, -, -, -, runs⟩ := wish_eq_iff.mp same
  exact roster_eq_iff.mpr ⟨manager, keys_of_forgets runs⟩

theorem roster_of_intent (same : s.intent = t.intent) : s.roster = t.roster :=
  roster_of_wish (wish_of_intent same)

theorem run_of_intent (same : s.intent = t.intent) {id : String} {run : Run}
    (found : s.runs[id]? = some run) :
    ∃ other, t.runs[id]? = some other ∧ other.forget = run.forget := by
  obtain ⟨-, -, -, -, -, runs⟩ := intent_eq_iff.mp same
  exact TreeMap.get_of_image_eq runs found

theorem run_of_roster (same : s.roster = t.roster) {id : String} {run : Run}
    (found : s.runs[id]? = some run) :
    ∃ other, t.runs[id]? = some other ∧ other.id = run.id ∧ other.poolId = run.poolId := by
  obtain ⟨-, runs⟩ := roster_eq_iff.mp same
  obtain ⟨other, there, key⟩ := TreeMap.get_of_image_eq runs found
  exact ⟨other, there, Prod.ext_iff.mp key⟩

end Relations

/-! ## What can be read off a roster -/

section Roster

variable (s : State)

theorem map_key_runsOf (poolId : String) :
    (s.runsOf poolId).map Run.key =
      (TreeMap.values s.roster.runs).filter (·.2 == poolId) := by
  rw [roster, TreeMap.values_image, List.filter_map]
  rfl

theorem length_runsOf (poolId : String) :
    (s.runsOf poolId).length =
      ((TreeMap.values s.roster.runs).filter (·.2 == poolId)).length := by
  rw [← map_key_runsOf, List.length_map]

theorem size_runs : s.runs.size = s.roster.runs.size := by
  rw [roster, TreeMap.image, ExtTreeMap.size_map]

theorem mem_runsOf {poolId : String} {run : Run} :
    run ∈ s.runsOf poolId ↔ (∃ id : String, s.runs[id]? = some run) ∧
      run.poolId = poolId := by
  rw [runsOf, List.mem_filter, TreeMap.mem_values, beq_iff_eq]

/-- The runs of a pool are recorded under different ids. -/
theorem nodup_runsOf (keyed : ∀ {id : String} {run : Run},
    s.runs[id]? = some run → run.id = id) (poolId : String) :
    ((s.runsOf poolId).map (·.id)).Nodup := by
  have every : ((TreeMap.values s.runs).map (·.id)).Nodup := by
    rw [TreeMap.map_values_eq_keys keyed]
    exact ExtTreeMap.nodup_keys
  exact every.sublist (List.filter_sublist.map _)

theorem hasRuns_of_run {poolId id : String} {run : Run} (found : s.runs[id]? = some run)
    (ofPool : run.poolId = poolId) : s.hasRuns poolId = true :=
  List.any_eq_true.mpr ⟨run, TreeMap.mem_values_of_get found, beq_iff_eq.mpr ofPool⟩

theorem hasRuns_eq_false {poolId : String} :
    s.hasRuns poolId = false ↔
      ∀ (id : String) (run : Run), s.runs[id]? = some run → run.poolId ≠ poolId := by
  simp only [hasRuns, List.any_eq_false, TreeMap.mem_values, beq_iff_eq]
  constructor
  · intro none id run found
    exact none run ⟨id, found⟩
  · rintro none run ⟨id, found⟩
    exact none id run found

end Roster

/-! ## Updates -/

section Updates

variable (s : State)

@[simp] theorem setPool_roster (name : String) (ps : PoolState) :
    (s.setPool name ps).roster = s.roster := rfl

@[simp] theorem setPool_runs (name : String) (ps : PoolState) :
    (s.setPool name ps).runs = s.runs := rfl

@[simp] theorem setPool_config (name : String) (ps : PoolState) :
    (s.setPool name ps).config = s.config := rfl

@[simp] theorem setPool_pools (name : String) (ps : PoolState) :
    (s.setPool name ps).pools = s.pools.insert name ps := rfl

@[simp] theorem setRun_pools (id : String) (run : Run) :
    (s.setRun id run).pools = s.pools := rfl

@[simp] theorem setRun_config (id : String) (run : Run) :
    (s.setRun id run).config = s.config := rfl

@[simp] theorem setRun_runs (id : String) (run : Run) :
    (s.setRun id run).runs = s.runs.insert id run := rfl

@[simp] theorem setRun_managerId (id : String) (run : Run) :
    (s.setRun id run).managerId = s.managerId := rfl

@[simp] theorem retireRuns_pools (poolId : String) (force : Bool) :
    (s.retireRuns poolId force).pools = s.pools := rfl

@[simp] theorem retireRuns_config (poolId : String) (force : Bool) :
    (s.retireRuns poolId force).config = s.config := rfl

theorem retireRuns_run (poolId : String) (force : Bool) (id : String) :
    (s.retireRuns poolId force).runs[id]? =
      s.runs[id]?.map fun r =>
        if r.poolId == poolId then { r with retiring := true, force := r.force || force }
        else r :=
  TreeMap.get_image _ _ _

@[simp] theorem retireRuns_roster (poolId : String) (force : Bool) :
    (s.retireRuns poolId force).roster = s.roster := by
  refine roster_eq_iff.mpr ⟨rfl, TreeMap.image_eq_image_iff.mpr fun id => ?_⟩
  rw [retireRuns_run]
  cases s.runs[id]? with
  | none => rfl
  | some run =>
      simp only [Option.map_some]
      split <;> rfl

variable {s}

theorem setRun_roster {id : String} {run recorded : Run}
    (found : s.runs[id]? = some recorded) (same : run.key = recorded.key) :
    (s.setRun id run).roster = s.roster :=
  roster_eq_iff.mpr ⟨rfl, TreeMap.image_insert_of_eq found same⟩

theorem setRun_intent {id : String} {run recorded : Run}
    (found : s.runs[id]? = some recorded) (same : run.forget = recorded.forget) :
    (s.setRun id run).intent = s.intent :=
  intent_eq_iff.mpr ⟨rfl, rfl, rfl, rfl, rfl, TreeMap.image_insert_of_eq found same⟩

theorem setPool_wish {name : String} {p p' : PoolState}
    (found : s.pools[name]? = some p) (same : p'.wish = p.wish) :
    (s.setPool name p').wish = s.wish :=
  wish_eq_iff.mpr ⟨rfl, rfl, rfl, rfl, TreeMap.image_insert_of_eq found same, rfl⟩

end Updates

/-! ## Draining -/

/-- `t` is `s` with some runs marked as retiring. -/
def Drained (s t : State) : Prop :=
  ∃ runs : ExtTreeMap String Run, t = { s with runs } ∧ ∀ id : String,
    runs[id]? = s.runs[id]? ∨
      ∃ run, s.runs[id]? = some run ∧ runs[id]? = some { run with retiring := true }

namespace Drained

variable {s t u : State}

theorem refl (s : State) : s.Drained s := ⟨s.runs, rfl, fun _ => .inl rfl⟩

theorem trans (first : s.Drained t) (second : t.Drained u) : s.Drained u := by
  obtain ⟨runs, rfl, earlier⟩ := first
  obtain ⟨runs', rfl, later⟩ := second
  refine ⟨runs', rfl, fun id => ?_⟩
  rcases later id with same | ⟨run, found, drained⟩
  · rcases earlier id with same' | ⟨run, found, drained⟩
    · exact .inl (same.trans same')
    · exact .inr ⟨run, found, same.trans drained⟩
  · rcases earlier id with same' | ⟨run', found', drained'⟩
    · exact .inr ⟨run, same'.symm.trans found, drained⟩
    · cases drained'.symm.trans found
      exact .inr ⟨run', found', drained⟩

theorem pools (drained : s.Drained t) : t.pools = s.pools := by
  obtain ⟨runs, rfl, -⟩ := drained
  rfl

theorem config (drained : s.Drained t) : t.config = s.config := by
  obtain ⟨runs, rfl, -⟩ := drained
  rfl

theorem managerId (drained : s.Drained t) : t.managerId = s.managerId := by
  obtain ⟨runs, rfl, -⟩ := drained
  rfl

theorem header (drained : s.Drained t) : t.header = s.header := by
  obtain ⟨_, rfl, -⟩ := drained
  rfl

/-- The run behind a run of the drained state. -/
theorem run (drained : s.Drained t) {id : String} {run' : Run}
    (found : t.runs[id]? = some run') :
    ∃ run, s.runs[id]? = some run ∧
      (run' = run ∨ run' = { run with retiring := true }) := by
  obtain ⟨runs, rfl, change⟩ := drained
  rcases change id with same | ⟨run, there, now⟩
  · exact ⟨run', same.symm.trans found, .inl rfl⟩
  · cases now.symm.trans found
    exact ⟨run, there, .inr rfl⟩

/-- What became of a run of the state before. -/
theorem run_of (drained : s.Drained t) {id : String} {run : Run}
    (found : s.runs[id]? = some run) :
    ∃ run', t.runs[id]? = some run' ∧
      (run' = run ∨ run' = { run with retiring := true }) := by
  obtain ⟨runs, rfl, change⟩ := drained
  rcases change id with same | ⟨run', there, now⟩
  · exact ⟨run, same.trans found, .inl rfl⟩
  · cases there.symm.trans found
    exact ⟨_, now, .inr rfl⟩

theorem roster (drained : s.Drained t) : t.roster = s.roster := by
  obtain ⟨runs, rfl, change⟩ := drained
  refine roster_eq_iff.mpr ⟨rfl, TreeMap.image_eq_image_iff.mpr fun id => ?_⟩
  rcases change id with same | ⟨run, there, now⟩
  · exact congrArg _ same
  · rw [there]
    exact (congrArg (Option.map Run.key) now).trans rfl

end Drained

theorem drain_run {keep generation index : Nat} {order : List (Nat × Nat × String)}
    {runs runs' : ExtTreeMap String Run}
    (marked : drain keep generation index order runs = some runs') (id : String) :
    runs'[id]? = runs[id]? ∨
      ∃ run : Run, runs[id]? = some run ∧
        runs'[id]? = some { run with retiring := true } := by
  induction order generalizing index runs with
  | nil =>
      cases marked
      exact .inl rfl
  | cons entry rest inductionHypothesis =>
      obtain ⟨_, _, target⟩ := entry
      simp only [drain] at marked
      match found : runs[target]? with
      | none => simp [found] at marked
      | some run =>
          simp only [found] at marked
          split at marked
          · rcases inductionHypothesis marked with same | ⟨run', there, now⟩
            · rw [TreeMap.get_insert] at same
              split at same
              · next equal => exact .inr ⟨run, equal ▸ found, same⟩
              · exact .inl same
            · rw [TreeMap.get_insert] at there
              split at there
              · next equal =>
                  cases there
                  exact .inr ⟨run, equal ▸ found, now⟩
              · exact .inr ⟨run', there, now⟩
          · exact inductionHypothesis marked

theorem drained_of_markRetiring {s t : State} {name : String}
    (marked : s.markRetiring name = some t) : s.Drained t := by
  simp only [markRetiring, Option.bind_eq_bind, Option.bind_eq_some_iff,
    Option.pure_def, Option.some.injEq] at marked
  obtain ⟨ps, -, pool, -, runs, drained, rfl⟩ := marked
  exact ⟨runs, rfl, drain_run drained⟩

end State

end Runnerctl
