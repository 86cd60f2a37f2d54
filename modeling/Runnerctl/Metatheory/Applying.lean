import Runnerctl.Metatheory.Handlers
import Runnerctl.Metatheory.Selection

/-!
# An `Apply` that meets no failure

`Apply` edits the pools, commits the configuration and drains all pools.  What its loops do if
nothing fails is said by `Applies` and by the drains of the pools, in any order.
-/

namespace Runnerctl

open Std Program

/-- A run of the pool is not one to keep, and does not drain. -/
def State.BehindAt (s : State) (name : String) : Prop :=
  ∃ p pool r, s.pools[name]? = some p ∧ s.config.pool? name = some pool ∧
    r ∈ s.runsOf p.id ∧
    s.excess p (State.keep p pool) r = true ∧ r.retiring = false

/-- A drain was left undone. -/
def State.Behind (s : State) : Prop := ∃ name, s.BehindAt name

/-- No drain was left undone. -/
def State.drained (s : State) : Bool :=
  s.pools.toList.all fun entry => (s.config.pool? entry.1).all fun pool =>
    (s.runsOf entry.2.id).all fun r => !s.excess entry.2 (State.keep entry.2 pool) r || r.retiring

/-- From the `n`-th answer on no local operation fails. -/
def Smooth (host : Host) (n : Nat) : Prop := ∀ k, n ≤ k → (host.answers k).succeeds = true

section Applying

variable {host : Host} {s t u c : State} {w : World} {name text : String} {next : Config}
  {n m k : Nat} {pools pools' pools'' : ExtTreeMap String PoolState} {list list' : List Pool}

/-! ## Drains -/

namespace State

theorem not_behind_of_drained (drained : s.drained = true) : ¬ s.Behind := by
  rintro ⟨name, p, pool, r, found, known, member, excess, kept⟩
  have entry :=
    List.all_eq_true.mp drained _ (ExtTreeMap.mem_toList_iff_getElem?_eq_some.mpr found)
  rw [known, Option.all_some] at entry
  simpa [excess, kept] using List.all_eq_true.mp entry r member

/-- A drain that is done already changes nothing. -/
theorem retireExcess_eq {p : PoolState} {kept : Nat}
    (done : ∀ r ∈ s.runsOf p.id, s.excess p kept r = true → r.retiring = true) :
    s.retireExcess p kept = s := by
  suffices same : (s.retireExcess p kept).runs = s.runs from
    congrArg (fun runs => { s with runs }) same
  apply ExtTreeMap.ext_getElem?
  intro id
  rw [retireExcess_run]
  cases found : s.runs[id]? with
  | none => rfl
  | some run =>
      rw [Option.map_some]
      split
      · next excess =>
          have ofPool : run.poolId = p.id := by
            simp only [State.excess, Bool.and_eq_true, beq_iff_eq] at excess
            exact excess.1
          have marked := done run ((mem_runsOf s).mpr ⟨⟨id, found⟩, ofPool⟩) excess
          rw [← marked]
      · rfl

/-- Draining some pools changes no run if and only if none of them is behind. -/
theorem Indexed.foldlM_markRetiring_runs {names : List String} (indexed : s.Indexed)
    (marked : names.foldlM State.markRetiring s = some t) :
    t.runs = s.runs ↔ ∀ name ∈ names, ¬ s.BehindAt name := by
  induction names generalizing s with
  | nil =>
      cases marked
      exact iff_of_true rfl (List.forall_mem_nil _)
  | cons name rest inductionHypothesis =>
      rw [List.foldlM_cons, Option.bind_eq_bind, Option.bind_eq_some_iff] at marked
      obtain ⟨u, first, others⟩ := marked
      have drained := drained_of_markRetiring first
      have later := inductionHypothesis (indexed.drained drained) others
      by_cases behind : s.BehindAt name
      · refine iff_of_false (fun same => ?_) fun none => none name List.mem_cons_self behind
        obtain ⟨p, pool, r, found, entry, member, excess, kept⟩ := behind
        obtain ⟨⟨id, there⟩, -⟩ := (mem_runsOf s).mp member
        rw [indexed.markRetiring_eq found entry] at first
        cases first
        have marked : (s.retireExcess p (State.keep p pool)).runs[id]? =
            some { r with retiring := true } := by
          rw [retireExcess_run, there, Option.map_some, if_pos excess]
        obtain ⟨run', there', became⟩ := (foldlM_markRetiring_drained others).run_of marked
        rw [same, there] at there'
        cases there'
        rcases became with equal | equal
        all_goals
          rw [equal] at kept
          exact Bool.noConfusion kept
      · obtain ⟨p, found, entered⟩ := Option.bind_eq_some_iff.mp first
        obtain ⟨pool, entry, -⟩ := Option.bind_eq_some_iff.mp entered
        rw [indexed.markRetiring_eq found entry, retireExcess_eq] at first
        · cases first
          rw [later, List.forall_mem_cons]
          exact (and_iff_right behind).symm
        · intro r member excess
          by_contra kept
          exact behind ⟨p, pool, r, found, entry, member, excess, Bool.eq_false_iff.mpr kept⟩

/-- What is excess does not depend on what was marked. -/
theorem excess_congr {p q : PoolState} {kept kept' : Nat} (run : Run) (retiring : Bool) :
    (s.retireExcess p kept).excess q kept' { run with retiring } = s.excess q kept' run := by
  unfold excess
  rw [retireExcess_rank p kept { run with retiring }]
  rfl

theorem retireExcess_excess (p q : PoolState) (kept kept' : Nat) (run : Run) :
    (s.retireExcess p kept).excess q kept' run = s.excess q kept' run :=
  excess_congr run run.retiring

/-- The order of two drains does not matter. -/
theorem retireExcess_comm (p q : PoolState) (kept kept' : Nat) :
    (s.retireExcess p kept).retireExcess q kept' =
      (s.retireExcess q kept').retireExcess p kept := by
  suffices same : ((s.retireExcess p kept).retireExcess q kept').runs =
      ((s.retireExcess q kept').retireExcess p kept).runs from
    congrArg (fun runs => { s with runs }) same
  apply ExtTreeMap.ext_getElem?
  intro id
  simp only [retireExcess_run, Option.map_map]
  refine congrArg (Option.map · _) (funext fun run => ?_)
  rw [Function.comp_apply, Function.comp_apply]
  by_cases first : s.excess p kept run = true <;> by_cases second : s.excess q kept' run = true <;>
    simp [first, second, retireExcess_excess, excess_congr run true]

/-- Draining some pools does what one of them had been drained for before. -/
theorem Indexed.foldlM_markRetiring_again {names : List String} (indexed : s.Indexed)
    (present : ∀ name ∈ names, ∃ p, s.pools[name]? = some p)
    (first : s.markRetiring name = some u) (member : name ∈ names) :
    names.foldlM State.markRetiring u = names.foldlM State.markRetiring s := by
  induction names generalizing s u with
  | nil => simp at member
  | cons head rest inductionHypothesis =>
      have drained := drained_of_markRetiring first
      obtain ⟨p, found⟩ := present name member
      obtain ⟨q, there⟩ := present head List.mem_cons_self
      obtain ⟨entry, listed, rfl⟩ := (indexed.entries name).mp ⟨p, found⟩
      obtain ⟨pool, known⟩ := Config.pool?_isSome listed
      obtain ⟨entry', listed', rfl⟩ := (indexed.entries head).mp ⟨q, there⟩
      obtain ⟨pool', known'⟩ := Config.pool?_isSome listed'
      have second := indexed.markRetiring_eq there known'
      have again : u.markRetiring entry'.name = some (u.retireExcess q (keep q pool')) :=
        (indexed.drained drained).markRetiring_eq (drained.pools ▸ there) (drained.config ▸ known')
      rw [indexed.markRetiring_eq found known] at first
      cases first
      rw [List.foldlM_cons, List.foldlM_cons, second, again]
      simp only [Option.bind_eq_bind, Option.bind_some]
      by_cases same : entry.name = entry'.name
      · rw [same] at found known
        cases found.symm.trans there
        cases known.symm.trans known'
        rw [retireExcess_retireExcess p le_rfl]
      · have drained' := drained_of_markRetiring second
        rw [retireExcess_comm]
        refine inductionHypothesis (indexed.drained drained') (fun name member => ?_) ?_ ?_
        · exact drained'.pools ▸ present name (List.mem_cons_of_mem _ member)
        · exact (indexed.drained drained').markRetiring_eq (drained'.pools ▸ found)
            (drained'.config ▸ known)
        · exact (List.mem_cons.mp member).resolve_left same

theorem mem_runsOf_retireExcess {p : PoolState} {kept : Nat} {poolId : String} {run : Run}
    (other : poolId ≠ p.id) :
    run ∈ (s.retireExcess p kept).runsOf poolId ↔ run ∈ s.runsOf poolId := by
  have spared {run : Run} (ofPool : run.poolId = poolId) : s.excess p kept run = false := by
    simp [excess, ofPool, other]
  rw [mem_runsOf, mem_runsOf]
  refine and_congr_left fun ofPool => exists_congr fun id => ?_
  rw [retireExcess_run, Option.map_eq_some_iff]
  constructor
  · rintro ⟨run', found, rfl⟩
    have ofPool : run'.poolId = poolId := by
      split at ofPool <;> exact ofPool
    rw [if_neg (by simp [spared ofPool])]
    exact found
  · intro found
    exact ⟨run, found, by rw [if_neg (by simp [spared ofPool])]⟩

/-- Draining a pool leaves the others behind as far as they were, and itself no more. -/
theorem Sound.behindAt_markRetiring (sound : s.Sound) (first : s.markRetiring name = some u)
    (other : String) : u.BehindAt other ↔ other ≠ name ∧ s.BehindAt other := by
  have drained := drained_of_markRetiring first
  obtain ⟨p, found, entered⟩ := Option.bind_eq_some_iff.mp first
  obtain ⟨pool, known, -⟩ := Option.bind_eq_some_iff.mp entered
  have closed := sound.markRetiring_eq found known
  cases first.symm.trans closed
  by_cases same : other = name
  · subst same
    refine iff_of_false (fun behind => ?_) fun both => both.1 rfl
    have again := (sound.toIndexed.drained drained).markRetiring_eq (drained.pools ▸ found)
      (drained.config ▸ known)
    rw [retireExcess_retireExcess p le_rfl] at again
    have marked : [other].foldlM State.markRetiring (s.retireExcess p (keep p pool)) =
        some (s.retireExcess p (keep p pool)) := by
      rw [List.foldlM_cons, again]
      rfl
    exact ((sound.toIndexed.drained drained).foldlM_markRetiring_runs marked).mp rfl other
      List.mem_cons_self behind
  · refine Iff.trans ?_ (and_iff_right same).symm
    refine exists_congr fun q => exists_congr fun pool' => exists_congr fun r => ?_
    rw [drained.pools, drained.config]
    refine and_congr_right fun there => and_congr_right fun _ => ?_
    have distinct : q.id ≠ p.id := fun equal => same (sound.ids there found equal)
    rw [mem_runsOf_retireExcess distinct, retireExcess_excess]

/-- Draining all pools does the same as draining one of them, if and only if no other one is
behind. -/
theorem Sound.foldlM_markRetiring_runs (sound : s.Sound) (first : s.markRetiring name = some u)
    (marked : s.pools.keys.foldlM State.markRetiring s = some t) :
    t.runs = u.runs ↔ ∀ other, other ≠ name → ¬ s.BehindAt other := by
  have present : ∀ name ∈ s.pools.keys, ∃ p, s.pools[name]? = some p :=
    fun name member => TreeMap.mem_keys.mp member
  obtain ⟨p, found, -⟩ := Option.bind_eq_some_iff.mp first
  have drained := drained_of_markRetiring first
  have again := (sound.toIndexed.foldlM_markRetiring_again present first
    (TreeMap.mem_keys.mpr ⟨p, found⟩)).trans marked
  refine ((sound.toIndexed.drained drained).foldlM_markRetiring_runs again).trans ?_
  simp only [sound.behindAt_markRetiring first]
  constructor
  · intro none other different behind
    have ⟨q, _, _, there, _⟩ := behind
    exact none other (TreeMap.mem_keys.mpr ⟨q, there⟩) ⟨different, behind⟩
  · intro none other _ both
    exact none other both.1 both.2

end State

/-! ## The loop over the new pools -/

namespace Applies

/-- The loop does what its specification says. -/
theorem meets (applies : Applies host s n pools list m pools') (asked : w.asked = n) :
    Meets host (list.foldlM (applyPool s) pools) w
      (fun result w' => result = pools' ∧ w'.engine = w.engine ∧ w'.asked = m)
      (fun _ _ => False) := by
  induction applies generalizing w with
  | done => exact ⟨rfl, rfl, asked⟩
  | @edit n m pools pools' new old p rest known found kept scope applies inductionHypothesis =>
      rw [List.foldlM_cons]
      have edited : Meets host (applyPool s pools new) w (fun result w' =>
          result = (if old.sameRunner new then pools
            else pools.insert new.name { p with generation := p.generation + 1 }) ∧ w' = w)
          (fun _ _ => False) := by
        unfold applyPool
        rw [known]
        refine meets_bind.mpr (meets_unwrap.mpr ?_)
        rw [found]
        refine Meets.ensure_bind (fun deleting => by simp [kept] at deleting) fun _ => ?_
        have done : Meets host (if old.sameRunner new = true then pure pools
            else pure (pools.insert new.name { p with generation := p.generation + 1 }) :
              EngineM (ExtTreeMap String PoolState)) w (fun result w' =>
          result = (if old.sameRunner new then pools
            else pools.insert new.name { p with generation := p.generation + 1 }) ∧ w' = w)
          (fun _ _ => False) := by
          split <;> exact ⟨rfl, rfl⟩
        by_cases moved : (old.apiScope != new.apiScope || old.auth != new.auth) = true
        · rw [if_pos moved]
          obtain ⟨stopped, clean⟩ := scope.resolve_left fun ⟨same, same'⟩ => by
            simp [same, same'] at moved
          exact Meets.ensure_bind (fun busy => by simp [stopped, clean] at busy) fun _ => done
        · rw [if_neg moved]
          exact done
      refine edited.bind fun _ _ ⟨same, unchanged⟩ => ?_
      subst same unchanged
      exact inductionHypothesis asked
  | @add n m pools pools' new rest missing applies inductionHypothesis =>
      rw [List.foldlM_cons]
      have added : Meets host (applyPool s pools new) w (fun result w' =>
          result = pools.insert new.name (.default (host.answers n).uuid) ∧ w' = w.advance host)
          (fun _ _ => False) := by
        unfold applyPool
        rw [missing]
        refine meets_bind.mpr (meets_consult.mpr ?_)
        exact ⟨by rw [asked], rfl⟩
      refine added.bind fun _ _ ⟨same, unchanged⟩ => ?_
      subst same unchanged
      exact inductionHypothesis (congrArg Nat.succ asked)

theorem append (first : Applies host s n pools list m pools')
    (second : Applies host s m pools' list' k pools'') :
    Applies host s n pools (list ++ list') k pools'' := by
  induction first with
  | done => exact second
  | edit known found kept scope _ inductionHypothesis =>
      exact .edit known found kept scope (inductionHypothesis second)
  | add missing _ inductionHypothesis => exact .add missing (inductionHypothesis second)

/-- Entries that describe the same runners leave the pools alone. -/
theorem same (unchanged : ∀ new ∈ list, ∃ old p, s.config.pool? new.name = some old ∧
      pools[new.name]? = some p ∧ p.deleting = false ∧ old.apiScope = new.apiScope ∧
      old.auth = new.auth ∧ old.sameRunner new = true) :
    Applies host s n pools list n pools := by
  induction list with
  | nil => exact .done
  | cons new rest inductionHypothesis =>
      obtain ⟨⟨old, p, known, found, kept, scope, profile, runner⟩, others⟩ :=
        List.forall_mem_cons.mp unchanged
      refine .edit known found kept (.inl ⟨scope, profile⟩) ?_
      rw [if_pos runner]
      exact inductionHypothesis others

end Applies

theorem Pool.sameRunner_self (pool : Pool) : pool.sameRunner pool = true := by
  simp [Pool.sameRunner]

theorem Config.Valid.pool?_of_mem {config : Config} (valid : config.Valid) {entry : Pool}
    (member : entry ∈ config.pools) : config.pool? entry.name = some entry := by
  obtain ⟨other, found⟩ := Config.pool?_isSome member
  obtain ⟨there, same⟩ := Config.pool?_some found
  rw [found, List.inj_on_of_nodup_map valid.distinct there member same]

/-- An entry that the edit leaves alone. -/
theorem State.Sound.unedited (sound : s.Sound)
    (undeleted : ∀ (name : String) (p : PoolState), s.pools[name]? = some p → p.deleting = false)
    {entry : Pool} (member : entry ∈ s.config.pools)
    (untouched : pools[entry.name]? = s.pools[entry.name]?) :
    ∃ old p, s.config.pool? entry.name = some old ∧ pools[entry.name]? = some p ∧
      PoolState.deleting p = false ∧ old.apiScope = entry.apiScope ∧ old.auth = entry.auth ∧
      old.sameRunner entry = true := by
  obtain ⟨p, found⟩ := (sound.entries entry.name).mpr ⟨entry, member, rfl⟩
  exact ⟨entry, p, sound.valid.pool?_of_mem member, untouched ▸ found, undeleted _ p found, rfl,
    rfl, entry.sameRunner_self⟩

theorem State.Sound.runs_profiles (sound : s.Sound) :
    ∀ run ∈ TreeMap.values s.runs, s.config.auth.contains run.pool.auth = true := by
  intro run member
  obtain ⟨id, there⟩ := TreeMap.mem_values.mp member
  exact sound.profiles there

/-! ## The request -/

theorem commitConfig_smooth (smooth : Smooth host w.asked)
    (valid : next.validate = .ok ()) (printed : host.printToml next = .ok text) :
    Meets host (commitConfig next) w
      (fun _ w' => w'.engine.state = w.engine.state.commit next (host.sha256 text) ∧
        w.asked ≤ w'.asked) (fun _ _ => False) := by
  unfold commitConfig
  refine Meets.liftExcept_bind (fun _ failed => nomatch valid.symm.trans failed) fun _ _ => ?_
  refine meets_bind.mpr (meets_printToml.mpr ?_)
  rw [printed]
  refine meets_bind.mpr (meets_hash.mpr (meets_bind.mpr (meets_getState.mpr ?_)))
  refine meets_bind.mpr (meets_storeSave.mpr ?_)
  rw [if_pos (smooth _ le_rfl)]
  refine meets_bind.mpr (meets_setState.mpr ?_)
  refine meets_bind.mpr (meets_writeConfig.mpr ?_)
  rw [if_pos (smooth _ (by simp))]
  exact ⟨rfl, Nat.le_add_right _ 2⟩

theorem markRetirings_smooth {names : List String}
    (marked : names.foldlM State.markRetiring w.engine.state = some t) :
    Meets host (names.forM markRetiring) w (fun _ w' => w' = w.setState t)
      (fun _ _ => False) := by
  induction names generalizing w with
  | nil =>
      cases marked
      exact rfl
  | cons name rest inductionHypothesis =>
      rw [List.foldlM_cons, Option.bind_eq_bind, Option.bind_eq_some_iff] at marked
      obtain ⟨u, first, others⟩ := marked
      refine meets_bind.mpr (meets_markRetiring.mpr ?_)
      rw [first]
      exact inductionHypothesis (w := w.setState u) others

/-- An `Apply` that meets no failure. -/
theorem handleApply_smooth (smooth : Smooth host w.asked) (memory : w.engine.state = s)
    (file : w.file = some text) (parsed : host.parseToml text = some next)
    (kept : ∀ p ∈ s.config.pools, ∃ q ∈ next.pools, q.name = p.name)
    (applies : Applies host s (w.asked + 1) s.pools next.pools m pools)
    (ordered : w.asked + 1 ≤ m)
    (profiles : ∀ run ∈ TreeMap.values s.runs, next.auth.contains run.pool.auth = true)
    (valid : next.validate = .ok ()) {printed : String}
    (prints : host.printToml next = .ok printed)
    (marked : pools.keys.foldlM State.markRetiring
      (({ s with pools } : State).commit next (host.sha256 printed)) = some t) :
    Meets host (handleApply text s.revision) w
      (fun response w' => response = .applied (s.revision + 1) ∧ w'.engine.state = t)
      (fun _ _ => False) := by
  refine meets_bind.mpr (meets_getState.mpr ?_)
  rw [memory]
  refine Meets.ensure_bind (fun stale => by simp at stale) fun _ => ?_
  refine meets_bind.mpr (meets_readConfig.mpr ?_)
  rw [smooth _ le_rfl, file]
  refine Meets.ensure_bind (fun changed => by simp at changed) fun _ => ?_
  refine meets_bind.mpr (meets_parseConfig.mpr ?_)
  rw [parsed]
  dsimp only
  rw [valid]
  refine Meets.ensure_bind (fun missing => ?_) fun _ => ?_
  · refine absurd (missing.symm.trans (List.all_eq_true.mpr fun p member => ?_)) nofun
    obtain ⟨q, there, same⟩ := kept p member
    exact List.any_eq_true.mpr ⟨q, there, beq_iff_eq.mpr same⟩
  refine (applies.meets rfl).bind fun pools w₁ ⟨result, engine, asked⟩ => ?_
  subst result
  refine Meets.ensure_bind (fun missing => ?_) fun _ => ?_
  · exact absurd (missing.symm.trans (List.all_eq_true.mpr profiles)) nofun
  refine meets_bind.mpr (meets_setState.mpr ?_)
  refine (commitConfig_smooth (fun k le => smooth k (by simp [asked] at le; omega)) valid
    prints).bind fun _ w₂ ⟨state, later⟩ => ?_
  refine meets_bind.mpr (meets_getState.mpr ?_)
  rw [state]
  refine (markRetirings_smooth (by rw [state]; exact marked)).bind fun _ w₃ same => ?_
  subst same
  refine meets_bind.mpr (meets_save.mpr ?_)
  rw [if_pos (smooth _ (by simp [asked] at later ⊢; omega))]
  refine meets_bind.mpr (meets_getState.mpr ⟨congrArg Response.applied ?_, rfl⟩)
  exact congrArg Header.revision (State.foldlM_markRetiring_drained marked).header

/-- Once its guards hold, `Apply` commits the edited pools and drains all of them. -/
theorem handleLocal_apply_smooth (smooth : Smooth host w.asked)
    (memory : w.engine.state = s) (file : w.file = some text)
    (parsed : host.parseToml text = some next)
    (kept : ∀ p ∈ s.config.pools, ∃ q ∈ next.pools, q.name = p.name)
    (applies : Applies host s (w.asked + 1) s.pools next.pools m pools)
    (ordered : w.asked + 1 ≤ m)
    (profiles : ∀ run ∈ TreeMap.values s.runs, next.auth.contains run.pool.auth = true)
    (committed : Committed host { s with pools } next c) (indexed : c.Indexed) :
    ∃ w', handleLocal (.apply text s.revision) host w = (.ok (.applied (s.revision + 1)), w') ∧
      c.pools.keys.foldlM State.markRetiring c = some w'.engine.state := by
  obtain ⟨valid, printed, prints, rfl⟩ := committed
  obtain ⟨t, marked⟩ := indexed.foldlM_markRetiring_isSome fun name member =>
    TreeMap.mem_keys.mp member
  have inner := handleApply_smooth smooth memory file parsed kept applies ordered profiles valid
    prints marked
  have meets : Meets host (handleLocal (.apply text s.revision)) w
      (fun response w' => response = .applied (s.revision + 1) ∧ w'.engine.state = t)
      (fun _ _ => False) :=
    meets_bind.mpr (meets_attempt.mpr (inner.mono (fun _ _ done => done) fun _ _ => False.elim))
  unfold Meets at meets
  split at meets
  · next response w' run =>
      obtain ⟨rfl, rfl⟩ := meets
      exact ⟨w', run, marked⟩
  · exact meets.elim

end Applying

end Runnerctl
