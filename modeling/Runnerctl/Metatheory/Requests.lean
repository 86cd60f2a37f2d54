import Runnerctl.Lib.Journal
import Runnerctl.Metatheory.Effects
import Runnerctl.Metatheory.Soundness

/-!
# What a request does

`Commits` and `Accepts` say, for every kind of request, which states it stores on the
way and with which state it ends.  Each handler meets this specification; everything
later proved about requests is proved by cases on these two relations.
-/

namespace Runnerctl

open Std Program Journal

namespace State

/-- The state that `commitConfig` stores. -/
def commit (s : State) (config : Config) (fileHash : String) : State :=
  { s with config, revision := s.revision + 1, fileHash }

/-- What `Start` does to one target. -/
def start (s : State) (name : String) : State :=
  match s.pools[name]? with
  | some p =>
      s.setPool name { p with running := true, retryAt := 0, failures := 0, error := none }
  | none => s

/-- What `Stop` does to one target. -/
def stop (force : Bool) (s : State) (name : String) : State :=
  match s.pools[name]? with
  | some p =>
      (s.setPool name
        { p with running := false, retryAt := if force then 0 else p.retryAt }).retireRuns
          p.id force
  | none => s

@[simp] theorem commit_roster (s : State) (config : Config) (fileHash : String) :
    (s.commit config fileHash).roster = s.roster := rfl

@[simp] theorem start_roster (s : State) (name : String) :
    (s.start name).roster = s.roster := by
  unfold start
  split <;> rfl

@[simp] theorem stop_roster (force : Bool) (s : State) (name : String) :
    (s.stop force name).roster = s.roster := by
  unfold stop
  split
  · rw [retireRuns_roster, setPool_roster]
  · rfl

theorem start_run (s : State) (name : String) : (s.start name).runs = s.runs := by
  unfold start
  split <;> rfl

end State

/-- The names of the targets that a request names. -/
inductive Targets (s : State) : Option String → Bool → List String → Prop where
  | one {name : String} {p : PoolState} :
      s.pools[name]? = some p → Targets s (some name) false [name]
  | all : Targets s none true s.pools.keys

theorem Targets.present {s : State} {pool : Option String} {all : Bool} {names : List String}
    (targets : Targets s pool all names) {name : String} (member : name ∈ names) :
    ∃ p, s.pools[name]? = some p := by
  cases targets with
  | one found => exact ⟨_, List.mem_singleton.mp member ▸ found⟩
  | all => exact TreeMap.mem_keys.mp member

/-- `config.toml` has no unapplied changes. -/
def Clean (host : Host) (file : Option String) (s : State) : Prop :=
  ∃ text, file = some text ∧ host.sha256 text = s.fileHash

/-- `c` is the state that committing `next` over `s` stores. -/
def Committed (host : Host) (s : State) (next : Config) (c : State) : Prop :=
  next.validate = .ok () ∧
    ∃ text, host.printToml next = .ok text ∧ c = s.commit next (host.sha256 text)

/-- The loop of `Apply` over the new pools, from the `n`-th answer to the `m`-th. -/
inductive Applies (host : Host) (s : State) :
    Nat → ExtTreeMap String PoolState → List Pool →
      Nat → ExtTreeMap String PoolState → Prop where
  | done {n : Nat} {pools : ExtTreeMap String PoolState} : Applies host s n pools [] n pools
  | edit {n m : Nat} {pools pools' : ExtTreeMap String PoolState} {new old : Pool}
      {p : PoolState} {rest : List Pool} :
      s.config.pool? new.name = some old → pools[new.name]? = some p →
      p.deleting = false →
      (old.apiScope = new.apiScope ∧ old.auth = new.auth ∨
        p.running = false ∧ s.hasRuns p.id = false) →
      Applies host s n
        (if old.sameRunner new then pools
          else pools.insert new.name { p with generation := p.generation + 1 })
        rest m pools' →
      Applies host s n pools (new :: rest) m pools'
  | add {n m : Nat} {pools pools' : ExtTreeMap String PoolState} {new : Pool}
      {rest : List Pool} :
      s.config.pool? new.name = none →
      Applies host s (n + 1) (pools.insert new.name (.default (host.answers n).uuid))
        rest m pools' →
      Applies host s n pools (new :: rest) m pools'

/-- The states that a request can store before it is done.  New ids are drawn from the
answers `lo` to `hi`. -/
inductive Commits (host : Host) (file : Option String) (lo hi : Nat) (s : State) :
    Request → State → Prop where
  | add {pool : Pool} {k : Nat} {c : State} :
      Clean host file s → lo ≤ k → k < hi → s.pools.contains pool.name = false →
      Committed host (s.setPool pool.name (.default (host.answers k).uuid))
        { s.config with pools := s.config.pools ++ [pool] } c →
      Commits host file lo hi s (.add pool) c
  | scale {pool : String} {replicas : Nat} {entry : Pool} {p : PoolState} {c : State} :
      Clean host file s → s.config.pool? pool = some entry → s.pools[pool]? = some p →
      p.deleting = false →
      Committed host s
        { s.config with
          pools := updateFirst pool (fun p => { p with replicas }) s.config.pools } c →
      Commits host file lo hi s (.scale pool replicas) c
  | upgrade {pool image : String} {entry : Pool} {p : PoolState} {c : State} :
      Clean host file s → s.config.pool? pool = some entry → s.pools[pool]? = some p →
      p.deleting = false →
      Committed host (s.setPool pool { p with generation := p.generation + 1 })
        { s.config with
          pools := updateFirst pool (fun p => { p with image }) s.config.pools } c →
      Commits host file lo hi s (.upgrade pool image) c
  | auth {profile credential : String} {app : Option AppAuth} {c : State} :
      Clean host file s → validName profile = true →
      Committed host s
        { s.config with auth := s.config.auth.insert profile { credential, app } } c →
      Commits host file lo hi s (.auth profile credential app) c
  | apply {text : String} {next : Config} {n m : Nat}
      {pools : ExtTreeMap String PoolState} {c : State} :
      file = some text → host.parseToml text = some next →
      (∀ p ∈ s.config.pools, ∃ q ∈ next.pools, q.name = p.name) →
      lo ≤ n → m ≤ hi → Applies host s n s.pools next.pools m pools →
      (∀ run ∈ TreeMap.values s.runs, next.auth.contains run.pool.auth = true) →
      Committed host { s with pools } next c →
      Commits host file lo hi s (.apply text s.revision) c

/-- A request is accepted with a response and leaves a state. -/
inductive Accepts (host : Host) (file : Option String) (lo hi : Nat) (s : State) :
    Request → Response → State → Prop where
  | status {pool : Option String} {pools : List PoolStatus} :
      (∀ name, pool = some name → s.pools.contains name = true) →
      Accepts host file lo hi s (.status pool) (.status s.revision pools) s
  | add {pool : Pool} {c : State} :
      Commits host file lo hi s (.add pool) c →
      Accepts host file lo hi s (.add pool) (.added pool.name) c
  | start {pool : Option String} {all : Bool} {names : List String} :
      Targets s pool all names →
      (∀ name ∈ names, ∃ p, s.pools[name]? = some p ∧ p.deleting = false) →
      Accepts host file lo hi s (.start pool all) (.started names)
        (names.foldl State.start s)
  | stop {pool : Option String} {all force : Bool} {names : List String} {pending : Bool} :
      Targets s pool all names →
      Accepts host file lo hi s (.stop pool all force) (.stopped names pending force)
        (names.foldl (State.stop force) s)
  | scale {pool : String} {replicas : Nat} {c t : State} :
      Commits host file lo hi s (.scale pool replicas) c →
      c.markRetiring pool = some t →
      Accepts host file lo hi s (.scale pool replicas) (.scaled pool replicas) t
  | upgrade {pool image : String} {c t : State} :
      Commits host file lo hi s (.upgrade pool image) c → c.markRetiring pool = some t →
      Accepts host file lo hi s (.upgrade pool image) (.upgrading pool) t
  | remove {pool : String} {force : Bool} {p : PoolState} :
      s.pools[pool]? = some p →
      Accepts host file lo hi s (.remove pool force) (.removing pool force)
        ((s.setPool pool
          { p with
            running := false
            deleting := true
            retryAt := if force then 0 else p.retryAt }).retireRuns p.id force)
  | auth {profile credential : String} {app : Option AppAuth} {c : State} :
      Commits host file lo hi s (.auth profile credential app) c →
      Accepts host file lo hi s (.auth profile credential app) (.authenticated profile)
        (c.resetProfile profile)
  | apply {text : String} {revision : Nat} {c t : State} :
      Commits host file lo hi s (.apply text revision) c →
      c.pools.keys.foldlM State.markRetiring c = some t →
      Accepts host file lo hi s (.apply text revision) (.applied t.revision) t

section Relations

variable {host : Host} {file : Option String} {lo hi hi' : Nat} {s : State}
  {request : Request}

theorem Commits.mono {c : State} (commits : Commits host file lo hi s request c)
    (le : hi ≤ hi') : Commits host file lo hi' s request c := by
  cases commits with
  | add clean low high missing committed =>
      exact .add clean low (high.trans_le le) missing committed
  | scale clean entry found kept committed => exact .scale clean entry found kept committed
  | upgrade clean entry found kept committed =>
      exact .upgrade clean entry found kept committed
  | auth clean name committed => exact .auth clean name committed
  | apply text parsed all low high applies profiles committed =>
      exact .apply text parsed all low (high.trans le) applies profiles committed

theorem Accepts.mono {response : Response} {t : State}
    (accepts : Accepts host file lo hi s request response t) (le : hi ≤ hi') :
    Accepts host file lo hi' s request response t := by
  cases accepts with
  | status known => exact .status known
  | add commits => exact .add (commits.mono le)
  | start targets kept => exact .start targets kept
  | stop targets => exact .stop targets
  | scale commits marked => exact .scale (commits.mono le) marked
  | upgrade commits marked => exact .upgrade (commits.mono le) marked
  | remove found => exact .remove found
  | auth commits => exact .auth (commits.mono le)
  | apply commits marked => exact .apply (commits.mono le) marked

theorem Commits.mutating {c : State} (commits : Commits host file lo hi s request c) :
    request.mutating = true := by
  cases commits <;> rfl

/-- A request that is not mutating leaves the state as it is. -/
theorem Accepts.readonly {response : Response} {t : State}
    (accepts : Accepts host file lo hi s request response t)
    (readonly : request.mutating = false) : t = s := by
  cases accepts with
  | status _ => rfl
  | _ => simp [Request.mutating] at readonly

end Relations

/-! ## What a commit changes -/

namespace Applies

variable {host : Host} {s : State} {n m : Nat} {pools pools' : ExtTreeMap String PoolState}
  {list : List Pool}

theorem entries (applies : Applies host s n pools list m pools') (name : String) :
    (∃ p, pools'[name]? = some p) ↔
      (∃ p, pools[name]? = some p) ∨ ∃ new ∈ list, new.name = name := by
  have inserted {pools : ExtTreeMap String PoolState} {key : String} {p : PoolState} :
      (∃ q, (pools.insert key p)[name]? = some q) ↔
        key = name ∨ ∃ q, pools[name]? = some q := by
    rw [TreeMap.get_insert]
    split
    · next equal => exact ⟨fun _ => .inl equal, fun _ => ⟨p, rfl⟩⟩
    · next different => exact ⟨.inr, fun either => either.resolve_left different⟩
  induction applies with
  | done => simp
  | @edit _ _ pools _ new _ p _ _ found _ _ _ inductionHypothesis =>
      have known : new.name = name → ∃ p, pools[name]? = some p :=
        fun equal => ⟨p, equal ▸ found⟩
      refine inductionHypothesis.trans ?_
      simp only [List.mem_cons, exists_eq_or_imp]
      split
      · constructor
        · rintro (there | later)
          · exact .inl there
          · exact .inr (.inr later)
        · rintro (there | equal | later)
          · exact .inl there
          · exact .inl (known equal)
          · exact .inr later
      · rw [inserted, or_assoc, or_left_comm]
  | add _ _ inductionHypothesis =>
      refine inductionHypothesis.trans ?_
      simp only [List.mem_cons, exists_eq_or_imp]
      rw [inserted, or_assoc, or_left_comm]

theorem extends_ (applies : Applies host s n pools list m pools')
    (distinct : (list.map Pool.name).Nodup)
    (unknown : ∀ new ∈ list, s.config.pool? new.name = none → pools[new.name]? = none) :
    State.Extends host n m pools pools' := by
  induction applies with
  | done => exact .refl host _ _
  | @edit n m pools pools' new old p rest known found kept scope applies
      inductionHypothesis =>
      have later : ∀ other ∈ rest, s.config.pool? other.name = none →
          pools[other.name]? = none :=
        fun other member => unknown other (List.mem_cons_of_mem _ member)
      have rest_distinct := (List.nodup_cons.mp distinct).2
      split at inductionHypothesis
      · exact inductionHypothesis rest_distinct later
      · refine (State.Extends.bump n found _).trans (inductionHypothesis rest_distinct ?_)
        intro other member missing
        rw [TreeMap.get_insert]
        split
        · next equal => simp [← equal, known] at missing
        · exact later other member missing
  | @add n m pools pools' new rest missing applies inductionHypothesis =>
      obtain ⟨alone, rest_distinct⟩ := List.nodup_cons.mp distinct
      refine (State.Extends.insert (unknown new List.mem_cons_self missing) le_rfl).trans
        (inductionHypothesis rest_distinct ?_)
      intro other member missing'
      rw [TreeMap.get_insert, if_neg]
      · exact unknown other (List.mem_cons_of_mem _ member) missing'
      · intro equal
        exact alone (List.mem_map.mpr ⟨other, member, equal.symm⟩)

/-- Pools that are not in the list stay as they are. -/
theorem untouched (applies : Applies host s n pools list m pools') {name : String}
    (other : ∀ new ∈ list, new.name ≠ name) : pools'[name]? = pools[name]? := by
  induction applies with
  | done => rfl
  | @edit _ _ _ _ new _ _ rest _ _ _ _ _ inductionHypothesis =>
      obtain ⟨first, later⟩ := List.forall_mem_cons.mp other
      rw [inductionHypothesis later]
      split
      · rfl
      · rw [TreeMap.get_insert, if_neg first]
  | @add _ _ _ _ new rest _ _ inductionHypothesis =>
      obtain ⟨first, later⟩ := List.forall_mem_cons.mp other
      rw [inductionHypothesis later, TreeMap.get_insert, if_neg first]

/-- Known pools in the list are not being deleted. -/
theorem not_deleting (applies : Applies host s n pools list m pools') {new old : Pool}
    {p : PoolState} (member : new ∈ list) (known : s.config.pool? new.name = some old)
    (found : pools[new.name]? = some p) : p.deleting = false := by
  induction applies generalizing p with
  | done => simp at member
  | @edit _ _ pools _ first _ q _ _ found' kept _ _ inductionHypothesis =>
      by_cases same : first.name = new.name
      · cases (same ▸ found').symm.trans found
        exact kept
      · have member := (List.mem_cons.mp member).resolve_left fun equal => same (by rw [equal])
        refine inductionHypothesis member ?_
        split
        · exact found
        · rw [TreeMap.get_insert, if_neg same]
          exact found
  | @add _ _ _ _ first _ missing _ inductionHypothesis =>
      have other : first.name ≠ new.name := by
        intro same
        cases (same ▸ known).symm.trans missing
      have member := (List.mem_cons.mp member).resolve_left fun equal => other (by rw [equal])
      refine inductionHypothesis member ?_
      rw [TreeMap.get_insert, if_neg other]
      exact found

/-- What `Apply` requires of a known pool, and what it makes of it. -/
theorem edited (applies : Applies host s n pools list m pools')
    (distinct : (list.map Pool.name).Nodup) {new old : Pool} {p : PoolState}
    (member : new ∈ list) (known : s.config.pool? new.name = some old)
    (found : pools[new.name]? = some p) :
    (old.apiScope = new.apiScope ∧ old.auth = new.auth ∨
      p.running = false ∧ s.hasRuns p.id = false) ∧
      pools'[new.name]? = some
        (if old.sameRunner new then p else { p with generation := p.generation + 1 }) := by
  have alone {first : Pool} {rest : List Pool}
      (distinct : ((first :: rest).map Pool.name).Nodup) :
      ∀ other ∈ rest, other.name ≠ first.name := by
    intro other member equal
    exact (List.nodup_cons.mp distinct).1 (List.mem_map.mpr ⟨other, member, equal⟩)
  induction applies generalizing p with
  | done => simp at member
  | @edit n m pools pools' first old' q rest known' found' kept scope applies
      inductionHypothesis =>
      rcases List.mem_cons.mp member with rfl | member
      · cases known.symm.trans known'
        cases found.symm.trans found'
        refine ⟨scope, ?_⟩
        rw [applies.untouched (alone distinct)]
        split
        · exact found
        · rw [TreeMap.get_insert_self]
      · refine inductionHypothesis (List.nodup_cons.mp distinct).2 member ?_
        split
        · exact found
        · rw [TreeMap.get_insert, if_neg (alone distinct new member).symm]
          exact found
  | @add n m pools pools' first rest missing applies inductionHypothesis =>
      rcases List.mem_cons.mp member with rfl | member
      · simp [known] at missing
      · refine inductionHypothesis (List.nodup_cons.mp distinct).2 member ?_
        rw [TreeMap.get_insert, if_neg (alone distinct new member).symm]
        exact found

end Applies

theorem map_name_updateFirst {name : String} {update : Pool → Pool} (pools : List Pool)
    (same : ∀ p, (update p).name = p.name) :
    (updateFirst name update pools).map Pool.name = pools.map Pool.name := by
  induction pools with
  | nil => rfl
  | cons p rest inductionHypothesis =>
      simp only [updateFirst]
      split
      · rw [List.map_cons, List.map_cons, same]
      · rw [List.map_cons, List.map_cons, inductionHypothesis]

theorem find?_updateFirst {target name : String} (update : Pool → Pool)
    (same : ∀ p, (update p).name = p.name) {pools : List Pool} {entry : Pool}
    (found : pools.find? (·.name == name) = some entry) :
    (updateFirst target update pools).find? (·.name == name) =
      some (if target = name then update entry else entry) := by
  induction pools with
  | nil => simp at found
  | cons p rest inductionHypothesis =>
      simp only [updateFirst]
      by_cases first : p.name = name
      · simp only [List.find?_cons, first, beq_self_eq_true] at found
        cases found
        subst first
        split
        · next equal => simp [same, beq_iff_eq.mp equal]
        · next different =>
            have other : target ≠ entry.name :=
              fun equal => different (beq_iff_eq.mpr equal.symm)
            simp [if_neg other]
      · rw [List.find?_cons_of_neg (by simpa using first)] at found
        split
        · next equal =>
            have other : target ≠ name := fun same => first ((beq_iff_eq.mp equal).trans same)
            rw [List.find?_cons_of_neg (by simpa [same] using first), found, if_neg other]
        · rw [List.find?_cons_of_neg (by simpa using first)]
          exact inductionHypothesis found

/-- Entries that describe the same runners of the same place agree. -/
theorem agrees_of_sameRunner {profiles profiles' : ExtTreeMap String Auth} {old new : Pool}
    (valid : validatePool profiles old = .ok ()) (valid' : validatePool profiles' new = .ok ())
    (name : old.name = new.name) (scope : old.apiScope = new.apiScope)
    (profile : old.auth = new.auth) (same : old.sameRunner new = true) : old.Agrees new := by
  obtain ⟨organization, repository⟩ := validatePool_scope valid valid' scope
  simp only [Pool.sameRunner, Bool.and_eq_true, beq_iff_eq] at same
  obtain ⟨⟨⟨known, escalation⟩, cpus⟩, memory⟩ := same
  obtain ⟨⟨⟨image, labels⟩, group⟩, socket⟩ := known
  cases old
  cases new
  simp_all [Pool.Agrees]

/-- What is common to all commits of requests. -/
structure Reconfigures (host : Host) (lo hi : Nat) (s c : State) : Prop where
  runs : c.runs = s.runs
  managerId : c.managerId = s.managerId
  extends_ : State.Extends host lo hi s.pools c.pools
  entries : ∀ name : String, (∃ p, c.pools[name]? = some p) ↔
    ∃ entry ∈ c.config.pools, entry.name = name
  valid : c.config.Valid
  profiles : ∀ {id : String} {run : Run}, s.runs[id]? = some run →
    s.config.auth.contains run.pool.auth = true → c.config.auth.contains run.pool.auth = true
  builds : ∀ {name : String} {p p' : PoolState} {entry entry' : Pool}, s.config.Valid →
    s.pools[name]? = some p → c.pools[name]? = some p' →
    s.config.pool? name = some entry → c.config.pool? name = some entry' →
    s.hasRuns p.id = true →
      Build.Precedes ⟨p.generation, entry⟩ ⟨p'.generation, entry'⟩

namespace Commits

variable {host : Host} {file : Option String} {lo hi : Nat} {s c : State}
  {request : Request}

/-- Every commit stores a new configuration over the state, with other pool states. -/
theorem committed (commits : Commits host file lo hi s request c) :
    ∃ pools next, Committed host { s with pools } next c := by
  cases commits with
  | add _ _ _ _ committed => exact ⟨_, _, committed⟩
  | scale _ _ _ _ committed => exact ⟨_, _, committed⟩
  | upgrade _ _ _ _ committed => exact ⟨_, _, committed⟩
  | auth _ _ committed => exact ⟨_, _, committed⟩
  | apply _ _ _ _ _ _ _ committed => exact ⟨_, _, committed⟩

theorem roster (commits : Commits host file lo hi s request c) : c.roster = s.roster := by
  obtain ⟨_, _, -, _, -, rfl⟩ := commits.committed
  rfl

theorem runs (commits : Commits host file lo hi s request c) : c.runs = s.runs := by
  obtain ⟨_, _, -, _, -, rfl⟩ := commits.committed
  rfl

theorem managerId (commits : Commits host file lo hi s request c) :
    c.managerId = s.managerId := by
  obtain ⟨_, _, -, _, -, rfl⟩ := commits.committed
  rfl

theorem revision (commits : Commits host file lo hi s request c) :
    c.revision = s.revision + 1 := by
  obtain ⟨_, _, -, _, -, rfl⟩ := commits.committed
  rfl

theorem reconfigures (commits : Commits host file lo hi s request c) (le : lo ≤ hi)
    (indexed : s.Indexed) : Reconfigures host lo hi s c := by
  have renamed (target : String) (update : Pool → Pool)
      (same : ∀ p, (update p).name = p.name) (name : String) :
      (∃ p, s.pools[name]? = some p) ↔
        ∃ entry ∈ updateFirst target update s.config.pools, entry.name = name := by
    rw [indexed.entries name, ← List.mem_map, ← List.mem_map, map_name_updateFirst _ same]
  cases commits with
  | @add pool k c clean low high missing committed =>
      obtain ⟨valid, text, -, rfl⟩ := committed
      have absent := TreeMap.contains_eq_false_iff.mp missing
      refine ⟨rfl, rfl, (State.Extends.insert absent low).widen high, fun name => ?_,
        Config.validate_eq_ok_iff.mp valid, fun _ profile => profile, ?_⟩
      case refine_2 =>
        intro name p p' entry entry' _ found found' known known' _
        rw [State.commit, State.setPool_pools, TreeMap.get_insert, if_neg, found] at found'
        · cases found'
          cases (Config.pool?_append known).symm.trans known'
          exact .refl _
        · rintro rfl
          simp [absent] at found
      have old := indexed.entries name
      simp only [State.commit, State.setPool_pools, TreeMap.get_insert, List.mem_append,
        List.mem_singleton]
      split
      · next equal => exact ⟨fun _ => ⟨pool, .inr rfl, equal⟩, fun _ => ⟨_, rfl⟩⟩
      · next different =>
          rw [old]
          constructor
          · rintro ⟨entry, member, equal⟩
            exact ⟨entry, .inl member, equal⟩
          · rintro ⟨entry, member | rfl, equal⟩
            · exact ⟨entry, member, equal⟩
            · exact absurd equal different
  | @scale pool replicas entry p c clean known found kept committed =>
      obtain ⟨valid, text, -, rfl⟩ := committed
      refine ⟨rfl, rfl, (State.Extends.refl host lo s.pools).widen le,
        renamed _ _ fun _ => rfl, Config.validate_eq_ok_iff.mp valid,
        fun _ profile => profile, ?_⟩
      intro name p p' entry entry' _ found found' known known' _
      cases found.symm.trans found'
      cases (find?_updateFirst (fun p => { p with replicas }) (fun _ => rfl) known).symm.trans
        known'
      split
      · exact ⟨le_rfl, fun _ => rfl, rfl, rfl⟩
      · exact .refl _
  | @upgrade pool image entry p c clean known found kept committed =>
      obtain ⟨valid, text, -, rfl⟩ := committed
      refine ⟨rfl, rfl, (State.Extends.bump lo found _).widen le, fun name => ?_,
        Config.validate_eq_ok_iff.mp valid, fun _ profile => profile, ?_⟩
      case refine_2 =>
        intro name q q' entry entry' _ there there' known known' _
        cases (find?_updateFirst (fun p => { p with image }) (fun _ => rfl) known).symm.trans
          known'
        rw [State.commit, State.setPool_pools, TreeMap.get_insert] at there'
        split at there'
        · next equal =>
            cases equal
            cases found.symm.trans there
            cases there'
            rw [if_pos rfl]
            exact ⟨Nat.le_succ _, fun same => absurd same (Nat.succ_ne_self _).symm, rfl, rfl⟩
        · next different =>
            cases there.symm.trans there'
            rw [if_neg different]
            exact .refl _
      refine Iff.trans ?_ (renamed pool (fun p => { p with image }) (fun _ => rfl) name)
      simp only [State.commit, State.setPool_pools, TreeMap.get_insert]
      split
      · next equal => exact ⟨fun _ => ⟨p, equal ▸ found⟩, fun _ => ⟨_, rfl⟩⟩
      · exact Iff.rfl
  | @auth profile credential app c clean name committed =>
      obtain ⟨valid, text, -, rfl⟩ := committed
      refine ⟨rfl, rfl, (State.Extends.refl host lo s.pools).widen le, indexed.entries,
        Config.validate_eq_ok_iff.mp valid, fun _ profile => ?_, ?_⟩
      · simp only [State.commit, ExtTreeMap.contains_insert, profile, Bool.or_true]
      · intro name p p' entry entry' _ found found' known known' _
        cases found.symm.trans found'
        cases known.symm.trans known'
        exact .refl _
  | @apply text next n m pools c file parsed all low high applies profiles committed =>
      obtain ⟨valid, text, -, rfl⟩ := committed
      have validNext := Config.validate_eq_ok_iff.mp valid
      have unknown : ∀ new ∈ next.pools, s.config.pool? new.name = none →
          s.pools[new.name]? = none := by
        intro new _ missing
        by_contra found
        obtain ⟨p, found⟩ := Option.ne_none_iff_exists'.mp found
        obtain ⟨entry, member, equal⟩ := (indexed.entries new.name).mp ⟨p, found⟩
        obtain ⟨old, known⟩ := Config.pool?_isSome member
        simp [← equal, known] at missing
      refine ⟨rfl, rfl, ?_, fun name => ?_, validNext, fun {_ run} recorded _ => ?_, ?_⟩
      · exact (((State.Extends.refl host lo s.pools).widen low).trans
          (applies.extends_ validNext.distinct unknown)).widen high
      · refine (applies.entries name).trans ?_
        rw [indexed.entries name]
        constructor
        · rintro (⟨entry, member, rfl⟩ | new)
          · exact all entry member
          · exact new
        · exact .inr
      · exact profiles run (TreeMap.mem_values_of_get recorded)
      · intro name p p' entry entry' validOld found found' known known' busy
        obtain ⟨oldMember, rfl⟩ := Config.pool?_some known
        obtain ⟨newMember, equal⟩ := Config.pool?_some known'
        rw [← equal] at known found
        obtain ⟨scope, edited⟩ := applies.edited validNext.distinct newMember known found
        rw [equal] at edited
        cases edited.symm.trans found'
        obtain ⟨scope, profile⟩ := scope.resolve_right fun free => by simp [busy] at free
        split
        · next same =>
            exact ⟨le_rfl, fun _ => agrees_of_sameRunner (validOld.pools _ oldMember).2
              (validNext.pools _ newMember).2 equal.symm scope profile same, scope, profile⟩
        · exact ⟨Nat.le_succ _, fun same => absurd same (Nat.succ_ne_self _).symm, scope,
            profile⟩

theorem indexed (commits : Commits host file lo hi s request c) (le : lo ≤ hi)
    (indexed : s.Indexed) : c.Indexed where
  entries := (commits.reconfigures le indexed).entries
  keyed := by
    rw [commits.runs]
    exact indexed.keyed

theorem sound (commits : Commits host file lo hi s request c) (le : lo ≤ hi)
    (sound : s.Sound) (drawn : s.Drawn host lo) (fresh : Fresh host hi) :
    c.Sound ∧ c.Drawn host hi := by
  have reconfigures := commits.reconfigures le sound.toIndexed
  have equal : c = { s with
      pools := c.pools, config := c.config, revision := c.revision
      fileHash := c.fileHash } := by
    have runs := reconfigures.runs
    have managerId := reconfigures.managerId
    cases c
    cases s
    simp_all
  rw [equal]
  exact ⟨sound.extend drawn fresh reconfigures.extends_ reconfigures.valid
      reconfigures.entries (fun recorded =>
        reconfigures.profiles recorded (sound.profiles recorded))
      (fun {name id p p' entry' run} found found' known' recorded ofPool => by
        obtain ⟨entry, member, same⟩ := (sound.entries name).mp ⟨p, found⟩
        obtain ⟨entry, known⟩ := Config.pool?_isSome member
        rw [same] at known
        have busy : s.hasRuns p.id = true := s.hasRuns_of_run recorded ofPool
        exact (sound.built found known recorded ofPool).trans
          (reconfigures.builds sound.valid found found' known known' busy)) _ _,
    reconfigures.extends_.drawn drawn⟩

end Commits

end Runnerctl
