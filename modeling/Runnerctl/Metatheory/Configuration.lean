import Runnerctl.Lib.Program
import Runnerctl.Lib.TreeMap
import Runnerctl.Model.Config

/-!
# Valid configurations

What `Config.validate` accepts, as a structure, and how valid configurations behave
under the edits that the manager makes itself.
-/

namespace Runnerctl

open Std Program

theorem check_eq_ok_iff {condition : Bool} {text : String} {value : Unit} :
    check condition text = .ok value ↔ condition = true := by
  cases condition <;> simp [check]

namespace Config

/-- The configurations that `validate` accepts. -/
structure Valid (config : Config) : Prop where
  schema : config.schemaVersion = 1
  interval : 5 ≤ config.manager.pollIntervalSeconds ∧
    config.manager.pollIntervalSeconds ≤ 3600
  capacity : 0 < config.manager.maxRunners ∧ 0 < config.manager.maxParallelCreates ∧
    config.manager.maxParallelCreates ≤ config.manager.maxRunners
  profiles : ∀ entry ∈ config.auth.toList, validateAuth entry.1 entry.2 = .ok ()
  pools : ∀ p ∈ config.pools, validName p.name = true ∧ validatePool config.auth p = .ok ()
  distinct : (config.pools.map Pool.name).Nodup
  replicas : (config.pools.map Pool.replicas).sum ≤ config.manager.maxRunners

end Config

theorem validatePools_eq_ok_iff {profiles : ExtTreeMap String Auth} {names : List String}
    {pools : List Pool} {value : Unit} :
    validatePools profiles names pools = .ok value ↔
      (∀ p ∈ pools, validName p.name = true ∧ validatePool profiles p = .ok ()) ∧
        (pools.map Pool.name).Nodup ∧ ∀ p ∈ pools, p.name ∉ names := by
  induction pools generalizing names with
  | nil => simp [validatePools]
  | cons p rest inductionHypothesis =>
      simp only [validatePools, bind_eq_ok_iff, check_eq_ok_iff, exists_const,
        inductionHypothesis, Bool.and_eq_true, Bool.not_eq_true', List.contains_eq_mem,
        decide_eq_false_iff_not, List.map_cons, List.nodup_cons, List.mem_map, List.mem_cons,
        not_or, forall_eq_or_imp]
      constructor
      · rintro ⟨⟨valid, fresh⟩, _, accepted, others, nodup, apart⟩
        refine ⟨⟨⟨valid, accepted⟩, others⟩, ⟨?_, nodup⟩, fresh, fun q member =>
          (apart q member).2⟩
        rintro ⟨q, member, same⟩
        exact (apart q member).1 same
      · rintro ⟨⟨⟨valid, accepted⟩, others⟩, ⟨alone, nodup⟩, fresh, apart⟩
        exact ⟨⟨valid, fresh⟩, (), accepted, others, nodup, fun q member =>
          ⟨fun same => alone ⟨q, member, same⟩, apart q member⟩⟩

namespace Config

variable {config : Config}

theorem validate_eq_ok_iff : config.validate = .ok () ↔ config.Valid := by
  simp only [validate, bind_eq_ok_iff, check_eq_ok_iff, forM_eq_ok_iff,
    validatePools_eq_ok_iff, Bool.and_eq_true, decide_eq_true_eq, beq_iff_eq]
  constructor
  · rintro ⟨_, schema, _, interval, _, ⟨⟨some, create⟩, fits⟩, _, profiles, _,
      ⟨pools, distinct, -⟩, replicas⟩
    exact ⟨schema, interval, ⟨some, create, fits⟩, profiles, pools, distinct, replicas⟩
  · rintro ⟨schema, interval, ⟨some, create, fits⟩, profiles, pools, distinct, replicas⟩
    exact ⟨(), schema, (), interval, (), ⟨⟨some, create⟩, fits⟩, (), profiles, (),
      ⟨pools, distinct, fun _ _ => List.not_mem_nil⟩, replicas⟩

/-- Removing a pool keeps a configuration valid. -/
theorem Valid.without (valid : config.Valid) (name : String) :
    (config.without name).Valid where
  schema := valid.schema
  interval := valid.interval
  capacity := valid.capacity
  profiles := valid.profiles
  pools := fun p member => valid.pools p (List.mem_filter.mp member).1
  distinct := valid.distinct.sublist (List.filter_sublist.map _)
  replicas := 
    Nat.le_trans ((List.filter_sublist.map _).sum_le_sum fun _ _ => Nat.zero_le _) valid.replicas

/-- The profile of every pool exists. -/
theorem Valid.authenticated (valid : config.Valid) {p : Pool} (member : p ∈ config.pools) :
    config.auth.contains p.auth = true := by
  have accepted := (valid.pools p member).2
  unfold validatePool at accepted
  cases repository : p.repository <;> cases memory : p.memory <;>
    simp only [repository, memory, bind_eq_ok_iff, check_eq_ok_iff] at accepted <;> grind

theorem pool?_some {name : String} {p : Pool} (found : config.pool? name = some p) :
    p ∈ config.pools ∧ p.name = name :=
  ⟨List.mem_of_find?_eq_some found, by simpa using List.find?_some found⟩

theorem pool?_isSome {p : Pool} (member : p ∈ config.pools) :
    ∃ q, config.pool? p.name = some q :=
  Option.isSome_iff_exists.mp
    (List.find?_isSome.mpr ⟨p, member, beq_self_eq_true p.name⟩)

theorem pool?_without {name other : String} (different : other ≠ name) :
    (config.without name).pool? other = config.pool? other := by
  rw [pool?, without, List.find?_filter, pool?]
  congr 1
  funext p
  rw [Bool.eq_iff_iff, decide_eq_true_iff, and_iff_right_iff_imp]
  intro found
  rw [beq_iff_eq.mp found, bne_iff_ne]
  exact different

theorem pool?_without_self (config : Config) (name : String) :
    (config.without name).pool? name = none := by
  rw [pool?, without, List.find?_eq_none]
  intro p member
  simpa using (List.mem_filter.mp member).2

theorem pool?_append {name : String} {entry p : Pool}
    (found : config.pool? name = some entry) :
    ({ config with pools := config.pools ++ [p] } : Config).pool? name = some entry := by
  rw [pool?, List.find?_append]
  rw [pool?] at found
  rw [found]
  rfl

end Config

/-! ## Rejections -/

theorem check_ne_interrupted (condition : Bool) (text : String) :
    check condition text ≠ .error .interrupted := by
  cases condition <;> simp [check]

theorem validateReference_ne_interrupted (reference : String) :
    validateReference reference ≠ .error .interrupted := by
  unfold validateReference
  split
  · exact check_ne_interrupted _ _
  · split
    · exact check_ne_interrupted _ _
    · simp

theorem validateAuth_ne_interrupted (name : String) (auth : Auth) :
    validateAuth name auth ≠ .error .interrupted := by
  unfold validateAuth
  refine bind_ne_error (check_ne_interrupted _ _) fun _ => ?_
  split
  · refine bind_ne_error (check_ne_interrupted _ _) fun _ => ?_
    exact bind_ne_error (check_ne_interrupted _ _) fun _ => validateReference_ne_interrupted _
  · exact validateReference_ne_interrupted _

theorem memoryBytes_ne_interrupted (s : String) : memoryBytes s ≠ .error .interrupted := by
  unfold memoryBytes
  refine bind_ne_error (check_ne_interrupted _ _) fun _ => ?_
  dsimp only
  split <;>
    exact bind_ne_error nofun fun _ => bind_ne_error (check_ne_interrupted _ _) fun _ =>
      bind_ne_error (check_ne_interrupted _ _) fun _ => nofun

theorem validateImage_ne_interrupted (image : String) :
    validateImage image ≠ .error .interrupted :=
  bind_ne_error (check_ne_interrupted _ _) fun _ =>
    bind_ne_error (check_ne_interrupted _ _) fun _ => check_ne_interrupted _ _

theorem validatePool_ne_interrupted (profiles : ExtTreeMap String Auth) (p : Pool) :
    validatePool profiles p ≠ .error .interrupted := by
  have tail : (do
      check (profiles.contains p.auth) ("unknown auth profile: " ++ p.auth)
      check (!p.labels.isEmpty && decide (p.labels.length < 100))
        "pool needs 1..99 custom labels"
      check (p.labels.all validLabel) "invalid or reserved label"
      check (!isBlank p.runnerGroup &&
        !p.runnerGroup.toList.any (fun c => c == '\n' || c == '\r')) "invalid runner group"
      validateImage p.image : Except Error Unit) ≠ .error .interrupted :=
    bind_ne_error (check_ne_interrupted _ _) fun _ =>
      bind_ne_error (check_ne_interrupted _ _) fun _ =>
        bind_ne_error (check_ne_interrupted _ _) fun _ =>
          bind_ne_error (check_ne_interrupted _ _) fun _ => validateImage_ne_interrupted _
  unfold validatePool
  dsimp only
  split
  · refine bind_ne_error (check_ne_interrupted _ _) fun _ => ?_
    refine bind_ne_error (check_ne_interrupted _ _) fun _ => ?_
    refine bind_ne_error (check_ne_interrupted _ _) fun _ => ?_
    split
    · refine bind_ne_error ?_ fun _ => tail
      exact bind_ne_error (memoryBytes_ne_interrupted _) fun _ => nofun
    · exact tail
  · refine bind_ne_error (check_ne_interrupted _ _) fun _ => ?_
    refine bind_ne_error (check_ne_interrupted _ _) fun _ => ?_
    refine bind_ne_error (check_ne_interrupted _ _) fun _ => ?_
    split
    · refine bind_ne_error ?_ fun _ => tail
      exact bind_ne_error (memoryBytes_ne_interrupted _) fun _ => nofun
    · exact tail

theorem validatePools_ne_interrupted (profiles : ExtTreeMap String Auth)
    (names : List String) (pools : List Pool) :
    validatePools profiles names pools ≠ .error .interrupted := by
  induction pools generalizing names with
  | nil => nofun
  | cons p rest inductionHypothesis =>
      exact bind_ne_error (check_ne_interrupted _ _) fun _ =>
        bind_ne_error (validatePool_ne_interrupted _ _) fun _ => inductionHypothesis _

/-- No check fails with the marker of an interruption. -/
theorem Config.validate_ne_interrupted (config : Config) :
    config.validate ≠ .error .interrupted := by
  refine bind_ne_error (check_ne_interrupted _ _) fun _ => ?_
  refine bind_ne_error (check_ne_interrupted _ _) fun _ => ?_
  refine bind_ne_error (check_ne_interrupted _ _) fun _ => ?_
  refine bind_ne_error (forM_ne_error fun _ _ => validateAuth_ne_interrupted _ _) fun _ => ?_
  exact bind_ne_error (validatePools_ne_interrupted _ _ _) fun _ => check_ne_interrupted _ _

/-! ## Builds -/

/-- The two entries describe the same runners: they differ in `replicas` at most. -/
def Pool.Agrees (pool entry : Pool) : Prop := { pool with replicas := entry.replicas } = entry

/-- What runners are built from: an entry, and the generation of the pool. -/
structure Build where
  generation : Nat
  pool : Pool

/-- A pool with runners of the build `earlier` may turn to the build `later`. -/
structure Build.Precedes (earlier later : Build) : Prop where
  older : earlier.generation ≤ later.generation
  current : earlier.generation = later.generation → earlier.pool.Agrees later.pool
  scope : earlier.pool.apiScope = later.pool.apiScope
  profile : earlier.pool.auth = later.pool.auth

namespace Build.Precedes

variable {first second third : Build}

theorem refl (build : Build) : build.Precedes build := ⟨le_rfl, fun _ => rfl, rfl, rfl⟩

theorem trans (left : first.Precedes second) (right : second.Precedes third) :
    first.Precedes third where
  older := left.older.trans right.older
  current same := by
    have half : first.generation = second.generation :=
      Nat.le_antisymm left.older (same ▸ right.older)
    have agrees := left.current half
    have agrees' := right.current (half.symm.trans same)
    unfold Pool.Agrees at *
    rw [← agrees', ← agrees]
  scope := left.scope.trans right.scope
  profile := left.profile.trans right.profile

end Build.Precedes

/-- The API scope of a valid entry determines its organization and repository. -/
theorem validatePool_scope {profiles profiles' : ExtTreeMap String Auth} {p q : Pool}
    (valid : validatePool profiles p = .ok ()) (valid' : validatePool profiles' q = .ok ())
    (same : p.apiScope = q.apiScope) :
    p.organization = q.organization ∧ p.repository = q.repository := by
  have empty {profiles : ExtTreeMap String Auth} {p : Pool} {repo : String}
      (valid : validatePool profiles p = .ok ()) (repository : p.repository = some repo) :
      p.organization = "" := by
    unfold validatePool at valid
    simp only [repository, bind_eq_ok_iff, check_eq_ok_iff] at valid
    obtain ⟨_, first, _⟩ := valid
    exact String.isEmpty_iff.mp (Bool.and_eq_true_iff.mp first).1
  unfold Pool.apiScope at same
  match repository : p.repository, repository' : q.repository with
  | none, none =>
      rw [repository, repository'] at same
      have chars := congrArg String.toList same
      rw [String.toList_append, String.toList_append] at chars
      exact ⟨String.toList_inj.mp (List.append_cancel_left chars), rfl⟩
  | none, some _ | some _, none =>
      rw [repository, repository'] at same
      have chars := congrArg String.toList same
      simp at chars
  | some _, some _ =>
      rw [repository, repository'] at same
      have chars := congrArg String.toList same
      rw [String.toList_append, String.toList_append] at chars
      exact ⟨(empty valid repository).trans (empty valid' repository').symm,
        congrArg some (String.toList_inj.mp (List.append_cancel_left chars))⟩

end Runnerctl
