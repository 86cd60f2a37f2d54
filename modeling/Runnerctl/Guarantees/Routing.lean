import Runnerctl.Metatheory.Configuration
import Runnerctl.Metatheory.Scripts
import Runnerctl.Model.Docker

/-!
# Routing labels

The labels of a runner are those of its pool and the name of the pool behind `pool:`, and
nothing in a valid configuration can disturb them on their way through one environment
variable.  GitHub compares labels without regard to case, while the check of the reserved
prefix and the check for duplicate names look at the exact text.
-/

namespace Runnerctl

open Std Program

/-- The labels that the runner registers with: the text between the commas. -/
def splitLabels (value : String) : List String :=
  (value.toList.splitOn ',').map String.ofList

/-- A label as GitHub compares it. -/
def foldCase (label : String) : List Char := label.toList.map Char.toLower

section Labels

variable {config : Config} {p q : Pool} {label : String}

/-! ## One environment variable -/

theorem validName_no_comma {name : String} (valid : validName name = true) :
    ',' ∉ name.toList := by
  intro member
  simp only [validName, Bool.and_eq_true] at valid
  have allowed := List.all_eq_true.mp valid.1.2 ',' member
  cases allowed

theorem validLabel_no_comma (valid : validLabel label = true) : ',' ∉ label.toList := by
  intro member
  simp only [validLabel, Bool.and_eq_true, Bool.not_eq_true', List.any_eq_false] at valid
  exact valid.1.2 ',' member rfl

theorem validLabel_not_reserved (valid : validLabel label = true) :
    ¬"pool:".toList <+: label.toList := by
  intro reserved
  simp only [validLabel, Bool.and_eq_true, Bool.not_eq_true'] at valid
  rw [List.isPrefixOf_iff_prefix.mpr reserved] at valid
  cases valid.2

theorem validatePool_labels {profiles : ExtTreeMap String Auth}
    (valid : validatePool profiles p = .ok ()) (member : label ∈ p.labels) :
    validLabel label = true := by
  have all : p.labels.all validLabel = true := by
    unfold validatePool at valid
    cases repository : p.repository <;> cases memory : p.memory
    all_goals
      simp only [repository, memory, bind_eq_ok_iff, check_eq_ok_iff, exists_const] at valid
    case none.none | some.none =>
      obtain ⟨_, _, _, _, _, all, _⟩ := valid
      exact all
    case none.some | some.some =>
      obtain ⟨_, _, _, _, _, _, _, all, _⟩ := valid
      exact all
  exact List.all_eq_true.mp all label member

/-- Splitting gives back the labels of the pool and the name of the pool. -/
theorem splitLabels_runnerLabels (valid : config.Valid) (member : p ∈ config.pools) :
    splitLabels p.runnerLabels = p.labels ++ ["pool:" ++ p.name] := by
  obtain ⟨validName, validPool⟩ := valid.pools p member
  have noComma : ∀ text ∈ (p.labels ++ ["pool:" ++ p.name]).map String.toList,
      ',' ∉ text := by
    intro text listed
    obtain ⟨label, labelled, rfl⟩ := List.mem_map.mp listed
    obtain custom | routing := List.mem_append.mp labelled
    · exact validLabel_no_comma (validatePool_labels validPool custom)
    · rw [List.mem_singleton.mp routing, String.toList_append, List.mem_append]
      exact fun comma => comma.elim (by decide) (validName_no_comma validName)
  rw [splitLabels, Pool.runnerLabels, String.toList_intercalate]
  have split := List.splitOn_intercalate ',' noComma (by simp)
  rw [show ",".toList = [','] from rfl, split, List.map_map]
  exact (List.map_congr_left fun label _ => String.ofList_toList).trans (List.map_id _)

/-- The value is passed to the container. -/
theorem createArgs_env {host : DockerHost} {manager home : String} {run : Run}
    {args : List String} (built : createArgs host manager run home = .ok args) :
    ["--env", "RUNNER_LABELS=" ++ run.pool.runnerLabels] <:+: args := by
  rw [createArgs] at built
  obtain ⟨socket, -, returned⟩ := Program.bind_eq_ok_iff.mp built
  cases returned
  have here : ["--env", "RUNNER_LABELS=" ++ run.pool.runnerLabels] <:+:
      ["--label", "io.runnerctl.manager=" ++ manager,
        "--label", "io.runnerctl.pool=" ++ run.poolId,
        "--label", "io.runnerctl.run=" ++ run.id,
        "--env", "GITHUB_ORG=" ++ run.pool.organization,
        "--env", "RUNNER_NAME=" ++ run.id,
        "--env", "RUNNER_LABELS=" ++ run.pool.runnerLabels,
        "--env", "RUNNER_GROUP=" ++ run.pool.runnerGroup,
        "--env", "GITHUB_URL=" ++ run.pool.url] :=
    ⟨["--label", _, "--label", _, "--label", _, "--env", _, "--env", _],
      ["--env", _, "--env", _], rfl⟩
  -- the image, the socket, the volume and the scope follow
  iterate 4 refine List.IsInfix.trans ?_ (List.prefix_append _ _).isInfix
  exact here.trans (List.suffix_append _ _).isInfix

/-! ## Other pools -/

/-- A label that GitHub takes for the reserved prefix and a name. -/
def Imitates (label name : String) : Prop :=
  ∃ lead rest : List Char, label.toList = lead ++ rest ∧ lead ≠ "pool:".toList ∧
    lead.map Char.toLower = "pool:".toList ∧ rest.map Char.toLower = foldCase name

/-- The pool differs from every other by more than case, and none of its labels begins with
the reserved prefix in another case and goes on with the name of another pool. -/
def Distinguished (config : Config) (p : Pool) : Prop :=
  ∀ q ∈ config.pools, q ≠ p →
    foldCase q.name ≠ foldCase p.name ∧ ∀ label ∈ p.labels, ¬Imitates label q.name

theorem foldCase_append (left right : String) :
    foldCase (left ++ right) = foldCase left ++ foldCase right := by
  rw [foldCase, String.toList_append, List.map_append]
  rfl

/-- The names of two pools collide as labels if they are the same but for case. -/
theorem foldCase_routing {name other : String} :
    foldCase ("pool:" ++ name) = foldCase ("pool:" ++ other) ↔
      foldCase name = foldCase other := by
  rw [foldCase_append, foldCase_append, List.append_cancel_left_eq]

/-- A custom label collides with the name of a pool if it imitates the reserved prefix. -/
theorem foldCase_eq_routing_iff (valid : validLabel label = true) {name : String} :
    foldCase label = foldCase ("pool:" ++ name) ↔ Imitates label name := by
  have lower : foldCase "pool:" = "pool:".toList := by decide
  rw [foldCase_append, lower]
  constructor
  · intro same
    obtain ⟨lead, rest, split, front, back⟩ := List.map_eq_append_iff.mp same
    refine ⟨lead, rest, split, ?_, front, back⟩
    rintro rfl
    exact validLabel_not_reserved valid ⟨rest, split.symm⟩
  · rintro ⟨lead, rest, split, -, front, back⟩
    rw [foldCase, split, List.map_append, front, back]

/-- No label of the pool reaches another one. -/
def Exclusive (config : Config) (p : Pool) (labels : List String) : Prop :=
  ∀ q ∈ config.pools, q ≠ p → ∀ label ∈ labels,
    foldCase label ≠ foldCase ("pool:" ++ q.name)

theorem exclusive_iff (valid : config.Valid) (member : p ∈ config.pools) :
    Exclusive config p (p.labels ++ ["pool:" ++ p.name]) ↔ Distinguished config p := by
  have validPool := (valid.pools p member).2
  refine forall₃_congr fun q _ _ => ?_
  constructor
  · intro apart
    refine ⟨fun same => ?_, fun label custom imitates => ?_⟩
    · exact apart _ (List.mem_append_right _ (List.mem_singleton_self _))
        (foldCase_routing.mpr same.symm)
    · exact apart label (List.mem_append_left _ custom)
        ((foldCase_eq_routing_iff (validatePool_labels validPool custom)).mpr imitates)
  · rintro ⟨names, custom⟩ label listed same
    obtain listed | routing := List.mem_append.mp listed
    · exact custom label listed
        ((foldCase_eq_routing_iff (validatePool_labels validPool listed)).mp same)
    · rw [List.mem_singleton.mp routing] at same
      exact names (foldCase_routing.mp same).symm

end Labels

/-- The value of `RUNNER_LABELS` splits into the labels of the pool and its name, and none of
them reaches another pool exactly if the pool is distinguished from the others. -/
theorem routing_labels {config : Config} (valid : config.validate = .ok ())
    {host : DockerHost} {manager home : String} {run : Run} (member : run.pool ∈ config.pools)
    {args : List String} (built : createArgs host manager run home = .ok args) :
    (["--env", "RUNNER_LABELS=" ++ run.pool.runnerLabels] <:+: args ∧
        splitLabels run.pool.runnerLabels = run.pool.labels ++ ["pool:" ++ run.pool.name] ∧
        Exclusive config run.pool (splitLabels run.pool.runnerLabels)) ↔
      Distinguished config run.pool := by
  have valid := Config.validate_eq_ok_iff.mp valid
  have split := splitLabels_runnerLabels valid member
  rw [split, exclusive_iff valid member]
  exact ⟨fun routes => routes.2.2, fun apart => ⟨createArgs_env built, rfl, apart⟩⟩

/-- The first run of a pool. -/
def Pool.sampleRun (pool : Pool) : Run where
  id := pool.name ++ "-1"
  poolId := pool.name
  pool := pool
  generation := 0
  createdAt := 0
  phase := .starting
  remoteId := none
  retiring := false
  force := false
  completedJob := false
  logSaved := false

theorem routing_labels_sample :
    ∃ args, createArgs ⟨1000, fun _ => "1"⟩ "m"
      (Pool.sample "a" 1).sampleRun "/h" = .ok args ∧
      ((["--env", "RUNNER_LABELS=" ++ (Pool.sample "a" 1).runnerLabels] <:+: args ∧
        splitLabels (Pool.sample "a" 1).runnerLabels = ["linux"] ++ ["pool:" ++ "a"] ∧
        Exclusive (.sample [.sample "a" 1, .sample "b" 1]) (.sample "a" 1)
          (splitLabels (Pool.sample "a" 1).runnerLabels)) ↔
      Distinguished (.sample [.sample "a" 1, .sample "b" 1]) (.sample "a" 1)) :=
  ⟨_, rfl, @routing_labels (.sample [.sample "a" 1, .sample "b" 1]) (by decide) _ _ _
    (Pool.sample "a" 1).sampleRun List.mem_cons_self _ rfl⟩

/-- A pool with a label that imitates the name of another pool. -/
def Pool.imitating : Pool := { Pool.sample "a" 1 with labels := ["POOL:b"] }

/-- The label is accepted, and jobs for the other pool reach the runner. -/
theorem routing_shared :
    (Config.sample [.imitating, .sample "b" 1]).validate = .ok () ∧
      ∃ args, createArgs ⟨1000, fun _ => "1"⟩ "m" Pool.imitating.sampleRun "/h" = .ok args ∧
        ¬(["--env", "RUNNER_LABELS=" ++ Pool.imitating.runnerLabels] <:+: args ∧
          splitLabels Pool.imitating.runnerLabels =
            Pool.imitating.labels ++ ["pool:" ++ Pool.imitating.name] ∧
          Exclusive (.sample [.imitating, .sample "b" 1]) .imitating
            (splitLabels Pool.imitating.runnerLabels)) := by
  refine ⟨by decide, _, rfl, fun ⟨_, split, exclusive⟩ => ?_⟩
  refine exclusive (.sample "b" 1) (List.mem_cons_of_mem _ List.mem_cons_self) (by decide)
    "POOL:b" ?_ (by decide)
  rw [split]
  exact List.mem_cons_self

end Runnerctl
