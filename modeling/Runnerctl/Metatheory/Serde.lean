import Runnerctl.Lib.TreeMap
import Runnerctl.Model.Serde

/-!
# Serialization of the configuration

Reading back an encoded configuration gives the same configuration: every field that
the encoder leaves out is restored by its default.
-/

namespace Runnerctl

open Std Toml

/-- The integers lie in the ranges of their types. -/
structure Manager.InRange (manager : Manager) : Prop where
  pollIntervalSeconds : manager.pollIntervalSeconds < 2 ^ 64
  maxRunners : manager.maxRunners < 2 ^ 32
  maxParallelCreates : manager.maxParallelCreates < 2 ^ 32
  logRetentionDays : manager.logRetentionDays < 2 ^ 64

structure Config.InRange (config : Config) : Prop where
  schemaVersion : config.schemaVersion < 2 ^ 32
  manager : config.manager.InRange
  replicas : ∀ p ∈ config.pools, p.replicas < 2 ^ 32

/-! ## One record at a time -/

theorem AppAuth.decode_encode (app : AppAuth) : AppAuth.decode app.encode = some app := by
  have small : app.installationId.toNat < 2 ^ 64 := app.installationId.toNat_lt
  simp [AppAuth.decode, AppAuth.encode, Value.asTable, onlyKeys, required,
    Value.asString, asUnsigned_integer small]

theorem Auth.decode_encode (auth : Auth) : Auth.decode auth.encode = some auth := by
  have known : onlyKeys ["credential", "app"] auth.entries = some () := by
    cases auth.app <;> simp [Auth.entries, onlyKeys]
  have credential : defaulted "credential" "" Value.asString auth.entries =
      some auth.credential := by
    refine defaulted_of_lookup (.string auth.credential) auth.credential.isEmpty ?_
      String.isEmpty_iff.mp rfl
    cases empty : auth.credential.isEmpty <;> simp [Auth.entries, empty]
  have app : optionally "app" AppAuth.decode auth.entries = some auth.app :=
    optionally_of_lookup AppAuth.encode (by simp [Auth.entries]) AppAuth.decode_encode
  simp only [Auth.decode, Auth.encode, Value.asTable, Option.bind_eq_bind, Option.bind_some,
    Option.pure_def, known, credential, app]

theorem Manager.decode_encode {manager : Manager} (inRange : manager.InRange) :
    Manager.decode manager.encode = some manager := by
  simp [Manager.decode, Manager.encode, Value.asTable, onlyKeys, defaulted,
    asUnsigned_integer inRange.pollIntervalSeconds, asUnsigned_integer inRange.maxRunners,
    asUnsigned_integer inRange.maxParallelCreates, asUnsigned_integer inRange.logRetentionDays]

theorem Pool.decode_encode {pool : Pool} (small : pool.replicas < 2 ^ 32) :
    Pool.decode pool.encode = some pool := by
  have known : onlyKeys ["name", "organization", "repository", "auth", "labels",
      "runner_group", "replicas", "image", "docker_socket", "allow_privilege_escalation",
      "cpus", "memory"] pool.entries = some () := by
    cases pool.repository <;> cases pool.cpus <;> cases pool.memory <;>
      simp [Pool.entries, onlyKeys]
  have name : required "name" Value.asString pool.entries = some pool.name := by
    simp [required, Pool.entries, Value.asString]
  have organization : defaulted "organization" "" Value.asString pool.entries =
      some pool.organization := by
    refine defaulted_of_lookup (.string pool.organization) pool.organization.isEmpty ?_
      String.isEmpty_iff.mp rfl
    cases empty : pool.organization.isEmpty <;> simp [Pool.entries, empty]
  have repository : optionally "repository" Value.asString pool.entries =
      some pool.repository :=
    optionally_of_lookup Value.string (by simp [Pool.entries]) fun _ => rfl
  have auth : required "auth" Value.asString pool.entries = some pool.auth := by
    simp [required, Pool.entries, Value.asString]
  have labels : required "labels" (Value.asArray Value.asString) pool.entries =
      some pool.labels := by
    have back : (Value.array (pool.labels.map .string) : Document).asArray Value.asString =
        some pool.labels := asArray_map Value.string fun _ _ => rfl
    simp [required, Pool.entries, back]
  have runnerGroup : defaulted "runner_group" defaultGroup Value.asString pool.entries =
      some pool.runnerGroup := by
    simp [defaulted, Pool.entries, Value.asString]
  have replicas : required "replicas" (Value.asUnsigned 32) pool.entries =
      some pool.replicas := by
    simp [required, Pool.entries, asUnsigned_integer small]
  have image : defaulted "image" defaultImage Value.asString pool.entries =
      some pool.image := by
    simp [defaulted, Pool.entries, Value.asString]
  have dockerSocket : defaulted "docker_socket" false Value.asBool pool.entries =
      some pool.dockerSocket := by
    simp [defaulted, Pool.entries, Value.asBool]
  have escalation : defaulted "allow_privilege_escalation" false Value.asBool pool.entries =
      some pool.allowPrivilegeEscalation := by
    refine defaulted_of_lookup (.boolean pool.allowPrivilegeEscalation)
      (!pool.allowPrivilegeEscalation) ?_ (fun skipped => by simpa using skipped) rfl
    cases allowed : pool.allowPrivilegeEscalation <;> simp [Pool.entries, allowed]
  have cpus : optionally "cpus" (Value.asFloat F64.ofInteger) pool.entries =
      some pool.cpus :=
    optionally_of_lookup Value.float (by simp [Pool.entries]) fun _ => rfl
  have memory : optionally "memory" Value.asString pool.entries = some pool.memory :=
    optionally_of_lookup Value.string (by simp [Pool.entries]) fun _ => rfl
  simp only [Pool.decode, Pool.encode, Value.asTable, Option.bind_eq_bind, Option.bind_some,
    Option.pure_def, known, name, organization, repository, auth, labels, runnerGroup,
    replicas, image, dockerSocket, escalation, cpus, memory]

/-! ## The whole configuration -/

theorem decodeProfiles_encode (profiles : ExtTreeMap String Auth) :
    decodeProfiles (.table (profiles.toList.map fun (name, auth) => (name, auth.encode))) =
      some profiles := by
  have back (entries : List (String × Auth)) :
      (entries.map fun (name, auth) => (name, auth.encode)).mapM
        (fun entry => do return (entry.1, ← Auth.decode entry.2)) = some entries := by
    induction entries with
    | nil => rfl
    | cons entry rest inductionHypothesis =>
        rw [List.map_cons, List.mapM_cons, inductionHypothesis]
        simp [Auth.decode_encode]
  change ((profiles.toList.map fun (name, auth) => (name, auth.encode)).mapM
    fun entry => do return (entry.1, ← Auth.decode entry.2)) >>= _ = _
  rw [back]
  exact congrArg some (TreeMap.ofList_toList profiles)

/-- Reading back an encoded configuration. -/
theorem Config.decode_encode {config : Config} (inRange : config.InRange) :
    Config.decode config.encode = some config := by
  have pools : (Value.array (config.pools.map Pool.encode)).asArray Pool.decode =
      some config.pools :=
    asArray_map Pool.encode fun p member => Pool.decode_encode (inRange.replicas p member)
  simp [Config.decode, Config.encode, Value.asTable, onlyKeys, required, defaulted,
    asUnsigned_integer inRange.schemaVersion, decodeProfiles_encode,
    Manager.decode_encode inRange.manager, pools]

/-! ## Ranges -/

theorem defaulted_lt {key : String} {width value n : Nat} {entries : Entries F64}
    (read : defaulted key value (Value.asUnsigned width) entries = some n)
    (small : value < 2 ^ width) : n < 2 ^ width := by
  rcases defaulted_some read with rfl | ⟨found, back⟩
  · exact small
  · exact asUnsigned_lt back

/-- The integers that are read lie in the ranges of their types. -/
theorem Manager.inRange_of_decode {value : Document} {manager : Manager}
    (decoded : Manager.decode value = some manager) : manager.InRange := by
  simp only [Manager.decode, Option.bind_eq_bind, Option.bind_eq_some_iff] at decoded
  obtain ⟨entries, -, _, -, poll, readPoll, runners, readRunners, creates, readCreates, days,
    readDays, same⟩ := decoded
  cases same
  exact ⟨defaulted_lt readPoll (by decide), defaulted_lt readRunners (by decide),
    defaulted_lt readCreates (by decide), defaulted_lt readDays (by decide)⟩

theorem Config.inRange_of_decode {value : Document} {config : Config}
    (decoded : Config.decode value = some config) : config.manager.InRange := by
  simp only [Config.decode, Option.bind_eq_bind, Option.bind_eq_some_iff] at decoded
  obtain ⟨entries, -, _, -, schema, -, auth, -, manager, readManager, pools, -, same⟩ := decoded
  cases same
  rcases defaulted_some readManager with rfl | ⟨found, back⟩
  · exact (⟨by decide, by decide, by decide, by decide⟩ : Manager.default.InRange)
  · exact Manager.inRange_of_decode back

end Runnerctl
