import Runnerctl.Lib.Toml
import Runnerctl.Model.Config

/-!
# The text of `config.toml`

The serialization that `serde` derives for the records of `src/config.rs`, over TOML
value trees.  Every record rejects unknown fields.
-/

namespace Runnerctl

open Std Toml

abbrev Document : Type := Value F64

/-- `x as f64` for an integer: the nearest double, ties to even. -/
def F64.ofInteger (value : Int) : F64 :=
  let magnitude := value.natAbs
  let unit := 2 ^ (magnitude.log2 - 52)
  let quotient := magnitude / unit
  let rest := magnitude % unit
  let up := decide (unit < 2 * rest) || (2 * rest == unit && quotient % 2 == 1)
  let rounded := (if up then quotient + 1 else quotient) * unit
  .finite (if value < 0 then -(rounded : Rat) else rounded)

/-- `default_group`. -/
def defaultGroup : String := "Default"

/-- `default_image`. -/
def defaultImage : String := "ghcr.io/clroot/runnerctl-runner:v0.3.1"

def AppAuth.encode (app : AppAuth) : Document :=
  .table [("app_id", .string app.appId),
    ("installation_id", .integer app.installationId.toNat),
    ("private_key", .string app.privateKey)]

def AppAuth.decode (value : Document) : Option AppAuth := do
  let entries ← value.asTable
  onlyKeys ["app_id", "installation_id", "private_key"] entries
  return {
    appId := ← required "app_id" Value.asString entries
    installationId :=
      UInt64.ofNat (← required "installation_id" (Value.asUnsigned 64) entries)
    privateKey := ← required "private_key" Value.asString entries }

def Auth.entries (auth : Auth) : Entries F64 :=
  writeUnless "credential" auth.credential.isEmpty (.string auth.credential) ++
    writeOptional "app" AppAuth.encode auth.app

def Auth.encode (auth : Auth) : Document := .table auth.entries

def Auth.decode (value : Document) : Option Auth := do
  let entries ← value.asTable
  onlyKeys ["credential", "app"] entries
  return {
    credential := ← defaulted "credential" "" Value.asString entries
    app := ← optionally "app" AppAuth.decode entries }

def Manager.encode (manager : Manager) : Document :=
  .table [("poll_interval_seconds", .integer manager.pollIntervalSeconds),
    ("max_runners", .integer manager.maxRunners),
    ("max_parallel_creates", .integer manager.maxParallelCreates),
    ("log_retention_days", .integer manager.logRetentionDays)]

/-- Every field has the default of `Manager::default`. -/
def Manager.decode (value : Document) : Option Manager := do
  let entries ← value.asTable
  onlyKeys ["poll_interval_seconds", "max_runners", "max_parallel_creates",
    "log_retention_days"] entries
  let field := fun key (width value : Nat) =>
    defaulted key value (Value.asUnsigned width) entries
  return {
    pollIntervalSeconds :=
      ← field "poll_interval_seconds" 64 Manager.default.pollIntervalSeconds
    maxRunners := ← field "max_runners" 32 Manager.default.maxRunners
    maxParallelCreates := ← field "max_parallel_creates" 32 Manager.default.maxParallelCreates
    logRetentionDays := ← field "log_retention_days" 64 Manager.default.logRetentionDays }

def Pool.entries (pool : Pool) : Entries F64 :=
  [("name", .string pool.name)] ++
    writeUnless "organization" pool.organization.isEmpty (.string pool.organization) ++
    writeOptional "repository" .string pool.repository ++
    [("auth", .string pool.auth),
      ("labels", .array (pool.labels.map .string)),
      ("runner_group", .string pool.runnerGroup),
      ("replicas", .integer pool.replicas),
      ("image", .string pool.image),
      ("docker_socket", .boolean pool.dockerSocket)] ++
    writeUnless "allow_privilege_escalation" (!pool.allowPrivilegeEscalation)
      (.boolean pool.allowPrivilegeEscalation) ++
    writeOptional "cpus" .float pool.cpus ++
    writeOptional "memory" .string pool.memory

def Pool.encode (pool : Pool) : Document := .table pool.entries

def Pool.decode (value : Document) : Option Pool := do
  let entries ← value.asTable
  onlyKeys ["name", "organization", "repository", "auth", "labels", "runner_group",
    "replicas", "image", "docker_socket", "allow_privilege_escalation", "cpus",
    "memory"] entries
  return {
    name := ← required "name" Value.asString entries
    organization := ← defaulted "organization" "" Value.asString entries
    repository := ← optionally "repository" Value.asString entries
    auth := ← required "auth" Value.asString entries
    labels := ← required "labels" (Value.asArray Value.asString) entries
    runnerGroup := ← defaulted "runner_group" defaultGroup Value.asString entries
    replicas := ← required "replicas" (Value.asUnsigned 32) entries
    image := ← defaulted "image" defaultImage Value.asString entries
    dockerSocket := ← defaulted "docker_socket" false Value.asBool entries
    allowPrivilegeEscalation :=
      ← defaulted "allow_privilege_escalation" false Value.asBool entries
    cpus := ← optionally "cpus" (Value.asFloat F64.ofInteger) entries
    memory := ← optionally "memory" Value.asString entries }

/-- The `auth` table, a map from profile names. -/
def decodeProfiles (value : Document) : Option (ExtTreeMap String Auth) := do
  let profiles ← (← value.asTable).mapM fun (name, value) => do
    return (name, ← Auth.decode value)
  return .ofList profiles

def Config.encode (config : Config) : Document :=
  .table [("schema_version", .integer config.schemaVersion),
    ("auth", .table (config.auth.toList.map fun (name, auth) => (name, auth.encode))),
    ("manager", config.manager.encode),
    ("pools", .array (config.pools.map Pool.encode))]

def Config.decode (value : Document) : Option Config := do
  let entries ← value.asTable
  onlyKeys ["schema_version", "auth", "manager", "pools"] entries
  return {
    schemaVersion := ← required "schema_version" (Value.asUnsigned 32) entries
    auth := ← defaulted "auth" ∅ decodeProfiles entries
    manager := ← defaulted "manager" .default Manager.decode entries
    pools := ← defaulted "pools" [] (Value.asArray Pool.decode) entries }

end Runnerctl
