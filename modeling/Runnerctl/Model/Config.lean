import Mathlib

/-!
# Configuration

The content of `config.toml` and its validation (`src/config.rs`).  The functions
keep the order of the source's checks, so that an invalid configuration is rejected
with the message of the first check that fails.
-/

namespace Runnerctl

open Std

/-- An `anyhow::Error`: its message, or the marker with which a pass reports that a
control request interrupted it. -/
inductive Error where
  | interrupted
  | msg (text : String)
  deriving DecidableEq, Repr

/-- `Error::to_string`. -/
def Error.text : Error → String
  | .interrupted => "reconciliation interrupted by a control request"
  | .msg text => text

/-- The `ensure!` macro in a pure function. -/
def check (condition : Bool) (text : String) : Except Error Unit :=
  if condition then .ok () else .error (.msg text)

/-- A double: the exact value of a finite one.  Infinities and NaN never pass
`Config.validate`, and nothing else distinguishes them. -/
inductive F64 where
  | finite (value : Rat)
  | nonFinite
  deriving DecidableEq

structure AppAuth where
  appId : String
  installationId : UInt64
  privateKey : String
  deriving DecidableEq

structure Auth where
  credential : String
  app : Option AppAuth
  deriving DecidableEq

structure Manager where
  pollIntervalSeconds : Nat
  maxRunners : Nat
  maxParallelCreates : Nat
  logRetentionDays : Nat
  deriving DecidableEq

/-- `impl Default for Manager`. -/
def Manager.default : Manager where
  pollIntervalSeconds := 30
  maxRunners := 16
  maxParallelCreates := 1
  logRetentionDays := 7

structure Pool where
  name : String
  organization : String
  repository : Option String
  auth : String
  labels : List String
  runnerGroup : String
  replicas : Nat
  image : String
  dockerSocket : Bool
  allowPrivilegeEscalation : Bool
  cpus : Option F64
  memory : Option String
  deriving DecidableEq

structure Config where
  schemaVersion : Nat
  auth : ExtTreeMap String Auth
  manager : Manager
  pools : List Pool
  deriving DecidableEq

namespace Pool

def target (pool : Pool) : String := pool.repository.getD pool.organization

def apiScope (pool : Pool) : String :=
  match pool.repository with
  | some repo => "/repos/" ++ repo
  | none => "/orgs/" ++ pool.organization

end Pool

/-- `char::is_whitespace`: the Unicode property `White_Space`. -/
def isWhitespace (c : Char) : Bool :=
  [0x09, 0x0A, 0x0B, 0x0C, 0x0D, 0x20, 0x85, 0xA0, 0x1680, 0x2000, 0x2001, 0x2002,
    0x2003, 0x2004, 0x2005, 0x2006, 0x2007, 0x2008, 0x2009, 0x200A, 0x2028, 0x2029,
    0x202F, 0x205F, 0x3000].contains c.toNat

/-- `s.trim().is_empty()`. -/
def isBlank (s : String) : Bool := s.toList.all isWhitespace

/-- `s.strip_prefix(prefix)`. -/
def stripPrefix (s : String) (lead : String) : Option (List Char) :=
  if lead.toList.isPrefixOf s.toList then some (s.toList.drop lead.toList.length)
  else none

def validateImage (image : String) : Except Error Unit := do
  check (!image.isEmpty && image.toList.head? != some '-' &&
    !image.toList.any isWhitespace) "invalid image"
  check (image.toList.contains '@' ||
    -- `rsplit('/').next()`: the last component of the path
    (image.toList.reverse.takeWhile (· != '/')).contains ':')
    "pin image with a version tag or digest"
  check (!":latest".toList.isSuffixOf image.toList)
    "latest image tag is not allowed; pin a version"

def validOrg (s : String) : Bool :=
  !s.isEmpty && decide (s.utf8ByteSize ≤ 39) &&
    s.toList.all (fun c => c.isAlphanum || c == '-') &&
    (s.toList.head?.any Char.isAlphanum)

/-- The two sides of the first slash, as `split_once('/')`. -/
def splitSlash (s : String) : Option (String × String) :=
  let chars := s.toList
  if chars.contains '/' then
    some (String.ofList (chars.takeWhile (· != '/')),
      String.ofList ((chars.dropWhile (· != '/')).drop 1))
  else none

def validRepo (s : String) : Bool :=
  (splitSlash s).any fun (owner, repo) =>
    validOrg owner && !repo.isEmpty && decide (repo.utf8ByteSize ≤ 100) &&
      !(repo == "." || repo == "..") &&
      repo.toList.all (fun c => c.isAlphanum || c == '-' || c == '_' || c == '.')

/-- Credential references; a path is absolute as on Unix. -/
def validateReference (reference : String) : Except Error Unit :=
  match stripPrefix reference "file:" with
  | some path => check (path.head? == some '/') "credential file must be absolute"
  | none =>
      match stripPrefix reference "env:" with
      | some name =>
          check (!name.isEmpty && name.all (fun c => c.isAlphanum || c == '_'))
            "invalid credential environment reference"
      | none => .error (.msg "credential must use file: or env:")

/-- Decimal value of a list of digits. -/
def decimal (digits : List Char) : Nat :=
  digits.foldl (fun value c => value * 10 + (c.toNat - '0'.toNat)) 0

def memoryBytes (s : String) : Except Error Nat := do
  let digits := s.toList.takeWhile Char.isDigit
  let suffix := s.toList.dropWhile Char.isDigit
  let value := decimal digits
  -- `parse::<u64>` rejects the empty string and values from 2^64 on
  check (!digits.isEmpty && decide (value < 2 ^ 64))
    "memory must be an integer with optional b/k/m/g suffix"
  let multiplier ← match suffix.map Char.toLower with
    | [] | ['b'] => .ok 1
    | ['k'] => .ok 1024
    | ['m'] => .ok (1024 * 1024)
    | ['g'] => .ok (1024 * 1024 * 1024)
    | _ => .error (.msg "memory must use b/k/m/g suffix")
  check (decide (value * multiplier < 2 ^ 64)) "memory limit too large"
  check (decide (6 * 1024 * 1024 ≤ value * multiplier)) "memory must be at least 6 MiB"
  return value * multiplier

def validName (s : String) : Bool :=
  !s.isEmpty && decide (s.utf8ByteSize ≤ 48) &&
    s.toList.all (fun c => c.isAlphanum || c == '-' || c == '_') &&
    (s.toList.head?.any Char.isAlphanum)

/-- The double nearest to 0.01. -/
def leastCpus : Rat := 5764607523034235 / 576460752303423488

def validCpus : F64 → Bool
  | .finite value => decide (leastCpus ≤ value)
  | .nonFinite => false

/-- Checks of one entry of the `auth` table in `Config::validate`. -/
def validateAuth (name : String) (auth : Auth) : Except Error Unit := do
  check (validName name) "invalid auth profile name"
  match auth.app with
  | some app =>
      check auth.credential.isEmpty
        "choose PAT or GitHub App authentication, not both"
      check (decide (0 < app.installationId) && !app.appId.isEmpty &&
        decide (app.appId.utf8ByteSize ≤ 64) &&
        app.appId.toList.all (fun c => c.isAlphanum || c == '_'))
        "invalid GitHub App identity"
      validateReference app.privateKey
  | none => validateReference auth.credential

/-- Checks of one label. -/
def validLabel (label : String) : Bool :=
  !isBlank label && decide (label.utf8ByteSize ≤ 255) &&
    !label.toList.any (fun c => c == ',' || c == '\n' || c == '\r') &&
    !"pool:".toList.isPrefixOf label.toList

/-- Checks of one pool in `Config::validate`, after that of its name. -/
def validatePool (profiles : ExtTreeMap String Auth) (p : Pool) : Except Error Unit := do
  match p.repository with
  | some repo =>
      check (p.organization.isEmpty && validRepo repo)
        "invalid repository or both organization/repository set"
  | none => check (validOrg p.organization) "invalid organization"
  check (p.repository.isNone || p.runnerGroup == "Default")
    "runner groups are only available for organization pools"
  check (p.cpus.all validCpus) "cpus must be finite and at least 0.01"
  match p.memory with
  | some memory => discard (memoryBytes memory)
  | none => pure ()
  check (profiles.contains p.auth) ("unknown auth profile: " ++ p.auth)
  check (!p.labels.isEmpty && decide (p.labels.length < 100))
    "pool needs 1..99 custom labels"
  check (p.labels.all validLabel) "invalid or reserved label"
  check (!isBlank p.runnerGroup &&
    !p.runnerGroup.toList.any (fun c => c == '\n' || c == '\r')) "invalid runner group"
  validateImage p.image

/-- The loop over the pools; `names` are the names it has inserted. -/
def validatePools (profiles : ExtTreeMap String Auth) :
    List String → List Pool → Except Error Unit
  | _, [] => .ok ()
  | names, p :: rest => do
      check (validName p.name && !names.contains p.name)
        ("invalid or duplicate pool name: " ++ p.name)
      validatePool profiles p
      validatePools profiles (p.name :: names) rest

namespace Config

def validate (config : Config) : Except Error Unit := do
  check (config.schemaVersion == 1) "unsupported schema_version"
  check (decide (5 ≤ config.manager.pollIntervalSeconds) &&
    decide (config.manager.pollIntervalSeconds ≤ 3600))
    "poll interval must be 5..3600 seconds"
  check (decide (0 < config.manager.maxRunners) &&
    decide (0 < config.manager.maxParallelCreates) &&
    decide (config.manager.maxParallelCreates ≤ config.manager.maxRunners))
    "invalid manager capacity"
  config.auth.toList.forM fun (name, auth) => validateAuth name auth
  validatePools config.auth [] config.pools
  check (decide ((config.pools.map Pool.replicas).sum ≤ config.manager.maxRunners))
    "sum of replicas exceeds max_runners (including stopped pools)"

/-- The entry of a pool: `config.pools.iter().find(|p| p.name == name)`. -/
def pool? (config : Config) (name : String) : Option Pool :=
  config.pools.find? (·.name == name)

/-- `pools.retain(|p| p.name != name)`. -/
def without (config : Config) (name : String) : Config :=
  { config with pools := config.pools.filter (·.name != name) }

end Config

end Runnerctl
