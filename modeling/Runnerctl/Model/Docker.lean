import Runnerctl.Model.State

/-!
# The command line of a container

`Docker::create_args` (`src/docker.rs`) on Unix, where the daemon sees host paths as they
are.  The labels that GitHub routes jobs by are one of the environment variables.
-/

namespace Runnerctl

/-- What the command line depends on besides its arguments: the effective user and the text
of a double. -/
structure DockerHost where
  userId : Nat
  showCpus : F64 → String

/-- `Pool::url`. -/
def Pool.url (pool : Pool) : String := "https://github.com/" ++ pool.target

/-- `Path::join`. -/
def joinPath (base path : String) : String :=
  if path.toList.head? = some '/' then path
  else if base.isEmpty || base.toList.getLast? = some '/' then base ++ path
  else base ++ "/" ++ path

/-- The routing labels of a pool, as the value of `RUNNER_LABELS`. -/
def Pool.runnerLabels (pool : Pool) : String :=
  ",".intercalate (pool.labels ++ ["pool:" ++ pool.name])

/-- The arguments for a pool whose jobs use the Docker socket. -/
def socketArgs (host : DockerHost) (pool : Pool) (home bootstrap : String) :
    Except Error (List String) :=
  if pool.dockerSocket then do
    let runtime := joinPath bootstrap "runtime"
    check (!runtime.toList.any isWhitespace)
      ("Docker socket pools need a --home path without spaces: " ++ home)
    return ["--network", "host",
      "--volume", runtime ++ ":" ++ runtime ++ ":Z",
      "--env", "RUNNER_ROOT=" ++ runtime,
      "--env", "RUNNER_UID=" ++ toString host.userId,
      "--volume", "/var/run/docker.sock:/var/run/docker.sock"]
  else .ok []

def createArgs (host : DockerHost) (manager : String) (run : Run) (home : String) :
    Except Error (List String) := do
  let bootstrap := joinPath (joinPath home "runs") run.id
  let socket ← socketArgs host run.pool home bootstrap
  return ["create", "--name", run.id, "--restart=no", "--init",
      "--log-opt", "max-size=10m", "--log-opt", "max-file=3"] ++
    (if run.pool.allowPrivilegeEscalation then []
      else ["--security-opt", "no-new-privileges:true"]) ++
    (run.pool.cpus.elim [] fun cpus => ["--cpus", host.showCpus cpus]) ++
    (run.pool.memory.elim [] fun memory => ["--memory", memory]) ++
    ["--label", "io.runnerctl.manager=" ++ manager,
      "--label", "io.runnerctl.pool=" ++ run.poolId,
      "--label", "io.runnerctl.run=" ++ run.id,
      "--env", "GITHUB_ORG=" ++ run.pool.organization,
      "--env", "RUNNER_NAME=" ++ run.id,
      "--env", "RUNNER_LABELS=" ++ run.pool.runnerLabels,
      "--env", "RUNNER_GROUP=" ++ run.pool.runnerGroup,
      "--env", "GITHUB_URL=" ++ run.pool.url] ++
    (if run.pool.repository.isSome then ["--env", "RUNNER_SCOPE=repo"] else []) ++
    ["--volume", bootstrap ++ ":/run/runnerctl:Z"] ++
    socket ++ [run.pool.image]

end Runnerctl
