import Runnerctl.Lib.Lines
import Runnerctl.Lib.Utf8
import Runnerctl.Model.Config

/-!
# Logs of runners

`Docker::logs` (`src/docker.rs`), and what `logs --follow` (`src/main.rs`) prints of its
answers.  `docker logs` itself is not part of the source: of the lines that a container has
written, in the order in which they were written, it repeats the last ones, each to the
stream to which the container wrote it.
-/

namespace Runnerctl

open Lines

inductive Source where
  | stdout
  | stderr
  deriving DecidableEq, Repr

/-- A line that a container has written. -/
structure LogLine where
  source : Source
  bytes : List UInt8
  whole : UInt8.ofNat '\n'.toNat ∉ bytes

/-- What a container wrote to one of its streams. -/
def output (source : Source) (log : List LogLine) : List UInt8 :=
  terminated (UInt8.ofNat '\n'.toNat) ((log.filter (·.source = source)).map (·.bytes))

/-- `--tail count`. -/
def tail {α : Type} (count : Nat) (log : List α) : List α := log.drop (log.length - count)

/-- `Docker::logs`, of a container that has written `log`. -/
def dockerLogs (log : List LogLine) : String :=
  let stdout := output .stdout (tail 1000 log)
  let stderr := output .stderr (tail 1000 log)
  String.ofList (Utf8.lossy ((stdout ++ stderr).take (1024 * 1024)))

/-- What the client prints of an answer. -/
def printed (previous logs : String) : String :=
  match stripPrefix logs previous with
  | some suffix => String.ofList suffix
  | none => logs

/-- What the loop of `logs --follow` prints, answer by answer. -/
def followLogs : (previous : String) → (answers : List String) → List String
  | _, [] => []
  | previous, logs :: rest => printed previous logs :: followLogs logs rest

end Runnerctl
