import Runnerctl.Lib.Trimming
import Runnerctl.Model.Config

/-!
# Credentials and keys

`secret` and `credential` (`src/config.rs`): what a credential reference stands for.  Files
are read as bytes, of which at most one more than the limit.
-/

namespace Runnerctl

/-- What `open` without following links finds. -/
structure PrivateFile where
  isFile : Bool
  mode : Nat
  content : ByteArray

/-- What credential references refer to. -/
structure Secrets where
  file : String → Option PrivateFile
  env : String → Option String

/-- `str::trim`. -/
def trim (text : String) : String :=
  String.ofList (Trimming.trim isWhitespace text.toList)

namespace Secrets

/-- `open_private` on Unix. -/
def openPrivate (secrets : Secrets) (path : String) : Except Error ByteArray := do
  let file ← match secrets.file path with
    | some file => .ok file
    | none => .error (.msg "cannot open credential file")
  check (file.isFile && file.mode &&& 0o077 == 0)
    "credential must be a regular file with mode 0600"
  return file.content

/-- `take(limit)` and then `read_to_string`. -/
def readToString (content : ByteArray) (limit : UInt64) : Except Error String :=
  match String.fromUTF8? (content.extract 0 limit.toNat) with
  | some text => .ok text
  | none => .error (.msg "stream did not contain valid UTF-8")

/-- `secret`.  The limit of the read wraps around at 2^64; where overflows are checked, that
is a panic instead. -/
def secret (secrets : Secrets) (reference : String) (maxBytes : UInt64) :
    Except Error String := do
  let value ← match stripPrefix reference "file:" with
    | some path => do
        let content ← openPrivate secrets (String.ofList path)
        readToString content (maxBytes + 1)
    | none =>
        match stripPrefix reference "env:" with
        | some name =>
            match secrets.env (String.ofList name) with
            | some value => .ok value
            | none => .error (.msg "credential environment variable is missing")
        | none => .error (.msg "invalid credential reference")
  let value := trim value
  check (!value.isEmpty && decide (value.utf8ByteSize ≤ maxBytes.toNat))
    "invalid credential contents"
  return value

def credential (secrets : Secrets) (auth : Auth) : Except Error String := do
  let value ← secret secrets auth.credential 16384
  check (!value.toList.any isWhitespace) "invalid token contents"
  return value

end Secrets

end Runnerctl
