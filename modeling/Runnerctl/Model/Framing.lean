import Runnerctl.Lib.Streams
import Runnerctl.Lib.Utf8
import Runnerctl.Model.Protocol

/-!
# Framing of requests

How a request gets over a connection: `send` writes its JSON and a newline, `read_request`
(`src/manager.rs`) reads one line of at most 1 MiB.  JSON is `serde_json`, a parameter.
-/

namespace Runnerctl

open Streams

/-- What `serde_json` writes for a request, and what it reads from a text. -/
structure Json where
  encode : Request → String
  decode : String → Except Error Request

/-- What has arrived over a connection, in the pieces in which it arrived, and whether the
other side has closed it. -/
structure Connection where
  pieces : List (List UInt8)
  closed : Bool

/-- The bytes that `send` writes. -/
def Json.frame (json : Json) (request : Request) : List UInt8 :=
  Utf8.encode (json.encode request ++ "\n")

/-- `read_line` as a text, of the bytes that it takes. -/
def readLine (bytes : List UInt8) : Except Error String :=
  match Utf8.decode bytes with
  | some line => .ok line
  | none => .error (.msg "stream did not contain valid UTF-8")

/-- What `read_request` makes of a line. -/
def acceptLine (json : Json) (bytes : List UInt8) : Except Error Request := do
  let line ← readLine bytes
  check (decide (line.utf8ByteSize ≤ 1024 * 1024) && line.toList.getLast? == some '\n')
    "request too large or incomplete"
  json.decode line

/-- `read_request`, through a `BufReader` of 8 KiB; nothing is known yet while the line goes
on. -/
def readRequest (json : Json) (connection : Connection) : Option (Except Error Request) :=
  (readUntil 10 8192 connection.closed (1024 * 1024 + 1) connection.pieces).map
    (acceptLine json)

end Runnerctl
