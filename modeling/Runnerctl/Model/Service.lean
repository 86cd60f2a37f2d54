import Runnerctl.Lib.Escaping
import Runnerctl.Model.Config

/-!
# The systemd unit

What `systemd::install` (`src/service.rs`) writes into the unit file, and how systemd reads
the command line of `ExecStart`: one word is unquoted, its backslash escapes are undone, and
what is left is expanded, first the `%` specifiers, then the `$` variables.  A word that has a
specifier or a variable to expand is not the literal argument it stands for, so reading it
fails here, as does an escape that is not one letter long.
-/

namespace Runnerctl.Systemd

open Escaping

/-- The characters that a line of a unit file cannot hold. -/
def breaksLine (c : Char) : Bool := c == '\n' || c == '\r' || c == '\x00'

/-- The four replacements of `quote`, one after another. -/
def escaped (value : List Char) : List Char :=
  replace '$' ['$', '$'] (replace '%' ['%', '%']
    (replace '"' ['\\', '"'] (replace '\\' ['\\', '\\'] value)))

def quote (value : String) : Except Error String := do
  check (!value.toList.any breaksLine) "invalid systemd path"
  return String.ofList ('"' :: (escaped value.toList ++ ['"']))

/-- The line of the unit that starts the manager. -/
def execStart (exe home : String) : Except Error String := do
  let exe ← quote exe
  let home ← quote home
  return "ExecStart=" ++ exe ++ " --home " ++ home ++ " manager"

/-- The lines of the unit before `ExecStart`. -/
def unitHead : String :=
  "[Unit]\nDescription=GitHub Actions runner pool manager\n" ++
    "After=network-online.target\nWants=network-online.target\n\n[Service]\nType=simple"

/-- The lines of the unit after `ExecStart`. -/
def unitTail : String :=
  "Restart=on-failure\nRestartSec=10\nUMask=0077\nTimeoutStopSec=300\n\n" ++
    "[Install]\nWantedBy=default.target\n"

/-- The body of `runnerctl.service`. -/
def unit (exe home : String) : Except Error String := do
  let execStart ← execStart exe home
  return unitHead ++ "\n" ++ execStart ++ "\n" ++ unitTail

/-! ## Reading a command line -/

/-- What separates the words of a command line. -/
def isSeparator (c : Char) : Bool := c == ' ' || c == '\t' || c == '\n' || c == '\r'

/-- The escapes of one letter. -/
def escape : Char → Option Char
  | 'a' => some '\x07'
  | 'b' => some '\x08'
  | 'f' => some '\x0c'
  | 'n' => some '\n'
  | 'r' => some '\r'
  | 't' => some '\t'
  | 'v' => some '\x0b'
  | 's' => some ' '
  | '\\' => some '\\'
  | '"' => some '"'
  | '\'' => some '\''
  | _ => none

/-- The argument that the text of a word stands for. -/
def literal (text : List Char) : Option (List Char) := do
  let text ← unmark '\\' escape text
  let text ← undouble '%' text
  undouble '$' text

/-- The text of the first word without its quotes, and the line after the word.  A quoted
word ends with its closing quote. -/
def splitWord : List Char → Option (List Char × List Char)
  | '"' :: line => do
      let (text, rest) ← splitClosing '\\' '"' line
      if rest.head?.all isSeparator then some (text, rest) else none
  | line =>
      let text := line.takeWhile fun c => !isSeparator c
      if text.any fun c => c == '"' || c == '\'' then none
      else some (text, line.dropWhile fun c => !isSeparator c)

/-- The first argument of a command line, and the line after it. -/
def readArgument (line : List Char) : Option (List Char × List Char) := do
  let (text, rest) ← splitWord line
  let argument ← literal text
  some (argument, rest)

/-- Every argument of a command line; at most `fuel` are read. -/
def readArguments : Nat → List Char → Option (List (List Char))
  | 0, _ => none
  | fuel + 1, line =>
      match line.dropWhile isSeparator with
      | [] => some []
      | line => do
          let (argument, rest) ← readArgument line
          let arguments ← readArguments fuel rest
          some (argument :: arguments)

end Runnerctl.Systemd
