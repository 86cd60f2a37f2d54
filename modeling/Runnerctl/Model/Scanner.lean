import Runnerctl.Model.Config

/-!
# The scanner of memory limits

`memory_bytes` (`src/config.rs`) once more, with what can go wrong in it: a text is cut at an
offset in bytes, which panics when the offset is not at the boundary of a character, and
the arithmetic is that of 64-bit integers.  A panic is `none`.
-/

namespace Runnerctl.Scanner

/-- The length of a text in bytes. -/
def size (text : List Char) : Nat := (text.map Char.utf8Size).sum

/-- `find`: the offset of the first character that satisfies a predicate. -/
def find (wanted : Char → Bool) : List Char → Option Nat
  | [] => none
  | c :: text => if wanted c then some 0 else (find wanted text).map (c.utf8Size + ·)

/-- `s[..offset]` and `s[offset..]`. -/
def splitAt : Nat → List Char → Option (List Char × List Char)
  | 0, text => some ([], text)
  | _ + 1, [] => none
  | offset + 1, c :: text =>
      if c.utf8Size ≤ offset + 1 then
        (splitAt (offset + 1 - c.utf8Size) text).map fun parts => (c :: parts.1, parts.2)
      else none

/-- `u64::checked_mul`. -/
def checkedMul (a b : UInt64) : Option UInt64 :=
  if a.toNat * b.toNat < 2 ^ 64 then some (a * b) else none

/-- `u64::checked_add`. -/
def checkedAdd (a b : UInt64) : Option UInt64 :=
  if a.toNat + b.toNat < 2 ^ 64 then some (a + b) else none

/-- One digit of `u64::from_str`. -/
def parseDigit (value : UInt64) (c : Char) : Option UInt64 :=
  if c.isDigit then do
    let shifted ← checkedMul value 10
    checkedAdd shifted (UInt64.ofNat (c.toNat - '0'.toNat))
  else none

/-- `u64::from_str`: there may be a plus sign before the digits. -/
def parse : List Char → Option UInt64
  | [] | ['+'] | ['-'] => none
  | '+' :: digits => digits.foldlM parseDigit 0
  | digits => digits.foldlM parseDigit 0

/-- `memory_bytes` after the cut. -/
def limit (digits suffix : List Char) : Except Error UInt64 := do
  let value ← (parse digits).elim
    (.error (.msg "memory must be an integer with optional b/k/m/g suffix")) .ok
  let multiplier ← match suffix.map Char.toLower with
    | [] | ['b'] => .ok 1
    | ['k'] => .ok 1024
    | ['m'] => .ok (1024 * 1024)
    | ['g'] => .ok (1024 * 1024 * 1024)
    | _ => .error (.msg "memory must use b/k/m/g suffix")
  let bytes ← (checkedMul value multiplier).elim (.error (.msg "memory limit too large")) .ok
  check (decide (6 * 1024 * 1024 ≤ bytes)) "memory must be at least 6 MiB"
  return bytes

def memoryBytes (s : String) : Option (Except Error UInt64) := do
  let split := (find (fun c => !c.isDigit) s.toList).getD (size s.toList)
  let (digits, suffix) ← splitAt split s.toList
  return limit digits suffix

end Runnerctl.Scanner
