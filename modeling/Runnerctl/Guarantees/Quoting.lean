import Runnerctl.Lib.Program
import Runnerctl.Model.Service

/-!
# Quoting for systemd

A quoted path is one argument of the command line, and the argument is the path.  The four
replacements amount to one pass that rewrites each character by itself.
-/

namespace Runnerctl.Systemd

open Escaping

/-- What is written for one character. -/
def escapedChar (c : Char) : List Char :=
  if c = '\\' then ['\\', '\\']
  else if c = '"' then ['\\', '"']
  else if c = '%' then ['%', '%']
  else if c = '$' then ['$', '$']
  else [c]

/-- What is left of it when the backslash escapes are undone. -/
def expandedChar (c : Char) : List Char :=
  if c = '%' then ['%', '%'] else if c = '$' then ['$', '$'] else [c]

/-- The four replacements are one pass. -/
theorem escaped_eq (value : List Char) : escaped value = value.flatMap escapedChar := by
  have pass : escaped value = value.flatMap fun c => escaped [c] := by
    induction value with
    | nil => rfl
    | cons c value ih =>
        rw [List.flatMap_cons, ← ih]
        simp only [escaped, replace, List.flatMap_cons, List.flatMap_nil, List.flatMap_append,
          List.append_nil]
  have each : (fun c => escaped [c]) = escapedChar := by
    funext c
    unfold escaped escapedChar
    split
    · subst c
      decide
    · split
      · subst c
        decide
      · split
        · subst c
          decide
        · split
          · subst c
            decide
          · simp [*]
  rw [pass, each]

theorem escapedChar_marked (c : Char) : Marked '\\' '"' (escapedChar c) := by
  unfold escapedChar
  split
  · exact .marked .nil
  · split
    · exact .marked .nil
    · split
      · exact .plain (by decide) (by decide) (.plain (by decide) (by decide) .nil)
      · split
        · exact .plain (by decide) (by decide) (.plain (by decide) (by decide) .nil)
        · exact .plain ‹_› ‹_› .nil

theorem unmark_escapedChar (c : Char) :
    unmark '\\' escape (escapedChar c) = some (expandedChar c) := by
  unfold escapedChar expandedChar
  split
  · subst c
    rfl
  · split
    · subst c
      rfl
    · split
      · rfl
      · split
        · rfl
        · simp [unmark, *]

/-- The doubling that is left is that of the specifiers over that of the variables. -/
theorem expandedChar_eq (value : List Char) :
    value.flatMap expandedChar =
      replace '%' ['%', '%'] (replace '$' ['$', '$'] value) := by
  have each : (fun c => replace '%' ['%', '%'] (if c = '$' then ['$', '$'] else [c])) =
      expandedChar := by
    funext c
    unfold expandedChar
    split
    · subst c
      decide
    · split
      · subst c
        decide
      · simp [*]
  rw [← each, ← replace_flatMap]
  rfl

/-- Undoing the escapes and expanding gives the value back. -/
theorem literal_escaped (value : List Char) : literal (escaped value) = some value := by
  have unescaped : unmark '\\' escape (escaped value) =
      some (replace '%' ['%', '%'] (replace '$' ['$', '$'] value)) := by
    rw [escaped_eq, unmark_flatMap unmark_escapedChar, expandedChar_eq]
  simp [literal, unescaped]

theorem splitClosing_escaped (value rest : List Char) :
    splitClosing '\\' '"' (escaped value ++ '"' :: rest) = some (escaped value, rest) := by
  rw [escaped_eq]
  exact (Marked.flatMap escapedChar_marked value).splitClosing (by decide)

/-- The quoted value is the first argument of every line that it begins. -/
theorem readArgument_quoted (value : List Char) {rest : List Char}
    (separated : rest.head?.all isSeparator = true) :
    readArgument ('"' :: (escaped value ++ '"' :: rest)) = some (value, rest) := by
  simp [readArgument, splitWord, splitClosing_escaped, separated, literal_escaped]

theorem quote_of_breaksLine {value : String} (breaks : value.toList.any breaksLine = true) :
    quote value = .error (.msg "invalid systemd path") := by
  rw [quote, breaks]
  rfl

theorem quote_eq {value : String} (unbroken : value.toList.any breaksLine = false) :
    quote value = .ok (String.ofList ('"' :: (escaped value.toList ++ ['"']))) := by
  rw [quote, unbroken]
  rfl

theorem any_breaksLine {text : List Char} :
    text.any breaksLine = true ↔ '\n' ∈ text ∨ '\r' ∈ text ∨ '\x00' ∈ text := by
  rw [List.any_eq_true]
  constructor
  · rintro ⟨c, member, breaks⟩
    simp only [breaksLine, Bool.or_eq_true, beq_iff_eq] at breaks
    obtain (rfl | rfl) | rfl := breaks
    · exact .inl member
    · exact .inr (.inl member)
    · exact .inr (.inr member)
  · rintro (member | member | member)
    · exact ⟨_, member, rfl⟩
    · exact ⟨_, member, rfl⟩
    · exact ⟨_, member, rfl⟩

/-- A path without line breaks and NUL is quoted, and no other is.  The closing quote is the
first that no backslash escapes, and the text between the quotes has no specifier and no
variable left: it stands for the path. -/
theorem quote_round_trip (value : String) :
    (('\n' ∈ value.toList ∨ '\r' ∈ value.toList ∨ '\x00' ∈ value.toList) →
      ∃ e, quote value = .error e) ∧
    (¬('\n' ∈ value.toList ∨ '\r' ∈ value.toList ∨ '\x00' ∈ value.toList) →
      ∃ word body, quote value = .ok word ∧ word.toList = '"' :: (body ++ ['"']) ∧
        literal body = some value.toList ∧
        ∀ rest, splitClosing '\\' '"' (body ++ '"' :: rest) = some (body, rest) ∧
          (rest.head?.all isSeparator = true →
            readArgument (word.toList ++ rest) = some (value.toList, rest))) := by
  constructor
  · intro breaks
    exact ⟨_, quote_of_breaksLine (any_breaksLine.mpr breaks)⟩
  · intro unbroken
    rw [← any_breaksLine, Bool.not_eq_true] at unbroken
    refine ⟨_, escaped value.toList, quote_eq unbroken, by simp, literal_escaped _, ?_⟩
    intro rest
    refine ⟨splitClosing_escaped _ _, fun separated => ?_⟩
    simpa using readArgument_quoted value.toList separated

/-- A path with all that has a meaning to systemd. -/
theorem quote_round_trip_home :
    ∃ word body, quote "/home/a\"b\\ $HOME%h" = .ok word ∧
      word.toList = '"' :: (body ++ ['"']) ∧
      literal body = some "/home/a\"b\\ $HOME%h".toList ∧
      ∀ rest, splitClosing '\\' '"' (body ++ '"' :: rest) = some (body, rest) ∧
        (rest.head?.all isSeparator = true →
          readArgument (word.toList ++ rest) = some ("/home/a\"b\\ $HOME%h".toList, rest)) :=
  (quote_round_trip "/home/a\"b\\ $HOME%h").2 (by decide)

/-! ## The unit file -/

theorem any_breaksLine_escaped (value : List Char) :
    (escaped value).any breaksLine = value.any breaksLine := by
  have each : ∀ c, (escapedChar c).any breaksLine = breaksLine c := by
    intro c
    unfold escapedChar
    split
    · subst c
      rfl
    · split
      · subst c
        rfl
      · split
        · subst c
          rfl
        · split
          · subst c
            rfl
          · simp
  rw [escaped_eq, List.any_flatMap]
  exact congrArg value.any (funext each)

/-- A character that stands for itself outside quotes. -/
def isPlain (c : Char) : Bool :=
  !isSeparator c && !(['"', '\'', '\\', '%', '$'].contains c)

theorem literal_plain {word : List Char} (plain : word.all isPlain = true) :
    literal word = some word := by
  have unmarked : ∀ mark ∈ ['\\', '%', '$'], ∀ meaning,
      unmark mark meaning word = some word := by
    intro mark isMark meaning
    induction word with
    | nil => rfl
    | cons c word ih =>
        rw [List.all_cons, Bool.and_eq_true] at plain
        have other : c ≠ mark := by
          rintro rfl
          have reserved : isPlain c = false := by
            simp only [List.mem_cons, List.not_mem_nil, or_false] at isMark
            obtain rfl | rfl | rfl := isMark <;> rfl
          rw [plain.1] at reserved
          cases reserved
        rw [unmark_plain other, ih plain.2, Option.map_some]
  simp [literal, undouble, unmarked]

theorem splitWord_plain {word rest : List Char} (plain : word.all isPlain = true)
    (separated : rest.head?.all isSeparator = true) :
    splitWord (word ++ rest) = some (word, rest) := by
  have inside : ∀ c ∈ word, isPlain c = true := List.all_eq_true.mp plain
  have kept : ∀ c ∈ word, (!isSeparator c) = true := fun c member =>
    (Bool.and_eq_true_iff.mp (inside c member)).1
  have stops : rest.takeWhile (fun c => !isSeparator c) = [] ∧
      rest.dropWhile (fun c => !isSeparator c) = rest := by
    cases rest with
    | nil => exact ⟨rfl, rfl⟩
    | cons c rest =>
        have separator : isSeparator c = true := separated
        simp [separator]
  have unquoted : (word.any fun c => c == '"' || c == '\'') = false := by
    rw [List.any_eq_false]
    intro c member quote
    have reserved : isPlain c = false := by
      obtain quote | quote := (Bool.or_eq_true_iff.mp quote).imp eq_of_beq eq_of_beq <;>
        (subst c; rfl)
    rw [inside c member] at reserved
    cases reserved
  unfold splitWord
  split
  · next line quoted =>
    exfalso
    cases word with
    | nil =>
        rw [List.nil_append] at quoted
        subst rest
        cases separated
    | cons c word =>
        obtain ⟨rfl, -⟩ := List.cons.inj quoted
        cases inside '"' List.mem_cons_self
  · simp only [List.takeWhile_append_of_pos kept, List.dropWhile_append_of_pos kept, stops,
      List.append_nil, unquoted, Bool.false_eq_true, if_false]

theorem readArguments_separator {fuel : Nat} {line : List Char} {c : Char}
    (separator : isSeparator c = true) :
    readArguments (fuel + 1) (c :: line) = readArguments (fuel + 1) line := by
  rw [readArguments, readArguments, List.dropWhile_cons_of_pos separator]

theorem readArguments_argument {fuel : Nat} {line rest argument : List Char}
    (starts : line.head?.all isSeparator = false)
    (read : readArgument line = some (argument, rest)) :
    readArguments (fuel + 1) line = (readArguments fuel rest).map (argument :: ·) := by
  cases line with
  | nil => cases starts
  | cons c line =>
      have other : ¬isSeparator c = true := by
        intro separator
        rw [List.head?_cons, Option.all_some, separator] at starts
        cases starts
      rw [readArguments, List.dropWhile_cons_of_neg other]
      simp only [read, Option.bind_eq_bind, Option.bind_some]
      cases readArguments fuel rest <;> rfl

theorem readArgument_plain {word rest : List Char} (plain : word.all isPlain = true)
    (separated : rest.head?.all isSeparator = true) :
    readArgument (word ++ rest) = some (word, rest) := by
  simp [readArgument, splitWord_plain plain separated, literal_plain plain]

/-- The command line of the unit has the four arguments that start the manager. -/
theorem readArguments_command (exe home : List Char) {fuel : Nat} (enough : 4 < fuel) :
    readArguments fuel ('"' :: (escaped exe ++ '"' :: ' ' :: ("--home".toList ++ ' ' ::
        '"' :: (escaped home ++ '"' :: ' ' :: ("manager".toList ++ []))))) =
      some [exe, "--home".toList, home, "manager".toList] := by
  obtain ⟨fuel, rfl⟩ := Nat.exists_eq_add_of_le' enough
  rw [readArguments_argument rfl (readArgument_quoted exe rfl), readArguments_separator rfl,
    readArguments_argument rfl (readArgument_plain rfl rfl), readArguments_separator rfl,
    readArguments_argument rfl (readArgument_quoted home rfl), readArguments_separator rfl,
    readArguments_argument rfl (readArgument_plain rfl rfl)]
  rfl

theorem quote_ok {value word : String} (quoted : quote value = .ok word) :
    value.toList.any breaksLine = false ∧
      word = String.ofList ('"' :: (escaped value.toList ++ ['"'])) := by
  cases breaks : value.toList.any breaksLine with
  | true =>
      rw [quote_of_breaksLine breaks] at quoted
      cases quoted
  | false =>
      rw [quote_eq breaks] at quoted
      exact ⟨rfl, (Except.ok.inj quoted).symm⟩

theorem not_mem_escaped {value : List Char} (unbroken : value.any breaksLine = false) :
    '\n' ∉ escaped value := by
  rw [← any_breaksLine_escaped, List.any_eq_false] at unbroken
  exact fun member => unbroken _ member rfl

/-- The unit starts the manager of that executable for that home: the line of `ExecStart` is
one line, and its arguments are the two paths around `--home`, and the command. -/
theorem unit_starts {exe home body : String} (written : unit exe home = .ok body) :
    ∃ command : List Char,
      body.toList = unitHead.toList ++
        '\n' :: ("ExecStart=".toList ++ (command ++ '\n' :: unitTail.toList)) ∧
      '\n' ∉ command ∧
      ∀ fuel, 4 < fuel → readArguments fuel command =
        some [exe.toList, "--home".toList, home.toList, "manager".toList] := by
  simp only [unit, execStart] at written
  obtain ⟨line, built, written⟩ := Program.bind_eq_ok_iff.mp written
  obtain ⟨exeWord, exeQuoted, built⟩ := Program.bind_eq_ok_iff.mp built
  obtain ⟨homeWord, homeQuoted, built⟩ := Program.bind_eq_ok_iff.mp built
  obtain ⟨exeUnbroken, rfl⟩ := quote_ok exeQuoted
  obtain ⟨homeUnbroken, rfl⟩ := quote_ok homeQuoted
  cases built
  cases written
  have newline : "\n".toList = ['\n'] := rfl
  have option : " --home ".toList = ' ' :: ("--home".toList ++ [' ']) := rfl
  have manager : " manager".toList = ' ' :: ("manager".toList ++ []) := rfl
  refine ⟨_, ?_, ?_, fun fuel enough => readArguments_command exe.toList home.toList enough⟩
  · simp only [String.toList_append, String.toList_ofList, newline, option, manager,
      List.append_assoc, List.cons_append, List.nil_append]
  · simp [not_mem_escaped exeUnbroken, not_mem_escaped homeUnbroken]

end Runnerctl.Systemd
