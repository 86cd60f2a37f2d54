import Mathlib

/-!
# Escaping by a mark

A text is protected from a reader that gives symbols a meaning by a mark before each of
them; a symbol that is doubled is its own mark.  Replacing every occurrence of one symbol
after another is one pass over the text, since each pass rewrites the images of the symbols.
-/

namespace Escaping

variable {α : Type} [DecidableEq α]

/-- Replace every occurrence of one symbol. -/
def replace (symbol : α) (replacement text : List α) : List α :=
  text.flatMap fun c => if c = symbol then replacement else [c]

@[simp] theorem replace_nil {symbol : α} {replacement : List α} :
    replace symbol replacement [] = [] := rfl

@[simp] theorem replace_cons {symbol : α} {replacement text : List α} {c : α} :
    replace symbol replacement (c :: text) =
      (if c = symbol then replacement else [c]) ++ replace symbol replacement text := rfl

/-- A replacement in a text that was rewritten symbol by symbol. -/
theorem replace_flatMap {symbol : α} {replacement text : List α} {image : α → List α} :
    replace symbol replacement (text.flatMap image) =
      text.flatMap fun c => replace symbol replacement (image c) :=
  List.flatMap_assoc

/-! ## Undoing the marks -/

section Unmark

variable {mark : α} {meaning : α → Option α}

/-- Undo the marks: a mark and the symbol after it stand for what `meaning` says. -/
def unmark (mark : α) (meaning : α → Option α) : List α → Option (List α)
  | [] => some []
  | [c] => if c = mark then none else some [c]
  | c :: d :: text =>
      if c = mark then
        (meaning d).bind fun plain => (unmark mark meaning text).map (plain :: ·)
      else (unmark mark meaning (d :: text)).map (c :: ·)

@[simp] theorem unmark_nil : unmark mark meaning [] = some [] := rfl

@[simp] theorem unmark_mark {d : α} {text : List α} :
    unmark mark meaning (mark :: d :: text) =
      (meaning d).bind fun plain => (unmark mark meaning text).map (plain :: ·) := by
  rw [unmark, if_pos rfl]

theorem unmark_plain {c : α} {text : List α} (plain : c ≠ mark) :
    unmark mark meaning (c :: text) = (unmark mark meaning text).map (c :: ·) := by
  cases text with
  | nil => simp [unmark, plain]
  | cons d text => rw [unmark, if_neg plain]

/-- A text that reads completely is read before whatever follows it. -/
theorem unmark_append {image plain : List α} (read : unmark mark meaning image = some plain)
    (rest : List α) :
    unmark mark meaning (image ++ rest) = (unmark mark meaning rest).map (plain ++ ·) := by
  fun_induction unmark mark meaning image generalizing plain with
  | case1 =>
      cases read
      simp
  | case2 => cases read
  | case3 c other =>
      cases read
      rw [List.singleton_append, unmark_plain other]
      rfl
  | case4 d text ih =>
      obtain ⟨first, meant, read⟩ := Option.bind_eq_some_iff.mp read
      obtain ⟨others, readRest, rfl⟩ := Option.map_eq_some_iff.mp read
      rw [List.cons_append, List.cons_append, unmark_mark, meant, ih readRest]
      cases unmark mark meaning rest <;> rfl
  | case5 c d text other ih =>
      obtain ⟨others, readRest, rfl⟩ := Option.map_eq_some_iff.mp read
      rw [List.cons_append, unmark_plain other, ih readRest]
      cases unmark mark meaning rest <;> rfl

/-- Reading a text that was rewritten symbol by symbol. -/
theorem unmark_flatMap {image plain : α → List α}
    (each : ∀ c, unmark mark meaning (image c) = some (plain c)) (text : List α) :
    unmark mark meaning (text.flatMap image) = some (text.flatMap plain) := by
  induction text with
  | nil => rfl
  | cons c text ih =>
      rw [List.flatMap_cons, unmark_append (each c), ih, Option.map_some, List.flatMap_cons]

/-- Undo the doubling of a symbol; a symbol that stands alone has a meaning of its own. -/
def undouble (symbol : α) : List α → Option (List α) :=
  unmark symbol fun c => if c = symbol then some symbol else none

@[simp] theorem undouble_replace (symbol : α) (text : List α) :
    undouble symbol (replace symbol [symbol, symbol] text) = some text := by
  have each : ∀ c, undouble symbol (if c = symbol then [symbol, symbol] else [c]) =
      some [c] := by
    intro c
    by_cases same : c = symbol
    · simp [undouble, same]
    · simp [undouble, same, unmark]
  have read := unmark_flatMap each text
  rwa [List.flatMap_singleton'] at read

end Unmark

/-! ## Finding the end -/

/-- The text before the first closing symbol without a mark, and what follows it. -/
def splitClosing (mark closing : α) : List α → Option (List α × List α)
  | [] => none
  | [c] => if c = closing then some ([], []) else none
  | c :: d :: text =>
      if c = closing then some ([], d :: text)
      else if c = mark then
        (splitClosing mark closing text).map fun parts => (c :: d :: parts.1, parts.2)
      else (splitClosing mark closing (d :: text)).map fun parts => (c :: parts.1, parts.2)

section Closing

variable {mark closing : α} {text rest : List α}

@[simp] theorem splitClosing_closing :
    splitClosing mark closing (closing :: rest) = some ([], rest) := by
  cases rest <;> simp [splitClosing]

/-- A text whose marks and closing symbols all stand after a mark. -/
inductive Marked (mark closing : α) : List α → Prop where
  | nil : Marked mark closing []
  | marked {c : α} {text : List α} :
      Marked mark closing text → Marked mark closing (mark :: c :: text)
  | plain {c : α} {text : List α} : c ≠ mark → c ≠ closing →
      Marked mark closing text → Marked mark closing (c :: text)

omit [DecidableEq α] in
theorem Marked.append {left right : List α} (first : Marked mark closing left)
    (second : Marked mark closing right) : Marked mark closing (left ++ right) := by
  induction first with
  | nil => exact second
  | marked _ ih => exact ih.marked
  | plain notMark notClosing _ ih => exact ih.plain notMark notClosing

omit [DecidableEq α] in
theorem Marked.flatMap {image : α → List α} (each : ∀ c, Marked mark closing (image c))
    (text : List α) : Marked mark closing (text.flatMap image) := by
  induction text with
  | nil => exact .nil
  | cons c text ih => exact (each c).append ih

/-- No closing symbol inside a marked text ends it early. -/
theorem Marked.splitClosing (different : mark ≠ closing) (marked : Marked mark closing text) :
    splitClosing mark closing (text ++ closing :: rest) = some (text, rest) := by
  induction marked with
  | nil => exact splitClosing_closing
  | marked _ ih =>
      rw [List.cons_append, List.cons_append, Escaping.splitClosing, if_neg different,
        if_pos rfl, ih, Option.map_some]
  | @plain c text notMark notClosing _ ih =>
      have after : ∀ tail, tail ≠ [] → Escaping.splitClosing mark closing (c :: tail) =
          (Escaping.splitClosing mark closing tail).map
            fun parts => (c :: parts.1, parts.2) := by
        intro tail some
        cases tail with
        | nil => exact (some rfl).elim
        | cons d tail => rw [Escaping.splitClosing, if_neg notClosing, if_neg notMark]
      rw [List.cons_append, after _ (by simp), ih, Option.map_some]

end Closing

end Escaping
