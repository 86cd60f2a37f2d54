import Mathlib

/-!
# Systems beside a journal

A system that lives beside a journal takes part in its entries, and moves on its own in
between.  An entry can tell of the state that it found the system in.
-/

namespace Journal

/-- What a system does on its own, in which states it takes part in an entry, and its state
after that. -/
structure Companion (σ α : Type) where
  alone : σ → σ → Prop
  allows : σ → α → Prop
  after : σ → α → σ

namespace Companion

variable {σ α : Type} (companion : Companion σ α)

/-- Some moves of the system on its own. -/
abbrev Moves : σ → σ → Prop := Relation.ReflTransGen companion.alone

/-- A system that was in a state before the journal can be in another one after it. -/
inductive Lives : σ → List α → σ → Prop where
  | rest {s t : σ} : companion.Moves s t → Lives s [] t
  | entry {s t u : σ} {entry : α} {rest : List α} :
      companion.Moves s t → companion.allows t entry → Lives (companion.after t entry) rest u →
        Lives s (entry :: rest) u

variable {companion} {s t u : σ} {first second : List α} {entry : α}

theorem Lives.before (moves : companion.Moves s t) (lives : companion.Lives t first u) :
    companion.Lives s first u := by
  cases lives with
  | rest later => exact .rest (moves.trans later)
  | entry later allows lives => exact .entry (moves.trans later) allows lives

theorem Lives.append (left : companion.Lives s first t) (right : companion.Lives t second u) :
    companion.Lives s (first ++ second) u := by
  induction left with
  | rest moves => exact right.before moves
  | entry moves allows _ inductionHypothesis =>
      exact .entry moves allows (inductionHypothesis right)

theorem lives_append :
    companion.Lives s (first ++ second) u ↔
      ∃ t, companion.Lives s first t ∧ companion.Lives t second u := by
  refine ⟨fun lives => ?_, fun ⟨_, left, right⟩ => left.append right⟩
  induction first generalizing s with
  | nil => exact ⟨s, .rest .refl, lives⟩
  | cons entry first inductionHypothesis =>
      cases lives with
      | entry moves allows lives =>
          obtain ⟨t, left, right⟩ := inductionHypothesis lives
          exact ⟨t, .entry moves allows left, right⟩

theorem lives_cons :
    companion.Lives s (entry :: first) u ↔
      ∃ t, companion.Moves s t ∧ companion.allows t entry ∧
        companion.Lives (companion.after t entry) first u := by
  constructor
  · intro lives
    cases lives with
    | entry moves allows lives => exact ⟨_, moves, allows, lives⟩
  · rintro ⟨t, moves, allows, lives⟩
    exact .entry moves allows lives

theorem lives_concat :
    companion.Lives s (first ++ [entry]) u ↔
      ∃ t, companion.Lives s first t ∧ companion.allows t entry ∧
        companion.Moves (companion.after t entry) u := by
  rw [lives_append]
  constructor
  · rintro ⟨t, left, right⟩
    obtain ⟨t', moves, allows, lives⟩ := lives_cons.mp right
    cases lives with
    | rest later => exact ⟨t', by simpa using left.append (.rest moves), allows, later⟩
  · rintro ⟨t, left, allows, moves⟩
    exact ⟨t, left, .entry .refl allows (.rest moves)⟩

/-- What the system keeps on its own and in every entry, it keeps. -/
theorem Lives.keeps {P : σ → Prop} (lives : companion.Lives s first u) (holds : P s)
    (alone : ∀ s t, P s → companion.alone s t → P t)
    (entries : ∀ entry ∈ first, ∀ s, P s → companion.allows s entry →
      P (companion.after s entry)) : P u := by
  have moved {s t : σ} (holds : P s) (moves : companion.Moves s t) : P t := by
    induction moves with
    | refl => exact holds
    | tail _ move inductionHypothesis => exact alone _ _ inductionHypothesis move
  induction lives with
  | rest moves => exact moved holds moves
  | entry moves allows _ inductionHypothesis =>
      rw [List.forall_mem_cons] at entries
      exact inductionHypothesis (entries.1 _ (moved holds moves) allows) entries.2

end Companion

end Journal
