import Mathlib

/-!
# Append-only journals

A journal is a list that only grows at its end.  `Grows` describes what a step adds
to it; `Recorded` states that every entry is justified by the entries before it.
-/

namespace Journal

variable {α : Type}

/-- `after` continues `before` with entries that satisfy `added`. -/
def Grows (added : α → Prop) (before after : List α) : Prop :=
  ∃ new, after = before ++ new ∧ ∀ entry ∈ new, added entry

namespace Grows

variable {added added' : α → Prop} {first second third : List α}

theorem refl (journal : List α) : Grows added journal journal :=
  ⟨[], by simp, by simp⟩

theorem concat {journal : List α} {entry : α} (allowed : added entry) :
    Grows added journal (journal ++ [entry]) :=
  ⟨[entry], rfl, by simpa using allowed⟩

theorem trans (left : Grows added first second) (right : Grows added second third) :
    Grows added first third := by
  obtain ⟨new, rfl, allowed⟩ := left
  obtain ⟨new', rfl, allowed'⟩ := right
  refine ⟨new ++ new', List.append_assoc .., ?_⟩
  intro entry member
  rcases List.mem_append.mp member with member | member
  · exact allowed entry member
  · exact allowed' entry member

theorem mono (grows : Grows added first second)
    (weaker : ∀ entry, added entry → added' entry) : Grows added' first second := by
  obtain ⟨new, equal, allowed⟩ := grows
  exact ⟨new, equal, fun entry member => weaker entry (allowed entry member)⟩

theorem isPrefix (grows : Grows added first second) : first <+: second := by
  obtain ⟨new, rfl, -⟩ := grows
  exact List.prefix_append ..

theorem mem_or (grows : Grows added first second) {entry : α} (member : entry ∈ second) :
    entry ∈ first ∨ added entry := by
  obtain ⟨new, rfl, allowed⟩ := grows
  exact (List.mem_append.mp member).imp_right (allowed entry)

theorem mem {entry : α} (grows : Grows added first second) (member : entry ∈ first) :
    entry ∈ second :=
  grows.isPrefix.subset member

end Grows

/-- Every entry of the journal is justified by the entries before it. -/
def Recorded (justified : List α → α → Prop) (journal : List α) : Prop :=
  ∀ first entry rest, journal = first ++ entry :: rest → justified first entry

variable {justified justified' : List α → α → Prop}

theorem recorded_nil : Recorded justified [] := by
  intro first entry rest equal
  simp at equal

/-- An entry of a journal that grew is an old one or a new one. -/
theorem split_append {journal new first rest : List α} {entry : α}
    (split : journal ++ new = first ++ entry :: rest) :
    (∃ tail, journal = first ++ entry :: tail ∧ rest = tail ++ new) ∨
      ∃ tail, first = journal ++ tail ∧ new = tail ++ entry :: rest := by
  rcases List.append_eq_append_iff.mp split with same | ⟨tail, equal, after⟩
  · exact .inr same
  · cases tail with
    | nil => exact .inr ⟨[], by simp [equal], after.symm⟩
    | cons head tail =>
        obtain ⟨rfl, rfl⟩ := List.cons.inj after
        exact .inl ⟨tail, equal, rfl⟩

theorem recorded_append {journal new : List α} :
    Recorded justified (journal ++ new) ↔
      Recorded justified journal ∧
        Recorded (fun first entry => justified (journal ++ first) entry) new := by
  constructor
  · intro recorded
    constructor
    · intro first entry rest equal
      exact recorded first entry (rest ++ new) (by simp [equal])
    · intro first entry rest equal
      exact recorded (journal ++ first) entry rest (by simp [equal])
  · rintro ⟨recorded, added⟩ first entry rest equal
    rcases split_append equal with ⟨tail, old, -⟩ | ⟨tail, rfl, new⟩
    · exact recorded first entry tail old
    · exact added tail entry rest new

theorem recorded_concat {journal : List α} {entry : α} :
    Recorded justified (journal ++ [entry]) ↔
      Recorded justified journal ∧ justified journal entry := by
  rw [recorded_append]
  refine and_congr_right fun _ => ⟨fun last => ?_, fun last first other rest split => ?_⟩
  · simpa using last [] entry [] rfl
  · cases first with
    | nil =>
        obtain ⟨rfl, -⟩ := List.cons.inj split
        simpa using last
    | cons head tail => simp at split

theorem Recorded.mono {journal : List α} (recorded : Recorded justified journal)
    (weaker : ∀ first entry, justified first entry → justified' first entry) :
    Recorded justified' journal :=
  fun first entry rest equal => weaker first entry (recorded first entry rest equal)

theorem Recorded.of_prefix {journal longer : List α} (recorded : Recorded justified longer)
    (isPrefix : journal <+: longer) : Recorded justified journal := by
  obtain ⟨rest, rfl⟩ := isPrefix
  exact (recorded_append.mp recorded).1

/-- Of two entries the one that is not followed by the other comes last. -/
theorem mem_after {first rest earlier later : List α} {entry other : α}
    (split : first ++ entry :: rest = earlier ++ other :: later) (apart : entry ≠ other)
    (before : entry ∉ later) : other ∈ rest := by
  rcases split_append split with ⟨tail, -, rfl⟩ | ⟨tail, -, same⟩
  · exact absurd (List.mem_append_right _ List.mem_cons_self) before
  · cases tail with
    | nil => exact absurd (List.cons.inj same).1 apart
    | cons head tail =>
        obtain ⟨-, rfl⟩ := List.cons.inj same
        exact List.mem_append_right _ List.mem_cons_self

/-! ## Chains -/

section Chains

variable {β : Type} {related : β → β → Prop} {view : α → β} {start : β}

/-- What is seen at the end of a journal that begins at `start`. -/
def final (view : α → β) : β → List α → β
  | start, [] => start
  | _, entry :: rest => final view (view entry) rest

/-- What is seen of one entry is related to what is seen of the next one. -/
def Chained (related : β → β → Prop) (view : α → β) : β → List α → Prop
  | _, [] => True
  | start, entry :: rest => related start (view entry) ∧ Chained related view (view entry) rest

theorem final_append {journal new : List α} :
    final view start (journal ++ new) = final view (final view start journal) new := by
  induction journal generalizing start with
  | nil => rfl
  | cons entry rest inductionHypothesis => exact inductionHypothesis

@[simp] theorem final_concat {journal : List α} {entry : α} :
    final view start (journal ++ [entry]) = view entry :=
  final_append

theorem chained_append {journal new : List α} :
    Chained related view start (journal ++ new) ↔
      Chained related view start journal ∧
        Chained related view (final view start journal) new := by
  induction journal generalizing start with
  | nil => exact ⟨fun chained => ⟨trivial, chained⟩, And.right⟩
  | cons entry rest inductionHypothesis =>
      exact (and_congr_right fun _ => inductionHypothesis).trans and_assoc.symm

theorem chained_concat {journal : List α} {entry : α} :
    Chained related view start (journal ++ [entry]) ↔
      Chained related view start journal ∧ related (final view start journal) (view entry) := by
  rw [chained_append]
  exact and_congr_right fun _ => and_iff_left trivial

/-- What relates neighbours relates the ends, too, if it is reflexive and transitive. -/
theorem Chained.ends {closed : β → β → Prop} {journal : List α}
    (chained : Chained related view start journal) (refl : ∀ b, closed b b)
    (trans : ∀ {a b c : β}, closed a b → closed b c → closed a c)
    (step : ∀ {a b : β}, related a b → closed a b) :
    closed start (final view start journal) := by
  induction journal generalizing start with
  | nil => exact refl start
  | cons entry rest inductionHypothesis =>
      exact trans (step chained.1) (inductionHypothesis chained.2)

/-- The entries of a chain from one entry to another. -/
theorem Chained.between {first middle rest : List α} {entry later : α}
    (chained : Chained related view start (first ++ entry :: (middle ++ later :: rest))) :
    Chained related view (view entry) (middle ++ [later]) := by
  obtain ⟨-, -, chained⟩ := chained_append.mp chained
  rw [List.append_cons, chained_append] at chained
  exact chained.1

end Chains

end Journal
