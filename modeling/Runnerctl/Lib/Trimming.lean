import Mathlib

/-!
# Trimming a list

What is left of a list without the blank elements at its ends.
-/

namespace Trimming

variable {α : Type} {blank : α → Bool} {items left right core : List α}

/-- The list without the blank elements at its ends. -/
def trim (blank : α → Bool) (items : List α) : List α :=
  (items.dropWhile blank).rdropWhile blank

theorem trim_of_blank (all : items.all blank = true) : trim blank items = [] := by
  rw [trim, List.dropWhile_eq_nil_iff.mpr (List.all_eq_true.mp all), List.rdropWhile_nil]

/-- A list with no blank element at either end. -/
structure Bare (blank : α → Bool) (core : List α) : Prop where
  head : ∃ first rest, core = first :: rest ∧ blank first = false
  last : ∃ rest final, core = rest ++ [final] ∧ blank final = false

theorem Bare.ne_nil (bare : Bare blank core) : core ≠ [] := by
  obtain ⟨first, rest, rfl, -⟩ := bare.head
  exact List.cons_ne_nil _ _

/-- Trimming leaves what stands between two blank ends. -/
theorem Bare.trim_eq (bare : Bare blank core) (lead : left.all blank = true)
    (trail : right.all blank = true) : trim blank (left ++ core ++ right) = core := by
  have front : (left ++ core ++ right).dropWhile blank = core ++ right := by
    obtain ⟨first, rest, rfl, visible⟩ := bare.head
    rw [List.append_assoc, List.dropWhile_append_of_pos (List.all_eq_true.mp lead),
      List.cons_append, List.dropWhile_cons_of_neg (by simp [visible])]
  have back : (core ++ right).rdropWhile blank = core := by
    obtain ⟨rest, final, rfl, visible⟩ := bare.last
    clear front
    induction right using List.reverseRecOn with
    | nil => rw [List.append_nil, List.rdropWhile_concat_neg _ _ _ (by simp [visible])]
    | append_singleton right x ih =>
        rw [List.all_append, Bool.and_eq_true, List.all_cons, Bool.and_eq_true] at trail
        rw [← List.append_assoc, List.rdropWhile_concat_pos _ _ _ trail.2.1]
        exact ih trail.1
  rw [trim, front, back]

/-- A list that is not blank has a core between two blank ends. -/
theorem exists_bare (visible : items.all blank = false) :
    ∃ left core right, items = left ++ core ++ right ∧ left.all blank = true ∧
      right.all blank = true ∧ Bare blank core := by
  obtain ⟨first, rest, begins⟩ : ∃ first rest, items.dropWhile blank = first :: rest := by
    refine List.exists_cons_of_ne_nil fun nothing => ?_
    rw [List.all_eq_true.mpr (List.dropWhile_eq_nil_iff.mp nothing)] at visible
    cases visible
  have head : blank first = false := by
    have := List.head_dropWhile_not blank (l := items) (by simp [begins])
    simpa [begins] using this
  have split := List.rdropWhile_append_rtakeWhile (p := blank) (l := first :: rest)
  have some : (first :: rest).rdropWhile blank ≠ [] := by
    intro nothing
    have := List.rdropWhile_eq_nil_iff.mp nothing first List.mem_cons_self
    rw [head] at this
    cases this
  refine ⟨items.takeWhile blank, (first :: rest).rdropWhile blank,
    (first :: rest).rtakeWhile blank, ?_, List.all_takeWhile, ?_, ?_, ?_⟩
  · rw [List.append_assoc, split, ← begins, List.takeWhile_append_dropWhile]
  · exact List.all_eq_true.mpr fun x member => List.mem_rtakeWhile_imp member
  · obtain ⟨x, others, same⟩ := List.exists_cons_of_ne_nil some
    rw [same, List.cons_append] at split
    obtain ⟨rfl, -⟩ := List.cons.inj split
    exact ⟨x, others, same, head⟩
  · have final := List.rdropWhile_last_not (p := blank) (l := first :: rest) some
    exact ⟨_, _, (List.dropLast_append_getLast some).symm, by simpa using final⟩

theorem trim_eq_nil_iff : trim blank items = [] ↔ items.all blank = true := by
  constructor
  · intro nothing
    cases visible : items.all blank with
    | true => rfl
    | false =>
        obtain ⟨left, core, right, rfl, lead, trail, bare⟩ := exists_bare visible
        rw [bare.trim_eq lead trail] at nothing
        exact (bare.ne_nil nothing).elim
  · exact trim_of_blank

/-- What is trimmed off stands at the two ends. -/
theorem exists_ends (blank : α → Bool) (items : List α) :
    ∃ left right, items = left ++ trim blank items ++ right := by
  cases visible : items.all blank with
  | true => exact ⟨items, [], by rw [trim_of_blank visible]; simp⟩
  | false =>
      obtain ⟨left, core, right, rfl, lead, trail, bare⟩ := exists_bare visible
      exact ⟨left, right, by rw [bare.trim_eq lead trail]⟩

theorem trim_append_right (trail : right.all blank = true) :
    trim blank (items ++ right) = trim blank items := by
  cases visible : items.all blank with
  | true => rw [trim_of_blank visible, trim_of_blank (by simp [visible, trail])]
  | false =>
      obtain ⟨left, core, tail, rfl, lead, tailBlank, bare⟩ := exists_bare visible
      rw [bare.trim_eq lead tailBlank, List.append_assoc,
        bare.trim_eq lead (by simp [tailBlank, trail])]

/-- What follows and is not blank lengthens the core. -/
theorem trim_append_ne (first : items.all blank = false) (rest : right.all blank = false) :
    trim blank (items ++ right) ≠ trim blank items := by
  obtain ⟨left, core, tail, rfl, lead, trail, bare⟩ := exists_bare first
  obtain ⟨left', core', tail', rfl, lead', trail', bare'⟩ := exists_bare rest
  have longer : Bare blank (core ++ tail ++ left' ++ core') := by
    obtain ⟨x, others, rfl, visible⟩ := bare.head
    obtain ⟨others', final, rfl, visible'⟩ := bare'.last
    exact ⟨⟨x, _, by simp only [List.cons_append]; rfl, visible⟩,
      ⟨_, final, (List.append_assoc ..).symm, visible'⟩⟩
  have whole : left ++ core ++ tail ++ (left' ++ core' ++ tail') =
      left ++ (core ++ tail ++ left' ++ core') ++ tail' := by
    simp only [List.append_assoc]
  rw [whole, longer.trim_eq lead trail', bare.trim_eq lead trail]
  intro same
  have lengths := congrArg List.length same
  have some := List.length_pos_iff.mpr bare'.ne_nil
  simp only [List.length_append] at lengths
  omega

end Trimming
