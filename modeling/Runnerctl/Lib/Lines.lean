import Mathlib

/-!
# Lists of lines

Lines that are written one after the other, each with a delimiter that does not occur in
it.  What is written begins with what was written of other lines exactly if the lines begin
with these lines.
-/

namespace Lines

variable {α : Type} {delimiter : α}

/-- The lines, each with the delimiter after it. -/
def terminated (delimiter : α) (lines : List (List α)) : List α :=
  lines.flatMap (· ++ [delimiter])

@[simp] theorem terminated_nil : terminated delimiter [] = [] := rfl

theorem terminated_cons (line : List α) (lines : List (List α)) :
    terminated delimiter (line :: lines) = line ++ delimiter :: terminated delimiter lines := by
  rw [terminated, List.flatMap_cons, List.append_assoc]
  rfl

theorem terminated_append (first second : List (List α)) :
    terminated delimiter (first ++ second) =
      terminated delimiter first ++ terminated delimiter second :=
  List.flatMap_append

/-- Up to the delimiter two lines that are continued are the same. -/
theorem line_unique {line line' more more' : List α} (absent : delimiter ∉ line)
    (absent' : delimiter ∉ line')
    (same : line ++ delimiter :: more = line' ++ delimiter :: more') :
    line = line' ∧ more = more' := by
  induction line generalizing line' with
  | nil =>
      cases line' with
      | nil => exact ⟨rfl, (List.cons.inj same).2⟩
      | cons head line' =>
          exact absurd (List.mem_cons.mpr (.inl (List.cons.inj same).1)) absent'
  | cons head line inductionHypothesis =>
      rw [List.mem_cons, not_or] at absent
      cases line' with
      | nil => exact absurd (List.cons.inj same).1.symm absent.1
      | cons head' line' =>
          rw [List.mem_cons, not_or] at absent'
          obtain ⟨rfl, others⟩ := List.cons.inj same
          obtain ⟨rfl, rest⟩ := inductionHypothesis absent.2 absent'.2 others
          exact ⟨rfl, rest⟩

theorem prefix_of_terminated {lines lines' : List (List α)}
    (absent : ∀ line ∈ lines, delimiter ∉ line)
    (absent' : ∀ line ∈ lines', delimiter ∉ line)
    (begins : terminated delimiter lines <+: terminated delimiter lines') : lines <+: lines' := by
  induction lines generalizing lines' with
  | nil => exact List.nil_prefix
  | cons line lines inductionHypothesis =>
      obtain ⟨rest, same⟩ := begins
      rw [terminated_cons, List.append_assoc, List.cons_append] at same
      cases lines' with
      | nil => exact absurd same (by simp)
      | cons line' lines' =>
          rw [terminated_cons] at same
          rw [List.forall_mem_cons] at absent absent'
          obtain ⟨rfl, more⟩ := line_unique absent.1 absent'.1 same
          exact List.cons_prefix_cons.mpr ⟨rfl,
            inductionHypothesis absent.2 absent'.2 ⟨rest, more⟩⟩

theorem terminated_prefix_iff {lines lines' : List (List α)}
    (absent : ∀ line ∈ lines, delimiter ∉ line)
    (absent' : ∀ line ∈ lines', delimiter ∉ line) :
    terminated delimiter lines <+: terminated delimiter lines' ↔ lines <+: lines' := by
  refine ⟨prefix_of_terminated absent absent', ?_⟩
  rintro ⟨more, rfl⟩
  rw [terminated_append]
  exact List.prefix_append _ _

/-- What begins with the image of some elements begins with them. -/
theorem prefix_of_map {β : Type} {f : α → β} {items items' : List α}
    (injective : ∀ x ∈ items, ∀ y ∈ items', f x = f y → x = y)
    (begins : items.map f <+: items'.map f) : items <+: items' := by
  induction items generalizing items' with
  | nil => exact List.nil_prefix
  | cons x items inductionHypothesis =>
      cases items' with
      | nil => exact absurd (List.prefix_nil.mp begins) (List.cons_ne_nil _ _)
      | cons y items' =>
          obtain ⟨same, rest⟩ := List.cons_prefix_cons.mp begins
          refine List.cons_prefix_cons.mpr
            ⟨injective x (List.mem_cons_self ..) y (List.mem_cons_self ..) same, ?_⟩
          exact inductionHypothesis (fun x member y member' => injective x
            (List.mem_cons_of_mem _ member) y (List.mem_cons_of_mem _ member')) rest

end Lines
