import Mathlib

/-!
# Reading a line from a stream

A stream arrives in pieces.  A buffered reader with a limit takes what has arrived, a buffer
at a time, until it has seen a delimiter, has used up its limit or has come to the end.  The
line depends only on what arrives, not on the pieces.
-/

namespace Streams

variable {α : Type}

/-- One read: at most `room` elements of the next piece that is not empty. -/
def read (room : Nat) : List (List α) → List α × List (List α)
  | [] => ([], [])
  | [] :: pieces => read room pieces
  | (x :: piece) :: pieces => ((x :: piece).take room, (x :: piece).drop room :: pieces)

theorem read_flatten (room : Nat) (pieces : List (List α)) :
    (read room pieces).1 ++ (read room pieces).2.flatten = pieces.flatten := by
  fun_induction read room pieces with
  | case1 => rfl
  | case2 pieces ih => exact ih
  | case3 x piece pieces =>
      rw [List.flatten_cons, ← List.append_assoc, List.take_append_drop, List.flatten_cons]

theorem length_read_le (room : Nat) (pieces : List (List α)) :
    (read room pieces).1.length ≤ room := by
  fun_induction read room pieces with
  | case1 => exact Nat.zero_le _
  | case2 pieces ih => exact ih
  | case3 x piece pieces => exact List.length_take_le _ _

/-- A read of nothing means that nothing has arrived. -/
theorem flatten_of_read_nil {room : Nat} (positive : 0 < room) {pieces : List (List α)}
    (nothing : (read room pieces).1 = []) : pieces.flatten = [] := by
  fun_induction read room pieces with
  | case1 => rfl
  | case2 pieces ih => exact ih nothing
  | case3 x piece pieces =>
      obtain ⟨room, rfl⟩ := Nat.exists_eq_add_one_of_ne_zero (Nat.ne_of_gt positive)
      cases nothing

variable [DecidableEq α]

/-- The elements up to a delimiter, with it. -/
def upTo (delimiter : α) (items : List α) : List α :=
  items.takeWhile (fun x => !decide (x = delimiter)) ++ [delimiter]

/-- Read up to a delimiter, the limit or the end of the stream; nothing is known yet if the
stream may go on. -/
def readUntil (delimiter : α) (buffer : Nat) (closed : Bool) (limit : Nat)
    (pieces : List (List α)) : Option (List α) :=
  if _ : limit = 0 then some []
  else
    let parts := read (min buffer limit) pieces
    if parts.1 = [] then if closed then some [] else none
    else if delimiter ∈ parts.1 then some (upTo delimiter parts.1)
    else (readUntil delimiter buffer closed (limit - parts.1.length) parts.2).map
      (parts.1 ++ ·)
termination_by limit
decreasing_by
  have := List.length_pos_iff.mpr ‹¬parts.1 = []›
  exact Nat.sub_lt (Nat.pos_of_ne_zero ‹¬limit = 0›) this

section Spec

variable {delimiter : α} {buffer limit : Nat} {closed : Bool} {pieces : List (List α)}

theorem upTo_append_of_mem {left right : List α} (member : delimiter ∈ left) :
    upTo delimiter (left ++ right) = upTo delimiter left := by
  induction left with
  | nil => cases member
  | cons x left ih =>
      by_cases same : x = delimiter
      · simp [upTo, same]
      · have rest := ih ((List.mem_cons.mp member).resolve_left (Ne.symm same))
        simpa [upTo, same] using rest

theorem upTo_append_of_not_mem {left right : List α} (absent : delimiter ∉ left) :
    upTo delimiter (left ++ right) = left ++ upTo delimiter right := by
  have kept : ∀ x ∈ left, (!decide (x = delimiter)) = true := by
    intro x member
    have other : x ≠ delimiter := fun same => absent (same ▸ member)
    simp [other]
  rw [upTo, List.takeWhile_append_of_pos kept, List.append_assoc, upTo]

theorem upTo_line {line more : List α} (absent : delimiter ∉ line) :
    upTo delimiter (line ++ delimiter :: more) = line ++ [delimiter] := by
  rw [upTo_append_of_not_mem absent, upTo, List.takeWhile_cons_of_neg (by simp),
    List.nil_append]

/-- The line is a function of what has arrived, of the limit and of the end. -/
theorem readUntil_eq (positive : 0 < buffer) :
    readUntil delimiter buffer closed limit pieces =
      if delimiter ∈ pieces.flatten.take limit then
        some (upTo delimiter (pieces.flatten.take limit))
      else if limit ≤ pieces.flatten.length ∨ closed = true then
        some (pieces.flatten.take limit)
      else none := by
  fun_induction readUntil delimiter buffer closed limit pieces with
  | case1 pieces => simp
  | case2 limit pieces spent parts nothing isClosed =>
      have room : 0 < min buffer limit := by omega
      simp [flatten_of_read_nil room nothing, isClosed]
  | case3 limit pieces spent parts nothing isOpen =>
      have room : 0 < min buffer limit := by omega
      simp [flatten_of_read_nil room nothing, isOpen, spent]
  | case4 limit pieces spent parts some member =>
      have whole : parts.1 ++ parts.2.flatten = pieces.flatten := read_flatten _ _
      have short : parts.1.length ≤ limit :=
        Nat.le_trans (length_read_le _ _) (Nat.min_le_right _ _)
      rw [← whole, List.take_append, List.take_of_length_le short,
        if_pos (List.mem_append_left _ member), upTo_append_of_mem member]
  | case5 limit pieces spent parts some absent ih =>
      have whole : parts.1 ++ parts.2.flatten = pieces.flatten := read_flatten _ _
      have short : parts.1.length ≤ limit :=
        Nat.le_trans (length_read_le _ _) (Nat.min_le_right _ _)
      rw [ih, ← whole, List.take_append, List.take_of_length_le short]
      by_cases later : delimiter ∈ parts.2.flatten.take (limit - parts.1.length)
      · rw [if_pos later, if_pos (List.mem_append_right _ later),
          upTo_append_of_not_mem absent, Option.map_some]
      · have never : delimiter ∉ parts.1 ++ parts.2.flatten.take (limit - parts.1.length) :=
          fun member => (List.mem_append.mp member).elim absent later
        rw [if_neg later, if_neg never]
        have ends : limit - parts.1.length ≤ parts.2.flatten.length ∨ closed = true ↔
            limit ≤ (parts.1 ++ parts.2.flatten).length ∨ closed = true := by
          rw [List.length_append]
          exact or_congr_left (by omega)
        by_cases stops : limit ≤ (parts.1 ++ parts.2.flatten).length ∨ closed = true
        · rw [if_pos stops, if_pos (ends.mpr stops), Option.map_some]
        · rw [if_neg stops, if_neg (mt ends.mp stops), Option.map_none]

/-- A line within the limit is read, however it arrives and whatever follows it. -/
theorem readUntil_line (positive : 0 < buffer) {line more : List α}
    (arrived : pieces.flatten = line ++ delimiter :: more) (absent : delimiter ∉ line)
    (short : line.length < limit) :
    readUntil delimiter buffer closed limit pieces = some (line ++ [delimiter]) := by
  obtain ⟨room, rfl⟩ := Nat.exists_eq_add_of_lt short
  have seen : pieces.flatten.take (line.length + room + 1) =
      line ++ delimiter :: more.take room := by
    rw [arrived, List.take_append, List.take_of_length_le (by omega),
      show line.length + room + 1 - line.length = room + 1 by omega, List.take_succ_cons]
  rw [readUntil_eq positive, seen, if_pos (by simp), upTo_line absent]

/-- A line that does not end within the limit is cut there. -/
theorem readUntil_cut (positive : 0 < buffer) (absent : delimiter ∉ pieces.flatten.take limit)
    (long : limit ≤ pieces.flatten.length) :
    readUntil delimiter buffer closed limit pieces = some (pieces.flatten.take limit) := by
  rw [readUntil_eq positive, if_neg absent, if_pos (.inl long)]

/-- What is read with a delimiter in it is the first line of what has arrived. -/
theorem exists_line (positive : 0 < buffer) {line : List α}
    (result : readUntil delimiter buffer closed limit pieces = some line)
    (member : delimiter ∈ line) :
    ∃ before more, line = before ++ [delimiter] ∧ delimiter ∉ before ∧
      pieces.flatten = line ++ more := by
  rw [readUntil_eq positive] at result
  split at result
  · next seen =>
    obtain ⟨before, after, same, absent⟩ := List.eq_append_cons_of_mem seen
    rw [same, upTo_line absent] at result
    cases result
    refine ⟨before, after ++ pieces.flatten.drop limit, rfl, absent, ?_⟩
    refine (List.take_append_drop limit pieces.flatten).symm.trans ?_
    rw [same]
    simp
  · next never =>
    split at result
    · cases result
      exact (never member).elim
    · cases result

end Spec

end Streams
