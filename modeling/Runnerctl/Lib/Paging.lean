import Mathlib

/-!
# Reading a list page by page

Page `number` of a list is asked for by its number, so that one page is read of the list as
it stands, and the next page of the list as it has become.  An element is caught if it stands
on the page that is asked for at that time.  It slips if it is behind the page asked for and,
when the next page is asked for, no longer behind that place.
-/

namespace Paging

variable {α : Type} {size : Nat}

/-- Page `number` of a list, counted from one. -/
def page (size : Nat) (items : List α) (number : Nat) : List α :=
  (items.drop (size * (number - 1))).take size

/-- A short page is the last one. -/
theorem length_lt {items : List α} {number : Nat} (one : 1 ≤ number)
    (short : (page size items number).length < size) : items.length < size * number := by
  obtain ⟨n, rfl⟩ := Nat.exists_eq_add_of_le' one
  rw [page, Nat.add_sub_cancel, List.length_take, List.length_drop] at short
  rw [Nat.mul_succ]
  omega

/-- A page goes on where the pages before it end. -/
theorem take_append_page (items : List α) {number : Nat} (one : 1 ≤ number) :
    items.take (size * (number - 1)) ++ page size items number = items.take (size * number) := by
  obtain ⟨n, rfl⟩ := Nat.exists_eq_add_of_le' one
  rw [page, Nat.add_sub_cancel, ← List.take_add, ← Nat.mul_succ]

/-- A page is full if the list goes on to its end. -/
theorem length_page {items : List α} {number : Nat} (one : 1 ≤ number)
    (beyond : size * number ≤ items.length) : (page size items number).length = size := by
  obtain ⟨n, rfl⟩ := Nat.exists_eq_add_of_le' one
  rw [Nat.mul_succ] at beyond
  rw [page, Nat.add_sub_cancel, List.length_take, List.length_drop]
  omega

/-- The place is on the page. -/
def On (size place number : Nat) : Prop := size * (number - 1) ≤ place ∧ place < size * number

variable [DecidableEq α]

theorem mem_page {items : List α} {item : α} {number : Nat} (member : item ∈ items)
    (on : On size (items.idxOf item) number) : item ∈ page size items number := by
  have small := List.idxOf_lt_length_iff.mpr member
  obtain ⟨n, rfl⟩ : ∃ n, number = n + 1 := by
    refine Nat.exists_eq_succ_of_ne_zero fun zero => ?_
    subst zero
    exact absurd on.2 (Nat.not_lt_zero _)
  have ⟨behind, ahead⟩ := on
  rw [Nat.add_sub_cancel] at behind
  rw [Nat.mul_succ] at ahead
  rw [page, Nat.add_sub_cancel, List.mem_take_iff_getElem]
  refine ⟨items.idxOf item - size * n, by rw [List.length_drop]; omega, ?_⟩
  rw [List.getElem_drop]
  simp only [Nat.add_sub_cancel' behind, List.getElem_idxOf]

theorem on_of_mem_page {items : List α} {item : α} {number : Nat} (distinct : items.Nodup)
    (one : 1 ≤ number) (member : item ∈ page size items number) :
    On size (items.idxOf item) number := by
  obtain ⟨n, rfl⟩ := Nat.exists_eq_add_of_le' one
  rw [page, Nat.add_sub_cancel, List.mem_take_iff_getElem] at member
  obtain ⟨position, small, rfl⟩ := member
  rw [List.getElem_drop, distinct.idxOf_getElem, On, Nat.add_sub_cancel, Nat.mul_succ]
  omega

section Moving

/-- An element that is at `place number` when page `number` is asked for slips. -/
def Slips (size final : Nat) (place : Nat → Nat) : Prop :=
  ∃ number, 1 ≤ number ∧ number < final ∧ size * number ≤ place number ∧
    place (number + 1) < size * number

variable {final : Nat} {place : Nat → Nat}

/-- What does not slip is caught before the end of the list. -/
theorem caught (held : ¬ Slips size final place) (one : 1 ≤ final)
    (last : place final < size * final) :
    ∃ number, (1 ≤ number ∧ number ≤ final) ∧ On size (place number) number := by
  by_contra lost
  have notOn : ∀ number, 1 ≤ number → number ≤ final →
      size * (number - 1) ≤ place number →
      size * number ≤ place number := by
    intro number one upTo reached
    exact Nat.not_lt.mp fun ahead => lost ⟨number, ⟨one, upTo⟩, reached, ahead⟩
  have behind : ∀ number, 1 ≤ number → number ≤ final →
      size * number ≤ place number := by
    intro number one
    induction number, one using Nat.le_induction with
    | base => exact fun upTo => notOn 1 (Nat.le_refl 1) upTo (Nat.zero_le _)
    | succ number one inductionHypothesis =>
        intro upTo
        refine notOn (number + 1) (Nat.le_succ_of_le one) upTo ?_
        rw [Nat.add_sub_cancel]
        have before := inductionHypothesis (Nat.le_of_succ_le upTo)
        exact Nat.not_lt.mp fun ahead => held ⟨number, one, upTo, before, ahead⟩
  exact Nat.not_lt.mpr (behind final one (Nat.le_refl final)) last

/-- What slips is never caught, if it falls back by at most one page from one request to
the next. -/
theorem missed
    (slow : ∀ number, 1 ≤ number → number < final →
      place (number + 1) ≤ place number + size)
    (slips : Slips size final place) {number : Nat} (one : 1 ≤ number) (last : number ≤ final) :
    ¬ On size (place number) number := by
  obtain ⟨at_, first, small, behind, ahead⟩ := slips
  rintro ⟨reached, within⟩
  rcases Nat.lt_or_ge at_ number with later | earlier
  · have passed : ∀ n, at_ + 1 ≤ n → n ≤ final → place n < size * (n - 1) := by
      intro n beyond
      induction n, beyond using Nat.le_induction with
      | base => exact fun _ => ahead
      | succ n beyond inductionHypothesis =>
          intro upTo
          have before := inductionHypothesis (Nat.le_of_succ_le upTo)
          have step := slow n (Nat.le_trans first (Nat.le_of_succ_le beyond)) upTo
          obtain ⟨m, rfl⟩ : ∃ m, n = m + 1 := Nat.exists_eq_succ_of_ne_zero (by omega)
          rw [Nat.add_sub_cancel] at before ⊢
          rw [Nat.mul_succ]
          omega
    exact Nat.not_lt.mpr reached (passed number later last)
  · have waiting : ∀ gap n, n + gap = at_ → 1 ≤ n → size * n ≤ place n := by
      intro gap
      induction gap with
      | zero =>
          rintro n rfl -
          exact behind
      | succ gap inductionHypothesis =>
          intro n same one
          have next := inductionHypothesis (n + 1) (by omega) (Nat.le_add_left ..)
          have step := slow n one (by omega)
          rw [Nat.mul_succ] at next
          omega
    exact Nat.not_lt.mpr (waiting (at_ - number) number (by omega) one) within

end Moving

end Paging
