import Mathlib

/-!
# Ranks in a list

The rank of an entry is the number of entries above it.  Sorting puts every entry at its
rank, so the beginning of a sorted list consists of the entries with small ranks.
-/

namespace Ranking

variable {α : Type}

/-- `above` is a strict total order. -/
structure Orders (above : α → α → Bool) : Prop where
  irrefl : ∀ a, above a a = false
  trans : ∀ {a b c}, above a b = true → above b c = true → above a c = true
  total : ∀ {a b}, a ≠ b → above a b = true ∨ above b a = true

/-- The number of entries above one. -/
def rank (above : α → α → Bool) (entries : List α) (entry : α) : Nat :=
  entries.countP (above · entry)

section Ranks

variable {above : α → α → Bool} {entries entries' first rest : List α} {entry : α} {n : Nat}

theorem Orders.asymm (orders : Orders above) {a b : α} (higher : above a b = true) :
    above b a = false := by
  rw [← Bool.not_eq_true]
  intro lower
  have same := orders.trans higher lower
  rw [orders.irrefl] at same
  exact Bool.false_ne_true same

theorem rank_perm (perm : entries.Perm entries') :
    rank above entries entry = rank above entries' entry :=
  perm.countP_eq _

/-- In a sorted list an entry stands at its rank. -/
theorem Orders.rank_of_sorted (orders : Orders above)
    (sorted : (first ++ entry :: rest).Pairwise fun a b => above a b = true) :
    rank above (first ++ entry :: rest) entry = first.length := by
  obtain ⟨-, tail, across⟩ := List.pairwise_append.mp sorted
  have before : first.countP (above · entry) = first.length :=
    List.countP_eq_length.mpr fun other member => across other member entry List.mem_cons_self
  have after : rest.countP (above · entry) = 0 := by
    refine List.countP_eq_zero.mpr fun other member => Bool.eq_false_iff.mp ?_
    exact orders.asymm ((List.pairwise_cons.mp tail).1 other member)
  rw [rank, List.countP_append, List.countP_cons, before, after, orders.irrefl]
  rfl

/-- Sorting distinct entries puts the higher ones first. -/
theorem Orders.sorted (orders : Orders above) (distinct : entries.Nodup) :
    (entries.insertionSort fun a b => above b a = false).Pairwise
      fun a b => above a b = true := by
  let related := fun a b : α => above b a = false
  have total : Std.Total related := by
    refine ⟨fun a b => ?_⟩
    match higher : above b a with
    | false => exact .inl higher
    | true => exact .inr (orders.asymm higher)
  have trans : IsTrans α related := by
    refine ⟨fun a b c left right => ?_⟩
    by_contra lower
    have lower : above c a = true := by simpa [related] using lower
    by_cases same : b = c
    · exact absurd (same ▸ left : above c a = false) (by simp [lower])
    · rcases orders.total same with higher | higher
      · have := orders.trans higher lower
        simp [related, this] at left
      · simp [related, higher] at right
  have sorted := List.pairwise_insertionSort related entries
  have apart := (List.perm_insertionSort related entries).nodup_iff.mpr distinct
  refine (sorted.and apart).imp fun ⟨weak, different⟩ => ?_
  exact (orders.total different).resolve_right (Bool.eq_false_iff.mp weak)

/-- Exactly `n` entries have a rank below `n`, if there are as many. -/
theorem Orders.length_filter_rank (orders : Orders above) (distinct : entries.Nodup)
    (n : Nat) : (entries.filter fun entry => decide (rank above entries entry < n)).length =
      min n entries.length := by
  have sorted := orders.sorted distinct
  have perm := List.perm_insertionSort (fun a b => above b a = false) entries
  generalize entries.insertionSort (fun a b => above b a = false) = order at sorted perm
  have counted : ∀ first rest, order = first ++ rest →
      (rest.filter fun entry => decide (rank above order entry < n)).length =
        min (n - first.length) rest.length := by
    intro first rest
    induction rest generalizing first with
    | nil => simp
    | cons entry rest inductionHypothesis =>
        intro split
        have later := inductionHypothesis (first ++ [entry]) (by simp [split])
        have place : rank above order entry = first.length := by
          rw [split] at sorted ⊢
          exact orders.rank_of_sorted sorted
        rw [List.length_append, List.length_singleton] at later
        rw [List.filter_cons, place]
        split_ifs with small
        · simp only [decide_eq_true_eq] at small
          rw [List.length_cons, later, List.length_cons]
          omega
        · simp only [decide_eq_true_eq] at small
          rw [later, List.length_cons]
          omega
  have same := perm.filter fun entry => decide (rank above order entry < n)
  rw [← (funext fun entry => by rw [rank_perm perm] :
    (fun entry => decide (rank above order entry < n)) =
      fun entry => decide (rank above entries entry < n)), ← same.length_eq, ← perm.length_eq]
  simpa using counted [] order rfl

/-- Of `n` selected entries as many are good as can be, if and only if no bad entry is
selected while a good one is not. -/
theorem countP_selected {good selected : α → Bool}
    (full : entries.countP selected = min n entries.length) :
    (entries.countP fun entry => good entry && selected entry) =
        min n (entries.countP good) ↔
      ¬ ∃ bad ∈ entries, ∃ missed ∈ entries, (good bad = false ∧ selected bad = true) ∧
        good missed = true ∧ selected missed = false := by
  have goods := List.countP_eq_countP_filter_add entries good selected
  have chosen := List.countP_eq_countP_filter_add entries selected good
  have others := List.countP_eq_countP_filter_add entries (fun entry => !good entry) selected
  have every := List.length_eq_countP_add_countP good (l := entries)
  simp only [List.countP_filter, Bool.not_eq_true, Bool.decide_eq_false]
    at goods chosen others every
  simp only [Bool.and_comm (selected _)] at chosen
  have none : (∃ bad ∈ entries, ∃ missed ∈ entries,
      (good bad = false ∧ selected bad = true) ∧
      good missed = true ∧ selected missed = false) ↔
        0 < entries.countP (fun entry => !good entry && selected entry) ∧
          0 < entries.countP fun entry => good entry && !selected entry := by
    simp only [List.countP_pos_iff, Bool.and_eq_true, Bool.not_eq_true']
    constructor
    · rintro ⟨bad, member, missed, member', wrong, right⟩
      exact ⟨⟨bad, member, wrong⟩, missed, member', right⟩
    · rintro ⟨⟨bad, member, wrong⟩, missed, member', right⟩
      exact ⟨bad, member, missed, member', wrong, right⟩
  rw [none]
  omega

end Ranks

end Ranking
