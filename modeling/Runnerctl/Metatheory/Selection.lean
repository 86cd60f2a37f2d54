import Runnerctl.Lib.Ranking
import Runnerctl.Metatheory.Soundness

/-!
# Which runs drain

`mark_retiring` in closed form: the runs of a pool that are of an older generation, or that
as many others are ranked above as the pool keeps, are marked as retiring.
-/

namespace Runnerctl

open Std

/-- The key by which `mark_retiring` sorts. -/
def Run.seniority (run : Run) : Nat × Nat × String := (run.generation, run.createdAt, run.id)

theorem orders_rankedAbove : Ranking.Orders State.rankedAbove where
  irrefl := by
    rintro ⟨generation, createdAt, id⟩
    simp [State.rankedAbove]
  trans := by
    rintro ⟨g₁, t₁, i₁⟩ ⟨g₂, t₂, i₂⟩ ⟨g₃, t₃, i₃⟩ first second
    simp only [State.rankedAbove, Bool.or_eq_true, Bool.and_eq_true, decide_eq_true_eq,
      beq_iff_eq] at first second ⊢
    rcases first with newer | ⟨rfl, later | ⟨rfl, higher⟩⟩
    · rcases second with newer' | ⟨rfl, -⟩
      · exact .inl (newer'.trans newer)
      · exact .inl newer
    · rcases second with newer' | ⟨rfl, later' | ⟨rfl, -⟩⟩
      · exact .inl newer'
      · exact .inr ⟨rfl, .inl (later'.trans later)⟩
      · exact .inr ⟨rfl, .inl later⟩
    · rcases second with newer' | ⟨rfl, later' | ⟨rfl, higher'⟩⟩
      · exact .inl newer'
      · exact .inr ⟨rfl, .inl later'⟩
      · exact .inr ⟨rfl, .inr ⟨rfl, String.lt_trans higher' higher⟩⟩
  total := by
    rintro ⟨g₁, t₁, i₁⟩ ⟨g₂, t₂, i₂⟩ different
    simp only [State.rankedAbove, Bool.or_eq_true, Bool.and_eq_true, decide_eq_true_eq,
      beq_iff_eq]
    rcases Nat.lt_trichotomy g₁ g₂ with newer | rfl | newer
    · exact .inr (.inl newer)
    · rcases Nat.lt_trichotomy t₁ t₂ with later | rfl | later
      · exact .inr (.inr ⟨rfl, .inl later⟩)
      · rcases Std.lt_trichotomy i₁ i₂ with higher | rfl | higher
        · exact .inr (.inr ⟨rfl, .inr ⟨rfl, higher⟩⟩)
        · exact absurd rfl different
        · exact .inl (.inr ⟨rfl, .inr ⟨rfl, higher⟩⟩)
      · exact .inl (.inr ⟨rfl, .inl later⟩)
    · exact .inl (.inl newer)

namespace State

variable {s t : State}

/-- The number of runs of its pool that are ranked above a run. -/
def rank (s : State) (run : Run) : Nat :=
  Ranking.rank rankedAbove ((s.runsOf run.poolId).map Run.seniority) run.seniority

/-- Of a pool of a generation that keeps some runs, the run is not one to keep. -/
def excess (s : State) (p : PoolState) (kept : Nat) (run : Run) : Bool :=
  run.poolId == p.id && (decide (kept ≤ s.rank run) || run.generation != p.generation)

/-- Mark the excess runs of a pool as retiring. -/
def retireExcess (s : State) (p : PoolState) (kept : Nat) : State :=
  { s with
    runs := TreeMap.image
      (fun run => if s.excess p kept run then { run with retiring := true } else run) s.runs }

/-! ## The order of the drain -/

theorem insertRanked_eq (entry : Nat × Nat × String) (entries : List (Nat × Nat × String)) :
    insertRanked entry entries =
      entries.orderedInsert (fun a b => rankedAbove b a = false) entry := by
  induction entries with
  | nil => rfl
  | cons head rest inductionHypothesis =>
      rw [insertRanked, List.orderedInsert_cons, inductionHypothesis]
      cases rankedAbove head entry <;> rfl

theorem drainOrder_eq (poolId : String) :
    s.drainOrder poolId = ((s.runsOf poolId).map Run.seniority).insertionSort
      fun a b => rankedAbove b a = false := by
  rw [drainOrder]
  change List.foldr insertRanked [] ((s.runsOf poolId).map Run.seniority) = _
  rw [List.insertionSort]
  congr 1
  funext entry entries
  exact insertRanked_eq entry entries

/-- What the loop makes of the run at some position of the order. -/
theorem drain_get {kept generation index : Nat} {order : List (Nat × Nat × String)}
    {runs runs' : ExtTreeMap String Run} (distinct : (order.map (·.2.2)).Nodup)
    (marked : drain kept generation index order runs = some runs') (id : String) :
    (id ∉ order.map (·.2.2) → runs'[id]? = runs[id]?) ∧
      ∀ first entry rest, order = first ++ entry :: rest → entry.2.2 = id →
        runs'[id]? = runs[id]?.map fun run : Run =>
          if decide (kept ≤ index + first.length) || run.generation != generation then
            { run with retiring := true }
          else run := by
  induction order generalizing index runs with
  | nil =>
      cases marked
      exact ⟨fun _ => rfl, by simp⟩
  | cons head tail inductionHypothesis =>
      obtain ⟨_, _, target⟩ := head
      obtain ⟨alone, distinct⟩ := List.nodup_cons.mp distinct
      simp only [drain] at marked
      cases found : runs[target]? with
      | none => simp [found] at marked
      | some recorded =>
          simp only [found] at marked
          obtain ⟨outside, inside⟩ := inductionHypothesis distinct marked
          have other (different : target ≠ id) :
              (if decide (kept ≤ index) || recorded.generation != generation then
                runs.insert target { recorded with retiring := true }
              else runs)[id]? = runs[id]? := by
            split
            · rw [TreeMap.get_insert, if_neg different]
            · rfl
          constructor
          · intro absent
            simp only [List.map_cons, List.mem_cons, not_or] at absent
            rw [outside absent.2, other (Ne.symm absent.1)]
          · rintro (_ | ⟨_, first⟩) entry rest split same
            · obtain ⟨rfl, rfl⟩ := List.cons.inj split
              have same : target = id := same
              subst same
              rw [outside alone, List.length_nil, Nat.add_zero, found, Option.map_some]
              by_cases drains :
                  (decide (kept ≤ index) || recorded.generation != generation) = true
              · rw [if_pos drains, if_pos drains, TreeMap.get_insert_self]
              · rw [if_neg drains, if_neg drains, found]
            · obtain ⟨rfl, rfl⟩ := List.cons.inj split
              have different : target ≠ id := by
                rintro rfl
                exact alone (List.mem_map.mpr
                  ⟨entry, List.mem_append_right first List.mem_cons_self, same⟩)
              rw [inside first entry rest rfl same, other different, List.length_cons,
                Nat.add_comm first.length 1, Nat.add_assoc]

/-! ## The closed form -/

theorem Keyed.distinct (keyed : s.Keyed) (poolId : String) :
    ((s.drainOrder poolId).map (·.2.2)).Nodup ∧
      ((s.runsOf poolId).map Run.seniority).Nodup := by
  have ids := nodup_runsOf s (keyed _ _) poolId
  have same : ((s.runsOf poolId).map Run.seniority).map (·.2.2) =
      (s.runsOf poolId).map (·.id) := by
    rw [List.map_map]
    rfl
  refine ⟨?_, List.Nodup.of_map _ (same ▸ ids)⟩
  rw [drainOrder_eq]
  exact ((List.perm_insertionSort _ _).map _).nodup_iff.mpr (same ▸ ids)

/-- A run stands in the order of its pool at its rank. -/
theorem Keyed.place (keyed : s.Keyed) {id : String} {run : Run}
    (found : s.runs[id]? = some run) :
    ∃ first rest, s.drainOrder run.poolId = first ++ run.seniority :: rest ∧
      first.length = s.rank run := by
  have member : run.seniority ∈ s.drainOrder run.poolId :=
    mem_drainOrder.mpr ⟨run, (mem_runsOf s).mpr ⟨⟨id, found⟩, rfl⟩, rfl⟩
  obtain ⟨first, rest, order⟩ := List.append_of_mem member
  refine ⟨first, rest, order, ?_⟩
  have sorted := orders_rankedAbove.sorted (keyed.distinct run.poolId).2
  rw [← drainOrder_eq, order] at sorted
  rw [← orders_rankedAbove.rank_of_sorted sorted, ← order, drainOrder_eq]
  exact Ranking.rank_perm (List.perm_insertionSort _ _)

/-- `mark_retiring` marks the excess runs, and changes nothing else. -/
theorem Keyed.markRetiring_eq (keyed : s.Keyed) {name : String} {p : PoolState} {pool : Pool}
    (marked : s.markRetiring name = some t) (found : s.pools[name]? = some p)
    (entry : s.config.pool? name = some pool) : t = s.retireExcess p (keep p pool) := by
  simp only [markRetiring, found, entry, Option.bind_eq_bind, Option.bind_some,
    Option.bind_eq_some_iff, Option.pure_def, Option.some.injEq] at marked
  obtain ⟨runs, drained, rfl⟩ := marked
  suffices same : runs = (s.retireExcess p (keep p pool)).runs by rw [same]; rfl
  apply ExtTreeMap.ext_getElem?
  intro id
  obtain ⟨outside, inside⟩ := drain_get (keyed.distinct p.id).1 drained id
  rw [retireExcess, TreeMap.get_image]
  by_cases member : id ∈ (s.drainOrder p.id).map (·.2.2)
  · obtain ⟨entry, member, same⟩ := List.mem_map.mp member
    obtain ⟨run, ofPool, rfl⟩ := mem_drainOrder.mp member
    obtain ⟨⟨key, there⟩, ofPool⟩ := (mem_runsOf s).mp ofPool
    obtain rfl : key = id := (keyed _ _ there).symm.trans same
    obtain ⟨first, rest, order, place⟩ := keyed.place there
    rw [inside first run.seniority rest (ofPool ▸ order) same, there, Option.map_some,
      Option.map_some, place, Nat.zero_add, excess, ofPool, beq_self_eq_true, Bool.true_and]
  · rw [outside member]
    cases there : s.runs[id]? with
    | none => rfl
    | some run =>
        have other : run.poolId ≠ p.id := by
          intro ofPool
          refine member (List.mem_map.mpr ⟨run.seniority, ?_, keyed _ _ there⟩)
          exact mem_drainOrder.mpr ⟨run, (mem_runsOf s).mpr ⟨⟨id, there⟩, ofPool⟩, rfl⟩
        rw [Option.map_some, if_neg]
        simp [excess, other]

theorem Indexed.markRetiring_eq (indexed : s.Indexed) {name : String} {p : PoolState}
    {pool : Pool} (found : s.pools[name]? = some p) (entry : s.config.pool? name = some pool) :
    s.markRetiring name = some (s.retireExcess p (keep p pool)) := by
  obtain ⟨t, marked⟩ := indexed.markRetiring_isSome found
  rw [marked, indexed.toKeyed.markRetiring_eq marked found entry]

/-! ## Ranks do not depend on what was marked -/

theorem rank_congr (same : TreeMap.image (fun run => (run.poolId, run.seniority)) s.runs =
      TreeMap.image (fun run => (run.poolId, run.seniority)) t.runs) (run : Run) :
    s.rank run = t.rank run := by
  have listed (s : State) (poolId : String) : (s.runsOf poolId).map Run.seniority =
      ((TreeMap.values (TreeMap.image (fun run => (run.poolId, run.seniority)) s.runs)).filter
        (·.1 == poolId)).map (·.2) := by
    rw [TreeMap.values_image, List.filter_map, List.map_map]
    rfl
  rw [rank, rank, listed, listed, same]

theorem retireExcess_rank (p : PoolState) (kept : Nat) (run : Run) :
    (s.retireExcess p kept).rank run = s.rank run := by
  refine rank_congr ?_ run
  rw [retireExcess, TreeMap.image_image]
  congr 1
  funext run
  rw [Function.comp_apply]
  split <;> rfl

theorem retireExcess_run (p : PoolState) (kept : Nat) (id : String) :
    (s.retireExcess p kept).runs[id]? = s.runs[id]?.map fun run =>
      if s.excess p kept run then { run with retiring := true } else run :=
  TreeMap.get_image _ _ _

/-- Of two drains of the same pool the one that keeps less decides. -/
theorem retireExcess_retireExcess (p : PoolState) {kept kept' : Nat} (le : kept' ≤ kept) :
    (s.retireExcess p kept).retireExcess p kept' = s.retireExcess p kept' := by
  suffices same : ((s.retireExcess p kept).retireExcess p kept').runs =
      (s.retireExcess p kept').runs from congrArg (fun runs => { s with runs }) same
  apply ExtTreeMap.ext_getElem?
  intro id
  simp only [retireExcess_run, Option.map_map]
  refine congrArg (Option.map · _) (funext fun run => ?_)
  have marked : (s.retireExcess p kept).excess p kept'
      (if s.excess p kept run then { run with retiring := true } else run) =
        s.excess p kept' run := by
    have same (retiring : Bool) :
        (s.retireExcess p kept).excess p kept' { run with retiring } = s.excess p kept' run := by
      unfold excess
      rw [retireExcess_rank p kept { run with retiring }]
      rfl
    split
    · exact same true
    · exact same run.retiring
  rw [Function.comp_apply, marked]
  by_cases fewer : s.excess p kept' run = true
  · rw [if_pos fewer, if_pos fewer]
    split <;> rfl
  · rw [if_neg fewer, if_neg fewer, if_neg]
    simp only [excess, Bool.and_eq_true, Bool.or_eq_true, decide_eq_true_eq] at fewer ⊢
    rintro ⟨ofPool, above | older⟩
    · exact fewer ⟨ofPool, .inl (le.trans above)⟩
    · exact fewer ⟨ofPool, .inr older⟩

end State

end Runnerctl
