import Runnerctl.Metatheory.Requests

/-!
# What an accepted request changes

Consequences of `Accepts` that hold for every kind of request: the runs stay the same
up to their flags, flags are only ever set, and the state stays sound.
-/

namespace Runnerctl

open Std

namespace State

variable {s t : State}

theorem start_pool (s : State) (target name : String) :
    (s.start target).pools[name]? = s.pools[name]?.map fun p =>
      if target = name then
        { p with running := true, retryAt := 0, failures := 0, error := none }
      else p := by
  unfold start
  split
  · next p found =>
      rw [setPool_pools, TreeMap.get_insert]
      split
      · next equal => rw [← equal, found, Option.map_some]
      · simp
  · next missing =>
      split
      · next equal => rw [← equal, missing, Option.map_none]
      · simp

theorem stop_pool (force : Bool) (s : State) (target name : String) :
    (s.stop force target).pools[name]? = s.pools[name]?.map fun p =>
      if target = name then
        { p with running := false, retryAt := if force then 0 else p.retryAt }
      else p := by
  unfold stop
  split
  · next p found =>
      rw [retireRuns_pools, setPool_pools, TreeMap.get_insert]
      split
      · next equal => rw [← equal, found, Option.map_some]
      · simp
  · next missing =>
      split
      · next equal => rw [← equal, missing, Option.map_none]
      · simp

theorem resetProfile_pool (s : State) (profile name : String) :
    (s.resetProfile profile).pools[name]? = s.pools[name]?.map fun p =>
      if s.config.pools.any (fun c => c.name == name && c.auth == profile) then
        { p with retryAt := 0, error := none, failures := 0 }
      else p :=
  ExtTreeMap.getElem?_map

/-- The runs of `t` are those of `s`; some were marked as retiring or forced. -/
def Flags (s t : State) : Prop :=
  ∀ id : String,
    (s.runs[id]? = none ∧ t.runs[id]? = none) ∨
      ∃ run retiring force, s.runs[id]? = some run ∧
        t.runs[id]? = some
          { run with retiring := run.retiring || retiring, force := run.force || force }

theorem Flags.of_eq (same : t.runs = s.runs) : s.Flags t := by
  intro id
  match found : s.runs[id]? with
  | none => exact .inl ⟨rfl, same ▸ found⟩
  | some run => exact .inr ⟨run, false, false, rfl, by simp [same, found]⟩

theorem Flags.trans {u : State} (first : s.Flags t) (second : t.Flags u) : s.Flags u := by
  intro id
  rcases first id with ⟨none, none'⟩ | ⟨run, retiring, force, found, found'⟩
  · rcases second id with ⟨-, none''⟩ | ⟨_, _, _, there, -⟩
    · exact .inl ⟨none, none''⟩
    · simp [none'] at there
  · rcases second id with ⟨none'', -⟩ | ⟨run', retiring', force', there, there'⟩
    · simp [found'] at none''
    · cases found'.symm.trans there
      refine .inr ⟨run, retiring || retiring', force || force', found, ?_⟩
      simpa only [Bool.or_assoc] using there'

theorem Drained.flags (drained : s.Drained t) : s.Flags t := by
  obtain ⟨runs, rfl, change⟩ := drained
  intro id
  rcases change id with same | ⟨run, there, now⟩
  · match found : s.runs[id]? with
    | none => exact .inl ⟨rfl, same.trans found⟩
    | some run => exact .inr ⟨run, false, false, rfl, by simp [same, found]⟩
  · exact .inr ⟨run, true, false, there, by simpa using now⟩

theorem retireRuns_flags (s : State) (poolId : String) (force : Bool) :
    s.Flags (s.retireRuns poolId force) := by
  intro id
  rw [retireRuns_run]
  match found : s.runs[id]? with
  | none => exact .inl ⟨rfl, rfl⟩
  | some run =>
      rw [Option.map_some]
      split
      · exact .inr ⟨run, true, force, rfl, by simp⟩
      · exact .inr ⟨run, false, false, rfl, by simp⟩

theorem stop_run (force : Bool) (s : State) (target id : String) :
    (s.stop force target).runs[id]? = s.runs[id]?.map fun r =>
      if s.pools[target]?.any (·.id == r.poolId) then
        { r with retiring := true, force := r.force || force }
      else r := by
  unfold stop
  split
  · next p found =>
      rw [retireRuns_run, setPool_runs, found]
      simp only [Option.any_some, Bool.beq_comm]
  · next missing => simp [missing]

theorem stop_flags (force : Bool) (s : State) (name : String) :
    s.Flags (s.stop force name) := by
  unfold stop
  split
  · next p found =>
      exact (Flags.of_eq rfl).trans (retireRuns_flags _ p.id force)
  · exact .of_eq rfl

theorem Flags.roster (flags : s.Flags t) (same : t.managerId = s.managerId) :
    t.roster = s.roster := by
  refine roster_eq_iff.mpr ⟨same, TreeMap.image_eq_image_iff.mpr fun id => ?_⟩
  rcases flags id with ⟨none, none'⟩ | ⟨run, _, _, found, found'⟩
  · rw [none, none']
  · rw [found, found']
    rfl

/-- `t` is `s` for the same manager, with some runs marked as retiring or forced. -/
structure Marks (s t : State) : Prop where
  managerId : t.managerId = s.managerId
  flags : s.Flags t

namespace Marks

variable {u : State}

theorem refl (s : State) : s.Marks s := ⟨rfl, .of_eq rfl⟩

theorem trans (first : s.Marks t) (second : t.Marks u) : s.Marks u :=
  ⟨second.managerId.trans first.managerId, first.flags.trans second.flags⟩

theorem of_eq (managerId : t.managerId = s.managerId) (runs : t.runs = s.runs) :
    s.Marks t := ⟨managerId, .of_eq runs⟩

theorem of_drained (drained : s.Drained t) : s.Marks t := ⟨drained.managerId, drained.flags⟩

/-- The runs of a pool are marked when its state changes. -/
theorem stopping (s : State) (name : String) (p : PoolState) (poolId : String) (force : Bool) :
    s.Marks ((s.setPool name p).retireRuns poolId force) :=
  ⟨rfl, retireRuns_flags s poolId force⟩

theorem roster (marks : s.Marks t) : t.roster = s.roster := marks.flags.roster marks.managerId

/-- What became of a run. -/
theorem run (marks : s.Marks t) {id : String} {run : Run} (found : s.runs[id]? = some run) :
    ∃ retiring force, t.runs[id]? = some
      { run with retiring := run.retiring || retiring, force := run.force || force } := by
  rcases marks.flags id with ⟨none, -⟩ | ⟨other, retiring, force, there, after⟩
  · simp [none] at found
  · cases there.symm.trans found
    exact ⟨retiring, force, after⟩

/-- The run behind a run; its phase is the same. -/
theorem back (marks : s.Marks t) {id : String} {run' : Run} (found : t.runs[id]? = some run') :
    ∃ run, s.runs[id]? = some run ∧ run.phase = run'.phase := by
  rcases marks.flags id with ⟨-, none⟩ | ⟨run, _, _, there, after⟩
  · simp [none] at found
  · cases found.symm.trans after
    exact ⟨run, there, rfl⟩

end Marks

/-! ## Loops over targets -/

theorem foldl_roster {update : State → String → State}
    (same : ∀ s name, (update s name).roster = s.roster) (names : List String) (s : State) :
    (names.foldl update s).roster = s.roster := by
  induction names generalizing s with
  | nil => rfl
  | cons name rest inductionHypothesis =>
      rw [List.foldl_cons, inductionHypothesis, same]

theorem start_header (s : State) (name : String) : (s.start name).header = s.header := by
  unfold start
  split <;> rfl

theorem stop_header (force : Bool) (s : State) (name : String) :
    (s.stop force name).header = s.header := by
  unfold stop
  split <;> rfl

theorem foldl_header {update : State → String → State}
    (same : ∀ s name, (update s name).header = s.header) (names : List String) (s : State) :
    (names.foldl update s).header = s.header := by
  induction names generalizing s with
  | nil => rfl
  | cons name rest inductionHypothesis =>
      rw [List.foldl_cons, inductionHypothesis, same]

theorem foldl_start_runs (names : List String) (s : State) :
    (names.foldl start s).runs = s.runs := by
  induction names generalizing s with
  | nil => rfl
  | cons name rest inductionHypothesis =>
      rw [List.foldl_cons, inductionHypothesis, start_run]

theorem foldl_stop_flags (force : Bool) (names : List String) (s : State) :
    s.Flags (names.foldl (stop force) s) := by
  induction names generalizing s with
  | nil => exact .of_eq rfl
  | cons name rest inductionHypothesis =>
      exact (stop_flags force s name).trans (inductionHypothesis _)

/-- Only the runs of the targets become forced, and only by a forced stop. -/
theorem foldl_stop_force {force : Bool} {names : List String} {id : String} {run' : Run}
    (found : (names.foldl (stop force) s).runs[id]? = some run')
    (forced : run'.force = true) :
    ∃ run, s.runs[id]? = some run ∧ (run.force = true ∨ force = true ∧
      ∃ name ∈ names, ∃ p, s.pools[name]? = some p ∧ p.id = run.poolId) := by
  induction names generalizing s with
  | nil => exact ⟨run', found, .inl forced⟩
  | cons target rest inductionHypothesis =>
      obtain ⟨run₁, found₁, origin⟩ := inductionHypothesis found
      rw [stop_run] at found₁
      obtain ⟨run, there, rfl⟩ := Option.map_eq_some_iff.mp found₁
      refine ⟨run, there, ?_⟩
      rcases origin with forced₁ | ⟨isForce, name, member, p₁, pool₁, ofPool⟩
      · split at forced₁
        · next owned =>
            rcases Bool.or_eq_true_iff.mp forced₁ with old | new
            · exact .inl old
            · obtain ⟨p, pool, same⟩ := (Option.any_eq_true ..).mp owned
              exact .inr ⟨new, target, List.mem_cons_self, p, pool, beq_iff_eq.mp same⟩
        · exact .inl forced₁
      · right
        rw [stop_pool] at pool₁
        obtain ⟨p, pool, rfl⟩ := Option.map_eq_some_iff.mp pool₁
        refine ⟨isForce, name, List.mem_cons_of_mem _ member, p, pool, ?_⟩
        split at ofPool <;> split at ofPool <;> exact ofPool

theorem Sound.foldl_start {names : List String} (sound : s.Sound)
    (kept : ∀ name ∈ names, ∃ p, s.pools[name]? = some p ∧ p.deleting = false) :
    (names.foldl State.start s).Sound := by
  induction names generalizing s with
  | nil => exact sound
  | cons target rest inductionHypothesis =>
      obtain ⟨p, found, alive⟩ := kept target List.mem_cons_self
      have started : State.start s target = s.setPool target
          { p with running := true, retryAt := 0, failures := 0, error := none } := by
        simp only [State.start, found]
      refine inductionHypothesis (started ▸ sound.start found alive) fun name member => ?_
      obtain ⟨q, there, alive⟩ := kept name (List.mem_cons_of_mem _ member)
      rw [start_pool, there, Option.map_some]
      refine ⟨_, rfl, ?_⟩
      split <;> exact alive

theorem Sound.noted_unless (sound : s.Sound) {name : String} {p : PoolState}
    (found : s.pools[name]? = some p) (reset : Bool)
    (late : 0 < if reset then 0 else p.retryAt) : p.error.isSome = true := by
  cases reset with
  | false => exact sound.noted found late
  | true => exact absurd late (Nat.lt_irrefl 0)

theorem Sound.foldl_stop {force : Bool} {names : List String} (sound : s.Sound) :
    (names.foldl (State.stop force) s).Sound := by
  induction names generalizing s with
  | nil => exact sound
  | cons target rest inductionHypothesis =>
      refine inductionHypothesis ?_
      match found : s.pools[target]? with
      | none => simpa only [State.stop, found] using sound
      | some p =>
          simp only [State.stop, found]
          refine sound.stop { p with
            running := false
            retryAt := if force then 0 else p.retryAt } found rfl rfl rfl ?_ force
          exact sound.noted_unless found force

theorem Sound.resetProfile (sound : s.Sound) (profile : String) :
    (s.resetProfile profile).Sound := by
  refine sound.of_wish (wish_eq_iff.mpr ⟨rfl, rfl, rfl, rfl, ?_, rfl⟩) ?_
  · refine TreeMap.image_eq_image_iff.mpr fun name => ?_
    rw [resetProfile_pool]
    cases s.pools[name]? with
    | none => rfl
    | some p =>
        simp only [Option.map_some]
        split <;> rfl
  · intro name p found
    rw [resetProfile_pool] at found
    obtain ⟨q, there, rfl⟩ := Option.map_eq_some_iff.mp found
    split
    · exact fun late => absurd late (Nat.lt_irrefl 0)
    · exact sound.noted there

theorem foldlM_markRetiring_drained {names : List String}
    (marked : names.foldlM markRetiring s = some t) : s.Drained t := by
  induction names generalizing s with
  | nil =>
      cases marked
      exact .refl _
  | cons name rest inductionHypothesis =>
      rw [List.foldlM_cons] at marked
      obtain ⟨s₁, first, others⟩ := Option.bind_eq_some_iff.mp marked
      exact (drained_of_markRetiring first).trans (inductionHypothesis others)

theorem Indexed.foldlM_markRetiring_isSome {names : List String} (indexed : s.Indexed)
    (present : ∀ name ∈ names, ∃ p, s.pools[name]? = some p) :
    ∃ t, names.foldlM markRetiring s = some t := by
  induction names generalizing s with
  | nil => exact ⟨s, rfl⟩
  | cons name rest inductionHypothesis =>
      obtain ⟨p, found⟩ := present name List.mem_cons_self
      obtain ⟨s₁, marked⟩ := indexed.markRetiring_isSome found
      have drained := drained_of_markRetiring marked
      obtain ⟨t, others⟩ := inductionHypothesis (indexed.drained drained)
        fun other member => by
          rw [drained.pools]
          exact present other (List.mem_cons_of_mem _ member)
      refine ⟨t, ?_⟩
      rw [List.foldlM_cons, marked]
      exact others

/-- Ids of pools that were drawn before were drawn from the same answers. -/
theorem Drawn.of_ids {host : Host} {n : Nat} (drawn : s.Drawn host n)
    (back : ∀ {name : String} {p' : PoolState}, t.pools[name]? = some p' →
      ∃ p, s.pools[name]? = some p ∧ p.id = p'.id) : t.Drawn host n := by
  intro name p' found
  obtain ⟨p, there, id⟩ := back found
  obtain ⟨k, small, drawnId⟩ := drawn name p there
  exact ⟨k, small, id.symm.trans drawnId⟩

theorem foldl_start_ids {names : List String} {name : String} {p' : PoolState}
    (found : (names.foldl start s).pools[name]? = some p') :
    ∃ p, s.pools[name]? = some p ∧ p.id = p'.id := by
  induction names generalizing s with
  | nil => exact ⟨p', found, rfl⟩
  | cons target rest inductionHypothesis =>
      obtain ⟨p₁, found₁, id⟩ := inductionHypothesis found
      rw [start_pool] at found₁
      obtain ⟨p, there, rfl⟩ := Option.map_eq_some_iff.mp found₁
      refine ⟨p, there, ?_⟩
      split at id <;> exact id

theorem foldl_stop_ids {force : Bool} {names : List String} {name : String} {p' : PoolState}
    (found : (names.foldl (stop force) s).pools[name]? = some p') :
    ∃ p, s.pools[name]? = some p ∧ p.id = p'.id := by
  induction names generalizing s with
  | nil => exact ⟨p', found, rfl⟩
  | cons target rest inductionHypothesis =>
      obtain ⟨p₁, found₁, id⟩ := inductionHypothesis found
      rw [stop_pool] at found₁
      obtain ⟨p, there, rfl⟩ := Option.map_eq_some_iff.mp found₁
      refine ⟨p, there, ?_⟩
      split at id <;> exact id

theorem foldl_start_schedule (names : List String) {name : String} {p : PoolState}
    (found : s.pools[name]? = some p) :
    ∃ p', (names.foldl start s).pools[name]? = some p' ∧
      (p'.schedule = p.schedule ∨ p'.retryAt = 0 ∧ name ∈ names) := by
  induction names generalizing s p with
  | nil => exact ⟨p, found, .inl rfl⟩
  | cons target rest inductionHypothesis =>
      have first := start_pool s target name
      rw [found, Option.map_some] at first
      obtain ⟨p', there, same | ⟨reset, member⟩⟩ := inductionHypothesis first
      · refine ⟨p', there, ?_⟩
        split at same
        · next equal => exact .inr ⟨congrArg Prod.fst same, equal ▸ List.mem_cons_self⟩
        · exact .inl same
      · exact ⟨p', there, .inr ⟨reset, List.mem_cons_of_mem _ member⟩⟩

theorem foldl_stop_schedule (force : Bool) (names : List String) {name : String}
    {p : PoolState} (found : s.pools[name]? = some p) :
    ∃ p', (names.foldl (stop force) s).pools[name]? = some p' ∧
      (p'.schedule = p.schedule ∨ p'.retryAt = 0 ∧ force = true ∧ name ∈ names) := by
  induction names generalizing s p with
  | nil => exact ⟨p, found, .inl rfl⟩
  | cons target rest inductionHypothesis =>
      have first := stop_pool force s target name
      rw [found, Option.map_some] at first
      obtain ⟨p', there, same | ⟨reset, forced, member⟩⟩ := inductionHypothesis first
      · refine ⟨p', there, ?_⟩
        split at same
        · next equal =>
            cases force with
            | false => exact .inl same
            | true => exact .inr ⟨congrArg Prod.fst same, rfl, equal ▸ List.mem_cons_self⟩
        · exact .inl same
      · exact ⟨p', there, .inr ⟨reset, forced, List.mem_cons_of_mem _ member⟩⟩

end State

/-! ## Schedules -/

/-- A request of this kind can reset the deadlines of pools. -/
def Request.pardons : Request → Bool
  | .start _ _ | .auth _ _ _ => true
  | .stop _ _ force | .remove _ force => force
  | _ => false

theorem PoolState.schedule_unless {p q : PoolState} {force : Bool}
    (retryAt : q.retryAt = if force then 0 else p.retryAt) (failures : q.failures = p.failures) :
    q.schedule = p.schedule ∨ q.retryAt = 0 ∧ force = true := by
  cases force with
  | false => exact .inl (Prod.ext retryAt failures)
  | true => exact .inr ⟨retryAt, rfl⟩

/-- Each of the pools `after` was drawn from the answers `lo` to `hi` and is due, or it was
there before.  Its schedule is the one it had, unless deadlines are pardoned. -/
def Punctual (host : Host) (lo hi : Nat) (pardoned : Bool)
    (before after : ExtTreeMap String PoolState) : Prop :=
  ∀ (name : String) (q : PoolState), after[name]? = some q →
    (∃ k, lo ≤ k ∧ k < hi ∧ q.id = (host.answers k).uuid.text ∧ q.retryAt = 0) ∨
      ∃ p, before[name]? = some p ∧ q.id = p.id ∧
        (q.schedule = p.schedule ∨ q.retryAt = 0 ∧ pardoned = true)

namespace Punctual

variable {host : Host} {lo hi hi' : Nat} {pardoned : Bool}
  {before between after : ExtTreeMap String PoolState}

theorem refl (pools : ExtTreeMap String PoolState) : Punctual host lo hi pardoned pools pools :=
  fun _ q found => .inr ⟨q, found, rfl, .inl rfl⟩

theorem of_eq (same : after = before) : Punctual host lo hi pardoned before after := by
  rw [same]
  exact .refl _

theorem mono (punctual : Punctual host lo hi pardoned before after) (le : hi ≤ hi') :
    Punctual host lo hi' pardoned before after := by
  intro name q found
  exact (punctual name q found).imp_left fun ⟨k, low, high, drawn⟩ =>
    ⟨k, low, high.trans_le le, drawn⟩

theorem trans (first : Punctual host lo hi pardoned before between)
    (second : Punctual host lo hi pardoned between after) :
    Punctual host lo hi pardoned before after := by
  intro name q found
  rcases second name q found with new | ⟨p, there, sameId, same⟩
  · exact .inl new
  rcases first name p there with ⟨k, low, high, id, due⟩ | ⟨p₀, there₀, id, same₀⟩
  · refine .inl ⟨k, low, high, sameId.trans id, ?_⟩
    exact same.elim (fun same => (congrArg Prod.fst same).trans due) (·.1)
  · refine .inr ⟨p₀, there₀, sameId.trans id, ?_⟩
    rcases same with same | reset
    · refine same₀.imp same.trans fun ⟨due, pardoned⟩ => ⟨?_, pardoned⟩
      exact (congrArg Prod.fst same).trans due
    · exact .inr reset

/-- One pool is changed, or added. -/
theorem insert {name : String} {q : PoolState}
    (here : (∃ k, lo ≤ k ∧ k < hi ∧ q.id = (host.answers k).uuid.text ∧ q.retryAt = 0) ∨
      ∃ p, before[name]? = some p ∧ q.id = p.id ∧
        (q.schedule = p.schedule ∨ q.retryAt = 0 ∧ pardoned = true)) :
    Punctual host lo hi pardoned before (before.insert name q) := by
  intro other r found
  rw [TreeMap.get_insert] at found
  split at found
  · next equal =>
      cases found
      exact equal ▸ here
  · exact .inr ⟨r, found, rfl, .inl rfl⟩

/-- A pool is changed. -/
theorem change {name : String} {p q : PoolState} (found : before[name]? = some p)
    (id : q.id = p.id) (same : q.schedule = p.schedule ∨ q.retryAt = 0 ∧ pardoned = true) :
    Punctual host lo hi pardoned before (before.insert name q) :=
  .insert (.inr ⟨p, found, id, same⟩)

theorem start (s : State) (name : String) :
    Punctual host lo hi true s.pools (s.start name).pools := by
  unfold State.start
  split
  · next p found => exact .change found rfl (.inr ⟨rfl, rfl⟩)
  · exact .refl _

theorem stop (force : Bool) (s : State) (name : String) :
    Punctual host lo hi force s.pools (s.stop force name).pools := by
  unfold State.stop
  split
  · next p found => exact .change found rfl (PoolState.schedule_unless rfl rfl)
  · exact .refl _

theorem foldl {update : State → String → State} (names : List String) (s : State)
    (step : ∀ s name, Punctual host lo hi pardoned s.pools (update s name).pools) :
    Punctual host lo hi pardoned s.pools (names.foldl update s).pools := by
  induction names generalizing s with
  | nil => exact .refl _
  | cons name rest inductionHypothesis => exact (step s name).trans (inductionHypothesis _)

theorem resetProfile (s : State) (profile : String) :
    Punctual host lo hi true s.pools (s.resetProfile profile).pools := by
  intro name q found
  rw [State.resetProfile_pool] at found
  obtain ⟨p, there, rfl⟩ := Option.map_eq_some_iff.mp found
  refine .inr ⟨p, there, ?_⟩
  split
  · exact ⟨rfl, .inr ⟨rfl, rfl⟩⟩
  · exact ⟨rfl, .inl rfl⟩

end Punctual

theorem Applies.punctual {host : Host} {s : State} {lo n m : Nat}
    {pools pools' : ExtTreeMap String PoolState} {list : List Pool}
    (applies : Applies host s n pools list m pools') (low : lo ≤ n) :
    n ≤ m ∧ Punctual host lo m false pools pools' := by
  induction applies with
  | done => exact ⟨le_rfl, .refl _⟩
  | edit _ found _ _ _ inductionHypothesis =>
      obtain ⟨le, rest⟩ := inductionHypothesis low
      refine ⟨le, .trans ?_ rest⟩
      split
      · exact .refl _
      · exact .change found rfl (.inl rfl)
  | add _ _ inductionHypothesis =>
      obtain ⟨le, rest⟩ := inductionHypothesis (Nat.le_succ_of_le low)
      exact ⟨Nat.le_of_succ_le le, .trans (.insert (.inl ⟨_, low, le, rfl, rfl⟩)) rest⟩

/-- A committed request delays no pool. -/
theorem Commits.punctual {host : Host} {file : Option String} {lo hi : Nat} {s c : State}
    {request : Request} (commits : Commits host file lo hi s request c) (pardoned : Bool) :
    Punctual host lo hi pardoned s.pools c.pools := by
  suffices strict : Punctual host lo hi false s.pools c.pools from
    fun name q found => (strict name q found).imp_right fun ⟨p, there, id, same⟩ =>
      ⟨p, there, id, same.imp_right fun ⟨_, pardoned⟩ => nomatch pardoned⟩
  cases commits with
  | add _ low high _ committed =>
      obtain ⟨-, _, -, rfl⟩ := committed
      exact .insert (.inl ⟨_, low, high, rfl, rfl⟩)
  | scale _ _ _ _ committed | auth _ _ committed =>
      obtain ⟨-, _, -, rfl⟩ := committed
      exact .refl _
  | upgrade _ _ found _ committed =>
      obtain ⟨-, _, -, rfl⟩ := committed
      exact .change found rfl (.inl rfl)
  | apply _ _ _ low high applies _ committed =>
      obtain ⟨-, _, -, rfl⟩ := committed
      exact (applies.punctual low).2.mono high

/-- An accepted request delays no pool. -/
theorem Accepts.punctual {host : Host} {file : Option String} {lo hi : Nat} {s t : State}
    {request : Request} {response : Response}
    (accepts : Accepts host file lo hi s request response t) :
    Punctual host lo hi request.pardons s.pools t.pools := by
  cases accepts with
  | status _ => exact .refl _
  | add commits => exact commits.punctual _
  | start _ _ => exact .foldl _ s .start
  | stop _ => exact .foldl _ s (.stop _)
  | scale commits marked | upgrade commits marked =>
      exact (commits.punctual _).trans (.of_eq (State.drained_of_markRetiring marked).pools)
  | remove found => exact .change found rfl (PoolState.schedule_unless rfl rfl)
  | auth commits => exact (commits.punctual true).trans (.resetProfile _ _)
  | apply commits marked =>
      exact (commits.punctual _).trans (.of_eq (State.foldlM_markRetiring_drained marked).pools)

/-! ## Accepted requests -/

/-- An accepted request of this kind forces the runs of the pool with this id. -/
def Request.forces (s : State) (poolId : String) : Request → Prop
  | .stop pool all true => ∃ names name p, Targets s pool all names ∧ name ∈ names ∧
      s.pools[name]? = some p ∧ p.id = poolId
  | .remove pool true => ∃ p, s.pools[pool]? = some p ∧ p.id = poolId
  | _ => False

/-- An accepted request of this kind resets the retry state of the pool. -/
def Request.resets (s : State) (name : String) : Request → Prop
  | .start pool all => ∃ names, Targets s pool all names ∧ name ∈ names
  | .stop pool all true => ∃ names, Targets s pool all names ∧ name ∈ names
  | .remove pool true => pool = name
  | .auth profile _ _ =>
      s.config.pools.any (fun c => c.name == name && c.auth == profile) = true
  | _ => False

theorem Commits.marks {host : Host} {file : Option String} {lo hi : Nat} {s c : State}
    {request : Request} (commits : Commits host file lo hi s request c) : s.Marks c :=
  .of_eq commits.managerId commits.runs

namespace Accepts

variable {host : Host} {file : Option String} {lo hi : Nat} {s t : State}
  {request : Request} {response : Response}

theorem flags (accepts : Accepts host file lo hi s request response t) : s.Flags t := by
  cases accepts with
  | status _ => exact .of_eq rfl
  | add commits => exact .of_eq commits.runs
  | start _ _ => exact .of_eq (State.foldl_start_runs _ s)
  | stop _ => exact State.foldl_stop_flags _ _ s
  | scale commits marked =>
      exact (State.Flags.of_eq commits.runs).trans
        (State.drained_of_markRetiring marked).flags
  | upgrade commits marked =>
      exact (State.Flags.of_eq commits.runs).trans
        (State.drained_of_markRetiring marked).flags
  | remove _ => exact (State.Flags.of_eq rfl).trans (State.retireRuns_flags _ _ _)
  | auth commits => exact .of_eq commits.runs
  | apply commits marked =>
      exact (State.Flags.of_eq commits.runs).trans
        (State.foldlM_markRetiring_drained marked).flags

/-- The header changes only through a commit. -/
theorem header (accepts : Accepts host file lo hi s request response t) :
    t.header = s.header ∨
      ∃ c, Commits host file lo hi s request c ∧ t.header = c.header := by
  cases accepts with
  | status _ => exact .inl rfl
  | add commits => exact .inr ⟨_, commits, rfl⟩
  | start _ _ => exact .inl (State.foldl_header State.start_header _ s)
  | stop _ => exact .inl (State.foldl_header (State.stop_header _) _ s)
  | scale commits marked =>
      exact .inr ⟨_, commits, (State.drained_of_markRetiring marked).header⟩
  | upgrade commits marked =>
      exact .inr ⟨_, commits, (State.drained_of_markRetiring marked).header⟩
  | remove _ => exact .inl rfl
  | auth commits => exact .inr ⟨_, commits, rfl⟩
  | apply commits marked =>
      exact .inr ⟨_, commits, (State.foldlM_markRetiring_drained marked).header⟩

theorem roster (accepts : Accepts host file lo hi s request response t) :
    t.roster = s.roster := by
  cases accepts with
  | status _ => rfl
  | add commits => exact commits.roster
  | start _ _ => exact State.foldl_roster State.start_roster _ s
  | stop _ => exact State.foldl_roster (State.stop_roster _) _ s
  | scale commits marked =>
      exact (State.drained_of_markRetiring marked).roster.trans commits.roster
  | upgrade commits marked =>
      exact (State.drained_of_markRetiring marked).roster.trans commits.roster
  | remove _ => exact State.retireRuns_roster _ _ _
  | auth commits => exact commits.roster
  | apply commits marked =>
      exact (State.foldlM_markRetiring_drained marked).roster.trans commits.roster

theorem marks (accepts : Accepts host file lo hi s request response t) : s.Marks t :=
  ⟨(State.roster_eq_iff.mp accepts.roster).1, accepts.flags⟩

/-- A run becomes forced only through a forced `Stop` or `Remove` of its pool. -/
theorem forced (accepts : Accepts host file lo hi s request response t) {id : String}
    {run' : Run} (found : t.runs[id]? = some run') (forced : run'.force = true) :
    ∃ run, s.runs[id]? = some run ∧ run.poolId = run'.poolId ∧
      (run.force = true ∨ request.forces s run.poolId) := by
  have unchanged {u : State} (runs : u.runs = s.runs) {run : Run}
      (there : u.runs[id]? = some run) (forced : run.force = true)
      (same : run.poolId = run'.poolId) :
      ∃ run, s.runs[id]? = some run ∧ run.poolId = run'.poolId ∧
        (run.force = true ∨ request.forces s run.poolId) :=
    ⟨run, runs ▸ there, same, .inl forced⟩
  have drained {c : State} (runs : c.runs = s.runs) (drained : c.Drained t) :
      ∃ run, s.runs[id]? = some run ∧ run.poolId = run'.poolId ∧
        (run.force = true ∨ request.forces s run.poolId) := by
    obtain ⟨run, there, rfl | rfl⟩ := drained.run found
    · exact unchanged runs there forced rfl
    · exact unchanged runs there forced rfl
  cases accepts with
  | status _ => exact unchanged rfl found forced rfl
  | add commits => exact unchanged commits.runs found forced rfl
  | start _ _ => exact unchanged (State.foldl_start_runs _ s) found forced rfl
  | @stop pool all force names pending targets =>
      obtain ⟨run, there, origin⟩ := State.foldl_stop_force found forced
      have same : run.poolId = run'.poolId := by
        rcases State.foldl_stop_flags force names s id with ⟨none, -⟩ | ⟨_, _, _, old, new⟩
        · simp [none] at there
        · cases found.symm.trans new
          cases there.symm.trans old
          rfl
      refine ⟨run, there, same, origin.imp_right ?_⟩
      rintro ⟨rfl, name, member, p, pool, ofPool⟩
      exact ⟨names, name, p, targets, member, pool, ofPool⟩
  | scale commits marked => exact drained commits.runs (State.drained_of_markRetiring marked)
  | upgrade commits marked =>
      exact drained commits.runs (State.drained_of_markRetiring marked)
  | @remove pool force p pool =>
      rw [State.retireRuns_run] at found
      obtain ⟨run, there, rfl⟩ := Option.map_eq_some_iff.mp found
      refine ⟨run, there, by split <;> rfl, ?_⟩
      split at forced
      · next owned =>
          rcases Bool.or_eq_true_iff.mp forced with old | rfl
          · exact .inl old
          · exact .inr ⟨p, pool, (beq_iff_eq.mp owned).symm⟩
      · exact .inl forced
  | auth commits => exact unchanged commits.runs found forced rfl
  | apply commits marked =>
      exact drained commits.runs (State.foldlM_markRetiring_drained marked)

/-- The deadline of a pool changes only through a request that resets it. -/
theorem schedule (accepts : Accepts host file lo hi s request response t) (le : lo ≤ hi)
    (indexed : s.Indexed) {name : String} {p : PoolState} (found : s.pools[name]? = some p) :
    ∃ p', t.pools[name]? = some p' ∧
      (p'.schedule = p.schedule ∨ p'.retryAt = 0 ∧ request.resets s name) := by
  have committed {request : Request} {c : State}
      (commits : Commits host file lo hi s request c) :
      ∃ p', c.pools[name]? = some p' ∧ p'.schedule = p.schedule := by
    obtain ⟨generation, kept⟩ := (commits.reconfigures le indexed).extends_.kept found
    exact ⟨_, kept, rfl⟩
  cases accepts with
  | status _ => exact ⟨p, found, .inl rfl⟩
  | add commits => exact (committed commits).imp fun _ kept => kept.imp_right .inl
  | @start pool all names targets _ =>
      obtain ⟨p', there, same | ⟨reset, member⟩⟩ := State.foldl_start_schedule names found
      · exact ⟨p', there, .inl same⟩
      · exact ⟨p', there, .inr ⟨reset, names, targets, member⟩⟩
  | @stop pool all force names pending targets =>
      obtain ⟨p', there, same | ⟨reset, rfl, member⟩⟩ :=
        State.foldl_stop_schedule force names found
      · exact ⟨p', there, .inl same⟩
      · exact ⟨p', there, .inr ⟨reset, names, targets, member⟩⟩
  | scale commits marked =>
      rw [(State.drained_of_markRetiring marked).pools]
      exact (committed commits).imp fun _ kept => kept.imp_right .inl
  | upgrade commits marked =>
      rw [(State.drained_of_markRetiring marked).pools]
      exact (committed commits).imp fun _ kept => kept.imp_right .inl
  | @remove pool force q pooled =>
      rw [State.retireRuns_pools, State.setPool_pools, TreeMap.get_insert]
      split
      · next equal =>
          cases equal
          cases found.symm.trans pooled
          cases force with
          | false => exact ⟨_, rfl, .inl rfl⟩
          | true => exact ⟨_, rfl, .inr ⟨rfl, rfl⟩⟩
      · exact ⟨p, found, .inl rfl⟩
  | auth commits =>
      obtain ⟨p', kept, same⟩ := committed commits
      rw [State.resetProfile_pool, kept]
      refine ⟨_, rfl, ?_⟩
      split
      · next resets =>
          refine .inr ⟨rfl, ?_⟩
          cases commits with
          | auth _ _ committed =>
              obtain ⟨-, _, -, rfl⟩ := committed
              exact resets
      · exact .inl same
  | apply commits marked =>
      rw [(State.foldlM_markRetiring_drained marked).pools]
      exact (committed commits).imp fun _ kept => kept.imp_right .inl

theorem sound (accepts : Accepts host file lo hi s request response t) (le : lo ≤ hi)
    (sound : s.Sound) (drawn : s.Drawn host lo) (fresh : Fresh host hi) :
    t.Sound ∧ t.Drawn host hi := by
  cases accepts with
  | status _ => exact ⟨sound, drawn.mono le⟩
  | add commits => exact commits.sound le sound drawn fresh
  | start _ kept =>
      exact ⟨sound.foldl_start kept, (drawn.mono le).of_ids State.foldl_start_ids⟩
  | stop _ => exact ⟨sound.foldl_stop, (drawn.mono le).of_ids State.foldl_stop_ids⟩
  | scale commits marked =>
      obtain ⟨sound, drawn⟩ := commits.sound le sound drawn fresh
      have drained := State.drained_of_markRetiring marked
      exact ⟨sound.drained drained, drawn.of_ids fun {_ p'} found =>
        ⟨p', drained.pools ▸ found, rfl⟩⟩
  | upgrade commits marked =>
      obtain ⟨sound, drawn⟩ := commits.sound le sound drawn fresh
      have drained := State.drained_of_markRetiring marked
      exact ⟨sound.drained drained, drawn.of_ids fun {_ p'} found =>
        ⟨p', drained.pools ▸ found, rfl⟩⟩
  | @remove pool force p found =>
      refine ⟨sound.stop { p with
          running := false
          deleting := true
          retryAt := if force then 0 else p.retryAt } found rfl rfl rfl ?_ force,
        (drawn.mono le).of_ids fun {name p'} there => ?_⟩
      · exact sound.noted_unless found force
      · rw [State.retireRuns_pools, State.setPool_pools, TreeMap.get_insert] at there
        split at there
        · next equal =>
            cases there
            exact ⟨p, equal ▸ found, rfl⟩
        · exact ⟨p', there, rfl⟩
  | auth commits =>
      obtain ⟨sound, drawn⟩ := commits.sound le sound drawn fresh
      refine ⟨sound.resetProfile _, drawn.of_ids fun {name p'} found => ?_⟩
      rw [State.resetProfile_pool] at found
      obtain ⟨p, there, rfl⟩ := Option.map_eq_some_iff.mp found
      refine ⟨p, there, ?_⟩
      split <;> rfl
  | apply commits marked =>
      obtain ⟨sound, drawn⟩ := commits.sound le sound drawn fresh
      have drained := State.foldlM_markRetiring_drained marked
      exact ⟨sound.drained drained, drawn.of_ids fun {_ p'} found =>
        ⟨p', drained.pools ▸ found, rfl⟩⟩

end Accepts

end Runnerctl
