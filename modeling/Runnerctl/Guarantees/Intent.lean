import Runnerctl.Guarantees.Interruption

/-!
# What an accepted request leaves behind

A tick works on clones of runs and on copies of its pool, while requests change the state
under it.  What a mutation left in memory and in the store stands until the next one arrives:
within the pass not even a flag is added to it, and later passes only drain, drop what is
forgotten and finish deletions.
-/

namespace Runnerctl

open Std Program Journal

namespace Moment

/-- A mutating request arrives. -/
def arrives (m : Moment) : Bool :=
  match m.event with
  | .received request => request.mutating
  | _ => false

end Moment

/-! ## Developments -/

/-- The run is what it was, and what was asked of it still is. -/
def Run.Continues (run run' : Run) : Prop :=
  ∃ retiring force, run'.forget =
    { run.forget with retiring := run.retiring || retiring, force := run.force || force }

namespace Run.Continues

variable {run run' run'' : Run}

theorem of_forget (same : run'.forget = run.forget) : run.Continues run' :=
  ⟨false, false, by rw [same, Bool.or_false, Bool.or_false]; rfl⟩

theorem trans (first : run.Continues run') (second : run'.Continues run'') :
    run.Continues run'' := by
  obtain ⟨retiring, force, same⟩ := first
  obtain ⟨retiring', force', same'⟩ := second
  have flags : run'.retiring = (run.retiring || retiring) ∧ run'.force = (run.force || force) :=
    ⟨congrArg Run.retiring same, congrArg Run.force same⟩
  refine ⟨retiring || retiring', force || force', ?_⟩
  rw [same', same, flags.1, flags.2, Bool.or_assoc, Bool.or_assoc]

theorem retiring (continues : run.Continues run') (retiring : run.retiring = true) :
    run'.retiring = true := by
  obtain ⟨_, _, same⟩ := continues
  exact (congrArg Run.retiring same).trans (by simp [retiring])

theorem force (continues : run.Continues run') (forced : run.force = true) :
    run'.force = true := by
  obtain ⟨_, _, same⟩ := continues
  exact (congrArg Run.force same).trans (by simp [forced])

end Run.Continues

namespace State

/-- How passes change a state: pools that are deleting go away, runs are marked and dropped,
and new runs get ids from the answers `lo` to `hi`. -/
structure Develops (host : Host) (lo hi : Nat) (s t : State) : Prop where
  managerId : t.managerId = s.managerId
  auth : t.config.auth = s.config.auth
  manager : t.config.manager = s.config.manager
  pools : ∀ name : String,
    t.pools[name]?.map PoolState.wish = s.pools[name]?.map PoolState.wish ∨
    t.pools[name]? = none ∧ ∃ p, s.pools[name]? = some p ∧ p.deleting = true
  entries : ∀ name : String, t.config.pool? name = s.config.pool? name ∨ t.pools[name]? = none
  runs : ∀ (id : String) (run' : Run), t.runs[id]? = some run' →
    (∃ run, s.runs[id]? = some run ∧ run.Continues run') ∨
      ∃ k, lo ≤ k ∧ k < hi ∧ id = runId s.managerId (host.answers k).uuid

namespace Develops

variable {host : Host} {lo lo' hi hi' : Nat} {s t u : State}

/-- Only what was observed changes. -/
theorem of_wish (same : t.wish = s.wish) : s.Develops host lo hi t := by
  obtain ⟨managerId, -, config, -, pools, runs⟩ := wish_eq_iff.mp same
  refine ⟨managerId, by rw [config], by rw [config], fun name => .inl ?_,
    fun name => .inl (by rw [config]), fun id run' found => .inl ?_⟩
  · exact TreeMap.image_eq_image_iff.mp pools name
  · obtain ⟨run, there, forget⟩ := TreeMap.get_of_image_eq runs found
    exact ⟨run, there, .of_forget forget.symm⟩

theorem of_intent (same : t.intent = s.intent) : s.Develops host lo hi t :=
  .of_wish (wish_of_intent same)

theorem refl (s : State) : s.Develops host lo hi s := .of_wish rfl

theorem gone (develops : s.Develops host lo hi t) {name : String}
    (missing : s.pools[name]? = none) :
    t.pools[name]? = none := by
  rcases develops.pools name with same | ⟨gone, -⟩
  · rw [missing, Option.map_none] at same
    exact Option.map_eq_none_iff.mp same
  · exact gone

theorem trans (first : s.Develops host lo hi t) (second : t.Develops host lo' hi' u)
    (le : lo ≤ lo') (le' : hi ≤ hi') : s.Develops host lo hi' u where
  managerId := second.managerId.trans first.managerId
  auth := second.auth.trans first.auth
  manager := second.manager.trans first.manager
  pools name := by
    rcases second.pools name with same | ⟨gone, q, found, deleting⟩
    · rcases first.pools name with same' | ⟨gone, deleting⟩
      · exact .inl (same.trans same')
      · exact .inr ⟨second.gone gone, deleting⟩
    · refine .inr ⟨gone, ?_⟩
      rcases first.pools name with same | ⟨missing, -⟩
      · rw [found, Option.map_some] at same
        obtain ⟨p, there, wish⟩ := Option.map_eq_some_iff.mp same.symm
        exact ⟨p, there, (congrArg PoolWish.deleting wish).trans deleting⟩
      · cases found.symm.trans missing
  entries name := by
    rcases second.entries name with same | gone
    · rcases first.entries name with same' | gone
      · exact .inl (same.trans same')
      · exact .inr (second.gone gone)
    · exact .inr gone
  runs id run'' found := by
    rcases second.runs id run'' found with
      ⟨run', there, continues⟩ | ⟨k, late, early, built⟩
    · rcases first.runs id run' there with
        ⟨run, there', continues'⟩ | ⟨k, late, early, built⟩
      · exact .inl ⟨run, there', continues'.trans continues⟩
      · exact .inr ⟨k, late, early.trans_le le', built⟩
    · exact .inr ⟨k, le.trans late, early, first.managerId ▸ built⟩

theorem flags (flags : s.Flags t) (managerId : t.managerId = s.managerId)
    (config : t.config = s.config) (pools : t.pools = s.pools) : s.Develops host lo hi t := by
  refine ⟨managerId, by rw [config], by rw [config], fun _ => .inl (by rw [pools]),
    fun _ => .inl (by rw [config]), fun id run' found => .inl ?_⟩
  rcases flags id with ⟨-, none⟩ | ⟨run, retiring, force, there, here⟩
  · cases found.symm.trans none
  · cases found.symm.trans here
    exact ⟨run, there, retiring, force, rfl⟩

theorem setPool {name : String} {p p' : PoolState} (found : s.pools[name]? = some p)
    (same : p'.wish = p.wish) : s.Develops host lo hi (s.setPool name p') :=
  .of_wish (setPool_wish found same)

theorem dropRun {name : String} {p : PoolState} {run : Run}
    (completed : run.completedJob = true → s.pools[name]? = some p) :
    s.Develops host lo hi (s.dropRun name p run) := by
  refine ⟨rfl, rfl, rfl, fun other => .inl ?_, fun _ => .inl rfl, fun id run' there => .inl ?_⟩
  · unfold State.dropRun
    dsimp only
    split
    · next done =>
        rw [TreeMap.get_insert]
        split
        · next same =>
            rw [← same, completed done]
            rfl
        · rfl
    · rfl
  · change (s.runs.erase run.id)[id]? = some run' at there
    rw [TreeMap.get_erase] at there
    split at there
    · cases there
    · exact ⟨run', there, .of_forget rfl⟩

theorem newRun {run : Run} {k : Nat} (late : lo ≤ k) (early : k < hi)
    (built : run.id = runId s.managerId (host.answers k).uuid) :
    s.Develops host lo hi (s.setRun run.id run) := by
  refine ⟨rfl, rfl, rfl, fun _ => .inl rfl, fun _ => .inl rfl, fun id run' found => ?_⟩
  rw [setRun_runs, TreeMap.get_insert] at found
  split at found
  · next same => exact .inr ⟨k, late, early, same ▸ built⟩
  · exact .inl ⟨run', found, .of_forget rfl⟩

/-- A pool that is being deleted goes away. -/
theorem erase {name : String} {p : PoolState} (found : s.pools[name]? = some p)
    (deleting : p.deleting = true) :
    s.Develops host lo hi { s with pools := s.pools.erase name } := by
  refine ⟨rfl, rfl, rfl, fun other => ?_, fun _ => .inl rfl,
    fun id run' there => .inl ⟨run', there, .of_forget rfl⟩⟩
  rw [TreeMap.get_erase]
  split
  · next same => exact .inr ⟨rfl, p, same ▸ found, deleting⟩
  · exact .inl rfl

/-- The entry of a pool that is gone goes away. -/
theorem without {name text : String} (missing : s.pools[name]? = none) :
    s.Develops host lo hi (s.commit (s.config.without name) text) := by
  refine ⟨rfl, rfl, rfl, fun _ => .inl rfl, fun other => ?_,
    fun id run' there => .inl ⟨run', there, .of_forget rfl⟩⟩
  by_cases same : other = name
  · exact .inr (same ▸ missing)
  · exact .inl (Config.pool?_without same)

end Develops

end State

/-! ## Over whole executions -/

/-- `s` is what became of the state that the last mutation left. -/
def Stands (host : Host) (n : Nat) (history : List Moment) (s : State) : Prop :=
  ∀ first m rest, history = first ++ m :: rest → m.mutation = true →
    (∀ m' ∈ rest, m'.arrives = false) →
    ∃ lo ≤ n, m.state.roster.Named host lo ∧ m.state.Develops host lo n s ∧
      ((∀ m' ∈ rest, m'.starts = false) → s.intent = m.state.intent)

section Executions

variable {host : Host} {w w' : World} {n n' : Nat} {history new : List Moment} {m : Moment}
  {s t : State}

theorem disturbed_of_mutation {first rest : List Moment} (mutation : m.mutation = true)
    (quiet : ∀ m' ∈ rest, m'.starts = false) : Disturbed (first ++ m :: rest) := by
  have starts : m.starts = false := by
    rw [Moment.mutation] at mutation
    rw [Moment.starts]
    split <;> simp_all
  refine ⟨m, ?_, mutation⟩
  rw [List.append_cons, currentPass_append quiet, currentPass_concat starts]
  simp

namespace Stands

theorem develops (stands : Stands host n history s) (develops : s.Develops host n n' t)
    (le : n ≤ n') (still : Disturbed history → t.intent = s.intent) :
    Stands host n' history t := by
  rintro first m rest rfl mutation last
  obtain ⟨lo, early, named, developed, intent⟩ := stands first m rest rfl mutation last
  refine ⟨lo, early.trans le, named, developed.trans develops early le, fun quiet => ?_⟩
  exact (still (disturbed_of_mutation mutation quiet)).trans (intent quiet)

theorem mono (stands : Stands host n history s) (le : n ≤ n') : Stands host n' history s :=
  stands.develops (.refl s) le fun _ => rfl

theorem concat (stands : Stands host n history s)
    (answered : m.mutation = true → m.state = s ∧ s.roster.Named host n) :
    Stands host n (history ++ [m]) s := by
  intro first m' rest split mutation last
  rcases List.eq_nil_or_concat rest with rfl | ⟨rest, m'', rfl⟩
  · obtain ⟨rfl, same⟩ := List.append_inj' split rfl
    obtain ⟨rfl, -⟩ := List.cons.inj same
    obtain ⟨state, named⟩ := answered mutation
    exact ⟨n, le_rfl, state ▸ named, state ▸ .refl _, fun _ => by rw [state]⟩
  · rw [List.concat_eq_append, ← List.cons_append, ← List.append_assoc] at split
    obtain ⟨split, -⟩ := List.append_inj' split rfl
    rw [List.concat_eq_append] at last ⊢
    obtain ⟨lo, early, named, developed, intent⟩ := stands first m' rest split mutation
      fun m member => last m (List.mem_append_left _ member)
    exact ⟨lo, early, named, developed,
      fun quiet => intent fun m member => quiet m (List.mem_append_left _ member)⟩

theorem append (stands : Stands host n history s) (calm : ∀ m ∈ new, m.mutation = false) :
    Stands host n (history ++ new) s := by
  induction new generalizing history with
  | nil => rwa [List.append_nil]
  | cons m rest inductionHypothesis =>
      rw [List.forall_mem_cons] at calm
      rw [List.append_cons]
      refine inductionHypothesis (stands.concat fun mutation => ?_) calm.2
      cases mutation.symm.trans calm.1

/-- Once another mutation has arrived, nothing is said until it was handled. -/
theorem of_arrival (arrives : m.arrives = true) (calm : ∀ m' ∈ new, m'.mutation = false)
    (s : State) : Stands host n (history ++ m :: new) s := by
  intro first m' rest split mutation last
  have unmoved : m.mutation = false := by
    rw [Moment.arrives] at arrives
    rw [Moment.mutation]
    split <;> simp_all
  rcases split_append split with ⟨tail, -, rfl⟩ | ⟨tail, -, split⟩
  · cases arrives.symm.trans (last m (by simp))
  · have member : m' ∈ m :: new := split ▸ List.mem_append_right _ List.mem_cons_self
    rcases List.mem_cons.mp member with rfl | member
    · cases mutation.symm.trans unmoved
    · cases mutation.symm.trans (calm m' member)

end Stands

/-- A pool whose deletion began last is gone from memory. -/
def World.Finalised (w : World) : Prop :=
  ∀ (before : List Moment) (m : Moment) (name : String), w.history = before ++ [m] →
    m.event = .finalising name → w.engine.state.pools[name]? = none

theorem World.Finalised.same (finalised : w.Finalised) (history : w'.history = w.history)
    (gone : ∀ name : String, w.engine.state.pools[name]? = none →
      w'.engine.state.pools[name]? = none) : w'.Finalised :=
  fun before m name last event => gone name (finalised before m name (history ▸ last) event)

theorem World.Finalised.of_last {before : List Moment} (history : w.history = before ++ [m])
    (other : m.deletes = false) : w.Finalised := by
  intro before' m' name last event
  obtain ⟨-, same⟩ := List.append_inj' (last.symm.trans history) rfl
  obtain ⟨rfl, -⟩ := List.cons.inj same
  rw [Moment.deletes, event] at other
  cases other

theorem Step.finalised (step : Step host w w') (finalised : w.Finalised) : w'.Finalised := by
  have insert {name : String} {p p' : PoolState} (found : w.engine.state.pools[name]? = some p)
      (other : String) (missing : w.engine.state.pools[other]? = none) :
      (w.engine.state.pools.insert name p')[other]? = none := by
    rw [TreeMap.get_insert]
    split
    · next same =>
        rw [same, missing] at found
        cases found
    · exact missing
  cases step with
  | silent state _ _ history => exact finalised.same history fun name gone => state ▸ gone
  | leave | observe | forget => exact finalised.same rfl fun _ => id
  | drain _ drained => exact finalised.same rfl fun name gone => drained.pools ▸ gone
  | note _ _ found => exact finalised.same rfl (insert found)
  | serve _ served =>
      obtain ⟨inner, result, history, -⟩ := served.outcome
      exact .of_last history rfl
  | log plain =>
      rename_i event
      refine .of_last rfl ?_
      cases event <;> first | rfl | cases plain
  | @delete name =>
      intro before m other last event
      have last : w.history ++ [w.moment (.finalising name)] = before ++ [m] := last
      obtain ⟨-, same⟩ := List.append_inj' last rfl
      obtain ⟨rfl, -⟩ := List.cons.inj same
      cases event
      exact TreeMap.get_erase_self _ _
  | enter | edit | begin | fail | save | drop | record | commit | write =>
      exact .of_last rfl rfl

/-- Apart from mutating requests, a step develops memory, and saves what is there.  Once the
pass was disturbed, it leaves memory as it is, but for what was observed. -/
theorem Step.develops (step : Step host w w') (finalised : w.Finalised)
    (restored : Restored w'.history) (fresh : Fresh host w'.asked) :
    (∃ polled request, Ready host w ∧ Served host polled request w w' ∧
        request.mutating = true) ∨
      w.engine.state.Develops host w.asked w'.asked w'.engine.state ∧
        (Disturbed w.history → w'.engine.state.intent = w.engine.state.intent) ∧
        (w'.store = w.store ∨ w'.store = some w'.engine.state) := by
  have advances := step.advances
  have before : Restored w.history := fun m member => restored m (advances.history.subset member)
  have kept (same : w'.engine.state.intent = w.engine.state.intent)
      (store : w'.store = w.store ∨ w'.store = some w'.engine.state) :
      w.engine.state.Develops host w.asked w'.asked w'.engine.state ∧
        (Disturbed w.history → w'.engine.state.intent = w.engine.state.intent) ∧
        (w'.store = w.store ∨ w'.store = some w'.engine.state) :=
    ⟨.of_intent same, fun _ => same, store⟩
  have calm {P : Prop} (undisturbed : Undisturbed (currentPass w.history)) :
      Disturbed w.history → P :=
    fun disturbed => absurd disturbed
      (undisturbed.not_disturbed (restored_currentPass before))
  cases step with
  | silent state store => exact .inr (kept (by rw [state]) (.inl store))
  | enter | leave | log | edit | begin | write => exact .inr (kept rfl (.inl rfl))
  | save => exact .inr (kept rfl (.inr rfl))
  | serve ready served =>
      rename_i polled request
      cases mutating : request.mutating with
      | true => exact .inl ⟨polled, request, ready, served, mutating⟩
      | false =>
          have epoch := served.epoch_eq fun new history =>
            (restored_append.mp (history ▸ restored)).2
          rw [mutating, if_neg Bool.false_ne_true, Nat.add_zero] at epoch
          refine .inr (kept (served.intent ready restored epoch) ?_)
          obtain ⟨inner, result, history, -, outcome⟩ := served.outcome
          cases outcome with
          | accepted _ store =>
              rw [mutating, if_neg Bool.false_ne_true] at store
              exact .inl store
          | rejected store => exact .inr store
          | unread failed => exact absurd restored (Served.unrestored history failed)
  | observe found _ forget =>
      exact .inr (kept (State.setRun_intent found (forget before)) (.inl rfl))
  | forget poolId => exact .inr (kept (State.forgetPhases_intent _ poolId) (.inl rfl))
  | drain undisturbed drained =>
      exact .inr ⟨.flags drained.flags drained.managerId drained.config drained.pools,
        calm undisturbed, .inl rfl⟩
  | note _ undisturbed found noted =>
      exact .inr ⟨.setPool found noted.wish, calm undisturbed, .inl rfl⟩
  | fail _ undisturbed _ found =>
      exact .inr ⟨.setPool found rfl, calm undisturbed, .inl rfl⟩
  | drop undisturbed _ _ _ _ _ completed =>
      exact .inr ⟨.dropRun fun done => (completed done).2.1, calm undisturbed, .inl rfl⟩
  | record undisturbed _ built =>
      exact .inr ⟨.newRun le_rfl (Nat.lt_add_of_pos_right (Nat.succ_pos 1)) built,
        calm undisturbed, .inl rfl⟩
  | delete undisturbed _ deletable =>
      obtain ⟨p, found, deleting, -⟩ := deletable before fresh
      exact .inr ⟨.erase found deleting, calm undisturbed, .inl rfl⟩
  | commit undisturbed _ last committed =>
      obtain ⟨before', m, history, event⟩ := last
      obtain ⟨-, text, -, rfl⟩ := committed
      exact .inr ⟨.without (finalised before' m _ history event), calm undisturbed, .inr rfl⟩

theorem mutation_of_between (between : m.event.between = true) : m.mutation = false := by
  rw [Moment.mutation]
  split <;> simp_all [Event.between, Event.inner]

/-- Only a mutating request adds a moment of a mutation. -/
theorem Step.calm (step : Step host w w')
    (mutates : ¬ ∃ polled request, Ready host w ∧ Served host polled request w w' ∧
      request.mutating = true) :
    ∃ new, w'.history = w.history ++ new ∧ ∀ m ∈ new, m.mutation = false := by
  rcases step.moments with same | ⟨m, history, -⟩ | ⟨polled, request, ready, served⟩
  · exact ⟨[], by simpa using same, by simp⟩
  · refine ⟨[m], history, List.forall_mem_singleton.mpr ?_⟩
    have guarded := step.guarded history
    rw [Moment.Guarded] at guarded
    rw [Moment.mutation]
    split
    · next event =>
        rw [event] at guarded
        exact guarded.elim
    · rfl
  · obtain ⟨inner, result, history, between, -⟩ := served.outcome
    refine ⟨_, history.trans (List.append_assoc ..), ?_⟩
    have readonly : request.mutating = false := by
      simpa using fun mutating => mutates ⟨polled, request, ready, served, mutating⟩
    intro m member
    simp only [List.mem_append, List.mem_cons, List.not_mem_nil, or_false] at member
    rcases member with (rfl | member) | rfl
    · rfl
    · exact mutation_of_between (between m member)
    · exact readonly

/-- What the last mutation left still stands, in memory and in the store. -/
structure Standing (host : Host) (w : World) : Prop where
  finalised : w.Finalised
  memory : Restored w.history → Fresh host w.asked →
    Stands host w.asked w.history w.engine.state
  stored : Restored w.history → Fresh host w.asked → ∀ t, w.store = some t →
    Stands host w.asked w.history t

theorem Served.standing (ready : Ready host w) {polled : Bool} {request : Request}
    (served : Served host polled request w w') (mutating : request.mutating = true) :
    Standing host w' := by
  obtain ⟨inner, result, history, between, outcome⟩ := served.outcome
  have calm : ∀ m ∈ inner, m.mutation = false :=
    fun m member => mutation_of_between (between m member)
  have stands (state : State) (same : state = w'.engine.state) :
      Stands host w'.asked w'.history state := by
    rw [history, same]
    refine (Stands.of_arrival (m := w.moment (.received request)) mutating calm _).concat
      fun _ => ⟨rfl, (served.ready ready).named⟩
  refine ⟨.of_last history rfl, fun _ _ => stands _ rfl, fun restored _ t stored => stands t ?_⟩
  cases outcome with
  | accepted _ store =>
      rw [if_pos mutating] at store
      exact Option.some.inj (stored.symm.trans store)
  | rejected store => exact Option.some.inj (stored.symm.trans store)
  | unread failed => exact absurd restored (Served.unrestored history failed)

theorem Standing.step (standing : Standing host w) (step : Step host w w') :
    Standing host w' := by
  by_cases mutates : ∃ polled request, Ready host w ∧ Served host polled request w w' ∧
      request.mutating = true
  · obtain ⟨_, _, ready, served, mutating⟩ := mutates
    exact served.standing ready mutating
  have advances := step.advances
  have before (restored : Restored w'.history) : Restored w.history :=
    fun m member => restored m (advances.history.subset member)
  have later {state : State} (stands : Stands host w'.asked w.history state) :
      Stands host w'.asked w'.history state := by
    obtain ⟨new, history, calm⟩ := step.calm mutates
    exact history ▸ stands.append calm
  refine ⟨step.finalised standing.finalised, fun restored fresh => ?_,
    fun restored fresh t stored => ?_⟩
  · obtain ⟨develops, still, -⟩ :=
      (step.develops standing.finalised restored fresh).resolve_left mutates
    have stands := standing.memory (before restored) (fresh.mono advances.asked)
    exact later (stands.develops develops advances.asked still)
  · obtain ⟨develops, still, same | saved⟩ :=
      (step.develops standing.finalised restored fresh).resolve_left mutates
    · have stands := standing.stored (before restored) (fresh.mono advances.asked) t
        (same ▸ stored)
      exact later (stands.mono advances.asked)
    · have stands := standing.memory (before restored) (fresh.mono advances.asked)
      rw [Option.some.inj (stored.symm.trans saved)]
      exact later (stands.develops develops advances.asked still)

theorem standing_invariant (host : Host) : Invariant host (Standing host)
    (fun n history store => Restored history → Fresh host n → ∀ t, store = some t →
      Stands host n history t) where
  start {text after} installed := by
    obtain ⟨read, saved, history, readEvent, -, -, savedEvent, -⟩ := installed.history
    have stands (state : State) : Stands host after.asked after.history state := by
      intro first m rest split mutation
      have member : m ∈ after.history := by simp [split]
      rw [Moment.mutation] at mutation
      rw [history] at member
      simp only [List.mem_cons, List.not_mem_nil, or_false] at member
      rcases member with rfl | rfl | rfl
      · simp [readEvent] at mutation
      · simp [savedEvent] at mutation
      · cases mutation
    have last : after.history = [read, saved] ++ [after.moment .opened] := history
    exact ⟨.of_last last rfl, fun _ _ => stands _, fun _ _ t _ => stands t⟩
  step standing step := standing.step step
  survives standing := standing.stored
  served {w request n new store} standing ready handling := by
    intro restored fresh t stored
    obtain ⟨inner, rfl, between⟩ := handling.arrived
    have before := (restored_append.mp restored).1
    have calm : ∀ m ∈ inner, m.mutation = false :=
      fun m member => mutation_of_between (between m member)
    cases mutating : request.mutating with
    | true => exact .of_arrival (m := w.moment (.received request)) mutating calm t
    | false =>
        have fresh' := fresh.mono handling.asked
        have calm : ∀ m ∈ w.moment (.received request) :: inner, m.mutation = false :=
          List.forall_mem_cons.mpr ⟨rfl, calm⟩
        rcases handling.storable with same | ⟨s, same, commits | ⟨response, accepts⟩⟩
        · exact ((standing.stored before fresh' t (same ▸ stored)).mono
            handling.asked).append calm
        · cases mutating.symm.trans commits.mutating
        · cases stored.symm.trans same
          rw [accepts.readonly mutating]
          exact ((standing.memory before fresh').mono handling.asked).append calm
  mono stands le restored fresh t stored := (stands restored (fresh.mono le) t stored).mono le
  reopen {w t} effect stands stored := by
    have stands (restored : Restored (w.reopened host effect t).history)
        (fresh : Fresh host (w.asked + 1)) :
        Stands host (w.asked + 1) (w.reopened host effect t).history t := by
      simp only [World.reopened, World.log_history, World.advance_history] at restored ⊢
      rw [List.append_assoc] at restored ⊢
      refine ((stands (restored_append.mp restored).1 (fresh.mono (Nat.le_succ _)) t
        stored).mono (Nat.le_succ _)).append ?_
      simp [Moment.mutation]
    refine ⟨.of_last (World.log_history ..) rfl, stands, fun restored fresh t' stored' => ?_⟩
    cases stored.symm.trans stored'
    exact stands restored fresh

/-- The pool is stopped while the container of its run is created. -/
def Host.halted : Host :=
  .scripted [.sample [.sample "a" 1]] fun n answers =>
    if n = 25 then { answers with during := [.request (.stop (some "a") false false)] }
    else answers

end Executions

end Runnerctl
