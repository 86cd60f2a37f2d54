import Runnerctl.Metatheory.Scripts
import Runnerctl.Metatheory.Timing

/-!
# Retry deadlines

A deadline was set by a recorded failure, at most ten minutes ahead.  A further failure does
not bring it forward, because the delay grows with the number of failures; a completed job
that resets the number while the deadline is pending breaks this.
-/

namespace Runnerctl

open Std Program Journal

/-! ## Delays -/

theorem retryDelay_le (failures jitter : Nat) : retryDelay failures jitter ≤ maxRetrySeconds :=
  Nat.min_le_right _ _

/-- A further failure delays the pool at least as long, whatever the dice say. -/
theorem retryDelay_grows {failures jitter jitter' : Nat} (some : 0 < failures)
    (small : jitter ≤ 6) :
    retryDelay failures jitter ≤ retryDelay (min (failures + 1) (2 ^ 32 - 1)) jitter' := by
  unfold retryDelay maxRetrySeconds
  dsimp only
  rcases Nat.lt_or_ge failures 7 with few | many
  · have next : min (min (failures + 1) (2 ^ 32 - 1)) 7 = failures + 1 := by omega
    have doubles : 2 ^ (failures + 1) = 2 ^ failures * 2 := Nat.pow_succ 2 failures
    have two : 2 ^ 1 ≤ 2 ^ failures := Nat.pow_le_pow_right (by decide) some
    rw [next, Nat.min_eq_left few.le, doubles]
    omega
  · have next : min (min (failures + 1) (2 ^ 32 - 1)) 7 = 7 := by omega
    rw [next, Nat.min_eq_right many]
    omega

theorem retryDelay_mono {failures jitter : Nat} (small : jitter ≤ 6) :
    retryDelay failures jitter ≤ retryDelay failures 6 := by
  unfold retryDelay
  dsimp only
  omega

/-! ## Where deadlines come from -/

/-- The moment drops a run with a completed job, and leaves the pool, whose deadline is
`deadline`, without failures. -/
def Moment.Forgives (name : String) (deadline : Nat) (m : Moment) : Prop :=
  ∃ run interrupted q, m.event = .droppedRun run interrupted ∧ run.completedJob = true ∧
    m.state.pools[name]? = some q ∧ q.failures = 0 ∧ q.retryAt = deadline

/-- A failure of the pool was recorded. -/
def Moment.Fails (name : String) (m : Moment) : Prop := ∃ scope, m.event = .failed name scope

/-- The pool was drawn from the first `n` answers.  Its deadline was set by a failure, with
the delay of its failures unless a completed job has reset them since. -/
structure Due (host : Host) (n : Nat) (history : List Moment) (name : String) (p : PoolState) :
    Prop where
  drawn : ∃ k < n, p.id = (host.answers k).uuid.text
  deadline : p.retryAt = 0 ∨ ∃ m ∈ history, m.Fails name ∧
    p.retryAt ≤ m.clock + maxRetrySeconds ∧
      (0 < p.failures ∧ p.retryAt ≤ m.clock + retryDelay p.failures 6 ∨
        ∃ d ∈ history, d.Forgives name p.retryAt)

/-- The deadlines of all pools of a state were set by failures. -/
def AllDue (host : Host) (n : Nat) (history : List Moment) (s : State) : Prop :=
  ∀ (name : String) (p : PoolState), s.pools[name]? = some p → Due host n history name p

section Due

variable {host : Host} {n n' lo hi : Nat} {s t : State} {history history' : List Moment}

theorem Due.of_schedule {name : String} {p q : PoolState} (due : Due host n history name p)
    (id : q.id = p.id) (same : q.schedule = p.schedule) : Due host n history name q := by
  obtain ⟨retryAt, failures⟩ := Prod.ext_iff.mp same
  change q.retryAt = p.retryAt at retryAt
  change q.failures = p.failures at failures
  refine ⟨id ▸ due.drawn, ?_⟩
  rw [retryAt, failures]
  exact due.deadline

theorem Due.reset {name : String} {p q : PoolState} (due : Due host n history name p)
    (id : q.id = p.id) (reset : q.retryAt = 0) : Due host n history name q :=
  ⟨id ▸ due.drawn, .inl reset⟩

theorem Due.mono {name : String} {p : PoolState} (due : Due host n history name p)
    (le : n ≤ n') (grows : history ⊆ history') : Due host n' history' name p where
  drawn := due.drawn.imp fun _ ⟨small, id⟩ => ⟨small.trans_le le, id⟩
  deadline := due.deadline.imp_right fun ⟨m, member, fails, bound, cause⟩ =>
    ⟨m, grows member, fails, bound, cause.imp_right fun ⟨d, dropped, forgives⟩ =>
      ⟨d, grows dropped, forgives⟩⟩

theorem AllDue.mono (due : AllDue host n history s) (le : n ≤ n') (grows : history ⊆ history') :
    AllDue host n' history' s :=
  fun name p found => (due name p found).mono le grows

theorem AllDue.of_pools (due : AllDue host n history s) (same : t.pools = s.pools) :
    AllDue host n history t :=
  fun name p found => due name p (same ▸ found)

theorem AllDue.insert (due : AllDue host n history s) {name : String} {p : PoolState}
    (here : Due host n history name p) (same : t.pools = s.pools.insert name p) :
    AllDue host n history t := by
  intro other q found
  rw [same, TreeMap.get_insert] at found
  split at found
  · next equal =>
      cases found
      exact equal ▸ here
  · exact due other q found

theorem AllDue.punctual {pardoned : Bool} (due : AllDue host n history s) (le : n ≤ hi)
    (punctual : Punctual host lo hi pardoned s.pools t.pools) : AllDue host hi history t := by
  intro name q found
  rcases punctual name q found with ⟨k, -, high, id, reset⟩ | ⟨p, there, id, same⟩
  · exact ⟨⟨k, high, id⟩, .inl reset⟩
  · have before := (due name p there).mono le (List.Subset.refl history)
    exact same.elim (before.of_schedule id) fun ⟨reset, _⟩ => before.reset id reset

/-- A recorded failure sets a deadline. -/
theorem Due.failed {name error : String} {scope : RetryScope} {p : PoolState}
    {at_ jitter : Nat} {m : Moment} (due : Due host n history name p) (fails : m.Fails name)
    (clock : at_ ≤ m.clock) (small : jitter ≤ 6) :
    Due host n (history ++ [m]) name (p.failed scope error at_ jitter) := by
  refine ⟨due.drawn, .inr ⟨m, List.mem_append_right _ (List.mem_singleton_self m), fails, ?_,
    .inl ⟨?_, ?_⟩⟩⟩
  · exact Nat.add_le_add clock (retryDelay_le _ _)
  · exact Nat.lt_min.mpr ⟨Nat.succ_pos _, by decide⟩
  · exact Nat.add_le_add clock (retryDelay_mono small)

/-- A dropped run leaves the deadlines, and resets the failures of its pool at most. -/
theorem AllDue.dropRun (due : AllDue host n history s) {name : String} {p : PoolState}
    {run : Run} {interrupted : Bool} {m : Moment}
    (dropped : m.event = .droppedRun run interrupted) (state : m.state = s.dropRun name p run)
    (completed : run.completedJob = true → s.pools[name]? = some p) :
    AllDue host n (history ++ [m]) (s.dropRun name p run) := by
  have grown : AllDue host n (history ++ [m]) s :=
    due.mono le_rfl (List.subset_append_left _ _)
  cases done : run.completedJob with
  | false => exact grown.of_pools (by simp [State.dropRun, done])
  | true =>
      have pools : (s.dropRun name p run).pools =
          s.pools.insert name { p with failures := 0 } := by
        simp [State.dropRun, done]
      have before := grown name p (completed done)
      refine grown.insert (p := { p with failures := 0 }) ⟨before.drawn, ?_⟩ pools
      refine before.deadline.imp_right fun failed => ?_
      obtain ⟨f, member, fails, bound, _⟩ := failed
      refine ⟨f, member, fails, bound, .inr
        ⟨m, List.mem_append_right _ (List.mem_singleton_self m), ?_⟩⟩
      refine ⟨run, interrupted, { p with failures := 0 }, dropped, done, ?_, rfl, rfl⟩
      rw [state, pools]
      exact TreeMap.get_insert_self _ _ _

end Due

/-! ## Over whole executions -/

/-- The deadlines in memory and in the store were set by failures. -/
structure Scheduled (host : Host) (w : World) : Prop where
  memory : AllDue host w.asked w.history w.engine.state
  stored : ∀ t, w.store = some t → AllDue host w.asked w.history t

section Executions

variable {host : Host} {w w' : World} {n : Nat}

/-- What a request can store delays no pool. -/
theorem Storable.punctual {request : Request} {store : Option State}
    (storable : Storable host request w n store) : store = w.store ∨ ∃ s, store = some s ∧
      Punctual host w.asked n request.pardons w.engine.state.pools s.pools := by
  refine storable.imp_right fun ⟨s, stored, origin⟩ => ⟨s, stored, ?_⟩
  rcases origin with commits | ⟨_, accepts⟩
  · exact commits.punctual _
  · exact accepts.punctual

/-- A request leaves in memory what it found, up to resets, or what the store holds then. -/
theorem Served.punctual {polled : Bool} {request : Request}
    (served : Served host polled request w w') :
    Punctual host w.asked w'.asked request.pardons w.engine.state.pools
      w'.engine.state.pools ∨ w'.store = some w'.engine.state := by
  obtain ⟨inner, result, -, -, outcome⟩ := served.outcome
  cases outcome with
  | accepted accepts => exact .inl accepts.punctual
  | rejected saved => exact .inr saved
  | unread _ _ punctual => exact .inl punctual

theorem Scheduled.storable (scheduled : Scheduled host w) {request : Request}
    {store : Option State} (storable : Storable host request w n store) (le : w.asked ≤ n)
    {history : List Moment} (grows : w.history ⊆ history) {t : State}
    (stored : store = some t) : AllDue host n history t := by
  rcases storable.punctual with same | ⟨s, same, punctual⟩
  · exact (scheduled.stored t (same ▸ stored)).mono le grows
  · cases same.symm.trans stored
    exact (scheduled.memory.mono le_rfl grows).punctual le punctual

theorem Scheduled.served (scheduled : Scheduled host w) {polled : Bool} {request : Request}
    (served : Served host polled request w w') : Scheduled host w' := by
  have grows : w.history ⊆ w'.history := served.history.isPrefix.subset
  have stored (t : State) (stored : w'.store = some t) : AllDue host w'.asked w'.history t :=
    scheduled.storable served.store served.asked grows stored
  refine ⟨?_, stored⟩
  rcases served.punctual with punctual | saved
  · exact (scheduled.memory.mono le_rfl grows).punctual served.asked punctual
  · exact stored _ saved

/-- Every deadline was set by a failure. -/
theorem scheduled_invariant (host : Host) :
    Invariant host (Scheduled host) fun n history store =>
      ∀ t, store = some t → AllDue host n history t where
  start {text after} installed := by
    have due : AllDue host after.asked after.history after.engine.state := fun name p found => by
      obtain ⟨k, _, -, small, rfl⟩ := installed.pools.added found (by simp)
      exact ⟨⟨k, small, rfl⟩, .inl rfl⟩
    refine ⟨due, fun t stored => ?_⟩
    cases installed.store.symm.trans stored
    exact due
  step {w w'} scheduled step := by
    have grows := step.advances.history.subset
    have asked := step.advances.asked
    have grown := scheduled.memory.mono asked grows
    have memory (pools : w'.engine.state.pools = w.engine.state.pools) :
        AllDue host w'.asked w'.history w'.engine.state := grown.of_pools pools
    have stored (same : w'.store = w.store) (t : State) (there : w'.store = some t) :
        AllDue host w'.asked w'.history t :=
      (scheduled.stored t (same ▸ there)).mono asked grows
    cases step with
    | silent state store => exact ⟨memory (by rw [state]), stored store⟩
    | serve _ served => exact scheduled.served served
    | drain _ drained => exact ⟨memory drained.pools, stored rfl⟩
    | enter | leave | log | edit | begin | observe | forget | record | write =>
        exact ⟨memory rfl, stored rfl⟩
    | note _ _ found noted =>
        refine ⟨scheduled.memory.insert ?_ rfl, stored rfl⟩
        have due := scheduled.memory _ _ found
        cases noted with
        | observed => exact due.of_schedule rfl rfl
        | cleared => exact due.reset rfl rfl
    | fail _ _ _ found small _ _ =>
        refine ⟨grown.insert ?_ rfl, stored rfl⟩
        exact ((scheduled.memory _ _ found).mono asked (List.Subset.refl _)).failed ⟨_, rfl⟩
          (Nat.le_add_right ..) small
    | save => exact ⟨memory rfl, fun t there => by cases there; exact memory rfl⟩
    | drop _ _ _ _ _ _ completed =>
        exact ⟨scheduled.memory.dropRun rfl rfl fun done => (completed done).2.1, stored rfl⟩
    | delete =>
        refine ⟨fun other p found => ?_, stored rfl⟩
        rw [World.setState_state, TreeMap.get_erase] at found
        split at found
        · exact nomatch found
        · exact grown other p found
    | commit _ _ _ committed =>
        obtain ⟨-, text, -, rfl⟩ := committed
        exact ⟨memory rfl, fun t there => by cases there; exact memory rfl⟩
  survives scheduled := scheduled.stored
  served scheduled _ handling t stored :=
    scheduled.storable handling.storable handling.asked (List.subset_append_left _ _) stored
  mono durable le t stored := (durable t stored).mono le (List.Subset.refl _)
  reopen {w t} effect durable stored := by
    have due : AllDue host (w.reopened host effect t).asked
        (w.reopened host effect t).history t := by
      refine (durable t stored).mono (Nat.le_succ _) ?_
      simp only [World.reopened, World.log_history, World.advance_history]
      rw [List.append_assoc]
      exact List.subset_append_left _ _
    refine ⟨due, fun t' there => ?_⟩
    cases stored.symm.trans there
    exact due

/-! ## Between turns -/

/-- A pool that was drawn before is not one that was drawn since. -/
theorem Fresh.apart {id : String} {k hi : Nat} (fresh : Fresh host hi)
    (drawn : ∃ k < n, id = (host.answers k).uuid.text) (later : n ≤ k) (small : k < hi) :
    id ≠ (host.answers k).uuid.text := by
  rintro rfl
  obtain ⟨k', before, same⟩ := drawn
  have equal := fresh k small k' (by omega) (Uuid.eq_of_text same)
  omega

/-- No pool in memory is delayed beyond what is stored of it. -/
def Lags (w : World) : Prop :=
  ∀ t, w.store = some t → ∀ (name : String) (p q : PoolState),
    w.engine.state.pools[name]? = some p → t.pools[name]? = some q → p.id = q.id →
      p.retryAt ≤ q.retryAt

theorem Lags.of_saved (saved : w.store = some w.engine.state) : Lags w := by
  intro t stored name p q found found' _
  cases saved.symm.trans stored
  cases found.symm.trans found'
  exact le_rfl

theorem Lags.of_eq (lags : Lags w) (state : w'.engine.state = w.engine.state)
    (store : w'.store = w.store) : Lags w' := by
  rw [Lags, state, store]
  exact lags

/-- A request leaves memory behind the store. -/
theorem Lags.served (lags : Lags w) (scheduled : Scheduled host w)
    (fresh : Fresh host w'.asked) {polled : Bool} {request : Request}
    (served : Served host polled request w w') : Lags w' := by
  obtain ⟨inner, result, -, -, outcome⟩ := served.outcome
  cases outcome with
  | accepted accepts saved =>
      split at saved
      · exact .of_saved saved
      · next readonly =>
          exact lags.of_eq (accepts.readonly (by simpa using readonly)) saved
  | rejected saved => exact .of_saved saved
  | unread _ _ punctual unanswered _ =>
      intro t stored name p q found found' sameId
      -- a pool in memory is new, or it is one that was there before, up to a reset
      obtain due | ⟨p₀, found₀, id, le⟩ : p.retryAt = 0 ∨ ∃ p₀,
          w.engine.state.pools[name]? = some p₀ ∧ p.id = p₀.id ∧
            p.retryAt ≤ p₀.retryAt := by
        refine (punctual name p found).imp (fun ⟨_, _, _, _, due⟩ => due)
          fun ⟨p₀, found₀, id, same⟩ => ⟨p₀, found₀, id, ?_⟩
        exact same.elim (fun same => (congrArg Prod.fst same).le)
          fun ⟨reset, _⟩ => reset.le.trans (Nat.zero_le _)
      · exact due.le.trans (Nat.zero_le _)
      refine le.trans ?_
      rcases unanswered with ⟨kept, -⟩ | ⟨c, stored', -, commits, -⟩
      · exact lags t (kept ▸ stored) name p₀ q found₀ found' (id.symm.trans sameId)
      · cases stored.symm.trans stored'
        rcases commits.punctual false name q found' with
          ⟨k, low, high, drawn, -⟩ | ⟨p₁, found₁, -, same | ⟨-, pardoned⟩⟩
        · exact absurd (id.symm.trans (sameId.trans drawn))
            (fresh.apart (scheduled.memory name p₀ found₀).drawn low high)
        · cases found₀.symm.trans found₁
          exact (congrArg Prod.fst same).ge
        · exact nomatch pardoned

/-- Between turns memory is behind the store. -/
theorem Reachable.lags (reachable : Reachable host w) (fresh : Fresh host w.asked) :
    Lags w := by
  induction reachable with
  | start opened => exact .of_saved (openEngine_of_install opened).store
  | @request before after request reachable run inductionHypothesis =>
      have served := (serveRequest_meets host true request before).returned run
      exact (inductionHypothesis (fresh.mono served.asked)).served
        ((scheduled_invariant host).reachable reachable) fresh served
  | @tick before after reachable run inductionHypothesis =>
      obtain ⟨ready, idle⟩ := reachable.ready
      cases (tick_meets ready idle).returned run with
      | idle steps _ _ _ state store =>
          exact (inductionHypothesis (fresh.mono (Steps.advances steps).asked)).of_eq state store
      | passed _ concludes => exact .of_saved concludes.stored
  | edit text _ inductionHypothesis => exact (inductionHypothesis fresh).of_eq rfl rfl
  | restart reachable turn crash opened =>
      obtain ⟨ready, idle⟩ := reachable.ready
      obtain ⟨left, effect, rfl, t, stored, -⟩ :=
        (storing_invariant host).crash ready.storing ready idle turn crash
      cases openEngine_of_store (w := left.log (.crashed effect)) stored opened
      exact .of_saved stored

/-! ## During a tick -/

/-- The deadline of the pool, if it is there, is not before `deadline`. -/
def Awaits (name id : String) (deadline : Nat) (s : State) : Prop :=
  ∀ p, s.pools[name]? = some p → p.id = id → deadline ≤ p.retryAt

/-- In memory and in the store the deadline of the pool is not before `deadline`. -/
structure Pends (name id : String) (deadline : Nat) (w : World) : Prop where
  memory : Awaits name id deadline w.engine.state
  stored : ∀ t, w.store = some t → Awaits name id deadline t

section Pending

variable {name id : String} {deadline : Nat}

theorem Awaits.of_pools {s t : State} (awaits : Awaits name id deadline s)
    (same : t.pools = s.pools) : Awaits name id deadline t :=
  fun p found => awaits p (same ▸ found)

theorem Awaits.insert {s t : State} (awaits : Awaits name id deadline s) {other : String}
    {q : PoolState} (here : other = name → q.id = id → deadline ≤ q.retryAt)
    (same : t.pools = s.pools.insert other q) : Awaits name id deadline t := by
  intro p found
  rw [same, TreeMap.get_insert] at found
  split at found
  · next equal =>
      cases found
      exact here equal
  · exact awaits p found

theorem Awaits.punctual {lo hi : Nat} {s t : State} (awaits : Awaits name id deadline s)
    (punctual : Punctual host lo hi false s.pools t.pools)
    (drawn : ∃ k < lo, id = (host.answers k).uuid.text) (fresh : Fresh host hi) :
    Awaits name id deadline t := by
  intro q found sameId
  rcases punctual name q found with
    ⟨k, low, high, new, -⟩ | ⟨p, there, kept, same | ⟨-, pardoned⟩⟩
  · exact absurd (sameId.symm.trans new) (fresh.apart drawn low high)
  · exact (awaits p there (kept.symm.trans sameId)).trans_eq (congrArg Prod.fst same).symm
  · exact nomatch pardoned

/-- A request that pardons nothing brings no deadline forward. -/
theorem Pends.served (pends : Pends name id deadline w) {polled : Bool} {request : Request}
    (served : Served host polled request w w') (unpardoned : request.pardons = false)
    (drawn : ∃ k < w.asked, id = (host.answers k).uuid.text) (fresh : Fresh host w'.asked) :
    Pends name id deadline w' := by
  have stored (t : State) (stored : w'.store = some t) : Awaits name id deadline t := by
    rcases served.store.punctual with same | ⟨s, same, punctual⟩
    · exact pends.stored t (same ▸ stored)
    · cases same.symm.trans stored
      exact pends.memory.punctual (unpardoned ▸ punctual) drawn fresh
  refine ⟨?_, stored⟩
  rcases served.punctual with punctual | saved
  · exact pends.memory.punctual (unpardoned ▸ punctual) drawn fresh
  · exact stored _ saved

/-- A further failure of the pool does not bring its deadline forward. -/
theorem Due.grows {history : List Moment} {p : PoolState} (due : Due host n history name p)
    {at_ : Nat} (past : ∀ m ∈ history, m.clock ≤ at_)
    (unforgiven : ∀ m ∈ history, ∀ later, p.retryAt ≤ later → m.Forgives name later →
      later ≤ m.clock)
    (error : String) (scope : RetryScope) (jitter : Nat) :
    p.retryAt ≤ (p.failed scope error at_ jitter).retryAt := by
  change p.retryAt ≤ at_ + retryDelay (min (p.failures + 1) (2 ^ 32 - 1)) jitter
  rcases due.deadline with none | ⟨m, member, -, -,
    ⟨some, bound⟩ | ⟨d, dropped, forgives⟩⟩
  · exact none.le.trans (Nat.zero_le _)
  · exact bound.trans (Nat.add_le_add (past m member) (retryDelay_grows some le_rfl))
  · exact (unforgiven d dropped _ le_rfl forgives).trans
      (Nat.le_add_right_of_le (past d dropped))

/-- A step of a tick does not bring the deadline forward. -/
theorem Step.pends (step : Step host w w') (pends : Pends name id deadline w)
    (scheduled : Scheduled host w) (timely : Timely w)
    (drawn : ∃ k < w.asked, id = (host.answers k).uuid.text) (fresh : Fresh host w'.asked)
    (unpardoned : ∀ new, w'.history = w.history ++ new → ∀ m ∈ new, ∀ request,
      m.event = .received request → request.pardons = false)
    (unforgiven : ∀ m ∈ w.history, ∀ later, deadline ≤ later → m.Forgives name later →
      later ≤ m.clock)
    (late : ∀ at_ retryAt, passHead w.history = some (name, at_, retryAt) → at_ < retryAt) :
    Pends name id deadline w' := by
  cases step with
  | silent state store =>
      exact ⟨pends.memory.of_pools (by rw [state]), fun t there =>
        pends.stored t (store ▸ there)⟩
  | serve _ served =>
      obtain ⟨inner, _, history, -⟩ := served.outcome
      rw [List.append_assoc] at history
      exact pends.served served (unpardoned _ history _ List.mem_cons_self _ rfl) drawn fresh
  | drain _ drained => exact ⟨pends.memory.of_pools drained.pools, pends.stored⟩
  | enter | leave | log | edit | begin | observe | forget | record | write =>
      exact ⟨pends.memory.of_pools rfl, pends.stored⟩
  | @note _ p _ _ _ found noted =>
      refine ⟨pends.memory.insert (fun equal sameId => ?_) rfl, pends.stored⟩
      subst equal
      cases noted with
      | observed => exact pends.memory p found sameId
      | cleared head due _ => exact absurd (late _ _ head) (Nat.not_lt.mpr due)
  | @fail _ error scope p jitter _ _ _ found =>
      refine ⟨pends.memory.insert (fun equal sameId => ?_) rfl, pends.stored⟩
      subst equal
      have ahead := pends.memory p found sameId
      refine ahead.trans ((scheduled.memory _ _ found).grows (fun m member => ?_)
        (fun m member later after => unforgiven m member later (ahead.trans after))
        error scope jitter)
      exact (timely.past m member).trans (Nat.le_add_right ..)
  | save => exact ⟨pends.memory.of_pools rfl, fun t there => by cases there; exact pends.memory⟩
  | @drop _ run _ _ p _ _ _ _ _ _ completed =>
      refine ⟨?_, pends.stored⟩
      cases done : run.completedJob with
      | false => exact pends.memory.of_pools (by simp [State.dropRun, done])
      | true =>
          refine pends.memory.insert (fun equal sameId => ?_)
            (show _ = w.engine.state.pools.insert _ _ by simp [State.dropRun, done]; rfl)
          subst equal
          exact pends.memory p (completed done).2.1 sameId
  | delete =>
      refine ⟨fun p found => ?_, pends.stored⟩
      rw [World.setState_state, TreeMap.get_erase] at found
      split at found
      · cases found
      · exact pends.memory p found
  | commit _ _ _ committed =>
      obtain ⟨-, text, -, rfl⟩ := committed
      have memory := pends.memory
      exact ⟨memory.of_pools rfl, fun t there => by cases there; exact memory.of_pools rfl⟩

/-- A tick brings no pending deadline forward. -/
theorem Begins.pends {origin : Origin} (begins : Begins host w origin)
    (concludes : Concludes host origin w') (scheduled : Scheduled host w) (timely : Timely w)
    (pends : Pends name id deadline w) (drawn : ∃ k < w.asked, id = (host.answers k).uuid.text)
    (fresh : Fresh host w'.asked)
    (unpardoned : ∀ m ∈ w.since w', ∀ request, m.event = .received request →
      request.pardons = false)
    (unforgiven : ∀ m ∈ w'.history, ∀ later, deadline ≤ later → m.Forgives name later →
      later ≤ m.clock)
    (late : name = origin.name → origin.at_ < origin.ps.retryAt) :
    Pends name id deadline w' := by
  have opened : Pends name id deadline origin.world :=
    ⟨pends.memory.of_pools (by rw [begins.state]), fun t there =>
      pends.stored t (begins.store ▸ there)⟩
  suffices run : ∀ mid, Steps host origin.world mid → mid.history <+: w'.history →
      mid.asked ≤ w'.asked → Pends name id deadline mid from
    run w' concludes.steps (List.prefix_refl _) le_rfl
  intro mid steps
  induction steps with
  | refl => exact fun _ _ => opened
  | @tail mid next steps step inductionHypothesis =>
      intro after asked
      have advances := step.advances
      have before := advances.history.trans after
      have whole := begins.steps.trans steps
      have ahead := Steps.advances whole
      refine step.pends (inductionHypothesis before (advances.asked.trans asked))
        ((scheduled_invariant host).steps scheduled whole).1 (Steps.timely whole timely)
        (drawn.imp fun _ => .imp_left (·.trans_le ahead.asked)) (fresh.mono asked)
        (fun new continues m member => unpardoned m ?_)
        (fun m member => unforgiven m (before.subset member)) fun at_ retryAt head => ?_
      · obtain ⟨first, same⟩ := ahead.history
        obtain ⟨rest, same'⟩ := after
        rw [World.since, ← same', continues, ← same, List.append_assoc, List.append_assoc,
          List.drop_left]
        exact List.mem_append_right _ (List.mem_append_left _ member)
      · have same := begins.head (Steps.advances steps).history before concludes.span
        cases head.symm.trans same
        exact late rfl

end Pending

/-! ## The guarantee -/

/-- The last of some moments of a kind. -/
theorem exists_latest {P : Moment → Prop} {history : List Moment}
    (ordered : history.Pairwise (·.clock ≤ ·.clock)) (some : ∃ m ∈ history, P m) :
    ∃ m ∈ history, P m ∧ ∀ m' ∈ history, P m' → m'.clock ≤ m.clock := by
  induction history with
  | nil => obtain ⟨_, member, _⟩ := some; exact nomatch member
  | cons first rest inductionHypothesis =>
      obtain ⟨before, ordered⟩ := List.pairwise_cons.mp ordered
      by_cases later : ∃ m ∈ rest, P m
      · obtain ⟨m, member, holds, last⟩ := inductionHypothesis ordered later
        exact ⟨m, List.mem_cons_of_mem _ member, holds,
          List.forall_mem_cons.mpr ⟨fun _ => before m member, last⟩⟩
      · obtain ⟨m, member, holds⟩ := some
        rcases List.mem_cons.mp member with rfl | member
        · exact ⟨m, List.mem_cons_self, holds, List.forall_mem_cons.mpr
            ⟨fun _ => le_rfl, fun m' member holds => absurd ⟨m', member, holds⟩ later⟩⟩
        · exact absurd ⟨m, member, holds⟩ later

/-- A pending deadline is not brought forward by a tick without requests that reset deadlines,
as long as no completed job has reset the failures of the pool while that deadline or a later
one of the pool was ahead.
No deadline lies more than ten minutes after the last failure. -/
theorem deadlines_kept (reachable : Reachable host w) :
    (∀ name p, w.engine.state.pools[name]? = some p →
      p.retryAt = 0 ∨ ∃ m ∈ w.history, m.Fails name ∧
        (∀ m' ∈ w.history, m'.Fails name → m'.clock ≤ m.clock) ∧
          p.retryAt ≤ m.clock + maxRetrySeconds) ∧
    (tick host w = (.ok (), w') → Fresh host w'.asked →
      (∀ m ∈ w.since w', ∀ request, m.event = .received request →
        request.pardons = false) →
      ∀ name p p', w.engine.state.pools[name]? = some p →
        w'.engine.state.pools[name]? = some p' → p'.id = p.id →
        (∀ m ∈ w'.history, ∀ deadline, p.retryAt ≤ deadline → m.Forgives name deadline →
          deadline ≤ m.clock) →
        (w.advance host).clock < p.retryAt → p.retryAt ≤ p'.retryAt) := by
  have scheduled := (scheduled_invariant host).reachable reachable
  have timely := reachable.timely
  refine ⟨fun name p found => ?_, fun run fresh unpardoned name p p' found found' sameId
    unforgiven late => ?_⟩
  · refine (scheduled.memory name p found).deadline.imp_right
      fun ⟨m, member, fails, bound, _⟩ => ?_
    obtain ⟨m', member', fails', last⟩ := exists_latest timely.ordered ⟨m, member, fails⟩
    exact ⟨m', member', fails', last,
      bound.trans (Nat.add_le_add_right (last m member fails) _)⟩
  · obtain ⟨ready, idle⟩ := reachable.ready
    cases (tick_meets ready idle).returned run with
    | idle _ _ _ _ state =>
        rw [state, found] at found'
        cases found'
        exact le_rfl
    | @passed origin begins concludes =>
        have advances := Steps.advances (begins.steps.trans concludes.steps)
        have pends : Pends name p.id p.retryAt w :=
          ⟨fun q there _ => by cases found.symm.trans there; exact le_rfl,
            fun t stored q there same => reachable.lags (fresh.mono advances.asked) t stored
              name p q found there same.symm⟩
        refine (begins.pends concludes scheduled timely pends
          (scheduled.memory name p found).drawn fresh unpardoned unforgiven ?_).memory p'
            found' sameId
        rintro rfl
        cases found.symm.trans begins.found
        exact begins.early.trans_lt late

instance Host.neZeroBytes : NeZero 256 := ⟨Nat.succ_ne_zero 255⟩

/-- Two runs of a pool exit one after the other; the first one unexpectedly, so that the pool
is paused, the second one perhaps with a completed job.  Then Docker stops answering.  All
this takes no time. -/
def Host.flaky (completes : Bool) : Host :=
  .scripted [.sample [.sample "a" 2]] fun n answers =>
    let exited (managerId : String) (k : Nat) : List Container :=
      [⟨some managerId, some (runId (.scripted 3) (.scripted k)), some (Uuid.scripted 2).text,
        some "exited", none⟩]
    { answers with
      elapsed := 0
      present := completes && decide (60 < n)
      byte := if n < 60 then 6 else 0
      reply := fun op => match op with
        | .dockerList managerId =>
            if n = 36 then .ok (exited managerId 11)
            else if n = 61 then .ok (exited managerId 29)
            else if 61 < n then .error "failure"
            else .ok []
        | op => op.smooth }

/-- No request was received. -/
def Moment.unasked (m : Moment) : Bool :=
  match m.event with
  | .received _ => false
  | _ => true

theorem Moment.unasked_iff {m : Moment} :
    m.unasked = true ↔ ∀ request, m.event ≠ .received request := by
  cases event : m.event <;> simp [Moment.unasked, event]

/-- No completed run was dropped. -/
def Moment.severe (m : Moment) : Bool :=
  match m.event with
  | .droppedRun run _ => !run.completedJob
  | _ => true

theorem Moment.not_forgives {m : Moment} (severe : m.severe = true) (name : String)
    (deadline : Nat) : ¬ m.Forgives name deadline := by
  rintro ⟨run, interrupted, q, dropped, completed, -⟩
  simp [Moment.severe, dropped, completed] at severe

/-- An observation failure delays a paused pool further. -/
theorem deadlines_kept_sample : ∃ (host : Host) (w w' : World) (p p' : PoolState),
    Reachable host w ∧ tick host w = (.ok (), w') ∧ w.engine.state.pools["a"]? = some p ∧
      w'.engine.state.pools["a"]? = some p' ∧ (w.advance host).clock < p.retryAt ∧
        p.retryAt ≤ p'.retryAt ∧ p.retryAt ≠ p'.retryAt := by
  obtain ⟨w, reachable, ticks⟩ := @Host.reaches (.flaky false) "" .blank
    [.request (.start (some "a") false), .tick, .tick, .tick, .tick]
    (fun w : World => w.ticksTo (.flaky false) fun w' : World =>
      (decide (w'.asked ≤ 10 ^ 32) &&
        ((w.since w').all Moment.unasked && w'.history.all Moment.severe)) &&
      w.engine.state.pools["a"]?.any fun p : PoolState =>
        w'.engine.state.pools["a"]?.any fun p' : PoolState =>
          decide (p'.id = p.id ∧ (w.advance (.flaky false)).clock < p.retryAt ∧
            p.retryAt ≠ p'.retryAt)) (by decide +kernel)
  obtain ⟨w', run, holds⟩ := World.ticked ticks
  simp only [Bool.and_eq_true, decide_eq_true_eq, List.all_eq_true, Option.any_eq_true] at holds
  obtain ⟨⟨fresh, unasked, severe⟩, p, found, p', found', sameId, late, moved⟩ := holds
  replace fresh := fresh_of_scripted (.flaky false) (fun _ => rfl) fresh
  refine ⟨_, w, w', p, p', reachable, run, found, found', late, ?_, moved⟩
  exact (deadlines_kept reachable).2 run fresh
    (fun m member request received =>
      absurd received (Moment.unasked_iff.mp (unasked m member) request))
    "a" p p' found found' sameId
    (fun m member deadline _ forgives =>
      absurd forgives (Moment.not_forgives (severe m member) "a" deadline)) late

/-- A completed job resets the failures of a paused pool, and an observation failure brings
its deadline forward. -/
theorem deadline_advanced : ∃ (host : Host) (w w' : World) (p p' : PoolState),
    Reachable host w ∧ Restored w'.history ∧ Fresh host w'.asked ∧
    tick host w = (.ok (), w') ∧
    (∀ m ∈ w.since w', ∀ request, m.event ≠ .received request) ∧
    w.engine.state.pools["a"]? = some p ∧ w'.engine.state.pools["a"]? = some p' ∧
      p'.id = p.id ∧ (w.advance host).clock < p.retryAt ∧ p'.retryAt < p.retryAt := by
  obtain ⟨w, reachable, ticks⟩ := @Host.reaches (.flaky true) "" .blank
    [.request (.start (some "a") false), .tick, .tick, .tick, .tick]
    (fun w : World => w.ticksTo (.flaky true) fun w' : World =>
      (decide (Restored w'.history) && (decide (w'.asked ≤ 10 ^ 32) &&
        (w.since w').all Moment.unasked)) &&
      w.engine.state.pools["a"]?.any fun p : PoolState =>
        w'.engine.state.pools["a"]?.any fun p' : PoolState =>
          decide (p'.id = p.id ∧ (w.advance (.flaky true)).clock < p.retryAt ∧
            p'.retryAt < p.retryAt)) (by decide +kernel)
  obtain ⟨w', run, holds⟩ := World.ticked ticks
  simp only [Bool.and_eq_true, decide_eq_true_eq, List.all_eq_true, Option.any_eq_true] at holds
  obtain ⟨⟨restored, fresh, unasked⟩, p, found, p', found', sameId, late, sooner⟩ := holds
  replace fresh := fresh_of_scripted (.flaky true) (fun _ => rfl) fresh
  exact ⟨_, w, w', p, p', reachable, restored, fresh, run,
    fun m member => Moment.unasked_iff.mp (unasked m member), found, found', sameId, late, sooner⟩

end Executions

end Runnerctl
