import Runnerctl.Guarantees.Structure

/-!
# The life of a pool

A pool that is being deleted does not run and stays so until it is gone; a pool that is
added afterwards has nothing to do with it.
-/

namespace Runnerctl

open Std Program Journal

/-! ## How pools change -/

/-- Every pool was there before under the same name and id, and deleting if it was. -/
def Inherits (pools pools' : ExtTreeMap String PoolState) : Prop :=
  ∀ (name : String) (q : PoolState), pools'[name]? = some q →
    ∃ p, pools[name]? = some p ∧ p.id = q.id ∧ (p.deleting = true → q.deleting = true)

/-- Every pool was there before, or has an id that was drawn from the answers `lo` to
`hi`. -/
def Derives (host : Host) (lo hi : Nat) (pools pools' : ExtTreeMap String PoolState) : Prop :=
  ∀ (name : String) (q : PoolState), pools'[name]? = some q →
    (∃ p, pools[name]? = some p ∧ p.id = q.id ∧ (p.deleting = true → q.deleting = true)) ∨
      ∃ k, lo ≤ k ∧ k < hi ∧ q.id = (host.answers k).uuid.text

/-- The pools that were being deleted still are, if they are there. -/
def Outlives (pools pools' : ExtTreeMap String PoolState) : Prop :=
  ∀ (name name' : String) (p q : PoolState), pools[name]? = some p → pools'[name']? = some q →
    p.id = q.id → p.deleting = true → q.deleting = true

section Changes

variable {host : Host} {lo hi : Nat} {pools pools' pools'' : ExtTreeMap String PoolState}
  {s t e : State} {file : Option String} {request : Request}

theorem Inherits.refl (pools : ExtTreeMap String PoolState) : Inherits pools pools :=
  fun _ q found => ⟨q, found, rfl, id⟩

theorem Inherits.trans (first : Inherits pools pools') (second : Inherits pools' pools'') :
    Inherits pools pools'' := by
  intro name r found
  obtain ⟨q, there, same, kept⟩ := second name r found
  obtain ⟨p, before, same', kept'⟩ := first name q there
  exact ⟨p, before, same'.trans same, kept ∘ kept'⟩

theorem Inherits.insert {name : String} {p p' : PoolState} (found : pools[name]? = some p)
    (same : p.id = p'.id) (kept : p.deleting = true → p'.deleting = true) :
    Inherits pools (pools.insert name p') := by
  intro other q there
  rw [TreeMap.get_insert] at there
  split at there
  · next equal =>
      cases there
      exact ⟨p, equal ▸ found, same, kept⟩
  · exact ⟨q, there, rfl, id⟩

theorem Inherits.erase (pools : ExtTreeMap String PoolState) (name : String) :
    Inherits pools (pools.erase name) := by
  intro other q there
  rw [TreeMap.get_erase] at there
  split at there
  · exact nomatch there
  · exact ⟨q, there, rfl, id⟩

theorem Inherits.foldl {update : State → String → State}
    (each : ∀ (s : State) (name : String), Inherits s.pools (update s name).pools)
    (names : List String) (s : State) : Inherits s.pools (names.foldl update s).pools := by
  induction names generalizing s with
  | nil => exact .refl _
  | cons name rest inductionHypothesis => exact (each s name).trans (inductionHypothesis _)

theorem inherits_start (s : State) (name : String) : Inherits s.pools (s.start name).pools := by
  intro other q there
  rw [State.start_pool] at there
  obtain ⟨p, found, rfl⟩ := Option.map_eq_some_iff.mp there
  refine ⟨p, found, ?_⟩
  split <;> exact ⟨rfl, id⟩

theorem inherits_stop (force : Bool) (s : State) (name : String) :
    Inherits s.pools (s.stop force name).pools := by
  intro other q there
  rw [State.stop_pool] at there
  obtain ⟨p, found, rfl⟩ := Option.map_eq_some_iff.mp there
  refine ⟨p, found, ?_⟩
  split <;> exact ⟨rfl, id⟩

theorem inherits_resetProfile (s : State) (profile : String) :
    Inherits s.pools (s.resetProfile profile).pools := by
  intro other q there
  rw [State.resetProfile_pool] at there
  obtain ⟨p, found, rfl⟩ := Option.map_eq_some_iff.mp there
  refine ⟨p, found, ?_⟩
  split <;> exact ⟨rfl, id⟩

theorem Inherits.derives (inherits : Inherits pools pools') :
    Derives host lo hi pools pools' :=
  fun name q found => .inl (inherits name q found)

theorem Derives.inherits (derives : Derives host lo hi pools pools')
    (inherits : Inherits pools' pools'') : Derives host lo hi pools pools'' := by
  intro name r found
  obtain ⟨q, there, same, kept⟩ := inherits name r found
  rcases derives name q there with ⟨p, before, same', kept'⟩ | ⟨k, low, high, drawn⟩
  · exact .inl ⟨p, before, same'.trans same, kept ∘ kept'⟩
  · exact .inr ⟨k, low, high, same.symm.trans drawn⟩

theorem Commits.derives {c : State} (commits : Commits host file lo hi s request c)
    (le : lo ≤ hi) (indexed : s.Indexed) : Derives host lo hi s.pools c.pools := by
  have extended := (commits.reconfigures le indexed).extends_
  intro name q found
  match before : s.pools[name]? with
  | some p =>
      obtain ⟨_, kept⟩ := extended.kept before
      cases found.symm.trans kept
      exact .inl ⟨p, rfl, rfl, id⟩
  | none =>
      obtain ⟨k, _, low, high, rfl⟩ := extended.added found before
      exact .inr ⟨k, low, high, rfl⟩

theorem Accepts.derives {response : Response}
    (accepts : Accepts host file lo hi s request response t) (le : lo ≤ hi)
    (indexed : s.Indexed) : Derives host lo hi s.pools t.pools := by
  cases accepts with
  | status _ => exact (Inherits.refl _).derives
  | add commits => exact commits.derives le indexed
  | start _ _ => exact (Inherits.foldl inherits_start _ s).derives
  | stop _ => exact (Inherits.foldl (inherits_stop _) _ s).derives
  | scale commits marked | upgrade commits marked =>
      rw [(State.drained_of_markRetiring marked).pools]
      exact commits.derives le indexed
  | remove found =>
      rw [State.retireRuns_pools, State.setPool_pools]
      refine Inherits.derives (.insert found ?_ fun _ => ?_)
      · rfl
      · rfl
  | auth commits => exact (commits.derives le indexed).inherits (inherits_resetProfile _ _)
  | apply commits marked =>
      rw [(State.foldlM_markRetiring_drained marked).pools]
      exact commits.derives le indexed

theorem Outlives.of_sound (sound : s.Sound) : Outlives s.pools s.pools := by
  intro name name' p q found there same deleting
  cases sound.ids found there same
  cases found.symm.trans there
  exact deleting

theorem Outlives.inherits (outlives : Outlives pools pools')
    (inherits : Inherits pools' pools'') : Outlives pools pools'' := by
  intro name name' p r found there same deleting
  obtain ⟨q, before, same', kept⟩ := inherits name' r there
  exact kept (outlives name name' p q found before (same.trans same'.symm) deleting)

/-- A pool that is drawn later is not one that was there. -/
theorem State.Drawn.apart (drawn : e.Drawn host lo) (fresh : Fresh host hi) {name : String}
    {p : PoolState} (found : e.pools[name]? = some p) {k : Nat} (low : lo ≤ k) (high : k < hi) :
    p.id ≠ (host.answers k).uuid.text := by
  obtain ⟨k', small, id⟩ := drawn name p found
  intro same
  have := fresh k' (by omega) k high (Uuid.eq_of_text (id.symm.trans same))
  omega

theorem Outlives.derives (outlives : Outlives e.pools pools) (drawn : e.Drawn host lo)
    (fresh : Fresh host hi) (derives : Derives host lo hi pools pools') :
    Outlives e.pools pools' := by
  intro name name' p r found there same deleting
  rcases derives name' r there with ⟨q, before, same', kept⟩ | ⟨k, low, high, id⟩
  · exact kept (outlives name name' p q found before (same.trans same'.symm) deleting)
  · exact absurd (same.trans id) (drawn.apart fresh found low high)

end Changes

/-! ## Over whole executions -/

/-- The states at which the manager turned to something are known to the pools of `c`. -/
def Survived (host : Host) (n : Nat) (history : List Moment)
    (pools : ExtTreeMap String PoolState) : Prop :=
  ∀ m ∈ history, m.event.turns = true →
    m.state.Drawn host n ∧ Outlives m.state.pools pools

section Executions

variable {host : Host} {w w' : World} {n n' : Nat} {history : List Moment}
  {pools pools' : ExtTreeMap String PoolState}

theorem Survived.mono (survived : Survived host n history pools) (le : n ≤ n')
    (inherits : Inherits pools pools') : Survived host n' history pools' :=
  fun m member turns =>
    have ⟨drawn, outlives⟩ := survived m member turns
    ⟨drawn.mono le, outlives.inherits inherits⟩

theorem Survived.derives (survived : Survived host n history pools) (le : n ≤ n')
    (fresh : Fresh host n') (derives : Derives host n n' pools pools') :
    Survived host n' history pools' :=
  fun m member turns =>
    have ⟨drawn, outlives⟩ := survived m member turns
    ⟨drawn.mono le, outlives.derives drawn fresh derives⟩

/-- A moment at which the manager turns to nothing. -/
theorem Survived.append (survived : Survived host n history pools) {new : List Moment}
    (still : ∀ m ∈ new, m.event.turns = true →
      m.state.Drawn host n ∧ Outlives m.state.pools pools) :
    Survived host n (history ++ new) pools :=
  List.forall_mem_append.mpr ⟨survived, still⟩

/-- What memory and the store know of earlier pools. -/
structure Lived (host : Host) (w : World) : Prop where
  storing : Storing host w.asked w.history w.store
  memory : Restored w.history → Fresh host w.asked →
    Survived host w.asked w.history w.engine.state.pools
  stored : Restored w.history → Fresh host w.asked → ∀ t, w.store = some t →
    Survived host w.asked w.history t.pools

/-- What the store knows of earlier pools. -/
structure Outlived (host : Host) (n : Nat) (history : List Moment) (store : Option State) :
    Prop where
  storing : Storing host n history store
  stored : Restored history → Fresh host n → ∀ t, store = some t →
    Survived host n history t.pools

/-- Between turns the stored pools are those of memory. -/
theorem Ready.stored_pools (ready : Ready host w) (restored : Restored w.history) {t : State}
    (stored : w.store = some t) : t.pools = w.engine.state.pools := by
  obtain ⟨t', stored', backs⟩ := ready.stored
  cases stored.symm.trans stored'
  exact (State.intent_eq_iff.mp (backs.intent restored)).2.2.2.2.1

/-- What a request can store derives from what it found. -/
theorem Storable.derives {request : Request} {t : State}
    (storable : Storable host request w n (some t)) (ready : Ready host w)
    (restored : Restored w.history) (fresh : Fresh host w.asked) (le : w.asked ≤ n) :
    Derives host w.asked n w.engine.state.pools t.pools := by
  have indexed := (ready.sound restored fresh).1.toIndexed
  rcases storable with stored | ⟨s, same, commits | ⟨_, accepts⟩⟩
  · rw [ready.stored_pools restored stored.symm]
    exact (Inherits.refl _).derives
  · cases same
    exact commits.derives le indexed
  · cases same
    exact accepts.derives le indexed

/-- What a request leaves in memory derives from what it found. -/
theorem Served.derives {polled : Bool} {request : Request}
    (served : Served host polled request w w') (ready : Ready host w)
    (restored : Restored w'.history) (fresh : Fresh host w'.asked) :
    Derives host w.asked w'.asked w.engine.state.pools w'.engine.state.pools := by
  obtain ⟨inner, result, history, -, outcome⟩ := served.outcome
  have before := restored_of_grows served.grows restored
  have fresh' := fresh.mono served.asked
  have indexed := (ready.sound before fresh').1.toIndexed
  cases outcome with
  | accepted accepts _ _ _ => exact accepts.derives served.asked indexed
  | rejected stored _ _ _ =>
      have storable := served.store
      rw [stored] at storable
      exact storable.derives ready before fresh' served.asked
  | unread failed => exact absurd restored (Served.unrestored history failed)

/-- The manager turns to what memory holds. -/
theorem Ready.turning (ready : Ready host w) (restored : Restored w.history)
    (fresh : Fresh host w.asked) (event : Event) :
    (w.moment event).state.Drawn host w.asked ∧
      Outlives (w.moment event).state.pools w.engine.state.pools :=
  have ⟨sound, drawn⟩ := ready.sound restored fresh
  ⟨drawn, .of_sound sound⟩

/-- What was there before a request, and its arrival, when `m` questions were asked. -/
theorem Survived.arrival {request : Request} {inner : List Moment}
    (survived : Survived host w.asked w.history w.engine.state.pools) (ready : Ready host w)
    (restored : Restored w.history) (fresh : Fresh host n) (le : w.asked ≤ n)
    (between : ∀ m ∈ inner, m.event.turns = false)
    (derives : Derives host w.asked n w.engine.state.pools pools) :
    Survived host n (w.history ++ w.moment (.received request) :: inner) pools := by
  have arrived := ready.turning restored (fresh.mono le) (.received request)
  refine (survived.derives le fresh derives).append (List.forall_mem_cons.mpr ⟨fun _ => ?_, ?_⟩)
  · exact ⟨arrived.1.mono le, arrived.2.derives arrived.1 fresh derives⟩
  · intro m member turns
    simp [between m member] at turns

theorem turns_of_between {m : Moment} (between : m.event.between = true) :
    m.event.turns = false := by
  cases event : m.event <;> simp_all [Event.between, Event.inner, Event.turns]

/-- Apart from requests, a step only removes pools from memory, and saves what is there. -/
theorem Step.inherits (step : Step host w w') :
    (∃ polled request, Ready host w ∧ Served host polled request w w') ∨
      Inherits w.engine.state.pools w'.engine.state.pools ∧
        (w'.store = w.store ∨ ∀ t, w'.store = some t → t.pools = w'.engine.state.pools) := by
  have kept (same : w'.engine.state.pools = w.engine.state.pools) (store : w'.store = w.store) :
      Inherits w.engine.state.pools w'.engine.state.pools ∧
        (w'.store = w.store ∨ ∀ t, w'.store = some t → t.pools = w'.engine.state.pools) :=
    ⟨same ▸ .refl _, .inl store⟩
  cases step with
  | serve ready served => exact .inl ⟨_, _, ready, served⟩
  | silent state store => exact .inr (kept (by rw [state]) store)
  | drain _ drained => exact .inr (kept drained.pools rfl)
  | enter | leave | log | edit | begin | observe | forget | record | write =>
      exact .inr (kept rfl rfl)
  | fail _ _ _ found => exact .inr ⟨.insert found rfl id, .inl rfl⟩
  | drop _ _ _ _ _ _ completed =>
      refine .inr ⟨?_, .inl rfl⟩
      change Inherits _ (State.dropRun _ _ _ _).pools
      unfold State.dropRun
      dsimp only
      split
      · next done => exact .insert (completed done).2.1 rfl id
      · exact .refl _
  | note _ _ found noted =>
      refine .inr ⟨.insert found (congrArg PoolWish.id noted.wish).symm ?_, .inl rfl⟩
      exact fun deleting => (congrArg PoolWish.deleting noted.wish).trans deleting
  | save =>
      refine .inr ⟨.refl _, .inr fun t stored => ?_⟩
      cases stored
      rfl
  | delete => exact .inr ⟨.erase _ _, .inl rfl⟩
  | commit _ _ _ committed =>
      obtain ⟨-, text, -, rfl⟩ := committed
      refine .inr ⟨.refl _, .inr fun t stored => ?_⟩
      cases stored
      rfl

theorem Lived.serve (lived : Lived host w) (ready : Ready host w) {polled : Bool}
    {request : Request} (served : Served host polled request w w') : Lived host w' := by
  have before (restored : Restored w'.history) := restored_of_grows served.grows restored
  obtain ⟨inner, result, history, between, -⟩ := served.outcome
  have quiet : ∀ m ∈ inner ++ [w'.moment (.handled polled request w.engine.state result)],
      m.event.turns = false :=
    List.forall_mem_append.mpr
      ⟨fun m member => turns_of_between (between m member), by simp [Event.turns]⟩
  rw [List.append_assoc, List.cons_append] at history
  refine ⟨(served.ready ready).storing, fun restored fresh => ?_,
    fun restored fresh t stored => ?_⟩
  · rw [history]
    exact (lived.memory (before restored) (fresh.mono served.asked)).arrival ready
      (before restored) fresh served.asked quiet (served.derives ready restored fresh)
  · have storable := served.store
    rw [stored] at storable
    rw [history]
    exact (lived.memory (before restored) (fresh.mono served.asked)).arrival ready
      (before restored) fresh served.asked quiet
      (storable.derives ready (before restored) (fresh.mono served.asked) served.asked)

theorem Lived.step (lived : Lived host w) (step : Step host w w') : Lived host w' := by
  have advances := step.advances
  have before (restored : Restored w'.history) : Restored w.history :=
    fun m member => restored m (advances.history.subset member)
  rcases step.inherits with ⟨_, _, ready, served⟩ | ⟨inherits, store⟩
  · exact lived.serve ready served
  have added {pools : ExtTreeMap String PoolState} (restored : Restored w'.history)
      (fresh : Fresh host w'.asked) (survived : Survived host w'.asked w.history pools)
      (known : Ready host w → Outlives w.engine.state.pools pools) :
      (∃ polled request, Ready host w ∧ Served host polled request w w') ∨
        Survived host w'.asked w'.history pools := by
    rcases step.moments with same | ⟨m, history, -⟩ | served
    · exact .inr (same ▸ survived)
    · rw [history]
      refine .inr (survived.append (List.forall_mem_singleton.mpr fun turns => ?_))
      obtain ⟨ready, state⟩ := step.turning history turns
      have drawn := (ready.sound (before restored) (fresh.mono advances.asked)).2
      rw [state]
      exact ⟨drawn.mono advances.asked, known ready⟩
    · exact .inl served
  refine ⟨(storing_invariant host).step lived.storing step, fun restored fresh => ?_,
    fun restored fresh t stored => ?_⟩
  · have fresh' := fresh.mono advances.asked
    refine (added restored fresh ((lived.memory (before restored) fresh').mono advances.asked
      inherits) fun ready => ?_).elim (fun ⟨_, _, ready, served⟩ =>
        (lived.serve ready served).memory restored fresh) id
    exact (Outlives.of_sound (ready.sound (before restored) fresh').1).inherits inherits
  · have fresh' := fresh.mono advances.asked
    have outlives (ready : Ready host w) : Outlives w.engine.state.pools w'.engine.state.pools :=
      (Outlives.of_sound (ready.sound (before restored) fresh').1).inherits inherits
    have survived : Survived host w'.asked w.history t.pools ∧
        (Ready host w → Outlives w.engine.state.pools t.pools) := by
      rcases store with same | saved
      · rw [same] at stored
        refine ⟨(lived.stored (before restored) fresh' t stored).mono advances.asked (.refl _),
          fun ready => ?_⟩
        rw [ready.stored_pools (before restored) stored]
        exact .of_sound (ready.sound (before restored) fresh').1
      · rw [saved t stored]
        exact ⟨(lived.memory (before restored) fresh').mono advances.asked inherits, outlives⟩
    exact (added restored fresh survived.1 survived.2).elim (fun ⟨_, _, ready, served⟩ =>
      (lived.serve ready served).stored restored fresh t stored) id

/-- Pools that are being deleted are remembered over every execution. -/
theorem lived_invariant (host : Host) : Invariant host (Lived host) (Outlived host) where
  start {text after} installed := by
    have survived (fresh : Fresh host after.asked) :
        Survived host after.asked after.history after.engine.state.pools := by
      obtain ⟨sound, drawn⟩ := installed.sound fresh
      obtain ⟨read, saved, history, readEvent, -, -, savedEvent, -⟩ := installed.history
      have opening : Survived host after.asked ([read, saved] ++ [after.moment .opened])
          after.engine.state.pools :=
        List.forall_mem_append.mpr ⟨by simp [readEvent, savedEvent, Event.turns],
          List.forall_mem_singleton.mpr fun _ => ⟨drawn, .of_sound sound⟩⟩
      rwa [history]
    refine ⟨installed.storing, fun _ => survived, fun _ fresh t stored => ?_⟩
    cases installed.store.symm.trans stored
    exact survived fresh
  step lived step := lived.step step
  survives lived := ⟨lived.storing, lived.stored⟩
  served {w request n new store} lived ready handling := by
    refine ⟨(storing_invariant host).served lived.storing ready handling,
      fun restored fresh t stored => ?_⟩
    obtain ⟨inner, rfl, between⟩ := handling.arrived
    have before := (restored_append.mp restored).1
    have storable := handling.storable
    rw [stored] at storable
    exact (lived.memory before (fresh.mono handling.asked)).arrival ready before fresh
      handling.asked (fun m member => turns_of_between (between m member))
      (storable.derives ready before (fresh.mono handling.asked) handling.asked)
  mono outlived le := ⟨outlived.storing.mono le id, fun restored fresh t stored =>
    (outlived.stored restored (fresh.mono le) t stored).mono le (.refl _)⟩
  reopen {w t} effect outlived stored := by
    have storing := (storing_invariant host).reopen effect outlived.storing stored
    have history : (w.reopened host effect t).history = w.history ++
        [w.moment (.crashed effect), World.moment
          { (w.log (.crashed effect)).advance host with engine := Engine.fresh t } .opened] := by
      simp [World.reopened]
    have survived (restored : Restored (w.reopened host effect t).history)
        (fresh : Fresh host (w.asked + 1)) :
        Survived host (w.asked + 1) (w.reopened host effect t).history t.pools := by
      have before : Restored w.history := (restored_append.mp (history ▸ restored)).1
      obtain ⟨_, held, -, sound⟩ := outlived.storing
      cases stored.symm.trans held
      obtain ⟨sound, drawn⟩ := sound before (fresh.mono (Nat.le_succ _))
      rw [history]
      refine ((outlived.stored before (fresh.mono (Nat.le_succ _)) t stored).mono
        (Nat.le_succ _) (.refl _)).append ?_
      refine List.forall_mem_cons.mpr ⟨fun turns => Bool.noConfusion turns,
        List.forall_mem_singleton.mpr fun _ => ?_⟩
      exact ⟨drawn.mono (Nat.le_succ _), .of_sound sound⟩
    refine ⟨storing, survived, fun restored fresh t' stored' => ?_⟩
    cases stored.symm.trans stored'
    exact survived restored fresh

/-! ## Draining -/

/-- Pools that are being deleted do not run, runs of pools that do not run are retiring,
and so are forced runs. -/
structure State.Consistent (s : State) : Prop where
  halted : ∀ (name : String) (p : PoolState), s.pools[name]? = some p →
    p.deleting = true → p.running = false
  draining : ∀ (name id : String) (p : PoolState) (run : Run), s.pools[name]? = some p →
    p.running = false → s.runs[id]? = some run → run.poolId = p.id → run.retiring = true
  forced : ∀ (id : String) (run : Run), s.runs[id]? = some run → run.force = true →
    run.retiring = true

theorem State.Sound.consistent {s : State} (sound : s.Sound) : s.Consistent :=
  ⟨fun _ _ => sound.halted, fun _ _ _ _ => sound.draining, fun _ _ => sound.forced⟩

/-- What a moment after `first` tells about pools that end or begin. -/
structure Moment.Orderly (first : List Moment) (m : Moment) : Prop where
  /-- A pool that was being deleted still is. -/
  deleting : m.event.turns = true → ∀ m₀ ∈ first, m₀.event.turns = true →
    Outlives m₀.state.pools m.state.pools
  /-- Only pools that run get a backoff of provisioning. -/
  failed : ∀ name : String, m.event = .failed name .provisioning →
    ∃ p, m.state.pools[name]? = some p ∧ p.running = true ∧ p.deleting = false
  /-- A pool that a request added has an id that no pool had, and no runs. -/
  added : ∀ polled request before result, m.event = .handled polled request before result →
    ∀ (name : String) (q : PoolState), m.state.pools[name]? = some q →
      (∀ (other : String) (p : PoolState), before.pools[other]? = some p → p.id ≠ q.id) →
        m.state.hasRuns q.id = false ∧ ∀ m₀ ∈ first, m₀.event.turns = true →
          ∀ (other : String) (p : PoolState), m₀.state.pools[other]? = some p → p.id ≠ q.id

/-- The runs after a request belong to pools that were there before it. -/
theorem Served.unowned {polled : Bool} {request : Request}
    (served : Served host polled request w w') (ready : Ready host w)
    (sound : w.engine.state.Sound) {poolId : String}
    (new : ∀ (other : String) (p : PoolState), w.engine.state.pools[other]? = some p →
      p.id ≠ poolId) : w'.engine.state.hasRuns poolId = false := by
  rw [State.hasRuns_eq_false]
  intro id run found ofPool
  obtain ⟨recorded, there, -, same⟩ := State.run_of_roster (served.roster ready) found
  obtain ⟨name, p, present, owner⟩ := sound.owned there
  exact new name p present (owner.trans (same.trans ofPool))

/-- Pools that were being deleted still are when the manager turns to something. -/
theorem Caused.outlives {first : List Moment} {m : Moment}
    (caused : Caused host (Lived host) n first m) (turns : m.event.turns = true)
    (restored : Restored (first ++ [m])) (fresh : Fresh host n) :
    ∀ m₀ ∈ first, m₀.event.turns = true → Outlives m₀.state.pools m.state.pools := by
  have read {w : World} (lived : Lived host w) (le : w.asked ≤ n) (known : Restored w.history)
      (contained : ∀ m₀ ∈ first, m₀ ∈ w.history) (state : m.state = w.engine.state) :
      ∀ m₀ ∈ first, m₀.event.turns = true → Outlives m₀.state.pools m.state.pools := by
    intro m₀ member turning
    rw [state]
    exact (lived.memory known (fresh.mono le) m₀ (contained m₀ member) turning).2
  have before := (restored_append.mp restored).1
  cases caused with
  | @installed _ w rest installed lived asked history =>
      obtain ⟨read', saved, moments, readEvent, -, -, savedEvent, -⟩ := installed.history
      have opened : ∀ m' ∈ w.history, m'.event.turns = true → m' = w.moment .opened := by
        intro m' member turning
        rw [moments] at member
        simp only [List.mem_cons, List.not_mem_nil, or_false] at member
        rcases member with rfl | rfl | same
        · simp [readEvent, Event.turns] at turning
        · simp [savedEvent, Event.turns] at turning
        · exact same
      intro m₀ member turning
      rw [opened m₀ (history ▸ List.mem_append_left _ member) turning,
        opened m (history ▸ by simp) turns]
      exact .of_sound (installed.sound (fresh.mono asked)).1
  | stepped lived step _ asked same history _ =>
      subst same
      exact read lived (step.advances.asked.trans asked) before (fun _ => id)
        (step.turning history turns).2
  | handling lived _ handling asked same =>
      obtain ⟨rfl, rfl⟩ := handling.arrival turns
      rw [List.append_nil] at same
      subst same
      exact read lived (handling.asked.trans asked) before (fun _ => id) rfl
  | handled _ _ _ _ _ _ _ same =>
      rw [same] at turns
      cases turns
  | crashed event => simp [event, Event.turns] at turns
  | reopened lived asked _ _ history same =>
      refine read lived asked (history ▸ restored) (fun m₀ member => ?_) (same ▸ rfl)
      exact history ▸ List.mem_append_left _ member

/-- A pool that a request added has an id of its own, and no runs. -/
theorem Caused.added {first : List Moment} {m : Moment}
    (caused : Caused host (Lived host) n first m) (restored : Restored (first ++ [m]))
    (fresh : Fresh host n) {polled : Bool} {request : Request} {before : State}
    {result : Except Error Response} (event : m.event = .handled polled request before result)
    {name : String} {q : PoolState} (found : m.state.pools[name]? = some q)
    (new : ∀ (other : String) (p : PoolState), before.pools[other]? = some p → p.id ≠ q.id) :
    m.state.hasRuns q.id = false ∧ ∀ m₀ ∈ first, m₀.event.turns = true →
      ∀ (other : String) (p : PoolState), m₀.state.pools[other]? = some p →
        p.id ≠ q.id := by
  obtain ⟨w, w', new', lived, ready, served, asked, rfl, same, history, last⟩ :=
    caused.served event
  subst same
  have le := served.asked
  have known := restored_of_grows served.grows (history ▸ restored)
  have fresh' := fresh.mono asked
  rw [last, World.moment_state] at found ⊢
  refine ⟨served.unowned ready (ready.sound known (fresh'.mono le)).1 new, ?_⟩
  rcases served.derives ready (history ▸ restored) fresh' name q found with
    ⟨p, there, same, -⟩ | ⟨k, low, high, id⟩
  · exact absurd same (new name p there)
  intro m₀ member turning other p there
  have drawn : m₀.state.Drawn host w.asked := by
    obtain ⟨inner, result, moments, between, -⟩ := served.outcome
    have earlier := (List.append_inj' (history.symm.trans moments) rfl).1
    rcases List.mem_append.mp (earlier ▸ member) with old | arrived
    · exact (lived.memory known (fresh'.mono le) m₀ old turning).1
    rcases List.mem_cons.mp arrived with rfl | inside
    · exact (ready.sound known (fresh'.mono le)).2
    · simp [turns_of_between (between m₀ inside)] at turning
  exact id ▸ drawn.apart fresh' there low high

/-- Draining is consistent in every state, if failed requests were read back. -/
theorem drain_intent_consistent (executed : Executed host w) (restored : Restored w.history)
    (fresh : Fresh host w.asked) :
    (∀ before s, Seen host w before s → s.Consistent) ∧
      Recorded Moment.Orderly w.history ∧
      (Reachable host w → ∀ m ∈ w.history, m.event.turns = true →
        Outlives m.state.pools w.engine.state.pools) := by
  have caused := (lived_invariant host).caused executed
  refine ⟨fun before s seen => ?_, fun first m rest history => ?_, fun reachable => ?_⟩
  · have known : Restored before := fun m member => restored m (seen.isPrefix.subset member)
    exact (seen.sound known fresh).1.consistent
  · have known : Restored (first ++ [m]) := by
      rw [history, ← List.singleton_append, ← List.append_assoc] at restored
      exact (restored_append.mp restored).1
    refine ⟨fun turns => (caused first m rest history).outlives turns known fresh,
      fun name event => ?_, fun polled request before result event name q found new =>
        (caused first m rest history).added known fresh event found new⟩
    obtain ⟨w₀, w₁, -, step, -, asked, rfl, -, guarded⟩ :=
      (caused first m rest history).guarded (by rw [event]; rfl)
    rw [Moment.Guarded, event] at guarded
    obtain ⟨p, error, at_, jitter, state, -, -, licensed⟩ := guarded
    rw [state]
    exact ⟨_, TreeMap.get_insert_self _ _ _, (licensed rfl).2 (restored_append.mp known).1
      (fresh.mono (step.advances.asked.trans asked))⟩
  · intro m member turns
    exact ((((lived_invariant host).reachable reachable).memory restored fresh) m member turns).2

/-- A pool is deleted, and another one takes its name. -/
theorem drain_intent_consistent_sample : ∃ w : World,
    (∃ m ∈ w.history, m.event.turns = true ∧
      ∃ p, m.state.pools["b"]? = some p ∧ p.deleting = true ∧
        ∃ q, w.engine.state.pools["b"]? = some q ∧ q.deleting = false) ∧
      Recorded Moment.Orderly w.history := by
  let host : Host := .scripted
    [.sample [.sample "a" 1, .sample "b" 1], .sample [.sample "a" 1]] fun _ => id
  obtain ⟨w, reachable, holds⟩ := @Host.reaches host "" .blank
    [.request (.start (some "b") false), .request (.remove "b" false), .tick, .tick,
      .request (.add (.sample "b" 1))]
    (fun w => (w.history.any fun m => m.event.turns &&
        m.state.pools["b"]?.any (fun p => p.deleting &&
          w.engine.state.pools["b"]?.any (!·.deleting))) &&
      decide (Restored w.history) && decide (w.asked ≤ 10 ^ 32)) (by decide +kernel)
  simp only [Bool.and_eq_true, decide_eq_true_eq, Option.any_eq_true, List.any_eq_true,
    Bool.not_eq_true'] at holds
  obtain ⟨⟨deleted, restored⟩, fresh⟩ := holds
  replace fresh := fresh_of_scripted host (fun _ => rfl) fresh
  exact ⟨w, by simpa only [and_assoc] using deleted,
    (drain_intent_consistent (.reached reachable) restored fresh).2.1⟩

/-- `Start` fails, and so does the read-back, so that a pass takes the pool for a running
one.  A failed `Status` then restores the stopped pool, and the pass gives it a run. -/
theorem run_started_in_stopped_pool : ∃ (host : Host) (w : World), Reachable host w ∧
    Fresh host w.asked ∧ ¬ w.engine.state.Consistent := by
  let host : Host := .scripted [.sample [.sample "a" 1]] fun n answers =>
    if n = 5 ∨ n = 6 then { answers with succeeds := false }
    else if n = 8 then { answers with during := [.request (.status (some "b"))] }
    else answers
  obtain ⟨w, reachable, holds⟩ := @Host.reaches host "" .blank
    [.request (.start (some "a") false), .tick]
    (fun w => decide (w.asked ≤ 10 ^ 32) &&
      (TreeMap.values w.engine.state.runs).any fun run =>
        w.engine.state.runs[run.id]? == some run && !run.retiring &&
          w.engine.state.pools["a"]?.any fun p => run.poolId == p.id && !p.running)
    (by decide +kernel)
  simp only [Bool.and_eq_true, beq_iff_eq, decide_eq_true_eq, Option.any_eq_true,
    List.any_eq_true, Bool.not_eq_true'] at holds
  obtain ⟨fresh, run, -, ⟨recorded, active⟩, p, found, ofPool, stopped⟩ := holds
  replace fresh := fresh_of_scripted host
    (fun n => by dsimp only [host, Host.scripted]; repeat (first | rfl | split)) fresh
  refine ⟨host, w, reachable, fresh, fun consistent => ?_⟩
  have retiring := consistent.draining "a" run.id p run found stopped recorded ofPool
  exact Bool.false_ne_true (active.symm.trans retiring)

end Executions

end Runnerctl
