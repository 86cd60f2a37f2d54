import Runnerctl.Metatheory.Ticks

/-!
# Reachable worlds

A turn of `serve` is a run of steps, so what every step keeps holds of every world in
which a request or a tick begins.  A crash keeps of a turn only the store and the history
up to one of its moments; the part of an invariant that survives is stated of these.
-/

namespace Runnerctl

open Std Program Journal

/-! ## Opening the store -/

/-- Only the clock and the questions asked may differ. -/
structure Waits (w w' : World) : Prop where
  engine : w'.engine = w.engine
  store : w'.store = w.store
  file : w'.file = w.file
  history : w'.history = w.history
  asked : w.asked ≤ w'.asked

/-- A manager was started for the first time on the text of `config.toml`. -/
structure Installed (host : Host) (text : String) (after : World) : Prop where
  parsed : host.parseToml text = some after.engine.state.config
  validated : after.engine.state.config.validate = .ok ()
  engine : after.engine = Engine.fresh after.engine.state
  store : after.store = some after.engine.state
  file : after.file = some text
  fileHash : after.engine.state.fileHash = host.sha256 text
  revision : after.engine.state.revision = 1
  runs : after.engine.state.runs = ∅
  pools : State.Extends host 0 after.asked ∅ after.engine.state.pools
  entries : ∀ name : String, (∃ p, after.engine.state.pools[name]? = some p) ↔
    ∃ entry ∈ after.engine.state.config.pools, entry.name = name
  history : ∃ read saved, after.history = [read, saved, after.moment .opened] ∧
    read.event = .readConfig true ∧ read.store = none ∧ read.file = some text ∧
    saved.event = .saved true ∧ saved.store = after.store ∧ saved.file = some text

/-- The world after a crash and a restart that found `t` in the store. -/
def World.reopened (host : Host) (w : World) (effect : Bool) (t : State) : World :=
  World.log { (w.log (.crashed effect)).advance host with engine := Engine.fresh t } .opened

section Opening

variable {host : Host} {w w' : World}

theorem meets_storeLoad {post : Option State → World → Prop}
    {fault : Fault Error → World → Prop} :
    Meets host storeLoad w post fault ↔
      if (host.answers w.asked).succeeds then post w.store (w.advance host)
      else fault (.error (.msg (host.answers w.asked).failure)) (w.advance host) := by
  simp only [storeLoad, meets_bind, meets_consult]
  split <;> rfl

theorem openEngine_of_store {t : State} (stored : w.store = some t)
    (opened : openEngine host w = (.ok (), w')) :
    w' = World.log { w.advance host with engine := Engine.fresh t } .opened := by
  have meets : Meets host openEngine w
      (fun _ w' => w' = World.log { w.advance host with engine := Engine.fresh t } .opened)
      (fun _ _ => True) := by
    unfold openEngine
    refine meets_bind.mpr (meets_storeLoad.mpr ?_)
    split
    · rw [stored]
      rfl
    · trivial
  exact meets.returned opened

theorem newPools_meets (pools : List Pool) (distinct : (pools.map Pool.name).Nodup)
    (known : ExtTreeMap String PoolState) (new : ∀ p ∈ pools, known[p.name]? = none) :
    Meets host (pools.foldlM (fun (pools : ExtTreeMap String PoolState) p => do
        let answers ← consult
        return pools.insert p.name (PoolState.default answers.uuid)) known) w
      (fun pools' w' => Waits w w' ∧ State.Extends host w.asked w'.asked known pools' ∧
        ∀ name : String, (∃ p, pools'[name]? = some p) ↔
          (∃ p, known[name]? = some p) ∨ ∃ entry ∈ pools, entry.name = name)
      (fun _ _ => False) := by
  induction pools generalizing known w with
  | nil => exact ⟨⟨rfl, rfl, rfl, rfl, le_rfl⟩, .refl host w.asked known, by simp⟩
  | cons head rest inductionHypothesis =>
      rw [List.map_cons, List.nodup_cons] at distinct
      rw [List.forall_mem_cons] at new
      rw [List.foldlM_cons]
      refine meets_bind.mpr (meets_bind.mpr (meets_consult.mpr ?_))
      have others : ∀ p ∈ rest, (known.insert head.name
          (.default (host.answers w.asked).uuid))[p.name]? = none := by
        intro p member
        rw [TreeMap.get_insert, if_neg]
        · exact new.2 p member
        · rintro same
          exact distinct.1 (same ▸ List.mem_map_of_mem member)
      refine (inductionHypothesis distinct.2 _ others).mono
        (fun pools' w' ⟨waits, extends_, entries⟩ => ⟨?_, ?_, fun name => ?_⟩) fun _ _ => id
      · exact ⟨waits.engine, waits.store, waits.file, waits.history,
          (Nat.le_succ _).trans waits.asked⟩
      · exact (State.Extends.insert new.1 le_rfl).trans extends_
      · rw [entries name, TreeMap.get_insert]
        split
        · next same => simp [same]
        · next different => simp [different]

theorem openEngine_of_install {text : String} {blank : Engine} {after : World}
    (opened : openEngine host (.install text blank) = (.ok (), after)) :
    Installed host text after := by
  suffices meets : Meets host openEngine (.install text blank) (fun _ => Installed host text)
      (fun _ _ => True) from meets.returned opened
  unfold openEngine
  refine meets_bind.mpr (meets_bind.mpr (meets_storeLoad.mpr ?_))
  split
  · refine meets_bind.mpr (meets_readConfig.mpr ?_)
    split
    · next read _ _ file =>
        cases file
        refine meets_bind.mpr (meets_parseConfig.mpr ?_)
        split
        · next config parsed =>
            split
            · next validated =>
                have valid := Config.validate_eq_ok_iff.mp validated
                refine meets_bind.mpr (meets_hash.mpr (meets_bind.mpr (meets_bind.mpr ?_)))
                refine (newPools_meets config.pools valid.distinct ∅ (by simp)).mono
                  (fun pools w₁ drawn => ?_) fun _ _ => False.elim
                obtain ⟨waits, extends_, entries⟩ := drawn
                refine meets_bind.mpr (meets_consult.mpr ?_)
                refine meets_bind.mpr (meets_storeSave.mpr ?_)
                split
                · change Installed host text _
                  refine ⟨parsed, validated, rfl, rfl, waits.file, rfl, rfl, rfl, ?_, ?_, ?_⟩
                  · exact ((State.Extends.refl host 0 ∅).widen (Nat.zero_le _)).trans
                      (extends_.widen (Nat.le_add_right w₁.asked 2))
                  · intro name
                    change (∃ p, pools[name]? = some p) ↔
                      ∃ entry ∈ config.pools, entry.name = name
                    rw [entries name]
                    simp
                  · exact ⟨_, _, congrArg (· ++ [_] ++ [_]) waits.history, rfl, rfl, rfl, rfl,
                      rfl, waits.file⟩
                · trivial
            · trivial
        · trivial
    · trivial
  · trivial

end Opening

/-! ## Invariants of executions -/

/-- `holds` is kept by every step and reestablished by a restart.  A crash leaves of it
what `durable` says of the questions asked, the history and the store. -/
structure Invariant (host : Host) (holds : World → Prop)
    (durable : Nat → List Moment → Option State → Prop) : Prop where
  start : ∀ {text : String} {after : World}, Installed host text after → holds after
  step : ∀ {w w' : World}, holds w → Step host w w' → holds w'
  survives : ∀ {w : World}, holds w → durable w.asked w.history w.store
  /-- The handling of a request can be cut short. -/
  served : ∀ {w : World} {request : Request} {n : Nat} {new : List Moment}
    {store : Option State}, holds w → Ready host w → Handling host request w n new store →
      durable n (w.history ++ new) store
  mono : ∀ {n n' : Nat} {history : List Moment} {store : Option State},
    durable n history store → n ≤ n' → durable n' history store
  reopen : ∀ {w : World} {t : State} (effect : Bool),
    durable w.asked w.history w.store → w.store = some t →
    holds (w.reopened host effect t)

/-- The worlds at the end of a turn, whether or not the manager survived it. -/
inductive Executed (host : Host) : World → Prop where
  | reached {w : World} : Reachable host w → Executed host w
  | ended {before after : World} :
      Reachable host before → Turn host before after → Executed host after

section Invariants

variable {host : Host} {w w' : World} {holds : World → Prop}
  {durable : Nat → List Moment → Option State → Prop}

/-- What a step adds to the history. -/
theorem Step.moments (step : Step host w w') :
    w'.history = w.history ∨ (∃ m, w'.history = w.history ++ [m] ∧ m.store = w'.store) ∨
      ∃ polled request, Ready host w ∧ Served host polled request w w' := by
  cases step with
  | silent _ _ _ history => exact .inl history
  | leave | observe | forget | drain | note => exact .inl rfl
  | serve ready served => exact .inr (.inr ⟨_, _, ready, served⟩)
  | enter | edit | log | begin | fail | save | drop | record | delete | commit | write =>
      exact .inr (.inl ⟨_, rfl, rfl⟩)

/-- `durable` holds at every moment after `before`. -/
def Lasts (durable : Nat → List Moment → Option State → Prop) (n : Nat)
    (before history : List Moment) : Prop :=
  ∃ new, history = before ++ new ∧
    Recorded (fun first m => durable n (before ++ first ++ [m]) m.store) new

namespace Invariant

theorem lasts_pending (invariant : Invariant host holds durable) {request : Request}
    (holding : holds w) (ready : Ready host w) (pending : Pending host request w w') :
    Lasts durable w'.asked w.history w'.history := by
  obtain ⟨new, history, handling⟩ := pending.handling
  refine ⟨new, history, ?_⟩
  rintro first m rest rfl
  rw [List.append_assoc]
  exact invariant.served holding ready handling.cut

theorem lasts_mono (invariant : Invariant host holds durable) {n n' : Nat}
    {before history : List Moment} (lasts : Lasts durable n before history) (le : n ≤ n') :
    Lasts durable n' before history := by
  obtain ⟨new, continues, recorded⟩ := lasts
  exact ⟨new, continues, recorded.mono fun _ _ held => invariant.mono held le⟩

theorem lasts_trans (invariant : Invariant host holds durable) {n n' : Nat}
    {first second third : List Moment} (left : Lasts durable n first second)
    (right : Lasts durable n' second third) (le : n ≤ n') : Lasts durable n' first third := by
  obtain ⟨new, rfl, recorded⟩ := invariant.lasts_mono left le
  obtain ⟨new', rfl, recorded'⟩ := right
  refine ⟨new ++ new', List.append_assoc .., recorded_append.mpr ⟨recorded, ?_⟩⟩
  exact recorded'.mono fun earlier m held => by simpa only [List.append_assoc] using held

/-- A moment at which the invariant holds. -/
theorem lasts_moment (invariant : Invariant host holds durable) (holding : holds w')
    {m : Moment} (history : w'.history = w.history ++ [m]) (store : m.store = w'.store) :
    Lasts durable w'.asked w.history w'.history := by
  refine ⟨[m], history, List.nil_append [m] ▸ recorded_concat.mpr ⟨recorded_nil, ?_⟩⟩
  have survives := invariant.survives holding
  rw [history, ← store] at survives
  simpa using survives

/-- A run of steps keeps the invariant, and would leave its durable part at any moment. -/
theorem steps (invariant : Invariant host holds durable) (holding : holds w)
    (steps : Steps host w w') :
    holds w' ∧ Lasts durable w'.asked w.history w'.history := by
  induction steps with
  | refl => exact ⟨holding, [], by simp, recorded_nil⟩
  | @tail mid w' _ step inductionHypothesis =>
      obtain ⟨held, lasts⟩ := inductionHypothesis
      have kept := invariant.step held step
      refine ⟨kept, invariant.lasts_trans lasts ?_ step.advances.asked⟩
      rcases step.moments with same | ⟨m, history, store⟩ | ⟨_, _, ready, served⟩
      · exact ⟨[], by simp [same], recorded_nil⟩
      · exact invariant.lasts_moment kept history store
      · obtain ⟨w₁, result, pending, rfl⟩ := served.pending
        refine invariant.lasts_trans (invariant.lasts_pending held ready pending) ?_ le_rfl
        exact invariant.lasts_moment kept rfl rfl

end Invariant

/-- A turn is a run of steps, unless a panic ended it. -/
theorem Turn.steps (turn : Turn host w w') (ready : Ready host w)
    (idle : w.engine.reconcileEpoch = none) :
    ∃ mid, Steps host w mid ∧ (w' = mid ∨ Panicked host mid w') := by
  cases turn with
  | request request =>
      generalize run : serveRequest true request host w = result
      match result with
      | (.ok (), after) =>
          have served := (serveRequest_meets host true request w).returned run
          exact ⟨after, .single (.serve ready served), .inl rfl⟩
      | (.error fault, after) =>
          obtain ⟨pending, -, unindexed⟩ :=
            (serveRequest_meets host true request w).stopped run
          exact ⟨w, .refl, .inr ⟨ready, request, pending, unindexed⟩⟩
  | tick =>
      generalize run : Runnerctl.tick host w = result
      match result with
      | (.ok (), after) =>
          cases (tick_meets ready idle).returned run with
          | idle steps => exact ⟨after, steps, .inl rfl⟩
          | passed begins concludes => exact ⟨after, begins.steps.trans concludes.steps,
            .inl rfl⟩
      | (.error fault, after) =>
          obtain ⟨origin, begins, collapses⟩ := (tick_meets ready idle).stopped run
          cases fault with
          | error error => exact ⟨after, begins.steps.trans collapses.steps, .inl rfl⟩
          | panic =>
              obtain ⟨mid, steps, ends⟩ := collapses.steps
              exact ⟨mid, begins.steps.trans steps, ends⟩

/-- What a turn leaves at each of its moments, and at its end. -/
theorem Invariant.turn (invariant : Invariant host holds durable) (holding : holds w)
    (ready : Ready host w) (idle : w.engine.reconcileEpoch = none) (turn : Turn host w w') :
    Lasts durable w'.asked w.history w'.history ∧ durable w'.asked w'.history w'.store := by
  obtain ⟨mid, steps, rfl | ⟨ready, request, pending, -⟩⟩ := turn.steps ready idle
  · obtain ⟨held, lasts⟩ := invariant.steps holding steps
    exact ⟨lasts, invariant.survives held⟩
  · obtain ⟨held, lasts⟩ := invariant.steps holding steps
    refine ⟨invariant.lasts_trans lasts (invariant.lasts_pending held ready pending)
      pending.asked, ?_⟩
    obtain ⟨new, history, handling⟩ := pending.handling
    rw [history]
    exact invariant.served held ready handling

/-- What a crash during a turn leaves. -/
theorem Invariant.crash (invariant : Invariant host holds durable) (holding : holds w)
    (ready : Ready host w) (idle : w.engine.reconcileEpoch = none) (turn : Turn host w w')
    {dead : World} (crash : Crash w w' dead) :
    ∃ (left : World) (effect : Bool), dead = left.log (.crashed effect) ∧
      durable left.asked left.history left.store := by
  obtain ⟨⟨new, history, recorded⟩, -⟩ := invariant.turn holding ready idle turn
  obtain ⟨mid, steps, ends⟩ := turn.steps ready idle
  have asked : w.asked ≤ w'.asked := by
    rcases ends with rfl | ⟨-, _, pending, -⟩
    · exact (Steps.advances steps).asked
    · exact (Steps.advances steps).asked.trans pending.asked
  cases crash with
  | early effect =>
      have kept : durable w'.asked w.history w.store :=
        invariant.mono (invariant.survives holding) asked
      exact ⟨{ w with asked := w'.asked }, effect, rfl, kept⟩
  | late first m rest effect cut =>
      refine ⟨_, effect, rfl, recorded first m rest ?_⟩
      exact List.append_cancel_left (history.symm.trans (cut.trans (List.append_assoc ..)))

/-- Along with an invariant its durable part holds at every moment, if it holds while the manager
is installed and outlives its death. -/
theorem Invariant.lasting (invariant : Invariant host holds durable)
    (opening : ∀ {text : String} {after : World}, Installed host text after →
      Recorded (fun first m => durable after.asked (first ++ [m]) m.store) after.history)
    (death : ∀ {n : Nat} {history : List Moment} {m : Moment} {effect : Bool},
      m.event = .crashed effect → durable n history m.store →
        durable n (history ++ [m]) m.store) :
    Invariant host
      (fun w => holds w ∧
        Recorded (fun first m => durable w.asked (first ++ [m]) m.store) w.history)
      (fun n history store => durable n history store ∧
        Recorded (fun first m => durable n (first ++ [m]) m.store) history) where
  start installed := ⟨invariant.start installed, opening installed⟩
  step {w w'} := fun ⟨holding, recorded⟩ step => by
    obtain ⟨held, new, history, lasts⟩ := invariant.steps holding (.single step)
    refine ⟨held, history ▸ recorded_append.mpr ⟨recorded.mono fun _ _ before => ?_, lasts⟩⟩
    exact invariant.mono before step.advances.asked
  survives := fun ⟨holding, recorded⟩ => ⟨invariant.survives holding, recorded⟩
  served {w request n new store} := fun ⟨holding, recorded⟩ ready handling => by
    refine ⟨invariant.served holding ready handling, recorded_append.mpr
      ⟨recorded.mono fun _ _ before => invariant.mono before handling.asked, ?_⟩⟩
    rintro first m rest rfl
    rw [List.append_assoc]
    exact invariant.served holding ready handling.cut
  mono := fun ⟨held, recorded⟩ le =>
    ⟨invariant.mono held le, recorded.mono fun _ _ before => invariant.mono before le⟩
  reopen {w t} effect := fun ⟨held, recorded⟩ stored => by
    have holding := invariant.reopen effect held stored
    refine ⟨holding, ?_⟩
    have survives := invariant.survives holding
    simp only [World.reopened, World.log_history, World.advance_history] at survives ⊢
    rw [recorded_concat, recorded_concat]
    refine ⟨⟨recorded.mono fun _ _ before => invariant.mono before (Nat.le_succ _), ?_⟩,
      survives⟩
    exact invariant.mono (death rfl held) (Nat.le_succ _)

/-! ## What is stored -/

/-- The store holds a state that may be loaded. -/
def Storing (host : Host) (n : Nat) (history : List Moment) (store : Option State) : Prop :=
  ∃ t, store = some t ∧ t.roster.Named host n ∧
    (Restored history → Fresh host n → t.Sound ∧ t.Drawn host n)

theorem Storing.mono {n n' : Nat} {history history' : List Moment} {store : Option State}
    (storing : Storing host n history store) (le : n ≤ n')
    (restored : Restored history' → Restored history) : Storing host n' history' store := by
  obtain ⟨t, stored, named, sound⟩ := storing
  exact ⟨t, stored, named.mono le, fun restored' fresh =>
    (sound (restored restored') (fresh.mono le)).imp_right (·.mono le)⟩

theorem Storing.of_savable {s : State} (savable : Savable host w s) :
    Storing host w.asked w.history (some s) :=
  ⟨s, rfl, savable.named, savable.sound⟩

theorem Ready.storing (ready : Ready host w) : Storing host w.asked w.history w.store := by
  obtain ⟨t, stored, backs⟩ := ready.stored
  refine ⟨t, stored, backs.roster ▸ ready.named, fun restored fresh => ?_⟩
  obtain ⟨sound, drawn⟩ := ready.sound restored fresh
  have same := backs.intent restored
  obtain ⟨-, -, -, -, pools, -⟩ := State.intent_eq_iff.mp same
  exact ⟨sound.of_intent same.symm, fun name p found => drawn name p (pools ▸ found)⟩

theorem Storing.ready {t : State} (storing : Storing host w.asked w.history w.store)
    (stored : w.store = some t) (state : w.engine.state = t) : Ready host w := by
  obtain ⟨_, stored', named, sound⟩ := storing
  cases stored.symm.trans stored'
  exact .saved (by rw [stored, state]) (state ▸ ⟨named, sound⟩)

theorem restored_concat {history : List Moment} {m : Moment}
    (event : m.event ≠ .readBack false) : Restored (history ++ [m]) ↔ Restored history := by
  rw [restored_append, and_iff_left]
  simpa [Restored] using event

/-- Freshly drawn pools without runs are sound. -/
theorem Installed.sound {text : String} (installed : Installed host text w)
    (fresh : Fresh host w.asked) : w.engine.state.Sound ∧ w.engine.state.Drawn host w.asked := by
  have unrecorded {id : String} {run : Run} (found : w.engine.state.runs[id]? = some run) :
      False := by simp [installed.runs] at found
  have drawn {name : String} {p : PoolState} (found : w.engine.state.pools[name]? = some p) :
      ∃ k generation, k < w.asked ∧
        p = { PoolState.default (host.answers k).uuid with generation } := by
    obtain ⟨k, generation, -, small, rfl⟩ := installed.pools.added found (by simp)
    exact ⟨k, generation, small, rfl⟩
  refine ⟨⟨⟨installed.entries, fun found => (unrecorded found).elim⟩,
    Config.validate_eq_ok_iff.mp installed.validated,
    fun found found' => installed.pools.apart fresh (by simp) (by simp) found found',
    fun found => (unrecorded found).elim, fun found => (unrecorded found).elim,
    fun found deleting => ?_, fun _ _ found => (unrecorded found).elim,
    fun found => (unrecorded found).elim, fun found late => ?_,
    fun _ _ found => (unrecorded found).elim⟩, fun name p found => ?_⟩
  · obtain ⟨_, _, -, rfl⟩ := drawn found
    rfl
  · obtain ⟨_, _, -, rfl⟩ := drawn found
    exact absurd late (Nat.lt_irrefl 0)
  · obtain ⟨k, _, small, rfl⟩ := drawn found
    exact ⟨k, small, rfl⟩

theorem Installed.storing {text : String} (installed : Installed host text w) :
    Storing host w.asked w.history w.store := by
  refine ⟨_, installed.store, fun id key found => ?_, fun _ => installed.sound⟩
  rw [State.roster, TreeMap.get_image, installed.runs] at found
  simp at found

theorem Storing.served {request : Request} {n : Nat} {new : List Moment} {store : Option State}
    (ready : Ready host w) (le : w.asked ≤ n) (storable : Storable host request w n store) :
    Storing host n (w.history ++ new) store := by
  rcases storable with rfl | ⟨s, rfl, origin⟩
  · exact ready.storing.mono le fun restored => (restored_append.mp restored).1
  · have roster : s.roster = w.engine.state.roster := by
      rcases origin with commits | ⟨_, accepts⟩
      · exact commits.roster
      · exact accepts.roster
    refine ⟨s, rfl, roster ▸ ready.named.mono le, fun restored fresh => ?_⟩
    obtain ⟨sound, drawn⟩ := ready.sound (restored_append.mp restored).1 (fresh.mono le)
    rcases origin with commits | ⟨_, accepts⟩
    · exact commits.sound le sound drawn fresh
    · exact accepts.sound le sound drawn fresh

/-- Every step leaves a state in the store that may be loaded. -/
theorem storing_invariant (host : Host) :
    Invariant host (fun w => Storing host w.asked w.history w.store) (Storing host) where
  start installed := installed.storing
  step {w w'} storing step := by
    have kept (store : w'.store = w.store) : Storing host w'.asked w'.history w'.store := by
      rw [store]
      refine storing.mono step.advances.asked fun restored m member => ?_
      exact restored m (step.advances.history.subset member)
    cases step with
    | silent _ store => exact kept store
    | serve ready served => exact (served.ready ready).storing
    | save savable =>
        exact (Storing.of_savable savable).mono le_rfl fun restored =>
          (restored_append.mp restored).1
    | commit _ _ _ _ savable =>
        exact (Storing.of_savable savable).mono le_rfl fun restored =>
          (restored_append.mp restored).1
    | enter | leave | log | edit | begin | observe | forget | drain | note | fail
    | drop | record | delete | write => exact kept rfl
  survives := id
  served _ ready handling := Storing.served ready handling.asked handling.storable
  mono storing le := storing.mono le id
  reopen {w t} effect storing stored := by
    refine storing.mono (Nat.le_succ _) ?_
    simp only [World.reopened, World.log_history, World.advance_history]
    rw [restored_concat (by simp), restored_concat (by simp)]
    exact id

/-- Between turns the manager is ready, and no pass is under way. -/
theorem Reachable.ready (reachable : Reachable host w) :
    Ready host w ∧ w.engine.reconcileEpoch = none := by
  induction reachable with
  | start opened =>
      have installed := openEngine_of_install opened
      exact ⟨installed.storing.ready installed.store rfl, by rw [installed.engine]; rfl⟩
  | request request _ run inductionHypothesis =>
      obtain ⟨ready, idle⟩ := inductionHypothesis
      have served := (serveRequest_meets host true request _).returned run
      exact ⟨served.ready ready, served.reconcileEpoch.trans idle⟩
  | tick _ run inductionHypothesis =>
      obtain ⟨ready, idle⟩ := inductionHypothesis
      cases (tick_meets ready idle).returned run with
      | idle _ ready idle => exact ⟨ready, idle⟩
      | passed _ concludes => exact ⟨concludes.ready, concludes.reconcileEpoch⟩
  | edit text _ inductionHypothesis =>
      obtain ⟨ready, idle⟩ := inductionHypothesis
      exact ⟨ready.frame rfl rfl (fun restored => (restored_append.mp restored).1) le_rfl, idle⟩
  | restart _ turn crash opened inductionHypothesis =>
      obtain ⟨ready, idle⟩ := inductionHypothesis
      obtain ⟨left, effect, rfl, storing⟩ :=
        (storing_invariant host).crash ready.storing ready idle turn crash
      obtain ⟨t, stored, -⟩ := id storing
      have same := openEngine_of_store (w := left.log (.crashed effect)) stored opened
      subst same
      refine ⟨Storing.ready ((storing_invariant host).reopen effect storing stored) stored rfl,
        rfl⟩

/-- What is invariant holds of every world in which a turn begins. -/
theorem Invariant.reachable (invariant : Invariant host holds durable)
    (reachable : Reachable host w) : holds w := by
  induction reachable with
  | start opened => exact invariant.start (openEngine_of_install opened)
  | request request reachable run inductionHypothesis =>
      have served := (serveRequest_meets host true request _).returned run
      exact invariant.step inductionHypothesis (.serve reachable.ready.1 served)
  | tick reachable run inductionHypothesis =>
      obtain ⟨ready, idle⟩ := reachable.ready
      cases (tick_meets ready idle).returned run with
      | idle steps => exact (invariant.steps inductionHypothesis steps).1
      | passed begins concludes =>
          exact (invariant.steps inductionHypothesis (begins.steps.trans concludes.steps)).1
  | edit text _ inductionHypothesis => exact invariant.step inductionHypothesis (.edit text)
  | restart reachable turn crash opened inductionHypothesis =>
      obtain ⟨ready, idle⟩ := reachable.ready
      obtain ⟨left, effect, rfl, durable⟩ :=
        invariant.crash inductionHypothesis ready idle turn crash
      obtain ⟨left', effect', same, t, stored, -⟩ :=
        (storing_invariant host).crash ready.storing ready idle turn crash
      have stored : left.store = some t := by
        rw [← World.log_store left (.crashed effect), same]
        exact stored
      have same := openEngine_of_store (w := left.log (.crashed effect)) stored opened
      subst same
      exact invariant.reopen effect durable stored

/-- What is durable holds at the end of every turn. -/
theorem Invariant.executed (invariant : Invariant host holds durable)
    (executed : Executed host w) : durable w.asked w.history w.store := by
  cases executed with
  | reached reachable => exact invariant.survives (invariant.reachable reachable)
  | ended reachable turn =>
      obtain ⟨ready, idle⟩ := reachable.ready
      exact (invariant.turn (invariant.reachable reachable) ready idle turn).2

end Invariants

end Runnerctl
