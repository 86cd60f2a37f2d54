import Runnerctl.Guarantees.Agreement
import Runnerctl.Metatheory.Causes
import Runnerctl.Model.Queries

/-!
# The structure of the state

Whatever the manager turns to, it finds a sound state in memory, and every state it
stores is sound.  The only way around is a failed read-back, after which memory keeps what
a failed request left there.
-/

namespace Runnerctl

open Std Program Journal

/-- The manager turns to a request or to a pool, or has been started. -/
def Event.turns : Event → Bool
  | .received _ | .passStarted _ _ _ | .opened => true
  | _ => false

/-- What memory holds when the manager turns to something, and what the store holds at any
moment.  `before` are the moments that precede it. -/
inductive Seen (host : Host) (w : World) : (before : List Moment) → State → Prop where
  | idle : Reachable host w → Seen host w w.history w.engine.state
  | turning {first rest : List Moment} {m : Moment} :
      Executed host w → w.history = first ++ m :: rest → m.event.turns = true →
      Seen host w first m.state
  | stored {first rest : List Moment} {m : Moment} {s : State} :
      Executed host w → w.history = first ++ m :: rest → m.store = some s →
      Seen host w (first ++ [m]) s

section Seen

variable {host : Host} {w w' : World} {before first : List Moment} {m : Moment} {s : State}

/-- A request is being handled at a moment that is not its arrival. -/
theorem Handling.arrival {request : Request} {n : Nat} {new : List Moment}
    {store : Option State} (handling : Handling host request w n (new ++ [m]) store)
    (turns : m.event.turns = true) : new = [] ∧ m = w.moment (.received request) := by
  obtain ⟨inner, arrived, between⟩ := handling.arrived
  cases new with
  | nil =>
      obtain ⟨rfl, -⟩ := List.cons.inj arrived
      exact ⟨rfl, rfl⟩
  | cons head rest =>
      obtain ⟨-, rfl⟩ := List.cons.inj arrived
      have inside := between m (List.mem_append_right _ (List.mem_singleton_self m))
      cases event : m.event <;>
        simp_all [Event.turns, Event.between, Event.inner]

/-- A step that turns to something finds memory as it leaves it. -/
theorem Step.turning (step : Step host w w') (history : w'.history = w.history ++ [m])
    (turns : m.event.turns = true) : Ready host w ∧ m.state = w.engine.state := by
  have last {event : Event} (added : w'.history = w.history ++ [w'.moment event]) :
      m.event = event ∧ m.state = w'.engine.state := by
    have same := List.append_cancel_left (history.symm.trans added)
    obtain ⟨rfl, -⟩ := List.cons.inj same
    exact ⟨rfl, rfl⟩
  have unmoved (same : w'.history = w.history) : False := by
    simp [same] at history
  cases step with
  | silent _ _ _ same => exact (unmoved same).elim
  | leave | observe | forget | drain | note => exact (unmoved rfl).elim
  | enter ready =>
      obtain ⟨-, state⟩ := last rfl
      exact ⟨ready, state⟩
  | @log event plain =>
      obtain ⟨same, -⟩ := last rfl
      rw [same] at turns
      cases event <;> simp_all [Event.turns, Event.plain]
  | serve _ served =>
      obtain ⟨inner, result, added, -⟩ := served.outcome
      rw [history, List.append_assoc] at added
      simpa using List.append_cancel_left added
  | edit | begin | fail | save | drop | record | write =>
      obtain ⟨same, -⟩ := last rfl
      rw [same] at turns
      cases turns
  | delete | commit =>
      obtain ⟨rfl, -⟩ := List.cons.inj (List.append_cancel_left history)
      cases turns

/-- Whatever is stored may be loaded. -/
theorem Caused.stored {n : Nat} {holds : World → Prop} (caused : Caused host holds n first m)
    (storing : ∀ {w : World}, holds w → Storing host w.asked w.history w.store)
    (stored : m.store = some s) (restored : Restored (first ++ [m])) (fresh : Fresh host n) :
    s.Sound ∧ s.Drawn host n := by
  have read {k : Nat} {history : List Moment} {store : Option State}
      (there : Storing host k history store) (le : k ≤ n) (same : m.store = store)
      (earlier : Restored history) : s.Sound ∧ s.Drawn host n := by
    obtain ⟨t, held, -, sound⟩ := there
    cases (stored.symm.trans same).trans held
    exact (sound earlier (fresh.mono le)).imp_right (·.mono le)
  cases caused with
  | @installed text w rest installed _ asked history =>
      have holds : ∀ m ∈ w.history, m.store = none ∨ m.store = w.store := by
        obtain ⟨read, saved, history, -, unstored, -, -, kept, -⟩ := installed.history
        simp [history, unstored, kept]
      rcases holds m (history ▸ by simp) with none | same
      · exact nomatch none.symm.trans stored
      · cases (stored.symm.trans same).trans installed.store
        exact (installed.sound (fresh.mono asked)).imp_right (·.mono asked)
  | stepped _ _ held asked before history store =>
      subst before
      exact read (storing held) asked store (history ▸ restored)
  | handling _ ready handling asked before =>
      subst before
      rw [List.append_assoc] at restored
      exact read (.served ready handling.asked handling.storable) asked rfl restored
  | handled _ _ _ held asked before history same =>
      subst before same
      exact read (storing held) asked rfl (history ▸ restored)
  | crashed _ storing => exact read storing le_rfl rfl (restored_append.mp restored).1
  | reopened holding asked _ _ history same =>
      subst same
      exact read (storing holding) asked rfl (history ▸ restored)

/-- The manager turns to something with a sound state in memory. -/
theorem Caused.turning {n : Nat} {holds : World → Prop} (caused : Caused host holds n first m)
    (storing : ∀ {w : World}, holds w → Storing host w.asked w.history w.store)
    (turns : m.event.turns = true) (restored : Restored first) (fresh : Fresh host n) :
    m.state.Sound ∧ m.state.Drawn host n := by
  have read {w : World} (ready : Ready host w) (le : w.asked ≤ n)
      (earlier : Restored w.history) (state : m.state = w.engine.state) :
      m.state.Sound ∧ m.state.Drawn host n := by
    rw [state]
    exact (ready.sound earlier (fresh.mono le)).imp_right (·.mono le)
  have restored' (event : m.event ≠ .readBack false) : Restored (first ++ [m]) :=
    (restored_concat event).mpr restored
  cases caused with
  | @installed text w rest installed _ asked history =>
      have opened : m.state = w.engine.state := by
        obtain ⟨read, saved, moments, readEvent, -, -, savedEvent, -⟩ := installed.history
        have member : m ∈ w.history := history ▸ by simp
        rw [moments] at member
        rcases List.mem_cons.mp member with rfl | member
        · simp [readEvent, Event.turns] at turns
        rcases List.mem_cons.mp member with rfl | member
        · simp [savedEvent, Event.turns] at turns
        · cases List.mem_singleton.mp member
          rfl
      rw [opened]
      exact (installed.sound (fresh.mono asked)).imp_right (·.mono asked)
  | stepped _ step _ asked before history _ =>
      subst before
      obtain ⟨ready, state⟩ := step.turning history turns
      exact read ready (step.advances.asked.trans asked) restored state
  | handling _ ready handling asked before =>
      obtain ⟨rfl, rfl⟩ := handling.arrival turns
      subst before
      rw [List.append_nil] at restored
      exact read ready (handling.asked.trans asked) restored rfl
  | handled _ _ _ _ _ _ _ same =>
      subst same
      cases turns
  | crashed event => simp [event, Event.turns] at turns
  | @reopened w t holding asked engine store history same =>
      subst same
      obtain ⟨_, held, -, sound⟩ := storing holding
      cases store.symm.trans held
      rw [World.moment_state, engine]
      refine (sound ?_ (fresh.mono asked)).imp_right (·.mono asked)
      exact history ▸ restored' (by simp)

/-- Every state that can be seen is sound, if failed requests were read back before. -/
theorem Seen.sound (seen : Seen host w before s) (restored : Restored before)
    (fresh : Fresh host w.asked) : s.Sound ∧ s.Drawn host w.asked := by
  cases seen with
  | idle reachable => exact reachable.ready.1.sound restored fresh
  | turning executed history turns =>
      exact ((storing_invariant host).caused executed _ _ _ history).turning id turns restored
        fresh
  | stored executed history stored =>
      exact ((storing_invariant host).caused executed _ _ _ history).stored id stored restored
        fresh

/-! ## Generations -/

/-- No run is newer than its pool, and the runs of the current generation were built from
the current entry. -/
def State.Generations (s : State) : Prop :=
  ∀ (id name : String) (run : Run) (p : PoolState), s.runs[id]? = some run →
    s.pools[name]? = some p → run.poolId = p.id →
      ∃ entry, s.config.pool? name = some entry ∧ run.generation ≤ p.generation ∧
        (run.generation = p.generation → run.pool.Agrees entry)

/-- The runs of a pool were registered where its current entry looks for them. -/
def State.Scoped (s : State) : Prop :=
  ∀ (id name : String) (run : Run) (p : PoolState), s.runs[id]? = some run →
    s.pools[name]? = some p → run.poolId = p.id →
      ∃ entry, s.config.pool? name = some entry ∧ run.pool.apiScope = entry.apiScope ∧
        run.pool.auth = entry.auth

/-- The build of a run precedes that of its pool. -/
theorem State.Sound.precedes (sound : s.Sound) {id name : String} {run : Run} {p : PoolState}
    (recorded : s.runs[id]? = some run) (found : s.pools[name]? = some p)
    (ofPool : run.poolId = p.id) :
    ∃ entry, s.config.pool? name = some entry ∧
      Build.Precedes ⟨run.generation, run.pool⟩ ⟨p.generation, entry⟩ := by
  obtain ⟨entry, member, rfl⟩ := (sound.entries name).mp ⟨p, found⟩
  obtain ⟨pool, known⟩ := Config.pool?_isSome member
  exact ⟨pool, known, sound.built found known recorded ofPool⟩

/-- Generations are sound in every state, if failed requests were read back. -/
theorem generations_sound (seen : Seen host w before s) (restored : Restored before)
    (fresh : Fresh host w.asked) : s.Generations := by
  intro id name run p recorded found ofPool
  obtain ⟨entry, known, precedes⟩ :=
    (seen.sound restored fresh).1.precedes recorded found ofPool
  exact ⟨entry, known, precedes.older, precedes.current⟩

/-- A pool that was upgraded keeps a run of its first generation. -/
theorem generations_sound_sample : ∃ w : World, w.engine.state.runs.size = 1 ∧
    (∃ p, w.engine.state.pools["a"]? = some p ∧ p.generation = 2) ∧
      w.engine.state.Generations := by
  let upgraded : Pool := { Pool.sample "a" 1 with image := "runner:2" }
  let host : Host := .scripted [.sample [.sample "a" 1], .sample [upgraded]] fun _ => id
  obtain ⟨w, reachable, holds⟩ := @Host.reaches host "" .blank
    [.request (.start (some "a") false), .tick, .request (.upgrade "a" "runner:2")]
    (fun w => w.engine.state.runs.size == 1 &&
      w.engine.state.pools["a"]?.any (·.generation == 2) && decide (Restored w.history) &&
      decide (w.asked ≤ 10 ^ 32)) (by decide +kernel)
  simp only [Bool.and_eq_true, beq_iff_eq, decide_eq_true_eq, Option.any_eq_true] at holds
  obtain ⟨⟨⟨size, upgraded⟩, restored⟩, fresh⟩ := holds
  replace fresh := fresh_of_scripted host (fun _ => rfl) fresh
  exact ⟨w, size, upgraded, generations_sound (.idle reachable) restored fresh⟩

/-- `Upgrade` fails, and so does the read-back, so that a pass copies the new generation.
A failed `Status` then restores the old one, and the pass records a run that is newer than
its pool. -/
theorem generation_overtaken : ∃ (host : Host) (w : World), Reachable host w ∧
    Fresh host w.asked ∧ ¬ w.engine.state.Generations := by
  let upgraded : Pool := { Pool.sample "a" 1 with image := "runner:2" }
  let host : Host := .scripted [.sample [.sample "a" 1], .sample [upgraded]] fun n answers =>
    if n = 7 ∨ n = 8 then { answers with succeeds := false }
    else if n = 10 then { answers with during := [.request (.status (some "b"))] }
    else answers
  obtain ⟨w, reachable, holds⟩ := @Host.reaches host "" .blank
    [.request (.start (some "a") false), .request (.upgrade "a" "runner:2"), .tick]
    (fun w => decide (w.asked ≤ 10 ^ 32) &&
      (TreeMap.values w.engine.state.runs).any fun run =>
        w.engine.state.runs[run.id]? == some run &&
          w.engine.state.pools["a"]?.any fun p =>
            run.poolId == p.id && decide (p.generation < run.generation))
    (by decide +kernel)
  simp only [Bool.and_eq_true, beq_iff_eq, decide_eq_true_eq, Option.any_eq_true,
    List.any_eq_true] at holds
  obtain ⟨fresh, run, -, recorded, p, found, ofPool, newer⟩ := holds
  replace fresh := fresh_of_scripted host
    (fun n => by dsimp only [host, Host.scripted]; repeat (first | rfl | split)) fresh
  refine ⟨host, w, reachable, fresh, fun sound => ?_⟩
  obtain ⟨_, -, older, -⟩ := sound run.id "a" run p recorded found ofPool
  omega

/-- Runs are cleaned up in the scope that registered them, if failed requests were read
back. -/
theorem registrations_scoped (seen : Seen host w before s) (restored : Restored before)
    (fresh : Fresh host w.asked) : s.Scoped := by
  intro id name run p recorded found ofPool
  obtain ⟨entry, known, precedes⟩ :=
    (seen.sound restored fresh).1.precedes recorded found ofPool
  exact ⟨entry, known, precedes.scope, precedes.profile⟩

/-- The scope of a clean pool changes, and its next run is registered there. -/
theorem registrations_scoped_sample : ∃ w : World, w.engine.state.runs.size = 1 ∧
    w.engine.state.revision = 2 ∧ w.engine.state.Scoped := by
  let moved : Pool := { Pool.sample "a" 1 with organization := "other" }
  let host : Host := .scripted [.sample [.sample "a" 1], .sample [moved]] fun _ => id
  obtain ⟨w, reachable, holds⟩ := @Host.reaches host "" .blank
    [.edit (some "#"), .request (.apply "#" 1), .request (.start (some "a") false), .tick]
    (fun w => w.engine.state.runs.size == 1 && w.engine.state.revision == 2 &&
      decide (Restored w.history) && decide (w.asked ≤ 10 ^ 32)) (by decide +kernel)
  simp only [Bool.and_eq_true, beq_iff_eq, decide_eq_true_eq] at holds
  obtain ⟨⟨⟨size, revision⟩, restored⟩, fresh⟩ := holds
  replace fresh := fresh_of_scripted host (fun _ => rfl) fresh
  exact ⟨w, size, revision, registrations_scoped (.idle reachable) restored fresh⟩

/-- During a pass `Stop` fails, and then `Apply` after its commit; neither is read back.
The pass is not interrupted and records a run of the scope that the pool had. -/
theorem registration_misplaced : ∃ (host : Host) (w : World), Reachable host w ∧
    Fresh host w.asked ∧ ¬ w.engine.state.Scoped := by
  let moved : Pool := { Pool.sample "a" 1 with organization := "other" }
  let host : Host := .scripted [.sample [.sample "a" 1], .sample [moved]] fun n answers =>
    if n = 7 then
      { answers with
        during := [.request (.stop (some "a") false false), .edit (some "#"),
          .request (.apply "#" 1)] }
    else if n = 8 ∨ n = 9 ∨ n = 12 ∨ n = 13 then { answers with succeeds := false }
    else answers
  obtain ⟨w, reachable, holds⟩ := @Host.reaches host "" .blank
    [.request (.start (some "a") false), .tick]
    (fun w => decide (w.asked ≤ 10 ^ 32) &&
      (TreeMap.values w.engine.state.runs).any fun run =>
        w.engine.state.runs[run.id]? == some run &&
          (w.engine.state.config.pool? "a" == some moved &&
            decide (run.pool.apiScope ≠ moved.apiScope)) &&
          w.engine.state.pools["a"]?.any (run.poolId == ·.id))
    (by decide +kernel)
  simp only [Bool.and_eq_true, beq_iff_eq, decide_eq_true_eq, Option.any_eq_true,
    List.any_eq_true] at holds
  obtain ⟨fresh, run, -, ⟨recorded, known, moved⟩, p, found, ofPool⟩ := holds
  replace fresh := fresh_of_scripted host
    (fun n => by dsimp only [host, Host.scripted]; repeat (first | rfl | split)) fresh
  refine ⟨host, w, reachable, fresh, fun addressed => ?_⟩
  obtain ⟨entry, known', same, -⟩ := addressed run.id "a" run p recorded found ofPool
  cases known.symm.trans known'
  exact moved same

/-! ## The structural invariant -/

/-- What indexing and unwrapping rely on. -/
structure State.Structured (s : State) : Prop where
  validated : s.config.validate = .ok ()
  distinct : (s.config.pools.map Pool.name).Nodup
  keys : ∀ name : String, s.pools.contains name = true ↔ name ∈ s.config.pools.map Pool.name
  ids : ∀ (name name' : String) (p p' : PoolState), s.pools[name]? = some p →
    s.pools[name']? = some p' → p.id = p'.id → name = name'
  keyed : ∀ (id : String) (run : Run), s.runs[id]? = some run → run.id = id
  owned : ∀ (id : String) (run : Run), s.runs[id]? = some run →
    ∃! name : String, ∃ p, s.pools[name]? = some p ∧ p.id = run.poolId
  profiles : ∀ (id : String) (run : Run), s.runs[id]? = some run →
    s.config.auth.contains run.pool.auth = true

theorem State.Sound.structured (sound : s.Sound) : s.Structured where
  validated := Config.validate_eq_ok_iff.mpr sound.valid
  distinct := sound.valid.distinct
  keys name := by
    rw [List.mem_map, ← sound.entries name, ExtTreeMap.contains_eq_isSome_getElem?,
      Option.isSome_iff_exists]
  ids _ _ _ _ := sound.ids
  keyed _ _ := sound.keyed
  owned id run recorded := by
    obtain ⟨name, p, found, owner⟩ := sound.owned recorded
    refine ⟨name, ⟨p, found, owner⟩, ?_⟩
    rintro other ⟨q, there, same⟩
    exact sound.ids there found (same.trans owner.symm)
  profiles _ _ := sound.profiles

theorem index_ne_panic {α : Type} {entry : Option α} (found : ∃ value, entry = some value) :
    index entry ≠ .error .panic := by
  obtain ⟨value, rfl⟩ := found
  nofun

/-- The version of an image is there once the image was checked. -/
theorem checkImage_contains (probe : Probe) (latest : Option String) (image : String)
    (findings : Findings) :
    ∃ version, (checkImage probe latest image findings).2[image]? = some version := by
  obtain ⟨checks, images⟩ := findings
  unfold checkImage
  dsimp only
  split
  · next known =>
      rw [ExtTreeMap.contains_eq_isSome_getElem?, Option.isSome_iff_exists] at known
      exact known
  · exact ⟨_, TreeMap.get_insert_self _ _ _⟩

theorem diagnosePool_ne_panic (sound : s.Sound) (probe : Probe) (latest : Option String)
    (findings : Findings) {p : Pool} (member : p ∈ s.config.pools) :
    diagnosePool probe s latest findings p ≠ .error .panic := by
  obtain ⟨ps, found⟩ := (sound.entries p.name).mpr ⟨p, member, rfl⟩
  have profile := sound.valid.authenticated member
  rw [ExtTreeMap.contains_eq_isSome_getElem?, Option.isSome_iff_exists] at profile
  unfold diagnosePool
  refine bind_ne_error (index_ne_panic profile) fun auth => ?_
  refine bind_ne_error (index_ne_panic (checkImage_contains probe latest p.image _))
    fun version => ?_
  exact bind_ne_error (index_ne_panic ⟨ps, found⟩) fun _ => nofun

theorem diagnose_ne_panic (sound : s.Sound) (probe : Probe) :
    diagnose probe s ≠ .error .panic :=
  bind_ne_error (foldlM_ne_error fun _ member findings =>
    diagnosePool_ne_panic sound probe _ findings member) fun _ => nofun

theorem runnerLogs_ne_panic (probe : Probe) (s : State) (pool id : String) :
    runnerLogs probe s pool id ≠ .error .panic := by
  unfold runnerLogs
  dsimp only
  repeat' split
  all_goals nofun

theorem Seen.isPrefix (seen : Seen host w before s) : before <+: w.history := by
  cases seen with
  | idle => exact List.prefix_refl _
  | turning _ history => exact history ▸ List.prefix_append _ _
  | @stored first rest m _ _ history =>
      exact ⟨rest, by rw [history, List.append_assoc, List.singleton_append]⟩

/-- Every state that can be seen is structured, queries read only such states, and nothing
that the manager does panics, if failed requests were read back. -/
theorem structure_sound (executed : Executed host w) (restored : Restored w.history)
    (fresh : Fresh host w.asked) :
    (∀ before s, Seen host w before s → s.Structured ∧ ∀ probe,
      diagnose probe s ≠ .error .panic ∧
        ∀ pool id, runnerLogs probe s pool id ≠ .error .panic) ∧
    (Reachable host w → ∃ t before, w.engine.snapshot = some t ∧ Seen host w before t) ∧
    ∀ earlier, Reachable host earlier →
      (∀ request outcome, serveRequest true request host earlier = (outcome, w) →
        outcome ≠ .error .panic) ∧
      ∀ outcome, tick host earlier = (outcome, w) → outcome ≠ .error .panic := by
  have seen {before : List Moment} {s : State} (seen : Seen host w before s) : s.Sound :=
    (seen.sound (fun m member => restored m (seen.isPrefix.subset member)) fresh).1
  refine ⟨fun before s found => ⟨(seen found).structured, fun probe =>
    ⟨diagnose_ne_panic (seen found) probe, runnerLogs_ne_panic probe s⟩⟩,
    fun reachable => ?_, fun earlier reachable => ⟨fun request outcome run => ?_,
      fun outcome run => ?_⟩⟩
  · obtain ⟨t, sent, m, member, stored⟩ := reachable.published
    obtain ⟨first, rest, history⟩ := List.append_of_mem member
    exact ⟨t, _, sent, .stored executed history stored⟩
  · rintro rfl
    obtain ⟨pending, -, unindexed⟩ := (serveRequest_meets host true request earlier).stopped run
    refine unindexed (reachable.ready.1.sound ?_ (fresh.mono pending.asked)).1.toIndexed
    exact restored_of_grows pending.history restored
  · rintro rfl
    obtain ⟨ready, idle⟩ := reachable.ready
    obtain ⟨origin, -, broken⟩ := (tick_meets ready idle).stopped run
    exact broken.unsound restored fresh

/-- A pool is added and another one gets its first run. -/
theorem structure_sound_sample : ∃ w : World, w.engine.state.runs.size = 1 ∧
    w.engine.state.pools.contains "b" = true ∧ w.engine.state.Structured := by
  let host : Host := .scripted
    [.sample [.sample "a" 1], .sample [.sample "a" 1, .sample "b" 2]] fun _ => id
  obtain ⟨w, reachable, holds⟩ := @Host.reaches host "" .blank
    [.request (.add (.sample "b" 2)), .request (.start (some "a") false), .tick]
    (fun w => w.engine.state.runs.size == 1 && w.engine.state.pools.contains "b" &&
      decide (Restored w.history) && decide (w.asked ≤ 10 ^ 32)) (by decide +kernel)
  simp only [Bool.and_eq_true, beq_iff_eq, decide_eq_true_eq] at holds
  obtain ⟨⟨⟨size, added⟩, restored⟩, fresh⟩ := holds
  replace fresh := fresh_of_scripted host (fun _ => rfl) fresh
  obtain ⟨every, -, -⟩ := structure_sound (.reached reachable) restored fresh
  exact ⟨w, size, added, (every _ _ (.idle reachable)).1⟩

end Seen

end Runnerctl
