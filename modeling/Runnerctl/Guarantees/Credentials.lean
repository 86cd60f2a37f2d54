import Runnerctl.Metatheory.Applying
import Runnerctl.Metatheory.Causes
import Runnerctl.Metatheory.Scripts

/-!
# Credentials from two sides

`Auth` and `Apply` can make the same change to a profile.  `Auth` also resets the retry state
of the pools of the profile, and `Apply` also marks the runs that drain.
-/

namespace Runnerctl

open Std Program

/-- The configuration with another credential for a profile. -/
def Config.withAuth (config : Config) (profile credential : String) (app : Option AppAuth) :
    Config :=
  { config with auth := config.auth.insert profile { credential, app } }

/-- A pool of the profile has a retry pending, or remembers failures. -/
def State.Held (s : State) (profile : String) : Prop :=
  ∃ (name : String) (p : PoolState), s.pools[name]? = some p ∧
    (s.config.pools.any fun c => c.name == name && c.auth == profile) = true ∧
    ¬ (p.retryAt = 0 ∧ p.failures = 0 ∧ p.error = none)

section Credentials

variable {host : Host} {s t : State} {w : World} {name profile credential text : String}
  {app : Option AppAuth} {next : Config}

namespace State

/-- Resetting the pools of a profile changes nothing if none of them is held up. -/
theorem resetProfile_pools_eq : (s.resetProfile profile).pools = s.pools ↔ ¬ s.Held profile := by
  constructor
  · rintro same ⟨name, p, found, uses, held⟩
    have reset := s.resetProfile_pool profile name
    rw [same, found, Option.map_some, if_pos uses, Option.some.injEq] at reset
    rw [reset] at held
    exact held ⟨rfl, rfl, rfl⟩
  · intro free
    apply ExtTreeMap.ext_getElem?
    intro name
    rw [resetProfile_pool]
    cases found : s.pools[name]? with
    | none => rfl
    | some p =>
        rw [Option.map_some]
        split
        · next uses =>
            obtain ⟨retryAt, failures, error⟩ := not_not.mp fun held =>
              free ⟨name, p, found, uses, held⟩
            cases p
            cases retryAt
            cases failures
            cases error
            rfl
        · rfl

end State

/-! ## An `Apply` that meets no failure -/

/-- `Apply` of another credential commits it, and marks the runs that drain. -/
theorem handleLocal_apply_withAuth (smooth : Smooth host w.asked) (memory : w.engine.state = s)
    (sound : s.Sound) (undeleted : ∀ (name : String) (p : PoolState),
      s.pools[name]? = some p → p.deleting = false)
    (file : w.file = some text)
    (parsed : host.parseToml text = some (s.config.withAuth profile credential app))
    (committed : Committed host s (s.config.withAuth profile credential app) t) :
    ∃ w', handleLocal (.apply text s.revision) host w = (.ok (.applied (s.revision + 1)), w') ∧
      t.pools.keys.foldlM State.markRetiring t = some w'.engine.state := by
  have applies : Applies host s (w.asked + 1) s.pools s.config.pools (w.asked + 1) s.pools :=
    .same fun _ member => sound.unedited undeleted member rfl
  have indexed : t.Indexed := by
    obtain ⟨-, printed, -, rfl⟩ := committed
    exact ⟨sound.entries, sound.keyed⟩
  refine handleLocal_apply_smooth smooth memory file parsed (fun p member => ⟨p, member, rfl⟩)
    applies le_rfl (fun run member => ?_) committed indexed
  simp only [Config.withAuth, ExtTreeMap.contains_insert, sound.runs_profiles run member,
    Bool.or_true]

/-- In an execution an `Auth` was accepted.  Wherever memory is the same, the file makes the
same change to the profile and no operation fails, `Apply` is accepted instead; it leads to the
same if and only if no pool of the profile is held up and no drain was left undone. -/
theorem apply_agrees_with_auth {w : World} {first rest : List Moment} {m : Moment}
    {polled : Bool} {response : Response} (executed : Executed host w)
    (history : w.history = first ++ m :: rest) (restored : Restored first)
    (fresh : Fresh host w.asked)
    (accepted : m.event = .handled polled (.auth profile credential app) s (.ok response))
    (undeleted : ∀ (name : String) (p : PoolState), s.pools[name]? = some p →
      p.deleting = false)
    {v : World} (memory : v.engine.state = s) (file : v.file = some text)
    (parsed : host.parseToml text = some (s.config.withAuth profile credential app))
    (smooth : Smooth host v.asked) :
    ∃ v', handleLocal (.apply text s.revision) host v = (.ok (.applied (s.revision + 1)), v') ∧
      v'.engine.state.config = m.state.config ∧ v'.engine.state.revision = m.state.revision ∧
      ((v'.engine.state.pools = m.state.pools ∧ v'.engine.state.runs = m.state.runs) ↔
        ¬ s.Held profile ∧ ¬ s.Behind) := by
  obtain ⟨w₀, w₁, new, storing, ready, served, asked, rfl, same, history', last⟩ :=
    ((storing_invariant host).caused executed first m rest history).served accepted
  have restored' : Restored w₀.history := (restored_append.mp (same ▸ restored)).1
  have sound := (ready.sound restored' (fresh.mono (served.asked.trans asked))).1
  obtain ⟨inner, result, moments, -, outcome⟩ := served.outcome
  obtain rfl := List.singleton_inj.mp (List.append_inj' (history'.symm.trans moments) rfl).2
  cases accepted
  cases outcome with
  | accepted accepts _ _ _ =>
      rw [World.moment_state]
      generalize w₁.engine.state = t at accepts
      generalize w₀.engine.state = s at *
      cases accepts with
      | @auth _ _ _ c commits =>
          cases commits with
          | auth _ _ committed =>
              obtain ⟨v', run, marked⟩ := handleLocal_apply_withAuth smooth memory sound undeleted
                file parsed committed
              obtain ⟨-, printed, -, rfl⟩ := committed
              have drained := State.foldlM_markRetiring_drained marked
              have indexed : (s.commit (s.config.withAuth profile credential app)
                  (host.sha256 printed)).Indexed := ⟨sound.entries, sound.keyed⟩
              refine ⟨v', run, drained.config, congrArg Header.revision drained.header,
                and_congr ?_ ?_⟩
              · rw [drained.pools]
                exact eq_comm.trans State.resetProfile_pools_eq
              · refine (indexed.foldlM_markRetiring_runs marked).trans ?_
                refine ⟨fun done ⟨name, behind⟩ => ?_,
                  fun done name _ behind => done ⟨name, behind⟩⟩
                have ⟨p, _, _, found, _⟩ := behind
                exact done name (TreeMap.mem_keys.mpr ⟨p, found⟩) behind

/-- A pool whose credential is not accepted until another one takes its place. -/
def Host.refused : Host :=
  .scripted [.sample [.sample "a" 1],
      (Config.sample [.sample "a" 1]).withAuth "team" "env:NEW" none]
    fun _ answers =>
      { answers with
        reply := fun op => match op with
          | .githubList _ _ _ _ | .githubToken _ _ _ => .error "unauthorized"
          | op => op.smooth }

/-- The last moment is the end of an accepted `Auth`, which `Apply` can make as well. -/
def World.authenticatedLast (host : Host) (w : World) (holds : State → State → Bool) : Bool :=
  w.history.getLast?.any fun m => match m.event with
    | .handled _ (.auth "team" "env:NEW" none) s (.ok _) =>
        ((s.pools.toList.all fun entry => !entry.2.deleting) &&
          decide (host.parseToml "#" = some (s.config.withAuth "team" "env:NEW" none))) &&
            holds s m.state
    | _ => false

theorem World.authenticated_last {w : World} {holds : State → State → Bool}
    (authenticated : w.authenticatedLast host holds = true) :
    ∃ before m polled s response, w.history = before ++ [m] ∧
      m.event = .handled polled (.auth "team" "env:NEW" none) s (.ok response) ∧
      (∀ (name : String) (p : PoolState), s.pools[name]? = some p → p.deleting = false) ∧
      host.parseToml "#" = some (s.config.withAuth "team" "env:NEW" none) ∧
      holds s m.state = true := by
  obtain ⟨m, last, authenticated⟩ := (Option.any_eq_true ..).mp authenticated
  split at authenticated
  · next polled s response event =>
      simp only [Bool.and_eq_true, List.all_eq_true, decide_eq_true_eq] at authenticated
      obtain ⟨⟨undeleted, parsed⟩, holding⟩ := authenticated
      refine ⟨_, m, polled, s, response, (List.dropLast_append_getLast? m last).symm, event,
        fun name p found => ?_, parsed, holding⟩
      have kept := undeleted _ (ExtTreeMap.mem_toList_iff_getElem?_eq_some.mpr found)
      exact (Bool.not_eq_true' _).mp kept
  · exact absurd authenticated Bool.false_ne_true

/-- No pool of the profile is held up. -/
def State.free (s : State) (profile : String) : Bool :=
  s.pools.toList.all fun entry =>
    !(s.config.pools.any fun c => c.name == entry.1 && c.auth == profile) ||
      (entry.2.retryAt == 0 && entry.2.failures == 0 && entry.2.error == none)

theorem State.not_held_of_free (free : s.free profile = true) : ¬ s.Held profile := by
  rintro ⟨name, p, found, uses, held⟩
  have entry := List.all_eq_true.mp free _ (ExtTreeMap.mem_toList_iff_getElem?_eq_some.mpr found)
  simp only [uses, Bool.not_true, Bool.false_or, Bool.and_eq_true, beq_iff_eq] at entry
  exact held ⟨entry.1.1, entry.1.2, entry.2⟩

/-- Two pools, of two profiles. -/
def Config.divided : Config :=
  { Config.sample [.sample "a" 1, { Pool.sample "b" 1 with auth := "other" }] with
    auth := ((∅ : ExtTreeMap String Auth).insert "other" ⟨"env:OTHER", none⟩).insert "team"
      ⟨"env:TOKEN", none⟩ }

/-- The credential of the profile `other` is refused. -/
def Host.divided : Host :=
  .scripted [.divided, Config.divided.withAuth "team" "env:NEW" none] fun _ answers =>
    { answers with
      reply := fun op => match op with
        | .githubList "other" _ _ _ | .githubToken "other" _ _ => .error "unauthorized"
        | op => op.smooth }

/-- The pool of the profile runs and has a run, while the pool of another profile is paused. -/
theorem apply_agrees_with_auth_sample :
    ∃ (v v' : World) (t : State) (p q : PoolState) (run : Run),
    handleLocal (.apply "#" v.engine.state.revision) Host.divided v =
        (.ok (.applied (v.engine.state.revision + 1)), v') ∧
      v'.engine.state.pools = t.pools ∧ v'.engine.state.runs = t.runs ∧
      v.engine.state.pools["a"]? = some p ∧ p.running = true ∧
        run ∈ v.engine.state.runsOf p.id ∧
      v.engine.state.pools["b"]? = some q ∧ q.retryAt ≠ 0 := by
  obtain ⟨w, reachable, holds⟩ := @Host.reaches .divided "" .blank
    [.request (.start none true), .tick, .tick, .tick, .request (.auth "team" "env:NEW" none)]
    (fun w => (decide (Restored w.history) && decide (w.asked ≤ 10 ^ 32)) &&
      w.authenticatedLast .divided fun s _ => (s.free "team" && s.drained) &&
        s.pools["a"]?.any (fun p => p.running && !(s.runsOf p.id).isEmpty) &&
          s.pools["b"]?.any fun q => q.retryAt != 0)
    (by decide +kernel)
  simp only [Bool.and_eq_true, decide_eq_true_eq] at holds
  obtain ⟨⟨restored, fresh⟩, authenticated⟩ := holds
  obtain ⟨before, m, polled, s, response, history, event, undeleted, parsed, busy⟩ :=
    World.authenticated_last authenticated
  simp only [Bool.and_eq_true, Option.any_eq_true, Bool.not_eq_true', bne_iff_ne] at busy
  obtain ⟨⟨⟨free, drained⟩, p, here, running, runs⟩, q, there, paused⟩ := busy
  obtain ⟨run, member⟩ := List.exists_mem_of_ne_nil _ (List.isEmpty_eq_false_iff.mp runs)
  let v : World := { w with engine := { w.engine with state := s }, file := some "#" }
  obtain ⟨v', applied, -, -, agrees⟩ := apply_agrees_with_auth (.reached reachable) history
    (restored_append.mp (history ▸ restored)).1
    (fresh_of_scripted .divided (fun _ => rfl) fresh) event undeleted (v := v) rfl rfl parsed
    (fun _ _ => rfl)
  obtain ⟨pools, same⟩ :=
    agrees.mpr ⟨State.not_held_of_free free, State.not_behind_of_drained drained⟩
  exact ⟨v, v', m.state, p, q, run, applied, pools, same, here, running, member, there, paused⟩

/-- Somebody writes `config.toml`. -/
def World.edit (w : World) (text : String) : World := World.log { w with file := some text } .edited

/-- If the change is applied, then the pool waits. -/
def World.appliesLate (w : World) : Bool :=
  match handleLocal (.apply "#" w.engine.state.revision) Host.refused (w.edit "#") with
  | (.ok (.applied revision), v) => revision == w.engine.state.revision + 1 &&
      v.engine.state.pools["a"]?.any fun p => decide (w.clock < p.retryAt)
  | _ => false

theorem World.applied_late {w : World} (late : w.appliesLate = true) :
    ∃ p v, handleLocal (.apply "#" w.engine.state.revision) Host.refused (w.edit "#") =
        (.ok (.applied (w.engine.state.revision + 1)), v) ∧
      v.engine.state.pools["a"]? = some p ∧ (w.edit "#").clock < p.retryAt := by
  unfold World.appliesLate at late
  split at late
  · next revision v run =>
      rw [Bool.and_eq_true, beq_iff_eq] at late
      obtain ⟨rfl, later⟩ := late
      obtain ⟨p, found, later⟩ := (Option.any_eq_true ..).mp later
      exact ⟨p, v, run, found, of_decide_eq_true later⟩
  · exact absurd late Bool.false_ne_true

/-- The credential is set in a world in which `holds` evaluates to true afterwards. -/
def World.servesAuth (w : World) (holds : World → Bool) : Bool :=
  match serveRequest true (.auth "team" "env:NEW" none) Host.refused w with
  | (.ok (), w') => holds w'
  | _ => false

theorem World.served_auth {w : World} {holds : World → Bool}
    (serves : w.servesAuth holds = true) :
    ∃ w', serveRequest true (.auth "team" "env:NEW" none) Host.refused w = (.ok (), w') ∧
      holds w' = true := by
  unfold World.servesAuth at serves
  split at serves
  · next w' run => exact ⟨w', run, serves⟩
  · exact absurd serves Bool.false_ne_true

/-- After `Apply` a pool waits for its old deadline, although its credential was corrected. -/
theorem corrected_credential_waits : ∃ (host : Host) (w v v' : World) (first : List Moment)
    (m : Moment) (polled : Bool) (s : State) (response : Response) (p p' : PoolState),
    Reachable host w ∧ Restored w.history ∧ Fresh host w.asked ∧ w.history = first ++ [m] ∧
      m.event = .handled polled (.auth "team" "env:NEW" none) s (.ok response) ∧
      (∀ (name : String) (p : PoolState), s.pools[name]? = some p → p.deleting = false) ∧
      Reachable host v ∧ v.engine.state = s ∧ v.file = some "#" ∧
      host.parseToml "#" = some (s.config.withAuth "team" "env:NEW" none) ∧
      Smooth host v.asked ∧
      handleLocal (.apply "#" s.revision) host v = (.ok (.applied (s.revision + 1)), v') ∧
      m.state.pools["a"]? = some p ∧ p.retryAt = 0 ∧
      v'.engine.state.pools["a"]? = some p' ∧ v.clock < p'.retryAt := by
  obtain ⟨w₀, reachable, holds⟩ := @Host.reaches .refused "" .blank
    [.request (.start (some "a") false), .tick, .tick]
    (fun w₀ => World.appliesLate w₀ && World.servesAuth w₀ fun w =>
      (decide (Restored w.history) && decide (w.asked ≤ 10 ^ 32)) &&
        w.authenticatedLast .refused fun _ t => t.pools["a"]?.any (·.retryAt == 0))
    (by decide +kernel)
  rw [Bool.and_eq_true] at holds
  obtain ⟨p', v', run, there, late⟩ := World.applied_late holds.1
  obtain ⟨w, served, checked⟩ := World.served_auth holds.2
  simp only [Bool.and_eq_true, decide_eq_true_eq] at checked
  obtain ⟨⟨restored, fresh⟩, authenticated⟩ := checked
  obtain ⟨before, m, polled, s, response, history, event, undeleted, parsed, reset⟩ :=
    World.authenticated_last authenticated
  obtain ⟨p, found, due⟩ := (Option.any_eq_true ..).mp reset
  obtain ⟨inner, result, moments, -, -⟩ :=
    ((serveRequest_meets .refused true (.auth "team" "env:NEW" none) w₀).returned served).outcome
  obtain rfl := List.singleton_inj.mp (List.append_inj' (history.symm.trans moments) rfl).2
  cases event
  exact ⟨_, w, w₀.edit "#", v', before, _, true, w₀.engine.state, response, p, p',
    .request _ reachable served, restored, fresh_of_scripted .refused (fun _ => rfl) fresh,
    history, rfl, undeleted, .edit _ reachable, rfl, rfl, parsed, fun _ _ => rfl, run, found,
    beq_iff_eq.mp due, there, late⟩

end Credentials

end Runnerctl
