import Runnerctl.Metatheory.Causes
import Runnerctl.Metatheory.Scripts

/-!
# Exits that count

An exit is held against a pool if no job was completed and no reboot stopped the run.
Whether a reboot did is decided anew in every pass, from the container that the listing of
the pass shows; once the container is gone, nothing excuses the run any more.
-/

namespace Runnerctl

open Std Program Journal

/-- The containers of the run that were listed had been started, and every reply about the
boot of their host tells of a boot after that. -/
def Rebooted (host : Host) (managerId : Uuid) (run : Run) (moments : List Moment) : Prop :=
  ∀ containers, lastListing moments = some containers → ∀ container ∈ containers,
    container.owned managerId.text run = true →
      ∃ started, container.startedAt.bind host.parseRfc3339 = some started ∧
        ∀ m ∈ moments, ∀ image reply, m.event = .ended (.dockerBootTime image) reply →
          ∃ bootTime, reply = .ok bootTime ∧ started < bootTime

/-- The last listing shows a container of the run. -/
def Listed (managerId : Uuid) (run : Run) (moments : List Moment) : Prop :=
  ∃ containers, lastListing moments = some containers ∧
    ∃ container ∈ containers, container.owned managerId.text run = true

section Exits

variable {host : Host} {w : World}

/-- What guards the end of a run. -/
theorem dropped_guarded (executed : Executed host w) {first rest : List Moment} {m : Moment}
    (history : w.history = first ++ m :: rest) {run : Run} {interrupted : Bool}
    (dropped : m.event = .droppedRun run interrupted) :
    ∃ w₀, w₀.history = first ∧ Moment.Guarded host w₀ m := by
  obtain ⟨w₀, -, -, -, -, -, rfl, -, guarded⟩ :=
    ((storing_invariant host).caused executed first m rest history).guarded
      (by rw [dropped]; rfl)
  exact ⟨w₀, rfl, guarded⟩

/-- A run that a reboot stopped is excused if and only if its container is still listed when
the run is dropped.  Only passes that counted an exit pause their pool. -/
theorem reboots_excused (executed : Executed host w) :
    Recorded (fun first m =>
      (∀ run interrupted, m.event = .droppedRun run interrupted → unexpectedExit run = true →
        Rebooted host m.state.managerId run (currentPass first) →
          (m.counted = false ↔ Listed m.state.managerId run (currentPass first))) ∧
      ∀ name, m.event = .failed name .provisioning →
        ∃ m' ∈ currentPass first, m'.counted = true) w.history := by
  intro first m rest history
  refine ⟨fun run interrupted dropped unexpected rebooted => ?_, fun name failed => ?_⟩
  · obtain ⟨w₀, rfl, guarded⟩ := dropped_guarded executed history dropped
    rw [Moment.Guarded, dropped] at guarded
    obtain ⟨name, p, recorded, state, -, -, -, -, -, judged, -⟩ := guarded
    have managerId : m.state.managerId = w₀.engine.state.managerId := by rw [state]; rfl
    rw [managerId] at rebooted ⊢
    obtain ⟨containers, listed, verdict⟩ := judged
    have counts : m.counted = !interrupted := by
      rw [unexpectedExit] at unexpected
      rw [Moment.counted, dropped]
      dsimp only
      rw [unexpected, Bool.true_and]
    rw [counts, Bool.not_eq_false']
    rcases verdict with ⟨missing, rfl⟩ | ⟨container, member, owned, -, blamed⟩
    · refine iff_of_false Bool.false_ne_true ?_
      rintro ⟨_, listed', container, member, owned⟩
      cases listed.symm.trans listed'
      exact absurd owned (by simp [missing container member])
    · refine iff_of_true ?_ ⟨containers, listed, container, member, owned⟩
      by_contra late
      obtain ⟨started, parsed, booted⟩ := rebooted containers listed container member owned
      obtain ⟨m', asked, image, reply, event, before⟩ :=
        blamed unexpected (by simpa using late) started parsed
      obtain ⟨bootTime, rfl, after⟩ := booted m' asked image reply event
      exact absurd (before bootTime rfl) (Nat.not_le.mpr after)
  · obtain ⟨w₀, -, -, -, -, -, rfl, -, guarded⟩ :=
      ((storing_invariant host).caused executed first m rest history).guarded
        (by rw [failed]; rfl)
    rw [Moment.Guarded, failed] at guarded
    obtain ⟨_, _, _, _, -, -, -, licensed⟩ := guarded
    exact List.countP_pos_iff.mp (licensed rfl).1

/-- The container of the only run, which exited before the host was booted, is listed during
the questions `from_` to `to`; `fails` tells whether its registration cannot be looked up. -/
def Host.rebooted (fails : Bool) : Host :=
  { Host.scripted [.sample [.sample "a" 1]] fun n answers =>
      { answers with
        elapsed := if n = 48 then 100 else 1
        reply := fun op => match op with
          | .dockerList managerId =>
              if 28 < n ∧ n < 40 then
                .ok [⟨some managerId, some (runId (.scripted 3) (.scripted 11)),
                  some (Uuid.scripted 2).text, some "exited", some "start"⟩]
              else .ok []
          | .dockerBootTime _ => .ok 1
          | .githubList _ _ _ ttl =>
              if fails ∧ ttl = 0 ∧ n < 48 then .error "failure" else .ok []
          | op => op.smooth } with
    parseRfc3339 := fun _ => some 0 }

/-- The reply to a question for the boot time of the host tells of a boot after `started`. -/
def Moment.bootsAfter (started : Nat) (m : Moment) : Bool :=
  match m.event with
  | .ended (.dockerBootTime _) (.ok bootTime) => started < bootTime
  | .ended (.dockerBootTime _) (.error _) => false
  | _ => true

theorem Moment.bootsAfter_iff {started : Nat} {m : Moment} : m.bootsAfter started = true ↔
    ∀ image reply, m.event = .ended (.dockerBootTime image) reply →
      ∃ bootTime, reply = .ok bootTime ∧ started < bootTime := by
  constructor
  · intro after image reply event
    rw [Moment.bootsAfter, event] at after
    cases reply with
    | ok bootTime => exact ⟨bootTime, rfl, by simpa using after⟩
    | error failure => exact absurd after Bool.false_ne_true
  · intro after
    rw [Moment.bootsAfter]
    split
    · next image bootTime event =>
        obtain ⟨_, equal, later⟩ := after image _ event
        cases equal
        simpa using later
    · next image failure event =>
        obtain ⟨_, equal, -⟩ := after image _ event
        exact nomatch equal
    · rfl

/-- A moment dropped a run's record as stopped by a reboot, that left the host rebooted since. -/
def Moment.droppedRebooted (parse : String → Option Nat) (pass : List Moment)
    (m : Moment) : Bool :=
  match m.event with
  | .droppedRun run true => unexpectedExit run &&
      (lastListing pass).any fun containers =>
        (containers.any (·.owned m.state.managerId.text run)) &&
        containers.all fun container =>
          (container.startedAt.bind parse).any fun started => pass.all (·.bootsAfter started)
  | _ => false

/-- The run is removed in the pass that finds its container. -/
theorem reboots_excused_sample : ∃ (host : Host) (w : World) (m : Moment) (run : Run),
    Reachable host w ∧ m ∈ w.history ∧ m.event = .droppedRun run true ∧
      unexpectedExit run = true ∧ m.counted = false := by
  obtain ⟨w, reachable, holds⟩ := @Host.reaches (.rebooted false) "" .blank
    [.request (.start (some "a") false), .tick, .tick, .tick]
    (fun w => w.history[57]?.any (Moment.droppedRebooted (Host.rebooted false).parseRfc3339
      (currentPass (w.history.take 57)))) (by decide +kernel)
  obtain ⟨m, found, holds⟩ := (Option.any_eq_true ..).mp holds
  unfold Moment.droppedRebooted at holds
  split at holds
  · next run dropped =>
      simp only [Bool.and_eq_true, Option.any_eq_true, List.any_eq_true, List.all_eq_true] at holds
      obtain ⟨unexpected, containers, listed, ⟨container, member, owned⟩, rebooted⟩ := holds
      have excused := (reboots_excused (.reached reachable) _ m _ (split_at_moment found)).1 run
        true dropped unexpected fun containers' listed' container member _ => by
          cases listed.symm.trans listed'
          obtain ⟨started, parsed, after⟩ := rebooted container member
          exact ⟨started, parsed, fun m' inPass => Moment.bootsAfter_iff.mp (after m' inPass)⟩
      exact ⟨_, w, m, run, reachable, List.mem_of_getElem? found, dropped, unexpected,
        excused.mpr ⟨containers, listed, container, member, owned⟩⟩
  · exact absurd holds Bool.false_ne_true

/-- A moment dropped, as of a runner that failed, the record of a run listed as stopped. -/
def Moment.droppedStopped (parse : String → Option Nat) (history : List Moment) (m : Moment) :
    Bool :=
  match m.event with
  | .droppedRun run false => (unexpectedExit run && m.counted) &&
      history.any fun m' => m'.listing.any fun containers =>
        containers.any fun container =>
          (container.owned m'.state.managerId.text run && !container.live) &&
            container.startedAt.bind parse == some 0
  | _ => false

/-- The container of a run that a reboot stopped is removed, but its registration cannot be
looked up.  The pass that drops the run counts its exit. -/
theorem reboot_counted : ∃ (host : Host) (w : World) (run : Run) (started : Nat),
    Reachable host w ∧ Restored w.history ∧ Fresh host w.asked ∧ unexpectedExit run = true ∧
    (∃ m ∈ w.history, ∃ containers, m.listing = some containers ∧
      ∃ container ∈ containers,
      container.owned m.state.managerId.text run = true ∧ container.live = false ∧
        container.startedAt.bind host.parseRfc3339 = some started) ∧
    (∀ m ∈ w.history, ∀ image reply, m.event = .ended (.dockerBootTime image) reply →
      ∃ bootTime, reply = .ok bootTime ∧ started < bootTime) ∧
    ∃ m ∈ w.history, m.event = .droppedRun run false ∧ m.counted = true := by
  obtain ⟨w, reachable, holds⟩ := @Host.reaches (.rebooted true) "" .blank
    [.request (.start (some "a") false), .tick, .tick, .tick, .tick]
    (fun w => (decide (Restored w.history) && decide (w.asked ≤ 10 ^ 32)) &&
      ((w.history.all (·.bootsAfter 0)) && w.history.any
        (Moment.droppedStopped (Host.rebooted true).parseRfc3339 w.history))) (by decide +kernel)
  simp only [Bool.and_eq_true, decide_eq_true_eq, List.any_eq_true, List.all_eq_true] at holds
  obtain ⟨⟨restored, fresh⟩, booted, m, member, holds⟩ := holds
  replace fresh := fresh_of_scripted (Host.rebooted true) (fun _ => rfl) fresh
  unfold Moment.droppedStopped at holds
  split at holds
  · next run dropped =>
      simp only [Bool.and_eq_true, Option.any_eq_true, List.any_eq_true, beq_iff_eq,
        Bool.not_eq_true'] at holds
      obtain ⟨⟨unexpected, counted⟩, m', member', containers, listing, container, listed,
        ⟨owned, stopped⟩, parsed⟩ := holds
      exact ⟨_, w, run, 0, reachable, restored, fresh, unexpected,
        ⟨m', member', containers, listing, container, listed, owned, stopped, parsed⟩,
        fun m inHistory => Moment.bootsAfter_iff.mp (booted m inHistory),
        m, member, dropped, counted⟩
  · exact absurd holds Bool.false_ne_true

end Exits

end Runnerctl
