import Runnerctl.Guarantees.Exits
import Runnerctl.Metatheory.Timing

/-!
# The boot time of the host

The boot time is asked for only if the cached one does not excuse a container that was
started.  A `Session` is any sequence of such classifications, whatever the manager does
between them.  In a session the cached boot time is never later than the true one, so that
no verdict is changed by it.
-/

namespace Runnerctl

open Std Program

/-- `stopped_by_reboot` without the cache. -/
def stoppedByRebootAfresh (container : Container) (image : String) : EngineM Bool := do
  let bootTime ← external (.dockerBootTime image)
  startedBeforeBoot container (some bootTime)

/-- The boot time is still the one of `before`, and no question was taken back. -/
structure Unasked (before w : World) : Prop where
  asked : before.asked ≤ w.asked
  bootTime : w.engine.bootTime = before.engine.bootTime

section Unasked

variable {host : Host} {before w w' : World}

theorem Unasked.refl (w : World) : Unasked w w := ⟨Nat.le_refl _, rfl⟩

theorem Unasked.later (unasked : Unasked before w) (asked : w.asked ≤ w'.asked)
    (bootTime : w'.engine.bootTime = w.engine.bootTime) : Unasked before w' :=
  ⟨unasked.asked.trans asked, bootTime.trans unasked.bootTime⟩

theorem Unasked.log (unasked : Unasked before w) (event : Event) :
    Unasked before (w.log event) :=
  unasked.later (Nat.le_refl _) rfl

theorem Unasked.advance (unasked : Unasked before w) : Unasked before (w.advance host) :=
  unasked.later (Nat.le_succ _) rfl

instance : Respects (Respects.Equally (Unasked before)) consult :=
  respects_of_meets fun _ _ unasked => unasked.advance

instance (event : Event) : Respects (Respects.Equally (Unasked before)) (record event) :=
  respects_of_meets fun _ _ unasked => unasked.log event

instance : Respects (Respects.Equally (Unasked before)) getState :=
  respects_of_meets fun _ _ unasked => unasked

instance (s : State) : Respects (Respects.Equally (Unasked before)) (setState s) :=
  respects_of_meets fun _ _ unasked => unasked.later (Nat.le_refl _) rfl

instance {α : Type} (text : String) :
    Respects (Respects.Equally (Unasked before)) (fail text : EngineM α) :=
  .throw _

instance (text : String) : Respects (Respects.Equally (Unasked before)) (hash text) := by
  unfold hash
  infer_instance

instance (s : State) : Respects (Respects.Equally (Unasked before)) (storeSave s) :=
  respects_of_meets fun host w unasked => meets_storeSave.mpr <| by
    have stored : Unasked before ((w.advance host).withStore s) :=
      Unasked.later (@Unasked.advance host before w unasked) (Nat.le_refl _) rfl
    split
    · exact stored.log _
    · exact unasked.advance.log _

instance (text : String) : Respects (Respects.Equally (Unasked before)) (writeConfig text) :=
  respects_of_meets fun host w unasked => meets_writeConfig.mpr <| by
    have written : Unasked before ((w.advance host).withFile (some text)) :=
      Unasked.later (@Unasked.advance host before w unasked) (Nat.le_refl _) rfl
    split
    · exact written.log _
    · split
      · exact written.log _
      · exact unasked.advance.log _

instance : Respects (Respects.Equally (Unasked before)) publish :=
  respects_of_meets fun _ _ unasked => unasked.later (Nat.le_refl _) rfl

instance : Respects (Respects.Equally (Unasked before)) readBack :=
  respects_of_meets fun _ _ unasked => meets_readBack.mpr <| by
    split <;> exact unasked.advance.log _

instance (config : Config) : Respects (Respects.Equally (Unasked before)) (printToml config) :=
  .seq inferInstance fun host => by cases host.printToml config <;> infer_instance

instance : Respects (Respects.Equally (Unasked before)) clearGithub := by
  unfold clearGithub
  infer_instance

/-- Nothing but a classification changes the boot time. -/
instance : Admits (Respects.Equally (Unasked before)) where
  consult := inferInstance
  record _ := inferInstance
  engine := respects_of_meets fun _ _ unasked => unasked
  getState := inferInstance
  now := respects_of_meets fun _ _ unasked => unasked.advance
  readConfig := respects_of_meets fun _ _ unasked => meets_readConfig.mpr <| by
    split <;> exact unasked.advance.log _
  setState _ := inferInstance
  save := by
    unfold save
    infer_instance
  commitConfig next := by
    unfold commitConfig
    infer_instance
  rollBack := inferInstance
  adjust _ change same kept := respects_of_meets fun _ w unasked => by
    rw [meets_modify, same w]
    exact unasked.later (Nat.le_refl _) (kept w.engine).2.2
  edit _ := respects_of_meets fun _ _ unasked => unasked.later (Nat.le_refl _) rfl

end Unasked

section Queries

variable {host : Host} {before w w' : World}

/-- Everything but a classification leaves the boot time as it is. -/
theorem meets_unasked {α : Type} (program : EngineM α)
    [Respects (Respects.Equally (Unasked w)) program] :
    Meets host program w (fun _ => Unasked w) (fun _ => Unasked w) :=
  have kept := Respects.preserves ‹Respects _ program› host (Unasked.refl w)
  .intro (fun _ _ run => by rwa [run] at kept) fun _ _ run => by rwa [run] at kept

/-- What happens at an await does not fail. -/
theorem happen_unfailing (polled : Bool) (happening : Happening) :
    Meets host (happen polled happening) w (fun _ _ => True) (fun fault _ => fault = .panic) := by
  cases happening with
  | request request =>
      refine meets_bind.mpr (meets_getState.mpr (meets_bind.mpr (meets_record.mpr
        (meets_bind.mpr (meets_attempt.mpr ?_)))))
      refine (meets_trivial (handleLocal request)).mono (fun _ _ _ => trivial) fun stopped _ _ => ?_
      cases stopped with
      | error error => exact trivial
      | panic => rfl
  | edit text => exact trivial

/-- An operation has the reply of the host to the question asked when it is called. -/
theorem external_replied (op : Op) :
    Meets host (external op) w
      (fun value _ => (host.answers w.asked).reply op = .ok value)
      (fun fault _ => ∀ text, fault = .error (.msg text) →
        (host.answers w.asked).reply op = .error text) := by
  have happenings (polled : Bool) (happenings : List Happening) (w : World) :
      Meets host (happenings.forM (happen polled)) w (fun _ _ => True)
        (fun fault _ => fault = .panic) :=
    Meets.forM (fun _ _ => True) (fun _ _ _ _ => happen_unfailing polled _) trivial
  unfold external
  refine meets_bind.mpr (meets_engine.mpr ?_)
  split
  · exact fun _ => nofun
  · refine meets_bind.mpr (meets_consult.mpr ?_)
    refine (happenings false _ _).seq (fun _ _ panicked _ => by simp [panicked]) fun _ _ _ => ?_
    refine meets_bind.mpr (meets_record.mpr ?_)
    refine (happenings true _ _).seq (fun _ _ panicked _ => by simp [panicked]) fun _ _ _ => ?_
    refine meets_bind.mpr (meets_record.mpr (meets_bind.mpr (meets_engine.mpr ?_)))
    split
    · exact fun _ => nofun
    · cases replied : (host.answers w.asked).reply op with
      | ok value => exact rfl
      | error failure =>
          rintro text ⟨⟩
          rfl

/-- `started_before_boot` of what `started_at` returns. -/
def beforeBoot (started bootTime : Option Nat) : Bool :=
  bootTime.any fun bootTime => started.any (· < bootTime)

@[simp] theorem beforeBoot_none (bootTime : Option Nat) : beforeBoot none bootTime = false := by
  cases bootTime <;> rfl

/-- What was started before a boot was started before every later one. -/
theorem beforeBoot_mono {started cached : Option Nat} {present : Nat}
    (earlier : ∀ bootTime, cached = some bootTime → bootTime ≤ present)
    (before : beforeBoot started cached = true) : beforeBoot started (some present) = true := by
  cases cached with
  | none => exact nomatch before
  | some bootTime =>
      cases started with
      | none => exact before
      | some started =>
          simp only [beforeBoot, Option.any_some, decide_eq_true_eq] at before ⊢
          exact Nat.lt_of_lt_of_le before (earlier bootTime rfl)

/-- A verdict on a container that was started at `started`, and the boot time that is
cached after it, from the one cached before it and the reply of the host. -/
inductive Classified (started cached : Option Nat) (reply : Except String Nat) :
    Bool → Option Nat → Prop where
  /-- No question is asked if it could not change the verdict, or if there is nothing to
  compare. -/
  | known : started = none ∨ beforeBoot started cached = true →
      Classified started cached reply (beforeBoot started cached) cached
  | told {bootTime : Nat} : reply = .ok bootTime →
      Classified started cached reply (beforeBoot started (some bootTime)) (some bootTime)
  | untold {failure : String} : reply = .error failure →
      Classified started cached reply (beforeBoot started cached) cached

section Verdicts

variable {started cached after : Option Nat} {reply : Except String Nat} {verdict : Bool}
  {present : Nat}

/-- The verdict is the one that the present boot time gives. -/
theorem Classified.afresh (classified : Classified started cached reply verdict after)
    (earlier : ∀ bootTime, cached = some bootTime → bootTime ≤ present)
    (told : reply = .ok present) : verdict = beforeBoot started (some present) := by
  subst told
  cases classified with
  | known settled =>
      rcases settled with unstarted | before
      · simp [unstarted]
      · rw [before, beforeBoot_mono earlier before]
  | told replied =>
      cases replied
      rfl
  | untold failed => exact nomatch failed

/-- What was started at or after the present boot is not excused. -/
theorem Classified.unexcused (classified : Classified started cached reply verdict after)
    (excused : verdict = true)
    (earlier : ∀ bootTime, cached = some bootTime → bootTime ≤ present)
    (truthful : ∀ bootTime, reply = .ok bootTime → bootTime = present) :
    beforeBoot started (some present) = true := by
  cases classified with
  | known | untold => exact beforeBoot_mono earlier excused
  | told replied => rwa [truthful _ replied] at excused

end Verdicts

theorem stoppedByReboot_classified (container : Container) (image : String) :
    Meets host (stoppedByReboot container image) w
      (fun verdict w' => w.asked ≤ w'.asked ∧
        Classified (container.startedAt.bind host.parseRfc3339) w.engine.bootTime
          ((host.answers w.asked).reply (.dockerBootTime image)) verdict w'.engine.bootTime)
      (fun _ => Unasked w) := by
  unfold stoppedByReboot
  refine meets_bind.mpr (meets_startedAt.mpr (meets_bind.mpr (meets_engine.mpr
    (meets_bind.mpr (meets_startedBeforeBoot.mpr ?_)))))
  have answer {w₁ : World} (asked : w.asked ≤ w₁.asked)
      (classified : Classified (container.startedAt.bind host.parseRfc3339) w.engine.bootTime
        ((host.answers w.asked).reply (.dockerBootTime image))
        (beforeBoot (container.startedAt.bind host.parseRfc3339) w₁.engine.bootTime)
        w₁.engine.bootTime) :
      Meets host (do startedBeforeBoot container (← engine).bootTime) w₁
        (fun verdict w' => w.asked ≤ w'.asked ∧
          Classified (container.startedAt.bind host.parseRfc3339) w.engine.bootTime
            ((host.answers w.asked).reply (.dockerBootTime image)) verdict w'.engine.bootTime)
        (fun _ => Unasked w) :=
    meets_bind.mpr (meets_engine.mpr (meets_startedBeforeBoot.mpr ⟨asked, classified⟩))
  split
  · refine meets_bind.mpr (meets_attempt.mpr ?_)
    have : Respects (Respects.Equally (Unasked w)) (external (.dockerBootTime image)) :=
      respects_external (.dockerBootTime image)
    refine ((external_replied (.dockerBootTime image)).and (meets_unasked _)).mono
      (fun bootTime w₁ ⟨replied, unasked⟩ => ?_) fun fault w₁ ⟨replied, unasked⟩ => ?_
    · exact answer unasked.asked (.told replied)
    · cases fault with
      | panic => exact unasked
      | error error =>
          cases error with
          | interrupted => exact unasked
          | msg text =>
              refine answer unasked.asked ?_
              rw [unasked.bootTime]
              exact .untold (replied text rfl)
  · next known =>
      refine answer (Nat.le_refl _) (.known ?_)
      cases started : container.startedAt.bind host.parseRfc3339 with
      | none => exact .inl rfl
      | some started' =>
          rw [started] at known
          exact .inr (by simpa [beforeBoot] using known)

end Queries

/-! ## Sessions -/

/-- The worlds after any sequence of classifications since the manager was opened. -/
inductive Session (host : Host) : World → Prop where
  | opened {w : World} : w.engine.bootTime = none → Session host w
  /-- The manager does anything else. -/
  | between {w w' : World} : Session host w → Unasked w w' → Session host w'
  | classified {w : World} (container : Container) (image : String) : Session host w →
      Session host (stoppedByReboot container image host w).2

/-- What the host tells is its boot time at that moment. -/
def Truthful (host : Host) (boot : Nat → Nat) : Prop :=
  ∀ n image bootTime, (host.answers n).reply (.dockerBootTime image) = .ok bootTime →
    bootTime = boot n

/-- The host always tells its boot time. -/
def Tells (host : Host) (boot : Nat → Nat) : Prop :=
  ∀ n image, (host.answers n).reply (.dockerBootTime image) = .ok (boot n)

section Sessions

variable {host : Host} {boot : Nat → Nat} {w w' : World}

theorem Tells.truthful (tells : Tells host boot) : Truthful host boot := by
  intro n image bootTime replied
  rw [tells n image] at replied
  exact (Except.ok.inj replied).symm

/-- The cached boot time was the true one, so that it is not later than the present one. -/
theorem Session.cached_le (truthful : Truthful host boot) (monotone : Monotone boot)
    (session : Session host w) : ∀ bootTime, w.engine.bootTime = some bootTime →
      bootTime ≤ boot w.asked := by
  induction session with
  | opened unset =>
      intro bootTime cached
      exact nomatch unset.symm.trans cached
  | between _ unasked inductionHypothesis =>
      intro bootTime cached
      exact (inductionHypothesis bootTime (unasked.bootTime ▸ cached)).trans
        (monotone unasked.asked)
  | @classified w container image _ inductionHypothesis =>
      have meets := @stoppedByReboot_classified host w container image
      generalize run : stoppedByReboot container image host w = outcome at meets
      intro bootTime cached
      match outcome with
      | (.ok verdict, w') =>
          obtain ⟨asked, classified⟩ := meets.returned run
          have kept : ∀ old, w.engine.bootTime = some old → old ≤ boot w'.asked :=
            fun old cached => (inductionHypothesis old cached).trans (monotone asked)
          change w'.engine.bootTime = some bootTime at cached
          generalize after : w'.engine.bootTime = cache at cached classified
          cases classified with
          | known | untold => exact kept bootTime cached
          | told replied =>
              cases cached
              rw [truthful _ _ _ replied]
              exact monotone asked
      | (.error fault, w') =>
          have unasked := meets.stopped run
          exact (inductionHypothesis bootTime (unasked.bootTime ▸ cached)).trans
            (monotone unasked.asked)

/-- The verdict on a container is the one that the present boot time gives. -/
theorem Session.verdict (tells : Tells host boot) (monotone : Monotone boot)
    (session : Session host w) {container : Container} {image : String} {verdict : Bool}
    (run : stoppedByReboot container image host w = (.ok verdict, w')) :
    verdict = beforeBoot (container.startedAt.bind host.parseRfc3339) (some (boot w.asked)) := by
  obtain ⟨-, classified⟩ := (stoppedByReboot_classified container image).returned run
  exact classified.afresh (session.cached_le tells.truthful monotone) (tells w.asked image)

/-- A container that was started at or after the present boot is not excused. -/
theorem Session.unexcused (truthful : Truthful host boot) (monotone : Monotone boot)
    (session : Session host w) {container : Container} {image : String}
    (run : stoppedByReboot container image host w = (.ok true, w')) :
    beforeBoot (container.startedAt.bind host.parseRfc3339) (some (boot w.asked)) = true := by
  obtain ⟨-, classified⟩ := (stoppedByReboot_classified container image).returned run
  exact classified.unexcused rfl (session.cached_le truthful monotone) (truthful w.asked image)

/-- If the boot time is told when it is asked for, a container is classified. -/
theorem stoppedByReboot_returns {container : Container} {image : String} {bootTime : Nat}
    (told : external (.dockerBootTime image) host w = (.ok bootTime, w')) :
    ∃ verdict w', stoppedByReboot container image host w = (.ok verdict, w') := by
  suffices meets : Meets host (stoppedByReboot container image) w (fun _ _ => True)
      (fun _ _ => False) by
    generalize run : stoppedByReboot container image host w = outcome at meets
    match outcome with
    | (.ok verdict, w') => exact ⟨verdict, w', rfl⟩
    | (.error fault, w') => exact (meets.stopped run).elim
  unfold stoppedByReboot
  refine meets_bind.mpr (meets_startedAt.mpr (meets_bind.mpr (meets_engine.mpr
    (meets_bind.mpr (meets_startedBeforeBoot.mpr ?_)))))
  split
  · refine meets_bind.mpr (meets_attempt.mpr ?_)
    rw [Meets, told]
    exact trivial
  · exact trivial

/-! ## The manager -/

/-- The program is a part of a session. -/
def Sustains {α : Type} (host : Host) (program : EngineM α) : Prop :=
  ∀ w, Session host w → Meets host program w (fun _ => Session host) (fun _ => Session host)

section Closure

variable {α β : Type} {program : EngineM α}

theorem sustains_of_respects (program : EngineM α)
    [∀ before, Respects (Respects.Equally (Unasked before)) program] : Sustains host program :=
  fun _ session => (meets_unasked program).mono (fun _ _ => session.between)
    fun _ _ => session.between

theorem sustains_modify (update : World → World) (unasked : ∀ w, Unasked w (update w)) :
    Sustains host (modify update : EngineM Unit) :=
  fun w session => session.between (unasked w)

theorem Sustains.bind {next : α → EngineM β} (first : Sustains host program)
    (rest : ∀ value, Sustains host (next value)) : Sustains host (program >>= next) :=
  fun w session => (first w session).bind rest

theorem Sustains.attempt (sustains : Sustains host program) :
    Sustains host (attempt program) := by
  refine fun w session => meets_attempt.mpr ((sustains w session).mono (fun _ _ => id) ?_)
  rintro (_ | _) w' session'
  · exact session'
  · exact session'

theorem Sustains.foldlM {body : β → α → EngineM β}
    (step : ∀ value item, Sustains host (body value item)) (items : List α) (start : β) :
    Sustains host (items.foldlM body start) :=
  fun _ session => Meets.foldlM (fun _ _ => Session host) (fun item _ value => step value item)
    session

end Closure

theorem stoppedByReboot_sustains (container : Container) (image : String) :
    Sustains host (stoppedByReboot container image) := by
  intro w session
  have after := session.classified container image
  exact .intro (fun _ _ run => by rwa [run] at after) fun _ _ run => by rwa [run] at after

theorem cleanStopped_sustains (pass : Pass) (id : String) (run : Run) (container : Container)
    (progress : Progress) : Sustains host (cleanStopped pass id run container progress) := by
  unfold cleanStopped
  repeat' first
    | exact sustains_of_respects _
    | exact stoppedByReboot_sustains _ _
    | refine Sustains.bind ?_ fun _ => ?_
    | split
    | dsimp only

theorem visitRun_sustains (pass : Pass) (progress : Progress) (id : String) :
    Sustains host (visitRun pass progress id) := by
  unfold visitRun visitClone
  repeat' first
    | exact sustains_of_respects _
    | exact cleanStopped_sustains _ _ _ _ _
    | refine Sustains.bind ?_ fun _ => ?_
    | split
    | dsimp only

theorem reconcileRuns_sustains (name : String) (allowReplenish : Bool) (pool : Pool)
    (ps : PoolState) (managerId : Uuid) (unknownContainers : Nat) (listed : List Container) :
    Sustains host
      (reconcileRuns name allowReplenish pool ps managerId unknownContainers listed) := by
  unfold reconcileRuns
  repeat' first
    | exact sustains_of_respects _
    | exact Sustains.foldlM (visitRun_sustains _) _ _
    | refine Sustains.bind ?_ fun _ => ?_
    | split

theorem reconcile_sustains (name : String) (allowReplenish : Bool) :
    Sustains host (reconcile name allowReplenish) := by
  unfold reconcile
  repeat' first
    | exact sustains_of_respects _
    | exact reconcileRuns_sustains _ _ _ _ _ _ _
    | refine Sustains.bind ?_ fun _ => ?_
    | split

theorem tick_sustains : Sustains host tick := by
  unfold tick tickPool
  repeat' first
    | exact sustains_of_respects _
    | exact (reconcile_sustains _ _).attempt
    | exact sustains_modify _ fun _ => ⟨Nat.le_refl _, rfl⟩
    | refine Sustains.bind ?_ fun _ => ?_
    | split
    | dsimp only

/-- Whatever the manager has done, a container is classified in a session. -/
theorem Reachable.session (reachable : Reachable host w) : Session host w := by
  induction reachable with
  | start run =>
      refine .opened ?_
      rw [(openEngine_of_install run).engine]
      rfl
  | request request _ run inductionHypothesis =>
      exact (sustains_of_respects (serveRequest true request) _ inductionHypothesis).returned run
  | tick _ run inductionHypothesis => exact (tick_sustains _ inductionHypothesis).returned run
  | edit text _ inductionHypothesis => exact inductionHypothesis.between ⟨Nat.le_refl _, rfl⟩
  | restart reachable turn crash run _ =>
      obtain ⟨ready, idle⟩ := reachable.ready
      obtain ⟨left, effect, rfl, t, stored, -⟩ :=
        (storing_invariant host).crash ready.storing ready idle turn crash
      cases openEngine_of_store (w := left.log (.crashed effect)) stored run
      exact .opened rfl

end Sessions

/-- The cache changes no verdict.  If the host always tells its boot time, which never goes
back, the verdict is the one of the present boot time, and the one that is returned without
the cache; and if the host does not always tell it, a container that was started at or after
the present boot is not excused. -/
theorem boot_time_cached {host : Host} {boot : Nat → Nat} {w : World} (monotone : Monotone boot)
    (session : Session host w) (container : Container) (image : String) :
    (Tells host boot →
      (∀ verdict w', stoppedByReboot container image host w = (.ok verdict, w') →
        verdict = (container.startedAt.bind host.parseRfc3339).any (· < boot w.asked)) ∧
      ∀ verdict w', stoppedByRebootAfresh container image host w = (.ok verdict, w') →
        ∃ w'', stoppedByReboot container image host w = (.ok verdict, w'')) ∧
    (Truthful host boot → ∀ started,
      container.startedAt.bind host.parseRfc3339 = some started →
      boot w.asked ≤ started → ∀ verdict w',
        stoppedByReboot container image host w = (.ok verdict, w') → verdict = false) := by
  refine ⟨fun tells => ⟨fun verdict w' run => session.verdict tells monotone run,
    fun verdict w' run => ?_⟩, fun truthful started parsed late verdict w' run => ?_⟩
  · rw [stoppedByRebootAfresh, bind_run] at run
    generalize told : external (.dockerBootTime image) host w = outcome at run
    match outcome with
    | (.error fault, w₁) => exact nomatch run
    | (.ok bootTime, w₁) =>
        have replied := (external_replied (.dockerBootTime image)).returned told
        obtain rfl := tells.truthful _ _ _ replied
        obtain ⟨verdict', w'', returned⟩ := @stoppedByReboot_returns _ _ _ container _ _ told
        cases run
        obtain rfl : verdict' = _ := session.verdict tells monotone returned
        exact ⟨w'', returned⟩
  · cases verdict with
    | false => rfl
    | true =>
        have before := session.unexcused truthful monotone run
        rw [parsed] at before
        exact absurd late (Nat.not_le.mpr (of_decide_eq_true before))

/-- A host that was booted at 1, and is booted again at 5, after the first question. -/
def Host.restarted : Host :=
  { Host.scripted [] fun n answers =>
      { answers with
        reply := fun op => match op with
          | .dockerBootTime _ => .ok (if n = 0 then 1 else 5)
          | op => op.smooth } with
    parseRfc3339 := fun text => some text.length }

/-- A stopped container; the host reads the length of `startedAt` as the time. -/
def Container.stopped (startedAt : String) : Container :=
  ⟨none, none, none, some "exited", some startedAt⟩

/-- A container that was started at 2 is not excused, and the boot time 1 is cached.  After
the second boot one that was started at 3 is excused all the same, and so is, without a further
question, one that was started at 4. -/
theorem boot_time_cached_sample : ∃ w₁ w₂ w₃,
    stoppedByReboot (.stopped "ss") "" .restarted (.install "" (.fresh .blank)) =
        (.ok false, w₁) ∧ w₁.engine.bootTime = some 1 ∧
      stoppedByReboot (.stopped "sss") "" .restarted w₁ = (.ok true, w₂) ∧
        w₂.engine.bootTime = some 5 ∧
      stoppedByReboot (.stopped "ssss") "" .restarted w₂ = (.ok true, w₃) ∧
        w₃.asked = w₂.asked := by
  let boot : Nat → Nat := fun n => if n = 0 then 1 else 5
  have monotone : Monotone boot := by
    intro m n le
    dsimp only [boot]
    split <;> split <;> omega
  have first : Session .restarted (stoppedByReboot (.stopped "ss") "" .restarted
      (.install "" (.fresh .blank))).2 := .classified _ _ (.opened rfl)
  have second := first.classified (.stopped "sss") ""
  obtain ⟨w₂, excused⟩ :=
    ((boot_time_cached monotone first (.stopped "sss") "").1 fun _ _ => rfl).2 true _ rfl
  obtain ⟨w₃, excused'⟩ :=
    ((boot_time_cached monotone second (.stopped "ssss") "").1 fun _ _ => rfl).2 true _ rfl
  rw [excused] at excused'
  have cached : w₂.engine.bootTime = some 5 := congrArg (·.2.engine.bootTime) excused.symm
  refine ⟨_, w₂, w₃, rfl, rfl, excused, cached, excused', ?_⟩
  cases excused
  cases excused'
  rfl

end Runnerctl
