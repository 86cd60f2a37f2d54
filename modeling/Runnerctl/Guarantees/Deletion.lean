import Runnerctl.Metatheory.Scripts

/-!
# Deletions and edits of the file

The deletion of a pool is finalised only while `config.toml` is as the manager wrote it, and
`Apply` accepts nothing while a pool is being deleted.  So an edit of the file blocks the
deletion until the old text is put back.
-/

namespace Runnerctl

open Std Program

/-- The same libraries with other answers. -/
def Host.answering (host : Host) (answers : Nat → Answers) : Host := { host with answers }

/-- Nobody sends a request or edits the file while an operation is awaited. -/
def Host.Undistracted (host : Host) : Prop :=
  ∀ n, (host.answers n).early = [] ∧ (host.answers n).during = []

/-- The deletion of the pool can go on, or an edit can be applied. -/
inductive WayForward (host : Host) (w : World) (name : String) : Prop where
  /-- A pass finalises the deletion. -/
  | finalised {answers : Nat → Answers} {allowReplenish : Bool} {report : ReconcileReport}
      {w' : World} :
      (host.answering answers).Undistracted →
      reconcile name allowReplenish (host.answering answers) w = (.ok report, w') →
      w'.engine.state.pools[name]? = none → w'.engine.state.config.pool? name = none →
      w'.store = some w'.engine.state → WayForward host w name
  /-- A text is accepted once it is in the file. -/
  | applied {answers : Nat → Answers} {text : String} {response : Response} {w' : World} :
      handleLocal (.apply text w.engine.state.revision) (host.answering answers)
        { w with file := some text } = (.ok response, w') →
      WayForward host w name

section Deletion

variable {host : Host} {w w' : World} {name : String} {p : PoolState}

/-- `Apply` accepts no text while a pool is being deleted. -/
theorem not_applied (indexed : w.engine.state.Indexed)
    (found : w.engine.state.pools[name]? = some p) (deleting : p.deleting = true)
    {text : String} {revision : Nat} {response : Response} :
    handleLocal (.apply text revision) host w ≠ (.ok response, w') := by
  intro run
  obtain ⟨inner, ends⟩ := (handleLocal_meets host _ w).returned run
  cases ends.outcome with
  | accepted accepts =>
      cases accepts with
      | apply commits =>
          cases commits with
          | apply _ _ kept _ _ applies =>
              obtain ⟨entry, member, rfl⟩ := (indexed.entries name).mp ⟨p, found⟩
              obtain ⟨new, there, same⟩ := kept entry member
              obtain ⟨old, known⟩ := Config.pool?_isSome member
              have := applies.not_deleting there (same ▸ known) (same ▸ found)
              exact Bool.false_ne_true (this.symm.trans deleting)

/-- An operation that nobody disturbs. -/
theorem external_undistracted (undistracted : host.Undistracted)
    (uninterrupted : w.engine.interrupted = false) {op : Op} {post : op.Reply → World → Prop}
    {fault : Fault Error → World → Prop} :
    Meets host (external op) w post fault ↔
      match (host.answers w.asked).reply op with
      | .ok value => post value
          (((w.advance host).log (.began op)).log
            (.ended op ((host.answers w.asked).reply op)))
      | .error failure => fault (.error (.msg failure))
          (((w.advance host).log (.began op)).log
            (.ended op ((host.answers w.asked).reply op))) := by
  obtain ⟨early, during⟩ := undistracted w.asked
  have still : (((w.advance host).log (.began op)).log
      (.ended op ((host.answers w.asked).reply op))).engine.interrupted = false :=
    uninterrupted
  have nothing (polled : Bool) : [].forM (happen polled) = pure () := rfl
  simp only [external, meets_bind, meets_engine, uninterrupted, Bool.false_eq_true, if_false,
    meets_consult, early, during, nothing, meets_pure, meets_record, still]
  cases (host.answers w.asked).reply op <;> rfl

/-- The pass over a pool that is being deleted and has no runs left. -/
theorem reconcile_deleting (undistracted : host.Undistracted)
    (idle : w.engine.reconcileEpoch = none) {entry : Pool}
    (known : w.engine.state.config.pool? name = some entry)
    (found : w.engine.state.pools[name]? = some p) (deleting : p.deleting = true)
    (stopped : p.running = false) (gone : w.engine.state.hasRuns p.id = false)
    {allowReplenish : Bool} {post : ReconcileReport → World → Prop}
    {fault : Fault Error → World → Prop}
    (listed : ∀ w₁, w₁.engine = w.engine → w₁.file = w.file →
      Meets host (finaliseDeletion name) w₁ (fun _ => post .empty) fault)
    (unlisted : ∀ failure w₁, (host.answers w.asked).reply
      (.dockerList w.engine.state.managerId.text) = .error failure →
        fault (.error (.msg failure)) w₁) :
    Meets host (reconcile name allowReplenish) w post fault := by
  have uninterrupted : w.engine.interrupted = false := by simp [Engine.interrupted, idle]
  unfold reconcile
  refine meets_bind.mpr (meets_getState.mpr (meets_bind.mpr (meets_context.mpr ?_)))
  rw [known]
  refine meets_bind.mpr (meets_poolOf.mpr ?_)
  rw [found]
  refine meets_bind.mpr ((external_undistracted undistracted uninterrupted).mpr ?_)
  split
  · refine meets_bind.mpr (meets_getState.mpr ?_)
    dsimp only
    rw [if_pos (by simpa [stopped] using gone), if_pos deleting]
    refine meets_bind.mpr (Meets.mono (listed _ ?_ ?_) (fun _ _ holds => meets_pure.mpr holds)
      fun _ _ stops => stops)
    all_goals rfl
  · next failure replied => exact unlisted failure _ replied

/-- A deletion is finalised only if the file is clean. -/
theorem clean_of_finalised (undistracted : host.Undistracted)
    (idle : w.engine.reconcileEpoch = none) {entry : Pool}
    (known : w.engine.state.config.pool? name = some entry)
    (found : w.engine.state.pools[name]? = some p) (deleting : p.deleting = true)
    (stopped : p.running = false) (gone : w.engine.state.hasRuns p.id = false)
    {allowReplenish : Bool} :
    Meets host (reconcile name allowReplenish) w
      (fun _ _ => Clean host w.file w.engine.state) (fun _ _ => True) := by
  refine reconcile_deleting undistracted idle known found deleting stopped gone
    (fun w₁ engine file => ?_) fun _ _ _ => trivial
  unfold finaliseDeletion
  refine meets_bind.mpr (meets_cleanFile.mpr ?_)
  split
  · next text _ there =>
      split
      · next digest =>
          have clean : Clean host w.file w.engine.state :=
            ⟨text, file ▸ there, engine ▸ beq_iff_eq.mp digest⟩
          exact (meets_trivial _).mono (fun _ _ _ => clean) fun _ _ _ => trivial
      · trivial
  · trivial

/-- If the file is clean and nothing fails, the deletion is finalised. -/
theorem finalised_of_clean (smooth : host.answers = .smooth)
    (idle : w.engine.reconcileEpoch = none) (valid : w.engine.state.config.Valid) {entry : Pool}
    (known : w.engine.state.config.pool? name = some entry)
    (found : w.engine.state.pools[name]? = some p) (deleting : p.deleting = true)
    (stopped : p.running = false) (gone : w.engine.state.hasRuns p.id = false)
    {text : String} (printed : host.printToml (w.engine.state.config.without name) = .ok text)
    (clean : Clean host w.file w.engine.state) {allowReplenish : Bool} :
    Meets host (reconcile name allowReplenish) w
      (fun _ w' => w'.engine.state.pools[name]? = none ∧
        w'.engine.state.config.pool? name = none ∧ w'.store = some w'.engine.state)
      (fun _ _ => False) := by
  have succeeds (n : Nat) : (host.answers n).succeeds = true := by rw [smooth]; rfl
  refine reconcile_deleting (fun n => by rw [smooth]; exact ⟨rfl, rfl⟩) idle known found deleting
    stopped gone (fun w₁ engine file => ?_) fun failure _ replied => by
      rw [smooth] at replied
      cases replied
  obtain ⟨current, there, digest⟩ := clean
  unfold finaliseDeletion
  refine meets_bind.mpr (meets_cleanFile.mpr ?_)
  rw [succeeds, file, there]
  dsimp only
  rw [if_pos (by rw [engine, digest]; exact beq_self_eq_true _)]
  refine meets_bind.mpr (meets_getState.mpr (meets_bind.mpr (meets_record.mpr
    (meets_bind.mpr (meets_setState.mpr ?_)))))
  unfold commitConfig
  refine Meets.liftExcept_bind (fun _ rejected => ?_) fun _ _ => ?_
  · have accepted := Config.validate_eq_ok_iff.mpr (valid.without name)
    rw [← engine] at accepted
    cases accepted.symm.trans rejected
  refine meets_bind.mpr (meets_printToml.mpr ?_)
  rw [← engine] at printed
  rw [show ((w₁.advance host).log (.readConfig true)).engine.state.config.without name =
    w₁.engine.state.config.without name from rfl, printed]
  refine meets_bind.mpr (meets_hash.mpr (meets_bind.mpr (meets_getState.mpr
    (meets_bind.mpr (meets_storeSave.mpr ?_)))))
  rw [if_pos (succeeds _)]
  refine meets_bind.mpr (meets_setState.mpr (meets_bind.mpr (meets_writeConfig.mpr ?_)))
  rw [if_pos (succeeds _)]
  refine meets_bind.mpr (meets_clearGithub.mpr (meets_publish.mpr ⟨?_, ?_, rfl⟩))
  · exact TreeMap.get_erase_self _ _
  · exact Config.pool?_without_self _ _

/-- There is a way forward only if the file is clean, whatever is answered. -/
theorem clean_of_forward (reachable : Reachable host w) (restored : Restored w.history)
    (fresh : Fresh host w.asked) (found : w.engine.state.pools[name]? = some p)
    (deleting : p.deleting = true) (gone : w.engine.state.hasRuns p.id = false)
    (forward : WayForward host w name) : Clean host w.file w.engine.state := by
  obtain ⟨ready, idle⟩ := reachable.ready
  obtain ⟨sound, -⟩ := ready.sound restored fresh
  obtain ⟨entry, member, rfl⟩ := (sound.entries name).mp ⟨p, found⟩
  obtain ⟨entry', known⟩ := Config.pool?_isSome member
  cases forward with
  | finalised undistracted run =>
      exact (clean_of_finalised undistracted idle known found deleting
        (sound.halted found deleting) gone).returned run
  | @applied _ text _ _ run =>
      exact absurd run (not_applied (w := { w with file := some text }) sound.toIndexed found
        deleting)

/-- A deletion that waits for nothing else has a way forward if and only if the file is
clean. -/
theorem deletion_unblocked (reachable : Reachable host w) (restored : Restored w.history)
    (fresh : Fresh host w.asked) (found : w.engine.state.pools[name]? = some p)
    (deleting : p.deleting = true) (gone : w.engine.state.hasRuns p.id = false) {text : String}
    (printed : host.printToml (w.engine.state.config.without name) = .ok text) :
    WayForward host w name ↔ Clean host w.file w.engine.state := by
  refine ⟨clean_of_forward reachable restored fresh found deleting gone, fun clean => ?_⟩
  obtain ⟨ready, idle⟩ := reachable.ready
  obtain ⟨sound, -⟩ := ready.sound restored fresh
  obtain ⟨entry, member, rfl⟩ := (sound.entries name).mp ⟨p, found⟩
  obtain ⟨entry', known⟩ := Config.pool?_isSome member
  have finalises := @finalised_of_clean (host.answering .smooth) w _ p rfl idle sound.valid
    entry' known found deleting (sound.halted found deleting) gone text printed clean true
  unfold Meets at finalises
  split at finalises
  · next report w' run =>
      obtain ⟨missing, removed, stored⟩ := finalises
      exact .finalised (fun _ => ⟨rfl, rfl⟩) run missing removed stored
  · exact finalises.elim

/-- The only pool is being deleted, and the file is clean. -/
theorem deletion_unblocked_sample : ∃ (host : Host) (w : World),
    (∃ p, w.engine.state.pools["a"]? = some p ∧ p.deleting = true) ∧
      WayForward host w "a" := by
  let host : Host := .scripted [.sample [.sample "a" 1], .sample []] fun _ => id
  obtain ⟨w, reachable, holds⟩ := @Host.reaches host "" .blank [.request (.remove "a" false)]
    (fun w => (decide (Restored w.history) && decide (w.asked ≤ 10 ^ 32)) &&
      (w.file == some "" && host.sha256 "" == w.engine.state.fileHash) &&
        (w.engine.state.config == .sample [.sample "a" 1] &&
          w.engine.state.pools["a"]?.any fun p =>
            p.deleting && !w.engine.state.hasRuns p.id))
    (by decide +kernel)
  simp only [Bool.and_eq_true, decide_eq_true_eq, Option.any_eq_true, beq_iff_eq,
    Bool.not_eq_true'] at holds
  obtain ⟨⟨⟨restored, fresh⟩, file, digest⟩, config, p, found, deleting, gone⟩ := holds
  replace fresh := fresh_of_scripted host (fun _ => rfl) fresh
  have printed : host.printToml (w.engine.state.config.without "a") = .ok "#" := by
    rw [config]
    decide +kernel
  exact ⟨host, w, ⟨p, found, deleting⟩, (deletion_unblocked reachable restored fresh found
    deleting gone printed).mpr ⟨"", file, digest⟩⟩

/-- The file is edited while the only pool is being deleted. -/
theorem deletion_blocked : ∃ (host : Host) (w : World) (p : PoolState), Reachable host w ∧
    Restored w.history ∧ Fresh host w.asked ∧ w.engine.state.pools["a"]? = some p ∧
      p.deleting = true ∧ w.engine.state.hasRuns p.id = false ∧ ¬ WayForward host w "a" := by
  let host : Host := .scripted [.sample [.sample "a" 1], .sample []] fun _ => id
  obtain ⟨w, reachable, holds⟩ := @Host.reaches host "" .blank
    [.request (.remove "a" false), .edit (some "## comment")]
    (fun w => (decide (Restored w.history) && decide (w.asked ≤ 10 ^ 32)) &&
      (w.file == some "## comment" && w.engine.state.fileHash == "") &&
        w.engine.state.pools["a"]?.any fun p => p.deleting && !w.engine.state.hasRuns p.id)
    (by decide +kernel)
  simp only [Bool.and_eq_true, decide_eq_true_eq, Option.any_eq_true, beq_iff_eq,
    Bool.not_eq_true'] at holds
  obtain ⟨⟨⟨restored, fresh⟩, file, digest⟩, p, found, deleting, gone⟩ := holds
  replace fresh := fresh_of_scripted host (fun _ => rfl) fresh
  refine ⟨host, w, p, reachable, restored, fresh, found, deleting, gone, fun forward => ?_⟩
  obtain ⟨text, there, same⟩ :=
    clean_of_forward reachable restored fresh found deleting gone forward
  cases file.symm.trans there
  exact absurd (digest ▸ same : host.sha256 "## comment" = "") (by decide)

end Deletion

end Runnerctl
