import Runnerctl.Metatheory.Relations

/-!
# The history is not read

The manager does the same whatever was recorded before: from worlds that differ only in
their histories every program ends alike, and adds the same moments.
-/

namespace Runnerctl

open Std Program

/-- The worlds differ only in what was recorded before: `first` and `second`. -/
def Twins (first second : List Moment) (w v : World) : Prop :=
  ∃ new, w.history = first ++ new ∧ v = { w with history := second ++ new }

/-- What the program does does not depend on what was recorded before. -/
def Oblivious {α : Type} (program : EngineM α) : Prop :=
  ∀ first second : List Moment, Respects (Twins first second) program

section Oblivious

variable {first second : List Moment} {w v : World}

theorem Twins.refl (w : World) (second : List Moment) :
    Twins w.history second w { w with history := second } :=
  ⟨[], (List.append_nil _).symm, by rw [List.append_nil]⟩

/-- Both worlds change in the same way, but for the history. -/
theorem Twins.update (update : World → World) (twins : Twins first second w v)
    (blind : ∀ w history, update { w with history } = { update w with history })
    (quiet : ∀ w, (update w).history = w.history) : Twins first second (update w) (update v) := by
  obtain ⟨new, history, rfl⟩ := twins
  exact ⟨new, (quiet w).trans history, blind w _⟩

theorem Twins.log (twins : Twins first second w v) (event : Event) :
    Twins first second (w.log event) (v.log event) := by
  obtain ⟨new, history, rfl⟩ := twins
  refine ⟨new ++ [w.moment event], ?_, ?_⟩
  · rw [World.log_history, history, List.append_assoc]
  · simp only [World.log, World.moment, List.append_assoc]

/-- What does not depend on the history is the same in both worlds. -/
theorem Twins.common {α : Type} (read : World → α) (twins : Twins first second w v)
    (blind : ∀ w history, read { w with history } = read w) : read w = read v := by
  obtain ⟨_, -, rfl⟩ := twins
  exact (blind w _).symm

/-- An update that leaves the history alone. -/
theorem respects_modify (update : World → World)
    (blind : ∀ w history, update { w with history } = { update w with history })
    (quiet : ∀ w, (update w).history = w.history) :
    Respects (Twins first second) (modify update : EngineM Unit) :=
  .modify fun _ _ twins => twins.update update blind quiet

/-- A program that looks at the world, but not at its history. -/
theorem respects_get {α : Type} {next : World → EngineM α}
    (blind : ∀ w history, next { w with history } = next w)
    (rest : ∀ w, Respects (Twins first second) (next w)) :
    Respects (Twins first second) (get >>= next) :=
  .get_bind (fun _ _ twins => twins.common next blind) rest

/-! ## Effects -/

instance : Respects (Twins first second) consult :=
  .intro fun host w v twins => ⟨.ok (host.answers w.asked), w.advance host, v.advance host, rfl,
    by rw [twins.common World.asked fun _ _ => rfl]; rfl,
    twins.update (World.advance host) (fun _ _ => rfl) fun _ => rfl⟩

instance (event : Event) : Respects (Twins first second) (record event) :=
  .modify fun _ _ twins => twins.log event

instance : Respects (Twins first second) engine :=
  respects_get (fun _ _ => rfl) fun w => .pure w.engine

instance : Respects (Twins first second) getState :=
  respects_get (fun _ _ => rfl) fun w => .pure w.engine.state

instance (state : State) : Respects (Twins first second) (setState state) :=
  respects_modify (World.setState · state) (fun _ _ => rfl) fun _ => rfl

instance {α : Type} (text : String) : Respects (Twins first second) (fail text : EngineM α) :=
  .throw _

instance : Respects (Twins first second) now :=
  .seq inferInstance fun _ => respects_get (fun _ _ => rfl) fun w => .pure w.clock

instance : Respects (Twins first second) readConfig :=
  .seq inferInstance fun answers => respects_get (fun _ _ => rfl) fun w => by
    cases answers.succeeds <;> cases w.file <;> infer_instance

instance (text : String) : Respects (Twins first second) (writeConfig text) := by
  have := @respects_modify first second
    (fun w => { w with file := some text }) (fun _ _ => rfl) fun _ => rfl
  refine .seq inferInstance fun answers => respects_get (fun _ _ => rfl) fun w => ?_
  infer_instance

instance (text : String) : Respects (Twins first second) (hash text) := by
  unfold hash
  infer_instance

instance (state : State) : Respects (Twins first second) (storeSave state) := by
  have := @respects_modify first second
    (fun w => { w with store := some state }) (fun _ _ => rfl) fun _ => rfl
  unfold storeSave
  infer_instance

instance : Respects (Twins first second) storeLoad := by
  have := @respects_get first second _ (fun w => pure w.store)
    (fun _ _ => rfl) inferInstance
  unfold storeLoad
  infer_instance

instance : Respects (Twins first second) readBack :=
  .seq inferInstance fun
    | .ok (some _) => inferInstance
    | .ok none => inferInstance
    | .error _ => inferInstance

instance : Respects (Twins first second) publish :=
  respects_modify World.published (fun _ _ => rfl) fun _ => rfl

instance : Respects (Twins first second) save := by
  unfold save
  infer_instance

instance (config : Config) : Respects (Twins first second) (printToml config) :=
  .seq inferInstance fun host => by cases host.printToml config <;> infer_instance

instance : Respects (Twins first second) clearGithub := by
  unfold clearGithub
  infer_instance

instance (next : Config) : Respects (Twins first second) (commitConfig next) := by
  unfold commitConfig
  infer_instance

/-- The primitive effects cannot tell worlds apart that differ only in their histories. -/
instance : Admits (Twins first second) where
  consult := inferInstance
  record event := inferInstance
  engine := inferInstance
  getState := inferInstance
  now := inferInstance
  readConfig := inferInstance
  setState state := inferInstance
  save := inferInstance
  commitConfig next := inferInstance
  rollBack := inferInstance
  adjust update change same _ := respects_modify update (fun w _ => by rw [same, same w])
    fun w => by rw [same w]
  edit text := respects_modify (fun w => { w with file := text }) (fun _ _ => rfl) fun _ => rfl

instance : Reboots (Twins first second) :=
  .of_assign fun _ => respects_modify _ (fun _ _ => rfl) fun _ => rfl

end Oblivious

end Runnerctl
