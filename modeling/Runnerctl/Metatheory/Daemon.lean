import Runnerctl.Lib.Companions
import Runnerctl.Metatheory.Reachability

/-!
# Docker beside the manager

What is assumed of Docker.  A command takes effect once at most, and not after it returned or
after the manager died; containers stop on their own, and disappear only when they are
removed.  A listing shows the containers that there are, and none as created that was started.
The helper containers of `boot_time` and `repair_runtime_permissions`, which remove themselves
and belong to no pool, are left out.
-/

namespace Runnerctl

open Std Journal

/-! ## What Docker does -/

/-- The labels of a container. -/
structure Labels where
  manager : String
  run : String
  pool : String
  deriving DecidableEq

/-- A container that Docker keeps. -/
structure Vessel where
  labels : Labels
  started : Bool
  running : Bool

/-- The container that `docker create` makes for a run. -/
def Vessel.made (manager : String) (run : Run) : Vessel :=
  ⟨⟨manager, run.id, run.poolId⟩, false, false⟩

/-- What Docker keeps: the containers by their names, the command in flight, whether it is still
to take effect, and in retrospect the labels of all containers that were ever created and the
names of those that began to run. -/
structure Daemon where
  containers : ExtTreeMap String Vessel
  command : Option Op
  due : Bool
  created : List Labels
  launched : List String

namespace Daemon

/-- Docker before the first command. -/
def idle : Daemon := ⟨∅, none, false, [], []⟩

/-- The effect of a command. -/
def perform (d : Daemon) : Op → Daemon
  | .dockerCreate manager run =>
      -- the name must not be in use
      if d.containers.contains run.id then d
      else { d with
        containers := d.containers.insert run.id (.made manager run)
        created := (Vessel.made manager run).labels :: d.created }
  | .dockerStart id =>
      match d.containers[id]? with
      | some vessel =>
          if vessel.running then d
          else { d with
            containers := d.containers.insert id { vessel with started := true, running := true }
            launched := id :: d.launched }
      | none => d
  | .dockerRemove id _ => { d with containers := d.containers.erase id }
  | _ => d

/-- What Docker does on its own. -/
inductive Alone : Daemon → Daemon → Prop where
  | performed {d : Daemon} {op : Op} : d.command = some op → d.due = true →
      Alone d { d.perform op with due := false }
  | stopped {d : Daemon} {id : String} {vessel : Vessel} : d.containers[id]? = some vessel →
      Alone d { d with containers := d.containers.insert id { vessel with running := false } }

/-- The listing shows the containers of the manager, and no container as created that was
started. -/
def Shows (d : Daemon) (manager : String) (listed : List Container) : Prop :=
  (∀ (id : String) (vessel : Vessel), d.containers[id]? = some vessel →
    vessel.labels.manager = manager → ∃ container ∈ listed,
      container.manager = some manager ∧ container.run = some vessel.labels.run ∧
        container.pool = some vessel.labels.pool) ∧
  ∀ container ∈ listed, ∀ (id : String) (vessel : Vessel), container.run = some id →
    container.status = some "created" → d.containers[id]? = some vessel →
      vessel.started = false

/-- What the success of a command tells of Docker. -/
def Answers (d : Daemon) : (op : Op) → op.Reply → Prop
  | .dockerList manager, listed => d.Shows manager listed
  | .dockerCreate _ run, _ =>
      ∃ vessel, d.containers[run.id]? = some vessel ∧ vessel.started = false
  | .dockerRemove id _, _ => d.containers[id]? = none
  | _, _ => True

/-- What a moment tells of Docker. -/
def Allows (d : Daemon) (m : Moment) : Prop :=
  match m.event with
  | .ended op reply => d.command = some op ∧ ∀ value, reply = .ok value → d.Answers op value
  | _ => True

/-- A command is in flight from its beginning to its end, or to the end of the manager. -/
def after (d : Daemon) (m : Moment) : Daemon :=
  match m.event with
  | .began op => { d with command := some op, due := true }
  | .ended _ _ | .crashed _ => { d with command := none, due := false }
  | _ => d

end Daemon

/-- Docker beside the moments of an execution. -/
def docker : Companion Daemon Moment := ⟨Daemon.Alone, Daemon.Allows, Daemon.after⟩

/-- Docker can keep this after the moments. -/
abbrev Daemon.Beside (d : Daemon) (history : List Moment) : Prop :=
  docker.Lives .idle history d

namespace Daemon

variable {d d' : Daemon} {m : Moment}

/-- What a command can change. -/
inductive Effect (d : Daemon) : Op → Daemon → Prop where
  | created {manager : String} {run : Run} : d.containers[run.id]? = none →
      Effect d (.dockerCreate manager run) { d with
        containers := d.containers.insert run.id (.made manager run)
        created := (Vessel.made manager run).labels :: d.created }
  | launched {id : String} {vessel : Vessel} : d.containers[id]? = some vessel →
      Effect d (.dockerStart id) { d with
        containers := d.containers.insert id { vessel with started := true, running := true }
        launched := id :: d.launched }
  | removed {id : String} {force : Bool} :
      Effect d (.dockerRemove id force) { d with containers := d.containers.erase id }
  | nothing {op : Op} : (∀ id force, op ≠ .dockerRemove id force) → Effect d op d

theorem perform_effect (d : Daemon) (op : Op) : d.Effect op (d.perform op) := by
  cases op with
  | dockerCreate manager run =>
      simp only [perform]
      split
      · exact .nothing fun _ _ same => by cases same
      · next free =>
          exact .created (TreeMap.contains_eq_false_iff.mp (Bool.eq_false_of_not_eq_true free))
  | dockerStart id =>
      simp only [perform]
      split
      · next vessel found =>
          split
          · exact .nothing fun _ _ same => by cases same
          · exact .launched found
      · exact .nothing fun _ _ same => by cases same
  | dockerRemove id force => exact .removed
  | _ => exact .nothing fun _ _ same => by cases same

/-- The effect of the command in flight, or the end of a container. -/
theorem Alone.effect (alone : Alone d d') :
    (∃ op e, d.command = some op ∧ d.due = true ∧ d.Effect op e ∧ d' = { e with due := false }) ∨
      ∃ id vessel, d.containers[id]? = some vessel ∧
        d' = { d with containers := d.containers.insert id { vessel with running := false } } := by
  cases alone with
  | @performed op awaits due => exact .inl ⟨op, _, awaits, due, d.perform_effect op, rfl⟩
  | @stopped id vessel found => exact .inr ⟨id, vessel, found, rfl⟩

@[simp] theorem after_containers : (d.after m).containers = d.containers := by
  unfold after
  split <;> rfl

@[simp] theorem after_created : (d.after m).created = d.created := by
  unfold after
  split <;> rfl

@[simp] theorem after_launched : (d.after m).launched = d.launched := by
  unfold after
  split <;> rfl

theorem after_ended {op : Op} {reply : Except String op.Reply}
    (event : m.event = .ended op reply) : (d.after m).command = none := by
  unfold after
  rw [event]

theorem Allows.answers {op : Op} {value : op.Reply} (allows : d.Allows m)
    (event : m.event = .ended op (.ok value)) : d.command = some op ∧ d.Answers op value := by
  unfold Allows at allows
  rw [event] at allows
  exact ⟨allows.1, allows.2 value rfl⟩

/-- The command in flight began at this moment, or before. -/
theorem after_command {op : Op} (awaits : (d.after m).command = some op) :
    m.event = .began op ∨ d.command = some op ∧ (d.after m).due = d.due := by
  unfold after at awaits ⊢
  split at awaits
  · next op' began =>
      cases awaits
      exact .inl began
  · cases awaits
  · cases awaits
  · next other _ _ => exact .inr ⟨awaits, rfl⟩

/-! ## Containers and their names -/

/-- Containers are kept under the names of their runs, and were created. -/
structure Tidy (d : Daemon) : Prop where
  named : ∀ (id : String) (vessel : Vessel), d.containers[id]? = some vessel →
    vessel.labels.run = id
  created : ∀ (id : String) (vessel : Vessel), d.containers[id]? = some vessel →
    vessel.labels ∈ d.created

theorem Tidy.alone (tidy : d.Tidy) (alone : Alone d d') : d'.Tidy := by
  have kept {id : String} {vessel vessel' : Vessel} (found : d.containers[id]? = some vessel)
      (same : vessel'.labels = vessel.labels) (name : String) (other : Vessel)
      (there : (d.containers.insert id vessel')[name]? = some other) :
      other.labels.run = name ∧ other.labels ∈ d.created := by
    rw [TreeMap.get_insert] at there
    split at there
    · next equal =>
        cases there
        cases equal
        exact same ▸ ⟨tidy.named _ _ found, tidy.created _ _ found⟩
    · exact ⟨tidy.named _ _ there, tidy.created _ _ there⟩
  rcases alone.effect with ⟨op, e, -, -, effect, rfl⟩ | ⟨id, vessel, found, rfl⟩
  · cases effect with
      | nothing => exact ⟨tidy.named, tidy.created⟩
      | launched found =>
          exact ⟨fun name other there => (kept found (by rfl) name other there).1,
            fun name other there => (kept found (by rfl) name other there).2⟩
      | removed =>
          refine ⟨fun name other there => tidy.named name other ?_,
            fun name other there => tidy.created name other ?_⟩
          all_goals
            rw [TreeMap.get_erase] at there
            split at there
            · cases there
            · exact there
      | @created manager run _ =>
          constructor
          · intro name other there
            rw [TreeMap.get_insert] at there
            split at there
            · next equal =>
                cases there
                exact equal
            · exact tidy.named name other there
          · intro name other there
            rw [TreeMap.get_insert] at there
            split at there
            · cases there
              exact List.mem_cons_self
            · exact List.mem_cons_of_mem _ (tidy.created name other there)
  · exact ⟨fun name other there => (kept found (by rfl) name other there).1,
      fun name other there => (kept found (by rfl) name other there).2⟩

theorem Tidy.after (tidy : d.Tidy) : (d.after m).Tidy where
  named id vessel found := tidy.named id vessel (after_containers ▸ found)
  created id vessel found := by
    rw [after_created]
    exact tidy.created id vessel (after_containers ▸ found)

theorem Tidy.idle : Tidy .idle where
  named id vessel found := by simp [Daemon.idle] at found
  created id vessel found := by simp [Daemon.idle] at found

theorem Tidy.of_beside {history : List Moment} (beside : d.Beside history) : d.Tidy :=
  beside.keeps .idle (fun _ _ tidy alone => tidy.alone alone) fun _ _ _ tidy _ => tidy.after

/-- What was created before was created. -/
theorem created_subset {moments : List Moment} (lives : docker.Lives d moments d') :
    d.created ⊆ d'.created := by
  refine lives.keeps (P := fun e => d.created ⊆ e.created) (List.Subset.refl _)
    (fun e e' before alone => ?_) fun m _ e before _ => ?_
  · rcases alone.effect with ⟨op, f, -, -, effect, rfl⟩ | ⟨id, vessel, found, rfl⟩
    · cases effect with
      | created => exact fun labels member => List.mem_cons_of_mem _ (before member)
      | launched | removed | nothing => exact before
    · exact before
  · change d.created ⊆ (e.after m).created
    rwa [after_created]

/-! ## Containers of one run -/

/-- There is no container of the run, and none is being created. -/
def Absent (id : String) (d : Daemon) : Prop :=
  d.containers[id]? = none ∧ ∀ manager run, d.command = some (.dockerCreate manager run) →
    run.id ≠ id

/-- No container of the run was started, and none is being started. -/
def Unstarted (id : String) (d : Daemon) : Prop :=
  (∀ vessel, d.containers[id]? = some vessel → vessel.started = false) ∧
    d.command ≠ some (.dockerStart id)

/-- A run has no container as long as none is created. -/
theorem Absent.lives {id : String} {moments : List Moment} (absent : d.Absent id)
    (lives : docker.Lives d moments d') (unraised : ∀ m ∈ moments, m.raises id = false) :
    d'.Absent id := by
  refine lives.keeps absent (fun e e' absent alone => ?_) fun m member e absent _ => ?_
  · obtain ⟨none, command⟩ := absent
    have others {other : String} {vessel vessel' : Vessel}
        (found : e.containers[other]? = some vessel) :
        (e.containers.insert other vessel')[id]? = Option.none := by
      rw [TreeMap.get_insert, if_neg, none]
      rintro rfl
      cases none.symm.trans found
    rcases alone.effect with ⟨op, f, awaits, -, effect, rfl⟩ | ⟨other, vessel, found, rfl⟩
    · cases effect with
      | @created manager run _ =>
          refine ⟨?_, command⟩
          rw [TreeMap.get_insert, if_neg (command manager run awaits), none]
      | launched found => exact ⟨others found, command⟩
      | removed =>
          refine ⟨?_, command⟩
          rw [TreeMap.get_erase, none, ite_self]
      | nothing => exact ⟨none, command⟩
    · exact ⟨others found, command⟩
  · change (e.after m).Absent id
    refine ⟨by rw [after_containers, absent.1], fun manager run awaits => ?_⟩
    rcases after_command awaits with began | ⟨before, -⟩
    · have unraised := unraised m member
      simpa [Moment.raises, began, Op.raises] using unraised
    · exact absent.2 manager run before

/-- No container of a run was started as long as none is. -/
theorem Unstarted.lives {id : String} {moments : List Moment} (unstarted : d.Unstarted id)
    (lives : docker.Lives d moments d') (unlaunched : ∀ m ∈ moments, m.launches id = false) :
    d'.Unstarted id := by
  refine lives.keeps unstarted (fun e e' unstarted alone => ?_)
    fun m member e unstarted _ => ?_
  · obtain ⟨idle, command⟩ := unstarted
    have kept {other : String} {vessel' found : Vessel}
        (same : other = id → vessel'.started = false)
        (there : (e.containers.insert other vessel')[id]? = some found) :
        found.started = false := by
      rw [TreeMap.get_insert] at there
      split at there
      · next equal =>
          cases there
          exact same equal
      · exact idle _ there
    rcases alone.effect with ⟨op, f, awaits, -, effect, rfl⟩ | ⟨other, vessel, found, rfl⟩
    · cases effect with
      | created => exact ⟨fun _ => kept fun _ => rfl, command⟩
      | launched =>
          refine ⟨fun _ => kept fun same => ?_, command⟩
          exact absurd (same ▸ awaits) command
      | removed =>
          refine ⟨fun found there => idle found ?_, command⟩
          rw [TreeMap.get_erase] at there
          split at there
          · cases there
          · exact there
      | nothing => exact ⟨idle, command⟩
    · exact ⟨fun _ => kept fun same => idle vessel (same ▸ found), command⟩
  · change (e.after m).Unstarted id
    refine ⟨fun vessel found => unstarted.1 vessel (after_containers ▸ found), fun awaits => ?_⟩
    rcases after_command awaits with began | ⟨before, -⟩
    · have unlaunched := unlaunched m member
      simp [Moment.launches, began] at unlaunched
    · exact unstarted.2 before

/-! ## Docker that obeys at once -/

instance (manager : String) (listed : List Container) : Decidable (d.Shows manager listed) :=
  decidable_of_iff
    ((∀ entry ∈ d.containers.toList, entry.2.labels.manager = manager →
        ∃ container ∈ listed, container.manager = some manager ∧
          container.run = some entry.2.labels.run ∧
            container.pool = some entry.2.labels.pool) ∧
      ∀ container ∈ listed, ∀ entry ∈ d.containers.toList, container.run = some entry.1 →
        container.status = some "created" → entry.2.started = false) (by
    simp only [Prod.forall, ExtTreeMap.mem_toList_iff_getElem?_eq_some, Shows]
    exact and_congr_right fun _ => forall₄_congr fun _ _ _ _ =>
      ⟨fun shown label status found => shown found label status,
        fun shown found label status => shown label status found⟩)

instance : (op : Op) → (value : op.Reply) → Decidable (d.Answers op value)
  | .dockerList manager, listed => inferInstanceAs (Decidable (d.Shows manager listed))
  | .dockerCreate _ run, _ =>
      decidable_of_iff ((d.containers[run.id]?).any (!·.started) = true) (by
        simp [Answers, Option.any_eq_true])
  | .dockerRemove id _, _ => inferInstanceAs (Decidable (d.containers[id]? = none))
  | .dockerImage _, _ | .dockerStart _, _ | .dockerLogs _, _ | .dockerArchive _, _
  | .dockerBootTime _, _ | .dockerRepair _, _ | .githubList _ _ _ _, _ | .githubToken _ _ _, _
  | .githubRemove _ _ _ _, _ => inferInstanceAs (Decidable True)

instance : Decidable (d.Allows m) :=
  match event : m.event with
  | .ended op (.ok value) =>
      decidable_of_iff (d.command = some op ∧ d.Answers op value) (by simp [Allows, event])
  | .ended op (.error _) => decidable_of_iff (d.command = some op) (by simp [Allows, event])
  | .opened | .crashed _ | .passStarted _ _ _ | .began _ | .received _ | .handled _ _ _ _
  | .saved _ | .readBack _ | .readConfig _ | .wroteConfig _ _ | .cleared | .file _ _ | .looked _ _
  | .newRun _ | .edited | .droppedRun _ _ | .finalising _ | .failed _ _ =>
      isTrue (by simp [Allows, event])

/-- The command in flight takes effect. -/
def obey (d : Daemon) : Daemon :=
  match d.command with
  | some op => if d.due then { d.perform op with due := false } else d
  | none => d

/-- Docker after some moments, if every command takes effect as soon as it begins. -/
def prompt (d : Daemon) : List Moment → Option Daemon
  | [] => some d
  | m :: rest => if d.Allows m then (d.after m).obey.prompt rest else none

theorem obey_moves (d : Daemon) : docker.Moves d d.obey := by
  unfold obey
  split
  · next op awaits =>
      split
      · next due => exact .single (.performed awaits due)
      · exact .refl
  · exact .refl

theorem prompt_lives {history : List Moment} (prompt : d.prompt history = some d') :
    docker.Lives d history d' := by
  induction history generalizing d with
  | nil =>
      cases prompt
      exact .rest .refl
  | cons m rest inductionHypothesis =>
      rw [Daemon.prompt] at prompt
      split at prompt
      · next allows =>
          exact .entry .refl allows ((inductionHypothesis prompt).before (obey_moves _))
      · cases prompt

end Daemon

end Runnerctl
