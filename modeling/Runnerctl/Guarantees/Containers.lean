import Runnerctl.Metatheory.Daemon
import Runnerctl.Metatheory.Scripts

/-!
# Containers and their records

The store records the run of every container that there is, whatever fails and whenever the
manager dies, so that no container is forgotten.  A run gets one container at most, and the
container is started once at most.
-/

namespace Runnerctl

open Std Program Journal

/-! ## What the manager knows of Docker -/

/-- The manager of `s` gave the labels to one of its runs, and gives the run the same pool as
long as it is recorded. -/
structure State.Labelled (host : Host) (n : Nat) (s : State) (labels : Labels) : Prop where
  manager : labels.manager = s.managerId.text
  drawn : ∃ k < n, labels.run = runId s.managerId (host.answers k).uuid
  pool : ∀ run, s.runs[labels.run]? = some run → run.poolId = labels.pool

/-- The containers belong to runs that are recorded in `s`. -/
structure Daemon.Known (host : Host) (n : Nat) (s : State) (d : Daemon) : Prop where
  recorded : ∀ (id : String) (vessel : Vessel), d.containers[id]? = some vessel →
    ∃ run, s.runs[id]? = some run
  labelled : ∀ labels ∈ d.created, s.Labelled host n labels
  creating : ∀ manager run, d.command = some (.dockerCreate manager run) →
    s.Labelled host n (Vessel.made manager run).labels ∧ ∃ known, s.runs[run.id]? = some known

/-- Containers are created once and started once.  Only runs that `begun` holds of lost their
container. -/
structure Daemon.Single (begun : String → Prop) (d : Daemon) : Prop where
  distinct : (d.created.map Labels.run).Nodup
  once : d.launched.Nodup
  launched : ∀ id ∈ d.launched, id ∈ d.created.map Labels.run ∧
    ∀ vessel, d.containers[id]? = some vessel → vessel.started = true
  gone : ∀ id ∈ d.created.map Labels.run, d.containers[id]? = none → begun id
  creates : ∀ manager run, d.command = some (.dockerCreate manager run) → d.due = true →
    run.id ∉ d.created.map Labels.run
  starts : ∀ id vessel, d.command = some (.dockerStart id) → d.due = true →
    d.containers[id]? = some vessel → vessel.started = false
  removes : ∀ id force, d.command = some (.dockerRemove id force) →
    id ∈ d.created.map Labels.run → begun id

/-- Docker is asked for the containers of this manager. -/
def Addressed (s : State) (history : List Moment) : Prop :=
  ∀ m ∈ history, ∀ manager, m.event = .began (.dockerList manager) →
    manager = s.managerId.text

/-- No command begins. -/
def Unbegun (history : List Moment) : Prop :=
  ∀ m ∈ history, ∀ op, m.event ≠ .began op

/-- The run is not taken for one without a container. -/
def State.Begun (s : State) (id : String) : Prop :=
  ∀ run, s.runs[id]? = some run → run.phase ≠ .creating

section Knowledge

variable {host : Host} {n n' : Nat} {s t : State} {d d' : Daemon} {labels : Labels}
  {m : Moment} {begun begun' : String → Prop}

theorem State.Labelled.mono (labelled : s.Labelled host n labels) (le : n ≤ n') :
    s.Labelled host n' labels :=
  ⟨labelled.manager, labelled.drawn.imp fun _ ⟨small, run⟩ => ⟨small.trans_le le, run⟩,
    labelled.pool⟩

theorem State.Labelled.of_roster (labelled : s.Labelled host n labels)
    (same : s.roster = t.roster) : t.Labelled host n labels := by
  obtain ⟨managerId, -⟩ := State.roster_eq_iff.mp same
  refine ⟨managerId ▸ labelled.manager, managerId ▸ labelled.drawn, fun run found => ?_⟩
  obtain ⟨run', found', -, poolId⟩ := State.run_of_roster same.symm found
  exact poolId ▸ labelled.pool run' found'

namespace Daemon

theorem Known.mono (known : d.Known host n s) (le : n ≤ n') : d.Known host n' s where
  recorded := known.recorded
  labelled labels member := (known.labelled labels member).mono le
  creating manager run awaits := (known.creating manager run awaits).imp_left (·.mono le)

theorem Known.of_roster (known : d.Known host n s) (same : s.roster = t.roster) :
    d.Known host n t := by
  have records {id : String} : (∃ run, s.runs[id]? = some run) → ∃ run, t.runs[id]? = some run := by
    rintro ⟨run, found⟩
    obtain ⟨run', found', -⟩ := State.run_of_roster same found
    exact ⟨run', found'⟩
  exact ⟨fun id vessel found => records (known.recorded id vessel found),
    fun labels member => (known.labelled labels member).of_roster same,
    fun manager run awaits => (known.creating manager run awaits).imp (·.of_roster same) records⟩

theorem Known.alone (known : d.Known host n s) (alone : Alone d d') : d'.Known host n s := by
  rcases alone.effect with ⟨op, e, awaits, -, effect, rfl⟩ | ⟨id, vessel, found, rfl⟩
  · cases effect with
    | @created manager run _ =>
        obtain ⟨labelled, recorded⟩ := known.creating manager run awaits
        refine ⟨fun id vessel there => ?_, ?_, known.creating⟩
        · rw [TreeMap.get_insert] at there
          split at there
          · next same => exact same ▸ recorded
          · exact known.recorded id vessel there
        · exact List.forall_mem_cons.mpr ⟨labelled, known.labelled⟩
    | @launched id vessel found =>
        refine ⟨fun other vessel' there => ?_, known.labelled, known.creating⟩
        rw [TreeMap.get_insert] at there
        split at there
        · next same => exact same ▸ known.recorded id vessel found
        · exact known.recorded other vessel' there
    | removed =>
        refine ⟨fun other vessel' there => ?_, known.labelled, known.creating⟩
        rw [TreeMap.get_erase] at there
        split at there
        · cases there
        · exact known.recorded other vessel' there
    | nothing => exact ⟨known.recorded, known.labelled, known.creating⟩
  · refine ⟨fun other vessel' there => ?_, known.labelled, known.creating⟩
    rw [TreeMap.get_insert] at there
    split at there
    · next same => exact same ▸ known.recorded id vessel found
    · exact known.recorded other vessel' there

theorem Known.after (known : d.Known host n s)
    (begins : ∀ manager run, m.event = .began (.dockerCreate manager run) →
      s.Labelled host n (Vessel.made manager run).labels ∧
        ∃ known, s.runs[run.id]? = some known) : (d.after m).Known host n s where
  recorded id vessel found := known.recorded id vessel (after_containers ▸ found)
  labelled labels member := known.labelled labels (after_created ▸ member)
  creating manager run awaits :=
    (after_command awaits).elim (begins manager run) fun before =>
      known.creating manager run before.1

theorem Single.mono (single : d.Single begun)
    (weaker : ∀ id ∈ d.created.map Labels.run, begun id → begun' id) : d.Single begun' where
  distinct := single.distinct
  once := single.once
  launched := single.launched
  gone id member none := weaker id member (single.gone id member none)
  creates := single.creates
  starts := single.starts
  removes id force awaits member := weaker id member (single.removes id force awaits member)

/-- A container is created for a run that never had one. -/
theorem Single.create (single : d.Single begun) {manager : String} {run : Run}
    (awaits : d.command = some (.dockerCreate manager run)) (due : d.due = true) :
    Single begun { d with
      containers := d.containers.insert run.id (.made manager run)
      created := (Vessel.made manager run).labels :: d.created
      due := false } := by
  have new := single.creates manager run awaits due
  constructor
  · exact List.nodup_cons.mpr ⟨new, single.distinct⟩
  · exact single.once
  · intro id member
    obtain ⟨created, started⟩ := single.launched id member
    refine ⟨List.mem_cons_of_mem _ created, fun vessel there => started vessel ?_⟩
    rw [TreeMap.get_insert, if_neg] at there
    · exact there
    · rintro rfl
      exact new created
  · intro id member none
    rw [TreeMap.get_insert] at none
    split at none
    · cases none
    · next other =>
        exact single.gone id ((List.mem_cons.mp member).resolve_left (Ne.symm other)) none
  · intro _ _ _ due
    exact absurd due Bool.false_ne_true
  · intro _ _ _ due
    exact absurd due Bool.false_ne_true
  · intro id force other
    cases awaits.symm.trans other

/-- A container begins to run that was not started yet. -/
theorem Single.launch (single : d.Single begun) (tidy : d.Tidy) {id : String} {vessel : Vessel}
    (found : d.containers[id]? = some vessel) (awaits : d.command = some (.dockerStart id))
    (due : d.due = true) :
    Single begun { d with
      containers := d.containers.insert id { vessel with started := true, running := true }
      launched := id :: d.launched
      due := false } := by
  have unstarted := single.starts id vessel awaits due found
  constructor
  · exact single.distinct
  · refine List.nodup_cons.mpr ⟨fun member => ?_, single.once⟩
    have started := (single.launched id member).2 vessel found
    exact Bool.false_ne_true (unstarted.symm.trans started)
  · refine List.forall_mem_cons.mpr ⟨⟨?_, ?_⟩, fun other member => ?_⟩
    · have labels := List.mem_map_of_mem (f := Labels.run) (tidy.created id vessel found)
      rwa [tidy.named id vessel found] at labels
    · intro vessel' there
      cases (TreeMap.get_insert_self ..).symm.trans there
      rfl
    · refine (single.launched other member).imp_right fun started vessel' there => ?_
      rw [TreeMap.get_insert] at there
      split at there
      · cases there
        rfl
      · exact started vessel' there
  · intro other member none
    rw [TreeMap.get_insert] at none
    split at none
    · cases none
    · exact single.gone other member none
  · intro _ _ _ due
    exact absurd due Bool.false_ne_true
  · intro _ _ _ due
    exact absurd due Bool.false_ne_true
  · exact single.removes

theorem Single.remove (single : d.Single begun) {id : String} {force : Bool}
    (awaits : d.command = some (.dockerRemove id force)) :
    Single begun { d with containers := d.containers.erase id, due := false } := by
  constructor
  · exact single.distinct
  · exact single.once
  · intro other member
    refine (single.launched other member).imp_right fun started vessel there => ?_
    rw [TreeMap.get_erase] at there
    split at there
    · cases there
    · exact started vessel there
  · intro other member none
    rw [TreeMap.get_erase] at none
    split at none
    · next same => exact single.removes other force (same ▸ awaits) member
    · exact single.gone other member none
  · intro _ _ _ due
    exact absurd due Bool.false_ne_true
  · intro _ _ _ due
    exact absurd due Bool.false_ne_true
  · exact single.removes

theorem Single.stop (single : d.Single begun) {id : String} {vessel : Vessel}
    (found : d.containers[id]? = some vessel) :
    Single begun { d with
      containers := d.containers.insert id { vessel with running := false } } := by
  have kept {other : String} {vessel' : Vessel}
      (there : (d.containers.insert id { vessel with running := false })[other]? =
        some vessel') :
      ∃ before, d.containers[other]? = some before ∧ before.started = vessel'.started := by
    rw [TreeMap.get_insert] at there
    split at there
    · next same =>
        cases there
        exact ⟨vessel, same ▸ found, rfl⟩
    · exact ⟨vessel', there, rfl⟩
  constructor
  · exact single.distinct
  · exact single.once
  · intro other member
    refine (single.launched other member).imp_right fun started vessel' there => ?_
    obtain ⟨before, found, same⟩ := kept there
    exact same ▸ started before found
  · intro other member none
    rw [TreeMap.get_insert] at none
    split at none
    · cases none
    · exact single.gone other member none
  · exact single.creates
  · intro other vessel' awaits due there
    obtain ⟨before, found, same⟩ := kept there
    exact same ▸ single.starts other before awaits due found
  · exact single.removes

theorem Single.alone (single : d.Single begun) (tidy : d.Tidy) (alone : Alone d d') :
    d'.Single begun := by
  rcases alone.effect with ⟨op, e, awaits, due, effect, rfl⟩ | ⟨id, vessel, found, rfl⟩
  · cases effect with
    | created => exact single.create awaits due
    | launched found => exact single.launch tidy found awaits due
    | removed => exact single.remove awaits
    | nothing =>
        exact ⟨single.distinct, single.once, single.launched, single.gone,
          fun _ _ _ due => absurd due Bool.false_ne_true,
          fun _ _ _ due => absurd due Bool.false_ne_true, single.removes⟩
  · exact single.stop found

/-- What has to be the case when a command begins. -/
def Admits (begun : String → Prop) (d : Daemon) : Op → Prop
  | .dockerCreate _ run => run.id ∉ d.created.map Labels.run
  | .dockerStart id => d.Unstarted id
  | .dockerRemove id _ => begun id
  | _ => True

theorem Single.after (single : d.Single begun)
    (begins : ∀ op, m.event = .began op → d.Admits begun op) : (d.after m).Single begun where
  distinct := by
    rw [after_created]
    exact single.distinct
  once := by
    rw [after_launched]
    exact single.once
  launched := by
    rw [after_launched, after_created, after_containers]
    exact single.launched
  gone := by
    rw [after_created, after_containers]
    exact single.gone
  creates manager run awaits due := by
    rw [after_created]
    rcases after_command awaits with began | ⟨before, same⟩
    · exact begins _ began
    · exact single.creates manager run before (same ▸ due)
  starts id vessel awaits due found := by
    rw [after_containers] at found
    rcases after_command awaits with began | ⟨before, same⟩
    · exact (begins _ began).1 vessel found
    · exact single.starts id vessel before (same ▸ due) found
  removes id force awaits member := by
    rw [after_created] at member
    rcases after_command awaits with began | ⟨before, -⟩
    · exact begins _ began
    · exact single.removes id force before member

/-- Nothing begins. -/
theorem Known.lives (known : d.Known host n s) {moments : List Moment}
    (lives : docker.Lives d moments d') (unbegun : Unbegun moments) :
    d'.Known host n s :=
  lives.keeps known (fun _ _ known alone => known.alone alone)
    fun m member _ known _ => known.after fun _ _ event => absurd event (unbegun m member _)

theorem Single.lives (single : d.Single begun) (tidy : d.Tidy) {moments : List Moment}
    (lives : docker.Lives d moments d') (unbegun : Unbegun moments) :
    d'.Single begun :=
  (lives.keeps (P := fun e => e.Tidy ∧ e.Single begun) ⟨tidy, single⟩
    (fun _ _ kept alone => ⟨kept.1.alone alone, kept.2.alone kept.1 alone⟩)
    fun m member _ kept _ => ⟨kept.1.after, kept.2.after fun _ event =>
      absurd event (unbegun m member _)⟩).2

theorem Known.idle (host : Host) (n : Nat) (s : State) : Known host n s .idle where
  recorded id vessel found := by simp [Daemon.idle] at found
  labelled labels member := absurd member List.not_mem_nil
  creating manager run awaits := by simp [Daemon.idle] at awaits

theorem Single.idle (begun : String → Prop) : Single begun .idle where
  distinct := List.nodup_nil
  once := List.nodup_nil
  launched id member := absurd member List.not_mem_nil
  gone id member := absurd member List.not_mem_nil
  creates manager run awaits := by simp [Daemon.idle] at awaits
  starts id vessel awaits := by simp [Daemon.idle] at awaits
  removes id force awaits := by simp [Daemon.idle] at awaits

/-- The command in flight began. -/
theorem began_of_command {history : List Moment} (beside : d.Beside history) {op : Op}
    (awaits : d.command = some op) : ∃ m ∈ history, m.event = .began op := by
  have begun : ∀ op, d.command = some op → ∃ m ∈ history, m.event = .began op := by
    refine beside.keeps (P := fun d => ∀ op, d.command = some op → ∃ m ∈ history,
      m.event = .began op) (fun op awaits => by simp [idle] at awaits)
      (fun d e began alone op awaits => ?_) fun m member d began _ op awaits => ?_
    · rcases alone.effect with ⟨_, _, _, -, effect, rfl⟩ | ⟨_, _, -, rfl⟩
      · cases effect <;> exact began op awaits
      · exact began op awaits
    · exact (after_command awaits).elim (fun event => ⟨m, member, event⟩)
        fun before => began op before.1
  exact begun op awaits

end Daemon

/-! ## What the history tells -/

section Evidence

variable {before rest : List Moment} {run recorded : Run} {id : String}

/-- What Docker was when a command ended, and what became of it. -/
theorem Daemon.ended (beside : d.Beside (before ++ m :: rest)) {op : Op} {value : op.Reply}
    (event : m.event = .ended op (.ok value)) :
    ∃ e : Daemon, e.Beside before ∧ e.command = some op ∧ e.Answers op value ∧
      docker.Lives (e.after m) rest d ∧ (e.after m).command = none ∧
        e.created ⊆ d.created := by
  obtain ⟨first, lives, onward⟩ := Companion.lives_append.mp beside
  obtain ⟨e, moves, allows, onward⟩ := Companion.lives_cons.mp onward
  obtain ⟨awaits, answers⟩ := Daemon.Allows.answers allows event
  have later : (e.after m).created ⊆ d.created := Daemon.created_subset onward
  rw [Daemon.after_created] at later
  exact ⟨e, by simpa using lives.append (.rest moves), awaits, answers, onward,
    Daemon.after_ended event, later⟩

/-- A run whose container was not listed has none, if none was created since. -/
theorem absent_of_listing (known : d.Known host n s) (addressed : Addressed s before)
    (beside : d.Beside (before ++ m :: rest)) {listed : List Container}
    (shown : m.listing = some listed) (found : s.runs[run.id]? = some recorded)
    (poolId : recorded.poolId = run.poolId)
    (unowned : ∀ container ∈ listed, container.owned s.managerId.text run = false)
    (unraised : ∀ m ∈ rest, m.raises run.id = false) : d.Absent run.id := by
  obtain ⟨manager, event⟩ : ∃ manager, m.event = .ended (.dockerList manager) (.ok listed) := by
    rw [Moment.listing] at shown
    split at shown
    · next manager containers event =>
        cases shown
        exact ⟨manager, event⟩
    · cases shown
  obtain ⟨e, beside', awaits, answers, onward, none, created⟩ := Daemon.ended beside event
  refine Daemon.Absent.lives ⟨?_, fun _ _ other => by cases none.symm.trans other⟩ onward unraised
  rw [Daemon.after_containers, Option.eq_none_iff_forall_ne_some]
  intro vessel there
  have tidy := Daemon.Tidy.of_beside beside'
  have labelled := known.labelled _ (created (tidy.created _ vessel there))
  have named := tidy.named _ vessel there
  obtain ⟨began, member, event'⟩ := Daemon.began_of_command beside' awaits
  have own := addressed began member manager event'
  obtain ⟨container, listedHere, label, labelRun, labelPool⟩ :=
    answers.1 _ vessel there (labelled.manager.trans own.symm)
  have owned : container.owned s.managerId.text run = true := by
    have pool := labelled.pool recorded (named ▸ found)
    simp [Container.owned, label, labelRun, labelPool, own, named, ← pool, poolId]
  exact Bool.false_ne_true ((unowned container listedHere).symm.trans owned)

/-- A run whose container was removed has none, if none was created since. -/
theorem absent_of_removal (beside : d.Beside (before ++ m :: rest)) {force : Bool}
    (event : m.event = .ended (.dockerRemove id force) (.ok ()))
    (unraised : ∀ m ∈ rest, m.raises id = false) : d.Absent id := by
  obtain ⟨e, -, -, answers, onward, none, -⟩ := Daemon.ended beside event
  refine Daemon.Absent.lives ⟨?_, fun _ _ other => by cases none.symm.trans other⟩ onward unraised
  rw [Daemon.after_containers]
  exact answers

/-- A run whose container was listed as created was not started, if it was not since. -/
theorem unstarted_of_listing (beside : d.Beside (before ++ m :: rest)) {listed : List Container}
    (shown : m.listing = some listed) {container : Container} (member : container ∈ listed)
    (label : container.run = some id) (status : container.status = some "created")
    (unlaunched : ∀ m ∈ rest, m.launches id = false) : d.Unstarted id := by
  obtain ⟨manager, event⟩ : ∃ manager, m.event = .ended (.dockerList manager) (.ok listed) := by
    rw [Moment.listing] at shown
    split at shown
    · next manager containers event =>
        cases shown
        exact ⟨manager, event⟩
    · cases shown
  obtain ⟨e, -, -, answers, onward, none, -⟩ := Daemon.ended beside event
  refine Daemon.Unstarted.lives ⟨fun vessel there => ?_, fun other => ?_⟩ onward unlaunched
  · rw [Daemon.after_containers] at there
    exact answers.2 container member id vessel label status there
  · cases none.symm.trans other

/-- A run whose container was created was not started, if it was not since. -/
theorem unstarted_of_creation (beside : d.Beside (before ++ m :: rest)) {manager : String}
    (event : m.event = .ended (.dockerCreate manager run) (.ok ()))
    (unlaunched : ∀ m ∈ rest, m.launches run.id = false) : d.Unstarted run.id := by
  obtain ⟨e, -, -, ⟨vessel, made, unstarted⟩, onward, none, -⟩ := Daemon.ended beside event
  refine Daemon.Unstarted.lives ⟨fun other there => ?_, fun other => ?_⟩ onward unlaunched
  · rw [Daemon.after_containers] at there
    cases made.symm.trans there
    exact unstarted
  · cases none.symm.trans other

end Evidence

/-! ## What is recorded -/

section Records

variable {run : Run} {name : String} {p : PoolState}

theorem State.Labelled.dropRun (labelled : s.Labelled host n labels) :
    (s.dropRun name p run).Labelled host n labels := by
  refine ⟨labelled.manager, labelled.drawn, fun run' found => labelled.pool run' ?_⟩
  change (s.runs.erase run.id)[labels.run]? = some run' at found
  rw [TreeMap.get_erase] at found
  split at found
  · cases found
  · exact found

/-- A run without a container is forgotten. -/
theorem Daemon.Known.dropRun (known : d.Known host n s) (absent : d.Absent run.id) :
    d.Known host n (s.dropRun name p run) := by
  have others {id : String} (other : run.id ≠ id) (recorded : ∃ known, s.runs[id]? = some known) :
      ∃ known, (s.runs.erase run.id)[id]? = some known := by
    rwa [TreeMap.get_erase, if_neg other]
  refine ⟨fun id vessel found => others ?_ (known.recorded id vessel found),
    fun labels member => (known.labelled labels member).dropRun, fun manager other awaits => ?_⟩
  · rintro rfl
    cases absent.1.symm.trans found
  · obtain ⟨labelled, recorded⟩ := known.creating manager other awaits
    exact ⟨labelled.dropRun, others (Ne.symm (absent.2 manager other awaits)) recorded⟩

theorem State.Labelled.setRun (labelled : s.Labelled host n labels) (other : labels.run ≠ run.id) :
    (s.setRun run.id run).Labelled host n labels := by
  refine ⟨labelled.manager, labelled.drawn, fun run' found => labelled.pool run' ?_⟩
  rwa [State.setRun_runs, TreeMap.get_insert, if_neg (Ne.symm other)] at found

/-- A run is recorded under a new id. -/
theorem Daemon.Known.setRun (known : d.Known host n s)
    (new : ∀ k < n, run.id ≠ runId s.managerId (host.answers k).uuid) :
    d.Known host n (s.setRun run.id run) := by
  have others {labels : Labels} (labelled : s.Labelled host n labels) : labels.run ≠ run.id := by
    obtain ⟨k, small, drawn⟩ := labelled.drawn
    exact fun same => new k small (same.symm.trans drawn)
  have recorded {id : String} (known : ∃ known, s.runs[id]? = some known) :
      ∃ known, (s.setRun run.id run).runs[id]? = some known := by
    rw [State.setRun_runs, TreeMap.get_insert]
    split
    · exact ⟨_, rfl⟩
    · exact known
  refine ⟨fun id vessel found => recorded (known.recorded id vessel found),
    fun labels member => ?_, fun manager other awaits => ?_⟩
  · have labelled := known.labelled labels member
    exact labelled.setRun (others labelled)
  · obtain ⟨labelled, known⟩ := known.creating manager other awaits
    exact ⟨labelled.setRun (others labelled), recorded known⟩

end Records

end Knowledge

/-! ## Over executions -/

/-- What memory and the store tell of Docker. -/
structure Minds (host : Host) (w : World) (d : Daemon) : Prop where
  memory : d.Known host w.asked w.engine.state
  stored : ∀ t, w.store = some t → d.Known host w.asked t
  single : d.Single (Begun w)

/-- What the store tells of Docker. -/
def Accounts (host : Host) (n : Nat) (history : List Moment) (store : Option State) : Prop :=
  ∀ d : Daemon, d.Beside history → ∀ t, store = some t → d.Known host n t ∧ d.Single t.Begun

/-- The manager keeps track of the containers. -/
structure Tended (host : Host) (w : World) : Prop where
  stored : ∃ t, w.store = some t
  belongs : w.Belongs w.engine.state.managerId
  addressed : Addressed w.engine.state w.history
  minds : Fresh host w.asked → ∀ d : Daemon, d.Beside w.history → Minds host w d

/-- What is left of it after a crash.  Nothing begins before the installation. -/
structure Shelved (host : Host) (n : Nat) (history : List Moment) (store : Option State) :
    Prop where
  unstored : store = none → Unbegun history
  addressed : ∀ t, store = some t → Addressed t history
  accounts : Fresh host n → Accounts host n history store

section Executions

variable {host : Host} {w w' : World} {d d' : Daemon} {n n' : Nat} {history : List Moment}
  {store : Option State} {s t : State}

theorem Accounts.mono (accounts : Accounts host n history store) (le : n ≤ n') :
    Accounts host n' history store :=
  fun d beside t stored => (accounts d beside t stored).imp_left (·.mono le)

theorem Addressed.of_manager (addressed : Addressed s history) (same : t.managerId = s.managerId) :
    Addressed t history :=
  fun m member manager began => (addressed m member manager began).trans (same ▸ rfl)

theorem Begun.stored {id : String} (begun : Begun w id) (stored : w.store = some t) :
    t.Begun id :=
  begun.2 t stored

namespace Minds

theorem accounts (minds : ∀ d : Daemon, d.Beside history → Minds host w d) :
    Accounts host w.asked history w.store := fun d beside t stored =>
  ⟨(minds d beside).stored t stored, (minds d beside).single.mono fun _ _ begun =>
    begun.stored stored⟩

theorem lives (minds : Minds host w d) (tidy : d.Tidy) {moments : List Moment}
    (lives : docker.Lives d moments d') (unbegun : Unbegun moments) :
    Minds host w d' where
  memory := minds.memory.lives lives unbegun
  stored t stored := (minds.stored t stored).lives lives unbegun
  single := minds.single.lives tidy lives unbegun

/-- What a request lets the store tell of Docker. -/
theorem handling (minds : Minds host w d) {request : Request} (le : w.asked ≤ n)
    (storable : Storable host request w n (some t)) :
    d.Known host n t ∧ d.Single t.Begun := by
  rcases storable.marks with same | ⟨s, same, marks⟩
  · exact ⟨(minds.stored t same.symm).mono le, minds.single.mono fun _ _ begun =>
      begun.stored same.symm⟩
  · cases same
    exact ⟨(minds.memory.of_roster marks.roster.symm).mono le,
      minds.single.mono fun _ _ begun => begun.of_marks marks⟩

/-- The container of a run that can be forgotten is gone. -/
theorem absent (minds : Minds host w d) (addressed : Addressed w.engine.state w.history)
    (beside : d.Beside w.history) {run recorded : Run}
    (found : w.engine.state.runs[run.id]? = some recorded) (key : run.key = recorded.key)
    (forgotten : Forgotten w.engine.state.managerId run (currentPass w.history)) :
    d.Absent run.id := by
  obtain ⟨first, second, third, pass, ⟨unraised, m, member, gone⟩, -, -, later⟩ := forgotten
  obtain ⟨before, after, rfl⟩ := List.append_of_mem member
  obtain ⟨earlier, history⟩ := currentPass_suffix w.history
  have split : w.history = (earlier ++ before) ++ m :: (after ++ (second ++ third)) := by
    rw [← history, pass]
    simp
  have quiet : ∀ m ∈ after ++ (second ++ third), m.raises run.id = false :=
    List.forall_mem_append.mpr ⟨fun m member => unraised m (by simp [member]), later⟩
  rw [split] at beside addressed
  have poolId : recorded.poolId = run.poolId := (congrArg Prod.snd key).symm
  rcases gone with ⟨listed, shown, unowned⟩ | ⟨force, event⟩
  · have earlier : Addressed w.engine.state (earlier ++ before) := fun m member =>
      addressed m (List.mem_append_left _ member)
    exact absent_of_listing minds.memory earlier beside shown found poolId unowned quiet
  · exact absent_of_removal beside event quiet

/-- Docker admits what the manager begins. -/
theorem admits (minds : Minds host w d) (addressed : Addressed w.engine.state w.history)
    (beside : d.Beside w.history) (ready : Ready host w) {op : Op} (licensed : Licensed w op) :
    d.Admits (Begun w) op ∧ ∀ manager run, op = .dockerCreate manager run →
      w.engine.state.Labelled host w.asked (Vessel.made manager run).labels ∧
        ∃ known, w.engine.state.runs[run.id]? = some known := by
  obtain ⟨earlier, history⟩ := currentPass_suffix w.history
  have split {m : Moment} (member : m ∈ currentPass w.history) :
      ∃ before rest, w.history = before ++ m :: rest ∧ ∀ m ∈ rest, m ∈ currentPass w.history := by
    obtain ⟨before, rest, pass⟩ := List.append_of_mem member
    refine ⟨earlier ++ before, rest, ?_, fun m later => by simp [pass, later]⟩
    rw [← history, pass, List.append_assoc]
  cases op with
  | dockerCreate manager run =>
      obtain ⟨rfl, unraised, ⟨listed, last, unowned⟩, recorded, found, key, creating⟩ := licensed
      have poolId : recorded.poolId = run.poolId := congrArg Prod.snd key
      obtain ⟨m, member, shown⟩ := mem_of_lastListing last
      obtain ⟨before, rest, whole, later⟩ := split member
      have earlier : Addressed w.engine.state before := fun m member =>
        addressed m (by simp [whole, member])
      have absent := absent_of_listing minds.memory earlier (whole ▸ beside) shown found poolId
        unowned fun m member => unraised m (later m member)
      refine ⟨fun created => ?_, ?_⟩
      · have begun := minds.single.gone run.id created absent.1
        exact begun.1 recorded found creating
      · rintro _ _ ⟨⟩
        have named := ready.named run.id recorded.key (by
          rw [State.roster, TreeMap.get_image, found, Option.map_some])
        refine ⟨⟨rfl, named.2, fun run' found' => ?_⟩, recorded, found⟩
        cases found.symm.trans found'
        exact poolId
  | dockerStart id =>
      obtain ⟨unlaunched, run, found, evidence⟩ := licensed
      refine ⟨?_, fun _ _ other => by cases other⟩
      rcases evidence with ⟨listed, container, last, shown, owned, status⟩ |
        ⟨m, member, manager, created, event, rfl⟩
      · obtain ⟨m, member, listing⟩ := mem_of_lastListing last
        obtain ⟨before, rest, whole, later⟩ := split member
        have label : container.run = some id := by
          simp only [Container.owned, Bool.and_eq_true, beq_iff_eq] at owned
          exact owned.1.2.trans (congrArg some (ready.keyed found))
        exact unstarted_of_listing (whole ▸ beside) listing shown label status
          fun m member => unlaunched m (later m member)
      · obtain ⟨before, rest, whole, later⟩ := split member
        exact unstarted_of_creation (whole ▸ beside) event
          fun m member => unlaunched m (later m member)
  | dockerRemove id force =>
      refine ⟨?_, fun _ _ other => by cases other⟩
      cases force with
      | true => exact licensed.1
      | false => exact licensed.1
  | _ => exact ⟨trivial, fun _ _ other => by cases other⟩

/-- What a step does to memory and store. -/
theorem step (minds : Minds host w d) (addressed : Addressed w.engine.state w.history)
    (step : Step host w w') (fresh : Fresh host w'.asked) (beside : d.Beside w.history) :
    Minds host w' d := by
  have asked := step.advances.asked
  have kept (memory : w'.engine.state.roster = w.engine.state.roster)
      (store : w'.store = w.store ∨ w'.store = some w'.engine.state)
      (begun : ∀ id, Begun w id → w'.engine.state.Begun id) : Minds host w' d := by
    have known := (minds.memory.mono asked).of_roster memory.symm
    refine ⟨known, fun t stored => ?_,
      minds.single.mono fun id _ was => ⟨begun id was, fun t stored => ?_⟩⟩
    · rcases store with same | saved
      · exact (minds.stored t (same ▸ stored)).mono asked
      · cases saved.symm.trans stored
        exact known
    · rcases store with same | saved
      · exact was.2 t (same ▸ stored)
      · cases saved.symm.trans stored
        exact begun id was
  cases step with
  | silent state store => exact kept (by rw [state]) (.inl store) fun id was => state ▸ was.1
  | enter | leave | log | edit | begin | note | fail | delete | write =>
      exact kept rfl (.inl rfl) fun _ was => was.1
  | save => exact kept rfl (.inr rfl) fun _ was => was.1
  | serve ready served =>
      have known := (minds.memory.mono served.asked).of_roster (served.roster ready).symm
      refine ⟨known, fun t stored => ?_, minds.single.mono fun _ _ was => served.begun was⟩
      exact (minds.handling served.asked (stored ▸ served.store)).1
  | @observe id run recorded found key _ _ creating =>
      refine kept (State.setRun_roster found key) (.inl rfl) fun other was run' there => ?_
      change (w.engine.state.runs.insert id run)[other]? = some run' at there
      rw [TreeMap.get_insert] at there
      split at there
      · next same =>
          cases there
          exact fun phase => was.1 recorded (same ▸ found) (creating phase)
      · exact was.1 run' there
  | forget poolId =>
      refine kept (State.roster_of_intent (State.forgetPhases_intent _ poolId)) (.inl rfl)
        fun id was run' there => ?_
      obtain ⟨run, found, rfl⟩ :=
        Option.map_eq_some_iff.mp ((State.forgetPhases_run ..).symm.trans there)
      have before := was.1 run found
      split
      · exact fun phase => by cases phase
      · exact before
  | drain _ drained =>
      exact kept drained.roster (.inl rfl) fun _ was => was.of_marks (.of_drained drained)
  | commit _ _ _ committed =>
      obtain ⟨-, text, -, rfl⟩ := committed
      exact kept rfl (.inr rfl) fun _ was => was.1
  | drop _ _ found key forgotten =>
      have absent := minds.absent addressed beside found key forgotten
      refine ⟨minds.memory.dropRun absent, minds.stored,
        minds.single.mono fun id _ was => ⟨fun run' there => ?_, was.2⟩⟩
      change (w.engine.state.runs.erase _)[id]? = some run' at there
      rw [TreeMap.get_erase] at there
      split at there
      · cases there
      · exact was.1 run' there
  | @record run _ _ id =>
      have new : ∀ k < w.asked,
          run.id ≠ runId w.engine.state.managerId (host.answers k).uuid := by
        intro k small same
        have later : w.asked < w.asked + 2 := Nat.lt_add_of_pos_right Nat.two_pos
        have := fresh w.asked later k (small.trans later) (runId_injective (id.symm.trans same))
        exact absurd this.symm (Nat.ne_of_lt small)
      refine ⟨(minds.memory.setRun new).mono asked, fun t stored => (minds.stored t stored).mono
        asked, minds.single.mono fun other member was => ⟨fun run' there => ?_, was.2⟩⟩
      change (w.engine.state.runs.insert run.id run)[other]? = some run' at there
      rw [TreeMap.get_insert] at there
      split at there
      · next same =>
          obtain ⟨labels, created, rfl⟩ := List.mem_map.mp member
          obtain ⟨k, small, drawn⟩ := (minds.memory.labelled labels created).drawn
          exact absurd (same.trans drawn) (new k small)
      · exact was.1 run' there

/-- What the beginning of an operation does. -/
theorem begin (minds : Minds host w d) (addressed : Addressed w.engine.state w.history)
    (beside : d.Beside w.history) (ready : Ready host w) {op : Op} (licensed : Licensed w op) :
    Minds host (w.log (.began op)) (d.after (w.moment (.began op))) := by
  obtain ⟨admits, creates⟩ := minds.admits addressed beside ready licensed
  refine ⟨minds.memory.after fun manager run began => ?_, fun t stored => ?_,
    minds.single.after fun other began => ?_⟩
  · cases began
    exact creates manager run rfl
  · obtain ⟨t', stored', backs⟩ := ready.stored
    cases stored.symm.trans stored'
    refine (minds.stored t stored).after fun manager run began => ?_
    cases began
    obtain ⟨labelled, known, found⟩ := creates manager run rfl
    obtain ⟨known', found', -⟩ := State.run_of_roster backs.roster.symm found
    exact ⟨labelled.of_roster backs.roster.symm, known', found'⟩
  · cases began
    exact admits

end Minds

theorem Unbegun.append {first second : List Moment} (left : Unbegun first)
    (right : Unbegun second) : Unbegun (first ++ second) :=
  List.forall_mem_append.mpr ⟨left, right⟩

theorem Unbegun.addressed (unbegun : Unbegun history) (s : State) : Addressed s history :=
  fun m member _ began => absurd began (unbegun m member _)

theorem Addressed.append {first second : List Moment} (left : Addressed s first)
    (right : Addressed s second) : Addressed s (first ++ second) :=
  List.forall_mem_append.mpr ⟨left, right⟩

/-- No command begins while a request is handled. -/
theorem Handling.unbegun {request : Request} {new : List Moment}
    (handling : Handling host request w n new store) : Unbegun new := by
  obtain ⟨inner, rfl, between⟩ := handling.arrived
  rw [Unbegun, List.forall_mem_cons]
  refine ⟨fun op began => ?_, fun m member op began => ?_⟩
  · cases began
  · have inside := between m member
    rw [began] at inside
    cases inside

theorem Installed.unbegun {text : String} (installed : Installed host text w) :
    Unbegun w.history := by
  obtain ⟨read, saved, history, readEvent, -, -, savedEvent, -⟩ := installed.history
  simp [Unbegun, history, readEvent, savedEvent]

/-- A step begins an operation, or nothing. -/
theorem Step.begins (step : Step host w w') :
    (∃ new, w'.history = w.history ++ new ∧ Unbegun new) ∨
      ∃ op, w' = w.log (.began op) ∧ Ready host w ∧ Licensed w op := by
  have one {event : Event} (quiet : ∀ op, event ≠ .began op) (v : World) :
      Unbegun [v.moment event] :=
    List.forall_mem_singleton.mpr quiet
  cases step with
  | silent _ _ _ history => exact .inl ⟨[], by rw [history, List.append_nil], by simp [Unbegun]⟩
  | leave | observe | forget | drain | note =>
      exact .inl ⟨[], (List.append_nil _).symm, by simp [Unbegun]⟩
  | begin ready licensed => exact .inr ⟨_, rfl, ready, licensed⟩
  | @serve polled request _ ready served =>
      obtain ⟨w₁, result, pending, rfl⟩ := served.pending
      obtain ⟨new, history, handling⟩ := pending.handling
      refine .inl ⟨new ++ [w₁.moment (.handled polled request w.engine.state result)], ?_, ?_⟩
      · rw [World.log_history, history, List.append_assoc]
      · exact handling.unbegun.append (one (fun op began => by cases began) w₁)
  | log plain =>
      refine .inl ⟨_, rfl, one (fun op began => ?_) w⟩
      rw [began] at plain
      cases plain
  | enter | edit | fail | save | drop | record | delete | commit | write =>
      exact .inl ⟨_, rfl, one (fun op began => by cases began) _⟩

theorem Step.stored (step : Step host w w') (stored : ∃ t, w.store = some t) :
    ∃ t, w'.store = some t := by
  cases step with
  | silent _ store => exact store ▸ stored
  | serve _ served =>
      rcases served.store.marks with kept | ⟨s, saved, -⟩
      · exact kept ▸ stored
      · exact ⟨s, saved⟩
  | save | commit => exact ⟨_, rfl⟩
  | enter | leave | log | edit | begin | observe | forget | drain | note | fail | drop | record
  | delete | write => exact stored

theorem Tended.step (tended : Tended host w) (step : Step host w w') : Tended host w' := by
  have belongs := step.belongs tended.belongs
  have earlier : Addressed w'.engine.state w.history := tended.addressed.of_manager belongs.1
  refine ⟨step.stored tended.stored, belongs.1 ▸ belongs, ?_, fun fresh d beside => ?_⟩
  · rcases step.begins with ⟨new, history, unbegun⟩ | ⟨op, rfl, -, licensed⟩
    · exact history ▸ earlier.append (unbegun.addressed _)
    · refine earlier.append (List.forall_mem_singleton.mpr fun manager began => ?_)
      cases began
      exact licensed
  · have before := fresh.mono step.advances.asked
    rcases step.begins with ⟨new, history, unbegun⟩ | ⟨op, rfl, ready, licensed⟩
    · rw [history] at beside
      obtain ⟨e, beside, lives⟩ := Companion.lives_append.mp beside
      have minds := (tended.minds before e beside).step tended.addressed step fresh beside
      exact minds.lives (.of_beside beside) lives unbegun
    · obtain ⟨e, beside, -, moves⟩ := Companion.lives_concat.mp beside
      have minds := (tended.minds before e beside).begin tended.addressed beside ready licensed
      exact minds.lives (Daemon.Tidy.of_beside beside).after (.rest moves) (by simp [Unbegun])

namespace Shelved

/-- As long as nothing begins there is nothing to keep track of. -/
theorem of_unbegun (unbegun : Unbegun history) : Shelved host n history store where
  unstored _ := unbegun
  addressed t _ := unbegun.addressed t
  accounts _ _ beside _ _ := ⟨(Daemon.Known.idle ..).lives beside unbegun,
    (Daemon.Single.idle _).lives .idle beside unbegun⟩

theorem mono (shelved : Shelved host n history store) (le : n ≤ n') :
    Shelved host n' history store where
  unstored := shelved.unstored
  addressed := shelved.addressed
  accounts fresh := (shelved.accounts (fresh.mono le)).mono le

theorem append (shelved : Shelved host n history store) {new : List Moment}
    (unbegun : Unbegun new) : Shelved host n (history ++ new) store where
  unstored none := (shelved.unstored none).append unbegun
  addressed t stored := (shelved.addressed t stored).append (unbegun.addressed t)
  accounts fresh d beside t stored := by
    obtain ⟨e, beside, lives⟩ := Companion.lives_append.mp beside
    obtain ⟨known, single⟩ := shelved.accounts fresh e beside t stored
    exact ⟨known.lives lives unbegun, single.lives (.of_beside beside) lives unbegun⟩

/-- The manager that was opened from the store keeps track of the containers. -/
theorem tended (shelved : Shelved host w.asked w.history w.store)
    (stored : w.store = some w.engine.state) : Tended host w := by
  have same {t : State} (stored' : w.store = some t) : t = w.engine.state :=
    Option.some_inj.mp (stored'.symm.trans stored)
  refine ⟨⟨_, stored⟩, ⟨rfl, fun t stored' => same stored' ▸ rfl⟩, shelved.addressed _ stored,
    fun fresh d beside => ?_⟩
  obtain ⟨known, single⟩ := shelved.accounts fresh d beside _ stored
  exact ⟨known, fun t stored' => same stored' ▸ known,
    single.mono fun id _ begun => ⟨begun, fun t stored' => same stored' ▸ begun⟩⟩

end Shelved

/-- The manager keeps track of the containers over every execution. -/
theorem tended_invariant (host : Host) : Invariant host (Tended host) (Shelved host) where
  start installed := Shelved.tended (.of_unbegun installed.unbegun) installed.store
  step tended step := tended.step step
  survives {w} tended := by
    obtain ⟨t, stored⟩ := tended.stored
    refine ⟨fun none => ?_, fun t stored => ?_, fun fresh => ?_⟩
    · cases stored.symm.trans none
    · exact tended.addressed.of_manager (tended.belongs.2 t stored)
    · exact Minds.accounts (tended.minds fresh)
  served {w request n new store} tended ready handling := by
    have unbegun := handling.unbegun
    refine ⟨fun none => ?_, fun t stored => ?_, fun fresh d beside t stored => ?_⟩
    · obtain ⟨t, stored⟩ := tended.stored
      rcases handling.storable.marks with kept | ⟨s, saved, -⟩
      · cases (kept.symm.trans none).symm.trans stored
      · cases saved.symm.trans none
    · have manager : t.managerId = w.engine.state.managerId := by
        rcases handling.storable.marks with kept | ⟨s, saved, marks⟩
        · exact tended.belongs.2 t (kept ▸ stored)
        · cases stored.symm.trans saved
          exact marks.managerId
      exact (tended.addressed.of_manager manager).append (unbegun.addressed t)
    · obtain ⟨e, beside, lives⟩ := Companion.lives_append.mp beside
      have minds := tended.minds (fresh.mono handling.asked) e beside
      obtain ⟨known, single⟩ := minds.handling handling.asked (stored ▸ handling.storable)
      exact ⟨known.lives lives unbegun, single.lives (.of_beside beside) lives unbegun⟩
  mono shelved le := shelved.mono le
  reopen {w t} effect shelved stored := by
    refine Shelved.tended (.mono ?_ (Nat.le_succ _)) stored
    simp only [World.reopened, World.log_history, World.advance_history, List.append_assoc]
    exact shelved.append (by simp [Unbegun])

/-- What is left after any moment of an execution. -/
theorem shelved_always (executed : Executed host w) :
    Shelved host w.asked w.history w.store ∧
      Recorded (fun first m => Shelved host w.asked (first ++ [m]) m.store) w.history := by
  refine ((tended_invariant host).lasting (fun installed => ?_) fun event shelved => ?_).executed
    executed
  · rintro first m rest history
    refine Shelved.of_unbegun fun m' member => installed.unbegun m' ?_
    rw [history, List.append_cons]
    exact List.mem_append_left _ member
  · refine shelved.append (List.forall_mem_singleton.mpr fun op began => ?_)
    cases event.symm.trans began

/-! ## Every container is recorded -/

/-- The run of every container is recorded in the store, in the pool that the container's label
names. -/
def Daemon.Accounted (d : Daemon) (store : Option State) : Prop :=
  ∀ (id : String) (vessel : Vessel), d.containers[id]? = some vessel →
    ∃ t run, store = some t ∧ t.runs[vessel.labels.run]? = some run ∧
      run.poolId = vessel.labels.pool

/-- No run got two containers, and no container began to run twice. -/
def Daemon.Sole (d : Daemon) : Prop :=
  (d.created.map Labels.run).Nodup ∧ d.launched.Nodup

theorem Daemon.created_nil (beside : d.Beside history) (unbegun : Unbegun history) :
    d.created = [] := by
  refine (beside.keeps (P := fun e => e.command = none ∧ e.created = []) ⟨rfl, rfl⟩
    (fun e e' before alone => ?_) fun m member e before _ => ?_).2
  · rcases alone.effect with ⟨op, _, awaits, -⟩ | ⟨_, _, -, rfl⟩
    · cases before.1.symm.trans awaits
    · exact before
  · refine ⟨Option.eq_none_iff_forall_ne_some.mpr fun op awaits => ?_, ?_⟩
    · rcases after_command awaits with began | ⟨earlier, -⟩
      · exact unbegun m member op began
      · cases before.1.symm.trans earlier
    · exact after_created.trans before.2

theorem Shelved.accounted (shelved : Shelved host n history store) (fresh : Fresh host n)
    (beside : d.Beside history) : d.Accounted store := by
  intro id vessel found
  have tidy := Daemon.Tidy.of_beside beside
  have created := tidy.created id vessel found
  cases stored : store with
  | none =>
      rw [Daemon.created_nil beside (shelved.unstored stored)] at created
      cases created
  | some t =>
      have known := (shelved.accounts fresh d beside t stored).1
      obtain ⟨run, recorded⟩ := known.recorded id vessel found
      have recorded : t.runs[vessel.labels.run]? = some run :=
        tidy.named id vessel found ▸ recorded
      exact ⟨t, run, rfl, recorded, (known.labelled _ created).pool run recorded⟩

theorem Shelved.sole (shelved : Shelved host n history store) (fresh : Fresh host n)
    (beside : d.Beside history) : d.Sole := by
  cases stored : store with
  | none =>
      have single := (Daemon.Single.idle fun _ => True).lives .idle beside
        (shelved.unstored stored)
      exact ⟨single.distinct, single.once⟩
  | some t =>
      have single := (shelved.accounts fresh d beside t stored).2
      exact ⟨single.distinct, single.once⟩

/-- At every moment the store records the run of every container that there is. -/
theorem containers_recorded (executed : Executed host w) (fresh : Fresh host w.asked) :
    Recorded (fun first m => ∀ d : Daemon, d.Beside (first ++ [m]) → d.Accounted m.store)
        w.history ∧
      ∀ d : Daemon, d.Beside w.history → d.Accounted w.store := by
  obtain ⟨shelved, recorded⟩ := shelved_always executed
  exact ⟨recorded.mono fun _ _ shelved _ => shelved.accounted fresh,
    fun _ => shelved.accounted fresh⟩

/-- The container of the only run was created by a command during which the manager died. -/
def Host.resumed : Host :=
  .scripted [.sample [.sample "a" 1]] fun n answers =>
    { answers with
      reply := fun op => match op with
        | .dockerList managerId =>
            if 28 < n then
              .ok [⟨some managerId, some (runId (.scripted 3) (.scripted 11)),
                some (Uuid.scripted 2).text, some (if n < 40 then "created" else "running"),
                some "start"⟩]
            else .ok []
        | op => op.smooth }

/-- The manager dies while the first container is created, and starts it after a restart. -/
theorem Host.resumes {holds : World → Bool}
    (found : ((Host.resumed.begin "" .blank).bind
      (Host.resumed.play [.request (.start (some "a") false), .tick])).any (fun w =>
        ((w.killed .resumed tick 12).bind (Host.resumed.play [.tick, .tick])).any holds) = true) :
    ∃ w, Reachable .resumed w ∧ holds w = true := by
  obtain ⟨w₀, reachable, killed⟩ := Host.reaches found
  obtain ⟨w, played, holding⟩ := (Option.any_eq_true ..).mp killed
  obtain ⟨opened, killed, played⟩ := Option.bind_eq_some_iff.mp played
  exact ⟨w, Host.play_reachable (World.killed_reachable reachable .tick killed) played, holding⟩

theorem containers_recorded_sample : ∃ (w : World) (d : Daemon) (vessel : Vessel) (t : State)
    (run : Run), Reachable .resumed w ∧ d.Beside w.history ∧
      d.containers[runId (.scripted 3) (.scripted 11)]? = some vessel ∧ w.store = some t ∧
        t.runs[vessel.labels.run]? = some run ∧ run.poolId = vessel.labels.pool := by
  obtain ⟨w, reachable, holds⟩ := @Host.resumes (fun w =>
    decide (w.asked ≤ 10 ^ 32) && (Daemon.idle.prompt w.history).any fun d =>
      d.containers.contains (runId (.scripted 3) (.scripted 11))) (by decide +kernel)
  simp only [Bool.and_eq_true, decide_eq_true_eq, Option.any_eq_true] at holds
  obtain ⟨fresh, d, prompt, there⟩ := holds
  replace fresh := fresh_of_scripted .resumed (fun _ => rfl) fresh
  have beside : d.Beside w.history := Daemon.prompt_lives prompt
  obtain ⟨vessel, found⟩ := Option.isSome_iff_exists.mp
    (ExtTreeMap.isSome_getElem?_eq_contains.trans there)
  obtain ⟨t, run, recorded⟩ :=
    (containers_recorded (.reached reachable) fresh).2 d beside _ vessel found
  exact ⟨w, d, vessel, t, run, reachable, beside, found, recorded⟩

/-- A run gets one container at most, and a container begins to run once at most. -/
theorem containers_single (executed : Executed host w) (fresh : Fresh host w.asked) :
    Recorded (fun first m => ∀ d : Daemon, d.Beside (first ++ [m]) → d.Sole) w.history ∧
      ∀ d : Daemon, d.Beside w.history → d.Sole := by
  obtain ⟨shelved, recorded⟩ := shelved_always executed
  exact ⟨recorded.mono fun _ _ shelved _ => shelved.sole fresh, fun _ => shelved.sole fresh⟩

theorem containers_single_sample : ∃ (w : World) (d : Daemon), Reachable .resumed w ∧
    d.Beside w.history ∧ d.launched = [runId (.scripted 3) (.scripted 11)] ∧ d.Sole := by
  obtain ⟨w, reachable, holds⟩ := @Host.resumes (fun w =>
    decide (w.asked ≤ 10 ^ 32) && (Daemon.idle.prompt w.history).any fun d =>
      d.launched == [runId (.scripted 3) (.scripted 11)]) (by decide +kernel)
  simp only [Bool.and_eq_true, decide_eq_true_eq, Option.any_eq_true, beq_iff_eq] at holds
  obtain ⟨fresh, d, prompt, launched⟩ := holds
  replace fresh := fresh_of_scripted .resumed (fun _ => rfl) fresh
  have beside : d.Beside w.history := Daemon.prompt_lives prompt
  exact ⟨w, d, reachable, beside, launched,
    (containers_single (.reached reachable) fresh).2 d beside⟩

end Executions

end Runnerctl
