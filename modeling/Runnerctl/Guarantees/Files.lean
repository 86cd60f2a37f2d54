import Runnerctl.Guarantees.Revisions
import Runnerctl.Metatheory.Serde

/-!
# The configuration file

A file without unapplied changes is a faithful copy of the configuration, and a file
with unapplied changes is never overwritten.
-/

namespace Runnerctl

open Std Program Journal

/-! ## A clean file is a faithful file -/

/-- What the TOML library writes for a configuration it reads back. -/
def Lossless (host : Host) : Prop :=
  ∀ (config : Config) (text : String), config.InRange →
    host.writeToml config.encode = .ok text → host.readToml text = some config.encode

/-- `Config::parse` returns the configuration. -/
def Parses (host : Host) (text : String) (config : Config) : Prop :=
  host.parseToml text = some config ∧ config.validate = .ok ()

/-- The text with the recorded hash is a text of the recorded configuration. -/
def Faithful (host : Host) (s : State) : Prop :=
  ∃ text, host.sha256 text = s.fileHash ∧ Parses host text s.config

theorem Config.Valid.inRange {config : Config} (valid : config.Valid)
    (manager : config.manager.InRange) : config.InRange where
  schemaVersion := by
    rw [valid.schema]
    decide
  manager := manager
  replicas p member := by
    have le : p.replicas ≤ (config.pools.map Pool.replicas).sum :=
      List.single_le_sum (by simp) _ (List.mem_map_of_mem member)
    exact (le.trans valid.replicas).trans_lt manager.maxRunners

/-- A valid configuration is read back from the text that is printed for it. -/
theorem parse_print {host : Host} (lossless : Lossless host) {config : Config}
    (inRange : config.InRange) {text : String} (printed : host.printToml config = .ok text) :
    host.parseToml text = some config := by
  rw [Host.parseToml, lossless config text inRange printed, Option.bind_some,
    Config.decode_encode inRange]

section Faithful

variable {host : Host} {w w' : World} {s t : State}

theorem Faithful.of_header (faithful : Faithful host s) (same : t.header = s.header) :
    Faithful host t := by
  obtain ⟨text, digest, parsed, validated⟩ := faithful
  have config : t.config = s.config := congrArg Header.config same
  have fileHash : t.fileHash = s.fileHash := congrArg Header.fileHash same
  exact ⟨text, digest.trans fileHash.symm, config ▸ ⟨parsed, validated⟩⟩

/-- The manager's settings were read from a document. -/
theorem Faithful.inRange (faithful : Faithful host s) : s.config.manager.InRange := by
  obtain ⟨text, -, parsed, -⟩ := faithful
  obtain ⟨document, -, decoded⟩ := Option.bind_eq_some_iff.mp parsed
  exact Config.inRange_of_decode decoded

/-- What is committed is faithful. -/
theorem Committed.faithful (lossless : Lossless host) {next : Config} {c : State}
    (committed : Committed host s next c) (manager : next.manager.InRange) :
    Faithful host c := by
  obtain ⟨validated, text, printed, rfl⟩ := committed
  have valid := Config.validate_eq_ok_iff.mp validated
  exact ⟨text, rfl, parse_print lossless (valid.inRange manager) printed, validated⟩

theorem Commits.faithful (lossless : Lossless host) {file : Option String} {lo hi : Nat}
    {request : Request} {c : State} (commits : Commits host file lo hi s request c)
    (faithful : Faithful host s) : Faithful host c := by
  cases commits with
  | add _ _ _ _ committed => exact committed.faithful lossless faithful.inRange
  | scale _ _ _ _ committed => exact committed.faithful lossless faithful.inRange
  | upgrade _ _ _ _ committed => exact committed.faithful lossless faithful.inRange
  | auth _ _ committed => exact committed.faithful lossless faithful.inRange
  | apply _ parsed _ _ _ _ _ committed =>
      obtain ⟨document, -, decoded⟩ := Option.bind_eq_some_iff.mp parsed
      exact committed.faithful lossless (Config.inRange_of_decode decoded)

/-- The stored state is faithful. -/
def FaithfulStore (host : Host) (store : Option State) : Prop :=
  ∀ t, store = some t → Faithful host t

theorem FaithfulStore.memory (faithful : FaithfulStore host w.store)
    (backed : HeaderBacked w) : Faithful host w.engine.state := by
  obtain ⟨t, stored, same⟩ := backed
  exact (faithful t stored).of_header same.symm

theorem Storable.faithful (lossless : Lossless host) {request : Request} {n : Nat}
    {store : Option State} (storable : Storable host request w n store)
    (faithful : FaithfulStore host w.store) (backed : HeaderBacked w) :
    FaithfulStore host store := by
  have memory := faithful.memory backed
  rcases storable with rfl | ⟨s, rfl, commits | ⟨response, accepts⟩⟩
  · exact faithful
  · rintro t ⟨⟩
    exact commits.faithful lossless memory
  · rintro t ⟨⟩
    rcases accepts.header with same | ⟨c, commits, same⟩
    · exact memory.of_header same
    · exact (commits.faithful lossless memory).of_header same

/-- The stored state stays faithful over every execution. -/
theorem faithful_invariant (lossless : Lossless host) :
    Invariant host (fun w => HeaderBacked w ∧ FaithfulStore host w.store)
      (fun _ _ store => FaithfulStore host store) where
  start {text after} installed := by
    refine ⟨⟨_, installed.store, rfl⟩, fun t stored => ?_⟩
    cases installed.store.symm.trans stored
    exact ⟨text, installed.fileHash.symm, installed.parsed, installed.validated⟩
  step {w w'} holds step := by
    obtain ⟨backed, faithful⟩ := holds
    refine ⟨backed.step step, ?_⟩
    cases step with
    | silent _ store => exact store ▸ faithful
    | serve _ served => exact served.store.faithful lossless faithful backed
    | save =>
        rintro t ⟨⟩
        exact faithful.memory backed
    | commit _ _ _ committed =>
        rintro t ⟨⟩
        exact committed.faithful lossless (faithful.memory backed).inRange
    | enter | leave | edit | log | begin | observe | forget | drain | note | fail
    | drop | record | delete | write => exact faithful
  survives holds := holds.2
  served holds _ handling := handling.storable.faithful lossless holds.2 holds.1
  mono faithful _ := faithful
  reopen _ faithful stored := ⟨⟨_, stored, rfl⟩, faithful⟩

/-- If the hash of `config.toml` is the recorded one, its text is parsed to the
configuration; and what is printed for a configuration is parsed to it. -/
theorem clean_file_faithful (injective : Function.Injective host.sha256)
    (lossless : Lossless host) :
    (∀ w, Reachable host w → ∀ text, w.file = some text →
      host.sha256 text = w.engine.state.fileHash → Parses host text w.engine.state.config) ∧
    ∀ (config : Config) (text : String), config.validate = .ok () → config.InRange →
      host.printToml config = .ok text → Parses host text config := by
  refine ⟨fun w reachable text _ digest => ?_, fun config text validated inRange printed =>
    ⟨parse_print lossless inRange printed, validated⟩⟩
  obtain ⟨backed, faithful⟩ := (faithful_invariant lossless).reachable reachable
  obtain ⟨text', digest', parses⟩ := faithful.memory backed
  cases injective (digest.trans digest'.symm)
  exact parses

/-- Scripts write nothing that they do not read back. -/
theorem lossless_scripted (configs : List Config) (script : Nat → Answers → Answers) :
    Lossless (.scripted configs script) := by
  intro config text inRange written
  simp only [Host.scripted, Config.decode_encode inRange, Option.bind_some] at written ⊢
  split at written
  · next position found =>
      cases written
      obtain ⟨small, same, -⟩ := List.findIdx?_eq_some_iff_getElem.mp found
      rw [String.length_ofList, List.length_replicate, List.getElem?_eq_getElem small,
        beq_iff_eq.mp same, Option.map_some]
  · exact nomatch written

/-- After a pool was scaled, the file holds the new configuration. -/
theorem clean_file_faithful_sample : ∃ (host : Host) (w : World), Reachable host w ∧
    w.file = some "#" ∧ w.engine.state.config = .sample [.sample "a" 2] ∧
    Parses host "#" w.engine.state.config := by
  obtain ⟨w, reachable, holds⟩ := @Host.reaches
    (.scripted [.sample [.sample "a" 1], .sample [.sample "a" 2]] fun _ answers => answers)
    "" .blank [.request (.scale "a" 2)]
    (fun w => w.file == some "#" && w.engine.state.fileHash == "#" &&
      w.engine.state.config == .sample [.sample "a" 2]) (by decide +kernel)
  simp only [Bool.and_eq_true, beq_iff_eq] at holds
  obtain ⟨⟨file, digest⟩, config⟩ := holds
  exact ⟨_, w, reachable, file, config, (clean_file_faithful Function.injective_id
    (lossless_scripted _ _)).1 w reachable "#" file digest.symm⟩

end Faithful

/-! ## A file with unapplied changes is never overwritten -/

/-- The request may replace the file: the file has no unapplied changes, or they are what
the request applies. -/
def MayReplace (host : Host) (file : Option String) (s : State) (request : Request) : Prop :=
  request.changesConfig = true ∧ Clean host file s ∨
    ∃ text revision, request = .apply text revision ∧ file = some text

/-- What permits to commit a configuration over the file after the moments `first`. -/
inductive Permitted (host : Host) (first : List Moment) (replaced : Option String) : Prop where
  | request {earlier inner : List Moment} {arrival : Moment} {request : Request} :
      first = earlier ++ arrival :: inner → arrival.event = .received request →
      (∀ m ∈ inner, m.event.between = true) → arrival.file = replaced →
      MayReplace host replaced arrival.state request → Permitted host first replaced
  | deletion {earlier inner : List Moment} {look : Moment} :
      first = earlier ++ look :: inner → look.event = .readConfig true →
      (∀ m ∈ inner, m.deletes = true ∨ m.event = .saved true) → look.file = replaced →
      Clean host replaced look.state → Permitted host first replaced

def OverwrittenAt (host : Host) (first : List Moment) (m : Moment) : Prop :=
  ∀ replaced, m.event = .wroteConfig replaced true → Permitted host first replaced

/-- The stored configuration changes only where it is permitted. -/
def ChangedAt (host : Host) (first : List Moment) (m : Moment) : Prop :=
  ∀ s, final Moment.store none first = some s → ∃ t, m.store = some t ∧
    (t.header = s.header ∨ ∃ replaced, Permitted host first replaced)

/-- The file changes only where somebody edits it or the manager writes it. -/
def TouchedAt (first : List Moment) (m : Moment) : Prop :=
  first ≠ [] → Touches (final Moment.file none first) m ∨ ∃ effect,
    m.event = .crashed effect

structure Guarded (host : Host) (history : List Moment) (store : Option State) : Prop where
  last : final Moment.store none history = store
  overwritten : Recorded (OverwrittenAt host) history
  changed : Recorded (ChangedAt host) history
  touched : Recorded TouchedAt history

/-- The last moment shows the file as it is. -/
def Shown (w : World) : Prop := w.history ≠ [] ∧ final Moment.file none w.history = w.file

section Guarded

variable {host : Host} {w w' : World} {history : List Moment} {store : Option State}

theorem Commits.mayReplace {file : Option String} {lo hi : Nat} {s c : State}
    {request : Request} (commits : Commits host file lo hi s request c) :
    MayReplace host file s request := by
  cases commits with
  | add clean => exact .inl ⟨rfl, clean⟩
  | scale clean => exact .inl ⟨rfl, clean⟩
  | upgrade clean => exact .inl ⟨rfl, clean⟩
  | auth clean => exact .inl ⟨rfl, clean⟩
  | apply file => exact .inr ⟨_, _, rfl, file⟩

theorem Checked.permitted (checked : Checked host w) : Permitted host w.history w.file := by
  obtain ⟨before, look, between, pass, event, file, clean, since⟩ := checked
  obtain ⟨earlier, continues⟩ := currentPass_suffix w.history
  have split : w.history = earlier ++ before ++ look :: between := by
    rw [← continues, pass, List.append_assoc]
  exact .deletion split event since file (file ▸ clean)

theorem Guarded.concat (guarded : Guarded host history store) {m : Moment}
    (overwritten : OverwrittenAt host history m) (changed : ChangedAt host history m)
    (touched : TouchedAt history m) : Guarded host (history ++ [m]) m.store where
  last := final_concat
  overwritten := recorded_concat.mpr ⟨guarded.overwritten, overwritten⟩
  changed := recorded_concat.mpr ⟨guarded.changed, changed⟩
  touched := recorded_concat.mpr ⟨guarded.touched, touched⟩

/-- A moment at which nothing is stored. -/
theorem Guarded.log (guarded : Guarded host history store) {m : Moment} (kept : m.store = store)
    (overwritten : OverwrittenAt host history m) (touched : TouchedAt history m) :
    Guarded host (history ++ [m]) store := by
  subst kept
  refine guarded.concat overwritten (fun s found => ?_) touched
  exact ⟨s, guarded.last.symm.trans found, .inl rfl⟩

theorem Storable.header {request : Request} {n : Nat} (backed : HeaderBacked w)
    (storable : Storable host request w n store) :
    ∃ s, store = some s ∧ (s.header = w.engine.state.header ∨
      ∃ c, Commits host w.file w.asked n w.engine.state request c) := by
  rcases storable with rfl | ⟨s, rfl, commits | ⟨response, accepts⟩⟩
  · obtain ⟨t, stored, same⟩ := backed
    exact ⟨t, stored, .inl same⟩
  · exact ⟨s, rfl, .inr ⟨s, commits⟩⟩
  · exact ⟨s, rfl, accepts.header.imp_right fun ⟨c, commits, _⟩ => ⟨c, commits⟩⟩

/-- The handling of a request, up to any of its moments. -/
theorem Guarded.handling (guarded : Guarded host w.history w.store) (backed : HeaderBacked w)
    (shown : Shown w) {request : Request} {n : Nat} {new : List Moment}
    (handling : Handling host request w n new store) :
    Guarded host (w.history ++ new) store := by
  obtain ⟨inner, arrived, between⟩ := handling.arrived
  have permitted {c : State} (commits : Commits host w.file w.asked n w.engine.state request c)
      {first rest : List Moment} {m : Moment} (split : new = first ++ m :: rest)
      (later : m.event ≠ .received request) : Permitted host (w.history ++ first) w.file := by
    cases first with
    | nil =>
        obtain ⟨rfl, -⟩ := List.cons.inj (arrived.symm.trans split)
        exact absurd rfl later
    | cons head first =>
        obtain ⟨rfl, rfl⟩ := List.cons.inj (arrived.symm.trans split)
        exact .request rfl rfl (fun m member => between m (List.mem_append_left _ member)) rfl
          commits.mayReplace
  have stored {first rest : List Moment} {m : Moment} (split : new = first ++ m :: rest) :
      ∃ s, final Moment.store none (w.history ++ first) = some s ∧
        (s.header = w.engine.state.header ∨
          ∃ c, Commits host w.file w.asked n w.engine.state request c) := by
    rw [final_append, guarded.last]
    cases first using List.reverseRecOn with
    | nil =>
        obtain ⟨t, stored, same⟩ := backed
        exact ⟨t, stored, .inl same⟩
    | append_singleton first last =>
        rw [final_concat]
        exact (handling.explained last (split ▸ by simp)).storable.header backed
  refine ⟨final_append.trans (guarded.last.symm ▸ (handling.ordered backed).2),
    recorded_append.mpr ⟨guarded.overwritten, ?_⟩,
      recorded_append.mpr ⟨guarded.changed, ?_⟩,
    recorded_append.mpr ⟨guarded.touched, ?_⟩⟩
  · intro first m rest split replaced written
    obtain ⟨rfl, c, commits⟩ :=
      (handling.explained m (split ▸ by simp)).overwrites replaced written
    exact permitted commits split (by simp [written])
  · intro first m rest split s found
    obtain ⟨_, found', before⟩ := stored split
    cases found.symm.trans found'
    obtain ⟨t, holds, after⟩ :=
      (handling.explained m (split ▸ by simp)).storable.header backed
    refine ⟨t, holds, ?_⟩
    by_cases later : m.event = .received request
    · cases first with
      | nil =>
          obtain ⟨rfl, -⟩ := List.cons.inj (arrived.symm.trans split)
          rw [List.append_nil, guarded.last] at found
          cases holds.symm.trans found
          exact .inl rfl
      | cons head first =>
          obtain ⟨-, rfl⟩ := List.cons.inj (arrived.symm.trans split)
          simpa [later, Event.between, Event.inner] using between m (by simp)
    · rcases before with before | ⟨c, commits⟩
      · rcases after with after | ⟨c, commits⟩
        · exact .inl (after.trans before.symm)
        · exact .inr ⟨_, permitted commits split later⟩
      · exact .inr ⟨_, permitted commits split later⟩
  · intro first m rest split _
    refine .inl ?_
    rw [final_append, shown.2]
    exact handling.traced first m rest split

theorem Guarded.served (guarded : Guarded host w.history w.store) (backed : HeaderBacked w)
    (shown : Shown w) {polled : Bool} {request : Request}
    (served : Served host polled request w w') : Guarded host w'.history w'.store ∧ Shown w' := by
  obtain ⟨w₁, result, pending, rfl⟩ := served.pending
  obtain ⟨new, continues, handling⟩ := pending.handling
  have before := guarded.handling backed shown handling
  have file : final Moment.file none (w.history ++ new) = w₁.file := by
    have last := pending.traced.2
    rw [World.since, continues, List.drop_left] at last
    rw [final_append, shown.2, last]
  rw [← continues] at before file
  refine ⟨before.log rfl (fun _ event => by cases event) fun _ => .inl (.inl ?_), by simp,
    final_concat⟩
  exact file.symm

/-- Every step keeps the file guarded. -/
theorem Guarded.step (guarded : Guarded host w.history w.store) (backed : HeaderBacked w)
    (shown : Shown w) (step : Step host w w') :
    Guarded host w'.history w'.store ∧ Shown w' := by
  cases step with
  | silent _ store file history => exact ⟨by rwa [history, store],
    by rwa [Shown, history, file]⟩
  | leave | observe | forget | drain | note => exact ⟨guarded, shown⟩
  | serve _ served => exact guarded.served backed shown served
  | edit text =>
      exact ⟨guarded.log rfl nofun fun _ => .inl (.inr (.inl rfl)), by simp, final_concat⟩
  | @log event plain =>
      refine ⟨guarded.log rfl (fun replaced written => ?_) fun _ => .inl (.inl shown.2.symm),
        by simp, final_concat⟩
      cases written
      exact nomatch plain
  | enter | begin | fail | drop | record | delete =>
      exact ⟨guarded.log rfl nofun fun _ => .inl (.inl shown.2.symm), by simp, final_concat⟩
  | save savable whole =>
      refine ⟨guarded.concat nofun (fun s found => ?_) fun _ => .inl (.inl shown.2.symm),
        by simp, final_concat⟩
      obtain ⟨t, stored, same⟩ := backed
      cases stored.symm.trans (guarded.last.symm.trans found)
      exact ⟨_, rfl, .inl same.symm⟩
  | commit _ checked _ _ _ =>
      exact ⟨guarded.concat nofun (fun s found => ⟨_, rfl, .inr ⟨_, checked.permitted⟩⟩)
        fun _ => .inl (.inl shown.2.symm), by simp, final_concat⟩
  | write text checked =>
      refine ⟨guarded.log rfl (fun replaced written => ?_)
        fun _ => .inl (.inr (.inr (by rw [shown.2]; rfl))), by simp, final_concat⟩
      cases written
      exact checked.permitted

/-- The file is guarded over every execution. -/
theorem guarded_invariant (host : Host) :
    Invariant host (fun w => HeaderBacked w ∧ Guarded host w.history w.store ∧ Shown w)
      (fun _ history store => Guarded host history store) where
  start {text after} installed := by
    obtain ⟨read, saved, history, first, unstored, file, second, stored, file'⟩ :=
      installed.history
    refine ⟨⟨_, installed.store, rfl⟩, ?_, by simp [history], by rw [history]; rfl⟩
    have empty : Guarded host [] none := ⟨rfl, recorded_nil, recorded_nil, recorded_nil⟩
    have opened := empty.log (m := read) unstored (by simp [OverwrittenAt, first])
      (fun some => absurd rfl some)
    have kept := opened.concat (m := saved) (by simp [OverwrittenAt, second])
      (fun s found => nomatch unstored.symm.trans found)
      (fun _ => .inl (.inl (file'.trans file.symm)))
    rw [stored] at kept
    rw [history]
    exact kept.log rfl nofun fun _ => .inl (.inl (installed.file.trans file'.symm))
  step holds step := ⟨holds.1.step step, holds.2.1.step holds.1 holds.2.2 step⟩
  survives holds := holds.2.1
  served holds _ handling := holds.2.1.handling holds.1 holds.2.2 handling
  mono guarded _ := guarded
  reopen {w t} effect guarded stored := by
    have crashed : Guarded host (w.history ++ [w.moment (.crashed effect)]) w.store :=
      guarded.log rfl nofun fun _ => .inr ⟨effect, rfl⟩
    exact ⟨⟨t, stored, rfl⟩, crashed.log rfl nofun fun _ =>
      .inl (.inl (by rw [final_concat]; rfl)),
      by simp [World.reopened], final_concat⟩

/-! ## Crashes -/

/-- The manager crashed. -/
def Moment.crashes (m : Moment) : Prop := ∃ effect, m.event = .crashed effect

theorem Moment.not_crashes_of_ofRequest {m : Moment} (ofRequest : m.event.ofRequest = true) :
    ¬ m.crashes := by
  rintro ⟨effect, crashed⟩
  rw [crashed] at ofRequest
  cases ofRequest

theorem Step.uncrashed (step : Step host w w') :
    Grows (¬ ·.crashes) w.history w'.history := by
  cases step with
  | silent _ _ _ history =>
      rw [history]
      exact .refl _
  | leave | observe | forget | drain | note => exact .refl _
  | serve _ served => exact served.grows.mono fun _ => Moment.not_crashes_of_ofRequest
  | log plain =>
      refine .concat ?_
      rintro ⟨effect, crashed⟩
      cases crashed
      cases plain
  | enter | edit | begin | fail | save | drop | record | delete | commit | write =>
      refine .concat ?_
      rintro ⟨effect, crashed⟩
      cases crashed

theorem Turn.uncrashed (turn : Turn host w w') (ready : Ready host w)
    (idle : w.engine.reconcileEpoch = none) : Grows (¬ ·.crashes) w.history w'.history := by
  obtain ⟨mid, steps, ends⟩ := turn.steps ready idle
  have before : Grows (¬ ·.crashes) w.history mid.history := by
    clear ends
    induction steps with
    | refl => exact .refl _
    | tail _ step inductionHypothesis => exact inductionHypothesis.trans step.uncrashed
  rcases ends with rfl | ⟨-, request, pending, -⟩
  · exact before
  · obtain ⟨inner, history, between⟩ := pending.arrived
    refine before.trans ⟨_, history, List.forall_mem_cons.mpr ⟨?_, fun m member => ?_⟩⟩
    · rintro ⟨effect, crashed⟩
      cases crashed
    · rintro ⟨effect, crashed⟩
      have between := between m member
      rw [crashed] at between
      cases between

/-- A crash leaves the file as the last moment shows it. -/
theorem Crash.file {dead : World} (crash : Crash w w' dead) (shown : Shown w)
    (grows : Grows (¬ ·.crashes) w.history w'.history) :
    ∃ (left : World) (effect : Bool), dead = left.log (.crashed effect) ∧
      final Moment.file none left.history = left.file ∧
        Grows (¬ ·.crashes) w.history left.history := by
  cases crash with
  | early effect => exact ⟨{ w with asked := w'.asked }, effect, rfl, shown.2, .refl _⟩
  | late first m rest effect cut =>
      refine ⟨_, effect, rfl, final_concat, first ++ [m], List.append_assoc .., ?_⟩
      obtain ⟨new, history, uncrashed⟩ := grows
      have same : new = first ++ [m] ++ rest := by
        apply List.append_cancel_left (history.symm.trans (cut.trans ?_))
        simp
      intro other member
      exact uncrashed other (same ▸ List.mem_append_left _ member)

/-- A crash does not touch the file. -/
def Spared (history : List Moment) : Prop :=
  Recorded (fun first m => m.crashes → m.file = final Moment.file none first) history

theorem Spared.grows (spared : Spared history) {history' : List Moment}
    (grows : Grows (¬ ·.crashes) history history') : Spared history' := by
  obtain ⟨new, rfl, uncrashed⟩ := grows
  refine recorded_append.mpr ⟨spared, ?_⟩
  intro first m rest split crashes
  exact absurd crashes (uncrashed m (split ▸ List.mem_append_right _ List.mem_cons_self))

theorem Reachable.spared (reachable : Reachable host w) : Spared w.history := by
  induction reachable with
  | start opened =>
      obtain ⟨read, saved, history, first, -, -, second, -⟩ :=
        (openEngine_of_install opened).history
      refine Spared.grows recorded_nil ⟨_, history, fun m member => ?_⟩
      rintro ⟨effect, crashed⟩
      simp only [List.mem_cons, List.not_mem_nil, or_false] at member
      rcases member with rfl | rfl | rfl
      · cases first.symm.trans crashed
      · cases second.symm.trans crashed
      · cases crashed
  | request request _ run inductionHypothesis =>
      have served := (serveRequest_meets host true request _).returned run
      exact inductionHypothesis.grows
        (served.grows.mono fun _ => Moment.not_crashes_of_ofRequest)
  | @tick before _ reachable run inductionHypothesis =>
      obtain ⟨ready, idle⟩ := reachable.ready
      have turn : Turn host before (Runnerctl.tick host before).2 := .tick
      rw [run] at turn
      exact inductionHypothesis.grows (turn.uncrashed ready idle)
  | edit text _ inductionHypothesis =>
      refine inductionHypothesis.grows (.concat ?_)
      rintro ⟨effect, crashed⟩
      cases crashed
  | restart reachable turn crash opened inductionHypothesis =>
      obtain ⟨ready, idle⟩ := reachable.ready
      have shown := ((guarded_invariant host).reachable reachable).2.2
      obtain ⟨left, effect, rfl, file, grows⟩ := crash.file shown (turn.uncrashed ready idle)
      obtain ⟨left', effect', same, t, stored, -⟩ :=
        (storing_invariant host).crash ready.storing ready idle turn crash
      rw [← World.log_store left' (.crashed effect'), ← same] at stored
      cases openEngine_of_store stored opened
      have crashed : Spared (left.log (.crashed effect)).history :=
        recorded_concat.mpr ⟨inductionHypothesis.grows grows, fun _ => file.symm⟩
      refine crashed.grows (.concat ?_)
      rintro ⟨effect, crashed⟩
      cases crashed

theorem Executed.spared (executed : Executed host w) : Spared w.history := by
  cases executed with
  | reached reachable => exact reachable.spared
  | ended reachable turn =>
      obtain ⟨ready, idle⟩ := reachable.ready
      exact reachable.spared.grows (turn.uncrashed ready idle)

/-- What an execution does to the file and to the configuration that is stored. -/
structure Unclobbered (host : Host) (history : List Moment) : Prop where
  overwritten : ∀ {first m rest replaced}, history = first ++ m :: rest →
    m.event = .wroteConfig replaced true → Permitted host first replaced
  untouched : ∀ {first m m' rest}, history = first ++ m :: m' :: rest →
    m'.file = m.file ∨ m'.event = .edited ∨ m'.event = .wroteConfig m.file true
  unchanged : ∀ {first m m' rest s}, history = first ++ m :: m' :: rest → m.store = some s →
    ∃ t, m'.store = some t ∧
      (t.header = s.header ∨ ∃ replaced, Permitted host (first ++ [m]) replaced)

theorem Guarded.unclobbered (guarded : Guarded host history store) (spared : Spared history) :
    Unclobbered host history where
  overwritten split written := guarded.overwritten _ _ _ split _ written
  untouched {first m m' rest} split := by
    have touched := guarded.touched _ _ _ (split.trans (List.append_cons ..)) (by simp)
    rw [final_concat] at touched
    rcases touched with touches | crashed
    · exact touches
    · have kept := spared _ _ _ (split.trans (List.append_cons ..)) crashed
      rw [final_concat] at kept
      exact .inl kept
  unchanged {first m m' rest s} split stored :=
    guarded.changed _ _ _ (split.trans (List.append_cons ..)) s (final_concat.trans stored)

/-- The manager writes `config.toml` only over a text with the recorded hash, or over the
text that it was told to apply; a request that may not replace the file changes neither
the file nor the configuration. -/
theorem manual_edits_kept (host : Host) :
    (∀ w, Executed host w → Unclobbered host w.history) ∧
    ∀ w w' request, Reachable host w → serveRequest true request host w = (.ok (), w') →
      ¬ MayReplace host w.file w.engine.state request →
        w'.file = w.file ∧ w'.engine.state.header = w.engine.state.header ∧
          ∃ t, w'.store = some t ∧ t.header = w.engine.state.header := by
  refine ⟨fun w executed =>
      ((guarded_invariant host).executed executed).unclobbered executed.spared,
    fun w w' request reachable run forbidden => ?_⟩
  obtain ⟨ready, -⟩ := reachable.ready
  have served := (serveRequest_meets host true request w).returned run
  obtain ⟨t, stored, backs⟩ := ready.stored
  obtain ⟨t', stored', backs'⟩ := (served.ready ready).stored
  have header : t'.header = w.engine.state.header := by
    obtain ⟨_, holds, same | ⟨c, commits⟩⟩ :=
      Storable.header ⟨t, stored, backs.header⟩ served.store
    · cases stored'.symm.trans holds
      exact same
    · exact absurd commits.mayReplace forbidden
  refine ⟨?_, backs'.header.symm.trans header, t', stored', header⟩
  rcases served.file with same | ⟨c, commits, -⟩
  · exact same
  · exact absurd commits.mayReplace forbidden

/-- The file is edited; the pool cannot be scaled. -/
theorem manual_edits_kept_sample : ∃ (host : Host) (w w' : World), Reachable host w ∧
    w.file = some "##" ∧ serveRequest true (.scale "a" 2) host w = (.ok (), w') ∧
    w'.file = some "##" ∧ w'.engine.state.header = w.engine.state.header ∧
    Unclobbered host w'.history := by
  let host : Host := .scripted [.sample [.sample "a" 1], .sample [.sample "a" 2]]
    fun _ answers => answers
  obtain ⟨w, reachable, holds⟩ := @Host.reaches host "" .blank [.edit (some "##")]
    (fun w => w.file == some "##" && w.engine.state.fileHash == "" &&
      (serveRequest true (.scale "a" 2) host w).1.isOk) (by decide +kernel)
  simp only [Bool.and_eq_true, beq_iff_eq] at holds
  obtain ⟨⟨file, digest⟩, served⟩ := holds
  have run := returned_of_isOk served
  have forbidden : ¬ MayReplace host w.file w.engine.state (.scale "a" 2) := by
    rw [file]
    rintro (⟨-, text, same, hash⟩ | ⟨_, _, request, -⟩)
    · cases same
      rw [digest] at hash
      exact absurd hash (by decide)
    · exact nomatch request
  obtain ⟨executions, requests⟩ := manual_edits_kept host
  obtain ⟨kept, header, -⟩ := requests w _ _ reachable run forbidden
  exact ⟨host, w, _, reachable, file, run, kept.trans file, header,
    executions _ (.reached (.request _ reachable run))⟩

end Guarded

end Runnerctl
