import Runnerctl.Metatheory.Acceptance

/-!
# The handlers meet their specification

`Inside` collects what every point inside a handler has in common, `Answered` and
`Stops` how a handler ends.
-/

namespace Runnerctl

open Std Program Journal

/-- The events inside a handler. -/
def Event.inner : Event → Bool
  | .saved _ | .readConfig _ | .wroteConfig _ _ | .cleared => true
  | _ => false

/-- The events inside a handler that leave `config.toml` alone. -/
def Event.still : Event → Bool
  | .wroteConfig _ ok => !ok
  | event => event.inner

/-- What the store can hold while a request is handled that found the world `w`. -/
def Storable (host : Host) (request : Request) (w : World) (hi : Nat)
    (store : Option State) : Prop :=
  store = w.store ∨ ∃ s, store = some s ∧
    (Commits host w.file w.asked hi w.engine.state request s ∨
      ∃ response, Accepts host w.file w.asked hi w.engine.state request response s)

/-- What the request explains of a moment.  If `config.toml` is written, then over the
text that the request found, and because of a commit. -/
structure Explained (host : Host) (request : Request) (w : World) (hi : Nat) (m : Moment) :
    Prop where
  storable : Storable host request w hi m.store
  overwrites : ∀ replaced, m.event = .wroteConfig replaced true → replaced = w.file ∧
    ∃ c, Commits host w.file w.asked hi w.engine.state request c

/-- Memory has the configuration that is stored. -/
def HeaderBacked (w : World) : Prop :=
  ∃ t, w.store = some t ∧ t.header = w.engine.state.header

/-- The stored configuration stays, or the next revision takes its place. -/
def Succeeds (before after : Option State) : Prop :=
  ∀ s, before = some s → ∃ t, after = some t ∧
    (t.header = s.header ∨ t.revision = s.revision + 1)

theorem Succeeds.refl (store : Option State) : Succeeds store store :=
  fun s stored => ⟨s, stored, .inl rfl⟩

/-- The stored configurations from `w` to `w'` succeed each other. -/
def Ordered (w w' : World) : Prop :=
  Chained Succeeds Moment.store w.store (w.since w') ∧
    final Moment.store w.store (w.since w') = w'.store

/-- At a moment `config.toml` is what it was, or the moment is a change of it. -/
def Touches (before : Option String) (m : Moment) : Prop :=
  m.file = before ∨ m.event = .edited ∨ m.event = .wroteConfig before true

/-- `config.toml` changes from `w` to `w'` only at moments that say so. -/
def Traced (w w' : World) : Prop :=
  Recorded (fun first m => Touches (final Moment.file w.file first) m) (w.since w') ∧
    final Moment.file w.file (w.since w') = w'.file

/-- `config.toml` is what it was, or a commit of the request was saved. -/
def Keeps (host : Host) (request : Request) (w w' : World) : Prop :=
  w'.file = w.file ∨ ∃ c, Commits host w.file w.asked w'.asked w.engine.state request c ∧
    ∃ m ∈ w.since w', m.event = .saved true

/-- `w'` lies inside the handling of a request that found the world `w`. -/
structure Inside (host : Host) (request : Request) (w w' : World) : Prop where
  epoch : w'.engine.epoch = w.engine.epoch
  reconcileEpoch : w'.engine.reconcileEpoch = w.engine.reconcileEpoch
  cursor : w'.engine.cursor = w.engine.cursor
  bootTime : w'.engine.bootTime = w.engine.bootTime
  marks : w.engine.state.Marks w'.engine.state
  punctual : Punctual host w.asked w'.asked request.pardons w.engine.state.pools
    w'.engine.state.pools
  asked : w.asked ≤ w'.asked
  clock : w.clock ≤ w'.clock
  store : Storable host request w w'.asked w'.store
  file : Keeps host request w w'
  history : Grows (fun m => m.event.inner = true ∧ Explained host request w w'.asked m)
    w.history w'.history
  ordered : HeaderBacked w → Ordered w w'
  traced : Traced w w'

/-- Store and header are as they were, or the request committed a configuration; then
memory has the header of the state that was stored at one of the moments. -/
def Unanswered (host : Host) (request : Request) (w w' : World) (moments : List Moment) :
    Prop :=
  (w'.store = w.store ∧ w'.engine.state.header = w.engine.state.header) ∨
    ∃ c, w'.store = some c ∧ w'.engine.state.header = c.header ∧
      Commits host w.file w.asked w'.asked w.engine.state request c ∧
      ∃ m ∈ moments, m.event = .saved true ∧ m.store = some c

/-- A handler answered. -/
structure Answered (host : Host) (request : Request) (w : World) (response : Response)
    (w' : World) : Prop extends Inside host request w w' where
  accepts : Accepts host w.file w.asked w'.asked w.engine.state request response
    w'.engine.state
  saved : w'.store = if request.mutating then some w'.engine.state else w.store

/-- A handler stopped.  It panics only if the state is not indexed. -/
structure Stops (host : Host) (request : Request) (w : World) (fault : Fault Error)
    (w' : World) : Prop extends Inside host request w w' where
  unanswered : Unanswered host request w w' (w.since w')
  panics : fault = .panic → ¬ w.engine.state.Indexed

section Inside

variable {host : Host} {request : Request} {w w' : World} {hi hi' : Nat}
  {store : Option State}

theorem Storable.mono (storable : Storable host request w hi store) (le : hi ≤ hi') :
    Storable host request w hi' store := by
  rcases storable with same | ⟨s, stored, commits | ⟨response, accepts⟩⟩
  · exact .inl same
  · exact .inr ⟨s, stored, .inl (commits.mono le)⟩
  · exact .inr ⟨s, stored, .inr ⟨response, accepts.mono le⟩⟩

theorem Explained.mono {m : Moment} (explained : Explained host request w hi m)
    (le : hi ≤ hi') : Explained host request w hi' m where
  storable := explained.storable.mono le
  overwrites replaced written :=
    (explained.overwrites replaced written).imp_right fun ⟨c, commits⟩ =>
      ⟨c, commits.mono le⟩

theorem World.since_log (isPrefix : w.history <+: w'.history) (event : Event) :
    w.since (w'.log event) = w.since w' ++ [w'.moment event] :=
  List.drop_append_of_le_length isPrefix.length_le

theorem World.mem_since {w'' : World} {m : Moment} (member : m ∈ w.since w')
    (isPrefix : w'.history <+: w''.history) : m ∈ w.since w'' := by
  obtain ⟨new, continues⟩ := isPrefix
  rw [World.since, ← continues, List.drop_append]
  exact List.mem_append_left _ member

theorem World.since_trans {w'' : World} (first : w.history <+: w'.history)
    (second : w'.history <+: w''.history) : w.since w'' = w.since w' ++ w'.since w'' := by
  obtain ⟨new, history⟩ := first
  obtain ⟨more, history'⟩ := second
  simp [World.since, ← history', ← history]

theorem Keeps.later {w'' : World} (keeps : Keeps host request w w') (file : w''.file = w'.file)
    (asked : w'.asked ≤ w''.asked) (isPrefix : w'.history <+: w''.history) :
    Keeps host request w w'' := by
  rcases keeps with same | ⟨c, commits, m, member, saved⟩
  · exact .inl (file.trans same)
  · exact .inr ⟨c, commits.mono asked, m, World.mem_since member isPrefix, saved⟩

theorem Ordered.refl (w : World) : Ordered w w := by
  rw [Ordered, World.since, List.drop_length]
  exact ⟨trivial, rfl⟩

theorem World.since_concat {w'' : World} (isPrefix : w.history <+: w'.history) {m : Moment}
    (history : w''.history = w'.history ++ [m]) : w.since w'' = w.since w' ++ [m] := by
  rw [World.since, history, List.drop_append_of_le_length isPrefix.length_le, World.since]

/-- A moment at which the store holds a successor. -/
theorem Ordered.concat {w'' : World} (ordered : Ordered w w')
    (isPrefix : w.history <+: w'.history) {m : Moment}
    (history : w''.history = w'.history ++ [m]) (store : m.store = w''.store)
    (succeeds : Succeeds w'.store w''.store) : Ordered w w'' := by
  rw [Ordered, World.since_concat isPrefix history, chained_concat, final_concat, ordered.2, store]
  exact ⟨⟨ordered.1, succeeds⟩, rfl⟩

theorem Ordered.log (ordered : Ordered w w') (isPrefix : w.history <+: w'.history)
    (event : Event) : Ordered w (w'.log event) :=
  ordered.concat isPrefix rfl rfl (.refl _)

theorem Traced.refl (w : World) : Traced w w := by
  rw [Traced, World.since, List.drop_length]
  exact ⟨recorded_nil, rfl⟩

theorem Traced.concat {w'' : World} (traced : Traced w w')
    (isPrefix : w.history <+: w'.history) {m : Moment}
    (history : w''.history = w'.history ++ [m]) (file : m.file = w''.file)
    (touches : Touches w'.file m) : Traced w w'' := by
  rw [Traced, World.since_concat isPrefix history, recorded_concat, final_concat, traced.2]
  exact ⟨⟨traced.1, touches⟩, file⟩

theorem Traced.log (traced : Traced w w') (isPrefix : w.history <+: w'.history)
    (event : Event) : Traced w (w'.log event) :=
  traced.concat isPrefix rfl rfl (.inl rfl)

namespace Inside

theorem refl (host : Host) (request : Request) (w : World) : Inside host request w w where
  epoch := rfl
  reconcileEpoch := rfl
  cursor := rfl
  bootTime := rfl
  marks := .refl _
  punctual := .refl _
  asked := le_rfl
  clock := le_rfl
  store := .inl rfl
  file := .inl rfl
  history := .refl _
  ordered _ := .refl w
  traced := .refl w

theorem advance (inside : Inside host request w w') :
    Inside host request w (w'.advance host) where
  epoch := inside.epoch
  reconcileEpoch := inside.reconcileEpoch
  cursor := inside.cursor
  bootTime := inside.bootTime
  marks := inside.marks
  punctual := inside.punctual.mono (Nat.le_succ _)
  asked := Nat.le_succ_of_le inside.asked
  clock := Nat.le_add_right_of_le inside.clock
  store := inside.store.mono (Nat.le_succ _)
  file := inside.file.later rfl (Nat.le_succ _) (List.prefix_refl _)
  history := inside.history.mono fun _ => .imp_right (·.mono (Nat.le_succ _))
  ordered := inside.ordered
  traced := inside.traced

theorem log (inside : Inside host request w w') {event : Event}
    (still : event.still = true) : Inside host request w (w'.log event) := by
  have inner : event.inner = true := by
    cases event <;> first | rfl | exact still
  refine { inside with
    file := inside.file.later rfl le_rfl (List.prefix_append ..)
    history := inside.history.trans (.concat ⟨inner, inside.store, ?_⟩)
    ordered := fun backed => (inside.ordered backed).log inside.history.isPrefix event
    traced := inside.traced.log inside.history.isPrefix event }
  intro replaced written
  cases written
  simp [Event.still] at still

theorem setState (inside : Inside host request w w') {s : State}
    (marks : w'.engine.state.Marks s)
    (punctual : Punctual host w.asked w'.asked request.pardons w'.engine.state.pools s.pools) :
    Inside host request w (w'.setState s) :=
  { inside with
    marks := inside.marks.trans marks
    punctual := inside.punctual.trans punctual }

/-- A successor of the stored state is saved. -/
theorem saves (inside : Inside host request w w') {s : State}
    (storable : Storable host request w w'.asked (some s))
    (succeeds : HeaderBacked w → Succeeds w'.store (some s)) :
    Inside host request w ((w'.withStore s).log (.saved true)) :=
  { inside with
    store := storable
    file := inside.file.later rfl le_rfl (List.prefix_append ..)
    history := inside.history.trans (.concat ⟨rfl, storable, fun _ => nofun⟩)
    ordered := fun backed =>
      (inside.ordered backed).concat inside.history.isPrefix rfl rfl (succeeds backed)
    traced := inside.traced.concat inside.history.isPrefix rfl rfl (.inl rfl) }

/-- `config.toml` is written because of a commit. -/
theorem write (inside : Inside host request w w') (unwritten : w'.file = w.file) {c : State}
    (text : String) (commits : Commits host w.file w.asked w'.asked w.engine.state request c)
    {m : Moment} (member : m ∈ w.since w') (saved : m.event = .saved true) :
    Inside host request w ((w'.withFile (some text)).log (.wroteConfig w'.file true)) :=
  { inside with
    file := .inr ⟨c, commits, m, World.mem_since member (List.prefix_append ..), saved⟩
    history := inside.history.trans (.concat
      ⟨rfl, inside.store, fun _ written => by cases written; exact ⟨unwritten, c, commits⟩⟩)
    ordered := fun backed => (inside.ordered backed).concat inside.history.isPrefix rfl rfl
      (.refl _)
    traced := inside.traced.concat inside.history.isPrefix rfl rfl (.inr (.inr rfl)) }

theorem published (inside : Inside host request w w') :
    Inside host request w w'.published :=
  { inside with }

end Inside

/-- What happens later leaves the stored state and the header of memory alone. -/
theorem Unanswered.later {w'' : World}
    (unanswered : Unanswered host request w w' (w.since w'))
    (store : w''.store = w'.store)
    (header : w''.engine.state.header = w'.engine.state.header)
    (asked : w'.asked ≤ w''.asked) (history : w'.history <+: w''.history) :
    Unanswered host request w w'' (w.since w'') := by
  rcases unanswered with ⟨kept, same⟩ | ⟨c, stored, same, commits, m, member, written⟩
  · exact .inl ⟨store.trans kept, header.trans same⟩
  · exact .inr ⟨c, store.trans stored, header.trans same, commits.mono asked, m,
      World.mem_since member history, written⟩

theorem Unanswered.failed (unanswered : Unanswered host request w w' (w.since w'))
    (event : Event) : Unanswered host request w ((w'.advance host).log event)
      (w.since ((w'.advance host).log event)) :=
  unanswered.later rfl rfl (Nat.le_succ _) (List.prefix_append ..)

/-- A handler stops with an error. -/
theorem Inside.rejects (inside : Inside host request w w')
    (unanswered : Unanswered host request w w' (w.since w')) (error : Error) :
    Stops host request w (.error error) w' where
  toInside := inside
  unanswered := unanswered
  panics := nofun

/-! ## Committing and saving inside a request -/

/-- A point inside a handler that has not stored anything yet. -/
structure Unstored (host : Host) (request : Request) (w w' : World) : Prop
    extends Inside host request w w' where
  kept : w'.store = w.store
  header : w'.engine.state.header = w.engine.state.header
  unwritten : w'.file = w.file

namespace Unstored

theorem refl (host : Host) (request : Request) (w : World) : Unstored host request w w :=
  ⟨.refl host request w, rfl, rfl, rfl⟩

theorem advance (unstored : Unstored host request w w') :
    Unstored host request w (w'.advance host) :=
  ⟨unstored.toInside.advance, unstored.kept, unstored.header, unstored.unwritten⟩

theorem setState (unstored : Unstored host request w w') {s : State}
    (marks : w'.engine.state.Marks s)
    (punctual : Punctual host w.asked w'.asked request.pardons w'.engine.state.pools s.pools)
    (header : s.header = w'.engine.state.header) : Unstored host request w (w'.setState s) :=
  ⟨unstored.toInside.setState marks punctual, unstored.kept, header.trans unstored.header,
    unstored.unwritten⟩

theorem log (unstored : Unstored host request w w') {event : Event}
    (still : event.still = true) : Unstored host request w (w'.log event) :=
  ⟨unstored.toInside.log still, unstored.kept, unstored.header, unstored.unwritten⟩

theorem unanswered (unstored : Unstored host request w w') :
    Unanswered host request w w' (w.since w') :=
  .inl ⟨unstored.kept, unstored.header⟩

theorem rejects (unstored : Unstored host request w w') (error : Error) :
    Stops host request w (.error error) w' :=
  unstored.toInside.rejects unstored.unanswered error

end Unstored

/-- A commit over a point that has not stored anything yet. -/
theorem Unstored.succeeds (unstored : Unstored host request w w') {config : Config}
    {fileHash : String} (backed : HeaderBacked w) :
    Succeeds w'.store (some (w'.engine.state.commit config fileHash)) := by
  obtain ⟨t, stored, header⟩ := backed
  intro s found
  rw [unstored.kept, stored] at found
  cases found
  refine ⟨_, rfl, .inr ?_⟩
  have revision := congrArg Header.revision (header.trans unstored.header.symm)
  exact congrArg (· + 1) revision.symm

theorem Unanswered.succeeds {moments : List Moment}
    (unanswered : Unanswered host request w w' moments) (backed : HeaderBacked w) :
    Succeeds w'.store (some w'.engine.state) := by
  intro s found
  refine ⟨_, rfl, .inl ?_⟩
  rcases unanswered with ⟨kept, header⟩ | ⟨c, stored, header, -⟩
  · obtain ⟨t, stored, same⟩ := backed
    rw [kept, stored] at found
    cases found
    exact header.trans same.symm
  · rw [stored] at found
    cases found
    exact header

/-- The world after a configuration was committed. -/
structure CommittedIn (host : Host) (request : Request) (w : World) (s : State)
    (next : Config) (w' : World) : Prop extends Inside host request w w' where
  committed : Committed host s next w'.engine.state
  commits : Commits host w.file w.asked w'.asked w.engine.state request w'.engine.state
  stored : w'.store = some w'.engine.state
  unanswered : Unanswered host request w w' (w.since w')

/-- After a commit, memory changes in nothing but the marks of runs and the pools. -/
theorem CommittedIn.setState {s : State} {next : Config}
    (committed : CommittedIn host request w s next w') {t : State}
    (marks : w'.engine.state.Marks t)
    (punctual : Punctual host w.asked w'.asked request.pardons w'.engine.state.pools t.pools)
    (header : t.header = w'.engine.state.header) :
    Inside host request w (w'.setState t) ∧
      Unanswered host request w (w'.setState t) (w.since w') :=
  ⟨committed.toInside.setState marks punctual,
    committed.unanswered.later rfl header le_rfl (List.prefix_refl _)⟩

/-- `commitConfig` in a handler: it commits, or stops before or after its save. -/
theorem commitConfig_inside {w₁ : World} (unstored : Unstored host request w w₁)
    (next : Config)
    (commits : ∀ c, Committed host w₁.engine.state next c →
      Commits host w.file w.asked w₁.asked w.engine.state request c) :
    Meets host (commitConfig next) w₁
      (fun _ w' => CommittedIn host request w w₁.engine.state next w')
      (Stops host request w) := by
  simp only [commitConfig, meets_bind, meets_liftExcept, meets_printToml, meets_hash,
    meets_getState, meets_storeSave, meets_setState, meets_writeConfig, meets_clearGithub,
    meets_publish]
  match valid : next.validate with
  | .error error => exact unstored.rejects error
  | .ok () =>
  match printed : host.printToml next with
  | .error failure => exact unstored.rejects _
  | .ok text =>
  have committed : Committed host w₁.engine.state next
      (w₁.engine.state.commit next (host.sha256 text)) := ⟨valid, text, printed, rfl⟩
  have stores := commits _ committed
  -- the save, and then the stored state in memory
  have saved := unstored.toInside.advance.saves
    (.inr ⟨_, rfl, .inl (stores.mono (Nat.le_succ _))⟩) unstored.succeeds
  have stored := saved.setState (s := w₁.engine.state.commit next (host.sha256 text))
    (.of_eq rfl rfl) (.refl _)
  have member : World.moment ((w₁.advance host).withStore
        (w₁.engine.state.commit next (host.sha256 text))) (.saved true) ∈
      w.since (((w₁.advance host).withStore
        (w₁.engine.state.commit next (host.sha256 text))).log (.saved true)) := by
    rw [@World.since_log w ((w₁.advance host).withStore _)
      unstored.toInside.history.isPrefix]
    exact List.mem_append_right _ List.mem_cons_self
  have unanswered : Unanswered host request w
      ((((w₁.advance host).withStore
        (w₁.engine.state.commit next (host.sha256 text))).log (.saved true)).setState
          (w₁.engine.state.commit next (host.sha256 text)))
      (w.since (((w₁.advance host).withStore
        (w₁.engine.state.commit next (host.sha256 text))).log (.saved true))) :=
    .inr ⟨_, rfl, rfl, stores.mono (Nat.le_succ _), _, member, rfl, rfl⟩
  dsimp only
  split
  · split
    · have written := stored.advance.write unstored.unwritten text
        (stores.mono (Nat.le_add_right _ 2)) member rfl
      have done := written.log (show Event.cleared.still = true from rfl)
      exact {
        toInside := done.published
        committed := committed
        commits := stores.mono (Nat.le_add_right _ 2)
        stored := rfl
        unanswered := unanswered.later rfl rfl (Nat.le_succ _)
          ((List.prefix_append ..).trans (List.prefix_append ..)) }
    · split
      · exact (stored.advance.write unstored.unwritten text
          (stores.mono (Nat.le_add_right _ 2)) member rfl).rejects
            (unanswered.later rfl rfl (Nat.le_succ _)
            (List.prefix_append ..)) _
      · exact (stored.advance.log rfl).rejects (unanswered.failed _) _
  · exact (unstored.advance.log rfl).rejects _

/-- `save` in a handler that is about to answer. -/
theorem save_inside {w₁ : World} (inside : Inside host request w w₁)
    (unanswered : Unanswered host request w w₁ (w.since w₁))
    (response : Response) (accepts : Accepts host w.file w.asked w₁.asked w.engine.state
      request response w₁.engine.state) (mutating : request.mutating = true) :
    Meets host save w₁
      (fun _ w' => Answered host request w response w' ∧
        w'.engine.state = w₁.engine.state)
      (Stops host request w) := by
  rw [meets_save]
  split
  · have stored := inside.advance.saves
      (.inr ⟨_, rfl, .inr ⟨response, accepts.mono (Nat.le_succ _)⟩⟩) unanswered.succeeds
    exact ⟨⟨stored.published, accepts.mono (Nat.le_succ _), by rw [if_pos mutating]; rfl⟩,
      rfl⟩
  · have failed := inside.advance.log (show (Event.saved false).still = true from rfl)
    exact failed.rejects (unanswered.failed _) _

/-! ## Opening -/

/-- The beginning of a handler, where nothing has changed yet. -/
structure Opening (host : Host) (request : Request) (w w' : World) : Prop
    extends Unstored host request w w' where
  state : w'.engine.state = w.engine.state
  clean : request.changesConfig = true → Clean host w.file w.engine.state

theorem Opening.rejects {w₁ : World} (opening : Opening host request w w₁) (error : Error) :
    Stops host request w (.error error) w₁ :=
  opening.toUnstored.rejects error

theorem opening_meets (host : Host) (request : Request) (w : World) :
    Meets host (if request.changesConfig then cleanFile else pure ()) w
      (fun _ w' => Opening host request w w') (Stops host request w) := by
  have unstored := Unstored.refl host request w
  split
  · rw [meets_cleanFile]
    split
    · next text succeeds file =>
        have read := unstored.advance.log (show (Event.readConfig true).still = true from rfl)
        split
        · next same =>
            exact ⟨read, rfl, fun _ => ⟨text, file, beq_iff_eq.mp same⟩⟩
        · exact read.rejects _
    · have failed := unstored.advance.log
        (show (Event.readConfig false).still = true from rfl)
      exact failed.rejects _
  · next unchanged => exact ⟨unstored, rfl, fun changes => absurd changes unchanged⟩

/-- An index that is there in every indexed state. -/
theorem poolOf_inside {α : Type} {w₁ : World} (inside : Inside host request w w₁)
    (unanswered : Unanswered host request w w₁ (w.since w₁)) {name : String}
    {next : PoolState → EngineM α} {post : α → World → Prop}
    (present : w.engine.state.Indexed → ∃ p, w₁.engine.state.pools[name]? = some p)
    (rest : ∀ p, w₁.engine.state.pools[name]? = some p →
      Meets host (next p) w₁ post (Stops host request w)) :
    Meets host (poolOf name >>= next) w₁ post (Stops host request w) := by
  rw [meets_bind, meets_poolOf]
  split
  · next p found => exact rest p found
  · next missing =>
      refine ⟨inside, unanswered, fun _ indexed => ?_⟩
      obtain ⟨p, found⟩ := present indexed
      simp [missing] at found

/-! ## The handlers -/

theorem handleAdd_meets {w₁ : World} {pool : Pool}
    (opening : Opening host (.add pool) w w₁) :
    Meets host (handleAdd pool) w₁ (Answered host (.add pool) w)
      (Stops host (.add pool) w) := by
  refine meets_bind.mpr (meets_getState.mpr ?_)
  refine Meets.ensure_bind (fun _ => opening.rejects _) fun missing => ?_
  refine Meets.liftExcept_bind (fun error _ => opening.rejects error) fun _ valid => ?_
  refine meets_bind.mpr (meets_consult.mpr (meets_bind.mpr (meets_setState.mpr ?_)))
  rw [opening.state] at missing valid ⊢
  have unstored := opening.toUnstored.advance.setState
    (s := w.engine.state.setPool pool.name (.default (host.answers w₁.asked).uuid))
    (by rw [World.advance_engine, opening.state]; exact .of_eq rfl rfl)
    (by
      rw [World.advance_engine, opening.state]
      exact .insert (.inl ⟨_, opening.asked, Nat.lt_succ_self _, rfl, rfl⟩))
    (by rw [World.advance_engine, opening.state]; rfl)
  refine (commitConfig_inside unstored _ fun c committed => ?_).bind
    fun _ w' committed => ?_
  · exact .add (opening.clean rfl) opening.asked (Nat.lt_succ_self _)
      (by simpa using missing) committed
  · exact ⟨committed.toInside, .add committed.commits, committed.stored⟩

theorem targets_meets {w₁ : World} {pool : Option String} {all : Bool}
    (opening : Opening host request w w₁) :
    Meets host (targets pool all) w₁
      (fun names w' => w' = w₁ ∧ Targets w.engine.state pool all names)
      (Stops host request w) := by
  refine Meets.ensure_bind (fun _ => opening.rejects _) fun chosen => ?_
  match pool, all with
  | some pool, false =>
      refine meets_bind.mpr (meets_getState.mpr ?_)
      refine Meets.ensure_bind (fun _ => opening.rejects _) fun known => ?_
      rw [opening.state] at known
      obtain ⟨p, found⟩ := TreeMap.contains_iff.mp known
      exact ⟨rfl, .one found⟩
  | some pool, true => simp at chosen
  | none, false => simp at chosen
  | none, true =>
      refine meets_bind.mpr (meets_getState.mpr ?_)
      rw [opening.state]
      exact ⟨rfl, .all⟩

/-- A loop that updates the state of one target after the other. -/
theorem targets_loop {w₁ : World} {names : List String} {body : String → EngineM Unit}
    (update : State → String → State) (unstored : Unstored host request w w₁)
    (present : ∀ name ∈ names, ∃ p, w₁.engine.state.pools[name]? = some p)
    (keeps : ∀ (s : State) (target name : String), (∃ p, s.pools[name]? = some p) →
      ∃ p, (update s target).pools[name]? = some p)
    (step : ∀ name w', Unstored host request w w' →
      (∃ p, w'.engine.state.pools[name]? = some p) →
      Meets host (body name) w'
        (fun _ w'' => Unstored host request w w'' ∧
          w''.engine.state = update w'.engine.state name)
        (Stops host request w)) :
    Meets host (names.forM body) w₁
      (fun _ w' => Unstored host request w w' ∧
        w'.engine.state = names.foldl update w₁.engine.state)
      (Stops host request w) := by
  refine (Meets.forM
    (fun rest w' => Unstored host request w w' ∧
      (∀ name ∈ rest, ∃ p, w'.engine.state.pools[name]? = some p) ∧
      rest.foldl update w'.engine.state = names.foldl update w₁.engine.state)
    (fun name rest w' ⟨unstored, present, same⟩ => ?_) ⟨unstored, present, rfl⟩).mono
    (fun _ w' ⟨unstored, _, same⟩ => ⟨unstored, same⟩) fun _ _ stops => stops
  refine (step name w' unstored (present name List.mem_cons_self)).mono
    (fun _ w'' ⟨unstored, state⟩ => ⟨unstored, fun other member => ?_, ?_⟩)
    fun _ _ stops => stops
  · rw [state]
    exact keeps _ _ _ (present other (List.mem_cons_of_mem _ member))
  · rw [state]
    exact same

theorem handleStart_meets {w₁ : World} {pool : Option String} {all : Bool}
    (opening : Opening host (.start pool all) w w₁) :
    Meets host (handleStart pool all) w₁ (Answered host (.start pool all) w)
      (Stops host (.start pool all) w) := by
  refine (targets_meets opening).bind fun names w₁ named => ?_
  obtain ⟨same, targets⟩ := named
  subst same
  have alive : Meets host
      (names.forM fun n => do
        require (!(← poolOf n).deleting) "a target pool is being deleted") w₁
      (fun _ w' => w' = w₁ ∧ ∀ name ∈ names,
        ∃ p, w.engine.state.pools[name]? = some p ∧ p.deleting = false)
      (Stops host (.start pool all) w) := by
    refine (Meets.forM
      (fun rest w' => w' = w₁ ∧ (∀ name ∈ rest, name ∈ names) ∧ ∀ name ∈ names,
        name ∈ rest ∨ ∃ p, w.engine.state.pools[name]? = some p ∧ p.deleting = false)
      (fun name rest w' remains => ?_)
      ⟨rfl, fun _ member => member, fun _ member => .inl member⟩).mono
      (fun _ w' remains => ⟨remains.1, fun name member =>
        (remains.2.2 name member).resolve_left List.not_mem_nil⟩) fun _ _ stops => stops
    obtain ⟨equal, within, checked⟩ := remains
    subst equal
    have member := within name List.mem_cons_self
    refine poolOf_inside opening.toInside opening.unanswered
      (fun _ => opening.state ▸ targets.present member) fun p found => ?_
    rw [opening.state] at found
    rw [meets_require]
    split
    · next kept =>
        refine ⟨rfl, fun other later => within other (List.mem_cons_of_mem _ later),
          fun other inside => ?_⟩
        rcases checked other inside with later | done
        · rcases List.mem_cons.mp later with rfl | later
          · exact .inr ⟨p, found, by simpa using kept⟩
          · exact .inl later
        · exact .inr done
    · exact opening.rejects _
  refine alive.bind fun _ w' checked => ?_
  obtain ⟨equal, kept⟩ := checked
  subst equal
  refine (targets_loop State.start opening.toUnstored
    (fun name member => opening.state ▸ targets.present member)
    (fun s target name known => ?_) fun name w₂ unstored present => ?_).bind
    fun _ w₂ looped => ?_
  · obtain ⟨p, found⟩ := known
    rw [State.start_pool, found]
    exact ⟨_, rfl⟩
  · refine poolOf_inside unstored.toInside unstored.unanswered (fun _ => present)
      fun p found => ?_
    refine meets_bind.mpr (meets_getState.mpr (meets_setState.mpr
      ⟨unstored.setState (.of_eq rfl rfl) (.change found rfl (.inr ⟨rfl, rfl⟩)) rfl, ?_⟩))
    simp only [World.setState_state, State.start, found]
  · obtain ⟨unstored, state⟩ := looped
    rw [opening.state] at state
    refine meets_bind.mpr (meets_clearGithub.mpr ?_)
    have cleared := unstored.log (show Event.cleared.still = true from rfl)
    refine (save_inside cleared.toInside cleared.unanswered (.started names) ?_
      rfl).bind fun _ w' saves => saves.1
    rw [World.log_engine, state]
    exact .start targets kept

theorem handleStop_meets {w₁ : World} {pool : Option String} {all force : Bool}
    (opening : Opening host (.stop pool all force) w w₁) :
    Meets host (handleStop pool all force) w₁ (Answered host (.stop pool all force) w)
      (Stops host (.stop pool all force) w) := by
  refine (targets_meets opening).bind fun names w₁ named => ?_
  obtain ⟨same, targets⟩ := named
  subst same
  refine (targets_loop (State.stop force) opening.toUnstored
    (fun name member => opening.state ▸ targets.present member)
    (fun s target name known => ?_) fun name w₂ unstored present => ?_).bind
    fun _ w₂ looped => ?_
  · obtain ⟨p, found⟩ := known
    rw [State.stop_pool, found]
    exact ⟨_, rfl⟩
  · refine poolOf_inside unstored.toInside unstored.unanswered (fun _ => present)
      fun p found => ?_
    refine meets_bind.mpr (meets_getState.mpr (meets_setState.mpr
      ⟨unstored.setState (.stopping ..)
        (.change found rfl (PoolState.schedule_unless rfl rfl)) rfl, ?_⟩))
    simp only [World.setState_state, State.stop, found]
  · obtain ⟨unstored, state⟩ := looped
    rw [opening.state] at state
    have accepts (pending : Bool) : Accepts host w.file w.asked w₂.asked w.engine.state
        (.stop pool all force) (.stopped names pending force) w₂.engine.state :=
      state ▸ .stop targets
    let pending := names.any fun n =>
      w₂.engine.state.pools[n]?.any fun p => w₂.engine.state.hasRuns p.id
    refine (save_inside unstored.toInside unstored.unanswered _ (accepts pending) rfl).bind
      fun _ w' saves => ?_
    refine meets_bind.mpr (meets_getState.mpr ?_)
    rw [saves.2]
    exact saves.1

/-- `mark_retiring` after a commit. -/
theorem markRetiring_inside {α : Type} {w₁ : World} {s : State} {next : Config}
    {name : String} {rest : Unit → EngineM α} {post : α → World → Prop}
    (committed : CommittedIn host request w s next w₁)
    (present : ∃ p, w₁.engine.state.pools[name]? = some p)
    (marked : ∀ t, w₁.engine.state.markRetiring name = some t →
      Meets host (rest ()) (w₁.setState t) post (Stops host request w)) :
    Meets host (markRetiring name >>= rest) w₁ post (Stops host request w) := by
  rw [meets_bind, meets_markRetiring]
  split
  · next t found => exact marked t found
  · next missing =>
      refine ⟨committed.toInside, committed.unanswered, fun _ indexed => ?_⟩
      obtain ⟨p, found⟩ := present
      obtain ⟨t, found⟩ :=
        (committed.commits.indexed committed.asked indexed).markRetiring_isSome found
      simp [missing] at found

theorem handleScale_meets {w₁ : World} {pool : String} {replicas : Nat}
    (opening : Opening host (.scale pool replicas) w w₁) :
    Meets host (handleScale pool replicas) w₁ (Answered host (.scale pool replicas) w)
      (Stops host (.scale pool replicas) w) := by
  refine meets_bind.mpr (meets_getState.mpr ?_)
  rw [opening.state]
  refine Meets.context_bind (fun _ => opening.rejects _) fun entry known => ?_
  refine poolOf_inside opening.toInside opening.unanswered (fun indexed => ?_)
    fun p found => ?_
  · rw [opening.state]
    obtain ⟨member, rfl⟩ := Config.pool?_some known
    exact (indexed.entries _).mpr ⟨entry, member, rfl⟩
  rw [opening.state] at found
  refine Meets.ensure_bind (fun _ => opening.rejects _) fun kept => ?_
  refine (commitConfig_inside opening.toUnstored _ fun c committed => ?_).bind
    fun _ w₂ committed => ?_
  · rw [opening.state] at committed
    exact .scale (opening.clean rfl) known found (by simpa using kept) committed
  obtain ⟨_, text, _, state⟩ := committed.committed
  refine markRetiring_inside committed ?_ fun t marked => ?_
  · rw [state, opening.state]
    exact ⟨p, found⟩
  have drained := State.drained_of_markRetiring marked
  obtain ⟨inside, unanswered⟩ := committed.setState (.of_drained drained)
    (.of_eq drained.pools) drained.header
  refine (save_inside inside unanswered (.scaled pool replicas)
    (.scale committed.commits marked) rfl).bind fun _ w' ⟨answered, _⟩ => answered

theorem handleUpgrade_meets {w₁ : World} {pool image : String}
    (opening : Opening host (.upgrade pool image) w w₁) :
    Meets host (handleUpgrade pool image) w₁ (Answered host (.upgrade pool image) w)
      (Stops host (.upgrade pool image) w) := by
  refine meets_bind.mpr (meets_getState.mpr ?_)
  rw [opening.state]
  refine Meets.context_bind (fun _ => opening.rejects _) fun entry known => ?_
  have present (indexed : w.engine.state.Indexed) :
      ∃ p, w₁.engine.state.pools[pool]? = some p := by
    rw [opening.state]
    obtain ⟨member, rfl⟩ := Config.pool?_some known
    exact (indexed.entries _).mpr ⟨entry, member, rfl⟩
  refine poolOf_inside opening.toInside opening.unanswered present fun p found => ?_
  refine Meets.ensure_bind (fun _ => opening.rejects _) fun kept => ?_
  refine Meets.liftExcept_bind (fun error _ => opening.rejects error) fun _ valid => ?_
  refine poolOf_inside opening.toInside opening.unanswered present fun ps found' => ?_
  cases found.symm.trans found'
  rw [opening.state] at found
  refine meets_bind.mpr (meets_setState.mpr ?_)
  have unstored := opening.toUnstored.setState
    (s := w.engine.state.setPool pool { p with generation := p.generation + 1 })
    (by rw [opening.state]; exact .of_eq rfl rfl)
    (by rw [opening.state]; exact .change found rfl (.inl rfl)) (by rw [opening.state]; rfl)
  refine (commitConfig_inside unstored _ fun c committed => ?_).bind
    fun _ w₂ committed => ?_
  · exact .upgrade (opening.clean rfl) known found (by simpa using kept) committed
  obtain ⟨_, text, _, state⟩ := committed.committed
  refine markRetiring_inside committed ?_ fun t marked => ?_
  · rw [state]
    exact ⟨_, TreeMap.get_insert_self ..⟩
  have drained := State.drained_of_markRetiring marked
  obtain ⟨inside, unanswered⟩ := committed.setState (.of_drained drained)
    (.of_eq drained.pools) drained.header
  refine (save_inside inside unanswered (.upgrading pool)
    (.upgrade committed.commits marked) rfl).bind fun _ w' ⟨answered, _⟩ => answered

theorem handleRemove_meets {w₁ : World} {pool : String} {force : Bool}
    (opening : Opening host (.remove pool force) w w₁) :
    Meets host (handleRemove pool force) w₁ (Answered host (.remove pool force) w)
      (Stops host (.remove pool force) w) := by
  refine meets_bind.mpr (meets_getState.mpr ?_)
  rw [opening.state]
  refine Meets.context_bind (fun _ => opening.rejects _) fun p found => ?_
  refine meets_bind.mpr (meets_setState.mpr ?_)
  have unstored := opening.toUnstored.setState
    (s := (w.engine.state.setPool pool
      { p with
        running := false
        deleting := true
        retryAt := if force then 0 else p.retryAt }).retireRuns p.id force)
    (by rw [opening.state]; exact .stopping ..)
    (by rw [opening.state]; exact .change found rfl (PoolState.schedule_unless rfl rfl))
    (by rw [opening.state]; rfl)
  exact (save_inside unstored.toInside unstored.unanswered (.removing pool force)
    (.remove found) rfl).bind fun _ w' ⟨answered, _⟩ => answered

theorem handleAuth_meets {w₁ : World} {profile credential : String} {app : Option AppAuth}
    (opening : Opening host (.auth profile credential app) w w₁) :
    Meets host (handleAuth profile credential app) w₁
      (Answered host (.auth profile credential app) w)
      (Stops host (.auth profile credential app) w) := by
  refine Meets.ensure_bind (fun _ => opening.rejects _) fun valid => ?_
  refine meets_bind.mpr (meets_getState.mpr ?_)
  refine (commitConfig_inside opening.toUnstored _ fun c committed => ?_).bind
    fun _ w₂ committed => ?_
  · rw [opening.state] at committed
    exact .auth (opening.clean rfl) valid committed
  refine meets_bind.mpr (meets_getState.mpr (meets_bind.mpr (meets_setState.mpr ?_)))
  obtain ⟨inside, unanswered⟩ := committed.setState
      (t := w₂.engine.state.resetProfile profile)
    (.of_eq rfl rfl) (.resetProfile _ _) rfl
  exact (save_inside inside unanswered (.authenticated profile)
    (.auth committed.commits) rfl).bind fun _ w' ⟨answered, _⟩ => answered

theorem handleStatus_meets {w₁ : World} {pool : Option String}
    (opening : Opening host (.status pool) w w₁) :
    Meets host (handleStatus pool) w₁ (Answered host (.status pool) w)
      (Stops host (.status pool) w) := by
  have statuses (known : ∀ name, pool = some name →
        w.engine.state.pools.contains name = true) :
      Meets host (do
        let state ← getState
        let pools ← (state.config.pools.filter fun p => pool.all (· == p.name)).mapM
          fun p => do
            let ps ← poolOf p.name
            return poolStatus p ps (state.runsOf ps.id)
        return .status state.revision pools) w₁ (Answered host (.status pool) w)
      (Stops host (.status pool) w) := by
    refine meets_bind.mpr (meets_getState.mpr ?_)
    rw [opening.state]
    refine (Meets.mapM (· = w₁) (fun entry member w' same => ?_) rfl).bind
      fun pools w' same => ?_
    · subst same
      refine poolOf_inside opening.toInside opening.unanswered (fun indexed => ?_)
        fun p found => rfl
      rw [opening.state]
      exact (indexed.entries _).mpr ⟨entry, (List.mem_filter.mp member).1, rfl⟩
    · subst same
      refine ⟨opening.toInside, ?_, opening.kept⟩
      rw [opening.state]
      exact .status known
  cases pool with
  | none => exact statuses (by simp)
  | some name =>
      refine meets_bind.mpr (meets_getState.mpr ?_)
      rw [opening.state]
      refine Meets.ensure_bind (fun _ => opening.rejects _) fun known => ?_
      exact statuses fun other equal => Option.some.inj equal ▸ known

/-- One turn of the loop of `Apply` over the pools of the new configuration. -/
theorem applyPool_meets {w₁ : World} {new : Pool} {pools : ExtTreeMap String PoolState}
    (unstored : Unstored host request w w₁)
    (present : w.engine.state.Indexed →
      (∃ old, w.engine.state.config.pool? new.name = some old) →
        ∃ p, pools[new.name]? = some p) :
    Meets host (applyPool w.engine.state pools new) w₁
      (fun pools₁ w₂ => Unstored host request w w₂ ∧
        w₂.engine.state = w₁.engine.state ∧
        (∀ name : String, (∃ p, pools[name]? = some p) → ∃ p, pools₁[name]? = some p) ∧
        ∀ rest m pools', Applies host w.engine.state w₂.asked pools₁ rest m pools' →
          Applies host w.engine.state w₁.asked pools (new :: rest) m pools')
      (Stops host request w) := by
  have inserted (p : PoolState) (name : String) (known : ∃ q, pools[name]? = some q) :
      ∃ q, (pools.insert new.name p)[name]? = some q := by
    rw [TreeMap.get_insert]
    split
    · exact ⟨p, rfl⟩
    · exact known
  unfold applyPool
  match known : w.engine.state.config.pool? new.name with
  | none =>
      refine meets_bind.mpr (meets_consult.mpr ?_)
      exact ⟨unstored.advance, rfl, inserted _, fun rest m pools' applies =>
        .add known applies⟩
  | some old =>
      refine meets_bind.mpr (meets_unwrap.mpr ?_)
      match found : pools[new.name]? with
      | none =>
          refine ⟨unstored.toInside, unstored.unanswered, fun _ indexed => ?_⟩
          obtain ⟨p, there⟩ := present indexed ⟨old, known⟩
          simp [found] at there
      | some p =>
          refine Meets.ensure_bind (fun _ => unstored.rejects _)
            fun kept => ?_
          have edited (scope : old.apiScope = new.apiScope ∧ old.auth = new.auth ∨
                p.running = false ∧ w.engine.state.hasRuns p.id = false) :
              Meets host
                (if old.sameRunner new then
                  (return pools : EngineM (ExtTreeMap String PoolState))
                else
                  return pools.insert new.name
                    { p with generation := p.generation + 1 }) w₁
                (fun pools₁ w₂ => Unstored host request w w₂ ∧
                  w₂.engine.state = w₁.engine.state ∧
                  (∀ name : String, (∃ p, pools[name]? = some p) →
                    ∃ p, pools₁[name]? = some p) ∧
                  ∀ rest m pools',
                    Applies host w.engine.state w₂.asked pools₁ rest m pools' →
                    Applies host w.engine.state w₁.asked pools (new :: rest) m pools')
                (Stops host request w) := by
            have edit (rest : List Pool) (m : Nat) (pools' : ExtTreeMap String PoolState) :=
              @Applies.edit host w.engine.state w₁.asked m pools pools' new old p rest known
                found (by simpa using kept) scope
            split
            · next same =>
                rw [if_pos same] at edit
                exact ⟨unstored, rfl, fun _ known => known, edit⟩
            · next differs =>
                rw [if_neg differs] at edit
                exact ⟨unstored, rfl, inserted _, edit⟩
          by_cases moved : (old.apiScope != new.apiScope || old.auth != new.auth) = true
          · rw [if_pos moved]
            refine Meets.ensure_bind (fun _ => unstored.rejects _)
              fun free => edited (.inr ?_)
            simpa using free
          · rw [if_neg moved]
            exact edited (.inl (by simpa using moved))

theorem applyPools_meets {w₁ : World} {list : List Pool}
    {pools : ExtTreeMap String PoolState} (unstored : Unstored host request w w₁)
    (present : w.engine.state.Indexed → ∀ new ∈ list,
      (∃ old, w.engine.state.config.pool? new.name = some old) →
        ∃ p, pools[new.name]? = some p) :
    Meets host (list.foldlM (applyPool w.engine.state) pools) w₁
      (fun pools' w' => Unstored host request w w' ∧
        w'.engine.state = w₁.engine.state ∧
        Applies host w.engine.state w₁.asked pools list w'.asked pools')
      (Stops host request w) := by
  induction list generalizing w₁ pools with
  | nil => exact ⟨unstored, rfl, .done⟩
  | cons new rest inductionHypothesis =>
      rw [List.foldlM_cons]
      refine (applyPool_meets unstored fun indexed =>
        present indexed new List.mem_cons_self).bind
          fun pools₁ w₂ ⟨unstored, same, keeps, applies⟩ => ?_
      refine (inductionHypothesis unstored fun indexed other member known =>
        keeps _ (present indexed other (List.mem_cons_of_mem _ member) known)).mono
          (fun pools' w' ⟨unstored, state, others⟩ => ?_) fun _ _ stops => stops
      exact ⟨unstored, state.trans same, applies rest _ pools' others⟩

/-- The loop of `Apply` that marks the excess runs of all pools. -/
theorem markRetirings_meets {w₁ : World} {names : List String}
    (present : w.engine.state.Indexed → w₁.engine.state.Indexed ∧
      ∀ name ∈ names, ∃ p, w₁.engine.state.pools[name]? = some p)
    (inside : Inside host request w w₁)
    (unanswered : Unanswered host request w w₁ (w.since w₁)) :
    Meets host (names.forM markRetiring) w₁
      (fun _ w' => ∃ t, w' = w₁.setState t ∧
        names.foldlM State.markRetiring w₁.engine.state = some t)
      (Stops host request w) := by
  induction names generalizing w₁ with
  | nil => exact ⟨w₁.engine.state, rfl, rfl⟩
  | cons name rest inductionHypothesis =>
      refine meets_bind.mpr (meets_markRetiring.mpr ?_)
      split
      · next s marked =>
          have drained := State.drained_of_markRetiring marked
          refine (inductionHypothesis (fun indexed => ?_)
            (inside.setState (.of_drained drained) (.of_eq drained.pools))
            (unanswered.later rfl drained.header le_rfl (List.prefix_refl _))).mono
              (fun _ w' ⟨t, same, marked'⟩ => ⟨t, same, ?_⟩) fun _ _ stops => stops
          · obtain ⟨indexed, known⟩ := present indexed
            refine ⟨indexed.drained drained, fun other member => ?_⟩
            rw [World.setState_state, drained.pools]
            exact known other (List.mem_cons_of_mem _ member)
          · rw [List.foldlM_cons, marked]
            exact marked'
      · next missing =>
          refine ⟨inside, unanswered, fun _ indexed => ?_⟩
          obtain ⟨indexed, known⟩ := present indexed
          obtain ⟨p, found⟩ := known name List.mem_cons_self
          obtain ⟨t, marked⟩ := indexed.markRetiring_isSome found
          simp [missing] at marked

theorem handleApply_meets {w₁ : World} {text : String} {revision : Nat}
    (opening : Opening host (.apply text revision) w w₁) :
    Meets host (handleApply text revision) w₁ (Answered host (.apply text revision) w)
      (Stops host (.apply text revision) w) := by
  refine meets_bind.mpr (meets_getState.mpr ?_)
  rw [opening.state]
  refine Meets.ensure_bind (fun _ => opening.rejects _) fun current => ?_
  cases beq_iff_eq.mp current
  refine meets_bind.mpr (meets_readConfig.mpr ?_)
  have read (ok : Bool) := opening.toUnstored.advance.log
    (show (Event.readConfig ok).still = true from rfl)
  split
  case h_2 => exact (read false).rejects _
  next content succeeds file =>
  replace read := read true
  rw [opening.unwritten] at file
  refine Meets.ensure_bind (fun _ => read.rejects _) fun same => ?_
  cases beq_iff_eq.mp same
  refine meets_bind.mpr (meets_parseConfig.mpr ?_)
  cases parsed : host.parseToml text with
  | none => exact read.rejects _
  | some next =>
  dsimp only
  cases valid : next.validate with
  | error error => exact read.rejects error
  | ok _ =>
  refine Meets.ensure_bind (fun _ => read.rejects _) fun all => ?_
  refine (applyPools_meets read fun indexed new member known => ?_).bind
    fun pools w₂ applied => ?_
  · obtain ⟨old, known⟩ := known
    obtain ⟨member, equal⟩ := Config.pool?_some known
    exact (indexed.entries _).mpr ⟨old, member, equal⟩
  obtain ⟨unstored, state, applies⟩ := applied
  refine Meets.ensure_bind (fun _ => unstored.rejects _) fun profiles => ?_
  refine meets_bind.mpr (meets_setState.mpr ?_)
  have unstored' := unstored.setState (s := { w.engine.state with pools })
    (by rw [state, World.log_engine, World.advance_engine, opening.state]; exact .of_eq rfl rfl)
    (by
      rw [state, World.log_engine, World.advance_engine, opening.state]
      exact (applies.punctual (Nat.le_succ_of_le opening.asked)).2)
    (by rw [state, World.log_engine, World.advance_engine, opening.state]; rfl)
  refine (commitConfig_inside unstored' next fun c committed => ?_).bind
    fun _ w₃ committed => ?_
  · exact .apply file parsed (by simpa using all) (Nat.le_succ_of_le opening.asked) le_rfl
      applies (by simpa using profiles) committed
  refine meets_bind.mpr (meets_getState.mpr ?_)
  refine (markRetirings_meets (fun indexed =>
    ⟨committed.commits.indexed committed.asked indexed, fun name => TreeMap.mem_keys.mp⟩)
    committed.toInside committed.unanswered).bind fun _ w₄ ends => ?_
  obtain ⟨t, same, marked⟩ := ends
  subst same
  have drained := State.foldlM_markRetiring_drained marked
  obtain ⟨inside, unanswered⟩ := committed.setState (.of_drained drained)
    (.of_eq drained.pools) drained.header
  refine (save_inside inside unanswered (.applied t.revision)
    (.apply committed.commits marked) rfl).bind fun _ w' saves => ?_
  refine meets_bind.mpr (meets_getState.mpr ?_)
  rw [saves.2]
  exact saves.1

/-- `handle_inner` meets its specification. -/
theorem handleInner_meets (host : Host) (request : Request) (w : World) :
    Meets host (handleInner request) w (Answered host request w) (Stops host request w) := by
  unfold handleInner
  refine Meets.when_bind (opening_meets host request w) fun _ w₁ opening => ?_
  match request with
  | .status pool => exact handleStatus_meets opening
  | .add pool => exact handleAdd_meets opening
  | .start pool all => exact handleStart_meets opening
  | .stop pool all force => exact handleStop_meets opening
  | .scale pool replicas => exact handleScale_meets opening
  | .upgrade pool image => exact handleUpgrade_meets opening
  | .remove pool force => exact handleRemove_meets opening
  | .auth profile credential app => exact handleAuth_meets opening
  | .apply text revision => exact handleApply_meets opening
  | .logs pool id => exact opening.rejects _
  | .doctor => exact opening.rejects _

end Inside

end Runnerctl
