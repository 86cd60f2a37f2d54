import Runnerctl.Metatheory.Scripts

/-!
# Revisions

Every committed configuration has a number, and nothing that can fail or race between
the requests, the deletions of a pass and a restart takes a number back or uses it
twice.
-/

namespace Runnerctl

open Std Program Journal

/-- The requests that commit a configuration when they are accepted. -/
def Request.commits : Request → Bool
  | .apply _ _ => true
  | request => request.changesConfig

/-- Revisions do not decrease, and each has one configuration. -/
def Follows (before after : Option State) : Prop :=
  ∀ s, before = some s → ∃ t, after = some t ∧ s.revision ≤ t.revision ∧
    (s.revision = t.revision → t.config = s.config)

namespace Follows

theorem refl (store : Option State) : Follows store store :=
  fun s stored => ⟨s, stored, le_rfl, fun _ => rfl⟩

theorem trans {first second third : Option State} (left : Follows first second)
    (right : Follows second third) : Follows first third := by
  intro s stored
  obtain ⟨t, stored, le, same⟩ := left s stored
  obtain ⟨u, stored, le', same'⟩ := right t stored
  refine ⟨u, stored, le.trans le', fun equal => ?_⟩
  exact (same' (by omega)).trans (same (by omega))

theorem of_succeeds {before after : Option State} (succeeds : Succeeds before after) :
    Follows before after := by
  intro s stored
  obtain ⟨t, stored, same | next⟩ := succeeds s stored
  · exact ⟨t, stored, (congrArg Header.revision same).ge,
      fun _ => congrArg Header.config same⟩
  · exact ⟨t, stored, by omega, fun equal => by omega⟩

end Follows

/-! ## What the history records -/

/-- How a request that found `before` in memory changed the stored state from `s` to
`t`. -/
structure Renumbers (request : Request) (before : State) (result : Except Error Response)
    (s t : State) : Prop where
  backed : s.header = before.header
  next : t.header = s.header ∨ t.revision = s.revision + 1 ∧ request.commits = true ∧
    ∀ text revision, request = .apply text revision → before.revision = revision
  accepted : ∀ response, result = .ok response →
    if request.commits then t.revision = s.revision + 1 else t.header = s.header
  status : ∀ revision pools, result = .ok (.status revision pools) → revision = before.revision

/-- An answer comes after the arrival of its request and what it did. -/
def AnsweredAt (first : List Moment) (m : Moment) : Prop :=
  ∀ polled request before result, m.event = .handled polled request before result →
    ∃ earlier arrival inner s t, first = earlier ++ arrival :: inner ∧
      arrival.event = .received request ∧ (∀ x ∈ inner, x.event.between = true) ∧
      arrival.store = some s ∧ m.store = some t ∧ Renumbers request before result s t

/-- What is saved right after a deletion began is the configuration without the pool. -/
def FinalisedAt (first : List Moment) (m : Moment) : Prop :=
  m.event = .saved true → ∀ earlier decision name, first = earlier ++ [decision] →
    decision.event = .finalising name →
    ∃ s t, decision.store = some s ∧ m.store = some t ∧ t.revision = s.revision + 1 ∧
      t.config = s.config.without name

/-- The stored revisions are in order. -/
structure Numbered (history : List Moment) (store : Option State) : Prop where
  chained : Chained Succeeds Moment.store none history
  final : final Moment.store none history = store
  answered : Recorded AnsweredAt history
  finalised : Recorded FinalisedAt history

section Numbered

variable {host : Host} {w w' : World} {history : List Moment} {store : Option State}

theorem Numbered.concat (numbered : Numbered history store) {m : Moment}
    (succeeds : Succeeds store m.store) (answered : AnsweredAt history m)
    (finalised : FinalisedAt history m) : Numbered (history ++ [m]) m.store where
  chained := chained_concat.mpr ⟨numbered.chained, numbered.final.symm ▸ succeeds⟩
  final := final_concat
  answered := recorded_concat.mpr ⟨numbered.answered, answered⟩
  finalised := recorded_concat.mpr ⟨numbered.finalised, finalised⟩

/-- Events that neither answer a request nor save. -/
def Event.passing : Event → Bool
  | .handled _ _ _ _ | .saved true => false
  | _ => true

theorem passing_answered {first : List Moment} {m : Moment} (passing : m.event.passing = true) :
    AnsweredAt first m := by
  intro polled request before result event
  simp [event, Event.passing] at passing

theorem passing_finalised {first : List Moment} {m : Moment}
    (passing : m.event.passing = true) : FinalisedAt first m := by
  intro event
  simp [event, Event.passing] at passing

/-- A moment that leaves the store alone. -/
theorem Numbered.log (numbered : Numbered history store) {m : Moment}
    (passing : m.event.passing = true) (kept : m.store = store) :
    Numbered (history ++ [m]) store := by
  subst kept
  exact numbered.concat (.refl _) (passing_answered passing) (passing_finalised passing)

/-- The handling of a request, up to any of its moments. -/
theorem Numbered.handling (numbered : Numbered w.history w.store) (backed : HeaderBacked w)
    {request : Request} {n : Nat} {new : List Moment}
    (handling : Handling host request w n new store) : Numbered (w.history ++ new) store := by
  obtain ⟨chained, last⟩ := handling.ordered backed
  obtain ⟨inner, rfl, between⟩ := handling.arrived
  -- no moment is an answer, and none comes right after the decision to delete
  have events : ∀ m ∈ w.moment (.received request) :: inner,
      (∀ name, m.event ≠ .finalising name) ∧
        ∀ polled request before result, m.event ≠ .handled polled request before result := by
    have received : (∀ name, Event.received request ≠ .finalising name) ∧
        ∀ polled other before result,
          Event.received request ≠ .handled polled other before result :=
      ⟨fun _ event => (by cases event), fun _ _ _ _ event => (by cases event)⟩
    refine List.forall_mem_cons.mpr ⟨received, fun m member => ?_⟩
    have inside := between m member
    constructor <;> intros <;> intro event <;> simp [event, Event.between, Event.inner] at inside
  rw [← numbered.final] at chained last
  refine ⟨chained_append.mpr ⟨numbered.chained, chained⟩, final_append.trans last,
    recorded_append.mpr ⟨numbered.answered, ?_⟩,
      recorded_append.mpr ⟨numbered.finalised, ?_⟩⟩
  · intro first m rest split polled request' before result event
    exact absurd event ((events m (split ▸ by simp)).2 _ _ _ _)
  · intro first m rest split saved earlier decision name before event
    cases first using List.reverseRecOn with
    | nil =>
        obtain ⟨rfl, -⟩ := List.cons.inj split
        cases saved
    | append_singleton first last =>
        rw [← List.append_assoc] at before
        obtain ⟨-, rfl⟩ := List.append_singleton_inj.mp before
        exact absurd event ((events last (split ▸ by simp)).1 name)

theorem Commits.commits {file : Option String} {lo hi : Nat} {s c : State} {request : Request}
    (commits : Commits host file lo hi s request c) : request.commits = true := by
  cases commits <;> rfl

/-- An accepted request changes the header if it commits a configuration. -/
theorem Accepts.renumbers {file : Option String} {lo hi : Nat} {s t : State}
    {request : Request} {response : Response}
    (accepts : Accepts host file lo hi s request response t) :
    if request.commits then t.revision = s.revision + 1 else t.header = s.header := by
  cases accepts with
  | status _ => rfl
  | add commits => exact commits.revision
  | start _ _ => exact State.foldl_header State.start_header _ s
  | stop _ => exact State.foldl_header (State.stop_header _) _ s
  | scale commits marked =>
      exact (congrArg Header.revision (State.drained_of_markRetiring marked).header).trans
        commits.revision
  | upgrade commits marked =>
      exact (congrArg Header.revision (State.drained_of_markRetiring marked).header).trans
        commits.revision
  | remove _ => rfl
  | auth commits => exact commits.revision
  | apply commits marked =>
      exact (congrArg Header.revision (State.foldlM_markRetiring_drained marked).header).trans
        commits.revision

/-- A status tells the revision that was found. -/
theorem Accepts.status_revision {file : Option String} {lo hi : Nat} {s t : State}
    {request : Request} {response : Response}
    (accepts : Accepts host file lo hi s request response t) (revision : Nat)
    (pools : List PoolStatus)
    (answer : (.ok response : Except Error Response) = .ok (.status revision pools)) :
    revision = s.revision := by
  cases accepts <;> cases answer
  rfl

theorem Commits.numbered {file : Option String} {lo hi : Nat} {s c : State}
    {request : Request} (commits : Commits host file lo hi s request c) :
    c.revision = s.revision + 1 ∧ request.commits = true ∧
      ∀ text revision, request = .apply text revision → s.revision = revision := by
  refine ⟨commits.revision, commits.commits, ?_⟩
  rintro text revision rfl
  cases commits
  rfl

theorem Served.renumbers {polled : Bool} {request : Request}
    (served : Served host polled request w w') (backed : HeaderBacked w) :
    ∃ inner result s t, w'.history = w.history ++ w.moment (.received request) :: inner ++
        [w'.moment (.handled polled request w.engine.state result)] ∧
      (∀ m ∈ inner, m.event.between = true) ∧ w.store = some s ∧ w'.store = some t ∧
      Renumbers request w.engine.state result s t := by
  obtain ⟨inner, result, history, between, outcome⟩ := served.outcome
  obtain ⟨s, stored, same⟩ := backed
  have revision : s.revision = w.engine.state.revision := congrArg Header.revision same
  -- a commit that was stored, whatever was answered
  have committed {c : State} {error : Error}
      (commits : Commits host w.file w.asked w'.asked w.engine.state request c) :
      Renumbers request w.engine.state (.error error) s c := by
    obtain ⟨next, kind, apply⟩ := commits.numbered
    exact ⟨same, .inr ⟨next.trans (congrArg (· + 1) revision.symm), kind, apply⟩,
      nofun, nofun⟩
  have kept {error : Error} : Renumbers request w.engine.state (.error error) s s :=
    ⟨same, .inl rfl, nofun, nofun⟩
  refine ⟨inner, result, s, ?_⟩
  cases outcome with
  | accepted accepts saved _ _ =>
      have change := accepts.renumbers
      have status := accepts.status_revision
      cases mutating : request.mutating with
      | false =>
          have unchanged := accepts.readonly mutating
          rw [mutating, if_neg Bool.false_ne_true] at saved
          refine ⟨s, history, between, stored, saved.trans stored, same, .inl rfl, ?_, status⟩
          cases request <;> first | exact fun _ _ => rfl | simp [Request.mutating] at mutating
      | true =>
          rw [mutating, if_pos rfl] at saved
          refine ⟨_, history, between, stored, saved, same, ?_, fun _ _ => ?_, status⟩
          · rcases accepts.header with unchanged | ⟨c, commits, changed⟩
            · exact .inl (unchanged.trans same.symm)
            · obtain ⟨next, kind, apply⟩ := commits.numbered
              exact .inr ⟨(congrArg Header.revision changed).trans
                (next.trans (congrArg (· + 1) revision.symm)), kind, apply⟩
          · cases commits : request.commits with
            | true =>
                rw [commits, if_pos rfl] at change
                exact change.trans (congrArg (· + 1) revision.symm)
            | false =>
                rw [commits, if_neg Bool.false_ne_true] at change
                exact change.trans same.symm
  | rejected holds origin _ _ =>
      rcases origin with unchanged | ⟨commits, -⟩
      · exact ⟨s, history, between, stored, unchanged.trans stored, kept⟩
      · exact ⟨_, history, between, stored, holds, committed commits⟩
  | unread _ _ _ unanswered _ =>
      rcases unanswered with ⟨unchanged, -⟩ | ⟨c, holds, -, commits, -⟩
      · exact ⟨s, history, between, stored, unchanged.trans stored, kept⟩
      · exact ⟨c, history, between, stored, holds, committed commits⟩

theorem Numbered.served {polled : Bool} {request : Request}
    (numbered : Numbered w.history w.store) (backed : HeaderBacked w)
    (served : Served host polled request w w') : Numbered w'.history w'.store := by
  obtain ⟨w₁, result, pending, rfl⟩ := served.pending
  obtain ⟨new, continues, handling⟩ := pending.handling
  have before := numbered.handling backed handling
  rw [← continues] at before
  refine before.concat (m := w₁.moment _) (.refl _) ?_ nofun
  obtain ⟨inner, result', s, t, history, between, stored, holds, renumbers⟩ :=
    served.renumbers backed
  obtain ⟨arrived, event⟩ := List.append_singleton_inj.mp history
  intro polled' request' before' result'' handled
  cases congrArg Moment.event event
  cases handled
  exact ⟨w.history, _, inner, s, t, arrived, rfl, between, stored, holds, renumbers⟩

/-- Memory has the stored header throughout a tick. -/
theorem HeaderBacked.step (backed : HeaderBacked w) (step : Step host w w') :
    HeaderBacked w' := by
  have kept (store : w'.store = w.store)
      (header : w'.engine.state.header = w.engine.state.header) : HeaderBacked w' := by
    obtain ⟨t, stored, same⟩ := backed
    exact ⟨t, store.trans stored, same.trans header.symm⟩
  cases step with
  | silent state store => exact kept store (by rw [state])
  | serve ready served =>
      obtain ⟨t, stored, backs⟩ := (served.ready ready).stored
      exact ⟨t, stored, backs.header⟩
  | drain _ drained => exact kept rfl drained.header
  | save | commit => exact ⟨_, rfl, rfl⟩
  | enter | leave | log | edit | begin | observe | forget | note | fail | drop
  | record | delete | write => exact kept rfl rfl

/-- Every step keeps the stored revisions in order. -/
theorem Numbered.step (numbered : Numbered w.history w.store) (backed : HeaderBacked w)
    (step : Step host w w') : Numbered w'.history w'.store := by
  cases step with
  | silent _ store _ history => rwa [history, store]
  | leave | observe | forget | drain | note => exact numbered
  | serve _ served => exact numbered.served backed served
  | log plain =>
      refine numbered.log ?_ rfl
      rename_i event
      cases event with
      | saved ok => cases ok <;> first | rfl | exact plain
      | _ => first | rfl | exact plain
  | enter | edit | begin | fail | drop | record | delete | write =>
      exact numbered.log rfl rfl
  | save savable whole =>
      obtain ⟨t, stored, same⟩ := backed
      refine numbered.concat (m := World.moment (w.withStore w.engine.state) (.saved true))
        (fun s found => ?_) (fun _ _ _ _ event => by cases event)
        fun _ earlier decision name before event => ?_
      · cases stored.symm.trans found
        exact ⟨_, rfl, .inl same.symm⟩
      · rw [before, currentPass_concat (by simp [Moment.starts, event]), halfDeleted_concat,
          event] at whole
        cases whole
  | @commit name c _ _ announced committed _ =>
      obtain ⟨t, stored, same⟩ := backed
      have revision : c.revision = t.revision + 1 := by
        obtain ⟨_, digest, -, rfl⟩ := committed
        exact congrArg (· + 1) (congrArg Header.revision same).symm
      have config : c.config = t.config.without name := by
        obtain ⟨_, digest, -, rfl⟩ := committed
        exact congrArg (Config.without · name) (congrArg Header.config same).symm
      refine numbered.concat (m := World.moment (w.withStore c) (.saved true))
        (fun s found => ?_) (fun _ _ _ _ event => by cases event)
        fun _ earlier decision name' before event => ?_
      · cases stored.symm.trans found
        exact ⟨c, rfl, .inr revision⟩
      · obtain ⟨earlier', decision', before', event'⟩ := announced
        obtain ⟨rfl, rfl⟩ := List.append_singleton_inj.mp (before'.symm.trans before)
        cases event.symm.trans event'
        have last := numbered.final
        rw [before, final_concat] at last
        exact ⟨t, c, last.trans stored, rfl, revision, config⟩

/-- The stored revisions stay in order over every execution. -/
theorem numbered_invariant (host : Host) :
    Invariant host (fun w => HeaderBacked w ∧ Numbered w.history w.store)
      (fun _ history store => Numbered history store) where
  start {text after} installed := by
    obtain ⟨read, saved, history, first, unstored, -, second, stored, -⟩ := installed.history
    refine ⟨⟨_, installed.store, rfl⟩, ?_⟩
    have empty : Numbered [] none := ⟨trivial, rfl, recorded_nil, recorded_nil⟩
    have looked : Numbered ([] ++ [read]) read.store :=
      unstored.symm ▸ empty.log (by rw [first]; rfl) unstored
    have kept : Numbered ([] ++ [read] ++ [saved]) saved.store := by
      refine looked.concat (fun s found => nomatch unstored.symm.trans found)
        (fun _ _ _ _ event => nomatch second.symm.trans event)
        fun _ earlier decision name before event => ?_
      obtain ⟨-, rfl⟩ := List.append_singleton_inj.mp before
      exact nomatch first.symm.trans event
    rw [history]
    exact stored ▸ kept.log rfl stored.symm
  step holds step := ⟨holds.1.step step, holds.2.step holds.1 step⟩
  survives holds := holds.2
  served holds _ handling := holds.2.handling holds.1 handling
  mono numbered _ := numbered
  reopen {w t} effect numbered stored := by
    refine ⟨⟨t, stored, rfl⟩, ?_⟩
    have crashed : Numbered (w.history ++ [w.moment (.crashed effect)]) w.store :=
      numbered.log rfl rfl
    exact crashed.log rfl rfl

/-! ## Optimistic concurrency -/

/-- What the revisions in a history tell. -/
structure Disciplined (history : List Moment) : Prop where
  /-- From moment to moment the stored configuration stays, or has the next revision. -/
  steps : ∀ {first m m' rest s}, history = first ++ m :: m' :: rest → m.store = some s →
    ∃ t, m'.store = some t ∧ (t.header = s.header ∨ t.revision = s.revision + 1)
  ordered : ∀ {first m rest m' s t}, history = first ++ m :: rest → m' ∈ rest →
    m.store = some s → m'.store = some t →
      s.revision ≤ t.revision ∧ (s.revision = t.revision → t.config = s.config)
  /-- An accepted request commits exactly one configuration, or none. -/
  accepted : ∀ {first m rest polled request before response}, history = first ++ m :: rest →
    m.event = .handled polled request before (.ok response) →
      ∃ t, m.store = some t ∧
        if request.commits then t.revision = before.revision + 1 else t.header = before.header
  /-- So does the deletion of a pool. -/
  finalised : ∀ {first m m' rest name}, history = first ++ m :: m' :: rest →
    m.event = .finalising name → m'.event = .saved true →
      ∃ s t, m.store = some s ∧ m'.store = some t ∧ t.revision = s.revision + 1 ∧
        t.config = s.config.without name
  /-- An accepted `Apply` names the revision it found. -/
  applied : ∀ {first m rest polled text revision before response},
    history = first ++ m :: rest →
    m.event = .handled polled (.apply text revision) before (.ok response) →
      before.revision = revision
  /-- The configuration that a request found is the only one ever stored with its
  revision, and the one that a client saw with this revision. -/
  stored : ∀ {first m rest polled request before result}, history = first ++ m :: rest →
    m.event = .handled polled request before result → ∀ m' ∈ history, ∀ t,
      m'.store = some t → t.revision = before.revision → t.config = before.config
  seen : ∀ {first m rest polled request before result}, history = first ++ m :: rest →
    m.event = .handled polled request before result →
    ∀ m' ∈ history, ∀ polled' pool before' pools,
      m'.event = .handled polled' (.status pool) before' (.ok (.status before.revision pools)) →
        before'.config = before.config
  /-- Of two `Apply` requests with one revision at most one commits. -/
  single : ∀ {first m middle m' rest polled text revision before result polled' text' before'
      result'}, history = first ++ m :: (middle ++ m' :: rest) →
    m.event = .handled polled (.apply text revision) before result →
    m'.event = .handled polled' (.apply text' revision) before' result' →
      (∃ t, m.store = some t ∧ t.header = before.header) ∨
        ∃ t, m'.store = some t ∧ t.header = before'.header

namespace Numbered

/-- What is stored at a moment, and at a later one. -/
theorem ordered (numbered : Numbered history store) {first rest : List Moment} {m m' : Moment}
    (split : history = first ++ m :: rest) (member : m' ∈ rest) :
    Follows m.store m'.store := by
  obtain ⟨middle, rest, rfl⟩ := List.append_of_mem member
  have chained := (split ▸ numbered.chained).between
  have ends := chained.ends Follows.refl Follows.trans Follows.of_succeeds
  rwa [final_concat] at ends

/-- Two moments with stored states of one revision. -/
theorem same (numbered : Numbered history store) {m m' : Moment} (member : m ∈ history)
    (member' : m' ∈ history) {s t : State} (stored : m.store = some s)
    (stored' : m'.store = some t) (equal : s.revision = t.revision) : s.config = t.config := by
  obtain ⟨first, rest, split⟩ := List.append_of_mem member
  rw [split, List.mem_append, List.mem_cons] at member'
  rcases member' with earlier | rfl | later
  · obtain ⟨before, middle, rfl⟩ := List.append_of_mem earlier
    have later : m ∈ middle ++ m :: rest := by simp
    obtain ⟨t', found, -, config⟩ :=
      numbered.ordered (split.trans (List.append_assoc ..)) later t stored'
    cases stored.symm.trans found
    exact config equal.symm
  · cases stored.symm.trans stored'
    rfl
  · obtain ⟨t', found, -, config⟩ := numbered.ordered split later s stored
    cases stored'.symm.trans found
    exact (config equal).symm

theorem disciplined (numbered : Numbered history store) : Disciplined history where
  steps {first m m' rest s} split stored := by
    have chained : Chained Succeeds Moment.store m.store ([] ++ [m']) :=
      Chained.between (split ▸ numbered.chained)
    exact chained.1 s stored
  ordered split member stored stored' := by
    obtain ⟨t, found, le, config⟩ := numbered.ordered split member _ stored
    cases stored'.symm.trans found
    exact ⟨le, config⟩
  accepted {first m rest polled request before response} split event := by
    obtain ⟨_, _, _, s, t, -, -, -, -, stored, renumbers⟩ :=
      numbered.answered _ _ _ split _ _ _ _ event
    refine ⟨t, stored, ?_⟩
    have accepted := renumbers.accepted _ rfl
    have revision : s.revision = before.revision := congrArg Header.revision renumbers.backed
    rwa [revision, renumbers.backed] at accepted
  finalised split event saved :=
    numbered.finalised _ _ _ (split.trans (List.append_cons ..)) saved _ _ _ rfl event
  applied split event := by
    obtain ⟨_, _, _, s, t, -, -, -, -, stored, renumbers⟩ :=
      numbered.answered _ _ _ split _ _ _ _ event
    have accepted : t.revision = s.revision + 1 := renumbers.accepted _ rfl
    rcases renumbers.next with same | ⟨-, -, apply⟩
    · have unchanged : t.revision = s.revision := congrArg Header.revision same
      omega
    · exact apply _ _ rfl
  stored split event m' member t stored equal := by
    obtain ⟨earlier, arrival, inner, s, _, before, -, -, found, -, renumbers⟩ :=
      numbered.answered _ _ _ split _ _ _ _ event
    have arrived : arrival ∈ history := split ▸ before ▸ by simp
    have config := numbered.same member arrived stored found
      (equal.trans (congrArg Header.revision renumbers.backed.symm))
    exact config.trans (congrArg Header.config renumbers.backed)
  seen split event m' member polled' pool before' pools event' := by
    obtain ⟨earlier, arrival, inner, s, _, before, -, -, found, -, renumbers⟩ :=
      numbered.answered _ _ _ split _ _ _ _ event
    obtain ⟨first', rest', split'⟩ := List.append_of_mem member
    obtain ⟨earlier', arrival', inner', s', _, before'', -, -, found', -, renumbers'⟩ :=
      numbered.answered _ _ _ split' _ _ _ _ event'
    have revision := renumbers'.status _ _ rfl
    have arrived : arrival ∈ history := split ▸ before ▸ by simp
    have arrived' : arrival' ∈ history := split' ▸ before'' ▸ by simp
    have config := numbered.same arrived' arrived found' found
      ((congrArg Header.revision renumbers'.backed).trans
        (revision.symm.trans (congrArg Header.revision renumbers.backed.symm)))
    exact (congrArg Header.config renumbers'.backed.symm).trans
      (config.trans (congrArg Header.config renumbers.backed))
  single {first m middle m' rest polled text revision before result polled' text' before'
      result'} split event event' := by
    obtain ⟨-, -, -, s, t, -, -, -, -, stored, renumbers⟩ :=
      numbered.answered _ _ _ split _ _ _ _ event
    obtain ⟨earlier, arrival, inner, s', t', arrived, received, between, found, stored',
      renumbers'⟩ := numbered.answered (first ++ m :: middle) m' rest (by simp [split])
        _ _ _ _ event'
    rcases renumbers.next with same | ⟨next, -, named⟩
    · exact .inl ⟨t, stored, same.trans renumbers.backed⟩
    rcases renumbers'.next with same | ⟨-, -, named'⟩
    · exact .inr ⟨t', stored', same.trans renumbers'.backed⟩
    -- the second request arrived after the first was answered
    have apart : m ≠ arrival := by
      rintro rfl
      exact nomatch event.symm.trans received
    have after : arrival ∈ middle := by
      refine mem_after arrived apart fun member => ?_
      simpa [event, Event.between, Event.inner] using between m member
    obtain ⟨_, later, le, -⟩ := numbered.ordered split (List.mem_append_left _ after) t stored
    cases found.symm.trans later
    have first : before.revision = revision := named _ _ rfl
    have second : before'.revision = revision := named' _ _ rfl
    have backed : s.revision = before.revision := congrArg Header.revision renumbers.backed
    have backed' : s'.revision = before'.revision := congrArg Header.revision renumbers'.backed
    omega

end Numbered

/-- The stored revision never decreases and grows by one with every commit, and of the
`Apply` requests with one revision at most one commits. -/
theorem revisions_disciplined (executed : Executed host w) : Disciplined w.history :=
  ((numbered_invariant host).executed executed).disciplined

/-- A pool is scaled, and an edit is applied; a second client names a stale revision. -/
theorem revisions_disciplined_sample : ∃ w : World, w.engine.state.revision = 3 ∧
    w.engine.state.config = .sample [.sample "a" 3] ∧ Disciplined w.history := by
  obtain ⟨w, reachable, holds⟩ := @Host.reaches
    (.scripted [.sample [.sample "a" 1], .sample [.sample "a" 2], .sample [.sample "a" 3]]
      fun _ answers => answers) "" .blank
    [.request (.scale "a" 2), .edit (some "##"), .request (.apply "##" 2),
      .request (.apply "##" 2)]
    (fun w => w.engine.state.revision == 3 &&
      w.engine.state.config == .sample [.sample "a" 3]) (by decide +kernel)
  rw [Bool.and_eq_true, beq_iff_eq, beq_iff_eq] at holds
  exact ⟨w, holds.1, holds.2, revisions_disciplined (.reached reachable)⟩

end Numbered

end Runnerctl
