import Runnerctl.Metatheory.Acceptance

/-!
# Reading the history

Facts about the order of events are stated over the moments of the current pass: those
after the last `passStarted`.
-/

namespace Runnerctl

open Std

/-- The operation creates or starts a container of the run. -/
def Op.raises (id : String) : Op → Bool
  | .dockerCreate _ run => run.id == id
  | .dockerStart other => other == id
  | _ => false

namespace Moment

/-- The moment begins a pass. -/
def starts (m : Moment) : Bool :=
  match m.event with
  | .passStarted _ _ _ => true
  | _ => false

/-- The containers of a listing that succeeded. -/
def listing (m : Moment) : Option (List Container) :=
  match m.event with
  | .ended (.dockerList _) (.ok containers) => some containers
  | _ => none

/-- A mutating request was handled. -/
def mutation (m : Moment) : Bool :=
  match m.event with
  | .handled _ request _ _ => request.mutating
  | _ => false

/-- A run was dropped whose exit counts as unexpected. -/
def counted (m : Moment) : Bool :=
  match m.event with
  | .droppedRun run interrupted =>
      !run.completedJob && !run.retiring && !run.force && !interrupted
  | _ => false

/-- The start of the container of a run began. -/
def launches (id : String) (m : Moment) : Bool :=
  match m.event with
  | .began (.dockerStart other) => other == id
  | _ => false

/-- The creation or the start of a container of a run began. -/
def raises (id : String) (m : Moment) : Bool :=
  match m.event with
  | .began op => op.raises id
  | _ => false

/-- A new run was recorded. -/
def births (m : Moment) : Bool :=
  match m.event with
  | .newRun _ => true
  | _ => false

/-- The deletion of a pool began. -/
def deletes (m : Moment) : Bool :=
  match m.event with
  | .finalising _ => true
  | _ => false

/-- An accepted request reset the retry state of a pool. -/
def Resets (name : String) (m : Moment) : Prop :=
  ∃ polled request before response,
    m.event = .handled polled request before (.ok response) ∧ request.resets before name

end Moment

/-- The moments of the current pass. -/
def currentPass (history : List Moment) : List Moment :=
  history.foldl (fun pass m => if m.starts then [] else pass ++ [m]) []

/-- Name of the pool, time and `retry_at` of the pool at the beginning of the pass. -/
def passHead (history : List Moment) : Option (String × Nat × Nat) :=
  history.foldl (fun head m => match m.event with
    | .passStarted name at_ retryAt => some (name, at_, retryAt)
    | _ => head) none

/-- The listings among some moments, each with the memory just after it. -/
def listings (moments : List Moment) : List (State × List Container) :=
  moments.filterMap fun m => m.listing.map (m.state, ·)

/-- The last listing among some moments. -/
def lastListing (moments : List Moment) : Option (List Container) :=
  (listings moments).getLast?.map (·.2)

/-- The number of unexpected exits among some moments. -/
def exits (moments : List Moment) : Nat := moments.countP Moment.counted

/-- The deletion of a pool began, and its commit has not returned since. -/
def halfDeleted (moments : List Moment) : Bool :=
  moments.foldl (fun pending m => match m.event with
    | .finalising _ => true
    | .cleared => false
    | _ => pending) false

/-- No container of the run can be left: none was created or started during the moments,
and one of them shows that there was none or removed it. -/
def Gone (managerId : Uuid) (run : Run) (moments : List Moment) : Prop :=
  (∀ m ∈ moments, m.raises run.id = false) ∧ ∃ m ∈ moments,
    (∃ containers, m.listing = some containers ∧
      ∀ container ∈ containers, container.owned managerId.text run = false) ∨
    ∃ force, m.event = .ended (.dockerRemove run.id force) (.ok ())

/-- A listing that was fetched during the moments shows no registration of the run, or
the one it shows was removed. -/
def Unregistered (id : String) (moments : List Moment) : Prop :=
  ∃ first m rest profile auth scope fresh, moments = first ++ m :: rest ∧
    m.event = .ended (.githubList profile auth scope 0) (.ok fresh) ∧
    ((∀ remote ∈ fresh, remote.name ≠ id) ∨ ∃ remote ∈ fresh, remote.name = id ∧
      ∃ m' ∈ rest, m'.event = .ended (.githubRemove profile auth scope remote.id) (.ok ()))

/-- The directory of the run was found missing, or was removed. -/
def Vanished (id : String) (moments : List Moment) : Prop :=
  ∃ m ∈ moments, m.event = .looked (.directory id) false ∨
    m.event = .file (.removeDir id) true

/-- Container, registration and directory of the run are gone, in this order. -/
def Forgotten (managerId : Uuid) (run : Run) (moments : List Moment) : Prop :=
  ∃ first second third, moments = first ++ second ++ third ∧ Gone managerId run first ∧
    Unregistered run.id second ∧ Vanished run.id third ∧
    ∀ m ∈ second ++ third, m.raises run.id = false

/-- The moments do not show that a reboot stopped the container. -/
def Blamed (host : Host) (container : Container) (moments : List Moment) : Prop :=
  ∀ started, container.startedAt.bind host.parseRfc3339 = some started →
    ∃ m ∈ moments, ∃ image reply, m.event = .ended (.dockerBootTime image) reply ∧
      ∀ bootTime, reply = .ok bootTime → bootTime ≤ started

/-- How a run was judged when it was dropped.  If the listing of the pass showed no
container, no reboot excused it; otherwise its mark was looked for, and its exit was held
against it only if no reboot was known to have stopped it. -/
def Judged (host : Host) (managerId : Uuid) (run : Run) (interrupted : Bool)
    (moments : List Moment) : Prop :=
  ∃ containers, lastListing moments = some containers ∧
    ((∀ container ∈ containers, container.owned managerId.text run = false) ∧
        interrupted = false ∨
      ∃ container ∈ containers, container.owned managerId.text run = true ∧
        (∃ m ∈ moments, m.event = .looked (.completed run.id) run.completedJob) ∧
        (unexpectedExit run = true → interrupted = false → Blamed host container moments))

section Append

variable {history new : List Moment} {m : Moment}

theorem currentPass_concat (quiet : m.starts = false) :
    currentPass (history ++ [m]) = currentPass history ++ [m] := by
  simp [currentPass, quiet]

theorem currentPass_append (quiet : ∀ m ∈ new, m.starts = false) :
    currentPass (history ++ new) = currentPass history ++ new := by
  induction new generalizing history with
  | nil => simp
  | cons m rest inductionHypothesis =>
      rw [List.append_cons history m rest, inductionHypothesis, currentPass_concat,
        List.append_assoc, List.singleton_append]
      · exact quiet m List.mem_cons_self
      · exact fun other member => quiet other (List.mem_cons_of_mem _ member)

theorem currentPass_start (start : m.starts = true) :
    currentPass (history ++ [m]) = [] := by
  simp [currentPass, start]

/-- What came before the beginning of a pass does not matter. -/
theorem currentPass_cons (start : m.starts = true) :
    currentPass (history ++ m :: new) = currentPass new := by
  rw [List.append_cons, currentPass, List.foldl_append, ← currentPass, currentPass_start start]
  rfl

/-- The current pass is the end of the history. -/
theorem currentPass_suffix (history : List Moment) : currentPass history <:+ history := by
  induction history using List.reverseRec with
  | nil => exact List.suffix_refl _
  | append_singleton first last inductionHypothesis =>
      cases starts : last.starts with
      | true =>
          rw [currentPass_start starts]
          exact List.nil_suffix
      | false =>
          rw [currentPass_concat starts]
          obtain ⟨earlier, continues⟩ := inductionHypothesis
          exact ⟨earlier, by rw [← List.append_assoc, continues]⟩

theorem mem_of_currentPass (member : m ∈ currentPass history) : m ∈ history :=
  (currentPass_suffix history).subset member

/-- The current pass does not start another one. -/
theorem currentPass_quiet (history : List Moment) :
    ∀ m ∈ currentPass history, m.starts = false := by
  induction history using List.reverseRec with
  | nil => simp [currentPass]
  | append_singleton first last inductionHypothesis =>
      cases starts : last.starts with
      | true => simp [currentPass_start starts]
      | false =>
          rw [currentPass_concat starts]
          exact List.forall_mem_append.mpr ⟨inductionHypothesis, by simpa using starts⟩

theorem passHead_append (quiet : ∀ m ∈ new, m.starts = false) :
    passHead (history ++ new) = passHead history := by
  induction new generalizing history with
  | nil => simp
  | cons m rest inductionHypothesis =>
      rw [List.append_cons history m rest, inductionHypothesis]
      · have := quiet m List.mem_cons_self
        rw [passHead, List.foldl_append, List.foldl_cons, List.foldl_nil, ← passHead]
        cases event : m.event <;> simp_all [Moment.starts]
      · exact fun other member => quiet other (List.mem_cons_of_mem _ member)

theorem listings_append {first second : List Moment} :
    listings (first ++ second) = listings first ++ listings second :=
  List.filterMap_append

theorem listings_singleton {containers : List Container}
    (shown : m.listing = some containers) : listings [m] = [(m.state, containers)] := by
  rw [listings, List.filterMap_cons_some (by rw [shown, Option.map_some]), List.filterMap_nil]

/-- The moment of the last listing. -/
theorem mem_of_lastListing {moments : List Moment} {containers : List Container}
    (last : lastListing moments = some containers) :
    ∃ m ∈ moments, m.listing = some containers := by
  obtain ⟨⟨s, _⟩, member, rfl⟩ := Option.map_eq_some_iff.mp last
  obtain ⟨m, inMoments, shown⟩ := List.mem_filterMap.mp (List.mem_of_getLast? member)
  obtain ⟨_, listing, equal⟩ := Option.map_eq_some_iff.mp shown
  cases equal
  exact ⟨m, inMoments, listing⟩

theorem exits_append {first second : List Moment} :
    exits (first ++ second) = exits first + exits second :=
  List.countP_append

theorem listings_eq_nil (none : ∀ m ∈ new, m.listing = .none) : listings new = [] := by
  simp only [listings, List.filterMap_eq_nil_iff]
  intro m member
  rw [none m member, Option.map_none]

theorem exits_singleton : exits [m] = if m.counted then 1 else 0 := by
  simp [exits, List.countP_cons]

theorem exits_eq_zero (none : ∀ m ∈ new, m.counted = false) : exits new = 0 :=
  List.countP_eq_zero.mpr fun m member counted => by simp [none m member] at counted

theorem halfDeleted_concat : halfDeleted (history ++ [m]) =
    match m.event with
    | .finalising _ => true
    | .cleared => false
    | _ => halfDeleted history := by
  rw [halfDeleted, List.foldl_append, List.foldl_cons, List.foldl_nil]
  rfl

theorem halfDeleted_append (kept : ∀ m ∈ new, m.event ≠ .cleared ∧
    m.deletes = false) : halfDeleted (history ++ new) = halfDeleted history := by
  induction new generalizing history with
  | nil => simp
  | cons m rest inductionHypothesis =>
      rw [List.forall_mem_cons] at kept
      rw [List.append_cons, inductionHypothesis kept.2, halfDeleted_concat]
      have kept := kept.1
      rw [Moment.deletes] at kept
      split <;> simp_all

theorem halfDeleted_eq_false (none : ∀ m ∈ history, m.deletes = false) :
    halfDeleted history = false := by
  have pending {m : Moment} (kept : m.deletes = false) (rest : List Moment) :
      halfDeleted (m :: rest) = halfDeleted rest := by
    rw [Moment.deletes] at kept
    simp only [halfDeleted, List.foldl_cons]
    split at kept
    · simp at kept
    · split <;> simp_all
  induction history with
  | nil => rfl
  | cons m rest inductionHypothesis =>
      rw [List.forall_mem_cons] at none
      rw [pending none.1, inductionHypothesis none.2]

theorem Blamed.append {host : Host} {container : Container} {first second : List Moment}
    (blamed : Blamed host container first) : Blamed host container (first ++ second) := by
  intro started parsed
  obtain ⟨m, member, replied⟩ := blamed started parsed
  exact ⟨m, List.mem_append_left _ member, replied⟩

theorem Judged.append {host : Host} {managerId : Uuid} {run : Run} {interrupted : Bool}
    {first second : List Moment} (judged : Judged host managerId run interrupted first)
    (unlisted : ∀ m ∈ second, m.listing = none) :
    Judged host managerId run interrupted (first ++ second) := by
  obtain ⟨containers, listed, verdict⟩ := judged
  refine ⟨containers, ?_, verdict.imp_right ?_⟩
  · rw [lastListing, listings_append, listings_eq_nil unlisted, List.append_nil]
    exact listed
  · rintro ⟨container, member, owned, ⟨m, looked, event⟩, blamed⟩
    exact ⟨container, member, owned, ⟨m, List.mem_append_left _ looked, event⟩,
      fun unexpected late => (blamed unexpected late).append⟩

theorem launches_of_raises {id : String} (unraised : m.raises id = false) :
    m.launches id = false := by
  rw [Moment.launches]
  split
  · next event => simpa [Moment.raises, Op.raises, event] using unraised
  · rfl

end Append

end Runnerctl
