import Mathlib

/-!
# Programs that can fail

A program reads a host that never changes, updates a state, and either returns a
value or stops with a fault.  An error can be handled by the caller, a panic cannot.

`Meets host program s post fault` is the program logic used throughout: run from
`s`, the program ends in `post` when it returns and in `fault` when it stops.  Both
postconditions are ordinary predicates on the final state, so a relation to the
initial state is stated by closing over it.
-/

namespace Program

/-- The two ways in which a program stops without a value. -/
inductive Fault (ε : Type) where
  | error (error : ε)
  | panic
  deriving DecidableEq, Repr

/-- A program over hosts `ρ`, states `σ` and errors `ε` with values in `α`. -/
def Prog (ρ σ ε α : Type) : Type := ρ → σ → Except (Fault ε) α × σ

variable {ρ σ ε α β : Type}

instance : Monad (Prog ρ σ ε) where
  pure value := fun _ s => (.ok value, s)
  bind program next := fun host s =>
    match program host s with
    | (.ok value, s') => next value host s'
    | (.error fault, s') => (.error fault, s')

instance : LawfulMonad (Prog ρ σ ε) := by
  refine LawfulMonad.mk' (Prog ρ σ ε) ?_ ?_ ?_
  · intro _ program
    funext host s
    change (match program host s with
      | (.ok value, s') => (.ok value, s')
      | (.error fault, s') => (.error fault, s')) = program host s
    match program host s with
    | (.ok _, _) => rfl
    | (.error _, _) => rfl
  · intros
    rfl
  · intro _ _ _ program next last
    funext host s
    change (match (match program host s with
        | (.ok value, s') => next value host s'
        | (.error fault, s') => (.error fault, s')) with
      | (.ok value, s') => last value host s'
      | (.error fault, s') => (.error fault, s')) = _
    change _ = (match program host s with
      | (.ok value, s') => (next value >>= last) host s'
      | (.error fault, s') => (.error fault, s'))
    match program host s with
    | (.ok _, _) => rfl
    | (.error _, _) => rfl

/-- Stop with an error that a caller can handle. -/
def throw (error : ε) : Prog ρ σ ε α := fun _ s => (.error (.error error), s)

/-- Stop for good. -/
def panic : Prog ρ σ ε α := fun _ s => (.error .panic, s)

/-- The unchanging host. -/
def ask : Prog ρ σ ε ρ := fun host s => (.ok host, s)

/-- The current state. -/
def get : Prog ρ σ ε σ := fun _ s => (.ok s, s)

/-- Update the state. -/
def modify (update : σ → σ) : Prog ρ σ ε Unit := fun _ s => (.ok (), update s)

/-- Run a program and return its error as a value.  A panic is not caught. -/
def attempt (program : Prog ρ σ ε α) : Prog ρ σ ε (Except ε α) := fun host s =>
  match program host s with
  | (.ok value, s') => (.ok (.ok value), s')
  | (.error (.error error), s') => (.ok (.error error), s')
  | (.error .panic, s') => (.error .panic, s')

/-- Stop with the error of a pure computation, or return its value. -/
def liftExcept : Except ε α → Prog ρ σ ε α
  | .ok value => pure value
  | .error error => throw error

/-- Stop with `error` unless the condition holds. -/
def ensure (condition : Bool) (error : ε) : Prog ρ σ ε Unit :=
  if condition then pure () else throw error

/-- The value of an option, or an error when there is none. -/
def context (value : Option α) (error : ε) : Prog ρ σ ε α :=
  match value with
  | some value => pure value
  | none => throw error

/-- The value of an option, or a panic when there is none. -/
def unwrap (value : Option α) : Prog ρ σ ε α :=
  match value with
  | some value => pure value
  | none => panic

/-! ## Pure computations that can fail -/

theorem ok_bind {value : α} {next : α → Except ε β} : (.ok value >>= next) = next value := rfl

theorem bind_eq_ok_iff {computation : Except ε α} {next : α → Except ε β} {value : β} :
    (computation >>= next) = .ok value ↔
      ∃ first, computation = .ok first ∧ next first = .ok value := by
  cases computation with
  | error error => exact ⟨nofun, fun ⟨_, stopped, _⟩ => nomatch stopped⟩
  | ok first =>
      constructor
      · intro rest
        exact ⟨first, rfl, rest⟩
      · rintro ⟨_, returned, rest⟩
        cases returned
        exact rest

theorem forM_eq_ok_iff {items : List α} {body : α → Except ε Unit} {value : Unit} :
    items.forM body = .ok value ↔ ∀ item ∈ items, body item = .ok () := by
  induction items with
  | nil => exact ⟨fun _ => nofun, fun _ => rfl⟩
  | cons item rest inductionHypothesis =>
      change (body item >>= fun _ => rest.forM body) = _ ↔ _
      rw [bind_eq_ok_iff, List.forall_mem_cons, ← inductionHypothesis]
      exact ⟨fun ⟨_, first, others⟩ => ⟨first, others⟩, fun ⟨first, others⟩ =>
        ⟨(), first, others⟩⟩

theorem bind_ne_error {error : ε} {first : Except ε α} {rest : α → Except ε β}
    (head : first ≠ .error error) (tail : ∀ value, rest value ≠ .error error) :
    (first >>= rest) ≠ .error error := by
  cases first with
  | ok value => exact tail value
  | error other => exact fun same => head (congrArg Except.error (Except.error.inj same))

theorem forM_ne_error {error : ε} {body : α → Except ε Unit} {entries : List α}
    (every : ∀ entry ∈ entries, body entry ≠ .error error) :
    entries.forM body ≠ .error error := by
  induction entries with
  | nil => nofun
  | cons head rest inductionHypothesis =>
      rw [List.forall_mem_cons] at every
      change (body head >>= fun _ => rest.forM body) ≠ _
      exact bind_ne_error every.1 fun _ => inductionHypothesis every.2

theorem foldlM_ne_error {error : ε} {body : β → α → Except ε β} {entries : List α}
    {start : β}
    (every : ∀ entry ∈ entries, ∀ value, body value entry ≠ .error error) :
    entries.foldlM body start ≠ .error error := by
  induction entries generalizing start with
  | nil => nofun
  | cons head rest inductionHypothesis =>
      rw [List.forall_mem_cons] at every
      rw [List.foldlM_cons]
      exact bind_ne_error (every.1 start) fun _ => inductionHypothesis every.2

/-! ## Running programs -/

section Run

variable {host : ρ} {s s' : σ}

theorem bind_run (program : Prog ρ σ ε α) (next : α → Prog ρ σ ε β) :
    (program >>= next) host s =
      match program host s with
      | (.ok value, s') => next value host s'
      | (.error fault, s') => (.error fault, s') := rfl

theorem bind_run_ok {program : Prog ρ σ ε α} {next : α → Prog ρ σ ε β} {value : α}
    (returned : program host s = (.ok value, s')) :
    (program >>= next) host s = next value host s' := by
  rw [bind_run, returned]

theorem bind_run_fault {program : Prog ρ σ ε α} {next : α → Prog ρ σ ε β}
    {fault : Fault ε} (stopped : program host s = (.error fault, s')) :
    (program >>= next) host s = (.error fault, s') := by
  rw [bind_run, stopped]

/-- A loop that stopped did so at one of its entries, after those before it. -/
theorem forM_stopped {body : α → Prog ρ σ ε PUnit} {items : List α} {fault : Fault ε}
    (run : items.forM body host s = (.error fault, s')) :
    ∃ before item after mid, items = before ++ item :: after ∧
      before.forM body host s = (.ok ⟨⟩, mid) ∧ body item host mid = (.error fault, s') := by
  induction items generalizing s with
  | nil => cases run
  | cons item rest inductionHypothesis =>
      change (body item >>= fun _ => rest.forM body) host s = _ at run
      rcases first : body item host s with ⟨stopped | _, mid⟩
      · rw [bind_run_fault first] at run
        cases run
        exact ⟨[], item, rest, s, rfl, rfl, first⟩
      · rw [bind_run_ok first] at run
        obtain ⟨before, other, after, mid', rfl, ran, stops⟩ := inductionHypothesis run
        refine ⟨item :: before, other, after, mid', rfl, ?_, stops⟩
        change (body item >>= fun _ => before.forM body) host s = _
        rw [bind_run_ok first]
        exact ran

end Run

/-! ## The program logic -/

/-- Run from `s`, the program ends in `post` if it returns and in `fault` if it
stops. -/
def Meets (host : ρ) (program : Prog ρ σ ε α) (s : σ)
    (post : α → σ → Prop) (fault : Fault ε → σ → Prop) : Prop :=
  match program host s with
  | (.ok value, s') => post value s'
  | (.error stopped, s') => fault stopped s'

section Logic

variable {host : ρ} {s : σ} {fault fault' : Fault ε → σ → Prop}

theorem Meets.intro {program : Prog ρ σ ε α} {post : α → σ → Prop}
    (returns : ∀ value s', program host s = (.ok value, s') → post value s')
    (stops : ∀ stopped s', program host s = (.error stopped, s') → fault stopped s') :
    Meets host program s post fault := by
  unfold Meets
  match run : program host s with
  | (.ok value, s') => exact returns value s' run
  | (.error stopped, s') => exact stops stopped s' run

theorem Meets.returned {program : Prog ρ σ ε α} {post : α → σ → Prop}
    (meets : Meets host program s post fault) {value : α} {s' : σ}
    (run : program host s = (.ok value, s')) : post value s' := by
  simpa [Meets, run] using meets

theorem Meets.stopped {program : Prog ρ σ ε α} {post : α → σ → Prop}
    (meets : Meets host program s post fault) {stopped : Fault ε} {s' : σ}
    (run : program host s = (.error stopped, s')) : fault stopped s' := by
  simpa [Meets, run] using meets

/-- A program runs as it is specified to. -/
theorem Meets.run_eq {program : Prog ρ σ ε α} {result : Except (Fault ε) α × σ}
    (meets : Meets host program s (fun value s' => result = (.ok value, s'))
      (fun stopped s' => result = (.error stopped, s'))) : program host s = result := by
  unfold Meets at meets
  split at meets
  · next run => rw [run, meets]
  · next run => rw [run, meets]

/-- Rule of consequence. -/
theorem Meets.mono {program : Prog ρ σ ε α} {post post' : α → σ → Prop}
    (meets : Meets host program s post fault)
    (returns : ∀ value s', post value s' → post' value s')
    (stops : ∀ stopped s', fault stopped s' → fault' stopped s') :
    Meets host program s post' fault' :=
  .intro (fun value s' run => returns value s' (meets.returned run))
    (fun stopped s' run => stops stopped s' (meets.stopped run))

theorem Meets.and {program : Prog ρ σ ε α} {post post' : α → σ → Prop}
    (left : Meets host program s post fault)
    (right : Meets host program s post' fault') :
    Meets host program s (fun value s' => post value s' ∧ post' value s')
      (fun stopped s' => fault stopped s' ∧ fault' stopped s') :=
  .intro (fun _ _ run => ⟨left.returned run, right.returned run⟩)
    (fun _ _ run => ⟨left.stopped run, right.stopped run⟩)

@[simp] theorem meets_pure {value : α} {post : α → σ → Prop} :
    Meets host (pure value : Prog ρ σ ε α) s post fault ↔ post value s := Iff.rfl

@[simp] theorem meets_throw {error : ε} {post : α → σ → Prop} :
    Meets host (throw error : Prog ρ σ ε α) s post fault ↔
      fault (.error error) s := Iff.rfl

@[simp] theorem meets_panic {post : α → σ → Prop} :
    Meets host (panic : Prog ρ σ ε α) s post fault ↔ fault .panic s := Iff.rfl

@[simp] theorem meets_ask {post : ρ → σ → Prop} :
    Meets host (ask : Prog ρ σ ε ρ) s post fault ↔ post host s := Iff.rfl

@[simp] theorem meets_get {post : σ → σ → Prop} :
    Meets host (get : Prog ρ σ ε σ) s post fault ↔ post s s := Iff.rfl

@[simp] theorem meets_modify {update : σ → σ} {post : Unit → σ → Prop} :
    Meets host (modify update : Prog ρ σ ε Unit) s post fault ↔
      post () (update s) := Iff.rfl

/-- Sequencing, in both directions. -/
theorem meets_bind {program : Prog ρ σ ε α} {next : α → Prog ρ σ ε β}
    {post : β → σ → Prop} :
    Meets host (program >>= next) s post fault ↔
      Meets host program s
        (fun value s' => Meets host (next value) s' post fault) fault := by
  unfold Meets
  rw [bind_run]
  match program host s with
  | (.ok _, _) => exact Iff.rfl
  | (.error _, _) => exact Iff.rfl

theorem meets_discard {program : Prog ρ σ ε α} {post : PUnit → σ → Prop} :
    Meets host (discard program) s post fault ↔
      Meets host program s (fun _ => post ⟨⟩) fault :=
  meets_bind

/-- Sequencing, from the specification of the first program. -/
theorem Meets.bind {program : Prog ρ σ ε α} {next : α → Prog ρ σ ε β}
    {mid : α → σ → Prop} {post : β → σ → Prop}
    (first : Meets host program s mid fault)
    (rest : ∀ value s', mid value s' → Meets host (next value) s' post fault) :
    Meets host (program >>= next) s post fault :=
  meets_bind.mpr (first.mono rest fun _ _ stopped => stopped)

theorem meets_trivial (program : Prog ρ σ ε α) :
    Meets host program s (fun _ _ => True) (fun _ _ => True) :=
  .intro (fun _ _ _ => trivial) fun _ _ _ => trivial

/-- What the last part of a program establishes by itself. -/
theorem Meets.last {program : Prog ρ σ ε α} {next : α → Prog ρ σ ε β}
    {post : β → σ → Prop}
    (rest : ∀ value s', Meets host (next value) s' post (fun _ _ => True)) :
    Meets host (program >>= next) s post (fun _ _ => True) :=
  (meets_trivial program).bind fun value s' _ => rest value s'

/-- Sequencing, if the first program has a fault condition of its own. -/
theorem Meets.seq {program : Prog ρ σ ε α} {next : α → Prog ρ σ ε β}
    {mid : α → σ → Prop} {post : β → σ → Prop}
    (first : Meets host program s mid fault')
    (stops : ∀ stopped s', fault' stopped s' → fault stopped s')
    (rest : ∀ value s', mid value s' → Meets host (next value) s' post fault) :
    Meets host (program >>= next) s post fault :=
  (first.mono (fun _ _ done => done) stops).bind rest

theorem meets_attempt {program : Prog ρ σ ε α} {post : Except ε α → σ → Prop} :
    Meets host (attempt program) s post fault ↔
      Meets host program s (fun value s' => post (.ok value) s')
        (fun stopped s' => match stopped with
          | .error error => post (.error error) s'
          | .panic => fault .panic s') := by
  unfold Meets attempt
  match program host s with
  | (.ok _, _) => exact Iff.rfl
  | (.error (.error _), _) => exact Iff.rfl
  | (.error .panic, _) => exact Iff.rfl

theorem meets_ensure {condition : Bool} {error : ε} {post : Unit → σ → Prop} :
    Meets host (ensure condition error : Prog ρ σ ε Unit) s post fault ↔
      if condition then post () s else fault (.error error) s := by
  cases condition <;> rfl

theorem meets_context {value : Option α} {error : ε} {post : α → σ → Prop} :
    Meets host (context value error : Prog ρ σ ε α) s post fault ↔
      match value with
      | some value => post value s
      | none => fault (.error error) s := by
  cases value <;> rfl

theorem meets_unwrap {value : Option α} {post : α → σ → Prop} :
    Meets host (unwrap value : Prog ρ σ ε α) s post fault ↔
      match value with
      | some value => post value s
      | none => fault .panic s := by
  cases value <;> rfl

theorem meets_liftExcept {value : Except ε α} {post : α → σ → Prop} :
    Meets host (liftExcept value : Prog ρ σ ε α) s post fault ↔
      match value with
      | .ok value => post value s
      | .error error => fault (.error error) s := by
  cases value <;> rfl

/-- A conditional step before a common continuation. -/
theorem Meets.when_bind {condition : Prop} [Decidable condition]
    {program : Prog ρ σ ε β} {value : β} {next : β → Prog ρ σ ε α}
    {mid : β → σ → Prop}
    {post : α → σ → Prop}
    (first : Meets host (if condition then program else pure value) s mid fault)
    (rest : ∀ value s', mid value s' → Meets host (next value) s' post fault) :
    Meets host (if condition then program >>= next else next value) s post fault := by
  split
  · next holds =>
      rw [if_pos holds] at first
      exact first.bind rest
  · next fails =>
      rw [if_neg fails] at first
      exact rest value s first

theorem Meets.ensure_bind {condition : Bool} {error : ε} {next : Unit → Prog ρ σ ε α}
    {post : α → σ → Prop} (rejects : condition = false → fault (.error error) s)
    (accepts : condition = true → Meets host (next ()) s post fault) :
    Meets host (ensure condition error >>= next) s post fault := by
  rw [meets_bind, meets_ensure]
  cases condition with
  | true => exact accepts rfl
  | false => exact rejects rfl

theorem Meets.context_bind {value : Option β} {error : ε} {next : β → Prog ρ σ ε α}
    {post : α → σ → Prop} (rejects : value = none → fault (.error error) s)
    (accepts : ∀ found, value = some found → Meets host (next found) s post fault) :
    Meets host (context value error >>= next) s post fault := by
  rw [meets_bind, meets_context]
  cases value with
  | none => exact rejects rfl
  | some found => exact accepts found rfl

theorem Meets.liftExcept_bind {value : Except ε β} {next : β → Prog ρ σ ε α}
    {post : α → σ → Prop}
    (rejects : ∀ error, value = .error error → fault (.error error) s)
    (accepts : ∀ found, value = .ok found → Meets host (next found) s post fault) :
    Meets host (liftExcept value >>= next) s post fault := by
  rw [meets_bind, meets_liftExcept]
  cases value with
  | error error => exact rejects error rfl
  | ok found => exact accepts found rfl

/-- Loop rule without an accumulator. -/
theorem Meets.forM {body : α → Prog ρ σ ε PUnit} {items : List α}
    (invariant : List α → σ → Prop)
    (step : ∀ item rest s', invariant (item :: rest) s' →
      Meets host (body item) s' (fun _ => invariant rest) fault)
    (initial : invariant items s) :
    Meets host (items.forM body) s (fun _ => invariant []) fault := by
  induction items generalizing s with
  | nil => exact initial
  | cons item rest inductionHypothesis =>
      change Meets host (body item >>= fun _ => rest.forM body) s _ fault
      exact (step item rest s initial).bind fun _ s' kept => inductionHypothesis kept

/-- Loop rule: an invariant over the elements still to be visited and the
accumulator holds of the accumulator a whole loop returns. -/
theorem Meets.foldlM {body : β → α → Prog ρ σ ε β} {items : List α} {start : β}
    (invariant : List α → β → σ → Prop)
    (step : ∀ item rest acc s', invariant (item :: rest) acc s' →
      Meets host (body acc item) s' (invariant rest) fault)
    (initial : invariant items start s) :
    Meets host (items.foldlM body start) s (invariant []) fault := by
  induction items generalizing start s with
  | nil => exact initial
  | cons item rest inductionHypothesis =>
      rw [List.foldlM_cons]
      exact (step item rest start s initial).bind fun acc s' kept =>
        inductionHypothesis kept

/-- Loop rule for a loop that collects values and keeps an invariant. -/
theorem Meets.mapM {body : α → Prog ρ σ ε β} {items : List α} (invariant : σ → Prop)
    (step : ∀ item ∈ items, ∀ s', invariant s' →
      Meets host (body item) s' (fun _ => invariant) fault)
    (initial : invariant s) :
    Meets host (items.mapM body) s (fun _ => invariant) fault := by
  induction items generalizing s with
  | nil => exact initial
  | cons item rest inductionHypothesis =>
      rw [List.mapM_cons]
      refine (step item List.mem_cons_self s initial).bind fun value s' kept => ?_
      refine (inductionHypothesis (fun other member => ?_) kept).bind fun values s'' kept => kept
      exact step other (List.mem_cons_of_mem _ member)

end Logic

end Program
