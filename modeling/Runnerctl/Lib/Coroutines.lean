import Mathlib

/-!
# Coroutines over a shared state

A coroutine runs until it needs something from its surroundings, calls for it, and goes on
with the reply.  Any number of coroutines share one state.  A call is answered in one step,
and between two calls of one coroutine any calls of the others are answered.

`Meets` is the logic of a single coroutine: what its calls and its result owe to the calls
before.  A `Trace` is an interleaved run, and each coroutine follows its program through it,
so that what holds of a coroutine by itself is true of its part of every trace.
-/

namespace Coroutines

/-- A computation that makes calls `Q`, goes on with their replies, and returns or fails. -/
inductive Coroutine (Q : Type) (A : Q → Type) (ε α : Type) where
  | ok (value : α)
  | err (error : ε)
  | call (request : Q) (rest : A request → Coroutine Q A ε α)

variable {Q : Type} {A : Q → Type} {ε α β : Type}

namespace Coroutine

def andThen : Coroutine Q A ε α → (α → Coroutine Q A ε β) → Coroutine Q A ε β
  | .ok value, next => next value
  | .err error, _ => .err error
  | .call request rest, next => .call request fun reply => (rest reply).andThen next

instance : Monad (Coroutine Q A ε) where
  pure := .ok
  bind := andThen

end Coroutine

/-- Make a call. -/
def perform (request : Q) : Coroutine Q A ε (A request) := .call request .ok

/-- Fail with the error of a pure computation, or return its value. -/
def orFail : Except ε α → Coroutine Q A ε α
  | .ok value => .ok value
  | .error error => .err error

/-- A call and its reply. -/
structure Called (Q : Type) (A : Q → Type) where
  request : Q
  reply : A request

/-! ## One coroutine by itself -/

/-- After these calls this is left of the coroutine. -/
inductive Follows : Coroutine Q A ε α → List (Called Q A) → Coroutine Q A ε α → Prop where
  | nil (left : Coroutine Q A ε α) : Follows left [] left
  | cons {request : Q} {rest : A request → Coroutine Q A ε α} {reply : A request}
      {calls : List (Called Q A)} {left : Coroutine Q A ε α} :
      Follows (rest reply) calls left →
      Follows (.call request rest) (⟨request, reply⟩ :: calls) left

namespace Follows

variable {program middle left left' : Coroutine Q A ε α} {calls calls' : List (Called Q A)}

theorem split (follows : Follows program (calls ++ calls') left) :
    ∃ middle, Follows program calls middle ∧ Follows middle calls' left := by
  induction calls generalizing program with
  | nil => exact ⟨program, .nil program, follows⟩
  | cons c rest inductionHypothesis =>
      cases follows with
      | cons follows =>
          obtain ⟨middle, first, second⟩ := inductionHypothesis follows
          exact ⟨middle, .cons first, second⟩

/-- What is left is determined by the calls. -/
theorem unique (first : Follows program calls left) (second : Follows program calls left') :
    left = left' := by
  induction first with
  | nil => cases second; rfl
  | cons _ inductionHypothesis =>
      cases second with
      | cons second => exact inductionHypothesis second

end Follows

/-- What is left of a coroutine after these calls, if it makes them. -/
def Coroutine.replay [DecidableEq Q] :
    Coroutine Q A ε α → List (Called Q A) → Option (Coroutine Q A ε α)
  | program, [] => some program
  | .call request rest, ⟨made, reply⟩ :: calls =>
      if same : made = request then (rest (same ▸ reply)).replay calls else none
  | _, _ :: _ => none

theorem follows_of_replay [DecidableEq Q] {program left : Coroutine Q A ε α}
    {calls : List (Called Q A)} (replayed : program.replay calls = some left) :
    Follows program calls left := by
  induction calls generalizing program with
  | nil =>
      rw [Coroutine.replay, Option.some.injEq] at replayed
      exact replayed ▸ .nil program
  | cons called calls inductionHypothesis =>
      obtain ⟨made, reply⟩ := called
      cases program with
      | ok value => exact nomatch replayed
      | err error => exact nomatch replayed
      | call request rest =>
          rw [Coroutine.replay] at replayed
          split at replayed
          · next same =>
              subst same
              exact .cons (inductionHypothesis replayed)
          · exact nomatch replayed

/-- The value of a coroutine that has ended. -/
def Coroutine.value : Coroutine Q A ε α → Option α
  | .ok value => some value
  | _ => none

theorem follows_to_value [DecidableEq Q] {program : Coroutine Q A ε α}
    {calls : List (Called Q A)} {value : α}
    (replayed : (program.replay calls).bind Coroutine.value = some value) :
    Follows program calls (.ok value) := by
  obtain ⟨left, replayed, ended⟩ := Option.bind_eq_some_iff.mp replayed
  have follows := follows_of_replay replayed
  cases left with
  | ok value => cases ended; exact follows
  | err error => exact nomatch ended
  | call request rest => exact nomatch ended

/-- With `past` calls made, every call of the coroutine is allowed by those before it, and
the result is in `post` of all of them. -/
def Meets (allows : List (Called Q A) → Q → Prop)
    (post : List (Called Q A) → Except ε α → Prop) :
    List (Called Q A) → Coroutine Q A ε α → Prop
  | past, .ok value => post past (.ok value)
  | past, .err error => post past (.error error)
  | past, .call request rest => allows past request ∧
      ∀ reply, Meets allows post (past ++ [⟨request, reply⟩]) (rest reply)

section Logic

variable {allows : List (Called Q A) → Q → Prop} {past calls : List (Called Q A)}
  {post post' : List (Called Q A) → Except ε α → Prop} {program left : Coroutine Q A ε α}

@[simp] theorem meets_ok {value : α} :
    Meets allows post past (.ok value) ↔ post past (.ok value) := Iff.rfl

@[simp] theorem meets_pure {value : α} :
    Meets allows post past (pure value) ↔ post past (.ok value) := Iff.rfl

@[simp] theorem meets_err {error : ε} :
    Meets allows post past (.err error) ↔ post past (.error error) := Iff.rfl

/-- Rule of consequence. -/
theorem Meets.mono (meets : Meets allows post past program)
    (weaker : ∀ past result, post past result → post' past result) :
    Meets allows post' past program := by
  induction program generalizing past with
  | ok value => exact weaker _ _ meets
  | err error => exact weaker _ _ meets
  | call request rest inductionHypothesis =>
      exact ⟨meets.1, fun reply => inductionHypothesis reply (meets.2 reply)⟩

/-- Sequencing, in both directions. -/
theorem meets_bind {next : α → Coroutine Q A ε β}
    {post : List (Called Q A) → Except ε β → Prop} :
    Meets allows post past (program >>= next) ↔
      Meets allows (fun past result => match result with
        | .ok value => Meets allows post past (next value)
        | .error error => post past (.error error)) past program := by
  induction program generalizing past with
  | ok value => exact Iff.rfl
  | err error => exact Iff.rfl
  | call request rest inductionHypothesis =>
      exact and_congr_right fun _ => forall_congr' fun reply => inductionHypothesis reply

/-- Sequencing, from the specification of the first coroutine. -/
theorem Meets.bind {next : α → Coroutine Q A ε β}
    {mid : List (Called Q A) → Except ε α → Prop}
    {post : List (Called Q A) → Except ε β → Prop} (first : Meets allows mid past program)
    (rest : ∀ past value, mid past (.ok value) → Meets allows post past (next value))
    (fails : ∀ past error, mid past (.error error) → post past (.error error)) :
    Meets allows post past (program >>= next) := by
  refine meets_bind.mpr (first.mono fun past result done => ?_)
  cases result with
  | ok value => exact rest past value done
  | error error => exact fails past error done

/-- What is left of a coroutine meets its specification. -/
theorem Follows.meets (follows : Follows program calls left)
    (meets : Meets allows post past program) : Meets allows post (past ++ calls) left := by
  induction follows generalizing past with
  | nil => rwa [List.append_nil]
  | cons _ inductionHypothesis =>
      rw [List.append_cons]
      exact inductionHypothesis (meets.2 _)

/-- Every call is allowed by the calls before it. -/
theorem Follows.allowed (follows : Follows program calls left)
    (meets : Meets allows post past program) {called : Called Q A} (member : called ∈ calls) :
    ∃ past, allows past called.request := by
  obtain ⟨before, after, rfl⟩ := List.append_of_mem member
  obtain ⟨_, first, second⟩ := follows.split
  have rest := first.meets meets
  cases second
  exact ⟨_, rest.1⟩

end Logic

section Endings

variable {program : Coroutine Q A ε α} {calls : List (Called Q A)}

/-- A call, and then the rest. -/
theorem Follows.performed {request : Q} {next : A request → Coroutine Q A ε β}
    {result : Except ε β} (follows : Follows (perform request >>= next) calls (orFail result)) :
    ∃ reply rest, calls = ⟨request, reply⟩ :: rest ∧
      Follows (next reply) rest (orFail result) := by
  cases result with
  | ok value => cases follows with | cons rest => exact ⟨_, _, rfl, rest⟩
  | error error => cases follows with | cons rest => exact ⟨_, _, rfl, rest⟩

/-- Of two coroutines in sequence the first has ended, and then the second, unless the first
failed. -/
theorem Follows.sequenced {next : α → Coroutine Q A ε β} {result : Except ε β}
    (follows : Follows (program >>= next) calls (orFail result)) :
    ∃ first second, calls = first ++ second ∧
      ((∃ value, Follows program first (.ok value) ∧
          Follows (next value) second (orFail result)) ∨
        ∃ error, Follows program first (.err error) ∧ second = [] ∧
          result = .error error) := by
  induction program generalizing calls with
  | ok value => exact ⟨[], calls, rfl, .inl ⟨value, .nil _, follows⟩⟩
  | err error =>
      cases result with
      | ok value => exact nomatch follows
      | error error' => cases follows; exact ⟨[], [], rfl, .inr ⟨error, .nil _, rfl, rfl⟩⟩
  | call request rest inductionHypothesis =>
      obtain ⟨reply, later, rfl, left⟩ :=
        @Follows.performed Q A ε β calls request (fun reply => rest reply >>= next) result follows
      obtain ⟨first, second, rfl, ended | ⟨error, failed, ended⟩⟩ :=
        inductionHypothesis reply left
      · obtain ⟨value, first', second'⟩ := ended
        exact ⟨⟨request, reply⟩ :: first, second, rfl,
          .inl ⟨value, .cons first', second'⟩⟩
      · exact ⟨⟨request, reply⟩ :: first, second, rfl,
          .inr ⟨error, .cons failed, ended⟩⟩

/-- Every reply is the one that `replies` gives after the calls before it. -/
def RepliedBy (replies : List (Called Q A) → (request : Q) → A request) :
    (past calls : List (Called Q A)) → Prop
  | _, [] => True
  | past, called :: calls => called.reply = replies past called.request ∧
      RepliedBy replies (past ++ [called]) calls

/-- Every coroutine ends, whatever the replies. -/
theorem ends (replies : List (Called Q A) → (request : Q) → A request)
    (past : List (Called Q A)) (program : Coroutine Q A ε α) :
    ∃ calls result, RepliedBy replies past calls ∧ Follows program calls (orFail result) := by
  induction program generalizing past with
  | ok value => exact ⟨[], .ok value, trivial, .nil _⟩
  | err error => exact ⟨[], .error error, trivial, .nil _⟩
  | call request rest inductionHypothesis =>
      obtain ⟨calls, result, replied, follows⟩ :=
        inductionHypothesis (replies past request) (past ++ [⟨request, replies past request⟩])
      exact ⟨⟨request, replies past request⟩ :: calls, result, ⟨rfl, replied⟩,
        .cons follows⟩

end Endings

/-! ## Interleaved runs -/

/-- How calls are answered from the shared state, and what they and the outside do to it. -/
structure Service (Q : Type) (A : Q → Type) (ω σ : Type) where
  answers : Nat → σ → (request : Q) → A request → Prop
  effect : Nat → σ → Q → σ
  disturb : ω → σ → σ

/-- A call of a coroutine, or an event outside. -/
inductive Event (Q : Type) (A : Q → Type) (ω : Type) where
  | served (task : Nat) (called : Called Q A)
  | outside (event : ω)

structure Moment (Q : Type) (A : Q → Type) (ω : Type) where
  at_ : Nat
  event : Event Q A ω

variable {ω σ : Type}

/-- The calls of one coroutine. -/
def own (task : Nat) (log : List (Moment Q A ω)) : List (Called Q A) :=
  log.filterMap fun m => match m.event with
    | .served caller called => if caller = task then some called else none
    | .outside _ => none

/-- The time of the last moment. -/
def clock (log : List (Moment Q A ω)) : Nat := (log.getLast?.map (·.at_)).getD 0

namespace Service

variable (service : Service Q A ω σ)

def apply (s : σ) (m : Moment Q A ω) : σ :=
  match m.event with
  | .served _ called => service.effect m.at_ s called.request
  | .outside event => service.disturb event s

/-- The state that a log leads to. -/
def after (initial : σ) (log : List (Moment Q A ω)) : σ := log.foldl service.apply initial

@[simp] theorem after_nil (initial : σ) : service.after initial [] = initial := rfl

theorem after_append (initial : σ) (first rest : List (Moment Q A ω)) :
    service.after initial (first ++ rest) = service.after (service.after initial first) rest :=
  List.foldl_append

theorem after_cons (initial : σ) (m : Moment Q A ω) (rest : List (Moment Q A ω)) :
    service.after initial (m :: rest) = service.after (service.apply initial m) rest := rfl

/-- What holds of the state by now came to hold at some moment, and has held ever since. -/
theorem since (holds : σ → Prop) {initial : σ} {log : List (Moment Q A ω)}
    (unset : ¬ holds initial) (now : holds (service.after initial log)) :
    ∃ first m rest, log = first ++ m :: rest ∧ ¬ holds (service.after initial first) ∧
      ∀ more later, rest = more ++ later →
        holds (service.after initial (first ++ m :: more)) := by
  induction log using List.reverseRecOn with
  | nil => exact absurd now unset
  | append_singleton log last inductionHypothesis =>
      by_cases already : holds (service.after initial log)
      · obtain ⟨first, m, rest, rfl, before, held⟩ := inductionHypothesis already
        refine ⟨first, m, rest ++ [last], by simp, before, fun more later split => ?_⟩
        obtain rfl | ⟨later, final, rfl⟩ := List.eq_nil_or_concat later
        · rw [List.append_nil] at split
          rw [← split]
          simpa using now
        · rw [List.concat_eq_append, ← List.append_assoc] at split
          exact held more later (List.append_inj' split rfl).1
      · refine ⟨log, last, [], rfl, already, fun more later split => ?_⟩
        obtain ⟨rfl, -⟩ := List.append_eq_nil_iff.mp split.symm
        exact now

end Service

/-- A run of the coroutines `program`, with a clock that never goes back. -/
inductive Trace (service : Service Q A ω σ) (initial : σ) {R : Nat → Type}
    (program : (task : Nat) → Coroutine Q A ε (R task)) : List (Moment Q A ω) → Prop where
  | nil : Trace service initial program []
  | served {log : List (Moment Q A ω)} {at_ task : Nat} {request : Q} {reply : A request}
      {rest : A request → Coroutine Q A ε (R task)} :
      Trace service initial program log → clock log ≤ at_ →
      Follows (program task) (own task log) (.call request rest) →
      service.answers at_ (service.after initial log) request reply →
      Trace service initial program (log ++ [⟨at_, .served task ⟨request, reply⟩⟩])
  | outside {log : List (Moment Q A ω)} {at_ : Nat} {event : ω} :
      Trace service initial program log → clock log ≤ at_ →
      Trace service initial program (log ++ [⟨at_, .outside event⟩])

section Logs

variable {task : Nat} {first rest log : List (Moment Q A ω)} {m : Moment Q A ω}

@[simp] theorem own_nil : own task ([] : List (Moment Q A ω)) = [] := rfl

theorem own_append : own task (first ++ rest) = own task first ++ own task rest :=
  List.filterMap_append

@[simp] theorem own_self {at_ : Nat} {called : Called Q A} :
    own task (⟨at_, .served task called⟩ :: rest : List (Moment Q A ω)) =
      called :: own task rest := by
  simp [own]

theorem own_other {at_ caller : Nat} {called : Called Q A} (other : caller ≠ task) :
    own task (⟨at_, .served caller called⟩ :: rest : List (Moment Q A ω)) = own task rest := by
  simp [own, other]

@[simp] theorem own_outside {at_ : Nat} {event : ω} :
    own task (⟨at_, .outside event⟩ :: rest : List (Moment Q A ω)) = own task rest := by
  simp [own]

/-- A call of a coroutine has its moment in the log. -/
theorem moment_of_own {before after : List (Called Q A)} {called : Called Q A}
    (split : own task log = before ++ called :: after) :
    ∃ first at_ rest, log = first ++ ⟨at_, .served task called⟩ :: rest ∧
      own task first = before ∧ own task rest = after := by
  obtain ⟨first, last, rfl, rfl, found⟩ := List.filterMap_eq_append_iff.mp split
  obtain ⟨others, m, rest, rfl, none, some, rfl⟩ := List.filterMap_eq_cons_iff.mp found
  obtain ⟨at_, event⟩ := m
  cases event with
  | outside event => exact nomatch some
  | served caller served =>
      simp only [Option.ite_none_right_eq_some, Option.some.injEq] at some
      obtain ⟨rfl, rfl⟩ := some
      refine ⟨first ++ others, at_, rest, (List.append_assoc ..).symm, ?_, rfl⟩
      have idle : own caller others = [] := List.filterMap_eq_nil_iff.mpr none
      rw [own_append, idle, List.append_nil]
      rfl

@[simp] theorem clock_append_singleton : clock (log ++ [m]) = m.at_ := by
  simp [clock]

end Logs

namespace Trace

variable {service : Service Q A ω σ} {initial : σ} {R : Nat → Type}
  {program : (task : Nat) → Coroutine Q A ε (R task)}
  {first rest log : List (Moment Q A ω)} {m m' : Moment Q A ω} {at_ task : Nat}

theorem init (trace : Trace service initial program (log ++ [m])) :
    Trace service initial program log := by
  generalize whole : log ++ [m] = all at trace
  cases trace with
  | nil => exact absurd whole (by simp)
  | served before _ _ _ =>
      obtain ⟨rfl, _⟩ := List.append_inj' whole rfl
      exact before
  | outside before _ =>
      obtain ⟨rfl, _⟩ := List.append_inj' whole rfl
      exact before

/-- What comes first in a trace is a trace. -/
theorem before (trace : Trace service initial program (first ++ rest)) :
    Trace service initial program first := by
  induction rest using List.reverseRecOn with
  | nil => rwa [List.append_nil] at trace
  | append_singleton rest m inductionHypothesis =>
      exact inductionHypothesis (init (by rwa [List.append_assoc]))

theorem upTo (trace : Trace service initial program (first ++ m :: rest)) :
    Trace service initial program (first ++ [m]) :=
  @before _ _ _ _ _ _ _ _ _ _ rest (by rwa [List.append_assoc])

/-- What is known of the last call. -/
theorem last {called : Called Q A}
    (trace : Trace service initial program (log ++ [⟨at_, .served task called⟩])) :
    (∃ next, Follows (program task) (own task log) (.call called.request next)) ∧
      service.answers at_ (service.after initial log) called.request called.reply := by
  generalize whole : log ++ [⟨at_, .served task called⟩] = all at trace
  cases trace with
  | nil => exact absurd whole (by simp)
  | served _ _ follows answered =>
      obtain ⟨rfl, same⟩ := List.append_inj' whole rfl
      cases same
      exact ⟨⟨_, follows⟩, answered⟩
  | outside _ _ => exact absurd (List.append_inj' whole rfl).2 (by simp)

/-- What is known of a call of a coroutine when it is made. -/
theorem called {called : Called Q A}
    (trace : Trace service initial program (first ++ ⟨at_, .served task called⟩ :: rest)) :
    (∃ next, Follows (program task) (own task first) (.call called.request next)) ∧
      service.answers at_ (service.after initial first) called.request called.reply :=
  trace.upTo.last

/-- Every call is allowed by those of its coroutine before it. -/
theorem allowed {called : Called Q A} {allows : List (Called Q A) → Q → Prop}
    {post : List (Called Q A) → Except ε (R task) → Prop}
    (meets : Meets allows post [] (program task))
    (trace : Trace service initial program (first ++ ⟨at_, .served task called⟩ :: rest)) :
    allows (own task first) called.request := by
  obtain ⟨_, follows⟩ := trace.called.1
  exact (follows.meets meets).1

/-- The clock never goes back. -/
theorem sorted (trace : Trace service initial program log) :
    log.Pairwise fun m m' => m.at_ ≤ m'.at_ := by
  induction trace with
  | nil => exact .nil
  | served _ later _ _ inductionHypothesis => exact latest inductionHypothesis later
  | outside _ later inductionHypothesis => exact latest inductionHypothesis later
where
  latest {log : List (Moment Q A ω)} {m : Moment Q A ω}
      (sorted : log.Pairwise fun m m' => m.at_ ≤ m'.at_) (later : clock log ≤ m.at_) :
      (log ++ [m]).Pairwise fun m m' => m.at_ ≤ m'.at_ := by
    rw [List.pairwise_append]
    refine ⟨sorted, List.pairwise_singleton .., fun m₁ member m₂ last => ?_⟩
    obtain rfl := List.mem_singleton.mp last
    refine Nat.le_trans ?_ later
    obtain ⟨init, final, rfl⟩ := List.eq_nil_or_concat log |>.resolve_left
      (List.ne_nil_of_mem member)
    rw [List.concat_eq_append] at member sorted ⊢
    rw [clock_append_singleton]
    rcases List.mem_append.mp member with earlier | same
    · exact (List.pairwise_append.mp sorted).2.2 m₁ earlier final (List.mem_singleton_self _)
    · obtain rfl := List.mem_singleton.mp same
      exact Nat.le_refl _

theorem time_le (trace : Trace service initial program (first ++ m :: rest))
    (member : m' ∈ rest) : m.at_ ≤ m'.at_ :=
  List.rel_of_pairwise_cons (List.pairwise_append.mp trace.sorted).2.1 member

/-- A later call comes no earlier than the last moment of a part of the log. -/
theorem clock_le {part : List (Moment Q A ω)}
    (trace : Trace service initial program (log ++ [m])) (part_ : part.Sublist log) :
    clock part ≤ m.at_ := by
  obtain rfl | ⟨front, final, rfl⟩ := List.eq_nil_or_concat part
  · exact Nat.zero_le _
  · rw [List.concat_eq_append] at part_ ⊢
    rw [clock_append_singleton]
    have member := part_.subset (List.mem_append_right front (List.mem_singleton_self final))
    exact (List.pairwise_append.mp trace.sorted).2.2 final member m (List.mem_singleton_self m)

section Erase

/-- The moment is not a call of a coroutine that is dropped. -/
def Kept (keep : Nat → Bool) (m : Moment Q A ω) : Bool :=
  match m.event with
  | .served task _ => keep task
  | .outside _ => true

theorem own_filter {keep : Nat → Bool} (kept : keep task = true) :
    own task (log.filter (Kept keep)) = own task log := by
  induction log with
  | nil => rfl
  | cons m rest inductionHypothesis =>
      obtain ⟨at_, event⟩ := m
      cases event with
      | outside event =>
          have stays : Kept keep (⟨at_, .outside event⟩ : Moment Q A ω) = true := rfl
          rw [List.filter_cons_of_pos stays, own_outside, own_outside, inductionHypothesis]
      | served caller called =>
          by_cases same : caller = task
          · subst same
            have stays : Kept keep (⟨at_, .served caller called⟩ : Moment Q A ω) = true := kept
            rw [List.filter_cons_of_pos stays, own_self, own_self, inductionHypothesis]
          · rw [own_other same, ← inductionHypothesis, List.filter_cons]
            split
            · exact own_other same
            · rfl

variable {keep : Nat → Bool} (agree : σ → σ → Prop)

/-- Calls that are dropped from some moment on are not missed, if they leave alone what the
others are answered from. -/
theorem erase (trace : Trace service initial program (first ++ rest))
    (start : agree (service.after initial first) (service.after initial first))
    (kept : ∀ before at_ task called after,
      rest = before ++ ⟨at_, .served task called⟩ :: after → keep task = true →
      ∀ t, agree (service.after initial (first ++ before)) t →
        service.answers at_ t called.request called.reply ∧
          agree (service.effect at_ (service.after initial (first ++ before)) called.request)
            (service.effect at_ t called.request))
    (dropped : ∀ before at_ task called after,
      rest = before ++ ⟨at_, .served task called⟩ :: after → keep task = false →
      ∀ t, agree (service.after initial (first ++ before)) t →
        agree (service.effect at_ (service.after initial (first ++ before)) called.request) t)
    (disturbed : ∀ s t event, agree s t →
      agree (service.disturb event s) (service.disturb event t)) :
    Trace service initial program (first ++ rest.filter (Kept keep)) ∧
      agree (service.after initial (first ++ rest))
        (service.after initial (first ++ rest.filter (Kept keep))) := by
  induction rest using List.reverseRecOn with
  | nil =>
      rw [List.filter_nil, List.append_nil]
      exact ⟨by simpa using trace, start⟩
  | append_singleton rest m inductionHypothesis =>
      rw [← List.append_assoc] at trace
      obtain ⟨erased, agreed⟩ := inductionHypothesis trace.before
        (fun before at_ task called after split => kept before at_ task called (after ++ [m])
          (by rw [split, List.append_assoc, List.cons_append]))
        (fun before at_ task called after split => dropped before at_ task called (after ++ [m])
          (by rw [split, List.append_assoc, List.cons_append]))
      have later := trace.clock_le ((List.Sublist.refl first).append
        (List.filter_sublist (p := Kept keep) (l := rest)))
      rw [List.filter_append, ← List.append_assoc, ← List.append_assoc,
        Service.after_append _ _ _ [m], Service.after_append _ _ _ ([m].filter _)]
      obtain ⟨at_, event⟩ := m
      cases event with
      | outside event =>
          exact ⟨.outside erased later, disturbed _ _ event agreed⟩
      | served task called =>
          by_cases stays : Kept keep (⟨at_, .served task called⟩ : Moment Q A ω) = true
          · obtain ⟨answered, agreed⟩ := kept rest at_ task called [] rfl stays _ agreed
            rw [List.filter_cons_of_pos stays, List.filter_nil]
            obtain ⟨_, follows⟩ := trace.last.1
            have same : own task (first ++ rest.filter (Kept keep)) = own task (first ++ rest) := by
              rw [own_append, own_append, own_filter stays]
            rw [← same] at follows
            exact ⟨.served erased later follows answered, agreed⟩
          · rw [List.filter_cons_of_neg stays, List.filter_nil, List.append_nil]
            exact ⟨erased, dropped rest at_ task called [] rfl (Bool.eq_false_iff.mpr stays) _
              agreed⟩

end Erase

section Unique

variable {γ : Type} {given : Called Q A → γ}

/-- What does not follow from the state: the time, the coroutine and what it is given. -/
def input (given : Called Q A → γ) (m : Moment Q A ω) : Nat × (Nat × γ ⊕ ω) :=
  (m.at_, match m.event with
    | .served task called => .inl (task, given called)
    | .outside event => .inr event)

/-- A trace is determined by its inputs. -/
theorem unique {log' : List (Moment Q A ω)}
    (exact : ∀ at_ s request (reply reply' : A request), service.answers at_ s request reply →
      service.answers at_ s request reply' →
        given ⟨request, reply⟩ = given ⟨request, reply'⟩ →
        reply = reply')
    (trace : Trace service initial program log) (trace' : Trace service initial program log')
    (same : log.map (input given) = log'.map (input given)) : log = log' := by
  induction log using List.reverseRecOn generalizing log' with
  | nil => exact (List.map_eq_nil_iff.mp same.symm).symm
  | append_singleton log m inductionHypothesis =>
      obtain rfl | ⟨log', m', rfl⟩ := List.eq_nil_or_concat log'
      · exact absurd same (by simp)
      · rw [List.concat_eq_append] at same trace' ⊢
        rw [List.map_append, List.map_append] at same
        obtain ⟨before, last⟩ := List.append_inj' same rfl
        obtain rfl := inductionHypothesis trace.before trace'.before before
        obtain ⟨at_, event⟩ := m
        obtain ⟨at', event'⟩ := m'
        cases event with
        | outside event =>
            cases event' with
            | outside event' => cases List.singleton_inj.mp last; rfl
            | served task' called' => cases List.singleton_inj.mp last
        | served task called =>
            cases event' with
            | outside event' => cases List.singleton_inj.mp last
            | served task' called' =>
                obtain ⟨request, reply⟩ := called
                obtain ⟨request', reply'⟩ := called'
                have last := List.singleton_inj.mp last
                simp only [input, Prod.mk.injEq, Sum.inl.injEq] at last
                obtain ⟨rfl, rfl, replied⟩ := last
                obtain ⟨⟨_, follows⟩, answered⟩ := trace.last
                obtain ⟨⟨_, follows'⟩, answered'⟩ := trace'.last
                cases follows.unique follows'
                obtain rfl := exact _ _ _ _ _ answered answered' replied
                rfl

end Unique

end Trace

end Coroutines
