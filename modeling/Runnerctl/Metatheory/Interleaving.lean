import Runnerctl.Metatheory.Client

/-!
# Operations beside each other

What one moment can do to the shared cache, and what a trace of operations knows of the
calls of each of them.  The generation counts the calls of `clear`, so that two readings that
agree have no `clear` between them.
-/

namespace Runnerctl

open Coroutines

/-- The cache that a log leads to. -/
abbrev cacheAfter (log : Log) : Cache := Cache.service.after Cache.default log

/-- No `clear`. -/
def Quiet (log : Log) : Prop := ∀ m ∈ log, m.event ≠ .outside ()

theorem quiet_append {first rest : Log} : Quiet (first ++ rest) ↔ Quiet first ∧ Quiet rest :=
  List.forall_mem_append

/-- The operation has calls to make. -/
def Unfinished (digest : Auth → String) (ops : Nat → GithubOp) (task : Nat)
    (log : Log) : Prop :=
  ∃ call rest, Follows ((ops task).run digest) (own task log) (.call call rest)

section Effects

variable {at_ : Nat} {cache : Cache} {call : Call} {key scope : String}

@[simp] theorem Cache.effect_generation :
    (cache.effect at_ call).generation = cache.generation := by
  cases call with
  | storeToken => simp only [effect, storeToken]; split <;> rfl
  | recordError => simp only [effect, recordError]; split <;> rfl
  | storeRunners => simp only [effect, storeRunners]; split <;> rfl
  | _ => rfl

/-- Listings are stored by `list` alone. -/
theorem Cache.effect_cache {entry : Nat × List RemoteRunner}
    (now : (cache.effect at_ call).cache (key, scope) = some entry) :
    cache.cache (key, scope) = some entry ∨
      ∃ generation runners, call = .storeRunners key scope generation runners ∧
        entry = (at_, runners) ∧ cache.generation = generation := by
  cases call with
  | storeToken => simp only [effect, storeToken] at now; split at now <;> exact .inl now
  | recordError => simp only [effect, recordError] at now; split at now <;> exact .inl now
  | dropRunners key' scope' =>
      simp only [effect, dropRunners, Function.update_apply] at now
      split at now
      · exact nomatch now
      · exact .inl now
  | storeRunners key' scope' generation runners =>
      simp only [effect, storeRunners] at now
      split at now
      · next current =>
          simp only [Function.update_apply] at now
          split at now
          · next same =>
              cases same
              exact .inr ⟨generation, runners, rfl, (Option.some.inj now).symm, current⟩
          · exact .inl now
      · exact .inl now
  | _ => exact .inl now

/-- Blocks are recorded by `response_error` alone. -/
theorem Cache.effect_blocked {entry : Nat × String}
    (now : (cache.effect at_ call).blocked key = some entry) :
    cache.blocked key = some entry ∨
      ∃ generation unauthorized wait message,
        call = .recordError key generation unauthorized (some wait) message ∧
        entry = (min (at_ + wait) u64Max, message) ∧ cache.generation = generation := by
  cases call with
  | storeToken => simp only [effect, storeToken] at now; split at now <;> exact .inl now
  | storeRunners => simp only [effect, storeRunners] at now; split at now <;> exact .inl now
  | recordError key' generation unauthorized wait message =>
      simp only [effect, recordError] at now
      split at now
      · next current =>
          cases wait with
          | none => exact .inl now
          | some wait =>
              simp only [Function.update_apply] at now
              split at now
              · next same =>
                  cases same
                  exact .inr ⟨generation, unauthorized, wait, message, rfl,
                    (Option.some.inj now).symm, current⟩
              · exact .inl now
      · exact .inl now
  | _ => exact .inl now

/-- Installation tokens are stored by `access_token` alone. -/
theorem Cache.effect_installationTokens {entry : Nat × String}
    (now : (cache.effect at_ call).installationTokens key = some entry) :
    cache.installationTokens key = some entry ∨
      ∃ generation expires token, call = .storeToken key generation expires token ∧
        entry = (expires, token) ∧ cache.generation = generation := by
  cases call with
  | storeRunners => simp only [effect, storeRunners] at now; split at now <;> exact .inl now
  | recordError key' generation unauthorized wait message =>
      simp only [effect, recordError] at now
      split at now
      · cases unauthorized with
        | false => exact .inl now
        | true =>
            simp only [if_true, Function.update_apply] at now
            split at now
            · exact nomatch now
            · exact .inl now
      · exact .inl now
  | storeToken key' generation expires token =>
      simp only [effect, storeToken] at now
      split at now
      · next current =>
          simp only [Function.update_apply] at now
          split at now
          · next same =>
              cases same
              exact .inr ⟨generation, expires, token, rfl, (Option.some.inj now).symm, current⟩
          · exact .inl now
      · exact .inl now
  | _ => exact .inl now

end Effects

section Traces

variable {digest : Auth → String} {ops : Nat → GithubOp} {log first rest : Log}
  {at_ task : Nat} {call : Call} {reply : call.Reply}

theorem Cache.after_generation_le (cache : Cache) (log : Log) :
    cache.generation ≤ (service.after cache log).generation := by
  induction log generalizing cache with
  | nil => exact Nat.le_refl _
  | cons m rest inductionHypothesis =>
      refine Nat.le_trans ?_ (inductionHypothesis (service.apply cache m))
      obtain ⟨at_, event⟩ := m
      cases event with
      | served task called => exact Nat.le_of_eq effect_generation.symm
      | outside event => exact Nat.le_succ _

/-- There is no `clear` where the generation has not changed. -/
theorem Cache.quiet_of_generation {cache : Cache} {log : Log}
    (same : (service.after cache log).generation = cache.generation) : Quiet log := by
  induction log generalizing cache with
  | nil => nofun
  | cons m rest inductionHypothesis =>
      obtain ⟨at_, event⟩ := m
      cases event with
      | served task called =>
          refine List.forall_mem_cons.mpr ⟨nofun, inductionHypothesis (Eq.trans same ?_)⟩
          exact effect_generation.symm
      | outside event =>
          have grown := after_generation_le (service.apply cache ⟨at_, .outside event⟩) rest
          exact absurd same (Nat.ne_of_gt (Nat.lt_of_succ_le grown))

/-- Without `clear` the generation does not change. -/
theorem Cache.generation_of_quiet {cache : Cache} {log : Log} (quiet : Quiet log) :
    (service.after cache log).generation = cache.generation := by
  induction log generalizing cache with
  | nil => rfl
  | cons m rest inductionHypothesis =>
      obtain ⟨notClear, others⟩ := List.forall_mem_cons.mp quiet
      obtain ⟨at_, event⟩ := m
      cases event with
      | served task called => exact (inductionHypothesis others).trans effect_generation
      | outside event => exact absurd rfl notClear

/-- What is known of a call of an operation when it is made. -/
theorem Interleaved.orderly
    (run : Interleaved digest ops (first ++ ⟨at_, .served task ⟨call, reply⟩⟩ :: rest)) :
    Orderly digest (ops task) (own task first) call :=
  Trace.allowed (run_meets digest (ops task)) run

/-- An operation that goes on later has calls to make. -/
theorem Interleaved.unfinished
    {middle : Log} {called : Receipt}
    (run : Interleaved digest ops (first ++ middle ++ ⟨at_, .served task called⟩ :: rest)) :
    Unfinished digest ops task first := by
  obtain ⟨next, follows⟩ := run.called.1
  rw [own_append] at follows
  obtain ⟨left, before, after⟩ := follows.split
  generalize own task middle = calls at after
  cases after with
  | nil => exact ⟨_, _, before⟩
  | cons => exact ⟨_, _, before⟩

/-- A section replies from the cache. -/
theorem Interleaved.replied
    (run : Interleaved digest ops (first ++ ⟨at_, .served task ⟨call, reply⟩⟩ :: rest))
    {due : call.Reply} (section_ : (cacheAfter first).reply at_ call = some due) :
    reply = due :=
  run.called.2 due section_

/-- A listing that is served from the cache is the one that is stored there. -/
theorem Interleaved.cached {key scope : String} {ttl : Nat} {runners : List RemoteRunner}
    (run : Interleaved digest ops
      (first ++ ⟨at_, .served task ⟨.cached key scope ttl, some runners⟩⟩ :: rest)) :
    ∃ stored, (cacheAfter first).cache (key, scope) = some (stored, runners) ∧
      at_ - stored < ttl := by
  have hit : some runners = _ := Interleaved.replied run rfl
  split at hit
  · next stored kept found =>
      split at hit
      · next young =>
          cases hit
          exact ⟨stored, found, young⟩
      · exact nomatch hit
  · exact nomatch hit

/-- A request goes on once its credential is not blocked any more. -/
theorem Interleaved.unblocked {key text : String} {until_ : Nat}
    (run : Interleaved digest ops (first ++
      ⟨at_, .served task ⟨.blocked key, none⟩⟩ :: rest))
    (blocked : (cacheAfter first).blocked key = some (until_, text)) : until_ ≤ at_ := by
  have passed : none = _ := Interleaved.replied run rfl
  rw [blocked] at passed
  dsimp only at passed
  split at passed
  · exact nomatch passed
  · next past => exact Nat.not_lt.mp past

/-- What holds of the cache, and of no cache that was just cleared, came with a call, and
there was no `clear` since. -/
theorem cause (holds : Cache → Prop) (cleared : ∀ cache : Cache, ¬ holds cache.clear)
    (unset : ¬ holds Cache.default) (now : holds (cacheAfter log)) :
    ∃ first at_ task called rest, log = first ++ ⟨at_, .served task called⟩ :: rest ∧
      Quiet rest ∧ ¬ holds (cacheAfter first) ∧
      holds ((cacheAfter first).effect at_ called.request) := by
  obtain ⟨first, ⟨at_, event⟩, rest, rfl, before, held⟩ :=
    Cache.service.since holds unset now
  have after := held [] rest rfl
  rw [Service.after_append, Service.after_cons, Service.after_nil] at after
  cases event with
  | outside event => exact absurd after (cleared _)
  | served task called =>
      refine ⟨first, at_, task, called, rest, rfl, fun m member clear => ?_, before, after⟩
      obtain ⟨more, later, rfl⟩ := List.append_of_mem member
      obtain ⟨again, event⟩ := m
      cases clear
      have still := held (more ++ [⟨again, .outside ()⟩]) later (by simp)
      rw [List.append_cons, ← List.append_assoc, Service.after_append, Service.after_cons,
        Service.after_nil] at still
      exact cleared _ still

/-- The generation that a call of an operation was given is that of the cache by then, and
there was no `clear` since if the cache still has it. -/
theorem Interleaved.quiet_since {generation : Nat} {before since : List Receipt}
    (run : Interleaved digest ops log)
    (past : own task log = before ++ ⟨.generation, generation⟩ :: since)
    (same : (cacheAfter log).generation = generation) :
    ∃ first at_ middle,
      log = first ++ ⟨at_, .served task ⟨.generation, generation⟩⟩ :: middle ∧
      Quiet middle ∧ own task first = before ∧ own task middle = since := by
  obtain ⟨first, at_, middle, rfl, before, since⟩ := moment_of_own past
  have read := Interleaved.replied run rfl
  refine ⟨first, at_, middle, rfl, ?_, before, since⟩
  rw [cacheAfter, Service.after_append, Service.after_cons] at same
  exact Cache.quiet_of_generation (same.trans read)

end Traces

/-! ## Runs from a script -/

/-- What the outside gives in reply to a call. -/
inductive Given where
  | nothing
  | secret (outcome : Except String String)
  | response (response : Option HttpResponse)
  deriving DecidableEq

def Call.receive : (call : Call) → Given → Option call.Reply
  | .credential _, .secret outcome | .appJwt _, .secret outcome => some outcome
  | .send _ _ _, .response response | .exchange _ _, .response response => some response
  | _, _ => none

/-- The next call of an operation, or `clear`. -/
inductive Cue where
  | next (at_ task : Nat) (given : Given)
  | clear (at_ : Nat)

section Scripts

variable (digest : Auth → String) (ops : Nat → GithubOp)

def takeCue (log : Log) : Cue → Option Log
  | .clear at_ => if clock log ≤ at_ then some (log ++ [⟨at_, .outside ()⟩]) else none
  | .next at_ task given =>
      match ((ops task).run digest).replay (own task log) with
      | some (.call call _) =>
          if clock log ≤ at_ then
            match (cacheAfter log).reply at_ call with
            | some due => some (log ++ [⟨at_, .served task ⟨call, due⟩⟩])
            | none => (call.receive given).map fun reply =>
                log ++ [⟨at_, .served task ⟨call, reply⟩⟩]
          else none
      | _ => none

variable {digest ops}

theorem Interleaved.takeCue {log log' : Log} {cue : Cue} (run : Interleaved digest ops log)
    (taken : takeCue digest ops log cue = some log') : Interleaved digest ops log' := by
  cases cue with
  | clear at_ =>
      simp only [Runnerctl.takeCue, Option.ite_none_right_eq_some, Option.some.injEq] at taken
      obtain ⟨later, rfl⟩ := taken
      exact .outside run later
  | next at_ task given =>
      rw [Runnerctl.takeCue] at taken
      split at taken
      · next call rest replayed =>
          split at taken
          · next later =>
              have follows := follows_of_replay replayed
              split at taken
              · next due section_ =>
                  cases taken
                  refine .served run later follows fun other same => ?_
                  exact Option.some.inj (section_.symm.trans same)
              · next outside =>
                  obtain ⟨reply, -, rfl⟩ := Option.map_eq_some_iff.mp taken
                  refine .served run later follows fun other same => ?_
                  exact nomatch outside.symm.trans same
          · exact nomatch taken
      · exact nomatch taken

/-- A script that can be followed is a run. -/
theorem interleaved_of_script (digest : Auth → String) (ops : Nat → GithubOp)
    (cues : List Cue) (holds : Log → Bool)
    (found : (cues.foldlM (takeCue digest ops) []).any holds = true) :
    ∃ log, Interleaved digest ops log ∧ holds log = true := by
  obtain ⟨log, played, holding⟩ := (Option.any_eq_true ..).mp found
  refine ⟨log, ?_, holding⟩
  have follows : ∀ first : Log, Interleaved digest ops first →
      cues.foldlM (takeCue digest ops) first = some log → Interleaved digest ops log := by
    clear found played
    induction cues with
    | nil =>
        intro first run played
        cases played
        exact run
    | cons cue rest inductionHypothesis =>
        intro first run played
        obtain ⟨second, taken, played⟩ := Option.bind_eq_some_iff.mp played
        exact inductionHypothesis second (run.takeCue taken) played
  exact follows [] .nil played

end Scripts

end Runnerctl
