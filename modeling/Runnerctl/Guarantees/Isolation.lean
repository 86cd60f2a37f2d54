import Runnerctl.Metatheory.Interleaving

/-!
# Credentials of their own

Tokens, blocks and listings are kept under the key of a credential, so that the operations
of one credential run as if there were no others.  An error that does not block leaves
nothing behind at all.
-/

namespace Runnerctl

open Coroutines

/-- The key that a critical section works under. -/
def Call.key : Call → Option String
  | .installationToken key | .blocked key | .cached key _ _ | .storeToken key _ _ _
  | .recordError key _ _ _ _ | .storeRunners key _ _ _ | .dropRunners key _ => some key
  | _ => none

/-- A call to the outside. -/
def Call.outer : Call → Bool
  | .credential _ | .appJwt _ | .send _ _ _ | .exchange _ _ => true
  | _ => false

/-- A section that changes the cache, `response_error` apart. -/
def Call.stores : Call → Bool
  | .storeToken _ _ _ _ | .storeRunners _ _ _ _ | .dropRunners _ _ => true
  | _ => false

/-- What the outside gives with a call. -/
def Receipt.given : Receipt → Given
  | ⟨.credential _, outcome⟩ | ⟨.appJwt _, outcome⟩ => .secret outcome
  | ⟨.send _ _ _, response⟩ | ⟨.exchange _ _, response⟩ => .response response
  | _ => .nothing

/-- The operation is on behalf of the profile and the credential. -/
def OnBehalf (ops : Nat → GithubOp) (profile : String) (auth : Auth) (task : Nat) : Bool :=
  decide ((ops task).profile = profile ∧ (ops task).auth = auth)

/-- The moments of a log that are not calls of the operation. -/
def without (task : Nat) (log : Log) : Log :=
  log.filter (Trace.Kept fun other => decide (other ≠ task))

/-- Nothing was stored since the outside was called last. -/
def Spent (past : List Receipt) : Prop :=
  ∀ before since, past = before ++ since →
    (∀ called ∈ since, called.request.outer = false) →
    ∀ called ∈ since, called.request.stores = false

/-! ## Failed operations -/

section Failures

variable {digest : Auth → String} {profile scope : String} {auth : Auth} {past : List Receipt}

theorem Spent.nil : Spent [] := by
  intro before since split _ called member
  obtain ⟨-, rfl⟩ := List.append_eq_nil_iff.mp split.symm
  exact nomatch member

theorem Spent.outer {called : Receipt} (outer : called.request.outer = true) :
    Spent (past ++ [called]) := by
  intro before since split inner
  obtain rfl | ⟨since, last, rfl⟩ := List.eq_nil_or_concat since
  · exact nofun
  · rw [List.concat_eq_append, ← List.append_assoc] at split
    obtain rfl := List.singleton_inj.mp (List.append_inj' split rfl).2
    exact absurd (inner called (by simp)) (by simp [outer])

theorem Spent.concat {called : Receipt} (spent : Spent past)
    (pure_ : called.request.stores = false) : Spent (past ++ [called]) := by
  intro before since split inner
  obtain rfl | ⟨since, last, rfl⟩ := List.eq_nil_or_concat since
  · exact nofun
  · rw [List.concat_eq_append, ← List.append_assoc] at split
    rw [List.concat_eq_append] at inner ⊢
    obtain ⟨rfl, same⟩ := List.append_inj' split rfl
    obtain rfl := List.singleton_inj.mp same
    have others := spent before since rfl fun other member =>
      inner other (List.mem_append_left _ member)
    exact List.forall_mem_append.mpr ⟨others, List.forall_mem_singleton.mpr pure_⟩

/-- What an operation has stored when it fails. -/
abbrev FailsSpent {α : Type} (past : List Receipt) (program : Action α) : Prop :=
  Meets (fun _ _ => True) (fun past result => ∀ error, result = .error error → Spent past)
    past program

theorem failsSpent_await {β : Type} {call : Call} {next : call.Reply → Action β}
    (rest : ∀ reply, FailsSpent (past ++ [⟨call, reply⟩]) (next reply)) :
    FailsSpent past (call.await >>= next) :=
  meets_await trivial rest

theorem responseError_spent {α : Type} {key context : String} {response : HttpResponse}
    {generation : Nat} (spent : Spent past) :
    Meets (fun _ _ => True) (fun past _ => Spent past) past
      (Github.responseError response key generation context : Action α) := by
  have records : ∀ {past wait message}, Spent past →
      Meets (fun _ _ => True) (fun past _ => Spent past) past
        ((Call.recordError key generation (response.status == 401) wait message).await >>=
          fun _ => (.err message : Action α)) := fun spent =>
    meets_await trivial fun _ => spent.concat rfl
  unfold Github.responseError
  dsimp only
  split
  · cases response.retryAfter.bind parseU64 with
    | some delay => exact records spent
    | none =>
        refine meets_await trivial fun _ => meets_await trivial fun _ => records ?_
        exact (spent.concat rfl).concat rfl
  · split <;> exact records spent

theorem accessToken_spent (spent : Spent past) :
    FailsSpent past (Github.accessToken digest profile auth) := by
  unfold Github.accessToken
  cases auth.app with
  | none =>
      refine failsSpent_await fun outcome => ?_
      cases outcome with
      | error error => exact fun _ _ => spent.concat rfl
      | ok token => exact nofun
  | some app =>
      refine failsSpent_await fun generation => failsSpent_await fun cached => ?_
      cases cached with
      | some token => exact nofun
      | none =>
          refine failsSpent_await fun outcome => ?_
          cases outcome with
          | error error => exact fun _ _ => .outer rfl
          | ok jwt =>
              refine failsSpent_await fun reply => ?_
              cases reply with
              | none => exact fun _ _ => .outer rfl
              | some response =>
                  dsimp only
                  split
                  · exact (responseError_spent (.outer rfl)).mono fun _ _ spent _ _ => spent
                  · cases response.body with
                    | none => exact fun _ _ => .outer rfl
                    | some data =>
                        dsimp only
                        split
                        · exact fun _ _ => .outer rfl
                        · exact fun _ _ => .outer rfl
                        · exact failsSpent_await fun _ error failed => by cases failed

/-- A request ends with its response, unless it fails before. -/
theorem request_spent (method : Method) (path : String) (spent : Spent past) :
    Meets (fun _ _ => True) (fun past _ => Spent past) past
      (Github.request digest profile auth method path) := by
  unfold Github.request
  refine meets_await trivial fun generation => meets_await trivial fun block => ?_
  have looked : Spent (past ++ [⟨.generation, generation⟩] ++ [⟨.blocked _, block⟩]) :=
    (spent.concat rfl).concat rfl
  cases block with
  | some block => exact looked
  | none =>
      refine (accessToken_spent looked).bind (fun past' token _ => ?_)
        fun _ error failed => failed error rfl
      refine meets_await trivial fun reply => ?_
      cases reply with
      | none => exact Spent.outer rfl
      | some response =>
          dsimp only
          split
          · exact responseError_spent (.outer rfl)
          · split
            · exact Spent.outer rfl
            · split
              · exact Spent.outer rfl
              · cases response.body with
                | none => exact Spent.outer rfl
                | some data => exact Spent.outer rfl

theorem listPages_spent {generation : Nat} (pages page : Nat) (runners : List RemoteRunner)
    (spent : Spent past) :
    FailsSpent past (Github.listPages digest profile auth scope generation pages page runners) := by
  induction pages generalizing past page runners with
  | zero => exact fun _ _ => spent
  | succ pages inductionHypothesis =>
      unfold Github.listPages
      refine (request_spent _ _ spent).bind (fun past' data requested => ?_)
        fun _ _ failed _ _ => failed
      cases data.runners with
      | none => exact fun _ _ => requested
      | some outcome =>
          cases outcome with
          | error failure => exact fun _ _ => requested
          | ok batch =>
              dsimp only
              split
              · exact failsSpent_await fun _ error failed => by cases failed
              · exact inductionHypothesis (page + 1) (runners ++ batch) requested

/-- An operation that fails has stored nothing since it called the outside last. -/
theorem run_spent (digest : Auth → String) (op : GithubOp) : FailsSpent [] (op.run digest) := by
  cases op with
  | list profile auth scope ttl =>
      refine failsSpent_await fun generation => failsSpent_await fun cached => ?_
      cases cached with
      | some runners => exact nofun
      | none => exact listPages_spent 10000 1 [] ((Spent.nil.concat rfl).concat rfl)
  | token profile auth scope =>
      refine (request_spent _ _ .nil).bind (fun past' data requested => ?_)
        fun _ _ failed _ _ => failed
      cases data.token with
      | none => exact fun _ _ => requested
      | some token => exact nofun
  | remove profile auth scope id =>
      refine (request_spent _ _ .nil).bind (fun past' data requested => ?_)
        fun _ _ failed _ _ => failed
      exact failsSpent_await fun _ => nofun

end Failures

/-! ## The part of one credential -/

/-- The caches have the same under `key`. -/
structure Agree (key : String) (s t : Cache) : Prop where
  cache : ∀ scope, s.cache (key, scope) = t.cache (key, scope)
  blocked : s.blocked key = t.blocked key
  installationTokens : s.installationTokens key = t.installationTokens key
  generation : s.generation = t.generation

section Agreement

variable {key : String} {s t : Cache} {at_ : Nat} {call : Call}

theorem Agree.rfl' (s : Cache) : Agree key s s := ⟨fun _ => rfl, rfl, rfl, rfl⟩

theorem Agree.clear (agree : Agree key s t) : Agree key s.clear t.clear :=
  ⟨fun _ => rfl, rfl, rfl, congrArg (· + 1) agree.generation⟩

/-- Sections under the key reply the same. -/
theorem Agree.reply (agree : Agree key s t)
    (under : ∀ key', call.key = some key' → key' = key) :
    s.reply at_ call = t.reply at_ call := by
  cases call with
  | generation => exact congrArg some agree.generation
  | installationToken key' =>
      obtain rfl := under key' rfl
      simp only [Cache.reply, agree.installationTokens]
  | blocked key' =>
      obtain rfl := under key' rfl
      simp only [Cache.reply, agree.blocked]
  | cached key' scope ttl =>
      obtain rfl := under key' rfl
      simp only [Cache.reply, agree.cache]
  | _ => rfl

/-- One section on both. -/
theorem Agree.effect (agree : Agree key s t) (call : Call) :
    Agree key (s.effect at_ call) (t.effect at_ call) := by
  obtain ⟨cache, blocked, tokens, generation⟩ := agree
  cases call with
  | storeToken key' generation' expires token =>
      simp only [Cache.effect, Cache.storeToken, generation]
      split
      · exact ⟨cache, blocked, by simp only [Function.update_apply, tokens], rfl⟩
      · exact ⟨cache, blocked, tokens, generation⟩
  | recordError key' generation' unauthorized wait message =>
      simp only [Cache.effect, Cache.recordError, generation]
      split
      · refine ⟨cache, ?_, ?_, rfl⟩
        · cases wait with
          | none => exact blocked
          | some wait => simp only [Function.update_apply, blocked]
        · cases unauthorized with
          | false => exact tokens
          | true => simp only [if_true, Function.update_apply, tokens]
      · exact ⟨cache, blocked, tokens, generation⟩
  | storeRunners key' scope generation' runners =>
      simp only [Cache.effect, Cache.storeRunners, generation]
      split
      · exact ⟨fun _ => by simp only [Function.update_apply, cache], blocked, tokens, rfl⟩
      · exact ⟨cache, blocked, tokens, generation⟩
  | dropRunners key' scope =>
      exact ⟨fun _ => by simp only [Cache.effect, Cache.dropRunners,
        Function.update_apply, cache],
        blocked, tokens, generation⟩
  | _ => exact ⟨cache, blocked, tokens, generation⟩

/-- A section under another key. -/
theorem Agree.aside (agree : Agree key s t) (other : call.key ≠ some key) :
    Agree key (s.effect at_ call) t := by
  obtain ⟨cache, blocked, tokens, generation⟩ := agree
  have apart : ∀ {key'}, call.key = some key' → key ≠ key' := fun under same =>
    other (under.trans (congrArg some same.symm))
  cases call with
  | storeToken key' generation' expires token =>
      have moved := Function.update_of_ne (apart rfl) (some (expires, token)) s.installationTokens
      simp only [Cache.effect, Cache.storeToken]
      split
      · exact ⟨cache, blocked, moved.trans tokens, generation⟩
      · exact ⟨cache, blocked, tokens, generation⟩
  | recordError key' generation' unauthorized wait message =>
      simp only [Cache.effect, Cache.recordError]
      split
      · refine ⟨cache, ?_, ?_, generation⟩
        · cases wait with
          | none => exact blocked
          | some wait => exact (Function.update_of_ne (apart rfl) _ s.blocked).trans blocked
        · cases unauthorized with
          | false => exact tokens
          | true => exact (Function.update_of_ne (apart rfl) none s.installationTokens).trans tokens
      · exact ⟨cache, blocked, tokens, generation⟩
  | storeRunners key' scope generation' runners =>
      have away : ∀ scope', (key, scope') ≠ (key', scope) := fun _ same =>
        apart rfl (congrArg Prod.fst same)
      simp only [Cache.effect, Cache.storeRunners]
      split
      · exact ⟨fun scope' => (Function.update_of_ne (away scope') _ s.cache).trans
          (cache scope'),
          blocked, tokens, generation⟩
      · exact ⟨cache, blocked, tokens, generation⟩
  | dropRunners key' scope =>
      have away : ∀ scope', (key, scope') ≠ (key', scope) := fun _ same =>
        apart rfl (congrArg Prod.fst same)
      simp only [Cache.effect, Cache.dropRunners]
      exact ⟨fun scope' => (Function.update_of_ne (away scope') none s.cache).trans
        (cache scope'),
        blocked, tokens, generation⟩
  | _ => exact ⟨cache, blocked, tokens, generation⟩

end Agreement

section Isolation

variable {digest : Auth → String} {ops : Nat → GithubOp} {log log' first rest : Log}
  {at_ task : Nat} {call : Call} {past : List Receipt} {profile profile' : String}
  {auth auth' : Auth} {op : GithubOp}

/-- Digests have one length, so that a key is that of one profile and digest. -/
theorem authKey_inj (length : ∀ auth, (digest auth).length = 64)
    (same : Github.authKey digest profile auth = Github.authKey digest profile' auth') :
    profile = profile' ∧ digest auth = digest auth' := by
  have lists := congrArg String.toList same
  simp only [Github.authKey, String.toList_append] at lists
  obtain ⟨front, back⟩ := List.append_inj' lists (by
    rw [String.length_toList, String.length_toList, length, length])
  exact ⟨String.toList_injective (List.append_inj' front rfl).1, String.toList_injective back⟩

/-- An operation works under its own key. -/
theorem Orderly.key {key : String} (orderly : Orderly digest op past call)
    (under : call.key = some key) : key = op.key digest := by
  cases call with
  | installationToken key' | blocked key' =>
      cases under
      exact orderly.2
  | cached key' scope ttl | storeToken key' generation expires token
  | storeRunners key' scope generation runners | dropRunners key' scope =>
      cases under
      exact orderly.2.1
  | recordError key' generation unauthorized wait message =>
      cases under
      exact orderly.1
  | _ => exact nomatch under

/-- The part of a run that concerns one credential is a run of its own. -/
theorem Interleaved.part (profile : String) (run : Interleaved digest ops log)
    (length : ∀ auth, (digest auth).length = 64)
    (collisionFree : ∀ task, digest (ops task).auth = digest auth → (ops task).auth = auth) :
    Interleaved digest ops (log.filter (Trace.Kept (OnBehalf ops profile auth))) := by
  have run' : Interleaved digest ops ([] ++ log) := run
  refine (run'.erase (Agree (Github.authKey digest profile auth)) (.rfl' _) ?_ ?_ ?_).1
  · rintro before at_ task ⟨call, reply⟩ after rfl kept t agree
    obtain ⟨rfl, rfl⟩ := of_decide_eq_true kept
    have under : ∀ key, call.key = some key → key = (ops task).key digest :=
      fun key => (Interleaved.orderly run).key
    refine ⟨fun due due' => Interleaved.replied run ?_, agree.effect _⟩
    exact (agree.reply under).trans due'
  · rintro before at_ task ⟨call, reply⟩ after rfl dropped t agree
    refine agree.aside fun under => of_decide_eq_false dropped ?_
    have same := (Interleaved.orderly run).key under
    obtain ⟨profiles, digests⟩ := authKey_inj length same
    exact ⟨profiles.symm, collisionFree task digests.symm⟩
  · exact fun _ _ _ agree => agree.clear

/-- With the same replies from the outside, sections reply the same. -/
theorem reply_of_given {cache : Cache} {reply reply' : call.Reply}
    (answered : Cache.service.answers at_ cache call reply)
    (answered' : Cache.service.answers at_ cache call reply')
    (same : Receipt.given ⟨call, reply⟩ = Receipt.given ⟨call, reply'⟩) :
    reply = reply' := by
  cases call with
  | credential _ | appJwt _ => exact Given.secret.inj same
  | send _ _ _ | exchange _ _ => exact Given.response.inj same
  | _ => exact (answered _ rfl).trans (answered' _ rfl).symm

/-- What an operation does after it has heard from the outside last leaves the cache as it is,
if it fails with an error that does not block. -/
theorem Interleaved.harmless {called : Receipt}
    (run : Interleaved digest ops (first ++ ⟨at_, .served task called⟩ :: rest))
    (inner : called.request.outer = false) (unstored : called.request.stores = false)
    (unblocking : ∀ answered ∈ own task first, ∀ response,
      Receipt.failure answered = some response → ¬ response.Blocks) (cache : Cache) :
    cache.effect at_ called.request = cache := by
  obtain ⟨call, reply⟩ := called
  cases call with
  | recordError key generation unauthorized wait message =>
      obtain ⟨-, response, nows, failing, rfl, sentence, -⟩ := Interleaved.orderly run
      obtain ⟨before, answered, past, failed, -⟩ := failing
      have calm : ¬ response.Blocks := unblocking answered (by simp [past]) response failed
      have authorized : (response.status == 401) = false :=
        beq_eq_false_iff_ne.mpr fun denied => calm (.inr (.inl denied))
      cases wait with
      | some wait => exact absurd sentence.blocks calm
      | none =>
          simp only [Cache.effect, Cache.recordError, authorized]
          split <;> rfl
  | storeToken _ _ _ _ | storeRunners _ _ _ _ | dropRunners _ _ => cases unstored
  | _ => rfl

theorem Interleaved.without_failed {message : String}
    (run : Interleaved digest ops (first ++ rest))
    (failed : Follows ((ops task).run digest) (own task (first ++ rest)) (.err message))
    (inner : ∀ called ∈ own task rest, called.request.outer = false)
    (unblocking : ∀ answered ∈ own task (first ++ rest), ∀ response,
      Receipt.failure answered = some response → ¬ response.Blocks) :
    Interleaved digest ops (first ++ without task rest) ∧
      cacheAfter (first ++ rest) = cacheAfter (first ++ without task rest) := by
  have spent := failed.meets (run_spent digest (ops task)) message rfl
  have unstored := spent _ _ (own_append ..) inner
  refine Trace.erase Eq run rfl ?_ ?_ fun _ _ _ same => congrArg _ same
  · rintro before at_ other called after rfl - t rfl
    rw [← List.append_assoc] at run
    exact ⟨run.called.2, rfl⟩
  · rintro before at_ other called after rfl dropped t rfl
    obtain rfl : other = task := not_not.mp (of_decide_eq_false dropped)
    have member : called ∈ own other (before ++ ⟨at_, .served other called⟩ :: after) := by
      rw [own_append, own_self]
      simp
    rw [← List.append_assoc] at run
    refine Interleaved.harmless run (inner called member) (unstored called member) ?_ _
    intro answered past
    refine unblocking answered ?_
    rw [← List.append_assoc, own_append]
    exact List.mem_append_left _ past

/-- The operations of one credential send the same and return the same in two runs that
differ in the others.  An operation that fails with an error that does not block could as
well have stopped when it heard from the outside last: everything else runs the same. -/
theorem credentials_isolated (length : ∀ auth, (digest auth).length = 64)
    (collisionFree : ∀ task, digest (ops task).auth = digest auth → (ops task).auth = auth)
    (run : Interleaved digest ops log) (run' : Interleaved digest ops log')
    (same : (log.filter (Trace.Kept (OnBehalf ops profile auth))).map (Trace.input Receipt.given) =
      (log'.filter (Trace.Kept (OnBehalf ops profile auth))).map (Trace.input Receipt.given)) :
    (∀ task, (ops task).profile = profile → (ops task).auth = auth →
      own task log = own task log' ∧ ∀ left,
        Follows ((ops task).run digest) (own task log) left ↔
          Follows ((ops task).run digest) (own task log') left) ∧
    ∀ task message first rest, log = first ++ rest →
      Follows ((ops task).run digest) (own task log) (.err message) →
      (∀ called ∈ own task rest, called.request.outer = false) →
      (∀ answered ∈ own task log, ∀ response,
        Receipt.failure answered = some response → ¬ response.Blocks) →
      Interleaved digest ops (first ++ without task rest) ∧
        cacheAfter (first ++ without task rest) = cacheAfter log ∧
        ∀ other, other ≠ task → own other (first ++ without task rest) = own other log := by
  constructor
  · intro task profiles auths
    have part := run.part profile length collisionFree
    have part' := run'.part profile length collisionFree
    have equal := Trace.unique (fun _ _ _ _ _ => reply_of_given) part part' same
    have kept : OnBehalf ops profile auth task = true := decide_eq_true ⟨profiles, auths⟩
    have calls : own task log = own task log' := by
      rw [← Trace.own_filter kept, equal, Trace.own_filter kept]
    exact ⟨calls, fun left => by rw [calls]⟩
  · rintro task message first rest rfl failed inner unblocking
    obtain ⟨erased, cache⟩ := run.without_failed failed inner unblocking
    refine ⟨erased, cache.symm, fun other differs => ?_⟩
    rw [own_append, own_append, without, Trace.own_filter (decide_eq_true differs)]

end Isolation

/-- A digest that is long enough, for credentials that are short. -/
def paddedDigest (auth : Auth) : String :=
  String.ofList ((auth.credential.toList ++ List.replicate 64 '0').take 64)

/-- Operation 0 asks for a token with the credential `a`, and the others with `b`. -/
def neighbours (task : Nat) : GithubOp :=
  if task = 0 then .token "p" ⟨"a", none⟩ "" else .token "p" ⟨"b", none⟩ ""

/-- A response with this status. -/
def HttpResponse.plain (status : Nat) (shown : String) : HttpResponse :=
  ⟨status, shown, none, none, none, none⟩

/-- Operation 1 is sent a response, and looks at the clock if that is a rate limit. -/
def neighbourCues (response : HttpResponse) (nows : Nat) : List Cue :=
  [.next 0 1 .nothing, .next 0 1 .nothing, .next 0 1 (.secret (.ok "")),
    .next 0 1 (.response (some response))] ++ List.replicate nows (.next 0 1 .nothing) ++
  [.next 0 1 .nothing, .next 1 0 .nothing, .next 1 0 .nothing, .next 1 0 (.secret (.ok "")),
    .next 1 0 (.response (some (.plain 503 "503 Service Unavailable"))), .next 1 0 .nothing]

/-- What operation 0 is given. -/
def neighbourInputs : List (Nat × (Nat × Given ⊕ Unit)) :=
  [.nothing, .nothing, .secret (.ok ""), .response (some (.plain 503 "503 Service Unavailable")),
    .nothing].map fun given => (1, .inl (0, given))

/-- The responses to an operation that it fails with do not block. -/
def unblocking (task : Nat) (log : Log) : Bool :=
  (own task log).all fun answered => (Receipt.failure answered).all fun response =>
    !decide response.Blocks

/-- Operation 0 is given these inputs, and records its failure last. -/
def failsAlike (log : Log) : Bool :=
  decide ((log.filter (Trace.Kept (OnBehalf neighbours "p" ⟨"a", none⟩))).map
    (Trace.input Receipt.given) = neighbourInputs) && unblocking 0 log &&
  match ((neighbours 0).run paddedDigest).replay (own 0 log), log.getLast? with
  | some (.err _), some ⟨_, .served 0 ⟨.recordError _ _ _ _ _, _⟩⟩ => true
  | _, _ => false

theorem failsAlike_inputs {log : Log} (fails : failsAlike log = true) :
    (log.filter (Trace.Kept (OnBehalf neighbours "p" ⟨"a", none⟩))).map
      (Trace.input Receipt.given) = neighbourInputs := by
  simp only [failsAlike, Bool.and_eq_true] at fails
  exact of_decide_eq_true fails.1.1

theorem failsAlike_split {log : Log} (fails : failsAlike log = true) :
    ∃ message at_ key generation unauthorized wait text, log = log.dropLast ++
        [⟨at_, .served 0 ⟨.recordError key generation unauthorized wait text, ()⟩⟩] ∧
      Follows ((neighbours 0).run paddedDigest) (own 0 log) (.err message) ∧
      ∀ answered ∈ own 0 log, ∀ response,
        Receipt.failure answered = some response → ¬ response.Blocks := by
  simp only [failsAlike, Bool.and_eq_true] at fails
  obtain ⟨⟨-, calm⟩, fails⟩ := fails
  split at fails
  · next message at_ key generation unauthorized wait text reply replayed last =>
      refine ⟨message, at_, key, generation, unauthorized, wait, text, ?_,
        follows_of_replay replayed, fun answered member response failed => ?_⟩
      · exact (List.dropLast_append_getLast? _ last).symm
      · have judged := List.all_eq_true.mp calm answered member
        rw [failed, Option.all_some, Bool.not_eq_true'] at judged
        exact of_decide_eq_false judged
  · exact absurd fails Bool.false_ne_true

/-- The rate limit of one credential is not seen by another, and an error of that other one
could as well not have been recorded. -/
theorem credentials_isolated_sample : ∃ log log' : Log,
    ((cacheAfter log).blocked (Github.authKey paddedDigest "p" ⟨"b", none⟩)).isSome ∧
      ((cacheAfter log').blocked (Github.authKey paddedDigest "p" ⟨"b", none⟩)).isNone ∧
      own 0 log = own 0 log' ∧ Interleaved paddedDigest neighbours log.dropLast := by
  obtain ⟨log, run, checked⟩ := interleaved_of_script paddedDigest neighbours
    (neighbourCues (.plain 429 "429 Too Many Requests") 2)
    (fun log => failsAlike log &&
      ((cacheAfter log).blocked (Github.authKey paddedDigest "p" ⟨"b", none⟩)).isSome)
    (by decide +kernel)
  obtain ⟨log', run', checked'⟩ := interleaved_of_script paddedDigest neighbours
    (neighbourCues (.plain 500 "500 Internal Server Error") 0)
    (fun log => failsAlike log &&
      ((cacheAfter log).blocked (Github.authKey paddedDigest "p" ⟨"b", none⟩)).isNone)
    (by decide +kernel)
  rw [Bool.and_eq_true] at checked checked'
  obtain ⟨fails, blocked⟩ := checked
  obtain ⟨fails', unblocked⟩ := checked'
  have length : ∀ auth, (paddedDigest auth).length = 64 := by
    intro auth
    simp [paddedDigest]
  have collisionFree : ∀ task,
      paddedDigest (neighbours task).auth = paddedDigest ⟨"a", none⟩ →
      (neighbours task).auth = ⟨"a", none⟩ := by
    intro task same
    unfold neighbours at same ⊢
    split
    · rfl
    · next other =>
        rw [if_neg other] at same
        exact absurd same (by decide +kernel)
  obtain ⟨alike, erased⟩ := credentials_isolated length collisionFree run run'
    ((failsAlike_inputs fails).trans (failsAlike_inputs fails').symm)
  refine ⟨log, log', blocked, unblocked, (alike 0 rfl rfl).1, ?_⟩
  obtain ⟨message, at_, key, generation, unauthorized, wait, text, split, failed, calm⟩ :=
    failsAlike_split fails
  have record : own 0 [(⟨at_, .served 0
      ⟨.recordError key generation unauthorized wait text, ()⟩⟩ :
      Moment Call Call.Reply Unit)] =
      [⟨.recordError key generation unauthorized wait text, ()⟩] := rfl
  have alone := (erased 0 message log.dropLast _ split failed (fun called member => ?_) calm).1
  · rwa [show without 0 [_] = [] from rfl, List.append_nil] at alone
  · rw [record, List.mem_singleton] at member
    rw [member]
    rfl

end Runnerctl
