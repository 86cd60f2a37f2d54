import Runnerctl.Model.Github

/-!
# What an operation of the client calls for

Whatever the replies are, the calls of an operation come in an order: what it stores was
received after it read the generation, every request comes after a look at the block, and
an error that a response stands for is recorded before anything else.  `Orderly` says
this of one call and those before it.
-/

namespace Runnerctl

open Coroutines

/-- A call of an operation and its reply. -/
abbrev Receipt := Coroutines.Called Call Call.Reply

namespace HttpResponse

/-- What `request` returns, of a response that it does not make an error of. -/
def value (response : HttpResponse) : Option Value :=
  if response.status = 404 ∨ response.status = 204 then some Value.none else response.body

/-- The delay that the response asks for. -/
def delay (response : HttpResponse) : Option Nat := response.retryAfter.bind parseU64

/-- A rate limit. -/
def Limited (response : HttpResponse) : Prop :=
  response.status = 429 ∨ response.remaining = some "0" ∨ response.delay.isSome

instance (response : HttpResponse) : Decidable response.Limited :=
  inferInstanceAs (Decidable (_ ∨ _ ∨ _))

/-- A rate limit, or a failure of the credential. -/
def Blocks (response : HttpResponse) : Prop :=
  response.Limited ∨ response.status = 401 ∨ response.status = 403

instance (response : HttpResponse) : Decidable response.Blocks :=
  inferInstanceAs (Decidable (_ ∨ _ ∨ _))

end HttpResponse

namespace Receipt

/-- The path of a request. -/
def path : Receipt → Option String
  | ⟨.send _ path _, _⟩ => some path
  | _ => none

/-- A call that `access_token` makes. -/
def inner : Receipt → Bool
  | ⟨.generation, _⟩ | ⟨.installationToken _, _⟩ | ⟨.credential _, _⟩
  | ⟨.appJwt _, _⟩ | ⟨.exchange _ _, _⟩ | ⟨.storeToken _ _ _ _, _⟩ => true
  | _ => false

theorem path_of_inner {answered : Receipt} (inner : Receipt.inner answered = true) :
    path answered = none := by
  unfold Receipt.inner at inner
  split at inner <;> first | rfl | exact absurd inner Bool.false_ne_true

/-- A response that is made an error of. -/
def failure : Receipt → Option HttpResponse
  | ⟨.send _ _ _, some response⟩ =>
      if !response.isSuccess && response.status != 404 then some response else none
  | ⟨.exchange _ _, some response⟩ => if !response.isSuccess then some response else none
  | _ => none

/-- The runners in the response to a request. -/
def runners : Receipt → List RemoteRunner
  | ⟨.send _ _ _, some response⟩ =>
      match response.value.bind (·.runners) with
      | some (.ok batch) => batch
      | _ => []
  | _ => []

/-- A request that is over. -/
def final (answered : Receipt) : Bool :=
  (path answered).isSome && (failure answered).isNone

/-- A look at the clock. -/
def isNow : Receipt → Bool
  | ⟨.now, _⟩ => true
  | _ => false

end Receipt

/-- No response so far was an error. -/
def Unfailed (past : List Receipt) : Prop := ∀ answered ∈ past, Receipt.failure answered = none

/-- A request with the credential `key` has begun: it has read the generation, it was not
blocked, and is about to get its token, or has got it. -/
def Opened (key : String) (past : List Receipt) : Prop :=
  ∃ before generation since, past =
      before ++ ⟨.generation, generation⟩ :: ⟨.blocked key, none⟩ :: since ∧
    ∀ answered ∈ since, Receipt.inner answered = true

/-- `response` was received, and only the time was asked for since. -/
def Failing (past : List Receipt) (response : HttpResponse) (nows : List Receipt) : Prop :=
  ∃ before answered, past = before ++ answered :: nows ∧
    Receipt.failure answered = some response ∧
    Unfailed before ∧ ∀ now ∈ nows, Receipt.isNow now = true

/-- What `response_error` makes of a response, from the times it has read. -/
inductive Sentence (response : HttpResponse) : List Receipt → Option Nat → Prop where
  | delayed {delay : Nat} (limited : response.Limited) (asked : response.delay = some delay) :
      Sentence response [] (some (max delay 1))
  | limited {first second : Nat} (limited : response.Limited) (unasked : response.delay = none) :
      Sentence response [⟨.now, first⟩, ⟨.now, second⟩]
        (some (max ((response.reset.bind parseU64).getD (first + 60) - second) 1))
  | refused (unlimited : ¬ response.Limited)
      (refused : response.status = 401 ∨ response.status = 403) :
      Sentence response [] (some 300)
  | harmless (harmless : ¬ response.Blocks) : Sentence response [] none

/-- Only what blocks is given a time. -/
theorem Sentence.blocks {response : HttpResponse} {nows : List Receipt} {wait : Nat}
    (sentence : Sentence response nows (some wait)) : response.Blocks := by
  cases sentence with
  | delayed limited _ => exact .inl limited
  | limited limited _ => exact .inl limited
  | refused _ refused => exact .inr refused

/-- What the calls before allow an operation to call for. -/
def Orderly (digest : Auth → String) (op : GithubOp) (past : List Receipt) : Call → Prop
  | .now => ∃ response nows, Failing past response nows
  | .recordError key generation unauthorized wait _ => key = op.key digest ∧
      ∃ response nows, Failing past response nows ∧
        unauthorized = (response.status == 401) ∧ Sentence response nows wait ∧
        ∃ before first since answered, past =
            before ++ ⟨.generation, first⟩ :: ⟨.blocked key, none⟩ :: since ++
              answered :: nows ∧
          Receipt.failure answered = some response ∧
          (∀ answered ∈ since, Receipt.inner answered = true) ∧
          (generation = first ∨ (⟨.generation, generation⟩ : Receipt) ∈ since)
  | .send _ _ _ | .exchange _ _ => Unfailed past ∧ Opened (op.key digest) past
  | .storeToken key generation expires token => Unfailed past ∧ key = op.key digest ∧
      ∃ before since installationId jwt response value, past =
          before ++ ⟨.generation, generation⟩ :: since ++
            [⟨.exchange installationId jwt, some response⟩] ∧
        response.body = some value ∧ value.token = some token ∧ value.expiresAt = some expires
  | .storeRunners key scope generation runners => Unfailed past ∧ key = op.key digest ∧
      (∃ ttl, op = .list op.profile op.auth scope ttl) ∧
      (∃ since, past = ⟨.generation, generation⟩ :: since) ∧
      runners = past.flatMap Receipt.runners
  | .dropRunners key scope => Unfailed past ∧ key = op.key digest ∧
      ∃ id, op = .remove op.profile op.auth scope id
  | .cached key scope _ => Unfailed past ∧ key = op.key digest ∧ scope = op.scope
  | .installationToken key | .blocked key => Unfailed past ∧ key = op.key digest
  | .generation | .credential _ | .appJwt _ => Unfailed past

section Calls

variable {digest : Auth → String} {op : GithubOp} {past : List Receipt}

theorem Unfailed.nil : Unfailed [] := nofun

theorem Unfailed.concat {answered : Receipt} (unfailed : Unfailed past)
    (fine : Receipt.failure answered = none) : Unfailed (past ++ [answered]) := by
  intro other member
  rcases List.mem_append.mp member with earlier | last
  · exact unfailed other earlier
  · rwa [List.mem_singleton.mp last]

theorem meets_await {β : Type} {call : Call} {next : call.Reply → Action β}
    {allows : List Receipt → Call → Prop} {post : List Receipt → Except String β → Prop}
    (allowed : allows past call)
    (rest : ∀ reply, Meets allows post (past ++ [⟨call, reply⟩]) (next reply)) :
    Meets allows post past (call.await >>= next) :=
  ⟨allowed, rest⟩

/-- A request with the credential `key` has begun after the calls `before`. -/
def Underway (key : String) (before : List Receipt) (first : Nat) (past : List Receipt) :
    Prop :=
  Unfailed past ∧ ∃ since,
    past = before ++ ⟨.generation, first⟩ :: ⟨.blocked key, none⟩ :: since ∧
      ∀ answered ∈ since, Receipt.inner answered = true

theorem Underway.concat {key : String} {before : List Receipt} {first : Nat}
    (underway : Underway key before first past) {answered : Receipt}
    (fine : Receipt.failure answered = none) (inner : Receipt.inner answered = true) :
    Underway key before first (past ++ [answered]) := by
  obtain ⟨unfailed, since, rfl, others⟩ := underway
  refine ⟨unfailed.concat fine, since ++ [answered], by simp, ?_⟩
  exact List.forall_mem_append.mpr ⟨others, List.forall_mem_singleton.mpr inner⟩

theorem Underway.opened {key : String} {before : List Receipt} {first : Nat}
    (underway : Underway key before first past) : Opened key past :=
  let ⟨_, since, split, unsent⟩ := underway
  ⟨before, first, since, split, unsent⟩

/-- `response_error` records what the response stands for, and fails. -/
theorem responseError_meets {α : Type} {before since : List Receipt} {first generation : Nat}
    {answered : Receipt} {response : HttpResponse} (context : String)
    (failed : Receipt.failure answered = some response)
    (unfailed : Unfailed (before ++ ⟨.generation, first⟩ ::
      ⟨.blocked (op.key digest), none⟩ :: since))
    (unsent : ∀ answered ∈ since, Receipt.inner answered = true)
    (read : generation = first ∨ (⟨.generation, generation⟩ : Receipt) ∈ since) :
    Meets (Orderly digest op) (fun _ result => ∃ error, result = .error error)
      (before ++ ⟨.generation, first⟩ :: ⟨.blocked (op.key digest), none⟩ :: since ++
        [answered])
      (Github.responseError response (op.key digest) generation context : Action α) := by
  have records : ∀ (nows : List Receipt) (wait : Option Nat) (message : String),
      (∀ now ∈ nows, Receipt.isNow now = true) → Sentence response nows wait →
      Meets (Orderly digest op)
        (fun _ (result : Except String α) => ∃ error, result = .error error)
        (before ++ ⟨.generation, first⟩ :: ⟨.blocked (op.key digest), none⟩ :: since ++
          answered :: nows)
        ((Call.recordError (op.key digest) generation (response.status == 401) wait
          message).await >>= fun _ => .err message) := by
    intro nows wait message only sentence
    refine meets_await ⟨rfl, response, nows, ⟨_, answered, rfl, failed, unfailed, only⟩, rfl,
      sentence, before, first, since, answered, rfl, failed, unsent, read⟩ fun _ => ?_
    exact ⟨message, rfl⟩
  by_cases limited : response.Limited
  · have limited' : response.status = 429 ∨ response.remaining = some "0" ∨
        (response.retryAfter.bind parseU64).isSome := limited
    simp only [Github.responseError, if_pos limited']
    cases asked : response.retryAfter.bind parseU64 with
    | some delay => exact records [] _ _ nofun (.delayed limited asked)
    | none =>
        refine meets_await ⟨response, [], _, answered, rfl, failed, unfailed, nofun⟩ fun a => ?_
        rw [List.append_assoc]
        refine meets_await ⟨response, [⟨.now, a⟩], _, answered, rfl, failed, unfailed, ?_⟩
          fun b => ?_
        · exact List.forall_mem_singleton.mpr rfl
        · rw [List.append_assoc]
          refine records [⟨.now, a⟩, ⟨.now, b⟩] _ _ ?_ (.limited limited asked)
          exact List.forall_mem_cons.mpr ⟨rfl, List.forall_mem_singleton.mpr rfl⟩
  · have limited' : ¬ (response.status = 429 ∨ response.remaining = some "0" ∨
        (response.retryAfter.bind parseU64).isSome) := limited
    simp only [Github.responseError, if_neg limited']
    split
    · next refused => exact records [] _ _ nofun (.refused limited refused)
    · next harmless => exact records [] _ _ nofun (.harmless (not_or.mpr ⟨limited, harmless⟩))

theorem accessToken_meets {before : List Receipt} {first : Nat}
    (underway : Underway (op.key digest) before first past) :
    Meets (Orderly digest op)
      (fun past result => ∀ token, result = .ok token →
        Underway (op.key digest) before first past)
      past (Github.accessToken digest op.profile op.auth) := by
  have same : Github.authKey digest op.profile op.auth = op.key digest := rfl
  unfold Github.accessToken
  rw [same]
  cases op.auth.app with
  | none =>
      refine meets_await underway.1 fun outcome => ?_
      cases outcome with
      | error error => exact nofun
      | ok token => exact fun _ _ => underway.concat rfl rfl
  | some app =>
      refine meets_await underway.1 fun generation => ?_
      have read : Underway _ _ _ (_ ++ [⟨.generation, generation⟩]) := underway.concat rfl rfl
      refine meets_await ⟨read.1, rfl⟩ fun cached => ?_
      have missed : Underway _ _ _ (_ ++ [⟨.installationToken (op.key digest), cached⟩]) :=
        read.concat rfl rfl
      cases cached with
      | some token => exact fun _ _ => missed
      | none =>
          refine meets_await missed.1 fun outcome => ?_
          have signed : Underway _ _ _ (_ ++ [⟨.appJwt app, outcome⟩]) := missed.concat rfl rfl
          cases outcome with
          | error error => exact nofun
          | ok jwt =>
              refine meets_await ⟨signed.1, signed.opened⟩ fun reply => ?_
              cases reply with
              | none => exact nofun
              | some response =>
                  obtain ⟨-, since, rfl, unsent⟩ := underway
                  have sent : before ++ ⟨.generation, first⟩ ::
                        ⟨.blocked (op.key digest), none⟩ :: since ++
                          [⟨.generation, generation⟩] ++
                          [⟨.installationToken (op.key digest), none⟩] ++
                          [⟨.appJwt app, .ok jwt⟩] =
                      before ++ ⟨.generation, first⟩ :: ⟨.blocked (op.key digest), none⟩ ::
                        (since ++ [⟨.generation, generation⟩,
                          ⟨.installationToken (op.key digest), none⟩,
                          ⟨.appJwt app, .ok jwt⟩]) := by
                    simp
                  by_cases success : response.isSuccess
                  · have fine : Receipt.failure ⟨.exchange app.installationId jwt,
                        some response⟩ = none := by
                      simp [Receipt.failure, success]
                    have received := signed.concat fine rfl
                    simp only [success, Bool.not_true, Bool.false_eq_true, if_false]
                    cases body : response.body with
                    | none => exact nofun
                    | some data =>
                        dsimp only
                        split
                        · exact nofun
                        · exact nofun
                        · next token expires given expiry =>
                            refine meets_await ⟨received.1, rfl,
                              before ++ ⟨.generation, first⟩ ::
                              ⟨.blocked (op.key digest), none⟩ :: since,
                              [⟨.installationToken (op.key digest), none⟩,
                                ⟨.appJwt app, .ok jwt⟩],
                              app.installationId, jwt, response, data, ?_, body, given,
                              expiry⟩ fun _ => ?_
                            · simp
                            · exact fun _ _ => received.concat rfl rfl
                  · simp only [success, Bool.not_false, if_true]
                    rw [sent]
                    refine (responseError_meets _ ?_ ?_ ?_ ?_).mono ?_
                    · simp [Receipt.failure, success]
                    · rw [← sent]
                      exact signed.1
                    · simp only [List.forall_mem_append, List.forall_mem_cons]
                      exact ⟨unsent, rfl, rfl, rfl, nofun⟩
                    · exact .inr (by simp)
                    · rintro _ _ ⟨_, rfl⟩
                      exact nofun

/-- The calls of a request that returns `data`. -/
def Requested (method : Method) (path : String) (data : Value) (calls : List Receipt) : Prop :=
  ∃ before token response, calls = before ++ [⟨.send method path token, some response⟩] ∧
    (∀ answered ∈ before, Receipt.path answered = none) ∧ response.value = some data

/-- A request was answered with success, or with 404. -/
def Fulfilled (method : Method) (path : String) (calls : List Receipt) : Prop :=
  ∃ token response, ⟨.send method path token, some response⟩ ∈ calls ∧
    (response.isSuccess = true ∨ response.status = 404)

theorem Requested.fulfilled {method : Method} {path : String} {data : Value}
    {calls : List Receipt} (requested : Requested method path data calls)
    (unfailed : Unfailed calls) : Fulfilled method path calls := by
  obtain ⟨before, token, response, rfl, -, -⟩ := requested
  have sent : (⟨.send method path token, some response⟩ : Receipt) ∈
      before ++ [⟨.send method path token, some response⟩] :=
    List.mem_append_right _ (List.mem_singleton_self _)
  refine ⟨token, response, sent, ?_⟩
  have fine := unfailed _ sent
  simp only [Receipt.failure, ite_eq_right_iff, reduceCtorEq, imp_false, Bool.and_eq_true,
    Bool.not_eq_true', bne_iff_ne, not_and, Classical.not_not] at fine
  exact or_iff_not_imp_left.mpr fun failed => fine (Bool.eq_false_iff.mpr failed)

theorem request_meets (method : Method) (path : String) (unfailed : Unfailed past) :
    Meets (Orderly digest op)
      (fun past' result => ∀ data, result = .ok data → Unfailed past' ∧
        ∃ calls, past' = past ++ calls ∧ Requested method path data calls)
      past (Github.request digest op.profile op.auth method path) := by
  have same : Github.authKey digest op.profile op.auth = op.key digest := rfl
  unfold Github.request
  rw [same]
  refine meets_await unfailed fun first => ?_
  have read : Unfailed (past ++ [⟨.generation, first⟩]) := unfailed.concat rfl
  refine meets_await ⟨read, rfl⟩ fun block => ?_
  cases block with
  | some block => exact nofun
  | none =>
      have underway : Underway (op.key digest) past first
          (past ++ [⟨.generation, first⟩] ++ [⟨.blocked (op.key digest), none⟩]) :=
        ⟨read.concat rfl, [], by simp, nofun⟩
      refine (accessToken_meets underway).bind (fun past' token given => ?_) fun _ _ _ => nofun
      have ready := given token rfl
      refine meets_await ⟨ready.1, ready.opened⟩ fun reply => ?_
      cases reply with
      | none => exact nofun
      | some response =>
          obtain ⟨unfailed', since, rfl, unsent⟩ := ready
          dsimp only
          split
          · next failed =>
              refine (responseError_meets _ ?_ unfailed' unsent (.inl rfl)).mono ?_
              · exact if_pos failed
              · rintro _ _ ⟨_, rfl⟩
                exact nofun
          · next passed =>
              have fine : Receipt.failure ⟨.send method path token, some response⟩ = none :=
                if_neg passed
              have ends : ∀ data, response.value = some data →
                  Unfailed (past ++
                    ⟨.generation, first⟩ :: ⟨.blocked (op.key digest), none⟩ ::
                    since ++ [⟨.send method path token, some response⟩]) ∧
                  ∃ calls, past ++
                      ⟨.generation, first⟩ :: ⟨.blocked (op.key digest), none⟩ ::
                      since ++ [⟨.send method path token, some response⟩] = past ++ calls ∧
                    Requested method path data calls := by
                intro data value
                refine ⟨unfailed'.concat fine, _, List.append_assoc ..,
                  ⟨.generation, first⟩ :: ⟨.blocked (op.key digest), none⟩ :: since, token,
                  response, rfl, ?_, value⟩
                exact List.forall_mem_cons.mpr ⟨rfl, List.forall_mem_cons.mpr ⟨rfl,
                  fun answered member => Receipt.path_of_inner (unsent answered member)⟩⟩
              split
              · next missing =>
                  rintro _ ⟨rfl⟩
                  exact ends _ (if_pos (.inl missing))
              · split
                · next empty =>
                    rintro _ ⟨rfl⟩
                    exact ends _ (if_pos (.inr empty))
                · next missing empty =>
                    cases body : response.body with
                    | none => exact nofun
                    | some data =>
                        rintro _ ⟨rfl⟩
                        refine ends _ ?_
                        rw [HttpResponse.value, if_neg (not_or.mpr ⟨missing, empty⟩), body]

/-- The calls of a listing from `page` to `final`: one request for each page, which is full
unless it is the last. -/
inductive Paged (scope : String) : (page : Nat) → List Receipt → (final : Nat) → Prop where
  | last {page : Nat} {calls : List Receipt} {data : Value} {batch : List RemoteRunner}
      {stored : Receipt}
      (requested : Requested .get (Github.pagePath scope page) data calls)
      (decoded : data.runners = some (.ok batch)) (short : batch.length < 100)
      (unsent : Receipt.path stored = none) : Paged scope page (calls ++ [stored]) page
  | more {page final : Nat} {calls rest : List Receipt} {data : Value}
      {batch : List RemoteRunner}
      (requested : Requested .get (Github.pagePath scope page) data calls)
      (decoded : data.runners = some (.ok batch)) (full : 100 ≤ batch.length)
      (others : Paged scope (page + 1) rest final) : Paged scope page (calls ++ rest) final

theorem Receipt.runners_of_unsent {answered : Receipt}
    (unsent : Receipt.path answered = none) : Receipt.runners answered = [] := by
  unfold Receipt.path at unsent
  unfold Receipt.runners
  split at unsent
  · exact nomatch unsent
  · next other =>
      split
      · next method path token response => exact absurd rfl (other method path token _)
      · rfl

/-- The runners received with a request are those of its page. -/
theorem Requested.runners {method : Method} {path : String} {data : Value}
    {calls : List Receipt} {batch : List RemoteRunner}
    (requested : Requested method path data calls) (decoded : data.runners = some (.ok batch)) :
    calls.flatMap Receipt.runners = batch := by
  obtain ⟨before, token, response, rfl, unsent, value⟩ := requested
  have silent : before.flatMap Receipt.runners = [] := List.flatMap_eq_nil_iff.mpr
    fun answered member => Receipt.runners_of_unsent (unsent answered member)
  rw [List.flatMap_append, silent, List.nil_append, List.flatMap_singleton, Receipt.runners,
    value, Option.bind_some, decoded]

theorem listPages_meets {scope : String} {generation ttl : Nat} {since : List Receipt}
    (lists : op = .list op.profile op.auth scope ttl)
    (pages page : Nat) (unfailed : Unfailed (⟨.generation, generation⟩ :: since)) :
    Meets (Orderly digest op)
      (fun past' result => ∀ runners, result = .ok runners → ∃ calls final,
        past' = ⟨.generation, generation⟩ :: since ++ calls ∧ Paged scope page calls final ∧
          runners = past'.flatMap Receipt.runners)
      (⟨.generation, generation⟩ :: since)
      (Github.listPages digest op.profile op.auth scope generation pages page
        (since.flatMap Receipt.runners)) := by
  induction pages generalizing page since with
  | zero => exact nofun
  | succ pages inductionHypothesis =>
      unfold Github.listPages
      refine (request_meets _ _ unfailed).bind (fun past' data given => ?_) fun _ _ _ => nofun
      obtain ⟨unfailed', calls, rfl, requested⟩ := given data rfl
      cases decoded : data.runners with
      | none => exact nofun
      | some outcome =>
          cases outcome with
          | error failure => exact nofun
          | ok batch =>
              have received : since.flatMap Receipt.runners ++ batch =
                  (since ++ calls).flatMap Receipt.runners := by
                rw [List.flatMap_append, requested.runners decoded]
              dsimp only
              split
              · next short =>
                  rw [received]
                  refine meets_await
                    ⟨unfailed', rfl, ⟨ttl, lists⟩, ⟨since ++ calls, rfl⟩, rfl⟩
                    fun _ => ?_
                  rintro _ ⟨rfl⟩
                  refine ⟨calls ++ [_], page, List.append_assoc .., .last requested decoded short
                    ?_, ?_⟩
                  · rfl
                  · simp [Receipt.runners]
              · next full =>
                  rw [received]
                  refine (inductionHypothesis (page + 1) unfailed').mono ?_
                  rintro past' result done _ rfl
                  obtain ⟨rest, final, rfl, paged, all⟩ := done _ rfl
                  exact ⟨calls ++ rest, final, by simp, .more requested decoded
                    (Nat.not_lt.mp full) paged, all⟩

/-- A listing is served from the cache, or fetched page by page. -/
theorem list_meets {scope : String} {ttl : Nat}
    (lists : op = .list op.profile op.auth scope ttl) :
    Meets (Orderly digest op)
      (fun past result => ∀ runners, result = .ok runners → ∃ generation,
        past = [⟨.generation, generation⟩,
          ⟨.cached (op.key digest) scope ttl, some runners⟩] ∨
        ∃ calls final, past = ⟨.generation, generation⟩ ::
            ⟨.cached (op.key digest) scope ttl, none⟩ :: calls ∧
          Paged scope 1 calls final ∧ runners = past.flatMap Receipt.runners)
      [] (Github.list digest op.profile op.auth scope ttl) := by
  have same : scope = op.scope := by
    rw [lists]
    rfl
  refine meets_await Unfailed.nil fun generation => ?_
  have unfailed : Unfailed [⟨.generation, generation⟩] := List.forall_mem_singleton.mpr rfl
  refine meets_await ⟨unfailed, rfl, same⟩ fun reply => ?_
  cases reply with
  | some runners =>
      rintro _ ⟨rfl⟩
      exact ⟨generation, .inl rfl⟩
  | none =>
      have start : Unfailed (⟨.generation, generation⟩ ::
          [⟨.cached (op.key digest) scope ttl, none⟩]) := unfailed.concat rfl
      refine (listPages_meets lists 10000 1 start).mono ?_
      intro past result done runners returned
      obtain ⟨calls, final, rfl, paged, all⟩ := done runners returned
      exact ⟨generation, .inr ⟨calls, final, rfl, paged, all⟩⟩

theorem token_meets (scope : String) :
    Meets (Orderly digest op) (fun _ _ => True) []
      (Github.token digest op.profile op.auth scope) := by
  refine (request_meets _ _ .nil).bind (fun past data _ => ?_) fun _ _ _ => trivial
  cases data.token with
  | none => trivial
  | some token => trivial

/-- A removal ends with its section, after its request was answered. -/
theorem remove_meets {scope : String} {id : Nat}
    (removes : op = .remove op.profile op.auth scope id) :
    Meets (Orderly digest op)
      (fun past result => result = .ok () →
        ∃ before, past = before ++ [⟨.dropRunners (op.key digest) scope, ()⟩] ∧
          Fulfilled .delete (scope ++ "/actions/runners/" ++ toString id) before)
      [] (Github.remove digest op.profile op.auth scope id) := by
  refine (request_meets _ _ .nil).bind (fun past data given => ?_) fun _ _ _ => nofun
  obtain ⟨unfailed, calls, rfl, requested⟩ := given data rfl
  exact ⟨⟨unfailed, rfl, id, removes⟩,
    fun _ _ => ⟨_, rfl, requested.fulfilled unfailed⟩⟩

theorem run_meets (digest : Auth → String) (op : GithubOp) :
    Meets (Orderly digest op) (fun _ _ => True) [] (op.run digest) := by
  cases op with
  | list profile auth scope ttl =>
      have meets := @list_meets digest (.list profile auth scope ttl) scope ttl rfl
      exact meets.mono fun _ _ _ => trivial
  | token profile auth scope => exact @token_meets digest (.token profile auth scope) scope
  | remove profile auth scope id =>
      have meets := @remove_meets digest (.remove profile auth scope id) scope id rfl
      exact meets.mono fun _ _ _ => trivial

end Calls

end Runnerctl
