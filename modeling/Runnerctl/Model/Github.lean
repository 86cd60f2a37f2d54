import Runnerctl.Lib.Coroutines
import Runnerctl.Model.Operation

/-!
# The GitHub client

`src/github.rs`.  One `Github` is shared by the reconcile passes and by `doctor`, so that its
operations run beside each other.  Each is a coroutine: it calls for what the outside gives
(the time, a credential, a response) and for the critical sections on the shared `Cache`.
A section reads the clock while it holds the lock, hence together with the cache.

`Sha256` and the signature of the JWT are not modelled: the digest of an `Auth` is a
parameter, and the JWT a reply.  `latest_runner_release` uses neither cache nor credential,
and is left out.
-/

namespace Runnerctl

open Coroutines

inductive Method where
  | get
  | post
  | delete
  deriving DecidableEq, Repr

/-- What the client reads of a JSON value: `data.get("runners")` with the outcome of decoding
it, `data["token"]`, and `data["expires_at"]` in seconds of the Unix time. -/
structure Value where
  runners : Option (Except String (List RemoteRunner))
  token : Option String
  expiresAt : Option Nat
  deriving DecidableEq

/-- `Value::Null`, and `json!({"not_found": true})`: a value with none of the fields. -/
def Value.none : Value := ⟨.none, .none, .none⟩

/-- A response: its status, the status as it is displayed, the headers
`x-ratelimit-remaining`, `retry-after` and `x-ratelimit-reset` as far as they are text, and
the body if it is JSON. -/
structure HttpResponse where
  status : Nat
  shown : String
  remaining : Option String
  retryAfter : Option String
  reset : Option String
  body : Option Value
  deriving DecidableEq

/-- `status.is_success()`. -/
def HttpResponse.isSuccess (response : HttpResponse) : Bool :=
  decide (200 ≤ response.status) && decide (response.status < 300)

/-- `u64::MAX`. -/
def u64Max : Nat := 2 ^ 64 - 1

/-- `s.parse::<u64>()`, which takes a leading plus sign. -/
def parseU64 (s : String) : Option Nat :=
  let digits := match s.toList with
    | '+' :: digits => digits
    | digits => digits
  if !digits.isEmpty && digits.all Char.isDigit && decide (decimal digits ≤ u64Max) then
    some (decimal digits)
  else none

/-- The shared state. -/
structure Cache where
  cache : String × String → Option (Nat × List RemoteRunner)
  blocked : String → Option (Nat × String)
  installationTokens : String → Option (Nat × String)
  /-- A `u64` that `clear` takes to the next with `wrapping_add`.  Here it does not wrap: two
  generations of the source are the same by accident only after 2^64 calls of `clear`. -/
  generation : Nat

/-- `Cache::default`. -/
def Cache.default : Cache := ⟨fun _ => none, fun _ => none, fun _ => none, 0⟩

/-- `Github::clear`. -/
def Cache.clear (cache : Cache) : Cache :=
  { Cache.default with generation := cache.generation + 1 }

/-- What an operation waits for: the outside, and then the critical sections. -/
inductive Call where
  | now
  | credential (auth : Auth)
  | appJwt (app : AppAuth)
  | send (method : Method) (path : String) (token : String)
  | exchange (installationId : UInt64) (jwt : String)
  | generation
  | installationToken (key : String)
  | blocked (key : String)
  | cached (key scope : String) (ttl : Nat)
  | storeToken (key : String) (generation expires : Nat) (token : String)
  | recordError (key : String) (generation : Nat) (unauthorized : Bool) (wait : Option Nat)
      (message : String)
  | storeRunners (key scope : String) (generation : Nat) (runners : List RemoteRunner)
  | dropRunners (key scope : String)
  deriving DecidableEq

/-- The reply to a call.  There is no response if the connection failed. -/
@[reducible] def Call.Reply : Call → Type
  | .now | .generation => Nat
  | .credential _ | .appJwt _ => Except String String
  | .send _ _ _ | .exchange _ _ => Option HttpResponse
  | .installationToken _ => Option String
  | .blocked _ => Option (Nat × String)
  | .cached _ _ _ => Option (List RemoteRunner)
  | _ => Unit

namespace Cache

/-- The reply to a call that the outside has no say in. -/
def reply (cache : Cache) (at_ : Nat) : (call : Call) → Option call.Reply
  | .now => some at_
  | .generation => some cache.generation
  | .installationToken key => some <|
      match cache.installationTokens key with
      | some (expiry, token) => if at_ + 60 < expiry then some token else none
      | none => none
  | .blocked key => some <|
      match cache.blocked key with
      | some (until_, message) => if at_ < until_ then some (until_, message) else none
      | none => none
  | .cached key scope ttl => some <|
      match cache.cache (key, scope) with
      | some (stored, runners) => if at_ - stored < ttl then some runners else none
      | none => none
  | .credential _ | .appJwt _ | .send _ _ _ | .exchange _ _ => none
  | .storeToken _ _ _ _ | .recordError _ _ _ _ _ | .storeRunners _ _ _ _ | .dropRunners _ _ =>
      some ()

/-- The last section of `access_token`. -/
def storeToken (cache : Cache) (key : String) (generation expires : Nat) (token : String) :
    Cache :=
  if cache.generation = generation then
    { cache with
      installationTokens := Function.update cache.installationTokens key (expires, token) }
  else cache

/-- The section of `response_error`. -/
def recordError (cache : Cache) (at_ : Nat) (key : String) (generation : Nat)
    (unauthorized : Bool) (wait : Option Nat) (message : String) : Cache :=
  if cache.generation = generation then
    { cache with
      installationTokens :=
        if unauthorized then Function.update cache.installationTokens key none
        else cache.installationTokens
      blocked := match wait with
        | some wait => Function.update cache.blocked key (min (at_ + wait) u64Max, message)
        | none => cache.blocked }
  else cache

/-- The last section of `list`. -/
def storeRunners (cache : Cache) (at_ : Nat) (key scope : String) (generation : Nat)
    (runners : List RemoteRunner) : Cache :=
  if cache.generation = generation then
    { cache with cache := Function.update cache.cache (key, scope) (at_, runners) }
  else cache

/-- The section of `remove`. -/
def dropRunners (cache : Cache) (key scope : String) : Cache :=
  { cache with cache := Function.update cache.cache (key, scope) none }

def effect (at_ : Nat) (cache : Cache) : Call → Cache
  | .storeToken key generation expires token => cache.storeToken key generation expires token
  | .recordError key generation unauthorized wait message =>
      cache.recordError at_ key generation unauthorized wait message
  | .storeRunners key scope generation runners =>
      cache.storeRunners at_ key scope generation runners
  | .dropRunners key scope => cache.dropRunners key scope
  | _ => cache

/-- Calls are answered from the cache, or by the outside; `clear` comes from the manager. -/
def service : Service Call Call.Reply Unit Cache where
  answers at_ cache call given := ∀ due, cache.reply at_ call = some due → given = due
  effect := effect
  disturb _ := clear

end Cache

abbrev Action := Coroutine Call Call.Reply String

def Call.await (call : Call) : Action call.Reply := perform call

namespace Github

section Operations

variable (digest : Auth → String) (profile : String) (auth : Auth) (scope : String)

/-- `auth_key`, for a `digest` that is the hash of the serialized reference. -/
def authKey : String := profile ++ ":" ++ digest auth

/-- `Github::response_error`, which makes an error of a response. -/
def responseError {α : Type} (response : HttpResponse) (key : String) (generation : Nat)
    (context : String) : Action α := do
  let delay := response.retryAfter.bind parseU64
  let reset := response.reset.bind parseU64
  let (wait, message) ←
    if response.status = 429 ∨ response.remaining = some "0" ∨ delay.isSome then do
      let wait ← match delay with
        | some delay => pure delay
        | none => do
            let fallback ← Call.now.await
            let now ← Call.now.await
            pure (reset.getD (fallback + 60) - now)
      pure (some (max wait 1), context ++ " rate limit")
    else if response.status = 401 ∨ response.status = 403 then
      pure (some 300, context ++ " authentication/permission error (" ++ response.shown ++ ")")
    else
      pure (none, context ++ " API error (" ++ response.shown ++ ")")
  (Call.recordError key generation (response.status == 401) wait message).await
  .err message

/-- `Github::access_token`. -/
def accessToken : Action String :=
  match auth.app with
  | none => do
      let outcome ← (Call.credential auth).await
      orFail outcome
  | some app => do
      let key := authKey digest profile auth
      let generation ← Call.generation.await
      match ← (Call.installationToken key).await with
      | some token => return token
      | none =>
          let outcome ← (Call.appJwt app).await
          let jwt ← orFail outcome
          match ← (Call.exchange app.installationId jwt).await with
          | none => .err "GitHub App token connection failed"
          | some response =>
              if !response.isSuccess then
                responseError response key generation "GitHub App installation token"
              else
                match response.body with
                | none => .err "invalid GitHub App token response"
                | some data =>
                    match data.token, data.expiresAt with
                    | none, _ => .err "GitHub App installation token missing"
                    | some _, none => .err "GitHub App installation token expiry missing"
                    | some token, some expires =>
                        (Call.storeToken key generation expires token).await
                        return token

/-- `Github::request`. -/
def request (method : Method) (path : String) : Action Value := do
  let key := authKey digest profile auth
  let generation ← Call.generation.await
  match ← (Call.blocked key).await with
  | some (until_, message) => .err (message ++ "; retry after " ++ toString until_)
  | none =>
      let token ← accessToken digest profile auth
      match ← (Call.send method path token).await with
      | none => .err "GitHub connection failed"
      | some response =>
          if !response.isSuccess && response.status != 404 then
            responseError response key generation "GitHub"
          else if response.status = 404 then return Value.none
          else if response.status = 204 then return Value.none
          else
            match response.body with
            | none => .err "invalid GitHub response"
            | some data => return data

/-- The path of one page of runners. -/
def pagePath (page : Nat) : String :=
  scope ++ "/actions/runners?per_page=100&page=" ++ toString page

/-- The loop of `Github::list`, with at most `pages` pages to go. -/
def listPages (generation : Nat) :
    (pages page : Nat) → List RemoteRunner → Action (List RemoteRunner)
  | 0, _, _ => .err "GitHub pagination limit exceeded"
  | pages + 1, page, runners => do
      let data ← request digest profile auth .get (pagePath scope page)
      match data.runners with
      | none => .err "cannot list runners; check organization/repository and permissions"
      | some (.error failure) => .err failure
      | some (.ok batch) =>
          if batch.length < 100 then
            (Call.storeRunners (authKey digest profile auth) scope generation
              (runners ++ batch)).await
            return runners ++ batch
          else listPages generation pages (page + 1) (runners ++ batch)

/-- `Github::list`. -/
def list (ttl : Nat) : Action (List RemoteRunner) := do
  let generation ← Call.generation.await
  match ← (Call.cached (authKey digest profile auth) scope ttl).await with
  | some runners => return runners
  | none => listPages digest profile auth scope generation 10000 1 []

/-- `Github::token`. -/
def token : Action String := do
  let data ← request digest profile auth .post (scope ++ "/actions/runners/registration-token")
  match data.token with
  | some token => return token
  | none => .err "registration token unavailable; check permissions"

/-- `Github::remove`. -/
def remove (id : Nat) : Action Unit := do
  let _ ← request digest profile auth .delete (scope ++ "/actions/runners/" ++ toString id)
  (Call.dropRunners (authKey digest profile auth) scope).await

end Operations

end Github

/-- The operations on behalf of a profile. -/
inductive GithubOp where
  | list (profile : String) (auth : Auth) (scope : String) (ttl : Nat)
  | token (profile : String) (auth : Auth) (scope : String)
  | remove (profile : String) (auth : Auth) (scope : String) (id : Nat)
  deriving DecidableEq

namespace GithubOp

@[reducible] def Reply : GithubOp → Type
  | .list _ _ _ _ => List RemoteRunner
  | .token _ _ _ => String
  | .remove _ _ _ _ => Unit

def profile : GithubOp → String
  | .list profile _ _ _ | .token profile _ _ | .remove profile _ _ _ => profile

def auth : GithubOp → Auth
  | .list _ auth _ _ | .token _ auth _ | .remove _ auth _ _ => auth

def scope : GithubOp → String
  | .list _ _ scope _ | .token _ _ scope | .remove _ _ scope _ => scope

def key (digest : Auth → String) (op : GithubOp) : String :=
  Github.authKey digest op.profile op.auth

def run (digest : Auth → String) : (op : GithubOp) → Action op.Reply
  | .list profile auth scope ttl => Github.list digest profile auth scope ttl
  | .token profile auth scope => Github.token digest profile auth scope
  | .remove profile auth scope id => Github.remove digest profile auth scope id

end GithubOp

/-- The log of operations that run beside each other, and of `clear`. -/
abbrev Log := List (Coroutines.Moment Call Call.Reply Unit)

/-- A run of the operations `ops`, each begun at any time, on a client that starts empty. -/
abbrev Interleaved (digest : Auth → String) (ops : Nat → GithubOp) : Log → Prop :=
  Trace Cache.service Cache.default fun task => (ops task).run digest

end Runnerctl
