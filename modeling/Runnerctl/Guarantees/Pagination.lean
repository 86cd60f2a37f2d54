import Runnerctl.Guarantees.Listing

/-!
# Listing runners that do not change

Of a list that stays as it is, the pages in order are the list, and the first short one is
the last.  A list that ends with a full page costs one more request, which comes back
empty, and a list that fills all the pages that may be asked for is given up.

An `Attempt` is one call of `request` and what it came to.  `Gathered` is the loop of
`Github::list` in terms of its attempts.
-/

namespace Runnerctl

open Coroutines

/-- The calls of a request for a page, and its outcome. -/
structure Attempt where
  calls : List Receipt
  outcome : Except String Value

/-- The page came, with its runners. -/
def Attempt.Brings (attempt : Attempt) : Prop :=
  ∃ data batch, attempt.outcome = .ok data ∧ data.runners = some (.ok batch)

section Stable

variable {digest : Auth → String} {profile : String} {auth : Auth} {scope : String} {ttl : Nat}
  {pages page generation : Nat} {runners items : List RemoteRunner} {calls : List Receipt}
  {attempt : Attempt} {attempts : List Attempt} {result : Except String (List RemoteRunner)}

/-- The attempt is a request for the page. -/
def Attempt.Asks (digest : Auth → String) (profile : String) (auth : Auth) (scope : String)
    (attempt : Attempt) (page : Nat) : Prop :=
  Follows (Github.request digest profile auth .get (Github.pagePath scope page)) attempt.calls
    (orFail attempt.outcome)

/-- The attempts of a listing that has got `runners`, and may ask for `pages` more pages
from `page` on, and what it comes to. -/
inductive Gathered (digest : Auth → String) (profile : String) (auth : Auth) (scope : String) :
    (pages page : Nat) → List RemoteRunner → List Attempt →
      Except String (List RemoteRunner) → Prop where
  | limit {page : Nat} {runners : List RemoteRunner} {error : String} :
      Gathered digest profile auth scope 0 page runners [] (.error error)
  | failed {pages page : Nat} {runners : List RemoteRunner} {attempt : Attempt} {error : String}
      (asks : attempt.Asks digest profile auth scope page) (unread : ¬ attempt.Brings) :
      Gathered digest profile auth scope (pages + 1) page runners [attempt] (.error error)
  | last {pages page : Nat} {runners batch : List RemoteRunner} {attempt : Attempt} {data : Value}
      (asks : attempt.Asks digest profile auth scope page) (got : attempt.outcome = .ok data)
      (decoded : data.runners = some (.ok batch)) (short : batch.length < 100) :
      Gathered digest profile auth scope (pages + 1) page runners [attempt] (.ok (runners ++ batch))
  | more {pages page : Nat} {runners batch : List RemoteRunner} {attempt : Attempt} {data : Value}
      {attempts : List Attempt} {result : Except String (List RemoteRunner)}
      (asks : attempt.Asks digest profile auth scope page) (got : attempt.outcome = .ok data)
      (decoded : data.runners = some (.ok batch)) (full : 100 ≤ batch.length)
      (others : Gathered digest profile auth scope pages (page + 1) (runners ++ batch) attempts
        result) :
      Gathered digest profile auth scope (pages + 1) page runners (attempt :: attempts) result

/-- What a listing stores: a result. -/
def stored (key scope : String) (generation : Nat) :
    Except String (List RemoteRunner) → List Receipt
  | .ok runners => [⟨.storeRunners key scope generation runners, ()⟩]
  | .error _ => []

/-- The loop asks for its pages, and stores what it returns. -/
theorem listPages_gathered
    (ended : Follows (Github.listPages digest profile auth scope generation pages page runners)
      calls (orFail result)) :
    ∃ attempts, Gathered digest profile auth scope pages page runners attempts result ∧
      calls = attempts.flatMap (·.calls) ++
        stored (Github.authKey digest profile auth) scope generation result := by
  induction pages generalizing page runners calls with
  | zero =>
      cases result with
      | ok value => cases ended
      | error error => cases ended; exact ⟨[], .limit, rfl⟩
  | succ pages inductionHypothesis =>
      rw [Github.listPages] at ended
      obtain ⟨first, second, rfl, ⟨data, asked, rest⟩ | ⟨error, failed, rfl, rfl⟩⟩ :=
        ended.sequenced
      · have asks : (Attempt.mk first (.ok data)).Asks digest profile auth scope page := asked
        -- The value that came is matched as the source does it.
        split at rest
        · next undecoded =>
            cases result with
            | ok value => cases rest
            | error error =>
                cases rest
                refine ⟨[⟨first, .ok data⟩], .failed asks ?_, by simp [stored]⟩
                rintro ⟨data', batch, ⟨rfl⟩, decoded⟩
                cases undecoded.symm.trans decoded
        · next failure undecoded =>
            cases result with
            | ok value => cases rest
            | error error =>
                cases rest
                refine ⟨[⟨first, .ok data⟩], .failed asks ?_, by simp [stored]⟩
                rintro ⟨data', batch, ⟨rfl⟩, decoded⟩
                cases undecoded.symm.trans decoded
        · next batch decoded =>
            split at rest
            · next short =>
                obtain ⟨⟨⟩, left, rfl, returned⟩ := Follows.performed rest
                cases result with
                | ok value =>
                    cases returned
                    exact ⟨[⟨first, .ok data⟩], .last asks rfl decoded short,
                      by simp [stored]⟩
                | error error => cases returned
            · next full =>
                obtain ⟨attempts, gathered, rfl⟩ := inductionHypothesis rest
                exact ⟨⟨first, .ok data⟩ :: attempts,
                  .more asks rfl decoded (Nat.not_lt.mp full) gathered, by simp⟩
      · refine ⟨[⟨first, .error error⟩], .failed failed ?_, by simp [stored]⟩
        rintro ⟨data, batch, got, -⟩
        cases got

/-- The attempts ask for one page after the other. -/
theorem Gathered.asks
    (gathered : Gathered digest profile auth scope pages page runners attempts result)
    {place : Nat} (found : attempts[place]? = some attempt) :
    attempt.Asks digest profile auth scope (page + place) := by
  induction gathered generalizing place with
  | limit => exact nomatch found
  | failed asks | last asks =>
      cases place with
      | zero => cases found; exact asks
      | succ place => exact nomatch found
  | more asks _ _ _ _ inductionHypothesis =>
      cases place with
      | zero => cases found; exact asks
      | succ place =>
          rw [Nat.add_comm place, ← Nat.add_assoc]
          exact inductionHypothesis found

/-- A page that does not come is the end of the listing. -/
theorem Gathered.unread
    (gathered : Gathered digest profile auth scope pages page runners attempts result)
    (member : attempt ∈ attempts) (unread : ¬ attempt.Brings) :
    ∃ error, result = .error error := by
  induction gathered with
  | limit => exact nomatch member
  | failed => exact ⟨_, rfl⟩
  | last _ got decoded =>
      obtain rfl := List.mem_singleton.mp member
      exact absurd ⟨_, _, got, decoded⟩ unread
  | more _ got decoded _ _ inductionHypothesis =>
      rcases List.mem_cons.mp member with rfl | later
      · exact absurd ⟨_, _, got, decoded⟩ unread
      · exact inductionHypothesis later

/-- The calls of a request that brings `data`. -/
theorem Attempt.Asks.requested {data : Value}
    (asks : attempt.Asks digest profile auth scope page) (got : attempt.outcome = .ok data) :
    Requested .get (Github.pagePath scope page) data attempt.calls := by
  rw [Attempt.Asks, got] at asks
  obtain ⟨-, calls, same, requested⟩ := asks.meets
    (@request_meets digest (.token profile auth scope) [] .get _ .nil) data rfl
  rwa [List.append_cancel_left same]

/-- What the attempt brings is the page of the list. -/
theorem Attempt.Asks.served {data : Value} {batch : List RemoteRunner}
    (asks : attempt.Asks digest profile auth scope page) (got : attempt.outcome = .ok data)
    (decoded : data.runners = some (.ok batch))
    (serves : Serves scope (fun _ => items) attempt.calls) :
    batch = Paging.page 100 items page :=
  (asks.requested got).served decoded serves

/-- With all of its pages, the listing has the list, in as many requests as it takes to get
a short page. -/
theorem Gathered.exact (one : 1 ≤ page)
    (gathered : Gathered digest profile auth scope pages page (items.take (100 * (page - 1)))
      attempts result)
    (serves : Serves scope (fun _ => items) (attempts.flatMap (·.calls)))
    (brings : ∀ attempt ∈ attempts, attempt.Brings)
    (reached : 100 * (page - 1) ≤ items.length)
    (within : items.length < 100 * (pages + page - 1)) :
    result = .ok items ∧ attempts.length + (page - 1) = items.length / 100 + 1 ∧
      (attempts.flatMap (·.calls)).filterMap Receipt.path =
        (List.range' page attempts.length).map (Github.pagePath scope) := by
  generalize same : items.take (100 * (page - 1)) = runners at gathered
  induction gathered with
  | limit => omega
  | failed _ unread => exact absurd (brings _ (List.mem_singleton_self _)) unread
  | @last pages page runners batch attempt data asks got decoded short =>
      subst same
      rw [List.flatMap_singleton] at serves ⊢
      obtain rfl := asks.served got decoded serves
      have ends := Paging.length_lt one short
      refine ⟨?_, ?_, (asks.requested got).paths⟩
      · rw [Paging.take_append_page items one, List.take_of_length_le (Nat.le_of_lt ends)]
      · simp only [List.length_singleton]
        omega
  | @more pages page runners batch attempt data attempts result asks got decoded full others
      inductionHypothesis =>
      subst same
      rw [List.flatMap_cons] at serves ⊢
      obtain rfl := asks.served got decoded serves.left
      rw [Paging.take_append_page items one] at others inductionHypothesis
      have reaches : 100 * page ≤ items.length := by
        rw [Paging.page, List.length_take, List.length_drop] at full
        omega
      obtain ⟨all, count, paths⟩ := inductionHypothesis (Nat.le_add_left ..) serves.right
        (fun attempt later => brings attempt (List.mem_cons_of_mem _ later))
        (by rwa [Nat.add_sub_cancel]) (by omega) rfl
      refine ⟨all, ?_, ?_⟩
      · rw [List.length_cons]
        omega
      · rw [List.filterMap_append, (asks.requested got).paths, paths, List.length_cons,
          List.range'_succ]
        rfl

/-- A list that fills all the pages is not returned, nor is a part of it. -/
theorem Gathered.beyond (one : 1 ≤ page)
    (gathered : Gathered digest profile auth scope pages page runners attempts result)
    (serves : Serves scope (fun _ => items) (attempts.flatMap (·.calls)))
    (beyond : 100 * (pages + page - 1) ≤ items.length) : ∃ error, result = .error error := by
  induction gathered with
  | limit | failed => exact ⟨_, rfl⟩
  | @last pages page runners batch attempt data asks got decoded short =>
      rw [List.flatMap_singleton] at serves
      obtain rfl := asks.served got decoded serves
      exact absurd (Paging.length_page one (by omega)) (Nat.ne_of_lt short)
  | more _ _ _ _ _ inductionHypothesis =>
      exact inductionHypothesis (Nat.le_add_left ..) serves.right (by omega)

/-- The calls of a request leave the cached runners alone. -/
theorem Attempt.Asks.cache (asks : attempt.Asks digest profile auth scope page)
    {answered : Receipt} (member : answered ∈ attempt.calls) (at_ : Nat) (cache : Cache) :
    (cache.effect at_ answered.request).cache = cache.cache := by
  obtain ⟨past, allowed⟩ := asks.allowed
    (@request_meets digest (.token profile auth scope) [] .get _ .nil) member
  cases called : answered.request with
  | storeRunners key scope generation runners =>
      rw [called] at allowed
      obtain ⟨-, -, ⟨ttl, lists⟩, -⟩ := allowed
      exact nomatch lists
  | dropRunners key scope =>
      rw [called] at allowed
      obtain ⟨-, -, id, removes⟩ := allowed
      exact nomatch removes
  | storeToken key generation expires token =>
      rw [Cache.effect, Cache.storeToken]
      split
      · rfl
      · rfl
  | recordError key generation unauthorized wait message =>
      rw [Cache.effect]
      unfold Cache.recordError
      split
      · rfl
      · rfl
  | _ => rfl

/-- A listing that is not served from the cache. -/
theorem list_gathered
    (ended : Follows (Github.list digest profile auth scope ttl) calls (orFail result))
    {key : String} (fetched : (⟨.cached key scope ttl, none⟩ : Receipt) ∈ calls) :
    ∃ generation attempts, Gathered digest profile auth scope 10000 1 [] attempts result ∧
      calls = ⟨.generation, generation⟩ ::
        ⟨.cached (Github.authKey digest profile auth) scope ttl, none⟩ ::
        (attempts.flatMap (·.calls) ++
          stored (Github.authKey digest profile auth) scope generation result) := by
  obtain ⟨generation, looked, rfl, look⟩ := Follows.performed ended
  obtain ⟨found, paged, rfl, loop⟩ := Follows.performed look
  cases found with
  | some runners =>
      cases result with
      | ok value => cases loop; simp at fetched
      | error error => exact nomatch loop
  | none =>
      obtain ⟨attempts, gathered, rfl⟩ := listPages_gathered loop
      exact ⟨generation, attempts, gathered, rfl⟩

/-- A listing ends whatever the replies are.  If it is not served from the cache, it returns
a list that stays as it is, page by page, unless a request fails or the list has a million
runners.  Then, and if a page comes without runners, it fails, and a listing that fails
leaves the cached runners alone. -/
theorem list_exact (digest : Auth → String) (profile : String) (auth : Auth) (scope : String)
    (ttl : Nat) :
    (∀ replies, ∃ calls result, RepliedBy replies [] calls ∧
      Follows (Github.list digest profile auth scope ttl) calls (orFail result)) ∧
    ∀ calls result key, Follows (Github.list digest profile auth scope ttl) calls
      (orFail result) →
      (⟨.cached key scope ttl, none⟩ : Receipt) ∈ calls →
      ∃ (generation : Nat) (attempts : List Attempt),
        calls = ⟨.generation, generation⟩ ::
          ⟨.cached (Github.authKey digest profile auth) scope ttl, none⟩ ::
          (attempts.flatMap (·.calls) ++
            stored (Github.authKey digest profile auth) scope generation result) ∧
        (∀ (place : Nat) (attempt : Attempt), attempts[place]? = some attempt →
          attempt.Asks digest profile auth scope (place + 1)) ∧
        (∀ items, Serves scope (fun _ => items) calls → items.length < 1000000 →
          (∀ attempt ∈ attempts, attempt.outcome.isOk) →
          result = .ok items ∧ attempts.length = items.length / 100 + 1 ∧
            calls.filterMap Receipt.path =
              (List.range' 1 (items.length / 100 + 1)).map (Github.pagePath scope)) ∧
        (∀ items, Serves scope (fun _ => items) calls → 1000000 ≤ items.length →
          ∃ error, result = .error error) ∧
        ((∃ attempt ∈ attempts, ¬ attempt.Brings) → ∃ error, result = .error error) ∧
        ∀ error, result = .error error → ∀ answered ∈ calls, ∀ at_ cache,
          (Cache.effect at_ cache answered.request).cache = cache.cache := by
  refine ⟨fun replies => ends replies [] _, fun calls result key ended fetched => ?_⟩
  obtain ⟨generation, attempts, gathered, rfl⟩ := list_gathered ended fetched
  have inner : ∀ {items}, Serves scope (fun _ => items) (⟨.generation, generation⟩ ::
      ⟨.cached (Github.authKey digest profile auth) scope ttl, none⟩ ::
      (attempts.flatMap (·.calls) ++
        stored (Github.authKey digest profile auth) scope generation result)) →
      Serves scope (fun _ => items) (attempts.flatMap (·.calls)) := by
    intro items serves
    exact serves.mono fun answered member => by simp [member]
  have asks : ∀ (place : Nat) (attempt : Attempt), attempts[place]? = some attempt →
      attempt.Asks digest profile auth scope (place + 1) := by
    intro place attempt found
    rw [Nat.add_comm]
    exact gathered.asks found
  refine ⟨generation, attempts, rfl, asks, fun items serves within succeeded => ?_,
    fun items serves beyond => ?_, ?_, fun error failed answered member at_ cache => ?_⟩
  · have brings : ∀ attempt ∈ attempts, attempt.Brings := by
      intro attempt member
      obtain ⟨data, got⟩ : ∃ data, attempt.outcome = .ok data := by
        have isOk := succeeded attempt member
        cases outcome : attempt.outcome with
        | ok data => exact ⟨data, rfl⟩
        | error error => rw [outcome] at isOk; exact nomatch isOk
      obtain ⟨place, found⟩ := List.mem_iff_getElem?.mp member
      obtain ⟨before, after, split⟩ := List.append_of_mem member
      have serves := inner serves
      rw [split, List.flatMap_append, List.flatMap_cons] at serves
      exact ⟨data, _, got, ((asks place attempt found).requested got).brought serves.right.left⟩
    obtain ⟨all, count, paths⟩ := gathered.exact (Nat.le_refl 1) (inner serves) brings
      (Nat.zero_le _) within
    have length : attempts.length = items.length / 100 + 1 := count
    refine ⟨all, length, ?_⟩
    rw [← length, ← paths]
    subst all
    -- Only the attempts ask for a path.
    change (attempts.flatMap Attempt.calls ++ [_]).filterMap Receipt.path = _
    rw [List.filterMap_append]
    exact List.append_nil _
  · exact gathered.beyond (Nat.le_refl 1) (inner serves) beyond
  · rintro ⟨attempt, member, unread⟩
    exact gathered.unread member unread
  · subst failed
    simp only [stored, List.append_nil, List.mem_cons, List.mem_flatMap] at member
    rcases member with rfl | rfl | ⟨attempt, member, called⟩
    · rfl
    · rfl
    · obtain ⟨place, found⟩ := List.mem_iff_getElem?.mp member
      exact (asks place attempt found).cache called at_ cache

end Stable

/-- A hundred runners. -/
def hundred : List RemoteRunner := (List.range 100).map .online

/-- The request for a page of them, with a token. -/
def hundredPage (number : Nat) : List Receipt :=
  [⟨.generation, 0⟩, ⟨.blocked ":", none⟩, ⟨.credential ⟨"", none⟩, .ok ""⟩,
    ⟨.send .get (Github.pagePath "" number) "", some ⟨200, "200 OK", none, none, none,
      some ⟨some (.ok (Paging.page 100 hundred number)), none, none⟩⟩⟩]

/-- The listing of a hundred runners, with a second page that is empty. -/
def hundredCalls : List Receipt :=
  ⟨.generation, 0⟩ :: ⟨.cached ":" "" 0, none⟩ :: (hundredPage 1 ++ hundredPage 2 ++
    [⟨.storeRunners ":" "" 0 hundred, ()⟩])

theorem hundred_returns :
    Follows (Github.list (fun _ => "") "" ⟨"", none⟩ "" 0) hundredCalls (.ok hundred) :=
  follows_to_value (by decide +kernel)

theorem hundred_serves : Serves "" (fun _ => hundred) hundredCalls := by
  intro number token reply member
  simp only [hundredCalls, hundredPage, List.mem_cons, List.cons_append, List.nil_append,
    Called.mk.injEq, Call.send.injEq, reduceCtorEq, false_and, or_false,
    false_or, List.not_mem_nil] at member
  rcases member with ⟨⟨-, same, rfl⟩, replied⟩ | ⟨⟨-, same, rfl⟩, replied⟩
  · obtain rfl := Github.pagePath_injective same
    exact ⟨_, _, eq_of_heq replied, rfl, rfl, rfl⟩
  · obtain rfl := Github.pagePath_injective same
    exact ⟨_, _, eq_of_heq replied, rfl, rfl, rfl⟩

/-- A hundred runners take two requests. -/
theorem list_exact_hundred :
    hundredCalls.filterMap Receipt.path = [Github.pagePath "" 1, Github.pagePath "" 2] := by
  obtain ⟨generation, attempts, -, -, exact, -, unread, -⟩ :=
    (list_exact (fun _ => "") "" ⟨"", none⟩ "" 0).2 hundredCalls (.ok hundred) ":"
      hundred_returns (by simp [hundredCalls])
  refine (exact hundred hundred_serves (by decide +kernel) fun attempt member => ?_).2.2
  by_contra failed
  have unbrought : ¬ attempt.Brings := by
    rintro ⟨data, batch, got, -⟩
    rw [got] at failed
    exact failed rfl
  obtain ⟨error, impossible⟩ := unread ⟨attempt, member, unbrought⟩
  exact nomatch impossible

end Runnerctl
