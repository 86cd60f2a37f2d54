import Runnerctl.Lib.Paging
import Runnerctl.Metatheory.Client

/-!
# Listing runners

A listing asks for one page after the other, and each page is one of the list as it stands
by then.  A runner that stays registered is missed if the runners before it are deleted in
the meantime, so that it slips onto a page that has been read already.
-/

namespace Runnerctl

open Coroutines

/-- A runner is the same runner whatever its status is. -/
def ids (runners : List RemoteRunner) : List Nat := runners.map (·.id)

/-- GitHub answers the request for a page from the runners that are registered by then. -/
def Serves (scope : String) (lists : Nat → List RemoteRunner) (calls : List Receipt) : Prop :=
  ∀ number token reply,
    (⟨.send .get (Github.pagePath scope number) token, reply⟩ : Receipt) ∈ calls →
      ∃ response data, reply = some response ∧ response.status = 200 ∧
        response.body = some data ∧
        data.runners = some (.ok (Paging.page 100 (lists number) number))

/-- The runner is registered whenever one of the pages is asked for. -/
def Throughout (lists : Nat → List RemoteRunner) (final id : Nat) : Prop :=
  ∀ number, 1 ≤ number → number ≤ final → id ∈ ids (lists number)

/-- The place of a runner when a page is asked for. -/
def place (lists : Nat → List RemoteRunner) (id number : Nat) : Nat :=
  (ids (lists number)).idxOf id

section Listing

variable {digest : Auth → String} {profile : String} {auth : Auth} {scope : String} {ttl : Nat}
  {lists : Nat → List RemoteRunner} {calls : List Receipt} {runners : List RemoteRunner}
  {page final : Nat}

theorem ids_page (items : List RemoteRunner) (number : Nat) :
    ids (Paging.page 100 items number) = Paging.page 100 (ids items) number := by
  simp only [ids, Paging.page, List.map_take, List.map_drop]

/-- A request that comes back has the page. -/
theorem Requested.brought {data : Value}
    (requested : Requested .get (Github.pagePath scope page) data calls)
    (serves : Serves scope lists calls) :
    data.runners = some (.ok (Paging.page 100 (lists page) page)) := by
  obtain ⟨before, token, response, rfl, -, value⟩ := requested
  obtain ⟨_, data', ⟨rfl⟩, ok, body, served⟩ := serves page token (some response) (by simp)
  have same : data' = data := by
    simpa [HttpResponse.value, ok, body] using value
  exact same ▸ served

/-- The page that a request has received. -/
theorem Requested.served {data : Value} {batch : List RemoteRunner}
    (requested : Requested .get (Github.pagePath scope page) data calls)
    (decoded : data.runners = some (.ok batch)) (serves : Serves scope lists calls) :
    batch = Paging.page 100 (lists page) page := by
  simpa using decoded.symm.trans (requested.brought serves)

theorem Requested.paths {method : Method} {path : String} {data : Value}
    (requested : Requested method path data calls) :
    calls.filterMap Receipt.path = [path] := by
  obtain ⟨before, token, response, rfl, unsent, -⟩ := requested
  rw [List.filterMap_append, List.filterMap_eq_nil_iff.mpr unsent]
  rfl

theorem Paged.page_le (paged : Paged scope page calls final) : page ≤ final := by
  induction paged with
  | last => exact Nat.le_refl _
  | more _ _ _ _ inductionHypothesis => exact Nat.le_of_succ_le inductionHypothesis

/-- Every page is asked for once, in order. -/
theorem Paged.paths (paged : Paged scope page calls final) :
    calls.filterMap Receipt.path =
      (List.range' page (final + 1 - page)).map (Github.pagePath scope) := by
  induction paged with
  | @last page _ _ _ stored requested _ _ unsent =>
      rw [List.filterMap_append, requested.paths, Nat.add_sub_cancel_left]
      simp [unsent]
  | @more page final _ _ _ _ requested _ _ others inductionHypothesis =>
      have shorter : final + 1 - page = final + 1 - (page + 1) + 1 := by
        have := others.page_le
        omega
      rw [List.filterMap_append, requested.paths, inductionHypothesis, shorter,
        List.range'_succ]
      rfl

theorem Serves.mono {fewer : List Receipt} (serves : Serves scope lists calls)
    (subset : fewer ⊆ calls) : Serves scope lists fewer :=
  fun number token reply member => serves number token reply (subset member)

theorem Serves.left {more : List Receipt} (serves : Serves scope lists (calls ++ more)) :
    Serves scope lists calls :=
  serves.mono (List.subset_append_left ..)

theorem Serves.right {more : List Receipt} (serves : Serves scope lists (calls ++ more)) :
    Serves scope lists more :=
  serves.mono (List.subset_append_right ..)

/-- The runners are those of the pages. -/
theorem Paged.received (paged : Paged scope page calls final)
    (serves : Serves scope lists calls) :
    calls.flatMap Receipt.runners =
      (List.range' page (final + 1 - page)).flatMap fun number =>
        Paging.page 100 (lists number) number := by
  induction paged with
  | last requested decoded _ unsent =>
      rw [List.flatMap_append, requested.runners decoded, requested.served decoded serves.left,
        Nat.add_sub_cancel_left]
      simp [Receipt.runners_of_unsent unsent]
  | @more page final _ _ _ _ requested decoded _ others inductionHypothesis =>
      have shorter : final + 1 - page = final + 1 - (page + 1) + 1 := by
        have := others.page_le
        omega
      rw [List.flatMap_append, requested.runners decoded, requested.served decoded serves.left,
        inductionHypothesis serves.right, shorter, List.range'_succ, List.flatMap_cons]

/-- The last page is short. -/
theorem Paged.short (paged : Paged scope page calls final)
    (serves : Serves scope lists calls) :
    (Paging.page 100 (lists final) final).length < 100 := by
  induction paged with
  | last requested decoded short _ => rwa [← requested.served decoded serves.left]
  | more _ _ _ _ inductionHypothesis => exact inductionHypothesis serves.right

/-- The runners of a fetched listing are those of the pages it has asked for. -/
theorem list_received
    (returned : Follows (Github.list digest profile auth scope ttl) calls (.ok runners))
    {key : String} (fetched : (⟨.cached key scope ttl, none⟩ : Receipt) ∈ calls)
    (serves : Serves scope lists calls) :
    ∃ final, 1 ≤ final ∧
      calls.filterMap Receipt.path = (List.range' 1 final).map (Github.pagePath scope) ∧
      (Paging.page 100 (lists final) final).length < 100 ∧
      ∀ id, id ∈ ids runners ↔ ∃ number, (1 ≤ number ∧ number ≤ final) ∧
        id ∈ Paging.page 100 (ids (lists number)) number := by
  obtain ⟨generation, cached | ⟨paged, final, rfl, pages, rfl⟩⟩ :=
    returned.meets (@list_meets digest (.list profile auth scope ttl) scope ttl rfl) runners rfl
  · rw [List.nil_append] at cached
    subst cached
    simp at fetched
  · have serves : Serves scope lists
        ([⟨.generation, generation⟩, ⟨.cached _ scope ttl, none⟩] ++ paged) := serves
    have serves' := serves.right
    refine ⟨final, pages.page_le, ?_, pages.short serves', fun id => ?_⟩
    · exact pages.paths
    · change id ∈ ids (paged.flatMap Receipt.runners) ↔ _
      rw [pages.received serves', ids, List.map_flatMap]
      simp only [List.mem_flatMap, List.mem_range'_1, ← ids_page]
      refine exists_congr fun number => and_congr ?_ Iff.rfl
      omega

/-- A runner that is registered throughout a fetched listing is in the result unless it
slips, and slipping costs it its place in the result, if from one request to the next it
does not fall back by more than a page. -/
theorem list_complete
    (returned : Follows (Github.list digest profile auth scope ttl) calls (.ok runners))
    {key : String} (fetched : (⟨.cached key scope ttl, none⟩ : Receipt) ∈ calls)
    (serves : Serves scope lists calls) (distinct : ∀ number, (ids (lists number)).Nodup) :
    ∃ final, calls.filterMap Receipt.path =
        (List.range' 1 final).map (Github.pagePath scope) ∧
      (∀ id, Throughout lists final id → ¬ Paging.Slips 100 final (place lists id) →
        id ∈ ids runners) ∧
      ((∀ id, Throughout lists final id → ∀ number, 1 ≤ number → number < final →
          place lists id (number + 1) ≤ place lists id number + 100) →
        ∀ id, Throughout lists final id →
          (id ∈ ids runners ↔ ¬ Paging.Slips 100 final (place lists id))) := by
  obtain ⟨final, one, paths, short, received⟩ := list_received returned fetched serves
  have complete : ∀ id, Throughout lists final id →
      ¬ Paging.Slips 100 final (place lists id) → id ∈ ids runners := by
    intro id throughout held
    have last : place lists id final < 100 * final := by
      have small := List.idxOf_lt_length_iff.mpr (throughout final one (Nat.le_refl final))
      rw [ids, List.length_map] at small
      exact Nat.lt_trans small (Paging.length_lt one short)
    obtain ⟨number, ⟨first, upTo⟩, on⟩ := Paging.caught held one last
    exact (received id).mpr ⟨number, ⟨first, upTo⟩,
      Paging.mem_page (throughout number first upTo) on⟩
  refine ⟨final, paths, complete, fun slow id throughout => ⟨fun listed slips => ?_, complete id
    throughout⟩⟩
  obtain ⟨number, ⟨first, upTo⟩, member⟩ := (received id).mp listed
  exact Paging.missed (slow id throughout) slips first upTo
    (Paging.on_of_mem_page (distinct number) first member)

theorem Github.pagePath_injective {number number' : Nat}
    (same : Github.pagePath scope number = Github.pagePath scope number') :
    number = number' := by
  have digits := congrArg String.toList same
  simp only [Github.pagePath, String.toList_append, List.append_cancel_left_eq,
    Nat.toString_eq_repr, Nat.toList_repr] at digits
  rw [← @Nat.ofDigitChars_ten_toDigits number, digits, Nat.ofDigitChars_ten_toDigits]

end Listing

/-- A runner with this id. -/
def RemoteRunner.online (id : Nat) : RemoteRunner := ⟨id, "", "online", false⟩

/-- There are 101 runners, and the first is deleted before the second page is asked for. -/
def shrinking (number : Nat) : List RemoteRunner :=
  if number ≤ 1 then (List.range 101).map .online else (List.range' 1 100).map .online

/-- The request for a page, with a token. -/
def shrinkingPage (number : Nat) : List Receipt :=
  [⟨.generation, 0⟩, ⟨.blocked ":", none⟩, ⟨.credential ⟨"", none⟩, .ok ""⟩,
    ⟨.send .get (Github.pagePath "" number) "", some ⟨200, "200 OK", none, none, none,
      some ⟨some (.ok (Paging.page 100 (shrinking number) number)), none, none⟩⟩⟩]

/-- A listing of the runners as they shrink. -/
def shrinkingCalls : List Receipt :=
  ⟨.generation, 0⟩ :: ⟨.cached ":" "" 0, none⟩ :: (shrinkingPage 1 ++ shrinkingPage 2 ++
    [⟨.storeRunners ":" "" 0 ((List.range 100).map .online), ()⟩])

theorem shrinking_returns :
    Follows (Github.list (fun _ => "") "" ⟨"", none⟩ "" 0) shrinkingCalls
      (.ok ((List.range 100).map .online)) :=
  follows_to_value (by decide +kernel)

theorem shrinking_serves : Serves "" shrinking shrinkingCalls := by
  intro number token reply member
  simp only [shrinkingCalls, shrinkingPage, List.mem_cons, List.cons_append, List.nil_append,
    Called.mk.injEq, Call.send.injEq, reduceCtorEq, false_and, or_false,
    false_or, List.not_mem_nil] at member
  rcases member with ⟨⟨-, same, rfl⟩, replied⟩ | ⟨⟨-, same, rfl⟩, replied⟩
  · obtain rfl := Github.pagePath_injective same
    exact ⟨_, _, eq_of_heq replied, rfl, rfl, rfl⟩
  · obtain rfl := Github.pagePath_injective same
    exact ⟨_, _, eq_of_heq replied, rfl, rfl, rfl⟩

theorem shrinking_distinct (number : Nat) : (ids (shrinking number)).Nodup := by
  unfold shrinking
  split
  · decide +kernel
  · decide +kernel

/-- The runner with the id 100 slips off the second page and is not in the result. -/
theorem list_complete_sample : ∃ final, final = 2 ∧
    Throughout shrinking final 100 ∧ Paging.Slips 100 final (place shrinking 100) ∧
    100 ∉ ids ((List.range 100).map RemoteRunner.online) := by
  have fetched : (⟨.cached ":" "" 0, none⟩ : Receipt) ∈ shrinkingCalls := by
    simp [shrinkingCalls]
  obtain ⟨final, paths, -, exact⟩ :=
    list_complete shrinking_returns fetched shrinking_serves shrinking_distinct
  have lengths := congrArg List.length paths
  rw [List.length_map, List.length_range'] at lengths
  obtain rfl : 2 = final := lengths
  have throughout : Throughout shrinking 2 100 := by
    intro number _ _
    unfold shrinking
    split
    · decide +kernel
    · decide +kernel
  have slips : Paging.Slips 100 2 (place shrinking 100) := ⟨1, by decide +kernel⟩
  refine ⟨2, rfl, throughout, slips, fun listed => ?_⟩
  refine (exact (fun id _ number one small => ?_) 100 throughout).mp listed slips
  obtain rfl : number = 1 := Nat.le_antisymm (Nat.le_of_lt_succ small) one
  exact Nat.le_trans List.idxOf_le_length (Nat.le_add_left ..)

/-- A runner that is registered throughout a listing can be missing from its result. -/
theorem list_misses : ¬ ∀ (digest : Auth → String) (profile : String) (auth : Auth)
    (scope : String) (ttl : Nat) (lists : Nat → List RemoteRunner) (calls : List Receipt)
    (runners : List RemoteRunner) (key : String),
    Follows (Github.list digest profile auth scope ttl) calls (.ok runners) →
    (⟨.cached key scope ttl, none⟩ : Receipt) ∈ calls → Serves scope lists calls →
    (∀ number, (ids (lists number)).Nodup) →
    ∀ id, (∀ number, id ∈ ids (lists number)) → id ∈ ids runners := by
  intro complete
  have listed := complete _ _ _ _ _ shrinking shrinkingCalls _ ":" shrinking_returns
    (by simp [shrinkingCalls]) shrinking_serves shrinking_distinct 100 ?_
  · exact absurd listed (by decide +kernel)
  · intro number
    unfold shrinking
    split
    · decide +kernel
    · decide +kernel

end Runnerctl
