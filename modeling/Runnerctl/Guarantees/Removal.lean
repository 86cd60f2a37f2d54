import Runnerctl.Metatheory.Interleaving

/-!
# Removed registrations

`remove` drops the cached listing of its credential and scope.  What a listing in flight has
read before is stored after that, and a listing of another credential of the profile is not
dropped at all.
-/

namespace Runnerctl

open Coroutines

/-- A listing of the profile and scope is in flight, or cached for another credential. -/
def Exposed (digest : Auth → String) (ops : Nat → GithubOp) (log : Log) (profile : String)
    (auth : Auth) (scope : String) : Prop :=
  (∃ task auth' ttl, ops task = .list (ops task).profile (ops task).auth scope ttl ∧
    (ops task).key digest = Github.authKey digest profile auth' ∧ own task log ≠ [] ∧
    Unfinished digest ops task log) ∨
  ∃ auth', Github.authKey digest profile auth' ≠ Github.authKey digest profile auth ∧
    (cacheAfter log).cache (Github.authKey digest profile auth', scope) ≠ none

section Removal

variable {digest : Auth → String} {ops : Nat → GithubOp} {log first middle rest : Log}
  {at_ at' task other : Nat} {called : Receipt} {profile scope : String} {auth auth' : Auth}

/-- A removal returns with its section. -/
theorem Interleaved.removal {id : Nat}
    (returned : Follows (Github.remove digest profile auth scope id)
      (own task first ++ [called]) (.ok ())) :
    called = ⟨.dropRunners (Github.authKey digest profile auth) scope, ()⟩ := by
  obtain ⟨before, all, -⟩ := returned.meets
    (@remove_meets digest (.remove profile auth scope id) scope id rfl) rfl
  rw [List.nil_append] at all
  exact List.singleton_inj.mp (List.append_inj' all rfl).2

/-- A listing that is served from the cache after a removal has returned was fetched by a
listing that began after it, in every run in which no removal of a registration leaves the
profile and scope exposed. -/
theorem removal_final {id ttl : Nat} {key : String} {runners : List RemoteRunner}
    (run : Interleaved digest ops log)
    (unexposed : ∀ first at_ task rest profile auth scope id,
      log = first ++ ⟨at_, .served task
        ⟨.dropRunners (Github.authKey digest profile auth) scope, ()⟩⟩ :: rest →
      ops task = .remove profile auth scope id → ¬ Exposed digest ops first profile auth scope)
    (split : log = first ++ ⟨at_, .served task called⟩ :: middle ++
      ⟨at', .served other ⟨.cached key scope ttl, some runners⟩⟩ :: rest)
    (removes : ops task = .remove profile auth scope id)
    (returned : Follows (Github.remove digest profile auth scope id)
      (own task first ++ [called]) (.ok ()))
    (lists : ops other = .list profile auth' scope ttl) :
    ∃ fetcher stored generation before after, own fetcher first = [] ∧
      middle = before ++ ⟨stored, .served fetcher
        ⟨.storeRunners key scope generation runners, ()⟩⟩ :: after := by
  obtain rfl := Interleaved.removal returned
  have calm := unexposed first at_ task (middle ++ _ :: rest) profile auth scope id
    (by rw [split, List.append_assoc]; rfl) removes
  subst split
  have asked := Interleaved.orderly run
  obtain ⟨-, rfl, -⟩ := asked
  obtain ⟨stored, found, -⟩ := Interleaved.cached run
  rw [GithubOp.key, lists] at found ⊢
  have unset : ¬ Cache.default.cache (Github.authKey digest profile auth', scope) =
    some (stored, runners) := nofun
  obtain ⟨before, ⟨stored', event⟩, after, whole, unset, held⟩ := Cache.service.since
    (fun cache : Cache => cache.cache (Github.authKey digest profile auth', scope) =
      some (stored, runners)) unset found
  have put := held [] after rfl
  rw [Service.after_append, Service.after_cons, Service.after_nil] at put
  cases event with
  | outside event => exact nomatch put
  | served fetcher made =>
      obtain ⟨call, reply⟩ := made
      obtain already | ⟨generation, runners', rfl, entry, -⟩ := Cache.effect_cache put
      · exact absurd already unset
      · cases entry
        rw [whole] at run
        have run' := run.before
        obtain ⟨more, rfl, later⟩ | ⟨more, rfl, later⟩ := List.append_eq_append_iff.mp whole
        · -- stored after the removal: the listing would have been in flight
          cases more with
          | nil => exact nomatch later
          | cons m more =>
              cases later
              refine ⟨fetcher, stored', generation, more, after, ?_, rfl⟩
              by_contra begun
              obtain ⟨-, key, ⟨ttl', listing⟩, -⟩ := Interleaved.orderly run'
              exact calm (.inl ⟨fetcher, auth', ttl', listing, key.symm, begun,
                Interleaved.unfinished run'⟩)
        · -- stored before: the removal drops it, or leaves the profile exposed
          cases more with
          | nil => exact nomatch later
          | cons m more =>
              cases later
              by_cases same :
                  Github.authKey digest profile auth' = Github.authKey digest profile auth
              · have kept := held (more ++ [_]) middle (List.append_cons ..)
                rw [← List.cons_append, ← List.append_assoc, Service.after_append, same] at kept
                have dropped : ∀ cache : Cache, (cache.dropRunners
                    (Github.authKey digest profile auth) scope).cache
                      (Github.authKey digest profile auth, scope) = none :=
                  fun cache => Function.update_self ..
                exact nomatch (dropped _).symm.trans kept
              · refine absurd (.inr ⟨auth', same, ?_⟩) calm
                rw [held more (_ :: middle) rfl]
                exact nofun

end Removal

/-- A page with the runner 7. -/
def HttpResponse.seventh : HttpResponse :=
  ⟨200, "200 OK", none, none, none,
    some ⟨some (.ok [⟨7, "", "offline", false⟩]), none, none⟩⟩

/-- Operation 1 removes the runner 7, and the others are listings. -/
def removing (task : Nat) : GithubOp :=
  if task = 1 then .remove "" ⟨"", none⟩ "" 7 else .list "" ⟨"", none⟩ "" 10

/-- The calls of a removal. -/
def removingCues : List Cue :=
  [.next 0 1 .nothing, .next 0 1 .nothing, .next 0 1 (.secret (.ok "")),
    .next 0 1 (.response (some ⟨204, "204 No Content", none, none, none, none⟩)),
    .next 0 1 .nothing]

/-- The calls of a listing, before it stores the runner. -/
def listingCues : List Cue :=
  [.next 0 0 .nothing, .next 0 0 .nothing, .next 0 0 .nothing, .next 0 0 .nothing,
    .next 0 0 (.secret (.ok "")), .next 0 0 (.response (some .seventh))]

/-- At this position the removal returns, and in the end the listing 2 is served with the
runner 7 from the cache. -/
def servesRemoved (position : Nat) (log : Log) : Bool :=
  match log.drop position, log.getLast? with
  | ⟨_, .served 1 called⟩ :: _ :: _,
    some ⟨_, .served 2 ⟨.cached _ "" 10, some runners⟩⟩ =>
      runners.any (·.id == 7) &&
        ((Github.remove (fun _ => "") "" ⟨"", none⟩ "" 7).replay
          (own 1 (log.take position) ++ [called])).bind Coroutine.value == some ()
  | _, _ => false

theorem servesRemoved_split {position : Nat} {log : Log}
    (serves : servesRemoved position log = true) :
    ∃ at_ called at' key runners, log = log.take position ++ ⟨at_, .served 1 called⟩ ::
        (log.drop (position + 1)).dropLast ++
          ⟨at', .served 2 ⟨.cached key "" 10, some runners⟩⟩ :: [] ∧
      (∃ r ∈ runners, r.id = 7) ∧
      Follows (Github.remove (fun _ => "") "" ⟨"", none⟩ "" 7)
        (own 1 (log.take position) ++ [called]) (.ok ()) := by
  unfold servesRemoved at serves
  split at serves
  · next at_ called second others at' key runners tail final =>
      rw [Bool.and_eq_true, beq_iff_eq, List.any_eq_true] at serves
      obtain ⟨⟨r, member, seventh⟩, returned⟩ := serves
      refine ⟨at_, called, at', key, runners, ?_, ⟨r, member, of_decide_eq_true seventh⟩,
        follows_to_value returned⟩
      have rest : log.drop (position + 1) = second :: others := by
        rw [← List.drop_drop, tail, List.drop_one, List.tail_cons]
      have whole := List.take_append_drop position log
      rw [tail] at whole
      have last : (second :: others).getLast? =
          some ⟨at', .served 2 ⟨.cached key "" 10, some runners⟩⟩ := by
        rw [← final, ← whole, List.getLast?_append_cons, List.getLast?_cons_cons]
      rw [rest, List.append_assoc, List.cons_append, List.dropLast_append_getLast? _ last]
      exact whole.symm
  · exact absurd serves Bool.false_ne_true

/-- The removal is alone until it returns, and is the only one. -/
def alone (position : Nat) (log : Log) : Bool :=
  ((log.take position).all fun m => match m.event with
    | .served 1 _ => true
    | _ => false) &&
  (log.take position ++ log.drop (position + 1)).all fun m => match m.event with
    | .served _ ⟨.dropRunners _ _, _⟩ => false
    | _ => true

theorem unexposed_of_alone {position : Nat} {log first rest : Log} {at_ task : Nat}
    {key profile scope : String} {auth : Auth} (single : alone position log = true)
    (split : log = first ++ ⟨at_, .served task ⟨.dropRunners key scope, ()⟩⟩ :: rest) :
    ¬ Exposed (fun _ => "") removing first profile auth scope := by
  simp only [alone, Bool.and_eq_true, List.all_eq_true] at single
  obtain ⟨only, once⟩ := single
  have here : log[first.length]? =
      some ⟨at_, .served task ⟨.dropRunners key scope, ()⟩⟩ := by
    rw [split, List.getElem?_append_right (Nat.le_refl _), Nat.sub_self, List.getElem?_cons_zero]
  have before : first = log.take position := by
    rcases Nat.lt_trichotomy first.length position with less | rfl | more
    · rw [← List.getElem?_take_of_lt less] at here
      exact nomatch once _ (List.mem_append_left _ (List.mem_of_getElem? here))
    · rw [split, List.take_left]
    · obtain ⟨gap, same⟩ := Nat.exists_eq_add_of_lt more
      have offset : first.length = position + 1 + gap := by omega
      rw [offset, ← List.getElem?_drop] at here
      exact nomatch once _ (List.mem_append_right _ (List.mem_of_getElem? here))
  rintro (⟨other, auth', ttl, lists, -, begun, -⟩ | ⟨auth', differ, -⟩)
  · refine begun (List.filterMap_eq_nil_iff.mpr fun m member => ?_)
    have single := only m (before ▸ member)
    split at single
    · next event =>
        rw [event]
        refine if_neg fun same => ?_
        subst same
        exact nomatch lists
    · exact absurd single Bool.false_ne_true
  · exact differ rfl

/-- A listing that begins after the removal brings the registration back only if GitHub still
lists it. -/
theorem removal_final_sample : ∃ (log : Log) (fetcher stored generation : Nat) (key : String)
    (runners : List RemoteRunner), own fetcher (log.take 4) = [] ∧
      ⟨stored, .served fetcher ⟨.storeRunners key "" generation runners, ()⟩⟩ ∈ log := by
  obtain ⟨log, run, checked⟩ := interleaved_of_script (fun _ => "") removing
    (removingCues ++ listingCues ++ [.next 1 0 .nothing, .next 1 2 .nothing, .next 1 2 .nothing])
    (fun log => servesRemoved 4 log && alone 4 log) (by decide +kernel)
  rw [Bool.and_eq_true] at checked
  obtain ⟨at_, called, at', key, runners, split, -, returned⟩ := servesRemoved_split checked.1
  obtain ⟨fetcher, stored, generation, before, after, unbegun, inserted⟩ := removal_final run
    (fun _ _ _ _ _ _ _ _ split _ => unexposed_of_alone checked.2 split) split rfl returned rfl
  refine ⟨log, fetcher, stored, generation, key, runners, unbegun, ?_⟩
  rw [split, inserted]
  simp

/-- A served call does not store a list of runners unless the caller's own calls are in `log`. -/
def storesKnown (log : Log) (m : Coroutines.Moment Call Call.Reply Unit) : Bool :=
  match m.event with
  | .served fetcher ⟨.storeRunners _ _ _ _, _⟩ => !(own fetcher log).isEmpty
  | _ => true

/-- A listing in flight brings a removed registration back. -/
theorem removal_undone : ¬ ∀ (digest : Auth → String) (ops : Nat → GithubOp)
    (log first middle rest : Log) (at_ at' task other : Nat) (called : Receipt)
    (profile scope : String) (auth auth' : Auth) (id ttl : Nat) (key : String)
    (runners : List RemoteRunner), Interleaved digest ops log →
    log = first ++ ⟨at_, .served task called⟩ :: middle ++
      ⟨at', .served other ⟨.cached key scope ttl, some runners⟩⟩ :: rest →
    ops task = .remove profile auth scope id →
    Follows (Github.remove digest profile auth scope id) (own task first ++ [called]) (.ok ()) →
    ops other = .list profile auth' scope ttl → (∃ r ∈ runners, r.id = id) →
    ∃ fetcher stored generation before after, own fetcher first = [] ∧
      middle = before ++ ⟨stored, .served fetcher
        ⟨.storeRunners key scope generation runners, ()⟩⟩ :: after := by
  intro final
  obtain ⟨log, run, checked⟩ := interleaved_of_script (fun _ => "") removing
    (listingCues ++ removingCues ++ [.next 1 0 .nothing, .next 1 2 .nothing, .next 1 2 .nothing])
    (fun log => servesRemoved 10 log && (log.drop 11).all (storesKnown (log.take 10)))
    (by decide +kernel)
  rw [Bool.and_eq_true, List.all_eq_true] at checked
  obtain ⟨_, _, _, _, _, split, seventh, returned⟩ := servesRemoved_split checked.1
  obtain ⟨fetcher, stored, generation, before, after, unbegun, inserted⟩ :=
    final _ _ log _ _ _ _ _ 1 2 _ "" "" ⟨"", none⟩ ⟨"", none⟩ 7 10 _ _ run split rfl
      returned rfl seventh
  have member : ⟨stored, .served fetcher ⟨.storeRunners _ "" generation _, ()⟩⟩ ∈
      (log.drop 11).dropLast := inserted ▸ List.mem_append_right before List.mem_cons_self
  have begun := checked.2 _ ((List.dropLast_sublist _).subset member)
  simp [storesKnown, unbegun] at begun

end Runnerctl
