import Runnerctl.Metatheory.Interleaving

/-!
# What the client keeps

Whatever the interleaving, every entry of the three maps was put there by an operation that
read the generation after the last `clear`, and stands for a response received since.
-/

namespace Runnerctl

open Coroutines

/-- After the last `clear` of the log an operation read the generation, received `received`
and then, at the time `at_`, made this call. -/
def Current (log : Log) (at_ generation : Nat) (insertion : Call) (received : List Receipt) :
    Prop :=
  ∃ task first began middle reply rest, log =
      first ++ ⟨began, .served task ⟨.generation, generation⟩⟩ :: middle ++
        ⟨at_, .served task ⟨insertion, reply⟩⟩ :: rest ∧
    Quiet middle ∧ Quiet rest ∧ own task middle = received

section Caching

variable {digest : Auth → String} {ops : Nat → GithubOp} {log first rest : Log}
  {at_ task generation : Nat} {call : Call} {reply : call.Reply}

/-- An insertion that was not refused is current, if its generation was read by then. -/
theorem Current.intro {since : List Receipt} (before : List Receipt)
    (run : Interleaved digest ops (first ++ ⟨at_, .served task ⟨call, reply⟩⟩ :: rest))
    (quiet : Quiet rest) (read : own task first = before ++ ⟨.generation, generation⟩ :: since)
    (same : (cacheAfter first).generation = generation) :
    Current (first ++ ⟨at_, .served task ⟨call, reply⟩⟩ :: rest) at_ generation call
      since := by
  obtain ⟨first, began, middle, rfl, quiet', -, received⟩ :=
    Interleaved.quiet_since run.before read same
  exact ⟨task, first, began, middle, reply, rest, rfl, quiet', quiet, received⟩

/-- Clearing is final: at every moment each entry was inserted by an operation that read the
generation after the last `clear`, and it was received after that. -/
theorem entries_current (run : Interleaved digest ops log) :
    (∀ key scope stored runners,
      (cacheAfter log).cache (key, scope) = some (stored, runners) → ∃ generation received,
        Current log stored generation (.storeRunners key scope generation runners) received ∧
        runners = received.flatMap Receipt.runners) ∧
    (∀ key until_ message, (cacheAfter log).blocked key = some (until_, message) →
      ∃ at_ generation unauthorized wait received,
        Current log at_ generation (.recordError key generation unauthorized (some wait) message)
          received ∧
        until_ = min (at_ + wait) u64Max ∧
        ∃ answered ∈ received, ∃ response, Receipt.failure answered = some response ∧
          response.Blocks) ∧
    (∀ key expires token, (cacheAfter log).installationTokens key = some (expires, token) →
      ∃ at_ generation received,
        Current log at_ generation (.storeToken key generation expires token) received ∧
        ∃ installationId jwt response data,
          (⟨.exchange installationId jwt, some response⟩ : Receipt) ∈ received ∧
          response.body = some data ∧ data.token = some token ∧
            data.expiresAt = some expires) := by
  refine ⟨fun key scope stored runners found => ?_, fun key until_ message found => ?_,
    fun key expires token found => ?_⟩
  · obtain ⟨first, at_, task, ⟨call, reply⟩, rest, rfl, quiet, unset, inserted⟩ :=
      cause (fun cache : Cache => cache.cache (key, scope) = some (stored, runners))
        (fun _ => nofun) nofun found
    obtain already | ⟨generation, runners', rfl, entry, same⟩ := Cache.effect_cache inserted
    · exact absurd already unset
    · cases entry
      obtain ⟨-, -, -, ⟨since, past⟩, all⟩ := Interleaved.orderly run
      refine ⟨generation, since, .intro [] run quiet past same, ?_⟩
      rw [all, past]
      rfl
  · obtain ⟨first, at_, task, ⟨call, reply⟩, rest, rfl, quiet, unset, inserted⟩ :=
      cause (fun cache : Cache => cache.blocked key = some (until_, message))
        (fun _ => nofun) nofun found
    obtain already | ⟨generation, unauthorized, wait, message', rfl, entry, same⟩ :=
      Cache.effect_blocked inserted
    · exact absurd already unset
    · cases entry
      obtain ⟨-, response, nows, -, -, sentence, before, begun, since, answered, past,
        failed, -, read⟩ := Interleaved.orderly run
      have received : ∃ before since, own task first =
          before ++ ⟨.generation, generation⟩ :: since ∧ answered ∈ since := by
        rcases read with rfl | member
        · refine ⟨before, _, by rw [past, List.append_assoc]; rfl, ?_⟩
          exact List.mem_cons_of_mem _ (List.mem_append_right _ List.mem_cons_self)
        · obtain ⟨earlier, later, rfl⟩ := List.append_of_mem member
          refine ⟨before ++ ⟨.generation, begun⟩ :: ⟨.blocked key, none⟩ :: earlier,
            later ++ answered :: nows, by rw [past]; simp, ?_⟩
          exact List.mem_append_right _ List.mem_cons_self
      obtain ⟨before, since, past, member⟩ := received
      exact ⟨at_, generation, unauthorized, wait, since, .intro before run quiet past same, rfl,
        answered, member, response, failed, sentence.blocks⟩
  · obtain ⟨first, at_, task, ⟨call, reply⟩, rest, rfl, quiet, unset, inserted⟩ :=
      cause (fun cache : Cache => cache.installationTokens key = some (expires, token))
        (fun _ => nofun) nofun found
    obtain already | ⟨generation, expires', token', rfl, entry, same⟩ :=
      Cache.effect_installationTokens inserted
    · exact absurd already unset
    · cases entry
      obtain ⟨-, -, before, since, installationId, jwt, response, data, past, given⟩ :=
        Interleaved.orderly run
      rw [List.append_assoc, List.cons_append] at past
      refine ⟨at_, generation, _, .intro _ run quiet past same, installationId, jwt,
        response, data,
        ?_, given⟩
      exact List.mem_append_right _ (List.mem_singleton_self _)

end Caching

/-- A listing for an App is under way when the cache is cleared. -/
def clearedListing : List Cue :=
  [.next 0 0 .nothing, .clear 1, .next 1 0 .nothing, .next 1 0 .nothing, .next 1 0 .nothing,
    .next 1 0 .nothing, .next 1 0 .nothing, .next 1 0 (.secret (.ok "")),
    .next 1 0 (.response (some ⟨201, "201 Created", none, none, none,
      some ⟨none, some "token", some 9000⟩⟩)),
    .next 2 0 .nothing,
    .next 2 0 (.response (some ⟨200, "200 OK", none, none, none,
      some ⟨some (.ok []), none, none⟩⟩)),
    .next 3 0 .nothing]

/-- The token was obtained after the cache was cleared and is kept, unlike the listing, which
began before. -/
theorem entries_current_sample : ∃ log at_ generation received,
    (cacheAfter log).cache (":", "") = none ∧
      Current log at_ generation (.storeToken ":" generation 9000 "token") received := by
  obtain ⟨log, run, holding⟩ := interleaved_of_script (fun _ => "")
    (fun _ => .list "" ⟨"", some ⟨"", 0, ""⟩⟩ "" 0) clearedListing
    (fun log => ((cacheAfter log).cache (":", "")).isNone &&
      (cacheAfter log).installationTokens ":" == some (9000, "token"))
    (by decide +kernel)
  simp only [Bool.and_eq_true, Option.isNone_iff_eq_none, beq_iff_eq] at holding
  obtain ⟨at_, generation, received, current, -⟩ :=
    (entries_current run).2.2 ":" 9000 "token" holding.2
  exact ⟨log, at_, generation, received, holding.1, current⟩

end Runnerctl
