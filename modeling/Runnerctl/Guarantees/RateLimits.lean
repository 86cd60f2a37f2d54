import Runnerctl.Metatheory.Interleaving

/-!
# Deadlines of rate limits

A request looks at the block of its credential once, before it is sent, and an error is
recorded some time after its response arrived.  What is announced in between can be
shortened, or missed; and of several announced times a response tells of only one is recorded.
Where no error is pending beside another request of the credential, and no response announces
more than is recorded of it, deadlines are kept.
-/

namespace Runnerctl

open Coroutines

/-- The time that `response_error` takes from a rate limit that arrives at `at_`:
`Retry-After`, or else the reset. -/
def HttpResponse.deadline (response : HttpResponse) (at_ : Nat) : Option Nat :=
  match response.delay with
  | some delay => some (at_ + delay)
  | none => response.reset.bind parseU64

/-- The times that GitHub announces in a response that arrives at `at_`, whatever its status:
`Retry-After`, and the reset of a limit that is exhausted. -/
def HttpResponse.announced (response : HttpResponse) (at_ : Nat) : List Nat :=
  (response.delay.map (at_ + ·)).toList ++
    if response.status = 429 ∨ response.remaining = some "0" then
      (response.reset.bind parseU64).toList
    else []

/-- The response to a request to GitHub. -/
def Receipt.response : Receipt → Option HttpResponse
  | ⟨.send _ _ _, response⟩ | ⟨.exchange _ _, response⟩ => response
  | _ => none

/-- Nothing as late as an announced time in the future is recorded of a response that arrives
at `at_`: it is not an error, or one from which an earlier time is taken. -/
def Understates (at_ : Nat) (answered : Receipt) : Prop :=
  ∃ response, Receipt.response answered = some response ∧
    ∃ announced ∈ response.announced at_, at_ < announced ∧
      ∀ deadline, Receipt.failure answered = some response →
        response.deadline at_ = some deadline → deadline < announced

/-- A request to GitHub. -/
def Call.sends : Call → Bool
  | .send _ _ _ | .exchange _ _ => true
  | _ => false

/-- A request is between its look at the block and its end. -/
def InFlight (digest : Auth → String) (ops : Nat → GithubOp) (task : Nat) (log : Log) : Prop :=
  Unfinished digest ops task log ∧ ∃ before key since,
    own task log = before ++ ⟨.blocked key, none⟩ :: since ∧
      ∀ answered ∈ since, Receipt.final answered = false

/-- An error that blocks a credential has arrived and is not recorded, while another request
with the credential is in flight. -/
def Crossed (digest : Auth → String) (ops : Nat → GithubOp) (log : Log) : Prop :=
  ∃ task other, other ≠ task ∧ (ops other).key digest = (ops task).key digest ∧
    (∃ response nows, Failing (own task log) response nows ∧ response.Blocks) ∧
    InFlight digest ops other log

/-- Two splits of a list at its last element with a property are one. -/
theorem split_unique {α : Type} (p : α → Prop) {first first' rest rest' : List α} {a b : α}
    (same : first ++ a :: rest = first' ++ b :: rest') (marked : p a) (marked' : p b)
    (last : ∀ c ∈ rest, ¬ p c) (last' : ∀ c ∈ rest', ¬ p c) :
    first = first' ∧ a = b ∧ rest = rest' := by
  obtain ⟨more, rfl, later⟩ | ⟨more, rfl, later⟩ := List.append_eq_append_iff.mp same
  · cases more with
    | nil =>
        cases later
        exact ⟨(List.append_nil _).symm, rfl, rfl⟩
    | cons c more =>
        cases later
        exact absurd marked' (last b (List.mem_append_right _ List.mem_cons_self))
  · cases more with
    | nil =>
        cases later
        exact ⟨List.append_nil _, rfl, rfl⟩
    | cons c more =>
        cases later
        exact absurd marked (last' a (List.mem_append_right _ List.mem_cons_self))

/-- What announces a time is a rate limit, if it is an error. -/
theorem HttpResponse.limited_of_announced {response : HttpResponse} {at_ announced : Nat}
    (announces : announced ∈ response.announced at_) : response.Limited := by
  rcases List.mem_append.mp announces with delayed | reset
  · obtain ⟨delay, asked, -⟩ := Option.map_eq_some_iff.mp (Option.mem_toList.mp delayed)
    exact .inr (.inr (Option.isSome_of_mem asked))
  · split at reset
    · next exhausted => exact exhausted.imp_right .inl
    · exact absurd reset List.not_mem_nil

section Receipts

variable {answered : Receipt} {past : List Receipt} {response : HttpResponse}

theorem Receipt.failure_of_isNow (now : Receipt.isNow answered = true) :
    Receipt.failure answered = none := by
  unfold Receipt.isNow at now
  split at now
  · rfl
  · exact absurd now Bool.false_ne_true

theorem Receipt.final_of_path (unsent : Receipt.path answered = none) :
    Receipt.final answered = false := by
  simp [Receipt.final, unsent]

theorem Receipt.final_of_failure (failed : Receipt.failure answered = some response) :
    Receipt.final answered = false := by
  simp [Receipt.final, failed]

theorem Receipt.path_of_isNow (now : Receipt.isNow answered = true) :
    Receipt.path answered = none := by
  unfold Receipt.isNow at now
  split at now
  · rfl
  · exact absurd now Bool.false_ne_true

end Receipts

section Limits

variable {digest : Auth → String} {ops : Nat → GithubOp} {log first middle rest : Log}
  {at_ task : Nat}

/-- Nothing but the time is asked for after an error, until it is recorded. -/
theorem Orderly.after_failure {op : GithubOp} {before nows : List Receipt} {answered : Receipt}
    {call : Call} (orderly : Orderly digest op (before ++ answered :: nows) call)
    {response : HttpResponse} (failed : Receipt.failure answered = some response) :
    call = .now ∨ ∃ key generation unauthorized wait message,
      call = .recordError key generation unauthorized wait message := by
  have unfailed : ¬ Unfailed (before ++ answered :: nows) := fun unfailed =>
    nomatch failed.symm.trans (unfailed answered (List.mem_append_right _ List.mem_cons_self))
  cases call with
  | now => exact .inl rfl
  | recordError => exact .inr ⟨_, _, _, _, _, rfl⟩
  | _ => exact absurd (by first | exact orderly | exact orderly.1) unfailed

/-- A stored deadline is a `u64`. -/
theorem blocked_le {key message : String} {until_ : Nat}
    (blocked : (cacheAfter log).blocked key = some (until_, message)) : until_ ≤ u64Max := by
  obtain ⟨first, at_, task, called, rest, -, -, unset, put⟩ :=
    cause (fun cache : Cache => cache.blocked key = some (until_, message)) (fun _ => nofun)
      nofun blocked
  obtain already | ⟨_, _, _, _, -, entry, -⟩ := Cache.effect_blocked put
  · exact absurd already unset
  · cases entry
    exact Nat.min_le_right ..

/-- A block is left alone, or recorded anew. -/
theorem Cache.effect_blocked_of (at_ : Nat) (call : Call) {cache : Cache} {key : String}
    {entry : Nat × String} (blocked : cache.blocked key = some entry) :
    (cache.effect at_ call).blocked key = some entry ∨
      ∃ generation unauthorized wait message,
        call = .recordError key generation unauthorized (some wait) message ∧
        (cache.effect at_ call).blocked key = some (min (at_ + wait) u64Max, message) := by
  cases call with
  | storeToken => simp only [effect, storeToken]; split <;> exact .inl blocked
  | storeRunners => simp only [effect, storeRunners]; split <;> exact .inl blocked
  | recordError key' generation unauthorized wait message =>
      simp only [effect, recordError]
      split
      · cases wait with
        | none => exact .inl blocked
        | some wait =>
            by_cases same : key = key'
            · subst same
              exact .inr ⟨generation, unauthorized, wait, message, rfl, Function.update_self ..⟩
            · exact .inl ((Function.update_of_ne same ..).trans blocked)
      · exact .inl blocked
  | _ => exact .inl blocked

/-- Where nothing is crossed, a deadline that is replaced has passed. -/
theorem Interleaved.recorded_late {key text message : String} {until_ generation : Nat}
    {unauthorized : Bool} {wait : Option Nat}
    {reply : (Call.recordError key generation unauthorized wait message).Reply}
    (run : Interleaved digest ops (first ++ ⟨at_, .served task ⟨.recordError key generation
      unauthorized wait message, reply⟩⟩ :: rest))
    (calm : ∀ before after, first = before ++ after → ¬ Crossed digest ops before)
    (blocked : (cacheAfter first).blocked key = some (until_, text)) : until_ ≤ at_ := by
  obtain ⟨rfl, response, nows, ⟨_, _, _, _, _, only⟩, -, -, before, began, since,
    answered, past, failed, inner, -⟩ := Interleaved.orderly run
  have past : own task first = (before ++ [⟨.generation, began⟩]) ++
      ⟨.blocked ((ops task).key digest), none⟩ :: (since ++ answered :: nows) := by
    rw [past]
    simp
  have unending : ∀ made ∈ since ++ answered :: nows, Receipt.final made = false ∧
      ∀ key generation unauthorized wait message reply,
        made ≠ ⟨.recordError key generation unauthorized wait message, reply⟩ := by
    intro made member
    rcases List.mem_append.mp member with early | late
    · refine ⟨Receipt.final_of_path (Receipt.path_of_inner (inner made early)), ?_⟩
      rintro _ _ _ _ _ _ rfl
      exact Bool.false_ne_true (inner _ early)
    · rcases List.mem_cons.mp late with rfl | now
      · refine ⟨Receipt.final_of_failure failed, ?_⟩
        rintro _ _ _ _ _ _ rfl
        cases failed
      · refine ⟨Receipt.final_of_path (Receipt.path_of_isNow (only made now)), ?_⟩
        rintro _ _ _ _ _ _ rfl
        exact Bool.false_ne_true (only _ now)
  obtain ⟨start, looked, later, rfl, ownStart, ownLater⟩ := moment_of_own past
  have whole := run
  rw [List.append_assoc, List.cons_append] at run
  by_cases already : (cacheAfter (start ++
      [⟨looked, .served task ⟨.blocked ((ops task).key digest), none⟩⟩])).blocked
        ((ops task).key digest) = some (until_, text)
  · rw [cacheAfter, Service.after_append] at already
    refine Nat.le_trans (Interleaved.unblocked run already) ?_
    exact run.time_le (List.mem_append_right _ List.mem_cons_self)
  · -- the block came after the look: this request was in flight when it was recorded
    rw [List.append_cons, cacheAfter, Service.after_append] at blocked
    obtain ⟨h, ⟨recorded, event⟩, h', rfl, unset, put⟩ := Cache.service.since
      (fun cache : Cache => cache.blocked ((ops task).key digest) = some (until_, text))
      already blocked
    have put := put [] h' rfl
    rw [Service.after_append, Service.after_cons, Service.after_nil] at put
    cases event with
    | outside event => cases put
    | served other made =>
        obtain ⟨call, made⟩ := made
        obtain same | ⟨_, _, _, _, rfl, -, -⟩ := Cache.effect_blocked put
        · exact absurd same unset
        · obtain ⟨before', same⟩ : ∃ before', before' = start ++
              ⟨looked, .served task ⟨.blocked ((ops task).key digest), none⟩⟩ :: h :=
            ⟨_, rfl⟩
          have shape : start ++
                ⟨looked, .served task ⟨.blocked ((ops task).key digest), none⟩⟩ ::
                (h ++ ⟨recorded, .served other ⟨.recordError _ _ _ _ _, made⟩⟩ :: h') =
              before' ++
                ⟨recorded, .served other ⟨.recordError _ _ _ _ _, made⟩⟩ :: h' := by
            rw [same, List.append_assoc, List.cons_append]
          rw [shape] at whole calm
          have unfinished := Interleaved.unfinished whole
          rw [List.append_assoc] at whole
          obtain ⟨keys, response', nows', failing', -, sentence', -⟩ :=
            Interleaved.orderly whole
          have differ : task ≠ other := by
            rintro rfl
            refine (unending ⟨.recordError _ _ _ _ _, made⟩ ?_).2 _ _ _ _ _ _ rfl
            rw [← ownLater, own_append, own_self]
            exact List.mem_append_right _ List.mem_cons_self
          refine absurd ⟨other, task, differ, keys,
            ⟨response', nows', failing', sentence'.blocks⟩, unfinished,
            before ++ [⟨.generation, began⟩], (ops task).key digest, own task h, ?_, ?_⟩
            (calm _ _ rfl)
          · rw [same, own_append, ownStart, own_self]
          · intro made member
            refine (unending made ?_).1
            rw [← ownLater, own_append]
            exact List.mem_append_left _ member

/-- Where nothing is crossed, a block grows until the cache is cleared. -/
theorem Interleaved.blocked_grows {key text : String} {until_ : Nat}
    (run : Interleaved digest ops (first ++ middle))
    (calm : ∀ before after, first ++ middle = before ++ after → ¬ Crossed digest ops before)
    (quiet : Quiet middle) (blocked : (cacheAfter first).blocked key = some (until_, text)) :
    ∃ until' text', (cacheAfter (first ++ middle)).blocked key = some (until', text') ∧
      until_ ≤ until' := by
  induction middle using List.reverseRecOn with
  | nil =>
      rw [List.append_nil]
      exact ⟨until_, text, blocked, Nat.le_refl _⟩
  | append_singleton middle m inductionHypothesis =>
      rw [← List.append_assoc] at run calm ⊢
      obtain ⟨quiet, last⟩ := quiet_append.mp quiet
      have calm' : ∀ before after, first ++ middle = before ++ after →
          ¬ Crossed digest ops before := fun before after same =>
        calm before (after ++ [m]) (by rw [same, List.append_assoc])
      obtain ⟨until', text', kept, longer⟩ := inductionHypothesis run.before calm' quiet
      rw [cacheAfter, Service.after_append, Service.after_cons, Service.after_nil]
      obtain ⟨at_, event⟩ := m
      cases event with
      | outside event => exact absurd rfl (last _ (List.mem_singleton_self _))
      | served task made =>
          obtain ⟨call, made⟩ := made
          obtain same | ⟨_, _, wait, message, rfl, renewed⟩ :=
            Cache.effect_blocked_of at_ call kept
          · exact ⟨until', text', same, longer⟩
          · refine ⟨_, message, renewed, Nat.le_trans longer ?_⟩
            have late := Interleaved.recorded_late run calm' kept
            exact Nat.le_min.mpr ⟨Nat.le_add_right_of_le late, blocked_le kept⟩

/-- A limit is recorded at least until the time that it announces. -/
theorem Sentence.late {response : HttpResponse} {nows : List Receipt} {wait : Option Nat}
    {arrived announced : Nat} (sentence : Sentence response nows wait)
    (limited : response.Limited) (deadline : response.deadline arrived = some announced)
    (later : arrived ≤ at_)
    (past : ∀ now, (⟨.now, now⟩ : Receipt) ∈ nows → now ≤ at_) :
    ∃ delay, wait = some delay ∧ announced ≤ at_ + delay := by
  unfold HttpResponse.deadline at deadline
  cases sentence with
  | @delayed delay _ asked =>
      rw [asked] at deadline
      cases deadline
      exact ⟨_, rfl, Nat.add_le_add later (Nat.le_max_left ..)⟩
  | @limited _ second _ unasked =>
      rw [unasked] at deadline
      refine ⟨_, rfl, ?_⟩
      have before := past second (by simp)
      have reset : response.reset.bind parseU64 = some announced := deadline
      rw [reset, Option.getD_some]
      calc announced ≤ second + (announced - second) := Nat.sub_le_iff_le_add'.mp (Nat.le_refl _)
        _ ≤ at_ + max (announced - second) 1 := Nat.add_le_add before (Nat.le_max_left ..)
  | refused unlimited _ => exact absurd limited unlimited
  | harmless harmless => exact absurd (.inl limited) harmless

/-- The last request of an operation, with what came before it. -/
theorem Orderly.request_unique {before before' since since' nows nows' : List Receipt}
    {key : String} {answered answered' : Receipt} {generation generation' : Nat}
    {response response' : HttpResponse}
    (same : before ++ ⟨.generation, generation⟩ :: ⟨.blocked key, none⟩ :: since ++
        answered :: nows =
      before' ++ ⟨.generation, generation'⟩ :: ⟨.blocked key, none⟩ :: since' ++
        answered' :: nows')
    (failed : Receipt.failure answered = some response)
    (failed' : Receipt.failure answered' = some response')
    (inner : ∀ made ∈ since, Receipt.inner made = true)
    (inner' : ∀ made ∈ since', Receipt.inner made = true)
    (only : ∀ now ∈ nows, Receipt.isNow now = true)
    (only' : ∀ now ∈ nows', Receipt.isNow now = true) :
    generation = generation' ∧ since = since' ∧ response = response' ∧ nows = nows' := by
  have awake : ∀ {made : Receipt} {response}, Receipt.failure made = some response →
      ¬ Receipt.isNow made = true :=
    fun failed now => nomatch (Receipt.failure_of_isNow now).symm.trans failed
  obtain ⟨requests, rfl, rfl⟩ := split_unique (fun made => ¬ Receipt.isNow made = true) same
    (awake failed) (awake failed') (fun now member => not_not.mpr (only now member))
    (fun now member => not_not.mpr (only' now member))
  rw [List.append_cons, List.append_cons before'] at requests
  obtain ⟨starts, -, rfl⟩ := split_unique (fun made => ¬ Receipt.inner made = true) requests
    Bool.false_ne_true Bool.false_ne_true (fun made member => not_not.mpr (inner made member))
    (fun made member => not_not.mpr (inner' made member))
  have last := List.singleton_inj.mp (List.append_inj' starts rfl).2
  cases last
  exact ⟨rfl, rfl, Option.some.inj (failed.symm.trans failed'), rfl⟩

/-- A generation that was read since a quiet time is the generation at that time. -/
theorem Interleaved.read_generation {generation : Nat} {calls since : List Receipt}
    (run : Interleaved digest ops (first ++ middle)) (quiet : Quiet middle)
    (read : own task middle = calls ++ ⟨.generation, generation⟩ :: since) :
    generation = (cacheAfter first).generation := by
  obtain ⟨early, at_, late, rfl, -, -⟩ := moment_of_own read
  rw [← List.append_assoc] at run
  refine (Interleaved.replied run rfl).trans ?_
  rw [cacheAfter, Service.after_append]
  exact Cache.generation_of_quiet (quiet_append.mp quiet).1

/-- An error of a request that began after the last `clear` is recorded. -/
theorem Interleaved.recorded {began arrived generation generation' announced : Nat}
    {since : List Receipt} {answered : Receipt} {response : HttpResponse} {later before : Log}
    {key message : String} {unauthorized : Bool} {wait : Option Nat}
    {reply : (Call.recordError key generation' unauthorized wait message).Reply}
    (whole : before = first ++ ⟨began, .served task ⟨.generation, generation⟩⟩ :: middle ++
      ⟨arrived, .served task answered⟩ :: later)
    (run : Interleaved digest ops (before ++ ⟨at_, .served task ⟨.recordError key generation'
      unauthorized wait message, reply⟩⟩ :: rest))
    (quiet : Quiet middle) (quiet' : Quiet later)
    (request : own task middle = ⟨.blocked ((ops task).key digest), none⟩ :: since)
    (inner : ∀ made ∈ since, Receipt.inner made = true)
    (nows : ∀ now ∈ own task later, Receipt.isNow now = true)
    (failed : Receipt.failure answered = some response) (limited : response.Limited)
    (deadline : response.deadline arrived = some announced) :
    key = (ops task).key digest ∧ ∃ until_ text,
      ((cacheAfter before).effect at_
        (.recordError key generation' unauthorized wait message)).blocked
        key = some (until_, text) ∧ min announced u64Max ≤ until_ := by
  obtain ⟨rfl, response', nows', ⟨_, _, _, _, _, only'⟩, -, sentence, before', began', since',
    answered', past, failed', inner', read⟩ := Interleaved.orderly run
  have mine : own task before = own task first ++ ⟨.generation, generation⟩ ::
      ⟨.blocked ((ops task).key digest), none⟩ :: since ++ answered :: own task later := by
    rw [whole, own_append, own_append, own_self, own_self, request]
  obtain ⟨rfl, rfl, rfl, rfl⟩ := Orderly.request_unique (mine.symm.trans past)
    failed failed' inner inner' nows only'
  refine ⟨rfl, ?_⟩
  subst whole
  have begun := run
  simp only [List.append_assoc, List.cons_append] at begun
  have start : generation = (cacheAfter first).generation := Interleaved.replied begun rfl
  have current : (cacheAfter (first ++
      ⟨began, .served task ⟨.generation, generation⟩⟩ :: middle ++
      ⟨arrived, .served task answered⟩ :: later)).generation = generation' := by
    have still : Quiet (⟨began, .served task ⟨.generation, generation⟩⟩ :: (middle ++
        ⟨arrived, .served task answered⟩ :: later)) :=
      List.forall_mem_cons.mpr ⟨nofun, quiet_append.mpr ⟨quiet, List.forall_mem_cons.mpr
        ⟨nofun, quiet'⟩⟩⟩
    rw [List.append_assoc, List.cons_append, cacheAfter, Service.after_append,
      Cache.generation_of_quiet still]
    rcases read with rfl | inside
    · exact start.symm
    · obtain ⟨early, late, rfl⟩ := List.append_of_mem inside
      rw [List.append_cons, ← List.append_assoc] at begun
      have split : own task middle = (⟨.blocked ((ops task).key digest), none⟩ :: early) ++
        ⟨.generation, generation'⟩ :: late := request
      rw [Interleaved.read_generation begun.before quiet split, cacheAfter, Service.after_append]
      rfl
  have times : ∀ now, (⟨.now, now⟩ : Receipt) ∈ own task later → now ≤ at_ := by
    intro now asked
    obtain ⟨early, late, split⟩ := List.append_of_mem asked
    obtain ⟨l, looked, l', rfl, -, -⟩ := moment_of_own split
    have timed : Interleaved digest ops (first ++
        ⟨began, .served task ⟨.generation, generation⟩⟩ :: middle ++
        ⟨arrived, .served task answered⟩ :: l ++ ⟨looked, .served task ⟨.now, now⟩⟩ ::
        (l' ++ ⟨at_, .served task ⟨.recordError _ generation' unauthorized wait message,
          reply⟩⟩ :: rest)) := by
      simpa using run
    obtain rfl : now = looked := Interleaved.replied timed rfl
    exact timed.time_le (List.mem_append_right _ List.mem_cons_self)
  have arrival : arrived ≤ at_ := by
    have timed := run
    rw [List.append_assoc, List.cons_append] at timed
    exact timed.time_le (List.mem_append_right _ List.mem_cons_self)
  obtain ⟨delay, rfl, late⟩ := sentence.late limited deadline arrival times
  refine ⟨min (at_ + delay) u64Max, message, ?_, ?_⟩
  · rw [Cache.effect, Cache.recordError, if_pos current]
    exact Function.update_self ..
  · exact Nat.le_min.mpr ⟨Nat.le_trans (Nat.min_le_left ..) late, Nat.min_le_right ..⟩

/-- A request is sent once its operation has looked at the block. -/
theorem Orderly.opened {op : GithubOp} {past : List Receipt} {call : Call}
    (orderly : Orderly digest op past call) (sends : call.sends = true) :
    Unfailed past ∧ Opened (op.key digest) past := by
  cases call with
  | send => exact orderly
  | exchange => exact orderly
  | _ => exact absurd sends Bool.false_ne_true

theorem Receipt.sends_of_failure {answered : Receipt} {response : HttpResponse}
    (failed : Receipt.failure answered = some response) : answered.request.sends = true := by
  unfold Receipt.failure at failed
  split at failed
  · rfl
  · rfl
  · exact nomatch failed

/-- The first element without a property. -/
theorem exists_first {α : Type} {p : α → Prop} {items : List α}
    (some : ¬ ∀ item ∈ items, p item) :
    ∃ before item after, items = before ++ item :: after ∧ (∀ other ∈ before, p other) ∧
      ¬ p item := by
  induction items with
  | nil => exact absurd nofun some
  | cons head rest inductionHypothesis =>
      by_cases holds : p head
      · have some : ¬ ∀ item ∈ rest, p item := fun all =>
          some (List.forall_mem_cons.mpr ⟨holds, all⟩)
        obtain ⟨before, item, after, rfl, all, fails⟩ := inductionHypothesis some
        exact ⟨head :: before, item, after, rfl,
          List.forall_mem_cons.mpr ⟨holds, all⟩, fails⟩
      · exact ⟨[], head, rest, rfl, nofun, holds⟩

/-- Where nothing is crossed, no request with a credential is sent before a deadline that a
rate limit has announced to a request begun after the last `clear`. -/
theorem Interleaved.sent_late {other began arrived sentAt generation announced : Nat}
    {since : List Receipt} {answered asked : Receipt} {response : HttpResponse} {later : Log}
    (run : Interleaved digest ops (first ++
      ⟨began, .served task ⟨.generation, generation⟩⟩ ::
      middle ++ ⟨arrived, .served task answered⟩ :: later ++
        ⟨sentAt, .served other asked⟩ :: rest))
    (calm : ∀ before after, first ++ ⟨began, .served task ⟨.generation, generation⟩⟩ ::
        middle ++ ⟨arrived, .served task answered⟩ :: later = before ++ after →
      ¬ Crossed digest ops before)
    (quiet : Quiet middle) (quiet' : Quiet later)
    (request : own task middle = ⟨.blocked ((ops task).key digest), none⟩ :: since)
    (inner : ∀ made ∈ since, Receipt.inner made = true)
    (failed : Receipt.failure answered = some response) (limited : response.Limited)
    (deadline : response.deadline arrived = some announced)
    (keys : (ops other).key digest = (ops task).key digest)
    (sends : asked.request.sends = true) : min announced u64Max ≤ sentAt := by
  obtain ⟨unfailed, looks, read, prepared, past, ready⟩ :=
    (Interleaved.orderly run).opened sends
  obtain ⟨start, look, since', split, ownStart, ownSince⟩ :=
    moment_of_own (past.trans (List.append_cons ..))
  obtain ⟨A, whole⟩ : ∃ A,
      A = first ++ ⟨began, .served task ⟨.generation, generation⟩⟩ :: middle := ⟨_, rfl⟩
  rw [← whole] at run calm split unfailed
  have differ : other ≠ task := by
    rintro rfl
    have failing := unfailed answered (by simp [own_append])
    exact nomatch failing.symm.trans failed
  have answering := run
  rw [List.append_assoc, List.cons_append] at answering
  have fine : Unfailed (own task A) :=
    ((Interleaved.orderly answering).opened (Receipt.sends_of_failure failed)).1
  obtain ⟨more, rfl, later'⟩ | ⟨more, rfl, later'⟩ := List.append_eq_append_iff.mp split
  · -- the look came after the response
    cases more with
    | nil =>
        cases later'
        exact absurd rfl differ
    | cons m more =>
        cases later'
        obtain ⟨P, shape⟩ : ∃ P,
            P = A ++ ⟨arrived, .served task answered⟩ :: more := ⟨_, rfl⟩
        have looking : Interleaved digest ops (P ++ ⟨look, .served other
            ⟨.blocked ((ops other).key digest), none⟩⟩ :: (since' ++
              ⟨sentAt, .served other asked⟩ :: rest)) := by
          rw [shape]
          simpa using run
        have calm' : ∀ before after, P ++ [⟨look, .served other
            ⟨.blocked ((ops other).key digest), none⟩⟩] = before ++ after →
              ¬ Crossed digest ops before := by
          intro before after same
          refine calm before (after ++ since') ?_
          rw [← List.append_assoc, ← same, shape]
          simp
        have still : Quiet more := (quiet_append.mp quiet').1
        have mine : own task P = own task A ++ answered :: own task more := by
          rw [shape, own_append, own_self]
        by_cases nows : ∀ now ∈ own task more, Receipt.isNow now = true
        · -- the error is not recorded yet
          have unfinished : Unfinished digest ops other (P ++ [⟨look, .served other
              ⟨.blocked ((ops other).key digest), none⟩⟩]) := by
            have run := looking
            rw [List.append_cons, ← List.append_assoc] at run
            exact Interleaved.unfinished run
          refine absurd ⟨task, other, differ, keys,
            ⟨response, own task more, ⟨_, answered, ?_, failed, fine, nows⟩, .inl limited⟩,
            unfinished, looks ++ [⟨.generation, read⟩], (ops other).key digest, [], ?_,
            List.forall_mem_nil _⟩ (calm' _ [] (List.append_nil _).symm)
          · rw [own_append, own_other differ, own_nil, List.append_nil, mine]
          · rw [own_append, own_self, own_nil, shape, ownStart]
        · -- it is recorded, and the block has grown since
          obtain ⟨before, ⟨call, reply⟩, after, split, only, awake⟩ := exists_first nows
          obtain ⟨m₁, at_, m₂, rfl, ownBefore, -⟩ := moment_of_own split
          obtain ⟨Q, front⟩ : ∃ Q,
              Q = A ++ ⟨arrived, .served task answered⟩ :: m₁ := ⟨_, rfl⟩
          have through : P = Q ++ ⟨at_, .served task ⟨call, reply⟩⟩ :: m₂ := by
            rw [shape, front, List.append_assoc, List.cons_append]
          have recording := looking
          rw [through, List.append_assoc, List.cons_append] at recording
          have mine : own task Q = own task A ++ answered :: before := by
            rw [front, own_append, own_self, ownBefore]
          have orderly := Interleaved.orderly recording
          rw [mine] at orderly
          obtain rfl | ⟨key, generation', unauthorized, wait, message, rfl⟩ :=
            orderly.after_failure failed
          · exact absurd rfl awake
          · obtain ⟨quiet₁, quiet₂⟩ := quiet_append.mp still
            rw [← ownBefore] at only
            rw [whole] at front
            obtain ⟨rfl, until_, text, blocked, most⟩ :=
              Interleaved.recorded front recording quiet quiet₁ request inner only failed
                limited deadline
            rw [List.append_cons] at through
            have grown := looking.before
            rw [through] at grown
            obtain ⟨until', text', kept, longer⟩ := Interleaved.blocked_grows grown
              (fun before after same => calm' before (after ++ [_]) (by
                rw [through, same, List.append_assoc]))
              (List.forall_mem_cons.mp quiet₂).2 (by
                rw [cacheAfter, Service.after_append]
                exact blocked)
            rw [← through, ← keys] at kept
            calc min announced u64Max ≤ until_ := most
              _ ≤ until' := longer
              _ ≤ look := Interleaved.unblocked looking kept
              _ ≤ sentAt := looking.time_le (List.mem_append_right _ List.mem_cons_self)
  · -- the look came before the response: the request was in flight when it arrived
    cases more with
    | nil =>
        cases later'
        exact absurd rfl differ
    | cons m more =>
        cases later'
        have unfinished : Unfinished digest ops other (start ++ ⟨look, .served other
            ⟨.blocked ((ops other).key digest), none⟩⟩ :: more ++
              [⟨arrived, .served task answered⟩]) := by
          rw [List.append_cons _ _ later] at run
          exact Interleaved.unfinished run
        refine absurd ⟨task, other, differ, keys,
          ⟨response, [], ⟨_, answered, ?_, failed, fine, List.forall_mem_nil _⟩,
            .inl limited⟩, unfinished, looks ++ [⟨.generation, read⟩],
          (ops other).key digest, own other more, ?_, ?_⟩ (calm _ later (List.append_cons ..))
        · rw [own_append, own_self]
          rfl
        · rw [own_append, own_append, ownStart, own_self, own_other differ.symm, own_nil,
            List.append_nil]
        · intro made member
          refine Receipt.final_of_path (Receipt.path_of_inner (ready made ?_))
          rw [← ownSince]
          change made ∈ own other (more ++ _)
          rw [own_append]
          exact List.mem_append_left _ member

/-- Deadlines are kept in every run in which no request has an unrecorded error while another
one with its credential is in flight: the block of a credential does not shrink between two
calls of `clear`.  If moreover no response is understated, nothing is sent with the credential
before any time that GitHub has announced to a request begun since. -/
theorem deadlines_respected (run : Interleaved digest ops log)
    (calm : ∀ before after, log = before ++ after → ¬ Crossed digest ops before) :
    (∀ first middle rest key until_ text, log = first ++ middle ++ rest → Quiet middle →
      (cacheAfter first).blocked key = some (until_, text) → ∃ until' text',
        (cacheAfter (first ++ middle)).blocked key = some (until', text') ∧ until_ ≤ until') ∧
    ((∀ m ∈ log, ∀ task answered, m.event = .served task answered →
        ¬ Understates m.at_ answered) →
      ∀ first task began generation middle since arrived answered response announced later
        other sentAt asked rest,
      log = first ++ ⟨began, .served task ⟨.generation, generation⟩⟩ :: middle ++
        ⟨arrived, .served task answered⟩ :: later ++
        ⟨sentAt, .served other asked⟩ :: rest →
      Quiet middle → Quiet later →
      own task middle = ⟨.blocked ((ops task).key digest), none⟩ :: since →
      (∀ made ∈ since, Receipt.inner made = true) →
      Receipt.response answered = some response → announced ∈ response.announced arrived →
      (ops other).key digest = (ops task).key digest → asked.request.sends = true →
      min announced u64Max ≤ sentAt) := by
  constructor
  · intro first middle rest key until_ text split quiet blocked
    subst split
    exact Interleaved.blocked_grows run.before
      (fun before after same => calm before (after ++ rest) (by rw [same, List.append_assoc]))
      quiet blocked
  · intro heeded first task began generation middle since arrived answered response announced
      later other sentAt asked rest split quiet quiet' request inner responded announces keys sends
    subst split
    by_cases past : announced ≤ arrived
    · have timed := run
      rw [List.append_assoc, List.cons_append] at timed
      have ordered := timed.time_le (List.mem_append_right later List.mem_cons_self)
      exact (Nat.min_le_left ..).trans (past.trans ordered)
    · have heeded := heeded ⟨arrived, .served task answered⟩ (by simp) task answered rfl
      have recorded : ∃ deadline, Receipt.failure answered = some response ∧
          response.deadline arrived = some deadline ∧ announced ≤ deadline := by
        by_contra ignored
        refine heeded ⟨response, responded, announced, announces, Nat.lt_of_not_le past,
          fun deadline failed taken => Nat.lt_of_not_le fun enough => ignored ?_⟩
        exact ⟨deadline, failed, taken, enough⟩
      obtain ⟨deadline, failed, taken, enough⟩ := recorded
      have late := Interleaved.sent_late run
        (fun before after same => calm before (after ++ _ :: rest) (by
          rw [same, List.append_assoc]))
        quiet quiet' request inner failed (HttpResponse.limited_of_announced announces) taken keys
        sends
      exact (min_le_min_right _ enough).trans late

end Limits

/-- A listing up to its first response. -/
def respond (at_ task : Nat) (response : HttpResponse) : List Cue :=
  [.next at_ task .nothing, .next at_ task .nothing, .next at_ task .nothing,
    .next at_ task .nothing, .next at_ task (.secret (.ok "")),
    .next at_ task (.response (some response))]

/-- A rate limit of one hour. -/
def HttpResponse.hour : HttpResponse :=
  ⟨429, "429 Too Many Requests", none, some "3600", none, none⟩

/-- A page without runners. -/
def HttpResponse.empty : HttpResponse :=
  ⟨200, "200 OK", none, none, none, some ⟨some (.ok []), none, none⟩⟩

def HttpResponse.forbidden : HttpResponse := ⟨403, "403 Forbidden", none, none, none, none⟩

/-- An error is waiting to be recorded. -/
def failing (calls : List Receipt) : Bool :=
  match calls.reverse.dropWhile Receipt.isNow with
  | answered :: _ => (Receipt.failure answered).isSome
  | [] => false

theorem failing_of_failing {past nows : List Receipt} {response : HttpResponse}
    (stopped : Failing past response nows) : failing past = true := by
  obtain ⟨before, answered, rfl, failed, -, only⟩ := stopped
  have awake : ¬ Receipt.isNow answered = true :=
    fun now => nomatch (Receipt.failure_of_isNow now).symm.trans failed
  unfold failing
  rw [List.reverse_append, List.reverse_cons, List.append_assoc, List.dropWhile_append_of_pos,
    List.singleton_append, List.dropWhile_cons_of_neg awake]
  · simp [failed]
  · exact fun now member => only now (List.mem_reverse.mp member)

/-- The operations 0 and 1 make all calls, and 1 does nothing while 0 has an error to record. -/
def separate (log : Log) : Bool :=
  (log.all fun m => match m.event with
    | .served task _ => task == 0 || task == 1
    | .outside _ => true) &&
  (List.range (log.length + 1)).all fun n =>
    (!failing (own 0 (log.take n)) || (own 1 (log.take n)).isEmpty) &&
      !failing (own 1 (log.take n))

theorem calm_of_separate {digest : Auth → String} {ops : Nat → GithubOp}
    {log before after : Log}
    (separated : separate log = true) (split : log = before ++ after) :
    ¬ Crossed digest ops before := by
  simp only [separate, Bool.and_eq_true, List.all_eq_true, Bool.or_eq_true, Bool.not_eq_true',
    List.mem_range] at separated
  obtain ⟨makers, apart⟩ := separated
  have short : before.length < log.length + 1 := by
    rw [split, List.length_append]
    omega
  obtain ⟨first, second⟩ := apart before.length short
  rw [split, List.take_left] at first second
  have idle : ∀ task, task ≠ 0 → task ≠ 1 → own task before = [] := by
    intro task notZero notOne
    refine List.filterMap_eq_nil_iff.mpr fun m member => ?_
    have maker := makers m (split ▸ List.mem_append_left after member)
    split at maker
    · next caller made event =>
        rw [event]
        refine if_neg fun same => ?_
        subst same
        rw [Bool.or_eq_true, beq_iff_eq, beq_iff_eq] at maker
        exact maker.elim notZero notOne
    · next event => rw [event]
  rintro ⟨task, other, differ, -, ⟨response, nows, stopped⟩, -, _, _, _, calls, -⟩
  have stuck := failing_of_failing stopped.1
  have active : own other before ≠ [] := by
    rw [calls]
    exact List.append_ne_nil_of_right_ne_nil _ (List.cons_ne_nil _ _)
  by_cases zero : task = 0
  · subst zero
    by_cases one : other = 1
    · subst one
      rw [stuck, List.isEmpty_iff] at first
      exact first.elim Bool.noConfusion active
    · exact active (idle other differ one)
  · by_cases one : task = 1
    · subst one
      exact Bool.noConfusion (stuck.symm.trans second)
    · rw [idle task zero one] at stuck
      exact Bool.noConfusion stuck

/-- What the responses announce is recorded. -/
def candid (log : Log) : Bool :=
  log.all fun m => match m.event with
    | .served _ answered => (Receipt.response answered).all fun response =>
        (response.announced m.at_).all fun announced => decide (announced ≤ m.at_) ||
          (Receipt.failure answered == some response &&
            (response.deadline m.at_).any fun deadline => decide (announced ≤ deadline))
    | .outside _ => true

theorem heeded_of_candid {log : Log} (honest : candid log = true) :
    ∀ m ∈ log, ∀ task answered, m.event = .served task answered →
      ¬ Understates m.at_ answered := by
  intro m member task answered event
  rintro ⟨response, responded, announced, announces, ahead, ignored⟩
  have honest := List.all_eq_true.mp honest m member
  rw [event] at honest
  dsimp only at honest
  rw [responded, Option.all_some, List.all_eq_true] at honest
  have enough := honest announced announces
  simp only [Bool.or_eq_true, Bool.and_eq_true, decide_eq_true_eq, beq_iff_eq,
    Option.any_eq_true] at enough
  rcases enough with past | ⟨failed, deadline, taken, enough⟩
  · exact absurd past (Nat.not_le_of_lt ahead)
  · exact absurd enough (Nat.not_le_of_lt (ignored deadline failed taken))

/-- The listing 0 begins a request, its response announces this time, and in the end a request
of the listing 1 is sent. -/
def sendsLimited (announced : Nat) (log : Log) : Bool :=
  match log.drop 2, log.drop 5, log.getLast? with
  | ⟨_, .served 0 ⟨.generation, _⟩⟩ :: _, ⟨arrived, .served 0 answered⟩ :: _ :: _,
    some ⟨_, .served 1 asked⟩ =>
      (match own 0 ((log.drop 3).take 2) with
        | ⟨.blocked key, none⟩ :: since => key == ":" && since.all Receipt.inner
        | _ => false) &&
      ((Receipt.response answered).any fun response =>
        (response.announced arrived).contains announced) && asked.request.sends
  | _, _, _ => false

theorem sendsLimited_split {announced : Nat} {log : Log}
    (sends : sendsLimited announced log = true) :
    ∃ began generation since arrived answered response sentAt asked,
      log = log.take 2 ++ ⟨began, .served 0 ⟨.generation, generation⟩⟩ ::
          (log.drop 3).take 2 ++ ⟨arrived, .served 0 answered⟩ :: (log.drop 6).dropLast ++
        ⟨sentAt, .served 1 asked⟩ :: [] ∧
      own 0 ((log.drop 3).take 2) = ⟨.blocked ":", none⟩ :: since ∧
      (∀ made ∈ since, Receipt.inner made = true) ∧
      Receipt.response answered = some response ∧ announced ∈ response.announced arrived ∧
      asked.request.sends = true ∧ log.getLast? = some ⟨sentAt, .served 1 asked⟩ := by
  unfold sendsLimited at sends
  split at sends
  · next began generation tail arrived answered second others sentAt asked start rest final =>
      simp only [Bool.and_eq_true, Option.any_eq_true, List.contains_iff_mem] at sends
      obtain ⟨⟨request, response, responded, announces⟩, sent⟩ := sends
      split at request
      · next key since made =>
          simp only [Bool.and_eq_true, beq_iff_eq, List.all_eq_true] at request
          obtain ⟨rfl, inner⟩ := request
          refine ⟨began, generation, since, arrived, answered, response, sentAt, asked, ?_, made,
            inner, responded, announces, sent, final⟩
          have before := List.take_append_drop 2 log
          have between := List.take_append_drop 2 (log.drop 3)
          have begun : log.drop 3 = tail := by
            rw [← List.drop_drop (i := 1), start, List.drop_one, List.tail_cons]
          have ends : log.drop 6 = second :: others := by
            rw [← List.drop_drop (i := 1), rest, List.drop_one, List.tail_cons]
          have whole := List.take_append_drop 5 log
          rw [rest] at whole
          have last : (second :: others).getLast? = some ⟨sentAt, .served 1 asked⟩ := by
            rw [← final, ← whole, List.getLast?_append_cons, List.getLast?_cons_cons]
          rw [List.drop_drop, rest, begun] at between
          rw [start] at before
          rw [ends, begun, List.append_assoc, List.append_assoc, List.cons_append,
            List.cons_append, List.dropLast_append_getLast? _ last, between]
          exact before.symm
      · exact absurd request Bool.false_ne_true
  · exact absurd sends Bool.false_ne_true

/-- A listing meets a rate limit of one hour, and the request of another one is sent after the
hour. -/
theorem deadlines_respected_sample :
    ∃ (log : Log) (until_ sentAt : Nat) (text : String) (asked : Receipt),
      separate log = true ∧ candid log = true ∧ clock log = 3600 ∧
        (cacheAfter log).blocked ":" = some (until_, text) ∧ 3600 ≤ until_ ∧
        log.getLast? = some ⟨sentAt, .served 1 asked⟩ ∧ asked.request.sends = true ∧
        3600 ≤ sentAt := by
  obtain ⟨log, run, checked⟩ := interleaved_of_script (fun _ => "")
    (fun _ => .list "" ⟨"", none⟩ "" 0)
    (respond 0 0 .hour ++ [.next 0 0 .nothing] ++ respond 3600 1 .empty)
    (fun log => ((separate log && candid log) && clock log == 3600) &&
      (cacheAfter (log.take 7)).blocked ":" == some (3600, "GitHub rate limit") &&
      sendsLimited 3600 log && log.all fun m => match m.event with
        | .outside _ => false
        | _ => true)
    (by decide +kernel)
  simp only [Bool.and_eq_true, beq_iff_eq, List.all_eq_true] at checked
  obtain ⟨⟨⟨⟨⟨separated, honest⟩, time⟩, blocked⟩, limited⟩, served⟩ := checked
  have quiet {part : Log} (within : ∀ m ∈ part, m ∈ log) : Quiet part :=
    fun m member clear => by simpa [clear] using served m (within m member)
  have whole := List.take_append_drop 7 log
  have kept := deadlines_respected run fun _ _ => calm_of_separate separated
  obtain ⟨until_, text, grown, longer⟩ := kept.1 (log.take 7) (log.drop 7) [] ":" 3600 _
    (by rw [List.append_nil, whole]) (quiet fun m => List.mem_of_mem_drop) blocked
  rw [whole] at grown
  obtain ⟨began, generation, since, arrived, answered, response, sentAt, asked, split, request,
    inner, responded, announces, sends, last⟩ := sendsLimited_split limited
  have late := kept.2 (heeded_of_candid honest) _ 0 began generation _ since arrived answered
    response 3600 _ 1 sentAt asked [] split
    (quiet fun m member => List.mem_of_mem_drop (List.mem_of_mem_take member))
    (quiet fun m member => List.mem_of_mem_drop ((List.dropLast_sublist _).subset member))
    request inner responded announces rfl sends
  exact ⟨log, until_, sentAt, text, asked, separated, honest, time, grown, longer, last, sends,
    (by decide : min 3600 u64Max = 3600) ▸ late⟩

/-- A deadline in the future is replaced by an earlier one. -/
theorem deadline_shortened : ¬ ∀ (digest : Auth → String) (ops : Nat → GithubOp)
    (first middle : Log) (key text : String) (until_ : Nat),
    Interleaved digest ops (first ++ middle) → Quiet middle →
    (cacheAfter first).blocked key = some (until_, text) → clock (first ++ middle) < until_ →
    ∃ until' text', (cacheAfter (first ++ middle)).blocked key = some (until', text') ∧
      until_ ≤ until' := by
  intro grows
  obtain ⟨log, run, checked⟩ := interleaved_of_script (fun _ => "")
    (fun _ => .list "" ⟨"", none⟩ "" 0)
    (respond 0 0 .hour ++ respond 0 1 .forbidden ++ [.next 0 0 .nothing, .next 1 1 .nothing])
    (fun log => (cacheAfter (log.take 13)).blocked ":" == some (3600, "GitHub rate limit") &&
      (((cacheAfter log).blocked ":").map (·.1) == some 301 && clock log == 1) &&
      (log.drop 13).all fun m => match m.event with
        | .outside _ => false
        | _ => true)
    (by decide +kernel)
  simp only [Bool.and_eq_true, beq_iff_eq, List.all_eq_true] at checked
  obtain ⟨⟨blocked, shorter, time⟩, quiet⟩ := checked
  have whole := List.take_append_drop 13 log
  obtain ⟨until', text', kept, longer⟩ := grows _ _ (log.take 13) (log.drop 13) ":" _ 3600
    (whole.symm ▸ run) (fun m member clear => by simpa [clear] using quiet m member) blocked
    (by rw [whole, time]; decide)
  rw [whole] at kept
  rw [kept] at shorter
  obtain rfl : until' = 301 := Option.some.inj shorter
  exact absurd longer (by decide)

end Runnerctl
