import Runnerctl.Metatheory.Reachability

/-!
# Scripted executions

Executions over a host that answers from a script.  They can be evaluated, so that a
statement about all executions can be tried out on one of them.
-/

namespace Runnerctl

open Std Program

/-- What somebody does with a manager between two turns. -/
inductive Command where
  | request (request : Request)
  | tick
  | edit (text : Option String)

namespace Host

variable (host : Host)

/-- Start a manager for the first time. -/
def begin (text : String) (blank : State) : Option World :=
  match openEngine host (.install text (.fresh blank)) with
  | (.ok (), w) => some w
  | _ => none

/-- Follow some commands, as long as every turn succeeds. -/
def play : List Command → World → Option World
  | [], w => some w
  | .request request :: rest, w =>
      match serveRequest true request host w with
      | (.ok (), w') => play rest w'
      | _ => none
  | .tick :: rest, w =>
      match Runnerctl.tick host w with
      | (.ok (), w') => play rest w'
      | _ => none
  | .edit text :: rest, w => play rest (World.log { w with file := text } .edited)

variable {host}

theorem begin_reachable {text : String} {blank : State} {w : World}
    (begun : host.begin text blank = some w) : Reachable host w := by
  unfold begin at begun
  split at begun
  · next opened =>
      cases begun
      exact .start opened
  · exact nomatch begun

theorem play_reachable {commands : List Command} {w w' : World} (reachable : Reachable host w)
    (played : host.play commands w = some w') : Reachable host w' := by
  induction commands generalizing w with
  | nil =>
      cases played
      exact reachable
  | cons command rest inductionHypothesis =>
      cases command with
      | request request =>
          rw [play] at played
          split at played
          · next served => exact inductionHypothesis (.request request reachable served) played
          · exact nomatch played
      | tick =>
          rw [play] at played
          split at played
          · next ticked => exact inductionHypothesis (.tick reachable ticked) played
          · exact nomatch played
      | edit text => exact inductionHypothesis (.edit text reachable) played

/-- A script leads to a world in which `holds` evaluates to true. -/
theorem reaches {text : String} {blank : State} {commands : List Command}
    {holds : World → Bool}
    (found : ((host.begin text blank).bind (host.play commands)).any holds = true) :
    ∃ w, Reachable host w ∧ holds w = true := by
  obtain ⟨w, played, holding⟩ := (Option.any_eq_true ..).mp found
  obtain ⟨_, begun, played⟩ := Option.bind_eq_some_iff.mp played
  exact ⟨w, play_reachable (begin_reachable begun) played, holding⟩

end Host

/-- What came before and after a moment. -/
theorem split_at_moment {history : List Moment} {position : Nat} {m : Moment}
    (found : history[position]? = some m) :
    history = history.take position ++ m :: history.drop (position + 1) := by
  obtain ⟨small, rfl⟩ := List.getElem?_eq_some_iff.mp found
  rw [← List.drop_eq_getElem_cons small, List.take_append_drop]

/-- What is left of the turn from `w` to `after` when the process dies at one of its moments. -/
def World.cutAt (w after : World) (position : Nat) : Option World :=
  (w.since after)[position]?.map fun m => World.log
    { after with
      store := m.store
      file := m.file
      clock := m.clock
      history := w.history ++ (w.since after).take position ++ [m] } (.crashed true)

theorem World.cutAt_crash {w after dead : World} {position : Nat}
    (isPrefix : w.history <+: after.history) (cut : w.cutAt after position = some dead) :
    Crash w after dead := by
  obtain ⟨m, found, rfl⟩ := Option.map_eq_some_iff.mp cut
  refine .late _ m ((w.since after).drop (position + 1)) true ?_
  rw [List.append_assoc, ← split_at_moment found]
  exact (List.prefix_iff_eq_append.mp isPrefix).symm

/-- A turn only adds to the history. -/
theorem Turn.history {host : Host} {w w' : World} (turn : Turn host w w') (ready : Ready host w)
    (idle : w.engine.reconcileEpoch = none) : w.history <+: w'.history := by
  obtain ⟨mid, steps, rfl | ⟨-, _, pending, -⟩⟩ := turn.steps ready idle
  · exact (Steps.advances steps).history
  · exact (Steps.advances steps).history.trans pending.history.isPrefix

/-- The process dies at a moment of a turn, and the manager is started again. -/
def World.killed (w : World) (host : Host) (turn : EngineM Unit) (position : Nat) :
    Option World :=
  match w.cutAt (turn host w).2 position with
  | some dead =>
      match openEngine host dead with
      | (.ok (), opened) => some opened
      | _ => none
  | none => none

theorem World.killed_reachable {host : Host} {w opened : World} {program : EngineM Unit}
    (reachable : Reachable host w) (turn : Turn host w (program host w).2) {position : Nat}
    (killed : w.killed host program position = some opened) : Reachable host opened := by
  obtain ⟨ready, idle⟩ := reachable.ready
  unfold World.killed at killed
  split at killed
  · next dead cut =>
      split at killed
      · next opened' starts =>
          cases killed
          exact .restart reachable turn (World.cutAt_crash (turn.history ready idle) cut) starts
      · cases killed
  · cases killed

theorem returned_of_isOk {host : Host} {program : EngineM Unit} {w : World}
    (succeeds : (program host w).1.isOk = true) :
    program host w = (.ok (), (program host w).2) := by
  generalize program host w = outcome at succeeds
  obtain ⟨_ | _, w'⟩ := outcome
  · exact absurd succeeds Bool.false_ne_true
  · rfl

/-- A tick leads to a world in which `holds` evaluates to true. -/
def World.ticksTo (w : World) (host : Host) (holds : World → Bool) : Bool :=
  match tick host w with
  | (.ok (), w') => holds w'
  | _ => false

theorem World.ticked {host : Host} {w : World} {holds : World → Bool}
    (ticks : w.ticksTo host holds = true) :
    ∃ w', tick host w = (.ok (), w') ∧ holds w' = true := by
  unfold World.ticksTo at ticks
  split at ticks
  · next w' run => exact ⟨w', run, ticks⟩
  · exact absurd ticks Bool.false_ne_true

/-- A program stopped with an error. -/
def errs {α : Type} : Except (Fault Error) α → Bool
  | .error (.error _) => true
  | _ => false

theorem failed_of_errs {α : Type} {host : Host} {program : EngineM α} {w : World}
    (fails : errs (program host w).1 = true) :
    ∃ error, program host w = (.error (.error error), (program host w).2) := by
  generalize program host w = outcome at fails
  obtain ⟨(_ | _) | _, w'⟩ := outcome
  · exact ⟨_, rfl⟩
  · exact nomatch fails
  · exact nomatch fails

/-! ## A small installation -/

/-- The `n`-th UUID of a script: the digits of `n`, least significant first. -/
def Uuid.scripted (n : Nat) : Uuid where
  text := String.ofList
    (((Nat.toDigits 10 n).reverse ++ List.replicate 32 '0').take 32)
  simple := by
    rw [String.length_ofList, List.length_take, List.length_append, List.length_replicate]
    omega

theorem Uuid.scripted_number {n : Nat} (small : n < 10 ^ 32) :
    Nat.ofDigitChars 10 (Uuid.scripted n).text.toList.reverse 0 = n := by
  have short : (Nat.toDigits 10 n).reverse.length ≤ 32 := by
    rw [List.length_reverse]
    exact (Nat.length_toDigits_le_iff (by decide) (by decide)).mpr small
  have text : (Uuid.scripted n).text.toList = (Nat.toDigits 10 n).reverse ++
      List.replicate (32 - (Nat.toDigits 10 n).reverse.length) '0' := by
    rw [Uuid.scripted, String.toList_ofList, List.take_append, List.take_of_length_le short,
      List.take_replicate, Nat.min_eq_left (Nat.sub_le _ _)]
  rw [text, List.reverse_append, List.reverse_replicate, List.reverse_reverse,
    Nat.ofDigitChars_append, Nat.ofDigitChars_replicate_zero, Nat.mul_zero,
    Nat.ofDigitChars_ten_toDigits]

/-- A script that hands out the scripted UUIDs repeats none for a long time. -/
theorem fresh_of_scripted (host : Host) {n : Nat}
    (scripted : ∀ k, (host.answers k).uuid = .scripted k) (small : n ≤ 10 ^ 32) :
    Fresh host n := by
  intro i before j before' same
  rw [scripted, scripted] at same
  rw [← Uuid.scripted_number (before.trans_le small), same,
    Uuid.scripted_number (before'.trans_le small)]

/-- Every operation succeeds; there are no containers and no registrations. -/
def Op.smooth : (op : Op) → Except String op.Reply
  | .dockerList _ | .githubList _ _ _ _ => .ok []
  | .dockerLogs _ | .githubToken _ _ _ => .ok ""
  | .dockerBootTime _ => .ok 0
  | .dockerImage _ | .dockerCreate _ _ | .dockerStart _ | .dockerRemove _ _ | .dockerArchive _
  | .dockerRepair _ | .githubRemove _ _ _ _ => .ok ()

/-- Nothing fails, and nothing happens meanwhile. -/
def Answers.smooth (n : Nat) : Answers where
  elapsed := 1
  succeeds := true
  failure := "failure"
  present := false
  logs := []
  uuid := .scripted n
  byte := 0
  early := []
  during := []
  reply := Op.smooth

/-- A host that answers from a script.  The text of a configuration is as long as its
position among `configs`. -/
def Host.scripted (configs : List Config) (script : Nat → Answers → Answers) : Host where
  sha256 := id
  readToml text := configs[text.length]?.map Config.encode
  writeToml document :=
    match (Config.decode document).bind fun config => configs.findIdx? (· == config) with
    | some position => .ok (String.ofList (List.replicate position '#'))
    | none => .error "failure"
  parseRfc3339 _ := none
  answers n := script n (.smooth n)

def Pool.sample (name : String) (replicas : Nat) : Pool where
  name := name
  organization := "org"
  repository := none
  auth := "team"
  labels := ["linux"]
  runnerGroup := "Default"
  replicas := replicas
  image := "runner:1"
  dockerSocket := false
  allowPrivilegeEscalation := false
  cpus := none
  memory := none

def Config.sample (pools : List Pool) : Config where
  schemaVersion := 1
  auth := (∅ : ExtTreeMap String Auth).insert "team" ⟨"env:TOKEN", none⟩
  manager := .default
  pools := pools

/-- The state of nothing. -/
def State.blank : State := ⟨.scripted 0, 0, .sample [], "", ∅, ∅⟩

end Runnerctl
