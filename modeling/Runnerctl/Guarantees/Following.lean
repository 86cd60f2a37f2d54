import Runnerctl.Model.Logs

/-!
# Following the log of a runner

An answer shows the last lines of stdout before those of stderr, and the client prints all
of it unless it begins with the answer before.  It does as long as what is new comes last:
once a line of stderr is shown, a new line of stdout comes before it, and the client starts
over.

A line is known by its stream and its place there.  `followLines` tells which lines the
client prints.
-/

namespace Runnerctl

open Lines

/-- A line, and how many lines of its stream were before it. -/
structure Placed where
  position : Nat
  line : LogLine

def Placed.identity (placed : Placed) : Source × Nat := (placed.line.source, placed.position)

/-- The lines with their places, after `counts` lines of each stream. -/
def placedFrom : (counts : Source → Nat) → List LogLine → List Placed
  | _, [] => []
  | counts, line :: rest =>
      ⟨counts line.source, line⟩ ::
        placedFrom (Function.update counts line.source (counts line.source + 1)) rest

def placed (log : List LogLine) : List Placed := placedFrom (fun _ => 0) log

/-- The lines of the last ones that were written to the stream. -/
def recent (source : Source) (log : List Placed) : List Placed :=
  (tail 1000 log).filter (·.line.source = source)

/-- The lines of an answer, in its order. -/
def answer (log : List LogLine) : List Placed :=
  recent .stdout (placed log) ++ recent .stderr (placed log)

/-- The lines as texts. -/
def texts (lines : List Placed) : List (List Char) := lines.map fun placed =>
  Utf8.lossy placed.line.bytes

def render (lines : List Placed) : String := String.ofList (terminated '\n' (texts lines))

/-- The lines of an answer that the client prints. -/
def shown (previous current : List Placed) : List Placed :=
  if texts previous <+: texts current then current.drop previous.length else current

/-- The lines that `logs --follow` prints, answer by answer. -/
def followLines : (previous : List Placed) → (polls : List (List LogLine)) → List (List Placed)
  | _, [] => []
  | previous, log :: rest => shown previous (answer log) :: followLines (answer log) rest

/-- The log is not longer than the limit of an answer. -/
def Fits (log : List LogLine) : Prop :=
  (output .stdout log ++ output .stderr log).length ≤ 1024 * 1024

/-- What is new comes last in the answer, or nothing of the answer before is left in it. -/
def Continues (log log' : List LogLine) : Prop :=
  log' = log ∨
    (log'.length ≤ 1000 ∧ ((∀ line ∈ log, line.source = .stdout) ∨
      ∀ line ∈ log'.drop log.length, line.source = .stderr)) ∨
    log.length + 1000 ≤ log'.length

section Places

variable {counts : Source → Nat} {log log' : List LogLine}

@[simp] theorem map_line_placedFrom : (placedFrom counts log).map (·.line) = log := by
  induction log generalizing counts with
  | nil => rfl
  | cons line rest inductionHypothesis =>
      rw [placedFrom, List.map_cons, inductionHypothesis]

theorem length_placedFrom : (placedFrom counts log).length = log.length := by
  rw [← List.length_map (·.line), map_line_placedFrom]

theorem placedFrom_append (log more : List LogLine) : ∃ counts',
    placedFrom counts (log ++ more) = placedFrom counts log ++ placedFrom counts' more := by
  induction log generalizing counts with
  | nil => exact ⟨counts, rfl⟩
  | cons line rest inductionHypothesis =>
      obtain ⟨counts', same⟩ := @inductionHypothesis
        (Function.update counts line.source (counts line.source + 1))
      exact ⟨counts', congrArg (_ :: ·) same⟩

theorem le_position {placed : Placed} (member : placed ∈ placedFrom counts log) :
    counts placed.line.source ≤ placed.position := by
  induction log generalizing counts with
  | nil => exact nomatch member
  | cons line rest inductionHypothesis =>
      rcases List.mem_cons.mp member with rfl | later
      · exact Nat.le_refl _
      · refine Nat.le_trans ?_ (inductionHypothesis later)
        by_cases same : placed.line.source = line.source
        · rw [same, Function.update_self]
          exact Nat.le_succ _
        · exact Nat.le_of_eq (Function.update_of_ne same ..).symm

/-- A line is known by its identity. -/
theorem identities_nodup : ((placedFrom counts log).map Placed.identity).Nodup := by
  induction log generalizing counts with
  | nil => exact .nil
  | cons line rest inductionHypothesis =>
      rw [placedFrom, List.map_cons, List.nodup_cons]
      refine ⟨fun member => ?_, inductionHypothesis⟩
      obtain ⟨placed, later, same⟩ := List.mem_map.mp member
      have beyond := le_position later
      simp only [Placed.identity, Prod.mk.injEq] at same
      rw [same.1, Function.update_self, same.2] at beyond
      exact Nat.not_succ_le_self _ beyond

end Places

/-! ## Texts -/

section Texts

variable {previous current : List Placed} {log : List LogLine}

theorem lossy_terminated (lines : List (List UInt8)) :
    Utf8.lossy (terminated (UInt8.ofNat '\n'.toNat) lines) =
      terminated '\n' (lines.map Utf8.lossy) := by
  induction lines with
  | nil => exact Utf8.lossy_nil
  | cons line lines inductionHypothesis =>
      rw [terminated_cons, Utf8.lossy_append (by decide), inductionHypothesis, List.map_cons,
        terminated_cons]

theorem recent_lines (source : Source) (log : List LogLine) :
    (recent source (placed log)).map (·.line) = (tail 1000 log).filter (·.source = source) := by
  have same : tail 1000 log = (tail 1000 (placed log)).map (·.line) := by
    rw [tail, tail, List.map_drop, placed, map_line_placedFrom, length_placedFrom]
  rw [same, List.filter_map]
  rfl

theorem length_output_tail (source : Source) (count : Nat) (log : List LogLine) :
    (output source (tail count log)).length ≤ (output source log).length := by
  have parts : output source log = output source (log.take (log.length - count)) ++
      output source (tail count log) := by
    rw [output, output, output, ← terminated_append, ← List.map_append, ← List.filter_append,
      tail, List.take_append_drop]
  rw [parts, List.length_append]
  exact Nat.le_add_left ..

/-- An answer that is not cut shows its lines. -/
theorem dockerLogs_eq (fits : Fits log) : dockerLogs log = render (answer log) := by
  have whole : (output .stdout (tail 1000 log) ++ output .stderr (tail 1000 log)).length ≤
      1024 * 1024 := by
    refine Nat.le_trans ?_ fits
    rw [List.length_append, List.length_append]
    exact Nat.add_le_add (length_output_tail ..) (length_output_tail ..)
  rw [dockerLogs, List.take_of_length_le whole, output, output, ← terminated_append,
    ← List.map_append, lossy_terminated, ← recent_lines, ← recent_lines, ← List.map_append,
    List.map_map, List.map_map]
  rfl

theorem whole_texts : ∀ text ∈ texts previous, '\n' ∉ text := by
  intro text member
  obtain ⟨placed, -, rfl⟩ := List.mem_map.mp member
  exact Utf8.mem_lossy (by decide) placed.line.whole

/-- The client prints the lines that `shown` tells. -/
theorem printed_render : printed (render previous) (render current) =
    render (shown previous current) := by
  have begins : (render previous).toList.isPrefixOf (render current).toList ↔
      texts previous <+: texts current := by
    rw [List.isPrefixOf_iff_prefix, render, render, String.toList_ofList, String.toList_ofList]
    exact terminated_prefix_iff whole_texts whole_texts
  rw [printed, stripPrefix, shown]
  by_cases new : texts previous <+: texts current
  · rw [if_pos (begins.mpr new), if_pos new]
    obtain ⟨more, same⟩ := new
    have rest : texts (current.drop previous.length) = more := by
      rw [texts, List.map_drop]
      change (texts current).drop previous.length = more
      rw [← same, ← List.length_map fun placed => Utf8.lossy placed.line.bytes]
      exact List.drop_left
    change String.ofList ((render current).toList.drop (render previous).toList.length) = _
    simp only [render, String.toList_ofList, rest, ← same, terminated_append, List.drop_left]
  · rw [if_neg (mt begins.mp new), if_neg new]

theorem followLogs_eq {polls : List (List LogLine)} (fits : ∀ log ∈ polls, Fits log) :
    followLogs (render previous) (polls.map dockerLogs) =
      (followLines previous polls).map render := by
  induction polls generalizing previous with
  | nil => rfl
  | cons log polls inductionHypothesis =>
      rw [List.forall_mem_cons] at fits
      rw [List.map_cons, followLogs, followLines, List.map_cons, dockerLogs_eq fits.1,
        printed_render, inductionHypothesis fits.2]

end Texts

/-! ## One poll after the other -/

section Tails

variable {α : Type} {count : Nat} {items more rest : List α} {x : α}

theorem mem_of_mem_tail (member : x ∈ tail count items) : x ∈ items :=
  List.mem_of_mem_drop member

theorem tail_of_length_le (short : items.length ≤ count) : tail count items = items := by
  rw [tail, Nat.sub_eq_zero_of_le short, List.drop_zero]

/-- The last elements come from what was added, if enough was. -/
theorem tail_append_of_le (enough : count ≤ more.length) :
    tail count (items ++ more) = tail count more := by
  rw [tail, tail, List.length_append, Nat.add_sub_assoc enough, List.drop_append,
    List.drop_eq_nil_of_le (Nat.le_add_right ..), Nat.add_sub_cancel_left]
  rfl

/-- The first of the last elements is not among them any more when something is added. -/
theorem not_mem_tail_append (first : tail count items = x :: rest) (some : more ≠ [])
    (beyond : count < (items ++ more).length) (distinct : (items ++ more).Nodup) :
    x ∉ tail count (items ++ more) := by
  have parts : items = items.take (items.length - count) ++ x :: rest := by
    rw [← first, tail, List.take_append_drop]
  have added := List.length_pos_iff.mpr some
  have small : items.length - count < items.length := by
    have lengths := congrArg List.length first
    rw [tail, List.length_drop, List.length_cons] at lengths
    omega
  have behind : (items ++ more).drop (items.length - count + 1) = rest ++ more := by
    rw [List.drop_append_of_le_length small, Nat.succ_eq_add_one, ← List.tail_drop]
    exact congrArg (·.tail ++ more) first
  intro member
  rw [tail, List.length_append] at member
  rw [List.length_append] at beyond
  have later := (List.drop_sublist_drop_left (items ++ more)
    (show items.length - count + 1 ≤ items.length + more.length - count by omega)).subset member
  rw [behind] at later
  rw [parts, List.append_assoc, List.nodup_append, List.cons_append, List.nodup_cons] at distinct
  exact distinct.2.1.1 later

/-- The very last element stays among the last ones for a while. -/
theorem exists_mem_tail (some : items ≠ []) (few : more.length < count) :
    ∃ x, x ∈ tail count items ∧ x ∈ tail count (items ++ more) := by
  have stays {front rest : List α} {x : α} (within : rest.length < count) :
      x ∈ tail count (front ++ x :: rest) := by
    rw [tail, List.length_append, List.length_cons, List.drop_append_of_le_length (by omega)]
    exact List.mem_append_right _ (List.mem_cons_self ..)
  obtain ⟨front, x, rfl⟩ := List.eq_nil_or_concat items |>.resolve_left some
  rw [List.concat_eq_append, List.append_assoc]
  exact ⟨x, stays (Nat.zero_lt_of_lt few), stays few⟩

end Tails

section Polls

variable {log log' : List LogLine} {previous current : List Placed}

theorem placed_append (growing : log <+: log') : ∃ new, placed log' = placed log ++ new ∧
    new.length + log.length = log'.length ∧
    new.map (·.line) = log'.drop log.length := by
  obtain ⟨more, rfl⟩ := growing
  obtain ⟨counts, same⟩ := @placedFrom_append (fun _ => 0) log more
  refine ⟨placedFrom counts more, same, ?_, ?_⟩
  · rw [length_placedFrom, List.length_append, Nat.add_comm]
  · rw [map_line_placedFrom, List.drop_left]

theorem shown_append (more : List Placed) : shown previous (previous ++ more) = more := by
  have begins : texts previous <+: texts (previous ++ more) := by
    rw [texts, texts, List.map_append]
    exact List.prefix_append _ _
  rw [shown, if_pos begins, List.drop_left]

theorem shown_nil : shown [] current = current := by
  simpa using @shown_append [] current

theorem shown_sublist : (shown previous current).Sublist current := by
  rw [shown]
  split
  · exact List.drop_sublist ..
  · exact .refl _

/-- An answer shows every line once. -/
theorem answer_nodup (log : List LogLine) : ((answer log).map Placed.identity).Nodup := by
  have stderr : recent .stderr (placed log) =
      (tail 1000 (placed log)).filter fun placed => !decide (placed.line.source = .stdout) := by
    refine List.filter_congr fun placed _ => ?_
    cases placed.line.source <;> rfl
  have same : (answer log).Perm (tail 1000 (placed log)) := by
    rw [answer, stderr]
    exact List.filter_append_perm ..
  refine (same.map Placed.identity).nodup_iff.mpr ?_
  exact identities_nodup.sublist ((List.drop_sublist ..).map _)

theorem mem_answer {place : Placed} :
    place ∈ answer log ↔ place ∈ tail 1000 (placed log) := by
  rw [answer, recent, recent, List.mem_append, List.mem_filter, List.mem_filter]
  cases source : place.line.source with
  | stdout => simp
  | stderr => simp

theorem recent_stderr_eq_nil : recent .stderr (placed log) = [] ↔
    ∀ line ∈ tail 1000 log, line.source = .stdout := by
  rw [← List.map_eq_nil_iff, recent_lines, List.filter_eq_nil_iff]
  refine forall₂_congr fun line _ => ?_
  cases line.source <;> decide

theorem filter_stdout_eq_nil {new : List Placed} :
    new.filter (·.line.source = .stdout) = [] ↔
      ∀ line ∈ new.map (·.line), line.source = .stderr := by
  rw [List.filter_eq_nil_iff, List.forall_mem_map]
  refine forall₂_congr fun place _ => ?_
  cases place.line.source <;> decide

/-- As long as the answers show all lines, new ones are at the end of those of their stream. -/
theorem recent_append {new : List Placed} (same : placed log' = placed log ++ new)
    (short : log'.length ≤ 1000) (source : Source) :
    recent source (placed log') =
      recent source (placed log) ++ new.filter (·.line.source = source) := by
  have all : (placed log').length ≤ 1000 := by rwa [placed, length_placedFrom]
  have some : (placed log).length ≤ 1000 := by
    rw [same, List.length_append] at all
    exact Nat.le_of_add_right_le all
  rw [recent, recent, tail_of_length_le all, tail_of_length_le some, same, List.filter_append]

/-- What is new comes last in the answer. -/
theorem answer_append {new : List Placed} (same : placed log' = placed log ++ new)
    (lines : new.map (·.line) = log'.drop log.length) (short : log'.length ≤ 1000)
    (last : (∀ line ∈ log, line.source = .stdout) ∨
      ∀ line ∈ log'.drop log.length, line.source = .stderr) :
    ∃ more, answer log' = answer log ++ more ∧ more ⊆ new := by
  rw [answer, answer, recent_append same short, recent_append same short]
  rcases last with stdout | stderr
  · have nothing : recent .stderr (placed log) = [] :=
      recent_stderr_eq_nil.mpr fun line member => stdout line (mem_of_mem_tail member)
    rw [nothing, List.append_nil, List.nil_append, List.append_assoc]
    exact ⟨_, rfl,
      List.append_subset.mpr ⟨List.filter_sublist.subset, List.filter_sublist.subset⟩⟩
  · rw [filter_stdout_eq_nil.mpr (lines ▸ stderr), List.append_nil, ← List.append_assoc]
    exact ⟨_, rfl, List.filter_sublist.subset⟩

/-- The client prints new lines only. -/
theorem shown_new (growing : log <+: log') (continues : Continues log log') :
    ∃ new, placed log' = placed log ++ new ∧ shown (answer log) (answer log') ⊆ new := by
  obtain ⟨new, same, length, lines⟩ := placed_append growing
  refine ⟨new, same, ?_⟩
  rcases continues with rfl | ⟨short, last⟩ | enough
  · have nothing : shown (answer log') (answer log') = [] := by
      simpa using @shown_append (answer log') []
    rw [nothing]
    exact List.nil_subset _
  · obtain ⟨more, answers, fresh⟩ := answer_append same lines short last
    rwa [answers, shown_append]
  · intro place member
    have last := mem_answer.mp (shown_sublist.subset member)
    rw [same, tail_append_of_le (by omega)] at last
    exact List.mem_of_mem_drop last

/-- Over any number of polls no line is printed twice, nor one of those before. -/
theorem followLines_nodup {polls : List (List LogLine)} {seen : List Placed}
    (growing : (log :: polls).IsChain (· <+: ·)) (continues : (log :: polls).IsChain Continues)
    (before : seen ⊆ placed log) (once : (seen.map Placed.identity).Nodup) :
    ((seen ++ (followLines (answer log) polls).flatten).map Placed.identity).Nodup := by
  induction polls generalizing log seen with
  | nil => simpa [followLines] using once
  | cons next polls inductionHypothesis =>
      rw [List.isChain_cons_cons] at growing continues
      obtain ⟨new, same, fresh⟩ := shown_new growing.1 continues.1
      rw [followLines, List.flatten_cons, ← List.append_assoc]
      refine inductionHypothesis growing.2 continues.2 ?_ ?_
      · rw [same]
        exact List.append_subset.mpr ⟨List.subset_append_of_subset_left _ before,
          List.subset_append_of_subset_right _ fresh⟩
      · rw [List.map_append, List.nodup_append]
        refine ⟨once, (answer_nodup next).sublist (shown_sublist.map _), ?_⟩
        have every : ((placed log ++ new).map Placed.identity).Nodup := same ▸ identities_nodup
        rw [List.map_append, List.nodup_append] at every
        exact fun old shownBefore identity shownNow => every.2.2 old
          (List.map_subset _ before shownBefore) identity (List.map_subset _ fresh shownNow)

/-! ## Lines that can be told apart -/

/-- No two lines have the same text. -/
def Distinct (log : List LogLine) : Prop := (texts (placed log)).Nodup

/-- The answer shows all lines, or they can be told apart. -/
def Plain (log : List LogLine) : Prop := log.length ≤ 1000 ∨ Distinct log

theorem mem_placed_of_mem_answer {place : Placed} (member : place ∈ answer log) :
    place ∈ placed log := by
  rw [mem_answer] at member
  exact mem_of_mem_tail member

/-- An answer begins with the one before only if its first lines are the lines of that. -/
theorem answer_begins (growing : log <+: log') (distinct : Distinct log')
    (begins : texts (answer log) <+: texts (answer log')) : answer log <+: answer log' := by
  obtain ⟨new, same, -⟩ := placed_append growing
  unfold texts at begins
  refine prefix_of_map (fun place member place' member' text => ?_) begins
  refine List.inj_on_of_nodup_map distinct ?_ (mem_placed_of_mem_answer member') text
  rw [same]
  exact List.mem_append_left _ (mem_placed_of_mem_answer member)

/-- The client has printed what an answer shows. -/
theorem answer_covered (growing : log <+: log') (plain : Plain log')
    (continues : Continues log log') :
    answer log' ⊆ answer log ++ shown (answer log) (answer log') := by
  rcases plain with short | distinct
  · obtain ⟨new, same, length, lines⟩ := placed_append growing
    rcases continues with rfl | ⟨-, last⟩ | enough
    · exact List.subset_append_left ..
    · obtain ⟨more, answers, -⟩ := answer_append same lines short last
      rw [answers, shown_append]
      exact List.Subset.refl _
    · have nothing : log = [] := List.eq_nil_of_length_eq_zero (by omega)
      subst nothing
      have none : answer [] = [] := by
        rw [answer, recent, recent, placed, placedFrom, tail, List.drop_nil]
        rfl
      rw [none, List.nil_append, shown_nil]
      exact List.Subset.refl _
  · rw [shown]
    split
    · next begins =>
        obtain ⟨more, same⟩ := answer_begins growing distinct begins
        rw [← same, List.drop_left]
        exact List.Subset.refl _
    · exact List.subset_append_right ..

/-- With new lines of stdout before them, some lines of stderr are printed again. -/
theorem exists_mem_drop_append {α : Type} {outs errs : List α} (front back : List α)
    (some : outs ≠ []) (kept : errs ≠ []) :
    ∃ err ∈ errs, err ∈ (front ++ outs ++ (errs ++ back)).drop (front ++ errs).length := by
  obtain ⟨errs, err, rfl⟩ := List.eq_nil_or_concat errs |>.resolve_left kept
  have added := List.length_pos_iff.mpr some
  refine ⟨err, by simp, ?_⟩
  rw [List.concat_eq_append, List.append_assoc errs, ← List.append_assoc (front ++ outs),
    List.drop_append_of_le_length]
  · exact List.mem_append_right _ List.mem_cons_self
  · simp only [List.length_append, List.length_singleton]
    omega

/-- If something else is new, a line is printed again. -/
theorem shown_old (growing : log <+: log') (plain : Plain log')
    (breaks : ¬ Continues log log') :
    ∃ place ∈ shown (answer log) (answer log'), place ∈ answer log := by
  obtain ⟨new, same, length, lines⟩ := placed_append growing
  simp only [Continues, not_or, not_and, Nat.not_le] at breaks
  obtain ⟨appended, mixed, few⟩ := breaks
  have some : new ≠ [] := by
    rintro rfl
    refine appended (growing.eq_of_length ?_).symm
    rwa [List.length_nil, Nat.zero_add] at length
  have nonempty : placed log ≠ [] := by
    intro empty
    have nothing : log = [] := List.eq_nil_of_length_eq_zero (by
      rw [← @length_placedFrom fun _ => 0]
      exact congrArg List.length empty)
    subst nothing
    exact (mixed (by simpa using Nat.le_of_lt few)).1 nofun
  obtain ⟨place, before, now⟩ := @exists_mem_tail _ 1000 _ new nonempty (by omega)
  rw [shown]
  split
  · next begins =>
      by_cases short : log'.length ≤ 1000
      · -- A new line of stdout comes before the lines of stderr.
        obtain ⟨stderr, stdout⟩ := mixed short
        have outs : new.filter (·.line.source = .stdout) ≠ [] := fun none =>
          stdout (lines ▸ filter_stdout_eq_nil.mp none)
        have errs : recent .stderr (placed log) ≠ [] := by
          intro none
          refine stderr ?_
          rw [← tail_of_length_le (Nat.le_trans growing.length_le short)]
          exact recent_stderr_eq_nil.mp none
        obtain ⟨err, member, again⟩ := exists_mem_drop_append (recent .stdout (placed log))
          (new.filter (·.line.source = .stderr)) outs errs
        refine ⟨err, ?_, List.mem_append_right _ member⟩
        rw [answer, answer, recent_append same short, recent_append same short]
        exact again
      · -- The first line of the answer before is not in this one.
        obtain ⟨more, parts⟩ := answer_begins growing (plain.resolve_left short) begins
        cases first : tail 1000 (placed log) with
        | nil =>
            rw [first] at before
            exact nomatch before
        | cons place others =>
            have every : (placed log ++ new).Nodup := by
              rw [← same]
              exact List.Nodup.of_map Placed.identity identities_nodup
            refine absurd ?_ (not_mem_tail_append first some ?_ every)
            · rw [← same, ← mem_answer, ← parts]
              refine List.mem_append_left _ (mem_answer.mpr ?_)
              rw [first]
              exact List.mem_cons_self ..
            · rw [List.length_append, Nat.add_comm, placed, length_placedFrom]
              omega
  · rw [← same] at now
    exact ⟨place, mem_answer.mpr now, mem_answer.mpr before⟩

/-- If no line is printed twice, nor one of those that were shown before, then every poll
continues the one before. -/
theorem continues_of_nodup {polls : List (List LogLine)} {seen : List Placed}
    (growing : (log :: polls).IsChain (· <+: ·)) (plain : ∀ log ∈ polls, Plain log)
    (covered : answer log ⊆ seen)
    (once : ((seen ++ (followLines (answer log) polls).flatten).map Placed.identity).Nodup) :
    (log :: polls).IsChain Continues := by
  induction polls generalizing log seen with
  | nil => exact .singleton log
  | cons next polls inductionHypothesis =>
      rw [List.isChain_cons_cons] at growing ⊢
      rw [List.forall_mem_cons] at plain
      rw [followLines, List.flatten_cons, ← List.append_assoc] at once
      have continues : Continues log next := by
        by_contra breaks
        obtain ⟨place, again, before⟩ := shown_old growing.1 plain.1 breaks
        rw [List.append_assoc, List.map_append, List.nodup_append] at once
        exact once.2.2 _ (List.mem_map_of_mem (covered before)) _
          (List.mem_map_of_mem (List.mem_append_left _ again)) rfl
      refine ⟨continues, inductionHypothesis growing.2 plain.2 ?_ once⟩
      exact List.Subset.trans (answer_covered growing.1 plain.1 continues) (List.append_subset.mpr
        ⟨List.subset_append_of_subset_left _ covered, List.subset_append_right ..⟩)

/-- `logs --follow` prints the lines of `followLines`.  None of them is printed twice if from
one poll to the next nothing is new, or what is new comes last, or a thousand lines are new;
otherwise one is printed twice, if the answers show all lines or these can be told apart. -/
theorem logs_follow_once {polls : List (List LogLine)}
    (growing : ([] :: polls).IsChain (· <+: ·)) (fits : ∀ log ∈ polls, Fits log) :
    followLogs "" (polls.map dockerLogs) = (followLines [] polls).map render ∧
      (([] :: polls).IsChain Continues →
        ((followLines [] polls).flatten.map Placed.identity).Nodup) ∧
      ((∀ log ∈ polls, Plain log) →
        ((followLines [] polls).flatten.map Placed.identity).Nodup →
        ([] :: polls).IsChain Continues) :=
  ⟨@followLogs_eq [] polls fits,
    fun continues => @followLines_nodup [] polls [] growing continues (List.nil_subset _) .nil,
    fun plain once => @continues_of_nodup [] polls [] growing plain
      (List.nil_subset _) once⟩

end Polls

def outLine : LogLine := ⟨.stdout, [UInt8.ofNat 'o'.toNat], by decide⟩

def errLine : LogLine := ⟨.stderr, [UInt8.ofNat 'e'.toNat], by decide⟩

/-- A line of stderr that is polled after one of stdout is printed once. -/
theorem logs_follow_once_sample :
    ((followLines [] [[outLine], [outLine, errLine]]).flatten.map Placed.identity).Nodup := by
  refine (logs_follow_once (by simp) ?_).2.1 ?_
  · simp [Fits, output, outLine, errLine, terminated]
  · simp [Continues, outLine, errLine]

/-- A line of stderr is printed again as soon as stdout goes on. -/
theorem logs_follow_repeats : ¬ ∀ polls : List (List LogLine),
    ([] :: polls).IsChain (· <+: ·) → (∀ log ∈ polls, Fits log) →
      ((followLines [] polls).flatten.map Placed.identity).Nodup := by
  intro once
  have plain : ∀ log ∈ [[errLine], [errLine, outLine]], Plain log := by simp [Plain]
  have chain := @continues_of_nodup [] [[errLine], [errLine, outLine]] [] (by simp) plain
    (List.nil_subset _) (once [[errLine], [errLine, outLine]] (by simp)
      (by simp [Fits, output, outLine, errLine, terminated]))
  simp [Continues, outLine, errLine] at chain

end Runnerctl
