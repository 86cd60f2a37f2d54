import Runnerctl.Lib.Program

/-!
# Two runs of one program

A program respects a relation on states if runs from related states end alike and in
related states.  The class is closed under the ways in which programs are built, so that
instance search proves it of a program from the effects it uses.
-/

namespace Program

variable {ρ σ ε α β : Type} {related : σ → σ → Prop}

/-- Runs from related states end alike, in related states. -/
class Respects (related : σ → σ → Prop) (program : Prog ρ σ ε α) : Prop where
  result : ∀ (host : ρ) {s t : σ}, related s t → (program host s).1 = (program host t).1
  final : ∀ (host : ρ) {s t : σ}, related s t → related (program host s).2 (program host t).2

namespace Respects

/-- Two runs of a program, side by side. -/
theorem intro {program : Prog ρ σ ε α}
    (alike : ∀ (host : ρ) (s t : σ), related s t → ∃ outcome s' t',
      program host s = (outcome, s') ∧ program host t = (outcome, t') ∧ related s' t') :
    Respects related program where
  result host s t same := by
    obtain ⟨_, _, _, left, right, -⟩ := alike host s t same
    rw [left, right]
  final host s t same := by
    obtain ⟨_, _, _, left, right, kept⟩ := alike host s t same
    rwa [left, right]

theorem alike (program : Prog ρ σ ε α) [respects : Respects related program] (host : ρ)
    {s t : σ} (same : related s t) : ∃ outcome s' t',
      program host s = (outcome, s') ∧ program host t = (outcome, t') ∧ related s' t' :=
  ⟨_, _, (program host t).2, rfl, Prod.ext (respects.result host same).symm rfl,
    respects.final host same⟩

instance pure (value : α) : Respects related (Pure.pure value : Prog ρ σ ε α) :=
  ⟨fun _ _ _ _ => rfl, fun _ _ _ same => same⟩

instance throw (error : ε) : Respects related (throw error : Prog ρ σ ε α) :=
  ⟨fun _ _ _ _ => rfl, fun _ _ _ same => same⟩

instance panic : Respects related (panic : Prog ρ σ ε α) :=
  ⟨fun _ _ _ _ => rfl, fun _ _ _ same => same⟩

instance ask : Respects related (ask : Prog ρ σ ε ρ) :=
  ⟨fun _ _ _ _ => rfl, fun _ _ _ same => same⟩

/-- An update that preserves the relation. -/
theorem modify {update : σ → σ}
    (keeps : ∀ s t, related s t → related (update s) (update t)) :
    Respects related (modify update : Prog ρ σ ε Unit) :=
  ⟨fun _ _ _ _ => rfl, fun _ s t same => keeps s t same⟩

theorem seq {program : Prog ρ σ ε α} {next : α → Prog ρ σ ε β}
    (first : Respects related program) (rest : ∀ value, Respects related (next value)) :
    Respects related (program >>= next) := by
  refine intro fun host s t same => ?_
  obtain ⟨outcome, s', t', left, right, kept⟩ := alike program host same
  cases outcome with
  | ok value =>
      rw [bind_run_ok left, bind_run_ok right]
      exact alike (next value) host kept
  | error fault =>
      rw [bind_run_fault left, bind_run_fault right]
      exact ⟨_, _, _, rfl, rfl, kept⟩

instance bind (program : Prog ρ σ ε α) (next : α → Prog ρ σ ε β)
    [first : Respects related program] [rest : ∀ value, Respects related (next value)] :
    Respects related (program >>= next) := seq first rest

/-- A program that looks at a state sees only what related states have in common. -/
theorem get_bind {next : σ → Prog ρ σ ε α}
    (common : ∀ s t, related s t → next s = next t)
    (rest : ∀ s, Respects related (next s)) : Respects related (get >>= next) := by
  refine intro fun host s t same => ?_
  rw [bind_run_ok (rfl : get host s = (.ok s, s)), bind_run_ok (rfl : get host t = (.ok t, t)),
    ← common s t same]
  have := rest s
  exact alike (next s) host same

instance discard (program : Prog ρ σ ε α) [Respects related program] :
    Respects related (discard program) :=
  bind program fun _ => Pure.pure PUnit.unit

instance attempt (program : Prog ρ σ ε α) [Respects related program] :
    Respects related (attempt program) := by
  refine intro fun host s t same => ?_
  obtain ⟨outcome, s', t', left, right, kept⟩ := alike program host same
  unfold Program.attempt
  rw [left, right]
  match outcome with
  | .ok value => exact ⟨_, _, _, rfl, rfl, kept⟩
  | .error (.error error) => exact ⟨_, _, _, rfl, rfl, kept⟩
  | .error .panic => exact ⟨_, _, _, rfl, rfl, kept⟩

instance ensure (condition : Bool) (error : ε) :
    Respects related (ensure condition error : Prog ρ σ ε Unit) := by
  cases condition
  · exact throw error
  · exact pure ()

instance context (value : Option α) (error : ε) :
    Respects related (context value error : Prog ρ σ ε α) := by
  cases value
  · exact throw error
  · exact pure _

instance unwrap (value : Option α) : Respects related (unwrap value : Prog ρ σ ε α) := by
  cases value
  · exact panic
  · exact pure _

instance liftExcept (value : Except ε α) :
    Respects related (liftExcept value : Prog ρ σ ε α) := by
  cases value
  · exact throw _
  · exact pure _

instance ite (condition : Prop) [Decidable condition] (first second : Prog ρ σ ε α)
    [Respects related first] [Respects related second] :
    Respects related (if condition then first else second) := by
  split
  · assumption
  · assumption

instance forM (items : List α) (body : α → Prog ρ σ ε PUnit)
    [∀ item, Respects related (body item)] : Respects related (items.forM body) := by
  induction items with
  | nil => exact pure PUnit.unit
  | cons item rest inductionHypothesis => exact bind (body item) fun _ => rest.forM body

instance foldlM (items : List α) (body : β → α → Prog ρ σ ε β) (start : β)
    [∀ value item, Respects related (body value item)] :
    Respects related (items.foldlM body start) := by
  induction items generalizing start with
  | nil => exact pure start
  | cons item rest inductionHypothesis =>
      rw [List.foldlM_cons]
      exact bind (body start item) fun value => rest.foldlM body value

instance mapM (items : List α) (body : α → Prog ρ σ ε β)
    [∀ item, Respects related (body item)] : Respects related (items.mapM body) := by
  induction items with
  | nil => exact pure []
  | cons item rest inductionHypothesis =>
      rw [List.mapM_cons]
      infer_instance

/-! ## One run -/

/-- Equal states with a property: to respect this relation is to keep the property. -/
def Equally (property : σ → Prop) (s t : σ) : Prop := s = t ∧ property s

variable {property : σ → Prop}

theorem of_keeps {program : Prog ρ σ ε α}
    (keeps : ∀ (host : ρ) (s : σ), property s → property (program host s).2) :
    Respects (Equally property) program where
  result _ _ _ := fun ⟨same, _⟩ => by rw [same]
  final host s _ := fun ⟨same, holds⟩ => ⟨by rw [same], keeps host s holds⟩

theorem preserves {program : Prog ρ σ ε α} (respects : Respects (Equally property) program)
    (host : ρ)
    {s : σ} (holds : property s) : property (program host s).2 :=
  (respects.final host ⟨rfl, holds⟩).2

end Respects

end Program
