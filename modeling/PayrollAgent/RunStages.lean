import PayrollAgent.AliasLearning
import PayrollAgent.Backfill
import PayrollAgent.ComputeLineItems

namespace PayrollAgent.RunStages

open Lib Validate Backfill AliasLearning ReconcileNames Calculate ComputeLineItems

/-- The keyword arguments of `_run_stages` after the extraction. `prior` is the
snapshot. `suppressDetection` reaches only the validator, `resolvedDrops` only
the backfill. -/
structure StageArgs where
  prior : Option Extracted
  priorMatches : Option (List NameMatchResult)
  resolvedDrops : Pairs
  suppressDetection : Pairs
  overrides : Option Overrides
  aliasCandidates : AliasCandidates

def StageArgs.first : StageArgs := ⟨none, none, [], [], none, Dict.empty⟩

/-- What the stages hand to the persist transaction and to the caller. -/
structure StageResult where
  extracted : Extracted
  matches' : List NameMatchResult
  hoursChanges : List HoursChange
  issues : List ValidationIssue
  decision : Decision
  lineItems : Option (List PaystubLineItem)

section

variable [PyText]

def stageMatches (roster : Roster) (extracted : Extracted) (args : StageArgs) :
    List NameMatchResult :=
  reconcileNames extracted.names roster args.overrides

def stagePriorMatches (roster : Roster) (extracted : Extracted) (args : StageArgs) :
    Option (List NameMatchResult) :=
  confirmedPriorMatches args.priorMatches (stageMatches roster extracted args)
    args.aliasCandidates roster

def stageDrops (roster : Roster) (extracted : Extracted) (args : StageArgs) : List RawFieldDrop :=
  match args.prior with
  | none => []
  | some prior =>
      detectFieldRegression prior extracted (stagePriorMatches roster extracted args)
        (stageMatches roster extracted args)

def stageHoursChanges (roster : Roster) (extracted : Extracted) (args : StageArgs) :
    List HoursChange :=
  match args.prior with
  | none => []
  | some prior =>
      detectHoursChanges prior extracted (stagePriorMatches roster extracted args)
        (stageMatches roster extracted args)

def stageExtracted (roster : Roster) (extracted : Extracted) (args : StageArgs) : Extracted :=
  match args.prior with
  | none => extracted
  | some prior =>
      backfillExtracted extracted (some prior) (stagePriorMatches roster extracted args)
        (stageMatches roster extracted args) args.resolvedDrops

def stageIssues (roster : Roster) (extracted : Extracted) (args : StageArgs) :
    List ValidationIssue :=
  validate (stageExtracted roster extracted args) roster (stageMatches roster extracted args)
    args.suppressDetection (stageDrops roster extracted args)

def stageDecision (roster : Roster) (extracted : Extracted) (args : StageArgs) : Decision :=
  Decide.decide (stageExtracted roster extracted args) (stageMatches roster extracted args)
    (stageIssues roster extracted args)

/-- Detect on the raw extraction, backfill, then validate, decide and compute
on the backfilled one. -/
def runStages (runId : Uuid) (roster : Roster) (extracted : Extracted) (args : StageArgs) :
    Except CalculationError StageResult := do
  let decision := stageDecision roster extracted args
  let lineItems ←
    if decision.finalAction = .process then
      some <$> computeLineItems runId (stageExtracted roster extracted args)
        (stageMatches roster extracted args) roster
    else pure none
  return {
    extracted := stageExtracted roster extracted args
    matches' := stageMatches roster extracted args
    hoursChanges := stageHoursChanges roster extracted args
    issues := stageIssues roster extracted args
    decision := decision
    lineItems := lineItems }

def StageResult.clarifyDeferred (s : StageResult) : Bool :=
  s.decision.finalAction = .requestClarification &&
    s.issues.any (fun i => i.issueType = .fieldRegression)

theorem names_stageExtracted (roster : Roster) (extracted : Extracted) (args : StageArgs) :
    (stageExtracted roster extracted args).names = extracted.names := by
  unfold stageExtracted
  split
  · rfl
  · simp [backfillExtracted, Extracted.names, Function.comp_def]

theorem stageMatches_eq (roster : Roster) (extracted : Extracted) (args : StageArgs) :
    stageMatches roster extracted args =
      reconcileNames (stageExtracted roster extracted args).names roster args.overrides := by
  rw [names_stageExtracted]
  rfl

theorem runStages_ok (runId : Uuid) (roster : Roster) (extracted : Extracted) (args : StageArgs) :
    ∃ s, runStages runId roster extracted args = .ok s ∧
      s.extracted = stageExtracted roster extracted args ∧
      s.matches' = stageMatches roster extracted args ∧
      s.issues = stageIssues roster extracted args ∧
      s.decision = stageDecision roster extracted args := by
  unfold runStages
  by_cases h : (stageDecision roster extracted args).finalAction = .process
  · have hprocess := h
    rw [stageDecision, stageMatches_eq] at hprocess
    have hclean := Decide.clean_of_process hprocess
    obtain ⟨items, hitems, -⟩ := lineItems_forall₂ runId _ roster _ _
      fun ee hee => lineItem_ok runId hclean hee
    simp only [h, if_true, computeLineItems, stageMatches_eq, hitems]
    exact ⟨_, rfl, rfl, rfl, rfl, rfl⟩
  · simp only [h, if_false]
    exact ⟨_, rfl, rfl, rfl, rfl, rfl⟩

end

end PayrollAgent.RunStages
