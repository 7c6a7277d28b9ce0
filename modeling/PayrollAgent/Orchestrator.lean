import PayrollAgent.Notes
import PayrollAgent.Resume

namespace PayrollAgent.Orchestrator

open Lib Repo AliasLearning Calculate ReconcileNames RunStages Resume ClarificationWrites CombinedEmail

abbrev Act (α : Type) := Prog Op Ans Exn α

def raise {α : Type} (e : Exn) : Act α := .raise e

def perform (op : Op) : Act (Ans op) := Prog.perform op

def query : Act Db := perform .query

def staged {α : Type} (stage : PipelineStage) (p : Act α) : Act α :=
  p.catching fun e => raise (.staged stage e)

section

variable [PyText]

def ask (r : Uuid) (decision : Decision) (roster : Roster) (extracted : Extracted)
    (purpose : Purpose) (round : Nat) : Act Unit := do
  let suggestions ← perform .suggest
  let envelope ← perform .compose
  perform (.reserveClarification r
    { purpose := purpose
      round := round
      envelope := envelope
      candidates := capturedCandidate decision roster suggestions
      extracted := extracted })

/-- A question that was sent or reserved before is found again, and only a new
one is drafted. -/
def askOnce (r : Uuid) (decision : Decision) (roster : Roster) (extracted : Extracted)
    (purpose : Purpose) (round : Nat) : Act Unit := do
  let db ← query
  match getOutboundForRound db r purpose round with
  | some (_, m) => perform (.finalizeSentClarification r m.round extracted)
  | none => do
      let db ← query
      match getUnconfirmedOutbound db r purpose round with
      | some (e, _) => perform (.replayReservedClarification r e extracted)
      | none => ask r decision roster extracted purpose round

def clarify (r : Uuid) (decision : Decision) (roster : Roster) (extracted : Extracted)
    (purpose : Purpose) : Act Unit := do
  let db ← query
  let round := ((db.runs.get? r).map Run.clarificationRound).getD 0
  if maxClarificationRounds ≤ round then perform (.escalateToOperator r)
  else askOnce r decision roster extracted purpose round

def deferFieldRegressionClarification (r : Uuid) (clarified : ClarifiedFields)
    (issues : List ValidationIssue) (roster : Roster) : Act Unit := do
  let db ← query
  let post := ((db.runs.get? r).map Run.reconciliation).getD []
  perform (.setClarifiedFields r (deferredOutcomes post clarified issues))
  let db ← query
  match (db.runs.get? r).bind Run.decision, (db.runs.get? r).bind Run.extractedData with
  | some decision, some extracted =>
      clarify r decision roster extracted .clarificationFieldRegression
  | _, _ => pure ()

/-- `_run_stages` after the extraction: persist, then branch on the final
action alone. A field regression is left to the caller. -/
def persistAndBranch (r : Uuid) (roster : Roster) (result : Except CalculationError StageResult) :
    Act StageResult :=
  match result with
  | .error _ => raise (.staged .compute .runtime)
  | .ok s => do
      staged .persist (perform (.persistStages r s))
      if s.decision.finalAction = .process ∨ s.clarifyDeferred then pure s
      else do
        staged .clarification (clarify r s.decision roster s.extracted .clarification)
        pure s

/-- `extract` stamps the run's own id. -/
def extract (r : Uuid) (email : ReadEmail) : Act Extracted := do
  let x ← staged .extract (perform (.extract email))
  pure { x with runId := r }

def loadRun (r : Uuid) (stage : PipelineStage) : Act Run := do
  let db ← staged stage query
  match db.runs.get? r with
  | some run => pure run
  | none => raise (.staged stage .value)

def loadRoster (businessId : Uuid) : Act Roster := do
  let db ← staged .load query
  match db.rosters.get? businessId with
  | some roster => pure roster
  | none => raise (.staged .load .value)

def classifying (p : Act PipelineResult) : Act PipelineResult :=
  p.catching fun e => pure (PipelineResult.ofException e)

/-- `_run`. -/
def runPipeline (r : Uuid) : Act PipelineResult :=
  classifying do
    let run ← loadRun r .load
    let db ← staged .load query
    match db.inbound.get? run.sourceEmailId with
    | none => raise (.staged .load .value)
    | some row => do
        let roster ← loadRoster run.businessId
        staged .persist (perform (.setStatus r .extracting))
        let x ← extract r ⟨some row.mail.messageId, .plain row.mail.bodyText⟩
        let _ ← persistAndBranch r roster (runStages r roster x .first)
        pure .okResult

def pendingTokens (candidates : AliasCandidates) : List Str :=
  (candidates.entries.filter fun p =>
    (normalizeCandidate p.2).bound = none ∧ (normalizeCandidate p.2).suggested ≠ none).map Prod.fst

def bindAliases (r : Uuid) (roster : Roster) (candidates : AliasCandidates) : Act Unit :=
  if pendingTokens candidates = [] then pure ()
  else do
    let db ← staged .load query
    let post := ((db.runs.get? r).map Run.reconciliation).getD []
    let bound := bindCandidates roster post candidates
    if bound.entries = candidates.entries then pure ()
    else staged .persist (perform (.setAliasCandidates r bound))

/-- The extractions of a resume: the combined body, and in a later round the
reply alone before it. -/
def extractions (r : Uuid) (ctx : ResumeContext) (emails : ResumeEmails) : Act Extractions :=
  if isRound2 ctx then do
    let reply ← extract r emails.reply
    let combined ← extract r emails.combined
    pure ⟨reply, combined⟩
  else do
    let combined ← extract r emails.combined
    pure ⟨combined, combined⟩

def storeAnswers (r : Uuid) (ctx : ResumeContext) (x : Extractions) : Act Unit :=
  if isRound2 ctx then staged .persist (perform (.setClarifiedFields r (classified ctx x.reply)))
  else pure ()

def resumeFrom (r : Uuid) (ctx : ResumeContext) (emails : ResumeEmails) (overrides : Option Overrides) :
    Act PipelineResult := do
  let x ← extractions r ctx emails
  storeAnswers r ctx x
  let s ← persistAndBranch r ctx.roster (resumeStages ctx x overrides)
  if s.clarifyDeferred then do
    staged .clarification
      (deferFieldRegressionClarification r (clarifiedAtGate ctx x) s.issues ctx.roster)
    pure .okResult
  else do
    bindAliases r ctx.roster ctx.aliasCandidates
    pure .okResult

def resumeContext (r : Uuid) (inbound : Option InboundMail) : Act (ResumeContext × ResumeEmails) := do
  let run ← loadRun r .load
  let roster ← loadRoster run.businessId
  let pre ← loadRun r .load
  let snapshot ← loadRun r .load
  let clarified ← loadRun r .load
  let db ← staged .load query
  let consumed ← staged .load (perform (.loadConsumedReplies r))
  pure
    ({ runId := r
       roster := roster
       reconciliation := pre.reconciliation
       snapshot := snapshot.preClarifyExtracted
       clarified := clarified.clarifiedFields
       aliasCandidates := pre.aliasCandidates },
     resumeEmails inbound (sourceBody db r)
       (renderAskedSummary pre.decision clarified.clarifiedFields) consumed)

def consumeReply (r : Uuid) : Option InboundMail → Act Unit
  | none => pure ()
  | some mail => do
      let db ← staged .persist query
      staged .persist (perform (.markReplyConsumed mail.messageId
        (((db.runs.get? r).map Run.clarificationRound).getD 0)))

def resumePipeline (r : Uuid) (inbound : Option InboundMail) (fromStatus : RunStatus)
    (overrides : Option Overrides) : Act PipelineResult :=
  classifying do
    let claimed : Bool ← staged .persist (perform (.claimStatus r fromStatus .extracting))
    if claimed then do
      consumeReply r inbound
      let (ctx, emails) ← resumeContext r inbound
      resumeFrom r ctx emails overrides
    else pure .okResult

end

end PayrollAgent.Orchestrator
