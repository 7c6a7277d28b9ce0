import PayrollAgent.Orchestrator

namespace PayrollAgent.Handlers

open Lib Repo Orchestrator Ingest ReconcileNames RunRoutes

def providerTimeoutSeconds : Nat := 10

def safetyMargin : Nat := 5

def requiredTexts (a : Authorization) : List Str :=
  [a.snapshot.envelope.fromAddr, a.snapshot.envelope.toAddr, a.snapshot.envelope.subject,
    a.snapshot.envelope.bodyText]

/-- The clock is read last, and equality with the deadline is unsafe. -/
def sendReservedOutboundSnapshot (a : Authorization) : Act PipelineResult :=
  if [] ∈ requiredTexts a then raise .value
  else do
    let db ← query
    if a.notAfter ≤ db.now + providerTimeoutSeconds + safetyMargin then
      pure (.deliveryTerminal .deliveryAuthorizationExpired)
    else
      Prog.catching (do
        perform (.send a)
        pure { outcome := .ok, stage := .delivery })
        fun e => pure (.classifyPipelineException .delivery e)

def withoutProvider (job : Job) : ProviderHandoffOutcome → PipelineResult
  | .active .replayWindowClosed => .deliveryTerminal .deliveryAuthorizationExpired
  | .recordOnly r =>
      if some r = job.runId then { outcome := .ok, stage := .delivery, reason := .deliveryRecordOnly }
      else .okResult
  | _ => .okResult

def sendAuthorized (job : Job) : ProviderHandoffOutcome → Act PipelineResult
  | .authorized a => sendReservedOutboundSnapshot a
  | refused => pure (withoutProvider job refused)

def handleSendOutbound (job : Job) : Act PipelineResult :=
  if job.kind ≠ .sendOutbound ∨ job.runId = none ∨ job.emailId = none ∨
      job.operatorResolutionId ≠ none ∨ job.eventId ≠ none then raise .value
  else do
    let authorization : ProviderHandoffOutcome ← perform (.authorizeOutboundProviderHandoff job)
    sendAuthorized job authorization

section

variable [PyText]

/-- The claim of a first or reclaimed run, and then the pipeline. -/
def claimAndRun (r : Uuid) : Act PipelineResult := do
  let claimed : Bool ← perform (.claimStatus r .received .extracting)
  if claimed then runPipeline r else pure .okResult

def handleRunPipeline (job : Job) : Act PipelineResult :=
  match job.runId with
  | none => raise .value
  | some r =>
      if 1 < job.attempts then do
        let _ ← perform (.rewindForReclaim r)
        claimAndRun r
      else claimAndRun r

/-- The gate of a resume: the paused status is claimed back to RECEIVED, and a
reclaimed attempt finds its own progress there or rewinds it. -/
def reenter (job : Job) (r : Uuid) (paused status : RunStatus) : Act Bool :=
  if status = paused then perform (.claimStatus r paused .received)
  else if status = .received ∧ 1 < job.attempts then pure true
  else if status ∈ rewindStatuses ∧ 1 < job.attempts then perform (.rewindForReclaim r)
  else pure false

def handleResumeReply (job : Job) : Act PipelineResult :=
  match job.runId, job.emailId with
  | some r, some e => do
      let db ← query
      match db.inbound.get? e with
      | none => pure .okResult
      | some row => do
          let db ← query
          match db.runs.get? r with
          | none => pure .okResult
          | some run =>
              if row.runId = some r ∧ replySenderOk db row.mail run then do
                let entered ← reenter job r .awaitingReply run.status
                if entered then resumePipeline r (some row.mail) .received none
                else pure .okResult
              else pure .okResult
  | _, _ => raise .value

def invalidContext : PipelineResult := { stage := .load, reason := .invalidOperatorOverrideContext }

def operatorOverrides (g : OperatorResolution) : Overrides :=
  g.overrides.mapValues fun _ id => .uuid id

def prepare (r g : Uuid) : Act (Option Bool) :=
  Prog.catching (do
    let authoritative : Bool ← perform (.prepareAuthoritativeOperatorResume r g)
    pure (some authoritative))
    fun e => if e = .value then pure none else raise e

def resumeWith (job : Job) (r g : Uuid) : Act PipelineResult := do
  let db ← query
  match db.resolutions.get? g with
  | none => pure invalidContext
  | some generation => do
      let db ← query
      match db.runs.get? r with
      | none => pure invalidContext
      | some run => do
          let entered ← reenter job r .needsOperator run.status
          if entered then resumePipeline r none .received (some (operatorOverrides generation))
          else pure .okResult

def handleOperatorResume (job : Job) : Act PipelineResult :=
  match job.runId, job.operatorResolutionId with
  | some r, some g => do
      match ← prepare r g with
      | none => pure invalidContext
      | some false => pure .okResult
      | some true => resumeWith job r g
  | _, _ => raise .value

def handleIngest (job : Job) : Act PipelineResult :=
  match job.eventId with
  | none => raise .value
  | some eventId => do
      let mail ← perform (.fetchInbound eventId)
      let _ ← perform (.ingestEmail mail)
      pure .okResult

def handle (job : Job) : Act PipelineResult :=
  match job.kind with
  | .runPipeline => handleRunPipeline job
  | .resumeReply => handleResumeReply job
  | .operatorResume => handleOperatorResume job
  | .ingest => handleIngest job
  | .sendOutbound => handleSendOutbound job

/-- The result the job is settled with. An exception that escapes the handler
is settled as a delivery result for a send, and retried otherwise. -/
def settledResult (job : Job) : Option PipelineResult → PipelineResult
  | some result => result
  | none => if job.kind = .sendOutbound then { stage := .delivery } else { outcome := .retryable }

def settle (job : Job) (result : PipelineResult) : Act SettlementOutcome :=
  if job.kind = .sendOutbound then perform (.settleOutboundDeliveryJob job result)
  else perform (.settlePipelineJob job result)

def attempt (job : Job) : Act (Option PipelineResult) :=
  Prog.catching (do
    let result ← handle job
    pure (some result))
    fun _ => pure none

/-- Claim one job, dispatch it, and settle it. An exception of the settlement
itself escapes, and the row stays leased. -/
def drainOnce : Act Unit := do
  let claimed : Option Job ← perform .claimJob
  match claimed with
  | none => do
      let _ ← perform .reapExpiredFinalAttempt
      pure ()
  | some job => do
      let result ← attempt job
      let _ ← settle job (settledResult job result)
      pure ()

inductive Thread
  | worker
  | shutdown (tokens : List Uuid)
  | receive (mail : InboundMail)
  | approve (r : Uuid)
  | reject (r : Uuid)
  | resolve (r : Uuid) (overrides : Dict Str Uuid) (remember : Dict Str Bool)
  | retrigger (r : Uuid)
  | markDelivered (r : Uuid)
  | authorizeNew (r : Uuid)
  | retryNow (r : Uuid) (kind : ReviewKind)
  | markHandled (r : Uuid)
  | rejectClarification (r : Uuid)
  | pass (seconds : Nat)

/-- The error boundary of the approval: the transaction is gone, and the run is
marked. -/
def approveRun (r : Uuid) : Act Unit :=
  Prog.catching (do
    let _ ← perform (.approve r)
    pure ())
    fun e => perform (.recordRunError r e)

def rejectRun (r : Uuid) : Act Unit := do
  let first : Bool ← perform (.claimStatus r .awaitingApproval .rejected)
  if first then pure ()
  else do
    let second : Bool ← perform (.claimStatus r .needsOperator .rejected)
    if second then pure ()
    else do
      let _ ← perform (.claimStatus r .awaitingReply .rejected)
      pure ()

/-- The resolve route refuses a run in delivery review and a run that is not
waiting for an operator. -/
def resolveRun (r : Uuid) (overrides : Dict Str Uuid) (remember : Dict Str Bool) : Act Unit := do
  let db ← query
  match db.runs.get? r with
  | none => pure ()
  | some run =>
      if run.status = .needsOperator ∧ isDeliveryReviewMarker run = false then do
        let _ ← perform (.commitResolution r overrides remember)
        pure ()
      else pure ()

def ignoring {op : Op} (p : Act (Ans op)) : Act Unit :=
  Prog.catching (do
    let _ ← p
    pure ())
    fun _ => pure ()

def thread : Thread → Act Unit
  | .worker => drainOnce
  | .shutdown tokens => perform (.releaseLeases tokens)
  | .receive mail => ignoring (perform (.ingestEmail mail))
  | .approve r => approveRun r
  | .reject r => rejectRun r
  | .resolve r overrides remember => resolveRun r overrides remember
  | .retrigger r => ignoring (perform (.retrigger r))
  | .markDelivered r => ignoring (perform (.markDeliveryDelivered r))
  | .authorizeNew r => ignoring (perform (.authorizeNewConfirmation r))
  | .retryNow r kind => ignoring (perform (.retryDeliveryNow r kind))
  | .markHandled r => ignoring (perform (.finishClarificationDeliveryReview r .awaitingReply true))
  | .rejectClarification r =>
      ignoring (perform (.finishClarificationDeliveryReview r .rejected false))
  | .pass seconds => perform (.pass seconds)

/-- The world after a history that starts in `db`. -/
def worldAfter (db : Db) (es : List (Event Thread Env)) : World Op Ans Exn Db Note :=
  World.steps machine thread ⟨db, [], []⟩ es

theorem reach_worldAfter {init : Db → Prop} {db : Db} (h : init db) (es : List (Event Thread Env)) :
    World.Reach machine thread World.Rules.any init (worldAfter db es) :=
  (World.Reach.start h).steps_any es

theorem reach_worldAfter_of_permits {rules : World.Rules Op Db Env Note Thread} {init : Db → Prop}
    {db : Db} (h : init db) {es : List (Event Thread Env)}
    (hes : World.PermitsAll machine thread rules ⟨db, [], []⟩ es) :
    World.Reach machine thread rules init (worldAfter db es) :=
  (World.Reach.start h).steps hes

end

def letter : Envelope := ⟨['a'], ['b'], none, none, [], ['s'], ['t'], []⟩

def sendJob (r e : Uuid) : JobRow where
  kind := .sendOutbound
  dedupKey := .sendOutbound e
  runId := some r
  emailId := some e
  operatorResolutionId := none
  eventId := none
  state := .pending
  attempts := 0
  maxAttempts := 8
  availableAt := 0
  leaseToken := none
  leasedUntil := none
  lastError := none
  updatedAt := 0

def reservedMessage (r : Uuid) (purpose : Purpose) (messageId : Uuid) : Outbound :=
  ⟨r, purpose, 0, 0, .reserved, none, ⟨messageId, letter, 0⟩⟩

end PayrollAgent.Handlers
