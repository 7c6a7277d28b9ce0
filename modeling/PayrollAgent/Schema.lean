import PayrollAgent.Lib.Table
import PayrollAgent.AliasLearning
import PayrollAgent.PipelineResult

namespace PayrollAgent

open Lib AliasLearning

inductive RunStatus
  | received
  | extracting
  | awaitingReply
  | computed
  | awaitingApproval
  | approved
  | sent
  | reconciled
  | rejected
  | error
  | needsOperator
  deriving DecidableEq, Repr

/-- `payroll_runs.error_reason`. The two review markers are read back by the
operator routes. -/
inductive ErrorReason
  | deliveryReview
  | clarificationDeliveryReview
  | retryExhausted
  | finalAttemptLeaseExpired
  | pipeline (reason : PipelineReason)
  | exception (e : Exn)
  deriving DecidableEq, Repr

inductive ErrorDetail
  | deliveryReview (category : FailureCategory)
  | diagnostic (stage : PipelineStage) (reason : PipelineReason) (attempts : Option (Nat × Nat))
  | finalAttemptLeaseExpired (attempts maxAttempts : Nat)
  | delivery (e : Exn)
  deriving DecidableEq, Repr

/-- A row of `payroll_runs`, with its paystub line items. -/
structure Run where
  businessId : Uuid
  sourceEmailId : Uuid
  recordOnly : Bool
  status : RunStatus
  updatedAt : Nat
  replyEpoch : Nat
  clarificationRound : Nat
  errorReason : Option ErrorReason
  errorDetail : Option ErrorDetail
  extractedData : Option Extracted
  decision : Option Decision
  reconciliation : List NameMatchResult
  hoursChanges : List HoursChange
  preClarifyExtracted : Option Extracted
  clarifiedFields : ClarifiedFields
  aliasCandidates : AliasCandidates
  lineItems : List PaystubLineItem

/-- The row `create_run` inserts. -/
def Run.created (businessId sourceEmailId now : Nat) : Run where
  businessId := businessId
  sourceEmailId := sourceEmailId
  recordOnly := false
  status := .received
  updatedAt := now
  replyEpoch := 0
  clarificationRound := 0
  errorReason := none
  errorDetail := none
  extractedData := none
  decision := none
  reconciliation := []
  hoursChanges := []
  preClarifyExtracted := none
  clarifiedFields := Dict.empty
  aliasCandidates := Dict.empty
  lineItems := []

inductive Purpose
  | clarification
  | clarificationFieldRegression
  | confirmation
  deriving DecidableEq, Repr

def Purpose.expectedStatus : Purpose → RunStatus
  | .confirmation => .approved
  | _ => .awaitingReply

inductive SendState
  | reserved
  | sent
  | failed
  deriving DecidableEq, Repr

structure Envelope where
  fromAddr : Str
  toAddr : Str
  replyTo : Option Str
  inReplyTo : Option Uuid
  referencesHeader : List Uuid
  subject : Str
  bodyText : Str
  attachments : List (Str × List UInt8)
  deriving DecidableEq, Repr

structure Snapshot where
  messageId : Uuid
  envelope : Envelope
  reservedAt : Nat
  deriving DecidableEq, Repr

def Snapshot.notAfter (s : Snapshot) : Nat := s.reservedAt + deliveryReplayWindow

/-- An outbound row of `email_messages`, with the snapshot reserved for it. -/
structure Outbound where
  runId : Uuid
  purpose : Purpose
  round : Nat
  epoch : Nat
  sendState : SendState
  operatorAcknowledgedAt : Option Nat
  snapshot : Snapshot
  deriving DecidableEq, Repr

/-- What ingest parses out of a received email. Message ids are opaque tokens,
and the References header is the list of its tokens. -/
structure InboundMail where
  messageId : Uuid
  inReplyTo : Option Uuid
  references : List Uuid
  fromAddr : Uuid
  bodyText : Str
  deriving DecidableEq, Repr

/-- An inbound row of `email_messages`. -/
structure Inbound where
  mail : InboundMail
  runId : Option Uuid
  epoch : Nat
  consumedRound : Option Nat
  deriving DecidableEq, Repr

inductive JobKind
  | runPipeline
  | resumeReply
  | operatorResume
  | sendOutbound
  | ingest
  deriving DecidableEq, Repr

inductive JobState
  | pending
  | leased
  | done
  | dead
  deriving DecidableEq, Repr

inductive DedupKey
  | runPipeline (runId epoch : Nat)
  | resumeReply (runId emailId : Uuid)
  | operatorResume (runId resolutionId : Uuid)
  | sendOutbound (emailId : Uuid)
  | ingest (eventId : Uuid)
  | demoRun (runId : Uuid)
  deriving DecidableEq, Repr

/-- `<stage>:<reason>`. -/
abbrev LastError := PipelineStage × Option PipelineReason

/-- A row of `jobs`. -/
structure JobRow where
  kind : JobKind
  dedupKey : DedupKey
  runId : Option Uuid
  emailId : Option Uuid
  operatorResolutionId : Option Uuid
  eventId : Option Uuid
  state : JobState
  attempts : Nat
  maxAttempts : Nat
  availableAt : Nat
  leaseToken : Option Uuid
  leasedUntil : Option Nat
  lastError : Option LastError
  updatedAt : Nat
  deriving DecidableEq, Repr

structure Job where
  id : Uuid
  kind : JobKind
  runId : Option Uuid
  emailId : Option Uuid
  operatorResolutionId : Option Uuid
  eventId : Option Uuid
  attempts : Nat
  maxAttempts : Nat
  leaseToken : Uuid
  deriving DecidableEq, Repr

inductive ReleaseReason
  | retryScheduled
  | finalized
  | deliveryReview
  deriving DecidableEq, Repr

/-- A row of `outbound_provider_handoffs`. It is active until it is released. -/
structure Handoff where
  runId : Uuid
  emailId : Uuid
  jobId : Uuid
  leaseToken : Uuid
  ownerLeasedUntil : Nat
  epoch : Nat
  authorizedAt : Nat
  notAfter : Nat
  released : Option (Nat × ReleaseReason)
  deriving DecidableEq, Repr

inductive AttemptState
  | sent
  | retryScheduled
  | needsOperator
  deriving DecidableEq, Repr

structure DeliveryAttempt where
  emailId : Uuid
  state : AttemptState
  failureCategory : FailureCategory
  deriving DecidableEq, Repr

structure OperatorResolution where
  runId : Uuid
  authoritative : Bool
  supersededBy : Option Uuid
  overrides : Dict Str Uuid
  remember : Dict Str Bool

/-- The database. Every row and every token takes its identifier from
`nextId`. -/
structure Db where
  now : Nat
  nextId : Uuid
  runs : Dict Uuid Run
  inbound : Dict Uuid Inbound
  outbound : Dict Uuid Outbound
  jobs : Dict Uuid JobRow
  handoffs : Dict Uuid Handoff
  attempts : List DeliveryAttempt
  resolutions : Dict Uuid OperatorResolution
  rosters : Dict Uuid Roster
  senders : Dict Uuid Uuid

def Db.empty : Db :=
  ⟨0, 0, .empty, .empty, .empty, .empty, .empty, [], .empty, .empty, .empty⟩

namespace Db

def modifyRun (r : Uuid) (f : Run → Run) (db : Db) : Db := { db with runs := db.runs.modify r f }

theorem modifyRun_runs (r : Uuid) (f : Run → Run) (db : Db) :
    (db.modifyRun r f).runs = db.runs.modify r f := rfl

def modifyJob (j : Uuid) (f : JobRow → JobRow) (db : Db) : Db :=
  { db with jobs := db.jobs.modify j f }

def modifyOutbound (e : Uuid) (f : Outbound → Outbound) (db : Db) : Db :=
  { db with outbound := db.outbound.modify e f }

theorem modifyOutbound_outbound (e : Uuid) (f : Outbound → Outbound) (db : Db) :
    (db.modifyOutbound e f).outbound = db.outbound.modify e f := rfl

def modifyHandoff (h : Uuid) (f : Handoff → Handoff) (db : Db) : Db :=
  { db with handoffs := db.handoffs.modify h f }

def insertJob (row : JobRow) (db : Db) : Db :=
  { db with jobs := db.jobs.set db.nextId row, nextId := db.nextId + 1 }

def insertHandoff (row : Handoff) (db : Db) : Db :=
  { db with handoffs := db.handoffs.set db.nextId row, nextId := db.nextId + 1 }

def insertOutbound (row : Outbound) (db : Db) : Db :=
  { db with outbound := db.outbound.set db.nextId row, nextId := db.nextId + 1 }

def insertInbound (row : Inbound) (db : Db) : Db :=
  { db with inbound := db.inbound.set db.nextId row, nextId := db.nextId + 1 }

def insertRun (row : Run) (db : Db) : Db :=
  { db with runs := db.runs.set db.nextId row, nextId := db.nextId + 1 }

def statusOf (db : Db) (r : Uuid) : Option RunStatus := (db.runs.get? r).map Run.status

def epochOf (db : Db) (r : Uuid) : Option Nat := (db.runs.get? r).map Run.replyEpoch

end Db

end PayrollAgent
