import PayrollAgent.Lib.Newest
import PayrollAgent.Repo.AliasWrites
import PayrollAgent.Repo.Emails
import PayrollAgent.Repo.OutboundHandoffs

namespace PayrollAgent.Repo

open Lib

inductive SettlementOutcome
  | done
  | retried
  | dead
  | fenced
  | lostLease
  | invalidContext
  | reapedFinalLease
  deriving DecidableEq, Repr

def finalLeaseErrorStatuses : List RunStatus := [.received, .extracting, .computed, .approved]

def closeJob (j : Uuid) (state : JobState) (db : Db) : Db :=
  db.modifyJob j fun row => unlease row state row.availableAt row.lastError db.now

def finish (j : Uuid) (state : JobState) (lastError : Option LastError) (db : Db) : Db :=
  db.modifyJob j fun row => unlease row state row.availableAt lastError db.now

def diagnosticCode (result : PipelineResult) : Option LastError :=
  some (result.stage, some result.reason)

/-- `delivery:invalid_context`. -/
def retireInvalidOutboundLease (j : Uuid) (state : JobState) : Db → Db :=
  finish j state (some (.delivery, none))

def appendDeliveryAttempt (e : Uuid) (state : AttemptState) (category : FailureCategory) (db : Db) :
    Db :=
  { db with attempts := db.attempts ++ [⟨e, state, category⟩] }

/-- The reserved message of a send whose run still stands where the send was
queued. Where it is absent the send has no valid context. -/
def deliveryContext (db : Db) (r e : Uuid) : Option (Outbound × Run) :=
  match ownMessage db r e, db.runs.get? r with
  | some m, some run =>
      if m.sendState = .reserved ∧ m.epoch = run.replyEpoch ∧
          run.status = m.purpose.expectedStatus then
        some (m, run)
      else none
  | _, _ => none

def reviewReason : Purpose → ErrorReason
  | .confirmation => .deliveryReview
  | _ => .clarificationDeliveryReview

def enterDeliveryReview (r e : Uuid) (purpose : Purpose) (category : FailureCategory) (db : Db) : Db :=
  (appendDeliveryAttempt e .needsOperator category db).modifyRun r fun run =>
    { run with
      status := .needsOperator
      errorReason := some (reviewReason purpose)
      errorDetail := some (.deliveryReview category)
      updatedAt := db.now }

def settleDeliveryReview (job : Job) (result : PipelineResult) (r e : Uuid) (purpose : Purpose)
    (db : Db) : Db :=
  finish job.id .done (diagnosticCode result)
    (enterDeliveryReview r e purpose (deliveryFailureCategory result) db)

section

variable [PyText]

def completeConfirmationAfterSend (r : Uuid) (db : Db) : Db :=
  setStatus r .reconciled (writeAliasesIfSafe r (setStatus r .sent db))

theorem completeConfirmationAfterSend_runs (r : Uuid) (db : Db) :
    (completeConfirmationAfterSend r db).runs =
      db.runs.modify r fun run => { run with status := .reconciled, updatedAt := db.now } := by
  simp only [completeConfirmationAfterSend, setStatus, Db.modifyRun, writeAliasesIfSafe_runs,
    writeAliasesIfSafe_now, Dict.modify_modify]

def settleSent (r e : Uuid) (purpose : Purpose) (db : Db) : Db :=
  match purpose with
  | .confirmation => completeConfirmationAfterSend r (markSent e db)
  | _ => markSent e db

section

variable (r e : Uuid) (purpose : Purpose) (db : Db)

@[simp] theorem settleSent_inbound : (settleSent r e purpose db).inbound = db.inbound := by
  cases purpose with
  | confirmation => exact writeAliasesIfSafe_inbound ..
  | clarification => rfl
  | clarificationFieldRegression => rfl

@[simp] theorem settleSent_jobs : (settleSent r e purpose db).jobs = db.jobs := by
  cases purpose with
  | confirmation => exact writeAliasesIfSafe_jobs ..
  | clarification => rfl
  | clarificationFieldRegression => rfl

@[simp] theorem settleSent_handoffs : (settleSent r e purpose db).handoffs = db.handoffs := by
  cases purpose with
  | confirmation => exact writeAliasesIfSafe_handoffs ..
  | clarification => rfl
  | clarificationFieldRegression => rfl

@[simp] theorem settleSent_attempts : (settleSent r e purpose db).attempts = db.attempts := by
  cases purpose with
  | confirmation => exact writeAliasesIfSafe_attempts ..
  | clarification => rfl
  | clarificationFieldRegression => rfl

@[simp] theorem settleSent_now : (settleSent r e purpose db).now = db.now := by
  cases purpose with
  | confirmation => exact writeAliasesIfSafe_now ..
  | clarification => rfl
  | clarificationFieldRegression => rfl

theorem settleSent_runs :
    (settleSent r e purpose db).runs = if purpose = .confirmation then
      db.runs.modify r fun run => { run with status := .reconciled, updatedAt := db.now } else
        db.runs := by
  cases purpose with
  | confirmation => exact completeConfirmationAfterSend_runs ..
  | clarification => rfl
  | clarificationFieldRegression => rfl

theorem settleSent_outbound :
    (settleSent r e purpose db).outbound = db.outbound.modify e fun m =>
    { m with sendState := .sent } := by
  cases purpose with
  | confirmation => exact writeAliasesIfSafe_outbound ..
  | clarification => rfl
  | clarificationFieldRegression => rfl

end

def settleOwnedHandoff (job : Job) (result : PipelineResult) (attempts : Nat) (r e h : Uuid)
    (m : Outbound) (db : Db) : SettlementOutcome × Db :=
  if result.outcome = .ok then
    (.done, closeJob job.id .done
      (settleSent r e m.purpose (appendDeliveryAttempt e .sent .none (releaseHandoff h .finalized db))))
  else
    match if result.outcome = .retryable ∧ result.reason ∈ replayableDeliveryReasons ∧
        db.now < m.snapshot.notAfter then nextDeliveryAttemptAt m.snapshot.reservedAt attempts
      else none with
    | some nextAttempt =>
        (.retried,
          (appendDeliveryAttempt e .retryScheduled (deliveryFailureCategory result)
            (releaseHandoff h .retryScheduled db)).modifyJob job.id
            fun row => unlease row .pending nextAttempt (diagnosticCode result) db.now)
    | none =>
        (.done, settleDeliveryReview job result r e m.purpose (releaseHandoff h .deliveryReview db))

def isPreProviderExpiry (result : PipelineResult) (run : Run) (m : Outbound) (now : Nat) : Bool :=
  result.outcome = .terminal ∧ result.stage = .delivery ∧
    result.reason = .deliveryAuthorizationExpired ∧ run.recordOnly = false ∧ m.snapshot.notAfter ≤ now

def settleInContext (job : Job) (result : PipelineResult) (row : JobRow) (r e : Uuid) (m : Outbound)
    (run : Run) (db : Db) : SettlementOutcome × Db :=
  if result.reason = .deliveryRecordOnly then
    if run.recordOnly then (.done, closeJob job.id .done (settleSent r e m.purpose db))
    else (.invalidContext, retireInvalidOutboundLease job.id .done db)
  else if isPreProviderExpiry result run m db.now ∧ activeHandoff db r = none then
    (.done, settleDeliveryReview job result r e m.purpose db)
  else
    match currentProviderHandoff db job.id job.leaseToken r e m.epoch with
    | none => (.invalidContext, retireInvalidOutboundLease job.id .done db)
    | some (h, _) => settleOwnedHandoff job result row.attempts r e h m db

def settleOutboundDeliveryJob (job : Job) (result : PipelineResult) (db : Db) :
    SettlementOutcome × Db :=
  match lockedJob db job with
  | none => (.lostLease, db)
  | some row =>
      match sendContext job row with
      | none => (.invalidContext, retireInvalidOutboundLease job.id .done db)
      | some (r, e) =>
          match deliveryContext db r e with
          | none => (.invalidContext, retireInvalidOutboundLease job.id .done db)
          | some (m, run) => settleInContext job result row r e m run db

end

/-- `_rewind_run`: back to RECEIVED with the reply context kept. -/
def rewindRun (r : Uuid) (db : Db) : Bool × Db := claimStatus r .extracting .received db

def setRunError (r : Uuid) (reason : ErrorReason) (detail : ErrorDetail) (expected : RunStatus)
    (db : Db) : Bool × Db :=
  if db.statusOf r = some expected then
    (true, db.modifyRun r fun run =>
      { run with
        status := .error
        errorReason := some reason
        errorDetail := some detail
        updatedAt := db.now })
  else (false, db)

section

variable (r : Uuid) (reason : ErrorReason) (detail : ErrorDetail) (s : RunStatus) (db : Db)

theorem setRunError_frame : ∃ runs, (setRunError r reason detail s db).2 = { db with runs := runs } := by
  unfold setRunError
  split
  · exact ⟨_, rfl⟩
  · exact ⟨db.runs, rfl⟩

@[simp] theorem setRunError_inbound : (setRunError r reason detail s db).2.inbound = db.inbound := by
  obtain ⟨runs, hframe⟩ := setRunError_frame r reason detail s db
  rw [hframe]

@[simp] theorem setRunError_outbound : (setRunError r reason detail s db).2.outbound = db.outbound := by
  obtain ⟨runs, hframe⟩ := setRunError_frame r reason detail s db
  rw [hframe]

@[simp] theorem setRunError_jobs : (setRunError r reason detail s db).2.jobs = db.jobs := by
  obtain ⟨runs, hframe⟩ := setRunError_frame r reason detail s db
  rw [hframe]

@[simp] theorem setRunError_handoffs : (setRunError r reason detail s db).2.handoffs = db.handoffs := by
  obtain ⟨runs, hframe⟩ := setRunError_frame r reason detail s db
  rw [hframe]

@[simp] theorem setRunError_attempts : (setRunError r reason detail s db).2.attempts = db.attempts := by
  obtain ⟨runs, hframe⟩ := setRunError_frame r reason detail s db
  rw [hframe]

@[simp] theorem setRunError_now : (setRunError r reason detail s db).2.now = db.now := by
  obtain ⟨runs, hframe⟩ := setRunError_frame r reason detail s db
  rw [hframe]

end

def retryJob (j : Uuid) (backoff : Nat) (result : PipelineResult) (db : Db) : Db :=
  db.modifyJob j fun row => unlease row .pending (db.now + backoff) (diagnosticCode result) db.now

def settleIngestJob (job : Job) (result : PipelineResult) (row : JobRow) (backoff : Nat) (db : Db) :
    SettlementOutcome × Db :=
  match result.outcome with
  | .retryable =>
      if row.attempts < row.maxAttempts then (.retried, retryJob job.id backoff result db)
      else (.dead, finish job.id .dead (diagnosticCode result) db)
  | .terminal => (.done, finish job.id .done (diagnosticCode result) db)
  | .ok => (.done, closeJob job.id .done db)

/-- A run that cannot take the error fences the settlement, and the job keeps
its lease. -/
def settleRunError (job : Job) (result : PipelineResult) (r : Uuid) (reason : ErrorReason)
    (attempts : Option (Nat × Nat)) (state : JobState) (outcome : SettlementOutcome) (db : Db) :
    SettlementOutcome × Db :=
  match setRunError r reason (.diagnostic result.stage result.reason attempts) .extracting db with
  | (true, db) => (outcome, finish job.id state (diagnosticCode result) db)
  | (false, db) => (.fenced, db)

def settleRunJob (job : Job) (result : PipelineResult) (row : JobRow) (r : Uuid) (backoff : Nat)
    (db : Db) : SettlementOutcome × Db :=
  match result.outcome with
  | .ok => (.done, closeJob job.id .done db)
  | .retryable =>
      if row.attempts < row.maxAttempts then
        match rewindRun r db with
        | (true, db) => (.retried, retryJob job.id backoff result db)
        | (false, db) => (.fenced, db)
      else
        settleRunError job result r .retryExhausted (some (row.attempts, row.maxAttempts)) .dead .dead
          db
  | .terminal => settleRunError job result r (.pipeline result.reason) none .done .done db

def settlePipelineJob (job : Job) (result : PipelineResult) (backoff : Nat) (db : Db) :
    SettlementOutcome × Db :=
  match lockedJob db job with
  | none => (.fenced, db)
  | some row =>
      if row.kind ≠ job.kind then (.fenced, db)
      else if row.kind = .ingest then
        if row.runId = none ∧ job.runId = none then settleIngestJob job result row backoff db
        else (.fenced, db)
      else
        match row.runId with
        | none => (.fenced, db)
        | some r =>
            if job.runId = some r then settleRunJob job result row r backoff db else (.fenced, db)

def settleInfrastructureFailure (job : Job) (backoff : Nat) : Db → SettlementOutcome × Db :=
  settlePipelineJob job { outcome := .retryable } backoff

def reapable (now : Nat) (row : JobRow) : Bool :=
  row.state = .leased ∧ row.attempts = row.maxAttempts ∧ row.leasedUntil.any (· < now)

def reapSend (j : Uuid) (row : JobRow) (db : Db) : SettlementOutcome × Db :=
  match row.runId, row.emailId, row.leaseToken with
  | some r, some e, some token =>
      match deliveryContext db r e with
      | none => (.invalidContext, retireInvalidOutboundLease j .dead db)
      | some (m, _) =>
          match currentProviderHandoff db j token r e m.epoch with
          | none => (.invalidContext, retireInvalidOutboundLease j .dead db)
          | some (h, _) =>
              (.reapedFinalLease,
                closeJob j .dead (enterDeliveryReview r e m.purpose .finalAttemptLeaseExpired
                  (releaseHandoff h .deliveryReview db)))
  | _, _, _ => (.invalidContext, retireInvalidOutboundLease j .dead db)

def reapRun (j : Uuid) (row : JobRow) (r : Uuid) (db : Db) : SettlementOutcome × Db :=
  match db.statusOf r with
  | none => (.fenced, db)
  | some status =>
      if status ∈ finalLeaseErrorStatuses then
        (.reapedFinalLease, closeJob j .dead (setRunError r .finalAttemptLeaseExpired
          (.finalAttemptLeaseExpired row.attempts row.maxAttempts) status db).2)
      else (.reapedFinalLease, closeJob j .dead db)

def reapRow (j : Uuid) (row : JobRow) (db : Db) : SettlementOutcome × Db :=
  match row.kind, row.runId with
  | .sendOutbound, _ => reapSend j row db
  | .ingest, none => (.reapedFinalLease, closeJob j .dead db)
  | .ingest, some _ => (.fenced, db)
  | _, some r => reapRun j row r db
  | _, none => (.fenced, db)

/-- Dead-letter the expired final attempt SKIP LOCKED picked, if there is one. -/
def reapExpiredFinalAttempt (picked : Uuid) (db : Db) : Option SettlementOutcome × Db :=
  match db.jobs.get? picked with
  | none => (none, db)
  | some row =>
      if reapable db.now row then
        ((some (reapRow picked row db).1), (reapRow picked row db).2)
      else (none, db)

/-- A closed job of the run carries the timestamp of its row. -/
def accounted (db : Db) (r : Uuid) (run : Run) : Bool :=
  (db.jobs.select fun _ row => row.runId = some r ∧ (row.state = .done ∨ row.state = .dead) ∧
    row.updatedAt = run.updatedAt).isSome

def unaccountedErrorRuns (db : Db) : List (Uuid × Run) :=
  db.runs.entries.filter fun p => p.2.status = .error ∧ accounted db p.1 p.2 = false

structure UnaccountedErrorRun where
  id : Uuid
  errorReason : Option ErrorReason
  updatedAt : Nat

def listUnaccountedErrorRuns (limit : Nat) (db : Db) : List UnaccountedErrorRun :=
  (newest (fun p => p.2.updatedAt) limit (unaccountedErrorRuns db)).map fun p =>
    ⟨p.1, p.2.errorReason, p.2.updatedAt⟩

end PayrollAgent.Repo
