import PayrollAgent.Repo.Emails
import PayrollAgent.Repo.Jobs

namespace PayrollAgent.Ingest

open Lib Repo

inductive IngestOutcome
  | duplicate
  | replyCandidate
  | lateReply
  | unknownSender
  | newRun
  deriving DecidableEq, Repr

def replySenderOk (db : Db) (mail : InboundMail) (run : Run) : Bool :=
  db.senders.get? mail.fromAddr = some run.businessId

def authorizedReplyJob (mail : InboundMail) (r e : Uuid) (db : Db) : Db :=
  match db.runs.get? r with
  | none => db
  | some run =>
      if run.status = .awaitingReply ∧ replySenderOk db mail run then
        enqueueJob .resumeReply (.resumeReply r e) (some r) (some e) none none db
      else db

section

variable (mail : InboundMail) (r e : Uuid) (db : Db)

theorem authorizedReplyJob_cases :
    authorizedReplyJob mail r e db = db ∨
      (∃ run, db.runs.get? r = some run ∧ run.status = .awaitingReply ∧
          replySenderOk db mail run = true) ∧
        authorizedReplyJob mail r e db =
          enqueueJob .resumeReply (.resumeReply r e) (some r) (some e) none none db := by
  cases hrun : db.runs.get? r with
  | none => exact .inl (by simp only [authorizedReplyJob, hrun])
  | some run =>
      by_cases hauthorized : run.status = .awaitingReply ∧ replySenderOk db mail run
      · exact .inr ⟨⟨run, rfl, hauthorized⟩, by simp only [authorizedReplyJob, hrun, if_pos hauthorized]⟩
      · exact .inl (by simp only [authorizedReplyJob, hrun, if_neg hauthorized])

@[simp] theorem authorizedReplyJob_runs : (authorizedReplyJob mail r e db).runs = db.runs := by
  obtain h | ⟨-, h⟩ := authorizedReplyJob_cases mail r e db
  · rw [h]
  · rw [h, enqueueJob_runs]

@[simp] theorem authorizedReplyJob_inbound : (authorizedReplyJob mail r e db).inbound = db.inbound := by
  obtain h | ⟨-, h⟩ := authorizedReplyJob_cases mail r e db
  · rw [h]
  · rw [h, enqueueJob_inbound]

@[simp] theorem authorizedReplyJob_outbound :
    (authorizedReplyJob mail r e db).outbound = db.outbound := by
  obtain h | ⟨-, h⟩ := authorizedReplyJob_cases mail r e db
  · rw [h]
  · rw [h, enqueueJob_outbound]

@[simp] theorem authorizedReplyJob_handoffs :
    (authorizedReplyJob mail r e db).handoffs = db.handoffs := by
  obtain h | ⟨-, h⟩ := authorizedReplyJob_cases mail r e db
  · rw [h]
  · rw [h, enqueueJob_handoffs]

@[simp] theorem authorizedReplyJob_attempts :
    (authorizedReplyJob mail r e db).attempts = db.attempts := by
  obtain h | ⟨-, h⟩ := authorizedReplyJob_cases mail r e db
  · rw [h]
  · rw [h, enqueueJob_attempts]

@[simp] theorem authorizedReplyJob_now : (authorizedReplyJob mail r e db).now = db.now := by
  obtain h | ⟨-, h⟩ := authorizedReplyJob_cases mail r e db
  · rw [h]
  · rw [h, enqueueJob_now]

end

def inboundByMessageId (db : Db) (messageId : Uuid) : Option (Uuid × Inbound) :=
  db.inbound.select fun _ m => m.mail.messageId = messageId

def ingestDuplicate (e : Uuid) (row : Inbound) (db : Db) : Db :=
  match row.runId, row.consumedRound with
  | some r, none => authorizedReplyJob row.mail r e db
  | _, _ => db

def ingestNewRun (mail : InboundMail) (e : Uuid) (db : Db) : IngestOutcome × Db :=
  match db.senders.get? mail.fromAddr with
  | none => (.unknownSender, db)
  | some businessId =>
      let (r, db) := createRun businessId e db
      (.newRun, enqueueJob .runPipeline (.runPipeline r 0) (some r) none none none db)

/-- The Message-ID is unique over both directions. -/
def isOutboundMessageId (db : Db) (messageId : Uuid) : Bool :=
  (db.outbound.select fun _ m => m.snapshot.messageId = messageId).isSome

/-- Classify a mail that was not stored before: a reply, a late reply, or the
source of a new run. -/
def ingestFresh (mail : InboundMail) (awaiting late : Uuid) (db : Db) : IngestOutcome × Db :=
  let e := db.nextId
  let db := db.insertInbound { mail := mail, runId := none, epoch := 0, consumedRound := none }
  if mail.inReplyTo = none ∧ mail.references = [] then ingestNewRun mail e db
  else
    match findAwaitingReplyForHeader db mail awaiting with
    | some r => (.replyCandidate, authorizedReplyJob mail r e (linkEmailToRun e r db))
    | none =>
        match findAnyRunForHeader db mail late with
        | some r => (.lateReply, linkEmailToRun e r db)
        | none => ingestNewRun mail e db

/-- `_ingest_email`, with the run each unordered lookup picked. -/
def ingestEmail (mail : InboundMail) (awaiting late : Uuid) (db : Db) : IngestOutcome × Db :=
  match inboundByMessageId db mail.messageId with
  | some (e, row) => (.duplicate, ingestDuplicate e row db)
  | none =>
      if isOutboundMessageId db mail.messageId then (.duplicate, db)
      else ingestFresh mail awaiting late db

end PayrollAgent.Ingest
