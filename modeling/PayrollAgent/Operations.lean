import PayrollAgent.ClarificationWrites
import PayrollAgent.CombinedEmail
import PayrollAgent.Ingest
import PayrollAgent.RunRoutes

namespace PayrollAgent

open Lib Repo AliasLearning RunStages RunRoutes ClarificationWrites Ingest CombinedEmail

/-- What a thread calls: one repository transaction, one snapshot of the
database, one request to the outside, or the passing of time. -/
inductive Op
  | query
  | claimJob
  | reapExpiredFinalAttempt
  | settleOutboundDeliveryJob (job : Job) (result : PipelineResult)
  | settlePipelineJob (job : Job) (result : PipelineResult)
  | releaseLeases (tokens : List Uuid)
  | authorizeOutboundProviderHandoff (job : Job)
  | send (a : Authorization)
  | claimStatus (r : Uuid) (expected new : RunStatus)
  | setStatus (r : Uuid) (status : RunStatus)
  | rewindForReclaim (r : Uuid)
  | markReplyConsumed (messageId round : Nat)
  | setClarifiedFields (r : Uuid) (clarified : ClarifiedFields)
  | setAliasCandidates (r : Uuid) (candidates : AliasCandidates)
  | persistStages (r : Uuid) (s : StageResult)
  | escalateToOperator (r : Uuid)
  | finalizeSentClarification (r : Uuid) (round : Nat) (extracted : Extracted)
  | replayReservedClarification (r e : Uuid) (extracted : Extracted)
  | reserveClarification (r : Uuid) (q : Question)
  | loadConsumedReplies (r : Uuid)
  | extract (email : ReadEmail)
  | suggest
  | compose
  | fetchInbound (eventId : Uuid)
  | ingestEmail (mail : InboundMail)
  | prepareAuthoritativeOperatorResume (r g : Uuid)
  | approve (r : Uuid)
  | recordRunError (r : Uuid) (e : Exn)
  | retrigger (r : Uuid)
  | markDeliveryDelivered (r : Uuid)
  | authorizeNewConfirmation (r : Uuid)
  | retryDeliveryNow (r : Uuid) (kind : ReviewKind)
  | finishClarificationDeliveryReview (r : Uuid) (target : RunStatus) (acknowledge : Bool)
  | commitResolution (r : Uuid) (overrides : Dict Str Uuid) (remember : Dict Str Bool)
  | pass (seconds : Nat)

def Ans : Op → Type
  | .query => Db
  | .claimJob => Option Job
  | .reapExpiredFinalAttempt => Option SettlementOutcome
  | .settleOutboundDeliveryJob _ _ => SettlementOutcome
  | .settlePipelineJob _ _ => SettlementOutcome
  | .authorizeOutboundProviderHandoff _ => ProviderHandoffOutcome
  | .claimStatus _ _ _ => Bool
  | .rewindForReclaim _ => Bool
  | .loadConsumedReplies _ => List (Uuid × Inbound)
  | .extract _ => Extracted
  | .suggest => Dict Str Str
  | .compose => Envelope
  | .fetchInbound _ => InboundMail
  | .ingestEmail _ => IngestOutcome
  | .prepareAuthoritativeOperatorResume _ _ => Bool
  | .approve _ => Bool
  | .retrigger _ => Bool
  | .markDeliveryDelivered _ => Bool
  | .authorizeNewConfirmation _ => Bool
  | .retryDeliveryNow _ _ => AdvanceSendJobOutcome
  | .finishClarificationDeliveryReview _ _ _ => Bool
  | .commitResolution _ _ _ => Uuid
  | _ => Unit

/-- A call can fail before its commit, which has no effect, or after it. -/
inductive Fault
  | none
  | before (e : Exn)
  | after (e : Exn)

/-- What the code leaves open in one step: the failure, the rows SKIP LOCKED
and the unordered lookups pick, the jitter, and what models, renderer and
provider return. -/
structure Env where
  fault : Fault := .none
  picked : Uuid := 0
  otherPicked : Uuid := 0
  backoff : Nat := 0
  flipped : Bool := false
  extracted : Extracted := ⟨0, [], none, none⟩
  suggestions : Dict Str Str := Dict.empty
  envelope : Envelope := ⟨[], [], none, none, [], [], [], []⟩
  mail : InboundMail := ⟨0, none, [], 0, []⟩
  rank : Uuid → Nat := fun e => e

section

variable [PyText]

def writing (db : Db) : Except Exn (Unit × Db) := .ok ((), db)

/-- The transaction of an operation. One that raises leaves no trace. -/
def txn (env : Env) : (op : Op) → Db → Except Exn (Ans op × Db)
  | .query, db => .ok (db, db)
  | .claimJob, db => .ok (claimJob env.picked db)
  | .reapExpiredFinalAttempt, db => .ok (reapExpiredFinalAttempt env.picked db)
  | .settleOutboundDeliveryJob job result, db => .ok (settleOutboundDeliveryJob job result db)
  | .settlePipelineJob job result, db => .ok (settlePipelineJob job result env.backoff db)
  | .releaseLeases tokens, db => writing (releaseLeases tokens db)
  | .authorizeOutboundProviderHandoff job, db => .ok (authorizeOutboundProviderHandoff job db)
  | .send _, db => writing db
  | .claimStatus r expected new, db => .ok (claimStatus r expected new db)
  | .setStatus r status, db => writing (setStatus r status db)
  | .rewindForReclaim r, db => .ok (rewindForReclaim r db)
  | .markReplyConsumed messageId round, db => writing (markReplyConsumed messageId round db)
  | .setClarifiedFields r clarified, db => writing (setClarifiedFields r clarified db)
  | .setAliasCandidates r candidates, db => writing (setAliasCandidates r candidates db)
  | .persistStages r s, db => writing (persistStages r s db)
  | .escalateToOperator r, db => writing (escalateToOperator r db)
  | .finalizeSentClarification r round extracted, db => writing (pauseForReply r round extracted db)
  | .replayReservedClarification r e extracted, db =>
      (replayReservedClarification r e extracted db).bind writing
  | .reserveClarification r q, db => writing (reserveClarification r q db)
  | .loadConsumedReplies r, db => .ok (loadConsumedReplies env.rank r db, db)
  | .extract _, db => .ok (env.extracted, db)
  | .suggest, db => .ok (env.suggestions, db)
  | .compose, db => .ok (env.envelope, db)
  | .fetchInbound _, db => .ok (env.mail, db)
  | .ingestEmail mail, db => .ok (ingestEmail mail env.picked env.otherPicked db)
  | .prepareAuthoritativeOperatorResume r g, db => prepareAuthoritativeOperatorResume r g db
  | .approve r, db => .ok (approve r env.envelope db)
  | .recordRunError r e, db => writing (recordRunError r e db)
  | .retrigger r, db => retrigger r db
  | .markDeliveryDelivered r, db => markDeliveryDelivered r env.flipped db
  | .authorizeNewConfirmation r, db => authorizeNewConfirmation r env.flipped db
  | .retryDeliveryNow r kind, db => .ok (retryDeliveryNow r env.flipped kind db)
  | .finishClarificationDeliveryReview r target acknowledge, db =>
      .ok (finishClarificationDeliveryReview r env.flipped target acknowledge db)
  | .commitResolution r overrides remember, db => commitResolution r overrides remember db
  | .pass seconds, db => writing { db with now := db.now + seconds }

def exec (env : Env) (op : Op) (db : Db) : Except Exn (Ans op) × Db :=
  match env.fault, txn env op db with
  | .before e, _ => (.error e, db)
  | _, .error e => (.error e, db)
  | .none, .ok (a, db') => (.ok a, db')
  | .after e, .ok (_, db') => (.error e, db')

end

end PayrollAgent
