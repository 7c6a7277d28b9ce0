import PayrollAgent.Operations

namespace PayrollAgent.Effects

open Lib Repo AliasLearning RunStages Delivery RunRoutes ClarificationWrites Ingest

/-- The row of a leased send, its message and its run, where the message is
still owed. -/
structure InContext (db : Db) (job : Job) (row : JobRow) (r e : Uuid) (m : Outbound) (run : Run) :
    Prop where
  locked : lockedJob db job = some row
  names : sendContext job row = some (r, e)
  owed : deliveryContext db r e = some (m, run)

def Evidence (db : Db) (job : Job) (result : PipelineResult) (r e : Uuid) (m : Outbound) (run : Run) :
    Prop :=
  if result.reason = .deliveryRecordOnly then run.recordOnly = true
  else (isPreProviderExpiry result run m db.now = true ∧ activeHandoff db r = none) ∨
    ∃ h, currentProviderHandoff db job.id job.leaseToken r e m.epoch = some h

def Settles (db : Db) (job : Job) (result : PipelineResult) : Prop :=
  ∃ row r e m run, InContext db job row r e m run ∧ Evidence db job result r e m run

structure Reaps (db : Db) (j : Uuid) (row : JobRow) (r e : Uuid) (m : Outbound) (run : Run)
    (h : Uuid) (handoff : Handoff) : Prop where
  runId : row.runId = some r
  emailId : row.emailId = some e
  owed : deliveryContext db r e = some (m, run)
  owned : ∃ token, row.leaseToken = some token ∧
    currentProviderHandoff db j token r e m.epoch = some (h, handoff)

structure MayHandOver (db : Db) (job : Job) (row : JobRow) (leasedUntil : Nat) (r e : Uuid)
    (m : Outbound) (run : Run) : Prop extends InContext db job row r e m run where
  leased : row.leasedUntil = some leasedUntil
  notRecordOnly : run.recordOnly = false
  open' : db.now < m.snapshot.notAfter

/-- The claim of a retrigger, before the context is cleared. -/
def RetriggerClaim (db : Db) (r : Uuid) (db₁ : Db) : Prop :=
  (db₁ = db ∧ db.statusOf r = some .received) ∨
    db₁ = setStatus r .received db ∧ ∃ s, db.statusOf r = some s ∧
      s ∈ [RunStatus.error, .approved, .extracting, .computed, .sent]

def stored (mail : InboundMail) (db : Db) : Db :=
  db.insertInbound { mail := mail, runId := none, epoch := 0, consumedRound := none }

def replaceConfirmation (r : Uuid) (envelope : Envelope) (db : Db) : Db :=
  enqueueSend r (reserveOutboundSnapshot r .confirmation 0 envelope db).1
    (reserveOutboundSnapshot r .confirmation 0 envelope db).2

section Review

variable {r e : Uuid} {reason : ReleaseReason} {status : RunStatus} {db db₁ : Db}

theorem resolved_runs
    (h : resolveOutboundProviderHandoffForDeliveryReview r e reason (setStatus r status db) = (true, db₁)) :
    db₁.runs = db.runs.modify r fun run => { run with status := status, updatedAt := db.now } := by
  obtain ⟨handoffs, rfl⟩ := resolve_frame h
  have hset : (setStatus r status db).runs = _ := Db.modifyRun_runs ..
  exact hset

theorem authorizedNew_runs (envelope : Envelope)
    (h : resolveOutboundProviderHandoffForDeliveryReview r e reason (setStatus r status db) = (true, db₁)) :
    (replaceConfirmation r envelope (db₁.modifyRun r (openEpoch db₁.now))).runs =
      db.runs.modify r fun run =>
        openEpoch db.now { run with status := status, updatedAt := db.now } := by
  obtain ⟨handoffs, rfl⟩ := resolve_frame h
  simp [replaceConfirmation, setStatus, Db.modifyRun, Dict.modify_modify]

theorem finishedReview_runs (r e : Uuid) (target : RunStatus) (acknowledge : Bool) (db : Db) :
    (if acknowledge then markOutboundOperatorAcknowledged r e (setStatus r target db)
      else setStatus r target db).runs =
        db.runs.modify r fun run => { run with status := target, updatedAt := db.now } := by
  have hset : (setStatus r target db).runs = _ := Db.modifyRun_runs ..
  cases acknowledge with
  | true => exact hset
  | false => exact hset

end Review

def refusal : (op : Op) → Ans op → Prop
  | .claimJob, answer => answer = none
  | .authorizeOutboundProviderHandoff _, outcome => ∀ a, outcome ≠ .authorized a
  | .claimStatus _ _ _, won => won = false
  | .ingestEmail _, outcome => outcome = .duplicate
  | .markDeliveryDelivered _, won => won = false
  | .authorizeNewConfirmation _, won => won = false
  | .persistStages _ _, _ => False
  | .escalateToOperator _, _ => False
  | .finalizeSentClarification _ _ _, _ => False
  | .replayReservedClarification _ _ _, _ => False
  | .reserveClarification _ _, _ => False
  | .setStatus _ _, _ => False
  | .setClarifiedFields _ _, _ => False
  | _, _ => True

section

variable [PyText]

def Leaves (row : JobRow) : JobState → Prop
  | .pending => row.attempts < row.maxAttempts
  | .leased => False
  | _ => True

/-- Every way a transaction commits. -/
inductive Effect (env : Env) (db : Db) : (op : Op) → Ans op → Db → Prop
  | idle {op : Op} {a : Ans op} (h : refusal op a) : Effect env db op a db
  | leased {row : JobRow} (hrow : db.jobs.get? env.picked = some row)
      (hclaim : claimable db.now row = true) :
      Effect env db .claimJob (some (copyOf row env.picked db.nextId))
        { db with
          jobs := db.jobs.set env.picked (leaseTo row db.nextId db.now)
          nextId := db.nextId + 1 }
  | reapedInvalid {row : JobRow} (hrow : db.jobs.get? env.picked = some row)
      (hreap : reapable db.now row = true) (hkind : row.kind = .sendOutbound)
      (hinvalid : ∀ r e m run h handoff, ¬ Reaps db env.picked row r e m run h handoff) :
      Effect env db .reapExpiredFinalAttempt (some .invalidContext)
        (retireInvalidOutboundLease env.picked .dead db)
  | reapedReview {row : JobRow} {r e : Uuid} {m : Outbound} {run : Run} {h : Uuid} {handoff : Handoff}
      (hrow : db.jobs.get? env.picked = some row) (hreap : reapable db.now row = true)
      (hkind : row.kind = .sendOutbound) (howned : Reaps db env.picked row r e m run h handoff) :
      Effect env db .reapExpiredFinalAttempt (some .reapedFinalLease)
        (closeJob env.picked .dead (enterDeliveryReview r e m.purpose .finalAttemptLeaseExpired
          (releaseHandoff h .deliveryReview db)))
  | reapedRun {row : JobRow} {r : Uuid} {s : RunStatus} (hrow : db.jobs.get? env.picked = some row)
      (hreap : reapable db.now row = true) (hkind : row.kind ≠ .sendOutbound)
      (hstatus : db.statusOf r = some s) (hs : s ∈ finalLeaseErrorStatuses) :
      Effect env db .reapExpiredFinalAttempt (some .reapedFinalLease)
        (closeJob env.picked .dead (setRunError r .finalAttemptLeaseExpired
          (.finalAttemptLeaseExpired row.attempts row.maxAttempts) s db).2)
  | reapedJob {row : JobRow} (hrow : db.jobs.get? env.picked = some row)
      (hreap : reapable db.now row = true) (hkind : row.kind ≠ .sendOutbound) :
      Effect env db .reapExpiredFinalAttempt (some .reapedFinalLease) (closeJob env.picked .dead db)
  | retired {job : Job} {result : PipelineResult} {row : JobRow} (hrow : lockedJob db job = some row)
      (hinvalid : ¬ Settles db job result) :
      Effect env db (.settleOutboundDeliveryJob job result) .invalidContext
        (retireInvalidOutboundLease job.id .done db)
  | recorded {job : Job} {result : PipelineResult} {row : JobRow} {r e : Uuid} {m : Outbound}
      {run : Run} (hctx : InContext db job row r e m run) (honly : run.recordOnly = true) :
      Effect env db (.settleOutboundDeliveryJob job result) .done
        (closeJob job.id .done (settleSent r e m.purpose db))
  | expired {job : Job} {result : PipelineResult} {row : JobRow} {r e : Uuid} {m : Outbound}
      {run : Run} (hctx : InContext db job row r e m run) (hnone : activeHandoff db r = none) :
      Effect env db (.settleOutboundDeliveryJob job result) .done
        (settleDeliveryReview job result r e m.purpose db)
  | sent {job : Job} {result : PipelineResult} {row : JobRow} {r e : Uuid} {m : Outbound}
      {run : Run} {h : Uuid} {handoff : Handoff} (hctx : InContext db job row r e m run)
      (howned : currentProviderHandoff db job.id job.leaseToken r e m.epoch = some (h, handoff)) :
      Effect env db (.settleOutboundDeliveryJob job result) .done
        (closeJob job.id .done (settleSent r e m.purpose
          (appendDeliveryAttempt e .sent .none (releaseHandoff h .finalized db))))
  | rescheduled {job : Job} {result : PipelineResult} {row : JobRow} {r e : Uuid} {m : Outbound}
      {run : Run} {h : Uuid} {handoff : Handoff} {t : Nat} (hctx : InContext db job row r e m run)
      (howned : currentProviderHandoff db job.id job.leaseToken r e m.epoch = some (h, handoff))
      (hnext : nextDeliveryAttemptAt m.snapshot.reservedAt row.attempts = some t) :
      Effect env db (.settleOutboundDeliveryJob job result) .retried
        ((appendDeliveryAttempt e .retryScheduled (deliveryFailureCategory result)
          (releaseHandoff h .retryScheduled db)).modifyJob job.id
          fun row => unlease row .pending t (diagnosticCode result) db.now)
  | reviewed {job : Job} {result : PipelineResult} {row : JobRow} {r e : Uuid} {m : Outbound}
      {run : Run} {h : Uuid} {handoff : Handoff} (hctx : InContext db job row r e m run)
      (howned : currentProviderHandoff db job.id job.leaseToken r e m.epoch = some (h, handoff)) :
      Effect env db (.settleOutboundDeliveryJob job result) .done
        (settleDeliveryReview job result r e m.purpose (releaseHandoff h .deliveryReview db))
  | closed {job : Job} {result : PipelineResult} {row : JobRow} {outcome : SettlementOutcome}
      {state : JobState} {availableAt : JobRow → Nat} {lastError : JobRow → Option LastError}
      (hrow : lockedJob db job = some row) (hkind : row.kind = job.kind) (hleaves : Leaves row state) :
      Effect env db (.settlePipelineJob job result) outcome
        (db.modifyJob job.id fun row => unlease row state (availableAt row) (lastError row) db.now)
  | requeued {job : Job} {result : PipelineResult} {row : JobRow} {r : Uuid}
      (hrow : lockedJob db job = some row) (hkind : row.kind = job.kind) (hrun : job.runId = some r)
      (hresult : result.outcome = .retryable) (hstatus : db.statusOf r = some .extracting)
      (hattempts : row.attempts < row.maxAttempts) :
      Effect env db (.settlePipelineJob job result) .retried
        (retryJob job.id env.backoff result (setStatus r .received db))
  | failed {job : Job} {result : PipelineResult} {row : JobRow} {r : Uuid} {reason : ErrorReason}
      {detail : ErrorDetail} {state : JobState} {outcome : SettlementOutcome}
      (hrow : lockedJob db job = some row) (hkind : row.kind = job.kind)
      (hstatus : db.statusOf r = some .extracting) (hleaves : Leaves row state) :
      Effect env db (.settlePipelineJob job result) outcome
        (finish job.id state (diagnosticCode result) (setRunError r reason detail .extracting db).2)
  | released {tokens : List Uuid} : Effect env db (.releaseLeases tokens) () (releaseLeases tokens db)
  | handedOver {job : Job} {row : JobRow} {leasedUntil : Nat} {r e : Uuid} {m : Outbound} {run : Run}
      (hmay : MayHandOver db job row leasedUntil r e m run) (hnone : activeHandoff db r = none) :
      Effect env db (.authorizeOutboundProviderHandoff job)
        (.authorized (authorizationOf db.nextId job.id job.leaseToken e m m.snapshot.notAfter))
        (db.insertHandoff
          { runId := r
            emailId := e
            jobId := job.id
            leaseToken := job.leaseToken
            ownerLeasedUntil := leasedUntil
            epoch := m.epoch
            authorizedAt := db.now
            notAfter := m.snapshot.notAfter
            released := none })
  | handedAgain {job : Job} {row : JobRow} {leasedUntil : Nat} {r e : Uuid} {m : Outbound} {run : Run}
      {h : Uuid} {handoff : Handoff} (hmay : MayHandOver db job row leasedUntil r e m run)
      (hactive : activeHandoff db r = some (h, handoff))
      (hsame : handoff.emailId = e ∧ handoff.jobId = job.id ∧ handoff.epoch = m.epoch)
      (htoken : handoff.leaseToken = job.leaseToken) :
      Effect env db (.authorizeOutboundProviderHandoff job)
        (.authorized (authorizationOf h job.id job.leaseToken e m handoff.notAfter)) db
  | adopted {job : Job} {row : JobRow} {leasedUntil : Nat} {r e : Uuid} {m : Outbound} {run : Run}
      {h : Uuid} {handoff : Handoff} (hmay : MayHandOver db job row leasedUntil r e m run)
      (hactive : activeHandoff db r = some (h, handoff))
      (hsame : handoff.emailId = e ∧ handoff.jobId = job.id ∧ handoff.epoch = m.epoch)
      (hexpired : handoff.ownerLeasedUntil < db.now) :
      Effect env db (.authorizeOutboundProviderHandoff job)
        (.authorized (authorizationOf h job.id job.leaseToken e m handoff.notAfter))
        (db.modifyHandoff h fun row =>
          { row with leaseToken := job.leaseToken, ownerLeasedUntil := leasedUntil })
  | claimed {r : Uuid} {expected new : RunStatus} (hstatus : db.statusOf r = some expected) :
      Effect env db (.claimStatus r expected new) (true : Bool) (setStatus r new db)
  | statusSet {r : Uuid} {s : RunStatus} : Effect env db (.setStatus r s) () (setStatus r s db)
  | rewound {r : Uuid} {s : RunStatus} (hstatus : db.statusOf r = some s) (hs : s ∈ rewindStatuses) :
      Effect env db (.rewindForReclaim r) (true : Bool)
        (db.modifyRun r fun run =>
          { clearedContext run with status := .received, updatedAt := db.now })
  | consumed {messageId round : Nat} :
      Effect env db (.markReplyConsumed messageId round) () (markReplyConsumed messageId round db)
  | fieldsSet {r : Uuid} {clarified : ClarifiedFields} :
      Effect env db (.setClarifiedFields r clarified) () (setClarifiedFields r clarified db)
  | candidatesSet {r : Uuid} {candidates : AliasCandidates} :
      Effect env db (.setAliasCandidates r candidates) () (setAliasCandidates r candidates db)
  | persisted {r : Uuid} {s : StageResult} :
      Effect env db (.persistStages r s) () (persistStages r s db)
  | escalated {r : Uuid} : Effect env db (.escalateToOperator r) () (escalateToOperator r db)
  | finalized {r : Uuid} {round : Nat} {extracted : Extracted} :
      Effect env db (.finalizeSentClarification r round extracted) ()
        (pauseForReply r round extracted db)
  | replayed {r e : Uuid} {extracted : Extracted} {m : Outbound} (hm : ownMessage db r e = some m) :
      Effect env db (.replayReservedClarification r e extracted) ()
        (pauseForReply r m.round extracted (enqueueSend r e db))
  | reserved {r : Uuid} {q : Question} :
      Effect env db (.reserveClarification r q) () (reserveClarification r q db)
  | redelivered {mail : InboundMail} {r e : Uuid} {row : Inbound}
      (hrow : db.inbound.get? e = some row) :
      Effect env db (.ingestEmail mail) .duplicate (authorizedReplyJob row.mail r e db)
  | unknown {mail : InboundMail} : Effect env db (.ingestEmail mail) .unknownSender (stored mail db)
  | created {mail : InboundMail} {businessId : Uuid} :
      Effect env db (.ingestEmail mail) .newRun
        (enqueueJob .runPipeline (.runPipeline (db.nextId + 1) 0) (some (db.nextId + 1)) none none none
          ((stored mail db).insertRun (Run.created businessId db.nextId db.now)))
  | late {mail : InboundMail} {r : Uuid} :
      Effect env db (.ingestEmail mail) .lateReply (linkEmailToRun db.nextId r (stored mail db))
  | replied {mail : InboundMail} {r : Uuid} :
      Effect env db (.ingestEmail mail) .replyCandidate
        (authorizedReplyJob mail r db.nextId (linkEmailToRun db.nextId r (stored mail db)))
  | prepared {r g : Uuid} {generation : OperatorResolution} :
      Effect env db (.prepareAuthoritativeOperatorResume r g) (true : Bool)
        (setAliasCandidates r (rememberedCandidates generation) db)
  | approved {r : Uuid} (hstatus : db.statusOf r = some .awaitingApproval) :
      Effect env db (.approve r) (true : Bool) (deliver r env.envelope (setStatus r .approved db))
  | errored {r : Uuid} {s : RunStatus} {e : Exn} (hstatus : db.statusOf r = some s)
      (hs : s ∉ terminalStatuses) :
      Effect env db (.recordRunError r e) ()
        (db.modifyRun r fun run =>
          { run with
            status := .error
            errorReason := some (.exception e)
            errorDetail := some (.delivery e)
            updatedAt := db.now })
  | retriggered {r : Uuid} {run : Run} {db₁ : Db} (hrun : db₁.runs.get? r = some run)
      (hmarker : (db.runs.get? r).any isDeliveryReviewMarker = false)
      (hclaim : RetriggerClaim db r db₁) (hnone : activeHandoff db r = none) :
      Effect env db (.retrigger r) (true : Bool)
        (enqueueJob .runPipeline (.runPipeline r (run.replyEpoch + 1)) (some r) none none none
          (db₁.modifyRun r (openEpoch db₁.now)))
  | markedDelivered {r e : Uuid} {m : Outbound} {db' : Db}
      (hload : loadDeliveryReview r env.flipped db = some (.confirmation, e, m))
      (hresolve : resolveOutboundProviderHandoffForDeliveryReview r e .finalized
        (setStatus r .reconciled db) = (true, db')) :
      Effect env db (.markDeliveryDelivered r) (true : Bool) db'
  | authorizedNew {r e : Uuid} {m : Outbound} {db₁ : Db}
      (hload : loadDeliveryReview r env.flipped db = some (.confirmation, e, m))
      (hresolve : resolveOutboundProviderHandoffForDeliveryReview r e .deliveryReview
        (setStatus r .approved db) = (true, db₁))
      (hnone : activeHandoff db₁ r = none) :
      Effect env db (.authorizeNewConfirmation r) (true : Bool)
        (replaceConfirmation r m.snapshot.envelope (db₁.modifyRun r (openEpoch db₁.now)))
  | finishedReview {r e : Uuid} {m : Outbound} {target : RunStatus} {acknowledge : Bool}
      (hload : loadDeliveryReview r env.flipped db = some (.clarification, e, m)) :
      Effect env db (.finishClarificationDeliveryReview r target acknowledge) (true : Bool)
        (if acknowledge then markOutboundOperatorAcknowledged r e (setStatus r target db)
          else setStatus r target db)
  | advanced {r j : Uuid} {kind : ReviewKind} {row : JobRow} (hrow : db.jobs.get? j = some row)
      (hstate : row.state = .pending) :
      Effect env db (.retryDeliveryNow r kind) .advanced
        (db.modifyJob j fun row => { row with availableAt := db.now, updatedAt := db.now })
  | resolved {r : Uuid} {overrides : Dict Str Uuid} {remember : Dict Str Bool}
      {g : OperatorResolution} :
      Effect env db (.commitResolution r overrides remember) db.nextId
        (enqueueJob .operatorResume (.operatorResume r db.nextId) (some r) none (some db.nextId) none
          { db with nextId := db.nextId + 1, resolutions := db.resolutions.set db.nextId g })
  | passed {seconds : Nat} :
      Effect env db (.pass seconds) () { db with now := db.now + seconds }

variable {env : Env} {db db' : Db}

theorem claimJob_effect : Effect env db .claimJob (claimJob env.picked db).1
    (claimJob env.picked db).2 := by
  unfold claimJob
  split
  · exact .idle rfl
  next row hrow =>
    split
    next hclaim => exact .leased hrow hclaim
    · exact .idle rfl

theorem reapSend_effect {row : JobRow} (hrow : db.jobs.get? env.picked = some row)
    (hreap : reapable db.now row = true) (hkind : row.kind = .sendOutbound) :
    Effect env db .reapExpiredFinalAttempt (some (reapSend env.picked row db).1)
      (reapSend env.picked row db).2 := by
  unfold reapSend
  split
  next r e token hr he htoken =>
    split
    next howed =>
      refine .reapedInvalid hrow hreap hkind fun r' e' m run h handoff hreaps => ?_
      obtain rfl : r' = r := by simpa [hr] using hreaps.runId.symm
      obtain rfl : e' = e := by simpa [he] using hreaps.emailId.symm
      simp [hreaps.owed] at howed
    next m run howed =>
      split
      next hnone =>
        refine .reapedInvalid hrow hreap hkind fun r' e' m' run' h handoff hreaps => ?_
        obtain rfl : r' = r := by simpa [hr] using hreaps.runId.symm
        obtain rfl : e' = e := by simpa [he] using hreaps.emailId.symm
        obtain ⟨token', htoken', howned⟩ := hreaps.owned
        obtain rfl : token' = token := by simpa [htoken] using htoken'.symm
        obtain ⟨rfl, rfl⟩ : m' = m ∧ run' = run := by simpa [howed, eq_comm] using hreaps.owed
        simp [hnone] at howned
      next h handoff howned =>
        exact .reapedReview hrow hreap hkind ⟨hr, he, howed, token, htoken, howned⟩
  next hmissing =>
    refine .reapedInvalid hrow hreap hkind fun r e m run h handoff hreaps => ?_
    obtain ⟨token, htoken, -⟩ := hreaps.owned
    exact hmissing r e token hreaps.runId hreaps.emailId htoken

theorem reap_effect : Effect env db .reapExpiredFinalAttempt (reapExpiredFinalAttempt env.picked db).1
    (reapExpiredFinalAttempt env.picked db).2 := by
  have hrun : ∀ {row : JobRow} (r : Uuid), db.jobs.get? env.picked = some row →
      reapable db.now row = true → row.kind ≠ .sendOutbound →
      Effect env db .reapExpiredFinalAttempt (some (reapRun env.picked row r db).1)
        (reapRun env.picked row r db).2 := by
    intro row r hrow hreap hkind
    unfold reapRun
    split
    · exact .idle trivial
    next s hs =>
      split
      next hmem => exact .reapedRun hrow hreap hkind hs hmem
      · exact .reapedJob hrow hreap hkind
  unfold reapExpiredFinalAttempt
  split
  · exact .idle trivial
  next row hrow =>
    split
    next hreap =>
      unfold reapRow
      split
      next hkind => exact reapSend_effect hrow hreap hkind
      next hkind _ => exact .reapedJob hrow hreap (by simp [hkind])
      · exact .idle trivial
      next r _ hsend hingest => exact hrun r hrow hreap fun hkind => hsend hkind
      · exact .idle trivial
    · exact .idle trivial

omit [PyText] in
theorem InContext.settles_iff {job : Job} {result : PipelineResult} {row : JobRow} {r e : Uuid}
    {m : Outbound} {run : Run} (hctx : InContext db job row r e m run) :
    Settles db job result ↔ Evidence db job result r e m run := by
  constructor
  · rintro ⟨row', r', e', m', run', hctx', hevidence⟩
    obtain rfl : row' = row := by simpa [hctx.locked] using hctx'.locked.symm
    obtain ⟨rfl, rfl⟩ : r' = r ∧ e' = e := by simpa [hctx.names, eq_comm] using hctx'.names
    obtain ⟨rfl, rfl⟩ : m' = m ∧ run' = run := by simpa [hctx.owed, eq_comm] using hctx'.owed
    exact hevidence
  · exact fun hevidence => ⟨row, r, e, m, run, hctx, hevidence⟩

theorem settleInContext_effect {job : Job} {result : PipelineResult} {row : JobRow} {r e : Uuid}
    {m : Outbound} {run : Run} (hctx : InContext db job row r e m run) :
    Effect env db (.settleOutboundDeliveryJob job result)
      (settleInContext job result row r e m run db).1
      (settleInContext job result row r e m run db).2 := by
  unfold settleInContext
  split
  next hreason =>
    split
    next honly => exact .recorded hctx honly
    next honly =>
      refine .retired hctx.locked fun hsettles => honly ?_
      simpa [Evidence, hreason] using hctx.settles_iff.mp hsettles
  next hreason =>
    split
    next hexpired => exact .expired hctx hexpired.2
    next hexpired =>
      split
      next hnone =>
        refine .retired hctx.locked fun hsettles => ?_
        have hevidence := hctx.settles_iff.mp hsettles
        rw [Evidence, if_neg hreason, hnone] at hevidence
        simp [hexpired] at hevidence
      next h handoff howned =>
        unfold settleOwnedHandoff
        split
        · exact .sent hctx howned
        · split
          next t hnext =>
            split at hnext
            · exact .rescheduled hctx howned hnext
            · cases hnext
          · exact .reviewed hctx howned

theorem settleOutboundDeliveryJob_effect {job : Job} {result : PipelineResult} :
    Effect env db (.settleOutboundDeliveryJob job result)
      (settleOutboundDeliveryJob job result db).1 (settleOutboundDeliveryJob job result db).2 := by
  unfold settleOutboundDeliveryJob
  split
  · exact .idle trivial
  next row hrow =>
    split
    next hnames =>
      refine .retired hrow ?_
      rintro ⟨row', r, e, m, run, hctx, -⟩
      obtain rfl : row' = row := by simpa [hrow] using hctx.locked.symm
      simp [hctx.names] at hnames
    next r e hnames =>
      split
      next howed =>
        refine .retired hrow ?_
        rintro ⟨row', r', e', m, run, hctx, -⟩
        obtain rfl : row' = row := by simpa [hrow] using hctx.locked.symm
        obtain ⟨rfl, rfl⟩ : r' = r ∧ e' = e := by simpa [hnames, eq_comm] using hctx.names
        simp [hctx.owed] at howed
      next m run howed => exact settleInContext_effect ⟨hrow, hnames, howed⟩

theorem settleRunError_effect {job : Job} {result : PipelineResult} {row : JobRow} {r : Uuid}
    {reason : ErrorReason} {attempts : Option (Nat × Nat)} {state : JobState}
    {outcome : SettlementOutcome} (hrow : lockedJob db job = some row) (hkind : row.kind = job.kind)
    (hleaves : Leaves row state) :
    Effect env db (.settlePipelineJob job result)
      (settleRunError job result r reason attempts state outcome db).1
      (settleRunError job result r reason attempts state outcome db).2 := by
  by_cases hstatus : db.statusOf r = some .extracting
  · have hsettle : settleRunError job result r reason attempts state outcome db =
        (outcome, finish job.id state (diagnosticCode result) (setRunError r reason
          (.diagnostic result.stage result.reason attempts) .extracting db).2) := by
      simp [settleRunError, setRunError, hstatus]
    rw [hsettle]
    exact .failed hrow hkind hstatus hleaves
  · have hsettle : settleRunError job result r reason attempts state outcome db = (.fenced, db) := by
      simp [settleRunError, setRunError, hstatus]
    rw [hsettle]
    exact .idle trivial

theorem settleIngestJob_effect {job : Job} {result : PipelineResult} {row : JobRow}
    (hrow : lockedJob db job = some row) (hkind : row.kind = job.kind) :
    Effect env db (.settlePipelineJob job result) (settleIngestJob job result row env.backoff db).1
      (settleIngestJob job result row env.backoff db).2 := by
  unfold settleIngestJob
  split
  · split
    next hattempts => exact .closed hrow hkind hattempts
    · exact .closed hrow hkind trivial
  · exact .closed hrow hkind trivial
  · exact .closed hrow hkind trivial

theorem settleRunJob_effect {job : Job} {result : PipelineResult} {row : JobRow} {r : Uuid}
    (hrow : lockedJob db job = some row) (hkind : row.kind = job.kind) (hrun : job.runId = some r) :
    Effect env db (.settlePipelineJob job result) (settleRunJob job result row r env.backoff db).1
      (settleRunJob job result row r env.backoff db).2 := by
  unfold settleRunJob
  split
  · exact .closed hrow hkind trivial
  next hresult =>
    split
    next hattempts =>
      by_cases hstatus : db.statusOf r = some .extracting
      · simp only [rewindRun, claimStatus, hstatus, if_true]
        exact .requeued hrow hkind hrun hresult hstatus hattempts
      · simp only [rewindRun, claimStatus, hstatus, if_false]
        exact .idle trivial
    · exact settleRunError_effect hrow hkind trivial
  · exact settleRunError_effect hrow hkind trivial

theorem settlePipelineJob_effect {job : Job} {result : PipelineResult} :
    Effect env db (.settlePipelineJob job result) (settlePipelineJob job result env.backoff db).1
      (settlePipelineJob job result env.backoff db).2 := by
  unfold settlePipelineJob
  split
  · exact .idle trivial
  next row hrow =>
    split
    · exact .idle trivial
    next hkind =>
      have hkind := not_not.mp hkind
      split
      · split
        · exact settleIngestJob_effect hrow hkind
        · exact .idle trivial
      · split
        · exact .idle trivial
        · split
          next hrun => exact settleRunJob_effect hrow hkind hrun
          · exact .idle trivial

theorem takeHandoff_effect {job : Job} {row : JobRow} {leasedUntil : Nat} {r e : Uuid} {m : Outbound}
    {run : Run} (hmay : MayHandOver db job row leasedUntil r e m run) :
    Effect env db (.authorizeOutboundProviderHandoff job) (takeHandoff job leasedUntil r e m db).1
      (takeHandoff job leasedUntil r e m db).2 := by
  unfold takeHandoff
  split
  next hnone => exact .handedOver hmay hnone
  next h handoff hactive =>
    split
    · exact .idle fun a ha => by cases ha
    next hsame =>
      simp only [ne_eq, not_or, not_not] at hsame
      split
      next htoken => exact .handedAgain hmay hactive hsame htoken
      · split
        next hexpired => exact .adopted hmay hactive hsame hexpired
        · exact .idle fun a ha => by cases ha

theorem authorizeOutboundProviderHandoff_effect {job : Job} :
    Effect env db (.authorizeOutboundProviderHandoff job)
      (authorizeOutboundProviderHandoff job db).1 (authorizeOutboundProviderHandoff job db).2 := by
  unfold authorizeOutboundProviderHandoff
  split
  · exact .idle fun a ha => by cases ha
  next row hrow =>
    split
    next r e leasedUntil hnames hleased =>
      split
      next m run hm hrun =>
        split
        · exact .idle fun a ha => by cases ha
        next hreserved =>
          split
          · exact .idle fun a ha => by cases ha
          next honly =>
            split
            · exact .idle fun a ha => by cases ha
            next hstands =>
              simp only [ne_eq, not_or, not_not] at hstands hreserved
              split
              · exact .idle fun a ha => by cases ha
              next hopen =>
                have howed : deliveryContext db r e = some (m, run) := by
                  simp [deliveryContext, hm, hrun, hreserved, hstands]
                exact takeHandoff_effect
                  ⟨⟨hrow, hnames, howed⟩, hleased, by simpa using honly, by omega⟩
      · exact .idle fun a ha => by cases ha
    · exact .idle fun a ha => by cases ha

theorem claimStatus_effect {r : Uuid} {expected new : RunStatus} :
    Effect env db (.claimStatus r expected new) (claimStatus r expected new db).1
      (claimStatus r expected new db).2 := by
  unfold claimStatus
  split
  next hstatus => exact .claimed hstatus
  · exact .idle rfl

theorem rewindForReclaim_effect {r : Uuid} :
    Effect env db (.rewindForReclaim r) (rewindForReclaim r db).1 (rewindForReclaim r db).2 := by
  unfold rewindForReclaim
  split
  · exact .idle trivial
  next hstatus =>
    split
    next hs => exact .rewound hstatus hs
    · exact .idle trivial

theorem ingestNewRun_effect {mail : InboundMail} :
    Effect env db (.ingestEmail mail) (ingestNewRun mail db.nextId (stored mail db)).1
      (ingestNewRun mail db.nextId (stored mail db)).2 := by
  unfold ingestNewRun
  split
  · exact .unknown
  · exact .created

theorem ingestEmail_effect {mail : InboundMail} :
    Effect env db (.ingestEmail mail) (ingestEmail mail env.picked env.otherPicked db).1
      (ingestEmail mail env.picked env.otherPicked db).2 := by
  unfold ingestEmail
  split
  next e row hrow =>
    unfold ingestDuplicate
    split
    · exact .redelivered (Dict.select_some hrow).1
    · exact .idle rfl
  · split
    · exact .idle rfl
    · unfold ingestFresh
      dsimp only
      split
      · exact ingestNewRun_effect
      · split
        · exact .replied
        · split
          · exact .late
          · exact ingestNewRun_effect

theorem approve_effect {r : Uuid} :
    Effect env db (.approve r) (approve r env.envelope db).1 (approve r env.envelope db).2 := by
  unfold approve claimStatus
  by_cases hstatus : db.statusOf r = some .awaitingApproval
  · simp only [hstatus, if_true]
    exact .approved hstatus
  · simp only [hstatus, if_false]
    exact .idle trivial

theorem recordRunError_effect {r : Uuid} {e : Exn} :
    Effect env db (.recordRunError r e) () (recordRunError r e db) := by
  unfold recordRunError
  split
  · exact .idle trivial
  next hstatus =>
    split
    · exact .idle trivial
    next hs => exact .errored hstatus hs

omit [PyText] in
theorem clearReplyContext_ok {r : Uuid} {db₁ db₂ : Db} {epoch : Nat}
    (h : clearReplyContext r db₁ = .ok (epoch, db₂)) :
    ∃ run, db₁.runs.get? r = some run ∧ activeHandoff db₁ r = none ∧ epoch = run.replyEpoch + 1 ∧
      db₂ = db₁.modifyRun r (openEpoch db₁.now) := by
  unfold clearReplyContext at h
  split at h
  · cases h
  next run hrun =>
    split at h
    · cases h
    next hnone =>
      cases h
      exact ⟨run, hrun, hnone, rfl, rfl⟩

omit [PyText] in
theorem claimStaleInFlight_won {r : Uuid} {db₁ : Db} (h : claimStaleInFlight r db = (true, db₁)) :
    RetriggerClaim db r db₁ := by
  unfold claimStaleInFlight at h
  split at h
  · cases h
  next run hrun =>
    have hstatus : db.statusOf r = some run.status := by simp [Db.statusOf, hrun]
    split at h
    · split at h
      next hs =>
        cases h
        exact .inl ⟨rfl, hstatus.trans (by rw [hs])⟩
      next hs =>
        rw [claimStatus_won hstatus] at h
        cases h
        exact .inr ⟨rfl, _, hstatus, by simp [hs]⟩
      next hs =>
        rw [claimStatus_won hstatus] at h
        cases h
        exact .inr ⟨rfl, _, hstatus, by simp [hs]⟩
      next hs =>
        rw [claimStatus_won hstatus] at h
        cases h
        exact .inr ⟨rfl, _, hstatus, by simp [hs]⟩
      · cases h
    · cases h

omit [PyText] in
theorem claimRetrigger_won {r : Uuid} {db₁ : Db} (h : claimRetrigger r db = (true, db₁)) :
    RetriggerClaim db r db₁ := by
  unfold claimRetrigger at h
  by_cases herror : db.statusOf r = some .error
  · rw [claimStatus_won herror] at h
    cases h
    exact .inr ⟨rfl, _, herror, by decide⟩
  · rw [claimStatus_lost herror] at h
    by_cases happroved : db.statusOf r = some .approved
    · simp only [claimStatus_won happroved] at h
      cases h
      exact .inr ⟨rfl, _, happroved, by decide⟩
    · simp only [claimStatus_lost happroved] at h
      exact claimStaleInFlight_won h

omit [PyText] in
theorem claimStatus_false {r : Uuid} {expected new : RunStatus} {db₁ : Db}
    (h : claimStatus r expected new db = (false, db₁)) : db₁ = db := by
  unfold claimStatus at h
  split at h
  · cases h
  · cases h
    rfl

omit [PyText] in
theorem claimStatus_true {r : Uuid} {expected new : RunStatus} {db₁ : Db}
    (h : claimStatus r expected new db = (true, db₁)) : db₁ = setStatus r new db := by
  unfold claimStatus at h
  split at h
  · cases h
    rfl
  · cases h

omit [PyText] in
theorem claimRetrigger_false {r : Uuid} {db₁ : Db} (h : claimRetrigger r db = (false, db₁)) :
    db₁ = db := by
  unfold claimRetrigger at h
  split at h
  · cases h
  next herror =>
    obtain rfl := claimStatus_false herror
    split at h
    · cases h
    next happroved =>
      obtain rfl := claimStatus_false happroved
      unfold claimStaleInFlight at h
      split at h
      · cases h
        rfl
      · split at h
        · split at h
          · cases h
          · exact claimStatus_false h
          · exact claimStatus_false h
          · exact claimStatus_false h
          · cases h
            rfl
        · cases h
          rfl

theorem retrigger_effect {r : Uuid} {won : Ans (.retrigger r)} (h : retrigger r db = .ok (won, db')) :
    Effect env db (.retrigger r) won db' := by
  unfold retrigger at h
  split at h
  · cases h
    exact .idle trivial
  next hmarker =>
    split at h
    next db₁ hlost =>
      obtain rfl := claimRetrigger_false hlost
      cases h
      exact .idle trivial
    next db₁ hwon =>
      split at h
      · cases h
      next epoch db₂ hclear =>
        obtain ⟨run, hrun, hnone, rfl, rfl⟩ := clearReplyContext_ok hclear
        have hclaim := claimRetrigger_won hwon
        cases h
        refine .retriggered hrun (by simpa using hmarker) hclaim ?_
        obtain ⟨rfl, -⟩ | ⟨rfl, -⟩ := hclaim
        · exact hnone
        · exact hnone

theorem markDeliveryDelivered_effect {r : Uuid} {won : Ans (.markDeliveryDelivered r)}
    (h : markDeliveryDelivered r env.flipped db = .ok (won, db')) :
    Effect env db (.markDeliveryDelivered r) won db' := by
  unfold markDeliveryDelivered at h
  split at h
  next e m hload =>
    split at h
    next hlost =>
      obtain rfl := claimStatus_false hlost
      cases h
      exact .idle rfl
    next db₁ hwon =>
      split at h
      next db₂ hresolve =>
        cases h
        refine .markedDelivered hload ?_
        rwa [claimStatus_true hwon] at hresolve
      · cases h
  · cases h
    exact .idle rfl

theorem authorizeNewConfirmation_effect {r : Uuid} {won : Ans (.authorizeNewConfirmation r)}
    (h : authorizeNewConfirmation r env.flipped db = .ok (won, db')) :
    Effect env db (.authorizeNewConfirmation r) won db' := by
  unfold authorizeNewConfirmation at h
  split at h
  next e m hload =>
    split at h
    next hlost =>
      obtain rfl := claimStatus_false hlost
      cases h
      exact .idle rfl
    next db₁ hwon =>
      split at h
      · cases h
      next db₂ hresolve =>
        split at h
        · cases h
        next hclear =>
          obtain ⟨run, hrun, hnone, -, rfl⟩ := clearReplyContext_ok hclear
          rw [claimStatus_true hwon] at hresolve
          cases h
          exact .authorizedNew hload hresolve hnone
  · cases h
    exact .idle rfl

theorem finishClarificationDeliveryReview_effect {r : Uuid} {target : RunStatus}
    {acknowledge : Bool} :
    Effect env db (.finishClarificationDeliveryReview r target acknowledge)
      (finishClarificationDeliveryReview r env.flipped target acknowledge db).1
      (finishClarificationDeliveryReview r env.flipped target acknowledge db).2 := by
  unfold finishClarificationDeliveryReview
  split
  next e m hload =>
    split
    next hlost =>
      obtain rfl := claimStatus_false hlost
      exact .idle trivial
    next hwon =>
      rw [claimStatus_true hwon]
      exact .finishedReview hload
  · exact .idle trivial

theorem retryDeliveryNow_effect {r : Uuid} {kind : ReviewKind} :
    Effect env db (.retryDeliveryNow r kind) (retryDeliveryNow r env.flipped kind db).1
      (retryDeliveryNow r env.flipped kind db).2 := by
  generalize hretry : retryDeliveryNow r env.flipped kind db = x
  cases hretry ▸ retryDeliveryNow_retried r env.flipped kind db with
  | refused => exact .idle trivial
  | advanced hjob hstate => exact .advanced (Dict.select_some hjob).1 hstate

theorem commitResolution_effect {r : Uuid} {overrides : Dict Str Uuid} {remember : Dict Str Bool}
    {g : Uuid} (h : commitResolution r overrides remember db = .ok (g, db')) :
    Effect env db (.commitResolution r overrides remember) g db' := by
  unfold commitResolution commitOperatorResumeResolution at h
  split at h
  · cases h
  next hcommit =>
    split at hcommit
    · cases hcommit
    · split at hcommit
      · cases hcommit
        cases h
        exact .resolved
      · cases hcommit

theorem prepareAuthoritativeOperatorResume_effect {r g : Uuid} {authoritative : Bool}
    (h : prepareAuthoritativeOperatorResume r g db = .ok (authoritative, db')) :
    Effect env db (.prepareAuthoritativeOperatorResume r g) authoritative db' := by
  unfold prepareAuthoritativeOperatorResume at h
  split at h
  · split at h
    · split at h
      · split at h
        · cases h
          exact .idle trivial
        · cases h
          exact .prepared
      · cases h
        exact .idle trivial
    · cases h
  · cases h

theorem replayReservedClarification_effect {r e : Uuid} {extracted : Extracted}
    (h : replayReservedClarification r e extracted db = .ok db') :
    Effect env db (.replayReservedClarification r e extracted) () db' := by
  unfold replayReservedClarification at h
  split at h
  · cases h
  next hm =>
    cases h
    exact .replayed hm

theorem txn_effect {op : Op} {a : Ans op} (h : txn env op db = .ok (a, db')) :
    Effect env db op a db' := by
  have hok : ∀ {x : Ans op × Db}, txn env op db = .ok x → Effect env db op x.1 x.2 →
      Effect env db op a db' := by
    intro x hx heffect
    rw [hx] at h
    cases h
    exact heffect
  cases op with
  | query => exact hok rfl (.idle trivial)
  | claimJob => exact hok rfl claimJob_effect
  | reapExpiredFinalAttempt => exact hok rfl reap_effect
  | settleOutboundDeliveryJob job result => exact hok rfl settleOutboundDeliveryJob_effect
  | settlePipelineJob job result => exact hok rfl settlePipelineJob_effect
  | releaseLeases tokens => exact hok rfl .released
  | authorizeOutboundProviderHandoff job => exact hok rfl authorizeOutboundProviderHandoff_effect
  | send a => exact hok rfl (.idle trivial)
  | claimStatus r expected new => exact hok rfl claimStatus_effect
  | setStatus r status => exact hok rfl .statusSet
  | rewindForReclaim r => exact hok rfl rewindForReclaim_effect
  | markReplyConsumed messageId round => exact hok rfl .consumed
  | setClarifiedFields r clarified => exact hok rfl .fieldsSet
  | setAliasCandidates r candidates => exact hok rfl .candidatesSet
  | persistStages r s => exact hok rfl .persisted
  | escalateToOperator r => exact hok rfl .escalated
  | finalizeSentClarification r round extracted => exact hok rfl .finalized
  | replayReservedClarification r e extracted =>
      cases hreplay : replayReservedClarification r e extracted db with
      | error e =>
          simp only [txn, hreplay] at h
          cases h
      | ok db₁ =>
          simp only [txn, hreplay] at h
          cases h
          exact replayReservedClarification_effect hreplay
  | reserveClarification r q => exact hok rfl .reserved
  | loadConsumedReplies r => exact hok rfl (.idle trivial)
  | extract email => exact hok rfl (.idle trivial)
  | suggest => exact hok rfl (.idle trivial)
  | compose => exact hok rfl (.idle trivial)
  | fetchInbound eventId => exact hok rfl (.idle trivial)
  | ingestEmail mail => exact hok rfl ingestEmail_effect
  | prepareAuthoritativeOperatorResume r g => exact prepareAuthoritativeOperatorResume_effect h
  | approve r => exact hok rfl approve_effect
  | recordRunError r e => exact hok rfl recordRunError_effect
  | retrigger r => exact retrigger_effect h
  | markDeliveryDelivered r => exact markDeliveryDelivered_effect h
  | authorizeNewConfirmation r => exact authorizeNewConfirmation_effect h
  | retryDeliveryNow r kind => exact hok rfl retryDeliveryNow_effect
  | finishClarificationDeliveryReview r target acknowledge =>
      exact hok rfl finishClarificationDeliveryReview_effect
  | commitResolution r overrides remember => exact commitResolution_effect h
  | pass seconds => exact hok rfl .passed

end

end PayrollAgent.Effects
