import PayrollAgent.Delivery
import PayrollAgent.Repo.OperatorResumeResolutions

namespace PayrollAgent.RunRoutes

open Lib Repo Delivery

section

variable [PyText]

/-- One transaction: the claim of the approval and the owed delivery. -/
def approve (r : Uuid) (envelope : Envelope) (db : Db) : Bool × Db :=
  match claimStatus r .awaitingApproval .approved db with
  | (false, db) => (false, db)
  | (true, db) => (true, deliver r envelope db)

end

def staleThreshold : Nat := 900

def claimStaleInFlight (r : Uuid) (db : Db) : Bool × Db :=
  match db.runs.get? r with
  | none => (false, db)
  | some run =>
      if staleThreshold < db.now - run.updatedAt then
        match run.status with
        | .received => (true, db)
        | .extracting | .computed | .sent => claimStatus r run.status .received db
        | _ => (false, db)
      else (false, db)

/-- The winning claim of a retrigger. -/
def claimRetrigger (r : Uuid) (db : Db) : Bool × Db :=
  match claimStatus r .error .received db with
  | (true, db) => (true, db)
  | (false, db) =>
      match claimStatus r .approved .received db with
      | (true, db) => (true, db)
      | (false, db) => claimStaleInFlight r db

def retrigger (r : Uuid) (db : Db) : Except Exn (Bool × Db) :=
  if (db.runs.get? r).any isDeliveryReviewMarker then .ok (false, db)
  else
    match claimRetrigger r db with
    | (false, db) => .ok (false, db)
    | (true, db) =>
        match clearReplyContext r db with
        | .error e => .error e
        | .ok (epoch, db) =>
            .ok (true, enqueueJob .runPipeline (.runPipeline r epoch) (some r) none none none db)

inductive ReviewKind
  | confirmation
  | clarification
  deriving DecidableEq, Repr

/-- The kind of the review and its purposes. A frozenset has no order of its
own, so the order of the two clarification purposes is open. -/
def deliveryReviewPurposes (flipped : Bool) : ErrorReason → Option (ReviewKind × List Purpose)
  | .deliveryReview => some (.confirmation, [.confirmation])
  | .clarificationDeliveryReview =>
      some (.clarification,
        if flipped then [.clarificationFieldRegression, .clarification]
        else [.clarification, .clarificationFieldRegression])
  | _ => none

def reviewDetail : ErrorDetail → Option FailureCategory
  | .deliveryReview category => if category = .none then none else some category
  | _ => none

def loadDeliveryReview (r : Uuid) (flipped : Bool) (db : Db) :
    Option (ReviewKind × Uuid × Outbound) := do
  let run ← db.runs.get? r
  let (kind, purposes) ← run.errorReason.bind (deliveryReviewPurposes flipped)
  let _ ← run.errorDetail.bind reviewDetail
  let (e, m) ← purposes.findSome? fun purpose => getUnconfirmedOutbound db r purpose 0
  if run.status = .needsOperator ∧ (db.attempts.filter (·.emailId = e)).length ≤ 100 then
    some (kind, e, m)
  else none

def markDeliveryDelivered (r : Uuid) (flipped : Bool) (db : Db) : Except Exn (Bool × Db) :=
  match loadDeliveryReview r flipped db with
  | some (.confirmation, e, _) =>
      match claimStatus r .needsOperator .reconciled db with
      | (false, db) => .ok (false, db)
      | (true, db) =>
          match resolveOutboundProviderHandoffForDeliveryReview r e .finalized db with
          | (true, db) => .ok (true, db)
          | (false, _) => .error .value
  | _ => .ok (false, db)

/-- A new confirmation slot with the frozen bytes of the reviewed one, in a new
epoch. -/
def authorizeNewConfirmation (r : Uuid) (flipped : Bool) (db : Db) : Except Exn (Bool × Db) :=
  match loadDeliveryReview r flipped db with
  | some (.confirmation, e, m) =>
      match claimStatus r .needsOperator .approved db with
      | (false, db) => .ok (false, db)
      | (true, db) =>
          match resolveOutboundProviderHandoffForDeliveryReview r e .deliveryReview db with
          | (false, _) => .error .value
          | (true, db) =>
              match clearReplyContext r db with
              | .error e => .error e
              | .ok (_, db) =>
                  let (replacement, db) :=
                    reserveOutboundSnapshot r .confirmation 0 m.snapshot.envelope db
                  .ok (true, enqueueSend r replacement db)
  | _ => .ok (false, db)

def finishClarificationDeliveryReview (r : Uuid) (flipped : Bool) (target : RunStatus)
    (acknowledge : Bool) (db : Db) : Bool × Db :=
  match loadDeliveryReview r flipped db with
  | some (.clarification, e, _) =>
      match claimStatus r .needsOperator target db with
      | (false, db) => (false, db)
      | (true, db) => (true, if acknowledge then markOutboundOperatorAcknowledged r e db else db)
  | _ => (false, db)

inductive AdvanceSendJobOutcome
  | advanced
  | missing
  | notPending
  | expired
  deriving DecidableEq, Repr

def sendJobOf (db : Db) (r e : Uuid) : Option (Uuid × JobRow) :=
  db.jobs.select fun _ row =>
    row.kind = .sendOutbound ∧ row.runId = some r ∧ row.emailId = some e

def dueNow (j : Uuid) (db : Db) : Db :=
  db.modifyJob j fun row => { row with availableAt := db.now, updatedAt := db.now }

def underReview (db : Db) (r : Uuid) (reason : ErrorReason) : Bool :=
  (db.runs.get? r).any fun run => run.status = .needsOperator ∧ run.errorReason = some reason

/-- Make the pending send of a confirmation due at once. It never re-opens a
closed one. -/
def advanceExistingSendJobDueNow (r e : Uuid) (db : Db) : AdvanceSendJobOutcome × Db :=
  match sendJobOf db r e with
  | none => (.missing, db)
  | some (j, row) =>
      if row.state ≠ .pending then (.notPending, db)
      else
        match (ownMessage db r e).filter fun m => m.purpose = .confirmation ∧ m.sendState = .reserved with
        | none => (.missing, db)
        | some m =>
            if m.snapshot.notAfter ≤ db.now then (.expired, db)
            else if underReview db r .deliveryReview then (.advanced, dueNow j db)
            else (.missing, db)

/-- The same of a question, which looks at the window before the message. -/
def advanceExistingClarificationDeliveryReviewJobDueNow (r e : Uuid) (db : Db) :
    AdvanceSendJobOutcome × Db :=
  match sendJobOf db r e with
  | none => (.missing, db)
  | some (j, row) =>
      if row.state ≠ .pending then (.notPending, db)
      else
        match ownMessage db r e with
        | none => (.missing, db)
        | some m =>
            if m.snapshot.notAfter ≤ db.now then (.expired, db)
            else if m.purpose ∉ [.clarification, .clarificationFieldRegression] ∨
              m.sendState ≠ .reserved then
              (.missing, db)
            else if underReview db r .clarificationDeliveryReview then (.advanced, dueNow j db)
            else (.missing, db)

/-- The two retry-now routes, each for its own kind of review. Without one the
route answers another notice than for a missing job, and does as little. -/
def retryDeliveryNow (r : Uuid) (flipped : Bool) (kind : ReviewKind) (db : Db) :
    AdvanceSendJobOutcome × Db :=
  match loadDeliveryReview r flipped db with
  | some (k, e, _) =>
      if k = kind then
        match kind with
        | .confirmation => advanceExistingSendJobDueNow r e db
        | .clarification => advanceExistingClarificationDeliveryReviewJobDueNow r e db
      else (.missing, db)
  | none => (.missing, db)

/-- A retry changes nothing, or makes the pending send job of a message due. -/
inductive Retried (r : Uuid) (db : Db) : AdvanceSendJobOutcome × Db → Prop
  | refused {outcome : AdvanceSendJobOutcome} (h : outcome ≠ .advanced) : Retried r db (outcome, db)
  | advanced {e j : Uuid} {row : JobRow} (hjob : sendJobOf db r e = some (j, row))
      (hstate : row.state = .pending) : Retried r db (.advanced, dueNow j db)

theorem advanceExistingSendJobDueNow_retried (r e : Uuid) (db : Db) :
    Retried r db (advanceExistingSendJobDueNow r e db) := by
  unfold advanceExistingSendJobDueNow
  split
  · exact .refused (by decide)
  next j row hjob =>
    split
    · exact .refused (by decide)
    next hstate =>
      split
      · exact .refused (by decide)
      · split
        · exact .refused (by decide)
        · split
          · exact .advanced hjob (not_not.mp hstate)
          · exact .refused (by decide)

theorem advanceExistingClarificationDeliveryReviewJobDueNow_retried (r e : Uuid) (db : Db) :
    Retried r db (advanceExistingClarificationDeliveryReviewJobDueNow r e db) := by
  unfold advanceExistingClarificationDeliveryReviewJobDueNow
  split
  · exact .refused (by decide)
  next j row hjob =>
    split
    · exact .refused (by decide)
    next hstate =>
      split
      · exact .refused (by decide)
      · split
        · exact .refused (by decide)
        · split
          · exact .refused (by decide)
          · split
            · exact .advanced hjob (not_not.mp hstate)
            · exact .refused (by decide)

theorem retryDeliveryNow_retried (r : Uuid) (flipped : Bool) (kind : ReviewKind) (db : Db) :
    Retried r db (retryDeliveryNow r flipped kind db) := by
  unfold retryDeliveryNow
  split
  · split
    · cases kind with
      | confirmation => exact advanceExistingSendJobDueNow_retried ..
      | clarification => exact advanceExistingClarificationDeliveryReviewJobDueNow_retried ..
    · exact .refused (by decide)
  · exact .refused (by decide)

def commitResolution (r : Uuid) (overrides : Dict Str Uuid) (remember : Dict Str Bool) (db : Db) :
    Except Exn (Uuid × Db) :=
  match commitOperatorResumeResolution r overrides remember db with
  | .error e => .error e
  | .ok (g, db) =>
      .ok (g, enqueueJob .operatorResume (.operatorResume r g) (some r) none (some g) none db)

end PayrollAgent.RunRoutes
