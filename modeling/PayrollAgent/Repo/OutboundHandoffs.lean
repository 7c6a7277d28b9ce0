import PayrollAgent.Repo.Jobs
import PayrollAgent.Repo.PipelineState

namespace PayrollAgent.Repo

open Lib

structure Authorization where
  handoffId : Uuid
  runId : Uuid
  emailId : Uuid
  jobId : Uuid
  leaseToken : Uuid
  epoch : Nat
  purpose : Purpose
  snapshot : Snapshot
  notAfter : Nat
  deriving DecidableEq, Repr

inductive Refusal
  | invalidContext
  | replayWindowClosed
  | foreignActiveHandoff
  | activeHandoffUnexpired
  deriving DecidableEq, Repr

inductive ProviderHandoffOutcome
  | authorized (a : Authorization)
  | recordOnly (runId : Uuid)
  | active (reason : Refusal)
  deriving DecidableEq, Repr

/-- The run and message a send job names, when the row is the job's own. -/
def sendContext (job : Job) (row : JobRow) : Option (Uuid × Uuid) :=
  match row.runId, row.emailId with
  | some r, some e =>
      if row.kind = .sendOutbound ∧ job.kind = .sendOutbound ∧ job.runId = some r ∧
          job.emailId = some e then
        some (r, e)
      else none
  | _, _ => none

def ownMessage (db : Db) (r e : Uuid) : Option Outbound :=
  (db.outbound.get? e).filter fun m => m.runId = r

def authorizationOf (handoffId jobId leaseToken emailId : Uuid) (m : Outbound) (notAfter : Nat) :
    Authorization :=
  { handoffId := handoffId
    runId := m.runId
    emailId := emailId
    jobId := jobId
    leaseToken := leaseToken
    epoch := m.epoch
    purpose := m.purpose
    snapshot := m.snapshot
    notAfter := notAfter }

/-- The fence of a run whose message may be handed over now. -/
def takeHandoff (job : Job) (leasedUntil : Nat) (r e : Uuid) (m : Outbound) (db : Db) :
    ProviderHandoffOutcome × Db :=
  match activeHandoff db r with
  | none =>
      (.authorized (authorizationOf db.nextId job.id job.leaseToken e m m.snapshot.notAfter),
        db.insertHandoff
          { runId := r
            emailId := e
            jobId := job.id
            leaseToken := job.leaseToken
            ownerLeasedUntil := leasedUntil
            epoch := m.epoch
            authorizedAt := db.now
            notAfter := m.snapshot.notAfter
            released := none })
  | some (h, row) =>
      if row.emailId ≠ e ∨ row.jobId ≠ job.id ∨ row.epoch ≠ m.epoch then
        (.active .foreignActiveHandoff, db)
      else if row.leaseToken = job.leaseToken then
        (.authorized (authorizationOf h job.id job.leaseToken e m row.notAfter), db)
      else if row.ownerLeasedUntil < db.now then
        (.authorized (authorizationOf h job.id job.leaseToken e m row.notAfter),
          db.modifyHandoff h fun row =>
            { row with leaseToken := job.leaseToken, ownerLeasedUntil := leasedUntil })
      else (.active .activeHandoffUnexpired, db)

def authorizeOutboundProviderHandoff (job : Job) (db : Db) : ProviderHandoffOutcome × Db :=
  match lockedJob db job with
  | none => (.active .invalidContext, db)
  | some row =>
      match sendContext job row, row.leasedUntil with
      | some (r, e), some leasedUntil =>
          match ownMessage db r e, db.runs.get? r with
          | some m, some run =>
              if m.sendState ≠ .reserved then (.active .invalidContext, db)
              else if run.recordOnly then (.recordOnly r, db)
              else if run.status ≠ m.purpose.expectedStatus ∨ m.epoch ≠ run.replyEpoch then
                (.active .invalidContext, db)
              else if m.snapshot.notAfter ≤ db.now then (.active .replayWindowClosed, db)
              else takeHandoff job leasedUntil r e m db
          | _, _ => (.active .invalidContext, db)
      | _, _ => (.active .invalidContext, db)

def releaseHandoff (h : Uuid) (reason : ReleaseReason) (db : Db) : Db :=
  db.modifyHandoff h fun row => { row with released := some (db.now, reason) }

def currentProviderHandoff (db : Db) (jobId leaseToken r e : Uuid) (epoch : Nat) :
    Option (Uuid × Handoff) :=
  db.handoffs.select fun _ h =>
    h.runId = r ∧ h.emailId = e ∧ h.jobId = jobId ∧ h.epoch = epoch ∧ h.leaseToken = leaseToken ∧
      h.released = none

/-- Release the active handoff of a reviewed message. A different active
handoff fails closed. -/
def resolveOutboundProviderHandoffForDeliveryReview (r e : Uuid) (resolution : ReleaseReason)
    (db : Db) : Bool × Db :=
  match activeHandoff db r with
  | none => (true, db)
  | some (h, row) =>
      if row.emailId = e then (true, releaseHandoff h resolution db) else (false, db)

theorem resolve_true {r e : Uuid} {resolution : ReleaseReason} {db db' : Db}
    (h : resolveOutboundProviderHandoffForDeliveryReview r e resolution db = (true, db')) :
    (activeHandoff db r = none ∧ db' = db) ∨
      ∃ i row, activeHandoff db r = some (i, row) ∧ row.emailId = e ∧
        db' = releaseHandoff i resolution db := by
  unfold resolveOutboundProviderHandoffForDeliveryReview at h
  split at h
  next hnone =>
    cases h
    exact .inl ⟨hnone, rfl⟩
  next i row hactive =>
    split at h
    next hmail =>
      cases h
      exact .inr ⟨i, row, hactive, hmail, rfl⟩
    · cases h

theorem resolve_frame {r e : Uuid} {resolution : ReleaseReason} {db db' : Db}
    (h : resolveOutboundProviderHandoffForDeliveryReview r e resolution db = (true, db')) :
    ∃ handoffs, db' = { db with handoffs := handoffs } := by
  obtain ⟨-, rfl⟩ | ⟨i, row, -, -, rfl⟩ := resolve_true h
  · exact ⟨db'.handoffs, rfl⟩
  · exact ⟨_, rfl⟩

end PayrollAgent.Repo
