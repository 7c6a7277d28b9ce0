import PayrollAgent.Schema

namespace PayrollAgent.Repo

open Lib

def setStatus (r : Uuid) (status : RunStatus) (db : Db) : Db :=
  db.modifyRun r fun run => { run with status := status, updatedAt := db.now }

def claimStatus (r : Uuid) (expected new : RunStatus) (db : Db) : Bool × Db :=
  if db.statusOf r = some expected then (true, setStatus r new db) else (false, db)

theorem claimStatus_won {r : Uuid} {expected new : RunStatus} {db : Db}
    (h : db.statusOf r = some expected) : claimStatus r expected new db = (true, setStatus r new db) :=
  if_pos h

theorem claimStatus_lost {r : Uuid} {expected new : RunStatus} {db : Db}
    (h : db.statusOf r ≠ some expected) : claimStatus r expected new db = (false, db) :=
  if_neg h

def terminalStatuses : List RunStatus := [.sent, .reconciled, .rejected, .error]

def recordRunError (r : Uuid) (e : Exn) (db : Db) : Db :=
  match db.statusOf r with
  | none => db
  | some status =>
      if status ∈ terminalStatuses then db
      else db.modifyRun r fun run =>
        { run with
          status := .error
          errorReason := some (.exception e)
          errorDetail := some (.delivery e)
          updatedAt := db.now }

def createRun (businessId sourceEmailId : Uuid) (db : Db) : Uuid × Db :=
  (db.nextId, db.insertRun (Run.created businessId sourceEmailId db.now))

/-- `link_email_to_run`: the row takes the run's current epoch. -/
def linkEmailToRun (e r : Uuid) (db : Db) : Db :=
  { db with
    inbound := db.inbound.modify e fun row =>
      { row with runId := some r, epoch := (db.epochOf r).getD 0 } }

/-- `_is_delivery_review_marker`. -/
def isDeliveryReviewMarker (run : Run) : Bool :=
  run.status = .needsOperator ∧
    (run.errorReason = some .deliveryReview ∨ run.errorReason = some .clarificationDeliveryReview)

end PayrollAgent.Repo
