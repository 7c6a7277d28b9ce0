import PayrollAgent.Repo.Runs

namespace PayrollAgent.Repo

open Lib

def findSlot (db : Db) (r : Uuid) (purpose : Purpose) (round : Nat) : Option (Uuid × Outbound) :=
  db.outbound.select fun _ m =>
    m.runId = r ∧ m.purpose = purpose ∧ m.round = round ∧ some m.epoch = db.epochOf r

/-- Read the slot, or reserve it with a frozen snapshot. A stored record is
returned unchanged. -/
def reserveOutboundSnapshot (r : Uuid) (purpose : Purpose) (round : Nat) (envelope : Envelope)
    (db : Db) : Uuid × Db :=
  match findSlot db r purpose round with
  | some (e, _) => (e, db)
  | none =>
      (db.nextId + 1,
        { db with nextId := db.nextId + 1 }.insertOutbound
          { runId := r
            purpose := purpose
            round := round
            epoch := (db.epochOf r).getD 0
            sendState := .reserved
            operatorAcknowledgedAt := none
            snapshot := { messageId := db.nextId, envelope := envelope, reservedAt := db.now } })

section

variable (r : Uuid) (purpose : Purpose) (round : Nat) (envelope : Envelope) (db : Db)

theorem reserveOutboundSnapshot_frame : ∃ outbound nextId,
    (reserveOutboundSnapshot r purpose round envelope db).2 =
    { db with outbound := outbound, nextId := nextId } := by
  unfold reserveOutboundSnapshot
  split
  · exact ⟨db.outbound, db.nextId, rfl⟩
  · exact ⟨_, _, rfl⟩

@[simp] theorem reserveOutboundSnapshot_runs :
    (reserveOutboundSnapshot r purpose round envelope db).2.runs = db.runs := by
  obtain ⟨outbound, nextId, hframe⟩ := reserveOutboundSnapshot_frame r purpose round envelope db
  rw [hframe]

@[simp] theorem reserveOutboundSnapshot_inbound :
    (reserveOutboundSnapshot r purpose round envelope db).2.inbound = db.inbound := by
  obtain ⟨outbound, nextId, hframe⟩ := reserveOutboundSnapshot_frame r purpose round envelope db
  rw [hframe]

@[simp] theorem reserveOutboundSnapshot_jobs :
    (reserveOutboundSnapshot r purpose round envelope db).2.jobs = db.jobs := by
  obtain ⟨outbound, nextId, hframe⟩ := reserveOutboundSnapshot_frame r purpose round envelope db
  rw [hframe]

@[simp] theorem reserveOutboundSnapshot_handoffs :
    (reserveOutboundSnapshot r purpose round envelope db).2.handoffs = db.handoffs := by
  obtain ⟨outbound, nextId, hframe⟩ := reserveOutboundSnapshot_frame r purpose round envelope db
  rw [hframe]

@[simp] theorem reserveOutboundSnapshot_attempts :
    (reserveOutboundSnapshot r purpose round envelope db).2.attempts = db.attempts := by
  obtain ⟨outbound, nextId, hframe⟩ := reserveOutboundSnapshot_frame r purpose round envelope db
  rw [hframe]

@[simp] theorem reserveOutboundSnapshot_now :
    (reserveOutboundSnapshot r purpose round envelope db).2.now = db.now := by
  obtain ⟨outbound, nextId, hframe⟩ := reserveOutboundSnapshot_frame r purpose round envelope db
  rw [hframe]

@[simp] theorem reserveOutboundSnapshot_rosters :
    (reserveOutboundSnapshot r purpose round envelope db).2.rosters = db.rosters := by
  obtain ⟨outbound, nextId, hframe⟩ := reserveOutboundSnapshot_frame r purpose round envelope db
  rw [hframe]

@[simp] theorem reserveOutboundSnapshot_senders :
    (reserveOutboundSnapshot r purpose round envelope db).2.senders = db.senders := by
  obtain ⟨outbound, nextId, hframe⟩ := reserveOutboundSnapshot_frame r purpose round envelope db
  rw [hframe]

@[simp] theorem reserveOutboundSnapshot_resolutions :
    (reserveOutboundSnapshot r purpose round envelope db).2.resolutions = db.resolutions := by
  obtain ⟨outbound, nextId, hframe⟩ := reserveOutboundSnapshot_frame r purpose round envelope db
  rw [hframe]

end

def getOutboundMessageId (db : Db) (r : Uuid) (purpose : Purpose) : Option (Uuid × Outbound) :=
  db.outbound.select fun _ m =>
    m.runId = r ∧ m.purpose = purpose ∧ m.sendState = .sent ∧ some m.epoch = db.epochOf r

def getOutboundForRound (db : Db) (r : Uuid) (purpose : Purpose) (round : Nat) :
    Option (Uuid × Outbound) :=
  (findSlot db r purpose round).filter fun p => p.2.sendState = .sent

def getUnconfirmedOutbound (db : Db) (r : Uuid) (purpose : Purpose) (round : Nat) :
    Option (Uuid × Outbound) :=
  (findSlot db r purpose round).filter fun p => p.2.sendState = .reserved ∨ p.2.sendState = .failed

def markSent (e : Uuid) (db : Db) : Db :=
  db.modifyOutbound e fun m => { m with sendState := .sent }

/-- Write-once. -/
def markOutboundOperatorAcknowledged (r e : Uuid) (db : Db) : Db :=
  db.modifyOutbound e fun m =>
    if m.runId = r ∧ m.operatorAcknowledgedAt = none then
      { m with operatorAcknowledgedAt := some db.now }
    else m

/-- Write-once. -/
def markReplyConsumed (messageId round : Nat) (db : Db) : Db :=
  { db with
    inbound := db.inbound.updateWhere
      (fun _ m => m.mail.messageId = messageId ∧ m.consumedRound = none)
      (fun m => { m with consumedRound := some round }) }

/-- `_HEADER_MATCH_PREDICATE`. -/
def headerMatches (mail : InboundMail) (m : Outbound) : Bool :=
  mail.inReplyTo = some m.snapshot.messageId ∨ m.snapshot.messageId ∈ mail.references

def awaitsReplyTo (db : Db) (mail : InboundMail) (r : Uuid) (run : Run) : Bool :=
  run.status = .awaitingReply &&
    (db.outbound.select fun _ m =>
      m.runId = r ∧ m.epoch = run.replyEpoch ∧ headerMatches mail m).isSome

def isNamedBy (db : Db) (mail : InboundMail) (r : Uuid) : Bool :=
  (db.outbound.select fun _ m => m.runId = r ∧ headerMatches mail m).isSome

/-- LIMIT 1 without an order: the row `picked` where it qualifies. -/
def limitOne (db : Db) (qualifies : Uuid → Run → Bool) (picked : Uuid) : Option Uuid :=
  if (db.runs.get? picked).any (qualifies picked) then some picked
  else (db.runs.select qualifies).map Prod.fst

def findAwaitingReplyForHeader (db : Db) (mail : InboundMail) (picked : Uuid) : Option Uuid :=
  limitOne db (awaitsReplyTo db mail) picked

def findAnyRunForHeader (db : Db) (mail : InboundMail) (picked : Uuid) : Option Uuid :=
  limitOne db (fun r _ => isNamedBy db mail r) picked

end PayrollAgent.Repo
