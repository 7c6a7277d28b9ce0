import PayrollAgent.Schema

namespace PayrollAgent.Repo

open Lib

def leaseSeconds : Nat := 900

/-- The configured `max_attempts`, and the fixed ladder of a send. -/
def maxAttempts : JobKind → Nat
  | .sendOutbound => 8
  | _ => 5

def enqueueJob (kind : JobKind) (dedupKey : DedupKey) (runId emailId operatorResolutionId
    eventId : Option Uuid) (db : Db) : Db :=
  match db.jobs.select fun _ row => row.dedupKey = dedupKey with
  | some _ => db
  | none =>
      db.insertJob
        { kind := kind
          dedupKey := dedupKey
          runId := runId
          emailId := emailId
          operatorResolutionId := operatorResolutionId
          eventId := eventId
          state := .pending
          attempts := 0
          maxAttempts := maxAttempts kind
          availableAt := db.now
          leaseToken := none
          leasedUntil := none
          lastError := none
          updatedAt := db.now }

section

variable (kind : JobKind) (dedupKey : DedupKey) (runId emailId operatorResolutionId eventId : Option Uuid)
  (db : Db)

/-- A new job draws an identifier and enters the table, or its key is taken. -/
theorem enqueueJob_frame : ∃ jobs nextId,
    enqueueJob kind dedupKey runId emailId operatorResolutionId eventId db =
      { db with jobs := jobs, nextId := nextId } := by
  unfold enqueueJob
  split
  · exact ⟨db.jobs, db.nextId, rfl⟩
  · exact ⟨_, _, rfl⟩

@[simp] theorem enqueueJob_runs :
    (enqueueJob kind dedupKey runId emailId operatorResolutionId eventId db).runs = db.runs := by
  obtain ⟨jobs, nextId, hframe⟩ := enqueueJob_frame kind dedupKey runId emailId operatorResolutionId
    eventId db
  rw [hframe]

@[simp] theorem enqueueJob_inbound :
    (enqueueJob kind dedupKey runId emailId operatorResolutionId eventId db).inbound = db.inbound := by
  obtain ⟨jobs, nextId, hframe⟩ := enqueueJob_frame kind dedupKey runId emailId operatorResolutionId
    eventId db
  rw [hframe]

@[simp] theorem enqueueJob_outbound :
    (enqueueJob kind dedupKey runId emailId operatorResolutionId eventId db).outbound = db.outbound := by
  obtain ⟨jobs, nextId, hframe⟩ := enqueueJob_frame kind dedupKey runId emailId operatorResolutionId
    eventId db
  rw [hframe]

@[simp] theorem enqueueJob_handoffs :
    (enqueueJob kind dedupKey runId emailId operatorResolutionId eventId db).handoffs = db.handoffs := by
  obtain ⟨jobs, nextId, hframe⟩ := enqueueJob_frame kind dedupKey runId emailId operatorResolutionId
    eventId db
  rw [hframe]

@[simp] theorem enqueueJob_attempts :
    (enqueueJob kind dedupKey runId emailId operatorResolutionId eventId db).attempts = db.attempts := by
  obtain ⟨jobs, nextId, hframe⟩ := enqueueJob_frame kind dedupKey runId emailId operatorResolutionId
    eventId db
  rw [hframe]

@[simp] theorem enqueueJob_now :
    (enqueueJob kind dedupKey runId emailId operatorResolutionId eventId db).now = db.now := by
  obtain ⟨jobs, nextId, hframe⟩ := enqueueJob_frame kind dedupKey runId emailId operatorResolutionId
    eventId db
  rw [hframe]

@[simp] theorem enqueueJob_rosters :
    (enqueueJob kind dedupKey runId emailId operatorResolutionId eventId db).rosters = db.rosters := by
  obtain ⟨jobs, nextId, hframe⟩ := enqueueJob_frame kind dedupKey runId emailId operatorResolutionId
    eventId db
  rw [hframe]

@[simp] theorem enqueueJob_senders :
    (enqueueJob kind dedupKey runId emailId operatorResolutionId eventId db).senders = db.senders := by
  obtain ⟨jobs, nextId, hframe⟩ := enqueueJob_frame kind dedupKey runId emailId operatorResolutionId
    eventId db
  rw [hframe]

@[simp] theorem enqueueJob_resolutions :
    (enqueueJob kind dedupKey runId emailId operatorResolutionId eventId db).resolutions =
    db.resolutions := by
  obtain ⟨jobs, nextId, hframe⟩ := enqueueJob_frame kind dedupKey runId emailId operatorResolutionId
    eventId db
  rw [hframe]

end

def enqueueSend (r e : Uuid) : Db → Db :=
  enqueueJob .sendOutbound (.sendOutbound e) (some r) (some e) none none

@[simp] theorem enqueueSend_runs (r e : Uuid) (db : Db) : (enqueueSend r e db).runs = db.runs :=
  enqueueJob_runs ..

@[simp] theorem enqueueSend_inbound (r e : Uuid) (db : Db) : (enqueueSend r e db).inbound = db.inbound :=
  enqueueJob_inbound ..

@[simp] theorem enqueueSend_outbound (r e : Uuid) (db : Db) :
    (enqueueSend r e db).outbound = db.outbound :=
  enqueueJob_outbound ..

@[simp] theorem enqueueSend_handoffs (r e : Uuid) (db : Db) :
    (enqueueSend r e db).handoffs = db.handoffs :=
  enqueueJob_handoffs ..

@[simp] theorem enqueueSend_attempts (r e : Uuid) (db : Db) :
    (enqueueSend r e db).attempts = db.attempts :=
  enqueueJob_attempts ..

@[simp] theorem enqueueSend_now (r e : Uuid) (db : Db) : (enqueueSend r e db).now = db.now :=
  enqueueJob_now ..

@[simp] theorem enqueueSend_rosters (r e : Uuid) (db : Db) : (enqueueSend r e db).rosters = db.rosters :=
  enqueueJob_rosters ..

@[simp] theorem enqueueSend_senders (r e : Uuid) (db : Db) : (enqueueSend r e db).senders = db.senders :=
  enqueueJob_senders ..

@[simp] theorem enqueueSend_resolutions (r e : Uuid) (db : Db) :
    (enqueueSend r e db).resolutions = db.resolutions :=
  enqueueJob_resolutions ..

def claimable (now : Nat) (row : JobRow) : Bool :=
  row.attempts < row.maxAttempts &&
    ((row.state = .pending && row.availableAt ≤ now) ||
      (row.state = .leased && row.leasedUntil.any (· < now)))

def leaseTo (row : JobRow) (token now : Nat) : JobRow :=
  { row with
    state := .leased
    leaseToken := some token
    leasedUntil := some (now + leaseSeconds)
    attempts := row.attempts + 1
    updatedAt := now }

def copyOf (row : JobRow) (id token : Uuid) : Job :=
  { id := id
    kind := row.kind
    runId := row.runId
    emailId := row.emailId
    operatorResolutionId := row.operatorResolutionId
    eventId := row.eventId
    attempts := row.attempts + 1
    maxAttempts := row.maxAttempts
    leaseToken := token }

/-- The claim of the job SKIP LOCKED picked, if it is claimable. -/
def claimJob (picked : Uuid) (db : Db) : Option Job × Db :=
  match db.jobs.get? picked with
  | none => (none, db)
  | some row =>
      if claimable db.now row then
        (some (copyOf row picked db.nextId),
          { db with
            jobs := db.jobs.set picked (leaseTo row db.nextId db.now)
            nextId := db.nextId + 1 })
      else (none, db)

/-- The row gives its lease up and moves to `state`. -/
def unlease (row : JobRow) (state : JobState) (availableAt : Nat) (lastError : Option LastError)
    (now : Nat) : JobRow :=
  { row with
    state := state
    availableAt := availableAt
    leaseToken := none
    leasedUntil := none
    lastError := lastError
    updatedAt := now }

def releaseLeases (tokens : List Uuid) (db : Db) : Db :=
  { db with
    jobs := db.jobs.updateWhere
      (fun _ row => row.state = .leased ∧ row.leaseToken.any (· ∈ tokens))
      (fun row => unlease row .pending db.now row.lastError db.now) }

def heldRow (db : Db) (j token : Uuid) : Option JobRow :=
  (db.jobs.get? j).filter fun row => row.state = .leased ∧ row.leaseToken = some token

def completeJob (j token : Uuid) (db : Db) : Bool × Db :=
  match heldRow db j token with
  | none => (false, db)
  | some _ => (true, db.modifyJob j fun row => unlease row .done row.availableAt row.lastError db.now)

/-- `lastError` is the scrubbed detail. The attempt was counted at the claim. -/
def failJob (j token : Uuid) (lastError : Option LastError) (backoff : Nat) (db : Db) :
    Option JobState × Db :=
  match heldRow db j token with
  | none => (none, db)
  | some row =>
      let state := if row.maxAttempts ≤ row.attempts then .dead else .pending
      (some state, db.modifyJob j fun row => unlease row state (db.now + backoff) lastError db.now)

def lockedJob (db : Db) (job : Job) : Option JobRow :=
  (db.jobs.get? job.id).filter fun row => row.state = .leased ∧ row.leaseToken = some job.leaseToken

end PayrollAgent.Repo
