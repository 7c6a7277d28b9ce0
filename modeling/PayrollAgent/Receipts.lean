import PayrollAgent.Gateway
import PayrollAgent.Handlers

namespace PayrollAgent.Receipts

open Lib Repo Ingest Gateway Orchestrator

/-- A row of `inbound_events`. -/
structure InboundEvent where
  externalEventId : Str
  payload : Payload
  receivedAt : Nat

structure Store where
  db : Db
  events : Dict Uuid InboundEvent

def insertOrGetInboundEvent (externalEventId : Str) (payload : Payload) (s : Store) :
    (Uuid × Bool) × Store :=
  match s.events.select fun _ event => event.externalEventId = externalEventId with
  | some (ev, _) => ((ev, false), s)
  | none =>
      ((s.db.nextId, true),
        { db := { s.db with nextId := s.db.nextId + 1 }
          events := s.events.set s.db.nextId ⟨externalEventId, payload, s.db.now⟩ })

/-- The key is taken, and `enqueue_job` returns no id. -/
def taken (dedupKey : DedupKey) (db : Db) : Bool :=
  (db.jobs.select fun _ row => row.dedupKey = dedupKey).isSome

def enqueueIngest (ev : Uuid) : Db → Db := enqueueJob .ingest (.ingest ev) none none none (some ev)

/-- `_persist_verified_receipt_sync`: the receipt and its job, in one
transaction. -/
def persistVerifiedReceipt (externalEventId : Str) (payload : Payload) (s : Store) :
    Except Exn ((Uuid × Bool) × Store) :=
  match insertOrGetInboundEvent externalEventId payload s with
  | ((ev, true), s) =>
      if taken (.ingest ev) s.db then .error .runtime
      else .ok ((ev, true), { s with db := enqueueIngest ev s.db })
  | ((ev, false), s) => .ok ((ev, false), s)

inductive ReplyRoutingOutcome
  | resumed
  | duplicateNoop
  | senderMismatch
  | advancedNoop
  | lateReply
  | noHeaderMatch
  | invalidContext
  deriving DecidableEq, Repr

def ensureAuthorizedReplyJob (row : Inbound) (r e : Uuid) (db : Db) : ReplyRoutingOutcome × Db :=
  if row.runId ≠ some r then (.invalidContext, db)
  else if row.consumedRound ≠ none then (.duplicateNoop, db)
  else
    match db.runs.get? r with
    | none => (.advancedNoop, db)
    | some run =>
        if run.status ≠ .awaitingReply then (.advancedNoop, db)
        else if replySenderOk db row.mail run = false then (.senderMismatch, db)
        else (.resumed, enqueueJob .resumeReply (.resumeReply r e) (some r) (some e) none none db)

theorem ensureAuthorizedReplyJob_cases (row : Inbound) (r e : Uuid) (db : Db) :
    (ensureAuthorizedReplyJob row r e db).2 = db ∨ (ensureAuthorizedReplyJob row r e db).2 =
      enqueueJob .resumeReply (.resumeReply r e) (some r) (some e) none none db := by
  unfold ensureAuthorizedReplyJob
  by_cases hlinked : row.runId ≠ some r
  · exact .inl (by rw [if_pos hlinked])
  by_cases hconsumed : row.consumedRound ≠ none
  · exact .inl (by rw [if_neg hlinked, if_pos hconsumed])
  rw [if_neg hlinked, if_neg hconsumed]
  cases db.runs.get? r with
  | none => exact .inl rfl
  | some run =>
      dsimp only
      by_cases hstatus : run.status ≠ .awaitingReply
      · exact .inl (by rw [if_pos hstatus])
      by_cases hsender : replySenderOk db row.mail run = false
      · exact .inl (by rw [if_neg hstatus, if_pos hsender])
      · exact .inr (by rw [if_neg hstatus, if_neg hsender])

/-- The reply of the operator's simulation, which never starts a run. -/
def persistAndEnqueueReply (mail : InboundMail) (awaiting late : Uuid) (db : Db) :
    ReplyRoutingOutcome × Db :=
  match inboundByMessageId db mail.messageId with
  | some (e, row) =>
      match row.runId with
      | none => (.duplicateNoop, db)
      | some r => ensureAuthorizedReplyJob row r e db
  | none =>
      if isOutboundMessageId db mail.messageId then (.invalidContext, db)
      else
        let e := db.nextId
        let db := db.insertInbound { mail := mail, runId := none, epoch := 0, consumedRound := none }
        match findAwaitingReplyForHeader db mail awaiting with
        | some r =>
            let db := linkEmailToRun e r db
            match db.inbound.get? e with
            | none => (.invalidContext, db)
            | some row => ensureAuthorizedReplyJob row r e db
        | none =>
            match findAnyRunForHeader db mail late with
            | some r => (.lateReply, linkEmailToRun e r db)
            | none => (.noHeaderMatch, db)

def demoRun (businessId sourceEmailId now : Nat) (recordOnly : Bool) : Run :=
  { Run.created businessId sourceEmailId now with recordOnly := recordOnly }

/-- `_write_demo_run`: the email, its run and the owed job, or nothing. -/
def writeDemoRun (mail : InboundMail) (businessId : Uuid) (recordOnly : Bool) (db : Db) :
    Except Exn (Uuid × Db) :=
  if (inboundByMessageId db mail.messageId).isSome ∨
    isOutboundMessageId db mail.messageId then .error .runtime
  else
    let e := db.nextId
    let db := db.insertInbound { mail := mail, runId := none, epoch := 0, consumedRound := none }
    let r := db.nextId
    let db := db.insertRun (demoRun businessId e db.now recordOnly)
    if taken (.demoRun r) db then .error .runtime
    else .ok (r, enqueueJob .runPipeline (.demoRun r) (some r) none none none db)

def isOpen (row : JobRow) : Bool := row.state = .pending ∨ row.state = .leased

def purgeable (olderThanDays : Nat) (s : Store) (ev : Uuid) (event : InboundEvent) : Bool :=
  event.receivedAt + olderThanDays * 86400 < s.db.now &&
    (s.db.jobs.select fun _ row => row.eventId = some ev ∧ row.kind = .ingest ∧
      (row.state = .done ∨ row.state = .dead)).isSome &&
    (s.db.jobs.select fun _ row => row.eventId = some ev ∧ row.kind = .ingest ∧ isOpen row).isNone

def receivedFirst (a b : Uuid × InboundEvent) : Bool :=
  a.2.receivedAt < b.2.receivedAt ∨ (a.2.receivedAt = b.2.receivedAt ∧ a.1 ≤ b.1)

/-- The batch to delete. The rows another transaction locked are skipped. -/
def candidates (olderThanDays batchSize : Nat) (locked : List Uuid) (s : Store) : List Uuid :=
  (((s.events.entries.filter fun p => purgeable olderThanDays s p.1 p.2 && p.1 ∉ locked).insertionSort
    fun a b => receivedFirst a b).take batchSize).map Prod.fst

/-- ON DELETE SET NULL. -/
def forget (evs : List Uuid) (row : JobRow) : JobRow :=
  if row.eventId.any (· ∈ evs) then { row with eventId := none } else row

def deleteEvents (evs : List Uuid) (s : Store) : Store where
  db := { s.db with jobs := s.db.jobs.mapValues fun _ row => forget evs row }
  events := s.events.deleteWhere fun ev _ => ev ∈ evs

def purgeTerminalInboundEvents (olderThanDays batchSize : Nat) (locked : List Uuid) (s : Store) :
    Except Exn (Nat × Store) :=
  if olderThanDays < 30 ∨ batchSize < 1 ∨ 100 < batchSize then .error .value
  else
    let evs := candidates olderThanDays batchSize locked s
    .ok (evs.length, deleteEvents evs s)

inductive Call
  | core (op : Op)
  | persistVerifiedReceipt (externalEventId : Str) (payload : Payload)
  | persistAndEnqueueReply (mail : InboundMail)
  | writeDemoRun (mail : InboundMail) (businessId : Uuid) (recordOnly : Bool)
  | purgeTerminalInboundEvents (olderThanDays batchSize : Nat)

def Reply : Call → Type
  | .core op => Ans op
  | .persistVerifiedReceipt _ _ => Uuid × Bool
  | .persistAndEnqueueReply _ => ReplyRoutingOutcome
  | .writeDemoRun _ _ _ => Uuid
  | .purgeTerminalInboundEvents _ _ => Nat

/-- The choices of one step, the provider's answer, and the receipts that
another purge has locked. -/
structure Choices where
  env : Env := {}
  response : ReceivedEmail := ⟨[], none, none⟩
  locked : List Uuid := []

section

variable [PyText] [MailText]

def fetchInbound (ev : Uuid) (response : ReceivedEmail) (s : Store) : Except Exn (InboundMail × Store) :=
  match s.events.get? ev with
  | none => .error .runtime
  | some event => (parseInbound event.payload response).map fun email => (mailOf email, s)

def onDb {α : Type} (s : Store) (result : Except Exn (α × Db)) : Except Exn (α × Store) :=
  result.map fun x => (x.1, { s with db := x.2 })

def transaction (choices : Choices) : (call : Call) → Store → Except Exn (Reply call × Store)
  | .core (.fetchInbound ev), s => fetchInbound ev choices.response s
  | .core op, s => onDb s (txn choices.env op s.db)
  | .persistVerifiedReceipt externalEventId payload, s => persistVerifiedReceipt externalEventId payload s
  | .persistAndEnqueueReply mail, s =>
      onDb s (.ok (persistAndEnqueueReply mail choices.env.picked choices.env.otherPicked s.db))
  | .writeDemoRun mail businessId recordOnly, s => onDb s (writeDemoRun mail businessId recordOnly s.db)
  | .purgeTerminalInboundEvents olderThanDays batchSize, s =>
      purgeTerminalInboundEvents olderThanDays batchSize choices.locked s

def execute (choices : Choices) (call : Call) (s : Store) : Except Exn (Reply call) × Store :=
  match choices.env.fault, transaction choices call s with
  | .before e, _ => (.error e, s)
  | _, .error e => (.error e, s)
  | .none, .ok (a, s') => (.ok a, s')
  | .after e, .ok (_, s') => (.error e, s')

def createdFor : (call : Call) → Reply call → List Uuid
  | .core (.ingestEmail mail), .newRun => [mail.messageId]
  | .writeDemoRun mail _ _, _ => [mail.messageId]
  | _, _ => []

def creations (choices : Choices) (call : Call) (s : Store) : List Uuid :=
  match choices.env.fault, transaction choices call s with
  | .before _, _ => []
  | _, .error _ => []
  | _, .ok (a, _) => createdFor call a

/-- The system with its receipts, and the runs it created as the history. -/
def intake : Machine Call Reply Exn Store Choices Uuid := ⟨execute, fun _ => creations⟩

def lift {α : Type} : Act α → Prog Call Reply Exn α
  | .pure a => .pure a
  | .raise e => .raise e
  | .call op k => .call (.core op) fun x => lift (k x)

inductive Party
  | core (k : Handlers.Thread)
  | inbound (externalEventId : Str) (payload : Payload)
  | simulateReply (mail : InboundMail)
  | demo (mail : InboundMail) (businessId : Uuid) (recordOnly : Bool)
  | purge (olderThanDays batchSize : Nat)

def calling (call : Call) : Prog Call Reply Exn Unit := do
  let _ ← Prog.perform call
  pure ()

def party : Party → Prog Call Reply Exn Unit
  | .core k => lift (Handlers.thread k)
  | .inbound externalEventId payload => calling (.persistVerifiedReceipt externalEventId payload)
  | .simulateReply mail => calling (.persistAndEnqueueReply mail)
  | .demo mail businessId recordOnly => calling (.writeDemoRun mail businessId recordOnly)
  | .purge olderThanDays batchSize => calling (.purgeTerminalInboundEvents olderThanDays batchSize)

theorem execute_cases (choices : Choices) (call : Call) (s : Store) :
    (∃ e, execute choices call s = (.error e, s) ∧ creations choices call s = []) ∨
      ∃ a s', transaction choices call s = .ok (a, s') ∧ (execute choices call s).2 = s' ∧
        creations choices call s = createdFor call a := by
  unfold execute creations
  cases choices.env.fault with
  | before e => exact .inl ⟨e, rfl, rfl⟩
  | none =>
      cases transaction choices call s with
      | error e => exact .inl ⟨e, rfl, rfl⟩
      | ok x => exact .inr ⟨x.1, x.2, rfl, rfl, rfl⟩
  | after e =>
      cases transaction choices call s with
      | error e' => exact .inl ⟨e', rfl, rfl⟩
      | ok x => exact .inr ⟨x.1, x.2, rfl, rfl, rfl⟩

/-- The store after a history that starts in `s`. -/
def intakeAfter (s : Store) (es : List (Event Party Choices)) : World Call Reply Exn Store Uuid :=
  World.steps intake party ⟨s, [], []⟩ es

theorem reach_intakeAfter {init : Store → Prop} {s : Store} (h : init s)
    (es : List (Event Party Choices)) :
    World.Reach intake party World.Rules.any init (intakeAfter s es) :=
  (World.Reach.start h).steps_any es

end

end PayrollAgent.Receipts
