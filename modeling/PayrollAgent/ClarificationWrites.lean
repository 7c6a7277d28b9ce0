import PayrollAgent.Repo.Emails
import PayrollAgent.Repo.Jobs
import PayrollAgent.Repo.PipelineState

namespace PayrollAgent.ClarificationWrites

open Lib Repo AliasLearning ReconcileNames

def maxClarificationRounds : Nat := 3

section

variable [PyText]

/-- The one unresolved name that no employee carries, if there is exactly one
unresolved name. -/
def capturedToken (decision : Decision) (roster : Roster) : Option Str :=
  match decision.unresolvedNames with
  | [token] => if exactIds token roster ++ aliasIds token roster = [] then some token else none
  | _ => none

/-- The candidate to remember, with the id of the suggested full name. -/
def capturedCandidate (decision : Decision) (roster : Roster) (suggestions : Dict Str Str) :
    Option AliasCandidates :=
  (capturedToken decision roster).map fun token =>
    Dict.ofList [(token, .record
      ((suggestions.get? token).bind fun name =>
        (roster.employees.find? (·.fullName = name)).map fun e => .uuid e.id) none)]

end

def escalateToOperator (r : Uuid) : Db → Db := setStatus r .needsOperator

/-- The snapshot, the round after `round`, and the pause, in this order. -/
def pauseForReply (r : Uuid) (round : Nat) (extracted : Extracted) (db : Db) : Db :=
  setStatus r .awaitingReply
    (setClarificationRound r (round + 1) (setPreClarifyExtracted r extracted db))

theorem pauseForReply_runs (r : Uuid) (round : Nat) (extracted : Extracted) (db : Db) :
    (pauseForReply r round extracted db).runs = db.runs.modify r fun run =>
      { run with
        status := .awaitingReply
        clarificationRound := round + 1
        preClarifyExtracted := run.preClarifyExtracted <|> some extracted
        updatedAt := db.now } := by
  simp only [pauseForReply, setStatus, setClarificationRound, setPreClarifyExtracted, Db.modifyRun,
    Dict.modify_modify]

def replayReservedClarification (r e : Uuid) (extracted : Extracted) (db : Db) : Except Exn Db :=
  match (db.outbound.get? e).filter fun m => m.runId = r with
  | none => .error .runtime
  | some m => .ok (pauseForReply r m.round extracted (enqueueSend r e db))

structure Question where
  purpose : Purpose
  round : Nat
  envelope : Envelope
  candidates : Option AliasCandidates
  extracted : Extracted

/-- Reserve the question, queue its job and pause, in one transaction. -/
def reserveClarification (r : Uuid) (q : Question) (db : Db) : Db :=
  let (e, db) := reserveOutboundSnapshot r q.purpose q.round q.envelope db
  let db := enqueueSend r e db
  let db := match q.candidates with
    | some candidates => setAliasCandidates r candidates db
    | none => db
  pauseForReply r q.round q.extracted db

section

variable (r : Uuid) (q : Question) (db : Db)

theorem reserveClarification_frame : ∃ runs, reserveClarification r q db =
    { enqueueSend r (reserveOutboundSnapshot r q.purpose q.round q.envelope db).1
        (reserveOutboundSnapshot r q.purpose q.round q.envelope db).2 with runs := runs } := by
  unfold reserveClarification
  cases q.candidates with
  | none => exact ⟨_, rfl⟩
  | some candidates => exact ⟨_, rfl⟩

@[simp] theorem reserveClarification_inbound : (reserveClarification r q db).inbound = db.inbound := by
  obtain ⟨runs, hframe⟩ := reserveClarification_frame r q db
  rw [hframe]
  exact (enqueueSend_inbound ..).trans (reserveOutboundSnapshot_inbound ..)

@[simp] theorem reserveClarification_handoffs : (reserveClarification r q db).handoffs = db.handoffs := by
  obtain ⟨runs, hframe⟩ := reserveClarification_frame r q db
  rw [hframe]
  exact (enqueueSend_handoffs ..).trans (reserveOutboundSnapshot_handoffs ..)

@[simp] theorem reserveClarification_attempts : (reserveClarification r q db).attempts = db.attempts := by
  obtain ⟨runs, hframe⟩ := reserveClarification_frame r q db
  rw [hframe]
  exact (enqueueSend_attempts ..).trans (reserveOutboundSnapshot_attempts ..)

@[simp] theorem reserveClarification_now : (reserveClarification r q db).now = db.now := by
  obtain ⟨runs, hframe⟩ := reserveClarification_frame r q db
  rw [hframe]
  exact (enqueueSend_now ..).trans (reserveOutboundSnapshot_now ..)

@[simp] theorem reserveClarification_rosters : (reserveClarification r q db).rosters = db.rosters := by
  obtain ⟨runs, hframe⟩ := reserveClarification_frame r q db
  rw [hframe]
  exact (enqueueSend_rosters ..).trans (reserveOutboundSnapshot_rosters ..)

@[simp] theorem reserveClarification_senders : (reserveClarification r q db).senders = db.senders := by
  obtain ⟨runs, hframe⟩ := reserveClarification_frame r q db
  rw [hframe]
  exact (enqueueSend_senders ..).trans (reserveOutboundSnapshot_senders ..)

@[simp] theorem reserveClarification_resolutions :
    (reserveClarification r q db).resolutions = db.resolutions := by
  obtain ⟨runs, hframe⟩ := reserveClarification_frame r q db
  rw [hframe]
  exact (enqueueSend_resolutions ..).trans (reserveOutboundSnapshot_resolutions ..)

theorem reserveClarification_outbound : (reserveClarification r q db).outbound =
    (reserveOutboundSnapshot r q.purpose q.round q.envelope db).2.outbound := by
  obtain ⟨runs, hframe⟩ := reserveClarification_frame r q db
  rw [hframe]
  exact enqueueSend_outbound ..

end

theorem reserveClarification_row (r : Uuid) (q : Question) (db : Db) :
    ∃ f, (reserveClarification r q db).runs = db.runs.modify r f ∧ ∀ run, ∃ candidates now, f run =
      { run with
        status := .awaitingReply
        clarificationRound := q.round + 1
        preClarifyExtracted := run.preClarifyExtracted <|> some q.extracted
        aliasCandidates := candidates
        updatedAt := now } := by
  simp only [reserveClarification, pauseForReply_runs]
  cases q.candidates with
  | none =>
      simp only [enqueueSend_runs, reserveOutboundSnapshot_runs]
      exact ⟨_, rfl, fun run => ⟨_, _, rfl⟩⟩
  | some candidates =>
      simp only [setAliasCandidates, Db.modifyRun, enqueueSend_runs, reserveOutboundSnapshot_runs,
        Dict.modify_modify]
      exact ⟨_, rfl, fun run => ⟨_, _, rfl⟩⟩

theorem reserveClarification_runs (r : Uuid) (q : Question) (db : Db) :
    ∃ f, (reserveClarification r q db).runs = db.runs.modify r f ∧ ∀ run,
      (f run).status = .awaitingReply ∧ (f run).replyEpoch = run.replyEpoch ∧
        (f run).recordOnly = run.recordOnly ∧ (f run).clarifiedFields = run.clarifiedFields := by
  obtain ⟨f, hruns, hf⟩ := reserveClarification_row r q db
  refine ⟨f, hruns, fun run => ?_⟩
  obtain ⟨candidates, now, hrow⟩ := hf run
  rw [hrow]
  exact ⟨rfl, rfl, rfl, rfl⟩

end PayrollAgent.ClarificationWrites
