import PayrollAgent.Repo.Runs
import PayrollAgent.RunStages

namespace PayrollAgent.Repo

open Lib AliasLearning RunStages

/-- `_REPLY_CONTEXT_CLEAR_COLUMNS`. -/
def clearedContext (run : Run) : Run :=
  { run with
    clarifiedFields := Dict.empty
    preClarifyExtracted := none
    clarificationRound := 0
    aliasCandidates := Dict.empty
    hoursChanges := [] }

def activeHandoff (db : Db) (r : Uuid) : Option (Uuid × Handoff) :=
  db.handoffs.select fun _ h => h.runId = r ∧ h.released = none

def openEpoch (now : Nat) (run : Run) : Run :=
  { clearedContext run with replyEpoch := run.replyEpoch + 1, updatedAt := now }

/-- It raises when a handoff is active, and otherwise opens a new epoch. -/
def clearReplyContext (r : Uuid) (db : Db) : Except Exn (Nat × Db) :=
  match db.runs.get? r with
  | none => .error .runtime
  | some run =>
      match activeHandoff db r with
      | some _ => .error .activeOutboundProviderHandoff
      | none => .ok (run.replyEpoch + 1, db.modifyRun r (openEpoch db.now))

def rewindStatuses : List RunStatus := [.extracting, .computed, .sent]

def rewindForReclaim (r : Uuid) (db : Db) : Bool × Db :=
  match db.statusOf r with
  | none => (false, db)
  | some status =>
      if status ∈ rewindStatuses then
        (true, db.modifyRun r fun run =>
          { clearedContext run with status := .received, updatedAt := db.now })
      else (false, db)

def setClarifiedFields (r : Uuid) (clarified : ClarifiedFields) (db : Db) : Db :=
  db.modifyRun r fun run => { run with clarifiedFields := clarified, updatedAt := db.now }

/-- The tokens of `candidates` win over the stored ones. -/
def setAliasCandidates (r : Uuid) (candidates : AliasCandidates) (db : Db) : Db :=
  db.modifyRun r fun run =>
    { run with
      aliasCandidates := candidates.entries.foldl (fun d p => d.set p.1 p.2) run.aliasCandidates
      updatedAt := db.now }

/-- Write-once. -/
def setPreClarifyExtracted (r : Uuid) (extracted : Extracted) (db : Db) : Db :=
  db.modifyRun r fun run =>
    { run with preClarifyExtracted := run.preClarifyExtracted <|> some extracted, updatedAt := db.now }

def setClarificationRound (r : Uuid) (value : Nat) (db : Db) : Db :=
  db.modifyRun r fun run => { run with clarificationRound := value, updatedAt := db.now }

/-- The persist transaction of `_run_stages`. Only a processed run gets line
items and moves, through COMPUTED, to AWAITING_APPROVAL. -/
def persistStages (r : Uuid) (s : StageResult) (db : Db) : Db :=
  let persisted := db.modifyRun r fun run =>
    { run with
      extractedData := some s.extracted
      decision := some s.decision
      reconciliation := s.matches'
      hoursChanges := s.hoursChanges
      updatedAt := db.now }
  match s.decision.finalAction, s.lineItems with
  | .process, some items =>
      setStatus r .awaitingApproval
        (setStatus r .computed (persisted.modifyRun r fun run => { run with lineItems := items }))
  | _, _ => persisted

section

variable (r : Uuid) (s : StageResult) (db : Db)

theorem persistStages_frame : ∃ runs, persistStages r s db = { db with runs := runs } := by
  unfold persistStages
  dsimp only
  split
  · exact ⟨_, rfl⟩
  · exact ⟨_, rfl⟩

@[simp] theorem persistStages_inbound : (persistStages r s db).inbound = db.inbound := by
  obtain ⟨runs, hframe⟩ := persistStages_frame r s db
  rw [hframe]

@[simp] theorem persistStages_outbound : (persistStages r s db).outbound = db.outbound := by
  obtain ⟨runs, hframe⟩ := persistStages_frame r s db
  rw [hframe]

@[simp] theorem persistStages_jobs : (persistStages r s db).jobs = db.jobs := by
  obtain ⟨runs, hframe⟩ := persistStages_frame r s db
  rw [hframe]

@[simp] theorem persistStages_handoffs : (persistStages r s db).handoffs = db.handoffs := by
  obtain ⟨runs, hframe⟩ := persistStages_frame r s db
  rw [hframe]

@[simp] theorem persistStages_attempts : (persistStages r s db).attempts = db.attempts := by
  obtain ⟨runs, hframe⟩ := persistStages_frame r s db
  rw [hframe]

@[simp] theorem persistStages_now : (persistStages r s db).now = db.now := by
  obtain ⟨runs, hframe⟩ := persistStages_frame r s db
  rw [hframe]

end

theorem persistStages_runs (r : Uuid) (s : StageResult) (db : Db) :
    ∃ f, (persistStages r s db).runs = db.runs.modify r f ∧ ∀ run,
      (f run).replyEpoch = run.replyEpoch ∧ (f run).recordOnly = run.recordOnly ∧
        (f run).errorReason = run.errorReason ∧ (f run).clarifiedFields = run.clarifiedFields ∧
        (s.decision.finalAction = .process ∧ (f run).status = .awaitingApproval ∨
          (f run).status = run.status ∧ (f run).lineItems = run.lineItems) := by
  unfold persistStages
  dsimp only [setStatus, Db.modifyRun]
  split
  next hprocess _ =>
    simp only [Dict.modify_modify]
    exact ⟨_, rfl, fun run => ⟨rfl, rfl, rfl, rfl, .inl ⟨hprocess, rfl⟩⟩⟩
  · dsimp only
    exact ⟨_, rfl, fun run => ⟨rfl, rfl, rfl, rfl, .inr ⟨rfl, rfl⟩⟩⟩

end PayrollAgent.Repo
