import PayrollAgent.Schema

namespace PayrollAgent.Repo

open Lib AliasLearning ReconcileNames

def withAliases (target : Uuid) (f : List Str → List Str) (employee : Employee) : Employee :=
  if employee.id = target then { employee with knownAliases := f employee.knownAliases }
  else employee

@[simp] theorem withAliases_id (target : Uuid) (f : List Str → List Str) (employee : Employee) :
    (withAliases target f employee).id = employee.id := by
  unfold withAliases
  split <;> rfl

def rosterWithAliases (target : Uuid) (f : List Str → List Str) (roster : Roster) : Roster :=
  ⟨roster.employees.map (withAliases target f), by
    simpa [List.map_map, Function.comp_def] using roster.uniqueIds⟩

section

variable [PyText]

/-- The token still resolves to the employee on the roster as it would stand
after the write. -/
def safeToLearnAlias (token : Str) (target : Uuid) (roster : Roster) : Bool :=
  (deterministicMatch token (rosterWithAliases target (· ++ [token]) roster)).any
    fun m => m.matchedEmployeeId = some target

def updateKnownAlias (target : Uuid) (token : Str) : Roster → Roster :=
  rosterWithAliases target fun aliases =>
    if token ∈ aliases then aliases else (aliases ++ [token]).dedup

def writeAlias (roster : Roster) (entry : Str × AliasCandidate) : Roster :=
  match (normalizeCandidate entry.2).bound with
  | some (.uuid target) =>
      if target ∈ roster.ids ∧ safeToLearnAlias entry.1 target roster then
        updateKnownAlias target entry.1 roster
      else roster
  | _ => roster

def writeAliasesIfSafe (r : Uuid) (db : Db) : Db :=
  match db.runs.get? r with
  | none => db
  | some run =>
      { db with
        rosters := db.rosters.modify run.businessId fun roster =>
          run.aliasCandidates.entries.foldl writeAlias roster }

section

variable (r : Uuid) (db : Db)

theorem writeAliasesIfSafe_frame :
    ∃ rosters, writeAliasesIfSafe r db = { db with rosters := rosters } := by
  unfold writeAliasesIfSafe
  split
  · exact ⟨db.rosters, rfl⟩
  · exact ⟨_, rfl⟩

@[simp] theorem writeAliasesIfSafe_runs : (writeAliasesIfSafe r db).runs = db.runs := by
  obtain ⟨rosters, hframe⟩ := writeAliasesIfSafe_frame r db
  rw [hframe]

@[simp] theorem writeAliasesIfSafe_inbound : (writeAliasesIfSafe r db).inbound = db.inbound := by
  obtain ⟨rosters, hframe⟩ := writeAliasesIfSafe_frame r db
  rw [hframe]

@[simp] theorem writeAliasesIfSafe_outbound : (writeAliasesIfSafe r db).outbound = db.outbound := by
  obtain ⟨rosters, hframe⟩ := writeAliasesIfSafe_frame r db
  rw [hframe]

@[simp] theorem writeAliasesIfSafe_jobs : (writeAliasesIfSafe r db).jobs = db.jobs := by
  obtain ⟨rosters, hframe⟩ := writeAliasesIfSafe_frame r db
  rw [hframe]

@[simp] theorem writeAliasesIfSafe_handoffs : (writeAliasesIfSafe r db).handoffs = db.handoffs := by
  obtain ⟨rosters, hframe⟩ := writeAliasesIfSafe_frame r db
  rw [hframe]

@[simp] theorem writeAliasesIfSafe_attempts : (writeAliasesIfSafe r db).attempts = db.attempts := by
  obtain ⟨rosters, hframe⟩ := writeAliasesIfSafe_frame r db
  rw [hframe]

@[simp] theorem writeAliasesIfSafe_now : (writeAliasesIfSafe r db).now = db.now := by
  obtain ⟨rosters, hframe⟩ := writeAliasesIfSafe_frame r db
  rw [hframe]

@[simp] theorem writeAliasesIfSafe_nextId : (writeAliasesIfSafe r db).nextId = db.nextId := by
  obtain ⟨rosters, hframe⟩ := writeAliasesIfSafe_frame r db
  rw [hframe]

end

end

end PayrollAgent.Repo
