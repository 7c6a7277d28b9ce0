import PayrollAgent.Repo.OperatorResumeResolutions
import Mathlib.Data.List.Sort

namespace PayrollAgent.Repo.GenerationRows

open Lib AliasLearning Text

/-- A row of `operator_resume_resolutions`, beside its id. -/
structure ResolutionRow where
  runId : Uuid
  authoritative : Bool
  supersededBy : Option Uuid
  deriving DecidableEq

/-- A row of `operator_resume_overrides`, beside its primary key. -/
structure OverrideRow where
  employeeId : Uuid
  remember : Bool
  deriving DecidableEq

structure Tables where
  resolutions : Dict Uuid ResolutionRow
  overrides : Dict (Uuid × Str) OverrideRow
  writesOpen : Bool

structure Submission where
  resolutionId : Uuid
  authoritative : Bool
  winnerId : Uuid
  deriving DecidableEq

structure StoredGeneration where
  runId : Uuid
  authoritative : Bool
  winnerId : Uuid
  overrides : Dict Str Uuid
  remember : Dict Str Bool

structure JoinedRow where
  resolution : ResolutionRow
  override : Option (Str × OverrideRow)

/-- `dict.__eq__`. -/
def sameDict {α β : Type} [DecidableEq α] [DecidableEq β] (d e : Dict α β) : Bool :=
  (d.keys ++ e.keys).all fun k => d.get? k = e.get? k

def employeeIds : List (Str × Option Uuid) → Except Exn (List (Str × Uuid))
  | [] => .ok []
  | (name, some id) :: rest =>
      if split name = [] then .error .value
      else (employeeIds rest).map fun ids => (name, id) :: ids
  | (_, none) :: _ => .error .value

def normalizeOverrides (posted : Dict Str (Option Uuid)) : Except Exn (Dict Str Uuid) :=
  if posted.entries = [] then .error .value
  else (employeeIds posted.entries).map Dict.ofList

def normalizeRemember (remember : Dict Str Bool) (names : List Str) : Except Exn (Dict Str Bool) :=
  if (∀ name ∈ remember.keys, split name ≠ []) ∧ (∀ name ∈ remember.keys, name ∈ names) ∧
      ∀ name ∈ names, name ∈ remember.keys then
    .ok remember
  else .error .value

section

variable (collation : Str → Str → Bool)

def childRows (id : Uuid) (t : Tables) : List (Str × OverrideRow) :=
  ((t.overrides.entries.filter fun e => e.1.1 = id).map fun e => (e.1.2, e.2)).insertionSort
    fun a b => collation a.1 b.1

def loadGenerationRows (id : Uuid) (t : Tables) : List JoinedRow :=
  match t.resolutions.get? id with
  | none => []
  | some row =>
      if childRows collation id t = [] then [⟨row, none⟩]
      else (childRows collation id t).map fun child => ⟨row, some child⟩

def loadMappingRows (r id : Uuid) (t : Tables) : List JoinedRow :=
  (loadGenerationRows collation id t).filter fun row => row.resolution.runId = r

def gather : List JoinedRow → Dict Str OverrideRow → Except Exn (Dict Str OverrideRow)
  | [], d => .ok d
  | ⟨_, none⟩ :: _, _ => .error .value
  | ⟨_, some (name, child)⟩ :: rows, d =>
      if split name = [] ∨ name ∈ d.keys then .error .value
      else gather rows (d.set name child)

def employees (d : Dict Str OverrideRow) : Dict Str Uuid := d.mapValues fun _ child => child.employeeId

def choices (d : Dict Str OverrideRow) : Dict Str Bool := d.mapValues fun _ child => child.remember

def mappingFromRows (rows : List JoinedRow) : Except Exn (Dict Str Uuid) :=
  if rows = [] then .error .value else (gather rows .empty).map employees

def winnerOf (id : Uuid) (row : ResolutionRow) : Except Exn Uuid :=
  match row.authoritative, row.supersededBy with
  | true, none => .ok id
  | true, some _ => .error .value
  | false, none => .error .value
  | false, some winner => if winner = id then .error .value else .ok winner

def storedGeneration (rows : List JoinedRow) (id : Uuid) : Except Exn StoredGeneration :=
  match rows with
  | [] => .error .value
  | ⟨row, _⟩ :: _ => do
      let d ← gather rows .empty
      if rows.all fun other => other.resolution = row then do
        let winner ← winnerOf id row
        pure ⟨row.runId, row.authoritative, winner, employees d, choices d⟩
      else .error .value

def submission (id : Uuid) (g : StoredGeneration) : Submission := ⟨id, g.authoritative, g.winnerId⟩

end

def lockedRun (r : Uuid) (db : Db) : Except Exn (Run × Decision) :=
  match db.runs.get? r with
  | none => .error .value
  | some run =>
      match run.decision with
      | none => .error .value
      | some decision => .ok (run, decision)

def rosterIds (db : Db) (businessId : Uuid) : List Uuid :=
  ((db.rosters.get? businessId).map Roster.ids).getD []

def validateGenerationForRun (db : Db) (r : Uuid) (run : Run) (decision : Decision) (runId : Uuid)
    (overrides : Dict Str Uuid) : Except Exn Unit :=
  if decision.unresolvedNames ≠ [] ∧ decision.unresolvedNames.Nodup ∧ runId = r ∧
      (∀ name ∈ overrides.keys, name ∈ decision.unresolvedNames) ∧
      (∀ name ∈ decision.unresolvedNames, name ∈ overrides.keys) ∧
      ∀ id ∈ overrides.values, id ∈ rosterIds db run.businessId then
    .ok ()
  else .error .value

/-- INSERT of the override rows. A row under a key that is there fails the statement. -/
def insertOverrides (id : Uuid) (remember : Str → Bool) :
    List (Str × Uuid) → Dict (Uuid × Str) OverrideRow → Except Exn (Dict (Uuid × Str) OverrideRow)
  | [], d => .ok d
  | (name, employee) :: rest, d =>
      if (id, name) ∈ d.keys then .error .runtime
      else insertOverrides id remember rest (d.set (id, name) ⟨employee, remember name⟩)

/-- `sorted(normalized.items())`. -/
def byName (overrides : Dict Str Uuid) : List (Str × Uuid) :=
  overrides.entries.insertionSort fun a b => codePointLe a.1 b.1

def insertGeneration (id : Uuid) (row : ResolutionRow) (overrides : Dict Str Uuid) (remember : Str → Bool)
    (t : Tables) : Except Exn Tables :=
  if t.writesOpen then
    (insertOverrides id remember (byName overrides) t.overrides).map fun children =>
      { t with resolutions := t.resolutions.set id row, overrides := children }
  else .error .runtime

def authoritativeRow (r : Uuid) (t : Tables) : Option Uuid :=
  (t.resolutions.select fun _ row => row.runId = r ∧ row.authoritative).map Prod.fst

section

variable (collation : Str → Str → Bool)

def commitOperatorResumeResolution (r id : Uuid) (posted : Dict Str (Option Uuid))
    (remember : Dict Str Bool) (db : Db) (t : Tables) : Except Exn (Submission × Tables) := do
  let overrides ← normalizeOverrides posted
  let remember ← normalizeRemember remember overrides.keys
  let (run, decision) ← lockedRun r db
  if loadGenerationRows collation id t = [] then
    if run.status = .needsOperator then do
      validateGenerationForRun db r run decision r overrides
      let row : ResolutionRow := ⟨r, authoritativeRow r t = none, authoritativeRow r t⟩
      let t ← insertGeneration id row overrides (fun name => (remember.get? name).getD false) t
      pure (⟨id, row.authoritative, (row.supersededBy).getD id⟩, t)
    else .error .value
  else do
    let existing ← storedGeneration (loadGenerationRows collation id t) id
    if existing.runId = r ∧ sameDict existing.overrides overrides ∧
      sameDict existing.remember remember then
      pure (submission id existing, t)
    else .error .value

/-- The legacy writer: a generation with no authority and no winner. The fence
raises before the INSERT meets the row that is there. -/
def createOperatorResumeResolution (r id : Uuid) (posted : Dict Str (Option Uuid)) (db : Db)
    (t : Tables) : Except Exn Tables := do
  let overrides ← normalizeOverrides posted
  if t.writesOpen then
    match t.resolutions.get? id with
    | some _ => do
        let existing ← mappingFromRows (loadMappingRows collation r id t)
        if sameDict existing overrides then pure t else .error .value
    | none =>
        if (db.runs.get? r).isSome then
          insertGeneration id ⟨r, false, none⟩ overrides (fun _ => false) t
        else .error .runtime
  else .error .runtime

def loadOperatorResumeResolution (r id : Uuid) (t : Tables) : Except Exn (Dict Str Uuid) :=
  mappingFromRows (loadMappingRows collation r id t)

def remembered (g : StoredGeneration) : AliasCandidates :=
  Dict.ofList (g.overrides.entries.filterMap fun p =>
    if g.remember.get? p.1 = some true then
      some (p.1, .record (some (.uuid p.2)) (some (.uuid p.2)))
    else none)

def prepareAuthoritativeOperatorResume (r id : Uuid) (t : Tables) (db : Db) :
    Except Exn (Submission × Db) := do
  let (run, decision) ← lockedRun r db
  let g ← storedGeneration (loadGenerationRows collation id t) id
  validateGenerationForRun db r run decision g.runId g.overrides
  if g.authoritative ∧ (remembered g).entries ≠ [] then
    pure (submission id g, setAliasCandidates r (remembered g) db)
  else pure (submission id g, db)

end

end PayrollAgent.Repo.GenerationRows
