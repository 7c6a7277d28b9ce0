import PayrollAgent.Repo.Jobs
import PayrollAgent.Repo.PipelineState

namespace PayrollAgent.Repo

open Lib AliasLearning Text

/-- A complete mapping of the run's unresolved names to employees of its own
business. -/
def validGeneration (db : Db) (run : Run) (overrides : Dict Str Uuid) : Bool :=
  match run.decision, db.rosters.get? run.businessId with
  | some decision, some roster =>
      decision.unresolvedNames ≠ [] ∧ decision.unresolvedNames.Nodup ∧
        (∀ name ∈ overrides.keys, name ∈ decision.unresolvedNames) ∧
        (∀ name ∈ decision.unresolvedNames, name ∈ overrides.keys) ∧
        ∀ id ∈ overrides.values, id ∈ roster.ids
  | _, _ => false

def normalizedMapping (overrides : Dict Str Uuid) (remember : Dict Str Bool) : Bool :=
  overrides.entries ≠ [] ∧ (∀ name ∈ overrides.keys, split name ≠ []) ∧
    (∀ name ∈ remember.keys, name ∈ overrides.keys) ∧ ∀ name ∈ overrides.keys, name ∈ remember.keys

def authoritativeResolution (db : Db) (r : Uuid) : Option (Uuid × OperatorResolution) :=
  db.resolutions.select fun _ g => g.runId = r ∧ g.authoritative

/-- The first generation of a run is authoritative, and every later one is
superseded by it. -/
def commitOperatorResumeResolution (r : Uuid) (overrides : Dict Str Uuid) (remember : Dict Str Bool)
    (db : Db) : Except Exn (Uuid × Db) :=
  match db.runs.get? r with
  | none => .error .value
  | some run =>
      if normalizedMapping overrides remember ∧ run.status = .needsOperator ∧
          validGeneration db run overrides then
        .ok (db.nextId,
          { db with
            nextId := db.nextId + 1
            resolutions := db.resolutions.set db.nextId
              { runId := r
                authoritative := authoritativeResolution db r = none
                supersededBy := (authoritativeResolution db r).map Prod.fst
                overrides := overrides
                remember := remember } })
      else .error .value

def rememberedCandidates (g : OperatorResolution) : AliasCandidates :=
  Dict.ofList (g.overrides.entries.filterMap fun p =>
    if g.remember.get? p.1 = some true then
      some (p.1, .record (some (.uuid p.2)) (some (.uuid p.2)))
    else none)

/-- Whether the generation is authoritative. Only the winner's aliases are
projected onto the run. -/
def prepareAuthoritativeOperatorResume (r g : Uuid) (db : Db) : Except Exn (Bool × Db) :=
  match db.runs.get? r, db.resolutions.get? g with
  | some run, some generation =>
      if generation.runId = r ∧ validGeneration db run generation.overrides then
        if generation.authoritative then
          if (rememberedCandidates generation).entries = [] then .ok (true, db)
          else .ok (true, setAliasCandidates r (rememberedCandidates generation) db)
        else .ok (false, db)
      else .error .value
  | _, _ => .error .value

end PayrollAgent.Repo
