import PayrollAgent.ReconcileNames

namespace PayrollAgent.AliasLearning

open Lib ReconcileNames

/-- A value of the `alias_candidates` column. Older rows hold null or the bound
id alone. -/
inductive AliasCandidate
  | null
  | flat (bound : IdText)
  | record (suggested bound : Option IdText)
  deriving DecidableEq

abbrev AliasCandidates := Dict Str AliasCandidate

structure NormalizedCandidate where
  suggested : Option IdText
  bound : Option IdText
  deriving DecidableEq

def normalizeCandidate : AliasCandidate → NormalizedCandidate
  | .null => ⟨none, none⟩
  | .flat bound => ⟨none, some bound⟩
  | .record suggested bound => ⟨suggested, bound⟩

def fullNameOf (roster : Roster) (id : IdText) : Option Str :=
  (roster.employees.find? (fun e => .uuid e.id = id)).map Employee.fullName

section

variable [PyText]

/-- One record must both carry the token or the suggested employee's own name
and resolve to the suggested employee. -/
def bindEvidenceForToken (token : Str) (suggestedId : IdText) (suggestedFullName : Option Str)
    (postReconciliation : List NameMatchResult) : Bool :=
  postReconciliation.any fun m =>
    (normalizeName m.submittedName = normalizeName token ||
      (suggestedFullName.map normalizeName) = some (normalizeName m.submittedName)) &&
    m.matchedEmployeeId.map IdText.uuid = some suggestedId

/-- The employee a candidate names, once it is bound or confirmed by the
current round. -/
def candidateTarget (current : List NameMatchResult) (roster : Roster) (token : Str)
    (value : AliasCandidate) : Option IdText :=
  let cand := normalizeCandidate value
  match cand.bound with
  | some bound => some bound
  | none =>
      cand.suggested.filter fun suggested =>
        bindEvidenceForToken token suggested (fullNameOf roster suggested) current

/-- `ids` and `names` are already mapped. A direct prior resolution wins over
the bridge. -/
def bridge (current : List NameMatchResult) (roster : Roster) :
    List (Str × AliasCandidate) → List Uuid → List Str → List NameMatchResult
  | [], _, _ => []
  | (token, value) :: rest, ids, names =>
      match candidateTarget current roster token value with
      | some (.uuid target) =>
          if target ∈ roster.ids ∧ target ∉ ids ∧ token ∉ names then
            ⟨token, .resolved .alias target, "confirmed at clarification reply".toList⟩ ::
              bridge current roster rest (target :: ids) (token :: names)
          else bridge current roster rest ids names
      | _ => bridge current roster rest ids names

def confirmedPriorMatches (priorMatches : Option (List NameMatchResult))
    (currentMatches : List NameMatchResult) (aliasCandidates : AliasCandidates) (roster : Roster) :
    Option (List NameMatchResult) :=
  priorMatches.map fun prior =>
    let mapped := prior.filter NameMatchResult.resolved
    prior ++ bridge currentMatches roster aliasCandidates.entries
      (mapped.filterMap NameMatchResult.matchedEmployeeId) (mapped.map NameMatchResult.submittedName)

/-- The bind step at the end of a resume: every pending token with evidence in
the stored reconciliation becomes bound to its suggestion. -/
def bindCandidates (roster : Roster) (postReconciliation : List NameMatchResult)
    (candidates : AliasCandidates) : AliasCandidates :=
  candidates.mapValues fun token value =>
    match normalizeCandidate value with
    | ⟨some suggested, none⟩ =>
        if bindEvidenceForToken token suggested (fullNameOf roster suggested) postReconciliation then
          .record (some suggested) (some suggested)
        else value
    | _ => value

end

end PayrollAgent.AliasLearning
