import PayrollAgent.Contracts
import Mathlib.Data.List.Dedup

namespace PayrollAgent.ReconcileNames

open Lib Text

variable [PyText]

def normalizeName (name : Str) : Str := join [' '] (split (PyText.nfc (PyText.casefold name)))

def exactIds (name : Str) (roster : Roster) : List Uuid :=
  (roster.employees.filter (fun e => normalizeName e.fullName = normalizeName name)).map Employee.id

def aliasIds (name : Str) (roster : Roster) : List Uuid :=
  (roster.employees.filter
    (fun e => e.knownAliases.any (fun a => normalizeName a = normalizeName name))).map Employee.id

/-- Uniqueness is over the employees of both tiers together, so a name that is
one employee's full name and another one's alias resolves to neither. -/
def deterministicMatch (name : Str) (roster : Roster) : Option NameMatchResult :=
  match (exactIds name roster ++ aliasIds name roster).dedup with
  | [id] =>
      if id ∈ exactIds name roster then some ⟨name, .resolved .exact id, "exact match".toList⟩
      else some ⟨name, .resolved .alias id, "known alias".toList⟩
  | _ => none

def unresolved (name : Str) : NameMatchResult :=
  ⟨name, .unresolved, "no deterministic or stored-alias match".toList⟩

/-- An operator's id as text: what `uuid.UUID(str(value))` makes of it. -/
inductive IdText
  | uuid (id : Uuid)
  | malformed (text : Str)
  deriving DecidableEq

abbrev Overrides := Dict Str IdText

def overrideId (overrides : Overrides) (roster : Roster) (name : Str) : Option Uuid :=
  match overrides.get? name with
  | some (.uuid id) => if id ∈ roster.ids then some id else none
  | _ => none

def reconcileName (roster : Roster) (overrides : Overrides) (name : Str) : NameMatchResult :=
  match overrideId overrides roster name with
  | some id => ⟨name, .resolved .operator id, "operator-resolved".toList⟩
  | none => (deterministicMatch name roster).getD (unresolved name)

def reconcileNames (submittedNames : List Str) (roster : Roster) (overrides : Option Overrides) :
    List NameMatchResult :=
  submittedNames.map (reconcileName roster (overrides.getD Dict.empty))

/-- The name resolves to the employee on this roster, without an operator. -/
def Resolves (roster : Roster) (name : Str) (id : Uuid) : Prop :=
  (reconcileName roster Dict.empty name).matchedEmployeeId = some id

theorem exactIds_subset (name : Str) (roster : Roster) : exactIds name roster ⊆ roster.ids := by
  intro id h
  obtain ⟨e, he, rfl⟩ := List.mem_map.mp h
  exact List.mem_map_of_mem (List.mem_of_mem_filter he)

theorem aliasIds_subset (name : Str) (roster : Roster) : aliasIds name roster ⊆ roster.ids := by
  intro id h
  obtain ⟨e, he, rfl⟩ := List.mem_map.mp h
  exact List.mem_map_of_mem (List.mem_of_mem_filter he)

theorem deterministicMatch_eq_some {name : Str} {roster : Roster} {m : NameMatchResult}
    (h : deterministicMatch name roster = some m) :
    m.submittedName = name ∧ ∃ id ∈ roster.ids, m.matchedEmployeeId = some id := by
  unfold deterministicMatch at h
  split at h
  case h_1 id hone =>
      have hmem : id ∈ exactIds name roster ++ aliasIds name roster := by
        rw [← List.mem_dedup, hone]
        exact List.mem_singleton_self id
      have hroster : id ∈ roster.ids := by
        rcases List.mem_append.mp hmem with he | ha
        · exact exactIds_subset name roster he
        · exact aliasIds_subset name roster ha
      split at h <;> obtain rfl := Option.some.inj h <;> exact ⟨rfl, id, hroster, rfl⟩
  case h_2 => cases h

omit [PyText] in
theorem overrideId_mem {overrides : Overrides} {roster : Roster} {name : Str} {id : Uuid}
    (h : overrideId overrides roster name = some id) : id ∈ roster.ids := by
  unfold overrideId at h
  split at h
  · split at h
    · obtain rfl := Option.some.inj h
      assumption
    · cases h
  · cases h

@[simp] theorem submittedName_reconcileName (roster : Roster) (overrides : Overrides) (name : Str) :
    (reconcileName roster overrides name).submittedName = name := by
  unfold reconcileName
  split
  · rfl
  · cases hm : deterministicMatch name roster with
    | none => rfl
    | some m => exact (deterministicMatch_eq_some hm).1

theorem reconcileName_mem_roster {roster : Roster} {overrides : Overrides} {name : Str} {id : Uuid}
    (h : (reconcileName roster overrides name).matchedEmployeeId = some id) : id ∈ roster.ids := by
  unfold reconcileName at h
  split at h
  case h_1 oid ho =>
      obtain rfl := Option.some.inj h
      exact overrideId_mem ho
  case h_2 =>
      cases hm : deterministicMatch name roster with
      | none => simp [hm, unresolved, NameMatchResult.matchedEmployeeId] at h
      | some m =>
          obtain ⟨-, rid, hrid, he⟩ := deterministicMatch_eq_some hm
          rw [hm, Option.getD_some, he] at h
          exact Option.some.inj h ▸ hrid

@[simp] theorem map_submittedName_reconcileNames (names : List Str) (roster : Roster)
    (overrides : Option Overrides) :
    (reconcileNames names roster overrides).map NameMatchResult.submittedName = names := by
  simp [reconcileNames, Function.comp_def]

theorem mem_reconcileNames_iff (names : List Str) (roster : Roster) (overrides : Option Overrides)
    (m : NameMatchResult) : m ∈ reconcileNames names roster overrides ↔
      ∃ name ∈ names, reconcileName roster (overrides.getD Dict.empty) name = m :=
  List.mem_map

theorem reconcileName_mem {names : List Str} (roster : Roster) (overrides : Option Overrides)
    {name : Str} (h : name ∈ names) :
    reconcileName roster (overrides.getD Dict.empty) name ∈ reconcileNames names roster overrides :=
  List.mem_map_of_mem h

end PayrollAgent.ReconcileNames
