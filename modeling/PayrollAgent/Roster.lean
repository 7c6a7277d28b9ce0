import PayrollAgent.Text

namespace PayrollAgent

/-- A `Decimal` with `ge=0, le=1`. -/
abbrev Fraction := {q : ℚ≥0 // q ≤ 1}

/-- `pay_type` with the one compensation field that type allows. -/
inductive Compensation
  | hourly (hourlyRate : ℚ≥0)
  | salary (annualSalary : ℚ≥0)
  deriving DecidableEq

inductive FilingStatus
  | single
  | marriedJointly
  | marriedSeparately
  deriving DecidableEq

inductive PayPeriods
  | monthly
  | semiMonthly
  | biweekly
  | weekly
  deriving DecidableEq

def PayPeriods.count : PayPeriods → Nat
  | .monthly => 12
  | .semiMonthly => 24
  | .biweekly => 26
  | .weekly => 52

structure Employee where
  id : Uuid
  fullName : Str
  knownAliases : List Str
  compensation : Compensation
  retirementContributionPct : Fraction
  filingStatus : FilingStatus
  step2Checkbox : Bool
  step3Dependents : ℚ≥0
  step4aOtherIncome : ℚ≥0
  step4bDeductions : ℚ≥0
  ytdSsWages : ℚ≥0
  payPeriodsPerYear : PayPeriods
  deriving DecidableEq

def hourlyWorker (id : Uuid) (fullName : Str) (knownAliases : List Str) : Employee where
  id := id
  fullName := fullName
  knownAliases := knownAliases
  compensation := .hourly 20
  retirementContributionPct := ⟨0, by decide⟩
  filingStatus := .single
  step2Checkbox := false
  step3Dependents := 0
  step4aOtherIncome := 0
  step4bDeductions := 0
  ytdSsWages := 0
  payPeriodsPerYear := .weekly

/-- A business's employee list. Two rows never share an id. -/
structure Roster where
  employees : List Employee
  uniqueIds : (employees.map Employee.id).Nodup

def Roster.ids (r : Roster) : List Uuid := r.employees.map Employee.id

/-- The sources that carry a match. `none` is the unresolved result below. -/
inductive MatchSource
  | exact
  | alias
  | operator
  deriving DecidableEq

/-- `source`, `resolved` and `matched_employee_id` of one result. Only the
combinations the model validator accepts can be built. -/
inductive Resolution
  | unresolved
  | resolved (source : MatchSource) (employeeId : Uuid)
  deriving DecidableEq

structure NameMatchResult where
  submittedName : Str
  resolution : Resolution
  reason : Str
  deriving DecidableEq

def NameMatchResult.resolved (m : NameMatchResult) : Bool :=
  match m.resolution with
  | .unresolved => false
  | .resolved _ _ => true

def NameMatchResult.matchedEmployeeId (m : NameMatchResult) : Option Uuid :=
  match m.resolution with
  | .unresolved => none
  | .resolved _ id => some id

theorem NameMatchResult.resolved_iff (m : NameMatchResult) :
    m.resolved = true ↔ ∃ id, m.matchedEmployeeId = some id := by
  cases h : m.resolution <;> simp [resolved, matchedEmployeeId, h]

inductive IssueType
  | missing
  | outOfBounds
  | nonNumeric
  | fieldRegression
  deriving DecidableEq

structure ValidationIssue where
  field : Str
  issueType : IssueType
  message : Str
  deriving DecidableEq

end PayrollAgent
