import PayrollAgent.TaxTables2026
import PayrollAgent.Money

namespace PayrollAgent.FederalWithholding

open Money TaxTables2026

/-- The first row, scanning from the top bracket down, whose lower bound the
wage reaches. -/
def findBracket (annualWage : ℚ) (brackets : List BracketRow) : BracketRow :=
  (brackets.reverse.find? (fun row => row.lower ≤ annualWage)).getD
    (brackets.headD ⟨0, none, 0, 0⟩)

def line1i (federalTaxableWages : ℚ) (employee : Employee) : ℚ :=
  let line1c := money (federalTaxableWages * employee.payPeriodsPerYear.count)
  let line1e := money (line1c + employee.step4aOtherIncome)
  let line1g := if employee.step2Checkbox then 0 else step1Standard employee.filingStatus
  let line1h := money (employee.step4bDeductions + line1g)
  max 0 (money (line1e - line1h))

def line2h (annualWage : ℚ) (employee : Employee) : ℚ :=
  let brackets :=
    if employee.step2Checkbox then step2Brackets employee.filingStatus
    else standardBrackets employee.filingStatus
  let row := findBracket annualWage brackets
  let line2e := money (annualWage - row.lower)
  let line2f := money (line2e * row.rate)
  let line2g := money (row.base + line2f)
  money (line2g / employee.payPeriodsPerYear.count)

/-- Steps 3 and 4. The extra withholding of step 4c is not modelled by the
source, so line 4b is line 3c. -/
def federalWithholding2026 (federalTaxableWages : ℚ) (employee : Employee) : ℚ :=
  let line3b := money (employee.step3Dependents / employee.payPeriodsPerYear.count)
  max 0 (money (line2h (line1i federalTaxableWages employee) employee - line3b))

theorem isCents_federalWithholding2026 (wages : ℚ) (employee : Employee) :
    IsCents (federalWithholding2026 wages employee) :=
  isCents_zero.max (isCents_money _)

theorem federalWithholding2026_nonneg (wages : ℚ) (employee : Employee) :
    0 ≤ federalWithholding2026 wages employee :=
  le_max_left _ _

end PayrollAgent.FederalWithholding
