import PayrollAgent.FederalWithholding
import PayrollAgent.Contracts

namespace PayrollAgent.Calculate

open Money TaxTables2026 FederalWithholding

def additionalMedicareThreshold : FilingStatus → ℚ
  | .single => 200000
  | .marriedJointly => 250000
  | .marriedSeparately => 125000

def resolvedHours (hours : HoursField → Option ℚ≥0) (f : HoursField) : ℚ≥0 := (hours f).getD 0

inductive CalculationError
  | reconciliationFailed (reconstructed gross : ℚ)
  | processRunIntegrity (employeeId : Uuid) (submittedName : Str)
  deriving DecidableEq

def raiseIfReconciliationDrift (gross pretax401k ficaSs ficaMedicare federalWithholding netPay : ℚ) :
    Except CalculationError Unit :=
  let reconstructed := money (netPay + pretax401k + ficaSs + ficaMedicare + federalWithholding + 0)
  if reconstructed = gross then .ok () else .error (.reconciliationFailed reconstructed gross)

/-- Overtime is paid at one and a half only when reported. A salaried employee's
regular and overtime hours are ignored, leave is paid at `annual / 2080`. -/
def grossPay (hours : HoursField → ℚ≥0) (employee : Employee) : ℚ :=
  match employee.compensation with
  | .hourly rate =>
      let straight : ℚ := hours .regular + hours .vacation + hours .sick + hours .holiday
      money (rate * straight + rate * (3 / 2) * hours .overtime)
  | .salary annual =>
      let periodSalary := money (annual / employee.payPeriodsPerYear.count)
      let leaveHours : ℚ := hours .vacation + hours .sick + hours .holiday
      let leavePay := money (annual / 2080 * leaveHours)
      money (periodSalary + leavePay)

def ssTaxable (gross : ℚ) (employee : Employee) : ℚ :=
  let remainingCap := ssWageBase - employee.ytdSsWages
  min gross (if remainingCap < 0 then 0 else remainingCap)

def calculate (hours : HoursField → Option ℚ≥0) (employee : Employee)
    (contribution401kOverride : Option Fraction) : Except CalculationError PaystubLineItem := do
  let resolved := resolvedHours hours
  let gross := grossPay resolved employee
  let rate401k := contribution401kOverride.getD employee.retirementContributionPct
  let pretax401k := money (gross * rate401k.val)
  let ficaSs := money (ssTaxable gross employee * ssRate)
  let ficaMedicare := money (gross * medicareRate)
  let federal := federalWithholding2026 (money (gross - pretax401k)) employee
  let netPay := money (gross - pretax401k - ficaSs - ficaMedicare - federal)
  raiseIfReconciliationDrift gross pretax401k ficaSs ficaMedicare federal netPay
  return {
    runId := 0
    employeeId := employee.id
    submittedName := employee.fullName
    hours := resolved
    grossPay := gross
    pretax401k := pretax401k
    ficaSs := ficaSs
    ficaMedicare := ficaMedicare
    federalWithholding := federal
    stateWithholding := none
    netPay := netPay
    additionalMedicareNotModeled :=
      additionalMedicareThreshold employee.filingStatus < employee.ytdSsWages + gross }

theorem isCents_grossPay (hours : HoursField → ℚ≥0) (employee : Employee) :
    IsCents (grossPay hours employee) := by
  unfold grossPay
  split <;> exact isCents_money _

theorem raiseIfReconciliationDrift_ok {gross pretax ss medicare federal : ℚ} (hgross : IsCents gross)
    (hpretax : IsCents pretax) (hss : IsCents ss) (hmedicare : IsCents medicare)
    (hfederal : IsCents federal) :
    raiseIfReconciliationDrift gross pretax ss medicare federal
      (money (gross - pretax - ss - medicare - federal)) = .ok () := by
  have hnet : IsCents (gross - pretax - ss - medicare - federal) :=
    ((hgross.sub hpretax).sub hss |>.sub hmedicare).sub hfederal
  have hsum : gross - pretax - ss - medicare - federal + pretax + ss + medicare + federal + 0 =
      gross := by ring
  rw [raiseIfReconciliationDrift, money_of_isCents hnet, hsum, money_of_isCents hgross, if_pos rfl]

def rate401k (employee : Employee) (override : Option Fraction) : ℚ :=
  (override.getD employee.retirementContributionPct).val

/-- What `calculate` returns. -/
def paystub (hours : HoursField → Option ℚ≥0) (employee : Employee) (override : Option Fraction) :
    PaystubLineItem :=
  let gross := grossPay (resolvedHours hours) employee
  let pretax := money (gross * rate401k employee override)
  let federal := federalWithholding2026 (money (gross - pretax)) employee
  { runId := 0
    employeeId := employee.id
    submittedName := employee.fullName
    hours := resolvedHours hours
    grossPay := gross
    pretax401k := pretax
    ficaSs := money (ssTaxable gross employee * ssRate)
    ficaMedicare := money (gross * medicareRate)
    federalWithholding := federal
    stateWithholding := none
    netPay :=
      gross - pretax - money (ssTaxable gross employee * ssRate) - money (gross * medicareRate) - federal
    additionalMedicareNotModeled :=
      additionalMedicareThreshold employee.filingStatus < employee.ytdSsWages + gross }

theorem calculate_eq (hours : HoursField → Option ℚ≥0) (employee : Employee)
    (override : Option Fraction) :
    calculate hours employee override = .ok (paystub hours employee override) := by
  have hnet : IsCents (paystub hours employee override).netPay :=
    (((isCents_grossPay _ _).sub (isCents_money _)).sub (isCents_money _)).sub (isCents_money _) |>.sub
      (isCents_federalWithholding2026 _ _)
  simp only [calculate]
  rw [raiseIfReconciliationDrift_ok (isCents_grossPay _ _) (isCents_money _) (isCents_money _)
    (isCents_money _) (isCents_federalWithholding2026 _ _)]
  simp only [paystub, rate401k] at hnet
  simp only [bind, Except.bind, pure, Except.pure, paystub, rate401k]
  rw [money_of_isCents hnet]

theorem calculate_ok (hours : HoursField → Option ℚ≥0) (employee : Employee)
    (override : Option Fraction) :
    ∃ item, calculate hours employee override = .ok item ∧ item.employeeId = employee.id :=
  ⟨_, calculate_eq hours employee override, rfl⟩

end PayrollAgent.Calculate
