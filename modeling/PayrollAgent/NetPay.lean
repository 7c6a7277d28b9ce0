import PayrollAgent.PaystubIdentity
import PayrollAgent.Worksheet1A

namespace PayrollAgent.NetPay

open Money TaxTables2026 FederalWithholding Calculate Worksheet1A

def leftOver (gross rate : ℚ) (employee : Employee) : ℚ :=
  gross - money (gross * rate) - money (ssTaxable gross employee * ssRate) - money (gross * medicareRate)

def credit (employee : Employee) : ℚ := money
    (employee.step3Dependents / employee.payPeriodsPerYear.count)

/-- The adjusted annual wage of a year of such pay: the gross less the 401k,
and the other income and deductions of the W-4. -/
def annualWage (gross rate : ℚ) (employee : Employee) : ℚ :=
  line1i (money (gross - money (gross * rate))) employee

/-- A year of what is left and of the credit exceeds the printed tax of the
annual wage, up to the half cents of the period. -/
structure Covered (gross rate : ℚ) (employee : Employee) : Prop where
  left : 0 ≤ leftOver gross rate employee
  tax : annualTax (annualWage gross rate employee) employee <
    employee.payPeriodsPerYear.count * (leftOver gross rate employee + credit employee) +
      (employee.payPeriodsPerYear.count - 1) / 200

theorem isCents_leftOver {gross : ℚ} (hgross : IsCents gross) (rate : ℚ) (employee : Employee) :
    IsCents (leftOver gross rate employee) :=
  ((hgross.sub (isCents_money _)).sub (isCents_money _)).sub (isCents_money _)

theorem isCents_half_period (p : PayPeriods) : IsCents ((p.count : ℚ) / 200) := by
  cases p
  · exact ⟨6, by norm_num [PayPeriods.count]⟩
  · exact ⟨12, by norm_num [PayPeriods.count]⟩
  · exact ⟨13, by norm_num [PayPeriods.count]⟩
  · exact ⟨26, by norm_num [PayPeriods.count]⟩

/-- Whole cents are below a bound in whole cents when they are a cent below it. -/
theorem lt_iff_le_sub_cent {v c : ℚ} (hv : IsCents v) (hc : IsCents c) : v < c ↔ v ≤ c - 1 / 100 := by
  constructor
  · intro h
    have hle := hv.add_cent_le hc h
    linarith
  · intro h
    linarith

/-- What a period withholds before the credit is within `c` when the exact tax
of the year stays within a year of `c` and the cents lost on the way. -/
theorem line2h_le_iff {a c : ℚ} (hcents : IsCents a) (ha : 0 ≤ a) (hc : IsCents c) (employee : Employee) :
    line2h a employee ≤ c ↔ annualTax a employee <
      employee.payPeriodsPerYear.count * c + (employee.payPeriodsPerYear.count - 1) / 200 := by
  have hp := twelve_le_count employee.payPeriodsPerYear
  have hpos : (0 : ℚ) < employee.payPeriodsPerYear.count := by linarith
  have htax := annualTax_nonneg ha employee
  have hyear := (hc.mul_natCast employee.payPeriodsPerYear.count).add
    (isCents_half_period employee.payPeriodsPerYear)
  rw [line2h_eq hcents ha, money_le_iff hc (div_nonneg (money_nonneg htax) hpos.le), div_lt_iff₀ hpos]
  have hscaled : (c + 1 / 200) * employee.payPeriodsPerYear.count =
      c * employee.payPeriodsPerYear.count + (employee.payPeriodsPerYear.count : ℚ) / 200 := by ring
  rw [hscaled, lt_iff_le_sub_cent (isCents_money _) hyear, money_le_iff (hyear.sub isCents_cent) htax]
  constructor <;> intro h <;> linarith

/-- Net pay is not negative exactly where the pay covers the tax. -/
theorem netPay_nonneg_iff (hours : HoursField → Option ℚ≥0) (employee : Employee)
    (override : Option Fraction) :
    ∃ item, calculate hours employee override = .ok item ∧
      (0 ≤ item.netPay ↔
        Covered (grossPay (resolvedHours hours) employee) (rate401k employee override) employee) := by
  refine ⟨_, calculate_eq hours employee override, ?_⟩
  have hgross := isCents_grossPay (resolvedHours hours) employee
  have hnet : (paystub hours employee override).netPay =
      leftOver (grossPay (resolvedHours hours) employee) (rate401k employee override) employee -
        max 0 (line2h (annualWage (grossPay (resolvedHours hours) employee) (rate401k employee override)
          employee) employee - credit employee) := by
    simp only [paystub, federalWithholding2026_eq]
    rfl
  generalize grossPay (resolvedHours hours) employee = gross at hgross hnet ⊢
  generalize rate401k employee override = rate at hnet ⊢
  have hleft := isCents_leftOver hgross rate employee
  have hcredit : IsCents (credit employee) := isCents_money _
  have htax := line2h_le_iff (isCents_line1i (money (gross - money (gross * rate))) employee)
    (line1i_nonneg _ _) (hleft.add hcredit) employee
  rw [hnet, sub_nonneg, max_le_iff, sub_le_iff_le_add]
  constructor
  · rintro ⟨hpos, hle⟩
    exact ⟨hpos, htax.mp hle⟩
  · intro h
    exact ⟨h.left, htax.mpr h.tax⟩

/-- No hours worked, and a hundred thousand of other income on the W-4. -/
theorem net_pay_negative :
    ¬ ∀ (hours : HoursField → Option ℚ≥0) (employee : Employee) (override : Option Fraction),
      ∃ item, calculate hours employee override = .ok item ∧ 0 ≤ item.netPay := by
  intro h
  obtain ⟨item, hitem, hnet⟩ := h (fun _ => none)
    { hourlyWorker 1 "ann lee".toList [] with step4aOtherIncome := 100000 } none
  rw [calculate_eq] at hitem
  cases hitem
  revert hnet
  decide +kernel

end PayrollAgent.NetPay
