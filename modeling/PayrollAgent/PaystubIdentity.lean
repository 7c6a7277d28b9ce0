import PayrollAgent.Calculate
import Mathlib.Algebra.BigOperators.Group.List.Basic
import Mathlib.Data.NNRat.Floor

namespace PayrollAgent.PaystubIdentity

open Money TaxTables2026 FederalWithholding Calculate

theorem grossPay_nonneg (hours : HoursField → ℚ≥0) (employee : Employee) :
    0 ≤ grossPay hours employee := by
  unfold grossPay
  split
  · apply money_nonneg
    positivity
  · apply money_nonneg
    exact add_nonneg (money_nonneg (by positivity)) (money_nonneg (by positivity))

def remaining (ytd : ℚ) : ℚ := max 0 (ssWageBase - ytd)

theorem ssTaxable_eq (gross : ℚ) (employee : Employee) :
    ssTaxable gross employee = min gross (remaining employee.ytdSsWages) := by
  simp only [ssTaxable, remaining]
  split
  case isTrue h => rw [max_eq_left h.le]
  case isFalse h => rw [max_eq_right (not_lt.mp h)]

theorem ssTaxable_nonneg {gross : ℚ} (h : 0 ≤ gross) (employee : Employee) :
    0 ≤ ssTaxable gross employee := by
  rw [ssTaxable_eq]
  exact le_min h (le_max_left _ _)

structure TiesOut (employee : Employee) (item : PaystubLineItem) : Prop where
  identity : item.grossPay =
    item.netPay + item.pretax401k + item.ficaSs + item.ficaMedicare + item.federalWithholding
  gross : IsCents item.grossPay
  net : IsCents item.netPay
  pretax : IsCents item.pretax401k
  ss : IsCents item.ficaSs
  medicare : IsCents item.ficaMedicare
  federal : IsCents item.federalWithholding
  taxed : item.ficaSs = money (ssTaxable item.grossPay employee * ssRate)
  taxed_nonneg : 0 ≤ ssTaxable item.grossPay employee
  taxed_le : ssTaxable item.grossPay employee ≤ min item.grossPay
    (max 0 (ssWageBase - employee.ytdSsWages))

theorem tiesOut_paystub (hours : HoursField → Option ℚ≥0) (employee : Employee)
    (override : Option Fraction) : TiesOut employee (paystub hours employee override) where
  identity := by
    simp only [paystub]
    ring
  gross := isCents_grossPay _ _
  net := (((isCents_grossPay _ _).sub (isCents_money _)).sub (isCents_money _)).sub
    (isCents_money _) |>.sub (isCents_federalWithholding2026 _ _)
  pretax := isCents_money _
  ss := isCents_money _
  medicare := isCents_money _
  federal := isCents_federalWithholding2026 _ _
  taxed := rfl
  taxed_nonneg := ssTaxable_nonneg (grossPay_nonneg _ _) employee
  taxed_le := (ssTaxable_eq _ _).le

structure Period where
  hours : HoursField → Option ℚ≥0
  employee : Employee
  override : Option Fraction

def Period.after (p : Period) (ytd : ℚ≥0) : Employee := { p.employee with ytdSsWages := ytd }

def Period.paystub (p : Period) (ytd : ℚ≥0) : PaystubLineItem :=
  Calculate.paystub p.hours (p.after ytd) p.override

def Period.gross (p : Period) : ℚ := grossPay (resolvedHours p.hours) p.employee

def taxedWages : ℚ≥0 → List Period → ℚ
  | _, [] => 0
  | ytd, p :: rest =>
      ssTaxable (p.paystub ytd).grossPay (p.after ytd) +
        taxedWages (ytd + (p.paystub ytd).grossPay.toNNRat) rest

theorem Period.grossPay_paystub (p : Period) (ytd : ℚ≥0) : (p.paystub ytd).grossPay = p.gross := rfl

theorem Period.gross_nonneg (p : Period) : 0 ≤ p.gross := grossPay_nonneg _ _

theorem sum_gross_nonneg (periods : List Period) : 0 ≤ (periods.map Period.gross).sum := by
  induction periods with
  | nil => simp
  | cons p rest ih =>
      rw [List.map_cons, List.sum_cons]
      exact add_nonneg p.gross_nonneg ih

theorem taxedWages_eq (ytd : ℚ≥0) (periods : List Period) :
    taxedWages ytd periods = min (periods.map Period.gross).sum (max 0 (ssWageBase - ytd)) := by
  induction periods generalizing ytd with
  | nil =>
      have hcap : (0 : ℚ) ≤ max 0 (ssWageBase - ytd) := le_max_left _ _
      simp [taxedWages, hcap]
  | cons p rest ih =>
      have hgross := p.gross_nonneg
      have hsum := sum_gross_nonneg rest
      rw [taxedWages, ih, ssTaxable_eq, p.grossPay_paystub, List.map_cons, List.sum_cons, remaining]
      have hadvance : ((ytd + p.gross.toNNRat : ℚ≥0) : ℚ) = ytd + p.gross := by
        rw [NNRat.coe_add, Rat.coe_toNNRat _ hgross]
      rw [hadvance]
      change min p.gross (max 0 (ssWageBase - (ytd : ℚ))) + _ = _
      generalize p.gross = g at hgross ⊢
      generalize (rest.map Period.gross).sum = s at hsum ⊢
      generalize (ytd : ℚ) = y
      rcases le_total (ssWageBase - y) 0 with hfull | hroom
      · rw [max_eq_left hfull, max_eq_left (by linarith), min_eq_right hgross, min_eq_right hsum,
          min_eq_right (by linarith), add_zero]
      · rw [max_eq_right hroom]
        rcases le_total g (ssWageBase - y) with hunder | hover
        · rw [min_eq_left hunder, max_eq_right (by linarith), ← min_add_add_left]
          congr 1
          ring
        · rw [min_eq_right hover, max_eq_left (by linarith), min_eq_right hsum, min_eq_right
            (by linarith), add_zero]

/-- Every paystub ties out to the cent, and the wage base is used up once,
however the year is split. -/
theorem paystub_ties_out :
    (∀ (hours : HoursField → Option ℚ≥0) (employee : Employee) (override : Option Fraction),
      ∃ item, calculate hours employee override = .ok item ∧ TiesOut employee item) ∧
    ∀ (ytd : ℚ≥0) (periods : List Period),
      taxedWages ytd periods = min (periods.map Period.gross).sum (max 0 (ssWageBase - ytd)) :=
  ⟨fun hours employee override =>
    ⟨_, calculate_eq hours employee override, tiesOut_paystub hours employee override⟩, taxedWages_eq⟩

end PayrollAgent.PaystubIdentity
