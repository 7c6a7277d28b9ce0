import PayrollAgent.FederalWithholding
import PayrollAgent.Lib.Schedule
import Mathlib.Algebra.Order.Group.MinMax

namespace PayrollAgent.Worksheet1A

open Lib.Schedule Money TaxTables2026 FederalWithholding

def brackets (employee : Employee) : List BracketRow :=
  if employee.step2Checkbox then step2Brackets employee.filingStatus
  else standardBrackets employee.filingStatus

def row (b : BracketRow) : Row ℚ := ⟨b.lower, b.base, b.rate⟩

@[simp] theorem lower_row (b : BracketRow) : (row b).lower = b.lower := rfl

@[simp] theorem base_row (b : BracketRow) : (row b).base = b.base := rfl

@[simp] theorem rate_row (b : BracketRow) : (row b).rate = b.rate := rfl

def zeroRow : Row ℚ := ⟨0, 0, 0⟩

def laterRows (employee : Employee) : List (Row ℚ) := ((brackets employee).drop 1).map row

/-- The tax of a year on an adjusted annual wage, off the printed table. -/
def annualTax (annualWage : ℚ) (employee : Employee) : ℚ := charge zeroRow (laterRows employee) annualWage

def worksheet1A (federalTaxableWages : ℚ) (employee : Employee) : ℚ :=
  let p : ℚ := employee.payPeriodsPerYear.count
  let line1g := if employee.step2Checkbox then 0 else step1Standard employee.filingStatus
  let line1i := max 0 (federalTaxableWages * p + employee.step4aOtherIncome -
    (employee.step4bDeductions + line1g))
  max 0 (annualTax line1i employee / p - employee.step3Dependents / p)

structure Printed (r : Row ℚ) : Prop where
  lower : IsCents r.lower
  base : IsCents r.base
  base_nonneg : 0 ≤ r.base
  rate_nonneg : 0 ≤ r.rate
  rate_le : r.rate ≤ 37 / 100

theorem brackets_eq_cons (employee : Employee) :
    ∃ upper, brackets employee = ⟨0, upper, 0, 0⟩ :: (brackets employee).drop 1 := by
  unfold brackets
  cases employee.step2Checkbox <;> cases employee.filingStatus <;> exact ⟨_, rfl⟩

theorem ascending (employee : Employee) : Ascending (zeroRow :: laterRows employee) := by
  unfold laterRows brackets
  cases employee.step2Checkbox <;> cases employee.filingStatus <;>
    simp only [Ascending] <;> decide +kernel

theorem isCents_of_den {q : ℚ} (h : (q * 100).den = 1) : IsCents q := by
  refine ⟨(q * 100).num, ?_⟩
  have hq := Rat.den_eq_one_iff _ |>.mp h
  rw [hq]
  ring

theorem printed {employee : Employee} {r : Row ℚ} (h : r ∈ zeroRow :: laterRows employee) :
    Printed r := by
  have hall : ∀ r ∈ zeroRow :: laterRows employee, (r.lower * 100).den = 1 ∧ (r.base * 100).den = 1 ∧
      0 ≤ r.base ∧ 0 ≤ r.rate ∧ r.rate ≤ 37 / 100 := by
    unfold laterRows brackets
    cases employee.step2Checkbox <;> cases employee.filingStatus <;> decide +kernel
  obtain ⟨hlower, hbase, hpos, hrate, hle⟩ := hall r h
  exact ⟨isCents_of_den hlower, isCents_of_den hbase, hpos, hrate, hle⟩

theorem row_findBracket {first : BracketRow} {later : List BracketRow} {a : ℚ}
    (hrows : Ascending ((first :: later).map row)) (ha : first.lower ≤ a) :
    row (findBracket a (first :: later)) = rowAt (row first) (later.map row) a := by
  have hfind : ∀ b rest, (b :: rest).reverse.find? (fun r : BracketRow => r.lower ≤ a) =
      (rest.reverse.find? (fun r => r.lower ≤ a)).or (if b.lower ≤ a then some b else none) := by
    intro b rest
    rw [List.reverse_cons, List.find?_append]
    by_cases hb : b.lower ≤ a <;> simp [hb]
  induction later generalizing first with
  | nil => simp [findBracket, rowAt, ha]
  | cons s rest ih =>
      rw [List.map_cons, rowAt]
      have htail := (List.pairwise_cons.mp hrows).2
      by_cases hs : (row s).lower ≤ a
      · rw [if_pos hs, ← ih htail hs, findBracket, findBracket, hfind first]
        have hsome : ((s :: rest).reverse.find? (fun r : BracketRow => r.lower ≤ a)).isSome = true := by
          rw [List.find?_isSome]
          exact ⟨s, by simp, by simpa using hs⟩
        obtain ⟨t, ht⟩ := Option.isSome_iff_exists.mp hsome
        rw [ht]
        rfl
      · have hnone : (s :: rest).reverse.find? (fun r : BracketRow => r.lower ≤ a) = none := by
          rw [List.find?_eq_none]
          intro t ht
          have hst : (row s).lower ≤ (row t).lower := by
            obtain rfl | ht := List.mem_cons.mp (List.mem_reverse.mp ht)
            · exact le_rfl
            · exact ((List.pairwise_cons.mp htail).1 _ (List.mem_map_of_mem ht)).le
          have habove := lt_of_lt_of_le (not_le.mp hs) hst
          simpa using habove
        rw [if_neg hs, findBracket, hfind first, hnone, if_pos ha]
        rfl

theorem row_findBracket_brackets {a : ℚ} (ha : 0 ≤ a) (employee : Employee) :
    row (findBracket a (brackets employee)) = rowAt zeroRow (laterRows employee) a := by
  obtain ⟨upper, hcons⟩ := brackets_eq_cons employee
  have hrows := ascending employee
  rw [laterRows] at hrows ⊢
  generalize (brackets employee).drop 1 = later at hcons hrows ⊢
  rw [hcons]
  exact row_findBracket hrows ha

theorem annualTax_nonneg {a : ℚ} (ha : 0 ≤ a) (employee : Employee) : 0 ≤ annualTax a employee := by
  have hrow := printed (rowAt_mem zeroRow (laterRows employee) a)
  have hlower : (rowAt zeroRow (laterRows employee) a).lower ≤ a := rowAt_lower_le ha
  exact add_nonneg hrow.base_nonneg (mul_nonneg (sub_nonneg.mpr hlower) hrow.rate_nonneg)

/-- On a wage in whole cents the table is rounded once, the period's share of
it a second time. -/
theorem line2h_eq {a : ℚ} (hcents : IsCents a) (ha : 0 ≤ a) (employee : Employee) :
    line2h a employee = money (money (annualTax a employee) / employee.payPeriodsPerYear.count) := by
  have hfound := row_findBracket_brackets ha employee
  have hrow := printed (rowAt_mem zeroRow (laterRows employee) a)
  have hlower : (rowAt zeroRow (laterRows employee) a).lower ≤ a := rowAt_lower_le ha
  simp only [annualTax, charge, Row.value]
  rw [← hfound] at hrow hlower ⊢
  simp only [line2h]
  change money (money ((findBracket a (brackets employee)).base + money (money (a -
    (findBracket a (brackets employee)).lower) * (findBracket a (brackets employee)).rate)) / _) = _
  generalize findBracket a (brackets employee) = b at hrow hlower ⊢
  have hexcess : 0 ≤ (a - b.lower) * b.rate := mul_nonneg (sub_nonneg.mpr hlower) hrow.rate_nonneg
  have hlowerCents : IsCents b.lower := hrow.lower
  have hbase : IsCents b.base := hrow.base
  rw [money_of_isCents (hcents.sub hlowerCents), money_of_isCents (hbase.add (isCents_money _)),
    ← money_add hbase hrow.base_nonneg hexcess]
  rfl

theorem isCents_line1i (wages : ℚ) (employee : Employee) : IsCents (line1i wages employee) :=
  isCents_zero.max (isCents_money _)

theorem line1i_nonneg (wages : ℚ) (employee : Employee) : 0 ≤ line1i wages employee := le_max_left _ _

theorem isCents_step1Standard (status : FilingStatus) : IsCents (step1Standard status) := by
  cases status
  · exact ⟨860000, by norm_num [step1Standard]⟩
  · exact ⟨1290000, by norm_num [step1Standard]⟩
  · exact ⟨860000, by norm_num [step1Standard]⟩

structure CentsW4 (employee : Employee) : Prop where
  step3 : IsCents employee.step3Dependents
  step4a : IsCents employee.step4aOtherIncome
  step4b : IsCents employee.step4bDeductions

def allowance (employee : Employee) : ℚ :=
  employee.step4bDeductions + if employee.step2Checkbox then 0 else step1Standard employee.filingStatus

theorem line1i_eq {wages : ℚ} (hwages : IsCents wages) {employee : Employee} (hw4 : CentsW4 employee) :
    line1i wages employee =
      max 0 (wages * employee.payPeriodsPerYear.count + employee.step4aOtherIncome -
        allowance employee) := by
  have hyear := hwages.mul_natCast employee.payPeriodsPerYear.count
  have hallowance : IsCents (allowance employee) := by
    rw [allowance]
    split
    · exact hw4.step4b.add isCents_zero
    · exact hw4.step4b.add (isCents_step1Standard _)
  have hincome := hyear.add hw4.step4a
  rw [allowance] at hallowance ⊢
  simp only [line1i]
  rw [money_of_isCents hyear, money_of_isCents hincome, money_of_isCents hallowance,
    money_of_isCents (hincome.sub hallowance)]

theorem twelve_le_count (p : PayPeriods) : (12 : ℚ) ≤ p.count := by
  cases p <;> norm_num [PayPeriods.count]

theorem federalWithholding2026_eq (wages : ℚ) (employee : Employee) :
    federalWithholding2026 wages employee =
      max 0 (line2h (line1i wages employee) employee -
        money (employee.step3Dependents / employee.payPeriodsPerYear.count)) := by
  have hcents : IsCents (line2h (line1i wages employee) employee) := isCents_money _
  simp only [federalWithholding2026]
  rw [money_of_isCents (hcents.sub (isCents_money _))]

/-- Three roundings reach the result: the year's tax, its share of a period and
the credit's. -/
theorem withholding_near_worksheet (wages : ℚ) (employee : Employee) (hwages : IsCents wages)
    (hstep3 : IsCents employee.step3Dependents) (hstep4a : IsCents employee.step4aOtherIncome)
    (hstep4b : IsCents employee.step4bDeductions) :
    |federalWithholding2026 wages employee - worksheet1A wages employee| ≤ 105 / 10000 := by
  have hw4 : CentsW4 employee := ⟨hstep3, hstep4a, hstep4b⟩
  have hp := twelve_le_count employee.payPeriodsPerYear
  have hexact : worksheet1A wages employee =
      max 0 (annualTax (line1i wages employee) employee / employee.payPeriodsPerYear.count -
        employee.step3Dependents / employee.payPeriodsPerYear.count) := by
    rw [line1i_eq hwages hw4]
    rfl
  have hline := line2h_eq (isCents_line1i wages employee) (line1i_nonneg wages employee) employee
  rw [hexact, federalWithholding2026_eq, hline]
  generalize annualTax (line1i wages employee) employee = tax
  generalize (employee.payPeriodsPerYear.count : ℚ) = p at hp ⊢
  have hyear := money_near tax
  have hperiod := money_near (money tax / p)
  have hcredit := money_near (employee.step3Dependents / p)
  have hshare : |money tax / p - tax / p| ≤ 1 / 2400 := by
    have hpos : (0 : ℚ) < p := by linarith
    rw [← sub_div, abs_div, abs_of_pos hpos, div_le_iff₀ hpos]
    have habs : |money tax - tax| ≤ 1 / 200 := abs_le.mpr ⟨by linarith [hyear.1], by linarith [hyear.2]⟩
    linarith
  have hnear : |(money (money tax / p) - money (employee.step3Dependents / p)) -
      (tax / p - employee.step3Dependents / p)| ≤ 105 / 10000 := by
    rw [abs_le] at hshare ⊢
    constructor
    · linarith [hperiod.1, hcredit.2, hshare.1]
    · linarith [hperiod.2, hcredit.1, hshare.2]
  rw [max_comm 0, max_comm 0]
  exact (abs_max_sub_max_le_abs _ _ 0).trans hnear

theorem withholding_near_worksheet_thousand :
    |federalWithholding2026 1000 (hourlyWorker 1 "ann lee".toList []) -
      worksheet1A 1000 (hourlyWorker 1 "ann lee".toList [])| ≤ 105 / 10000 :=
  withholding_near_worksheet 1000 (hourlyWorker 1 "ann lee".toList []) ⟨100000, by norm_num⟩
    ⟨0, by simp [hourlyWorker]⟩ ⟨0, by simp [hourlyWorker]⟩ ⟨0, by simp [hourlyWorker]⟩

end PayrollAgent.Worksheet1A
