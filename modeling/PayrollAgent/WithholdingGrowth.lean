import PayrollAgent.Worksheet1A

namespace PayrollAgent.WithholdingGrowth

open Lib.Schedule Money TaxTables2026 FederalWithholding Worksheet1A

def Seamed (employee : Employee) : Prop :=
  employee.step2Checkbox = true ∧ employee.filingStatus ≠ .marriedJointly

def seamedTop : List (Row ℚ) :=
  [⟨108938, 20512, 32 / 100⟩, ⟨136163, 29224, 35 / 100⟩, ⟨328350, 9648963 / 100, 37 / 100⟩]

theorem laterRows_of_seamed {employee : Employee} (h : Seamed employee) :
    laterRows employee = [⟨8050, 0, 10 / 100⟩, ⟨14250, 620, 12 / 100⟩, ⟨33250, 2900, 22 / 100⟩] ++
      ⟨60900, 8983, 24 / 100⟩ :: seamedTop := by
  obtain ⟨hstep2, hstatus⟩ := h
  cases hs : employee.filingStatus with
  | single =>
      simp only [laterRows, brackets, hstep2, hs]
      rfl
  | marriedJointly => exact absurd hs hstatus
  | marriedSeparately =>
      simp only [laterRows, brackets, hstep2, hs]
      rfl

theorem jumps_of_not_seamed {employee : Employee} (h : ¬ Seamed employee) (a b : ℚ) :
    jumps zeroRow (laterRows employee) a b = 0 := by
  apply jumps_of_continuous
  unfold Seamed at h
  unfold laterRows brackets
  cases hstep2 : employee.step2Checkbox with
  | false => cases employee.filingStatus <;> decide +kernel
  | true =>
      cases hs : employee.filingStatus with
      | single => exact absurd ⟨hstep2, by simp [hs]⟩ h
      | marriedJointly => decide +kernel
      | marriedSeparately => exact absurd ⟨hstep2, by simp [hs]⟩ h

theorem jumps_seamedTop (a b : ℚ) : jumps ⟨60900, 8983, 24 / 100⟩ seamedTop a b =
    (if a < 108938 ∧ 108938 ≤ b then -(12 / 100) else 0) + if a < 328350 ∧
    328350 ≤ b then 18 / 100 else 0 := by
  simp only [jumps, seamedTop, Row.seam, Row.value]
  norm_num

theorem jumps_of_seamed {employee : Employee} (h : Seamed employee) (a b : ℚ) :
    jumps zeroRow (laterRows employee) a b =
      (if a < 108938 ∧ 108938 ≤ b then -(12 / 100) else 0) +
        if a < 328350 ∧ 328350 ≤ b then 18 / 100 else 0 := by
  rw [laterRows_of_seamed h, ← jumps_seamedTop]
  simp only [List.cons_append, List.nil_append, jumps, Row.seam, Row.value, zeroRow]
  norm_num

theorem annualTax_growth {a b : ℚ} (ha : 0 ≤ a) (hab : a ≤ b) (employee : Employee) :
    jumps zeroRow (laterRows employee) a b ≤ annualTax b employee - annualTax a employee ∧
      annualTax b employee - annualTax a employee ≤
        37 / 100 * (b - a) + jumps zeroRow (laterRows employee) a b := by
  have hgrowth := charge_growth (ascending employee) (fun r hr => (printed hr).rate_nonneg)
    (fun r hr => (printed hr).rate_le) ha hab
  simpa [annualTax] using hgrowth

/-- Around the lower seam the rate is 24 percent at least, and the seam takes
twelve cents back. -/
theorem annualTax_growth_seam {employee : Employee} (h : Seamed employee) {a b : ℚ} (ha : 0 ≤ a)
    (hbelow : a < 108938) (habove : 108938 ≤ b) :
    24 / 100 * (b - max a 60900) - 12 / 100 ≤ annualTax b employee - annualTax a employee := by
  have hstart : a ≤ max a 60900 := le_max_left _ _
  have hstop : max a 60900 < 108938 := max_lt hbelow (by norm_num)
  have hfrom : (60900 : ℚ) ≤ max a 60900 := le_max_right _ _
  generalize max a 60900 = m at hstart hstop hfrom ⊢
  have hup : annualTax a employee ≤ annualTax m employee := by
    have hgrowth := (annualTax_growth ha hstart employee).1
    have hnone : jumps zeroRow (laterRows employee) a m = 0 := by
      have hlow : ¬ (108938 : ℚ) ≤ m := not_le.mpr hstop
      have hhigh : ¬ (328350 : ℚ) ≤ m := not_le.mpr (hstop.trans (by norm_num))
      simp [jumps_of_seamed h, hlow, hhigh]
    linarith
  have hascending := ascending employee
  rw [laterRows_of_seamed h] at hascending
  have hsub : ∀ c, 60900 ≤ c → annualTax c employee = charge ⟨60900, 8983, 24 / 100⟩ seamedTop c := by
    intro c hc
    rw [annualTax, laterRows_of_seamed h]
    exact charge_append (List.pairwise_cons.mp hascending).2 hc
  have htop : Ascending (⟨60900, 8983, 24 / 100⟩ :: seamedTop) := by
    unfold seamedTop Ascending
    decide +kernel
  have hrates : ∀ r ∈ (⟨60900, 8983, 24 / 100⟩ : Row ℚ) :: seamedTop, 24 / 100 ≤ r.rate ∧
    r.rate ≤ 37 / 100 := by
    unfold seamedTop
    decide +kernel
  have hmb : m ≤ b := (hstop.trans_le habove).le
  have hgrowth := (charge_growth htop (fun r hr => (hrates r hr).1) (fun r hr => (hrates r hr).2)
    hfrom hmb).1
  rw [← hsub m hfrom, ← hsub b (hfrom.trans hmb), jumps_seamedTop, if_pos ⟨hstop, habove⟩] at hgrowth
  have htopseam : (0 : ℚ) ≤ if m < 328350 ∧ 328350 ≤ b then 18 / 100 else 0 := by
    split <;> norm_num
  linarith

/-- Two roundings lie between the tax of a year and what a period withholds of it. -/
theorem line2h_lt {a b : ℚ} (hacents : IsCents a) (hbcents : IsCents b) (ha : 0 ≤ a) (hb : 0 ≤ b)
    (employee : Employee) :
    employee.payPeriodsPerYear.count * (line2h b employee - line2h a employee) <
      annualTax b employee - annualTax a employee + (employee.payPeriodsPerYear.count + 1) / 100 := by
  have hp := twelve_le_count employee.payPeriodsPerYear
  have hataxpos := annualTax_nonneg ha employee
  rw [line2h_eq hacents ha, line2h_eq hbcents hb]
  generalize annualTax a employee = s at hataxpos ⊢
  generalize annualTax b employee = t
  generalize (employee.payPeriodsPerYear.count : ℚ) = p at hp ⊢
  have hpos : (0 : ℚ) < p := by linarith
  have hyearLow := lt_money_add hataxpos
  have hyearHigh := (money_near t).2
  have hperiodLow := lt_money_add (div_nonneg (money_nonneg hataxpos) hpos.le)
  have hperiodHigh := (money_near (money t / p)).2
  have hlow : money s < p * money (money s / p) + p / 200 := by
    have hscaled := mul_lt_mul_of_pos_left hperiodLow hpos
    rw [mul_div_cancel₀ _ hpos.ne'] at hscaled
    linarith
  have hhigh : p * money (money t / p) ≤ money t + p / 200 := by
    have hscaled := mul_le_mul_of_nonneg_left hperiodHigh hpos.le
    rw [mul_add, mul_div_cancel₀ _ hpos.ne'] at hscaled
    linarith
  linarith

theorem line2h_mono {a b : ℚ} (hacents : IsCents a) (hbcents : IsCents b) (ha : 0 ≤ a) (hb : 0 ≤ b)
    {employee : Employee} (h : annualTax a employee ≤ annualTax b employee) :
    line2h a employee ≤ line2h b employee := by
  have hp := twelve_le_count employee.payPeriodsPerYear
  have hpos : (0 : ℚ) < employee.payPeriodsPerYear.count := by linarith
  have hataxpos := annualTax_nonneg ha employee
  rw [line2h_eq hacents ha, line2h_eq hbcents hb]
  apply money_mono (div_nonneg (money_nonneg hataxpos) hpos.le)
  exact div_le_div_of_nonneg_right (money_mono hataxpos h) hpos.le

/-- A raise reaches the adjusted annual wage once for each period, unless the
floor at zero takes part of it. -/
theorem line1i_growth {wages raised : ℚ} (hwages : IsCents wages) (hraised : IsCents raised)
    (hle : wages ≤ raised) {employee : Employee} (hw4 : CentsW4 employee) :
    line1i wages employee ≤ line1i raised employee ∧
      line1i raised employee - line1i wages employee ≤
        employee.payPeriodsPerYear.count * (raised - wages) ∧
      (0 < line1i wages employee → line1i raised employee - line1i wages employee =
        employee.payPeriodsPerYear.count * (raised - wages)) := by
  have hp := twelve_le_count employee.payPeriodsPerYear
  rw [line1i_eq hwages hw4, line1i_eq hraised hw4]
  generalize (employee.payPeriodsPerYear.count : ℚ) = p at hp ⊢
  have hyear : wages * p ≤ raised * p := mul_le_mul_of_nonneg_right hle (by linarith)
  have hscaled : p * (raised - wages) = raised * p - wages * p := by ring
  rw [hscaled]
  refine ⟨max_le_max_left 0 (by linarith), ?_, fun hpos => ?_⟩
  · rcases max_cases 0 (raised * p + employee.step4aOtherIncome - allowance employee) with h | h <;>
      rcases max_cases 0 (wages * p + employee.step4aOtherIncome - allowance employee) with h' | h' <;>
        linarith
  · rw [lt_max_iff] at hpos
    have hwagespos := hpos.resolve_left (lt_irrefl 0)
    rw [max_eq_right hwagespos.le, max_eq_right (by linarith)]
    ring

/-- The raise takes the adjusted annual wage across a seam, by less than half a
dollar a year. -/
structure Crosses (seam wages raised : ℚ) (employee : Employee) : Prop where
  seamed : Seamed employee
  notWeekly : employee.payPeriodsPerYear ≠ .weekly
  below : line1i wages employee < seam
  above : seam ≤ line1i raised employee
  narrow : line1i raised employee - line1i wages employee < 1 / 2

theorem not_weekly_of_lt {p : PayPeriods} (h : (p.count : ℚ) < 50) : p ≠ .weekly := by
  rintro rfl
  norm_num [PayPeriods.count] at h

section

variable {wages raised : ℚ} {employee : Employee}

theorem below_seam_of_drop {a b : ℚ} (ha : 0 ≤ a) (hab : a ≤ b)
    (h : annualTax b employee < annualTax a employee) :
    Seamed employee ∧ a < 108938 ∧ 108938 ≤ b := by
  have hgrowth := (annualTax_growth ha hab employee).1
  by_cases hs : Seamed employee
  · refine ⟨hs, not_or.mp ?_ |>.imp not_le.mp not_lt.mp⟩
    intro hout
    have hno : ¬ (a < 108938 ∧ (108938 : ℚ) ≤ b) := by
      rintro ⟨hbelow, habove⟩
      exact hout.elim (not_le.mpr hbelow) (not_lt.mpr habove)
    rw [jumps_of_seamed hs, if_neg hno, zero_add] at hgrowth
    have hseam : (0 : ℚ) ≤ if a < 328350 ∧ 328350 ≤ b then 18 / 100 else 0 := by
      split <;> norm_num
    linarith
  · rw [jumps_of_not_seamed hs] at hgrowth
    linarith

/-- What a period withholds falls by a cent at most, and only where the raise
crosses the lower seam. -/
theorem line2h_drop (hwages : IsCents wages) (hraised : IsCents raised) (hle : wages ≤ raised)
    (hw4 : CentsW4 employee)
    (hdrop : line2h (line1i raised employee) employee < line2h (line1i wages employee) employee) :
    Crosses 108938 wages raised employee ∧
      line2h (line1i wages employee) employee - 1 / 100 ≤ line2h (line1i raised employee) employee := by
  obtain ⟨hab, hgrown, hexact⟩ := line1i_growth hwages hraised hle hw4
  have ha := line1i_nonneg wages employee
  have hb := line1i_nonneg raised employee
  have hacents := isCents_line1i wages employee
  have hbcents := isCents_line1i raised employee
  have hp := twelve_le_count employee.payPeriodsPerYear
  have htax : annualTax (line1i raised employee) employee < annualTax (line1i wages employee)
    employee := by
    by_contra hnot
    exact absurd (line2h_mono hacents hbcents ha hb (not_lt.mp hnot)) (not_le.mpr hdrop)
  obtain ⟨hs, hbelow, habove⟩ := below_seam_of_drop ha hab htax
  have hseam := annualTax_growth_seam hs ha hbelow habove
  have hnear : (60900 : ℚ) < line1i wages employee := by
    by_contra hnot
    rw [max_eq_right (not_lt.mp hnot)] at hseam
    linarith
  rw [max_eq_left hnear.le] at hseam
  have hyear := hexact (by linarith)
  have hraise : wages + 1 / 100 ≤ raised := by
    apply hwages.add_cent_le hraised
    rcases hle.lt_or_eq with hlt | heq
    · exact hlt
    · rw [heq] at hdrop
      exact absurd hdrop (lt_irrefl _)
  have hstep : (employee.payPeriodsPerYear.count : ℚ) * (1 / 100) ≤
      employee.payPeriodsPerYear.count * (raised - wages) :=
    mul_le_mul_of_nonneg_left (by linarith) (by linarith)
  refine ⟨⟨hs, not_weekly_of_lt (by linarith), hbelow, habove, by linarith⟩, ?_⟩
  have hround := line2h_lt hbcents hacents hb ha employee
  have hcents : IsCents (line2h (line1i wages employee) employee) := isCents_money _
  have hcents' : IsCents (line2h (line1i raised employee) employee) := isCents_money _
  apply (hcents.sub isCents_cent).le_of_lt_add hcents'
  generalize line2h (line1i raised employee) employee = x at hround ⊢
  generalize line2h (line1i wages employee) employee = y at hround ⊢
  generalize (employee.payPeriodsPerYear.count : ℚ) = p at hp hstep hround hyear ⊢
  have hnear : y - x < 2 / 100 := lt_of_mul_lt_mul_left (a := p) (by linarith) (by linarith)
  linarith

/-- What a period withholds grows by a cent more than the raise at most, and by
more than the raise only across the upper seam. -/
theorem line2h_rise (hwages : IsCents wages) (hraised : IsCents raised) (hle : wages ≤ raised)
    (hw4 : CentsW4 employee) :
    line2h (line1i raised employee) employee ≤
        line2h (line1i wages employee) employee + (raised - wages) + 1 / 100 ∧
      (line2h (line1i wages employee) employee + (raised - wages) <
          line2h (line1i raised employee) employee → Crosses 328350 wages raised employee) := by
  rcases hle.eq_or_lt with rfl | hlt
  · constructor
    · linarith
    · intro h
      linarith
  obtain ⟨hab, hgrown, -⟩ := line1i_growth hwages hraised hle hw4
  have ha := line1i_nonneg wages employee
  have hb := line1i_nonneg raised employee
  have hacents := isCents_line1i wages employee
  have hbcents := isCents_line1i raised employee
  have hp := twelve_le_count employee.payPeriodsPerYear
  have hraise := hwages.add_cent_le hraised hlt
  have hround := line2h_lt hacents hbcents ha hb employee
  have htax := (annualTax_growth ha hab employee).2
  have hcents : IsCents (line2h (line1i wages employee) employee) := isCents_money _
  have hcents' : IsCents (line2h (line1i raised employee) employee) := isCents_money _
  have hscaled : (employee.payPeriodsPerYear.count : ℚ) * (1 / 100) ≤
      employee.payPeriodsPerYear.count * (raised - wages) :=
    mul_le_mul_of_nonneg_left (by linarith) (by linarith)
  -- away from the upper seam the rates alone bound the growth
  have hfree : ¬ (Seamed employee ∧ line1i wages employee < 328350 ∧ 328350 ≤ line1i raised employee) →
      line2h (line1i raised employee) employee ≤
        line2h (line1i wages employee) employee + (raised - wages) := by
    intro hno
    have hjumps : jumps zeroRow (laterRows employee) (line1i wages employee)
      (line1i raised employee) ≤ 0 := by
      by_cases hs : Seamed employee
      · rw [jumps_of_seamed hs, if_neg fun hboth => hno ⟨hs, hboth⟩, add_zero]
        split <;> norm_num
      · rw [jumps_of_not_seamed hs]
    apply hcents'.le_of_lt_add (hcents.add (hraised.sub hwages))
    generalize line2h (line1i raised employee) employee = x at hround ⊢
    generalize line2h (line1i wages employee) employee = y at hround ⊢
    generalize (employee.payPeriodsPerYear.count : ℚ) = p at hp hgrown hround hscaled ⊢
    have hnear : x - y < raised - wages + 1 / 100 := lt_of_mul_lt_mul_left (a := p) (by linarith)
      (by linarith)
    linarith
  have hjumps : jumps zeroRow (laterRows employee) (line1i wages employee)
    (line1i raised employee) ≤ 18 / 100 := by
    by_cases hs : Seamed employee
    · rw [jumps_of_seamed hs]
      split <;> split <;> norm_num
    · rw [jumps_of_not_seamed hs]
      norm_num
  constructor
  · apply hcents'.le_of_lt_add ((hcents.add (hraised.sub hwages)).add isCents_cent)
    generalize line2h (line1i raised employee) employee = x at hround ⊢
    generalize line2h (line1i wages employee) employee = y at hround ⊢
    generalize (employee.payPeriodsPerYear.count : ℚ) = p at hp hgrown hround hscaled ⊢
    have hnear : x - y < raised - wages + 2 / 100 := lt_of_mul_lt_mul_left (a := p) (by linarith)
      (by linarith)
    linarith
  · intro hover
    obtain ⟨hs, hbelow, habove⟩ : Seamed employee ∧ line1i wages employee < 328350 ∧
        328350 ≤ line1i raised employee := by
      by_contra hno
      exact absurd (hfree hno) (not_le.mpr hover)
    have hcent := (hcents.add (hraised.sub hwages)).add_cent_le hcents' hover
    have hfar : (employee.payPeriodsPerYear.count : ℚ) * (raised - wages + 1 / 100) ≤
        employee.payPeriodsPerYear.count * (line2h (line1i raised employee) employee -
          line2h (line1i wages employee) employee) :=
      mul_le_mul_of_nonneg_left (by linarith) (by linarith)
    exact ⟨hs, not_weekly_of_lt (by linarith), hbelow, habove, by linarith⟩

end

/-- A raise is withheld from within its own bounds but for the two printed
seams of the single table for two jobs: across the lower one the withholding
may fall, across the upper one it may outgrow the raise, by a cent. -/
theorem withholding_growth (wages raised : ℚ) (employee : Employee) (hwages : IsCents wages)
    (hraised : IsCents raised) (hle : wages ≤ raised) (hstep3 : IsCents employee.step3Dependents)
    (hstep4a : IsCents employee.step4aOtherIncome) (hstep4b : IsCents employee.step4bDeductions) :
    -(1 / 100) ≤ federalWithholding2026 raised employee - federalWithholding2026 wages employee ∧
      federalWithholding2026 raised employee - federalWithholding2026 wages employee ≤
        raised - wages + 1 / 100 ∧
      (federalWithholding2026 raised employee - federalWithholding2026 wages employee < 0 →
        Crosses 108938 wages raised employee) ∧
      (raised - wages < federalWithholding2026 raised employee - federalWithholding2026 wages employee →
        Crosses 328350 wages raised employee) := by
  have hw4 : CentsW4 employee := ⟨hstep3, hstep4a, hstep4b⟩
  have hdrop := line2h_drop hwages hraised hle hw4
  obtain ⟨hrise, hover⟩ := line2h_rise hwages hraised hle hw4
  rw [federalWithholding2026_eq, federalWithholding2026_eq]
  generalize line2h (line1i raised employee) employee = x at hdrop hrise hover ⊢
  generalize line2h (line1i wages employee) employee = y at hdrop hrise hover ⊢
  generalize money (employee.step3Dependents / employee.payPeriodsPerYear.count) = c
  have hlow : max 0 (y - c) ≤ max 0 (x - c) + max 0 (y - x) := by
    rcases max_cases 0 (y - c) with h | h <;> rcases max_cases 0 (x - c) with h' | h' <;>
      rcases max_cases 0 (y - x) with h'' | h'' <;> linarith
  have hhigh : max 0 (x - c) ≤ max 0 (y - c) + max 0 (x - y) := by
    rcases max_cases 0 (y - c) with h | h <;> rcases max_cases 0 (x - c) with h' | h' <;>
      rcases max_cases 0 (x - y) with h'' | h'' <;> linarith
  refine ⟨?_, ?_, fun h => ?_, fun h => ?_⟩
  · by_cases hxy : x < y
    · rw [max_eq_right (by linarith : (0 : ℚ) ≤ y - x)] at hlow
      linarith [(hdrop hxy).2]
    · rw [max_eq_left (by linarith : y - x ≤ 0)] at hlow
      linarith
  · rcases max_cases 0 (x - y) with h | h <;> linarith
  · apply (hdrop _).1
    by_contra hxy
    rw [max_eq_left (by linarith : y - x ≤ 0)] at hlow
    linarith
  · apply hover
    by_contra hxy
    rcases max_cases 0 (x - y) with h' | h' <;> linarith

section Seams

def twoJobs : Employee :=
  { hourlyWorker 1 "ann lee".toList [] with step2Checkbox := true, payPeriodsPerYear := .monthly }

/-- A cent more of monthly wages takes a cent off the withholding at the lower
seam, and adds two cents at the upper one. -/
theorem raise_off_bounds :
    (¬ ∀ (wages raised : ℚ) (employee : Employee), IsCents wages → IsCents raised → wages ≤ raised →
        IsCents employee.step3Dependents → IsCents employee.step4aOtherIncome →
        IsCents employee.step4bDeductions →
          0 ≤ federalWithholding2026 raised employee - federalWithholding2026 wages employee) ∧
      ¬ ∀ (wages raised : ℚ) (employee : Employee), IsCents wages → IsCents raised → wages ≤ raised →
        IsCents employee.step3Dependents → IsCents employee.step4aOtherIncome →
        IsCents employee.step4bDeductions →
          federalWithholding2026 raised employee - federalWithholding2026 wages employee ≤ raised
          - wages := by
  constructor
  · intro h
    have hbound := h (907816 / 100) (907817 / 100) twoJobs ⟨907816, by norm_num⟩ ⟨907817, by norm_num⟩
      (by norm_num) ⟨0, by simp [twoJobs, hourlyWorker]⟩ ⟨0, by simp [twoJobs, hourlyWorker]⟩
      ⟨0, by simp [twoJobs, hourlyWorker]⟩
    revert hbound
    decide +kernel
  · intro h
    have hbound := h (2736249 / 100) (2736250 / 100) twoJobs ⟨2736249, by norm_num⟩ ⟨2736250, by norm_num⟩
      (by norm_num) ⟨0, by simp [twoJobs, hourlyWorker]⟩ ⟨0, by simp [twoJobs, hourlyWorker]⟩
      ⟨0, by simp [twoJobs, hourlyWorker]⟩
    revert hbound
    decide +kernel

theorem withholding_growth_hundred :
    federalWithholding2026 1100 (hourlyWorker 1 "ann lee".toList []) -
      federalWithholding2026 1000 (hourlyWorker 1 "ann lee".toList []) ≤ 1100 - 1000 + 1 / 100 :=
  (withholding_growth 1000 1100 (hourlyWorker 1 "ann lee".toList []) ⟨100000, by norm_num⟩
    ⟨110000, by norm_num⟩ (by norm_num) ⟨0, by simp [hourlyWorker]⟩ ⟨0, by simp [hourlyWorker]⟩
    ⟨0, by simp [hourlyWorker]⟩).2.1

end Seams

end PayrollAgent.WithholdingGrowth
