import PayrollAgent.Decide
import PayrollAgent.Validate

namespace PayrollAgent.PayableHours

open Lib Validate Decide ReconcileNames

def periodHours : PayPeriods → Option ℕ
  | .monthly => none
  | .semiMonthly => none
  | .biweekly => some 80
  | .weekly => some 40

def Lumped (w : Employee) (e : ExtractedEmployee) : Prop :=
  isPaid e.hoursOvertime = false ∧ ∃ h n, e.hoursRegular = some h ∧
    periodHours w.payPeriodsPerYear = some n ∧ (n : ℚ≥0) < h

structure Payable (w : Employee) (e : ExtractedEmployee) : Prop where
  paid : isHourly w = true → ∃ f q, e.hours f = some q ∧ 0 < q
  split : ¬ Lumped w e

theorem overThreshold_eq_none_iff (e : ExtractedEmployee) (threshold : ℚ≥0) :
    overThreshold e threshold = none ↔
      (isPaid e.hoursOvertime = false → ∀ h, e.hoursRegular = some h → ¬ threshold < h) := by
  rw [overThreshold]
  cases isPaid e.hoursOvertime with
  | true => simp
  | false => cases e.hoursRegular <;> simp

theorem exists_of_matchedEmployee {matches' : List NameMatchResult} {roster : Roster} {name : Str}
    {w : Employee} (h : matchedEmployee name matches' roster = some w) :
    w ∈ roster.employees ∧ ∃ m ∈ matches', m.submittedName = name ∧ m.matchedEmployeeId = some w.id := by
  obtain ⟨m, hm, hfound⟩ := List.exists_of_findSome?_eq_some h
  rw [Option.ite_none_right_eq_some] at hfound
  obtain ⟨hname, hfound⟩ := hfound
  obtain ⟨id, hid, hrow⟩ := Option.bind_eq_some_iff.mp hfound
  have hsame : w.id = id := by simpa using List.find?_some hrow
  exact ⟨List.mem_of_find?_eq_some hrow, m, hm, hname, hsame ▸ hid⟩

theorem find?_eq_some_of_mem {roster : Roster} {w : Employee} (hw : w ∈ roster.employees) :
    roster.employees.find? (fun e => e.id = w.id) = some w := by
  have hfound : (roster.employees.find? (fun e => e.id = w.id)).isSome = true := by
    rw [List.find?_isSome]
    exact ⟨w, hw, by simp⟩
  obtain ⟨v, hv⟩ := Option.isSome_iff_exists.mp hfound
  have hid : v.id = w.id := by simpa using List.find?_some hv
  rw [hv, List.inj_on_of_nodup_map roster.uniqueIds (List.mem_of_find?_eq_some hv) hw hid]

theorem matchedEmployee_eq_some {matches' : List NameMatchResult} {roster : Roster} {name : Str}
    {w : Employee} (hw : w ∈ roster.employees)
    (hsome : ∃ m ∈ matches', m.submittedName = name ∧ m.matchedEmployeeId = some w.id)
    (hall : ∀ m ∈ matches', m.submittedName = name → m.matchedEmployeeId = some w.id) :
    matchedEmployee name matches' roster = some w := by
  obtain ⟨m, hm, hname, hid⟩ := hsome
  have hfound : (matchedEmployee name matches' roster).isSome = true := by
    rw [matchedEmployee, List.findSome?_isSome_iff]
    exact ⟨m, hm, by simp [hname, hid, find?_eq_some_of_mem hw]⟩
  obtain ⟨v, hv⟩ := Option.isSome_iff_exists.mp hfound
  obtain ⟨hvmem, n, hn, hnname, hnid⟩ := exists_of_matchedEmployee hv
  have hsame : v.id = w.id := Option.some.inj (hnid.symm.trans (hall n hn hnname))
  rw [hv, List.inj_on_of_nodup_map roster.uniqueIds hvmem hw hsame]

section

variable [PyText] {matches' : List NameMatchResult} {roster : Roster} {e : ExtractedEmployee}

theorem missingHoursIssue_eq_none_iff :
    missingHoursIssue matches' roster e = none ↔
      ∀ w, matchedEmployee e.submittedName matches' roster = some w → isHourly w = true →
        ∃ f q, e.hours f = some q ∧ 0 < q := by
  rw [missingHoursIssue]
  by_cases hany : HoursField.all.any (fun f => isPaid (e.hours f)) = true
  · obtain ⟨f, -, hf⟩ := List.any_eq_true.mp hany
    simpa [hany] using fun w _ _ => ⟨f, (isPaid_iff _).mp hf⟩
  · have hnone : ¬ ∃ f q, e.hours f = some q ∧ 0 < q := by
      rintro ⟨f, hf⟩
      exact hany (List.any_eq_true.mpr ⟨f, f.mem_all, (isPaid_iff _).mpr hf⟩)
    rw [if_neg hany]
    cases matchedEmployee e.submittedName matches' roster with
    | none => simp
    | some w => cases hourly : isHourly w <;> simp [hourly, hnone]

theorem overtimeIssue_eq_none_iff :
    overtimeIssue matches' roster e = none ↔
      ∀ w, matchedEmployee e.submittedName matches' roster = some w → ¬ Lumped w e := by
  rw [overtimeIssue]
  cases matchedEmployee e.submittedName matches' roster with
  | none => simp
  | some w =>
      cases hperiod : w.payPeriodsPerYear <;>
        simp [hperiod, Lumped, periodHours, overThreshold_eq_none_iff]

theorem payable_iff :
    (missingHoursIssue matches' roster e = none ∧ overtimeIssue matches' roster e = none) ↔
      ∀ w, matchedEmployee e.submittedName matches' roster = some w → Payable w e := by
  rw [missingHoursIssue_eq_none_iff, overtimeIssue_eq_none_iff]
  constructor
  · rintro ⟨hpaid, hsplit⟩ w hw
    exact ⟨hpaid w hw, hsplit w hw⟩
  · intro h
    exact ⟨fun w hw => (h w hw).paid, fun w hw => (h w hw).split⟩

/-- An open gate has let no entry through on which an hours rule speaks. -/
theorem noIssue_of_process {extracted : Extracted} {resolvedDrops : Pairs} {drops : List RawFieldDrop}
    (h : (decide extracted matches' (validate extracted roster matches' resolvedDrops drops)).finalAction =
      .process) (he : e ∈ extracted.employees) :
    missingHoursIssue matches' roster e = none ∧ overtimeIssue matches' roster e = none := by
  have hclean := (clean_of_process h).noMissing
  constructor
  · cases hissue : missingHoursIssue matches' roster e with
    | none => rfl
    | some i =>
        have hmem : i ∈ extracted.employees.filterMap (missingHoursIssue matches' roster) :=
          List.mem_filterMap.mpr ⟨e, he, hissue⟩
        exact absurd (issueType_missingHoursIssue hissue) (hclean i (by simp [validate, hmem]))
  · cases hissue : overtimeIssue matches' roster e with
    | none => rfl
    | some i =>
        have hmem : i ∈ extracted.employees.filterMap (overtimeIssue matches' roster) :=
          List.mem_filterMap.mpr ⟨e, he, hissue⟩
        exact absurd (issueType_overtimeIssue hissue) (hclean i (by simp [validate, hmem]))

/-- The resolver is a function of the name, so its matches of a name agree. -/
theorem matchedEmployee_reconcileNames {names : List Str} {overrides : Option Overrides} {name : Str}
    {w : Employee} (hw : w ∈ roster.employees)
    (hmatch : ∃ m ∈ reconcileNames names roster overrides, m.submittedName = name ∧
      m.matchedEmployeeId = some w.id) :
    matchedEmployee name (reconcileNames names roster overrides) roster = some w := by
  apply matchedEmployee_eq_some hw hmatch
  obtain ⟨m, hm, hname, hid⟩ := hmatch
  intro n hn hnname
  obtain ⟨a, -, rfl⟩ := (mem_reconcileNames_iff _ _ _ _).mp hm
  obtain ⟨b, -, rfl⟩ := (mem_reconcileNames_iff _ _ _ _).mp hn
  rw [submittedName_reconcileName] at hname hnname
  rw [hnname, ← hname]
  exact hid

/-- A processed run pays hours that every entry states. -/
theorem payable_of_process (extracted : Extracted) (roster : Roster) (overrides : Option Overrides)
    (resolvedDrops : Pairs) (drops : List RawFieldDrop)
    (h : (decide extracted (reconcileNames extracted.names roster overrides)
      (validate extracted roster (reconcileNames extracted.names roster overrides) resolvedDrops
        drops)).finalAction = .process)
    (e : ExtractedEmployee) (he : e ∈ extracted.employees) (w : Employee) (hw : w ∈ roster.employees)
    (hmatch : ∃ m ∈ reconcileNames extracted.names roster overrides, m.submittedName = e.submittedName ∧
      m.matchedEmployeeId = some w.id) :
    (isHourly w = true → ∃ f q, e.hours f = some q ∧ 0 < q) ∧
      (w.payPeriodsPerYear = .weekly → ∀ h, e.hoursRegular = some h → 40 < h →
        ∃ q, e.hoursOvertime = some q ∧ 0 < q) ∧
      (w.payPeriodsPerYear = .biweekly → ∀ h, e.hoursRegular = some h → 80 < h →
        ∃ q, e.hoursOvertime = some q ∧ 0 < q) := by
  have hpayable := payable_iff.mp (noIssue_of_process h he) w (matchedEmployee_reconcileNames hw hmatch)
  have hsplit : ∀ h n, e.hoursRegular = some h → periodHours w.payPeriodsPerYear = some n →
    (n : ℚ≥0) < h → ∃ q, e.hoursOvertime = some q ∧ 0 < q := by
    intro h n hregular hperiod hmany
    cases hpaid : isPaid e.hoursOvertime with
    | true => exact (isPaid_iff _).mp hpaid
    | false => exact absurd ⟨hpaid, h, n, hregular, hperiod, hmany⟩ hpayable.split
  refine ⟨hpayable.paid, fun hweekly h hregular hmany => ?_, fun hbiweekly h hregular hmany => ?_⟩
  · exact hsplit h 40 hregular (by rw [hweekly]; rfl) (by simpa using hmany)
  · exact hsplit h 80 hregular (by rw [hbiweekly]; rfl) (by simpa using hmany)

end

section Overtime

attribute [local instance] asciiText

def weeklyRoster : Roster := ⟨[hourlyWorker 1 "ann lee".toList []], by decide⟩

def overtimeWeek : Extracted := ⟨9, [reported "ANN Lee".toList (some 45) (some 5)], none, none⟩

theorem payable_of_process_weekly :
    ∃ f q, (reported "ANN Lee".toList (some 45) (some 5)).hours f = some q ∧ 0 < q :=
  (payable_of_process overtimeWeek weeklyRoster none [] [] (by decide +kernel)
    (reported "ANN Lee".toList (some 45) (some 5)) (by decide +kernel)
    (hourlyWorker 1 "ann lee".toList []) (by decide +kernel) (by decide +kernel)).1 rfl

end Overtime

end PayrollAgent.PayableHours
