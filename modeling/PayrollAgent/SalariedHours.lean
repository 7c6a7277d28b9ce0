import PayrollAgent.PayableHours
import PayrollAgent.RunStages

namespace PayrollAgent.SalariedHours

open Lib Validate Decide Calculate ComputeLineItems RunStages PayableHours

def rehours (e : ExtractedEmployee) (regular overtime : Option ℚ≥0) : ExtractedEmployee :=
  (e.setHours .regular regular).setHours .overtime overtime

@[simp] theorem submittedName_rehours (e : ExtractedEmployee) (regular overtime : Option ℚ≥0) :
    (rehours e regular overtime).submittedName = e.submittedName := rfl

@[simp] theorem contribution401kOverride_rehours (e : ExtractedEmployee) (regular overtime : Option ℚ≥0) :
    (rehours e regular overtime).contribution401kOverride = e.contribution401kOverride := rfl

theorem hours_rehours {f : HoursField} (hregular : f ≠ .regular) (hovertime : f ≠ .overtime)
    (e : ExtractedEmployee) (regular overtime : Option ℚ≥0) :
    (rehours e regular overtime).hours f = e.hours f := by
  simp [rehours, hregular, hovertime]

def pay (item : PaystubLineItem) : Uuid × ℚ × ℚ := (item.employeeId, item.grossPay, item.netPay)

theorem grossPay_rehours {w : Employee} (hsalaried : isHourly w = false) (e : ExtractedEmployee)
    (regular overtime : Option ℚ≥0) :
    grossPay (resolvedHours (rehours e regular overtime).hours) w = grossPay
      (resolvedHours e.hours) w := by
  cases hpay : w.compensation with
  | hourly rate => simp [isHourly, hpay] at hsalaried
  | salary annual => simp [grossPay, hpay, resolvedHours, hours_rehours]

theorem pay_paystub_rehours {w : Employee} (hsalaried : isHourly w = false) (e : ExtractedEmployee)
    (regular overtime : Option ℚ≥0) (override : Option Fraction) :
    pay (paystub (rehours e regular overtime).hours w override) = pay (paystub e.hours w override) := by
  simp only [pay, paystub, grossPay_rehours hsalaried]

section

variable [PyText]

def firstDecision (extracted : Extracted) (roster : Roster) (matches' : List NameMatchResult) :
    Decision :=
  decide extracted matches' (validate extracted roster matches' [] [])

theorem stageDecision_first (roster : Roster) (extracted : Extracted) :
    stageDecision roster extracted StageArgs.first =
      firstDecision extracted roster (stageMatches roster extracted StageArgs.first) := rfl

def firstPay (runId : Uuid) (extracted : Extracted) (roster : Roster) (matches' : List NameMatchResult) :
    Except CalculationError (List (Uuid × ℚ × ℚ)) :=
  if (firstDecision extracted roster matches').finalAction = .process then
    (computeLineItems runId extracted matches' roster).map (List.map pay)
  else .ok []

theorem firstPay_of_open {runId : Uuid} {extracted : Extracted} {roster : Roster}
    {matches' : List NameMatchResult}
    (h : (firstDecision extracted roster matches').finalAction = .process) :
    firstPay runId extracted roster matches' =
      (lineItems runId matches' roster extracted.employees).map (List.map pay) := by
  rw [firstPay, if_pos h]
  rfl

theorem firstPay_of_closed {runId : Uuid} {extracted : Extracted} {roster : Roster}
    {matches' : List NameMatchResult}
    (h : (firstDecision extracted roster matches').finalAction ≠ .process) :
    firstPay runId extracted roster matches' = .ok [] := by
  rw [firstPay, if_neg h]

structure Undisturbed (runId : Uuid) (roster : Roster) (matches' : List NameMatchResult)
    (x y : Extracted) : Prop where
  decision : (firstDecision x roster matches').finalAction = (firstDecision y roster matches').finalAction
  pay : firstPay runId x roster matches' = firstPay runId y roster matches'

/-- The rest of the email passes the gate: the match list is one for one, and
the other entries have payable hours. -/
structure OthersPass (roster : Roster) (matches' : List NameMatchResult) (before : List ExtractedEmployee)
    (e : ExtractedEmployee) (after : List ExtractedEmployee) : Prop where
  oneForOne : (matches'.map NameMatchResult.submittedName).Perm
    ((before ++ e :: after).map ExtractedEmployee.submittedName)
  resolved : ∀ m ∈ matches', m.resolved = true
  namesNodup : (matches'.map NameMatchResult.submittedName).Nodup
  sameName : ∀ m ∈ matches', ∀ n ∈ matches', ∀ id, m.matchedEmployeeId = some id →
    n.matchedEmployeeId = some id → m.submittedName = n.submittedName
  payable : ∀ o ∈ before ++ after, ∀ w, matchedEmployee o.submittedName matches' roster = some w →
    Payable w o

variable {roster : Roster} {matches' : List NameMatchResult} {before after : List ExtractedEmployee}
  {e : ExtractedEmployee} {w : Employee}

omit [PyText] in
theorem match_unique (hnodup : (matches'.map NameMatchResult.submittedName).Nodup) {m n : NameMatchResult}
    (hm : m ∈ matches') (hn : n ∈ matches') (hname : m.submittedName = n.submittedName) : m = n :=
  List.inj_on_of_nodup_map hnodup hm hn hname

omit [PyText] in
theorem mem_validate_first {extracted : Extracted} {i : ValidationIssue} [PyText] :
    i ∈ validate extracted roster matches' [] [] ↔
      ∃ o ∈ extracted.employees, missingHoursIssue matches' roster o = some i ∨
        overtimeIssue matches' roster o = some i := by
  simp only [validate, regressionIssues, List.filterMap_nil, List.nil_append, List.mem_append,
    List.mem_filterMap]
  grind

/-- The gate of a first run in which a salaried employee has an entry: the rest
passes, and the entry's own hours are not lumped together. -/
theorem firstDecision_process_iff (hw : w ∈ roster.employees) (hsalaried : isHourly w = false)
    (hmatch : ∃ m ∈ matches', m.submittedName = e.submittedName ∧ m.matchedEmployeeId = some w.id)
    {runId : Uuid} {start end' : Option Date} :
    (firstDecision ⟨runId, before ++ e :: after, start, end'⟩ roster matches').finalAction = .process ↔
      OthersPass roster matches' before e after ∧ ¬ Lumped w e := by
  have hentry : (matches'.map NameMatchResult.submittedName).Nodup →
      matchedEmployee e.submittedName matches' roster = some w := by
    intro hnodup
    apply matchedEmployee_eq_some hw hmatch
    obtain ⟨m, hm, hname, hid⟩ := hmatch
    intro n hn hnname
    rw [match_unique hnodup hn hm (hnname.trans hname.symm)]
    exact hid
  constructor
  · intro h
    have hclean := clean_of_process h
    have hpayable : ∀ o ∈ before ++ e :: after, ∀ v,
        matchedEmployee o.submittedName matches' roster = some v → Payable v o :=
      fun o ho => payable_iff.mp (noIssue_of_process h ho)
    refine ⟨⟨hclean.oneForOne, hclean.resolved, hclean.namesNodup, hclean.sameName, ?_⟩, ?_⟩
    · intro o ho
      apply hpayable o
      obtain ho | ho := List.mem_append.mp ho
      · exact List.mem_append_left _ ho
      · exact List.mem_append_right _ (List.mem_cons_of_mem _ ho)
    · exact (hpayable e (by simp) w (hentry hclean.namesNodup)).split
  · rintro ⟨hpass, hsplit⟩
    have hpayable : ∀ o ∈ before ++ e :: after, ∀ v,
        matchedEmployee o.submittedName matches' roster = some v → Payable v o := by
      intro o ho v hv
      obtain ho | ho := List.mem_append.mp ho
      · exact hpass.payable o (List.mem_append_left _ ho) v hv
      · obtain rfl | ho := List.mem_cons.mp ho
        · rw [hentry hpass.namesNodup] at hv
          obtain rfl := Option.some.inj hv
          refine ⟨fun hhourly => ?_, hsplit⟩
          rw [hsalaried] at hhourly
          cases hhourly
        · exact hpass.payable o (List.mem_append_right _ ho) v hv
    have hsilent : ∀ i, i ∉ validate ⟨runId, before ++ e :: after, start, end'⟩ roster matches' []
      [] := by
      intro i hi
      obtain ⟨o, ho, hissue⟩ := mem_validate_first.mp hi
      obtain ⟨hmissing, hovertime⟩ := payable_iff.mpr (hpayable o ho)
      rw [hmissing, hovertime] at hissue
      obtain h | h := hissue <;> cases h
    exact process_iff_clean.mpr
      { employees := by simp
        oneForOne := hpass.oneForOne
        resolved := hpass.resolved
        noMissing := fun i hi => absurd hi (hsilent i)
        noRegression := fun i hi => absurd hi (hsilent i)
        namesNodup := hpass.namesNodup
        sameName := hpass.sameName }

omit [PyText] in
theorem pay_lineItems {runId : Uuid} {e' : ExtractedEmployee}
    (h : (lineItem runId matches' roster e).map (Option.map pay) =
      (lineItem runId matches' roster e').map (Option.map pay)) :
    (lineItems runId matches' roster (before ++ e :: after)).map (List.map pay) =
      (lineItems runId matches' roster (before ++ e' :: after)).map (List.map pay) := by
  induction before with
  | nil =>
      have hlist : ∀ {a b : Option PaystubLineItem}, a.map pay = b.map pay →
          a.toList.map pay = b.toList.map pay := by
        intro a b hab
        rw [← Option.toList_map, hab, Option.toList_map]
      simp only [List.nil_append, lineItems]
      generalize lineItem runId matches' roster e = x at h ⊢
      generalize lineItem runId matches' roster e' = y at h ⊢
      cases x with
      | error _ =>
          cases y with
          | error _ =>
              cases h
              rfl
          | ok _ => cases h
      | ok a =>
          cases y with
          | error _ => cases h
          | ok b =>
              have hab := hlist (Except.ok.inj h)
              cases lineItems runId matches' roster after with
              | error _ => rfl
              | ok items => simp [Except.map, bind, Except.bind, pure, Except.pure, hab]
  | cons o rest ih =>
      simp only [List.cons_append, lineItems]
      cases lineItem runId matches' roster o with
      | error _ => rfl
      | ok item =>
          cases hx : lineItems runId matches' roster (rest ++ e :: after) <;>
            cases hy : lineItems runId matches' roster (rest ++ e' :: after) <;>
              rw [hx, hy] at ih <;> simp_all [Except.map, bind, Except.bind, pure, Except.pure]

omit [PyText] in
theorem pay_lineItem_rehours (runId : Uuid) (hw : w ∈ roster.employees) (hsalaried : isHourly w = false)
    (hmatch : ∃ m ∈ matches', m.submittedName = e.submittedName ∧ m.matchedEmployeeId = some w.id)
    (hnodup : (matches'.map NameMatchResult.submittedName).Nodup) (regular overtime : Option ℚ≥0) :
    (lineItem runId matches' roster e).map (Option.map pay) =
      (lineItem runId matches' roster (rehours e regular overtime)).map (Option.map pay) := by
  obtain ⟨m, hm, hname, hid⟩ := hmatch
  have hfound := matchByName_get? hnodup hm
  rw [hname] at hfound
  obtain ⟨v, hv, hvid, hrow⟩ := empById_get? roster (List.mem_map_of_mem hw)
  obtain rfl : v = w := List.inj_on_of_nodup_map roster.uniqueIds hv hw hvid
  have hpay := pay_paystub_rehours hsalaried e regular overtime e.contribution401kOverride
  simp only [lineItem, submittedName_rehours, contribution401kOverride_rehours, hfound, Option.bind_some,
    hid, hrow, calculate_eq]
  simp only [pay, Prod.mk.injEq] at hpay
  simp [pay, stamp, bind, Except.bind, pure, Except.pure, Except.map, hpay]

omit [PyText] in
theorem finalAction_eq_iff (a b : FinalAction) : a = b ↔ (a = .process ↔ b = .process) := by
  cases a <;> cases b <;> simp

omit [PyText] in
theorem open_eq_iff {p q r : Prop} : ((p ∧ ¬ q) ↔ (p ∧ ¬ r)) ↔ (q ↔ r) ∨ ¬ p := by
  tauto

/-- Regular and overtime hours of a salaried entry leave a first run as it is
exactly where the overtime question is asked about both versions or about
neither, or the rest of the email closes the gate. -/
theorem undisturbed_iff (runId : Uuid) (roster : Roster) (matches' : List NameMatchResult)
    (before after : List ExtractedEmployee) (e : ExtractedEmployee) (start end' : Option Date)
    (regular overtime : Option ℚ≥0) (w : Employee) (hw : w ∈ roster.employees)
    (hsalaried : isHourly w = false)
    (hmatch : ∃ m ∈ matches', m.submittedName = e.submittedName ∧ m.matchedEmployeeId = some w.id) :
    Undisturbed runId roster matches' ⟨runId, before ++ e :: after, start, end'⟩
        ⟨runId, before ++ rehours e regular overtime :: after, start, end'⟩ ↔
      (Lumped w e ↔ Lumped w (rehours e regular overtime)) ∨
        ¬ OthersPass roster matches' before e after := by
  have hpass : OthersPass roster matches' before (rehours e regular overtime) after ↔
      OthersPass roster matches' before e after := by
    constructor
    · exact fun h => ⟨by simpa using h.oneForOne, h.resolved, h.namesNodup, h.sameName, h.payable⟩
    · exact fun h => ⟨by simpa using h.oneForOne, h.resolved, h.namesNodup, h.sameName, h.payable⟩
  have hgate : ∀ o : ExtractedEmployee,
      (∃ m ∈ matches', m.submittedName = o.submittedName ∧ m.matchedEmployeeId = some w.id) →
        ((firstDecision ⟨runId, before ++ o :: after, start, end'⟩ roster matches').finalAction =
        .process ↔ OthersPass roster matches' before o after ∧ ¬ Lumped w o) :=
    fun _ ho => firstDecision_process_iff hw hsalaried ho
  have hbefore := hgate e hmatch
  have hafter := hgate (rehours e regular overtime) hmatch
  rw [hpass] at hafter
  have hdecision : (firstDecision ⟨runId, before ++ e :: after, start, end'⟩
    roster matches').finalAction =
      (firstDecision ⟨runId, before ++ rehours e regular overtime :: after, start, end'⟩ roster
        matches').finalAction ↔ (Lumped w e ↔ Lumped w (rehours e regular overtime)) ∨
          ¬ OthersPass roster matches' before e after := by
    rw [finalAction_eq_iff, hbefore, hafter, open_eq_iff]
  constructor
  · exact fun h => hdecision.mp h.decision
  · intro h
    have hsame := hdecision.mpr h
    refine ⟨hsame, ?_⟩
    by_cases hopen : (firstDecision ⟨runId, before ++ e :: after, start, end'⟩ roster
        matches').finalAction = .process
    · rw [firstPay_of_open hopen, firstPay_of_open (hsame ▸ hopen)]
      exact pay_lineItems (pay_lineItem_rehours runId hw hsalaried hmatch
        (hbefore.mp hopen).1.namesNodup regular overtime)
    · rw [firstPay_of_closed hopen, firstPay_of_closed (hsame ▸ hopen)]

end

section Salaried

attribute [local instance] asciiText

def salariedWorker (id : Uuid) (fullName : Str) : Employee :=
  { hourlyWorker id fullName [] with compensation := .salary 52000 }

def salariedRoster : Roster := ⟨[salariedWorker 1 "ann lee".toList], by decide⟩

def salariedMatches : List NameMatchResult :=
  [⟨"ann lee".toList, .resolved .exact 1, "exact match".toList⟩]

/-- Forty-five hours in place of forty hold a salaried week up. -/
theorem salaried_hours_gate :
    ¬ ∀ (runId : Uuid) (roster : Roster) (matches' : List NameMatchResult) (before after e start end' regular
        overtime w), w ∈ roster.employees → isHourly w = false →
      (∃ m ∈ matches', m.submittedName = e.submittedName ∧ m.matchedEmployeeId = some w.id) →
        Undisturbed runId roster matches' ⟨runId, before ++ e :: after, start, end'⟩
          ⟨runId, before ++ rehours e regular overtime :: after, start, end'⟩ := by
  intro h
  have hsame := (h 9 salariedRoster salariedMatches [] [] (reported "ann lee".toList (some 40) none)
    none none
    (some 45) none (salariedWorker 1 "ann lee".toList) (by decide) (by decide) (by decide)).decision
  revert hsame
  decide +kernel

/-- Forty hours in place of none. -/
theorem undisturbed_iff_forty :
    Undisturbed 9 salariedRoster salariedMatches
      ⟨9, [] ++ reported "ann lee".toList none none :: [], none, none⟩
      ⟨9, [] ++ rehours (reported "ann lee".toList none none) (some 40) none :: [], none, none⟩ :=
  (undisturbed_iff 9 salariedRoster salariedMatches [] [] (reported "ann lee".toList none none) none none
    (some 40) none (salariedWorker 1 "ann lee".toList) (by decide) (by decide) (by decide)).mpr
      (Or.inl (by simp [Lumped, periodHours, rehours, reported, ExtractedEmployee.setHours,
      salariedWorker, hourlyWorker]))

end Salaried

end PayrollAgent.SalariedHours
