import PayrollAgent.Resume

namespace PayrollAgent.HoursVisibility

open Lib Validate Decide ReconcileNames RunStages Resume

/-- What `_run_stages` compares across a round, and the backfilled extraction
it goes on with. -/
structure Round where
  roster : Roster
  snapshot : Extracted
  resumed : Extracted
  backfilled : Extracted
  priorMatches : List NameMatchResult
  currentMatches : List NameMatchResult
  suppressed : Pairs

def Round.keptBefore (x : Round) (id : Uuid) : Option ExtractedEmployee :=
  (idKeyed x.snapshot x.priorMatches).get? id

def Round.keptAfter (x : Round) (id : Uuid) : Option ExtractedEmployee :=
  (idKeyed x.resumed x.currentMatches).get? id

def Round.paidAfter (x : Round) (id : Uuid) (f : HoursField) : Option ℚ≥0 :=
  (x.keptAfter id).bind fun r => r.hours f

def Round.drops (x : Round) : List RawFieldDrop :=
  detectFieldRegression x.snapshot x.resumed (some x.priorMatches) x.currentMatches

def Round.hoursChanges (x : Round) : List HoursChange :=
  detectHoursChanges x.snapshot x.resumed (some x.priorMatches) x.currentMatches

section

variable [PyText]

def Round.issues (x : Round) : List ValidationIssue :=
  validate x.backfilled x.roster x.currentMatches x.suppressed x.drops

def Round.decision (x : Round) : Decision := decide x.backfilled x.currentMatches x.issues

/-- The snapshot pays the employee `v`, the resumed extraction something else
or nothing, and the client has not answered for it. -/
structure Change (x : Round) (s : ExtractedEmployee) (id : Uuid) (f : HoursField) (v : ℚ≥0) : Prop where
  entry : s ∈ x.snapshot.employees
  resolves : (nameToId x.priorMatches).get? s.submittedName = some id
  hours : s.hours f = some v
  paid : 0 < v
  changed : x.paidAfter id f ≠ some v
  unanswered : (id, f) ∉ x.suppressed

def Gated (x : Round) (id : Uuid) (f : HoursField) : Prop :=
  ∃ i ∈ x.issues, i.issueType = .fieldRegression ∧
    (∃ name, (nameToId x.currentMatches).get? name = some id ∧ i.field = fieldPath name f) ∧
      x.decision.finalAction = .requestClarification

def Recorded (x : Round) (id : Uuid) (f : HoursField) (v : ℚ≥0) : Prop :=
  ∃ c ∈ x.hoursChanges, (nameToId x.currentMatches).get? c.submittedName = some id ∧ c.field = f ∧
    c.originalValue = v ∧ x.paidAfter id f = some c.resumedValue

/-- The pairing keeps an entry of the employee on both sides, and the one of
the snapshot pays the field, with the same value where the resumed one does. -/
def Paired (x : Round) (id : Uuid) (f : HoursField) (v : ℚ≥0) : Prop :=
  ∃ o r, x.keptBefore id = some o ∧ x.keptAfter id = some r ∧ isPaid (o.hours f) = true ∧
    (isPaid (r.hours f) = true → o.hours f = some v)

omit [PyText] in
theorem exists_of_mem_pair {original resumed : Extracted} {prior current : List NameMatchResult}
    {o r : ExtractedEmployee} (h : (o, r) ∈ pairByEmployeeId original resumed prior current) :
    ∃ id, (idKeyed original prior).get? id = some o ∧ (idKeyed resumed current).get? id = some r := by
  obtain ⟨id, -, hid⟩ := List.mem_filterMap.mp h
  obtain ⟨o', ho, hmap⟩ := Option.bind_eq_some_iff.mp hid
  obtain ⟨r', hr, hpair⟩ := Option.map_eq_some_iff.mp hmap
  obtain ⟨rfl, rfl⟩ := Prod.mk.inj hpair
  exact ⟨id, ho, hr⟩

omit [PyText] in
theorem exists_of_mem_drops {x : Round} {d : RawFieldDrop} (h : d ∈ x.drops) :
    ∃ id o r, x.keptBefore id = some o ∧ x.keptAfter id = some r ∧ d.submittedName = r.submittedName ∧
      isPaid (o.hours d.field) = true ∧ isPaid (r.hours d.field) = false := by
  obtain ⟨⟨o, r⟩, hpair, hd⟩ := List.mem_flatMap.mp h
  obtain ⟨id, ho, hr⟩ := exists_of_mem_pair hpair
  obtain ⟨f, -, hd⟩ := List.mem_filterMap.mp hd
  refine ⟨id, o, r, ho, hr, ?_⟩
  cases hv : o.hours f with
  | none => simp [hv] at hd
  | some v =>
      simp only [hv, Option.ite_none_right_eq_some, Bool.and_eq_true, Bool.not_eq_true'] at hd
      obtain ⟨⟨hpaid, hgone⟩, hd⟩ := hd
      obtain rfl := Option.some.inj hd
      exact ⟨rfl, by rw [hv, hpaid], hgone⟩

omit [PyText] in
theorem exists_of_mem_hoursChanges {x : Round} {c : HoursChange} (h : c ∈ x.hoursChanges) :
    ∃ id o r, x.keptBefore id = some o ∧ x.keptAfter id = some r ∧ c.submittedName = r.submittedName ∧
      o.hours c.field = some c.originalValue ∧ isPaid (o.hours c.field) = true := by
  obtain ⟨⟨o, r⟩, hpair, hc⟩ := List.mem_flatMap.mp h
  obtain ⟨id, ho, hr⟩ := exists_of_mem_pair hpair
  obtain ⟨f, -, hc⟩ := List.mem_filterMap.mp hc
  refine ⟨id, o, r, ho, hr, ?_⟩
  cases hv : o.hours f with
  | none => simp [hv] at hc
  | some v =>
      cases hw : r.hours f with
      | none => simp [hv, hw] at hc
      | some w =>
          simp only [hv, hw, Option.ite_none_right_eq_some, Bool.and_eq_true] at hc
          obtain ⟨⟨⟨hpaid, -⟩, -⟩, hc⟩ := hc
          obtain rfl := Option.some.inj hc
          exact ⟨rfl, hv, by rw [hv, hpaid]⟩

omit [PyText] in
theorem mem_hoursChanges {x : Round} {id : Uuid} {o r : ExtractedEmployee} {f : HoursField} {v w : ℚ≥0}
    (ho : x.keptBefore id = some o) (hr : x.keptAfter id = some r) (hv : o.hours f = some v)
    (hw : r.hours f = some w) (hvpaid : 0 < v) (hwpaid : 0 < w) (hne : v ≠ w) :
    ⟨r.submittedName, f, v, w⟩ ∈ x.hoursChanges := by
  refine List.mem_flatMap.mpr ⟨(o, r), mem_pairByEmployeeId ho hr, ?_⟩
  refine List.mem_filterMap.mpr ⟨f, f.mem_all, ?_⟩
  simp [hv, hw, isPaid, hvpaid, hwpaid, hne]

theorem decision_of_issue {x : Round} {i : ValidationIssue} (h : i ∈ x.issues)
    (htype : i.issueType = .fieldRegression) : x.decision.finalAction = .requestClarification := by
  cases hact : x.decision.finalAction with
  | process => exact absurd htype ((clean_of_process hact).noRegression i h)
  | requestClarification => rfl

/-- A change is asked about or shown exactly when the pairing sees it. -/
theorem change_reported_iff {x : Round} {s : ExtractedEmployee} {id : Uuid} {f : HoursField} {v : ℚ≥0}
    (h : Change x s id f v) : Gated x id f ∨ Recorded x id f v ↔ Paired x id f v := by
  constructor
  · rintro (⟨i, hi, htype, ⟨name, hname, hfield⟩, -⟩ | ⟨c, hc, hname, rfl, rfl, hafter⟩)
    · obtain ⟨d, hd, -, -, -, hdrop⟩ := exists_drop_of_issue (mem_regressionIssues hi htype)
      obtain ⟨rfl, rfl⟩ := fieldPath_inj (hfield.symm.trans hdrop)
      obtain ⟨id', o, r, ho, hr, hsame, hpaid, hgone⟩ := exists_of_mem_drops hd
      obtain rfl : id' = id := by
        rw [hsame, (idKeyed_mem hr).2] at hname
        exact Option.some.inj hname
      refine ⟨o, r, ho, hr, hpaid, fun hkept => ?_⟩
      rw [hgone] at hkept
      cases hkept
    · obtain ⟨id', o, r, ho, hr, hsame, hv, hpaid⟩ := exists_of_mem_hoursChanges hc
      obtain rfl : id' = id := by
        rw [hsame, (idKeyed_mem hr).2] at hname
        exact Option.some.inj hname
      exact ⟨o, r, ho, hr, hpaid, fun _ => hv⟩
  · rintro ⟨o, r, ho, hr, hpaid, hsame⟩
    have hname := (idKeyed_mem hr).2
    have hafter : x.paidAfter id f = r.hours f := by rw [Round.paidAfter, hr, Option.bind_some]
    by_cases hkept : isPaid (r.hours f) = true
    · right
      obtain ⟨w, hw, hwpaid⟩ := (isPaid_iff _).mp hkept
      have hne : v ≠ w := by
        rintro rfl
        exact h.changed (hafter.trans hw)
      exact ⟨_, mem_hoursChanges ho hr (hsame hkept) hw h.paid hwpaid hne, hname, rfl, rfl,
        hafter.trans hw⟩
    · left
      obtain ⟨u, hu, hupaid⟩ := (isPaid_iff _).mp hpaid
      have hdrop := mem_detectFieldRegression ho hr hu hupaid (Bool.eq_false_iff.mpr hkept)
      have hissue := issue_mem_regressionIssues hdrop hname h.unanswered
      have hmem := List.mem_append_left (x.backfilled.employees.filterMap
        (overtimeIssue x.currentMatches x.roster)) (List.mem_append_left
          (x.backfilled.employees.filterMap (missingHoursIssue x.currentMatches x.roster)) hissue)
      exact ⟨_, hmem, rfl, ⟨_, hname, rfl⟩, decision_of_issue hmem rfl⟩

omit [PyText] in
/-- Where the entry is the one the pairing keeps, the change goes unnoticed
only if the employee has no entry in the resumed extraction. -/
theorem paired_iff_of_kept {x : Round} {s : ExtractedEmployee} {id : Uuid} {f : HoursField} {v : ℚ≥0}
    (h : Change x s id f v) (hkept : x.keptBefore id = some s) :
    Paired x id f v ↔ (x.keptAfter id).isSome = true := by
  constructor
  · rintro ⟨-, r, -, hr, -⟩
    exact Option.isSome_of_eq_some hr
  · intro hsome
    obtain ⟨r, hr⟩ := Option.isSome_iff_exists.mp hsome
    exact ⟨s, r, hkept, hr, (isPaid_iff _).mpr ⟨v, h.hours, h.paid⟩, fun _ => h.hours⟩

/-- The round `_run_stages` compares for its validator and its approval page. -/
def stagesRound (roster : Roster) (snapshot extracted : Extracted) (prior : List NameMatchResult)
    (args : StageArgs) : Round where
  roster := roster
  snapshot := snapshot
  resumed := extracted
  backfilled := stageExtracted roster extracted args
  priorMatches := prior
  currentMatches := stageMatches roster extracted args
  suppressed := args.suppressDetection

theorem stagesRound_eq {roster : Roster} {snapshot extracted : Extracted}
    {prior : List NameMatchResult} {args : StageArgs} (hprior : args.prior = some snapshot)
    (hmatches : stagePriorMatches roster extracted args = some prior) :
    stageIssues roster extracted args = (stagesRound roster snapshot extracted prior args).issues ∧
      stageHoursChanges roster extracted args =
        (stagesRound roster snapshot extracted prior args).hoursChanges ∧
      stageDecision roster extracted args =
        (stagesRound roster snapshot extracted prior args).decision := by
  have hdrops : stageDrops roster extracted args =
      (stagesRound roster snapshot extracted prior args).drops := by
    simp only [stageDrops, hprior, hmatches]
    rfl
  have hissues : stageIssues roster extracted args =
      (stagesRound roster snapshot extracted prior args).issues := by
    rw [stageIssues, hdrops]
    rfl
  refine ⟨hissues, ?_, ?_⟩
  · simp only [stageHoursChanges, hprior, hmatches]
    rfl
  · rw [stageDecision, hissues]
    rfl

end

section Reports

attribute [local instance] asciiText

def twoWorkers : Roster :=
  ⟨[hourlyWorker 1 "ann lee".toList [], hourlyWorker 2 "bob ray".toList []], by decide⟩

/-- The first email pays both, and the combined body of the next round keeps
the entries of `resumed`. -/
def roundOf (resumed : List ExtractedEmployee) : Round :=
  let snapshot : Extracted :=
    ⟨9, [reported "ann lee".toList (whole 40) none, reported "bob ray".toList (whole 30) none],
      none, none⟩
  let extracted : Extracted := ⟨9, resumed, none, none⟩
  stagesRound twoWorkers snapshot extracted (reconcileNames snapshot.names twoWorkers none)
    { StageArgs.first with
      prior := some snapshot
      priorMatches := some (reconcileNames snapshot.names twoWorkers none) }

/-- Bob is gone from the reply, the gate is open and no change is shown. -/
theorem dropped_employee_unseen :
    ¬ ∀ (x : Round) s id f v, Change x s id f v →
      x.decision.finalAction = .requestClarification ∨ Recorded x id f v := by
  intro hall
  have hchange : Change (roundOf [reported "ann lee".toList (some 40) none])
      (reported "bob ray".toList (some 30) none) 2 .regular 30 :=
    ⟨by decide +kernel, by decide +kernel, rfl, by decide, by decide +kernel, by decide +kernel⟩
  obtain hgated | ⟨c, hc, -⟩ := hall _ _ _ _ _ hchange
  · have hopen : (roundOf [reported "ann lee".toList (some 40) none]).decision.finalAction =
      .process := by
      decide +kernel
    rw [hopen] at hgated
    cases hgated
  · have hnone : (roundOf [reported "ann lee".toList (some 40) none]).hoursChanges = [] := by
      decide +kernel
    rw [hnone] at hc
    cases hc

/-- Bob is in the reply with fewer hours. -/
theorem change_reported_changed :
    Gated (roundOf [reported "ann lee".toList (some 40) none, reported "bob ray".toList (some 20) none]) 2
        .regular ∨
      Recorded (roundOf [reported "ann lee".toList (some 40) none,
        reported "bob ray".toList (some 20) none]) 2 .regular 30 :=
  (change_reported_iff (s := reported "bob ray".toList (some 30) none)
    ⟨by decide +kernel, by decide +kernel, rfl, by decide, by decide +kernel, by decide +kernel⟩).mpr
      ((paired_iff_of_kept (s := reported "bob ray".toList (some 30) none)
        ⟨by decide +kernel, by decide +kernel, rfl, by decide, by decide +kernel, by decide +kernel⟩
          (by decide +kernel)).mpr (by decide +kernel))

end Reports

end PayrollAgent.HoursVisibility
