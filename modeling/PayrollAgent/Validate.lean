import PayrollAgent.Decide

namespace PayrollAgent.Validate

open Lib Text

def isPaid (v : Option ℚ≥0) : Bool :=
  match v with
  | none => false
  | some q => 0 < q

/-- `{submitted_name: matched_employee_id}` over the resolved matches. -/
def nameToId (matches' : List NameMatchResult) : Dict Str Uuid :=
  Dict.ofList (matches'.filterMap fun m => m.matchedEmployeeId.map fun id => (m.submittedName, id))

/-- The employee of the first match of the name whose id is on the roster. -/
def matchedEmployee (submittedName : Str) (matches' : List NameMatchResult) (roster : Roster) :
    Option Employee :=
  matches'.findSome? fun m =>
    if m.submittedName = submittedName then
      m.matchedEmployeeId.bind fun id => roster.employees.find? (fun e => e.id = id)
    else none

def isHourly (e : Employee) : Bool :=
  match e.compensation with
  | .hourly _ => true
  | .salary _ => false

def idKeyed (extracted : Extracted) (matches' : List NameMatchResult) :
    Dict Uuid ExtractedEmployee :=
  Dict.ofList (extracted.employees.filterMap fun e =>
    ((nameToId matches').get? e.submittedName).map fun id => (id, e))

/-- The same person on both sides of a round, in id order. -/
def pairByEmployeeId (original resumed : Extracted) (priorMatches currentMatches :
    List NameMatchResult) : List (ExtractedEmployee × ExtractedEmployee) :=
  let idToOrig := idKeyed original priorMatches
  let idToResumed := idKeyed resumed currentMatches
  (idToOrig.keys.insertionSort (· ≤ ·)).filterMap fun id =>
    (idToOrig.get? id).bind fun orig => (idToResumed.get? id).map fun res => (orig, res)

def detectFieldRegression (original resumed : Extracted)
    (priorMatches : Option (List NameMatchResult)) (currentMatches : List NameMatchResult) :
    List RawFieldDrop :=
  match priorMatches with
  | none => []
  | some prior =>
      (pairByEmployeeId original resumed prior currentMatches).flatMap fun p =>
        HoursField.all.filterMap fun f =>
          match p.1.hours f with
          | some v =>
              if isPaid (some v) && !isPaid (p.2.hours f) then
                some ⟨p.2.submittedName, f, v, p.2.hours f⟩
              else none
          | none => none

def detectHoursChanges (original resumed : Extracted)
    (priorMatches : Option (List NameMatchResult)) (currentMatches : List NameMatchResult) :
    List HoursChange :=
  match priorMatches with
  | none => []
  | some prior =>
      (pairByEmployeeId original resumed prior currentMatches).flatMap fun p =>
        HoursField.all.filterMap fun f =>
          match p.1.hours f, p.2.hours f with
          | some v, some w =>
              if isPaid (some v) && isPaid (some w) && v ≠ w then
                some ⟨p.2.submittedName, f, v, w⟩
              else none
          | _, _ => none

/-- The issue path `{submitted_name}.{field}`. -/
def fieldPath (name : Str) (f : HoursField) : Str := name ++ '.' :: f.name

/-- A set of `(employee_id, field)` pairs. -/
abbrev Pairs := List (Uuid × HoursField)

section

variable [PyText]

def regressionMessage (d : RawFieldDrop) : Str :=
  "field regression: ".toList ++ d.field.name ++ " was ".toList ++
    PyText.strDecimal d.originalValue ++ ", now ".toList ++
    match d.resumedValue with
    | none => "absent".toList
    | some v => PyText.strDecimal v

/-- Promote the detected drops. A pair the client has already answered is
suppressed, an unresolved name is skipped. -/
def regressionIssues (matches' : List NameMatchResult) (resolvedDrops : Pairs)
    (drops : List RawFieldDrop) : List ValidationIssue :=
  drops.filterMap fun d =>
    match (nameToId matches').get? d.submittedName with
    | none => none
    | some id =>
        if (id, d.field) ∈ resolvedDrops then none
        else some ⟨fieldPath d.submittedName d.field, .fieldRegression, regressionMessage d⟩

def missingHoursIssue (matches' : List NameMatchResult) (roster : Roster) (e : ExtractedEmployee) :
    Option ValidationIssue :=
  if HoursField.all.any (fun f => isPaid (e.hours f)) then none
  else if ((matchedEmployee e.submittedName matches' roster).map isHourly) = some true then
    some ⟨fieldPath e.submittedName .regular, .missing,
      "hourly employee ".toList ++ PyText.repr e.submittedName ++
        " has no hours reported — required for the calc".toList⟩
  else none

def overThreshold (e : ExtractedEmployee) (threshold : ℚ≥0) : Option ℚ≥0 :=
  if isPaid e.hoursOvertime then none else e.hoursRegular.filter (threshold < ·)

def overtimeIssue (matches' : List NameMatchResult) (roster : Roster) (e : ExtractedEmployee) :
    Option ValidationIssue :=
  match (matchedEmployee e.submittedName matches' roster).map Employee.payPeriodsPerYear with
  | some .weekly =>
      (overThreshold e 40).map fun hours =>
        ⟨fieldPath e.submittedName .overtime, .missing,
          "weekly employee ".toList ++ PyText.repr e.submittedName ++ " has ".toList ++
            PyText.strDecimal hours ++ (" regular hours with no overtime — is that 40 regular " ++
              "+ overtime, or straight time?").toList⟩
  | some .biweekly =>
      (overThreshold e 80).map fun hours =>
        ⟨fieldPath e.submittedName .overtime, .missing,
          "biweekly employee ".toList ++ PyText.repr e.submittedName ++ " has ".toList ++
            PyText.strDecimal hours ++ (" regular hours with no overtime — >80 over 2 weeks " ++
              "guarantees overtime in at least one week; please provide the regular/overtime " ++
              "split. (Note: partial detection only for biweekly periods.)").toList⟩
  | _ => none

def validate (extracted : Extracted) (roster : Roster) (matches' : List NameMatchResult)
    (resolvedDrops : Pairs) (rawFieldDrops : List RawFieldDrop) : List ValidationIssue :=
  regressionIssues matches' resolvedDrops rawFieldDrops ++
    extracted.employees.filterMap (missingHoursIssue matches' roster) ++
    extracted.employees.filterMap (overtimeIssue matches' roster)

end

theorem isPaid_iff (v : Option ℚ≥0) : isPaid v = true ↔ ∃ q, v = some q ∧ 0 < q := by
  cases v <;> simp [isPaid]

@[simp] theorem isPaid_none : isPaid none = false := rfl

@[simp] theorem isPaid_zero : isPaid (some 0) = false := by
  simp [isPaid]

theorem nameToId_reconcileNames [PyText] {names : List Str} (roster : Roster)
    (overrides : Option ReconcileNames.Overrides) {name : Str} (h : name ∈ names) :
    (nameToId (ReconcileNames.reconcileNames names roster overrides)).get? name =
      (ReconcileNames.reconcileName roster (overrides.getD Dict.empty) name).matchedEmployeeId := by
  have hlist : (ReconcileNames.reconcileNames names roster overrides).filterMap
      (fun m => m.matchedEmployeeId.map fun id => (m.submittedName, id)) =
      names.filterMap fun n => ((ReconcileNames.reconcileName roster
        (overrides.getD Dict.empty) n).matchedEmployeeId).map fun id => (n, id) := by
    rw [ReconcileNames.reconcileNames, List.filterMap_map]
    congr 1
    funext n
    simp
  rw [nameToId, hlist, Dict.get?_ofList_filterMap names (fun n => n), List.map_id', if_pos h]

theorem idKeyed_mem {extracted : Extracted} {matches' : List NameMatchResult} {id : Uuid}
    {e : ExtractedEmployee} (h : (idKeyed extracted matches').get? id = some e) :
    e ∈ extracted.employees ∧ (nameToId matches').get? e.submittedName = some id := by
  have hm := Dict.get?_ofList_mem h
  obtain ⟨e', hmem, he⟩ := List.mem_filterMap.mp hm
  obtain ⟨i, hi, hp⟩ := Option.map_eq_some_iff.mp he
  obtain ⟨rfl, rfl⟩ := Prod.mk.inj hp
  exact ⟨hmem, hi⟩

theorem mem_pairByEmployeeId {original resumed : Extracted} {prior current : List NameMatchResult}
    {id : Uuid} {orig res : ExtractedEmployee}
    (ho : (idKeyed original prior).get? id = some orig)
    (hr : (idKeyed resumed current).get? id = some res) :
    (orig, res) ∈ pairByEmployeeId original resumed prior current := by
  refine List.mem_filterMap.mpr ⟨id, ?_, ?_⟩
  · rw [List.mem_insertionSort, Dict.mem_keys_iff]
    exact ⟨orig, ho⟩
  · rw [ho, hr]
    rfl

theorem mem_detectFieldRegression {original resumed : Extracted}
    {prior current : List NameMatchResult} {id : Uuid} {orig res : ExtractedEmployee}
    {f : HoursField} {v : ℚ≥0} (ho : (idKeyed original prior).get? id = some orig)
    (hr : (idKeyed resumed current).get? id = some res) (hv : orig.hours f = some v) (hpaid : 0 < v)
    (hgone : isPaid (res.hours f) = false) :
    ⟨res.submittedName, f, v, res.hours f⟩ ∈
      detectFieldRegression original resumed (some prior) current := by
  refine List.mem_flatMap.mpr ⟨(orig, res), mem_pairByEmployeeId ho hr, ?_⟩
  refine List.mem_filterMap.mpr ⟨f, f.mem_all, ?_⟩
  have hwas : isPaid (some v) = true := by simp [isPaid, hpaid]
  simp [hv, hwas, hgone]

theorem issue_mem_regressionIssues [PyText] {matches' : List NameMatchResult} {resolvedDrops : Pairs}
    {drops : List RawFieldDrop} {d : RawFieldDrop} {id : Uuid} (hd : d ∈ drops)
    (hid : (nameToId matches').get? d.submittedName = some id)
    (hopen : (id, d.field) ∉ resolvedDrops) :
    ⟨fieldPath d.submittedName d.field, .fieldRegression, regressionMessage d⟩ ∈
      regressionIssues matches' resolvedDrops drops := by
  refine List.mem_filterMap.mpr ⟨d, hd, ?_⟩
  rw [hid]
  exact if_neg hopen

theorem exists_regressionIssue [PyText] {matches' : List NameMatchResult} {resolvedDrops : Pairs}
    {drops : List RawFieldDrop} {d : RawFieldDrop} {id : Uuid} (hd : d ∈ drops)
    (hid : (nameToId matches').get? d.submittedName = some id)
    (hopen : (id, d.field) ∉ resolvedDrops) :
    ∃ i ∈ regressionIssues matches' resolvedDrops drops, i.issueType = .fieldRegression :=
  ⟨_, issue_mem_regressionIssues hd hid hopen, rfl⟩

section

variable [PyText] {matches' : List NameMatchResult} {roster : Roster} {e : ExtractedEmployee}
  {i : ValidationIssue}

theorem issueType_missingHoursIssue (h : missingHoursIssue matches' roster e = some i) :
    i.issueType = .missing := by
  unfold missingHoursIssue at h
  split at h
  · cases h
  · split at h
    · cases h
      rfl
    · cases h

theorem issueType_overtimeIssue (h : overtimeIssue matches' roster e = some i) :
    i.issueType = .missing := by
  unfold overtimeIssue at h
  split at h
  · obtain ⟨hours, -, rfl⟩ := Option.map_eq_some_iff.mp h
    rfl
  · obtain ⟨hours, -, rfl⟩ := Option.map_eq_some_iff.mp h
    rfl
  · cases h

theorem mem_regressionIssues {extracted : Extracted} {resolvedDrops : Pairs} {drops : List RawFieldDrop}
    (h : i ∈ validate extracted roster matches' resolvedDrops drops)
    (htype : i.issueType = .fieldRegression) : i ∈ regressionIssues matches' resolvedDrops drops := by
  obtain h | hovertime := List.mem_append.mp h
  · obtain hdrop | hmissing := List.mem_append.mp h
    · exact hdrop
    · obtain ⟨e, -, he⟩ := List.mem_filterMap.mp hmissing
      rw [issueType_missingHoursIssue he] at htype
      cases htype
  · obtain ⟨e, -, he⟩ := List.mem_filterMap.mp hovertime
    rw [issueType_overtimeIssue he] at htype
    cases htype

/-- A regression issue speaks of a drop of a mapped name that is unanswered. -/
theorem exists_drop_of_issue {resolvedDrops : Pairs} {drops : List RawFieldDrop}
    (h : i ∈ regressionIssues matches' resolvedDrops drops) :
    ∃ d ∈ drops, ∃ id, (nameToId matches').get? d.submittedName = some id ∧
      (id, d.field) ∉ resolvedDrops ∧ i.field = fieldPath d.submittedName d.field := by
  obtain ⟨d, hd, hi⟩ := List.mem_filterMap.mp h
  cases hid : (nameToId matches').get? d.submittedName with
  | none => simp [hid] at hi
  | some id =>
      simp only [hid] at hi
      by_cases hanswered : (id, d.field) ∈ resolvedDrops
      · rw [if_pos hanswered] at hi
        cases hi
      · rw [if_neg hanswered] at hi
        cases hi
        exact ⟨d, hd, id, hid, hanswered, rfl⟩

end

end PayrollAgent.Validate
