import PayrollAgent.ReconcileNames
import Mathlib.Data.List.Induction

namespace PayrollAgent.Decide

open Lib Text

def addName (names : List Str) (name : Str) : List Str :=
  if name ∈ names then names else names ++ [name]

def byEmployee (matches' : List NameMatchResult) : Dict Uuid (List Str) :=
  matches'.foldl (fun d m =>
    match m.matchedEmployeeId with
    | none => d
    | some id => d.set id (addName ((d.get? id).getD []) m.submittedName)) Dict.empty

def collisionReason (names : List Str) : Str :=
  "two submitted names resolve to one employee: ".toList ++ join " + ".toList (sorted names)

def collisionReasons (matches' : List NameMatchResult) : List Str :=
  ((byEmployee matches').values.filter (fun names => 1 < names.length)).map collisionReason

def duplicateReasons (seen flagged : List Str) : List NameMatchResult → List Str
  | [] => []
  | m :: rest =>
      if m.submittedName ∈ seen ∧ m.submittedName ∉ flagged then
        ("duplicate submitted name: ".toList ++ m.submittedName) ::
          duplicateReasons (m.submittedName :: seen) (m.submittedName :: flagged) rest
      else duplicateReasons (m.submittedName :: seen) flagged rest

def checkOneToOne (matches' : List NameMatchResult) : List Str :=
  collisionReasons matches' ++ duplicateReasons [] [] matches'

def unresolvedNames (matches' : List NameMatchResult) : List Str :=
  matches'.foldl (fun names m => if m.resolved then names else addName names m.submittedName) []

def issueFields (issues : List ValidationIssue) (t : IssueType) : List Str :=
  (issues.filter (fun i => i.issueType = t)).map ValidationIssue.field

/-- Every rule only ever adds a reason, in the order of the source. -/
def gateReasons (extracted : Extracted) (matches' : List NameMatchResult)
    (issues : List ValidationIssue) : List Str :=
  (if extracted.employees = [] then ["no employees could be extracted from the email".toList]
    else []) ++
  (if extracted.employees ≠ [] ∧
      sorted extracted.names ≠ sorted (matches'.map NameMatchResult.submittedName) then
    ["resolution records do not match the extracted employees one-for-one".toList] else []) ++
  (matches'.filter (fun m => !m.resolved)).map
    (fun m => m.submittedName ++ ": unresolved (no roster match)".toList) ++
  (issueFields issues .missing).map (fun f => "missing required field: ".toList ++ f) ++
  (issueFields issues .fieldRegression).map (fun f => "field regression: ".toList ++ f) ++
  checkOneToOne matches'

def decide (extracted : Extracted) (matches' : List NameMatchResult)
    (issues : List ValidationIssue) : Decision where
  finalAction :=
    if gateReasons extracted matches' issues = [] then .process else .requestClarification
  gateReasons := gateReasons extracted matches' issues
  unresolvedNames := unresolvedNames matches'
  missingFields := issueFields issues .missing
  resolutions := matches'

theorem mem_addName (names : List Str) (name other : Str) :
    other ∈ addName names name ↔ other ∈ names ∨ other = name := by
  unfold addName
  split
  case isTrue h =>
      constructor
      · exact Or.inl
      · rintro (hm | rfl)
        · exact hm
        · exact h
  case isFalse h => simp

theorem mem_unresolvedNames (matches' : List NameMatchResult) (name : Str) :
    name ∈ unresolvedNames matches' ↔ ∃ m ∈ matches', m.resolved = false ∧ m.submittedName = name := by
  induction matches' using List.reverseRec with
  | nil => simp [unresolvedNames]
  | append_singleton rest last ih =>
      rw [unresolvedNames, List.foldl_append, ← unresolvedNames, List.foldl_cons, List.foldl_nil]
      simp only [List.mem_append, List.mem_singleton, or_and_right, exists_or, exists_eq_left, ← ih]
      cases last.resolved with
      | true => simp
      | false => simp [mem_addName, eq_comm]

theorem byEmployee_get? (matches' : List NameMatchResult) (m : NameMatchResult)
    (hm : m ∈ matches') (id : Uuid) (hid : m.matchedEmployeeId = some id) :
    ∃ names, (byEmployee matches').get? id = some names ∧ m.submittedName ∈ names := by
  induction matches' using List.reverseRec with
  | nil => cases hm
  | append_singleton rest last ih =>
      rw [byEmployee, List.foldl_append]
      change ∃ names, (match last.matchedEmployeeId with
        | none => byEmployee rest
        | some id => (byEmployee rest).set id
            (addName (((byEmployee rest).get? id).getD []) last.submittedName)).get? id = some names ∧ _
      rcases List.mem_append.mp hm with hrest | hlast
      · obtain ⟨names, hget, hmem⟩ := ih hrest
        cases hl : last.matchedEmployeeId with
        | none => exact ⟨names, hget, hmem⟩
        | some lid =>
            by_cases he : id = lid
            · subst he
              refine ⟨_, Dict.get?_set_self _ _ _, ?_⟩
              rw [hget, mem_addName]
              exact Or.inl hmem
            · exact ⟨names, by rw [Dict.get?_set_of_ne _ he, hget], hmem⟩
      · obtain rfl := List.mem_singleton.mp hlast
        rw [hid]
        exact ⟨_, Dict.get?_set_self _ _ _, (mem_addName _ _ _).mpr (Or.inr rfl)⟩

theorem same_name_of_collisionReasons {matches' : List NameMatchResult}
    (h : collisionReasons matches' = []) {m n : NameMatchResult} (hm : m ∈ matches')
    (hn : n ∈ matches') {id : Uuid} (hmid : m.matchedEmployeeId = some id)
    (hnid : n.matchedEmployeeId = some id) : m.submittedName = n.submittedName := by
  obtain ⟨names, hget, hmem⟩ := byEmployee_get? matches' m hm id hmid
  obtain ⟨names', hget', hnem⟩ := byEmployee_get? matches' n hn id hnid
  obtain rfl : names = names' := Option.some.inj (hget.symm.trans hget')
  have hvalue : names ∈ (byEmployee matches').values := (Dict.mem_values_iff _ _).mpr ⟨id, hget⟩
  rw [collisionReasons, List.map_eq_nil_iff, List.filter_eq_nil_iff] at h
  have hshort : names.length ≤ 1 := by
    have := h names hvalue
    simpa using this
  match names, hshort, hmem, hnem with
  | [name], _, hmem, hnem => rw [List.mem_singleton.mp hmem, List.mem_singleton.mp hnem]

theorem nodup_of_duplicateReasons {matches' : List NameMatchResult} {seen : List Str}
    (h : duplicateReasons seen [] matches' = []) :
    (matches'.map NameMatchResult.submittedName).Nodup ∧
      ∀ name ∈ seen, name ∉ matches'.map NameMatchResult.submittedName := by
  induction matches' generalizing seen with
  | nil => simp
  | cons m rest ih =>
      unfold duplicateReasons at h
      split at h
      case isTrue => cases h
      case isFalse hfresh =>
          have hunseen : m.submittedName ∉ seen := by simpa using hfresh
          obtain ⟨hnodup, hseen⟩ := ih h
          refine ⟨?_, ?_⟩
          · rw [List.map_cons, List.nodup_cons]
            exact ⟨hseen _ (List.mem_cons_self ..), hnodup⟩
          · intro name hname
            rw [List.map_cons, List.mem_cons, not_or]
            exact ⟨fun he => hunseen (he ▸ hname), hseen name (List.mem_cons_of_mem _ hname)⟩

structure Clean (extracted : Extracted) (matches' : List NameMatchResult)
    (issues : List ValidationIssue) : Prop where
  employees : extracted.employees ≠ []
  oneForOne : (matches'.map NameMatchResult.submittedName).Perm extracted.names
  resolved : ∀ m ∈ matches', m.resolved = true
  noMissing : ∀ i ∈ issues, i.issueType ≠ .missing
  noRegression : ∀ i ∈ issues, i.issueType ≠ .fieldRegression
  namesNodup : (matches'.map NameMatchResult.submittedName).Nodup
  sameName : ∀ m ∈ matches', ∀ n ∈ matches', ∀ id, m.matchedEmployeeId = some id →
    n.matchedEmployeeId = some id → m.submittedName = n.submittedName

theorem issueFields_eq_nil_iff (issues : List ValidationIssue) (t : IssueType) :
    issueFields issues t = [] ↔ ∀ i ∈ issues, i.issueType ≠ t := by
  simp [issueFields, List.filter_eq_nil_iff]

@[simp] theorem decide_finalAction_eq_process {extracted : Extracted}
    {matches' : List NameMatchResult} {issues : List ValidationIssue} :
    (decide extracted matches' issues).finalAction = .process ↔
      gateReasons extracted matches' issues = [] := by
  simp only [decide]
  split <;> simp_all

theorem clean_of_process {extracted : Extracted} {matches' : List NameMatchResult}
    {issues : List ValidationIssue}
    (h : (decide extracted matches' issues).finalAction = .process) :
    Clean extracted matches' issues := by
  rw [decide_finalAction_eq_process] at h
  simp only [gateReasons, checkOneToOne, List.append_eq_nil_iff, List.map_eq_nil_iff,
    issueFields_eq_nil_iff, ite_eq_right_iff, List.cons_ne_nil, imp_false] at h
  obtain ⟨⟨⟨⟨⟨hemployees, hnames⟩, hresolved⟩, hmissing⟩, hregression⟩, hcollision, hduplicate⟩ := h
  have hsorted : sorted extracted.names = sorted (matches'.map NameMatchResult.submittedName) :=
    not_not.mp fun hne => hnames ⟨hemployees, hne⟩
  refine ⟨hemployees, (perm_of_sorted_eq hsorted).symm, ?_, hmissing, hregression,
    (nodup_of_duplicateReasons hduplicate).1, ?_⟩
  · intro m hm
    have := List.filter_eq_nil_iff.mp hresolved m hm
    simpa using this
  · intro m hm n hn id hmid hnid
    exact same_name_of_collisionReasons hcollision hm hn hmid hnid

theorem nodup_addName {names : List Str} (h : names.Nodup) (name : Str) : (addName names name).Nodup := by
  unfold addName
  split
  case isTrue => exact h
  case isFalse hfresh =>
      rw [List.nodup_append]
      refine ⟨h, List.nodup_singleton name, ?_⟩
      intro a ha b hb he
      rw [he, List.mem_singleton.mp hb] at ha
      exact hfresh ha

theorem byEmployee_names (matches' : List NameMatchResult) {id : Uuid} {names : List Str}
    (h : (byEmployee matches').get? id = some names) :
    names.Nodup ∧ ∀ name ∈ names, ∃ m ∈ matches', m.matchedEmployeeId = some id ∧
      m.submittedName = name := by
  induction matches' using List.reverseRec generalizing names with
  | nil => cases h
  | append_singleton rest last ih =>
      rw [byEmployee, List.foldl_append] at h
      change (match last.matchedEmployeeId with
        | none => byEmployee rest
        | some id => (byEmployee rest).set id
            (addName (((byEmployee rest).get? id).getD []) last.submittedName)).get? id = some names at h
      have hold : ∀ {old : List Str}, (byEmployee rest).get? id = some old → old.Nodup ∧
          ∀ name ∈ old, ∃ m ∈ rest ++ [last], m.matchedEmployeeId = some id ∧ m.submittedName = name := by
        intro old hget
        obtain ⟨hnodup, hmem⟩ := ih hget
        refine ⟨hnodup, fun name hname => ?_⟩
        obtain ⟨m, hm, hmatch⟩ := hmem name hname
        exact ⟨m, List.mem_append_left _ hm, hmatch⟩
      cases hl : last.matchedEmployeeId with
      | none =>
          rw [hl] at h
          exact hold h
      | some lid =>
          rw [hl] at h
          by_cases he : id = lid
          · subst he
            rw [Dict.get?_set_self] at h
            obtain rfl := Option.some.inj h
            have hlast : ∃ m ∈ rest ++ [last], m.matchedEmployeeId = some id ∧
                m.submittedName = last.submittedName := ⟨last, by simp, hl, rfl⟩
            cases hget : (byEmployee rest).get? id with
            | none =>
                refine ⟨nodup_addName List.nodup_nil _, fun name hname => ?_⟩
                obtain hname | rfl := (mem_addName _ _ _).mp hname
                · cases hname
                · exact hlast
            | some old =>
                obtain ⟨hnodup, hmem⟩ := hold hget
                refine ⟨nodup_addName hnodup _, fun name hname => ?_⟩
                obtain hname | rfl := (mem_addName _ _ _).mp hname
                · exact hmem name hname
                · exact hlast
          · rw [Dict.get?_set_of_ne _ he] at h
            exact hold h

theorem collisionReasons_of_sameName {matches' : List NameMatchResult}
    (h : ∀ m ∈ matches', ∀ n ∈ matches', ∀ id, m.matchedEmployeeId = some id →
      n.matchedEmployeeId = some id → m.submittedName = n.submittedName) :
    collisionReasons matches' = [] := by
  rw [collisionReasons, List.map_eq_nil_iff, List.filter_eq_nil_iff]
  intro names hnames
  obtain ⟨id, hget⟩ := (Dict.mem_values_iff _ _).mp hnames
  obtain ⟨hnodup, hmem⟩ := byEmployee_names matches' hget
  match names, hnodup, hmem with
  | [], _, _ => simp
  | [_], _, _ => simp
  | a :: b :: rest, hnodup, hmem =>
      obtain ⟨m, hm, hmid, rfl⟩ := hmem a (by simp)
      obtain ⟨n, hn, hnid, rfl⟩ := hmem b (by simp)
      have hsame := h m hm n hn id hmid hnid
      simp [hsame] at hnodup

theorem duplicateReasons_of_nodup {matches' : List NameMatchResult} {seen flagged : List Str}
    (h : (matches'.map NameMatchResult.submittedName).Nodup)
    (hseen : ∀ name ∈ seen, name ∉ matches'.map NameMatchResult.submittedName) :
    duplicateReasons seen flagged matches' = [] := by
  induction matches' generalizing seen with
  | nil => rfl
  | cons m rest ih =>
      rw [List.map_cons, List.nodup_cons] at h
      have hfresh : m.submittedName ∉ seen := fun hmem => hseen _ hmem (by simp)
      rw [duplicateReasons, if_neg fun hboth => hfresh hboth.1]
      apply ih h.2
      intro name hname
      obtain rfl | hname := List.mem_cons.mp hname
      · exact h.1
      · intro hmem
        exact hseen name hname (by simp only [List.map_cons, List.mem_cons]; exact Or.inr hmem)

theorem process_iff_clean {extracted : Extracted} {matches' : List NameMatchResult}
    {issues : List ValidationIssue} :
    (decide extracted matches' issues).finalAction = .process ↔ Clean extracted matches' issues := by
  constructor
  · exact clean_of_process
  · intro h
    have hnames : sorted extracted.names = sorted (matches'.map NameMatchResult.submittedName) :=
      sorted_eq_of_perm h.oneForOne.symm
    have hresolved : matches'.filter (fun m => !m.resolved) = [] := by
      rw [List.filter_eq_nil_iff]
      intro m hm
      simp [h.resolved m hm]
    rw [decide_finalAction_eq_process, gateReasons, checkOneToOne,
      collisionReasons_of_sameName h.sameName, duplicateReasons_of_nodup h.namesNodup (by simp),
      (issueFields_eq_nil_iff _ _).mpr h.noMissing, (issueFields_eq_nil_iff _ _).mpr h.noRegression,
      hresolved]
    simp [h.employees, hnames]

end PayrollAgent.Decide
