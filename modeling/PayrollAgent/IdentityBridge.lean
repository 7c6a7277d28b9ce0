import PayrollAgent.AliasLearning
import PayrollAgent.Backfill

namespace PayrollAgent.IdentityBridge

open Lib ReconcileNames AliasLearning Validate Backfill

def resolvedIds (matches' : List NameMatchResult) : List Uuid :=
  matches'.filterMap NameMatchResult.matchedEmployeeId

section

variable [PyText] {current : List NameMatchResult} {roster : Roster} {token : Str}
  {value : AliasCandidate} {id : Uuid} {ids : List Uuid} {names : List Str}

/-- One record of the current round resolves to the employee and carries the
token or the employee's own name. -/
def SameRecord (current : List NameMatchResult) (roster : Roster) (token : Str) (id : Uuid) : Prop :=
  ∃ m ∈ current, m.matchedEmployeeId = some id ∧
    (normalizeName m.submittedName = normalizeName token ∨
      ∃ e ∈ roster.employees, e.id = id ∧ normalizeName m.submittedName = normalizeName e.fullName)

/-- The candidate is bound to the employee, or suggests it and the current
round confirms the suggestion. -/
def Backed (current : List NameMatchResult) (roster : Roster) (token : Str) (value : AliasCandidate)
    (id : Uuid) : Prop :=
  (normalizeCandidate value).bound = some (.uuid id) ∨
    (normalizeCandidate value).bound = none ∧ (normalizeCandidate value).suggested = some (.uuid id) ∧
      SameRecord current roster token id

theorem sameRecord_of_evidence
    (h : bindEvidenceForToken token (.uuid id) (fullNameOf roster (.uuid id)) current = true) :
    SameRecord current roster token id := by
  obtain ⟨m, hm, hrecord⟩ := List.any_eq_true.mp h
  simp only [Bool.and_eq_true, Bool.or_eq_true, decide_eq_true_eq] at hrecord
  obtain ⟨hname, hid⟩ := hrecord
  have hmatched : m.matchedEmployeeId = some id := by
    obtain ⟨i, hi, he⟩ := Option.map_eq_some_iff.mp hid
    rw [hi, IdText.uuid.inj he]
  refine ⟨m, hm, hmatched, ?_⟩
  cases hname with
  | inl htoken => exact .inl htoken
  | inr hfull =>
      rw [fullNameOf, Option.map_map] at hfull
      obtain ⟨e, he, hsame⟩ := Option.map_eq_some_iff.mp hfull
      have hfound := List.find?_some he
      have heid : e.id = id := by simpa using hfound
      exact .inr ⟨e, List.mem_of_find?_eq_some he, heid, hsame.symm⟩

theorem backed_of_candidateTarget (h : candidateTarget current roster token value = some (.uuid id)) :
    Backed current roster token value id := by
  unfold candidateTarget at h
  cases hbound : (normalizeCandidate value).bound with
  | some bound =>
      simp only [hbound, Option.some.injEq] at h
      rw [Backed, hbound, h]
      exact .inl rfl
  | none =>
      simp only [hbound] at h
      obtain ⟨hsuggested, hevidence⟩ := Option.filter_eq_some_iff.mp h
      exact .inr ⟨hbound, hsuggested, sameRecord_of_evidence hevidence⟩

structure Seeded (current : List NameMatchResult) (roster : Roster)
    (candidates : List (Str × AliasCandidate)) (ids : List Uuid) (names : List Str)
    (m : NameMatchResult) (id : Uuid) : Prop where
  matched : m.matchedEmployeeId = some id
  onRoster : id ∈ roster.ids
  freshId : id ∉ ids
  freshName : m.submittedName ∉ names
  backed : ∃ value, (m.submittedName, value) ∈ candidates ∧
    Backed current roster m.submittedName value id

theorem Seeded.mono {candidates rest : List (Str × AliasCandidate)} {ids' : List Uuid}
    {names' : List Str} {m : NameMatchResult} (h : Seeded current roster rest ids' names' m id)
    (hrest : rest ⊆ candidates) (hids : ids ⊆ ids') (hnames : names ⊆ names') :
    Seeded current roster candidates ids names m id where
  matched := h.matched
  onRoster := h.onRoster
  freshId := fun hid => h.freshId (hids hid)
  freshName := fun hname => h.freshName (hnames hname)
  backed := by
    obtain ⟨value, hmem, hbacked⟩ := h.backed
    exact ⟨value, hrest hmem, hbacked⟩

theorem bridge_cons (current : List NameMatchResult) (roster : Roster) (token : Str)
    (value : AliasCandidate) (rest : List (Str × AliasCandidate)) (ids : List Uuid) (names : List Str) :
    (∃ target, Backed current roster token value target ∧ target ∈ roster.ids ∧ target ∉ ids ∧
      token ∉ names ∧ bridge current roster ((token, value) :: rest) ids names =
        ⟨token, .resolved .alias target, "confirmed at clarification reply".toList⟩ ::
          bridge current roster rest (target :: ids) (token :: names)) ∨
      bridge current roster ((token, value) :: rest) ids names =
        bridge current roster rest ids names := by
  cases htarget : candidateTarget current roster token value with
  | none =>
      right
      simp only [bridge, htarget]
  | some text =>
      cases text with
      | malformed text =>
          right
          simp only [bridge, htarget]
      | uuid target =>
          by_cases hguard : target ∈ roster.ids ∧ target ∉ ids ∧ token ∉ names
          · left
            obtain ⟨hroster, hid, hname⟩ := hguard
            refine ⟨target, backed_of_candidateTarget htarget, hroster, hid, hname, ?_⟩
            simp only [bridge, htarget, if_pos (And.intro hroster (And.intro hid hname))]
          · right
            simp only [bridge, htarget, if_neg hguard]

theorem seeded_of_mem_bridge (candidates : List (Str × AliasCandidate)) {m : NameMatchResult}
    (h : m ∈ bridge current roster candidates ids names) :
    ∃ id, Seeded current roster candidates ids names m id := by
  induction candidates generalizing ids names with
  | nil => cases h
  | cons c rest ih =>
      rcases c with ⟨token, value⟩
      obtain ⟨target, hbacked, hroster, hid, hname, heq⟩ | heq :=
        bridge_cons current roster token value rest ids names
      · rw [heq] at h
        cases h with
        | head => exact ⟨target, rfl, hroster, hid, hname, value, by simp, hbacked⟩
        | tail _ h =>
            obtain ⟨id, hseeded⟩ := ih h
            exact ⟨id, hseeded.mono (by simp) (by simp) (by simp)⟩
      · rw [heq] at h
        obtain ⟨id, hseeded⟩ := ih h
        exact ⟨id, hseeded.mono (by simp) (by simp) (by simp)⟩

theorem nodup_resolvedIds_bridge (candidates : List (Str × AliasCandidate)) (ids : List Uuid)
    (names : List Str) : (resolvedIds (bridge current roster candidates ids names)).Nodup := by
  induction candidates generalizing ids names with
  | nil => simp [resolvedIds, bridge]
  | cons c rest ih =>
      rcases c with ⟨token, value⟩
      obtain ⟨target, -, -, -, -, heq⟩ | heq := bridge_cons current roster token value rest ids names
      · rw [heq]
        apply List.nodup_cons.mpr
        constructor
        · intro hmem
          obtain ⟨m, hm, hid⟩ := List.mem_filterMap.mp hmem
          obtain ⟨id, hseeded⟩ := seeded_of_mem_bridge rest hm
          rw [hseeded.matched] at hid
          obtain rfl := Option.some.inj hid
          exact hseeded.freshId (by simp)
        · exact ih _ _
      · rw [heq]
        exact ih _ _

end

theorem mem_resolvedIds {matches' : List NameMatchResult} {id : Uuid} :
    id ∈ resolvedIds matches' ↔ ∃ m ∈ matches', m.matchedEmployeeId = some id :=
  List.mem_filterMap

theorem nameToId_mem {matches' : List NameMatchResult} {name : Str} {id : Uuid}
    (h : (nameToId matches').get? name = some id) :
    ∃ m ∈ matches', m.submittedName = name ∧ m.matchedEmployeeId = some id := by
  obtain ⟨m, hm, he⟩ := List.mem_filterMap.mp (Dict.get?_ofList_mem h)
  obtain ⟨i, hi, hp⟩ := Option.map_eq_some_iff.mp he
  obtain ⟨rfl, rfl⟩ := Prod.mk.inj hp
  exact ⟨m, hm, rfl, hi⟩

theorem get?_nameToId_append (prior extra : List NameMatchResult) (name : Str) :
    (nameToId (prior ++ extra)).get? name =
      ((nameToId extra).get? name).or ((nameToId prior).get? name) := by
  simp only [nameToId, List.filterMap_append]
  rw [Dict.ofList, List.foldl_append, Dict.get?_foldl_set, ← Dict.get?_ofList]
  rfl

/-- The extra matches name neither an employee nor a token that is resolved. -/
structure Apart (prior extra : List NameMatchResult) : Prop where
  ids : ∀ m ∈ extra, ∀ id, m.matchedEmployeeId = some id → id ∉ resolvedIds prior
  names : ∀ m ∈ extra, ∀ p ∈ prior, p.resolved = true → p.submittedName ≠ m.submittedName

theorem get?_nameToId_of_apart {prior extra : List NameMatchResult} (h : Apart prior extra)
    (name : Str) {id : Uuid} (hid : id ∈ resolvedIds prior) :
    (nameToId (prior ++ extra)).get? name = some id ↔ (nameToId prior).get? name = some id := by
  rw [get?_nameToId_append]
  cases hextra : (nameToId extra).get? name with
  | none => simp
  | some other =>
      obtain ⟨m, hm, rfl, hother⟩ := nameToId_mem hextra
      have hne : other ≠ id := by
        rintro rfl
        exact h.ids m hm _ hother hid
      constructor
      · intro he
        exact absurd (Option.some.inj he) hne
      · intro hprior
        obtain ⟨p, hp, hname, hmatched⟩ := nameToId_mem hprior
        exact absurd hname (h.names m hm p hp ((NameMatchResult.resolved_iff p).mpr ⟨id, hmatched⟩))

/-- The entries filed under an id depend only on which names map to it. -/
theorem get?_idKeyed_congr {snapshot : Extracted} {before after : List NameMatchResult} {id : Uuid}
    (h : ∀ name, (nameToId after).get? name = some id ↔ (nameToId before).get? name = some id) :
    (idKeyed snapshot after).get? id = (idKeyed snapshot before).get? id := by
  simp only [idKeyed, Dict.get?_ofList]
  congr 2
  induction snapshot.employees with
  | nil => rfl
  | cons e rest ih =>
      have hentry := h e.submittedName
      cases hafter : (nameToId after).get? e.submittedName with
      | none =>
          cases hbefore : (nameToId before).get? e.submittedName with
          | none => simpa [hafter, hbefore] using ih
          | some j =>
              have hj : j ≠ id := by
                rintro rfl
                simp [hafter, hbefore] at hentry
              simpa [hafter, hbefore, hj] using ih
      | some i =>
          by_cases hi : i = id
          · subst hi
            have hbefore := hentry.mp hafter
            simpa [hafter, hbefore] using ih
          · cases hbefore : (nameToId before).get? e.submittedName with
            | none => simpa [hafter, hbefore, hi] using ih
            | some j =>
                have hj : j ≠ id := by
                  rintro rfl
                  exact hi (Option.some.inj (hafter.symm.trans (hentry.mpr hbefore)))
                simpa [hafter, hbefore, hi, hj] using ih

section

variable [PyText]

theorem apart_bridge (prior current : List NameMatchResult) (roster : Roster)
    (candidates : List (Str × AliasCandidate)) :
    Apart prior (bridge current roster candidates
      ((prior.filter NameMatchResult.resolved).filterMap NameMatchResult.matchedEmployeeId)
      ((prior.filter NameMatchResult.resolved).map NameMatchResult.submittedName)) where
  ids := by
    intro m hm id hid hprior
    obtain ⟨i, hseeded⟩ := seeded_of_mem_bridge candidates hm
    obtain rfl := Option.some.inj (hseeded.matched.symm.trans hid)
    obtain ⟨p, hp, hpid⟩ := mem_resolvedIds.mp hprior
    have hresolved := (NameMatchResult.resolved_iff p).mpr ⟨i, hpid⟩
    exact hseeded.freshId (List.mem_filterMap.mpr ⟨p, List.mem_filter.mpr ⟨hp, hresolved⟩, hpid⟩)
  names := by
    intro m hm p hp hresolved hname
    obtain ⟨i, hseeded⟩ := seeded_of_mem_bridge candidates hm
    exact hseeded.freshName (List.mem_map.mpr ⟨p, List.mem_filter.mpr ⟨hp, hresolved⟩, hname⟩)

/-- The bridge only adds. The added employees are new to the prior list and
backed by their candidates, and both maps from employee ids to snapshot entries
keep what the prior list gave them. -/
theorem confirmed_prior_matches_extend (prior current : List NameMatchResult)
    (candidates : AliasCandidates) (roster : Roster) (snapshot : Extracted) :
    ∃ extra, confirmedPriorMatches (some prior) current candidates roster = some (prior ++ extra) ∧
      (∀ m ∈ extra, ∃ id, m.matchedEmployeeId = some id ∧ id ∈ roster.ids ∧ id ∉ resolvedIds prior ∧
        ∃ value, (m.submittedName, value) ∈ candidates.entries ∧
          Backed current roster m.submittedName value id) ∧
      (resolvedIds extra).Nodup ∧
      (∀ id ∈ resolvedIds prior,
        (idKeyed snapshot (prior ++ extra)).get? id = (idKeyed snapshot prior).get? id) ∧
      ∀ (matches' : List NameMatchResult) (drops : Pairs) (emp : ExtractedEmployee) (id : Uuid),
        (nameToId matches').get? emp.submittedName = some id → id ∈ resolvedIds prior →
          backfillEmployee (idKeyed snapshot (prior ++ extra)) (nameToId matches') drops emp =
            backfillEmployee (idKeyed snapshot prior) (nameToId matches') drops emp := by
  have hapart := apart_bridge prior current roster candidates.entries
  have hkept : ∀ id ∈ resolvedIds prior, (idKeyed snapshot (prior ++ bridge current roster
      candidates.entries _ _)).get? id = (idKeyed snapshot prior).get? id :=
    fun id hid => get?_idKeyed_congr fun name => get?_nameToId_of_apart hapart name hid
  refine ⟨_, rfl, ?_, nodup_resolvedIds_bridge _ _ _, hkept, ?_⟩
  · intro m hm
    obtain ⟨id, hseeded⟩ := seeded_of_mem_bridge candidates.entries hm
    exact ⟨id, hseeded.matched, hseeded.onRoster, hapart.ids m hm id hseeded.matched, hseeded.backed⟩
  · intro matches' drops emp id hname hid
    rw [backfillEmployee, backfillEmployee, hname]
    simp only [hkept id hid]

end

end PayrollAgent.IdentityBridge
