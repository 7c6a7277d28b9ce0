import PayrollAgent.Resume
import PayrollAgent.Repo.AliasWrites

namespace PayrollAgent.AliasConfirmation

open Lib Repo AliasLearning ReconcileNames

section

variable [PyText]

def Binds (roster : Roster) (candidates : AliasCandidates) (post : List NameMatchResult) (token : Str)
    (suggested : IdText) : Prop :=
  (bindCandidates roster post candidates).get? token = some (.record (some suggested) (some suggested))

def ResolvesTo (suggested : IdText) (m : NameMatchResult) : Prop :=
  m.matchedEmployeeId.map IdText.uuid = some suggested

/-- Some record resolves a name to the employee that no record did before the
question was asked. -/
def NewlyResolved (pre post : List NameMatchResult) (suggested : IdText) : Prop :=
  ∃ m ∈ post, ResolvesTo suggested m ∧
    ∀ m' ∈ pre, m'.submittedName = m.submittedName → ¬ ResolvesTo suggested m'

/-- A name the bind evidence accepts: the token, or the full name of the
suggested employee. -/
def Speaks (roster : Roster) (token : Str) (suggested : IdText) (name : Str) : Prop :=
  normalizeName name = normalizeName token ∨
    (fullNameOf roster suggested).map normalizeName = some (normalizeName name)

variable {roster : Roster} {candidates : AliasCandidates} {pre post : List NameMatchResult} {token : Str}
  {suggested : IdText} {value : AliasCandidate}

theorem bindEvidence_iff : bindEvidenceForToken token suggested (fullNameOf roster suggested)
    post = true ↔
    ∃ m ∈ post, Speaks roster token suggested m.submittedName ∧ ResolvesTo suggested m := by
  simp [bindEvidenceForToken, Speaks, ResolvesTo]

theorem binds_iff (hvalue : candidates.get? token = some value)
    (hpending : normalizeCandidate value = ⟨some suggested, none⟩) :
    Binds roster candidates post token suggested ↔
      ∃ m ∈ post, Speaks roster token suggested m.submittedName ∧ ResolvesTo suggested m := by
  rw [← bindEvidence_iff, Binds, bindCandidates, Dict.get?_mapValues, hvalue, Option.map_some]
  simp only [hpending]
  by_cases hevidence : bindEvidenceForToken token suggested (fullNameOf roster suggested) post = true
  · rw [if_pos hevidence]
    exact iff_of_true rfl hevidence
  · rw [if_neg hevidence]
    refine iff_of_false (fun hbound => ?_) hevidence
    rw [Option.some.inj hbound] at hpending
    cases hpending

def Learned (roster : Roster) (id : Uuid) (token : Str) : Prop :=
  ∃ e ∈ roster.employees, e.id = id ∧ token ∈ e.knownAliases

theorem writeAlias_of_unbound (h : (normalizeCandidate value).bound = none) (roster : Roster)
    (token : Str) : writeAlias roster (token, value) = roster := by
  rw [writeAlias]
  simp only [h]

theorem learned_writeAlias {id : Uuid} {entry : Str × AliasCandidate} (hne : entry.1 ≠ token)
    (h : Learned (writeAlias roster entry) id token) : Learned roster id token := by
  unfold writeAlias at h
  split at h
  next target hbound =>
    by_cases hsafe : target ∈ roster.ids ∧ safeToLearnAlias entry.1 target roster
    · rw [if_pos hsafe] at h
      obtain ⟨e, he, hid, htoken⟩ := h
      obtain ⟨e₀, he₀, rfl⟩ := List.mem_map.mp he
      rw [withAliases_id] at hid
      refine ⟨e₀, he₀, hid, ?_⟩
      unfold withAliases at htoken
      by_cases htarget : e₀.id = target
      · rw [if_pos htarget] at htoken
        dsimp only at htoken
        by_cases hknown : entry.1 ∈ e₀.knownAliases
        · rwa [if_pos hknown] at htoken
        · rw [if_neg hknown, List.mem_dedup, List.mem_append, List.mem_singleton] at htoken
          exact htoken.resolve_right (Ne.symm hne)
      · rwa [if_neg htarget] at htoken
    · rwa [if_neg hsafe] at h
  · exact h

/-- What `write_aliases_if_safe` teaches of a token comes from a bound candidate
of that token. -/
theorem learned_of_unbound {id : Uuid} {entries : List (Str × AliasCandidate)}
    (hunbound : ∀ value, (token, value) ∈ entries → (normalizeCandidate value).bound = none)
    (h : Learned (entries.foldl writeAlias roster) id token) : Learned roster id token := by
  induction entries generalizing roster with
  | nil => exact h
  | cons entry rest ih =>
      rw [List.foldl_cons] at h
      have hwritten := ih (fun value hmem => hunbound value (List.mem_cons_of_mem _ hmem)) h
      by_cases hne : entry.1 = token
      · subst hne
        rwa [writeAlias_of_unbound (hunbound entry.2 List.mem_cons_self)] at hwritten
      · exact learned_writeAlias hne hwritten

theorem unbound_of_not_binds (hvalue : candidates.get? token = some value)
    (hpending : normalizeCandidate value = ⟨some suggested, none⟩)
    (h : ¬ Binds roster candidates post token suggested) {value' : AliasCandidate}
    (hvalue' : (bindCandidates roster post candidates).get? token = some value') :
    (normalizeCandidate value').bound = none := by
  rw [binds_iff hvalue hpending, ← bindEvidence_iff] at h
  rw [bindCandidates, Dict.get?_mapValues, hvalue, Option.map_some] at hvalue'
  simp only [hpending, if_neg h] at hvalue'
  rw [← Option.some.inj hvalue', hpending]

theorem newlyResolved_of_binds (hvalue : candidates.get? token = some value)
    (hpending : normalizeCandidate value = ⟨some suggested, none⟩)
    (hpre : ∀ m ∈ pre, ResolvesTo suggested m → ¬ Speaks roster token suggested m.submittedName)
    (h : Binds roster candidates post token suggested) : NewlyResolved pre post suggested := by
  obtain ⟨m, hm, hspeaks, hresolves⟩ := (binds_iff hvalue hpending).mp h
  refine ⟨m, hm, hresolves, fun m' hm' hname hresolves' => hpre m' hm' hresolves' ?_⟩
  rwa [hname]

/-- Every bind rests on a new record exactly when no record under the token or
the suggested full name resolved to the suggestion before the question, and
then a reply that leaves only old records teaches nothing. -/
theorem bound_on_confirmation_iff (hvalue : candidates.get? token = some value)
    (hpending : normalizeCandidate value = ⟨some suggested, none⟩) (pre : List NameMatchResult) :
    ((∀ post, Binds roster candidates post token suggested → NewlyResolved pre post suggested) ↔
      ∀ m ∈ pre, ResolvesTo suggested m → ¬ Speaks roster token suggested m.submittedName) ∧
      ((∀ m ∈ pre, ResolvesTo suggested m → ¬ Speaks roster token suggested m.submittedName) →
        ∀ post, ¬ NewlyResolved pre post suggested → ¬ Binds roster candidates post token suggested ∧
          ∀ (roster' : Roster) id,
            Learned ((bindCandidates roster post candidates).entries.foldl writeAlias roster') id token →
              Learned roster' id token) := by
  refine ⟨⟨fun hall m hm hresolves hspeaks => ?_, fun hpre post =>
    newlyResolved_of_binds hvalue hpending hpre⟩, fun hpre post hold => ?_⟩
  · have hbinds : Binds roster candidates [m] token suggested :=
      (binds_iff hvalue hpending).mpr ⟨m, List.mem_singleton_self m, hspeaks, hresolves⟩
    obtain ⟨m', hm', -, hnew⟩ := hall [m] hbinds
    obtain rfl := List.mem_singleton.mp hm'
    exact hnew m' hm rfl hresolves
  · have hbinds : ¬ Binds roster candidates post token suggested := fun h =>
      hold (newlyResolved_of_binds hvalue hpending hpre h)
    refine ⟨hbinds, fun roster' id => learned_of_unbound fun value' hmem => ?_⟩
    exact unbound_of_not_binds hvalue hpending hbinds ((Dict.get?_eq_some_iff _ _ _).mpr hmem)

end

section Replies

attribute [local instance] asciiText

def kimRoster : Roster :=
  ⟨[hourlyWorker 1 "sandra kim".toList [], hourlyWorker 2 "thomas bergmann".toList []], by decide⟩

def sandyPending : AliasCandidates := Dict.ofList [("sandy".toList, .record (some (.uuid 1)) none)]

theorem sandyPending_value : sandyPending.get? "sandy".toList = some (.record (some (.uuid 1)) none) := by
  decide +kernel

/-- The email names Sandra Kim beside Sandy, and the reply says that Sandy is
Thomas Bergmann. -/
theorem bound_on_denial :
    ¬ ∀ (roster : Roster) (candidates : AliasCandidates) (pre post : List NameMatchResult) (token : Str)
      (suggested : IdText) (value : AliasCandidate), candidates.get? token = some value →
        normalizeCandidate value = ⟨some suggested, none⟩ →
          Binds roster candidates post token suggested → NewlyResolved pre post suggested := by
  intro hall
  have hbinds : Binds kimRoster sandyPending
      (reconcileNames ["sandra kim".toList, "thomas bergmann".toList] kimRoster none) "sandy".toList
        (.uuid 1) := by
    unfold Binds
    decide +kernel
  obtain ⟨m, hm, hresolves, hnew⟩ := hall kimRoster sandyPending
    (reconcileNames ["sandy".toList, "sandra kim".toList] kimRoster none) _ _ _ _ sandyPending_value
    rfl hbinds
  have hold : (reconcileNames ["sandra kim".toList, "thomas bergmann".toList] kimRoster none).all fun m =>
      m.matchedEmployeeId ≠ some 1 ∨
        m ∈ reconcileNames ["sandy".toList, "sandra kim".toList] kimRoster none := by
    decide +kernel
  have hmem := List.all_eq_true.mp hold m hm
  simp only [decide_eq_true_eq] at hmem
  obtain hother | hmem := hmem
  · refine hother ?_
    obtain ⟨id, hid, hsame⟩ := Option.map_eq_some_iff.mp hresolves
    rw [hid]
    exact congrArg some (IdText.uuid.inj hsame)
  · exact hnew m hmem rfl hresolves

/-- Sandra Kim was not in the email, and the reply names her. -/
theorem bound_on_confirmation_sandra :
    NewlyResolved (reconcileNames ["sandy".toList] kimRoster none)
      (reconcileNames ["sandra kim".toList] kimRoster none) (.uuid 1) := by
  have hpre : ∀ m ∈ reconcileNames ["sandy".toList] kimRoster none, ResolvesTo (.uuid 1) m →
      ¬ Speaks kimRoster "sandy".toList (.uuid 1) m.submittedName := by
    intro m hm hresolves
    have hunresolved : (reconcileNames ["sandy".toList] kimRoster none).all fun m =>
        m.matchedEmployeeId = none := by
      decide +kernel
    have hnone := List.all_eq_true.mp hunresolved m hm
    rw [ResolvesTo, of_decide_eq_true hnone] at hresolves
    cases hresolves
  refine ((bound_on_confirmation_iff sandyPending_value rfl _).1.mpr hpre) _ ?_
  unfold Binds
  decide +kernel

end Replies

end PayrollAgent.AliasConfirmation
