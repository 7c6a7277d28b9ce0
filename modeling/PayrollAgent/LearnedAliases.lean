import PayrollAgent.AliasConfirmation

namespace PayrollAgent.LearnedAliases

open Lib Repo AliasLearning ReconcileNames AliasConfirmation

section

variable [PyText]

/-- The employee answers to the name, by the full name or by an alias. -/
def Answers (e : Employee) (name : Str) : Prop :=
  normalizeName e.fullName = normalizeName name ∨
    ∃ a ∈ e.knownAliases, normalizeName a = normalizeName name

def Answered (roster : Roster) (id : Uuid) (name : Str) : Prop :=
  ∃ e ∈ roster.employees, e.id = id ∧ Answers e name

def learn (roster : Roster) (candidates : AliasCandidates) : Roster :=
  candidates.entries.foldl writeAlias roster

def Preserves (roster roster' : Roster) : Prop := ∀ name id, Resolves roster name id →
    Resolves roster' name id

variable {roster roster' roster'' : Roster} {name token : Str} {id target : Uuid} {e : Employee}

theorem mem_ids : id ∈ exactIds name roster ++ aliasIds name roster ↔ Answered roster id name := by
  simp only [Answered, exactIds, aliasIds, List.mem_append, List.mem_map, List.mem_filter,
    decide_eq_true_eq, List.any_eq_true]
  constructor
  · rintro (⟨e, ⟨he, hname⟩, hid⟩ | ⟨e, ⟨he, halias⟩, hid⟩)
    · exact ⟨e, he, hid, .inl hname⟩
    · exact ⟨e, he, hid, .inr halias⟩
  · rintro ⟨e, he, hid, hname | halias⟩
    · exact .inl ⟨e, ⟨he, hname⟩, hid⟩
    · exact .inr ⟨e, ⟨he, halias⟩, hid⟩

omit [PyText] in
theorem dedup_eq_singleton {l : List Uuid} : l.dedup = [id] ↔ ∀ id', id' ∈ l ↔ id' = id := by
  constructor
  · intro h id'
    rw [← List.mem_dedup, h, List.mem_singleton]
  · intro h
    refine List.perm_singleton.mp ((List.perm_ext_iff_of_nodup (List.nodup_dedup l)
      (List.nodup_singleton id)).mpr fun id' => ?_)
    rw [List.mem_dedup, List.mem_singleton, h]

theorem deterministicMatch_iff : (deterministicMatch name roster).bind
    NameMatchResult.matchedEmployeeId = some id ↔
    (exactIds name roster ++ aliasIds name roster).dedup = [id] := by
  have hid : ∀ id', (if id' ∈ exactIds name roster then
      some (⟨name, .resolved .exact id', "exact match".toList⟩ : NameMatchResult)
      else some ⟨name, .resolved .alias id', "known alias".toList⟩).bind
        NameMatchResult.matchedEmployeeId = some id' := by
    intro id'
    by_cases hexact : id' ∈ exactIds name roster
    · rw [if_pos hexact]
      rfl
    · rw [if_neg hexact]
      rfl
  unfold deterministicMatch
  constructor
  · intro h
    split at h
    next id' hone =>
      rw [hid] at h
      rw [hone, Option.some.inj h]
    · cases h
  · intro h
    rw [h]
    exact hid id

theorem resolves_iff_match : Resolves roster name id ↔
    (deterministicMatch name roster).bind NameMatchResult.matchedEmployeeId = some id := by
  have hoverride : overrideId Dict.empty roster name = none := rfl
  rw [Resolves, reconcileName, hoverride]
  cases deterministicMatch name roster with
  | none => exact Iff.rfl
  | some m => exact Iff.rfl

theorem resolves_iff : Resolves roster name id ↔ ∀ id', Answered roster id' name ↔ id' = id := by
  rw [resolves_iff_match, deterministicMatch_iff, dedup_eq_singleton]
  simp only [mem_ids]

theorem Answered.congr {name' : Str} (h : normalizeName name = normalizeName name') :
    Answered roster id name ↔ Answered roster id name' := by
  simp only [Answered, Answers, h]

/-- A rewrite of one employee's aliases leaves the others, and adds only the
token. -/
structure Adds (f : List Str → List Str) (token : Str) : Prop where
  keeps : ∀ aliases, ∀ a ∈ aliases, a ∈ f aliases
  only : ∀ aliases, ∀ a ∈ f aliases, a ∈ aliases ∨ a = token
  token : ∀ aliases, token ∈ f aliases

omit [PyText] in
theorem adds_append (token : Str) : Adds (· ++ [token]) token :=
  ⟨fun _ _ => List.mem_append_left _, fun _ _ h => (List.mem_append.mp h).imp id List.mem_singleton.mp,
    fun _ => List.mem_append_right _ (List.mem_singleton_self token)⟩

omit [PyText] in
theorem adds_update (token : Str) :
    Adds (fun aliases => if token ∈ aliases then aliases else (aliases ++ [token]).dedup) token := by
  refine ⟨fun aliases a ha => ?_, fun aliases a ha => ?_, fun aliases => ?_⟩
  · split
    · exact ha
    · exact List.mem_dedup.mpr ((adds_append token).keeps aliases a ha)
  · split at ha
    · exact .inl ha
    · exact (adds_append token).only aliases a (List.mem_dedup.mp ha)
  · split
    next h => exact h
    · exact List.mem_dedup.mpr ((adds_append token).token aliases)

theorem answers_withAliases {f : List Str → List Str} (hf : Adds f token) :
    Answers (withAliases target f e) name ↔ Answers e name ∨
    (e.id = target ∧ normalizeName token = normalizeName name) := by
  unfold withAliases
  by_cases htarget : e.id = target
  · rw [if_pos htarget]
    constructor
    · rintro (hname | ⟨a, ha, hsame⟩)
      · exact .inl (.inl hname)
      · obtain ha | rfl := hf.only _ a ha
        · exact .inl (.inr ⟨a, ha, hsame⟩)
        · exact .inr ⟨htarget, hsame⟩
    · rintro ((hname | ⟨a, ha, hsame⟩) | ⟨-, hsame⟩)
      · exact .inl hname
      · exact .inr ⟨a, hf.keeps _ a ha, hsame⟩
      · exact .inr ⟨token, hf.token _, hsame⟩
  · rw [if_neg htarget]
    exact ⟨.inl, fun h => h.resolve_right fun hother => htarget hother.1⟩

theorem answered_rosterWithAliases {f : List Str → List Str} (hf : Adds f token) {id' : Uuid} :
    Answered (rosterWithAliases target f roster) id' name ↔ Answered roster id' name ∨
      (id' = target ∧ target ∈ roster.ids ∧ normalizeName token = normalizeName name) := by
  constructor
  · rintro ⟨e', he', hid, hanswers⟩
    obtain ⟨e, he, rfl⟩ := List.mem_map.mp he'
    rw [withAliases_id] at hid
    obtain hold | ⟨htarget, hsame⟩ := (answers_withAliases hf).mp hanswers
    · exact .inl ⟨e, he, hid, hold⟩
    · exact .inr ⟨hid.symm.trans htarget, htarget ▸ List.mem_map_of_mem he, hsame⟩
  · rintro (⟨e, he, hid, hanswers⟩ | ⟨rfl, hmem, hsame⟩)
    · exact ⟨_, List.mem_map_of_mem he, (withAliases_id ..).trans hid,
        (answers_withAliases hf).mpr (.inl hanswers)⟩
    · obtain ⟨e, he, hid⟩ := List.mem_map.mp hmem
      exact ⟨_, List.mem_map_of_mem he, (withAliases_id ..).trans hid,
        (answers_withAliases hf).mpr (.inr ⟨hid, hsame⟩)⟩

theorem safeToLearnAlias_iff : safeToLearnAlias token target roster = true ↔
    Resolves (rosterWithAliases target (· ++ [token]) roster) token target := by
  rw [safeToLearnAlias, resolves_iff_match]
  cases deterministicMatch token (rosterWithAliases target (· ++ [token]) roster) with
  | none => exact iff_of_false (fun h => by cases h) (fun h => by cases h)
  | some m => exact decide_eq_true_iff

theorem resolves_updateKnownAlias (hsafe : safeToLearnAlias token target roster = true) :
    Resolves (updateKnownAlias target token roster) token target := by
  rw [safeToLearnAlias_iff, resolves_iff] at hsafe
  rw [resolves_iff]
  intro id'
  rw [← hsafe id', updateKnownAlias, answered_rosterWithAliases (adds_update token),
    answered_rosterWithAliases (adds_append token)]

/-- A checked write takes no name away from its employee: a name like the token
was already the target's. -/
theorem preserves_updateKnownAlias (hsafe : safeToLearnAlias token target roster = true) :
    Preserves roster (updateKnownAlias target token roster) := by
  intro name id hresolves
  by_cases hsame : normalizeName token = normalizeName name
  · have hnew := resolves_updateKnownAlias hsafe
    rw [resolves_iff] at hresolves hnew ⊢
    intro id'
    have hid : id = target := by
      have hanswered := (Answered.congr hsame).mpr ((hresolves id).mpr rfl)
      refine (hnew id).mp ?_
      rw [updateKnownAlias, answered_rosterWithAliases (adds_update token)]
      exact .inl hanswered
    rw [hid, ← hnew id', Answered.congr hsame]
  · rw [resolves_iff] at hresolves ⊢
    intro id'
    rw [← hresolves id', updateKnownAlias, answered_rosterWithAliases (adds_update token)]
    exact or_iff_left fun h => hsame h.2.2

theorem Preserves.trans (h : Preserves roster roster') (h' : Preserves roster' roster'') :
    Preserves roster roster'' :=
  fun name id hname => h' name id (h name id hname)

theorem writeAlias_cases (roster : Roster) (entry : Str × AliasCandidate) :
    writeAlias roster entry = roster ∨ ∃ target, safeToLearnAlias entry.1 target roster = true ∧
      writeAlias roster entry = updateKnownAlias target entry.1 roster := by
  unfold writeAlias
  split
  next target _ =>
    by_cases hsafe : target ∈ roster.ids ∧ safeToLearnAlias entry.1 target roster = true
    · rw [if_pos hsafe]
      exact .inr ⟨target, hsafe.2, rfl⟩
    · rw [if_neg hsafe]
      exact .inl rfl
  · exact .inl rfl

/-- A roster that grew out of another one by checked writes. -/
structure Grows (roster roster' : Roster) : Prop where
  preserves : Preserves roster roster'
  learned : ∀ token id, Learned roster' id token → Learned roster id token ∨ Resolves roster' token id

theorem Grows.refl (roster : Roster) : Grows roster roster := ⟨fun _ _ => id, fun _ _ => .inl⟩

theorem Grows.trans (h : Grows roster roster') (h' : Grows roster' roster'') : Grows roster roster'' := by
  refine ⟨h.preserves.trans h'.preserves, fun token id hlearned => ?_⟩
  obtain hbefore | hnew := h'.learned token id hlearned
  · exact (h.learned token id hbefore).imp_right (h'.preserves token id)
  · exact .inr hnew

omit [PyText] in
theorem learned_updateKnownAlias (h : Learned (updateKnownAlias target token roster) id name) :
    Learned roster id name ∨ (id = target ∧ name = token) := by
  obtain ⟨e', he', hid, hname⟩ := h
  obtain ⟨e, he, rfl⟩ := List.mem_map.mp he'
  rw [withAliases_id] at hid
  unfold withAliases at hname
  by_cases htarget : e.id = target
  · rw [if_pos htarget] at hname
    obtain hold | rfl := (adds_update token).only _ name hname
    · exact .inl ⟨e, he, hid, hold⟩
    · exact .inr ⟨hid.symm.trans htarget, rfl⟩
  · rw [if_neg htarget] at hname
    exact .inl ⟨e, he, hid, hname⟩

theorem grows_writeAlias (roster : Roster) (entry : Str × AliasCandidate) :
    Grows roster (writeAlias roster entry) := by
  obtain hsame | ⟨target, hsafe, hwritten⟩ := writeAlias_cases roster entry
  · rw [hsame]
    exact .refl roster
  · rw [hwritten]
    refine ⟨preserves_updateKnownAlias hsafe, fun token id hlearned => ?_⟩
    obtain hold | ⟨rfl, rfl⟩ := learned_updateKnownAlias hlearned
    · exact .inl hold
    · exact .inr (resolves_updateKnownAlias hsafe)

theorem grows_foldl {α : Type} {f : Roster → α → Roster}
    (hf : ∀ roster x, Grows roster (f roster x)) (l : List α)
    (roster : Roster) : Grows roster (l.foldl f roster) := by
  induction l generalizing roster with
  | nil => exact .refl roster
  | cons x rest ih => exact (hf roster x).trans (ih (f roster x))

theorem grows_learn (roster : Roster) (candidates : AliasCandidates) :
    Grows roster (learn roster candidates) :=
  grows_foldl grows_writeAlias _ _

/-- The settlements learn one after the other: no name that resolved before is
lost, and every alias that is new resolves to the employee it was learned for. -/
theorem learning_preserves_resolution (roster : Roster) (settlements : List AliasCandidates) :
    Preserves roster (settlements.foldl learn roster) ∧
      ∀ token id, Learned (settlements.foldl learn roster) id token → ¬ Learned roster id token →
        Resolves (settlements.foldl learn roster) token id := by
  have hgrows := grows_foldl grows_learn settlements roster
  exact ⟨hgrows.preserves, fun token id hlearned hnew =>
    (hgrows.learned token id hlearned).resolve_left hnew⟩

theorem writeAliasesIfSafe_rosters {db : Db} {r : Uuid} {run : Run}
    (hrun : db.runs.get? r = some run) (b : Uuid) :
    (writeAliasesIfSafe r db).rosters.get? b =
      if b = run.businessId then (db.rosters.get? b).map fun roster => learn roster run.aliasCandidates
      else db.rosters.get? b := by
  unfold writeAliasesIfSafe
  rw [hrun, Dict.get?_modify]
  rfl

end

end PayrollAgent.LearnedAliases
