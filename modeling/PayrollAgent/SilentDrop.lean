import PayrollAgent.ReplyOutcomes

namespace PayrollAgent.SilentDrop

open Lib Validate Backfill AliasLearning ReconcileNames RunStages Resume SnapshotIdentity ReplyOutcomes

variable [PyText]

/-- One resume of a run: what it read and what the model extracted for it. -/
structure ResumeStep where
  ctx : ResumeContext
  x : Extractions

/-- The columns the resume leaves for the next one. The snapshot is written
once. The alias candidates are whatever the bind step and the next capture
leave, so any value is allowed. -/
def afterResume (r : ResumeStep) (candidates : AliasCandidates) : ResumeContext :=
  let s := stageMatches r.ctx.roster (stagesInput r.ctx r.x) (stagesArgs r.ctx r.x none)
  let issues := stageIssues r.ctx.roster (stagesInput r.ctx r.x) (stagesArgs r.ctx r.x none)
  { r.ctx with
    reconciliation := s
    clarified := deferredOutcomes s (clarifiedAtGate r.ctx r.x) issues
    aliasCandidates := candidates }

/-- The resumes of one run, in order. Each takes the extractions of its round
and the candidates left behind by it. -/
def resumes (ctx : ResumeContext) : List (Extractions × AliasCandidates) → List ResumeStep
  | [] => []
  | (x, candidates) :: rest => ⟨ctx, x⟩ :: resumes (afterResume ⟨ctx, x⟩ candidates) rest

/-- The snapshot pays the employee a field that the resumed extraction does not,
and no terminal answer is stored for it. -/
structure Owed (r : ResumeStep) (id : Uuid) (f : HoursField) : Prop where
  paidBefore : ∃ snap, r.ctx.snapshot = some snap ∧ ∃ s ∈ snap.employees,
    Resolves r.ctx.roster s.submittedName id ∧ isPaid (s.hours f) = true
  unpaidNow : ∃ ee ∈ r.x.combined.employees,
    Resolves r.ctx.roster ee.submittedName id ∧ isPaid (ee.hours f) = false
  unanswered : (r.ctx.clarified.outcome id f).any isTerminal = false

def Processed (r : ResumeStep) : Prop :=
  (stageDecision r.ctx.roster (stagesInput r.ctx r.x) (stagesArgs r.ctx r.x none)).finalAction = .process

/-- The run is processed with the owed field unpaid. -/
structure DropsSilently (r : ResumeStep) (id : Uuid) (f : HoursField) : Prop extends Owed r id f where
  processed : Processed r
  unpaid : ∃ ee ∈ (finalExtracted r.ctx r.x).employees,
    Resolves r.ctx.roster ee.submittedName id ∧ isPaid (ee.hours f) = false

/-- The field was asked, and the reply gives it this value. -/
def Answers (r : ResumeStep) (id : Uuid) (f : HoursField) (v : ℚ≥0) : Prop :=
  r.ctx.clarified.outcome id f = some .asked ∧ ∃ e, AnswersFor r.ctx r.x.reply id e ∧ e.hours f = some v

/-- The snapshot entry that is taken for the employee's pays the field. -/
def KnownPaid (r : ResumeStep) (id : Uuid) (f : HoursField) : Prop :=
  ∃ s, KnownAs r.ctx r.x.combined.names none id s ∧ isPaid (s.hours f) = true

/-- The reply itself pays the field that it was asked about, or does not deny it
and the entry taken for the employee's pays it. -/
def Kept (r : ResumeStep) (id : Uuid) (f : HoursField) : Prop :=
  (∃ v, 0 < v ∧ Answers r id f v) ∨ ¬ Answers r id f 0 ∧ KnownPaid r id f

variable {r : ResumeStep} {id : Uuid} {f : HoursField}

theorem not_suppressed (hopen : (r.ctx.clarified.outcome id f).any isTerminal = false)
    (hanswer : r.ctx.clarified.outcome id f = some .asked → answer r.ctx r.x.reply id f = .unresolvable) :
    (id, f) ∉ (stagesArgs r.ctx r.x none).suppressDetection := by
  unfold stagesArgs
  split
  · intro hmem
    have hterminal := isTerminal_of_mem_suppressDetection _ _ hmem
    rw [outcome_classified] at hterminal
    cases houtcome : r.ctx.clarified.outcome id f with
    | none =>
        rw [houtcome] at hterminal
        cases hterminal
    | some o =>
        rw [houtcome] at hterminal hopen hanswer
        by_cases hasked : o = .asked
        · subst hasked
          rw [Option.map_some, if_pos rfl, hanswer rfl] at hterminal
          cases hterminal
        · rw [Option.map_some, if_neg hasked, Option.any_some] at hterminal
          rw [Option.any_some, hterminal] at hopen
          cases hopen
  · exact List.not_mem_nil

theorem entry_unique {ctx : ResumeContext} {x : Extractions}
    (hclean : Decide.Clean (finalExtracted ctx x)
      (stageMatches ctx.roster (stagesInput ctx x) (stagesArgs ctx x none))
      (stageIssues ctx.roster (stagesInput ctx x) (stagesArgs ctx x none)))
    {a b : ExtractedEmployee} (ha : a ∈ (stagesInput ctx x).employees)
    (hb : b ∈ (stagesInput ctx x).employees) {id : Uuid}
    (hida : Resolves ctx.roster a.submittedName id)
    (hidb : Resolves ctx.roster b.submittedName id) : a = b := by
  have hnames := hclean.namesNodup
  have hsame := hclean.sameName
  simp only [stageMatches, overrides_stagesArgs] at hnames hsame
  rw [map_submittedName_reconcileNames] at hnames
  have hname := hsame _ (reconcileName_mem ctx.roster none (List.mem_map_of_mem ha)) _
    (reconcileName_mem ctx.roster none (List.mem_map_of_mem hb)) id hida hidb
  rw [submittedName_reconcileName, submittedName_reconcileName] at hname
  exact List.inj_on_of_nodup_map hnames ha hb hname

theorem idKeyed_stagesInput {ctx : ResumeContext} {x : Extractions} {c : ExtractedEmployee}
    (hc : c ∈ (stagesInput ctx x).employees) {id : Uuid}
    (hid : Resolves ctx.roster c.submittedName id) :
    ∃ res ∈ (stagesInput ctx x).employees, Resolves ctx.roster res.submittedName id ∧
      (idKeyed (stagesInput ctx x)
        (stageMatches ctx.roster (stagesInput ctx x) (stagesArgs ctx x none))).get? id =
          some res := by
  have hm : (id, c) ∈ (stagesInput ctx x).employees.filterMap fun e =>
      ((nameToId (stageMatches ctx.roster (stagesInput ctx x) (stagesArgs ctx x none))).get?
        e.submittedName).map fun i => (i, e) := by
    refine List.mem_filterMap.mpr ⟨c, hc, ?_⟩
    rw [nameToId_stageMatches hc, hid]
    rfl
  obtain ⟨res, hres⟩ := Dict.get?_ofList_isSome hm
  obtain ⟨hmem, hname⟩ := idKeyed_mem hres
  rw [nameToId_stageMatches hmem] at hname
  exact ⟨res, hmem, hname, hres⟩

theorem knownPaid_iff :
    KnownPaid r id f ↔ ((priorEntry r.ctx r.x none id).any fun s => isPaid (s.hours f)) = true := by
  simp only [KnownPaid, ← priorEntry_iff, Option.any_eq_true]

/-- Where the entry taken for the employee's pays the field, and the entry of the
resume does not, the comparison keeps the gate closed. -/
theorem not_processed {c : ExtractedEmployee} (hknown : KnownPaid r id f)
    (hc : c ∈ (stagesInput r.ctx r.x).employees) (hid : Resolves r.ctx.roster c.submittedName id)
    (hunpaid : isPaid (c.hours f) = false)
    (hopen : (id, f) ∉ (stagesArgs r.ctx r.x none).suppressDetection) : ¬ Processed r := by
  intro hprocess
  obtain ⟨s, hs, hpaid⟩ := hknown
  obtain ⟨res, hres, hresid, hkeyed⟩ := idKeyed_stagesInput hc hid
  obtain rfl : res = c := entry_unique (Decide.clean_of_process hprocess) hres hc hresid hid
  exact not_process_of_dropped (priorEntry_iff.mpr hs) hkeyed hpaid hunpaid hopen hprocess

/-- In a processed run the stages' entry of the employee has the resumed value of
a field that was not asked about. -/
theorem raw_unpaid (h : Owed r id f) (hprocess : Processed r)
    (hasked : r.ctx.clarified.outcome id f ≠ some .asked)
    {c : ExtractedEmployee} (hc : c ∈ (stagesInput r.ctx r.x).employees)
    (hid : Resolves r.ctx.roster c.submittedName id) : isPaid (c.hours f) = false := by
  obtain ⟨ee, hee, heid, hunpaid⟩ := h.unpaidNow
  have hclean := Decide.clean_of_process hprocess
  by_cases hround : isRound2 r.ctx = true
  · have hinput : stagesInput r.ctx r.x = overwriteAsked r.ctx r.x := if_pos hround
    have hname : (nameToId (reconcileNames r.x.combined.names r.ctx.roster none)).get?
      ee.submittedName = some id :=
      (nameToId_reconcileNames r.ctx.roster none (List.mem_map_of_mem hee)).trans heid
    have hmem : overwriteEmployee (replyValueOverrides r.ctx r.x.reply)
        (nameToId (reconcileNames r.x.combined.names r.ctx.roster none))
        ee ∈ (stagesInput r.ctx r.x).employees := by
      rw [hinput]
      exact List.mem_map_of_mem hee
    have hnone : (replyValueOverrides r.ctx r.x.reply).get? (id, f) = none := by
      rw [replyValueOverrides,
        Dict.get?_ofList_map fun p : Uuid × HoursField => (answer r.ctx r.x.reply p.1 p.2).value,
        if_neg fun hmem => hasked ((mem_askedPairs _ _ _).mp hmem)]
    obtain rfl := entry_unique hclean hc hmem hid (by rwa [submittedName_overwriteEmployee])
    rw [hours_overwriteEmployee hname, hnone]
    exact hunpaid
  · have hinput : stagesInput r.ctx r.x = r.x.combined := if_neg hround
    obtain rfl := entry_unique hclean hc (by rwa [hinput]) hid heid
    exact hunpaid

theorem final_paid_iff (h : Owed r id f) (hprocess : Processed r) {ee : ExtractedEmployee}
    (hee : ee ∈ (finalExtracted r.ctx r.x).employees) (heid : Resolves r.ctx.roster ee.submittedName id) :
    isPaid (ee.hours f) = true ↔ Kept r id f := by
  have hmem := hee
  rw [employees_finalExtracted] at hmem
  obtain ⟨c, hc, hcee⟩ := List.mem_map.mp hmem
  have hcid : Resolves r.ctx.roster c.submittedName id := by
    rwa [← hcee, submittedName_backfilled] at heid
  by_cases hasked : r.ctx.clarified.outcome id f = some .asked
  · have hhours := hours_finalExtracted hasked hee heid
    have hanswers : ∀ v, Answers r id f v ↔ ∃ e, replyEntry r.ctx r.x.reply id = some e ∧
      e.hours f = some v := by
      intro v
      simp only [Answers, hasked, true_and, replyEntry_iff]
    rcases answer_cases r.ctx r.x.reply id f with
      ⟨hnone, ha⟩ | ⟨e, v, he, hv, hpos, ha⟩ | ⟨e, he, hv, ha⟩ | ⟨e, he, hv, ha⟩
    · -- the question stays open, so a paying entry would have been asked about
      rw [ha] at hhours
      have hunpaid : isPaid (c.hours f) = false := by
        rw [hours_stagesInput hasked hc hcid, ha]
        rfl
      have hunknown : ¬ KnownPaid r id f := fun hknown =>
        not_processed hknown hc hcid hunpaid (not_suppressed h.unanswered fun _ => ha) hprocess
      simp only [Kept, hanswers, hnone, hunknown, hhours]
      simp [Answer.value, Answer.outcome]
    · rw [ha] at hhours
      have hkept : Kept r id f := .inl ⟨v, hpos, (hanswers v).mpr ⟨e, he, hv⟩⟩
      simp [hhours, hkept, Answer.value, Answer.outcome, isPaid, hpos]
    · rw [ha] at hhours
      have hdenied : ¬ Kept r id f := by
        rintro (⟨v, hpos, hv'⟩ | ⟨hnot, -⟩)
        · obtain ⟨e', he', hv'⟩ := (hanswers v).mp hv'
          obtain rfl := Option.some.inj (he.symm.trans he')
          obtain rfl := Option.some.inj (hv.symm.trans hv')
          exact lt_irrefl _ hpos
        · exact hnot ((hanswers 0).mpr ⟨e, he, hv⟩)
      simp [hhours, hdenied, Answer.value, Answer.outcome]
    · -- silence pays what the entry taken for the employee's pays
      rw [ha] at hhours
      have hsilent : ∀ v, ¬ Answers r id f v := by
        intro v hv'
        obtain ⟨e', he', hv'⟩ := (hanswers v).mp hv'
        obtain rfl := Option.some.inj (he.symm.trans he')
        rw [hv] at hv'
        cases hv'
      have hkept : Kept r id f ↔ KnownPaid r id f := by simp [Kept, hsilent]
      rw [hkept, knownPaid_iff, hhours]
      cases priorEntry r.ctx r.x none id with
      | none => simp [Answer.outcome]
      | some s =>
          cases hs : s.hours f with
          | none => simp [Answer.outcome, hs]
          | some w => by_cases hw : 0 < w <;> simp [Answer.outcome, hs, isPaid, hw, Option.filter]
  · have hunpaid := raw_unpaid h hprocess hasked hc hcid
    have hunknown : ¬ KnownPaid r id f := fun hknown =>
      not_processed hknown hc hcid hunpaid (not_suppressed h.unanswered fun h => absurd h hasked) hprocess
    have hkept : ¬ Kept r id f := by
      rintro (⟨v, -, hv, -⟩ | ⟨-, hknown⟩)
      · exact hasked hv
      · exact hunknown hknown
    have hnofill : ¬ ((priorEntry r.ctx r.x none id).any fun s => isPaid (s.hours f)) = true :=
      fun hfill => hunknown (knownPaid_iff.mpr hfill)
    rw [← hcee, hours_backfilled hc hcid, if_neg fun hfill => hnofill hfill.2.1, hunpaid]
    simp [hkept]

theorem dropsSilently_iff : DropsSilently r id f ↔ Owed r id f ∧ Processed r ∧ ¬ Kept r id f := by
  constructor
  · rintro ⟨howed, hprocess, ee, hee, heid, hunpaid⟩
    refine ⟨howed, hprocess, fun hkept => ?_⟩
    rw [(final_paid_iff howed hprocess hee heid).mpr hkept] at hunpaid
    cases hunpaid
  · rintro ⟨howed, hprocess, hdropped⟩
    obtain ⟨c, hc, hcid, -⟩ := howed.unpaidNow
    obtain ⟨ee, hee, heid⟩ := exists_finalEntry r.ctx hc hcid
    refine ⟨howed, hprocess, ee, hee, heid, ?_⟩
    rw [← Bool.not_eq_true, final_paid_iff howed hprocess hee heid]
    exact hdropped

/-- After a resume only the spellings of its round stand for anybody, and once
hours were asked about those of the snapshot. -/
theorem storedId_afterResume (r : ResumeStep) (candidates : AliasCandidates) (name : Str) :
    storedId (afterResume r candidates) name =
      if name ∈ r.x.combined.names ∨
          isRound2 (afterResume r candidates) = true ∧ name ∈ snapshotNames r.ctx then
        (reconcileName r.ctx.roster Dict.empty name).matchedEmployeeId
      else none := by
  have hstored : (nameToId (afterResume r candidates).reconciliation).get? name =
      if name ∈ r.x.combined.names then
        (reconcileName r.ctx.roster Dict.empty name).matchedEmployeeId
      else none := by
    simp only [afterResume, stageMatches, names_stagesInput, overrides_stagesArgs]
    exact get?_nameToId_reconcileNames ..
  have hroster : (afterResume r candidates).roster = r.ctx.roster := rfl
  have hnames : snapshotNames (afterResume r candidates) = snapshotNames r.ctx := rfl
  rw [storedId, hstored, hroster, hnames]
  by_cases hname : name ∈ r.x.combined.names
  · simp only [hname, true_or, if_true]
    split <;> simp
  · rw [if_neg hname, Option.none_or]
    simp only [hname, false_or]

/-- No hours line is dropped silently on any resume of a run where at every
resume it is kept, and any other resume that is processed drops it. -/
theorem no_silent_drop (ctx : ResumeContext) (inputs : List (Extractions × AliasCandidates)) (id : Uuid)
    (f : HoursField) :
    ((∀ r ∈ resumes ctx inputs, Owed r id f → Kept r id f) →
      ∀ r ∈ resumes ctx inputs, ¬ DropsSilently r id f) ∧
      ∀ r ∈ resumes ctx inputs, Owed r id f → Processed r → (DropsSilently r id f ↔ ¬ Kept r id f) := by
  constructor
  · intro hkept r hr hdrops
    exact (dropsSilently_iff.mp hdrops).2.2 (hkept r hr hdrops.toOwed)
  · intro r _ howed hprocess
    rw [dropsSilently_iff]
    exact ⟨fun h => h.2.2, fun h => ⟨howed, hprocess, h⟩⟩

section Restated

/-- Maria Chen was first written by her alias, Robert Li under no known name. -/
def chenSnapshot : Extracted :=
  ⟨9, [reported "m. chen".toList (whole 40) (whole 2), reported "bobby".toList (whole 10) none],
    none, none⟩

def chenQuestion : ResumeContext :=
  letI := asciiText
  let roster : Roster :=
    ⟨[hourlyWorker 1 "maria chen".toList ["m. chen".toList], hourlyWorker 2 "robert li".toList []],
      by decide⟩
  { runId := 9
    roster := roster
    reconciliation := reconcileNames chenSnapshot.names roster none
    snapshot := some chenSnapshot
    clarified := Dict.empty
    aliasCandidates := Dict.ofList [("bobby".toList, .record none none)] }

/-- A reply that restates Maria Chen by her full name. -/
def chenReply (overtime : Option ℚ≥0) (other : Str) : Extractions :=
  let x : Extracted :=
    ⟨9, [reported "maria chen".toList (whole 40) overtime, reported other (whole 10) none], none, none⟩
  ⟨x, x⟩

omit [PyText] in
/-- Two plain name questions. The stored reconciliation of the first reply no
longer carries the snapshot's spelling, so the overtime the second reply omits
is neither asked about nor paid. -/
theorem drops_silently_on_second_resume :
    letI := asciiText
    ¬∀ r ∈ resumes chenQuestion
        [(chenReply (some 2) "robertt".toList, Dict.empty),
          (chenReply none "robert li".toList, Dict.empty)],
      ¬DropsSilently r 1 .overtime := by
  let _ := asciiText
  intro h
  refine h _ (List.mem_cons_of_mem _ (List.mem_cons_self ..)) ⟨⟨?_, ?_, ?_⟩, ?_, ?_⟩
  · exact ⟨chenSnapshot, rfl, reported "m. chen".toList (some 40) (some 2), by decide +kernel,
      by unfold Resolves; decide +kernel, by decide +kernel⟩
  · exact ⟨reported "maria chen".toList (some 40) none, by decide +kernel,
      by unfold Resolves; decide +kernel, by decide +kernel⟩
  · decide +kernel
  · unfold Processed
    decide +kernel
  · exact ⟨reported "maria chen".toList (some 40) none, by decide +kernel,
      by unfold Resolves; decide +kernel, by decide +kernel⟩

omit [PyText] in
/-- The first reply without the overtime is asked about it. -/
theorem no_silent_drop_on_first_resume :
    letI := asciiText
    ¬DropsSilently ⟨chenQuestion, chenReply none "robert li".toList⟩ 1 .overtime := by
  let _ := asciiText
  have hlast : IsLast (fun e => storedId chenQuestion e.submittedName = some 1) chenSnapshot.employees
      (reported "m. chen".toList (whole 40) (whole 2)) := by
    rw [isLast_iff]
    decide +kernel
  have hkept : Kept ⟨chenQuestion, chenReply none "robert li".toList⟩ 1 .overtime := by
    refine .inr ⟨fun hdenied => ?_, _, .recorded rfl (.inl (by decide +kernel)) hlast, by decide +kernel⟩
    cases hdenied.1
  refine (no_silent_drop chenQuestion [(chenReply none "robert li".toList, Dict.empty)]
    1 .overtime).1 ?_ _ List.mem_cons_self
  intro r hr _
  obtain rfl := List.mem_singleton.mp hr
  exact hkept

end Restated

end PayrollAgent.SilentDrop
