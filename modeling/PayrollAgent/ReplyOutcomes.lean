import PayrollAgent.SnapshotIdentity

namespace PayrollAgent.ReplyOutcomes

open Lib Validate Backfill AliasLearning ReconcileNames RunStages Resume SnapshotIdentity

variable [PyText]

def finalExtracted (ctx : ResumeContext) (x : Extractions) : Extracted :=
  stageExtracted ctx.roster (stagesInput ctx x) (stagesArgs ctx x none)

def Agrees (replyValue : Option ℚ≥0) (questioned : ℚ≥0) (paid : Option ℚ≥0) :
    ClarifiedFieldOutcome → Prop
  | .asked => True
  | .clientSupplied => isPaid paid = true ∧ paid = replyValue
  | .confirmedDropped => isPaid paid = false
  | .carriedForward => paid = some questioned

def backfilled (ctx : ResumeContext) (x : Extractions) (emp : ExtractedEmployee) :
    ExtractedEmployee :=
  match ctx.snapshot with
  | none => emp
  | some snap =>
      backfillEmployee (idKeyed snap ((stagePriorMatches ctx.roster (stagesInput ctx x)
          (stagesArgs ctx x none)).getD []))
        (nameToId (stageMatches ctx.roster (stagesInput ctx x) (stagesArgs ctx x none)))
        (stagesArgs ctx x none).resolvedDrops emp

variable {ctx : ResumeContext} {x : Extractions}

theorem employees_finalExtracted (ctx : ResumeContext) (x : Extractions) :
    (finalExtracted ctx x).employees = (stagesInput ctx x).employees.map (backfilled ctx x) := by
  simp only [finalExtracted, stageExtracted, prior_stagesArgs]
  cases hs : ctx.snapshot with
  | none =>
      have hid : backfilled ctx x = id := by
        funext emp
        simp only [backfilled, hs, id]
      simp [hid]
  | some snap =>
      have hb : backfilled ctx x = backfillEmployee
          (idKeyed snap ((stagePriorMatches ctx.roster (stagesInput ctx x)
            (stagesArgs ctx x none)).getD []))
          (nameToId (stageMatches ctx.roster (stagesInput ctx x) (stagesArgs ctx x none)))
          (stagesArgs ctx x none).resolvedDrops := by
        funext emp
        simp only [backfilled, hs]
      simp only [backfillExtracted, hb]

@[simp] theorem submittedName_backfilled (emp : ExtractedEmployee) :
    (backfilled ctx x emp).submittedName = emp.submittedName := by
  unfold backfilled
  split
  · rfl
  · exact submittedName_backfillEmployee _ _ _ _

theorem nameToId_stageMatches {emp : ExtractedEmployee} (h : emp ∈ (stagesInput ctx x).employees) :
    (nameToId (stageMatches ctx.roster (stagesInput ctx x) (stagesArgs ctx x none))).get?
        emp.submittedName =
      (reconcileName ctx.roster Dict.empty emp.submittedName).matchedEmployeeId := by
  rw [stageMatches, overrides_stagesArgs]
  exact nameToId_reconcileNames _ _ (List.mem_map_of_mem h)

/-- Every field of an entry is its own value, or the paid snapshot value. -/
theorem hours_backfilled {emp : ExtractedEmployee} {id : Uuid}
    (hmem : emp ∈ (stagesInput ctx x).employees) (hid : Resolves ctx.roster emp.submittedName id)
    (f : HoursField) :
    (backfilled ctx x emp).hours f =
      if isPaid (emp.hours f) = false ∧
          ((priorEntry ctx x none id).any fun s => isPaid (s.hours f)) = true ∧
          (id, f) ∉ (stagesArgs ctx x none).resolvedDrops then
        (priorEntry ctx x none id).bind fun s => s.hours f
      else emp.hours f := by
  have hcurrent := (nameToId_stageMatches hmem).trans hid
  cases hs : ctx.snapshot with
  | none => simp [backfilled, priorEntry, hs]
  | some snap =>
      simp only [backfilled, priorEntry, hs, Option.bind_some]
      cases he : (idKeyed snap ((stagePriorMatches ctx.roster (stagesInput ctx x)
          (stagesArgs ctx x none)).getD [])).get? id with
      | none => rw [backfillEmployee_of_unmapped hcurrent he]; simp
      | some entry => rw [hours_backfillEmployee hcurrent he]; simp

section Round2

variable {id : Uuid} {f : HoursField}

theorem resolvedDrops_round2 (h : isRound2 ctx = true) :
    (stagesArgs ctx x none).resolvedDrops = backfillSkip ctx x.reply := by
  rw [stagesArgs, if_pos h]

/-- For a pair that was asked, only a given answer reaches the skip set. -/
theorem mem_backfillSkip (hasked : ctx.clarified.outcome id f = some .asked) (reply : Extracted) :
    (id, f) ∈ backfillSkip ctx reply ↔
      answer ctx reply id f = .unresolvable ∨ isResolved (answer ctx reply id f).outcome = true := by
  have hprior : (id, f) ∉ resolvedByName ctx.clarified := by
    rw [resolvedByName, mem_pairsWith, hasked]
    rintro ⟨o, ho, hr⟩
    obtain rfl := Option.some.inj ho
    cases hr
  rw [backfillSkip, List.mem_append, List.mem_append, List.mem_filter, mem_newlyClassified,
    mem_unresolvableAsked, outcome_classified, hasked]
  cases answer ctx reply id f <;> simp [hprior, Answer.outcome]

theorem outcome_of_asked (hasked : ctx.clarified.outcome id f = some .asked) :
    (clarifiedAtGate ctx x).outcome id f = some (answer ctx x.reply id f).outcome := by
  rw [clarifiedAtGate, if_pos (isRound2_of_outcome hasked), outcome_classified, hasked]
  rfl

theorem hours_stagesInput (hasked : ctx.clarified.outcome id f = some .asked)
    {ee : ExtractedEmployee} (hmem : ee ∈ (stagesInput ctx x).employees)
    (hid : Resolves ctx.roster ee.submittedName id) :
    ee.hours f = (answer ctx x.reply id f).value := by
  rw [stagesInput, if_pos (isRound2_of_outcome hasked)] at hmem
  obtain ⟨c, hc, rfl⟩ := List.mem_map.mp hmem
  rw [submittedName_overwriteEmployee] at hid
  have hname : c.submittedName ∈ x.combined.names := List.mem_map_of_mem hc
  have hcombined := (nameToId_reconcileNames ctx.roster none hname).trans hid
  rw [hours_overwriteEmployee hcombined, replyValueOverrides_get? _ _ hasked]
  rfl

def Silent (ctx : ResumeContext) (reply : Extracted) (id : Uuid) (f : HoursField) : Prop :=
  ∃ e, AnswersFor ctx reply id e ∧ e.hours f = none

theorem answer_cases (ctx : ResumeContext) (reply : Extracted) (id : Uuid) (f : HoursField) :
    (replyEntry ctx reply id = none ∧ answer ctx reply id f = .unresolvable) ∨
    (∃ e v, replyEntry ctx reply id = some e ∧ e.hours f = some v ∧ 0 < v ∧
      answer ctx reply id f = .answered .clientSupplied (some v)) ∨
    (∃ e, replyEntry ctx reply id = some e ∧ e.hours f = some 0 ∧
      answer ctx reply id f = .answered .confirmedDropped (some 0)) ∨
    (∃ e, replyEntry ctx reply id = some e ∧ e.hours f = none ∧
      answer ctx reply id f = .answered .carriedForward none) := by
  unfold answer classify
  cases replyEntry ctx reply id with
  | none => exact Or.inl ⟨rfl, rfl⟩
  | some e =>
      cases hv : e.hours f with
      | none => exact Or.inr (Or.inr (Or.inr ⟨e, rfl, hv, by simp [hv]⟩))
      | some v =>
          by_cases hpos : 0 < v
          · exact Or.inr (Or.inl ⟨e, v, rfl, hv, hpos, by simp [hv, hpos]⟩)
          · obtain rfl : v = 0 := by simpa using hpos
            exact Or.inr (Or.inr (Or.inl ⟨e, rfl, hv, by simp [hv]⟩))

theorem hours_finalExtracted (hasked : ctx.clarified.outcome id f = some .asked)
    {ee : ExtractedEmployee} (hmem : ee ∈ (finalExtracted ctx x).employees)
    (hid : Resolves ctx.roster ee.submittedName id) :
    ee.hours f = match (answer ctx x.reply id f).outcome with
      | .carriedForward => ((priorEntry ctx x none id).bind fun s => s.hours f).filter (0 < ·)
      | _ => (answer ctx x.reply id f).value := by
  rw [employees_finalExtracted] at hmem
  obtain ⟨emp, hemp, rfl⟩ := List.mem_map.mp hmem
  rw [submittedName_backfilled] at hid
  rw [hours_backfilled hemp hid, hours_stagesInput hasked hemp hid,
    resolvedDrops_round2 (isRound2_of_outcome hasked)]
  simp only [mem_backfillSkip hasked x.reply]
  rcases answer_cases ctx x.reply id f with
    ⟨-, ha⟩ | ⟨e, v, -, -, hpos, ha⟩ | ⟨e, -, -, ha⟩ | ⟨e, -, -, ha⟩
  · simp [ha, Answer.outcome, Answer.value]
  · simp [ha, Answer.outcome, Answer.value, isPaid, hpos]
  · simp [ha, Answer.outcome, Answer.value, isResolved]
  · cases priorEntry ctx x none id with
    | none => simp [ha, Answer.outcome, Answer.value]
    | some s =>
        cases hs : s.hours f with
        | none => simp [ha, Answer.outcome, Answer.value, hs]
        | some w => by_cases hw : 0 < w <;>
            simp [ha, Answer.outcome, Answer.value, isResolved, isPaid, hs, hw, Option.filter]

variable (ctx) in
theorem exists_finalEntry {c : ExtractedEmployee} (hc : c ∈ x.combined.employees)
    (hid : Resolves ctx.roster c.submittedName id) :
    ∃ ee ∈ (finalExtracted ctx x).employees, Resolves ctx.roster ee.submittedName id := by
  have hname : c.submittedName ∈ (finalExtracted ctx x).names := by
    rw [finalExtracted, names_stageExtracted, names_stagesInput]
    exact List.mem_map_of_mem hc
  obtain ⟨ee, hee, he⟩ := List.mem_map.mp hname
  exact ⟨ee, hee, he ▸ hid⟩

/-- On an asked pair the label and the paid value agree exactly when, in case
the reply is silent, the snapshot entry that is taken for the employee's carries
the value the question was about. -/
theorem label_matches_paid_iff {c : ExtractedEmployee} {questioned : ℚ≥0}
    (hquestioned : 0 < questioned) (hasked : ctx.clarified.outcome id f = some .asked)
    (hone : x.combined.employees.filter (fun e =>
      (reconcileName ctx.roster Dict.empty e.submittedName).matchedEmployeeId = some id) = [c]) :
    (∀ o, (clarifiedAtGate ctx x).outcome id f = some o →
      ∀ ee ∈ (finalExtracted ctx x).employees, Resolves ctx.roster ee.submittedName id →
        Agrees ((replyEntry ctx x.reply id).bind fun e => e.hours f) questioned (ee.hours f) o) ↔
    (Silent ctx x.reply id f →
      ∃ s, KnownAs ctx x.combined.names none id s ∧ s.hours f = some questioned) := by
  have hc : c ∈ x.combined.employees ∧ Resolves ctx.roster c.submittedName id := by
    have hm : c ∈ x.combined.employees.filter (fun e =>
        (reconcileName ctx.roster Dict.empty e.submittedName).matchedEmployeeId = some id) := by
      rw [hone]
      exact List.mem_singleton_self c
    rw [List.mem_filter, decide_eq_true_eq] at hm
    exact hm
  obtain ⟨ee, hee, heid⟩ := exists_finalEntry ctx hc.1 hc.2
  rw [outcome_of_asked hasked]
  simp only [← priorEntry_iff, ← Option.bind_eq_some_iff]
  constructor
  · rintro hagrees ⟨e, he, hsilent⟩
    rw [← replyEntry_iff] at he
    have hanswer : answer ctx x.reply id f = .answered .carriedForward none := by
      simp [answer, he, classify, hsilent]
    have hpaid := hagrees _ rfl ee hee heid
    have hhours := hours_finalExtracted hasked hee heid
    rw [hanswer] at hpaid hhours
    have hfilter : ((priorEntry ctx x none id).bind fun s => s.hours f).filter (0 < ·) =
        some questioned := hhours.symm.trans hpaid
    exact (Option.filter_eq_some_iff.mp hfilter).1
  · intro hcond o ho ee hee heid
    obtain rfl := Option.some.inj ho
    have hhours := hours_finalExtracted hasked hee heid
    rcases answer_cases ctx x.reply id f with
      ⟨-, ha⟩ | ⟨e, v, he, hv, hpos, ha⟩ | ⟨e, -, -, ha⟩ | ⟨e, he, hsilent, ha⟩
    · rw [ha]
      trivial
    · rw [ha] at hhours ⊢
      rw [hhours, he]
      exact ⟨by simp [Answer.value, Answer.outcome, isPaid, hpos], hv.symm⟩
    · rw [ha] at hhours ⊢
      rw [hhours]
      exact isPaid_zero
    · rw [ha] at hhours ⊢
      rw [hhours, hcond ⟨e, replyEntry_iff.mp he, hsilent⟩]
      simp [Agrees, Answer.outcome, hquestioned, Option.filter]

end Round2

section Bridge

def sandyRoster : Roster := ⟨[hourlyWorker 1 "sandra kim".toList []], by decide⟩

def sandySnapshot : Extracted := ⟨9, [reported "sandy".toList (whole 20) (whole 10)], none, none⟩

def sandraReply : Extracted := ⟨9, [reported "sandra kim".toList (whole 40) none], none, none⟩

def afterQuestion : ResumeContext :=
  letI := asciiText
  { runId := 9
    roster := sandyRoster
    reconciliation := reconcileNames sandySnapshot.names sandyRoster none
    snapshot := some sandySnapshot
    clarified := Dict.empty
    aliasCandidates := Dict.ofList [("sandy".toList, .record (some (.uuid 1)) none)] }

def afterConfirmation : ResumeContext :=
  letI := asciiText
  let s := stageMatches sandyRoster sandraReply (stagesArgs afterQuestion ⟨sandraReply, sandraReply⟩ none)
  { afterQuestion with
    reconciliation := s
    clarified := deferredOutcomes s Dict.empty
      (stageIssues sandyRoster sandraReply (stagesArgs afterQuestion ⟨sandraReply, sandraReply⟩ none)) }

omit [PyText] in
/-- The first reply is bridged and the dropped overtime asked about. The second
reply is silent, is labelled carried forward, and the run is processed with the
overtime unpaid: the name is mapped now, so the bridge no longer forms. -/
theorem carried_forward_unpaid :
    letI := asciiText
    stageDrops sandyRoster sandraReply
        (stagesArgs afterQuestion ⟨sandraReply, sandraReply⟩ none) =
      [⟨"sandra kim".toList, .overtime, 10, none⟩] ∧
    afterConfirmation.clarified.outcome 1 .overtime = some .asked ∧
    (stageDecision sandyRoster (stagesInput afterConfirmation ⟨sandraReply, sandraReply⟩)
      (stagesArgs afterConfirmation ⟨sandraReply, sandraReply⟩ none)).finalAction = .process ∧
    ¬∀ o, (clarifiedAtGate afterConfirmation ⟨sandraReply, sandraReply⟩).outcome 1 .overtime =
        some o →
      ∀ ee ∈ (finalExtracted afterConfirmation ⟨sandraReply, sandraReply⟩).employees,
        Resolves sandyRoster ee.submittedName 1 →
          Agrees ((replyEntry afterConfirmation sandraReply 1).bind fun e => e.hours .overtime) 10
            (ee.hours .overtime) o := by
  refine ⟨by decide +kernel, by decide +kernel, by decide +kernel, fun h => ?_⟩
  have hpaid : (none : Option ℚ≥0) = some 10 :=
    h .carriedForward (by decide +kernel) (reported "sandra kim".toList (some 40) none)
      (by decide +kernel) (by unfold Resolves; decide +kernel)
  cases hpaid

def aliasedQuestion : ResumeContext :=
  letI := asciiText
  let roster : Roster := ⟨[hourlyWorker 1 "sandra kim".toList ["sandy".toList]], by decide⟩
  { runId := 9
    roster := roster
    reconciliation := reconcileNames sandraReply.names roster none
    snapshot := some sandySnapshot
    clarified := Dict.ofList [(1, Dict.ofList [(.overtime, .asked)])]
    aliasCandidates := Dict.empty }

omit [PyText] in
/-- The silent reply is carried forward, and the ten hours of overtime are paid. -/
theorem label_matches_paid_aliased :
    letI := asciiText
    (clarifiedAtGate aliasedQuestion ⟨sandraReply, sandraReply⟩).outcome 1 .overtime =
        some .carriedForward ∧
      (finalExtracted aliasedQuestion ⟨sandraReply, sandraReply⟩).employees =
        [reported "sandra kim".toList (some 40) (some 10)] ∧
      Agrees ((replyEntry aliasedQuestion sandraReply 1).bind fun e => e.hours .overtime) 10
        ((reported "sandra kim".toList (some 40) (some 10)).hours .overtime) .carriedForward := by
  let _ := asciiText
  have hanswered : (clarifiedAtGate aliasedQuestion ⟨sandraReply, sandraReply⟩).outcome 1 .overtime =
      some .carriedForward := by
    decide +kernel
  have hemployees : (finalExtracted aliasedQuestion ⟨sandraReply, sandraReply⟩).employees =
      [reported "sandra kim".toList (some 40) (some 10)] := by
    decide +kernel
  refine ⟨hanswered, hemployees, ?_⟩
  have hknown : KnownAs aliasedQuestion sandraReply.names none 1
    (reported "sandy".toList (some 20) (some 10)) :=
    .recorded rfl (.inl (by decide +kernel)) ⟨[], [], rfl, by decide +kernel,
      fun _ h => absurd h List.not_mem_nil⟩
  refine (label_matches_paid_iff (c := reported "sandra kim".toList (some 40) none) (by decide)
    (by decide +kernel) (by decide +kernel)).mpr (fun _ => ⟨_, hknown, rfl⟩) _ hanswered _ ?_ ?_
  · rw [hemployees]
    exact List.mem_singleton_self _
  · unfold Resolves
    decide +kernel

end Bridge

end PayrollAgent.ReplyOutcomes
