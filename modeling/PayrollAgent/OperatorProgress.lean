import PayrollAgent.ReclaimedResolution

namespace PayrollAgent.OperatorProgress

open Lib Lib.Prog Validate Backfill AliasLearning ReconcileNames RunStages Resume OutcomeOrder Repo
  Calculate
  Orchestrator Handlers Rounds CombinedEmail ClarificationWrites ReclaimedResume ReclaimedResolution
    BoundedQuestions
  QuestionSteps OperatorAuthority
open Decide hiding decide

def paidPart (v : Option ℚ≥0) : Option ℚ≥0 := v.filter (0 < ·)

theorem isPaid_paidPart (v : Option ℚ≥0) : isPaid v = (paidPart v).isSome := by
  cases v with
  | none => rfl
  | some q => by_cases hq : 0 < q <;> simp [isPaid, paidPart, hq]

theorem paidPart_of_unpaid {v : Option ℚ≥0} (h : isPaid v = false) : paidPart v = none := by
  rw [isPaid_paidPart] at h
  simpa using h

structure SamePay (e e' : ExtractedEmployee) : Prop where
  name : e'.submittedName = e.submittedName
  pay : ∀ f, paidPart (e'.hours f) = paidPart (e.hours f)

def withHours (e : ExtractedEmployee) (hours : HoursField → Option ℚ≥0) : ExtractedEmployee :=
  { e with
    hoursRegular := hours .regular
    hoursOvertime := hours .overtime
    hoursVacation := hours .vacation
    hoursSick := hours .sick
    hoursHoliday := hours .holiday }

@[simp] theorem hours_withHours (e : ExtractedEmployee) (hours : HoursField → Option ℚ≥0)
    (f : HoursField) : (withHours e hours).hours f = hours f := by
  cases f <;> rfl

section

variable [PyText] {matches' : List NameMatchResult} {roster : Roster} {e e' : ExtractedEmployee}

def HoursClear (matches' : List NameMatchResult) (roster : Roster) (e : ExtractedEmployee) : Prop :=
  missingHoursIssue matches' roster e = none ∧ overtimeIssue matches' roster e = none

omit [PyText] in
theorem SamePay.isPaid_eq (h : SamePay e e') (f : HoursField) :
    isPaid (e'.hours f) = isPaid (e.hours f) := by
  rw [isPaid_paidPart, isPaid_paidPart, h.pay f]

omit [PyText] in
theorem SamePay.overThreshold_eq (h : SamePay e e') (threshold : ℚ≥0) :
    overThreshold e' threshold = overThreshold e threshold := by
  have hpart : ∀ v : Option ℚ≥0, v.filter (threshold < ·) = (paidPart v).filter (threshold < ·) := by
    intro v
    rw [paidPart, Option.filter_filter]
    refine congrArg (Option.filter · v) (funext fun q => ?_)
    by_cases hover : threshold < q
    · have hpos : 0 < q := lt_of_le_of_lt threshold.coe_nonneg hover
      rw [decide_eq_true hover, decide_eq_true hpos]
      rfl
    · rw [decide_eq_false hover, Bool.and_false]
  have hovertime : isPaid e'.hoursOvertime = isPaid e.hoursOvertime := h.isPaid_eq .overtime
  have hregular : paidPart e'.hoursRegular = paidPart e.hoursRegular := h.pay .regular
  rw [overThreshold, overThreshold, hovertime, hpart, hregular, ← hpart]

theorem SamePay.hoursClear (h : SamePay e e') : HoursClear matches' roster e' ↔
    HoursClear matches' roster e := by
  have hpaid : (HoursField.all.any fun f => isPaid (e'.hours f)) = HoursField.all.any fun f =>
    isPaid (e.hours f) :=
    congrArg HoursField.all.any (funext h.isPaid_eq)
  refine and_congr ?_ ?_
  · rw [missingHoursIssue, missingHoursIssue, hpaid, h.name]
  · rw [overtimeIssue, overtimeIssue, h.name]
    split
    · rw [h.overThreshold_eq]
    · rw [h.overThreshold_eq]
    · exact Iff.rfl

end

section

variable [PyText]

def mappedId (ctx : ResumeContext) (mapping : Overrides) (name : Str) : Option Uuid :=
  (reconcileName ctx.roster mapping name).matchedEmployeeId

def mapped (ctx : ResumeContext) (mapping : Overrides) (x : Extractions) : List NameMatchResult :=
  reconcileNames x.combined.names ctx.roster (some mapping)

def snapshotOf (ctx : ResumeContext) (mapping : Overrides) (x : Extractions) (id : Uuid) :
    Option ExtractedEmployee :=
  ctx.snapshot.bind fun snap =>
    (idKeyed snap ((stagePriorMatches ctx.roster (stagesInput ctx x)
      (stagesArgs ctx x (some mapping))).getD [])).get? id

def snapshotPays (ctx : ResumeContext) (mapping : Overrides) (x : Extractions) (id : Uuid)
    (f : HoursField) : Bool :=
  (snapshotOf ctx mapping x id).any fun s => isPaid (s.hours f)

structure Clear (ctx : ResumeContext) (mapping : Overrides) (x : Extractions) : Prop where
  resolved : ∀ m ∈ mapped ctx mapping x, m.resolved = true
  distinct : checkOneToOne (mapped ctx mapping x) = []
  hours : ∀ e ∈ x.combined.employees, HoursClear (mapped ctx mapping x) ctx.roster e
  paid : ∀ id f, snapshotPays ctx mapping x id f = true → ∃ e ∈ x.combined.employees,
    mappedId ctx mapping e.submittedName = some id ∧ isPaid (e.hours f) = true

/-- The field is still outstanding for the employee that the name alone
resolves to. -/
def stillAsked (ctx : ResumeContext) (e : ExtractedEmployee) (f : HoursField) : Bool :=
  (reconcileName ctx.roster Dict.empty e.submittedName).matchedEmployeeId.any fun id =>
    ctx.clarified.outcome id f = some .asked

def carried (ctx : ResumeContext) (mapping : Overrides) (x : Extractions) (e : ExtractedEmployee)
    (f : HoursField) : Option ℚ≥0 :=
  (mappedId ctx mapping e.submittedName).bind fun id =>
    if ctx.clarified.outcome id f = some .carriedForward then
      (snapshotOf ctx mapping x id).bind fun s => s.hours f
    else none

def unanswered (ctx : ResumeContext) (mapping : Overrides) (x : Extractions) (e : ExtractedEmployee) :
    ExtractedEmployee :=
  withHours e fun f => if stillAsked ctx e f then carried ctx mapping x e f else e.hours f

/-- Without its outstanding fields the entry pays what the snapshot pays, and
leaves nothing to ask. -/
structure Harmless (ctx : ResumeContext) (mapping : Overrides) (x : Extractions)
    (e : ExtractedEmployee) : Prop where
  kept : ∀ f id, stillAsked ctx e f = true → mappedId ctx mapping e.submittedName = some id →
    snapshotPays ctx mapping x id f = true → (ctx.clarified.outcome id f).any isTerminal = true
  hours : HoursClear (mapped ctx mapping x) ctx.roster (unanswered ctx mapping x e)

variable {ctx : ResumeContext} {mapping : Overrides} {x : Extractions} {e : ExtractedEmployee} {id : Uuid}
  {f : HoursField}

theorem matches_eq : stageMatches ctx.roster (stagesInput ctx x) (stagesArgs ctx x (some mapping)) =
    mapped ctx mapping x := by
  rw [stageMatches, names_stagesInput, overrides_stagesArgs, mapped]

theorem nameToId_mapped (he : e ∈ x.combined.employees) :
    (nameToId (mapped ctx mapping x)).get? e.submittedName = mappedId ctx mapping e.submittedName :=
  nameToId_reconcileNames _ _ (List.mem_map_of_mem he)

theorem answer_silent (hsilent : x.reply.employees = []) : answer ctx x.reply id f = .unresolvable := by
  rw [answer, replyEntry, hsilent]
  rfl

theorem mem_suppressDetection (hsilent : isRound2 ctx = true → x.reply.employees = []) :
    (id, f) ∈ (stagesArgs ctx x (some mapping)).suppressDetection ↔
      (ctx.clarified.outcome id f).any isTerminal = true := by
  by_cases hround : isRound2 ctx = true
  · rw [stagesArgs, if_pos hround]
    simp only [suppressDetection, List.mem_append, resolvedByName, priorCarriedForward, mem_pairsWith,
      mem_newlyClassified, answer_silent (hsilent hround)]
    cases ctx.clarified.outcome id f with
    | none => simp
    | some o => cases o <;> simp [isResolved, isTerminal]
  · rw [stagesArgs, if_neg hround]
    cases ho : ctx.clarified.outcome id f with
    | none => simp
    | some o => exact absurd (isRound2_of_outcome ho) hround

theorem mem_resolvedDrops (hsilent : isRound2 ctx = true → x.reply.employees = []) :
    (id, f) ∈ (stagesArgs ctx x (some mapping)).resolvedDrops ↔
      ∃ o, ctx.clarified.outcome id f = some o ∧ o ≠ .carriedForward := by
  by_cases hround : isRound2 ctx = true
  · rw [stagesArgs, if_pos hround]
    simp only [backfillSkip, List.mem_append, List.mem_filter, resolvedByName, mem_pairsWith,
      mem_newlyClassified, mem_unresolvableAsked, answer_silent (hsilent hround)]
    cases ctx.clarified.outcome id f with
    | none => simp
    | some o => cases o <;> simp [isResolved]
  · rw [stagesArgs, if_neg hround]
    cases ho : ctx.clarified.outcome id f with
    | none => simp
    | some o => exact absurd (isRound2_of_outcome ho) hround

def blanked (ctx : ResumeContext) (x : Extractions) (e : ExtractedEmployee) : ExtractedEmployee :=
  if isRound2 ctx then
    overwriteEmployee (replyValueOverrides ctx x.reply)
      (nameToId (reconcileNames x.combined.names ctx.roster none)) e
  else e

theorem employees_stagesInput : (stagesInput ctx x).employees = x.combined.employees.map
    (blanked ctx x) := by
  unfold stagesInput blanked
  by_cases hround : isRound2 ctx = true
  · simp only [hround, if_true]
    rfl
  · simp only [hround]
    exact (List.map_id _).symm

theorem submittedName_blanked : (blanked ctx x e).submittedName = e.submittedName := by
  unfold blanked
  split
  · exact submittedName_overwriteEmployee ..
  · rfl

theorem hours_blanked (hsilent : isRound2 ctx = true → x.reply.employees = [])
    (he : e ∈ x.combined.employees)
    (f : HoursField) :
    (blanked ctx x e).hours f = if stillAsked ctx e f = true then none else e.hours f := by
  have hmem : e.submittedName ∈ x.combined.names := List.mem_map_of_mem he
  have hname := nameToId_reconcileNames ctx.roster none hmem
  rw [Option.getD_none] at hname
  unfold stillAsked blanked
  by_cases hround : isRound2 ctx = true
  · rw [if_pos hround]
    cases hid : (reconcileName ctx.roster Dict.empty e.submittedName).matchedEmployeeId with
    | none =>
        rw [overwriteEmployee, hname, hid]
        rfl
    | some id =>
        rw [hours_overwriteEmployee (hname.trans hid), Option.any_some]
        by_cases hasked : ctx.clarified.outcome id f = some .asked
        · rw [replyValueOverrides_get? _ _ hasked, answer_silent (hsilent hround)]
          simp [hasked, Answer.value]
        · have hnone : (replyValueOverrides ctx x.reply).get? (id, f) = none := by
            rw [replyValueOverrides, Dict.get?_ofList_map fun p : Uuid × HoursField =>
              (answer ctx x.reply p.1 p.2).value,
              if_neg fun h => hasked ((mem_askedPairs _ _ _).mp h)]
          rw [hnone]
          simp [hasked]
  · rw [if_neg hround]
    have hopen : ∀ id, ¬ ctx.clarified.outcome id f = some .asked :=
      fun id h => hround (isRound2_of_outcome h)
    cases (reconcileName ctx.roster Dict.empty e.submittedName).matchedEmployeeId with
    | none => rfl
    | some id => simp [hopen id]

def final (ctx : ResumeContext) (mapping : Overrides) (x : Extractions) (e : ExtractedEmployee) :
    ExtractedEmployee :=
  match ctx.snapshot with
  | none => blanked ctx x e
  | some snap =>
      backfillEmployee
        (idKeyed snap ((stagePriorMatches ctx.roster (stagesInput ctx x)
        (stagesArgs ctx x (some mapping))).getD []))
        (nameToId (mapped ctx mapping x)) (stagesArgs ctx x (some mapping)).resolvedDrops
        (blanked ctx x e)

theorem employees_final :
    (stageExtracted ctx.roster (stagesInput ctx x) (stagesArgs ctx x (some mapping))).employees =
      x.combined.employees.map (final ctx mapping x) := by
  rw [stageExtracted, prior_stagesArgs]
  unfold final
  cases ctx.snapshot with
  | none => exact employees_stagesInput
  | some snap =>
      simp only [backfillExtracted, employees_stagesInput, List.map_map, matches_eq]
      rfl

theorem submittedName_final : (final ctx mapping x e).submittedName = e.submittedName := by
  unfold final
  split
  · exact submittedName_blanked
  · exact (submittedName_backfillEmployee ..).trans submittedName_blanked

theorem hours_final (he : e ∈ x.combined.employees) (hid : mappedId ctx mapping e.submittedName = some id)
    (f : HoursField) : (final ctx mapping x e).hours f =
      if isPaid ((blanked ctx x e).hours f) = false ∧ snapshotPays ctx mapping x id f = true ∧
        (id, f) ∉ (stagesArgs ctx x (some mapping)).resolvedDrops then
        (snapshotOf ctx mapping x id).bind fun s => s.hours f
      else (blanked ctx x e).hours f := by
  have hname : (nameToId (mapped ctx mapping x)).get? (blanked ctx x e).submittedName = some id := by
    rw [submittedName_blanked, nameToId_mapped he, hid]
  unfold final snapshotPays snapshotOf
  cases ctx.snapshot with
  | none => simp
  | some snap =>
      dsimp only
      rw [Option.bind_some]
      cases hsnap : (idKeyed snap ((stagePriorMatches ctx.roster (stagesInput ctx x)
          (stagesArgs ctx x (some mapping))).getD [])).get? id with
      | none =>
          rw [backfillEmployee_of_unmapped hname hsnap]
          simp
      | some entry =>
          rw [hours_backfillEmployee hname hsnap]
          rfl

theorem exists_mappedId (hclear : Clear ctx mapping x) (he : e ∈ x.combined.employees) :
    ∃ id, mappedId ctx mapping e.submittedName = some id := by
  have hmem : reconcileName ctx.roster mapping e.submittedName ∈ mapped ctx mapping x :=
    reconcileName_mem ctx.roster (some mapping) (List.mem_map_of_mem he)
  exact (NameMatchResult.resolved_iff _).mp (hclear.resolved _ hmem)

theorem entry_unique (hclear : Clear ctx mapping x) {a b : ExtractedEmployee}
    (ha : a ∈ x.combined.employees)
    (hb : b ∈ x.combined.employees) (hida : mappedId ctx mapping a.submittedName = some id)
    (hidb : mappedId ctx mapping b.submittedName = some id) : a = b := by
  obtain ⟨hcollisions, hduplicates⟩ := List.append_eq_nil_iff.mp hclear.distinct
  have hnames := (nodup_of_duplicateReasons hduplicates).1
  rw [mapped, map_submittedName_reconcileNames] at hnames
  have hname := same_name_of_collisionReasons hcollisions
    (reconcileName_mem ctx.roster (some mapping) (List.mem_map_of_mem ha))
    (reconcileName_mem ctx.roster (some mapping) (List.mem_map_of_mem hb)) hida hidb
  rw [submittedName_reconcileName, submittedName_reconcileName] at hname
  exact List.inj_on_of_nodup_map hnames ha hb hname

theorem paid_of_snapshotPays (hclear : Clear ctx mapping x) (he : e ∈ x.combined.employees)
    (hid : mappedId ctx mapping e.submittedName = some id)
    (hpays : snapshotPays ctx mapping x id f = true) : isPaid (e.hours f) = true := by
  obtain ⟨e', he', hid', hpaid⟩ := hclear.paid id f hpays
  rwa [entry_unique hclear he he' hid hid']

/-- The entry goes on without its outstanding fields, where that is no
regression. -/
theorem samePay_final (hclear : Clear ctx mapping x)
    (hsilent : isRound2 ctx = true → x.reply.employees = [])
    (he : e ∈ x.combined.employees) (hid : mappedId ctx mapping e.submittedName = some id)
    (hkept : ∀ f, stillAsked ctx e f = true → snapshotPays ctx mapping x id f = true →
      (ctx.clarified.outcome id f).any isTerminal = true) :
    SamePay (unanswered ctx mapping x e) (final ctx mapping x e) := by
  refine ⟨submittedName_final, fun f => ?_⟩
  rw [hours_final he hid, unanswered, hours_withHours, hours_blanked hsilent he]
  by_cases hasked : stillAsked ctx e f = true
  · simp only [hasked, if_true, isPaid_none, true_and, mem_resolvedDrops hsilent]
    rw [carried, hid, Option.bind_some]
    by_cases hpays : snapshotPays ctx mapping x id f = true
    · have hterminal := hkept f hasked hpays
      cases ho : ctx.clarified.outcome id f with
      | none => simp [ho] at hterminal
      | some o =>
          cases o with
          | asked => simp [ho, isTerminal] at hterminal
          | carriedForward => simp [hpays]
          | confirmedDropped => simp
          | clientSupplied => simp
    · have hunpaid : isPaid ((snapshotOf ctx mapping x id).bind fun s => s.hours f) = false := by
        rw [snapshotPays] at hpays
        cases hs : snapshotOf ctx mapping x id with
        | none => rfl
        | some s => simpa [hs] using hpays
      rw [if_neg fun h => hpays h.1]
      split
      · exact (paidPart_of_unpaid hunpaid).symm
      · rfl
  · have hsame : (if stillAsked ctx e f = true then none else e.hours f) = e.hours f := if_neg hasked
    rw [hsame, if_neg hasked, if_neg]
    rintro ⟨hunpaid, hpays, -⟩
    rw [paid_of_snapshotPays hclear he hid hpays] at hunpaid
    cases hunpaid

abbrev issuesOf (ctx : ResumeContext) (mapping : Overrides) (x : Extractions) : List ValidationIssue :=
  stageIssues ctx.roster (stagesInput ctx x) (stagesArgs ctx x (some mapping))

theorem process_iff_issues (hclear : Clear ctx mapping x) :
    (stageDecision ctx.roster (stagesInput ctx x) (stagesArgs ctx x (some mapping))).finalAction =
        .process ↔
      x.combined.employees ≠ [] ∧ (∀ i ∈ issuesOf ctx mapping x, i.issueType ≠ .missing) ∧
        ∀ i ∈ issuesOf ctx mapping x, i.issueType ≠ .fieldRegression := by
  have hnames : (stageExtracted ctx.roster (stagesInput ctx x) (stagesArgs ctx x (some mapping))).names =
      x.combined.names := by
    rw [names_stageExtracted, names_stagesInput]
  have hsubmitted : (mapped ctx mapping x).map NameMatchResult.submittedName = x.combined.names :=
    map_submittedName_reconcileNames ..
  have hempty : (stageExtracted ctx.roster (stagesInput ctx x)
    (stagesArgs ctx x (some mapping))).employees = [] ↔ x.combined.employees = [] := by
    rw [employees_final, List.map_eq_nil_iff]
  have hresolved : (mapped ctx mapping x).filter (fun m => !m.resolved) = [] :=
    List.filter_eq_nil_iff.mpr fun m hm => by simp [hclear.resolved m hm]
  rw [stageDecision, decide_finalAction_eq_process, matches_eq]
  simp only [gateReasons, hnames, hsubmitted, hresolved, hclear.distinct, ne_eq, hempty,
    not_true_eq_false, and_false,
    if_false, List.append_nil, List.map_nil, List.append_eq_nil_iff, List.map_eq_nil_iff,
      issueFields_eq_nil_iff,
    ite_eq_right_iff, List.cons_ne_nil, imp_false, and_assoc]

theorem missing_iff : (∀ i ∈ issuesOf ctx mapping x, i.issueType ≠ .missing) ↔
    ∀ e ∈ x.combined.employees, HoursClear (mapped ctx mapping x) ctx.roster (final ctx mapping x e) := by
  rw [issuesOf, stageIssues, matches_eq, validate, employees_final]
  constructor
  · intro hnone e he
    have hfinal : final ctx mapping x e ∈ x.combined.employees.map (final ctx mapping x) :=
      List.mem_map_of_mem he
    constructor
    · by_contra hissue
      obtain ⟨i, hi⟩ := Option.ne_none_iff_exists'.mp hissue
      exact hnone i (List.mem_append_left _ (List.mem_append_right _
        (List.mem_filterMap.mpr ⟨_, hfinal, hi⟩))) (issueType_missingHoursIssue hi)
    · by_contra hissue
      obtain ⟨i, hi⟩ := Option.ne_none_iff_exists'.mp hissue
      exact hnone i (List.mem_append_right _ (List.mem_filterMap.mpr ⟨_, hfinal, hi⟩))
        (issueType_overtimeIssue hi)
  · intro hclear i hi htype
    rcases List.mem_append.mp hi with hi | hi
    · rcases List.mem_append.mp hi with hi | hi
      · obtain ⟨d, -, hd⟩ := List.mem_filterMap.mp hi
        split at hd
        · cases hd
        · split at hd
          · cases hd
          · cases hd
            cases htype
      · obtain ⟨e', he', hissue⟩ := List.mem_filterMap.mp hi
        obtain ⟨e, he, rfl⟩ := List.mem_map.mp he'
        rw [(hclear e he).1] at hissue
        cases hissue
    · obtain ⟨e', he', hissue⟩ := List.mem_filterMap.mp hi
      obtain ⟨e, he, rfl⟩ := List.mem_map.mp he'
      rw [(hclear e he).2] at hissue
      cases hissue

theorem idKeyed_blanked (hclear : Clear ctx mapping x) (he : e ∈ x.combined.employees)
    (hid : mappedId ctx mapping e.submittedName = some id) :
    (idKeyed (stagesInput ctx x) (mapped ctx mapping x)).get? id = some (blanked ctx x e) := by
  have hmem : blanked ctx x e ∈ (stagesInput ctx x).employees := by
    rw [employees_stagesInput]
    exact List.mem_map_of_mem he
  have hpair : (id, blanked ctx x e) ∈ (stagesInput ctx x).employees.filterMap fun c =>
      ((nameToId (mapped ctx mapping x)).get? c.submittedName).map fun i => (i, c) := by
    refine List.mem_filterMap.mpr ⟨_, hmem, ?_⟩
    rw [submittedName_blanked, nameToId_mapped he, hid]
    rfl
  obtain ⟨entry, hentry⟩ := Dict.get?_ofList_isSome hpair
  obtain ⟨hkept, hname⟩ := idKeyed_mem hentry
  rw [employees_stagesInput] at hkept
  obtain ⟨e', he', rfl⟩ := List.mem_map.mp hkept
  rw [submittedName_blanked, nameToId_mapped he'] at hname
  rw [entry_unique hclear he he' hid hname]
  exact hentry

theorem priors_some : ∃ prior, stagePriorMatches ctx.roster (stagesInput ctx x)
    (stagesArgs ctx x (some mapping)) = some prior := by
  unfold stagePriorMatches stagesArgs confirmedPriorMatches
  split <;> exact ⟨_, rfl⟩

theorem regression_iff (hclear : Clear ctx mapping x)
    (hsilent : isRound2 ctx = true → x.reply.employees = []) :
    (∀ i ∈ issuesOf ctx mapping x, i.issueType ≠ .fieldRegression) ↔
      ∀ e ∈ x.combined.employees, ∀ f id, stillAsked ctx e f = true →
      mappedId ctx mapping e.submittedName = some id →
        snapshotPays ctx mapping x id f = true → (ctx.clarified.outcome id f).any isTerminal = true := by
  obtain ⟨prior, hprior⟩ := @priors_some _ ctx mapping x
  constructor
  · intro hnone e he f id hasked hid hpays
    by_contra hopen
    obtain ⟨s, hs, hpaid⟩ := (Option.any_eq_true _ _).mp hpays
    obtain ⟨snap, hsnap, hentry⟩ := Option.bind_eq_some_iff.mp hs
    rw [hprior, Option.getD_some] at hentry
    obtain ⟨v, hv, hpos⟩ := (isPaid_iff _).mp hpaid
    have hgone : isPaid ((blanked ctx x e).hours f) = false := by
      rw [hours_blanked hsilent he, if_pos hasked]
      rfl
    have hdrop : ⟨(blanked ctx x e).submittedName, f, v, (blanked ctx x e).hours f⟩ ∈
        stageDrops ctx.roster (stagesInput ctx x) (stagesArgs ctx x (some mapping)) := by
      simp only [stageDrops, prior_stagesArgs, hsnap, hprior, matches_eq]
      exact mem_detectFieldRegression hentry (idKeyed_blanked hclear he hid) hv hpos hgone
    have hname : (nameToId (mapped ctx mapping x)).get? (blanked ctx x e).submittedName = some id := by
      rw [submittedName_blanked, nameToId_mapped he, hid]
    have hopen' : (id, f) ∉ (stagesArgs ctx x (some mapping)).suppressDetection := fun h =>
      hopen ((mem_suppressDetection hsilent).mp h)
    obtain ⟨i, hi, htype⟩ := exists_regressionIssue hdrop hname hopen'
    refine hnone i ?_ htype
    rw [issuesOf, stageIssues, matches_eq]
    exact List.mem_append_left _ (List.mem_append_left _ hi)
  · intro hkept i hi htype
    rw [issuesOf, stageIssues, matches_eq] at hi
    obtain ⟨d, hd, id, hname, hopen, -⟩ := exists_drop_of_issue (mem_regressionIssues hi htype)
    rw [stageDrops, prior_stagesArgs, hprior, matches_eq] at hd
    cases hsnap : ctx.snapshot with
    | none =>
        rw [hsnap] at hd
        cases hd
    | some snap =>
        rw [hsnap] at hd
        obtain ⟨id', o, c, ho, hc, hsame, hpaid, hgone⟩ := HoursVisibility.exists_of_mem_drops
          (x := ⟨ctx.roster, snap, stagesInput ctx x, stagesInput ctx x, prior,
          mapped ctx mapping x, []⟩) hd
        obtain ⟨hentry, hid'⟩ := idKeyed_mem hc
        change c ∈ (stagesInput ctx x).employees at hentry
        rw [employees_stagesInput] at hentry
        obtain ⟨e, he, rfl⟩ := List.mem_map.mp hentry
        change (nameToId (mapped ctx mapping x)).get? (blanked ctx x e).submittedName = some id' at hid'
        rw [hsame, hid'] at hname
        obtain rfl := Option.some.inj hname
        rw [submittedName_blanked, nameToId_mapped he] at hid'
        have hpays : snapshotPays ctx mapping x id' d.field = true := by
          rw [snapshotPays, snapshotOf, hsnap, Option.bind_some, hprior, Option.getD_some]
          exact (Option.any_eq_true _ _).mpr ⟨o, ho, hpaid⟩
        refine hopen ((mem_suppressDetection hsilent).mpr (hkept e he d.field id' ?_ hid' hpays))
        rw [hours_blanked hsilent he] at hgone
        by_contra hasked
        rw [if_neg hasked, paid_of_snapshotPays hclear he hid' hpays] at hgone
        cases hgone

/-- A clear extraction is processed if and only if it has an employee, and
none of its entries suffers from the fields still outstanding. -/
theorem process_iff (hclear : Clear ctx mapping x)
    (hsilent : isRound2 ctx = true → x.reply.employees = []) :
    (stageDecision ctx.roster (stagesInput ctx x) (stagesArgs ctx x (some mapping))).finalAction =
        .process ↔
      x.combined.employees ≠ [] ∧ ∀ e ∈ x.combined.employees, Harmless ctx mapping x e := by
  rw [process_iff_issues hclear, missing_iff, regression_iff hclear hsilent]
  refine and_congr_right fun _ => ?_
  constructor
  · rintro ⟨hhours, hkept⟩ e he
    obtain ⟨id, hid⟩ := exists_mappedId hclear he
    refine ⟨hkept e he, ?_⟩
    exact (samePay_final hclear hsilent he hid fun f hasked =>
      hkept e he f id hasked hid).hoursClear.mp (hhours e he)
  · intro hharmless
    refine ⟨fun e he => ?_, fun e he => (hharmless e he).kept⟩
    obtain ⟨id, hid⟩ := exists_mappedId hclear he
    exact (samePay_final hclear hsilent he hid
      fun f hasked => (hharmless e he).kept f id hasked hid).hoursClear.mpr (hharmless e he).hours

theorem harmless_of_answered (hclear : Clear ctx mapping x) (he : e ∈ x.combined.employees)
    (hnone : ∀ f, stillAsked ctx e f = false) : Harmless ctx mapping x e := by
  refine ⟨fun f id hasked => ?_, ?_⟩
  · rw [hnone f] at hasked
    cases hasked
  · have hsame : SamePay e (unanswered ctx mapping x e) := by
      refine ⟨rfl, fun f => ?_⟩
      rw [unanswered, hours_withHours, hnone f]
      rfl
    exact hsame.hoursClear.mpr (hclear.hours e he)

end

section

variable [PyText] {α : Type} {X : Extractions} {r g : Uuid} {u u' : Undisturbed} {q run : Run}
    {roster : Roster} {generation : OperatorResolution} {job : Job} {db : Db} {st : StageResult}

abbrev unbroken (X : Extractions) (r : Uuid) (p : Act α) (u : Undisturbed) : Halt Op Exn α Undisturbed :=
  p.upTo (answerTo X r) (fun _ => false) u

theorem unbroken_call {op : Op} {a : Ans op} {d : Db}
    (hcommit : ∀ env : Env, txn env op u.db = .ok (a, d)) :
    unbroken X r (Orchestrator.perform op) u = .done (.ok a) ⟨d, counted u.extractions op⟩ := by
  refine upTo_perform rfl ?_
  have hexec : exec { extracted := output X r u } op u.db = (.ok a, d) := by
    rw [exec, hcommit]
  rw [answerTo, hexec]

theorem unbroken_query : unbroken X r query u = .done (.ok u.db) u := unbroken_call fun _ => rfl

theorem unbroken_staged {p : Act α} {a : α} (stage : PipelineStage)
    (h : unbroken X r p u = .done (.ok a) u') : unbroken X r (staged stage p) u = .done (.ok a) u' :=
  upTo_catching_ok h

theorem unbroken_clarify (decision : Decision) (roster : Roster) (extracted : Extracted)
    (purpose : Purpose)
    (hrun : u.db.runs.get? r = some q) (hcap : maxClarificationRounds ≤ q.clarificationRound) :
    unbroken X r (clarify r decision roster extracted purpose) u =
      .done (.ok ()) ⟨escalateToOperator r u.db, u.extractions⟩ := by
  have hround : maxClarificationRounds ≤ ((u.db.runs.get? r).map Run.clarificationRound).getD 0 := by
    rw [hrun]
    exact hcap
  have hescalate : unbroken X r (Orchestrator.perform (.escalateToOperator r) : Act Unit) u =
      .done (.ok ()) ⟨escalateToOperator r u.db, u.extractions⟩ := unbroken_call fun _ => rfl
  have hgate : (if maxClarificationRounds ≤ ((u.db.runs.get? r).map Run.clarificationRound).getD 0 then
      Orchestrator.perform (.escalateToOperator r)
    else askOnce r decision roster extracted purpose
      (((u.db.runs.get? r).map Run.clarificationRound).getD 0) :
      Act Unit) = Orchestrator.perform (.escalateToOperator r) := if_pos hround
  rw [unbroken, clarify, upTo_bind_ok unbroken_query]
  exact (congrArg (unbroken X r · u) hgate).trans hescalate

omit [PyText] in
theorem statusOf_escalate {d : Db} (hrun : d.runs.get? r = some q) :
    (escalateToOperator r d).statusOf r = some .needsOperator := by
  have hrow : (escalateToOperator r d).runs.get? r = some _ := modifyRun_get _ hrun
  rw [Db.statusOf, hrow]
  rfl

/-- The persist of a run at the cap, and the question it may lead to. -/
theorem unbroken_branch (hrun : u.db.runs.get? r = some q)
    (hcap : maxClarificationRounds ≤ q.clarificationRound) :
    ∃ u', unbroken X r (persistAndBranch r roster (.ok st)) u = .done (.ok st) u' ∧
      (st.decision.finalAction = .process ∨ st.clarifyDeferred = true → u'.db = persistStages r st u.db) ∧
      (¬ (st.decision.finalAction = .process ∨ st.clarifyDeferred = true) →
        u'.db = escalateToOperator r (persistStages r st u.db)) := by
  have hpersist : unbroken X r (staged .persist
    (Orchestrator.perform (.persistStages r st)) : Act Unit) u =
      .done (.ok ()) ⟨persistStages r st u.db, u.extractions⟩ :=
      unbroken_staged .persist (unbroken_call fun _ => rfl)
  by_cases hends : st.decision.finalAction = .process ∨ st.clarifyDeferred = true
  · refine ⟨⟨persistStages r st u.db, u.extractions⟩, ?_, fun _ => rfl, fun h => absurd hends h⟩
    rw [unbroken, persistAndBranch, upTo_bind_ok hpersist, if_pos hends]
    rfl
  · have hrow : (persistStages r st u.db).runs.get? r = some (persistedRow st u.db.now q) := by
      rw [persistStages_rows, Dict.get?_modify_self hrun]
    have hcap' : maxClarificationRounds ≤ (persistedRow st u.db.now q).clarificationRound := by
      unfold persistedRow
      dsimp only
      split <;> exact hcap
    refine ⟨⟨escalateToOperator r (persistStages r st u.db), u.extractions⟩, ?_,
      fun h => absurd h hends, fun _ => rfl⟩
    rw [unbroken, persistAndBranch, upTo_bind_ok hpersist, if_neg hends,
      upTo_bind_ok (unbroken_staged .clarification (unbroken_clarify _ _ _ _ hrow hcap'))]
    rfl

theorem unbroken_defer {decision : Decision} {extracted : Extracted} (clarified : ClarifiedFields)
    (issues : List ValidationIssue) (roster : Roster) (hrun : u.db.runs.get? r = some q)
    (hdecision : q.decision = some decision) (hextracted : q.extractedData = some extracted)
    (hcap : maxClarificationRounds ≤ q.clarificationRound) :
    ∃ u', unbroken X r (deferFieldRegressionClarification r clarified issues roster) u = .done
      (.ok ()) u' ∧ u'.db.statusOf r = some .needsOperator := by
  obtain ⟨outcomes, houtcomes⟩ : ∃ outcomes,
    deferredOutcomes (((u.db.runs.get? r).map Run.reconciliation).getD []) clarified issues =
    outcomes := ⟨_, rfl⟩
  have hset : unbroken X r (Orchestrator.perform (.setClarifiedFields r outcomes) : Act Unit) u =
      .done (.ok ()) ⟨setClarifiedFields r outcomes u.db, u.extractions⟩ := unbroken_call fun _ => rfl
  have hrow : (setClarifiedFields r outcomes u.db).runs.get? r = some _ := modifyRun_get _ hrun
  have hclarify := unbroken_clarify (X := X) (u := ⟨setClarifiedFields r outcomes u.db,
    u.extractions⟩) decision roster extracted .clarificationFieldRegression hrow hcap
  have hend : (escalateToOperator r (setClarifiedFields r outcomes u.db)).statusOf r =
    some .needsOperator :=
    statusOf_escalate hrow
  refine ⟨⟨escalateToOperator r (setClarifiedFields r outcomes u.db), u.extractions⟩, ?_, hend⟩
  rw [unbroken, deferFieldRegressionClarification, upTo_bind_ok unbroken_query]
  dsimp only
  rw [houtcomes]
  refine (upTo_bind_ok hset).trans ((upTo_bind_ok unbroken_query).trans ?_)
  dsimp only
  rw [hrow, Option.bind_some, Option.bind_some, hdecision, hextracted]
  exact hclarify

theorem unbroken_bindAliases {s : RunStatus} (roster : Roster) (candidates : AliasCandidates)
    (hstatus : u.db.statusOf r = some s) :
    ∃ u', unbroken X r (bindAliases r roster candidates) u = .done (.ok ()) u' ∧
      u'.db.statusOf r = some s := by
  by_cases hnone : pendingTokens candidates = []
  · exact ⟨u, congrArg (unbroken X r · u) (if_pos hnone), hstatus⟩
  · by_cases hsame : (bindCandidates roster (((u.db.runs.get? r).map Run.reconciliation).getD [])
      candidates).entries = candidates.entries
    · refine ⟨u, ?_, hstatus⟩
      rw [unbroken, bindAliases, if_neg hnone, upTo_bind_ok (unbroken_staged .load unbroken_query)]
      dsimp only
      rw [if_pos hsame]
      rfl
    · refine ⟨⟨setAliasCandidates r (bindCandidates roster
        (((u.db.runs.get? r).map Run.reconciliation).getD [])
        candidates) u.db, u.extractions⟩, ?_, ?_⟩
      · rw [unbroken, bindAliases, if_neg hnone, upTo_bind_ok (unbroken_staged .load unbroken_query)]
        dsimp only
        rw [if_neg hsame]
        exact unbroken_staged .persist (unbroken_call fun _ => rfl)
      · obtain ⟨q, hrun, hq⟩ := Option.map_eq_some_iff.mp hstatus
        have hrow : (setAliasCandidates r (bindCandidates roster
          (((u.db.runs.get? r).map Run.reconciliation).getD [])
          candidates) u.db).runs.get? r = some _ := modifyRun_get _ hrun
        rw [Db.statusOf, hrow]
        exact congrArg some hq

def endOf (st : StageResult) : RunStatus :=
  if st.decision.finalAction = .process then .awaitingApproval else .needsOperator

theorem unbroken_of_undisturbed {p : Act α} {a : α} (h : undisturbed X r p u = .done (.ok a) u') :
    unbroken X r p u = .done (.ok a) u' :=
  upTo_done h

omit [PyText] in
theorem statusOf_persist {d : Db} (hrun : d.runs.get? r = some q)
    (hprocess : st.decision.finalAction = .process)
    (hitems : st.lineItems.isSome = true) :
    (persistStages r st d).statusOf r = some .awaitingApproval := by
  obtain ⟨items, hsome⟩ := Option.isSome_iff_exists.mp hitems
  have hrow : (persistStages r st d).runs.get? r = some (persistedRow st d.now q) := by
    rw [persistStages_rows, Dict.get?_modify_self hrun]
  rw [Db.statusOf, hrow, Option.map_some, persistedRow, hprocess, hsome]

theorem unbroken_resumeFrom {ctx : ResumeContext} (emails : ResumeEmails) {overrides : Option Overrides}
    (hrunId : ctx.runId = r) (hrun : u.db.runs.get? r = some q)
    (hclarified : q.clarifiedFields = ctx.clarified)
    (hcap : maxClarificationRounds ≤ q.clarificationRound) (hcount : u.extractions = 0)
    (hs : resumeStages ctx (given X ctx) overrides = .ok st) :
    ∃ u', unbroken X r (resumeFrom r ctx emails overrides) u = .done (.ok .okResult) u' ∧
      u'.db.statusOf r = some (endOf st) := by
  obtain ⟨n, hextract⟩ := undisturbed_extractions (X := X) emails hrunId hrun hclarified hcount
  obtain ⟨s', q', hstore, hrun', -, hround⟩ := undisturbed_storeAnswers (X := X) (r := r) (s := ⟨u.db, n⟩)
    (given X ctx) hrun hclarified
  have hcap' : maxClarificationRounds ≤ q'.clarificationRound := hround ▸ hcap
  obtain ⟨u₁, hbranch, hpersisted, hasked⟩ := @unbroken_branch _ X r _ _ ctx.roster st hrun' hcap'
  have hrow : (persistStages r st s'.db).runs.get? r = some (persistedRow st s'.db.now q') := by
    rw [persistStages_rows, Dict.get?_modify_self hrun']
  have hbegin : unbroken X r (resumeFrom r ctx emails overrides) u = unbroken X r
    (if st.clarifyDeferred then do
        staged .clarification
          (deferFieldRegressionClarification r (clarifiedAtGate ctx (given X ctx)) st.issues ctx.roster)
        Pure.pure .okResult
      else do
        bindAliases r ctx.roster ctx.aliasCandidates
        Pure.pure .okResult) u₁ := by
    rw [unbroken, resumeFrom, upTo_bind_ok (unbroken_of_undisturbed hextract), upTo_bind_ok
      (unbroken_of_undisturbed hstore), hs, upTo_bind_ok hbranch]
  by_cases hdeferred : st.clarifyDeferred = true
  · have hrequest := not_process_of_deferred hdeferred
    have hkept : u₁.db.runs.get? r = some (persistedRow st s'.db.now q') := by
      rw [hpersisted (.inr hdeferred), hrow]
    have hdecision : (persistedRow st s'.db.now q').decision = some st.decision := by
      unfold persistedRow
      dsimp only
      split <;> rfl
    have hextracted : (persistedRow st s'.db.now q').extractedData = some st.extracted := by
      unfold persistedRow
      dsimp only
      split <;> rfl
    have hround : maxClarificationRounds ≤ (persistedRow st s'.db.now q').clarificationRound := by
      unfold persistedRow
      dsimp only
      split <;> exact hcap'
    obtain ⟨u₂, hdefer, hend⟩ := unbroken_defer (X := X) (clarifiedAtGate ctx (given X ctx))
      st.issues ctx.roster hkept hdecision hextracted hround
    refine ⟨u₂, ?_, ?_⟩
    · rw [hbegin, if_pos hdeferred, unbroken, upTo_bind_ok (unbroken_staged .clarification hdefer)]
      rfl
    · rw [hend, endOf, hrequest]
      rfl
  · have hstatus : u₁.db.statusOf r = some (endOf st) := by
      by_cases hprocess : st.decision.finalAction = .process
      · rw [hpersisted (.inl hprocess), endOf, if_pos hprocess]
        exact statusOf_persist hrun' hprocess ((lineItems_of_runStages hs).mp hprocess)
      · rw [hasked (not_or.mpr ⟨hprocess, hdeferred⟩), endOf, if_neg hprocess]
        exact statusOf_escalate hrow
    obtain ⟨u₂, hbind, hend⟩ := unbroken_bindAliases (X := X) ctx.roster ctx.aliasCandidates hstatus
    refine ⟨u₂, ?_, hend⟩
    rw [hbegin, if_neg hdeferred, unbroken, upTo_bind_ok hbind]
    rfl

def prepared (generation : OperatorResolution) (run : Run) : Run :=
  { run with
    aliasCandidates := (rememberedCandidates generation).entries.foldl (fun d p => d.set p.1 p.2)
      run.aliasCandidates }

def readBy (r : Uuid) (roster : Roster) (generation : OperatorResolution) (run : Run) : ResumeContext :=
  contextOf r roster (prepared generation run)

omit [PyText] in
theorem prepare_authority {d : Db} (hcommitted : Committed d r g generation run roster)
    (hauthoritative : generation.authoritative = true) : ∃ d' q,
      prepareAuthoritativeOperatorResume r g d = .ok (true, d') ∧ d'.runs.get? r = some q ∧
      q.status = run.status ∧
        q.businessId = run.businessId ∧ q.clarificationRound = run.clarificationRound ∧
          contextOf r roster q = readBy r roster generation run ∧ d'.resolutions = d.resolutions ∧
            d'.rosters = d.rosters := by
  rw [prepareAuthoritativeOperatorResume, hcommitted.stored, hcommitted.committed]
  dsimp only
  rw [if_pos ⟨hcommitted.own, hcommitted.valid⟩, if_pos hauthoritative]
  by_cases hnone : (rememberedCandidates generation).entries = []
  · refine ⟨d, run, if_pos hnone, hcommitted.stored, rfl, rfl, rfl, ?_, rfl, rfl⟩
    rw [readBy, prepared, hnone]
    rfl
  · exact ⟨_, _, if_neg hnone, modifyRun_get _ hcommitted.stored, rfl, rfl, rfl, rfl, rfl, rfl⟩

def statusAfter (X : Extractions) (r : Uuid) (job : Job) (db : Db) : Option RunStatus :=
  match unbroken X r (handleOperatorResume job) ⟨db, 0⟩ with
  | .done (.ok _) u => u.db.statusOf r
  | _ => none

theorem unbroken_resumePipeline {overrides : Option Overrides} (hrun : u.db.runs.get? r = some q)
    (hreceived : q.status = .received) (hroster : u.db.rosters.get? q.businessId = some roster)
    (hcap : maxClarificationRounds ≤ q.clarificationRound) (hcount : u.extractions = 0)
    (hs : resumeStages (contextOf r roster q) (given X (contextOf r roster q)) overrides = .ok st) :
    ∃ u', unbroken X r (resumePipeline r none .received overrides) u = .done (.ok .okResult) u' ∧
      u'.db.statusOf r = some (endOf st) := by
  have hclaim : undisturbed X r
      (staged .persist (Orchestrator.perform (.claimStatus r .received .extracting)) : Act Bool) u =
      .done (.ok true) ⟨setStatus r .extracting u.db, u.extractions⟩ :=
    undisturbed_staged .persist (undisturbed_claimStatus hrun hreceived)
  have hrow : (setStatus r .extracting u.db).runs.get? r = some _ := modifyRun_get _ hrun
  have hread := undisturbed_resumeContext (X := X)
    (s := ⟨setStatus r .extracting u.db, u.extractions⟩) none hrow hroster
  generalize emailsOf r none _ _ = emails at hread
  obtain ⟨u', hresume, hend⟩ := unbroken_resumeFrom (X := X)
    (u := ⟨setStatus r .extracting u.db, u.extractions⟩) emails
    (Eq.refl (contextOf r roster q).runId) hrow rfl hcap hcount hs
  refine ⟨u', ?_, hend⟩
  rw [unbroken, resumePipeline, classifying]
  refine upTo_catching_ok ?_
  rw [upTo_bind_ok (unbroken_of_undisturbed hclaim), if_pos rfl]
  have hconsume : unbroken X r (consumeReply r none) ⟨setStatus r .extracting u.db, u.extractions⟩ =
      .done (.ok ()) ⟨setStatus r .extracting u.db, u.extractions⟩ := rfl
  refine (upTo_bind_ok hconsume).trans ?_
  rw [upTo_bind_ok (unbroken_of_undisturbed hread)]
  exact hresume

/-- The resume of an authoritative generation at the cap ends where its stages
lead. -/
theorem status_of_resume (hcommitted : Committed db r g generation run roster)
    (hauthoritative : generation.authoritative = true)
    (hcap : maxClarificationRounds ≤ run.clarificationRound)
    (hnames : ReclaimedResolution.Names job r g)
    (hs : resumeStages (readBy r roster generation run) (given X (readBy r roster generation run))
      (some (operatorOverrides generation)) = .ok st) : statusAfter X r job db = some (endOf st) := by
  obtain ⟨d, q, hprepare, hrun, hstatus, hbusiness, hround, hreads, hresolutions, hrosters⟩ :=
    prepare_authority hcommitted hauthoritative
  have hprepared : undisturbed X r (prepare r g) ⟨db, 0⟩ = .done (.ok (some true)) ⟨d, 0⟩ :=
    undisturbed_prepare hprepare
  have hwaits : q.status = .needsOperator := hstatus.trans hcommitted.status
  obtain ⟨s', q', henter, hrun', hreceived, hbusiness', hcontext, hround', hrosters', hcount⟩ :=
    undisturbed_reenter (X := X) (s := ⟨d, 0⟩) roster (by decide) hrun (.inl hwaits)
  have hentered : entered q = q := if_neg (by rw [hwaits]; decide)
  rw [hentered] at hcontext hround'
  have hroster : s'.db.rosters.get? q'.businessId = some roster := by
    rw [hrosters', hrosters, hbusiness', hbusiness]
    exact hcommitted.roster
  have hs' : resumeStages (contextOf r roster q') (given X (contextOf r roster q'))
      (some (operatorOverrides generation)) = .ok st := by
    rwa [hcontext, hreads]
  have hcap' : maxClarificationRounds ≤ q'.clarificationRound := by
    rw [hround', hround]
    exact hcap
  obtain ⟨u', hresume, hend⟩ := unbroken_resumePipeline hrun' hreceived hroster hcap' hcount hs'
  have hgeneration : d.resolutions.get? g = some generation := by
    rw [hresolutions]
    exact hcommitted.committed
  have hwith : unbroken X r (resumeWith job r g) ⟨d, 0⟩ = .done (.ok .okResult) u' := by
    rw [unbroken, resumeWith, upTo_bind_ok unbroken_query, hgeneration]
    dsimp only
    rw [upTo_bind_ok unbroken_query, hrun]
    dsimp only
    rw [upTo_bind_ok (unbroken_of_undisturbed henter), if_pos rfl]
    exact hresume
  have hhandle : unbroken X r (handleOperatorResume job) ⟨db, 0⟩ = .done (.ok .okResult) u' := by
    rw [unbroken, handleOperatorResume, hnames.runId, hnames.resolution]
    dsimp only
    rw [upTo_bind_ok (unbroken_of_undisturbed hprepared)]
    exact hwith
  rw [statusAfter, hhandle]
  exact hend

/-- The operator's resume of a run at the cap, with a clear extraction, puts it
up for approval if and only if the extraction has an employee and none of its
entries suffers from the fields that are still outstanding. Otherwise the run is
back with the operator. -/
theorem operator_resume_progresses (hcommitted : Committed db r g generation run roster)
    (hauthoritative : generation.authoritative = true)
    (hcap : maxClarificationRounds ≤ run.clarificationRound)
    (hnames : ReclaimedResolution.Names job r g) (hsilent : X.reply.employees = [])
    (hclear : Clear (readBy r roster generation run) (operatorOverrides generation)
      (given X (readBy r roster generation run))) :
    (statusAfter X r job db = some .awaitingApproval ↔ X.combined.employees ≠ [] ∧
      ∀ e ∈ X.combined.employees, Harmless (readBy r roster generation run) (operatorOverrides generation)
        (given X (readBy r roster generation run)) e) ∧
      (statusAfter X r job db = some .awaitingApproval ∨
        statusAfter X r job db = some .needsOperator) := by
  obtain ⟨st, hs⟩ := exists_resumeStages (readBy r roster generation run)
    (given X (readBy r roster generation run)) (some (operatorOverrides generation))
  have hstatus := status_of_resume hcommitted hauthoritative hcap hnames hs
  have hround : isRound2 (readBy r roster generation run) = true →
      (given X (readBy r roster generation run)).reply.employees = [] := by
    intro hround
    rw [given, if_pos hround]
    exact hsilent
  have hcombined :
    (given X (readBy r roster generation run)).combined.employees = X.combined.employees := by
    unfold given
    split <;> rfl
  have hprocess := process_iff hclear hround
  rw [← (stages_of_ok hs).2.2, hcombined] at hprocess
  rw [hstatus, ← hprocess, endOf]
  by_cases haction : st.decision.finalAction = .process
  · rw [if_pos haction]
    exact ⟨iff_of_true rfl haction, .inl rfl⟩
  · rw [if_neg haction]
    exact ⟨iff_of_false (fun h => by cases h) haction, .inr rfl⟩

end

section Histories

attribute [local instance] asciiText

def snapshotEntries (ctx : ResumeContext) (mapping : Overrides) (x : Extractions) :
    Dict Uuid ExtractedEmployee :=
  (ctx.snapshot.map fun snap => idKeyed snap
    ((stagePriorMatches ctx.roster (stagesInput ctx x)
      (stagesArgs ctx x (some mapping))).getD [])).getD Dict.empty

theorem snapshotOf_eq (ctx : ResumeContext) (mapping : Overrides) (x : Extractions) (id : Uuid) :
    snapshotOf ctx mapping x id = (snapshotEntries ctx mapping x).get? id := by
  unfold snapshotOf snapshotEntries
  cases ctx.snapshot with
  | none => rfl
  | some snap => rfl

def clears (ctx : ResumeContext) (mapping : Overrides) (x : Extractions) : Bool :=
  (mapped ctx mapping x).all NameMatchResult.resolved && (checkOneToOne (mapped ctx mapping x)).isEmpty &&
    (x.combined.employees.all fun e => (missingHoursIssue (mapped ctx mapping x) ctx.roster e).isNone &&
      (overtimeIssue (mapped ctx mapping x) ctx.roster e).isNone) &&
    (snapshotEntries ctx mapping x).entries.all fun p => HoursField.all.all fun f => !isPaid
      (p.2.hours f) ||
      x.combined.employees.any fun e => mappedId ctx mapping e.submittedName = some p.1 && isPaid
        (e.hours f)

theorem clear_of_clears {ctx : ResumeContext} {mapping : Overrides} {x : Extractions}
    (h : clears ctx mapping x = true) : Clear ctx mapping x := by
  simp only [clears, Bool.and_eq_true, List.all_eq_true, List.isEmpty_iff, Option.isNone_iff_eq_none] at h
  obtain ⟨⟨⟨hresolved, hdistinct⟩, hhours⟩, hpaid⟩ := h
  refine ⟨hresolved, hdistinct, hhours, fun id f hpays => ?_⟩
  obtain ⟨s, hs, hpaidBefore⟩ := (Option.any_eq_true _ _).mp hpays
  rw [snapshotOf_eq, Dict.get?_eq_some_iff] at hs
  have hentry := hpaid (id, s) hs f f.mem_all
  rw [hpaidBefore, Bool.not_true, Bool.false_or, List.any_eq_true] at hentry
  obtain ⟨e, he, hpair⟩ := hentry
  rw [Bool.and_eq_true, decide_eq_true_eq] at hpair
  exact ⟨e, he, hpair⟩

def dropped : Extracted :=
  ⟨9, [reported "ann lee".toList none (whole 10), reported "bobby".toList (whole 30) none], none, none⟩

/-- Three questions are answered, and the extraction of the third reply is
`x`, at which the cap escalates the run. The operator resolves the name. -/
def escalatedWith (n : Nat) (x : Extracted) : List (Event Thread Env) :=
  threeAsked ++ works 8 5 32 misnamed ++ arrives 9 42 (some 30) ++ works 10 n 36 x ++
    resolves 11 "bobby".toList

def runIn (db : Db) : Run := (db.runs.get? 11).getD (Run.created 1 10 0)

def generationIn (db : Db) : OperatorResolution := (db.resolutions.get? 38).getD mapping

def rosterIn (db : Db) : Roster := (db.rosters.get? (runIn db).businessId).getD HoursVisibility.twoWorkers

def jobIn (db : Db) : Job := copyOf ((db.jobs.get? 39).getD mappingJob) 39 40

def readIn (db : Db) : ResumeContext := readBy 11 (rosterIn db) (generationIn db) (runIn db)

/-- The models return the first extraction for the combined body, and nothing
for the empty reply. -/
def emptyReply : Extractions := ⟨⟨9, [], none, none⟩, misnamed⟩

def resolvedAtCap (db : Db) : Bool :=
  (db.runs.get? 11).isSome && (db.resolutions.get? 38).isSome &&
    (db.rosters.get? (runIn db).businessId).isSome &&
    ((generationIn db).runId = 11 && (runIn db).status = .needsOperator &&
      validGeneration db (runIn db) (generationIn db).overrides && (generationIn db).authoritative) &&
    (maxClarificationRounds ≤ (runIn db).clarificationRound && (jobIn db).runId = some 11 &&
      (jobIn db).operatorResolutionId = some 38)

theorem eq_some_getD {β : Type} {o : Option β} (h : o.isSome = true) (b : β) : o = some (o.getD b) := by
  obtain ⟨c, rfl⟩ := Option.isSome_iff_exists.mp h
  rfl

theorem committed_resolvedAtCap {db : Db} (h : resolvedAtCap db = true) :
    Committed db 11 38 (generationIn db) (runIn db) (rosterIn db) ∧
    (generationIn db).authoritative = true ∧
      maxClarificationRounds ≤ (runIn db).clarificationRound ∧ ReclaimedResolution.Names
      (jobIn db) 11 38 := by
  simp only [resolvedAtCap, Bool.and_eq_true, decide_eq_true_eq] at h
  obtain ⟨⟨⟨⟨hrun, hgeneration⟩, hroster⟩, ⟨⟨hown, hstatus⟩, hvalid⟩, hauthoritative⟩,
    ⟨hcap, hrunId⟩, hresolution⟩ := h
  refine ⟨⟨eq_some_getD hgeneration _, hown, eq_some_getD hrun _, hstatus, eq_some_getD hroster _,
    hvalid⟩, hauthoritative, hcap, hrunId, hresolution⟩

/-- The regular hours are still outstanding, so they are taken out of the
extraction that pays them, and the run is back with the operator. -/
theorem resume_stays_with_operator : ¬ ∀ (w : World Op Ans Exn Db Note) (r g : Uuid) (generation : OperatorResolution)
    (run : Run) (roster : Roster) (job : Job) (X : Extractions),
    World.Reach machine thread World.Rules.any Counted w → Committed w.data r g generation run roster →
    generation.authoritative = true → maxClarificationRounds ≤ run.clarificationRound →
    ReclaimedResolution.Names job r g → X.reply.employees = [] →
    Clear (readBy r roster generation run) (operatorOverrides generation)
      (given X (readBy r roster generation run)) →
    statusAfter X r job w.data = some .awaitingApproval := by
  intro hall
  have hreach := reach_worldAfter counted_emptyDb (escalatedWith 24 dropped)
  have hcap : resolvedAtCap (worldAfter emptyDb (escalatedWith 24 dropped)).data = true := by
    decide +kernel
  have hback : statusAfter emptyReply 11 (jobIn (worldAfter emptyDb (escalatedWith 24 dropped)).data)
      (worldAfter emptyDb (escalatedWith 24 dropped)).data = some .needsOperator := by decide +kernel
  have hclears : clears (readIn (worldAfter emptyDb (escalatedWith 24 dropped)).data)
      (operatorOverrides (generationIn (worldAfter emptyDb (escalatedWith 24 dropped)).data))
      (given emptyReply (readIn (worldAfter emptyDb (escalatedWith 24 dropped)).data)) = true := by decide +kernel
  generalize worldAfter emptyDb (escalatedWith 24 dropped) = w at *
  obtain ⟨hcommitted, hauthoritative, hround, hnames⟩ := committed_resolvedAtCap hcap
  have hends := hall w 11 38 _ _ _ (jobIn w.data) emptyReply hreach hcommitted hauthoritative hround
    hnames rfl (clear_of_clears hclears)
  rw [hback] at hends
  cases hends

/-- Nothing is outstanding. -/
theorem operator_resume_approved :
    statusAfter emptyReply 11 (jobIn (worldAfter emptyDb (escalatedWith 21 misnamed)).data)
      (worldAfter emptyDb (escalatedWith 21 misnamed)).data = some .awaitingApproval := by
  have hcap : resolvedAtCap (worldAfter emptyDb (escalatedWith 21 misnamed)).data = true := by
    decide +kernel
  have hanswered : ∀ e ∈ emptyReply.combined.employees, ∀ f ∈ HoursField.all,
      stillAsked (readIn (worldAfter emptyDb (escalatedWith 21 misnamed)).data) e f = false := by decide +kernel
  have hclears : clears (readIn (worldAfter emptyDb (escalatedWith 21 misnamed)).data)
      (operatorOverrides (generationIn (worldAfter emptyDb (escalatedWith 21 misnamed)).data))
      (given emptyReply (readIn (worldAfter emptyDb (escalatedWith 21 misnamed)).data)) = true := by decide +kernel
  have hcombined :
    ∀ ctx, (given emptyReply ctx).combined.employees = emptyReply.combined.employees := fun ctx => by
    unfold given
    split <;> rfl
  generalize (worldAfter emptyDb (escalatedWith 21 misnamed)).data = db at *
  obtain ⟨hcommitted, hauthoritative, hround, hnames⟩ := committed_resolvedAtCap hcap
  have hclear := clear_of_clears hclears
  refine (operator_resume_progresses hcommitted hauthoritative hround hnames rfl hclear).1.mpr
    ⟨List.cons_ne_nil _ _, fun e he => ?_⟩
  refine harmless_of_answered hclear ?_ fun f => hanswered e he f f.mem_all
  rw [hcombined]
  exact he

end Histories

end PayrollAgent.OperatorProgress
