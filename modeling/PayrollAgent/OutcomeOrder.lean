import PayrollAgent.HoursVisibility
import PayrollAgent.Rounds
import Mathlib.Logic.Relation

namespace PayrollAgent.OutcomeOrder

open Lib Validate RunStages Resume ReconcileNames Rounds

inductive Advance : Option ClarifiedFieldOutcome → Option ClarifiedFieldOutcome → Prop
  | asked : Advance none (some .asked)
  | answered {o : ClarifiedFieldOutcome} (h : isTerminal o = true) : Advance (some .asked) (some o)

abbrev Forward := Relation.ReflTransGen Advance

theorem Forward.of_terminal {o : ClarifiedFieldOutcome} {w : Option ClarifiedFieldOutcome}
    (h : Forward (some o) w) (hterminal : isTerminal o = true) : w = some o := by
  induction h with
  | refl => rfl
  | tail _ hstep ih =>
      rw [ih] at hstep
      cases hstep with
      | answered => cases hterminal

section

variable [PyText] {s : StageResult} {id : Uuid} {f : HoursField} {ctx : ResumeContext} {x : Extractions}
  {overrides : Option Overrides} {p q : Standing}

def Names (current : Dict Str Uuid) (i : ValidationIssue) (id : Uuid) (f : HoursField) : Prop :=
  i.issueType = .fieldRegression ∧ ∃ name, current.get? name = some id ∧ i.field = fieldPath name f

def AsksAbout (s : StageResult) (id : Uuid) (f : HoursField) : Prop :=
  ∃ i ∈ s.issues, Names (nameToId s.matches') i id f

omit [PyText] in
theorem outcome_set_fields (c : ClarifiedFields) (id id' : Uuid) (f f' : HoursField)
    (o : ClarifiedFieldOutcome) :
    ClarifiedFields.outcome (c.set id (((c.get? id).getD Dict.empty).set f o)) id' f' =
      if id' = id ∧ f' = f then some o else c.outcome id' f' := by
  unfold ClarifiedFields.outcome
  by_cases hid : id' = id
  · subst hid
    rw [Dict.get?_set_self, Option.bind_some, Dict.get?_set]
    by_cases hf : f' = f
    · simp [hf]
    · cases c.get? id' with
      | none => simp [hf]
      | some fields => simp [hf]
  · rw [Dict.get?_set_of_ne _ hid]
    simp [hid]

omit [PyText] in
theorem rsplitDot_eq_some {path name field : Str} (h : rsplitDot path = some (name, field)) :
    path = name ++ '.' :: field := by
  unfold rsplitDot at h
  have hsplit := List.takeWhile_append_dropWhile (p := fun c => decide (c ≠ '.')) (l := path.reverse)
  split at h
  · cases h
  next dot rest hrest =>
    obtain ⟨rfl, rfl⟩ := Prod.mk.inj (Option.some.inj h)
    have hdot : dot = '.' := by
      have hhead := List.head?_dropWhile_not (fun c => decide (c ≠ '.')) path.reverse
      rw [hrest] at hhead
      simpa using hhead
    rw [hrest, hdot] at hsplit
    generalize path.reverse.takeWhile _ = tail at hsplit ⊢
    have hpath := congrArg List.reverse hsplit
    rw [List.reverse_reverse] at hpath
    rw [← hpath]
    simp

omit [PyText] in
theorem ofName_eq_some {name : Str} (h : HoursField.ofName name = some f) : f.name = name := by
  have hfound := List.find?_some h
  simpa using hfound

omit [PyText] in
theorem names_iff (current : Dict Str Uuid) (i : ValidationIssue) :
    Names current i id f ↔ i.issueType = .fieldRegression ∧ ∃ name field,
      rsplitDot i.field = some (name, field) ∧ current.get? name = some id ∧
        HoursField.ofName field = some f := by
  refine and_congr_right fun _ => ⟨?_, ?_⟩
  · rintro ⟨name, hid, hfield⟩
    exact ⟨name, f.name, by rw [hfield, rsplitDot_fieldPath], hid, HoursField.ofName_name f⟩
  · rintro ⟨name, field, hsplit, hid, hf⟩
    refine ⟨name, hid, ?_⟩
    rw [rsplitDot_eq_some hsplit, fieldPath, ofName_eq_some hf]

omit [PyText] in
theorem outcome_markAsked (current : Dict Str Uuid) (c : ClarifiedFields) (i : ValidationIssue)
    (id : Uuid) (f : HoursField) :
    (Names current i id f → (c.outcome id f).any isTerminal = false →
      (markAsked current c i).outcome id f = some .asked) ∧
      (¬ Names current i id f ∨ (c.outcome id f).any isTerminal = true →
        (markAsked current c i).outcome id f = c.outcome id f) := by
  rw [names_iff]
  unfold markAsked
  split
  next name field htype hsplit =>
    split
    next id' f' hid' hf' =>
      by_cases hpair : id = id' ∧ f = f'
      · obtain ⟨rfl, rfl⟩ := hpair
        constructor
        · intro _ hopen
          rw [hopen, if_neg Bool.false_ne_true, outcome_set_fields, if_pos ⟨rfl, rfl⟩]
        · rintro (hnames | hterminal)
          · exact absurd ⟨htype, name, field, hsplit, hid', hf'⟩ hnames
          · rw [if_pos hterminal]
      · have hsame : (if (c.outcome id' f').any isTerminal = true then c else
            c.set id' (((c.get? id').getD Dict.empty).set f' .asked)).outcome id f = c.outcome id f := by
          split
          · rfl
          · rw [outcome_set_fields, if_neg hpair]
        refine ⟨?_, fun _ => hsame⟩
        rintro ⟨-, name₁, field₁, hsplit₁, hid, hf⟩ -
        rw [hsplit] at hsplit₁
        cases hsplit₁
        rw [hid'] at hid
        rw [hf'] at hf
        exact absurd ⟨(Option.some.inj hid).symm, (Option.some.inj hf).symm⟩ hpair
    next hnone =>
      refine ⟨?_, fun _ => rfl⟩
      rintro ⟨-, name₁, field₁, hsplit₁, hid, hf⟩ -
      rw [hsplit] at hsplit₁
      cases hsplit₁
      exact absurd hf (hnone id f hid)
  next hnone =>
    refine ⟨?_, fun _ => rfl⟩
    rintro ⟨htype, name, field, hsplit, -⟩ -
    exact absurd hsplit (hnone name field htype)

omit [PyText] in
theorem outcome_deferredOutcomes (matches' : List NameMatchResult) (c : ClarifiedFields)
    (issues : List ValidationIssue) (id : Uuid) (f : HoursField) :
    ((∃ i ∈ issues, Names (nameToId matches') i id f) → (c.outcome id f).any isTerminal = false →
      (deferredOutcomes matches' c issues).outcome id f = some .asked) ∧
      (¬ (∃ i ∈ issues, Names (nameToId matches') i id f) ∨ (c.outcome id f).any isTerminal = true →
        (deferredOutcomes matches' c issues).outcome id f = c.outcome id f) := by
  unfold deferredOutcomes
  induction issues generalizing c with
  | nil => exact ⟨fun h => absurd h (by simp), fun _ => rfl⟩
  | cons i rest ih =>
      obtain ⟨hmarked, hkept⟩ := outcome_markAsked (nameToId matches') c i id f
      obtain ⟨ihmarked, ihkept⟩ := ih (markAsked (nameToId matches') c i)
      rw [List.foldl_cons]
      simp only [List.exists_mem_cons_iff]
      by_cases hterminal : (c.outcome id f).any isTerminal = true
      · have hhead := hkept (.inr hterminal)
        rw [hhead] at ihkept
        exact ⟨fun _ hopen => absurd hterminal (by rw [hopen]; exact Bool.false_ne_true),
          fun _ => ihkept (.inr hterminal)⟩
      · have hopen := Bool.eq_false_iff.mpr hterminal
        by_cases hnames : Names (nameToId matches') i id f
        · have hhead := hmarked hnames hopen
          refine ⟨fun _ _ => ?_, fun h => ?_⟩
          · by_cases hrest : ∃ i ∈ rest, Names (nameToId matches') i id f
            · exact ihmarked hrest (by rw [hhead]; rfl)
            · exact (ihkept (.inl hrest)).trans hhead
          · exact (h.elim (fun h => h (.inl hnames)) hterminal).elim
        · have hhead := hkept (.inl hnames)
          rw [hhead] at ihmarked ihkept
          refine ⟨fun h _ => ihmarked (h.resolve_left hnames) hopen, fun h => ihkept ?_⟩
          exact h.imp (fun h hrest => h (.inr hrest)) fun h => h

theorem suppressed_of_terminal (h : ((clarifiedAtGate ctx x).outcome id f).any isTerminal = true) :
    (id, f) ∈ (stagesArgs ctx x overrides).suppressDetection := by
  by_cases hround : isRound2 ctx = true
  · rw [clarifiedAtGate, if_pos hround, outcome_classified] at h
    have hargs : (stagesArgs ctx x overrides).suppressDetection = suppressDetection ctx x.reply := by
      rw [stagesArgs, if_pos hround]
    rw [hargs, suppressDetection, List.mem_append, List.mem_append]
    cases ho : ctx.clarified.outcome id f with
    | none => simp [ho] at h
    | some o =>
        by_cases hasked : o = .asked
        · subst hasked
          right
          rw [mem_newlyClassified]
          refine ⟨ho, fun hanswer => ?_⟩
          simp [ho, hanswer, Answer.outcome, isTerminal] at h
        · left
          cases o with
          | asked => exact absurd rfl hasked
          | carriedForward => exact .inr ((mem_pairsWith _ _ _ _).mpr ⟨_, ho, by decide⟩)
          | confirmedDropped => exact .inl ((mem_pairsWith _ _ _ _).mpr ⟨_, ho, rfl⟩)
          | clientSupplied => exact .inl ((mem_pairsWith _ _ _ _).mpr ⟨_, ho, rfl⟩)
  · rw [clarifiedAtGate, if_neg hround] at h
    cases ho : ctx.clarified.outcome id f with
    | none => simp [ho] at h
    | some o => exact absurd (isRound2_of_outcome ho) hround

theorem gate_forward (ctx : ResumeContext) (x : Extractions) (id : Uuid) (f : HoursField) :
    Forward (ctx.clarified.outcome id f) ((clarifiedAtGate ctx x).outcome id f) := by
  by_cases hround : isRound2 ctx = true
  · rw [clarifiedAtGate, if_pos hround, outcome_classified]
    cases ctx.clarified.outcome id f with
    | none => exact .refl
    | some o =>
        by_cases hasked : o = .asked
        · subst hasked
          cases hanswer : answer ctx x.reply id f with
          | unresolvable => exact .refl
          | answered o v => exact .single (.answered (isTerminal_of_classify hanswer))
        · rw [Option.map_some, if_neg hasked]
  · rw [clarifiedAtGate, if_neg hround]

omit [PyText] in
theorem deferred_forward (matches' : List NameMatchResult) (c : ClarifiedFields)
    (issues : List ValidationIssue) (id : Uuid) (f : HoursField) :
    Forward (c.outcome id f) ((deferredOutcomes matches' c issues).outcome id f) := by
  obtain ⟨hmarked, hkept⟩ := outcome_deferredOutcomes matches' c issues id f
  by_cases hnames : ∃ i ∈ issues, Names (nameToId matches') i id f
  · cases ho : c.outcome id f with
    | none =>
        rw [hmarked hnames (by rw [ho]; rfl)]
        exact .single .asked
    | some o =>
        by_cases hasked : o = .asked
        · rw [hmarked hnames (by rw [ho, hasked]; rfl), hasked]
        · have hterminal : (c.outcome id f).any isTerminal = true := by
            rw [ho]
            cases o <;> first | rfl | exact absurd rfl hasked
          rw [hkept (.inr hterminal), ho]
  · rw [hkept (.inl hnames)]

theorem Moves.forward (h : Moves ctx x overrides p q) (hclarified : ctx.clarified = p.clarified)
    (id : Uuid) (f : HoursField) : Forward (p.clarified.outcome id f) (q.clarified.outcome id f) := by
  cases h with
  | unmoved => exact .refl
  | claimed => exact .refl
  | answered => exact gate_forward ctx x id f
  | approved => exact gate_forward ctx x id f
  | paused => exact gate_forward ctx x id f
  | deferred => exact (gate_forward ctx x id f).trans (deferred_forward _ _ _ id f)

theorem Later.forward {ok : ResumeContext → Extractions → Option Overrides → Prop} (h : Later ok p q)
    (id : Uuid) (f : HoursField) : Forward (p.clarified.outcome id f) (q.clarified.outcome id f) := by
  induction h with
  | refl => exact .refl
  | resumed _ hclarified _ hmoves ih => exact ih.trans (Moves.forward hmoves hclarified id f)
  | waited _ _ ih => exact ih

theorem exists_resumeStages (ctx : ResumeContext) (x : Extractions) (overrides : Option Overrides) :
    ∃ s, resumeStages ctx x overrides = .ok s := by
  obtain ⟨s, hs, -⟩ := runStages_ok ctx.runId ctx.roster (stagesInput ctx x) (stagesArgs ctx x overrides)
  exact ⟨s, hs⟩

/-- The stages of a resume, as the functions of its inputs that they are. -/
theorem stages_of_ok (hs : resumeStages ctx x overrides = .ok s) :
    s.matches' = stageMatches ctx.roster (stagesInput ctx x) (stagesArgs ctx x overrides) ∧
      s.issues = stageIssues ctx.roster (stagesInput ctx x) (stagesArgs ctx x overrides) ∧
        s.decision = stageDecision ctx.roster (stagesInput ctx x) (stagesArgs ctx x overrides) := by
  obtain ⟨s', hs', -, hmatches, hissues, hdecision⟩ :=
    runStages_ok ctx.runId ctx.roster (stagesInput ctx x) (stagesArgs ctx x overrides)
  obtain rfl := Except.ok.inj (hs.symm.trans hs')
  exact ⟨hmatches, hissues, hdecision⟩

theorem names_of_issue (hs : resumeStages ctx x overrides = .ok s) {i : ValidationIssue}
    (hi : i ∈ s.issues) (htype : i.issueType = .fieldRegression) :
    ∃ name id f, (nameToId s.matches').get? name = some id ∧ i.field = fieldPath name f ∧
      ((clarifiedAtGate ctx x).outcome id f).any isTerminal = false := by
  obtain ⟨hmatches, hissues, -⟩ := stages_of_ok hs
  rw [hissues] at hi
  obtain ⟨d, -, id, hid, hopen, hfield⟩ := exists_drop_of_issue (mem_regressionIssues hi htype)
  refine ⟨d.submittedName, id, d.field, by rw [hmatches, hid], hfield, ?_⟩
  rw [Bool.eq_false_iff]
  exact fun hterminal => hopen (suppressed_of_terminal hterminal)

theorem open_of_asksAbout (hs : resumeStages ctx x overrides = .ok s) (h : AsksAbout s id f) :
    ((clarifiedAtGate ctx x).outcome id f).any isTerminal = false := by
  obtain ⟨i, hi, htype, name, hid, hfield⟩ := h
  obtain ⟨name', id', f', hid', hfield', hopen⟩ := names_of_issue hs hi htype
  obtain ⟨rfl, rfl⟩ := fieldPath_inj (hfield.symm.trans hfield')
  rw [hid] at hid'
  obtain rfl := Option.some.inj hid'
  exact hopen

/-- Over the resumes of an epoch an outcome only advances, a deferral records
exactly the pairs its decision asks about, and what the client has answered is
never asked about again. -/
theorem outcomes_only_advance (h : Later (fun _ _ _ => True) p q) :
    (∀ id f, Forward (p.clarified.outcome id f) (q.clarified.outcome id f)) ∧
      (∀ id f o, p.clarified.outcome id f = some o → isTerminal o = true →
        q.clarified.outcome id f = some o) ∧
      (∀ ctx x overrides s, ctx.clarified = q.clarified → resumeStages ctx x overrides = .ok s →
        (∀ i ∈ s.issues, i.issueType = .fieldRegression → ∃ name id f,
          (nameToId s.matches').get? name = some id ∧ i.field = fieldPath name f) ∧
        (∀ id f, AsksAbout s id f →
          (deferredOutcomes s.matches' (clarifiedAtGate ctx x) s.issues).outcome id f = some .asked) ∧
        (∀ id f, ¬ AsksAbout s id f →
          (deferredOutcomes s.matches' (clarifiedAtGate ctx x) s.issues).outcome id f =
            (clarifiedAtGate ctx x).outcome id f) ∧
        ∀ id f o, p.clarified.outcome id f = some o → isTerminal o = true → ¬ AsksAbout s id f) ∧
      ∀ name f, rsplitDot (fieldPath name f) = some (name, f.name) ∧
        HoursField.ofName f.name = some f := by
  have hkept : ∀ id f o, p.clarified.outcome id f = some o → isTerminal o = true →
      q.clarified.outcome id f = some o := fun id f o ho hterminal => by
    have hforward := Later.forward h id f
    rw [ho] at hforward
    exact hforward.of_terminal hterminal
  refine ⟨Later.forward h, hkept, fun ctx x overrides s hclarified hs => ⟨?_, ?_, ?_, ?_⟩,
    fun name f => ⟨rsplitDot_fieldPath name f, HoursField.ofName_name f⟩⟩
  · intro i hi htype
    obtain ⟨name, id, f, hid, hfield, -⟩ := names_of_issue hs hi htype
    exact ⟨name, id, f, hid, hfield⟩
  · intro id f hasks
    exact (outcome_deferredOutcomes _ _ _ id f).1 hasks (open_of_asksAbout hs hasks)
  · intro id f hasks
    exact (outcome_deferredOutcomes _ _ _ id f).2 (.inl hasks)
  · intro id f o ho hterminal hasks
    have hforward := gate_forward ctx x id f
    rw [hclarified, hkept id f o ho hterminal] at hforward
    have hopen := open_of_asksAbout hs hasks
    rw [hforward.of_terminal hterminal, Option.any_some, hterminal] at hopen
    cases hopen

end

section Histories

attribute [local instance] asciiText

def twoPaid : Extracted :=
  ⟨9, [reported "ann lee".toList (whole 40) (whole 10), reported "bob ray".toList (whole 30) none],
    none, none⟩

def beforeQuestion : ResumeContext where
  runId := 9
  roster := HoursVisibility.twoWorkers
  reconciliation := reconcileNames twoPaid.names HoursVisibility.twoWorkers none
  snapshot := some twoPaid
  clarified := Dict.empty
  aliasCandidates := Dict.empty

def replyOf (employees : List ExtractedEmployee) : Extractions :=
  ⟨⟨9, employees, none, none⟩, ⟨9, employees, none, none⟩⟩

def silentReply : Extractions :=
  replyOf [reported "ann lee".toList (whole 40) none, reported "bob ray".toList (whole 30) none]

def zeroReply : Extractions :=
  replyOf [reported "ann lee".toList (whole 40) (some 0), reported "bob ray".toList (whole 30) none]

def askedOvertime : ClarifiedFields :=
  deferredOutcomes (stageMatches HoursVisibility.twoWorkers (stagesInput beforeQuestion silentReply)
      (stagesArgs beforeQuestion silentReply none))
    (clarifiedAtGate beforeQuestion silentReply)
    (stageIssues HoursVisibility.twoWorkers (stagesInput beforeQuestion silentReply)
      (stagesArgs beforeQuestion silentReply none))

def afterQuestion : ResumeContext := { beforeQuestion with clarified := askedOvertime }

theorem later_asked {ok : ResumeContext → Extractions → Option Overrides → Prop}
    (hok : ok beforeQuestion silentReply none) :
    Later ok ⟨.received, Dict.empty⟩ ⟨.awaitingReply, askedOvertime⟩ := by
  obtain ⟨s, hs⟩ := exists_resumeStages beforeQuestion silentReply none
  obtain ⟨hmatches, hissues, hdecision⟩ := stages_of_ok hs
  have hdeferred : s.clarifyDeferred = true := by
    rw [StageResult.clarifyDeferred, hissues, hdecision]
    decide +kernel
  have hmoves := Moves.deferred .received hs hdeferred (.inr List.mem_cons_self)
  rw [hmatches, hissues] at hmoves
  exact (Later.refl _).resumed rfl hok hmoves

theorem later_approved {ok : ResumeContext → Extractions → Option Overrides → Prop} {x : Extractions}
    (hlater : Later ok ⟨.received, Dict.empty⟩ ⟨.awaitingReply, askedOvertime⟩)
    (hok : ok afterQuestion x none)
    (hprocess : (stageDecision HoursVisibility.twoWorkers (stagesInput afterQuestion x)
      (stagesArgs afterQuestion x none)).finalAction = .process) :
    Later ok ⟨.received, Dict.empty⟩ ⟨.awaitingApproval, clarifiedAtGate afterQuestion x⟩ := by
  obtain ⟨s, hs⟩ := exists_resumeStages afterQuestion x none
  obtain ⟨-, -, hdecision⟩ := stages_of_ok hs
  refine hlater.resumed rfl hok (.approved _ hs ?_)
  rw [hdecision]
  exact hprocess

theorem outcomes_advance_answered :
    Forward none ((clarifiedAtGate afterQuestion zeroReply).outcome 1 .overtime) ∧
      (clarifiedAtGate afterQuestion zeroReply).outcome 1 .overtime = some .confirmedDropped :=
  ⟨(outcomes_only_advance (later_approved (later_asked trivial) trivial (by decide +kernel))).1 1
    .overtime, by decide +kernel⟩

end Histories

end PayrollAgent.OutcomeOrder
