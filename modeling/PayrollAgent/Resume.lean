import PayrollAgent.RunStages

namespace PayrollAgent.Resume

open Lib Validate AliasLearning ReconcileNames Calculate RunStages

/-- What `resume_pipeline` reads of the run before it calls the stages. -/
structure ResumeContext where
  runId : Uuid
  roster : Roster
  reconciliation : List NameMatchResult
  snapshot : Option Extracted
  clarified : ClarifiedFields
  aliasCandidates : AliasCandidates

/-- The model's two extractions: the reply alone, and the combined body. The
first round path reads only the second. -/
structure Extractions where
  reply : Extracted
  combined : Extracted

def pairsWith (clarified : ClarifiedFields) (p : ClarifiedFieldOutcome → Bool) : Pairs :=
  clarified.entries.flatMap fun q =>
    q.2.entries.filterMap fun r => if p r.2 then some (q.1, r.1) else none

def isResolved : ClarifiedFieldOutcome → Bool
  | .confirmedDropped | .clientSupplied => true
  | _ => false

def isTerminal : ClarifiedFieldOutcome → Bool
  | .asked => false
  | _ => true

def resolvedByName (clarified : ClarifiedFields) : Pairs := pairsWith clarified isResolved

def priorCarriedForward (clarified : ClarifiedFields) : Pairs :=
  pairsWith clarified (· = .carriedForward)

def askedPairs (clarified : ClarifiedFields) : Pairs := pairsWith clarified (· = .asked)

/-- `bool(clarified)`. -/
def isRound2 (ctx : ResumeContext) : Bool := !ctx.clarified.entries.isEmpty

inductive Answer
  | unresolvable
  | answered (outcome : ClarifiedFieldOutcome) (value : Option ℚ≥0)
  deriving DecidableEq

def Answer.outcome : Answer → ClarifiedFieldOutcome
  | .unresolvable => .asked
  | .answered outcome _ => outcome

def Answer.value : Answer → Option ℚ≥0
  | .unresolvable => none
  | .answered _ value => value

def classify (entry : Option ExtractedEmployee) (f : HoursField) : Answer :=
  match entry with
  | none => .unresolvable
  | some e =>
      match e.hours f with
      | some v =>
          if 0 < v then .answered .clientSupplied (some v) else .answered .confirmedDropped (some 0)
      | none => .answered .carriedForward none

section

variable [PyText]

/-- Prior matches first, so that the current resolution of a name wins. -/
def nameToIdForClassify (ctx : ResumeContext) (reply : Extracted) : Dict Str Uuid :=
  nameToId (ctx.reconciliation ++ reconcileNames reply.names ctx.roster none)

/-- The first reply name that maps to the employee, with its last entry. -/
def replyEntry (ctx : ResumeContext) (reply : Extracted) (id : Uuid) : Option ExtractedEmployee :=
  ((Dict.ofList (reply.employees.map fun e => (e.submittedName, e))).entries.find?
    fun p => (nameToIdForClassify ctx reply).get? p.1 = some id).map Prod.snd

def answer (ctx : ResumeContext) (reply : Extracted) (id : Uuid) (f : HoursField) : Answer :=
  classify (replyEntry ctx reply id) f

/-- Step 1: every asked field takes its answer from the reply alone. -/
def classified (ctx : ResumeContext) (reply : Extracted) : ClarifiedFields :=
  ctx.clarified.mapValues fun id fields => fields.mapValues fun f outcome =>
    if outcome = .asked then (answer ctx reply id f).outcome else outcome

def replyValueOverrides (ctx : ResumeContext) (reply : Extracted) :
    Dict (Uuid × HoursField) (Option ℚ≥0) :=
  Dict.ofList ((askedPairs ctx.clarified).map fun p => (p, (answer ctx reply p.1 p.2).value))

def newlyClassified (ctx : ResumeContext) (reply : Extracted) : Pairs :=
  (askedPairs ctx.clarified).filter fun p => answer ctx reply p.1 p.2 ≠ .unresolvable

def unresolvableAsked (ctx : ResumeContext) (reply : Extracted) : Pairs :=
  (askedPairs ctx.clarified).filter fun p => answer ctx reply p.1 p.2 = .unresolvable

def suppressDetection (ctx : ResumeContext) (reply : Extracted) : Pairs :=
  resolvedByName ctx.clarified ++ priorCarriedForward ctx.clarified ++ newlyClassified ctx reply

def backfillSkip (ctx : ResumeContext) (reply : Extracted) : Pairs :=
  resolvedByName ctx.clarified ++
    (newlyClassified ctx reply).filter
      (fun p => ((classified ctx reply).outcome p.1 p.2).any isResolved) ++
    unresolvableAsked ctx reply

def overwriteFields (overrides : Dict (Uuid × HoursField) (Option ℚ≥0)) (id : Uuid)
    (acc : ExtractedEmployee) (f : HoursField) : ExtractedEmployee :=
  match overrides.get? (id, f) with
  | none => acc
  | some v => acc.setHours f v

def overwriteEmployee (overrides : Dict (Uuid × HoursField) (Option ℚ≥0)) (combined : Dict Str Uuid)
    (emp : ExtractedEmployee) : ExtractedEmployee :=
  match combined.get? emp.submittedName with
  | none => emp
  | some id => HoursField.all.foldl (overwriteFields overrides id) emp

def overwriteAsked (ctx : ResumeContext) (x : Extractions) : Extracted :=
  { x.combined with
    employees := x.combined.employees.map
      (overwriteEmployee (replyValueOverrides ctx x.reply)
        (nameToId (reconcileNames x.combined.names ctx.roster none))) }

def priorMatchesForBackfill (ctx : ResumeContext) : List NameMatchResult :=
  match ctx.snapshot with
  | none => ctx.reconciliation
  | some snap => reconcileNames snap.names ctx.roster none ++ ctx.reconciliation

def stagesInput (ctx : ResumeContext) (x : Extractions) : Extracted :=
  if isRound2 ctx then overwriteAsked ctx x else x.combined

def stagesArgs (ctx : ResumeContext) (x : Extractions) (overrides : Option Overrides) : StageArgs :=
  if isRound2 ctx then
    { prior := ctx.snapshot
      priorMatches := some (priorMatchesForBackfill ctx)
      resolvedDrops := backfillSkip ctx x.reply
      suppressDetection := suppressDetection ctx x.reply
      overrides := overrides
      aliasCandidates := ctx.aliasCandidates }
  else
    { prior := ctx.snapshot
      priorMatches := some ctx.reconciliation
      resolvedDrops := []
      suppressDetection := []
      overrides := overrides
      aliasCandidates := ctx.aliasCandidates }

theorem prior_stagesArgs (ctx : ResumeContext) (x : Extractions) (overrides : Option Overrides) :
    (stagesArgs ctx x overrides).prior = ctx.snapshot := by
  unfold stagesArgs
  split <;> rfl

theorem overrides_stagesArgs (ctx : ResumeContext) (x : Extractions) (overrides : Option Overrides) :
    (stagesArgs ctx x overrides).overrides = overrides := by
  unfold stagesArgs
  split <;> rfl

def clarifiedAtGate (ctx : ResumeContext) (x : Extractions) : ClarifiedFields :=
  if isRound2 ctx then classified ctx x.reply else ctx.clarified

def resumeStages (ctx : ResumeContext) (x : Extractions) (overrides : Option Overrides) :
    Except CalculationError StageResult :=
  runStages ctx.runId ctx.roster (stagesInput ctx x) (stagesArgs ctx x overrides)

end

/-- `issue.field.rsplit(".", 1)`, when it splits. -/
def rsplitDot (s : Str) : Option (Str × Str) :=
  match s.reverse.dropWhile (· ≠ '.') with
  | [] => none
  | _ :: name => some (name.reverse, (s.reverse.takeWhile (· ≠ '.')).reverse)

/-- Record one deferred question. A terminal outcome is never flipped back. -/
def markAsked (nameToIdPost : Dict Str Uuid) (clarified : ClarifiedFields) (issue : ValidationIssue) :
    ClarifiedFields :=
  match issue.issueType, rsplitDot issue.field with
  | .fieldRegression, some (name, field) =>
      match nameToIdPost.get? name, HoursField.ofName field with
      | some id, some f =>
          if (clarified.outcome id f).any isTerminal then clarified
          else clarified.set id (((clarified.get? id).getD Dict.empty).set f .asked)
      | _, _ => clarified
  | _, _ => clarified

def deferredOutcomes (postReconciliation : List NameMatchResult) (clarified : ClarifiedFields)
    (issues : List ValidationIssue) : ClarifiedFields :=
  issues.foldl (markAsked (nameToId postReconciliation)) clarified

theorem mem_pairsWith (clarified : ClarifiedFields) (p : ClarifiedFieldOutcome → Bool) (id : Uuid)
    (f : HoursField) :
    (id, f) ∈ pairsWith clarified p ↔ ∃ o, clarified.outcome id f = some o ∧ p o = true := by
  constructor
  · intro h
    obtain ⟨⟨i, fields⟩, hq, hr⟩ := List.mem_flatMap.mp h
    obtain ⟨⟨g, o⟩, hfo, he⟩ := List.mem_filterMap.mp hr
    split at he
    case isTrue hp =>
        obtain ⟨rfl, rfl⟩ := Prod.mk.inj (Option.some.inj he)
        rw [← Dict.get?_eq_some_iff] at hq hfo
        exact ⟨o, by rw [ClarifiedFields.outcome, hq, Option.bind_some, hfo], hp⟩
    case isFalse => cases he
  · rintro ⟨o, ho, hp⟩
    obtain ⟨fields, hfields, hfo⟩ := Option.bind_eq_some_iff.mp ho
    rw [Dict.get?_eq_some_iff] at hfields hfo
    exact List.mem_flatMap.mpr ⟨(id, fields), hfields,
      List.mem_filterMap.mpr ⟨(f, o), hfo, if_pos hp⟩⟩

theorem mem_askedPairs (clarified : ClarifiedFields) (id : Uuid) (f : HoursField) :
    (id, f) ∈ askedPairs clarified ↔ clarified.outcome id f = some .asked := by
  rw [askedPairs, mem_pairsWith]
  constructor
  · rintro ⟨o, ho, he⟩
    rw [ho, of_decide_eq_true he]
  · intro h
    exact ⟨.asked, h, rfl⟩

theorem isRound2_of_outcome {ctx : ResumeContext} {id : Uuid} {f : HoursField}
    {o : ClarifiedFieldOutcome} (h : ctx.clarified.outcome id f = some o) : isRound2 ctx = true := by
  obtain ⟨fields, hfields, -⟩ := Option.bind_eq_some_iff.mp h
  rw [Dict.get?_eq_some_iff] at hfields
  simp [isRound2, List.ne_nil_of_mem hfields]

theorem isTerminal_of_classify {entry : Option ExtractedEmployee} {f : HoursField}
    {o : ClarifiedFieldOutcome} {v : Option ℚ≥0} (h : classify entry f = .answered o v) :
    isTerminal o = true := by
  unfold classify at h
  split at h
  · cases h
  · split at h
    · split at h <;> cases h <;> rfl
    · cases h
      rfl

theorem hours_foldl_overwriteFields (overrides : Dict (Uuid × HoursField) (Option ℚ≥0)) (id : Uuid)
    (acc : ExtractedEmployee) (fields : List HoursField) (f : HoursField) :
    (fields.foldl (overwriteFields overrides id) acc).hours f =
      if f ∈ fields then (overrides.get? (id, f)).getD (acc.hours f) else acc.hours f := by
  induction fields generalizing acc with
  | nil => simp
  | cons g rest ih =>
      rw [List.foldl_cons, ih]
      by_cases hg : f = g
      · subst hg
        cases ho : overrides.get? (id, f) <;> simp [overwriteFields, ho]
      · have hkeep : (overwriteFields overrides id acc g).hours f = acc.hours f := by
          unfold overwriteFields
          split
          · rfl
          · rw [ExtractedEmployee.hours_setHours, if_neg hg]
        simp [hg, hkeep]

theorem submittedName_foldl_overwriteFields (overrides : Dict (Uuid × HoursField) (Option ℚ≥0))
    (id : Uuid) (acc : ExtractedEmployee) (fields : List HoursField) :
    (fields.foldl (overwriteFields overrides id) acc).submittedName = acc.submittedName := by
  induction fields generalizing acc with
  | nil => rfl
  | cons g rest ih =>
      rw [List.foldl_cons, ih]
      unfold overwriteFields
      split
      · rfl
      · exact ExtractedEmployee.submittedName_setHours _ _ _

@[simp] theorem submittedName_overwriteEmployee
    (overrides : Dict (Uuid × HoursField) (Option ℚ≥0)) (combined : Dict Str Uuid)
    (emp : ExtractedEmployee) :
    (overwriteEmployee overrides combined emp).submittedName = emp.submittedName := by
  unfold overwriteEmployee
  split
  · rfl
  · exact submittedName_foldl_overwriteFields _ _ _ _

theorem hours_overwriteEmployee {overrides : Dict (Uuid × HoursField) (Option ℚ≥0)}
    {combined : Dict Str Uuid} {emp : ExtractedEmployee} {id : Uuid}
    (hid : combined.get? emp.submittedName = some id) (f : HoursField) :
    (overwriteEmployee overrides combined emp).hours f =
      (overrides.get? (id, f)).getD (emp.hours f) := by
  rw [overwriteEmployee, hid]
  simp only [hours_foldl_overwriteFields, f.mem_all, if_true]

section

variable [PyText] (ctx : ResumeContext) (reply : Extracted)

theorem outcome_classified (id : Uuid) (f : HoursField) :
    (classified ctx reply).outcome id f = (ctx.clarified.outcome id f).map fun o =>
      if o = .asked then (answer ctx reply id f).outcome else o := by
  simp only [ClarifiedFields.outcome, classified, Dict.get?_mapValues]
  cases ctx.clarified.get? id with
  | none => rfl
  | some fields => simp [Dict.get?_mapValues]

theorem mem_newlyClassified (id : Uuid) (f : HoursField) :
    (id, f) ∈ newlyClassified ctx reply ↔
      ctx.clarified.outcome id f = some .asked ∧ answer ctx reply id f ≠ .unresolvable := by
  rw [newlyClassified, List.mem_filter, mem_askedPairs, decide_eq_true_eq]

theorem mem_unresolvableAsked (id : Uuid) (f : HoursField) :
    (id, f) ∈ unresolvableAsked ctx reply ↔
      ctx.clarified.outcome id f = some .asked ∧ answer ctx reply id f = .unresolvable := by
  rw [unresolvableAsked, List.mem_filter, mem_askedPairs, decide_eq_true_eq]

theorem isTerminal_of_mem_suppressDetection {id : Uuid} {f : HoursField}
    (h : (id, f) ∈ suppressDetection ctx reply) :
    ((classified ctx reply).outcome id f).any isTerminal = true := by
  rw [outcome_classified]
  rcases List.mem_append.mp h with h | h
  · rcases List.mem_append.mp h with h | h
    · obtain ⟨o, ho, hp⟩ := (mem_pairsWith _ _ _ _).mp h
      rw [ho]
      cases o <;> first | rfl | cases hp
    · obtain ⟨o, ho, hp⟩ := (mem_pairsWith _ _ _ _).mp h
      rw [ho, of_decide_eq_true hp]
      rfl
  · obtain ⟨ho, hne⟩ := (mem_newlyClassified ctx reply id f).mp h
    rw [ho]
    cases ha : answer ctx reply id f with
    | unresolvable => exact absurd ha hne
    | answered o v => exact isTerminal_of_classify ha

theorem replyValueOverrides_get? {id : Uuid} {f : HoursField}
    (h : ctx.clarified.outcome id f = some .asked) :
    (replyValueOverrides ctx reply).get? (id, f) = some (answer ctx reply id f).value := by
  rw [replyValueOverrides,
    Dict.get?_ofList_map fun p : Uuid × HoursField => (answer ctx reply p.1 p.2).value,
    if_pos ((mem_askedPairs _ _ _).mpr h)]

theorem names_stagesInput (x : Extractions) : (stagesInput ctx x).names = x.combined.names := by
  unfold stagesInput
  split
  · simp [overwriteAsked, Extracted.names, Function.comp_def]
  · rfl

end

theorem rsplitDot_fieldPath (name : Str) (f : HoursField) :
    rsplitDot (fieldPath name f) = some (name, f.name) := by
  have hdots : ∀ c ∈ f.name.reverse, (c ≠ '.' : Bool) = true :=
    List.all_eq_true.mp (by cases f <;> rfl)
  have hrev : (fieldPath name f).reverse = f.name.reverse ++ '.' :: name.reverse := by
    simp [fieldPath]
  rw [rsplitDot, hrev, List.dropWhile_append_of_pos hdots, List.takeWhile_append_of_pos hdots]
  simp

theorem fieldPath_inj {name name' : Str} {f f' : HoursField} (h : fieldPath name f = fieldPath name' f') :
    name = name' ∧ f = f' := by
  have hsplit := congrArg rsplitDot h
  rw [rsplitDot_fieldPath, rsplitDot_fieldPath] at hsplit
  obtain ⟨hname, hfield⟩ := Prod.mk.inj (Option.some.inj hsplit)
  have hof := congrArg HoursField.ofName hfield
  rw [HoursField.ofName_name, HoursField.ofName_name] at hof
  exact ⟨hname, Option.some.inj hof⟩

end PayrollAgent.Resume
