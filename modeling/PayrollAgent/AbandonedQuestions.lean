import PayrollAgent.OutcomeOrder
import PayrollAgent.ReplyOutcomes

namespace PayrollAgent.AbandonedQuestions

open Lib Validate RunStages Resume ReconcileNames Rounds OutcomeOrder SnapshotIdentity
open ReplyOutcomes (answer_cases)

section

variable [PyText]

/-- The spelling is the employee's by the roster and the operator's overrides. -/
def Matched (roster : Roster) (overrides : Option Overrides) (id : Uuid) (name : Str) : Prop :=
  (reconcileName roster (overrides.getD Dict.empty) name).matchedEmployeeId = some id

/-- With the answers of the reply written in, the combined entry does not pay
the field. An answer goes to the entry that the roster alone resolves, and a
question without one counts as unpaid. -/
structure StillUnpaid (ctx : ResumeContext) (x : Extractions) (c : ExtractedEmployee)
    (f : HoursField) : Prop where
  asked : ∀ j e, Resolves ctx.roster c.submittedName j → ctx.clarified.outcome j f = some .asked →
    AnswersFor ctx x.reply j e → isPaid (e.hours f) = false
  other : (∀ j, Resolves ctx.roster c.submittedName j → ctx.clarified.outcome j f ≠ some .asked) →
    isPaid (c.hours f) = false

/-- The snapshot entry taken for the employee's pays the field, and the combined
extraction has an entry of the employee, the last of which does not. -/
structure Redetected (ctx : ResumeContext) (x : Extractions) (overrides : Option Overrides) (id : Uuid)
    (f : HoursField) : Prop where
  known : ∃ s, KnownAs ctx x.combined.names overrides id s ∧ isPaid (s.hours f) = true
  dropped : ∃ c, IsLast (fun e => Matched ctx.roster overrides id e.submittedName)
    x.combined.employees c ∧ StillUnpaid ctx x c f

/-- Every asked field of an employee the reply does not name is detected again. -/
def AsksAgain (ctx : ResumeContext) (x : Extractions) (overrides : Option Overrides) : Prop :=
  ∀ id f, ctx.clarified.outcome id f = some .asked →
    (∀ e ∈ x.reply.employees, ¬ Attributed ctx id e.submittedName) → Redetected ctx x overrides id f

variable {ctx : ResumeContext} {x : Extractions} {overrides : Option Overrides} {id : Uuid}
  {f : HoursField} {s : StageResult} {p q : Standing}

/-- A field that is asked at the gate was asked before, and its answer is not
in the reply. -/
theorem unresolvable_of_asked (h : (clarifiedAtGate ctx x).outcome id f = some .asked) :
    ctx.clarified.outcome id f = some .asked ∧ answer ctx x.reply id f = .unresolvable := by
  by_cases hround : isRound2 ctx = true
  · rw [clarifiedAtGate, if_pos hround, outcome_classified] at h
    obtain ⟨o, ho, houtcome⟩ := Option.map_eq_some_iff.mp h
    by_cases hasked : o = .asked
    · subst hasked
      refine ⟨ho, ?_⟩
      cases hanswer : answer ctx x.reply id f with
      | unresolvable => rfl
      | answered o v =>
          rw [if_pos rfl, hanswer] at houtcome
          have hterminal := isTerminal_of_classify hanswer
          rw [show o = .asked from houtcome] at hterminal
          cases hterminal
    · rw [if_neg hasked] at houtcome
      exact absurd houtcome hasked
  · rw [clarifiedAtGate, if_neg hround] at h
    exact absurd (isRound2_of_outcome h) hround

theorem answer_eq_unresolvable_iff :
    answer ctx x.reply id f = .unresolvable ↔ ∀ e ∈ x.reply.employees,
    ¬ Attributed ctx id e.submittedName := by
  rw [← replyEntry_eq_none_iff]
  rcases answer_cases ctx x.reply id f with
    ⟨hnone, ha⟩ | ⟨e, v, he, -, -, ha⟩ | ⟨e, he, -, ha⟩ | ⟨e, he, -, ha⟩
  · simp [hnone, ha]
  · simp [he, ha]
  · simp [he, ha]
  · simp [he, ha]

theorem asked_at_gate_iff : (clarifiedAtGate ctx x).outcome id f = some .asked ↔
    ctx.clarified.outcome id f = some .asked ∧ ∀ e ∈ x.reply.employees,
    ¬ Attributed ctx id e.submittedName := by
  rw [← answer_eq_unresolvable_iff]
  refine ⟨unresolvable_of_asked, ?_⟩
  rintro ⟨hasked, hanswer⟩
  rw [clarifiedAtGate, if_pos (isRound2_of_outcome hasked), outcome_classified, hasked,
    Option.map_some, if_pos rfl, hanswer]
  rfl

theorem isPaid_answer : isPaid (answer ctx x.reply id f).value = false ↔
    ∀ e, AnswersFor ctx x.reply id e → isPaid (e.hours f) = false := by
  simp only [← replyEntry_iff]
  rcases answer_cases ctx x.reply id f with
    ⟨hnone, ha⟩ | ⟨e, v, he, hv, -, ha⟩ | ⟨e, he, hv, ha⟩ | ⟨e, he, hv, ha⟩
  · simp [hnone, ha, Answer.value, isPaid]
  · simp [he, ha, hv, Answer.value]
  · simp [he, ha, hv, Answer.value]
  · simp [he, ha, hv, Answer.value]

/-- The entry that the stages compare, before and after the answers are written in. -/
theorem isPaid_written {c : ExtractedEmployee} (hc : c ∈ x.combined.employees) :
    isPaid ((overwriteEmployee (replyValueOverrides ctx x.reply)
      (nameToId (reconcileNames x.combined.names ctx.roster none)) c).hours f) = false ↔
      StillUnpaid ctx x c f := by
  have hmem : c.submittedName ∈ x.combined.names := List.mem_map_of_mem hc
  have hname := nameToId_reconcileNames ctx.roster none hmem
  cases hid : (reconcileName ctx.roster Dict.empty c.submittedName).matchedEmployeeId with
  | none =>
      have hnone : ∀ j, ¬ Resolves ctx.roster c.submittedName j := by simp [Resolves, hid]
      rw [overwriteEmployee, show (nameToId _).get? c.submittedName = none from hname.trans hid]
      exact ⟨fun h => ⟨fun j e hj => absurd hj (hnone j), fun _ => h⟩, fun h => h.other fun j hj =>
        absurd hj (hnone j)⟩
  | some j =>
      have hj : ∀ j', Resolves ctx.roster c.submittedName j' ↔ j' = j := by simp [Resolves, hid, eq_comm]
      rw [hours_overwriteEmployee (hname.trans hid), replyValueOverrides,
        Dict.get?_ofList_map fun p : Uuid × HoursField => (answer ctx x.reply p.1 p.2).value]
      by_cases hasked : ctx.clarified.outcome j f = some .asked
      · rw [if_pos ((mem_askedPairs _ _ _).mpr hasked), Option.getD_some, isPaid_answer]
        constructor
        · intro h
          exact ⟨fun j' e hj' _ => by rw [(hj j').mp hj']; exact h e, fun hother => absurd hasked
            (hother j ((hj j).mpr rfl))⟩
        · intro h e he
          exact h.asked j e ((hj j).mpr rfl) hasked he
      · rw [if_neg fun hmem => hasked ((mem_askedPairs _ _ _).mp hmem), Option.getD_none]
        constructor
        · intro h
          exact ⟨fun j' e hj' hasked' => absurd ((hj j').mp hj' ▸ hasked') hasked, fun _ => h⟩
        · intro h
          exact h.other fun j' hj' => by rw [(hj j').mp hj']; exact hasked

theorem compared_of_redetected (hround : isRound2 ctx = true) (h : Redetected ctx x overrides id f) :
    ∃ o r, priorEntry ctx x overrides id = some o ∧
      (idKeyed (stagesInput ctx x)
        (stageMatches ctx.roster (stagesInput ctx x) (stagesArgs ctx x overrides))).get? id = some r ∧
      isPaid (o.hours f) = true ∧ isPaid (r.hours f) = false := by
  obtain ⟨⟨o, ho, hpaid⟩, c, hlast, hunpaid⟩ := h
  refine ⟨o, _, priorEntry_iff.mpr ho, ?_, hpaid, (isPaid_written hlast.mem.1).mpr hunpaid⟩
  rw [stageMatches, overrides_stagesArgs, names_stagesInput, stagesInput, if_pos hround]
  refine (Dict.get?_ofList_key _).mpr ((isLast_map).mpr ⟨c, (isLast_congr fun e he => ?_).mpr hlast, rfl⟩)
  have hname : e.submittedName ∈ x.combined.names := List.mem_map_of_mem he
  rw [submittedName_overwriteEmployee, nameToId_reconcileNames _ _ hname, Matched]

theorem not_process_of_redetected (hs : resumeStages ctx x overrides = .ok s)
    (hasked : (clarifiedAtGate ctx x).outcome id f = some .asked)
    (h : Redetected ctx x overrides id f) : s.decision.finalAction ≠ .process := by
  have hround := isRound2_of_outcome (asked_at_gate_iff.mp hasked).1
  obtain ⟨o, r, ho, hr, hpaid, hgone⟩ := compared_of_redetected hround h
  obtain ⟨-, -, hdecision⟩ := stages_of_ok hs
  have hopen : (id, f) ∉ (stagesArgs ctx x overrides).suppressDetection := by
    intro hmem
    rw [stagesArgs, if_pos hround] at hmem
    have hterminal := isTerminal_of_mem_suppressDetection ctx x.reply hmem
    rw [clarifiedAtGate, if_pos hround] at hasked
    rw [hasked] at hterminal
    cases hterminal
  rw [hdecision]
  exact not_process_of_dropped ho hr hpaid hgone hopen

theorem asksAgain_iff (hs : resumeStages ctx x overrides = .ok s)
    (hprocess : s.decision.finalAction = .process) :
    AsksAgain ctx x overrides ↔ ∀ id f, (clarifiedAtGate ctx x).outcome id f ≠ some .asked := by
  constructor
  · intro hok id f hasked
    obtain ⟨hbefore, hunnamed⟩ := asked_at_gate_iff.mp hasked
    exact not_process_of_redetected hs hasked (hok id f hbefore hunnamed) hprocess
  · intro hnone id f hbefore hunnamed
    exact absurd (asked_at_gate_iff.mpr ⟨hbefore, hunnamed⟩) (hnone id f)

/-- Without overrides of the operator an employee the reply does not name is
detected again where the combined extraction still has an entry of the employee. -/
theorem redetected_iff (hasked : ctx.clarified.outcome id f = some .asked)
    (hunnamed : ∀ e ∈ x.reply.employees, ¬ Attributed ctx id e.submittedName) :
    Redetected ctx x none id f ↔
      (∃ s, KnownAs ctx x.combined.names none id s ∧ isPaid (s.hours f) = true) ∧
        ∃ c ∈ x.combined.employees, Resolves ctx.roster c.submittedName id := by
  constructor
  · rintro ⟨hknown, c, hlast, -⟩
    exact ⟨hknown, c, hlast.mem⟩
  · rintro ⟨hknown, hentry⟩
    obtain ⟨c, hlast⟩ := exists_isLast hentry
    refine ⟨hknown, c, hlast, ?_, ?_⟩
    · rintro j e hj - ⟨first, hfirst, -⟩
      obtain rfl : id = j := Option.some.inj (hlast.mem.2.symm.trans hj)
      exact absurd hfirst.mem.2 (hunnamed first hfirst.mem.1)
    · intro hother
      exact absurd hasked (hother id hlast.mem.2)

theorem moves_answered (h : Moves ctx x overrides p q) (hclarified : ctx.clarified = p.clarified)
    (hok : AsksAgain ctx x overrides)
    (hp : p.status = .awaitingApproval → ∀ id f, p.clarified.outcome id f ≠ some .asked)
    (hstatus : q.status = .awaitingApproval) : ∀ id f, q.clarified.outcome id f ≠ some .asked := by
  cases h with
  | unmoved => exact hp hstatus
  | claimed => cases hstatus
  | answered => cases hstatus
  | approved _ hs hprocess => exact (asksAgain_iff hs hprocess).mp hok
  | paused _ _ _ _ hpaused =>
      obtain rfl : _ = RunStatus.awaitingApproval := hstatus
      simp [pausedStatuses] at hpaused
  | deferred _ _ _ hdeferred =>
      obtain rfl : _ = RunStatus.awaitingApproval := hstatus
      simp [pausedStatuses] at hdeferred

/-- While every asked field of an employee a reply does not name is detected
again, a run that is put up for approval has no question left. Any other resume
that processes the run leaves one. -/
theorem no_question_abandoned :
    (∀ {status : RunStatus} {q : Standing}, status ≠ .awaitingApproval →
      Later AsksAgain ⟨status, Dict.empty⟩ q → q.status = .awaitingApproval →
        ∀ id f, q.clarified.outcome id f ≠ some .asked) ∧
    ∀ {ctx x overrides s}, resumeStages ctx x overrides = .ok s → s.decision.finalAction = .process →
      (AsksAgain ctx x overrides ↔ ∀ id f, (clarifiedAtGate ctx x).outcome id f ≠ some .asked) := by
  refine ⟨?_, asksAgain_iff⟩
  intro status q hstart h hstatus
  generalize hp : Standing.mk status Dict.empty = p at h
  induction h with
  | refl => exact absurd (by rw [← hp] at hstatus; exact hstatus) hstart
  | resumed _ hclarified hok hmoves ih => exact moves_answered hmoves hclarified hok ih hstatus
  | waited _ hne => exact absurd hstatus hne

end

section Histories

attribute [local instance] asciiText

/-- The reply and the combined body leave Ann out. -/
def otherReply : Extractions := replyOf [reported "bob ray".toList (whole 30) none]

theorem question_abandoned :
    ¬ ∀ (status : RunStatus) (q : Standing), status ≠ .awaitingApproval →
      Later (fun _ _ _ => True) ⟨status, Dict.empty⟩ q → q.status = .awaitingApproval →
        ∀ id f, q.clarified.outcome id f ≠ some .asked := by
  intro hall
  have hlater : Later (fun _ _ _ => True) ⟨.received, Dict.empty⟩
      ⟨.awaitingApproval, clarifiedAtGate afterQuestion otherReply⟩ :=
    later_approved (later_asked trivial) trivial (by decide +kernel)
  have hasked : (clarifiedAtGate afterQuestion otherReply).outcome 1 .overtime = some .asked := by
    decide +kernel
  exact hall .received _ (by decide) hlater rfl 1 .overtime hasked

theorem asksAgain_answered : AsksAgain afterQuestion zeroReply none := by
  have hanswered : (askedPairs askedOvertime).all
      fun p => answer afterQuestion zeroReply.reply p.1 p.2 ≠ .unresolvable := by
    decide +kernel
  intro id f hasked hunnamed
  have hpair := List.all_eq_true.mp hanswered (id, f) ((mem_askedPairs _ _ _).mpr hasked)
  simp [answer_eq_unresolvable_iff.mpr hunnamed] at hpair

theorem asksAgain_first : AsksAgain beforeQuestion silentReply none := by
  intro id f hasked
  cases hasked

theorem no_question_abandoned_answered :
    (clarifiedAtGate afterQuestion zeroReply).outcome 1 .overtime ≠ some .asked :=
  no_question_abandoned.1 (by decide)
    (later_approved (later_asked asksAgain_first) asksAgain_answered (by decide +kernel)) rfl 1 .overtime

end Histories

end PayrollAgent.AbandonedQuestions
