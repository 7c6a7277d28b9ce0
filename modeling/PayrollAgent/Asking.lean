import PayrollAgent.Handlers
import PayrollAgent.QuestionSteps

namespace PayrollAgent.Asking

open Lib Repo AliasLearning Calculate ReconcileNames Orchestrator Handlers ClarificationWrites
  RunStages Resume QuestionSteps CombinedEmail

/-- The counter that `get_clarification_round` reads. -/
def roundOf (db : Db) (r : Uuid) : Nat := ((db.runs.get? r).map Run.clarificationRound).getD 0

/-- The run a thread claimed, and what it has read since, the newest first. -/
structure Reading where
  run : Option Uuid
  seen : List Db

def Reading.fresh : Reading := ⟨none, []⟩

def Reading.Found (s : Reading) (r : Uuid) : Prop :=
  ∃ purpose d₁ d₂, purpose ≠ Purpose.confirmation ∧ [d₂, d₁].Sublist s.seen ∧
    (findSlot d₂ r purpose (roundOf d₁ r)).isSome

def Reading.allows (s : Reading) : Op → Prop
  | .finalizeSentClarification r _ _ => s.run = some r ∧ s.Found r
  | .replayReservedClarification r _ _ => s.run = some r ∧ s.Found r
  | .reserveClarification r q =>
      s.run = some r ∧ q.purpose ≠ .confirmation ∧ q.round < maxClarificationRounds ∧
        ∃ d ∈ s.seen, q.round = roundOf d r
  | _ => True

def Reading.next (s : Reading) : (op : Op) → Except Exn (Ans op) → Reading
  | .query, .ok d => { s with seen := d :: s.seen }
  | .claimStatus r .received .extracting, .ok true => ⟨some r, []⟩
  | .claimStatus _ .received .extracting, _ => .fresh
  | .finalizeSentClarification _ _ _, _ => .fresh
  | .replayReservedClarification _ _ _, _ => .fresh
  | .reserveClarification _ _, _ => .fresh
  | _, _ => s

def asking : Prog.Monitor Op Ans Exn Reading := ⟨Reading.allows, Reading.next⟩

def Quiet (op : Op) : Prop := pausesForReply op = none ∧ ∀ r, op ≠ .claimStatus r .received .extracting

variable {α : Type} {s : Reading} {r : Uuid} {job : Job}

theorem allows_quiet {op : Op} (h : Quiet op) : s.allows op := by
  cases op with
  | finalizeSentClarification r round x => cases h.1
  | replayReservedClarification r e x => cases h.1
  | reserveClarification r q => cases h.1
  | _ => trivial

theorem next_quiet {op : Op} (h : Quiet op) (x : Except Exn (Ans op)) : (s.next op x).run = s.run := by
  unfold Reading.next
  split
  · rfl
  · exact absurd rfl (h.2 _)
  · exact absurd rfl (h.2 _)
  · cases h.1
  · cases h.1
  · cases h.1
  · rfl

theorem next_of_pauses {op : Op} (h : pausesForReply op = some r) (x : Except Exn (Ans op)) :
    s.next op x = .fresh := by
  cases op with
  | finalizeSentClarification r round x => rfl
  | replayReservedClarification r e x => rfl
  | reserveClarification r q => rfl
  | _ => cases h

theorem next_same {op : Op} (h : Quiet op) (hquery : op ≠ .query) (x : Except Exn (Ans op)) :
    s.next op x = s := by
  unfold Reading.next
  split
  · exact absurd rfl hquery
  · exact absurd rfl (h.2 _)
  · exact absurd rfl (h.2 _)
  · cases h.1
  · cases h.1
  · cases h.1
  · rfl

theorem next_query (x : Except Exn Db) :
    s.next .query x = s ∨ ∃ d, x = .ok d ∧ s.next .query x = { s with seen := d :: s.seen } := by
  cases x with
  | ok d => exact .inr ⟨d, rfl, rfl⟩
  | error e => exact .inl rfl

theorem next_claim (r : Uuid) (x : Except Exn Bool) :
    s.next (.claimStatus r .received .extracting) x = .fresh ∨
    x = .ok true ∧ s.next (.claimStatus r .received .extracting) x = ⟨some r, []⟩ := by
  cases x with
  | error e => exact .inl rfl
  | ok won =>
      cases won with
      | true => exact .inr ⟨rfl, rfl⟩
      | false => exact .inl rfl

abbrev Calm (p : Act α) : Prop := p.Calls Quiet

theorem Calm.follows {p : Act α} (h : Calm p) :
    Prog.Follows asking (fun (t : Reading) _ => t.run = s.run) p s :=
  Prog.Calls.follows (R := fun t : Reading => t.run = s.run) (fun _ _ _ hop => allows_quiet hop)
    (fun _ _ x ht hop => (next_quiet hop x).trans ht) h rfl

theorem Calm.obeys {p : Act α} (h : Calm p) : Prog.Follows asking (fun _ _ => True) p s :=
  h.follows.mono fun _ _ _ => trivial

theorem calm_query : Calm query := .perform ⟨rfl, nofun⟩

theorem calm_staged {p : Act α} (stage : PipelineStage) (h : Calm p) : Calm (staged stage p) :=
  .catching h fun _ => trivial

theorem calm_extract (email : ReadEmail) : Calm (extract r email) :=
  .bind (calm_staged _ (.perform ⟨rfl, nofun⟩)) fun _ => trivial

theorem calm_loadRun (stage : PipelineStage) : Calm (loadRun r stage) := by
  refine .bind (calm_staged _ calm_query) fun db => ?_
  cases db.runs.get? r with
  | none => trivial
  | some run => trivial

theorem calm_loadRoster (businessId : Uuid) : Calm (loadRoster businessId) := by
  refine .bind (calm_staged _ calm_query) fun db => ?_
  cases db.rosters.get? businessId with
  | none => trivial
  | some roster => trivial

theorem calm_resumeContext (inbound : Option InboundMail) : Calm (resumeContext r inbound) :=
  .bind (calm_loadRun _) fun _ => .bind (calm_loadRoster _) fun _ => .bind (calm_loadRun _) fun _ =>
    .bind (calm_loadRun _) fun _ => .bind (calm_loadRun _) fun _ => .bind (calm_staged _ calm_query)
      fun _ =>
      .bind (calm_staged _ (.perform ⟨rfl, nofun⟩)) fun _ => trivial

theorem calm_consumeReply (inbound : Option InboundMail) : Calm (consumeReply r inbound) := by
  cases inbound with
  | none => trivial
  | some mail =>
      exact .bind (calm_staged _ calm_query) fun db => calm_staged _ (.perform ⟨rfl, nofun⟩)

theorem calm_extractions (ctx : ResumeContext) (emails : ResumeEmails) :
    Calm (extractions r ctx emails) :=
  .ite (.bind (calm_extract _) fun _ => .bind (calm_extract _) fun _ => trivial)
    (.bind (calm_extract _) fun _ => trivial)

theorem calm_reenter (paused status : RunStatus) : Calm (reenter job r paused status) := by
  refine .ite (.perform ⟨rfl, fun r h => ?_⟩) (.ite trivial (.ite (.perform ⟨rfl, nofun⟩) trivial))
  cases h

theorem calm_prepare (g : Uuid) : Calm (prepare r g) := by
  refine .catching (.bind (.perform ⟨rfl, nofun⟩) fun _ => trivial) fun e => ?_
  exact .ite trivial trivial

theorem calm_sendReservedOutboundSnapshot (a : Authorization) :
    Calm (sendReservedOutboundSnapshot a) := by
  refine .ite trivial (.bind calm_query fun db => .ite trivial ?_)
  exact .catching (.bind (.perform ⟨rfl, nofun⟩) fun _ => trivial) fun _ => trivial

theorem calm_handleSendOutbound : Calm (handleSendOutbound job) := by
  refine .ite trivial (.bind (.perform ⟨rfl, nofun⟩) fun outcome => ?_)
  cases outcome with
  | authorized a => exact calm_sendReservedOutboundSnapshot a
  | _ => trivial

theorem calm_handleIngest : Calm (handleIngest job) := by
  unfold handleIngest
  cases job.eventId with
  | none => trivial
  | some eventId =>
      exact .bind (.perform ⟨rfl, nofun⟩) fun mail => .bind (.perform ⟨rfl, nofun⟩) fun _ => trivial

theorem calm_settle (result : PipelineResult) : Calm (settle job result) :=
  .ite (.perform ⟨rfl, nofun⟩) (.perform ⟨rfl, nofun⟩)

theorem calm_approveRun : Calm (approveRun r) :=
  .catching (.bind (.perform ⟨rfl, nofun⟩) fun _ => trivial) fun _ => .perform ⟨rfl, nofun⟩

theorem calm_rejectRun : Calm (rejectRun r) := by
  have hclaim : ∀ expected, Calm (Orchestrator.perform (.claimStatus r expected .rejected)) :=
    fun expected =>
    .perform ⟨rfl, fun r h => by cases h⟩
  refine .bind (hclaim .awaitingApproval) fun _ => .ite trivial ?_
  refine .bind (hclaim .needsOperator) fun _ => .ite trivial ?_
  exact .bind (hclaim .awaitingReply) fun _ => trivial

theorem calm_resolveRun (overrides : Dict Str Uuid) (remember : Dict Str Bool) :
    Calm (resolveRun r overrides remember) := by
  refine .bind calm_query fun (db : Db) => ?_
  cases db.runs.get? r with
  | none => trivial
  | some run => exact .ite (.bind (.perform ⟨rfl, nofun⟩) fun _ => trivial) trivial

theorem calm_ignoring {op : Op} {p : Act (Ans op)} (h : Calm p) : Calm (ignoring p) :=
  .catching (.bind h fun _ => trivial) fun _ => trivial

section

variable [PyText]

theorem calm_storeAnswers (ctx : ResumeContext) (x : Extractions) : Calm (storeAnswers r ctx x) :=
  .ite (calm_staged _ (.perform ⟨rfl, nofun⟩)) trivial

theorem calm_bindAliases (roster : Roster) (candidates : AliasCandidates) :
    Calm (bindAliases r roster candidates) :=
  .ite trivial (.bind (calm_staged _ calm_query) fun _ => .ite trivial
    (calm_staged _ (.perform ⟨rfl, nofun⟩)))

theorem ask_follows (decision : Decision) (roster : Roster) (extracted : Extracted)
    {purpose : Purpose} {round : Nat}
    (hrun : s.run = some r) (hpurpose : purpose ≠ .confirmation) (hcap : round < maxClarificationRounds)
    (hseen : ∃ d ∈ s.seen, round = roundOf d r) :
    Prog.Follows asking (fun _ _ => True) (ask r decision roster extracted purpose round) s := by
  refine Prog.follows_perform_bind.mpr ⟨trivial, fun suggestions => ?_, fun _ => trivial⟩
  refine Prog.follows_perform_bind.mpr ⟨trivial, fun envelope => ?_, fun _ => trivial⟩
  exact Prog.follows_perform.mpr ⟨⟨hrun, hpurpose, hcap, hseen⟩, fun _ => trivial⟩

omit [PyText] in
theorem isSome_of_filter {db : Db} {purpose : Purpose} {round : Nat} {p : Uuid × Outbound}
    {f : Uuid × Outbound → Bool} (h : (findSlot db r purpose round).filter f = some p) :
    (findSlot db r purpose round).isSome := by
  rw [(Option.filter_eq_some_iff.mp h).1]
  rfl

theorem askOnce_follows (decision : Decision) (roster : Roster) (extracted : Extracted)
    {purpose : Purpose} {d₁ : Db}
    (hrun : s.run = some r) (hpurpose : purpose ≠ .confirmation)
    (hcap : roundOf d₁ r < maxClarificationRounds) (hseen : d₁ ∈ s.seen) :
    Prog.Follows asking (fun _ _ => True)
      (askOnce r decision roster extracted purpose (roundOf d₁ r)) s := by
  refine Prog.follows_perform_bind.mpr ⟨trivial, fun (d₂ : Db) => ?_, fun _ => trivial⟩
  cases hsent : getOutboundForRound d₂ r purpose (roundOf d₁ r) with
  | some p =>
      refine Prog.follows_perform.mpr ⟨⟨hrun, purpose, d₁, d₂, hpurpose, ?_,
        isSome_of_filter hsent⟩, fun _ => trivial⟩
      exact (List.singleton_sublist.mpr hseen).cons_cons d₂
  | none =>
      refine Prog.follows_perform_bind.mpr ⟨trivial, fun (d₃ : Db) => ?_, fun _ => trivial⟩
      have hseen' : d₁ ∈ d₂ :: s.seen := List.mem_cons_of_mem _ hseen
      cases hopen : getUnconfirmedOutbound d₃ r purpose (roundOf d₁ r) with
      | some p =>
          refine Prog.follows_perform.mpr ⟨⟨hrun, purpose, d₁, d₃, hpurpose, ?_, isSome_of_filter hopen⟩,
            fun _ => trivial⟩
          exact (List.singleton_sublist.mpr hseen').cons_cons d₃
      | none =>
          exact ask_follows decision roster extracted hrun hpurpose hcap
            ⟨d₁, List.mem_cons_of_mem _ hseen', rfl⟩

theorem clarify_follows (decision : Decision) (roster : Roster) (extracted : Extracted)
    {purpose : Purpose} (hrun : s.run = some r) (hpurpose : purpose ≠ .confirmation) :
    Prog.Follows asking (fun _ _ => True) (clarify r decision roster extracted purpose) s := by
  refine Prog.follows_perform_bind.mpr ⟨trivial, fun (d₁ : Db) => ?_, fun _ => trivial⟩
  refine Prog.Follows.ite (fun _ => ?_) fun hcap => ?_
  · have hescalates : Calm (Orchestrator.perform (.escalateToOperator r)) := .perform ⟨rfl, nofun⟩
    exact hescalates.obeys
  · exact askOnce_follows decision roster extracted hrun hpurpose (Nat.lt_of_not_le hcap)
      List.mem_cons_self

theorem defer_follows (clarified : ClarifiedFields) (issues : List ValidationIssue) (roster : Roster)
    (hrun : s.run = some r) :
    Prog.Follows asking (fun _ _ => True)
      (deferFieldRegressionClarification r clarified issues roster) s := by
  refine Prog.follows_perform_bind.mpr ⟨trivial, fun (d₁ : Db) => ?_, fun _ => trivial⟩
  refine Prog.follows_perform_bind.mpr ⟨trivial, fun _ => ?_, fun _ => trivial⟩
  refine Prog.follows_perform_bind.mpr ⟨trivial, fun (d₂ : Db) => ?_, fun _ => trivial⟩
  cases (d₂.runs.get? r).bind Run.decision with
  | none => trivial
  | some decision =>
      cases (d₂.runs.get? r).bind Run.extractedData with
      | none => trivial
      | some extracted => exact clarify_follows decision roster extracted hrun (by decide)

omit [PyText] in
theorem staged_follows {p : Act α} (stage : PipelineStage)
    (h : Prog.Follows asking (fun _ _ => True) p s) :
    Prog.Follows asking (fun _ _ => True) (staged stage p) s :=
  h.catching (fun _ _ _ => trivial) fun _ _ _ => trivial

theorem persistAndBranch_follows (roster : Roster) (result : Except CalculationError StageResult)
    (hrun : s.run = some r) :
    Prog.Follows asking (fun t x => ∀ st, x = .ok st → st.clarifyDeferred = true → t.run = some r)
      (persistAndBranch r roster result) s := by
  cases result with
  | error e => exact fun st hst => by cases hst
  | ok st =>
      have hpersist : Calm (staged .persist (Orchestrator.perform (.persistStages r st))) :=
        calm_staged _ (.perform ⟨rfl, nofun⟩)
      refine Prog.Follows.bind hpersist.follows (fun t _ ht => ?_) fun t e _ st hst => by cases hst
      refine Prog.Follows.ite (fun _ => ?_) fun hasks => ?_
      · exact fun st _ _ => ht.trans hrun
      · refine Prog.Follows.bind (staged_follows _ (clarify_follows _ _ _ (ht.trans hrun) (by decide)))
          (fun t _ _ st' hst hdefer => ?_) fun t e _ st hst => by cases hst
        obtain rfl := Except.ok.inj hst
        exact absurd (.inr hdefer) hasks

omit [PyText] in
theorem classifying_follows {p : Act PipelineResult} (h : Prog.Follows asking (fun _ _ => True) p s) :
    Prog.Follows asking (fun _ _ => True) (classifying p) s :=
  h.catching (fun _ _ _ => trivial) fun _ _ _ => trivial

theorem runPipeline_follows (hrun : s.run = some r) :
    Prog.Follows asking (fun _ _ => True) (runPipeline r) s := by
  refine classifying_follows ?_
  refine Prog.Follows.bind (calm_loadRun _).follows (fun t run ht => ?_) fun _ _ _ => trivial
  refine Prog.Follows.bind (calm_staged _ calm_query).follows (fun u db hu => ?_) fun _ _ _ => trivial
  cases db.inbound.get? run.sourceEmailId with
  | none => trivial
  | some row =>
  refine Prog.Follows.bind (calm_loadRoster _).follows (fun v roster hv => ?_) fun _ _ _ => trivial
  have hset : Calm (staged .persist (Orchestrator.perform (.setStatus r .extracting))) :=
    calm_staged _ (.perform ⟨rfl, nofun⟩)
  refine Prog.Follows.bind hset.follows (fun w _ hw => ?_) fun _ _ _ => trivial
  refine Prog.Follows.bind (calm_extract _).follows (fun y x hy => ?_) fun _ _ _ => trivial
  have hrun' : y.run = some r := by rw [hy, hw, hv, hu, ht, hrun]
  exact Prog.Follows.bind (persistAndBranch_follows roster _ hrun') (fun _ _ _ => trivial)
    fun _ _ _ => trivial

theorem resumeFrom_follows (ctx : ResumeContext) (emails : ResumeEmails) (overrides : Option Overrides)
    (hrun : s.run = some r) :
    Prog.Follows asking (fun _ _ => True) (resumeFrom r ctx emails overrides) s := by
  refine Prog.Follows.bind (calm_extractions ctx emails).follows (fun t x ht => ?_) fun _ _ _ => trivial
  refine Prog.Follows.bind (calm_storeAnswers ctx x).follows (fun u _ hu => ?_) fun _ _ _ => trivial
  have hrun' : u.run = some r := by rw [hu, ht, hrun]
  refine Prog.Follows.bind (persistAndBranch_follows ctx.roster _ hrun') (fun v st hv => ?_)
    fun _ _ _ => trivial
  refine Prog.Follows.ite (fun hdefer => ?_) fun _ => ?_
  · exact Prog.Follows.bind (staged_follows _ (defer_follows _ _ _ (hv st rfl hdefer)))
      (fun _ _ _ => trivial) fun _ _ _ => trivial
  · exact Prog.Follows.bind (calm_bindAliases _ _).obeys (fun _ _ _ => trivial) fun _ _ _ => trivial

theorem resumePipeline_follows (inbound : Option InboundMail) (overrides : Option Overrides) :
    Prog.Follows asking (fun _ _ => True) (resumePipeline r inbound .received overrides) s := by
  refine classifying_follows ?_
  have hclaim : Prog.Follows asking (fun t x => x = .ok true → t.run = some r)
      (staged .persist (Orchestrator.perform (.claimStatus r .received .extracting)) : Act Bool) s := by
    refine Prog.Follows.catching (P := fun t x => x = .ok true → t.run = some r) (Prog.follows_perform.mpr
      ⟨trivial, fun x hx => ?_⟩) (fun _ _ h => h) fun _ _ _ hx => by cases hx
    rw [hx]
    rfl
  refine Prog.Follows.bind hclaim (fun t claimed ht => ?_) fun _ _ _ => trivial
  refine Prog.Follows.ite (fun hwon => ?_) fun _ => trivial
  refine Prog.Follows.bind (calm_consumeReply inbound).follows (fun u _ hu => ?_) fun _ _ _ => trivial
  refine Prog.Follows.bind (calm_resumeContext inbound).follows (fun v reads hv => ?_)
    fun _ _ _ => trivial
  exact resumeFrom_follows reads.1 reads.2 overrides (by rw [hv, hu, ht (congrArg _ hwon)])

theorem claimAndRun_follows : Prog.Follows asking (fun _ _ => True) (claimAndRun r) s := by
  refine Prog.follows_perform_bind.mpr ⟨trivial, fun (won : Bool) => ?_, fun _ => trivial⟩
  cases won with
  | true => exact runPipeline_follows rfl
  | false => trivial

theorem handleRunPipeline_follows : Prog.Follows asking (fun _ _ => True) (handleRunPipeline job) s := by
  unfold handleRunPipeline
  cases job.runId with
  | none => trivial
  | some r =>
      refine Prog.Follows.ite (fun _ => ?_) fun _ => claimAndRun_follows
      exact Prog.follows_perform_bind.mpr ⟨trivial, fun _ => claimAndRun_follows, fun _ => trivial⟩

theorem handleResumeReply_follows : Prog.Follows asking (fun _ _ => True) (handleResumeReply job) s := by
  unfold handleResumeReply
  cases job.runId with
  | none => trivial
  | some r =>
      cases job.emailId with
      | none => trivial
      | some e =>
          refine Prog.follows_perform_bind.mpr ⟨trivial, fun (db : Db) => ?_, fun _ => trivial⟩
          cases db.inbound.get? e with
          | none => trivial
          | some row =>
              refine Prog.follows_perform_bind.mpr ⟨trivial, fun (db : Db) => ?_, fun _ => trivial⟩
              cases db.runs.get? r with
              | none => trivial
              | some run =>
                  refine Prog.Follows.ite (fun _ => ?_) fun _ => trivial
                  refine Prog.Follows.bind (calm_reenter .awaitingReply run.status).obeys
                    (fun t entered _ => ?_) fun _ _ _ => trivial
                  exact Prog.Follows.ite (fun _ => resumePipeline_follows _ _) fun _ => trivial

theorem resumeWith_follows (g : Uuid) : Prog.Follows asking (fun _ _ => True) (resumeWith job r g) s := by
  refine Prog.follows_perform_bind.mpr ⟨trivial, fun (db : Db) => ?_, fun _ => trivial⟩
  cases db.resolutions.get? g with
  | none => trivial
  | some generation =>
      refine Prog.follows_perform_bind.mpr ⟨trivial, fun (db : Db) => ?_, fun _ => trivial⟩
      cases db.runs.get? r with
      | none => trivial
      | some run =>
          refine Prog.Follows.bind (calm_reenter .needsOperator run.status).obeys (fun t entered _ => ?_)
            fun _ _ _ => trivial
          exact Prog.Follows.ite (fun _ => resumePipeline_follows _ _) fun _ => trivial

theorem handleOperatorResume_follows : Prog.Follows asking (fun _ _ => True)
    (handleOperatorResume job) s := by
  unfold handleOperatorResume
  cases job.runId with
  | none => trivial
  | some r =>
      cases job.operatorResolutionId with
      | none => trivial
      | some g =>
          refine Prog.Follows.bind (calm_prepare g).obeys (fun t authoritative _ => ?_)
            fun _ _ _ => trivial
          match authoritative with
          | none => trivial
          | some false => trivial
          | some true => exact resumeWith_follows g

theorem handle_follows : Prog.Follows asking (fun _ _ => True) (handle job) s := by
  unfold handle
  cases job.kind with
  | runPipeline => exact handleRunPipeline_follows
  | resumeReply => exact handleResumeReply_follows
  | operatorResume => exact handleOperatorResume_follows
  | ingest => exact calm_handleIngest.obeys
  | sendOutbound => exact calm_handleSendOutbound.obeys

theorem attempt_follows : Prog.Follows asking (fun _ _ => True) (attempt job) s := by
  refine Prog.Follows.catching (P := fun _ _ => True) ?_ (fun _ _ _ => trivial) fun _ _ _ => trivial
  exact Prog.Follows.bind handle_follows (fun _ _ _ => trivial) fun _ _ _ => trivial

theorem drainOnce_follows : Prog.Follows asking (fun _ _ => True) drainOnce s := by
  refine Prog.follows_perform_bind.mpr ⟨trivial, fun (claimed : Option Job) => ?_, fun _ => trivial⟩
  cases claimed with
  | none =>
      have hreap : Calm (Orchestrator.perform .reapExpiredFinalAttempt >>= fun _ => pure ()) :=
        .bind (.perform ⟨rfl, nofun⟩) fun _ => trivial
      exact hreap.obeys
  | some job =>
      refine Prog.Follows.bind attempt_follows (fun t result _ => ?_) fun _ _ _ => trivial
      exact Prog.Follows.bind (calm_settle _).obeys (fun _ _ _ => trivial) fun _ _ _ => trivial

theorem thread_follows (k : Thread) : Prog.Follows asking (fun _ _ => True) (thread k) s := by
  have hcalm : Calm (thread k) → Prog.Follows asking (fun _ _ => True) (thread k) s := Calm.obeys
  cases k with
  | worker => exact drainOnce_follows
  | approve r => exact hcalm calm_approveRun
  | reject r => exact hcalm calm_rejectRun
  | resolve r overrides remember => exact hcalm (calm_resolveRun overrides remember)
  | shutdown tokens => exact hcalm (.perform ⟨rfl, nofun⟩)
  | pass seconds => exact hcalm (.perform ⟨rfl, nofun⟩)
  | _ => exact hcalm (calm_ignoring (.perform ⟨rfl, nofun⟩))

end

end PayrollAgent.Asking
