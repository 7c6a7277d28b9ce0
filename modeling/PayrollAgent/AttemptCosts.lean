import PayrollAgent.Handlers
import PayrollAgent.Lib.Budget

namespace PayrollAgent.AttemptCosts

open Lib Tariff Repo AliasLearning Calculate Orchestrator Handlers ClarificationWrites RunStages
  Resume CombinedEmail

/-- `call_structured` asks the model again once, where its answer was empty or no
valid JSON. -/
def structuredAttempts : List Nat := [1, 2]

/-- The requests to the outside that a call may make: to the models, to the mail
provider's inbox and to its outbox. -/
def price : Op → Nat
  | .extract _ => structuredAttempts.length
  | .suggest => structuredAttempts.length
  | .compose => 1
  | .fetchInbound _ => 1
  | .send _ => 1
  | _ => 0

/-- The requests of one attempt of a job. A resume may read its reply twice. -/
def perAttempt : JobKind → Nat
  | .ingest => 1
  | .sendOutbound => 1
  | .runPipeline => 5
  | .resumeReply => 7
  | .operatorResume => 7

def grant : (op : Op) → Except Exn (Ans op) → Option Nat
  | .claimJob, .ok (some job) => some (perAttempt job.kind)
  | _, _ => none

def tariff : Tariff Op Ans Exn := ⟨price, grant⟩

variable {α : Type} {r : Uuid} {job : Job} {k n : Nat} {op : Op}

def toll (op : Op) : Option Nat :=
  match op with
  | .claimJob => none
  | _ => some (price op)

theorem grant_of_toll (h : toll op = some k) (x : Except Exn (Ans op)) : tariff.grant op x = none := by
  cases op with
  | claimJob => cases h
  | _ => rfl

theorem price_of_toll (h : toll op = some k) : tariff.price op = k := by
  cases op with
  | claimJob => cases h
  | _ => exact Option.some.inj h

theorem costs_call (h : toll op = some k) : tariff.Costs k (Orchestrator.perform op) :=
  price_of_toll h ▸ Costs.perform (grant_of_toll h)

theorem costs_query : tariff.Costs 0 query := costs_call (by rfl)

theorem costs_staged {p : Act α} (h : tariff.Costs k p) (stage : PipelineStage) :
    tariff.Costs k (staged stage p) :=
  h.catching fun _ => .raise _

theorem costs_extract {email : ReadEmail} : tariff.Costs 2 (extract r email) :=
  .bind (k := 2) (l := 0) (costs_staged (costs_call (by rfl)) _) fun _ => .pure _

theorem costs_loadRun (stage : PipelineStage) : tariff.Costs 0 (loadRun r stage) := by
  refine .free (costs_staged costs_query _) fun db => ?_
  split
  · exact .pure _
  · exact .raise _

theorem costs_loadRoster (businessId : Uuid) : tariff.Costs 0 (loadRoster businessId) := by
  refine .free (costs_staged costs_query _) fun db => ?_
  split
  · exact .pure _
  · exact .raise _

theorem costs_consumeReply (inbound : Option InboundMail) : tariff.Costs 0 (consumeReply r inbound) := by
  cases inbound with
  | none => exact .pure _
  | some mail => exact .free (costs_staged costs_query _) fun db => costs_staged (costs_call (by rfl)) _

theorem costs_resumeContext (inbound : Option InboundMail) :
    tariff.Costs 0 (resumeContext r inbound) := by
  refine .free (costs_loadRun _) fun run => ?_
  refine .free (costs_loadRoster _) fun roster => ?_
  refine .free (costs_loadRun _) fun pre => ?_
  refine .free (costs_loadRun _) fun snapshot => ?_
  refine .free (costs_loadRun _) fun clarified => ?_
  refine .free (costs_staged costs_query _) fun db => ?_
  exact .free (costs_staged (costs_call (by rfl)) _) fun consumed => .pure _

theorem costs_extractions (ctx : ResumeContext) (emails : ResumeEmails) :
    tariff.Costs 4 (extractions r ctx emails) := by
  unfold extractions
  refine .ite ?_ ?_
  · refine .bind (k := 2) (l := 2) costs_extract fun reply => ?_
    exact .bind (k := 2) (l := 0) costs_extract fun combined => .pure _
  · refine .mono (k := 2) ?_ (by decide)
    exact .bind (k := 2) (l := 0) costs_extract fun combined => .pure _

section

variable [PyText]

theorem costs_ask {decision : Decision} {roster : Roster} {extracted : Extracted}
    {purpose : Purpose} {round : Nat} :
    tariff.Costs 3 (ask r decision roster extracted purpose round) := by
  refine .bind (k := 2) (l := 1) (costs_call (by rfl)) fun suggestions => ?_
  exact .bind (k := 1) (l := 0) (costs_call (by rfl)) fun envelope => costs_call (by rfl)

theorem costs_askOnce {decision : Decision} {roster : Roster} {extracted : Extracted}
    {purpose : Purpose} {round : Nat} :
    tariff.Costs 3 (askOnce r decision roster extracted purpose round) := by
  refine .free costs_query fun db => ?_
  split
  · exact .mono (k := 0) (costs_call (by rfl)) (Nat.zero_le _)
  · refine .free costs_query fun db => ?_
    split
    · exact .mono (k := 0) (costs_call (by rfl)) (Nat.zero_le _)
    · exact costs_ask

theorem costs_clarify {decision : Decision} {roster : Roster} {extracted : Extracted}
    {purpose : Purpose} : tariff.Costs 3 (clarify r decision roster extracted purpose) := by
  refine .free costs_query fun db => ?_
  exact .ite (.mono (k := 0) (costs_call (by rfl)) (Nat.zero_le _)) (costs_askOnce)

theorem costs_defer {clarified : ClarifiedFields} {issues : List ValidationIssue} {roster : Roster} :
    tariff.Costs 3 (deferFieldRegressionClarification r clarified issues roster) := by
  refine .free costs_query fun db => ?_
  refine .free (costs_call (by rfl)) fun _ => ?_
  refine .free costs_query fun db => ?_
  split
  · exact costs_clarify
  · exact .pure _

theorem persistAndBranch_follows (roster : Roster) (result : Except CalculationError StageResult)
    (hn : 3 ≤ n) :
    Prog.Follows tariff.monitor (fun left x => n ≤ left + 3 ∧ ∀ s, x = .ok s →
      s.clarifyDeferred = true → n ≤ left) (persistAndBranch r roster result) n := by
  unfold persistAndBranch
  split
  · exact ⟨Nat.le_add_right _ _, nofun⟩
  next s =>
    have hwrite : tariff.Costs 0 (Orchestrator.perform (.persistStages r s)) := costs_call (by rfl)
    refine (costs_staged hwrite .persist n (Nat.zero_le _)).bind (fun left _ hleft => ?_)
      fun left e hleft => ⟨Nat.le_add_right_of_le hleft, nofun⟩
    split
    · exact ⟨Nat.le_add_right_of_le hleft, fun _ _ _ => hleft⟩
    next hbranch =>
      rw [not_or] at hbranch
      have hclarify : tariff.Costs 3 (clarify r s.decision roster s.extracted .clarification) :=
        costs_clarify
      refine (costs_staged hclarify .clarification left (hn.trans hleft)).bind
        (fun left' _ hleft' => ⟨?_, ?_⟩) fun left' e hleft' => ⟨?_, nofun⟩
      · exact Nat.le_trans hleft hleft'
      · rintro _ ⟨⟩ hdeferred
        exact absurd hdeferred hbranch.2
      · exact Nat.le_trans hleft hleft'

theorem costs_bindAliases {roster : Roster} {candidates : AliasCandidates} :
    tariff.Costs 0 (bindAliases r roster candidates) := by
  refine .ite (.pure _) ?_
  refine .free (costs_staged costs_query _) fun db => ?_
  exact .ite (.pure _) (costs_staged (costs_call (by rfl)) _)

theorem costs_storeAnswers (ctx : ResumeContext) (x : Extractions) :
    tariff.Costs 0 (storeAnswers r ctx x) :=
  .ite (costs_staged (costs_call (by rfl)) _) (.pure _)

theorem costs_persisted (roster : Roster) (result : Except CalculationError StageResult)
    {f : StageResult → Act α} (hdeferred : ∀ s, s.clarifyDeferred = true → tariff.Costs 3 (f s))
    (hplain : ∀ s, s.clarifyDeferred = false → tariff.Costs 0 (f s)) :
    tariff.Costs 3 (persistAndBranch r roster result >>= f) := by
  intro n hn
  refine (persistAndBranch_follows roster result hn).bind (fun left s h => ?_) fun left e h => h.1
  cases hs : s.clarifyDeferred with
  | true =>
      have hleft := h.2 s rfl hs
      refine (hdeferred s hs left (hn.trans hleft)).mono fun _ _ hrest => ?_
      exact Nat.le_trans hleft hrest
  | false =>
      exact (hplain s hs left (Nat.zero_le _)).mono fun _ _ hrest => Nat.le_trans h.1
        (Nat.add_le_add_right hrest 3)

theorem costs_runPipeline : tariff.Costs 5 (runPipeline r) := by
  refine Costs.catching ?_ fun _ => .pure _
  refine .free (costs_loadRun _) fun run => ?_
  refine .free (costs_staged costs_query _) fun db => ?_
  split
  · exact .raise _
  · refine .free (costs_loadRoster _) fun roster => ?_
    refine .free (costs_staged (costs_call (by rfl)) _) fun _ => ?_
    refine .bind (k := 2) (l := 3) costs_extract fun x => ?_
    exact costs_persisted _ _ (fun _ _ => .pure _) fun _ _ => .pure _

theorem costs_resumeFrom {ctx : ResumeContext} {emails : ResumeEmails}
    {overrides : Option ReconcileNames.Overrides} :
    tariff.Costs 7 (resumeFrom r ctx emails overrides) := by
  refine .bind (k := 4) (l := 3) (costs_extractions ctx emails) fun x => ?_
  refine .free (costs_storeAnswers ctx x) fun _ => ?_
  refine costs_persisted _ _ (fun s hs => ?_) fun s hs => ?_
  · rw [if_pos hs]
    exact .bind (k := 3) (l := 0) (costs_staged costs_defer _) fun _ => .pure _
  · rw [if_neg (by rw [hs]; decide)]
    exact .free costs_bindAliases fun _ => .pure _

theorem costs_resumePipeline {inbound : Option InboundMail} {fromStatus : RunStatus}
    {overrides : Option ReconcileNames.Overrides} :
    tariff.Costs 7 (resumePipeline r inbound fromStatus overrides) := by
  refine Costs.catching ?_ fun _ => .pure _
  refine .free (costs_staged (costs_call (by rfl)) _) fun claimed => ?_
  refine .ite ?_ (.pure _)
  refine .free (costs_consumeReply _) fun _ => ?_
  exact .free (costs_resumeContext _) fun reads => costs_resumeFrom

theorem costs_claimAndRun : tariff.Costs 5 (claimAndRun r) := by
  refine .free (costs_call (by rfl)) fun claimed => ?_
  exact .ite costs_runPipeline (.pure _)

theorem costs_handleRunPipeline : tariff.Costs 5 (handleRunPipeline job) := by
  unfold handleRunPipeline
  split
  · exact .raise _
  · exact .ite (.free (costs_call (by rfl)) fun _ => costs_claimAndRun) costs_claimAndRun

omit [PyText] in
theorem costs_reenter (paused status : RunStatus) : tariff.Costs 0 (reenter job r paused status) :=
  .ite (costs_call (by rfl)) (.ite (.pure _) (.ite (costs_call (by rfl)) (.pure _)))

theorem costs_handleResumeReply : tariff.Costs 7 (handleResumeReply job) := by
  unfold handleResumeReply
  split
  · refine .free costs_query fun db => ?_
    split
    · exact .pure _
    · refine .free costs_query fun db => ?_
      split
      · exact .pure _
      · refine .ite ?_ (.pure _)
        refine .free (costs_reenter _ _) fun entered => ?_
        exact .ite costs_resumePipeline (.pure _)
  · exact .raise _

theorem costs_resumeWith (g : Uuid) : tariff.Costs 7 (resumeWith job r g) := by
  refine .free costs_query fun db => ?_
  split
  · exact .pure _
  · refine .free costs_query fun db => ?_
    split
    · exact .pure _
    · refine .free (costs_reenter _ _) fun entered => ?_
      exact .ite costs_resumePipeline (.pure _)

omit [PyText] in
theorem costs_prepare (g : Uuid) : tariff.Costs 0 (prepare r g) := by
  refine Costs.catching (.free (costs_call (by rfl)) fun _ => .pure _) fun e => ?_
  exact .ite (.pure _) (.raise _)

theorem costs_handleOperatorResume : tariff.Costs 7 (handleOperatorResume job) := by
  unfold handleOperatorResume
  split
  · refine .free (costs_prepare _) fun authoritative => ?_
    split
    · exact .pure _
    · exact .pure _
    · exact costs_resumeWith _
  · exact .raise _

omit [PyText] in
theorem costs_handleIngest : tariff.Costs 1 (handleIngest job) := by
  unfold handleIngest
  split
  · exact .raise _
  · refine .bind (k := 1) (l := 0) (costs_call (by rfl)) fun mail => ?_
    exact .free (costs_call (by rfl)) fun _ => .pure _

omit [PyText] in
theorem costs_sendReserved (a : Authorization) : tariff.Costs 1 (sendReservedOutboundSnapshot a) := by
  refine .ite (.raise _) ?_
  refine .free costs_query fun db => ?_
  refine .ite (.pure _) ?_
  refine Costs.catching ?_ fun _ => .pure _
  exact .bind (k := 1) (l := 0) (costs_call (by rfl)) fun _ => .pure _

omit [PyText] in
theorem costs_handleSendOutbound : tariff.Costs 1 (handleSendOutbound job) := by
  refine .ite (.raise _) ?_
  refine .free (costs_call (by rfl)) fun outcome => ?_
  cases (outcome : ProviderHandoffOutcome) with
  | authorized a => exact costs_sendReserved a
  | recordOnly q => exact .pure _
  | active reason => exact .pure _

theorem costs_handle : tariff.Costs (perAttempt job.kind) (handle job) := by
  unfold handle
  split
  next hkind => exact hkind ▸ costs_handleRunPipeline
  next hkind => exact hkind ▸ costs_handleResumeReply
  next hkind => exact hkind ▸ costs_handleOperatorResume
  next hkind => exact hkind ▸ costs_handleIngest
  next hkind => exact hkind ▸ costs_handleSendOutbound

theorem costs_attempt : tariff.Costs (perAttempt job.kind) (attempt job) :=
  Costs.catching (.bind (l := 0) costs_handle fun _ => .pure _) fun _ => .pure _

omit [PyText] in
theorem costs_settle (result : PipelineResult) : tariff.Costs 0 (settle job result) :=
  .ite (costs_call (by rfl)) (costs_call (by rfl))

/-- Every thread pays its requests from the budget of the job it was handed. -/
theorem thread_within (t : Thread) : Prog.Follows tariff.monitor (fun _ _ => True) (thread t) 0 := by
  have hfree : ∀ {p : Act Unit}, tariff.Costs 0 p → Prog.Follows tariff.monitor (fun _ _ => True) p 0 :=
    fun hp => (hp 0 le_rfl).mono fun _ _ _ => trivial
  have hignoring : ∀ {op : Op}, toll op = some 0 →
      Prog.Follows tariff.monitor (fun _ _ => True) (ignoring (Orchestrator.perform op)) 0 := fun h =>
    hfree (Costs.catching (.free (costs_call h) fun _ => .pure _) fun _ => .pure _)
  cases t with
  | worker =>
      refine follows_grant (Nat.zero_le _) (fun claimed => ?_) fun _ _ => trivial
      cases claimed with
      | none => exact hfree (.free (costs_call (by rfl)) fun _ => .pure _)
      | some job =>
          have hdrain : tariff.Costs (perAttempt job.kind) (do
              let result ← attempt job
              let _ ← settle job (settledResult job result)
              Pure.pure ()) :=
            .bind (l := 0) costs_attempt fun result => .free (costs_settle _) fun _ => .pure _
          exact (hdrain _ le_rfl).mono fun _ _ _ => trivial
  | shutdown tokens => exact hfree (costs_call (by rfl))
  | receive mail => exact hignoring rfl
  | approve q =>
      exact hfree (Costs.catching (.free (costs_call (by rfl)) fun _ => .pure _) fun _ => costs_call
        (by rfl))
  | reject q =>
      refine hfree (.free (costs_call (by rfl)) fun first => .ite (.pure _) ?_)
      refine .free (costs_call (by rfl)) fun second => .ite (.pure _) ?_
      exact .free (costs_call (by rfl)) fun _ => .pure _
  | resolve q overrides remember =>
      refine hfree (.free costs_query fun db => ?_)
      split
      · exact .pure _
      · exact .ite (.free (costs_call (by rfl)) fun _ => .pure _) (.pure _)
  | retrigger q => exact hignoring rfl
  | markDelivered q => exact hignoring rfl
  | authorizeNew q => exact hignoring rfl
  | retryNow q kind => exact hignoring rfl
  | markHandled q => exact hignoring rfl
  | rejectClarification q => exact hignoring rfl
  | pass seconds => exact hfree (costs_call (by rfl))

end

end PayrollAgent.AttemptCosts
