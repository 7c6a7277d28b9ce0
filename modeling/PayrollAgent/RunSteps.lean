import PayrollAgent.Effects

namespace PayrollAgent.RunSteps

open Lib Repo AliasLearning RunStages Delivery RunRoutes ClarificationWrites Ingest Effects

structure Kept (run run' : Run) : Prop where
  status : run'.status = run.status
  epoch : run'.replyEpoch = run.replyEpoch
  recordOnly : run'.recordOnly = run.recordOnly
  reason : run'.errorReason = run.errorReason
  clarified : run'.clarifiedFields = run.clarifiedFields
  lineItems : run'.lineItems = run.lineItems

theorem Kept.refl (run : Run) : Kept run run := ⟨rfl, rfl, rfl, rfl, rfl, rfl⟩

structure Moved (s : RunStatus) (run run' : Run) : Prop where
  status : run'.status = s
  epoch : run'.replyEpoch = run.replyEpoch
  recordOnly : run'.recordOnly = run.recordOnly

structure Reopened (s : RunStatus) (run run' : Run) : Prop where
  status : run'.status = s
  epoch : run'.replyEpoch = run.replyEpoch + 1
  recordOnly : run'.recordOnly = run.recordOnly
  clarified : run'.clarifiedFields = Dict.empty

/-- The run a write of a pipeline stage goes to. These writes test no status. -/
def stageWrite : Op → Option Uuid
  | .setStatus r _ => some r
  | .setClarifiedFields r _ => some r
  | .persistStages r _ => some r
  | .escalateToOperator r => some r
  | .finalizeSentClarification r _ _ => some r
  | .replayReservedClarification r _ _ => some r
  | .reserveClarification r _ => some r
  | _ => none

def drives : Op → Option (Uuid × RunStatus)
  | .setStatus r s => some (r, s)
  | .persistStages r st =>
      if st.decision.finalAction = .process then some (r, .awaitingApproval) else none
  | .escalateToOperator r => some (r, .needsOperator)
  | .finalizeSentClarification r _ _ => some (r, .awaitingReply)
  | .replayReservedClarification r _ _ => some (r, .awaitingReply)
  | .reserveClarification r _ => some (r, .awaitingReply)
  | _ => none

theorem stageWrite_of_drives {op : Op} {r : Uuid} {s : RunStatus} (h : drives op = some (r, s)) :
    stageWrite op = some r := by
  cases op with
  | persistStages r' st =>
      simp only [drives] at h
      split at h
      · cases h
        rfl
      · cases h
  | _ => simp_all [drives, stageWrite]

/-- The statuses a retrigger takes a run from. -/
def retriggerStatuses : List RunStatus := [.error, .approved, .received, .extracting, .computed, .sent]

theorem retriggerStatuses_won :
    ∀ s ∈ [RunStatus.error, .approved, .extracting, .computed, .sent], s ∈ retriggerStatuses := by
  decide

theorem finalLeaseErrorStatuses_open : ∀ s ∈ finalLeaseErrorStatuses, s ∉ terminalStatuses := by
  decide

theorem status_ne_expected {s : RunStatus} (hs : s ∉ [RunStatus.approved, .awaitingReply])
    (purpose : Purpose) : s ≠ purpose.expectedStatus := by
  rintro rfl
  cases purpose <;> simp [Purpose.expectedStatus] at hs

def settlesSend : Op → Bool
  | .settleOutboundDeliveryJob _ _ => true
  | .reapExpiredFinalAttempt => true
  | _ => false

/-- What a committed transaction does to the row of a run. -/
inductive RunStep (db : Db) (r : Uuid) (run : Run) : (op : Op) → Ans op → Run → Prop
  | kept {op : Op} {a : Ans op} {run' : Run} (h : Kept run run') : RunStep db r run op a run'
  | fieldsSet {clarified : ClarifiedFields} {a : Ans (.setClarifiedFields r clarified)} :
      RunStep db r run (.setClarifiedFields r clarified) a
        { run with clarifiedFields := clarified, updatedAt := db.now }
  | driven {op : Op} {a : Ans op} {s : RunStatus} {run' : Run} (hop : drives op = some (r, s))
      (h : Moved s run run')
      (hclarified : run'.clarifiedFields = run.clarifiedFields) : RunStep db r run op a run'
  | claimed {expected new : RunStatus} {run' : Run} (hstatus : run.status = expected)
      (h : Moved new run run') (hclarified : run'.clarifiedFields = run.clarifiedFields) :
      RunStep db r run (.claimStatus r expected new) (true : Bool) run'
  | rewound {run' : Run} (hstatus : run.status ∈ rewindStatuses) (h : Moved .received run run')
      (hclarified : run'.clarifiedFields = Dict.empty) : RunStep db r run (.rewindForReclaim r)
      (true : Bool) run'
  | approved {s : RunStatus} {run' : Run} (hstatus : run.status = .awaitingApproval)
      (h : Moved s run run') (hs : s = .approved ∨ s = .reconciled)
      (hclarified : run'.clarifiedFields = run.clarifiedFields) :
      RunStep db r run (.approve r) (true : Bool) run'
  | failed {op : Op} {a : Ans op} {run' : Run} (hop : stageWrite op = none)
      (hstatus : run.status ∉ terminalStatuses)
      (h : Moved .error run run') (hclarified : run'.clarifiedFields = run.clarifiedFields) :
      RunStep db r run op a run'
  | requeued {job : Job} {result : PipelineResult} {outcome : SettlementOutcome} {run' : Run}
      (hrun : job.runId = some r)
      (hresult : result.outcome = .retryable) (hstatus : run.status = .extracting)
      (h : Moved .received run run') (hclarified : run'.clarifiedFields = run.clarifiedFields)
      (hheld : ∃ row, lockedJob db job = some row ∧ row.attempts < row.maxAttempts) :
      RunStep db r run (.settlePipelineJob job result) outcome run'
  | retriggered {run' : Run} (hstatus : run.status ∈ retriggerStatuses)
      (hnone : activeHandoff db r = none) (h : Reopened .received run run') :
      RunStep db r run (.retrigger r) (true : Bool) run'
  | reconciled {job : Job} {result : PipelineResult} {outcome : SettlementOutcome} {run' : Run}
      (hstatus : run.status = .approved)
      (h : Moved .reconciled run run') (hclarified : run'.clarifiedFields = run.clarifiedFields) :
      RunStep db r run (.settleOutboundDeliveryJob job result) outcome run'
  | reviewed {op : Op} {a : Ans op} {purpose : Purpose} {run' : Run} (hop : stageWrite op = none)
      (hstatus : run.status = purpose.expectedStatus) (h : Moved .needsOperator run run')
      (hreason : run'.errorReason = some (reviewReason purpose))
      (hclarified : run'.clarifiedFields = run.clarifiedFields) (hsettles : settlesSend op = true) :
      RunStep db r run op a run'
  | markedDelivered {run' : Run} (hstatus : run.status = .needsOperator)
      (hreason : run.errorReason = some .deliveryReview) (h : Moved .reconciled run run')
      (hclarified : run'.clarifiedFields = run.clarifiedFields) :
      RunStep db r run (.markDeliveryDelivered r) (true : Bool) run'
  | authorizedNew {run' : Run} (hstatus : run.status = .needsOperator)
      (hreason : run.errorReason = some .deliveryReview) (h : Reopened .approved run run') :
      RunStep db r run (.authorizeNewConfirmation r) (true : Bool) run'
  | finishedReview {target : RunStatus} {acknowledge : Bool} {run' : Run}
      (hstatus : run.status = .needsOperator)
      (hreason : run.errorReason = some .clarificationDeliveryReview) (h : Moved target run run')
      (hclarified : run'.clarifiedFields = run.clarifiedFields) :
      RunStep db r run (.finishClarificationDeliveryReview r target acknowledge) (true : Bool) run'

theorem RunStep.kept_of_stageWrite {db : Db} {r r₀ : Uuid} {run run' : Run} {op : Op}
    {a : Ans op} (h : RunStep db r run op a run') (hop : stageWrite op = some r₀) (hr : r₀ ≠ r) :
    Kept run run' := by
  cases h with
  | kept h => exact h
  | fieldsSet =>
      cases hop
      exact absurd rfl hr
  | driven hdrives =>
      rw [stageWrite_of_drives hdrives] at hop
      cases hop
      exact absurd rfl hr
  | failed hnone =>
      rw [hnone] at hop
      cases hop
  | reviewed hnone =>
      rw [hnone] at hop
      cases hop
  | _ => cases hop

theorem RunStep.epoch_le {db : Db} {r : Uuid} {run run' : Run} {op : Op} {a : Ans op}
    (h : RunStep db r run op a run') :
    run.replyEpoch ≤ run'.replyEpoch := by
  cases h with
  | kept hkept => exact hkept.epoch.ge
  | fieldsSet => exact le_rfl
  | driven _ hmoved => exact hmoved.epoch.ge
  | claimed _ hmoved => exact hmoved.epoch.ge
  | rewound _ hmoved => exact hmoved.epoch.ge
  | approved _ hmoved => exact hmoved.epoch.ge
  | failed _ _ hmoved => exact hmoved.epoch.ge
  | requeued _ _ _ hmoved => exact hmoved.epoch.ge
  | retriggered _ _ hreopened => exact hreopened.epoch ▸ Nat.le_succ _
  | reconciled _ hmoved => exact hmoved.epoch.ge
  | reviewed _ _ hmoved => exact hmoved.epoch.ge
  | markedDelivered _ _ hmoved => exact hmoved.epoch.ge
  | authorizedNew _ _ hreopened => exact hreopened.epoch ▸ Nat.le_succ _
  | finishedReview _ _ hmoved => exact hmoved.epoch.ge

theorem RunStep.recordOnly_eq {db : Db} {r : Uuid} {run run' : Run} {op : Op} {a : Ans op}
    (h : RunStep db r run op a run') : run'.recordOnly = run.recordOnly := by
  cases h with
  | kept hkept => exact hkept.recordOnly
  | fieldsSet => rfl
  | driven _ hmoved => exact hmoved.recordOnly
  | claimed _ hmoved => exact hmoved.recordOnly
  | rewound _ hmoved => exact hmoved.recordOnly
  | approved _ hmoved => exact hmoved.recordOnly
  | failed _ _ hmoved => exact hmoved.recordOnly
  | requeued _ _ _ hmoved => exact hmoved.recordOnly
  | retriggered _ _ hreopened => exact hreopened.recordOnly
  | reconciled _ hmoved => exact hmoved.recordOnly
  | reviewed _ _ hmoved => exact hmoved.recordOnly
  | markedDelivered _ _ hmoved => exact hmoved.recordOnly
  | authorizedNew _ _ hreopened => exact hreopened.recordOnly
  | finishedReview _ _ hmoved => exact hmoved.recordOnly

theorem deliveryContext_some {db : Db} {r e : Uuid} {m : Outbound} {run : Run}
    (h : deliveryContext db r e = some (m, run)) :
    db.outbound.get? e = some m ∧ m.runId = r ∧ db.runs.get? r = some run ∧
      m.sendState = .reserved ∧ m.epoch = run.replyEpoch ∧ run.status = m.purpose.expectedStatus := by
  unfold deliveryContext at h
  split at h
  next m' run' hm hrun =>
    split at h
    next hstands =>
      cases h
      obtain ⟨hm, hr⟩ := Option.filter_eq_some_iff.mp hm
      exact ⟨hm, by simpa using hr, hrun, hstands⟩
    · cases h
  · cases h

theorem deliveryContext_of {db : Db} {r e : Uuid} {m : Outbound} {run : Run}
    (hm : db.outbound.get? e = some m) (hown : m.runId = r) (hrun : db.runs.get? r = some run)
    (hreserved : m.sendState = .reserved) (hepoch : m.epoch = run.replyEpoch)
    (hstatus : run.status = m.purpose.expectedStatus) : deliveryContext db r e = some (m, run) := by
  have hmessage : ownMessage db r e = some m := by
    rw [ownMessage, hm, Option.filter_some, if_pos (by simpa using hown)]
  simp [deliveryContext, hmessage, hrun, hreserved, hepoch, hstatus]

/-- What a loaded review says of the run and of the reservation under review. -/
structure UnderReview (db : Db) (r : Uuid) (reason : ErrorReason) (e : Uuid) (m : Outbound)
    (run : Run) : Prop where
  found : db.runs.get? r = some run
  status : run.status = .needsOperator
  reason : run.errorReason = some reason
  message : db.outbound.get? e = some m
  own : m.runId = r
  epoch : m.epoch = run.replyEpoch

def ReviewKind.reason : ReviewKind → ErrorReason
  | .confirmation => .deliveryReview
  | .clarification => .clarificationDeliveryReview

theorem loadDeliveryReview_some {db : Db} {r : Uuid} {flipped : Bool} {kind : ReviewKind} {e : Uuid}
    {m : Outbound} (h : loadDeliveryReview r flipped db = some (kind, e, m)) :
    ∃ run, UnderReview db r (ReviewKind.reason kind) e m run := by
  simp only [loadDeliveryReview, Option.bind_eq_bind, Option.bind_eq_some_iff] at h
  obtain ⟨run, hrun, ⟨kind', purposes⟩, ⟨reason, hreason, hpurposes⟩, -, -, ⟨e', m'⟩, hfound, hload⟩ := h
  split at hload
  next hstatus =>
    simp only [Option.some.injEq, Prod.mk.injEq] at hload
    obtain ⟨rfl, rfl, rfl⟩ := hload
    obtain ⟨purpose, -, hfound⟩ := List.exists_of_findSome?_eq_some hfound
    obtain ⟨hslot, -⟩ := Option.filter_eq_some_iff.mp hfound
    obtain ⟨hm, hown⟩ := Dict.select_some hslot
    simp only [Db.epochOf, hrun, Option.map_some, Option.some.injEq, Bool.decide_and,
      Bool.and_eq_true, decide_eq_true_eq] at hown
    refine ⟨run, hrun, hstatus.1, hreason.trans ?_, hm, hown.1, hown.2.2.2⟩
    cases reason <;> simp only [deliveryReviewPurposes] at hpurposes
    case deliveryReview =>
      cases hpurposes
      rfl
    case clarificationDeliveryReview =>
      cases hpurposes
      rfl
    all_goals cases hpurposes
  · cases hload

section

variable {db db' : Db} {r : Uuid} {run : Run} {op : Op} {a : Ans op}

theorem step_same (h : db'.runs = db.runs) (hrun : db.runs.get? r = some run) :
    ∃ run', db'.runs.get? r = some run' ∧ RunStep db r run op a run' :=
  ⟨run, by rw [h, hrun], .kept (.refl run)⟩

/-- The write of one row is a step of its run, and leaves every other alone. -/
theorem step_modify {r₀ : Uuid} {f : Run → Run} (h : db'.runs = db.runs.modify r₀ f)
    (hrun : db.runs.get? r = some run) (hstep : r₀ = r → RunStep db r run op a (f run)) :
    ∃ run', db'.runs.get? r = some run' ∧ RunStep db r run op a run' := by
  by_cases hr : r₀ = r
  · subst hr
    exact ⟨f run, by rw [h, Dict.get?_modify_self hrun], hstep rfl⟩
  · exact ⟨run, by rw [h, Dict.get?_modify_of_ne _ (Ne.symm hr), hrun], .kept (.refl run)⟩

theorem status_of_statusOf {s : RunStatus} (hrun : db.runs.get? r = some run)
    (h : db.statusOf r = some s) : run.status = s := by
  simpa [Db.statusOf, hrun] using h

theorem enterDeliveryReview_runs (r e : Uuid) (purpose : Purpose) (category : FailureCategory) (db : Db) :
    (enterDeliveryReview r e purpose category db).runs = db.runs.modify r fun run =>
      { run with
        status := .needsOperator
        errorReason := some (reviewReason purpose)
        errorDetail := some (.deliveryReview category)
        updatedAt := db.now } := rfl

theorem setRunError_runs {r₀ : Uuid} {reason : ErrorReason} {detail : ErrorDetail} {s : RunStatus}
    (h : db.statusOf r₀ = some s) :
    (setRunError r₀ reason detail s db).2.runs = db.runs.modify r₀ fun run =>
      { run with
        status := .error
        errorReason := some reason
        errorDetail := some detail
        updatedAt := db.now } := by
  simp [setRunError, h, Db.modifyRun]

end

section

variable [PyText] {env : Env} {db db' : Db} {r : Uuid} {run : Run} {op : Op} {a : Ans op}

theorem settleSent_step {r₀ e : Uuid} {m : Outbound} {run₀ : Run} {job : Job}
    {result : PipelineResult} {outcome : SettlementOutcome} {db₁ : Db}
    (howed : deliveryContext db r₀ e = some (m, run₀))
    (hrun : db.runs.get? r = some run) (hdb₁ : db₁.runs = db.runs)
    (hdb : db'.runs = (settleSent r₀ e m.purpose db₁).runs) :
    ∃ run', db'.runs.get? r = some run' ∧
      RunStep db r run (.settleOutboundDeliveryJob job result) outcome run' := by
  obtain ⟨-, -, hrun₀, -, -, hstatus⟩ := deliveryContext_some howed
  rw [settleSent_runs, hdb₁] at hdb
  split at hdb
  next hpurpose =>
    refine step_modify hdb hrun ?_
    rintro rfl
    obtain rfl : run₀ = run := by simpa [hrun₀] using hrun
    rw [hpurpose] at hstatus
    exact .reconciled hstatus ⟨rfl, rfl, rfl⟩ rfl
  next => exact step_same hdb hrun

omit [PyText] in
theorem review_step {r₀ e : Uuid} {m : Outbound} {run₀ : Run} {category : FailureCategory} {db₁ : Db}
    (hop : stageWrite op = none) (hsettles : settlesSend op = true)
    (howed : deliveryContext db r₀ e = some (m, run₀)) (hrun : db.runs.get? r = some run)
    (hdb₁ : db₁.runs = db.runs)
    (hdb : db'.runs = (enterDeliveryReview r₀ e m.purpose category db₁).runs) :
    ∃ run', db'.runs.get? r = some run' ∧ RunStep db r run op a run' := by
  obtain ⟨-, -, hrun₀, -, -, hstatus⟩ := deliveryContext_some howed
  rw [enterDeliveryReview, Db.modifyRun, appendDeliveryAttempt] at hdb
  refine step_modify (hdb.trans (by rw [hdb₁])) hrun ?_
  rintro rfl
  obtain rfl : run₀ = run := by simpa [hrun₀] using hrun
  exact .reviewed hop hstatus ⟨rfl, rfl, rfl⟩ rfl rfl hsettles

theorem runStep (h : Effect env db op a db') (hfresh : db.runs.Below db.nextId)
    (hrun : db.runs.get? r = some run) :
    ∃ run', db'.runs.get? r = some run' ∧ RunStep db r run op a run' := by
  cases h with
  | idle => exact step_same rfl hrun
  | leased => exact step_same rfl hrun
  | reapedInvalid => exact step_same rfl hrun
  | reapedReview _ _ _ howned => exact review_step rfl rfl howned.owed hrun rfl rfl
  | reapedRun _ _ _ hstatus hs =>
      refine step_modify (setRunError_runs hstatus) hrun ?_
      rintro rfl
      have hrun' := status_of_statusOf hrun hstatus
      exact .failed rfl (by rw [hrun']; exact finalLeaseErrorStatuses_open _ hs) ⟨rfl, rfl, rfl⟩ rfl
  | reapedJob => exact step_same rfl hrun
  | retired => exact step_same rfl hrun
  | recorded hctx => exact settleSent_step hctx.owed hrun rfl rfl
  | expired hctx => exact review_step rfl rfl hctx.owed hrun rfl rfl
  | @sent job result row r₀ e m run₀ h handoff hctx =>
      have hdb : (appendDeliveryAttempt e .sent .none (releaseHandoff h .finalized db)).runs = db.runs :=
        rfl
      exact settleSent_step hctx.owed hrun hdb rfl
  | rescheduled => exact step_same rfl hrun
  | reviewed hctx => exact review_step rfl rfl hctx.owed hrun rfl rfl
  | closed => exact step_same rfl hrun
  | @requeued job result row r₀ hlocked _ hjob hresult hstatus hattempts =>
      have hdb : (setStatus r₀ .received db).runs = _ := Db.modifyRun_runs ..
      refine step_modify hdb hrun ?_
      rintro rfl
      exact .requeued hjob hresult (status_of_statusOf hrun hstatus) ⟨rfl, rfl, rfl⟩ rfl
        ⟨row, hlocked, hattempts⟩
  | failed _ _ hstatus =>
      refine step_modify (setRunError_runs hstatus) hrun ?_
      rintro rfl
      have hrun' := status_of_statusOf hrun hstatus
      exact .failed rfl (by rw [hrun']; decide) ⟨rfl, rfl, rfl⟩ rfl
  | released => exact step_same rfl hrun
  | handedOver => exact step_same rfl hrun
  | handedAgain => exact step_same rfl hrun
  | adopted => exact step_same rfl hrun
  | claimed hstatus =>
      refine step_modify (Db.modifyRun_runs ..) hrun ?_
      rintro rfl
      exact .claimed (status_of_statusOf hrun hstatus) ⟨rfl, rfl, rfl⟩ rfl
  | statusSet =>
      refine step_modify (Db.modifyRun_runs ..) hrun ?_
      rintro rfl
      exact .driven rfl ⟨rfl, rfl, rfl⟩ rfl
  | rewound hstatus hs =>
      refine step_modify (Db.modifyRun_runs ..) hrun ?_
      rintro rfl
      exact .rewound (by rwa [status_of_statusOf hrun hstatus]) ⟨rfl, rfl, rfl⟩ rfl
  | consumed => exact step_same rfl hrun
  | fieldsSet =>
      refine step_modify (Db.modifyRun_runs ..) hrun ?_
      rintro rfl
      exact .fieldsSet
  | candidatesSet =>
      refine step_modify (Db.modifyRun_runs ..) hrun ?_
      rintro rfl
      exact .kept ⟨rfl, rfl, rfl, rfl, rfl, rfl⟩
  | @persisted r₀ s =>
      obtain ⟨f, hf, hcolumns⟩ := persistStages_runs r₀ s db
      refine step_modify hf hrun ?_
      rintro rfl
      obtain ⟨hepoch, honly, hreason, hclarified, ⟨hprocess, hstatus⟩ | ⟨hstatus, hitems⟩⟩ :=
        hcolumns run
      · exact .driven (by simp [drives, hprocess]) ⟨hstatus, hepoch, honly⟩ hclarified
      · exact .kept ⟨hstatus, hepoch, honly, hreason, hclarified, hitems⟩
  | escalated =>
      refine step_modify (Db.modifyRun_runs ..) hrun ?_
      rintro rfl
      exact .driven rfl ⟨rfl, rfl, rfl⟩ rfl
  | finalized =>
      refine step_modify (pauseForReply_runs ..) hrun ?_
      rintro rfl
      exact .driven rfl ⟨rfl, rfl, rfl⟩ rfl
  | replayed =>
      refine step_modify ((pauseForReply_runs ..).trans (by rw [enqueueSend_runs])) hrun ?_
      rintro rfl
      exact .driven rfl ⟨rfl, rfl, rfl⟩ rfl
  | @reserved r₀ q =>
      obtain ⟨f, hf, hcolumns⟩ := reserveClarification_runs r₀ q db
      refine step_modify hf hrun ?_
      rintro rfl
      obtain ⟨hstatus, hepoch, honly, hclarified⟩ := hcolumns run
      exact .driven rfl ⟨hstatus, hepoch, honly⟩ hclarified
  | redelivered => exact step_same (authorizedReplyJob_runs ..) hrun
  | unknown => exact step_same rfl hrun
  | created =>
      refine ⟨run, ?_, .kept (.refl run)⟩
      rw [enqueueJob_runs]
      exact Dict.Below.get?_set_next (hfresh.mono (Nat.le_succ _)) hrun
  | late => exact step_same rfl hrun
  | replied => exact step_same (authorizedReplyJob_runs ..) hrun
  | prepared =>
      refine step_modify (Db.modifyRun_runs ..) hrun ?_
      rintro rfl
      exact .kept ⟨rfl, rfl, rfl, rfl, rfl, rfl⟩
  | @approved r₀ hstatus =>
      obtain hdeliver | hdeliver := deliver_runs r₀ env.envelope (setStatus r₀ .approved db)
      · refine step_modify (hdeliver.trans (Db.modifyRun_runs ..)) hrun ?_
        rintro rfl
        exact .approved (status_of_statusOf hrun hstatus) ⟨rfl, rfl, rfl⟩ (.inl rfl) rfl
      · rw [setStatus, Db.modifyRun_runs, Dict.modify_modify] at hdeliver
        refine step_modify hdeliver hrun ?_
        rintro rfl
        exact .approved (status_of_statusOf hrun hstatus) ⟨rfl, rfl, rfl⟩ (.inr rfl) rfl
  | errored hstatus hs =>
      refine step_modify (Db.modifyRun_runs ..) hrun ?_
      rintro rfl
      exact .failed rfl (by rwa [status_of_statusOf hrun hstatus]) ⟨rfl, rfl, rfl⟩ rfl
  | retriggered _ _ hclaim hnone =>
      obtain ⟨rfl, hstatus⟩ | ⟨rfl, s, hstatus, hs⟩ := hclaim
      · refine step_modify (enqueueJob_runs ..) hrun ?_
        rintro rfl
        have hstatus := status_of_statusOf hrun hstatus
        exact .retriggered (by simp [hstatus, retriggerStatuses]) hnone ⟨hstatus, rfl, rfl, rfl⟩
      · refine step_modify ((enqueueJob_runs ..).trans (Dict.modify_modify ..)) hrun ?_
        rintro rfl
        have hstatus := status_of_statusOf hrun hstatus
        refine .retriggered ?_ hnone ⟨rfl, rfl, rfl, rfl⟩
        rw [hstatus]
        exact retriggerStatuses_won s hs
  | @markedDelivered r₀ e m db' hload hresolve =>
      obtain ⟨run₀, hreview⟩ := loadDeliveryReview_some hload
      refine step_modify (resolved_runs hresolve) hrun ?_
      rintro rfl
      obtain rfl : run₀ = run := by simpa [hreview.found] using hrun
      exact .markedDelivered hreview.status hreview.reason ⟨rfl, rfl, rfl⟩ rfl
  | @authorizedNew r₀ e m db₁ hload hresolve hnone =>
      obtain ⟨run₀, hreview⟩ := loadDeliveryReview_some hload
      refine step_modify (authorizedNew_runs _ hresolve) hrun ?_
      rintro rfl
      obtain rfl : run₀ = run := by simpa [hreview.found] using hrun
      exact .authorizedNew hreview.status hreview.reason ⟨rfl, rfl, rfl, rfl⟩
  | @finishedReview r₀ e m target acknowledge hload =>
      obtain ⟨run₀, hreview⟩ := loadDeliveryReview_some hload
      refine step_modify (finishedReview_runs ..) hrun ?_
      rintro rfl
      obtain rfl : run₀ = run := by simpa [hreview.found] using hrun
      exact .finishedReview hreview.status hreview.reason ⟨rfl, rfl, rfl⟩ rfl
  | advanced => exact step_same rfl hrun
  | resolved => exact step_same (enqueueJob_runs ..) hrun
  | passed => exact step_same rfl hrun

end

end PayrollAgent.RunSteps
