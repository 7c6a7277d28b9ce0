import PayrollAgent.Bookkeeping

namespace PayrollAgent.HandoffSteps

open Lib Repo RunStages Delivery RunRoutes ClarificationWrites Ingest Effects RunSteps FreshIds
  Bookkeeping

/-- How a committed transaction comes to leave the row of a handoff. -/
inductive HandoffStep (db : Db) (i : Uuid) (row' : Handoff) : Op → Prop
  | kept {op : Op} (h : db.handoffs.get? i = some row') : HandoffStep db i row' op
  | released {op : Op} {row : Handoff} {t : Nat} {reason : ReleaseReason}
      (h : db.handoffs.get? i = some row) (hrow' : row' = { row with released := some (t, reason) }) :
      HandoffStep db i row' op
  | adopted {job : Job} {jobRow : JobRow} {leasedUntil : Nat} {m : Outbound} {run : Run} {row : Handoff}
      (h : db.handoffs.get? i = some row)
      (hmay : MayHandOver db job jobRow leasedUntil row.runId row.emailId m run)
      (hjob : row.jobId = job.id) (hrow' : row' =
        { row with leaseToken := job.leaseToken, ownerLeasedUntil := leasedUntil }) :
      HandoffStep db i row' (.authorizeOutboundProviderHandoff job)
  | taken {job : Job} {jobRow : JobRow} {leasedUntil : Nat} {r e : Uuid} {m : Outbound} {run : Run}
      (hmay : MayHandOver db job jobRow leasedUntil r e m run) (hnone : activeHandoff db r = none)
      (hi : i = db.nextId) (hrow' : row' =
        { runId := r
          emailId := e
          jobId := job.id
          leaseToken := job.leaseToken
          ownerLeasedUntil := leasedUntil
          epoch := m.epoch
          authorizedAt := db.now
          notAfter := m.snapshot.notAfter
          released := none }) :
      HandoffStep db i row' (.authorizeOutboundProviderHandoff job)

variable {db db' : Db} {i : Uuid} {row' : Handoff} {op : Op}

theorem activeHandoff_some {r j : Uuid} {row : Handoff} (h : activeHandoff db r = some (j, row)) :
    db.handoffs.get? j = some row ∧ row.runId = r ∧ row.released = none := by
  obtain ⟨hrow, hactive⟩ := Dict.select_some h
  simpa [hrow] using hactive

theorem activeHandoff_none {r : Uuid} :
    activeHandoff db r = none ↔ ∀ j row, db.handoffs.get? j = some row → row.runId = r →
      row.released ≠ none := by
  unfold activeHandoff
  rw [Dict.select_none]
  simp

theorem currentProviderHandoff_some {jobId token r e epoch j : Uuid} {row : Handoff}
    (h : currentProviderHandoff db jobId token r e epoch = some (j, row)) :
    db.handoffs.get? j = some row ∧ row.runId = r ∧ row.emailId = e ∧ row.jobId = jobId ∧
      row.epoch = epoch ∧ row.leaseToken = token ∧ row.released = none := by
  obtain ⟨hrow, howned⟩ := Dict.select_some h
  simpa [hrow] using howned

theorem step_same (h : db'.handoffs = db.handoffs) (hrow' : db'.handoffs.get? i = some row') :
    HandoffStep db i row' op :=
  .kept (by rwa [h] at hrow')

theorem step_release (j : Uuid) (reason : ReleaseReason)
    (h : db'.handoffs = (releaseHandoff j reason db).handoffs)
    (hrow' : db'.handoffs.get? i = some row') : HandoffStep db i row' op := by
  rw [h, releaseHandoff, Db.modifyHandoff, Dict.get?_modify] at hrow'
  split at hrow'
  · obtain ⟨row, hrow, rfl⟩ := Option.map_eq_some_iff.mp hrow'
    exact .released hrow rfl
  · exact .kept hrow'

theorem step_resolve {r e : Uuid} {reason : ReleaseReason} {db₁ : Db}
    (hresolve : resolveOutboundProviderHandoffForDeliveryReview r e reason db₁ = (true, db'))
    (h : db.handoffs = db₁.handoffs) (hnow : db.now = db₁.now)
    (hrow' : db'.handoffs.get? i = some row') : HandoffStep db i row' op := by
  obtain ⟨-, rfl⟩ | ⟨j, row, -, -, rfl⟩ := resolve_true hresolve
  · exact step_same h.symm hrow'
  · refine step_release j reason ?_ hrow'
    simp only [releaseHandoff, Db.modifyHandoff, h, hnow]

section

variable [PyText] {env : Env} {a : Ans op}

theorem handoffStep (h : Effect env db op a db') (hrow' : db'.handoffs.get? i = some row') :
    HandoffStep db i row' op := by
  cases h with
  | idle => exact step_same rfl hrow'
  | leased => exact step_same rfl hrow'
  | reapedInvalid => exact step_same rfl hrow'
  | @reapedReview row r e m run j handoff => exact step_release j .deliveryReview rfl hrow'
  | reapedRun => exact step_same (setRunError_handoffs ..) hrow'
  | reapedJob => exact step_same rfl hrow'
  | retired => exact step_same rfl hrow'
  | @recorded job result row r e m =>
      have hsame : (settleSent r e m.purpose db).handoffs = db.handoffs := settleSent_handoffs ..
      exact step_same hsame hrow'
  | expired => exact step_same rfl hrow'
  | @sent job result row r e m run j handoff =>
      have hsame : (settleSent r e m.purpose (appendDeliveryAttempt e .sent .none
          (releaseHandoff j .finalized db))).handoffs = (releaseHandoff j .finalized db).handoffs :=
        settleSent_handoffs ..
      exact step_release j .finalized hsame hrow'
  | @rescheduled job result row r e m run j handoff => exact step_release j .retryScheduled rfl hrow'
  | @reviewed job result row r e m run j handoff => exact step_release j .deliveryReview rfl hrow'
  | closed => exact step_same rfl hrow'
  | requeued => exact step_same rfl hrow'
  | failed => exact step_same (setRunError_handoffs ..) hrow'
  | released => exact step_same rfl hrow'
  | handedOver hmay hnone =>
      rw [Db.insertHandoff, Dict.get?_set] at hrow'
      split at hrow'
      next hi =>
        cases hrow'
        exact .taken hmay hnone hi rfl
      · exact .kept hrow'
  | handedAgain => exact step_same rfl hrow'
  | @adopted job jobRow leasedUntil r e m run j handoff hmay hactive hsame =>
      obtain ⟨hj, rfl, -⟩ := activeHandoff_some hactive
      obtain ⟨rfl, hjob, -⟩ := hsame
      rw [Db.modifyHandoff, Dict.get?_modify] at hrow'
      split at hrow'
      next hi =>
        subst hi
        rw [hj] at hrow'
        cases hrow'
        exact .adopted hj hmay hjob rfl
      · exact .kept hrow'
  | claimed => exact step_same rfl hrow'
  | statusSet => exact step_same rfl hrow'
  | rewound => exact step_same rfl hrow'
  | consumed => exact step_same rfl hrow'
  | fieldsSet => exact step_same rfl hrow'
  | candidatesSet => exact step_same rfl hrow'
  | persisted =>
      rw [persistStages_handoffs] at hrow'
      exact .kept hrow'
  | escalated => exact step_same rfl hrow'
  | finalized => exact step_same rfl hrow'
  | @replayed r e extracted m =>
      have hsame : (enqueueSend r e db).handoffs = db.handoffs := enqueueSend_handoffs ..
      exact step_same hsame hrow'
  | reserved =>
      rw [reserveClarification_handoffs] at hrow'
      exact .kept hrow'
  | redelivered =>
      rw [authorizedReplyJob_handoffs] at hrow'
      exact .kept hrow'
  | unknown => exact step_same rfl hrow'
  | created =>
      rw [enqueueJob_handoffs] at hrow'
      exact .kept hrow'
  | late => exact step_same rfl hrow'
  | replied =>
      rw [authorizedReplyJob_handoffs] at hrow'
      exact .kept hrow'
  | prepared => exact step_same rfl hrow'
  | approved =>
      rw [deliver_handoffs] at hrow'
      exact .kept hrow'
  | errored => exact step_same rfl hrow'
  | retriggered _ _ hclaim =>
      obtain ⟨rfl, -⟩ | ⟨rfl, -⟩ := hclaim
      · rw [enqueueJob_handoffs] at hrow'
        exact .kept hrow'
      · rw [enqueueJob_handoffs] at hrow'
        exact .kept hrow'
  | markedDelivered _ hresolve => exact step_resolve hresolve rfl rfl hrow'
  | authorizedNew _ hresolve =>
      refine step_resolve hresolve rfl rfl ?_
      simpa [replaceConfirmation, Db.modifyRun] using hrow'
  | @finishedReview r e m target acknowledge => cases acknowledge <;> exact step_same rfl hrow'
  | advanced => exact step_same rfl hrow'
  | resolved =>
      rw [enqueueJob_handoffs] at hrow'
      exact .kept hrow'
  | passed => exact step_same rfl hrow'

end

/-- The partial unique index of the unreleased handoffs. -/
def OneActive (db : Db) : Prop :=
  ∀ i j row row', db.handoffs.get? i = some row → db.handoffs.get? j = some row' →
    row.runId = row'.runId → row.released = none → row'.released = none → i = j

def Provided (db : Db) : Prop :=
  ∀ j row, db.handoffs.get? j = some row → row.released = none →
    ∃ run, db.runs.get? row.runId = some run ∧ run.recordOnly = false

theorem Provided.inactive {r : Uuid} {run : Run} (h : Provided db) (hrun : db.runs.get? r = some run)
    (honly : run.recordOnly = true) : activeHandoff db r = none := by
  refine activeHandoff_none.mpr fun j row hj hr hactive => ?_
  obtain ⟨run', hrun', hreal⟩ := h j row hj hactive
  rw [hr, hrun] at hrun'
  cases hrun'
  rw [honly] at hreal
  cases hreal

theorem inactive_congr {r : Uuid} (h : activeHandoff db r = none) (hsame : db'.handoffs = db.handoffs) :
    activeHandoff db' r = none := by
  rwa [activeHandoff, hsame]

theorem released_inactive {r j : Uuid} {row : Handoff} {reason : ReleaseReason} (hone : OneActive db)
    (hj : db.handoffs.get? j = some row) (hr : row.runId = r) (hactive : row.released = none)
    (h : db'.handoffs = (releaseHandoff j reason db).handoffs) : activeHandoff db' r = none := by
  refine activeHandoff_none.mpr fun k row' hk hr' hactive' => ?_
  rw [h, releaseHandoff, Db.modifyHandoff, Dict.get?_modify] at hk
  split at hk
  · obtain ⟨row₀, -, rfl⟩ := Option.map_eq_some_iff.mp hk
    cases hactive'
  next hne => exact hne (hone k j row' row hk hj (by rw [hr', hr]) hactive' hactive)

theorem resolve_inactive {r e : Uuid} {reason : ReleaseReason} {db₁ : Db} (hone : OneActive db₁)
    (h : resolveOutboundProviderHandoffForDeliveryReview r e reason db₁ = (true, db')) :
    activeHandoff db' r = none := by
  obtain ⟨hnone, rfl⟩ | ⟨j, row, hactive, -, rfl⟩ := resolve_true h
  · exact hnone
  · obtain ⟨hj, hr, hreleased⟩ := activeHandoff_some hactive
    exact released_inactive hone hj hr hreleased rfl

/-- The handoff of the row was active before, with the same run, message and
job. -/
def WasActive (db : Db) (i : Uuid) (row' : Handoff) : Prop :=
  ∃ row, db.handoffs.get? i = some row ∧ row.runId = row'.runId ∧ row.emailId = row'.emailId ∧
    row.jobId = row'.jobId ∧ row.released = none

/-- The handoff of the row was taken now, where its run had none. -/
structure TakenBy (db : Db) (i : Uuid) (row' : Handoff) (op : Op) (job : Job) (jobRow : JobRow)
    (leasedUntil : Nat) (m : Outbound) (run : Run) : Prop where
  may : MayHandOver db job jobRow leasedUntil row'.runId row'.emailId m run
  none : activeHandoff db row'.runId = none
  id : i = db.nextId
  jobId : row'.jobId = job.id
  op : op = .authorizeOutboundProviderHandoff job

theorem HandoffStep.active (h : HandoffStep db i row' op) (hactive : row'.released = none) :
    WasActive db i row' ∨ ∃ job jobRow leasedUntil m run,
    TakenBy db i row' op job jobRow leasedUntil m run := by
  cases h with
  | kept h => exact .inl ⟨row', h, rfl, rfl, rfl, hactive⟩
  | released _ hrow' =>
      rw [hrow'] at hactive
      cases hactive
  | @adopted job jobRow leasedUntil m run row h hmay hjob hrow' =>
      subst hrow'
      exact .inl ⟨row, h, rfl, rfl, rfl, hactive⟩
  | @taken job jobRow leasedUntil r e m run hmay hnone hi hrow' =>
      subst hrow'
      exact .inr ⟨job, jobRow, leasedUntil, m, run, hmay, hnone, hi, rfl, rfl⟩

section

variable [PyText] {env : Env} {a : Ans op}

theorem oneActive_step (h : Effect env db op a db') (hone : OneActive db) : OneActive db' := by
  intro i j row row' hi hj hrun hactive hactive'
  rcases (handoffStep h hi).active hactive with
      ⟨row₀, hi₀, hrun₀, -, -, hactive₀⟩ | ⟨_, _, _, _, _, htaken⟩ <;>
    rcases (handoffStep h hj).active hactive' with
      ⟨row₁, hj₁, hrun₁, -, -, hactive₁⟩ | ⟨_, _, _, _, _, htaken'⟩
  · exact hone i j row₀ row₁ hi₀ hj₁ (by rw [hrun₀, hrun₁, hrun]) hactive₀ hactive₁
  · exact absurd hactive₀ (activeHandoff_none.mp htaken'.none i row₀ hi₀ (by rw [hrun₀, hrun]))
  · exact absurd hactive₁ (activeHandoff_none.mp htaken.none j row₁ hj₁ (by rw [hrun₁, hrun]))
  · rw [htaken.id, htaken'.id]

theorem provided_step (hfresh : Fresh db) (heffect : Effect env db op a db')
    (h : Provided db) : Provided db' := by
  intro j row' hrow' hactive
  have hstays : ∀ {q : Uuid} {run : Run}, db.runs.get? q = some run → run.recordOnly = false →
      ∃ run', db'.runs.get? q = some run' ∧ run'.recordOnly = false := by
    intro q run hrun hreal
    obtain ⟨run', hrun', hstep⟩ := runStep heffect hfresh.runs hrun
    exact ⟨run', hrun', hstep.recordOnly_eq.trans hreal⟩
  rcases (handoffStep heffect hrow').active hactive with
    ⟨row, hrow, hrun, -, -, hactive⟩ | ⟨_, _, _, _, _, htaken⟩
  · obtain ⟨run, hrun', hreal⟩ := h j row hrow hactive
    rw [hrun] at hrun'
    exact hstays hrun' hreal
  · obtain ⟨-, -, hrun, -⟩ := deliveryContext_some htaken.may.owed
    exact hstays hrun htaken.may.notRecordOnly

theorem retrigger_handoffs {r : Uuid} {won : Ans (.retrigger r)}
    (h : Effect env db (.retrigger r) won db') : db'.handoffs = db.handoffs := by
  cases h with
  | idle => rfl
  | retriggered _ _ hclaim =>
      obtain ⟨rfl, -⟩ | ⟨rfl, -⟩ := hclaim
      · exact enqueueJob_handoffs ..
      · exact enqueueJob_handoffs ..

theorem authorizedNew_inactive {r : Uuid}
    (h : Effect env db (.authorizeNewConfirmation r) (true : Bool) db') : activeHandoff db' r = none := by
  cases h with
  | idle hrefused => cases hrefused
  | authorizedNew _ _ hnone =>
      rw [activeHandoff_none] at hnone ⊢
      simpa [replaceConfirmation, Db.modifyRun] using hnone

theorem epoch_of_active {r : Uuid} {run run' : Run} (h : Effect env db op a db')
    (hstep : RunStep db r run op a run') (hactive : activeHandoff db' r ≠ none) :
    run'.replyEpoch = run.replyEpoch := by
  cases hstep with
  | kept hkept => exact hkept.epoch
  | fieldsSet => rfl
  | driven _ hmoved => exact hmoved.epoch
  | claimed _ hmoved => exact hmoved.epoch
  | rewound _ hmoved => exact hmoved.epoch
  | approved _ hmoved => exact hmoved.epoch
  | failed _ _ hmoved => exact hmoved.epoch
  | requeued _ _ _ hmoved => exact hmoved.epoch
  | retriggered _ hnone =>
      rw [activeHandoff_none.mpr (by rw [retrigger_handoffs h]; exact activeHandoff_none.mp hnone)]
        at hactive
      exact absurd rfl hactive
  | reconciled _ hmoved => exact hmoved.epoch
  | reviewed _ _ hmoved => exact hmoved.epoch
  | markedDelivered _ _ hmoved => exact hmoved.epoch
  | authorizedNew => exact absurd (authorizedNew_inactive h) hactive
  | finishedReview _ _ hmoved => exact hmoved.epoch

end

end PayrollAgent.HandoffSteps
