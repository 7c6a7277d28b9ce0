import PayrollAgent.HandoffSteps

namespace PayrollAgent.JobSteps

open Lib Repo AliasLearning RunStages Delivery RunRoutes ClarificationWrites Ingest Effects RunSteps
  FreshIds Conduct Bookkeeping HandoffSteps

def Unleased (now : Nat) (state : JobState) (row row' : JobRow) : Prop :=
  ∃ availableAt lastError, row' = unlease row state availableAt lastError now

/-- How a committed transaction comes to leave the row of a job. -/
inductive JobStep (env : Env) (db db' : Db) (j : Uuid) (row : JobRow) :
    (op : Op) → Ans op → JobRow → Prop
  | kept {op : Op} {a : Ans op} : JobStep env db db' j row op a row
  | leased (hpicked : env.picked = j) (hclaim : claimable db.now row = true) :
      JobStep env db db' j row .claimJob (some (copyOf row j db.nextId)) (leaseTo row db.nextId db.now)
  | reapedInvalid {row' : JobRow} (hpicked : env.picked = j) (hreap : reapable db.now row = true)
      (hkind : row.kind = .sendOutbound)
      (hinvalid : ∀ r e m run h handoff, ¬ Reaps db j row r e m run h handoff)
      (hrow' : Unleased db.now .dead row row') :
      JobStep env db db' j row .reapExpiredFinalAttempt (some .invalidContext) row'
  | reapedReview {row' : JobRow} {r e : Uuid} {m : Outbound} {run : Run} {h : Uuid} {handoff : Handoff}
      (howned : Reaps db j row r e m run h handoff)
      (hnone : OneActive db → activeHandoff db' r = none) (hafter : deliveryContext db' r e = none)
      (hrow' : Unleased db.now .dead row row') (hreap : reapable db.now row = true) :
      JobStep env db db' j row .reapExpiredFinalAttempt (some .reapedFinalLease) row'
  | reapedOther {row' : JobRow} (hkind : row.kind ≠ .sendOutbound)
      (hrow' : Unleased db.now .dead row row') (hreap : reapable db.now row = true) :
      JobStep env db db' j row .reapExpiredFinalAttempt (some .reapedFinalLease) row'
  | retired {job : Job} {result : PipelineResult} {row' : JobRow} (hid : job.id = j)
      (hrow : lockedJob db job = some row) (hinvalid : ¬ Settles db job result)
      (hrow' : Unleased db.now .done row row') :
      JobStep env db db' j row (.settleOutboundDeliveryJob job result) .invalidContext row'
  | settled {job : Job} {result : PipelineResult} {outcome : SettlementOutcome} {row' : JobRow}
      {r e : Uuid} {m : Outbound} {run : Run} {state : JobState} (hid : job.id = j)
      (hctx : InContext db job row r e m run)
      (hnone : OneActive db → Provided db → activeHandoff db' r = none)
      (hafter : (state = .pending ∧ row.attempts < maxAttempts .sendOutbound) ∨
        (state = .done ∧ deliveryContext db' r e = none)) (hrow' : Unleased db.now state row row') :
      JobStep env db db' j row (.settleOutboundDeliveryJob job result) outcome row'
  | closed {job : Job} {result : PipelineResult} {outcome : SettlementOutcome} {row' : JobRow}
      {state : JobState} (hid : job.id = j) (hrow : lockedJob db job = some row)
      (hkind : row.kind = job.kind) (hleaves : Leaves row state)
      (hrow' : Unleased db.now state row row') :
      JobStep env db db' j row (.settlePipelineJob job result) outcome row'
  | released {tokens : List Uuid} (hleased : row.state = .leased)
      (htoken : row.leaseToken.any (· ∈ tokens) = true) :
      JobStep env db db' j row (.releaseLeases tokens) ()
        (unlease row .pending db.now row.lastError db.now)
  | advanced {r : Uuid} {kind : ReviewKind} {a : Ans (.retryDeliveryNow r kind)}
      (hstate : row.state = .pending) :
      JobStep env db db' j row (.retryDeliveryNow r kind) a
        { row with availableAt := db.now, updatedAt := db.now }

variable {env : Env} {db db' : Db} {j : Uuid} {row : JobRow} {op : Op} {a : Ans op}

theorem lockedJob_some {job : Job} (h : lockedJob db job = some row) :
    db.jobs.get? job.id = some row ∧ row.state = .leased ∧ row.leaseToken = some job.leaseToken := by
  obtain ⟨hrow, hleased⟩ := Option.filter_eq_some_iff.mp h
  exact ⟨hrow, by simpa using hleased⟩

theorem sendContext_some {job : Job} {r e : Uuid} (h : sendContext job row = some (r, e)) :
    row.runId = some r ∧ row.emailId = some e ∧ row.kind = .sendOutbound := by
  unfold sendContext at h
  split at h
  next r' e' hr he =>
    split at h
    next hsame =>
      cases h
      exact ⟨hr, he, hsame.1⟩
    · cases h
  · cases h

theorem step_same (h : db'.jobs = db.jobs) (hrow : db.jobs.get? j = some row) :
    ∃ row', db'.jobs.get? j = some row' ∧ JobStep env db db' j row op a row' :=
  ⟨row, by rw [h, hrow], .kept⟩

theorem step_kept (h : db'.jobs.get? j = some row) :
    ∃ row', db'.jobs.get? j = some row' ∧ JobStep env db db' j row op a row' :=
  ⟨row, h, .kept⟩

/-- The write of one row is a step of its job, and leaves every other alone. -/
theorem step_modify {i : Uuid} {f : JobRow → JobRow} (h : db'.jobs = db.jobs.modify i f)
    (hrow : db.jobs.get? j = some row) (hstep : i = j → JobStep env db db' j row op a (f row)) :
    ∃ row', db'.jobs.get? j = some row' ∧ JobStep env db db' j row op a row' := by
  by_cases hi : i = j
  · subst hi
    exact ⟨f row, by rw [h, Dict.get?_modify_self hrow], hstep rfl⟩
  · exact ⟨row, by rw [h, Dict.get?_modify_of_ne _ (Ne.symm hi), hrow], .kept⟩

theorem closeJob_jobs (i : Uuid) (state : JobState) (db : Db) : (closeJob i state db).jobs =
    db.jobs.modify i fun row => unlease row state row.availableAt row.lastError db.now := rfl

theorem finish_jobs (i : Uuid) (state : JobState) (lastError : Option LastError) (db : Db) :
    (finish i state lastError db).jobs =
      db.jobs.modify i fun row => unlease row state row.availableAt lastError db.now := rfl

theorem modifyJob_jobs (i : Uuid) (f : JobRow → JobRow) (db : Db) :
    (db.modifyJob i f).jobs = db.jobs.modify i f := rfl

theorem enqueueJob_keeps (kind : JobKind) (dedupKey : DedupKey)
    (runId emailId operatorResolutionId eventId : Option Uuid) (hfresh : db.jobs.Below db.nextId)
    (hrow : db.jobs.get? j = some row) :
    (enqueueJob kind dedupKey runId emailId operatorResolutionId eventId db).jobs.get? j = some row := by
  unfold enqueueJob
  split
  · exact hrow
  · exact hfresh.get?_set_next hrow

theorem reserve_enqueue_keeps {r : Uuid} {purpose : Purpose} {round : Nat} {envelope : Envelope}
    (e : Uuid) (hfresh : Fresh db) (hrow : db.jobs.get? j = some row) :
    (enqueueSend r e (reserveOutboundSnapshot r purpose round envelope db).2).jobs.get? j = some row :=
  enqueueJob_keeps _ _ _ _ _ _ (hfresh.reserveOutboundSnapshot r purpose round envelope).jobs
    (by rwa [reserveOutboundSnapshot_jobs])

theorem authorizedReplyJob_keeps (mail : InboundMail) (r e : Uuid) (hfresh : db.jobs.Below db.nextId)
    (hrow : db.jobs.get? j = some row) : (authorizedReplyJob mail r e db).jobs.get? j = some row := by
  obtain hsame | ⟨-, hqueued⟩ := authorizedReplyJob_cases mail r e db
  · rwa [hsame]
  · rw [hqueued]
    exact enqueueJob_keeps _ _ _ _ _ _ hfresh hrow

theorem reserveClarification_keeps (r : Uuid) (q : Question) (hfresh : Fresh db)
    (hrow : db.jobs.get? j = some row) : (reserveClarification r q db).jobs.get? j = some row := by
  obtain ⟨runs, hframe⟩ := reserveClarification_frame r q db
  rw [hframe]
  exact reserve_enqueue_keeps _ hfresh hrow

theorem deliver_keeps [PyText] (r : Uuid) (envelope : Envelope) (hfresh : Fresh db)
    (hrow : db.jobs.get? j = some row) : (deliver r envelope db).jobs.get? j = some row := by
  obtain ⟨-, hdeliver⟩ | ⟨-, ⟨e, m, -, hdeliver⟩ | ⟨-, hdeliver⟩⟩ := deliver_cases r envelope db
  · rwa [hdeliver, completeSentConfirmation_jobs]
  · rw [hdeliver]
    exact enqueueJob_keeps _ _ _ _ _ _ hfresh.jobs hrow
  · rw [hdeliver]
    exact reserve_enqueue_keeps _ hfresh hrow

theorem context_none_of_sent {r e : Uuid} {db₁ : Db}
    (h : db'.outbound = db₁.outbound.modify e fun m => { m with sendState := .sent }) :
    deliveryContext db' r e = none := by
  cases hctx : deliveryContext db' r e with
  | none => rfl
  | some x =>
      obtain ⟨m, run⟩ := x
      obtain ⟨hm, -, -, hreserved, -⟩ := deliveryContext_some hctx
      rw [h, Dict.get?_modify, if_pos rfl] at hm
      obtain ⟨m₀, -, rfl⟩ := Option.map_eq_some_iff.mp hm
      cases hreserved

theorem context_none_of_review {r e : Uuid} (purpose : Purpose) (category : FailureCategory) (db₁ : Db)
    (h : db'.runs = (enterDeliveryReview r e purpose category db₁).runs) :
    deliveryContext db' r e = none := by
  cases hctx : deliveryContext db' r e with
  | none => rfl
  | some x =>
      obtain ⟨m, run⟩ := x
      obtain ⟨-, -, hrun, -, -, hstatus⟩ := deliveryContext_some hctx
      rw [h, enterDeliveryReview, Db.modifyRun_runs, Dict.get?_modify, if_pos rfl] at hrun
      obtain ⟨run₀, -, rfl⟩ := Option.map_eq_some_iff.mp hrun
      exact absurd hstatus (status_ne_expected (s := .needsOperator) (by decide) _)

section

variable [PyText]

theorem jobStep (h : Effect env db op a db') (hfresh : Fresh db)
    (hrow : db.jobs.get? j = some row) :
    ∃ row', db'.jobs.get? j = some row' ∧ JobStep env db db' j row op a row' := by
  have hself : ∀ {job : Job} {row₀ : JobRow}, lockedJob db job = some row₀ → job.id = j → row₀ = row := by
    intro job row₀ hlocked hid
    rw [← hid, (lockedJob_some hlocked).1] at hrow
    exact Option.some.inj hrow
  cases h with
  | idle => exact step_same rfl hrow
  | @leased row₀ hrow₀ hclaim =>
      by_cases hj : j = env.picked
      · subst hj
        rw [hrow] at hrow₀
        cases hrow₀
        exact ⟨_, Dict.get?_set_self .., .leased rfl hclaim⟩
      · exact ⟨row, (Dict.get?_set_of_ne _ hj _).trans hrow, .kept⟩
  | @reapedInvalid row₀ hrow₀ hreap hkind hinvalid =>
      refine step_modify (finish_jobs ..) hrow ?_
      rintro rfl
      rw [hrow] at hrow₀
      cases hrow₀
      exact .reapedInvalid rfl hreap hkind hinvalid ⟨_, _, rfl⟩
  | @reapedReview row₀ r e m run i handoff hrow₀ hreap hkind howned =>
      refine step_modify (closeJob_jobs ..) hrow ?_
      rintro rfl
      rw [hrow] at hrow₀
      cases hrow₀
      obtain ⟨token, -, hhandoff⟩ := howned.owned
      obtain ⟨hi, hr, -, -, -, -, hactive⟩ := currentProviderHandoff_some hhandoff
      refine .reapedReview howned (fun hone => released_inactive hone hi hr hactive rfl) ?_
        ⟨_, _, rfl⟩ hreap
      exact context_none_of_review m.purpose .finalAttemptLeaseExpired _ rfl
  | @reapedRun row₀ r s hrow₀ hreap hkind hstatus =>
      refine step_modify ((closeJob_jobs ..).trans (by rw [setRunError_jobs, setRunError_now])) hrow ?_
      rintro rfl
      rw [hrow] at hrow₀
      cases hrow₀
      exact .reapedOther hkind ⟨_, _, rfl⟩ hreap
  | @reapedJob row₀ hrow₀ hreap hkind =>
      refine step_modify (closeJob_jobs ..) hrow ?_
      rintro rfl
      rw [hrow] at hrow₀
      cases hrow₀
      exact .reapedOther hkind ⟨_, _, rfl⟩ hreap
  | retired hlocked hinvalid =>
      refine step_modify (finish_jobs ..) hrow fun hid => ?_
      obtain rfl := hself hlocked hid
      exact .retired hid hlocked hinvalid ⟨_, _, rfl⟩
  | @recorded job result row₀ r e m run hctx honly =>
      refine step_modify ((closeJob_jobs ..).trans (by rw [settleSent_jobs, settleSent_now]))
        hrow fun hid => ?_
      obtain rfl := hself hctx.locked hid
      have hsame : (settleSent r e m.purpose db).handoffs = db.handoffs := settleSent_handoffs ..
      obtain ⟨-, -, hrun, -⟩ := deliveryContext_some hctx.owed
      exact .settled hid hctx (fun _ hprov => inactive_congr (hprov.inactive hrun honly) hsame)
        (.inr ⟨rfl, context_none_of_sent (settleSent_outbound r e m.purpose db)⟩) ⟨_, _, rfl⟩
  | @expired job result row₀ r e m run hctx hnone =>
      refine step_modify (finish_jobs ..) hrow fun hid => ?_
      obtain rfl := hself hctx.locked hid
      exact .settled hid hctx (fun _ _ => hnone) (.inr ⟨rfl, context_none_of_review m.purpose
        (deliveryFailureCategory result) _ rfl⟩) ⟨_, _, rfl⟩
  | @sent job result row₀ r e m run i handoff hctx howned =>
      have hjobs : (settleSent r e m.purpose (appendDeliveryAttempt e .sent .none
          (releaseHandoff i .finalized db))).jobs = db.jobs := settleSent_jobs ..
      have hnow : (settleSent r e m.purpose (appendDeliveryAttempt e .sent .none
          (releaseHandoff i .finalized db))).now = db.now := settleSent_now ..
      refine step_modify ((closeJob_jobs ..).trans (by rw [hjobs, hnow])) hrow fun hid => ?_
      obtain rfl := hself hctx.locked hid
      obtain ⟨hi, hr, -, -, -, -, hactive⟩ := currentProviderHandoff_some howned
      have hsame : (settleSent r e m.purpose (appendDeliveryAttempt e .sent .none
          (releaseHandoff i .finalized db))).handoffs = (releaseHandoff i .finalized db).handoffs :=
        settleSent_handoffs ..
      exact .settled hid hctx (fun hone _ => released_inactive hone hi hr hactive hsame)
        (.inr ⟨rfl, context_none_of_sent (settleSent_outbound r e m.purpose _)⟩) ⟨_, _, rfl⟩
  | @rescheduled job result row₀ r e m run i handoff t hctx howned hnext =>
      refine step_modify (modifyJob_jobs ..) hrow fun hid => ?_
      obtain rfl := hself hctx.locked hid
      obtain ⟨hi, hr, -, -, -, -, hactive⟩ := currentProviderHandoff_some howned
      exact .settled hid hctx (fun hone _ => released_inactive hone hi hr hactive rfl)
        (.inl ⟨rfl, lt_eight_of_nextDeliveryAttemptAt hnext⟩) ⟨_, _, rfl⟩
  | @reviewed job result row₀ r e m run i handoff hctx howned =>
      refine step_modify (finish_jobs ..) hrow fun hid => ?_
      obtain rfl := hself hctx.locked hid
      obtain ⟨hi, hr, -, -, -, -, hactive⟩ := currentProviderHandoff_some howned
      exact .settled hid hctx (fun hone _ => released_inactive hone hi hr hactive rfl)
        (.inr ⟨rfl, context_none_of_review m.purpose (deliveryFailureCategory result) _ rfl⟩) ⟨_, _, rfl⟩
  | closed hlocked hkind hleaves =>
      refine step_modify (modifyJob_jobs ..) hrow fun hid => ?_
      obtain rfl := hself hlocked hid
      exact .closed hid hlocked hkind hleaves ⟨_, _, rfl⟩
  | requeued hlocked hkind _ _ _ hattempts =>
      refine step_modify (modifyJob_jobs ..) hrow fun hid => ?_
      obtain rfl := hself hlocked hid
      have hleaves : Leaves _ .pending := hattempts
      exact .closed hid hlocked hkind hleaves ⟨_, _, rfl⟩
  | failed hlocked hkind _ hleaves =>
      refine step_modify ((finish_jobs ..).trans (by rw [setRunError_jobs, setRunError_now]))
        hrow fun hid => ?_
      obtain rfl := hself hlocked hid
      exact .closed hid hlocked hkind hleaves ⟨_, _, rfl⟩
  | @released tokens =>
      have hget := Dict.get?_updateWhere db.jobs
        (fun _ row => row.state = .leased ∧ row.leaseToken.any (· ∈ tokens))
        (fun row => unlease row .pending db.now row.lastError db.now) j
      rw [hrow, Option.map_some] at hget
      split at hget
      next hleased =>
        simp only [decide_eq_true_eq] at hleased
        exact ⟨_, hget, .released hleased.1 hleased.2⟩
      · exact ⟨_, hget, .kept⟩
  | handedOver => exact step_same rfl hrow
  | handedAgain => exact step_same rfl hrow
  | adopted => exact step_same rfl hrow
  | claimed => exact step_same rfl hrow
  | statusSet => exact step_same rfl hrow
  | rewound => exact step_same rfl hrow
  | consumed => exact step_same rfl hrow
  | fieldsSet => exact step_same rfl hrow
  | candidatesSet => exact step_same rfl hrow
  | persisted => exact step_same (persistStages_jobs ..) hrow
  | escalated => exact step_same rfl hrow
  | finalized => exact step_same rfl hrow
  | replayed => exact step_kept (enqueueJob_keeps _ _ _ _ _ _ hfresh.jobs hrow)
  | reserved => exact step_kept (reserveClarification_keeps _ _ hfresh hrow)
  | redelivered => exact step_kept (authorizedReplyJob_keeps _ _ _ hfresh.jobs hrow)
  | unknown => exact step_same rfl hrow
  | @created mail businessId =>
      have hstored := (hfresh.stored mail).insertRun (Run.created businessId db.nextId db.now)
      exact step_kept (enqueueJob_keeps _ _ _ _ _ _ hstored.jobs hrow)
  | late => exact step_same rfl hrow
  | @replied mail r =>
      have hlinked := (hfresh.stored mail).linkEmailToRun db.nextId r
      exact step_kept (authorizedReplyJob_keeps _ _ _ hlinked.jobs hrow)
  | prepared => exact step_same rfl hrow
  | @approved r =>
      have hset : Fresh (setStatus r .approved db) := hfresh.modifyRun r _
      exact step_kept (deliver_keeps r env.envelope hset hrow)
  | errored => exact step_same rfl hrow
  | retriggered _ _ hclaim =>
      obtain ⟨rfl, -⟩ | ⟨rfl, -⟩ := hclaim
      · exact step_kept (enqueueJob_keeps _ _ _ _ _ _ hfresh.jobs hrow)
      · exact step_kept (enqueueJob_keeps _ _ _ _ _ _ hfresh.jobs hrow)
  | markedDelivered _ hresolve =>
      obtain ⟨handoffs, rfl⟩ := resolve_frame hresolve
      exact step_same rfl hrow
  | @authorizedNew r e m db₁ _ hresolve =>
      have hresolved : Fresh db₁ ∧ db₁.jobs = db.jobs := by
        obtain ⟨-, rfl⟩ | ⟨i, handoff, -, -, rfl⟩ := resolve_true hresolve
        · exact ⟨hfresh.modifyRun r _, rfl⟩
        · exact ⟨(hfresh.modifyRun r _).modifyHandoff i _, rfl⟩
      obtain ⟨hfresh₁, hjobs⟩ := hresolved
      have hopened := hfresh₁.modifyRun r (openEpoch db₁.now)
      exact step_kept (reserve_enqueue_keeps _ hopened (by rw [← hrow, ← hjobs]; rfl))
  | @finishedReview r e m target acknowledge =>
      cases acknowledge <;> exact step_same rfl hrow
  | advanced hrow₀ hstate =>
      refine step_modify (modifyJob_jobs ..) hrow ?_
      rintro rfl
      rw [hrow] at hrow₀
      cases hrow₀
      exact .advanced hstate
  | resolved => exact step_kept (enqueueJob_keeps _ _ _ _ _ _ hfresh.draw.jobs hrow)
  | passed => exact step_same rfl hrow

end

/-- The columns of a job that no transaction changes. -/
structure SameJob (row row' : JobRow) : Prop where
  kind : row'.kind = row.kind
  runId : row'.runId = row.runId
  emailId : row'.emailId = row.emailId
  maxAttempts : row'.maxAttempts = row.maxAttempts

theorem Unleased.same {state : JobState} {row' : JobRow} (h : Unleased db.now state row row') :
    SameJob row row' := by
  obtain ⟨availableAt, lastError, rfl⟩ := h
  exact ⟨rfl, rfl, rfl, rfl⟩

theorem Unleased.attempts {state : JobState} {row' : JobRow} (h : Unleased db.now state row row') :
    row'.state = state ∧ row'.attempts = row.attempts := by
  obtain ⟨availableAt, lastError, rfl⟩ := h
  exact ⟨rfl, rfl⟩

theorem JobStep.same {row' : JobRow} (h : JobStep env db db' j row op a row') : SameJob row row' := by
  cases h with
  | kept => exact ⟨rfl, rfl, rfl, rfl⟩
  | leased => exact ⟨rfl, rfl, rfl, rfl⟩
  | reapedInvalid _ _ _ _ hrow' => exact hrow'.same
  | reapedReview _ _ _ hrow' => exact hrow'.same
  | reapedOther _ hrow' => exact hrow'.same
  | retired _ _ _ hrow' => exact hrow'.same
  | settled _ _ _ _ hrow' => exact hrow'.same
  | closed _ _ _ _ hrow' => exact hrow'.same
  | released => exact ⟨rfl, rfl, rfl, rfl⟩
  | advanced => exact ⟨rfl, rfl, rfl, rfl⟩

def Live (row : JobRow) : Prop :=
  row.state = .leased ∨ (row.state = .pending ∧ row.attempts < row.maxAttempts)

def Copied (s : Work) (db : Db) : Prop :=
  ∀ job, s.lease = some job → ∃ row, db.jobs.get? job.id = some row ∧ row.kind = job.kind ∧
    row.runId = job.runId ∧ row.emailId = job.emailId

theorem Copied.names {s : Work} {job : Job} {r e : Uuid} (h : Copied s db)
    (hlease : s.lease = some job ∧ job.kind = .sendOutbound) (hlocked : lockedJob db job = some row)
    (hrun : row.runId = some r) (hmail : row.emailId = some e) : sendContext job row = some (r, e) := by
  obtain ⟨row₀, hrow₀, hkind, hrun₀, hmail₀⟩ := h job hlease.1
  rw [(lockedJob_some hlocked).1] at hrow₀
  cases hrow₀
  simp [sendContext, hrun, hmail, hkind, hlease.2, ← hrun₀, ← hmail₀]

section

variable [PyText] {s : Work}

theorem Copied.step (h : Copied s db) (heffect : Effect env db op a db') (hfresh : Fresh db) :
    Copied s db' := by
  intro job hlease
  obtain ⟨row, hrow, hkind, hrun, hmail⟩ := h job hlease
  obtain ⟨row', hrow', hstep⟩ := jobStep heffect hfresh hrow
  exact ⟨row', hrow', by rw [hstep.same.kind, hkind], by rw [hstep.same.runId, hrun],
    by rw [hstep.same.emailId, hmail]⟩

theorem copied_own (hfresh : Fresh db) (h : Copied s db) :
    Copied (s.next op (exec env op db).1) (exec env op db).2 := by
  rcases exec_cases 0 env op db with ⟨e, hexec, -⟩ | ⟨answer, db', htxn, hdb, -, hanswer | ⟨e, hanswer⟩⟩
  · rw [hexec]
    exact h
  · rw [hanswer, hdb]
    have heffect := txn_effect htxn
    intro job hlease
    rcases mem_told_lease 0 db db' hlease with hlease | hleased
    · exact h.step heffect hfresh job hlease
    · cases noted hleased
      obtain ⟨row, hrow, -, rfl⟩ := leased_row heffect
      obtain ⟨row', hrow', hstep⟩ := jobStep heffect hfresh hrow
      exact ⟨row', hrow', hstep.same.kind, hstep.same.runId, hstep.same.emailId⟩
  · rw [hanswer, hdb]
    exact h.step (txn_effect htxn) hfresh

theorem copied_other (hfresh : Fresh db) (h : Copied s db) : Copied s (exec env op db).2 := by
  apply exec_preserves h
  intro answer db' htxn
  exact h.step (txn_effect htxn) hfresh

end

end PayrollAgent.JobSteps
