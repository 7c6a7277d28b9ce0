import PayrollAgent.JobSteps

namespace PayrollAgent.NewJobs

open Lib Repo AliasLearning RunStages Delivery RunRoutes ClarificationWrites Ingest Effects JobSteps

structure Enqueued (row : JobRow) : Prop where
  state : row.state = .pending
  attempts : row.attempts = 0
  maxAttempts : row.maxAttempts = maxAttempts row.kind
  leaseToken : row.leaseToken = none
  leasedUntil : row.leasedUntil = none

/-- The identifiers are drawn in order, and a new row of a job is one that
nobody claimed yet. -/
structure JobsGrow (db db' : Db) : Prop where
  nextId : db.nextId ≤ db'.nextId
  jobs : ∀ j row', db'.jobs.get? j = some row' → (db.jobs.get? j).isSome ∨ Enqueued row'

theorem setRunError_nextId (r : Uuid) (reason : ErrorReason) (detail : ErrorDetail) (s : RunStatus)
    (db : Db) : (setRunError r reason detail s db).2.nextId = db.nextId := by
  obtain ⟨runs, hframe⟩ := setRunError_frame r reason detail s db
  rw [hframe]

theorem persistStages_nextId (r : Uuid) (s : StageResult) (db : Db) :
    (persistStages r s db).nextId = db.nextId := by
  obtain ⟨runs, hframe⟩ := persistStages_frame r s db
  rw [hframe]

theorem settleSent_nextId [PyText] (r e : Uuid) (purpose : Purpose) (db : Db) :
    (settleSent r e purpose db).nextId = db.nextId := by
  cases purpose with
  | confirmation => exact writeAliasesIfSafe_nextId ..
  | clarification => rfl
  | clarificationFieldRegression => rfl

theorem reserveOutboundSnapshot_nextId (r : Uuid) (purpose : Purpose) (round : Nat) (envelope : Envelope)
    (db : Db) : db.nextId ≤ (reserveOutboundSnapshot r purpose round envelope db).2.nextId := by
  unfold reserveOutboundSnapshot
  split
  · exact le_rfl
  · exact (Nat.le_succ _).trans (Nat.le_succ _)

variable {db db' db₁ db₂ : Db}

namespace JobsGrow

theorem refl (db : Db) : JobsGrow db db :=
  ⟨le_rfl, fun _ _ h => .inl (Option.isSome_of_eq_some h)⟩

theorem congr (h : JobsGrow db db₁) (hnext : db₁.nextId ≤ db₂.nextId) (hjobs : db₂.jobs = db₁.jobs) :
    JobsGrow db db₂ :=
  ⟨h.nextId.trans hnext, fun j row' hrow' => h.jobs j row' (by rwa [← hjobs])⟩

theorem of_isSome (hnext : db.nextId ≤ db'.nextId)
    (hjobs : ∀ j, (db'.jobs.get? j).isSome → (db.jobs.get? j).isSome) : JobsGrow db db' :=
  ⟨hnext, fun j _ hrow' => .inl (hjobs j (Option.isSome_of_eq_some hrow'))⟩

theorem modify {k : Uuid} {f : JobRow → JobRow} (hnext : db.nextId ≤ db'.nextId)
    (hjobs : db'.jobs = db.jobs.modify k f) : JobsGrow db db' := by
  apply of_isSome hnext
  intro j hj
  rw [hjobs, Dict.get?_modify] at hj
  split at hj
  · rwa [Option.isSome_map] at hj
  · exact hj

theorem enqueueJob (h : JobsGrow db db₁) (kind : JobKind) (dedupKey : DedupKey)
    (runId emailId operatorResolutionId eventId : Option Uuid) :
    JobsGrow db (enqueueJob kind dedupKey runId emailId operatorResolutionId eventId db₁) := by
  unfold Repo.enqueueJob
  split
  · exact h
  · refine ⟨h.nextId.trans (Nat.le_succ _), fun j row' hrow' => ?_⟩
    rw [Db.insertJob, Dict.get?_set] at hrow'
    split at hrow'
    · cases hrow'
      exact .inr ⟨rfl, rfl, rfl, rfl, rfl⟩
    · exact h.jobs j row' hrow'

theorem authorizedReplyJob (h : JobsGrow db db₁) (mail : InboundMail) (r e : Uuid) :
    JobsGrow db (authorizedReplyJob mail r e db₁) := by
  obtain hsame | ⟨-, hqueued⟩ := authorizedReplyJob_cases mail r e db₁
  · rwa [hsame]
  · rw [hqueued]
    exact h.enqueueJob ..

theorem reserve (h : JobsGrow db db₁) (r : Uuid) (purpose : Purpose) (round : Nat)
    (envelope : Envelope) (e : Uuid) :
    JobsGrow db (enqueueSend r e (reserveOutboundSnapshot r purpose round envelope db₁).2) :=
  (h.congr (reserveOutboundSnapshot_nextId ..) (reserveOutboundSnapshot_jobs ..)).enqueueJob ..

theorem reserveClarification (db : Db) (r : Uuid) (q : Question) :
    JobsGrow db (reserveClarification r q db) := by
  have hqueued := (refl db).reserve r q.purpose q.round q.envelope
    (reserveOutboundSnapshot r q.purpose q.round q.envelope db).1
  obtain ⟨runs, hframe⟩ := reserveClarification_frame r q db
  rw [hframe]
  exact hqueued.congr le_rfl rfl

theorem deliver [PyText] (h : JobsGrow db db₁) (r : Uuid) (envelope : Envelope) :
    JobsGrow db (deliver r envelope db₁) := by
  obtain ⟨-, hdeliver⟩ | ⟨-, ⟨e, m, -, hdeliver⟩ | ⟨-, hdeliver⟩⟩ := deliver_cases r envelope db₁
  · rw [hdeliver]
    exact h.congr (writeAliasesIfSafe_nextId ..).ge (completeSentConfirmation_jobs ..)
  · rw [hdeliver]
    exact h.enqueueJob ..
  · rw [hdeliver]
    exact h.reserve ..

end JobsGrow

section

variable [PyText] {env : Env} {op : Op} {a : Ans op}

theorem jobsGrow (h : Effect env db op a db') : JobsGrow db db' := by
  have hsame := JobsGrow.refl db
  cases h with
  | idle => exact hsame
  | @leased row hrow hclaim =>
      refine .of_isSome (Nat.le_succ _) fun j hj => ?_
      by_cases hpicked : j = env.picked
      · rw [hpicked, hrow]
        rfl
      · rwa [Dict.get?_set_of_ne _ hpicked] at hj
  | reapedInvalid => exact .modify le_rfl (finish_jobs ..)
  | reapedReview => exact .modify le_rfl (closeJob_jobs ..)
  | reapedRun =>
      exact .modify (setRunError_nextId ..).ge ((closeJob_jobs ..).trans (by rw [setRunError_jobs]))
  | reapedJob => exact .modify le_rfl (closeJob_jobs ..)
  | retired => exact .modify le_rfl (finish_jobs ..)
  | recorded =>
      exact .modify (settleSent_nextId ..).ge ((closeJob_jobs ..).trans (by rw [settleSent_jobs]))
  | expired => exact .modify le_rfl (finish_jobs ..)
  | @sent job result row r e m run i handoff =>
      have hjobs : (settleSent r e m.purpose (appendDeliveryAttempt e .sent .none
          (releaseHandoff i .finalized db))).jobs = db.jobs := settleSent_jobs ..
      have hnext : (settleSent r e m.purpose (appendDeliveryAttempt e .sent .none
          (releaseHandoff i .finalized db))).nextId = db.nextId := settleSent_nextId ..
      exact .modify hnext.ge ((closeJob_jobs ..).trans (by rw [hjobs]))
  | rescheduled => exact .modify le_rfl (modifyJob_jobs ..)
  | reviewed => exact .modify le_rfl (finish_jobs ..)
  | closed => exact .modify le_rfl (modifyJob_jobs ..)
  | requeued => exact .modify le_rfl (modifyJob_jobs ..)
  | failed =>
      exact .modify (setRunError_nextId ..).ge ((finish_jobs ..).trans (by rw [setRunError_jobs]))
  | released =>
      refine .of_isSome le_rfl fun j hj => ?_
      rwa [releaseLeases, Dict.get?_updateWhere, Option.isSome_map] at hj
  | handedOver => exact hsame.congr (Nat.le_succ _) rfl
  | handedAgain => exact hsame
  | adopted => exact hsame.congr le_rfl rfl
  | claimed => exact hsame.congr le_rfl rfl
  | statusSet => exact hsame.congr le_rfl rfl
  | rewound => exact hsame.congr le_rfl rfl
  | consumed => exact hsame.congr le_rfl rfl
  | fieldsSet => exact hsame.congr le_rfl rfl
  | candidatesSet => exact hsame.congr le_rfl rfl
  | persisted => exact hsame.congr (persistStages_nextId ..).ge (persistStages_jobs ..)
  | escalated => exact hsame.congr le_rfl rfl
  | finalized => exact hsame.congr le_rfl rfl
  | @replayed r e =>
      have hqueued : JobsGrow db (enqueueSend r e db) := hsame.enqueueJob ..
      exact hqueued.congr le_rfl rfl
  | reserved => exact .reserveClarification ..
  | redelivered => exact hsame.authorizedReplyJob ..
  | unknown => exact hsame.congr (Nat.le_succ _) rfl
  | @created mail businessId =>
      have hinserted : JobsGrow db
          ((stored mail db).insertRun (Run.created businessId db.nextId db.now)) :=
        hsame.congr ((Nat.le_succ _).trans (Nat.le_succ _)) rfl
      exact hinserted.enqueueJob ..
  | late => exact hsame.congr (Nat.le_succ _) rfl
  | @replied mail r =>
      have hlinked : JobsGrow db (linkEmailToRun db.nextId r (stored mail db)) :=
        hsame.congr (Nat.le_succ _) rfl
      exact hlinked.authorizedReplyJob ..
  | prepared => exact hsame.congr le_rfl rfl
  | @approved r =>
      have hset : JobsGrow db (setStatus r .approved db) := hsame.congr le_rfl rfl
      exact hset.deliver ..
  | errored => exact hsame.congr le_rfl rfl
  | @retriggered r run db₁ _ _ hclaim =>
      have hopened : JobsGrow db (db₁.modifyRun r (openEpoch db₁.now)) := by
        obtain ⟨rfl, -⟩ | ⟨rfl, -⟩ := hclaim
        · exact hsame.congr le_rfl rfl
        · exact hsame.congr le_rfl rfl
      exact hopened.enqueueJob ..
  | markedDelivered _ hresolve =>
      obtain ⟨handoffs, rfl⟩ := resolve_frame hresolve
      exact hsame.congr le_rfl rfl
  | @authorizedNew r e m db₁ _ hresolve =>
      have hopened : JobsGrow db (db₁.modifyRun r (openEpoch db₁.now)) := by
        obtain ⟨handoffs, rfl⟩ := resolve_frame hresolve
        exact hsame.congr le_rfl rfl
      exact hopened.reserve ..
  | @finishedReview r e m target acknowledge =>
      cases acknowledge <;> exact hsame.congr le_rfl rfl
  | advanced => exact .modify le_rfl (modifyJob_jobs ..)
  | @resolved r overrides remember g =>
      have hdrawn : JobsGrow db
          { db with nextId := db.nextId + 1, resolutions := db.resolutions.set db.nextId g } :=
        hsame.congr (Nat.le_succ _) rfl
      exact hdrawn.enqueueJob ..
  | passed => exact hsame.congr le_rfl rfl

/-- A lease that was drawn before still shows after a step only if it did before. -/
theorem lockedJob_back {job : Job} {row' : JobRow} (h : Effect env db op a db')
    (hfresh : FreshIds.Fresh db)
    (hdrawn : job.leaseToken < db.nextId) (hlocked : lockedJob db' job = some row') :
    lockedJob db job = some row' := by
  obtain ⟨hrow', hleased, htoken⟩ := lockedJob_some hlocked
  have hgone : ∀ {row : JobRow} {state : JobState}, ¬ Unleased db.now state row row' := by
    rintro row state ⟨availableAt, lastError, rfl⟩
    cases htoken
  cases hrow : db.jobs.get? job.id with
  | none =>
      obtain hold | henqueued := (jobsGrow h).jobs _ _ hrow'
      · rw [hrow] at hold
        cases hold
      · rw [henqueued.state] at hleased
        cases hleased
  | some row =>
      obtain ⟨row'', hrow'', hstep⟩ := jobStep h hfresh hrow
      obtain rfl : row' = row'' := Option.some.inj (hrow'.symm.trans hrow'')
      cases hstep with
      | kept =>
          rw [lockedJob, hrow]
          exact Option.filter_eq_some_iff.mpr ⟨rfl, by simp [hleased, htoken]⟩
      | leased =>
          have hnew : some db.nextId = some job.leaseToken := htoken
          rw [← Option.some.inj hnew] at hdrawn
          exact absurd hdrawn (Nat.lt_irrefl _)
      | reapedInvalid _ _ _ _ hgave => exact absurd hgave hgone
      | reapedReview _ _ _ hgave => exact absurd hgave hgone
      | reapedOther _ hgave => exact absurd hgave hgone
      | retired _ _ _ hgave => exact absurd hgave hgone
      | settled _ _ _ _ hgave => exact absurd hgave hgone
      | closed _ _ _ _ hgave => exact absurd hgave hgone
      | released => exact absurd ⟨_, _, rfl⟩ hgone
      | advanced hstate =>
          have hpending : row.state = .leased := hleased
          rw [hstate] at hpending
          cases hpending

end

end PayrollAgent.NewJobs
