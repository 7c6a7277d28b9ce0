import PayrollAgent.JobSteps

namespace PayrollAgent.ReplyJobs

open Lib Repo AliasLearning RunStages Delivery RunRoutes ClarificationWrites Ingest Effects RunSteps
  FreshIds JobSteps

def RepliesStored (db : Db) : Prop :=
  ∀ j row, db.jobs.get? j = some row → row.kind = .resumeReply →
    ∃ e, row.emailId = some e ∧ (db.inbound.get? e).isSome

variable {db db' : Db}

namespace RepliesStored

theorem mono (h : RepliesStored db)
    (hin : ∀ e, (db.inbound.get? e).isSome → (db'.inbound.get? e).isSome)
    (hjobs : ∀ j row', db'.jobs.get? j = some row' →
      ∃ row, db.jobs.get? j = some row ∧ row.kind = row'.kind ∧ row.emailId = row'.emailId) :
    RepliesStored db' := by
  intro j row' hrow' hkind
  obtain ⟨row, hrow, hsame, hmail⟩ := hjobs j row' hrow'
  obtain ⟨e, he, hstored⟩ := h j row hrow (hsame.trans hkind)
  exact ⟨e, hmail.symm.trans he, hin e hstored⟩

theorem congr (h : RepliesStored db) (hjobs : db'.jobs = db.jobs) (hin : db'.inbound = db.inbound) :
    RepliesStored db' :=
  h.mono (fun e => by rw [hin]; exact id) fun j row' hrow' => ⟨row', by rw [← hjobs, hrow'], rfl, rfl⟩

theorem modify (h : RepliesStored db) {k : Uuid} {f : JobRow → JobRow}
    (hjobs : db'.jobs = db.jobs.modify k f) (hin : db'.inbound = db.inbound)
    (hf : ∀ row, (f row).kind = row.kind ∧ (f row).emailId = row.emailId) : RepliesStored db' := by
  refine h.mono (fun e => by rw [hin]; exact id) fun j row' hrow' => ?_
  rw [hjobs, Dict.get?_modify] at hrow'
  split at hrow'
  · obtain ⟨row, hrow, rfl⟩ := Option.map_eq_some_iff.mp hrow'
    exact ⟨row, hrow, (hf row).1.symm, (hf row).2.symm⟩
  · exact ⟨row', hrow', rfl, rfl⟩

theorem enqueueJob (h : RepliesStored db) (kind : JobKind) (dedupKey : DedupKey)
    (runId emailId operatorResolutionId eventId : Option Uuid)
    (hnew : kind = .resumeReply → ∃ e, emailId = some e ∧ (db.inbound.get? e).isSome) :
    RepliesStored (enqueueJob kind dedupKey runId emailId operatorResolutionId eventId db) := by
  unfold Repo.enqueueJob
  split
  · exact h
  · intro j row hrow hkind
    rw [Db.insertJob, Dict.get?_set] at hrow
    split at hrow
    · cases hrow
      exact hnew hkind
    · exact h j row hrow hkind

theorem enqueueSend (h : RepliesStored db) (r e : Uuid) : RepliesStored (enqueueSend r e db) :=
  h.enqueueJob _ _ _ _ _ _ (by simp)

theorem reserveOutboundSnapshot (h : RepliesStored db) (r : Uuid) (purpose : Purpose) (round : Nat)
    (envelope : Envelope) : RepliesStored (reserveOutboundSnapshot r purpose round envelope db).2 :=
  h.congr (reserveOutboundSnapshot_jobs ..) (reserveOutboundSnapshot_inbound ..)

theorem authorizedReplyJob (h : RepliesStored db) (mail : InboundMail) (r e : Uuid)
    (hstored : (db.inbound.get? e).isSome) : RepliesStored (authorizedReplyJob mail r e db) := by
  obtain hsame | ⟨-, hqueued⟩ := authorizedReplyJob_cases mail r e db
  · rwa [hsame]
  · rw [hqueued]
    exact h.enqueueJob _ _ _ _ _ _ fun _ => ⟨e, rfl, hstored⟩

theorem reserveClarification (h : RepliesStored db) (r : Uuid) (q : Question) :
    RepliesStored (reserveClarification r q db) := by
  have hqueued := (h.reserveOutboundSnapshot r q.purpose q.round q.envelope).enqueueSend r
    (Repo.reserveOutboundSnapshot r q.purpose q.round q.envelope db).1
  obtain ⟨runs, hframe⟩ := reserveClarification_frame r q db
  rw [hframe]
  exact hqueued.congr rfl rfl

theorem deliver [PyText] (h : RepliesStored db) (r : Uuid) (envelope : Envelope) :
    RepliesStored (deliver r envelope db) := by
  obtain ⟨-, hdeliver⟩ | ⟨-, ⟨e, m, -, hdeliver⟩ | ⟨-, hdeliver⟩⟩ := deliver_cases r envelope db
  · rw [hdeliver]
    exact h.congr (completeSentConfirmation_jobs ..) (completeSentConfirmation_inbound ..)
  · rw [hdeliver]
    exact h.enqueueSend r e
  · rw [hdeliver]
    exact (h.reserveOutboundSnapshot _ _ _ _).enqueueSend _ _

theorem stored (h : RepliesStored db) (hfresh : Fresh db) (mail : InboundMail) :
    RepliesStored (stored mail db) := by
  refine h.mono (fun e he => ?_) fun j row' hrow' => ⟨row', hrow', rfl, rfl⟩
  obtain ⟨row, hrow⟩ := Option.isSome_iff_exists.mp he
  exact Option.isSome_iff_exists.mpr ⟨row, hfresh.inbound.get?_set_next hrow⟩

theorem linkEmailToRun (h : RepliesStored db) (e r : Uuid) : RepliesStored (linkEmailToRun e r db) := by
  refine h.mono (fun k hk => ?_) fun j row' hrow' => ⟨row', hrow', rfl, rfl⟩
  rw [Repo.linkEmailToRun, Dict.get?_modify]
  split
  · rwa [Option.isSome_map]
  · exact hk

end RepliesStored

theorem stored_isSome (mail : InboundMail) (r : Uuid) :
    ((linkEmailToRun db.nextId r (stored mail db)).inbound.get? db.nextId).isSome := by
  rw [linkEmailToRun, stored, Db.insertInbound, Dict.get?_modify, if_pos rfl, Dict.get?_set_self]
  rfl

section

variable [PyText] {env : Env} {op : Op} {a : Ans op}

theorem repliesStored_step (h : Effect env db op a db') (hfresh : Fresh db) (hs : RepliesStored db) :
    RepliesStored db' := by
  cases h with
  | idle => exact hs
  | @leased row hrow hclaim =>
      refine hs.mono (fun _ => id) fun j row' hrow' => ?_
      rw [Dict.get?_set] at hrow'
      split at hrow'
      next hj =>
        cases hrow'
        exact ⟨row, hj ▸ hrow, rfl, rfl⟩
      · exact ⟨row', hrow', rfl, rfl⟩
  | reapedInvalid => exact hs.modify (finish_jobs ..) rfl fun _ => ⟨rfl, rfl⟩
  | reapedReview => exact hs.modify (closeJob_jobs ..) rfl fun _ => ⟨rfl, rfl⟩
  | reapedRun =>
      exact (hs.congr (setRunError_jobs ..) (setRunError_inbound ..)).modify (closeJob_jobs ..) rfl
        fun _ => ⟨rfl, rfl⟩
  | reapedJob => exact hs.modify (closeJob_jobs ..) rfl fun _ => ⟨rfl, rfl⟩
  | retired => exact hs.modify (finish_jobs ..) rfl fun _ => ⟨rfl, rfl⟩
  | @recorded job result row r e m =>
      have hsent : RepliesStored (settleSent r e m.purpose db) :=
        hs.congr (settleSent_jobs ..) (settleSent_inbound ..)
      exact hsent.modify (closeJob_jobs ..) rfl fun _ => ⟨rfl, rfl⟩
  | expired => exact hs.modify (finish_jobs ..) rfl fun _ => ⟨rfl, rfl⟩
  | @sent job result row r e m run i handoff =>
      have hsent : RepliesStored (settleSent r e m.purpose (appendDeliveryAttempt e .sent .none
          (releaseHandoff i .finalized db))) :=
        hs.congr (settleSent_jobs ..) (settleSent_inbound ..)
      exact hsent.modify (closeJob_jobs ..) rfl fun _ => ⟨rfl, rfl⟩
  | rescheduled => exact hs.modify (modifyJob_jobs ..) rfl fun _ => ⟨rfl, rfl⟩
  | reviewed => exact hs.modify (finish_jobs ..) rfl fun _ => ⟨rfl, rfl⟩
  | closed => exact hs.modify (modifyJob_jobs ..) rfl fun _ => ⟨rfl, rfl⟩
  | requeued => exact hs.modify (modifyJob_jobs ..) rfl fun _ => ⟨rfl, rfl⟩
  | failed =>
      exact (hs.congr (setRunError_jobs ..) (setRunError_inbound ..)).modify (finish_jobs ..) rfl
        fun _ => ⟨rfl, rfl⟩
  | @released tokens =>
      refine hs.mono (fun _ => id) fun j row' hrow' => ?_
      rw [releaseLeases, Dict.get?_updateWhere] at hrow'
      obtain ⟨row, hrow, rfl⟩ := Option.map_eq_some_iff.mp hrow'
      refine ⟨row, hrow, ?_⟩
      split
      · exact ⟨rfl, rfl⟩
      · exact ⟨rfl, rfl⟩
  | handedOver => exact hs.congr rfl rfl
  | handedAgain => exact hs
  | adopted => exact hs.congr rfl rfl
  | claimed => exact hs.congr rfl rfl
  | statusSet => exact hs.congr rfl rfl
  | rewound => exact hs.congr rfl rfl
  | consumed =>
      refine hs.mono (fun e he => ?_) fun j row' hrow' => ⟨row', hrow', rfl, rfl⟩
      rw [markReplyConsumed, Dict.get?_updateWhere, Option.isSome_map]
      exact he
  | fieldsSet => exact hs.congr rfl rfl
  | candidatesSet => exact hs.congr rfl rfl
  | persisted => exact hs.congr (persistStages_jobs ..) (persistStages_inbound ..)
  | escalated => exact hs.congr rfl rfl
  | finalized => exact hs.congr rfl rfl
  | @replayed r e => exact (hs.enqueueSend r e).congr rfl rfl
  | reserved => exact hs.reserveClarification _ _
  | redelivered hrow => exact hs.authorizedReplyJob _ _ _ (by rw [hrow]; rfl)
  | unknown => exact hs.stored hfresh _
  | @created mail businessId =>
      have hinserted : RepliesStored
          ((stored mail db).insertRun (Run.created businessId db.nextId db.now)) :=
        (hs.stored hfresh mail).congr rfl rfl
      exact hinserted.enqueueJob .runPipeline _ _ _ _ _ (fun hkind => by cases hkind)
  | @late mail r => exact (hs.stored hfresh mail).linkEmailToRun _ _
  | @replied mail r =>
      exact ((hs.stored hfresh mail).linkEmailToRun _ _).authorizedReplyJob _ _ _ (stored_isSome mail r)
  | prepared => exact hs.congr rfl rfl
  | @approved r =>
      have hset : RepliesStored (setStatus r .approved db) := hs.congr rfl rfl
      exact hset.deliver _ _
  | errored => exact hs.congr rfl rfl
  | @retriggered r run db₁ _ _ hclaim =>
      have hopened : RepliesStored (db₁.modifyRun r (openEpoch db₁.now)) := by
        obtain ⟨rfl, -⟩ | ⟨rfl, -⟩ := hclaim
        · exact hs.congr rfl rfl
        · exact hs.congr rfl rfl
      exact hopened.enqueueJob .runPipeline _ _ _ _ _ (fun hkind => by cases hkind)
  | markedDelivered _ hresolve =>
      obtain ⟨handoffs, rfl⟩ := resolve_frame hresolve
      exact hs.congr rfl rfl
  | @authorizedNew r e m db₁ _ hresolve =>
      have hopened : RepliesStored (db₁.modifyRun r (openEpoch db₁.now)) := by
        obtain ⟨handoffs, rfl⟩ := resolve_frame hresolve
        exact hs.congr rfl rfl
      exact (hopened.reserveOutboundSnapshot r .confirmation 0 m.snapshot.envelope).enqueueSend _ _
  | @finishedReview r e m target acknowledge =>
      cases acknowledge <;> exact hs.congr rfl rfl
  | advanced => exact hs.modify (modifyJob_jobs ..) rfl fun _ => ⟨rfl, rfl⟩
  | @resolved r overrides remember g =>
      have hdrawn : RepliesStored
          { db with nextId := db.nextId + 1, resolutions := db.resolutions.set db.nextId g } :=
        hs.congr rfl rfl
      exact hdrawn.enqueueJob .operatorResume _ _ _ _ _ (fun hkind => by cases hkind)
  | passed => exact hs.congr rfl rfl

end

end PayrollAgent.ReplyJobs
