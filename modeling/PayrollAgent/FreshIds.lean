import PayrollAgent.Effects
import PayrollAgent.Notes

namespace PayrollAgent.FreshIds

open Lib Repo AliasLearning RunStages Delivery RunRoutes ClarificationWrites Ingest Effects

structure Fresh (db : Db) : Prop where
  runs : db.runs.Below db.nextId
  inbound : db.inbound.Below db.nextId
  outbound : db.outbound.Below db.nextId
  jobs : db.jobs.Below db.nextId
  handoffs : db.handoffs.Below db.nextId

variable {db db' : Db}

namespace Fresh

theorem of_keys (h : (∀ r ∈ db.runs.keys, r < db.nextId) ∧ (∀ e ∈ db.inbound.keys, e < db.nextId) ∧
    (∀ e ∈ db.outbound.keys, e < db.nextId) ∧ (∀ j ∈ db.jobs.keys, j < db.nextId) ∧
    ∀ i ∈ db.handoffs.keys, i < db.nextId) : Fresh db := by
  obtain ⟨hruns, hinbound, houtbound, hjobs, hhandoffs⟩ := h
  exact ⟨Dict.below_of_keys hruns, Dict.below_of_keys hinbound, Dict.below_of_keys houtbound,
    Dict.below_of_keys hjobs, Dict.below_of_keys hhandoffs⟩

theorem modifyRun (h : Fresh db) (r : Uuid) (f : Run → Run) : Fresh (db.modifyRun r f) :=
  { h with runs := h.runs.modify r f }

theorem modifyJob (h : Fresh db) (j : Uuid) (f : JobRow → JobRow) : Fresh (db.modifyJob j f) :=
  { h with jobs := h.jobs.modify j f }

theorem modifyOutbound (h : Fresh db) (e : Uuid) (f : Outbound → Outbound) :
    Fresh (db.modifyOutbound e f) :=
  { h with outbound := h.outbound.modify e f }

theorem modifyHandoff (h : Fresh db) (i : Uuid) (f : Handoff → Handoff) :
    Fresh (db.modifyHandoff i f) :=
  { h with handoffs := h.handoffs.modify i f }

theorem appendDeliveryAttempt (h : Fresh db) (e : Uuid) (s : AttemptState) (c : FailureCategory) :
    Fresh (appendDeliveryAttempt e s c db) :=
  { h with }

theorem draw (h : Fresh db) : Fresh { db with nextId := db.nextId + 1 } :=
  ⟨h.runs.mono (Nat.le_succ _), h.inbound.mono (Nat.le_succ _), h.outbound.mono (Nat.le_succ _),
    h.jobs.mono (Nat.le_succ _), h.handoffs.mono (Nat.le_succ _)⟩

theorem insertJob (h : Fresh db) (row : JobRow) : Fresh (db.insertJob row) :=
  { h.draw with jobs := h.draw.jobs.set (Nat.lt_succ_self _) row }

theorem insertHandoff (h : Fresh db) (row : Handoff) : Fresh (db.insertHandoff row) :=
  { h.draw with handoffs := h.draw.handoffs.set (Nat.lt_succ_self _) row }

theorem insertOutbound (h : Fresh db) (row : Outbound) : Fresh (db.insertOutbound row) :=
  { h.draw with outbound := h.draw.outbound.set (Nat.lt_succ_self _) row }

theorem insertInbound (h : Fresh db) (row : Inbound) : Fresh (db.insertInbound row) :=
  { h.draw with inbound := h.draw.inbound.set (Nat.lt_succ_self _) row }

theorem insertRun (h : Fresh db) (row : Run) : Fresh (db.insertRun row) :=
  { h.draw with runs := h.draw.runs.set (Nat.lt_succ_self _) row }

theorem enqueueJob (h : Fresh db) (kind : JobKind) (dedupKey : DedupKey)
    (runId emailId operatorResolutionId eventId : Option Uuid) :
    Fresh (enqueueJob kind dedupKey runId emailId operatorResolutionId eventId db) := by
  unfold Repo.enqueueJob
  split
  · exact h
  · exact h.insertJob _

theorem reserveOutboundSnapshot (h : Fresh db) (r : Uuid) (purpose : Purpose) (round : Nat)
    (envelope : Envelope) : Fresh (reserveOutboundSnapshot r purpose round envelope db).2 := by
  unfold Repo.reserveOutboundSnapshot
  split
  · exact h
  · exact h.draw.insertOutbound _

theorem setRunError (h : Fresh db) (r : Uuid) (reason : ErrorReason) (detail : ErrorDetail)
    (s : RunStatus) : Fresh (setRunError r reason detail s db).2 := by
  unfold Repo.setRunError
  split
  · exact h.modifyRun _ _
  · exact h

theorem stored (h : Fresh db) (mail : InboundMail) : Fresh (stored mail db) := h.insertInbound _

theorem linkEmailToRun (h : Fresh db) (e r : Uuid) : Fresh (linkEmailToRun e r db) :=
  { h with inbound := h.inbound.modify _ _ }

theorem authorizedReplyJob (h : Fresh db) (mail : InboundMail) (r e : Uuid) :
    Fresh (authorizedReplyJob mail r e db) := by
  obtain hsame | ⟨-, hqueued⟩ := authorizedReplyJob_cases mail r e db
  · rwa [hsame]
  · rw [hqueued]
    exact h.enqueueJob ..

theorem persistStages (h : Fresh db) (r : Uuid) (s : StageResult) : Fresh (persistStages r s db) := by
  unfold Repo.persistStages
  dsimp only
  split
  · exact (((h.modifyRun _ _).modifyRun _ _).modifyRun _ _).modifyRun _ _
  · exact h.modifyRun _ _

theorem pauseForReply (h : Fresh db) (r : Uuid) (round : Nat) (extracted : Extracted) :
    Fresh (pauseForReply r round extracted db) :=
  ((h.modifyRun _ _).modifyRun _ _).modifyRun _ _

theorem reserveClarification (h : Fresh db) (r : Uuid) (q : Question) :
    Fresh (reserveClarification r q db) := by
  have hqueued : Fresh (enqueueSend r
      (Repo.reserveOutboundSnapshot r q.purpose q.round q.envelope db).1
      (Repo.reserveOutboundSnapshot r q.purpose q.round q.envelope db).2) :=
    (h.reserveOutboundSnapshot ..).enqueueJob ..
  unfold ClarificationWrites.reserveClarification
  cases q.candidates with
  | none => exact hqueued.pauseForReply ..
  | some candidates => exact (hqueued.modifyRun _ _).pauseForReply ..

theorem resolve {r e : Uuid} {resolution : ReleaseReason} (h : Fresh db)
    (hresolve : resolveOutboundProviderHandoffForDeliveryReview r e resolution db = (true, db')) :
    Fresh db' := by
  obtain ⟨-, rfl⟩ | ⟨i, row, -, -, rfl⟩ := resolve_true hresolve
  · exact h
  · exact h.modifyHandoff _ _

section

variable [PyText]

theorem writeAliasesIfSafe (h : Fresh db) (r : Uuid) : Fresh (writeAliasesIfSafe r db) := by
  unfold Repo.writeAliasesIfSafe
  split
  · exact h
  · exact { h with }

theorem settleSent (h : Fresh db) (r e : Uuid) (purpose : Purpose) :
    Fresh (settleSent r e purpose db) := by
  have hsent : Fresh (markSent e db) := h.modifyOutbound _ _
  cases purpose with
  | confirmation => exact ((hsent.modifyRun _ _).writeAliasesIfSafe r).modifyRun _ _
  | clarification => exact hsent
  | clarificationFieldRegression => exact hsent

theorem deliver (h : Fresh db) (r : Uuid) (envelope : Envelope) : Fresh (deliver r envelope db) := by
  obtain ⟨-, hdeliver⟩ | ⟨-, ⟨e, m, -, hdeliver⟩ | ⟨-, hdeliver⟩⟩ := deliver_cases r envelope db
  · rw [hdeliver]
    exact ((h.writeAliasesIfSafe r).modifyRun _ _).modifyRun _ _
  · rw [hdeliver]
    exact h.enqueueJob ..
  · rw [hdeliver]
    exact (h.reserveOutboundSnapshot ..).enqueueJob ..

end

end Fresh

section

variable [PyText] {env : Env} {op : Op} {a : Ans op}

theorem fresh_step (h : Effect env db op a db') (hf : Fresh db) : Fresh db' := by
  cases h with
  | idle => exact hf
  | leased hrow =>
      exact { hf.draw with jobs := hf.draw.jobs.set ((hf.jobs.lt hrow).trans (Nat.lt_succ_self _)) _ }
  | reapedInvalid => exact hf.modifyJob _ _
  | reapedReview =>
      exact (((hf.modifyHandoff _ _).appendDeliveryAttempt _ _ _).modifyRun _ _).modifyJob _ _
  | reapedRun => exact (hf.setRunError ..).modifyJob _ _
  | reapedJob => exact hf.modifyJob _ _
  | retired => exact hf.modifyJob _ _
  | recorded => exact (hf.settleSent ..).modifyJob _ _
  | expired => exact ((hf.appendDeliveryAttempt _ _ _).modifyRun _ _).modifyJob _ _
  | sent =>
      exact (((hf.modifyHandoff _ _).appendDeliveryAttempt _ _ _).settleSent ..).modifyJob _ _
  | rescheduled => exact ((hf.modifyHandoff _ _).appendDeliveryAttempt _ _ _).modifyJob _ _
  | reviewed =>
      exact (((hf.modifyHandoff _ _).appendDeliveryAttempt _ _ _).modifyRun _ _).modifyJob _ _
  | closed => exact hf.modifyJob _ _
  | requeued => exact (hf.modifyRun _ _).modifyJob _ _
  | failed => exact (hf.setRunError ..).modifyJob _ _
  | released => exact { hf with jobs := hf.jobs.updateWhere _ _ }
  | handedOver => exact hf.insertHandoff _
  | handedAgain => exact hf
  | adopted => exact hf.modifyHandoff _ _
  | claimed => exact hf.modifyRun _ _
  | statusSet => exact hf.modifyRun _ _
  | rewound => exact hf.modifyRun _ _
  | consumed => exact { hf with inbound := hf.inbound.updateWhere _ _ }
  | fieldsSet => exact hf.modifyRun _ _
  | candidatesSet => exact hf.modifyRun _ _
  | persisted => exact hf.persistStages ..
  | escalated => exact hf.modifyRun _ _
  | finalized => exact hf.pauseForReply ..
  | replayed => exact (hf.enqueueJob ..).pauseForReply ..
  | reserved => exact hf.reserveClarification ..
  | redelivered => exact hf.authorizedReplyJob ..
  | unknown => exact hf.stored _
  | created => exact ((hf.stored _).insertRun _).enqueueJob ..
  | late => exact (hf.stored _).linkEmailToRun ..
  | replied => exact ((hf.stored _).linkEmailToRun ..).authorizedReplyJob ..
  | prepared => exact hf.modifyRun _ _
  | approved => exact (hf.modifyRun _ _).deliver ..
  | errored => exact hf.modifyRun _ _
  | retriggered _ _ hclaim =>
      obtain ⟨rfl, -⟩ | ⟨rfl, -⟩ := hclaim
      · exact (hf.modifyRun _ _).enqueueJob ..
      · exact ((hf.modifyRun _ _).modifyRun _ _).enqueueJob ..
  | markedDelivered _ hresolve => exact Fresh.resolve (hf.modifyRun _ _) hresolve
  | authorizedNew _ hresolve =>
      have hdb₁ := Fresh.resolve (hf.modifyRun _ _) hresolve
      exact ((hdb₁.modifyRun _ _).reserveOutboundSnapshot ..).enqueueJob ..
  | @finishedReview r e m target acknowledge =>
      cases acknowledge with
      | true => exact (hf.modifyRun _ _).modifyOutbound _ _
      | false => exact hf.modifyRun _ _
  | advanced => exact hf.modifyJob _ _
  | resolved =>
      refine Fresh.enqueueJob ?_ ..
      exact { hf.draw with }
  | passed => exact { hf with }

theorem fresh_exec (hf : Fresh db) : Fresh (exec env op db).2 := by
  apply exec_preserves hf
  intro a db' htxn
  exact fresh_step (txn_effect htxn) hf

end

end PayrollAgent.FreshIds
