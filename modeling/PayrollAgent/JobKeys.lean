import PayrollAgent.NewJobs

namespace PayrollAgent.JobKeys

open Lib Repo AliasLearning RunStages Delivery RunRoutes ClarificationWrites Ingest Effects FreshIds
  JobSteps NewJobs

inductive Enqueues :
    JobKind → DedupKey → (runId emailId operatorResolutionId eventId : Option Uuid) → Prop
  | runPipeline (r epoch : Nat) : Enqueues .runPipeline (.runPipeline r epoch) (some r) none none none
  | resumeReply (r e : Uuid) : Enqueues .resumeReply (.resumeReply r e) (some r) (some e) none none
  | operatorResume (r g : Uuid) : Enqueues .operatorResume (.operatorResume r g) (some r) none
      (some g) none
  | sendOutbound (r e : Uuid) : Enqueues .sendOutbound (.sendOutbound e) (some r) (some e) none none
  | ingest (eventId : Uuid) : Enqueues .ingest (.ingest eventId) none none none (some eventId)

def Keyed (row : JobRow) : Prop :=
  Enqueues row.kind row.dedupKey row.runId row.emailId row.operatorResolutionId row.eventId

/-- The columns that are never written again. -/
structure SameKey (row row' : JobRow) : Prop where
  dedupKey : row'.dedupKey = row.dedupKey
  kind : row'.kind = row.kind
  runId : row'.runId = row.runId
  emailId : row'.emailId = row.emailId
  operatorResolutionId : row'.operatorResolutionId = row.operatorResolutionId
  eventId : row'.eventId = row.eventId

theorem SameKey.refl (row : JobRow) : SameKey row row := ⟨rfl, rfl, rfl, rfl, rfl, rfl⟩

theorem SameKey.keyed {row row' : JobRow} (h : SameKey row row') (hrow : Keyed row) : Keyed row' := by
  rw [Keyed, h.dedupKey, h.kind, h.runId, h.emailId, h.operatorResolutionId, h.eventId]
  exact hrow

/-- What a committed transaction does to the jobs. -/
inductive JobsWrite (db db' : Db) : Prop
  | mapped {f : Uuid → JobRow → JobRow} (h : ∀ j, db'.jobs.get? j = (db.jobs.get? j).map (f j))
      (hf : ∀ j row, SameKey row (f j row))
  | enqueued {j : Uuid} {row' : JobRow} (h : db'.jobs = db.jobs.set j row') (hnew : db.jobs.get? j = none)
      (hkeyed : Keyed row') (hrow' : Enqueued row') (hkind : row'.kind ≠ .ingest)
      (hfree : ∀ i row, db.jobs.get? i = some row → row.dedupKey ≠ row'.dedupKey)

variable {db db' db₁ : Db}

namespace JobsWrite

theorem same (h : db'.jobs = db.jobs) : JobsWrite db db' := by
  refine .mapped (f := fun _ row => row) (fun j => ?_) fun j row => .refl row
  rw [h, Option.map_id']

theorem modify {k : Uuid} {f : JobRow → JobRow} (h : db'.jobs = db.jobs.modify k f)
    (hf : ∀ row, SameKey row (f row)) : JobsWrite db db' := by
  refine .mapped (f := fun j row => if j = k then f row else row) (fun j => ?_) fun j row => ?_
  · rw [h, Dict.get?_modify]
    by_cases hj : j = k
    · simp only [if_pos hj]
    · simp only [if_neg hj, Option.map_id']
  · split
    · exact hf row
    · exact .refl row

theorem congr (h : JobsWrite db db₁) (hjobs : db'.jobs = db₁.jobs) : JobsWrite db db' := by
  cases h with
  | mapped h hf => exact .mapped (fun j => by rw [hjobs, h]) hf
  | enqueued h hnew hkeyed hrow' hkind hfree =>
      exact .enqueued (hjobs.trans h) hnew hkeyed hrow' hkind hfree

theorem enqueueJob {kind : JobKind} {dedupKey : DedupKey}
    {runId emailId operatorResolutionId eventId : Option Uuid} (hfresh : Fresh db)
    (hnext : db.nextId ≤ db₁.nextId) (hjobs : db₁.jobs = db.jobs)
    (hkeyed : Enqueues kind dedupKey runId emailId operatorResolutionId eventId)
    (hkind : kind ≠ .ingest) :
    JobsWrite db (enqueueJob kind dedupKey runId emailId operatorResolutionId eventId db₁) := by
  unfold Repo.enqueueJob
  split
  · exact .same hjobs
  next hnone =>
    refine .enqueued (j := db₁.nextId) (congrArg (Dict.set · _ _) hjobs) (hfresh.jobs _ hnext) hkeyed
      ⟨rfl, rfl, rfl, rfl, rfl⟩ hkind fun i row hrow hsame => ?_
    have hother := Dict.select_none.mp hnone i row (by rwa [hjobs])
    rw [decide_eq_false_iff_not] at hother
    exact hother hsame

theorem authorizedReplyJob (hfresh : Fresh db) (hnext : db.nextId ≤ db₁.nextId)
    (hjobs : db₁.jobs = db.jobs)
    (mail : InboundMail) (r e : Uuid) : JobsWrite db (authorizedReplyJob mail r e db₁) := by
  obtain hsame | ⟨-, hqueued⟩ := authorizedReplyJob_cases mail r e db₁
  · rw [hsame]
    exact .same hjobs
  · rw [hqueued]
    exact .enqueueJob hfresh hnext hjobs (.resumeReply r e) (by decide)

theorem reserve (hfresh : Fresh db) (hnext : db.nextId ≤ db₁.nextId) (hjobs : db₁.jobs = db.jobs)
    (r : Uuid) (purpose : Purpose) (round : Nat) (envelope : Envelope) (e : Uuid) :
    JobsWrite db (enqueueSend r e (reserveOutboundSnapshot r purpose round envelope db₁).2) :=
  .enqueueJob hfresh (hnext.trans (reserveOutboundSnapshot_nextId ..))
    ((reserveOutboundSnapshot_jobs ..).trans hjobs) (.sendOutbound r e) (by decide)

theorem reserveClarification (hfresh : Fresh db) (r : Uuid) (q : Question) :
    JobsWrite db (reserveClarification r q db) := by
  have hqueued := reserve hfresh le_rfl rfl r q.purpose q.round q.envelope
    (reserveOutboundSnapshot r q.purpose q.round q.envelope db).1
  obtain ⟨runs, hframe⟩ := reserveClarification_frame r q db
  rw [hframe]
  exact hqueued.congr rfl

theorem deliver [PyText] (hfresh : Fresh db) (hnext : db.nextId ≤ db₁.nextId) (hjobs : db₁.jobs = db.jobs)
    (r : Uuid) (envelope : Envelope) : JobsWrite db (deliver r envelope db₁) := by
  obtain ⟨-, hdeliver⟩ | ⟨-, ⟨e, m, -, hdeliver⟩ | ⟨-, hdeliver⟩⟩ := deliver_cases r envelope db₁
  · rw [hdeliver]
    exact .same ((completeSentConfirmation_jobs ..).trans hjobs)
  · rw [hdeliver]
    exact .enqueueJob hfresh hnext hjobs (.sendOutbound r e) (by decide)
  · rw [hdeliver]
    exact reserve hfresh hnext hjobs ..

end JobsWrite

theorem SameKey.unlease (row : JobRow) (state : JobState) (availableAt : Nat)
    (lastError : Option LastError)
    (now : Nat) : SameKey row (unlease row state availableAt lastError now) :=
    ⟨rfl, rfl, rfl, rfl, rfl, rfl⟩

section

variable [PyText] {env : Env} {op : Op} {a : Ans op}

theorem jobsWrite (h : Effect env db op a db') (hfresh : Fresh db) : JobsWrite db db' := by
  cases h with
  | idle => exact .same rfl
  | @leased row hrow hclaim =>
      refine .mapped (f := fun j row => if j = env.picked then leaseTo row db.nextId db.now else row)
        (fun j => ?_) fun j row => ?_
      · by_cases hj : j = env.picked
        · simp only [hj, if_true, Dict.get?_set_self, hrow, Option.map_some]
        · simp only [hj, if_false, Dict.get?_set_of_ne _ hj, Option.map_id']
      · split
        · exact ⟨rfl, rfl, rfl, rfl, rfl, rfl⟩
        · exact .refl row
  | reapedInvalid => exact .modify (finish_jobs ..) fun _ => .unlease ..
  | reapedReview => exact .modify (closeJob_jobs ..) fun _ => .unlease ..
  | reapedRun => exact .modify ((closeJob_jobs ..).trans (by rw [setRunError_jobs])) fun _ => .unlease ..
  | reapedJob => exact .modify (closeJob_jobs ..) fun _ => .unlease ..
  | retired => exact .modify (finish_jobs ..) fun _ => .unlease ..
  | recorded => exact .modify ((closeJob_jobs ..).trans (by rw [settleSent_jobs])) fun _ => .unlease ..
  | expired => exact .modify (finish_jobs ..) fun _ => .unlease ..
  | @sent job result row r e m run i handoff =>
      have hjobs : (settleSent r e m.purpose (appendDeliveryAttempt e .sent .none
          (releaseHandoff i .finalized db))).jobs = db.jobs := settleSent_jobs ..
      exact .modify ((closeJob_jobs ..).trans (by rw [hjobs])) fun _ => .unlease ..
  | rescheduled => exact .modify (modifyJob_jobs ..) fun _ => .unlease ..
  | reviewed => exact .modify (finish_jobs ..) fun _ => .unlease ..
  | closed => exact .modify (modifyJob_jobs ..) fun _ => .unlease ..
  | requeued => exact .modify (modifyJob_jobs ..) fun _ => .unlease ..
  | failed => exact .modify ((finish_jobs ..).trans (by rw [setRunError_jobs])) fun _ => .unlease ..
  | @released tokens =>
      refine .mapped (fun j => Dict.get?_updateWhere ..) fun j row => ?_
      split
      · exact ⟨rfl, rfl, rfl, rfl, rfl, rfl⟩
      · exact .refl row
  | handedOver => exact .same rfl
  | handedAgain => exact .same rfl
  | adopted => exact .same rfl
  | claimed => exact .same rfl
  | statusSet => exact .same rfl
  | rewound => exact .same rfl
  | consumed => exact .same rfl
  | fieldsSet => exact .same rfl
  | candidatesSet => exact .same rfl
  | persisted => exact .same (persistStages_jobs ..)
  | escalated => exact .same rfl
  | finalized => exact .same rfl
  | @replayed r e =>
      have hqueued : JobsWrite db (enqueueSend r e db) :=
        .enqueueJob hfresh le_rfl rfl (.sendOutbound r e) (by decide)
      exact hqueued.congr rfl
  | reserved => exact .reserveClarification hfresh ..
  | redelivered => exact .authorizedReplyJob hfresh le_rfl rfl ..
  | unknown => exact .same rfl
  | created =>
      exact .enqueueJob hfresh ((Nat.le_succ _).trans (Nat.le_succ _)) rfl (.runPipeline _ _)
        (by decide)
  | late => exact .same rfl
  | @replied mail r =>
      have hnext : db.nextId ≤ (linkEmailToRun db.nextId r (stored mail db)).nextId := Nat.le_succ _
      exact .authorizedReplyJob hfresh hnext rfl ..
  | prepared => exact .same rfl
  | @approved r =>
      have hnext : db.nextId ≤ (setStatus r .approved db).nextId := le_rfl
      exact .deliver hfresh hnext rfl ..
  | errored => exact .same rfl
  | @retriggered r run db₁ _ _ hclaim =>
      obtain ⟨rfl, -⟩ | ⟨rfl, -⟩ := hclaim
      · exact .enqueueJob hfresh le_rfl rfl (.runPipeline _ _) (by decide)
      · exact .enqueueJob hfresh le_rfl rfl (.runPipeline _ _) (by decide)
  | markedDelivered _ hresolve =>
      obtain ⟨handoffs, rfl⟩ := resolve_frame hresolve
      exact .same rfl
  | @authorizedNew r e m db₁ _ hresolve =>
      have hopened : (db₁.modifyRun r (openEpoch db₁.now)).jobs = db.jobs ∧ db₁.nextId = db.nextId := by
        obtain ⟨handoffs, rfl⟩ := resolve_frame hresolve
        exact ⟨rfl, rfl⟩
      have hnext : db.nextId ≤ (db₁.modifyRun r (openEpoch db₁.now)).nextId := hopened.2.ge
      exact .reserve hfresh hnext hopened.1 ..
  | @finishedReview r e m target acknowledge =>
      cases acknowledge <;> exact .same rfl
  | advanced => exact .modify (modifyJob_jobs ..) fun _ => ⟨rfl, rfl, rfl, rfl, rfl, rfl⟩
  | resolved => exact .enqueueJob hfresh (Nat.le_succ _) rfl (.operatorResume _ _) (by decide)
  | passed => exact .same rfl

end

/-- The unique index over the dedup keys, which name the columns of their rows. -/
structure UniqueKeys (db : Db) : Prop where
  keyed : ∀ j row, db.jobs.get? j = some row → Keyed row
  unique : ∀ i j row row', db.jobs.get? i = some row → db.jobs.get? j = some row' →
    row.dedupKey = row'.dedupKey → i = j

theorem JobsWrite.stays {j : Uuid} {row : JobRow} (h : JobsWrite db db')
    (hrow : db.jobs.get? j = some row) : ∃ row', db'.jobs.get? j = some row' ∧ SameKey row row' := by
  cases h with
  | @mapped f h hf => exact ⟨f j row, by rw [h, hrow, Option.map_some], hf j row⟩
  | @enqueued k row' h hnew =>
      have hne : j ≠ k := by
        rintro rfl
        rw [hnew] at hrow
        cases hrow
      exact ⟨row, by rw [h, Dict.get?_set_of_ne _ hne, hrow], .refl row⟩

theorem JobsWrite.uniqueKeys (h : JobsWrite db db') (hkeys : UniqueKeys db) : UniqueKeys db' := by
  cases h with
  | mapped h hf =>
      constructor
      · intro j row' hrow'
        rw [h] at hrow'
        obtain ⟨row, hrow, rfl⟩ := Option.map_eq_some_iff.mp hrow'
        exact (hf j row).keyed (hkeys.keyed j row hrow)
      · intro i j row₁ row₂ hi hj hsame
        rw [h] at hi hj
        obtain ⟨row, hrow, rfl⟩ := Option.map_eq_some_iff.mp hi
        obtain ⟨row', hrow', rfl⟩ := Option.map_eq_some_iff.mp hj
        rw [(hf i row).dedupKey, (hf j row').dedupKey] at hsame
        exact hkeys.unique i j row row' hrow hrow' hsame
  | @enqueued k new h hnew hkeyed hrow' hkind hfree =>
      constructor
      · intro j row hrow
        rw [h, Dict.get?_set] at hrow
        split at hrow
        · cases hrow
          exact hkeyed
        · exact hkeys.keyed j row hrow
      · intro i j row₁ row₂ hi hj hsame
        rw [h, Dict.get?_set] at hi hj
        split at hi
        next hik =>
          cases hi
          split at hj
          next hjk => rw [hik, hjk]
          · exact absurd hsame.symm (hfree j row₂ hj)
        next hik =>
          split at hj
          next hjk =>
            cases hj
            exact absurd hsame (hfree i row₁ hi)
          · exact hkeys.unique i j row₁ row₂ hi hj hsame

theorem UniqueKeys.send_unique {i j e : Uuid} {row row' : JobRow} (h : UniqueKeys db)
    (hi : db.jobs.get? i = some row)
    (hj : db.jobs.get? j = some row') (hkind : row.kind = .sendOutbound)
    (hkind' : row'.kind = .sendOutbound)
    (hmail : row.emailId = some e) (hmail' : row'.emailId = some e) : i = j := by
  have hkey : ∀ {row : JobRow}, Keyed row → row.kind = .sendOutbound → row.emailId = some e →
      row.dedupKey = .sendOutbound e := by
    intro row hkeyed hkind hmail
    unfold Keyed at hkeyed
    rw [hkind, hmail] at hkeyed
    generalize row.dedupKey = key, row.runId = r, row.operatorResolutionId = g, row.eventId = v at hkeyed
    cases hkeyed
    rfl
  exact h.unique i j row row' hi hj
    ((hkey (h.keyed i row hi) hkind hmail).trans (hkey (h.keyed j row' hj) hkind' hmail').symm)

theorem uniqueKeys_exec [PyText] (env : Env) (op : Op) (hfresh : Fresh db) (h : UniqueKeys db) :
    UniqueKeys (exec env op db).2 := by
  apply exec_preserves h
  intro answer db' htxn
  exact (jobsWrite (txn_effect htxn) hfresh).uniqueKeys h

end PayrollAgent.JobKeys
