import PayrollAgent.Commits
import PayrollAgent.JobKeys
import PayrollAgent.ReplyReads

namespace PayrollAgent.ReplyLeases

open Lib Repo AliasLearning RunStages Delivery RunRoutes ClarificationWrites Ingest Effects RunSteps
  FreshIds JobSteps NewJobs JobKeys EmailSteps Commits ReplyReads

def isOpen (row : JobRow) : Bool := row.state = .pending || row.state = .leased

def leaseBy (i : Nat) (c : Commit) : Option Job :=
  if c.thread = i then ReplyReads.leasedBy c.op (.ok c.answer) else none

def leaseOf (i : Nat) (log : List Commit) : Option Job := log.findSome? (leaseBy i)

structure Copied (job : Job) (db : Db) : Prop where
  row : ∃ row, db.jobs.get? job.id = some row ∧ row.kind = job.kind ∧ row.runId = job.runId ∧
    row.emailId = job.emailId
  drawn : job.leaseToken < db.nextId

/-- The rows that the mail and the source of a run were read from. -/
structure Later (d db : Db) : Prop where
  inbound : ∀ e m, d.inbound.get? e = some m →
    ∃ m', db.inbound.get? e = some m' ∧ m'.mail = m.mail ∧ m'.runId = m.runId ∧ m'.epoch = m.epoch
  source : ∀ r run, d.runs.get? r = some run →
    ∃ run', db.runs.get? r = some run' ∧ run'.sourceEmailId = run.sourceEmailId

variable {db db' db₁ d : Db} {i j r e : Uuid} {job : Job} {row row' : JobRow} {m : Inbound}
    {log : List Commit} {c : Commit}

theorem leaseBy_of_ne (h : c.thread ≠ i) : leaseBy i c = none := if_neg h

theorem leaseOf_cons (h : leaseBy i c = none) : leaseOf i (c :: log) = leaseOf i log :=
  List.findSome?_cons_of_isNone (by rw [h]; rfl)

theorem leaseOf_claim (h : leaseBy i c = some job) : leaseOf i (c :: log) = some job := by
  rw [leaseOf, List.findSome?_cons, h]

/-- A resume job is enqueued by no transaction but an ingest. -/
structure NoReply (db db' : Db) : Prop where
  old : ∀ j row', db'.jobs.get? j = some row' → row'.kind = .resumeReply → (db.jobs.get? j).isSome

namespace NoReply

theorem same (h : db'.jobs = db.jobs) : NoReply db db' := by
  refine ⟨fun j row' hrow' _ => ?_⟩
  rw [← h, hrow']
  rfl

theorem modify {k : Uuid} {f : JobRow → JobRow} (h : db'.jobs = db.jobs.modify k f) : NoReply db db' := by
  refine ⟨fun j row' hrow' _ => ?_⟩
  rw [h, Dict.get?_modify] at hrow'
  split at hrow'
  · obtain ⟨row, hrow, -⟩ := Option.map_eq_some_iff.mp hrow'
    rw [hrow]
    rfl
  · rw [hrow']
    rfl

theorem enqueueJob {kind : JobKind} (hkind : kind ≠ .resumeReply) (hjobs : db₁.jobs = db.jobs)
    (dedupKey : DedupKey) (runId emailId operatorResolutionId eventId : Option Uuid) :
    NoReply db (enqueueJob kind dedupKey runId emailId operatorResolutionId eventId db₁) := by
  unfold Repo.enqueueJob
  split
  · exact .same hjobs
  · refine ⟨fun j row' hrow' hreply => ?_⟩
    rw [Db.insertJob, Dict.get?_set] at hrow'
    split at hrow'
    · cases hrow'
      exact absurd hreply hkind
    · rw [← hjobs, hrow']
      rfl

theorem reserve (hjobs : db₁.jobs = db.jobs) (r : Uuid) (purpose : Purpose) (round : Nat)
    (envelope : Envelope) (e : Uuid) :
    NoReply db (enqueueSend r e (reserveOutboundSnapshot r purpose round envelope db₁).2) :=
  .enqueueJob (by decide) ((reserveOutboundSnapshot_jobs ..).trans hjobs) ..

theorem congr (h : NoReply db db₁) (hjobs : db'.jobs = db₁.jobs) : NoReply db db' :=
  ⟨fun j row' hrow' => h.old j row' (by rwa [← hjobs])⟩

theorem reserveClarification (r : Uuid) (q : Question) : NoReply db (reserveClarification r q db) := by
  have hqueued := @reserve db db rfl r q.purpose q.round q.envelope
    (reserveOutboundSnapshot r q.purpose q.round q.envelope db).1
  obtain ⟨runs, hframe⟩ := reserveClarification_frame r q db
  rw [hframe]
  exact hqueued.congr rfl

theorem deliver [PyText] (hjobs : db₁.jobs = db.jobs) (r : Uuid) (envelope : Envelope) :
    NoReply db (deliver r envelope db₁) := by
  obtain ⟨-, hdeliver⟩ | ⟨-, ⟨e, m, -, hdeliver⟩ | ⟨-, hdeliver⟩⟩ := deliver_cases r envelope db₁
  · rw [hdeliver]
    exact .same ((completeSentConfirmation_jobs ..).trans hjobs)
  · rw [hdeliver]
    exact .enqueueJob (by decide) hjobs ..
  · rw [hdeliver]
    exact reserve hjobs ..

end NoReply

section

variable [PyText] {env : Env} {op : Op} {a : Ans op}

theorem noReply (h : Effect env db op a db') (hop : ∀ mail, op ≠ .ingestEmail mail) : NoReply db db' := by
  cases h with
  | @leased row hrow hclaim =>
      refine ⟨fun j row' hrow' _ => ?_⟩
      by_cases hj : j = env.picked
      · rw [hj, hrow]
        rfl
      · rw [Dict.get?_set_of_ne _ hj] at hrow'
        rw [hrow']
        rfl
  | reapedInvalid => exact .modify (finish_jobs ..)
  | reapedReview => exact .modify (closeJob_jobs ..)
  | reapedRun => exact .modify ((closeJob_jobs ..).trans (by rw [setRunError_jobs]))
  | reapedJob => exact .modify (closeJob_jobs ..)
  | retired => exact .modify (finish_jobs ..)
  | recorded => exact .modify ((closeJob_jobs ..).trans (by rw [settleSent_jobs]))
  | expired => exact .modify (finish_jobs ..)
  | @sent job result row r e m run i handoff =>
      have hjobs : (settleSent r e m.purpose (appendDeliveryAttempt e .sent .none
          (releaseHandoff i .finalized db))).jobs = db.jobs := settleSent_jobs ..
      exact .modify ((closeJob_jobs ..).trans (by rw [hjobs]))
  | rescheduled => exact .modify (modifyJob_jobs ..)
  | reviewed => exact .modify (finish_jobs ..)
  | closed => exact .modify (modifyJob_jobs ..)
  | requeued => exact .modify (modifyJob_jobs ..)
  | failed => exact .modify ((finish_jobs ..).trans (by rw [setRunError_jobs]))
  | released =>
      refine ⟨fun j row' hrow' _ => ?_⟩
      rw [releaseLeases, Dict.get?_updateWhere] at hrow'
      obtain ⟨row, hrow, -⟩ := Option.map_eq_some_iff.mp hrow'
      rw [hrow]
      rfl
  | persisted => exact .same (persistStages_jobs ..)
  | @replayed r e =>
      have hqueued : NoReply db (enqueueSend r e db) := .enqueueJob (by decide) rfl ..
      exact hqueued.congr rfl
  | reserved => exact .reserveClarification ..
  | redelivered => exact absurd rfl (hop _)
  | unknown => exact absurd rfl (hop _)
  | created => exact absurd rfl (hop _)
  | late => exact absurd rfl (hop _)
  | replied => exact absurd rfl (hop _)
  | @approved r =>
      have hset : (setStatus r .approved db).jobs = db.jobs := rfl
      exact .deliver hset ..
  | @retriggered r run db₁ _ _ hclaim =>
      have hopened : (db₁.modifyRun r (openEpoch db₁.now)).jobs = db.jobs := by
        obtain ⟨rfl, -⟩ | ⟨rfl, -⟩ := hclaim
        · rfl
        · rfl
      have hkind : JobKind.runPipeline ≠ .resumeReply := by decide
      exact .enqueueJob hkind hopened ..
  | markedDelivered _ hresolve =>
      obtain ⟨handoffs, rfl⟩ := resolve_frame hresolve
      exact .same rfl
  | @authorizedNew r e m db₁ _ hresolve =>
      have hopened : (db₁.modifyRun r (openEpoch db₁.now)).jobs = db.jobs := by
        obtain ⟨handoffs, rfl⟩ := resolve_frame hresolve
        rfl
      exact .reserve hopened ..
  | @finishedReview r e m target acknowledge =>
      cases acknowledge <;> exact .same rfl
  | advanced => exact .modify (modifyJob_jobs ..)
  | @resolved r overrides remember g =>
      have hdrawn : { db with
          nextId := db.nextId + 1
          resolutions := db.resolutions.set db.nextId g }.jobs = db.jobs := rfl
      have hkind : JobKind.operatorResume ≠ .resumeReply := by decide
      exact .enqueueJob hkind hdrawn ..
  | _ => exact .same rfl

theorem Copied.step (h : Copied job db) (heffect : Effect env db op a db') (hfresh : Fresh db) :
    Copied job db' := by
  obtain ⟨⟨row, hrow, hkind, hrun, hmail⟩, hdrawn⟩ := h
  obtain ⟨row', hrow', hsame⟩ := (jobsWrite heffect hfresh).stays hrow
  exact ⟨⟨row', hrow', hsame.kind.trans hkind, hsame.runId.trans hrun, hsame.emailId.trans hmail⟩,
    hdrawn.trans_le (jobsGrow heffect).nextId⟩

theorem copied_claim (h : Effect env db .claimJob (some job) db') : Copied job db' := by
  cases h with
  | idle hrefused => cases hrefused
  | @leased row hrow hclaim => exact ⟨⟨_, Dict.get?_set_self .., rfl, rfl, rfl⟩, Nat.lt_succ_self _⟩

omit [PyText] in
theorem Later.refl (db : Db) : Later db db :=
  ⟨fun _ m hm => ⟨m, hm, rfl, rfl, rfl⟩, fun _ run hrun => ⟨run, hrun, rfl⟩⟩

theorem Later.step (h : Later d db) (htxn : txn env op db = .ok (a, db')) (hfresh : Fresh db) :
    Later d db' := by
  constructor
  · intro e m hm
    obtain ⟨m₁, hm₁, hmail, hrun, hepoch⟩ := h.inbound e m hm
    obtain ⟨m₂, hm₂, hmail', hrun', hepoch'⟩ := (inboundWrite htxn).stays hfresh hm₁
    exact ⟨m₂, hm₂, hmail'.trans hmail, hrun'.trans hrun, hepoch'.trans hepoch⟩
  · intro r run hrun
    obtain ⟨run₁, hrun₁, hsource⟩ := h.source r run hrun
    obtain ⟨run₂, hrun₂, -⟩ := runStep (txn_effect htxn) hfresh.runs hrun₁
    refine ⟨run₂, hrun₂, ?_⟩
    cases runsWrite (txn_effect htxn) hfresh with
    | kept hkept =>
        have hr := hkept r
        rw [hrun₁, hrun₂] at hr
        exact (Option.some.inj hr).trans hsource
    | @created mail r₀ businessId _ hruns hnew =>
        rw [hruns, Dict.get?_set] at hrun₂
        split at hrun₂
        next heq =>
          rw [heq, hnew] at hrun₁
          cases hrun₁
        · rw [hrun₁] at hrun₂
          rw [← Option.some.inj hrun₂, hsource]

theorem open_before (h : Effect env db op a db') (hfresh : Fresh db) (hrow : db.jobs.get? j = some row)
    (hrow' : db'.jobs.get? j = some row') (hopen : isOpen row' = true) : isOpen row = true := by
  have hleased : row.state = .leased → isOpen row = true := fun hstate => by simp [isOpen, hstate]
  have hlocked : ∀ {job : Job}, job.id = j → lockedJob db job = some row → isOpen row = true :=
    fun _ h => hleased (lockedJob_some h).2.1
  have hreaped : reapable db.now row = true → isOpen row = true :=
    fun h => hleased (of_decide_eq_true h).1
  obtain ⟨row'', hrow'', hstep⟩ := jobStep h hfresh hrow
  obtain rfl := Option.some.inj (hrow''.symm.trans hrow')
  cases hstep with
  | kept => exact hopen
  | leased _ hclaim =>
      unfold claimable at hclaim
      simp only [Bool.and_eq_true, Bool.or_eq_true, decide_eq_true_eq] at hclaim
      obtain ⟨-, ⟨hstate, -⟩ | ⟨hstate, -⟩⟩ := hclaim
      · simp [isOpen, hstate]
      · exact hleased hstate
  | reapedInvalid _ hreap => exact hreaped hreap
  | reapedReview _ _ _ _ hreap => exact hreaped hreap
  | reapedOther _ _ hreap => exact hreaped hreap
  | retired hid hlock => exact hlocked hid hlock
  | settled hid hctx => exact hlocked hid hctx.locked
  | closed hid hlock => exact hlocked hid hlock
  | released hstate => exact hleased hstate
  | advanced hstate => simp [isOpen, hstate]

theorem locked_before (h : Effect env db op a db') (hfresh : Fresh db) (hcopied : Copied job db)
    (hlocked : (lockedJob db' job).isSome = true) : (lockedJob db job).isSome = true := by
  obtain ⟨row', hrow'⟩ := Option.isSome_iff_exists.mp hlocked
  rw [lockedJob_back h hfresh hcopied.drawn hrow']
  rfl

end

structure NewReply (db db' : Db) (mail : InboundMail) (row' : JobRow) (r e : Uuid) (m : Inbound) :
    Prop where
  runId : row'.runId = some r
  emailId : row'.emailId = some e
  stored : db'.inbound.get? e = some m
  linked : m.runId = some r
  awaiting : db.statusOf r = some .awaitingReply
  origin : (inboundByMessageId db mail.messageId = some (e, m) ∧ m.consumedRound = none ∧
    (ingestDuplicate e m db).nextId ≠ db.nextId) ∨ (e = db.nextId ∧ m = arrived mail (some r) db)

theorem authorizedReplyJob_new {mail : InboundMail} (hnew : db.jobs.get? j = none)
    (hrow' : (authorizedReplyJob mail r e db).jobs.get? j = some row') :
    row'.runId = some r ∧ row'.emailId = some e ∧ db.statusOf r = some .awaitingReply ∧
      (authorizedReplyJob mail r e db).nextId ≠ db.nextId ∧
        ∃ run, db.runs.get? r = some run ∧ replySenderOk db mail run = true := by
  obtain hsame | ⟨⟨run, hrun, hawaiting, hsender⟩, hqueued⟩ := authorizedReplyJob_cases mail r e db
  · rw [hsame, hnew] at hrow'
    cases hrow'
  · rw [hqueued] at hrow' ⊢
    unfold enqueueJob at hrow' ⊢
    split at hrow'
    · rw [hnew] at hrow'
      cases hrow'
    · rw [Db.insertJob, Dict.get?_set] at hrow'
      split at hrow'
      · cases hrow'
        refine ⟨rfl, rfl, by rw [Db.statusOf, hrun, Option.map_some, hawaiting], ?_, run, hrun, hsender⟩
        exact Nat.succ_ne_self _
      · rw [hnew] at hrow'
        cases hrow'

theorem ingestNewRun_noReply (mail : InboundMail) (e : Uuid) (h : db₁.jobs = db.jobs) :
    NoReply db (ingestNewRun mail e db₁).2 := by
  unfold ingestNewRun
  split
  · exact .same h
  next businessId _ =>
    have hkind : JobKind.runPipeline ≠ .resumeReply := by decide
    have hcreated : (createRun businessId e db₁).2.jobs = db.jobs := h
    exact .enqueueJob hkind hcreated ..

theorem newReply_authorized (mail : InboundMail) (awaiting late : Uuid) (hnew : db.jobs.get? j = none)
    (hrow' : (ingestEmail mail awaiting late db).2.jobs.get? j = some row')
    (hkind : row'.kind = .resumeReply) :
    ∃ r e m, NewReply db (ingestEmail mail awaiting late db).2 mail row' r e m ∧
      ∃ run, db.runs.get? r = some run ∧ replySenderOk db m.mail run = true := by
  have hnone : ∀ {db₁ : Db}, NoReply db db₁ → db₁.jobs.get? j = some row' → False := fun h hrow => by
    have hold := h.old j row' hrow hkind
    rw [hnew] at hold
    cases hold
  unfold ingestEmail at hrow' ⊢
  cases hsame : inboundByMessageId db mail.messageId with
  | some p =>
      obtain ⟨e, m⟩ := p
      rw [hsame] at hrow'
      dsimp only at hrow' ⊢
      have hstored := (inboundByMessageId_some hsame).1
      unfold ingestDuplicate at hrow' ⊢
      cases hlinked : m.runId with
      | none =>
          rw [hlinked] at hrow'
          exact (hnone (.same rfl) hrow').elim
      | some r =>
          cases hread : m.consumedRound with
          | some round =>
              rw [hlinked, hread] at hrow'
              exact (hnone (.same rfl) hrow').elim
          | none =>
              rw [hlinked, hread] at hrow'
              dsimp only at hrow' ⊢
              obtain ⟨hrun, hmail, hstatus, hadds, hsender⟩ := authorizedReplyJob_new hnew hrow'
              refine ⟨r, e, m, ⟨hrun, hmail, by rwa [authorizedReplyJob_inbound], hlinked, hstatus,
                .inl ⟨hsame, hread, ?_⟩⟩, hsender⟩
              rw [ingestDuplicate, hlinked, hread]
              exact hadds
  | none =>
      rw [hsame] at hrow'
      dsimp only at hrow' ⊢
      split at hrow'
      · exact (hnone (.same rfl) hrow').elim
      next hfresh =>
        have hjobs : (stored mail db).jobs = db.jobs := rfl
        rw [if_neg hfresh]
        unfold ingestFresh at hrow' ⊢
        dsimp only at hrow' ⊢
        split at hrow'
        · exact (hnone (ingestNewRun_noReply mail _ hjobs) hrow').elim
        next hheaders =>
          rw [if_neg hheaders]
          split at hrow'
          next r hfound =>
            have hlinked : (linkEmailToRun db.nextId r (stored mail db)).jobs.get? j = none := hnew
            obtain ⟨hrun, hmail, hstatus, -, hsender⟩ := authorizedReplyJob_new hlinked hrow'
            refine ⟨r, db.nextId, arrived mail (some r) db,
              ⟨hrun, hmail, ?_, rfl, hstatus, .inr ⟨rfl, rfl⟩⟩, hsender⟩
            have hstores := @stores_link db mail r db.nextId
            rw [if_pos rfl] at hstores
            exact (congrArg (Dict.get? · db.nextId) (authorizedReplyJob_inbound ..)).trans hstores
          next hnot =>
            split at hrow'
            · exact (hnone (.same rfl) hrow').elim
            · exact (hnone (ingestNewRun_noReply mail _ hjobs) hrow').elim

theorem newReply (mail : InboundMail) (awaiting late : Uuid) (hnew : db.jobs.get? j = none)
    (hrow' : (ingestEmail mail awaiting late db).2.jobs.get? j = some row')
    (hkind : row'.kind = .resumeReply) :
    ∃ r e m, NewReply db (ingestEmail mail awaiting late db).2 mail row' r e m := by
  obtain ⟨r, e, m, h, -⟩ := newReply_authorized mail awaiting late hnew hrow' hkind
  exact ⟨r, e, m, h⟩

end PayrollAgent.ReplyLeases
