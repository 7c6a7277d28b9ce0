import PayrollAgent.ConfirmationIdentity
import PayrollAgent.DeliveryReview
import PayrollAgent.Lib.History
import PayrollAgent.RunWrites

namespace PayrollAgent.SettlementCoherence

open Lib History Repo Delivery RunRoutes Handlers Effects RunSteps Conduct FreshIds Bookkeeping
  Drives HandoffSteps
  MessageSteps ConfirmationIdentity EmailSteps Commits BoundedQuestions DeliveryReview RunWrites

def confirmed (db : Db) (r : Uuid) : Bool := (getOutboundMessageId db r .confirmation).isSome

def marksDelivered : (op : Op) → Ans op → Option Uuid
  | .markDeliveryDelivered r, true => some r
  | _, _ => none

def acknowledged (r : Uuid) (log : List Commit) : Bool :=
  since (fun c => c.after.epochOf r = c.before.epochOf r)
    (fun c _ => marksDelivered c.op c.answer = some r) log

structure Coherent (db : Db) (log : List Commit) : Prop where
  reconciled : ∀ r, db.statusOf r = some .reconciled → confirmed db r = true ∨ acknowledged r log = true
  approved : ∀ r, db.statusOf r = some .approved → confirmed db r = false

inductive Released (db : Db) (r : Uuid) (reason : ReleaseReason) (db' : Db) : Prop
  | released {h : Uuid} {handoff : Handoff} (howned : db.handoffs.get? h = some handoff)
      (hrun : handoff.runId = r) (hactive : handoff.released = none)
      (hreleased : db'.handoffs = db.handoffs.modify h fun row =>
      { row with released := some (db.now, reason) })
  | none (hnone : activeHandoff db r = none) (hsame : db'.handoffs = db.handoffs)

def Closed (db : Db) (j : Uuid) (state : JobState) (db' : Db) : Prop :=
  ∃ (availableAt : JobRow → Nat) (lastError : JobRow → Option LastError),
    db'.jobs = db.jobs.modify j fun row => unlease row state (availableAt row) (lastError row) db.now

/-- Only the job is closed: its message, its handoff and its run stay. -/
structure Retired (db : Db) (j : Uuid) (state : JobState) (db' : Db) : Prop where
  message : db'.outbound = db.outbound
  handoff : db'.handoffs = db.handoffs
  run : db'.runs = db.runs
  job : Closed db j state db'

/-- The run and its delivery go to an operator, and the job is closed. -/
structure Reviewed (db : Db) (j r : Uuid) (purpose : Purpose) (category : FailureCategory)
    (state : JobState) (db' : Db) : Prop where
  message : db'.outbound = db.outbound
  handoff : Released db r .deliveryReview db'
  run : db'.runs = db.runs.modify r fun run =>
    { run with
      status := .needsOperator
      errorReason := some (reviewReason purpose)
      errorDetail := some (.deliveryReview category)
      updatedAt := db.now }
  job : Closed db j state db'

/-- What the settlement of `job` with `result` writes. The job alone is closed
exactly where the send has no valid context. -/
inductive Settled (db : Db) (job : Job) (result : PipelineResult) (db' : Db) : Prop
  | lost (hlost : lockedJob db job = none) (hsame : db' = db)
  | retired {row : JobRow} (hlocked : lockedJob db job = some row) (hinvalid : ¬ Settles db job result)
      (hretired : Retired db job.id .done db')
  | delivered {row : JobRow} {r e : Uuid} {m : Outbound} {run : Run}
      (hctx : InContext db job row r e m run)
      (hsettles : Settles db job result) (hresult : result.reason = .deliveryRecordOnly ∨
      result.outcome = .ok)
      (hmessage : db'.outbound = db.outbound.modify e fun m => { m with sendState := .sent })
      (hhandoff : Released db r .finalized db')
      (hrun : db'.runs = if m.purpose = .confirmation then
        db.runs.modify r fun run => { run with status := .reconciled, updatedAt := db.now } else db.runs)
      (hjob : Closed db job.id .done db')
  | rescheduled {row : JobRow} {r e : Uuid} {m : Outbound} {run : Run}
      (hctx : InContext db job row r e m run) (hsettles : Settles db job result)
      (hresult : result.outcome = .retryable ∧ result.reason ∈ replayableDeliveryReasons ∧
      db.now < m.snapshot.notAfter)
      (hmessage : db'.outbound = db.outbound) (hhandoff : Released db r .retryScheduled db')
      (hrun : db'.runs = db.runs) (hjob : Closed db job.id .pending db')
  | reviewed {row : JobRow} {r e : Uuid} {m : Outbound} {run : Run}
      (hctx : InContext db job row r e m run)
      (hsettles : Settles db job result) (hresult : result.reason ≠ .deliveryRecordOnly ∧
      result.outcome ≠ .ok)
      (hreviewed : Reviewed db job.id r m.purpose (deliveryFailureCategory result) .done db')

/-- What the reaping of job `j` writes. -/
inductive Reaped (db : Db) (j : Uuid) (db' : Db) : Prop
  | none (hsame : db' = db)
  | retired {row : JobRow} (hrow : db.jobs.get? j = some row) (hkind : row.kind = .sendOutbound)
      (hinvalid : ∀ r e m run h handoff, ¬ Reaps db j row r e m run h handoff)
      (hretired : Retired db j .dead db')
  | reviewed {row : JobRow} {r e : Uuid} {m : Outbound} {run : Run} {h : Uuid} {handoff : Handoff}
      (hrow : db.jobs.get? j = some row) (hkind : row.kind = .sendOutbound)
      (hreaps : Reaps db j row r e m run h handoff)
      (hreviewed : Reviewed db j r m.purpose .finalAttemptLeaseExpired .dead db')
  | failed {row : JobRow} {r : Uuid} {s : RunStatus} (hrow : db.jobs.get? j = some row)
      (hkind : row.kind ≠ .sendOutbound) (hrunId : row.runId = some r) (hstatus : db.statusOf r = some s)
      (hs : s ∈ finalLeaseErrorStatuses) (hmessage : db'.outbound = db.outbound)
      (hhandoff : db'.handoffs = db.handoffs)
      (hrun : db'.runs = db.runs.modify r fun run =>
        { run with
          status := .error
          errorReason := some .finalAttemptLeaseExpired
          errorDetail := some (.finalAttemptLeaseExpired row.attempts row.maxAttempts)
          updatedAt := db.now })
      (hjob : Closed db j .dead db')
  | closed {row : JobRow} (hrow : db.jobs.get? j = some row) (hkind : row.kind ≠ .sendOutbound)
      (hrun : ∀ r s, row.runId = some r → db.statusOf r = some s → s ∉ finalLeaseErrorStatuses)
      (hretired : Retired db j .dead db')

structure Acknowledged (db : Db) (r : Uuid) (db' : Db) : Prop where
  message : db'.outbound = db.outbound
  handoff : Released db r .finalized db'
  run : db'.runs = db.runs.modify r fun run => { run with status := .reconciled, updatedAt := db.now }
  job : db'.jobs = db.jobs

def Timely (db : Db) : Prop :=
  ∀ e m, db.outbound.get? e = some m → ∃ run, db.runs.get? m.runId = some run ∧ m.epoch ≤ run.replyEpoch

variable {db db' db₁ : Db} {op : Op} {r e : Uuid} {m : Outbound} {run run' : Run}
    {log : List Commit} {i : Nat} {s : Work}

theorem closed_finish {j : Uuid} {state : JobState} {lastError : Option LastError}
    (hjobs : db₁.jobs = db.jobs)
    (hnow : db₁.now = db.now) : Closed db j state (finish j state lastError db₁) := by
  refine ⟨JobRow.availableAt, fun _ => lastError, ?_⟩
  rw [finish, Db.modifyJob, hjobs, hnow]

theorem closed_closeJob {j : Uuid} {state : JobState} (hjobs : db₁.jobs = db.jobs)
    (hnow : db₁.now = db.now) : Closed db j state (closeJob j state db₁) := by
  refine ⟨JobRow.availableAt, JobRow.lastError, ?_⟩
  rw [closeJob, Db.modifyJob, hjobs, hnow]

theorem confirmed_iff : confirmed db r = true ↔ ∃ e m, db.outbound.get? e = some m ∧ m.runId = r ∧
    m.purpose = .confirmation ∧ m.sendState = .sent ∧ some m.epoch = db.epochOf r := by
  rw [confirmed, Option.isSome_iff_exists]
  constructor
  · rintro ⟨⟨e, m⟩, hfound⟩
    obtain ⟨hm, hsent⟩ := Dict.select_some hfound
    rw [decide_eq_true_eq] at hsent
    exact ⟨e, m, hm, hsent⟩
  · rintro ⟨e, m, hm, hsent⟩
    exact Dict.select_isSome hm (decide_eq_true hsent)

theorem confirmed_stays (h : MessagesStep db db') (hepoch : db'.epochOf r = db.epochOf r)
    (hconfirmed : confirmed db r = true) : confirmed db' r = true := by
  obtain ⟨e, m, hm, hrun, hpurpose, hsent, hcurrent⟩ := confirmed_iff.mp hconfirmed
  obtain ⟨m', hm', hfrozen⟩ := h.stays hm
  refine confirmed_iff.mpr ⟨e, m', hm', hfrozen.runId.trans hrun, hfrozen.purpose.trans hpurpose, ?_, ?_⟩
  · exact hfrozen.sendState.elim (fun hsame => hsame.trans hsent) fun hsent => hsent
  · rw [hfrozen.epoch, hcurrent, hepoch]

theorem timely_step (h : MessagesStep db db') (htimely : Timely db)
    (hruns : ∀ r run, db.runs.get? r = some run → ∃ run', db'.runs.get? r = some run' ∧
    run.replyEpoch ≤ run'.replyEpoch) : Timely db' := by
  intro e m' hm'
  obtain ⟨m, hm, hfrozen⟩ | hnew := h.origin hm'
  · obtain ⟨run, hrun, hle⟩ := htimely e m hm
    obtain ⟨run', hrun', hle'⟩ := hruns m.runId run hrun
    rw [hfrozen.runId, hfrozen.epoch]
    exact ⟨run', hrun', hle.trans hle'⟩
  · obtain ⟨run', hrun', hepoch⟩ := Option.map_eq_some_iff.mp hnew.epoch
    exact ⟨run', hrun', hepoch.ge⟩

section

variable [PyText] {env : Env} {a : Ans op}

theorem confirmed_before (h : Effect env db op a db') (hfresh : Fresh db)
    (hmessages : MessagesStep db db')
    (hunreconciled : db'.statusOf r ≠ some .reconciled) (hconfirmed : confirmed db' r = true) :
    ∃ e m, db.outbound.get? e = some m ∧ m.runId = r ∧ m.purpose = .confirmation ∧ m.sendState = .sent ∧
      some m.epoch = db'.epochOf r := by
  obtain ⟨e, m', hm', hrun, hpurpose, hsent, hcurrent⟩ := confirmed_iff.mp hconfirmed
  obtain ⟨m, hm, hfrozen⟩ | hnew := hmessages.origin hm'
  · refine ⟨e, m, hm, hfrozen.runId.symm.trans hrun, hfrozen.purpose.symm.trans hpurpose, ?_,
      hfrozen.epoch ▸ hcurrent⟩
    cases messageWrite h hfresh hm with
    | kept hkept =>
        obtain rfl := Option.some.inj (hm'.symm.trans hkept)
        exact hsent
    | sent howed _ hreconciled =>
        obtain ⟨-, hown, -⟩ := deliveryContext_some howed
        have hsame := hfrozen.runId.symm.trans hrun
        have hdone := hreconciled (hfrozen.purpose.symm.trans hpurpose)
        rw [← hown, hsame] at hdone
        exact absurd hdone hunreconciled
    | acknowledged _ _ hkept =>
        obtain ⟨t, hkept⟩ := hkept
        obtain rfl := Option.some.inj (hm'.symm.trans hkept)
        exact hsent
  · rw [hnew.reserved] at hsent
    cases hsent

theorem confirmed_kept (h : Effect env db op a db') (hfresh : Fresh db) (hmessages : MessagesStep db db')
    (hunreconciled : db'.statusOf r ≠ some .reconciled) (hepoch : db'.epochOf r = db.epochOf r)
    (hunconfirmed : confirmed db r = false) : confirmed db' r = false := by
  by_contra hconfirmed
  rw [Bool.not_eq_false] at hconfirmed
  obtain ⟨e, m, hm, hrun, hpurpose, hsent, hcurrent⟩ :=
    confirmed_before h hfresh hmessages hunreconciled hconfirmed
  rw [confirmed_iff.mpr ⟨e, m, hm, hrun, hpurpose, hsent, hepoch ▸ hcurrent⟩] at hunconfirmed
  cases hunconfirmed

theorem deliver_status (hrun : db.runs.get? r = some run) :
    (confirmed db r = true → (deliver r env.envelope db).statusOf r = some .reconciled) ∧
      (confirmed db r = false → (deliver r env.envelope db).statusOf r = some run.status) := by
  unfold deliver confirmed
  cases hfound : getOutboundMessageId db r .confirmation with
  | some p =>
      constructor
      · intro _
        dsimp only
        rw [Db.statusOf, completeSentConfirmation_runs, Dict.get?_modify_self hrun]
        rfl
      · intro hnone
        cases hnone
  | none =>
      have hstored : ∀ db₁ : Db, db₁.runs = db.runs → db₁.statusOf r = some run.status := by
        intro db₁ hruns
        rw [Db.statusOf, hruns, hrun]
        rfl
      constructor
      · intro hsome
        cases hsome
      · intro _
        dsimp only
        split
        · exact hstored _ (enqueueSend_runs ..)
        · exact hstored _ ((enqueueSend_runs ..).trans (reserveOutboundSnapshot_runs ..))

theorem approve_status {a : Ans (.approve r)} (h : Effect env db (.approve r) a db')
    (hrun : db.runs.get? r = some run) (hstatus : run.status = .awaitingApproval) :
    (confirmed db r = true → db'.statusOf r ≠ some .approved) ∧
      (confirmed db r = false → db'.statusOf r ≠ some .reconciled) := by
  cases h with
  | idle =>
      rw [statusOf_some hrun, hstatus]
      constructor
      · intro _ happroved
        cases happroved
      · intro _ hreconciled
        cases hreconciled
  | approved =>
      have hrun' : (setStatus r .approved db).runs.get? r =
        some { run with status := .approved, updatedAt := db.now } :=
        Dict.get?_modify_self hrun _
      have hsame : confirmed (setStatus r .approved db) r = confirmed db r := by
        have hepoch : (setStatus r .approved db).epochOf r = db.epochOf r := by
          rw [Db.epochOf, Db.epochOf, hrun', hrun]
          rfl
        rw [confirmed, confirmed, getOutboundMessageId, getOutboundMessageId, hepoch]
        rfl
      obtain ⟨hsent, hopen⟩ := @deliver_status _ _ _ _ env hrun'
      rw [hsame] at hsent hopen
      constructor
      · intro hconfirmed happroved
        rw [hsent hconfirmed] at happroved
        cases happroved
      · intro hunconfirmed hreconciled
        rw [hopen hunconfirmed] at hreconciled
        cases hreconciled

omit [PyText] in
theorem retired_finish {j : Uuid} {state : JobState} {lastError : Option LastError} :
    Retired db j state (finish j state lastError db) := ⟨rfl, rfl, rfl, closed_finish rfl rfl⟩

omit [PyText] in
theorem retired_closeJob {j : Uuid} {state : JobState} : Retired db j state (closeJob j state db) :=
  ⟨rfl, rfl, rfl, closed_closeJob rfl rfl⟩

omit [PyText] in
theorem released_owned {j token h : Uuid} {epoch : Nat} {handoff : Handoff} {reason : ReleaseReason}
    (howned : currentProviderHandoff db j token r e epoch = some (h, handoff))
    (hhandoffs : db'.handoffs = (releaseHandoff h reason db).handoffs) : Released db r reason db' := by
  obtain ⟨hhandoff, hrun, -, -, -, -, hactive⟩ := currentProviderHandoff_some howned
  exact .released hhandoff hrun hactive hhandoffs

theorem settled_owned {job : Job} {result : PipelineResult} {row : JobRow} {h : Uuid} {handoff : Handoff}
    (hctx : InContext db job row r e m run) (hsettles : Settles db job result)
    (hreason : result.reason ≠ .deliveryRecordOnly)
    (howned : currentProviderHandoff db job.id job.leaseToken r e m.epoch = some (h, handoff)) :
    Settled db job result (settleOwnedHandoff job result row.attempts r e h m db).2 := by
  unfold settleOwnedHandoff
  split
  next hok =>
    exact .delivered hctx hsettles (.inr hok) (settleSent_outbound ..)
      (released_owned howned (settleSent_handoffs ..))
      (settleSent_runs ..) (closed_closeJob (settleSent_jobs ..) (settleSent_now ..))
  next hfailed =>
    split
    next t hnext =>
      split at hnext
      next hresult =>
        exact .rescheduled hctx hsettles hresult rfl (released_owned howned rfl) rfl
          ⟨fun _ => t, fun _ => diagnosticCode result, rfl⟩
      · cases hnext
    · exact .reviewed hctx hsettles ⟨hreason, hfailed⟩ ⟨rfl, released_owned howned rfl, rfl,
        closed_finish rfl rfl⟩

theorem settled_inContext {job : Job} {result : PipelineResult} {row : JobRow} (hprovided : Provided db)
    (hctx : InContext db job row r e m run) :
    Settled db job result (settleInContext job result row r e m run db).2 := by
  have hiff : Settles db job result ↔ Evidence db job result r e m run := hctx.settles_iff
  unfold settleInContext
  split
  next hreason =>
    rw [Evidence, if_pos hreason] at hiff
    split
    next honly =>
      obtain ⟨-, -, hrun, -⟩ := deliveryContext_some hctx.owed
      exact .delivered hctx (hiff.mpr honly) (.inl hreason) (settleSent_outbound ..)
        (.none (hprovided.inactive hrun honly) (settleSent_handoffs ..)) (settleSent_runs ..)
        (closed_closeJob (settleSent_jobs ..) (settleSent_now ..))
    next honly => exact .retired hctx.locked (fun hsettles => honly (hiff.mp hsettles)) retired_finish
  next hreason =>
    rw [Evidence, if_neg hreason] at hiff
    split
    next hexpired =>
      refine .reviewed hctx (hiff.mpr (.inl hexpired)) ⟨hreason, fun hok => ?_⟩
        ⟨rfl, .none hexpired.2 rfl, rfl, closed_finish rfl rfl⟩
      have hterminal := (of_decide_eq_true hexpired.1).1
      rw [hok] at hterminal
      cases hterminal
    next hexpired =>
      split
      next hnone =>
        refine .retired hctx.locked (fun hsettles => ?_) retired_finish
        rcases hiff.mp hsettles with hevidence | ⟨h, howned⟩
        · exact hexpired hevidence
        · rw [hnone] at howned
          cases howned
      next h handoff howned => exact settled_owned hctx (hiff.mpr (.inr ⟨_, howned⟩)) hreason howned

theorem settled {job : Job} {result : PipelineResult} {a : Ans (.settleOutboundDeliveryJob job result)}
    (htxn : txn env (.settleOutboundDeliveryJob job result) db = .ok (a, db')) (hprovided : Provided db) :
    Settled db job result db' := by
  obtain rfl : (settleOutboundDeliveryJob job result db).2 = db' := congrArg Prod.snd (Except.ok.inj htxn)
  unfold settleOutboundDeliveryJob
  split
  next hlost => exact .lost hlost rfl
  next row hrow =>
    split
    next hnames =>
      refine .retired hrow ?_ retired_finish
      rintro ⟨row', r, e, m, run, hctx, -⟩
      obtain rfl : row' = row := by simpa [hrow] using hctx.locked.symm
      simp [hctx.names] at hnames
    next r e hnames =>
      split
      next howed =>
        refine .retired hrow ?_ retired_finish
        rintro ⟨row', r', e', m, run, hctx, -⟩
        obtain rfl : row' = row := by simpa [hrow] using hctx.locked.symm
        obtain ⟨rfl, rfl⟩ : r' = r ∧ e' = e := by simpa [hnames, eq_comm] using hctx.names
        simp [hctx.owed] at howed
      next m run howed => exact settled_inContext hprovided ⟨hrow, hnames, howed⟩

omit [PyText] in
theorem reaped_send {j : Uuid} {row : JobRow} (hrow : db.jobs.get? j = some row)
    (hkind : row.kind = .sendOutbound) : Reaped db j (reapSend j row db).2 := by
  unfold reapSend
  split
  next r e token hr he htoken =>
    split
    next howed =>
      refine .retired hrow hkind (fun r' e' m run h handoff hreaps => ?_) retired_finish
      obtain rfl : r' = r := by simpa [hr] using hreaps.runId.symm
      obtain rfl : e' = e := by simpa [he] using hreaps.emailId.symm
      simp [hreaps.owed] at howed
    next m run howed =>
      split
      next hnone =>
        refine .retired hrow hkind (fun r' e' m' run' h handoff hreaps => ?_) retired_finish
        obtain rfl : r' = r := by simpa [hr] using hreaps.runId.symm
        obtain rfl : e' = e := by simpa [he] using hreaps.emailId.symm
        obtain ⟨token', htoken', howned⟩ := hreaps.owned
        obtain rfl : token' = token := by simpa [htoken] using htoken'.symm
        obtain ⟨rfl, rfl⟩ : m' = m ∧ run' = run := by simpa [howed, eq_comm] using hreaps.owed
        simp [hnone] at howned
      next h handoff howned =>
        exact .reviewed hrow hkind ⟨hr, he, howed, token, htoken, howned⟩
          ⟨rfl, released_owned howned rfl, rfl, closed_closeJob rfl rfl⟩
  next hmissing =>
    refine .retired hrow hkind (fun r e m run h handoff hreaps => ?_) retired_finish
    obtain ⟨token, htoken, -⟩ := hreaps.owned
    exact hmissing r e token hreaps.runId hreaps.emailId htoken

omit [PyText] in
theorem reaped_run {j : Uuid} {row : JobRow} (hrow : db.jobs.get? j = some row)
    (hkind : row.kind ≠ .sendOutbound)
    (hrunId : row.runId = some r) : Reaped db j (reapRun j row r db).2 := by
  unfold reapRun
  split
  · exact .none rfl
  next s hstatus =>
    split
    next hs =>
      exact .failed hrow hkind hrunId hstatus hs (setRunError_outbound ..) (setRunError_handoffs ..)
        (setRunError_runs hstatus) (closed_closeJob (setRunError_jobs ..) (setRunError_now ..))
    next hs =>
      refine .closed hrow hkind (fun r' s' hr' hs' => ?_) retired_closeJob
      obtain rfl := Option.some.inj (hrunId.symm.trans hr')
      obtain rfl := Option.some.inj (hstatus.symm.trans hs')
      exact hs

theorem reaped {a : Ans .reapExpiredFinalAttempt}
    (htxn : txn env .reapExpiredFinalAttempt db = .ok (a, db')) : Reaped db env.picked db' := by
  obtain rfl : (reapExpiredFinalAttempt env.picked db).2 = db' := congrArg Prod.snd (Except.ok.inj htxn)
  unfold reapExpiredFinalAttempt
  split
  · exact .none rfl
  next row hrow =>
    split
    · unfold reapRow
      split
      next hkind => exact reaped_send hrow hkind
      next hkind hrunId =>
        refine .closed hrow (by rw [hkind]; decide) (fun r s hr => ?_) retired_closeJob
        rw [hrunId] at hr
        cases hr
      · exact .none rfl
      next r hrunId hsend _ => exact reaped_run hrow hsend hrunId
      · exact .none rfl
    · exact .none rfl

theorem acknowledges {a : Ans (.markDeliveryDelivered r)}
    (h : Effect env db (.markDeliveryDelivered r) a db') : db' = db ∨ Acknowledged db r db' := by
  cases h with
  | idle => exact .inl rfl
  | markedDelivered _ hresolve =>
      refine .inr ?_
      obtain ⟨hnone, rfl⟩ | ⟨i, row, hactive, -, rfl⟩ := resolve_true hresolve
      · exact ⟨rfl, .none hnone rfl, rfl, rfl⟩
      · obtain ⟨hrow, hrun, hopen⟩ := activeHandoff_some hactive
        exact ⟨rfl, .released hrow hrun hopen rfl, rfl, rfl⟩

omit [PyText] in
theorem unreconciled {r₀ : Uuid} {f : Run → Run} (hruns : db'.runs = db.runs.modify r₀ f)
    (hf : ∀ run, (f run).status ≠ .reconciled) (hbefore : db.statusOf r ≠ some .reconciled) :
    db'.statusOf r ≠ some .reconciled := by
  intro hafter
  rw [Db.statusOf, hruns, Dict.get?_modify] at hafter
  split at hafter
  · obtain ⟨run', hrun', hstatus⟩ := Option.map_eq_some_iff.mp hafter
    obtain ⟨run, -, rfl⟩ := Option.map_eq_some_iff.mp hrun'
    exact hf run hstatus
  · exact hbefore hafter

omit [PyText] in
theorem unreconciled_same (hruns : db'.runs = db.runs) (hbefore : db.statusOf r ≠ some .reconciled) :
    db'.statusOf r ≠ some .reconciled := by
  rwa [Db.statusOf, hruns]

omit [PyText] in
theorem Settled.confirms {job : Job} {result : PipelineResult} (h : Settled db job result db')
    (hbefore : db.statusOf r ≠ some .reconciled) (hafter : db'.statusOf r = some .reconciled) :
    confirmed db' r = true := by
  cases h with
  | lost _ hsame =>
      subst hsame
      exact absurd hafter hbefore
  | retired _ _ hretired => exact absurd hafter (unreconciled_same hretired.run hbefore)
  | @delivered row r₀ e m run hctx _ _ hmessage hhandoff hrun hjob =>
      obtain ⟨hm, hown, hfound, -, hepoch, -⟩ := deliveryContext_some hctx.owed
      split at hrun
      next hpurpose =>
        by_cases hr : r = r₀
        · subst hr
          have hm' := (congrArg (Dict.get? · e) hmessage).trans (Dict.get?_modify_self hm _)
          refine confirmed_iff.mpr ⟨e, _, hm', hown, hpurpose, rfl, ?_⟩
          rw [Db.epochOf, hrun, Dict.get?_modify_self hfound]
          exact congrArg some hepoch
        · rw [Db.statusOf, hrun, Dict.get?_modify_of_ne _ hr] at hafter
          exact absurd hafter hbefore
      · exact absurd hafter (unreconciled_same hrun hbefore)
  | rescheduled _ _ _ _ _ hrun => exact absurd hafter (unreconciled_same hrun hbefore)
  | reviewed _ _ _ hreviewed =>
      exact absurd hafter (unreconciled hreviewed.run (fun _ h => by cases h) hbefore)

omit [PyText] in
theorem Reaped.unreconciled {j : Uuid} (h : Reaped db j db')
    (hbefore : db.statusOf r ≠ some .reconciled) : db'.statusOf r ≠ some .reconciled := by
  cases h with
  | none hsame =>
      subst hsame
      exact hbefore
  | retired _ _ _ hretired => exact unreconciled_same hretired.run hbefore
  | reviewed _ _ _ hreviewed =>
      exact SettlementCoherence.unreconciled hreviewed.run (fun _ h => by cases h) hbefore
  | failed _ _ _ _ _ _ _ hrun =>
      exact SettlementCoherence.unreconciled hrun (fun _ h => by cases h) hbefore
  | closed _ _ _ hretired => exact unreconciled_same hretired.run hbefore

omit [PyText] in
theorem driven_open {t : RunStatus} (hdrives : drives op = some (r, t)) (hrule : s.rule op) :
    t ∉ [RunStatus.approved, .reconciled] := by
  cases op with
  | setStatus r₀ target =>
      cases hdrives
      rw [hrule.2]
      decide
  | persistStages r₀ st =>
      rw [drives] at hdrives
      split at hdrives
      · cases hdrives
        decide
      · cases hdrives
  | escalateToOperator =>
      cases hdrives
      decide
  | finalizeSentClarification =>
      cases hdrives
      decide
  | replayReservedClarification =>
      cases hdrives
      decide
  | reserveClarification =>
      cases hdrives
      decide
  | _ => cases hdrives

omit [PyText] in
theorem claimed_open {expected new : RunStatus} (hrule : s.rule (.claimStatus r expected new)) :
    new ∉ [RunStatus.approved, .reconciled] := by
  have hrejections : ∀ p ∈ rejections, p.2 ∉ [RunStatus.approved, .reconciled] := by decide
  have hreentries : ∀ p ∈ reentries, p.2 ∉ [RunStatus.approved, .reconciled] := by decide
  rcases hrule with h | ⟨-, h⟩ | ⟨-, -, -, rfl⟩
  · exact hrejections _ h
  · exact hreentries _ h
  · decide

inductive Concludes (r : Uuid) (run run' : Run) : (op : Op) → Ans op → Prop
  | stays {op : Op} {a : Ans op} (hstatus : run'.status = run.status)
      (hepoch : run'.replyEpoch = run.replyEpoch) : Concludes r run run' op a
  | approved {a : Ans (.approve r)} (hstatus : run.status = .awaitingApproval)
      (hepoch : run'.replyEpoch = run.replyEpoch) : Concludes r run run' (.approve r) a
  | settled {op : Op} {a : Ans op} (hsettles : settlesSend op = true) (hstatus : run.status ≠ .reconciled)
      (hreconciled : run'.status = .reconciled) : Concludes r run run' op a
  | marked (hreconciled : run'.status = .reconciled) :
      Concludes r run run' (.markDeliveryDelivered r) (true : Bool)
  | reopened {op : Op} {a : Ans op} (happroved : run'.status = .approved)
      (hepoch : run'.replyEpoch = run.replyEpoch + 1) : Concludes r run run' op a
  | elsewhere {op : Op} {a : Ans op} (hopen : run'.status ∉ [RunStatus.approved, .reconciled]) :
      Concludes r run run' op a

omit [PyText] in
theorem concludes (h : RunStep db r run op a run') (hrule : s.rule op) : Concludes r run run' op a := by
  have helse : ∀ {t : RunStatus}, run'.status = t → t ∉ [RunStatus.approved, .reconciled] →
    Concludes r run run' op a := by
    rintro t rfl ht
    exact .elsewhere ht
  cases h with
  | kept hkept => exact .stays hkept.status hkept.epoch
  | fieldsSet => exact .stays rfl rfl
  | driven hdrives hmoved => exact helse hmoved.status (driven_open hdrives hrule)
  | claimed _ hmoved => exact helse hmoved.status (claimed_open hrule)
  | rewound _ hmoved => exact helse hmoved.status (by decide)
  | approved hstatus hmoved => exact .approved hstatus hmoved.epoch
  | failed _ _ hmoved => exact helse hmoved.status (by decide)
  | requeued _ _ _ hmoved => exact helse hmoved.status (by decide)
  | retriggered _ _ hreopened => exact helse hreopened.status (by decide)
  | reconciled hstatus hmoved => exact .settled rfl (by rw [hstatus]; decide) hmoved.status
  | reviewed _ _ hmoved => exact helse hmoved.status (by decide)
  | markedDelivered _ _ hmoved => exact .marked hmoved.status
  | authorizedNew _ _ hreopened => exact .reopened hreopened.status hreopened.epoch
  | finishedReview _ _ hmoved =>
      refine helse hmoved.status ?_
      rcases hrule with rfl | rfl <;> decide

/-- What the commits of a history left, and what a settlement relies on. -/
structure Inv (db : Db) (log : List Commit) : Prop extends Coherent db log where
  fresh : Fresh db
  slots : Slots db
  provided : Provided db
  timely : Timely db

omit [PyText] in
theorem concluded_before (h : RunsGrow db db') (hrun' : db'.runs.get? r = some run')
    (hconcluded : run'.status ∈ [RunStatus.approved, .reconciled]) :
    ∃ run, db.runs.get? r = some run := by
  rcases h r run' hrun' with hrun | ⟨businessId, e, now, rfl⟩
  · exact hrun
  · have hreceived : RunStatus.received ∉ [RunStatus.approved, .reconciled] := by decide
    exact absurd hconcluded hreceived

theorem approved_commit (hinv : Inv db log) (h : Effect env db op a db') (hrule : s.rule op)
    (hmessages : MessagesStep db db')
    (happroved : db'.statusOf r = some .approved) : confirmed db' r = false := by
  obtain ⟨run', hrun', hstatus'⟩ := Option.map_eq_some_iff.mp happroved
  obtain ⟨run, hrun⟩ := concluded_before (runsGrow (runsWrite h hinv.fresh)) hrun'
    (by rw [hstatus']; decide)
  obtain ⟨run'', hrun'', hstep⟩ := runStep h hinv.fresh.runs hrun
  obtain rfl := Option.some.inj (hrun''.symm.trans hrun')
  have hunreconciled : db'.statusOf r ≠ some .reconciled := by
    rw [happroved]
    decide
  have hkeeps : run''.replyEpoch = run.replyEpoch → confirmed db r = false → confirmed db' r = false := by
    intro hepoch hunconfirmed
    refine confirmed_kept h hinv.fresh hmessages hunreconciled ?_ hunconfirmed
    rw [epochOf_stored hrun', epochOf_stored hrun, hepoch]
  cases concludes hstep hrule with
  | stays hstatus hepoch =>
      refine hkeeps hepoch (hinv.approved r ?_)
      rw [statusOf_some hrun, ← hstatus, hstatus']
  | approved hstatus hepoch =>
      cases hconfirmed : confirmed db r with
      | true => exact absurd happroved ((approve_status h hrun hstatus).1 hconfirmed)
      | false => exact hkeeps hepoch hconfirmed
  | settled _ _ hreconciled =>
      rw [hstatus'] at hreconciled
      cases hreconciled
  | marked hreconciled =>
      rw [hstatus'] at hreconciled
      cases hreconciled
  | reopened _ hepoch =>
      -- a message of the new epoch cannot have been there before
      by_contra hconfirmed
      rw [Bool.not_eq_false] at hconfirmed
      obtain ⟨e, m, hm, hown, -, -, hcurrent⟩ :=
        confirmed_before h hinv.fresh hmessages hunreconciled hconfirmed
      obtain ⟨run₀, hrun₀, hle⟩ := hinv.timely e m hm
      rw [hown, hrun] at hrun₀
      obtain rfl := Option.some.inj hrun₀
      rw [epochOf_stored hrun', hepoch] at hcurrent
      have hnew := Option.some.inj hcurrent
      omega
  | elsewhere hopen =>
      rw [hstatus'] at hopen
      exact absurd (List.mem_cons_self ..) hopen

theorem reconciled_commit (hinv : Inv db log) (htxn : txn env op db = .ok (a, db')) (hrule : s.rule op)
    (hmessages : MessagesStep db db') (hreconciled : db'.statusOf r = some .reconciled) :
    confirmed db' r = true ∨ acknowledged r (⟨i, op, a, db, db'⟩ :: log) = true := by
  have h := txn_effect htxn
  obtain ⟨run', hrun', hstatus'⟩ := Option.map_eq_some_iff.mp hreconciled
  obtain ⟨run, hrun⟩ := concluded_before (runsGrow (runsWrite h hinv.fresh)) hrun'
    (by rw [hstatus']; decide)
  obtain ⟨run'', hrun'', hstep⟩ := runStep h hinv.fresh.runs hrun
  obtain rfl := Option.some.inj (hrun''.symm.trans hrun')
  have hepochs : run''.replyEpoch = run.replyEpoch → db'.epochOf r = db.epochOf r := by
    intro hepoch
    rw [epochOf_stored hrun', epochOf_stored hrun, hepoch]
  cases concludes hstep hrule with
  | stays hstatus hepoch =>
      have hsame := hepochs hepoch
      rcases hinv.reconciled r (by rw [statusOf_some hrun, ← hstatus, hstatus']) with
        hconfirmed | hacknowledged
      · exact .inl (confirmed_stays hmessages hsame hconfirmed)
      · refine .inr ?_
        rw [acknowledged, since, Bool.or_eq_true, Bool.and_eq_true]
        exact .inr ⟨decide_eq_true hsame, hacknowledged⟩
  | approved hstatus hepoch =>
      cases hconfirmed : confirmed db r with
      | true => exact .inl (confirmed_stays hmessages (hepochs hepoch) hconfirmed)
      | false => exact absurd hreconciled ((approve_status h hrun hstatus).2 hconfirmed)
  | settled hsettles hstatus =>
      have hbefore : db.statusOf r ≠ some .reconciled := by
        rw [statusOf_some hrun]
        exact fun h => hstatus (Option.some.inj h)
      cases op with
      | settleOutboundDeliveryJob job result =>
          exact .inl ((settled htxn hinv.provided).confirms hbefore hreconciled)
      | reapExpiredFinalAttempt =>
          exact absurd hreconciled ((reaped htxn).unreconciled hbefore)
      | _ => cases hsettles
  | marked =>
      refine .inr ?_
      rw [acknowledged, since, Bool.or_eq_true]
      exact .inl (decide_eq_true rfl)
  | reopened happroved =>
      rw [hstatus'] at happroved
      cases happroved
  | elsewhere hopen =>
      rw [hstatus'] at hopen
      exact absurd (List.mem_cons_of_mem _ (List.mem_cons_self ..)) hopen

theorem inv_exec (hinv : Inv db log) (hworking : Working s db) (hop : s.allows op) :
    Inv (exec env op db).2 (commits i env op db ++ log) := by
  apply exec_recorded hinv
  intro a db' htxn
  have heffect := txn_effect htxn
  have hmessages := messagesStep_of_allows heffect hinv.fresh hworking hop
  refine ⟨⟨fun r => reconciled_commit hinv htxn hop.1 hmessages,
    fun r => approved_commit hinv heffect hop.1 hmessages⟩, fresh_step heffect hinv.fresh,
    slots_step hmessages hinv.slots, provided_step hinv.fresh heffect hinv.provided, ?_⟩
  refine timely_step hmessages hinv.timely fun r run hrun => ?_
  obtain ⟨run', hrun', hstep⟩ := runStep heffect hinv.fresh.runs hrun
  exact ⟨run', hrun', hstep.epoch_le⟩

theorem preserved : World.Preserved recorder thread World.Rules.any (fun db => Inv db [])
    conduct Work.fresh Inv (fun _ s db _ => Working s db) where
  init _ h := h
  follows k _ := thread_follows k
  fresh _ _ _ _ := nofun
  shared _ _ _ _ _ _ hinv hworking hop _ := inv_exec hinv hworking hop
  own _ _ _ _ _ _ hinv hworking hop _ := working_own hinv.fresh hworking hop
  other _ _ _ _ _ _ hinv _ _ _ _ _ _ ht := working_other hinv.fresh ht

/-- A commit that settles a delivery, reaps a job or closes a review by the
operator's word makes all its writes or none. -/
structure WholeCommit (c : Commit) : Prop where
  settled : ∀ job result, c.op = .settleOutboundDeliveryJob job result →
    Settled c.before job result c.after
  reaped : c.op = .reapExpiredFinalAttempt → ∃ j, Reaped c.before j c.after
  acknowledged : ∀ r, c.op = .markDeliveryDelivered r → c.after = c.before ∨
    Acknowledged c.before r c.after

theorem wholeCommit (htxn : txn env op db = .ok (a, db')) (hprovided : Provided db) :
    WholeCommit ⟨i, op, a, db, db'⟩ := by
  refine ⟨fun job result hop => ?_, fun hop => ?_, fun r hop => ?_⟩
  · subst hop
    exact settled htxn hprovided
  · subst hop
    exact ⟨env.picked, reaped htxn⟩
  · subst hop
    exact acknowledges (txn_effect htxn)

/-- A reconciled run has its confirmation sent or acknowledged, no approved run
has it sent, and every settlement makes all its writes or none. -/
theorem settlement_coherent {w : World Op Ans Exn Db Commit}
    (hreach : World.Reach recorder thread World.Rules.any (fun db => Inv db []) w) :
    Coherent w.data w.log ∧ ∀ c ∈ w.log, WholeCommit c := by
  refine ⟨(preserved.reach hreach).1.toCoherent, fun c hc => ?_⟩
  obtain ⟨newer, older, hlog⟩ := List.append_of_mem hc
  obtain ⟨w', hreach', hbefore, -, env, -, htxn⟩ := reach_before hreach hlog
  exact wholeCommit htxn (hbefore ▸ (preserved.reach hreach').1.provided)

end

section Histories

attribute [local instance] asciiText

theorem inv_emptyDb : Inv emptyDb [] := by
  have hruns : ∀ r, emptyDb.statusOf r = none := fun _ => rfl
  have hout : ∀ e, emptyDb.outbound.get? e = none := fun _ => rfl
  have hhandoffs : ∀ j, emptyDb.handoffs.get? j = none := fun _ => rfl
  refine ⟨⟨fun r h => ?_, fun r h => ?_⟩, Fresh.of_keys (by decide),
    ⟨fun i j m m' hm => ?_, fun i m hm => ?_⟩, fun j row hrow => ?_, fun e m hm => ?_⟩
  · rw [hruns] at h
    cases h
  · rw [hruns] at h
    cases h
  · rw [hout] at hm
    cases hm
  · rw [hout] at hm
    cases hm
  · rw [hhandoffs] at hrow
    cases hrow
  · rw [hout] at hm
    cases hm

def deliveredByHand : List (Event Thread Env) :=
  arrives 0 5 none ++ works 1 10 12 silent ++ [.spawn (.approve 11),
    .run 2 { envelope := letter }] ++ sendFails 3 16 ++ [.spawn (.markDelivered 11), .run 4 {}]

/-- The reconciled run has no confirmation that is sent, so it was acknowledged. -/
theorem settlement_coherent_byHand : confirmed (recordedAfter emptyDb deliveredByHand).data 11 = false ∧
    acknowledged 11 (recordedAfter emptyDb deliveredByHand).log = true := by
  have hreach : World.Reach recorder thread World.Rules.any (fun db => Inv db [])
    (recordedAfter emptyDb deliveredByHand) :=
    reach_recordedAfter inv_emptyDb deliveredByHand
  have hstatus : (recordedAfter emptyDb deliveredByHand).data.statusOf 11 = some .reconciled := by
    decide +kernel
  have hunconfirmed : confirmed (recordedAfter emptyDb deliveredByHand).data 11 = false := by
    decide +kernel
  generalize recordedAfter emptyDb deliveredByHand = w at *
  refine ⟨hunconfirmed, ?_⟩
  rcases (settlement_coherent hreach).1.reconciled 11 hstatus with hconfirmed | hacknowledged
  · rw [hunconfirmed] at hconfirmed
    cases hconfirmed
  · exact hacknowledged

end Histories

end PayrollAgent.SettlementCoherence
