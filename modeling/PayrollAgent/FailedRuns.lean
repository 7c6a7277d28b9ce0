import PayrollAgent.Diagnostics
import PayrollAgent.UnaccountedErrors

namespace PayrollAgent.FailedRuns

open Lib Repo AliasLearning RunStages Delivery RunRoutes ClarificationWrites Ingest Handlers Conduct
  Effects RunSteps FreshIds JobSteps NewJobs Commits UnaccountedErrors Diagnostics

/-- The call that took a run into ERROR, and the diagnosis it left. -/
inductive Cause : Op → ErrorReason → ErrorDetail → Prop
  | terminal {job : Job} {result : PipelineResult} (hresult : result.outcome = .terminal) :
      Cause (.settlePipelineJob job result) (.pipeline result.reason)
      (.diagnostic result.stage result.reason none)
  | exhausted {job : Job} {result : PipelineResult} (hresult : result.outcome = .retryable) :
      Cause (.settlePipelineJob job result) .retryExhausted
      (.diagnostic result.stage result.reason (some (5, 5)))
  | reaped : Cause .reapExpiredFinalAttempt .finalAttemptLeaseExpired (.finalAttemptLeaseExpired 5 5)
  | recorded {r : Uuid} {e : Exn} : Cause (.recordRunError r e) (.exception e) (.delivery e)

def setsError : Op → Prop
  | .claimStatus _ _ new => new = .error
  | .setStatus _ s => s = .error
  | .finishClarificationDeliveryReview _ target _ => target = .error
  | _ => False

/-- What a transaction does to the diagnosis of a run. -/
inductive DiagnosisWrite (op : Op) (run run' : Run) : Prop
  | kept (hreason : run'.errorReason = run.errorReason) (hdetail : run'.errorDetail = run.errorDetail)
      (hstatus : run'.status = .error → run.status = .error ∨ setsError op)
  | elsewhere (hstatus : run'.status ≠ .error)
  | failed {reason : ErrorReason} {detail : ErrorDetail} (hwas : run.status ≠ .error)
      (hreason : run'.errorReason = some reason) (hdetail : run'.errorDetail = some detail)
      (hcause : Cause op reason detail)

structure Laddered (row : JobRow) : Prop where
  maxAttempts : row.maxAttempts = maxAttempts row.kind
  attempts : row.attempts ≤ row.maxAttempts

def JobsLaddered (db : Db) : Prop := ∀ j row, db.jobs.get? j = some row → Laddered row

variable {db db' db₁ : Db} {op : Op} {r q j : Uuid} {run run' : Run} {row row' : JobRow} {f : Run → Run}

theorem laddered_of_enqueued (h : Enqueued row) : Laddered row where
  maxAttempts := h.maxAttempts
  attempts := by rw [h.attempts]; exact Nat.zero_le _

theorem Laddered.spent (h : Laddered row) (hkind : row.kind ≠ .sendOutbound)
    (hlast : row.maxAttempts ≤ row.attempts) : row.attempts = 5 ∧ row.maxAttempts = 5 := by
  have hmax : row.maxAttempts = 5 := by
    rw [h.maxAttempts]
    cases hrow : row.kind with
    | sendOutbound => exact absurd hrow hkind
    | _ => rfl
  have hle := h.attempts
  omega

section

variable [PyText] {env : Env} {a : Ans op}

omit [PyText] in
theorem Laddered.step (h : Laddered row) (hstep : JobStep env db db' j row op a row') :
    Laddered row' := by
  have hsame := hstep.same
  refine ⟨by rw [hsame.maxAttempts, hsame.kind, h.maxAttempts], ?_⟩
  have hgave : ∀ {state : JobState}, Unleased db.now state row row' →
    row'.attempts ≤ row'.maxAttempts := fun hgave => by
    rw [hgave.attempts.2, hsame.maxAttempts]
    exact h.attempts
  cases hstep with
  | kept => exact h.attempts
  | leased _ hclaim =>
      simp only [claimable, Bool.and_eq_true, decide_eq_true_eq] at hclaim
      exact hclaim.1
  | reapedInvalid _ _ _ _ hrow' => exact hgave hrow'
  | reapedReview _ _ _ hrow' => exact hgave hrow'
  | reapedOther _ hrow' => exact hgave hrow'
  | retired _ _ _ hrow' => exact hgave hrow'
  | settled _ _ _ _ hrow' => exact hgave hrow'
  | closed _ _ _ _ hrow' => exact hgave hrow'
  | released => exact h.attempts
  | advanced => exact h.attempts

theorem jobsLaddered_step (h : JobsLaddered db) (heffect : Effect env db op a db') (hfresh : Fresh db) :
    JobsLaddered db' := by
  intro j row' hrow'
  cases hrow : db.jobs.get? j with
  | none =>
      obtain hold | hnew := (jobsGrow heffect).jobs j row' hrow'
      · rw [hrow] at hold
        cases hold
      · exact laddered_of_enqueued hnew
  | some row =>
      obtain ⟨row'', hrow'', hstep⟩ := jobStep heffect hfresh hrow
      obtain rfl := Option.some.inj (hrow''.symm.trans hrow')
      exact (h j row hrow).step hstep

end

/-- The row of the run after the transaction, and its diagnosis. -/
def Diagnosed (op : Op) (r : Uuid) (run : Run) (db' : Db) : Prop :=
  ∃ run', db'.runs.get? r = some run' ∧ DiagnosisWrite op run run'

theorem Diagnosed.same (h : db'.runs = db.runs) (hrun : db.runs.get? r = some run) :
    Diagnosed op r run db' :=
  ⟨run, by rw [h, hrun], .kept rfl rfl .inl⟩

theorem Diagnosed.modify (h : db'.runs = db.runs.modify q f) (hrun : db.runs.get? r = some run)
    (hf : r = q → DiagnosisWrite op run (f run)) : Diagnosed op r run db' := by
  by_cases hrq : r = q
  · refine ⟨f run, ?_, hf hrq⟩
    rw [h, hrq, Dict.get?_modify_self (hrq ▸ hrun)]
  · refine ⟨run, ?_, .kept rfl rfl .inl⟩
    rw [h, Dict.get?_modify_of_ne _ hrq, hrun]

/-- A write that leaves the diagnosis and moves the run elsewhere, if at all. -/
theorem Diagnosed.moved {s : RunStatus} (h : db'.runs = db.runs.modify q f)
    (hrun : db.runs.get? r = some run)
    (hs : s ≠ .error) (hf : (f run).status = s) : Diagnosed op r run db' :=
  .modify h hrun fun _ => .elsewhere (hf ▸ hs)

theorem Diagnosed.errored {reason : ErrorReason} {detail : ErrorDetail} {s : RunStatus}
    (hstatus : db.statusOf q = some s) (hs : s ≠ .error) (hcause : Cause op reason detail)
    (h : db'.runs = (setRunError q reason detail s db).2.runs) (hrun : db.runs.get? r = some run) :
    Diagnosed op r run db' := by
  refine .modify (h.trans (setRunError_runs hstatus)) hrun fun hrq => .failed (fun herror => hs ?_)
    rfl rfl hcause
  subst hrq
  rw [Db.statusOf, hrun, Option.map_some, herror] at hstatus
  exact (Option.some.inj hstatus).symm

theorem Diagnosed.setStatus {s : RunStatus} (h : db'.runs = (setStatus q s db).runs)
    (hrun : db.runs.get? r = some run) (hs : s = .error → setsError op) : Diagnosed op r run db' :=
  .modify (h.trans (Db.modifyRun_runs ..)) hrun fun _ => .kept rfl rfl fun herror => .inr (hs herror)

theorem diagnosed_persistStages (s : StageResult) (hrun : db.runs.get? r = some run) :
    Diagnosed (.persistStages q s) r run (persistStages q s db) := by
  have hfound : ∃ f, (persistStages q s db).runs = db.runs.modify q f ∧
    ∀ run, (f run).errorReason = run.errorReason ∧
      (f run).errorDetail = run.errorDetail ∧ ((f run).status = .error → run.status = .error) := by
    unfold persistStages
    dsimp only [Repo.setStatus, Db.modifyRun]
    split
    · simp only [Dict.modify_modify]
      exact ⟨_, rfl, fun _ => ⟨rfl, rfl, nofun⟩⟩
    · dsimp only
      exact ⟨_, rfl, fun _ => ⟨rfl, rfl, id⟩⟩
  obtain ⟨f, hruns, hf⟩ := hfound
  obtain ⟨hreason, hdetail, hstatus⟩ := hf run
  exact .modify hruns hrun fun _ => .kept hreason hdetail fun h => .inl (hstatus h)

theorem diagnosed_reserveClarification (question : Question) (hrun : db.runs.get? r = some run) :
    Diagnosed (.reserveClarification q question) r run (reserveClarification q question db) := by
  have hfound : ∃ f, (reserveClarification q question db).runs = db.runs.modify q f ∧
      ∀ run, (f run).status = .awaitingReply := by
    simp only [reserveClarification, pauseForReply_runs]
    cases question.candidates with
    | none =>
        simp only [enqueueSend_runs, reserveOutboundSnapshot_runs]
        exact ⟨_, rfl, fun _ => rfl⟩
    | some candidates =>
        simp only [setAliasCandidates, Db.modifyRun, enqueueSend_runs, reserveOutboundSnapshot_runs,
          Dict.modify_modify]
        exact ⟨_, rfl, fun _ => rfl⟩
  obtain ⟨f, hruns, hf⟩ := hfound
  exact .moved hruns hrun (by decide) (hf run)

section

variable [PyText] {env : Env} {a : Ans op} {backoff : Nat} {job : Job} {result : PipelineResult}

theorem diagnosed_settleSent (e : Uuid) (purpose : Purpose) (hruns : db₁.runs = db.runs)
    (h : db'.runs = (settleSent q e purpose db₁).runs) (hrun : db.runs.get? r = some run) :
    Diagnosed op r run db' := by
  rw [settleSent_runs, hruns] at h
  split at h
  · exact .moved (s := .reconciled) h hrun (by decide) rfl
  · exact .same h hrun

omit [PyText] in
theorem diagnosed_settleRunError {reason : ErrorReason} {attempts : Option (Nat × Nat)} {state : JobState}
    {outcome : SettlementOutcome}
    (hcause : Cause op reason (.diagnostic result.stage result.reason attempts))
    (hrun : db.runs.get? r = some run) :
    Diagnosed op r run (settleRunError job result q reason attempts state outcome db).2 := by
  by_cases hstatus : db.statusOf q = some .extracting
  · have hsettle : (settleRunError job result q reason attempts state outcome db).2 =
        finish job.id state (Repo.diagnosticCode result) (setRunError q reason
          (.diagnostic result.stage result.reason attempts) .extracting db).2 := by
      simp [settleRunError, setRunError, hstatus]
    exact .errored hstatus (by decide) hcause (by rw [hsettle]; rfl) hrun
  · have hsettle : (settleRunError job result q reason attempts state outcome db).2 = db := by
      simp [settleRunError, setRunError, hstatus]
    exact .same (by rw [hsettle]) hrun

omit [PyText] in
theorem diagnosed_settle (hladder : JobsLaddered db) (hkind : job.kind ≠ .sendOutbound)
    (hrun : db.runs.get? r = some run) :
    Diagnosed (.settlePipelineJob job result) r run (settlePipelineJob job result backoff db).2 := by
  unfold settlePipelineJob
  split
  · exact .same rfl hrun
  next row hrow =>
    obtain ⟨hrow, -⟩ := lockedJob_some hrow
    split
    · exact .same rfl hrun
    next hsame =>
      have hsend : row.kind ≠ .sendOutbound := not_not.mp hsame ▸ hkind
      split
      · split
        · unfold settleIngestJob
          split
          · split
            · exact .same rfl hrun
            · exact .same rfl hrun
          · exact .same rfl hrun
          · exact .same rfl hrun
        · exact .same rfl hrun
      · split
        · exact .same rfl hrun
        next q hq =>
          split
          · unfold settleRunJob
            split
            · exact .same rfl hrun
            next hretry =>
              split
              · by_cases hstatus : db.statusOf q = some .extracting
                · simp only [rewindRun, claimStatus, hstatus, if_true]
                  exact .setStatus (s := .received) rfl hrun (by simp)
                · simp only [rewindRun, claimStatus, hstatus, if_false]
                  exact .same rfl hrun
              next hlast =>
                -- the ladder of the job is spent
                obtain ⟨hattempts, hmax⟩ := (hladder _ row hrow).spent hsend (by omega)
                rw [hattempts, hmax]
                exact diagnosed_settleRunError (.exhausted hretry) hrun
            next hterminal => exact diagnosed_settleRunError (.terminal hterminal) hrun
          · exact .same rfl hrun

theorem diagnosed_effect (h : Effect env db op a db') (hladder : JobsLaddered db)
    (hop : ∀ job result, op ≠ .settlePipelineJob job result) (hrun : db.runs.get? r = some run) :
    Diagnosed op r run db' := by
  cases h with
  | reapedReview => exact .moved (s := .needsOperator) (enterDeliveryReview_runs ..) hrun (by decide) rfl
  | @reapedRun row q s hrow hreap hkind hstatus hs =>
      simp only [reapable, decide_eq_true_eq] at hreap
      obtain ⟨hattempts, hmax⟩ := (hladder _ row hrow).spent hkind hreap.2.1.ge
      have hcause : Cause .reapExpiredFinalAttempt .finalAttemptLeaseExpired
          (.finalAttemptLeaseExpired row.attempts row.maxAttempts) := by
        rw [hattempts, hmax]
        exact .reaped
      refine .errored hstatus ?_ hcause rfl hrun
      rintro rfl
      exact absurd hs (by decide)
  | recorded => exact diagnosed_settleSent _ _ rfl rfl hrun
  | expired => exact .moved (s := .needsOperator) (enterDeliveryReview_runs ..) hrun (by decide) rfl
  | @sent job result row r e m run h =>
      have hruns : (appendDeliveryAttempt e .sent .none (releaseHandoff h .finalized db)).runs =
        db.runs := rfl
      exact diagnosed_settleSent e m.purpose hruns rfl hrun
  | reviewed => exact .moved (s := .needsOperator) (enterDeliveryReview_runs ..) hrun (by decide) rfl
  | closed => exact absurd rfl (hop _ _)
  | requeued => exact absurd rfl (hop _ _)
  | failed => exact absurd rfl (hop _ _)
  | claimed => exact .setStatus rfl hrun id
  | statusSet => exact .setStatus rfl hrun id
  | rewound => exact .moved (s := .received) (Db.modifyRun_runs ..) hrun (by decide) rfl
  | fieldsSet => exact .modify (Db.modifyRun_runs ..) hrun fun _ => .kept rfl rfl .inl
  | candidatesSet => exact .modify (Db.modifyRun_runs ..) hrun fun _ => .kept rfl rfl .inl
  | persisted => exact diagnosed_persistStages _ hrun
  | escalated => exact .setStatus (s := .needsOperator) rfl hrun (by simp)
  | finalized => exact .moved (s := .awaitingReply) (pauseForReply_runs ..) hrun (by decide) rfl
  | @replayed q e extracted m =>
      have hruns := pauseForReply_runs q m.round extracted (enqueueSend q e db)
      rw [enqueueSend_runs, enqueueSend_now] at hruns
      exact .moved (s := .awaitingReply) hruns hrun (by decide) rfl
  | reserved => exact diagnosed_reserveClarification _ hrun
  | redelivered => exact .same (authorizedReplyJob_runs ..) hrun
  | @created mail businessId =>
      have hruns : (enqueueJob .runPipeline (.runPipeline (db.nextId + 1) 0) (some (db.nextId + 1))
        none none none ((stored mail db).insertRun (Run.created businessId db.nextId db.now))).runs =
            db.runs.set (db.nextId + 1) (Run.created businessId db.nextId db.now) := enqueueJob_runs ..
      by_cases hnew : r = db.nextId + 1
      · refine ⟨_, by rw [hruns, hnew, Dict.get?_set_self], .elsewhere fun herror => ?_⟩
        cases herror
      · exact ⟨run, by rw [hruns, Dict.get?_set_of_ne _ hnew, hrun], .kept rfl rfl .inl⟩
  | replied => exact .same (authorizedReplyJob_runs ..) hrun
  | prepared => exact .modify (Db.modifyRun_runs ..) hrun fun _ => .kept rfl rfl .inl
  | @approved q =>
      obtain hdeliver | hdeliver := deliver_runs q env.envelope (Repo.setStatus q .approved db)
      · exact .setStatus (s := .approved) hdeliver hrun (by simp)
      · rw [Repo.setStatus, Db.modifyRun_runs, Dict.modify_modify] at hdeliver
        exact .moved (s := .reconciled) hdeliver hrun (by decide) rfl
  | @errored q s e hstatus hs =>
      refine .modify (Db.modifyRun_runs ..) hrun fun hrq => .failed (fun herror => hs ?_)
        rfl rfl .recorded
      subst hrq
      rw [Db.statusOf, hrun, Option.map_some, herror] at hstatus
      rw [← Option.some.inj hstatus]
      decide
  | @retriggered q run₁ db₁ hrun₁ _ hclaim =>
      obtain ⟨rfl, hstatus⟩ | ⟨rfl, -⟩ := hclaim
      · refine .modify (enqueueJob_runs ..) hrun fun hrq => .elsewhere fun herror => ?_
        subst hrq
        rw [Db.statusOf, hrun, Option.map_some] at hstatus
        have hkept : (openEpoch db₁.now run).status = run.status := rfl
        rw [hkept, Option.some.inj hstatus] at herror
        cases herror
      · exact .moved (s := .received) ((enqueueJob_runs ..).trans (Dict.modify_modify ..)) hrun
          (by decide) rfl
  | markedDelivered _ hresolve =>
      exact .moved (s := .reconciled) (resolved_runs hresolve) hrun (by decide) rfl
  | authorizedNew _ hresolve =>
      exact .moved (s := .approved) (authorizedNew_runs _ hresolve) hrun (by decide) rfl
  | finishedReview => exact .modify (finishedReview_runs ..) hrun fun _ => .kept rfl rfl .inr
  | resolved => exact .same (enqueueJob_runs ..) hrun
  | _ => exact .same rfl hrun

omit [PyText] in
theorem not_setsError {s : Work} (h : conduct.allows s op) : ¬setsError op := by
  have hrule := h.1
  cases op with
  | claimStatus q expected new =>
      rintro rfl
      rcases hrule with hmem | ⟨-, hmem⟩ | ⟨-, -, -, hnew⟩
      · simp [rejections] at hmem
      · simp [reentries] at hmem
      · cases hnew
  | setStatus q status =>
      rintro rfl
      cases hrule.2
  | finishClarificationDeliveryReview q target acknowledge =>
      rintro rfl
      rcases hrule with hmem | hmem
      · cases hmem
      · cases hmem
  | _ => exact id

/-- No run is in ERROR yet and nobody claimed a job. -/
structure Start (db : Db) : Prop extends Quiet db where
  enqueued : ∀ j row, db.jobs.get? j = some row → Enqueued row

/-- The diagnosis of a run in ERROR is that of the commit that took it there. -/
structure Explained (db : Db) (log : List Commit) : Prop where
  fresh : Fresh db
  ladder : JobsLaddered db
  failed : ∀ r run, db.runs.get? r = some run → run.status = .error → ∃ c reason detail,
    UnaccountedErrors.failure r log = some c ∧
    run.errorReason = some reason ∧ run.errorDetail = some detail ∧ Cause c.op reason detail

variable {i : Nat} {s : Work} {log : List Commit}

theorem diagnosed (htxn : txn env op db = .ok (a, db')) (hladder : JobsLaddered db)
    (hallows : conduct.allows s op) (hrun : db.runs.get? r = some run) : Diagnosed op r run db' := by
  by_cases hop : ∃ job result, op = .settlePipelineJob job result
  · obtain ⟨job, result, rfl⟩ := hop
    have hdb : (settlePipelineJob job result env.backoff db).2 = db' :=
      congrArg Prod.snd (Except.ok.inj htxn)
    rw [← hdb]
    exact diagnosed_settle hladder hallows.1.2 hrun
  · exact diagnosed_effect (txn_effect htxn) hladder (fun job result h => hop ⟨job, result, h⟩) hrun

theorem Explained.commit (h : Explained db log) (htxn : txn env op db = .ok (a, db'))
    (hallows : conduct.allows s op) : Explained db' (⟨i, op, a, db, db'⟩ :: log) := by
  have heffect := txn_effect htxn
  refine ⟨fresh_step heffect h.fresh, jobsLaddered_step h.ladder heffect h.fresh,
    fun r run' hrun' herror => ?_⟩
  have hafter : db'.statusOf r = some .error := by
    rw [Db.statusOf, hrun', ← herror]
    rfl
  cases hrun : db.runs.get? r with
  | none =>
      have hnone := hrun
      obtain ⟨run, hrun⟩ | ⟨businessId, e, now, rfl⟩ :=
        runsGrow (EmailSteps.runsWrite heffect h.fresh) r run' hrun'
      · rw [hrun] at hnone
        cases hnone
      · cases herror
  | some run =>
      obtain ⟨run₁, hrun₁, hwrite⟩ := diagnosed htxn h.ladder hallows hrun
      obtain rfl := Option.some.inj (hrun₁.symm.trans hrun')
      cases hwrite with
      | kept hreason hdetail hstatus =>
          have hwas : run.status = .error := (hstatus herror).resolve_right (not_setsError hallows)
          obtain ⟨c, reason, detail, hfailure, hreason₀, hdetail₀, hcause⟩ := h.failed r run hrun hwas
          have hbefore : db.statusOf r = some .error := by
            rw [Db.statusOf, hrun, ← hwas]
            rfl
          refine ⟨c, reason, detail, ?_, hreason.trans hreason₀, hdetail.trans hdetail₀, hcause⟩
          rw [UnaccountedErrors.failure, List.find?_cons_of_neg]
          · exact hfailure
          · simp [fails, hbefore]
      | elsewhere hstatus => exact absurd herror hstatus
      | @failed reason detail hwas hreason hdetail hcause =>
          have hbefore : db.statusOf r ≠ some .error := by
            rw [Db.statusOf, hrun, Option.map_some]
            exact fun hsome => hwas (Option.some.inj hsome)
          refine ⟨⟨i, op, a, db, db'⟩, reason, detail, ?_, hreason, hdetail, hcause⟩
          rw [UnaccountedErrors.failure, List.find?_cons_of_pos]
          exact decide_eq_true ⟨hbefore, hafter⟩

theorem preserved : World.Preserved recorder thread World.Rules.any Start conduct Work.fresh Explained
    fun _ _ _ _ => True where
  init db h := by
    refine ⟨h.fresh, fun j row hrow => laddered_of_enqueued (h.enqueued j row hrow),
      fun r run hrun herror => ?_⟩
    refine absurd ?_ (h.errors r)
    rw [Db.statusOf, hrun, ← herror]
    rfl
  follows k _ := Conduct.thread_follows k
  fresh _ _ _ _ := trivial
  shared _ env op _ _ _ hG _ hallows _ := exec_recorded hG fun _ _ htxn => hG.commit htxn hallows
  own _ _ _ _ _ _ _ _ _ _ := trivial
  other _ _ _ _ _ _ _ _ _ _ _ _ _ _ := trivial

end

/-- The columns of the runs list that no other module reads. -/
structure Joined where
  createdAt : Value
  businessName : Value
  summaryGateReason : Value
  employeeCount : Value

/-- ORDER BY created_at DESC, id DESC LIMIT 1. Identifiers are drawn in the order
of creation. -/
def latestJob (r : Uuid) (db : Db) : Option (Nat × Nat) :=
  (newest Prod.fst 1 (db.jobs.entries.filter fun p => p.2.runId = some r)).head?.map fun p =>
    (p.2.attempts, p.2.maxAttempts)

inductive QueueLabel
  | running
  | queued
  | retryQueued
  deriving DecidableEq, Repr

def QueueLabel.text : QueueLabel → Str
  | .running => "Running".toList
  | .queued => "Queued".toList
  | .retryQueued => "Retry queued".toList

def getRunQueueLabel (r : Uuid) (db : Db) : Option QueueLabel :=
  let rows := db.jobs.values.filter fun row => row.runId = some r
  if rows.any fun row => row.state = .leased then some .running
  else if rows.any fun row => row.state = .pending ∧ row.availableAt ≤ db.now then some .queued
  else if rows.any fun row => row.state = .pending then some .retryQueued
  else none

section

variable [PyText] [PyUnicode]

/-- A row of `load_all_runs`. -/
def loadAllRunsRow (wording : Wording) (joined : Joined) (db : Db) (r : Uuid) (run : Run) : Row :=
  Dict.ofList
    [("id".toList, .other r), ("business_id".toList, .other run.businessId),
    ("status".toList, .text run.status.value),
      ("created_at".toList, joined.createdAt), ("updated_at".toList, .other run.updatedAt),
      ("error_reason".toList, .ofText (run.errorReason.map (errorReasonText wording))),
      ("error_detail".toList, .ofText (run.errorDetail.bind (errorDetailText wording))),
      ("business_name".toList, joined.businessName),
      ("summary_gate_reason".toList, joined.summaryGateReason),
      ("employee_count".toList, joined.employeeCount),
      ("job_attempts".toList, (latestJob r db).elim .null fun counters => .int counters.1),
      ("job_max_attempts".toList, (latestJob r db).elim .null fun counters => .int counters.2),
      ("queue_label".toList, .ofText ((getRunQueueLabel r db).map QueueLabel.text))]

/-- What the list shows of a run that the call took into ERROR. -/
def presentation (latest : Option (Nat × Nat)) : Op → FailurePresentation
  | .settlePipelineJob _ result =>
      if result.outcome = .retryable then shown true result.stage result.reason
        (some "5 of 5 attempts".toList)
      else shown false result.stage result.reason (jobAttempts latest)
  | .reapExpiredFinalAttempt => leaseExpired (5, 5)
  | _ => generic

variable {wording : Wording} {joined : Joined} {db : Db} {r : Uuid} {run : Run} {op : Op}
    {reason : ErrorReason} {detail : ErrorDetail}

theorem failed_loadAllRunsRow (herror : run.status = .error) (hreason : run.errorReason = some reason) :
    Failed (loadAllRunsRow wording joined db r run) (errorReasonText wording reason)
      (run.errorDetail.bind (errorDetailText wording)) (latestJob r db) where
  status := by simp [loadAllRunsRow, column, Dict.ofList, Dict.get?_set, herror]
  reason := by simp [loadAllRunsRow, column, Dict.ofList, Dict.get?_set, hreason, Value.ofText]
  detail := by simp [loadAllRunsRow, column, Dict.ofList, Dict.get?_set]
  attempts := by simp [loadAllRunsRow, column, Dict.ofList, Dict.get?_set]
  maxAttempts := by simp [loadAllRunsRow, column, Dict.ofList, Dict.get?_set]

theorem blank_mem_buildErrorDetail {message : Option Str} {roster : Option Roster} {d : Str}
    (h : buildErrorDetail "delivery" message roster = some d) : ' ' ∈ d := by
  obtain ⟨m, -, rfl⟩ := Option.map_eq_some_iff.mp h
  have hcut : (("delivery".toList ++ ": ".toList ++ Scrub.scrub m roster).take 200) =
      "delivery: ".toList ++ (Scrub.scrub m roster).take 190 := rfl
  rw [hcut]
  exact List.mem_append_left _ (by decide)

theorem present_failed {row : Row} {latest : Option (Nat × Nat)} (hcause : Cause op reason detail)
    (h : Failed row (errorReasonText wording reason) (errorDetailText wording detail) latest) :
    safeFailurePresentation row = .ok (presentation latest op) := by
  have hfive : attemptsText (5 : Nat) (5 : Nat) = "5 of 5 attempts".toList := by decide
  cases hcause with
  | @terminal job result hresult =>
      have hterminal : presentation latest (.settlePipelineJob job result) =
          shown false result.stage result.reason (jobAttempts latest) := by
        rw [presentation, if_neg (by rw [hresult]; decide)]
      rw [hterminal]
      exact present_terminal h
  | @exhausted job result hresult =>
      have hexhausted : presentation latest (.settlePipelineJob job result) =
          shown true result.stage result.reason (some (attemptsText (5 : Nat) (5 : Nat))) := by
        rw [presentation, if_pos hresult, hfive]
      rw [hexhausted]
      exact @present_exhausted _ _ _ _ (5, 5) (by decide) (by decide) (by decide) h
  | reaped => exact @present_leaseExpired _ _ (5, 5) (by decide) (by decide) (by decide) h
  | recorded => exact present_blank (fun d hd => blank_mem_buildErrorDetail hd) h

theorem present_cause (hcause : Cause op reason detail) (herror : run.status = .error)
    (hreason : run.errorReason = some reason) (hdetail : run.errorDetail = some detail) :
    safeFailurePresentation (loadAllRunsRow wording joined db r run) =
      .ok (presentation (latestJob r db) op) := by
  have hfailed := @failed_loadAllRunsRow _ _ wording joined db r run reason herror hreason
  rw [hdetail, Option.bind_some] at hfailed
  exact present_failed hcause hfailed

omit [PyText] [PyUnicode] in
theorem present_unfailed {row : Row} (hrow : column row "status" = .text run.status.value)
    (hstatus : run.status ≠ .error) : safeFailurePresentation row = .ok generic := by
  have hvalue : run.status.value ≠ RunStatus.error.value := by
    cases hwas : run.status with
    | error => exact absurd hwas hstatus
    | _ => decide
  rw [safeFailurePresentation, hrow, if_pos]
  exact fun heq => hvalue (Value.text.inj heq)

section Scrubbed

open Scrub

variable {a d : Str}

omit [PyText] [PyUnicode] in
theorem not_mem_email {c : Char} (h : IsEmail a)
    (hc : isLocalChar c = false ∧ isDomainChar c = false ∧ c.isAlpha = false)
    (hat : c ≠ '@') (hdot : c ≠ '.') : c ∉ a := by
  obtain ⟨user, domain, top, rfl, -, huser, -, hdomain, -, htop⟩ := h
  obtain ⟨hlocal, hdom, halpha⟩ := hc
  intro hmem
  simp only [List.mem_append, List.mem_cons] at hmem
  obtain hmem | rfl | hmem | rfl | hmem := hmem
  · simp [huser c hmem] at hlocal
  · exact hat rfl
  · simp [hdomain c hmem] at hdom
  · exact hdot rfl
  · simp [htop c hmem] at halpha

omit [PyText] [PyUnicode] in
theorem not_email_of_at (h : '@' ∉ d) (ha : IsEmail a) : ¬a <:+: d := by
  obtain ⟨user, domain, top, rfl, -⟩ := ha
  exact fun hinside => h (hinside.subset (by simp))

omit [PyText] [PyUnicode] in
theorem at_notMem_suffix (attempts : Nat × Nat) : '@' ∉ attemptsSuffix attempts := by
  have hdigits : ∀ n, '@' ∉ Nat.toDigits 10 n := fun n hmem => absurd ((word_toDigits n).2 _ hmem)
    (by decide)
  have hmark : '@' ∉ ";attempts=".toList ∧ '@' ∉ "/".toList := by decide
  unfold attemptsSuffix
  simp only [List.mem_append, not_or]
  exact ⟨⟨⟨hmark.1, hdigits _⟩, hmark.2⟩, hdigits _⟩

omit [PyText] [PyUnicode] in
theorem at_notMem_boundedDetail (stage : PipelineStage) (reason : PipelineReason)
    (attempts : Option (Nat × Nat)) : '@' ∉ boundedDetail stage reason attempts := by
  intro hmem
  have hcode : '@' ∉ stage.value ∧ '@' ∉ reason.value :=
    ⟨fun h => absurd ((word_stage stage).2 _ h) (by decide), fun h => absurd
      ((word_reason reason).2 _ h) (by decide)⟩
  have hmem := List.mem_of_mem_take hmem
  simp only [Diagnostics.diagnosticCode, List.mem_append] at hmem
  obtain ((h | h) | h) | h := hmem
  · exact hcode.1 h
  · exact absurd h (by decide)
  · exact hcode.2 h
  · cases attempts with
    | none => simp at h
    | some counters => exact at_notMem_suffix counters h

theorem not_email_buildErrorDetail (hnfc : ∀ s, s ≠ [] → PyText.nfc s ≠ []) {message : Option Str}
    {roster : Option Roster}
    (h : buildErrorDetail "delivery" message roster = some d) (ha : IsEmail a) : ¬a <:+: d := by
  obtain ⟨m, -, rfl⟩ := Option.map_eq_some_iff.mp h
  have hcut : (("delivery".toList ++ ": ".toList ++ scrub m roster).take 200) =
      "delivery:".toList ++ ' ' :: (scrub m roster).take 190 := rfl
  rw [hcut]
  intro hinside
  rcases Lexeme.infix_split (not_mem_email ha (by decide) (by decide) (by decide))
    hinside with hfront | hback
  · exact not_email_of_at (by decide) ha hfront
  · exact (scrub_complete hnfc m roster).2.1 a ha (hback.trans (List.take_prefix _ _).isInfix)

theorem errorDetail_scrubbed (hnfc : ∀ s, s ≠ [] → PyText.nfc s ≠ [])
    (h : errorDetailText wording detail = some d) : d.length ≤ 200 ∧ ∀ a, IsEmail a → ¬a <:+: d := by
  cases detail with
  | deliveryReview category =>
      obtain rfl := Option.some.inj h
      have hbounds : ("delivery_review:".toList ++ category.value).length ≤ 200 ∧
          '@' ∉ "delivery_review:".toList ++ category.value := by
        cases category <;> exact ⟨by decide, by decide⟩
      exact ⟨hbounds.1, fun a ha => not_email_of_at hbounds.2 ha⟩
  | diagnostic stage reason attempts =>
      obtain rfl := Option.some.inj h
      exact ⟨List.length_take_le _ _, fun a ha => not_email_of_at (at_notMem_boundedDetail _ _ _) ha⟩
  | finalAttemptLeaseExpired attempts maxAttempts =>
      obtain rfl := Option.some.inj h
      refine ⟨List.length_take_le _ _, fun a ha => not_email_of_at (fun hmem => ?_) ha⟩
      obtain hmem | hmem := List.mem_append.mp (List.mem_of_mem_take hmem)
      · exact absurd hmem (by decide)
      · exact at_notMem_suffix _ hmem
  | delivery e =>
      refine ⟨?_, fun a ha => not_email_buildErrorDetail hnfc h ha⟩
      obtain ⟨m, -, rfl⟩ := Option.map_eq_some_iff.mp h
      exact List.length_take_le _ _

end Scrubbed

/-- Whatever the interleaving, a run in ERROR shows what the call that took it
there had to say, a run elsewhere shows nothing, and no stored detail is long or
holds an address. -/
theorem failures_shown (hnfc : ∀ s, s ≠ [] → PyText.nfc s ≠ []) {w : World Op Ans Exn Db Commit}
    (hreach : World.Reach recorder thread World.Rules.any Start w) (wording : Wording) (joined : Joined)
    (hrun : w.data.runs.get? r = some run) :
    (run.status = .error → ∃ c, UnaccountedErrors.failure r w.log = some c ∧
      safeFailurePresentation (loadAllRunsRow wording joined w.data r run) =
        .ok (presentation (latestJob r w.data) c.op)) ∧
      (run.status ≠ .error →
        safeFailurePresentation (loadAllRunsRow wording joined w.data r run) = .ok generic) ∧
      ∀ d, run.errorDetail.bind (errorDetailText wording) = some d →
        d.length ≤ 200 ∧ ∀ a, Scrub.IsEmail a → ¬a <:+: d := by
  refine ⟨fun herror => ?_, fun hstatus => ?_, fun d hd => ?_⟩
  · obtain ⟨c, reason, detail, hfailure, hreason, hdetail, hcause⟩ :=
      (preserved.reach hreach).1.failed r run hrun herror
    exact ⟨c, hfailure, present_cause hcause herror hreason hdetail⟩
  · exact present_unfailed (by simp [loadAllRunsRow, column, Dict.ofList, Dict.get?_set]) hstatus
  · obtain ⟨detail, -, hdetail⟩ := Option.bind_eq_some_iff.mp hd
    exact errorDetail_scrubbed hnfc hdetail

end

section Histories

attribute [local instance] asciiText asciiUnicode

theorem start_emptyDb : Start BoundedQuestions.emptyDb := by
  refine ⟨quiet_emptyDb, fun j row hrow => ?_⟩
  have hnone : BoundedQuestions.emptyDb.jobs.get? j = none := rfl
  rw [hnone] at hrow
  cases hrow

def notFound : Wording := ⟨fun _ => "FileNotFoundError".toList, fun _ => some "no such file".toList,
    fun _ => none⟩

def acme : Joined := ⟨.other 0, .text "Acme".toList, .null, .int 1⟩

/-- The second attempt of a run fails in its first write. -/
theorem failure_shown_once :
    ∃ run c, (recordedAfter BoundedQuestions.emptyDb failedOnce).data.runs.get? 11 = some run ∧
      UnaccountedErrors.failure 11 (recordedAfter BoundedQuestions.emptyDb failedOnce).log = some c ∧
      safeFailurePresentation (loadAllRunsRow notFound acme
          (recordedAfter BoundedQuestions.emptyDb failedOnce).data 11 run) =
        .ok (presentation
          (latestJob 11 (recordedAfter BoundedQuestions.emptyDb failedOnce).data) c.op) := by
  have hreach := reach_recordedAfter start_emptyDb failedOnce
  have hfailed : (recordedAfter BoundedQuestions.emptyDb failedOnce).data.statusOf 11 =
    some .error := by decide +kernel
  generalize recordedAfter BoundedQuestions.emptyDb failedOnce = w at *
  obtain ⟨run, hrun, herror⟩ := Option.map_eq_some_iff.mp hfailed
  obtain ⟨c, hfailure, hshown⟩ := (failures_shown (fun _ h => h) hreach notFound acme hrun).1 herror
  exact ⟨run, c, hrun, hfailure, hshown⟩

/-- The page reads "Persistence", "Unclassified failure", "2 of 5 attempts". -/
example : ((recordedAfter BoundedQuestions.emptyDb failedOnce).data.runs.get? 11).map (fun run =>
    (safeFailurePresentation (loadAllRunsRow notFound acme
      (recordedAfter BoundedQuestions.emptyDb failedOnce).data 11
      run)).toOption) = some (some ⟨none, some "Persistence".toList, some "Unclassified failure".toList,
        some "2 of 5 attempts".toList⟩) := by
  decide +kernel

end Histories

end PayrollAgent.FailedRuns
