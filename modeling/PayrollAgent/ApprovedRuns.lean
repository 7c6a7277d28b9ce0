import PayrollAgent.BoundedQuestions
import PayrollAgent.ConfirmationIdentity
import PayrollAgent.JobKeys
import PayrollAgent.OwedSends

namespace PayrollAgent.ApprovedRuns

open Lib Repo Handlers Effects RunSteps JobSteps FreshIds MessageSteps ConfirmationIdentity JobKeys
  BoundedQuestions

def retires (env : Env) : Op → Option Uuid
  | .settleOutboundDeliveryJob job _ => some job.id
  | .settlePipelineJob job _ => some job.id
  | .reapExpiredFinalAttempt => some env.picked
  | _ => none

/-- The run is approved, and `j` is the pending or leased send job of its
confirmation of the current epoch. -/
structure Outstanding (db : Db) (r j : Uuid) : Prop where
  approved : db.statusOf r = some .approved
  queued : ∃ e m row, db.jobs.get? j = some row ∧ row.kind = .sendOutbound ∧ row.emailId = some e ∧
    (row.state = .pending ∨ row.state = .leased) ∧ db.outbound.get? e = some m ∧ m.runId = r ∧
      m.purpose = .confirmation ∧ db.epochOf r = some m.epoch

def ReapsProcessing (r : Uuid) (env : Env) (op : Op) (db : Db) : Prop :=
  op = .reapExpiredFinalAttempt ∧ (∀ e, env.fault ≠ .before e) ∧
    ∃ row, db.jobs.get? env.picked = some row ∧ reapable db.now row = true ∧ row.runId = some r ∧
      row.kind ∈ [JobKind.runPipeline, .resumeReply, .operatorResume]

/-- The database with its unique indexes. -/
structure Indexed (db : Db) : Prop extends WellFormed db where
  keys : UniqueKeys db

section

variable [PyText] {env : Env} {db db' db₁ : Db} {r r₀ j k : Uuid} {op : Op} {a : Ans op}

omit [PyText] in
theorem statusOf_modify {f : Run → Run} (h : db'.runs = db.runs.modify r₀ f) (hr : r₀ ≠ r) :
    db'.statusOf r = db.statusOf r := by
  rw [Db.statusOf, h, Dict.get?_modify_of_ne _ (Ne.symm hr), Db.statusOf]

omit [PyText] in
theorem statusOf_congr (h : db'.runs = db.runs) : db'.statusOf r = db.statusOf r := by
  rw [Db.statusOf, h, Db.statusOf]

omit [PyText] in
/-- The owed message of an approved run is its confirmation, and one job sends
that. -/
theorem send_of_context {row : JobRow} {e : Uuid} {m : Outbound} {run : Run} (hslots : Slots db)
    (hkeys : UniqueKeys db) (hsends : Outstanding db r j) (hrow : db.jobs.get? k = some row)
    (hkind : row.kind = .sendOutbound) (hmail : row.emailId = some e)
    (howed : deliveryContext db r e = some (m, run)) : k = j := by
  obtain ⟨e', m', row', hrow', hkind', hmail', -, hm', hown', hpurpose', hepoch'⟩ := hsends.queued
  obtain ⟨hm, hown, hrun, -, hepoch, hstatus⟩ := deliveryContext_some howed
  have happroved : run.status = .approved := status_of_statusOf hrun hsends.approved
  have hpurpose : m.purpose = .confirmation := by
    rw [happroved] at hstatus
    cases h : m.purpose with
    | confirmation => rfl
    | _ => rw [h] at hstatus; cases hstatus
  have hcurrent : run.replyEpoch = m'.epoch := by
    rw [Db.epochOf, hrun] at hepoch'
    exact Option.some.inj hepoch'
  have hslot : SameSlot m m' := by
    refine ⟨hown.trans hown'.symm, hpurpose.trans hpurpose'.symm, ?_, hepoch.trans hcurrent⟩
    rw [hslots.confirmation e m hm hpurpose, hslots.confirmation e' m' hm' hpurpose']
  obtain rfl := hslots.unique e e' m m' hm hm' hslot
  exact hkeys.send_unique hrow hrow' hkind hkind' hmail hmail'

theorem settleOutbound_runs {job : Job} {result : PipelineResult}
    {outcome : Ans (.settleOutboundDeliveryJob job result)}
    (h : Effect env db (.settleOutboundDeliveryJob job result) outcome db') :
    db'.runs = db.runs ∨ ∃ row r₀ e m run f, InContext db job row r₀ e m run ∧
      db'.runs = db.runs.modify r₀ f := by
  have hsent : ∀ {row r₀ e m run db₁}, InContext db job row r₀ e m run → db₁.runs = db.runs →
      db'.runs = (settleSent r₀ e m.purpose db₁).runs → db'.runs = db.runs ∨
        ∃ row r₀ e m run f, InContext db job row r₀ e m run ∧ db'.runs = db.runs.modify r₀ f := by
    intro row r₀ e m run db₁ hctx hruns₁ hruns
    rw [settleSent_runs, hruns₁] at hruns
    split at hruns
    · exact .inr ⟨row, r₀, e, m, run, _, hctx, hruns⟩
    · exact .inl hruns
  cases h with
  | idle => exact .inl rfl
  | retired => exact .inl rfl
  | recorded hctx => exact hsent hctx rfl rfl
  | expired hctx => exact .inr ⟨_, _, _, _, _, _, hctx, enterDeliveryReview_runs ..⟩
  | @sent job result row r₀ e m run i handoff hctx =>
      have hruns : (appendDeliveryAttempt e .sent .none (releaseHandoff i .finalized db)).runs =
        db.runs := rfl
      exact hsent hctx hruns rfl
  | rescheduled => exact .inl rfl
  | reviewed hctx => exact .inr ⟨_, _, _, _, _, _, hctx, enterDeliveryReview_runs ..⟩

theorem settlePipeline_runs {job : Job} {result : PipelineResult}
    {outcome : Ans (.settlePipelineJob job result)}
    (h : Effect env db (.settlePipelineJob job result) outcome db') :
    db'.runs = db.runs ∨ ∃ r₀ f, db.statusOf r₀ = some .extracting ∧ db'.runs = db.runs.modify r₀ f := by
  cases h with
  | idle => exact .inl rfl
  | closed => exact .inl rfl
  | @requeued _ _ _ r _ _ _ _ hstatus =>
      have hruns : (retryJob job.id env.backoff result (setStatus r .received db)).runs =
          db.runs.modify r fun run => { run with status := .received, updatedAt := db.now } := rfl
      exact .inr ⟨r, _, hstatus, hruns⟩
  | failed _ _ hstatus => exact .inr ⟨_, _, hstatus, setRunError_runs hstatus⟩

omit [PyText] in
theorem reapRun_self (row : JobRow) (h : db.statusOf r = some .approved) :
    (reapRun k row r db).2.statusOf r = some .error := by
  obtain ⟨run, hrun, -⟩ := Option.map_eq_some_iff.mp h
  have happroved : RunStatus.approved ∈ finalLeaseErrorStatuses := by decide
  rw [reapRun, h]
  dsimp only
  rw [if_pos happroved, Db.statusOf]
  change ((setRunError r _ _ .approved db).2.runs.get? r).map Run.status = some .error
  rw [setRunError_runs h, Dict.get?_modify_self hrun, Option.map_some]

omit [PyText] in
theorem reapRun_other (row : JobRow) (hr : r₀ ≠ r) :
    (reapRun k row r₀ db).2.statusOf r = db.statusOf r := by
  unfold reapRun
  split
  · rfl
  next s hstatus =>
    split
    · exact statusOf_modify (setRunError_runs hstatus) hr
    · rfl

omit [PyText] in
theorem reapSend_other {row : JobRow} (hslots : Slots db) (hkeys : UniqueKeys db)
    (hsends : Outstanding db r j)
    (hrow : db.jobs.get? k = some row) (hkind : row.kind = .sendOutbound) (hk : k ≠ j) :
    (reapSend k row db).2.statusOf r = db.statusOf r := by
  unfold reapSend
  split
  next r₀ e token hrun hmail _ =>
    split
    · rfl
    next m run howed =>
      split
      · rfl
      · refine statusOf_modify (enterDeliveryReview_runs ..) ?_
        rintro rfl
        exact hk (send_of_context hslots hkeys hsends hrow hkind hmail howed)
  · rfl

omit [PyText] in
/-- What the reaping of another row does to an approved run with its send. -/
theorem reapRow_status {row : JobRow} (hslots : Slots db) (hkeys : UniqueKeys db)
    (hsends : Outstanding db r j) (hrow : db.jobs.get? k = some row) (hk : k ≠ j) :
    (row.runId = some r ∧ row.kind ∈ [JobKind.runPipeline, .resumeReply, .operatorResume] →
      (reapRow k row db).2.statusOf r = some .error) ∧
    (¬ (row.runId = some r ∧ row.kind ∈ [JobKind.runPipeline, .resumeReply, .operatorResume]) →
      (reapRow k row db).2.statusOf r = some .approved) := by
  have hprocessing : row.kind ∈ [JobKind.runPipeline, .resumeReply, .operatorResume] →
      (reapRow k row db).2 = row.runId.elim db fun r₀ => (reapRun k row r₀ db).2 := by
    intro hkind
    unfold reapRow
    cases hk : row.kind <;> cases row.runId <;> simp_all
  constructor
  · rintro ⟨hrun, hkind⟩
    rw [hprocessing hkind, hrun]
    exact reapRun_self row hsends.approved
  · intro hother
    rw [← hsends.approved]
    unfold reapRow
    split
    next hkind => exact reapSend_other hslots hkeys hsends hrow hkind hk
    · rfl
    · rfl
    next r₀ hrun hsend hingest =>
      refine reapRun_other row ?_
      rintro rfl
      refine hother ⟨hrun, ?_⟩
      cases hkind : row.kind <;> simp_all
    · rfl

theorem settleOutbound_status {job : Job} {result : PipelineResult}
    {outcome : Ans (.settleOutboundDeliveryJob job result)} (hslots : Slots db) (hkeys : UniqueKeys db)
    (hsends : Outstanding db r j) (hk : job.id ≠ j)
    (h : Effect env db (.settleOutboundDeliveryJob job result) outcome db') :
    db'.statusOf r = some .approved := by
  rw [← hsends.approved]
  rcases settleOutbound_runs h with hruns | ⟨row, r₀, e, m, run, f, hctx, hruns⟩
  · exact statusOf_congr hruns
  · refine statusOf_modify hruns ?_
    rintro rfl
    obtain ⟨-, hmail, hkind⟩ := sendContext_some hctx.names
    exact hk (send_of_context hslots hkeys hsends (lockedJob_some hctx.locked).1 hkind hmail hctx.owed)

theorem settlePipeline_status {job : Job} {result : PipelineResult}
    {outcome : Ans (.settlePipelineJob job result)}
    (happroved : db.statusOf r = some .approved)
    (h : Effect env db (.settlePipelineJob job result) outcome db') :
    db'.statusOf r = some .approved := by
  rw [← happroved]
  rcases settlePipeline_runs h with hruns | ⟨r₀, f, hextracting, hruns⟩
  · exact statusOf_congr hruns
  · refine statusOf_modify hruns ?_
    rintro rfl
    rw [happroved] at hextracting
    cases hextracting

theorem reap_status (hslots : Slots db) (hkeys : UniqueKeys db) (hsends : Outstanding db r j)
    (hk : env.picked ≠ j) :
    (ReapsProcessing r env .reapExpiredFinalAttempt db →
      (exec env .reapExpiredFinalAttempt db).2.statusOf r = some .error) ∧
    (¬ ReapsProcessing r env .reapExpiredFinalAttempt db →
      (exec env .reapExpiredFinalAttempt db).2.statusOf r = some .approved) := by
  have hcommits : (∀ e, env.fault ≠ .before e) →
      (exec env .reapExpiredFinalAttempt db).2 = (reapExpiredFinalAttempt env.picked db).2 := by
    intro hfault
    cases h : env.fault with
    | none => simp [exec, txn, h]
    | before e => exact absurd h (hfault e)
    | after e => simp [exec, txn, h]
  have hreaped : ∀ {row}, db.jobs.get? env.picked = some row → reapable db.now row = true →
      (reapExpiredFinalAttempt env.picked db).2 = (reapRow env.picked row db).2 := by
    intro row hrow hreap
    rw [reapExpiredFinalAttempt, hrow]
    dsimp only
    rw [if_pos hreap]
  constructor
  · rintro ⟨-, hfault, row, hrow, hreap, hprocesses⟩
    rw [hcommits hfault, hreaped hrow hreap]
    exact (reapRow_status hslots hkeys hsends hrow hk).1 hprocesses
  · intro hspared
    by_cases hfault : ∀ e, env.fault ≠ .before e
    · rw [hcommits hfault]
      cases hrow : db.jobs.get? env.picked with
      | none =>
          rw [reapExpiredFinalAttempt, hrow]
          exact hsends.approved
      | some row =>
          by_cases hreap : reapable db.now row = true
          · rw [hreaped hrow hreap]
            exact (reapRow_status hslots hkeys hsends hrow hk).2
              fun hprocesses => hspared ⟨rfl, hfault, row, hrow, hreap, hprocesses⟩
          · rw [reapExpiredFinalAttempt, hrow]
            dsimp only
            rw [if_neg hreap]
            exact hsends.approved
    · obtain ⟨e, hbefore⟩ := Classical.not_forall.mp hfault
      rw [exec, not_not.mp hbefore]
      exact hsends.approved

theorem indexed_slots {w : World Op Ans Exn Db Note}
    (hreach : World.Reach machine thread World.Rules.any Indexed w) :
    Slots w.data ∧ UniqueKeys w.data := by
  obtain ⟨hinv, -⟩ := ConfirmationIdentity.preserved.reach (hreach.mono fun _ h => h.toWellFormed)
  have hkeys : Fresh w.data ∧ UniqueKeys w.data :=
    hreach.data (P := fun db => Fresh db ∧ UniqueKeys db) (fun _ h => ⟨h.fresh, h.keys⟩)
      fun env op db h => ⟨fresh_exec h.1, uniqueKeys_exec env op h.1 h.2⟩
  exact ⟨hinv.slots, hkeys.2⟩

/-- A settlement of another job leaves a run alone that is approved and has its
send outstanding. So does the reaping of another job, but for one that
processes that run: this ends it in ERROR. -/
theorem approved_status {w : World Op Ans Exn Db Note}
    (hreach : World.Reach machine thread World.Rules.any Indexed w) {e : Event Thread Env} {i : Nat}
    (hop : w.operation e = some (i, env, op)) (hretires : retires env op = some k)
    (hsends : Outstanding w.data r j) (hk : k ≠ j) :
    (ReapsProcessing r env op w.data → (w.step machine thread e).data.statusOf r = some .error) ∧
      (¬ ReapsProcessing r env op w.data →
      (w.step machine thread e).data.statusOf r = some .approved) := by
  obtain ⟨hslots, hkeys⟩ := indexed_slots hreach
  rw [(World.step_operation hop).1]
  change (_ → (exec env op w.data).2.statusOf r = _) ∧ (_ → (exec env op w.data).2.statusOf r = _)
  by_cases hreap : op = .reapExpiredFinalAttempt
  · subst hreap
    cases hretires
    exact reap_status hslots hkeys hsends hk
  · refine ⟨fun h => absurd h.1 hreap, fun _ => ?_⟩
    rcases exec_cases 0 env op w.data with ⟨e, hexec, -⟩ | ⟨answer, db', htxn, hdb, -⟩
    · rw [hexec]
      exact hsends.approved
    · rw [hdb]
      have heffect := txn_effect htxn
      cases op with
      | settleOutboundDeliveryJob job result =>
          cases hretires
          exact settleOutbound_status hslots hkeys hsends hk heffect
      | settlePipelineJob job result => exact settlePipeline_status hsends.approved heffect
      | reapExpiredFinalAttempt => exact absurd rfl hreap
      | _ => cases hretires

end

section Histories

attribute [local instance] asciiText

theorem indexed_emptyDb : Indexed emptyDb := by
  have hout : ∀ e, emptyDb.outbound.get? e = none := fun _ => rfl
  have hjobs : ∀ j, emptyDb.jobs.get? j = none := fun _ => rfl
  have hhandoffs : ∀ h, emptyDb.handoffs.get? h = none := fun _ => rfl
  refine ⟨⟨Fresh.of_keys (by decide), ⟨fun i j m m' hm => ?_, fun i m hm => ?_⟩,
    fun i j row row' hrow => ?_⟩, ⟨fun j row hrow => ?_, fun i j row row' hrow => ?_⟩⟩
  · simp [hout] at hm
  · simp [hout] at hm
  · simp [hhandoffs] at hrow
  · simp [hjobs] at hrow
  · simp [hjobs] at hrow

/-- A worker claims the job of the run and dies, and its lease runs out. -/
def dies (i : Nat) : List (Event Thread Env) :=
  works i 1 12 silent ++ [.spawn (.pass 1000), .run (i + 1) {}]

def approves (i : Nat) : List (Event Thread Env) := [.spawn (.approve 11), .run i { envelope := letter }]

/-- The last of five workers persists the stages and dies before its
settlement. The operator approves the run, and a worker finds no job to claim. -/
def lastLeaseLost : List (Event Thread Env) :=
  arrives 0 5 none ++ dies 1 ++ dies 3 ++ dies 5 ++ dies 7 ++ works 9 9 12 silent ++ approves 10 ++
    [.spawn (.pass 1000), .run 11 {}, .spawn .worker, .run 12 {}]

/-- The run is approved while the worker that processed it stands before its
settlement. -/
def approvedEarly : List (Event Thread Env) := arrives 0 5 none ++ works 1 8 12 silent ++ approves 2

def outstanding (db : Db) (r j : Uuid) : Bool :=
  db.statusOf r = some .approved && (db.jobs.get? j).any fun row =>
    row.kind = .sendOutbound && (row.state = .pending || row.state = .leased) && row.emailId.any fun e =>
      (db.outbound.get? e).any fun m => m.runId = r && m.purpose = .confirmation && db.epochOf r =
        some m.epoch

theorem outstanding_of {db : Db} {r j : Uuid} (h : outstanding db r j = true) : Outstanding db r j := by
  simp only [outstanding, Bool.and_eq_true, decide_eq_true_eq, Option.any_eq_true, Bool.or_eq_true] at h
  obtain ⟨happroved, row, hrow, ⟨hkind, hstate⟩, e, hmail, m, hm, ⟨hown, hpurpose⟩, hepoch⟩ := h
  exact ⟨happroved, e, m, row, hrow, hkind, hmail, hstate, hm, hown, hpurpose, hepoch⟩

/-- The reaper of the processing job ends the approved run in ERROR. -/
theorem reaper_errs_approved : ¬ ∀ (w : World Op Ans Exn Db Note) (e : Event Thread Env) i env op r j k,
    World.Reach machine thread World.Rules.any Indexed w → w.operation e = some (i, env, op) →
      retires env op = some k → Outstanding w.data r j → k ≠ j →
        (w.step machine thread e).data.statusOf r = w.data.statusOf r := by
  intro h
  have hreach := reach_worldAfter indexed_emptyDb lastLeaseLost
  have hsends : outstanding (worldAfter emptyDb lastLeaseLost).data 11 20 = true := by decide +kernel
  have hop : ((worldAfter emptyDb lastLeaseLost).operation
      (.run 12 { picked := 12 } : Event Thread Env)).any fun x => retires x.2.1 x.2.2 = some 12 := by
    decide +kernel
  have hafter : ((worldAfter emptyDb lastLeaseLost).step machine thread
      (.run 12 { picked := 12 })).data.statusOf 11 = some .error := by
    decide +kernel
  generalize worldAfter emptyDb lastLeaseLost = w at *
  have hsends := outstanding_of hsends
  obtain ⟨⟨i, env, op⟩, hop, hretires⟩ := (Option.any_eq_true _ _).mp hop
  have hsame := h w _ i env op 11 20 12 hreach hop (of_decide_eq_true hretires) hsends (by decide)
  rw [hafter, hsends.approved] at hsame
  cases hsame

def settlesPipeline (k : Uuid) : Op → Bool
  | .settlePipelineJob job _ => job.id = k
  | _ => false

/-- The settlement of the processing job leaves the approved run. -/
theorem approved_status_settled :
    ((worldAfter emptyDb approvedEarly).step machine thread (.run 1 {})).data.statusOf 11 =
    some .approved := by
  have hreach := reach_worldAfter indexed_emptyDb approvedEarly
  have hsends : outstanding (worldAfter emptyDb approvedEarly).data 11 16 = true := by decide +kernel
  have hop : ((worldAfter emptyDb approvedEarly).operation (.run 1 {} : Event Thread Env)).any
      fun x => settlesPipeline 12 x.2.2 := by
    decide +kernel
  generalize worldAfter emptyDb approvedEarly = w at *
  obtain ⟨⟨i, env, op⟩, hop, hsettles⟩ := (Option.any_eq_true _ _).mp hop
  cases op with
  | settlePipelineJob job result =>
      have hjob : job.id = 12 := of_decide_eq_true hsettles
      have hother : job.id ≠ 16 := by rw [hjob]; decide
      exact (approved_status hreach hop rfl (outstanding_of hsends) hother).2 fun h => by cases h.1
  | _ => cases hsettles

end Histories

end PayrollAgent.ApprovedRuns
