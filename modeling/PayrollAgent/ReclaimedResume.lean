import PayrollAgent.Handlers
import PayrollAgent.Lib.Halting
import PayrollAgent.ReplyOrder

namespace PayrollAgent.ReclaimedResume

open Lib Lib.Prog OutcomeOrder ReplyOrder Repo AliasLearning Calculate ReconcileNames RunStages
  Resume Orchestrator Handlers Ingest Rounds CombinedEmail

def isPersist : Op → Bool
  | .persistStages _ _ => true
  | _ => false

structure Undisturbed where
  db : Db
  extractions : Nat

def hasOutcomes (r : Uuid) (db : Db) : Bool :=
  (db.runs.get? r).any fun run => !run.clarifiedFields.entries.isEmpty

/-- The model reads the reply alone first, where outcomes are on record, and
otherwise the combined body. It answers the same text in the same way. -/
def output (X : Extractions) (r : Uuid) (s : Undisturbed) : Extracted :=
  if s.extractions = 0 ∧ hasOutcomes r s.db then X.reply else X.combined

def counted (n : Nat) : Op → Nat
  | .extract _ => n + 1
  | _ => n

def contextOf (r : Uuid) (roster : Roster) (run : Run) : ResumeContext where
  runId := r
  roster := roster
  reconciliation := run.reconciliation
  snapshot := run.preClarifyExtracted
  clarified := run.clarifiedFields
  aliasCandidates := run.aliasCandidates

def emailsOf (r : Uuid) (inbound : Option InboundMail) (run : Run) (db : Db) : ResumeEmails :=
  resumeEmails inbound (sourceBody db r) (renderAskedSummary run.decision run.clarifiedFields)
    (loadConsumedReplies (fun e => e) r db)

def given (X : Extractions) (ctx : ResumeContext) : Extractions :=
  if isRound2 ctx then ⟨{ X.reply with runId := ctx.runId }, { X.combined with runId := ctx.runId }⟩
  else ⟨{ X.combined with runId := ctx.runId }, { X.combined with runId := ctx.runId }⟩

section

variable [PyText]

def answerTo (X : Extractions) (r : Uuid) (op : Op) (s : Undisturbed) :
    Except Exn (Ans op) × Undisturbed :=
  ((exec { extracted := output X r s } op s.db).1,
    ⟨(exec { extracted := output X r s } op s.db).2, counted s.extractions op⟩)

abbrev undisturbed {α : Type} (X : Extractions) (r : Uuid) (p : Act α) (s : Undisturbed) :
    Halt Op Exn α Undisturbed :=
  p.upTo (answerTo X r) isPersist s

/-- What a resume brings to its persist: the stages with their decision, their
questions and what they pay, the outcomes on record, and the counter that says
whether a question may still be asked. -/
structure Reached where
  stages : StageResult
  clarified : ClarifiedFields
  round : Nat

def reached {α : Type} (r : Uuid) : Halt Op Exn α Undisturbed → Option Reached
  | .before (.persistStages _ st) s =>
      (s.db.runs.get? r).map fun run => ⟨st, run.clarifiedFields, run.clarificationRound⟩
  | _ => none

def persists {α : Type} (X : Extractions) (r : Uuid) (p : Act α) (db : Db) : Option Reached :=
  reached r (undisturbed X r p ⟨db, 0⟩)

variable {X : Extractions} {r e : Uuid} {s : Undisturbed} {run : Run} {roster : Roster}

theorem undisturbed_query : undisturbed X r query s = .done (.ok s.db) s :=
  upTo_perform rfl rfl

theorem undisturbed_staged {α : Type} {p : Act α} {a : α} {s' : Undisturbed} (stage : PipelineStage)
    (h : undisturbed X r p s = .done (.ok a) s') : undisturbed X r (staged stage p) s = .done
    (.ok a) s' :=
  upTo_catching_ok h

theorem undisturbed_loadRun (stage : PipelineStage) (hrun : s.db.runs.get? r = some run) :
    undisturbed X r (loadRun r stage) s = .done (.ok run) s := by
  rw [undisturbed, loadRun, upTo_bind_ok (undisturbed_staged stage undisturbed_query), hrun]
  rfl

theorem undisturbed_loadRoster (businessId : Uuid)
    (hroster : s.db.rosters.get? businessId = some roster) :
    undisturbed X r (loadRoster businessId) s = .done (.ok roster) s := by
  rw [undisturbed, loadRoster, upTo_bind_ok (undisturbed_staged .load undisturbed_query), hroster]
  rfl

theorem undisturbed_resumeContext (inbound : Option InboundMail) (hrun : s.db.runs.get? r = some run)
    (hroster : s.db.rosters.get? run.businessId = some roster) :
    undisturbed X r (resumeContext r inbound) s =
      .done (.ok (contextOf r roster run, emailsOf r inbound run s.db)) s := by
  have hload := undisturbed_loadRun (X := X) .load hrun
  have hconsumed : undisturbed X r (Orchestrator.perform (.loadConsumedReplies r)) s =
      .done (.ok (loadConsumedReplies (fun e => e) r s.db)) s := upTo_perform rfl rfl
  rw [undisturbed, resumeContext, upTo_bind_ok hload, upTo_bind_ok (undisturbed_loadRoster _ hroster),
    upTo_bind_ok hload, upTo_bind_ok hload, upTo_bind_ok hload,
    upTo_bind_ok (undisturbed_staged .load undisturbed_query), upTo_bind_ok
      (undisturbed_staged .load hconsumed)]
  rfl

theorem undisturbed_extract (email : ReadEmail) : undisturbed X r (extract r email) s =
    .done (.ok { output X r s with runId := r }) ⟨s.db, s.extractions + 1⟩ := by
  have hcall : undisturbed X r (Orchestrator.perform (.extract email)) s =
      .done (.ok (output X r s)) ⟨s.db, s.extractions + 1⟩ := upTo_perform rfl rfl
  rw [undisturbed, extract, upTo_bind_ok (undisturbed_staged .extract hcall)]
  rfl

theorem undisturbed_call {op : Op} {a : Ans op} {db' : Db} (hop : isPersist op = false)
    (hcommit : ∀ env : Env, txn env op s.db = .ok (a, db')) :
    undisturbed X r (Orchestrator.perform op) s = .done (.ok a) ⟨db', counted s.extractions op⟩ := by
  refine upTo_perform hop ?_
  have hexec : exec { extracted := output X r s } op s.db = (.ok a, db') := by
    rw [exec, hcommit]
  rw [answerTo, hexec]

theorem undisturbed_claimStatus {expected new : RunStatus} (hrun : s.db.runs.get? r = some run)
    (hstatus : run.status = expected) :
    undisturbed X r (Orchestrator.perform (.claimStatus r expected new)) s =
      .done (.ok (true : Bool)) ⟨setStatus r new s.db, s.extractions⟩ := by
  have hwon : claimStatus r expected new s.db = (true, setStatus r new s.db) := claimStatus_won (by
    rw [Db.statusOf, hrun, ← hstatus]
    rfl)
  exact undisturbed_call rfl fun env => congrArg Except.ok hwon

theorem undisturbed_consumeReply (inbound : Option InboundMail) : ∃ d,
    undisturbed X r (consumeReply r inbound) s = .done (.ok ()) ⟨d, s.extractions⟩ ∧
      d.runs = s.db.runs ∧ d.rosters = s.db.rosters := by
  cases inbound with
  | none => exact ⟨s.db, rfl, rfl, rfl⟩
  | some mail =>
      refine ⟨markReplyConsumed mail.messageId
        (((s.db.runs.get? r).map Run.clarificationRound).getD 0) s.db, ?_, rfl, rfl⟩
      rw [undisturbed, consumeReply, upTo_bind_ok (undisturbed_staged .persist undisturbed_query)]
      exact undisturbed_staged .persist (undisturbed_call rfl fun env => rfl)

/-- The reply is read alone where outcomes are on record, and the combined body
last. -/
theorem undisturbed_extractions {ctx : ResumeContext} (emails : ResumeEmails) (hrunId : ctx.runId = r)
    (hrun : s.db.runs.get? r = some run) (hclarified : run.clarifiedFields = ctx.clarified)
    (hcount : s.extractions = 0) :
    ∃ n, undisturbed X r (extractions r ctx emails) s = .done (.ok (given X ctx)) ⟨s.db, n⟩ := by
  subst hrunId
  have houtcomes : hasOutcomes ctx.runId s.db = isRound2 ctx := by
    rw [hasOutcomes, hrun, isRound2, ← hclarified]
    rfl
  by_cases hround : isRound2 ctx = true
  · refine ⟨s.extractions + 1 + 1, ?_⟩
    rw [undisturbed, extractions, if_pos hround, upTo_bind_ok (undisturbed_extract _),
      upTo_bind_ok (undisturbed_extract _), given, if_pos hround, output, output,
      if_pos ⟨hcount, houtcomes.trans hround⟩, if_neg fun h => absurd h.1 (Nat.succ_ne_zero _)]
    rfl
  · refine ⟨s.extractions + 1, ?_⟩
    rw [undisturbed, extractions, if_neg hround, upTo_bind_ok (undisturbed_extract _), given,
      if_neg hround, output, if_neg fun h => hround (houtcomes ▸ h.2)]
    rfl

theorem undisturbed_storeAnswers {ctx : ResumeContext} (x : Extractions)
    (hrun : s.db.runs.get? r = some run) (hclarified : run.clarifiedFields = ctx.clarified) :
    ∃ s' run', undisturbed X r (storeAnswers r ctx x) s = .done (.ok ()) s' ∧
      s'.db.runs.get? r = some run' ∧ run'.clarifiedFields = clarifiedAtGate ctx x ∧
        run'.clarificationRound = run.clarificationRound := by
  by_cases hround : isRound2 ctx = true
  · have hcall : undisturbed X r (Orchestrator.perform
      (.setClarifiedFields r (classified ctx x.reply))) s =
        .done (.ok ()) ⟨setClarifiedFields r (classified ctx x.reply) s.db, s.extractions⟩ :=
      undisturbed_call rfl fun env => rfl
    refine ⟨⟨setClarifiedFields r (classified ctx x.reply) s.db, s.extractions⟩, _, ?_,
      modifyRun_get _ hrun, ?_, rfl⟩
    · rw [undisturbed, storeAnswers, if_pos hround]
      exact undisturbed_staged .persist hcall
    · rw [clarifiedAtGate, if_pos hround]
  · refine ⟨s, run, ?_, hrun, ?_, rfl⟩
    · rw [undisturbed, storeAnswers, if_neg hround]
      rfl
    · rw [clarifiedAtGate, if_neg hround, hclarified]

theorem undisturbed_persistAndBranch {st : StageResult} :
    undisturbed X r (persistAndBranch r roster (.ok st)) s = .before (.persistStages r st) s :=
  upTo_bind_before (upTo_catching_before (upTo_perform_stop rfl))

/-- A resume of a received run persists the stages of the columns it finds. -/
theorem reached_resumePipeline {st : StageResult} (inbound : Option InboundMail)
    (overrides : Option Overrides)
    (hrun : s.db.runs.get? r = some run) (hstatus : run.status = .received)
    (hroster : s.db.rosters.get? run.businessId = some roster) (hcount : s.extractions = 0)
    (hs : resumeStages (contextOf r roster run) (given X (contextOf r roster run)) overrides = .ok st) :
    reached r (undisturbed X r (resumePipeline r inbound .received overrides) s) =
      some ⟨st, clarifiedAtGate (contextOf r roster run) (given X (contextOf r roster run)),
        run.clarificationRound⟩ := by
  have hclaim : undisturbed X r
      (staged .persist (Orchestrator.perform (.claimStatus r .received .extracting)) : Act Bool) s =
      .done (.ok true) ⟨setStatus r .extracting s.db, s.extractions⟩ :=
    undisturbed_staged .persist (undisturbed_claimStatus hrun hstatus)
  have hclaimed : (setStatus r .extracting s.db).runs.get? r = some _ := modifyRun_get _ hrun
  obtain ⟨d, hconsume, hruns, hrosters⟩ := undisturbed_consumeReply (X := X) (r := r)
    (s := ⟨setStatus r .extracting s.db, s.extractions⟩) inbound
  have hrun₁ : d.runs.get? r = some _ := (congrArg (Dict.get? · r) hruns).trans hclaimed
  have hread := undisturbed_resumeContext (X := X) (s := ⟨d, s.extractions⟩) inbound hrun₁
    ((congrArg (Dict.get? · run.businessId) hrosters).trans hroster)
  generalize emailsOf r inbound _ _ = emails at hread
  obtain ⟨n, hextract⟩ : ∃ n, undisturbed X r (extractions r (contextOf r roster run) emails)
      ⟨d, s.extractions⟩ = .done (.ok (given X (contextOf r roster run))) ⟨d, n⟩ :=
    undisturbed_extractions emails rfl hrun₁ rfl hcount
  obtain ⟨s', run', hstore, hrun', hclarified, hround⟩ := undisturbed_storeAnswers (X := X) (s := ⟨d, n⟩)
    (given X (contextOf r roster run)) hrun₁ (Eq.refl (contextOf r roster run).clarified)
  have hresume : undisturbed X r (resumeFrom r (contextOf r roster run) emails overrides)
      ⟨d, s.extractions⟩ = .before (.persistStages r st) s' := by
    rw [undisturbed, resumeFrom, upTo_bind_ok hextract, upTo_bind_ok hstore, hs]
    exact upTo_bind_before undisturbed_persistAndBranch
  have hall : undisturbed X r (resumePipeline r inbound .received overrides) s =
      .before (.persistStages r st) s' := by
    rw [undisturbed, resumePipeline, classifying]
    refine upTo_catching_before ?_
    rw [upTo_bind_ok hclaim, if_pos rfl, upTo_bind_ok hconsume, upTo_bind_ok hread]
    exact hresume
  rw [hall, reached, hrun', Option.map_some, hclarified, hround]

/-- The columns a reply job resumes from: a reclaimed attempt rewinds a run it
finds in the middle of the pipeline. -/
def entered (run : Run) : Run := if run.status ∈ rewindStatuses then clearedContext run else run

def Starts (job : Job) (run : Run) : Prop :=
  run.status = .awaitingReply ∨ 1 < job.attempts ∧ (run.status = .received ∨ run.status ∈ rewindStatuses)

structure Names (job : Job) (r e : Uuid) : Prop where
  runId : job.runId = some r
  emailId : job.emailId = some e

structure Ready (db : Db) (r e : Uuid) (row : Inbound) (run : Run) (roster : Roster) : Prop where
  email : db.inbound.get? e = some row
  linked : row.runId = some r
  stored : db.runs.get? r = some run
  sender : replySenderOk db row.mail run = true
  roster : db.rosters.get? run.businessId = some roster

def restarted (now : Nat) (run : Run) : Run :=
  { clearedContext run with status := .received, updatedAt := now }

omit [PyText] in
theorem rewound {db : Db} (hrun : db.runs.get? r = some run) (hstatus : run.status ∈ rewindStatuses) :
    rewindForReclaim r db = (true, db.modifyRun r (restarted db.now)) := by
  rw [rewindForReclaim, Db.statusOf, hrun]
  exact if_pos hstatus

theorem undisturbed_reenter {job : Job} {paused : RunStatus} (roster : Roster)
    (hpaused : paused ∉ rewindStatuses) (hrun : s.db.runs.get? r = some run)
    (hstarts : run.status = paused ∨
      1 < job.attempts ∧ (run.status = .received ∨ run.status ∈ rewindStatuses)) :
    ∃ s' run', undisturbed X r (reenter job r paused run.status) s = .done (.ok true) s' ∧
      s'.db.runs.get? r = some run' ∧ run'.status = .received ∧ run'.businessId = run.businessId ∧
        contextOf r roster run' = contextOf r roster (entered run) ∧
          run'.clarificationRound = (entered run).clarificationRound ∧
            s'.db.rosters = s.db.rosters ∧ s'.extractions = s.extractions := by
  by_cases hwaits : run.status = paused
  · have hentered : entered run = run := if_neg (by rwa [hwaits])
    refine ⟨⟨setStatus r .received s.db, s.extractions⟩, _, ?_, modifyRun_get _ hrun, rfl, rfl, ?_,
      ?_, rfl, rfl⟩
    · have hgate : reenter job r paused run.status =
          Orchestrator.perform (.claimStatus r paused .received) := if_pos hwaits
      rw [hgate]
      exact undisturbed_claimStatus hrun hwaits
    · rw [hentered]
      rfl
    · rw [hentered]
  · obtain ⟨hagain, hstatus⟩ := hstarts.resolve_left hwaits
    by_cases hreceived : run.status = .received
    · have hentered : entered run = run := if_neg (by rw [hreceived]; decide)
      refine ⟨s, run, ?_, hrun, hreceived, rfl, by rw [hentered], by rw [hentered], rfl, rfl⟩
      have hgate : reenter job r paused run.status = Pure.pure true :=
        (if_neg hwaits).trans (if_pos ⟨hreceived, hagain⟩)
      rw [hgate]
      rfl
    · have hrewinds := hstatus.resolve_left hreceived
      have hentered : entered run = clearedContext run := if_pos hrewinds
      have hrewound := rewound hrun hrewinds
      refine ⟨⟨s.db.modifyRun r (restarted s.db.now), s.extractions⟩, _, ?_, modifyRun_get _ hrun,
        rfl, rfl, ?_, ?_, rfl, rfl⟩
      · have hgate : reenter job r paused run.status = Orchestrator.perform (.rewindForReclaim r) :=
          (if_neg hwaits).trans ((if_neg fun h => hreceived h.1).trans (if_pos ⟨hrewinds, hagain⟩))
        rw [hgate]
        exact undisturbed_call rfl fun env => congrArg Except.ok hrewound
      · rw [hentered]
        rfl
      · rw [hentered]
        rfl

/-- A reply job that is not disturbed persists the stages of the columns it
resumes from. -/
theorem persists_of_starts {job : Job} {row : Inbound} {db : Db} (hnames : Names job r e)
    (hready : Ready db r e row run roster) (hstarts : Starts job run) (X : Extractions) :
    ∃ st, resumeStages (contextOf r roster (entered run))
      (given X (contextOf r roster (entered run))) none = .ok st ∧
      persists X r (handleResumeReply job) db =
        some ⟨st, clarifiedAtGate (contextOf r roster (entered run))
        (given X (contextOf r roster (entered run))), (entered run).clarificationRound⟩ := by
  obtain ⟨st, hs⟩ := OutcomeOrder.exists_resumeStages (contextOf r roster (entered run))
    (given X (contextOf r roster (entered run))) none
  refine ⟨st, hs, ?_⟩
  obtain ⟨s', run', henter, hrun', hreceived, hbusiness, hcontext, hround, hrosters, hcount⟩ :=
    undisturbed_reenter (X := X) (s := ⟨db, 0⟩) roster (by decide) hready.stored hstarts
  have hroster : s'.db.rosters.get? run'.businessId = some roster := by
    rw [hrosters, hbusiness]
    exact hready.roster
  rw [← hcontext] at hs
  have hresume := reached_resumePipeline (some row.mail) none hrun' hreceived hroster hcount hs
  rw [hcontext, hround] at hresume
  have hhandle : undisturbed X r (handleResumeReply job) ⟨db, 0⟩ =
      undisturbed X r (resumePipeline r (some row.mail) .received none) s' := by
    rw [undisturbed, handleResumeReply, hnames.runId, hnames.emailId]
    dsimp only
    rw [upTo_bind_ok undisturbed_query, hready.email]
    dsimp only
    rw [upTo_bind_ok undisturbed_query, hready.stored]
    dsimp only
    rw [if_pos ⟨hready.linked, hready.sender⟩, upTo_bind_ok henter, if_pos rfl]
  rw [persists, hhandle, hresume]

def context (run : Run) : Option Extracted × ClarifiedFields × AliasCandidates × Nat :=
  (run.preClarifyExtracted, run.clarifiedFields, run.aliasCandidates, run.clarificationRound)

def noContext : Option Extracted × ClarifiedFields × AliasCandidates × Nat :=
  (none, Dict.empty, Dict.empty, 0)

structure Left (run q : Run) : Prop where
  business : q.businessId = run.businessId
  reconciliation : q.reconciliation = run.reconciliation
  status : q.status = run.status ∨ q.status = .received ∨ q.status = .extracting
  kept : q.status ∉ rewindStatuses → context q = context (entered run)

structure Driven (run q : Run) : Prop where
  business : q.businessId = run.businessId
  reconciliation : q.reconciliation = run.reconciliation
  status : q.status = .extracting

structure Entered (run q : Run) : Prop where
  business : q.businessId = run.businessId
  reconciliation : q.reconciliation = run.reconciliation
  status : q.status = .received
  kept : context q = context (entered run)

/-- The row of the run is as `P` says, and what else a reply job reads is as in
`db`. -/
structure Stands (db : Db) (r e : Uuid) (row : Inbound) (P : Run → Prop) (d : Db) : Prop where
  run : ∃ q, d.runs.get? r = some q ∧ P q
  email : ∃ row', d.inbound.get? e = some row' ∧ row'.mail = row.mail ∧ row'.runId = row.runId
  rosters : d.rosters = db.rosters
  senders : d.senders = db.senders

omit [PyText] in
theorem Left.refl (run : Run) : Left run run where
  business := rfl
  reconciliation := rfl
  status := .inl rfl
  kept := fun hidle => by rw [entered, if_neg hidle]

variable {db d : Db} {row : Inbound} {q : Run} {P P' : Run → Prop}

omit [PyText] in
theorem Driven.left (h : Driven run q) : Left run q where
  business := h.business
  reconciliation := h.reconciliation
  status := .inr (.inr h.status)
  kept := fun hidle => absurd (by rw [h.status]; decide) hidle

omit [PyText] in
theorem Entered.left (h : Entered run q) : Left run q where
  business := h.business
  reconciliation := h.reconciliation
  status := .inr (.inl h.status)
  kept := fun _ => h.kept

omit [PyText] in
theorem Stands.mono (hP : ∀ q, P q → P' q) (h : Stands db r e row P d) : Stands db r e row P' d where
  run := by
    obtain ⟨q, hq, hPq⟩ := h.run
    exact ⟨q, hq, hP q hPq⟩
  email := h.email
  rosters := h.rosters
  senders := h.senders

omit [PyText] in
theorem Stands.modifyRun {f : Run → Run} (h : Stands db r e row P d) (hf : ∀ q, P q → P' (f q)) :
    Stands db r e row P' (d.modifyRun r f) where
  run := by
    obtain ⟨q, hq, hPq⟩ := h.run
    exact ⟨f q, modifyRun_get f hq, hf q hPq⟩
  email := h.email
  rosters := h.rosters
  senders := h.senders

omit [PyText] in
theorem Stands.consumed (h : Stands db r e row P d) (messageId round : Nat) :
    Stands db r e row P (markReplyConsumed messageId round d) where
  run := h.run
  email := by
    obtain ⟨row', hrow', hmail, hlinked⟩ := h.email
    have hget : (markReplyConsumed messageId round d).inbound.get? e = _ := Dict.get?_updateWhere ..
    rw [hrow', Option.map_some] at hget
    split at hget
    · exact ⟨_, hget, hmail, hlinked⟩
    · exact ⟨_, hget, hmail, hlinked⟩
  rosters := h.rosters
  senders := h.senders

theorem keeps_consumed (mail : InboundMail) (h : Stands db r e row P d) :
    Keeps machine (Stands db r e row P) (fun _ _ => True) (consumeReply r (some mail)) d := by
  refine Keeps.bind (keeps_staged _ (keeps_query h)) ?_
  rintro _ _ h ⟨rfl, rfl⟩
  refine keeps_staged _ (keeps_call (.markReplyConsumed mail.messageId _) h fun env a db' htxn => ?_)
  obtain ⟨-, rfl⟩ := Prod.mk.inj (Except.ok.inj htxn)
  exact ⟨h.consumed mail.messageId _, trivial⟩

theorem keeps_stored {ctx : ResumeContext} (x : Extractions) (h : Stands db r e row (Driven run) d) :
    Keeps machine (Stands db r e row (Driven run)) (fun _ _ => True) (storeAnswers r ctx x) d := by
  refine Keeps.ite (fun _ => ?_) fun _ => Keeps.pure h trivial
  refine keeps_staged _ (keeps_call (.setClarifiedFields r _) h fun env a db' htxn => ?_)
  obtain ⟨-, rfl⟩ := Prod.mk.inj (Except.ok.inj htxn)
  exact ⟨h.modifyRun fun q hq => ⟨hq.business, hq.reconciliation, hq.status⟩, trivial⟩

theorem keeps_claimed (h : Stands db r e row (Entered run) d) :
    Keeps machine (Stands db r e row (Left run)) (fun claimed d => claimed = true →
    Stands db r e row (Driven run) d)
      (staged .persist (Orchestrator.perform (.claimStatus r .received .extracting)) : Act Bool) d := by
  have hleft := h.mono fun q => Entered.left
  refine keeps_staged _ (keeps_call (.claimStatus r .received .extracting)
    (Q := fun claimed d => claimed = true → Stands db r e row (Driven run) d)
    hleft fun env a db' htxn => ?_)
  have hclaim := Except.ok.inj htxn
  by_cases hfrom : d.statusOf r = some .received
  · rw [claimStatus_won hfrom] at hclaim
    obtain ⟨-, rfl⟩ := Prod.mk.inj hclaim
    have hdriven : Stands db r e row (Driven run) (setStatus r .extracting d) :=
      h.modifyRun fun q hq => ⟨hq.business, hq.reconciliation, rfl⟩
    exact ⟨hdriven.mono fun q => Driven.left, fun _ => hdriven⟩
  · rw [claimStatus_lost hfrom] at hclaim
    obtain ⟨rfl, rfl⟩ := Prod.mk.inj hclaim
    exact ⟨hleft, fun hwon => by cases hwon⟩

theorem until_resumeFrom {ctx : ResumeContext} {emails : ResumeEmails} {overrides : Option Overrides}
    (h : Stands db r e row (Driven run) d) :
    Until machine isPersist (Stands db r e row (Left run)) (fun _ _ => True)
      (resumeFrom r ctx emails overrides) d := by
  have hleft : ∀ d, Stands db r e row (Driven run) d → Stands db r e row (Left run) d :=
    fun d h => h.mono fun q => Driven.left
  refine Keeps.until_bind (keeps_extractions emails h) hleft ?_ fun _ _ _ => trivial
  rintro x _ h rfl
  refine Keeps.until_bind (keeps_stored x h) hleft ?_ fun _ _ _ => trivial
  rintro - d h -
  cases resumeStages ctx x overrides with
  | error e => exact trivial
  | ok st =>
      have hpersist : Until machine isPersist (Stands db r e row (Left run))
          (fun x _ => ∃ e, x = .error e) (persistAndBranch r ctx.roster (.ok st)) d := by
        have hstop : Until machine isPersist (Stands db r e row (Left run)) (fun _ _ => False)
            (staged .persist (Orchestrator.perform (.persistStages r st))) d :=
          Until.catching (Until.stopped (Q := fun _ _ => False) (hleft d h) rfl) (fun _ _ h => h)
            fun _ _ h => h.elim
        exact hstop.bind (fun _ _ h => h.elim) fun _ _ h => h.elim
      refine hpersist.bind ?_ fun _ _ _ => trivial
      rintro s d ⟨e, he⟩
      cases he

theorem until_resumePipeline (mail : InboundMail) (h : Stands db r e row (Entered run) d) :
    Until machine isPersist (Stands db r e row (Left run)) (fun _ _ => True)
      (resumePipeline r (some mail) .received none) d := by
  refine Until.catching (R := fun _ _ => True) ?_ (fun _ _ _ => trivial) fun _ _ _ => trivial
  refine Keeps.until_bind (keeps_claimed h) (fun _ h => h) ?_ fun _ _ _ => trivial
  intro claimed d _ hclaimed
  by_cases hwon : claimed = true
  · rw [if_pos hwon]
    have hleft : ∀ d, Stands db r e row (Driven run) d → Stands db r e row (Left run) d :=
      fun d h => h.mono fun q => Driven.left
    refine Keeps.until_bind (keeps_consumed mail (hclaimed hwon)) hleft ?_ fun _ _ _ => trivial
    rintro - d h -
    obtain ⟨q, hq, -⟩ := h.run
    refine Keeps.until_bind (keeps_resumeContext (some mail) h hq) hleft ?_ fun _ _ _ => trivial
    rintro ⟨ctx, emails⟩ _ h ⟨rfl, -, -⟩
    exact until_resumeFrom h
  · rw [if_neg hwon]
    exact trivial

theorem keeps_reenter {job : Job} (h : Stands db r e row (fun q => q = run) d) :
    Keeps machine (Stands db r e row (Left run))
      (fun entered d => entered = true → Stands db r e row (Entered run) d)
      (reenter job r .awaitingReply run.status) d := by
  have hleft : Stands db r e row (Left run) d := h.mono fun q hq => by
    rw [hq]
    exact Left.refl run
  refine Keeps.ite (fun hwaits => ?_) fun hwaits => Keeps.ite (fun hreceived => ?_) fun _ =>
    Keeps.ite (fun hrewinds => ?_) fun _ => ?_
  · have hentered : entered run = run := if_neg (by rw [hwaits]; decide)
    refine keeps_call (.claimStatus r .awaitingReply .received)
      (Q := fun entered d => entered = true → Stands db r e row (Entered run) d)
      hleft fun env a db' htxn => ?_
    have hclaim := Except.ok.inj htxn
    by_cases hfrom : d.statusOf r = some .awaitingReply
    · rw [claimStatus_won hfrom] at hclaim
      obtain ⟨-, rfl⟩ := Prod.mk.inj hclaim
      have hin : Stands db r e row (Entered run) (setStatus r .received d) := h.modifyRun fun q hq => by
        rw [hq]
        exact ⟨rfl, rfl, rfl, by rw [hentered]; rfl⟩
      exact ⟨hin.mono fun q => Entered.left, fun _ => hin⟩
    · rw [claimStatus_lost hfrom] at hclaim
      obtain ⟨rfl, rfl⟩ := Prod.mk.inj hclaim
      exact ⟨hleft, fun hwon => by cases hwon⟩
  · have hentered : entered run = run := if_neg (by rw [hreceived.1]; decide)
    refine Keeps.pure hleft fun _ => h.mono fun q hq => ?_
    rw [hq]
    exact ⟨rfl, rfl, hreceived.1, by rw [hentered]⟩
  · have hentered : entered run = clearedContext run := if_pos hrewinds.1
    refine keeps_call (.rewindForReclaim r)
      (Q := fun entered d => entered = true → Stands db r e row (Entered run) d)
      hleft fun env a db' htxn => ?_
    have hrewind := Except.ok.inj htxn
    obtain ⟨q, hq, rfl⟩ := h.run
    rw [rewound hq hrewinds.1] at hrewind
    obtain ⟨-, rfl⟩ := Prod.mk.inj hrewind
    have hin : Stands db r e row (Entered q) (d.modifyRun r (restarted d.now)) :=
      h.modifyRun fun q' hq' => by
      rw [hq']
      exact ⟨rfl, rfl, rfl, by rw [hentered]; rfl⟩
    exact ⟨hin.mono fun q' => Entered.left, fun _ => hin⟩
  · exact Keeps.pure hleft fun hentered => by cases hentered

/-- Wherever a reply job stops before its persist, its run is received with what
there was to resume from, or driven, or as it was. -/
theorem until_handleResumeReply {job : Job} (hnames : Names job r e)
    (hready : Ready db r e row run roster) :
    Until machine isPersist (Stands db r e row (Left run)) (fun _ _ => True) (handleResumeReply job)
      db := by
  have hsame : Stands db r e row (fun q => q = run) db :=
    ⟨⟨run, hready.stored, rfl⟩, ⟨row, hready.email, rfl, rfl⟩, rfl, rfl⟩
  have hleft : ∀ d, Stands db r e row (fun q => q = run) d → Stands db r e row (Left run) d :=
    fun d h => h.mono fun q hq => by
      rw [hq]
      exact Left.refl run
  rw [handleResumeReply, hnames.runId, hnames.emailId]
  refine Keeps.until_bind (keeps_query hsame) hleft ?_ fun _ _ _ => trivial
  rintro _ _ - ⟨rfl, rfl⟩
  rw [hready.email]
  refine Keeps.until_bind (keeps_query hsame) hleft ?_ fun _ _ _ => trivial
  rintro _ _ - ⟨rfl, rfl⟩
  rw [hready.stored]
  dsimp only
  rw [if_pos ⟨hready.linked, hready.sender⟩]
  refine Keeps.until_bind (keeps_reenter hsame) (fun _ h => h) ?_ fun _ _ _ => trivial
  intro entered d _ hentered
  by_cases hin : entered = true
  · rw [if_pos hin]
    exact until_resumePipeline _ (hentered hin)
  · rw [if_neg hin]
    exact trivial

structure SameTables (d d' : Db) : Prop where
  runs : d'.runs = d.runs
  inbound : d'.inbound = d.inbound
  rosters : d'.rosters = d.rosters
  senders : d'.senders = d.senders

variable {d' : Db} {job job' : Job} {envs : List Env}

omit [PyText] in
/-- The reclaimed attempt finds the reply and the run where the crash left
them. -/
theorem ready_of_stands (hready : Ready db r e row run roster) (h : Stands db r e row (Left run) d)
    (hsame : SameTables d d') : ∃ row' q, d.runs.get? r = some q ∧ Left run q ∧
    Ready d' r e row' q roster := by
  obtain ⟨q, hq, hleft⟩ := h.run
  obtain ⟨row', hrow', hmail, hlinked⟩ := h.email
  refine ⟨row', q, hq, hleft, ?_, ?_, ?_, ?_, ?_⟩
  · rw [hsame.inbound, hrow']
  · rw [hlinked, hready.linked]
  · rw [hsame.runs, hq]
  · have hsender := hready.sender
    rw [replySenderOk, decide_eq_true_eq] at hsender ⊢
    rw [hsame.senders, h.senders, hmail, hleft.business, hsender]
  · rw [hsame.rosters, h.rosters, hleft.business, hready.roster]

omit [PyText] in
theorem Left.starts (h : Left run q) (hstarts : Starts job run) (hagain : 1 < job'.attempts) :
    Starts job' q := by
  rcases h.status with hstatus | hstatus | hstatus
  · rcases hstarts with hwaits | ⟨-, hstarts⟩
    · exact .inl (hstatus.trans hwaits)
    · exact .inr ⟨hagain, by rwa [hstatus]⟩
  · exact .inr ⟨hagain, .inl hstatus⟩
  · exact .inr ⟨hagain, .inr (by rw [hstatus]; decide)⟩

omit [PyText] in
theorem context_entered (hrewinds : q.status ∈ rewindStatuses) : context (entered q) = noContext := by
  rw [entered, if_pos hrewinds]
  rfl

omit [PyText] in
theorem Left.entered_eq (h : Left run q)
    (hkept : q.status ∈ rewindStatuses → context (entered run) = noContext) :
    context (entered q) = context (entered run) := by
  by_cases hrewinds : q.status ∈ rewindStatuses
  · rw [context_entered hrewinds, hkept hrewinds]
  · rw [← h.kept hrewinds, entered, if_neg hrewinds]

omit [PyText] in
theorem entered_reconciliation (run : Run) : (entered run).reconciliation = run.reconciliation := by
  unfold entered
  split <;> rfl

omit [PyText] in
theorem contextOf_congr {run' : Run} (hreconciliation : run'.reconciliation = run.reconciliation)
    (hcontext : context run' = context run) :
    contextOf r roster run' = contextOf r roster run ∧
      run'.clarificationRound = run.clarificationRound := by
  obtain ⟨hsnapshot, hcontext⟩ := Prod.mk.inj hcontext
  obtain ⟨hclarified, hcontext⟩ := Prod.mk.inj hcontext
  obtain ⟨hcandidates, hround⟩ := Prod.mk.inj hcontext
  refine ⟨?_, hround⟩
  rw [contextOf, contextOf, hreconciliation, hsnapshot, hclarified, hcandidates]

/-- Wherever the first attempt crashes before its persist, the reclaimed one
brings to its own persist what the first would have brought, if the crash came
before the first drove the run, or if there was no reply context to lose. After
a crash that leaves the run driven it brings the stages of a run without reply
context, and no question is on record there. -/
theorem reclaimed_resume (hnames : Names job r e) (hready : Ready db r e row run roster)
    (hstarts : Starts job run)
    (hcrash : (handleResumeReply job).crash machine isPersist envs db = some d) (hsame : SameTables d d')
    (hnames' : Names job' r e) (hagain : 1 < job'.attempts) (X : Extractions) :
    ∃ q x y, d.runs.get? r = some q ∧ persists X r (handleResumeReply job) db = some x ∧
      persists X r (handleResumeReply job') d' = some y ∧
      ((q.status ∈ rewindStatuses → context (entered run) = noContext) → y = x) ∧
      (q.status ∈ rewindStatuses → y.clarified = Dict.empty ∧ y.round = 0 ∧
        resumeStages (contextOf r roster (clearedContext run))
        (given X (contextOf r roster (clearedContext run))) none = .ok y.stages) := by
  obtain ⟨row', q, hq, hleft, hready'⟩ :=
    ready_of_stands hready ((until_handleResumeReply hnames hready).crash hcrash) hsame
  obtain ⟨st, hs, hpersists⟩ := persists_of_starts hnames hready hstarts X
  obtain ⟨st', hs', hpersists'⟩ := persists_of_starts hnames' hready' (hleft.starts hstarts hagain) X
  have hreconciliation : (entered q).reconciliation = (entered run).reconciliation := by
    rw [entered_reconciliation, entered_reconciliation, hleft.reconciliation]
  refine ⟨q, _, _, hq, hpersists, hpersists', fun hkept => ?_, fun hrewinds => ?_⟩
  · obtain ⟨hcontext, hround⟩ :=
      contextOf_congr (r := r) hreconciliation (hleft.entered_eq hkept)
    rw [hcontext] at hs' ⊢
    obtain rfl := Except.ok.inj (hs'.symm.trans hs)
    rw [hround]
  · have hcleared : contextOf r roster (entered q) = contextOf r roster (clearedContext run) ∧
        (entered q).clarificationRound = (clearedContext run).clarificationRound :=
      contextOf_congr (hreconciliation.trans (entered_reconciliation run)) (context_entered hrewinds)
    rw [hcleared.1] at hs'
    dsimp only
    rw [hcleared.1, hcleared.2]
    exact ⟨rfl, rfl, hs'⟩

end

section Histories

attribute [local instance] asciiText

def replyJob (attempts : Nat) : Job where
  id := 4
  kind := .resumeReply
  runId := some 2
  emailId := some 5
  operatorResolutionId := none
  eventId := none
  attempts := attempts
  maxAttempts := 3
  leaseToken := attempts

def pausedRun : Run :=
  { Run.created 1 3 0 with
    status := .awaitingReply
    clarificationRound := 1
    reconciliation := beforeQuestion.reconciliation
    preClarifyExtracted := some twoPaid }

theorem ready_repliedDb : Ready repliedDb 2 5 ⟨⟨7, none, [], 6, []⟩, some 2, 0, none⟩ pausedRun
    HoursVisibility.twoWorkers := by
  refine ⟨rfl, rfl, rfl, ?_, rfl⟩
  decide

theorem names_replyJob (attempts : Nat) : Names (replyJob attempts) 2 5 := ⟨rfl, rfl⟩

/-- What the first lease leaves if its process dies after `n` calls. -/
def crashed (n : Nat) : Db :=
  ((handleResumeReply (replyJob 1)).crash machine isPersist (List.replicate n { picked := 0 })
    repliedDb).getD Db.empty

theorem crash_received : (handleResumeReply (replyJob 1)).crash machine isPersist
    (List.replicate 3 { picked := 0 }) repliedDb = some (crashed 3) := rfl

theorem crash_driven : (handleResumeReply (replyJob 1)).crash machine isPersist
    (List.replicate 4 { picked := 0 }) repliedDb = some (crashed 4) := rfl

/-- The process dies before the resume drives the run. -/
theorem reclaimed_resume_received : ∃ x, persists silentReply 2 (handleResumeReply (replyJob 1))
    repliedDb = some x ∧
    persists silentReply 2 (handleResumeReply (replyJob 2)) (crashed 3) = some x := by
  obtain ⟨q, x, y, hq, hx, hy, hsame, -⟩ := reclaimed_resume (names_replyJob 1) ready_repliedDb (.inl rfl)
    crash_received ⟨rfl, rfl, rfl, rfl⟩ (names_replyJob 2) (by decide) silentReply
  have hstatus : ((crashed 3).runs.get? 2).all fun q => q.status = .received := by decide +kernel
  rw [hq] at hstatus
  have hreceived : q.status = .received := of_decide_eq_true hstatus
  obtain rfl := hsame fun hrewinds => absurd hrewinds (by rw [hreceived]; decide)
  exact ⟨y, hx, hy⟩

theorem ready_crashed : Ready (crashed 4) 2 5 ⟨⟨7, none, [], 6, []⟩, some 2, 0, none⟩
    { pausedRun with status := .extracting } HoursVisibility.twoWorkers := by
  refine ⟨rfl, rfl, rfl, ?_, rfl⟩
  decide

/-- The process dies after the resume drives the run. The reply leaves out the
overtime of the first email: the uninterrupted resume asks about it, and the
reclaimed one pays without it. -/
theorem reclaimed_resume_pays_what_is_asked :
    ¬ ∀ (db d : Db) (job job' : Job) (r e : Uuid) (row : Inbound)
    (run : Run) (roster : Roster) (envs : List Env) (X : Extractions), Names job r e →
    Ready db r e row run roster → Starts job run →
    (handleResumeReply job).crash machine isPersist envs db = some d → Names job' r e →
    1 < job'.attempts →
    ((persists X r (handleResumeReply job') d).map fun x => x.stages.decision.finalAction) =
      (persists X r (handleResumeReply job) db).map fun x => x.stages.decision.finalAction := by
  intro hall
  have hequal := hall _ _ _ _ _ _ _ _ _ _ silentReply (names_replyJob 1) ready_repliedDb
    (.inl rfl) crash_driven (names_replyJob 2) (by decide)
  obtain ⟨st, hs, hpersists⟩ := persists_of_starts (names_replyJob 1) ready_repliedDb
    (.inl rfl) silentReply
  obtain ⟨st', hs', hpersists'⟩ := persists_of_starts (names_replyJob 2) ready_crashed
    (.inr ⟨by decide, .inr (by decide)⟩) silentReply
  have hasks : st.decision.finalAction = .requestClarification := by
    rw [(stages_of_ok hs).2.2]
    decide +kernel
  have hpays : st'.decision.finalAction = .process := by
    rw [(stages_of_ok hs').2.2]
    decide +kernel
  rw [hpersists, hpersists', Option.map_some, Option.map_some, hasks, hpays] at hequal
  cases hequal

end Histories

end PayrollAgent.ReclaimedResume
