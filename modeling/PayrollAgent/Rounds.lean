import PayrollAgent.Effects
import PayrollAgent.Orchestrator
import PayrollAgent.Lib.Sequential

namespace PayrollAgent.Rounds

open Lib Lib.Prog Repo AliasLearning ReconcileNames RunStages Resume ClarificationWrites
  Orchestrator CombinedEmail Effects

structure Standing where
  status : RunStatus
  clarified : ClarifiedFields

def Standing.of (run : Run) : Standing := ⟨run.status, run.clarifiedFields⟩

def pausedStatuses : List RunStatus := [.awaitingReply, .needsOperator]

section

variable [PyText]

/-- How far a resume comes that read `ctx` and that the models gave `x`. It
stops anywhere when its process dies or a call fails. -/
inductive Moves (ctx : ResumeContext) (x : Extractions) (overrides : Option Overrides) :
    Standing → Standing → Prop
  | unmoved (p : Standing) : Moves ctx x overrides p p
  | claimed (status : RunStatus) :
      Moves ctx x overrides ⟨status, ctx.clarified⟩ ⟨.extracting, ctx.clarified⟩
  | answered (status : RunStatus) :
      Moves ctx x overrides ⟨status, ctx.clarified⟩ ⟨.extracting, clarifiedAtGate ctx x⟩
  | approved {s : StageResult} (status : RunStatus) (hs : resumeStages ctx x overrides = .ok s)
      (hprocess : s.decision.finalAction = .process) :
      Moves ctx x overrides ⟨status, ctx.clarified⟩ ⟨.awaitingApproval, clarifiedAtGate ctx x⟩
  | paused {s : StageResult} {status' : RunStatus} (status : RunStatus)
      (hs : resumeStages ctx x overrides = .ok s)
      (hclarify : s.decision.finalAction = .requestClarification) (hasked : s.clarifyDeferred = false)
      (hstatus : status' ∈ pausedStatuses) :
      Moves ctx x overrides ⟨status, ctx.clarified⟩ ⟨status', clarifiedAtGate ctx x⟩
  | deferred {s : StageResult} {status' : RunStatus} (status : RunStatus)
      (hs : resumeStages ctx x overrides = .ok s) (hdeferred : s.clarifyDeferred = true)
      (hstatus : status' = .extracting ∨ status' ∈ pausedStatuses) :
      Moves ctx x overrides ⟨status, ctx.clarified⟩
        ⟨status', deferredOutcomes s.matches' (clarifiedAtGate ctx x) s.issues⟩

structure Reads (r : Uuid) (run : Run) (ctx : ResumeContext) : Prop where
  runId : ctx.runId = r
  reconciliation : ctx.reconciliation = run.reconciliation
  snapshot : ctx.snapshot = run.preClarifyExtracted
  clarified : ctx.clarified = run.clarifiedFields
  aliasCandidates : ctx.aliasCandidates = run.aliasCandidates

/-- The run has come as far as `P` says. -/
def At (r : Uuid) (P : Standing → Prop) (db : Db) : Prop :=
  ∃ run, db.runs.get? r = some run ∧ P (.of run)

variable {r : Uuid} {db : Db} {P : Standing → Prop} {I : Db → Prop}

theorem keeps_call (op : Op) {Q : Ans op → Db → Prop} (hI : I db)
    (hcommit : ∀ env a db', txn env op db = .ok (a, db') → I db' ∧ Q a db') :
    Keeps machine I Q (Orchestrator.perform op) db := by
  refine Keeps.perform hI fun env => ?_
  change I (exec env op db).2 ∧ ∀ a, (exec env op db).1 = .ok a → Q a (exec env op db).2
  rcases exec_cases 0 env op db with ⟨e, hexec, -⟩ | ⟨a, db', htxn, hdb, -, hanswer⟩
  · rw [hexec]
    exact ⟨hI, fun a ha => by cases ha⟩
  · rw [hdb]
    obtain ⟨hI', hQ⟩ := hcommit env a db' htxn
    refine ⟨hI', fun b hb => ?_⟩
    obtain hok | ⟨e, herror⟩ := hanswer
    · obtain rfl := Except.ok.inj (hok.symm.trans hb)
      exact hQ
    · rw [herror] at hb
      cases hb

theorem keeps_query (hI : I db) : Keeps machine I (fun a d => db = a ∧ db = d) query db := by
  change Keeps machine I (fun (a : Ans .query) d => db = a ∧ db = d) (Orchestrator.perform .query) db
  refine keeps_call .query hI fun env a db' htxn => ?_
  obtain ⟨rfl, rfl⟩ := Prod.mk.inj (Except.ok.inj htxn)
  exact ⟨hI, rfl, rfl⟩

theorem keeps_staged {α : Type} {Q : α → Db → Prop} {p : Act α} (stage : PipelineStage)
    (h : Keeps machine I Q p db) : Keeps machine I Q (staged stage p) db :=
  Keeps.catching h fun _ _ hI => Keeps.raise hI

theorem keeps_reading (op : Op) {Q : Ans op → Db → Prop} (hI : I db)
    (hread : ∀ env a db', txn env op db = .ok (a, db') → db' = db) (hQ : ∀ a, Q a db) :
    Keeps machine I Q (Orchestrator.perform op) db := by
  refine keeps_call op hI fun env a db' htxn => ?_
  obtain rfl := hread env a db' htxn
  exact ⟨hI, hQ a⟩

theorem keeps_extract (email : ReadEmail) (hI : I db) :
    Keeps machine I (fun _ d => db = d) (extract r email) db := by
  refine Keeps.bind (keeps_staged _ (keeps_reading (.extract email) (Q := fun _ d => db = d)
    hI ?_ fun _ => rfl)) ?_
  · intro env a db' htxn
    exact (Prod.mk.inj (Except.ok.inj htxn)).2.symm
  · rintro x d hI' rfl
    exact Keeps.pure hI' rfl

theorem keeps_loadRun (stage : PipelineStage) (hI : I db) :
    Keeps machine I (fun run d => db = d ∧ db.runs.get? r = some run) (loadRun r stage) db := by
  refine Keeps.bind (keeps_staged _ (keeps_query hI)) ?_
  rintro _ _ hI' ⟨rfl, rfl⟩
  cases hrun : db.runs.get? r with
  | none => exact Keeps.raise hI'
  | some run => exact Keeps.pure hI' ⟨rfl, rfl⟩

theorem keeps_loadRoster (businessId : Uuid) (hI : I db) :
    Keeps machine I (fun roster d => db = d ∧ db.rosters.get? businessId = some roster)
    (loadRoster businessId) db := by
  refine Keeps.bind (keeps_staged _ (keeps_query hI)) ?_
  rintro _ _ hI' ⟨rfl, rfl⟩
  cases hroster : db.rosters.get? businessId with
  | none => exact Keeps.raise hI'
  | some roster => exact Keeps.pure hI' ⟨rfl, rfl⟩

theorem keeps_resumeContext {run : Run} (inbound : Option InboundMail) (hI : I db)
    (hrun : db.runs.get? r = some run) :
    Keeps machine I (fun reads d => db = d ∧ Reads r run reads.1 ∧
      db.rosters.get? run.businessId = some reads.1.roster) (resumeContext r inbound) db := by
  have hsame : ∀ {run' : Run}, db.runs.get? r = some run' → run' = run := fun h =>
    Option.some.inj (h.symm.trans hrun)
  refine Keeps.bind (keeps_loadRun _ hI) ?_
  rintro run₁ _ hI ⟨rfl, h₁⟩
  refine Keeps.bind (keeps_loadRoster _ hI) ?_
  rintro roster _ hI ⟨rfl, hroster⟩
  refine Keeps.bind (keeps_loadRun _ hI) ?_
  rintro run₂ _ hI ⟨rfl, h₂⟩
  refine Keeps.bind (keeps_loadRun _ hI) ?_
  rintro run₃ _ hI ⟨rfl, h₃⟩
  refine Keeps.bind (keeps_loadRun _ hI) ?_
  rintro run₄ _ hI ⟨rfl, h₄⟩
  refine Keeps.bind (keeps_staged _ (keeps_query hI)) ?_
  rintro _ _ hI ⟨rfl, rfl⟩
  refine Keeps.bind (keeps_staged _ (keeps_reading (.loadConsumedReplies r) (Q := fun _ d => db = d) hI ?_
    fun _ => rfl)) ?_
  · intro env a db' htxn
    exact (Prod.mk.inj (Except.ok.inj htxn)).2.symm
  rintro consumed _ hI rfl
  obtain rfl := hsame h₁
  obtain rfl := hsame h₂
  obtain rfl := hsame h₃
  obtain rfl := hsame h₄
  exact Keeps.pure hI ⟨rfl, ⟨rfl, rfl, rfl, rfl, rfl⟩, hroster⟩

omit [PyText] in
theorem modifyRun_get {run : Run} (f : Run → Run) (hrun : db.runs.get? r = some run) :
    (db.modifyRun r f).runs.get? r = some (f run) :=
  Dict.get?_modify_self hrun f

omit [PyText] in
theorem At.modify {f : Run → Run} {db' : Db} (h : At r P db) (hruns : db'.runs = db.runs.modify r f)
    (hf : ∀ run, P (.of run) → P (.of (f run))) : At r P db' := by
  obtain ⟨run, hrun, hP⟩ := h
  exact ⟨f run, by rw [hruns, Dict.get?_modify_self hrun], hf run hP⟩

omit [PyText] in
theorem At.congr {db' : Db} (h : At r P db) (hruns : db'.runs = db.runs) : At r P db' := by
  rwa [At, hruns]

def Asking (c : ClarifiedFields) (q : Standing) : Prop :=
  q.clarified = c ∧ (q.status = .extracting ∨ q.status ∈ pausedStatuses)

omit [PyText] in
theorem Asking.pause {c : ClarifiedFields} {run run' : Run} (h : Asking c (.of run))
    (hstatus : run'.status ∈ pausedStatuses) (hclarified : run'.clarifiedFields = run.clarifiedFields) :
    Asking c (.of run') :=
  ⟨hclarified.trans h.1, .inr hstatus⟩

variable {c : ClarifiedFields}

omit [PyText] in
theorem Asking.paused_for_reply {db' : Db} {f : Run → Run} (h : At r (Asking c) db)
    (hruns : db'.runs = db.runs.modify r f)
    (hf : ∀ run, (f run).status = .awaitingReply ∧ (f run).clarifiedFields = run.clarifiedFields) :
    At r (Asking c) db' := by
  refine h.modify hruns fun run hrun => hrun.pause ?_ (hf run).2
  rw [(hf run).1]
  exact List.mem_cons_self

theorem keeps_ask (decision : Decision) (roster : Roster) (extracted : Extracted) (purpose : Purpose)
    (round : Nat) (h : At r (Asking c) db) :
    Keeps machine (At r (Asking c)) (fun _ _ => True)
      (ask r decision roster extracted purpose round) db := by
  refine Keeps.bind (keeps_reading .suggest (Q := fun _ d => db = d) h ?_ fun _ => rfl) ?_
  · intro env a db' htxn
    exact (Prod.mk.inj (Except.ok.inj htxn)).2.symm
  rintro suggestions _ h rfl
  refine Keeps.bind (keeps_reading .compose (Q := fun _ d => db = d) h ?_ fun _ => rfl) ?_
  · intro env a db' htxn
    exact (Prod.mk.inj (Except.ok.inj htxn)).2.symm
  rintro envelope _ h rfl
  refine keeps_call (.reserveClarification r _) h fun env a db' htxn => ⟨?_, trivial⟩
  obtain ⟨-, rfl⟩ := Prod.mk.inj (Except.ok.inj htxn)
  obtain ⟨f, hruns, hf⟩ := reserveClarification_runs r _ db
  exact Asking.paused_for_reply h hruns fun run => ⟨(hf run).1, (hf run).2.2.2⟩

theorem keeps_clarify (decision : Decision) (roster : Roster) (extracted : Extracted)
    (purpose : Purpose) (h : At r (Asking c) db) :
    Keeps machine (At r (Asking c)) (fun _ _ => True) (clarify r decision roster extracted purpose)
      db := by
  refine Keeps.bind (keeps_query h) ?_
  rintro _ _ h ⟨rfl, rfl⟩
  refine Keeps.ite (fun _ => ?_) fun _ => ?_
  · refine keeps_call (.escalateToOperator r) h fun env a db' htxn => ⟨?_, trivial⟩
    obtain ⟨-, rfl⟩ := Prod.mk.inj (Except.ok.inj htxn)
    refine h.modify (Db.modifyRun_runs ..) fun run hrun => hrun.pause ?_ rfl
    exact List.mem_cons_of_mem _ List.mem_cons_self
  refine Keeps.bind (keeps_query h) ?_
  rintro _ _ h ⟨rfl, rfl⟩
  cases getOutboundForRound db r purpose _ with
  | some x =>
      refine keeps_call (.finalizeSentClarification r x.2.round extracted) h
        fun env a db' htxn => ⟨?_, trivial⟩
      obtain ⟨-, rfl⟩ := Prod.mk.inj (Except.ok.inj htxn)
      exact Asking.paused_for_reply h (pauseForReply_runs ..) fun run => ⟨rfl, rfl⟩
  | none =>
      refine Keeps.bind (keeps_query h) ?_
      rintro _ _ h ⟨rfl, rfl⟩
      cases getUnconfirmedOutbound db r purpose _ with
      | some x =>
          refine keeps_call (.replayReservedClarification r x.1 extracted) h
            fun env a db' htxn => ⟨?_, trivial⟩
          cases txn_effect htxn with
          | idle => exact h
          | @replayed _ _ _ m =>
              have hruns := pauseForReply_runs r m.round extracted (enqueueSend r x.1 db)
              rw [enqueueSend_runs] at hruns
              exact Asking.paused_for_reply h hruns fun run => ⟨rfl, rfl⟩
      | none => exact keeps_ask decision roster extracted purpose _ h

/-- The row the persist transaction leaves. -/
def persistedRow (s : StageResult) (now : Nat) (run : Run) : Run :=
  let persisted : Run :=
    { run with
      extractedData := some s.extracted
      decision := some s.decision
      reconciliation := s.matches'
      hoursChanges := s.hoursChanges
      updatedAt := now }
  match s.decision.finalAction, s.lineItems with
  | .process, some items => { persisted with lineItems := items, status := .awaitingApproval }
  | _, _ => persisted

omit [PyText] in
theorem persistStages_rows (s : StageResult) (db : Db) :
    (persistStages r s db).runs = db.runs.modify r (persistedRow s db.now) := by
  unfold persistStages persistedRow
  dsimp only [setStatus, Db.modifyRun]
  cases s.decision.finalAction with
  | requestClarification => rfl
  | process =>
      cases s.lineItems with
      | none => rfl
      | some items => simp only [Dict.modify_modify]

theorem lineItems_of_runStages {runId : Uuid} {roster : Roster} {extracted : Extracted}
    {args : StageArgs} {s : StageResult} (h : runStages runId roster extracted args = .ok s) :
    s.decision.finalAction = .process ↔ s.lineItems.isSome = true := by
  unfold runStages at h
  by_cases hprocess : (stageDecision roster extracted args).finalAction = .process
  · simp only [hprocess, if_true] at h
    cases hitems : ComputeLineItems.computeLineItems runId (stageExtracted roster extracted args)
        (stageMatches roster extracted args) roster with
    | error e =>
        rw [hitems] at h
        cases h
    | ok items =>
        rw [hitems] at h
        obtain rfl := Except.ok.inj h
        exact iff_of_true hprocess rfl
  · simp only [hprocess, if_false] at h
    obtain rfl := Except.ok.inj h
    exact iff_of_false hprocess Bool.false_ne_true

/-- The questions of a resume whose stages gave `s`. -/
theorem keeps_defer {run : Run} {s : StageResult} (roster : Roster) (hrun : db.runs.get? r = some run)
    (hstatus : run.status = .extracting) (hmatches : run.reconciliation = s.matches')
    (hI : I db)
    (hJ : ∀ d, At r (Asking (deferredOutcomes s.matches' c s.issues)) d → I d) :
    Keeps machine I (fun _ _ => True)
      (deferFieldRegressionClarification r c s.issues roster) db := by
  refine Keeps.bind (keeps_query hI) ?_
  rintro _ _ - ⟨rfl, rfl⟩
  rw [hrun]
  refine Keeps.bind (keeps_call (.setClarifiedFields r _)
    (Q := fun _ d => At r (Asking (deferredOutcomes s.matches' c s.issues)) d) hI ?_) ?_
  · intro env a db' htxn
    obtain ⟨-, rfl⟩ := Prod.mk.inj (Except.ok.inj htxn)
    have hasked : At r (Asking (deferredOutcomes s.matches' c s.issues))
        (setClarifiedFields r (deferredOutcomes run.reconciliation c s.issues) db) := by
      refine ⟨_, modifyRun_get _ hrun, ?_, .inl hstatus⟩
      rw [← hmatches]
      rfl
    exact ⟨hJ _ hasked, hasked⟩
  rintro - d - h
  refine Keeps.bind (keeps_query (hJ d h)) ?_
  rintro _ _ - ⟨rfl, rfl⟩
  cases (d.runs.get? r).bind Run.decision with
  | none => exact Keeps.pure (hJ d h) trivial
  | some decision =>
      cases (d.runs.get? r).bind Run.extractedData with
      | none => exact Keeps.pure (hJ d h) trivial
      | some extracted => exact (keeps_clarify decision roster extracted _ h).strengthen hJ

/-- The run stands where a resume of `run` leaves it. -/
def Moved (r : Uuid) (overrides : Option Overrides) (run : Run) (db : Db) : Prop :=
  At r (fun q => ∃ ctx x, Reads r run ctx ∧ Moves ctx x overrides (.of run) q) db

variable {run run₀ : Run} {ctx : ResumeContext} {overrides : Option Overrides} {x : Extractions}

omit [PyText] in
theorem Reads.standing (h : Reads r run ctx) : Standing.of run = ⟨run.status, ctx.clarified⟩ := by
  rw [Standing.of, h.clarified]

theorem moved_of_row {q : Standing} (hreads : Reads r run₀ ctx)
    (hmoves : Moves ctx x overrides ⟨run₀.status, ctx.clarified⟩ q) (hrun : db.runs.get? r = some run)
    (hq : Standing.of run = q) : Moved r overrides run₀ db := by
  refine ⟨run, hrun, ctx, x, hreads, ?_⟩
  rwa [hreads.standing, hq]

theorem keeps_extractions (emails : ResumeEmails) (hI : I db) :
    Keeps machine I (fun _ d => db = d) (extractions r ctx emails) db := by
  refine Keeps.ite (fun _ => ?_) fun _ => ?_
  · refine Keeps.bind (keeps_extract _ hI) ?_
    rintro reply _ hI rfl
    refine Keeps.bind (keeps_extract _ hI) ?_
    rintro combined _ hI rfl
    exact Keeps.pure hI rfl
  · refine Keeps.bind (keeps_extract _ hI) ?_
    rintro combined _ hI rfl
    exact Keeps.pure hI rfl

/-- The run is driven, with the outcomes `c`. -/
def Driven (r : Uuid) (c : ClarifiedFields) (db : Db) : Prop :=
  ∃ run, db.runs.get? r = some run ∧ run.status = .extracting ∧ run.clarifiedFields = c

theorem Driven.moved {q : Standing} (h : Driven r q.clarified db)
    (hstatus : q.status = .extracting) (hreads : Reads r run₀ ctx)
    (hmoves : Moves ctx x overrides ⟨run₀.status, ctx.clarified⟩ q) : Moved r overrides run₀ db := by
  obtain ⟨run, hrun, hrunStatus, hclarified⟩ := h
  refine moved_of_row hreads hmoves hrun ?_
  rw [Standing.of, hrunStatus, hclarified, ← hstatus]

theorem keeps_storeAnswers (x : Extractions) (hreads : Reads r run₀ ctx)
    (h : Driven r ctx.clarified db) :
    Keeps machine (Moved r overrides run₀) (fun _ d => Driven r (clarifiedAtGate ctx x) d)
      (storeAnswers r ctx x) db := by
  have hmoved : Moved r overrides run₀ db := by
    obtain ⟨run, hrun, hstatus, hclarified⟩ := h
    refine moved_of_row (x := x) hreads (.claimed _) hrun ?_
    rw [Standing.of, hstatus, hclarified]
  refine Keeps.ite (fun hround => ?_) fun hround => ?_
  · refine keeps_staged _ (keeps_call (.setClarifiedFields r _) hmoved fun env a db' htxn => ?_)
    obtain ⟨-, rfl⟩ := Prod.mk.inj (Except.ok.inj htxn)
    obtain ⟨run, hrun, hstatus, -⟩ := h
    have hgate : clarifiedAtGate ctx x = classified ctx x.reply := if_pos hround
    refine ⟨?_, _, modifyRun_get _ hrun, hstatus, hgate.symm⟩
    refine moved_of_row (x := x) hreads (.answered _) (modifyRun_get _ hrun) ?_
    rw [Standing.of, hgate, hstatus]
  · have hgate : clarifiedAtGate ctx x = ctx.clarified := if_neg hround
    exact Keeps.pure hmoved (by rwa [hgate])

theorem moved_of_asking {s : StageResult} (hreads : Reads r run₀ ctx)
    (hs : resumeStages ctx x overrides = .ok s)
    (hclarify : s.decision.finalAction = .requestClarification) (hasked : s.clarifyDeferred = false)
    (h : At r (Asking (clarifiedAtGate ctx x)) db) : Moved r overrides run₀ db := by
  obtain ⟨run, hrun, hclarified, hstatus⟩ := h
  obtain hstatus | hstatus := hstatus
  · refine moved_of_row (x := x) hreads (.answered _) hrun ?_
    rw [← hclarified, ← hstatus]
  · refine moved_of_row (x := x) hreads (.paused _ hs hclarify hasked hstatus) hrun ?_
    rw [← hclarified]

theorem moved_of_deferred {s : StageResult} (hreads : Reads r run₀ ctx)
    (hs : resumeStages ctx x overrides = .ok s) (hdeferred : s.clarifyDeferred = true)
    (h : At r (Asking (deferredOutcomes s.matches' (clarifiedAtGate ctx x) s.issues)) db) :
    Moved r overrides run₀ db := by
  obtain ⟨run, hrun, hclarified, hstatus⟩ := h
  refine moved_of_row (x := x) hreads (.deferred _ hs hdeferred hstatus) hrun ?_
  rw [← hclarified]

theorem persisted_row {s : StageResult} (hs : resumeStages ctx x overrides = .ok s)
    (h : Driven r (clarifiedAtGate ctx x) db) :
    ∃ run, (persistStages r s db).runs.get? r = some run ∧ run.reconciliation = s.matches' ∧
      run.clarifiedFields = clarifiedAtGate ctx x ∧
        (s.decision.finalAction = .process ∧ run.status = .awaitingApproval ∨
          s.decision.finalAction = .requestClarification ∧ run.status = .extracting) := by
  obtain ⟨run, hrun, hstatus, hclarified⟩ := h
  refine ⟨persistedRow s db.now run, ?_, ?_⟩
  · rw [persistStages_rows, Dict.get?_modify_self hrun]
  · have hitems := lineItems_of_runStages hs
    unfold persistedRow
    cases haction : s.decision.finalAction with
    | requestClarification => exact ⟨rfl, hclarified, .inr ⟨rfl, hstatus⟩⟩
    | process =>
        obtain ⟨items, hsome⟩ := Option.isSome_iff_exists.mp (hitems.mp haction)
        rw [hsome]
        exact ⟨rfl, hclarified, .inl ⟨rfl, rfl⟩⟩

omit [PyText] in
theorem not_process_of_deferred {s : StageResult} (h : s.clarifyDeferred = true) :
    s.decision.finalAction = .requestClarification := by
  unfold StageResult.clarifyDeferred at h
  rw [Bool.and_eq_true] at h
  simpa using h.1

theorem keeps_persistAndBranch (hreads : Reads r run₀ ctx)
    (h : Driven r (clarifiedAtGate ctx x) db) :
    Keeps machine (Moved r overrides run₀)
      (fun s d => resumeStages ctx x overrides = .ok s ∧ (s.clarifyDeferred = true →
        ∃ run, d.runs.get? r = some run ∧ run.status = .extracting ∧
          run.reconciliation = s.matches' ∧ run.clarifiedFields = clarifiedAtGate ctx x))
      (persistAndBranch r ctx.roster (resumeStages ctx x overrides)) db := by
  have hmoved : Moved r overrides run₀ db :=
    Driven.moved (q := ⟨.extracting, clarifiedAtGate ctx x⟩) h rfl hreads (.answered _)
  cases hs : resumeStages ctx x overrides with
  | error e => exact Keeps.raise hmoved
  | ok s =>
      refine Keeps.bind (keeps_staged _ (keeps_call (.persistStages r s)
        (Q := fun _ d => d = persistStages r s db) hmoved ?_)) ?_
      · intro env a db' htxn
        obtain ⟨-, rfl⟩ := Prod.mk.inj (Except.ok.inj htxn)
        obtain ⟨run, hrun, -, hclarified, ⟨hprocess, hstatus⟩ | ⟨-, hstatus⟩⟩ := persisted_row hs h
        · refine ⟨moved_of_row hreads (.approved _ hs hprocess) hrun ?_, rfl⟩
          rw [← hclarified, ← hstatus]
          rfl
        · refine ⟨moved_of_row (x := x) hreads (.answered _) hrun ?_, rfl⟩
          rw [← hclarified, ← hstatus]
          rfl
      · rintro - _ hmoved rfl
        obtain ⟨run, hrun, hmatches, hclarified, haction⟩ := persisted_row hs h
        refine Keeps.ite (fun _ => Keeps.pure hmoved ⟨rfl, fun hdeferred => ?_⟩) fun hask => ?_
        · have hrequest := not_process_of_deferred hdeferred
          obtain ⟨hprocess, -⟩ | ⟨-, hstatus⟩ := haction
          · rw [hrequest] at hprocess
            cases hprocess
          · exact ⟨run, hrun, hstatus, hmatches, hclarified⟩
        · obtain ⟨hopen, hplain⟩ := not_or.mp hask
          obtain ⟨hprocess, -⟩ | ⟨hrequest, hstatus⟩ := haction
          · exact absurd hprocess hopen
          · have hplain := Bool.not_eq_true _ ▸ hplain
            have hasking : At r (Asking (clarifiedAtGate ctx x)) (persistStages r s db) :=
              ⟨run, hrun, hclarified, .inl hstatus⟩
            refine Keeps.bind (keeps_staged _ ((keeps_clarify s.decision ctx.roster s.extracted
              .clarification hasking).strengthen fun d => moved_of_asking hreads hs hrequest hplain)) ?_
            rintro - d hmoved -
            refine Keeps.pure hmoved ⟨rfl, fun hdeferred => ?_⟩
            rw [hplain] at hdeferred
            cases hdeferred

theorem keeps_bindAliases (roster : Roster) (candidates : AliasCandidates)
    (h : Moved r overrides run₀ db) :
    Keeps machine (Moved r overrides run₀) (fun _ _ => True) (bindAliases r roster candidates) db := by
  refine Keeps.ite (fun _ => Keeps.pure h trivial) fun _ => ?_
  refine Keeps.bind (keeps_staged _ (keeps_query h)) ?_
  rintro _ _ h ⟨rfl, rfl⟩
  refine Keeps.ite (fun _ => Keeps.pure h trivial) fun _ => ?_
  refine keeps_staged _ (keeps_call (.setAliasCandidates r _) h fun env a db' htxn => ⟨?_, trivial⟩)
  obtain ⟨-, rfl⟩ := Prod.mk.inj (Except.ok.inj htxn)
  exact h.modify (Db.modifyRun_runs ..) fun _ => id

theorem keeps_resumeFrom (emails : ResumeEmails) (hreads : Reads r run₀ ctx)
    (h : Driven r ctx.clarified db) :
    Keeps machine (Moved r overrides run₀) (fun _ _ => True) (resumeFrom r ctx emails overrides) db := by
  have hmoved : Moved r overrides run₀ db :=
    Driven.moved (q := ⟨.extracting, ctx.clarified⟩)
      (x := ⟨⟨r, [], none, none⟩, ⟨r, [], none, none⟩⟩) h rfl hreads (.claimed _)
  refine Keeps.bind (keeps_extractions emails hmoved) ?_
  rintro x _ - rfl
  refine Keeps.bind (keeps_storeAnswers x hreads h) ?_
  rintro - d - h
  refine Keeps.bind (keeps_persistAndBranch hreads h) ?_
  rintro s d hmoved ⟨hs, hdeferred⟩
  refine Keeps.ite (fun hdefer => ?_) fun _ => ?_
  · obtain ⟨run, hrun, hstatus, hmatches, hclarified⟩ := hdeferred hdefer
    have hdefers := keeps_defer ctx.roster hrun hstatus hmatches hmoved
      fun d => moved_of_deferred hreads hs hdefer
    refine Keeps.bind (keeps_staged _ hdefers) ?_
    exact fun _ d hmoved _ => Keeps.pure hmoved trivial
  · refine Keeps.bind (keeps_bindAliases ctx.roster ctx.aliasCandidates hmoved) ?_
    exact fun _ d hmoved _ => Keeps.pure hmoved trivial

omit [PyText] in
theorem exists_reads (r : Uuid) (run : Run) : ∃ ctx, Reads r run ctx :=
  ⟨{ runId := r
     roster := ⟨[], List.nodup_nil⟩
     reconciliation := run.reconciliation
     snapshot := run.preClarifyExtracted
     clarified := run.clarifiedFields
     aliasCandidates := run.aliasCandidates }, rfl, rfl, rfl, rfl, rfl⟩

theorem moved_self (hrun : db.runs.get? r = some run) : Moved r overrides run db := by
  obtain ⟨ctx, hreads⟩ := exists_reads r run
  exact ⟨run, hrun, ctx, ⟨⟨r, [], none, none⟩, ⟨r, [], none, none⟩⟩, hreads, .unmoved _⟩

theorem keeps_consumeReply (inbound : Option InboundMail) {Q : Db → Prop} (hI : I db) (hQ : Q db)
    (hcongr : ∀ d d' : Db, d'.runs = d.runs → I d ∧ Q d → I d' ∧ Q d') :
    Keeps machine I (fun _ d => Q d) (consumeReply r inbound) db := by
  cases inbound with
  | none => exact Keeps.pure hI hQ
  | some mail =>
      refine Keeps.bind (keeps_staged _ (keeps_query hI)) ?_
      rintro _ _ hI ⟨rfl, rfl⟩
      refine keeps_staged _ (keeps_call (.markReplyConsumed mail.messageId _) hI fun env a db' htxn => ?_)
      obtain ⟨-, rfl⟩ := Prod.mk.inj (Except.ok.inj htxn)
      exact hcongr db _ rfl ⟨hI, hQ⟩

/-- Wherever a resume stops, its run has come as far as `Moves` says. -/
theorem keeps_resumePipeline (inbound : Option InboundMail) (fromStatus : RunStatus)
    (hrun : db.runs.get? r = some run₀) :
    Keeps machine (Moved r overrides run₀) (fun _ _ => True)
      (resumePipeline r inbound fromStatus overrides) db := by
  have hstart : Moved r overrides run₀ db := moved_self hrun
  refine Keeps.catching ?_ fun e d hmoved => Keeps.pure hmoved trivial
  refine Keeps.bind (keeps_staged _ (keeps_call (.claimStatus r fromStatus .extracting)
    (Q := fun claimed d => claimed = true → ∃ run, d.runs.get? r = some run ∧ run.status = .extracting ∧
      ∀ ctx, Reads r run ctx → Reads r run₀ ctx) hstart ?_)) ?_
  · intro env a db' htxn
    have hclaim := Except.ok.inj htxn
    by_cases hfrom : db.statusOf r = some fromStatus
    · rw [claimStatus_won hfrom] at hclaim
      obtain ⟨-, rfl⟩ := Prod.mk.inj hclaim
      obtain ⟨ctx, hreads⟩ := exists_reads r run₀
      have hrow : (setStatus r .extracting db).runs.get? r = some _ := modifyRun_get _ hrun
      refine ⟨moved_of_row (x := ⟨⟨r, [], none, none⟩, ⟨r, [], none, none⟩⟩) hreads (.claimed _) hrow ?_,
        fun _ => ⟨_, hrow, rfl, fun ctx h => ⟨h.runId, h.reconciliation, h.snapshot, h.clarified,
          h.aliasCandidates⟩⟩⟩
      rw [hreads.clarified]
      rfl
    · rw [claimStatus_lost hfrom] at hclaim
      obtain ⟨rfl, rfl⟩ := Prod.mk.inj hclaim
      exact ⟨hstart, fun h => by cases h⟩
  rintro claimed d hmoved hclaimed
  refine Keeps.ite (fun hclaim => ?_) fun _ => Keeps.pure hmoved trivial
  obtain ⟨run, hrun, hstatus, hsame⟩ := hclaimed hclaim
  refine Keeps.bind (keeps_consumeReply (Q := fun d => d.runs.get? r = some run)
    inbound hmoved hrun ?_) ?_
  · rintro d d' hruns ⟨hmoved, hrun⟩
    exact ⟨hmoved.congr hruns, by rwa [hruns]⟩
  rintro - d hmoved hrun
  refine Keeps.bind (keeps_resumeContext inbound hmoved hrun) ?_
  rintro ⟨ctx, emails⟩ _ hmoved ⟨rfl, hreads, -⟩
  exact keeps_resumeFrom emails (hsame ctx hreads) ⟨run, hrun, hstatus, hreads.clarified.symm⟩

theorem moved_of_run (inbound : Option InboundMail) (fromStatus : RunStatus)
    (hrun : db.runs.get? r = some run₀) (envs : List Env) :
    Moved r overrides run₀ ((resumePipeline r inbound fromStatus overrides).run machine envs db).2 :=
  (keeps_resumePipeline inbound fromStatus hrun).invariant envs

/-- The history of a run within one reply epoch: resumes let through by `ok`,
each with the outcomes the one before left and any other inputs. What else
moves the run in between neither writes its outcomes nor puts it up for
approval. -/
inductive Later (ok : ResumeContext → Extractions → Option Overrides → Prop) :
    Standing → Standing → Prop
  | refl (p : Standing) : Later ok p p
  | resumed {p q q' : Standing} {ctx : ResumeContext} {x : Extractions} {overrides : Option Overrides}
      (h : Later ok p q) (hclarified : ctx.clarified = q.clarified) (hok : ok ctx x overrides)
      (hmoves : Moves ctx x overrides q q') : Later ok p q'
  | waited {p q : Standing} {status : RunStatus} (h : Later ok p q)
      (hstatus : status ≠ .awaitingApproval) : Later ok p ⟨status, q.clarified⟩

theorem Later.stored {p : Standing} (h : Later (fun _ _ _ => True) p (.of run))
    (hrun : db.runs.get? r = some run) (inbound : Option InboundMail) (fromStatus : RunStatus)
    (envs : List Env) :
    ∃ run', ((resumePipeline r inbound fromStatus overrides).run machine envs db).2.runs.get? r =
      some run' ∧ Later (fun _ _ _ => True) p (.of run') := by
  obtain ⟨run', hrun', ctx, x, hreads, hmoves⟩ := moved_of_run inbound fromStatus hrun envs
  exact ⟨run', hrun', h.resumed hreads.clarified trivial hmoves⟩

end

end PayrollAgent.Rounds
