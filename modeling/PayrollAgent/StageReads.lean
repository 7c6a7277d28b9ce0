import PayrollAgent.Asking

namespace PayrollAgent.StageReads

open Lib Repo Money TaxTables2026 AliasLearning Calculate ComputeLineItems ReconcileNames
  Orchestrator Handlers ClarificationWrites RunStages Resume CombinedEmail Asking

def withheld (hours : HoursField → ℚ≥0) (e : Employee) : ℚ :=
  money (ssTaxable (grossPay hours e) e * ssRate)

def Taxes (roster : Roster) (item : PaystubLineItem) : Prop :=
  ∃ e ∈ roster.employees, item.employeeId = e.id ∧ item.ficaSs = withheld item.hours e

def ReadsRoster (s : Reading) (r : Uuid) (roster : Roster) : Prop :=
  ∃ d ∈ s.seen, ∃ d' ∈ s.seen, ∃ run, d.runs.get? r = some run ∧
    d'.rosters.get? run.businessId = some roster

def ReadsCandidates (s : Reading) (r : Uuid) (candidates : AliasCandidates) : Prop :=
  ∃ d ∈ s.seen, ∃ run, d.runs.get? r = some run ∧ candidates = run.aliasCandidates

structure Grew (s t : Reading) : Prop where
  run : t.run = s.run
  seen : s.seen ⊆ t.seen

def next (s : Reading) : (op : Op) → Except Exn (Ans op) → Reading
  | .query, .ok d => { s with seen := d :: s.seen }
  | .claimStatus r .received .extracting, .ok true => ⟨some r, []⟩
  | .claimStatus _ .received .extracting, _ => .fresh
  | _, _ => s

def Free : Op → Prop
  | .persistStages _ _ => False
  | .setAliasCandidates _ _ => False
  | .claimStatus _ .received .extracting => False
  | _ => True

variable {α : Type} {s t u : Reading} {r : Uuid} {job : Job} {roster : Roster}
    {candidates : AliasCandidates}

theorem Grew.refl (s : Reading) : Grew s s := ⟨rfl, fun _ h => h⟩

theorem Grew.trans (h : Grew s t) (h' : Grew t u) : Grew s u :=
  ⟨h'.run.trans h.run, fun _ hd => h'.seen (h.seen hd)⟩

theorem ReadsRoster.grew (h : ReadsRoster s r roster) (hgrew : Grew s t) : ReadsRoster t r roster := by
  obtain ⟨d, hd, d', hd', hread⟩ := h
  exact ⟨d, hgrew.seen hd, d', hgrew.seen hd', hread⟩

theorem ReadsCandidates.grew (h : ReadsCandidates s r candidates) (hgrew : Grew s t) :
    ReadsCandidates t r candidates := by
  obtain ⟨d, hd, hread⟩ := h
  exact ⟨d, hgrew.seen hd, hread⟩

theorem grew_next {op : Op} (h : Free op) (x : Except Exn (Ans op)) : Grew s (next s op x) := by
  unfold next
  split
  · exact ⟨rfl, List.subset_cons_self ..⟩
  · exact h.elim
  · exact h.elim
  · exact .refl s

abbrev Idle (p : Act α) : Prop := p.Calls Free

theorem idle_query : Idle query := .perform trivial

theorem idle_staged {p : Act α} (stage : PipelineStage) (h : Idle p) : Idle (staged stage p) :=
  .catching h fun _ => trivial

theorem idle_extract (email : ReadEmail) : Idle (extract r email) :=
  .bind (idle_staged _ (.perform trivial)) fun _ => trivial

theorem idle_consumeReply (inbound : Option InboundMail) : Idle (consumeReply r inbound) := by
  cases inbound with
  | none => trivial
  | some mail => exact .bind (idle_staged _ idle_query) fun db => idle_staged _ (.perform trivial)

theorem idle_extractions (ctx : ResumeContext) (emails : ResumeEmails) :
    Idle (extractions r ctx emails) :=
  .ite (.bind (idle_extract _) fun _ => .bind (idle_extract _) fun _ => trivial)
    (.bind (idle_extract _) fun _ => trivial)

theorem idle_reenter (paused status : RunStatus) : Idle (reenter job r paused status) :=
  .ite (.perform (by cases paused <;> trivial)) (.ite trivial (.ite (.perform trivial) trivial))

theorem idle_prepare (g : Uuid) : Idle (prepare r g) :=
  .catching (.bind (.perform trivial) fun _ => trivial) fun _ => .ite trivial trivial

theorem idle_handleSendOutbound : Idle (handleSendOutbound job) := by
  refine .ite trivial (.bind (.perform trivial) fun outcome => ?_)
  cases outcome with
  | authorized a =>
      refine .ite trivial (.bind idle_query fun db => .ite trivial ?_)
      exact .catching (.bind (.perform trivial) fun _ => trivial) fun _ => trivial
  | _ => trivial

theorem idle_handleIngest : Idle (handleIngest job) := by
  unfold handleIngest
  cases job.eventId with
  | none => trivial
  | some eventId => exact .bind (.perform trivial) fun mail => .bind (.perform trivial) fun _ => trivial

theorem idle_settle (result : PipelineResult) : Idle (settle job result) :=
  .ite (.perform trivial) (.perform trivial)

theorem idle_rejectRun : Idle (rejectRun r) := by
  refine .bind (.perform trivial) fun _ => .ite trivial ?_
  refine .bind (.perform trivial) fun _ => .ite trivial ?_
  exact .bind (.perform trivial) fun _ => trivial

theorem idle_resolveRun (overrides : Dict Str Uuid) (remember : Dict Str Bool) :
    Idle (resolveRun r overrides remember) := by
  refine .bind idle_query fun db => ?_
  cases db.runs.get? r with
  | none => trivial
  | some run => exact .ite (.bind (.perform trivial) fun _ => trivial) trivial

theorem idle_ignoring {op : Op} {p : Act (Ans op)} (h : Idle p) : Idle (ignoring p) :=
  .catching (.bind h fun _ => trivial) fun _ => trivial

theorem calculate_taxes {hours : HoursField → Option ℚ≥0} {e : Employee} {override : Option Fraction}
    {item : PaystubLineItem} (h : calculate hours e override = .ok item) :
    item.employeeId = e.id ∧ item.ficaSs = withheld item.hours e := by
  simp only [calculate] at h
  rw [raiseIfReconciliationDrift_ok (isCents_grossPay _ _) (isCents_money _) (isCents_money _)
    (isCents_money _) (FederalWithholding.isCents_federalWithholding2026 _ _)] at h
  obtain rfl := Except.ok.inj h
  exact ⟨rfl, rfl⟩

theorem lineItem_taxes {matches' : List NameMatchResult} {ee : ExtractedEmployee} {item : PaystubLineItem}
    (h : lineItem r matches' roster ee = .ok (some item)) : Taxes roster item := by
  unfold lineItem at h
  split at h
  · cases h
  · split at h
    · cases h
    next e he =>
      have hmem : e ∈ roster.employees := by
        obtain ⟨p, hp, heq⟩ := List.mem_map.mp (Dict.get?_ofList_mem he)
        obtain ⟨-, rfl⟩ := Prod.mk.inj heq
        exact hp
      cases hcalc : calculate ee.hours e ee.contribution401kOverride with
      | error x =>
          rw [hcalc] at h
          cases h
      | ok computed =>
          rw [hcalc] at h
          obtain rfl := Option.some.inj (Except.ok.inj h)
          obtain ⟨hid, htax⟩ := calculate_taxes hcalc
          exact ⟨e, hmem, hid, htax⟩

theorem lineItems_taxes {matches' : List NameMatchResult} {employees : List ExtractedEmployee}
    {items : List PaystubLineItem} (h : lineItems r matches' roster employees = .ok items) :
    ∀ item ∈ items, Taxes roster item := by
  induction employees generalizing items with
  | nil =>
      obtain rfl := Except.ok.inj h
      intro item hitem
      cases hitem
  | cons ee rest ih =>
      rw [lineItems] at h
      cases hfirst : lineItem r matches' roster ee with
      | error x =>
          rw [hfirst] at h
          cases h
      | ok first =>
          cases hrest : lineItems r matches' roster rest with
          | error x =>
              rw [hfirst, hrest] at h
              cases h
          | ok others =>
              rw [hfirst, hrest] at h
              obtain rfl := Except.ok.inj h
              intro item hitem
              obtain hmem | hmem := List.mem_append.mp hitem
              · rw [Option.mem_toList] at hmem
                obtain rfl := Option.mem_def.mp hmem
                exact lineItem_taxes hfirst
              · exact ih hrest item hmem

section

variable [PyText]

/-- The candidates that `bindAliases` stores. -/
def Binding (candidates bound : AliasCandidates) : Prop :=
  ∃ roster post, bound = bindCandidates roster post candidates

def allows (s : Reading) : Op → Prop
  | .persistStages r st => ∀ items, st.lineItems = some items →
      ∃ roster, ReadsRoster s r roster ∧ ∀ item ∈ items, Taxes roster item
  | .setAliasCandidates r bound =>
      s.run = some r ∧ ∃ candidates, ReadsCandidates s r candidates ∧ Binding candidates bound
  | _ => True

def reading : Prog.Monitor Op Ans Exn Reading := ⟨allows, next⟩

theorem allows_free {op : Op} (h : Free op) : allows s op := by
  cases op with
  | persistStages r st => exact h.elim
  | setAliasCandidates r bound => exact h.elim
  | _ => trivial

theorem Idle.follows {p : Act α} (h : Idle p) : Prog.Follows reading (fun t _ => Grew s t) p s :=
  Prog.Calls.follows (R := fun t => Grew s t) (fun _ _ _ hop => allows_free hop)
    (fun _ _ x ht hop => ht.trans (grew_next hop x)) h (.refl s)

theorem Idle.obeys {p : Act α} (h : Idle p) : Prog.Follows reading (fun _ _ => True) p s :=
  h.follows.mono fun _ _ _ => trivial

theorem staged_follows {p : Act α} {Q : Reading → Except Exn α → Prop} (stage : PipelineStage)
    (h : Prog.Follows reading Q p s) :
    Prog.Follows reading (fun t x => ∀ a, x = .ok a → Q t (.ok a)) (staged stage p) s := by
  refine h.catching (fun t a ha b hb => ?_) fun t e _ a ha => by cases ha
  rwa [← Except.ok.inj hb]

theorem query_follows : Prog.Follows reading (fun t x => Grew s t ∧ ∀ d, x = .ok d → d ∈ t.seen)
    query s := by
  refine Prog.follows_perform.mpr ⟨trivial, fun x => ⟨@grew_next s .query trivial x, fun d hd => ?_⟩⟩
  subst hd
  exact List.mem_cons_self ..

theorem stagedQuery_follows (stage : PipelineStage) :
    Prog.Follows reading (fun t x => ∀ d, x = .ok d → Grew s t ∧ d ∈ t.seen) (staged stage query) s :=
  (staged_follows stage query_follows).mono fun _ _ h d hd => ⟨(h d hd).1, (h d hd).2 d rfl⟩

theorem loadRun_follows (stage : PipelineStage) :
    Prog.Follows reading (fun t x => ∀ run, x = .ok run → Grew s t ∧ ∃ d ∈ t.seen,
    d.runs.get? r = some run) (loadRun r stage) s := by
  refine Prog.Follows.bind (stagedQuery_follows stage) (fun t db ht => ?_) fun t e _ run hrun => by
    cases hrun
  obtain ⟨hgrew, hseen⟩ := ht db rfl
  cases hrun : db.runs.get? r with
  | none =>
      intro run h
      cases h
  | some run =>
      intro run' h
      obtain rfl := Except.ok.inj h
      exact ⟨hgrew, db, hseen, hrun⟩

theorem loadRoster_follows (businessId : Uuid) :
    Prog.Follows reading (fun t x => ∀ roster, x = .ok roster →
      Grew s t ∧ ∃ d ∈ t.seen, d.rosters.get? businessId = some roster) (loadRoster businessId) s := by
  refine Prog.Follows.bind (stagedQuery_follows .load) (fun t db ht => ?_)
    fun t e _ roster hroster => by cases hroster
  obtain ⟨hgrew, hseen⟩ := ht db rfl
  cases hroster : db.rosters.get? businessId with
  | none =>
      intro roster h
      cases h
  | some roster =>
      intro roster' h
      obtain rfl := Except.ok.inj h
      exact ⟨hgrew, db, hseen, hroster⟩

theorem idle_storeAnswers (ctx : ResumeContext) (x : Extractions) : Idle (storeAnswers r ctx x) :=
  .ite (idle_staged _ (.perform trivial)) trivial

theorem idle_askOnce (decision : Decision) (roster : Roster) (extracted : Extracted)
    (purpose : Purpose) (round : Nat) : Idle (askOnce r decision roster extracted purpose round) := by
  refine .bind idle_query fun db => ?_
  cases getOutboundForRound db r purpose round with
  | some p => exact .perform trivial
  | none =>
      refine .bind idle_query fun db => ?_
      cases getUnconfirmedOutbound db r purpose round with
      | some p => exact .perform trivial
      | none => exact .bind (.perform trivial) fun _ => .bind (.perform trivial) fun _ => .perform trivial

theorem idle_clarify (decision : Decision) (roster : Roster) (extracted : Extracted) (purpose : Purpose) :
    Idle (clarify r decision roster extracted purpose) :=
  .bind idle_query fun _ => .ite (.perform trivial) (idle_askOnce ..)

theorem idle_defer (clarified : ClarifiedFields) (issues : List ValidationIssue) (roster : Roster) :
    Idle (deferFieldRegressionClarification r clarified issues roster) := by
  refine .bind idle_query fun db => .bind (.perform trivial) fun _ => .bind idle_query fun db => ?_
  cases (db.runs.get? r).bind Run.decision with
  | none => trivial
  | some decision =>
      cases (db.runs.get? r).bind Run.extractedData with
      | none => trivial
      | some extracted => exact idle_clarify ..

/-- The pay that the stages compute is taxed under the roster they were given. -/
theorem runStages_taxes {extracted : Extracted} {args : StageArgs} {st : StageResult}
    {items : List PaystubLineItem}
    (h : runStages r roster extracted args = .ok st) (hitems : st.lineItems = some items) :
    ∀ item ∈ items, Taxes roster item := by
  unfold runStages at h
  by_cases hprocess : (stageDecision roster extracted args).finalAction = .process
  · simp only [hprocess, if_true] at h
    cases hcomputed : computeLineItems r (stageExtracted roster extracted args)
      (stageMatches roster extracted args) roster with
    | error e =>
        rw [hcomputed] at h
        cases h
    | ok computed =>
        rw [hcomputed] at h
        obtain rfl := Except.ok.inj h
        obtain rfl := Option.some.inj hitems
        exact lineItems_taxes hcomputed
  · simp only [hprocess, if_false] at h
    obtain rfl := Except.ok.inj h
    cases hitems

theorem resumeContext_follows (inbound : Option InboundMail) :
    Prog.Follows reading (fun t x => ∀ reads, x = .ok reads → Grew s t ∧ reads.1.runId = r ∧
      ReadsRoster t r reads.1.roster ∧ ReadsCandidates t r reads.1.aliasCandidates)
      (resumeContext r inbound) s := by
  refine Prog.Follows.bind (loadRun_follows .load) (fun t run ht => ?_) fun _ _ _ _ h => by cases h
  obtain ⟨hgrew₁, d, hd, hrun⟩ := ht run rfl
  refine Prog.Follows.bind (loadRoster_follows run.businessId) (fun t' roster ht' => ?_)
    fun _ _ _ _ h => by cases h
  obtain ⟨hgrew₂, d', hd', hroster⟩ := ht' roster rfl
  refine Prog.Follows.bind (loadRun_follows .load) (fun u pre hu => ?_) fun _ _ _ _ h => by cases h
  obtain ⟨hgrew₃, d'', hd'', hpre⟩ := hu pre rfl
  refine Prog.Follows.bind (loadRun_follows .load) (fun v snapshot hv => ?_) fun _ _ _ _ h => by cases h
  refine Prog.Follows.bind (loadRun_follows .load) (fun w clarified hw => ?_) fun _ _ _ _ h => by cases h
  refine Prog.Follows.bind (stagedQuery_follows .load) (fun y db hy => ?_) fun _ _ _ _ h => by cases h
  have hconsumed : Idle (staged .load (Orchestrator.perform (.loadConsumedReplies r))) :=
    idle_staged _ (.perform trivial)
  refine Prog.Follows.bind hconsumed.follows (fun z consumed hz => ?_) fun _ _ _ _ h => by cases h
  intro reads hreads
  obtain rfl := Except.ok.inj hreads
  have hrest : Grew u z := (((hv _ rfl).1.trans (hw _ rfl).1).trans (hy _ rfl).1).trans hz
  refine ⟨((hgrew₁.trans hgrew₂).trans hgrew₃).trans hrest, rfl, ?_, ?_⟩
  · exact ReadsRoster.grew ⟨d, hgrew₂.seen hd, d', hd', run, hrun, hroster⟩ (hgrew₃.trans hrest)
  · exact ReadsCandidates.grew ⟨d'', hd'', pre, hpre, rfl⟩ hrest

theorem persistAndBranch_follows {result : Except CalculationError StageResult}
    (hroster : ReadsRoster s r roster)
    (htaxes : ∀ st items, result = .ok st → st.lineItems = some items → ∀ item ∈ items,
    Taxes roster item) :
    Prog.Follows reading (fun t _ => Grew s t) (persistAndBranch r roster result) s := by
  cases result with
  | error e => exact Grew.refl s
  | ok st =>
      have hpersist : Prog.Follows reading (fun t _ => Grew s t)
          (staged .persist (Orchestrator.perform (.persistStages r st))) s := by
        refine Prog.Follows.catching (P := fun t _ => Grew s t)
          (Prog.follows_perform.mpr ⟨?_, fun x => .refl s⟩) (fun _ _ h => h) fun _ _ h => h
        exact fun items hitems => ⟨roster, hroster, htaxes st items rfl hitems⟩
      refine Prog.Follows.bind hpersist (fun t _ ht => ?_) fun _ _ ht => ht
      refine Prog.Follows.ite (fun _ => ht) fun _ => ?_
      have hasks : Idle (staged .clarification
        (clarify r st.decision roster st.extracted .clarification)) :=
        idle_staged _ (idle_clarify ..)
      exact Prog.Follows.bind hasks.follows (fun u _ hu => ht.trans hu) fun u _ hu => ht.trans hu

theorem bindAliases_follows (hrun : s.run = some r) (hcandidates : ReadsCandidates s r candidates) :
    Prog.Follows reading (fun _ _ => True) (bindAliases r roster candidates) s := by
  refine Prog.Follows.ite (fun _ => trivial) fun _ => ?_
  refine Prog.Follows.bind (stagedQuery_follows .load) (fun t db ht => ?_) fun _ _ _ => trivial
  obtain ⟨hgrew, -⟩ := ht db rfl
  refine Prog.Follows.ite (fun _ => trivial) fun _ => ?_
  refine Prog.Follows.catching (P := fun _ _ => True) (Prog.follows_perform.mpr ⟨?_, fun _ => trivial⟩)
    (fun _ _ _ => trivial) fun _ _ _ => trivial
  exact ⟨hgrew.run.trans hrun, candidates, hcandidates.grew hgrew, roster, _, rfl⟩

theorem resumeFrom_follows {ctx : ResumeContext} {emails : ResumeEmails} {overrides : Option Overrides}
    (hrun : s.run = some r) (hid : ctx.runId = r) (hroster : ReadsRoster s r ctx.roster)
    (hcandidates : ReadsCandidates s r ctx.aliasCandidates) :
    Prog.Follows reading (fun _ _ => True) (resumeFrom r ctx emails overrides) s := by
  refine Prog.Follows.bind (idle_extractions ctx emails).follows (fun t x ht => ?_) fun _ _ _ => trivial
  refine Prog.Follows.bind (idle_storeAnswers ctx x).follows (fun u _ hu => ?_) fun _ _ _ => trivial
  have hgrew := ht.trans hu
  have hstaged : Prog.Follows reading (fun v _ => Grew u v)
      (persistAndBranch r ctx.roster (resumeStages ctx x overrides)) u :=
    persistAndBranch_follows (hroster.grew hgrew) fun st items hst hitems => by
      rw [resumeStages, hid] at hst
      exact runStages_taxes hst hitems
  refine Prog.Follows.bind hstaged (fun v st hv => ?_) fun _ _ _ => trivial
  refine Prog.Follows.ite (fun _ => ?_) fun _ => ?_
  · exact Prog.Follows.bind (idle_staged _ (idle_defer ..)).obeys (fun _ _ _ => trivial)
      fun _ _ _ => trivial
  · have hgrew' := hgrew.trans hv
    exact Prog.Follows.bind (bindAliases_follows (hgrew'.run.trans hrun) (hcandidates.grew hgrew'))
      (fun _ _ _ => trivial) fun _ _ _ => trivial

theorem classifying_follows {p : Act PipelineResult} (h : Prog.Follows reading (fun _ _ => True) p s) :
    Prog.Follows reading (fun _ _ => True) (classifying p) s :=
  h.catching (fun _ _ _ => trivial) fun _ _ _ => trivial

theorem claim_follows : Prog.Follows reading (fun t x => x = .ok true → t = ⟨some r, []⟩)
    (Orchestrator.perform (.claimStatus r .received .extracting)) s := by
  refine Prog.follows_perform.mpr ⟨trivial, fun x hx => ?_⟩
  rw [hx]
  rfl

theorem resumePipeline_follows (inbound : Option InboundMail) (overrides : Option Overrides) :
    Prog.Follows reading (fun _ _ => True) (resumePipeline r inbound .received overrides) s := by
  refine classifying_follows ?_
  have hclaim : Prog.Follows reading (fun t x => x = .ok true → t = ⟨some r, []⟩)
      (staged .persist (Orchestrator.perform (.claimStatus r .received .extracting)) : Act Bool) s :=
    claim_follows.catching (fun _ _ h => h) fun _ _ _ hx => by cases hx
  refine Prog.Follows.bind hclaim (fun t claimed ht => ?_) fun _ _ _ => trivial
  refine Prog.Follows.ite (fun hwon => ?_) fun _ => trivial
  obtain rfl := ht (congrArg _ hwon)
  refine Prog.Follows.bind (idle_consumeReply inbound).follows (fun u _ hu => ?_) fun _ _ _ => trivial
  refine Prog.Follows.bind (resumeContext_follows inbound) (fun v reads hv => ?_) fun _ _ _ => trivial
  obtain ⟨hgrew, hid, hroster, hcandidates⟩ := hv reads rfl
  exact resumeFrom_follows (hgrew.run.trans hu.run) hid hroster hcandidates

theorem runPipeline_follows : Prog.Follows reading (fun _ _ => True) (runPipeline r) s := by
  refine classifying_follows ?_
  refine Prog.Follows.bind (loadRun_follows .load) (fun t run ht => ?_) fun _ _ _ => trivial
  obtain ⟨-, d, hd, hstored⟩ := ht run rfl
  refine Prog.Follows.bind (stagedQuery_follows .load) (fun u db hu => ?_) fun _ _ _ => trivial
  cases db.inbound.get? run.sourceEmailId with
  | none => trivial
  | some row =>
      refine Prog.Follows.bind (loadRoster_follows run.businessId) (fun v roster hv => ?_)
        fun _ _ _ => trivial
      obtain ⟨hgrew, d', hd', hroster⟩ := hv roster rfl
      have hreads : ReadsRoster v r roster :=
        ⟨d, hgrew.seen ((hu db rfl).1.seen hd), d', hd', run, hstored, hroster⟩
      have hset : Idle (staged .persist (Orchestrator.perform (.setStatus r .extracting))) :=
        idle_staged _ (.perform trivial)
      refine Prog.Follows.bind hset.follows (fun w _ hw => ?_) fun _ _ _ => trivial
      refine Prog.Follows.bind (idle_extract _).follows (fun y x hy => ?_) fun _ _ _ => trivial
      refine Prog.Follows.bind (persistAndBranch_follows (hreads.grew (hw.trans hy)) fun st items =>
        runStages_taxes) (fun _ _ _ => trivial) fun _ _ _ => trivial

theorem claimAndRun_follows : Prog.Follows reading (fun _ _ => True) (claimAndRun r) s := by
  refine Prog.Follows.bind claim_follows (fun t won _ => ?_) fun _ _ _ => trivial
  exact Prog.Follows.ite (fun _ => runPipeline_follows) fun _ => trivial

theorem handleRunPipeline_follows : Prog.Follows reading (fun _ _ => True) (handleRunPipeline job) s := by
  unfold handleRunPipeline
  cases job.runId with
  | none => trivial
  | some r =>
      refine Prog.Follows.ite (fun _ => ?_) fun _ => claimAndRun_follows
      exact Prog.follows_perform_bind.mpr ⟨trivial, fun _ => claimAndRun_follows, fun _ => trivial⟩

theorem handleResumeReply_follows : Prog.Follows reading (fun _ _ => True) (handleResumeReply job) s := by
  unfold handleResumeReply
  cases job.runId with
  | none => trivial
  | some r =>
      cases job.emailId with
      | none => trivial
      | some e =>
          refine Prog.follows_perform_bind.mpr ⟨trivial, fun (db : Db) => ?_, fun _ => trivial⟩
          cases db.inbound.get? e with
          | none => trivial
          | some row =>
              refine Prog.follows_perform_bind.mpr ⟨trivial, fun (db : Db) => ?_, fun _ => trivial⟩
              cases db.runs.get? r with
              | none => trivial
              | some run =>
                  refine Prog.Follows.ite (fun _ => ?_) fun _ => trivial
                  refine Prog.Follows.bind (idle_reenter .awaitingReply run.status).obeys
                    (fun t entered _ => ?_) fun _ _ _ => trivial
                  exact Prog.Follows.ite (fun _ => resumePipeline_follows _ _) fun _ => trivial

theorem resumeWith_follows (g : Uuid) : Prog.Follows reading (fun _ _ => True)
    (resumeWith job r g) s := by
  refine Prog.follows_perform_bind.mpr ⟨trivial, fun (db : Db) => ?_, fun _ => trivial⟩
  cases db.resolutions.get? g with
  | none => trivial
  | some generation =>
      refine Prog.follows_perform_bind.mpr ⟨trivial, fun (db : Db) => ?_, fun _ => trivial⟩
      cases db.runs.get? r with
      | none => trivial
      | some run =>
          refine Prog.Follows.bind (idle_reenter .needsOperator run.status).obeys (fun t entered _ => ?_)
            fun _ _ _ => trivial
          exact Prog.Follows.ite (fun _ => resumePipeline_follows _ _) fun _ => trivial

theorem handleOperatorResume_follows : Prog.Follows reading (fun _ _ => True)
    (handleOperatorResume job) s := by
  unfold handleOperatorResume
  cases job.runId with
  | none => trivial
  | some r =>
      cases job.operatorResolutionId with
      | none => trivial
      | some g =>
          refine Prog.Follows.bind (idle_prepare g).obeys (fun t authoritative _ => ?_)
            fun _ _ _ => trivial
          match authoritative with
          | none => trivial
          | some false => trivial
          | some true => exact resumeWith_follows g

theorem handle_follows : Prog.Follows reading (fun _ _ => True) (handle job) s := by
  unfold handle
  cases job.kind with
  | runPipeline => exact handleRunPipeline_follows
  | resumeReply => exact handleResumeReply_follows
  | operatorResume => exact handleOperatorResume_follows
  | ingest => exact idle_handleIngest.obeys
  | sendOutbound => exact idle_handleSendOutbound.obeys

theorem drainOnce_follows : Prog.Follows reading (fun _ _ => True) drainOnce s := by
  refine Prog.follows_perform_bind.mpr ⟨trivial, fun (claimed : Option Job) => ?_, fun _ => trivial⟩
  cases claimed with
  | none =>
      have hreap : Idle (Orchestrator.perform .reapExpiredFinalAttempt >>= fun _ => pure ()) :=
        .bind (.perform trivial) fun _ => trivial
      exact hreap.obeys
  | some job =>
      have hattempt : Prog.Follows reading (fun _ _ => True) (attempt job)
        (next s .claimJob (.ok (some job))) := by
        refine Prog.Follows.catching (P := fun _ _ => True) ?_ (fun _ _ _ => trivial) fun _ _ _ => trivial
        exact Prog.Follows.bind handle_follows (fun _ _ _ => trivial) fun _ _ _ => trivial
      refine Prog.Follows.bind hattempt (fun t result _ => ?_) fun _ _ _ => trivial
      exact Prog.Follows.bind (idle_settle _).obeys (fun _ _ _ => trivial) fun _ _ _ => trivial

theorem thread_follows (k : Thread) : Prog.Follows reading (fun _ _ => True) (thread k) s := by
  have hidle : Idle (thread k) → Prog.Follows reading (fun _ _ => True) (thread k) s := Idle.obeys
  cases k with
  | worker => exact drainOnce_follows
  | approve r =>
      exact hidle (.catching (.bind (.perform trivial) fun _ => trivial) fun _ => .perform trivial)
  | reject r => exact hidle idle_rejectRun
  | resolve r overrides remember => exact hidle (idle_resolveRun overrides remember)
  | shutdown tokens => exact hidle (.perform trivial)
  | pass seconds => exact hidle (.perform trivial)
  | _ => exact hidle (idle_ignoring (.perform trivial))

end

end PayrollAgent.StageReads
