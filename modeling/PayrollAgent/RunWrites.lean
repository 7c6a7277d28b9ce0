import PayrollAgent.EmailSteps

namespace PayrollAgent.RunWrites

open Lib Repo AliasLearning RunStages Delivery RunRoutes ClarificationWrites Ingest Effects RunSteps
  FreshIds

/-- `||`, where the new tokens win. -/
def mergeCandidates (stored new : AliasCandidates) : AliasCandidates :=
  new.entries.foldl (fun d p => d.set p.1 p.2) stored

/-- What a transaction does to the alias candidates of its run. -/
inductive CandidatesWrite (r : Uuid) : Op → AliasCandidates → AliasCandidates → Prop
  | kept {op : Op} {d : AliasCandidates} : CandidatesWrite r op d d
  | captured {q : Question} {new d : AliasCandidates} (hq : q.candidates = some new) :
      CandidatesWrite r (.reserveClarification r q) d (mergeCandidates d new)
  | bound {new d : AliasCandidates} : CandidatesWrite r (.setAliasCandidates r new) d
      (mergeCandidates d new)
  | projected {g : Uuid} {generation : OperatorResolution} {d : AliasCandidates} :
      CandidatesWrite r (.prepareAuthoritativeOperatorResume r g) d
      (mergeCandidates d (rememberedCandidates generation))
  | rewound {d : AliasCandidates} : CandidatesWrite r (.rewindForReclaim r) d Dict.empty
  | retriggered {d : AliasCandidates} : CandidatesWrite r (.retrigger r) d Dict.empty
  | authorizedNew {d : AliasCandidates} : CandidatesWrite r (.authorizeNewConfirmation r) d Dict.empty

/-- What a transaction does to the columns of its run. Every write stamps it. -/
structure Columns (db : Db) (op : Op) (r : Uuid) (f : Run → Run) : Prop where
  business : ∀ run, (f run).businessId = run.businessId
  stamped : ∀ run, (f run).updatedAt = db.now
  lineItems : ∀ run, (f run).lineItems = run.lineItems ∨
    ∃ s, op = .persistStages r s ∧ s.lineItems = some (f run).lineItems
  candidates : ∀ run, CandidatesWrite r op run.aliasCandidates (f run).aliasCandidates
  detail : ∀ run, db.runs.get? r = some run → run.status = .needsOperator →
    (f run).errorDetail = run.errorDetail ∨ (f run).status = .error

/-- Every transaction writes the row of one run at most. -/
inductive RunWrite (db : Db) (op : Op) (db' : Db) : Prop
  | same (h : db'.runs = db.runs)
  | wrote (r : Uuid) (f : Run → Run) (h : db'.runs = db.runs.modify r f) (hf : Columns db op r f)
  | created (r businessId : Uuid) (h : db'.runs = db.runs.set r (Run.created businessId db.nextId db.now))
      (hnew : db.runs.get? r = none)

variable {db db' db₁ : Db} {op : Op} {r : Uuid} {f : Run → Run}

structure Plain (db : Db) (r : Uuid) (f : Run → Run) : Prop where
  business : ∀ run, (f run).businessId = run.businessId
  stamped : ∀ run, (f run).updatedAt = db.now
  lineItems : ∀ run, (f run).lineItems = run.lineItems
  candidates : ∀ run, (f run).aliasCandidates = run.aliasCandidates
  detail : ∀ run, db.runs.get? r = some run → run.status = .needsOperator →
    (f run).errorDetail = run.errorDetail ∨ (f run).status = .error

theorem Plain.columns (h : Plain db r f) : Columns db op r f := by
  refine ⟨h.business, h.stamped, fun run => .inl (h.lineItems run), fun run => ?_, h.detail⟩
  rw [h.candidates run]
  exact .kept

theorem RunWrite.plain (h : db'.runs = db.runs.modify r f) (hf : Plain db r f) : RunWrite db op db' :=
  .wrote r f h hf.columns

theorem plain_enterDeliveryReview {e : Uuid} {m : Outbound} {run : Run} (category : FailureCategory)
    (howed : deliveryContext db r e = some (m, run)) : Plain db r fun run =>
    { run with
      status := .needsOperator
      errorReason := some (reviewReason m.purpose)
      errorDetail := some (.deliveryReview category)
      updatedAt := db.now } := by
  refine ⟨fun _ => rfl, fun _ => rfl, fun _ => rfl, fun _ => rfl, fun run' hrun' hwaits => ?_⟩
  obtain ⟨-, -, hrun, -, -, hstatus⟩ := deliveryContext_some howed
  obtain rfl := Option.some.inj (hrun.symm.trans hrun')
  rw [hstatus] at hwaits
  cases hpurpose : m.purpose <;> rw [hpurpose] at hwaits <;> cases hwaits

theorem plain_setRunError (reason : ErrorReason) (detail : ErrorDetail) : Plain db r fun run =>
    { run with
      status := .error
      errorReason := some reason
      errorDetail := some detail
      updatedAt := db.now } :=
  ⟨fun _ => rfl, fun _ => rfl, fun _ => rfl, fun _ => rfl, fun _ _ _ => .inr rfl⟩

theorem plain_setStatus (s : RunStatus) : Plain db r fun run =>
    { run with status := s, updatedAt := db.now } :=
  ⟨fun _ => rfl, fun _ => rfl, fun _ => rfl, fun _ => rfl, fun _ _ _ => .inl rfl⟩

theorem plain_pause (round : Nat) (extracted : Extracted) : Plain db r fun run =>
    { run with
      status := .awaitingReply
      clarificationRound := round + 1
      preClarifyExtracted := run.preClarifyExtracted <|> some extracted
      updatedAt := db.now } :=
  ⟨fun _ => rfl, fun _ => rfl, fun _ => rfl, fun _ => rfl, fun _ _ _ => .inl rfl⟩

theorem runWrite_setStatus (s : RunStatus) (h : db'.runs = (setStatus r s db).runs) :
    RunWrite db op db' :=
  .plain (h.trans (Db.modifyRun_runs ..)) (plain_setStatus s)

theorem runWrite_settleSent [PyText] (r e : Uuid) (purpose : Purpose) (hruns : db₁.runs = db.runs)
    (hnow : db₁.now = db.now) (h : db'.runs = (settleSent r e purpose db₁).runs) :
    RunWrite db op db' := by
  rw [settleSent_runs, hruns, hnow] at h
  split at h
  · exact .plain h (plain_setStatus .reconciled)
  · exact .same h

theorem persistStages_columns (r : Uuid) (s : StageResult) (db : Db) :
    ∃ f, (persistStages r s db).runs = db.runs.modify r f ∧ Columns db (.persistStages r s) r f := by
  unfold persistStages
  dsimp only [setStatus, Db.modifyRun]
  split
  next items _ hitems =>
    simp only [Dict.modify_modify]
    exact ⟨_, rfl, fun _ => rfl, fun _ => rfl, fun _ => .inr ⟨s, rfl, hitems⟩, fun _ => .kept,
      fun _ _ _ => .inl rfl⟩
  · dsimp only
    exact ⟨_, rfl, fun _ => rfl, fun _ => rfl, fun _ => .inl rfl, fun _ => .kept, fun _ _ _ => .inl rfl⟩

theorem reserveClarification_columns (r : Uuid) (q : Question) (db : Db) :
    ∃ f, (reserveClarification r q db).runs = db.runs.modify r f ∧
    Columns db (.reserveClarification r q) r f := by
  have hnow : (enqueueSend r (reserveOutboundSnapshot r q.purpose q.round q.envelope db).1
      (reserveOutboundSnapshot r q.purpose q.round q.envelope db).2).now = db.now :=
    (enqueueSend_now ..).trans (reserveOutboundSnapshot_now ..)
  simp only [reserveClarification, pauseForReply_runs]
  cases hq : q.candidates with
  | none =>
      simp only [enqueueSend_runs, reserveOutboundSnapshot_runs, hnow]
      exact ⟨_, rfl, fun _ => rfl, fun _ => rfl, fun _ => .inl rfl, fun _ => .kept, fun _ _ _ => .inl rfl⟩
  | some candidates =>
      simp only [setAliasCandidates, Db.modifyRun, enqueueSend_runs, reserveOutboundSnapshot_runs,
        Dict.modify_modify, hnow]
      exact ⟨_, rfl, fun _ => rfl, fun _ => rfl, fun _ => .inl rfl, fun _ => .captured hq,
        fun _ _ _ => .inl rfl⟩

section

variable [PyText] {env : Env} {a : Ans op}

theorem runWrite (h : Effect env db op a db') (hfresh : Fresh db) : RunWrite db op db' := by
  cases h with
  | reapedReview _ _ _ howned =>
      exact .plain (enterDeliveryReview_runs ..) (plain_enterDeliveryReview _ howned.owed)
  | reapedRun _ _ _ hstatus => exact .plain (setRunError_runs hstatus) (plain_setRunError ..)
  | recorded => exact runWrite_settleSent _ _ _ rfl rfl rfl
  | expired hctx => exact .plain (enterDeliveryReview_runs ..) (plain_enterDeliveryReview _ hctx.owed)
  | @sent job result row r e m run h =>
      have hdb : (appendDeliveryAttempt e .sent .none (releaseHandoff h .finalized db)).runs =
        db.runs := rfl
      have hnow : (appendDeliveryAttempt e .sent .none (releaseHandoff h .finalized db)).now =
        db.now := rfl
      exact runWrite_settleSent r e m.purpose hdb hnow rfl
  | reviewed hctx => exact .plain (enterDeliveryReview_runs ..) (plain_enterDeliveryReview _ hctx.owed)
  | requeued => exact runWrite_setStatus .received rfl
  | failed _ _ hstatus => exact .plain (setRunError_runs hstatus) (plain_setRunError ..)
  | @claimed r expected new => exact runWrite_setStatus new rfl
  | @statusSet r s => exact runWrite_setStatus s rfl
  | rewound =>
      exact .wrote _ _ (Db.modifyRun_runs ..) ⟨fun _ => rfl, fun _ => rfl, fun _ => .inl rfl,
        fun _ => .rewound, fun _ _ _ => .inl rfl⟩
  | fieldsSet =>
      exact .plain (Db.modifyRun_runs ..) ⟨fun _ => rfl, fun _ => rfl, fun _ => rfl, fun _ => rfl,
        fun _ _ _ => .inl rfl⟩
  | candidatesSet =>
      exact .wrote _ _ (Db.modifyRun_runs ..) ⟨fun _ => rfl, fun _ => rfl, fun _ => .inl rfl,
        fun _ => .bound, fun _ _ _ => .inl rfl⟩
  | @persisted r s =>
      obtain ⟨f, hruns, hf⟩ := persistStages_columns r s db
      exact .wrote r f hruns hf
  | escalated => exact runWrite_setStatus .needsOperator rfl
  | finalized => exact .plain (pauseForReply_runs ..) (plain_pause ..)
  | @replayed r e extracted m =>
      have hruns := pauseForReply_runs r m.round extracted (enqueueSend r e db)
      rw [enqueueSend_runs, enqueueSend_now] at hruns
      exact .plain hruns (plain_pause ..)
  | @reserved r q =>
      obtain ⟨f, hruns, hf⟩ := reserveClarification_columns r q db
      exact .wrote r f hruns hf
  | redelivered => exact .same (authorizedReplyJob_runs ..)
  | @created mail businessId =>
      exact .created (db.nextId + 1) businessId (enqueueJob_runs ..) (hfresh.runs _ (Nat.le_succ _))
  | replied => exact .same (authorizedReplyJob_runs ..)
  | prepared =>
      exact .wrote _ _ (Db.modifyRun_runs ..) ⟨fun _ => rfl, fun _ => rfl, fun _ => .inl rfl,
        fun _ => .projected, fun _ _ _ => .inl rfl⟩
  | @approved r =>
      obtain hdeliver | hdeliver := deliver_runs r env.envelope (setStatus r .approved db)
      · exact runWrite_setStatus .approved hdeliver
      · rw [setStatus, Db.modifyRun_runs, Dict.modify_modify] at hdeliver
        exact .plain hdeliver ⟨fun _ => rfl, fun _ => rfl, fun _ => rfl, fun _ => rfl,
          fun _ _ _ => .inl rfl⟩
  | errored =>
      exact .plain (Db.modifyRun_runs ..)
        ⟨fun _ => rfl, fun _ => rfl, fun _ => rfl, fun _ => rfl, fun _ _ _ => .inr rfl⟩
  | @retriggered r run db₁ _ _ hclaim =>
      obtain ⟨rfl, -⟩ | ⟨rfl, -⟩ := hclaim
      · exact .wrote _ _ (enqueueJob_runs ..) ⟨fun _ => rfl, fun _ => rfl, fun _ => .inl rfl,
          fun _ => .retriggered,
        fun _ _ _ => .inl rfl⟩
      · exact .wrote _ _ ((enqueueJob_runs ..).trans (Dict.modify_modify ..))
          ⟨fun _ => rfl, fun _ => rfl, fun _ => .inl rfl, fun _ => .retriggered,
        fun _ _ _ => .inl rfl⟩
  | @markedDelivered r e m db' hload hresolve =>
      exact .plain (resolved_runs hresolve) (plain_setStatus .reconciled)
  | @authorizedNew r e m db₁ hload hresolve hnone =>
      exact .wrote r _ (authorizedNew_runs _ hresolve) ⟨fun _ => rfl, fun _ => rfl,
        fun _ => .inl rfl, fun _ => .authorizedNew, fun _ _ _ => .inl rfl⟩
  | @finishedReview r e m target acknowledge hload =>
      exact .plain (finishedReview_runs ..) (plain_setStatus target)
  | resolved => exact .same (enqueueJob_runs ..)
  | _ => exact .same rfl

def unaliased (roster : Roster) : List Employee :=
  roster.employees.map fun e => { e with knownAliases := [] }

omit [PyText] in
theorem unaliased_rosterWithAliases (target : Uuid) (f : List Str → List Str) (roster : Roster) :
    unaliased (rosterWithAliases target f roster) = unaliased roster := by
  unfold unaliased rosterWithAliases
  rw [List.map_map]
  refine List.map_congr_left fun e _ => ?_
  dsimp only [Function.comp_apply, withAliases]
  split
  · rfl
  · rfl

theorem unaliased_foldl_writeAlias (entries : List (Str × AliasCandidate)) (roster : Roster) :
    unaliased (entries.foldl writeAlias roster) = unaliased roster := by
  induction entries generalizing roster with
  | nil => rfl
  | cons entry rest ih =>
      refine (ih _).trans ?_
      unfold writeAlias
      split
      · split
        · exact unaliased_rosterWithAliases ..
        · rfl
      · rfl

omit [PyText] in
structure SameStaff (db db' : Db) : Prop where
  rosters : ∀ b, (db'.rosters.get? b).map unaliased = (db.rosters.get? b).map unaliased

omit [PyText] in
theorem SameStaff.same (h : db'.rosters = db.rosters) : SameStaff db db' := ⟨fun b => by rw [h]⟩

omit [PyText] in
theorem SameStaff.trans {db₂ : Db} (h : SameStaff db db₁) (h' : SameStaff db₁ db₂) : SameStaff db db₂ :=
  ⟨fun b => (h'.rosters b).trans (h.rosters b)⟩

theorem SameStaff.writeAliases (r : Uuid) (db : Db) : SameStaff db (writeAliasesIfSafe r db) := by
  refine ⟨fun b => ?_⟩
  unfold writeAliasesIfSafe
  split
  · rfl
  next run _ =>
    dsimp only
    rw [Dict.get?_modify]
    split
    · rw [Option.map_map]
      exact congrArg (Option.map · _) (funext fun roster => unaliased_foldl_writeAlias _ roster)
    · rfl

theorem SameStaff.settleSent (r e : Uuid) (purpose : Purpose) (h : db₁.rosters = db.rosters)
    (h' : db'.rosters = (settleSent r e purpose db₁).rosters) : SameStaff db db' := by
  cases purpose with
  | confirmation =>
      have hwritten := SameStaff.writeAliases r (setStatus r .sent (markSent e db₁))
      have hsent : SameStaff db (setStatus r .sent (markSent e db₁)) := .same h
      exact (hsent.trans hwritten).trans (.same h')
  | clarification => exact .same (h'.trans h)
  | clarificationFieldRegression => exact .same (h'.trans h)

theorem sameStaff_deliver (r : Uuid) (envelope : Envelope) (db : Db) :
    SameStaff db (deliver r envelope db) := by
  obtain ⟨-, hdeliver⟩ | ⟨-, ⟨e, m, -, hdeliver⟩ | ⟨-, hdeliver⟩⟩ := deliver_cases r envelope db
  · rw [hdeliver]
    exact (SameStaff.writeAliases r db).trans (.same rfl)
  · rw [hdeliver]
    exact .same (enqueueJob_rosters ..)
  · rw [hdeliver]
    exact .same ((enqueueJob_rosters ..).trans (reserveOutboundSnapshot_rosters ..))

omit [PyText] in
theorem authorizedReplyJob_rosters (mail : InboundMail) (r e : Uuid) (db : Db) :
    (authorizedReplyJob mail r e db).rosters = db.rosters := by
  obtain hsame | ⟨-, hqueued⟩ := authorizedReplyJob_cases mail r e db
  · rw [hsame]
  · rw [hqueued, enqueueJob_rosters]

omit [PyText] in
theorem setRunError_rosters (r : Uuid) (reason : ErrorReason) (detail : ErrorDetail) (s : RunStatus)
    (db : Db) : (setRunError r reason detail s db).2.rosters = db.rosters := by
  obtain ⟨runs, hframe⟩ := setRunError_frame r reason detail s db
  rw [hframe]

omit [PyText] in
theorem persistStages_rosters (r : Uuid) (s : StageResult) (db : Db) :
    (persistStages r s db).rosters = db.rosters := by
  obtain ⟨runs, hframe⟩ := persistStages_frame r s db
  rw [hframe]

theorem sameStaff (h : Effect env db op a db') : SameStaff db db' := by
  cases h with
  | reapedRun => exact .same (setRunError_rosters ..)
  | @recorded job result row r e m => exact .settleSent r e m.purpose rfl rfl
  | @sent job result row r e m run h =>
      have hdb : (appendDeliveryAttempt e .sent .none (releaseHandoff h .finalized db)).rosters =
        db.rosters := rfl
      exact .settleSent r e m.purpose hdb rfl
  | failed => exact .same (setRunError_rosters ..)
  | persisted => exact .same (persistStages_rosters ..)
  | @replayed r e extracted m => exact .same (enqueueJob_rosters ..)
  | reserved => exact .same (reserveClarification_rosters ..)
  | redelivered => exact .same (authorizedReplyJob_rosters ..)
  | created => exact .same (enqueueJob_rosters ..)
  | replied => exact .same (authorizedReplyJob_rosters ..)
  | @approved r =>
      exact (@SameStaff.same db (setStatus r .approved db) rfl).trans (sameStaff_deliver ..)
  | @retriggered r run db₁ _ _ hclaim =>
      obtain ⟨rfl, -⟩ | ⟨rfl, -⟩ := hclaim
      · exact .same (enqueueJob_rosters ..)
      · exact .same (enqueueJob_rosters ..)
  | markedDelivered _ hresolve =>
      obtain ⟨handoffs, rfl⟩ := resolve_frame hresolve
      exact .same rfl
  | authorizedNew _ hresolve =>
      have hreplaced : ∀ r envelope (d : Db), (replaceConfirmation r envelope d).rosters =
        d.rosters := fun r envelope d =>
        (enqueueJob_rosters ..).trans (reserveOutboundSnapshot_rosters ..)
      obtain ⟨handoffs, rfl⟩ := resolve_frame hresolve
      exact .same (hreplaced ..)
  | @finishedReview r e m target acknowledge =>
      cases acknowledge with
      | true => exact .same rfl
      | false => exact .same rfl
  | resolved => exact .same (enqueueJob_rosters ..)
  | _ => exact .same rfl

section Senders

omit [PyText]

theorem authorizedReplyJob_senders (mail : InboundMail) (r e : Uuid) (db : Db) :
    (authorizedReplyJob mail r e db).senders = db.senders := by
  obtain hsame | ⟨-, hqueued⟩ := authorizedReplyJob_cases mail r e db
  · rw [hsame]
  · rw [hqueued, enqueueJob_senders]

theorem setRunError_senders (r : Uuid) (reason : ErrorReason) (detail : ErrorDetail) (s : RunStatus)
    (db : Db) : (setRunError r reason detail s db).2.senders = db.senders := by
  obtain ⟨runs, hframe⟩ := setRunError_frame r reason detail s db
  rw [hframe]

theorem persistStages_senders (r : Uuid) (s : StageResult) (db : Db) :
    (persistStages r s db).senders = db.senders := by
  obtain ⟨runs, hframe⟩ := persistStages_frame r s db
  rw [hframe]

end Senders

theorem writeAliasesIfSafe_senders (r : Uuid) (db : Db) :
    (writeAliasesIfSafe r db).senders = db.senders := by
  obtain ⟨rosters, hframe⟩ := writeAliasesIfSafe_frame r db
  rw [hframe]

theorem settleSent_senders (r e : Uuid) (purpose : Purpose) (db : Db) :
    (settleSent r e purpose db).senders = db.senders := by
  cases purpose with
  | confirmation => exact writeAliasesIfSafe_senders ..
  | clarification => rfl
  | clarificationFieldRegression => rfl

theorem deliver_senders (r : Uuid) (envelope : Envelope) (db : Db) :
    (deliver r envelope db).senders = db.senders := by
  obtain ⟨-, hdeliver⟩ | ⟨-, ⟨e, m, -, hdeliver⟩ | ⟨-, hdeliver⟩⟩ := deliver_cases r envelope db
  · rw [hdeliver]
    exact writeAliasesIfSafe_senders ..
  · rw [hdeliver]
    exact enqueueJob_senders ..
  · rw [hdeliver]
    exact (enqueueJob_senders ..).trans (reserveOutboundSnapshot_senders ..)

theorem senders_kept (h : Effect env db op a db') : db'.senders = db.senders := by
  cases h with
  | reapedRun => exact setRunError_senders ..
  | @recorded job result row r e m => exact settleSent_senders ..
  | @sent job result row r e m run h => exact settleSent_senders ..
  | failed => exact setRunError_senders ..
  | persisted => exact persistStages_senders ..
  | @replayed r e extracted m => exact enqueueJob_senders ..
  | reserved => exact reserveClarification_senders ..
  | redelivered => exact authorizedReplyJob_senders ..
  | created => exact enqueueJob_senders ..
  | replied => exact authorizedReplyJob_senders ..
  | @approved r => exact deliver_senders ..
  | @retriggered r run db₁ _ _ hclaim =>
      obtain ⟨rfl, -⟩ | ⟨rfl, -⟩ := hclaim
      · exact enqueueJob_senders ..
      · exact enqueueJob_senders ..
  | markedDelivered _ hresolve =>
      obtain ⟨handoffs, rfl⟩ := resolve_frame hresolve
      rfl
  | authorizedNew _ hresolve =>
      obtain ⟨handoffs, rfl⟩ := resolve_frame hresolve
      exact (enqueueJob_senders ..).trans (reserveOutboundSnapshot_senders ..)
  | @finishedReview r e m target acknowledge =>
      cases acknowledge with
      | true => rfl
      | false => rfl
  | resolved => exact enqueueJob_senders ..
  | _ => rfl

/-- What a transaction does to a stored message. -/
inductive MessageWrite (db : Db) (op : Op) (db' : Db) (e : Uuid) (m : Outbound) : Prop
  | kept (h : db'.outbound.get? e = some m)
  | sent {r : Uuid} {run : Run} (howed : deliveryContext db r e = some (m, run))
      (h : db'.outbound.get? e = some { m with sendState := .sent })
      (hstatus : m.purpose = .confirmation → db'.statusOf r = some .reconciled)
  | acknowledged {target : RunStatus} (hop : op = .finishClarificationDeliveryReview m.runId target true)
      (hstatus : db'.statusOf m.runId = some target)
      (h : ∃ at', db'.outbound.get? e = some { m with operatorAcknowledgedAt := at' })

variable {e : Uuid} {m : Outbound}

omit [PyText] in
theorem reserve_keeps {db₁ : Db} {r' : Uuid} {purpose : Purpose} {round : Nat} {envelope : Envelope}
    (hfresh : Fresh db)
    (hnext : db.nextId ≤ db₁.nextId) (hout : db₁.outbound = db.outbound)
    (hm : db.outbound.get? e = some m) :
    (reserveOutboundSnapshot r' purpose round envelope db₁).2.outbound.get? e = some m := by
  unfold reserveOutboundSnapshot
  split
  · rw [hout, hm]
  · have hne : e ≠ db₁.nextId + 1 := ((hfresh.outbound.lt hm).trans_le (hnext.trans (Nat.le_succ _))).ne
    rw [Db.insertOutbound, Dict.get?_set_of_ne _ hne, hout, hm]

theorem MessageWrite.of_sent {r' e' : Uuid} {m' : Outbound} {run' : Run}
    (howed : deliveryContext db r' e' = some (m', run')) (hout : db₁.outbound = db.outbound)
    (hruns : db₁.runs = db.runs) (hout' : db'.outbound = (settleSent r' e' m'.purpose db₁).outbound)
    (hruns' : db'.runs = (settleSent r' e' m'.purpose db₁).runs) (hm : db.outbound.get? e = some m) :
    MessageWrite db op db' e m := by
  rw [settleSent_outbound, hout] at hout'
  by_cases he : e = e'
  · subst he
    obtain ⟨hm', hown, hrun, -⟩ := deliveryContext_some howed
    obtain rfl := Option.some.inj (hm.symm.trans hm')
    refine .sent howed (by rw [hout', Dict.get?_modify_self hm]) fun hpurpose => ?_
    have hmarked : (markSent e db₁).runs.get? r' = some run' := by
      rw [markSent, Db.modifyOutbound, hruns, hrun]
    rw [Db.statusOf, hruns', hpurpose, settleSent, completeConfirmationAfterSend_runs,
      Dict.get?_modify_self hmarked]
    rfl
  · exact .kept (by rw [hout', Dict.get?_modify_of_ne _ he, hm])

theorem messageWrite (h : Effect env db op a db') (hfresh : Fresh db) (hm : db.outbound.get? e = some m) :
    MessageWrite db op db' e m := by
  have hsame : db'.outbound = db.outbound → MessageWrite db op db' e m :=
    fun hout => .kept (by rw [hout, hm])
  cases h with
  | reapedRun => exact hsame (setRunError_outbound ..)
  | recorded hctx => exact .of_sent hctx.owed rfl rfl rfl rfl hm
  | @sent job result row r e m run i handoff hctx =>
      have hout : (appendDeliveryAttempt e .sent .none (releaseHandoff i .finalized db)).outbound =
        db.outbound := rfl
      have hruns : (appendDeliveryAttempt e .sent .none (releaseHandoff i .finalized db)).runs =
        db.runs := rfl
      exact .of_sent hctx.owed hout hruns rfl rfl hm
  | failed => exact hsame (setRunError_outbound ..)
  | persisted => exact hsame (persistStages_outbound ..)
  | @replayed r e =>
      have hout : (enqueueSend r e db).outbound = db.outbound := enqueueSend_outbound ..
      exact hsame hout
  | reserved =>
      refine .kept ?_
      rw [reserveClarification_outbound]
      exact reserve_keeps hfresh le_rfl rfl hm
  | redelivered => exact hsame (authorizedReplyJob_outbound ..)
  | created => exact hsame (enqueueJob_outbound ..)
  | replied => exact hsame (authorizedReplyJob_outbound ..)
  | @approved r =>
      obtain hout | hreserve := deliver_outbound r env.envelope (setStatus r .approved db)
      · exact hsame hout
      · refine .kept ?_
        rw [hreserve]
        exact @reserve_keeps _ _ _ (setStatus r .approved db) _ _ _ _ hfresh le_rfl rfl hm
  | retriggered _ _ hclaim =>
      obtain ⟨rfl, -⟩ | ⟨rfl, -⟩ := hclaim
      · exact hsame (enqueueJob_outbound ..)
      · exact hsame (enqueueJob_outbound ..)
  | markedDelivered _ hresolve =>
      obtain ⟨handoffs, rfl⟩ := resolve_frame hresolve
      exact hsame rfl
  | @authorizedNew r e' m' db₁ _ hresolve =>
      have hresolved : (db₁.modifyRun r (openEpoch db₁.now)).outbound = db.outbound ∧
        db₁.nextId = db.nextId := by
        obtain ⟨handoffs, rfl⟩ := resolve_frame hresolve
        exact ⟨rfl, rfl⟩
      have hnext : db.nextId ≤ (db₁.modifyRun r (openEpoch db₁.now)).nextId := hresolved.2.ge
      refine .kept ?_
      rw [replaceConfirmation, enqueueSend_outbound]
      exact reserve_keeps hfresh hnext hresolved.1 hm
  | @finishedReview r e' m' target acknowledge hload =>
      cases acknowledge with
      | false => exact hsame rfl
      | true =>
          obtain ⟨run, hreview⟩ := loadDeliveryReview_some hload
          by_cases he : e = e'
          · subst he
            obtain rfl := Option.some.inj (hm.symm.trans hreview.message)
            obtain rfl := hreview.own
            have hmoved : (setStatus m.runId target db).statusOf m.runId = some target := by
              rw [Db.statusOf, setStatus, Db.modifyRun_runs, Dict.get?_modify_self hreview.found]
              rfl
            refine .acknowledged rfl hmoved ?_
            by_cases hnone : m.operatorAcknowledgedAt = none
            · exact ⟨some db.now, (Dict.get?_modify_self hm _).trans
                (congrArg some (if_pos ⟨rfl, hnone⟩))⟩
            · refine ⟨m.operatorAcknowledgedAt, (Dict.get?_modify_self hm _).trans
                (congrArg some (if_neg ?_))⟩
              exact fun hfirst => hnone hfirst.2
          · exact .kept ((Dict.get?_modify_of_ne _ he _).trans hm)
  | resolved => exact hsame (enqueueJob_outbound ..)
  | _ => exact hsame rfl

end

end PayrollAgent.RunWrites
