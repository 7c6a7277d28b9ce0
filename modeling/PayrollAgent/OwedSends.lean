import PayrollAgent.JobSteps
import PayrollAgent.Rejection

namespace PayrollAgent.OwedSends

open Lib Repo Handlers Effects RunSteps Conduct FreshIds Bookkeeping HandoffSteps JobSteps Rejection

/-- The operations of the delivery: claims of sends, authority, request,
settlement, reaping, shutdown and time. -/
def delivers : Op → Bool
  | .query => true
  | .claimJob => true
  | .reapExpiredFinalAttempt => true
  | .settleOutboundDeliveryJob _ _ => true
  | .releaseLeases _ => true
  | .authorizeOutboundProviderHandoff _ => true
  | .send _ => true
  | .pass _ => true
  | _ => false

def deliveries : World.Rules Op Db Env Note Thread :=
  ⟨fun _ => True, fun _ env op db _ => delivers op = true ∧ leasesOnlySends env db op = true⟩

def Unreviewed (db : Db) (e : Uuid) : Prop := ∀ x ∈ db.attempts, x.emailId = e → x.state ≠ .needsOperator

def HasSender (db : Db) (r e : Uuid) : Prop :=
  ∃ j row, db.jobs.get? j = some row ∧ row.kind = .sendOutbound ∧ row.runId = some r ∧
    row.emailId = some e ∧ Live row

/-- No owed send is lost. A message is owed while it is reserved in the current
epoch of a run that waits for its send. -/
structure NoneLost (db : Db) : Prop where
  owed : ∀ e m run, deliveryContext db m.runId e = some (m, run) → Unreviewed db e →
    HasSender db m.runId e
  /-- A send that is done has a message that is not owed. -/
  done : ∀ j row r e, db.jobs.get? j = some row → row.kind = .sendOutbound → row.state = .done →
    row.runId = some r → row.emailId = some e → deliveryContext db r e = none

instance (db : Db) (job : Job) (result : PipelineResult) (r e : Uuid) (m : Outbound) (run : Run) :
    Decidable (Evidence db job result r e m run) :=
  decidable_of_iff (if result.reason = .deliveryRecordOnly then run.recordOnly = true
    else (isPreProviderExpiry result run m db.now = true ∧ activeHandoff db r = none) ∨
      (currentProviderHandoff db job.id job.leaseToken r e m.epoch).isSome = true) (by
    simp only [Evidence, Option.isSome_iff_exists])

def whileOwed (db : Db) (row : JobRow) (p : Uuid → Uuid → Outbound → Run → Bool) : Bool :=
  match row.runId, row.emailId with
  | some r, some e => (deliveryContext db r e).all fun x => p r e x.1 x.2
  | _, _ => true

def keepsSends (env : Env) (db : Db) : Op → Bool
  | .settleOutboundDeliveryJob job result =>
      (lockedJob db job).all fun row => whileOwed db row fun r e m run => Evidence db job result r e m run
  | .reapExpiredFinalAttempt =>
      (db.jobs.get? env.picked).all fun row => !reapable db.now row ||
        whileOwed db row fun r e m _ => row.leaseToken.any fun token =>
          (currentProviderHandoff db env.picked token r e m.epoch).isSome
  | .releaseLeases tokens =>
      db.jobs.entries.all fun p =>
        !(p.2.state = .leased ∧ p.2.leaseToken.any (· ∈ tokens)) ||
          decide (p.2.attempts < p.2.maxAttempts) || whileOwed db p.2 fun _ _ _ _ => false
  | _ => true

/-- The deliveries in which no job is closed, and none is released on its last
attempt, while its message is owed and the lease has no evidence to close it. -/
def sendsKept : World.Rules Op Db Env Note Thread :=
  ⟨deliveries.spawns, fun i env op db log =>
    deliveries.permits i env op db log ∧ keepsSends env db op = true⟩

def HasLadder (row : JobRow) : Prop := row.maxAttempts = maxAttempts .sendOutbound

structure Inv (db : Db) : Prop where
  fresh : Fresh db
  owed : ∀ r e m run, deliveryContext db r e = some (m, run) →
    ∃ j row, db.jobs.get? j = some row ∧ row.kind = .sendOutbound ∧ row.runId = some r ∧
      row.emailId = some e ∧ HasLadder row ∧ Live row
  done : ∀ j row r e, db.jobs.get? j = some row → row.kind = .sendOutbound → row.state = .done →
    row.runId = some r → row.emailId = some e → deliveryContext db r e = none

variable {s : Work} {op : Op} {answer : Ans op} {i j : Nat} {db db' : Db} {log : List Note}
  {env : Env} {row row' : JobRow} {r e : Uuid} {m : Outbound} {run : Run}

/-- What the delivery operations do to the rows a message is owed by. -/
structure Delivery (db db' : Db) : Prop where
  runs : db'.runs = db.runs ∨ ∃ r f, db'.runs = db.runs.modify r f ∧
    ∀ run (purpose : Purpose), (f run).status ≠ purpose.expectedStatus
  outbound : db'.outbound = db.outbound ∨
    ∃ e, db'.outbound = db.outbound.modify e fun m => { m with sendState := .sent }
  jobs : ∀ j row', db'.jobs.get? j = some row' → ∃ row, db.jobs.get? j = some row

theorem jobs_same (h : db'.jobs = db.jobs) (j : Uuid) (row' : JobRow)
    (hrow' : db'.jobs.get? j = some row') : ∃ row, db.jobs.get? j = some row := ⟨row', by rw [← h, hrow']⟩

theorem jobs_modify {k : Uuid} {f : JobRow → JobRow} (h : db'.jobs = db.jobs.modify k f) (j : Uuid)
    (row' : JobRow) (hrow' : db'.jobs.get? j = some row') : ∃ row, db.jobs.get? j = some row := by
  rw [h, Dict.get?_modify] at hrow'
  split at hrow'
  · obtain ⟨row, hrow, -⟩ := Option.map_eq_some_iff.mp hrow'
    exact ⟨row, hrow⟩
  · exact ⟨row', hrow'⟩

theorem Delivery.owed_before (h : Delivery db db') (howed : deliveryContext db' r e = some (m, run)) :
    deliveryContext db r e = some (m, run) := by
  obtain ⟨hm, hown, hrun, hreserved, hepoch, hstatus⟩ := deliveryContext_some howed
  have hm₀ : db.outbound.get? e = some m := by
    rcases h.outbound with hout | ⟨k, hout⟩
    · rwa [← hout]
    · rw [hout, Dict.get?_modify] at hm
      split at hm
      · obtain ⟨m₀, -, rfl⟩ := Option.map_eq_some_iff.mp hm
        cases hreserved
      · exact hm
  have hrun₀ : db.runs.get? r = some run := by
    rcases h.runs with hruns | ⟨k, f, hruns, hf⟩
    · rwa [← hruns]
    · rw [hruns, Dict.get?_modify] at hrun
      split at hrun
      · obtain ⟨run₀, -, rfl⟩ := Option.map_eq_some_iff.mp hrun
        exact absurd hstatus (hf run₀ m.purpose)
      · exact hrun
  exact deliveryContext_of hm₀ hown hrun₀ hreserved hepoch hstatus

theorem of_whileOwed {p : Uuid → Uuid → Outbound → Run → Bool} (h : whileOwed db row p = true)
    (hrun : row.runId = some r) (hmail : row.emailId = some e)
    (howed : deliveryContext db r e = some (m, run)) : p r e m run = true := by
  simpa [whileOwed, hrun, hmail, howed] using h

/-- The job of a message that stays owed is not touched, or it stays open. -/
theorem owed_job (hcopied : Copied s db) (hop : s.allows op) (hdelivers : delivers op = true)
    (hkeeps : keepsSends env db op = true) (hrow : db.jobs.get? j = some row)
    (hkind : row.kind = .sendOutbound) (hrun : row.runId = some r) (hmail : row.emailId = some e)
    (howed : deliveryContext db r e = some (m, run)) (howed' : deliveryContext db' r e = some (m, run))
    (hstep : JobStep env db db' j row op answer row') :
    row' = row ∨ row'.state ≠ .done ∧ (HasLadder row → Live row') := by
  cases hstep with
  | kept => exact .inl rfl
  | leased => exact .inr ⟨(fun hdone => by cases hdone), fun _ => .inl rfl⟩
  | reapedInvalid hpicked hreap _ hinvalid =>
      simp only [keepsSends, hpicked, hrow, Option.all_some, hreap, Bool.not_true,
        Bool.false_or] at hkeeps
      obtain ⟨token, htoken, hcurrent⟩ :=
        (Option.any_eq_true ..).mp (of_whileOwed hkeeps hrun hmail howed)
      obtain ⟨⟨k, handoff⟩, hcurrent⟩ := Option.isSome_iff_exists.mp hcurrent
      exact absurd ⟨hrun, hmail, howed, token, htoken, hcurrent⟩ (hinvalid r e m run k handoff)
  | reapedReview howned _ hafter =>
      have hrun' := howned.runId
      have hmail' := howned.emailId
      rw [hrun] at hrun'
      rw [hmail] at hmail'
      cases hrun'
      cases hmail'
      rw [hafter] at howed'
      cases howed'
  | reapedOther hother => exact absurd hkind hother
  | retired hid hlocked hinvalid =>
      simp only [keepsSends, hlocked, Option.all_some] at hkeeps
      have hevidence := of_whileOwed hkeeps hrun hmail howed
      simp only [decide_eq_true_eq] at hevidence
      exact absurd ⟨row, r, e, m, run, ⟨hlocked, hcopied.names hop.1 hlocked hrun hmail, howed⟩,
        hevidence⟩ hinvalid
  | settled hid hctx _ hafter hrow' =>
      obtain ⟨hrun', hmail', -⟩ := sendContext_some hctx.names
      rw [hrun] at hrun'
      rw [hmail] at hmail'
      cases hrun'
      cases hmail'
      rcases hafter with ⟨rfl, hattempts⟩ | ⟨-, hafter⟩
      · obtain ⟨hstate, hsame⟩ := hrow'.attempts
        refine .inr ⟨by simp [hstate], fun hladder => .inr ⟨hstate, ?_⟩⟩
        rwa [hsame, hrow'.same.maxAttempts, hladder]
      · rw [hafter] at howed'
        cases howed'
  | closed => cases hdelivers
  | released hleased htoken =>
      have hmem := List.all_eq_true.mp hkeeps (j, row) ((Dict.get?_eq_some_iff _ _ _).mp hrow)
      simp only [hleased, htoken, and_self, decide_true, Bool.not_true, Bool.false_or, Bool.or_eq_true,
        decide_eq_true_eq] at hmem
      rcases hmem with hattempts | hnever
      · exact .inr ⟨(fun hdone => by cases hdone), fun _ => .inr ⟨rfl, hattempts⟩⟩
      · cases of_whileOwed hnever hrun hmail howed
  | advanced => cases hdelivers

section

variable [PyText]

theorem settleSent_runs_delivery (r₀ e₀ : Uuid) (purpose : Purpose) (db₁ : Db)
    (hruns₁ : db₁.runs = db.runs) (h : db'.runs = (settleSent r₀ e₀ purpose db₁).runs) :
    db'.runs = db.runs ∨ ∃ r f, db'.runs = db.runs.modify r f ∧
      ∀ run (purpose : Purpose), (f run).status ≠ purpose.expectedStatus := by
  rw [settleSent_runs, hruns₁] at h
  split at h
  · exact .inr ⟨r₀, _, h, fun run purpose => status_ne_expected (by simp) purpose⟩
  · exact .inl h

theorem delivery (heffect : Effect env db op answer db') (hop : delivers op = true) :
    Delivery db db' := by
  have hreview : ∀ (r e : Uuid) (purpose : Purpose) (category : FailureCategory) (db₁ : Db),
      db₁.runs = db.runs → db'.runs = (enterDeliveryReview r e purpose category db₁).runs →
      ∃ r f, db'.runs = db.runs.modify r f ∧
        ∀ run (purpose : Purpose), (f run).status ≠ purpose.expectedStatus := by
    intro r e purpose category db₁ hdb₁ h
    rw [enterDeliveryReview, Db.modifyRun_runs, appendDeliveryAttempt, hdb₁] at h
    exact ⟨r, _, h, fun run purpose => status_ne_expected (by simp) purpose⟩
  cases heffect with
  | idle => exact ⟨.inl rfl, .inl rfl, jobs_same rfl⟩
  | @leased row hrow hclaim =>
      refine ⟨.inl rfl, .inl rfl, fun j row' hrow' => ?_⟩
      rw [Dict.get?_set] at hrow'
      split at hrow'
      next hj => exact ⟨row, hj ▸ hrow⟩
      · exact ⟨row', hrow'⟩
  | reapedInvalid => exact ⟨.inl rfl, .inl rfl, jobs_modify (finish_jobs ..)⟩
  | @reapedReview row r e m run i handoff =>
      exact ⟨.inr (hreview r e m.purpose .finalAttemptLeaseExpired (releaseHandoff i .deliveryReview db)
        rfl rfl), .inl rfl, jobs_modify (closeJob_jobs ..)⟩
  | reapedRun _ _ _ hstatus =>
      refine ⟨.inr ⟨_, _, setRunError_runs hstatus, fun run purpose => status_ne_expected
        (by simp) purpose⟩, .inl (setRunError_outbound ..),
        jobs_modify ((closeJob_jobs ..).trans (by rw [setRunError_jobs]))⟩
  | reapedJob => exact ⟨.inl rfl, .inl rfl, jobs_modify (closeJob_jobs ..)⟩
  | retired => exact ⟨.inl rfl, .inl rfl, jobs_modify (finish_jobs ..)⟩
  | @recorded job result row r e m =>
      exact ⟨settleSent_runs_delivery r e m.purpose db rfl rfl,
        .inr ⟨e, settleSent_outbound r e m.purpose db⟩,
        jobs_modify ((closeJob_jobs ..).trans (by rw [settleSent_jobs]))⟩
  | @expired job result row r e m =>
      exact ⟨.inr (hreview r e m.purpose (deliveryFailureCategory result) db rfl rfl), .inl rfl,
        jobs_modify (finish_jobs ..)⟩
  | @sent job result row r e m run i handoff =>
      have hjobs : (settleSent r e m.purpose (appendDeliveryAttempt e .sent .none
          (releaseHandoff i .finalized db))).jobs = db.jobs := settleSent_jobs ..
      exact ⟨settleSent_runs_delivery r e m.purpose (appendDeliveryAttempt e .sent .none
        (releaseHandoff i .finalized db)) rfl rfl, .inr ⟨e, settleSent_outbound r e m.purpose _⟩,
        jobs_modify ((closeJob_jobs ..).trans (by rw [hjobs]))⟩
  | rescheduled => exact ⟨.inl rfl, .inl rfl, jobs_modify (modifyJob_jobs ..)⟩
  | @reviewed job result row r e m run i handoff =>
      exact ⟨.inr (hreview r e m.purpose (deliveryFailureCategory result)
        (releaseHandoff i .deliveryReview db) rfl rfl), .inl rfl, jobs_modify (finish_jobs ..)⟩
  | @released tokens =>
      refine ⟨.inl rfl, .inl rfl, fun j row' hrow' => ?_⟩
      rw [releaseLeases, Dict.get?_updateWhere] at hrow'
      obtain ⟨row, hrow, -⟩ := Option.map_eq_some_iff.mp hrow'
      exact ⟨row, hrow⟩
  | handedOver => exact ⟨.inl rfl, .inl rfl, jobs_same rfl⟩
  | handedAgain => exact ⟨.inl rfl, .inl rfl, jobs_same rfl⟩
  | adopted => exact ⟨.inl rfl, .inl rfl, jobs_same rfl⟩
  | passed => exact ⟨.inl rfl, .inl rfl, jobs_same rfl⟩
  | _ => cases hop

theorem owed_step (hinv : Inv db) (heffect : Effect env db op answer db') (hcopied : Copied s db)
    (hop : s.allows op) (hdelivers : delivers op = true) (hkeeps : keepsSends env db op = true)
    (howed' : deliveryContext db' r e = some (m, run)) :
    ∃ j row, db'.jobs.get? j = some row ∧ row.kind = .sendOutbound ∧ row.runId = some r ∧
      row.emailId = some e ∧ HasLadder row ∧ Live row := by
  have howed := (delivery heffect hdelivers).owed_before howed'
  obtain ⟨j, row, hrow, hkind, hrun, hmail, hladder, hlive⟩ := hinv.owed r e m run howed
  obtain ⟨row', hrow', hstep⟩ := jobStep heffect hinv.fresh hrow
  refine ⟨j, row', hrow', by rw [hstep.same.kind, hkind], by rw [hstep.same.runId, hrun],
    by rw [hstep.same.emailId, hmail], by rw [HasLadder, hstep.same.maxAttempts, hladder], ?_⟩
  rcases owed_job hcopied hop hdelivers hkeeps hrow hkind hrun hmail howed howed' hstep with
    rfl | ⟨-, hopen⟩
  · exact hlive
  · exact hopen hladder

theorem done_step (hinv : Inv db) (heffect : Effect env db op answer db') (hcopied : Copied s db)
    (hop : s.allows op) (hdelivers : delivers op = true) (hkeeps : keepsSends env db op = true)
    (hrow' : db'.jobs.get? j = some row') (hkind : row'.kind = .sendOutbound)
    (hdone : row'.state = .done) (hrun : row'.runId = some r) (hmail : row'.emailId = some e) :
    deliveryContext db' r e = none := by
  cases howed' : deliveryContext db' r e with
  | none => rfl
  | some x =>
      obtain ⟨m, run⟩ := x
      have hdelivery := delivery heffect hdelivers
      have howed := hdelivery.owed_before howed'
      obtain ⟨row, hrow⟩ := hdelivery.jobs j row' hrow'
      obtain ⟨row'', hrow'', hstep⟩ := jobStep heffect hinv.fresh hrow
      rw [hrow'] at hrow''
      cases hrow''
      have hsame := hstep.same
      rcases owed_job hcopied hop hdelivers hkeeps hrow (by rw [← hsame.kind, hkind])
        (by rw [← hsame.runId, hrun]) (by rw [← hsame.emailId, hmail]) howed howed' hstep with
        rfl | ⟨hopen, -⟩
      · rw [hinv.done j row' r e hrow hkind hdone hrun hmail] at howed
        cases howed
      · exact absurd hdone hopen

theorem inv_exec (hinv : Inv db) (hcopied : Copied s db) (hop : s.allows op)
    (hdelivers : delivers op = true) (hkeeps : keepsSends env db op = true) : Inv (exec env op db).2 := by
  apply exec_preserves hinv
  intro answer db' htxn
  have heffect := txn_effect htxn
  refine ⟨fresh_step heffect hinv.fresh, fun r e m run howed => ?_,
    fun j row r e hrow hkind hdone hrun hmail => ?_⟩
  · exact owed_step hinv heffect hcopied hop hdelivers hkeeps howed
  · exact done_step hinv heffect hcopied hop hdelivers hkeeps hrow hkind hdone hrun hmail

theorem preserved : World.Preserved machine thread sendsKept Inv conduct Work.fresh
    (fun db _ => Inv db) (fun _ s db _ => Copied s db) where
  init _ h := h
  follows k _ := thread_follows k
  fresh _ _ _ _ := nofun
  shared _ _ _ _ _ _ hinv hcopied hop hpermits :=
    inv_exec hinv hcopied hop hpermits.1.1 hpermits.2
  own _ _ _ _ _ _ hinv hcopied _ _ := copied_own hinv.fresh hcopied
  other _ _ _ _ _ _ hinv _ _ _ _ _ _ ht := copied_other hinv.fresh ht

/-- No owed send is lost, where no lease closes its job without evidence or is
released on its last attempt. -/
theorem none_lost {w : World Op Ans Exn Db Note}
    (hreach : World.Reach machine thread sendsKept Inv w) : NoneLost w.data := by
  obtain ⟨hinv, -⟩ := preserved.reach hreach
  refine ⟨fun e m run howed _ => ?_, hinv.done⟩
  obtain ⟨j, row, hrow, hkind, hrun, hmail, -, hlive⟩ := hinv.owed m.runId e m run howed
  exact ⟨j, row, hrow, hkind, hrun, hmail, hlive⟩

end

section Histories

attribute [local instance] asciiText

instance : DecidablePred sendsKept.spawns := fun _ => inferInstanceAs (Decidable True)

instance : DecidablePred deliveries.spawns := fun _ => inferInstanceAs (Decidable True)

instance (i : Nat) (env : Env) (op : Op) (db : Db) (log : List Note) :
    Decidable (deliveries.permits i env op db log) :=
  inferInstanceAs (Decidable (delivers op = true ∧ leasesOnlySends env db op = true))

instance (i : Nat) (env : Env) (op : Op) (db : Db) (log : List Note) :
    Decidable (sendsKept.permits i env op db log) :=
  inferInstanceAs (Decidable (deliveries.permits i env op db log ∧ keepsSends env db op = true))

def owedDb : Db :=
  { Db.empty with
    nextId := 10
    runs := .ofList [(2, { Run.created 1 3 0 with status := .approved })]
    outbound := .ofList [(5, reservedMessage 2 .confirmation 7)]
    jobs := .ofList [(6, sendJob 2 5)] }

/-- The database fails under the authorization of the send, and comes back for
the settlement. -/
def failedAuthorization : List (Event Thread Env) :=
  [.spawn .worker, .run 0 { picked := 6 }, .run 0 { fault := .before .runtime }, .run 0 {}]

def retriedSend : List (Event Thread Env) :=
  [.spawn .worker, .run 0 { picked := 6 }, .run 0 {}, .run 0 {}, .run 0 { fault := .after .timeout },
    .run 0 {}]

theorem inv_owedDb : Inv owedDb := by
  refine ⟨Fresh.of_keys (by decide), fun r e m run howed => ?_, fun j row r e hrow hkind hdone => ?_⟩
  · obtain ⟨hm, hown, -⟩ := deliveryContext_some howed
    obtain ⟨rfl, rfl⟩ : e = 5 ∧ m = reservedMessage 2 .confirmation 7 := by
      simpa using Dict.get?_ofList_mem hm
    obtain rfl : 2 = r := hown
    exact ⟨6, sendJob 2 5, rfl, rfl, rfl, rfl, rfl, .inr ⟨rfl, by decide⟩⟩
  · obtain ⟨rfl, rfl⟩ : j = 6 ∧ row = sendJob 2 5 := by
      simpa using Dict.get?_ofList_mem hrow
    cases hdone

/-- The send is done, its confirmation still reserved and its run approved. -/
theorem send_lost_before_authorization :
    ¬ ∀ w : World Op Ans Exn Db Note,
      World.Reach machine thread deliveries Inv w → NoneLost w.data := by
  intro hall
  have hreach : World.Reach machine thread deliveries Inv (worldAfter owedDb failedAuthorization) :=
    reach_worldAfter_of_permits inv_owedDb (by decide +kernel)
  have hjobs : (worldAfter owedDb failedAuthorization).data.jobs.entries.all
      fun p => p.2.state = .done := by
    decide +kernel
  have hattempts : (worldAfter owedDb failedAuthorization).data.attempts = [] := by decide +kernel
  have howed : (deliveryContext (worldAfter owedDb failedAuthorization).data 2 5).isSome := by
    decide +kernel
  have hlost := hall _ hreach
  generalize worldAfter owedDb failedAuthorization = w at *
  obtain ⟨⟨m, run⟩, howed⟩ := Option.isSome_iff_exists.mp howed
  have hown : m.runId = 2 := (deliveryContext_some howed).2.1
  obtain ⟨j, row, hrow, -, -, -, hlive⟩ := hlost.owed 5 m run (by rwa [hown])
    (by simp [Unreviewed, hattempts])
  have hdone := List.all_eq_true.mp hjobs (j, row) ((Dict.get?_eq_some_iff _ _ _).mp hrow)
  simp only [decide_eq_true_eq] at hdone
  simp [Live, hdone] at hlive

/-- The confirmation that was put back keeps its pending send. -/
theorem none_lost_retried : HasSender (worldAfter owedDb retriedSend).data 2 5 := by
  have hreach : World.Reach machine thread sendsKept Inv (worldAfter owedDb retriedSend) :=
    reach_worldAfter_of_permits inv_owedDb (by decide +kernel)
  have howed : (deliveryContext (worldAfter owedDb retriedSend).data 2 5).isSome := by decide +kernel
  have hattempts : (worldAfter owedDb retriedSend).data.attempts.all fun x =>
    x.state ≠ .needsOperator := by
    decide +kernel
  have hsafe := none_lost hreach
  generalize worldAfter owedDb retriedSend = w at *
  obtain ⟨⟨m, run⟩, howed⟩ := Option.isSome_iff_exists.mp howed
  have hown : m.runId = 2 := (deliveryContext_some howed).2.1
  rw [← hown]
  refine hsafe.owed 5 m run (by rwa [hown]) fun x hx _ => ?_
  simpa using List.all_eq_true.mp hattempts x hx

end Histories

end PayrollAgent.OwedSends
