import PayrollAgent.Bookkeeping
import PayrollAgent.Drives

namespace PayrollAgent.Rejection

open Lib Repo Handlers Effects RunSteps Conduct FreshIds Drives Bookkeeping

def leasesOnlySends (env : Env) (db : Db) : Op → Bool
  | .claimJob => (db.jobs.get? env.picked).all fun row => row.kind = .sendOutbound
  | _ => true

def deliveryOnly : World.Rules Op Db Env Note Thread :=
  ⟨fun _ => True, fun _ env op db _ => leasesOnlySends env db op = true⟩

structure OffRun (s : Work) (log : List Note) : Prop where
  lease : ∀ job, s.lease = some job → job.kind = .sendOutbound
  phase : s.phase.run = none
  known : Known s log

def Confirmed (log : List Note) (r : Uuid) (run : Run) : Prop :=
  run.status = .approved ∨ run.status = .reconciled ∨ run.status = .error ∨
    (run.status = .needsOperator ∧ run.errorReason = some .deliveryReview) ∨
    (run.status = .rejected ∧ Note.rejectedReview r ∈ log)

def Tracked (db : Db) (log : List Note) (a : Authorization) : Prop :=
  ∃ run, db.runs.get? a.runId = some run ∧ a.epoch ≤ run.replyEpoch ∧
    (a.epoch = run.replyEpoch → Confirmed log a.runId run)

structure Inv (db : Db) (log : List Note) : Prop where
  fresh : Fresh db
  authorized : ∀ a, Note.authorized a ∈ log → a.purpose = .confirmation → Tracked db log a
  requested : ∀ i a, Note.requested i a ∈ log → Note.authorized a ∈ log

variable {s : Work} {op : Op} {answer : Ans op} {i : Nat} {db db' : Db} {log : List Note} {r : Uuid}

theorem OffRun.not_onRun (hs : OffRun s log) : ¬ s.OnRun := by
  rintro ⟨job, hlease, hkind⟩
  exact hkind (hs.lease job hlease)

theorem OffRun.stageWrite (hs : OffRun s log) (hop : s.allows op) : stageWrite op = none := by
  cases h : RunSteps.stageWrite op with
  | none => rfl
  | some r =>
      have hrun := run_of_stageWrite hop h
      rw [hs.phase] at hrun
      cases hrun

theorem Confirmed.mono {run : Run} {ns : List Note} (h : Confirmed log r run) :
    Confirmed (ns ++ log) r run := by
  rcases h with h | h | h | h | ⟨h, hreview⟩
  · exact .inl h
  · exact .inr (.inl h)
  · exact .inr (.inr (.inl h))
  · exact .inr (.inr (.inr (.inl h)))
  · exact .inr (.inr (.inr (.inr ⟨h, List.mem_append_right _ hreview⟩)))

theorem Confirmed.status {run : Run} (h : Confirmed log r run) :
    run.status ∈ [RunStatus.approved, .reconciled, .error, .needsOperator, .rejected] := by
  rcases h with h | h | h | ⟨h, -⟩ | ⟨h, -⟩ <;> simp [h]

theorem rejectedReview_noted {run : Run} (hrun : db.runs.get? r = some run)
    (hreason : run.errorReason = some .deliveryReview) :
    Note.rejectedReview r ∈ notes i (.claimStatus r .needsOperator .rejected) db (true : Bool) db' := by
  simp [notes, rejectionOf, hrun, hreason]

theorem confirmed_step {run run' : Run} (hs : OffRun s log) (hop : s.allows op)
    (hstep : RunStep db r run op answer run') (hrun : db.runs.get? r = some run)
    (hepoch : run'.replyEpoch = run.replyEpoch) (h : Confirmed log r run) :
    Confirmed (notes i op db answer db' ++ log) r run' := by
  cases hstep with
  | kept hkept =>
      have hkeep : Confirmed (notes i op db answer db' ++ log) r run := h.mono
      unfold Confirmed at hkeep ⊢
      rwa [hkept.status, hkept.reason]
  | fieldsSet => exact h.mono
  | driven hdrives =>
      have hnone := hs.stageWrite hop
      rw [stageWrite_of_drives hdrives] at hnone
      cases hnone
  | claimed hstatus hmoved =>
      rcases hop.1 with hmem | ⟨honRun, -⟩ | ⟨honRun, -⟩
      · have hin := hstatus ▸ h.status
        simp only [rejections, List.mem_cons, Prod.mk.injEq, List.not_mem_nil, or_false] at hmem
        rcases hmem with ⟨rfl, rfl⟩ | ⟨rfl, rfl⟩ | ⟨rfl, rfl⟩
        · exact absurd hin (by decide)
        · -- the operator's rejection: the invariant says which review it ends
          have hreason : run.errorReason = some .deliveryReview := by
            rcases h with h | h | h | ⟨-, hreason⟩ | ⟨h, -⟩
            · simp [hstatus] at h
            · simp [hstatus] at h
            · simp [hstatus] at h
            · exact hreason
            · simp [hstatus] at h
          exact .inr (.inr (.inr (.inr
            ⟨hmoved.status, List.mem_append_left _ (rejectedReview_noted hrun hreason)⟩)))
        · exact absurd hin (by decide)
      · exact absurd honRun hs.not_onRun
      · exact absurd honRun hs.not_onRun
  | rewound => exact absurd hop.1 hs.not_onRun
  | approved hstatus => exact absurd (hstatus ▸ h.status) (by decide)
  | failed _ _ hmoved => exact .inr (.inr (.inl hmoved.status))
  | requeued _ _ hstatus => exact absurd (hstatus ▸ h.status) (by decide)
  | retriggered _ _ hreopened =>
      have := hreopened.epoch
      omega
  | reconciled _ hmoved => exact .inr (.inl hmoved.status)
  | @reviewed _ _ purpose _ _ hstatus hmoved hreason =>
      have hin := hstatus ▸ h.status
      cases purpose with
      | confirmation => exact .inr (.inr (.inr (.inl ⟨hmoved.status, hreason⟩)))
      | clarification => exact absurd hin (by decide)
      | clarificationFieldRegression => exact absurd hin (by decide)
  | markedDelivered _ _ hmoved => exact .inr (.inl hmoved.status)
  | authorizedNew _ _ hreopened =>
      have := hreopened.epoch
      omega
  | finishedReview hstatus hreason =>
      rcases h with h | h | h | ⟨-, h⟩ | ⟨h, -⟩
      · simp [hstatus] at h
      · simp [hstatus] at h
      · simp [hstatus] at h
      · simp [hreason] at h
      · simp [hstatus] at h

section

variable [PyText] {env : Env} {a : Authorization}

theorem tracked_step (hs : OffRun s log) (hop : s.allows op) (hfresh : Fresh db)
    (heffect : Effect env db op answer db') (h : Tracked db log a) :
    Tracked db' (notes i op db answer db' ++ log) a := by
  obtain ⟨run, hrun, hle, hconfirmed⟩ := h
  obtain ⟨run', hrun', hstep⟩ := runStep heffect hfresh.runs hrun
  have hmono := hstep.epoch_le
  refine ⟨run', hrun', hle.trans hmono, fun hepoch => ?_⟩
  have hsame : run'.replyEpoch = run.replyEpoch := by omega
  exact confirmed_step hs hop hstep hrun hsame (hconfirmed (by omega))

theorem tracked_authorized {job : Job} (hpurpose : a.purpose = .confirmation)
    (heffect : Effect env db (.authorizeOutboundProviderHandoff job) (.authorized a) db')
    (log : List Note) : Tracked db' log a := by
  obtain ⟨row, leasedUntil, m, run, hover⟩ := handedOver heffect
  obtain ⟨-, -, hrun, -, hepoch, hstatus⟩ := deliveryContext_some hover.may.owed
  refine ⟨run, by rw [authorize_runs heffect, hrun], by rw [hover.epoch, hepoch], fun _ => .inl ?_⟩
  rw [hstatus, ← hover.purpose, hpurpose]
  rfl

theorem inv_exec (hinv : Inv db log) (hs : OffRun s log) (hop : s.allows op) :
    Inv (exec env op db).2 (observe i env op db ++ log) := by
  apply exec_observed hinv
  intro answer db' htxn
  have heffect := txn_effect htxn
  refine ⟨fresh_step heffect hinv.fresh, fun a ha hpurpose => ?_, fun j a ha => ?_⟩
  · rcases List.mem_append.mp ha with ha | ha
    · cases noted (i := i) ha
      exact tracked_authorized hpurpose heffect _
    · exact tracked_step hs hop hinv.fresh heffect (hinv.authorized a ha hpurpose)
  · rcases List.mem_append.mp ha with ha | ha
    · cases noted (i := i) ha
      exact List.mem_append_right _ (hs.known a hop.1)
    · exact List.mem_append_right _ (hinv.requested j a ha)

theorem offRun_own (hs : OffRun s log) (hop : s.allows op)
    (hpermits : deliveryOnly.permits i env op db log) :
    OffRun (s.next op (exec env op db).1) (observe i env op db ++ log) := by
  have hknown : Known (s.next op (exec env op db).1) (observe i env op db ++ log) :=
    known_own hs.known
  rcases exec_cases i env op db with
    ⟨e, hexec, hobserve⟩ | ⟨answer, db', htxn, hdb, hnotes, hanswer | ⟨e, hanswer⟩⟩
  · rw [hexec] at hknown ⊢
    exact ⟨hs.lease, rfl, hknown⟩
  · rw [hanswer] at hknown ⊢
    refine ⟨fun job hlease => ?_, ?_, hknown⟩
    · rcases mem_told_lease i db db' hlease with hlease | hleased
      · exact hs.lease job hlease
      · cases noted hleased
        obtain ⟨row, hrow, -, rfl⟩ := leased_row (txn_effect htxn)
        simpa [deliveryOnly, leasesOnlySends, hrow, copyOf] using hpermits
    · cases hrun : (s.told op answer).phase.run with
      | none => exact hrun
      | some r =>
          rcases told_run hop hrun with hphase | hclaim
          · rw [hs.phase] at hphase
            cases hphase
          · obtain rfl := claimsRun_eq hclaim
            rcases hop.1 with hmem | ⟨honRun, -⟩ | ⟨honRun, -⟩
            · exact absurd hmem (by decide)
            · exact absurd honRun hs.not_onRun
            · exact absurd honRun hs.not_onRun
  · rw [hanswer] at hknown ⊢
    exact ⟨hs.lease, rfl, hknown⟩

theorem preserved : World.Preserved machine thread deliveryOnly Fresh conduct Work.fresh Inv
    (fun _ s _ log => OffRun s log) where
  init _ h := ⟨h, nofun, nofun⟩
  follows k _ := thread_follows k
  fresh _ _ _ _ := ⟨nofun, rfl, nofun⟩
  shared _ _ _ _ _ _ hinv hs hop _ := inv_exec hinv hs hop
  own _ _ _ _ _ _ _ hs hop hpermits := offRun_own hs hop hpermits
  other _ _ _ _ _ _ _ _ _ _ _ _ _ ht := ⟨ht.lease, ht.phase, ht.known.append _⟩

/-- A rejected run had no confirmation handed to the provider in its epoch,
unless the operator rejected it out of the review of that delivery. -/
theorem rejected_run_not_requested {w : World Op Ans Exn Db Note} {r : Uuid} {run : Run}
    (hreach : World.Reach machine thread deliveryOnly Fresh w)
    (hrun : w.data.runs.get? r = some run) (hstatus : run.status = .rejected)
    (hreview : Note.rejectedReview r ∉ w.log) :
    ¬ ∃ i a, Note.requested i a ∈ w.log ∧ a.runId = r ∧ a.purpose = .confirmation ∧
      a.epoch = run.replyEpoch := by
  rintro ⟨i, a, hrequest, howner, hpurpose, hepoch⟩
  obtain ⟨hinv, -⟩ := preserved.reach hreach
  obtain ⟨run', hrun', -, hconfirmed⟩ :=
    hinv.authorized a (hinv.requested i a hrequest) hpurpose
  subst howner
  obtain rfl : run' = run := by simpa [hrun, eq_comm] using hrun'
  rcases hconfirmed hepoch with h | h | h | ⟨h, -⟩ | ⟨-, h⟩
  · simp [hstatus] at h
  · simp [hstatus] at h
  · simp [hstatus] at h
  · simp [hstatus] at h
  · exact hreview h

end

section Histories

attribute [local instance] asciiText

instance : DecidablePred deliveryOnly.spawns := fun _ => inferInstanceAs (Decidable True)

instance (i : Nat) (env : Env) (op : Op) (db : Db) (log : List Note) :
    Decidable (deliveryOnly.permits i env op db log) :=
  inferInstanceAs (Decidable (leasesOnlySends env db op = true))

/-- A run that waits for its approval, and one that waits for a reply to a
question with its send still queued. -/
def waitingDb : Db :=
  { Db.empty with
    nextId := 10
    runs := .ofList [(2, { Run.created 1 3 0 with status := .awaitingApproval }),
      (8, { Run.created 1 3 0 with status := .awaitingReply })]
    outbound := .ofList [(5, reservedMessage 8 .clarification 7)]
    jobs := .ofList [(6, sendJob 8 5)] }

theorem fresh_waitingDb : Fresh waitingDb := Fresh.of_keys (by decide)

/-- The run is approved, its confirmation is handed to the provider, which
answers with an error, and the operator rejects the run in its review. -/
def rejectedInReview : List (Event Thread Env) :=
  [.spawn (.approve 2), .run 0 { envelope := letter }, .spawn .worker, .run 1 { picked := 12 },
    .run 1 {}, .run 1 {}, .run 1 { fault := .after (.resend .validationError (some 422)) }, .run 1 {},
    .spawn (.reject 2), .run 2 {}, .run 2 {}]

/-- The question is handed to the provider, and the run is rejected while it
waits for the reply. -/
def rejectedWaiting : List (Event Thread Env) :=
  [.spawn .worker, .run 0 { picked := 6 }, .run 0 {}, .run 0 {}, .run 0 {}, .spawn (.reject 8),
    .run 1 {}, .run 1 {}, .run 1 {}]

def noteRejects (r : Uuid) : Note → Bool
  | .rejectedReview r' => r' = r
  | _ => false

def requestsConfirmation (r epoch : Nat) : Note → Bool
  | .requested _ a => a.runId = r ∧ a.purpose = .confirmation ∧ a.epoch = epoch
  | _ => false

/-- The rejected run's confirmation of the same epoch was with the provider. -/
theorem rejected_after_request :
    ¬ ∀ (w : World Op Ans Exn Db Note) (r : Uuid) (run : Run),
      World.Reach machine thread deliveryOnly Fresh w → w.data.runs.get? r = some run →
      run.status = .rejected →
      ¬ ∃ i a, Note.requested i a ∈ w.log ∧ a.runId = r ∧ a.purpose = .confirmation ∧
        a.epoch = run.replyEpoch := by
  intro h
  have hreach : World.Reach machine thread deliveryOnly Fresh (worldAfter waitingDb rejectedInReview) :=
    reach_worldAfter_of_permits fresh_waitingDb (by decide +kernel)
  have hstatus : (worldAfter waitingDb rejectedInReview).data.statusOf 2 = some .rejected := by
    decide +kernel
  have hepoch : (worldAfter waitingDb rejectedInReview).data.epochOf 2 = some 0 := by decide +kernel
  have hrequest : (worldAfter waitingDb rejectedInReview).log.any (requestsConfirmation 2 0) := by
    decide +kernel
  generalize worldAfter waitingDb rejectedInReview = w at *
  obtain ⟨run, hrun, hstatus⟩ := Option.map_eq_some_iff.mp hstatus
  have hepoch : run.replyEpoch = 0 := by simpa [Db.epochOf, hrun] using hepoch
  obtain ⟨n, hn, hconfirms⟩ := List.any_eq_true.mp hrequest
  cases n with
  | requested i a =>
      simp only [requestsConfirmation, decide_eq_true_eq] at hconfirms
      exact h w 2 run hreach hrun hstatus ⟨i, a, hn, by rwa [hepoch]⟩
  | _ => cases hconfirms

/-- Only a question of the rejected run was with the provider. -/
theorem rejected_run_not_requested_waiting : ∃ run,
    (worldAfter waitingDb rejectedWaiting).data.runs.get? 8 = some run ∧ run.status = .rejected ∧
      ¬ ∃ i a, Note.requested i a ∈ (worldAfter waitingDb rejectedWaiting).log ∧ a.runId = 8 ∧
        a.purpose = .confirmation ∧ a.epoch = run.replyEpoch := by
  have hreach : World.Reach machine thread deliveryOnly Fresh (worldAfter waitingDb rejectedWaiting) :=
    reach_worldAfter_of_permits fresh_waitingDb (by decide +kernel)
  have hstatus : (worldAfter waitingDb rejectedWaiting).data.statusOf 8 = some .rejected := by
    decide +kernel
  have hreview : (worldAfter waitingDb rejectedWaiting).log.all fun n => ¬ noteRejects 8 n := by
    decide +kernel
  generalize worldAfter waitingDb rejectedWaiting = w at *
  obtain ⟨run, hrun, hstatus⟩ := Option.map_eq_some_iff.mp hstatus
  refine ⟨run, hrun, hstatus, rejected_run_not_requested hreach hrun hstatus fun hmem => ?_⟩
  simpa [noteRejects] using List.all_eq_true.mp hreview _ hmem

end Histories

end PayrollAgent.Rejection
