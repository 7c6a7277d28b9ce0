import PayrollAgent.Drives
import PayrollAgent.JobSteps

namespace PayrollAgent.OwnedHandoffs

open Lib Repo RunRoutes Handlers Effects RunSteps Conduct FreshIds Drives Bookkeeping HandoffSteps
  JobSteps

/-- A handoff has an owner: its job can still settle it, or an operator can
resolve it. -/
def HasOwner (db : Db) (h : Handoff) : Prop :=
  (∃ row, db.jobs.get? h.jobId = some row ∧ row.kind = .sendOutbound ∧ Live row) ∨
    ∃ flipped kind m, loadDeliveryReview h.runId flipped db = some (kind, h.emailId, m)

def AllOwned (db : Db) : Prop :=
  ∀ i h, db.handoffs.get? i = some h → h.released = none → db.statusOf h.runId ≠ some .rejected →
    HasOwner db h

def needs (db : Db) (j : Uuid) (h : Handoff) : Bool :=
  h.jobId = j ∧ h.released = none ∧ db.statusOf h.runId ≠ some .rejected

def eachNeeded (db : Db) (j : Uuid) (p : Handoff → Bool) : Bool :=
  db.handoffs.entries.all fun e => !needs db j e.2 || p e.2

/-- The lease is the one that owns the handoff, and the run still stands where
its message was handed over. -/
def standing (db : Db) (token : Uuid) (h : Handoff) : Bool :=
  h.leaseToken = token ∧ (deliveryContext db h.runId h.emailId).any fun p => p.1.epoch = h.epoch

def keepsHandoffs (env : Env) (db : Db) : Op → Bool
  | .settleOutboundDeliveryJob job result =>
      (lockedJob db job).isNone || eachNeeded db job.id fun h =>
        standing db job.leaseToken h && result.reason ≠ .deliveryRecordOnly
  | .reapExpiredFinalAttempt =>
      (db.jobs.get? env.picked).all fun row => !reapable db.now row ||
        eachNeeded db env.picked fun h => row.leaseToken.any fun token => standing db token h
  | .releaseLeases tokens =>
      db.jobs.entries.all fun p =>
        !(p.2.state = .leased ∧ p.2.leaseToken.any (· ∈ tokens)) ||
          decide (p.2.attempts < p.2.maxAttempts) || eachNeeded db p.1 fun _ => false
  | op =>
      (drives op).all fun x => db.statusOf x.1 ≠ some .rejected || (activeHandoff db x.1).isNone

/-- The histories in which a job that owns a needed handoff is closed only by the
lease that owns it, with its run unmoved. -/
def handoffsKept : World.Rules Op Db Env Note Thread :=
  ⟨fun _ => True, fun _ env op db _ => keepsHandoffs env db op = true⟩

/-- The job of an active handoff is the send of its message, and lives as long as
the run is not rejected. -/
def Owned (db : Db) (h : Handoff) : Prop :=
  ∃ row, db.jobs.get? h.jobId = some row ∧ row.kind = .sendOutbound ∧ row.runId = some h.runId ∧
    row.emailId = some h.emailId ∧ (db.statusOf h.runId ≠ some .rejected → Live row)

structure Inv (db : Db) : Prop where
  fresh : Fresh db
  oneActive : OneActive db
  provided : Provided db
  owned : ∀ i h, db.handoffs.get? i = some h → h.released = none → Owned db h

variable {s : Work} {op : Op} {answer : Ans op} {i j : Nat} {db db' : Db} {log : List Note}
  {env : Env} {h : Handoff} {row row' : JobRow}

theorem of_eachNeeded {p : Handoff → Bool} (hall : eachNeeded db j p = true)
    (hi : db.handoffs.get? i = some h) (hneeds : needs db j h = true) : p h = true := by
  have hmem := List.all_eq_true.mp hall (i, h) ((Dict.get?_eq_some_iff _ _ _).mp hi)
  simpa [hneeds] using hmem

theorem standing_some {token : Uuid} (hi : db.handoffs.get? i = some h) (hactive : h.released = none)
    (hstanding : standing db token h = true) :
    ∃ m run x, deliveryContext db h.runId h.emailId = some (m, run) ∧
      currentProviderHandoff db h.jobId token h.runId h.emailId m.epoch = some x := by
  simp only [standing, decide_eq_true_eq] at hstanding
  obtain ⟨htoken, hany⟩ := hstanding
  obtain ⟨⟨m, run⟩, howed, hepoch⟩ := (Option.any_eq_true ..).mp hany
  have hepoch : m.epoch = h.epoch := by simpa using hepoch
  obtain ⟨x, hx⟩ := Dict.select_isSome (p := fun _ h' => h'.runId = h.runId ∧ h'.emailId = h.emailId ∧
    h'.jobId = h.jobId ∧ h'.epoch = m.epoch ∧ h'.leaseToken = token ∧ h'.released = none) hi
    (by simp [hepoch, htoken, hactive])
  exact ⟨m, run, x, howed, hx⟩

theorem settles_of_standing {job : Job} {result : PipelineResult} (hcopied : Copied s db)
    (hlease : s.lease = some job ∧ job.kind = .sendOutbound) (hlocked : lockedJob db job = some row)
    (hi : db.handoffs.get? i = some h) (hactive : h.released = none) (hjob : h.jobId = job.id)
    (hrun : row.runId = some h.runId) (hmail : row.emailId = some h.emailId)
    (hstanding : standing db job.leaseToken h = true) (hreason : result.reason ≠ .deliveryRecordOnly) :
    Settles db job result := by
  obtain ⟨m, run, x, howed, hcurrent⟩ := standing_some hi hactive hstanding
  refine ⟨row, h.runId, h.emailId, m, run,
    ⟨hlocked, hcopied.names hlease hlocked hrun hmail, howed⟩, ?_⟩
  rw [Evidence, if_neg hreason, ← hjob]
  exact .inr ⟨x, hcurrent⟩

theorem reaps_of_standing {token : Uuid} (hi : db.handoffs.get? i = some h) (hactive : h.released = none)
    (hrun : row.runId = some h.runId) (hmail : row.emailId = some h.emailId)
    (htoken : row.leaseToken = some token) (hstanding : standing db token h = true) :
    ∃ r e m run k handoff, Reaps db h.jobId row r e m run k handoff := by
  obtain ⟨m, run, ⟨k, handoff⟩, howed, hcurrent⟩ := standing_some hi hactive hstanding
  exact ⟨h.runId, h.emailId, m, run, k, handoff, hrun, hmail, howed, token, htoken, hcurrent⟩

theorem needs_iff : needs db j h = true ↔
    h.jobId = j ∧ h.released = none ∧ db.statusOf h.runId ≠ some .rejected := by
  simp [needs]

theorem live_step (hone : OneActive db) (hprov : Provided db) (hop : s.allows op) (hcopied : Copied s db)
    (hkeeps : keepsHandoffs env db op = true) (hi : db.handoffs.get? i = some h)
    (hneeded : needs db h.jobId h = true) (hrow : db.jobs.get? h.jobId = some row)
    (hkind : row.kind = .sendOutbound) (hrun : row.runId = some h.runId)
    (hmail : row.emailId = some h.emailId) (hlive : Live row)
    (hstill : activeHandoff db' h.runId ≠ none) (hstep : JobStep env db db' h.jobId row op answer row') :
    Live row' := by
  obtain ⟨-, hactive, -⟩ := needs_iff.mp hneeded
  cases hstep with
  | kept => exact hlive
  | leased => exact .inl rfl
  | reapedInvalid hpicked hreap _ hinvalid =>
      simp only [keepsHandoffs, hpicked, hrow, Option.all_some, hreap, Bool.not_true,
        Bool.false_or] at hkeeps
      obtain ⟨token, htoken, hstanding⟩ := (Option.any_eq_true ..).mp (of_eachNeeded hkeeps hi hneeded)
      obtain ⟨r, e, m, run, k, handoff, hreaps⟩ :=
        reaps_of_standing hi hactive hrun hmail htoken hstanding
      exact absurd hreaps (hinvalid r e m run k handoff)
  | reapedReview howned hnone =>
      have hrun' := howned.runId
      rw [hrun] at hrun'
      cases hrun'
      exact absurd (hnone hone) hstill
  | reapedOther hother => exact absurd hkind hother
  | retired hid hlocked hinvalid =>
      simp only [keepsHandoffs, hlocked, Option.isNone_some, Bool.false_or, hid] at hkeeps
      have hstanding := of_eachNeeded hkeeps hi hneeded
      simp only [Bool.and_eq_true, decide_eq_true_eq] at hstanding
      exact absurd (settles_of_standing hcopied hop.1 hlocked hi hactive hid.symm hrun hmail hstanding.1
        hstanding.2) hinvalid
  | settled hid hctx hnone =>
      obtain ⟨hrun', -, -⟩ := sendContext_some hctx.names
      rw [hrun] at hrun'
      cases hrun'
      exact absurd (hnone hone hprov) hstill
  | closed hid hlocked hkind' =>
      exact absurd (hkind'.symm.trans hkind) hop.1.2
  | released hleased htoken =>
      have hmem := List.all_eq_true.mp hkeeps (h.jobId, row) ((Dict.get?_eq_some_iff _ _ _).mp hrow)
      simp only [hleased, htoken, and_self, decide_true, Bool.not_true, Bool.false_or, Bool.or_eq_true,
        decide_eq_true_eq] at hmem
      rcases hmem with hattempts | hnever
      · exact .inr ⟨rfl, hattempts⟩
      · cases of_eachNeeded hnever hi hneeded
  | advanced hstate =>
      rcases hlive with hleased | ⟨-, hattempts⟩
      · rw [hstate] at hleased
        cases hleased
      · exact .inr ⟨hstate, hattempts⟩

theorem active_ne_none (hi : db.handoffs.get? i = some h) (hactive : h.released = none) :
    activeHandoff db h.runId ≠ none :=
  fun hnone => activeHandoff_none.mp hnone i h hi rfl hactive

theorem unmoved_of_drives {r : Uuid} {t : RunStatus} (hkeeps : keepsHandoffs env db op = true)
    (hdrives : drives op = some (r, t)) :
    db.statusOf r ≠ some .rejected ∨ activeHandoff db r = none := by
  unfold keepsHandoffs at hkeeps
  split at hkeeps
  · cases hdrives
  · cases hdrives
  · cases hdrives
  · simpa [hdrives] using hkeeps

theorem rejected_step {r : Uuid} {run run' : Run} (hstep : RunStep db r run op answer run')
    (hrun : db.runs.get? r = some run) (hop : s.allows op) (hkeeps : keepsHandoffs env db op = true)
    (hactive : activeHandoff db r ≠ none) (h : run.status = .rejected) : run'.status = .rejected := by
  refine (closed_step hstep hop (fun t hdrives => ?_) (by rw [h]; decide)).trans h
  rcases unmoved_of_drives hkeeps hdrives with hstatus | hnone
  · simp [Db.statusOf, hrun, h] at hstatus
  · exact absurd hnone hactive

section

variable [PyText]

theorem owned_step (hinv : Inv db) (heffect : Effect env db op answer db') (hop : s.allows op)
    (hcopied : Copied s db) (hkeeps : keepsHandoffs env db op = true)
    (hi : db'.handoffs.get? i = some h) (hactive : h.released = none) : Owned db' h := by
  rcases (handoffStep heffect hi).active hactive with
    ⟨h₀, hi₀, hrun, hmail, hjob, hactive₀⟩ | ⟨job, jobRow, leasedUntil, m, run, htaken⟩
  · obtain ⟨row, hrow, hkind, hrowRun, hrowMail, hlive⟩ := hinv.owned i h₀ hi₀ hactive₀
    obtain ⟨row', hrow', hstep⟩ := jobStep heffect hinv.fresh hrow
    refine ⟨row', by rwa [← hjob], by rw [hstep.same.kind, hkind],
      by rw [hstep.same.runId, hrowRun, hrun], by rw [hstep.same.emailId, hrowMail, hmail],
      fun hstatus' => ?_⟩
    have hstatus : db.statusOf h₀.runId ≠ some .rejected := by
      intro hrejected
      obtain ⟨run, hstored, hrejected⟩ := Option.map_eq_some_iff.mp hrejected
      obtain ⟨run', hstored', hrunStep⟩ := runStep heffect hinv.fresh.runs hstored
      have hstays := rejected_step hrunStep hstored hop hkeeps (active_ne_none hi₀ hactive₀) hrejected
      exact hstatus' (by rw [← hrun, Db.statusOf, hstored', Option.map_some, hstays])
    have hstill : activeHandoff db' h₀.runId ≠ none := by
      rw [hrun]
      exact active_ne_none hi hactive
    exact live_step hinv.oneActive hinv.provided hop hcopied hkeeps hi₀
      (needs_iff.mpr ⟨rfl, hactive₀, hstatus⟩) hrow hkind hrowRun hrowMail (hlive hstatus) hstill hstep
  · obtain ⟨hlocked, hleased, -⟩ := lockedJob_some htaken.may.locked
    obtain ⟨hrowRun, hrowMail, hkind⟩ := sendContext_some htaken.may.names
    obtain ⟨row', hrow', hstep⟩ := jobStep heffect hinv.fresh hlocked
    have hjob := htaken.jobId
    cases htaken.op
    cases hstep
    exact ⟨jobRow, by rwa [hjob], hkind, hrowRun, hrowMail, fun _ => .inl hleased⟩

theorem inv_exec (hinv : Inv db) (hop : s.allows op) (hcopied : Copied s db)
    (hkeeps : keepsHandoffs env db op = true) : Inv (exec env op db).2 := by
  apply exec_preserves hinv
  intro answer db' htxn
  have heffect := txn_effect htxn
  exact ⟨fresh_step heffect hinv.fresh, oneActive_step heffect hinv.oneActive,
    provided_step hinv.fresh heffect hinv.provided,
    fun i h hi hactive => owned_step hinv heffect hop hcopied hkeeps hi hactive⟩

theorem preserved : World.Preserved machine thread handoffsKept Inv conduct Work.fresh
    (fun db _ => Inv db) (fun _ s db _ => Copied s db) where
  init _ h := h
  follows k _ := thread_follows k
  fresh _ _ _ _ := nofun
  shared _ _ _ _ _ _ hinv hcopied hop hkeeps := inv_exec hinv hop hcopied hkeeps
  own _ _ _ _ _ _ hinv hcopied _ _ := copied_own hinv.fresh hcopied
  other _ _ _ _ _ _ hinv _ _ _ _ _ _ ht := copied_other hinv.fresh ht

/-- Every active handoff of a run that is not rejected has an owner, where no
owner gives its job up for another reason than its own settlement. -/
theorem all_owned {w : World Op Ans Exn Db Note}
    (hreach : World.Reach machine thread handoffsKept Inv w) : AllOwned w.data := by
  obtain ⟨hinv, -⟩ := preserved.reach hreach
  intro i h hi hactive hstatus
  obtain ⟨row, hrow, hkind, -, -, hlive⟩ := hinv.owned i h hi hactive
  exact .inl ⟨row, hrow, hkind, hlive hstatus⟩

end

section Histories

attribute [local instance] asciiText

instance : DecidablePred handoffsKept.spawns := fun _ => inferInstanceAs (Decidable True)

instance (i : Nat) (env : Env) (op : Op) (db : Db) (log : List Note) :
    Decidable (handoffsKept.permits i env op db log) :=
  inferInstanceAs (Decidable (keepsHandoffs env db op = true))

/-- A run that waits for a reply to a question with its send still queued. -/
def askedDb : Db :=
  { Db.empty with
    nextId := 10
    runs := .ofList [(8, { Run.created 1 3 0 with status := .awaitingReply })]
    outbound := .ofList [(5, reservedMessage 8 .clarification 7)]
    jobs := .ofList [(6, sendJob 8 5)]
    senders := .ofList [(9, 1)] }

theorem inv_askedDb : Inv askedDb := by
  have hhandoffs : ∀ i, askedDb.handoffs.get? i = none := fun _ => rfl
  refine ⟨Fresh.of_keys (by decide), fun i j row row' hrow => ?_, fun j row hrow => ?_,
    fun i h hrow => ?_⟩
  · simp [hhandoffs] at hrow
  · simp [hhandoffs] at hrow
  · simp [hhandoffs] at hrow

def authorizedQuestion : List (Event Thread Env) :=
  [.spawn .worker] ++ List.replicate 2 (.run 0 { picked := 6 })

/-- The client answers while the question is with the provider: the resume
claims the run, and the settlement of the send finds it moved on. -/
def answeredEarly : List (Event Thread Env) :=
  authorizedQuestion ++ [.spawn (.receive ⟨20, some 7, [], 9, []⟩), .run 1 { picked := 8 },
    .spawn .worker] ++ List.replicate 4 (.run 2 { picked := 13 }) ++ List.replicate 3 (.run 0 {})

/-- The handoff stays active with its job done and its run back in RECEIVED. -/
theorem handoff_orphaned_by_reply :
    ¬ ∀ w : World Op Ans Exn Db Note,
      World.Reach machine thread World.Rules.any Inv w → AllOwned w.data := by
  intro hall
  have howned := hall _ (reach_worldAfter inv_askedDb answeredEarly)
  have hhandoff : ((worldAfter askedDb answeredEarly).data.handoffs.get? 11).any
      fun h => h.released = none ∧ h.runId = 8 ∧ h.jobId = 6 := by
    decide +kernel
  have hstatus : (worldAfter askedDb answeredEarly).data.statusOf 8 = some .received := by
    decide +kernel
  have hjob : ((worldAfter askedDb answeredEarly).data.jobs.get? 6).all fun row => row.state = .done := by
    decide +kernel
  generalize worldAfter askedDb answeredEarly = w at *
  obtain ⟨h, hh, hactive⟩ := (Option.any_eq_true ..).mp hhandoff
  simp only [decide_eq_true_eq] at hactive
  obtain ⟨hactive, hrun, hjobId⟩ := hactive
  rcases howned 11 h hh hactive (by rw [hrun, hstatus]; decide) with
    ⟨row, hrow, -, hlive⟩ | ⟨flipped, kind, m, hreview⟩
  · rw [hjobId] at hrow
    have hdone : row.state = .done := by simpa [hrow] using hjob
    simp [Live, hdone] at hlive
  · obtain ⟨run, hunder⟩ := loadDeliveryReview_some hreview
    rw [hrun] at hunder
    have hreceived : run.status = .received := by simpa [Db.statusOf, hunder.found] using hstatus
    rw [hunder.status] at hreceived
    cases hreceived

/-- The handoff that was just authorized is owned by its leased send. -/
theorem all_owned_authorized : ∃ h,
    (worldAfter askedDb authorizedQuestion).data.handoffs.get? 11 = some h ∧ h.released = none ∧
      HasOwner (worldAfter askedDb authorizedQuestion).data h := by
  have hreach : World.Reach machine thread handoffsKept Inv (worldAfter askedDb authorizedQuestion) :=
    reach_worldAfter_of_permits inv_askedDb (by decide +kernel)
  have hhandoff : ((worldAfter askedDb authorizedQuestion).data.handoffs.get? 11).any
      fun h => h.released = none ∧ h.runId = 8 := by
    decide +kernel
  have hstatus : (worldAfter askedDb authorizedQuestion).data.statusOf 8 = some .awaitingReply := by
    decide +kernel
  generalize worldAfter askedDb authorizedQuestion = w at *
  obtain ⟨h, hh, hactive⟩ := (Option.any_eq_true ..).mp hhandoff
  simp only [decide_eq_true_eq] at hactive
  exact ⟨h, hh, hactive.1, all_owned hreach 11 h hh hactive.1 (by rw [hactive.2, hstatus]; decide)⟩

end Histories

end PayrollAgent.OwnedHandoffs
