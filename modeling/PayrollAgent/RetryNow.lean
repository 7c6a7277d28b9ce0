import PayrollAgent.DeliveryReview

namespace PayrollAgent.RetryNow

open Lib Repo RunRoutes Handlers RunSteps Commits BoundedQuestions DeliveryReview

/-- `replay_same_ok` of the review categories. -/
def replaySameOk : FailureCategory → Bool
  | .transport | .provider5xx | .rateLimited | .authorizationExpired | .unknown => true
  | _ => false

/-- The review page offers the replay of the frozen message, and its
idempotency window is open. -/
def OffersReplay (db : Db) (r : Uuid) : Prop :=
  ∃ run category flipped kind e m, db.runs.get? r = some run ∧
    run.errorDetail = some (.deliveryReview category) ∧
    replaySameOk category = true ∧ loadDeliveryReview r flipped db = some (kind, e, m) ∧
    db.now < m.snapshot.notAfter

/-- The retry re-arms the send job of the message under review, and the next
claim of that job is authorized to hand it to the provider. -/
def RetryWorks (db : Db) (r : Uuid) : Prop :=
  ∃ flipped kind e m j row db₁ job db₂ a db₃,
    loadDeliveryReview r flipped db = some (kind, e, m) ∧ sendJobOf db r e = some (j, row) ∧
    retryDeliveryNow r flipped kind db = (.advanced, db₁) ∧ claimJob j db₁ = (some job, db₂) ∧
    authorizeOutboundProviderHandoff job db₂ = (.authorized a, db₃) ∧ a.emailId = e ∧
      a.snapshot = m.snapshot

variable {db db' db₁ db₂ : Db} {r e j : Uuid} {m : Outbound} {row : JobRow} {job : Job}

theorem expectedStatus_ne (purpose : Purpose) : RunStatus.needsOperator ≠ purpose.expectedStatus := by
  cases purpose with
  | confirmation => decide
  | clarification => decide
  | clarificationFieldRegression => decide

theorem not_authorized {a : Authorization} (hlocked : lockedJob db job = some row)
    (hrun : row.runId = some r) (hwaits : db.statusOf r = some .needsOperator) :
    authorizeOutboundProviderHandoff job db ≠ (.authorized a, db') := by
  obtain ⟨run, hstored, hstatus⟩ := Option.map_eq_some_iff.mp hwaits
  unfold authorizeOutboundProviderHandoff
  rw [hlocked]
  dsimp only
  split
  next r' e' leasedUntil hcontext _ =>
    obtain rfl : r' = r := by
      unfold sendContext at hcontext
      rw [hrun] at hcontext
      split at hcontext
      next r'' e'' hr'' _ =>
        split at hcontext
        · cases hr''
          cases hcontext
          rfl
        · cases hcontext
      · cases hcontext
    rw [hstored]
    split
    next m' run' _ hrun' =>
      cases hrun'
      split
      · simp
      · split
        · simp
        · rw [if_pos (.inl (hstatus ▸ expectedStatus_ne _))]
          simp
    · simp
  · simp

theorem retry_keeps {flipped : Bool} {kind : ReviewKind} {outcome : AdvanceSendJobOutcome}
    (h : retryDeliveryNow r flipped kind db = (outcome, db₁)) : db₁.runs = db.runs ∧
      ∀ j row, db.jobs.get? j = some row → ∃ row', db₁.jobs.get? j = some row' ∧
      row'.runId = row.runId := by
  cases h ▸ retryDeliveryNow_retried r flipped kind db with
  | refused => exact ⟨rfl, fun j row hrow => ⟨row, hrow, rfl⟩⟩
  | @advanced e i held hjob =>
      refine ⟨rfl, fun j row hrow => ?_⟩
      by_cases hj : j = i
      · subst hj
        exact ⟨_, Dict.get?_modify_self hrow _, rfl⟩
      · exact ⟨row, (Dict.get?_modify_of_ne _ hj _).trans hrow, rfl⟩

theorem claimJob_some (h : claimJob j db = (some job, db₂)) : db₂.runs = db.runs ∧ ∃ row,
    db.jobs.get? j = some row ∧ lockedJob db₂ job = some (leaseTo row db.nextId db.now) := by
  unfold claimJob at h
  split at h
  · cases h
  next row hrow =>
    split at h
    · cases h
      refine ⟨rfl, row, hrow, ?_⟩
      rw [lockedJob, Option.filter_eq_some_iff]
      exact ⟨Dict.get?_set_self .., by simp [leaseTo, copyOf]⟩
    · cases h

theorem sendJobOf_some (h : sendJobOf db r e = some (j, row)) : db.jobs.get? j = some row ∧
    row.runId = some r := by
  obtain ⟨hrow, hown⟩ := Dict.select_some h
  rw [decide_eq_true_eq] at hown
  exact ⟨hrow, hown.2.1⟩

theorem OffersReplay.waits (h : OffersReplay db r) : db.statusOf r = some .needsOperator := by
  obtain ⟨-, -, flipped, kind, e, m, -, -, -, hload, -⟩ := h
  obtain ⟨run, hreview⟩ := loadDeliveryReview_some hload
  rw [statusOf_some hreview.found, hreview.status]

theorem not_retryWorks (hwaits : db.statusOf r = some .needsOperator) : ¬ RetryWorks db r := by
  rintro ⟨flipped, kind, e, m, j, row, db₁, job, db₂, a, db₃, -, hjob, hretry, hclaim, hauthorized, -⟩
  obtain ⟨hrow, hown⟩ := sendJobOf_some hjob
  obtain ⟨hruns, hjobs⟩ := retry_keeps hretry
  obtain ⟨row', hrow', hsame⟩ := hjobs j row hrow
  obtain ⟨hruns', row'', hrow'', hlocked⟩ := claimJob_some hclaim
  obtain rfl := Option.some.inj (hrow'.symm.trans hrow'')
  refine not_authorized (r := r) hlocked ?_ ?_ hauthorized
  · exact hsame.trans hown
  · rw [Db.statusOf, hruns', hruns]
    exact hwaits

/-- A run under delivery review waits for an operator, and the retry leaves it
there, where the handoff of its message is refused. -/
theorem retry_never_works (h : OffersReplay db r) : ¬ RetryWorks db r := not_retryWorks h.waits

section Histories

attribute [local instance] asciiText

def replayOffered : ErrorDetail → Bool
  | .deliveryReview category => replaySameOk category
  | _ => false

def offered (db : Db) (r : Uuid) : Bool :=
  ((db.runs.get? r).bind Run.errorDetail).any replayOffered &&
    (loadDeliveryReview r false db).any fun x => db.now < x.2.2.snapshot.notAfter

theorem offersReplay_of_offered (h : offered db r = true) : OffersReplay db r := by
  rw [offered, Bool.and_eq_true, Option.any_eq_true, Option.any_eq_true] at h
  obtain ⟨⟨detail, hdetail, hcategory⟩, ⟨kind, e, m⟩, hload, hopen⟩ := h
  obtain ⟨run, hrun, hdetail⟩ := Option.bind_eq_some_iff.mp hdetail
  cases detail with
  | deliveryReview category =>
      exact ⟨run, category, false, kind, e, m, hrun, hdetail, hcategory, hload, of_decide_eq_true hopen⟩
  | _ => cases hcategory

/-- The provider's answer was lost, and the replay that the page offers is not
made: the job is done already, and the run waits for an operator. -/
theorem offered_replay_refused :
    (∀ flipped kind,
      (retryDeliveryNow 11 flipped kind (recordedAfter emptyDb reviewed).data).1 ≠ .advanced) ∧
    ¬ ∀ (w : World Op Ans Exn Db Commit) r, World.Reach recorder thread World.Rules.any Unescalated w →
      OffersReplay w.data r → RetryWorks w.data r := by
  have hreach := reach_recordedAfter unescalated_emptyDb reviewed
  have hoffered : offered (recordedAfter emptyDb reviewed).data 11 = true := by decide +kernel
  have hanswers : ∀ flipped ∈ [false, true], ∀ kind ∈ [ReviewKind.confirmation, .clarification],
      (retryDeliveryNow 11 flipped kind (recordedAfter emptyDb reviewed).data).1 ≠ .advanced := by
    decide +kernel
  generalize recordedAfter emptyDb reviewed = w at *
  have hoffers := offersReplay_of_offered hoffered
  refine ⟨fun flipped kind => hanswers flipped ?_ kind ?_, fun h => ?_⟩
  · cases flipped <;> decide
  · cases kind <;> decide
  · exact not_retryWorks hoffers.waits (h w 11 hreach hoffers)

/-- The first question of a run went to delivery review. -/
theorem retry_never_works_reviewed : ¬ RetryWorks (recordedAfter emptyDb reviewed).data 11 := by
  have hoffered : offered (recordedAfter emptyDb reviewed).data 11 = true := by decide +kernel
  generalize recordedAfter emptyDb reviewed = w at *
  exact retry_never_works (offersReplay_of_offered hoffered)

end Histories

end PayrollAgent.RetryNow
