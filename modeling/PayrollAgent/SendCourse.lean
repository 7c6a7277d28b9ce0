import PayrollAgent.ThreadsObey

namespace PayrollAgent.SendCourse

open Lib Repo AliasLearning Orchestrator Handlers Conduct

inductive Course
  | idle
  | held (job : Job)
  | refused (job : Job)
  | granted (job : Job) (a : Authorization)
  | accepted (job : Job) (a : Authorization)
  | failed

def Claims (result : PipelineResult) : Prop := result.outcome = .ok ∧ result.reason ≠ .deliveryRecordOnly

/-- A worker may claim a delivery where the provider answered, and where it was
never given the authority. -/
def MayClaim (s : Course) (job : Job) : Prop := s = .refused job ∨ ∃ a, s = .accepted job a

def allows (s : Course) : Op → Prop
  | .authorizeOutboundProviderHandoff job => s = .held job
  | .send a => ∃ job, s = .granted job a
  | .settleOutboundDeliveryJob job result => Claims result → MayClaim s job
  | _ => True

def next (s : Course) : (op : Op) → Except Exn (Ans op) → Course
  | .claimJob, .ok (some job) => .held job
  | .authorizeOutboundProviderHandoff job, .ok (.authorized a) => .granted job a
  | .authorizeOutboundProviderHandoff job, .ok _ => .refused job
  | .authorizeOutboundProviderHandoff _, .error _ => .failed
  | .send a, .ok _ =>
      match s with
      | .granted job _ => .accepted job a
      | s => s
  | .send _, .error _ => .failed
  | _, _ => s

def course : Prog.Monitor Op Ans Exn Course := ⟨allows, next⟩

def Plain : Op → Prop
  | .authorizeOutboundProviderHandoff _ => False
  | .send _ => False
  | .settleOutboundDeliveryJob _ _ => False
  | _ => True

variable {α : Type} {s : Course} {job : Job} {r : Uuid} {op : Op}

theorem allows_plain (h : Plain op) : course.allows s op := by
  cases op with
  | authorizeOutboundProviderHandoff => exact h.elim
  | send => exact h.elim
  | settleOutboundDeliveryJob => exact h.elim
  | _ => exact trivial

theorem plain_follows {p : Act α} (h : p.Calls Plain) (s : Course) :
    Prog.Follows course (fun _ _ => True) p s :=
  (Prog.Calls.follows (R := fun _ => True) (fun _ _ _ hop => allows_plain hop)
    (fun _ _ _ _ _ => trivial) h trivial).mono fun _ _ _ => trivial

theorem plain_ignoring {op : Op} (h : Plain op) : (ignoring (Orchestrator.perform op)).Calls Plain :=
  .catching (.bind (.perform h) fun _ => trivial) fun _ => trivial

theorem plain_approveRun : (approveRun r).Calls Plain :=
  .catching (.bind (.perform trivial) fun _ => trivial) fun _ => .perform trivial

theorem plain_rejectRun : (rejectRun r).Calls Plain := by
  refine .bind (.perform trivial) fun _ => .ite trivial ?_
  refine .bind (.perform trivial) fun _ => .ite trivial ?_
  exact .bind (.perform trivial) fun _ => trivial

theorem plain_resolveRun (overrides : Dict Str Uuid) (remember : Dict Str Bool) :
    (resolveRun r overrides remember).Calls Plain := by
  refine .bind (.perform trivial) fun db => ?_
  cases db.runs.get? r with
  | none => trivial
  | some run => exact .ite (.bind (.perform trivial) fun _ => trivial) trivial

/-- A worker that leased another job was never given an authority. -/
def Unarmed (s : Work) : Prop := s.OnRun ∧ s.auths = []

theorem unarmed_allows {w : Work} (hw : Unarmed w) (h : conduct.allows w op) : Plain op := by
  obtain ⟨⟨job, hlease, hkind⟩, hauths⟩ := hw
  cases op with
  | authorizeOutboundProviderHandoff job' =>
      obtain ⟨hlease', hkind'⟩ : w.lease = some job' ∧ job'.kind = .sendOutbound := h.1
      rw [hlease] at hlease'
      cases hlease'
      exact absurd hkind' hkind
  | send a =>
      have ha : a ∈ w.auths := h.1
      rw [hauths] at ha
      cases ha
  | settleOutboundDeliveryJob job' result =>
      obtain ⟨hlease', hkind'⟩ : w.lease = some job' ∧ job'.kind = .sendOutbound := h.1
      rw [hlease] at hlease'
      cases hlease'
      exact absurd hkind' hkind
  | _ => exact trivial

theorem unarmed_next {w : Work} (hw : Unarmed w) (h : conduct.allows w op) (x : Except Exn (Ans op)) :
    Unarmed (conduct.next w op x) := by
  have hplain := unarmed_allows hw h
  obtain ⟨⟨job, hlease, hkind⟩, hauths⟩ := hw
  cases x with
  | error e => exact ⟨⟨job, hlease, hkind⟩, hauths⟩
  | ok a =>
      show Unarmed (w.told op a)
      unfold Work.told
      split
      · have hnone : w.lease = none := h.1.1
        rw [hlease] at hnone
        cases hnone
      · exact ⟨⟨job, hlease, hkind⟩, hauths⟩
      · exact ⟨⟨job, hlease, hkind⟩, hauths⟩
      · split <;> exact ⟨⟨job, hlease, hkind⟩, hauths⟩
      · exact ⟨⟨job, hlease, hkind⟩, hauths⟩
      · exact ⟨⟨job, hlease, hkind⟩, hauths⟩
      · exact ⟨⟨job, hlease, hkind⟩, hauths⟩
      · exact ⟨⟨job, hlease, hkind⟩, hauths⟩
      · exact hplain.elim
      · exact ⟨⟨job, hlease, hkind⟩, hauths⟩

theorem unarmed_follows {p : Act α} {w : Work} {Q : Work → Except Exn α → Prop}
    (hp : Prog.Follows conduct Q p w)
    (hw : Unarmed w) (s : Course) : Prog.Follows course (fun _ _ => True) p s :=
  hp.simulate (S := fun w _ => Unarmed w) (fun _ _ _ hw h => allows_plain (unarmed_allows hw h))
    (fun _ _ _ x hw h => unarmed_next hw h x) (fun _ _ _ _ _ => trivial) hw

theorem classifyDeliveryException_outcome (e : Exn) :
    (PipelineResult.classifyPipelineException .delivery e).outcome ≠ .ok := by
  unfold PipelineResult.classifyPipelineException PipelineResult.classifyDeliveryException
  have hretryable : ∀ reason, (PipelineResult.deliveryRetryable reason).outcome ≠ .ok :=
    fun _ h => by cases h
  have hterminal : ∀ reason, (PipelineResult.deliveryTerminal reason).outcome ≠ .ok :=
    fun _ h => by cases h
  cases e with
  | apiStatus code =>
      dsimp only
      split
      · exact hretryable _
      · exact hterminal _
  | resend errorType code =>
      dsimp only
      unfold PipelineResult.classifyResend
      repeat' split
      all_goals first | exact hretryable _ | exact hterminal _
  | _ => first | exact hretryable _ | exact hterminal _

def Honest (job : Job) (s : Course) (x : Except Exn PipelineResult) : Prop :=
  ∀ result, x = .ok result → Claims result → MayClaim s job

theorem sendReserved_follows (a : Authorization) :
    Prog.Follows course (Honest job) (sendReservedOutboundSnapshot a) (.granted job a) := by
  have hraise : ∀ s e, Honest job s (.error e) := fun _ _ _ h => by cases h
  have hunsaid : ∀ s result, result.outcome ≠ .ok → Honest job s (.ok result) := by
    rintro s result hresult _ ⟨⟩ hclaims
    exact absurd hclaims.1 hresult
  refine .ite (fun _ => hraise _ _) fun _ => ?_
  refine Prog.follows_perform_bind.mpr ⟨trivial, fun db => ?_, fun e => hraise _ e⟩
  refine .ite (fun _ => hunsaid _ _ (by decide)) fun _ => ?_
  refine Prog.Follows.catching (P := Honest job) ?_ (fun _ _ h => h) fun t e _ =>
    hunsaid t _ (classifyDeliveryException_outcome e)
  refine Prog.follows_perform_bind.mpr ⟨⟨job, rfl⟩, fun _ => ?_, fun e => hraise _ e⟩
  exact fun _ _ _ => .inr ⟨a, rfl⟩

theorem handleSendOutbound_follows : Prog.Follows course (Honest job) (handleSendOutbound job)
    (.held job) := by
  have hraise : ∀ s e, Honest job s (.error e) := fun _ _ _ h => by cases h
  refine .ite (fun _ => hraise _ _) fun _ => ?_
  refine Prog.follows_perform_bind.mpr ⟨rfl, fun outcome => ?_, fun e => hraise _ e⟩
  cases outcome with
  | authorized a => exact sendReserved_follows a
  | recordOnly r => exact fun _ _ _ => .inl rfl
  | active reason => exact fun _ _ _ => .inl rfl

section

variable [PyText]

theorem attempt_follows (hkind : job.kind = .sendOutbound) : Prog.Follows course
    (fun s x => ∀ result, x = .ok result → Claims (settledResult job result) → MayClaim s job)
    (attempt job) (.held job) := by
  have hsend : handle job = handleSendOutbound job := by rw [handle, hkind]
  have hhandled : Prog.Follows course
      (fun s x => ∀ result, x = .ok result → Claims (settledResult job result) → MayClaim s job)
      (handle job >>= fun result => pure (some result)) (.held job) := by
    rw [hsend]
    refine handleSendOutbound_follows.bind (fun t result h => ?_) fun t e _ _ hx => by cases hx
    rintro _ ⟨⟩ hclaims
    exact h result rfl hclaims
  refine Prog.Follows.catching hhandled (fun _ _ h => h) fun t e _ => ?_
  · rintro _ ⟨⟩ hclaims
    rw [settledResult, if_pos hkind] at hclaims
    exact absurd hclaims.1 (by decide)

theorem drainOnce_follows : Prog.Follows course (fun _ _ => True) drainOnce .idle := by
  refine Prog.follows_perform_bind.mpr ⟨trivial, fun claimed => ?_, fun _ => trivial⟩
  have hobeys := (Prog.follows_perform_bind.mp Conduct.drainOnce_follows).2.1 claimed
  cases claimed with
  | none =>
      have hreap : (Orchestrator.perform .reapExpiredFinalAttempt).Calls Plain := .perform trivial
      have hend : ∀ outcome : Option SettlementOutcome, (Pure.pure () : Act Unit).Calls Plain :=
        fun _ => trivial
      exact plain_follows (hreap.bind hend) _
  | some job =>
      by_cases hkind : job.kind = .sendOutbound
      · refine (attempt_follows hkind).bind (fun t result h => ?_) fun _ _ _ => trivial
        have hsettle : Prog.Follows course (fun _ _ => True) (settle job (settledResult job result)) t :=
          .ite (fun _ => Prog.follows_perform.mpr ⟨h result rfl, fun _ => trivial⟩) fun hother =>
            absurd hkind hother
        exact hsettle.bind (fun _ _ _ => trivial) fun _ _ _ => trivial
      · exact unarmed_follows hobeys ⟨⟨job, rfl, hkind⟩, rfl⟩ _

theorem thread_follows (t : Thread) : Prog.Follows course (fun _ _ => True) (thread t) .idle := by
  cases t with
  | worker => exact drainOnce_follows
  | shutdown tokens =>
      have hrelease : (Orchestrator.perform (.releaseLeases tokens)).Calls Plain := .perform trivial
      exact plain_follows hrelease _
  | receive mail => exact plain_follows (@plain_ignoring (.ingestEmail mail) trivial) _
  | approve r => exact plain_follows plain_approveRun _
  | reject r => exact plain_follows plain_rejectRun _
  | resolve r overrides remember => exact plain_follows (plain_resolveRun _ _) _
  | retrigger r => exact plain_follows (@plain_ignoring (.retrigger r) trivial) _
  | markDelivered r => exact plain_follows (@plain_ignoring (.markDeliveryDelivered r) trivial) _
  | authorizeNew r => exact plain_follows (@plain_ignoring (.authorizeNewConfirmation r) trivial) _
  | retryNow r kind => exact plain_follows (@plain_ignoring (.retryDeliveryNow r kind) trivial) _
  | markHandled r =>
      exact plain_follows (@plain_ignoring (.finishClarificationDeliveryReview r .awaitingReply true) trivial) _
  | rejectClarification r =>
      exact plain_follows (@plain_ignoring (.finishClarificationDeliveryReview r .rejected false)
        trivial) _
  | pass seconds =>
      have hpass : (Orchestrator.perform (.pass seconds)).Calls Plain := .perform trivial
      exact plain_follows hpass _

end

end PayrollAgent.SendCourse
