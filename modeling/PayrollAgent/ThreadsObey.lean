import PayrollAgent.Conduct

namespace PayrollAgent.Conduct

open Lib Repo AliasLearning Calculate Orchestrator Handlers ClarificationWrites RunStages Resume
  CombinedEmail

variable {s : Work} {r : Uuid} {job : Job}

theorem extract_obeys (hs : s.OnRun) (email : ReadEmail) :
    Obeys (extract r email) s fun t _ => t = s := by
  refine .bind (Obeys.staged (.quiet hs trivial fun _ => rfl)) fun t x _ ht => ?_
  exact .pure ht

theorem loadRun_obeys (hs : s.OnRun) (stage : PipelineStage) :
    Obeys (loadRun r stage) s fun t _ => t = s := by
  refine .bind (Obeys.staged (.query hs)) fun t db _ ht => ?_
  split
  · exact .pure ht
  · exact .raise _

theorem loadRoster_obeys (hs : s.OnRun) (businessId : Uuid) :
    Obeys (loadRoster businessId) s fun t _ => t = s := by
  refine .bind (Obeys.staged (.query hs)) fun t db _ ht => ?_
  split
  · exact .pure ht
  · exact .raise _

theorem classifying_obeys {p : Act PipelineResult} (hp : Obeys p s fun _ _ => True) :
    Obeys (classifying p) s fun _ _ => True :=
  hp.catching fun _ _ _ => .pure trivial

theorem consumeReply_obeys (hs : s.OnRun) (inbound : Option InboundMail) :
    Obeys (consumeReply r inbound) s fun t _ => t = s := by
  cases inbound with
  | none => exact .pure rfl
  | some mail =>
      refine .bind (Obeys.staged (.query hs)) fun t db _ ht => ?_
      subst ht
      exact .staged (.quiet hs trivial fun _ => rfl)

theorem claim_obeys (hs : s.OnRun) (hidle : s.phase = .idle) :
    Obeys (Orchestrator.perform (.claimStatus r .received .extracting)) s
      fun t (won : Bool) => won = true → t.phase = .driving r := by
  refine .perform (hs.allows (.inr (.inr ⟨hs, hidle, rfl, rfl⟩))) (fun a => ?_) fun a ha => ?_
  · cases (a : Bool) <;> rfl
  · subst ha
    rfl

theorem extractions_obeys (hs : s.OnRun) (ctx : ResumeContext) (emails : ResumeEmails) :
    Obeys (extractions r ctx emails) s fun t _ => t = s := by
  unfold extractions
  split
  · refine .bind (extract_obeys hs _) fun t reply _ ht => ?_
    subst ht
    refine .bind (extract_obeys hs _) fun t combined _ ht => ?_
    exact .pure ht
  · refine .bind (extract_obeys hs _) fun t combined _ ht => ?_
    exact .pure ht

theorem resumeContext_obeys (hs : s.OnRun) (inbound : Option InboundMail) :
    Obeys (resumeContext r inbound) s fun t _ => t = s := by
  refine .bind (loadRun_obeys hs _) fun t run _ ht => ?_
  subst ht
  refine .bind (loadRoster_obeys hs _) fun t roster _ ht => ?_
  subst ht
  refine .bind (loadRun_obeys hs _) fun t pre _ ht => ?_
  subst ht
  refine .bind (loadRun_obeys hs _) fun t snapshot _ ht => ?_
  subst ht
  refine .bind (loadRun_obeys hs _) fun t clarified _ ht => ?_
  subst ht
  refine .bind (Obeys.staged (.query hs)) fun t db _ ht => ?_
  subst ht
  refine .bind (Obeys.staged (.quiet hs trivial fun _ => rfl)) fun t consumed _ ht => ?_
  exact .pure ht

theorem sendReservedOutboundSnapshot_obeys {a : Authorization}
    (ha : a ∈ s.auths) : Obeys (sendReservedOutboundSnapshot a) s fun _ _ => True := by
  refine .ite (fun _ => .raise _) fun _ => ?_
  refine .bind (P := fun t _ => t = s)
    (.perform (allows_sendCall trivial rfl) (fun _ => rfl) fun _ => rfl) fun t db _ ht => ?_
  subst ht
  refine .ite (fun _ => .pure trivial) fun _ => .catching ?_ fun _ _ _ => .pure trivial
  refine .bind (P := fun _ _ => True)
    (.perform (allows_sendCall ha rfl) (fun _ => rfl) fun _ => trivial) fun _ _ _ _ => ?_
  exact .pure trivial

theorem handleSendOutbound_obeys (hs : s.OnSend job) :
    Obeys (handleSendOutbound job) s fun _ _ => True := by
  refine .ite (fun _ => .raise _) fun _ => ?_
  refine .bind (P := fun t (outcome : ProviderHandoffOutcome) =>
      ∀ a, outcome = .authorized a → a ∈ t.auths)
    (.perform (allows_sendCall hs rfl) (fun outcome => ?_) fun outcome a ha => ?_)
      fun t outcome hlease hauth => ?_
  · cases (outcome : ProviderHandoffOutcome) <;> rfl
  · subst ha
    exact List.mem_cons_self
  · cases outcome with
    | authorized a => exact sendReservedOutboundSnapshot_obeys (hauth a rfl)
    | recordOnly r => exact .pure trivial
    | active reason => exact .pure trivial

theorem reenter_obeys (hs : s.OnRun) {paused : RunStatus} (hpaused : (paused, .received) ∈ reentries)
    (status : RunStatus) : Obeys (reenter job r paused status) s fun t _ => t = s := by
  have hclaim : Obeys (Orchestrator.perform (.claimStatus r paused .received)) s fun t _ => t = s :=
    .quiet hs (.inr (.inl ⟨hs, hpaused⟩)) fun _ => by simp only [Work.told]
  refine .ite (fun _ => hclaim) fun _ => .ite (fun _ => .pure rfl) fun _ => .ite (fun _ => ?_)
    fun _ => .pure rfl
  exact .quiet hs hs fun _ => rfl

theorem prepare_obeys (hs : s.OnRun) (g : Uuid) :
    Obeys (prepare r g) s fun t x => x ≠ none → t = s := by
  refine .catching (.bind (.quiet hs trivial fun _ => rfl) fun t _ _ ht => ?_) fun t e _ => ?_
  · exact .pure fun _ => ht
  · exact .ite (fun _ => .pure fun h => absurd rfl h) fun _ => .raise _

theorem handleIngest_obeys (hs : s.OnRun) : Obeys (handleIngest job) s fun _ _ => True := by
  unfold handleIngest
  split
  · exact .raise _
  · refine .bind (.quiet hs trivial fun _ => rfl) fun t mail _ ht => ?_
    subst ht
    refine .bind (.quiet hs trivial fun _ => rfl) fun t _ _ _ => ?_
    exact .pure trivial

theorem settle_obeys (hlease : s.lease = some job) (result : PipelineResult) :
    Obeys (settle job result) s fun _ _ => True := by
  refine .ite (fun hkind => ?_) fun hkind => ?_
  · have hs : s.OnSend job := ⟨hlease, hkind⟩
    exact .perform (allows_sendCall hs rfl) (fun _ => rfl) fun _ => trivial
  · have hs : s.OnRun := ⟨job, hlease, hkind⟩
    exact .perform (hs.allows ⟨hlease, hkind⟩) (fun _ => rfl) fun _ => trivial

theorem call_obeys {op : Op} (hrule : Work.fresh.rule op)
    (htold : ∀ a, Work.fresh.told op a = Work.fresh) :
    Obeys (Orchestrator.perform op) Work.fresh fun t _ => t = Work.fresh :=
  .perform (allows_fresh hrule) (fun a => by rw [htold]) htold

theorem approveRun_obeys : Obeys (approveRun r) Work.fresh fun _ _ => True := by
  refine .catching ?_ fun t e hlease => ?_
  · refine .bind (call_obeys trivial fun _ => rfl) fun _ _ _ _ => ?_
    exact .pure trivial
  · exact .perform ⟨trivial, fun _ h => by rw [hlease] at h; cases h⟩ (fun _ => rfl) fun _ => trivial

theorem rejectRun_obeys : Obeys (rejectRun r) Work.fresh fun _ _ => True := by
  have hclaim : ∀ expected : RunStatus, (expected, .rejected) ∈ rejections →
      Obeys (Orchestrator.perform (.claimStatus r expected .rejected)) Work.fresh
        fun t _ => t = Work.fresh :=
    fun expected h => call_obeys (.inl h) fun _ => by simp only [Work.told]
  refine .bind (hclaim _ (by decide)) fun t first _ ht => ?_
  subst ht
  refine .ite (fun _ => .pure trivial) fun _ => ?_
  refine .bind (hclaim _ (by decide)) fun t second _ ht => ?_
  subst ht
  refine .ite (fun _ => .pure trivial) fun _ => ?_
  exact .bind (hclaim _ (by decide)) fun _ _ _ _ => .pure trivial

theorem resolveRun_obeys (overrides : Dict Str Uuid) (remember : Dict Str Bool) :
    Obeys (resolveRun r overrides remember) Work.fresh fun _ _ => True := by
  refine .bind (call_obeys trivial fun _ => rfl) fun t db _ ht => ?_
  subst ht
  split
  · exact .pure trivial
  · refine .ite (fun _ => ?_) fun _ => .pure trivial
    refine .bind (call_obeys trivial fun _ => rfl) fun _ _ _ _ => ?_
    exact .pure trivial

section

variable [PyText]

theorem ask_obeys (hs : s.OnRun) (hpause : s.MayPause r) (decision : Decision) (roster : Roster)
    (extracted : Extracted) {purpose : Purpose} (hpurpose : purpose ≠ .confirmation) (round : Nat) :
    Obeys (ask r decision roster extracted purpose round) s fun _ _ => True := by
  refine .bind (.quiet hs trivial fun _ => rfl) fun t suggestions _ ht => ?_
  subst ht
  refine .bind (.quiet hs trivial fun _ => rfl) fun t envelope _ ht => ?_
  subst ht
  exact .perform (hs.allows ⟨hpause, hpurpose⟩) (fun _ => rfl) fun _ => trivial

theorem askOnce_obeys (hs : s.OnRun) (hpause : s.MayPause r) (decision : Decision) (roster : Roster)
    (extracted : Extracted) {purpose : Purpose} (hpurpose : purpose ≠ .confirmation) (round : Nat) :
    Obeys (askOnce r decision roster extracted purpose round) s fun _ _ => True := by
  refine .bind (.query hs) fun t db _ ht => ?_
  subst ht
  split
  · exact .perform (hs.allows hpause) (fun _ => rfl) fun _ => trivial
  · refine .bind (.query hs) fun t db _ ht => ?_
    subst ht
    split
    · exact .perform (hs.allows hpause) (fun _ => rfl) fun _ => trivial
    · exact ask_obeys hs hpause _ _ _ hpurpose _

theorem clarify_obeys (hs : s.OnRun) (hpause : s.MayPause r) (decision : Decision) (roster : Roster)
    (extracted : Extracted) {purpose : Purpose} (hpurpose : purpose ≠ .confirmation) :
    Obeys (clarify r decision roster extracted purpose) s fun _ _ => True := by
  refine .bind (.query hs) fun t db _ ht => ?_
  subst ht
  exact .ite (fun _ => .perform (hs.allows hpause) (fun _ => rfl) fun _ => trivial)
    fun _ => askOnce_obeys hs hpause _ _ _ hpurpose _

theorem deferFieldRegressionClarification_obeys (hs : s.OnRun) (hphase : s.phase = .staged r)
    (clarified : ClarifiedFields) (issues : List ValidationIssue) (roster : Roster) :
    Obeys (deferFieldRegressionClarification r clarified issues roster) s fun _ _ => True := by
  refine .bind (.query hs) fun t db _ ht => ?_
  subst ht
  refine .bind (P := fun u _ => u.phase = .asked r)
    (.perform (hs.allows (.inr hphase)) (fun _ => rfl) fun _ => by
      simp [Work.told, hphase, Phase.afterFields]) fun u _ hlease hasked => ?_
  have hu := hs.of_lease hlease
  refine .bind (.query hu) fun v db _ hv => ?_
  subst hv
  split
  · exact clarify_obeys hu (.inr hasked) _ _ _ (by decide)
  · exact .pure trivial

/-- A deferred question is asked by the caller, so the run is left staged. -/
theorem persistAndBranch_obeys (hs : s.OnRun) (hpersist : s.MayPersist r) (roster : Roster)
    (result : Except CalculationError StageResult) :
    Obeys (persistAndBranch r roster result) s
      fun t st => st.clarifyDeferred = true → t.phase = .staged r := by
  unfold persistAndBranch
  split
  · exact .raise _
  next st =>
    have hwrite : Obeys (Orchestrator.perform (.persistStages r st)) s fun t _ =>
        st.decision.finalAction ≠ .process → t.phase = .staged r :=
      .perform (hs.allows hpersist)
        (fun _ => by simp only [Work.told]; split <;> rfl)
        (fun _ h => by simp [Work.told, h])
    refine .bind hwrite.staged fun t _ hlease hstaged => ?_
    split
    · refine .pure fun hdeferred => hstaged ?_
      simp only [StageResult.clarifyDeferred, Bool.and_eq_true, decide_eq_true_eq] at hdeferred
      simp [hdeferred.1]
    next hbranch =>
      rw [not_or] at hbranch
      have ht := hs.of_lease hlease
      refine .bind (P := fun _ _ => True)
        (Obeys.staged (clarify_obeys ht (.inl (hstaged hbranch.1)) _ _ _ (by decide))) fun u _ _ _ => ?_
      exact .pure fun hdeferred => absurd hdeferred hbranch.2

theorem runPipeline_obeys (hs : s.OnRun) (hphase : s.phase = .driving r) :
    Obeys (runPipeline r) s fun _ _ => True := by
  refine classifying_obeys ?_
  refine .bind (loadRun_obeys hs _) fun t run _ ht => ?_
  subst ht
  refine .bind (Obeys.staged (.query hs)) fun t db _ ht => ?_
  subst ht
  split
  · exact .raise _
  · refine .bind (loadRoster_obeys hs _) fun t roster _ ht => ?_
    subst ht
    refine .bind (Obeys.staged (.quiet hs ⟨hphase, rfl⟩ fun _ => rfl)) fun t _ _ ht => ?_
    subst ht
    refine .bind (extract_obeys hs _) fun t x _ ht => ?_
    subst ht
    exact .bind (persistAndBranch_obeys hs (.inl hphase) ..) fun _ _ _ _ => .pure trivial

theorem bindAliases_obeys (hs : s.OnRun) (roster : Roster) (candidates : AliasCandidates) :
    Obeys (bindAliases r roster candidates) s fun _ _ => True := by
  unfold bindAliases
  split
  · exact .pure trivial
  · refine .bind (Obeys.staged (.query hs)) fun t db _ ht => ?_
    subst ht
    exact .ite (fun _ => .pure trivial)
      fun _ => .mono (.staged (.quiet hs trivial fun _ => rfl)) fun _ _ _ _ => trivial

theorem storeAnswers_obeys (hs : s.OnRun) (hphase : s.phase = .driving r) (ctx : ResumeContext)
    (x : Extractions) : Obeys (storeAnswers r ctx x) s fun t _ => t.MayPersist r := by
  unfold storeAnswers
  split
  · exact .staged (.perform (hs.allows (.inl hphase)) (fun _ => rfl) fun _ => .inr (by
      simp [Work.told, hphase, Phase.afterFields]))
  · exact .pure (.inl hphase)

theorem resumeFrom_obeys (hs : s.OnRun) (hphase : s.phase = .driving r) (ctx : ResumeContext)
    (emails : ResumeEmails) (overrides : Option ReconcileNames.Overrides) :
    Obeys (resumeFrom r ctx emails overrides) s fun _ _ => True := by
  refine .bind (extractions_obeys hs ctx emails) fun t x _ ht => ?_
  subst ht
  refine .bind (storeAnswers_obeys hs hphase ctx x) fun t _ hlease hpersist => ?_
  have ht := hs.of_lease hlease
  refine .bind (persistAndBranch_obeys ht hpersist ..) fun u st hlease hdeferred => ?_
  have hu := ht.of_lease hlease
  split
  next h =>
    refine .bind (P := fun _ _ => True) (Obeys.staged
      (deferFieldRegressionClarification_obeys hu (hdeferred h) ..)) fun _ _ _ _ => ?_
    exact .pure trivial
  · exact .bind (bindAliases_obeys hu ..) fun _ _ _ _ => .pure trivial

theorem resumePipeline_obeys (hs : s.OnRun) (hidle : s.phase = .idle) (inbound : Option InboundMail)
    (overrides : Option ReconcileNames.Overrides) :
    Obeys (resumePipeline r inbound .received overrides) s fun _ _ => True := by
  refine classifying_obeys ?_
  refine .bind (Obeys.staged (claim_obeys hs hidle)) fun t won hlease hwon => ?_
  have ht := hs.of_lease hlease
  split
  next h =>
    refine .bind (consumeReply_obeys ht _) fun u _ _ hu => ?_
    subst hu
    refine .bind (resumeContext_obeys ht _) fun u reads _ hu => ?_
    subst hu
    exact resumeFrom_obeys ht (hwon h) ..
  · exact .pure trivial

theorem claimAndRun_obeys (hs : s.OnRun) (hidle : s.phase = .idle) :
    Obeys (claimAndRun r) s fun _ _ => True := by
  refine .bind (claim_obeys hs hidle) fun t won hlease hwon => ?_
  exact .ite (fun h => runPipeline_obeys (hs.of_lease hlease) (hwon h)) fun _ => .pure trivial

theorem handleRunPipeline_obeys (hs : s.OnRun) (hidle : s.phase = .idle) :
    Obeys (handleRunPipeline job) s fun _ _ => True := by
  unfold handleRunPipeline
  split
  · exact .raise _
  · refine .ite (fun _ => ?_) fun _ => claimAndRun_obeys hs hidle
    refine .bind (.quiet hs hs fun _ => rfl) fun t _ _ ht => ?_
    subst ht
    exact claimAndRun_obeys hs hidle

theorem handleResumeReply_obeys (hs : s.OnRun) (hidle : s.phase = .idle) :
    Obeys (handleResumeReply job) s fun _ _ => True := by
  unfold handleResumeReply
  split
  · refine .bind (.query hs) fun t db _ ht => ?_
    subst ht
    split
    · exact .pure trivial
    · refine .bind (.query hs) fun t db _ ht => ?_
      subst ht
      split
      · exact .pure trivial
      · refine .ite (fun _ => ?_) fun _ => .pure trivial
        refine .bind (reenter_obeys hs (by decide) _) fun t entered _ ht => ?_
        subst ht
        exact .ite (fun _ => resumePipeline_obeys hs hidle ..) fun _ => .pure trivial
  · exact .raise _

theorem resumeWith_obeys (hs : s.OnRun) (hidle : s.phase = .idle) (g : Uuid) :
    Obeys (resumeWith job r g) s fun _ _ => True := by
  refine .bind (.query hs) fun t db _ ht => ?_
  subst ht
  split
  · exact .pure trivial
  · refine .bind (.query hs) fun t db _ ht => ?_
    subst ht
    split
    · exact .pure trivial
    · refine .bind (reenter_obeys hs (by decide) _) fun t entered _ ht => ?_
      subst ht
      exact .ite (fun _ => resumePipeline_obeys hs hidle ..) fun _ => .pure trivial

theorem handleOperatorResume_obeys (hs : s.OnRun) (hidle : s.phase = .idle) :
    Obeys (handleOperatorResume job) s fun _ _ => True := by
  unfold handleOperatorResume
  split
  · refine .bind (prepare_obeys hs _) fun t authoritative _ ht => ?_
    split
    · exact .pure trivial
    · exact .pure trivial
    · obtain rfl := ht (by simp)
      exact resumeWith_obeys hs hidle _
  · exact .raise _

theorem handle_obeys (hs : s.Holds job) : Obeys (handle job) s fun _ _ => True := by
  unfold handle
  split
  next hkind => exact handleRunPipeline_obeys (hs.onRun (by simp [hkind])) hs.idle
  next hkind => exact handleResumeReply_obeys (hs.onRun (by simp [hkind])) hs.idle
  next hkind => exact handleOperatorResume_obeys (hs.onRun (by simp [hkind])) hs.idle
  next hkind => exact handleIngest_obeys (hs.onRun (by simp [hkind]))
  next hkind => exact handleSendOutbound_obeys ⟨hs.lease, hkind⟩

theorem attempt_obeys (hs : s.Holds job) : Obeys (attempt job) s fun _ _ => True :=
  .catching (.bind (handle_obeys hs) fun _ _ _ _ => .pure trivial) fun _ _ _ => .pure trivial

theorem drainOnce_follows : Prog.Follows conduct (fun _ _ => True) drainOnce Work.fresh := by
  refine Prog.follows_perform_bind.mpr ⟨allows_fresh ⟨rfl, rfl⟩, fun claimed => ?_, fun _ => trivial⟩
  cases claimed with
  | none =>
      refine Obeys.follows (Q := fun _ _ => True) (.bind (P := fun _ _ => True) ?_ fun _ _ _ _ => ?_)
      · exact .perform (allows_fresh trivial) (fun _ => rfl) fun _ => trivial
      · exact .pure trivial
  | some job =>
      refine Obeys.follows (Q := fun _ _ => True)
        (.bind (attempt_obeys ⟨rfl, rfl⟩) fun t result hlease _ => ?_)
      exact .bind (settle_obeys hlease _) fun _ _ _ _ => .pure trivial

theorem thread_follows (k : Thread) :
    Prog.Follows conduct (fun _ _ => True) (thread k) Work.fresh := by
  have hignoring : ∀ {op : Op}, Work.fresh.rule op →
      (∀ a, Work.fresh.told op a = Work.fresh) →
      Prog.Follows conduct (fun _ _ => True) (ignoring (Orchestrator.perform op)) Work.fresh :=
    fun hrule htold => Obeys.follows (Q := fun _ _ => True)
      (.catching (.bind (call_obeys hrule htold) fun _ _ _ _ => .pure trivial)
        fun _ _ _ => .pure trivial)
  cases k with
  | worker => exact drainOnce_follows
  | shutdown tokens => exact Obeys.follows (call_obeys trivial fun _ => rfl)
  | receive mail => exact hignoring trivial fun _ => rfl
  | approve r => exact approveRun_obeys.follows
  | reject r => exact rejectRun_obeys.follows
  | resolve r overrides remember => exact (resolveRun_obeys _ _).follows
  | retrigger r => exact hignoring trivial fun _ => rfl
  | markDelivered r => exact hignoring trivial fun _ => rfl
  | authorizeNew r => exact hignoring trivial fun _ => rfl
  | retryNow r kind => exact hignoring trivial fun _ => rfl
  | markHandled r => exact hignoring (.inl rfl) fun _ => rfl
  | rejectClarification r => exact hignoring (.inr rfl) fun _ => rfl
  | pass seconds => exact Obeys.follows (call_obeys trivial fun _ => rfl)

end

end PayrollAgent.Conduct
