import PayrollAgent.ReplyReads

namespace PayrollAgent.ReplyTurns

open Lib Repo AliasLearning ReconcileNames Orchestrator Handlers Ingest Resume CombinedEmail ReplyReads

/-- How far the worker of a reply is. It ends with the reply read, turned away or
failed. -/
inductive Turn
  | holding
  | found (row : Inbound)
  | opened (row : Inbound)
  | entered (row : Inbound)
  | claimed (row : Inbound)
  | read
  | refused
  | failed

/-- What the second read of `handle_resume_reply` decides. -/
def admitted (job : Job) (row : Inbound) (db : Db) : Turn :=
  match job.runId.bind db.runs.get? with
  | none => .refused
  | some run =>
      if row.runId = job.runId ∧ replySenderOk db row.mail run then
        if gateOpen job .awaitingReply run.status then
          if run.status = .received then .entered row else .opened row
        else .refused
      else .refused

def swapped (job : Job) (r : Uuid) (won : Bool) (next : Turn) : Turn :=
  if job.runId = some r then if won then next else .refused else .failed

def Turn.next (job : Job) : Turn → (op : Op) → Except Exn (Ans op) → Turn
  | .read, _, _ => .read
  | .refused, _, _ => .refused
  | .holding, .query, .ok d => (job.emailId.bind (d : Db).inbound.get?).elim .refused .found
  | .found row, .query, .ok d => admitted job row d
  | .opened row, .claimStatus r .awaitingReply .received, .ok won => swapped job r won (.entered row)
  | .opened row, .rewindForReclaim r, .ok won => swapped job r won (.entered row)
  | .entered row, .claimStatus r .received .extracting, .ok won => swapped job r won (.claimed row)
  | .claimed row, .query, .ok _ => .claimed row
  | .claimed row, .markReplyConsumed messageId _, .ok _ =>
      if messageId = row.mail.messageId then .read else .failed
  | _, _, _ => .failed

structure Service where
  lease : Option Job
  turn : Turn

def Service.fresh : Service := ⟨none, .failed⟩

def Service.next (s : Service) (op : Op) (x : Except Exn (Ans op)) : Service :=
  match leasedBy op x with
  | some job => ⟨some job, .holding⟩
  | none => ⟨s.lease, s.lease.elim .failed fun job => s.turn.next job op x⟩

def Service.Settles (s : Service) (job : Job) (result : PipelineResult) : Prop :=
  s.lease = some job ∧ (job.kind = .resumeReply → result.outcome = .ok → s.turn = .read ∨
    s.turn = .refused)

def Service.allows (s : Service) : Op → Prop
  | .claimJob => s.lease = none
  | .settlePipelineJob job result => s.Settles job result
  | .settleOutboundDeliveryJob job _ => s.lease = some job ∧ job.kind = .sendOutbound
  | _ => True

def service : Prog.Monitor Op Ans Exn Service := ⟨Service.allows, Service.next⟩

def Quiet : Op → Prop
  | .claimJob => False
  | .settlePipelineJob _ _ => False
  | .settleOutboundDeliveryJob _ _ => False
  | _ => True

variable {α : Type} {s : Service} {job : Job} {row : Inbound} {r e : Uuid} {op : Op}

theorem Quiet.ne (h : Quiet op) : op ≠ .claimJob := by
  rintro rfl
  exact h

theorem Quiet.allows (h : Quiet op) : s.allows op := by
  cases op with
  | claimJob => cases h
  | settlePipelineJob job result => cases h
  | settleOutboundDeliveryJob job result => cases h
  | _ => trivial

theorem next_of_lease (hlease : s.lease = some job) (hop : op ≠ .claimJob) (x : Except Exn (Ans op)) :
    s.next op x = ⟨some job, s.turn.next job op x⟩ := by
  rw [Service.next, leasedBy_none hop, hlease]
  rfl

theorem quiet_of_plain (h : op ≠ .claimJob ∧ ∀ s : Reader, s.allows op) : Quiet op := by
  obtain ⟨hclaim, hallows⟩ := h
  cases op with
  | claimJob => exact hclaim rfl
  | settlePipelineJob job result => cases (hallows .fresh).1
  | settleOutboundDeliveryJob job result => cases (hallows .fresh).1
  | _ => trivial

theorem quiet_of_reading {emails : ResumeEmails} (h : Reading emails op) : Quiet op := by
  cases op with
  | claimJob => exact h
  | settlePipelineJob job result => exact h
  | settleOutboundDeliveryJob job result => exact h
  | _ => trivial

theorem read_follows {p : Act α} (hp : p.Calls Quiet) (hread : s = ⟨some job, .read⟩) :
    Prog.Follows service (fun t _ => t = ⟨some job, .read⟩) p s := by
  have hstays : ∀ (t : Service) (op : Op) (x : Except Exn (Ans op)), t = ⟨some job, .read⟩ → Quiet op →
      service.next t op x = ⟨some job, .read⟩ := by
    rintro t op x rfl hop
    exact next_of_lease rfl hop.ne x
  exact Prog.Calls.follows (m := service) (R := fun t : Service => t = ⟨some job, .read⟩)
    (fun _ _ _ hop => hop.allows) hstays hp hread

theorem staged_call {stage : PipelineStage} {Q : Service → Except Exn (Ans op) → Prop} (hop : s.allows op)
    (hok : ∀ a, Q (s.next op (.ok a)) (.ok a)) (herror : ∀ e e', Q (s.next op (.error e)) (.error e')) :
    Prog.Follows service Q (staged stage (Orchestrator.perform op)) s := by
  apply Prog.follows_catching.mpr
  apply Prog.follows_perform.mpr
  refine ⟨hop, fun x => ?_⟩
  cases x with
  | ok a => exact hok a
  | error e => exact herror e _

def Served (job : Job) (s : Service) (x : Except Exn PipelineResult) : Prop :=
  s.lease = some job ∧ ∀ result, x = .ok result → result.outcome = .ok → s.turn = .read ∨
    s.turn = .refused

theorem outcome_classifyResend (errorType : ResendErrorType) (code : Option Nat) :
    (PipelineResult.classifyResend errorType code).outcome ≠ .ok := by
  unfold PipelineResult.classifyResend
  repeat' split
  all_goals simp [PipelineResult.deliveryRetryable, PipelineResult.deliveryTerminal]

theorem outcome_classifyPipelineException (stage : PipelineStage) (e : Exn) :
    (PipelineResult.classifyPipelineException stage e).outcome ≠ .ok := by
  have hdelivery : (PipelineResult.classifyDeliveryException e).outcome ≠ .ok := by
    unfold PipelineResult.classifyDeliveryException
    split
    case h_7 => exact outcome_classifyResend _ _
    all_goals repeat' split
    all_goals simp [PipelineResult.deliveryRetryable, PipelineResult.deliveryTerminal]
  have hextract : (PipelineResult.classifyExtract e).outcome ≠ .ok := by
    unfold PipelineResult.classifyExtract
    repeat' split
    all_goals simp
  have hclarification : (PipelineResult.classifyClarification e).outcome ≠ .ok := by
    unfold PipelineResult.classifyClarification
    split <;> simp
  unfold PipelineResult.classifyPipelineException
  split
  · exact hdelivery
  · exact hclarification
  · exact hextract
  · split <;> simp

theorem outcome_ofException (e : Exn) : (PipelineResult.ofException e).outcome ≠ .ok := by
  unfold PipelineResult.ofException
  split
  · exact outcome_classifyPipelineException _ _
  · exact outcome_classifyPipelineException _ _

theorem quiet_staged_query (stage : PipelineStage) : (staged stage query).Calls Quiet :=
  .catching (.perform trivial) fun _ => trivial

theorem quiet_loadRun (stage : PipelineStage) : (loadRun r stage).Calls Quiet :=
  (plain_loadRun stage).mono fun _ => quiet_of_plain

theorem quiet_resumeContext (inbound : Option InboundMail) : (resumeContext r inbound).Calls Quiet := by
  have hroster : ∀ businessId, (loadRoster businessId).Calls Quiet := fun businessId =>
    (plain_loadRoster businessId).mono fun _ => quiet_of_plain
  refine .bind (quiet_loadRun _) fun run => .bind (hroster _) fun roster => .bind (quiet_loadRun _)
    fun pre => ?_
  refine .bind (quiet_loadRun _) fun snapshot => .bind (quiet_loadRun _) fun clarified => ?_
  refine .bind (quiet_staged_query _) fun db => .bind (.catching (.perform trivial) fun _ =>
    trivial) fun consumed => ?_
  trivial

theorem swapped_own (hrun : job.runId = some r) (won : Bool) {next : Turn} :
    swapped job r won next = if won then next else .refused := by
  rw [swapped, if_pos hrun]

section

variable [PyText]

theorem quiet_resumeFrom (ctx : ResumeContext) (emails : ResumeEmails) (overrides : Option Overrides) :
    (resumeFrom r ctx emails overrides).Calls Quiet :=
  (reads_resumeFrom ctx overrides).mono fun _ => quiet_of_reading

omit [PyText] in
theorem consumeReply_follows (hs : s = ⟨some job, .claimed row⟩) :
    Prog.Follows service (fun t x => (x = .ok () ∧ t = ⟨some job, .read⟩) ∨ (∃ e, x = .error e) ∧
    t.lease = some job) (consumeReply r (some row.mail)) s := by
  subst hs
  apply Prog.Follows.bind (P := fun t x => t.lease = some job ∧ ∀ d : Db, x = .ok d →
    t = ⟨some job, .claimed row⟩)
  · apply staged_call
    · trivial
    · exact fun d => ⟨rfl, fun _ _ => rfl⟩
    · exact fun e e' => ⟨rfl, nofun⟩
  · rintro t d ⟨-, ht⟩
    obtain rfl := ht d rfl
    apply staged_call
    · trivial
    · intro a
      refine Or.inl ⟨rfl, ?_⟩
      change Service.mk (some job) (if row.mail.messageId = row.mail.messageId then .read else
        .failed) = _
      rw [if_pos rfl]
    · exact fun e e' => Or.inr ⟨⟨e', rfl⟩, rfl⟩
  · exact fun t e ht => Or.inr ⟨⟨e, rfl⟩, ht.1⟩

/-- A resume of a worker that entered ends with the reply read or turned away, or
it fails. -/
theorem resumePipeline_follows (hrun : job.runId = some r) (hs : s = ⟨some job, .entered row⟩) :
    Prog.Follows service (Served job) (resumePipeline r (some row.mail) .received none) s := by
  subst hs
  have hread : ∀ {t : Service} {x : Except Exn PipelineResult}, t = ⟨some job, .read⟩ →
    Served job t x := by
    rintro t x rfl
    exact ⟨rfl, fun _ _ _ => Or.inl rfl⟩
  have hfailed : ∀ {t : Service} (e : Exn), t.lease = some job → Served job t (.ok (.ofException e)) := by
    intro t e hlease
    refine ⟨hlease, fun result hresult hok => ?_⟩
    obtain rfl := Except.ok.inj hresult
    exact absurd hok (outcome_ofException e)
  apply Prog.Follows.catching (P := fun t x => t.lease = some job ∧
    (∀ result, x = .ok result → Served job t x))
  · apply Prog.Follows.bind (P := fun t x => t.lease = some job ∧ ∀ won : Bool, x = .ok won →
      t = ⟨some job, if won then .claimed row else .refused⟩)
    · apply staged_call
      · trivial
      · intro won
        refine ⟨rfl, fun won' heq => ?_⟩
        obtain rfl := Except.ok.inj heq
        exact congrArg (Service.mk (some job)) (swapped_own hrun won)
      · exact fun e e' => ⟨rfl, nofun⟩
    · rintro t won ⟨hlease, ht⟩
      obtain rfl := ht won rfl
      apply Prog.Follows.ite
      · rintro rfl
        apply Prog.Follows.bind (consumeReply_follows rfl)
        · rintro u a (⟨-, hu⟩ | ⟨⟨e, he⟩, -⟩)
          · apply Prog.Follows.bind (read_follows (quiet_resumeContext _) hu)
            · intro v reads hv
              apply (read_follows (quiet_resumeFrom ..) hv).mono
              intro v' x hv'
              exact ⟨by rw [hv'], fun _ _ => hread hv'⟩
            · exact fun v e hv => ⟨by rw [hv], nofun⟩
          · cases he
        · rintro u e (⟨he, -⟩ | ⟨-, hu⟩)
          · cases he
          · exact ⟨hu, nofun⟩
      · intro hlost
        refine ⟨rfl, fun _ _ => ⟨rfl, fun _ _ _ => Or.inr ?_⟩⟩
        exact if_neg hlost
    · exact fun t e ht => ⟨ht.1, nofun⟩
  · exact fun t result ht => ht.2 result rfl
  · exact fun t e ht => hfailed e ht.1

omit [PyText] in
theorem reenter_follows {status : RunStatus} (hrun : job.runId = some r)
    (hs : s = ⟨some job, if gateOpen job .awaitingReply status then
      if status = .received then .entered row else .opened row else .refused⟩) :
    Prog.Follows service (fun t x => t.lease = some job ∧ ∀ entered : Bool, x = .ok entered →
      t = ⟨some job, if entered then .entered row else .refused⟩)
      (reenter job r .awaitingReply status) s := by
  subst hs
  apply Prog.Follows.ite
  · rintro rfl
    rw [if_pos (by simp [gateOpen]), if_neg (by decide)]
    apply Prog.follows_perform.mpr
    refine ⟨trivial, fun x => ?_⟩
    cases x with
    | ok won =>
        refine ⟨rfl, fun won' heq => ?_⟩
        obtain rfl := Except.ok.inj heq
        exact congrArg (Service.mk (some job)) (swapped_own hrun won)
    | error e => exact ⟨rfl, fun _ h => (by cases h)⟩
  · intro hpaused
    apply Prog.Follows.ite
    · rintro ⟨rfl, hattempts⟩
      rw [if_pos (by simp [gateOpen, hattempts]), if_pos rfl]
      exact ⟨rfl, fun entered heq => by rw [← Except.ok.inj heq]; rfl⟩
    · intro hreceived
      apply Prog.Follows.ite
      · rintro ⟨hrewinds, hattempts⟩
        rw [if_pos (by simp [gateOpen, hrewinds, hattempts]), if_neg (fun h => hreceived ⟨h, hattempts⟩)]
        apply Prog.follows_perform.mpr
        refine ⟨trivial, fun x => ?_⟩
        cases x with
        | ok won =>
            refine ⟨rfl, fun won' heq => ?_⟩
            obtain rfl := Except.ok.inj heq
            exact congrArg (Service.mk (some job)) (swapped_own hrun won)
        | error e => exact ⟨rfl, fun _ h => (by cases h)⟩
      · intro hrewinds
        have hclosed : gateOpen job .awaitingReply status = false := by
          simp only [gateOpen, Bool.or_eq_false_iff, Bool.and_eq_false_iff, decide_eq_false_iff_not]
          tauto
        rw [hclosed]
        exact ⟨rfl, fun entered heq => by rw [← Except.ok.inj heq]; rfl⟩

theorem handleResumeReply_follows :
    Prog.Follows service (Served job) (handleResumeReply job) ⟨some job, .holding⟩ := by
  have hserved : ∀ {t : Service} {x : Except Exn PipelineResult}, t = ⟨some job, .refused⟩ →
    Served job t x := by
    rintro t x rfl
    exact ⟨rfl, fun _ _ _ => Or.inr rfl⟩
  have hraised : ∀ {t : Service} (e : Exn), t.lease = some job → Served job t (.error e) :=
    fun _ h => ⟨h, nofun⟩
  unfold handleResumeReply
  cases hrun : job.runId with
  | none => exact hraised _ rfl
  | some r =>
      cases hmail : job.emailId with
      | none => exact hraised _ rfl
      | some e =>
          apply Prog.follows_perform_bind.mpr
          refine ⟨trivial, fun (d : Db) => ?_, fun e' => hraised e' rfl⟩
          have hfound : service.next ⟨some job, .holding⟩ .query (.ok d) =
              ⟨some job, (d.inbound.get? e).elim .refused .found⟩ := by
            change Service.mk (some job) ((job.emailId.bind d.inbound.get?).elim .refused .found) = _
            rw [hmail, Option.bind_some]
          rw [hfound]
          cases hrow : d.inbound.get? e with
          | none => exact hserved rfl
          | some row =>
              apply Prog.follows_perform_bind.mpr
              refine ⟨trivial, fun (d' : Db) => ?_, fun e' => hraised e' rfl⟩
              change Prog.Follows service (Served job) _ ⟨some job, admitted job row d'⟩
              rw [admitted, hrun, Option.bind_some]
              cases d'.runs.get? r with
              | none => exact hserved rfl
              | some run =>
                  dsimp only
                  apply Prog.Follows.ite
                  · intro hown
                    rw [if_pos hown]
                    apply Prog.Follows.bind (reenter_follows hrun rfl)
                    · rintro t entered ⟨-, ht⟩
                      obtain rfl := ht entered rfl
                      apply Prog.Follows.ite
                      · rintro rfl
                        exact resumePipeline_follows hrun rfl
                      · intro hlost
                        exact hserved (congrArg (Service.mk (some job)) (if_neg hlost))
                    · exact fun t e ht => hraised e ht.1
                  · intro hother
                    rw [if_neg hother]
                    exact hserved rfl

theorem handle_follows_of_ne (hkind : job.kind ≠ .resumeReply) :
    Prog.Follows service (fun t _ => t.lease = some job) (handle job) ⟨some job, .holding⟩ := by
  apply Prog.Follows.simulate (m := reader) (Q := fun t _ => t.Done job)
    (S := fun s t => s.lease = some job ∧ t.lease = some job) _ _ _ ReplyReads.handle_follows ⟨rfl, rfl⟩
  · rintro s t op ⟨hs, ht⟩ hop
    cases op with
    | claimJob =>
        rw [show s.lease = none from hop] at hs
        cases hs
    | settlePipelineJob job' result =>
        obtain rfl := Option.some.inj (hs.symm.trans hop.1)
        exact ⟨ht, fun h => absurd h hkind⟩
    | settleOutboundDeliveryJob job' result => exact ⟨ht.trans (hs.symm.trans hop.1), hop.2⟩
    | _ => trivial
  · rintro s t op x ⟨hs, ht⟩ hop
    have hclaim : op ≠ .claimJob := by
      rintro rfl
      rw [show s.lease = none from hop] at hs
      cases hs
    exact ⟨congrArg Reader.lease (ReplyReads.next_of_lease hs x (leasedBy_none hclaim x)),
      congrArg Service.lease (next_of_lease ht hclaim x)⟩
  · exact fun _ _ _ h _ => h.2

theorem attempt_follows : Prog.Follows service (fun t x => t.lease = some job ∧
      ∀ result, x = .ok result → t.Settles job (settledResult job result)) (attempt job)
      ⟨some job, .holding⟩ := by
  have hother : job.kind ≠ .resumeReply → ∀ {t : Service} (result : Option PipelineResult),
    t.lease = some job →
      t.Settles job (settledResult job result) :=
      fun hkind _ _ h => ⟨h, fun hreply => absurd hreply hkind⟩
  by_cases hkind : job.kind = .resumeReply
  · have hhandle : handle job = handleResumeReply job := by
      rw [handle, hkind]
    apply Prog.Follows.catching (P := fun t x => t.lease = some job ∧
      ∀ result, x = .ok result → t.Settles job (settledResult job result))
    · rw [hhandle]
      apply Prog.Follows.bind handleResumeReply_follows
      · intro t result ht
        refine ⟨ht.1, fun result' heq => ?_⟩
        obtain rfl := Except.ok.inj heq
        exact ⟨ht.1, fun _ hok => ht.2 result rfl hok⟩
      · exact fun t e ht => ⟨ht.1, nofun⟩
    · exact fun _ _ h => h
    · intro t e ht
      refine ⟨ht.1, fun result heq => ?_⟩
      obtain rfl := Except.ok.inj heq
      refine ⟨ht.1, fun _ hok => ?_⟩
      rw [settledResult, hkind, if_neg (by decide)] at hok
      cases hok
  · apply Prog.Follows.catching (P := fun t x => t.lease = some job ∧
      ∀ result, x = .ok result → t.Settles job (settledResult job result))
    · apply Prog.Follows.bind (handle_follows_of_ne hkind)
      · exact fun t result ht => ⟨ht, fun result' _ => hother hkind result' ht⟩
      · exact fun t e ht => ⟨ht, nofun⟩
    · exact fun _ _ h => h
    · exact fun t e ht => ⟨ht.1, fun result _ => hother hkind result ht.1⟩

theorem drainOnce_follows : Prog.Follows service (fun _ _ => True) drainOnce .fresh := by
  apply Prog.follows_perform_bind.mpr
  refine ⟨rfl, fun (claimed : Option Job) => ?_, fun _ => trivial⟩
  cases claimed with
  | none => exact Prog.follows_perform_bind.mpr ⟨trivial, fun _ => trivial, fun _ => trivial⟩
  | some job =>
      apply Prog.Follows.bind attempt_follows
      · intro t result ht
        obtain hsettles := ht.2 result rfl
        apply Prog.Follows.bind (P := fun _ _ => True)
        · apply Prog.Follows.ite
          · exact fun hkind => Prog.follows_perform.mpr ⟨⟨ht.1, hkind⟩, fun _ => trivial⟩
          · exact fun _ => Prog.follows_perform.mpr ⟨hsettles, fun _ => trivial⟩
        · exact fun _ _ _ => trivial
        · exact fun _ _ _ => trivial
      · exact fun _ _ _ => trivial

theorem thread_follows (k : Thread) : Prog.Follows service (fun _ _ => True) (thread k) .fresh := by
  by_cases hk : k = .worker
  · subst hk
    exact drainOnce_follows
  · apply (Prog.Calls.follows (m := service) (R := fun _ => True) _ _ (thread_plain k hk) trivial).mono
    · exact fun _ _ _ => trivial
    · exact fun _ _ _ hop => (quiet_of_plain hop).allows
    · exact fun _ _ _ _ _ => trivial

end

end PayrollAgent.ReplyTurns
