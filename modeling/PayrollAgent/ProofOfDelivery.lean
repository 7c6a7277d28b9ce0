import PayrollAgent.BoundedRequests
import PayrollAgent.RunWrites
import PayrollAgent.SendCourse

namespace PayrollAgent.ProofOfDelivery

open Lib Repo AliasLearning RunStages Delivery RunRoutes ClarificationWrites Ingest Handlers Effects
  RunSteps FreshIds HandoffSteps JobSteps NewJobs Commits RunWrites BoundedRequests SendCourse

def accepted : Call → Option Authorization
  | ⟨_, .send a, .ok _⟩ => some a
  | _ => none

/-- The message of an authorization is stored as it was authorized, for a real
run. -/
structure Carries (db : Db) (a : Authorization) : Prop where
  message : ∃ m, db.outbound.get? a.emailId = some m ∧ m.runId = a.runId ∧ m.snapshot = a.snapshot
  run : ∃ run, db.runs.get? a.runId = some run ∧ run.recordOnly = false

inductive Proven (before : Uuid → Prop) (db : Db) (log : List Call) (e : Uuid) (m : Outbound) : Prop
  | earlier (h : before e)
  | recorded {run : Run} (hrun : db.runs.get? m.runId = some run) (honly : run.recordOnly = true)
  | accepted {c : Call} {a : Authorization} (hc : c ∈ log) (ha : accepted c = some a)
      (hmail : a.emailId = e)

def Holding (i : Nat) (job : Job) (log : List Call) : Prop := ∃ c ∈ log, c.thread = i ∧
    c.handed = some job

def Untaken (db : Db) (job : Job) : Prop := ∀ k row, db.handoffs.get? k = some row →
    row.leaseToken ≠ job.leaseToken

def Stands (i : Nat) : Course → Db → List Call → Prop
  | .held job, db, log => Holding i job log ∧ Untaken db job
  | .refused job, db, log => Holding i job log ∧ Untaken db job
  | .granted job a, db, _ => job.emailId = some a.emailId ∧ Carries db a
  | .accepted job a, _, log => job.emailId = some a.emailId ∧ ∃ c ∈ log, accepted c = some a
  | .idle, _, _ => True
  | .failed, _, _ => True

/-- The leases were drawn one by one, and the messages that are sent are proven. -/
structure Ledger (before : Uuid → Prop) (n : Nat) (db : Db) (log : List Call) : Prop where
  fresh : Fresh db
  threads : ∀ c ∈ log, c.thread < n
  drawn : ∀ c ∈ log, ∀ job, c.handed = some job → job.leaseToken < db.nextId
  distinct : ∀ c ∈ log, ∀ c' ∈ log, ∀ job job', c.handed = some job → c'.handed = some job' →
    job.leaseToken = job'.leaseToken → c.thread = c'.thread
  handoffs : ∀ k row, db.handoffs.get? k = some row → row.leaseToken < db.nextId
  requests : ∀ c ∈ log, ∀ a, c.op = .send a → Carries db a
  proven : ∀ e m, db.outbound.get? e = some m → m.sendState = .sent → Proven before db log e m

/-- The messages that were sent before, and no lease that is still to be drawn. -/
structure Opening (before : Uuid → Prop) (db : Db) : Prop where
  fresh : Fresh db
  handoffs : ∀ k row, db.handoffs.get? k = some row → row.leaseToken < db.nextId
  sent : ∀ e m, db.outbound.get? e = some m → m.sendState = .sent → before e

variable {before : Uuid → Prop} {db db' db₁ : Db} {log : List Call} {i j n : Nat} {op : Op}
    {a : Authorization} {e r : Uuid}
  {m m' : Outbound} {job : Job} {c : Call} {s t : Course} {env : Env} {result : PipelineResult}

theorem op_of_accepted (h : accepted c = some a) : c.op = .send a := by
  unfold accepted at h
  split at h
  · obtain rfl := Option.some.inj h
    rfl
  · cases h

theorem sendContext_job {row : JobRow} (h : sendContext job row = some (r, e)) :
    job.emailId = some e := by
  unfold sendContext at h
  split at h
  · split at h
    next hsame =>
      cases h
      exact hsame.2.2.2
    · cases h
  · cases h

def WasSent (db : Db) (e : Uuid) (m' : Outbound) : Prop :=
  ∃ m, db.outbound.get? e = some m ∧ m.sendState = .sent ∧ m.runId = m'.runId

theorem wasSent_same (hsent : m'.sendState = .sent) (hm' : db'.outbound.get? e = some m')
    (h : db'.outbound = db.outbound) : WasSent db e m' := ⟨m', by rw [← h, hm'], hsent, rfl⟩

theorem wasSent_reserve {purpose : Purpose} {round : Nat} {envelope : Envelope}
    (hsent : m'.sendState = .sent)
    (hm' : db'.outbound.get? e = some m') (hout : db₁.outbound = db.outbound)
    (h : db'.outbound = (reserveOutboundSnapshot r purpose round envelope db₁).2.outbound) :
    WasSent db e m' := by
  unfold reserveOutboundSnapshot at h
  split at h
  · exact wasSent_same hsent hm' (h.trans hout)
  · rw [h, Db.insertOutbound, Dict.get?_set] at hm'
    split at hm'
    · obtain rfl := Option.some.inj hm'
      cases hsent
    · rw [hout] at hm'
      exact ⟨m', hm', hsent, rfl⟩

section

variable [PyText]

def Marks (db : Db) (job : Job) (result : PipelineResult) (e : Uuid) (m' : Outbound) : Prop :=
  ∃ row m run, InContext db job row m'.runId e m run ∧ (run.recordOnly = true ∨
    Claims result ∧ ∃ h, currentProviderHandoff db job.id job.leaseToken m'.runId e m.epoch = some h)

theorem marked {r' e' : Uuid} {m₀ : Outbound} {run : Run}
    (howed : deliveryContext db r' e' = some (m₀, run))
    (hout : db₁.outbound = db.outbound) (h : db'.outbound = (settleSent r' e' m₀.purpose db₁).outbound)
    (hm' : db'.outbound.get? e = some m') (hsent : m'.sendState = .sent) :
    WasSent db e m' ∨ e = e' ∧ m'.runId = r' := by
  rw [h, settleSent_outbound, hout, Dict.get?_modify] at hm'
  split at hm'
  next he =>
    subst he
    obtain ⟨hm₀, hown, -⟩ := deliveryContext_some howed
    rw [hm₀] at hm'
    obtain rfl := Option.some.inj hm'
    exact .inr ⟨rfl, hown⟩
  next => exact .inl ⟨m', hm', hsent, rfl⟩

theorem settle_marks (hm' : (settleOutboundDeliveryJob job result db).2.outbound.get? e = some m')
    (hsent : m'.sendState = .sent) : WasSent db e m' ∨ Marks db job result e m' := by
  have hsame : ∀ {db' : Db}, db'.outbound = db.outbound → db'.outbound.get? e = some m' →
      WasSent db e m' ∨ Marks db job result e m' := fun h hget => .inl (wasSent_same hsent hget h)
  unfold settleOutboundDeliveryJob at hm'
  split at hm'
  · exact hsame rfl hm'
  next row hrow =>
    split at hm'
    · exact hsame rfl hm'
    next r' e' hnames =>
      split at hm'
      · exact hsame rfl hm'
      next m₀ run howed =>
        have hctx : InContext db job row r' e' m₀ run := ⟨hrow, hnames, howed⟩
        unfold settleInContext at hm'
        split at hm'
        · split at hm'
          next honly =>
            obtain hwas | ⟨rfl, rfl⟩ := @marked db _ db _ _ _ _ _ _ _ howed rfl rfl hm' hsent
            · exact .inl hwas
            · exact .inr ⟨row, m₀, run, hctx, .inl honly⟩
          · exact hsame rfl hm'
        next hreason =>
          split at hm'
          · exact hsame rfl hm'
          · split at hm'
            · exact hsame rfl hm'
            next h handoff howned =>
              unfold settleOwnedHandoff at hm'
              split at hm'
              next hok =>
                have hout : (appendDeliveryAttempt e' .sent .none
                  (releaseHandoff h .finalized db)).outbound = db.outbound := rfl
                obtain hwas | ⟨rfl, rfl⟩ := marked howed hout rfl hm' hsent
                · exact .inl hwas
                · exact .inr ⟨row, m₀, run, hctx, .inr ⟨⟨hok, hreason⟩, _, howned⟩⟩
              · split at hm'
                · exact hsame rfl hm'
                · exact hsame rfl hm'

theorem wasSent_step {answer : Ans op} (h : Effect env db op answer db')
    (hop : ∀ job result, op ≠ .settleOutboundDeliveryJob job result) (hm' : db'.outbound.get? e = some m')
    (hsent : m'.sendState = .sent) : WasSent db e m' := by
  have hsame : db'.outbound = db.outbound → WasSent db e m' := wasSent_same hsent hm'
  cases h with
  | reapedRun => exact hsame (setRunError_outbound ..)
  | retired | recorded | expired | sent | rescheduled | reviewed => exact absurd rfl (hop _ _)
  | failed => exact hsame (setRunError_outbound ..)
  | persisted => exact hsame (persistStages_outbound ..)
  | @replayed r e => exact hsame (enqueueSend_outbound r e db)
  | @reserved r q => exact wasSent_reserve hsent hm' rfl (reserveClarification_outbound r q db)
  | redelivered => exact hsame (authorizedReplyJob_outbound ..)
  | created => exact hsame (enqueueJob_outbound ..)
  | replied => exact hsame (authorizedReplyJob_outbound ..)
  | @approved r =>
      obtain hout | hreserve := deliver_outbound r env.envelope (setStatus r .approved db)
      · exact hsame hout
      · exact @wasSent_reserve db _ (setStatus r .approved db) _ _ _ _ _ _ hsent hm' rfl hreserve
  | retriggered _ _ hclaim =>
      obtain ⟨rfl, -⟩ | ⟨rfl, -⟩ := hclaim
      · exact hsame (enqueueJob_outbound ..)
      · exact hsame (enqueueJob_outbound ..)
  | markedDelivered _ hresolve =>
      obtain ⟨handoffs, rfl⟩ := resolve_frame hresolve
      exact hsame rfl
  | @authorizedNew r e' m₀ db₁ _ hresolve =>
      have hout : (db₁.modifyRun r (openEpoch db₁.now)).outbound = db.outbound := by
        obtain ⟨handoffs, rfl⟩ := resolve_frame hresolve
        rfl
      exact wasSent_reserve hsent hm' hout (enqueueSend_outbound ..)
  | @finishedReview r e' m₀ target acknowledge =>
      cases acknowledge with
      | false => exact hsame rfl
      | true =>
          change (db.outbound.modify e' _).get? e = some m' at hm'
          rw [Dict.get?_modify] at hm'
          split at hm'
          · obtain ⟨m, hm, rfl⟩ := Option.map_eq_some_iff.mp hm'
            refine ⟨m, hm, ?_, ?_⟩
            · split at hsent <;> exact hsent
            · split <;> rfl
          · exact ⟨m', hm', hsent, rfl⟩
  | resolved => exact hsame (enqueueJob_outbound ..)
  | _ => exact hsame rfl

theorem carries_exec (hfresh : Fresh db) (h : Carries db a) : Carries (exec env op db).2 a := by
  apply exec_preserves (P := fun d : Db => Carries d a) h
  intro answer db' htxn
  obtain ⟨⟨m, hm, hown, hsnapshot⟩, run, hrun, hreal⟩ := h
  obtain ⟨run', hrun', hstep⟩ := runStep (txn_effect htxn) hfresh.runs hrun
  refine ⟨?_, run', hrun', hstep.recordOnly_eq.trans hreal⟩
  cases messageWrite (txn_effect htxn) hfresh hm with
  | kept h => exact ⟨m, h, hown, hsnapshot⟩
  | sent _ h => exact ⟨_, h, hown, hsnapshot⟩
  | acknowledged _ _ h =>
      obtain ⟨at', h⟩ := h
      exact ⟨_, h, hown, hsnapshot⟩

theorem untaken_exec (hu : Untaken db job)
    (hop : ∀ job', op = .authorizeOutboundProviderHandoff job' → job'.leaseToken ≠ job.leaseToken) :
    Untaken (exec env op db).2 job := by
  apply exec_preserves (P := fun d : Db => Untaken d job) hu
  intro answer db' htxn k row' hrow'
  cases handoffStep (txn_effect htxn) hrow' with
  | kept h => exact hu k row' h
  | released h hreleased =>
      have hother := hu k _ h
      rw [hreleased]
      exact hother
  | adopted h _ _ htaken =>
      rw [htaken]
      exact hop _ rfl
  | taken _ _ _ htaken =>
      rw [htaken]
      exact hop _ rfl

theorem handoffs_exec (h : ∀ k row, db.handoffs.get? k = some row → row.leaseToken < db.nextId)
    (hop : ∀ job, op = .authorizeOutboundProviderHandoff job → job.leaseToken < db.nextId) :
    ∀ k row, (exec env op db).2.handoffs.get? k = some row →
      row.leaseToken < (exec env op db).2.nextId := by
  apply exec_preserves (P := fun d : Db => ∀ k row, d.handoffs.get? k = some row →
    row.leaseToken < d.nextId) h
  intro answer db' htxn k row' hrow'
  have hnext := (jobsGrow (txn_effect htxn)).nextId
  refine lt_of_lt_of_le ?_ hnext
  cases handoffStep (txn_effect htxn) hrow' with
  | kept hrow => exact h k row' hrow
  | released hrow hreleased =>
      have hbelow := h k _ hrow
      rw [hreleased]
      exact hbelow
  | adopted _ _ _ htaken =>
      rw [htaken]
      exact hop _ rfl
  | taken _ _ _ htaken =>
      rw [htaken]
      exact hop _ rfl

theorem nextId_exec (env : Env) (op : Op) (db : Db) : db.nextId ≤ (exec env op db).2.nextId := by
  apply exec_preserves (P := fun d : Db => db.nextId ≤ d.nextId) le_rfl
  exact fun answer db' htxn => (jobsGrow (txn_effect htxn)).nextId

theorem proven_exec (hfresh : Fresh db) (h : Proven before db log e m) (hown : m.runId = m'.runId)
    (c : Call) : Proven before (exec env op db).2 (c :: log) e m' := by
  cases h with
  | earlier h => exact .earlier h
  | @recorded run hrun honly =>
      have hkept : ∃ run', (exec env op db).2.runs.get? m.runId = some run' ∧ run'.recordOnly = true := by
        apply exec_preserves (P := fun d : Db => ∃ run', d.runs.get? m.runId = some run' ∧
          run'.recordOnly = true) ⟨run, hrun, honly⟩
        intro answer db' htxn
        obtain ⟨run', hrun', hstep⟩ := runStep (txn_effect htxn) hfresh.runs hrun
        exact ⟨run', hrun', hstep.recordOnly_eq.trans honly⟩
      obtain ⟨run', hrun', honly'⟩ := hkept
      rw [hown] at hrun'
      exact .recorded hrun' honly'
  | accepted hc ha hmail => exact .accepted (List.mem_cons_of_mem _ hc) ha hmail

omit [PyText] in
theorem accepted_of_mayClaim (hs : Stands i s db log) (hclaim : MayClaim s job)
    (hmail : job.emailId = some e)
    {h : Uuid × Handoff} {epoch : Nat}
    (howned : currentProviderHandoff db job.id job.leaseToken r e epoch = some h) :
    ∃ c ∈ log, ∃ a, accepted c = some a ∧ a.emailId = e := by
  obtain rfl | ⟨a, rfl⟩ := hclaim
  · obtain ⟨hrow, -, -, -, -, htoken, -⟩ := currentProviderHandoff_some howned
    exact absurd htoken (hs.2 _ _ hrow)
  · obtain ⟨hmail', c, hc, ha⟩ := hs
    rw [hmail] at hmail'
    exact ⟨c, hc, a, ha, (Option.some.inj hmail').symm⟩

theorem Ledger.sent (h : Ledger before n db log) (hs : Stands i s db log) (hallows : course.allows s op)
    (hm' : (exec env op db).2.outbound.get? e = some m') (hsent : m'.sendState = .sent) :
    Proven before (exec env op db).2 (⟨i, op, (exec env op db).1⟩ :: log) e m' := by
  have hwas : WasSent db e m' → Proven before (exec env op db).2
    (⟨i, op, (exec env op db).1⟩ :: log) e m' := by
    rintro ⟨m, hm, hmsent, hown⟩
    exact proven_exec h.fresh (h.proven e m hm hmsent) hown _
  rcases commit_cases 0 env op db with ⟨x, hexec, -⟩ | ⟨answer, db', htxn, hdb, -⟩
  · rw [hexec] at hm'
    exact hwas ⟨m', hm', hsent, rfl⟩
  · rw [hdb] at hm'
    by_cases hop : ∃ job result, op = .settleOutboundDeliveryJob job result
    · obtain ⟨job, result, rfl⟩ := hop
      obtain rfl : (settleOutboundDeliveryJob job result db).2 = db' :=
        congrArg Prod.snd (Except.ok.inj htxn)
      obtain hsame | ⟨row, m, run, hctx, hwhy⟩ := settle_marks hm' hsent
      · exact hwas hsame
      · obtain ⟨hm, hown, hrun, -⟩ := deliveryContext_some hctx.owed
        obtain honly | ⟨hclaims, x, howned⟩ := hwhy
        · have hproven : Proven before db log e m := .recorded (hown ▸ hrun) honly
          exact proven_exec h.fresh hproven hown _
        · obtain ⟨c, hc, a, ha, hmail⟩ := accepted_of_mayClaim hs (hallows hclaims)
            (sendContext_job hctx.names) howned
          exact .accepted (List.mem_cons_of_mem _ hc) ha hmail
    · exact hwas (wasSent_step (txn_effect htxn) (fun job result h => hop ⟨job, result, h⟩) hm' hsent)

omit [PyText] in
theorem Ledger.taker (h : Ledger before n db log) (hs : Stands i s db log)
    (hallows : course.allows s (.authorizeOutboundProviderHandoff job)) :
    ∃ c ∈ log, c.thread = i ∧ c.handed = some job ∧ job.leaseToken < db.nextId := by
  obtain rfl : s = .held job := hallows
  obtain ⟨⟨c, hc, hthread, hjob⟩, -⟩ := hs
  exact ⟨c, hc, hthread, hjob, h.drawn c hc job hjob⟩

omit [PyText] in
theorem carries_of_send (hs : Stands i s db log) (hallows : course.allows s (.send a)) :
    Carries db a := by
  obtain ⟨job, rfl⟩ := hallows
  exact hs.2

theorem drawn_handed (h : (Call.mk i op (exec env op db).1).handed = some job) :
    job.leaseToken = db.nextId ∧ (exec env op db).2.nextId = db.nextId + 1 := by
  cases op with
  | claimJob =>
      rcases commit_cases 0 env .claimJob db with ⟨e, hexec, -⟩ | ⟨a, db', htxn, hdb, -, hanswer⟩
      · rw [hexec] at h
        cases h
      · obtain hok | ⟨e, herror⟩ := hanswer
        · rw [hok] at h
          obtain rfl : a = some job := h
          have hclaim : claimJob env.picked db = (some job, db') := Except.ok.inj htxn
          rw [hdb]
          unfold claimJob at hclaim
          split at hclaim
          · cases hclaim
          · split at hclaim
            · cases hclaim
              exact ⟨rfl, rfl⟩
            · cases hclaim
        · rw [herror] at h
          cases h
  | _ => cases h

theorem Ledger.shared (h : Ledger before n db log) (hi : i < n) (hs : Stands i s db log)
    (hallows : course.allows s op) :
    Ledger before n (exec env op db).2 (⟨i, op, (exec env op db).1⟩ :: log) where
  fresh := fresh_exec h.fresh
  threads := List.forall_mem_cons.mpr ⟨hi, h.threads⟩
  drawn := by
    refine List.forall_mem_cons.mpr ⟨fun job hjob => ?_, fun c hc job hjob => ?_⟩
    · obtain ⟨htoken, hnext⟩ := drawn_handed hjob
      rw [htoken, hnext]
      exact Nat.lt_succ_self _
    · exact (h.drawn c hc job hjob).trans_le (nextId_exec env op db)
  distinct := by
    intro c hc c' hc' job job' hjob hjob' hsame
    rcases List.mem_cons.mp hc with rfl | hc <;> rcases List.mem_cons.mp hc' with rfl | hc'
    · rfl
    · exact absurd (hsame.symm.trans (drawn_handed hjob).1) (h.drawn c' hc' job' hjob').ne
    · exact absurd (hsame.trans (drawn_handed hjob').1) (h.drawn c hc job hjob).ne
    · exact h.distinct c hc c' hc' job job' hjob hjob' hsame
  handoffs := handoffs_exec h.handoffs fun job hop => by
    subst hop
    obtain ⟨-, -, -, -, hdrawn⟩ := h.taker hs hallows
    exact hdrawn
  requests := by
    refine List.forall_mem_cons.mpr ⟨?_, fun c hc a ha => carries_exec h.fresh (h.requests c hc a ha)⟩
    rintro a rfl
    exact carries_exec h.fresh (carries_of_send hs hallows)
  proven e m hm hsent := h.sent hs hallows hm hsent

theorem Ledger.own (h : Ledger before n db log) (hs : Stands i s db log) (hallows : course.allows s op) :
    Stands i (course.next s op (exec env op db).1) (exec env op db).2
    (⟨i, op, (exec env op db).1⟩ :: log) := by
  have hkept : ∀ {t : Course}, (∀ job', op ≠ .authorizeOutboundProviderHandoff job') → Stands i t db log →
      Stands i t (exec env op db).2 (⟨i, op, (exec env op db).1⟩ :: log) := by
    intro t hop ht
    cases t with
    | idle | failed => trivial
    | held job | refused job =>
        obtain ⟨⟨c, hc, hholds⟩, hu⟩ := ht
        exact ⟨⟨c, List.mem_cons_of_mem _ hc, hholds⟩, untaken_exec hu fun job' h => absurd h (hop job')⟩
    | granted job a => exact ⟨ht.1, carries_exec h.fresh ht.2⟩
    | accepted job a =>
        obtain ⟨hmail, c, hc, ha⟩ := ht
        exact ⟨hmail, c, List.mem_cons_of_mem _ hc, ha⟩
  cases op with
  | claimJob =>
      cases hx : (exec env .claimJob db).1 with
      | error e =>
          rw [hx] at hkept
          exact hkept (fun _ hop => by cases hop) hs
      | ok claimed =>
          cases claimed with
          | none =>
              rw [hx] at hkept
              exact hkept (fun _ hop => by cases hop) hs
          | some job =>
              have hhanded : (Call.mk i .claimJob (exec env .claimJob db).1).handed = some job := by
                rw [hx]
                rfl
              obtain ⟨htoken, -⟩ := drawn_handed hhanded
              rw [hx] at hhanded
              have hu : Untaken db job := fun k row hrow => by
                rw [htoken]
                exact (h.handoffs k row hrow).ne
              exact ⟨⟨_, List.mem_cons_self, rfl, hhanded⟩, untaken_exec hu fun _ hop => by cases hop⟩
  | authorizeOutboundProviderHandoff job =>
      obtain rfl : s = .held job := hallows
      obtain ⟨⟨c, hc, hholds⟩, hu⟩ := hs
      rcases commit_cases 0 env (.authorizeOutboundProviderHandoff job) db with
        ⟨e, hexec, -⟩ | ⟨outcome, db', htxn, hdb, -, hanswer⟩
      · rw [hexec]
        trivial
      · obtain hok | ⟨e, herror⟩ := hanswer
        · rw [hok, hdb]
          have heffect := txn_effect htxn
          have hrefused : (∀ a, outcome ≠ .authorized a) →
            Holding i job (⟨i, .authorizeOutboundProviderHandoff job, .ok outcome⟩ :: log) ∧
              Untaken db' job := by
            intro hnot
            refine ⟨⟨c, List.mem_cons_of_mem _ hc, hholds⟩, ?_⟩
            cases heffect with
            | idle => exact hu
            | handedOver | handedAgain | adopted => exact absurd rfl (hnot _)
          cases outcome with
          | authorized a =>
              obtain ⟨row, leasedUntil, m, run, hover⟩ := Bookkeeping.handedOver heffect
              obtain ⟨hm, hown, hrun, -⟩ := deliveryContext_some hover.may.owed
              have hcarries : Carries db a :=
                ⟨⟨m, hm, hown, hover.snapshot.symm⟩, run, hrun, hover.may.notRecordOnly⟩
              have hafter := @carries_exec _ (.authorizeOutboundProviderHandoff job)
                _ env _ h.fresh hcarries
              rw [hdb] at hafter
              exact ⟨sendContext_job hover.may.names, hafter⟩
          | recordOnly r => exact hrefused fun a hne => by cases hne
          | active reason => exact hrefused fun a hne => by cases hne
        · rw [herror]
          trivial
  | send a =>
      obtain ⟨job, rfl⟩ := hallows
      obtain ⟨hmail, -⟩ := hs
      cases hx : (exec env (.send a) db).1 with
      | error e => trivial
      | ok answer => exact ⟨hmail, _, List.mem_cons_self, rfl⟩
  | _ => exact hkept (fun _ hop => by cases hop) hs

theorem Ledger.other (h : Ledger before n db log) (hs : Stands i s db log)
    (hallows : course.allows s op) (hne : j ≠ i)
    (ht : Stands j t db log) : Stands j t (exec env op db).2 (⟨i, op, (exec env op db).1⟩ :: log) := by
  have hforeign : ∀ {job}, Holding j job log → Untaken db job → Untaken (exec env op db).2 job := by
    rintro job ⟨c, hc, hthread, hjob⟩ hu
    refine untaken_exec hu fun job' hop hsame => ?_
    subst hop
    obtain ⟨c', hc', hthread', hjob', -⟩ := h.taker hs hallows
    exact hne (hthread.symm.trans ((h.distinct c hc c' hc' job job' hjob hjob' hsame.symm).trans hthread'))
  cases t with
  | idle | failed => trivial
  | held job | refused job =>
      obtain ⟨hholds, hu⟩ := ht
      refine ⟨?_, hforeign hholds hu⟩
      obtain ⟨c, hc, hholds⟩ := hholds
      exact ⟨c, List.mem_cons_of_mem _ hc, hholds⟩
  | granted job a => exact ⟨ht.1, carries_exec h.fresh ht.2⟩
  | accepted job a =>
      obtain ⟨hmail, c, hc, ha⟩ := ht
      exact ⟨hmail, c, List.mem_cons_of_mem _ hc, ha⟩

omit [PyText] in
theorem Opening.ledger (h : Opening before db) : Ledger before 0 db [] where
  fresh := h.fresh
  threads _ hc := absurd hc List.not_mem_nil
  drawn _ hc := absurd hc List.not_mem_nil
  distinct _ hc := absurd hc List.not_mem_nil
  handoffs := h.handoffs
  requests _ hc := absurd hc List.not_mem_nil
  proven e m hm hsent := .earlier (h.sent e m hm hsent)

theorem kept (before : Uuid → Prop) :
    World.Kept caller thread World.Rules.any (Opening before) course .idle (Ledger before)
    fun i s db log => Stands i s db log where
  init _ h := h.ledger
  follows k _ := SendCourse.thread_follows k
  fresh _ _ _ h := ⟨{ h with threads := fun c hc => (h.threads c hc).trans (Nat.lt_succ_self _) },
    trivial⟩
  shared _ _ _ _ _ _ _ hi hG hs hallows _ := hG.shared hi hs hallows
  own _ _ _ _ _ _ _ _ hG hs hallows _ := hG.own hs hallows
  other _ _ _ _ _ _ _ _ hG hs hallows _ _ _ hne ht := hG.other hs hallows hne ht

/-- `sent` is a proof of delivery: the provider accepted a request with the very
message, unless it was sent before the history or its run is record-only. A
record-only run makes no request. -/
theorem sent_proves {w : World Op Ans Exn Db Call}
    (hreach : World.Reach caller thread World.Rules.any (Opening before) w) :
    (∀ e m, w.data.outbound.get? e = some m → m.sendState = .sent → before e ∨
      (∃ run, w.data.runs.get? m.runId = some run ∧ run.recordOnly = true) ∨
      ∃ c ∈ w.log, ∃ a, accepted c = some a ∧ a.emailId = e ∧ a.snapshot = m.snapshot) ∧
    ∀ c ∈ w.log, ∀ a, c.op = .send a →
      (∃ m, w.data.outbound.get? a.emailId = some m ∧ m.runId = a.runId ∧ m.snapshot = a.snapshot) ∧
        ∃ run, w.data.runs.get? a.runId = some run ∧ run.recordOnly = false := by
  obtain ⟨hledger, -⟩ := (kept before).reach hreach
  refine ⟨fun e m hm hsent => ?_, fun c hc a ha => ?_⟩
  · cases hledger.proven e m hm hsent with
    | earlier h => exact .inl h
    | recorded hrun honly => exact .inr (.inl ⟨_, hrun, honly⟩)
    | @accepted c a hc ha hmail =>
        obtain ⟨m', hm', -, hsnapshot⟩ := (hledger.requests c hc a (op_of_accepted ha)).message
        rw [hmail, hm] at hm'
        obtain rfl := Option.some.inj hm'
        exact .inr (.inr ⟨c, hc, a, ha, hmail, hsnapshot.symm⟩)
  · have hcarries := hledger.requests c hc a ha
    exact ⟨hcarries.message, hcarries.run⟩

end

section Histories

attribute [local instance] asciiText

theorem opening_owedDb : Opening (fun _ => False) OwedSends.owedDb := by
  refine ⟨start_owedDb.fresh, fun k row hrow => ?_, fun e m hm hsent => ?_⟩
  · cases hrow
  · obtain ⟨-, rfl⟩ : e = 5 ∧ m = reservedMessage 2 .confirmation 7 := by
      simpa using Dict.get?_ofList_mem hm
    cases hsent

/-- The second request of the send is accepted. -/
theorem sent_proves_retried :
    ∃ m, (calledAfter OwedSends.owedDb sentTwice).data.outbound.get? 5 = some m ∧
      m.sendState = .sent ∧ ∃ c ∈ (calledAfter OwedSends.owedDb sentTwice).log,
        ∃ a, accepted c = some a ∧ a.emailId = 5 ∧ a.snapshot = m.snapshot := by
  have hreach : World.Reach caller thread World.Rules.any (Opening fun _ => False)
    (calledAfter OwedSends.owedDb sentTwice) :=
    (World.Reach.start opening_owedDb).steps_any sentTwice
  have hsent : ((calledAfter OwedSends.owedDb sentTwice).data.outbound.get? 5).any
    (fun m => m.sendState = .sent ∧ m.runId = 2) = true := by decide +kernel
  have hreal : ((calledAfter OwedSends.owedDb sentTwice).data.runs.get? 2).any
    (fun run => run.recordOnly) = false := by
    decide +kernel
  generalize calledAfter OwedSends.owedDb sentTwice = w at *
  obtain ⟨m, hm, hstate⟩ := (Option.any_eq_true _ _).mp hsent
  obtain ⟨hstate, hown⟩ := of_decide_eq_true hstate
  obtain hbefore | ⟨run, hrun, honly⟩ | ⟨c, hc, a, haccepted⟩ := (sent_proves hreach).1 5 m hm hstate
  · exact hbefore.elim
  · rw [hown] at hrun
    rw [hrun, Option.any_some, honly] at hreal
    cases hreal
  · exact ⟨m, hm, hstate, c, hc, a, haccepted⟩

end Histories

end PayrollAgent.ProofOfDelivery
