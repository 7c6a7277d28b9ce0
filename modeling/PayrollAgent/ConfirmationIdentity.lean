import PayrollAgent.Drives
import PayrollAgent.HandoffSteps
import PayrollAgent.MessageSteps

namespace PayrollAgent.ConfirmationIdentity

open Lib Repo Handlers Effects RunSteps Conduct FreshIds Drives Bookkeeping HandoffSteps MessageSteps

/-- The database with its unique indexes. -/
structure WellFormed (db : Db) : Prop where
  fresh : Fresh db
  slots : Slots db
  oneActive : OneActive db

def Stands (db : Db) (a : Authorization) : Prop :=
  ∃ m, db.outbound.get? a.emailId = some m ∧ a.runId = m.runId ∧ a.purpose = m.purpose ∧
    a.epoch = m.epoch ∧ a.snapshot = m.snapshot

structure Inv (db : Db) (log : List Note) : Prop extends WellFormed db where
  authorized : ∀ a, Note.authorized a ∈ log → Stands db a
  requested : ∀ i a, Note.requested i a ∈ log → Note.authorized a ∈ log

/-- A thread at work on a stored run, with authorizations it was told of. -/
structure AtWork (s : Work) (db : Db) (log : List Note) : Prop where
  known : Known s log
  working : Working s db

/-- What the transaction of an authorization found. -/
structure Authorizable (db : Db) (a : Authorization) (m : Outbound) (run : Run) : Prop where
  message : db.outbound.get? a.emailId = some m
  found : db.runs.get? a.runId = some run
  own : m.runId = a.runId
  purpose : m.purpose = a.purpose
  snapshot : m.snapshot = a.snapshot
  reserved : m.sendState = .reserved
  status : run.status = a.purpose.expectedStatus
  epoch : m.epoch = run.replyEpoch
  window : db.now < m.snapshot.notAfter

variable {s : Work} {op : Op} {answer : Ans op} {i : Nat} {db db' : Db} {log : List Note}
  {a : Authorization}

theorem Stands.frozen (h : Stands db a) (hstep : MessagesStep db db') : Stands db' a := by
  obtain ⟨m, hm, hrun, hpurpose, hepoch, hsnapshot⟩ := h
  obtain ⟨m', hm', hfrozen⟩ := hstep.stays hm
  exact ⟨m', hm', by rw [hrun, hfrozen.runId], by rw [hpurpose, hfrozen.purpose],
    by rw [hepoch, hfrozen.epoch], by rw [hsnapshot, hfrozen.snapshot]⟩

theorem snapshot_unique {b : Authorization} (hslots : Slots db) (ha : Stands db a) (hb : Stands db b)
    (hpurpose : a.purpose = .confirmation) (hpurpose' : b.purpose = .confirmation)
    (hrun : a.runId = b.runId) (hepoch : a.epoch = b.epoch) : a.snapshot = b.snapshot := by
  obtain ⟨m, hm, hmrun, hmpurpose, hmepoch, hmsnapshot⟩ := ha
  obtain ⟨m', hm', hmrun', hmpurpose', hmepoch', hmsnapshot'⟩ := hb
  have hround := hslots.confirmation _ m hm (by rw [← hmpurpose, hpurpose])
  have hround' := hslots.confirmation _ m' hm' (by rw [← hmpurpose', hpurpose'])
  have hsame : SameSlot m m' :=
    ⟨by rw [← hmrun, hrun, hmrun'], by rw [← hmpurpose, hpurpose, ← hmpurpose', hpurpose'],
      by rw [hround, hround'], by rw [← hmepoch, hepoch, hmepoch']⟩
  have hid := hslots.unique _ _ m m' hm hm' hsame
  rw [hid, hm'] at hm
  cases hm
  rw [hmsnapshot, hmsnapshot']

section

variable [PyText] {env : Env}

theorem messagesStep_of_allows (heffect : Effect env db op answer db') (hfresh : Fresh db)
    (hs : Working s db) (hop : s.allows op) : MessagesStep db db' := by
  refine messagesStep heffect hfresh fun r q hq => ?_
  subst hq
  exact ⟨hop.1.2, hs r (run_of_stageWrite hop rfl)⟩

theorem authorizable {job : Job}
    (h : Effect env db (.authorizeOutboundProviderHandoff job) (.authorized a) db') :
    ∃ m run, Authorizable db a m run := by
  obtain ⟨row, leasedUntil, m, run, hover⟩ := handedOver h
  obtain ⟨hm, hown, hrun, hreserved, hepoch, hstatus⟩ := deliveryContext_some hover.may.owed
  exact ⟨m, run, hm, hrun, hown, hover.purpose.symm, hover.snapshot.symm, hreserved,
    by rw [hstatus, hover.purpose], hepoch, hover.may.open'⟩

theorem stands_authorized {job : Job}
    (h : Effect env db (.authorizeOutboundProviderHandoff job) (.authorized a) db') : Stands db a := by
  obtain ⟨row, leasedUntil, m, run, hover⟩ := handedOver h
  obtain ⟨hm, hown, -⟩ := deliveryContext_some hover.may.owed
  exact ⟨m, hm, hown.symm, hover.purpose, hover.epoch, hover.snapshot⟩

theorem inv_exec (hinv : Inv db log) (hs : AtWork s db log) (hop : s.allows op) :
    Inv (exec env op db).2 (observe i env op db ++ log) := by
  apply exec_observed hinv
  intro answer db' htxn
  have heffect := txn_effect htxn
  have hmessages := messagesStep_of_allows heffect hinv.fresh hs.working hop
  refine ⟨⟨fresh_step heffect hinv.fresh, slots_step hmessages hinv.slots,
    oneActive_step heffect hinv.oneActive⟩, fun a ha => ?_, fun j a ha => ?_⟩
  · rcases List.mem_append.mp ha with ha | ha
    · cases noted (i := i) ha
      exact (stands_authorized heffect).frozen hmessages
    · exact (hinv.authorized a ha).frozen hmessages
  · rcases List.mem_append.mp ha with ha | ha
    · cases noted (i := i) ha
      exact List.mem_append_right _ (hs.known a hop.1)
    · exact List.mem_append_right _ (hinv.requested j a ha)

theorem preserved : World.Preserved machine thread World.Rules.any WellFormed conduct Work.fresh Inv
    (fun _ s db log => AtWork s db log) where
  init _ h := ⟨h, nofun, nofun⟩
  follows k _ := thread_follows k
  fresh _ _ _ _ := ⟨nofun, nofun⟩
  shared _ _ _ _ _ _ hinv hs hop _ := inv_exec hinv hs hop
  own _ _ _ _ _ _ hinv hs hop _ := ⟨known_own hs.known, working_own hinv.fresh hs.working hop⟩
  other _ _ _ _ _ _ hinv _ _ _ _ _ _ ht := ⟨ht.known.append _, working_other hinv.fresh ht.working⟩

/-- One identity for each confirmation, as a state of the world shows it. -/
structure OneIdentity (w : World Op Ans Exn Db Note) : Prop where
  /-- All requests of one confirmation carry the same message id and bytes. -/
  requests : ∀ i j a b, Note.requested i a ∈ w.log → Note.requested j b ∈ w.log →
    a.purpose = .confirmation → b.purpose = .confirmation → a.runId = b.runId → a.epoch = b.epoch →
    a.snapshot = b.snapshot
  /-- A handoff is authorized only for a message that is owed now. -/
  authorized : ∀ (e : Event Thread Env) i env op a, w.operation e = some (i, env, op) →
    Note.authorized a ∈ observe i env op w.data → ∃ m run, Authorizable w.data a m run
  oneActive : OneActive w.data
  /-- An epoch moves only where no handoff of the run is active. -/
  epoch : ∀ (e : Event Thread Env) r n, w.data.epochOf r = some n →
    activeHandoff (w.step machine thread e).data r ≠ none →
    (w.step machine thread e).data.epochOf r = some n

theorem epoch_exec {r : Uuid} {n : Nat} (hfresh : Fresh db) (hepoch : db.epochOf r = some n)
    (hactive : activeHandoff (exec env op db).2 r ≠ none) : (exec env op db).2.epochOf r = some n := by
  rcases exec_cases 0 env op db with ⟨e, hexec, -⟩ | ⟨answer, db', htxn, hdb, -⟩
  · rwa [hexec]
  · rw [hdb] at hactive ⊢
    obtain ⟨run, hrun, rfl⟩ := Option.map_eq_some_iff.mp hepoch
    obtain ⟨run', hrun', hstep⟩ := runStep (txn_effect htxn) hfresh.runs hrun
    rw [Db.epochOf, hrun', Option.map_some, epoch_of_active (txn_effect htxn) hstep hactive]

theorem one_identity {w : World Op Ans Exn Db Note}
    (hreach : World.Reach machine thread World.Rules.any WellFormed w) : OneIdentity w := by
  obtain ⟨hinv, -⟩ := preserved.reach hreach
  refine ⟨fun i j a b ha hb hpurpose hpurpose' hrun hepoch => ?_, fun e i env op a _ ha => ?_,
    hinv.oneActive, fun e r n hepoch hactive => ?_⟩
  · exact snapshot_unique hinv.slots (hinv.authorized a (hinv.requested i a ha))
      (hinv.authorized b (hinv.requested j b hb)) hpurpose hpurpose' hrun hepoch
  · rcases exec_cases i env op w.data with ⟨e, -, hobserve⟩ | ⟨answer, db', htxn, -, hnotes, -⟩
    · rw [hobserve] at ha
      cases ha
    · rw [hnotes] at ha
      have heffect := txn_effect htxn
      cases noted ha
      exact authorizable heffect
  · cases hop : w.operation e with
    | none => rwa [(World.step_of_none hop).1]
    | some x =>
        obtain ⟨i, env, op⟩ := x
        rw [(World.step_operation hop).1] at hactive ⊢
        exact epoch_exec hinv.fresh hepoch hactive

end

section Histories

attribute [local instance] asciiText

def approvalDb : Db :=
  { Db.empty with
    nextId := 10
    runs := .ofList [(2, { Run.created 1 3 0 with status := .awaitingApproval })] }

theorem wellFormed_approvalDb : WellFormed approvalDb := by
  have hout : ∀ i, approvalDb.outbound.get? i = none := fun _ => rfl
  have hhandoffs : ∀ i, approvalDb.handoffs.get? i = none := fun _ => rfl
  refine ⟨Fresh.of_keys (by decide), ⟨fun i j m m' hm => ?_, fun i m hm => ?_⟩,
    fun i j row row' hrow => ?_⟩
  · simp [hout] at hm
  · simp [hout] at hm
  · simp [hhandoffs] at hrow

/-- The confirmation is handed to the provider, which does not answer, and a
minute later once more. -/
def sentTwice : List (Event Thread Env) :=
  [.spawn (.approve 2), .run 0 { envelope := letter }, .spawn .worker, .run 1 { picked := 12 },
    .run 1 {}, .run 1 {}, .run 1 { fault := .after .timeout }, .run 1 {}, .spawn (.pass 100), .run 2 {},
    .spawn .worker, .run 3 { picked := 12 }, .run 3 {}, .run 3 {}, .run 3 {}]

def requestsBy (i : Nat) : Note → Bool
  | .requested j a => j = i ∧ a.runId = 2 ∧ a.purpose = .confirmation ∧ a.epoch = 0
  | _ => false

/-- The second request of the confirmation repeats the first one. -/
theorem one_identity_sent_twice : ∃ a b,
    Note.requested 1 a ∈ (worldAfter approvalDb sentTwice).log ∧
      Note.requested 3 b ∈ (worldAfter approvalDb sentTwice).log ∧ a.runId = 2 ∧ b.runId = 2 ∧
      a.snapshot = b.snapshot := by
  have hsafe := one_identity (reach_worldAfter wellFormed_approvalDb sentTwice)
  have hfirst : (worldAfter approvalDb sentTwice).log.any (requestsBy 1) := by decide +kernel
  have hsecond : (worldAfter approvalDb sentTwice).log.any (requestsBy 3) := by decide +kernel
  generalize worldAfter approvalDb sentTwice = w at *
  obtain ⟨n, hn, hby⟩ := List.any_eq_true.mp hfirst
  obtain ⟨n', hn', hby'⟩ := List.any_eq_true.mp hsecond
  cases n with
  | requested j a =>
      cases n' with
      | requested j' b =>
          simp only [requestsBy, decide_eq_true_eq] at hby hby'
          obtain ⟨rfl, hrun, hpurpose, hepoch⟩ := hby
          obtain ⟨rfl, hrun', hpurpose', hepoch'⟩ := hby'
          exact ⟨a, b, hn, hn', hrun, hrun', hsafe.requests 1 3 a b hn hn' hpurpose hpurpose'
            (by rw [hrun, hrun']) (by rw [hepoch, hepoch'])⟩
      | _ => cases hby'
  | _ => cases hby

end Histories

end PayrollAgent.ConfirmationIdentity
