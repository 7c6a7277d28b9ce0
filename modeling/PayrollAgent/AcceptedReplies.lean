import PayrollAgent.ReplyLeases
import PayrollAgent.ReplyTurns
import PayrollAgent.WageBase

namespace PayrollAgent.AcceptedReplies

open Lib Repo AliasLearning Handlers Ingest Effects FreshIds NewJobs EmailSteps RunSteps Commits
  ReplyReads ReplyLeases ReplyTurns

structure Accepted (c : Commit) (j r e : Uuid) : Prop where
  new : c.before.jobs.get? j = none
  row : ∃ row, c.after.jobs.get? j = some row ∧ row.kind = .resumeReply ∧ row.runId = some r ∧
    row.emailId = some e
  awaiting : c.before.statusOf r = some .awaitingReply

def Consumed (db : Db) (e : Uuid) : Prop := ∃ m, db.inbound.get? e = some m ∧
    m.consumedRound.isSome = true

def Open (db : Db) (j : Uuid) : Prop := ∃ row, db.jobs.get? j = some row ∧ isOpen row = true

def isQuery : Op → Bool
  | .query => true
  | _ => false

def readsSince (i : Nat) (log : List Commit) : Nat :=
  ((log.takeWhile fun c => (leaseBy i c).isNone).filter fun c => c.thread = i && isQuery c.op).length

/-- The commit, after the commits `older`, leaves the reply of a job unread for
good. Its worker found the gate shut at its second read, lost the run, or failed
it, or its last lease ran out. -/
inductive TurnsAway (j r : Uuid) (older : List Commit) (c : Commit) : Prop
  | shut {job : Job} {run : Run} (hlease : leaseOf c.thread older = some job) (hid : job.id = j)
      (hop : c.op = .query)
      (hreads : readsSince c.thread older = 1) (hrun : c.before.runs.get? r = some run)
      (hgate : gateOpen job .awaitingReply run.status = false)
  | lost {job : Job} {expected new : RunStatus} (hlease : leaseOf c.thread older = some job)
      (hid : job.id = j)
      (hop : c.op = .claimStatus r expected new) (hstatus : c.before.statusOf r ≠ some expected)
  | passed {job : Job} {status : RunStatus} (hlease : leaseOf c.thread older = some job)
      (hid : job.id = j)
      (hop : c.op = .rewindForReclaim r) (hstatus : c.before.statusOf r = some status)
      (hrewinds : status ∉ rewindStatuses)
  | failed {job : Job} {result : PipelineResult} (hid : job.id = j)
      (hop : c.op = .settlePipelineJob job result)
      (hresult : result.outcome ≠ .ok) (hstatus : c.after.statusOf r = some .error)
  | reaped {row : JobRow} (hop : c.op = .reapExpiredFinalAttempt) (hrow : c.before.jobs.get? j = some row)
      (hreap : reapable c.before.now row = true)

def TurnedAway (j r : Uuid) (log : List Commit) : Prop :=
  ∃ newer c older, log = newer ++ c :: older ∧ TurnsAway j r older c

def Authorized (db : Db) (r : Uuid) (mail : InboundMail) : Prop :=
  ∃ run, db.runs.get? r = some run ∧ replySenderOk db mail run = true

/-- What stays of the job of an accepted reply and of its mail. -/
structure Reply (db : Db) (j r e : Uuid) : Prop where
  row : ∃ row, db.jobs.get? j = some row ∧ row.kind = .resumeReply ∧ row.runId = some r ∧
    row.emailId = some e
  mail : ∃ m, db.inbound.get? e = some m ∧ m.runId = some r ∧ Authorized db r m.mail

def Mails (db : Db) (e : Uuid) (row : Inbound) : Prop :=
  ∃ m, db.inbound.get? e = some m ∧ m.mail = row.mail ∧ m.runId = row.runId

def Standing (i : Nat) (db : Db) (log : List Commit) (job : Job) (r e : Uuid) : Turn → Prop
  | .holding => readsSince i log = 0
  | .found row => readsSince i log = 1 ∧ Mails db e row
  | .opened row => Mails db e row
  | .entered row => Mails db e row
  | .claimed row => Mails db e row
  | .read => Consumed db e
  | .refused => TurnedAway job.id r log
  | .failed => True

def Serves (i : Nat) (s : Service) (db : Db) (log : List Commit) : Prop :=
  ∀ job, s.lease = some job → leaseOf i log = some job ∧ Copied job db ∧
    ∀ c ∈ log, ∀ r e, Accepted c job.id r e → Standing i db log job r e s.turn

/-- Every accepted reply is read, or its job is open, or it was turned away. -/
structure Kept (db : Db) (log : List Commit) : Prop where
  fresh : Fresh db
  reply : ∀ c ∈ log, ∀ j r e, Accepted c j r e → Reply db j r e
  kept : ∀ c ∈ log, ∀ j r e, Accepted c j r e → Consumed db e ∨ Open db j ∨ TurnedAway j r log

variable {db db' : Db} {op : Op} {a : Ans op} {env : Env} {i j r e : Uuid} {job : Job}
    {row row' : JobRow} {m : Inbound} {log : List Commit} {c : Commit} {result : PipelineResult}

theorem TurnedAway.cons (h : TurnedAway j r log) (c : Commit) : TurnedAway j r (c :: log) := by
  obtain ⟨newer, c', older, rfl, haway⟩ := h
  exact ⟨c :: newer, c', older, rfl, haway⟩

theorem TurnsAway.turned (h : TurnsAway j r log c) : TurnedAway j r (c :: log) := ⟨[], c, log, rfl, h⟩

theorem readsSince_claim (h : leaseBy i c = some job) : readsSince i (c :: log) = 0 := by
  simp [readsSince, h]

theorem readsSince_cons (h : leaseBy i c = none) :
    readsSince i (c :: log) = (if c.thread = i ∧ isQuery c.op = true then 1 else 0) + readsSince i
    log := by
  by_cases hread : c.thread = i ∧ isQuery c.op = true
  · simp [readsSince, h, hread, Nat.add_comm]
  · simp [readsSince, h, hread]

section

variable [PyText]

omit [PyText] in
theorem Open.of_state (hrow : db.jobs.get? j = some row)
    (h : row.state = .pending ∨ row.state = .leased) : Open db j := by
  refine ⟨row, hrow, ?_⟩
  obtain h | h := h <;> simp [isOpen, h]

theorem consumed_stays (h : Consumed db e) (htxn : txn env op db = .ok (a, db'))
    (hfresh : Fresh db) : Consumed db' e := by
  obtain ⟨m, hm, hround⟩ := h
  cases inboundWrite htxn with
  | same hsame => exact ⟨m, by rw [hsame, hm], hround⟩
  | consumed hmarked =>
      refine ⟨_, by rw [hmarked, markReplyConsumed, Dict.get?_updateWhere, hm, Option.map_some], ?_⟩
      split
      · rfl
      · exact hround
  | stored hstored =>
      have hne : e ≠ db.nextId := Nat.ne_of_lt (hfresh.inbound.lt hm)
      exact ⟨m, by rw [hstored e, if_neg hne, hm], hround⟩

omit [PyText] in
theorem consumed_mark (hm : db.inbound.get? e = some m) (round : Nat) :
    Consumed (markReplyConsumed m.mail.messageId round db) e := by
  refine ⟨_, by rw [markReplyConsumed, Dict.get?_updateWhere, hm, Option.map_some], ?_⟩
  by_cases hread : m.consumedRound = none
  · simp [hread]
  · simp [hread, Option.isSome_iff_ne_none]

omit [PyText] in
theorem statusOf_setRunError {reason : ErrorReason} {detail : ErrorDetail} {expected : RunStatus}
    (h : (setRunError r reason detail expected db).1 = true) :
    (setRunError r reason detail expected db).2.statusOf r = some .error := by
  unfold setRunError at h ⊢
  split
  next hstatus =>
    obtain ⟨run, hrun, -⟩ := Option.map_eq_some_iff.mp hstatus
    rw [Db.statusOf, Db.modifyRun_runs, Dict.get?_modify_self hrun, Option.map_some]
  next hstatus => simp [hstatus] at h

omit [PyText] in
theorem settleRunError_reply {reason : ErrorReason} {attempts : Option (Nat × Nat)} {state : JobState}
    {outcome : SettlementOutcome} (hrow : db.jobs.get? job.id = some row) (hopen : isOpen row = true) :
    Open (settleRunError job result r reason attempts state outcome db).2 job.id ∨
      (settleRunError job result r reason attempts state outcome db).2.statusOf r = some .error := by
  unfold settleRunError
  split
  next db₁ hset =>
    have hstatus := @statusOf_setRunError db r reason
      (.diagnostic result.stage result.reason attempts) .extracting (by rw [hset])
    rw [hset] at hstatus
    exact Or.inr hstatus
  next db₁ hset =>
    have hsame := setRunError_jobs r reason (.diagnostic result.stage result.reason attempts)
      .extracting db
    rw [hset] at hsame
    exact Or.inl ⟨row, (congrArg (Dict.get? · job.id) hsame).trans hrow, hopen⟩

omit [PyText] in
theorem rewindRun_jobs (r : Uuid) (db : Db) : (rewindRun r db).2.jobs = db.jobs := by
  unfold rewindRun Repo.claimStatus
  split <;> rfl

omit [PyText] in
/-- A settlement closes the job of a run as done, or with its run in error. -/
theorem settleRunJob_reply {backoff : Nat} (hrow : db.jobs.get? job.id = some row)
    (hopen : isOpen row = true) :
    Open (settleRunJob job result row r backoff db).2 job.id ∨ result.outcome = .ok ∨
      result.outcome ≠ .ok ∧ (settleRunJob job result row r backoff db).2.statusOf r = some .error := by
  unfold settleRunJob
  cases houtcome : result.outcome with
  | ok => exact Or.inr (Or.inl rfl)
  | terminal =>
      obtain hopen' | herror := settleRunError_reply hrow hopen
      · exact Or.inl hopen'
      · exact Or.inr (Or.inr ⟨nofun, herror⟩)
  | retryable =>
      dsimp only
      split
      · split
        next db₁ hrewind =>
          have hsame := rewindRun_jobs r db
          rw [hrewind] at hsame
          have hpending : (retryJob job.id backoff result db₁).jobs.get? job.id =
              some (unlease row .pending (db₁.now + backoff) (diagnosticCode result) db₁.now) :=
            Dict.get?_modify_self ((congrArg (Dict.get? · job.id) hsame).trans hrow) _
          exact Or.inl (.of_state hpending (Or.inl rfl))
        next db₁ hrewind =>
          have hsame := rewindRun_jobs r db
          rw [hrewind] at hsame
          exact Or.inl ⟨row, (congrArg (Dict.get? · job.id) hsame).trans hrow, hopen⟩
      · obtain hopen' | herror := settleRunError_reply hrow hopen
        · exact Or.inl hopen'
        · exact Or.inr (Or.inr ⟨nofun, herror⟩)

omit [PyText] in
theorem settlePipelineJob_reply {backoff : Nat} (hrow : db.jobs.get? job.id = some row)
    (hkind : row.kind = .resumeReply) (hrun : row.runId = some r) (hopen : isOpen row = true) :
    Open (settlePipelineJob job result backoff db).2 job.id ∨ result.outcome = .ok ∨
      result.outcome ≠ .ok ∧ (settlePipelineJob job result backoff db).2.statusOf r = some .error := by
  have hsame : Open db job.id := ⟨row, hrow, hopen⟩
  unfold settlePipelineJob
  cases hlocked : lockedJob db job with
  | none => exact Or.inl hsame
  | some row₀ =>
      obtain rfl := Option.some.inj ((JobSteps.lockedJob_some hlocked).1.symm.trans hrow)
      have hnotIngest : row₀.kind ≠ .ingest := by simp [hkind]
      dsimp only
      by_cases hother : row₀.kind ≠ job.kind
      · rw [if_pos hother]
        exact Or.inl hsame
      · rw [if_neg hother, if_neg hnotIngest, hrun]
        dsimp only
        by_cases hown : job.runId = some r
        · rw [if_pos hown]
          exact settleRunJob_reply hrow hopen
        · rw [if_neg hown]
          exact Or.inl hsame

theorem authorized_step {mail : InboundMail} (h : Authorized db r mail) (heffect : Effect env db op a db')
    (hfresh : Fresh db) : Authorized db' r mail := by
  obtain ⟨run, hrun, hsender⟩ := h
  obtain ⟨run', hrun', hbusiness⟩ := (WageBase.older_step heffect hfresh).business r run hrun
  refine ⟨run', hrun', ?_⟩
  simp only [replySenderOk, decide_eq_true_eq] at hsender ⊢
  rw [RunWrites.senders_kept heffect, hbusiness, hsender]

theorem Reply.step (h : Reply db j r e) (htxn : txn env op db = .ok (a, db')) (hfresh : Fresh db) :
    Reply db' j r e := by
  obtain ⟨⟨row, hrow, hkind, hrun, hmail⟩, ⟨m, hm, hlinked, hsender⟩⟩ := h
  have heffect := txn_effect htxn
  obtain ⟨row', hrow', hsame⟩ := (JobKeys.jobsWrite heffect hfresh).stays hrow
  obtain ⟨m', hm', hmail', hrun', -⟩ := (inboundWrite htxn).stays hfresh hm
  constructor
  · exact ⟨row', hrow', hsame.kind.trans hkind, hsame.runId.trans hrun, hsame.emailId.trans hmail⟩
  · refine ⟨m', hm', hrun'.trans hlinked, ?_⟩
    rw [hmail']
    exact authorized_step hsender heffect hfresh

theorem Mails.step {row : Inbound} (h : Mails db e row) (htxn : txn env op db = .ok (a, db'))
    (hfresh : Fresh db) : Mails db' e row := by
  obtain ⟨m, hm, hmail, hrun⟩ := h
  obtain ⟨m', hm', hmail', hrun', -⟩ := (inboundWrite htxn).stays hfresh hm
  exact ⟨m', hm', hmail'.trans hmail, hrun'.trans hrun⟩

theorem reply_new (hc : Accepted ⟨i, op, a, db, db'⟩ j r e) (htxn : txn env op db = .ok (a, db'))
    (hfresh : Fresh db) : Reply db' j r e ∧ Open db' j := by
  obtain ⟨hnew, ⟨row, hrow, hkind, hrun, hmail⟩, -⟩ := hc
  have heffect := txn_effect htxn
  have hopen : Open db' j := by
    obtain hold | henqueued := (jobsGrow heffect).jobs j row hrow
    · rw [hnew] at hold
      cases hold
    · exact .of_state hrow (Or.inl henqueued.state)
  refine ⟨?_, hopen⟩
  by_cases hop : ∃ mail, op = .ingestEmail mail
  · obtain ⟨mail, rfl⟩ := hop
    obtain ⟨r', e', m, hreply, hsender⟩ : ∃ r e m, NewReply db db' mail row r e m ∧
      Authorized db r m.mail := by
      obtain ⟨-, rfl⟩ := Prod.mk.inj (Except.ok.inj htxn)
      exact newReply_authorized mail _ _ hnew hrow hkind
    obtain rfl := Option.some.inj (hreply.runId.symm.trans hrun)
    obtain rfl := Option.some.inj (hreply.emailId.symm.trans hmail)
    refine ⟨⟨row, hrow, hkind, hrun, hmail⟩, ⟨m, hreply.stored, hreply.linked, ?_⟩⟩
    exact authorized_step hsender heffect hfresh
  · have hold := (noReply heffect fun mail h => hop ⟨mail, h⟩).old j row hrow hkind
    rw [hnew] at hold
    cases hold

theorem Standing.other {turn : Turn} (h : Standing i db log job r e turn)
    (htxn : txn env op db = .ok (a, db'))
    (hfresh : Fresh db) (hreads : readsSince i (c :: log) = readsSince i log) :
    Standing i db' (c :: log) job r e turn := by
  cases turn with
  | holding => exact hreads.trans h
  | found row => exact ⟨hreads.trans h.1, h.2.step htxn hfresh⟩
  | opened row => exact Mails.step h htxn hfresh
  | entered row => exact Mails.step h htxn hfresh
  | claimed row => exact Mails.step h htxn hfresh
  | read => exact consumed_stays h htxn hfresh
  | refused => exact TurnedAway.cons h c
  | failed => trivial

omit [PyText] in
theorem standing_swapped {next : Turn} {won : Bool} {r' : Uuid} (hrun : job.runId = some r)
    (hwon : won = true → Standing i db' (c :: log) job r e next)
    (hlost : won = false → r' = r → TurnsAway job.id r log c) :
    Standing i db' (c :: log) job r e (swapped job r' won next) := by
  unfold swapped
  split
  next hown =>
    obtain rfl := Option.some.inj (hown.symm.trans hrun)
    cases won with
    | true => exact hwon rfl
    | false => exact (hlost rfl rfl).turned
  · trivial

omit [PyText] in
theorem claim_lost {expected new : RunStatus} (h : (Repo.claimStatus r expected new db).1 = false) :
    db.statusOf r ≠ some expected := by
  intro hstatus
  simp [Repo.claimStatus, hstatus] at h

omit [PyText] in
theorem rewind_lost {status : RunStatus} (hstatus : db.statusOf r = some status)
    (h : (Repo.rewindForReclaim r db).1 = false) : status ∉ rewindStatuses := by
  intro hrewinds
  simp [Repo.rewindForReclaim, hstatus, hrewinds] at h

omit [PyText] in
theorem next_opened {row : Inbound} {r' : Uuid} {expected new : RunStatus}
    (h : ¬ (expected = .awaitingReply ∧ new = .received))
    (x : Except Exn (Ans (.claimStatus r' expected new))) :
    Turn.next job (.opened row) (.claimStatus r' expected new) x = .failed := by
  unfold Turn.next
  split <;> simp_all

omit [PyText] in
theorem next_entered {row : Inbound} {r' : Uuid} {expected new : RunStatus}
    (h : ¬ (expected = .received ∧ new = .extracting))
    (x : Except Exn (Ans (.claimStatus r' expected new))) :
    Turn.next job (.entered row) (.claimStatus r' expected new) x = .failed := by
  unfold Turn.next
  split <;> simp_all

omit [PyText] in
theorem next_error {turn : Turn} (hread : turn ≠ .read) (hrefused : turn ≠ .refused) (x : Exn) :
    turn.next job op (.error x) = .failed := by
  unfold Turn.next
  split <;> simp_all

omit [PyText] in
/-- A call that fails ends the worker, unless the reply was read or turned away. -/
theorem standing_error {turn : Turn} {log' : List Commit} (h : Standing i db log job r e turn)
    (hconsumed : Consumed db e → Consumed db' e)
    (hturned : TurnedAway job.id r log → TurnedAway job.id r log') (x : Exn) :
    Standing i db' log' job r e (turn.next job op (.error x)) := by
  by_cases hread : turn = .read
  · subst hread
    exact hconsumed h
  · by_cases hrefused : turn = .refused
    · subst hrefused
      exact hturned h
    · rw [next_error hread hrefused]
      trivial

omit [PyText] in
theorem standing_admitted {row : Inbound} (hreply : Reply db job.id r e) (hrun : job.runId = some r)
    (hmails : Mails db e row)
    (hturned : ∀ run, db.runs.get? r = some run → gateOpen job .awaitingReply run.status = false →
      TurnsAway job.id r log c) : Standing i db (c :: log) job r e (admitted job row db) := by
  obtain ⟨m, hm, hmail, hlinked⟩ := hmails
  obtain ⟨m', hm', hlinked', run, hstored, hsender⟩ := hreply.mail
  obtain rfl := Option.some.inj (hm.symm.trans hm')
  have hown : row.runId = job.runId ∧ replySenderOk db row.mail run = true := by
    rw [← hlinked, hlinked', hrun, ← hmail]
    exact ⟨rfl, hsender⟩
  rw [admitted, hrun, Option.bind_some, hstored, ← hrun]
  dsimp only
  rw [if_pos hown]
  by_cases hgate : gateOpen job .awaitingReply run.status = true
  · rw [if_pos hgate]
    split <;> exact ⟨m, hm, hmail, hlinked⟩
  · rw [if_neg hgate]
    exact (hturned run hstored (by simpa using hgate)).turned

theorem standing_own {turn : Turn} (h : Standing i db log job r e turn) (hreply : Reply db job.id r e)
    (hlease : leaseOf i log = some job) (hrun : job.runId = some r) (hmail : job.emailId = some e)
    (hop : op ≠ .claimJob) (htxn : txn env op db = .ok (a, db')) (hfresh : Fresh db) :
    Standing i db' (⟨i, op, a, db, db'⟩ :: log) job r e (turn.next job op (.ok a)) := by
  have hleases : leaseBy i ⟨i, op, a, db, db'⟩ = none :=
    (if_pos rfl).trans (ReplyReads.leasedBy_none hop _)
  obtain ⟨m, hm, hlinked, run, hstored, hsender⟩ := hreply.mail
  have hstatus : db.statusOf r = some run.status := by rw [Db.statusOf, hstored, Option.map_some]
  cases turn with
  | holding =>
      cases op with
      | query =>
          cases htxn
          change Standing i db _ job r e ((job.emailId.bind db.inbound.get?).elim .refused .found)
          rw [hmail, Option.bind_some, hm, Option.elim_some]
          refine ⟨?_, m, hm, rfl, rfl⟩
          rw [readsSince_cons hleases, if_pos ⟨rfl, rfl⟩]
          exact congrArg (1 + ·) h
      | _ => trivial
  | found row =>
      cases op with
      | query =>
          cases htxn
          exact standing_admitted hreply hrun h.2 fun run hstored hgate =>
            .shut hlease rfl rfl h.1 hstored hgate
      | _ => trivial
  | opened row =>
      cases op with
      | claimStatus r' expected new =>
          by_cases hgate : expected = .awaitingReply ∧ new = .received
          · obtain ⟨rfl, rfl⟩ := hgate
            refine standing_swapped hrun (fun _ => Mails.step h htxn hfresh) ?_
            rintro rfl rfl
            exact .lost hlease rfl rfl (claim_lost (congrArg Prod.fst (Except.ok.inj htxn)))
          · rw [next_opened hgate]
            trivial
      | rewindForReclaim r' =>
          refine standing_swapped hrun (fun _ => Mails.step h htxn hfresh) ?_
          rintro rfl rfl
          exact .passed hlease rfl rfl hstatus
            (rewind_lost hstatus (congrArg Prod.fst (Except.ok.inj htxn)))
      | _ => trivial
  | entered row =>
      cases op with
      | claimStatus r' expected new =>
          by_cases hgate : expected = .received ∧ new = .extracting
          · obtain ⟨rfl, rfl⟩ := hgate
            refine standing_swapped hrun (fun _ => Mails.step h htxn hfresh) ?_
            rintro rfl rfl
            exact .lost hlease rfl rfl (claim_lost (congrArg Prod.fst (Except.ok.inj htxn)))
          · rw [next_entered hgate]
            trivial
      | _ => trivial
  | claimed row =>
      cases op with
      | query => exact Mails.step h htxn hfresh
      | markReplyConsumed messageId round =>
          change Standing i db' _ job r e (if messageId = row.mail.messageId then .read else .failed)
          split
          next hid =>
            cases htxn
            obtain ⟨m', hm', hmail', -⟩ := h
            rw [hid, ← hmail']
            exact consumed_mark hm' round
          · trivial
      | _ => trivial
  | read => exact consumed_stays h htxn hfresh
  | refused => exact TurnedAway.cons h _
  | failed => trivial

omit [PyText] in
theorem names_of_copied (hreply : Reply db job.id r e) (hcopied : Copied job db) :
    job.kind = .resumeReply ∧ job.runId = some r ∧ job.emailId = some e := by
  obtain ⟨row, hrow, hkind, hrun, hmail⟩ := hreply.row
  obtain ⟨⟨row', hrow', hkind', hrun', hmail'⟩, -⟩ := hcopied
  obtain rfl := Option.some.inj (hrow.symm.trans hrow')
  exact ⟨hkind'.symm.trans hkind, hrun'.symm.trans hrun, hmail'.symm.trans hmail⟩

omit [PyText] in
theorem not_new_of_copied (hcopied : Copied job db) : ¬ Accepted ⟨i, op, a, db, db'⟩ job.id r e := by
  rintro ⟨hnew, -, -⟩
  obtain ⟨⟨row, hrow, -⟩, -⟩ := hcopied
  change db.jobs.get? job.id = none at hnew
  rw [hrow] at hnew
  cases hnew

/-- An open job of an accepted reply is closed when the reply was read, or it is
turned away. -/
theorem open_step {s : Service} (hG : Kept db log) (hJ : Serves i s db log) (hop : s.allows op)
    (htxn : txn env op db = .ok (a, db')) (hc : c ∈ log) (haccepted : Accepted c j r e)
    (hopen : Open db j) :
    Consumed db' e ∨ Open db' j ∨ TurnedAway j r (⟨i, op, a, db, db'⟩ :: log) := by
  have hreply := hG.reply c hc j r e haccepted
  have heffect := txn_effect htxn
  obtain ⟨row, hrow, hisopen⟩ := hopen
  obtain ⟨row₀, hrow₀, hkind, hrun, -⟩ := hreply.row
  obtain rfl := Option.some.inj (hrow.symm.trans hrow₀)
  obtain ⟨row', hrow', hstep⟩ := JobSteps.jobStep heffect hG.fresh hrow
  have hopened : row'.state = .pending ∨ row'.state = .leased → Open db' j := .of_state hrow'
  have hnotSend : ∀ {job : Job}, s.lease = some job ∧ job.kind = .sendOutbound → job.id ≠ j := by
    rintro job ⟨hlease, hsend⟩ rfl
    have hnames := names_of_copied hreply (hJ job hlease).2.1
    rw [hsend] at hnames
    cases hnames.1
  cases hstep with
  | kept => exact Or.inr (Or.inl ⟨row, hrow', hisopen⟩)
  | leased hpicked hclaim => exact Or.inr (Or.inl (hopened (Or.inr rfl)))
  | reapedInvalid hpicked hreap => exact Or.inr (Or.inr (TurnsAway.reaped rfl hrow hreap).turned)
  | reapedReview howned hnone hafter hunleased hreap =>
      exact Or.inr (Or.inr (TurnsAway.reaped rfl hrow hreap).turned)
  | reapedOther hother hunleased hreap => exact Or.inr (Or.inr (TurnsAway.reaped rfl hrow hreap).turned)
  | retired hid => exact absurd hid (hnotSend hop)
  | settled hid => exact absurd hid (hnotSend hop)
  | released => exact Or.inr (Or.inl (hopened (Or.inl rfl)))
  | advanced hstate => exact Or.inr (Or.inl (hopened (Or.inl hstate)))
  | @closed job result outcome row' state hid hlocked =>
      obtain ⟨hlease, hsettles⟩ := hop
      subst hid
      obtain ⟨hlast, hcopied, hstands⟩ := hJ job hlease
      have hnames := names_of_copied hreply hcopied
      have hsettled : (settlePipelineJob job result env.backoff db).2 = db' :=
        congrArg Prod.snd (Except.ok.inj htxn)
      obtain hstays | hok | ⟨hfails, herror⟩ :=
        @settlePipelineJob_reply db r job row result env.backoff hrow hkind hrun hisopen
      · rw [hsettled] at hstays
        exact Or.inr (Or.inl hstays)
      · have hstanding := hstands c hc r e haccepted
        obtain hread | hrefused := hsettles hnames.1 hok
        · rw [hread] at hstanding
          exact Or.inl (consumed_stays hstanding htxn hG.fresh)
        · rw [hrefused] at hstanding
          exact Or.inr (Or.inr (TurnedAway.cons hstanding _))
      · rw [hsettled] at herror
        exact Or.inr (Or.inr (TurnsAway.failed rfl rfl hfails herror).turned)

theorem kept_step {s : Service} (hG : Kept db log) (hJ : Serves i s db log) (hop : s.allows op)
    (htxn : txn env op db = .ok (a, db')) : Kept db' (⟨i, op, a, db, db'⟩ :: log) := by
  constructor
  · exact fresh_step (txn_effect htxn) hG.fresh
  · intro c hc j r e haccepted
    obtain rfl | hc := List.mem_cons.mp hc
    · exact (reply_new haccepted htxn hG.fresh).1
    · exact (hG.reply c hc j r e haccepted).step htxn hG.fresh
  · intro c hc j r e haccepted
    obtain rfl | hc := List.mem_cons.mp hc
    · exact Or.inr (Or.inl (reply_new haccepted htxn hG.fresh).2)
    · obtain hread | hopen | hturned := hG.kept c hc j r e haccepted
      · exact Or.inl (consumed_stays hread htxn hG.fresh)
      · exact open_step hG hJ hop htxn hc haccepted hopen
      · exact Or.inr (Or.inr (hturned.cons _))

theorem serves_claim {s : Service} {a : Ans .claimJob} (hop : s.allows .claimJob)
    (htxn : txn env .claimJob db = .ok (a, db')) {x : Except Exn (Ans .claimJob)}
    (hx : x = .ok a ∨ ∃ e, x = .error e) :
    Serves i (s.next .claimJob x) db' (⟨i, .claimJob, a, db, db'⟩ :: log) := by
  have hnone : ∀ (x : Except Exn (Ans .claimJob)), leasedBy .claimJob x = none →
    (s.next .claimJob x).lease = none := by
    intro x hx
    rw [Service.next, hx]
    exact hop
  have hidle : leasedBy .claimJob x = none → Serves i (s.next .claimJob x) db'
    (⟨i, .claimJob, a, db, db'⟩ :: log) := by
    intro hleases job hjob
    rw [hnone x hleases] at hjob
    cases hjob
  obtain rfl | ⟨e, rfl⟩ := hx
  · cases a with
    | none => exact hidle rfl
    | some job =>
        have hleases : leaseBy i ⟨i, .claimJob, some job, db, db'⟩ = some job := if_pos rfl
        rintro job' hjob'
        obtain rfl := Option.some.inj hjob'
        refine ⟨leaseOf_claim hleases, copied_claim (txn_effect htxn), fun c hc r e haccepted => ?_⟩
        exact readsSince_claim hleases
  · exact hidle rfl

theorem serves_own {s : Service} (hG : Kept db log) (hJ : Serves i s db log) (hop : s.allows op)
    (htxn : txn env op db = .ok (a, db')) {x : Except Exn (Ans op)} (hx : x = .ok a ∨ ∃ e, x = .error e) :
    Serves i (s.next op x) db' (⟨i, op, a, db, db'⟩ :: log) := by
  by_cases hclaim : op = .claimJob
  · subst hclaim
    exact serves_claim hop htxn hx
  · intro job hjob
    have hlease : s.lease = some job := by
      rw [Service.next, ReplyReads.leasedBy_none hclaim] at hjob
      exact hjob
    obtain ⟨hlast, hcopied, hstands⟩ := hJ job hlease
    have hleases : leaseBy i ⟨i, op, a, db, db'⟩ = none :=
      (if_pos rfl).trans (ReplyReads.leasedBy_none hclaim _)
    refine ⟨(leaseOf_cons hleases).trans hlast, hcopied.step (txn_effect htxn) hG.fresh, ?_⟩
    intro c hc r e haccepted
    rw [next_of_lease hlease hclaim]
    obtain rfl | hc := List.mem_cons.mp hc
    · exact absurd haccepted (not_new_of_copied hcopied)
    · have hreply := hG.reply c hc job.id r e haccepted
      obtain ⟨-, hrun, hmail⟩ := names_of_copied hreply hcopied
      have hstanding := hstands c hc r e haccepted
      obtain rfl | ⟨e', rfl⟩ := hx
      · exact standing_own hstanding hreply hlast hrun hmail hclaim htxn hG.fresh
      · exact standing_error hstanding (fun h => consumed_stays h htxn hG.fresh) (fun h => h.cons _) e'

omit [PyText] in
theorem serves_failed {s : Service} (hJ : Serves i s db log) (hop : s.allows op) (x : Exn) :
    Serves i (s.next op (.error x)) db log := by
  intro job hjob
  have hlease : s.lease = some job := by
    rw [Service.next, leasedBy_error] at hjob
    exact hjob
  have hclaim : op ≠ .claimJob := by
    rintro rfl
    rw [show s.lease = none from hop] at hlease
    cases hlease
  obtain ⟨hlast, hcopied, hstands⟩ := hJ job hlease
  refine ⟨hlast, hcopied, fun c hc r e haccepted => ?_⟩
  rw [next_of_lease hlease hclaim]
  exact standing_error (hstands c hc r e haccepted) id id x

theorem serves_other {j : Nat} {t : Service} (hji : j ≠ i) (hG : Kept db log) (hJ : Serves j t db log)
    (htxn : txn env op db = .ok (a, db')) : Serves j t db' (⟨i, op, a, db, db'⟩ :: log) := by
  intro job hlease
  obtain ⟨hlast, hcopied, hstands⟩ := hJ job hlease
  have hleases : leaseBy j ⟨i, op, a, db, db'⟩ = none := leaseBy_of_ne hji.symm
  have hreads : readsSince j (⟨i, op, a, db, db'⟩ :: log) = readsSince j log := by
    rw [readsSince_cons hleases, if_neg (fun h => hji h.1.symm), Nat.zero_add]
  refine ⟨(leaseOf_cons hleases).trans hlast, hcopied.step (txn_effect htxn) hG.fresh, ?_⟩
  intro c hc r e haccepted
  obtain rfl | hc := List.mem_cons.mp hc
  · exact absurd haccepted (not_new_of_copied hcopied)
  · exact (hstands c hc r e haccepted).other htxn hG.fresh hreads

theorem preserved : World.Preserved recorder thread World.Rules.any Fresh service Service.fresh Kept
    Serves where
  init _ h := ⟨h, fun _ hc => (by cases hc), fun _ hc => (by cases hc)⟩
  follows k _ := ReplyTurns.thread_follows k
  fresh i db log _ := fun job hjob => by cases hjob
  shared i env op s db log hG hJ hop _ :=
    exec_recorded hG fun a db' htxn => kept_step hG hJ hop htxn
  own i env op s db log hG hJ hop _ := by
    change Serves i (s.next op (exec env op db).1) (exec env op db).2 (commits i env op db ++ log)
    rcases commit_cases i env op db with ⟨e, hexec, hcommits⟩ | ⟨a, db', htxn, hdb, hcommits, hanswer⟩
    · rw [hexec, hcommits]
      exact serves_failed hJ hop e
    · rw [hdb, hcommits]
      exact serves_own hG hJ hop htxn hanswer
  other i env op s db log hG _ _ _ j t hji hJ :=
    exec_recorded hJ fun a db' htxn => serves_other hji hG hJ htxn

/-- A reply that got its job while its run awaited one is read, or its job is
open, unless it was turned away. -/
theorem accepted_reply_kept {w : World Op Ans Exn Db Commit}
    (hreach : World.Reach recorder thread World.Rules.any Fresh w) (hc : c ∈ w.log)
    (h : Accepted c j r e) : Consumed w.data e ∨ Open w.data j ∨ TurnedAway j r w.log :=
  (preserved.reach hreach).1.kept c hc j r e h

end

section Histories

attribute [local instance] asciiText

open BoundedQuestions

theorem consumed_iff : ((db.inbound.get? e).any fun m => m.consumedRound.isSome) = true ↔
    Consumed db e := by
  simp [Consumed, Option.any_eq_true]

theorem open_iff : (db.jobs.get? j).any isOpen = true ↔ Open db j := by
  simp [Open, Option.any_eq_true]

theorem accepted_iff : (c.before.jobs.get? j = none ∧
    ((c.after.jobs.get? j).any fun row => row.kind = .resumeReply && row.runId = some r &&
    row.emailId = some e) = true ∧ c.before.statusOf r = some .awaitingReply) ↔ Accepted c j r e := by
  constructor
  · rintro ⟨hnew, hrow, hawaiting⟩
    obtain ⟨row, hstored, hreply⟩ := (Option.any_eq_true _ _).mp hrow
    simp only [Bool.and_eq_true, decide_eq_true_eq] at hreply
    exact ⟨hnew, ⟨row, hstored, hreply.1.1, hreply.1.2, hreply.2⟩, hawaiting⟩
  · rintro ⟨hnew, ⟨row, hstored, hkind, hrun, hmail⟩, hawaiting⟩
    refine ⟨hnew, ?_, hawaiting⟩
    simp [hstored, hkind, hrun, hmail]

instance decidableConsumed (db : Db) (e : Uuid) : Decidable (Consumed db e) :=
  decidable_of_iff _ consumed_iff

instance decidableOpen (db : Db) (j : Uuid) : Decidable (Open db j) := decidable_of_iff _ open_iff

instance decidableAccepted (c : Commit) (j r e : Uuid) : Decidable (Accepted c j r e) :=
  decidable_of_iff _ accepted_iff

/-- Two replies answer the question. The worker of the second one reads the run
while that of the first one is at work on it. -/
def outrun : List (Event Thread Env) :=
  oneAnswered ++ arrives 4 41 (some 14) ++ works 5 5 20 silent ++ works 6 4 22 silent ++
    List.replicate 21 (.run 5 { picked := 20, extracted := silent, envelope := letter })

theorem accepted_outrun : ∃ c ∈ (recordedAfter emptyDb outrun).log, Accepted c 22 11 21 ∧
    c.after.epochOf 11 = (recordedAfter emptyDb outrun).data.epochOf 11 := by
  decide +kernel

theorem unread_outrun : ¬ Consumed (recordedAfter emptyDb outrun).data 21 ∧
    ¬ Open (recordedAfter emptyDb outrun).data 22 := by
  decide +kernel

/-- The job of the second reply is done, and the reply stays unread. -/
theorem second_reply_unread : ¬ ∀ (w : World Op Ans Exn Db Commit) c j r e,
    World.Reach recorder thread World.Rules.any Fresh w → c ∈ w.log → Accepted c j r e →
      c.after.epochOf r = w.data.epochOf r → Consumed w.data e ∨ Open w.data j := by
  intro h
  have hfresh : Fresh emptyDb := Fresh.of_keys (by decide)
  obtain ⟨c, hc, haccepted, hepoch⟩ := accepted_outrun
  obtain hread | hopen := h _ c 22 11 21 (reach_recordedAfter hfresh outrun) hc haccepted hepoch
  · exact unread_outrun.1 hread
  · exact unread_outrun.2 hopen

/-- The second reply was turned away. -/
theorem outrun_turned_away : TurnedAway 22 11 (recordedAfter emptyDb outrun).log := by
  have hfresh : Fresh emptyDb := Fresh.of_keys (by decide)
  obtain ⟨c, hc, haccepted, -⟩ := accepted_outrun
  obtain hread | hopen | hturned := accepted_reply_kept (reach_recordedAfter hfresh outrun) hc haccepted
  · exact absurd hread unread_outrun.1
  · exact absurd hopen unread_outrun.2
  · exact hturned

end Histories

end PayrollAgent.AcceptedReplies
