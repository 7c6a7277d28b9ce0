import PayrollAgent.Lib.Budget
import PayrollAgent.Lib.History
import PayrollAgent.ReplyJobs
import PayrollAgent.ReplyLeases
import PayrollAgent.SingleDriver

namespace PayrollAgent.ReplyFences

open Lib History Repo Resume Ingest Effects RunSteps FreshIds JobSteps NewJobs Conduct Bookkeeping
  Handlers Drives ReplyJobs SingleDriver
open ReplyLeases (isOpen noReply newReply open_before)
open ReplyReads (Reader reader)

def isIngest (e : Uuid) : Note → Bool
  | .ingested e' => e' = e
  | _ => false

def isPause (r : Uuid) : Note → Bool
  | .paused _ r' => r' = r
  | _ => false

/-- The run was paused after the reply was stored. -/
def pausedSince (e r : Uuid) (log : List Note) : Bool :=
  since (fun n => !isIngest e n) (fun n _ => isPause r n) log

/-- The reply a thread resumes with. -/
def replyOf (i : Nat) (log : List Note) : Option Uuid :=
  (leaseOf i log).bind fun job => if job.kind = .resumeReply then job.emailId else none

def lessee (j : Uuid) : Note → Option Nat
  | .leased i job => if job.id = j then some i else none
  | _ => none

/-- The thread that leased the job last. -/
def lastLessee (j : Uuid) (log : List Note) : Option Nat := log.findSome? (lessee j)

def pausesLast (r j : Uuid) : Note → List Note → Bool
  | .paused i r', older => r' = r && lastLessee j older = some i
  | _, _ => false

/-- The run was paused under the last lease of the job. -/
def pausedUnder (r j : Uuid) (log : List Note) : Bool :=
  since (fun n => (lessee j n).isNone) (pausesLast r j) log

/-- The run that a write takes from EXTRACTING to a pause. -/
def pausedBy (op : Op) : Option Uuid :=
  (drives op).bind fun d => if d.2 = .extracting then none else some d.1

/-- The job waits for a worker or is with one, and resumes the run with a reply. -/
def resumesRun (r : Uuid) (row : JobRow) : Bool :=
  row.kind = .resumeReply && row.runId = some r && isOpen row

/-- The thread leased the job, and no other thread has since. -/
def holds (i : Nat) (db : Db) (log : List Note) (j : Uuid) : Bool :=
  (leaseOf i log).any fun job => job.id = j && (lockedJob db job).isSome

/-- A run is claimed for a reply under a lease that stands. No job is leased
again whose last lease paused its run: its pause was settled. A pause finds no
other open job that resumes the run with a reply. And a redelivery enqueues no
reply that came before a pause. -/
def fenced (i : Nat) (env : Env) (db : Db) (log : List Note) : Op → Bool
  | .claimStatus r .received .extracting =>
      db.statusOf r ≠ some .received ||
        (leaseOf i log).all fun job => job.kind ≠ .resumeReply || (lockedJob db job).isSome
  | .claimJob =>
      (db.jobs.get? env.picked).all fun row => !claimable db.now row || row.kind ≠ .resumeReply ||
        row.runId.all fun r => !pausedUnder r env.picked log
  | .ingestEmail mail =>
      (inboundByMessageId db mail.messageId).all fun p => p.2.runId.all fun r =>
        (ingestDuplicate p.1 p.2 db).nextId = db.nextId || !pausedSince p.1 r log
  | op => (pausedBy op).all fun r =>
      db.jobs.entries.all fun p => !resumesRun r p.2 || holds i db log p.1

/-- The copies of a lease are those of a stored job, and its reply was stored
before the lease. -/
structure LeasedReplies (db : Db) (log : List Note) : Prop where
  copied : ∀ i job, Note.leased i job ∈ log → ∃ row, db.jobs.get? job.id = some row ∧
    row.kind = job.kind ∧ row.runId = job.runId ∧ row.emailId = job.emailId
  after : ∀ newer i job older, log = newer ++ .leased i job :: older → job.kind = .resumeReply →
    ∀ e, job.emailId = some e → Note.ingested e ∉ newer

/-- The leases of the jobs against the history. -/
structure Leases (db : Db) (log : List Note) : Prop extends LeasedReplies db log where
  fresh : Fresh db
  stored : RepliesStored db
  drawn : ∀ i job, Note.leased i job ∈ log → job.leaseToken < db.nextId
  last : ∀ i job, leaseOf i log = some job → (lockedJob db job).isSome = true →
    lastLessee job.id log = some i

/-- An open job was not paused since its reply was stored, except under its last
lease. -/
def Unpaused (db : Db) (log : List Note) : Prop :=
  ∀ j row r e, db.jobs.get? j = some row → resumesRun r row = true → row.emailId = some e →
    pausedSince e r log = true → pausedUnder r j log = true

/-- The lease of a thread is in the history, and a thread that paused a run rests. -/
structure Rests (i : Nat) (s : Work × Reader) (log : List Note) : Prop where
  lease : ∀ job, s.2.lease = some job → leaseOf i log = some job
  rested : ∀ r, Note.paused i r ∈ log → s.1.phase = .rested

variable {i j k : Nat} {r e q : Uuid} {job own : Job} {db db' : Db} {log : List Note} {op : Op}
    {a : Ans op} {n : Note} {s : Work} {t : Reader} {row : JobRow} {env : Env}

theorem stageWrite_of_paused (h : Note.paused j r ∈ notes i op db a db') : stageWrite op = some r ∧
    j = i := by
  cases noted h <;> exact ⟨rfl, rfl⟩

theorem pausedBy_of_paused (h : Note.paused j r ∈ notes i op db a db') : pausedBy op = some r := by
  cases noted h with
  | processed haction => simp [pausedBy, drives, haction]
  | _ => rfl

theorem leaseOf_notes_of_ne (h : j ≠ i) : leaseOf i (notes j op db a db' ++ log) = leaseOf i log := by
  refine leasedBy_notes fun job hmem => h ?_
  cases noted hmem
  rfl

theorem replyOf_notes_of_ne (h : j ≠ i) : replyOf i (notes j op db a db' ++ log) = replyOf i log := by
  rw [replyOf, leaseOf_notes_of_ne h, replyOf]

theorem replyOf_notes_of_working (hop : s.allows op) (hrun : s.phase.run = some r) :
    replyOf i (notes i op db a db' ++ log) = replyOf i log := by
  rw [replyOf, leasedBy_notes, replyOf]
  intro job hmem
  cases noted hmem with
  | leased =>
      rw [hop.1.2] at hrun
      cases hrun

theorem replyOf_of_job (h : leaseOf i log = some job) (hkind : job.kind = .resumeReply) :
    replyOf i log = job.emailId := by
  rw [replyOf, h, Option.bind_some, if_pos hkind]

theorem replyOf_eq_some (h : replyOf i log = some e) :
    ∃ job, leaseOf i log = some job ∧ job.kind = .resumeReply ∧ job.emailId = some e := by
  obtain ⟨job, hjob, hreply⟩ := Option.bind_eq_some_iff.mp h
  split at hreply
  next hkind => exact ⟨job, hjob, hkind, hreply⟩
  · cases hreply

theorem pausedSince_of_notes (hpause : ∀ k, Note.paused k r ∉ notes i op db a db')
    (h : pausedSince e r (notes i op db a db' ++ log) = true) : pausedSince e r log = true := by
  refine since_of_append (fun n hn _ => ?_) h
  cases n with
  | paused k r' =>
      refine decide_eq_false fun hr => ?_
      rw [hr] at hn
      exact hpause k hn
  | _ => rfl

theorem lessee_eq_none (h : ∀ i job, n = .leased i job → job.id ≠ q) : lessee q n = none := by
  cases n with
  | leased i job => exact if_neg (h i job rfl)
  | _ => rfl

theorem lessee_notes (h : ∀ i' job, Note.leased i' job ∈ notes i op db a db' → job.id ≠ q) :
    ∀ n ∈ notes i op db a db', lessee q n = none := by
  rintro n hn
  refine lessee_eq_none ?_
  rintro i' job rfl
  exact h i' job hn

theorem lastLessee_append {ns : List Note} (h : ∀ n ∈ ns, lessee q n = none) :
    lastLessee q (ns ++ log) = lastLessee q log := by
  rw [lastLessee, List.findSome?_append, List.findSome?_eq_none_iff.mpr h]
  rfl

/-- The thread that paused the run under the last lease of the job is the one
that leased it last. -/
theorem lessee_of_pausedUnder (h : pausedUnder r q log = true) :
    ∃ k, lastLessee q log = some k ∧ Note.paused k r ∈ log := by
  obtain ⟨newer, n, older, rfl, hpauses, hnewer⟩ := since_iff.mp h
  cases n with
  | paused k r' =>
      rw [pausesLast, Bool.and_eq_true] at hpauses
      obtain rfl : r' = r := of_decide_eq_true hpauses.1
      have hlast : lastLessee q (newer ++ [.paused k r'] ++ older) = some k := by
        rw [lastLessee_append, of_decide_eq_true hpauses.2]
        intro n hn
        obtain hn | hn := List.mem_append.mp hn
        · exact Option.isNone_iff_eq_none.mp (hnewer n hn)
        · rw [List.mem_singleton.mp hn]
          rfl
      rw [List.append_assoc] at hlast
      exact ⟨k, hlast, by simp⟩
  | _ => cases hpauses

theorem pausedSince_of_lease (hleases : LeasedReplies db log) {newer oldest : List Note}
    (hlog : log = newer ++ .paused j r :: oldest) (hlease : leaseOf j oldest = some job)
    (hkind : job.kind = .resumeReply) (hmail : job.emailId = some e) : pausedSince e r log = true := by
  obtain ⟨middle, first, rfl⟩ := List.append_of_mem (leased_of_leaseOf hlease)
  have hunread := hleases.after (newer ++ .paused j r :: middle) j job first (by rw [hlog]; simp)
    hkind e hmail
  refine since_iff.mpr ⟨newer, .paused j r, _, hlog, decide_eq_true rfl, fun n hn => ?_⟩
  cases n with
  | ingested e' =>
      have hne : e' ≠ e := by
        rintro rfl
        exact hunread (List.mem_append_left _ hn)
      rw [isIngest, decide_eq_false hne]
      rfl
  | _ => rfl

theorem mails_of_stored (hleases : LeasedReplies db log) (hstored : RepliesStored db) :
    ∀ j job, Note.leased j job ∈ log → job.kind = .resumeReply → job.emailId.isSome := by
  intro j job hmem hkind
  obtain ⟨row, hrow, hrowKind, -, hrowMail⟩ := hleases.copied j job hmem
  obtain ⟨e, he, -⟩ := hstored _ row hrow (hrowKind.trans hkind)
  rw [← hrowMail, he]
  rfl

theorem notes_of_mem (h : n ∈ notes i op db a db') : notes i op db a db' = [n] := by
  match hnotes : notes i op db a db', notes_length i op db a db' with
  | [], _ =>
      rw [hnotes] at h
      cases h
  | [m], _ =>
      rw [hnotes] at h
      rw [List.mem_singleton.mp h]

theorem onlyOwn_of_fenced (hfenced : fenced i env db log op = true) (hpauses : pausedBy op = some r)
    (hrow : db.jobs.get? q = some row) (hresumes : resumesRun r row = true) :
    ∃ job, leaseOf i log = some job ∧ job.id = q ∧ (lockedJob db job).isSome = true := by
  have hall : ((pausedBy op).all fun r =>
      db.jobs.entries.all fun p => !resumesRun r p.2 || holds i db log p.1) = true := by
    cases op with
    | claimStatus r' expected new => cases hpauses
    | claimJob => cases hpauses
    | ingestEmail mail => cases hpauses
    | _ => exact hfenced
  rw [hpauses, Option.all_some] at hall
  have hrow' := List.all_eq_true.mp hall (q, row) ((Dict.get?_eq_some_iff ..).mp hrow)
  rw [hresumes] at hrow'
  obtain ⟨job, hjob, hholds⟩ := (Option.any_eq_true _ _).mp (hrow' : holds i db log q = true)
  rw [Bool.and_eq_true] at hholds
  exact ⟨job, hjob, of_decide_eq_true hholds.1, hholds.2⟩

theorem lease_next (x : Except Exn (Ans op)) :
    (t.next op x).lease = (ReplyReads.leasedBy op x).or t.lease := by
  unfold Reader.next
  cases ReplyReads.leasedBy op x <;> rfl

theorem rested_of_paused (h : Note.paused i r ∈ notes i op db a db') : (s.told op a).phase = .rested := by
  cases noted h with
  | processed haction => simp [Work.told, haction, Work.rest]
  | _ => rfl

theorem rested_told (hop : s.allows op) (h : s.phase = .rested) : (s.told op a).phase = .rested := by
  unfold Work.told
  split
  · exact h
  · obtain hmem | ⟨-, hmem⟩ | ⟨-, hidle, -⟩ := hop.1
    · exact absurd hmem (by decide)
    · exact absurd hmem (by decide)
    · rw [h] at hidle
      cases hidle
  · rw [h]
    rfl
  · split
    · rfl
    · obtain hdriving | hanswered := hop.1
      · rw [h] at hdriving
        cases hdriving
      · rw [h] at hanswered
        cases hanswered
  · rfl
  · rfl
  · rfl
  · rfl
  · exact h
  · exact h

theorem leaseOf_own (hread : t.allows op) (hlease : t.lease = some job) :
    leaseOf i (notes i op db a db' ++ log) = leaseOf i log := by
  refine leasedBy_notes fun job' hmem => ?_
  cases noted hmem with
  | leased =>
      have hnone : t.lease = none := hread
      rw [hlease] at hnone
      cases hnone

theorem leaseOf_leased (h : ReplyReads.leasedBy op (.ok a) = some job) :
    leaseOf i (notes i op db a db' ++ log) = some job := by
  cases op with
  | claimJob =>
      obtain rfl : a = some job := h
      rw [notes, leaseOf, List.singleton_append, List.findSome?_cons, leasedBy, if_pos rfl]
  | _ => cases h

section

variable [PyText]

theorem leasedReplies_step (hleases : LeasedReplies db log) (hfresh : Fresh db)
    (hstored : RepliesStored db)
    (h : Effect env db op a db') : LeasedReplies db' (notes i op db a db' ++ log) := by
  refine ⟨fun k job hmem => ?_, fun newer k job older hlog hkind e hmail hin => ?_⟩
  · have hrow : ∃ row, db.jobs.get? job.id = some row ∧ row.kind = job.kind ∧ row.runId = job.runId ∧
        row.emailId = job.emailId := by
      obtain hnew | hold := List.mem_append.mp hmem
      · cases noted hnew with
        | leased =>
            obtain ⟨row, hrow, -, rfl⟩ := leased_row h
            exact ⟨row, hrow, rfl, rfl, rfl⟩
      · exact hleases.copied k job hold
    obtain ⟨row, hrow, hkind, hrun, hmail⟩ := hrow
    obtain ⟨row', hrow', hstep⟩ := jobStep h hfresh hrow
    exact ⟨row', hrow', hstep.same.kind.trans hkind, hstep.same.runId.trans hrun,
      hstep.same.emailId.trans hmail⟩
  · obtain ⟨rfl, -⟩ | ⟨middle, rfl, hsplit⟩ := split_append (notes_length i op db a db') hlog
    · cases hin
    · obtain hnew | hold := List.mem_append.mp hin
      · cases noted hnew with
        | ingested =>
            have hmem : Note.leased k job ∈ log := by
              rw [hsplit]
              exact List.mem_append_right _ List.mem_cons_self
            obtain ⟨row, hrow, hrowKind, -, hrowMail⟩ := hleases.copied k job hmem
            obtain ⟨e, he, hread⟩ := hstored _ row hrow (hrowKind.trans hkind)
            rw [hrowMail, hmail] at he
            obtain ⟨mail, hread⟩ := Option.isSome_iff_exists.mp hread
            rw [← Option.some.inj he] at hread
            exact absurd (hfresh.inbound.lt hread) (Nat.lt_irrefl _)
      · exact hleases.after middle k job older hsplit hkind e hmail hold

theorem drawn_step (hleases : Leases db log) (h : Effect env db op a db') :
    ∀ k job, Note.leased k job ∈ notes i op db a db' ++ log → job.leaseToken < db'.nextId := by
  intro k job hmem
  obtain hnew | hold := List.mem_append.mp hmem
  · cases noted hnew with
    | leased =>
        cases h with
        | idle hrefused => cases hrefused
        | leased => exact Nat.lt_succ_self _
  · exact (hleases.drawn k job hold).trans_le (jobsGrow h).nextId

theorem not_locked_of_claim (h : Effect env db .claimJob (some job) db') (hid : own.id = job.id)
    (hdrawn : own.leaseToken < db.nextId) : (lockedJob db' own).isSome = false := by
  refine Bool.eq_false_iff.mpr fun hlocked => ?_
  obtain ⟨row', hrow'⟩ := Option.isSome_iff_exists.mp hlocked
  obtain ⟨hget, -, htoken⟩ := lockedJob_some hrow'
  cases h with
  | idle hrefused => cases hrefused
  | @leased row hrow hclaim =>
      rw [hid, copyOf, Dict.get?_set_self] at hget
      obtain rfl := Option.some.inj hget
      have hnew : db.nextId = own.leaseToken := Option.some.inj htoken
      rw [hnew] at hdrawn
      exact Nat.lt_irrefl _ hdrawn

theorem last_step (hleases : Leases db log) (h : Effect env db op a db') :
    ∀ k job, leaseOf k (notes i op db a db' ++ log) = some job → (lockedJob db' job).isSome = true →
      lastLessee job.id (notes i op db a db' ++ log) = some k := by
  intro k job hlease hlocked
  have hbefore : leaseOf k log = some job →
      job.leaseToken < db.nextId ∧ lastLessee job.id log = some k := by
    intro hlease
    have hdrawn := hleases.drawn k job (leased_of_leaseOf hlease)
    obtain ⟨row', hrow'⟩ := Option.isSome_iff_exists.mp hlocked
    refine ⟨hdrawn, hleases.last k job hlease ?_⟩
    rw [lockedJob_back h hleases.fresh hdrawn hrow']
    rfl
  by_cases hnew : ∃ k' job', Note.leased k' job' ∈ notes i op db a db'
  · obtain ⟨k', job', hmem⟩ := hnew
    have hk' : k' = i := by
      cases noted hmem
      rfl
    subst hk'
    rw [notes_of_mem hmem] at hlease ⊢
    by_cases hk : k' = k
    · subst hk
      rw [leaseOf, List.singleton_append, List.findSome?_cons, leasedBy, if_pos rfl] at hlease
      obtain rfl := Option.some.inj hlease
      rw [lastLessee, List.singleton_append, List.findSome?_cons, lessee, if_pos rfl]
    · rw [leaseOf, List.singleton_append, List.findSome?_cons_of_isNone
        (by rw [leasedBy, if_neg hk]; rfl)] at hlease
      obtain ⟨hdrawn, hlast⟩ := hbefore hlease
      rw [lastLessee_append fun n hn => ?_]
      · exact hlast
      · rw [List.mem_singleton.mp hn, lessee, if_neg]
        intro hid
        cases noted hmem with
        | leased =>
            rw [not_locked_of_claim h hid.symm hdrawn] at hlocked
            cases hlocked
  · have hnone : ∀ k' job', Note.leased k' job' ∉ notes i op db a db' :=
      fun k' job' hmem => hnew ⟨k', job', hmem⟩
    rw [leasedBy_notes (hnone k)] at hlease
    rw [lastLessee_append (lessee_notes fun k' job' hmem => absurd hmem (hnone k' job'))]
    exact (hbefore hlease).2

theorem leases_step (hleases : Leases db log) (h : Effect env db op a db') :
    Leases db' (notes i op db a db' ++ log) where
  toLeasedReplies := leasedReplies_step hleases.toLeasedReplies hleases.fresh hleases.stored h
  fresh := fresh_step h hleases.fresh
  stored := repliesStored_step h hleases.fresh hleases.stored
  drawn := drawn_step hleases h
  last := last_step hleases h

theorem notes_of_stored {mail : InboundMail} {outcome : Ans (.ingestEmail mail)}
    (h : Effect env db (.ingestEmail mail) outcome db') (hfresh : Fresh db)
    (hstored : (db'.inbound.get? db.nextId).isSome = true) :
    notes i (.ingestEmail mail) db outcome db' = [.ingested db.nextId] := by
  have hunused : (db.inbound.get? db.nextId).isSome = true → False := by
    intro hsome
    obtain ⟨m, hm⟩ := Option.isSome_iff_exists.mp hsome
    exact Nat.lt_irrefl _ (hfresh.inbound.lt hm)
  cases h with
  | idle => exact (hunused hstored).elim
  | redelivered =>
      rw [authorizedReplyJob_inbound] at hstored
      exact (hunused hstored).elim
  | _ => rfl

theorem unpaused_new (hfresh : Fresh db) (htxn : txn env op db = .ok (a, db'))
    (hfenced : fenced i env db log op = true) (hnew : db.jobs.get? q = none)
    (hrow : db'.jobs.get? q = some row)
    (hresumes : resumesRun r row = true) (hmail : row.emailId = some e) :
    pausedSince e r (notes i op db a db' ++ log) = false := by
  simp only [resumesRun, Bool.and_eq_true, decide_eq_true_eq] at hresumes
  obtain ⟨⟨hkind, hrun⟩, -⟩ := hresumes
  have heffect := txn_effect htxn
  by_cases hingests : ∃ mail, op = .ingestEmail mail
  · obtain ⟨mail, rfl⟩ := hingests
    obtain rfl : (ingestEmail mail env.picked env.otherPicked db).2 = db' :=
      congrArg Prod.snd (Except.ok.inj htxn)
    obtain ⟨r', e', m, hreply⟩ := newReply mail _ _ hnew hrow hkind
    obtain rfl := Option.some.inj (hrun.symm.trans hreply.runId)
    obtain rfl := Option.some.inj (hmail.symm.trans hreply.emailId)
    obtain ⟨hsame, -, hadds⟩ | ⟨rfl, -⟩ := hreply.origin
    · refine Bool.eq_false_iff.mpr fun hpaused => ?_
      have hbefore := pausedSince_of_notes (fun k hmem => by cases noted hmem) hpaused
      rw [fenced, hsame, Option.all_some, hreply.linked, Option.all_some] at hfenced
      simp [hadds, hbefore] at hfenced
    · rw [notes_of_stored heffect hfresh (by rw [hreply.stored]; rfl)]
      exact since_cons_of_not (by simp [isIngest]) rfl
  · have hold := (noReply heffect fun mail hop => hingests ⟨mail, hop⟩).old q row hrow hkind
    rw [hnew] at hold
    cases hold

theorem unpaused_step (hleases : Leases db log) (hunpaused : Unpaused db log)
    (htxn : txn env op db = .ok (a, db'))
    (hfenced : fenced i env db log op = true) : Unpaused db' (notes i op db a db' ++ log) := by
  intro q row' r e hrow' hresumes' hmail hpaused
  have heffect := txn_effect htxn
  cases hrow : db.jobs.get? q with
  | none =>
      rw [unpaused_new hleases.fresh htxn hfenced hrow hrow' hresumes' hmail] at hpaused
      cases hpaused
  | some row =>
      have hresumes : resumesRun r row = true := by
        obtain ⟨row'', hrow'', hstep⟩ := jobStep heffect hleases.fresh hrow
        obtain rfl := Option.some.inj (hrow''.symm.trans hrow')
        simp only [resumesRun, Bool.and_eq_true, decide_eq_true_eq] at hresumes' ⊢
        rw [← hstep.same.kind, ← hstep.same.runId]
        exact ⟨hresumes'.1, open_before heffect hleases.fresh hrow hrow' hresumes'.2⟩
      by_cases hpauses : ∃ k, Note.paused k r ∈ notes i op db a db'
      · -- the pause is under the last lease of the job
        obtain ⟨k, hmem⟩ := hpauses
        obtain ⟨-, rfl⟩ := stageWrite_of_paused hmem
        obtain ⟨job, hjob, rfl, hlocked⟩ := onlyOwn_of_fenced hfenced (pausedBy_of_paused hmem)
          hrow hresumes
        have hlast := hleases.last k job hjob hlocked
        rw [notes_of_mem hmem, List.singleton_append]
        refine since_cons_of ?_
        rw [pausesLast, hlast]
        simp
      · have hbefore := pausedSince_of_notes (fun k hmem => hpauses ⟨k, hmem⟩) hpaused
        obtain ⟨row'', hrow'', hstep⟩ := jobStep heffect hleases.fresh hrow
        obtain rfl := Option.some.inj (hrow''.symm.trans hrow')
        have hunder := hunpaused q row r e hrow hresumes (hstep.same.emailId.symm.trans hmail) hbefore
        -- a job that is leased again was not paused under
        refine since_append (fun n hn => ?_) hunder
        rw [lessee_eq_none, Option.isNone_none]
        rintro k job rfl rfl
        cases noted hn with
        | leased =>
            obtain ⟨row₁, hrow₁, hclaim, rfl⟩ := leased_row heffect
            have hpicked : db.jobs.get? env.picked = some row := hrow
            simp only [resumesRun, Bool.and_eq_true, decide_eq_true_eq] at hresumes
            obtain rfl := Option.some.inj (hpicked.symm.trans hrow₁)
            have hunder' : pausedUnder r env.picked log = true := hunder
            rw [fenced, hpicked, Option.all_some, hclaim, hresumes.1.1, hresumes.1.2,
              Option.all_some, hunder'] at hfenced
            simp at hfenced

theorem rests_own (h : Rests i (s, t) log) (hop : s.allows op) (hread : t.allows op) :
    Rests i (s.next op (exec env op db).1, t.next op (exec env op db).1)
    (observe i env op db ++ log) := by
  rcases exec_cases i env op db with ⟨e, hexec, hobserve⟩ | ⟨a, db', -, -, hnotes, hanswer⟩
  · rw [hexec, hobserve]
    refine ⟨fun job hjob => h.lease job ?_, fun _ _ => rfl⟩
    rwa [lease_next, ReplyReads.leasedBy_error, Option.none_or] at hjob
  · rw [hnotes]
    obtain hanswer | ⟨e, hanswer⟩ := hanswer
    · rw [hanswer]
      constructor
      · intro job hjob
        rw [lease_next] at hjob
        cases hleased : ReplyReads.leasedBy op (.ok a) with
        | some job' =>
            rw [hleased, Option.some_or] at hjob
            rw [leaseOf_leased hleased, hjob]
        | none =>
            rw [hleased, Option.none_or] at hjob
            rw [leaseOf_own hread hjob, h.lease job hjob]
      · intro r' hmem
        obtain hnew | hold := List.mem_append.mp hmem
        · exact rested_of_paused hnew
        · exact rested_told hop (h.rested r' hold)
    · rw [hanswer]
      refine ⟨fun job hjob => ?_, fun _ _ => rfl⟩
      rw [lease_next, ReplyReads.leasedBy_error, Option.none_or] at hjob
      rw [leaseOf_own hread hjob, h.lease job hjob]

theorem rests_other {u : Work × Reader} (hji : j ≠ i) (h : Rests j u log) :
    Rests j u (observe i env op db ++ log) := by
  rcases exec_cases i env op db with ⟨e, -, hobserve⟩ | ⟨a, db', -, -, hnotes, -⟩
  · rw [hobserve]
    exact h
  · rw [hnotes]
    constructor
    · intro job hjob
      rw [leaseOf_notes_of_ne (Ne.symm hji), h.lease job hjob]
    · intro r' hmem
      obtain hnew | hold := List.mem_append.mp hmem
      · exact absurd (stageWrite_of_paused hnew).2 hji
      · exact h.rested r' hold

/-- Under the fences a run is claimed with a reply that is newer than its last
pause: a lease of the job that paused it would be the claimant's own. -/
theorem new_of_claim (hleases : Leases db log) (hunpaused : Unpaused db log) (hrests : Rests i (s, t) log)
    (hop : s.allows (.claimStatus r .received .extracting))
    (hread : t.allows (.claimStatus r .received .extracting))
    (h : Effect env db (.claimStatus r .received .extracting) (true : Bool) db')
    (hfenced : fenced i env db log (.claimStatus r .received .extracting) = true) :
    ∀ e, replyOf i log = some e → pausedSince e r log = false := by
  intro e hreply
  have hreceived : db.statusOf r = some .received := by
    cases h with
    | idle hrefused => cases hrefused
    | claimed hstatus => exact hstatus
  obtain ⟨job, hjob, hkind, hmail⟩ := replyOf_eq_some hreply
  obtain ⟨job', hjob', hrun⟩ := hread
  obtain rfl := Option.some.inj ((hrests.lease job' hjob').symm.trans hjob)
  have hlocked : (lockedJob db job').isSome = true := by
    rw [fenced, hreceived, hjob, Option.all_some, hkind] at hfenced
    simpa using hfenced
  obtain ⟨row, hrow⟩ := Option.isSome_iff_exists.mp hlocked
  obtain ⟨hget, hstate, -⟩ := lockedJob_some hrow
  obtain ⟨row', hget', hrowKind, hrowRun, hrowMail⟩ := hleases.copied i job' (leased_of_leaseOf hjob)
  obtain rfl := Option.some.inj (hget.symm.trans hget')
  have hresumes : resumesRun r row = true := by
    simp [resumesRun, isOpen, hrowKind, hrowRun, hkind, hrun, hstate]
  refine Bool.eq_false_iff.mpr fun hpaused => ?_
  have hunder := hunpaused _ row r e hget hresumes (hrowMail.trans hmail) hpaused
  obtain ⟨k, hlast, hmem⟩ := lessee_of_pausedUnder hunder
  rw [hleases.last i job' hjob hlocked] at hlast
  obtain rfl := Option.some.inj hlast
  have hrested := hrests.rested r hmem
  have hclaims : claimsRun (.claimStatus r .received .extracting) (true : Bool) = some r := rfl
  rw [idle_of_claimsRun hop hclaims] at hrested
  cases hrested

end

end PayrollAgent.ReplyFences
