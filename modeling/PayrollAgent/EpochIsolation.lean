import PayrollAgent.BoundedQuestions
import PayrollAgent.Lib.History
import PayrollAgent.ReplyLeases

namespace PayrollAgent.EpochIsolation

open Lib History Repo Ingest Handlers Effects RunSteps FreshIds JobSteps JobKeys EmailSteps Commits
  CombinedEmail ReplyReads ReplyLeases BoundedQuestions

def reopens : (op : Op) → Ans op → Option Uuid
  | .retrigger r, true => some r
  | .authorizeNewConfirmation r, true => some r
  | _, _ => none

def reopenedSince (i : Nat) (r : Uuid) (log : List Commit) : Bool :=
  since (fun c => (leaseBy i c).isNone) (fun c _ => reopens c.op c.answer = some r) log

def resumesRun (r : Uuid) (row : JobRow) : Bool :=
  row.runId = some r && (row.kind = .resumeReply || row.kind = .operatorResume) && isOpen row

def resumeOpen (db : Db) (r : Uuid) : Bool := (db.jobs.select fun _ row => resumesRun r row).isSome

def Uses (email : ReadEmail) (m : Inbound) : Prop :=
  email.messageId = some m.mail.messageId ∨ ∃ p ∈ priors email.body, p.mail.messageId = m.mail.messageId

/-- A reply that was linked to a run is extracted in the epoch it was linked in. -/
def Isolated (c : Commit) : Prop :=
  ∀ email, c.op = .extract email → ∀ e m r, c.before.inbound.get? e = some m → m.runId = some r →
    Uses email m → c.before.epochOf r = some m.epoch

def requeuesCurrent (db : Db) : Op → Bool
  | .ingestEmail mail => (inboundByMessageId db mail.messageId).all fun p => p.2.runId.all fun r =>
      (ingestDuplicate p.1 p.2 db).nextId = db.nextId || db.epochOf r = some p.2.epoch
  | _ => true

def extractsHeld (i : Nat) (db : Db) (log : List Commit) : Op → Bool
  | .extract _ => (leaseOf i log).all fun job => job.runId.all fun r =>
      !resumes job || !reopenedSince i r log || (lockedJob db job).isSome
  | _ => true

/-- No reply is linked to the run it came to, and the replies whose jobs are
open were linked to their runs in the current epochs. -/
structure Current (db : Db) : Prop where
  fresh : Fresh db
  mails : UniqueMails db
  source : ∀ r run, db.runs.get? r = some run → ∃ m, db.inbound.get? run.sourceEmailId = some m ∧
    m.runId = none
  reply : ∀ j row, db.jobs.get? j = some row → row.kind = .resumeReply → isOpen row = true →
    ∃ r e m, row.runId = some r ∧ row.emailId = some e ∧ db.inbound.get? e = some m ∧ m.runId = some r ∧
      db.epochOf r = some m.epoch

/-- The reply is one of the current epoch, unless a new one was opened since the
lease. -/
structure Linked (i : Nat) (db : Db) (log : List Commit) (r e : Uuid) (m : Inbound) : Prop where
  stored : db.inbound.get? e = some m
  linked : m.runId = some r
  epoch : reopenedSince i r log = false → db.epochOf r = some m.epoch

structure Held (i : Nat) (job : Job) (db : Db) (log : List Commit) : Prop where
  last : leaseOf i log = some job
  copied : Copied job db
  kept : ∀ r, resumes job = true → job.runId = some r → (lockedJob db job).isSome = true →
    reopenedSince i r log = false
  reply : ∀ r e, Replies job r e → ∃ m, Linked i db log r e m

structure Knows (i : Nat) (s : Reader) (db : Db) (log : List Commit) : Prop where
  held : ∀ job, s.lease = some job → Held i job db log
  seen : ∀ d ∈ s.seen, Later d db
  loaded : ∀ job, s.lease = some job → ∀ m ∈ s.loaded, ∃ r e m', resumes job = true ∧ job.runId = some r ∧
    m'.mail = m.mail ∧ Linked i db log r e m'

section

variable [PyText]

/-- No job of the run's resumes is open when a new epoch of the run is opened. -/
def opensUnresumed (i : Nat) (env : Env) (op : Op) (db : Db) : Bool :=
  (commits i env op db).all fun c => (reopens c.op c.answer).all fun r => !resumeOpen db r

def separateEpochs : World.Rules Op Db Env Commit Thread :=
  ⟨fun _ => True, fun i env op db log =>
    opensUnresumed i env op db = true ∧ requeuesCurrent db op = true ∧ extractsHeld i db log op = true⟩

variable {env : Env} {op : Op} {a : Ans op} {db db' : Db} {i k : Nat} {j r e n : Uuid} {job : Job}
    {m : Inbound} {log : List Commit} {s : Reader}

theorem epochOf_step (h : Effect env db op a db') (hfresh : Fresh db) (hepoch : db.epochOf r = some n) :
    db'.epochOf r = some n ∨ reopens op a = some r := by
  obtain ⟨run, hrun, rfl⟩ := Option.map_eq_some_iff.mp hepoch
  obtain ⟨run', hrun', hstep⟩ := runStep h hfresh.runs hrun
  have hkept : run'.replyEpoch = run.replyEpoch → db'.epochOf r = some run.replyEpoch := fun h => by
    rw [Db.epochOf, hrun', Option.map_some, h]
  cases hstep with
  | kept h => exact .inl (hkept h.epoch)
  | fieldsSet => exact .inl (hkept rfl)
  | driven _ h => exact .inl (hkept h.epoch)
  | claimed _ h => exact .inl (hkept h.epoch)
  | rewound _ h => exact .inl (hkept h.epoch)
  | approved _ h => exact .inl (hkept h.epoch)
  | failed _ _ h => exact .inl (hkept h.epoch)
  | requeued _ _ _ h => exact .inl (hkept h.epoch)
  | retriggered => exact .inr rfl
  | reconciled _ h => exact .inl (hkept h.epoch)
  | reviewed _ _ h => exact .inl (hkept h.epoch)
  | markedDelivered _ _ h => exact .inl (hkept h.epoch)
  | authorizedNew => exact .inr rfl
  | finishedReview _ _ h => exact .inl (hkept h.epoch)

omit [PyText] in
theorem resumeOpen_of_row {row : JobRow} (hrow : db.jobs.get? j = some row)
    (h : resumesRun r row = true) : resumeOpen db r = true := by
  rw [resumeOpen, ← Option.ne_none_iff_isSome]
  intro hnone
  have hnot := Dict.select_none.mp hnone j row hrow
  rw [h] at hnot
  cases hnot

omit [PyText] in
theorem resumesRun_of_reply {row : JobRow} (hrun : row.runId = some r) (hkind : row.kind = .resumeReply)
    (hopen : isOpen row = true) : resumesRun r row = true := by
  simp [resumesRun, hrun, hkind, hopen]

theorem current_step (htxn : txn env op db = .ok (a, db')) (hcurrent : Current db)
    (hopens : ∀ r, reopens op a = some r → resumeOpen db r = false)
    (hrequeues : requeuesCurrent db op = true) : Current db' := by
  have heffect := txn_effect htxn
  refine ⟨fresh_step heffect hcurrent.fresh, (inboundWrite htxn).uniqueMails hcurrent.mails,
    fun r run' hrun' => ?_, fun j row' hrow' hkind hopen => ?_⟩
  · have hstays : ∀ {run : Run}, db.runs.get? r = some run → run'.sourceEmailId = run.sourceEmailId →
        ∃ m, db'.inbound.get? run'.sourceEmailId = some m ∧ m.runId = none := by
      intro run hrun hsource
      obtain ⟨m, hm, hlinked⟩ := hcurrent.source r run hrun
      obtain ⟨m', hm', -, hrun, -⟩ := (inboundWrite htxn).stays hcurrent.fresh hm
      exact ⟨m', by rwa [hsource], hrun.trans hlinked⟩
    cases runsWrite heffect hcurrent.fresh with
    | kept hkept =>
        have hr := hkept r
        rw [hrun', Option.map_some] at hr
        obtain ⟨run, hrun, hsource⟩ := Option.map_eq_some_iff.mp hr.symm
        exact hstays hrun hsource.symm
    | @created mail r₀ businessId hstores hruns =>
        rw [hruns, Dict.get?_set] at hrun'
        split at hrun'
        · obtain rfl := Option.some.inj hrun'
          exact ⟨_, (hstores db.nextId).trans (if_pos rfl), rfl⟩
        · exact hstays hrun' rfl
  · cases hrow : db.jobs.get? j with
    | some row =>
        have hopen' := open_before heffect hcurrent.fresh hrow hrow' hopen
        obtain ⟨row'', hrow'', hsame⟩ := (jobsWrite heffect hcurrent.fresh).stays hrow
        obtain rfl := Option.some.inj (hrow''.symm.trans hrow')
        have hkind' := hsame.kind.symm.trans hkind
        obtain ⟨r, e, m, hrun, hmail, hm, hlinked, hepoch⟩ := hcurrent.reply j row hrow hkind' hopen'
        obtain ⟨m', hm', -, hlinked', hepoch'⟩ := (inboundWrite htxn).stays hcurrent.fresh hm
        refine ⟨r, e, m', hsame.runId.trans hrun, hsame.emailId.trans hmail, hm',
          hlinked'.trans hlinked, ?_⟩
        rw [hepoch']
        refine (epochOf_step heffect hcurrent.fresh hepoch).resolve_right fun hreopens => ?_
        have hresumes := resumeOpen_of_row hrow (resumesRun_of_reply hrun hkind' hopen')
        rw [hopens r hreopens] at hresumes
        cases hresumes
    | none =>
        by_cases hop : ∃ mail, op = .ingestEmail mail
        · obtain ⟨mail, rfl⟩ := hop
          obtain rfl : (ingestEmail mail env.picked env.otherPicked db).2 = db' :=
            congrArg Prod.snd (Except.ok.inj htxn)
          obtain ⟨r, e, m, hnew⟩ := newReply mail _ _ hrow hrow' hkind
          have hepoch : db.epochOf r = some m.epoch := by
            obtain ⟨hsame, -, hadds⟩ | ⟨-, rfl⟩ := hnew.origin
            · rw [requeuesCurrent, hsame, Option.all_some, hnew.linked, Option.all_some] at hrequeues
              simpa [hadds] using hrequeues
            · obtain ⟨run, hrun, -⟩ := Option.map_eq_some_iff.mp hnew.awaiting
              rw [arrived, Option.elim_some, Db.epochOf, hrun]
              rfl
          refine ⟨r, e, m, hnew.runId, hnew.emailId, hnew.stored, hnew.linked, ?_⟩
          refine (epochOf_step heffect hcurrent.fresh hepoch).resolve_right fun hreopens => ?_
          cases hreopens
        · have hold := (noReply heffect (fun mail h => hop ⟨mail, h⟩)).old j row' hrow' hkind
          rw [hrow] at hold
          cases hold

omit [PyText] in
theorem reopenedSince_cons {c : Commit} (h : leaseBy i c = none) :
    reopenedSince i r (c :: log) =
      (decide (reopens c.op c.answer = some r) || reopenedSince i r log) := by
  rw [reopenedSince, since, h]
  rfl

omit [PyText] in
theorem reopenedSince_lease {c : Commit} (h : leaseBy i c = some job) :
    reopenedSince i r (c :: log) = false := by
  have hclaims : reopens c.op c.answer = none := by
    obtain ⟨k, op, a, before, after⟩ := c
    unfold leaseBy at h
    split at h
    · cases op with
      | claimJob => rfl
      | _ => cases h
    · cases h
  exact since_cons_of_not (by rw [h]; rfl) (by rw [hclaims]; rfl)

theorem Linked.step (h : Linked i db log r e m) (htxn : txn env op db = .ok (a, db')) (hfresh : Fresh db)
    (hlease : leaseBy i ⟨k, op, a, db, db'⟩ = none) :
    ∃ m', m'.mail = m.mail ∧ Linked i db' (⟨k, op, a, db, db'⟩ :: log) r e m' := by
  obtain ⟨m', hm', hmail, hlinked, hepoch⟩ := (inboundWrite htxn).stays hfresh h.stored
  refine ⟨m', hmail, hm', hlinked.trans h.linked, fun hsince => ?_⟩
  rw [reopenedSince_cons hlease, Bool.or_eq_false_iff, decide_eq_false_iff_not] at hsince
  rw [hepoch]
  exact (epochOf_step (txn_effect htxn) hfresh (h.epoch hsince.2)).resolve_right hsince.1

theorem Held.step (h : Held i job db log) (htxn : txn env op db = .ok (a, db')) (hfresh : Fresh db)
    (hopens : ∀ r, reopens op a = some r → resumeOpen db r = false)
    (hlease : leaseBy i ⟨k, op, a, db, db'⟩ = none) :
    Held i job db' (⟨k, op, a, db, db'⟩ :: log) := by
  have heffect := txn_effect htxn
  refine ⟨(leaseOf_cons hlease).trans h.last, h.copied.step heffect hfresh,
    fun r hresumes hrun hlocked => ?_, fun r e hreply => ?_⟩
  · have hbefore := locked_before heffect hfresh h.copied hlocked
    rw [reopenedSince_cons hlease, Bool.or_eq_false_iff, decide_eq_false_iff_not]
    refine ⟨fun hreopens => ?_, h.kept r hresumes hrun hbefore⟩
    obtain ⟨row, hrow⟩ := Option.isSome_iff_exists.mp hbefore
    obtain ⟨hstored, hleased, -⟩ := lockedJob_some hrow
    obtain ⟨row', hrow', hkind, hrunId, -⟩ := h.copied.row
    obtain rfl := Option.some.inj (hrow'.symm.trans hstored)
    have hopen : resumesRun r row' = true := by
      unfold resumesRun resumes at *
      rw [hkind, hrunId, hrun, hresumes]
      simp [isOpen, hleased]
    have hresume := resumeOpen_of_row hstored hopen
    rw [hopens r hreopens] at hresume
    cases hresume
  · obtain ⟨m, hm⟩ := h.reply r e hreply
    obtain ⟨m', -, hm'⟩ := hm.step htxn hfresh hlease
    exact ⟨m', hm'⟩

theorem Knows.step (h : Knows i s db log) (htxn : txn env op db = .ok (a, db')) (hfresh : Fresh db)
    (hopens : ∀ r, reopens op a = some r → resumeOpen db r = false)
    (hlease : leaseBy i ⟨k, op, a, db, db'⟩ = none) : Knows i s db' (⟨k, op, a, db, db'⟩ :: log) := by
  refine ⟨fun job hjob => (h.held job hjob).step htxn hfresh hopens hlease,
    fun d hd => (h.seen d hd).step htxn hfresh, fun job hjob m hm => ?_⟩
  obtain ⟨r, e, m', hresumes, hrun, hmail, hlinked⟩ := h.loaded job hjob m hm
  obtain ⟨m'', hmail', hlinked'⟩ := hlinked.step htxn hfresh hlease
  exact ⟨r, e, m'', hresumes, hrun, hmail'.trans hmail, hlinked'⟩

/-- A lease is taken on an open job, whose reply is one of the current epoch. -/
theorem held_claim (htxn : txn env .claimJob db = .ok (some job, db')) (hcurrent : Current db) :
    Held i job db' (⟨i, .claimJob, some job, db, db'⟩ :: log) := by
  have heffect := txn_effect htxn
  have hlease : leaseBy i ⟨i, .claimJob, some job, db, db'⟩ = some job := if_pos rfl
  refine ⟨leaseOf_claim hlease, copied_claim heffect, fun r _ _ _ => reopenedSince_lease hlease,
    fun r e hreply => ?_⟩
  obtain ⟨row, hrow, hclaim, rfl⟩ := Bookkeeping.leased_row heffect
  have hopen : isOpen row = true := by
    unfold claimable at hclaim
    simp only [Bool.and_eq_true, Bool.or_eq_true, decide_eq_true_eq] at hclaim
    obtain ⟨-, ⟨hstate, -⟩ | ⟨hstate, -⟩⟩ := hclaim <;> simp [isOpen, hstate]
  obtain ⟨r', e', m, hrun, hmail, hm, hlinked, hepoch⟩ :=
    hcurrent.reply env.picked row hrow hreply.kind hopen
  obtain rfl : r' = r := Option.some.inj (hrun.symm.trans hreply.runId)
  obtain rfl : e' = e := Option.some.inj (hmail.symm.trans hreply.emailId)
  obtain ⟨m', hm', -, hlinked', hepoch'⟩ := (inboundWrite htxn).stays hcurrent.fresh hm
  refine ⟨m', hm', hlinked'.trans hlinked, fun _ => ?_⟩
  rw [hepoch']
  refine (epochOf_step heffect hcurrent.fresh hepoch).resolve_right fun hreopens => ?_
  cases hreopens

omit [PyText] in
theorem linked_of_loaded {rank : Uuid → Nat} {p : Uuid × Inbound}
    (h : p ∈ loadConsumedReplies rank r db) : Linked i db log r p.1 p.2 := by
  rw [loadConsumedReplies, List.mem_insertionSort, List.mem_filter, decide_eq_true_eq] at h
  obtain ⟨hmem, hrun, -, hepoch⟩ := h
  exact ⟨(Dict.get?_eq_some_iff ..).mpr hmem, hrun, fun _ => hepoch⟩

omit [PyText] in
theorem knows_error (e : Exn) (h : Knows i s db log) : Knows i (s.next op (.error e)) db log := by
  have hsilent : leasedBy op (.error e) = none ∧ seenBy op (.error e) = [] ∧
    loadedBy op (.error e) = [] := by
    cases op <;> exact ⟨rfl, rfl, rfl⟩
  rw [Reader.next, hsilent.1, hsilent.2.1, hsilent.2.2]
  exact ⟨h.held, h.seen, h.loaded⟩

theorem knows_next (h : Knows i s db' log) (hclaim : leasedBy op (.ok a) = none)
    (htxn : txn env op db = .ok (a, db'))
    (hop : s.allows op) : Knows i (s.next op (.ok a)) db' log := by
  have hlease : (s.next op (.ok a)).lease = s.lease := by rw [Reader.next, hclaim]
  rw [Reader.next, hclaim]
  refine ⟨h.held, fun d hd => ?_, fun job hjob m hm => ?_⟩
  · obtain hnew | hold := List.mem_append.mp hd
    · cases op with
      | query =>
          cases htxn
          obtain rfl := List.mem_singleton.mp hnew
          exact .refl _
      | _ => cases hnew
    · exact h.seen d hold
  · obtain hnew | hold := List.mem_append.mp hm
    · cases op with
      | loadConsumedReplies r =>
          cases htxn
          obtain ⟨p, hp, rfl⟩ := List.mem_map.mp hnew
          obtain ⟨job', hjob', hresumes, hrun⟩ := hop
          obtain rfl := Option.some.inj (hjob'.symm.trans hjob)
          exact ⟨r, p.1, p.2, hresumes, hrun, rfl, linked_of_loaded hp⟩
      | _ => cases hnew
    · exact h.loaded job hjob m hold

theorem knows_own (h : Knows i s db log) (htxn : txn env op db = .ok (a, db')) (hcurrent : Current db)
    (hopens : ∀ r, reopens op a = some r → resumeOpen db r = false) (hop : s.allows op)
    {x : Except Exn (Ans op)}
    (hx : x = .ok a ∨ ∃ e, x = .error e) : Knows i (s.next op x) db' (⟨i, op, a, db, db'⟩ :: log) := by
  cases hclaim : leasedBy op (.ok a) with
  | some job =>
      obtain rfl : op = .claimJob := by
        cases op with
        | claimJob => rfl
        | _ => cases hclaim
      have hjob : a = some job := hclaim
      subst hjob
      obtain rfl | ⟨e, rfl⟩ := hx
      · refine ⟨fun job' hjob' => ?_, fun d hd => ?_, fun _ _ m hm => ?_⟩
        · cases hjob'
          exact held_claim htxn hcurrent
        · cases hd
        · cases hm
      · have hnone : s.lease = none := hop
        refine knows_error e ⟨fun job' hjob' => ?_,
          fun d hd => (h.seen d hd).step htxn hcurrent.fresh, fun job' hjob' => ?_⟩
        · exact absurd (hnone.symm.trans hjob') nofun
        · exact absurd (hnone.symm.trans hjob') nofun
  | none =>
      have hlease : leaseBy i ⟨i, op, a, db, db'⟩ = none := (if_pos rfl).trans hclaim
      have hstep := h.step htxn hcurrent.fresh hopens hlease
      obtain rfl | ⟨e, rfl⟩ := hx
      · exact knows_next hstep hclaim htxn hop
      · exact knows_error e hstep

omit [PyText] in
theorem isolated_extract {email : ReadEmail} (h : Knows i s db log) (hcurrent : Current db)
    (hop : s.allows (.extract email)) (hheld : extractsHeld i db log (.extract email) = true)
    (hm : db.inbound.get? e = some m) (hrun : m.runId = some r) (huses : Uses email m) :
    db.epochOf r = some m.epoch := by
  obtain ⟨job, hjob, hnames, hpriors⟩ := hop
  have hlease := h.held job hjob
  have hunopened : ∀ r, resumes job = true → job.runId = some r → reopenedSince i r log = false := by
    intro r hresumes hrun
    rw [extractsHeld, hlease.last, Option.all_some, hrun, Option.all_some, hresumes] at hheld
    by_contra hreopened
    rw [Bool.not_eq_false] at hreopened
    have hlocked : (lockedJob db job).isSome = true := by simpa [hreopened] using hheld
    rw [hlease.kept r hresumes hrun hlocked] at hreopened
    cases hreopened
  have hsame : ∀ {e' m'}, db.inbound.get? e' = some m' → m'.mail.messageId = m.mail.messageId →
    e' = e ∧ m' = m := by
    intro e' m' hm' hid
    obtain rfl := hcurrent.mails e' e m' m hm' hm hid
    exact ⟨rfl, Option.some.inj (hm'.symm.trans hm)⟩
  obtain hcurrentReply | ⟨p, hp, hid⟩ := huses
  · obtain ⟨d, hd, e₀, m₀, hm₀, hid, ⟨r₀, hreply⟩ | ⟨d', hd', r₀, run, hrun₀, rfl⟩⟩ :=
    hnames _ hcurrentReply
    · obtain ⟨m₁, hm₁, hmail, -⟩ := (h.seen d hd).inbound e₀ m₀ hm₀
      obtain ⟨rfl, rfl⟩ := hsame hm₁ (by rw [hmail, hid])
      obtain ⟨m₂, hlinked⟩ := hlease.reply r₀ e₀ hreply
      obtain rfl := Option.some.inj (hlinked.stored.symm.trans hm)
      obtain rfl := Option.some.inj (hlinked.linked.symm.trans hrun)
      exact hlinked.epoch (hunopened _ (by simp [resumes, hreply.kind]) hreply.runId)
    · obtain ⟨m₁, hm₁, hmail, -⟩ := (h.seen d hd).inbound _ m₀ hm₀
      obtain ⟨he, rfl⟩ := hsame hm₁ (by rw [hmail, hid])
      obtain ⟨run', hrun', hsource⟩ := (h.seen d' hd').source r₀ run hrun₀
      obtain ⟨m₂, hm₂, hunlinked⟩ := hcurrent.source r₀ run' hrun'
      rw [hsource, he, hm] at hm₂
      rw [← Option.some.inj hm₂, hrun] at hunlinked
      cases hunlinked
  · obtain ⟨r₀, e₀, m₀, hresumes, hjobRun, hmail, hlinked⟩ := h.loaded job hjob p (hpriors p hp)
    obtain ⟨rfl, rfl⟩ := hsame hlinked.stored (by rw [hmail, hid])
    obtain rfl := Option.some.inj (hlinked.linked.symm.trans hrun)
    exact hlinked.epoch (hunopened _ hresumes hjobRun)

theorem preserved : World.Preserved recorder thread separateEpochs Current reader .fresh
    (fun db log => Current db ∧ ∀ c ∈ log, Isolated c) Knows where
  init _ h := ⟨h, fun _ hc => by cases hc⟩
  follows k _ := thread_follows k
  fresh i db log _ := ⟨fun _ h => (by cases h), fun _ h => (by cases h), fun _ h => (by cases h)⟩
  shared i env op s db log hG hJ hop hrules := by
    change Current (exec env op db).2 ∧ ∀ c ∈ commits i env op db ++ log, Isolated c
    obtain ⟨hopens, hrequeues, hextracts⟩ := hrules
    rcases commit_cases i env op db with ⟨e, hexec, hcommits⟩ | ⟨a, db', htxn, hdb, hcommits, -⟩
    · rw [hexec, hcommits]
      exact hG
    · rw [opensUnresumed, hcommits] at hopens
      rw [hdb, hcommits]
      refine ⟨current_step htxn hG.1 (fun r hr => ?_) hrequeues, fun c hc => ?_⟩
      · simpa [hr] using hopens
      · obtain rfl | hc := List.mem_cons.mp hc
        · intro email hemail e m r hm hrun huses
          change op = .extract email at hemail
          subst hemail
          exact isolated_extract hJ hG.1 hop hextracts hm hrun huses
        · exact hG.2 c hc
  own i env op s db log hG hJ hop hrules := by
    change Knows i (s.next op (exec env op db).1) (exec env op db).2 (commits i env op db ++ log)
    have hopens := hrules.1
    rcases commit_cases i env op db with ⟨e, hexec, hcommits⟩ | ⟨a, db', htxn, hdb, hcommits, hanswer⟩
    · rw [hexec, hcommits]
      exact knows_error e hJ
    · rw [opensUnresumed, hcommits] at hopens
      rw [hdb, hcommits]
      refine knows_own hJ htxn hG.1 (fun r hr => ?_) hop hanswer
      simpa [hr] using hopens
  other i env op s db log hG _ _ hrules j t hji hJ := by
    change Knows j t (exec env op db).2 (commits i env op db ++ log)
    have hopens := hrules.1
    rcases commit_cases i env op db with ⟨e, hexec, hcommits⟩ | ⟨a, db', htxn, hdb, hcommits, -⟩
    · rw [hexec, hcommits]
      exact hJ
    · rw [opensUnresumed, hcommits] at hopens
      rw [hdb, hcommits]
      refine hJ.step htxn hG.1.fresh (fun r hr => ?_) (leaseBy_of_ne hji.symm)
      simpa [hr] using hopens

/-- A reply is extracted only in the epoch in which it was linked to its run. -/
theorem replies_of_epoch {w : World Op Ans Exn Db Commit}
    (h : World.Reach recorder thread separateEpochs Current w) : ∀ c ∈ w.log, Isolated c :=
  (preserved.reach h).1.2

end

section Histories

attribute [local instance] asciiText

theorem current_emptyDb : Current emptyDb := by
  have hinbound : ∀ e, emptyDb.inbound.get? e = none := fun _ => rfl
  refine ⟨Fresh.of_keys (by decide), fun i j m m' hm => ?_, fun r run hrun => ?_, fun j row hrow => ?_⟩
  · rw [hinbound] at hm
    cases hm
  · have hruns : emptyDb.runs.get? r = none := rfl
    rw [hruns] at hrun
    cases hrun
  · have hjobs : emptyDb.jobs.get? j = none := rfl
    rw [hjobs] at hrow
    cases hrow

instance : DecidablePred separateEpochs.spawns := fun _ => inferInstanceAs (Decidable True)

instance (i : Nat) (env : Env) (op : Op) (db : Db) (log : List Commit) :
    Decidable (separateEpochs.permits i env op db log) :=
  inferInstanceAs (Decidable (opensUnresumed i env op db = true ∧ requeuesCurrent db op = true ∧
    extractsHeld i db log op = true))

/-- The commit extracts the reply, which was linked to the run in the epoch, and
the run is in `now`. -/
def extractsReply (e r : Uuid) (epoch now : Nat) (c : Commit) : Bool :=
  match c.op with
  | .extract email => (c.before.inbound.get? e).any fun m =>
      email.messageId = some m.mail.messageId && m.runId = some r && m.epoch = epoch &&
        c.before.epochOf r = some now
  | _ => false

/-- A worker dies, and an operator triggers the run again. -/
def retriggers (i : Nat) (r : Uuid) : List (Event Thread Env) :=
  [.spawn (.pass 1000), .run i {}, .spawn (.retrigger r), .run (i + 1) {}]

/-- The resume of a reply dies, the run is triggered again, and the job of the
reply is reclaimed in the new epoch. -/
def outlived : List (Event Thread Env) := oneAnswered ++ works 4 7 20 misnamed ++ retriggers 5 11 ++
    works 7 18 20 misnamed

def restarted : List (Event Thread Env) :=
  arrives 0 5 none ++ works 1 4 12 misnamed ++ retriggers 2 11 ++ works 4 15 14 misnamed ++
    works 5 5 18 misnamed ++ arrives 6 40 (some 16) ++ works 7 18 22 silent

theorem extractsReply_some {e r : Uuid} {epoch now : Nat} {c : Commit}
    (h : extractsReply e r epoch now c = true) :
    ∃ email m, c.op = .extract email ∧ c.before.inbound.get? e = some m ∧ m.runId = some r ∧
      m.epoch = epoch ∧ Uses email m ∧ c.before.epochOf r = some now := by
  unfold extractsReply at h
  cases hop : c.op with
  | extract email =>
      rw [hop] at h
      cases hm : c.before.inbound.get? e with
      | none =>
          rw [hm] at h
          cases h
      | some m =>
          rw [hm] at h
          simp only [Option.any_some, Bool.and_eq_true, decide_eq_true_eq] at h
          obtain ⟨⟨⟨hid, hrun⟩, hepoch⟩, hnow⟩ := h
          exact ⟨email, m, rfl, rfl, hrun, hepoch, .inl hid, hnow⟩
  | _ =>
      rw [hop] at h
      cases h

/-- The reply of the old conversation is extracted in the new one. -/
theorem reply_outlives_epoch : ¬ ∀ w : World Op Ans Exn Db Commit,
    World.Reach recorder thread World.Rules.any Current w → ∀ c ∈ w.log, Isolated c := by
  intro h
  have hreach := reach_recordedAfter current_emptyDb outlived
  have hany : (recordedAfter emptyDb outlived).log.any (extractsReply 19 11 0 1) = true := by
    decide +kernel
  generalize recordedAfter emptyDb outlived = w at *
  obtain ⟨c, hc, hextracts⟩ := List.any_eq_true.mp hany
  obtain ⟨email, m, hop, hm, hrun, hepoch, huses, hnow⟩ := extractsReply_some hextracts
  have hsame := h w hreach c hc email hop 19 m 11 hm hrun huses
  rw [hnow, hepoch] at hsame
  cases hsame

/-- The reply of the new conversation is extracted in its epoch. -/
theorem replies_of_epoch_restarted : ∃ c ∈ (recordedAfter emptyDb restarted).log, ∃ email m,
    c.op = .extract email ∧ c.before.inbound.get? 21 = some m ∧ Uses email m ∧ m.epoch = 1 ∧
    c.before.epochOf 11 = some 1 := by
  have hreach : World.Reach recorder thread separateEpochs Current (recordedAfter emptyDb restarted) :=
    reach_recordedAfter_of_permits current_emptyDb (by decide +kernel)
  have hany : (recordedAfter emptyDb restarted).log.any (extractsReply 21 11 1 1) = true := by
    decide +kernel
  generalize recordedAfter emptyDb restarted = w at *
  obtain ⟨c, hc, hextracts⟩ := List.any_eq_true.mp hany
  obtain ⟨email, m, hop, hm, hrun, hepoch, huses, -⟩ := extractsReply_some hextracts
  have hnow := replies_of_epoch hreach c hc email hop 21 m 11 hm hrun huses
  exact ⟨c, hc, email, m, hop, hm, huses, hepoch, by rw [hnow, hepoch]⟩

end Histories

end PayrollAgent.EpochIsolation
