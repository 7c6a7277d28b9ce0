import PayrollAgent.Asking

namespace PayrollAgent.ReplyReads

open Lib Repo AliasLearning Calculate ReconcileNames Orchestrator Handlers ClarificationWrites
  Ingest RunStages Resume CombinedEmail Asking

inductive Stage
  | holding
  | found (row : Inbound)
  | entered
  | claimed (since : List Db)
  | read
  | lost

structure Replies (job : Job) (r e : Uuid) : Prop where
  kind : job.kind = .resumeReply
  runId : job.runId = some r
  emailId : job.emailId = some e

def resumes (job : Job) : Bool := job.kind = .resumeReply || job.kind = .operatorResume

/-- The gate of `reenter`. -/
def gateOpen (job : Job) (paused status : RunStatus) : Bool :=
  status = paused || (1 < job.attempts && (status = .received || status ∈ rewindStatuses))

/-- The checks of `handle_resume_reply` let the worker in. -/
def letsIn (job : Job) (row : Inbound) (db : Db) : Bool :=
  job.runId.any fun r => (db.runs.get? r).any fun run =>
    row.runId = some r && replySenderOk db row.mail run && gateOpen job .awaitingReply run.status

def Stage.next (job : Job) : Stage → (op : Op) → Except Exn (Ans op) → Stage
  | .holding, .query, .ok d =>
      match job.emailId.bind (d : Db).inbound.get? with
      | some row => .found row
      | none => .lost
  | .found row, .query, .ok d => if letsIn job row d then .entered else .lost
  | .entered, .claimStatus _ .received .extracting, .ok true => .claimed []
  | .entered, .claimStatus _ _ _, .ok true => .entered
  | .entered, .rewindForReclaim _, .ok true => .entered
  | .claimed since, .query, .ok d => .claimed (d :: since)
  | .claimed _, .markReplyConsumed _ _, .ok _ => .read
  | .read, _, _ => .read
  | _, _, _ => .lost

/-- The lease of a thread, how far it is with the reply, what its queries
showed since, and the consumed replies it loaded. -/
structure Reader where
  lease : Option Job
  stage : Stage
  seen : List Db
  loaded : List Inbound

def Reader.fresh : Reader := ⟨none, .lost, [], []⟩

def seenBy : (op : Op) → Except Exn (Ans op) → List Db
  | .query, .ok d => [d]
  | _, _ => []

def loadedBy : (op : Op) → Except Exn (Ans op) → List Inbound
  | .loadConsumedReplies _, .ok rows => rows.map Prod.snd
  | _, _ => []

def leasedBy : (op : Op) → Except Exn (Ans op) → Option Job
  | .claimJob, .ok job => job
  | _, _ => none

def Reader.next (s : Reader) (op : Op) (x : Except Exn (Ans op)) : Reader :=
  match leasedBy op x with
  | some job => ⟨some job, .holding, [], []⟩
  | none =>
      { lease := s.lease
        stage := s.lease.elim .lost fun job => s.stage.next job op x
        seen := seenBy op x ++ s.seen
        loaded := loadedBy op x ++ s.loaded }

/-- The Message-ID is that of the reply, or of the mail a run came from. -/
def Reader.Names (s : Reader) (job : Job) (messageId : Uuid) : Prop :=
  ∃ d ∈ s.seen, ∃ e m, d.inbound.get? e = some m ∧ m.mail.messageId = messageId ∧
    ((∃ r, Replies job r e) ∨
      ∃ d' ∈ s.seen, ∃ r run, d'.runs.get? r = some run ∧ run.sourceEmailId = e)

def priors : Body → List Inbound
  | .plain _ => []
  | .combined _ _ priorReplies _ => priorReplies

def Reader.Reads (s : Reader) (email : ReadEmail) : Prop :=
  ∃ job, s.lease = some job ∧ (∀ messageId, email.messageId = some messageId → s.Names job messageId) ∧
    ∀ m ∈ priors email.body, m ∈ s.loaded

/-- The reply of the job is consumed in the round that was read after the claim. -/
def Reader.Consumes (s : Reader) (messageId round : Nat) : Prop :=
  ∃ job r e m since d, s.lease = some job ∧ Replies job r e ∧
    (∃ d' ∈ s.seen, d'.inbound.get? e = some m) ∧
    m.runId = some r ∧ m.mail.messageId = messageId ∧ s.stage = .claimed since ∧ d ∈ since ∧
      round = roundOf d r

def Reader.Done (s : Reader) (job : Job) : Prop :=
  s.lease = some job ∧ ∀ r e, Replies job r e → s.stage = .read ∨ s.stage = .lost

def Reader.allows (s : Reader) : Op → Prop
  | .claimJob => s.lease = none
  | .settlePipelineJob job _ => s.Done job
  | .settleOutboundDeliveryJob job _ => s.lease = some job ∧ job.kind = .sendOutbound
  | .claimStatus r .received .extracting => ∃ job, s.lease = some job ∧ job.runId = some r
  | .markReplyConsumed messageId round => s.Consumes messageId round
  | .loadConsumedReplies r => ∃ job, s.lease = some job ∧ resumes job = true ∧ job.runId = some r
  | .extract email => s.Reads email
  | _ => True

/-- A worker reads a reply, or finds out that it cannot, before it settles the
job, and its extractions read what it loaded. -/
def reader : Prog.Monitor Op Ans Exn Reader := ⟨Reader.allows, Reader.next⟩

def Reading (emails : ResumeEmails) : Op → Prop
  | .claimJob => False
  | .settlePipelineJob _ _ => False
  | .settleOutboundDeliveryJob _ _ => False
  | .claimStatus _ .received .extracting => False
  | .markReplyConsumed _ _ => False
  | .loadConsumedReplies _ => False
  | .extract email => email = emails.reply ∨ email = emails.combined
  | _ => True

/-- The worker read its reply, if it has one, and may extract from the emails. -/
structure Ready (s : Reader) (job : Job) (emails : ResumeEmails) : Prop where
  lease : s.lease = some job
  stage : ∀ r e, Replies job r e → s.stage = .read
  reply : s.Reads emails.reply
  combined : s.Reads emails.combined

variable {α β : Type} {s t : Reader} {job : Job} {r r' e : Uuid} {emails : ResumeEmails} {op : Op}

theorem next_of_lease (hlease : s.lease = some job) (x : Except Exn (Ans op)) (h : leasedBy op x = none) :
    s.next op x = ⟨some job, s.stage.next job op x, seenBy op x ++ s.seen,
    loadedBy op x ++ s.loaded⟩ := by
  rw [Reader.next, h, hlease]
  rfl

theorem leasedBy_none (h : op ≠ .claimJob) (x : Except Exn (Ans op)) : leasedBy op x = none := by
  cases op with
  | claimJob => exact absurd rfl h
  | _ => rfl

theorem leasedBy_error (e : Exn) : leasedBy op (.error e) = none := by
  cases op <;> rfl

theorem stage_next (hlease : s.lease = some job) (hop : op ≠ .claimJob) (x : Except Exn (Ans op)) :
    (s.next op x).stage = s.stage.next job op x := by
  rw [next_of_lease hlease x (leasedBy_none hop x)]

/-- The lease stays, what was read stays read, and what was seen is remembered. -/
structure Onward (s t : Reader) : Prop where
  lease : t.lease = s.lease
  stage : s.stage = .read → t.stage = .read
  seen : ∀ d ∈ s.seen, d ∈ t.seen
  loaded : ∀ m ∈ s.loaded, m ∈ t.loaded

theorem Onward.refl (s : Reader) : Onward s s := ⟨rfl, id, fun _ => id, fun _ => id⟩

theorem Onward.trans {u : Reader} (h : Onward s t) (h' : Onward t u) : Onward s u :=
  ⟨h'.lease.trans h.lease, fun hs => h'.stage (h.stage hs), fun d hd => h'.seen d (h.seen d hd),
    fun m hm => h'.loaded m (h.loaded m hm)⟩

theorem Onward.next (hlease : s.lease = some job) (hop : op ≠ .claimJob) (x : Except Exn (Ans op)) :
    Onward s (s.next op x) := by
  rw [next_of_lease hlease x (leasedBy_none hop x)]
  refine ⟨hlease.symm, fun hread => ?_, fun _ => List.mem_append_right _,
    fun _ => List.mem_append_right _⟩
  rw [hread]
  rfl

theorem Reader.Names.onward {messageId : Uuid} (h : s.Names job messageId) (hst : Onward s t) :
    t.Names job messageId := by
  obtain ⟨d, hd, e, m, hm, hsame, hreply | ⟨d', hd', hsource⟩⟩ := h
  · exact ⟨d, hst.seen d hd, e, m, hm, hsame, .inl hreply⟩
  · exact ⟨d, hst.seen d hd, e, m, hm, hsame, .inr ⟨d', hst.seen d' hd', hsource⟩⟩

theorem Reader.Reads.onward {email : ReadEmail} (h : s.Reads email) (hst : Onward s t) :
    t.Reads email := by
  obtain ⟨job, hjob, hnames, hpriors⟩ := h
  exact ⟨job, hst.lease.trans hjob, fun messageId hid => (hnames messageId hid).onward hst,
    fun m hm => hst.loaded m (hpriors m hm)⟩

theorem Ready.onward (hs : Ready s job emails) (hst : Onward s t) : Ready t job emails :=
  ⟨hst.lease.trans hs.lease, fun r e hreply => hst.stage (hs.stage r e hreply), hs.reply.onward hst,
    hs.combined.onward hst⟩

theorem allows_reading (hs : Ready s job emails) (hop : Reading emails op) : s.allows op := by
  cases op with
  | claimJob => cases hop
  | extract email =>
      obtain rfl | rfl := hop
      · exact hs.reply
      · exact hs.combined
  | settlePipelineJob job result => cases hop
  | settleOutboundDeliveryJob job result => cases hop
  | markReplyConsumed messageId round => cases hop
  | loadConsumedReplies r => cases hop
  | claimStatus r expected new =>
      unfold Reader.allows
      split <;> first | trivial | skip
      all_goals simp_all [Reading]
  | _ => trivial

theorem Reading.ne (hop : Reading emails op) : op ≠ .claimJob := by
  rintro rfl
  exact hop

theorem Ready.follows {p : Act α} (hs : Ready s job emails) (hp : p.Calls (Reading emails)) :
    Prog.Follows reader (fun t _ => Ready t job emails) p s :=
  Prog.Calls.follows (R := fun t => Ready t job emails) (fun _ _ ht hop => allows_reading ht hop)
    (fun _ _ x ht hop => ht.onward (.next ht.lease hop.ne x)) hp hs

theorem reads_query : (query : Act Db).Calls (Reading emails) := .perform trivial

theorem reads_staged {p : Act α} (stage : PipelineStage) (h : p.Calls (Reading emails)) :
    (staged stage p).Calls (Reading emails) :=
  .catching h fun _ => trivial

theorem reads_extract {email : ReadEmail} (h : email = emails.reply ∨ email = emails.combined) :
    (extract r email).Calls (Reading emails) :=
  .bind (reads_staged _ (.perform h)) fun _ => trivial

theorem reads_extractions (ctx : ResumeContext) : (extractions r ctx emails).Calls (Reading emails) :=
  .ite (.bind (reads_extract (.inl rfl)) fun _ => .bind (reads_extract (.inr rfl)) fun _ => trivial)
    (.bind (reads_extract (.inr rfl)) fun _ => trivial)

section

variable [PyText]

theorem reads_ask (decision : Decision) (roster : Roster) (extracted : Extracted)
    (purpose : Purpose) (round : Nat) :
    (ask r decision roster extracted purpose round).Calls (Reading emails) :=
  .bind (.perform trivial) fun _ => .bind (.perform trivial) fun _ => .perform trivial

theorem reads_clarify (decision : Decision) (roster : Roster) (extracted : Extracted)
    (purpose : Purpose) : (clarify r decision roster extracted purpose).Calls (Reading emails) := by
  refine .bind reads_query fun (db : Db) => .ite (.perform trivial)
    (.bind reads_query fun (db₁ : Db) => ?_)
  cases getOutboundForRound db₁ r purpose (((db.runs.get? r).map Run.clarificationRound).getD 0) with
  | some p => exact .perform trivial
  | none =>
      refine .bind reads_query fun (db₂ : Db) => ?_
      cases getUnconfirmedOutbound db₂ r purpose
        (((db.runs.get? r).map Run.clarificationRound).getD 0) with
      | some p => exact .perform trivial
      | none => exact reads_ask ..

theorem reads_defer (clarified : ClarifiedFields) (issues : List ValidationIssue) (roster : Roster) :
    (deferFieldRegressionClarification r clarified issues roster).Calls (Reading emails) := by
  refine .bind reads_query fun _ => .bind (.perform trivial) fun _ =>
    .bind reads_query fun (db : Db) => ?_
  cases (db.runs.get? r).bind Run.decision with
  | none => trivial
  | some decision =>
      cases (db.runs.get? r).bind Run.extractedData with
      | none => trivial
      | some extracted => exact reads_clarify ..

theorem reads_persistAndBranch (roster : Roster) (result : Except CalculationError StageResult) :
    (persistAndBranch r roster result).Calls (Reading emails) := by
  cases result with
  | error e => trivial
  | ok st =>
      refine .bind (reads_staged _ (.perform trivial)) fun _ => .ite trivial ?_
      exact .bind (reads_staged _ (reads_clarify ..)) fun _ => trivial

theorem reads_bindAliases (roster : Roster) (candidates : AliasCandidates) :
    (bindAliases r roster candidates).Calls (Reading emails) :=
  .ite trivial (.bind (reads_staged _ reads_query) fun _ => .ite trivial
    (reads_staged _ (.perform trivial)))

theorem reads_resumeFrom (ctx : ResumeContext) (overrides : Option Overrides) :
    (resumeFrom r ctx emails overrides).Calls (Reading emails) := by
  refine .bind (reads_extractions ctx) fun x => .bind
    (.ite (reads_staged _ (.perform trivial)) trivial) fun _ => ?_
  refine .bind (reads_persistAndBranch _ _) fun st => .ite ?_ ?_
  · exact .bind (reads_staged _ (reads_defer ..)) fun _ => trivial
  · exact .bind (reads_bindAliases ..) fun _ => trivial

end

abbrev Plain (p : Act α) : Prop := p.Calls fun op => op ≠ .claimJob ∧ ∀ s : Reader, s.allows op

theorem plain_perform {op : Op} (hop : op ≠ .claimJob) (h : ∀ s : Reader, s.allows op) :
    Plain (Orchestrator.perform op) :=
  .perform ⟨hop, h⟩

theorem plain_query : Plain query := plain_perform nofun fun _ => trivial

theorem plain_staged {p : Act α} (stage : PipelineStage) (h : Plain p) : Plain (staged stage p) :=
  .catching h fun _ => trivial

theorem plain_loadRun (stage : PipelineStage) : Plain (loadRun r stage) := by
  refine .bind (plain_staged _ plain_query) fun (db : Db) => ?_
  cases db.runs.get? r with
  | none => trivial
  | some run => trivial

theorem plain_loadRoster (businessId : Uuid) : Plain (loadRoster businessId) := by
  refine .bind (plain_staged _ plain_query) fun (db : Db) => ?_
  cases db.rosters.get? businessId with
  | none => trivial
  | some roster => trivial

theorem Plain.follows {p : Act α} (hp : Plain p) (hlease : s.lease = some job) :
    Prog.Follows reader (fun t _ => Onward s t) p s :=
  Prog.Calls.follows (R := Onward s) (fun t _ _ hop => hop.2 t)
    (fun _ _ x ht hop => ht.trans (.next (ht.lease.trans hlease) hop.1 x)) hp (.refl s)

theorem staged_follows {p : Act α} {P : Reader → Except Exn α → Prop} (stage : PipelineStage)
    (herror : ∀ t e e', P t (.error e) → P t (.error e')) (h : Prog.Follows reader P p s) :
    Prog.Follows reader P (staged stage p) s :=
  h.catching (fun _ _ ht => ht) fun t e ht => herror t e _ ht

theorem classifying_follows {p : Act PipelineResult} {P : Reader → Prop}
    (h : Prog.Follows reader (fun t _ => P t) p s) : Prog.Follows reader (fun t _ => P t)
    (classifying p) s :=
  h.catching (fun _ _ ht => ht) fun _ _ ht => ht

theorem Onward.done (h : Onward s t) (hlease : s.lease = some job)
    (hread : ∀ r e, Replies job r e → s.stage = .read) : t.Done job :=
  ⟨h.lease.trans hlease, fun r e hreply => .inl (h.stage (hread r e hreply))⟩

theorem Ready.done (h : Ready s job emails) : s.Done job :=
  ⟨h.lease, fun r e hreply => .inl (h.stage r e hreply)⟩

theorem mem_loaded {rows : List (Uuid × Inbound)} {p : Uuid × Inbound} (hp : p ∈ rows) :
    p.2 ∈ (s.next (.loadConsumedReplies r) (.ok rows)).loaded :=
  List.mem_append_left _ (List.mem_map_of_mem hp)

theorem load_follows (hlease : s.lease = some job) (hresumes : resumes job = true)
    (hrun : job.runId = some r) :
    Prog.Follows reader (fun t x => Onward s t ∧ ∀ rows : List (Uuid × Inbound), x = .ok rows →
      ∀ p ∈ rows, p.2 ∈ t.loaded) (staged .load (Orchestrator.perform (.loadConsumedReplies r))) s := by
  refine staged_follows _ (fun t e e' h => ⟨h.1, nofun⟩)
    (Prog.follows_perform.mpr ⟨⟨job, hlease, hresumes, hrun⟩, fun x => ⟨?_, ?_⟩⟩)
  · exact .next hlease (fun h => by cases h) x
  · rintro rows rfl p hp
    exact mem_loaded hp

theorem resumeContext_follows [PyText] {inbound : Option InboundMail} (hlease : s.lease = some job)
    (hresumes : resumes job = true) (hrun : job.runId = some r)
    (hread : ∀ r e, Replies job r e → s.stage = .read)
    (hnames : ∀ mail, inbound = some mail → s.Names job mail.messageId) :
    Prog.Follows reader (fun t x => Onward s t ∧ ∀ ctx emails, x = .ok (ctx, emails) → Ready t job emails)
      (resumeContext r inbound) s := by
  refine Prog.Follows.bind ((plain_loadRun _).follows hlease) (fun t₁ run h₁ => ?_) fun t e h =>
    ⟨h, nofun⟩
  refine Prog.Follows.bind ((plain_loadRoster _).follows (h₁.lease.trans hlease)) (fun t₂ roster h => ?_)
    fun t e h => ⟨h₁.trans h, nofun⟩
  have h₂ := h₁.trans h
  refine Prog.Follows.bind ((plain_loadRun _).follows (h₂.lease.trans hlease)) (fun t₃ pre h => ?_)
    fun t e h => ⟨h₂.trans h, nofun⟩
  have h₃ := h₂.trans h
  refine Prog.Follows.bind ((plain_loadRun _).follows (h₃.lease.trans hlease)) (fun t₄ snapshot h => ?_)
    fun t e h => ⟨h₃.trans h, nofun⟩
  have h₄ := h₃.trans h
  refine Prog.Follows.bind ((plain_loadRun _).follows (h₄.lease.trans hlease)) (fun t₅ clarified h => ?_)
    fun t e h => ⟨h₄.trans h, nofun⟩
  have h₅ := h₄.trans h
  refine Prog.Follows.bind ((plain_staged _ plain_query).follows (h₅.lease.trans hlease))
    (fun t₆ db h => ?_) fun t e h => ⟨h₅.trans h, nofun⟩
  have h₆ := h₅.trans h
  refine Prog.Follows.bind (load_follows (h₆.lease.trans hlease) hresumes hrun)
    (fun t₇ consumed h => ⟨h₆.trans h.1, fun ctx emails hemails => ?_⟩) fun t e h =>
    ⟨h₆.trans h.1, nofun⟩
  have h₇ := h₆.trans h.1
  obtain ⟨-, rfl⟩ := Prod.mk.inj (Except.ok.inj hemails)
  have hnamed : ∀ messageId, inbound.map InboundMail.messageId = some messageId →
    t₇.Names job messageId := by
    intro messageId hid
    obtain ⟨mail, hmail, rfl⟩ := Option.map_eq_some_iff.mp hid
    exact (hnames mail hmail).onward h₇
  refine ⟨h₇.lease.trans hlease, fun r e hreply => h₇.stage (hread r e hreply),
    ⟨job, h₇.lease.trans hlease, hnamed, fun m hm => by cases hm⟩, job, h₇.lease.trans hlease,
    hnamed, fun m hm => ?_⟩
  obtain ⟨p, hp, rfl⟩ := List.mem_map.mp (List.mem_filter.mp hm).1
  exact h.2 consumed rfl p hp

theorem Replies.run (h : Replies job r e) (hrun : job.runId = some r') : r = r' :=
  Option.some.inj (h.runId.symm.trans hrun)

theorem done_of_lost (hlease : s.lease = some job) (hlost : (∃ e, Replies job r e) → s.stage = .lost)
    (hrun : job.runId = some r) : s.Done job := by
  refine ⟨hlease, fun r' e hreply => .inr (hlost ?_)⟩
  obtain rfl := hreply.run hrun
  exact ⟨e, hreply⟩

theorem claim_follows (hlease : s.lease = some job) (hrun : job.runId = some r)
    (hentered : (∃ e, Replies job r e) → s.stage = .entered) :
    Prog.Follows reader (fun t x => Onward s t ∧ (x = .ok true → (∃ e, Replies job r e) →
      t.stage = .claimed []) ∧ (x ≠ .ok true → (∃ e, Replies job r e) → t.stage = .lost))
      (staged .persist (Orchestrator.perform (.claimStatus r .received .extracting)) : Act Bool) s := by
  have hnext : ∀ x : Except Exn (Ans (.claimStatus r .received .extracting)), (∃ e, Replies job r e) →
      (s.next _ x).stage = Stage.next job .entered _ x :=
    fun x hreply => by rw [stage_next hlease (fun h => by cases h), hentered hreply]
  refine staged_follows _ (fun t e e' h => ⟨h.1, nofun, fun _ => h.2.2 nofun⟩) (Prog.follows_perform.mpr
    ⟨⟨job, hlease, hrun⟩, fun x => ⟨.next hlease (fun h => by cases h) x, fun hx hreply => ?_,
    fun hx hreply => ?_⟩⟩)
  · subst hx
    exact hnext _ hreply
  · refine (hnext x hreply).trans ?_
    cases x with
    | error e => rfl
    | ok won =>
        cases won with
        | true => exact absurd rfl hx
        | false => rfl

theorem consumeReply_follows {mail : InboundMail} {m : Inbound} (hlease : s.lease = some job)
    (hreply : Replies job r e)
    (hstage : s.stage = .claimed []) (hseen : ∃ d ∈ s.seen, d.inbound.get? e = some m)
    (hown : m.runId = some r) (hmail : m.mail = mail) :
    Prog.Follows reader (fun t x => Onward s t ∧ (t.stage = .read ∨ ∃ e', x = .error e' ∧
      t.stage = .lost)) (consumeReply r (some mail)) s := by
  have hquery : Prog.Follows reader (fun t x => Onward s t ∧
    ((∃ d : Db, x = .ok d ∧ t.stage = .claimed [d]) ∨
      ∃ e', x = .error e' ∧ t.stage = .lost)) (staged .persist query) s := by
    refine staged_follows _
      (fun t e e' h => ⟨h.1, h.2.elim (fun ⟨d, hd, _⟩ => by cases hd)
        fun ⟨_, _, hlost⟩ => .inr ⟨e', rfl, hlost⟩⟩)
      (Prog.follows_perform.mpr ⟨trivial, fun x => ⟨.next hlease (fun h => by cases h) x, ?_⟩⟩)
    have hnext := stage_next hlease (fun h => by cases h) x
    rw [hstage] at hnext
    cases x with
    | ok d => exact .inl ⟨d, rfl, hnext⟩
    | error e' => exact .inr ⟨e', rfl, hnext⟩
  refine Prog.Follows.bind hquery (fun t d h => ?_) fun t e' h => ⟨h.1, .inr ?_⟩
  · obtain ⟨d', hd, hclaimed⟩ | ⟨e', he, -⟩ := h.2
    · obtain rfl := Except.ok.inj hd
      have hlease' := h.1.lease.trans hlease
      obtain ⟨d₀, hd₀, hm⟩ := hseen
      refine staged_follows _ (fun t e e' h => ⟨h.1, h.2.elim .inl fun ⟨_, _, hlost⟩ => .inr
        ⟨e', rfl, hlost⟩⟩)
        (Prog.follows_perform.mpr ⟨?_, fun x => ⟨h.1.trans (.next hlease' (fun h => by cases h) x), ?_⟩⟩)
      · exact ⟨job, r, e, m, [d], d, hlease', hreply, ⟨d₀, h.1.seen d₀ hd₀, hm⟩, hown, by
          rw [hmail], hclaimed, List.mem_singleton_self d, rfl⟩
      · have hnext := stage_next hlease' (fun h => by cases h) x
        rw [hclaimed] at hnext
        cases x with
        | ok a => exact .inl hnext
        | error e' => exact .inr ⟨e', rfl, hnext⟩
    · cases he
  · obtain ⟨d, hd, -⟩ | ⟨e'', he, hlost⟩ := h.2
    · cases hd
    · exact ⟨e', rfl, hlost⟩

/-- The gate of a resume lets its worker in, or its reply is lost. -/
theorem reenter_follows {paused status : RunStatus} (hlease : s.lease = some job)
    (hstage : (∃ e, Replies job r e) → s.stage = if gateOpen job paused status then .entered else .lost) :
    Prog.Follows reader (fun t x => Onward s t ∧ (x = .ok true → (∃ e, Replies job r e) →
      t.stage = .entered) ∧
      (x ≠ .ok true → (∃ e, Replies job r e) → t.stage = .lost)) (reenter job r paused status) s := by
  unfold reenter
  refine Prog.Follows.ite (fun hpaused => ?_) fun hpaused => Prog.Follows.ite (fun hagain => ?_)
    fun hagain =>
    Prog.Follows.ite (fun hrewind => ?_) fun hrewind => ?_
  · have hnext : ∀ x : Except Exn (Ans (.claimStatus r paused .received)), (∃ e, Replies job r e) →
        (s.next _ x).stage = Stage.next job .entered _ x := fun x hreply => by
      rw [stage_next hlease (fun h => by cases h), hstage hreply, if_pos (by simp [gateOpen, hpaused])]
    refine Prog.follows_perform.mpr ⟨by cases paused <;> trivial,
      fun x => ⟨.next hlease (fun h => by cases h) x, fun hx hreply => ?_, fun hx hreply => ?_⟩⟩
    · subst hx
      exact (hnext _ hreply).trans (by cases paused <;> rfl)
    · refine (hnext x hreply).trans ?_
      cases x with
      | error e => cases paused <;> rfl
      | ok won =>
          cases won with
          | true => exact absurd rfl hx
          | false => cases paused <;> rfl
  · refine ⟨.refl s, fun _ hreply => ?_, fun hx => absurd rfl hx⟩
    rw [hstage hreply, if_pos (by simp [gateOpen, hagain.1, hagain.2])]
  · have hnext : ∀ x : Except Exn (Ans (.rewindForReclaim r)), (∃ e, Replies job r e) →
        (s.next _ x).stage = Stage.next job .entered _ x := fun x hreply => by
      rw [stage_next hlease (fun h => by cases h), hstage hreply,
        if_pos (by simp [gateOpen, hrewind.1, hrewind.2])]
    refine Prog.follows_perform.mpr ⟨trivial, fun x => ⟨.next hlease (fun h => by cases h) x,
      fun hx hreply => ?_, fun hx hreply => ?_⟩⟩
    · subst hx
      exact hnext _ hreply
    · refine (hnext x hreply).trans ?_
      cases x with
      | error e => rfl
      | ok won =>
          cases won with
          | true => exact absurd rfl hx
          | false => rfl
  · refine ⟨.refl s, nofun, fun _ hreply => ?_⟩
    rw [hstage hreply, if_neg]
    simp only [gateOpen, Bool.or_eq_true, Bool.and_eq_true, decide_eq_true_eq]
    rintro (h | ⟨hattempts, h | h⟩)
    · exact hpaused h
    · exact hagain ⟨h, hattempts⟩
    · exact hrewind ⟨h, hattempts⟩

theorem resumePipeline_follows [PyText] {inbound : Option InboundMail} {overrides : Option Overrides}
    (hlease : s.lease = some job) (hresumes : resumes job = true) (hrun : job.runId = some r)
    (hreply : ∀ e, Replies job r e → s.stage = .entered ∧ ∃ m, (∃ d ∈ s.seen, d.inbound.get? e = some m) ∧
      m.runId = some r ∧ inbound = some m.mail)
    (hinbound : ∀ mail, inbound = some mail → ∃ e, Replies job r e) :
    Prog.Follows reader (fun t _ => t.Done job) (resumePipeline r inbound .received overrides) s := by
  refine classifying_follows ?_
  refine Prog.Follows.bind (claim_follows hlease hrun fun ⟨e, he⟩ => (hreply e he).1)
    (fun t claimed h => ?_) fun t e h =>
    done_of_lost (h.1.lease.trans hlease) (h.2.2 nofun) hrun
  have hlease' := h.1.lease.trans hlease
  refine Prog.Follows.ite (fun hwon => ?_) fun hlost => ?_
  · subst hwon
    have hconsume : Prog.Follows reader (fun t' x => Onward t t' ∧
      ((∃ e, Replies job r e) → t'.stage = .read ∨
        ∃ e', x = .error e' ∧ t'.stage = .lost)) (consumeReply r inbound) t := by
      cases hmail : inbound with
      | none => exact ⟨.refl t, fun ⟨e, he⟩ => by
          obtain ⟨-, m, -, -, hm⟩ := hreply e he
          rw [hmail] at hm
          cases hm⟩
      | some mail =>
          obtain ⟨e, he⟩ := hinbound mail hmail
          obtain ⟨-, m, ⟨d, hd, hm⟩, hown, hsame⟩ := hreply e he
          rw [hmail] at hsame
          exact (consumeReply_follows hlease' he (h.2.1 rfl ⟨e, he⟩) ⟨d, h.1.seen d hd, hm⟩ hown
            (Option.some.inj hsame).symm).mono fun t' x ht' => ⟨ht'.1, fun _ => ht'.2⟩
    refine Prog.Follows.bind hconsume (fun u _ hu => ?_) fun u e hu => ?_
    · have hread : ∀ r' e, Replies job r' e → u.stage = .read := by
        intro r' e he
        obtain rfl := he.run hrun
        obtain hread | ⟨e', he', -⟩ := hu.2 ⟨e, he⟩
        · exact hread
        · cases he'
      have honward := h.1.trans hu.1
      have hnames : ∀ mail, inbound = some mail → u.Names job mail.messageId := by
        intro mail hmail
        obtain ⟨e, he⟩ := hinbound mail hmail
        obtain ⟨-, m, ⟨d, hd, hm⟩, -, hsame⟩ := hreply e he
        obtain rfl := Option.some.inj (hmail.symm.trans hsame)
        exact ⟨d, honward.seen d hd, e, m, hm, rfl, .inl ⟨r, he⟩⟩
      refine Prog.Follows.bind (resumeContext_follows (honward.lease.trans hlease)
        hresumes hrun hread hnames)
        (fun v reads hv => ?_) fun v e hv => hv.1.done (honward.lease.trans hlease) hread
      exact ((hv.2 reads.1 reads.2 rfl).follows (reads_resumeFrom ..)).mono fun _ _ => Ready.done
    · refine ⟨(h.1.trans hu.1).lease.trans hlease, fun r' e' he' => ?_⟩
      obtain rfl := he'.run hrun
      exact (hu.2 ⟨e', he'⟩).imp id fun ⟨_, _, hlost⟩ => hlost
  · have hne : (Except.ok claimed : Except Exn Bool) ≠ .ok true := fun heq => hlost (Except.ok.inj heq)
    exact done_of_lost hlease' (h.2.2 hne) hrun

def Reader.of (job : Job) : Reader := ⟨some job, .holding, [], []⟩

theorem done_of_not_reply (h : Onward s t) (hlease : s.lease = some job)
    (hkind : job.kind ≠ .resumeReply) : t.Done job :=
  ⟨h.lease.trans hlease, fun _ _ hreply => absurd hreply.kind hkind⟩

theorem next_found (row : Inbound) (d : Db) :
    Stage.next job (.found row) .query (.ok d) = if letsIn job row d then .entered else .lost := rfl

theorem told_query (hlease : s.lease = some job) (d : Db) :
    Onward s (s.next .query (.ok d)) ∧ d ∈ (s.next .query (.ok d)).seen ∧
      (s.next .query (.ok d)).stage = s.stage.next job .query (.ok d) := by
  have hop : Op.query ≠ .claimJob := fun h => by cases h
  exact ⟨.next hlease hop _, List.mem_cons_self, stage_next hlease hop _⟩

theorem handleResumeReply_follows [PyText] (hkind : job.kind = .resumeReply) :
    Prog.Follows reader (fun t _ => t.Done job) (handleResumeReply job) (.of job) := by
  unfold handleResumeReply
  cases hrun : job.runId with
  | none => exact ⟨rfl, fun r e hreply => by simp [hreply.runId] at hrun⟩
  | some r =>
      cases hmail : job.emailId with
      | none => exact ⟨rfl, fun r e hreply => by simp [hreply.emailId] at hmail⟩
      | some e =>
          refine Prog.follows_perform_bind.mpr ⟨trivial, fun (d : Db) => ?_,
            fun _ => ⟨rfl, fun _ _ _ => .inr rfl⟩⟩
          obtain ⟨honward, hseen, hstage⟩ := told_query (s := .of job) rfl d
          change Prog.Follows reader _ _ (Reader.next (.of job) .query (.ok d))
          generalize Reader.next (.of job) .query (.ok d) = s₁ at *
          simp only [Reader.of, Stage.next, hmail, Option.bind_some] at hstage
          cases hrow : d.inbound.get? e with
          | none =>
              rw [hrow] at hstage
              exact ⟨honward.lease, fun _ _ _ => .inr hstage⟩
          | some row =>
              have hstage : s₁.stage = .found row := by rw [hstage, hrow]
              have hlease : s₁.lease = some job := honward.lease
              refine Prog.follows_perform_bind.mpr ⟨trivial, fun (d' : Db) => ?_, fun e' => ?_⟩
              · obtain ⟨honward', -, hstage'⟩ := told_query hlease d'
                change Prog.Follows reader _ _ (Reader.next s₁ .query (.ok d'))
                generalize Reader.next s₁ .query (.ok d') = s₂ at *
                rw [hstage] at hstage'
                have hlease' : s₂.lease = some job := honward'.lease.trans hlease
                cases hrun' : d'.runs.get? r with
                | none =>
                    exact ⟨hlease', fun _ _ _ => .inr
                      (by simp [hstage', next_found, letsIn, hrun, hrun'])⟩
                | some run =>
                    refine Prog.Follows.ite (fun hok => ?_) fun hrefused => ?_
                    · have hgate : letsIn job row d' = gateOpen job .awaitingReply run.status := by
                        simp [letsIn, hrun, hrun', hok.1, hok.2]
                      refine Prog.Follows.bind (reenter_follows hlease' fun _ => ?_)
                        (fun t entered h => ?_) fun t e h =>
                        done_of_lost (h.1.lease.trans hlease') (h.2.2 fun heq => by cases heq) hrun
                      · rw [hstage', next_found, hgate]
                      · refine Prog.Follows.ite (fun hentered => ?_) fun hlost => ?_
                        · have hseen' : d ∈ t.seen := h.1.seen d (honward'.seen d hseen)
                          refine resumePipeline_follows (h.1.lease.trans hlease')
                            (by simp [resumes, hkind]) hrun (fun e' he' => ?_) fun mail _ => ?_
                          · obtain rfl := Option.some.inj (hmail.symm.trans he'.emailId)
                            exact ⟨h.2.1 (congrArg Except.ok hentered) ⟨e, he'⟩, row,
                              ⟨d, hseen', hrow⟩, hok.1, rfl⟩
                          · exact ⟨e, hkind, hrun, hmail⟩
                        · exact done_of_lost (h.1.lease.trans hlease')
                            (h.2.2 fun heq => hlost (Except.ok.inj heq)) hrun
                    · have hclosed : letsIn job row d' = false := by
                        by_cases hown : row.runId = some r <;> simp_all [letsIn]
                      exact ⟨hlease', fun _ _ _ => .inr (by rw [hstage', next_found, hclosed]; rfl)⟩
              · refine ⟨?_, fun _ _ _ => .inr ?_⟩
                · exact (Onward.next hlease (fun h => by cases h)
                    (.error e' : Except Exn (Ans .query))).lease.trans hlease
                · have herror := stage_next hlease (fun h => by cases h)
                    (.error e' : Except Exn (Ans .query))
                  rw [hstage] at herror
                  exact herror

theorem settle_follows {result : PipelineResult} (h : s.Done job) :
    Prog.Follows reader (fun _ _ => True) (settle job result) s := by
  refine Prog.Follows.ite (fun hkind => ?_) fun _ => ?_
  · exact Prog.follows_perform.mpr ⟨⟨h.1, hkind⟩, fun _ => trivial⟩
  · exact Prog.follows_perform.mpr ⟨h, fun _ => trivial⟩

theorem query_follows (stage : PipelineStage) (hlease : s.lease = some job) :
    Prog.Follows reader (fun t x => Onward s t ∧ ∀ d : Db, x = .ok d → d ∈ t.seen)
    (staged stage query) s := by
  refine staged_follows _ (fun t e e' h => ⟨h.1, nofun⟩) (Prog.follows_perform.mpr ⟨trivial, fun x =>
    ⟨.next hlease (fun h => by cases h) x, fun d hd => ?_⟩⟩)
  subst hd
  exact (told_query hlease d).2.1

theorem loadRun_follows (stage : PipelineStage) (hlease : s.lease = some job) :
    Prog.Follows reader (fun t x => Onward s t ∧ ∀ run, x = .ok run → ∃ d ∈ t.seen,
    d.runs.get? r = some run) (loadRun r stage) s := by
  refine Prog.Follows.bind (query_follows _ hlease) (fun t d h => ?_) fun t e h =>
    ⟨h.1, fun run heq => by cases heq⟩
  have hd : d ∈ t.seen := h.2 d rfl
  cases hrun : d.runs.get? r with
  | none => exact ⟨h.1, fun run heq => by cases heq⟩
  | some run =>
      refine ⟨h.1, fun run' heq => ?_⟩
      obtain rfl := Except.ok.inj heq
      exact ⟨d, hd, hrun⟩

theorem runPipeline_follows [PyText] (hlease : s.lease = some job) (hkind : job.kind ≠ .resumeReply) :
    Prog.Follows reader (fun t _ => t.Done job) (runPipeline r) s := by
  have hdone : ∀ {t : Reader}, Onward s t → t.Done job := fun ht => done_of_not_reply ht hlease hkind
  refine classifying_follows (Prog.Follows.bind (loadRun_follows _ hlease) (fun t run h => ?_)
    fun t e h => hdone h.1)
  obtain ⟨d, hd, hrun⟩ := h.2 run rfl
  refine Prog.Follows.bind (query_follows _ (h.1.lease.trans hlease)) (fun u d' hu => ?_)
    fun u e hu => hdone (h.1.trans hu.1)
  have hsu := h.1.trans hu.1
  cases hrow : d'.inbound.get? run.sourceEmailId with
  | none => exact hdone hsu
  | some row =>
      refine Prog.Follows.bind ((plain_loadRoster _).follows (hsu.lease.trans hlease))
        (fun v roster hv => ?_) fun v e hv => hdone (hsu.trans hv)
      have hsv := hsu.trans hv
      have hset : Plain (staged .persist (Orchestrator.perform (.setStatus r .extracting))) :=
        plain_staged _ (plain_perform nofun fun _ => trivial)
      refine Prog.Follows.bind (hset.follows (hsv.lease.trans hlease)) (fun w _ hw => ?_)
        fun w e hw => hdone (hsv.trans hw)
      have hsw := hsv.trans hw
      have huw := hv.trans hw
      have hreads : w.Reads ⟨some row.mail.messageId, .plain row.mail.bodyText⟩ := by
        refine ⟨job, hsw.lease.trans hlease, fun messageId hid => ?_, fun m hm => by cases hm⟩
        obtain rfl := Option.some.inj hid
        exact ⟨d', huw.seen d' (hu.2 d' rfl), _, row, hrow, rfl,
          .inr ⟨d, huw.seen d (hu.1.seen d hd), r, run, hrun, rfl⟩⟩
      have hready : Ready w job ⟨⟨some row.mail.messageId, .plain row.mail.bodyText⟩,
          ⟨some row.mail.messageId, .plain row.mail.bodyText⟩⟩ :=
        ⟨hsw.lease.trans hlease, fun _ _ hreply => absurd hreply.kind hkind, hreads, hreads⟩
      refine (hready.follows (.bind (reads_extract (.inl rfl)) fun x => ?_)).mono fun _ _ => Ready.done
      exact .bind (reads_persistAndBranch ..) fun _ => trivial

theorem claimAndRun_follows [PyText] (hlease : s.lease = some job) (hrun : job.runId = some r)
    (hkind : job.kind ≠ .resumeReply) : Prog.Follows reader (fun t _ => t.Done job)
    (claimAndRun r) s := by
  have hclaim : Prog.Follows reader (fun t _ => Onward s t)
      (Orchestrator.perform (.claimStatus r .received .extracting) : Act Bool) s :=
    Prog.follows_perform.mpr ⟨⟨job, hlease, hrun⟩, fun x => .next hlease (fun h => by cases h) x⟩
  refine Prog.Follows.bind hclaim (fun t claimed h => Prog.Follows.ite (fun _ => ?_) fun _ =>
    done_of_not_reply h hlease hkind) fun t e h => done_of_not_reply h hlease hkind
  exact runPipeline_follows (h.lease.trans hlease) hkind

theorem handleRunPipeline_follows [PyText] (hkind : job.kind ≠ .resumeReply) :
    Prog.Follows reader (fun t _ => t.Done job) (handleRunPipeline job) (.of job) := by
  unfold handleRunPipeline
  cases hrun : job.runId with
  | none => exact done_of_not_reply (.refl _) rfl hkind
  | some r =>
      refine Prog.Follows.ite (fun _ => ?_) fun _ => claimAndRun_follows rfl hrun hkind
      have hrewind : Plain (Orchestrator.perform (.rewindForReclaim r)) :=
        plain_perform nofun fun _ => trivial
      exact Prog.Follows.bind (hrewind.follows rfl) (fun t _ h => claimAndRun_follows h.lease hrun hkind)
        fun t e h => done_of_not_reply h rfl hkind

theorem prepare_plain (g : Uuid) : Plain (prepare r g) := by
  refine .catching (.bind (plain_perform nofun fun _ => trivial) fun _ => trivial) fun e => ?_
  exact .ite trivial trivial

theorem resumeWith_follows [PyText] (g : Uuid) (hlease : s.lease = some job) (hrun : job.runId = some r)
    (hoperator : job.kind = .operatorResume) : Prog.Follows reader (fun t _ => t.Done job)
    (resumeWith job r g) s := by
  have hkind : job.kind ≠ .resumeReply := by
    rw [hoperator]
    decide
  have hnot : ∀ {r e}, ¬ Replies job r e := fun h => hkind h.kind
  refine Prog.Follows.bind (plain_query.follows hlease) (fun t (db : Db) ht => ?_) fun t e ht =>
    done_of_not_reply ht hlease hkind
  cases db.resolutions.get? g with
  | none => exact done_of_not_reply ht hlease hkind
  | some generation =>
      refine Prog.Follows.bind (plain_query.follows (ht.lease.trans hlease))
        (fun u (db' : Db) h => ?_) fun u e h =>
        done_of_not_reply (ht.trans h) hlease hkind
      have hu := ht.trans h
      cases db'.runs.get? r with
      | none => exact done_of_not_reply hu hlease hkind
      | some run =>
          refine Prog.Follows.bind (reenter_follows (hu.lease.trans hlease) fun ⟨_, h⟩ => absurd h hnot)
            (fun v entered hv => Prog.Follows.ite (fun _ => ?_) fun _ => ?_) fun v e hv => ?_
          · exact resumePipeline_follows ((hu.trans hv.1).lease.trans hlease)
              (by simp [resumes, hoperator]) hrun (fun e h => absurd h hnot) nofun
          · exact done_of_not_reply (hu.trans hv.1) hlease hkind
          · exact done_of_not_reply (hu.trans hv.1) hlease hkind

theorem handleOperatorResume_follows [PyText] (hoperator : job.kind = .operatorResume) :
    Prog.Follows reader (fun t _ => t.Done job) (handleOperatorResume job) (.of job) := by
  have hkind : job.kind ≠ .resumeReply := by
    rw [hoperator]
    decide
  unfold handleOperatorResume
  cases hrun : job.runId with
  | none => exact done_of_not_reply (.refl _) rfl hkind
  | some r =>
      cases job.operatorResolutionId with
      | none => exact done_of_not_reply (.refl _) rfl hkind
      | some g =>
          refine Prog.Follows.bind ((prepare_plain g).follows rfl) (fun t prepared h => ?_) fun t e h =>
            done_of_not_reply h rfl hkind
          match prepared with
          | none => exact done_of_not_reply h rfl hkind
          | some false => exact done_of_not_reply h rfl hkind
          | some true => exact resumeWith_follows g h.lease hrun hoperator

theorem handleIngest_plain : Plain (handleIngest job) := by
  unfold handleIngest
  cases job.eventId with
  | none => trivial
  | some eventId =>
      exact .bind (plain_perform nofun fun _ => trivial) fun mail => .bind
        (plain_perform nofun fun _ => trivial) fun _ => trivial

theorem handleSendOutbound_plain : Plain (handleSendOutbound job) := by
  refine .ite trivial (.bind (plain_perform nofun fun _ => trivial) fun outcome => ?_)
  cases outcome with
  | authorized a =>
      refine .ite trivial (.bind plain_query fun db => .ite trivial ?_)
      exact .catching (.bind (plain_perform nofun fun _ => trivial) fun _ => trivial) fun _ => trivial
  | _ => trivial

theorem handle_follows [PyText] : Prog.Follows reader (fun t _ => t.Done job) (handle job) (.of job) := by
  have hplain : ∀ {p : Act PipelineResult}, job.kind ≠ .resumeReply → Plain p →
      Prog.Follows reader (fun t _ => t.Done job) p (.of job) := fun hkind hp =>
    (hp.follows rfl).mono fun t _ h => done_of_not_reply h rfl hkind
  unfold handle
  cases hkind : job.kind with
  | runPipeline => exact handleRunPipeline_follows (by rw [hkind]; decide)
  | resumeReply => exact handleResumeReply_follows hkind
  | operatorResume => exact handleOperatorResume_follows hkind
  | ingest => exact hplain (by rw [hkind]; decide) handleIngest_plain
  | sendOutbound => exact hplain (by rw [hkind]; decide) handleSendOutbound_plain

theorem drainOnce_follows [PyText] : Prog.Follows reader (fun _ _ => True) drainOnce .fresh := by
  refine Prog.follows_perform_bind.mpr ⟨rfl, fun (claimed : Option Job) => ?_, fun _ => trivial⟩
  cases claimed with
  | none => exact Prog.follows_perform_bind.mpr ⟨trivial, fun _ => trivial, fun _ => trivial⟩
  | some job =>
      have hattempt : Prog.Follows reader (fun t _ => t.Done job) (attempt job) (.of job) :=
        Prog.Follows.catching (P := fun t _ => t.Done job)
          (Prog.Follows.bind handle_follows (fun _ _ h => h) fun _ _ h => h)
          (fun _ _ h => h) fun _ _ h => h
      refine Prog.Follows.bind hattempt (fun t result h => ?_) fun _ _ _ => trivial
      exact Prog.Follows.bind (settle_follows h) (fun _ _ _ => trivial) fun _ _ _ => trivial

theorem Plain.idle {p : Act Unit} (hp : Plain p) : Prog.Follows reader (fun _ _ => True) p .fresh :=
  Prog.Calls.follows (R := fun _ => True) (fun t _ _ hop => hop.2 t) (fun _ _ _ _ _ => trivial)
    hp trivial |>.mono fun _ _ _ => trivial

theorem approveRun_plain : Plain (approveRun r) :=
  .catching (.bind (plain_perform nofun fun _ => trivial) fun _ => trivial) fun _ =>
    plain_perform nofun fun _ => trivial

theorem rejectRun_plain : Plain (rejectRun r) := by
  have hclaim : ∀ expected, Plain (Orchestrator.perform (.claimStatus r expected .rejected)) :=
    fun expected =>
    plain_perform nofun fun _ => by cases expected <;> trivial
  refine .bind (hclaim .awaitingApproval) fun _ => .ite trivial ?_
  refine .bind (hclaim .needsOperator) fun _ => .ite trivial ?_
  exact .bind (hclaim .awaitingReply) fun _ => trivial

theorem resolveRun_plain (overrides : Dict Str Uuid) (remember : Dict Str Bool) :
    Plain (resolveRun r overrides remember) := by
  refine .bind plain_query fun (db : Db) => ?_
  cases db.runs.get? r with
  | none => trivial
  | some run => exact .ite (.bind (plain_perform nofun fun _ => trivial) fun _ => trivial) trivial

theorem plain_ignoring {op : Op} (hop : op ≠ .claimJob) (h : ∀ s : Reader, s.allows op) :
    Plain (ignoring (Orchestrator.perform op)) :=
  .catching (.bind (plain_perform hop h) fun _ => trivial) fun _ => trivial

theorem thread_plain [PyText] (k : Thread) (hk : k ≠ .worker) : Plain (thread k) := by
  cases k with
  | worker => exact absurd rfl hk
  | shutdown tokens => exact plain_perform nofun fun _ => trivial
  | receive mail => exact plain_ignoring nofun fun _ => trivial
  | approve r => exact approveRun_plain
  | reject r => exact rejectRun_plain
  | resolve r overrides remember => exact resolveRun_plain _ _
  | retrigger r => exact plain_ignoring nofun fun _ => trivial
  | markDelivered r => exact plain_ignoring nofun fun _ => trivial
  | authorizeNew r => exact plain_ignoring nofun fun _ => trivial
  | retryNow r kind => exact plain_ignoring nofun fun _ => trivial
  | markHandled r => exact plain_ignoring nofun fun _ => trivial
  | rejectClarification r => exact plain_ignoring nofun fun _ => trivial
  | pass seconds => exact plain_perform nofun fun _ => trivial

theorem thread_follows [PyText] (k : Thread) : Prog.Follows reader (fun _ _ => True)
    (thread k) .fresh := by
  by_cases hk : k = .worker
  · subst hk
    exact drainOnce_follows
  · exact (thread_plain k hk).idle

end PayrollAgent.ReplyReads
