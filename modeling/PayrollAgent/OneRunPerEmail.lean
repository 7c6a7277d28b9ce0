import PayrollAgent.JobKeys
import PayrollAgent.Receipts
import PayrollAgent.EmailSteps

namespace PayrollAgent.OneRunPerEmail

open Lib Repo Ingest Gateway Receipts Effects FreshIds JobSteps NewJobs JobKeys EmailSteps

/-- `ck_jobs_ingest_context`, over the columns of the model. -/
def IngestContext (row : JobRow) : Prop :=
  row.kind = .ingest → row.runId = none ∧ row.emailId = none ∧ row.operatorResolutionId = none ∧
    (row.eventId ≠ none ∨ row.state = .done ∨ row.state = .dead)

structure OneSource (db : Db) : Prop where
  unique : UniqueMails db
  stored : ∀ r run, db.runs.get? r = some run → ∃ m, db.inbound.get? run.sourceEmailId = some m
  single : ∀ r r' run run', db.runs.get? r = some run → db.runs.get? r' = some run' →
    run.sourceEmailId = run'.sourceEmailId → r = r'

/-- The foreign key of the receipts, and the check over the ingest jobs. -/
structure Receipted (s : Store) : Prop where
  linked : ∀ j row ev, s.db.jobs.get? j = some row → row.eventId = some ev → (s.events.get? ev).isSome
  context : ∀ j row, s.db.jobs.get? j = some row → IngestContext row

/-- The mails of the runs created so far are stored, and each created one. -/
structure CreatedOnce (db : Db) (log : List Uuid) : Prop where
  stored : ∀ id ∈ log, ∃ e m, db.inbound.get? e = some m ∧ m.mail.messageId = id
  once : log.Nodup

structure Inv (s : Store) (log : List Uuid) : Prop where
  fresh : Fresh s.db
  sources : OneSource s.db
  receipts : Receipted s
  created : CreatedOnce s.db log

theorem closed_stays {env : Env} {db db' : Db} {j : Uuid} {row row' : JobRow} {op : Op} {a : Ans op}
    (h : JobStep env db db' j row op a row') (hclosed : isOpen row = false) : row' = row := by
  have hopen : row.state ≠ .pending ∧ row.state ≠ .leased := by
    simpa [isOpen, not_or] using hclosed
  cases h with
  | kept => rfl
  | leased _ hclaim => simp [claimable, hopen.1, hopen.2] at hclaim
  | reapedInvalid _ hreap => simp [reapable, hopen.2] at hreap
  | reapedReview _ _ _ _ hreap => simp [reapable, hopen.2] at hreap
  | reapedOther _ _ hreap => simp [reapable, hopen.2] at hreap
  | retired _ hrow => exact absurd (lockedJob_some hrow).2.1 hopen.2
  | settled _ hctx => exact absurd (lockedJob_some hctx.locked).2.1 hopen.2
  | closed _ hrow => exact absurd (lockedJob_some hrow).2.1 hopen.2
  | released hleased => exact absurd hleased hopen.2
  | advanced hpending => exact absurd hpending hopen.1

theorem eventId_of_keyed {row : JobRow} (h : Keyed row) (hkind : row.kind ≠ .ingest) :
    row.eventId = none := by
  unfold Keyed at h
  generalize row.kind = kind, row.dedupKey = key, row.runId = r, row.emailId = e,
    row.operatorResolutionId = g, row.eventId = v at h hkind
  cases h with
  | ingest => exact absurd rfl hkind
  | _ => rfl

section

variable [PyText] {env : Env} {op : Op} {a : Ans op} {db db' : Db}

/-- Where a job comes from that is there after a transaction of the core. -/
theorem job_origin (h : Effect env db op a db') (hfresh : Fresh db) {j : Uuid} {row' : JobRow}
    (hrow' : db'.jobs.get? j = some row') :
    (∃ row, db.jobs.get? j = some row ∧ SameKey row row' ∧ (isOpen row = false → row' = row)) ∨
      (row'.kind ≠ .ingest ∧ row'.eventId = none) := by
  have hold : ∀ {row : JobRow}, db.jobs.get? j = some row → isOpen row = false → row' = row := by
    intro row hrow hclosed
    obtain ⟨row₁, hrow₁, hstep⟩ := jobStep h hfresh hrow
    obtain rfl := Option.some.inj (hrow'.symm.trans hrow₁)
    exact closed_stays hstep hclosed
  cases jobsWrite h hfresh with
  | @mapped f hmap hf =>
      have hmapped := hmap j
      rw [hrow'] at hmapped
      obtain ⟨row, hrow, rfl⟩ := Option.map_eq_some_iff.mp hmapped.symm
      exact .inl ⟨row, hrow, hf j row, hold hrow⟩
  | enqueued hset _ hkeyed _ hkind =>
      rw [hset, Dict.get?_set] at hrow'
      split at hrow'
      · cases hrow'
        exact .inr ⟨hkind, eventId_of_keyed hkeyed hkind⟩
      · exact .inl ⟨row', hrow', .refl row', fun _ => rfl⟩

end

theorem enqueueJob_origin {kind : JobKind} {dedupKey : DedupKey}
    {runId emailId operatorResolutionId eventId : Option Uuid} {db : Db} {j : Uuid} {row : JobRow}
    (h : (enqueueJob kind dedupKey runId emailId operatorResolutionId eventId db).jobs.get? j =
      some row) :
    db.jobs.get? j = some row ∨ row.kind = kind ∧ row.runId = runId ∧ row.emailId = emailId ∧
      row.operatorResolutionId = operatorResolutionId ∧ row.eventId = eventId := by
  unfold enqueueJob at h
  split at h
  · exact .inl h
  · rw [Db.insertJob, Dict.get?_set] at h
    split at h
    · cases h
      exact .inr ⟨rfl, rfl, rfl, rfl, rfl⟩
    · exact .inl h

namespace Receipted

variable {s s' : Store}

theorem same (h : Receipted s) (hevents : s'.events = s.events) (hjobs : s'.db.jobs = s.db.jobs) :
    Receipted s' := by
  constructor
  · intro j row ev hrow hev
    rw [hjobs] at hrow
    rw [hevents]
    exact h.linked j row ev hrow hev
  · intro j row hrow
    rw [hjobs] at hrow
    exact h.context j row hrow

theorem enqueueJob (h : Receipted s) {kind : JobKind} (hkind : kind ≠ .ingest) (dedupKey : DedupKey)
    (runId emailId operatorResolutionId : Option Uuid) :
    Receipted { s with db := enqueueJob kind dedupKey runId emailId operatorResolutionId none s.db } := by
  constructor
  · intro j row ev hrow hev
    obtain hrow | ⟨-, -, -, -, hnone⟩ := enqueueJob_origin hrow
    · exact h.linked j row ev hrow hev
    · rw [hnone] at hev
      cases hev
  · intro j row hrow
    obtain hrow | ⟨hrowkind, -⟩ := enqueueJob_origin hrow
    · exact h.context j row hrow
    · exact fun hingest => absurd (hrowkind.symm.trans hingest) hkind

theorem core [PyText] {env : Env} {op : Op} {a : Ans op} {db' : Db} (h : Receipted s)
    (heffect : Effect env s.db op a db') (hfresh : Fresh s.db) : Receipted { s with db := db' } := by
  constructor
  · intro j row' ev hrow' hev
    obtain ⟨row, hrow, hsame, -⟩ | ⟨-, hnone⟩ := job_origin heffect hfresh hrow'
    · exact h.linked j row ev hrow (hsame.eventId.symm.trans hev)
    · rw [hnone] at hev
      cases hev
  · intro j row' hrow'
    obtain ⟨row, hrow, hsame, hclosed⟩ | ⟨hkind, -⟩ := job_origin heffect hfresh hrow'
    · intro hingest
      obtain ⟨hrun, hemail, hresolution, hevent⟩ := h.context j row hrow (hsame.kind.symm.trans hingest)
      refine ⟨hsame.runId.trans hrun, hsame.emailId.trans hemail,
        hsame.operatorResolutionId.trans hresolution, ?_⟩
      obtain hevent | hover := hevent
      · exact .inl (hsame.eventId ▸ hevent)
      · have hrowclosed : isOpen row = false := by
          obtain hdone | hdead := hover
          · simp [isOpen, hdone]
          · simp [isOpen, hdead]
        rw [hclosed hrowclosed]
        exact .inr hover
    · exact fun hingest => absurd hingest hkind

theorem persistVerifiedReceipt {externalEventId : Str} {payload : Payload} {x : Uuid × Bool}
    (h : Receipted s)
    (htxn : persistVerifiedReceipt externalEventId payload s = .ok (x, s')) : Receipted s' := by
  unfold Receipts.persistVerifiedReceipt insertOrGetInboundEvent at htxn
  split at htxn
  next ev s₁ hinsert =>
    split at hinsert
    · cases hinsert
    next hnone =>
      cases hinsert
      split at htxn
      · cases htxn
      · cases htxn
        constructor
        · intro j row ev hrow hev
          dsimp only at hrow ⊢
          rw [Dict.get?_set]
          split
          · rfl
          next hne =>
            obtain hrow | ⟨-, -, -, -, hevent⟩ := enqueueJob_origin hrow
            · exact h.linked j row ev hrow hev
            · exact absurd (Option.some.inj (hev.symm.trans hevent)) hne
        · intro j row hrow
          obtain hrow | ⟨-, hrun, hemail, hresolution, hevent⟩ := enqueueJob_origin hrow
          · exact h.context j row hrow
          · exact fun _ => ⟨hrun, hemail, hresolution, .inl (by rw [hevent]; simp)⟩
  next ev s₁ hinsert =>
    cases htxn
    split at hinsert
    · cases hinsert
      exact h
    · cases hinsert

end Receipted

section

variable {olderThanDays batchSize n : Nat} {locked : List Uuid} {s s' : Store} {ev : Uuid}

theorem purgeable_of_candidate (h : ev ∈ candidates olderThanDays batchSize locked s) :
    ∃ event, s.events.get? ev = some event ∧ purgeable olderThanDays s ev event = true := by
  obtain ⟨p, hp, rfl⟩ := List.mem_map.mp h
  have hfiltered := (List.perm_insertionSort _ _).mem_iff.mp (List.mem_of_mem_take hp)
  obtain ⟨hentry, hpurgeable⟩ := List.mem_filter.mp hfiltered
  exact ⟨p.2, (Dict.get?_eq_some_iff _ _ _).mpr hentry, (Bool.and_eq_true_iff.mp hpurgeable).1⟩

theorem closed_of_candidate (h : ev ∈ candidates olderThanDays batchSize locked s) {j : Uuid}
    {row : JobRow}
    (hrow : s.db.jobs.get? j = some row) (hev : row.eventId = some ev) (hkind : row.kind = .ingest) :
    isOpen row = false := by
  obtain ⟨event, -, hpurgeable⟩ := purgeable_of_candidate h
  simp only [purgeable, Bool.and_eq_true, Option.isNone_iff_eq_none] at hpurgeable
  have hother := Dict.select_none.mp hpurgeable.2 j row hrow
  simpa [hev, hkind] using hother

theorem purge_ok {x : Nat}
    (h : purgeTerminalInboundEvents olderThanDays batchSize locked s = .ok (x, s')) :
    s' = deleteEvents (candidates olderThanDays batchSize locked s) s := by
  unfold purgeTerminalInboundEvents at h
  split at h
  · cases h
  · cases h
    rfl

theorem deleteEvents_get? {evs : List Uuid} : ((deleteEvents evs s).events.get? ev).isSome ↔
    (s.events.get? ev).isSome ∧ ev ∉ evs := by
  rw [Option.isSome_iff_exists, Option.isSome_iff_exists]
  simp only [deleteEvents, Dict.get?_deleteWhere, decide_eq_false_iff_not]
  exact exists_and_right

theorem Receipted.deleteEvents {evs : List Uuid} (h : Receipted s)
    (hclosed : ∀ ev ∈ evs, ∀ j row, s.db.jobs.get? j = some row → row.eventId = some ev →
    row.kind = .ingest → isOpen row = false) : Receipted (deleteEvents evs s) := by
  have hforget : ∀ row, (row.eventId.any (· ∈ evs) = true →
    forget evs row = { row with eventId := none }) ∧
      (row.eventId.any (· ∈ evs) = false → forget evs row = row) :=
    fun row => ⟨fun hany => if_pos hany, fun hany => if_neg (by rw [hany]; simp)⟩
  constructor
  · intro j row' ev hrow' hev
    rw [Receipts.deleteEvents, Dict.get?_mapValues] at hrow'
    obtain ⟨row, hrow, rfl⟩ := Option.map_eq_some_iff.mp hrow'
    cases hany : row.eventId.any (· ∈ evs) with
    | true =>
        rw [(hforget row).1 hany] at hev
        cases hev
    | false =>
        rw [(hforget row).2 hany] at hev
        rw [hev] at hany
        exact deleteEvents_get?.mpr ⟨h.linked j row ev hrow hev, by simpa using hany⟩
  · intro j row' hrow'
    rw [Receipts.deleteEvents, Dict.get?_mapValues] at hrow'
    obtain ⟨row, hrow, rfl⟩ := Option.map_eq_some_iff.mp hrow'
    cases hany : row.eventId.any (· ∈ evs) with
    | true =>
        rw [(hforget row).1 hany]
        intro hingest
        obtain ⟨hrun, hemail, hresolution, -⟩ := h.context j row hrow hingest
        obtain ⟨ev, hev, hmem⟩ : ∃ ev, row.eventId = some ev ∧ ev ∈ evs := by
          simpa [Option.any_eq_true] using hany
        have hover := hclosed ev hmem j row hrow hev hingest
        refine ⟨hrun, hemail, hresolution, .inr ?_⟩
        cases hstate : row.state with
        | pending => simp [isOpen, hstate] at hover
        | leased => simp [isOpen, hstate] at hover
        | done => exact .inl rfl
        | dead => exact .inr rfl
    | false =>
        rw [(hforget row).2 hany]
        exact h.context j row hrow

end

/-- The stored mails stay, and their Message-IDs stay unique. -/
structure MailStep (db db' : Db) : Prop where
  stays : ∀ e m, db.inbound.get? e = some m → ∃ m', db'.inbound.get? e = some m' ∧ m'.mail = m.mail
  unique : UniqueMails db → UniqueMails db'

variable {db db' : Db} {log : List Uuid} {mail : InboundMail} {link : Option Uuid}

theorem InboundWrite.mailStep {op : Op} (h : InboundWrite db db' op) (hfresh : Fresh db) :
    MailStep db db' := by
  refine ⟨fun e m hm => ?_, h.uniqueMails⟩
  obtain ⟨m', hm', hmail, -⟩ := h.stays hfresh hm
  exact ⟨m', hm', hmail⟩

theorem Stores.mailStep (h : Stores mail link db db') (hnew : NewMail mail db) (hfresh : Fresh db) :
    MailStep db db' :=
  InboundWrite.mailStep (InboundWrite.stored h hnew) hfresh

theorem MailStep.same (h : db'.inbound = db.inbound) : MailStep db db' := by
  constructor
  · intro e m hm
    exact ⟨m, by rw [h, hm], rfl⟩
  · intro hunique e e' m m' hm hm'
    rw [h] at hm hm'
    exact hunique e e' m m' hm hm'

namespace OneSource

theorem kept (h : OneSource db) (hmail : MailStep db db')
    (hruns : ∀ r, (db'.runs.get? r).map Run.sourceEmailId = (db.runs.get? r).map Run.sourceEmailId) :
    OneSource db' := by
  have hback : ∀ r run', db'.runs.get? r = some run' →
      ∃ run, db.runs.get? r = some run ∧ run.sourceEmailId = run'.sourceEmailId := by
    intro r run' hrun'
    have hr := hruns r
    rw [hrun'] at hr
    exact Option.map_eq_some_iff.mp hr.symm
  refine ⟨hmail.unique h.unique, ?_, ?_⟩
  · intro r run' hrun'
    obtain ⟨run, hrun, hsource⟩ := hback r run' hrun'
    obtain ⟨m, hm⟩ := h.stored r run hrun
    obtain ⟨m', hm', -⟩ := hmail.stays _ m hm
    exact ⟨m', hsource ▸ hm'⟩
  · intro r r' run₁ run₂ h₁ h₂ hsame
    obtain ⟨run, hrun, hsource⟩ := hback r run₁ h₁
    obtain ⟨run', hrun', hsource'⟩ := hback r' run₂ h₂
    exact h.single r r' run run' hrun hrun' (hsource.trans (hsame.trans hsource'.symm))

theorem created (h : OneSource db) (hfresh : Fresh db) (hmail : MailStep db db') {r : Uuid} {run : Run}
    (hruns : db'.runs = db.runs.set r run) (hsource : run.sourceEmailId = db.nextId) {m : Inbound}
    (hm : db'.inbound.get? db.nextId = some m) : OneSource db' := by
  have hold : ∀ r' run', db.runs.get? r' = some run' → run'.sourceEmailId ≠ db.nextId := by
    intro r' run' hrun'
    obtain ⟨m', hm'⟩ := h.stored r' run' hrun'
    exact Nat.ne_of_lt (hfresh.inbound.lt hm')
  refine ⟨hmail.unique h.unique, ?_, ?_⟩
  · intro r' run' hrun'
    rw [hruns, Dict.get?_set] at hrun'
    split at hrun'
    · cases hrun'
      exact ⟨m, hsource ▸ hm⟩
    · obtain ⟨m₀, hm₀⟩ := h.stored r' run' hrun'
      obtain ⟨m', hm', -⟩ := hmail.stays _ m₀ hm₀
      exact ⟨m', hm'⟩
  · intro r₁ r₂ run₁ run₂ h₁ h₂ hsame
    rw [hruns, Dict.get?_set] at h₁ h₂
    split at h₁
    next hr₁ =>
      cases h₁
      split at h₂
      next hr₂ => rw [hr₁, hr₂]
      · exact absurd (hsame.symm.trans hsource) (hold r₂ run₂ h₂)
    · split at h₂
      · cases h₂
        exact absurd (hsame.trans hsource) (hold r₁ run₁ h₁)
      · exact h.single r₁ r₂ run₁ run₂ h₁ h₂ hsame

end OneSource

namespace CreatedOnce

theorem kept (h : CreatedOnce db log) (hmail : MailStep db db') : CreatedOnce db' log := by
  refine ⟨fun id hid => ?_, h.once⟩
  obtain ⟨e, m, hm, hmessage⟩ := h.stored id hid
  obtain ⟨m', hm', hsame⟩ := hmail.stays e m hm
  exact ⟨e, m', hm', by rw [hsame, hmessage]⟩

theorem cons (h : CreatedOnce db log) (hmail : MailStep db db') (hnew : NewMail mail db)
    (hstores : Stores mail link db db') : CreatedOnce db' (mail.messageId :: log) := by
  constructor
  · intro id hid
    obtain rfl | hid := List.mem_cons.mp hid
    · exact ⟨db.nextId, _, (hstores _).trans (if_pos rfl), rfl⟩
    · exact (h.kept hmail).stored id hid
  · refine List.nodup_cons.mpr ⟨fun hmem => ?_, h.once⟩
    obtain ⟨e, m, hm, hmessage⟩ := h.stored _ hmem
    exact hnew e m hm hmessage

end CreatedOnce

section

variable [PyText] {env : Env} {s : Store}

omit [PyText] in
theorem createdOnce_ingest {outcome : IngestOutcome} {awaiting late : Uuid}
    (h : ingestEmail mail awaiting late db = (outcome, db')) (hmail : MailStep db db')
    (hlog : CreatedOnce db log) : CreatedOnce db'
    (createdFor (.core (.ingestEmail mail)) outcome ++ log) := by
  have hcases := ingestEmail_cases mail awaiting late db
  rw [h] at hcases
  cases outcome with
  | newRun =>
      obtain ⟨hduplicate, -⟩ | ⟨-, hnew, link, hstores⟩ := hcases
      · cases hduplicate
      · exact hlog.cons hmail hnew hstores
  | duplicate => exact hlog.kept hmail
  | replyCandidate => exact hlog.kept hmail
  | lateReply => exact hlog.kept hmail
  | unknownSender => exact hlog.kept hmail

theorem createdOnce_core {op : Op} {a : Ans op} (h : txn env op db = .ok (a, db'))
    (hmail : MailStep db db')
    (hlog : CreatedOnce db log) : CreatedOnce db' (createdFor (.core op) a ++ log) := by
  cases op with
  | ingestEmail mail => exact createdOnce_ingest (Except.ok.inj h) hmail hlog
  | _ => exact hlog.kept hmail

theorem inv_core {op : Op} {a : Ans op} (hinv : Inv s log) (h : txn env op s.db = .ok (a, db')) :
    Inv { s with db := db' } (createdFor (.core op) a ++ log) := by
  have heffect := txn_effect h
  have hwrite := inboundWrite h
  have hmail := InboundWrite.mailStep hwrite hinv.fresh
  refine ⟨fresh_step heffect hinv.fresh, ?_, hinv.receipts.core heffect hinv.fresh,
    createdOnce_core h hmail hinv.created⟩
  cases runsWrite heffect hinv.fresh with
  | kept hruns => exact hinv.sources.kept hmail hruns
  | created hstores hruns =>
      exact hinv.sources.created hinv.fresh hmail hruns rfl ((hstores _).trans (if_pos rfl))

end

variable {s s' : Store}

/-- A reply of the simulation is stored like any other, and gets its job. -/
theorem persistAndEnqueueReply_cases (mail : InboundMail) (awaiting late : Uuid) (db : Db) :
    ∃ db₁, (db₁ = db ∨ NewMail mail db ∧
        (db₁ = stored mail db ∨ ∃ r, db₁ = linkEmailToRun db.nextId r (stored mail db))) ∧
      ((persistAndEnqueueReply mail awaiting late db).2 = db₁ ∨ ∃ r e,
        (persistAndEnqueueReply mail awaiting late db).2 =
          enqueueJob .resumeReply (.resumeReply r e) (some r) (some e) none none db₁) := by
  have hensure : ∀ row r e db₁, (ensureAuthorizedReplyJob row r e db₁).2 = db₁ ∨
      ∃ r' e', (ensureAuthorizedReplyJob row r e db₁).2 =
        enqueueJob .resumeReply (.resumeReply r' e') (some r') (some e') none none db₁ := by
    intro row r e db₁
    obtain hsame | hqueued := ensureAuthorizedReplyJob_cases row r e db₁
    · exact .inl hsame
    · exact .inr ⟨r, e, hqueued⟩
  unfold persistAndEnqueueReply
  split
  next e row hrow =>
    split
    · exact ⟨db, .inl rfl, .inl rfl⟩
    · exact ⟨db, .inl rfl, hensure ..⟩
  next hnone =>
    have hnew : NewMail mail db := inboundByMessageId_none.mp hnone
    split
    · exact ⟨db, .inl rfl, .inl rfl⟩
    · dsimp only
      split
      next r _ =>
        refine ⟨linkEmailToRun db.nextId r (stored mail db), .inr ⟨hnew, .inr ⟨r, rfl⟩⟩, ?_⟩
        split
        · exact .inl rfl
        · exact hensure ..
      · split
        next r _ => exact ⟨_, .inr ⟨hnew, .inr ⟨r, rfl⟩⟩, .inl rfl⟩
        · exact ⟨_, .inr ⟨hnew, .inl rfl⟩, .inl rfl⟩

theorem inv_reply {awaiting late : Uuid} (hinv : Inv s log) :
    Inv { s with db := (persistAndEnqueueReply mail awaiting late s.db).2 } log := by
  have hqueued : ∀ (db₁ : Db) (r e : Uuid), Inv { s with db := db₁ } log →
      Inv { s with db := enqueueJob .resumeReply (.resumeReply r e) (some r) (some e) none none db₁ } log := by
    intro db₁ r e h
    have hmail : MailStep db₁ (enqueueJob .resumeReply (.resumeReply r e) (some r)
      (some e) none none db₁) :=
      .same (enqueueJob_inbound ..)
    exact ⟨h.fresh.enqueueJob .., h.sources.kept hmail fun r' => by rw [enqueueJob_runs],
      h.receipts.enqueueJob (by decide) .., h.created.kept hmail⟩
  have hstored : ∀ (db₁ : Db) (link : Option Uuid), Fresh db₁ → NewMail mail s.db →
    Stores mail link s.db db₁ →
      db₁.runs = s.db.runs → db₁.jobs = s.db.jobs → Inv { s with db := db₁ } log := by
    intro db₁ link hfresh hnew hstores hruns hjobs
    have hmail := Stores.mailStep hstores hnew hinv.fresh
    exact ⟨hfresh, hinv.sources.kept hmail fun r => by rw [hruns], hinv.receipts.same rfl hjobs,
      hinv.created.kept hmail⟩
  obtain ⟨db₁, hdb₁, hresult⟩ := persistAndEnqueueReply_cases mail awaiting late s.db
  have hinv₁ : Inv { s with db := db₁ } log := by
    obtain rfl | ⟨hnew, rfl | ⟨r, rfl⟩⟩ := hdb₁
    · exact hinv
    · exact hstored _ none (hinv.fresh.stored mail) hnew (stores_stored mail) rfl rfl
    · exact hstored _ (some r) ((hinv.fresh.stored mail).linkEmailToRun _ _) hnew
        (stores_link mail r) rfl rfl
  obtain hresult | ⟨r, e, hresult⟩ := hresult
  · rwa [hresult]
  · rw [hresult]
    exact hqueued db₁ r e hinv₁

theorem inv_demo {businessId r : Uuid} {recordOnly : Bool} (hinv : Inv s log)
    (h : writeDemoRun mail businessId recordOnly s.db = .ok (r, db')) :
    Inv { s with db := db' } (mail.messageId :: log) := by
  unfold writeDemoRun at h
  split at h
  · cases h
  next hfree =>
    rw [not_or, Option.not_isSome_iff_eq_none] at hfree
    have hnew : NewMail mail s.db := inboundByMessageId_none.mp hfree.1
    dsimp only at h
    split at h
    · cases h
    · obtain ⟨-, rfl⟩ := Prod.mk.inj (Except.ok.inj h)
      have hstores := (@stores_stored s.db mail).congr
        (enqueueJob_inbound .runPipeline (.demoRun (s.db.nextId + 1)) (some (s.db.nextId + 1))
        none none none
          ((stored mail s.db).insertRun (demoRun businessId s.db.nextId s.db.now recordOnly)))
      have hmail := Stores.mailStep hstores hnew hinv.fresh
      have hinserted : Receipted
          { s with db := (stored mail s.db).insertRun (demoRun businessId s.db.nextId s.db.now recordOnly) } :=
        hinv.receipts.same rfl rfl
      exact ⟨((hinv.fresh.stored mail).insertRun _).enqueueJob ..,
        hinv.sources.created hinv.fresh hmail (enqueueJob_runs ..) rfl ((hstores _).trans (if_pos rfl)),
        hinserted.enqueueJob (by decide) .., hinv.created.cons hmail hnew hstores⟩

theorem inv_receipt {externalEventId : Str} {payload : Payload} {x : Uuid × Bool} (hinv : Inv s log)
    (h : persistVerifiedReceipt externalEventId payload s = .ok (x, s')) : Inv s' log := by
  have hreceipts := hinv.receipts.persistVerifiedReceipt h
  unfold persistVerifiedReceipt insertOrGetInboundEvent at h
  split at h
  next ev s₁ hinsert =>
    split at hinsert
    · cases hinsert
    · cases hinsert
      split at h
      · cases h
      · cases h
        have hmail : MailStep s.db (enqueueIngest s.db.nextId { s.db with nextId := s.db.nextId + 1 }) :=
          .same (enqueueJob_inbound ..)
        exact ⟨hinv.fresh.draw.enqueueJob .., hinv.sources.kept hmail fun r => by
          rw [enqueueIngest, enqueueJob_runs], hreceipts, hinv.created.kept hmail⟩
  next ev s₁ hinsert =>
    cases h
    split at hinsert
    · cases hinsert
      exact hinv
    · cases hinsert

theorem inv_purge {olderThanDays batchSize n : Nat} {locked : List Uuid} (hinv : Inv s log)
    (h : purgeTerminalInboundEvents olderThanDays batchSize locked s = .ok (n, s')) : Inv s' log := by
  obtain rfl := purge_ok h
  have hreceipts : Receipted (deleteEvents (candidates olderThanDays batchSize locked s) s) :=
    hinv.receipts.deleteEvents fun ev hev j row => closed_of_candidate hev
  refine ⟨?_, ?_, hreceipts, ?_⟩
  · refine { hinv.fresh with jobs := fun j hj => ?_ }
    change (s.db.jobs.mapValues _).get? j = none
    rw [Dict.get?_mapValues, hinv.fresh.jobs j hj]
    rfl
  · exact hinv.sources.kept (.same rfl) fun _ => rfl
  · exact hinv.created.kept (.same rfl)

theorem onDb_ok {α : Type} {result : Except Exn (α × Db)} {x : α} (h : onDb s result = .ok (x, s')) :
    ∃ db', result = .ok (x, db') ∧ s' = { s with db := db' } := by
  cases result with
  | error e => cases h
  | ok y =>
      obtain ⟨rfl, rfl⟩ := Prod.mk.inj (Except.ok.inj h)
      exact ⟨y.2, rfl, rfl⟩

section

variable [PyText] [MailText] {choices : Choices} {call : Call} {a : Reply call}

omit [PyText] in
theorem fetchInbound_ok {ev : Uuid} {response : ReceivedEmail} {x : InboundMail}
    (h : fetchInbound ev response s = .ok (x, s')) : s' = s := by
  unfold fetchInbound at h
  split at h
  · cases h
  next event _ =>
    cases hparse : parseInbound event.payload response with
    | error e =>
        rw [hparse] at h
        cases h
    | ok email =>
        rw [hparse] at h
        cases h
        rfl

theorem inv_transaction (hinv : Inv s log) (h : transaction choices call s = .ok (a, s')) :
    Inv s' (createdFor call a ++ log) := by
  cases call with
  | core op =>
      cases op with
      | fetchInbound ev =>
          obtain rfl := fetchInbound_ok h
          exact hinv
      | _ =>
          obtain ⟨db', htxn, rfl⟩ := onDb_ok h
          exact inv_core hinv htxn
  | persistVerifiedReceipt externalEventId payload => exact inv_receipt hinv h
  | persistAndEnqueueReply mail =>
      obtain ⟨-, rfl⟩ := Prod.mk.inj (Except.ok.inj h)
      exact inv_reply hinv
  | writeDemoRun mail businessId recordOnly =>
      obtain ⟨db', hwrite, rfl⟩ := onDb_ok h
      exact inv_demo hinv hwrite
  | purgeTerminalInboundEvents olderThanDays batchSize => exact inv_purge hinv h

/-- A store with its unique indexes, its foreign keys and its checks. -/
structure Begins (s : Store) : Prop where
  fresh : Fresh s.db
  sources : OneSource s.db
  receipts : Receipted s

theorem inv_of_reach {w : World Call Reply Exn Store Uuid}
    (h : World.Reach intake party World.Rules.any Begins w) : Inv w.data w.log := by
  induction h with
  | start hs => exact ⟨hs.fresh, hs.sources, hs.receipts, ⟨fun _ hid => (by cases hid), List.nodup_nil⟩⟩
  | @step w e _ _ ih =>
      cases hop : w.operation e with
      | none => rwa [(World.step_of_none hop).1, (World.step_of_none hop).2]
      | some x =>
          obtain ⟨i, choices, call⟩ := x
          obtain ⟨hdata, hlog⟩ := @World.step_operation _ _ _ _ _ _ _ intake party _ _ _ _ _ hop
          rw [hdata, hlog]
          show Inv (execute choices call w.data).2 (creations choices call w.data ++ w.log)
          obtain ⟨e, hexecute, hnone⟩ | ⟨a, s', htxn, hs', hcreated⟩ := execute_cases choices call w.data
          · rwa [hexecute, hnone]
          · rw [hs', hcreated]
            exact inv_transaction ih htxn

/-- One run a Message-ID, and no receipt purged while it is worked on. -/
structure OnceOnly (w : World Call Reply Exn Store Uuid) : Prop where
  created : w.log.Nodup
  oneRun : ∀ r r' run run' m m', w.data.db.runs.get? r = some run → w.data.db.runs.get? r' = some run' →
    w.data.db.inbound.get? run.sourceEmailId = some m →
    w.data.db.inbound.get? run'.sourceEmailId = some m' → m.mail.messageId = m'.mail.messageId → r = r'
  context : ∀ j row, w.data.db.jobs.get? j = some row → IngestContext row
  received : ∀ j row, w.data.db.jobs.get? j = some row → row.kind = .ingest → isOpen row = true →
    ∃ ev event, row.eventId = some ev ∧ w.data.events.get? ev = some event
  purged : ∀ olderThanDays batchSize locked n s' ev,
    purgeTerminalInboundEvents olderThanDays batchSize locked w.data = .ok (n, s') →
      (w.data.events.get? ev).isSome → s'.events.get? ev = none →
        ∀ j row, w.data.db.jobs.get? j = some row → row.kind = .ingest → row.eventId = some ev →
          isOpen row = false

theorem once_only {w : World Call Reply Exn Store Uuid}
    (hw : World.Reach intake party World.Rules.any Begins w) : OnceOnly w := by
  have hinv := inv_of_reach hw
  refine ⟨hinv.created.once, ?_, hinv.receipts.context, ?_, ?_⟩
  · intro r r' run run' m m' hrun hrun' hm hm' hsame
    exact hinv.sources.single r r' run run' hrun hrun' (hinv.sources.unique _ _ m m' hm hm' hsame)
  · intro j row hrow hkind hopen
    obtain ⟨-, -, -, hevent⟩ := hinv.receipts.context j row hrow hkind
    obtain hevent | hdone | hdead := hevent
    · obtain ⟨ev, hev⟩ := Option.ne_none_iff_exists'.mp hevent
      obtain ⟨event, hstored⟩ := Option.isSome_iff_exists.mp (hinv.receipts.linked j row ev hrow hev)
      exact ⟨ev, event, hev, hstored⟩
    · simp [isOpen, hdone] at hopen
    · simp [isOpen, hdead] at hopen
  · intro olderThanDays batchSize locked n s' ev hpurge hbefore hgone j row hrow hkind hev
    obtain rfl := purge_ok hpurge
    have hcandidate : ev ∈ candidates olderThanDays batchSize locked w.data := by
      by_contra hkept
      have hstays := deleteEvents_get?.mpr ⟨hbefore, hkept⟩
      rw [hgone] at hstays
      cases hstays
    exact closed_of_candidate hcandidate hrow hev hkind

end

attribute [local instance] asciiText asciiMail

def client : Store where
  db := { Db.empty with nextId := 10, senders := .ofList [(token "ann".toList, 1)] }
  events := .empty

def announced : ResendData := ⟨"e1".toList, .text "<1>".toList, "ann".toList, .absent, []⟩

def delivers (i : Nat) (externalEventId : Str) : List (Event Party Choices) :=
  [.spawn (.inbound externalEventId (.resend announced)), .run i {}]

def ingests (i : Nat) (job : Uuid) : List (Event Party Choices) :=
  .spawn (.core .worker) :: List.replicate 4 (.run i { env := { picked := job } })

def passes (i seconds : Nat) : List (Event Party Choices) := [.spawn (.core (.pass seconds)), .run i {}]

/-- The email is delivered, ingested, and its receipt is purged after a month.
Then it is delivered once more. -/
def redelivered : List (Event Party Choices) :=
  delivers 0 "d1".toList ++ ingests 1 11 ++ passes 2 3000000 ++
    [.spawn (.purge 30 100), .run 3 {}] ++ delivers 4 "d1".toList ++ ingests 5 17

theorem begins_client : Begins client := by
  refine ⟨Fresh.of_keys (by decide), ⟨fun e e' m m' hm => ?_, fun r run hrun => ?_,
    fun r r' run run' hrun => ?_⟩, ⟨fun j row ev hrow => ?_, fun j row hrow => ?_⟩⟩
  · cases (show none = some m from hm)
  · cases (show none = some run from hrun)
  · cases (show none = some run from hrun)
  · cases (show none = some row from hrow)
  · cases (show none = some row from hrow)

theorem once_only_redelivered : (intakeAfter client redelivered).log.length = 1 ∧
    OnceOnly (intakeAfter client redelivered) :=
  ⟨by decide +kernel, once_only (reach_intakeAfter begins_client redelivered)⟩

end PayrollAgent.OneRunPerEmail
