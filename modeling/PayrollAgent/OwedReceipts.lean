import PayrollAgent.OneRunPerEmail

namespace PayrollAgent.OwedReceipts

open Lib Repo Ingest Gateway Receipts Effects FreshIds JobSteps NewJobs JobKeys OneRunPerEmail

structure Delivery where
  externalEventId : Str
  payload : Payload
  event : Uuid
  inserted : Bool

/-- What the sender of a webhook is answered: `accepted` or `duplicate` with the
event's id, or 503, which invites it again. -/
def inbound : (call : Call) → Except Exn (Reply call) → List Delivery
  | .persistVerifiedReceipt externalEventId payload, .ok result =>
      [⟨externalEventId, payload, result.1, result.2⟩]
  | _, _ => []

section

variable [PyText] [MailText]

def reception : Machine Call Reply Exn Store Choices Delivery :=
  ⟨execute, fun _ choices call s => inbound call (execute choices call s).1⟩

end

/-- What a transaction that takes no receipt does to the jobs. -/
inductive JobsKept (db db' : Db) : Prop
  | mapped {f : Uuid → JobRow → JobRow} (h : ∀ j, db'.jobs.get? j = (db.jobs.get? j).map (f j))
      (hf : ∀ j row, SameKey row (f j row))
  | added {j : Uuid} {row' : JobRow} (h : db'.jobs = db.jobs.set j row') (hnew : db.jobs.get? j = none)
      (hkey : ∀ ev, row'.dedupKey ≠ .ingest ev) (hevent : row'.eventId = none)
      (hfree : ∀ i row, db.jobs.get? i = some row → row.dedupKey ≠ row'.dedupKey)

structure Owed (s : Store) (log : List Delivery) : Prop where
  fresh : Fresh s.db
  below : s.events.Below s.db.nextId
  receipts : Receipted s
  drawn : ∀ j row ev, s.db.jobs.get? j = some row → row.dedupKey = .ingest ev → ev < s.db.nextId
  single : ∀ i j row row', s.db.jobs.get? i = some row → s.db.jobs.get? j = some row' →
    row.dedupKey = row'.dedupKey → i = j
  keyed : ∀ j row ev, s.db.jobs.get? j = some row → row.eventId = some ev → row.dedupKey = .ingest ev
  ingests : ∀ j row ev, s.db.jobs.get? j = some row → row.dedupKey = .ingest ev → row.kind = .ingest
  distinct : ∀ ev ev' event event', s.events.get? ev = some event → s.events.get? ev' = some event' →
    event.externalEventId = event'.externalEventId → ev = ev'
  work : ∀ ev event, s.events.get? ev = some event → ∃ j row, s.db.jobs.get? j = some row ∧
    row.dedupKey = .ingest ev
  promised : ∀ d ∈ log, ∃ j row, s.db.jobs.get? j = some row ∧ row.dedupKey = .ingest d.event
  named : ∀ d ∈ log, ∀ event, s.events.get? d.event = some event →
    event.externalEventId = d.externalEventId
  payloads : ∀ d ∈ log, d.inserted = true → ∀ event, s.events.get? d.event = some event →
    event.payload = d.payload
  once : ((log.filter Delivery.inserted).map Delivery.event).Nodup

variable {db db' db₁ : Db} {s s' : Store} {log : List Delivery} {j ev : Uuid} {row row' : JobRow}

theorem ingest_of_keyed (h : Keyed row) (hkind : row.kind ≠ .ingest) (ev : Uuid) :
    row.dedupKey ≠ .ingest ev := by
  unfold Keyed at h
  generalize row.kind = kind, row.dedupKey = key, row.runId = r, row.emailId = e,
    row.operatorResolutionId = g, row.eventId = v at h hkind
  rintro rfl
  cases h
  exact hkind rfl

namespace JobsKept

theorem of_write (h : JobsWrite db db') : JobsKept db db' := by
  cases h with
  | mapped h hf => exact .mapped h hf
  | enqueued h hnew hkeyed _ hkind hfree =>
      exact .added h hnew (ingest_of_keyed hkeyed hkind) (eventId_of_keyed hkeyed hkind) hfree

theorem same (h : db'.jobs = db.jobs) : JobsKept db db' := .of_write (.same h)

theorem enqueueJob {kind : JobKind} {dedupKey : DedupKey}
    {runId emailId operatorResolutionId : Option Uuid}
    (hfresh : Fresh db) (hnext : db.nextId ≤ db₁.nextId) (hjobs : db₁.jobs = db.jobs)
    (hkey : ∀ ev, dedupKey ≠ .ingest ev) :
    JobsKept db (enqueueJob kind dedupKey runId emailId operatorResolutionId none db₁) := by
  unfold Repo.enqueueJob
  split
  · exact .same hjobs
  next hnone =>
    refine .added (j := db₁.nextId) (congrArg (Dict.set · _ _) hjobs) (hfresh.jobs _ hnext)
      hkey rfl fun i row hrow hsame => ?_
    have hother := Dict.select_none.mp hnone i row (by rwa [hjobs])
    rw [decide_eq_false_iff_not] at hother
    exact hother hsame

theorem stays (h : JobsKept db db') (hrow : db.jobs.get? j = some row) :
    ∃ row', db'.jobs.get? j = some row' ∧ row'.dedupKey = row.dedupKey := by
  cases h with
  | mapped h hf => exact ⟨_, by rw [h, hrow]; rfl, (hf j row).dedupKey⟩
  | @added k row' h hnew =>
      have hne : j ≠ k := by
        rintro rfl
        rw [hnew] at hrow
        cases hrow
      exact ⟨row, by rw [h, Dict.get?_set_of_ne _ hne, hrow], rfl⟩

theorem origin (h : JobsKept db db') (hrow' : db'.jobs.get? j = some row') :
    (∃ row, db.jobs.get? j = some row ∧ SameKey row row') ∨
      (db.jobs.get? j = none ∧ (∀ ev, row'.dedupKey ≠ .ingest ev) ∧ row'.eventId = none ∧
        db'.jobs = db.jobs.set j row' ∧ ∀ i row, db.jobs.get? i = some row →
        row.dedupKey ≠ row'.dedupKey) := by
  cases h with
  | mapped h hf =>
      rw [h] at hrow'
      obtain ⟨row, hrow, rfl⟩ := Option.map_eq_some_iff.mp hrow'
      exact .inl ⟨row, hrow, hf j row⟩
  | @added k row₀ h hnew hkey hevent hfree =>
      have hget := hrow'
      rw [h, Dict.get?_set] at hget
      split at hget
      next hj =>
        subst hj
        obtain rfl := Option.some.inj hget
        exact .inr ⟨hnew, hkey, hevent, h, hfree⟩
      next => exact .inl ⟨row', hget, .refl row'⟩

end JobsKept

theorem Owed.kept (h : Owed s log) (hfresh : Fresh db') (hnext : s.db.nextId ≤ db'.nextId)
    (hreceipts : Receipted { s with db := db' }) (hjobs : JobsKept s.db db') :
    Owed { s with db := db' } log where
  fresh := hfresh
  below := h.below.mono hnext
  receipts := hreceipts
  drawn j row' ev hrow' hkey := by
    obtain ⟨row, hrow, hsame⟩ | ⟨-, hother, -⟩ := hjobs.origin hrow'
    · exact (h.drawn j row ev hrow (hsame.dedupKey.symm.trans hkey)).trans_le hnext
    · exact absurd hkey (hother ev)
  single i j row row' hrow hrow' hkey := by
    obtain ⟨row₀, hrow₀, hsame⟩ | ⟨hnew, -, -, hset, hfree⟩ := hjobs.origin hrow <;>
      obtain ⟨row₁, hrow₁, hsame'⟩ | ⟨hnew', -, -, hset', hfree'⟩ := hjobs.origin hrow'
    · exact h.single i j row₀ row₁ hrow₀ hrow₁ (by rw [← hsame.dedupKey, hkey, hsame'.dedupKey])
    · exact absurd (hsame.dedupKey.symm.trans hkey) (hfree' i row₀ hrow₀)
    · exact absurd (hsame'.dedupKey.symm.trans hkey.symm) (hfree j row₁ hrow₁)
    · rw [hset, Dict.get?_set] at hrow'
      split at hrow'
      next hj => exact hj.symm
      next =>
        rw [hnew'] at hrow'
        cases hrow'
  keyed j row' ev hrow' hev := by
    obtain ⟨row, hrow, hsame⟩ | ⟨-, -, hnone, -⟩ := hjobs.origin hrow'
    · exact hsame.dedupKey.trans (h.keyed j row ev hrow (hsame.eventId.symm.trans hev))
    · rw [hnone] at hev
      cases hev
  ingests j row' ev hrow' hkey := by
    obtain ⟨row, hrow, hsame⟩ | ⟨-, hother, -⟩ := hjobs.origin hrow'
    · exact hsame.kind.trans (h.ingests j row ev hrow (hsame.dedupKey.symm.trans hkey))
    · exact absurd hkey (hother ev)
  distinct := h.distinct
  work ev event hevent := by
    obtain ⟨j, row, hrow, hkey⟩ := h.work ev event hevent
    obtain ⟨row', hrow', hsame⟩ := hjobs.stays hrow
    exact ⟨j, row', hrow', hsame.trans hkey⟩
  promised d hd := by
    obtain ⟨j, row, hrow, hkey⟩ := h.promised d hd
    obtain ⟨row', hrow', hsame⟩ := hjobs.stays hrow
    exact ⟨j, row', hrow', hsame.trans hkey⟩
  named := h.named
  payloads := h.payloads
  once := h.once

theorem nextId_enqueueJob {kind : JobKind} {dedupKey : DedupKey}
    {runId emailId operatorResolutionId eventId : Option Uuid} :
    db.nextId ≤ (enqueueJob kind dedupKey runId emailId operatorResolutionId eventId db).nextId := by
  unfold enqueueJob
  split
  · exact le_rfl
  · exact Nat.le_succ _

theorem Owed.reply {mail : InboundMail} {awaiting late : Uuid} (h : Owed s log) :
    Owed { s with db := (persistAndEnqueueReply mail awaiting late s.db).2 } log := by
  obtain ⟨db₁, hdb₁, hresult⟩ := persistAndEnqueueReply_cases mail awaiting late s.db
  have hstored : Fresh db₁ ∧ s.db.nextId ≤ db₁.nextId ∧ db₁.jobs = s.db.jobs := by
    obtain rfl | ⟨-, rfl | ⟨r, rfl⟩⟩ := hdb₁
    · exact ⟨h.fresh, le_rfl, rfl⟩
    · exact ⟨h.fresh.stored mail, Nat.le_succ _, rfl⟩
    · exact ⟨(h.fresh.stored mail).linkEmailToRun _ _, Nat.le_succ _, rfl⟩
  obtain ⟨hfresh, hnext, hjobs⟩ := hstored
  have hreceipts : Receipted { s with db := db₁ } := h.receipts.same rfl hjobs
  obtain hresult | ⟨r, e, hresult⟩ := hresult
  · rw [hresult]
    exact h.kept hfresh hnext hreceipts (.same hjobs)
  · rw [hresult]
    exact h.kept (hfresh.enqueueJob ..) (hnext.trans nextId_enqueueJob)
      (hreceipts.enqueueJob (by decide) ..) (.enqueueJob h.fresh hnext hjobs (by simp))

theorem Owed.demo {mail : InboundMail} {businessId r : Uuid} {recordOnly : Bool} (h : Owed s log)
    (hwrite : writeDemoRun mail businessId recordOnly s.db = .ok (r, db')) :
    Owed { s with db := db' } log := by
  unfold writeDemoRun at hwrite
  split at hwrite
  · cases hwrite
  · dsimp only at hwrite
    split at hwrite
    · cases hwrite
    · obtain ⟨-, rfl⟩ := Prod.mk.inj (Except.ok.inj hwrite)
      have hinserted : Receipted
          { s with db := (stored mail s.db).insertRun (demoRun businessId s.db.nextId s.db.now recordOnly) } :=
        h.receipts.same rfl rfl
      have hnext : s.db.nextId ≤
          ((stored mail s.db).insertRun (demoRun businessId s.db.nextId s.db.now recordOnly)).nextId :=
        (Nat.le_succ _).trans (Nat.le_succ _)
      exact h.kept (((h.fresh.stored mail).insertRun _).enqueueJob ..) (hnext.trans nextId_enqueueJob)
        (hinserted.enqueueJob (by decide) ..) (.enqueueJob h.fresh hnext rfl (by simp))

def accepted (externalEventId : Str) (payload : Payload) (s : Store) : Store where
  db := enqueueIngest s.db.nextId { s.db with nextId := s.db.nextId + 1 }
  events := s.events.set s.db.nextId ⟨externalEventId, payload, s.db.now⟩

section

variable {externalEventId : Str} {payload : Payload}

theorem Owed.persist (h : Owed s log) (externalEventId : Str) (payload : Payload) :
    (∃ ev event, s.events.get? ev = some event ∧ event.externalEventId = externalEventId ∧
        persistVerifiedReceipt externalEventId payload s = .ok ((ev, false), s)) ∨
      (∀ ev event, s.events.get? ev = some event → event.externalEventId ≠ externalEventId) ∧
        persistVerifiedReceipt externalEventId payload s =
          .ok ((s.db.nextId, true), accepted externalEventId payload s) := by
  unfold persistVerifiedReceipt insertOrGetInboundEvent
  cases hselect : s.events.select fun _ event => event.externalEventId = externalEventId with
  | some found =>
      obtain ⟨hevent, hsame⟩ := Dict.select_some hselect
      exact .inl ⟨found.1, found.2, hevent, of_decide_eq_true hsame, rfl⟩
  | none =>
      have hfree : taken (.ingest s.db.nextId) { s.db with nextId := s.db.nextId + 1 } = false := by
        rw [taken, Option.isSome_eq_false_iff, Option.isNone_iff_eq_none]
        refine Dict.select_none.mpr fun j row hrow => decide_eq_false fun hkey => ?_
        exact absurd (h.drawn j row _ hrow hkey) (Nat.lt_irrefl _)
      refine .inr ⟨fun ev event hevent => ?_, ?_⟩
      · exact of_decide_eq_false (Dict.select_none.mp hselect ev event hevent)
      · dsimp only
        rw [hfree]
        rfl

def ingestJob (ev now : Nat) : JobRow :=
  { kind := .ingest
    dedupKey := .ingest ev
    runId := none
    emailId := none
    operatorResolutionId := none
    eventId := some ev
    state := .pending
    attempts := 0
    maxAttempts := maxAttempts .ingest
    availableAt := now
    leaseToken := none
    leasedUntil := none
    lastError := none
    updatedAt := now }

theorem accepted_db (h : Owed s log) : (accepted externalEventId payload s).db =
    { s.db with
      nextId := s.db.nextId + 2
      jobs := s.db.jobs.set (s.db.nextId + 1) (ingestJob s.db.nextId s.db.now) } := by
  unfold accepted enqueueIngest enqueueJob
  split
  next found hselect =>
    obtain ⟨hrow, hkey⟩ := Dict.select_some hselect
    exact absurd (h.drawn _ _ _ hrow (of_decide_eq_true hkey)) (Nat.lt_irrefl _)
  · rfl

theorem Owed.accept (h : Owed s log) (externalEventId : Str) (payload : Payload)
    (hnew : ∀ ev event, s.events.get? ev = some event → event.externalEventId ≠ externalEventId) :
    Owed (accepted externalEventId payload s) (⟨externalEventId, payload, s.db.nextId, true⟩ :: log) := by
  have hpersist : persistVerifiedReceipt externalEventId payload s =
      .ok ((s.db.nextId, true), accepted externalEventId payload s) := by
    obtain ⟨ev, event, hevent, hsame, -⟩ | ⟨-, hpersist⟩ := h.persist externalEventId payload
    · exact absurd hsame (hnew ev event hevent)
    · exact hpersist
  have hdb := @accepted_db _ _ externalEventId payload h
  have hnext : (accepted externalEventId payload s).db.nextId = s.db.nextId + 2 := by rw [hdb]
  have hjobs : (accepted externalEventId payload s).db.jobs =
      s.db.jobs.set (s.db.nextId + 1) (ingestJob s.db.nextId s.db.now) := by rw [hdb]
  have hjob : (accepted externalEventId payload s).db.jobs.get? (s.db.nextId + 1) =
      some (ingestJob s.db.nextId s.db.now) := by rw [hjobs, Dict.get?_set_self]
  have hstays : ∀ {j row}, s.db.jobs.get? j = some row →
      (accepted externalEventId payload s).db.jobs.get? j = some row := by
    intro j row hrow
    rw [hjobs, Dict.get?_set_of_ne _ (Nat.ne_of_lt
      ((h.fresh.jobs.lt hrow).trans (Nat.lt_succ_self _))), hrow]
  have hback : ∀ {j row}, (accepted externalEventId payload s).db.jobs.get? j = some row →
      s.db.jobs.get? j = some row ∨ j = s.db.nextId + 1 ∧ row = ingestJob s.db.nextId s.db.now := by
    intro j row hrow
    rw [hjobs, Dict.get?_set] at hrow
    split at hrow
    next hj => exact .inr ⟨hj, (Option.some.inj hrow).symm⟩
    next => exact .inl hrow
  have hevents : ∀ {ev event}, (accepted externalEventId payload s).events.get? ev = some event →
      s.events.get? ev = some event ∨ ev = s.db.nextId ∧
      event = ⟨externalEventId, payload, s.db.now⟩ := by
    intro ev event hevent
    change (s.events.set _ _).get? ev = some event at hevent
    rw [Dict.get?_set] at hevent
    split at hevent
    next hev => exact .inr ⟨hev, (Option.some.inj hevent).symm⟩
    next => exact .inl hevent
  have hold : ∀ {d event}, d ∈ log →
      (accepted externalEventId payload s).events.get? d.event = some event →
        s.events.get? d.event = some event := by
    intro d event hd hevent
    obtain hevent | ⟨hev, -⟩ := hevents hevent
    · exact hevent
    · obtain ⟨j, row, hrow, hkey⟩ := h.promised d hd
      exact absurd (h.drawn j row _ hrow hkey) (by rw [hev]; exact Nat.lt_irrefl _)
  constructor
  · unfold accepted enqueueIngest
    exact h.fresh.draw.enqueueJob ..
  · rw [hnext]
    exact (h.below.mono (Nat.le_add_right _ 2)).set (Nat.lt_add_of_pos_right (by decide)) _
  · exact h.receipts.persistVerifiedReceipt hpersist
  · intro j row ev hrow hkey
    rw [hnext]
    obtain hrow | ⟨-, rfl⟩ := hback hrow
    · exact (h.drawn j row ev hrow hkey).trans_le (Nat.le_add_right _ 2)
    · cases hkey
      exact Nat.lt_add_of_pos_right (by decide)
  · intro i j row row' hrow hrow' hkey
    obtain hrow | ⟨rfl, rfl⟩ := hback hrow <;> obtain hrow' | ⟨rfl, rfl⟩ := hback hrow'
    · exact h.single i j row row' hrow hrow' hkey
    · exact absurd (h.drawn i row _ hrow hkey) (Nat.lt_irrefl _)
    · exact absurd (h.drawn j row' _ hrow' hkey.symm) (Nat.lt_irrefl _)
    · rfl
  · intro j row ev hrow hev
    obtain hrow | ⟨-, rfl⟩ := hback hrow
    · exact h.keyed j row ev hrow hev
    · cases hev
      rfl
  · intro j row ev hrow hkey
    obtain hrow | ⟨-, rfl⟩ := hback hrow
    · exact h.ingests j row ev hrow hkey
    · rfl
  · intro ev ev' event event' hevent hevent' hsame
    obtain hevent | ⟨rfl, rfl⟩ := hevents hevent <;> obtain hevent' | ⟨rfl, rfl⟩ := hevents hevent'
    · exact h.distinct ev ev' event event' hevent hevent' hsame
    · exact absurd hsame (hnew ev event hevent)
    · exact absurd hsame.symm (hnew ev' event' hevent')
    · rfl
  · intro ev event hevent
    obtain hevent | ⟨rfl, -⟩ := hevents hevent
    · obtain ⟨j, row, hrow, hkey⟩ := h.work ev event hevent
      exact ⟨j, row, hstays hrow, hkey⟩
    · exact ⟨_, _, hjob, rfl⟩
  · intro d hd
    obtain rfl | hd := List.mem_cons.mp hd
    · exact ⟨_, _, hjob, rfl⟩
    · obtain ⟨j, row, hrow, hkey⟩ := h.promised d hd
      exact ⟨j, row, hstays hrow, hkey⟩
  · intro d hd event hevent
    obtain rfl | hd := List.mem_cons.mp hd
    · obtain hevent | ⟨-, rfl⟩ := hevents hevent
      · exact absurd (h.below.lt hevent) (Nat.lt_irrefl _)
      · rfl
    · exact h.named d hd event (hold hd hevent)
  · intro d hd hinserted event hevent
    obtain rfl | hd := List.mem_cons.mp hd
    · obtain hevent | ⟨-, rfl⟩ := hevents hevent
      · exact absurd (h.below.lt hevent) (Nat.lt_irrefl _)
      · rfl
    · exact h.payloads d hd hinserted event (hold hd hevent)
  · refine List.nodup_cons.mpr ⟨fun hmem => ?_, h.once⟩
    obtain ⟨d, hd, hev⟩ := List.mem_map.mp hmem
    obtain ⟨j, row, hrow, hkey⟩ := h.promised d (List.mem_filter.mp hd).1
    exact absurd (h.drawn j row _ hrow hkey) (by rw [hev]; exact Nat.lt_irrefl _)

theorem Owed.repeat (h : Owed s log) {event : InboundEvent} (hevent : s.events.get? ev = some event)
    (hsame : event.externalEventId = externalEventId) (payload : Payload) :
    Owed s (⟨externalEventId, payload, ev, false⟩ :: log) := by
  refine { h with promised := ?_, named := ?_, payloads := ?_, once := h.once }
  · intro d hd
    obtain rfl | hd := List.mem_cons.mp hd
    · exact h.work ev event hevent
    · exact h.promised d hd
  · intro d hd event' hevent'
    obtain rfl | hd := List.mem_cons.mp hd
    · obtain rfl := Option.some.inj (hevent.symm.trans hevent')
      exact hsame
    · exact h.named d hd event' hevent'
  · intro d hd hinserted event' hevent'
    obtain rfl | hd := List.mem_cons.mp hd
    · cases hinserted
    · exact h.payloads d hd hinserted event' hevent'

theorem Owed.persisted {x : Uuid × Bool} (h : Owed s log)
    (hpersist : persistVerifiedReceipt externalEventId payload s = .ok (x, s')) :
    Owed s' (⟨externalEventId, payload, x.1, x.2⟩ :: log) := by
  obtain ⟨ev, event, hevent, hsame, hbefore⟩ | ⟨hnew, hnext⟩ := h.persist externalEventId payload
  · obtain ⟨rfl, rfl⟩ := Prod.mk.inj (Except.ok.inj (hpersist.symm.trans hbefore))
    exact h.repeat hevent hsame payload
  · obtain ⟨rfl, rfl⟩ := Prod.mk.inj (Except.ok.inj (hpersist.symm.trans hnext))
    exact h.accept externalEventId payload hnew

end

theorem dedupKey_forget (evs : List Uuid) (row : JobRow) : (forget evs row).dedupKey = row.dedupKey := by
  unfold forget
  split
  · rfl
  · rfl

theorem kind_forget (evs : List Uuid) (row : JobRow) : (forget evs row).kind = row.kind := by
  unfold forget
  split
  · rfl
  · rfl

theorem eventId_forget {evs : List Uuid} (h : (forget evs row).eventId = some ev) :
    row.eventId = some ev := by
  unfold forget at h
  split at h
  · cases h
  · exact h

theorem Owed.unanswered {ds : List Delivery} (h : Owed s (ds ++ log)) : Owed s log := by
  have hmem : ∀ d ∈ log, d ∈ ds ++ log := fun d hd => List.mem_append_right ds hd
  refine { h with promised := ?_, named := ?_, payloads := ?_, once := ?_ }
  · exact fun d hd => h.promised d (hmem d hd)
  · exact fun d hd => h.named d (hmem d hd)
  · exact fun d hd => h.payloads d (hmem d hd)
  · exact h.once.sublist (((List.sublist_append_right ds log).filter _).map _)

theorem Owed.deleted {evs : List Uuid} (h : Owed s log)
    (hclosed : ∀ ev ∈ evs, ∀ j row, s.db.jobs.get? j = some row → row.eventId = some ev →
    row.kind = .ingest → isOpen row = false) : Owed (deleteEvents evs s) log := by
  have hjobs : ∀ j, (deleteEvents evs s).db.jobs.get? j = (s.db.jobs.get? j).map (forget evs) :=
    fun j => Dict.get?_mapValues _ _ _
  have hback : ∀ {j row'}, (deleteEvents evs s).db.jobs.get? j = some row' →
      ∃ row, s.db.jobs.get? j = some row ∧ forget evs row = row' := by
    intro j row' hrow'
    rw [hjobs] at hrow'
    exact Option.map_eq_some_iff.mp hrow'
  have hstays : ∀ {ev}, (∃ j row, s.db.jobs.get? j = some row ∧ row.dedupKey = .ingest ev) →
      ∃ j row', (deleteEvents evs s).db.jobs.get? j = some row' ∧ row'.dedupKey = .ingest ev := by
    rintro ev ⟨j, row, hrow, hkey⟩
    exact ⟨j, forget evs row, by rw [hjobs, hrow]; rfl, (dedupKey_forget evs row).trans hkey⟩
  have hevents : ∀ {ev event}, (deleteEvents evs s).events.get? ev = some event →
    s.events.get? ev = some event := by
    intro ev event hevent
    rw [deleteEvents, Dict.get?_deleteWhere] at hevent
    exact hevent.1
  constructor
  · refine { h.fresh with jobs := fun j hj => ?_ }
    rw [hjobs, h.fresh.jobs j hj]
    rfl
  · intro ev hev
    cases hevent : (deleteEvents evs s).events.get? ev with
    | none => rfl
    | some event => exact absurd (h.below.lt (hevents hevent)) (Nat.not_lt.mpr hev)
  · exact h.receipts.deleteEvents hclosed
  · intro j row' ev hrow' hkey
    obtain ⟨row, hrow, rfl⟩ := hback hrow'
    exact h.drawn j row ev hrow ((dedupKey_forget evs row).symm.trans hkey)
  · intro i j row₁ row₂ hrow₁ hrow₂ hkey
    obtain ⟨row, hrow, rfl⟩ := hback hrow₁
    obtain ⟨row', hrow', rfl⟩ := hback hrow₂
    rw [dedupKey_forget, dedupKey_forget] at hkey
    exact h.single i j row row' hrow hrow' hkey
  · intro j row' ev hrow' hev
    obtain ⟨row, hrow, rfl⟩ := hback hrow'
    exact (dedupKey_forget evs row).trans (h.keyed j row ev hrow (eventId_forget hev))
  · intro j row' ev hrow' hkey
    obtain ⟨row, hrow, rfl⟩ := hback hrow'
    exact (kind_forget evs row).trans (h.ingests j row ev hrow
      ((dedupKey_forget evs row).symm.trans hkey))
  · exact fun ev ev' event event' hevent hevent' => h.distinct ev ev' event event' (hevents hevent)
      (hevents hevent')
  · exact fun ev event hevent => hstays (h.work ev event (hevents hevent))
  · exact fun d hd => hstays (h.promised d hd)
  · exact fun d hd event hevent => h.named d hd event (hevents hevent)
  · exact fun d hd hinserted event hevent => h.payloads d hd hinserted event (hevents hevent)
  · exact h.once

section

variable [PyText] [MailText] {choices : Choices} {call : Call} {a : Reply call}

theorem Owed.transaction (h : Owed s log) (htxn : transaction choices call s = .ok (a, s')) :
    Owed s' (inbound call (.ok a) ++ log) := by
  cases call with
  | core op =>
      cases op with
      | fetchInbound ev =>
          obtain rfl := fetchInbound_ok htxn
          exact h
      | _ =>
          obtain ⟨db', hcore, rfl⟩ := onDb_ok htxn
          have heffect := txn_effect hcore
          exact h.kept (fresh_step heffect h.fresh) (jobsGrow heffect).nextId
            (h.receipts.core heffect h.fresh) (.of_write (jobsWrite heffect h.fresh))
  | persistVerifiedReceipt externalEventId payload => exact h.persisted htxn
  | persistAndEnqueueReply mail =>
      obtain ⟨-, rfl⟩ := Prod.mk.inj (Except.ok.inj htxn)
      exact h.reply
  | writeDemoRun mail businessId recordOnly =>
      obtain ⟨db', hwrite, rfl⟩ := onDb_ok htxn
      exact h.demo hwrite
  | purgeTerminalInboundEvents olderThanDays batchSize =>
      obtain rfl := purge_ok htxn
      exact h.deleted fun ev hev j row => closed_of_candidate hev

theorem Owed.execute (choices : Choices) (call : Call) (h : Owed s log) :
    Owed (execute choices call s).2 (inbound call (execute choices call s).1 ++ log) := by
  have hlost : ∀ e, inbound call (.error e) = [] := fun e => by
    cases call with
    | _ => rfl
  have hrefused : ∀ e, Owed s (inbound call (.error e) ++ log) := fun e => by
    rwa [hlost]
  unfold Receipts.execute
  cases choices.env.fault with
  | before e => exact hrefused e
  | none =>
      cases htxn : Receipts.transaction choices call s with
      | error e => exact hrefused e
      | ok x => exact h.transaction htxn
  | after e =>
      cases htxn : Receipts.transaction choices call s with
      | error e' => exact hrefused e'
      | ok x =>
          show Owed x.2 (inbound call (.error e) ++ log)
          rw [hlost]
          exact (h.transaction htxn).unanswered

theorem owed_of_reach {w : World Call Reply Exn Store Delivery}
    (h : World.Reach reception party World.Rules.any (Owed · []) w) : Owed w.data w.log := by
  induction h with
  | start hs => exact hs
  | @step w e _ _ ih =>
      cases hop : w.operation e with
      | none => rwa [(World.step_of_none hop).1, (World.step_of_none hop).2]
      | some x =>
          obtain ⟨i, choices, call⟩ := x
          obtain ⟨hdata, hlog⟩ := @World.step_operation _ _ _ _ _ _ _ reception party _ _ _ _ _ hop
          rw [hdata, hlog]
          exact ih.execute choices call

structure Durable (w : World Call Reply Exn Store Delivery) : Prop where
  work : ∀ d ∈ w.log, ∃ j row, w.data.db.jobs.get? j = some row ∧ row.kind = .ingest ∧
    row.dedupKey = .ingest d.event ∧
      ∀ i row', w.data.db.jobs.get? i = some row' → row'.dedupKey = .ingest d.event → i = j
  stands : ∀ d ∈ w.log, ∀ j row, w.data.db.jobs.get? j = some row → row.dedupKey = .ingest d.event →
    isOpen row = true → row.eventId = some d.event ∧ ∃ event, w.data.events.get? d.event = some event ∧
      event.externalEventId = d.externalEventId ∧ (d.inserted = true → event.payload = d.payload)
  once : ((w.log.filter Delivery.inserted).map Delivery.event).Nodup
  redelivered : ∀ d ∈ w.log, (w.data.events.get? d.event).isSome → ∀ payload,
    persistVerifiedReceipt d.externalEventId payload w.data = .ok ((d.event, false), w.data)
  answers : ∀ externalEventId payload, ∃ x s', persistVerifiedReceipt externalEventId payload
    w.data = .ok (x, s')

theorem accepted_durable {w : World Call Reply Exn Store Delivery}
    (hw : World.Reach reception party World.Rules.any (Owed · []) w) : Durable w := by
  have h := owed_of_reach hw
  constructor
  · intro d hd
    obtain ⟨j, row, hrow, hkey⟩ := h.promised d hd
    exact ⟨j, row, hrow, h.ingests j row d.event hrow hkey, hkey,
      fun i row' hrow' hkey' => h.single i j row' row hrow' hrow (hkey'.trans hkey.symm)⟩
  · intro d hd j row hrow hkey hopen
    obtain ⟨-, -, -, hevent⟩ := h.receipts.context j row hrow (h.ingests j row d.event hrow hkey)
    obtain hevent | hdone | hdead := hevent
    · obtain ⟨ev, hev⟩ := Option.ne_none_iff_exists'.mp hevent
      have hsame : ev = d.event := DedupKey.ingest.inj ((h.keyed j row ev hrow hev).symm.trans hkey)
      obtain ⟨event, hstored⟩ := Option.isSome_iff_exists.mp (h.receipts.linked j row ev hrow hev)
      rw [hsame] at hev hstored
      exact ⟨hev, event, hstored, h.named d hd event hstored, fun hinserted =>
        h.payloads d hd hinserted event hstored⟩
    · simp [isOpen, hdone] at hopen
    · simp [isOpen, hdead] at hopen
  · exact h.once
  · intro d hd hstored payload
    obtain ⟨event, hevent⟩ := Option.isSome_iff_exists.mp hstored
    have hname := h.named d hd event hevent
    obtain ⟨ev, event', hevent', hname', hpersist⟩ | ⟨hnew, -⟩ := h.persist d.externalEventId payload
    · obtain rfl := h.distinct ev d.event event' event hevent' hevent (hname'.trans hname.symm)
      exact hpersist
    · exact absurd hname (hnew d.event event hevent)
  · intro externalEventId payload
    obtain ⟨ev, event, -, -, hpersist⟩ | ⟨-, hpersist⟩ := h.persist externalEventId payload
    · exact ⟨_, _, hpersist⟩
    · exact ⟨_, _, hpersist⟩

end

attribute [local instance] asciiText asciiMail

def receptionAfter (es : List (Event Party Choices)) : World Call Reply Exn Store Delivery :=
  World.steps reception party ⟨client, [], []⟩ es

theorem owed_client : Owed client [] := by
  have hjobs : ∀ j, client.db.jobs.get? j = none := fun j => rfl
  have hevents : ∀ ev, client.events.get? ev = none := fun ev => rfl
  constructor
  · exact begins_client.fresh
  · exact fun ev _ => hevents ev
  · exact begins_client.receipts
  · simp [hjobs]
  · simp [hjobs]
  · simp [hjobs]
  · simp [hjobs]
  · simp [hevents]
  · simp [hevents]
  · exact fun d hd => (by cases hd)
  · exact fun d hd => (by cases hd)
  · exact fun d hd => (by cases hd)
  · exact List.nodup_nil

theorem reach_receptionAfter (es : List (Event Party Choices)) :
    World.Reach reception party World.Rules.any (Owed · []) (receptionAfter es) := by
  have hstart : World.Reach reception party World.Rules.any (Owed · []) ⟨client, [], []⟩ :=
    .start owed_client
  exact hstart.steps_any es

theorem accepted_durable_redelivered :
    (receptionAfter (redelivered ++ delivers 6 "d1".toList)).log.map Delivery.inserted =
        [false, true, true] ∧
      Durable (receptionAfter (redelivered ++ delivers 6 "d1".toList)) :=
  ⟨by decide +kernel, accepted_durable (reach_receptionAfter _)⟩

end PayrollAgent.OwedReceipts
