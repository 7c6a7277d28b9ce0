import PayrollAgent.FreshIds
import PayrollAgent.RunSteps

namespace PayrollAgent.EmailSteps

open Lib Repo AliasLearning RunStages Delivery RunRoutes ClarificationWrites Ingest Effects RunSteps
  FreshIds

/-- The row of a mail that ingest stored, with the run it was linked to. -/
def arrived (mail : InboundMail) (link : Option Uuid) (db : Db) : Inbound where
  mail := mail
  runId := link
  epoch := link.elim 0 fun r => (db.epochOf r).getD 0
  consumedRound := none

def Stores (mail : InboundMail) (link : Option Uuid) (db db' : Db) : Prop :=
  ∀ e, db'.inbound.get? e = if e = db.nextId then some (arrived mail link db) else db.inbound.get? e

def NewMail (mail : InboundMail) (db : Db) : Prop :=
  ∀ e m, db.inbound.get? e = some m → m.mail.messageId ≠ mail.messageId

/-- What a committed transaction does to the inbound rows. -/
inductive InboundWrite (db db' : Db) : Op → Prop
  | same {op : Op} (h : db'.inbound = db.inbound) : InboundWrite db db' op
  | consumed {messageId round : Nat} (h : db'.inbound = (markReplyConsumed messageId round db).inbound) :
      InboundWrite db db' (.markReplyConsumed messageId round)
  | stored {mail : InboundMail} {link : Option Uuid} (h : Stores mail link db db')
      (hnew : NewMail mail db) : InboundWrite db db' (.ingestEmail mail)

variable {db db' db₁ : Db}

theorem stores_stored (mail : InboundMail) : Stores mail none db (stored mail db) :=
  fun _ => Dict.get?_set ..

theorem stores_link (mail : InboundMail) (r : Uuid) :
    Stores mail (some r) db (linkEmailToRun db.nextId r (stored mail db)) := by
  intro e
  rw [linkEmailToRun, stored, Db.insertInbound, Dict.get?_modify, Dict.get?_set]
  split
  · rfl
  · rfl

theorem inboundByMessageId_none {messageId : Uuid} : inboundByMessageId db messageId = none ↔
    ∀ e m, db.inbound.get? e = some m → m.mail.messageId ≠ messageId := by
  rw [inboundByMessageId, Dict.select_none]
  simp only [decide_eq_false_iff_not, ne_eq]

theorem inboundByMessageId_some {messageId e : Uuid} {m : Inbound}
    (h : inboundByMessageId db messageId = some (e, m)) :
    db.inbound.get? e = some m ∧ m.mail.messageId = messageId := by
  obtain ⟨hm, hsame⟩ := Dict.select_some h
  exact ⟨hm, of_decide_eq_true hsame⟩

theorem Stores.congr {mail : InboundMail} {link : Option Uuid} (h : Stores mail link db db₁)
    (hin : db'.inbound = db₁.inbound) : Stores mail link db db' := fun e => by rw [hin, h e]

theorem ingestNewRun_inbound (mail : InboundMail) (e : Uuid) (db : Db) :
    (ingestNewRun mail e db).2.inbound = db.inbound ∧ (ingestNewRun mail e db).1 ≠ .duplicate := by
  unfold ingestNewRun
  split
  · exact ⟨rfl, by simp⟩
  · exact ⟨enqueueJob_inbound .., by simp⟩

theorem ingestEmail_cases (mail : InboundMail) (awaiting late : Uuid) (db : Db) :
    ((ingestEmail mail awaiting late db).1 = .duplicate ∧
      (ingestEmail mail awaiting late db).2.inbound = db.inbound) ∨
    (ingestEmail mail awaiting late db).1 ≠ .duplicate ∧ NewMail mail db ∧
      ∃ link, Stores mail link db (ingestEmail mail awaiting late db).2 := by
  unfold ingestEmail
  split
  next e row hrow =>
    refine .inl ⟨rfl, ?_⟩
    unfold ingestDuplicate
    split
    · exact authorizedReplyJob_inbound ..
    · rfl
  next hnone =>
    have hnew : NewMail mail db := inboundByMessageId_none.mp hnone
    split
    · exact .inl ⟨rfl, rfl⟩
    · have hrun := ingestNewRun_inbound mail db.nextId (stored mail db)
      refine .inr ?_
      unfold ingestFresh
      dsimp only
      split
      · exact ⟨hrun.2, hnew, none, (stores_stored mail).congr hrun.1⟩
      · split
        next r _ =>
          exact ⟨by simp, hnew, some r, (stores_link mail r).congr (authorizedReplyJob_inbound ..)⟩
        · split
          next r _ => exact ⟨by simp, hnew, some r, stores_link mail r⟩
          · exact ⟨hrun.2, hnew, none, (stores_stored mail).congr hrun.1⟩

theorem ingestEmail_write (mail : InboundMail) (awaiting late : Uuid) (db : Db) :
    InboundWrite db (ingestEmail mail awaiting late db).2 (.ingestEmail mail) := by
  obtain ⟨-, hsame⟩ | ⟨-, hnew, link, hstores⟩ := ingestEmail_cases mail awaiting late db
  · exact .same hsame
  · exact .stored hstores hnew

def writesInbound : Op → Bool
  | .markReplyConsumed _ _ => true
  | .ingestEmail _ => true
  | _ => false

section

variable [PyText] {env : Env} {op : Op} {a : Ans op}

theorem inbound_kept (h : Effect env db op a db') (hop : writesInbound op = false) :
    db'.inbound = db.inbound := by
  cases h with
  | idle => rfl
  | leased => rfl
  | reapedInvalid => rfl
  | reapedReview => rfl
  | reapedRun => exact setRunError_inbound ..
  | reapedJob => rfl
  | retired => rfl
  | recorded => exact settleSent_inbound ..
  | expired => rfl
  | sent => exact settleSent_inbound ..
  | rescheduled => rfl
  | reviewed => rfl
  | closed => rfl
  | requeued => rfl
  | failed => exact setRunError_inbound ..
  | released => rfl
  | handedOver => rfl
  | handedAgain => rfl
  | adopted => rfl
  | claimed => rfl
  | statusSet => rfl
  | rewound => rfl
  | consumed => cases hop
  | fieldsSet => rfl
  | candidatesSet => rfl
  | persisted => exact persistStages_inbound ..
  | escalated => rfl
  | finalized => rfl
  | replayed => exact enqueueSend_inbound ..
  | reserved => exact reserveClarification_inbound ..
  | redelivered => cases hop
  | unknown => cases hop
  | created => cases hop
  | late => cases hop
  | replied => cases hop
  | prepared => rfl
  | approved => exact deliver_inbound ..
  | errored => rfl
  | retriggered _ _ hclaim =>
      obtain ⟨rfl, -⟩ | ⟨rfl, -⟩ := hclaim
      · exact enqueueJob_inbound ..
      · exact enqueueJob_inbound ..
  | markedDelivered _ hresolve =>
      obtain ⟨handoffs, rfl⟩ := resolve_frame hresolve
      rfl
  | @authorizedNew r e m db₁ _ hresolve =>
      have hin : db₁.inbound = db.inbound := by
        obtain ⟨handoffs, rfl⟩ := resolve_frame hresolve
        rfl
      exact ((enqueueSend_inbound ..).trans (reserveOutboundSnapshot_inbound ..)).trans hin
  | @finishedReview r e m target acknowledge =>
      cases acknowledge with
      | true => rfl
      | false => rfl
  | advanced => rfl
  | resolved => exact enqueueJob_inbound ..
  | passed => rfl

theorem inboundWrite (h : txn env op db = .ok (a, db')) : InboundWrite db db' op := by
  cases op with
  | markReplyConsumed messageId round =>
      cases h
      exact .consumed rfl
  | ingestEmail mail =>
      obtain rfl : (ingestEmail mail env.picked env.otherPicked db).2 = db' :=
        congrArg Prod.snd (Except.ok.inj h)
      exact ingestEmail_write ..
  | _ => exact .same (inbound_kept (txn_effect h) rfl)

end

namespace InboundWrite

variable {op : Op} {e : Uuid} {m : Inbound}

theorem stays (h : InboundWrite db db' op) (hfresh : Fresh db) (hm : db.inbound.get? e = some m) :
    ∃ m', db'.inbound.get? e = some m' ∧ m'.mail = m.mail ∧ m'.runId = m.runId ∧ m'.epoch = m.epoch := by
  cases h with
  | same h => exact ⟨m, by rw [h, hm], rfl, rfl, rfl⟩
  | consumed h =>
      rw [h, markReplyConsumed, Dict.get?_updateWhere, hm, Option.map_some]
      refine ⟨_, rfl, ?_⟩
      split
      · exact ⟨rfl, rfl, rfl⟩
      · exact ⟨rfl, rfl, rfl⟩
  | stored h =>
      have hne : e ≠ db.nextId := Nat.ne_of_lt (hfresh.inbound.lt hm)
      exact ⟨m, by rw [h e, if_neg hne, hm], rfl, rfl, rfl⟩

theorem origin {m' : Inbound} (h : InboundWrite db db' op) (hm' : db'.inbound.get? e = some m') :
    (∃ m, db.inbound.get? e = some m ∧ m'.mail = m.mail ∧ m'.runId = m.runId ∧ m'.epoch = m.epoch) ∨
      ∃ mail link, op = .ingestEmail mail ∧ e = db.nextId ∧ m' = arrived mail link db ∧
      NewMail mail db := by
  cases h with
  | same h => exact .inl ⟨m', by rwa [h] at hm', rfl, rfl, rfl⟩
  | consumed h =>
      rw [h, markReplyConsumed, Dict.get?_updateWhere] at hm'
      obtain ⟨m, hm, rfl⟩ := Option.map_eq_some_iff.mp hm'
      refine .inl ⟨m, hm, ?_⟩
      split
      · exact ⟨rfl, rfl, rfl⟩
      · exact ⟨rfl, rfl, rfl⟩
  | @stored mail link h hnew =>
      rw [h e] at hm'
      split at hm'
      next he => exact .inr ⟨mail, link, rfl, he, (Option.some.inj hm').symm, hnew⟩
      · exact .inl ⟨m', hm', rfl, rfl, rfl⟩

end InboundWrite

/-- The unique index over the Message-IDs of the inbound rows. -/
def UniqueMails (db : Db) : Prop :=
  ∀ e e' m m', db.inbound.get? e = some m → db.inbound.get? e' = some m' →
    m.mail.messageId = m'.mail.messageId → e = e'

theorem InboundWrite.uniqueMails {op : Op} (h : InboundWrite db db' op) (hunique : UniqueMails db) :
    UniqueMails db' := by
  intro e e' m m' hm hm' hsame
  obtain ⟨m₀, hm₀, hmail, -⟩ | ⟨mail, link, -, rfl, rfl, hnew⟩ := h.origin hm
  · obtain ⟨m₁, hm₁, hmail', -⟩ | ⟨mail, link, -, rfl, rfl, hnew⟩ := h.origin hm'
    · rw [hmail, hmail'] at hsame
      exact hunique e e' m₀ m₁ hm₀ hm₁ hsame
    · rw [hmail] at hsame
      exact absurd hsame (hnew e m₀ hm₀)
  · obtain ⟨m₁, hm₁, hmail', -⟩ | ⟨mail', link', -, rfl, rfl, -⟩ := h.origin hm'
    · rw [hmail'] at hsame
      exact absurd hsame.symm (hnew e' m₁ hm₁)
    · rfl

theorem UniqueMails.stored {mail : InboundMail} {link : Option Uuid} (hunique : UniqueMails db)
    (h : Stores mail link db db') (hnew : NewMail mail db) : UniqueMails db' :=
  (InboundWrite.stored h hnew).uniqueMails hunique

/-- What a committed transaction does to the runs and the mails they come from. -/
inductive RunsWrite (db db' : Db) : Prop
  | kept (h : ∀ r, (db'.runs.get? r).map Run.sourceEmailId = (db.runs.get? r).map Run.sourceEmailId)
  | created {mail : InboundMail} {r businessId : Uuid} (hstores : Stores mail none db db')
      (h : db'.runs = db.runs.set r (Run.created businessId db.nextId db.now))
      (hnew : db.runs.get? r = none)

namespace RunsWrite

theorem same (h : db'.runs = db.runs) : RunsWrite db db' := .kept fun r => by rw [h]

theorem modify {r₀ : Uuid} {f : Run → Run} (h : db'.runs = db.runs.modify r₀ f)
    (hf : ∀ run, (f run).sourceEmailId = run.sourceEmailId) : RunsWrite db db' := by
  refine .kept fun r => ?_
  rw [h, Dict.get?_modify]
  split
  · rw [Option.map_map]
    exact congrArg (Option.map · _) (funext hf)
  · rfl

theorem settleSent [PyText] (r e : Uuid) (purpose : Purpose) (hdb₁ : db₁.runs = db.runs)
    (h : db'.runs = (settleSent r e purpose db₁).runs) : RunsWrite db db' := by
  rw [settleSent_runs, hdb₁] at h
  split at h
  · exact modify h fun _ => rfl
  · exact same h

theorem persistStages (r : Uuid) (s : StageResult) : RunsWrite db (persistStages r s db) := by
  have hruns : ∃ f, (Repo.persistStages r s db).runs = db.runs.modify r f ∧
      ∀ run, (f run).sourceEmailId = run.sourceEmailId := by
    unfold Repo.persistStages
    dsimp only [setStatus, Db.modifyRun]
    split
    · simp only [Dict.modify_modify]
      exact ⟨_, rfl, fun _ => rfl⟩
    · dsimp only
      exact ⟨_, rfl, fun _ => rfl⟩
  obtain ⟨f, hf, hkept⟩ := hruns
  exact modify hf hkept

theorem reserveClarification (r : Uuid) (q : Question) : RunsWrite db (reserveClarification r q db) := by
  have hruns : ∃ f, (ClarificationWrites.reserveClarification r q db).runs = db.runs.modify r f ∧
      ∀ run, (f run).sourceEmailId = run.sourceEmailId := by
    simp only [ClarificationWrites.reserveClarification, pauseForReply_runs]
    cases q.candidates with
    | none =>
        simp only [enqueueSend_runs, reserveOutboundSnapshot_runs]
        exact ⟨_, rfl, fun _ => rfl⟩
    | some candidates =>
        simp only [setAliasCandidates, Db.modifyRun, enqueueSend_runs, reserveOutboundSnapshot_runs,
          Dict.modify_modify]
        exact ⟨_, rfl, fun _ => rfl⟩
  obtain ⟨f, hf, hkept⟩ := hruns
  exact modify hf hkept

end RunsWrite

section

variable [PyText] {env : Env} {op : Op} {a : Ans op}

theorem runsWrite (h : Effect env db op a db') (hfresh : Fresh db) : RunsWrite db db' := by
  cases h with
  | idle => exact .same rfl
  | leased => exact .same rfl
  | reapedInvalid => exact .same rfl
  | reapedReview => exact .modify (enterDeliveryReview_runs ..) fun _ => rfl
  | reapedRun _ _ _ hstatus => exact .modify (setRunError_runs hstatus) fun _ => rfl
  | reapedJob => exact .same rfl
  | retired => exact .same rfl
  | recorded => exact .settleSent _ _ _ rfl rfl
  | expired => exact .modify (enterDeliveryReview_runs ..) fun _ => rfl
  | @sent job result row r e m run h =>
      have hdb : (appendDeliveryAttempt e .sent .none (releaseHandoff h .finalized db)).runs =
        db.runs := rfl
      exact .settleSent r e m.purpose hdb rfl
  | rescheduled => exact .same rfl
  | reviewed => exact .modify (enterDeliveryReview_runs ..) fun _ => rfl
  | closed => exact .same rfl
  | @requeued job result row r =>
      have hdb : (setStatus r .received db).runs = _ := Db.modifyRun_runs ..
      exact .modify hdb fun _ => rfl
  | failed _ _ hstatus => exact .modify (setRunError_runs hstatus) fun _ => rfl
  | released => exact .same rfl
  | handedOver => exact .same rfl
  | handedAgain => exact .same rfl
  | adopted => exact .same rfl
  | claimed => exact .modify (Db.modifyRun_runs ..) fun _ => rfl
  | statusSet => exact .modify (Db.modifyRun_runs ..) fun _ => rfl
  | rewound => exact .modify (Db.modifyRun_runs ..) fun _ => rfl
  | consumed => exact .same rfl
  | fieldsSet => exact .modify (Db.modifyRun_runs ..) fun _ => rfl
  | candidatesSet => exact .modify (Db.modifyRun_runs ..) fun _ => rfl
  | persisted => exact .persistStages ..
  | escalated => exact .modify (Db.modifyRun_runs ..) fun _ => rfl
  | finalized => exact .modify (pauseForReply_runs ..) fun _ => rfl
  | @replayed r e extracted m =>
      have hruns := pauseForReply_runs r m.round extracted (enqueueSend r e db)
      rw [enqueueSend_runs] at hruns
      exact .modify hruns fun _ => rfl
  | reserved => exact .reserveClarification ..
  | redelivered => exact .same (authorizedReplyJob_runs ..)
  | unknown => exact .same rfl
  | @created mail businessId =>
      refine .created (r := db.nextId + 1) ((stores_stored mail).congr (enqueueJob_inbound ..))
        (enqueueJob_runs ..) (hfresh.runs _ (Nat.le_succ _))
  | late => exact .same rfl
  | replied => exact .same (authorizedReplyJob_runs ..)
  | prepared => exact .modify (Db.modifyRun_runs ..) fun _ => rfl
  | @approved r =>
      obtain hdeliver | hdeliver := deliver_runs r env.envelope (setStatus r .approved db)
      · exact .modify (hdeliver.trans (Db.modifyRun_runs ..)) fun _ => rfl
      · rw [setStatus, Db.modifyRun_runs, Dict.modify_modify] at hdeliver
        exact .modify hdeliver fun _ => rfl
  | errored => exact .modify (Db.modifyRun_runs ..) fun _ => rfl
  | retriggered _ _ hclaim =>
      obtain ⟨rfl, -⟩ | ⟨rfl, -⟩ := hclaim
      · exact .modify (enqueueJob_runs ..) fun _ => rfl
      · exact .modify ((enqueueJob_runs ..).trans (Dict.modify_modify ..)) fun _ => rfl
  | @markedDelivered r e m db' hload hresolve =>
      exact .modify (resolved_runs hresolve) fun _ => rfl
  | @authorizedNew r e m db₁ hload hresolve hnone =>
      exact .modify (authorizedNew_runs _ hresolve) fun _ => rfl
  | @finishedReview r e m target acknowledge hload =>
      exact .modify (finishedReview_runs ..) fun _ => rfl
  | advanced => exact .same rfl
  | resolved => exact .same (enqueueJob_runs ..)
  | passed => exact .same rfl

end

end PayrollAgent.EmailSteps
