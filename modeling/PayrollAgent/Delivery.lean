import PayrollAgent.Repo.JobSettlement

namespace PayrollAgent.Delivery

open Lib Repo

section

variable [PyText]

def completeSentConfirmation (r : Uuid) (db : Db) : Db :=
  setStatus r .reconciled (setStatus r .sent (writeAliasesIfSafe r db))

theorem completeSentConfirmation_runs (r : Uuid) (db : Db) :
    (completeSentConfirmation r db).runs =
      db.runs.modify r fun run => { run with status := .reconciled, updatedAt := db.now } := by
  simp only [completeSentConfirmation, setStatus, Db.modifyRun, writeAliasesIfSafe_runs,
    writeAliasesIfSafe_now, Dict.modify_modify]

/-- Reserve and queue one confirmation. The envelope is what the drafting tier
and the renderer composed. -/
def deliver (r : Uuid) (envelope : Envelope) (db : Db) : Db :=
  match getOutboundMessageId db r .confirmation with
  | some _ => completeSentConfirmation r db
  | none =>
      match getUnconfirmedOutbound db r .confirmation 0 with
      | some (e, _) => enqueueSend r e db
      | none =>
          let (e, db) := reserveOutboundSnapshot r .confirmation 0 envelope db
          enqueueSend r e db

section

variable (r : Uuid) (envelope : Envelope) (db : Db)

@[simp] theorem completeSentConfirmation_inbound : (completeSentConfirmation r db).inbound = db.inbound :=
  writeAliasesIfSafe_inbound ..

@[simp] theorem completeSentConfirmation_outbound :
    (completeSentConfirmation r db).outbound = db.outbound :=
  writeAliasesIfSafe_outbound ..

@[simp] theorem completeSentConfirmation_jobs : (completeSentConfirmation r db).jobs = db.jobs :=
  writeAliasesIfSafe_jobs ..

@[simp] theorem completeSentConfirmation_handoffs :
    (completeSentConfirmation r db).handoffs = db.handoffs :=
  writeAliasesIfSafe_handoffs ..

@[simp] theorem completeSentConfirmation_attempts :
    (completeSentConfirmation r db).attempts = db.attempts :=
  writeAliasesIfSafe_attempts ..

@[simp] theorem completeSentConfirmation_now : (completeSentConfirmation r db).now = db.now :=
  writeAliasesIfSafe_now ..

theorem deliver_cases :
    (getOutboundMessageId db r .confirmation ≠ none ∧
        deliver r envelope db = completeSentConfirmation r db) ∨
      (getOutboundMessageId db r .confirmation = none ∧
        ((∃ e m, getUnconfirmedOutbound db r .confirmation 0 = some (e, m) ∧
            deliver r envelope db = enqueueSend r e db) ∨
          (getUnconfirmedOutbound db r .confirmation 0 = none ∧
            deliver r envelope db = enqueueSend r
            (reserveOutboundSnapshot r .confirmation 0 envelope db).1
              (reserveOutboundSnapshot r .confirmation 0 envelope db).2))) := by
  cases hsent : getOutboundMessageId db r .confirmation with
  | some sent => exact .inl ⟨by simp, by simp only [deliver, hsent]⟩
  | none =>
      cases hpending : getUnconfirmedOutbound db r .confirmation 0 with
      | some pending =>
          exact .inr ⟨rfl, .inl ⟨pending.1, pending.2, rfl, by simp only [deliver, hsent, hpending]⟩⟩
      | none => exact .inr ⟨rfl, .inr ⟨rfl, by simp only [deliver, hsent, hpending]⟩⟩

@[simp] theorem deliver_inbound : (deliver r envelope db).inbound = db.inbound := by
  obtain ⟨-, hdeliver⟩ | ⟨-, ⟨e, m, -, hdeliver⟩ | ⟨-, hdeliver⟩⟩ := deliver_cases r envelope db
  · rw [hdeliver, completeSentConfirmation_inbound]
  · rw [hdeliver, enqueueSend_inbound]
  · rw [hdeliver, enqueueSend_inbound, reserveOutboundSnapshot_inbound]

@[simp] theorem deliver_handoffs : (deliver r envelope db).handoffs = db.handoffs := by
  obtain ⟨-, hdeliver⟩ | ⟨-, ⟨e, m, -, hdeliver⟩ | ⟨-, hdeliver⟩⟩ := deliver_cases r envelope db
  · rw [hdeliver, completeSentConfirmation_handoffs]
  · rw [hdeliver, enqueueSend_handoffs]
  · rw [hdeliver, enqueueSend_handoffs, reserveOutboundSnapshot_handoffs]

@[simp] theorem deliver_attempts : (deliver r envelope db).attempts = db.attempts := by
  obtain ⟨-, hdeliver⟩ | ⟨-, ⟨e, m, -, hdeliver⟩ | ⟨-, hdeliver⟩⟩ := deliver_cases r envelope db
  · rw [hdeliver, completeSentConfirmation_attempts]
  · rw [hdeliver, enqueueSend_attempts]
  · rw [hdeliver, enqueueSend_attempts, reserveOutboundSnapshot_attempts]

@[simp] theorem deliver_now : (deliver r envelope db).now = db.now := by
  obtain ⟨-, hdeliver⟩ | ⟨-, ⟨e, m, -, hdeliver⟩ | ⟨-, hdeliver⟩⟩ := deliver_cases r envelope db
  · rw [hdeliver, completeSentConfirmation_now]
  · rw [hdeliver, enqueueSend_now]
  · rw [hdeliver, enqueueSend_now, reserveOutboundSnapshot_now]

end

theorem deliver_outbound (r : Uuid) (envelope : Envelope) (db : Db) :
    (deliver r envelope db).outbound = db.outbound ∨
      (deliver r envelope db).outbound =
        (reserveOutboundSnapshot r .confirmation 0 envelope db).2.outbound := by
  obtain ⟨-, hdeliver⟩ | ⟨-, ⟨e, m, -, hdeliver⟩ | ⟨-, hdeliver⟩⟩ := deliver_cases r envelope db
  · exact .inl (by rw [hdeliver, completeSentConfirmation_outbound])
  · exact .inl (by rw [hdeliver, enqueueSend_outbound])
  · exact .inr (by rw [hdeliver, enqueueSend_outbound])

theorem deliver_runs (r : Uuid) (envelope : Envelope) (db : Db) :
    (deliver r envelope db).runs = db.runs ∨
      (deliver r envelope db).runs =
        db.runs.modify r fun run => { run with status := .reconciled, updatedAt := db.now } := by
  obtain ⟨-, hdeliver⟩ | ⟨-, ⟨e, m, -, hdeliver⟩ | ⟨-, hdeliver⟩⟩ := deliver_cases r envelope db
  · exact .inr (by rw [hdeliver, completeSentConfirmation_runs])
  · exact .inl (by rw [hdeliver, enqueueSend_runs])
  · exact .inl (by rw [hdeliver, enqueueSend_runs, reserveOutboundSnapshot_runs])

end

end PayrollAgent.Delivery
