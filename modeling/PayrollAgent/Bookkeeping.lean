import PayrollAgent.FreshIds
import PayrollAgent.RunSteps
import PayrollAgent.ThreadsObey

namespace PayrollAgent.Bookkeeping

open Lib Repo Effects RunSteps Conduct FreshIds

def Known (s : Work) (log : List Note) : Prop := ∀ a ∈ s.auths, Note.authorized a ∈ log

variable {s : Work} {op : Op} {a : Authorization} {answer : Ans op} {i : Nat} {db db' : Db}
  {log : List Note}

theorem mem_told_auths (h : a ∈ (s.told op answer).auths) :
    a ∈ s.auths ∨ Note.authorized a ∈ notes i op db answer db' := by
  unfold Work.told at h
  split at h
  · exact .inl h
  · exact .inl h
  · exact .inl h
  · split at h <;> exact .inl h
  · exact .inl h
  · exact .inl h
  · exact .inl h
  · exact .inl h
  · rcases List.mem_cons.mp h with rfl | h
    · exact .inr (List.mem_singleton.mpr rfl)
    · exact .inl h
  · exact .inl h

theorem Known.append (hJ : Known s log) (ns : List Note) : Known s (ns ++ log) :=
  fun a ha => List.mem_append_right _ (hJ a ha)

variable (i db db') in
theorem mem_told_lease {job : Job} (h : (s.told op answer).lease = some job) :
    s.lease = some job ∨ Note.leased i job ∈ notes i op db answer db' := by
  unfold Work.told at h
  split at h
  · cases h
    exact .inr (List.mem_singleton.mpr rfl)
  · exact .inl h
  · exact .inl h
  · split at h <;> exact .inl h
  · exact .inl h
  · exact .inl h
  · exact .inl h
  · exact .inl h
  · exact .inl h
  · exact .inl h

/-- A message that was handed over, as the transaction found it. -/
structure HandedOver (db : Db) (job : Job) (a : Authorization) (row : JobRow) (leasedUntil : Nat)
    (m : Outbound) (run : Run) : Prop where
  may : MayHandOver db job row leasedUntil a.runId a.emailId m run
  epoch : a.epoch = m.epoch
  purpose : a.purpose = m.purpose
  snapshot : a.snapshot = m.snapshot
  jobId : a.jobId = job.id
  leaseToken : a.leaseToken = job.leaseToken

theorem MayHandOver.own {job : Job} {row : JobRow} {leasedUntil : Nat} {r e : Uuid} {m : Outbound}
    {run : Run} (h : MayHandOver db job row leasedUntil r e m run) : m.runId = r :=
  (deliveryContext_some h.owed).2.1

section

variable [PyText] {env : Env}

theorem handedOver {job : Job}
    (h : Effect env db (.authorizeOutboundProviderHandoff job) (.authorized a) db') :
    ∃ row leasedUntil m run, HandedOver db job a row leasedUntil m run := by
  cases h with
  | idle hrefused => exact absurd rfl (hrefused a)
  | handedOver hmay hnone =>
      obtain rfl := MayHandOver.own hmay
      exact ⟨_, _, _, _, hmay, rfl, rfl, rfl, rfl, rfl⟩
  | handedAgain hmay =>
      obtain rfl := MayHandOver.own hmay
      exact ⟨_, _, _, _, hmay, rfl, rfl, rfl, rfl, rfl⟩
  | adopted hmay =>
      obtain rfl := MayHandOver.own hmay
      exact ⟨_, _, _, _, hmay, rfl, rfl, rfl, rfl, rfl⟩

theorem leased_row {job : Job} (h : Effect env db .claimJob (some job) db') :
    ∃ row, db.jobs.get? env.picked = some row ∧ claimable db.now row = true ∧
      job = copyOf row env.picked db.nextId := by
  cases h with
  | idle hrefused => cases hrefused
  | leased hrow hclaim => exact ⟨_, hrow, hclaim, rfl⟩

theorem authorize_runs {job : Job} {answer : Ans (.authorizeOutboundProviderHandoff job)}
    (h : Effect env db (.authorizeOutboundProviderHandoff job) answer db') : db'.runs = db.runs := by
  cases h <;> rfl

theorem known_own (hJ : Known s log) :
    Known (s.next op (exec env op db).1) (observe i env op db ++ log) := by
  rcases exec_cases i env op db with ⟨e, hexec, hobserve⟩ | ⟨answer, db', -, -, hnotes,
    hanswer | ⟨e, hanswer⟩⟩
  · rw [hexec, hobserve]
    exact hJ
  · rw [hanswer, hnotes]
    intro a ha
    rcases mem_told_auths ha with ha | ha
    · exact List.mem_append_right _ (hJ a ha)
    · exact List.mem_append_left _ ha
  · rw [hanswer]
    exact fun a ha => List.mem_append_right _ (hJ a ha)

end

end PayrollAgent.Bookkeeping
