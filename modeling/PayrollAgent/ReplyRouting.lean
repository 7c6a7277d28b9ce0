import PayrollAgent.Repo.Emails

namespace PayrollAgent.ReplyRouting

open Lib Repo

variable {db : Db} {mail : InboundMail} {r : Uuid}

/-- A message of the run's current epoch, while the run awaits a reply. -/
structure Asked (db : Db) (r : Uuid) (m : Outbound) : Prop where
  awaiting : ∃ run, db.runs.get? r = some run ∧ run.status = .awaitingReply ∧ m.epoch = run.replyEpoch
  stored : ∃ e, db.outbound.get? e = some m
  run : m.runId = r

theorem headerMatches_iff (m : Outbound) : headerMatches mail m = true ↔
    mail.inReplyTo = some m.snapshot.messageId ∨ m.snapshot.messageId ∈ mail.references := by
  simp [headerMatches]

theorem awaitsReplyTo_iff {run : Run} (hrun : db.runs.get? r = some run) :
    awaitsReplyTo db mail r run = true ↔ ∃ m, Asked db r m ∧ headerMatches mail m = true := by
  simp only [awaitsReplyTo, Bool.and_eq_true, decide_eq_true_eq]
  constructor
  · rintro ⟨hstatus, hsome⟩
    obtain ⟨⟨e, m⟩, hselect⟩ := Option.isSome_iff_exists.mp hsome
    obtain ⟨hm, hmatch⟩ := Dict.select_some hselect
    simp only [decide_eq_true_eq] at hmatch
    exact ⟨m, ⟨⟨run, hrun, hstatus, hmatch.2.1⟩, ⟨e, hm⟩, hmatch.1⟩, hmatch.2.2⟩
  · rintro ⟨m, ⟨⟨run', hrun', hstatus, hepoch⟩, ⟨e, hm⟩, hid⟩, hmatch⟩
    obtain rfl : run = run' := Option.some.inj (hrun.symm.trans hrun')
    obtain ⟨row, hrow⟩ := Dict.select_isSome (p := fun _ m => decide
      (m.runId = r ∧ m.epoch = run.replyEpoch ∧
      headerMatches mail m = true)) hm (by simp [hid, hepoch, hmatch])
    exact ⟨hstatus, by rw [hrow]; rfl⟩

theorem limitOne_some {qualifies : Uuid → Run → Bool} {picked : Uuid}
    (h : limitOne db qualifies picked = some r) :
    ∃ run, db.runs.get? r = some run ∧ qualifies r run = true := by
  rw [limitOne] at h
  split at h
  case isTrue hpicked =>
      obtain rfl := Option.some.inj h
      simpa [Option.any_eq_true] using hpicked
  case isFalse =>
      obtain ⟨⟨r', run⟩, hselect, rfl⟩ := Option.map_eq_some_iff.mp h
      exact ⟨run, Dict.select_some hselect⟩

theorem limitOne_picked {qualifies : Uuid → Run → Bool} {run : Run} (hrun : db.runs.get? r = some run)
    (h : qualifies r run = true) : limitOne db qualifies r = some r := by
  rw [limitOne, hrun, Option.any_some, if_pos h]

theorem limitOne_isSome {qualifies : Uuid → Run → Bool} {run : Run} (hrun : db.runs.get? r = some run)
    (h : qualifies r run = true) (picked : Uuid) :
    ∃ found, limitOne db qualifies picked = some found := by
  rw [limitOne]
  split
  · exact ⟨picked, rfl⟩
  · obtain ⟨row, hrow⟩ := Dict.select_isSome hrun h
    exact ⟨row.1, by rw [hrow]; rfl⟩

theorem limitOne_eq_iff {qualifies : Uuid → Run → Bool} {run : Run} (hrun : db.runs.get? r = some run)
    (h : qualifies r run = true) : (∀ picked, limitOne db qualifies picked = some r) ↔
      ∀ other run', db.runs.get? other = some run' → qualifies other run' = true → other = r := by
  constructor
  · intro hall other run' hother hqualifies
    have hpicked := limitOne_picked hother hqualifies
    exact Option.some.inj (hpicked.symm.trans (hall other))
  · intro honly picked
    obtain ⟨found, hfound⟩ := limitOne_isSome hrun h picked
    obtain ⟨run', hrun', hqualifies⟩ := limitOne_some hfound
    rw [hfound, honly found run' hrun' hqualifies]

/-- A reply to a question of an awaiting run is routed to that run, whichever
matching row the query returns, exactly where its headers name no question of
another awaiting run. -/
theorem reply_routed_iff (db : Db) (mail : InboundMail) (r : Uuid) (m : Outbound) (hasked : Asked db r m)
    (hparent : mail.inReplyTo = some m.snapshot.messageId) :
    (∀ picked, findAwaitingReplyForHeader db mail picked = some r) ↔
      ∀ other m', Asked db other m' → other ≠ r →
        mail.inReplyTo ≠ some m'.snapshot.messageId ∧ m'.snapshot.messageId ∉ mail.references := by
  obtain ⟨run, hrun, hstatus, hepoch⟩ := hasked.awaiting
  have hqualifies : awaitsReplyTo db mail r run = true :=
    (awaitsReplyTo_iff hrun).mpr ⟨m, hasked, (headerMatches_iff m).mpr (Or.inl hparent)⟩
  simp only [findAwaitingReplyForHeader]
  rw [limitOne_eq_iff hrun hqualifies]
  constructor
  · intro honly other m' hasked' hne
    obtain ⟨run', hrun', -⟩ := hasked'.awaiting
    rw [← not_or, ← headerMatches_iff]
    intro hmatch
    exact hne (honly other run' hrun' ((awaitsReplyTo_iff hrun').mpr ⟨m', hasked', hmatch⟩))
  · intro hnone other run' hrun' hqualifies'
    obtain ⟨m', hasked', hmatch⟩ := (awaitsReplyTo_iff hrun').mp hqualifies'
    by_contra hne
    obtain ⟨hparent', hchain⟩ := hnone other m' hasked' hne
    obtain hmatch | hmatch := (headerMatches_iff m').mp hmatch
    · exact hparent' hmatch
    · exact hchain hmatch

section Threads

def askingRun : Run := { Run.created 7 1 0 with status := .awaitingReply }

def questionOf (r messageId : Uuid) : Outbound where
  runId := r
  purpose := .clarification
  round := 0
  epoch := 0
  sendState := .sent
  operatorAcknowledgedAt := none
  snapshot := ⟨messageId, ⟨[], [], none, none, [], [], [], []⟩, 0⟩

def twoQuestions : Db :=
  { Db.empty with
    runs := Dict.ofList [(1, askingRun), (2, askingRun)]
    outbound := Dict.ofList [(11, questionOf 1 101), (12, questionOf 2 102)] }

def answer (references : List Uuid) : InboundMail := ⟨200, some 101, references, 5, []⟩

theorem asked_first : Asked twoQuestions 1 (questionOf 1 101) :=
  ⟨⟨askingRun, rfl, rfl, rfl⟩, ⟨11, rfl⟩, rfl⟩

/-- The chain names the second question too, and the answer may go there. -/
theorem reply_misrouted :
    ¬ ∀ (db : Db) (mail : InboundMail) (r : Uuid) (m : Outbound), Asked db r m →
      mail.inReplyTo = some m.snapshot.messageId →
        ∀ picked, findAwaitingReplyForHeader db mail picked = some r := by
  intro h
  have hfirst := h twoQuestions (answer [102, 101]) 1 (questionOf 1 101) asked_first rfl 2
  revert hfirst
  decide

/-- Whichever row is picked, here the other run. -/
theorem reply_routed_iff_parent : findAwaitingReplyForHeader twoQuestions (answer [101]) 2 = some 1 :=
  (reply_routed_iff twoQuestions (answer [101]) 1 (questionOf 1 101) asked_first rfl).mpr (by
    rintro other m' ⟨-, ⟨e, hm⟩, hid⟩ hne
    have hmem := Dict.get?_ofList_mem hm
    simp only [List.mem_cons, Prod.mk.injEq, List.not_mem_nil, or_false] at hmem
    obtain ⟨-, rfl⟩ | ⟨-, rfl⟩ := hmem
    · exact absurd hid.symm hne
    · decide) 2

end Threads

end PayrollAgent.ReplyRouting
