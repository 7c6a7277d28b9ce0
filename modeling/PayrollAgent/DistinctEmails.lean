import PayrollAgent.Commits
import PayrollAgent.Gateway

namespace PayrollAgent.DistinctEmails

open Lib Repo Ingest Handlers Effects FreshIds EmailSteps Commits Gateway

/-- A received email: the webhook that announced it, and what the provider
returned for it. -/
structure Received where
  data : ResendData
  email : ReceivedEmail

def Received.messageId (x : Received) : Option Str := orElse x.email.messageId (x.data.messageId.get [])

def Received.Unidentified (x : Received) : Prop :=
  (x.email.messageId = none ∨ x.email.messageId = some []) ∧
    (x.data.messageId = .absent ∨ x.data.messageId = .text [])

def outcome : Commit → Option IngestOutcome
  | ⟨_, .ingestEmail _, answer, _, _⟩ => some answer
  | _ => none

def Ingests [MailText] (c : Commit) (x : Received) : Prop :=
  ∃ email, parseResendEnvelope x.data x.email = .ok email ∧ c.op = .ingestEmail (mailOf email)

/-- The mail of `b` is refused as the duplicate of the row that `a` stored. -/
def Collapses (a b : Commit) : Prop :=
  outcome b = some .duplicate ∧ ∃ mail row, b.op = .ingestEmail mail ∧
    inboundByMessageId b.before mail.messageId = some (a.before.nextId, row)

/-- The unique index, and every stored mail in its row. -/
structure Inv (db : Db) (log : List Commit) : Prop where
  fresh : Fresh db
  unique : UniqueMails db
  stored : ∀ c ∈ log, ∀ mail, c.op = .ingestEmail mail → outcome c ≠ some .duplicate →
    ∃ m, db.inbound.get? c.before.nextId = some m ∧ m.mail = mail

structure Begins (db : Db) : Prop where
  fresh : Fresh db
  unique : UniqueMails db

section

variable [PyText] {env : Env} {op : Op} {a : Ans op} {db db' : Db} {log : List Commit} {i : Nat}

theorem inv_commit (hinv : Inv db log) (h : txn env op db = .ok (a, db')) :
    Inv db' (⟨i, op, a, db, db'⟩ :: log) := by
  have hwrite := inboundWrite h
  refine ⟨fresh_step (txn_effect h) hinv.fresh, hwrite.uniqueMails hinv.unique, ?_⟩
  intro c hc mail hop hstored
  obtain rfl | hc := List.mem_cons.mp hc
  · obtain rfl : op = .ingestEmail mail := hop
    obtain ⟨rfl, rfl⟩ := Prod.mk.inj (Except.ok.inj h)
    obtain ⟨hduplicate, -⟩ | ⟨-, -, link, hstores⟩ := ingestEmail_cases mail env.picked env.otherPicked db
    · exact absurd (congrArg some hduplicate) hstored
    · exact ⟨_, (hstores db.nextId).trans (if_pos rfl), rfl⟩
  · obtain ⟨m, hm, rfl⟩ := hinv.stored c hc mail hop hstored
    obtain ⟨m', hm', hmail, -⟩ := hwrite.stays hinv.fresh hm
    exact ⟨m', hm', hmail⟩

theorem inv_of_reach {w : World Op Ans Exn Db Commit}
    (h : World.Reach recorder thread World.Rules.any Begins w) : Inv w.data w.log :=
  reach_history h (fun _ hdb => ⟨hdb.fresh, hdb.unique, fun _ hc => by cases hc⟩)
    fun _ _ _ _ _ _ _ hinv _ htxn => inv_commit hinv htxn

theorem outcome_of_conflict {c : Commit} {mail : InboundMail} {e : Uuid} {row : Inbound}
    (htxn : txn env c.op c.before = .ok (c.answer, c.after)) (hop : c.op = .ingestEmail mail)
    (hconflict : inboundByMessageId c.before mail.messageId = some (e, row)) :
    outcome c = some .duplicate := by
  obtain ⟨i, op, answer, before, after⟩ := c
  obtain rfl : op = .ingestEmail mail := hop
  have hanswer : (ingestEmail mail env.picked env.otherPicked before).1 = answer :=
    congrArg Prod.fst (Except.ok.inj htxn)
  change inboundByMessageId before mail.messageId = some (e, row) at hconflict
  change some answer = some .duplicate
  rw [← hanswer, ingestEmail, hconflict]

/-- An email is refused as the duplicate of another one, with which it shares
no Message-ID, if and only if neither of them has one. -/
theorem collapses_iff [MailText] {w : World Op Ans Exn Db Commit}
    (hw : World.Reach recorder thread World.Rules.any Begins w) {later between earlier : List Commit}
    {a b : Commit} {x y : Received} (hlog : w.log = later ++ b :: (between ++ a :: earlier))
    (hx : Ingests a x) (hy : Ingests b y) (hstored : outcome a ≠ some .duplicate)
    (hother : ∀ id, id ≠ [] → x.messageId = some id → y.messageId ≠ some id) :
    Collapses a b ↔ x.Unidentified ∧ y.Unidentified := by
  obtain ⟨emailX, hparseX, hopX⟩ := hx
  obtain ⟨emailY, hparseY, hopY⟩ := hy
  have hidX : x.messageId = some emailX.messageId := parseResendEnvelope_messageId hparseX
  have hidY : y.messageId = some emailY.messageId := parseResendEnvelope_messageId hparseY
  obtain ⟨w', hw', hdata, hlog', env, -, htxn⟩ := reach_before hw hlog
  have hinv := inv_of_reach hw'
  rw [hdata, hlog'] at hinv
  obtain ⟨m, hm, hmail⟩ := hinv.stored a (by simp) _ hopX hstored
  have hunidentified : x.Unidentified ∧ y.Unidentified ↔ emailX.messageId = [] ∧
    emailY.messageId = [] := by
    unfold Received.Unidentified
    rw [← orElse_eq_nil, ← orElse_eq_nil]
    change x.messageId = some [] ∧ y.messageId = some [] ↔ _
    rw [hidX, hidY, Option.some.injEq, Option.some.injEq]
  rw [hunidentified]
  constructor
  · rintro ⟨-, mail, row, hop, hconflict⟩
    obtain rfl : mailOf emailY = mail := Op.ingestEmail.inj (hopY.symm.trans hop)
    obtain ⟨hrow, hsame⟩ := inboundByMessageId_some hconflict
    obtain rfl := Option.some.inj (hm.symm.trans hrow)
    rw [hmail] at hsame
    have hids : emailX.messageId = emailY.messageId := token_injective hsame
    by_cases hempty : emailX.messageId = []
    · exact ⟨hempty, hids ▸ hempty⟩
    · exact absurd (by rw [hidY, hids]) (hother emailX.messageId hempty hidX)
  · rintro ⟨hemptyX, hemptyY⟩
    have hsame : m.mail.messageId = (mailOf emailY).messageId := by
      rw [hmail]
      exact congrArg token (hemptyX.trans hemptyY.symm)
    cases hconflict : inboundByMessageId b.before (mailOf emailY).messageId with
    | none => exact absurd hsame (inboundByMessageId_none.mp hconflict _ m hm)
    | some found =>
        obtain ⟨e, row⟩ := found
        refine ⟨outcome_of_conflict htxn hopY hconflict, mailOf emailY, row, hopY, ?_⟩
        obtain ⟨hrow, hrowid⟩ := inboundByMessageId_some hconflict
        rw [hconflict, hinv.unique _ _ _ _ hrow hm (hrowid.trans hsame.symm)]

end

attribute [local instance] asciiText asciiMail

def unidentified (emailId fromHeader : Str) : Received :=
  ⟨⟨emailId, .absent, fromHeader, .absent, []⟩, ⟨[], none, none⟩⟩

def identified (emailId fromHeader messageId : Str) : Received :=
  ⟨⟨emailId, .text messageId, fromHeader, .absent, []⟩, ⟨[], none, none⟩⟩

def Received.mail (x : Received) : InboundMail :=
  match parseResendEnvelope x.data x.email with
  | .ok email => mailOf email
  | .error _ => ⟨0, none, [], 0, []⟩

def twoClients : Db :=
  { Db.empty with nextId := 10, senders := .ofList [(token "ann".toList, 1), (token "bob".toList, 2)] }

def arrive (x y : Received) : List (Event Thread Env) :=
  [.spawn (.receive x.mail), .run 0 {}, .spawn (.receive y.mail), .run 1 {}]

theorem begins_twoClients : Begins twoClients := by
  refine ⟨Fresh.of_keys (by decide), fun e e' m m' hm => ?_⟩
  rw [show twoClients.inbound.get? e = none from rfl] at hm
  cases hm

def ingestsMail (mail : InboundMail) (c : Commit) : Bool :=
  match c.op with
  | .ingestEmail mail' => mail' = mail
  | _ => false

theorem op_of_ingestsMail {mail : InboundMail} {c : Commit} (h : ingestsMail mail c = true) :
    c.op = .ingestEmail mail := by
  unfold ingestsMail at h
  split at h
  next mail' hop => rw [hop, of_decide_eq_true h]
  · cases h

def ingestsBoth (x y : Received) : List Commit → Bool
  | [b, a] => ingestsMail x.mail a && ingestsMail y.mail b && outcome a = some .newRun
  | _ => false

theorem exists_of_ingestsBoth {x y : Received} {log : List Commit} (h : ingestsBoth x y log = true) :
    ∃ a b, log = [b, a] ∧ a.op = .ingestEmail x.mail ∧ b.op = .ingestEmail y.mail ∧
    outcome a = some .newRun := by
  unfold ingestsBoth at h
  split at h
  next b a =>
    simp only [Bool.and_eq_true, decide_eq_true_eq] at h
    exact ⟨a, b, rfl, op_of_ingestsMail h.1.1, op_of_ingestsMail h.1.2, h.2⟩
  · cases h

/-- The email of one client is dropped as the duplicate of another client's. -/
theorem distinct_emails_collapse : ¬ ∀ (w : World Op Ans Exn Db Commit) (later between earlier : List Commit)
    (a b : Commit) (x y : Received), World.Reach recorder thread World.Rules.any Begins w →
      w.log = later ++ b :: (between ++ a :: earlier) → Ingests a x → Ingests b y →
        outcome a ≠ some .duplicate → x.data.emailId ≠ y.data.emailId →
          (∀ id, id ≠ [] → x.messageId = some id → y.messageId ≠ some id) → ¬ Collapses a b := by
  intro h
  have hreach := reach_recordedAfter begins_twoClients
    (arrive (unidentified "e1".toList "ann".toList) (unidentified "e2".toList "bob".toList))
  have hboth : ingestsBoth (unidentified "e1".toList "ann".toList) (unidentified "e2".toList "bob".toList)
      (recordedAfter twoClients
        (arrive (unidentified "e1".toList "ann".toList)
        (unidentified "e2".toList "bob".toList))).log = true := by
    decide +kernel
  generalize recordedAfter twoClients (arrive _ _) = w at *
  obtain ⟨a, b, hlog, hopA, hopB, hstored⟩ := exists_of_ingestsBoth hboth
  have hlog' : w.log = [] ++ b :: ([] ++ a :: []) := hlog
  have hx : Ingests a (unidentified "e1".toList "ann".toList) := ⟨_, rfl, hopA⟩
  have hy : Ingests b (unidentified "e2".toList "bob".toList) := ⟨_, rfl, hopB⟩
  have hstored' : outcome a ≠ some .duplicate := by simp [hstored]
  have hother : ∀ id, id ≠ [] → (unidentified "e1".toList "ann".toList).messageId = some id →
      (unidentified "e2".toList "bob".toList).messageId ≠ some id :=
    fun id hid hsame => absurd (Option.some.inj hsame).symm hid
  exact h w [] [] [] a b _ _ hreach hlog' hx hy hstored' (by decide) hother
    ((collapses_iff hreach hlog' hx hy hstored' hother).mpr
      ⟨⟨.inl rfl, .inl rfl⟩, ⟨.inl rfl, .inl rfl⟩⟩)

/-- Two emails with Message-IDs of their own are both kept. -/
theorem identified_emails_kept : ∃ (w : World Op Ans Exn Db Commit) (a b : Commit),
    w.log = [b, a] ∧ Ingests a (identified "e1".toList "ann".toList "<1>".toList) ∧
      Ingests b (identified "e2".toList "bob".toList "<2>".toList) ∧ ¬ Collapses a b := by
  have hreach := reach_recordedAfter begins_twoClients
    (arrive (identified "e1".toList "ann".toList "<1>".toList)
    (identified "e2".toList "bob".toList "<2>".toList))
  have hboth : ingestsBoth (identified "e1".toList "ann".toList "<1>".toList)
      (identified "e2".toList "bob".toList "<2>".toList) (recordedAfter twoClients
        (arrive (identified "e1".toList "ann".toList "<1>".toList)
          (identified "e2".toList "bob".toList "<2>".toList))).log = true := by decide +kernel
  generalize recordedAfter twoClients (arrive _ _) = w at *
  obtain ⟨a, b, hlog, hopA, hopB, hstored⟩ := exists_of_ingestsBoth hboth
  have hlog' : w.log = [] ++ b :: ([] ++ a :: []) := hlog
  have hx : Ingests a (identified "e1".toList "ann".toList "<1>".toList) := ⟨_, rfl, hopA⟩
  have hy : Ingests b (identified "e2".toList "bob".toList "<2>".toList) := ⟨_, rfl, hopB⟩
  refine ⟨w, a, b, hlog, hx, hy, fun hcollapses => ?_⟩
  have hother : ∀ id, id ≠ [] → (identified "e1".toList "ann".toList "<1>".toList).messageId = some id →
      (identified "e2".toList "bob".toList "<2>".toList).messageId ≠ some id := by
    rintro id - hsame
    cases hsame
    decide
  have hnone := (collapses_iff hreach hlog' hx hy (by simp [hstored]) hother).mp hcollapses
  exact absurd hnone.1.2 (by decide)

end PayrollAgent.DistinctEmails
