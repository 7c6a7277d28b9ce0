import Mathlib.Data.List.Sort
import PayrollAgent.Repo.Emails
import PayrollAgent.Resume

namespace PayrollAgent.CombinedEmail

open Lib Resume

/-- A line of the anchor that tells the model what the client was asked. -/
inductive AskedLine
  | unmatched (name : Str)
  | missing (id : Uuid) (f : HoursField)
  deriving DecidableEq

def renderAskedSummary (decision : Option Decision) (clarified : ClarifiedFields) : List AskedLine :=
  ((decision.map Decision.unresolvedNames).getD []).map .unmatched ++
    (askedPairs clarified).map fun p => .missing p.1 p.2

/-- The text of an email, or the sections of `combined_context_email`. Of a
prior reply the model reads the body. -/
inductive Body
  | plain (text : Str)
  | combined (original : Str) (asked : List AskedLine) (priorReplies : List Inbound) (reply : Str)

/-- The email an extraction reads. The synthetic one of an operator has no
Message-ID. -/
structure ReadEmail where
  messageId : Option Uuid
  body : Body

/-- The consumed replies of the run's current epoch, by round. Rows of one
round come in an order of the database's own, `rank`. -/
def loadConsumedReplies (rank : Uuid → Nat) (r : Uuid) (db : Db) : List (Uuid × Inbound) :=
  (db.inbound.entries.filter fun p =>
    p.2.runId = some r ∧ p.2.consumedRound ≠ none ∧ db.epochOf r = some p.2.epoch).insertionSort
      fun p q => p.2.consumedRound.getD 0 < q.2.consumedRound.getD 0 ∨
        p.2.consumedRound = q.2.consumedRound ∧ rank p.1 ≤ rank q.1

/-- `load_source_email`. -/
def sourceBody (db : Db) (r : Uuid) : Str :=
  (((db.runs.get? r).bind fun run => db.inbound.get? run.sourceEmailId).map fun row =>
    row.mail.bodyText).getD []

def priorReplies (inbound : Option InboundMail) (consumed : List (Uuid × Inbound)) : List Inbound :=
  (consumed.map Prod.snd).filter fun row => some row.mail.messageId ≠ inbound.map InboundMail.messageId

/-- The two emails of a resume: the reply alone, and the combined one. -/
structure ResumeEmails where
  reply : ReadEmail
  combined : ReadEmail

def resumeEmails (inbound : Option InboundMail) (original : Str) (asked : List AskedLine)
    (consumed : List (Uuid × Inbound)) : ResumeEmails where
  reply := ⟨inbound.map InboundMail.messageId, .plain ((inbound.map InboundMail.bodyText).getD [])⟩
  combined := ⟨inbound.map InboundMail.messageId,
    .combined original asked (priorReplies inbound consumed) ((inbound.map InboundMail.bodyText).getD [])⟩

end PayrollAgent.CombinedEmail
