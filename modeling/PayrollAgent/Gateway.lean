import PayrollAgent.Ingest

namespace PayrollAgent.Gateway

open Lib

/-- The parts of the mail libraries that ingest relies on: the address of a
From header, `str.lower`, and the stripping of quoted history. -/
class MailText where
  parseaddr : Str → Str
  lower : Str → Str
  cleanBody : Str → Str

/-- The mail libraries as they act on a bare address and a plain ASCII body. -/
@[reducible] def asciiMail : MailText where
  parseaddr s := s
  lower s := s.map Char.toLower
  cleanBody s := s

inductive Field
  | absent
  | null
  | text (s : Str)
  deriving DecidableEq

/-- `data.get(key, default)`. -/
def Field.get : Field → Str → Option Str
  | .absent, default => some default
  | .null, _ => none
  | .text s, _ => some s

/-- `value or other`. The empty text is as false as `None`. -/
def orElse (value other : Option Str) : Option Str :=
  match value with
  | some (c :: cs) => some (c :: cs)
  | _ => other

/-- The `data` object of a Resend webhook. -/
structure ResendData where
  emailId : Str
  messageId : Field
  fromHeader : Str
  subject : Field
  toAddrs : List Str

structure ReceivedEmail where
  headers : List (Str × Str)
  messageId : Option Str
  text : Option Str

structure InboundEmail where
  messageId : Str
  inReplyTo : Option Str
  referencesHeader : Option Str
  subject : Str
  fromAddr : Str
  toAddr : Str
  bodyText : Str

inductive Payload
  | resend (data : ResendData)
  | fixture (email : InboundEmail)

def token : Str → Nat
  | [] => 0
  | c :: cs => (c.toNat + 1) + 1114112 * token cs

section

variable [MailText]

def headersLower (email : ReceivedEmail) : Dict Str Str :=
  Dict.ofList (email.headers.map fun header => (MailText.lower header.1, header.2))

/-- `_parse_resend_envelope`. A field that is `None` is refused by the model. -/
def parseResendEnvelope (data : ResendData) (email : ReceivedEmail) : Except Exn InboundEmail :=
  match orElse email.messageId (data.messageId.get []), data.subject.get [] with
  | some messageId, some subject =>
      .ok
        { messageId := messageId
          inReplyTo := (headersLower email).get? "in-reply-to".toList
          referencesHeader := (headersLower email).get? "references".toList
          subject := subject
          fromAddr := MailText.parseaddr data.fromHeader
          toAddr := data.toAddrs.headD []
          bodyText := email.text.getD [] }
  | _, _ => .error .validation

def parseInbound (payload : Payload) (email : ReceivedEmail) : Except Exn InboundEmail :=
  match payload with
  | .resend data => parseResendEnvelope data email
  | .fixture inbound => .ok inbound

def mailOf (email : InboundEmail) : InboundMail where
  messageId := token email.messageId
  inReplyTo := (email.inReplyTo.filter (· ≠ [])).map token
  references := (Text.split (email.referencesHeader.getD [])).map token
  fromAddr := token email.fromAddr
  bodyText := MailText.cleanBody email.bodyText

theorem parseResendEnvelope_messageId {data : ResendData} {email : ReceivedEmail} {inbound : InboundEmail}
    (h : parseResendEnvelope data email = .ok inbound) :
    orElse email.messageId (data.messageId.get []) = some inbound.messageId := by
  unfold parseResendEnvelope at h
  split at h
  next messageId subject hid _ =>
    cases h
    exact hid
  · cases h

end

theorem toNat_lt (c : Char) : c.toNat < 1114112 := by
  have hvalid : c.toNat < 55296 ∨ 57343 < c.toNat ∧ c.toNat < 1114112 := c.valid
  omega

theorem token_injective : Function.Injective token := by
  intro s t h
  induction s generalizing t with
  | nil =>
      cases t with
      | nil => rfl
      | cons c cs =>
          simp only [token] at h
          omega
  | cons c cs ih =>
      cases t with
      | nil =>
          simp only [token] at h
          omega
      | cons d ds =>
          simp only [token] at h
          have hc := toNat_lt c
          have hd := toNat_lt d
          have hhead : c.toNat = d.toNat := by omega
          have htail : token cs = token ds := by omega
          rw [Char.toNat_inj.mp hhead, ih htail]

/-- An empty Message-ID comes of a missing or an empty one in both places. -/
theorem orElse_eq_nil {value : Option Str} {field : Field} : orElse value (field.get []) = some [] ↔
    (value = none ∨ value = some []) ∧ (field = .absent ∨ field = .text []) := by
  unfold orElse
  split
  next c cs => simp
  next hother =>
    have hvalue : value = none ∨ value = some [] := by
      match value with
      | none => exact .inl rfl
      | some [] => exact .inr rfl
      | some (c :: cs) => exact absurd rfl (hother c cs)
    cases field with
    | absent => simp [hvalue, Field.get]
    | null => simp [Field.get]
    | text s => simp [hvalue, Field.get]

end PayrollAgent.Gateway
