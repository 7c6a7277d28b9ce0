import PayrollAgent.Lib.Lexeme
import PayrollAgent.Lib.Newest
import PayrollAgent.Schema
import PayrollAgent.Scrub

namespace PayrollAgent

open Lib

def RunStatus.value : RunStatus → Str
  | .received => "received".toList
  | .extracting => "extracting".toList
  | .awaitingReply => "awaiting_reply".toList
  | .computed => "computed".toList
  | .awaitingApproval => "awaiting_approval".toList
  | .approved => "approved".toList
  | .sent => "sent".toList
  | .reconciled => "reconciled".toList
  | .rejected => "rejected".toList
  | .error => "error".toList
  | .needsOperator => "needs_operator".toList

def PipelineStage.value : PipelineStage → Str
  | .unknown => "unknown".toList
  | .load => "load".toList
  | .extract => "extract".toList
  | .persist => "persist".toList
  | .clarification => "clarification".toList
  | .compute => "compute".toList
  | .delivery => "delivery".toList

def PipelineReason.value : PipelineReason → Str
  | .unclassified => "unclassified".toList
  | .providerConnectionFailure => "provider_connection_failure".toList
  | .providerTimeout => "provider_timeout".toList
  | .providerRateLimit => "provider_rate_limit".toList
  | .providerServerFailure => "provider_server_failure".toList
  | .schemaOrParseFailure => "schema_or_parse_failure".toList
  | .clientRequestFailure => "client_request_failure".toList
  | .ambiguousSendFailure => "ambiguous_send_failure".toList
  | .invalidOperatorOverrideContext => "invalid_operator_override_context".toList
  | .deliveryTimeout => "delivery_timeout".toList
  | .deliveryConnectionFailure => "delivery_connection_failure".toList
  | .deliveryRateLimit => "delivery_rate_limit".toList
  | .deliveryServerFailure => "delivery_server_failure".toList
  | .deliveryIdempotencyPayloadMismatch => "delivery_idempotency_payload_mismatch".toList
  | .deliveryQuotaExhausted => "delivery_quota_exhausted".toList
  | .deliveryValidationFailure => "delivery_validation_failure".toList
  | .deliveryAuthenticationFailure => "delivery_authentication_failure".toList
  | .deliveryAuthorizationFailure => "delivery_authorization_failure".toList
  | .deliveryConfigurationFailure => "delivery_configuration_failure".toList
  | .deliveryProviderFailure => "delivery_provider_failure".toList
  | .deliveryRecordOnly => "delivery_record_only".toList
  | .deliveryAuthorizationExpired => "delivery_authorization_expired".toList

def FailureCategory.value : FailureCategory → Str
  | .none => "none".toList
  | .transport => "transport".toList
  | .provider5xx => "provider_5xx".toList
  | .rateLimited => "rate_limited".toList
  | .payloadMismatch => "payload_mismatch".toList
  | .authorization => "authorization".toList
  | .validation => "validation".toList
  | .configuration => "configuration".toList
  | .authorizationExpired => "authorization_expired".toList
  | .finalAttemptLeaseExpired => "final_attempt_lease_expired".toList
  | .unknown => "unknown".toList

namespace Diagnostics

/-- What a column of a row can hold. Every other object is a tag. -/
inductive Value
  | null
  | bool (b : Bool)
  | int (n : Int)
  | text (s : Str)
  | other (tag : Nat)
  deriving DecidableEq, Repr

abbrev Row := Dict Str Value

/-- `run.get(column)`. -/
def column (run : Row) (name : String) : Value := (run.get? name.toList).getD .null

def Value.ofText : Option Str → Value
  | none => .null
  | some s => .text s

section Written

def attemptsSuffix (attempts : Nat × Nat) : Str :=
  ";attempts=".toList ++ Nat.toDigits 10 attempts.1 ++ "/".toList ++ Nat.toDigits 10 attempts.2

def diagnosticCode (stage : PipelineStage) (reason : PipelineReason) : Str :=
  stage.value ++ ":".toList ++ reason.value

def boundedDetail (stage : PipelineStage) (reason : PipelineReason)
    (attempts : Option (Nat × Nat)) : Str :=
  (diagnosticCode stage reason ++ (attempts.map attemptsSuffix).getD []).take 200

def finalLeaseDetail (attempts : Nat × Nat) : Str :=
  ("unknown:final_attempt_lease_expired".toList ++ attemptsSuffix attempts).take 200

section

variable [PyText] [PyUnicode]

/-- Scrub, then compose, then cut. An exception that does not print leaves no
detail. -/
def buildErrorDetail (stage : String) (message : Option Str) (roster : Option Roster) : Option Str :=
  message.map fun m => (stage.toList ++ ": ".toList ++ Scrub.scrub m roster).take 200

end

/-- What the code leaves open about an exception: the name of its type, how it
prints, and the roster that travels on it. -/
structure Wording where
  typeName : Exn → Str
  message : Exn → Option Str
  payrollRoster : Exn → Option Roster

/-- The column `error_reason`. -/
def errorReasonText (wording : Wording) : ErrorReason → Str
  | .deliveryReview => "DeliveryReview".toList
  | .clarificationDeliveryReview => "ClarificationDeliveryReview".toList
  | .retryExhausted => "RetryExhausted".toList
  | .finalAttemptLeaseExpired => "FinalAttemptLeaseExpired".toList
  | .pipeline reason => reason.value
  | .exception e => wording.typeName e

/-- The column `error_detail`. -/
def errorDetailText [PyText] [PyUnicode] (wording : Wording) : ErrorDetail → Option Str
  | .deliveryReview category => some ("delivery_review:".toList ++ category.value)
  | .diagnostic stage reason attempts => some (boundedDetail stage reason attempts)
  | .finalAttemptLeaseExpired attempts maxAttempts => some (finalLeaseDetail (attempts, maxAttempts))
  | .delivery e => buildErrorDetail "delivery" (wording.message e) (wording.payrollRoster e)

end Written

section Shown

def stageLabels : List (Str × Str) :=
  [("unknown".toList, "Unknown stage".toList), ("load".toList, "Load".toList),
    ("extract".toList, "Extraction".toList), ("persist".toList, "Persistence".toList),
    ("clarification".toList, "Clarification".toList), ("compute".toList, "Computation".toList),
    ("delivery".toList, "Delivery".toList)]

def reasonLabels : List (Str × Str) :=
  [("unclassified".toList, "Unclassified failure".toList),
    ("provider_connection_failure".toList, "Provider connection failure".toList),
    ("provider_timeout".toList, "Provider timeout".toList),
    ("provider_rate_limit".toList, "Provider rate limit".toList),
    ("provider_server_failure".toList, "Provider server failure".toList),
    ("schema_or_parse_failure".toList, "Schema or parse failure".toList),
    ("client_request_failure".toList, "Client request failure".toList),
    ("ambiguous_send_failure".toList, "Ambiguous send failure".toList),
    ("invalid_operator_override_context".toList, "Invalid operator override context".toList),
    ("final_attempt_lease_expired".toList, "Final attempt lease expired".toList)]

/-- `[a-z_]`. -/
def isCode (c : Char) : Bool := ('a' ≤ c && c ≤ 'z') || c = '_'

/-- `[0-9]`. -/
def isDigit (c : Char) : Bool := '0' ≤ c && c ≤ '9'

structure Groups where
  stage : Str
  reason : Str
  attempts : Option (Str × Str)
  deriving DecidableEq, Repr

def attemptsGroups : Str → Option (Option (Str × Str))
  | [] => some none
  | rest => do
      let rest ← Lexeme.behind ";attempts=".toList rest
      let (attempts, rest) ← Lexeme.stretch isDigit rest
      let rest ← Lexeme.behind "/".toList rest
      let (maxAttempts, rest) ← Lexeme.stretch isDigit rest
      if rest = [] then some (some (attempts, maxAttempts)) else none

/-- `_DIAGNOSTIC_CODE_RE.fullmatch(detail)`. The classes do not hold the
separators, so each group is the longest stretch. -/
def fullmatch (detail : Str) : Option Groups := do
  let (stage, rest) ← Lexeme.stretch isCode detail
  let rest ← Lexeme.behind ":".toList rest
  let (reason, rest) ← Lexeme.stretch isCode rest
  let attempts ← attemptsGroups rest
  some ⟨stage, reason, attempts⟩

structure FailurePresentation where
  secondaryLabel : Option Str
  stage : Option Str
  reason : Option Str
  attempts : Option Str
  deriving DecidableEq, Repr

def generic : FailurePresentation := ⟨none, none, none, none⟩

/-- `int` of a `str` refuses more digits than this. -/
def intMaxStrDigits : Nat := 4300

def asInt : Value → Except Exn (Option Int)
  | .int n => .ok (some n)
  | .text s =>
      if s ≠ [] ∧ s.all isDigit = true then
        if intMaxStrDigits < s.length then .error .value else .ok (some (Nat.ofDigitChars 10 s 0))
      else .ok none
  | _ => .ok none

def Value.isBool : Value → Bool
  | .bool _ => true
  | _ => false

def attemptsText (current maximum : Int) : Str :=
  Nat.toDigits 10 current.toNat ++ " of ".toList ++ Nat.toDigits 10 maximum.toNat ++ " attempts".toList

def boundedText : Option Int → Option Int → Option Str
  | some current, some maximum =>
      if 1 ≤ current ∧ current ≤ maximum ∧ maximum ≤ 100 then
        some (attemptsText current maximum) else none
  | _, _ => none

def boundedAttempts (attempts maxAttempts : Value) : Except Exn (Option Str) :=
  if attempts.isBool ∨ maxAttempts.isBool then .ok none
  else do
    let current ← asInt attempts
    let maximum ← asInt maxAttempts
    .ok (boundedText current maximum)

/-- The reason of the run and the code of its detail speak of one failure. -/
def agrees (errorReason : Str) (groups : Groups) : Bool :=
  if errorReason = "FinalAttemptLeaseExpired".toList then
    groups.stage = "unknown".toList ∧ groups.reason = "final_attempt_lease_expired".toList
  else if errorReason = "RetryExhausted".toList then groups.reason ≠ "final_attempt_lease_expired".toList
  else errorReason = groups.reason

def exhaustionReasons : List Str := ["RetryExhausted".toList, "FinalAttemptLeaseExpired".toList]

/-- The counters of the detail, or else those of the run's newest job. -/
def attemptsShown (run : Row) (groups : Groups) : Except Exn (Option Str) := do
  let attempts ← boundedAttempts (.ofText (groups.attempts.map Prod.fst))
    (.ofText (groups.attempts.map Prod.snd))
  match attempts with
  | some text => .ok (some text)
  | none => boundedAttempts (column run "job_attempts") (column run "job_max_attempts")

def presentGroups (run : Row) (errorReason : Str) (groups : Groups) : Except Exn FailurePresentation :=
  match stageLabels.lookup groups.stage, reasonLabels.lookup groups.reason with
  | some stage, some reason =>
      if agrees errorReason groups then do
        let attempts ← attemptsShown run groups
        .ok { secondaryLabel := if errorReason ∈ exhaustionReasons then some "Retries exhausted".toList else none
              stage := some stage
              reason := some reason
              attempts := attempts }
      else .ok generic
  | _, _ => .ok generic

def safeFailurePresentation (run : Row) : Except Exn FailurePresentation :=
  if column run "status" ≠ .text RunStatus.error.value then .ok generic
  else
    match column run "error_reason", column run "error_detail" with
    | .text errorReason, .text detail =>
        match fullmatch detail with
        | none => .ok generic
        | some groups => presentGroups run errorReason groups
    | _, _ => .ok generic

end Shown

section Grammar

def Groups.text (groups : Groups) : Str :=
  groups.stage ++ ":".toList ++ groups.reason ++
    (groups.attempts.map fun counters => ";attempts=".toList ++ counters.1 ++ "/".toList ++
    counters.2).getD []

def Word (p : Char → Bool) (w : Str) : Prop := w ≠ [] ∧ ∀ c ∈ w, p c = true

structure Groups.Valid (groups : Groups) : Prop where
  stage : Word isCode groups.stage
  reason : Word isCode groups.reason
  attempts : ∀ counters, groups.attempts = some counters → Word isDigit counters.1 ∧
    Word isDigit counters.2

theorem attemptsGroups_eq_some_iff {rest : Str} {attempts : Option (Str × Str)} :
    attemptsGroups rest = some attempts ↔
      rest = (attempts.map fun counters =>
        ";attempts=".toList ++ counters.1 ++ "/".toList ++ counters.2).getD [] ∧
      ∀ counters, attempts = some counters → Word isDigit counters.1 ∧ Word isDigit counters.2 := by
  have hslash : ∀ t, Lexeme.Ends isDigit ("/".toList ++ t) := fun t => Lexeme.ends_cons.mpr (by decide)
  constructor
  · intro h
    unfold attemptsGroups at h
    split at h
    · obtain rfl := Option.some.inj h
      exact ⟨rfl, nofun⟩
    · simp only [Option.bind_eq_bind, Option.bind_eq_some_iff] at h
      obtain ⟨rest₁, hrest₁, ⟨current, rest₂⟩, hcurrent, rest₃, hrest₃, ⟨maximum, rest₄⟩, hmaximum,
        hend⟩ := h
      obtain rfl := Lexeme.behind_eq_some_iff.mp hrest₁
      obtain ⟨rfl, hne, hdigits, -⟩ := Lexeme.stretch_eq_some_iff.mp hcurrent
      obtain rfl := Lexeme.behind_eq_some_iff.mp hrest₃
      obtain ⟨rfl, hne', hdigits', -⟩ := Lexeme.stretch_eq_some_iff.mp hmaximum
      split at hend
      next hnil =>
        obtain rfl := Option.some.inj hend
        obtain rfl : rest₄ = [] := hnil
        refine ⟨by simp, ?_⟩
        rintro _ ⟨⟩
        exact ⟨⟨hne, hdigits⟩, hne', hdigits'⟩
      · cases hend
  · rintro ⟨rfl, hvalid⟩
    cases attempts with
    | none => rfl
    | some counters =>
        obtain ⟨⟨hcurrent, hdigits⟩, hmaximum, hdigits'⟩ := hvalid counters rfl
        have hend := Lexeme.stretch_append hmaximum hdigits' (Lexeme.ends_nil isDigit)
        rw [List.append_nil] at hend
        have hrest : (";attempts=".toList ++ counters.1 ++ "/".toList ++ counters.2 : Str) =
            ";attempts=".toList ++ (counters.1 ++ ("/".toList ++ counters.2)) := by simp
        rw [Option.map_some, Option.getD_some, hrest, attemptsGroups]
        · simp only [Lexeme.behind_append, Option.bind_eq_bind, Option.bind_some,
            Lexeme.stretch_append hcurrent hdigits (hslash _), hend, if_pos]
        · exact fun h => absurd h (by simp)

theorem fullmatch_eq_some_iff {detail : Str} {groups : Groups} :
    fullmatch detail = some groups ↔ detail = groups.text ∧ groups.Valid := by
  have hcolon : ∀ t, Lexeme.Ends isCode (":".toList ++ t) := fun t => Lexeme.ends_cons.mpr (by decide)
  constructor
  · intro h
    simp only [fullmatch, Option.bind_eq_bind, Option.bind_eq_some_iff] at h
    obtain ⟨⟨stage, rest⟩, hstage, rest', hrest', ⟨reason, rest''⟩, hreason, attempts, hattempts,
      hgroups⟩ := h
    obtain rfl := Option.some.inj hgroups
    obtain ⟨rfl, hne, hcode, -⟩ := Lexeme.stretch_eq_some_iff.mp hstage
    obtain rfl := Lexeme.behind_eq_some_iff.mp hrest'
    obtain ⟨rfl, hne', hcode', -⟩ := Lexeme.stretch_eq_some_iff.mp hreason
    obtain ⟨rfl, hvalid⟩ := attemptsGroups_eq_some_iff.mp hattempts
    exact ⟨by simp [Groups.text], ⟨hne, hcode⟩, ⟨hne', hcode'⟩, hvalid⟩
  · rintro ⟨rfl, ⟨hstage, hcode⟩, ⟨hreason, hcode'⟩, hvalid⟩
    have hattempts := attemptsGroups_eq_some_iff.mpr ⟨rfl, hvalid⟩
    have hends : Lexeme.Ends isCode ((groups.attempts.map fun counters =>
        ";attempts=".toList ++ counters.1 ++ "/".toList ++ counters.2).getD []) := by
      cases groups.attempts with
      | none => exact Lexeme.ends_nil isCode
      | some counters => exact Lexeme.ends_cons.mpr (by decide)
    have htext : groups.text = groups.stage ++ (":".toList ++ (groups.reason ++
        (groups.attempts.map fun counters => ";attempts=".toList ++ counters.1 ++ "/".toList ++
        counters.2).getD [])) := by
      simp [Groups.text]
    simp only [htext, fullmatch, Option.bind_eq_bind, Lexeme.stretch_append hstage hcode (hcolon _),
      Option.bind_some, Lexeme.behind_append, Lexeme.stretch_append hreason hcode' hends, hattempts]

end Grammar

section Settled

def shown (exhausted : Bool) (stage : PipelineStage) (reason : PipelineReason) (attempts : Option Str) :
    FailurePresentation :=
  match reasonLabels.lookup reason.value with
  | none => generic
  | some label =>
      { secondaryLabel := if exhausted then some "Retries exhausted".toList else none
        stage := stageLabels.lookup stage.value
        reason := some label
        attempts := attempts }

def jobAttempts (latest : Option (Nat × Nat)) : Option Str :=
  latest.bind fun counters => boundedText (some counters.1) (some counters.2)

theorem word_toDigits (n : Nat) : Word isDigit (Nat.toDigits 10 n) := by
  refine ⟨Nat.toDigits_ne_nil, fun c hc => ?_⟩
  have hdigit := Nat.isDigit_of_mem_toDigits (by decide) (by decide) hc
  simpa [isDigit, Char.isDigit, Char.le_def] using hdigit

theorem word_stage (stage : PipelineStage) : Word isCode stage.value := by
  cases stage <;> exact ⟨by decide, List.all_eq_true.mp (by decide)⟩

theorem word_reason (reason : PipelineReason) : Word isCode reason.value := by
  cases reason <;> exact ⟨by decide, List.all_eq_true.mp (by decide)⟩

theorem word_lease : Word isCode "final_attempt_lease_expired".toList :=
  ⟨by decide, List.all_eq_true.mp (by decide)⟩

theorem reason_plain (reason : PipelineReason) : reason.value ≠ "FinalAttemptLeaseExpired".toList ∧
    reason.value ∉ exhaustionReasons ∧ reason.value ≠ "final_attempt_lease_expired".toList := by
  cases reason <;> exact ⟨by decide, by decide, by decide⟩

theorem stage_labelled (stage : PipelineStage) : (stageLabels.lookup stage.value).isSome = true := by
  cases stage <;> rfl

theorem length_code_le (stage : PipelineStage) (reason : PipelineReason) :
    (diagnosticCode stage reason).length ≤ 60 := by
  have hstage : stage.value.length ≤ 13 := by cases stage <;> decide
  have hreason : reason.value.length ≤ 37 := by cases reason <;> decide
  simp only [diagnosticCode, List.length_append]
  have hcolon : (":".toList).length = 1 := rfl
  omega

theorem length_suffix_le {attempts : Nat × Nat} (h : attempts.1 ≤ attempts.2) (h' : attempts.2 ≤ 100) :
    (attemptsSuffix attempts).length ≤ 20 := by
  have hdigits : ∀ n, n ≤ 100 → (Nat.toDigits 10 n).length ≤ 3 := fun n hn =>
    (Nat.length_toDigits_le_iff (by decide) (by decide)).mpr (by omega)
  have hfirst := hdigits attempts.1 (h.trans h')
  have hsecond := hdigits attempts.2 h'
  have hmark : (";attempts=".toList).length = 10 := rfl
  have hslash : ("/".toList).length = 1 := rfl
  unfold attemptsSuffix
  rw [List.length_append, List.length_append, List.length_append]
  omega

theorem fullmatch_boundedDetail (stage : PipelineStage) (reason : PipelineReason)
    {attempts : Option (Nat × Nat)}
    (h : ∀ counters, attempts = some counters → counters.1 ≤ counters.2 ∧ counters.2 ≤ 100) :
    fullmatch (boundedDetail stage reason attempts) = some ⟨stage.value, reason.value,
      attempts.map fun counters => (Nat.toDigits 10 counters.1, Nat.toDigits 10 counters.2)⟩ := by
  have hcode := length_code_le stage reason
  rw [fullmatch_eq_some_iff]
  constructor
  · rw [boundedDetail, List.take_of_length_le]
    · cases attempts with
      | none => rfl
      | some counters =>
          rw [Option.map_some, Option.getD_some]
          unfold Groups.text diagnosticCode attemptsSuffix
          rfl
    · cases attempts with
      | none =>
          rw [Option.map_none, Option.getD_none, List.append_nil]
          omega
      | some counters =>
          obtain ⟨hle, hbound⟩ := h counters rfl
          have hsuffix := length_suffix_le hle hbound
          rw [Option.map_some, Option.getD_some, List.length_append]
          omega
  · refine ⟨word_stage stage, word_reason reason, fun counters hcounters => ?_⟩
    obtain ⟨counters', -, rfl⟩ := Option.map_eq_some_iff.mp hcounters
    exact ⟨word_toDigits _, word_toDigits _⟩

theorem fullmatch_finalLeaseDetail {attempts : Nat × Nat} (h : attempts.1 ≤ attempts.2)
    (h' : attempts.2 ≤ 100) :
    fullmatch (finalLeaseDetail attempts) = some ⟨"unknown".toList, "final_attempt_lease_expired".toList,
      some (Nat.toDigits 10 attempts.1, Nat.toDigits 10 attempts.2)⟩ := by
  rw [fullmatch_eq_some_iff]
  constructor
  · rw [finalLeaseDetail, List.take_of_length_le]
    · unfold Groups.text attemptsSuffix
      rfl
    · have hsuffix := length_suffix_le h h'
      have hcode : ("unknown:final_attempt_lease_expired".toList).length = 35 := rfl
      rw [List.length_append]
      omega
  · refine ⟨word_stage .unknown, word_lease, ?_⟩
    rintro _ ⟨⟩
    exact ⟨word_toDigits _, word_toDigits _⟩

theorem fullmatch_of_blank {detail : Str} (h : ' ' ∈ detail) : fullmatch detail = none := by
  have hclass : isCode ' ' = false ∧ isDigit ' ' = false ∧ ' ' ∉ ":".toList ∧
    ' ' ∉ ";attempts=".toList ∧ ' ' ∉ "/".toList := by
    decide
  obtain ⟨hcode, hdigit, hcolon, hmark, hslash⟩ := hclass
  cases hmatch : fullmatch detail with
  | none => rfl
  | some groups =>
      obtain ⟨rfl, ⟨-, hstage⟩, ⟨-, hreason⟩, hattempts⟩ := fullmatch_eq_some_iff.mp hmatch
      simp only [Groups.text, List.mem_append] at h
      obtain ((h | h) | h) | h := h
      · rw [hstage _ h] at hcode
        cases hcode
      · exact absurd h hcolon
      · rw [hreason _ h] at hcode
        cases hcode
      · cases hcounters : groups.attempts with
        | none => simp [hcounters] at h
        | some counters =>
            obtain ⟨⟨-, hcurrent⟩, -, hmaximum⟩ := hattempts counters hcounters
            rw [hcounters, Option.map_some, Option.getD_some] at h
            simp only [List.mem_append] at h
            obtain ((h | h) | h) | h := h
            · exact absurd h hmark
            · rw [hcurrent _ h] at hdigit
              cases hdigit
            · exact absurd h hslash
            · rw [hmaximum _ h] at hdigit
              cases hdigit

theorem asInt_toDigits {n : Nat} (h : n ≤ 100) : asInt (.text (Nat.toDigits 10 n)) = .ok (some n) := by
  have hlength : (Nat.toDigits 10 n).length ≤ 3 :=
    (Nat.length_toDigits_le_iff (by decide) (by decide)).mpr (by omega)
  have hshort : ¬intMaxStrDigits < (Nat.toDigits 10 n).length := by
    rw [intMaxStrDigits]
    omega
  have hdigits : Nat.toDigits 10 n ≠ [] ∧ (Nat.toDigits 10 n).all isDigit = true :=
    ⟨(word_toDigits n).1, List.all_eq_true.mpr (word_toDigits n).2⟩
  rw [asInt, if_pos hdigits, if_neg hshort, Nat.ofDigitChars_ten_toDigits]

/-- The columns of a failed run as a query returns them, with the counters of
the job that came along. -/
structure Failed (run : Row) (errorReason : Str) (detail : Option Str)
    (latest : Option (Nat × Nat)) : Prop where
  status : column run "status" = .text RunStatus.error.value
  reason : column run "error_reason" = .text errorReason
  detail : column run "error_detail" = .ofText detail
  attempts : column run "job_attempts" = (latest.elim .null fun counters => .int counters.1)
  maxAttempts : column run "job_max_attempts" = (latest.elim .null fun counters => .int counters.2)

variable {run : Row} {errorReason : Str} {latest : Option (Nat × Nat)}

theorem attemptsShown_none {detail : Option Str} (h : Failed run errorReason detail latest)
    (stage reason : Str) : attemptsShown run ⟨stage, reason, none⟩ = .ok (jobAttempts latest) := by
  have hnone : boundedAttempts (.ofText none) (.ofText none) = .ok none := rfl
  rw [attemptsShown, Option.map_none, Option.map_none, hnone]
  show boundedAttempts (column run "job_attempts") (column run "job_max_attempts") =
    .ok (jobAttempts latest)
  rw [h.attempts, h.maxAttempts]
  cases latest with
  | none => rfl
  | some counters => rfl

theorem attemptsShown_some {counters : Nat × Nat} (hone : 1 ≤ counters.1) (hle : counters.1 ≤ counters.2)
    (hbound : counters.2 ≤ 100) (stage reason : Str) :
    attemptsShown run ⟨stage, reason, some (Nat.toDigits 10 counters.1, Nat.toDigits 10 counters.2)⟩ =
      .ok (some (attemptsText counters.1 counters.2)) := by
  have hin : (1 : Int) ≤ counters.1 ∧ (counters.1 : Int) ≤ counters.2 ∧
    (counters.2 : Int) ≤ 100 := by omega
  have hcounters : boundedAttempts (.text (Nat.toDigits 10 counters.1))
    (.text (Nat.toDigits 10 counters.2)) = .ok (some (attemptsText counters.1 counters.2)) := by
    rw [boundedAttempts, if_neg (by rintro (h | h) <;> cases h), asInt_toDigits (hle.trans hbound),
      asInt_toDigits hbound]
    show Except.ok (boundedText (some _) (some _)) = _
    rw [boundedText, if_pos hin]
  rw [attemptsShown]
  show (boundedAttempts (.text (Nat.toDigits 10 counters.1)) (.text (Nat.toDigits 10 counters.2))
    >>= _) = _
  rw [hcounters]
  rfl

theorem safeFailurePresentation_of_groups {detail : Str} {groups : Groups}
    (h : Failed run errorReason (some detail) latest) (hgroups : fullmatch detail = some groups) :
    safeFailurePresentation run = presentGroups run errorReason groups := by
  rw [safeFailurePresentation, if_neg (not_not.mpr h.status), h.reason, h.detail]
  simp only [Value.ofText, hgroups]

theorem presentGroups_settled {stage : PipelineStage} {reason : PipelineReason}
    {counters : Option (Str × Str)}
    {attempts : Option Str} (hagrees : agrees errorReason ⟨stage.value, reason.value, counters⟩ = true)
    (hattempts : attemptsShown run ⟨stage.value, reason.value, counters⟩ = .ok attempts) :
    presentGroups run errorReason ⟨stage.value, reason.value, counters⟩ =
      .ok (shown (errorReason ∈ exhaustionReasons) stage reason attempts) := by
  obtain ⟨label, hlabel⟩ := Option.isSome_iff_exists.mp (stage_labelled stage)
  simp only [presentGroups, shown, hlabel]
  cases reasonLabels.lookup reason.value with
  | none => rfl
  | some reasonLabel =>
      simp only [if_pos hagrees, hattempts, decide_eq_true_eq]
      rfl

/-- A terminal failure shows its stage and its reason, with the counters of the
job. -/
theorem present_terminal {stage : PipelineStage} {reason : PipelineReason}
    (h : Failed run reason.value (some (boundedDetail stage reason none)) latest) :
    safeFailurePresentation run = .ok (shown false stage reason (jobAttempts latest)) := by
  obtain ⟨hlease, hplain, -⟩ := reason_plain reason
  rw [safeFailurePresentation_of_groups h (fullmatch_boundedDetail stage reason nofun)]
  have hexhausted : reason.value ≠ "RetryExhausted".toList := fun heq => hplain (by rw [heq]; decide)
  have hagrees : agrees reason.value ⟨stage.value, reason.value, none⟩ = true := by
    rw [agrees, if_neg hlease, if_neg hexhausted]
    exact decide_eq_true rfl
  have hpresent := presentGroups_settled hagrees (attemptsShown_none h _ _)
  rw [decide_eq_false hplain] at hpresent
  exact hpresent

theorem present_exhausted {stage : PipelineStage} {reason : PipelineReason} {counters : Nat × Nat}
    (hone : 1 ≤ counters.1) (hle : counters.1 ≤ counters.2) (hbound : counters.2 ≤ 100)
    (h : Failed run "RetryExhausted".toList (some (boundedDetail stage reason (some counters))) latest) :
    safeFailurePresentation run = .ok (shown true stage reason
      (some (attemptsText counters.1 counters.2))) := by
  have hbounds : ∀ c, some counters = some c → c.1 ≤ c.2 ∧ c.2 ≤ 100 := by
    rintro _ ⟨⟩
    exact ⟨hle, hbound⟩
  rw [safeFailurePresentation_of_groups h (fullmatch_boundedDetail stage reason hbounds)]
  have hagrees : agrees "RetryExhausted".toList ⟨stage.value, reason.value,
      some (Nat.toDigits 10 counters.1, Nat.toDigits 10 counters.2)⟩ = true := by
    rw [agrees, if_neg (by decide), if_pos rfl]
    exact decide_eq_true (reason_plain reason).2.2
  exact presentGroups_settled hagrees (attemptsShown_some hone hle hbound _ _)

/-- What the list shows of a run whose last attempt lost its lease. -/
def leaseExpired (counters : Nat × Nat) : FailurePresentation where
  secondaryLabel := some "Retries exhausted".toList
  stage := some "Unknown stage".toList
  reason := some "Final attempt lease expired".toList
  attempts := some (attemptsText counters.1 counters.2)

theorem present_leaseExpired {counters : Nat × Nat} (hone : 1 ≤ counters.1)
    (hle : counters.1 ≤ counters.2) (hbound : counters.2 ≤ 100)
    (h : Failed run "FinalAttemptLeaseExpired".toList (some (finalLeaseDetail counters)) latest) :
    safeFailurePresentation run = .ok (leaseExpired counters) := by
  have hstage : stageLabels.lookup "unknown".toList = some "Unknown stage".toList := rfl
  have hreason : reasonLabels.lookup "final_attempt_lease_expired".toList =
    some "Final attempt lease expired".toList := rfl
  have hagrees : agrees "FinalAttemptLeaseExpired".toList ⟨"unknown".toList,
    "final_attempt_lease_expired".toList,
      some (Nat.toDigits 10 counters.1, Nat.toDigits 10 counters.2)⟩ = true := by
    rw [agrees, if_pos rfl]
    exact decide_eq_true ⟨rfl, rfl⟩
  rw [safeFailurePresentation_of_groups h (fullmatch_finalLeaseDetail hle hbound), presentGroups]
  simp only [hstage, hreason, if_pos hagrees, attemptsShown_some hone hle hbound]
  rfl

theorem present_blank {detail : Option Str} (hblank : ∀ d, detail = some d → ' ' ∈ d)
    (h : Failed run errorReason detail latest) : safeFailurePresentation run = .ok generic := by
  rw [safeFailurePresentation, if_neg (not_not.mpr h.status), h.reason, h.detail]
  cases detail with
  | none => rfl
  | some d => simp only [Value.ofText, fullmatch_of_blank (hblank d rfl)]

end Settled

end Diagnostics

end PayrollAgent
