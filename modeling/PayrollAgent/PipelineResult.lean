import PayrollAgent.Text

namespace PayrollAgent

inductive PipelineOutcome
  | ok
  | retryable
  | terminal
  deriving DecidableEq, Repr

inductive PipelineStage
  | unknown
  | load
  | extract
  | persist
  | clarification
  | compute
  | delivery
  deriving DecidableEq, Repr

inductive PipelineReason
  | unclassified
  | providerConnectionFailure
  | providerTimeout
  | providerRateLimit
  | providerServerFailure
  | schemaOrParseFailure
  | clientRequestFailure
  | ambiguousSendFailure
  | invalidOperatorOverrideContext
  | deliveryTimeout
  | deliveryConnectionFailure
  | deliveryRateLimit
  | deliveryServerFailure
  | deliveryIdempotencyPayloadMismatch
  | deliveryQuotaExhausted
  | deliveryValidationFailure
  | deliveryAuthenticationFailure
  | deliveryAuthorizationFailure
  | deliveryConfigurationFailure
  | deliveryProviderFailure
  | deliveryRecordOnly
  | deliveryAuthorizationExpired
  deriving DecidableEq, Repr

/-- The defaults are the safe ones: an unclassified terminal result. -/
structure PipelineResult where
  outcome : PipelineOutcome := .terminal
  stage : PipelineStage := .unknown
  reason : PipelineReason := .unclassified
  deriving DecidableEq, Repr

inductive ResendErrorType
  | rateLimitExceeded
  | dailyQuotaExceeded
  | monthlyQuotaExceeded
  | invalidIdempotentRequest
  | validationError
  | missingRequiredFields
  | missingApiKey
  | other
  deriving DecidableEq, Repr

/-- The exceptions the classifiers and the routes tell apart. Inside the
pipeline each carries the stage that was active when it was raised. -/
inductive Exn
  | validation
  | apiTimeout
  | apiConnection
  | apiRateLimit
  | apiStatus (code : Nat)
  | timeout
  | connection
  | resend (errorType : ResendErrorType) (code : Option Nat)
  | value
  | activeOutboundProviderHandoff
  | runtime
  | staged (stage : PipelineStage) (e : Exn)
  deriving DecidableEq, Repr

namespace PipelineResult

def okResult : PipelineResult := { outcome := .ok }

def deliveryRetryable (reason : PipelineReason) : PipelineResult :=
  { outcome := .retryable, stage := .delivery, reason := reason }

def deliveryTerminal (reason : PipelineReason) : PipelineResult :=
  { stage := .delivery, reason := reason }

def classifyResend (errorType : ResendErrorType) (code : Option Nat) : PipelineResult :=
  if errorType = .rateLimitExceeded ∧ code = some 429 then deliveryRetryable .deliveryRateLimit
  else if errorType = .dailyQuotaExceeded ∨ errorType = .monthlyQuotaExceeded then
    deliveryTerminal .deliveryQuotaExhausted
  else if code.any (fun c => 500 ≤ c && c < 600) then deliveryRetryable .deliveryServerFailure
  else if code = some 409 ∧ errorType = .invalidIdempotentRequest then
    deliveryTerminal .deliveryIdempotencyPayloadMismatch
  else if errorType = .validationError ∨ errorType = .missingRequiredFields ∨ code = some 400 ∨
      code = some 422 then
    deliveryTerminal .deliveryValidationFailure
  else if errorType = .missingApiKey then deliveryTerminal .deliveryConfigurationFailure
  else if code = some 401 then deliveryTerminal .deliveryAuthenticationFailure
  else if code = some 403 then deliveryTerminal .deliveryAuthorizationFailure
  else deliveryTerminal .deliveryProviderFailure

def classifyDeliveryException : Exn → PipelineResult
  | .timeout | .apiTimeout => deliveryRetryable .deliveryTimeout
  | .connection | .apiConnection => deliveryRetryable .deliveryConnectionFailure
  | .apiRateLimit => deliveryRetryable .deliveryRateLimit
  | .apiStatus code =>
      if 500 ≤ code then deliveryRetryable .deliveryServerFailure
      else deliveryTerminal .deliveryProviderFailure
  | .resend errorType code => classifyResend errorType code
  | _ => deliveryTerminal .deliveryProviderFailure

def classifyExtract : Exn → PipelineResult
  | .apiTimeout => { outcome := .retryable, stage := .extract, reason := .providerTimeout }
  | .apiConnection => { outcome := .retryable, stage := .extract, reason := .providerConnectionFailure }
  | .apiRateLimit => { outcome := .retryable, stage := .extract, reason := .providerRateLimit }
  | .apiStatus code =>
      if 500 ≤ code then
        { outcome := .retryable, stage := .extract, reason := .providerServerFailure }
      else { stage := .extract, reason := .clientRequestFailure }
  | .validation => { stage := .extract, reason := .schemaOrParseFailure }
  | _ => { stage := .extract }

def classifyClarification : Exn → PipelineResult
  | .apiTimeout | .apiConnection | .apiRateLimit | .apiStatus _ =>
      { stage := .clarification, reason := .ambiguousSendFailure }
  | .validation => { stage := .clarification, reason := .schemaOrParseFailure }
  | _ => { stage := .clarification }

def classifyPipelineException (stage : PipelineStage) (e : Exn) : PipelineResult :=
  match stage with
  | .delivery => classifyDeliveryException e
  | .clarification => classifyClarification e
  | .extract => classifyExtract e
  | _ =>
      if e = .validation then { stage := stage, reason := .schemaOrParseFailure } else
        { stage := stage }

def ofException : Exn → PipelineResult
  | .staged stage e => classifyPipelineException stage e
  | e => classifyPipelineException .unknown e

end PipelineResult

def deliveryReplayWindow : Nat := 20 * 3600

/-- The replay slots after the reservation: at once, one minute, five, fifteen,
one hour, three, eight and sixteen. -/
def deliveryReplayOffsets : List Nat := [0, 60, 300, 900, 3600, 10800, 28800, 57600]

def nextDeliveryAttemptAt (reservedAt completedAttempts : Nat) : Option Nat :=
  (deliveryReplayOffsets[completedAttempts]?.map (reservedAt + ·)).filter
    (· < reservedAt + deliveryReplayWindow)

/-- The bounded vocabulary of the attempt ledger and of the review marker. -/
inductive FailureCategory
  | none
  | transport
  | provider5xx
  | rateLimited
  | payloadMismatch
  | authorization
  | validation
  | configuration
  | authorizationExpired
  | finalAttemptLeaseExpired
  | unknown
  deriving DecidableEq, Repr

def deliveryFailureCategory (result : PipelineResult) : FailureCategory :=
  match result.reason with
  | .deliveryTimeout | .deliveryConnectionFailure => .transport
  | .deliveryServerFailure => .provider5xx
  | .deliveryRateLimit => .rateLimited
  | .deliveryIdempotencyPayloadMismatch => .payloadMismatch
  | .deliveryAuthenticationFailure | .deliveryAuthorizationFailure => .authorization
  | .deliveryValidationFailure => .validation
  | .deliveryConfigurationFailure => .configuration
  | .deliveryAuthorizationExpired => .authorizationExpired
  | _ => .unknown

def replayableDeliveryReasons : List PipelineReason :=
  [.deliveryTimeout, .deliveryConnectionFailure, .deliveryRateLimit, .deliveryServerFailure]

theorem lt_eight_of_nextDeliveryAttemptAt {reservedAt attempts t : Nat}
    (h : nextDeliveryAttemptAt reservedAt attempts = some t) : attempts < 8 := by
  obtain ⟨offset, hoffset, -⟩ := Option.map_eq_some_iff.mp (Option.filter_eq_some_iff.mp h).1
  exact (List.getElem?_eq_some_iff.mp hoffset).1

end PayrollAgent
