import PayrollAgent.Handlers

namespace PayrollAgent.Drain

open Lib Repo Orchestrator Handlers

inductive DrainOutcome
  | empty
  | done
  | retried
  | dead
  | fenced
  | lostLease
  | invalidContext
  | reapedFinalLease
  deriving DecidableEq, Repr

def mapSettlementOutcome : SettlementOutcome → DrainOutcome
  | .done => .done
  | .retried => .retried
  | .dead => .dead
  | .fenced => .fenced
  | .lostLease => .lostLease
  | .invalidContext => .invalidContext
  | .reapedFinalLease => .reapedFinalLease

def leaseIsSettled (kind : JobKind) (outcome : SettlementOutcome) : Bool :=
  outcome ∈ [.done, .retried, .dead, .lostLease, .invalidContext] ||
    kind ≠ .sendOutbound && outcome = .fenced

structure Drained where
  outcome : DrainOutcome
  discarded : Option Uuid := none
  deriving DecidableEq

def drainedJob (job : Job) (settled : SettlementOutcome) : Drained where
  outcome := mapSettlementOutcome settled
  discarded := if leaseIsSettled job.kind settled then some job.leaseToken else none

section

variable [PyText]

def drainOnce : Act Drained := do
  let claimed : Option Job ← perform .claimJob
  match claimed with
  | none => do
      let reaped : Option SettlementOutcome ← perform .reapExpiredFinalAttempt
      match reaped with
      | none => pure { outcome := .empty }
      | some settled => pure { outcome := mapSettlementOutcome settled }
  | some job => do
      let result ← attempt job
      let settled ← settle job (settledResult job result)
      pure (drainedJob job settled)

omit [PyText] in
/-- `settle_infrastructure_failure` is what a raised job other than a send gets. -/
theorem settlePipelineJob_raised {job : Job} (hkind : job.kind ≠ .sendOutbound) (backoff : Nat)
    (db : Db) :
    settlePipelineJob job (settledResult job none) backoff db =
      settleInfrastructureFailure job backoff db := by
  rw [settledResult, if_neg hkind]
  rfl

theorem thread_worker : thread .worker = drainOnce >>= fun _ => pure () := by
  have hsettled : ∀ job : Job,
      (do
        let result ← attempt job
        let _ ← settle job (settledResult job result)
        pure () : Act Unit) =
      (do
        let result ← attempt job
        let settled ← settle job (settledResult job result)
        pure (drainedJob job settled)) >>= fun _ => pure () := by
    intro job
    refine Eq.trans ?_ (Prog.bind_assoc _ _ _).symm
    refine congrArg (Prog.bind _) (funext fun result => ?_)
    exact (Prog.bind_assoc (settle job (settledResult job result))
      (fun settled => pure (drainedJob job settled)) fun _ => pure ()).symm
  refine Eq.trans ?_ (Prog.bind_assoc _ _ _).symm
  refine congrArg (Prog.bind _) (funext fun claimed => ?_)
  cases claimed with
  | some job => exact hsettled job
  | none =>
      refine Eq.trans ?_ (Prog.bind_assoc _ _ _).symm
      refine congrArg (Prog.bind _) (funext fun reaped => ?_)
      cases reaped with
      | none => rfl
      | some settled => rfl

end

end PayrollAgent.Drain
