import PayrollAgent.OwedReceipts
import PayrollAgent.ProofOfDelivery
import PayrollAgent.DataIsland
import PayrollAgent.RunStatusPoll
import PayrollAgent.FailedRuns
import PayrollAgent.GenerationRecords
import PayrollAgent.WorkerBudget
import PayrollAgent.ClaimWindow
import PayrollAgent.SilentDrop
import PayrollAgent.Lib.Table
import PayrollAgent.Lib.Pool
import PayrollAgent.Repo.PipelineState
import PayrollAgent.Repo.Jobs
import PayrollAgent.Repo.Emails
import PayrollAgent.Repo.OutboundHandoffs
import PayrollAgent.Repo.AliasWrites
import PayrollAgent.Repo.JobSettlement
import PayrollAgent.RunRoutes
import PayrollAgent.Ingest
import PayrollAgent.ClarificationWrites
import PayrollAgent.Orchestrator
import PayrollAgent.Handlers
import PayrollAgent.ThreadsObey
import PayrollAgent.RunSteps
import PayrollAgent.StageWrites
import PayrollAgent.Rejection
import PayrollAgent.HandoffSteps
import PayrollAgent.MessageSteps
import PayrollAgent.ConfirmationIdentity
import PayrollAgent.DeliveredFinal
import PayrollAgent.JobSteps
import PayrollAgent.OwnedHandoffs
import PayrollAgent.OwedSends
import PayrollAgent.ReplyJobs
import PayrollAgent.Lib.History
import PayrollAgent.StrandedJobs
import PayrollAgent.HoursVisibility
import PayrollAgent.AbandonedQuestions
import PayrollAgent.AliasConfirmation
import PayrollAgent.SingleDriver
import PayrollAgent.ReplyOrder
import PayrollAgent.ReclaimedResume
import PayrollAgent.BoundedQuestions
import PayrollAgent.ApprovedRuns
import PayrollAgent.DeliveryReview
import PayrollAgent.OperatorAuthority
import PayrollAgent.DistinctEmails
import PayrollAgent.OneRunPerEmail
import PayrollAgent.ReclaimedResolution
import PayrollAgent.OperatorProgress
import PayrollAgent.EpochIsolation
import PayrollAgent.ConcurrentLearning
import PayrollAgent.RunWrites
import PayrollAgent.SchemaApply
import PayrollAgent.EscalationExits
import PayrollAgent.RetryNow
import PayrollAgent.ReviewedSlot
import PayrollAgent.WageBase
import PayrollAgent.BoundAliases
import PayrollAgent.SettlementCoherence
import PayrollAgent.UnaccountedErrors
import PayrollAgent.ChangePartition
import PayrollAgent.PayableHours
import PayrollAgent.SalariedHours
import PayrollAgent.Worksheet1A
import PayrollAgent.WithholdingGrowth
import PayrollAgent.PaystubIdentity
import PayrollAgent.NetPay
import PayrollAgent.PaystubYtd
import PayrollAgent.ReplyRouting
import PayrollAgent.Repo.LineItems
import PayrollAgent.AcceptedReplies
import PayrollAgent.PriorReplies
import PayrollAgent.IdentityBridge
import PayrollAgent.HeaderChain
import PayrollAgent.CleanBody
import PayrollAgent.Scrub
import PayrollAgent.Pump
import PayrollAgent.HeldTokens
import PayrollAgent.WorkerLoop
import PayrollAgent.ComposeEmail
