import Aide.Foundation.TransitionRun
import Aide.Foundation.Followed
import Aide.Foundation.Ledger
import Aide.Foundation.RewardPerShare
import Aide.Foundation.Lockstep
import Aide.Foundation.FrontQueue
import Aide.Escrow
import Aide.Dividends
import Aide.TaxedLedgers
import Aide.PriceTime
import Aide.Shadow
import Aide.Replay
import Aide.Reorg
import Aide.BookAtRest
import Aide.Revocation
import Aide.TreasuryOutflow
import Aide.LimitPrices
import Aide.Staking
import Aide.BookInvariant
import Aide.QuantityRun
import Aide.SettlementIds
import Aide.FillQueue
import Aide.PreCheck
import Aide.Delivery
import Aide.Restart
import Aide.DriftAlarm
import Aide.Uncrossed
import Aide.FailedPlacement
import Aide.Notionals
import Aide.RunnerPanics
import Aide.TradeMetrics
import Aide.AuditVerdict
import Aide.AuditCadence
import Aide.TransferAccounting
import Aide.PendingDividends
import Aide.ClaimTiming
import Aide.Confirmation
import Aide.Bookkeeping
import Aide.SingleTaxation
import Aide.Breaker
import Aide.Economist
import Aide.Bounties
import Aide.TaskLifecycle
import Aide.DualPools
import Aide.WindowSums
import Aide.BlockVelocity
import Aide.ConfirmationBuffer
import Aide.Foundation.Journal
import Aide.Foundation.Decay
import Aide.LogReplay
import Aide.TaskHistories
import Aide.BrokenCircuit
import Aide.Governance
import Aide.Bystander
import Aide.MoneySupply
import Aide.TreasuryDrain
import Aide.Redemptions
import Aide.Engine.Dashboard
import Aide.Backlog
import Aide.Halting
import Aide.ConcurrentRunner
