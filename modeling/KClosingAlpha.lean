import KClosingAlpha.Order.View
import KClosingAlpha.Lib.Prog
import KClosingAlpha.Order.Acts
import KClosingAlpha.Order.Binding
import KClosingAlpha.Order.CarryActs
import KClosingAlpha.Order.Halt
import KClosingAlpha.Order.Lots
import KClosingAlpha.Order.Repeat
import KClosingAlpha.Order.Seed
import KClosingAlpha.Order.Sends
import KClosingAlpha.Host.FileLock
import KClosingAlpha.Host.Pacer
import KClosingAlpha.Host.TokenStore
import KClosingAlpha.Paper.Book
import KClosingAlpha.Paper.Nav
import KClosingAlpha.Paper.Ledger
import KClosingAlpha.Paper.Positions
import KClosingAlpha.Paper.Session
import KClosingAlpha.Paper.Recovery
import KClosingAlpha.Intraday.Frame
import KClosingAlpha.Intraday.Store
import KClosingAlpha.Intraday.Rewrite
import KClosingAlpha.Intraday.Shrink
import KClosingAlpha.Intraday.Tape
import KClosingAlpha.Intraday.Commit
import KClosingAlpha.Intraday.Evict
import KClosingAlpha.Intraday.Eviction
import KClosingAlpha.Capture.Store
import KClosingAlpha.Capture.Publish
import KClosingAlpha.Capture.PointInTime
import KClosingAlpha.Offsite.Ledger
import KClosingAlpha.Offsite.Plan
import KClosingAlpha.Offsite.Restore
import KClosingAlpha.Offsite.Seal
import KClosingAlpha.Offsite.Sealed
import KClosingAlpha.Offsite.Prune
import KClosingAlpha.Kiwoom.TickTape
import KClosingAlpha.Kiwoom.Certify
import KClosingAlpha.Kiwoom.TapeWalk
import KClosingAlpha.Lib.Combinations
import KClosingAlpha.Ml.RobustEval
import KClosingAlpha.Panel.DecisionBars
import KClosingAlpha.Panel.Publish
import KClosingAlpha.Panel.StoredHistory
import KClosingAlpha.Ml.RetrainGate
import KClosingAlpha.Ml.AdvisoryGate
import KClosingAlpha.Intraday.Backfill
import KClosingAlpha.Intraday.Basis
import KClosingAlpha.Lib.KeepLast
import KClosingAlpha.Daily.TopkDecision
import KClosingAlpha.Intraday.BackfillLedger
import KClosingAlpha.Intraday.Attempts
import KClosingAlpha.Alert.Pager
import KClosingAlpha.Alert.PagerRuns
import KClosingAlpha.Alert.Reconcile
import KClosingAlpha.Alert.Unmeasured
import KClosingAlpha.Alert.Remediation
import KClosingAlpha.Alert.RemediationRuns
import KClosingAlpha.Offsite.Backup
import KClosingAlpha.Offsite.Staleness
import KClosingAlpha.Lib.Delta
import KClosingAlpha.Offsite.PriceForm
import KClosingAlpha.Offsite.PriceExport
import KClosingAlpha.Lib.Flt
import KClosingAlpha.Lib.Series
import KClosingAlpha.Lib.Grouped
import KClosingAlpha.Daily.PanelRebuild
import KClosingAlpha.Daily.BackAdjust
import KClosingAlpha.Ml.TopkFeatures
import KClosingAlpha.Ml.TopkTiming
import KClosingAlpha.Order.RunCap
import KClosingAlpha.Order.Accepted
import KClosingAlpha.Order.Plan
import KClosingAlpha.Lib.Bisect
import KClosingAlpha.Order.Sizing
import KClosingAlpha.Lib.Round
import KClosingAlpha.Order.EntryPrice
import KClosingAlpha.Order.ExitSession
import KClosingAlpha.Order.ExitShares
import KClosingAlpha.Order.ExitRerun
import KClosingAlpha.Intraday.Restoring
import KClosingAlpha.Intraday.Vault
import KClosingAlpha.Intraday.TossBackfill
import KClosingAlpha.Intraday.TossOverlap
import KClosingAlpha.Lib.Retention
import KClosingAlpha.Offsite.CoreSnapshot
import KClosingAlpha.Lib.Session
import KClosingAlpha.Offsite.CoreRemote
import KClosingAlpha.Offsite.CoreRules
import KClosingAlpha.Offsite.CoreReads
import KClosingAlpha.Offsite.CoreStage
import KClosingAlpha.Offsite.CoreRun
import KClosingAlpha.Offsite.CoreRuns
import KClosingAlpha.Intraday.BarSchema
import KClosingAlpha.Intraday.Bars
import KClosingAlpha.Intraday.Blackout
import KClosingAlpha.Ml.PurgedCv
import KClosingAlpha.Capture.RawPath
import KClosingAlpha.Host.Transport
import KClosingAlpha.Kiwoom.TickChart
import KClosingAlpha.Kiwoom.TickResume
import KClosingAlpha.Ml.PitSoundness
import KClosingAlpha.Offsite.LedgerUpload
import KClosingAlpha.Paper.Cash
import KClosingAlpha.Kiwoom.Delivered
import KClosingAlpha.Intraday.TapeHarvest
import KClosingAlpha.Intraday.TapeCells
import KClosingAlpha.Intraday.FlushReport
import KClosingAlpha.Intraday.Harvested
import KClosingAlpha.Alert.Redaction
import KClosingAlpha.Lib.Masked
import KClosingAlpha.Lib.StableSort
import KClosingAlpha.Lib.ZeroFill
import KClosingAlpha.Daily.Archive
import KClosingAlpha.Lib.Regex
import KClosingAlpha.Ml.ExitPaths
import KClosingAlpha.Nxt.Decomposition
import KClosingAlpha.Nxt.Holdout
import KClosingAlpha.Py.Ratio
import KClosingAlpha.Nxt.Payload
import KClosingAlpha.Nxt.Persist
import KClosingAlpha.Daily.ArchiveCodes
import KClosingAlpha.Daily.CloseQuote
import KClosingAlpha.Daily.FinalizeClose
import KClosingAlpha.Daily.ArchiveTable
import KClosingAlpha.Daily.FinalizeRuns
import KClosingAlpha.Alert.Outbox
import KClosingAlpha.Alert.OutboxRuns
import KClosingAlpha.Alert.OutboxDrain
import KClosingAlpha.Alert.RunOutcomeRuns
import KClosingAlpha.Alert.SentinelRuns
import KClosingAlpha.Alert.Streaks
import KClosingAlpha.Order.EntrySession
import KClosingAlpha.Order.EntryRuns
import KClosingAlpha.Order.EntryDay
import KClosingAlpha.Order.ReconcileRuns
import KClosingAlpha.Offsite.CoreRuns
