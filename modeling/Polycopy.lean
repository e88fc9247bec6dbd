import Polycopy.Lib.Run
import Polycopy.Config
import Polycopy.Execution.BookWalk
import Polycopy.Execution.Fees
import Polycopy.Bankroll
import Polycopy.Execution.Service
import Polycopy.Execution.Outcomes
import Polycopy.Api.Routes
import Polycopy.System
import Polycopy.Effects
import Polycopy.Steps
import Polycopy.Books.Conservation
import Polycopy.Books.Persisted
import Polycopy.Schedule
import Polycopy.Books.Exposure
import Polycopy.Books.SettledOnce
import Polycopy.Books.Cash
import Polycopy.Books.Lifecycle
import Polycopy.Approval
import Polycopy.Ingestion.Client
import Polycopy.Accounting.Settlements
import Polycopy.Accounting.Soundness
import Polycopy.Accounting.Throttle
import Polycopy.Accounting.Pnl
import Polycopy.Accounting.AverageCost
import Polycopy.Lib.Feed
import Polycopy.Ingestion.Identity
import Polycopy.Ingestion.Service
import Polycopy.Ingestion.Idempotent
import Polycopy.Ingestion.CatchUp
import Polycopy.Ingestion.Bootstrap
import Polycopy.Ingestion.Budget
import Polycopy.Ingestion.History
import Polycopy.Ingestion.Complete
import Polycopy.Ingestion.Source
import Polycopy.Ingestion.Recovery
import Polycopy.Ingestion.Continuity
import Polycopy.Ingestion.Gaps
import Polycopy.Ingestion.FirstCycle
import Polycopy.Lib.Grouped
import Polycopy.Api.PaperEvidence
import Polycopy.Books.Evidence
import Polycopy.Scoring.Sessions
import Polycopy.Scoring.Decisions
import Polycopy.Scoring.Queue
import Polycopy.Lib.Savepoints
import Polycopy.Shadow.Observer
import Polycopy.Shadow.Ownership
import Polycopy.Shadow.Witness
import Polycopy.Execution.Gates
import Polycopy.Execution.Frame
import Polycopy.Execution.Cycle
import Polycopy.Lib.Greedy
import Polycopy.Execution.Optimal
import Polycopy.Books.Sweeps
import Polycopy.Py.Context
import Polycopy.Execution.FeeDecimal
import Polycopy.Lib.AntiJoin
import Polycopy.Execution.Detection
import Polycopy.Ingestion.Malformed
import Polycopy.Ingestion.Contained
import Polycopy.Shadow.Denial
import Polycopy.Py.Round
import Polycopy.Lib.Tally
import Polycopy.Scoring.Score
import Polycopy.Scoring.SizeNeutral
import Polycopy.Accounting.Service
import Polycopy.Accounting.RowOrder
import Polycopy.Accounting.Window
import Polycopy.Scoring.Stats
import Polycopy.Py.DecText
import Polycopy.Ingestion.KeyExact
import Polycopy.Ingestion.CatchUpFlag
import Polycopy.Scoring.Isolation
import Polycopy.Ingestion.MarketCap
import Polycopy.Accounting.Isolation
import Polycopy.Ingestion.Completion
import Polycopy.Shadow.Journal
import Polycopy.Shadow.Population
import Polycopy.Shadow.DiskIndex
import Polycopy.Lib.LogFold
import Polycopy.Shadow.Fences
import Polycopy.Shadow.Capture
import Polycopy.Shadow.Drain
import Polycopy.Shadow.Handoff
import Polycopy.Books.Audit
import Polycopy.Shadow.Export
import Polycopy.Shadow.Receipts
import Polycopy.Bot.Daemon
import Polycopy.Ingestion.Transport
import Polycopy.Shadow.Told
import Polycopy.Shadow.Restart
