import FinDB.Lib.Table
import FinDB.Lib.Machine
import FinDB.Lib.Raise
import FinDB.Lib.KeepBest
import FinDB.Lib.Gregorian
import FinDB.Lib.Numerals
import FinDB.Lib.Packing
import FinDB.Lib.Base64
import FinDB.Lib.Json
import FinDB.Lib.Document
import FinDB.Lib.Iso
import FinDB.Lib.Civil
import FinDB.Lib.Collation
import FinDB.Lib.Decimal
import FinDB.Lib.Keyset
import FinDB.Lib.Effect
import FinDB.Lib.Crash
import FinDB.Lib.Truth
import FinDB.Lib.Descending
import FinDB.Lib.Extremes
import FinDB.Lib.Attempts
import FinDB.Lib.Sweep
import FinDB.Vocabulary
import FinDB.ProviderWork.Rows
import FinDB.ProviderWork.Acquisition
import FinDB.ProviderWork.Queue
import FinDB.ProviderWork.Completion
import FinDB.ProviderWork.Settle
import FinDB.ProviderWork.Historical
import FinDB.ProviderWork.CompleteItem
import FinDB.ProviderWork.Claim
import FinDB.ProviderWork.Admin
import FinDB.ProviderWork.Steps
import FinDB.ProviderWork.Transitions
import FinDB.ProviderWork.Requests
import FinDB.ProviderWork.Refinement
import FinDB.ProviderWork.RefinementHistorical
import FinDB.ProviderWork.RefinementApply
import FinDB.ProviderWork.Invariants
import FinDB.ProviderWork.Moves
import FinDB.ProviderWork.Owner
import FinDB.ProviderWork.Fencing
import FinDB.ProviderWork.Created
import FinDB.ProviderWork.Preview
import FinDB.ProviderWork.Aggregate
import FinDB.ProviderWork.Beside
import FinDB.ProviderWork.Endings
import FinDB.ProviderWork.Finishing
import FinDB.ProviderWork.RequestStatus
import FinDB.ProviderWork.Terminal
import FinDB.ProviderWork.Retained
import FinDB.ProviderWork.Agreement
import FinDB.ProviderWork.Coverage
import FinDB.ProviderWork.ClosedRounds
import FinDB.ProviderWork.DrainOnly
import FinDB.ProviderWork.Fifo
import FinDB.ProviderWork.Replay
import FinDB.ProviderWork.Projection
import FinDB.ProviderWork.Prediction
import FinDB.Normalization.Rows
import FinDB.Normalization.Steps
import FinDB.Normalization.Transitions
import FinDB.Normalization.Writes
import FinDB.Normalization.Terminal
import FinDB.Normalization.Attempts
import FinDB.Normalization.Outbox
import FinDB.Canonical.Upserts
import FinDB.Canonical.Precedence
import FinDB.Normalize.Records
import FinDB.Normalize.Ingress
import FinDB.Normalize.Mapping
import FinDB.Normalize.Clean
import FinDB.Normalize.State
import FinDB.Normalize.Process
import FinDB.Normalize.Accounting
import FinDB.Normalize.Statistics
import FinDB.Normalize.Mirroring
import FinDB.Ingestion.Rows
import FinDB.Ingestion.Steps
import FinDB.Ingestion.AtMostOnce
import FinDB.Plans.Rows
import FinDB.Plans.Reconcile
import FinDB.Plans.Writes
import FinDB.Plans.Evidence
import FinDB.Plans.Placed
import FinDB.Plans.Progress
import FinDB.Plans.Credit
import FinDB.Plans.Snapshots
import FinDB.Plans.Settled
import FinDB.Calendar.Rows
import FinDB.Calendar.Revisions
import FinDB.Calendar.Inversion
import FinDB.Calendar.Store
import FinDB.Calendar.History
import FinDB.Calendar.Effective
import FinDB.Fetcher.Ledger
import FinDB.Fetcher.Acquisition
import FinDB.Fetcher.Quota
import FinDB.Fetcher.Identity
import FinDB.Fetcher.Retention
import FinDB.Fetcher.Pruning
import FinDB.Fetcher.Reserve
import FinDB.Fetcher.Floors
import FinDB.Fetcher.Historical
import FinDB.Fetcher.Batches
import FinDB.Fetcher.Budget
import FinDB.Fetcher.DailyWindow
import FinDB.Fetcher.Observation
import FinDB.Fetcher.Probes
import FinDB.Fetcher.Exhausted
import FinDB.Fetcher.Durable
import FinDB.Fetcher.Responses
import FinDB.Staging.Allowance
import FinDB.Staging.Restart
import FinDB.Members.Restart
import FinDB.Scheduler.Clock
import FinDB.Scheduler.Jobs
import FinDB.Universe.Rows
import FinDB.Universe.Forward
import FinDB.Universe.Rollover
import FinDB.Universe.Repair
import FinDB.Serve.Rows
import FinDB.Serve.Cursor
import FinDB.Serve.Eod
import FinDB.Serve.Minute
import FinDB.Serve.Futures
import FinDB.Serve.Pagination
import FinDB.Delivery.Coverage
import FinDB.Delivery.Rerun
import FinDB.Delivery.ExpectedDate
import FinDB.Providers.Taifex
import FinDB.Providers.Factset
import FinDB.Providers.Catalogue
import FinDB.Providers.Shioaji
import FinDB.Providers.MinuteIngress
import FinDB.Providers.MinuteBars
import FinDB.Providers.MinuteDelivery
