import Ledgence.Runs.Ended
import Ledgence.Runs.Observation
import Ledgence.Runs.Renewals
import Ledgence.Runs.Settlement
import Ledgence.Resources.Bucket
import Ledgence.Resources.NextRefill
import Ledgence.Resources.SameRotation
import Ledgence.Delivery.Fairness
import Ledgence.Core.TrackerRuns
import Ledgence.Runs.Store
import Ledgence.Runs.Sequences
import Ledgence.Runs.LeaseSafety
import Ledgence.Ledger.NoLostWake
import Ledgence.Queues.Timeouts
import Ledgence.Service.Callers
import Ledgence.Worker.Conserved
import Ledgence.Api.Scanner
import Ledgence.Broker.Acknowledged
import Ledgence.Budgets.Accounted
import Ledgence.Completion.Events
import Ledgence.Renewal.Monitor
import Ledgence.Renewal.Sections
import Ledgence.Renewal.Sound
import Ledgence.Renewal.Runs
import Ledgence.Cache.Operations
import Ledgence.Api.ApprovalInbox
import Ledgence.Cache.Accounted
import Ledgence.Cache.Guarded
import Ledgence.Cache.Opened
import Ledgence.Cache.Sound
import Ledgence.Pages.Inbox
import Ledgence.Pages.Sound
import Ledgence.Evidence.Dispatched
import Ledgence.Dispatch.Classified
import Ledgence.Delivery.Updates
import Ledgence.Attempts.Sound
import Ledgence.Sdk.Sound
import Ledgence.Workflows.ForkReplays
import Ledgence.Worker.Budget
import Ledgence.Archive.Grammar
import Ledgence.Wakes.Publisher
import Ledgence.Subprocess.FrameRuns
import Ledgence.Subprocess.CleanupEnds
import Ledgence.Console.Pages
import Ledgence.Providers.Runs
import Ledgence.Archive.Sound
import Ledgence.Cache.Formats
