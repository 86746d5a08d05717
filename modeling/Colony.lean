import Colony.Defs.Data.Dict
import Colony.Defs.Data.Run
import Colony.Defs.Data.Keyed
import Colony.Defs.Data.Except
import Colony.Defs.Data.Transactions
import Colony.Defs.Core.Event
import Colony.Defs.Core.Text
import Colony.Defs.Core.Uuid
import Colony.Defs.Core.Filter
import Colony.Defs.Relay.Subscription
import Colony.Defs.Relay.SubscriptionLaws
import Colony.Defs.Relay.FanOut
import Colony.Defs.Relay.Leaks
import Colony.Defs.Acp.Queue
import Colony.Defs.Acp.QueueLaws
import Colony.Defs.Acp.Custody
import Colony.Defs.Acp.Retry
import Colony.Defs.Acp.WakeLedger
import Colony.Defs.Acp.WakeLedgerLaws
import Colony.Defs.Acp.WakeLedgerCalls
import Colony.Defs.Acp.WakeRollback
import Colony.Defs.Acp.WakeRuns
import Colony.Defs.Acp.WakeReplay
import Colony.Defs.Acp.WakeRetries
import Colony.Defs.Acp.WakeOnce
import Colony.Defs.Workflow.Schema
import Colony.Defs.Money.Base
import Colony.Defs.Money.Link
import Colony.Defs.Money.LinkLaws
import Colony.Defs.Money.Card
import Colony.Defs.Money.Jobs
import Colony.Defs.Money.JobLaws
import Colony.Defs.Money.Workers
import Colony.Defs.Money.WorkerLaws
import Colony.Defs.Money.CreateJob
import Colony.Defs.Money.Rendered
import Colony.Defs.Money.ExpireJob
import Colony.Defs.Money.Recipe
import Colony.Defs.Money.Notice
import Colony.Defs.Money.Connection
import Colony.Defs.Money.Receive
import Colony.Defs.Workflow.Schedule
import Colony.Defs.Data.History
import Colony.Defs.Data.Chain
import Colony.Defs.Git.Manifest
import Colony.Defs.Git.Publish
import Colony.Defs.Git.PublishLaws
import Colony.Defs.Git.Coverage
import Colony.Defs.Replaceable.Register
import Colony.Defs.Replaceable.RegisterLaws
import Colony.Defs.Replaceable.Store
import Colony.Defs.Replaceable.StoreLaws
import Colony.Defs.Ifc.Flow
import Colony.Defs.Replica.Fence
import Colony.Defs.Replica.FenceLaws
import Colony.Defs.Replica.RestoreLaws
import Colony.Defs.Auth.Nip98
import Colony.Defs.Data.Framing
import Colony.Defs.Data.Split
import Colony.Defs.Core.Json
import Colony.Defs.Audit.Log
import Colony.Defs.Audit.LogLaws
import Colony.Defs.Audit.Tamper
import Colony.Defs.Push.Store
import Colony.Defs.Push.Transactions
import Colony.Defs.Push.GateLaws
import Colony.Defs.Pairing.Session
import Colony.Defs.Pairing.SessionLaws
import Colony.Defs.Pairing.Agreement
import Colony.Defs.Plans.Plan
import Colony.Defs.Plans.Laws
import Colony.Defs.Plans.Ending
import Colony.Defs.Core.Decimal
import Colony.Defs.Git.Report
import Colony.Defs.Core.Ascii
import Colony.Defs.Git.Hook
import Colony.Defs.Git.Perms
import Colony.Defs.Git.PermLaws
import Colony.Defs.Data.Typed
import Colony.Defs.Workflow.EvalContext
import Colony.Defs.Data.Spending
import Colony.Defs.Workflow.Interval
import Colony.Defs.Data.Each
import Colony.Defs.Acp.QueueStores
import Colony.Defs.Acp.QueueInvariant
import Colony.Defs.Acp.Fairness
import Colony.Defs.Acp.HandBack
import Colony.Defs.Acp.Drain
import Colony.Defs.Acp.Flights
import Colony.Defs.Acp.PendingWork
import Colony.Defs.Money.Numerals
import Colony.Defs.Money.Render
import Colony.Defs.Money.Endpoint
import Colony.Defs.Money.Injection
import Colony.Defs.Mesh.Membership
import Colony.Defs.Mesh.Runtime
import Colony.Defs.Acp.Usage
import Colony.Defs.Pairing.Qr
import Colony.Defs.Push.Batch
import Colony.Defs.ReadState.Json
import Colony.Defs.ReadState.Slots
import Colony.Defs.ReadState.Manager
import Colony.Defs.Replaceable.ReadState
import Colony.Defs.Data.Sorted
import Colony.Defs.Threads.Window
import Colony.Defs.Audio.Room
import Colony.Defs.Audio.Control
import Colony.Defs.Audio.Manager
import Colony.Defs.Audio.Roster
