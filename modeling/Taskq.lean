import Taskq.Lib.DateTime
import Taskq.Lib.QueryString
import Taskq.Lib.Unicode
import Taskq.Lib.Transaction
import Taskq.Lib.ContextManager
import Taskq.Lib.IsoFormat
import Taskq.Lib.IsoZulu
import Taskq.Lib.Shlex
import Taskq.Lib.Base64
import Taskq.Lib.Json
import Taskq.Lib.Keyed
import Taskq.Lib.Keyset
import Taskq.Lib.Ledger
import Taskq.Lib.Rank
import Taskq.Lib.Sqlite
import Taskq.Lib.Machine
import Taskq.Lib.Linear
import Taskq.Lib.Lockstep
import Taskq.Lib.Browse
import Taskq.Lib.Scrub
import Taskq.Lib.Reading
import Taskq.Repository.RateBucketLock
import Taskq.Repository.RateBucketTable
import Taskq.Repository.UnitsOfWork
import Taskq.Repository.Keys
import Taskq.Repository.Tasks
import Taskq.Repository.Results
import Taskq.Repository.TaskList
import Taskq.Repository.Browse
import Taskq.Repository.Cursor
import Taskq.Repository.CursorToken
import Taskq.Migrations.V3
import Taskq.Migrations.RoundTrip
import Taskq.Migrations.Chain
import Taskq.Migrations.Drift
import Taskq.Security.Redact
import Taskq.Security.Passes
import Taskq.Security.Overlap
import Taskq.Security.Reading
import Taskq.Security.Front
import Taskq.Security.Coverage
import Taskq.Service.Envelope
import Taskq.Service.Stored
import Taskq.Service.RateLimit
import Taskq.Service.Auth
import Taskq.Service.Tasks
import Taskq.Service.Runner
import Taskq.Service.Backlog
import Taskq.Service.Drain
import Taskq.Service.Dispatch
import Taskq.Service.Waves
import Taskq.Service.DrainStatus
import Taskq.Service.Reuse
import Taskq.Service.Child
import Taskq.Service.Tail
import Taskq.Service.Metrics
import Taskq.Api.Schemas
import Taskq.Api.Runs
import Taskq.Api.FinishedAt
import Taskq.Api.Tasks
import Taskq.Api.Interleaving
import Taskq.Api.Linear
import Taskq.Api.RunHistory
import Taskq.Api.RunRows
import Taskq.Api.Http
import Taskq.Api.RateLimit
import Taskq.Api.RetryAfter
import Taskq.Api.Workers
import Taskq.Api.Problem
import Taskq.Api.Launch
import Taskq.Api.Metrics
import Taskq.Api.Validation
import Taskq.Api.Endpoints
import Taskq.Api.App
import Taskq.Api.Health
import Taskq.Api.Contract
import Taskq.Api.CorrelationId
import Taskq.Api.Forbidden
import Taskq.Api.Access
import Taskq.Api.Rejected
import Taskq.Api.Served
import Taskq.Api.ReadBack
import Taskq.Api.RunBack
import Taskq.Api.Counted
import Taskq.Api.Quota
import Taskq.Api.KeyTexts
import Taskq.Cli.KeyCreate
