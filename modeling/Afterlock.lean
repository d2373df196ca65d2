import Afterlock.Lib.Table
import Afterlock.Lib.Prog
import Afterlock.Lib.Text
import Afterlock.Lib.Utf8
import Afterlock.Json
import Afterlock.Model
import Afterlock.Parse
import Afterlock.Semantics
import Afterlock.Engine
import Afterlock.Environment
import Afterlock.Transitions
import Afterlock.Termination
import Afterlock.Saturation
import Afterlock.Accepted
import Afterlock.Base
import Afterlock.Run
import Afterlock.Objects
import Afterlock.Outcome
import Afterlock.Results
import Afterlock.Verdict
import Afterlock.Containment
import Afterlock.Permanence
import Afterlock.Identifiers
import Afterlock.Lib.Machine
import Afterlock.Storage.Records
import Afterlock.Storage.Memory
import Afterlock.Storage.Runs
import Afterlock.Storage.Publication
import Afterlock.Storage.Fencing
import Afterlock.Storage.Consistency
import Afterlock.Storage.Isolation
import Afterlock.Storage.Postgres
import Afterlock.Storage.Contract
import Afterlock.Storage.Equivalence
import Afterlock.Lib.Lines
import Afterlock.Redaction
import Afterlock.Collector.Encoding
import Afterlock.Collector.Spool
import Afterlock.Collector.Loss
import Afterlock.Collector.Torn
import Afterlock.Collector.Durability
import Afterlock.Lib.Acyclic
import Afterlock.Bound
import Afterlock.Explanation
import Afterlock.Fixpoint
import Afterlock.Legitimate
import Afterlock.Within
import Afterlock.Monotonicity
import Afterlock.Irrelevance
import Afterlock.Rotation
import Afterlock.Reconciliation
import Afterlock.Replacement
import Afterlock.Airtight
import Afterlock.Lib.Search
import Afterlock.Lib.BestFirst
import Afterlock.Lib.Rounding
import Afterlock.Lib.Gather
import Afterlock.Lib.Collate
import Afterlock.Lib.Shows
import Afterlock.Reference.Env
import Afterlock.Reference.Represents
import Afterlock.Reference.Reading
import Afterlock.Reference.Lockstep
import Afterlock.ActionJson
import Afterlock.Collector.Inventory
import Afterlock.Collector.Watch
import Afterlock.Collector.Synced
import Afterlock.Reference.Agreement
import Afterlock.Lib.Delimited
import Afterlock.Canonical
import Afterlock.Verification
import Afterlock.Planner
import Afterlock.Optimality
import Afterlock.Execution
import Afterlock.Evidence.Envelope
import Afterlock.Evidence.Project
import Afterlock.Evidence.Attribution
import Afterlock.Evidence.Effects
import Afterlock.Evidence.Facts
import Afterlock.Evidence.Delivery
import Afterlock.Evidence.Coverage
import Afterlock.Jwks
import Afterlock.Collector.Bounds
import Afterlock.Collector.Restart
import Afterlock.Migrations
import Afterlock.Migrators
import Afterlock.Storage.Worker
import Afterlock.Storage.Truth
import Afterlock.Lib.Buffered
import Afterlock.Collector.AuditLog
import Afterlock.Lib.Glob
import Afterlock.CaseStore
import Afterlock.CasesApart
import Afterlock.Collector.Correlate
import Afterlock.Collector.Redact
import Afterlock.Collector.Ingest
import Afterlock.Collector.Guard
import Afterlock.Collector.Accounting
import Afterlock.Patterns
