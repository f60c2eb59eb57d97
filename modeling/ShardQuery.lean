import ShardQuery.Aggregate.Function
import ShardQuery.Aggregate.Moments
import ShardQuery.Bucket
import ShardQuery.Cell
import ShardQuery.CommandLine.Arguments
import ShardQuery.CommandLine.Command
import ShardQuery.CommandLine.Fault
import ShardQuery.CommandLine.Files
import ShardQuery.Config
import ShardQuery.DataType
import ShardQuery.Error
import ShardQuery.Execution.Aggregator
import ShardQuery.Execution.Chain
import ShardQuery.Execution.Expression
import ShardQuery.Execution.Flow
import ShardQuery.Execution.Session
import ShardQuery.Execution.Sorting
import ShardQuery.Execution.Stage
import ShardQuery.Function.Registry
import ShardQuery.Function.Scalar
import ShardQuery.Function.Signature
import ShardQuery.Job.Cluster
import ShardQuery.Job.Context
import ShardQuery.Job.Document
import ShardQuery.Job.Manager
import ShardQuery.Job.Node
import ShardQuery.Job.Plan
import ShardQuery.Job.Request
import ShardQuery.Job.Table
import ShardQuery.Job.Timeline
import ShardQuery.Job.Transport
import ShardQuery.JobId
import ShardQuery.Json.Basic
import ShardQuery.Json.Decode
import ShardQuery.Json.Outline
import ShardQuery.Json.Reader
import ShardQuery.Json.Writer
import ShardQuery.Log
import ShardQuery.Main
import ShardQuery.Metrics
import ShardQuery.Number.Decimal
import ShardQuery.Number.Double
import ShardQuery.Number.Layout
import ShardQuery.Number.Rounding
import ShardQuery.Number.Shortest
import ShardQuery.Number.Single
import ShardQuery.Projection.Basic
import ShardQuery.Projection.Document
import ShardQuery.Projection.Kind
import ShardQuery.Projection.Wire
import ShardQuery.Proofs.Aggregate.Amounts
import ShardQuery.Proofs.Aggregate.Calls
import ShardQuery.Proofs.Aggregate.Columns
import ShardQuery.Proofs.Aggregate.Counts
import ShardQuery.Proofs.Aggregate.Extremes
import ShardQuery.Proofs.Aggregate.MergeTree
import ShardQuery.Proofs.Aggregate.Moments
import ShardQuery.Proofs.Aggregate.Represents
import ShardQuery.Proofs.Aggregate.Sums
import ShardQuery.Proofs.Aggregate.Symmetry
import ShardQuery.Proofs.Aggregate.Typing
import ShardQuery.Proofs.Aggregate.Wire
import ShardQuery.Proofs.Cell
import ShardQuery.Proofs.Context.Accept
import ShardQuery.Proofs.Context.Failures
import ShardQuery.Proofs.Context.Latches
import ShardQuery.Proofs.Context.Streams
import ShardQuery.Proofs.Context.Tally
import ShardQuery.Proofs.Distinct
import ShardQuery.Proofs.Except
import ShardQuery.Proofs.Execution.Building
import ShardQuery.Proofs.Execution.Cancellation
import ShardQuery.Proofs.Execution.Distribution
import ShardQuery.Proofs.Execution.Faults
import ShardQuery.Proofs.Execution.Filtering
import ShardQuery.Proofs.Execution.GroupKeys
import ShardQuery.Proofs.Execution.GroupRows
import ShardQuery.Proofs.Execution.Grouping
import ShardQuery.Proofs.Execution.Images
import ShardQuery.Proofs.Execution.Limits
import ShardQuery.Proofs.Execution.RowFaults
import ShardQuery.Proofs.Execution.Run
import ShardQuery.Proofs.Execution.SortedWindows
import ShardQuery.Proofs.Execution.Sorting
import ShardQuery.Proofs.Execution.Windows
import ShardQuery.Proofs.Execution.Writing
import ShardQuery.Proofs.Expression.Integers
import ShardQuery.Proofs.Expression.Nulls
import ShardQuery.Proofs.Expression.Typing
import ShardQuery.Proofs.Faults
import ShardQuery.Proofs.Function.Scalar
import ShardQuery.Proofs.Job.Collect
import ShardQuery.Proofs.Job.Pieces
import ShardQuery.Proofs.Job.Plan
import ShardQuery.Proofs.Job.Sending
import ShardQuery.Proofs.Lookup
import ShardQuery.Proofs.Manager.Accounts
import ShardQuery.Proofs.Manager.Bystanders
import ShardQuery.Proofs.Manager.Counters
import ShardQuery.Proofs.Manager.Deliveries
import ShardQuery.Proofs.Manager.Endings
import ShardQuery.Proofs.Manager.Failures
import ShardQuery.Proofs.Manager.History
import ShardQuery.Proofs.Manager.Isolation
import ShardQuery.Proofs.Manager.Race
import ShardQuery.Proofs.Manager.Readiness
import ShardQuery.Proofs.Manager.Requests
import ShardQuery.Proofs.Manager.Retention
import ShardQuery.Proofs.Manager.Runs
import ShardQuery.Proofs.Manager.Schedule
import ShardQuery.Proofs.Manager.Step
import ShardQuery.Proofs.Manager.Table
import ShardQuery.Proofs.Number.Narrowing
import ShardQuery.Proofs.Number.Rounding
import ShardQuery.Proofs.Number.Single
import ShardQuery.Proofs.Projection.Typing
import ShardQuery.Proofs.Projection.Wire
import ShardQuery.Proofs.Request.Bitmap
import ShardQuery.Proofs.Request.Decode
import ShardQuery.Proofs.Request.Encode
import ShardQuery.Proofs.Request.Rows
import ShardQuery.Proofs.Symbol.Wire
import ShardQuery.Proofs.Text.Utf8
import ShardQuery.Proofs.Timestamp.Calendar
import ShardQuery.Proofs.Timestamp.Text
import ShardQuery.Proofs.Value.Mixture
import ShardQuery.Proofs.Value.Order
import ShardQuery.Proofs.Value.Sameness
import ShardQuery.Proofs.Value.Wire
import ShardQuery.Proofs.Wire.Fields
import ShardQuery.Proofs.Wire.Numbers
import ShardQuery.Proofs.Wire.Readers
import ShardQuery.Proofs.Wire.Reading
import ShardQuery.Proofs.Wire.Restoring
import ShardQuery.Proofs.Wire.Varints
import ShardQuery.Proofs.Wire.Writing
import ShardQuery.Proofs.Work
import ShardQuery.Symbol.Basic
import ShardQuery.Symbol.Document
import ShardQuery.Symbol.Wire
import ShardQuery.Telemetry
import ShardQuery.Text.Hex
import ShardQuery.Text.Utf8
import ShardQuery.Timestamp
import ShardQuery.Value.Basic
import ShardQuery.Value.Document
import ShardQuery.Value.Hash
import ShardQuery.Value.Order
import ShardQuery.Value.Wire
import ShardQuery.Wire.Checksum
import ShardQuery.Wire.Input
import ShardQuery.Wire.Output
import ShardQuery.Work
