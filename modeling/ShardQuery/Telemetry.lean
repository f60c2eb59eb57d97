import ShardQuery.Log
import ShardQuery.Metrics
/-!
# Telemetry

What an engine tells about itself: its counters and its log.
-/

namespace ShardQuery

structure Telemetry where
  metrics : Metrics
  journal : Journal
deriving Inhabited

namespace Telemetry

def start (minimum : Severity) : Telemetry := ⟨.empty, .empty minimum⟩

def count (counter : Counter) (n : UInt64) (telemetry : Telemetry) : Telemetry :=
  { telemetry with metrics := telemetry.metrics.add counter n }

def increment (counter : Counter) (telemetry : Telemetry) : Telemetry :=
  telemetry.count counter 1

def note (event : Event) (fields : List (String × String)) (telemetry : Telemetry) : Telemetry :=
  { telemetry with journal := telemetry.journal.add event fields }

end Telemetry

end ShardQuery
