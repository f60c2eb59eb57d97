/-!
# Metrics

Counters of the traffic of results and of the fate of jobs. Counters are words and
start again at zero when they run over.
-/

namespace ShardQuery

inductive Counter where
  | requestsSent
  | requestsReceived
  | rowsReceived
  | resultsDeferred
  | contextTimeouts
  | resultsDiscarded
  | malformedPayloads
  | jobsCompleted
  | jobsFailed
deriving DecidableEq, Inhabited

namespace Counter

def all : List Counter :=
  [requestsSent, requestsReceived, rowsReceived, resultsDeferred, contextTimeouts,
    resultsDiscarded, malformedPayloads, jobsCompleted, jobsFailed]

def name : Counter → String
  | requestsSent => "requests_sent"
  | requestsReceived => "requests_received"
  | rowsReceived => "rows_received"
  | resultsDeferred => "results_deferred"
  | contextTimeouts => "context_timeouts"
  | resultsDiscarded => "results_discarded"
  | malformedPayloads => "malformed_payloads"
  | jobsCompleted => "jobs_completed"
  | jobsFailed => "jobs_failed"

end Counter

/-- The counts other than zero. -/
structure Metrics where
  counts : List (Counter × UInt64)
deriving DecidableEq, Inhabited

namespace Metrics

def empty : Metrics := ⟨[]⟩

def get (metrics : Metrics) (counter : Counter) : UInt64 :=
  (metrics.counts.lookup counter).getD 0

def add (counter : Counter) (n : UInt64) (metrics : Metrics) : Metrics :=
  ⟨(counter, metrics.get counter + n) :: metrics.counts.filter (·.1 != counter)⟩

def toList (metrics : Metrics) : List (Counter × UInt64) :=
  Counter.all.map fun counter => (counter, metrics.get counter)

def render (metrics : Metrics) : String :=
  let member (counter : Counter) := s!"\"{counter.name}\":{metrics.get counter}"
  "\x7b" ++ ",".intercalate (Counter.all.map member) ++ "\x7d"

end Metrics

end ShardQuery
