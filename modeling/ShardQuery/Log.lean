import ShardQuery.Json.Writer
/-!
# The log

One line for each event: an object with the name of the event, its severity, and
the fields sorted by name. A journal keeps the lines of events that are severe
enough.
-/

namespace ShardQuery

inductive Severity where
  | trace
  | info
  | warn
  | error
  | fatal
deriving DecidableEq, Inhabited

namespace Severity

def all : List Severity := [trace, info, warn, error, fatal]

def rank : Severity → Nat
  | trace => 0
  | info => 1
  | warn => 2
  | error => 3
  | fatal => 4

def name : Severity → String
  | trace => "TRACE"
  | info => "INFO"
  | warn => "WARN"
  | error => "ERROR"
  | fatal => "FATAL"

/-- The severity of that name, in any case of ASCII letters. -/
def ofName? (name : String) : Option Severity :=
  all.find? fun severity => severity.name == name.map Char.toUpper

def isEnabled (minimum severity : Severity) : Bool := minimum.rank ≤ severity.rank

end Severity

inductive Event where
  | configLoaded
  | jobRegistered
  /-- A result arrived before its job was registered. -/
  | resultDeferred
  /-- A deferred result found its job. -/
  | resultDelivered
  /-- A result for a job that had ended was dropped. -/
  | resultDiscarded
  /-- A deferred result waited too long. -/
  | contextTimeout
  | malformedPayload
  | jobCompleted
  | jobFailed
  | jobCancelled
  | collectStart
  | collectComplete
  | collectFailed
  | explainComplete
deriving DecidableEq, Inhabited

namespace Event

def all : List Event :=
  [configLoaded, jobRegistered, resultDeferred, resultDelivered, resultDiscarded, contextTimeout,
    malformedPayload, jobCompleted, jobFailed, jobCancelled, collectStart, collectComplete,
    collectFailed, explainComplete]

def name : Event → String
  | configLoaded => "CONFIG_LOADED"
  | jobRegistered => "JOB_REGISTERED"
  | resultDeferred => "RESULT_DEFERRED"
  | resultDelivered => "RESULT_DELIVERED"
  | resultDiscarded => "RESULT_DISCARDED"
  | contextTimeout => "CONTEXT_TIMEOUT"
  | malformedPayload => "MALFORMED_PAYLOAD"
  | jobCompleted => "JOB_COMPLETE"
  | jobFailed => "JOB_FAILED"
  | jobCancelled => "JOB_CANCELLED"
  | collectStart => "COLLECT_BEGIN"
  | collectComplete => "COLLECT_COMPLETE"
  | collectFailed => "COLLECT_FAILED"
  | explainComplete => "EXPLAIN_COMPLETE"

def severity : Event → Severity
  | resultDelivered | resultDeferred => .trace
  | resultDiscarded => .warn
  | contextTimeout | malformedPayload | jobFailed | collectFailed => .error
  | _ => .info

end Event

namespace Log

/-- The line of an event, without its end. Fields of one name keep their order. -/
def line (severity : Severity) (event : String) (fields : List (String × String)) : String :=
  let sorted := fields.mergeSort fun a b => a.1 ≤ b.1
  let member (name value : String) := Json.quote name ++ ":" ++ Json.quote value
  let all := ("event", event) :: ("severity", severity.name) :: sorted
  let members := all.map fun (name, value) => member name value
  "\x7b" ++ ",".intercalate members ++ "\x7d"

def print (minimum severity : Severity) (event : String) (fields : List (String × String)) :
    String :=
  if minimum.isEnabled severity then line severity event fields ++ "\n" else ""

end Log

structure Journal where
  minimum : Severity
  /-- The last line comes first. -/
  latest : List String
deriving Inhabited

namespace Journal

def empty (minimum : Severity) : Journal := ⟨minimum, []⟩

def lines (journal : Journal) : List String := journal.latest.reverse

def add (event : Event) (fields : List (String × String)) (journal : Journal) : Journal :=
  if journal.minimum.isEnabled event.severity then
    { journal with latest := Log.line event.severity event.name fields :: journal.latest }
  else journal

end Journal

end ShardQuery
