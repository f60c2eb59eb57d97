import ShardQuery.Error
import ShardQuery.Json.Decode
import ShardQuery.Log
/-!
# Configuration

Every setting has a usual value. A document with a name that is no setting is
refused, and so are limits of zero.
-/

namespace ShardQuery

structure Config where
  /-- How long a result may wait for its job to be registered, in milliseconds. -/
  contextWaitMillis : UInt64
  jobTimeoutMillis : UInt64
  /-- How long ended jobs are remembered. -/
  jobRetentionMillis : UInt64
  rowsPerRequest : UInt64
  maxConcurrentShards : UInt64
  logLevel : String
deriving DecidableEq, Inhabited

namespace Config

def default : Config where
  contextWaitMillis := 10000
  jobTimeoutMillis := 60000
  jobRetentionMillis := 60000
  rowsPerRequest := 1000
  maxConcurrentShards := 4
  logLevel := "info"

/-- The settings that must not be zero, by name. -/
def limits (config : Config) : List (String × UInt64) :=
  [("context_wait_timeout_ms", config.contextWaitMillis),
    ("job_timeout_ms", config.jobTimeoutMillis),
    ("job_retention_ms", config.jobRetentionMillis),
    ("rows_per_request", config.rowsPerRequest),
    ("max_concurrent_shards", config.maxConcurrentShards)]

def severity (config : Config) : Except EngineError Severity :=
  match Severity.ofName? config.logLevel with
  | some severity => .ok severity
  | none => .error (.config s!"unknown log level {config.logLevel}")

def validate (config : Config) : Except EngineError Unit := do
  match config.limits.find? (·.2 == 0) with
  | some (name, _) => throw (.config s!"{name} must be positive")
  | none => discard config.severity

def ofDocument? (json : Json) : Option Config := do
  let names := default.limits.map (·.1) ++ ["log_level"]
  let fields ← Json.fields? names true json
  let number (name : String) (absent : UInt64) := fields.optional name Json.uint64? absent
  return {
    contextWaitMillis := ← number "context_wait_timeout_ms" default.contextWaitMillis
    jobTimeoutMillis := ← number "job_timeout_ms" default.jobTimeoutMillis
    jobRetentionMillis := ← number "job_retention_ms" default.jobRetentionMillis
    rowsPerRequest := ← number "rows_per_request" default.rowsPerRequest
    maxConcurrentShards := ← number "max_concurrent_shards" default.maxConcurrentShards
    logLevel := ← fields.optional "log_level" Json.text? default.logLevel }

def ofText (text : String) : Except EngineError Config := do
  match Json.parse text with
  | .error fault => throw (.config fault.message)
  | .ok json =>
    match ofDocument? json with
    | none => throw (.config (Json.Fault.at text "not a configuration" []).message)
    | some config =>
      config.validate
      return config

end Config

end ShardQuery
