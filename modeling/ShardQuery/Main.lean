import ShardQuery.CommandLine.Command
/-!
# The command line

Reads the files a command names, carries it out, and prints its answer on standard
output, and the log and faults on standard error.
-/

namespace ShardQuery

namespace Command

def paths : Command → List String
  | run config plan input => config.toList ++ [plan, input]
  | explain plan => [plan]

end Command

namespace Terminal

def helpText : String :=
  "A distributed projection and aggregation engine\n\n" ++
  "Usage: shardquery <COMMAND>\n\n" ++
  "Commands:\n" ++
  "  run      Execute a plan over an in-process cluster, one node per input entry\n" ++
  "           --plan <PLAN> --input <INPUT> [--config <CONFIG>]\n" ++
  "  explain  Validate a plan and print its projection chains\n" ++
  "           --plan <PLAN>\n" ++
  "  help     Print this message\n\n" ++
  "Options:\n" ++
  "  -h, --help     Print help\n" ++
  "  -V, --version  Print version\n"

def usageText : Usage → String
  | .help | .noArguments => helpText
  | .version => "shardquery 0.1.0\n"
  | .unknownCommand => "error: unrecognized subcommand\n\n" ++ helpText
  | .unknownArgument => "error: unexpected argument found\n\n" ++ helpText
  | .missingArgument => "error: a required argument was not provided\n\n" ++ helpText
  | .missingValue => "error: a value is required\n\n" ++ helpText
  | .repeatedOption => "error: an option cannot be used multiple times\n\n" ++ helpText
  | .unneededValue => "error: an option takes no value\n\n" ++ helpText

def fileFault : IO.Error → FileFault
  | .noFileOrDirectory .. => .missing
  | .permissionDenied .. => .denied
  | .inappropriateType .. => .isDirectory
  | error => .other (toString error)

def readFile (path : String) : IO (Except FileFault String) := do
  try
    match String.fromUTF8? (← IO.FS.readBinFile path) with
    | some text => return .ok text
    | none => return .error .notText
  catch error => return .error (fileFault error)

/-- A random id of version four. -/
def newJob : IO JobId := do
  let bytes := (← IO.getRandomBytes 16).toList
  let marked := bytes.zipIdx.map fun (byte, index) =>
    if index = 6 then byte &&& 0x0f ||| 0x40
    else if index = 8 then byte &&& 0x3f ||| 0x80
    else byte
  return (JobId.ofBytes? marked).getD .nil

def perform (command : Command) : IO UInt32 := do
  let texts ← command.paths.mapM fun path => return (path, ← readFile path)
  let files : Files := fun path => (texts.lookup path).getD (.error .missing)
  let report := command.perform files (← newJob) (.empty .info)
  for line in report.journal.lines do
    IO.eprintln line
  match report.result with
  | .ok data =>
    IO.println (Report.response data)
    return 0
  | .error fault =>
    IO.eprintln fault.display
    return 1

def run (args : List String) : IO UInt32 := do
  match Arguments.parse args with
  | .ok command => perform command
  | .error usage =>
    if usage.exitCode = 0 then IO.print (usageText usage) else IO.eprint (usageText usage)
    return usage.exitCode.toUInt32

end Terminal

end ShardQuery

def main (args : List String) : IO UInt32 := ShardQuery.Terminal.run args
