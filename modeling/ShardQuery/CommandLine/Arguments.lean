/-!
# Arguments

The words of a command line. An option takes its value from the next word or after
an equals sign, and may be given once. After two hyphens there are no more options.
An option without a value is noticed only when the next known option comes, or at
the end, so a word that nobody knows is complained about first.
-/

namespace ShardQuery

inductive Command where
  | run (config : Option String) (plan input : String)
  | explain (plan : String)
deriving DecidableEq

/-- Why there is no command to carry out. -/
inductive Usage where
  | help
  | version
  | noArguments
  | unknownCommand
  | unknownArgument
  | missingArgument
  | missingValue
  | repeatedOption
  | unneededValue
deriving DecidableEq, Inhabited

namespace Usage

def exitCode : Usage → UInt8
  | help | version => 0
  | _ => 2

end Usage

structure Options where
  values : List (String × String)
  /-- The option that came last, with its value if that has come. -/
  pending : Option (String × Option String)

namespace Options

def none : Options := ⟨[], Option.none⟩

def store (name value : String) (options : Options) : Except Usage Options :=
  if (options.values.lookup name).isSome then .error .repeatedOption
  else if value.isEmpty then .error .missingValue
  else .ok { options with values := (name, value) :: options.values }

/-- Stores the option that came last. -/
def resolve (options : Options) : Except Usage Options :=
  match options.pending with
  | Option.none => .ok options
  | some (_, Option.none) => .error .missingValue
  | some (name, some value) => { options with pending := Option.none }.store name value

/-- Stores the option that came last before another one. -/
def before {α : Type} (options : Options) (next : Options → Except Usage α) : Except Usage α :=
  options.resolve >>= next

end Options

namespace Arguments

/-- The word without the hyphens in front, if it starts with two. -/
def long? (word : String) : Option (List Char) :=
  match word.toList with
  | '-' :: '-' :: rest => some rest
  | _ => none

/-- The letters of a word that starts with one hyphen. -/
def short? (word : String) : Option (List Char) :=
  match word.toList with
  | '-' :: c :: rest => some (c :: rest)
  | _ => none

def splitValue (chars : List Char) : String × Option String :=
  match chars.dropWhile (· != '=') with
  | _ :: value => (String.ofList (chars.takeWhile (· != '=')), some (String.ofList value))
  | [] => (String.ofList chars, none)

def options (names : List String) (options : Options) : List String → Except Usage Options
  | [] => options.resolve
  | word :: rest =>
    if word = "--" then if rest.isEmpty then options.resolve else .error .unknownArgument
    else match long? word with
      | some chars =>
        match splitValue chars with
        | ("help", none) => options.before fun _ => .error .help
        | ("help", some _) => .error .unneededValue
        | (name, value) =>
          if names.contains name then do
            let options ← options.resolve
            let options ← match value with
              | some value => options.store name value
              | none => .ok { options with pending := some (name, none) }
            Arguments.options names options rest
          else .error .unknownArgument
      | none =>
        match short? word with
        | some ('h' :: _) => options.before fun _ => .error .help
        | some _ => .error .unknownArgument
        | none =>
          match options.pending with
          | some (name, none) =>
            Arguments.options names { options with pending := some (name, some word) } rest
          | _ => .error .unknownArgument

def required (options : Options) (name : String) : Except Usage String :=
  match options.values.lookup name with
  | some value => .ok value
  | none => .error .missingArgument

def help : List String → Usage
  | [] | ["run"] | ["explain"] | ["help"] => .help
  | _ => .unknownCommand

def parse : List String → Except Usage Command
  | [] => .error .noArguments
  | "run" :: rest => do
    let options ← options ["config", "plan", "input"] .none rest
    let plan ← required options "plan"
    return .run (options.values.lookup "config") plan (← required options "input")
  | "explain" :: rest => do
    let options ← options ["plan"] .none rest
    return .explain (← required options "plan")
  | "help" :: rest => .error (help rest)
  | ["--"] => .error .noArguments
  | "--" :: word :: _ =>
    .error (if ["run", "explain", "help"].contains word then .unknownArgument
      else .unknownCommand)
  | word :: _ =>
    match long? word with
    | some chars =>
      match splitValue chars with
      | ("help", none) => .error .help
      | ("version", none) => .error .version
      | ("help", some _) | ("version", some _) => .error .unneededValue
      | _ => .error .unknownArgument
    | none =>
      match short? word with
      | some ('h' :: _) => .error .help
      | some ('V' :: _) => .error .version
      | some _ => .error .unknownArgument
      | none => .error .unknownCommand

end Arguments

end ShardQuery
