import Custody.Settings.Options
import Custody.Text.Integer

/-!
# The command line

Flags change options.  A flag starts with one or two dashes; its value follows
an equals sign or, unless the flag is a switch, is the next argument.  Reading
flags ends at the first argument that is none, after two dashes alone, and at
the first failure.  A failure is reported together with the usage.
-/

namespace Custody.Settings

/-- A flag of the analysis. -/
inductive Flag where
  | debug
  | effects
  | generated
  | parallel
  | receiver
  | unsupported
  deriving DecidableEq, Inhabited, Repr

namespace Flag

/-- All flags in the order of their names. -/
def all : List Flag := [debug, effects, generated, parallel, receiver, unsupported]

/-- The name of a flag. -/
def name : Flag → String
  | debug => "debug"
  | effects => "effects"
  | generated => "generated"
  | parallel => "parallel"
  | receiver => "receiver"
  | unsupported => "unsupported"

/-- The flag with a name. -/
def ofName? (name : String) : Option Flag := all.find? (·.name == name)

/-- Is the flag a switch, which needs no value? -/
def isSwitch : Flag → Bool
  | debug | generated | receiver | unsupported => true
  | effects | parallel => false

/-- What the flag is for. -/
def help : Flag → String
  | debug => "log analysis steps to standard error"
  | effects => "parameter effects to report: changes, escapes, all or off"
  | generated => "check generated files"
  | parallel => "number of independent unit groups analyzed concurrently"
  | receiver => "report changed receivers"
  | unsupported => "report constructs skipped by the analysis"

/-- The kind of value that a flag takes. -/
def placeholder : Flag → String
  | effects => " value"
  | parallel => " int"
  | debug | generated | receiver | unsupported => ""

/-- The value of a flag as text. -/
def value (flag : Flag) (options : Options) : String :=
  match flag with
  | debug => toString options.debug
  | effects => options.effects.name?.getD ""
  | generated => toString options.generated
  | parallel => toString options.parallel
  | receiver => toString options.receiver
  | unsupported => toString options.unsupported

/-- The value of a flag that goes without saying. -/
def zero : Flag → String
  | effects => ""
  | parallel => "0"
  | debug | generated | receiver | unsupported => "false"

/-- The lines about a flag in the usage. -/
def usage (flag : Flag) (defaults : Options) : String :=
  let value := flag.value defaults
  "  -" ++ flag.name ++ flag.placeholder ++ "\n    \t" ++ flag.help ++
    (if value = flag.zero then "" else " (default " ++ value ++ ")") ++ "\n"

/-- Set a switch. -/
def switch (flag : Flag) (value : Bool) (options : Options) : Options :=
  match flag with
  | debug => { options with debug := value }
  | generated => { options with generated := value }
  | receiver => { options with receiver := value }
  | unsupported => { options with unsupported := value }
  | effects | parallel => options

end Flag

/-- The usage of the analysis with its defaults. -/
def usage (defaults : Options) : String :=
  "Usage:\n" ++ String.join (Flag.all.map (·.usage defaults))

/-- Read a truth value. -/
def parseBool? (text : String) : Option Bool :=
  if ["1", "t", "T", "true", "TRUE", "True", "on", "On", "full", "Full"].contains text then
    some true
  else if ["0", "f", "F", "false", "FALSE", "False", "off", "Off"].contains text then
    some false
  else none

/-- The message about a text that is no truth value. -/
def notBoolMessage (text : String) : String :=
  "strconv.ParseBool: parsing " ++ Text.quote text ++ ": invalid syntax"

namespace CommandLine

/-- Why the flags could not be read. -/
inductive Failure where
  | badSyntax (argument : String)
  | help
  | undefined (name : String)
  | noBool (value : String) (flag : Flag)
  | missingValue (flag : Flag)
  | noLevel (value : String)
  | noInteger (value : String)
  | outOfRange (value : String)
  deriving DecidableEq, Repr

/-- The wording of a failure. -/
def Failure.message : Failure → String
  | badSyntax argument => "bad flag syntax: " ++ argument
  | help => "flag: help requested"
  | undefined name => "flag provided but not defined: -" ++ name
  | noBool value flag =>
      "invalid boolean value " ++ Text.quote value ++ " for -" ++ flag.name ++ ": " ++
        notBoolMessage value
  | missingValue flag => "flag needs an argument: -" ++ flag.name
  | noLevel value => invalid value .effects (Level.unknownMessage value)
  | noInteger value => invalid value .parallel "parse error"
  | outOfRange value => invalid value .parallel "value out of range"
where
  invalid (value : String) (flag : Flag) (why : String) : String :=
    "invalid value " ++ Text.quote value ++ " for flag -" ++ flag.name ++ ": " ++ why

/-- What a failure writes: its message, unless help was asked for, and the
usage. -/
def Failure.output (defaults : Options) : Failure → String
  | help => usage defaults
  | failure => failure.message ++ "\n" ++ usage defaults

/-- The outcome of reading flags. -/
structure Outcome where
  options : Options
  /-- The arguments that were not read. -/
  rest : List String
  failure : Option Failure
  deriving Repr

/-- A flag as it is written: its name, and the value after an equals sign. -/
structure Written where
  name : String
  value : Option String
  deriving DecidableEq, Repr

/-- How an argument is understood. -/
inductive Reading where
  /-- No flag. -/
  | plain
  /-- Two dashes: no flags from here on. -/
  | stop
  | bad
  | flag (written : Written)
  deriving DecidableEq, Repr

/-- Cut a name at the first equals sign after its first letter. -/
def splitValue : List Char → Written
  | [] => ⟨"", none⟩
  | first :: rest =>
      let name := first :: rest.takeWhile (· ≠ '=')
      match rest.dropWhile (· ≠ '=') with
      | [] => ⟨String.ofList name, none⟩
      | _ :: value => ⟨String.ofList name, some (String.ofList value)⟩

/-- Understand a flag without its dashes. -/
def readName : List Char → Reading
  | [] => .bad
  | '-' :: _ => .bad
  | '=' :: _ => .bad
  | letters => .flag (splitValue letters)

/-- Understand an argument. -/
def read (argument : String) : Reading :=
  match argument.toList with
  | ['-'] => .plain
  | ['-', '-'] => .stop
  | '-' :: '-' :: letters => readName letters
  | '-' :: letters => readName letters
  | _ => .plain

/-- Set a flag that takes a value.  A number that is too large still sets the
nearest one, and a text that is no number sets zero. -/
def setValue (flag : Flag) (value : String) (options : Options) : Options × Option Failure :=
  match flag with
  | .parallel =>
      match Text.Integer.parse value with
      | .ok number => ({ options with parallel := number }, none)
      | .error .malformed => ({ options with parallel := 0 }, some (.noInteger value))
      | .error (.outOfRange nearest) =>
          ({ options with parallel := nearest }, some (.outOfRange value))
  | _ =>
      match Level.parse? value with
      | some level => ({ options with effects := level }, none)
      | none => (options, some (.noLevel value))

/-- Set a switch by a text. -/
def setSwitch (flag : Flag) (value : String) (options : Options) : Options × Option Failure :=
  match parseBool? value with
  | some value => (flag.switch value options, none)
  | none => (options, some (.noBool value flag))

/-- Read flags into options. -/
def parse (options : Options) : List String → Outcome
  | [] => ⟨options, [], none⟩
  | argument :: rest =>
      match read argument with
      | .plain => ⟨options, argument :: rest, none⟩
      | .stop => ⟨options, rest, none⟩
      | .bad => ⟨options, argument :: rest, some (.badSyntax argument)⟩
      | .flag written =>
          match Flag.ofName? written.name with
          | none =>
              let failure :=
                if written.name = "help" || written.name = "h" then .help
                else .undefined written.name
              ⟨options, rest, some failure⟩
          | some flag =>
              if flag.isSwitch then
                match setSwitch flag (written.value.getD "true") options with
                | (options, none) => parse options rest
                | (options, failure) => ⟨options, rest, failure⟩
              else match written.value, rest with
                | some value, rest =>
                    match setValue flag value options with
                    | (options, none) => parse options rest
                    | (options, failure) => ⟨options, rest, failure⟩
                | none, value :: rest =>
                    match setValue flag value options with
                    | (options, none) => parse options rest
                    | (options, failure) => ⟨options, rest, failure⟩
                | none, [] => ⟨options, [], some (.missingValue flag)⟩

end CommandLine

end Custody.Settings
