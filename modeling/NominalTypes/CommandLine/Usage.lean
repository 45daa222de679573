import NominalTypes.CommandLine.Arguments

/-!
# What is said about command lines

- `UsageIssue.message`: why a command line is not run.
- `usageText`: the commands and options.
-/

namespace NominalTypes

/-- The commands and options. -/
def usageText : String :=
  "\n".intercalate
    ["Assignability, common ancestors and structural matching of generic types",
     "",
     "Commands:",
     "  assignable TARGET CANDIDATE",
     "  generic DEFINITION CANDIDATE [--vars NAMES]",
     "  common TYPE...",
     "  match CANDIDATE PATTERN [--vars NAMES]",
     "  static TYPE",
     "  show TYPE",
     "",
     "Options:",
     "  -u, --universe FILE   declare further types",
     "  --format text|json    the format of the answer",
     "  -h, --help            print this text",
     "  -V, --version         print the version"]

/-- The version. -/
def versionText : String := "0.1.0"

/-- Why a command line is not run. -/
def UsageIssue.message : UsageIssue → String
  | .helpRequested | .nothingGiven => usageText
  | .versionRequested => versionText
  | .missingCommand => "a command is missing"
  | .missingOperand => "an operand is missing"
  | .unknownArgument => "there is an unknown argument"
  | .invalidValue => "an option has no value, or one that it does not take"
  | .unexpectedValue => "an option without a value has one"
  | .invalidCommand => "there is no such command"
  | .repeatedFormat => "the format is given twice"

end NominalTypes
