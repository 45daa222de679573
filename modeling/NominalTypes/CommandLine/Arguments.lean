import NominalTypes.CommandLine.Command

/-!
# Reading command lines

A command line is a list of words: options, the name of a command, options and operands of the
command. `--` makes all further words operands.

| Option | Value | Where |
|--------|-------|-------|
| `-u`, `--universe` | a file; may be repeated | everywhere |
| `--format` | `text` or `json`; at most once in front of the command and once behind | everywhere |
| `--vars` | names separated by commas; may be repeated | behind `generic` and `match` |
| `-h`, `--help` | none | everywhere |
| `-V`, `--version` | none | in front of the command |

A value stands behind its option as the next word, or in the same word behind `=` (behind a single
letter the `=` may be left out). The options behind a command win over those in front of it.

- `Invocation.parse`: what a command line asks for.
- `UsageIssue`: why it asks for nothing that can be run.
- `Reading`: what is known of one part of a command line. A value in a word of its own is checked
  when the next option or operand begins, so an unknown word in between is reported first.
-/

namespace NominalTypes

/-- Why a command line is not run. Requests for help and for the version are among the reasons. -/
inductive UsageIssue where
  | helpRequested
  | versionRequested
  /-- There is nothing on the command line. -/
  | nothingGiven
  | missingCommand
  | missingOperand
  | unknownArgument
  | invalidValue
  /-- A value is attached to an option that takes none. -/
  | unexpectedValue
  | invalidCommand
  /-- The format is given twice. -/
  | repeatedFormat
  deriving DecidableEq, Repr

/-- Help and the version are not failures. -/
def UsageIssue.isFailure : UsageIssue → Bool
  | .helpRequested | .versionRequested => false
  | _ => true

/-- The options with a value. -/
inductive OptionName where
  | universe
  | format
  | vars
  deriving DecidableEq, Repr

/-- What a word that begins with a hyphen stands for. -/
inductive Switch where
  /-- An option, with the value if it is in the same word. -/
  | option (name : OptionName) (attached : Option String)
  | help
  | version
  /-- Help or version with a value attached. -/
  | overfull
  | unknown
  deriving DecidableEq, Repr

namespace Switch

/-- The part of a word up to the first `=`, and the part behind it. -/
def splitValue (body : List Char) : String × Option String :=
  (String.ofList (body.takeWhile (· != '=')),
    ((body.dropWhile (· != '=')).tail?).map String.ofList)

/-- A switch that takes no value. -/
def plain (switch : Switch) : Option String → Switch
  | none => switch
  | some _ => .overfull

/-- What a word stands for behind its two hyphens. -/
def ofLong (isTop takesVars : Bool) (body : List Char) : Switch :=
  match splitValue body with
  | ("universe", value) => .option .universe value
  | ("format", value) => .option .format value
  | ("vars", value) => if takesVars then .option .vars value else .unknown
  | ("help", value) => plain .help value
  | ("version", value) => if isTop then plain .version value else .unknown
  | _ => .unknown

/-- What a word stands for behind its one hyphen. -/
def ofShort (isTop : Bool) : List Char → Switch
  | ['u'] => .option .universe none
  | 'u' :: '=' :: value | 'u' :: value => .option .universe (some (String.ofList value))
  | 'h' :: _ => .help
  | 'V' :: _ => if isTop then .version else .unknown
  | _ => .unknown

end Switch

/-- The sorts of words. -/
inductive Word where
  /-- `--` alone. -/
  | separator
  | switch (switch : Switch)
  | operand (text : String)
  deriving DecidableEq, Repr

/-- The sort of a word. A hyphen alone is an operand. -/
def Word.ofText (isTop takesVars : Bool) (text : String) : Word :=
  match text.toList with
  | ['-', '-'] => .separator
  | '-' :: '-' :: body => .switch (Switch.ofLong isTop takesVars body)
  | '-' :: c :: body => .switch (Switch.ofShort isTop (c :: body))
  | _ => .operand text

/-- An option whose value may still come. -/
structure Pending where
  name : OptionName
  value : Option String
  deriving DecidableEq, Repr

/-- What is known of the words in front of a command, or of those behind it. -/
structure Reading where
  universes : List String
  format : Option AnswerFormat
  vars : List String
  operands : List String
  /-- The last option, if its value is not in the same word and nothing else has begun since. -/
  pending : Option Pending
  /-- All further words are operands. -/
  onlyOperands : Bool
  deriving DecidableEq, Repr

namespace Reading

/-- Nothing has been read. -/
def empty : Reading := ⟨[], none, [], [], none, false⟩

/-- The last option still waits for its value. -/
def awaitsValue (r : Reading) : Bool := r.pending.any (·.value.isNone)

/-- Takes in an option with its value. The name of a file is not empty. -/
def accept (r : Reading) (name : OptionName) (value : String) : Except UsageIssue Reading :=
  match name with
  | .universe =>
    if value = "" then .error .invalidValue
    else .ok { r with universes := r.universes ++ [value] }
  | .format =>
    if r.format.isSome then .error .repeatedFormat
    else match AnswerFormat.ofText? value with
      | some format => .ok { r with format := some format }
      | none => .error .invalidValue
  | .vars => .ok { r with vars := r.vars ++ value.splitOn "," }

/-- Takes in the last option, for which nothing more can come. -/
def settle (r : Reading) : Except UsageIssue Reading :=
  match r.pending with
  | none => .ok r
  | some ⟨_, none⟩ => .error .invalidValue
  | some ⟨name, some value⟩ => { r with pending := none }.accept name value

/-- Takes in a switch. -/
def onSwitch (r : Reading) : Switch → Except UsageIssue Reading
  | .option name (some value) => do (← r.settle).accept name value
  | .option name none => do return { ← r.settle with pending := some ⟨name, none⟩ }
  | .help => do let _ ← r.settle; throw .helpRequested
  | .version => do let _ ← r.settle; throw .versionRequested
  | .overfull => .error .unexpectedValue
  | .unknown => .error .unknownArgument

/-- Takes in the value that the last option waits for. -/
def onValue (r : Reading) (value : String) : Reading :=
  { r with pending := r.pending.map fun p => { p with value := some value } }

/-- Takes in an operand of a command. -/
def onOperand (r : Reading) (verb : Verb) (text : String) : Except UsageIssue Reading :=
  if verb.maxOperands?.any (· ≤ r.operands.length) then .error .unknownArgument
  else do
    let r ← r.settle
    return { r with operands := r.operands ++ [text] }

/-- One word behind a command. -/
def onWord (verb : Verb) (r : Reading) (text : String) : Except UsageIssue Reading :=
  if r.onlyOperands then r.onOperand verb text
  else match Word.ofText false verb.takesVars text with
    | .separator => .ok { r with onlyOperands := true }
    | .switch switch => r.onSwitch switch
    | .operand text => if r.awaitsValue then .ok (r.onValue text) else r.onOperand verb text

/-- The words behind a command. -/
def ofCommand (verb : Verb) (words : List String) : Except UsageIssue (Reading × Command) := do
  let r ← (← words.foldlM (onWord verb) empty).settle
  match verb.command? r.operands r.vars with
  | some command => return (r, command)
  | none => throw .missingOperand

/-- A command with the options behind it, after the options in front of it. The options in front are
completed last. -/
def invocation (r : Reading) (verb : Verb) (words : List String) :
    Except UsageIssue Invocation := do
  let (own, command) ← ofCommand verb words
  let r ← r.settle
  return {
    universes := if own.universes.isEmpty then r.universes else own.universes
    format := (own.format <|> r.format).getD .text
    command := command }

/-- The word `help` and the words behind it, which may name one command. -/
def onHelp : List String → UsageIssue
  | [] => .helpRequested
  | [word] =>
    if word = "help" ∨ (Verb.ofText? word).isSome then .helpRequested else .invalidCommand
  | _ => .invalidCommand

/-- A command line from the next word on. -/
def ofWords (r : Reading) : List String → Except UsageIssue Invocation
  | [] => do
    let r ← r.settle
    throw (if r.universes.isEmpty ∧ r.format.isNone then .nothingGiven else .missingCommand)
  | text :: rest =>
    let names := text = "help" ∨ (Verb.ofText? text).isSome
    if r.onlyOperands then .error (if names then .unknownArgument else .invalidCommand)
    else if r.awaitsValue ∨ ¬ names then
      match Word.ofText true false text with
      | .separator => { r with onlyOperands := true }.ofWords rest
      | .switch switch => do (← r.onSwitch switch).ofWords rest
      | .operand text =>
        if r.awaitsValue then (r.onValue text).ofWords rest else .error .invalidCommand
    else match Verb.ofText? text with
      | some verb => r.invocation verb rest
      | none => .error (onHelp rest)

end Reading

/-- What a command line asks for. -/
def Invocation.parse (words : List String) : Except UsageIssue Invocation :=
  Reading.empty.ofWords words

end NominalTypes
