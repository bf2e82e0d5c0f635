/-
  The commands, one inside the other: the program itself, its command `attribute`, and the command
  `get` of that. Each has options, a usage line, and a help text.
-/
import HclQuery.Query

namespace HclQuery.Command

/-- What an option does. -/
inductive Action where
  | help
  | version
  | verbose
  | file
  | output
  deriving DecidableEq

/-- The option takes a word as its value. -/
def Action.takesValue : Action → Bool
  | file | output => true
  | _ => false

/-- An option: its spellings and what it does. -/
structure Opt where
  spellings : List Text
  action : Action
  deriving DecidableEq

/-- How messages name an option: by all of its spellings. -/
def Opt.display (o : Opt) : String :=
  String.ofList (['/'].intercalate o.spellings)

/-- A command, from the outermost inward. -/
inductive Level where
  | program
  | attribute
  | get
  deriving DecidableEq

namespace Level

/-- The option that every command has. -/
def helpOption : Opt := ⟨["-h".toList, "--help".toList], .help⟩

/-- The options of a command. -/
def options : Level → List Opt
  | .program =>
    [helpOption, ⟨["--version".toList], .version⟩,
     ⟨["-v".toList, "--verbose".toList], .verbose⟩]
  | .attribute => [helpOption]
  | .get =>
    [helpOption, ⟨["-f".toList, "--file".toList], .file⟩,
     ⟨["-o".toList, "--output".toList], .output⟩]

/-- The name under which a command reports errors. -/
def name : Level → String
  | .program => "hcledit"
  | .attribute => "hcledit attribute"
  | .get => "hcledit attribute get"

/-- What messages call the word that a command cannot do without. -/
def positional : Level → String
  | .program => "cmd"
  | .attribute => "attr_cmd"
  | .get => "address"

/-- The commands that a command has; none for the innermost. -/
def choices : Level → List Text
  | .program => ["attribute".toList]
  | .attribute => ["get".toList]
  | .get => []

/-- The usage line of a command. -/
def usage : Level → String
  | .program => "usage: hcledit [-h] [--version] [-v] \x7battribute\x7d ...\n"
  | .attribute => "usage: hcledit attribute [-h] \x7bget\x7d ...\n"
  | .get =>
    "usage: hcledit attribute get [-h] [-f FILE] [-o \x7bvalue,hcl,json,yaml\x7d] address\n"

/-- The lines of help that follow the usage line. -/
def helpLines : Level → List String
  | .program =>
    ["",
     "Read values from HCL files by address",
     "",
     "positional arguments:",
     "  \x7battribute\x7d",
     "    attribute    operate on attributes",
     "",
     "options:",
     "  -h, --help     show this help message and exit",
     "  --version      show program's version number and exit",
     "  -v, --verbose  log address resolution to stderr"]
  | .attribute =>
    ["",
     "positional arguments:",
     "  \x7bget\x7d",
     "    get       print the value of the attribute at ADDRESS",
     "",
     "options:",
     "  -h, --help  show this help message and exit"]
  | .get =>
    ["",
     "positional arguments:",
     "  address               dotted address, e.g. resource.aws_instance.foo.ami",
     "",
     "options:",
     "  -h, --help            show this help message and exit",
     "  -f FILE, --file FILE  input file (default: - for stdin)",
     "  -o \x7bvalue,hcl,json,yaml\x7d, --output \x7bvalue,hcl,json,yaml\x7d",
     "                        output format (default: value)"]

/-- The help text of a command. -/
def help (level : Level) : String :=
  level.usage ++ String.join (level.helpLines.map (· ++ "\n"))

/-- Every spelling of an option of the command, with the option. -/
def spelled (level : Level) : List (Text × Opt) :=
  level.options.flatMap fun o => o.spellings.map (·, o)

/-- The option of this spelling. -/
def spelled? (level : Level) (spelling : Text) : Option Opt :=
  (level.spelled.find? (·.1 = spelling)).map (·.2)

end Level

/-- What `--version` prints. -/
def versionLine : String := "hcledit 0.1.0\n"

end HclQuery.Command
