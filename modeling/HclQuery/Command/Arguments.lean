/-
  From a command line to a request.

  Each command acts on its own words: options as they come, then the word that it cannot do
  without. That word hands all words after it to the next command, or is the address. Words that
  nothing asks for are kept, and refused in the end, once nothing else is wrong.
-/
import HclQuery.Command.Word

namespace HclQuery.Command

/-- What a command line asks for: the attribute at an address of a file, `-` for the standard
    input, in a format, with the debug log or without. -/
structure Request where
  verbose : Bool
  file : Text
  address : Text
  format : Format

/-- Why the program breaks off, with neither an answer nor an error that it reports itself. -/
inductive Crash where
  /-- The option for the format was left without a value. -/
  | noFormat
  /-- The option for the file was left without a value. -/
  | noFile
  /-- The path of the file holds the character NUL. -/
  | nulInPath
  deriving DecidableEq

/-- The words for a crash. -/
def Crash.message : Crash → String
  | noFormat => "[] is not a valid OutputFormat"
  | noFile => "expected str, bytes or os.PathLike object, not list"
  | nulInPath => "embedded null byte"

/-- Why a command line leads to no request. -/
inductive Halt where
  | help (level : Level)
  | version
  | refused (level : Level) (e : UsageError)
  | crashed (c : Crash)

/-! ## Options -/

/-- The options in one word: those that are complete, with their values, and one that takes the
    next word as its value. -/
structure Bundle where
  complete : List (Opt × Option Text)
  waiting : Option Opt

/-- The bundle with one more option in front. -/
def Bundle.push (o : Opt) (b : Bundle) : Bundle :=
  { b with complete := (o, none) :: b.complete }

/-- An option with nothing attached. -/
def Bundle.alone (o : Opt) : Bundle :=
  if o.action.takesValue then ⟨[], some o⟩ else ⟨[(o, none)], none⟩

/-- Takes apart an option with a text attached. An option of one letter that takes no value leaves
    the text to the options of further letters. -/
def unbundle (level : Level) (o : Opt) (long : Bool) (t : Text) : Except UsageError Bundle :=
  if o.action.takesValue then .ok ⟨[(o, some t)], none⟩
  else if long then .error (.ignoredValue o t)
  else
    match t with
    | [] => .error (.ignoredValue o t)
    | c :: cs =>
      match level.spelled? ['-', c] with
      | none => .error (.ignoredValue o t)
      | some next =>
        if cs.isEmpty then .ok ((Bundle.alone next).push o)
        else (unbundle level next false cs).map (Bundle.push o)

/-- The options in a word that is known to be one. -/
def bundleOf (level : Level) (o : Opt) (long : Bool) : Option Text → Except UsageError Bundle
  | some t => unbundle level o long t
  | none => .ok (Bundle.alone o)

/-- What a command has met so far. The file and the format are missing where the last option for
    them was left without a value. -/
structure Progress where
  verbose : Bool := false
  file : Option Text := some ['-']
  format : Option Format := some .value
  address : Option Text := none
  extras : List Text := []

/-- Some more words that nothing has asked for. -/
def Progress.keep (p : Progress) (words : List Text) : Progress :=
  { p with extras := p.extras ++ words }

/-- The address is met. -/
def Progress.withAddress (p : Progress) (address : Text) : Progress :=
  { p with address := some address }

/-- Acts on an option. The value `--` is taken out, and leaves the option without a value. -/
def Progress.act (level : Level) (p : Progress) (o : Opt) (value : Option Text) :
    Except Halt Progress :=
  let value := value.filter (· ≠ ['-', '-'])
  match o.action with
  | .help => .error (.help level)
  | .version => .error .version
  | .verbose => .ok { p with verbose := true }
  | .file => .ok { p with file := value }
  | .output =>
    match value with
    | none => .ok { p with format := none }
    | some name =>
      match Format.named? name with
      | some format => .ok { p with format := some format }
      | none =>
        .error (.refused level (.invalidChoice o.display name (Format.names.map (·.1))))

/-- Acts on options from first to last. -/
def Progress.actAll (level : Level) (p : Progress) :
    List (Opt × Option Text) → Except Halt Progress
  | [] => .ok p
  | (o, value) :: rest =>
    match p.act level o value with
    | .ok p' => p'.actAll level rest
    | .error halt => .error halt

/-! ## Words of one command -/

/-- The next command as the words name it, and the words that it is given. -/
abbrev Handover := Option (Text × List Text)

/-- The words as they were given. -/
def texts (words : List (Text × Word)) : List Text :=
  words.map (·.1)

/-- Acts on the words of a command, up to the one that names the next command. -/
def walk (level : Level) (p : Progress) : List (Text × Word) → Except Halt (Progress × Handover)
  | [] => .ok (p, none)
  | (word, .unknown) :: rest => walk level (p.keep [word]) rest
  | (_, .known o long attached) :: rest =>
    match bundleOf level o long attached with
    | .error e => .error (.refused level e)
    | .ok b =>
      match b.waiting with
      | none =>
        match p.actAll level b.complete with
        | .ok p' => walk level p' rest
        | .error halt => .error halt
      | some last =>
        match rest with
        | (value, .plain) :: rest' =>
          match p.actAll level (b.complete ++ [(last, some value)]) with
          | .ok p' => walk level p' rest'
          | .error halt => .error halt
        | _ => .error (.refused level (.missingValue last))
  | (word, .plain) :: rest =>
    if level ≠ .get then .ok (p, some (word, texts rest))
    else if p.address.isSome then walk level (p.keep [word]) rest
    else
      match rest with
      | (_, .dashes) :: rest' =>
        .ok ((p.withAddress word).keep (texts rest'), none)
      | _ => walk level (p.withAddress word) rest
  | (word, .dashes) :: rest =>
    match rest with
    | [] => .ok (p.keep [word], none)
    | (next, _) :: rest' =>
      if level ≠ .get then .ok (p, some (word, texts rest))
      else if p.address.isSome then .ok (p.keep (word :: texts rest), none)
      else .ok ((p.withAddress next).keep (texts rest'), none)

/-- What a command makes of all its words. -/
def readWords (level : Level) (words : List Text) : Except Halt (Progress × Handover) :=
  match Word.ofAll level words with
  | .ok ws => walk level {} ws
  | .error e => .error (.refused level e)

/-- The words for the next command, whose name has to be one of the choices. -/
def enter (level : Level) : Handover → Except Halt (List Text)
  | none => .error (.refused level (.missing level.positional))
  | some (word, rest) =>
    if level.choices.contains word then .ok rest
    else .error (.refused level (.invalidChoice level.positional word level.choices))

/-! ## The whole command line -/

/-- The request for an address, with what the innermost command has met. -/
def Progress.request (p : Progress) (verbose : Bool) (address : Text) : Except Crash Request :=
  match p.format, p.file with
  | none, _ => .error .noFormat
  | some _, none => .error .noFile
  | some format, some file => .ok ⟨verbose, file, address, format⟩

/-- The request that the words make. -/
def request (words : List Text) : Except Halt Request := do
  let (outer, next) ← readWords .program words
  let (middle, next) ← readWords .attribute (← enter .program next)
  let (inner, _) ← readWords .get (← enter .attribute next)
  match inner.address with
  | none => throw (.refused .get (.missing Level.get.positional))
  | some address =>
    let extras := outer.extras ++ middle.extras ++ inner.extras
    if extras.isEmpty then (inner.request outer.verbose address).mapError .crashed
    else throw (.refused .program (.unrecognized extras))

end HclQuery.Command
