/-
  Words of a command line: which of them are options, before any is acted on.

  A word that starts with a dash is an option, known or not, unless it is a dash alone, looks
  like a negative number, or holds a space. A known option may be shortened to a start of its
  long spelling that no other option shares. A value may be attached: behind `=`, or directly
  behind the letter of an option. After the word `--` nothing is an option.
-/
import HclQuery.Command.Level
import HclQuery.Unicode.Decimal

namespace HclQuery.Command

/-- What a word is to a command. `long` says that the option is spelled with two dashes, and
    `attached` is the text behind its `=` or behind its letter. -/
inductive Word where
  | plain
  | dashes
  | known (o : Opt) (long : Bool) (attached : Option Text)
  | unknown

/-- Why a command line is refused. -/
inductive UsageError where
  | ambiguous (word : Text) (spellings : List Text)
  | ignoredValue (o : Opt) (value : Text)
  | missingValue (o : Opt)
  | invalidChoice (argument : String) (value : Text) (choices : List Text)
  | missing (argument : String)
  | unrecognized (words : List Text)

/-- The words for a usage error. -/
def UsageError.message : UsageError → String
  | ambiguous word spellings =>
    s!"ambiguous option: {String.ofList word} could match " ++
      String.ofList ([',', ' '].intercalate spellings)
  | ignoredValue o value =>
    s!"argument {o.display}: ignored explicit argument {Text.quoted value}"
  | missingValue o => s!"argument {o.display}: expected one argument"
  | invalidChoice argument value choices =>
    s!"argument {argument}: invalid choice: {Text.quoted value} (choose from " ++
      String.intercalate ", " (choices.map Text.quoted) ++ ")"
  | missing argument => s!"the following arguments are required: {argument}"
  | unrecognized words =>
    "unrecognized arguments: " ++ String.ofList ([' '].intercalate words)

namespace Word

/-- The text before the first `=`, and the text after it if there is one. -/
def cutAtEqual (word : Text) : Text × Option Text :=
  match word.dropWhile (· ≠ '=') with
  | [] => (word, none)
  | _ :: value => (word.takeWhile (· ≠ '='), some value)

/-- The text is digits, or digits perhaps, a point, and digits. -/
def isUnsignedNumber (t : Text) : Bool :=
  match t.dropWhile Unicode.isDecimal with
  | [] => !t.isEmpty
  | c :: cs => c = '.' && !cs.isEmpty && cs.all Unicode.isDecimal

/-- The word is a dash and a number; one line feed may follow. -/
def isNegativeNumber (word : Text) : Bool :=
  match word with
  | '-' :: t => isUnsignedNumber t || (t.getLast? = some '\n' && isUnsignedNumber t.dropLast)
  | _ => false

/-- A word that starts with a dash and matches no option. -/
def ofUnmatched (word : Text) : Word :=
  if isNegativeNumber word || word.contains ' ' then plain else unknown

/-- A word of two dashes and more: the options with a spelling that starts as it does. -/
def ofLong (level : Level) (word : Text) : Except UsageError Word :=
  let (start, value) := cutAtEqual word
  match level.spelled.filter fun s => start.isPrefixOf s.1 with
  | [] => .ok (ofUnmatched word)
  | [(_, o)] => .ok (known o true value)
  | candidates => .error (.ambiguous word (candidates.map (·.1)))

/-- A word of one dash and more: the option of its letter. -/
def ofShort (level : Level) (word : Text) : Word :=
  match level.spelled? (word.take 2) with
  | some o => known o false (some (word.drop 2))
  | none => ofUnmatched word

/-- A word that starts with a dash and is no spelling of an option by itself. -/
def ofDashed (level : Level) (word : Text) : Except UsageError Word :=
  let long := ['-', '-'].isPrefixOf word
  let (spelling, value) := cutAtEqual word
  match level.spelled? spelling, value with
  | some o, some value => .ok (known o long (some value))
  | _, _ => if long then ofLong level word else .ok (ofShort level word)

/-- What a word other than `--` is to the command. -/
def of (level : Level) (word : Text) : Except UsageError Word :=
  match level.spelled? word with
  | some o => .ok (known o (['-', '-'].isPrefixOf word) none)
  | none =>
    if ['-'].isPrefixOf word && word.length ≠ 1 then ofDashed level word else .ok plain

/-- What each word is to the command. -/
def ofAll (level : Level) : List Text → Except UsageError (List (Text × Word))
  | [] => .ok []
  | word :: words =>
    if word = ['-', '-'] then .ok ((word, dashes) :: words.map (·, plain))
    else do
      let first ← of level word
      let others ← ofAll level words
      return (word, first) :: others

end Word

end HclQuery.Command
