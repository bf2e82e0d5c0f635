/-
  Answers as YAML: two entries, in ASCII, with lines folded after 80 columns.

  A text is written plain where it reads back as the same text, in single quotes where only its
  look is in the way, and in double quotes where it needs escapes. `Style.of` decides which.
  Continuation lines are indented by two spaces.
-/
import HclQuery.Answer.Basic
import HclQuery.Text.Pattern
import HclQuery.Text.Quoted

namespace HclQuery.Yaml

/-! ## Texts that plain YAML reads as something else -/

open Pattern in
/-- A sign, or none. -/
def sign : Pattern :=
  optional (among "+-")

open Pattern in
/-- A decimal digit. -/
def digit : Pattern :=
  range '0' '9'

open Pattern in
/-- Digits and underscores. -/
def digitsOrBars : Pattern :=
  many (among "0123456789_")

open Pattern in
/-- An exponent with its sign, or none. -/
def exponent : Pattern :=
  optional (sequence [among "eE", among "+-", oneOrMore digit])

open Pattern in
/-- Further places in base sixty, each after a colon. -/
def sixtieths : Pattern :=
  oneOrMore (sequence [literal ":", optional (range '0' '5'), digit])

open Pattern in
/-- Truth values, nothing, and the two marks with a meaning of their own. -/
def reservedWords : Pattern :=
  anyOf (["yes", "Yes", "YES", "no", "No", "NO", "true", "True", "TRUE", "false", "False",
    "FALSE", "on", "On", "ON", "off", "Off", "OFF", "~", "null", "Null", "NULL", "", "=",
    "<<"].map literal)

open Pattern in
/-- Whole numbers: binary, octal, decimal, hexadecimal, and in base sixty. -/
def wholeNumbers : Pattern :=
  anyOf [
    sequence [sign, literal "0b", oneOrMore (among "01_")],
    sequence [sign, literal "0", oneOrMore (among "01234567_")],
    sequence [sign, either (literal "0") (seq (range '1' '9') digitsOrBars)],
    sequence [sign, literal "0x", oneOrMore (among "0123456789abcdefABCDEF_")],
    sequence [sign, range '1' '9', digitsOrBars, sixtieths]]

open Pattern in
/-- Numbers with a point, infinity, and what is no number. -/
def pointNumbers : Pattern :=
  anyOf [
    sequence [sign, digit, digitsOrBars, literal ".", digitsOrBars, exponent],
    sequence [literal ".", digit, digitsOrBars, exponent],
    sequence [sign, digit, digitsOrBars, sixtieths, literal ".", digitsOrBars],
    sequence [sign, anyOf ([".inf", ".Inf", ".INF"].map literal)],
    anyOf ([".nan", ".NaN", ".NAN"].map literal)]

open Pattern in
/-- One digit or two. -/
def shortNumber : Pattern :=
  seq digit (optional digit)

open Pattern in
/-- Dates, and dates with a time of day and perhaps a zone. -/
def timestamps : Pattern :=
  let blanks := many (among " \t")
  let zone := seq blanks (either (literal "Z")
    (sequence [among "+-", shortNumber, optional (seq (literal ":") (times 2 digit))]))
  let timeOfDay := sequence [shortNumber, literal ":", times 2 digit, literal ":", times 2 digit,
    optional (seq (literal ".") (many digit)), optional zone]
  anyOf [
    sequence [times 4 digit, literal "-", times 2 digit, literal "-", times 2 digit],
    sequence [times 4 digit, literal "-", shortNumber, literal "-", shortNumber,
      either (among "Tt") (oneOrMore (among " \t")), timeOfDay]]

/-- Plain, the text would not be read as text. -/
def readsOtherwise (t : Text) : Bool :=
  (Pattern.anyOf [reservedWords, wholeNumbers, pointNumbers, timestamps]).matchesText t

/-! ## Style -/

/-- How a text is written. -/
inductive Style where
  | plain
  | single
  | double
  deriving DecidableEq

/-- The character has to be escaped wherever it stands. -/
def isSpecial (c : Char) : Bool :=
  c ≠ '\n' && !(0x20 ≤ c.toNat && c.toNat ≤ 0x7E)

/-- Somewhere in the text, `p` holds of a character and the next one. -/
def anyAdjacent (p : Char → Char → Bool) (t : Text) : Bool :=
  (t.zip t.tail).any fun (a, b) => p a b

/-- Only double quotes keep the text: a special character, or a space beside a line feed. -/
def needsEscapes (t : Text) : Bool :=
  t.any isSpecial ||
    anyAdjacent (fun a b => (a = ' ' && b = '\n') || (a = '\n' && b = ' ')) t

/-- The text starts with something that plain YAML takes for a mark. -/
def startsWithMark (t : Text) : Bool :=
  "---".toList.isPrefixOf t || "...".toList.isPrefixOf t ||
    match t with
    | [] => false
    | c :: cs =>
      "#,[]\x7b\x7d&*!|>'\"%@`".toList.contains c ||
        ("?:-".toList.contains c && (cs.isEmpty || [' '].isPrefixOf cs))

/-- The text holds, after its first character, a colon at the end of a word, or a `#` at the
    start of one. -/
def holdsMark (t : Text) : Bool :=
  anyAdjacent (fun a b => (a = ' ' && b = '#')) t ||
    anyAdjacent (fun a b => (a = ':' && b = ' ')) t.tail ||
    t.tail.getLast? = some ':'

/-- The text can stand without quotes. -/
def canBePlain (t : Text) : Bool :=
  !t.isEmpty && !t.contains '\n' && t.head? ≠ some ' ' && t.getLast? ≠ some ' ' &&
    !startsWithMark t && !holdsMark t && !readsOtherwise t

/-- The style in which the text is written. -/
def Style.of (t : Text) : Style :=
  if needsEscapes t then double
  else if canBePlain t then plain
  else single

/-! ## Writing -/

/-- A column past this one ends its line at the next chance. -/
def width : Nat := 80

/-- A line break and the indentation of a continuation line, which is its first two columns. -/
def foldBreak : Text := ['\n', ' ', ' ']

/-- The runs of spaces, of line feeds, and of other characters, in order. -/
def runs (t : Text) : List Text :=
  t.splitBy fun a b => (a = ' ') = (b = ' ') && (a = '\n') = (b = '\n')

/-- Writes the runs of a plain text from the given column on. -/
def writePlain (column : Nat) : List Text → Text
  | [] => []
  | run :: rest =>
    if run = [' '] && column > width then foldBreak ++ writePlain 2 rest
    else run ++ writePlain (column + run.length) rest

/-- A run inside single quotes: a quote is doubled. -/
def doubleQuotes (run : Text) : Text :=
  run.flatMap fun c => if c = '\'' then ['\'', '\''] else [c]

/-- Writes the runs of a text in single quotes from the given column on. `inside` says that runs
    came before; a space folds only between runs. -/
def writeSingle (column : Nat) (inside : Bool) : List Text → Text
  | [] => []
  | run :: rest =>
    if run.head? = some '\n' then
      '\n' :: run ++ [' ', ' '] ++ writeSingle 2 true rest
    else if run = [' '] && inside && !rest.isEmpty && column > width then
      foldBreak ++ writeSingle 2 true rest
    else
      let shown := doubleQuotes run
      shown ++ writeSingle (column + shown.length) true rest

/-- The letter that escapes a character, for the characters that have one. -/
def escapeLetters : List (Char × Char) :=
  [('\x00', '0'), ('\x07', 'a'), ('\x08', 'b'), ('\t', 't'), ('\n', 'n'), ('\x0b', 'v'),
   ('\x0c', 'f'), ('\r', 'r'), ('\x1b', 'e'), ('"', '"'), ('\\', '\\'), ('\u0085', 'N'),
   ('\u00a0', '_'), ('\u2028', 'L'), ('\u2029', 'P')]

/-- Upper-case hex digits, padded to `width`. -/
def upperHex (width n : Nat) : Text :=
  (Text.hex width n).map Char.toUpper

/-- The escape of a character inside double quotes, if it needs one. -/
def escape? (c : Char) : Option Text :=
  match escapeLetters.find? (·.1 = c) with
  | some (_, letter) => some ['\\', letter]
  | none =>
    if 0x20 ≤ c.toNat && c.toNat ≤ 0x7E then none
    else if c.toNat < 0x100 then some ('\\' :: 'x' :: upperHex 2 c.toNat)
    else if c.toNat < 0x10000 then some ('\\' :: 'u' :: upperHex 4 c.toNat)
    else some ('\\' :: 'U' :: upperHex 8 c.toNat)

/-- A fold inside double quotes before `next`, and the column after it. A space that would start
    the new line is held by a backslash. -/
def foldBefore (next : Option Char) : Text × Nat :=
  if next = some ' ' then ('\\' :: foldBreak ++ ['\\'], 3) else ('\\' :: foldBreak, 2)

/-- Writes a text in double quotes. `held` are characters that stand after `column` but are not
    written yet; a line folds before a space, or right after an escape or a fold, and never at
    the first or last character. -/
def writeDouble (column : Nat) (held : Text) (inside : Bool) : Text → Text
  | [] => held
  | c :: cs =>
    let mayFold := inside && !cs.isEmpty
    match escape? c with
    | some e =>
      let column := column + held.length + e.length
      if mayFold && column > width + 1 then
        let (break_, column) := foldBefore cs.head?
        held ++ e ++ break_ ++ writeDouble column [] true cs
      else held ++ e ++ writeDouble column [] true cs
    | none =>
      if mayFold && (c = ' ' || held.isEmpty) && column + held.length > width then
        let (break_, column) := foldBefore (some c)
        held ++ break_ ++ writeDouble column [c] true cs
      else writeDouble column (held ++ [c]) true cs

/-- A text after a key that ends at the given column. -/
def scalar (column : Nat) (t : Text) : Text :=
  match Style.of t with
  | .plain => ' ' :: writePlain (column + 1) (runs t)
  | .single => [' ', '\''] ++ writeSingle (column + 2) false (runs t) ++ ['\'']
  | .double => [' ', '"'] ++ writeDouble (column + 2) [] false t ++ ['"']

/-- An entry of a mapping: a key, and a text or nothing. -/
def entry (key : String) (value : Option Text) : Text :=
  let start := key.toList ++ [':']
  match value with
  | some t => start ++ scalar start.length t ++ ['\n']
  | none => start ++ " null\n".toList

end HclQuery.Yaml

namespace HclQuery

/-- The answer as a YAML mapping, line end included. -/
def Answer.yaml (a : Answer) : Text :=
  Yaml.entry "address" (some a.address) ++ Yaml.entry "value" a.value

end HclQuery
