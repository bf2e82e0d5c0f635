/-
  What can go wrong, as causes, and the one place that puts each cause into words.

  * `Problem`: why a text is not HCL. A `Fault` adds the line, a `ParseError` the source's name.
  * `Failure`: why a query on a text has no answer.
-/
import HclQuery.Text.Quoted

namespace HclQuery

/-- Results are compared by what they hold. -/
instance decEqExcept {ε α : Type} [DecidableEq ε] [DecidableEq α] : DecidableEq (Except ε α)
  | .ok a, .ok b => decidable_of_iff (a = b) (by rw [Except.ok.injEq])
  | .error e, .error f => decidable_of_iff (e = f) (by rw [Except.error.injEq])
  | .ok _, .error _ => isFalse nofun
  | .error _, .ok _ => isFalse nofun

/-- Why a text is not HCL. Token texts and names are kept as they stand in the source. -/
inductive Problem where
  | unterminatedQuoted
  | unterminatedTemplate
  | unterminatedComment
  | unterminatedHeredoc (marker : Text)
  | unexpectedCharacter (c : Char)
  | unexpectedCloseBrace
  | expectedItem (found : Text)
  | unbalanced (found name : Text)
  | unclosedBracket (name : Text)
  | missingValue (name : Text)
  | unexpectedInHeader (found type : Text)
  | missingOpenBrace (type : Text)
  | templateInLabel (label : Text)
  | unclosedBlock (type : Text)
  deriving DecidableEq

open Text in
/-- The words for a problem. -/
def Problem.message : Problem → String
  | unterminatedQuoted => "unterminated quoted string"
  | unterminatedTemplate => "unterminated template sequence"
  | unterminatedComment => "unterminated block comment"
  | unterminatedHeredoc marker =>
    s!"unterminated heredoc, expected closing marker {quoted marker}"
  | unexpectedCharacter c => s!"unexpected character {quoted [c]}"
  | unexpectedCloseBrace => "unexpected '\x7d'"
  | expectedItem found => s!"expected attribute or block, got {quoted found}"
  | unbalanced found name => s!"unbalanced {quoted found} in value of {quoted name}"
  | unclosedBracket name => s!"unclosed bracket in value of {quoted name}"
  | missingValue name => s!"missing value for attribute {quoted name}"
  | unexpectedInHeader found type => s!"unexpected {quoted found} in header of block {quoted type}"
  | missingOpenBrace type => s!"missing '\x7b' after header of block {quoted type}"
  | templateInLabel label =>
    s!"template sequences are not allowed in block labels: {String.ofList label}"
  | unclosedBlock type => s!"unclosed block {quoted type}"

/-- A problem and the line that it is on. -/
structure Fault where
  line : Int
  problem : Problem
  deriving DecidableEq

/-- A fault in the source of the given name. -/
structure ParseError where
  filename : String
  fault : Fault
  deriving DecidableEq

/-- The name given to a source that has none. -/
def unnamedSource : String := "<stdin>"

/-- A message with its place in front: the source's name, and the line if one is known. -/
def located (filename : String) (line : Option Int) (what : String) : String :=
  match line with
  | some n => s!"{filename}:{n}: {what}"
  | none => s!"{filename}: {what}"

/-- The words for a parse error, its place in front. -/
def ParseError.message (e : ParseError) : String :=
  located e.filename (some e.fault.line) e.fault.problem.message

/-- Why a query has no answer. -/
inductive Failure where
  /-- The text is not HCL. -/
  | unreadable (e : ParseError)
  /-- The address has no segments. -/
  | emptyAddress
  /-- The attribute that was found has no `=`. -/
  | noEqual (name : Text)
  /-- There is no output format of this name. -/
  | unknownFormat (name : Text)
  deriving DecidableEq

/-- The words for a failure. -/
def Failure.message : Failure → String
  | unreadable e => e.message
  | emptyAddress => "failed to parse address. address is empty"
  | noEqual name => s!"failed to find '=' in attribute {Text.quoted name}"
  | unknownFormat name => s!"{Text.quoted name} is not a valid OutputFormat"

end HclQuery
