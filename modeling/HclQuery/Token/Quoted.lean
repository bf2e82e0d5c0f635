/-
  Quoted strings and the templates in them: where the string that starts at a quote ends.

  A string ends at the next quote that is not behind a backslash and not inside a template, and
  has no line feed outside templates. `${` and `%{` open a template, `$${` and `%%{` do not. A
  template ends at the brace that matches its own; strings inside it nest. Both kinds of nesting
  are one stack of frames, walked one character at a time.
-/
import HclQuery.Failure

namespace HclQuery.Quoted

/-- What an open string or template waits for: a quote, or a closing brace. -/
inductive Frame where
  | quote
  | brace
  deriving DecidableEq

/-- What is wrong if the input ends inside the frame. -/
def Frame.unterminated : Frame → Problem
  | quote => .unterminatedQuoted
  | brace => .unterminatedTemplate

/-- The character `c` and the text after it open a template. -/
def opensTemplate (c : Char) (cs : Text) : Bool :=
  (c = '$' || c = '%') && ['{'].isPrefixOf cs

/-- The character `c` and the text after it are a doubled `$` or `%` before a brace, which stands
    for itself. -/
def escapesTemplate (c : Char) (cs : Text) : Bool :=
  (c = '$' || c = '%') && [c, '{'].isPrefixOf cs

/-- One step inside a string: how many of the characters after `c` belong to `c`, and whether a
    frame opens (`some`) or the string closes. A line feed is no step. -/
inductive Step where
  | stay (more : Nat)
  | enter (more : Nat) (frame : Frame)
  | leave

/-- The step at `c` inside a string. -/
def stepInString (c : Char) (cs : Text) : Option Step :=
  if c = '\\' then some (.stay 1)
  else if c = '"' then some .leave
  else if c = '\n' then none
  else if escapesTemplate c cs then some (.stay 2)
  else if opensTemplate c cs then some (.enter 1 .brace)
  else some (.stay 0)

/-- The step at `c` inside the braces of a template. -/
def stepInTemplate (c : Char) : Step :=
  if c = '"' then .enter 0 .quote
  else if c = '{' then .enter 0 .brace
  else if c = '}' then .leave
  else .stay 0

/-- The step at `c` inside the given frame. -/
def Frame.step : Frame → Char → Text → Option Step
  | quote, c, cs => stepInString c cs
  | brace, c, _ => some (stepInTemplate c)

/-- How many characters it takes to close `frame` and all the frames around it, of which `skip`
    are passed over unread. -/
def extent (skip : Nat) (frame : Frame) (outer : List Frame) : Text → Except Problem Nat
  | [] => .error frame.unterminated
  | c :: cs =>
    match skip with
    | skip + 1 => (extent skip frame outer cs).map (· + 1)
    | 0 =>
      match frame.step c cs with
      | none => .error .unterminatedQuoted
      | some (.stay more) => (extent more frame outer cs).map (· + 1)
      | some (.enter more inner) => (extent more inner (frame :: outer) cs).map (· + 1)
      | some .leave =>
        match outer with
        | [] => .ok 1
        | next :: rest => (extent 0 next rest cs).map (· + 1)

/-- The size of the string whose opening quote stands before the text, that quote not counted. -/
def size (t : Text) : Except Problem Nat :=
  extent 0 .quote [] t

end HclQuery.Quoted
