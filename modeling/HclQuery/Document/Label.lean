/-
  Block labels in quotes: what a quoted label says. A label may not hold a template, and a
  backslash stands for the character that follows it only in the five escapes listed here.
-/
import HclQuery.Token.Quoted

namespace HclQuery.Label

/-- Somewhere in the text stands what opens a template, `${` or `%{`. -/
def holdsTemplate : Text → Bool
  | [] => false
  | c :: cs => Quoted.opensTemplate c cs || holdsTemplate cs

/-- What a backslash and the character after it stand for. -/
def unescapePair (c : Char) : Text :=
  if c = 'n' then ['\n']
  else if c = 't' then ['\t']
  else if c = 'r' then ['\r']
  else if c = '"' then ['"']
  else if c = '\\' then ['\\']
  else ['\\', c]

/-- The text with its escapes resolved, from left to right. -/
def unescape : Text → Text
  | [] => []
  | [c] => [c]
  | c :: d :: cs => if c = '\\' then unescapePair d ++ unescape cs else c :: unescape (d :: cs)

/-- What the label of this spelling, quotes included, says; nothing if it holds a template. -/
def decode? (spelling : Text) : Option Text :=
  let inner := (spelling.drop 1).dropLast
  if holdsTemplate inner then none else some (unescape inner)

end HclQuery.Label
