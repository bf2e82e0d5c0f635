/-
  Lexemes: what stands at the front of a text that does not start with a blank.

  A lexeme is its first character and so many more; `read` finds it by the first rule that
  applies. In order: quoted strings, block comments, heredocs, line ends, line comments, numbers,
  names, and the fixed spellings, longer ones first. The rules for strings, block comments and
  heredocs can fail on a text that starts as they do; `<<` without a heredoc header falls through
  to the fixed spellings.
-/
import HclQuery.Token.Basic
import HclQuery.Token.Heredoc
import HclQuery.Token.Quoted
import HclQuery.Unicode.Decimal

namespace HclQuery

/-- A kind, and the number of characters after the first one. -/
structure Lexeme where
  kind : TokenKind
  more : Nat
  deriving DecidableEq

namespace Lexeme

/-- The text of the lexeme at the front of `c :: cs`. -/
def text (l : Lexeme) (c : Char) (cs : Text) : Text :=
  c :: cs.take l.more

/-- The input after the lexeme at the front of a character and `cs`. -/
def rest (l : Lexeme) (cs : Text) : Text :=
  cs.drop l.more

theorem text_append_rest (l : Lexeme) (c : Char) (cs : Text) :
    l.text c cs ++ l.rest cs = c :: cs := by
  simp [text, rest]

theorem length_rest_le (l : Lexeme) (cs : Text) : (l.rest cs).length ≤ cs.length := by
  simp [rest]

/-- The size of a block comment's rest, `*/` included, from the character after `/*` on. -/
def commentSize? : Text → Option Nat
  | [] => none
  | c :: cs => if c = '*' && ['/'].isPrefixOf cs then some 2 else (commentSize? cs).map (· + 1)

/-- The number of decimal digits at the front. -/
def digits (t : Text) : Nat :=
  (t.takeWhile Unicode.isDecimal).length

/-- The size of the fraction at the front, a point and digits, or 0 if there is none. -/
def fractionSize : Text → Nat
  | '.' :: cs => if digits cs = 0 then 0 else 1 + digits cs
  | _ => 0

/-- The size of the exponent at the front, a letter, a sign perhaps, and digits, or 0. -/
def exponentSize : Text → Nat
  | [] => 0
  | c :: cs =>
    let sign := if ['+'].isPrefixOf cs || ['-'].isPrefixOf cs then 1 else 0
    let power := digits (cs.drop sign)
    if (c = 'e' || c = 'E') && power ≠ 0 then 1 + sign + power else 0

/-- The size of what follows the first digit of a number. -/
def numberRest (t : Text) : Nat :=
  let whole := digits t
  let fraction := fractionSize (t.drop whole)
  whole + fraction + exponentSize (t.drop (whole + fraction))

/-- A character that is no part of a line end. -/
def insideLine (c : Char) : Bool :=
  c ≠ '\r' && c ≠ '\n'

/-- The lexemes with one spelling: the first character, those after it, and the kind. An entry
    stands before every entry that its spelling extends. -/
def spellings : List (Char × Text × TokenKind) :=
  [('=', ['='], .operator), ('!', ['='], .operator), ('<', ['='], .operator),
   ('>', ['='], .operator), ('&', ['&'], .operator), ('|', ['|'], .operator),
   ('=', ['>'], .operator), ('.', ['.', '.'], .operator), ('-', [], .operator),
   ('+', [], .operator), ('*', [], .operator), ('/', [], .operator), ('%', [], .operator),
   ('!', [], .operator), ('<', [], .operator), ('>', [], .operator), ('?', [], .operator),
   (':', [], .operator), ('=', [], .equal), ('{', [], .openBrace), ('}', [], .closeBrace),
   ('[', [], .openBracket), (']', [], .closeBracket), ('(', [], .openParen),
   (')', [], .closeParen), (',', [], .comma), ('.', [], .dot)]

/-- A line end: a line feed, with a carriage return before it or without. -/
def lineEnd? (c : Char) (cs : Text) : Option Lexeme :=
  match Heredoc.lineEndSize (c :: cs) with
  | 0 => none
  | more + 1 => some ⟨.newline, more⟩

/-- A comment up to the end of its line. -/
def lineComment? (c : Char) (cs : Text) : Option Lexeme :=
  if c = '#' || (c = '/' && ['/'].isPrefixOf cs) then
    some ⟨.comment, (cs.takeWhile insideLine).length⟩
  else none

/-- A number. -/
def number? (c : Char) (cs : Text) : Option Lexeme :=
  if Unicode.isDecimal c then some ⟨.number, numberRest cs⟩ else none

/-- A name: it starts with a word character that is no digit, and dashes may follow. -/
def ident? (c : Char) (cs : Text) : Option Lexeme :=
  if Unicode.isWord c && !Unicode.isDecimal c then
    some ⟨.ident, (cs.takeWhile Heredoc.continuesName).length⟩
  else none

/-- The first of the fixed spellings that stands at the front. -/
def fixed? (c : Char) (cs : Text) : Option Lexeme :=
  (spellings.find? fun s => s.1 = c && s.2.1.isPrefixOf cs).map fun s => ⟨s.2.2, s.2.1.length⟩

/-- The lexemes whose rules cannot fail once they apply. -/
def plain? (c : Char) (cs : Text) : Option Lexeme :=
  lineEnd? c cs <|> lineComment? c cs <|> number? c cs <|> ident? c cs <|> fixed? c cs

/-- The heredoc header at the front, if there is one. -/
def heredocHeader? (c : Char) (cs : Text) : Option Heredoc.Header :=
  if c = '<' then Heredoc.header? cs else none

/-- The lexeme at the front of `c :: cs`. -/
def read (c : Char) (cs : Text) : Except Problem Lexeme :=
  if c = '"' then (Quoted.size cs).map (⟨.string, ·⟩)
  else if c = '/' && ['*'].isPrefixOf cs then
    match commentSize? (cs.drop 1) with
    | some n => .ok ⟨.comment, 1 + n⟩
    | none => .error .unterminatedComment
  else
    match heredocHeader? c cs with
    | some header => (Heredoc.size header cs).map (⟨.heredoc, ·⟩)
    | none =>
      match plain? c cs with
      | some l => .ok l
      | none => .error (.unexpectedCharacter c)

end Lexeme

end HclQuery
