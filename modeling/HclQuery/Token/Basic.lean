/-
  Tokens: pieces of source text with a kind. A token carries the blanks in front of it, so that
  the sources of the tokens of a text, one after the other, are the text itself. Nothing here
  evaluates or rewrites what a token says.
-/
import HclQuery.Text.Basic

namespace HclQuery

/-- The lexical categories of HCL. -/
inductive TokenKind where
  | ident
  | number
  | string
  | heredoc
  | equal
  | openBrace
  | closeBrace
  | openBracket
  | closeBracket
  | openParen
  | closeParen
  | comma
  | dot
  | operator
  | comment
  | newline
  deriving DecidableEq

namespace TokenKind

/-- The kinds that open a bracket, whichever of the three it is. -/
def isOpening : TokenKind → Bool
  | openBrace | openBracket | openParen => true
  | _ => false

/-- The kinds that close a bracket. -/
def isClosing : TokenKind → Bool
  | closeBrace | closeBracket | closeParen => true
  | _ => false

/-- Line ends and comments, which say nothing about a value. -/
def isTrivia : TokenKind → Bool
  | comment | newline => true
  | _ => false

end TokenKind

/-- A piece of source text. `leading` is the run of spaces and tabs in front of it on its line;
    `line` is where `text` starts, counted from 1 in a source, and any number in a token that comes
    from none. -/
structure Token where
  kind : TokenKind
  text : Text
  leading : Text := []
  line : Int := 1
  deriving DecidableEq

namespace Token

/-- The text that the token stands for in the source, blanks included. -/
def source (t : Token) : Text :=
  t.leading ++ t.text

/-- The two tokens say the same, on whatever lines they stand. -/
def agrees (a b : Token) : Bool :=
  a.kind = b.kind && a.text = b.text && a.leading = b.leading

/-- The token is a line end or a comment. -/
def isTrivia (t : Token) : Bool :=
  t.kind.isTrivia

/-- The text that a list of tokens stands for. -/
def sourceOf (ts : List Token) : Text :=
  ts.flatMap source

@[simp] theorem sourceOf_nil : sourceOf [] = [] := rfl

@[simp] theorem sourceOf_cons (t : Token) (ts : List Token) :
    sourceOf (t :: ts) = t.leading ++ t.text ++ sourceOf ts := by
  simp [sourceOf, source]

@[simp] theorem sourceOf_append (ss ts : List Token) :
    sourceOf (ss ++ ts) = sourceOf ss ++ sourceOf ts := by
  simp [sourceOf]

end Token

end HclQuery
