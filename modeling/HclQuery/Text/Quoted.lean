/-
  How a message or a log line shows a text: in quotes, with whatever would not show escaped.

  The quote is `'`, or `"` for a text that holds `'` and no `"`. The backslash, the quote in use,
  line feed, carriage return and tab have escapes of two characters; any other character that is
  not printable is written by its code point in the least of two, four or eight hex digits.
-/
import HclQuery.Text.Basic
import HclQuery.Unicode.Printable

namespace HclQuery.Text

/-- The lower-case hex digits of `n`, padded with zeros to `width`. -/
def hex (width n : Nat) : Text :=
  let digits := Nat.toDigits 16 n
  List.replicate (width - digits.length) '0' ++ digits

/-- The quote that a shown text stands in. -/
def outerQuote (t : Text) : Char :=
  if t.contains '\'' && !t.contains '"' then '"' else '\''

/-- One character of a shown text, in the quote `q`. -/
def showChar (q c : Char) : Text :=
  if c = '\\' || c = q then ['\\', c]
  else if c = '\n' then ['\\', 'n']
  else if c = '\r' then ['\\', 'r']
  else if c = '\t' then ['\\', 't']
  else if Unicode.isPrintable c then [c]
  else if c.toNat < 0x100 then '\\' :: 'x' :: hex 2 c.toNat
  else if c.toNat < 0x10000 then '\\' :: 'u' :: hex 4 c.toNat
  else '\\' :: 'U' :: hex 8 c.toNat

/-- The text as messages and log lines show it. -/
def quoted (t : Text) : String :=
  let q := outerQuote t
  String.ofList (q :: t.flatMap (showChar q) ++ [q])

/-- A list of texts as log lines show it. -/
def quotedList (ts : List Text) : String :=
  "[" ++ String.intercalate ", " (ts.map quoted) ++ "]"

end HclQuery.Text
