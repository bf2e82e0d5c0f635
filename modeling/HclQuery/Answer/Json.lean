/-
  Answers as JSON, on one line and in ASCII. A character that JSON cannot hold as it is, or that
  is not printable ASCII, is escaped: by a letter if JSON has one, else by its UTF-16 code units.
-/
import HclQuery.Answer.Basic
import HclQuery.Text.Quoted

namespace HclQuery.Json

/-- The escape of one UTF-16 code unit. -/
def unitEscape (unit : Nat) : Text :=
  '\\' :: 'u' :: Text.hex 4 unit

/-- A character inside a JSON string. -/
def encodeChar (c : Char) : Text :=
  if c = '"' then ['\\', '"']
  else if c = '\\' then ['\\', '\\']
  else if c = '\n' then ['\\', 'n']
  else if c = '\r' then ['\\', 'r']
  else if c = '\t' then ['\\', 't']
  else if c = '\x08' then ['\\', 'b']
  else if c = '\x0c' then ['\\', 'f']
  else if 0x20 ≤ c.toNat && c.toNat ≤ 0x7E then [c]
  else if c.toNat < 0x10000 then unitEscape c.toNat
  else
    let above := c.toNat - 0x10000
    unitEscape (0xD800 + above / 0x400) ++ unitEscape (0xDC00 + above % 0x400)

/-- A JSON string, quotes included. -/
def string (t : Text) : Text :=
  '"' :: t.flatMap encodeChar ++ ['"']

/-- A JSON string, or `null`. -/
def stringOrNull : Option Text → Text
  | some t => string t
  | none => "null".toList

end HclQuery.Json

namespace HclQuery

/-- The answer as a JSON object. -/
def Answer.json (a : Answer) : Text :=
  "\x7b\"address\": ".toList ++ Json.string a.address ++ ", \"value\": ".toList ++
    Json.stringOrNull a.value ++ ['}']

end HclQuery
