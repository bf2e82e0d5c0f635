/-
  Addresses: dotted paths such as `resource.aws_instance.foo.ami`. The last segment names an
  attribute, the segments before it lead to blocks. Splitting knows no escapes, and a segment may
  be empty; only the empty text is no address.
-/
import HclQuery.Failure

namespace HclQuery

/-- An address: the segments that lead to blocks, none for an attribute of the body itself, and
    the attribute's name. -/
structure Address where
  way : List Text
  name : Text
  deriving DecidableEq

namespace Address

/-- All segments, in order. -/
def segments (a : Address) : List Text :=
  a.way ++ [a.name]

/-- The address that a text spells, cut at its dots. -/
def ofText (t : Text) : Address where
  way := (Text.splitAt '.' t).dropLast
  name := Text.afterLast '.' t

/-- The address that a text spells, unless the text is empty. -/
def parse (t : Text) : Except Failure Address :=
  if t.isEmpty then .error .emptyAddress else .ok (ofText t)

theorem segments_ofText (t : Text) : (ofText t).segments = Text.splitAt '.' t :=
  List.dropLast_concat_getLast (Text.splitAt_ne_nil '.' t)

/-- The text that spells the segments. -/
def dotted (segments : List Text) : Text :=
  ['.'].intercalate segments

end Address

end HclQuery
