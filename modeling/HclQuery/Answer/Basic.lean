/-
  Answers: an address and the text of the attribute found at it, if one was found.
-/
import HclQuery.Text.Basic

namespace HclQuery

/-- An address, and the value at it. The value is source text, quotes included. -/
structure Answer where
  address : Text
  value : Option Text
  deriving DecidableEq

end HclQuery
