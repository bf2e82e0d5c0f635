/-
  Patterns on whole texts, matched by derivatives: the derivative of a pattern by a character
  matches what may follow that character. A text matches if the pattern left after its last
  character matches the empty text.
-/
import HclQuery.Text.Basic

namespace HclQuery

/-- A set of texts. -/
inductive Pattern where
  | never
  | empty
  | char (p : Char → Bool)
  | seq (first second : Pattern)
  | either (first second : Pattern)
  | many (p : Pattern)

namespace Pattern

/-- The pattern matches the empty text. -/
def nullable : Pattern → Bool
  | never => false
  | empty => true
  | char _ => false
  | seq p q => p.nullable && q.nullable
  | either p q => p.nullable || q.nullable
  | many _ => true

/-- One pattern after the other, as `seq`, with trivial parts left out. -/
def join : Pattern → Pattern → Pattern
  | never, _ => never
  | empty, q => q
  | p, q => seq p q

/-- One pattern or the other, as `either`, with trivial parts left out. -/
def alt : Pattern → Pattern → Pattern
  | never, q => q
  | p, never => p
  | p, q => either p q

/-- What may follow the character `c`. -/
def derive (c : Char) : Pattern → Pattern
  | never => never
  | empty => never
  | char p => if p c then empty else never
  | seq p q => if p.nullable then alt (join (p.derive c) q) (q.derive c) else join (p.derive c) q
  | either p q => alt (p.derive c) (q.derive c)
  | many p => join (p.derive c) (many p)

/-- The pattern matches the whole text. -/
def matchesText (p : Pattern) (t : Text) : Bool :=
  (t.foldl (fun p c => p.derive c) p).nullable

/-! ## Writing patterns -/

/-- One of the listed characters. -/
def among (chars : String) : Pattern :=
  char fun c => chars.toList.contains c

/-- A character from `lo` to `hi`. -/
def range (lo hi : Char) : Pattern :=
  char fun c => lo ≤ c && c ≤ hi

/-- Exactly this text. -/
def literal (s : String) : Pattern :=
  s.toList.foldr (fun c p => seq (char (· = c)) p) empty

/-- One pattern after the other. -/
def sequence (ps : List Pattern) : Pattern :=
  ps.foldr seq empty

/-- Any of the patterns. -/
def anyOf (ps : List Pattern) : Pattern :=
  ps.foldr either never

/-- The pattern or nothing. -/
def optional (p : Pattern) : Pattern :=
  either p empty

/-- The pattern once or more. -/
def oneOrMore (p : Pattern) : Pattern :=
  seq p (many p)

/-- The pattern `n` times. -/
def times (n : Nat) (p : Pattern) : Pattern :=
  sequence (List.replicate n p)

end Pattern

end HclQuery
