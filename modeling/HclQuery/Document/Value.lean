/-
  What an attribute says, as source text.

  * `Attribute.exprTokens`: the tokens after the first `=`, less one line end at their end.
  * `Attribute.value`: the text after the first `=` up to the first comment, less the blanks at
    its ends. It is there exactly when the attribute has an `=` (`value_eq_error_iff`).
-/
import HclQuery.Document.Basic

namespace HclQuery.Attribute

/-- The tokens after the first `=`, if there is one. -/
def afterEqual? (a : Attribute) : Option (List Token) :=
  match a.tokens.dropWhile (·.kind ≠ .equal) with
  | [] => none
  | _ :: ts => some ts

/-- The tokens without a line end in last place. -/
def withoutLineEnd (ts : List Token) : List Token :=
  match ts.getLast? with
  | some t => if t.kind = .newline then ts.dropLast else ts
  | none => []

/-- The tokens of the expression, with the comment that ends its line. -/
def exprTokens (a : Attribute) : List Token :=
  match a.afterEqual? with
  | some ts => withoutLineEnd ts
  | none => []

/-- The text of the expression up to its first comment, unevaluated. -/
def value (a : Attribute) : Except Failure Text :=
  match a.afterEqual? with
  | some ts => .ok (Text.strip (Token.sourceOf (ts.takeWhile (·.kind ≠ .comment))))
  | none => .error (.noEqual a.name)

theorem afterEqual?_eq_none_iff {a : Attribute} :
    a.afterEqual? = none ↔ ∀ t ∈ a.tokens, t.kind ≠ .equal := by
  unfold afterEqual?
  generalize a.tokens = ts
  induction ts with
  | nil => simp
  | cons t ts ih => by_cases h : t.kind = .equal <;> simp_all

theorem value_eq_error_iff {a : Attribute} :
    a.value = .error (.noEqual a.name) ↔ ∀ t ∈ a.tokens, t.kind ≠ .equal := by
  rw [← afterEqual?_eq_none_iff]
  unfold value
  cases a.afterEqual? <;> simp

end HclQuery.Attribute
