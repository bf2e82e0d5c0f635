/-
  Cutting a text into tokens.

  `Token.ofText` reads one lexeme after the other; the spaces and tabs before a lexeme become the
  token's leading blanks, and blanks at the very end of the input become a line end without text.
  Nothing is lost (`sourceOf_ofTextFrom`).
-/
import HclQuery.Token.Lexeme

namespace HclQuery.Token

/-- The blanks that may stand before a token. -/
def isLeading (c : Char) : Bool :=
  c = ' ' || c = '\t'

/-- The tokens of the text, which starts on the given line. -/
def ofTextFrom (line : Int) (t : Text) : Except Fault (List Token) :=
  match _h : t.dropWhile isLeading with
  | [] => .ok (if t.isEmpty then [] else [⟨.newline, [], t, line⟩])
  | c :: cs =>
    match Lexeme.read c cs with
    | .error problem => .error ⟨line, problem⟩
    | .ok l =>
      match ofTextFrom (line + Text.newlines (l.text c cs)) (l.rest cs) with
      | .error fault => .error fault
      | .ok ts => .ok (⟨l.kind, l.text c cs, t.takeWhile isLeading, line⟩ :: ts)
termination_by t.length
decreasing_by
  have := (List.dropWhile_sublist isLeading (l := t)).length_le
  have := l.length_rest_le cs
  simp_all
  omega

/-- The tokens of a whole text. -/
def ofText (t : Text) : Except Fault (List Token) :=
  ofTextFrom 1 t

/-- The tokens spell the text. -/
theorem sourceOf_ofTextFrom {line : Int} {t : Text} {ts : List Token}
    (h : ofTextFrom line t = .ok ts) : sourceOf ts = t := by
  fun_induction ofTextFrom line t generalizing ts with
  | case1 line t hrest =>
    cases h
    split
    · simp_all
    · simp
  | case2 => cases h
  | case3 => cases h
  | case4 line t c cs hrest l _ _ hts ih =>
    cases h
    rw [sourceOf_cons, ih hts, List.append_assoc, Lexeme.text_append_rest, ← hrest,
      List.takeWhile_append_dropWhile]

end HclQuery.Token
