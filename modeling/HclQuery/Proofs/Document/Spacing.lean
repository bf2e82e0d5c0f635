/-
  Documents with other blanks between the tokens.

  A source that was read may be aligned anew: any of its tokens but the line ends may get other
  spaces and tabs in front of it. It is cut into the same tokens on the same lines
  (`Token.Cuts.realigned`), and the reader does not look at blanks: `parse_realigned`.
-/
import HclQuery.Proofs.Document.Likeness
import HclQuery.Proofs.Token.Spacing

namespace HclQuery

/-- The reader does not look at the blanks in front of a token. -/
theorem Token.Realigned.alike {t u : Token} (h : t.Realigned u) : t.Alike u :=
  Token.alike_of_eq h.kind h.text

namespace Document

/-- If tokens of a source that was read get other blanks in front of them, line ends apart, the
    text that they then spell is cut into just these tokens, and is read as a tree of the same
    shape, with the same names, types and labels. -/
theorem parse_realigned {filename : String} {source : Text} {d : Document} {ts us : List Token}
    (h : parse filename source = .ok d) (hts : Token.ofText source = .ok ts)
    (hus : List.Forall₂ Token.Realigned ts us) :
    Token.ofText (Token.sourceOf us) = .ok us ∧
      ∃ d', parse filename (Token.sourceOf us) = .ok d' ∧
        Body.Like Token.Realigned d.body d'.body := by
  have hcuts := (Token.ofTextFrom_eq_ok_iff.mp hts).realigned hus
  have hcut : Token.ofText (Token.sourceOf us) = .ok us := Token.ofTextFrom_eq_ok_iff.mpr hcuts
  exact ⟨hcut, exists_parse_of_alike (fun t u htu => htu.alike) h hts hcut hus⟩

/-- A source without a blank between its tokens. -/
def tight : Text :=
  "a=1.5//x\nb\"x\"\x7bc=<<-E\n E\n\x7d\n".toList

/-- The token with a tab and a space in front of it, if it is no line end. -/
def indent (t : Token) : Token :=
  if t.kind = .newline then t else { t with leading := ['\t', ' '] }

theorem realigned_indent (t : Token) : t.Realigned (indent t) := by
  unfold indent
  split
  · exact ⟨rfl, rfl, rfl, Or.inl rfl⟩
  · rename_i hkind
    exact ⟨rfl, rfl, rfl, Or.inr ⟨hkind, by simp, by simp [Token.isLeading]⟩⟩

/-- The tight source with blanks in front of every token but the line ends. -/
theorem parse_realigned_tight :
    ∃ d ts, parse "a.tf" tight = .ok d ∧ Token.ofText tight = .ok ts ∧
      List.Forall₂ Token.Realigned ts (ts.map indent) ∧
      Token.ofText (Token.sourceOf (ts.map indent)) = .ok (ts.map indent) ∧
      ∃ d', parse "a.tf" (Token.sourceOf (ts.map indent)) = .ok d' ∧
        Body.Like Token.Realigned d.body d'.body := by
  obtain ⟨d, hd⟩ : ∃ d, parse "a.tf" tight = .ok d := exists_parse_of_isOk (by decide +kernel)
  have hts := ofText_of_parse hd
  have hus : List.Forall₂ Token.Realigned (Body.tokens d.body)
      ((Body.tokens d.body).map indent) :=
    List.forall₂_map_right_iff.mpr (List.forall₂_same.mpr fun t _ => realigned_indent t)
  obtain ⟨hcut, d', hd', hlike⟩ := parse_realigned hd hts hus
  exact ⟨d, _, hd, hts, hus, hcut, d', hd', hlike⟩

end Document

end HclQuery
