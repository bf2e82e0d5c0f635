/-
  Where tokens begin and end.

  What is read as a name, as an `=`, as a comment or as a line end is one, as a whole: nothing in it
  belongs to its neighbours, and nothing behind it belongs to it (`Lexeme.isName_of_read`,
  `isEqual_of_read`, `isComment_of_read`, `isLineEnd_of_read`). `Token.Bounded` says the same of a
  token in front of other tokens, and every token of a source has these boundaries:
  `Token.boundaries_maximal`.
-/
import HclQuery.Proofs.Token.Comments
import HclQuery.Proofs.Token.Spacing

namespace HclQuery

namespace Lexeme

variable {c : Char} {w rest : Text}

/-- A lexeme that is read as a name is one, and what follows does not belong to it. -/
theorem isName_of_read (h : read c (w ++ rest) = .ok ⟨.ident, w.length⟩) :
    (Unicode.isWord c = true ∧ Unicode.isDecimal c = false) ∧
      (∀ d ∈ w, Heredoc.continuesName d = true) ∧
      ∀ d ∈ rest.head?, Heredoc.continuesName d = false := by
  obtain ⟨hword, hdecimal, hlen⟩ := ident_of_read h rfl
  obtain ⟨hall, hnone⟩ := Text.takeWhile_whole hlen
  exact ⟨⟨hword, hdecimal⟩, hall, Text.takeWhile_eq_nil_iff_head?.mp hnone⟩

/-- A lexeme that is read as an `=` is nothing else, and what follows makes it nothing else. -/
theorem isEqual_of_read (h : read c (w ++ rest) = .ok ⟨.equal, w.length⟩) :
    c :: w = ['='] ∧ ∀ d ∈ rest.head?, d ≠ '=' ∧ d ≠ '>' := by
  obtain ⟨rfl, hlen, hnext⟩ := equal_of_read h rfl
  obtain rfl := List.length_eq_zero_iff.mp hlen
  exact ⟨rfl, hnext⟩

end Lexeme

namespace Token

/-- The token begins and ends where it should in front of the tokens `after`. Spaces and tabs stand
    before it, and it has a text unless it is the blanks at the end of a source. A name goes on as
    far as it can, and an `=` starts no longer spelling. A comment that is no block ends with its
    line, and a line end is cut off behind it if anything is. -/
structure Bounded (u : Token) (after : List Token) : Prop where
  leading : ∀ c ∈ u.leading, c = ' ' ∨ c = '\t'
  text : u.text = [] → u.kind = .newline ∧ u.leading ≠ [] ∧ after = []
  ident : u.kind = .ident → ∃ c w, u.text = c :: w ∧
    (Unicode.isWord c = true ∧ Unicode.isDecimal c = false) ∧
    (∀ d ∈ w, Heredoc.continuesName d = true) ∧
    ∀ d ∈ (sourceOf after).head?, Heredoc.continuesName d = false
  equal : u.kind = .equal →
    u.text = ['='] ∧ ∀ d ∈ (sourceOf after).head?, d ≠ '=' ∧ d ≠ '>'
  comment : u.kind = .comment → ∃ mark, IsComment mark u.text ∧
    (mark = ['/', '*'] ∨ ∀ v ∈ after.head?, v.kind = .newline ∧ v.leading = [])
  newline : u.kind = .newline → u.text = [] ∨ Heredoc.IsLineEnd u.text

variable {u : Token} {before after : List Token} {source : Text}

/-- A token that stands in front of those behind it has its boundaries there. -/
theorem Stands.bounded {below : Int} (h : u.Stands (sourceOf after))
    (hafter : Cuts below (sourceOf after) after) : u.Bounded after where
  leading c hc := by simpa [isLeading] using h.leading c hc
  text hnil := by
    rcases h.read with ⟨-, hkind, hne, hrest⟩ | ⟨c, w, htext, -, -⟩
    · rw [hrest] at hafter
      exact ⟨hkind, hne, hafter.eq_nil⟩
    · rw [hnil] at htext
      cases htext
  ident hkind := by
    obtain ⟨c, w, htext, hread⟩ := h.exists_read (by rw [hkind]; decide)
    rw [hkind] at hread
    exact ⟨c, w, htext, Lexeme.isName_of_read hread⟩
  equal hkind := by
    obtain ⟨c, w, htext, hread⟩ := h.exists_read (by rw [hkind]; decide)
    rw [hkind] at hread
    rw [htext]
    exact Lexeme.isEqual_of_read hread
  comment hkind := by
    obtain ⟨c, w, htext, hread⟩ := h.exists_read (by rw [hkind]; decide)
    rw [hkind] at hread
    obtain ⟨mark, hcomment, hends⟩ := Lexeme.isComment_of_read hread
    rw [← htext] at hcomment
    refine ⟨mark, hcomment, hends.imp_right fun hnone => ?_⟩
    -- a carriage return alone starts no lexeme, so one that stops a comment is part of a line end
    exact hafter.isLineEnd_head (Text.takeWhile_eq_nil_iff_head?.mp hnone)
  newline hkind := by
    rcases h.read with ⟨hnil, -⟩ | ⟨c, w, htext, -, hread⟩
    · exact Or.inl hnil
    · rw [hkind] at hread
      rw [htext]
      exact Or.inr (Lexeme.isLineEnd_of_read hread)

/-- Every token of a source has its boundaries where it stands. -/
theorem boundaries_maximal (h : ofText source = .ok (before ++ u :: after)) :
    source = sourceOf before ++ (u.source ++ sourceOf after) ∧ u.Bounded after := by
  have hcuts := ofTextFrom_eq_ok_iff.mp h
  obtain ⟨hstands, below, hafter⟩ := hcuts.stands_at
  refine ⟨?_, hstands.bounded hafter⟩
  rw [← hcuts.sourceOf_eq, sourceOf_append, sourceOf_cons, Token.source]

/-- Two `<` that begin no heredoc, a comment in front of a carriage return, a block comment that its
    own mark does not close, and a blank at the end. -/
theorem boundaries_maximal_twoComments :
    (∃ before u after, ofText "a-1=b<<c#d\r\n/*/e*/\t".toList = .ok (before ++ u :: after) ∧
      u.kind = .comment ∧ u.text = "#d".toList ∧
      "a-1=b<<c#d\r\n/*/e*/\t".toList = sourceOf before ++ (u.source ++ sourceOf after) ∧
      u.Bounded after) ∧
    (∃ before u after, ofText "a-1=b<<c#d\r\n/*/e*/\t".toList = .ok (before ++ u :: after) ∧
      u.kind = .comment ∧ u.text = "/*/e*/".toList ∧
      "a-1=b<<c#d\r\n/*/e*/\t".toList = sourceOf before ++ (u.source ++ sourceOf after) ∧
      u.Bounded after) := by
  have htokens : ofText "a-1=b<<c#d\r\n/*/e*/\t".toList = .ok
      ([⟨.ident, "a-1".toList, [], 1⟩, ⟨.equal, ['='], [], 1⟩, ⟨.ident, ['b'], [], 1⟩,
        ⟨.operator, ['<'], [], 1⟩, ⟨.operator, ['<'], [], 1⟩, ⟨.ident, ['c'], [], 1⟩] ++
      ⟨.comment, "#d".toList, [], 1⟩ :: ([⟨.newline, ['\r', '\n'], [], 1⟩] ++
      ⟨.comment, "/*/e*/".toList, [], 2⟩ :: [⟨.newline, [], ['\t'], 2⟩])) := by decide +kernel
  refine ⟨⟨_, _, _, htokens, rfl, rfl, boundaries_maximal htokens⟩, ?_⟩
  rw [← List.cons_append, ← List.append_assoc] at htokens
  exact ⟨_, _, _, htokens, rfl, rfl, boundaries_maximal htokens⟩

end Token

end HclQuery
