/-
  The expression of an assignment, and its value as text.

  The expression is the value of the grammar and the comment that ends the line, if there is one:
  `exprTokens_assignment`. The text of the value is what stands before the first comment, and it
  does not matter for it which blanks stand around the expression: `textBefore_append_newline`,
  `textBefore_modifyHead`.
-/
import HclQuery.Document.Value
import HclQuery.Document.Edit
import HclQuery.Proofs.Document.Phrases
import HclQuery.Proofs.Token.Shape

namespace HclQuery

/-! ## The expression -/

namespace Attribute

open Grammar

variable {name equal : Token} {value ending rest : List Token}

theorem afterEqual?_assignment (hname : name.kind = .ident) (hequal : equal.kind = .equal)
    (text : Text) (ts : List Token) :
    (⟨text, name :: equal :: ts⟩ : Attribute).afterEqual? = some ts := by
  simp [afterEqual?, hname, hequal]

/-- At most one line end is taken away. -/
theorem exists_withoutLineEnd_append (ts : List Token) :
    ∃ lineEnd, withoutLineEnd ts ++ lineEnd = ts ∧
      (lineEnd = [] ∨ ∃ t, lineEnd = [t] ∧ t.kind = .newline) := by
  unfold withoutLineEnd
  cases hlast : ts.getLast? with
  | none =>
    rw [List.getLast?_eq_none_iff] at hlast
    exact ⟨[], hlast.symm, Or.inl rfl⟩
  | some t =>
    dsimp only
    obtain ⟨us, rfl⟩ := List.getLast?_eq_some_iff.mp hlast
    by_cases hkind : t.kind = .newline
    · rw [if_pos hkind, List.dropLast_concat]
      exact ⟨[t], rfl, Or.inr ⟨t, rfl, hkind⟩⟩
    · rw [if_neg hkind]
      exact ⟨[], List.append_nil _, Or.inl rfl⟩

theorem withoutLineEnd_prefix (ts : List Token) : withoutLineEnd ts <+: ts := by
  obtain ⟨lineEnd, h, -⟩ := exists_withoutLineEnd_append ts
  exact ⟨lineEnd, h⟩

theorem withoutLineEnd_append {ts us : List Token} (h : us ≠ []) :
    withoutLineEnd (ts ++ us) = ts ++ withoutLineEnd us := by
  unfold withoutLineEnd
  rw [List.getLast?_append, List.getLast?_eq_some_getLast h, Option.some_or]
  dsimp only
  split
  · rw [List.dropLast_append_of_ne_nil h]
  · rfl

theorem withoutLineEnd_append_newline {t : Token} (hkind : t.kind = .newline) (ts : List Token) :
    withoutLineEnd (ts ++ [t]) = ts := by
  rw [withoutLineEnd_append (List.cons_ne_nil t [])]
  simp [withoutLineEnd, hkind]

theorem withoutLineEnd_of_last {ts : List Token} (h : ∀ t ∈ ts.getLast?, t.kind ≠ .newline) :
    withoutLineEnd ts = ts := by
  unfold withoutLineEnd
  cases hlast : ts.getLast? with
  | none => rw [List.getLast?_eq_none_iff.mp hlast]
  | some t =>
    dsimp only
    rw [if_neg (h t hlast)]

end Attribute

namespace Grammar

variable {name equal : Token} {value ending rest : List Token}

theorem netDepth_concat {t : Token} (h : t.isTrivia = true) (ts : List Token) :
    netDepth (ts ++ [t]) = netDepth ts := by
  unfold netDepth
  rw [List.countP_append, List.countP_append, List.countP_singleton, List.countP_singleton]
  cases hkind : t.kind <;>
    simp_all [Token.isTrivia, TokenKind.isTrivia, TokenKind.isOpening, TokenKind.isClosing]

/-- No value ends with a line end: it would stand outside all brackets. -/
theorem Nested.last_ne_newline {depth : Nat} (h : Nested depth value rest) :
    ∀ t ∈ value.getLast?, t.kind ≠ .newline := by
  intro t ht hkind
  obtain ⟨before, rfl⟩ := List.getLast?_eq_some_iff.mp ht
  have hclosed := h.closed
  rw [netDepth_concat (by rw [Token.isTrivia, hkind]; rfl)] at hclosed
  exact (h.oneLine before t [] rfl hclosed).1 hkind

end Grammar

namespace Attribute

open Grammar

variable {name equal : Token} {value ending rest : List Token}

/-- The expression is the value and, if there is one, the comment that ends the line. -/
theorem exprTokens_assignment (h : IsAttribute name equal value ending rest) (text : Text) :
    (⟨text, name :: equal :: (value ++ ending)⟩ : Attribute).exprTokens =
      value ++ withoutLineEnd ending := by
  unfold exprTokens
  rw [afterEqual?_assignment h.name_kind h.equal_kind]
  dsimp only
  by_cases hnil : ending = []
  · rw [hnil, List.append_nil, withoutLineEnd_of_last h.nested.last_ne_newline]
    simp [withoutLineEnd]
  · exact withoutLineEnd_append hnil

/-! ## The text of the value -/

/-- The text of the tokens up to the first comment, without the blanks at its ends. -/
def textBefore (ts : List Token) : Text :=
  Text.strip (Token.sourceOf (ts.takeWhile (·.kind ≠ .comment)))

theorem value_eq_textBefore {a : Attribute} {ts : List Token} (h : a.afterEqual? = some ts) :
    a.value = .ok (textBefore ts) := by
  rw [value, h, textBefore]

/-- A line end behind the tokens makes no difference. -/
theorem textBefore_append_newline {t : Token} (hkind : t.kind = .newline)
    (hblank : ∀ c ∈ t.source, Unicode.isBlank c = true) (ts : List Token) :
    textBefore (ts ++ [t]) = textBefore ts := by
  unfold textBefore
  rw [List.takeWhile_append]
  split
  · rename_i hall
    have htake : [t].takeWhile (·.kind ≠ .comment) = [t] := by simp [hkind]
    rw [htake, (List.takeWhile_prefix _).eq_of_length hall, Token.sourceOf_append,
      Text.strip_append_blank]
    intro c hc
    refine hblank c ?_
    simpa [Token.source] using hc
  · rfl

theorem textBefore_withoutLineEnd {ts : List Token}
    (hblank : ∀ t ∈ ts.getLast?, t.kind = .newline → ∀ c ∈ t.source, Unicode.isBlank c = true) :
    textBefore (withoutLineEnd ts) = textBefore ts := by
  by_cases hlast : ∃ t ∈ ts.getLast?, t.kind = .newline
  · obtain ⟨t, ht, hkind⟩ := hlast
    have hsource := hblank t ht hkind
    obtain ⟨us, rfl⟩ := List.getLast?_eq_some_iff.mp ht
    rw [withoutLineEnd_append_newline hkind, textBefore_append_newline hkind hsource]
  · rw [withoutLineEnd_of_last fun t ht hkind => hlast ⟨t, ht, hkind⟩]

/-- Nor do the blanks in front of them. -/
theorem textBefore_modifyHead {blanks : Text} (hblanks : ∀ c ∈ blanks, Unicode.isBlank c = true)
    {ts : List Token} (hts : ∀ t ∈ ts.head?, ∀ c ∈ t.leading, Unicode.isBlank c = true) :
    textBefore (ts.modifyHead ({ · with leading := blanks })) = textBefore ts := by
  cases ts with
  | nil => rfl
  | cons t ts =>
    unfold textBefore
    rw [List.modifyHead_cons]
    by_cases hkind : t.kind = .comment
    · simp [hkind]
    · rw [List.takeWhile_cons_of_pos (by simpa using hkind),
        List.takeWhile_cons_of_pos (by simpa using hkind), Token.sourceOf_cons,
        Token.sourceOf_cons, List.append_assoc, List.append_assoc, Text.strip_blank_append hblanks,
        Text.strip_blank_append (hts t rfl)]

theorem afterEqual?_ofExpr (name : Text) (expr : List Token) :
    (ofExpr name expr).afterEqual? = some
      (expr.modifyHead ({ · with leading := [' '] }) ++ [⟨.newline, ['\n'], [], 1⟩]) :=
  afterEqual?_assignment rfl rfl name _

/-- The value of an assignment is that of its expression, behind one space. -/
theorem value_ofExpr_eq (name : Text) (expr : List Token) :
    (ofExpr name expr).value =
      .ok (textBefore (expr.modifyHead ({ · with leading := [' '] }))) := by
  rw [value_eq_textBefore (afterEqual?_ofExpr name expr),
    textBefore_append_newline rfl (by simp [Token.source, Text.isBlank_lineFeed])]

/-- A copy of the expression, on a line of its own, has the same value. -/
theorem value_ofExpr (name : Text) {expr : List Token}
    (hexpr : ∀ t ∈ expr.head?, ∀ c ∈ t.leading, Unicode.isBlank c = true) :
    (ofExpr name expr).value = .ok (textBefore expr) := by
  rw [value_ofExpr_eq, textBefore_modifyHead (by simp [Text.isBlank_space]) hexpr]

/-! ## Values of a document -/

/-- The texts of the tokens are as good tokens have them: blank for line ends, and for others
    starting with a character that is not blank and, but for comments and heredocs, ending with
    one. -/
structure WellShaped (ts : List Token) : Prop where
  leading : ∀ t ∈ ts, ∀ c ∈ t.leading, Unicode.isBlank c = true
  newline : ∀ t ∈ ts, t.kind = .newline → ∀ c ∈ t.text, Unicode.isBlank c = true
  head : ∀ t ∈ ts, t.kind ≠ .newline → ∃ c cs, t.text = c :: cs ∧ Unicode.isBlank c = false
  last : ∀ t ∈ ts, t.kind ≠ .newline → t.kind ≠ .comment → t.kind ≠ .heredoc →
    ∀ c ∈ t.text.getLast?, Unicode.isBlank c = false

theorem WellShaped.of_cuts {line : Int} {t : Text} {ts us : List Token}
    (h : Token.Cuts line t ts) (hsub : ∀ u ∈ us, u ∈ ts) : WellShaped us where
  leading u hu := h.isBlank_leading (hsub u hu)
  newline u hu := h.isBlank_of_newline (hsub u hu)
  head u hu := h.exists_head (hsub u hu)
  last u hu hnewline hcomment hheredoc _ hc :=
    h.isBlank_last (hsub u hu) hnewline hcomment hheredoc hc

theorem WellShaped.mono {ts us : List Token} (h : WellShaped ts) (hsub : ∀ u ∈ us, u ∈ ts) :
    WellShaped us where
  leading u hu := h.leading u (hsub u hu)
  newline u hu := h.newline u (hsub u hu)
  head u hu := h.head u (hsub u hu)
  last u hu := h.last u (hsub u hu)

theorem WellShaped.tail {t : Token} {ts : List Token} (h : WellShaped (t :: ts)) :
    WellShaped ts :=
  h.mono fun _ hu => List.mem_cons_of_mem t hu

end Attribute

namespace Document

open Grammar

/-- What is known of an attribute of a document that was read: its value is the text of its
    expression, whose tokens are those of a source, and which does not start with a line end. -/
theorem value_of_site {filename : String} {source : Text} {d : Document}
    (h : parse filename source = .ok d) (s : Site d.body) :
    s.attr.value = .ok (Attribute.textBefore s.attr.exprTokens) ∧
      Attribute.WellShaped s.attr.exprTokens ∧
      ∃ t ts, s.attr.exprTokens = t :: ts ∧ t.kind ≠ .newline := by
  obtain ⟨before, name, equal, value, ending, after, hts, hattr, ha⟩ := exists_assignment h s
  have hcuts := Token.ofTextFrom_eq_ok_iff.mp hts
  have hwell : Attribute.WellShaped (value ++ ending) :=
    .of_cuts hcuts fun u hu => by simp only [List.mem_append, List.mem_cons] at hu ⊢; tauto
  have hafter : s.attr.afterEqual? = some (value ++ ending) := by
    rw [ha]
    exact Attribute.afterEqual?_assignment hattr.name_kind hattr.equal_kind _ _
  have hexpr : s.attr.exprTokens = Attribute.withoutLineEnd (value ++ ending) := by
    rw [Attribute.exprTokens, hafter]
  refine ⟨?_, ?_, ?_⟩
  · rw [Attribute.value_eq_textBefore hafter, hexpr, Attribute.textBefore_withoutLineEnd]
    intro t ht hkind c hc
    have hmem := List.mem_of_getLast? ht
    rcases List.mem_append.mp hc with hc | hc
    · exact hwell.leading t hmem c hc
    · exact hwell.newline t hmem hkind c hc
  · rw [hexpr]
    exact hwell.mono fun u hu => (Attribute.withoutLineEnd_prefix _).subset hu
  · obtain ⟨u, hu, -⟩ := hattr.hasValue
    rw [ha, Attribute.exprTokens_assignment hattr]
    cases value with
    | nil => cases hu
    | cons t ts => exact ⟨t, _, rfl, (hattr.nested.oneLine [] t ts rfl rfl).1⟩

end Document

end HclQuery
