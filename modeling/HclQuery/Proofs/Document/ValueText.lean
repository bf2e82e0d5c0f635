/-
  What the text of a value keeps of the expression.

  The text ends before the first comment and has no blanks at its ends. Up to there nothing is
  lost (`value_inOrder`): the texts of the tokens stand in it one after the other, but for line
  ends, and for the blanks behind the marker that closes a heredoc if nothing comes after it. What
  stands behind a comment is not part of the text, even where the comment is inside the expression
  (`not_keepsAll`).
-/
import HclQuery.Proofs.Document.Assignment

namespace HclQuery

/-! ## Texts inside a text -/

namespace Text

/-- The texts stand in `t` one after the other, with anything between them. -/
def InOrder : List Text → Text → Prop
  | [], _ => True
  | s :: ss, t => ∃ before after, t = before ++ s ++ after ∧ InOrder ss after

theorem InOrder.length_le {ss : List Text} {t : Text} (h : InOrder ss t) :
    ss.flatten.length ≤ t.length := by
  induction ss generalizing t with
  | nil => exact Nat.zero_le _
  | cons s ss ih =>
    obtain ⟨before, after, rfl, hss⟩ := h
    have := ih hss
    simp only [List.flatten_cons, List.length_append]
    omega

end Text

/-! ## Tokens up to the first comment -/

namespace Attribute

/-- The tokens before the first comment that are no line ends. -/
def saidTokens (ts : List Token) : List Token :=
  (ts.takeWhile (·.kind ≠ .comment)).filter (·.kind ≠ .newline)

/-- The texts of the tokens; that of a heredoc in last place without the blanks at its end. -/
def saidTexts : List Token → List Text
  | [] => []
  | [t] => [if t.kind = .heredoc then Text.dropEndWhile Unicode.isBlank t.text else t.text]
  | t :: u :: ts => t.text :: saidTexts (u :: ts)

/-- Line ends alone are blank. -/
theorem isBlank_sourceOf {ts : List Token} (h : WellShaped ts)
    (hall : ts.filter (·.kind ≠ .newline) = []) :
    ∀ c ∈ Token.sourceOf ts, Unicode.isBlank c = true := by
  intro c hc
  obtain ⟨t, ht, hct⟩ := List.mem_flatMap.mp hc
  have hkind : t.kind = .newline := by
    have := List.filter_eq_nil_iff.mp hall t ht
    simpa using this
  rcases List.mem_append.mp hct with hct | hct
  · exact h.leading t ht c hct
  · exact h.newline t ht hkind c hct

/-- A token that is no line end is not blank. -/
theorem exists_not_blank {ts : List Token} (h : WellShaped ts)
    (hne : ts.filter (·.kind ≠ .newline) ≠ []) :
    ∃ c ∈ Token.sourceOf ts, Unicode.isBlank c = false := by
  obtain ⟨t, ht⟩ := List.exists_mem_of_ne_nil _ hne
  rw [List.mem_filter] at ht
  obtain ⟨c, cs, htext, hc⟩ := h.head t ht.1 (by simpa using ht.2)
  refine ⟨c, List.mem_flatMap.mpr ⟨t, ht.1, ?_⟩, hc⟩
  simp [Token.source, htext]

/-- The last text that is said, without the blanks at its end. -/
theorem dropEndWhile_text {t : Token} {ts : List Token} (h : WellShaped (t :: ts))
    (hnewline : t.kind ≠ .newline) (hcomment : t.kind ≠ .comment) :
    Text.dropEndWhile Unicode.isBlank t.text =
      if t.kind = .heredoc then Text.dropEndWhile Unicode.isBlank t.text else t.text := by
  split
  · rfl
  · rename_i hheredoc
    obtain ⟨c, cs, htext, -⟩ := h.head t List.mem_cons_self hnewline
    have hlast : ∃ d, t.text.getLast? = some d := by
      rw [htext]
      exact ⟨_, List.getLast?_eq_some_getLast (List.cons_ne_nil c cs)⟩
    obtain ⟨d, hd⟩ := hlast
    exact Text.dropEndWhile_append_of_not (t := []) hd
      (h.last t List.mem_cons_self hnewline hcomment hheredoc d hd)

/-- One more token in front that is no line end. -/
theorem inOrder_cons {t : Token} {ts : List Token} (h : WellShaped (t :: ts))
    (hnewline : t.kind ≠ .newline) (hcomment : t.kind ≠ .comment)
    (hts : Text.InOrder (saidTexts (ts.filter (·.kind ≠ .newline)))
      (Text.dropEndWhile Unicode.isBlank (Token.sourceOf ts))) (before : Text) :
    Text.InOrder (saidTexts (t :: ts.filter (·.kind ≠ .newline)))
      (Text.dropEndWhile Unicode.isBlank (before ++ (t.text ++ Token.sourceOf ts))) := by
  cases hsaid : ts.filter (·.kind ≠ .newline) with
  | nil =>
    obtain ⟨c, cs, htext, hc⟩ := h.head t List.mem_cons_self hnewline
    rw [← List.append_assoc, Text.dropEndWhile_append_of_all (isBlank_sourceOf h.tail hsaid),
      Text.dropEndWhile_append_of_exists _ ⟨c, by rw [htext]; exact List.mem_cons_self, hc⟩]
    refine ⟨before, [], ?_, trivial⟩
    rw [List.append_nil]
    exact congrArg _ (dropEndWhile_text h hnewline hcomment)
  | cons u us =>
    have hmore := exists_not_blank h.tail (by rw [hsaid]; exact List.cons_ne_nil u us)
    rw [← List.append_assoc, Text.dropEndWhile_append_of_exists _ hmore]
    rw [hsaid] at hts
    exact ⟨before, _, rfl, hts⟩

/-- Stripping the end of the tokens takes no more than that from what they say. -/
theorem inOrder_dropEndWhile {ts : List Token} (h : WellShaped ts)
    (hcomment : ∀ t ∈ ts, t.kind ≠ .comment) (before : Text) :
    Text.InOrder (saidTexts (ts.filter (·.kind ≠ .newline)))
      (Text.dropEndWhile Unicode.isBlank (before ++ Token.sourceOf ts)) := by
  induction ts generalizing before with
  | nil => trivial
  | cons t ts ih =>
    have htail := ih h.tail fun u hu => hcomment u (List.mem_cons_of_mem t hu)
    rw [Token.sourceOf_cons]
    by_cases hnewline : t.kind = .newline
    · rw [List.filter_cons_of_neg (by simp [hnewline]), ← List.append_assoc]
      exact htail _
    · rw [List.filter_cons_of_pos (by simpa using hnewline), List.append_assoc,
        ← List.append_assoc]
      exact inOrder_cons h hnewline (hcomment t List.mem_cons_self) (htail []) _

/-- What stands before the first comment is kept, if it does not start with a line end. -/
theorem textBefore_inOrder {ts : List Token} (h : WellShaped ts)
    (hhead : ∀ t ∈ ts.head?, t.kind ≠ .newline) :
    Text.InOrder (saidTexts (saidTokens ts)) (textBefore ts) ∧
      ((∃ t ∈ ts.head?, t.kind ≠ .comment) → textBefore ts ≠ []) := by
  unfold textBefore saidTokens
  cases ts with
  | nil => exact ⟨trivial, by simp⟩
  | cons t ts =>
    by_cases hcomment : t.kind = .comment
    · rw [List.takeWhile_cons_of_neg (by simpa using hcomment)]
      exact ⟨trivial, by simp [hcomment]⟩
    · have hnewline := hhead t rfl
      obtain ⟨c, cs, htext, hc⟩ := h.head t List.mem_cons_self hnewline
      have hwell : WellShaped (t :: ts.takeWhile (·.kind ≠ .comment)) := by
        refine h.mono fun u hu => ?_
        rcases List.mem_cons.mp hu with rfl | hu
        · exact List.mem_cons_self
        · exact List.mem_cons_of_mem t ((List.takeWhile_sublist _).subset hu)
      have hfree : ∀ u ∈ ts.takeWhile (·.kind ≠ .comment), u.kind ≠ .comment := by
        intro u hu
        simpa using List.all_eq_true.mp List.all_takeWhile u hu
      have hkept := inOrder_dropEndWhile hwell.tail hfree []
      rw [List.takeWhile_cons_of_pos (by simpa using hcomment),
        List.filter_cons_of_pos (by simpa using hnewline), Token.sourceOf_cons, List.append_assoc,
        Text.strip_blank_append (h.leading t List.mem_cons_self)]
      rw [htext, List.cons_append, Text.strip_cons hc]
      refine ⟨?_, fun _ => Text.dropEndWhile_ne_nil ⟨c, List.mem_cons_self, hc⟩⟩
      have hcons := inOrder_cons hwell hnewline hcomment hkept []
      rw [List.nil_append, htext, List.cons_append] at hcons
      exact hcons

end Attribute

/-! ## Values of a document -/

namespace Document

open Grammar

/-- An attribute of a document that was read has a value. Up to its first comment the expression
    stands in it, token for token: line ends alone are not promised, nor the blanks at the end of a
    heredoc that comes last. It is not empty unless the expression starts with a comment. -/
theorem value_inOrder {filename : String} {source : Text} {d : Document}
    (h : parse filename source = .ok d) (s : Site d.body) :
    ∃ v, s.attr.value = .ok v ∧
      Text.InOrder (Attribute.saidTexts (Attribute.saidTokens s.attr.exprTokens)) v ∧
      ((∀ t ∈ s.attr.exprTokens.head?, t.kind ≠ .comment) → v ≠ []) := by
  obtain ⟨hvalue, hwell, t, ts, hexpr, hnewline⟩ := value_of_site h s
  have hhead : ∀ u ∈ s.attr.exprTokens.head?, u = t := by
    rw [hexpr]
    intro u hu
    exact (Option.some.inj hu).symm
  obtain ⟨hin, hne⟩ := Attribute.textBefore_inOrder hwell fun u hu => by
    rw [hhead u hu]
    exact hnewline
  refine ⟨_, hvalue, hin, fun hcomment => hne ⟨t, by rw [hexpr]; rfl, ?_⟩⟩
  exact hcomment t (by rw [hexpr]; rfl)

/-- A heredoc with blanks behind the marker that closes it. -/
def blanksBehindMarker : Text :=
  "a = <<EOT\nx\nEOT  \n".toList

/-- The attribute in `blanksBehindMarker`. -/
def heredocAttribute : Attribute where
  name := ['a']
  tokens :=
    [⟨.ident, ['a'], [], 1⟩, ⟨.equal, ['='], [' '], 1⟩,
      ⟨.heredoc, "<<EOT\nx\nEOT  ".toList, [' '], 1⟩, ⟨.newline, ['\n'], [], 3⟩]

/-- A list with a comment on one of its elements. -/
def commentInList : Text :=
  "a = [1, # one\n2]\n".toList

/-- The attribute in `commentInList`. -/
def listAttribute : Attribute where
  name := ['a']
  tokens :=
    [⟨.ident, ['a'], [], 1⟩, ⟨.equal, ['='], [' '], 1⟩, ⟨.openBracket, ['['], [' '], 1⟩,
      ⟨.number, ['1'], [], 1⟩, ⟨.comma, [','], [], 1⟩, ⟨.comment, "# one".toList, [' '], 1⟩,
      ⟨.newline, ['\n'], [], 1⟩, ⟨.number, ['2'], [], 2⟩, ⟨.closeBracket, [']'], [], 2⟩,
      ⟨.newline, ['\n'], [], 2⟩]

theorem parse_blanksBehindMarker :
    parse "a.tf" blanksBehindMarker = .ok ⟨[.attribute heredocAttribute], "a.tf"⟩ := by
  decide +kernel

theorem parse_commentInList :
    parse "a.tf" commentInList = .ok ⟨[.attribute listAttribute], "a.tf"⟩ := by
  decide +kernel

/-- The place of the only attribute. -/
def soleSite (a : Attribute) : Site [.attribute a] :=
  ⟨[], [], [], 0, a, .here, rfl⟩

theorem value_inOrder_commentInList :
    parse "a.tf" commentInList = .ok ⟨[.attribute listAttribute], "a.tf"⟩ ∧
      ∃ v, listAttribute.value = .ok v ∧
        Text.InOrder (Attribute.saidTexts (Attribute.saidTokens listAttribute.exprTokens)) v ∧
        ((∀ t ∈ listAttribute.exprTokens.head?, t.kind ≠ .comment) → v ≠ []) :=
  ⟨parse_commentInList, value_inOrder parse_commentInList (soleSite listAttribute)⟩

/-- All that the expressions of a source say, comments and line ends aside, stands in the values,
    and none of these is empty. -/
def KeepsAll (source : Text) : Prop :=
  ∀ filename d, parse filename source = .ok d → ∀ s : Site d.body,
    ∃ v, s.attr.value = .ok v ∧ v ≠ [] ∧
      Text.InOrder ((s.attr.exprTokens.filter (! ·.isTrivia)).map Token.text) v

theorem not_keepsAll_of_length {source v : Text} {a : Attribute}
    (hparse : parse "a.tf" source = .ok ⟨[.attribute a], "a.tf"⟩) (hvalue : a.value = .ok v)
    (hlength : v.length <
      ((a.exprTokens.filter (! ·.isTrivia)).map Token.text).flatten.length) :
    ¬ KeepsAll source := by
  intro h
  obtain ⟨w, hw, -, hin⟩ := h _ _ hparse (soleSite a)
  obtain rfl : v = w := Except.ok.inj (hvalue.symm.trans hw)
  have := hin.length_le
  exact absurd hlength (Nat.not_lt.mpr this)

/-- Not all is kept: of the list only `[1,` is left, and the heredoc loses its last two blanks. -/
theorem not_keepsAll : ¬ KeepsAll commentInList ∧ ¬ KeepsAll blanksBehindMarker := by
  have hlist : listAttribute.value = .ok "[1,".toList := by decide +kernel
  have hheredoc : heredocAttribute.value = .ok "<<EOT\nx\nEOT".toList := by decide +kernel
  exact ⟨not_keepsAll_of_length parse_commentInList hlist (by decide),
    not_keepsAll_of_length parse_blanksBehindMarker hheredoc (by decide)⟩

end Document

end HclQuery
