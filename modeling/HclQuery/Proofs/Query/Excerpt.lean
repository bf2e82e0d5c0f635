/-
  What a query writes, as an excerpt of the source.

  Values are not evaluated. `Excerpt` says where an attribute lies among the tokens of a source;
  its `text` starts at the first token behind the first `=` and ends with the last token that is
  not the line end. The HCL of the attribute is this text behind the address, and its value is what
  stands before the first comment, less the blanks at the end (`exists_excerpt`). So both are cut
  from the source in one piece.
-/
import HclQuery.Proofs.Document.ValueText
import HclQuery.Proofs.Query.ReadBack

namespace HclQuery

/-! ## Tokens without the blanks in front -/

namespace Token

/-- The text that the tokens stand for, without the blanks in front of the first. -/
def textOf : List Token → Text
  | [] => []
  | t :: ts => t.text ++ sourceOf ts

theorem textOf_append_of_ne_nil {ts : List Token} (h : ts ≠ []) (us : List Token) :
    textOf (ts ++ us) = textOf ts ++ sourceOf us := by
  cases ts with
  | nil => exact absurd rfl h
  | cons t ts => simp only [List.cons_append, textOf, sourceOf_append, List.append_assoc]

/-- Fewer tokens stand for the start of the text. -/
theorem textOf_prefix {ts us : List Token} (h : ts <+: us) : textOf ts <+: textOf us := by
  obtain ⟨vs, rfl⟩ := h
  by_cases hnil : ts = []
  · rw [hnil]
    exact List.nil_prefix
  · rw [textOf_append_of_ne_nil hnil]
    exact List.prefix_append _ _

theorem sourceOf_spaced {ts : List Token} (h : ts ≠ []) :
    sourceOf (spaced ts) = ' ' :: textOf ts := by
  cases ts with
  | nil => exact absurd rfl h
  | cons t ts => rfl

end Token

namespace Attribute

/-- The value, without a look at the blanks in front. -/
theorem textBefore_eq_dropEndWhile {t : Token} {ts : List Token} (h : WellShaped (t :: ts))
    (hnewline : t.kind ≠ .newline) :
    textBefore (t :: ts) = Text.dropEndWhile Unicode.isBlank
      (Token.textOf ((t :: ts).takeWhile (·.kind ≠ .comment))) := by
  unfold textBefore
  by_cases hcomment : t.kind = .comment
  · rw [List.takeWhile_cons_of_neg (by simpa using hcomment)]
    rfl
  · obtain ⟨c, cs, htext, hc⟩ := h.head t List.mem_cons_self hnewline
    rw [List.takeWhile_cons_of_pos (by simpa using hcomment), Token.sourceOf_cons,
      List.append_assoc, Text.strip_blank_append (h.leading t List.mem_cons_self), Token.textOf,
      htext, List.cons_append, Text.strip_cons hc]

end Attribute

/-! ## Excerpts -/

/-- The attribute lies in the source, and its expression in the attribute: `front` is what stands
    before the first `=`, `first :: more` what stands behind it, and `lineEnd` is the line end in
    last place, if there is one. -/
structure Excerpt (source : Text) (a : Attribute) where
  before : List Token
  front : List Token
  equal : Token
  first : Token
  more : List Token
  lineEnd : List Token
  after : List Token
  cut : Token.ofText source = .ok (before ++ a.tokens ++ after)
  tokens_eq : a.tokens = front ++ equal :: (first :: more ++ lineEnd)
  front_kind : ∀ t ∈ front, t.kind ≠ .equal
  equal_kind : equal.kind = .equal
  last_kind : ∀ t ∈ (first :: more).getLast?, t.kind ≠ .newline
  lineEnd_kind : lineEnd = [] ∨ ∃ t, lineEnd = [t] ∧ t.kind = .newline

namespace Excerpt

variable {source : Text} {a : Attribute}

/-- What stands in the source before the excerpt. -/
def ahead (e : Excerpt source a) : Text :=
  Token.sourceOf (e.before ++ e.front ++ [e.equal]) ++ e.first.leading

/-- What stands in the source from the first token of the expression to its last. -/
def text (e : Excerpt source a) : Text :=
  Token.textOf (e.first :: e.more)

/-- What stands in the source behind the excerpt. -/
def behind (e : Excerpt source a) : Text :=
  Token.sourceOf (e.lineEnd ++ e.after)

/-- What stands in the excerpt before its first comment. -/
def uncommented (e : Excerpt source a) : Text :=
  Token.textOf ((e.first :: e.more).takeWhile (·.kind ≠ .comment))

/-- The excerpt is one piece of the source. -/
theorem source_eq (e : Excerpt source a) : source = e.ahead ++ e.text ++ e.behind := by
  have hsource := (Token.ofTextFrom_eq_ok_iff.mp e.cut).sourceOf_eq
  rw [e.tokens_eq] at hsource
  refine hsource.symm.trans ?_
  rw [ahead, text, behind, Token.textOf]
  simp

theorem uncommented_prefix (e : Excerpt source a) : e.uncommented <+: e.text :=
  Token.textOf_prefix (List.takeWhile_prefix _)

end Excerpt

namespace Document

open Grammar

/-- Every attribute of a document lies in the source, with all of its expression. -/
theorem exists_excerpt_of_site {filename : String} {source : Text} {d : Document}
    (h : parse filename source = .ok d) (s : Site d.body) :
    ∃ e : Excerpt source s.attr, s.attr.exprTokens = e.first :: e.more := by
  obtain ⟨-, -, first, more, hexpr, -⟩ := value_of_site h s
  obtain ⟨before, name, equal, value, ending, after, hts, hattr, ha⟩ := exists_assignment h s
  obtain ⟨lineEnd, hending, hlineEnd⟩ := Attribute.exists_withoutLineEnd_append ending
  have hsplit : first :: more = value ++ Attribute.withoutLineEnd ending := by
    rw [← hexpr, ha, Attribute.exprTokens_assignment hattr]
  have hname : name.kind ≠ .equal := by
    rw [hattr.name_kind]
    decide
  have htokens : s.attr.tokens = [name] ++ equal :: (first :: more ++ lineEnd) := by
    rw [ha, hsplit, List.append_assoc, hending]
    rfl
  exact ⟨{
    before, equal, first, more, lineEnd, after
    front := [name]
    cut := by rw [ha, List.append_assoc]; exact hts
    tokens_eq := htokens
    front_kind := by simpa using hname
    equal_kind := hattr.equal_kind
    last_kind := by rw [hsplit]; exact last_expr_ne_newline hattr
    lineEnd_kind := hlineEnd }, hexpr⟩

end Document

/-! ## What is written -/

namespace Query

open Document

/-- What a query writes of an attribute that is found stands in the source in one piece. The HCL is
    the address, ` = ` and the text from the first token behind the first `=` to the last token but
    for the line end. The value is what stands in it before the first comment, without the blanks
    at its end. -/
theorem exists_excerpt {filename : String} {source address : Text} {d : Document} {found : Lookup}
    {a : Attribute} (h : parse filename source = .ok d)
    (hfind : d.body.findAttribute address = .ok found) (ha : found.attribute? = some a) :
    ∃ e : Excerpt source a, source = e.ahead ++ e.text ++ e.behind ∧
      (get filename address .hcl).run source =
        .ok (address ++ " = ".toList ++ e.text ++ ['\n']) ∧
      ∃ v, (get filename address .value).run source = .ok (v ++ ['\n']) ∧
        v = Text.dropEndWhile Unicode.isBlank e.uncommented ∧ v <+: e.text := by
  have hne := ne_nil_of_findAttribute hfind
  obtain rfl : d.body.lookup (Address.ofText address) = found :=
    Except.ok.inj ((Body.findAttribute_of_ne_nil hne d.body).symm.trans hfind)
  have hhcl := run_hcl_of_found h hne ha
  obtain ⟨v, hv, hwrites⟩ := writesValue_of_found h hne ha
  obtain ⟨s, rfl⟩ := Body.exists_site_of_lookup ha
  obtain ⟨e, hexpr⟩ := exists_excerpt_of_site h s
  obtain ⟨hvalue, hwell, first, more, hexpr', hnewline⟩ := value_of_site h s
  obtain ⟨rfl, rfl⟩ := List.cons.inj (hexpr.symm.trans hexpr')
  have htext : v = Text.dropEndWhile Unicode.isBlank e.uncommented := by
    rw [hexpr] at hvalue hwell
    rw [← Except.ok.inj (hvalue.symm.trans hv)]
    exact Attribute.textBefore_eq_dropEndWhile hwell hnewline
  refine ⟨e, e.source_eq, ?_, v, hwrites.value, htext, ?_⟩
  · rw [hhcl, Token.copyText, hexpr, Token.sourceOf_spaced (List.cons_ne_nil _ _)]
    simp [Excerpt.text]
  · obtain ⟨blanks, hblanks, -⟩ :=
      Text.exists_dropEndWhile_append Unicode.isBlank e.uncommented
    rw [htext]
    exact List.IsPrefix.trans ⟨blanks, hblanks.symm⟩ e.uncommented_prefix

/-- The list with a comment on one of its elements is written in one piece as HCL, and up to the
    comment as a value. -/
theorem exists_excerpt_commentInList :
    ∃ d found a, parse unnamedSource commentInList = .ok d ∧
      d.body.findAttribute "a".toList = .ok found ∧ found.attribute? = some a ∧
      ∃ e : Excerpt commentInList a, commentInList = e.ahead ++ e.text ++ e.behind ∧
        (get unnamedSource "a".toList .hcl).run commentInList =
          .ok ("a".toList ++ " = ".toList ++ e.text ++ ['\n']) ∧
        ∃ v, (get unnamedSource "a".toList .value).run commentInList = .ok (v ++ ['\n']) ∧
          v = Text.dropEndWhile Unicode.isBlank e.uncommented ∧ v <+: e.text := by
  have hfinds : finds "a".toList commentInList (fun _ => true) = true := by decide +kernel
  obtain ⟨d, found, a, hd, hfound, ha, -⟩ := exists_of_finds hfinds (by decide)
  exact ⟨d, found, a, hd, hfound, ha, exists_excerpt hd hfound ha⟩

end Query

end HclQuery
