/-
  Documents with other line breaks.

  A document without carriage returns that gets one before every line feed is cut into the same
  tokens (`Token.Cuts.crlf`). Names and labels are on one line (`Cuts.rebroken`), so the reader
  takes the tokens as before, and values change only in their line breaks
  (`Attribute.Like.value_crlf`): `parse_crlf`.
-/
import HclQuery.Proofs.Lookup.Transfer
import HclQuery.Proofs.Query.Get
import HclQuery.Proofs.Token.LineBreaks

namespace HclQuery

/-! ## Tokens -/

namespace Token

open Grammar

/-- The second token is the first one with other line breaks, none of which is in the blanks in
    front of it or in a label. -/
structure Rebroken (t u : Token) : Prop where
  crlf_eq : t.crlf = u
  leading : '\n' ∉ t.leading
  label : '\n' ∉ t.text ∨ (¬ IsLabel t ∧ ¬ IsLabel u)

/-- The reader takes a token as it takes it with other line breaks. -/
theorem Rebroken.alike {t u : Token} (h : t.Rebroken u) : t.Alike u := by
  obtain ⟨rfl, -, hlabel⟩ := h
  rcases hlabel with hline | ⟨hno, hno'⟩
  · exact alike_of_eq rfl (Text.crlf_eq_self hline).symm
  · have hstart : ∀ e : Text, (∀ c ∈ e, c ∉ ['\n', '\r']) → (e <+: t.text ↔ e <+: t.crlf.text) := by
      intro e he
      have hsame : e.isPrefixOf t.text = e.isPrefixOf t.crlf.text :=
        (Text.agreeUpTo_crlf t.text).isPrefixOf_eq he
      rw [← List.isPrefixOf_iff_prefix, ← List.isPrefixOf_iff_prefix, hsame]
    constructor
    · rfl
    · exact hstart ['#'] (by simp)
    · exact hstart ['/', '/'] (by simp)
    · exact fun hident => absurd (Or.inl hident) hno
    · exact iff_of_false hno hno'
    · exact fun hlabel => absurd hlabel hno

/-- A string in which a template is opened is no label. -/
theorem not_isLabel_of_template {t : Token} {quote c : Char} {before after : Text}
    (hkind : t.kind = .string) (htext : t.text = quote :: (before ++ c :: '{' :: after))
    (hc : c = '$' ∨ c = '%') (hafter : after ≠ []) : ¬ IsLabel t := by
  have hinside : [c, '{'] <:+: labelInside t := by
    refine ⟨before, after.dropLast, ?_⟩
    rw [labelInside, htext, List.drop_one, List.tail_cons,
      List.dropLast_append_of_ne_nil (List.cons_ne_nil _ _),
      List.dropLast_cons_of_ne_nil (List.cons_ne_nil _ _),
      List.dropLast_cons_of_ne_nil hafter, List.append_assoc]
    rfl
  intro hlabel
  rcases hlabel with hident | ⟨-, hdollar, hpercent⟩
  · rw [hkind] at hident
    cases hident
  · rcases hc with rfl | rfl
    · exact hdollar hinside
    · exact hpercent hinside

/-- Names and labels are on one line. -/
theorem Cuts.rebroken {line : Int} {t : Text} {ts : List Token} (h : Cuts line t ts)
    (hescape : ∀ u ∈ ts, u.kind = .string → ¬ ['\\', '\n'] <:+: u.text) :
    ∀ u ∈ ts, u.Rebroken u.crlf := by
  intro u hu
  obtain ⟨hleading, hread⟩ := h.mem hu
  refine ⟨rfl, fun hmem => absurd (hleading _ hmem) (by decide), ?_⟩
  by_cases hmem : '\n' ∈ u.text
  · right
    obtain ⟨c, cs, l, hread, hkind, htext⟩ := hread.resolve_left fun hblank => by
      rw [hblank.2] at hmem
      cases hmem
    have hident : u.kind ≠ .ident := fun hident =>
      Lexeme.lineFeed_not_mem_ident hread (hkind.symm.trans hident) (htext ▸ hmem)
    by_cases hstring : u.kind = .string
    · obtain ⟨before, d, after, hd, hafter, hshape⟩ := Lexeme.exists_template_of_read hread
        (hkind.symm.trans hstring) (htext ▸ hescape u hu hstring) (htext ▸ hmem)
      rw [← htext] at hshape
      refine ⟨not_isLabel_of_template hstring hshape hd hafter, ?_⟩
      have hc : c ≠ '\n' := by
        rw [(Lexeme.size_of_string hread (hkind.symm.trans hstring)).1]
        decide
      have hd' : d ≠ '\n' := by rcases hd with rfl | rfl <;> decide
      have hshape' : u.crlf.text = c :: (Text.crlf before ++ d :: '{' :: Text.crlf after) := by
        rw [Token.crlf, hshape, Text.crlf_cons hc, Text.crlf_append, Text.crlf_cons hd',
          Text.crlf_cons (by decide)]
      refine not_isLabel_of_template hstring hshape' hd fun hnil => hafter ?_
      rwa [← List.getLast?_eq_none_iff, Text.getLast?_crlf, List.getLast?_eq_none_iff] at hnil
    · have hno : ∀ v : Token, v.kind = u.kind → ¬ IsLabel v := by
        intro v hv hlabel
        rcases hlabel.kind with hkind | hkind
        · exact hident (hv.symm.trans hkind)
        · exact hstring (hv.symm.trans hkind)
      exact ⟨hno u rfl, hno u.crlf rfl⟩
  · exact Or.inl hmem

theorem sourceOf_rebroken {ts us : List Token} (h : List.Forall₂ Rebroken ts us) :
    sourceOf us = Text.crlf (sourceOf ts) := by
  obtain ⟨hleading, rfl⟩ := forall₂_crlf_iff.mp (h.imp fun t u htu => ⟨htu.leading, htu.crlf_eq⟩)
  exact sourceOf_crlf hleading

end Token

/-! ## Values -/

/-- With other line breaks in an attribute the value has other line breaks. -/
theorem Attribute.Like.value_crlf {a b : Attribute} (h : a.Like Token.Rebroken b) {v : Text}
    (hv : a.value = .ok v) : b.value = .ok (Text.crlf v) := by
  have hkind : ∀ t u : Token, t.Rebroken u → t.kind = u.kind := fun t u htu => htu.alike.kind
  have hafter := h.afterEqual? hkind
  unfold Attribute.value at hv ⊢
  generalize a.afterEqual? = x at hafter hv
  generalize b.afterEqual? = y at hafter ⊢
  cases hafter with
  | none => cases hv
  | @some ts us hts =>
    have hsaid := forall₂_takeWhile (p := (·.kind ≠ .comment)) (q := (·.kind ≠ .comment))
      (fun t u htu => by rw [hkind t u htu]) hts
    dsimp only at hv ⊢
    rw [Token.sourceOf_rebroken hsaid, Text.strip_crlf, ← Except.ok.inj hv]

namespace Document

/-- A source without carriage returns in which no string holds a backslash at the end of a line is
    read as it was if each line feed gets a carriage return in front of it. The tokens are the
    same, on the same lines, but for the returns in their texts; the tree has the same shape,
    names, types and labels; and a look-up finds the same values, but for the returns in them, or
    nothing as before. -/
theorem parse_crlf {filename : String} {source : Text} {d : Document} {ts : List Token}
    (h : parse filename source = .ok d) (hts : Token.ofText source = .ok ts)
    (hreturn : '\r' ∉ source)
    (hescape : ∀ t ∈ ts, t.kind = .string → ¬ ['\\', '\n'] <:+: t.text) :
    Token.ofText (Text.crlf source) = .ok (ts.map Token.crlf) ∧
      ∃ d', parse filename (Text.crlf source) = .ok d' ∧
        Body.Like (fun t u => t.crlf = u) d.body d'.body ∧
        ∀ address : Text, address ≠ [] →
          ∃ found found', d.body.findAttribute address = .ok found ∧
            d'.body.findAttribute address = .ok found' ∧
            Option.Rel (fun a b => ∃ v, a.value = .ok v ∧ b.value = .ok (Text.crlf v))
              found.attribute? found'.attribute? := by
  have hcuts := Token.ofTextFrom_eq_ok_iff.mp hts
  have hts' : Token.ofText (Text.crlf source) = .ok (ts.map Token.crlf) :=
    Token.ofTextFrom_eq_ok_iff.mpr (hcuts.crlf hreturn hescape)
  have hrebroken : List.Forall₂ Token.Rebroken ts (ts.map Token.crlf) :=
    List.forall₂_map_right_iff.mpr (List.forall₂_same.mpr (hcuts.rebroken hescape))
  obtain ⟨us, body, hus, hbody, rfl⟩ := parse_eq_ok_iff.mp h
  obtain rfl : ts = us := Except.ok.inj (hts.symm.trans hus)
  obtain ⟨body', hbody', hlike⟩ := like_of_ofTokens (fun t u htu => htu.alike) hrebroken hbody
  refine ⟨hts', ⟨body', filename⟩, parse_eq_ok_iff.mpr ⟨_, _, hts', hbody', rfl⟩,
    hlike.mono fun t u htu => htu.crlf_eq, fun address hne => ?_⟩
  refine ⟨_, _, Body.findAttribute_of_ne_nil hne body, Body.findAttribute_of_ne_nil hne body', ?_⟩
  have hfound := hlike.attribute?_lookup (Address.ofText address)
  have hvalue : ∀ a, (Body.lookup body (Address.ofText address)).attribute? = some a →
      ∃ v, a.value = .ok v := by
    intro a ha
    obtain ⟨s, rfl⟩ := Body.exists_site_of_lookup ha
    exact ⟨_, (value_of_site h s).1⟩
  generalize (Body.lookup body (Address.ofText address)).attribute? = x at hfound hvalue ⊢
  generalize (Body.lookup body' (Address.ofText address)).attribute? = y at hfound ⊢
  cases hfound with
  | none => exact .none
  | some hab =>
    obtain ⟨v, hv⟩ := hvalue _ rfl
    exact .some ⟨v, hv, hab.value_crlf hv⟩

/-- A comment, and a block around a heredoc. -/
def heredocInBlock : Text :=
  "# top\nb \"x\" \x7b\na = <<EOT\none\nEOT\n\x7d\n".toList

theorem parse_crlf_heredocInBlock :
    ∃ d ts, parse "a.tf" heredocInBlock = .ok d ∧ Token.ofText heredocInBlock = .ok ts ∧
      '\r' ∉ heredocInBlock ∧
      (∀ t ∈ ts, t.kind = .string → ¬ ['\\', '\n'] <:+: t.text) ∧
      Token.ofText (Text.crlf heredocInBlock) = .ok (ts.map Token.crlf) ∧
      ∃ d', parse "a.tf" (Text.crlf heredocInBlock) = .ok d' ∧
        Body.Like (fun t u => t.crlf = u) d.body d'.body := by
  obtain ⟨d, hd⟩ : ∃ d, parse "a.tf" heredocInBlock = .ok d :=
    exists_parse_of_isOk (by decide +kernel)
  have hts := ofText_of_parse hd
  have hreturn : '\r' ∉ heredocInBlock := by decide
  have hescape : ∀ t ∈ Body.tokens d.body, t.kind = .string → ¬ ['\\', '\n'] <:+: t.text := by
    intro t ht _ hin
    have hslash : '\\' ∈ Token.sourceOf (Body.tokens d.body) :=
      List.mem_flatMap.mpr ⟨t, ht, List.mem_append_right _ (hin.subset List.mem_cons_self)⟩
    rw [(Token.ofTextFrom_eq_ok_iff.mp hts).sourceOf_eq] at hslash
    exact absurd hslash (by decide)
  obtain ⟨hts', d', hd', hlike, -⟩ := parse_crlf hd hts hreturn hescape
  exact ⟨d, _, hd, hts, hreturn, hescape, hts', d', hd', hlike⟩

end Document

end HclQuery
