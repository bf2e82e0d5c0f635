/-
  What comments say does not matter to a query.

  The reader looks at how a comment begins (`Recommented.alike`), and a value ends before the first
  comment (`Attribute.Like.value_eq`). So a source that was read is read with other comments as
  well, as a tree of the same shape, and a query writes the same for both (`run_recommented`),
  unless it writes HCL, which keeps the comments of the expression.
-/
import HclQuery.Proofs.Document.ValueText
import HclQuery.Proofs.Lookup.Transfer
import HclQuery.Proofs.Query.Get
import HclQuery.Proofs.Token.Comments

namespace HclQuery

namespace Token

/-- The reader takes one comment as it takes another with the same mark. -/
theorem Recommented.alike {t u : Token} (h : t.Recommented u) : t.Alike u := by
  rcases h.text with htext | ⟨hkind, mark, ⟨said, hsaid⟩, hcomment⟩
  · exact alike_of_eq h.kind htext
  · obtain ⟨⟨said', hsaid'⟩, hmark⟩ := hcomment.starts
    have hkind' : u.kind = .comment := h.kind.symm.trans hkind
    have hno : ∀ {v : Token}, v.kind = .comment → ¬ Grammar.IsLabel v := by
      intro v hv hlabel
      rcases hlabel.kind with hlabel | hlabel <;> rw [hv] at hlabel <;> cases hlabel
    constructor
    · exact h.kind
    · rw [← hsaid, ← hsaid']
      rcases hmark with rfl | rfl | rfl <;> simp
    · rw [← hsaid, ← hsaid']
      rcases hmark with rfl | rfl | rfl <;> simp
    · intro hident
      rw [hkind] at hident
      cases hident
    · exact iff_of_false (hno hkind) (hno hkind')
    · intro hlabel
      exact absurd hlabel (hno hkind)

theorem sourceOf_recommented {ts us : List Token} (h : List.Forall₂ Recommented ts us)
    (hfree : ∀ t ∈ ts, t.kind ≠ .comment) : sourceOf ts = sourceOf us := by
  induction h with
  | nil => rfl
  | @cons t u ts us htu _ ih =>
    have htext := htu.text.resolve_right fun hcomment => hfree t List.mem_cons_self hcomment.1
    rw [sourceOf_cons, sourceOf_cons, htu.leading, htext,
      ih fun v hv => hfree v (List.mem_cons_of_mem t hv)]

end Token

/-- Other comments are no part of the value. -/
theorem Attribute.Like.value_eq {a b : Attribute} (h : a.Like Token.Recommented b) :
    a.value = b.value := by
  have hafter := h.afterEqual? fun t u htu => htu.kind
  unfold Attribute.value
  generalize a.afterEqual? = x at hafter ⊢
  generalize b.afterEqual? = y at hafter ⊢
  cases hafter with
  | none => rw [h.name]
  | @some ts us hts =>
    have hsame : Token.sourceOf (ts.takeWhile (·.kind ≠ .comment)) =
        Token.sourceOf (us.takeWhile (·.kind ≠ .comment)) := by
      refine Token.sourceOf_recommented (forall₂_takeWhile (fun t u htu => by rw [htu.kind]) hts) ?_
      intro t ht
      simpa using List.all_eq_true.mp List.all_takeWhile t ht
    dsimp only
    rw [hsame]

namespace Query

open Document

/-- A source is read with other comments if it is read at all. Its tokens are then the same, but
    for the comments and the lines; the tree has the same shape, names, types and labels; and a
    query writes the same value. -/
theorem run_recommented {filename : String} {source : Text} {d : Document} {ts vs : List Token}
    (h : parse filename source = .ok d) (hts : Token.ofText source = .ok ts)
    (hvs : List.Forall₂ Token.Recommented ts vs) :
    (∃ us, Token.ofText (Token.sourceOf vs) = .ok us ∧
        List.Forall₂ (fun v u => v.agrees u = true) vs us) ∧
      ∃ d', parse filename (Token.sourceOf vs) = .ok d' ∧
        Body.Like Token.Recommented d.body d'.body ∧
        ∀ address : Text, address ≠ [] → ∀ format : Format, format ≠ .hcl →
          ∃ out, (get filename address format).run source = .ok out ∧
            (get filename address format).run (Token.sourceOf vs) = .ok out := by
  obtain ⟨us, hcuts, hagree⟩ := (Token.ofTextFrom_eq_ok_iff.mp hts).recommented hvs 1
  have hus : Token.ofText (Token.sourceOf vs) = .ok us := Token.ofTextFrom_eq_ok_iff.mpr hcuts
  obtain ⟨ts', body, hts', hbody, rfl⟩ := parse_eq_ok_iff.mp h
  obtain rfl : ts = ts' := Except.ok.inj (hts.symm.trans hts')
  obtain ⟨body', hbody', hlike⟩ := like_of_ofTokens (fun t u htu => htu.alike)
    (Token.recommented_of_agrees hvs hagree) hbody
  have h' : parse filename (Token.sourceOf vs) = .ok ⟨body', filename⟩ :=
    parse_eq_ok_iff.mpr ⟨us, body', hus, hbody', rfl⟩
  refine ⟨⟨us, hus, hagree⟩, _, h', hlike, fun address hne format hformat => ?_⟩
  refine run_congr h h' hne ?_ hformat
  have hfound := hlike.attribute?_lookup (Address.ofText address)
  dsimp only
  generalize (Body.lookup body (Address.ofText address)).attribute? = x at hfound ⊢
  generalize (Body.lookup body' (Address.ofText address)).attribute? = y at hfound ⊢
  cases hfound with
  | none => exact .none
  | some hxy => exact .some hxy.value_eq

/-- A comment that looks like the start of a string, a template, a heredoc and a block comment. -/
def openComment : Text :=
  '#' :: " \"$\x7b <<EOT /*".toList

/-- The token, with another text if it is a comment. -/
def recomment (text : Text) (t : Token) : Token :=
  if t.kind = .comment then { t with text } else t

theorem recommented_recomment {t : Token} (h : t.kind = .comment → ['#'] <+: t.text) :
    t.Recommented (recomment openComment t) := by
  have hsaid : ∀ c ∈ " \"$\x7b <<EOT /*".toList, c ≠ '\r' ∧ c ≠ '\n' := by simp
  have hcomment : IsComment ['#'] openComment := .line (Or.inl rfl) hsaid
  unfold recomment
  split
  · rename_i hkind
    exact ⟨rfl, rfl, Or.inr ⟨hkind, ['#'], h hkind, hcomment⟩⟩
  · exact ⟨rfl, rfl, Or.inl rfl⟩

/-- The comment in the list becomes another one, and the value is still the same. -/
theorem run_recommented_commentInList :
    parse "a.tf" commentInList = .ok ⟨[.attribute listAttribute], "a.tf"⟩ ∧
      Token.ofText commentInList = .ok listAttribute.tokens ∧
      ∃ d', parse "a.tf" (Token.sourceOf (listAttribute.tokens.map (recomment openComment))) =
          .ok d' ∧
        ∀ address : Text, address ≠ [] → ∀ format : Format, format ≠ .hcl →
          ∃ out, (get "a.tf" address format).run commentInList = .ok out ∧
            (get "a.tf" address format).run
              (Token.sourceOf (listAttribute.tokens.map (recomment openComment))) = .ok out := by
  have hts : Token.ofText commentInList = .ok listAttribute.tokens := by
    simpa [Item.tokens] using ofText_of_parse parse_commentInList
  have hmarks : ∀ t ∈ listAttribute.tokens, t.kind = .comment → ['#'] <+: t.text := by
    decide
  have hvs : List.Forall₂ Token.Recommented listAttribute.tokens
      (listAttribute.tokens.map (recomment openComment)) :=
    List.forall₂_map_right_iff.mpr
      (List.forall₂_same.mpr fun t ht => recommented_recomment (hmarks t ht))
  obtain ⟨-, d', hd', -, hrun⟩ := run_recommented parse_commentInList hts hvs
  exact ⟨parse_commentInList, hts, d', hd', hrun⟩

end Query

end HclQuery
