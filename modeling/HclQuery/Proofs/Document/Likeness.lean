/-
  Documents of tokens that are alike.

  The reader looks at the kinds of tokens, at what names and labels say, and at how comments
  begin. Tokens that agree in all this are alike (`Token.Alike`): lists of tokens that are alike
  one by one are read alike, item by item (`exists_alike_phrases`, `like_of_ofTokens`). Which
  tokens are related is left open. Any relation between tokens that are alike is carried over to
  bodies (`Body.Like`): tokens on other lines, behind other blanks, or with other comments.
-/
import Mathlib.Data.List.Forall2
import HclQuery.Document.Value
import HclQuery.Proofs.Document.Derivation

namespace HclQuery

/-! ## Tokens and trees that are alike -/

/-- The reader takes one token as it takes the other. -/
structure Token.Alike (t u : Token) : Prop where
  kind : t.kind = u.kind
  hash : ['#'] <+: t.text ↔ ['#'] <+: u.text
  slashes : ['/', '/'] <+: t.text ↔ ['/', '/'] <+: u.text
  name : t.kind = .ident → t.text = u.text
  isLabel : Grammar.IsLabel t ↔ Grammar.IsLabel u
  label : Grammar.IsLabel t → Grammar.labelText t = Grammar.labelText u

theorem Token.alike_of_eq {t u : Token} (hkind : t.kind = u.kind) (htext : t.text = u.text) :
    t.Alike u where
  kind := hkind
  hash := by rw [htext]
  slashes := by rw [htext]
  name := fun _ => htext
  isLabel := by unfold Grammar.IsLabel Grammar.labelInside; rw [hkind, htext]
  label := fun _ => by unfold Grammar.labelText Grammar.labelInside; rw [hkind, htext]

/-- What agrees with a token is read as it is. -/
theorem Token.alike_of_agrees {t u : Token} (h : t.agrees u = true) : t.Alike u := by
  simp only [agrees, Bool.and_eq_true, decide_eq_true_eq] at h
  exact alike_of_eq h.1.1 h.1.2

/-- The attributes have one name, and their tokens are related one by one. -/
structure Attribute.Like (R : Token → Token → Prop) (a b : Attribute) : Prop where
  name : a.name = b.name
  tokens : List.Forall₂ R a.tokens b.tokens

/-- The shells say the same, and their tokens are related one by one. -/
structure Shell.Like (R : Token → Token → Prop) (s t : Shell) : Prop where
  type : s.type = t.type
  labels : s.labels = t.labels
  opening : List.Forall₂ R s.opening t.opening
  closing : List.Forall₂ R s.closing t.closing

mutual

/-- The items are built alike of tokens that are related. -/
inductive Item.Like (R : Token → Token → Prop) : Item → Item → Prop where
  | attribute {a b : Attribute} (h : a.Like R b) : Item.Like R (.attribute a) (.attribute b)
  | block {s t : Shell} {xs ys : List Item} (hshell : s.Like R t) (hbody : Body.Like R xs ys) :
      Item.Like R (.block s xs) (.block t ys)
  | trivia {ts us : List Token} (h : List.Forall₂ R ts us) : Item.Like R (.trivia ts) (.trivia us)

/-- The bodies are built alike of tokens that are related. -/
inductive Body.Like (R : Token → Token → Prop) : List Item → List Item → Prop where
  | nil : Body.Like R [] []
  | cons {x y : Item} {xs ys : List Item} (hitem : Item.Like R x y) (hrest : Body.Like R xs ys) :
      Body.Like R (x :: xs) (y :: ys)

end

section Mono

variable {R S : Token → Token → Prop}

theorem Attribute.Like.mono (hRS : ∀ t u, R t u → S t u) {a b : Attribute} (h : a.Like R b) :
    a.Like S b :=
  ⟨h.name, h.tokens.imp hRS⟩

theorem Shell.Like.mono (hRS : ∀ t u, R t u → S t u) {s t : Shell} (h : s.Like R t) :
    s.Like S t :=
  ⟨h.type, h.labels, h.opening.imp hRS, h.closing.imp hRS⟩

mutual

theorem Item.Like.mono (hRS : ∀ t u, R t u → S t u) {x y : Item} (h : Item.Like R x y) :
    Item.Like S x y := by
  cases h with
  | «attribute» ha => exact .attribute (ha.mono hRS)
  | block hshell hbody => exact .block (hshell.mono hRS) (hbody.mono hRS)
  | trivia hts => exact .trivia (hts.imp hRS)

theorem Body.Like.mono (hRS : ∀ t u, R t u → S t u) {xs ys : List Item} (h : Body.Like R xs ys) :
    Body.Like S xs ys := by
  cases h with
  | nil => exact .nil
  | cons hitem hrest => exact .cons (hitem.mono hRS) (hrest.mono hRS)

end

end Mono

/-! ## The grammar on tokens that are alike -/

theorem exists_append_of_forall₂ {α β : Type} {R : α → β → Prop} {xs ys : List α} {us : List β}
    (h : List.Forall₂ R (xs ++ ys) us) :
    ∃ vs ws, us = vs ++ ws ∧ List.Forall₂ R xs vs ∧ List.Forall₂ R ys ws := by
  induction xs generalizing us with
  | nil => exact ⟨[], us, rfl, .nil, h⟩
  | cons x xs ih =>
    obtain ⟨v, us, hv, hrest, rfl⟩ := List.forall₂_cons_left_iff.mp h
    obtain ⟨vs, ws, rfl, hvs, hws⟩ := ih hrest
    exact ⟨v :: vs, ws, rfl, .cons hv hvs, hws⟩

theorem exists_related_of_mem {α β : Type} {R : α → β → Prop} {xs : List α} {ys : List β}
    (h : List.Forall₂ R xs ys) {x : α} (hx : x ∈ xs) : ∃ y ∈ ys, R x y := by
  induction h with
  | nil => cases hx
  | @cons a b _ _ hab _ ih =>
    rcases List.mem_cons.mp hx with rfl | hx
    · exact ⟨b, List.mem_cons_self, hab⟩
    · obtain ⟨y, hy, hxy⟩ := ih hx
      exact ⟨y, List.mem_cons_of_mem b hy, hxy⟩

theorem forall₂_takeWhile {α β : Type} {R : α → β → Prop} {p : α → Bool} {q : β → Bool}
    (hpq : ∀ x y, R x y → p x = q y) {xs : List α} {ys : List β} (h : List.Forall₂ R xs ys) :
    List.Forall₂ R (xs.takeWhile p) (ys.takeWhile q) := by
  induction h with
  | nil => exact .nil
  | @cons x y xs ys hxy _ ih =>
    rw [List.takeWhile_cons, List.takeWhile_cons, hpq x y hxy]
    split
    · exact .cons hxy ih
    · exact .nil

theorem forall₂_dropWhile {α β : Type} {R : α → β → Prop} {p : α → Bool} {q : β → Bool}
    (hpq : ∀ x y, R x y → p x = q y) {xs : List α} {ys : List β} (h : List.Forall₂ R xs ys) :
    List.Forall₂ R (xs.dropWhile p) (ys.dropWhile q) := by
  induction h with
  | nil => exact .nil
  | @cons x y xs ys hxy hrest ih =>
    rw [List.dropWhile_cons, List.dropWhile_cons, hpq x y hxy]
    split
    · exact ih
    · exact .cons hxy hrest

namespace Grammar

variable {R : Token → Token → Prop} {rest rest' : List Token}

theorem isTrivia_alike {t u : Token} (h : t.Alike u) : t.isTrivia = u.isTrivia := by
  rw [Token.isTrivia, h.kind, Token.isTrivia]

/-- Lists of tokens that are alike begin with tokens that are alike, if with any. -/
theorem head?_alike (hR : ∀ t u, R t u → t.Alike u) {ts us : List Token}
    (h : List.Forall₂ R ts us) :
    (ts = [] ∧ us = []) ∨ ∃ t u, ts.head? = some t ∧ us.head? = some u ∧ t.Alike u := by
  cases h with
  | nil => exact Or.inl ⟨rfl, rfl⟩
  | cons htu _ => exact Or.inr ⟨_, _, rfl, rfl, hR _ _ htu⟩

theorem takesLineEnd_alike (hR : ∀ t u, R t u → t.Alike u) {lineEnd lineEnd' : List Token}
    (h : TakesLineEnd lineEnd rest) (hend : List.Forall₂ R lineEnd lineEnd')
    (hrest : List.Forall₂ R rest rest') : TakesLineEnd lineEnd' rest' := by
  rcases h with ⟨t, rfl, hkind⟩ | ⟨rfl, hnext⟩
  · obtain ⟨u, us, htu, hus, rfl⟩ := List.forall₂_cons_left_iff.mp hend
    rw [List.forall₂_nil_left_iff.mp hus]
    exact Or.inl ⟨u, rfl, by rw [← (hR t u htu).kind]; exact hkind⟩
  · rw [List.forall₂_nil_left_iff.mp hend]
    refine Or.inr ⟨rfl, ?_⟩
    rcases head?_alike hR hrest with ⟨-, rfl⟩ | ⟨t, u, ht, hu, htu⟩
    · simp
    · intro v hv
      obtain rfl : u = v := Option.some.inj (hu.symm.trans hv)
      rw [← htu.kind]
      exact hnext t ht

theorem isLineComment_alike (hR : ∀ t u, R t u → t.Alike u) {t u : Token} (htu : t.Alike u)
    (hrest : List.Forall₂ R rest rest') : IsLineComment t rest ↔ IsLineComment u rest' := by
  unfold IsLineComment
  rw [htu.kind, htu.hash, htu.slashes]
  rcases head?_alike hR hrest with ⟨rfl, rfl⟩ | ⟨v, w, hv, hw, hvw⟩
  · simp
  · have hne : rest ≠ [] := by rintro rfl; cases hv
    have hne' : rest' ≠ [] := by rintro rfl; cases hw
    simp [hv, hw, hne, hne', hvw.kind]

theorem depthAfter_alike {t u : Token} (h : t.Alike u) (depth : Nat) :
    Document.depthAfter depth t = Document.depthAfter depth u := by
  unfold Document.depthAfter
  rw [h.kind]

theorem nested_alike (hR : ∀ t u, R t u → t.Alike u) {depth : Nat} {value value' : List Token}
    (h : Nested depth value rest) (hvalue : List.Forall₂ R value value')
    (hrest : List.Forall₂ R rest rest') : Nested depth value' rest' := by
  induction hvalue generalizing depth with
  | nil => exact Document.nested_nil.mpr (Document.nested_nil.mp h)
  | @cons t u ts us htu hts ih =>
    have halike := hR t u htu
    obtain ⟨hline, hclose, hnested⟩ := Document.nested_cons.mp h
    refine Document.nested_cons.mpr ⟨fun h0 => ?_, ?_, ?_⟩
    · obtain ⟨hnewline, hcomment⟩ := hline h0
      rw [halike.kind] at hnewline
      rw [isLineComment_alike hR halike (List.rel_append hts hrest)] at hcomment
      exact ⟨hnewline, hcomment⟩
    · rw [← halike.kind]
      exact hclose
    · rw [← depthAfter_alike halike]
      exact ih hnested

theorem isEnding_alike (hR : ∀ t u, R t u → t.Alike u) {ending ending' : List Token}
    (h : IsEnding ending rest) (hending : List.Forall₂ R ending ending')
    (hrest : List.Forall₂ R rest rest') : IsEnding ending' rest' := by
  rcases h with ⟨t, rfl, hkind⟩ | ⟨t, lineEnd, rfl, hcomment, htakes⟩ | ⟨rfl, hend⟩
  · obtain ⟨u, us, htu, hus, rfl⟩ := List.forall₂_cons_left_iff.mp hending
    rw [List.forall₂_nil_left_iff.mp hus]
    exact Or.inl ⟨u, rfl, by rw [← (hR t u htu).kind]; exact hkind⟩
  · obtain ⟨u, us, htu, hus, rfl⟩ := List.forall₂_cons_left_iff.mp hending
    refine Or.inr (Or.inl ⟨u, us, rfl, ?_, takesLineEnd_alike hR htakes hus hrest⟩)
    exact (isLineComment_alike hR (hR t u htu) (List.rel_append hus hrest)).mp hcomment
  · rw [List.forall₂_nil_left_iff.mp hending]
    refine Or.inr (Or.inr ⟨rfl, ?_⟩)
    rcases head?_alike hR hrest with ⟨-, rfl⟩ | ⟨v, w, hv, hw, hvw⟩
    · exact Or.inl rfl
    · rcases hend with rfl | ⟨t, ht, hkind⟩
      · cases hv
      · obtain rfl : v = t := Option.some.inj (hv.symm.trans ht)
        exact Or.inr ⟨w, hw, by rw [← hvw.kind]; exact hkind⟩

theorem isAttribute_alike (hR : ∀ t u, R t u → t.Alike u) {name name' equal equal' : Token}
    {value value' ending ending' : List Token} (h : IsAttribute name equal value ending rest)
    (hname : R name name') (hequal : R equal equal') (hvalue : List.Forall₂ R value value')
    (hending : List.Forall₂ R ending ending') (hrest : List.Forall₂ R rest rest') :
    IsAttribute name' equal' value' ending' rest' where
  name_kind := by rw [← (hR _ _ hname).kind, h.name_kind]
  equal_kind := by rw [← (hR _ _ hequal).kind, h.equal_kind]
  hasValue := by
    obtain ⟨t, ht, htrivia⟩ := h.hasValue
    obtain ⟨u, hu, htu⟩ := exists_related_of_mem hvalue ht
    exact ⟨u, hu, by rw [← isTrivia_alike (hR t u htu), htrivia]⟩
  nested := nested_alike hR h.nested hvalue (List.rel_append hending hrest)
  ends := isEnding_alike hR h.ends hending hrest

theorem labels_alike (hR : ∀ t u, R t u → t.Alike u) {labels labels' : List Token}
    (h : ∀ t ∈ labels, IsLabel t) (hlabels : List.Forall₂ R labels labels') :
    (∀ t ∈ labels', IsLabel t) ∧ labels.map labelText = labels'.map labelText := by
  induction hlabels with
  | nil => exact ⟨by simp, rfl⟩
  | @cons t u ts us htu hts ih =>
    have halike := hR t u htu
    have ht := h t List.mem_cons_self
    obtain ⟨hus, hsay⟩ := ih fun v hv => h v (List.mem_cons_of_mem t hv)
    refine ⟨?_, ?_⟩
    · intro v hv
      rcases List.mem_cons.mp hv with rfl | hv
      · exact halike.isLabel.mp ht
      · exact hus v hv
    · rw [List.map_cons, List.map_cons, halike.label ht, hsay]

/-! ## Phrases -/

/-- Tokens that are alike those of a frame are a frame. -/
theorem exists_alike_frame (hR : ∀ t u, R t u → t.Alike u) {f : Frame}
    {inside inside' head' foot' : List Token} (h : f.Fits inside rest)
    (hhead : List.Forall₂ R f.head head') (hinside : List.Forall₂ R inside inside')
    (hfoot : List.Forall₂ R f.foot foot') (hrest : List.Forall₂ R rest rest') :
    ∃ g : Frame, g.head = head' ∧ g.foot = foot' ∧ g.Fits inside' rest' ∧
      f.shell.Like R g.shell := by
  obtain ⟨type, more, htype, hmore, rfl⟩ := List.forall₂_cons_left_iff.mp hhead
  obtain ⟨labels, opened, rfl, hlabels, hopened⟩ := exists_append_of_forall₂ hmore
  obtain ⟨opening, openingEnd, hopening, hopeningEnd, rfl⟩ :=
    List.forall₂_cons_left_iff.mp hopened
  obtain ⟨closing, closingEnd, hclosing, hclosingEnd, rfl⟩ :=
    List.forall₂_cons_left_iff.mp hfoot
  obtain ⟨hlabels_kind, hsay⟩ := labels_alike hR h.labels_kind hlabels
  have htype' := hR _ _ htype
  have hafter := List.rel_append (List.rel_append hinside hfoot) hrest
  refine ⟨⟨type, labels, opening, openingEnd, closing, closingEnd⟩, rfl, rfl, ?_, ?_⟩
  · exact
      { type_kind := by rw [← htype'.kind, h.type_kind]
        labels_kind := hlabels_kind
        opening_kind := by rw [← (hR _ _ hopening).kind, h.opening_kind]
        openingEnd_takes := takesLineEnd_alike hR h.openingEnd_takes hopeningEnd hafter
        closing_kind := by rw [← (hR _ _ hclosing).kind, h.closing_kind]
        closingEnd_takes := takesLineEnd_alike hR h.closingEnd_takes hclosingEnd hrest }
  · exact ⟨htype'.name h.type_kind, hsay, hhead, hfoot⟩

mutual

/-- Tokens that are alike those of a phrase are a phrase, and stand for an item like its own. -/
theorem exists_alike_phrase (hR : ∀ t u, R t u → t.Alike u) (p : Phrase)
    {rest rest' own : List Token} (h : p.Fits rest) (hown : List.Forall₂ R p.tokens own)
    (hrest : List.Forall₂ R rest rest') :
    ∃ q : Phrase, q.tokens = own ∧ q.Fits rest' ∧ Item.Like R p.item q.item := by
  cases p with
  | trivia run =>
    obtain ⟨hne, hall, hstop⟩ := h
    refine ⟨.trivia own, rfl, ⟨?_, ?_, ?_⟩, .trivia hown⟩
    · rintro rfl
      exact hne (List.forall₂_nil_right_iff.mp hown)
    · intro u hu
      obtain ⟨t, ht, htu⟩ := exists_related_of_mem (List.Forall₂.flip hown) hu
      rw [← isTrivia_alike (hR t u htu)]
      exact hall t ht
    · rcases head?_alike hR hrest with ⟨-, rfl⟩ | ⟨t, u, ht, hu, htu⟩
      · simp
      · intro v hv
        obtain rfl : u = v := Option.some.inj (hu.symm.trans hv)
        rw [← isTrivia_alike htu]
        exact hstop t ht
  | assignment name equal value ending =>
    obtain ⟨name', more, hname, hmore, rfl⟩ := List.forall₂_cons_left_iff.mp hown
    obtain ⟨equal', said, hequal, hsaid, rfl⟩ := List.forall₂_cons_left_iff.mp hmore
    obtain ⟨value', ending', rfl, hvalue, hending⟩ := exists_append_of_forall₂ hsaid
    exact ⟨.assignment name' equal' value' ending', rfl,
      isAttribute_alike hR h hname hequal hvalue hending hrest,
      .attribute ⟨(hR _ _ hname).name h.name_kind, hown⟩⟩
  | block f inside =>
    obtain ⟨hframe, hinside⟩ := h
    obtain ⟨front, foot', rfl, hfront, hfoot⟩ := exists_append_of_forall₂ hown
    obtain ⟨head', inside', rfl, hhead, hown'⟩ := exists_append_of_forall₂ hfront
    obtain ⟨g, rfl, rfl, hfits, hshell⟩ := exists_alike_frame hR hframe hhead hown' hfoot hrest
    obtain ⟨qs, rfl, hqs, hlike⟩ :=
      exists_alike_phrases hR inside hinside hown' (List.rel_append hfoot hrest)
    exact ⟨.block g qs, rfl, ⟨hfits, hqs⟩, .block hshell hlike⟩

/-- Tokens that are alike those of phrases are phrases, and stand for a body like theirs. -/
theorem exists_alike_phrases (hR : ∀ t u, R t u → t.Alike u) (ps : List Phrase)
    {rest rest' own : List Token} (h : AllFit rest ps) (hown : List.Forall₂ R (tokensOf ps) own)
    (hrest : List.Forall₂ R rest rest') :
    ∃ qs, tokensOf qs = own ∧ AllFit rest' qs ∧ Body.Like R (itemsOf ps) (itemsOf qs) := by
  cases ps with
  | nil =>
    obtain rfl := List.forall₂_nil_left_iff.mp hown
    exact ⟨[], rfl, trivial, .nil⟩
  | cons p ps =>
    obtain ⟨hp, hps⟩ := h
    obtain ⟨first, others, rfl, hfirst, hothers⟩ := exists_append_of_forall₂ hown
    obtain ⟨q, rfl, hq, hitem⟩ :=
      exists_alike_phrase hR p hp hfirst (List.rel_append hothers hrest)
    obtain ⟨qs, rfl, hqs, hlike⟩ := exists_alike_phrases hR ps hps hothers hrest
    exact ⟨q :: qs, rfl, ⟨hq, hqs⟩, .cons hitem hlike⟩

end

end Grammar

namespace Document

open Grammar

/-- Lists of tokens that are alike are read alike. -/
theorem like_of_ofTokens {R : Token → Token → Prop} (hR : ∀ t u, R t u → t.Alike u)
    {ts us : List Token} {body : Body} (h : List.Forall₂ R ts us) (hread : ofTokens ts = .ok body) :
    ∃ body', ofTokens us = .ok body' ∧ Body.Like R body body' := by
  obtain ⟨ps, ⟨hfit, rfl⟩, rfl⟩ := exists_derivation hread
  obtain ⟨qs, hqs, hfit', hlike⟩ := exists_alike_phrases hR ps hfit h .nil
  exact ⟨itemsOf qs, ofTokens_of_derives ⟨hfit', hqs⟩, hlike⟩

/-- A source that is cut into tokens alike those of a document is read as one built alike. -/
theorem exists_parse_of_alike {R : Token → Token → Prop} (hR : ∀ t u, R t u → t.Alike u)
    {filename : String} {source source' : Text} {d : Document} {ts us : List Token}
    (h : parse filename source = .ok d) (hts : Token.ofText source = .ok ts)
    (hus : Token.ofText source' = .ok us) (hrel : List.Forall₂ R ts us) :
    ∃ d', parse filename source' = .ok d' ∧ Body.Like R d.body d'.body := by
  obtain ⟨ts', body, hts', hbody, rfl⟩ := parse_eq_ok_iff.mp h
  obtain rfl : ts = ts' := Except.ok.inj (hts.symm.trans hts')
  obtain ⟨body', hbody', hlike⟩ := like_of_ofTokens hR hrel hbody
  exact ⟨⟨body', filename⟩, parse_eq_ok_iff.mpr ⟨us, body', hus, hbody', rfl⟩, hlike⟩

end Document

/-! ## Values of attributes that are alike -/

/-- The first `=` is in the same place, and what stands behind it is related. -/
theorem Attribute.Like.afterEqual? {R : Token → Token → Prop}
    (hR : ∀ t u, R t u → t.kind = u.kind) {a b : Attribute} (h : a.Like R b) :
    Option.Rel (List.Forall₂ R) a.afterEqual? b.afterEqual? := by
  have hdrop := forall₂_dropWhile (p := (·.kind ≠ .equal)) (q := (·.kind ≠ .equal))
    (fun t u htu => by rw [hR t u htu]) h.tokens
  unfold Attribute.afterEqual?
  generalize a.tokens.dropWhile (·.kind ≠ .equal) = ts at hdrop ⊢
  generalize b.tokens.dropWhile (·.kind ≠ .equal) = us at hdrop ⊢
  cases hdrop with
  | nil => exact .none
  | cons _ hrest => exact .some hrest

end HclQuery
