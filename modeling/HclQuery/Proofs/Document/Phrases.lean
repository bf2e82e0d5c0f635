/-
  Lists of phrases, what follows a phrase, and the phrase at a site.

  Of the tokens that follow a phrase only the first one matters to it (`fits_of_head?`).
  Every item of a body, however deep, comes of one phrase (`exists_phrase_of_holds`). So every
  attribute of a document that was read is one assignment of the grammar, and its tokens stand
  together among those of the source: `exists_assignment`.
-/
import HclQuery.Proofs.Document.Derivation
import HclQuery.Proofs.Lookup.FirstAttribute

namespace HclQuery

namespace Body

/-- The item lies in the body, directly or inside a block of it. -/
inductive Holds : Body → Item → Prop where
  | here {body : Body} {item : Item} (h : item ∈ body) : Holds body item
  | inside {body inner : Body} {shell : Shell} {item : Item} (hb : .block shell inner ∈ body)
      (h : Holds inner item) : Holds body item

theorem Encloses.holds {body : Body} {front place : List Nat} {chain : List Block} {index : Nat}
    {item : Item} (h : Encloses body front place chain)
    (hitem : (innermost body chain)[index]? = some item) : Holds body item := by
  induction h with
  | here => exact .here (List.mem_of_getElem? hitem)
  | inside hb _ ih =>
    rw [innermost_cons] at hitem
    exact .inside (List.mem_of_getElem? hb) (ih hitem)

end Body

namespace Grammar

/-! ## Lists of phrases -/

theorem tokensOf_singleton (p : Phrase) : tokensOf [p] = p.tokens := by
  rw [tokensOf, tokensOf, List.append_nil]

theorem itemsOf_singleton (p : Phrase) : itemsOf [p] = [p.item] := by
  rw [itemsOf, itemsOf]

theorem tokensOf_append (ps qs : List Phrase) :
    tokensOf (ps ++ qs) = tokensOf ps ++ tokensOf qs := by
  induction ps with
  | nil => rfl
  | cons p ps ih => rw [List.cons_append, tokensOf, tokensOf, ih, List.append_assoc]

theorem itemsOf_append (ps qs : List Phrase) : itemsOf (ps ++ qs) = itemsOf ps ++ itemsOf qs := by
  induction ps with
  | nil => rfl
  | cons p ps ih => rw [List.cons_append, itemsOf, itemsOf, ih, List.cons_append]

theorem allFit_append {rest : List Token} {ps qs : List Phrase} :
    AllFit rest (ps ++ qs) ↔ AllFit (tokensOf qs ++ rest) ps ∧ AllFit rest qs := by
  induction ps with
  | nil => simp [AllFit]
  | cons p ps ih =>
    rw [List.cons_append, AllFit, AllFit, ih, tokensOf_append, List.append_assoc, and_assoc]

theorem tokens_ne_nil {p : Phrase} {rest : List Token} (h : p.Fits rest) : p.tokens ≠ [] := by
  cases p with
  | trivia run => exact h.1
  | assignment => exact List.cons_ne_nil _ _
  | block f inside => exact List.cons_ne_nil _ _

/-- An item of the body comes of one of the phrases. -/
theorem exists_phrase {ps : List Phrase} {i : Nat} {item : Item}
    (h : (itemsOf ps)[i]? = some item) :
    ∃ before p after, ps = before ++ p :: after ∧ p.item = item := by
  induction ps generalizing i with
  | nil => cases h
  | cons p ps ih =>
    cases i with
    | zero => exact ⟨[], p, ps, rfl, Option.some.inj h⟩
    | succ i =>
      obtain ⟨before, q, after, rfl, hq⟩ := ih (i := i) h
      exact ⟨p :: before, q, after, rfl, hq⟩

/-! ## What follows -/

section Following

variable {rest rest' : List Token}

theorem head?_append_congr (ts : List Token) (h : rest.head? = rest'.head?) :
    (ts ++ rest).head? = (ts ++ rest').head? := by
  rw [List.head?_append, List.head?_append, h]

theorem takesLineEnd_of_head? {lineEnd : List Token} (h : rest.head? = rest'.head?)
    (htakes : TakesLineEnd lineEnd rest) : TakesLineEnd lineEnd rest' := by
  unfold TakesLineEnd at htakes ⊢
  rwa [← h]

theorem isLineComment_of_head? {t : Token} (h : rest.head? = rest'.head?) :
    IsLineComment t rest ↔ IsLineComment t rest' := by
  have hnil : rest = [] ↔ rest' = [] := by
    rw [← List.head?_eq_none_iff, ← List.head?_eq_none_iff, h]
  unfold IsLineComment
  rw [h, hnil]

theorem nested_of_head? {depth : Nat} {value : List Token} (h : rest.head? = rest'.head?)
    (hnested : Nested depth value rest) : Nested depth value rest' where
  nonneg := hnested.nonneg
  closed := hnested.closed
  oneLine before t after hvalue hdepth := by
    obtain ⟨hnewline, hcomment⟩ := hnested.oneLine before t after hvalue hdepth
    rw [isLineComment_of_head? (head?_append_congr after h)] at hcomment
    exact ⟨hnewline, hcomment⟩

theorem isEnding_of_head? {ending : List Token} (h : rest.head? = rest'.head?)
    (hends : IsEnding ending rest) : IsEnding ending rest' := by
  rcases hends with hnewline | ⟨t, lineEnd, rfl, hcomment, htakes⟩ | ⟨rfl, hend⟩
  · exact Or.inl hnewline
  · rw [isLineComment_of_head? (head?_append_congr lineEnd h)] at hcomment
    exact Or.inr (Or.inl ⟨t, lineEnd, rfl, hcomment, takesLineEnd_of_head? h htakes⟩)
  · rw [← List.head?_eq_none_iff, h, List.head?_eq_none_iff] at hend
    exact Or.inr (Or.inr ⟨rfl, hend⟩)

theorem isAttribute_of_head? {name equal : Token} {value ending : List Token}
    (h : rest.head? = rest'.head?) (hattr : IsAttribute name equal value ending rest) :
    IsAttribute name equal value ending rest' :=
  { hattr with
    nested := nested_of_head? (head?_append_congr ending h) hattr.nested
    ends := isEnding_of_head? h hattr.ends }

theorem frame_fits_of_head? {f : Frame} {inside : List Token} (h : rest.head? = rest'.head?)
    (hframe : f.Fits inside rest) : f.Fits inside rest' :=
  { hframe with
    openingEnd_takes :=
      takesLineEnd_of_head? (head?_append_congr (inside ++ f.foot) h) hframe.openingEnd_takes
    closingEnd_takes := takesLineEnd_of_head? h hframe.closingEnd_takes }

mutual

/-- Of what follows a phrase, only the first token matters to it. -/
theorem fits_of_head? (p : Phrase) {rest rest' : List Token} (h : rest.head? = rest'.head?)
    (hp : p.Fits rest) : p.Fits rest' := by
  cases p with
  | trivia run =>
    obtain ⟨hne, hall, hstop⟩ := hp
    rw [h] at hstop
    exact ⟨hne, hall, hstop⟩
  | assignment name equal value ending => exact isAttribute_of_head? h hp
  | block f inside =>
    obtain ⟨hframe, hinside⟩ := hp
    exact ⟨frame_fits_of_head? h hframe,
      allFit_of_head? inside (head?_append_congr f.foot h) hinside⟩

theorem allFit_of_head? (ps : List Phrase) {rest rest' : List Token}
    (h : rest.head? = rest'.head?) (hps : AllFit rest ps) : AllFit rest' ps := by
  cases ps with
  | nil => trivial
  | cons p ps =>
    obtain ⟨hp, hps⟩ := hps
    exact ⟨fits_of_head? p (head?_append_congr (tokensOf ps) h) hp, allFit_of_head? ps h hps⟩

end

end Following

/-! ## Phrases inside blocks -/

/-- An item of the body, however deep, comes of one phrase, with all tokens around it. -/
theorem exists_phrase_of_holds {ps : List Phrase} {rest : List Token} {item : Item}
    (hfit : AllFit rest ps) (h : Body.Holds (itemsOf ps) item) :
    ∃ (before : List Token) (p : Phrase) (after : List Token),
      tokensOf ps ++ rest = before ++ (p.tokens ++ after) ∧ p.Fits after ∧ p.item = item := by
  generalize hbody : itemsOf ps = body at h
  induction h generalizing ps rest with
  | here hmem =>
    subst hbody
    obtain ⟨i, hi⟩ := List.mem_iff_getElem?.mp hmem
    obtain ⟨before, p, after, rfl, hp⟩ := exists_phrase hi
    obtain ⟨-, hpfit, -⟩ := allFit_append.mp hfit
    refine ⟨tokensOf before, p, tokensOf after ++ rest, ?_, hpfit, hp⟩
    rw [tokensOf_append, tokensOf]
    simp
  | inside hb hin ih =>
    subst hbody
    obtain ⟨i, hi⟩ := List.mem_iff_getElem?.mp hb
    obtain ⟨before, p, after, rfl, hp⟩ := exists_phrase hi
    obtain ⟨-, hpfit, -⟩ := allFit_append.mp hfit
    cases p with
    | trivia => cases hp
    | assignment => cases hp
    | block frame inside =>
      obtain ⟨-, hinside⟩ := hpfit
      obtain ⟨front, q, back, htokens, hq, hqitem⟩ := ih hinside (Item.block.inj hp).2
      refine ⟨tokensOf before ++ frame.head ++ front, q, back, ?_, hq, hqitem⟩
      rw [tokensOf_append, tokensOf, Phrase.tokens]
      simp only [List.append_assoc]
      rw [← htokens]

end Grammar

namespace Document

open Grammar

/-- An attribute of a document that was read is an assignment, and the tokens of the source are
    its tokens with others before and after it. -/
theorem exists_assignment_of_holds {filename : String} {source : Text} {d : Document}
    {a : Attribute} (h : parse filename source = .ok d) (ha : Body.Holds d.body (.attribute a)) :
    ∃ before name equal value ending after,
      Token.ofText source = .ok (before ++ (name :: equal :: (value ++ ending) ++ after)) ∧
        IsAttribute name equal value ending after ∧
        a = ⟨name.text, name :: equal :: (value ++ ending)⟩ := by
  obtain ⟨ts, body, hts, hbody, rfl⟩ := parse_eq_ok_iff.mp h
  obtain ⟨ps, ⟨hfit, rfl⟩, rfl⟩ := exists_derivation hbody
  obtain ⟨before, p, after, htokens, hp, hitem⟩ := exists_phrase_of_holds hfit ha
  rw [List.append_nil] at htokens
  cases p with
  | trivia => cases hitem
  | block => cases hitem
  | assignment name equal value ending =>
    rw [htokens] at hts
    exact ⟨before, name, equal, value, ending, after, hts, hp, (Item.attribute.inj hitem).symm⟩

theorem exists_assignment {filename : String} {source : Text} {d : Document}
    (h : parse filename source = .ok d) (s : Site d.body) :
    ∃ before name equal value ending after,
      Token.ofText source = .ok (before ++ (name :: equal :: (value ++ ending) ++ after)) ∧
        IsAttribute name equal value ending after ∧
        s.attr = ⟨name.text, name :: equal :: (value ++ ending)⟩ :=
  exists_assignment_of_holds h (s.encloses.holds s.holds)

end Document

end HclQuery
