/-
  The pieces of a document, each on its own.

  What follows an item decides where it ends: a closing brace ends an expression, and a comment
  behind it then belongs to the expression; a line end that is there is taken. Cut out of the
  document, the item is followed by nothing. Only its last phrase can notice, and at most the
  comment at the end of an expression then counts as what ends the line
  (`exists_isAttribute_alone`): its tokens stand for the same item (`exists_fits_alone`).

  `parse_pieces`: every item and the inside of every block, however deep, is read from its own
  text as what it is in the document, on other lines.
-/
import HclQuery.Proofs.Document.Copy

namespace HclQuery

/-! ## Phrases with nothing behind them -/

namespace Grammar

section Alone

variable {rest : List Token}

theorem takesLineEnd_alone {lineEnd : List Token} (h : TakesLineEnd lineEnd rest) :
    TakesLineEnd lineEnd [] := by
  rcases h with hnewline | ⟨rfl, -⟩
  · exact Or.inl hnewline
  · exact Or.inr ⟨rfl, by simp⟩

theorem isLineComment_alone {c : Token} {lineEnd : List Token}
    (h : IsLineComment c (lineEnd ++ rest)) : IsLineComment c (lineEnd ++ []) := by
  cases lineEnd with
  | nil => exact ⟨h.1, Or.inr (Or.inr (Or.inl rfl))⟩
  | cons v lineEnd =>
    have hhead : (v :: lineEnd ++ rest).head? = (v :: lineEnd ++ []).head? := rfl
    exact (isLineComment_of_head? hhead).mp h

/-- An assignment is one where nothing follows. A comment at the end of a value that ran up to a
    closing brace is what ends the line there. -/
theorem exists_isAttribute_alone {name equal : Token} {value ending : List Token}
    (h : IsAttribute name equal value ending rest) :
    ∃ value' ending', value' ++ ending' = value ++ ending ∧
      IsAttribute name equal value' ending' [] := by
  rcases h.ends with ⟨t, rfl, ht⟩ | ⟨c, lineEnd, rfl, hc, htakes⟩ | ⟨rfl, -⟩
  · have hhead : ([t] ++ rest).head? = ([t] ++ []).head? := rfl
    refine ⟨value, [t], rfl, ?_⟩
    exact { h with nested := nested_of_head? hhead h.nested, ends := Or.inl ⟨t, rfl, ht⟩ }
  · have hhead : (c :: lineEnd ++ rest).head? = (c :: lineEnd ++ []).head? := rfl
    refine ⟨value, c :: lineEnd, rfl, ?_⟩
    exact { h with
      nested := nested_of_head? hhead h.nested
      ends := Or.inr (Or.inl ⟨c, lineEnd, rfl, isLineComment_alone hc,
        takesLineEnd_alone htakes⟩) }
  · rcases h.last_comment with hlast | ⟨front, c, rfl, hkind, hsays, hnested⟩
    · refine ⟨value, [], rfl, ?_⟩
      exact { h with
        nested := h.nested.of_last hlast _
        ends := Or.inr (Or.inr ⟨rfl, Or.inl rfl⟩) }
    · have hhead : (c :: rest).head? = ([c] ++ []).head? := rfl
      have hline : IsLineComment c ([] ++ []) := ⟨hkind, Or.inr (Or.inr (Or.inl rfl))⟩
      refine ⟨front, [c], by rw [List.append_nil], ?_⟩
      exact { h with
        hasValue := hsays
        nested := nested_of_head? hhead hnested
        ends := Or.inr (Or.inl ⟨c, [], rfl, hline, Or.inr ⟨rfl, by simp⟩⟩) }

/-- A phrase cut out of its place stands for the same item. -/
theorem exists_fits_alone {p : Phrase} (h : p.Fits rest) :
    ∃ q : Phrase, q.Fits [] ∧ q.tokens = p.tokens ∧ q.item = p.item := by
  cases p with
  | trivia run =>
    obtain ⟨hne, hall, -⟩ := h
    exact ⟨.trivia run, ⟨hne, hall, by simp⟩, rfl, rfl⟩
  | assignment name equal value ending =>
    obtain ⟨value', ending', hsplit, hattr⟩ := exists_isAttribute_alone h
    refine ⟨.assignment name equal value' ending', hattr, ?_, ?_⟩
    · rw [Phrase.tokens, hsplit, Phrase.tokens]
    · rw [Phrase.item, hsplit, Phrase.item]
  | block f inside =>
    obtain ⟨hframe, hinside⟩ := h
    have hfoot : (f.foot ++ rest).head? = (f.foot ++ []).head? := rfl
    have hframe' : f.Fits (tokensOf inside) [] :=
      { hframe with
        openingEnd_takes := by
          refine takesLineEnd_of_head? ?_ hframe.openingEnd_takes
          rw [List.append_assoc, List.append_assoc]
          exact head?_append_congr (tokensOf inside) hfoot
        closingEnd_takes := takesLineEnd_alone hframe.closingEnd_takes }
    exact ⟨.block f inside, ⟨hframe', allFit_of_head? inside hfoot hinside⟩, rfl, rfl⟩

/-- Only the last of several phrases notices that they are cut out. -/
theorem exists_allFit_alone {ps : List Phrase} (h : AllFit rest ps) :
    ∃ qs, AllFit [] qs ∧ tokensOf qs = tokensOf ps ∧ itemsOf qs = itemsOf ps := by
  rcases List.eq_nil_or_concat' ps with rfl | ⟨front, p, rfl⟩
  · exact ⟨[], trivial, rfl, rfl⟩
  obtain ⟨hfront, hp, -⟩ := allFit_append.mp h
  obtain ⟨q, hq, htokens, hitem⟩ := exists_fits_alone hp
  have hlast : tokensOf [q] = tokensOf [p] := by
    rw [tokensOf_singleton, tokensOf_singleton, htokens]
  have hhead : (tokensOf [p] ++ rest).head? = (tokensOf [q] ++ []).head? := by
    rw [hlast, tokensOf_singleton, List.head?_append_of_ne_nil _ (tokens_ne_nil hp),
      List.head?_append_of_ne_nil _ (tokens_ne_nil hp)]
  refine ⟨front ++ [q], allFit_append.mpr ⟨allFit_of_head? front hhead hfront, hq, trivial⟩, ?_, ?_⟩
  · rw [tokensOf_append, tokensOf_append, hlast]
  · rw [itemsOf_append, itemsOf_append, itemsOf_singleton, itemsOf_singleton, hitem]

end Alone

end Grammar

/-! ## Pieces of a document -/

namespace Document

open Grammar

/-- The tokens of phrases that stand together in a source are read from their own text as the
    items that the phrases stand for. -/
theorem exists_parse_between {line : Int} {source : Text} {before after rest : List Token}
    {ps : List Phrase} (hcuts : Token.Cuts line source (before ++ (tokensOf ps ++ after)))
    (hfit : AllFit rest ps) (target : String) :
    ∃ k, parse target (Token.sourceOf (tokensOf ps)) =
      .ok ⟨Body.shift k (itemsOf ps), target⟩ := by
  obtain ⟨k, hts⟩ := hcuts.exists_ofText_between
  obtain ⟨qs, hqs, htokens, hitems⟩ := exists_allFit_alone hfit
  have hbody : ofTokens (tokensOf ps) = .ok (itemsOf ps) := by
    rw [← hitems]
    exact ofTokens_of_derives ⟨hqs, htokens⟩
  exact ⟨k, parse_eq_ok_iff.mpr ⟨_, _, hts, ofTokens_shift.mpr ⟨_, hbody, rfl⟩, rfl⟩⟩

/-- Every piece of a document that was read stands on its own: the text of an item, at any depth,
    is read as this item and nothing else, and the text inside a block as the body of the block,
    each on lines of its own. -/
theorem parse_pieces {filename : String} {source : Text} {d : Document}
    (h : parse filename source = .ok d) (target : String) :
    (∀ item, Body.Holds d.body item →
      ∃ k, parse target (Token.sourceOf item.tokens) = .ok ⟨[item.shift k], target⟩) ∧
    ∀ shell inner, Body.Holds d.body (.block shell inner) →
      ∃ k, parse target (Body.source inner) = .ok ⟨Body.shift k inner, target⟩ := by
  obtain ⟨ts, body, hts, hbody, rfl⟩ := parse_eq_ok_iff.mp h
  obtain ⟨ps, ⟨hfit, rfl⟩, rfl⟩ := exists_derivation hbody
  have hcuts := Token.ofTextFrom_eq_ok_iff.mp hts
  constructor
  · intro item hholds
    obtain ⟨before, p, after, htokens, hp, rfl⟩ := exists_phrase_of_holds hfit hholds
    rw [List.append_nil] at htokens
    rw [htokens, ← tokensOf_singleton] at hcuts
    have halone : AllFit after [p] := ⟨hp, trivial⟩
    obtain ⟨k, hk⟩ := exists_parse_between hcuts halone target
    rw [tokensOf_singleton] at hk
    refine ⟨k, ?_⟩
    rw [tokens_item, hk, itemsOf_singleton, Body.shift, Body.shift]
  · intro shell inner hholds
    obtain ⟨before, p, after, htokens, hp, hitem⟩ := exists_phrase_of_holds hfit hholds
    cases p with
    | trivia => cases hitem
    | assignment => cases hitem
    | block f inside =>
      obtain ⟨-, rfl⟩ := Item.block.inj hitem
      have hinside : tokensOf ps =
          (before ++ f.head) ++ (tokensOf inside ++ (f.foot ++ after)) := by
        rw [List.append_nil] at htokens
        rw [htokens, Phrase.tokens]
        simp only [List.append_assoc]
      rw [hinside] at hcuts
      rw [Body.source, tokens_itemsOf]
      exact exists_parse_between hcuts hp.2 target

/-- A block whose attribute ends at the closing brace, with a comment before it. -/
def commentBeforeBrace : Text :=
  "b \x7b a = 1 /* one */ \x7d\n".toList

/-- Its attribute, which the comment belongs to. -/
def commentBeforeBraceAttribute : Attribute where
  name := ['a']
  tokens := [⟨.ident, ['a'], [' '], 1⟩, ⟨.equal, ['='], [' '], 1⟩, ⟨.number, ['1'], [' '], 1⟩,
    ⟨.comment, "/* one */".toList, [' '], 1⟩]

/-- The block around it. -/
def commentBeforeBraceShell : Shell where
  type := ['b']
  labels := []
  opening := [⟨.ident, ['b'], [], 1⟩, ⟨.openBrace, ['\x7b'], [' '], 1⟩]
  closing := [⟨.closeBrace, ['\x7d'], [' '], 1⟩, ⟨.newline, ['\n'], [], 1⟩]

/-- The attribute, cut out with its comment, is read as itself; and so is the inside of the block,
    which is the same text. -/
theorem parse_pieces_commentBeforeBrace :
    parse "a.tf" commentBeforeBrace =
        .ok ⟨[.block commentBeforeBraceShell [.attribute commentBeforeBraceAttribute]], "a.tf"⟩ ∧
      (∃ k, parse "b.tf" " a = 1 /* one */".toList =
        .ok ⟨[.attribute (commentBeforeBraceAttribute.shift k)], "b.tf"⟩) ∧
      ∃ k, parse "b.tf" (Body.source [.attribute commentBeforeBraceAttribute]) =
        .ok ⟨Body.shift k [.attribute commentBeforeBraceAttribute], "b.tf"⟩ := by
  have hparse : parse "a.tf" commentBeforeBrace =
      .ok ⟨[.block commentBeforeBraceShell [.attribute commentBeforeBraceAttribute]], "a.tf"⟩ := by
    decide +kernel
  obtain ⟨hitems, hbodies⟩ := parse_pieces hparse "b.tf"
  have hinner : Body.Holds [.attribute commentBeforeBraceAttribute]
      (.attribute commentBeforeBraceAttribute) := .here List.mem_cons_self
  exact ⟨hparse, hitems _ (.inside List.mem_cons_self hinner),
    hbodies _ _ (.here List.mem_cons_self)⟩

end Document

end HclQuery
