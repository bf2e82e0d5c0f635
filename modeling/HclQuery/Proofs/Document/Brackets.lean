/-
  How brackets in values nest.

  The reader counts the brackets that are open and does not look at their kinds. So the brackets of
  a value that was read nest as they do in any well-formed text, each closing one with the last
  opening one that is still open (`Balanced`), but a parenthesis may close a list. What does not
  nest even so is rejected: a bracket that is closed before any is open, and one that is open at the
  end of the input (`brackets_nest`). That the kinds agree as well cannot be said: `not_nestByKind`.
-/
import Mathlib.Data.List.Infix
import HclQuery.Proofs.Document.Assignment
import HclQuery.Proofs.Document.Progress

namespace HclQuery

namespace TokenKind

theorem isClosing_of_isOpening {k : TokenKind} (h : k.isOpening = true) : k.isClosing = false := by
  cases k <;> first | rfl | cases h

theorem not_bracket_of_isTrivia {k : TokenKind} (h : k.isTrivia = true) :
    k.isOpening = false ∧ k.isClosing = false := by
  cases k <;> first | exact ⟨rfl, rfl⟩ | cases h

end TokenKind

namespace Grammar

/-! ## Nesting -/

/-- The brackets nest: each is closed by one that fits it, and what stands between the two nests. -/
inductive Balanced (fits : TokenKind → TokenKind → Prop) : List TokenKind → Prop where
  | nil : Balanced fits []
  | pair {opening closing : TokenKind} {inner rest : List TokenKind}
      (hopening : opening.isOpening = true) (hclosing : closing.isClosing = true)
      (hfits : fits opening closing) (hinner : Balanced fits inner) (hrest : Balanced fits rest) :
      Balanced fits (opening :: (inner ++ closing :: rest))

/-- Two brackets that nest fit. -/
theorem Balanced.fits_pair {fits : TokenKind → TokenKind → Prop} {first last : TokenKind}
    (h : Balanced fits [first, last]) : fits first last := by
  generalize hks : [first, last] = ks at h
  cases h with
  | nil => cases hks
  | @pair opening closing inner rest hopening hclosing hfits hinner hrest =>
    obtain ⟨rfl, htail⟩ := List.cons.inj hks
    cases inner with
    | nil =>
      obtain ⟨rfl, -⟩ := List.cons.inj htail
      exact hfits
    | cons k inner => simp at htail

/-- Brackets of one kind. -/
inductive SameKind : TokenKind → TokenKind → Prop where
  | brace : SameKind .openBrace .closeBrace
  | bracket : SameKind .openBracket .closeBracket
  | paren : SameKind .openParen .closeParen

/-- Any two brackets. -/
def AnyKind (_ _ : TokenKind) : Prop :=
  True

/-- The brackets close `depth` ones that are open before them, and nest apart from that. -/
inductive Closes (fits : TokenKind → TokenKind → Prop) : Nat → List TokenKind → Prop where
  | balanced {ks : List TokenKind} (h : Balanced fits ks) : Closes fits 0 ks
  | close {depth : Nat} {closing : TokenKind} {inner rest : List TokenKind}
      (hinner : Balanced fits inner) (hclosing : closing.isClosing = true)
      (hrest : Closes fits depth rest) : Closes fits (depth + 1) (inner ++ closing :: rest)

/-- If the kinds are not compared, an opening bracket is closed by the first one to close. -/
theorem Closes.opening {depth : Nat} {opening : TokenKind} {ks : List TokenKind}
    (hopening : opening.isOpening = true) (h : Closes AnyKind (depth + 1) ks) :
    Closes AnyKind depth (opening :: ks) := by
  cases h with
  | @close _ closing inner rest hinner hclosing hrest =>
    -- What nests behind the new pair stands next to it, in front of the bracket that closes next.
    cases hrest with
    | balanced hrest => exact .balanced (.pair hopening hclosing trivial hinner hrest)
    | @close depth closing' inner' rest' hinner' hclosing' hrest' =>
      have hpair : Balanced AnyKind (opening :: (inner ++ closing :: inner')) :=
        .pair hopening hclosing trivial hinner hinner'
      have hclose := Closes.close hpair hclosing' hrest'
      simpa using hclose

/-! ## The brackets of tokens -/

/-- The kinds of the brackets among the tokens. -/
def brackets (ts : List Token) : List TokenKind :=
  (ts.map Token.kind).filter fun k => k.isOpening || k.isClosing

theorem brackets_append (ts us : List Token) :
    brackets (ts ++ us) = brackets ts ++ brackets us := by
  rw [brackets, List.map_append, List.filter_append]
  rfl

theorem brackets_cons_of_bracket {t : Token} (h : t.kind.isOpening = true ∨ t.kind.isClosing = true)
    (ts : List Token) : brackets (t :: ts) = t.kind :: brackets ts := by
  rw [brackets, List.map_cons, List.filter_cons_of_pos (by rwa [Bool.or_eq_true])]
  rfl

theorem brackets_cons_of_not_bracket {t : Token} (hopening : t.kind.isOpening = false)
    (hclosing : t.kind.isClosing = false) (ts : List Token) :
    brackets (t :: ts) = brackets ts := by
  rw [brackets, List.map_cons, List.filter_cons_of_neg (by rw [hopening, hclosing]; decide)]
  rfl

theorem brackets_of_trivia {ts : List Token} (h : ∀ t ∈ ts, t.isTrivia = true) :
    brackets ts = [] := by
  rw [brackets, List.filter_eq_nil_iff]
  intro k hk
  obtain ⟨t, ht, rfl⟩ := List.mem_map.mp hk
  obtain ⟨hopening, hclosing⟩ := TokenKind.not_bracket_of_isTrivia (h t ht)
  rw [hopening, hclosing]
  decide

/-- A value closes as many brackets as are open before it, and nests apart from that. -/
theorem Nested.closes {depth : Nat} {value rest : List Token} (h : Nested depth value rest) :
    Closes AnyKind depth (brackets value) := by
  induction value generalizing depth with
  | nil =>
    rw [Document.nested_nil.mp h]
    exact .balanced .nil
  | cons t value ih =>
    obtain ⟨-, hpositive, hnested⟩ := Document.nested_cons.mp h
    have hcloses := ih hnested
    unfold Document.depthAfter at hcloses
    by_cases hopening : t.kind.isOpening = true
    · rw [if_pos hopening] at hcloses
      rw [brackets_cons_of_bracket (Or.inl hopening)]
      exact hcloses.opening hopening
    · rw [if_neg hopening] at hcloses
      by_cases hclosing : t.kind.isClosing = true
      · obtain ⟨k, rfl⟩ := Nat.exists_eq_add_of_lt (hpositive hclosing)
        rw [if_pos hclosing] at hcloses
        rw [brackets_cons_of_bracket (Or.inr hclosing), Nat.zero_add]
        rw [Nat.zero_add, Nat.add_sub_cancel] at hcloses
        exact .close .nil hclosing hcloses
      · rw [if_neg hclosing] at hcloses
        rw [brackets_cons_of_not_bracket (Bool.eq_false_iff.mpr hopening)
          (Bool.eq_false_iff.mpr hclosing)]
        exact hcloses

theorem Nested.balanced {value rest : List Token} (h : Nested 0 value rest) :
    Balanced AnyKind (brackets value) := by
  cases h.closes with
  | balanced h => exact h

theorem IsEnding.isTrivia {ending rest : List Token} (h : IsEnding ending rest) :
    ∀ t ∈ ending, t.isTrivia = true := by
  have htrivia : ∀ {t : Token}, t.kind = .newline ∨ t.kind = .comment → t.isTrivia = true := by
    intro t hkind
    unfold Token.isTrivia
    rcases hkind with hkind | hkind <;> rw [hkind] <;> rfl
  rcases h with ⟨t, rfl, hkind⟩ | ⟨t, lineEnd, rfl, ⟨hkind, -⟩, htakes⟩ | ⟨rfl, -⟩
  · simpa using htrivia (Or.inl hkind)
  · rcases htakes with ⟨u, rfl, hu⟩ | ⟨rfl, -⟩
    · simpa using ⟨htrivia (Or.inr hkind), htrivia (Or.inl hu)⟩
    · simpa using htrivia (Or.inr hkind)
  · simp

end Grammar

namespace Document

open Grammar

variable {filename : String} {source : Text} {name equal t opening : Token}
  {value before after ts : List Token} {s : State} {fault : Fault}

/-- The brackets of an expression that was read nest. -/
theorem balanced_exprTokens {d : Document} {a : Attribute} (h : parse filename source = .ok d)
    (ha : Body.Holds d.body (.attribute a)) : Balanced AnyKind (brackets a.exprTokens) := by
  obtain ⟨before, name, equal, value, ending, after, -, hattr, rfl⟩ :=
    exists_assignment_of_holds h ha
  have hending : brackets (Attribute.withoutLineEnd ending) = [] :=
    brackets_of_trivia fun t ht =>
      hattr.ends.isTrivia t ((Attribute.withoutLineEnd_prefix ending).subset ht)
  rw [Attribute.exprTokens_assignment hattr, brackets_append, hending, List.append_nil]
  exact hattr.nested.balanced

/-! ## Values that are rejected -/

/-- A fault behind tokens that nest is a fault of the value. -/
theorem cutValue_fault {depth : Nat} {front rest : List Token} (hnested : Nested depth front rest)
    (h : cutValue name 0 rest = .error fault) :
    cutValue name depth (front ++ rest) = .error fault := by
  induction front generalizing depth with
  | nil =>
    rw [nested_nil.mp hnested]
    exact h
  | cons t front ih =>
    obtain ⟨hline, hclose, hnested⟩ := nested_cons.mp hnested
    rw [List.cons_append, cutValue_push hline hclose, ih hnested]
    rfl

/-- A closing parenthesis or square bracket outside brackets is none of the value. -/
theorem cutValue_unbalanced (h : t.kind = .closeParen ∨ t.kind = .closeBracket) :
    cutValue name 0 (t :: after) = .error ⟨t.line, .unbalanced t.text name.text⟩ := by
  rcases h with hkind | hkind <;> simp [cutValue, hkind, TokenKind.isClosing]

/-- Inside brackets that are not closed the value does not end. -/
theorem cutValue_unclosed {depth : Nat}
    (h : ∀ start, start <+: after → 0 < depth + netDepth start) :
    cutValue name depth after = .error ⟨name.line, .unclosedBracket name.text⟩ := by
  have hdepth : 0 < depth := by
    have := h [] List.nil_prefix
    have hnil : netDepth [] = 0 := rfl
    omega
  induction after generalizing depth with
  | nil => rw [cutValue, if_neg (Nat.pos_iff_ne_zero.mp hdepth)]
  | cons t after ih =>
    have hafter := depthAfter_eq (t := t) fun _ => hdepth
    have hstart : ∀ start, start <+: after → 0 < (depthAfter depth t : Int) + netDepth start := by
      intro start hstart
      have := h (t :: start) (List.cons_prefix_cons.mpr ⟨rfl, hstart⟩)
      rw [netDepth_cons] at this
      omega
    have hpositive : 0 < depthAfter depth t := by
      have := hstart [] List.nil_prefix
      have hnil : netDepth [] = 0 := rfl
      omega
    rw [cutValue_push (fun h0 => absurd h0 (Nat.pos_iff_ne_zero.mp hdepth)) (fun _ => hdepth),
      ih hstart hpositive]
    rfl

/-- A fault of a value is a fault of the source. -/
theorem parse_of_value_fault (hts : Token.ofText source = .ok ts)
    (h : Reaches ts s (name :: equal :: value)) (hname : name.kind = .ident)
    (hequal : equal.kind = .equal) (hvalue : cutValue name 0 value = .error fault) :
    parse filename source = .error ⟨filename, fault⟩ := by
  have hread : readAttribute name equal value = .error fault := by
    rw [readAttribute, hvalue]
  refine parse_of_ofTokens_fault hts (h.ofTokens_fault ?_)
  simp [State.step, Token.isTrivia, TokenKind.isTrivia, hname, hequal, hread, Except.map]

/-! ## Brackets of values -/

/-- Brackets nest, their kinds not compared. In every attribute of a document that was read, each
    closing bracket of the expression closes the last one that is still open. A value in which a
    parenthesis or square bracket is closed where none is open is rejected, and so is one in which a
    bracket is open to the end of the input. -/
theorem brackets_nest (filename : String) (source : Text) :
    (∀ d a, parse filename source = .ok d → Body.Holds d.body (.attribute a) →
      Balanced AnyKind (brackets a.exprTokens)) ∧
    (∀ ts s name equal value t after, Token.ofText source = .ok ts →
      Reaches ts s (name :: equal :: (value ++ t :: after)) → name.kind = .ident →
      equal.kind = .equal → Nested 0 value (t :: after) →
      (t.kind = .closeParen ∨ t.kind = .closeBracket) →
      parse filename source = .error ⟨filename, t.line, .unbalanced t.text name.text⟩) ∧
    (∀ ts s name equal value opening after, Token.ofText source = .ok ts →
      Reaches ts s (name :: equal :: (value ++ opening :: after)) → name.kind = .ident →
      equal.kind = .equal → Nested 0 value (opening :: after) → opening.kind.isOpening = true →
      (∀ start, start <+: after → 0 < 1 + netDepth start) →
      parse filename source = .error ⟨filename, name.line, .unclosedBracket name.text⟩) := by
  refine ⟨fun d a h ha => balanced_exprTokens h ha, ?_, ?_⟩
  · intro ts s name equal value t after hts hreaches hname hequal hnested hkind
    exact parse_of_value_fault hts hreaches hname hequal
      (cutValue_fault hnested (cutValue_unbalanced hkind))
  · intro ts s name equal value opening after hts hreaches hname hequal hnested hopening hopen
    have hdepth : depthAfter 0 opening = 1 := if_pos hopening
    have hline : opening.kind ≠ .newline ∧ ¬ IsLineComment opening after := by
      refine ⟨fun hkind => ?_, fun hline => ?_⟩
      · rw [hkind] at hopening
        cases hopening
      · rw [hline.1] at hopening
        cases hopening
    have hclosing : opening.kind.isClosing = true → 0 < 0 := by
      intro hclosing
      rw [TokenKind.isClosing_of_isOpening hopening] at hclosing
      cases hclosing
    refine parse_of_value_fault hts hreaches hname hequal (cutValue_fault hnested ?_)
    rw [cutValue_push (fun _ => hline) hclosing, hdepth, cutValue_unclosed hopen]
    rfl

/-- A list that a parenthesis closes. -/
def listAndParen : Text :=
  "a = [1)\n".toList

/-- Its attribute. -/
def listAndParenAttribute : Attribute where
  name := ['a']
  tokens := [⟨.ident, ['a'], [], 1⟩, ⟨.equal, ['='], [' '], 1⟩, ⟨.openBracket, ['['], [' '], 1⟩,
    ⟨.number, ['1'], [], 1⟩, ⟨.closeParen, [')'], [], 1⟩, ⟨.newline, ['\n'], [], 1⟩]

theorem parse_listAndParen :
    parse "a.tf" listAndParen = .ok ⟨[.attribute listAndParenAttribute], "a.tf"⟩ := by
  decide +kernel

/-- The list nests, a parenthesis is closed too early, and a list is never closed. -/
theorem brackets_nest_listAndParen :
    Balanced AnyKind (brackets listAndParenAttribute.exprTokens) ∧
    parse "a.tf" "a = 1)\n".toList = .error ⟨"a.tf", 1, .unbalanced [')'] ['a']⟩ ∧
    parse "a.tf" "a = [1\n".toList = .error ⟨"a.tf", 1, .unclosedBracket ['a']⟩ := by
  obtain ⟨hparen, hlist⟩ :
      Token.ofText "a = 1)\n".toList =
          .ok [⟨.ident, ['a'], [], 1⟩, ⟨.equal, ['='], [' '], 1⟩, ⟨.number, ['1'], [' '], 1⟩,
            ⟨.closeParen, [')'], [], 1⟩, ⟨.newline, ['\n'], [], 1⟩] ∧
        Token.ofText "a = [1\n".toList =
          .ok [⟨.ident, ['a'], [], 1⟩, ⟨.equal, ['='], [' '], 1⟩, ⟨.openBracket, ['['], [' '], 1⟩,
            ⟨.number, ['1'], [], 1⟩, ⟨.newline, ['\n'], [], 1⟩] :=
    ⟨by decide +kernel, by decide +kernel⟩
  have hnil : ∀ rest, Nested 0 [] rest := fun rest => nested_nil.mpr rfl
  have hnumber : ∀ rest, Nested 0 [⟨.number, ['1'], [' '], 1⟩] rest := fun rest =>
    nested_cons.mpr ⟨by simp [IsLineComment], by simp [TokenKind.isClosing], hnil rest⟩
  refine ⟨(brackets_nest "a.tf" _).1 _ _ parse_listAndParen (.here List.mem_cons_self), ?_, ?_⟩
  · exact (brackets_nest "a.tf" _).2.1 _ _ _ _ [_] _ _ hparen .start rfl rfl (hnumber _)
      (Or.inl rfl)
  · have hopen : ∀ start ∈ [⟨.number, ['1'], [], 1⟩, ⟨.newline, ['\n'], [], 1⟩].inits,
        0 < 1 + netDepth start := by decide
    exact (brackets_nest "a.tf" _).2.2 _ _ _ _ [] _ _ hlist .start rfl rfl (hnil _) rfl
      fun start hstart => hopen start ((List.mem_inits _ _).mpr hstart)

/-! ## Kinds of brackets -/

/-- In every attribute of the source each closing bracket closes one of its own kind. -/
def NestByKind (source : Text) : Prop :=
  ∀ filename d a, parse filename source = .ok d → Body.Holds d.body (.attribute a) →
    Balanced SameKind (brackets a.exprTokens)

theorem not_nestByKind_of_brackets {d : Document} {a : Attribute} {first last : TokenKind}
    (hparse : parse filename source = .ok d) (ha : Body.Holds d.body (.attribute a))
    (hbrackets : brackets a.exprTokens = [first, last]) (hkinds : ¬ SameKind first last) :
    ¬ NestByKind source := by
  intro h
  have hbalanced := h filename d a hparse ha
  rw [hbrackets] at hbalanced
  exact hkinds hbalanced.fits_pair

/-- A list that the closing brace of the block around it closes. -/
def listAndBrace : Text :=
  "b \x7b\n a = [ \x7d\n\x7d\n".toList

/-- Its attribute. -/
def listAndBraceAttribute : Attribute where
  name := ['a']
  tokens := [⟨.ident, ['a'], [' '], 2⟩, ⟨.equal, ['='], [' '], 2⟩, ⟨.openBracket, ['['], [' '], 2⟩,
    ⟨.closeBrace, ['\x7d'], [' '], 2⟩, ⟨.newline, ['\n'], [], 2⟩]

/-- The block around it. -/
def listAndBraceShell : Shell where
  type := ['b']
  labels := []
  opening := [⟨.ident, ['b'], [], 1⟩, ⟨.openBrace, ['\x7b'], [' '], 1⟩, ⟨.newline, ['\n'], [], 1⟩]
  closing := [⟨.closeBrace, ['\x7d'], [], 3⟩, ⟨.newline, ['\n'], [], 3⟩]

theorem parse_listAndBrace :
    parse "a.tf" listAndBrace =
      .ok ⟨[.block listAndBraceShell [.attribute listAndBraceAttribute]], "a.tf"⟩ := by
  decide +kernel

/-- A parenthesis closes a list, and so does a brace. -/
theorem not_nestByKind : ¬ NestByKind listAndParen ∧ ¬ NestByKind listAndBrace := by
  have hinner : Body.Holds [.attribute listAndBraceAttribute] (.attribute listAndBraceAttribute) :=
    .here List.mem_cons_self
  refine ⟨not_nestByKind_of_brackets parse_listAndParen (.here List.mem_cons_self) rfl ?_,
    not_nestByKind_of_brackets parse_listAndBrace (.inside List.mem_cons_self hinner) rfl ?_⟩
  · rintro ⟨⟩
  · rintro ⟨⟩

end Document

end HclQuery
