/-
  The copy of an expression behind another name.

  The expression of an attribute that was read is cut from a part of the source
  (`cuts_exprTokens`). Its copy puts another name and ` = ` in front of it and a line end behind
  it, whatever stood there before: a line end, a comment, a closing brace, or nothing. The grammar
  takes this as an assignment with the same expression (`exists_isAttribute_newline`), and so the
  copy is read back (`parse_copyText`), unless the expression hangs open: the line end then makes
  a heredoc header of its last tokens (`parse_copyText_hangsOpen`).
-/
import HclQuery.Proofs.Document.Assignment
import HclQuery.Proofs.Document.Shift

namespace HclQuery

/-! ## Copies are cut as they were -/

namespace Token

variable {line : Int} {t x y : Text} {ts : List Token}

/-- The tokens with one space in front of them. -/
def spaced (ts : List Token) : List Token :=
  ts.modifyHead ({ · with leading := [' '] })

theorem hangsOpen_spaced (ts : List Token) : hangsOpen (spaced ts) = hangsOpen ts := by
  cases ts <;> rfl

theorem map_shift_spaced (k : Int) (ts : List Token) :
    (spaced ts).map (shift k) = spaced (ts.map (shift k)) := by
  cases ts <;> rfl

theorem hangsOpen_shift (k : Int) (ts : List Token) :
    hangsOpen (ts.map (shift k)) = hangsOpen ts := by
  induction ts with
  | nil => rfl
  | cons t ts ih =>
    rw [List.map_cons, hangsOpen, hangsOpen, sourceOf_shift, ih]
    rfl

/-- The tokens are the same but for where they stand. -/
structure SameWord (t u : Token) : Prop where
  kind : t.kind = u.kind
  text : t.text = u.text

theorem SameWord.alike {t u : Token} (h : t.SameWord u) : t.Alike u :=
  alike_of_eq h.kind h.text

theorem sameWord_copy (k : Int) (ts : List Token) :
    List.Forall₂ SameWord ts (spaced (ts.map (shift k))) := by
  have hsame : ∀ us : List Token, List.Forall₂ SameWord us (us.map (shift k)) := fun us =>
    List.forall₂_map_right_iff.mpr (List.forall₂_same.mpr fun _ _ => ⟨rfl, rfl⟩)
  cases ts with
  | nil => exact .nil
  | cons t ts => exact .cons ⟨rfl, rfl⟩ (hsame ts)

theorem text_ne_nil_spaced (h : ∀ u ∈ ts, u.text ≠ []) : ∀ u ∈ spaced ts, u.text ≠ [] := by
  cases ts with
  | nil => exact h
  | cons v ts =>
    intro u hu
    rcases List.mem_cons.mp hu with rfl | hu
    · exact h v List.mem_cons_self
    · exact h u (List.mem_cons_of_mem v hu)

theorem text_ne_nil_shift (k : Int) (h : ∀ u ∈ ts, u.text ≠ []) :
    ∀ u ∈ ts.map (shift k), u.text ≠ [] := by
  intro u hu
  obtain ⟨v, hv, rfl⟩ := List.mem_map.mp hu
  exact h v hv

/-- Other blanks in front of a text do not change how it is cut. -/
theorem Cuts.spaced (h : Cuts line t ts) (htexts : ∀ u ∈ ts, u.text ≠ []) :
    Cuts line (sourceOf (Token.spaced ts)) (Token.spaced ts) := by
  cases ts with
  | nil => exact .done
  | cons u ts =>
    obtain ⟨leading, c, cs, l, -, hc, hread, rfl, rfl, hrest⟩ :=
      h.of_cons (htexts u List.mem_cons_self)
    have hsource : sourceOf (Token.spaced (⟨l.kind, l.text c cs, leading, line⟩ :: ts)) =
        [' '] ++ c :: cs := by
      rw [Token.spaced, List.modifyHead_cons, sourceOf_cons, hrest.sourceOf_eq, List.append_assoc,
        l.text_append_rest]
    rw [hsource]
    exact .lexeme (by simp [isLeading]) hc hread hrest

/-- The text is a name. -/
def IsName (x : Text) : Prop :=
  ofText x = .ok [⟨.ident, x, [], 1⟩]

/-- A name is a word that starts with no digit. -/
theorem IsName.exists_word (h : IsName x) :
    ∃ c cs, x = c :: cs ∧ Unicode.isWord c = true ∧ Unicode.isDecimal c = false ∧
      ∀ d ∈ cs, Heredoc.continuesName d = true := by
  have hcuts := ofTextFrom_eq_ok_iff.mp h
  have hne : x ≠ [] := by
    rintro rfl
    cases ofTextFrom_nil.symm.trans h
  obtain ⟨leading, c, cs, l, -, -, hread, hx, hu, hrest⟩ := hcuts.of_cons hne
  obtain ⟨hkind, htext, hleading⟩ : TokenKind.ident = l.kind ∧ x = l.text c cs ∧ [] = leading := by
    injection hu
    exact ⟨by assumption, by assumption, by assumption⟩
  subst hleading
  rw [List.nil_append] at hx
  obtain ⟨hword, hdecimal, hmore⟩ := Lexeme.ident_of_read hread hkind.symm
  refine ⟨c, cs, hx, hword, hdecimal, ?_⟩
  have hwhole : cs.take l.more = cs := (List.cons.inj (htext.symm.trans hx)).2
  rw [hmore, ← List.prefix_iff_eq_take.mp (List.takeWhile_prefix _)] at hwhole
  exact List.takeWhile_eq_self_iff.mp hwhole

theorem ofTextFrom_name (hx : IsName x) (line : Int) (y : Text) :
    ofTextFrom line (x ++ ' ' :: y) =
      (ofTextFrom (line + Text.newlines x) (' ' :: y)).map (⟨.ident, x, [], line⟩ :: ·) := by
  obtain ⟨c, cs, rfl, hword, hdecimal, hcs⟩ := hx.exists_word
  have hc : isLeading c = false := by
    cases hleading : isLeading c with
    | false => rfl
    | true =>
      have hblank := Unicode.isBlank_of_isLeading hleading
      rw [Unicode.isBlank_of_isWord hword] at hblank
      cases hblank
  have htake : (cs ++ ' ' :: y).takeWhile Heredoc.continuesName = cs := by
    rw [List.takeWhile_append_of_pos hcs, List.takeWhile_cons_of_neg (by decide), List.append_nil]
  have hread : Lexeme.read c (cs ++ ' ' :: y) = .ok ⟨.ident, cs.length⟩ := by
    have hreads : Lexeme.Reads c (cs ++ ' ' :: y) _ := .ident hword hdecimal
    rw [htake] at hreads
    exact Lexeme.read_of_reads hreads
  have hcut : ofTextFrom line ([] ++ c :: (cs ++ ' ' :: y)) = _ :=
    ofTextFrom_lexeme (by simp) hc hread
  rw [Lexeme.text, Lexeme.rest, List.take_left' rfl, List.drop_left' rfl] at hcut
  exact hcut

theorem ofTextFrom_equal (line : Int) (y : Text) :
    ofTextFrom line (' ' :: '=' :: ' ' :: y) =
      (ofTextFrom line (' ' :: y)).map (⟨.equal, ['='], [' '], line⟩ :: ·) := by
  have hread : Lexeme.read '=' (' ' :: y) = .ok ⟨.equal, 0⟩ := rfl
  have hcut : ofTextFrom line ([' '] ++ '=' :: ' ' :: y) =
      (ofTextFrom (line + Text.newlines ['=']) (' ' :: y)).map
        (⟨.equal, ['='], [' '], line⟩ :: ·) :=
    ofTextFrom_lexeme (by simp [isLeading]) (by decide) hread
  have hline : Text.newlines ['='] = 0 := by decide
  rw [hline, Int.natCast_zero, Int.add_zero] at hcut
  exact hcut

/-! ### The text of a copy -/

/-- What a copy of the expression says behind the name. -/
def copyText (expr : List Token) : Text :=
  ' ' :: '=' :: (sourceOf (spaced expr) ++ ['\n'])

theorem ofText_copyText {expr : List Token} (hx : IsName x) (hne : expr ≠ []) :
    ofText (x ++ copyText expr) =
      (ofTextFrom (1 + Text.newlines x) (sourceOf (spaced expr) ++ ['\n'])).map fun us =>
        ⟨.ident, x, [], 1⟩ :: ⟨.equal, ['='], [' '], 1 + Text.newlines x⟩ :: us := by
  obtain ⟨y, hy⟩ : ∃ y, sourceOf (spaced expr) = ' ' :: y := by
    cases expr with
    | nil => exact absurd rfl hne
    | cons u us =>
      refine ⟨u.text ++ sourceOf us, ?_⟩
      rw [spaced, List.modifyHead_cons, sourceOf_cons]
      rfl
  rw [copyText, hy, List.cons_append, ofText, ofTextFrom_name hx, ofTextFrom_equal]
  cases ofTextFrom (1 + Text.newlines x) (' ' :: (y ++ ['\n'])) <;> rfl

section Copy

variable {expr : List Token}

/-- On any line, and with one space in front of it, the expression is cut as it was. -/
theorem exists_ofTextFrom_spaced (hcuts : Cuts line (sourceOf expr) expr)
    (htexts : ∀ u ∈ expr, u.text ≠ []) (start : Int) :
    ∃ k, ofTextFrom start (sourceOf (spaced expr)) = .ok (spaced (expr.map (shift k))) := by
  have hcut := ofTextFrom_eq_ok_iff.mpr (hcuts.spaced htexts)
  have hshift := ofTextFrom_shift line (start - line) (sourceOf (spaced expr))
  have hline : line + (start - line) = start := by omega
  rw [hcut, hline] at hshift
  refine ⟨start - line, ?_⟩
  rw [hshift, ← map_shift_spaced]
  rfl

/-- The copy of an expression that does not hang open is cut as the expression was. -/
theorem exists_ofText_copyText (hx : IsName x) (hne : expr ≠ [])
    (hcuts : Cuts line (sourceOf expr) expr) (htexts : ∀ u ∈ expr, u.text ≠ [])
    (hopen : hangsOpen expr = false) :
    ∃ k below, ofText (x ++ copyText expr) = .ok
      (⟨.ident, x, [], 1⟩ :: ⟨.equal, ['='], [' '], 1 + Text.newlines x⟩ ::
        (spaced (expr.map (shift k)) ++ [⟨.newline, ['\n'], [], below⟩])) := by
  obtain ⟨k, hk⟩ := exists_ofTextFrom_spaced hcuts htexts (1 + Text.newlines x)
  have hlater : hangsOpen (spaced (expr.map (shift k))) = false := by
    rw [hangsOpen_spaced, hangsOpen_shift, hopen]
  have hnewline : ∀ below, ofTextFrom below ['\n'] = .ok [⟨.newline, ['\n'], [], below⟩] := by
    intro below
    have hread : Lexeme.read '\n' [] = .ok ⟨.newline, 0⟩ := rfl
    have hcut : ofTextFrom below ([] ++ '\n' :: []) = _ :=
      ofTextFrom_lexeme (by simp) (by decide) hread
    rw [Lexeme.rest, List.drop_nil, ofTextFrom_nil] at hcut
    exact hcut
  refine ⟨k, 1 + Text.newlines x + Text.newlines (sourceOf (spaced expr)), ?_⟩
  rw [ofText_copyText hx hne,
    ofTextFrom_append hk (text_ne_nil_spaced (text_ne_nil_shift k htexts))
      (fun _ => Or.inr (Or.inr rfl)) hlater, hnewline]
  rfl

/-- The copy of an expression that hangs open is not cut at all. -/
theorem exists_ofText_copyText_hangsOpen (hx : IsName x) (hne : expr ≠ [])
    (hcuts : Cuts line (sourceOf expr) expr) (htexts : ∀ u ∈ expr, u.text ≠ [])
    (hopen : hangsOpen expr = true) :
    ∃ below marker, ofText (x ++ copyText expr) =
      .error ⟨below, .unterminatedHeredoc marker⟩ := by
  obtain ⟨k, hk⟩ := exists_ofTextFrom_spaced hcuts htexts (1 + Text.newlines x)
  have hlater : hangsOpen (spaced (expr.map (shift k))) = true := by
    rw [hangsOpen_spaced, hangsOpen_shift, hopen]
  obtain ⟨below, marker, hfault⟩ :=
    ofTextFrom_hangsOpen hk (text_ne_nil_spaced (text_ne_nil_shift k htexts)) hlater
  refine ⟨below, marker, ?_⟩
  rw [ofText_copyText hx hne, hfault]
  rfl

end Copy

end Token

/-- What is written of an assignment that was made of an expression. -/
theorem Attribute.sourceOf_ofExpr (name : Text) (expr : List Token) :
    Token.sourceOf (ofExpr name expr).tokens = name ++ Token.copyText expr := by
  rw [ofExpr, Token.sourceOf_cons, Token.sourceOf_cons, Token.sourceOf_append]
  rfl

/-! ## The grammar of a copy -/

namespace Grammar

variable {name equal : Token} {value ending rest : List Token}

/-- A comment at the end of a value may be left out of it, and ends no line. -/
theorem Nested.of_concat {depth : Nat} {u : Token} (h : Nested depth (value ++ [u]) rest)
    (hu : u.isTrivia = true) :
    Nested depth value (u :: rest) ∧ ¬ IsLineComment u rest := by
  have hdepth := h.closed
  rw [netDepth_concat hu] at hdepth
  refine ⟨⟨?_, hdepth, ?_⟩, ?_⟩
  · intro start hstart
    exact h.nonneg start (hstart.trans (List.prefix_append value [u]))
  · intro before t after hvalue hbefore
    have hwhole : value ++ [u] = before ++ t :: (after ++ [u]) := by rw [hvalue]; simp
    have hline := h.oneLine before t (after ++ [u]) hwhole hbefore
    rw [List.append_assoc] at hline
    exact hline
  · exact (h.oneLine value u [] rfl hdepth).2

/-- What follows a value matters to a comment at its end, and to nothing else. -/
theorem Nested.of_last {depth : Nat} (h : Nested depth value rest)
    (hlast : ∀ u ∈ value.getLast?, u.kind ≠ .comment) (rest' : List Token) :
    Nested depth value rest' where
  nonneg := h.nonneg
  closed := h.closed
  oneLine before t after hvalue hdepth := by
    obtain ⟨hnewline, hcomment⟩ := h.oneLine before t after hvalue hdepth
    refine ⟨hnewline, ?_⟩
    cases after with
    | nil =>
      have ht := hlast t (by rw [hvalue, List.getLast?_concat]; rfl)
      exact fun hline => ht hline.1
    | cons v after =>
      have hhead : (v :: after ++ rest).head? = (v :: after ++ rest').head? := rfl
      rw [isLineComment_of_head? hhead] at hcomment
      exact hcomment

theorem withoutLineEnd_comment {c : Token} {lineEnd : List Token} (hc : c.kind = .comment)
    (htakes : TakesLineEnd lineEnd rest) : Attribute.withoutLineEnd (c :: lineEnd) = [c] := by
  rcases htakes with ⟨v, rfl, hv⟩ | ⟨rfl, -⟩
  · exact Attribute.withoutLineEnd_append_newline hv [c]
  · simp [Attribute.withoutLineEnd, hc]

/-- An expression does not end with a line end. -/
theorem last_expr_ne_newline (h : IsAttribute name equal value ending rest) :
    ∀ t ∈ (value ++ Attribute.withoutLineEnd ending).getLast?, t.kind ≠ .newline := by
  rcases h.ends with ⟨t, rfl, ht⟩ | ⟨c, lineEnd, rfl, hc, htakes⟩ | ⟨rfl, -⟩
  · have hending : Attribute.withoutLineEnd [t] = [] :=
      Attribute.withoutLineEnd_append_newline ht []
    rw [hending, List.append_nil]
    exact h.nested.last_ne_newline
  · rw [withoutLineEnd_comment hc.1 htakes, List.getLast?_concat]
    intro t ht
    rw [← Option.some.inj ht, hc.1]
    decide
  · have hending : Attribute.withoutLineEnd [] = [] := rfl
    rw [hending, List.append_nil]
    exact h.nested.last_ne_newline

theorem isEnding_commentLine {c u : Token} (hc : c.kind = .comment) (hu : u.kind = .newline) :
    IsEnding [c, u] [] := by
  have hline : IsLineComment c ([u] ++ []) := ⟨hc, Or.inr (Or.inr (Or.inr ⟨u, rfl, hu⟩))⟩
  exact Or.inr (Or.inl ⟨c, [u], rfl, hline, Or.inl ⟨u, rfl, hu⟩⟩)

/-- A value that nothing ends holds no comment in last place, or is a value without it. -/
theorem IsAttribute.last_comment (h : IsAttribute name equal value [] rest) :
    (∀ c ∈ value.getLast?, c.kind ≠ .comment) ∨
      ∃ front c, value = front ++ [c] ∧ c.kind = .comment ∧
        (∃ t ∈ front, t.isTrivia = false) ∧ Nested 0 front (c :: rest) := by
  by_cases hlast : ∃ c ∈ value.getLast?, c.kind = .comment
  · obtain ⟨c, hc, hkind⟩ := hlast
    obtain ⟨front, rfl⟩ := List.getLast?_eq_some_iff.mp hc
    have htrivia : c.isTrivia = true := by rw [Token.isTrivia, hkind]; rfl
    refine Or.inr ⟨front, c, rfl, hkind, ?_, (h.nested.of_concat htrivia).1⟩
    obtain ⟨t, ht, hsays⟩ := h.hasValue
    rcases List.mem_append.mp ht with ht | ht
    · exact ⟨t, ht, hsays⟩
    · rw [List.mem_singleton.mp ht, htrivia] at hsays
      cases hsays
  · exact Or.inl fun c hc hkind => hlast ⟨c, hc, hkind⟩

/-- With a line end behind it an expression is an assignment, wherever it was taken from. A
    comment at its end, which was part of the value before a closing brace, ends the line now. -/
theorem exists_isAttribute_newline (h : IsAttribute name equal value ending rest) {u : Token}
    (hu : u.kind = .newline) :
    ∃ value' ending', value' ++ ending' = value ++ Attribute.withoutLineEnd ending ++ [u] ∧
      IsAttribute name equal value' ending' [] := by
  rcases h.ends with ⟨t, rfl, ht⟩ | ⟨c, lineEnd, rfl, hc, htakes⟩ | ⟨rfl, -⟩
  · have hending : Attribute.withoutLineEnd [t] = [] :=
      Attribute.withoutLineEnd_append_newline ht []
    have hlast : ∀ c ∈ value.getLast?, c.kind ≠ .comment := by
      intro c hc hkind
      obtain ⟨front, rfl⟩ := List.getLast?_eq_some_iff.mp hc
      refine (h.nested.of_concat (by rw [Token.isTrivia, hkind]; rfl)).2 ⟨hkind, ?_⟩
      exact Or.inr (Or.inr (Or.inr ⟨t, rfl, ht⟩))
    refine ⟨value, [u], by rw [hending, List.append_nil], ?_⟩
    exact { h with nested := h.nested.of_last hlast _, ends := Or.inl ⟨u, rfl, hu⟩ }
  · have hending := withoutLineEnd_comment hc.1 htakes
    have hhead : (c :: lineEnd ++ rest).head? = ([c, u] ++ []).head? := rfl
    refine ⟨value, [c, u], by rw [hending, List.append_assoc]; rfl, ?_⟩
    exact { h with
      nested := nested_of_head? hhead h.nested
      ends := isEnding_commentLine hc.1 hu }
  · have hending : Attribute.withoutLineEnd [] = [] := rfl
    rw [hending, List.append_nil]
    rcases h.last_comment with hlast | ⟨front, c, rfl, hkind, hsays, hnested⟩
    · refine ⟨value, [u], rfl, ?_⟩
      exact { h with nested := h.nested.of_last hlast _, ends := Or.inl ⟨u, rfl, hu⟩ }
    · have hhead : (c :: rest).head? = ([c, u] ++ []).head? := rfl
      refine ⟨front, [c, u], by rw [List.append_assoc]; rfl, ?_⟩
      exact { h with
        hasValue := hsays
        nested := nested_of_head? hhead hnested
        ends := isEnding_commentLine hkind hu }

end Grammar

/-! ## Copies are read back -/

namespace Document

open Grammar

/-- The expression of an attribute that was read is cut from a part of the source. -/
theorem exists_cuts_exprTokens {filename : String} {source : Text} {d : Document}
    (h : parse filename source = .ok d) (s : Site d.body) :
    s.attr.exprTokens ≠ [] ∧ (∀ u ∈ s.attr.exprTokens, u.text ≠ []) ∧
      ∃ line, Token.Cuts line (Token.sourceOf s.attr.exprTokens) s.attr.exprTokens := by
  obtain ⟨before, name, equal, value, ending, after, hts, hattr, ha⟩ := exists_assignment h s
  obtain ⟨lineEnd, hlineEnd⟩ := Attribute.withoutLineEnd_prefix ending
  have hexpr := Attribute.exprTokens_assignment hattr name.text
  rw [← ha] at hexpr
  have hne : s.attr.exprTokens ≠ [] := by
    obtain ⟨t, ht, -⟩ := hattr.hasValue
    rw [hexpr]
    exact List.append_ne_nil_of_left_ne_nil (List.ne_nil_of_mem ht) _
  have hlast : ∀ t ∈ s.attr.exprTokens.getLast?, t.kind ≠ .newline := by
    rw [hexpr]
    exact last_expr_ne_newline hattr
  have hcuts := Token.ofTextFrom_eq_ok_iff.mp hts
  have hsplit : value ++ ending = s.attr.exprTokens ++ lineEnd := by
    rw [hexpr, List.append_assoc, hlineEnd]
  have htokens : before ++ (name :: equal :: (value ++ ending) ++ after) =
      (before ++ [name, equal]) ++ (s.attr.exprTokens ++ (lineEnd ++ after)) := by
    rw [hsplit]
    simp
  rw [htokens] at hcuts
  obtain ⟨line, hown⟩ := hcuts.between
  refine ⟨hne, ?_, line, hown⟩
  obtain ⟨front, z, hfront⟩ := (List.eq_nil_or_concat' s.attr.exprTokens).resolve_left hne
  have hz : z.kind ≠ .newline := hlast z (by rw [hfront, List.getLast?_concat]; rfl)
  rw [hfront] at hown ⊢
  obtain ⟨c, cs, hztext, -⟩ := hown.exists_head (List.mem_append_right _ List.mem_cons_self) hz
  intro u hu
  rcases List.mem_append.mp hu with hu | hu
  · exact hown.text_ne_nil (List.cons_ne_nil z []) u hu
  · rw [List.mem_singleton.mp hu, hztext]
    exact List.cons_ne_nil c cs

/-- An expression that was read, behind another name and with a line end behind it, is one
    attribute. -/
theorem ofTokens_copy {filename : String} {source : Text} {d : Document}
    (h : parse filename source = .ok d) (s : Site d.body) (name equal u : Token)
    {expr : List Token} (hname : name.kind = .ident) (hequal : equal.kind = .equal)
    (hexpr : List.Forall₂ Token.SameWord s.attr.exprTokens expr) (hu : u.kind = .newline) :
    ofTokens (name :: equal :: (expr ++ [u])) =
      .ok [.attribute ⟨name.text, name :: equal :: (expr ++ [u])⟩] := by
  obtain ⟨-, name', equal', value, ending, after, -, hattr, ha⟩ := exists_assignment h s
  have hown := Attribute.exprTokens_assignment hattr name'.text
  rw [← ha] at hown
  obtain ⟨front, back, hfront, hnew⟩ := exists_isAttribute_newline hattr hu
  have hwords : List.Forall₂ Token.SameWord (front ++ back) (expr ++ [u]) := by
    rw [hfront, ← hown]
    exact List.rel_append hexpr (.cons ⟨rfl, rfl⟩ .nil)
  obtain ⟨value', ending', hsplit, hvalue, hending⟩ := exists_append_of_forall₂ hwords
  have hrenamed : IsAttribute name equal front back [] :=
    { hnew with name_kind := hname, equal_kind := hequal }
  have hcopy := isAttribute_alike (fun t v => Token.SameWord.alike) hrenamed ⟨rfl, rfl⟩ ⟨rfl, rfl⟩
    hvalue hending .nil
  have hderives : Derives [.assignment name equal value' ending']
      (name :: equal :: (value' ++ ending')) :=
    ⟨⟨hcopy, trivial⟩, by simp [tokensOf, Phrase.tokens]⟩
  rw [hsplit]
  exact ofTokens_of_derives hderives

/-- The copy of an expression is read back as one attribute of the new name, with the same
    expression behind one space and on other lines. -/
theorem parse_copyText {filename : String} {source : Text} {d : Document}
    (h : parse filename source = .ok d) (s : Site d.body) {x : Text} (hx : Token.IsName x)
    (hopen : Token.hangsOpen s.attr.exprTokens = false) (target : String) :
    ∃ k b, parse target (x ++ Token.copyText s.attr.exprTokens) = .ok ⟨[.attribute b], target⟩ ∧
      b.name = x ∧ b.exprTokens = Token.spaced (s.attr.exprTokens.map (Token.shift k)) := by
  obtain ⟨hne, htexts, line, hcuts⟩ := exists_cuts_exprTokens h s
  obtain ⟨k, below, htext⟩ := Token.exists_ofText_copyText hx hne hcuts htexts hopen
  have hread := ofTokens_copy h s ⟨.ident, x, [], 1⟩ ⟨.equal, ['='], [' '], 1 + Text.newlines x⟩
    ⟨.newline, ['\n'], [], below⟩ rfl rfl (Token.sameWord_copy k s.attr.exprTokens) rfl
  refine ⟨k, _, parse_eq_ok_iff.mpr ⟨_, _, htext, hread, rfl⟩, rfl, ?_⟩
  rw [Attribute.exprTokens, Attribute.afterEqual?_assignment rfl rfl]
  exact Attribute.withoutLineEnd_append_newline rfl _

/-- The copy of an expression that hangs open is not read. -/
theorem parse_copyText_hangsOpen {filename : String} {source : Text} {d : Document}
    (h : parse filename source = .ok d) (s : Site d.body) {x : Text} (hx : Token.IsName x)
    (hopen : Token.hangsOpen s.attr.exprTokens = true) (target : String) :
    ∃ line marker, parse target (x ++ Token.copyText s.attr.exprTokens) =
      .error ⟨target, line, .unterminatedHeredoc marker⟩ := by
  obtain ⟨hne, htexts, _, hcuts⟩ := exists_cuts_exprTokens h s
  obtain ⟨line, marker, hfault⟩ :=
    Token.exists_ofText_copyText_hangsOpen hx hne hcuts htexts hopen
  exact ⟨line, marker, by rw [parse, hfault]⟩

end Document

end HclQuery
