/-
  Documents that are built read back.

  A document is built from nothing by settings, each of which gives a name one token that is a whole
  value: a name, a number, a string or a heredoc, cut from whatever source. However many settings
  there are, and however often a name is set, each item is then such an assignment on a line of its
  own (`isLine_setAll`). Between a space and a line end the value is cut as it was in its source, so
  the text of the document is cut into its tokens, on lines of their own (`exists_ofText_lines`),
  and these are read as its items (`ofTokens_lines`). Together: `parse_built`.
-/
import HclQuery.Proofs.Document.Concatenation
import HclQuery.Proofs.Document.Copy
import HclQuery.Proofs.Document.SetAttributes

namespace HclQuery

/-! ## Values of one token -/

/-- The kinds of tokens that are a whole value. -/
def TokenKind.isValue : TokenKind → Bool
  | ident | number | string | heredoc => true
  | _ => false

/-- The token was cut from a source, and is a whole value. -/
structure Token.IsValue (t : Token) : Prop where
  kind : t.kind.isValue = true
  cut : ∃ source ts, ofText source = .ok ts ∧ t ∈ ts

/-- The setting gives a name a value of one token. -/
structure Setting.GivesValue (s : Setting) : Prop where
  name : Token.IsName s.name
  value : ∃ t : Token, t.IsValue ∧ s.expr = [t]

namespace Token

variable {t : Token}

theorem isTrivia_of_isValue (h : t.kind.isValue = true) : t.isTrivia = false := by
  unfold isTrivia
  cases hkind : t.kind <;> simp_all [TokenKind.isValue, TokenKind.isTrivia]

theorem depthAfter_of_isValue (h : t.kind.isValue = true) (depth : Nat) :
    Document.depthAfter depth t = depth := by
  unfold Document.depthAfter
  cases hkind : t.kind <;>
    simp_all [TokenKind.isValue, TokenKind.isOpening, TokenKind.isClosing]

/-- A value is cut from its own text as it was from the source. -/
theorem IsValue.cuts (h : t.IsValue) :
    t.text ≠ [] ∧ ∃ line, Cuts line (sourceOf [t]) [t] := by
  obtain ⟨source, ts, hts, hmem⟩ := h.cut
  obtain ⟨before, after, rfl⟩ := List.append_of_mem hmem
  have hcuts : Cuts 1 source (before ++ ([t] ++ after)) := ofTextFrom_eq_ok_iff.mp hts
  have hkind : t.kind ≠ .newline := by
    intro hkind
    have hvalue := h.kind
    rw [hkind] at hvalue
    cases hvalue
  obtain ⟨c, cs, htext, -⟩ := hcuts.exists_head hmem hkind
  exact ⟨by rw [htext]; exact List.cons_ne_nil c cs, hcuts.between⟩

/-- One token alone is no header of a heredoc. -/
theorem hangsOpen_singleton (t : Token) : hangsOpen [t] = false := by
  have hopens : Heredoc.opens (sourceOf []) = false := rfl
  rw [hangsOpen, hangsOpen, hopens, Bool.and_false, Bool.false_or]

end Token

/-! ## Every item is a line -/

/-- The item is the assignment that a setting of one value makes. -/
def IsLine (item : Item) : Prop :=
  ∃ s : Setting, s.GivesValue ∧ item = .attribute (.ofExpr s.name s.expr)

namespace Body

theorem mem_put {a : Attribute} {body : Body} {item : Item} (h : item ∈ put a body) :
    item = .attribute a ∨ item ∈ body := by
  induction body with
  | nil => exact Or.inl (List.mem_singleton.mp h)
  | cons first items ih =>
    rw [put] at h
    split at h
    · exact (List.mem_cons.mp h).imp_right (List.mem_cons_of_mem first)
    · rcases List.mem_cons.mp h with rfl | h
      · exact Or.inr List.mem_cons_self
      · exact (ih h).imp_right (List.mem_cons_of_mem first)

/-- What holds of the items of a body and of each assignment that is set holds of all items after
    the settings. -/
theorem forall_mem_setAll {p : Item → Prop} {body : Body} {settings : List Setting}
    (hbody : ∀ item ∈ body, p item)
    (hset : ∀ s ∈ settings, p (.attribute (.ofExpr s.name s.expr))) :
    ∀ item ∈ setAll body settings, p item := by
  induction settings generalizing body with
  | nil => exact hbody
  | cons s settings ih =>
    have hnext : ∀ item ∈ setAttribute s.name s.expr body, p item := by
      intro item hitem
      rcases mem_put hitem with rfl | hitem
      · exact hset s List.mem_cons_self
      · exact hbody item hitem
    exact ih hnext fun s' hs' => hset s' (List.mem_cons_of_mem s hs')

theorem isLine_setAll {settings : List Setting} (h : ∀ s ∈ settings, s.GivesValue) :
    ∀ item ∈ setAll [] settings, IsLine item :=
  forall_mem_setAll (by simp) fun s hs => ⟨s, h s hs, rfl⟩

end Body

/-! ## Lines are cut into their tokens -/

namespace Document

open Grammar

theorem endsLine_ofExpr (name : Text) (expr : List Token) :
    EndsLine (Token.sourceOf (Attribute.ofExpr name expr).tokens) := by
  refine Or.inr ?_
  rw [Attribute.sourceOf_ofExpr, Token.copyText, ← List.cons_append, ← List.cons_append,
    ← List.append_assoc, List.getLast?_concat]

theorem exists_ofText_line {s : Setting} (h : s.GivesValue) :
    ∃ ts, Token.ofText (Token.sourceOf (Attribute.ofExpr s.name s.expr).tokens) = .ok ts ∧
      List.Forall₂ (fun t u => t.agrees u = true) (Attribute.ofExpr s.name s.expr).tokens ts := by
  obtain ⟨t, hvalue, hexpr⟩ := h.value
  obtain ⟨htext, line, hcuts⟩ := hvalue.cuts
  obtain ⟨k, below, hcopy⟩ := Token.exists_ofText_copyText h.name (List.cons_ne_nil t []) hcuts
    (by simpa using htext) (Token.hangsOpen_singleton t)
  rw [Attribute.sourceOf_ofExpr, hexpr]
  refine ⟨_, hcopy, ?_⟩
  simp [Attribute.ofExpr, Token.spaced, Token.shift, Token.agrees]

/-- The text of lines is cut into their tokens, each on the line where it then stands. -/
theorem exists_ofText_lines {body : Body} (h : ∀ item ∈ body, IsLine item) :
    ∃ ts, Token.ofText (Body.source body) = .ok ts ∧
      List.Forall₂ (fun t u => t.agrees u = true) (Body.tokens body) ts := by
  induction body with
  | nil =>
    refine ⟨[], Token.ofTextFrom_nil, ?_⟩
    rw [Body.tokens_nil]
    exact .nil
  | cons item items ih =>
    obtain ⟨s, hs, rfl⟩ := h item List.mem_cons_self
    obtain ⟨ts, hts, hagree⟩ := exists_ofText_line hs
    obtain ⟨us, hus, hagree'⟩ := ih fun item hitem => h item (List.mem_cons_of_mem _ hitem)
    have hsource : Body.source (.attribute (.ofExpr s.name s.expr) :: items) =
        Token.sourceOf (Attribute.ofExpr s.name s.expr).tokens ++ Body.source items := by
      rw [Body.source, Body.tokens_cons, Token.sourceOf_append, Item.tokens]
      rfl
    have hcut := (ofText_append hts (endsLine_ofExpr s.name s.expr)).mpr ⟨us, hus, rfl⟩
    rw [← hsource] at hcut
    refine ⟨_, hcut, ?_⟩
    rw [Body.tokens_cons, Item.tokens]
    -- A token agrees with another on whatever lines they stand.
    exact List.rel_append hagree (List.forall₂_map_right_iff.mpr hagree')

/-! ## Tokens of lines are read as their items -/

/-- A value alone opens and closes nothing, and does not end its line. -/
theorem nested_of_isValue {u : Token} (h : u.kind.isValue = true) (rest : List Token) :
    Nested 0 [u] rest := by
  have hsays := Token.isTrivia_of_isValue h
  refine nested_cons.mpr ⟨fun _ => ⟨?_, ?_⟩, ?_, ?_⟩
  · intro hkind
    simp [Token.isTrivia, TokenKind.isTrivia, hkind] at hsays
  · intro hcomment
    simp [Token.isTrivia, TokenKind.isTrivia, hcomment.1] at hsays
  · intro hclosing
    cases hkind : u.kind <;> simp_all [TokenKind.isValue, TokenKind.isClosing]
  · rw [Token.depthAfter_of_isValue h]
    exact nested_nil.mpr rfl

theorem ofTokens_line {s : Setting} (h : s.GivesValue) :
    ofTokens (Attribute.ofExpr s.name s.expr).tokens =
      .ok [.attribute (.ofExpr s.name s.expr)] := by
  obtain ⟨t, hvalue, hexpr⟩ := h.value
  have hkind : ({ t with leading := [' '] } : Token).kind.isValue = true := hvalue.kind
  generalize hu : ({ t with leading := [' '] } : Token) = u at hkind
  have hline : Attribute.ofExpr s.name s.expr = ⟨s.name,
      ⟨.ident, s.name, [], 1⟩ :: ⟨.equal, ['='], [' '], 1⟩ ::
        ([u] ++ [⟨.newline, ['\n'], [], 1⟩])⟩ := by
    rw [hexpr, ← hu]
    rfl
  have hattr : IsAttribute ⟨.ident, s.name, [], 1⟩ ⟨.equal, ['='], [' '], 1⟩ [u]
      [⟨.newline, ['\n'], [], 1⟩] [] :=
    { name_kind := rfl
      equal_kind := rfl
      hasValue := ⟨u, List.mem_singleton_self u, Token.isTrivia_of_isValue hkind⟩
      nested := nested_of_isValue hkind _
      ends := Or.inl ⟨_, rfl, rfl⟩ }
  have hderives : Derives [.assignment ⟨.ident, s.name, [], 1⟩ ⟨.equal, ['='], [' '], 1⟩ [u]
      [⟨.newline, ['\n'], [], 1⟩]] (Attribute.ofExpr s.name s.expr).tokens := by
    refine ⟨⟨hattr, trivial⟩, ?_⟩
    rw [hline, tokensOf_singleton, Phrase.tokens]
  rw [ofTokens_of_derives hderives, itemsOf_singleton, Phrase.item, hline]

/-- The tokens of lines are read as these lines. -/
theorem ofTokens_lines {body : Body} (h : ∀ item ∈ body, IsLine item) :
    ofTokens (Body.tokens body) = .ok body := by
  induction body with
  | nil =>
    rw [Body.tokens_nil, ofTokens, run]
    rfl
  | cons item items ih =>
    obtain ⟨s, hs, rfl⟩ := h item List.mem_cons_self
    have hlast : ∀ u ∈ (Attribute.ofExpr s.name s.expr).tokens.getLast?, u.kind = .newline := by
      intro u hu
      rw [Attribute.ofExpr, ← List.cons_append, ← List.cons_append, List.getLast?_concat] at hu
      rw [← Option.some.inj hu]
    have hjoin : Item.attribute (.ofExpr s.name s.expr) :: items =
        Body.join [.attribute (.ofExpr s.name s.expr)] items := rfl
    rw [Body.tokens_cons, Item.tokens, hjoin]
    exact (ofTokens_append (ofTokens_line hs) hlast).mpr
      ⟨items, ih fun item hitem => h item (List.mem_cons_of_mem _ hitem), rfl⟩

/-! ## The document is read back -/

/-- A document that is built from nothing by settings of names to values of one token is read back
    from its text as it was built, but for the lines on which the tokens stand. -/
theorem parse_built {settings : List Setting} (h : ∀ s ∈ settings, s.GivesValue)
    (target : String) :
    ∃ d, parse target ({ body := Body.setAll [] settings } : Document).source = .ok d ∧
      Body.Like (fun t u => t.agrees u = true) (Body.setAll [] settings) d.body := by
  have hlines := Body.isLine_setAll h
  obtain ⟨ts, hts, hagree⟩ := exists_ofText_lines hlines
  obtain ⟨body, hbody, hlike⟩ :=
    like_of_ofTokens (fun t u => Token.alike_of_agrees) hagree (ofTokens_lines hlines)
  exact ⟨⟨body, target⟩, parse_eq_ok_iff.mpr ⟨ts, body, hts, hbody, rfl⟩, hlike⟩

/-- A string with a template over two lines. -/
def templateOverLines : Token :=
  ⟨.string, "\"a$\x7b\nb\x7d\"".toList, [], 1⟩

/-- A heredoc behind a tab. -/
def heredocBehindTab : Token :=
  ⟨.heredoc, "<<E\nx\nE".toList, ['\t'], 2⟩

theorem ofText_templateAndHeredoc :
    Token.ofText "\"a$\x7b\nb\x7d\"\t<<E\nx\nE\n".toList =
      .ok [templateOverLines, heredocBehindTab, ⟨.newline, ['\n'], [], 4⟩] := by
  decide +kernel

/-- A name that is given the string, another that is given the heredoc, and the first again. -/
def builtSettings : List Setting :=
  [⟨['x'], [templateOverLines]⟩, ⟨['y'], [heredocBehindTab]⟩, ⟨['x'], [heredocBehindTab]⟩]

theorem isName_builtSettings : Token.IsName ['x'] ∧ Token.IsName ['y'] := by
  unfold Token.IsName
  constructor
  · decide +kernel
  · decide +kernel

theorem parse_built_twoNames :
    (∀ s ∈ builtSettings, s.GivesValue) ∧
      ∃ d, parse "out.hcl" ({ body := Body.setAll [] builtSettings } : Document).source = .ok d ∧
        Body.Like (fun t u => t.agrees u = true) (Body.setAll [] builtSettings) d.body := by
  obtain ⟨hx, hy⟩ := isName_builtSettings
  have htemplate : templateOverLines.IsValue := ⟨rfl, _, _, ofText_templateAndHeredoc, by simp⟩
  have hheredoc : heredocBehindTab.IsValue := ⟨rfl, _, _, ofText_templateAndHeredoc, by simp⟩
  have hsettings : ∀ s ∈ builtSettings, s.GivesValue := by
    intro s hs
    simp only [builtSettings, List.mem_cons, List.not_mem_nil, or_false] at hs
    rcases hs with rfl | rfl | rfl
    · exact ⟨hx, _, htemplate, rfl⟩
    · exact ⟨hy, _, hheredoc, rfl⟩
    · exact ⟨hx, _, hheredoc, rfl⟩
  exact ⟨hsettings, parse_built hsettings "out.hcl"⟩

end Document

end HclQuery
