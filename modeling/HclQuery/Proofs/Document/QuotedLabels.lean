/-
  Labels in quotes.

  `Label.escape` writes what cannot stand between quotes with a backslash. Two parts of the reading
  look at those backslashes: cutting passes over them to find the closing quote
  (`Label.inString_escape`), and what is between the quotes is then decoded
  (`Label.unescape_escape`). Neither sees a template where the label holds none, because an escape
  is no part of one (`Label.infix_of_infix_escape`). So a block with quoted labels is read with the
  labels that were quoted: `parse_quotedLabels`.
-/
import HclQuery.Proofs.Document.Copy
import HclQuery.Proofs.Token.QuotedLanguage

namespace HclQuery

namespace Label

/-! ## Quoting -/

/-- The character as it is written between quotes. -/
def escapeChar (c : Char) : Text :=
  if c = '\\' then ['\\', '\\']
  else if c = '"' then ['\\', '"']
  else if c = '\n' then ['\\', 'n']
  else if c = '\r' then ['\\', 'r']
  else if c = '\t' then ['\\', 't']
  else [c]

/-- The text as it is written between quotes. -/
def escape (s : Text) : Text :=
  s.flatMap escapeChar

/-- The text in quotes. -/
def quote (s : Text) : Text :=
  '"' :: (escape s ++ ['"'])

/-- The characters that an escape holds. -/
def inEscapes : List Char :=
  ['\\', '"', 'n', 'r', 't']

/-- A character is written as a backslash and one that stands for it, or as itself. -/
theorem escapeChar_cases (c : Char) :
    (∃ d ∈ inEscapes, escapeChar c = ['\\', d] ∧ unescapePair d = [c]) ∨
      (escapeChar c = [c] ∧ c ≠ '"' ∧ c ≠ '\\' ∧ c ≠ '\n') := by
  unfold escapeChar
  split
  · rename_i hc
    exact Or.inl ⟨'\\', by decide, rfl, by rw [hc]; rfl⟩
  rename_i hslash
  split
  · rename_i hc
    exact Or.inl ⟨'"', by decide, rfl, by rw [hc]; rfl⟩
  rename_i hquote
  split
  · rename_i hc
    exact Or.inl ⟨'n', by decide, rfl, by rw [hc]; rfl⟩
  rename_i hfeed
  split
  · rename_i hc
    exact Or.inl ⟨'r', by decide, rfl, by rw [hc]; rfl⟩
  split
  · rename_i hc
    exact Or.inl ⟨'t', by decide, rfl, by rw [hc]; rfl⟩
  · exact Or.inr ⟨rfl, hquote, hslash, hfeed⟩

theorem escape_cons_of_escaped {c d : Char} (h : escapeChar c = ['\\', d]) (s : Text) :
    escape (c :: s) = '\\' :: d :: escape s := by
  rw [escape, List.flatMap_cons, h]
  rfl

theorem escape_cons_of_plain {c : Char} (h : escapeChar c = [c]) (s : Text) :
    escape (c :: s) = c :: escape s := by
  rw [escape, List.flatMap_cons, h]
  rfl

/-- No line feed is written. -/
theorem lineFeed_not_mem_quote (s : Text) : '\n' ∉ quote s := by
  have hescape : '\n' ∉ escape s := by
    intro hmem
    obtain ⟨c, -, hc⟩ := List.mem_flatMap.mp hmem
    rcases escapeChar_cases c with ⟨d, hd, hwritten, -⟩ | ⟨hwritten, -, -, hfeed⟩
    · have hfree : ∀ d ∈ inEscapes, '\n' ∉ ['\\', d] := by simp [inEscapes]
      rw [hwritten] at hc
      exact hfree d hd hc
    · rw [hwritten] at hc
      exact hfeed (List.mem_singleton.mp hc).symm
  simpa [quote] using hescape

/-! ## Decoding -/

theorem unescape_pair (d : Char) (t : Text) :
    unescape ('\\' :: d :: t) = unescapePair d ++ unescape t := by
  rw [unescape, if_pos rfl]

theorem unescape_cons {c : Char} (hc : c ≠ '\\') (t : Text) :
    unescape (c :: t) = c :: unescape t := by
  cases t with
  | nil => rfl
  | cons d t => rw [unescape, if_neg hc]

/-- Decoding undoes quoting. -/
theorem unescape_escape (s : Text) : unescape (escape s) = s := by
  induction s with
  | nil => rfl
  | cons c s ih =>
    rcases escapeChar_cases c with ⟨d, -, hwritten, hpair⟩ | ⟨hwritten, -, hslash, -⟩
    · rw [escape_cons_of_escaped hwritten, unescape_pair, hpair, ih]
      rfl
    · rw [escape_cons_of_plain hwritten, unescape_cons hslash, ih]

/-! ## Templates -/

/-- A text that no escape holds a character of begins what is written only if it begins the text. -/
theorem prefix_of_prefix_escape {o s : Text} (ho : ∀ c ∈ o, c ∉ inEscapes)
    (h : o <+: escape s ++ ['"']) : o <+: s := by
  induction o generalizing s with
  | nil => exact List.nil_prefix
  | cons c o ih =>
    have hc := ho c List.mem_cons_self
    cases s with
    | nil =>
      obtain ⟨rfl, -⟩ := List.cons_prefix_cons.mp h
      exact absurd (by decide) hc
    | cons d s =>
      rcases escapeChar_cases d with ⟨e, -, hwritten, -⟩ | ⟨hwritten, -, -, -⟩
      · rw [escape_cons_of_escaped hwritten] at h
        obtain ⟨rfl, -⟩ := List.cons_prefix_cons.mp h
        exact absurd (by decide) hc
      · rw [escape_cons_of_plain hwritten] at h
        obtain ⟨rfl, htail⟩ := List.cons_prefix_cons.mp h
        exact List.cons_prefix_cons.mpr
          ⟨rfl, ih (fun d hd => ho d (List.mem_cons_of_mem c hd)) htail⟩

/-- It stands in what is written only if it stands in the text. -/
theorem infix_of_infix_escape {o s : Text} (hne : o ≠ []) (ho : ∀ c ∈ o, c ∉ inEscapes)
    (h : o <:+: escape s) : o <:+: s := by
  induction s with
  | nil => exact h
  | cons c s ih =>
    have hhead : ∀ {d : Char} {t : Text}, d ∈ inEscapes → ¬ o <+: d :: t := by
      intro d t hd hstarts
      obtain ⟨e, o, rfl⟩ := List.exists_cons_of_ne_nil hne
      obtain ⟨rfl, -⟩ := List.cons_prefix_cons.mp hstarts
      exact ho e List.mem_cons_self hd
    have htail : o <:+: s → o <:+: c :: s := fun h => h.trans (List.suffix_cons c s).isInfix
    rcases escapeChar_cases c with ⟨d, hd, hwritten, -⟩ | ⟨hwritten, -⟩
    · rw [escape_cons_of_escaped hwritten, List.infix_cons_iff, List.infix_cons_iff] at h
      rcases h with h | h | h
      · exact absurd h (hhead (by decide))
      · exact absurd h (hhead hd)
      · exact htail (ih h)
    · rw [escape_cons_of_plain hwritten, List.infix_cons_iff, ← escape_cons_of_plain hwritten] at h
      rcases h with h | h
      · exact (prefix_of_prefix_escape ho (h.trans (List.prefix_append _ ['"']))).isInfix
      · exact htail (ih h)

/-- The text holds nothing that opens a template. -/
def Literal (s : Text) : Prop :=
  ¬ ['$', '{'] <:+: s ∧ ¬ ['%', '{'] <:+: s

theorem Literal.escape {s : Text} (h : Literal s) : Literal (escape s) :=
  ⟨fun hin => h.1 (infix_of_infix_escape (by simp) (by simp [inEscapes]) hin),
    fun hin => h.2 (infix_of_infix_escape (by simp) (by simp [inEscapes]) hin)⟩

theorem Literal.tail {c : Char} {s : Text} (h : Literal (c :: s)) : Literal s :=
  ⟨fun hin => h.1 (hin.trans (List.suffix_cons c s).isInfix),
    fun hin => h.2 (hin.trans (List.suffix_cons c s).isInfix)⟩

/-- No opener, doubled or not, begins it. -/
theorem Literal.not_opener {s : Text} (h : Literal s) : ∀ o ∈ Quoted.openers, ¬ o <+: s := by
  intro o ho hstarts
  have hopens : ∀ o ∈ Quoted.openers, ['$', '{'] <:+: o ∨ ['%', '{'] <:+: o := by decide
  rcases hopens o ho with hin | hin
  · exact h.1 (hin.trans hstarts.isInfix)
  · exact h.2 (hin.trans hstarts.isInfix)

/-! ## The closing quote -/

/-- What is written stands between the quotes of one string. -/
theorem inString_escape {s : Text} (h : Literal s) : Quoted.InString (escape s ++ ['"']) := by
  induction s with
  | nil => exact .close
  | cons c s ih =>
    rcases escapeChar_cases c with ⟨d, -, hwritten, -⟩ | ⟨hwritten, hplain⟩
    · rw [escape_cons_of_escaped hwritten]
      exact .escaped (ih h.tail)
    · have hopeners : ∀ o ∈ Quoted.openers, ∀ c ∈ o, c ∉ inEscapes := by
        simp [Quoted.openers, inEscapes]
      have hopener : ∀ o ∈ Quoted.openers, ¬ o <+: c :: (escape s ++ ['"']) := by
        -- An opener that begins what is written begins the label itself.
        intro o ho hstarts
        rw [← List.cons_append, ← escape_cons_of_plain hwritten] at hstarts
        exact h.not_opener o ho (prefix_of_prefix_escape (hopeners o ho) hstarts)
      rw [escape_cons_of_plain hwritten]
      exact .plain hplain hopener (ih h.tail)

/-- A quoted label is cut off whole, whatever follows it. -/
theorem read_quote {s : Text} (h : Literal s) (rest : Text) :
    Lexeme.read '"' (escape s ++ ['"'] ++ rest) = .ok ⟨.string, (escape s ++ ['"']).length⟩ :=
  Lexeme.read_of_reads (.string rfl ((inString_escape h).passes [] rest))

end Label

/-! ## Tokens of a header -/

namespace Token

/-- The token of a quoted label, with a space in front of it. -/
def ofLabel (line : Int) (s : Text) : Token :=
  ⟨.string, Label.quote s, [' '], line⟩

theorem labelInside_ofLabel (line : Int) (s : Text) :
    Grammar.labelInside (ofLabel line s) = Label.escape s := by
  simp [Grammar.labelInside, ofLabel, Label.quote]

theorem isLabel_ofLabel {s : Text} (h : Label.Literal s) (line : Int) :
    Grammar.IsLabel (ofLabel line s) := by
  refine Or.inr ⟨rfl, ?_⟩
  rw [labelInside_ofLabel]
  exact h.escape

theorem labelText_ofLabel (line : Int) (s : Text) : Grammar.labelText (ofLabel line s) = s := by
  have hkind : (ofLabel line s).kind = .string := rfl
  rw [Grammar.labelText, if_pos hkind, labelInside_ofLabel, Label.unescape_escape]

/-- Quoted labels are cut off one after the other. -/
theorem ofTextFrom_labels {labels : List Text} (h : ∀ s ∈ labels, Label.Literal s) (line : Int)
    (rest : Text) :
    ofTextFrom line (labels.flatMap (' ' :: Label.quote ·) ++ rest) =
      (ofTextFrom line rest).map (labels.map (ofLabel line) ++ ·) := by
  induction labels with
  | nil => cases hrest : ofTextFrom line rest <;> simp [hrest, Except.map]
  | cons s labels ih =>
    have hread := Label.read_quote (h s List.mem_cons_self)
      (labels.flatMap (' ' :: Label.quote ·) ++ rest)
    have hcut : ofTextFrom line ([' '] ++ _) = _ :=
      ofTextFrom_lexeme (by simp [isLeading]) rfl hread
    have hline : line + Text.newlines (Label.quote s) = line := by
      rw [Text.newlines, List.count_eq_zero.mpr (Label.lineFeed_not_mem_quote s)]
      exact Int.add_zero line
    rw [Lexeme.text, Lexeme.rest, List.take_left' rfl, List.drop_left' rfl, ← Label.quote, hline,
      ih fun u hu => h u (List.mem_cons_of_mem s hu)] at hcut
    have hsource : (s :: labels).flatMap (' ' :: Label.quote ·) ++ rest =
        [' '] ++ '"' :: (Label.escape s ++ ['"'] ++
          (labels.flatMap (' ' :: Label.quote ·) ++ rest)) := by
      simp [Label.quote]
    rw [hsource, hcut]
    cases ofTextFrom line rest <;> rfl

/-- The braces of an empty block, on any line. -/
theorem exists_braces (line : Int) :
    ∃ opening openingEnd closing closingEnd : Token,
      ofTextFrom line " \x7b\n\x7d\n".toList =
          .ok [opening, openingEnd, closing, closingEnd] ∧
        opening.kind = .openBrace ∧ openingEnd.kind = .newline ∧ closing.kind = .closeBrace ∧
        closingEnd.kind = .newline := by
  have hcut : ofTextFrom 1 " \x7b\n\x7d\n".toList =
      .ok [⟨.openBrace, ['\x7b'], [' '], 1⟩, ⟨.newline, ['\n'], [], 1⟩,
        ⟨.closeBrace, ['\x7d'], [], 2⟩, ⟨.newline, ['\n'], [], 2⟩] := by decide +kernel
  have hshift := ofTextFrom_shift 1 (line - 1) " \x7b\n\x7d\n".toList
  rw [hcut, Int.add_comm, Int.sub_add_cancel] at hshift
  exact ⟨_, _, _, _, hshift, rfl, rfl, rfl, rfl⟩

end Token

namespace Document

open Grammar

variable {x : Text} {labels : List Text}

/-- A block with quoted labels, as text. -/
def quotedBlock (x : Text) (labels : List Text) : Text :=
  x ++ (labels.flatMap (' ' :: Label.quote ·) ++ " \x7b\n\x7d\n".toList)

/-- Its tokens: the type, the labels, and the braces with a line end behind each. -/
theorem exists_ofText_quotedBlock (hx : Token.IsName x)
    (hlabels : ∀ s ∈ labels, Label.Literal s) :
    ∃ (line : Int) (opening openingEnd closing closingEnd : Token),
      Token.ofText (quotedBlock x labels) =
          .ok (⟨.ident, x, [], 1⟩ :: (labels.map (Token.ofLabel line) ++
            [opening, openingEnd, closing, closingEnd])) ∧
        opening.kind = .openBrace ∧ openingEnd.kind = .newline ∧ closing.kind = .closeBrace ∧
        closingEnd.kind = .newline := by
  obtain ⟨opening, openingEnd, closing, closingEnd, hbraces, hkinds⟩ :=
    Token.exists_braces (1 + Text.newlines x)
  refine ⟨1 + Text.newlines x, opening, openingEnd, closing, closingEnd, ?_, hkinds⟩
  have hbehind := Token.ofTextFrom_labels hlabels (1 + Text.newlines x) " \x7b\n\x7d\n".toList
  obtain ⟨y, hy⟩ : ∃ y,
      labels.flatMap (' ' :: Label.quote ·) ++ " \x7b\n\x7d\n".toList = ' ' :: y := by
    cases labels <;> exact ⟨_, rfl⟩
  rw [hbraces, hy] at hbehind
  rw [quotedBlock, hy, Token.ofText, Token.ofTextFrom_name hx, hbehind]
  rfl

/-- A block with quoted labels is read with the labels that were quoted. -/
theorem parse_quotedLabels (filename : String) {x : Text} {labels : List Text}
    (hx : Token.IsName x)
    (hlabels : ∀ s ∈ labels, ¬ ['$', '{'] <:+: s ∧ ¬ ['%', '{'] <:+: s) :
    ∃ shell, parse filename (quotedBlock x labels) = .ok ⟨[.block shell []], filename⟩ ∧
      shell.type = x ∧ shell.labels = labels := by
  obtain ⟨line, opening, openingEnd, closing, closingEnd, hts, hopening, hopeningEnd, hclosing,
    hclosingEnd⟩ := exists_ofText_quotedBlock hx hlabels
  let frame : Frame :=
    ⟨⟨.ident, x, [], 1⟩, labels.map (Token.ofLabel line), opening, [openingEnd], closing,
      [closingEnd]⟩
  have hframe : frame.Fits [] [] :=
    { type_kind := rfl
      labels_kind := by
        intro t ht
        obtain ⟨s, hs, rfl⟩ := List.mem_map.mp ht
        exact Token.isLabel_ofLabel (hlabels s hs) line
      opening_kind := hopening
      openingEnd_takes := Or.inl ⟨openingEnd, rfl, hopeningEnd⟩
      closing_kind := hclosing
      closingEnd_takes := Or.inl ⟨closingEnd, rfl, hclosingEnd⟩ }
  have hderives : Derives [.block frame []] (⟨.ident, x, [], 1⟩ ::
      (labels.map (Token.ofLabel line) ++ [opening, openingEnd, closing, closingEnd])) :=
    ⟨⟨⟨hframe, trivial⟩, trivial⟩, by simp [tokensOf, Phrase.tokens, Frame.head, Frame.foot, frame]⟩
  refine ⟨frame.shell, parse_eq_ok_iff.mpr ⟨_, _, hts, ofTokens_of_derives hderives, rfl⟩, rfl, ?_⟩
  have hsays : Grammar.labelText ∘ Token.ofLabel line = id :=
    funext fun s => Token.labelText_ofLabel line s
  rw [Frame.shell, List.map_map, hsays, List.map_id]

/-- A backslash before the closing quote, and a dollar sign before a quote and a line feed. -/
theorem parse_quotedLabels_backslash :
    Token.IsName ['b'] ∧
    (∀ s ∈ [['\\'], ['$', '"', '\n']], ¬ ['$', '{'] <:+: s ∧ ¬ ['%', '{'] <:+: s) ∧
    ∃ shell, parse "a.tf" (quotedBlock ['b'] [['\\'], ['$', '"', '\n']]) =
        .ok ⟨[.block shell []], "a.tf"⟩ ∧
      shell.type = ['b'] ∧ shell.labels = [['\\'], ['$', '"', '\n']] := by
  have hname : Token.IsName ['b'] := by
    unfold Token.IsName
    decide +kernel
  have hliteral : ∀ s ∈ [['\\'], ['$', '"', '\n']], ¬ ['$', '{'] <:+: s ∧ ¬ ['%', '{'] <:+: s := by
    simp [List.infix_cons_iff]
  exact ⟨hname, hliteral, parse_quotedLabels "a.tf" hname hliteral⟩

end Document

end HclQuery
