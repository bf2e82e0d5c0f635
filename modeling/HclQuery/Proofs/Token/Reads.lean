/-
  What reading a lexeme can find.

  `Lexeme.Reads` lists the kinds of lexemes with what has to stand in the text for each of them,
  and `read_eq_ok_iff` says that reading finds exactly these. The lemmas at the end take one kind
  each (`ident_of_read` and so on).
-/
import HclQuery.Proofs.Token.Quoted
import HclQuery.Token.Lexeme

namespace HclQuery.Lexeme

/-- What starts a block comment. -/
def startsBlockComment (c : Char) (cs : Text) : Bool :=
  c = '/' && ['*'].isPrefixOf cs

/-- What starts a line comment. -/
def startsLineComment (c : Char) (cs : Text) : Bool :=
  c = '#' || (c = '/' && ['/'].isPrefixOf cs)

/-- All that can be read at the front of `c :: cs`. -/
inductive Reads (c : Char) (cs : Text) : Lexeme → Prop where
  | string {n : Nat} (hc : c = '"') (hsize : Quoted.size cs = .ok n) : Reads c cs ⟨.string, n⟩
  | blockComment {n : Nat} (hstarts : startsBlockComment c cs = true)
      (hsize : commentSize? (cs.drop 1) = some n) : Reads c cs ⟨.comment, 1 + n⟩
  | heredoc {header : Heredoc.Header} {n : Nat} (hc : c = '<')
      (hheader : Heredoc.header? cs = some header)
      (hbody : Heredoc.bodySize? header.marker (cs.drop header.size) = some n) :
      Reads c cs ⟨.heredoc, header.size + n⟩
  | lineFeed (hc : c = '\n') : Reads c cs ⟨.newline, 0⟩
  | returnFeed {below : Text} (hc : c = '\r') (hcs : cs = '\n' :: below) :
      Reads c cs ⟨.newline, 1⟩
  | lineComment (hstarts : startsLineComment c cs = true) :
      Reads c cs ⟨.comment, (cs.takeWhile insideLine).length⟩
  | number (hc : Unicode.isDecimal c = true) : Reads c cs ⟨.number, numberRest cs⟩
  | ident (hword : Unicode.isWord c = true) (hdecimal : Unicode.isDecimal c = false) :
      Reads c cs ⟨.ident, (cs.takeWhile Heredoc.continuesName).length⟩
  | fixed {l : Lexeme} (hblock : startsBlockComment c cs = false)
      (hline : startsLineComment c cs = false) (hheader : c = '<' → Heredoc.header? cs = none)
      (hfixed : fixed? c cs = some l) : Reads c cs l

variable {c : Char} {cs : Text} {l : Lexeme}

/-! ## Fixed spellings -/

theorem fixed?_eq_some_iff :
    fixed? c cs = some l ↔
      ∃ before e after, spellings = before ++ (c, e, l.kind) :: after ∧ e.length = l.more ∧
        e <+: cs ∧ ∀ s ∈ before, s.1 = c → ¬ s.2.1 <+: cs := by
  unfold fixed?
  rw [Option.map_eq_some_iff]
  constructor
  · intro h
    obtain ⟨⟨c', e, kind⟩, hfind, rfl⟩ := h
    obtain ⟨hs, before, after, hsplit, hbefore⟩ := List.find?_eq_some_iff_append.mp hfind
    rw [Bool.and_eq_true, decide_eq_true_eq, List.isPrefixOf_iff_prefix] at hs
    obtain ⟨rfl, he⟩ := hs
    refine ⟨before, e, after, hsplit, rfl, he, fun s hmem hc hpre => ?_⟩
    have := hbefore s hmem
    simp [hc, List.isPrefixOf_iff_prefix.mpr hpre] at this
  · intro h
    obtain ⟨before, e, after, hsplit, he, hpre, hbefore⟩ := h
    refine ⟨(c, e, l.kind), List.find?_eq_some_iff_append.mpr ⟨?_, before, after, hsplit, ?_⟩, ?_⟩
    · simpa using hpre
    · intro s hmem
      by_cases hc : s.1 = c
      · have hno := hbefore s hmem hc
        rw [← List.isPrefixOf_iff_prefix, Bool.not_eq_true] at hno
        simp [hno]
      · simp [hc]
    · rw [he]

theorem mem_spellings_of_fixed? (h : fixed? c cs = some l) :
    ∃ e, (c, e, l.kind) ∈ spellings ∧ e.length = l.more ∧ e <+: cs := by
  obtain ⟨before, e, after, hsplit, hlen, hpre, -⟩ := fixed?_eq_some_iff.mp h
  exact ⟨e, by rw [hsplit]; simp, hlen, hpre⟩

/-- The fixed spellings are operators, brackets and other marks. -/
theorem kind_ne_of_fixed? (h : fixed? c cs = some l) {k : TokenKind}
    (hk : k ∈ [.ident, .number, .string, .heredoc, .comment, .newline]) : l.kind ≠ k := by
  have hkinds : ∀ s ∈ spellings,
      s.2.2 ∉ [.ident, .number, .string, .heredoc, .comment, .newline] := by
    decide
  obtain ⟨e, hmem, -⟩ := mem_spellings_of_fixed? h
  rintro rfl
  exact hkinds _ hmem hk

/-- No longer spelling of the table stands at the front. -/
theorem length_le_of_fixed? (h : fixed? c cs = some l) {s : Char × Text × TokenKind}
    (hs : s ∈ spellings) (hc : s.1 = c) (hpre : s.2.1 <+: cs) : s.2.1.length ≤ l.more := by
  have hsorted : spellings.Pairwise fun r s => r.1 = s.1 → s.2.1.length ≤ r.2.1.length := by
    decide
  obtain ⟨before, e, after, hsplit, hlen, -, hbefore⟩ := fixed?_eq_some_iff.mp h
  rw [hsplit] at hs hsorted
  rw [← hlen]
  rcases List.mem_append.mp hs with hs | hs
  · exact absurd hpre (hbefore s hs hc)
  rcases List.mem_cons.mp hs with rfl | hs
  · exact Nat.le_refl _
  · have hafter := List.pairwise_cons.mp (List.pairwise_append.mp hsorted).2.1
    exact hafter.1 s hs hc.symm

/-! ## First characters -/

/-- The characters that the other rules have for themselves. -/
theorem ne_of_fixed? (h : fixed? c cs = some l) :
    c ≠ '"' ∧ c ≠ '\n' ∧ c ≠ '\r' ∧ Unicode.isDecimal c = false ∧ Unicode.isWord c = false := by
  have hfirst : ∀ s ∈ spellings,
      s.1 ≠ '"' ∧ s.1 ≠ '\n' ∧ s.1 ≠ '\r' ∧ Unicode.isDecimal s.1 = false ∧
        Unicode.isWord s.1 = false := by
    decide
  obtain ⟨e, hmem, -⟩ := mem_spellings_of_fixed? h
  exact hfirst _ hmem

theorem ne_of_isDecimal (h : Unicode.isDecimal c = true) :
    c ≠ '"' ∧ c ≠ '/' ∧ c ≠ '#' ∧ c ≠ '<' ∧ c ≠ '\n' ∧ c ≠ '\r' := by
  refine ⟨?_, ?_, ?_, ?_, ?_, ?_⟩ <;>
  · intro hc
    rw [hc] at h
    exact absurd h (by decide)

theorem ne_of_isWord (h : Unicode.isWord c = true) :
    c ≠ '"' ∧ c ≠ '/' ∧ c ≠ '#' ∧ c ≠ '<' ∧ c ≠ '\n' ∧ c ≠ '\r' := by
  refine ⟨?_, ?_, ?_, ?_, ?_, ?_⟩ <;>
  · intro hc
    rw [hc] at h
    exact absurd h (by decide)

theorem startsBlockComment_of_ne (h : c ≠ '/') : startsBlockComment c cs = false := by
  simp [startsBlockComment, h]

theorem startsLineComment_of_ne (h : c ≠ '/') (h' : c ≠ '#') :
    startsLineComment c cs = false := by
  simp [startsLineComment, h, h']

/-- A slash before a star is not one before a slash. -/
theorem not_startsLineComment_of_block (h : startsBlockComment c cs = true) :
    startsLineComment c cs = false := by
  unfold startsBlockComment at h
  rw [Bool.and_eq_true, decide_eq_true_eq, List.isPrefixOf_iff_prefix] at h
  obtain ⟨rfl, ds, rfl⟩ := h
  simp [startsLineComment, List.isPrefixOf]

/-! ## Reading by cases -/

theorem lineEnd?_of_ne (hfeed : c ≠ '\n') (hreturn : c ≠ '\r') (cs : Text) :
    lineEnd? c cs = none := by
  simp [lineEnd?, Heredoc.lineEndSize, hfeed, hreturn]

/-- A carriage return that starts no line end starts nothing. -/
theorem plain?_return (h : plain? '\r' cs = some l) :
    ∃ below, cs = '\n' :: below ∧ l = ⟨.newline, 1⟩ := by
  have hcomment : lineComment? '\r' cs = none := rfl
  have hnumber : number? '\r' cs = none := by
    have hc : Unicode.isDecimal '\r' = false := by decide
    simp [number?, hc]
  have hident : ident? '\r' cs = none := by
    have hc : Unicode.isWord '\r' = false := by decide
    simp [ident?, hc]
  have hfixed : fixed? '\r' cs = none := by simp [fixed?, spellings]
  cases cs with
  | nil =>
    simp [plain?, hcomment, hnumber, hident, hfixed, lineEnd?, Heredoc.lineEndSize] at h
  | cons d cs =>
    by_cases hd : d = '\n'
    · subst hd
      exact ⟨cs, rfl, (Option.some.inj h).symm⟩
    · simp [plain?, hcomment, hnumber, hident, hfixed, lineEnd?, Heredoc.lineEndSize, hd] at h

theorem plain?_of_ne (hfeed : c ≠ '\n') (hreturn : c ≠ '\r') (cs : Text) :
    plain? c cs =
      if startsLineComment c cs then some ⟨.comment, (cs.takeWhile insideLine).length⟩
      else if Unicode.isDecimal c then some ⟨.number, numberRest cs⟩
      else if Unicode.isWord c then
        some ⟨.ident, (cs.takeWhile Heredoc.continuesName).length⟩
      else fixed? c cs := by
  rw [plain?, lineEnd?_of_ne hfeed hreturn]
  by_cases hcomment : startsLineComment c cs
  · rw [if_pos hcomment]
    unfold startsLineComment at hcomment
    simp only [lineComment?, hcomment, if_true]
    rfl
  · rw [if_neg hcomment]
    unfold startsLineComment at hcomment
    by_cases hdecimal : Unicode.isDecimal c
    · simp [lineComment?, hcomment, number?, hdecimal]
    · by_cases hword : Unicode.isWord c <;>
        simp [lineComment?, hcomment, number?, hdecimal, ident?, hword]

theorem reads_of_read (h : read c cs = .ok l) : Reads c cs l := by
  unfold read at h
  split at h
  · rename_i hc
    obtain ⟨n, hn, rfl⟩ := Except.map_eq_ok_iff.mp h
    exact .string hc hn
  split at h
  · rename_i hblock
    split at h
    · rename_i n hn
      cases h
      exact .blockComment hblock hn
    · cases h
  rename_i hblock
  have hblock : startsBlockComment c cs = false := Bool.eq_false_iff.mpr hblock
  split at h
  · rename_i header hheader
    unfold heredocHeader? at hheader
    split at hheader
    · rename_i hc
      obtain ⟨n, hn, rfl⟩ := Except.map_eq_ok_iff.mp h
      unfold Heredoc.size at hn
      split at hn
      · rename_i m hm
        cases hn
        exact .heredoc hc hheader hm
      · cases hn
    · cases hheader
  rename_i hheader
  have hheader : c = '<' → Heredoc.header? cs = none := by
    intro hc
    simpa [heredocHeader?, hc] using hheader
  split at h
  · rename_i l' hplain
    cases h
    by_cases hfeed : c = '\n'
    · subst hfeed
      cases hplain
      exact .lineFeed rfl
    by_cases hreturn : c = '\r'
    · subst hreturn
      obtain ⟨below, hcs, rfl⟩ := plain?_return hplain
      exact .returnFeed rfl hcs
    rw [plain?_of_ne hfeed hreturn] at hplain
    split at hplain
    · rename_i hline
      cases hplain
      exact .lineComment hline
    split at hplain
    · rename_i hdecimal
      cases hplain
      exact .number hdecimal
    split at hplain
    · rename_i hdecimal hword
      cases hplain
      exact .ident hword (by simpa using hdecimal)
    · rename_i hline _ _
      exact .fixed hblock (by simpa using hline) hheader hplain
  · cases h

theorem read_of_plain (hquote : c ≠ '"') (hblock : startsBlockComment c cs = false)
    (hheader : c = '<' → Heredoc.header? cs = none) (h : plain? c cs = some l) :
    read c cs = .ok l := by
  have hnone : heredocHeader? c cs = none := by
    unfold heredocHeader?
    split
    · rename_i hc
      exact hheader hc
    · rfl
  unfold startsBlockComment at hblock
  rw [read, if_neg hquote, hblock, hnone, h]
  rfl

theorem read_of_reads (h : Reads c cs l) : read c cs = .ok l := by
  cases h with
  | string hc hsize =>
    rw [read, if_pos hc, hsize]
    rfl
  | blockComment hstarts hsize =>
    have hquote : c ≠ '"' := by
      intro hc
      subst hc
      cases hstarts
    unfold startsBlockComment at hstarts
    rw [read, if_neg hquote, if_pos hstarts, hsize]
  | heredoc hc hheader hbody =>
    subst hc
    rw [read, if_neg (by decide), if_neg (by simp), heredocHeader?, if_pos rfl, hheader]
    simp only [Heredoc.size, hbody]
    rfl
  | lineFeed hc =>
    subst hc
    rfl
  | returnFeed hc hcs =>
    subst hc hcs
    rfl
  | lineComment hstarts =>
    have hc : c = '/' ∨ c = '#' := by
      unfold startsLineComment at hstarts
      simp only [Bool.or_eq_true, Bool.and_eq_true, decide_eq_true_eq] at hstarts
      exact hstarts.symm.imp_left And.left
    have hblock : startsBlockComment c cs = false := by
      cases hb : startsBlockComment c cs with
      | false => rfl
      | true => rw [not_startsLineComment_of_block hb] at hstarts; cases hstarts
    refine read_of_plain ?_ hblock ?_ ?_
    · rintro rfl
      rcases hc with hc | hc <;> cases hc
    · rintro rfl
      rcases hc with hc | hc <;> cases hc
    · rw [plain?_of_ne, if_pos hstarts]
      · rintro rfl
        rcases hc with hc | hc <;> cases hc
      · rintro rfl
        rcases hc with hc | hc <;> cases hc
  | number hc =>
    obtain ⟨hquote, hslash, hhash, hless, hfeed, hreturn⟩ := ne_of_isDecimal hc
    refine read_of_plain hquote (startsBlockComment_of_ne hslash) (fun h => absurd h hless) ?_
    rw [plain?_of_ne hfeed hreturn, startsLineComment_of_ne hslash hhash, hc]
    rfl
  | ident hword hdecimal =>
    obtain ⟨hquote, hslash, hhash, hless, hfeed, hreturn⟩ := ne_of_isWord hword
    refine read_of_plain hquote (startsBlockComment_of_ne hslash) (fun h => absurd h hless) ?_
    rw [plain?_of_ne hfeed hreturn, startsLineComment_of_ne hslash hhash, hdecimal, hword]
    rfl
  | fixed hblock hline hheader hfixed =>
    obtain ⟨hquote, hfeed, hreturn, hdecimal, hword⟩ := ne_of_fixed? hfixed
    refine read_of_plain hquote hblock hheader ?_
    rw [plain?_of_ne hfeed hreturn, hline, hdecimal, hword]
    exact hfixed

theorem read_eq_ok_iff : read c cs = .ok l ↔ Reads c cs l :=
  ⟨reads_of_read, read_of_reads⟩

/-! ## Reading by kind -/

/-- A string is what stands behind its first quote, up to the quote that closes it. -/
theorem size_of_string (h : read c cs = .ok l) (hkind : l.kind = .string) :
    c = '"' ∧ Quoted.size cs = .ok l.more := by
  cases read_eq_ok_iff.mp h with
  | string hc hsize => exact ⟨hc, hsize⟩
  | fixed _ _ _ hfixed => exact absurd hkind (kind_ne_of_fixed? hfixed (by decide))
  | _ => cases hkind

theorem heredoc_of_read (h : read c cs = .ok l) (hkind : l.kind = .heredoc) :
    c = '<' ∧ ∃ header n, Heredoc.header? cs = some header ∧
      Heredoc.bodySize? header.marker (cs.drop header.size) = some n ∧
      l.more = header.size + n := by
  cases read_eq_ok_iff.mp h with
  | heredoc hc hheader hbody => exact ⟨hc, _, _, hheader, hbody, rfl⟩
  | fixed _ _ _ hfixed => exact absurd hkind (kind_ne_of_fixed? hfixed (by decide))
  | _ => cases hkind

theorem ident_of_read (h : read c cs = .ok l) (hkind : l.kind = .ident) :
    Unicode.isWord c = true ∧ Unicode.isDecimal c = false ∧
      l.more = (cs.takeWhile Heredoc.continuesName).length := by
  cases read_eq_ok_iff.mp h with
  | ident hword hdecimal => exact ⟨hword, hdecimal, rfl⟩
  | fixed _ _ _ hfixed => exact absurd hkind (kind_ne_of_fixed? hfixed (by decide))
  | _ => cases hkind

theorem newline_of_read (h : read c cs = .ok l) (hkind : l.kind = .newline) :
    (c = '\n' ∧ l.more = 0) ∨ (c = '\r' ∧ ∃ below, cs = '\n' :: below ∧ l.more = 1) := by
  cases read_eq_ok_iff.mp h with
  | lineFeed hc => exact Or.inl ⟨hc, rfl⟩
  | returnFeed hc hcs => exact Or.inr ⟨hc, _, hcs, rfl⟩
  | fixed _ _ _ hfixed => exact absurd hkind (kind_ne_of_fixed? hfixed (by decide))
  | _ => cases hkind

theorem comment_of_read (h : read c cs = .ok l) (hkind : l.kind = .comment) :
    (startsLineComment c cs = true ∧ l.more = (cs.takeWhile insideLine).length) ∨
      (startsBlockComment c cs = true ∧
        ∃ n, commentSize? (cs.drop 1) = some n ∧ l.more = 1 + n) := by
  cases read_eq_ok_iff.mp h with
  | lineComment hstarts => exact Or.inl ⟨hstarts, rfl⟩
  | blockComment hstarts hsize => exact Or.inr ⟨hstarts, _, hsize, rfl⟩
  | fixed _ _ _ hfixed => exact absurd hkind (kind_ne_of_fixed? hfixed (by decide))
  | _ => cases hkind

/-- An `=` stands in front of nothing that would make it a longer spelling. -/
theorem equal_of_read (h : read c cs = .ok l) (hkind : l.kind = .equal) :
    c = '=' ∧ l.more = 0 ∧ ∀ d ∈ cs.head?, d ≠ '=' ∧ d ≠ '>' := by
  have hspelled : ∀ s ∈ spellings, s.2.2 = .equal → s.1 = '=' ∧ s.2.1 = [] := by decide
  cases read_eq_ok_iff.mp h with
  | fixed _ _ _ hfixed =>
    obtain ⟨e, hmem, hlen, -⟩ := mem_spellings_of_fixed? hfixed
    obtain ⟨rfl, rfl⟩ : c = '=' ∧ e = [] := hspelled _ hmem hkind
    have hmore : l.more = 0 := hlen.symm
    refine ⟨rfl, hmore, fun d hd => ?_⟩
    have hnone : ∀ s ∈ spellings, s.1 = '=' → s.2.1 ≠ [d] := by
      intro s hs hc hlonger
      obtain ⟨below, rfl⟩ := List.head?_eq_some_iff.mp hd
      have hle := length_le_of_fixed? hfixed hs hc (by rw [hlonger]; exact ⟨below, rfl⟩)
      rw [hmore, hlonger] at hle
      cases hle
    refine ⟨?_, ?_⟩
    · rintro rfl
      exact hnone ('=', ['='], .operator) (by decide) rfl rfl
    · rintro rfl
      exact hnone ('=', ['>'], .operator) (by decide) rfl rfl
  | _ => cases hkind

end HclQuery.Lexeme
