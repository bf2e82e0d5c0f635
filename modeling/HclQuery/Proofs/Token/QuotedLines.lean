/-
  Line feeds in strings.

  A string that the scan comes to the end of a line in is not cut off: the source is rejected at
  the string's line. So a line feed in the text of a string is one that the scan does not read
  between quotes. Either it lies in a template, or a backslash stands in front of it, which passes
  over the next character whatever it is: `lineFeeds_in_strings`.
-/
import HclQuery.Proofs.Token.Progress
import HclQuery.Proofs.Token.QuotedScan

namespace HclQuery

namespace Quoted

open Scan

/-! ## Where a line feed stands -/

section LineFeed

variable {front below rest : Text}

/-- The scan of a string comes to a template that is opened in `front`, and the brace that closes
    it stands in `below`, behind the line feed. -/
def InsideTemplate (front below rest : Text) : Prop :=
  ∃ before c upper lower behind, (c = '$' ∨ c = '%') ∧ front = before ++ c :: '{' :: upper ∧
    below = lower ++ behind ∧ InTemplate (upper ++ '\n' :: lower) ∧
    (ofString (front ++ '\n' :: (below ++ rest))).Reaches
      (ofString (c :: '{' :: (upper ++ '\n' :: (below ++ rest))))

/-- The scan of a string comes to a backslash directly in front of the line feed. -/
def BehindBackslash (front below rest : Text) : Prop :=
  ∃ before, front = before ++ ['\\'] ∧
    (ofString (front ++ '\n' :: (below ++ rest))).Reaches
      (ofString ('\\' :: '\n' :: (below ++ rest)))

/-- The line feed behind `front` is not read between quotes. -/
def Covered (front below rest : Text) : Prop :=
  InsideTemplate front below rest ∨ BehindBackslash front below rest

/-- What the scan passes over in front makes no difference. -/
theorem Covered.push {p t : Text} (ht : t = front ++ '\n' :: below)
    (hp : (ofString (p ++ (t ++ rest))).Reaches (ofString (t ++ rest)))
    (h : Covered front below rest) : Covered (p ++ front) below rest := by
  rw [ht, List.append_assoc, List.cons_append, ← List.append_assoc p] at hp
  rcases h with ⟨before, c, upper, lower, behind, hc, hfront, hbelow, htemplate, hreaches⟩ |
    ⟨before, hfront, hreaches⟩
  · refine Or.inl ⟨p ++ before, c, upper, lower, behind, hc, ?_, hbelow, htemplate,
      hp.trans hreaches⟩
    rw [hfront, List.append_assoc]
  · refine Or.inr ⟨p ++ before, ?_, hp.trans hreaches⟩
    rw [hfront, List.append_assoc]

/-- A line feed that is not in the first part stands in what follows this part. -/
theorem exists_front_of_not_mem {p t : Text} (hp : '\n' ∉ p) (h : p ++ t = front ++ '\n' :: below) :
    ∃ front', front = p ++ front' ∧ t = front' ++ '\n' :: below := by
  rcases List.append_eq_append_iff.mp h with ⟨front', hfront, ht⟩ | ⟨between, hsplit, hbelow⟩
  · exact ⟨front', hfront, ht⟩
  · cases between with
    | nil => exact ⟨[], by rw [hsplit]; simp, hbelow.symm⟩
    | cons d between =>
      obtain rfl : '\n' = d := (List.cons.inj hbelow).1
      exact absurd (by rw [hsplit]; simp) hp

end LineFeed

/-- Each line feed of a string lies in a template of it or directly behind a backslash. -/
theorem InString.covered {w : Text} (hw : InString w) {front below : Text}
    (heq : w = front ++ '\n' :: below) (rest : Text) : Covered front below rest := by
  cases hw with
  | close =>
    have hlineFeed : '\n' ∈ ['"'] := by rw [heq]; simp
    simp at hlineFeed
  | @escaped c t h =>
    by_cases hc : c = '\n'
    · subst hc
      obtain ⟨front, rfl, hsplit⟩ := exists_front_of_not_mem (p := ['\\']) (by simp) heq
      cases front with
      | nil =>
        obtain rfl : t = below := (List.cons.inj hsplit).2
        exact Or.inr ⟨[], rfl, .refl⟩
      | cons d front =>
        obtain ⟨rfl, ht⟩ := List.cons.inj hsplit
        exact (h.covered ht rest).push (p := ['\\', '\n']) ht reaches_escaped
    · have hfree : '\n' ∉ ['\\', c] := by simpa using Ne.symm hc
      obtain ⟨front, rfl, ht⟩ := exists_front_of_not_mem hfree heq
      exact (h.covered ht rest).push ht reaches_escaped
  | @doubled c t hc h =>
    have hfree : '\n' ∉ [c, c, '{'] := by rcases hc with rfl | rfl <;> simp
    obtain ⟨front, rfl, ht⟩ := exists_front_of_not_mem hfree heq
    exact (h.covered ht rest).push ht (reaches_doubled hc)
  | @template c s t hc hs h =>
    have hfree : '\n' ∉ [c, '{'] := by rcases hc with rfl | rfl <;> simp
    obtain ⟨front, rfl, hsplit⟩ := exists_front_of_not_mem hfree heq
    have hbehind : ∀ front', Covered front' below rest → t = front' ++ '\n' :: below →
        Covered ([c, '{'] ++ (s ++ front')) below rest := by
      intro front' hcovered ht
      exact hcovered.push (p := c :: '{' :: s) ht (hs.reaches_behind hc)
    rcases List.append_eq_append_iff.mp hsplit with ⟨front, rfl, ht⟩ | ⟨lower, hlower, hbelow⟩
    · exact hbehind front (h.covered ht rest) ht
    · cases lower with
      | nil =>
        have ht : t = [] ++ '\n' :: below := hbelow.symm
        obtain rfl : s = front := hlower.trans (List.append_nil front)
        have hcovered := hbehind [] (h.covered ht rest) ht
        rwa [List.append_nil] at hcovered
      | cons d lower =>
        obtain ⟨rfl, rfl⟩ := List.cons.inj hbelow
        rw [hlower] at hs
        exact Or.inl ⟨[], c, front, lower, t, hc, rfl, rfl, hs, .refl⟩
  | @plain c t hc hopener h =>
    have hfree : '\n' ∉ [c] := by simpa using Ne.symm hc.2.2
    obtain ⟨front, rfl, ht⟩ := exists_front_of_not_mem hfree heq
    exact (h.covered ht rest).push (p := [c]) ht (reaches_plain (t := t) hc hopener h)
termination_by w.length

/-! ## Where a string fails -/

/-- The scan is between quotes at the end of a line or of the input. -/
def Scan.AtLineEnd (s : Scan) : Prop :=
  s.frame = .quote ∧ (s.rest = [] ∨ s.skip = 0 ∧ ∃ cs, s.rest = '\n' :: cs)

theorem Scan.AtLineEnd.extent_eq {s : Scan} (h : s.AtLineEnd) :
    s.extent = .error .unterminatedQuoted := by
  obtain ⟨skip, frame, outer, rest⟩ := s
  obtain ⟨hframe, hend⟩ := h
  obtain rfl : frame = .quote := hframe
  rcases hend with hrest | ⟨hskip, cs, hrest⟩
  · obtain rfl : rest = [] := hrest
    rfl
  · obtain rfl : skip = 0 := hskip
    obtain rfl : rest = '\n' :: cs := hrest
    exact extent_none rfl

/-- A string is unterminated exactly if its scan comes to the end of a line or of the input between
    quotes. -/
theorem size_eq_unterminatedQuoted_iff (t : Text) :
    size t = .error .unterminatedQuoted ↔ ∃ s, (ofString t).Reaches s ∧ s.AtLineEnd := by
  constructor
  · intro h
    obtain ⟨s, hreaches, hstops⟩ := exists_stop (ofString t)
    obtain ⟨front, -, hextent⟩ := hreaches.extent_eq
    have hfault : s.extent = .error .unterminatedQuoted :=
      Except.map_eq_error_iff.mp (hextent.symm.trans h)
    refine ⟨s, hreaches, ?_⟩
    cases hstops with
    | close _ hok =>
      rw [hok] at hfault
      cases hfault
    | lineEnd hrest hskip hframe _ => exact ⟨hframe, Or.inr ⟨hskip, _, hrest⟩⟩
    | inputEnd hrest herror =>
      rw [herror] at hfault
      refine ⟨?_, Or.inl hrest⟩
      cases hframe : s.frame with
      | quote => rfl
      | brace =>
        rw [hframe] at hfault
        cases hfault
  · intro h
    obtain ⟨s, hreaches, hend⟩ := h
    obtain ⟨front, -, hextent⟩ := hreaches.extent_eq
    rw [hend.extent_eq] at hextent
    exact hextent

end Quoted

/-! ## Sources -/

/-- Only a string is an unterminated string. -/
theorem Lexeme.size_of_unterminatedQuoted {c : Char} {cs : Text}
    (h : read c cs = .error .unterminatedQuoted) :
    c = '"' ∧ Quoted.size cs = .error .unterminatedQuoted := by
  unfold read at h
  split at h
  · rename_i hc
    exact ⟨hc, Except.map_eq_error_iff.mp h⟩
  split at h
  · split at h
    · cases h
    · cases h
  split at h
  · rename_i header _
    have hsize := Except.map_eq_error_iff.mp h
    unfold Heredoc.size at hsize
    split at hsize
    · cases hsize
    · cases hsize
  · split at h
    · cases h
    · cases h

namespace Token

/-- Behind the tokens `ts` and blanks stands the opening quote of a string, and the scan of the
    string comes to the end of a line or of the input between quotes. -/
def BreaksOff (source : Text) (ts : List Token) (line : Int) : Prop :=
  ∃ leading t, Reaches source ts line (leading ++ '"' :: t) ∧
    (∀ d ∈ leading, isLeading d = true) ∧
      ∃ s, (Quoted.Scan.ofString t).Reaches s ∧ s.AtLineEnd

/-- A source is rejected for an unterminated string exactly if a string of it breaks off, on the
    line of this string. -/
theorem ofText_eq_unterminatedQuoted_iff (source : Text) (line : Int) :
    ofText source = .error ⟨line, .unterminatedQuoted⟩ ↔ ∃ ts, BreaksOff source ts line := by
  constructor
  · intro h
    obtain ⟨ts, leading, c, cs, hstuck⟩ := exists_stuck h
    obtain ⟨rfl, hsize⟩ := Lexeme.size_of_unterminatedQuoted hstuck.unread
    exact ⟨ts, leading, cs, hstuck.reaches, hstuck.leading,
      (Quoted.size_eq_unterminatedQuoted_iff cs).mp hsize⟩
  · intro h
    obtain ⟨ts, leading, t, hreaches, hleading, hscan⟩ := h
    have hsize := (Quoted.size_eq_unterminatedQuoted_iff t).mpr hscan
    have hread : Lexeme.read '"' t = .error .unterminatedQuoted := by
      rw [Lexeme.read, if_pos rfl, hsize]
      rfl
    rw [hreaches.ofText_eq, ofTextFrom_problem hleading rfl hread]
    rfl

/-- Every line feed in a string of a source lies in a template, or directly behind a backslash that
    the scan comes to between quotes. A string in which the scan comes to the end of a line between
    quotes is not cut off; on its line, and for nothing else, a string is reported as
    unterminated. -/
theorem lineFeeds_in_strings (source : Text) :
    (∀ before u after front below, ofText source = .ok (before ++ u :: after) →
      u.kind = .string → u.text = '"' :: (front ++ '\n' :: below) →
        Quoted.InsideTemplate front below (sourceOf after) ∨
          Quoted.BehindBackslash front below (sourceOf after)) ∧
    ∀ line, ofText source = .error ⟨line, .unterminatedQuoted⟩ ↔
      ∃ ts, BreaksOff source ts line := by
  refine ⟨?_, ofText_eq_unterminatedQuoted_iff source⟩
  intro before u after front below hts hkind htext
  have hcuts := ofTextFrom_eq_ok_iff.mp hts
  obtain ⟨w, htext', hw⟩ := hcuts.exists_inString (by simp) hkind
  rw [htext] at htext'
  exact hw.covered (List.cons.inj htext').2.symm (sourceOf after)

/-- A line feed in a template, and a string that is open at the end of its line. -/
theorem lineFeeds_in_strings_templateOnTwoLines :
    (∃ before u after, ofText "a = \"$\x7b\n\x7d\"".toList = .ok (before ++ u :: after) ∧
      u.kind = .string ∧ u.text = '"' :: (['$', '\x7b'] ++ '\n' :: ['\x7d', '"']) ∧
      (Quoted.InsideTemplate ['$', '\x7b'] ['\x7d', '"'] (sourceOf after) ∨
        Quoted.BehindBackslash ['$', '\x7b'] ['\x7d', '"'] (sourceOf after))) ∧
    ∃ ts, BreaksOff "a = \"b\n".toList ts 1 := by
  obtain ⟨hcut, hfault⟩ :
      ofText "a = \"$\x7b\n\x7d\"".toList =
          .ok ([⟨.ident, ['a'], [], 1⟩, ⟨.equal, ['='], [' '], 1⟩] ++
            ⟨.string, ['"', '$', '\x7b', '\n', '\x7d', '"'], [' '], 1⟩ :: []) ∧
        ofText "a = \"b\n".toList = .error ⟨1, .unterminatedQuoted⟩ :=
    ⟨by decide +kernel, by decide +kernel⟩
  obtain ⟨hlineFeeds, -⟩ := lineFeeds_in_strings "a = \"$\x7b\n\x7d\"".toList
  obtain ⟨-, hrejected⟩ := lineFeeds_in_strings "a = \"b\n".toList
  exact ⟨⟨_, _, _, hcut, rfl, rfl, hlineFeeds _ _ _ _ _ hcut rfl rfl⟩, (hrejected 1).mp hfault⟩

/-- Every line feed in a string of the source lies in a template. -/
def StringsCloseOnLine (source : Text) : Prop :=
  ∀ before u after front below, ofText source = .ok (before ++ u :: after) →
    u.kind = .string → u.text = '"' :: (front ++ '\n' :: below) →
      Quoted.InsideTemplate front below (sourceOf after)

/-- A string with a backslash at the end of its line. -/
def slashedLine : Text :=
  "a = \"x\\\ny\"\n".toList

/-- The string goes on in the next line, and nothing in it opens a template. -/
theorem not_stringsCloseOnLine : ¬ StringsCloseOnLine slashedLine := by
  have hcut : ofText slashedLine =
      .ok ([⟨.ident, ['a'], [], 1⟩, ⟨.equal, ['='], [' '], 1⟩] ++
        ⟨.string, ['"', 'x', '\\', '\n', 'y', '"'], [' '], 1⟩ :: [⟨.newline, ['\n'], [], 2⟩]) := by
    decide +kernel
  intro h
  obtain ⟨before, c, upper, -, -, -, hfront, -⟩ :=
    h _ _ _ ['x', '\\'] ['y', '"'] hcut rfl rfl
  have hbrace : '{' ∈ ['x', '\\'] := by rw [hfront]; simp
  simp at hbrace

end Token

end HclQuery
