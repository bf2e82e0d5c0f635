/-
  Labels with `${` or `%{` in them.

  Two parts of the reading look for templates in a label. The scan that cuts it off walks from left
  to right and knows what stands for itself: `$${`, `%%{`, and what is behind a backslash. The
  check of a label looks for `${` and `%{` anywhere between the quotes. So it rejects the labels
  that the scan entered a template in, and besides them just those in which the scan passed over
  `${` or `%{` as text: `label_rejected_iff`.
-/
import HclQuery.Proofs.Document.LineBreaks
import HclQuery.Proofs.Document.Progress
import HclQuery.Proofs.Token.QuotedScan

namespace HclQuery

/-! ## What opens a template, and what only looks so -/

namespace Quoted

namespace Scan

/-- With the next step the scan enters a template. -/
def Opens (s : Scan) : Prop :=
  s.skip = 0 ∧ s.frame = .quote ∧
    ∃ c cs, s.rest = c :: cs ∧ stepInString c cs = some (.enter 1 .brace)

/-- Texts in which `${` or `%{` is no template. -/
def literals : List Text :=
  [['\\', '$', '{'], ['\\', '%', '{'], ['$', '$', '{'], ['%', '%', '{']]

/-- With the next step the scan passes over what looks like the start of a template. -/
def Passes (s : Scan) : Prop :=
  s.skip = 0 ∧ s.frame = .quote ∧ ∃ o ∈ literals, o <+: s.rest

end Scan

/-- The scan of the string whose opening quote stands before the text enters a template. -/
def EntersTemplate (t : Text) : Prop :=
  ∃ s, (Scan.ofString t).Reaches s ∧ s.Opens

/-- The scan of the string whose opening quote stands before the text passes over `${` or `%{` as
    over any other text. -/
def PassesOpener (t : Text) : Prop :=
  ∃ s, (Scan.ofString t).Reaches s ∧ s.Passes

/-! ## The text of a string, and its scan -/

/-- `${` or `%{` stands in the text. -/
def HoldsOpener (t : Text) : Prop :=
  ∃ before c after, (c = '$' ∨ c = '%') ∧ t = before ++ c :: '{' :: after

/-- Wherever `${` or `%{` stands in a string, the scan has entered a template, or enters one there,
    or passes over it. -/
theorem InString.exists_opener {w : Text} (hw : InString w) (hholds : HoldsOpener w)
    (rest : Text) : ∃ s, (Scan.ofString (w ++ rest)).Reaches s ∧ (s.Opens ∨ s.Passes) := by
  obtain ⟨before, d, after, hd, heq⟩ := hholds
  cases hw with
  | close =>
    have hlength := congrArg List.length heq
    simp at hlength
    omega
  | @escaped c t h =>
    cases before with
    | nil =>
      obtain rfl : '\\' = d := (List.cons.inj heq).1
      rcases hd with hd | hd <;> cases hd
    | cons x before =>
      cases before with
      | nil =>
        obtain ⟨rfl, rfl⟩ : c = d ∧ t = '{' :: after := List.cons.inj (List.cons.inj heq).2
        have hpasses : ['\\', c, '{'] ∈ Scan.literals := by
          rcases hd with rfl | rfl <;> decide
        exact ⟨_, .refl, Or.inr ⟨rfl, rfl, _, hpasses, after ++ rest, rfl⟩⟩
      | cons y before =>
        have ht : t = before ++ d :: '{' :: after := (List.cons.inj (List.cons.inj heq).2).2
        obtain ⟨s, hreaches, hs⟩ := h.exists_opener ⟨before, d, after, hd, ht⟩ rest
        exact ⟨s, reaches_escaped.trans hreaches, hs⟩
  | @doubled c t hc h =>
    have hpasses : [c, c, '{'] ∈ Scan.literals := by
      rcases hc with rfl | rfl <;> decide
    exact ⟨_, .refl, Or.inr ⟨rfl, rfl, _, hpasses, t ++ rest, rfl⟩⟩
  | template hc hs h => exact ⟨_, .refl, Or.inl ⟨rfl, rfl, _, _, rfl, step_opener hc⟩⟩
  | @plain c t hc hopener h =>
    cases before with
    | nil =>
      obtain ⟨rfl, rfl⟩ : c = d ∧ t = '{' :: after := List.cons.inj heq
      have hmem : [c, '{'] ∈ openers := by
        rcases hd with rfl | rfl <;> decide
      exact absurd ⟨after, rfl⟩ (hopener _ hmem)
    | cons x before =>
      have ht : t = before ++ d :: '{' :: after := (List.cons.inj heq).2
      obtain ⟨s, hreaches, hs⟩ := h.exists_opener ⟨before, d, after, hd, ht⟩ rest
      exact ⟨s, (reaches_plain hc hopener h).trans hreaches, hs⟩
termination_by w.length

/-- Where the scan enters a template or passes over something like it, `${` or `%{` stands in what
    the next steps pass over. -/
theorem exists_next_of_opens {s : Scan} (h : s.Opens ∨ s.Passes) :
    ∃ x c y s', (c = '$' ∨ c = '%') ∧ s.rest = x ++ c :: '{' :: y ∧ s.next? = some s' ∧
      x.length ≤ s'.skip := by
  obtain ⟨skip, frame, outer, rest⟩ := s
  rcases h with ⟨hskip, hframe, c, cs, hrest, hstep⟩ | ⟨hskip, hframe, o, ho, y, hrest⟩
  · obtain rfl : skip = 0 := hskip
    obtain rfl : frame = .quote := hframe
    obtain rfl : rest = c :: cs := hrest
    obtain ⟨-, ⟨-, h⟩ | ⟨-, h⟩ | ⟨-, h⟩ | ⟨-, -, h⟩ | ⟨hc, ⟨y, rfl⟩, -⟩⟩ :=
      cases_of_stepInString hstep
    · cases h
    · cases h
    · cases h
    · cases h
    · exact ⟨[], c, y, _, hc, rfl, Scan.next?_enter hstep, Nat.zero_le _⟩
  · obtain rfl : skip = 0 := hskip
    obtain rfl : frame = .quote := hframe
    obtain rfl : o ++ y = rest := hrest
    simp only [Scan.literals, List.mem_cons, List.not_mem_nil, or_false] at ho
    rcases ho with rfl | rfl | rfl | rfl
    · exact ⟨['\\'], '$', y, _, Or.inl rfl, rfl, Scan.next?_stay rfl, by simp⟩
    · exact ⟨['\\'], '%', y, _, Or.inr rfl, rfl, Scan.next?_stay rfl, by simp⟩
    · exact ⟨['$'], '$', y, _, Or.inl rfl, rfl, Scan.next?_stay rfl, by simp⟩
    · exact ⟨['%'], '%', y, _, Or.inr rfl, rfl, Scan.next?_stay rfl, by simp⟩

/-- What the scan passes over with its next steps stands in the string. -/
theorem InString.holdsOpener {w rest : Text} {s : Scan} (hw : InString w)
    (hreaches : (Scan.ofString (w ++ rest)).Reaches s) (h : s.Opens ∨ s.Passes) :
    HoldsOpener w := by
  obtain ⟨x, c, y, s', hc, hrest, hnext, hskip⟩ := exists_next_of_opens h
  obtain ⟨front, hfront, hextent⟩ := hreaches.extent_eq
  have hsize : (Scan.ofString (w ++ rest)).extent = .ok w.length := hw.passes [] rest
  rw [hsize] at hextent
  obtain ⟨m, hm, hcount⟩ := Except.map_eq_ok_iff.mp hextent.symm
  rw [(Scan.extent_of_next? hnext).2] at hm
  obtain ⟨n, hn, rfl⟩ := Except.map_eq_ok_iff.mp hm
  have hpos := (extent_pos hn).1
  -- So the brace does not stand behind the end of the string.
  have hlength : (front ++ (x ++ [c, '{'])).length ≤ w.length := by
    simp only [List.length_append, List.length_cons, List.length_nil]
    omega
  have hwhole : front ++ (x ++ [c, '{']) <+: w ++ rest := by
    have heq : w ++ rest = front ++ (x ++ c :: '{' :: y) := by rw [← hrest, ← hfront]; rfl
    exact ⟨y, by rw [heq]; simp⟩
  obtain ⟨after, rfl⟩ :=
    List.prefix_of_prefix_length_le hwhole (List.prefix_append w rest) hlength
  exact ⟨front ++ x, c, after, hc, by simp⟩

/-- A string holds `${` or `%{` exactly if its scan enters a template or passes over one of them. -/
theorem InString.holdsOpener_iff {w : Text} (hw : InString w) (rest : Text) :
    HoldsOpener w ↔ EntersTemplate (w ++ rest) ∨ PassesOpener (w ++ rest) := by
  constructor
  · intro hholds
    obtain ⟨s, hreaches, hs⟩ := hw.exists_opener hholds rest
    exact hs.imp (fun h => ⟨s, hreaches, h⟩) fun h => ⟨s, hreaches, h⟩
  · intro h
    rcases h with ⟨s, hreaches, hs⟩ | ⟨s, hreaches, hs⟩
    · exact hw.holdsOpener hreaches (Or.inl hs)
    · exact hw.holdsOpener hreaches (Or.inr hs)

/-- What stands behind the opening quote of a string with `$${`, up to the end of a text. -/
def behindDoubledDollar : Text :=
  ['$', '$', '\x7b', 'x', '\x7d', '"', ' ', '\x7b', '\n', '\x7d', '\n']

/-- The scan passes over `$${` and then over one character at a time. -/
theorem not_entersTemplate_doubledDollar : ¬ EntersTemplate behindDoubledDollar := by
  have hskip : ∀ n frame outer rest, ¬ Scan.Opens ⟨n + 1, frame, outer, rest⟩ :=
    fun n frame outer rest h => nomatch h.1
  have hread : ∀ outer c cs, stepInString c cs ≠ some (.enter 1 .brace) →
      ¬ Scan.Opens ⟨0, .quote, outer, c :: cs⟩ := by
    rintro outer c cs hstep ⟨-, -, d, ds, heq, hopens⟩
    obtain ⟨rfl, rfl⟩ : c = d ∧ cs = ds := List.cons.inj heq
    exact hstep hopens
  have hnone : ∀ s, (Scan.ofString behindDoubledDollar).Reaches s → ¬ s.Opens := by
    refine Scan.Reaches.forall_of_next? (hread _ _ _ ?_) rfl ?_
    · simp [stepInString, escapesTemplate]
    refine Scan.Reaches.forall_of_next? (hskip _ _ _ _) rfl ?_
    refine Scan.Reaches.forall_of_next? (hskip _ _ _ _) rfl ?_
    refine Scan.Reaches.forall_of_next? (hread _ _ _ ?_) rfl ?_
    · simp [stepInString, escapesTemplate, opensTemplate]
    refine Scan.Reaches.forall_of_next? (hread _ _ _ ?_) rfl ?_
    · simp [stepInString, escapesTemplate, opensTemplate]
    refine Scan.Reaches.forall_of_end (hread _ _ _ ?_) rfl
    simp [stepInString]
  rintro ⟨s, hreaches, hopens⟩
  exact hnone s hreaches hopens

end Quoted

/-! ## Labels -/

namespace Token

/-- What stands behind the opening quote of a string, where `after` follows it. -/
def behindQuote (t : Token) (after : List Token) : Text :=
  t.text.tail ++ sourceOf after

/-- A string is a label exactly if `${` and `%{` do not stand in it. -/
theorem isLabel_iff {t : Token} {w : Text} (hkind : t.kind = .string)
    (htext : t.text = '"' :: w) (hw : Quoted.InString w) :
    Grammar.IsLabel t ↔ ¬ Quoted.HoldsOpener w := by
  obtain ⟨inside, rfl⟩ := hw.exists_eq_concat
  constructor
  · intro hlabel hholds
    obtain ⟨before, c, after, hc, heq⟩ := hholds
    have hafter : after ≠ [] := by
      rintro rfl
      have hlast := congrArg List.getLast? heq
      simp at hlast
    rw [heq] at htext
    exact not_isLabel_of_template hkind htext hc hafter hlabel
  · intro hnone
    have hinside : Grammar.labelInside t = inside := by simp [Grammar.labelInside, htext]
    have hfree : ∀ c, c = '$' ∨ c = '%' → ¬ [c, '{'] <:+: Grammar.labelInside t := by
      intro c hc hin
      rw [hinside] at hin
      obtain ⟨before, after, rfl⟩ := hin
      exact hnone ⟨before, c, after ++ ['"'], hc, by simp⟩
    exact Or.inr ⟨hkind, hfree '$' (Or.inl rfl), hfree '%' (Or.inr rfl)⟩

end Token

namespace Document

open Grammar

/-- Behind the labels of a header, a string that is no label is the fault of the header. -/
theorem readHeader_string {type t : Token} {labels after : List Token}
    (hlabels : ∀ u ∈ labels, IsLabel u) (hkind : t.kind = .string) (hlabel : ¬ IsLabel t) :
    readHeader type (labels ++ t :: after) = .error ⟨t.line, .templateInLabel t.text⟩ := by
  induction labels with
  | nil =>
    rw [List.nil_append, readHeader, hkind]
    simp only [(decode?_eq_none_iff hkind).mpr hlabel]
  | cons u labels ih =>
    rw [List.cons_append, readHeader_label (hlabels u List.mem_cons_self),
      ih fun v hv => hlabels v (List.mem_cons_of_mem u hv)]
    rfl

/-- What is rejected as a label with a template cannot be decoded. -/
theorem decode?_of_faultOf {ts : List Token} {line : Int} {x : Text}
    (h : FaultOf ts ⟨line, .templateInLabel x⟩) : Label.decode? x = none := by
  cases h with
  | templateInLabel _ _ hnone => exact hnone

/-- A string in the place of a label is rejected exactly if the scan entered a template in it or
    passed over `${` or `%{`, and is a label otherwise. -/
theorem label_rejected_iff {filename : String} {source : Text} {ts labels after : List Token}
    {type t : Token} {s : State} (hts : Token.ofText source = .ok ts)
    (hreaches : Reaches ts s (type :: (labels ++ t :: after))) (htype : type.kind = .ident)
    (hlabels : ∀ u ∈ labels, IsLabel u) (hkind : t.kind = .string) :
    (parse filename source = .error ⟨filename, t.line, .templateInLabel t.text⟩ ↔
      Quoted.EntersTemplate (t.behindQuote after) ∨ Quoted.PassesOpener (t.behindQuote after)) ∧
    (IsLabel t ↔
      ¬ Quoted.EntersTemplate (t.behindQuote after) ∧
        ¬ Quoted.PassesOpener (t.behindQuote after)) := by
  have hcuts := Token.ofTextFrom_eq_ok_iff.mp hts
  have hmem : t ∈ ts := hreaches.suffix.subset (by simp)
  obtain ⟨w, htext, hw⟩ := hcuts.exists_inString hmem hkind
  have hbehind : t.behindQuote after = w ++ Token.sourceOf after := by
    rw [Token.behindQuote, htext]
    rfl
  have hlabel : IsLabel t ↔ ¬ (Quoted.EntersTemplate (t.behindQuote after) ∨
      Quoted.PassesOpener (t.behindQuote after)) := by
    rw [hbehind, ← hw.holdsOpener_iff]
    exact Token.isLabel_iff hkind htext hw
  refine ⟨?_, hlabel.trans not_or⟩
  rw [← not_iff_not, ← hlabel]
  constructor
  · intro hparse
    by_contra hno
    have hequal : t.kind ≠ .equal := by
      rw [hkind]
      decide
    have hfault : s.step type (labels ++ t :: after) =
        .error ⟨t.line, .templateInLabel t.text⟩ := by
      rw [State.step_openBlock htype (head_labels_ne_equal hlabels hequal), State.openBlock,
        readHeader_string hlabels hkind hno]
      rfl
    exact hparse (parse_of_ofTokens_fault hts (hreaches.ofTokens_fault hfault))
  · intro hyes hparse
    obtain ⟨fault, hfault, heq⟩ := exists_fault_of_parse hts hparse
    obtain rfl : ⟨t.line, .templateInLabel t.text⟩ = fault := congrArg ParseError.fault heq
    have hnone := decode?_of_faultOf (faultOf_of_ofTokens hfault)
    exact (decode?_eq_none_iff hkind).mp hnone hyes

/-- A label with `${` behind another dollar sign, and an empty block. -/
def doubledDollar : Text :=
  "b \"$$\x7bx\x7d\" \x7b\n\x7d\n".toList

/-- Its label. -/
def doubledDollarLabel : Token :=
  ⟨.string, "\"$$\x7bx\x7d\"".toList, [' '], 1⟩

/-- What follows the label. -/
def doubledDollarBraces : List Token :=
  [⟨.openBrace, ['\x7b'], [' '], 1⟩, ⟨.newline, ['\n'], [], 1⟩, ⟨.closeBrace, ['\x7d'], [], 2⟩,
    ⟨.newline, ['\n'], [], 2⟩]

theorem ofText_doubledDollar :
    Token.ofText doubledDollar =
      .ok (⟨.ident, ['b'], [], 1⟩ :: ([] ++ doubledDollarLabel :: doubledDollarBraces)) := by
  decide +kernel

theorem parse_doubledDollar :
    parse unnamedSource doubledDollar =
      .error ⟨unnamedSource, 1, .templateInLabel doubledDollarLabel.text⟩ := by
  decide +kernel

/-- The label is rejected, so its scan entered a template or passed over `${`. -/
theorem label_rejected_iff_doubledDollar :
    (∀ u ∈ ([] : List Token), IsLabel u) ∧ doubledDollarLabel.kind = .string ∧
      Reaches (⟨.ident, ['b'], [], 1⟩ :: ([] ++ doubledDollarLabel :: doubledDollarBraces)) {}
        (⟨.ident, ['b'], [], 1⟩ :: ([] ++ doubledDollarLabel :: doubledDollarBraces)) ∧
      (Quoted.EntersTemplate (doubledDollarLabel.behindQuote doubledDollarBraces) ∨
        Quoted.PassesOpener (doubledDollarLabel.behindQuote doubledDollarBraces)) := by
  have hlabels : ∀ u ∈ ([] : List Token), IsLabel u := by simp
  exact ⟨hlabels, rfl, .start,
    (label_rejected_iff ofText_doubledDollar .start rfl hlabels rfl).1.mp parse_doubledDollar⟩

/-- Of the strings in the place of a label just those are rejected that the scan entered a template
    in. -/
def RejectsEntered (filename : String) (source : Text) : Prop :=
  ∀ ts s type labels t after, Token.ofText source = .ok ts →
    Reaches ts s (type :: (labels ++ t :: after)) → type.kind = .ident →
    (∀ u ∈ labels, IsLabel u) → t.kind = .string →
      (parse filename source = .error ⟨filename, t.line, .templateInLabel t.text⟩ ↔
        Quoted.EntersTemplate (t.behindQuote after))

/-- The label is rejected though `$${` is no template. -/
theorem not_rejectsEntered : ¬ RejectsEntered unnamedSource doubledDollar := by
  intro h
  have hlabels : ∀ u ∈ ([] : List Token), IsLabel u := by simp
  have hbehind : doubledDollarLabel.behindQuote doubledDollarBraces =
      Quoted.behindDoubledDollar := by decide +kernel
  have hiff := h _ _ _ _ _ _ ofText_doubledDollar .start rfl hlabels rfl
  rw [hbehind] at hiff
  exact Quoted.not_entersTemplate_doubledDollar (hiff.mp parse_doubledDollar)

end Document

end HclQuery
