/-
  Cutting a text with other line breaks.

  Where a text without carriage returns gets one before every line feed (`Text.crlf`), each rule
  meets them in its own way: a line end takes both characters, a line comment and a heredoc's
  header stop in front of them, a heredoc's closing line drops the return, and for templates and
  block comments it is a character like any other. Only a backslash in a string, which passes over
  the next character whatever it is, would leave the line feed behind. Without such a string the
  text is cut into the same tokens (`Cuts.crlf`).
-/
import HclQuery.Proofs.Text.LineBreaks
import HclQuery.Proofs.Token.Shape

namespace HclQuery

/-! ## Strings -/

namespace Quoted

/-- How many of the characters behind a step it passes over. -/
def Step.skips : Step → Nat
  | stay more => more
  | enter more _ => more
  | leave => 0

theorem skips_stepInTemplate (c : Char) : (stepInTemplate c).skips = 0 := by
  unfold stepInTemplate
  split
  · rfl
  split
  · rfl
  split
  · rfl
  · rfl

/-- No step passes over a line feed, if no backslash stands in front of one. -/
theorem lineFeed_not_mem_skipped {frame : Frame} {c : Char} {cs : Text} {step : Step}
    (h : frame.step c cs = some step) (hescape : ¬ ['\\', '\n'] <:+: c :: cs) :
    '\n' ∉ cs.take step.skips := by
  cases frame with
  | brace =>
    rw [← Option.some.inj h, skips_stepInTemplate]
    simp
  | quote =>
    obtain ⟨-, hcases⟩ := cases_of_stepInString h
    rcases hcases with ⟨-, rfl⟩ | ⟨rfl, rfl⟩ | ⟨-, rfl⟩ | ⟨hc, ⟨rest, rfl⟩, rfl⟩ |
      ⟨-, ⟨rest, rfl⟩, rfl⟩
    · simp [Step.skips]
    · intro hmem
      cases cs with
      | nil => cases hmem
      | cons d cs =>
        obtain rfl : '\n' = d := List.mem_singleton.mp hmem
        exact hescape ⟨[], cs, rfl⟩
    · simp [Step.skips]
    · rcases hc with rfl | rfl <;> simp [Step.skips]
    · simp [Step.skips]

/-- A step is the same in front of other line breaks. -/
theorem step_crlf {frame : Frame} {c : Char} (hfeed : c ≠ '\n') (hreturn : c ≠ '\r') (cs : Text) :
    frame.step c (Text.crlf cs) = frame.step c cs := by
  have hagree := Text.agreeUpTo_crlf cs
  cases frame with
  | brace => rfl
  | quote =>
    refine stepInString_congr (hagree.isPrefixOf_eq ?_).symm (hagree.isPrefixOf_eq ?_).symm
    · simp
    · simp [hfeed, hreturn]

/-- A string or a template that is all of a text is so with other line breaks. -/
theorem extent_crlf {skip : Nat} {frame : Frame} {outer : List Frame} {t : Text}
    (h : extent skip frame outer t = .ok t.length) (hreturn : '\r' ∉ t)
    (hescape : ¬ ['\\', '\n'] <:+: t) (hskip : '\n' ∉ t.take skip) :
    extent skip frame outer (Text.crlf t) = .ok (Text.crlf t).length := by
  induction t generalizing skip frame outer with
  | nil => cases h
  | cons c cs ih =>
    have hrest : '\r' ∉ cs := fun hmem => hreturn (List.mem_cons_of_mem c hmem)
    have hescape' : ¬ ['\\', '\n'] <:+: cs := fun hin =>
      hescape (hin.trans (List.suffix_cons c cs).isInfix)
    have next : ∀ {more : Nat} {f : Frame} {fs : List Frame}, '\n' ∉ cs.take more →
        (extent more f fs cs).map (· + 1) = .ok (c :: cs).length →
          extent more f fs (Text.crlf cs) = .ok (Text.crlf cs).length := by
      intro more f fs hmore hnext
      obtain ⟨m, hm, hlen⟩ := Except.map_eq_ok_iff.mp hnext
      obtain rfl : m = cs.length := by simpa using hlen
      exact ih hm hrest hescape' hmore
    cases skip with
    | succ skip =>
      rw [List.take_succ_cons, List.mem_cons, not_or] at hskip
      rw [extent] at h
      rw [Text.crlf_cons (Ne.symm hskip.1), extent, next hskip.2 h]
      rfl
    | zero =>
      by_cases hc : c = '\n'
      · subst hc
        cases frame with
        | quote => cases h
        | brace =>
          have hstay : ∀ d ds, d = '\n' ∨ d = '\r' → Frame.brace.step d ds = some (.stay 0) := by
            rintro d ds (rfl | rfl) <;> rfl
          rw [extent_stay (hstay _ _ (Or.inl rfl))] at h
          rw [Text.crlf_lineFeed, extent_stay (hstay _ _ (Or.inr rfl)),
            extent_stay (hstay _ _ (Or.inl rfl)), next (by simp) h]
          rfl
      · have hc' : c ≠ '\r' := fun heq => hreturn (heq ▸ List.mem_cons_self)
        have hsame : frame.step c (Text.crlf cs) = frame.step c cs := step_crlf hc hc' cs
        rw [Text.crlf_cons hc]
        cases hstep : frame.step c cs with
        | none =>
          rw [extent_none hstep] at h
          cases h
        | some step =>
          have hskipped := lineFeed_not_mem_skipped hstep hescape
          rw [hstep] at hsame
          cases step with
          | stay more =>
            have hskipped : '\n' ∉ cs.take more := hskipped
            rw [extent_stay hstep] at h
            rw [extent_stay hsame, next hskipped h]
            rfl
          | enter more inner =>
            have hskipped : '\n' ∉ cs.take more := hskipped
            rw [extent_enter hstep] at h
            rw [extent_enter hsame, next hskipped h]
            rfl
          | leave =>
            cases outer with
            | nil =>
              rw [extent_close hstep] at h
              obtain rfl : cs = [] := by
                have := Except.ok.inj h
                exact List.length_eq_zero_iff.mp (by simpa using this.symm)
              exact extent_close hsame
            | cons around outer =>
              rw [extent_leave hstep] at h
              rw [extent_leave hsame, next (by simp) h]
              rfl

/-- In a string over several lines a template is opened, and not at the end. -/
theorem exists_template_of_lineFeed {skip : Nat} {t : Text}
    (h : extent skip .quote [] t = .ok t.length) (hescape : ¬ ['\\', '\n'] <:+: t)
    (hskip : '\n' ∉ t.take skip) (hmem : '\n' ∈ t) :
    ∃ before c after, (c = '$' ∨ c = '%') ∧ after ≠ [] ∧ t = before ++ c :: '{' :: after := by
  induction t generalizing skip with
  | nil => cases hmem
  | cons c cs ih =>
    have hescape' : ¬ ['\\', '\n'] <:+: cs := fun hin =>
      hescape (hin.trans (List.suffix_cons c cs).isInfix)
    have next : ∀ {more : Nat}, '\n' ∉ cs.take more → c ≠ '\n' →
        (extent more .quote [] cs).map (· + 1) = .ok (c :: cs).length →
          ∃ before d after, (d = '$' ∨ d = '%') ∧ after ≠ [] ∧
            c :: cs = before ++ d :: '{' :: after := by
      intro more hmore hc hnext
      obtain ⟨m, hm, hlen⟩ := Except.map_eq_ok_iff.mp hnext
      obtain rfl : m = cs.length := by simpa using hlen
      have hmem' : '\n' ∈ cs := (List.mem_cons.mp hmem).resolve_left (Ne.symm hc)
      obtain ⟨before, d, after, hd, hafter, rfl⟩ := ih hm hescape' hmore hmem'
      exact ⟨c :: before, d, after, hd, hafter, rfl⟩
    cases skip with
    | succ skip =>
      rw [List.take_succ_cons, List.mem_cons, not_or] at hskip
      rw [extent] at h
      exact next hskip.2 (Ne.symm hskip.1) h
    | zero =>
      cases hstep : stepInString c cs with
      | none =>
        have hnone : Frame.quote.step c cs = none := hstep
        rw [extent_none hnone] at h
        cases h
      | some step =>
        have hframe : Frame.quote.step c cs = some step := hstep
        have hskipped := lineFeed_not_mem_skipped hframe hescape
        obtain ⟨hc, hcases⟩ := cases_of_stepInString hstep
        cases step with
        | stay more =>
          rw [extent_stay hframe] at h
          exact next hskipped hc h
        | leave =>
          rw [extent_close hframe] at h
          obtain rfl : cs = [] := by
            have := Except.ok.inj h
            exact List.length_eq_zero_iff.mp (by simpa using this.symm)
          exact absurd (List.mem_singleton.mp hmem).symm hc
        | enter more inner =>
          obtain ⟨hdollar, ⟨after, rfl⟩, heq⟩ : (c = '$' ∨ c = '%') ∧ ['{'] <+: cs ∧
              Step.enter more inner = .enter 1 .brace := by
            simpa using hcases
          cases heq
          refine ⟨[], c, after, hdollar, ?_, rfl⟩
          rw [extent_enter hframe] at h
          obtain ⟨m, hm, hlen⟩ := Except.map_eq_ok_iff.mp h
          have := extent_pos hm
          rintro rfl
          simp at this
          omega

end Quoted

/-! ## Block comments -/

namespace Lexeme

theorem commentSize?_crlf {t : Text} (h : commentSize? t = some t.length) :
    commentSize? (Text.crlf t) = some (Text.crlf t).length := by
  induction t with
  | nil => cases h
  | cons c cs ih =>
    unfold commentSize? at h
    split at h
    · rename_i hclose
      rw [Bool.and_eq_true, decide_eq_true_eq, List.isPrefixOf_iff_prefix] at hclose
      obtain ⟨rfl, rest, rfl⟩ := hclose
      obtain rfl : rest = [] := by simpa using h
      rfl
    · rename_i hopen
      obtain ⟨m, hm, hlen⟩ := Option.map_eq_some_iff.mp h
      obtain rfl : m = cs.length := by simpa using hlen
      have hrest := ih hm
      by_cases hc : c = '\n'
      · subst hc
        rw [Text.crlf_lineFeed, commentSize?, if_neg (by simp), commentSize?, if_neg (by simp),
          hrest]
        rfl
      · have hsame : ['/'].isPrefixOf cs = ['/'].isPrefixOf (Text.crlf cs) :=
          (Text.agreeUpTo_crlf cs).isPrefixOf_eq (by simp)
        rw [hsame] at hopen
        rw [Text.crlf_cons hc, commentSize?, if_neg hopen, hrest]
        rfl

end Lexeme

/-! ## Heredocs -/

namespace Heredoc

/-- All of a header but its line end. -/
def Opening (marker stem : Text) : Prop :=
  ∃ dash, (dash = [] ∨ dash = ['-']) ∧ IsMarker marker ∧ stem = '<' :: (dash ++ marker)

theorem spells_iff {marker front : Text} :
    Spells marker front ↔ ∃ stem lineEnd, Opening marker stem ∧ IsLineEnd lineEnd ∧
      front = stem ++ lineEnd := by
  constructor
  · intro h
    obtain ⟨dash, lineEnd, hdash, hmarker, hlineEnd, rfl⟩ := h
    exact ⟨_, lineEnd, ⟨dash, hdash, hmarker, rfl⟩, hlineEnd, by simp⟩
  · intro h
    obtain ⟨stem, lineEnd, ⟨dash, hdash, hmarker, rfl⟩, hlineEnd, rfl⟩ := h
    exact ⟨dash, lineEnd, hdash, hmarker, hlineEnd, by simp⟩

/-- No part of a line break is in a header before its line end. -/
theorem Opening.not_mem {marker stem : Text} (h : Opening marker stem) :
    ∀ c ∈ stem, c ∉ ['\n', '\r'] := by
  obtain ⟨dash, hdash, hmarker, rfl⟩ := h
  have hfeed : '\n' ∉ '<' :: (dash ++ marker) := by
    have := hmarker.lineFeed_not_mem
    rcases hdash with rfl | rfl <;> simpa
  have hreturn : '\r' ∉ '<' :: (dash ++ marker) := by
    have := hmarker.not_mem (c := '\r') (by decide) (by decide)
    rcases hdash with rfl | rfl <;> simpa
  intro c hc hmem
  rcases List.mem_cons.mp hmem with rfl | hmem
  · exact hfeed hc
  · rw [List.mem_singleton.mp hmem] at hc
    exact hreturn hc

theorem spells_crlf {marker front : Text} (h : Spells marker front) (hreturn : '\r' ∉ front) :
    Spells marker (Text.crlf front) := by
  obtain ⟨stem, lineEnd, hopening, hlineEnd, rfl⟩ := spells_iff.mp h
  have hfree : '\n' ∉ stem := fun hmem => hopening.not_mem _ hmem (by simp)
  obtain rfl : lineEnd = ['\n'] := by
    rcases hlineEnd with rfl | rfl
    · rfl
    · simp at hreturn
  refine spells_iff.mpr ⟨stem, ['\r', '\n'], hopening, Or.inr rfl, ?_⟩
  rw [Text.crlf_append, Text.crlf_eq_self hfree]
  rfl

/-- Where no header stands, none comes to be by returns. -/
theorem header?_crlf_of_none {t : Text} (h : header? t = none) (hreturn : '\r' ∉ t) :
    header? (Text.crlf t) = none := by
  cases hcrlf : header? (Text.crlf t) with
  | none => rfl
  | some header =>
    exfalso
    obtain ⟨front, below, hspells, hshape, -⟩ := spells_of_header? hcrlf
    rcases Text.exists_line t with hline | ⟨line, rest, hline, rfl⟩
    · rw [Text.crlf_eq_self hline, h] at hcrlf
      cases hcrlf
    · obtain ⟨stem, lineEnd, hopening, hlineEnd, rfl⟩ := spells_iff.mp hspells
      rw [Text.crlf_append, Text.crlf_eq_self hline, Text.crlf_lineFeed, List.append_assoc]
        at hshape
      have hparted : Text.PartedBy ['\n', '\r'] line ('\r' :: '\n' :: Text.crlf rest) :=
        Or.inr (by simp)
      obtain ⟨more, rfl⟩ := hparted.prefix_left hopening.not_mem ⟨_, hshape.symm⟩
      rw [List.append_assoc, List.append_cancel_left_eq] at hshape
      cases more with
      | nil =>
        have hfound : Spells header.marker (stem ++ ['\n']) :=
          spells_iff.mpr ⟨stem, ['\n'], hopening, Or.inl rfl, rfl⟩
        have := header?_of_spells hfound rest
        rw [List.append_assoc, List.singleton_append] at this
        rw [List.append_nil, this] at h
        cases h
      | cons d more =>
        rcases hlineEnd with rfl | rfl
        · obtain ⟨rfl, -⟩ := List.cons.inj hshape
          simp at hline
        · obtain ⟨rfl, -⟩ := List.cons.inj hshape
          simp at hreturn

/-- A heredoc that is all of a text is so with other line breaks. -/
theorem bodySize?_crlf {marker t : Text} (h : bodySize? marker t = some t.length) :
    bodySize? marker (Text.crlf t) = some (Text.crlf t).length := by
  induction hlen : t.length using Nat.strongRecOn generalizing t with
  | ind k ih =>
    subst hlen
    rcases cases_of_bodySize? h with ⟨-, hsize⟩ | ⟨line, below, m, hline, hopen, rfl, hm, hsize⟩
    · have hwhole : t.takeWhile (· ≠ '\n') = t := by
        refine (List.takeWhile_prefix _).eq_of_length_le ?_
        rw [hsize]
        exact Text.length_dropEndWhile_le _ _
      have hline : '\n' ∉ t := fun hmem => by
        simpa using List.takeWhile_eq_self_iff.mp hwhole _ hmem
      rw [Text.crlf_eq_self hline]
      exact h
    · rw [List.length_append, List.length_cons] at hsize
      obtain rfl : m = below.length := by omega
      have hreturn : Text.strip (line ++ ['\r']) = Text.strip line :=
        Text.strip_append_blank (by simp [Text.isBlank_return])
      have hshape : Text.crlf (line ++ '\n' :: below) =
          (line ++ ['\r']) ++ '\n' :: Text.crlf below := by
        rw [Text.crlf_append, Text.crlf_eq_self hline, Text.crlf_lineFeed, List.append_assoc]
        rfl
      rw [hshape, bodySize?_of_line (by simpa using hline) (by rw [hreturn]; exact hopen),
        ih below.length (by simp; omega) hm rfl, Option.map_some, Option.some_inj]
      simp only [List.length_append, List.length_cons]
      omega

/-- A heredoc that ends at a cut is one with other line breaks. -/
theorem exists_crlf {w x : Text} {header : Header} {n : Nat}
    (hheader : header? (w ++ x) = some header)
    (hbody : bodySize? header.marker ((w ++ x).drop header.size) = some n)
    (hlen : w.length = header.size + n) (hw : '\r' ∉ w) (hx : '\r' ∉ x) :
    ∃ header' n', header? (Text.crlf w ++ Text.crlf x) = some header' ∧
      bodySize? header'.marker ((Text.crlf w ++ Text.crlf x).drop header'.size) = some n' ∧
      (Text.crlf w).length = header'.size + n' := by
  obtain ⟨front, below, hspells, rfl, hsize⟩ :=
    spells_of_header? (header?_front hheader (by omega))
  rw [List.mem_append, not_or] at hw
  rw [List.length_append] at hlen
  obtain rfl : n = below.length := by omega
  rw [hsize, List.append_assoc, List.drop_left] at hbody
  have hclosed := bodySize?_crlf (bodySize?_front hbody (Nat.le_refl _))
  have hreturns : ∀ d ∈ (Text.crlf x).takeWhile (· ≠ '\n'), d = '\r' := by
    have hold := returns_of_bodySize? hbody
    cases x with
    | nil => simp
    | cons d x =>
      by_cases hd : d = '\n'
      · simp [hd]
      · obtain rfl : d = '\r' := hold d (by simp [hd])
        exact absurd List.mem_cons_self hx
  refine ⟨⟨header.marker, (Text.crlf front).length⟩, (Text.crlf below).length, ?_, ?_, ?_⟩
  · rw [Text.crlf_append, List.append_assoc]
    exact header?_of_spells (spells_crlf hspells hw.1) _
  · rw [Text.crlf_append, List.append_assoc, List.drop_left]
    exact bodySize?_append_returns hclosed hreturns
  · rw [Text.crlf_append, List.length_append]

end Heredoc

/-! ## Lexemes -/

namespace Lexeme

variable {c : Char} {cs w x : Text} {l : Lexeme} {kind : TokenKind}

/-- Only line ends, comments, heredocs and strings have line feeds. -/
theorem lineFeed_not_mem_text (h : read c cs = .ok l) (hnewline : l.kind ≠ .newline)
    (hcomment : l.kind ≠ .comment) (hheredoc : l.kind ≠ .heredoc) (hstring : l.kind ≠ .string) :
    '\n' ∉ l.text c cs := by
  intro hmem
  have hblank := isBlank_of_mem h hnewline hcomment hheredoc hstring _ hmem
  rw [Text.isBlank_lineFeed] at hblank
  cases hblank

theorem lineFeed_not_mem_of_read (h : read c (w ++ x) = .ok ⟨kind, w.length⟩)
    (hnewline : kind ≠ .newline) (hcomment : kind ≠ .comment) (hheredoc : kind ≠ .heredoc)
    (hstring : kind ≠ .string) : '\n' ∉ w := by
  have hfree := lineFeed_not_mem_text h hnewline hcomment hheredoc hstring
  rw [text, List.take_left' rfl] at hfree
  exact fun hmem => hfree (List.mem_cons_of_mem c hmem)

/-! ### Scans that stop at a line break -/

theorem startsBlockComment_crlf (c : Char) (t : Text) :
    startsBlockComment c (Text.crlf t) = startsBlockComment c t := by
  rw [startsBlockComment, startsBlockComment, (Text.agreeUpTo_crlf t).isPrefixOf_eq (by simp)]

theorem startsLineComment_crlf (c : Char) (t : Text) :
    startsLineComment c (Text.crlf t) = startsLineComment c t := by
  rw [startsLineComment, startsLineComment, (Text.agreeUpTo_crlf t).isPrefixOf_eq (by simp)]

theorem agreeUpTo_breaks_crlf (t : Text) : Text.AgreeUpTo breaks t (Text.crlf t) :=
  (Text.agreeUpTo_crlf t).mono (by simp [breaks])

theorem numberRest_crlf (t : Text) : numberRest (Text.crlf t) = numberRest t :=
  ((agreeUpTo_breaks_crlf t).scan_eq fun _ _ => numberRest_append).symm

theorem fixed?_crlf (c : Char) (t : Text) : fixed? c (Text.crlf t) = fixed? c t :=
  ((agreeUpTo_breaks_crlf t).scan_eq fun _ _ => fixed?_append).symm

theorem insideLine_crlf (t : Text) :
    (Text.crlf t).takeWhile insideLine = t.takeWhile insideLine :=
  ((Text.agreeUpTo_crlf t).takeWhile_eq (by simp [insideLine])).symm

theorem continuesName_crlf (t : Text) :
    (Text.crlf t).takeWhile Heredoc.continuesName = t.takeWhile Heredoc.continuesName :=
  ((agreeUpTo_breaks_crlf t).takeWhile_eq (forall_mem_breaks.mpr (by decide))).symm

/-! ### Reading -/

/-- A lexeme that ends at a cut is read with other line breaks, if it is no line end. -/
theorem read_crlf (h : read c (w ++ x) = .ok ⟨kind, w.length⟩) (hfeed : c ≠ '\n')
    (hreturn : '\r' ∉ c :: (w ++ x)) (hescape : kind = .string → ¬ ['\\', '\n'] <:+: w) :
    read c (Text.crlf w ++ Text.crlf x) = .ok ⟨kind, (Text.crlf w).length⟩ := by
  rw [List.mem_cons, List.mem_append, not_or, not_or] at hreturn
  obtain ⟨hc, hw, hx⟩ := hreturn
  refine read_eq_ok_iff.mpr ?_
  have hreads := read_eq_ok_iff.mp h
  generalize hl : Lexeme.mk kind w.length = l at hreads
  obtain ⟨rfl, hlen⟩ : kind = l.kind ∧ w.length = l.more := by
    rw [← hl]
    exact ⟨rfl, rfl⟩
  cases hreads with
  | string hc hsize =>
    obtain rfl := hlen
    refine .string hc (size_append ?_ _)
    exact Quoted.extent_crlf (size_front hsize (Nat.le_refl _)) hw (hescape rfl) (by simp)
  | blockComment hstarts hsize =>
    obtain ⟨said, rfl, rfl, hsaid⟩ := exists_said_of_block hstarts hsize hlen
    exact reads_block (commentSize?_crlf hsaid) _
  | @heredoc header n hc' hheader hbody =>
    obtain ⟨header', n', hheader', hbody', hlen'⟩ := Heredoc.exists_crlf hheader hbody hlen hw hx
    rw [hlen']
    exact .heredoc hc' hheader' hbody'
  | lineFeed hc' => exact absurd hc' hfeed
  | returnFeed hc' => exact absurd hc'.symm hc
  | lineComment hstarts =>
    have hinside := (Text.takeWhile_whole hlen).1
    have hline : '\n' ∉ w := fun hmem => absurd (hinside _ hmem) (by decide)
    rw [← Text.crlf_append, Text.crlf_eq_self hline, hlen, ← insideLine_crlf]
    exact .lineComment (by rwa [startsLineComment_crlf])
  | number hdecimal =>
    have hline : '\n' ∉ w :=
      lineFeed_not_mem_of_read h (by simp) (by simp) (by simp) (by simp)
    rw [← Text.crlf_append, Text.crlf_eq_self hline, hlen, ← numberRest_crlf]
    exact .number hdecimal
  | ident hword hdecimal =>
    have hline : '\n' ∉ w :=
      lineFeed_not_mem_of_read h (by simp) (by simp) (by simp) (by simp)
    rw [← Text.crlf_append, Text.crlf_eq_self hline, hlen, ← continuesName_crlf]
    exact .ident hword hdecimal
  | fixed hblock hline hheader hfixed =>
    have hfree : '\n' ∉ w :=
      lineFeed_not_mem_of_read h (kind_ne_of_fixed? hfixed (by decide))
        (kind_ne_of_fixed? hfixed (by decide)) (kind_ne_of_fixed? hfixed (by decide))
        (kind_ne_of_fixed? hfixed (by decide))
    have hnone : '\r' ∉ w ++ x := by
      rw [List.mem_append, not_or]
      exact ⟨hw, hx⟩
    rw [← Text.crlf_append, Text.crlf_eq_self hfree, hlen]
    exact .fixed (by rwa [startsBlockComment_crlf]) (by rwa [startsLineComment_crlf])
      (fun hless => Heredoc.header?_crlf_of_none (hheader hless) hnone) (by rwa [fixed?_crlf])

/-- A lexeme that ends at a cut is read with other line breaks. -/
theorem exists_read_crlf (h : read c (w ++ x) = .ok ⟨kind, w.length⟩)
    (hc : Token.isLeading c = false) (hreturn : '\r' ∉ c :: (w ++ x))
    (hescape : kind = .string → ¬ ['\\', '\n'] <:+: c :: w) :
    ∃ d v, Text.crlf (c :: w) = d :: v ∧ Token.isLeading d = false ∧
      read d (v ++ Text.crlf x) = .ok ⟨kind, v.length⟩ := by
  by_cases hfeed : c = '\n'
  · subst hfeed
    have hfound : read '\n' (w ++ x) = .ok ⟨.newline, 0⟩ := rfl
    obtain ⟨rfl, hlen⟩ : TokenKind.newline = kind ∧ 0 = w.length := by
      simpa using hfound.symm.trans h
    obtain rfl := List.length_eq_zero_iff.mp hlen.symm
    exact ⟨'\r', ['\n'], rfl, by decide, rfl⟩
  · refine ⟨c, Text.crlf w, Text.crlf_cons hfeed w, hc, read_crlf h hfeed hreturn ?_⟩
    intro hkind hin
    exact hescape hkind (hin.trans (List.suffix_cons c w).isInfix)

theorem lineFeed_not_mem_ident (h : read c cs = .ok l) (hkind : l.kind = .ident) :
    '\n' ∉ l.text c cs :=
  lineFeed_not_mem_text h (by simp [hkind]) (by simp [hkind]) (by simp [hkind]) (by simp [hkind])

/-- A string over several lines opens a template. -/
theorem exists_template_of_read (h : read c cs = .ok l) (hkind : l.kind = .string)
    (hescape : ¬ ['\\', '\n'] <:+: l.text c cs) (hmem : '\n' ∈ l.text c cs) :
    ∃ before d after, (d = '$' ∨ d = '%') ∧ after ≠ [] ∧
      l.text c cs = c :: (before ++ d :: '{' :: after) := by
  obtain ⟨rfl, hsize⟩ := size_of_string h hkind
  have hlen : (cs.take l.more).length = l.more := by
    rw [List.length_take, Nat.min_eq_left (more_le h)]
  have hwhole : Quoted.extent 0 .quote [] (cs.take l.more) = .ok (cs.take l.more).length := by
    have hown := Quoted.extent_take hsize []
    rw [List.append_nil] at hown
    rw [hlen]
    exact hown
  rw [text] at hescape hmem
  have hescape' : ¬ ['\\', '\n'] <:+: cs.take l.more := fun hin =>
    hescape (hin.trans (List.suffix_cons _ _).isInfix)
  have hmem' : '\n' ∈ cs.take l.more := (List.mem_cons.mp hmem).resolve_left (by decide)
  obtain ⟨before, d, after, hd, hafter, heq⟩ :=
    Quoted.exists_template_of_lineFeed hwhole hescape' (by simp) hmem'
  exact ⟨before, d, after, hd, hafter, by rw [text, heq]⟩

end Lexeme

/-! ## Tokens -/

namespace Token

/-- The token with a carriage return before every line feed of its text. -/
def crlf (t : Token) : Token :=
  { t with text := Text.crlf t.text }

theorem forall₂_crlf_iff {p : Token → Prop} {ts us : List Token} :
    List.Forall₂ (fun t u => p t ∧ t.crlf = u) ts us ↔ (∀ t ∈ ts, p t) ∧ ts.map crlf = us := by
  rw [List.forall₂_and_left, ← List.forall₂_map_left_iff, List.forall₂_eq_eq_eq]

theorem sourceOf_crlf {ts : List Token} (h : ∀ t ∈ ts, '\n' ∉ t.leading) :
    sourceOf (ts.map crlf) = Text.crlf (sourceOf ts) := by
  induction ts with
  | nil => rfl
  | cons t ts ih =>
    rw [List.map_cons, sourceOf_cons, sourceOf_cons, Text.crlf_append, Text.crlf_append,
      Text.crlf_eq_self (h t List.mem_cons_self), ih fun u hu => h u (List.mem_cons_of_mem t hu)]
    rfl

theorem relined_crlf (line : Int) (ts : List Token) :
    relined line (ts.map crlf) = (relined line ts).map crlf := by
  induction ts generalizing line with
  | nil => rfl
  | cons t ts ih =>
    rw [List.map_cons, relined, relined, List.map_cons, ih, crlf, Text.newlines_crlf]
    rfl

/-- A token stands as well where it and the text behind it have other line breaks. -/
theorem Stands.crlf {u : Token} {rest : Text} (h : u.Stands rest) (hreturn : '\r' ∉ u.text)
    (hbehind : '\r' ∉ rest) (hescape : u.kind = .string → ¬ ['\\', '\n'] <:+: u.text) :
    u.crlf.Stands (Text.crlf rest) := by
  refine ⟨h.leading, ?_⟩
  rcases h.read with ⟨htext, hkind, hne, rfl⟩ | ⟨c, w, htext, hc, hread⟩
  · exact Or.inl ⟨by rw [Token.crlf, htext]; rfl, hkind, hne, rfl⟩
  · rw [htext] at hreturn hescape
    have hnone : '\r' ∉ c :: (w ++ rest) := by
      rw [← List.cons_append, List.mem_append, not_or]
      exact ⟨hreturn, hbehind⟩
    obtain ⟨d, v, hcrlf, hd, hnew⟩ := Lexeme.exists_read_crlf hread hc hnone hescape
    exact Or.inr ⟨d, v, (congrArg Text.crlf htext).trans hcrlf, hd, hnew⟩

/-- A text without carriage returns is cut into the same tokens on the same lines if it gets one
    before every line feed. -/
theorem Cuts.crlf {line : Int} {t : Text} {ts : List Token} (h : Cuts line t ts)
    (hreturn : '\r' ∉ t)
    (hescape : ∀ u ∈ ts, u.kind = .string → ¬ ['\\', '\n'] <:+: u.text) :
    Cuts line (Text.crlf t) (ts.map Token.crlf) := by
  have hfeed : ∀ u ∈ ts, '\n' ∉ u.leading := fun u hu hmem =>
    absurd ((h.mem hu).1 _ hmem) (by decide)
  have hfree : ∀ us ⊆ ts, '\r' ∉ sourceOf us := fun us hus hmem => by
    obtain ⟨u, hu, hmem⟩ := List.mem_flatMap.mp hmem
    exact hreturn (h.sourceOf_eq ▸ List.mem_flatMap.mpr ⟨u, hus hu, hmem⟩)
  have hvs : List.Forall₂ (fun u v => u ∈ ts ∧ u.crlf = v) ts (ts.map Token.crlf) :=
    forall₂_crlf_iff.mpr ⟨fun _ hu => hu, rfl⟩
  have hcuts := h.replace hvs (fun {u v us ws} huv hws hstands => ?_) line
  · rwa [sourceOf_crlf hfeed, h.sourceOf_eq, relined_crlf, h.relined_eq] at hcuts
  · obtain ⟨hu, rfl⟩ := huv
    obtain ⟨hus, rfl⟩ := forall₂_crlf_iff.mp hws
    have hown : '\r' ∉ u.text := fun hmem =>
      hfree [u] (by simpa using hu) (by simp [sourceOf, source, hmem])
    rw [sourceOf_crlf fun w hw => hfeed w (hus w hw)]
    exact hstands.crlf hown (hfree us hus) (hescape u hu)

end Token

end HclQuery
