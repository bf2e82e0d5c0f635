/-
  Heredocs: what a header is, and how far the search for the closing line looks.
-/
import HclQuery.Proofs.Text.Lines
import HclQuery.Proofs.Text.Strip
import HclQuery.Token.Heredoc

namespace HclQuery.Heredoc

/-! ## Heredoc headers -/

/-- A line feed, with a carriage return before it or without. -/
def IsLineEnd (t : Text) : Prop :=
  t = ['\n'] ∨ t = ['\r', '\n']

namespace IsLineEnd

variable {lineEnd : Text}

theorem length_ne_zero (h : IsLineEnd lineEnd) : lineEnd.length ≠ 0 := by
  rcases h with rfl | rfl <;> simp

theorem ne_nil (h : IsLineEnd lineEnd) : lineEnd ≠ [] :=
  List.ne_nil_of_length_pos (Nat.pos_of_ne_zero h.length_ne_zero)

theorem lineEndSize_append (h : IsLineEnd lineEnd) (below : Text) :
    lineEndSize (lineEnd ++ below) = lineEnd.length := by
  rcases h with rfl | rfl <;> rfl

/-- A name stops at a line end. -/
theorem takeWhile_append (h : IsLineEnd lineEnd) {name : Text} (below : Text)
    (hname : ∀ c ∈ name, continuesName c = true) :
    (name ++ (lineEnd ++ below)).takeWhile continuesName = name := by
  have hstop : (lineEnd ++ below).takeWhile continuesName = [] := by
    rcases h with rfl | rfl
    · have hc : continuesName '\n' = false := by decide
      simp [hc]
    · have hc : continuesName '\r' = false := by decide
      simp [hc]
  rw [List.takeWhile_append_of_pos hname, hstop, List.append_nil]

end IsLineEnd

theorem exists_lineEnd {t : Text} (h : lineEndSize t ≠ 0) :
    ∃ lineEnd below, IsLineEnd lineEnd ∧ t = lineEnd ++ below ∧
      lineEndSize t = lineEnd.length := by
  unfold lineEndSize at h ⊢
  split at h
  · rename_i below
    exact ⟨['\n'], below, Or.inl rfl, rfl, rfl⟩
  · rename_i below
    exact ⟨['\r', '\n'], below, Or.inr rfl, rfl, rfl⟩
  · exact absurd rfl h

/-- The text starts like a marker and goes on like a name. -/
def IsMarker (marker : Text) : Prop :=
  ∃ c more, marker = c :: more ∧ startsMarker c = true ∧ ∀ d ∈ more, continuesName d = true

theorem IsMarker.ne_nil {marker : Text} (h : IsMarker marker) : marker ≠ [] := by
  obtain ⟨c, more, rfl, -⟩ := h
  exact List.cons_ne_nil c more

theorem IsMarker.not_mem {marker : Text} {c : Char} (h : IsMarker marker)
    (hstarts : startsMarker c = false) (hcontinues : continuesName c = false) : c ∉ marker := by
  obtain ⟨d, more, rfl, hstart, hmore⟩ := h
  intro hmem
  rcases List.mem_cons.mp hmem with rfl | hmem
  · rw [hstarts] at hstart
    cases hstart
  · rw [hmore c hmem] at hcontinues
    cases hcontinues

theorem IsMarker.lineFeed_not_mem {marker : Text} (h : IsMarker marker) : '\n' ∉ marker :=
  h.not_mem (by decide) (by decide)

/-- `front` is all of a header but its first `<`: another one, a dash or none, the marker, and a
    line end. -/
def Spells (marker front : Text) : Prop :=
  ∃ dash lineEnd, (dash = [] ∨ dash = ['-']) ∧ IsMarker marker ∧ IsLineEnd lineEnd ∧
    front = '<' :: (dash ++ (marker ++ lineEnd))

/-- A header is on one line. -/
theorem Spells.eq_concat {marker front : Text} (h : Spells marker front) :
    ∃ line, front = line ++ ['\n'] ∧ '\n' ∉ line := by
  obtain ⟨dash, lineEnd, hdash, hmarker, hlineEnd, rfl⟩ := h
  have hfree : '\n' ∉ '<' :: (dash ++ marker) := by
    have := hmarker.lineFeed_not_mem
    rcases hdash with rfl | rfl <;> simpa
  rcases hlineEnd with rfl | rfl
  · exact ⟨'<' :: (dash ++ marker), by simp, hfree⟩
  · refine ⟨'<' :: (dash ++ marker) ++ ['\r'], by simp, ?_⟩
    rw [List.mem_append, not_or]
    exact ⟨hfree, by decide⟩

/-- No blank is in a header, and no comment starts in it. -/
theorem Spells.not_mem {marker front : Text} {c : Char} (h : Spells marker front)
    (hc : c ∈ [' ', '\t', '#', '/']) : c ∉ front := by
  obtain ⟨dash, lineEnd, hdash, hmarker, hlineEnd, rfl⟩ := h
  have hcases : c = ' ' ∨ c = '\t' ∨ c = '#' ∨ c = '/' := by simpa using hc
  have hname : startsMarker c = false ∧ continuesName c = false := by
    rcases hcases with rfl | rfl | rfl | rfl <;> decide
  have hdashes : c ∉ ['<', '-', '\r', '\n'] := by
    rcases hcases with rfl | rfl | rfl | rfl <;> decide
  have hfree : c ∉ marker := hmarker.not_mem hname.1 hname.2
  have hbefore : '<' :: dash ⊆ ['<', '-', '\r', '\n'] := by
    rcases hdash with rfl | rfl <;> simp
  have hbehind : lineEnd ⊆ ['<', '-', '\r', '\n'] := by
    rcases hlineEnd with rfl | rfl <;> simp
  intro hmem
  rw [← List.cons_append, List.mem_append, List.mem_append] at hmem
  rcases hmem with hmem | hmem | hmem
  · exact hdashes (hbefore hmem)
  · exact hfree hmem
  · exact hdashes (hbehind hmem)

theorem spells_of_header? {t : Text} {header : Header} (h : header? t = some header) :
    ∃ front below, Spells header.marker front ∧ t = front ++ below ∧
      header.size = front.length := by
  unfold header? at h
  split at h
  · rename_i afterOpening
    have hdash : ∃ dash, (dash = [] ∨ dash = ['-']) ∧
        dash.length = (if ['-'].isPrefixOf afterOpening then 1 else 0) ∧
        afterOpening = dash ++ afterOpening.drop dash.length := by
      split
      · rename_i hpre
        obtain ⟨rest, rfl⟩ := List.isPrefixOf_iff_prefix.mp hpre
        exact ⟨['-'], Or.inr rfl, rfl, rfl⟩
      · exact ⟨[], Or.inl rfl, rfl, rfl⟩
    obtain ⟨dash, hdash, hlen, hafter⟩ := hdash
    dsimp only at h
    rw [← hlen] at h
    split at h
    · cases h
    · rename_i c cs hcs
      split at h
      · rename_i hcond
        rw [Bool.and_eq_true, decide_eq_true_eq] at hcond
        obtain ⟨lineEnd, below, hlineEnd, hbelow, hsize⟩ := exists_lineEnd hcond.2
        have hcs' : cs = cs.takeWhile continuesName ++ (lineEnd ++ below) := by
          rw [← hbelow, List.prefix_iff_eq_append.mp (List.takeWhile_prefix continuesName)]
        have hmore := List.all_eq_true.mp (List.all_takeWhile (p := continuesName) (l := cs))
        cases h
        refine ⟨_, below, ⟨dash, lineEnd, hdash, ⟨c, _, rfl, hcond.1, hmore⟩, hlineEnd, rfl⟩, ?_,
          ?_⟩
        · rw [hafter, hcs]
          conv => lhs; rw [hcs']
          simp
        · simp only [hsize, List.length_cons, List.length_append]
          omega
      · cases h
  · cases h

theorem header?_of_spells {marker front : Text} (h : Spells marker front) (below : Text) :
    header? (front ++ below) = some ⟨marker, front.length⟩ := by
  obtain ⟨dash, lineEnd, hdash, ⟨c, more, rfl, hstart, hmore⟩, hlineEnd, rfl⟩ := h
  have hdrop : ∀ ds, dash.length = (if ['-'].isPrefixOf (dash ++ c :: ds) then 1 else 0) := by
    intro ds
    rcases hdash with rfl | rfl
    · have hc : ('-' == c) = false := by
        refine beq_false_of_ne fun hc => ?_
        rw [← hc] at hstart
        exact absurd hstart (by decide)
      simp [List.isPrefixOf, hc]
    · simp [List.isPrefixOf]
  have hshape : '<' :: (dash ++ (c :: more ++ lineEnd)) ++ below =
      '<' :: (dash ++ c :: (more ++ (lineEnd ++ below))) := by
    simp
  rw [hshape]
  simp only [header?]
  rw [← hdrop, List.drop_left]
  simp only [hlineEnd.takeWhile_append below hmore, List.drop_left, hlineEnd.lineEndSize_append,
    hstart]
  simp [hlineEnd.length_ne_zero]
  omega

theorem marker_ne_nil_of_header? {t : Text} {header : Header} (h : header? t = some header) :
    header.marker ≠ [] := by
  obtain ⟨front, below, ⟨_, _, -, hmarker, -⟩, -⟩ := spells_of_header? h
  exact hmarker.ne_nil

/-- A header that lies in front of a cut is found in the front alone. -/
theorem header?_front {w x : Text} {header : Header} (h : header? (w ++ x) = some header)
    (hle : header.size ≤ w.length) : header? w = some header := by
  obtain ⟨front, below, hspells, hshape, hsize⟩ := spells_of_header? h
  have hfront : front <+: w :=
    List.prefix_of_prefix_length_le ⟨below, hshape.symm⟩ (List.prefix_append w x)
      (by rw [← hsize]; exact hle)
  obtain ⟨more, rfl⟩ := hfront
  rw [header?_of_spells hspells, ← hsize]

theorem header?_append {w : Text} {header : Header} (h : header? w = some header) (y : Text) :
    header? (w ++ y) = some header := by
  obtain ⟨front, below, hspells, rfl, hsize⟩ := spells_of_header? h
  rw [List.append_assoc, header?_of_spells hspells, ← hsize]

theorem size_le_of_header? {t : Text} {header : Header} (h : header? t = some header) :
    header.size ≤ t.length := by
  obtain ⟨front, below, -, rfl, hsize⟩ := spells_of_header? h
  rw [hsize, List.length_append]
  exact Nat.le_add_right _ _

/-- With a line end behind it the text would be a header, to its end. -/
def opens (w : Text) : Bool :=
  (header? (w ++ ['\n'])).any (·.size = w.length + 1)

theorem opens_of_lineFeed_mem {w : Text} (h : '\n' ∈ w) : opens w = false := by
  unfold opens
  cases hheader : header? (w ++ ['\n']) with
  | none => rfl
  | some header =>
    obtain ⟨front, below, hspells, hshape, hsize⟩ := spells_of_header? hheader
    obtain ⟨line, rfl, hfree⟩ := hspells.eq_concat
    rw [Option.any_some, decide_eq_false_iff_not, hsize]
    intro hlen
    have hline : line <+: w := by
      have hwhole : line <+: w ++ ['\n'] :=
        ⟨'\n' :: below, by rw [hshape, List.append_assoc]; rfl⟩
      refine List.prefix_of_prefix_length_le hwhole (List.prefix_append w _) ?_
      rw [List.length_append, List.length_singleton] at hlen
      omega
    have heq : line = w := hline.eq_of_length (by simpa using hlen)
    rw [heq] at hfree
    exact hfree h

/-- No header comes to be at a line boundary, but for that which lacked its line end only. -/
theorem header?_append_of_none {w y : Text} (h : header? w = none) (hb : Text.LineEnds w y)
    (hopens : opens w = false) : header? (w ++ y) = none := by
  cases hy : header? (w ++ y) with
  | none => rfl
  | some header =>
    obtain ⟨front, below, hspells, hshape, hsize⟩ := spells_of_header? hy
    obtain ⟨line, rfl, hfree⟩ := hspells.eq_concat
    have hfront : line ++ ['\n'] <+: w ++ y := ⟨below, hshape.symm⟩
    have hline : line <+: w :=
      hb.prefix_left hfree ((List.prefix_append line ['\n']).trans hfront)
    obtain ⟨more, rfl⟩ := hline
    cases more with
    | nil =>
      rw [List.append_nil, opens, ← List.append_nil (line ++ ['\n']),
        header?_of_spells hspells] at hopens
      simp at hopens
    | cons d more =>
      obtain ⟨rfl, -⟩ : '\n' = d ∧ _ := by
        rw [List.append_assoc, List.prefix_append_right_inj] at hfront
        exact List.cons_prefix_cons.mp hfront
      have := header?_of_spells hspells more
      rw [List.append_assoc, List.singleton_append, h] at this
      cases this

/-! ## Heredoc bodies -/

variable {marker : Text}

/-- The closing line ends the heredoc. -/
theorem bodySize?_of_closing {body : Text}
    (h : Text.strip (body.takeWhile (· ≠ '\n')) = marker) :
    bodySize? marker body =
      some (Text.dropEndWhile (· = '\r') (body.takeWhile (· ≠ '\n'))).length := by
  rw [bodySize?]
  simp only [h, if_true]

/-- Any other line is part of it. -/
theorem bodySize?_of_line {line : Text} (hline : '\n' ∉ line) (h : Text.strip line ≠ marker)
    (below : Text) :
    bodySize? marker (line ++ '\n' :: below) =
      (bodySize? marker below).map (line.length + 1 + ·) := by
  rw [bodySize?, Text.takeWhile_line hline]
  simp only [h, if_false]
  split
  · rename_i hnil
    rw [Text.dropWhile_line hline] at hnil
    cases hnil
  · rename_i hcons
    rw [Text.dropWhile_line hline] at hcons
    cases hcons
    rfl

/-- A last line that does not close the heredoc leaves it open. -/
theorem bodySize?_of_last {line : Text} (hline : '\n' ∉ line) (h : Text.strip line ≠ marker) :
    bodySize? marker line = none := by
  rw [bodySize?, Text.takeWhile_lastLine hline]
  simp only [h, if_false]
  split
  · rfl
  · rename_i hcons
    rw [Text.dropWhile_lastLine hline] at hcons
    cases hcons

theorem bodySize?_nil (h : marker ≠ []) : bodySize? marker [] = none :=
  bodySize?_of_last (by simp) (by simpa using h.symm)

/-- The ways in which a heredoc can end: at the first line, or below it. -/
theorem cases_of_bodySize? {body : Text} {n : Nat} (h : bodySize? marker body = some n) :
    (Text.strip (body.takeWhile (· ≠ '\n')) = marker ∧
        n = (Text.dropEndWhile (· = '\r') (body.takeWhile (· ≠ '\n'))).length) ∨
      ∃ line below m, '\n' ∉ line ∧ Text.strip line ≠ marker ∧ body = line ++ '\n' :: below ∧
        bodySize? marker below = some m ∧ n = line.length + 1 + m := by
  by_cases hclose : Text.strip (body.takeWhile (· ≠ '\n')) = marker
  · rw [bodySize?_of_closing hclose] at h
    exact Or.inl ⟨hclose, (Option.some.inj h).symm⟩
  · right
    rcases Text.exists_line body with hline | ⟨line, below, hline, rfl⟩
    · rw [Text.takeWhile_lastLine hline] at hclose
      rw [bodySize?_of_last hline hclose] at h
      cases h
    · rw [Text.takeWhile_line hline] at hclose
      rw [bodySize?_of_line hline hclose] at h
      obtain ⟨m, hm, rfl⟩ := Option.map_eq_some_iff.mp h
      exact ⟨line, below, m, hline, hclose, rfl, hm, rfl⟩

theorem bodySize?_le {body : Text} {n : Nat} (h : bodySize? marker body = some n) :
    n ≤ body.length := by
  induction hlen : body.length using Nat.strongRecOn generalizing body n with
  | ind k ih =>
    subst hlen
    rcases cases_of_bodySize? h with ⟨-, rfl⟩ | ⟨line, below, m, -, -, rfl, hm, rfl⟩
    · exact Nat.le_trans (Text.length_dropEndWhile_le _ _) (List.takeWhile_prefix _).length_le
    · have := ih below.length (by simp; omega) hm rfl
      rw [List.length_append, List.length_cons]
      omega

/-- A heredoc does not end with a line feed: its closing line holds the marker. -/
theorem getLast?_take_bodySize? {body : Text} {n : Nat} (hmarker : marker ≠ [])
    (h : bodySize? marker body = some n) :
    ∃ d, (body.take n).getLast? = some d ∧ d ≠ '\n' := by
  induction hlen : body.length using Nat.strongRecOn generalizing body n with
  | ind k ih =>
    subst hlen
    rcases cases_of_bodySize? h with ⟨hclose, rfl⟩ | ⟨line, below, m, -, -, rfl, hm, rfl⟩
    · obtain ⟨returns, hline, hreturns⟩ :=
        Text.exists_dropEndWhile_append (· = '\r') (body.takeWhile (· ≠ '\n'))
      generalize Text.dropEndWhile (· = '\r') (body.takeWhile (· ≠ '\n')) = kept at hline ⊢
      have hne : kept ≠ [] := by
        intro hnil
        have hblank : ∀ c ∈ returns, Unicode.isBlank c = true := by
          intro c hc
          rw [of_decide_eq_true (hreturns c hc)]
          exact Text.isBlank_return
        have hstrip := Text.strip_blank_append (u := []) hblank
        rw [hnil, List.nil_append] at hline
        rw [hline, ← List.append_nil returns, hstrip] at hclose
        exact hmarker hclose.symm
      have hpre : kept <+: body :=
        (show kept <+: body.takeWhile (· ≠ '\n') from ⟨returns, hline.symm⟩).trans
          (List.takeWhile_prefix _)
      rw [← List.prefix_iff_eq_take.mp hpre]
      refine ⟨_, List.getLast?_eq_some_getLast hne, ?_⟩
      have hmem : kept.getLast hne ∈ body.takeWhile (· ≠ '\n') := by
        rw [hline]
        exact List.mem_append_left _ (List.getLast_mem hne)
      simpa using List.all_eq_true.mp List.all_takeWhile _ hmem
    · obtain ⟨d, hd, hne⟩ := ih below.length (by simp; omega) hm rfl
      have htake : (line ++ '\n' :: below).take (line.length + 1 + m) =
          line ++ '\n' :: below.take m := by
        rw [Nat.add_assoc, List.take_length_add_append, Nat.add_comm, List.take_succ_cons]
      refine ⟨d, ?_, hne⟩
      rw [htake, List.getLast?_append, List.getLast?_cons, hd]
      rfl

/-- A heredoc that lies in front of a cut is found in the front alone. Where the cut is in the
    closing line, only carriage returns are behind it. -/
theorem bodySize?_front {w x : Text} {n : Nat} (h : bodySize? marker (w ++ x) = some n)
    (hle : n ≤ w.length) : bodySize? marker w = some n := by
  induction hlen : w.length using Nat.strongRecOn generalizing w n with
  | ind k ih =>
    subst hlen
    rcases Text.exists_line w with hline | ⟨line, below, hline, rfl⟩
    · have htake : (w ++ x).takeWhile (· ≠ '\n') = w ++ x.takeWhile (· ≠ '\n') :=
        List.takeWhile_append_of_pos (Text.forall_ne_lineFeed hline)
      rcases cases_of_bodySize? h with ⟨hclose, rfl⟩ | ⟨line, below, m, hline', -, hw, -, rfl⟩
      · rw [htake] at hclose hle ⊢
        obtain ⟨hsame, hreturns⟩ := Text.dropEndWhile_front hle
        have hblank : ∀ c ∈ x.takeWhile (· ≠ '\n'), Unicode.isBlank c = true := by
          intro c hc
          rw [of_decide_eq_true (hreturns c hc)]
          exact Text.isBlank_return
        rw [Text.strip_append_blank hblank] at hclose
        rw [bodySize?_of_closing (by rwa [Text.takeWhile_lastLine hline]),
          Text.takeWhile_lastLine hline, hsame]
      · have : line = w ++ x.takeWhile (· ≠ '\n') := by
          rw [← htake, hw, Text.takeWhile_line hline']
        rw [this, List.length_append] at hle
        omega
    · rw [List.append_assoc, List.cons_append] at h
      by_cases hclose : Text.strip line = marker
      · rw [bodySize?_of_closing (by rwa [Text.takeWhile_line hline]),
          Text.takeWhile_line hline] at h ⊢
        exact h
      · rw [bodySize?_of_line hline hclose] at h ⊢
        obtain ⟨m, hm, rfl⟩ := Option.map_eq_some_iff.mp h
        rw [List.length_append, List.length_cons] at hle
        rw [ih below.length (by simp; omega) hm (by omega) rfl]
        rfl

/-- A heredoc is still the same if more follows at a line boundary. -/
theorem bodySize?_append {w y : Text} {n : Nat} (hmarker : marker ≠ [])
    (hb : Text.LineEnds w y) (h : bodySize? marker w = some n) :
    bodySize? marker (w ++ y) = some n := by
  induction hlen : w.length using Nat.strongRecOn generalizing w n with
  | ind k ih =>
    subst hlen
    have htake : (w ++ y).takeWhile (· ≠ '\n') = w.takeWhile (· ≠ '\n') :=
      Text.takeWhile_append (by simp) hb
    rcases cases_of_bodySize? h with ⟨hclose, rfl⟩ | ⟨line, below, m, hline, hopen, rfl, hm, rfl⟩
    · rw [bodySize?_of_closing (by rwa [htake]), htake]
    · have hbelow : below ≠ [] := by
        intro hnil
        rw [hnil, bodySize?_nil hmarker] at hm
        cases hm
      have hb' : Text.LineEnds below y := by
        rw [List.append_cons] at hb
        exact hb.suffix hbelow
      rw [List.append_assoc, List.cons_append, bodySize?_of_line hline hopen,
        ih below.length (by simp; omega) hb' hm rfl]
      rfl

/-- A heredoc that ends at a cut has only carriage returns behind it on its line. -/
theorem returns_of_bodySize? {w x : Text} (h : bodySize? marker (w ++ x) = some w.length) :
    ∀ c ∈ x.takeWhile (· ≠ '\n'), c = '\r' := by
  induction hlen : w.length using Nat.strongRecOn generalizing w with
  | ind k ih =>
    subst hlen
    rcases Text.exists_line w with hline | ⟨line, below, hline, rfl⟩
    · have htake : (w ++ x).takeWhile (· ≠ '\n') = w ++ x.takeWhile (· ≠ '\n') :=
        List.takeWhile_append_of_pos (Text.forall_ne_lineFeed hline)
      rcases cases_of_bodySize? h with ⟨-, hsize⟩ | ⟨line, below, m, hline', -, hw, -, hsize⟩
      · rw [htake] at hsize
        intro c hc
        exact of_decide_eq_true ((Text.dropEndWhile_front hsize.ge).2 c hc)
      · have : line = w ++ x.takeWhile (· ≠ '\n') := by
          rw [← htake, hw, Text.takeWhile_line hline']
        rw [this, List.length_append] at hsize
        omega
    · rw [List.append_assoc, List.cons_append] at h
      by_cases hclose : Text.strip line = marker
      · rw [bodySize?_of_closing (by rwa [Text.takeWhile_line hline]), Text.takeWhile_line hline,
          Option.some_inj, List.length_append, List.length_cons] at h
        have := Text.length_dropEndWhile_le (· = '\r') line
        omega
      · rw [bodySize?_of_line hline hclose] at h
        obtain ⟨m, hm, hsize⟩ := Option.map_eq_some_iff.mp h
        rw [List.length_append, List.length_cons] at hsize
        obtain rfl : m = below.length := by omega
        exact ih below.length (by simp; omega) hm rfl

/-- A heredoc that is all of a text is the same in front of carriage returns and a line end. -/
theorem bodySize?_append_returns {w y : Text} (h : bodySize? marker w = some w.length)
    (hy : ∀ c ∈ y.takeWhile (· ≠ '\n'), c = '\r') :
    bodySize? marker (w ++ y) = some w.length := by
  induction hlen : w.length using Nat.strongRecOn generalizing w with
  | ind k ih =>
    subst hlen
    rcases cases_of_bodySize? h with
      ⟨hclose, hsize⟩ | ⟨line, below, m, hline, hopen, rfl, hm, hsize⟩
    · have hwhole : w.takeWhile (· ≠ '\n') = w := by
        refine (List.takeWhile_prefix _).eq_of_length_le ?_
        rw [hsize]
        exact Text.length_dropEndWhile_le _ _
      have htake : (w ++ y).takeWhile (· ≠ '\n') = w ++ y.takeWhile (· ≠ '\n') :=
        List.takeWhile_append_of_pos (List.takeWhile_eq_self_iff.mp hwhole)
      have hblank : ∀ c ∈ y.takeWhile (· ≠ '\n'), Unicode.isBlank c = true := by
        intro c hc
        rw [hy c hc]
        exact Text.isBlank_return
      rw [hwhole] at hclose hsize
      rw [bodySize?_of_closing (by rw [htake, Text.strip_append_blank hblank, hclose]), htake,
        Text.dropEndWhile_append_of_all fun c hc => decide_eq_true (hy c hc), ← hsize]
    · rw [List.length_append, List.length_cons] at hsize
      obtain rfl : m = below.length := by omega
      rw [List.append_assoc, List.cons_append, bodySize?_of_line hline hopen,
        ih below.length (by simp; omega) hm rfl, Option.map_some, Option.some_inj,
        List.length_append, List.length_cons]
      omega

end HclQuery.Heredoc
