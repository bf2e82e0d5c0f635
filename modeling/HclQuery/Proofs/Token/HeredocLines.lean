/-
  The lines of a heredoc.

  `Heredoc.IsHeredoc` says what the text of a heredoc is: a header, lines that are not the marker,
  and the first line that is, as far as the carriage returns at its end. A search for the closing
  line finds that and nothing else (`Heredoc.exists_isBody`), and fails where no line is the marker
  (`Heredoc.bodySize?_eq_none_iff`). So every heredoc that is cut off a source has that form, every
  header begins one or is a fault, and two `<` that begin no header are operators: `Token.heredocs`.
-/
import HclQuery.Proofs.Token.Progress
import HclQuery.Proofs.Token.Spacing

namespace HclQuery

namespace Heredoc

variable {marker : Text}

/-! ## Headers -/

/-- No header is found where no text spells one. -/
theorem header?_eq_none_iff {t : Text} :
    header? t = none ↔ ∀ marker front, Spells marker front → ¬ front <+: t := by
  constructor
  · rintro h marker front hspells ⟨below, rfl⟩
    rw [header?_of_spells hspells] at h
    cases h
  · intro h
    cases hheader : header? t with
    | none => rfl
    | some header =>
      obtain ⟨front, below, hspells, rfl, -⟩ := spells_of_header? hheader
      exact absurd (List.prefix_append front below) (h _ _ hspells)

/-! ## Bodies -/

/-- What is below the header of a heredoc: `lines` that are not the marker, and the `closing` line
    that is, which stands in front of `rest` without the carriage returns at its end. -/
structure IsBody (marker : Text) (lines : List Text) (closing rest : Text) : Prop where
  lines_free : ∀ line ∈ lines, '\n' ∉ line
  closing_free : '\n' ∉ closing
  opens : ∀ line ∈ lines, Text.strip line ≠ marker
  closes : Text.strip closing = marker
  trimmed : closing.getLast? ≠ some '\r'
  lineEnds : ∀ c ∈ rest.takeWhile (· ≠ '\n'), c = '\r'

/-- The lines, each with a line feed behind it, and the closing one without. -/
def bodyText (lines : List Text) (closing : Text) : Text :=
  lines.flatMap (· ++ ['\n']) ++ closing

@[simp] theorem bodyText_nil (closing : Text) : bodyText [] closing = closing := rfl

theorem bodyText_cons (line : Text) (lines : List Text) (closing : Text) :
    bodyText (line :: lines) closing = line ++ '\n' :: bodyText lines closing := by
  simp [bodyText]

theorem IsBody.cons {lines : List Text} {line closing rest : Text}
    (h : IsBody marker lines closing rest) (hline : '\n' ∉ line)
    (hopen : Text.strip line ≠ marker) : IsBody marker (line :: lines) closing rest :=
  { h with
    lines_free := List.forall_mem_cons.mpr ⟨hline, h.lines_free⟩
    opens := List.forall_mem_cons.mpr ⟨hopen, h.opens⟩ }

/-- A line that is the marker closes the heredoc, as far as the carriage returns at its end. -/
theorem isBody_of_closing {body : Text} (h : Text.strip (body.takeWhile (· ≠ '\n')) = marker) :
    ∃ closing rest, IsBody marker [] closing rest ∧ body = closing ++ rest ∧
      closing = Text.dropEndWhile (· = '\r') (body.takeWhile (· ≠ '\n')) := by
  obtain ⟨returns, hline, hreturns⟩ :=
    Text.exists_dropEndWhile_append (· = '\r') (body.takeWhile (· ≠ '\n'))
  have hlast : ∀ c, (Text.dropEndWhile (· = '\r') (body.takeWhile (· ≠ '\n'))).getLast? = some c →
      c ≠ '\r' := fun c hc => by simpa using Text.getLast?_dropEndWhile hc
  generalize Text.dropEndWhile (· = '\r') (body.takeWhile (· ≠ '\n')) = closing at hline hlast ⊢
  have hbody : body = closing ++ (returns ++ body.dropWhile (· ≠ '\n')) := by
    rw [← List.append_assoc, ← hline, List.takeWhile_append_dropWhile]
  have hfree : '\n' ∉ closing ++ returns := by
    rw [← hline]
    intro hmem
    simpa using List.all_eq_true.mp List.all_takeWhile _ hmem
  have hreturn : ∀ c ∈ returns, c = '\r' := fun c hc => of_decide_eq_true (hreturns c hc)
  have hblank : ∀ c ∈ returns, Unicode.isBlank c = true := by
    intro c hc
    rw [hreturn c hc]
    exact Text.isBlank_return
  refine ⟨closing, returns ++ body.dropWhile (· ≠ '\n'), ?_, hbody, rfl⟩
  exact {
    lines_free := by simp
    closing_free := fun hmem => hfree (List.mem_append_left _ hmem)
    opens := by simp
    closes := by rw [← Text.strip_append_blank hblank, ← hline, h]
    trimmed := fun hlast' => hlast _ hlast' rfl
    lineEnds := by
      have hstop := List.head?_dropWhile_not (· ≠ '\n') body
      have hfeed : (body.dropWhile (· ≠ '\n')).takeWhile (· ≠ '\n') = [] := by
        cases hdrop : body.dropWhile (· ≠ '\n') with
        | nil => rfl
        | cons c cs =>
          rw [hdrop] at hstop
          exact List.takeWhile_cons_of_neg (by simpa using hstop)
      rw [List.takeWhile_append_of_pos, hfeed, List.append_nil]
      · exact hreturn
      · intro c hc
        rw [hreturn c hc]
        rfl }

/-- The search for the closing line stops behind the body of a heredoc. -/
theorem exists_isBody {body : Text} {n : Nat} (h : bodySize? marker body = some n) :
    ∃ lines closing rest, IsBody marker lines closing rest ∧
      body = bodyText lines closing ++ rest ∧ n = (bodyText lines closing).length := by
  induction hlen : body.length using Nat.strongRecOn generalizing body n with
  | ind k ih =>
    subst hlen
    rcases cases_of_bodySize? h with ⟨hclose, rfl⟩ | ⟨line, below, m, hline, hopen, rfl, hm, rfl⟩
    · obtain ⟨closing, rest, hbody, hsplit, hclosing⟩ := isBody_of_closing hclose
      exact ⟨[], closing, rest, hbody, hsplit, by rw [← hclosing, bodyText_nil]⟩
    · obtain ⟨lines, closing, rest, hbody, rfl, rfl⟩ := ih below.length (by simp; omega) hm rfl
      refine ⟨line :: lines, closing, rest, hbody.cons hline hopen, ?_, ?_⟩
      · rw [bodyText_cons, List.append_assoc, List.cons_append]
      · rw [bodyText_cons, List.length_append, List.length_cons]
        omega

/-- The search fails if no line is the marker. -/
theorem bodySize?_eq_none_iff {body : Text} :
    bodySize? marker body = none ↔ ∀ line ∈ Text.splitAt '\n' body, Text.strip line ≠ marker := by
  induction hlen : body.length using Nat.strongRecOn generalizing body with
  | ind k ih =>
    subst hlen
    rcases Text.exists_line body with hline | ⟨line, below, hline, rfl⟩
    · rw [Text.splitAt_of_not_mem hline, List.forall_mem_singleton]
      constructor
      · intro h hclose
        rw [bodySize?_of_closing (by rwa [Text.takeWhile_lastLine hline])] at h
        cases h
      · exact bodySize?_of_last hline
    · rw [Text.splitAt_append hline, List.forall_mem_cons,
        ← ih below.length (by simp; omega) rfl]
      by_cases hclose : Text.strip line = marker
      · rw [bodySize?_of_closing (by rwa [Text.takeWhile_line hline])]
        simp [hclose]
      · rw [bodySize?_of_line hline hclose, Option.map_eq_none_iff]
        exact ⟨fun h => ⟨hclose, h⟩, And.right⟩

/-! ## Heredocs -/

/-- The text is a heredoc with this marker, in front of the rest of a source. -/
def IsHeredoc (marker text rest : Text) : Prop :=
  ∃ front lines closing, Spells marker front ∧ IsBody marker lines closing rest ∧
    text = '<' :: (front ++ bodyText lines closing)

/-- Behind a heredoc a line ends, or the source. -/
theorem IsHeredoc.insideLine_head {text rest : Text} (h : IsHeredoc marker text rest) :
    ∀ c ∈ rest.head?, Lexeme.insideLine c = false := by
  obtain ⟨front, lines, closing, -, hbody, -⟩ := h
  intro c hc
  obtain ⟨below, rfl⟩ := List.head?_eq_some_iff.mp hc
  by_cases hfeed : c = '\n'
  · rw [hfeed]
    rfl
  · have hreturn : c = '\r' := hbody.lineEnds c (by simp [hfeed])
    rw [hreturn]
    rfl

/-- What is read behind a header is a heredoc. -/
theorem exists_isHeredoc {front below : Text} {n : Nat} (hspells : Spells marker front)
    (h : bodySize? marker below = some n) :
    ∃ text rest, IsHeredoc marker text rest ∧ '<' :: (front ++ below) = text ++ rest ∧
      text.length = front.length + n + 1 := by
  obtain ⟨lines, closing, rest, hbody, rfl, rfl⟩ := exists_isBody h
  refine ⟨'<' :: (front ++ bodyText lines closing), rest, ⟨front, lines, closing, hspells, hbody,
    rfl⟩, by simp, ?_⟩
  rw [List.length_cons, List.length_append]

end Heredoc

/-! ## Reading at `<<` -/

namespace Lexeme

variable {marker front : Text}

/-- Behind a header there is a heredoc, or a fault. -/
theorem read_of_spells (h : Heredoc.Spells marker front) (below : Text) :
    read '<' (front ++ below) =
      match Heredoc.bodySize? marker below with
      | some n => .ok ⟨.heredoc, front.length + n⟩
      | none => .error (.unterminatedHeredoc marker) := by
  rw [read, if_neg (by decide), if_neg (by simp), heredocHeader?, if_pos rfl,
    Heredoc.header?_of_spells h]
  simp only [Heredoc.size, List.drop_left]
  cases Heredoc.bodySize? marker below <;> rfl

/-- Without a header the first `<` is an operator. -/
theorem read_of_not_spells {below : Text}
    (h : ∀ marker front, Heredoc.Spells marker front → ¬ front <+: '<' :: below) :
    read '<' ('<' :: below) = .ok ⟨.operator, 0⟩ :=
  read_of_reads (.fixed rfl rfl (fun _ => Heredoc.header?_eq_none_iff.mpr h) rfl)

/-- A lexeme that is read as a heredoc is one. -/
theorem isHeredoc_of_read {c : Char} {w rest : Text}
    (h : read c (w ++ rest) = .ok ⟨.heredoc, w.length⟩) :
    ∃ marker, Heredoc.IsHeredoc marker (c :: w) rest := by
  obtain ⟨rfl, header, n, hheader, hbody, hlen⟩ := heredoc_of_read h rfl
  dsimp only at hlen
  obtain ⟨front, below, hspells, hfront, hsize⟩ := Heredoc.spells_of_header? hheader
  rw [hfront, hsize, List.drop_left] at hbody
  obtain ⟨text, rest', hheredoc, htext, hlength⟩ := Heredoc.exists_isHeredoc hspells hbody
  have hsplit : '<' :: w ++ rest = text ++ rest' := by
    rw [← htext, ← hfront, List.cons_append]
  obtain ⟨rfl, rfl⟩ := List.append_inj hsplit (by rw [hlength, List.length_cons, hlen, hsize])
  exact ⟨header.marker, hheredoc⟩

end Lexeme

namespace Token

variable {source leading below marker front : Text} {line : Int} {before after : List Token}
  {u : Token}

/-- A token that is cut off as a heredoc is one. -/
theorem Stands.isHeredoc {rest : Text} (h : u.Stands rest) (hkind : u.kind = .heredoc) :
    ∃ marker, Heredoc.IsHeredoc marker u.text rest := by
  obtain ⟨c, w, htext, hread⟩ := h.exists_read (by rw [hkind]; decide)
  rw [hkind] at hread
  rw [htext]
  exact Lexeme.isHeredoc_of_read hread

/-- Every heredoc that is cut off a source is one, and a line end is cut off behind it. -/
theorem heredoc_of_ofText (h : ofText source = .ok (before ++ u :: after))
    (hkind : u.kind = .heredoc) :
    (∃ marker, Heredoc.IsHeredoc marker u.text (sourceOf after)) ∧
      ∀ v ∈ after.head?, v.kind = .newline ∧ v.leading = [] := by
  obtain ⟨hstands, below, hafter⟩ := (ofTextFrom_eq_ok_iff.mp h).stands_at
  obtain ⟨marker, hheredoc⟩ := hstands.isHeredoc hkind
  exact ⟨⟨marker, hheredoc⟩, hafter.isLineEnd_head hheredoc.insideLine_head⟩

/-- Where a header is reached and a line below it is the marker, a heredoc is cut off. -/
theorem Reaches.heredoc (h : Reaches source before line (leading ++ '<' :: (front ++ below)))
    (hleading : ∀ d ∈ leading, isLeading d = true) (hspells : Heredoc.Spells marker front)
    (hcloses : ∃ s ∈ Text.splitAt '\n' below, Text.strip s = marker) :
    ∃ text rest, '<' :: (front ++ below) = text ++ rest ∧ Heredoc.IsHeredoc marker text rest ∧
      Reaches source (before ++ [⟨.heredoc, text, leading, line⟩])
        (line + Text.newlines text) rest := by
  have hread := Lexeme.read_of_spells hspells below
  cases hbody : Heredoc.bodySize? marker below with
  | none =>
    obtain ⟨s, hs, hclose⟩ := hcloses
    exact absurd hclose (Heredoc.bodySize?_eq_none_iff.mp hbody s hs)
  | some n =>
    rw [hbody] at hread
    obtain ⟨text, rest, hheredoc, htext, hlength⟩ := Heredoc.exists_isHeredoc hspells hbody
    have hnext := h.lexeme hleading (by decide) hread
    have hsplit := Lexeme.text_append_rest ⟨.heredoc, front.length + n⟩ '<' (front ++ below)
    obtain ⟨hown, hrest⟩ := List.append_inj (hsplit.trans htext) (by
      have hle := Lexeme.more_le hread
      rw [hlength, Lexeme.text, List.length_cons, List.length_take, Nat.min_eq_left hle])
    rw [hown, hrest] at hnext
    exact ⟨text, rest, htext, hheredoc, hnext⟩

/-- Where a header is reached and no line below it is the marker, the source is not cut. -/
theorem Reaches.unterminated (h : Reaches source before line (leading ++ '<' :: (front ++ below)))
    (hleading : ∀ d ∈ leading, isLeading d = true) (hspells : Heredoc.Spells marker front)
    (hopen : ∀ s ∈ Text.splitAt '\n' below, Text.strip s ≠ marker) :
    ofText source = .error ⟨line, .unterminatedHeredoc marker⟩ := by
  have hread := Lexeme.read_of_spells hspells below
  rw [Heredoc.bodySize?_eq_none_iff.mpr hopen] at hread
  rw [h.ofText_eq, ofTextFrom_problem hleading (by decide) hread]
  rfl

/-- Two `<` that begin no header are not cut off together. -/
theorem Reaches.less (h : Reaches source before line (leading ++ '<' :: '<' :: below))
    (hleading : ∀ d ∈ leading, isLeading d = true)
    (hspells : ∀ marker front, Heredoc.Spells marker front → ¬ front <+: '<' :: below) :
    Reaches source (before ++ [⟨.operator, ['<'], leading, line⟩]) line ('<' :: below) := by
  have hnext : Reaches source (before ++ [⟨.operator, ['<'], leading, line⟩])
      (line + Text.newlines ['<']) ('<' :: below) :=
    h.lexeme hleading (by decide) (Lexeme.read_of_not_spells hspells)
  have hline : line + Text.newlines ['<'] = line := Int.add_zero line
  rwa [hline] at hnext

/-- What heredocs are, and where they are.

    Every heredoc that is cut off a source is a header, the lines up to the first one that is the
    marker, and that line as far as the carriage returns at its end; a line end without blanks
    follows, if anything does. Wherever a header is reached it begins such a heredoc if some line
    below is the marker, and is a fault on its line if none is; two `<` that begin no header begin
    no heredoc. -/
theorem heredocs (source : Text) :
    (∀ before u after, ofText source = .ok (before ++ u :: after) → u.kind = .heredoc →
      (∃ marker, Heredoc.IsHeredoc marker u.text (sourceOf after)) ∧
        ∀ v ∈ after.head?, v.kind = .newline ∧ v.leading = []) ∧
    (∀ before line leading marker front below,
      Reaches source before line (leading ++ '<' :: (front ++ below)) →
      (∀ d ∈ leading, isLeading d = true) → Heredoc.Spells marker front →
      line = 1 + Text.newlines (sourceOf before ++ leading) ∧
      ((∃ s ∈ Text.splitAt '\n' below, Text.strip s = marker) →
        ∃ text rest, '<' :: (front ++ below) = text ++ rest ∧
          Heredoc.IsHeredoc marker text rest ∧
          Reaches source (before ++ [⟨.heredoc, text, leading, line⟩])
            (line + Text.newlines text) rest) ∧
      ((∀ s ∈ Text.splitAt '\n' below, Text.strip s ≠ marker) →
        ofText source = .error ⟨line, .unterminatedHeredoc marker⟩)) ∧
    (∀ before line leading below, Reaches source before line (leading ++ '<' :: '<' :: below) →
      (∀ d ∈ leading, isLeading d = true) →
      (∀ marker front, Heredoc.Spells marker front → ¬ front <+: '<' :: below) →
      Reaches source (before ++ [⟨.operator, ['<'], leading, line⟩]) line ('<' :: below)) := by
  refine ⟨fun before u after h hkind => heredoc_of_ofText h hkind, ?_, ?_⟩
  · intro before line leading marker front below h hleading hspells
    have hline : line = 1 + Text.newlines (sourceOf before ++ leading) := by
      rw [Text.newlines_append, newlines_leading hleading, Nat.add_zero]
      exact h.line_eq
    exact ⟨hline, h.heredoc hleading hspells, h.unterminated hleading hspells⟩
  · intro before line leading below h hleading hspells
    exact h.less hleading hspells

/-- A closing line between blanks with a carriage return, a header without a closing line, and two
    `<` alone. -/
theorem heredocs_indentedMarker :
    (∃ u after,
      ofText ('<' :: ("<-EOT\n".toList ++ " x\n\tEOT \r\nb\n".toList)) = .ok (u :: after) ∧
      u.kind = .heredoc ∧ (∃ marker, Heredoc.IsHeredoc marker u.text (sourceOf after)) ∧
      ∀ v ∈ after.head?, v.kind = .newline ∧ v.leading = []) ∧
    (∃ text rest, '<' :: ("<-EOT\n".toList ++ " x\n\tEOT \r\nb\n".toList) = text ++ rest ∧
      Heredoc.IsHeredoc "EOT".toList text rest ∧
      Reaches ('<' :: ("<-EOT\n".toList ++ " x\n\tEOT \r\nb\n".toList))
        [⟨.heredoc, text, [], 1⟩] (1 + Text.newlines text) rest) ∧
    ofText ('<' :: ("<EOT\n".toList ++ "x\n".toList)) =
      .error ⟨1, .unterminatedHeredoc "EOT".toList⟩ ∧
    Reaches "<< 3".toList [⟨.operator, ['<'], [], 1⟩] 1 "< 3".toList := by
  have hmarker : Heredoc.IsMarker "EOT".toList :=
    ⟨'E', ['O', 'T'], rfl, by decide, List.all_eq_true.mp rfl⟩
  have hblanks : ∀ d ∈ ([] : Text), isLeading d = true := by simp
  have htokens : ofText ('<' :: ("<-EOT\n".toList ++ " x\n\tEOT \r\nb\n".toList)) =
      .ok [⟨.heredoc, "<<-EOT\n x\n\tEOT ".toList, [], 1⟩, ⟨.newline, ['\r', '\n'], [], 3⟩,
        ⟨.ident, ['b'], [], 4⟩, ⟨.newline, ['\n'], [], 4⟩] := by decide +kernel
  refine ⟨⟨_, _, htokens, rfl, (heredocs _).1 [] _ _ htokens rfl⟩, ?_, ?_, ?_⟩
  · exact ((heredocs _).2.1 [] 1 [] _ _ _ .start hblanks
      ⟨['-'], ['\n'], Or.inr rfl, hmarker, Or.inl rfl, rfl⟩).2.1
      ⟨"\tEOT \r".toList, by decide, by decide⟩
  · exact ((heredocs _).2.1 [] 1 [] _ _ _ .start hblanks
      ⟨[], ['\n'], Or.inl rfl, hmarker, Or.inl rfl, rfl⟩).2.2 (by decide)
  · exact (heredocs _).2.2 [] 1 [] [' ', '3'] .start hblanks
      (Heredoc.header?_eq_none_iff.mp rfl)

end Token

end HclQuery
