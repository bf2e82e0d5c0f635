/-
  Sources with other blanks between the tokens.

  A token that is no line end may get other blanks in front of it, where there were some before or
  none (`Realigned`). Whatever stopped in front of the old token stops in front of the new blanks.
  Where a line ends nothing has changed: the token there is a line end, and keeps the blanks that it
  has (`lineEnd_of_realigned`). So the new source is cut into the tokens that it was made of:
  `Cuts.realigned`.
-/
import HclQuery.Proofs.Token.Shape
import HclQuery.Proofs.Token.Stopping

namespace HclQuery

/-! ## Line ends -/

namespace Lexeme

/-- A lexeme that is a line end is a line feed, with a carriage return or without. -/
theorem isLineEnd_of_read {c : Char} {w x : Text}
    (h : read c (w ++ x) = .ok ⟨.newline, w.length⟩) : Heredoc.IsLineEnd (c :: w) := by
  rcases newline_of_read h rfl with ⟨rfl, hlen⟩ | ⟨rfl, below, hbelow, hlen⟩
  · obtain rfl := List.length_eq_zero_iff.mp hlen
    exact Or.inl rfl
  · obtain ⟨d, rfl⟩ := List.length_eq_one_iff.mp hlen
    obtain ⟨rfl, -⟩ := List.cons.inj hbelow
    exact Or.inr rfl

end Lexeme

namespace Token

/-- Every token of a cut stands in front of the text of those behind it. -/
theorem Cuts.stands {line : Int} {t : Text} {ts : List Token} (h : Cuts line t ts) {u : Token}
    (hu : u ∈ ts) : ∃ rest, u.Stands rest := by
  obtain ⟨before, after, rfl⟩ := List.append_of_mem hu
  exact ⟨_, h.stands_at.1⟩

/-- The first character of a token is part of a line break only if the token is a line end without
    blanks in front of it. -/
theorem Stands.isLineEnd {u : Token} {rest : Text} (h : u.Stands rest)
    (hhead : ∀ c ∈ (u.leading ++ u.text).head?, Lexeme.insideLine c = false) :
    u.leading = [] ∧ u.kind = .newline ∧ Heredoc.IsLineEnd u.text := by
  have hleading : u.leading = [] := by
    cases hl : u.leading with
    | nil => rfl
    | cons d ds =>
      have hblank : isLeading d = true := h.leading d (by rw [hl]; exact List.mem_cons_self)
      have hinside : Lexeme.insideLine d = false := hhead d (by rw [hl]; rfl)
      unfold isLeading at hblank
      rw [Bool.or_eq_true, decide_eq_true_eq, decide_eq_true_eq] at hblank
      rcases hblank with rfl | rfl <;> cases hinside
  refine ⟨hleading, ?_⟩
  rcases h.read with ⟨-, -, hne, -⟩ | ⟨c, w, htext, -, hread⟩
  · exact absurd hleading hne
  · have hinside : Lexeme.insideLine c = false :=
      hhead c (by rw [hleading, htext]; rfl)
    have hkind : u.kind = .newline := by
      by_contra hne
      have hblank := Lexeme.isBlank_head hread hne
      unfold Lexeme.insideLine at hinside
      rw [Bool.and_eq_false_iff, decide_eq_false_iff_not, decide_eq_false_iff_not, not_not,
        not_not] at hinside
      rcases hinside with rfl | rfl
      · rw [Text.isBlank_return] at hblank
        cases hblank
      · rw [Text.isBlank_lineFeed] at hblank
        cases hblank
    rw [hkind] at hread
    exact ⟨hkind, by rw [htext]; exact Lexeme.isLineEnd_of_read hread⟩

/-- Where a cut text starts with part of a line break, a line end without blanks is cut off. -/
theorem Cuts.isLineEnd_head {line : Int} {ts : List Token} (h : Cuts line (sourceOf ts) ts)
    (hhead : ∀ c ∈ (sourceOf ts).head?, Lexeme.insideLine c = false) :
    ∀ u ∈ ts.head?, u.kind = .newline ∧ u.leading = [] := by
  intro u hu
  obtain ⟨more, rfl⟩ := List.head?_eq_some_iff.mp hu
  obtain ⟨-, -, hstands, -⟩ := cuts_cons_iff.mp h
  obtain ⟨hleading, hnewline, -⟩ := hstands.isLineEnd fun c hc =>
    hhead c (by
      rw [sourceOf_cons, List.head?_append, hc, Option.some_or]
      exact Option.mem_some_self c)
  exact ⟨hnewline, hleading⟩

/-! ## Other blanks -/

/-- The same token on the same line, behind other blanks or for the first time behind blanks. A line
    end has what it had in front of it. -/
structure Realigned (t u : Token) : Prop where
  kind : t.kind = u.kind
  text : t.text = u.text
  line : t.line = u.line
  leading : t.leading = u.leading ∨
    (t.kind ≠ .newline ∧ u.leading ≠ [] ∧ ∀ c ∈ u.leading, isLeading c = true)

theorem Realigned.eq_of_newline {t u : Token} (h : t.Realigned u) (hkind : t.kind = .newline) :
    t = u := by
  have hleading : t.leading = u.leading := h.leading.resolve_right fun hne => hne.1 hkind
  obtain ⟨kind, text, leading, line⟩ := t
  obtain ⟨rfl, rfl, rfl, -⟩ := h
  obtain rfl : leading = u.leading := hleading
  rfl

/-- Where a line ends in front of the tokens it ends in the same way in front of the others. -/
theorem lineEnd_of_realigned {ts us : List Token} (hts : ∀ t ∈ ts, ∃ rest, t.Stands rest)
    (h : List.Forall₂ Realigned ts us)
    (hhead : ∀ c ∈ (sourceOf ts).head?, Lexeme.insideLine c = false) :
    us = [] ∨ ∃ lineEnd x y, Heredoc.IsLineEnd lineEnd ∧ sourceOf ts = lineEnd ++ x ∧
      sourceOf us = lineEnd ++ y := by
  cases h with
  | nil => exact Or.inl rfl
  | @cons t u ts us htu _ =>
    right
    obtain ⟨rest, hstands⟩ := hts t List.mem_cons_self
    have hne : t.leading ++ t.text ≠ [] := by
      rcases hstands.read with ⟨-, -, hne, -⟩ | ⟨c, w, htext, -, -⟩
      · exact fun hnil => hne (List.append_eq_nil_iff.mp hnil).1
      · simp [htext]
    rw [sourceOf_cons, List.head?_append_of_ne_nil _ hne] at hhead
    obtain ⟨hleading, hkind, hlineEnd⟩ := hstands.isLineEnd hhead
    obtain rfl := htu.eq_of_newline hkind
    refine ⟨t.text, sourceOf ts, sourceOf us, hlineEnd, ?_, ?_⟩
    · rw [sourceOf_cons, hleading, List.nil_append]
    · rw [sourceOf_cons, hleading, List.nil_append]

/-- The texts are the same up to the first token that has other blanks in front of it. -/
theorem upToStop_of_realigned {ts us : List Token} (h : List.Forall₂ Realigned ts us) :
    ∃ v x y, sourceOf ts = v ++ x ∧ sourceOf us = v ++ y ∧
      ∀ c ∈ y.head?, c ∈ Lexeme.stops ∧ (c = '/' → x.head? = some c) := by
  induction h with
  | nil => exact ⟨[], [], [], rfl, rfl, by simp⟩
  | @cons t u ts us htu _ ih =>
    rcases htu.leading with hsame | ⟨-, hne, hblank⟩
    · obtain ⟨v, x, y, hx, hy, hstop⟩ := ih
      refine ⟨t.leading ++ t.text ++ v, x, y, ?_, ?_, hstop⟩
      · rw [sourceOf_cons, hx, ← List.append_assoc]
      · rw [sourceOf_cons, hy, hsame, htu.text, ← List.append_assoc]
    · refine ⟨[], sourceOf (t :: ts), sourceOf (u :: us), rfl, rfl, fun c hc => ?_⟩
      have hleading : isLeading c = true := by
        rw [sourceOf_cons, List.append_assoc, List.head?_append_of_ne_nil _ hne] at hc
        exact hblank c (List.mem_of_mem_head? hc)
      unfold isLeading at hleading
      rw [Bool.or_eq_true, decide_eq_true_eq, decide_eq_true_eq] at hleading
      rcases hleading with rfl | rfl <;> simp [Lexeme.stops]

/-- A lexeme stops in front of tokens behind other blanks where it stopped before. -/
theorem stopsAlike_of_realigned {ts us : List Token} (hts : ∀ t ∈ ts, ∃ rest, t.Stands rest)
    (h : List.Forall₂ Realigned ts us) : Lexeme.StopsAlike (sourceOf ts) (sourceOf us) where
  eq_nil := by
    intro hnil
    rcases lineEnd_of_realigned hts h (by simp [hnil]) with rfl | ⟨lineEnd, x, y, hend, hx, -⟩
    · rfl
    · rw [hnil] at hx
      exact absurd (List.append_eq_nil_iff.mp hx.symm).1 hend.ne_nil
  upToStop := upToStop_of_realigned h
  inside := by
    intro hnone
    have hhead := Text.takeWhile_eq_nil_iff_head?.mp hnone
    rcases lineEnd_of_realigned hts h hhead with rfl | ⟨lineEnd, x, y, hend, -, hy⟩
    · rfl
    · rw [hy]
      rcases hend with rfl | rfl <;> rfl
  returns := by
    intro hreturns
    have hhead : ∀ c ∈ (sourceOf ts).head?, Lexeme.insideLine c = false := by
      intro c hc
      obtain ⟨rest, hrest⟩ := List.head?_eq_some_iff.mp hc
      by_cases hfeed : c = '\n'
      · rw [hfeed]
        rfl
      · rw [hreturns c (by rw [hrest]; simp [hfeed])]
        rfl
    rcases lineEnd_of_realigned hts h hhead with rfl | ⟨lineEnd, x, y, hend, -, hy⟩
    · simp
    · rw [hy]
      rcases hend with rfl | rfl <;> simp

variable {line : Int} {t : Text} {ts us : List Token}

/-- A token stands as well behind other blanks, in front of tokens that do. -/
theorem Realigned.stands {u v : Token} {x y : Text} (h : u.Realigned v) (hold : u.Stands x)
    (hxy : Lexeme.StopsAlike x y) : v.Stands y := by
  have hblank : ∀ c ∈ v.leading, isLeading c = true := by
    rcases h.leading with hsame | ⟨-, -, hblank⟩
    · rw [← hsame]
      exact hold.leading
    · exact hblank
  refine ⟨hblank, ?_⟩
  rcases hold.read with ⟨htext, hkind, hne, hnil⟩ | ⟨c, w, htext, hc, hread⟩
  · obtain rfl := h.eq_of_newline hkind
    exact Or.inl ⟨htext, hkind, hne, hxy.eq_nil hnil⟩
  · rw [h.kind] at hread
    exact Or.inr ⟨c, w, h.text.symm.trans htext, hc, Lexeme.read_of_stopsAlike hread hxy⟩

theorem relined_realigned (h : List.Forall₂ Realigned ts us) (hts : relined line ts = ts) :
    relined line us = us := by
  induction h generalizing line with
  | nil => rfl
  | @cons t u ts us htu _ ih =>
    obtain ⟨hfirst, hrest⟩ := List.cons.inj hts
    have hline : u.line = line := by rw [← htu.line, ← hfirst]
    rw [htu.text] at hrest
    rw [relined, ih hrest, ← hline]

/-- A source with other blanks in front of its tokens is cut into these tokens, each of the same
    kind, with the same text and on the same line as before. -/
theorem Cuts.realigned (h : Cuts line t ts) (hus : List.Forall₂ Realigned ts us) :
    Cuts line (sourceOf us) us := by
  have hvs : List.Forall₂ (fun u v => u ∈ ts ∧ u.Realigned v) ts us :=
    (List.forall₂_and_left _ _).mpr ⟨fun _ hu => hu, hus⟩
  have hcuts := h.replace hvs (fun {u v vs ws} huv hws hold => ?_) line
  · rwa [relined_realigned hus h.relined_eq] at hcuts
  · obtain ⟨hmem, hws⟩ := (List.forall₂_and_left _ _).mp hws
    exact huv.2.stands hold (stopsAlike_of_realigned (fun w hw => h.stands (hmem w hw)) hws)

end Token

end HclQuery
