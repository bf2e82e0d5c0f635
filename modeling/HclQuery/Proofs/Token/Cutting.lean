/-
  Cutting a text into tokens, in front of a cut and behind it.

  `Token.Cuts` lists the ways in which a text is cut. From it, by induction along the tokens:

  * `Cuts.front`: tokens in front of a cut are those of the front alone, and tokens behind it
    those of the back alone; so tokens that stand together are cut from their own text
    (`Cuts.between`).
  * `ofTextFrom_append`: text may be put behind a front that is a document's or a line's end
    (`Text.LineEnds`), and is cut on its own, unless the front ends with what becomes a heredoc
    header by it (`hangsOpen`, `ofTextFrom_hangsOpen`).
  * `Cuts.replace`: a text in which other tokens stand in the place of its own is cut into them.
  * `ofTextFrom_shift`: on later lines the tokens are the same ones, so many lines below.
-/
import Mathlib.Data.List.Forall2
import HclQuery.Proofs.Token.Lookahead
import HclQuery.Token.OfText

namespace HclQuery

/-! ## Lexemes lie in the text -/

namespace Lexeme

theorem exponentSize_le (t : Text) : exponentSize t ≤ t.length := by
  cases t with
  | nil => exact Nat.le_refl 0
  | cons c cs =>
    by_cases hc : c = 'e' ∨ c = 'E'
    · have hsign := (signSize_le cs).2
      have hdigits : digits (cs.drop (signSize cs)) ≤ (cs.drop (signSize cs)).length :=
        (List.takeWhile_prefix _).length_le
      rw [List.length_drop] at hdigits
      rw [exponentSize_of_letter hc, List.length_cons]
      split <;> omega
    · rw [exponentSize_of_not_letter hc]
      exact Nat.zero_le _

theorem numberRest_le (t : Text) : numberRest t ≤ t.length := by
  have hdigits : digits t ≤ t.length := (List.takeWhile_prefix _).length_le
  have hfraction := fractionSize_le (t.drop (digits t))
  have hexponent := exponentSize_le ((t.drop (digits t)).drop (fractionSize (t.drop (digits t))))
  rw [numberRest_eq]
  simp only [List.length_drop] at hfraction hexponent
  omega

variable {c : Char} {cs : Text} {l : Lexeme}

theorem more_le (h : read c cs = .ok l) : l.more ≤ cs.length := by
  cases read_eq_ok_iff.mp h with
  | string hc hsize => exact (Quoted.extent_pos hsize).2
  | blockComment hstarts hsize =>
    have := commentSize?_bounds hsize
    rw [List.length_drop] at this
    dsimp only
    omega
  | heredoc hc hheader hbody =>
    have hsize := Heredoc.size_le_of_header? hheader
    have := Heredoc.bodySize?_le hbody
    rw [List.length_drop] at this
    dsimp only
    omega
  | lineFeed hc => exact Nat.zero_le _
  | returnFeed hc hcs =>
    rw [hcs]
    exact Nat.succ_le_succ (Nat.zero_le _)
  | lineComment hstarts => exact (List.takeWhile_prefix _).length_le
  | number hc => exact numberRest_le cs
  | ident hword hdecimal => exact (List.takeWhile_prefix _).length_le
  | fixed hblock hline hheader hfixed =>
    obtain ⟨e, -, hlen, hpre⟩ := mem_spellings_of_fixed? hfixed
    rw [← hlen]
    exact hpre.length_le

theorem text_append (h : read c cs = .ok l) (y : Text) : l.text c (cs ++ y) = l.text c cs := by
  rw [text, List.take_append_of_le_length (more_le h), text]

theorem rest_append (h : read c cs = .ok l) (y : Text) : l.rest (cs ++ y) = l.rest cs ++ y := by
  rw [rest, List.drop_append_of_le_length (more_le h), rest]

/-- The lexeme is a `<` alone wherever what is behind it could become a heredoc header. -/
theorem opens_eq_false (h : read '<' cs = .ok l) (hmore : l.more ≠ 0) :
    Heredoc.opens cs = false := by
  cases read_eq_ok_iff.mp h with
  | string hc => cases hc
  | blockComment hstarts => cases hstarts
  | @heredoc header n hc hheader hbody =>
    have hsize := Heredoc.size_le_of_header? hheader
    have hne : header.size ≠ cs.length + 1 := by omega
    rw [Heredoc.opens, Heredoc.header?_append hheader]
    simpa using hne
  | lineFeed hc => cases hc
  | returnFeed hc => cases hc
  | lineComment hstarts => cases hstarts
  | number hc => exact absurd hc (by decide)
  | ident hword => exact absurd hword (by decide)
  | fixed hblock hline hheader hfixed =>
    have hspelled : ∀ s ∈ spellings, s.1 = '<' → s.2.1.length ≠ 0 → s.2.1 = ['='] := by decide
    obtain ⟨e, hmem, hlen, ds, rfl⟩ := mem_spellings_of_fixed? hfixed
    obtain rfl : e = ['='] := hspelled _ hmem rfl (by rw [hlen]; exact hmore)
    rfl

/-- What becomes a heredoc header at the end of the input has no body. -/
theorem read_of_opens (h : Heredoc.opens cs = true) :
    ∃ marker, read '<' (cs ++ ['\n']) = .error (.unterminatedHeredoc marker) := by
  obtain ⟨header, hheader, hsize⟩ : ∃ header,
      Heredoc.header? (cs ++ ['\n']) = some header ∧ header.size = cs.length + 1 := by
    cases hheader : Heredoc.header? (cs ++ ['\n']) with
    | none =>
      rw [Heredoc.opens, hheader] at h
      cases h
    | some header =>
      rw [Heredoc.opens, hheader] at h
      exact ⟨header, rfl, of_decide_eq_true h⟩
  refine ⟨header.marker, ?_⟩
  have hbelow : (cs ++ ['\n']).drop header.size = [] := by
    rw [hsize, List.drop_eq_nil_iff, List.length_append, List.length_singleton]
  have hbody := Heredoc.bodySize?_nil (Heredoc.marker_ne_nil_of_header? hheader)
  rw [read, if_neg (by decide), if_neg (by simp), heredocHeader?, if_pos rfl, hheader]
  simp only [Heredoc.size, hbelow, hbody]
  rfl

end Lexeme

namespace Token

/-! ## Cutting by cases -/

/-- The ways in which a text that starts on the given line is cut. -/
inductive Cuts : Int → Text → List Token → Prop where
  | done {line : Int} : Cuts line [] []
  | blanks {line : Int} {t : Text} (hne : t ≠ []) (hall : ∀ d ∈ t, isLeading d = true) :
      Cuts line t [⟨.newline, [], t, line⟩]
  | lexeme {line : Int} {leading cs : Text} {c : Char} {l : Lexeme} {ts : List Token}
      (hleading : ∀ d ∈ leading, isLeading d = true) (hc : isLeading c = false)
      (hread : Lexeme.read c cs = .ok l)
      (hrest : Cuts (line + Text.newlines (l.text c cs)) (l.rest cs) ts) :
      Cuts line (leading ++ c :: cs) (⟨l.kind, l.text c cs, leading, line⟩ :: ts)

variable {line : Int} {leading t cs : Text} {c : Char}

theorem dropWhile_isLeading (hleading : ∀ d ∈ leading, isLeading d = true)
    (hc : isLeading c = false) : (leading ++ c :: cs).dropWhile isLeading = c :: cs := by
  rw [List.dropWhile_append_of_pos hleading, List.dropWhile_cons_of_neg (by rw [hc]; simp)]

theorem takeWhile_isLeading (hleading : ∀ d ∈ leading, isLeading d = true)
    (hc : isLeading c = false) : (leading ++ c :: cs).takeWhile isLeading = leading := by
  rw [List.takeWhile_append_of_pos hleading, List.takeWhile_cons_of_neg (by rw [hc]; simp),
    List.append_nil]

theorem dropWhile_isLeading_eq_nil (hall : ∀ d ∈ t, isLeading d = true) :
    t.dropWhile isLeading = [] :=
  List.dropWhile_eq_nil_iff.mpr hall

/-- One lexeme is cut off. -/
theorem ofTextFrom_lexeme {l : Lexeme} (hleading : ∀ d ∈ leading, isLeading d = true)
    (hc : isLeading c = false) (hread : Lexeme.read c cs = .ok l) :
    ofTextFrom line (leading ++ c :: cs) =
      (ofTextFrom (line + Text.newlines (l.text c cs)) (l.rest cs)).map
        (⟨l.kind, l.text c cs, leading, line⟩ :: ·) := by
  rw [ofTextFrom]
  split
  · rename_i hnil
    rw [dropWhile_isLeading hleading hc] at hnil
    cases hnil
  · rename_i hcons
    rw [dropWhile_isLeading hleading hc] at hcons
    cases hcons
    rw [hread, takeWhile_isLeading hleading hc]
    dsimp only
    cases ofTextFrom (line + Text.newlines (l.text c cs)) (l.rest cs) <;> rfl

/-- Where no lexeme can be read the text is not cut. -/
theorem ofTextFrom_problem {problem : Problem} (hleading : ∀ d ∈ leading, isLeading d = true)
    (hc : isLeading c = false) (hread : Lexeme.read c cs = .error problem) :
    ofTextFrom line (leading ++ c :: cs) = .error ⟨line, problem⟩ := by
  rw [ofTextFrom]
  split
  · rename_i hnil
    rw [dropWhile_isLeading hleading hc] at hnil
    cases hnil
  · rename_i hcons
    rw [dropWhile_isLeading hleading hc] at hcons
    cases hcons
    rw [hread]

theorem ofTextFrom_blanks (hall : ∀ d ∈ t, isLeading d = true) :
    ofTextFrom line t = .ok (if t.isEmpty then [] else [⟨.newline, [], t, line⟩]) := by
  rw [ofTextFrom]
  split
  · rfl
  · rename_i hcons
    rw [dropWhile_isLeading_eq_nil hall] at hcons
    cases hcons

theorem ofTextFrom_nil : ofTextFrom line [] = .ok [] :=
  ofTextFrom_blanks (by simp)

/-- A text is blank, or starts with blanks and then another character. -/
theorem exists_leading (t : Text) :
    (∀ d ∈ t, isLeading d = true) ∨ ∃ leading c cs, (∀ d ∈ leading, isLeading d = true) ∧
      isLeading c = false ∧ t = leading ++ c :: cs := by
  have hleading := List.all_eq_true.mp (List.all_takeWhile (p := isLeading) (l := t))
  have hstop := List.head?_dropWhile_not isLeading t
  have hsplit := List.takeWhile_append_dropWhile (p := isLeading) (l := t)
  cases hdrop : t.dropWhile isLeading with
  | nil =>
    rw [hdrop, List.append_nil] at hsplit
    rw [hsplit] at hleading
    exact Or.inl hleading
  | cons c cs =>
    rw [hdrop] at hstop hsplit
    exact Or.inr ⟨_, c, cs, hleading, hstop, hsplit.symm⟩

theorem ofTextFrom_eq_ok_iff {ts : List Token} :
    ofTextFrom line t = .ok ts ↔ Cuts line t ts := by
  constructor
  · intro h
    induction hlen : t.length using Nat.strongRecOn generalizing line t ts with
    | ind n ih =>
      subst hlen
      rcases exists_leading t with hall | ⟨leading, c, cs, hleading, hc, rfl⟩
      · rw [ofTextFrom_blanks hall] at h
        cases t with
        | nil =>
          cases h
          exact .done
        | cons d t =>
          cases h
          exact .blanks (List.cons_ne_nil d t) hall
      · cases hread : Lexeme.read c cs with
        | error problem =>
          rw [ofTextFrom_problem hleading hc hread] at h
          cases h
        | ok l =>
          rw [ofTextFrom_lexeme hleading hc hread] at h
          obtain ⟨us, hus, rfl⟩ := Except.map_eq_ok_iff.mp h
          have hle := l.length_rest_le cs
          exact .lexeme hleading hc hread
            (ih (l.rest cs).length (by simp; omega) hus rfl)
  · intro h
    induction h with
    | done => exact ofTextFrom_nil
    | blanks hne hall =>
      rw [ofTextFrom_blanks hall, if_neg (by simpa using hne)]
    | lexeme hleading hc hread hrest ih =>
      rw [ofTextFrom_lexeme hleading hc hread, ih]
      rfl

theorem Cuts.sourceOf_eq {ts : List Token} (h : Cuts line t ts) : sourceOf ts = t :=
  sourceOf_ofTextFrom (ofTextFrom_eq_ok_iff.mpr h)

theorem Cuts.eq_nil {ts : List Token} (h : Cuts line [] ts) : ts = [] := by
  have hcut := ofTextFrom_eq_ok_iff.mpr h
  rw [ofTextFrom_nil] at hcut
  exact (Except.ok.inj hcut).symm

theorem newlines_leading (hleading : ∀ d ∈ leading, isLeading d = true) :
    Text.newlines leading = 0 := by
  refine List.count_eq_zero.mpr fun hmem => ?_
  exact absurd (hleading _ hmem) (by decide)

/-- A token that has a text comes of a lexeme. -/
theorem Cuts.of_cons {u : Token} {us : List Token} (h : Cuts line t (u :: us))
    (htext : u.text ≠ []) :
    ∃ leading c cs l, (∀ d ∈ leading, isLeading d = true) ∧ isLeading c = false ∧
      Lexeme.read c cs = .ok l ∧ t = leading ++ c :: cs ∧
      u = ⟨l.kind, l.text c cs, leading, line⟩ ∧
      Cuts (line + Text.newlines (l.text c cs)) (l.rest cs) us := by
  cases h with
  | blanks => exact absurd rfl htext
  | lexeme hleading hc hread hrest =>
    exact ⟨_, _, _, _, hleading, hc, hread, rfl, rfl, hrest⟩

/-- The token is cut off in front of `rest`: behind blanks it is read there, or it is the blanks
    at the end of the text. -/
structure Stands (u : Token) (rest : Text) : Prop where
  leading : ∀ d ∈ u.leading, isLeading d = true
  read : (u.text = [] ∧ u.kind = .newline ∧ u.leading ≠ [] ∧ rest = []) ∨
    ∃ c w, u.text = c :: w ∧ isLeading c = false ∧
      Lexeme.read c (w ++ rest) = .ok ⟨u.kind, w.length⟩

/-- A token that is no line end is read. -/
theorem Stands.exists_read {u : Token} {rest : Text} (h : u.Stands rest)
    (hkind : u.kind ≠ .newline) :
    ∃ c w, u.text = c :: w ∧ Lexeme.read c (w ++ rest) = .ok ⟨u.kind, w.length⟩ := by
  rcases h.read with ⟨-, hnewline, -⟩ | ⟨c, w, htext, -, hread⟩
  · exact absurd hnewline hkind
  · exact ⟨c, w, htext, hread⟩

/-- A text is cut if each of its tokens is cut off in front of the others. -/
theorem cuts_cons_iff {u : Token} {us : List Token} :
    Cuts line t (u :: us) ↔ t = sourceOf (u :: us) ∧ u.line = line ∧ u.Stands (sourceOf us) ∧
      Cuts (line + Text.newlines u.text) (sourceOf us) us := by
  constructor
  · intro h
    refine ⟨h.sourceOf_eq.symm, ?_⟩
    cases h with
    | blanks hne hall => exact ⟨rfl, ⟨hall, Or.inl ⟨rfl, rfl, hne, rfl⟩⟩, .done⟩
    | @lexeme _ leading cs c l _ hleading hc hread hrest =>
      have hlen : (cs.take l.more).length = l.more := by
        rw [List.length_take, Nat.min_eq_left (Lexeme.more_le hread)]
      rw [hrest.sourceOf_eq]
      refine ⟨rfl, ⟨hleading, Or.inr ⟨c, cs.take l.more, rfl, hc, ?_⟩⟩, hrest⟩
      rw [hlen, Lexeme.rest, List.take_append_drop]
      exact hread
  · intro h
    obtain ⟨rfl, rfl, hstands, hrest⟩ := h
    obtain ⟨kind, text, leading, line⟩ := u
    rcases hstands.read with ⟨rfl, rfl, hne, hnil⟩ | ⟨c, w, rfl, hc, hread⟩
    · obtain rfl : us = [] := by
        rw [hnil] at hrest
        exact hrest.eq_nil
      rw [sourceOf_cons, sourceOf_nil, List.append_nil, List.append_nil]
      exact .blanks hne hstands.leading
    · have htake : (w ++ sourceOf us).take w.length = w := List.take_left' rfl
      have hdrop : (w ++ sourceOf us).drop w.length = sourceOf us := List.drop_left' rfl
      have hlexeme : Cuts line (leading ++ c :: (w ++ sourceOf us))
          (⟨kind, c :: (w ++ sourceOf us).take w.length, leading, line⟩ :: us) := by
        refine .lexeme hstands.leading hc hread ?_
        rw [Lexeme.text, Lexeme.rest, htake, hdrop]
        exact hrest
      rw [htake] at hlexeme
      rw [sourceOf_cons, List.append_assoc]
      exact hlexeme

/-- A token with a text stands in front of less as well. -/
theorem Stands.front {u : Token} {x y : Text} (h : u.Stands (x ++ y)) (htext : u.text ≠ []) :
    u.Stands x := by
  refine ⟨h.leading, ?_⟩
  rcases h.read with ⟨hnil, -⟩ | ⟨c, w, hown, hc, hread⟩
  · exact absurd hnil htext
  · rw [← List.append_assoc] at hread
    exact Or.inr ⟨c, w, hown, hc, Lexeme.read_front hread (by simp)⟩

/-- Only the last token of a text can lack a text of its own. -/
theorem Cuts.text_ne_nil {ts us : List Token} (h : Cuts line t (ts ++ us)) (hus : us ≠ []) :
    ∀ u ∈ ts, u.text ≠ [] := by
  induction ts generalizing line t with
  | nil => simp
  | cons v ts ih =>
    intro u hu
    generalize hall : v :: ts ++ us = vs at h
    cases h with
    | done => cases hall
    | blanks =>
      obtain ⟨-, hnil⟩ := List.cons.inj hall
      exact absurd (List.append_eq_nil_iff.mp hnil).2 hus
    | lexeme hleading hc hread hrest =>
      obtain ⟨rfl, rfl⟩ := List.cons.inj hall
      rcases List.mem_cons.mp hu with rfl | hu
      · exact List.cons_ne_nil _ _
      · exact ih hrest u hu

/-! ## In front of a cut and behind it -/

/-- Tokens with texts in front of a cut are those of the front alone, and the tokens behind it
    those of the back alone. -/
theorem Cuts.front {ts us : List Token} (htexts : ∀ u ∈ ts, u.text ≠ [])
    (h : Cuts line t (ts ++ us)) :
    Cuts line (sourceOf ts) ts ∧ Cuts (line + Text.newlines (sourceOf ts)) (sourceOf us) us := by
  induction ts generalizing line t with
  | nil =>
    rw [← h.sourceOf_eq] at h
    refine ⟨.done, ?_⟩
    simpa using h
  | cons u ts ih =>
    rw [List.cons_append] at h
    obtain ⟨-, hline, hstands, hrest⟩ := cuts_cons_iff.mp h
    obtain ⟨hfront, hback⟩ := ih (fun v hv => htexts v (List.mem_cons_of_mem _ hv)) hrest
    rw [sourceOf_append] at hstands
    have hstands' := hstands.front (htexts u List.mem_cons_self)
    refine ⟨cuts_cons_iff.mpr ⟨rfl, hline, hstands', hfront⟩, ?_⟩
    rw [sourceOf_cons, Text.newlines_append, Text.newlines_append,
      newlines_leading hstands.leading, Nat.zero_add, Int.natCast_add, ← Int.add_assoc]
    exact hback

/-- A token of a cut stands in front of those behind it, which are cut from their own text. -/
theorem Cuts.stands_at {u : Token} {before after : List Token}
    (h : Cuts line t (before ++ u :: after)) :
    u.Stands (sourceOf after) ∧ ∃ below, Cuts below (sourceOf after) after := by
  have hback := (h.front (h.text_ne_nil (List.cons_ne_nil u after))).2
  obtain ⟨-, -, hstands, hafter⟩ := cuts_cons_iff.mp hback
  exact ⟨hstands, _, hafter⟩

/-- Tokens that stand together in a cut are cut from their own text. -/
theorem Cuts.between {before ts after : List Token} (h : Cuts line t (before ++ (ts ++ after))) :
    ∃ start, Cuts start (sourceOf ts) ts := by
  by_cases hts : ts = []
  · subst hts
    exact ⟨line, .done⟩
  have hmore : ts ++ after ≠ [] := List.append_ne_nil_of_left_ne_nil hts after
  have hbehind := (h.front (h.text_ne_nil hmore)).2
  by_cases hafter : after = []
  · subst hafter
    rw [List.append_nil] at hbehind
    exact ⟨_, hbehind⟩
  · exact ⟨_, (hbehind.front (hbehind.text_ne_nil hafter)).1⟩

/-! ## Text behind a line's end -/

/-- The tokens end with what becomes a heredoc header if a line end follows: two `<`, a dash or
    none, and a marker, with nothing between them. -/
def hangsOpen : List Token → Bool
  | [] => false
  | t :: ts => (t.text = ['<'] && Heredoc.opens (sourceOf ts)) || hangsOpen ts

/-- A token is the first `<` of what becomes a header if its text starts that way. -/
theorem opens_of_read {l : Lexeme} {ts : List Token} (hread : Lexeme.read c cs = .ok l)
    (hrest : sourceOf ts = l.rest cs) :
    (l.text c cs = ['<'] && Heredoc.opens (sourceOf ts)) = (c = '<' && Heredoc.opens cs) := by
  by_cases hless : c = '<'
  · subst hless
    by_cases hmore : l.more = 0
    · rw [hrest, Lexeme.rest, Lexeme.text, hmore]
      rfl
    · have hle := Lexeme.more_le hread
      have htext : l.text '<' cs ≠ ['<'] := by
        intro htext
        have hlen := congrArg List.length htext
        rw [Lexeme.text, List.length_cons, List.length_take, List.length_singleton] at hlen
        omega
      rw [Lexeme.opens_eq_false hread hmore, decide_eq_false htext]
      rfl
  · have htext : l.text c cs ≠ ['<'] := fun htext => hless (List.cons.inj htext).1
    rw [decide_eq_false htext, decide_eq_false hless, Bool.false_and, Bool.false_and]

/-- A lexeme is cut off in the same way if text is put behind it. -/
theorem ofTextFrom_lexeme_append {l : Lexeme} {y : Text}
    (hleading : ∀ d ∈ leading, isLeading d = true) (hc : isLeading c = false)
    (hread : Lexeme.read c cs = .ok l) (hb : Text.LineEnds (c :: cs) y)
    (hopens : c = '<' → Heredoc.opens cs = false) :
    ofTextFrom line (leading ++ c :: cs ++ y) =
      (ofTextFrom (line + Text.newlines (l.text c cs)) (l.rest cs ++ y)).map
        (⟨l.kind, l.text c cs, leading, line⟩ :: ·) := by
  rw [List.append_assoc, List.cons_append,
    ofTextFrom_lexeme hleading hc (Lexeme.read_append hread hb hopens),
    Lexeme.text_append hread, Lexeme.rest_append hread]

/-- A text behind the end of a line is cut on its own. -/
theorem ofTextFrom_append {w y : Text} {ts : List Token} (h : ofTextFrom line w = .ok ts)
    (htexts : ∀ u ∈ ts, u.text ≠ []) (hb : w ≠ [] → Text.LineEnds w y)
    (hopen : hangsOpen ts = false) :
    ofTextFrom line (w ++ y) = (ofTextFrom (line + Text.newlines w) y).map (ts ++ ·) := by
  rw [ofTextFrom_eq_ok_iff] at h
  induction ts generalizing line w with
  | nil =>
    obtain rfl : [] = w := h.sourceOf_eq
    cases hy : ofTextFrom line y <;> simp [hy, Except.map]
  | cons u ts ih =>
    obtain ⟨leading, c, cs, l, hleading, hc, hread, rfl, rfl, hrest⟩ :=
      h.of_cons (htexts u List.mem_cons_self)
    have hb' : Text.LineEnds (c :: cs) y := (hb (by simp)).suffix (List.cons_ne_nil c cs)
    rw [hangsOpen, opens_of_read hread hrest.sourceOf_eq, Bool.or_eq_false_iff] at hopen
    have hopens : c = '<' → Heredoc.opens cs = false := fun hless => by
      simpa [hless] using hopen.1
    have hb'' : l.rest cs ≠ [] → Text.LineEnds (l.rest cs) y := by
      intro hne
      rw [← l.text_append_rest c cs] at hb'
      exact hb'.suffix hne
    rw [ofTextFrom_lexeme_append hleading hc hread hb' hopens,
      ih hrest (fun v hv => htexts v (List.mem_cons_of_mem _ hv)) hb'' hopen.2]
    rw [← l.text_append_rest c cs, Text.newlines_append, Text.newlines_append,
      newlines_leading hleading, Nat.zero_add, Int.natCast_add, ← Int.add_assoc]
    cases ofTextFrom _ y <;> rfl

/-- Where tokens hang open, a line end behind them makes a heredoc that does not end. -/
theorem ofTextFrom_hangsOpen {w : Text} {ts : List Token} (h : ofTextFrom line w = .ok ts)
    (htexts : ∀ u ∈ ts, u.text ≠ []) (hopen : hangsOpen ts = true) :
    ∃ below marker, ofTextFrom line (w ++ ['\n']) =
      .error ⟨below, .unterminatedHeredoc marker⟩ := by
  rw [ofTextFrom_eq_ok_iff] at h
  induction ts generalizing line w with
  | nil => cases hopen
  | cons u ts ih =>
    obtain ⟨leading, c, cs, l, hleading, hc, hread, rfl, rfl, hrest⟩ :=
      h.of_cons (htexts u List.mem_cons_self)
    rw [hangsOpen, opens_of_read hread hrest.sourceOf_eq, Bool.or_eq_true] at hopen
    by_cases hopens : c = '<' ∧ Heredoc.opens cs = true
    · obtain ⟨rfl, hopens⟩ := hopens
      obtain ⟨marker, hproblem⟩ := Lexeme.read_of_opens hopens
      refine ⟨line, marker, ?_⟩
      rw [List.append_assoc, List.cons_append]
      exact ofTextFrom_problem hleading hc hproblem
    · have hself : c = '<' → Heredoc.opens cs = false := fun hless => by
        simpa [hless] using hopens
      have hlater : hangsOpen ts = true := hopen.resolve_left (by simpa using hopens)
      obtain ⟨below, marker, hfault⟩ :=
        ih hrest (fun v hv => htexts v (List.mem_cons_of_mem _ hv)) hlater
      refine ⟨below, marker, ?_⟩
      have hb : Text.LineEnds (c :: cs) ['\n'] := Or.inr (Or.inr rfl)
      rw [ofTextFrom_lexeme_append hleading hc hread hb hself, hfault]
      rfl

/-- Nothing hangs open at the end of a line. -/
theorem hangsOpen_eq_false {ts : List Token}
    (h : sourceOf ts = [] ∨ (sourceOf ts).getLast? = some '\n') : hangsOpen ts = false := by
  induction ts with
  | nil => rfl
  | cons t ts ih =>
    have hts : sourceOf ts = [] ∨ (sourceOf ts).getLast? = some '\n' := by
      by_cases hnil : sourceOf ts = []
      · exact Or.inl hnil
      · right
        rcases h with h | h
        · simp_all
        · rw [sourceOf_cons, List.getLast?_append, List.getLast?_eq_some_getLast hnil,
            Option.some_or] at h
          rw [List.getLast?_eq_some_getLast hnil, h]
    have hopens : Heredoc.opens (sourceOf ts) = false := by
      rcases hts with hnil | hlast
      · rw [hnil]
        rfl
      · exact Heredoc.opens_of_lineFeed_mem (List.mem_of_getLast? hlast)
    rw [hangsOpen, hopens, ih hts, Bool.and_false, Bool.false_or]

/-! ## Other tokens in their place -/

/-- The tokens on the lines where they stand if the first is on the given one. -/
def relined (line : Int) : List Token → List Token
  | [] => []
  | u :: us => { u with line } :: relined (line + Text.newlines u.text) us

theorem sourceOf_relined (line : Int) (us : List Token) :
    sourceOf (relined line us) = sourceOf us := by
  induction us generalizing line with
  | nil => rfl
  | cons u us ih => rw [relined, sourceOf_cons, sourceOf_cons, ih]

theorem agrees_relined (line : Int) (us : List Token) :
    List.Forall₂ (fun u v => u.agrees v = true) us (relined line us) := by
  induction us generalizing line with
  | nil => exact .nil
  | cons u us ih => exact .cons (by simp [agrees]) (ih _)

theorem Cuts.relined_eq {ts : List Token} (h : Cuts line t ts) : relined line ts = ts := by
  induction ts generalizing line t with
  | nil => rfl
  | cons u us ih =>
    obtain ⟨-, rfl, -, hrest⟩ := cuts_cons_iff.mp h
    rw [relined, ih hrest]

/-- If each token stands where the one did that it replaces, the text of the new tokens is cut
    into them. -/
theorem Cuts.replace {R : Token → Token → Prop} {ts vs : List Token} (h : Cuts line t ts)
    (hvs : List.Forall₂ R ts vs)
    (hstands : ∀ {u v us ws}, R u v → List.Forall₂ R us ws → u.Stands (sourceOf us) →
      v.Stands (sourceOf ws))
    (start : Int) : Cuts start (sourceOf vs) (relined start vs) := by
  induction hvs generalizing line t start with
  | nil => exact .done
  | @cons u v us ws huv hws ih =>
    obtain ⟨-, -, hold, hrest⟩ := cuts_cons_iff.mp h
    have hnew := hstands huv hws hold
    have hcuts := ih hrest (start + Text.newlines v.text)
    refine cuts_cons_iff.mpr ⟨(sourceOf_relined start (v :: ws)).symm, rfl, ?_, ?_⟩
    · rw [sourceOf_relined]
      exact ⟨hnew.leading, hnew.read⟩
    · rw [sourceOf_relined]
      exact hcuts

/-! ## Later lines -/

/-- The token, so many lines further down. -/
def shift (k : Int) (t : Token) : Token :=
  { t with line := t.line + k }

end Token

/-- The fault, so many lines further down. -/
def Fault.shift (k : Int) (fault : Fault) : Fault :=
  { fault with line := fault.line + k }

namespace Token

/-- On later lines a text is cut into the same tokens, or has the same fault. -/
theorem ofTextFrom_shift (line k : Int) (t : Text) :
    ofTextFrom (line + k) t =
      ((ofTextFrom line t).map (List.map (shift k))).mapError (Fault.shift k) := by
  induction hlen : t.length using Nat.strongRecOn generalizing line t with
  | ind n ih =>
    subst hlen
    rcases exists_leading t with hall | ⟨leading, c, cs, hleading, hc, rfl⟩
    · rw [ofTextFrom_blanks hall, ofTextFrom_blanks hall]
      cases t <;> rfl
    · cases hread : Lexeme.read c cs with
      | error problem =>
        rw [ofTextFrom_problem hleading hc hread, ofTextFrom_problem hleading hc hread]
        rfl
      | ok l =>
        have hle := l.length_rest_le cs
        have hrest := ih (l.rest cs).length (by simp; omega)
          (line + Text.newlines (l.text c cs)) (l.rest cs) rfl
        rw [ofTextFrom_lexeme hleading hc hread, ofTextFrom_lexeme hleading hc hread,
          Int.add_right_comm, hrest]
        cases ofTextFrom (line + Text.newlines (l.text c cs)) (l.rest cs) <;> rfl

/-- Tokens that stand together in a cut are those of their own text, on other lines. -/
theorem Cuts.exists_ofText_between {t : Text} {line : Int} {before ts after : List Token}
    (h : Cuts line t (before ++ (ts ++ after))) :
    ∃ k, ofText (sourceOf ts) = .ok (ts.map (shift k)) := by
  obtain ⟨start, hcuts⟩ := h.between
  have hshift := ofTextFrom_shift start (1 - start) (sourceOf ts)
  rw [ofTextFrom_eq_ok_iff.mpr hcuts, Int.add_comm, Int.sub_add_cancel] at hshift
  exact ⟨1 - start, hshift⟩

end Token

end HclQuery
