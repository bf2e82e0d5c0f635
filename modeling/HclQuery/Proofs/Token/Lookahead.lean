/-
  How far reading a lexeme looks.

  A string or a block comment ends where it ends, whatever follows. The other lexemes are longest
  runs or lines, so reading one looks at what follows it: at the next characters, and after `<`
  as far as the end of the line, where a heredoc header may be. Two facts cover all of them:

  * `Lexeme.read_front`: a lexeme that lies in front of a cut is read from the front alone.
  * `Lexeme.read_append`: text may be put behind the front if a line ends at the cut
    (`Text.LineEnds`), unless a `<` becomes a heredoc header by it.
-/
import Mathlib.Data.List.Find
import HclQuery.Proofs.Token.Heredoc
import HclQuery.Proofs.Token.Quoted
import HclQuery.Proofs.Token.Number
import HclQuery.Proofs.Token.Reads

namespace HclQuery.Lexeme

variable {w x y : Text}

/-! ## Strings and block comments -/

theorem commentSize?_bounds {t : Text} {n : Nat} (h : commentSize? t = some n) :
    2 ≤ n ∧ n ≤ t.length := by
  induction t generalizing n with
  | nil => cases h
  | cons c cs ih =>
    unfold commentSize? at h
    split at h
    · rename_i hclose
      cases h
      rw [Bool.and_eq_true, List.isPrefixOf_iff_prefix] at hclose
      have := hclose.2.length_le
      simpa using this
    · obtain ⟨m, hm, rfl⟩ := Option.map_eq_some_iff.mp h
      have := ih hm
      simp only [List.length_cons]
      omega

theorem getLast?_take_commentSize? {t : Text} {n : Nat} (h : commentSize? t = some n) :
    (t.take n).getLast? = some '/' := by
  induction t generalizing n with
  | nil => cases h
  | cons c cs ih =>
    unfold commentSize? at h
    split at h
    · rename_i hclose
      cases h
      rw [Bool.and_eq_true, List.isPrefixOf_iff_prefix] at hclose
      obtain ⟨-, cs, rfl⟩ := hclose
      rfl
    · obtain ⟨m, hm, rfl⟩ := Option.map_eq_some_iff.mp h
      rw [List.take_succ_cons, List.getLast?_cons, ih hm]
      rfl

/-- Where a block comment ends does not depend on what follows it. -/
theorem commentSize?_take {t : Text} {n : Nat} (h : commentSize? t = some n) (z : Text) :
    commentSize? (t.take n ++ z) = some n := by
  induction t generalizing n with
  | nil => cases h
  | cons c cs ih =>
    unfold commentSize? at h
    split at h
    · rename_i hclose
      cases h
      rw [Bool.and_eq_true, List.isPrefixOf_iff_prefix] at hclose
      obtain ⟨hc, cs, rfl⟩ := hclose
      simp [commentSize?, hc]
    · rename_i hopen
      obtain ⟨m, hm, rfl⟩ := Option.map_eq_some_iff.mp h
      obtain ⟨htwo, hle⟩ := commentSize?_bounds hm
      rw [List.take_succ_cons, List.cons_append, commentSize?,
        Text.isPrefixOf_take z (Nat.le_trans (by decide : 1 ≤ 2) htwo) hle, if_neg hopen, ih hm]
      rfl

theorem size_front {n : Nat} (h : Quoted.size (w ++ x) = .ok n) (hle : n ≤ w.length) :
    Quoted.size w = .ok n := by
  have := Quoted.extent_take h (w.drop n)
  rw [List.take_append_of_le_length hle, List.take_append_drop] at this
  exact this

theorem size_append {n : Nat} (h : Quoted.size w = .ok n) (y : Text) :
    Quoted.size (w ++ y) = .ok n := by
  have := Quoted.extent_take h (w.drop n ++ y)
  rw [← List.append_assoc, List.take_append_drop] at this
  exact this

theorem commentSize?_front {n : Nat} (h : commentSize? (w ++ x) = some n) (hle : n ≤ w.length) :
    commentSize? w = some n := by
  have := commentSize?_take h (w.drop n)
  rw [List.take_append_of_le_length hle, List.take_append_drop] at this
  exact this

theorem commentSize?_append {n : Nat} (h : commentSize? w = some n) (y : Text) :
    commentSize? (w ++ y) = some n := by
  have := commentSize?_take h (w.drop n ++ y)
  rw [← List.append_assoc, List.take_append_drop] at this
  exact this

theorem startsBlockComment_front {c : Char} (h : startsBlockComment c (w ++ x) = true)
    (hle : 1 ≤ w.length) : startsBlockComment c w = true := by
  unfold startsBlockComment at h ⊢
  rwa [Text.isPrefixOf_front x (by simp; omega)]

theorem startsBlockComment_append_of_true {c : Char} (h : startsBlockComment c w = true)
    (y : Text) : startsBlockComment c (w ++ y) = true := by
  unfold startsBlockComment at h ⊢
  rw [Bool.and_eq_true] at h ⊢
  exact ⟨h.1, Text.isPrefixOf_append_of_true y h.2⟩

theorem startsBlockComment_append {c : Char} (hb : Text.LineEnds w y) :
    startsBlockComment c (w ++ y) = startsBlockComment c w := by
  unfold startsBlockComment
  rw [Text.isPrefixOf_append (by decide) hb]

/-- The rest of a block comment that ends at a cut. -/
theorem exists_said_of_block {c : Char} {n : Nat} (hstarts : startsBlockComment c (w ++ x) = true)
    (hsize : commentSize? ((w ++ x).drop 1) = some n) (hlen : w.length = 1 + n) :
    ∃ said, c = '/' ∧ w = '*' :: said ∧ commentSize? said = some said.length := by
  have hfront := startsBlockComment_front hstarts (by omega)
  rw [startsBlockComment, Bool.and_eq_true, decide_eq_true_eq, List.isPrefixOf_iff_prefix]
    at hfront
  obtain ⟨hc, said, rfl⟩ := hfront
  obtain rfl : n = said.length := by
    rw [List.length_append, List.length_singleton] at hlen
    exact (Nat.add_left_cancel hlen).symm
  exact ⟨said, hc, rfl, commentSize?_front (x := x) hsize (Nat.le_refl _)⟩

/-- Such a rest makes a block comment in front of any text. -/
theorem reads_block {said : Text} (h : commentSize? said = some said.length) (y : Text) :
    Reads '/' ('*' :: said ++ y) ⟨.comment, ('*' :: said).length⟩ := by
  have hreads : Reads '/' ('*' :: said ++ y) _ := .blockComment rfl (commentSize?_append h y)
  rw [Nat.add_comm] at hreads
  exact hreads

/-! ## Line comments -/

theorem startsLineComment_append_of_true {c : Char} (h : startsLineComment c w = true)
    (y : Text) : startsLineComment c (w ++ y) = true := by
  unfold startsLineComment at h ⊢
  simp only [Bool.or_eq_true, Bool.and_eq_true] at h ⊢
  exact h.imp_right fun h => ⟨h.1, Text.isPrefixOf_append_of_true y h.2⟩

theorem startsLineComment_append {c : Char} (hb : Text.LineEnds w y) :
    startsLineComment c (w ++ y) = startsLineComment c w := by
  unfold startsLineComment
  rw [Text.isPrefixOf_append (by decide) hb]

/-- The slash that makes a line comment of another one is part of it. -/
theorem startsLineComment_front {c : Char} (h : startsLineComment c (w ++ x) = true)
    (hle : ((w ++ x).takeWhile insideLine).length ≤ w.length) :
    startsLineComment c w = true := by
  unfold startsLineComment at h ⊢
  simp only [Bool.or_eq_true, Bool.and_eq_true, List.isPrefixOf_iff_prefix] at h ⊢
  refine h.imp_right fun h => ⟨h.1, ?_⟩
  obtain ⟨-, more, hmore⟩ := h
  cases w with
  | nil =>
    have hslash : insideLine '/' = true := by decide
    rw [← hmore] at hle
    simp [hslash] at hle
  | cons d w =>
    obtain ⟨rfl, -⟩ := List.cons.inj hmore
    simp

/-! ## Fixed spellings -/

theorem not_mem_breaks_of_mem_spellings : ∀ s ∈ spellings, ∀ c ∈ s.2.1, c ∉ breaks := by
  have hall : ∀ s ∈ spellings, s.2.1.all (· ∉ breaks) = true := by decide
  intro s hs c hc
  simpa using List.all_eq_true.mp (hall s hs) c hc

theorem fixed?_front {c : Char} {l : Lexeme} (h : fixed? c (w ++ x) = some l)
    (hle : l.more ≤ w.length) : fixed? c w = some l := by
  obtain ⟨before, e, after, hsplit, he, hpre, hbefore⟩ := fixed?_eq_some_iff.mp h
  refine fixed?_eq_some_iff.mpr ⟨before, e, after, hsplit, he, ?_, fun s hmem hc hs => ?_⟩
  · exact List.prefix_of_prefix_length_le hpre (List.prefix_append w x) (by omega)
  · exact hbefore s hmem hc (hs.trans (List.prefix_append w x))

theorem fixed?_append {c : Char} (hb : Text.PartedBy breaks w y) :
    fixed? c (w ++ y) = fixed? c w := by
  unfold fixed?
  congr 1
  refine List.find?_congr fun s hs => ?_
  rw [hb.isPrefixOf_append (not_mem_breaks_of_mem_spellings s hs)]

/-! ## Lexemes -/

/-- A lexeme that lies in front of a cut is read from the front alone. -/
theorem read_front {c : Char} {l : Lexeme} (h : read c (w ++ x) = .ok l)
    (hle : l.more ≤ w.length) : read c w = .ok l := by
  refine read_eq_ok_iff.mpr ?_
  have hreads := read_eq_ok_iff.mp h
  generalize hcs : w ++ x = cs at hreads
  cases hreads with
  | string hc hsize =>
    subst hcs
    exact .string hc (size_front hsize hle)
  | @blockComment n hstarts hsize =>
    subst hcs
    dsimp only at hle
    have hone : 1 ≤ w.length := by omega
    rw [List.drop_append_of_le_length hone] at hsize
    refine .blockComment (startsBlockComment_front hstarts hone) ?_
    exact commentSize?_front hsize (by rw [List.length_drop]; omega)
  | heredoc hc hheader hbody =>
    subst hcs
    dsimp only at hle
    have hsize := Heredoc.header?_front hheader (by omega)
    rw [List.drop_append_of_le_length (by omega)] at hbody
    exact .heredoc hc hsize (Heredoc.bodySize?_front hbody (by rw [List.length_drop]; omega))
  | lineFeed hc => exact .lineFeed hc
  | returnFeed hc hreturn =>
    subst hcs
    cases w with
    | nil => cases hle
    | cons d w =>
      obtain ⟨rfl, -⟩ := List.cons.inj hreturn
      exact .returnFeed hc rfl
  | lineComment hstarts =>
    subst hcs
    have hfront := startsLineComment_front hstarts hle
    rw [← Text.takeWhile_front hle]
    exact .lineComment hfront
  | number hc =>
    subst hcs
    rw [← numberRest_front hle]
    exact .number hc
  | ident hword hdecimal =>
    subst hcs
    rw [← Text.takeWhile_front hle]
    exact .ident hword hdecimal
  | fixed hblock hline hheader hfixed =>
    subst hcs
    refine .fixed ?_ ?_ ?_ (fixed?_front hfixed hle)
    · exact Bool.eq_false_iff.mpr fun hw =>
        Bool.eq_false_iff.mp hblock (startsBlockComment_append_of_true hw x)
    · exact Bool.eq_false_iff.mpr fun hw =>
        Bool.eq_false_iff.mp hline (startsLineComment_append_of_true hw x)
    · intro hc
      cases hw : Heredoc.header? w with
      | none => rfl
      | some header =>
        have := Heredoc.header?_append hw x
        rw [hheader hc] at this
        cases this

/-- A lexeme is read again if text is put behind it at a line boundary, unless it is the first `<`
    of what becomes a heredoc header. -/
theorem read_append {c : Char} {l : Lexeme} (h : read c w = .ok l)
    (hb : Text.LineEnds (c :: w) y) (hopens : c = '<' → Heredoc.opens w = false) :
    read c (w ++ y) = .ok l := by
  refine read_eq_ok_iff.mpr ?_
  have hb' : c ≠ '\n' → Text.LineEnds w y := hb.tail
  have hparted : Text.LineEnds w y → Text.PartedBy breaks w y := fun hw =>
    (Text.lineEnds_iff.mp hw).mono (by simp [breaks])
  cases read_eq_ok_iff.mp h with
  | string hc hsize => exact .string hc (size_append hsize y)
  | blockComment hstarts hsize =>
    have hone : 1 ≤ w.length := by
      unfold startsBlockComment at hstarts
      rw [Bool.and_eq_true, List.isPrefixOf_iff_prefix] at hstarts
      exact hstarts.2.length_le
    refine .blockComment (startsBlockComment_append_of_true hstarts y) ?_
    rw [List.drop_append_of_le_length hone]
    exact commentSize?_append hsize y
  | @heredoc header n hc hheader hbody =>
    have hmarker := Heredoc.marker_ne_nil_of_header? hheader
    have hbelow : w.drop header.size ≠ [] := by
      intro hnil
      rw [hnil, Heredoc.bodySize?_nil hmarker] at hbody
      cases hbody
    have hle : header.size ≤ w.length := by
      rw [ne_eq, List.drop_eq_nil_iff] at hbelow
      omega
    have hw : Text.LineEnds (w.take header.size ++ w.drop header.size) y := by
      rw [List.take_append_drop]
      exact hb' (by rw [hc]; decide)
    refine .heredoc hc (Heredoc.header?_append hheader y) ?_
    rw [List.drop_append_of_le_length hle]
    exact Heredoc.bodySize?_append hmarker (hw.suffix hbelow) hbody
  | lineFeed hc => exact .lineFeed hc
  | returnFeed hc hreturn =>
    subst hreturn
    exact .returnFeed hc rfl
  | lineComment hstarts =>
    have hw : Text.LineEnds w y := by
      refine hb' ?_
      rintro rfl
      cases hstarts
    rw [← Text.takeWhile_append (by decide) hw]
    exact .lineComment (startsLineComment_append_of_true hstarts y)
  | number hc =>
    have hw : Text.LineEnds w y := hb' (ne_of_isDecimal hc).2.2.2.2.1
    rw [← numberRest_append (hparted hw)]
    exact .number hc
  | ident hword hdecimal =>
    have hw : Text.LineEnds w y := hb' (ne_of_isWord hword).2.2.2.2.1
    rw [← Text.takeWhile_append (by decide) hw]
    exact .ident hword hdecimal
  | fixed hblock hline hheader hfixed =>
    have hw : Text.LineEnds w y := hb' (ne_of_fixed? hfixed).2.1
    refine .fixed ?_ ?_ ?_ ((fixed?_append (hparted hw)).trans hfixed)
    · rw [startsBlockComment_append hw, hblock]
    · rw [startsLineComment_append hw, hline]
    · intro hc
      exact Heredoc.header?_append_of_none (hheader hc) hw (hopens hc)

end HclQuery.Lexeme
