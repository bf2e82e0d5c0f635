/-
  Lexemes in front of another text.

  A lexeme that stops in front of one text stops in front of another where the two are the same up
  to a blank or a comment in the other one, and where a line that ends in one ends in the other
  (`StopsAlike`): `read_of_stopsAlike`. Nothing is asked of what was behind the lexeme where a blank
  comes to stand.
-/
import HclQuery.Proofs.Token.Cutting

namespace HclQuery.Lexeme

/-- Characters that end the lexeme before them: blanks, and those that start comments. -/
def stops : List Char :=
  [' ', '\t', '#', '/']

theorem mem_breaks_of_mem_stops {c : Char} (h : c ∈ stops) : c ∈ breaks := by
  have hall : stops.all (· ∈ breaks) = true := by decide
  simpa using List.all_eq_true.mp hall c h

/-- Whatever lexeme stops in front of `x` stops in front of `y`. Up to a stop in `y` they are the
    same, and if that may start a comment it stands in both; and where a line ends in front of `x`,
    with carriage returns or without, it ends in front of `y`. -/
structure StopsAlike (x y : Text) : Prop where
  eq_nil : x = [] → y = []
  upToStop : ∃ v x' y', x = v ++ x' ∧ y = v ++ y' ∧
    ∀ c ∈ y'.head?, c ∈ stops ∧ (c = '/' → x'.head? = some c)
  inside : x.takeWhile insideLine = [] → y.takeWhile insideLine = []
  returns : (∀ c ∈ x.takeWhile (· ≠ '\n'), c = '\r') → ∀ c ∈ y.takeWhile (· ≠ '\n'), c = '\r'

variable {c : Char} {w v x y : Text} {kind : TokenKind}

/-! ## Fixed spellings in front of a stop -/

theorem startsBlockComment_stop (h : startsBlockComment c (w ++ x) = false)
    (hparted : Text.PartedBy breaks w y) : startsBlockComment c (w ++ y) = false := by
  have hfree : ∀ d ∈ ['*'], d ∉ breaks := by simp [breaks]
  have hfront : startsBlockComment c w = false :=
    Bool.eq_false_iff.mpr fun hw =>
      Bool.eq_false_iff.mp h (startsBlockComment_append_of_true hw x)
  rwa [startsBlockComment, hparted.isPrefixOf_append hfree]

/-- A slash in front of a stop is the start of a line comment if it was one before. -/
theorem startsLineComment_stop (h : startsLineComment c (w ++ x) = false)
    (hslash : y.head? = some '/' → x.head? = some '/') :
    startsLineComment c (w ++ y) = false := by
  have hfront : startsLineComment c w = false :=
    Bool.eq_false_iff.mpr fun hw =>
      Bool.eq_false_iff.mp h (startsLineComment_append_of_true hw x)
  cases w with
  | nil =>
    refine Bool.eq_false_iff.mpr fun hy => Bool.eq_false_iff.mp h ?_
    unfold startsLineComment at hy ⊢
    simp only [List.nil_append, Bool.or_eq_true, Bool.and_eq_true, List.isPrefixOf_iff_prefix]
      at hy ⊢
    refine hy.imp_right fun hy => ⟨hy.1, ?_⟩
    obtain ⟨-, rest, rfl⟩ := hy
    obtain ⟨more, rfl⟩ := List.head?_eq_some_iff.mp (hslash rfl)
    exact ⟨more, rfl⟩
  | cons d w => exact hfront

/-- No header reaches over a stop. -/
theorem header?_stop (h : Heredoc.header? (w ++ x) = none) (hparted : Text.PartedBy stops w y) :
    Heredoc.header? (w ++ y) = none := by
  cases hy : Heredoc.header? (w ++ y) with
  | none => rfl
  | some header =>
    obtain ⟨front, below, hspells, hshape, -⟩ := Heredoc.spells_of_header? hy
    have hfront : front <+: w :=
      hparted.prefix_left (fun d hd hstop => hspells.not_mem hstop hd) ⟨below, hshape.symm⟩
    obtain ⟨more, rfl⟩ := hfront
    rw [List.append_assoc, Heredoc.header?_of_spells hspells] at h
    cases h

/-! ## Lexemes -/

/-- A lexeme that stops in front of a text stops in front of one that stops it alike. -/
theorem read_of_stopsAlike (h : read c (w ++ x) = .ok ⟨kind, w.length⟩) (hxy : StopsAlike x y) :
    read c (w ++ y) = .ok ⟨kind, w.length⟩ := by
  refine read_eq_ok_iff.mpr ?_
  have hreads := read_eq_ok_iff.mp h
  obtain ⟨v, x', y', rfl, rfl, hstop⟩ := hxy.upToStop
  have hparted : Text.PartedBy stops (w ++ v) y' := Or.inr fun d hd => (hstop d hd).1
  have hbreaks : Text.PartedBy breaks (w ++ v) y' :=
    hparted.mono fun d hd => mem_breaks_of_mem_stops hd
  have hle : w.length ≤ (w ++ v).length := by
    rw [List.length_append]
    exact Nat.le_add_right _ _
  generalize hl : Lexeme.mk kind w.length = l at hreads ⊢
  have hlen : w.length = l.more := congrArg Lexeme.more hl
  cases hreads with
  | string hc hsize => exact .string hc (size_append (size_front hsize hlen.ge) _)
  | blockComment hstarts hsize =>
    dsimp only at hlen
    rw [← hlen]
    obtain ⟨said, rfl, rfl, hsaid⟩ := exists_said_of_block hstarts hsize hlen
    exact reads_block hsaid _
  | @heredoc header n hc hheader hbody =>
    dsimp only at hlen
    have hsize : header.size ≤ w.length := by omega
    rw [List.drop_append_of_le_length hsize] at hbody
    obtain rfl : n = (w.drop header.size).length := by rw [List.length_drop]; omega
    refine .heredoc hc (Heredoc.header?_append (Heredoc.header?_front hheader hsize) _) ?_
    rw [List.drop_append_of_le_length hsize]
    exact Heredoc.bodySize?_append_returns (Heredoc.bodySize?_front hbody (Nat.le_refl _))
      (hxy.returns (Heredoc.returns_of_bodySize? hbody))
  | lineFeed hc => exact .lineFeed hc
  | returnFeed hc hcs =>
    cases w with
    | nil => cases hlen
    | cons d w =>
      obtain ⟨rfl, -⟩ := List.cons.inj hcs
      exact .returnFeed hc rfl
  | lineComment hstarts =>
    obtain ⟨hall, hend⟩ := Text.takeWhile_whole hlen
    have hrun : (w ++ (v ++ y')).takeWhile insideLine = (w ++ (v ++ x')).takeWhile insideLine := by
      rw [List.takeWhile_append_of_pos hall, List.takeWhile_append_of_pos hall, hend,
        hxy.inside hend]
    rw [← hrun]
    have hfront := startsLineComment_front hstarts hlen.ge
    exact .lineComment (startsLineComment_append_of_true hfront _)
  | number hc =>
    dsimp only at hlen
    rw [← List.append_assoc] at hlen ⊢
    have hsize : numberRest (w ++ v ++ x') = numberRest (w ++ v ++ y') := by
      rw [numberRest_append hbreaks]
      exact (numberRest_front (by rw [← hlen]; exact hle)).symm
    rw [← List.append_assoc, hsize]
    exact .number hc
  | ident hword hdecimal =>
    dsimp only at hlen
    rw [← List.append_assoc] at hlen ⊢
    have hname : (w ++ v ++ x').takeWhile Heredoc.continuesName =
        (w ++ v ++ y').takeWhile Heredoc.continuesName := by
      rw [hbreaks.takeWhile_append (forall_mem_breaks.mpr (by decide))]
      exact (Text.takeWhile_front (by rw [← hlen]; exact hle)).symm
    rw [← List.append_assoc, hname]
    exact .ident hword hdecimal
  | fixed hblock hline hheader hfixed =>
    rw [← List.append_assoc] at hblock hline hheader hfixed ⊢
    refine .fixed (startsBlockComment_stop hblock hbreaks) (startsLineComment_stop hline ?_)
      (fun hc => header?_stop (hheader hc) hparted) ?_
    · intro hslash
      exact (hstop '/' hslash).2 rfl
    · rw [fixed?_append hbreaks]
      exact fixed?_front hfixed (by rw [← hlen]; exact hle)

end HclQuery.Lexeme
