/-
  What tokens look like at their ends.

  A token stands behind spaces and tabs only. The text of a line end is blank; the text of any
  other token starts with a character that is not blank, and ends with one unless the token is a
  comment or a heredoc (`Cuts.mem`, `Lexeme.isBlank_head`, `Lexeme.isBlank_last`). So stripping a
  value takes nothing away from its tokens but blanks at the end of a heredoc.
-/
import HclQuery.Proofs.Text.Strip
import HclQuery.Proofs.Token.Cutting

namespace HclQuery

/-! ## Blanks are in no word -/

namespace Unicode

/-- A set of characters that has no blank among ASCII, and none in its ranges, has none. -/
theorem isBlank_of_classify {ascii : Char → Bool} {ranges : List (Nat × Nat)} {c : Char}
    (hascii : ∀ n < 0x80, ascii (Char.ofNat n) = true → isBlank (Char.ofNat n) = false)
    (hranges : ∀ r ∈ ranges, ∀ s ∈ blankRanges, r.2 < s.1 ∨ s.2 < r.1)
    (h : classify ascii ranges c = true) : isBlank c = false := by
  unfold classify at h
  split at h
  · rename_i hc
    rw [← Char.ofNat_toNat c] at h ⊢
    exact hascii _ hc h
  · rename_i hc
    unfold inRanges at h
    rw [isBlank, classify, if_neg hc, inRanges, List.any_eq_false]
    obtain ⟨r, hr, hcr⟩ := List.any_eq_true.mp h
    intro s hs hcs
    simp only [Bool.and_eq_true, decide_eq_true_eq] at hcr hcs
    have := hranges r hr s hs
    omega

theorem isBlank_of_isDecimal {c : Char} (h : isDecimal c = true) : isBlank c = false :=
  isBlank_of_classify (by decide) (by decide +kernel) h

theorem isBlank_of_isWord {c : Char} (h : isWord c = true) : isBlank c = false := by
  unfold isWord at h
  rw [Bool.or_eq_true] at h
  rcases h with h | h
  · rw [beq_iff_eq] at h
    subst h
    decide
  · exact isBlank_of_classify (by decide) (by decide +kernel) h

theorem isBlank_of_continuesName {c : Char} (h : Heredoc.continuesName c = true) :
    isBlank c = false := by
  unfold Heredoc.continuesName at h
  rw [Bool.or_eq_true, decide_eq_true_eq] at h
  rcases h with rfl | h
  · decide
  · exact isBlank_of_isWord h

theorem isBlank_of_isLeading {c : Char} (h : Token.isLeading c = true) : isBlank c = true := by
  unfold Token.isLeading at h
  rw [Bool.or_eq_true, decide_eq_true_eq, decide_eq_true_eq] at h
  rcases h with rfl | rfl
  · decide
  · decide

end Unicode

/-! ## The last character of a string -/

namespace Quoted

/-- The character that closes the frame. -/
def Frame.closing : Frame → Char
  | quote => '"'
  | brace => '}'

theorem eq_closing_of_leave {frame : Frame} {c : Char} {cs : Text}
    (h : frame.step c cs = some .leave) : c = frame.closing := by
  cases frame with
  | quote => exact eq_quote_of_stepInString_leave h
  | brace =>
    unfold Frame.step stepInTemplate at h
    grind [Frame.closing]

/-- What closes all the open frames closes the outermost of them. -/
theorem getLast?_extent {skip : Nat} {frame : Frame} {outer : List Frame} {t : Text} {n : Nat}
    (h : extent skip frame outer t = .ok n) :
    (t.take n).getLast? = some ((frame :: outer).getLast (List.cons_ne_nil _ _)).closing := by
  induction t generalizing skip frame outer n with
  | nil => cases h
  | cons c cs ih =>
    have step : ∀ {more : Nat} {f : Frame} {fs : List Frame},
        (extent more f fs cs).map (· + 1) = .ok n →
          ((c :: cs).take n).getLast? =
            some ((f :: fs).getLast (List.cons_ne_nil _ _)).closing := by
      intro more f fs h
      obtain ⟨m, hm, rfl⟩ := Except.map_eq_ok_iff.mp h
      rw [List.take_succ_cons, List.getLast?_cons, ih hm]
      rfl
    unfold extent at h
    cases skip with
    | succ skip => exact step h
    | zero =>
      dsimp only at h
      split at h
      · cases h
      · exact step h
      · rw [step h, List.getLast_cons (List.cons_ne_nil _ _)]
      · rename_i hleave
        split at h
        · cases h
          rw [eq_closing_of_leave hleave]
          rfl
        · rw [step h, List.getLast_cons (List.cons_ne_nil _ _)]

end Quoted

/-! ## Lexemes -/

namespace Lexeme

theorem isBlank_of_mem_exponent {t : Text} {d : Char} (h : d ∈ t.take (exponentSize t)) :
    Unicode.isBlank d = false := by
  cases t with
  | nil => cases h
  | cons c cs =>
    by_cases hc : c = 'e' ∨ c = 'E'
    · rw [exponentSize_of_letter hc] at h
      split at h
      · simp at h
      · rw [Nat.add_assoc, Nat.add_comm 1, List.take_succ_cons, List.take_add,
          List.mem_cons, List.mem_append] at h
        rcases h with rfl | h | h
        · rcases hc with rfl | rfl <;> decide
        · rcases mem_take_signSize h with rfl | rfl <;> decide
        · exact Unicode.isBlank_of_isDecimal (isDecimal_of_mem_digits h)
    · rw [exponentSize_of_not_letter hc] at h
      simp at h

theorem isBlank_of_mem_number {t : Text} {d : Char} (h : d ∈ t.take (numberRest t)) :
    Unicode.isBlank d = false := by
  rw [numberRest_eq, List.take_add, List.take_add, List.mem_append, List.mem_append] at h
  rcases h with (h | h) | h
  · exact Unicode.isBlank_of_isDecimal (isDecimal_of_mem_digits h)
  · rcases mem_take_fractionSize h with rfl | h
    · decide
    · exact Unicode.isBlank_of_isDecimal h
  · rw [← List.drop_drop] at h
    exact isBlank_of_mem_exponent h

variable {c : Char} {cs : Text} {l : Lexeme}

/-- The text of a line end is blank. -/
theorem isBlank_of_newline (h : read c cs = .ok l) (hkind : l.kind = .newline) :
    ∀ d ∈ l.text c cs, Unicode.isBlank d = true := by
  rcases newline_of_read h hkind with ⟨rfl, hmore⟩ | ⟨rfl, below, rfl, hmore⟩
  · simp [text, hmore, Text.isBlank_lineFeed]
  · simp [text, hmore, Text.isBlank_lineFeed, Text.isBlank_return]

/-- Any other text starts with a character that is not blank. -/
theorem isBlank_head (h : read c cs = .ok l) (hkind : l.kind ≠ .newline) :
    Unicode.isBlank c = false := by
  cases read_eq_ok_iff.mp h with
  | string hc => rw [hc]; decide
  | blockComment hstarts =>
    unfold startsBlockComment at hstarts
    rw [Bool.and_eq_true, decide_eq_true_eq] at hstarts
    rw [hstarts.1]
    decide
  | heredoc hc => rw [hc]; decide
  | lineFeed => exact absurd rfl hkind
  | returnFeed => exact absurd rfl hkind
  | lineComment hstarts =>
    unfold startsLineComment at hstarts
    simp only [Bool.or_eq_true, Bool.and_eq_true, decide_eq_true_eq] at hstarts
    rcases hstarts with rfl | ⟨rfl, -⟩
    · decide
    · decide
  | number hc => exact Unicode.isBlank_of_isDecimal hc
  | ident hword => exact Unicode.isBlank_of_isWord hword
  | fixed _ _ _ hfixed =>
    have hfirst : ∀ s ∈ spellings, Unicode.isBlank s.1 = false := by decide
    obtain ⟨e, hmem, -⟩ := mem_spellings_of_fixed? hfixed
    exact hfirst _ hmem

/-- Only strings, comments, heredocs and line ends hold blanks. -/
theorem isBlank_of_mem (h : read c cs = .ok l) (hnewline : l.kind ≠ .newline)
    (hcomment : l.kind ≠ .comment) (hheredoc : l.kind ≠ .heredoc) (hstring : l.kind ≠ .string) :
    ∀ d ∈ l.text c cs, Unicode.isBlank d = false := by
  have hhead := isBlank_head h hnewline
  suffices hmore : ∀ d ∈ cs.take l.more, Unicode.isBlank d = false by
    intro d hd
    rcases List.mem_cons.mp hd with rfl | hd
    · exact hhead
    · exact hmore d hd
  cases read_eq_ok_iff.mp h with
  | string => exact absurd rfl hstring
  | blockComment => exact absurd rfl hcomment
  | heredoc => exact absurd rfl hheredoc
  | lineFeed => exact absurd rfl hnewline
  | returnFeed => exact absurd rfl hnewline
  | lineComment => exact absurd rfl hcomment
  | number hc => exact fun d => isBlank_of_mem_number
  | ident hword =>
    rw [← List.prefix_iff_eq_take.mp (List.takeWhile_prefix _)]
    intro d hd
    exact Unicode.isBlank_of_continuesName (List.all_eq_true.mp List.all_takeWhile d hd)
  | fixed _ _ _ hfixed =>
    have hall : ∀ s ∈ spellings, s.2.1.all (!Unicode.isBlank ·) = true := by decide
    obtain ⟨e, hmem, hlen, hpre⟩ := mem_spellings_of_fixed? hfixed
    rw [← hlen, ← List.prefix_iff_eq_take.mp hpre]
    intro d hd
    simpa using List.all_eq_true.mp (hall _ hmem) d hd

/-- A text that is neither a line end nor a comment nor a heredoc ends with a character that is
    not blank. -/
theorem isBlank_last (h : read c cs = .ok l) (hnewline : l.kind ≠ .newline)
    (hcomment : l.kind ≠ .comment) (hheredoc : l.kind ≠ .heredoc) {d : Char}
    (hd : (l.text c cs).getLast? = some d) : Unicode.isBlank d = false := by
  by_cases hstring : l.kind = .string
  · have hlast : _ = some '"' := Quoted.getLast?_extent (size_of_string h hstring).2
    rw [text, List.getLast?_cons, hlast] at hd
    obtain rfl : '"' = d := Option.some.inj hd
    decide
  · exact isBlank_of_mem h hnewline hcomment hheredoc hstring d (List.mem_of_getLast? hd)

/-- No text ends with a line feed but that of a line end. -/
theorem kind_of_lineFeed (h : read c cs = .ok l) (hlast : (l.text c cs).getLast? = some '\n') :
    l.kind = .newline := by
  by_contra hnewline
  have hhead := isBlank_head h hnewline
  by_cases hcomment : l.kind = .comment
  · rcases comment_of_read h hcomment with ⟨-, hmore⟩ | ⟨-, n, hsize, hmore⟩
    · rw [text, hmore, ← List.prefix_iff_eq_take.mp (List.takeWhile_prefix _)] at hlast
      rcases List.mem_cons.mp (List.mem_of_getLast? hlast) with hc | hmem
      · rw [← hc, Text.isBlank_lineFeed] at hhead
        cases hhead
      · exact absurd (List.all_eq_true.mp List.all_takeWhile _ hmem) (by decide)
    · rw [text, hmore, List.take_add, List.getLast?_cons, List.getLast?_append,
        getLast?_take_commentSize? hsize] at hlast
      cases hlast
  by_cases hheredoc : l.kind = .heredoc
  · obtain ⟨-, header, n, hheader, hbody, hmore⟩ := heredoc_of_read h hheredoc
    obtain ⟨d, hd, hne⟩ :=
      Heredoc.getLast?_take_bodySize? (Heredoc.marker_ne_nil_of_header? hheader) hbody
    rw [text, hmore, List.take_add, List.getLast?_cons, List.getLast?_append, hd] at hlast
    exact hne (Option.some.inj hlast)
  · have hblank := isBlank_last h hnewline hcomment hheredoc hlast
    rw [Text.isBlank_lineFeed] at hblank
    cases hblank

end Lexeme

/-! ## Tokens -/

namespace Token

/-- A token is the blanks at the end of the text, or a lexeme behind blanks. -/
theorem Cuts.mem {line : Int} {t : Text} {ts : List Token} (h : Cuts line t ts) {u : Token}
    (hu : u ∈ ts) :
    (∀ d ∈ u.leading, isLeading d = true) ∧
      ((u.kind = .newline ∧ u.text = []) ∨
        ∃ c cs l, Lexeme.read c cs = .ok l ∧ u.kind = l.kind ∧ u.text = l.text c cs) := by
  induction h with
  | done => cases hu
  | blanks hne hall =>
    obtain rfl := List.mem_singleton.mp hu
    exact ⟨hall, Or.inl ⟨rfl, rfl⟩⟩
  | lexeme hleading hc hread hrest ih =>
    rcases List.mem_cons.mp hu with rfl | hu
    · exact ⟨hleading, Or.inr ⟨_, _, _, hread, rfl, rfl⟩⟩
    · exact ih hu

variable {line : Int} {t : Text} {ts : List Token} {u : Token}

theorem Cuts.isBlank_leading (h : Cuts line t ts) (hu : u ∈ ts) :
    ∀ d ∈ u.leading, Unicode.isBlank d = true :=
  fun d hd => Unicode.isBlank_of_isLeading ((h.mem hu).1 d hd)

theorem Cuts.isBlank_of_newline (h : Cuts line t ts) (hu : u ∈ ts) (hkind : u.kind = .newline) :
    ∀ d ∈ u.text, Unicode.isBlank d = true := by
  rcases (h.mem hu).2 with ⟨-, htext⟩ | ⟨c, cs, l, hread, hkind', htext⟩
  · simp [htext]
  · rw [htext]
    exact Lexeme.isBlank_of_newline hread (by rw [← hkind', hkind])

/-- The text of a token that is no line end starts with a character that is not blank. -/
theorem Cuts.exists_head (h : Cuts line t ts) (hu : u ∈ ts) (hkind : u.kind ≠ .newline) :
    ∃ c cs, u.text = c :: cs ∧ Unicode.isBlank c = false := by
  rcases (h.mem hu).2 with ⟨hkind', -⟩ | ⟨c, cs, l, hread, hkind', htext⟩
  · exact absurd hkind' hkind
  · exact ⟨c, _, htext, Lexeme.isBlank_head hread (by rw [← hkind']; exact hkind)⟩

theorem Cuts.isBlank_last (h : Cuts line t ts) (hu : u ∈ ts) (hnewline : u.kind ≠ .newline)
    (hcomment : u.kind ≠ .comment) (hheredoc : u.kind ≠ .heredoc) {d : Char}
    (hd : u.text.getLast? = some d) : Unicode.isBlank d = false := by
  rcases (h.mem hu).2 with ⟨hkind', -⟩ | ⟨c, cs, l, hread, hkind', htext⟩
  · exact absurd hkind' hnewline
  · rw [hkind'] at hnewline hcomment hheredoc
    rw [htext] at hd
    exact Lexeme.isBlank_last hread hnewline hcomment hheredoc hd

/-- The tokens of a text that ends with a line feed, or is empty, all have texts, and the last of
    them is a line end. -/
theorem Cuts.of_lineFeed (h : Cuts line t ts) (hend : t = [] ∨ t.getLast? = some '\n') :
    (∀ u ∈ ts, u.text ≠ []) ∧ ∀ u ∈ ts.getLast?, u.kind = .newline := by
  induction h with
  | done => simp
  | @blanks line t hne hall =>
    rcases hend with rfl | hlast
    · exact absurd rfl hne
    · exact absurd (hall _ (List.mem_of_getLast? hlast)) (by decide)
  | @lexeme line leading cs c l ts hleading hc hread hrest ih =>
    have hlast : (l.text c cs ++ l.rest cs).getLast? = some '\n' := by
      rw [l.text_append_rest]
      rcases hend with hnil | hlast
      · simp at hnil
      · rw [List.getLast?_append_of_ne_nil _ (List.cons_ne_nil c cs)] at hlast
        exact hlast
    by_cases hnil : l.rest cs = []
    · have hts : ts = [] := by
        rw [hnil] at hrest
        exact hrest.eq_nil
      rw [hnil, List.append_nil] at hlast
      subst hts
      refine ⟨?_, ?_⟩
      · intro u hu
        rw [List.mem_singleton.mp hu]
        exact List.cons_ne_nil c _
      · intro u hu
        obtain rfl := Option.some.inj hu
        exact Lexeme.kind_of_lineFeed hread hlast
    · rw [List.getLast?_append_of_ne_nil _ hnil] at hlast
      obtain ⟨htexts, hlast'⟩ := ih (Or.inr hlast)
      have hts : ts ≠ [] := by
        rintro rfl
        exact hnil hrest.sourceOf_eq.symm
      refine ⟨?_, ?_⟩
      · intro u hu
        rcases List.mem_cons.mp hu with rfl | hu
        · exact List.cons_ne_nil c _
        · exact htexts u hu
      · rw [List.getLast?_cons_of_ne_nil hts]
        exact hlast'

end Token

end HclQuery
