/-
  Line breaks: one form for all of them, and texts with a carriage return before every line feed.

  `Unifies` says what it means to bring line breaks to one form, a character or a line break at a
  time, and `unifyBreaks` is the function that does it (`unifies_iff`). No carriage return is left
  (`Unifies.return_not_mem`).

  `crlf` puts carriage returns in. It goes through a text character by character, so it commutes
  with putting texts together, and because line breaks of either kind are blank, with stripping
  (`strip_crlf`). A scan that stops at both characters of a line break cannot tell the texts apart
  (`agreeUpTo_crlf`).
-/
import HclQuery.Proofs.Text.Lines
import HclQuery.Proofs.Text.Strip

namespace HclQuery.Text

/-! ## One form for line breaks -/

theorem unifyBreaks_cons {c : Char} (hc : c ≠ '\r') (t : Text) :
    unifyBreaks (c :: t) = c :: unifyBreaks t := by
  rw [unifyBreaks.eq_def]
  dsimp only
  rw [if_neg hc]

@[simp] theorem unifyBreaks_returnFeed (t : Text) :
    unifyBreaks ('\r' :: '\n' :: t) = '\n' :: unifyBreaks t := by
  rw [unifyBreaks, if_pos rfl]

theorem unifyBreaks_return {t : Text} (h : t.head? ≠ some '\n') :
    unifyBreaks ('\r' :: t) = '\n' :: unifyBreaks t := by
  rw [unifyBreaks.eq_def]
  dsimp only
  rw [if_pos rfl]
  split
  · exact absurd rfl h
  · rfl

/-- The second text is the first with a line feed for every line break: for a carriage return with
    the line feed after it, and for a carriage return alone. Every other character stays. -/
inductive Unifies : Text → Text → Prop where
  | nil : Unifies [] []
  | keep {c : Char} {t u : Text} (hc : c ≠ '\r') (h : Unifies t u) : Unifies (c :: t) (c :: u)
  | returnFeed {t u : Text} (h : Unifies t u) : Unifies ('\r' :: '\n' :: t) ('\n' :: u)
  | loneReturn {t u : Text} (hnext : t.head? ≠ some '\n') (h : Unifies t u) :
      Unifies ('\r' :: t) ('\n' :: u)

theorem unifies_unifyBreaks (t : Text) : Unifies t (unifyBreaks t) := by
  fun_induction unifyBreaks t with
  | case1 => exact .nil
  | case2 rest ih => exact .returnFeed ih
  | case3 rest hnext ih =>
    refine .loneReturn (fun hhead => ?_) ih
    obtain ⟨below, rfl⟩ := List.head?_eq_some_iff.mp hhead
    exact hnext below rfl
  | case4 c cs hc ih => exact .keep hc ih

theorem unifies_iff {t u : Text} : Unifies t u ↔ unifyBreaks t = u := by
  constructor
  · intro h
    induction h with
    | nil => rfl
    | keep hc _ ih => rw [unifyBreaks_cons hc, ih]
    | returnFeed _ ih => rw [unifyBreaks_returnFeed, ih]
    | loneReturn hnext _ ih => rw [unifyBreaks_return hnext, ih]
  · rintro rfl
    exact unifies_unifyBreaks t

/-- No carriage return is left. -/
theorem Unifies.return_not_mem {t u : Text} (h : Unifies t u) : '\r' ∉ u := by
  induction h with
  | nil => exact List.not_mem_nil
  | keep hc _ ih => exact List.not_mem_cons_of_ne_of_not_mem (Ne.symm hc) ih
  | returnFeed _ ih => exact List.not_mem_cons_of_ne_of_not_mem (by decide) ih
  | loneReturn _ _ ih => exact List.not_mem_cons_of_ne_of_not_mem (by decide) ih

/-! ## A carriage return before every line feed -/

/-- The text with a carriage return before every line feed. -/
def crlf (t : Text) : Text :=
  t.flatMap fun c => if c = '\n' then ['\r', '\n'] else [c]

@[simp] theorem crlf_nil : crlf [] = [] := rfl

@[simp] theorem crlf_lineFeed (t : Text) : crlf ('\n' :: t) = '\r' :: '\n' :: crlf t := rfl

theorem crlf_cons {c : Char} (hc : c ≠ '\n') (t : Text) : crlf (c :: t) = c :: crlf t := by
  simp [crlf, hc]

@[simp] theorem crlf_append (s t : Text) : crlf (s ++ t) = crlf s ++ crlf t := by
  simp [crlf]

/-- A text of one line stays as it is. -/
theorem crlf_eq_self {t : Text} (h : '\n' ∉ t) : crlf t = t := by
  induction t with
  | nil => rfl
  | cons c t ih =>
    rw [List.mem_cons, not_or] at h
    rw [crlf_cons (Ne.symm h.1), ih h.2]

theorem newlines_crlf (t : Text) : newlines (crlf t) = newlines t := by
  induction t with
  | nil => rfl
  | cons c t ih =>
    unfold newlines at ih ⊢
    by_cases hc : c = '\n'
    · subst hc
      rw [crlf_lineFeed, List.count_cons, List.count_cons, List.count_cons, ih]
      rfl
    · rw [crlf_cons hc, List.count_cons, List.count_cons, ih]

theorem getLast?_crlf (t : Text) : (crlf t).getLast? = t.getLast? := by
  rcases List.eq_nil_or_concat' t with rfl | ⟨u, c, rfl⟩
  · rfl
  · rw [crlf_append]
    by_cases hc : c = '\n'
    · subst hc
      rw [crlf_lineFeed, crlf_nil]
      simp
    · rw [crlf_cons hc, crlf_nil]
      simp

/-- Up to the first line break the texts are the same. -/
theorem agreeUpTo_crlf (t : Text) : AgreeUpTo ['\n', '\r'] t (crlf t) := by
  rcases exists_line t with hline | ⟨line, below, hline, rfl⟩
  · exact ⟨t, [], [], by simp, by rw [crlf_eq_self hline, List.append_nil], by simp, by simp⟩
  · refine ⟨line, '\n' :: below, '\r' :: '\n' :: crlf below, rfl, ?_, by simp, by simp⟩
    rw [crlf_append, crlf_eq_self hline, crlf_lineFeed]

/-! ## Stripping -/

section Blanks

variable {p : Char → Bool}

theorem forall_mem_crlf (hreturn : p '\r' = true) {t : Text} (h : ∀ c ∈ t, p c = true) :
    ∀ c ∈ crlf t, p c = true := by
  intro c hc
  obtain ⟨d, hd, hmem⟩ := List.mem_flatMap.mp hc
  have hpd := h d hd
  split at hmem
  · rename_i hfeed
    rw [hfeed] at hpd
    rcases List.mem_cons.mp hmem with rfl | hmem
    · exact hreturn
    · rw [List.mem_singleton.mp hmem, hpd]
  · rw [List.mem_singleton.mp hmem, hpd]

theorem dropWhile_crlf (hfeed : p '\n' = true) (hreturn : p '\r' = true) (t : Text) :
    (crlf t).dropWhile p = crlf (t.dropWhile p) := by
  induction t with
  | nil => rfl
  | cons c t ih =>
    by_cases hc : c = '\n'
    · subst hc
      rw [crlf_lineFeed, List.dropWhile_cons_of_pos hreturn, List.dropWhile_cons_of_pos hfeed,
        List.dropWhile_cons_of_pos hfeed, ih]
    · rw [crlf_cons hc, List.dropWhile_cons, List.dropWhile_cons]
      split
      · exact ih
      · rw [crlf_cons hc]

theorem dropEndWhile_crlf (hreturn : p '\r' = true) (t : Text) :
    dropEndWhile p (crlf t) = crlf (dropEndWhile p t) := by
  obtain ⟨dropped, ht, hall⟩ := exists_dropEndWhile_append p t
  have hlast : ∀ c, (dropEndWhile p t).getLast? = some c → p c = false := fun c =>
    getLast?_dropEndWhile
  generalize dropEndWhile p t = kept at ht hlast
  rw [ht, crlf_append, dropEndWhile_append_of_all (forall_mem_crlf hreturn hall)]
  cases hkept : kept.getLast? with
  | none =>
    rw [List.getLast?_eq_none_iff.mp hkept]
    rfl
  | some c =>
    exact dropEndWhile_append_of_not (t := []) ((getLast?_crlf kept).trans hkept) (hlast c hkept)

end Blanks

theorem strip_crlf (t : Text) : strip (crlf t) = crlf (strip t) := by
  unfold strip
  rw [dropWhile_crlf isBlank_lineFeed isBlank_return, dropEndWhile_crlf isBlank_return]

end HclQuery.Text
