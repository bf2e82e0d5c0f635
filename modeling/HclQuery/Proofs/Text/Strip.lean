/-
  Stripping blanks off the ends of a text.

  Blanks at either end make no difference to what stripping leaves (`strip_blank_append`,
  `strip_append_blank`).
-/
import HclQuery.Text.Basic

namespace HclQuery.Text

/-! ## The end of a text -/

theorem dropEndWhile_append_of_all {p : Char → Bool} {t u : Text} (h : ∀ c ∈ u, p c = true) :
    dropEndWhile p (t ++ u) = dropEndWhile p t := by
  unfold dropEndWhile
  rw [List.reverse_append, List.dropWhile_append_of_pos]
  intro c hc
  exact h c (List.mem_reverse.mp hc)

theorem dropEndWhile_append_of_not {p : Char → Bool} {t u : Text} {c : Char}
    (h : u.getLast? = some c) (hc : p c = false) : dropEndWhile p (t ++ u) = t ++ u := by
  obtain ⟨u, rfl⟩ := List.getLast?_eq_some_iff.mp h
  simp [dropEndWhile, hc]

/-- What stands before a character that is kept is kept. -/
theorem dropEndWhile_append_of_exists {p : Char → Bool} (t : Text) {u : Text}
    (h : ∃ c ∈ u, p c = false) : dropEndWhile p (t ++ u) = t ++ dropEndWhile p u := by
  obtain ⟨c, hmem, hc⟩ := h
  unfold dropEndWhile
  rw [List.reverse_append, List.dropWhile_append]
  split
  · rename_i hnil
    have hsplit := List.takeWhile_append_dropWhile (p := p) (l := u.reverse)
    rw [List.isEmpty_iff.mp hnil, List.append_nil] at hsplit
    have hall := List.all_eq_true.mp (List.all_takeWhile (p := p) (l := u.reverse))
    rw [hsplit] at hall
    have := hall c (List.mem_reverse.mpr hmem)
    rw [hc] at this
    cases this
  · rw [List.reverse_append, List.reverse_reverse]

/-- What is dropped at the end is a run of `p`. -/
theorem exists_dropEndWhile_append (p : Char → Bool) (t : Text) :
    ∃ u, t = dropEndWhile p t ++ u ∧ ∀ c ∈ u, p c = true := by
  refine ⟨(t.reverse.takeWhile p).reverse, ?_, ?_⟩
  · unfold dropEndWhile
    rw [← List.reverse_append, List.takeWhile_append_dropWhile, List.reverse_reverse]
  · intro c hc
    exact List.all_eq_true.mp List.all_takeWhile c (List.mem_reverse.mp hc)

/-- What is left has no `p` at its end. -/
theorem getLast?_dropEndWhile {p : Char → Bool} {t : Text} {c : Char}
    (h : (dropEndWhile p t).getLast? = some c) : p c = false := by
  have hstop := List.head?_dropWhile_not p t.reverse
  rw [dropEndWhile, List.getLast?_reverse] at h
  rw [h] at hstop
  exact hstop

theorem dropEndWhile_ne_nil {p : Char → Bool} {t : Text} (h : ∃ c ∈ t, p c = false) :
    dropEndWhile p t ≠ [] := by
  intro hnil
  obtain ⟨c, hmem, hc⟩ := h
  obtain ⟨u, ht, hall⟩ := exists_dropEndWhile_append p t
  rw [hnil, List.nil_append] at ht
  have := hall c (ht ▸ hmem)
  rw [hc] at this
  cases this

theorem length_dropEndWhile_le (p : Char → Bool) (t : Text) :
    (dropEndWhile p t).length ≤ t.length := by
  obtain ⟨u, hu, -⟩ := exists_dropEndWhile_append p t
  have := congrArg List.length hu
  rw [List.length_append] at this
  omega

/-- If nothing is left of the second part, dropping at its end is dropping at the end of the
    first. -/
theorem dropEndWhile_front {p : Char → Bool} {t u : Text}
    (h : (dropEndWhile p (t ++ u)).length ≤ t.length) :
    dropEndWhile p t = dropEndWhile p (t ++ u) ∧ ∀ c ∈ u, p c = true := by
  obtain ⟨dropped, hdropped, hall⟩ := exists_dropEndWhile_append p (t ++ u)
  have hsuffix : u <:+ dropped := by
    refine List.suffix_of_suffix_length_le (List.suffix_append t u) ⟨_, hdropped.symm⟩ ?_
    have := congrArg List.length hdropped
    rw [List.length_append, List.length_append] at this
    omega
  have hu : ∀ c ∈ u, p c = true := fun c hc => hall c (hsuffix.subset hc)
  exact ⟨(dropEndWhile_append_of_all hu).symm, hu⟩

/-! ## Both ends -/

@[simp] theorem strip_nil : strip [] = [] := rfl

theorem strip_blank_append {t u : Text} (h : ∀ c ∈ t, Unicode.isBlank c = true) :
    strip (t ++ u) = strip u := by
  unfold strip
  rw [List.dropWhile_append_of_pos h]

theorem strip_append_blank {t u : Text} (h : ∀ c ∈ u, Unicode.isBlank c = true) :
    strip (t ++ u) = strip t := by
  unfold strip
  rw [List.dropWhile_append]
  split
  · rename_i hall
    rw [List.isEmpty_iff.mp hall]
    have := strip_blank_append (u := []) h
    simpa [strip] using this
  · exact dropEndWhile_append_of_all h

/-- At a character that is not blank only the end is stripped. -/
theorem strip_cons {c : Char} (hc : Unicode.isBlank c = false) (t : Text) :
    strip (c :: t) = dropEndWhile Unicode.isBlank (c :: t) := by
  rw [strip, List.dropWhile_cons_of_neg (by rw [hc]; simp)]

theorem isBlank_space : Unicode.isBlank ' ' = true := by decide

theorem isBlank_return : Unicode.isBlank '\r' = true := by decide

theorem isBlank_lineFeed : Unicode.isBlank '\n' = true := by decide

end HclQuery.Text
