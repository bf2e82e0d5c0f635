/-
  Where numbers end: digits, a fraction, an exponent, each a run that no break is part of.
-/
import HclQuery.Proofs.Text.Lines
import HclQuery.Token.Lexeme

namespace HclQuery.Lexeme

variable {w x y : Text}

/-- Characters that are no part of a number, a name, or a fixed spelling after its first one. -/
def breaks : List Char :=
  ['\n', '\r', ' ', '\t', '#', '/']

theorem forall_mem_breaks {p : Char → Prop} :
    (∀ c ∈ breaks, p c) ↔ p '\n' ∧ p '\r' ∧ p ' ' ∧ p '\t' ∧ p '#' ∧ p '/' := by
  simp [breaks]

/-! ## Digits and fractions -/

theorem digits_front (h : digits (w ++ x) ≤ w.length) : digits w = digits (w ++ x) := by
  unfold digits at h ⊢
  rw [Text.takeWhile_front h]

theorem digits_append (hb : Text.PartedBy breaks w y) : digits (w ++ y) = digits w := by
  unfold digits
  rw [hb.takeWhile_append (forall_mem_breaks.mpr (by decide))]

theorem not_mem_breaks_of_isDecimal {c : Char} (h : Unicode.isDecimal c = true) : c ∉ breaks := by
  intro hc
  have hbreaks : ∀ d ∈ breaks, Unicode.isDecimal d = false := forall_mem_breaks.mpr (by decide)
  rw [hbreaks c hc] at h
  cases h

theorem isDecimal_of_mem_digits {t : Text} {c : Char} (h : c ∈ t.take (digits t)) :
    Unicode.isDecimal c = true := by
  have hpre := List.prefix_iff_eq_take.mp (List.takeWhile_prefix Unicode.isDecimal (l := t))
  rw [digits, ← hpre] at h
  exact List.all_eq_true.mp List.all_takeWhile c h

theorem fractionSize_front (h : fractionSize (w ++ x) ≤ w.length) :
    fractionSize w = fractionSize (w ++ x) := by
  cases w with
  | nil => exact (Nat.le_zero.mp h).symm
  | cons c w =>
    by_cases hc : c = '.'
    · subst hc
      simp only [List.cons_append, fractionSize, List.length_cons] at h ⊢
      have hsame : digits w = digits (w ++ x) := by
        refine digits_front ?_
        split at h <;> omega
      rw [hsame]
    · simp [fractionSize, hc]

theorem fractionSize_append (hb : Text.PartedBy breaks w y) :
    fractionSize (w ++ y) = fractionSize w := by
  cases w with
  | nil =>
    rcases hb with ⟨c, hc, -⟩ | hb
    · cases hc
    · cases y with
      | nil => rfl
      | cons c y =>
        have hbreaks : ∀ d ∈ breaks, d ≠ '.' := forall_mem_breaks.mpr (by decide)
        have hc := hbreaks c (hb c rfl)
        simp [fractionSize, hc]
  | cons c w =>
    by_cases hc : c = '.'
    · subst hc
      simp only [List.cons_append, fractionSize]
      rw [digits_append (hb.tail (by decide))]
    · simp [fractionSize, hc]

theorem fractionSize_le (t : Text) : fractionSize t ≤ t.length := by
  cases t with
  | nil => exact Nat.le_refl 0
  | cons c t =>
    by_cases hc : c = '.'
    · subst hc
      have : digits t ≤ t.length := (List.takeWhile_prefix _).length_le
      simp only [fractionSize, List.length_cons]
      split <;> omega
    · simp [fractionSize, hc]

theorem mem_take_fractionSize {t : Text} {d : Char} (h : d ∈ t.take (fractionSize t)) :
    d = '.' ∨ Unicode.isDecimal d = true := by
  cases t with
  | nil => cases h
  | cons c t =>
    by_cases hc : c = '.'
    · subst hc
      simp only [fractionSize] at h
      split at h
      · simp at h
      · rw [Nat.add_comm, List.take_succ_cons] at h
        rcases List.mem_cons.mp h with h | h
        · exact Or.inl h
        · exact Or.inr (isDecimal_of_mem_digits h)
    · simp [fractionSize, hc] at h

/-! ## Exponents -/

theorem exponentSize_of_not_letter {c : Char} (hc : ¬ (c = 'e' ∨ c = 'E')) (cs : Text) :
    exponentSize (c :: cs) = 0 := by
  rw [not_or] at hc
  simp [exponentSize, hc.1, hc.2]

/-- The size of the sign of an exponent. -/
def signSize (cs : Text) : Nat :=
  if ['+'].isPrefixOf cs || ['-'].isPrefixOf cs then 1 else 0

theorem exponentSize_of_letter {c : Char} (hc : c = 'e' ∨ c = 'E') (cs : Text) :
    exponentSize (c :: cs) =
      if digits (cs.drop (signSize cs)) = 0 then 0
      else 1 + signSize cs + digits (cs.drop (signSize cs)) := by
  rcases hc with rfl | rfl <;> simp [exponentSize, signSize]

theorem signSize_le (cs : Text) : signSize cs ≤ 1 ∧ signSize cs ≤ cs.length := by
  unfold signSize
  split
  · rename_i h
    rw [Bool.or_eq_true, List.isPrefixOf_iff_prefix, List.isPrefixOf_iff_prefix] at h
    rcases h with h | h <;> exact ⟨Nat.le_refl _, h.length_le⟩
  · exact ⟨Nat.zero_le _, Nat.zero_le _⟩

theorem mem_take_signSize {cs : Text} {d : Char} (h : d ∈ cs.take (signSize cs)) :
    d = '+' ∨ d = '-' := by
  unfold signSize at h
  split at h
  · rename_i hsign
    rw [Bool.or_eq_true, List.isPrefixOf_iff_prefix, List.isPrefixOf_iff_prefix] at hsign
    rcases hsign with ⟨ds, rfl⟩ | ⟨ds, rfl⟩
    · exact Or.inl (by simpa using h)
    · exact Or.inr (by simpa using h)
  · simp at h

theorem exponentSize_front (h : exponentSize (w ++ x) ≤ w.length) :
    exponentSize w = exponentSize (w ++ x) := by
  cases w with
  | nil => exact (Nat.le_zero.mp h).symm
  | cons c w =>
    by_cases hc : c = 'e' ∨ c = 'E'
    · rw [List.cons_append] at h ⊢
      rw [exponentSize_of_letter hc] at h ⊢
      rw [exponentSize_of_letter hc]
      cases w with
      | nil =>
        rw [List.nil_append] at h ⊢
        simp only [List.length_cons, List.length_nil] at h
        split at h
        · rename_i hnone
          rw [if_pos hnone]
          rfl
        · omega
      | cons d w =>
        have hsign : signSize (d :: w) = signSize (d :: w ++ x) := by
          have hplus := Text.isPrefixOf_front (e := ['+']) (w := d :: w) x (by simp)
          have hminus := Text.isPrefixOf_front (e := ['-']) (w := d :: w) x (by simp)
          rw [signSize, signSize, hplus, hminus]
        obtain ⟨-, hle⟩ := signSize_le (d :: w)
        rw [← hsign, List.drop_append_of_le_length hle] at h ⊢
        have hsame : digits ((d :: w).drop (signSize (d :: w))) =
            digits ((d :: w).drop (signSize (d :: w)) ++ x) := by
          refine digits_front ?_
          rw [List.length_drop]
          simp only [List.length_cons] at h hle ⊢
          split at h <;> omega
        rw [hsame]
    · rw [List.cons_append, exponentSize_of_not_letter hc, exponentSize_of_not_letter hc]

theorem exponentSize_append (hb : Text.PartedBy breaks w y) :
    exponentSize (w ++ y) = exponentSize w := by
  cases w with
  | nil =>
    rcases hb with ⟨c, hc, -⟩ | hb
    · cases hc
    · cases y with
      | nil => rfl
      | cons c y =>
        have hbreaks : ∀ d ∈ breaks, ¬ (d = 'e' ∨ d = 'E') := forall_mem_breaks.mpr (by decide)
        exact exponentSize_of_not_letter (hbreaks c (hb c rfl)) y
  | cons c w =>
    rw [List.cons_append]
    by_cases hc : c = 'e' ∨ c = 'E'
    · have hb' : Text.PartedBy breaks w y := by
        refine hb.tail ?_
        rcases hc with rfl | rfl <;> decide
      have hsign : signSize (w ++ y) = signSize w := by
        unfold signSize
        rw [hb'.isPrefixOf_append (by simp [breaks]), hb'.isPrefixOf_append (by simp [breaks])]
      have hdrop : Text.PartedBy breaks (w.drop (signSize w)) y := by
        refine hb'.drop fun d hd => ?_
        rcases mem_take_signSize hd with rfl | rfl <;> decide
      rw [exponentSize_of_letter hc, exponentSize_of_letter hc, hsign,
        List.drop_append_of_le_length (signSize_le w).2, digits_append hdrop]
    · rw [exponentSize_of_not_letter hc, exponentSize_of_not_letter hc]

/-! ## Whole numbers -/

theorem numberRest_eq (t : Text) :
    numberRest t = digits t + fractionSize (t.drop (digits t)) +
      exponentSize ((t.drop (digits t)).drop (fractionSize (t.drop (digits t)))) := by
  rw [numberRest, List.drop_drop]

theorem numberRest_front (h : numberRest (w ++ x) ≤ w.length) :
    numberRest w = numberRest (w ++ x) := by
  rw [numberRest_eq] at h ⊢
  rw [numberRest_eq]
  have hwhole : digits w = digits (w ++ x) := digits_front (by omega)
  rw [← hwhole] at h ⊢
  rw [List.drop_append_of_le_length (by omega)] at h ⊢
  have hfraction : fractionSize (w.drop (digits w)) = fractionSize (w.drop (digits w) ++ x) :=
    fractionSize_front (by rw [List.length_drop]; omega)
  rw [← hfraction] at h ⊢
  rw [List.drop_append_of_le_length (fractionSize_le _)] at h ⊢
  rw [exponentSize_front]
  rw [List.length_drop, List.length_drop]
  omega

theorem numberRest_append (hb : Text.PartedBy breaks w y) : numberRest (w ++ y) = numberRest w := by
  have hle : digits w ≤ w.length := (List.takeWhile_prefix _).length_le
  have hwhole : Text.PartedBy breaks (w.drop (digits w)) y :=
    hb.drop fun d hd => not_mem_breaks_of_isDecimal (isDecimal_of_mem_digits hd)
  have hfraction : Text.PartedBy breaks
      ((w.drop (digits w)).drop (fractionSize (w.drop (digits w)))) y := by
    refine hwhole.drop fun d hd => ?_
    rcases mem_take_fractionSize hd with rfl | hdecimal
    · decide
    · exact not_mem_breaks_of_isDecimal hdecimal
  rw [numberRest_eq, numberRest_eq, digits_append hb, List.drop_append_of_le_length hle,
    fractionSize_append hwhole, List.drop_append_of_le_length (fractionSize_le _),
    exponentSize_append hfraction]

end HclQuery.Lexeme
