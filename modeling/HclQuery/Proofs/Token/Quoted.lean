/-
  Where strings and templates end.

  The scan looks ahead by two characters, but what it finds out does not depend on what follows
  the string: `extent_take`.
-/
import HclQuery.Proofs.Text.Lines
import HclQuery.Token.Quoted

namespace HclQuery

theorem Except.map_eq_ok_iff {ε α β : Type} {f : α → β} {e : Except ε α} {b : β} :
    e.map f = .ok b ↔ ∃ a, e = .ok a ∧ f a = b := by
  cases e <;> simp [Except.map]

theorem Except.map_eq_error_iff {ε α β : Type} {f : α → β} {e : Except ε α} {fault : ε} :
    e.map f = .error fault ↔ e = .error fault := by
  cases e <;> simp [Except.map]

namespace Quoted

theorem extent_stay {frame : Frame} {outer : List Frame} {c : Char} {cs : Text} {more : Nat}
    (h : frame.step c cs = some (.stay more)) :
    extent 0 frame outer (c :: cs) = (extent more frame outer cs).map (· + 1) := by
  rw [extent.eq_def]
  simp only [h]

theorem extent_enter {frame inner : Frame} {outer : List Frame} {c : Char} {cs : Text}
    {more : Nat} (h : frame.step c cs = some (.enter more inner)) :
    extent 0 frame outer (c :: cs) = (extent more inner (frame :: outer) cs).map (· + 1) := by
  rw [extent.eq_def]
  simp only [h]

theorem extent_leave {frame next : Frame} {outer : List Frame} {c : Char} {cs : Text}
    (h : frame.step c cs = some .leave) :
    extent 0 frame (next :: outer) (c :: cs) = (extent 0 next outer cs).map (· + 1) := by
  rw [extent.eq_def]
  simp only [h]

theorem extent_close {frame : Frame} {c : Char} {cs : Text}
    (h : frame.step c cs = some .leave) : extent 0 frame [] (c :: cs) = .ok 1 := by
  rw [extent.eq_def]
  simp only [h]

theorem extent_none {frame : Frame} {outer : List Frame} {c : Char} {cs : Text}
    (h : frame.step c cs = none) :
    extent 0 frame outer (c :: cs) = .error .unterminatedQuoted := by
  rw [extent.eq_def]
  simp only [h]

theorem extent_pos {skip : Nat} {frame : Frame} {outer : List Frame} {t : Text} {n : Nat}
    (h : extent skip frame outer t = .ok n) : skip < n ∧ n ≤ t.length := by
  induction t generalizing skip frame outer n with
  | nil => cases h
  | cons c cs ih =>
    unfold extent at h
    cases skip with
    | succ skip =>
      obtain ⟨m, hm, rfl⟩ := Except.map_eq_ok_iff.mp h
      have := ih hm
      simp only [List.length_cons]
      omega
    | zero =>
      have step : ∀ {more : Nat} {f : Frame} {fs : List Frame},
          (extent more f fs cs).map (· + 1) = .ok n → 0 < n ∧ n ≤ (c :: cs).length := by
        intro more f fs h
        obtain ⟨m, hm, rfl⟩ := Except.map_eq_ok_iff.mp h
        have := ih hm
        simp only [List.length_cons]
        omega
      dsimp only at h
      split at h
      · cases h
      · exact step h
      · exact step h
      · split at h
        · cases h
          simp
        · exact step h

theorem more_of_stepInString_enter {c : Char} {cs : Text} {more : Nat} {inner : Frame}
    (h : stepInString c cs = some (.enter more inner)) : more = 1 := by
  unfold stepInString at h
  grind

theorem eq_quote_of_stepInString_leave {c : Char} {cs : Text}
    (h : stepInString c cs = some .leave) : c = '"' := by
  unfold stepInString at h
  grind

/-- A string that closes at once closes at a quote. -/
theorem head_of_extent_one {outer : List Frame} {t : Text}
    (h : extent 0 .quote outer t = .ok 1) : t.head? = some '"' := by
  cases t with
  | nil => cases h
  | cons c cs =>
    have step : ∀ {more : Nat} {f : Frame} {fs : List Frame},
        (extent more f fs cs).map (· + 1) ≠ .ok 1 := by
      intro more f fs h
      obtain ⟨m, hm, hm1⟩ := Except.map_eq_ok_iff.mp h
      have := extent_pos hm
      omega
    unfold extent at h
    dsimp only at h
    split at h
    · cases h
    · exact absurd h step
    · exact absurd h step
    · rename_i hleave
      rw [eq_quote_of_stepInString_leave hleave]
      rfl

/-- The steps in a string, none of them at a line feed. -/
theorem cases_of_stepInString {c : Char} {cs : Text} {step : Step}
    (h : stepInString c cs = some step) :
    c ≠ '\n' ∧ ((c = '"' ∧ step = .leave) ∨ (c = '\\' ∧ step = .stay 1) ∨
      ((c ≠ '"' ∧ c ≠ '\\' ∧ escapesTemplate c cs = false ∧ opensTemplate c cs = false) ∧
        step = .stay 0) ∨
      ((c = '$' ∨ c = '%') ∧ [c, '{'] <+: cs ∧ step = .stay 2) ∨
      ((c = '$' ∨ c = '%') ∧ ['{'] <+: cs ∧ step = .enter 1 .brace)) := by
  unfold stepInString at h
  split at h
  · rename_i hc
    cases h
    exact ⟨by rw [hc]; decide, Or.inr (Or.inl ⟨hc, rfl⟩)⟩
  rename_i hslash
  split at h
  · rename_i hc
    cases h
    exact ⟨by rw [hc]; decide, Or.inl ⟨hc, rfl⟩⟩
  rename_i hquote
  split at h
  · cases h
  rename_i hc
  refine ⟨hc, Or.inr (Or.inr ?_)⟩
  split at h
  · rename_i hescapes
    cases h
    simp only [escapesTemplate, Bool.and_eq_true, Bool.or_eq_true, decide_eq_true_eq,
      List.isPrefixOf_iff_prefix] at hescapes
    exact Or.inr (Or.inl ⟨hescapes.1, hescapes.2, rfl⟩)
  rename_i hescapes
  split at h
  · rename_i hopens
    cases h
    simp only [opensTemplate, Bool.and_eq_true, Bool.or_eq_true, decide_eq_true_eq,
      List.isPrefixOf_iff_prefix] at hopens
    exact Or.inr (Or.inr ⟨hopens.1, hopens.2, rfl⟩)
  · rename_i hopens
    cases h
    exact Or.inl ⟨⟨hquote, hslash, Bool.eq_false_iff.mpr hescapes, Bool.eq_false_iff.mpr hopens⟩,
      rfl⟩

theorem stepInString_congr {c : Char} {cs ds : Text}
    (hone : ['{'].isPrefixOf cs = ['{'].isPrefixOf ds)
    (htwo : [c, '{'].isPrefixOf cs = [c, '{'].isPrefixOf ds) :
    stepInString c cs = stepInString c ds := by
  unfold stepInString escapesTemplate opensTemplate
  rw [hone, htwo]

/-- The next step in a string is told by the characters up to the end of the string. -/
theorem stepInString_take {c : Char} {cs : Text} {m : Nat} (z : Text) (hpos : 0 < m)
    (hle : m ≤ cs.length) (hone : m = 1 → cs.head? = some '"') :
    stepInString c (cs.take m ++ z) = stepInString c cs := by
  rcases Nat.lt_or_ge 1 m with hm | hm
  · exact stepInString_congr (Text.isPrefixOf_take z hpos hle) (Text.isPrefixOf_take z hm hle)
  · obtain rfl : m = 1 := by omega
    obtain ⟨cs, rfl⟩ := List.head?_eq_some_iff.mp (hone rfl)
    by_cases hc : c = '"'
    · simp [stepInString, hc]
    · have hne : (c == '"') = false := beq_false_of_ne hc
      exact stepInString_congr rfl (by simp [List.isPrefixOf, hne])

/-- The next step in a string or a template is told by the characters up to its end. -/
theorem step_take {frame : Frame} {c : Char} {cs : Text} {m : Nat} (z : Text) (hpos : 0 < m)
    (hle : m ≤ cs.length) (hone : m = 1 → frame = .quote → cs.head? = some '"') :
    frame.step c (cs.take m ++ z) = frame.step c cs := by
  cases frame with
  | quote => exact stepInString_take z hpos hle fun h => hone h rfl
  | brace => rfl

/-- Where a string or a template ends does not depend on what follows it. -/
theorem extent_take {skip : Nat} {frame : Frame} {outer : List Frame} {t : Text} {n : Nat}
    (h : extent skip frame outer t = .ok n) (z : Text) :
    extent skip frame outer (t.take n ++ z) = .ok n := by
  induction t generalizing skip frame outer n with
  | nil => cases h
  | cons c cs ih =>
    have step : ∀ {more : Nat} {f : Frame} {fs : List Frame} {n : Nat},
        (extent more f fs cs).map (· + 1) = .ok n →
          ∃ m, n = m + 1 ∧ extent more f fs cs = .ok m ∧
            extent more f fs (cs.take m ++ z) = .ok m := by
      intro more f fs n h
      obtain ⟨m, hm, rfl⟩ := Except.map_eq_ok_iff.mp h
      exact ⟨m, rfl, hm, ih hm⟩
    unfold extent at h
    cases skip with
    | succ skip =>
      obtain ⟨m, rfl, -, hm⟩ := step h
      rw [List.take_succ_cons, List.cons_append, extent, hm]
      rfl
    | zero =>
      dsimp only at h
      split at h
      · cases h
      · rename_i more hnext
        obtain ⟨m, rfl, hread, hm⟩ := step h
        obtain ⟨hpos, hle⟩ := extent_pos hread
        have hsame : frame.step c (cs.take m ++ z) = frame.step c cs := by
          refine step_take z (by omega) hle fun hone hquote => ?_
          obtain rfl : more = 0 := by omega
          rw [hone, hquote] at hread
          exact head_of_extent_one hread
        rw [List.take_succ_cons, List.cons_append, extent_stay (hsame.trans hnext), hm]
        rfl
      · rename_i more inner hnext
        obtain ⟨m, rfl, hread, hm⟩ := step h
        obtain ⟨hpos, hle⟩ := extent_pos hread
        have hsame : frame.step c (cs.take m ++ z) = frame.step c cs := by
          refine step_take z (by omega) hle fun hone hquote => ?_
          rw [hquote] at hnext
          have := more_of_stepInString_enter hnext
          omega
        rw [List.take_succ_cons, List.cons_append, extent_enter (hsame.trans hnext), hm]
        rfl
      · rename_i hnext
        have hsame : ∀ ds, frame.step c ds = some .leave := by
          intro ds
          cases frame with
          | quote => rw [eq_quote_of_stepInString_leave hnext]; rfl
          | brace => exact hnext
        split at h
        · cases h
          rw [List.take_succ_cons, List.cons_append]
          exact extent_close (hsame _)
        · obtain ⟨m, rfl, -, hm⟩ := step h
          rw [List.take_succ_cons, List.cons_append, extent_leave (hsame _), hm]
          rfl

end Quoted

end HclQuery
